import Mathlib.Analysis.SpecialFunctions.Complex.Arg
import CurvedMesh.Proofs.Dot

/-!
# Real scalars

The real numbers with the real square root and the real trigonometric functions. The angle of a
point is the argument of a complex number, and zero at the origin.
-/

namespace CurvedMesh

noncomputable instance : AnalyticScalar ℝ where
  toScalar := exactScalar
  sqrt := Real.sqrt
  sin := Real.sin
  cos := Real.cos
  atan2 y x := Complex.arg ⟨x, y⟩
  twoPi := 2 * Real.pi

namespace Point

variable {d : Nat}

theorem norm_eq_sqrt (u : Point ℝ d) : u.norm = √(u.dot u) := by
  rw [← normSq_eq_dot]
  rfl

theorem norm_nonneg (u : Point ℝ d) : 0 ≤ u.norm := by
  rw [norm_eq_sqrt]
  exact Real.sqrt_nonneg _

theorem norm_zero : (0 : Point ℝ d).norm = 0 := by
  simp [norm_eq_sqrt, dot, Vector.get]

theorem norm_mul_self (u : Point ℝ d) : u.norm * u.norm = u.dot u := by
  rw [norm_eq_sqrt]
  exact Real.mul_self_sqrt (dot_self_nonneg u)

theorem norm_scale (u : Point ℝ d) {a : ℝ} (ha : 0 ≤ a) : (u.scale a).norm = a * u.norm := by
  have hsq : (u.scale a).dot (u.scale a) = a ^ 2 * u.dot u := by
    rw [scale_dot, dot_scale]
    ring
  rw [norm_eq_sqrt, norm_eq_sqrt, hsq, Real.sqrt_mul (sq_nonneg a), Real.sqrt_sq ha]

theorem norm_add_mul_self (u v : Point ℝ d) :
    (u + v).norm * (u + v).norm = u.norm * u.norm + 2 * u.dot v + v.norm * v.norm := by
  simp only [norm_mul_self, add_dot, dot_add]
  rw [dot_comm v u]
  ring

theorem dot_le_norm_mul_norm (u v : Point ℝ d) : u.dot v ≤ u.norm * v.norm := by
  have hcauchy := Real.sum_mul_le_sqrt_mul_sqrt Finset.univ u.get v.get
  simp only [pow_two] at hcauchy
  rw [norm_eq_sqrt, norm_eq_sqrt]
  exact hcauchy

theorem norm_add_le (u v : Point ℝ d) : (u + v).norm ≤ u.norm + v.norm := by
  have hsum := norm_add_mul_self u v
  have hdot := dot_le_norm_mul_norm u v
  have hpos := add_nonneg (norm_nonneg u) (norm_nonneg v)
  refine (mul_self_le_mul_self_iff (norm_nonneg _) hpos).2 ?_
  linarith

end Point

end CurvedMesh
