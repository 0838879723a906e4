import CurvedMesh.Proofs.RealScalar
import CurvedMesh.Proofs.Midpoints
import CurvedMesh.Geometry.Spheres

/-!
# Midpoints on spheres

Unless the centroid is too close to the center, the new point lies on the ray through it, at the
average distance from the center. Two points that are seen from the center under no more than a
right angle have their centroid far enough out.
-/

namespace CurvedMesh.Spheres

variable {d : Nat}

theorem radiusTolerance_eq : (radiusTolerance : ℝ) = 1 / 10 ^ 10 := by
  norm_num [radiusTolerance]

theorem radiusTolerance_pos : (0 : ℝ) < radiusTolerance := by
  rw [radiusTolerance_eq]
  positivity

theorem tolerance_mul_max_lt {x : ℝ} (hx : radiusTolerance < x) :
    radiusTolerance * max x 1 < x := by
  rw [radiusTolerance_eq] at hx ⊢
  rcases max_choice x 1 with hmax | hmax
  · rw [hmax]
    linarith
  · rw [hmax]
    linarith

/-! ## Projection -/

/-- The point on the ray through the centroid, at the average distance from the center. -/
noncomputable def projection (s : Spheres ℝ d) (q : WeightedPoints ℝ d) : Point ℝ d :=
  s.center + (s.centroid q).scale (s.averageRadius q / (s.centroid q).norm)

theorem projection_sub_center (s : Spheres ℝ d) (q : WeightedPoints ℝ d) :
    s.projection q - s.center =
      (s.centroid q).scale (s.averageRadius q / (s.centroid q).norm) := by
  ext i h
  simp only [projection, Vector.getElem_sub, Vector.getElem_add]
  ring

theorem project_eq_projection (s : Spheres ℝ d) {q : WeightedPoints ℝ d} (hcheck : q.check = .ok ())
    (hfar : radiusTolerance * max (s.averageRadius q) 1 < (s.centroid q).norm) :
    s.project q = .ok { point := s.projection q } := by
  unfold project
  rw [hcheck]
  simp only [Scalar.greater_eq_max]
  change (if _ then _ else _) = _
  rw [if_neg (not_le.2 hfar)]
  rfl

theorem place_eq_projection (s : Spheres ℝ d) (hd : d ≠ 2) {q : WeightedPoints ℝ d}
    (hcheck : q.check = .ok ())
    (hfar : radiusTolerance * max (s.averageRadius q) 1 < (s.centroid q).norm) :
    s.place q = .ok { point := s.projection q } := by
  rw [place, if_neg hd]
  exact s.project_eq_projection hcheck hfar

/-! ## Two points -/

theorem averageRadius_halves (s : Spheres ℝ d) (p q : Point ℝ d) :
    s.averageRadius (.halves p q) = ((p - s.center).norm + (q - s.center).norm) / 2 := by
  simp only [averageRadius, WeightedPoints.pairs, WeightedPoints.halves, List.zip_cons_cons,
    List.zip_nil_left, List.foldl_cons, List.foldl_nil, Scalar.half_eq]
  ring

theorem centroid_halves (s : Spheres ℝ d) (p q : Point ℝ d) :
    s.centroid (.halves p q) = ((p - s.center) + (q - s.center)).scale (1 / 2) := by
  ext i h
  simp only [centroid, WeightedPoints.halves, Scalar.half_eq, Point.weightedSum_pair,
    Point.getElem_scale, Vector.getElem_add, Vector.getElem_sub]
  ring

noncomputable def bisector (s : Spheres ℝ d) (p q : Point ℝ d) : Point ℝ d :=
  s.projection (.halves p q)

theorem bisector_sub_center (s : Spheres ℝ d) (p q : Point ℝ d) :
    s.bisector p q - s.center = ((p - s.center) + (q - s.center)).scale
      (1 / 2 * (s.averageRadius (.halves p q) / (s.centroid (.halves p q)).norm)) := by
  rw [bisector, projection_sub_center]
  nth_rewrite 1 [centroid_halves]
  rw [Point.scale_scale]

theorem bisector_comm (s : Spheres ℝ d) (p q : Point ℝ d) : s.bisector p q = s.bisector q p := by
  have hradius : s.averageRadius (.halves p q) = s.averageRadius (.halves q p) := by
    rw [averageRadius_halves, averageRadius_halves, add_comm]
  have hcentroid : s.centroid (.halves p q) = s.centroid (.halves q p) := by
    rw [centroid_halves, centroid_halves]
    ext i h
    simp only [Point.getElem_scale, Vector.getElem_add]
    ring
  unfold bisector projection
  rw [hradius, hcentroid]

theorem midpoint_eq_bisector_of_far {s : Spheres ℝ d} {p q : Point ℝ d} (hd : d ≠ 2)
    (hfar : radiusTolerance * max (s.averageRadius (.halves p q)) 1 <
      (s.centroid (.halves p q)).norm) :
    s.manifold.midpoint p q = .ok { point := s.bisector p q } := by
  rw [Manifold.midpoint_eq_place]
  exact s.place_eq_projection hd (WeightedPoints.check_halves p q) hfar

/-! ## Right angles and less -/

theorem tolerance_lt_norm_add {u v : Point ℝ d} (hdot : 0 ≤ u.dot v) (hu : 2 / 10 ^ 10 < u.norm)
    (hv : 2 / 10 ^ 10 < v.norm) :
    radiusTolerance * max ((u.norm + v.norm) / 2) 1 < (u + v).norm / 2 := by
  have hsq := Point.norm_add_mul_self u v
  have hsum := Point.norm_nonneg (u + v)
  set a := u.norm
  set b := v.norm
  set x := (u + v).norm
  rw [radiusTolerance_eq]
  have hhalf : (a + b) * (a + b) / 2 ≤ x * x := by
    have := mul_self_nonneg (a - b)
    linarith
  rcases max_choice ((a + b) / 2) 1 with hmax | hmax
  · rw [hmax]
    by_contra hle
    have hx : x ≤ (a + b) / 10 ^ 10 := by linarith
    have hxx := mul_self_le_mul_self hsum hx
    have hpos : 0 < (a + b) * (a + b) := mul_self_pos.2 (by linarith)
    linarith
  · rw [hmax]
    by_contra hle
    have hx : x ≤ 2 / 10 ^ 10 := by linarith
    have hxx := mul_self_le_mul_self hsum hx
    have haa := mul_self_lt_mul_self (by norm_num) hu
    have hbb := mul_self_nonneg b
    linarith

variable {s : Spheres ℝ d} {p q : Point ℝ d}

theorem tolerance_lt_norm_centroid (hdot : 0 ≤ (p - s.center).dot (q - s.center))
    (hp : 2 / 10 ^ 10 < (p - s.center).norm) (hq : 2 / 10 ^ 10 < (q - s.center).norm) :
    radiusTolerance * max (s.averageRadius (.halves p q)) 1 <
      (s.centroid (.halves p q)).norm := by
  have hhalf : (0 : ℝ) ≤ 1 / 2 := by norm_num
  have hlt := tolerance_lt_norm_add hdot hp hq
  rw [averageRadius_halves, centroid_halves, Point.norm_scale _ hhalf]
  linarith

theorem midpoint_eq_bisector (hd : d ≠ 2) (hdot : 0 ≤ (p - s.center).dot (q - s.center))
    (hp : 2 / 10 ^ 10 < (p - s.center).norm) (hq : 2 / 10 ^ 10 < (q - s.center).norm) :
    s.manifold.midpoint p q = .ok { point := s.bisector p q } :=
  midpoint_eq_bisector_of_far hd (tolerance_lt_norm_centroid hdot hp hq)

/-- The bisector lies on the ray through the middle of the chord, no nearer than the ends. -/
theorem exists_bisector_eq_scale (hdot : 0 ≤ (p - s.center).dot (q - s.center))
    (hp : 2 / 10 ^ 10 < (p - s.center).norm) (hq : 2 / 10 ^ 10 < (q - s.center).norm) :
    ∃ a > 0, s.bisector p q - s.center = ((p - s.center) + (q - s.center)).scale a ∧
      2 / 10 ^ 10 < (((p - s.center) + (q - s.center)).scale a).norm := by
  have hradius := s.averageRadius_halves p q
  have hpos : 0 < (s.centroid (.halves p q)).norm := by
    have hlt := tolerance_lt_norm_centroid hdot hp hq
    have hge : (0 : ℝ) ≤ radiusTolerance * max (s.averageRadius (.halves p q)) 1 := by
      rw [radiusTolerance_eq]
      positivity
    linarith
  have hratio : 0 < s.averageRadius (.halves p q) / (s.centroid (.halves p q)).norm := by
    apply div_pos _ hpos
    linarith
  refine ⟨_, by positivity, s.bisector_sub_center p q, ?_⟩
  rw [← bisector_sub_center, bisector, projection_sub_center, Point.norm_scale _ hratio.le,
    div_mul_cancel₀ _ hpos.ne']
  linarith

end CurvedMesh.Spheres
