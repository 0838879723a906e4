import Mathlib.Algebra.Order.Floor.Ring
import Mathlib.Algebra.Order.Field.Basic
import Mathlib.Tactic.Linarith
import Mathlib.Tactic.NormNum
import Mathlib.Tactic.Ring
import CurvedMesh.Point

/-!
# Exact scalars

A linearly ordered field with floors is a type of scalars. Its arithmetic does not round.
-/

namespace CurvedMesh

variable {K : Type} [Field K] [LinearOrder K] [FloorRing K]

def truncate (x : K) : ℤ :=
  if 0 ≤ x then ⌊x⌋ else ⌈x⌉

instance exactScalar : Scalar K where
  decLt := inferInstance
  decLe := inferInstance
  floor x := ⌊x⌋
  rem x y := x - y * truncate (x / y)

theorem foldl_add_eq_sum {M β : Type} [AddMonoid M] (f : β → M) (l : List β) (a : M) :
    l.foldl (fun sum b => sum + f b) a = a + (l.map f).sum := by
  induction l generalizing a with
  | nil => simp
  | cons b l ih => rw [List.foldl_cons, ih, List.map_cons, List.sum_cons, add_assoc]

namespace Scalar

theorem half_eq : (half : K) = 1 / 2 := by
  simp [half]

theorem greater_eq_max (a b : K) : greater a b = max a b := by
  unfold greater
  split
  · rename_i h
    exact (max_eq_left h).symm
  · rename_i h
    rw [if_pos le_rfl, max_eq_right (le_of_not_ge h)]

end Scalar

namespace Point

variable {d : Nat}

theorem ext_get {α : Type} {p q : Point α d} (h : ∀ i : Fin d, p.get i = q.get i) : p = q := by
  ext i hi
  exact h ⟨i, hi⟩

theorem eq_iff_of_other_axes {α : Type} {p q : Point α d} {i : Fin d}
    (h : ∀ j ≠ i, p.get j = q.get j) : p = q ↔ p.get i = q.get i := by
  refine ⟨fun heq => heq ▸ rfl, fun heq => ext_get fun j => ?_⟩
  by_cases hj : j = i
  · rw [hj, heq]
  · exact h j hj

@[simp] theorem get_add {α : Type} [Add α] (p q : Point α d) (i : Fin d) :
    (p + q).get i = p.get i + q.get i :=
  Vector.getElem_add p q i i.isLt

@[simp] theorem get_sub {α : Type} [Sub α] (p q : Point α d) (i : Fin d) :
    (p - q).get i = p.get i - q.get i :=
  Vector.getElem_sub p q i i.isLt

@[simp] theorem getElem_scale {α : Type} [Mul α] (p : Point α d) (a : α) (i : Nat) (h : i < d) :
    (p.scale a)[i] = p[i] * a := by
  simp only [scale, Vector.getElem_map]

@[simp] theorem get_scale {α : Type} [Mul α] (p : Point α d) (a : α) (i : Fin d) :
    (p.scale a).get i = p.get i * a :=
  getElem_scale p a i i.isLt

theorem add_sub_self (p q : Point K d) : p + q - p = q := by
  ext i h
  simp

theorem add_sub_cancel (p q : Point K d) : p + (q - p) = q := by
  ext i h
  simp

theorem zero_scale (a : K) : (0 : Point K d).scale a = 0 := by
  ext i h
  simp

theorem scale_zero (p : Point K d) : p.scale 0 = 0 := by
  ext i h
  simp

theorem scale_one (p : Point K d) : p.scale 1 = p := by
  ext i h
  simp

theorem scale_scale (p : Point K d) (a b : K) : (p.scale a).scale b = p.scale (a * b) := by
  ext i h
  simp only [getElem_scale]
  ring

theorem weightedSum_pair (a b : K) (p q : Point K d) :
    weightedSum [a, b] [p, q] = p.scale a + q.scale b := by
  ext i h
  simp only [weightedSum, List.zip_cons_cons, List.zip_nil_left, List.foldl_cons, List.foldl_nil,
    Vector.getElem_add, Vector.getElem_zero, zero_add]

end Point

end CurvedMesh
