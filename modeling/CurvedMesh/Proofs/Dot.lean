import Mathlib.Algebra.BigOperators.Fin
import Mathlib.Algebra.Order.BigOperators.Ring.Finset
import CurvedMesh.Proofs.Exact

/-!
# Dot products

Squared lengths are dot products in every dimension, whatever the order of the summands.
-/

namespace CurvedMesh.Point

variable {K : Type} [Field K] {d : Nat}

def dot (u v : Point K d) : K :=
  ∑ i : Fin d, u.get i * v.get i

theorem dot_comm (u v : Point K d) : u.dot v = v.dot u := by
  unfold dot
  exact Finset.sum_congr rfl fun i _ => mul_comm _ _

theorem add_dot (u v w : Point K d) : (u + v).dot w = u.dot w + v.dot w := by
  simp only [dot, get_add]
  rw [← Finset.sum_add_distrib]
  refine Finset.sum_congr rfl fun i _ => ?_
  ring

theorem dot_add (u v w : Point K d) : u.dot (v + w) = u.dot v + u.dot w := by
  rw [dot_comm, add_dot, dot_comm v, dot_comm w]

theorem scale_dot (u v : Point K d) (a : K) : (u.scale a).dot v = a * u.dot v := by
  simp only [dot, get_scale]
  rw [Finset.mul_sum]
  refine Finset.sum_congr rfl fun i _ => ?_
  ring

theorem dot_scale (u v : Point K d) (a : K) : u.dot (v.scale a) = a * u.dot v := by
  rw [dot_comm, scale_dot, dot_comm]

/-! ## Squared lengths -/

theorem toList_eq_ofFn {α : Type} (u : Point α d) : u.toList = List.ofFn u.get := by
  apply List.ext_getElem
  · simp
  · intro i h h'
    simp [Vector.get]

variable [LinearOrder K]

theorem normSq_eq_dot [FloorRing K] (u : Point K d) : u.normSq = u.dot u := by
  unfold normSq
  split
  · simp only [dot, Fin.sum_univ_four]
    ring!
  · rw [foldl_add_eq_sum (fun x : K => x * x), zero_add, toList_eq_ofFn, List.map_ofFn,
      List.sum_ofFn]
    rfl

theorem dot_self_nonneg [IsStrictOrderedRing K] (u : Point K d) : 0 ≤ u.dot u :=
  Finset.sum_nonneg fun i _ => mul_self_nonneg (u.get i)

end CurvedMesh.Point
