import CurvedMesh.Proofs.Midpoints
import CurvedMesh.Proofs.PeriodAverage

/-!
# Averages in a chart

A point is placed by a chart when all points can be read in it and the average can be mapped back.
Each axis is averaged on its own: a periodic one by `Period.average`, and any other as it stands.
-/

namespace CurvedMesh

section

variable {α : Type} {d : Nat} [Scalar α]

theorem Point.get_weightedSum (weights : List α) (points : List (Point α d)) (i : Fin d) :
    (weightedSum weights points).get i =
      Scalar.weightedSum weights (points.map (·.get i)) := by
  have hzero : (0 : Point α d).get i = 0 := Vector.getElem_zero i i.isLt
  rw [weightedSum, Scalar.weightedSum, List.zip_map_right, List.foldl_map, ← hzero]
  symm
  apply List.foldl_hom (Vector.get · i)
  intro sum entry
  simp

namespace Chart

theorem place_eq_ok_iff {c : Chart α d} {q : WeightedPoints α d} {p : Point α d} :
    c.place q = .ok p ↔ q.check = .ok () ∧ ∃ points, q.points.map c.ofSpace = points.map .ok ∧
      c.toSpace (average c.periodicity q.weights points) = .ok p := by
  simp only [place, bind_eq_ok_iff, mapError_eq_ok_iff, mapM_eq_ok_iff]
  constructor
  · rintro ⟨_, hcheck, hrest⟩
    exact ⟨hcheck, hrest⟩
  · rintro ⟨hcheck, hrest⟩
    exact ⟨(), hcheck, hrest⟩

theorem get_wrap (periodicity p : Point α d) (i : Fin d) : (wrap periodicity p).get i =
    if 0 < periodicity.get i then Period.wrap (periodicity.get i) (p.get i) else p.get i :=
  Vector.getElem_ofFn i.isLt

theorem map_get_unwrap_of_not_pos {periodicity : Point α d} {i : Fin d}
    (h : ¬ 0 < periodicity.get i) (points : List (Point α d)) :
    (unwrap periodicity points).map (·.get i) = points.map (·.get i) := by
  cases points with
  | nil => rfl
  | cons p points =>
    simp only [unwrap, List.map_map]
    refine List.map_congr_left fun q _ => ?_
    exact (Vector.getElem_ofFn i.isLt).trans (if_neg h)

theorem get_least (p : Point α d) (points : List (Point α d)) (i : Fin d) :
    (least p points).get i = (points.map (·.get i)).foldl Scalar.lesser (p.get i) := by
  rw [least, List.foldl_map]
  symm
  apply List.foldl_hom (Vector.get · i)
  intro low q
  exact (Vector.getElem_zipWith i.isLt).symm

theorem map_get_unwrap_of_pos {periodicity : Point α d} {i : Fin d} (h : 0 < periodicity.get i)
    (points : List (Point α d)) : (unwrap periodicity points).map (·.get i) =
      Period.unwrapAll (periodicity.get i) (points.map (·.get i)) := by
  cases points with
  | nil => rfl
  | cons p points =>
    simp only [unwrap, Period.unwrapAll, List.map_cons, ← get_least, List.map_map, List.cons.injEq]
    refine ⟨(Vector.getElem_ofFn i.isLt).trans (if_pos h), List.map_congr_left fun q _ => ?_⟩
    exact (Vector.getElem_ofFn i.isLt).trans (if_pos h)

theorem get_average_of_not_pos {periodicity : Point α d} {i : Fin d} (h : ¬ 0 < periodicity.get i)
    (weights : List α) (points : List (Point α d)) : (average periodicity weights points).get i =
      Scalar.weightedSum weights (points.map (·.get i)) := by
  rw [average, get_wrap, if_neg h, Point.get_weightedSum, map_get_unwrap_of_not_pos h]

theorem get_average_of_pos {periodicity : Point α d} {i : Fin d} (h : 0 < periodicity.get i)
    (weights : List α) (points : List (Point α d)) : (average periodicity weights points).get i =
      Period.average (periodicity.get i) weights (points.map (·.get i)) := by
  rw [average, get_wrap, if_pos h, Point.get_weightedSum, map_get_unwrap_of_pos h, Period.average]

theorem get_average_congr {periodicity : Point α d} {weights : List α}
    {points points' : List (Point α d)} {i : Fin d}
    (h : points'.map (·.get i) = points.map (·.get i)) :
    (average periodicity weights points').get i = (average periodicity weights points).get i := by
  by_cases hperiodic : 0 < periodicity.get i
  · rw [get_average_of_pos hperiodic, get_average_of_pos hperiodic, h]
  · rw [get_average_of_not_pos hperiodic, get_average_of_not_pos hperiodic, h]

end Chart

end

namespace Chart

variable {K : Type} [Field K] [LinearOrder K] [FloorRing K] {d : Nat}

/-- The average of two points of the same weight. -/
def middle (periodicity p q : Point K d) : Point K d :=
  average periodicity [Scalar.half, Scalar.half] [p, q]

theorem get_middle (periodicity p q : Point K d) (i : Fin d) : (middle periodicity p q).get i =
    if 0 < periodicity.get i then Period.middle (periodicity.get i) (p.get i) (q.get i)
    else (Point.mean p q).get i := by
  split
  · rename_i h
    rw [middle, get_average_of_pos h]
    exact Period.average_pair _ _ _
  · rename_i h
    rw [middle, get_average_of_not_pos h, Point.mean, Point.get_weightedSum]

theorem middle_comm (periodicity p q : Point K d) :
    middle periodicity p q = middle periodicity q p := by
  refine Point.ext_get fun i => ?_
  rw [get_middle, get_middle, Period.middle_comm, Point.mean_comm]

end Chart

end CurvedMesh
