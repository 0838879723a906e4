import CurvedMesh.Proofs.Placeable
import CurvedMesh.Proofs.PointSets

/-!
# The radius of a new point

A new point around a center lies at the weighted sum of the distances, whichever way it was placed.
Where that sum is within the tolerance the new point may be the center itself, and it is if the
weights sum to one: by the triangle inequality the centroid then is no farther out.
-/

namespace CurvedMesh

variable {d : Nat}

/-! ## Weighted sums of vectors -/

theorem Point.norm_weightedSum_le {weights : List ℝ} (hweights : ∀ w ∈ weights, 0 ≤ w)
    (points : List (Point ℝ d)) :
    (weightedSum weights points).norm ≤
      (List.zipWith (fun w p => w * p.norm) weights points).sum := by
  have hfold (entries : List (ℝ × Point ℝ d)) (hentries : ∀ entry ∈ entries, 0 ≤ entry.1)
      (u : Point ℝ d) :
      (entries.foldl (fun sum entry => sum + entry.2.scale entry.1) u).norm ≤
        u.norm + (entries.map fun entry => entry.1 * entry.2.norm).sum := by
    induction entries generalizing u with
    | nil => simp
    | cons entry entries ih =>
      rw [List.forall_mem_cons] at hentries
      have htail := ih hentries.2 (u + entry.2.scale entry.1)
      have hhead := norm_add_le u (entry.2.scale entry.1)
      rw [norm_scale _ hentries.1] at hhead
      rw [List.foldl_cons, List.map_cons, List.sum_cons]
      linarith
  have hsum := hfold (weights.zip points) (fun entry h => hweights _ (List.of_mem_zip h).1) 0
  rw [norm_zero, zero_add] at hsum
  rwa [← List.map_uncurry_zip_eq_zipWith]

namespace Spheres

variable {s : Spheres ℝ d} {q : WeightedPoints ℝ d}

theorem centroid_eq_weightedSum (s : Spheres ℝ d) (hq : q.WellFormed) (hsum : q.weights.sum = 1) :
    s.centroid q = Point.weightedSum q.weights (q.points.map (· - s.center)) := by
  refine Point.ext_get fun i => ?_
  have hlength : q.weights.length = (q.points.map (·.get i)).length := by
    rw [hq.1, List.length_map]
  have hmove := Scalar.sum_zipWith_add_const hsum hlength (-s.center.get i)
  rw [centroid, Point.get_sub, Point.get_weightedSum, Point.get_weightedSum,
    Scalar.weightedSum_eq_sum, Scalar.weightedSum_eq_sum, sub_eq_add_neg, ← hmove, List.map_map,
    List.map_map]
  simp only [Function.comp_def, Point.get_sub, sub_eq_add_neg]

theorem norm_centroid_le (s : Spheres ℝ d) (hq : q.WellFormed) (hsum : q.weights.sum = 1) :
    (s.centroid q).norm ≤ s.averageRadius q := by
  have hweights : ∀ w ∈ q.weights, 0 ≤ w := fun w hw => not_lt.1 (hq.2.2 w hw)
  have hle := Point.norm_weightedSum_le hweights (q.points.map (· - s.center))
  rw [List.zipWith_map_right, ← s.centroid_eq_weightedSum hq hsum] at hle
  rwa [averageRadius_eq]

/-! ## All radii -/

theorem wellFormed_of_place {α : Type} [AnalyticScalar α] {s : Spheres α d}
    {q : WeightedPoints α d} {placement : Placement α d} (h : s.place q = .ok placement) :
    q.WellFormed := by
  rw [← WeightedPoints.fault?_eq_none_iff]
  cases hfault : q.fault? with
  | none => rfl
  | some fault =>
    rw [s.place_eq_error hfault] at h
    cases h

theorem place_eq_center (hq : q.WellFormed) (hsum : q.weights.sum = 1)
    (hsmall : s.averageRadius q ≤ radiusTolerance) : s.place q = .ok { point := s.center } := by
  rcases place_of_le_tolerance hq hsmall with hsnap | ⟨hfar, -⟩
  · exact hsnap
  · have hle := s.norm_centroid_le hq hsum
    linarith

/-- The distance of a new point is the weighted sum of the distances. Within the tolerance it may be
zero instead, and it is zero there if the weights sum to one. -/
theorem norm_place {placement : Placement ℝ d} (h : s.manifold.place q = .ok placement) :
    (radiusTolerance < s.weightedDistance q →
      (placement.point - s.center).norm = s.weightedDistance q) ∧
    (s.weightedDistance q ≤ radiusTolerance →
      ((placement.point - s.center).norm = 0 ∨
        (placement.point - s.center).norm = s.weightedDistance q) ∧
      (q.weights.sum = 1 → placement.point = s.center)) := by
  have hq : q.WellFormed := wellFormed_of_place h
  have hplace : s.place q = .ok placement := h
  have hcenter : (s.center - s.center).norm = 0 := by
    simp [Point.norm_eq_sqrt, Point.dot]
  rw [← averageRadius_eq]
  constructor
  · intro hlarge
    have hends := ends_place (WeightedPoints.check_eq_ok_iff.2 hq) hlarge
    rw [hplace] at hends
    exact hends
  · intro hsmall
    refine ⟨?_, fun hsum => ?_⟩
    · rcases place_of_le_tolerance hq hsmall with hsnap | ⟨hfar, hproject⟩
      · cases hplace.symm.trans hsnap
        exact .inl hcenter
      · cases hplace.symm.trans hproject
        exact .inr (norm_projection (s.averageRadius_nonneg hq) (radiusTolerance_pos.trans hfar))
    · cases hplace.symm.trans (place_eq_center hq hsum hsmall)
      rfl

theorem norm_place_twofold :
    radiusTolerance < (⟨#v[0, 0, 0], by decide⟩ : Spheres ℝ 3).weightedDistance
        ⟨[2], [#v[0, 0, 1]]⟩ ∧
      ∃ placement, (⟨#v[0, 0, 0], by decide⟩ : Spheres ℝ 3).manifold.place ⟨[2], [#v[0, 0, 1]]⟩ =
        .ok placement ∧ (placement.point - #v[0, 0, 0]).norm = 2 := by
  have hq : (⟨[2], [#v[0, 0, 1]]⟩ : WeightedPoints ℝ 3).WellFormed := by
    refine ⟨rfl, List.cons_ne_nil _ _, List.forall_mem_singleton.2 ?_⟩
    norm_num
  have hdistance : (⟨#v[0, 0, 0], by decide⟩ : Spheres ℝ 3).weightedDistance
      ⟨[2], [#v[0, 0, 1]]⟩ = 2 := by
    have hdot : (#v[0, 0, 1] - #v[0, 0, 0] : Point ℝ 3).dot (#v[0, 0, 1] - #v[0, 0, 0]) = 1 := by
      simp [Point.dot, Fin.sum_univ_three, Vector.get]
    simp [weightedDistance, Point.norm_eq_sqrt, hdot]
  have hlarge : radiusTolerance < (⟨#v[0, 0, 0], by decide⟩ : Spheres ℝ 3).weightedDistance
      ⟨[2], [#v[0, 0, 1]]⟩ := by
    rw [hdistance, radiusTolerance_eq]
    norm_num
  obtain ⟨placement, hplace⟩ := (Geometry.spheres ⟨#v[0, 0, 0], by decide⟩).exists_place hq
    (Geometry.not_undirected_of_le_three le_rfl)
  exact ⟨hlarge, placement, hplace, ((norm_place hplace).1 hlarge).trans hdistance⟩

end Spheres

end CurvedMesh
