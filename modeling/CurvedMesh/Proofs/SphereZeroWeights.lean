import CurvedMesh.Proofs.PlacedRadius
import CurvedMesh.Proofs.SphericalCoordinates
import CurvedMesh.Proofs.ZeroWeights

/-!
# Points of weight zero around a center

Points of weight zero change neither the average radius nor the centroid. So they matter only where
the angles are averaged, and there as on any periodic axis. In three dimensions the angles are
averaged only if the centroid gives no direction, and then the average cannot lie on the third axis,
where the last angle would be lost.
-/

namespace CurvedMesh

open AnalyticScalar

variable {d : Nat} {q : WeightedPoints ℝ d}

theorem Point.abs_get_le_norm (u : Point ℝ d) (i : Fin d) : |u.get i| ≤ u.norm := by
  have hle : u.get i * u.get i ≤ u.dot u :=
    Finset.single_le_sum (f := fun j => u.get j * u.get j) (fun j _ => mul_self_nonneg (u.get j))
      (Finset.mem_univ i)
  rw [norm_eq_sqrt]
  refine Real.abs_le_sqrt ?_
  rwa [pow_two]

/-! ## Average radius and centroid -/

namespace Spheres

variable {s : Spheres ℝ d}

theorem averageRadius_withoutZeros (s : Spheres ℝ d) (q : WeightedPoints ℝ d) :
    s.averageRadius q.withoutZeros = s.averageRadius q := by
  rw [averageRadius_eq_mean, averageRadius_eq_mean, q.mean_withoutZeros]

theorem centroid_withoutZeros (s : Spheres ℝ d) (q : WeightedPoints ℝ d) :
    s.centroid q.withoutZeros = s.centroid q := by
  have hsum : Point.weightedSum q.withoutZeros.weights q.withoutZeros.points =
      Point.weightedSum q.weights q.points := by
    refine Point.ext_get fun i => ?_
    rw [WeightedPoints.get_weightedSum, WeightedPoints.get_weightedSum, q.mean_withoutZeros]
  rw [centroid, centroid, hsum]

theorem get_centroid (s : Spheres ℝ d) (hq : q.WellFormed) (hsum : q.weights.sum = 1) (i : Fin d) :
    (s.centroid q).get i = q.mean fun p => (p - s.center).get i := by
  rw [s.centroid_eq_weightedSum hq hsum, Point.get_weightedSum, List.map_map,
    WeightedPoints.weightedSum_eq_mean]
  rfl

/-! ## The third axis -/

theorem mean_fromAxis_add (s : Spheres ℝ 3) {q : WeightedPoints ℝ 3} (hq : q.WellFormed)
    (hsum : q.weights.sum = 1) : (q.mean fun p => fromAxis (p - s.center)) +
      (q.mean fun p => Real.pi - fromAxis (p - s.center)) = Real.pi :=
  WeightedPoints.mean_add_mean hq hsum fun _ => add_sub_cancel _ _

theorem averageRadius_le_norm_centroid {s : Spheres ℝ 3} {q : WeightedPoints ℝ 3}
    (hq : q.WellFormed) (hsum : q.weights.sum = 1)
    (h : (q.mean fun p => fromAxis (p - s.center)) = 0 ∨
      (q.mean fun p => fromAxis (p - s.center)) = Real.pi) :
    s.averageRadius q ≤ (s.centroid q).norm := by
  obtain ⟨x, hx, hsame⟩ : ∃ x, |Real.cos x| = 1 ∧
      ∀ entry ∈ q.pairs, entry.1 = 0 ∨ fromAxis (entry.2 - s.center) = x := by
    rcases h with hzero | hpi
    · refine ⟨0, by simp, ?_⟩
      exact q.eq_zero_of_mean_eq_zero hq (fun p => (fromAxis_mem_Icc _).1) hzero
    · refine ⟨Real.pi, by simp, fun entry hentry => ?_⟩
      have hrest := s.mean_fromAxis_add hq hsum
      rw [hpi, add_eq_left] at hrest
      have hleast := WeightedPoints.eq_zero_of_mean_eq_zero hq
        (fun p => sub_nonneg.2 (fromAxis_mem_Icc _).2) hrest entry hentry
      exact hleast.imp_right fun heq => (sub_eq_zero.1 heq).symm
  have hheight : (s.centroid q).get 2 = Real.cos x * s.averageRadius q := by
    rw [get_centroid s hq hsum, averageRadius_eq_mean, ← WeightedPoints.mean_mul]
    refine WeightedPoints.mean_congr fun entry hentry => (hsame entry hentry).imp_right ?_
    rintro rfl
    exact (cos_fromAxis_mul_norm _).symm
  calc s.averageRadius q ≤ |s.averageRadius q| := le_abs_self _
    _ = |(s.centroid q).get 2| := by rw [hheight, abs_mul, hx, one_mul]
    _ ≤ (s.centroid q).norm := Point.abs_get_le_norm _ 2

/-! ## Averages in the chart -/

theorem periodic_iff (s : Spheres ℝ d) (i : Fin d) :
    0 < (periodicity : Point ℝ d).get i ↔ i = s.lastAngle := by
  have hd := s.two_le
  have hlast : i = s.lastAngle ↔ i.val + 1 = d := by
    rw [Fin.ext_iff]
    change i.val = d - 1 ↔ _
    omega
  rw [get_periodicity, hlast]
  split
  · rename_i hi
    exact iff_of_true twoPi_pos hi
  · rename_i hi
    exact iff_of_false (lt_irrefl 0) hi

theorem get_lastAngle_periodicity (s : Spheres ℝ d) :
    (periodicity : Point ℝ d).get s.lastAngle = twoPi := by
  have hd := s.two_le
  rw [get_periodicity, if_pos]
  change d - 1 + 1 = d
  omega

theorem firstAngle_not_periodic (s : Spheres ℝ 3) :
    ¬ 0 < (periodicity : Point ℝ 3).get s.firstAngle := by
  rw [s.periodic_iff]
  exact fun h => absurd (congrArg Fin.val h) (by decide : 1 ≠ 3 - 1)

variable {points : List (Point ℝ d)}

theorem get_firstAngle_average {s : Spheres ℝ 3} {q : WeightedPoints ℝ 3}
    {points : List (Point ℝ 3)} (hread : s.chart.Reads q.points points) :
    (Chart.average periodicity q.weights points).get s.firstAngle =
      q.mean fun p => fromAxis (p - s.center) := by
  have hangles : points.map (·.get s.firstAngle) =
      q.points.map fun p => fromAxis (p - s.center) := by
    refine map_eq_map_of_ok (fun p _ x hp => ?_) hread
    change toAngles (p - s.center) = .ok x at hp
    rw [toAngles_eq] at hp
    cases hp
    rfl
  rw [Chart.get_average_of_not_pos s.firstAngle_not_periodic, hangles,
    WeightedPoints.weightedSum_eq_mean]

theorem canonical_average (hq : q.WellFormed) (hsum : q.weights.sum = 1)
    (hread : s.chart.Reads q.points points) :
    s.Canonical (Chart.average periodicity q.weights points) where
  radius := by
    rw [get_radial_average hread]
    exact s.averageRadius_nonneg hq
  last := by
    rw [Chart.get_average_of_pos ((s.periodic_iff _).2 rfl), get_lastAngle_periodicity]
    exact Period.wrap_mem_Ico twoPi_pos _
  first := by
    rintro rfl
    have hsplit := s.mean_fromAxis_add hq hsum
    have hangle := q.mean_nonneg hq fun p => (fromAxis_mem_Icc (p - s.center)).1
    have hrest := q.mean_nonneg hq fun p => sub_nonneg.2 (fromAxis_mem_Icc (p - s.center)).2
    rw [get_firstAngle_average hread]
    exact ⟨hangle, by linarith⟩

/-- Neither the center nor the centroid decides where the new point lies. -/
structure AnglesDecide (s : Spheres ℝ d) (q : WeightedPoints ℝ d) : Prop where
  le_three : d ≤ 3
  large : radiusTolerance < s.averageRadius q
  near : d = 3 → (s.centroid q).norm ≤ radiusTolerance * max (s.averageRadius q) 1

theorem AnglesDecide.withoutZeros (h : s.AnglesDecide q) : s.AnglesDecide q.withoutZeros where
  le_three := h.le_three
  large := by
    rw [s.averageRadius_withoutZeros]
    exact h.large
  near := by
    rw [s.averageRadius_withoutZeros, s.centroid_withoutZeros]
    exact h.near

theorem not_onAxis_average (hq : q.WellFormed) (hsum : q.weights.sum = 1)
    (hread : s.chart.Reads q.points points) (hangles : s.AnglesDecide q) :
    ¬ s.OnAxis (Chart.average periodicity q.weights points) := by
  rintro ⟨rfl, haxis⟩
  rw [get_firstAngle_average hread] at haxis
  have hle := (averageRadius_le_norm_centroid hq hsum haxis).trans (hangles.near rfl)
  exact absurd hle (not_le.2 (tolerance_mul_max_lt hangles.large))

/-! ## New points -/

theorem exists_place_ofSpace (hq : q.WellFormed) (hsum : q.weights.sum = 1)
    (hread : s.chart.Reads q.points points) (hangles : s.AnglesDecide q) :
    ∃ p, s.chart.place q = .ok p ∧
      s.chart.ofSpace p = .ok (Chart.average periodicity q.weights points) := by
  have hcanonical := canonical_average hq hsum hread
  have haxis := not_onAxis_average hq hsum hread hangles
  have hlarge := hangles.large
  rw [← get_radial_average hread] at hlarge
  obtain ⟨p, hwrite, hback⟩ := exists_toSpace hangles.le_three hcanonical hlarge
  rw [if_neg haxis] at hback
  refine ⟨p, ?_, hback⟩
  rw [Chart.place_of_reads hq hread]
  exact congrArg (Except.mapError Fault.chart) hwrite

theorem exists_chart_place_withoutZeros (hq : q.WellFormed) (hsum : q.weights.sum = 1)
    (hread : s.chart.Reads q.points points) (hangles : s.AnglesDecide q) :
    ∃ p p', s.chart.place q = .ok p ∧ s.chart.place q.withoutZeros = .ok p' ∧
      (p' = p ↔ Period.Undisturbed twoPi
        ((⟨q.weights, points⟩ : WeightedPoints ℝ d).axis s.lastAngle)) := by
  set angles : WeightedPoints ℝ d := ⟨q.weights, points⟩
  have hformed : angles.WellFormed := hq.of_weights rfl hread.length_eq.symm
  have hq' := WeightedPoints.wellFormed_withoutZeros hq hsum
  have hsum' : q.withoutZeros.weights.sum = 1 :=
    (WeightedPoints.sum_weights_withoutZeros hq).trans hsum
  obtain ⟨hweights, hread'⟩ := hread.withoutZeros
  obtain ⟨p, hplace, hback⟩ := exists_place_ofSpace hq hsum hread hangles
  obtain ⟨p', hplace', hback'⟩ := exists_place_ofSpace hq' hsum' hread' hangles.withoutZeros
  refine ⟨p, p', hplace, hplace', ?_⟩
  have hperiods : (∀ i, 0 < (periodicity : Point ℝ d).get i →
      Period.Undisturbed ((periodicity : Point ℝ d).get i) (angles.axis i)) ↔
        Period.Undisturbed twoPi (angles.axis s.lastAngle) := by
    simp only [s.periodic_iff, forall_eq, s.get_lastAngle_periodicity]
  rw [← hperiods, ← Chart.average_withoutZeros_eq_iff hformed hsum, hweights]
  constructor
  · rintro rfl
    exact Except.ok.inj (hback'.symm.trans hback)
  · intro heq
    rw [Chart.place_of_reads hq hread] at hplace
    rw [Chart.place_of_reads hq' hread'] at hplace'
    change (s.chart.toSpace (Chart.average periodicity _ _)).mapError _ = _ at hplace hplace'
    rw [heq, hplace] at hplace'
    exact (Except.ok.inj hplace').symm

theorem place_of_chart_place (hq : q.WellFormed) (hangles : s.AnglesDecide q) {p : Point ℝ d}
    (h : s.chart.place q = .ok p) :
    s.place q = .ok
      { point := p, fallback? := if d = 2 then none else some ⟨s.center, s.averageRadius q⟩ } := by
  unfold place
  split
  · rw [h]
    rfl
  · have hthree : d = 3 := by
      have hd := hangles.le_three
      have := s.two_le
      omega
    rw [project_of_no_direction (WeightedPoints.check_eq_ok_iff.2 hq) hangles.large
      (hangles.near hthree), if_neg (not_lt.2 hangles.le_three), h]
    rfl

theorem exists_place_withoutZeros (hd : d ≤ 3) (hq : q.WellFormed) (hsum : q.weights.sum = 1) :
    ∃ points p p', s.chart.Reads q.points points ∧ s.manifold.place q = .ok p ∧
      s.manifold.place q.withoutZeros = .ok p' ∧ p'.fallback? = p.fallback? ∧
        (p'.point = p.point ↔ s.weightedDistance q ≤ radiusTolerance ∨
          d = 3 ∧ radiusTolerance * max (s.weightedDistance q) 1 < (s.centroid q).norm ∨
          Period.Undisturbed twoPi
            ((⟨q.weights, points⟩ : WeightedPoints ℝ d).axis s.lastAngle)) := by
  obtain ⟨points, hread⟩ := s.exists_reads hd q
  have hq' := WeightedPoints.wellFormed_withoutZeros hq hsum
  have hsum' : q.withoutZeros.weights.sum = 1 :=
    (WeightedPoints.sum_weights_withoutZeros hq).trans hsum
  refine ⟨points, ?_⟩
  change ∃ p p', _ ∧ s.place q = _ ∧ s.place q.withoutZeros = _ ∧ _
  rw [← averageRadius_eq]
  rcases le_or_gt (s.averageRadius q) radiusTolerance with hsmall | hlarge
  · refine ⟨_, _, hread, place_eq_center hq hsum hsmall, place_eq_center hq' hsum' ?_,
      rfl, iff_of_true rfl (.inl hsmall)⟩
    rwa [s.averageRadius_withoutZeros]
  by_cases hfar : d = 3 ∧ radiusTolerance * max (s.averageRadius q) 1 < (s.centroid q).norm
  · have htwo : d ≠ 2 := by omega
    have hcheck := WeightedPoints.check_eq_ok_iff.2 hq
    refine ⟨_, _, hread, s.place_eq_projection htwo hcheck hfar.2,
      s.place_eq_projection htwo (WeightedPoints.check_eq_ok_iff.2 hq') ?_,
      rfl, iff_of_true ?_ (.inr (.inl hfar))⟩
    · rw [s.averageRadius_withoutZeros, s.centroid_withoutZeros]
      exact hfar.2
    · change s.projection _ = _
      rw [projection, projection, s.averageRadius_withoutZeros, s.centroid_withoutZeros]
  · have hangles : s.AnglesDecide q :=
      ⟨hd, hlarge, fun hthree => not_lt.1 fun h => hfar ⟨hthree, h⟩⟩
    obtain ⟨p, p', hplace, hplace', hsame⟩ :=
      exists_chart_place_withoutZeros hq hsum hread hangles
    have hend := place_of_chart_place hq hangles hplace
    have hend' := place_of_chart_place hq' hangles.withoutZeros hplace'
    rw [s.averageRadius_withoutZeros] at hend'
    refine ⟨_, _, hread, hend, hend', rfl, ?_⟩
    rw [or_iff_right (not_le.2 hlarge), or_iff_right hfar]
    exact hsame

end Spheres

namespace WeightedPoints

/-- A new point is the same without the points of weight zero exactly if, on each axis that is
averaged with wraparound, those points displace all others or none. Around a center an axis is
averaged only where neither the center nor the centroid decides. -/
theorem place_withoutZeros_eq_iff (hq : q.WellFormed) (hsum : q.weights.sum = 1) :
    (∀ f : FlatSpace ℝ d, ∃ p p', f.manifold.place q = .ok p ∧
      f.manifold.place q.withoutZeros = .ok p' ∧ p'.fallback? = p.fallback? ∧
        (p'.point = p.point ↔ ∀ i, 0 < f.periodicity.get i →
          Period.Undisturbed (f.periodicity.get i) (q.axis i))) ∧
    (d ≤ 3 → ∀ s : Spheres ℝ d, ∃ points p p', s.chart.Reads q.points points ∧
      s.manifold.place q = .ok p ∧ s.manifold.place q.withoutZeros = .ok p' ∧
        p'.fallback? = p.fallback? ∧
        (p'.point = p.point ↔ s.weightedDistance q ≤ Spheres.radiusTolerance ∨
          d = 3 ∧ Spheres.radiusTolerance * max (s.weightedDistance q) 1 < (s.centroid q).norm ∨
          Period.Undisturbed twoPi
            ((⟨q.weights, points⟩ : WeightedPoints ℝ d).axis s.lastAngle))) := by
  refine ⟨fun f => ?_, fun hd s => ?_⟩
  · exact f.exists_place_withoutZeros hq hsum
  · exact s.exists_place_withoutZeros hd hq hsum

/-- On a circle of circumference one, the point of weight zero displaces both others. -/
theorem place_withoutZeros_eq_iff_both :
    (⟨[0, 1 / 2, 1 / 2], [#v[0], #v[3 / 5], #v[7 / 10]]⟩ : WeightedPoints ℝ 1).WellFormed ∧
      ([0, 1 / 2, 1 / 2] : List ℝ).sum = 1 ∧
      ∃ p p', (⟨#v[1]⟩ : FlatSpace ℝ 1).manifold.place
          ⟨[0, 1 / 2, 1 / 2], [#v[0], #v[3 / 5], #v[7 / 10]]⟩ = .ok p ∧
        (⟨#v[1]⟩ : FlatSpace ℝ 1).manifold.place (withoutZeros
          ⟨[0, 1 / 2, 1 / 2], [#v[0], #v[3 / 5], #v[7 / 10]]⟩) = .ok p' ∧ p'.point = p.point := by
  have hq : (⟨[0, 1 / 2, 1 / 2], [#v[0], #v[3 / 5], #v[7 / 10]]⟩ :
      WeightedPoints ℝ 1).WellFormed := ⟨rfl, List.cons_ne_nil _ _, by simp⟩
  have hsum : ([0, 1 / 2, 1 / 2] : List ℝ).sum = 1 := by norm_num
  have hboth : Period.Undisturbed 1 ([(0, 0), (1 / 2, 3 / 5), (1 / 2, 7 / 10)] : List (ℝ × ℝ)) := by
    right
    norm_num [Period.Displaced, Scalar.half_eq]
  obtain ⟨p, p', hplace, hplace', -, hsame⟩ := (place_withoutZeros_eq_iff hq hsum).1 ⟨#v[1]⟩
  refine ⟨hq, hsum, p, p', hplace, hplace', hsame.2 fun i _ => ?_⟩
  fin_cases i
  exact hboth

/-- It displaces one of two others. -/
theorem exists_place_withoutZeros_ne :
    (⟨[0, 1 / 2, 1 / 2], [#v[0], #v[1 / 4], #v[3 / 4]]⟩ : WeightedPoints ℝ 1).WellFormed ∧
      ([0, 1 / 2, 1 / 2] : List ℝ).sum = 1 ∧
      (⟨#v[1]⟩ : FlatSpace ℝ 1).manifold.place
          ⟨[0, 1 / 2, 1 / 2], [#v[0], #v[1 / 4], #v[3 / 4]]⟩ = .ok { point := #v[0] } ∧
      (⟨#v[1]⟩ : FlatSpace ℝ 1).manifold.place (withoutZeros
          ⟨[0, 1 / 2, 1 / 2], [#v[0], #v[1 / 4], #v[3 / 4]]⟩) = .ok { point := #v[1 / 2] } := by
  have hq : (⟨[0, 1 / 2, 1 / 2], [#v[0], #v[1 / 4], #v[3 / 4]]⟩ :
      WeightedPoints ℝ 1).WellFormed := ⟨rfl, List.cons_ne_nil _ _, by simp⟩
  have hsum : ([0, 1 / 2, 1 / 2] : List ℝ).sum = 1 := by norm_num
  have hone : 0 < (#v[1] : Point ℝ 1).get 0 := one_pos
  have hpoint (weights : List ℝ) (points : List (Point ℝ 1)) {x : ℝ}
      (h : Period.average 1 weights (points.map (·.get 0)) = x) :
      Chart.average #v[1] weights points = #v[x] := by
    refine Point.ext_get fun i => ?_
    fin_cases i
    exact (Chart.get_average_of_pos hone weights points).trans h
  have hthree : Period.average (1 : ℝ) [0, 1 / 2, 1 / 2] [0, 1 / 4, 3 / 4] = 0 := by
    have hmean : Scalar.weightedSum [0, 1 / 2, 1 / 2] (Period.unwrapAll 1 [0, 1 / 4, 3 / 4]) =
        (0 : ℝ) := by
      norm_num [Scalar.weightedSum, Period.unwrapAll, Period.unwrap, Scalar.lesser_eq_min]
    rw [Period.average, hmean, Period.wrap_eq_self one_pos (by norm_num)]
  have htwo : Period.average (1 : ℝ) [1 / 2, 1 / 2] [1 / 4, 3 / 4] = 1 / 2 := by
    have hmean : Scalar.weightedSum [1 / 2, 1 / 2] (Period.unwrapAll 1 [1 / 4, 3 / 4]) =
        (1 / 2 : ℝ) := by
      norm_num [Scalar.weightedSum, Period.unwrapAll, Period.unwrap, Scalar.lesser_eq_min]
    rw [Period.average, hmean, Period.wrap_eq_self one_pos (by norm_num)]
  have hzeros : withoutZeros ⟨[0, 1 / 2, 1 / 2], [#v[0], #v[1 / 4], #v[3 / 4]]⟩ =
      (⟨[1 / 2, 1 / 2], [#v[1 / 4], #v[3 / 4]]⟩ : WeightedPoints ℝ 1) := by
    simp [withoutZeros, heavy, pairs]
  have hq' := wellFormed_withoutZeros hq hsum
  refine ⟨hq, hsum, ?_, ?_⟩
  · rw [FlatSpace.place_eq_average _ hq, hpoint _ _ hthree]
  · rw [FlatSpace.place_eq_average _ hq', hzeros, hpoint _ _ htwo]

end WeightedPoints

end CurvedMesh
