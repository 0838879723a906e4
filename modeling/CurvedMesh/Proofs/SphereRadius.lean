import CurvedMesh.Proofs.SphereMidpoint
import CurvedMesh.Proofs.ChartAverage

/-!
# New points keep the average distance

Wherever a new point comes from, the chart or the projection of the centroid, its distance from the
center is the average distance of the given points. Only radii within the tolerance are an
exception.
-/

namespace CurvedMesh.Spheres

open AnalyticScalar

variable {d : Nat}

/-! ## Radii in the chart -/

theorem norm_ofAngles (hd : 0 < d) {q v : Point ℝ d} (h : ofAngles q = .ok v)
    (hq : 0 ≤ q.get ⟨0, hd⟩) : v.norm = q.get ⟨0, hd⟩ := by
  have hsq : v.dot v = q.get ⟨0, hd⟩ * q.get ⟨0, hd⟩ := by
    unfold ofAngles at h
    split at h
    · rename_i q
      cases h
      rw [Point.dot, Fin.sum_univ_two]
      change q.get 0 * Real.cos (q.get 1) * (q.get 0 * Real.cos (q.get 1)) +
        q.get 0 * Real.sin (q.get 1) * (q.get 0 * Real.sin (q.get 1)) = q.get 0 * q.get 0
      linear_combination q.get 0 * q.get 0 * Real.sin_sq_add_cos_sq (q.get 1)
    · rename_i q
      cases h
      rw [Point.dot, Fin.sum_univ_three]
      change q.get 0 * Real.sin (q.get 1) * Real.cos (q.get 2) *
          (q.get 0 * Real.sin (q.get 1) * Real.cos (q.get 2)) +
        q.get 0 * Real.sin (q.get 1) * Real.sin (q.get 2) *
          (q.get 0 * Real.sin (q.get 1) * Real.sin (q.get 2)) +
        q.get 0 * Real.cos (q.get 1) * (q.get 0 * Real.cos (q.get 1)) = q.get 0 * q.get 0
      linear_combination q.get 0 * q.get 0 * Real.sin_sq_add_cos_sq (q.get 1) +
        q.get 0 * q.get 0 * Real.sin (q.get 1) ^ 2 * Real.sin_sq_add_cos_sq (q.get 2)
    · cases h
  rw [Point.norm_eq_sqrt, hsq, Real.sqrt_mul_self hq]

theorem get_zero_toAngles (hd : 0 < d) {r q : Point ℝ d} (h : toAngles r = .ok q) :
    q.get ⟨0, hd⟩ = r.norm := by
  unfold toAngles at h
  split at h <;> cases h <;> rfl

theorem exists_ofAngles (hd : d = 2 ∨ d = 3) (q : Point ℝ d) : ∃ v, ofAngles q = .ok v := by
  rcases hd with rfl | rfl <;> exact ⟨_, rfl⟩

theorem exists_toAngles {α : Type} [AnalyticScalar α] (hd : d = 2 ∨ d = 3) (r : Point α d) :
    ∃ q, toAngles r = .ok q := by
  rcases hd with rfl | rfl <;> exact ⟨_, rfl⟩

/-! ## The chart -/

variable {s : Spheres ℝ d}

/-- The chart axis of the radius. -/
def radial (s : Spheres ℝ d) : Fin d :=
  ⟨0, Nat.zero_lt_of_lt s.two_le⟩

theorem get_periodicity (i : Fin d) :
    (periodicity : Point ℝ d).get i = if i.val + 1 = d then twoPi else 0 :=
  Vector.getElem_ofFn _

theorem radial_not_periodic (s : Spheres ℝ d) : ¬ 0 < (periodicity : Point ℝ d).get s.radial := by
  have hd := s.two_le
  have hfirst : ¬ s.radial.val + 1 = d := by
    change ¬ 0 + 1 = d
    omega
  rw [get_periodicity, if_neg hfirst]
  exact lt_irrefl 0

theorem get_radial_average {q : WeightedPoints ℝ d} {points : List (Point ℝ d)}
    (h : q.points.map s.ofSpace = points.map .ok) :
    (Chart.average periodicity q.weights points).get s.radial = s.averageRadius q := by
  have hread : points.map (·.get s.radial) = q.points.map fun p => (p - s.center).norm :=
    map_eq_map_of_ok (fun _ _ _ hp => get_zero_toAngles _ hp) h
  rw [Chart.get_average_of_not_pos s.radial_not_periodic, hread, averageRadius, Scalar.weightedSum,
    WeightedPoints.pairs, List.zip_map_right, List.foldl_map]
  simp only [Prod.map_fst, Prod.map_snd, id, mul_comm]

theorem toSpace_of_tolerance_lt {q : Point ℝ d} (h : radiusTolerance < q.get s.radial) :
    s.toSpace q = (ofAngles q).map (s.center + ·) := by
  have hpos : 0 ≤ q.get s.radial := (radiusTolerance_pos.trans h).le
  unfold toSpace
  change (if 0 ≤ q.get s.radial then (if radiusTolerance < q.get s.radial then _ else _) else _) = _
  rw [if_pos hpos, if_pos h]
  rfl

theorem toSpace_of_le_tolerance {p : Point ℝ d} (hpos : 0 ≤ p.get s.radial)
    (hsmall : p.get s.radial ≤ radiusTolerance) : s.toSpace p = .ok s.center := by
  have hcenter : s.center + 0 = s.center := by
    ext i h
    simp
  unfold toSpace
  change (if 0 ≤ p.get s.radial then (if radiusTolerance < p.get s.radial then _ else _) else _) = _
  rw [if_pos hpos, if_neg (not_lt.2 hsmall), hcenter]
  rfl

theorem norm_toSpace {q p : Point ℝ d} (htolerance : radiusTolerance < q.get s.radial)
    (h : s.toSpace q = .ok p) : (p - s.center).norm = q.get s.radial := by
  rw [toSpace_of_tolerance_lt htolerance] at h
  cases hv : ofAngles q with
  | error fault =>
    rw [hv] at h
    cases h
  | ok v =>
    rw [hv] at h
    cases h
    rw [Point.add_sub_self]
    exact norm_ofAngles _ hv (radiusTolerance_pos.trans htolerance).le

theorem norm_chart_place {q : WeightedPoints ℝ d} {p : Point ℝ d}
    (htolerance : radiusTolerance < s.averageRadius q) (h : s.chart.place q = .ok p) :
    (p - s.center).norm = s.averageRadius q := by
  obtain ⟨-, points, hread, hspace⟩ := Chart.place_eq_ok_iff.1 h
  have hradius := get_radial_average hread
  rw [← hradius] at htolerance ⊢
  exact norm_toSpace htolerance hspace

theorem exists_chart_place (hd : d ≤ 3) {q : WeightedPoints ℝ d} (hcheck : q.check = .ok ())
    (htolerance : radiusTolerance < s.averageRadius q) : ∃ p, s.chart.place q = .ok p := by
  have hchart : d = 2 ∨ d = 3 := by
    have := s.two_le
    omega
  obtain ⟨points, hread⟩ := exists_map_ok fun p (_ : p ∈ q.points) =>
    exists_toAngles hchart (p - s.center)
  rw [← get_radial_average hread] at htolerance
  obtain ⟨v, hv⟩ := exists_ofAngles hchart (Chart.average periodicity q.weights points)
  refine ⟨s.center + v, Chart.place_eq_ok_iff.2 ⟨hcheck, points, hread, ?_⟩⟩
  have hspace := toSpace_of_tolerance_lt htolerance
  rw [hv] at hspace
  exact hspace

/-! ## New points -/

theorem norm_projection {q : WeightedPoints ℝ d} (hradius : 0 ≤ s.averageRadius q)
    (hcentroid : 0 < (s.centroid q).norm) :
    (s.projection q - s.center).norm = s.averageRadius q := by
  rw [projection_sub_center, Point.norm_scale _ (div_nonneg hradius hcentroid.le),
    div_mul_cancel₀ _ hcentroid.ne']

theorem project_of_no_direction {q : WeightedPoints ℝ d} (hcheck : q.check = .ok ())
    (htolerance : radiusTolerance < s.averageRadius q)
    (hnear : (s.centroid q).norm ≤ radiusTolerance * max (s.averageRadius q) 1) :
    s.project q =
      if 3 < d then .error (.chart (.unsupportedDimension d))
      else (s.chart.place q).map fun p =>
        { point := p, fallback? := some ⟨s.center, s.averageRadius q⟩ } := by
  unfold project
  rw [hcheck]
  simp only [Scalar.greater_eq_max]
  change (if _ then _ else _) = _
  rw [if_pos hnear, if_neg (not_le.2 htolerance)]
  split
  · rfl
  · cases s.chart.place q <;> rfl

/-- There is a new point, at the average distance from the center. Only above three dimensions there
may be none, if the centroid gives no direction. -/
theorem ends_place {q : WeightedPoints ℝ d} (hcheck : q.check = .ok ())
    (htolerance : radiusTolerance < s.averageRadius q) :
    Ends (fun fault => 3 < d ∧ fault = .chart (.unsupportedDimension d))
      (fun placement => (placement.point - s.center).norm = s.averageRadius q) (s.place q) := by
  have hpos : (0 : ℝ) < radiusTolerance := radiusTolerance_pos
  have hchart (hd : d ≤ 3) (fallback? : Option (Fallback ℝ d)) :
      Ends (fun fault => 3 < d ∧ fault = .chart (.unsupportedDimension d))
        (fun placement : Placement ℝ d => (placement.point - s.center).norm = s.averageRadius q)
        ((s.chart.place q).map fun p => { point := p, fallback? := fallback? }) := by
    obtain ⟨p, hp⟩ := exists_chart_place hd hcheck htolerance
    rw [hp]
    exact norm_chart_place htolerance hp
  unfold place
  split
  · rename_i hd
    exact hchart (by omega) none
  · rcases lt_or_ge (radiusTolerance * max (s.averageRadius q) 1) (s.centroid q).norm with
      hfar | hnear
    · have hbound : 0 ≤ radiusTolerance * max (s.averageRadius q) 1 := by positivity
      rw [s.project_eq_projection hcheck hfar]
      exact norm_projection (by linarith) (by linarith)
    · rw [project_of_no_direction hcheck htolerance hnear]
      split
      · rename_i hd
        exact ⟨hd, rfl⟩
      · exact hchart (by omega) _

end CurvedMesh.Spheres
