import CurvedMesh.Proofs.Means
import CurvedMesh.Proofs.Representatives
import CurvedMesh.Proofs.SphereRadius
import CurvedMesh.Geometry

/-!
# Where points cannot be placed

Placing a point fails for one reason once the point set is in order: in more than three dimensions,
points away from the center of a sphere whose centroid lies on the center leave no direction to go,
and there is no chart to average in.
-/

namespace CurvedMesh

variable {d : Nat}

namespace Spheres

/-- The distances from the center, each times its weight, summed up. -/
noncomputable def weightedDistance (s : Spheres ℝ d) (q : WeightedPoints ℝ d) : ℝ :=
  (List.zipWith (fun w p => w * (p - s.center).norm) q.weights q.points).sum

variable {s : Spheres ℝ d} {q : WeightedPoints ℝ d}

theorem averageRadius_eq_mean (s : Spheres ℝ d) (q : WeightedPoints ℝ d) :
    s.averageRadius q = q.mean fun p => (p - s.center).norm := by
  rw [averageRadius, foldl_add_eq_sum (fun entry : ℝ × Point ℝ d =>
    entry.1 * (entry.2 - s.center).norm), zero_add]
  rfl

theorem averageRadius_eq (s : Spheres ℝ d) (q : WeightedPoints ℝ d) :
    s.averageRadius q = s.weightedDistance q := by
  rw [averageRadius_eq_mean, weightedDistance, ← List.map_uncurry_zip_eq_zipWith]
  rfl

theorem averageRadius_nonneg (s : Spheres ℝ d) (hq : q.WellFormed) : 0 ≤ s.averageRadius q := by
  rw [averageRadius_eq_mean]
  exact q.mean_nonneg hq fun _ => Point.norm_nonneg _

/-! ## Radii within the tolerance -/

theorem exists_reads {α : Type} [AnalyticScalar α] (s : Spheres α d) (hd : d ≤ 3)
    (q : WeightedPoints α d) : ∃ points, s.chart.Reads q.points points := by
  have hchart : d = 2 ∨ d = 3 := by
    have := s.two_le
    omega
  exact exists_map_ok fun p _ => exists_toAngles hchart (p - s.center)

theorem chart_place_of_le_tolerance (hd : d ≤ 3) (hq : q.WellFormed)
    (hsmall : s.averageRadius q ≤ radiusTolerance) : s.chart.place q = .ok s.center := by
  obtain ⟨points, hread⟩ := s.exists_reads hd q
  have hradius := get_radial_average hread
  have hpos := s.averageRadius_nonneg hq
  rw [← hradius] at hpos hsmall
  have hspace := toSpace_of_le_tolerance hpos hsmall
  rw [Chart.place_of_reads hq hread]
  change (s.toSpace (Chart.average periodicity q.weights points)).mapError _ = _
  rw [hspace]
  rfl

theorem place_of_le_tolerance (hq : q.WellFormed) (hsmall : s.averageRadius q ≤ radiusTolerance) :
    s.place q = .ok { point := s.center } ∨
      radiusTolerance < (s.centroid q).norm ∧ s.place q = .ok { point := s.projection q } := by
  -- Only weights that do not sum to one can put the centroid far from the center here.
  have hcheck := WeightedPoints.check_eq_ok_iff.2 hq
  have hone : max (s.averageRadius q) 1 = 1 := by
    refine max_eq_right (hsmall.trans ?_)
    rw [radiusTolerance_eq]
    norm_num
  unfold place
  split
  · rename_i hd
    rw [chart_place_of_le_tolerance (by omega) hq hsmall]
    exact .inl rfl
  · rcases lt_or_ge radiusTolerance (s.centroid q).norm with hfar | hnear
    · refine .inr ⟨hfar, s.project_eq_projection hcheck ?_⟩
      rwa [hone, mul_one]
    · left
      unfold project
      rw [hcheck]
      simp only [Scalar.greater_eq_max]
      change (if _ then _ else _) = _
      rw [hone, mul_one, if_pos hnear, if_pos hsmall]
      rfl

/-! ## Failures -/

/-- The points lie away from the center, their centroid does not, and there is no chart. -/
def Undirected (s : Spheres ℝ d) (q : WeightedPoints ℝ d) : Prop :=
  3 < d ∧ radiusTolerance < s.weightedDistance q ∧
    (s.centroid q).norm ≤ radiusTolerance * max (s.weightedDistance q) 1

theorem place_eq_error_iff (hq : q.WellFormed) {fault : Fault ℝ} :
    s.manifold.place q = .error fault ↔
      s.Undirected q ∧ fault = .chart (.unsupportedDimension d) := by
  have hcheck := WeightedPoints.check_eq_ok_iff.2 hq
  rw [Undirected, ← averageRadius_eq]
  change s.place q = _ ↔ _
  constructor
  · intro h
    have hlarge : radiusTolerance < s.averageRadius q := by
      by_contra hsmall
      rcases place_of_le_tolerance hq (not_lt.1 hsmall) with hok | ⟨-, hok⟩
      · cases h.symm.trans hok
      · cases h.symm.trans hok
    have hends := ends_place hcheck hlarge
    rw [h] at hends
    obtain ⟨hd, hfault⟩ := hends
    refine ⟨⟨hd, hlarge, ?_⟩, hfault⟩
    by_contra hfar
    cases h.symm.trans (s.place_eq_projection (by omega) hcheck (not_le.1 hfar))
  · rintro ⟨⟨hd, hlarge, hnear⟩, rfl⟩
    rw [place, if_neg (by omega), project_of_no_direction hcheck hlarge hnear, if_pos hd]

end Spheres

namespace WeightedPoints

theorem wellFormed_pair {K : Type} [Field K] [LinearOrder K] [FloorRing K] [IsStrictOrderedRing K]
    {w : K} (hw : 0 ≤ w ∧ w ≤ 1) (p p' : Point K d) :
    (⟨[1 - w, w], [p, p']⟩ : WeightedPoints K d).WellFormed := by
  refine ⟨rfl, List.cons_ne_nil _ _, List.forall_mem_cons.2 ⟨?_, List.forall_mem_singleton.2 ?_⟩⟩
  · linarith [hw.2]
  · linarith [hw.1]

end WeightedPoints

namespace Manifold

theorem between_eq_error_iff {m : Manifold ℝ d} {p p' : Point ℝ d} {w : ℝ} {fault : Fault ℝ} :
    m.between p p' w = .error fault ↔
      ¬ (0 ≤ w ∧ w ≤ 1) ∧ fault = .parameterOutOfRange w ∨
        (0 ≤ w ∧ w ≤ 1) ∧ m.place ⟨[1 - w, w], [p, p']⟩ = .error fault := by
  unfold between
  split
  · rename_i hw
    simp [hw]
  · rename_i hw
    simp [hw, eq_comm]

end Manifold

namespace Geometry

/-- Only spheres in more than three dimensions have no place for some point sets. -/
def Undirected : Geometry ℝ d → WeightedPoints ℝ d → Prop
  | .spheres s, q => s.Undirected q
  | _, _ => False

variable {g : Geometry ℝ d} {q : WeightedPoints ℝ d}

theorem not_undirected_of_le_three (hd : d ≤ 3) : ¬ g.Undirected q := by
  cases g with
  | flat f => exact id
  | spheres s => exact fun h => absurd h.1 (not_lt.2 hd)
  | scaled s => exact id

theorem place_eq_error_iff_undirected (hq : q.WellFormed) {fault : Fault ℝ} :
    g.manifold.place q = .error fault ↔
      g.Undirected q ∧ fault = .chart (.unsupportedDimension d) := by
  cases g with
  | flat f =>
    change f.manifold.place q = _ ↔ False ∧ _
    rw [f.place_eq_average hq, false_and, iff_false]
    exact nofun
  | spheres s => exact Spheres.place_eq_error_iff hq
  | scaled s =>
    have hread : s.chart.Reads q.points (q.points.map fun p => p.scale Scalar.half) := by
      rw [Chart.Reads, List.map_map]
      rfl
    have hplace := Chart.place_of_reads hq hread
    change (do return ({ point := ← s.chart.place q } : Placement ℝ d)) = _ ↔ False ∧ _
    rw [hplace, false_and, iff_false]
    exact nofun

theorem exists_place (hq : q.WellFormed) (h : ¬ g.Undirected q) :
    ∃ placement, g.manifold.place q = .ok placement := by
  cases hplace : g.manifold.place q with
  | error fault => exact absurd ((place_eq_error_iff_undirected hq).1 hplace).1 h
  | ok placement => exact ⟨placement, rfl⟩

/-- Lists that pass the constructor can be placed, unless they give no direction in a space without
a chart. A position between two points is refused only outside the range, or for this reason. -/
theorem fails_iff_undirected {weights : List ℝ} {points : List (Point ℝ d)}
    (hq : WeightedPoints.ofLists weights points = .ok q) :
    (∀ f : FlatSpace ℝ d, ∃ placement, f.manifold.place q = .ok placement) ∧
    (d ≤ 3 → ∀ s : Spheres ℝ d, ∃ placement, s.manifold.place q = .ok placement) ∧
    (∀ (g : Geometry ℝ d) (fault : Fault ℝ), g.manifold.place q = .error fault ↔
      g.Undirected q ∧ fault = .chart (.unsupportedDimension d)) ∧
    ∀ (g : Geometry ℝ d) (p p' : Point ℝ d) (w : ℝ) (fault : Fault ℝ),
      g.manifold.between p p' w = .error fault ↔
        ¬ (0 ≤ w ∧ w ≤ 1) ∧ fault = .parameterOutOfRange w ∨
          (0 ≤ w ∧ w ≤ 1) ∧ g.Undirected ⟨[1 - w, w], [p, p']⟩ ∧
            fault = .chart (.unsupportedDimension d) := by
  have hformed := (WeightedPoints.ofLists_eq_ok_iff.1 hq).2
  refine ⟨fun f => ?_, fun hd s => ?_, fun g fault => ?_, fun g p p' w fault => ?_⟩
  · exact (Geometry.flat f).exists_place hformed id
  · exact (Geometry.spheres s).exists_place hformed (not_undirected_of_le_three hd)
  · exact place_eq_error_iff_undirected hformed
  · rw [Manifold.between_eq_error_iff]
    refine or_congr_right (and_congr_right fun hw => ?_)
    exact place_eq_error_iff_undirected (WeightedPoints.wellFormed_pair hw p p')

/-- Half way between antipodal points in four dimensions. -/
theorem fails_iff_undirected_antipodal :
    WeightedPoints.ofLists [Scalar.half, Scalar.half] [#v[1, 0, 0, 0], #v[-1, 0, 0, 0]] =
        .ok (.halves #v[1, 0, 0, 0] #v[-1, 0, 0, 0] : WeightedPoints ℝ 4) ∧
      (⟨#v[0, 0, 0, 0], by decide⟩ : Spheres ℝ 4).manifold.place
        (.halves #v[1, 0, 0, 0] #v[-1, 0, 0, 0]) = .error (.chart (.unsupportedDimension 4)) ∧
      (⟨#v[0, 0, 0, 0], by decide⟩ : Spheres ℝ 4).manifold.between #v[1, 0, 0, 0] #v[-1, 0, 0, 0]
        Scalar.half = .error (.chart (.unsupportedDimension 4)) := by
  have hq : WeightedPoints.ofLists [Scalar.half, Scalar.half] [#v[1, 0, 0, 0], #v[-1, 0, 0, 0]] =
      .ok (.halves #v[1, 0, 0, 0] #v[-1, 0, 0, 0] : WeightedPoints ℝ 4) :=
    WeightedPoints.ofLists_eq_ok_iff.2
      ⟨rfl, WeightedPoints.check_eq_ok_iff.1 (WeightedPoints.check_halves _ _)⟩
  have hundirected : (⟨#v[0, 0, 0, 0], by decide⟩ : Spheres ℝ 4).Undirected
      (.halves #v[1, 0, 0, 0] #v[-1, 0, 0, 0]) := by
    have hnorm (x : ℝ) (hx : x * x = 1) :
        (#v[x, 0, 0, 0] - #v[0, 0, 0, 0] : Point ℝ 4).norm = 1 := by
      simp [Point.norm_eq_sqrt, Point.dot, Fin.sum_univ_four, Vector.get, hx]
    have hsum : (#v[1, 0, 0, 0] - #v[0, 0, 0, 0] : Point ℝ 4) +
        (#v[-1, 0, 0, 0] - #v[0, 0, 0, 0]) = 0 := by
      refine Point.ext_get fun i => ?_
      fin_cases i <;> simp [Vector.get]
    refine ⟨by decide, ?_⟩
    rw [← Spheres.averageRadius_eq, Spheres.averageRadius_halves, Spheres.centroid_halves, hsum,
      Point.zero_scale, Point.norm_zero, hnorm 1 (by norm_num), hnorm (-1) (by norm_num),
      Spheres.radiusTolerance_eq]
    norm_num
  obtain ⟨-, -, hplace, hbetween⟩ := fails_iff_undirected hq
  refine ⟨hq, (hplace (.spheres _) _).2 ⟨hundirected, rfl⟩, (hbetween (.spheres _) _ _ _ _).2 ?_⟩
  refine .inr ⟨Scalar.half_mem_range, ?_, rfl⟩
  rw [Scalar.one_sub_half]
  exact hundirected

end Geometry

end CurvedMesh
