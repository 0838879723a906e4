import CurvedMesh.Proofs.SphereZeroWeights

/-!
# A single point

Where all points that weigh something are the same point, that point is given back: by flat space up
to whole periods, around a center as it is, or as the center from within the tolerance. Points of
weight zero may be anywhere. They can make the point move down by a period before it is averaged, but
wrapping takes that back.
-/

namespace CurvedMesh

open AddCommGroup AnalyticScalar

variable {K : Type} [Field K] [LinearOrder K] {d : Nat}

/-- The points that weigh something are all the point `p`. -/
def WeightedPoints.ConcentratedAt (q : WeightedPoints K d) (p : Point K d) : Prop :=
  ∀ entry ∈ q.pairs, 0 < entry.1 → entry.2 = p

/-- The point `p`, or on each periodic axis its representative in the period. -/
def FlatSpace.GivesBack (f : FlatSpace K d) (p : Point K d)
    (result : Except (Fault K) (Placement K d)) : Prop :=
  ∃ p', result = .ok { point := p' } ∧ ∀ i,
    if 0 < f.periodicity.get i then
      p'.get i ∈ Set.Ico 0 (f.periodicity.get i) ∧ p'.get i ≡ p.get i [PMOD f.periodicity.get i]
    else p'.get i = p.get i

/-- The point `p`, or the center if `p` is within the tolerance. -/
def Spheres.GivesBack (s : Spheres ℝ d) (p : Point ℝ d)
    (result : Except (Fault ℝ) (Placement ℝ d)) : Prop :=
  result = .ok { point := if radiusTolerance < (p - s.center).norm then p else s.center }

theorem Chart.Reads.concentratedAt {c : Chart K d} {q : WeightedPoints K d} {p x : Point K d}
    {points : List (Point K d)} (h : c.Reads q.points points) (hq : q.ConcentratedAt p)
    (hx : c.ofSpace p = .ok x) : WeightedPoints.ConcentratedAt ⟨q.weights, points⟩ x := by
  rintro ⟨w, y⟩ hentry hpos
  obtain ⟨entry, hentry', heq⟩ : ∃ entry ∈ q.pairs, Prod.map id c.ofSpace entry = (w, .ok y) := by
    rw [← List.mem_map, h.map_pairs]
    exact List.mem_map_of_mem hentry
  obtain ⟨rfl, hread⟩ := Prod.ext_iff.1 heq
  have hp : entry.2 = p := hq entry hentry' hpos
  change c.ofSpace entry.2 = .ok y at hread
  rw [hp, hx] at hread
  exact (Except.ok.inj hread).symm

variable [FloorRing K]

/-! ## Means -/

namespace WeightedPoints

variable {q : WeightedPoints K d} {p : Point K d}

theorem ConcentratedAt.eq_zero_or (h : q.ConcentratedAt p) (hq : q.WellFormed) :
    ∀ entry ∈ q.pairs, entry.1 = 0 ∨ entry.2 = p := by
  intro entry hentry
  rcases eq_or_lt_of_le (not_lt.1 (hq.2.2 _ (List.of_mem_zip hentry).1)) with hzero | hpos
  · exact .inl hzero.symm
  · exact .inr (h entry hentry hpos)

theorem ConcentratedAt.mean_eq (h : q.ConcentratedAt p) (hq : q.WellFormed)
    (hsum : q.weights.sum = 1) (f : Point K d → K) : q.mean f = f p := by
  rw [← mean_const hq hsum (f p)]
  exact mean_congr fun entry hentry => (h.eq_zero_or hq entry hentry).imp_right (congrArg f)

theorem concentratedAt_first (p p' : Point K d) :
    ConcentratedAt ⟨[1 - 0, 0], [p, p']⟩ p := by
  simp [ConcentratedAt, pairs]

theorem concentratedAt_second (p p' : Point K d) :
    ConcentratedAt ⟨[1 - 1, 1], [p, p']⟩ p' := by
  simp [ConcentratedAt, pairs]

end WeightedPoints

/-! ## Flat space -/

variable [IsStrictOrderedRing K]

theorem Period.average_of_concentrated {P : K} (hP : 0 < P) {entries : List (K × K)} {x : K}
    (hsum : (entries.map Prod.fst).sum = 1)
    (h : ∀ entry ∈ entries, entry.1 = 0 ∨ entry.2 = x) :
    average P (entries.map Prod.fst) (entries.map Prod.snd) = wrap P x := by
  -- Whatever the lowest coordinate is, all others are moved alike.
  cases hlow : (entries.map Prod.snd).min? with
  | none =>
    rw [List.min?_eq_none_iff, List.map_eq_nil_iff] at hlow
    rw [hlow, List.map_nil, List.sum_nil] at hsum
    exact absurd hsum zero_ne_one
  | some low =>
    have hsame : (entries.map fun entry => entry.1 * unwrap P low entry.2) =
        entries.map fun entry => entry.1 * unwrap P low x := by
      refine List.map_congr_left fun entry hentry => ?_
      rcases h entry hentry with hzero | heq
      · rw [hzero, zero_mul, zero_mul]
      · rw [heq]
    rw [average_of_min? hlow, hsame, List.sum_map_mul_right, hsum, one_mul, wrap_unwrap hP]

variable {q : WeightedPoints K d} {p : Point K d}

theorem Chart.average_of_concentrated (periodicity : Point K d) (hq : q.WellFormed)
    (hsum : q.weights.sum = 1) (h : q.ConcentratedAt p) :
    average periodicity q.weights q.points = wrap periodicity p := by
  refine Point.ext_get fun i => ?_
  rw [get_wrap]
  split
  · rename_i hperiodic
    have hone : ((q.axis i).map Prod.fst).sum = 1 := by rw [hq.map_fst_axis, hsum]
    have hsame : ∀ entry ∈ q.axis i, entry.1 = 0 ∨ entry.2 = p.get i :=
      List.forall_mem_map.2 fun entry hentry =>
        (h.eq_zero_or hq entry hentry).imp_right fun heq => congrArg (Vector.get · i) heq
    rw [get_average_of_pos hperiodic, ← hq.map_fst_axis i, ← hq.map_snd_axis i,
      Period.average_of_concentrated hperiodic hone hsame]
  · rename_i hperiodic
    rw [get_average_of_not_pos hperiodic, WeightedPoints.weightedSum_eq_mean, h.mean_eq hq hsum]

theorem FlatSpace.givesBack_place (f : FlatSpace K d) (hq : q.WellFormed)
    (hsum : q.weights.sum = 1) (h : q.ConcentratedAt p) : f.GivesBack p (f.manifold.place q) := by
  refine ⟨_, f.place_eq_average hq, fun i => ?_⟩
  rw [Chart.average_of_concentrated _ hq hsum h, Chart.get_wrap]
  split
  · rename_i hperiodic
    exact ⟨Period.wrap_mem_Ico hperiodic _, Period.wrap_modEq hperiodic _⟩
  · rfl

/-! ## Around a center -/

namespace Spheres

variable {s : Spheres ℝ d} {q : WeightedPoints ℝ d} {p : Point ℝ d}

theorem averageRadius_of_concentrated (s : Spheres ℝ d) (hq : q.WellFormed)
    (hsum : q.weights.sum = 1) (h : q.ConcentratedAt p) :
    s.averageRadius q = (p - s.center).norm := by
  rw [averageRadius_eq_mean, h.mean_eq hq hsum]

theorem centroid_of_concentrated (s : Spheres ℝ d) (hq : q.WellFormed) (hsum : q.weights.sum = 1)
    (h : q.ConcentratedAt p) : s.centroid q = p - s.center := by
  refine Point.ext_get fun i => ?_
  rw [s.get_centroid hq hsum, h.mean_eq hq hsum]

theorem wrap_of_canonical {x : Point ℝ d} (hx : s.Canonical x) : Chart.wrap periodicity x = x := by
  refine Point.ext_get fun i => ?_
  rw [Chart.get_wrap]
  split
  · rename_i hperiodic
    rw [(s.periodic_iff i).1 hperiodic, s.get_lastAngle_periodicity,
      Period.wrap_eq_self twoPi_pos hx.last]
  · rfl

theorem chart_place_of_concentrated (s : Spheres ℝ d) (hd : d ≤ 3) (hq : q.WellFormed)
    (hsum : q.weights.sum = 1) (h : q.ConcentratedAt p) : s.chart.place q =
      .ok (if radiusTolerance < (p - s.center).norm then p else s.center) := by
  obtain ⟨points, hread⟩ := s.exists_reads hd q
  obtain ⟨x, hx, hcanonical, hspace⟩ := s.exists_ofSpace hd p
  have hformed : WeightedPoints.WellFormed ⟨q.weights, points⟩ :=
    hq.of_weights rfl hread.length_eq.symm
  have haverage := Chart.average_of_concentrated periodicity hformed hsum
    (hread.concentratedAt h hx)
  rw [wrap_of_canonical hcanonical] at haverage
  rw [Chart.place_of_reads hq hread]
  change (s.toSpace (Chart.average periodicity q.weights points)).mapError Fault.chart = _
  rw [haverage]
  exact congrArg (Except.mapError Fault.chart) hspace

theorem projection_of_concentrated (hq : q.WellFormed) (hsum : q.weights.sum = 1)
    (h : q.ConcentratedAt p) (hp : 0 < (p - s.center).norm) : s.projection q = p := by
  rw [projection, s.centroid_of_concentrated hq hsum h, s.averageRadius_of_concentrated hq hsum h,
    div_self hp.ne', Point.scale_one, Point.add_sub_cancel]

theorem givesBack_place (s : Spheres ℝ d) (hq : q.WellFormed) (hsum : q.weights.sum = 1)
    (h : q.ConcentratedAt p) : s.GivesBack p (s.manifold.place q) := by
  have hradius := s.averageRadius_of_concentrated hq hsum h
  change s.place q = _
  split
  · rename_i hlarge
    by_cases hd : d = 2
    · rw [place, if_pos hd, s.chart_place_of_concentrated (by omega) hq hsum h, if_pos hlarge]
      rfl
    · have hfar : radiusTolerance * max (s.averageRadius q) 1 < (s.centroid q).norm := by
        rw [hradius, s.centroid_of_concentrated hq hsum h]
        exact tolerance_mul_max_lt hlarge
      rw [s.place_eq_projection hd (WeightedPoints.check_eq_ok_iff.2 hq) hfar,
        projection_of_concentrated hq hsum h (radiusTolerance_pos.trans hlarge)]
  · rename_i hsmall
    exact place_eq_center hq hsum (hradius ▸ not_lt.1 hsmall)

end Spheres

/-! ## Both -/

namespace WeightedPoints

variable {q : WeightedPoints ℝ d} {p : Point ℝ d}

/-- A single point is given back, and so are the two ends of the way between two points. -/
theorem single_point_given_back (hq : q.WellFormed) (hsum : q.weights.sum = 1)
    (h : q.ConcentratedAt p) :
    (∀ f : FlatSpace ℝ d, f.GivesBack p (f.manifold.place q)) ∧
    (∀ s : Spheres ℝ d, s.GivesBack p (s.manifold.place q)) ∧
    ∀ p₁ p₂ : Point ℝ d,
      (∀ f : FlatSpace ℝ d, f.GivesBack p₁ (f.manifold.between p₁ p₂ 0) ∧
        f.GivesBack p₂ (f.manifold.between p₁ p₂ 1)) ∧
      ∀ s : Spheres ℝ d, s.GivesBack p₁ (s.manifold.between p₁ p₂ 0) ∧
        s.GivesBack p₂ (s.manifold.between p₁ p₂ 1) := by
  refine ⟨fun f => f.givesBack_place hq hsum h, fun s => s.givesBack_place hq hsum h,
    fun p₁ p₂ => ?_⟩
  have hstart : (0 : ℝ) ≤ 0 ∧ (0 : ℝ) ≤ 1 := ⟨le_rfl, zero_le_one⟩
  have hstop : (0 : ℝ) ≤ 1 ∧ (1 : ℝ) ≤ 1 := ⟨zero_le_one, le_rfl⟩
  have hone (w : ℝ) : [1 - w, w].sum = 1 := by simp
  have hfirst := concentratedAt_first p₁ p₂
  have hsecond := concentratedAt_second p₁ p₂
  simp only [Manifold.between_eq_place _ hstart, Manifold.between_eq_place _ hstop]
  refine ⟨fun f => ⟨?_, ?_⟩, fun s => ⟨?_, ?_⟩⟩
  · exact f.givesBack_place (wellFormed_pair hstart p₁ p₂) (hone 0) hfirst
  · exact f.givesBack_place (wellFormed_pair hstop p₁ p₂) (hone 1) hsecond
  · exact s.givesBack_place (wellFormed_pair hstart p₁ p₂) (hone 0) hfirst
  · exact s.givesBack_place (wellFormed_pair hstop p₁ p₂) (hone 1) hsecond

/-- The point of weight zero moves the other two down by a period, on an axis of period `5 / 2`. -/
theorem single_point_given_back_far_off :
    (⟨[0, 1 / 2, 1 / 2], [#v[-7, 1], #v[3, 4], #v[3, 4]]⟩ : WeightedPoints ℝ 2).WellFormed ∧
      ([0, 1 / 2, 1 / 2] : List ℝ).sum = 1 ∧
      (⟨[0, 1 / 2, 1 / 2], [#v[-7, 1], #v[3, 4], #v[3, 4]]⟩ : WeightedPoints ℝ 2).ConcentratedAt
        #v[3, 4] ∧
      (⟨#v[5 / 2, 0]⟩ : FlatSpace ℝ 2).GivesBack #v[3, 4]
        ((⟨#v[5 / 2, 0]⟩ : FlatSpace ℝ 2).manifold.place
          ⟨[0, 1 / 2, 1 / 2], [#v[-7, 1], #v[3, 4], #v[3, 4]]⟩) ∧
      (⟨#v[0, 0], le_rfl⟩ : Spheres ℝ 2).manifold.place
        ⟨[0, 1 / 2, 1 / 2], [#v[-7, 1], #v[3, 4], #v[3, 4]]⟩ = .ok { point := #v[3, 4] } := by
  have hq : (⟨[0, 1 / 2, 1 / 2], [#v[-7, 1], #v[3, 4], #v[3, 4]]⟩ :
      WeightedPoints ℝ 2).WellFormed := ⟨rfl, List.cons_ne_nil _ _, by simp⟩
  have hsum : ([0, 1 / 2, 1 / 2] : List ℝ).sum = 1 := by norm_num
  have hp : (⟨[0, 1 / 2, 1 / 2], [#v[-7, 1], #v[3, 4], #v[3, 4]]⟩ :
      WeightedPoints ℝ 2).ConcentratedAt #v[3, 4] := by
    simp [ConcentratedAt, pairs]
  have hlarge : Spheres.radiusTolerance < (#v[3, 4] - #v[0, 0] : Point ℝ 2).norm := by
    have hsq : (#v[3, 4] - #v[0, 0] : Point ℝ 2).dot (#v[3, 4] - #v[0, 0]) = 5 ^ 2 := by
      norm_num [Point.dot, Vector.get]
    rw [Point.norm_eq_sqrt, hsq, Real.sqrt_sq (by norm_num), Spheres.radiusTolerance_eq]
    norm_num
  obtain ⟨hflat, haround, -⟩ := single_point_given_back hq hsum hp
  refine ⟨hq, hsum, hp, hflat _, (haround _).trans ?_⟩
  rw [if_pos hlarge]

end WeightedPoints

end CurvedMesh
