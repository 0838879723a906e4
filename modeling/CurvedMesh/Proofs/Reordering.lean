import CurvedMesh.Proofs.PlacedRadius
import CurvedMesh.Proofs.ZeroWeights

/-!
# The order of weighted points

A new point does not depend on the order in which the weighted points are listed: sums and least
coordinates do not, and the rest is computed from them. Nothing is asked of the square root and of
the functions of angles.
-/

namespace CurvedMesh

/-- What stands in the place of the square root, the functions of angles and the full turn. No law
binds them. -/
class Trigonometry (K : Type) where
  sqrt : K → K
  sin : K → K
  cos : K → K
  atan2 : K → K → K
  twoPi : K

section

variable {K : Type} [Field K] [LinearOrder K] [FloorRing K]

instance trigonometricScalar [Trigonometry K] : AnalyticScalar K where
  toScalar := exactScalar
  sqrt := Trigonometry.sqrt
  sin := Trigonometry.sin
  cos := Trigonometry.cos
  atan2 := Trigonometry.atan2
  twoPi := Trigonometry.twoPi

end

/-- The functions of the real numbers. -/
@[reducible] noncomputable def Trigonometry.real : Trigonometry ℝ where
  sqrt := AnalyticScalar.sqrt
  sin := AnalyticScalar.sin
  cos := AnalyticScalar.cos
  atan2 := AnalyticScalar.atan2
  twoPi := AnalyticScalar.twoPi

variable {α : Type} {d : Nat}

/-- The manifold that places points by the chart alone. -/
def Chart.manifold [Scalar α] (c : Chart α d) : Manifold α d where
  place q := return { point := ← c.place q }

namespace WeightedPoints

/-- The same points with the same weights, listed in another order. -/
structure Reordered (q q' : WeightedPoints α d) : Prop where
  length_eq : q.weights.length = q.points.length
  length_eq' : q'.weights.length = q'.points.length
  perm : q.pairs.Perm q'.pairs

namespace Reordered

variable {q q' : WeightedPoints α d}

theorem symm (h : q.Reordered q') : q'.Reordered q :=
  ⟨h.length_eq', h.length_eq, h.perm.symm⟩

theorem perm_weights (h : q.Reordered q') : q.weights.Perm q'.weights := by
  have hperm := h.perm.map Prod.fst
  unfold pairs at hperm
  rwa [List.map_fst_zip h.length_eq.le, List.map_fst_zip h.length_eq'.le] at hperm

theorem perm_points (h : q.Reordered q') : q.points.Perm q'.points := by
  have hperm := h.perm.map Prod.snd
  unfold pairs at hperm
  rwa [List.map_snd_zip h.length_eq.ge, List.map_snd_zip h.length_eq'.ge] at hperm

theorem wellFormed [Scalar α] (h : q.Reordered q') (hq : q.WellFormed) : q'.WellFormed := by
  refine ⟨h.length_eq', fun hempty => ?_, fun w hw => ?_⟩
  · have hperm := h.perm_weights
    rw [hempty, List.perm_nil] at hperm
    exact hq.2.1 hperm
  · exact hq.2.2 w (h.perm_weights.mem_iff.2 hw)

theorem of_pair (a b : α) (p p' : Point α d) :
    Reordered ⟨[a, b], [p, p']⟩ ⟨[b, a], [p', p]⟩ :=
  ⟨rfl, rfl, List.Perm.swap _ _ _⟩

end Reordered

end WeightedPoints

/-! ## Charts -/

namespace Chart

variable {c : Chart α d} {q q' : WeightedPoints α d} {points points' : List (Point α d)}

theorem Reads.exists_ofSpace (h : c.Reads q.points points) {p : Point α d} (hp : p ∈ q.points) :
    ∃ x, c.ofSpace p = .ok x := by
  have hmem := List.mem_map_of_mem (f := c.ofSpace) hp
  rw [h] at hmem
  obtain ⟨x, -, hx⟩ := List.mem_map.1 hmem
  exact ⟨x, hx.symm⟩

theorem Reads.exists_of_reordered (h : q.Reordered q') (hread : c.Reads q.points points) :
    ∃ points', c.Reads q'.points points' :=
  exists_map_ok fun _ hp => hread.exists_ofSpace (h.perm_points.mem_iff.2 hp)

theorem Reads.reordered (h : q.Reordered q') (hread : c.Reads q.points points)
    (hread' : c.Reads q'.points points') :
    WeightedPoints.Reordered ⟨q.weights, points⟩ ⟨q'.weights, points'⟩ where
  length_eq := h.length_eq.trans hread.length_eq
  length_eq' := h.length_eq'.trans hread'.length_eq
  perm := by
    have hok : Function.Injective (Prod.map id Except.ok :
        α × Point α d → α × Except (ChartFault α) (Point α d)) :=
      Function.injective_id.prodMap fun _ _ => Except.ok.inj
    rw [← List.map_perm_map_iff hok, ← hread.map_pairs, ← hread'.map_pairs]
    exact h.perm.map _

end Chart

variable {K : Type} [Field K]

theorem WeightedPoints.Reordered.mean_eq {q q' : WeightedPoints K d} (h : q.Reordered q')
    (f : Point K d → K) : q'.mean f = q.mean f := by
  unfold mean
  exact (h.perm.map _).sum_eq.symm

variable [LinearOrder K] [FloorRing K]

theorem Period.average_of_perm {P : K} {entries entries' : List (K × K)}
    (h : entries.Perm entries') :
    average P (entries'.map Prod.fst) (entries'.map Prod.snd) =
      average P (entries.map Prod.fst) (entries.map Prod.snd) := by
  cases hlow : (entries.map Prod.snd).min? with
  | none =>
    rw [List.min?_eq_none_iff, List.map_eq_nil_iff] at hlow
    rw [hlow, List.nil_perm] at h
    rw [hlow, h]
  | some low =>
    have hperm := h.map Prod.snd
    have hlow' : (entries'.map Prod.snd).min? = some low := by
      rw [List.min?_eq_some_iff] at hlow ⊢
      exact ⟨hperm.mem_iff.1 hlow.1, fun x hx => hlow.2 x (hperm.mem_iff.2 hx)⟩
    rw [average_of_min? hlow, average_of_min? hlow']
    exact congrArg (wrap P) (h.map fun entry => entry.1 * unwrap P low entry.2).sum_eq.symm

variable {q q' : WeightedPoints K d}

namespace Chart

theorem average_of_reordered (periodicity : Point K d) (h : q.Reordered q') (hq : q.WellFormed) :
    average periodicity q'.weights q'.points = average periodicity q.weights q.points := by
  have hq' := h.wellFormed hq
  refine Point.ext_get fun i => ?_
  by_cases hperiodic : 0 < periodicity.get i
  · rw [get_average_of_pos hperiodic, get_average_of_pos hperiodic, ← hq'.map_fst_axis i,
      ← hq'.map_snd_axis i, ← hq.map_fst_axis i, ← hq.map_snd_axis i]
    exact Period.average_of_perm (h.perm.map _)
  · rw [get_average_of_not_pos hperiodic, get_average_of_not_pos hperiodic,
      WeightedPoints.weightedSum_eq_mean, WeightedPoints.weightedSum_eq_mean, h.mean_eq]

variable {c : Chart K d} {points : List (Point K d)}

theorem place_of_reordered (h : q.Reordered q') (hq : q.WellFormed)
    (hread : c.Reads q.points points) : c.place q' = c.place q := by
  obtain ⟨points', hread'⟩ := Reads.exists_of_reordered h hread
  have hformed : WeightedPoints.WellFormed ⟨q.weights, points⟩ :=
    hq.of_weights rfl hread.length_eq.symm
  have haverage := average_of_reordered c.periodicity (hread.reordered h hread') hformed
  rw [place_of_reads hq hread, place_of_reads (h.wellFormed hq) hread']
  exact congrArg (fun p => (c.toSpace p).mapError Fault.chart) haverage

theorem place_eq_ok_of_reordered (h : q.Reordered q') {p : Point K d} (hplace : c.place q = .ok p) :
    c.place q' = .ok p := by
  obtain ⟨hcheck, points, hread, -⟩ := place_eq_ok_iff.1 hplace
  rw [place_of_reordered h (WeightedPoints.check_eq_ok_iff.1 hcheck) hread, hplace]

theorem toOption_place_of_reordered (c : Chart K d) (h : q.Reordered q') :
    (c.place q').toOption = (c.place q).toOption :=
  toOption_eq_toOption_iff.2 fun _ =>
    ⟨place_eq_ok_of_reordered h.symm, place_eq_ok_of_reordered h⟩

end Chart

theorem FlatSpace.place_of_reordered (f : FlatSpace K d) (h : q.Reordered q') (hq : q.WellFormed) :
    f.manifold.place q' = f.manifold.place q := by
  rw [f.place_eq_average hq, f.place_eq_average (h.wellFormed hq),
    Chart.average_of_reordered f.periodicity h hq]

/-! ## Around a center -/

namespace Spheres

variable [Trigonometry K]

theorem averageRadius_of_reordered (s : Spheres K d) (h : q.Reordered q') :
    s.averageRadius q' = s.averageRadius q := by
  unfold averageRadius
  rw [foldl_add_eq_sum (fun entry : K × Point K d => entry.1 * (entry.2 - s.center).norm),
    foldl_add_eq_sum (fun entry : K × Point K d => entry.1 * (entry.2 - s.center).norm)]
  rw [(h.perm.map _).sum_eq]

theorem centroid_of_reordered (s : Spheres K d) (h : q.Reordered q') :
    s.centroid q' = s.centroid q := by
  unfold centroid
  refine congrArg (· - s.center) (Point.ext_get fun i => ?_)
  rw [WeightedPoints.get_weightedSum, WeightedPoints.get_weightedSum, h.mean_eq]

theorem place_of_reordered (s : Spheres K d) (h : q.Reordered q') (hq : q.WellFormed) :
    s.place q' = s.place q := by
  have hchart (hd : d ≤ 3) : s.chart.place q' = s.chart.place q := by
    obtain ⟨points, hread⟩ := s.exists_reads hd q
    exact Chart.place_of_reordered h hq hread
  unfold place project
  rw [WeightedPoints.check_eq_ok_iff.2 hq, WeightedPoints.check_eq_ok_iff.2 (h.wellFormed hq),
    s.averageRadius_of_reordered h, s.centroid_of_reordered h]
  by_cases hd : d ≤ 3
  · rw [hchart hd]
  · have htwo : d ≠ 2 := by omega
    simp only [if_neg htwo, if_pos (not_le.1 hd)]

theorem place_eq_ok_of_reordered {s : Spheres K d} (h : q.Reordered q') {placement : Placement K d}
    (hplace : s.place q = .ok placement) : s.place q' = .ok placement := by
  rw [s.place_of_reordered h (wellFormed_of_place hplace), hplace]

theorem toOption_place_of_reordered (s : Spheres K d) (h : q.Reordered q') :
    (s.place q').toOption = (s.place q).toOption :=
  toOption_eq_toOption_iff.2 fun _ =>
    ⟨place_eq_ok_of_reordered h.symm, place_eq_ok_of_reordered h⟩

end Spheres

/-! ## Placing points -/

namespace WeightedPoints

/-- In another order the points are placed at the same point, or in neither order. Between two points
even the failure is the same from either end, unless it is a chart that cannot read both. -/
theorem order_irrelevant [IsStrictOrderedRing K] [Trigonometry K] (h : q.Reordered q') :
    (∀ c : Chart K d, (c.place q').toOption = (c.place q).toOption) ∧
    (∀ f : FlatSpace K d, (f.manifold.place q').toOption = (f.manifold.place q).toOption) ∧
    (∀ s : Spheres K d, (s.manifold.place q').toOption = (s.manifold.place q).toOption) ∧
    ∀ (p p' : Point K d) (w : K), 0 ≤ w → w ≤ 1 →
      (∀ c : Chart K d,
        (c.manifold.between p' p (1 - w)).toOption = (c.manifold.between p p' w).toOption) ∧
      (∀ f : FlatSpace K d, f.manifold.between p' p (1 - w) = f.manifold.between p p' w) ∧
      ∀ s : Spheres K d, s.manifold.between p' p (1 - w) = s.manifold.between p p' w := by
  refine ⟨fun c => c.toOption_place_of_reordered h, fun f => ?_,
    fun s => s.toOption_place_of_reordered h, fun p p' w hlow hhigh => ?_⟩
  · exact toOption_bind_congr (f.chart.toOption_place_of_reordered h) _
  · have hw : 0 ≤ w ∧ w ≤ 1 := ⟨hlow, hhigh⟩
    have hw' : 0 ≤ 1 - w ∧ 1 - w ≤ 1 := ⟨sub_nonneg.2 hhigh, sub_le_self 1 hlow⟩
    have hpair := Reordered.of_pair (1 - w) w p p'
    have hformed := wellFormed_pair hw p p'
    simp only [Manifold.between_eq_place _ hw, Manifold.between_eq_place _ hw', sub_sub_cancel]
    refine ⟨fun c => ?_, fun f => f.place_of_reordered hpair hformed,
      fun s => s.place_of_reordered hpair hformed⟩
    exact toOption_bind_congr (c.toOption_place_of_reordered hpair) _

/-- Three points with the last one listed first. Two of them face each other across the center. -/
theorem order_irrelevant_rotated :
    Reordered ⟨[1 / 2, 1 / 4, 1 / 4], [#v[9 / 10, 0, 0], #v[-9 / 10, 0, 0], #v[0, 0, 1]]⟩
        (⟨[1 / 4, 1 / 2, 1 / 4], [#v[0, 0, 1], #v[9 / 10, 0, 0], #v[-9 / 10, 0, 0]]⟩ :
          WeightedPoints ℝ 3) ∧
      (0 : ℝ) ≤ 1 / 4 ∧ (1 / 4 : ℝ) ≤ 1 ∧
      ((⟨#v[1, -1, 0]⟩ : ScaledSpace ℝ 3).chart.place
          ⟨[1 / 4, 1 / 2, 1 / 4], [#v[0, 0, 1], #v[9 / 10, 0, 0], #v[-9 / 10, 0, 0]]⟩).toOption =
        ((⟨#v[1, -1, 0]⟩ : ScaledSpace ℝ 3).chart.place
          ⟨[1 / 2, 1 / 4, 1 / 4], [#v[9 / 10, 0, 0], #v[-9 / 10, 0, 0], #v[0, 0, 1]]⟩).toOption ∧
      ((⟨#v[1, 0, 1]⟩ : FlatSpace ℝ 3).manifold.place
          ⟨[1 / 4, 1 / 2, 1 / 4], [#v[0, 0, 1], #v[9 / 10, 0, 0], #v[-9 / 10, 0, 0]]⟩).toOption =
        ((⟨#v[1, 0, 1]⟩ : FlatSpace ℝ 3).manifold.place
          ⟨[1 / 2, 1 / 4, 1 / 4], [#v[9 / 10, 0, 0], #v[-9 / 10, 0, 0], #v[0, 0, 1]]⟩).toOption ∧
      ((⟨#v[0, 0, 0], by decide⟩ : Spheres ℝ 3).manifold.place
          ⟨[1 / 4, 1 / 2, 1 / 4], [#v[0, 0, 1], #v[9 / 10, 0, 0], #v[-9 / 10, 0, 0]]⟩).toOption =
        ((⟨#v[0, 0, 0], by decide⟩ : Spheres ℝ 3).manifold.place
          ⟨[1 / 2, 1 / 4, 1 / 4], [#v[9 / 10, 0, 0], #v[-9 / 10, 0, 0], #v[0, 0, 1]]⟩).toOption ∧
      (⟨#v[0, 0, 0], by decide⟩ : Spheres ℝ 3).manifold.between #v[-1, 0, 0] #v[1, 0, 0]
          (1 - 1 / 4) =
        (⟨#v[0, 0, 0], by decide⟩ : Spheres ℝ 3).manifold.between #v[1, 0, 0] #v[-1, 0, 0]
          (1 / 4) := by
  have hreordered : Reordered
      ⟨[1 / 2, 1 / 4, 1 / 4], [#v[9 / 10, 0, 0], #v[-9 / 10, 0, 0], #v[0, 0, 1]]⟩
      (⟨[1 / 4, 1 / 2, 1 / 4], [#v[0, 0, 1], #v[9 / 10, 0, 0], #v[-9 / 10, 0, 0]]⟩ :
        WeightedPoints ℝ 3) :=
    ⟨rfl, rfl, List.perm_append_singleton (1 / 4, #v[0, 0, 1])
      [(1 / 2, #v[9 / 10, 0, 0]), (1 / 4, #v[-9 / 10, 0, 0])]⟩
  have hlow : (0 : ℝ) ≤ 1 / 4 := by norm_num
  have hhigh : (1 / 4 : ℝ) ≤ 1 := by norm_num
  let := Trigonometry.real
  obtain ⟨hchart, hflat, haround, hbetween⟩ := order_irrelevant hreordered
  obtain ⟨-, -, hends⟩ := hbetween #v[1, 0, 0] #v[-1, 0, 0] (1 / 4) hlow hhigh
  exact ⟨hreordered, hlow, hhigh, hchart _, hflat _, haround _, hends _⟩

end WeightedPoints

end CurvedMesh
