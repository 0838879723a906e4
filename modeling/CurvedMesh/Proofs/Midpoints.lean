import CurvedMesh.Proofs.Exact
import CurvedMesh.Proofs.Results
import CurvedMesh.Geometry.FlatSpace

/-!
# Manifolds with midpoints

`BisectsBy` names the midpoint of any two points. In straight space it is their mean.
-/

namespace CurvedMesh

variable {α : Type} {d : Nat}

namespace Manifold

variable [Scalar α]

theorem between_eq_place (m : Manifold α d) {w : α} (hw : 0 ≤ w ∧ w ≤ 1) (p q : Point α d) :
    m.between p q w = m.place ⟨[1 - w, w], [p, q]⟩ :=
  if_pos hw

def HasMidpoints (m : Manifold α d) : Prop :=
  ∀ p q, ∃ placement, m.midpoint p q = .ok placement

/-- The point half way between any two points is the one that `mid` names. -/
def BisectsBy (m : Manifold α d) (mid : Point α d → Point α d → Point α d) : Prop :=
  ∀ p q, ∃ placement, m.midpoint p q = .ok placement ∧ placement.point = mid p q

theorem HasMidpoints.exists_bisectsBy {m : Manifold α d} (h : m.HasMidpoints) :
    ∃ mid, m.BisectsBy mid := by
  choose placement hplacement using h
  exact ⟨fun p q => (placement p q).point, fun p q => ⟨placement p q, hplacement p q, rfl⟩⟩

theorem BisectsBy.hasMidpoints {m : Manifold α d} {mid : Point α d → Point α d → Point α d}
    (h : m.BisectsBy mid) : m.HasMidpoints := by
  intro p q
  obtain ⟨placement, hplacement, -⟩ := h p q
  exact ⟨placement, hplacement⟩

end Manifold

/-! ## Straight space -/

section Straight

variable [Scalar α]

namespace Chart

theorem unwrap_zero (hzero : ¬ (0 : α) < 0) (points : List (Point α d)) :
    unwrap 0 points = points := by
  cases points with
  | nil => rfl
  | cons p points =>
    unfold unwrap
    conv_rhs => rw [← List.map_id (p :: points)]
    refine List.map_congr_left fun q _ => ?_
    ext i h
    simp [hzero]

theorem wrap_zero (hzero : ¬ (0 : α) < 0) (p : Point α d) : wrap 0 p = p := by
  ext i h
  simp [wrap, hzero]

end Chart

/-- The point half way from `p` to `q`, as computed without a chart. -/
def Point.halfway (p q : Point α d) : Point α d :=
  weightedSum [1 - Scalar.half, Scalar.half] [p, q]

namespace FlatSpace

theorem place_euclidean (hzero : ¬ (0 : α) < 0) {q : WeightedPoints α d} (h : q.check = .ok ()) :
    (euclidean : FlatSpace α d).manifold.place q =
      .ok { point := Point.weightedSum q.weights q.points } := by
  have hread : q.points.mapM (Except.ok (ε := ChartFault α)) = .ok q.points :=
    mapM_eq_ok_iff.2 rfl
  simp only [manifold, chart, euclidean, Chart.place, h, hread, Chart.average,
    Chart.unwrap_zero hzero, Chart.wrap_zero hzero]
  rfl

theorem bisectsBy_halfway (hzero : ¬ (0 : α) < 0)
    (hrange : (0 : α) ≤ Scalar.half ∧ (Scalar.half : α) ≤ 1)
    (hfirst : ¬ (1 : α) - Scalar.half < 0) (hsecond : ¬ (Scalar.half : α) < 0) :
    (euclidean : FlatSpace α d).manifold.BisectsBy Point.halfway := by
  intro p q
  have hcheck : WeightedPoints.check ⟨[1 - Scalar.half, Scalar.half], [p, q]⟩ = .ok () := by
    refine WeightedPoints.check_eq_ok_iff.2 ⟨rfl, List.cons_ne_nil _ _, ?_⟩
    exact List.forall_mem_cons.2 ⟨hfirst, List.forall_mem_singleton.2 hsecond⟩
  refine ⟨{ point := Point.halfway p q }, ?_, rfl⟩
  rw [Manifold.midpoint, Manifold.between_eq_place _ hrange, place_euclidean hzero hcheck]
  rfl

end FlatSpace

end Straight

section Exact

variable {K : Type} [Field K] [LinearOrder K] [FloorRing K]

/-! ## Halves -/

namespace Point

def mean (p q : Point K d) : Point K d :=
  weightedSum [Scalar.half, Scalar.half] [p, q]

theorem mean_comm (p q : Point K d) : mean p q = mean q p := by
  ext i h
  simp only [mean, weightedSum_pair, Vector.getElem_add]
  ring

theorem get_mean (p q : Point K d) (i : Fin d) : (mean p q).get i = (p.get i + q.get i) / 2 := by
  rw [mean, weightedSum_pair, get_add, get_scale, get_scale, Scalar.half_eq]
  ring

end Point

theorem Scalar.one_sub_half : (1 : K) - half = half := by
  rw [half_eq]
  norm_num

variable [IsStrictOrderedRing K]

/-- Two points of the same weight. -/
def WeightedPoints.halves (p q : Point K d) : WeightedPoints K d where
  weights := [Scalar.half, Scalar.half]
  points := [p, q]

theorem WeightedPoints.check_halves (p q : Point K d) : (halves p q).check = .ok () := by
  rw [check_eq_ok_iff]
  refine ⟨rfl, List.cons_ne_nil _ _, ?_⟩
  intro w hw
  have hhalf : w = 1 / 2 := by simpa [halves, Scalar.half_eq] using hw
  rw [hhalf]
  norm_num

theorem Scalar.half_mem_range : (0 : K) ≤ half ∧ (half : K) ≤ 1 := by
  rw [half_eq]
  norm_num

theorem Manifold.midpoint_eq_place (m : Manifold K d) (p q : Point K d) :
    m.midpoint p q = m.place (.halves p q) := by
  rw [midpoint, between_eq_place _ Scalar.half_mem_range, Scalar.one_sub_half]
  rfl

theorem FlatSpace.bisectsBy_mean :
    (euclidean : FlatSpace K d).manifold.BisectsBy Point.mean := by
  intro p q
  refine ⟨{ point := Point.mean p q }, ?_, rfl⟩
  rw [Manifold.midpoint_eq_place, place_euclidean (lt_irrefl 0) (WeightedPoints.check_halves p q)]
  rfl

end Exact

end CurvedMesh
