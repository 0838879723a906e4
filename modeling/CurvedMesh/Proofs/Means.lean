import CurvedMesh.Proofs.ChartAverage

/-!
# Means over weighted points

The weighted mean of a quantity that depends on the point. Average radii and the coordinates of
centroids are means.
-/

namespace CurvedMesh.WeightedPoints

variable {K : Type} [Field K] {d : Nat}

/-- The mean of a quantity over the points. -/
def mean (q : WeightedPoints K d) (f : Point K d → K) : K :=
  (q.pairs.map fun entry => entry.1 * f entry.2).sum

variable {q : WeightedPoints K d} {f g : Point K d → K}

theorem mean_congr (h : ∀ entry ∈ q.pairs, entry.1 = 0 ∨ f entry.2 = g entry.2) :
    q.mean f = q.mean g := by
  unfold mean
  refine congrArg List.sum (List.map_congr_left fun entry hentry => ?_)
  rcases h entry hentry with hzero | heq
  · rw [hzero, zero_mul, zero_mul]
  · rw [heq]

theorem mean_mul (q : WeightedPoints K d) (a : K) (f : Point K d → K) :
    q.mean (fun p => a * f p) = a * q.mean f := by
  unfold mean
  simp only [mul_left_comm _ a, List.sum_map_mul_left]

variable [LinearOrder K] [FloorRing K]

theorem WellFormed.map_fst_pairs (hq : q.WellFormed) : q.pairs.map Prod.fst = q.weights :=
  List.map_fst_zip hq.1.le

theorem WellFormed.map_snd_pairs (hq : q.WellFormed) : q.pairs.map Prod.snd = q.points :=
  List.map_snd_zip hq.1.ge

theorem weightedSum_eq_mean (q : WeightedPoints K d) (f : Point K d → K) :
    Scalar.weightedSum q.weights (q.points.map f) = q.mean f := by
  rw [Scalar.weightedSum_eq_sum, Scalar.zipWith_mul_map]
  rfl

theorem get_weightedSum (q : WeightedPoints K d) (i : Fin d) :
    (Point.weightedSum q.weights q.points).get i = q.mean (·.get i) := by
  rw [Point.get_weightedSum, weightedSum_eq_mean]

theorem mean_const (hq : q.WellFormed) (hsum : q.weights.sum = 1) (a : K) :
    (q.mean fun _ => a) = a := by
  unfold mean
  rw [List.sum_map_mul_right, hq.map_fst_pairs, hsum, one_mul]

theorem mean_add_mean (hq : q.WellFormed) (hsum : q.weights.sum = 1) {a : K}
    (h : ∀ p, f p + g p = a) : q.mean f + q.mean g = a := by
  rw [← mean_const hq hsum a]
  unfold mean
  simp only [← List.sum_map_add, ← mul_add, h]

/-! ## Quantities that are nowhere negative -/

variable [IsStrictOrderedRing K]

theorem mul_nonneg_of_mem_pairs (hq : q.WellFormed) (hf : ∀ p, 0 ≤ f p) :
    ∀ x ∈ q.pairs.map fun entry => entry.1 * f entry.2, 0 ≤ x :=
  List.forall_mem_map.2 fun entry hentry =>
    mul_nonneg (not_lt.1 (hq.2.2 _ (List.of_mem_zip hentry).1)) (hf entry.2)

theorem mean_nonneg (hq : q.WellFormed) (hf : ∀ p, 0 ≤ f p) : 0 ≤ q.mean f :=
  List.sum_nonneg (mul_nonneg_of_mem_pairs hq hf)

theorem eq_zero_of_mean_eq_zero (hq : q.WellFormed) (hf : ∀ p, 0 ≤ f p) (h : q.mean f = 0) :
    ∀ entry ∈ q.pairs, entry.1 = 0 ∨ f entry.2 = 0 := by
  intro entry hentry
  exact mul_eq_zero.1 (List.all_zero_of_le_zero_le_of_sum_eq_zero (mul_nonneg_of_mem_pairs hq hf) h
    (List.mem_map_of_mem (f := fun entry : K × Point K d => entry.1 * f entry.2) hentry))

end CurvedMesh.WeightedPoints
