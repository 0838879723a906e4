import CurvedMesh.Proofs.Means
import CurvedMesh.Proofs.Representatives

/-!
# Points of weight zero

A point of weight zero adds nothing to an average, but on a periodic axis it can be the lowest, and
then it decides which of the others are moved down by a period. The average stays what it is without
such points exactly if they make all of the others move or none of them.
-/

namespace CurvedMesh

/-! ## Weighted entries -/

section

variable {K β γ : Type} [Field K] [DecidableEq K] {entries : List (K × β)}

/-- The entries that weigh something. -/
def heavy (entries : List (K × β)) : List (K × β) :=
  entries.filter fun entry => entry.1 ≠ 0

theorem mem_heavy {entry : K × β} : entry ∈ heavy entries ↔ entry ∈ entries ∧ entry.1 ≠ 0 := by
  simp [heavy]

theorem heavy_map (f : β → γ) :
    heavy (entries.map (Prod.map id f)) = (heavy entries).map (Prod.map id f) := by
  unfold heavy
  rw [List.filter_map]
  rfl

theorem sum_map_heavy (f : β → K) : ((heavy entries).map fun entry => entry.1 * f entry.2).sum =
    (entries.map fun entry => entry.1 * f entry.2).sum := by
  unfold heavy
  induction entries with
  | nil => rfl
  | cons entry entries ih =>
    rw [List.filter_cons, List.map_cons, List.sum_cons, ← ih]
    split
    · rw [List.map_cons, List.sum_cons]
    · rename_i h
      rw [of_not_not (mt decide_eq_true h), zero_mul, zero_add]

theorem sum_fst_heavy : ((heavy entries).map Prod.fst).sum = (entries.map Prod.fst).sum := by
  have hsum : ((heavy entries).map fun entry => entry.1 * 1).sum = _ := sum_map_heavy fun _ => 1
  simpa only [mul_one] using hsum

theorem heavy_ne_nil (hsum : (entries.map Prod.fst).sum = 1) : heavy entries ≠ [] := by
  intro h
  rw [← sum_fst_heavy, h, List.map_nil, List.sum_nil] at hsum
  exact zero_ne_one hsum

end

theorem sum_map_sub_ite {K β : Type} [Field K] (l : List β) (w f : β → K) (p : β → Prop)
    [DecidablePred p] (a : K) :
    (l.map fun b => w b * (f b - if p b then a else 0)).sum =
      (l.map fun b => w b * f b).sum - ((l.filter p).map w).sum * a := by
  induction l with
  | nil => simp
  | cons b l ih =>
    rw [List.map_cons, List.sum_cons, ih, List.map_cons, List.sum_cons, List.filter_cons]
    by_cases h : p b
    · rw [if_pos h, if_pos (decide_eq_true h), List.map_cons, List.sum_cons]
      ring
    · rw [if_neg h, if_neg (mt of_decide_eq_true h)]
      ring

section

variable {K β : Type} [Field K] [LinearOrder K] {l : List β} {w : β → K}

theorem sum_filter_nonneg (hpos : ∀ b ∈ l, 0 < w b) (p : β → Prop) [DecidablePred p] :
    ∀ x ∈ (l.filter p).map w, 0 ≤ x :=
  List.forall_mem_map.2 fun b hb => (hpos b (List.mem_of_mem_filter hb)).le

variable [IsStrictOrderedRing K]

theorem sum_filter_eq_zero_iff (hpos : ∀ b ∈ l, 0 < w b) (p : β → Prop) [DecidablePred p] :
    ((l.filter p).map w).sum = 0 ↔ ∀ b ∈ l, ¬ p b := by
  constructor
  · intro hsum b hb hp
    have hmem : w b ∈ (l.filter p).map w :=
      List.mem_map_of_mem (List.mem_filter.2 ⟨hb, decide_eq_true hp⟩)
    have hzero := List.all_zero_of_le_zero_le_of_sum_eq_zero (sum_filter_nonneg hpos p) hsum hmem
    exact (hpos b hb).ne' hzero
  · intro hnone
    have hempty : l.filter p = [] := List.filter_eq_nil_iff.2 fun b hb => by simpa using hnone b hb
    rw [hempty, List.map_nil, List.sum_nil]

/-- Of positive weights that sum to one, a part sums to a whole number only if it is nothing or
everything. -/
theorem exists_int_eq_sum_filter_iff (hpos : ∀ b ∈ l, 0 < w b) (hsum : (l.map w).sum = 1)
    (p : β → Prop) [DecidablePred p] :
    (∃ n : ℤ, ((l.filter p).map w).sum = n) ↔ (∀ b ∈ l, ¬ p b) ∨ ∀ b ∈ l, p b := by
  have hrest := sum_filter_eq_zero_iff hpos fun b => ¬ p b
  simp only [not_not] at hrest
  rw [← sum_filter_eq_zero_iff hpos p, ← hrest]
  have hlow := List.sum_nonneg (sum_filter_nonneg hpos p)
  have hhigh := List.sum_nonneg (sum_filter_nonneg hpos fun b => ¬ p b)
  have hsplit := List.sum_map_filter_add_sum_map_filter_not p w l
  rw [hsum] at hsplit
  constructor
  · rintro ⟨n, hn⟩
    rw [hn] at hsplit hlow
    have hn0 : 0 ≤ n := by exact_mod_cast hlow
    have hn1 : n ≤ 1 := by
      have : (n : K) ≤ 1 := by linarith
      exact_mod_cast this
    obtain rfl | rfl : n = 0 ∨ n = 1 := by omega
    · left
      rw [hn, Int.cast_zero]
    · right
      rwa [Int.cast_one, add_eq_left] at hsplit
  · rintro (hzero | hzero)
    · exact ⟨0, by rw [hzero, Int.cast_zero]⟩
    · rw [hzero, add_zero] at hsplit
      exact ⟨1, by rw [hsplit, Int.cast_one]⟩

end

variable {K : Type} [Field K] [LinearOrder K]

/-! ## One periodic axis -/

namespace Period

variable [FloorRing K] {P : K} {entries : List (K × K)}

/-- The coordinate lies more than half a period above another of weight zero, and above no other of
positive weight. -/
def Displaced (P : K) (entries : List (K × K)) (x : K) : Prop :=
  (∃ entry ∈ entries, P * Scalar.half < x - entry.2) ∧
    ∀ entry ∈ entries, P * Scalar.half < x - entry.2 → entry.1 = 0

/-- The coordinates of weight zero displace all others or none. -/
def Undisturbed (P : K) (entries : List (K × K)) : Prop :=
  (∀ entry ∈ entries, entry.1 ≠ 0 → ¬ Displaced P entries entry.2) ∨
    ∀ entry ∈ entries, entry.1 ≠ 0 → Displaced P entries entry.2

theorem average_of_min? {low : K} (h : (entries.map Prod.snd).min? = some low) :
    average P (entries.map Prod.fst) (entries.map Prod.snd) =
      wrap P (entries.map fun entry => entry.1 * unwrap P low entry.2).sum := by
  rw [average, unwrapAll_eq_of_min? h, Scalar.weightedSum_eq_sum, List.map_map,
    List.zipWith_map, List.zipWith_self]
  rfl

variable [IsStrictOrderedRing K]

theorem exists_lt_sub_iff {xs : List K} {low : K} (h : xs.min? = some low) {a x : K} :
    (∃ y ∈ xs, a < x - y) ↔ a < x - low := by
  obtain ⟨hmem, hle⟩ := List.min?_eq_some_iff.1 h
  refine ⟨fun ⟨y, hy, hlt⟩ => ?_, fun hlt => ⟨low, hmem, hlt⟩⟩
  have := hle y hy
  linarith

theorem displaced_iff {low low' : K} (hlow : (entries.map Prod.snd).min? = some low)
    (hlow' : ((heavy entries).map Prod.snd).min? = some low') {x : K} :
    Displaced P entries x ↔ P / 2 < x - low ∧ ¬ P / 2 < x - low' := by
  rw [← exists_lt_sub_iff hlow, ← exists_lt_sub_iff hlow']
  simp only [Displaced, Scalar.half_eq, mul_one_div, List.mem_map, exists_exists_and_eq_and,
    mem_heavy, not_exists, not_and, and_imp]
  exact and_congr_right' (forall₂_congr fun entry _ => not_imp_not.symm)

open Classical in
theorem unwrap_eq_sub {low low' : K} (hlow : (entries.map Prod.snd).min? = some low)
    (hlow' : ((heavy entries).map Prod.snd).min? = some low') (x : K) :
    unwrap P low x = unwrap P low' x - if Displaced P entries x then P else 0 := by
  -- Without the coordinates of weight zero a displaced coordinate is not moved down.
  have hle : low ≤ low' := by
    obtain ⟨entry, hentry, rfl⟩ := List.mem_map.1 (List.min?_eq_some_iff.1 hlow').1
    exact (List.min?_eq_some_iff.1 hlow).2 _ (List.mem_map_of_mem (mem_heavy.1 hentry).1)
  unfold unwrap
  simp only [displaced_iff hlow hlow', Nat.cast_ofNat]
  by_cases hfar : P / 2 < x - low'
  · rw [if_pos hfar, if_pos (by linarith), if_neg (fun h => h.2 hfar), sub_zero]
  · rw [if_neg hfar]
    by_cases hlower : P / 2 < x - low
    · rw [if_pos hlower, if_pos ⟨hlower, hfar⟩]
    · rw [if_neg hlower, if_neg (fun h => hlower h.1), sub_zero]

theorem average_heavy_eq_iff (hP : 0 < P) (hpos : ∀ entry ∈ entries, 0 ≤ entry.1)
    (hsum : (entries.map Prod.fst).sum = 1) :
    average P ((heavy entries).map Prod.fst) ((heavy entries).map Prod.snd) =
      average P (entries.map Prod.fst) (entries.map Prod.snd) ↔ Undisturbed P entries := by
  classical
  obtain ⟨entry, hentry⟩ := List.exists_mem_of_ne_nil _ (heavy_ne_nil hsum)
  obtain ⟨low', hlow'⟩ := exists_min?_map Prod.snd hentry
  obtain ⟨low, hlow⟩ := exists_min?_map Prod.snd (mem_heavy.1 hentry).1
  have hpositive : ∀ entry ∈ heavy entries, 0 < entry.1 := fun entry hentry =>
    (hpos entry (mem_heavy.1 hentry).1).lt_of_ne' (mem_heavy.1 hentry).2
  rw [average_of_min? hlow, average_of_min? hlow', ← sum_map_heavy (unwrap P low)]
  simp only [unwrap_eq_sub hlow hlow']
  rw [sum_map_sub_ite, wrap_eq_wrap_sub_mul_iff hP,
    exists_int_eq_sum_filter_iff hpositive (sum_fst_heavy.trans hsum)]
  simp only [mem_heavy, and_imp, Undisturbed]

end Period

/-! ## Point sets -/

variable {d : Nat}

namespace WeightedPoints

/-- The points that weigh something. -/
def withoutZeros (q : WeightedPoints K d) : WeightedPoints K d :=
  ⟨(heavy q.pairs).map Prod.fst, (heavy q.pairs).map Prod.snd⟩

/-- The weights with the coordinates of one axis. -/
def axis (q : WeightedPoints K d) (i : Fin d) : List (K × K) :=
  q.pairs.map (Prod.map id (·.get i))

theorem pairs_withoutZeros (q : WeightedPoints K d) : q.withoutZeros.pairs = heavy q.pairs :=
  (List.zip_of_prod rfl rfl).symm

theorem axis_withoutZeros (q : WeightedPoints K d) (i : Fin d) :
    q.withoutZeros.axis i = heavy (q.axis i) := by
  rw [axis, axis, pairs_withoutZeros, heavy_map]

theorem mean_withoutZeros (q : WeightedPoints K d) (f : Point K d → K) :
    q.withoutZeros.mean f = q.mean f := by
  rw [mean, mean, pairs_withoutZeros, sum_map_heavy]

variable [FloorRing K] {q : WeightedPoints K d}

theorem sum_weights_withoutZeros (hq : q.WellFormed) :
    q.withoutZeros.weights.sum = q.weights.sum := by
  rw [← hq.map_fst_pairs]
  exact sum_fst_heavy

theorem wellFormed_withoutZeros (hq : q.WellFormed) (hsum : q.weights.sum = 1) :
    q.withoutZeros.WellFormed := by
  refine ⟨by simp [withoutZeros], fun hempty => ?_, fun w hw => ?_⟩
  · rw [← hq.map_fst_pairs] at hsum
    exact heavy_ne_nil hsum (List.map_eq_nil_iff.1 hempty)
  · obtain ⟨entry, hentry, rfl⟩ := List.mem_map.1 hw
    exact hq.2.2 _ (List.of_mem_zip (mem_heavy.1 hentry).1).1

theorem WellFormed.map_fst_axis (hq : q.WellFormed) (i : Fin d) :
    (q.axis i).map Prod.fst = q.weights := by
  rw [axis, List.map_map]
  exact hq.map_fst_pairs

theorem WellFormed.map_snd_axis (hq : q.WellFormed) (i : Fin d) :
    (q.axis i).map Prod.snd = q.points.map (·.get i) := by
  rw [← hq.map_snd_pairs, axis, List.map_map, List.map_map]
  rfl

end WeightedPoints

namespace Chart

theorem Reads.map_pairs {α : Type} {c : Chart α d} {q : WeightedPoints α d}
    {points : List (Point α d)} (h : c.Reads q.points points) :
    q.pairs.map (Prod.map id c.ofSpace) =
      (⟨q.weights, points⟩ : WeightedPoints α d).pairs.map (Prod.map id .ok) := by
  unfold WeightedPoints.pairs
  rw [← List.zip_map_right, ← List.zip_map_right, h]

theorem Reads.withoutZeros {c : Chart K d} {q : WeightedPoints K d}
    {points : List (Point K d)} (h : c.Reads q.points points) :
    (⟨q.weights, points⟩ : WeightedPoints K d).withoutZeros.weights = q.withoutZeros.weights ∧
      c.Reads q.withoutZeros.points
        (⟨q.weights, points⟩ : WeightedPoints K d).withoutZeros.points := by
  have hheavy := congrArg heavy h.map_pairs
  rw [heavy_map, heavy_map] at hheavy
  constructor
  · have hfst := congrArg (List.map Prod.fst) hheavy
    rw [List.map_map, List.map_map] at hfst
    exact hfst.symm
  · have hsnd := congrArg (List.map Prod.snd) hheavy
    rw [List.map_map, List.map_map] at hsnd
    unfold Reads WeightedPoints.withoutZeros
    rw [List.map_map, List.map_map]
    exact hsnd

variable [FloorRing K] [IsStrictOrderedRing K] {periodicity : Point K d} {q : WeightedPoints K d}

theorem get_average_withoutZeros_eq_iff (hq : q.WellFormed) (hsum : q.weights.sum = 1)
    (i : Fin d) : (average periodicity q.withoutZeros.weights q.withoutZeros.points).get i =
        (average periodicity q.weights q.points).get i ↔
      (0 < periodicity.get i → Period.Undisturbed (periodicity.get i) (q.axis i)) := by
  have hq' := WeightedPoints.wellFormed_withoutZeros hq hsum
  by_cases hperiodic : 0 < periodicity.get i
  · have hpos : ∀ entry ∈ q.axis i, 0 ≤ entry.1 := fun entry hentry =>
      not_lt.1 (hq.2.2 _ (hq.map_fst_axis i ▸ List.mem_map_of_mem hentry))
    have hone : ((q.axis i).map Prod.fst).sum = 1 := by rw [hq.map_fst_axis, hsum]
    rw [get_average_of_pos hperiodic, get_average_of_pos hperiodic, ← hq'.map_fst_axis i,
      ← hq'.map_snd_axis i, ← hq.map_fst_axis i, ← hq.map_snd_axis i, q.axis_withoutZeros,
      Period.average_heavy_eq_iff hperiodic hpos hone, imp_iff_right hperiodic]
  · rw [get_average_of_not_pos hperiodic, get_average_of_not_pos hperiodic,
      WeightedPoints.weightedSum_eq_mean, WeightedPoints.weightedSum_eq_mean, q.mean_withoutZeros]
    exact iff_of_true rfl fun h => absurd h hperiodic

theorem average_withoutZeros_eq_iff (hq : q.WellFormed) (hsum : q.weights.sum = 1) :
    average periodicity q.withoutZeros.weights q.withoutZeros.points =
        average periodicity q.weights q.points ↔
      ∀ i, 0 < periodicity.get i → Period.Undisturbed (periodicity.get i) (q.axis i) := by
  constructor
  · exact fun heq i => (get_average_withoutZeros_eq_iff hq hsum i).1 (heq ▸ rfl)
  · exact fun h => Point.ext_get fun i => (get_average_withoutZeros_eq_iff hq hsum i).2 (h i)

end Chart

variable [FloorRing K] [IsStrictOrderedRing K] {q : WeightedPoints K d}

theorem FlatSpace.exists_place_withoutZeros (f : FlatSpace K d) (hq : q.WellFormed)
    (hsum : q.weights.sum = 1) :
    ∃ p p', f.manifold.place q = .ok p ∧ f.manifold.place q.withoutZeros = .ok p' ∧
      p'.fallback? = p.fallback? ∧ (p'.point = p.point ↔ ∀ i, 0 < f.periodicity.get i →
        Period.Undisturbed (f.periodicity.get i) (q.axis i)) := by
  have hq' := WeightedPoints.wellFormed_withoutZeros hq hsum
  refine ⟨_, _, f.place_eq_average hq, f.place_eq_average hq', rfl, ?_⟩
  exact Chart.average_withoutZeros_eq_iff hq hsum

end CurvedMesh
