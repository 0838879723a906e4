import CurvedMesh.Proofs.Period

/-!
# Averages on a periodic axis

What averaging in a chart makes of the coordinates of one periodic axis. Coordinates are written as
lifts that lie close together, each with its whole turns. Unwrapping takes at most one turn off a
coordinate: where the turns differ by no more than one, the average is that of the lifts, and what
the turns exceed that by stays in it.
-/

namespace CurvedMesh

open AddCommGroup

section

variable {α : Type} [Scalar α]

/-- The sum of the numbers, each times its weight, from left to right. -/
def Scalar.weightedSum (weights xs : List α) : α :=
  (weights.zip xs).foldl (fun sum entry => sum + entry.2 * entry.1) 0

namespace Period

/-- Moves down the coordinates that are more than half a period above the least one. -/
def unwrapAll (period : α) : List α → List α
  | [] => []
  | x :: xs => (x :: xs).map (unwrap period (xs.foldl Scalar.lesser x))

/-- The weighted average of coordinates on a periodic axis. -/
def average (period : α) (weights xs : List α) : α :=
  wrap period (Scalar.weightedSum weights (unwrapAll period xs))

end Period

end

variable {K : Type} [Field K] {β : Type}

/-! ## Weighted sums -/

namespace Scalar

theorem weightedSum_eq_sum [LinearOrder K] [FloorRing K] (weights xs : List K) :
    weightedSum weights xs = (List.zipWith (· * ·) weights xs).sum := by
  unfold weightedSum
  rw [foldl_add_eq_sum (fun entry : K × K => entry.2 * entry.1), zero_add, List.zip_eq_zipWith,
    List.map_zipWith]
  simp only [mul_comm]

theorem zipWith_mul_map (weights : List K) (l : List β) (f : β → K) :
    List.zipWith (· * ·) weights (l.map f) =
      (weights.zip l).map fun entry => entry.1 * f entry.2 := by
  rw [List.zipWith_map_right, List.zip_eq_zipWith, List.map_zipWith]

theorem sum_zipWith_add (weights : List K) (l : List β) (f g : β → K) :
    (List.zipWith (· * ·) weights (l.map fun b => f b + g b)).sum =
      (List.zipWith (· * ·) weights (l.map f)).sum +
        (List.zipWith (· * ·) weights (l.map g)).sum := by
  simp only [zipWith_mul_map, mul_add, List.sum_map_add]

theorem sum_zipWith_mul (weights : List K) (l : List β) (f : β → K) (c : K) :
    (List.zipWith (· * ·) weights (l.map fun b => f b * c)).sum =
      (List.zipWith (· * ·) weights (l.map f)).sum * c := by
  simp only [zipWith_mul_map, ← mul_assoc, List.sum_map_mul_right]

theorem sum_zipWith_const {weights : List K} {l : List β} (h : weights.length = l.length) (c : K) :
    (List.zipWith (· * ·) weights (l.map fun _ => c)).sum = weights.sum * c := by
  rw [zipWith_mul_map, List.sum_map_mul_right, List.map_fst_zip h.le]

theorem sum_zipWith_add_const {weights xs : List K} (hsum : weights.sum = 1)
    (h : weights.length = xs.length) (t : K) :
    (List.zipWith (· * ·) weights (xs.map (· + t))).sum =
      (List.zipWith (· * ·) weights xs).sum + t := by
  rw [sum_zipWith_add weights xs (·) fun _ => t, sum_zipWith_const h, hsum, one_mul, List.map_id']

end Scalar

namespace Period

/-! ## Turns -/

/-- The coordinate that lies some whole turns from its lift. -/
def turned (P : K) (entry : K × ℤ) : K :=
  entry.1 + entry.2 * P

theorem exists_turned {P : K} {lifts xs : List K}
    (h : List.Forall₂ (· ≡ · [PMOD P]) lifts xs) :
    ∃ entries : List (K × ℤ), entries.map Prod.fst = lifts ∧ entries.map (turned P) = xs := by
  induction h with
  | nil => exact ⟨[], rfl, rfl⟩
  | cons hfirst _ ih =>
    obtain ⟨entries, rfl, rfl⟩ := ih
    obtain ⟨k, hk⟩ := modEq_iff_zsmul'.1 hfirst
    refine ⟨(_, k) :: entries, rfl, ?_⟩
    rw [List.map_cons, turned, ← zsmul_eq_mul, ← hk, add_sub_cancel]

/-- What the turns exceed the least of them by, less the one turn that unwrapping takes off, as a
weighted sum. -/
def excess (weights : List K) (turns : List ℤ) : K :=
  (List.zipWith (· * ·) weights
    (turns.map fun k => ((max 0 (k - 1 - turns.min?.getD 0) : ℤ) : K))).sum

/-- No two of the turns differ by more than one. -/
def OneTurn (turns : List ℤ) : Prop :=
  ∀ j ∈ turns, ∀ k ∈ turns, k ≤ j + 1

theorem excess_eq_zero {weights : List K} {turns : List ℤ} (h : OneTurn turns) :
    excess weights turns = 0 := by
  have hzero : turns.map (fun k => ((max 0 (k - 1 - turns.min?.getD 0) : ℤ) : K)) =
      turns.map fun _ => 0 * 0 := by
    refine List.map_congr_left fun k hk => ?_
    obtain ⟨j, hj⟩ := Option.isSome_iff_exists.1 (List.isSome_min?_of_mem hk)
    have hle := h j (List.min?_mem hj) k hk
    rw [hj, Option.getD_some, max_eq_left (by omega), Int.cast_zero, mul_zero]
  rw [excess, hzero, Scalar.sum_zipWith_mul, mul_zero]

variable [LinearOrder K] [FloorRing K]

/-- The numbers lie in an interval shorter than half the period. -/
def ShortArc (P : K) (lifts : List K) : Prop :=
  ∃ low high, high - low < P * Scalar.half ∧ ∀ x ∈ lifts, low ≤ x ∧ x ≤ high

/-- The wrapped middle of two coordinates, the higher of them moved down if it is far above. -/
def middle (period x y : K) : K :=
  wrap period (unwrap period (min x y) x * Scalar.half + unwrap period (min x y) y * Scalar.half)

theorem middle_comm (period x y : K) : middle period x y = middle period y x := by
  unfold middle
  rw [min_comm, add_comm]

theorem average_pair (period x y : K) :
    average period [Scalar.half, Scalar.half] [x, y] = middle period x y := by
  simp only [middle, average, unwrapAll, Scalar.weightedSum, List.foldl_cons, List.foldl_nil,
    List.map_cons, List.map_nil, List.zip_cons_cons, List.zip_nil_left, Scalar.lesser_eq_min,
    zero_add]

theorem exists_min?_map {α : Type} [LinearOrder α] {l : List β} {b : β} (f : β → α) (h : b ∈ l) :
    ∃ low, (l.map f).min? = some low :=
  Option.isSome_iff_exists.1 (List.isSome_min?_of_mem (List.mem_map_of_mem h))

theorem unwrapAll_eq_of_min? {P : K} {xs : List K} {low : K} (h : xs.min? = some low) :
    unwrapAll P xs = xs.map (unwrap P low) := by
  cases xs with
  | nil => rfl
  | cons x xs =>
    have hlesser : (Scalar.lesser : K → K → K) = min := by
      funext x y
      exact Scalar.lesser_eq_min x y
    have hleast : (x :: xs).min? = some (xs.foldl Scalar.lesser x) := by
      rw [hlesser]
      exact List.min?_cons'
    rw [hleast, Option.some.injEq] at h
    rw [unwrapAll, h]

variable [IsStrictOrderedRing K] {P : K}

theorem ShortArc.abs_sub_lt {lifts : List K} (h : ShortArc P lifts) {x y : K} (hx : x ∈ lifts)
    (hy : y ∈ lifts) : |x - y| < P / 2 := by
  obtain ⟨low, high, hshort, hmem⟩ := h
  rw [Scalar.half_eq] at hshort
  rw [abs_lt]
  constructor <;> linarith [hmem x hx, hmem y hy]

theorem ShortArc.map_add {lifts : List K} (h : ShortArc P lifts) (t : K) :
    ShortArc P (lifts.map (· + t)) := by
  obtain ⟨low, high, hshort, hmem⟩ := h
  refine ⟨low + t, high + t, by linarith, List.forall_mem_map.2 fun x hx => ?_⟩
  constructor <;> linarith [hmem x hx]

theorem unwrap_turned (hP : 0 < P) {x y : K} {j k : ℤ} (hnear : |x - y| < P / 2)
    (hle : turned P (x, j) ≤ turned P (y, k)) :
    j ≤ k ∧ unwrap P (turned P (x, j)) (turned P (y, k)) = turned P (y, max j (k - 1)) := by
  -- Of two coordinates with near lifts the lower one has no more turns. The upper one keeps all but
  -- one of its turns, and not fewer than the lower one has.
  obtain ⟨hlow, hhigh⟩ := abs_lt.1 hnear
  unfold turned at hle ⊢
  have hjk : j ≤ k := by
    by_contra hlt
    have hturn := mul_add_le_mul hP (not_le.1 hlt)
    simp only at hle
    linarith
  refine ⟨hjk, ?_⟩
  unfold unwrap
  simp only [Nat.cast_ofNat]
  rcases eq_or_lt_of_le hjk with rfl | hlt
  · rw [if_neg (by linarith), max_eq_left (by omega)]
  · have hturn := mul_add_le_mul hP hlt
    rw [if_pos (by linarith), max_eq_right (by omega)]
    push_cast
    ring

theorem unwrapAll_turned (hP : 0 < P) {entries : List (K × ℤ)}
    (hnear : ShortArc P (entries.map Prod.fst)) {j : ℤ}
    (hj : (entries.map Prod.snd).min? = some j) :
    unwrapAll P (entries.map (turned P)) =
      entries.map fun entry => turned P (entry.1, max j (entry.2 - 1)) := by
  obtain ⟨hjmem, hjle⟩ := List.min?_eq_some_iff.1 hj
  obtain ⟨fewest, hfewest, rfl⟩ := List.mem_map.1 hjmem
  obtain ⟨low, hlow⟩ := exists_min?_map (turned P) hfewest
  obtain ⟨hmem, hle⟩ := List.min?_eq_some_iff.1 hlow
  obtain ⟨lowest, hlowest, rfl⟩ := List.mem_map.1 hmem
  have hstep : ∀ entry ∈ entries, lowest.2 ≤ entry.2 ∧
      unwrap P (turned P lowest) (turned P entry) =
        turned P (entry.1, max lowest.2 (entry.2 - 1)) := fun entry hentry =>
    unwrap_turned hP (hnear.abs_sub_lt (List.mem_map_of_mem hlowest) (List.mem_map_of_mem hentry))
      (hle _ (List.mem_map_of_mem hentry))
  -- the lowest coordinate has the fewest turns
  have hturns : lowest.2 = fewest.2 :=
    le_antisymm (hstep fewest hfewest).1 (hjle _ (List.mem_map_of_mem hlowest))
  rw [unwrapAll_eq_of_min? hlow, List.map_map, ← hturns]
  exact List.map_congr_left fun entry hentry => (hstep entry hentry).2

/-! ## Averages -/

theorem average_turned (hP : 0 < P) {weights : List K} (hsum : weights.sum = 1)
    {entries : List (K × ℤ)} (hlength : weights.length = entries.length)
    (hnear : ShortArc P (entries.map Prod.fst)) :
    average P weights (entries.map (turned P)) =
      wrap P ((List.zipWith (· * ·) weights (entries.map Prod.fst)).sum +
        excess weights (entries.map Prod.snd) * P) := by
  cases hj : (entries.map Prod.snd).min? with
  | none =>
    rw [List.min?_eq_none_iff, List.map_eq_nil_iff] at hj
    rw [hj, List.length_nil, List.length_eq_zero_iff] at hlength
    rw [hlength, List.sum_nil] at hsum
    exact absurd hsum zero_ne_one
  | some j =>
    have hentry (entry : K × ℤ) : turned P (entry.1, max j (entry.2 - 1)) =
        entry.1 + ((max 0 (entry.2 - 1 - j) : ℤ) : K) * P + j * P := by
      have hmax : max j (entry.2 - 1) = max 0 (entry.2 - 1 - j) + j := by omega
      rw [turned, hmax]
      push_cast
      ring
    unfold average excess
    rw [unwrapAll_turned hP hnear hj, hj, Option.getD_some, Scalar.weightedSum_eq_sum, List.map_map]
    simp only [hentry, Scalar.sum_zipWith_add, Scalar.sum_zipWith_const hlength, hsum]
    rw [Scalar.sum_zipWith_mul, one_mul, ← wrap_sub_mul hP _ j, add_sub_cancel_right]
    rfl

/-- Wherever the seam lies, the average of wrapped coordinates is the wrapped average of lifts that
lie close together. -/
theorem average_of_lifts (hP : 0 < P) {weights lifts xs : List K} (hsum : weights.sum = 1)
    (hlength : weights.length = xs.length) (hwithin : ∀ x ∈ xs, x ∈ Set.Ico 0 P)
    (hlifts : List.Forall₂ (· ≡ · [PMOD P]) lifts xs) (hnear : ShortArc P lifts) :
    average P weights xs = wrap P (List.zipWith (· * ·) weights lifts).sum := by
  obtain ⟨entries, rfl, rfl⟩ := exists_turned hlifts
  rw [List.length_map] at hlength
  rw [average_turned hP hsum hlength hnear, excess_eq_zero, zero_mul, add_zero]
  -- coordinates of one period cannot be two turns apart
  unfold OneTurn
  simp only [List.forall_mem_map] at hwithin ⊢
  intro low hlow high hhigh
  by_contra hfar
  have hturn := mul_add_le_mul hP (not_le.1 hfar)
  have hapart := abs_lt.1 (hnear.abs_sub_lt (List.mem_map_of_mem hlow) (List.mem_map_of_mem hhigh))
  have hbelow := (hwithin low hlow).1
  have habove := (hwithin high hhigh).2
  unfold turned at hbelow habove
  push_cast at hturn
  linarith

theorem average_wrap_add (hP : 0 < P) {weights lifts xs : List K} (hsum : weights.sum = 1)
    (hlength : weights.length = xs.length) (hwithin : ∀ x ∈ xs, x ∈ Set.Ico 0 P)
    (hlifts : List.Forall₂ (· ≡ · [PMOD P]) lifts xs) (hnear : ShortArc P lifts) (t : K) :
    average P weights (xs.map fun x => wrap P (x + t)) = wrap P (average P weights xs + t) := by
  have hlength' : weights.length = (xs.map fun x => wrap P (x + t)).length := by
    rw [hlength, List.length_map]
  have hwithin' : ∀ x ∈ xs.map fun x => wrap P (x + t), x ∈ Set.Ico 0 P :=
    List.forall_mem_map.2 fun x _ => wrap_mem_Ico hP _
  have hlifts' : List.Forall₂ (· ≡ · [PMOD P]) (lifts.map (· + t))
      (xs.map fun x => wrap P (x + t)) := by
    rw [List.forall₂_map_left_iff, List.forall₂_map_right_iff]
    exact hlifts.imp fun lift x hx => (hx.add_right t).trans (wrap_modEq hP _).symm
  rw [average_of_lifts hP hsum hlength hwithin hlifts hnear,
    average_of_lifts hP hsum hlength' hwithin' hlifts' (hnear.map_add t),
    Scalar.sum_zipWith_add_const hsum (hlength.trans hlifts.length_eq.symm), wrap_wrap_add hP]

/-! ## Two coordinates of the same weight -/

theorem middle_mem_Ico (hP : 0 < P) (x y : K) : middle P x y ∈ Set.Ico 0 P :=
  wrap_mem_Ico hP _

theorem middle_wrap {x y : K} (hP : 0 < P) (hnear : |x - y| < P / 2) :
    middle P (wrap P x) (wrap P y) = wrap P ((x + y) / 2) := by
  have hlift (z : K) : z ≡ wrap P z [PMOD P] := (wrap_modEq hP z).symm
  have hwithin : ∀ z ∈ [wrap P x, wrap P y], z ∈ Set.Ico 0 P :=
    List.forall_mem_cons.2
      ⟨wrap_mem_Ico hP x, List.forall_mem_singleton.2 (wrap_mem_Ico hP y)⟩
  have harc : ShortArc P [x, y] := by
    refine ⟨min x y, max x y, ?_, by simp⟩
    rwa [max_sub_min_eq_abs', Scalar.half_eq, mul_one_div]
  have hhalves : [(Scalar.half : K), Scalar.half].sum = 1 := by
    rw [Scalar.half_eq, List.sum_cons, List.sum_singleton, add_halves]
  have hmean : (List.zipWith (· * ·) [Scalar.half, Scalar.half] [x, y]).sum = (x + y) / 2 := by
    simp only [Scalar.half_eq, List.zipWith_cons_cons, List.zipWith_nil_left, List.sum_cons,
      List.sum_nil]
    ring
  have hlength : [(Scalar.half : K), Scalar.half].length = [wrap P x, wrap P y].length := rfl
  rw [← average_pair, average_of_lifts hP hhalves hlength hwithin
    (.cons (hlift x) (.cons (hlift y) .nil)) harc, hmean]

end Period

end CurvedMesh
