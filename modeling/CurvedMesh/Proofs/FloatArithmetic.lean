import CurvedMesh.Proofs.Floats
import Mathlib.Algebra.Order.Floor.Ring

/-!
# Signs and numbers in float arithmetic

The result of an operation on floats is rounded and packed into bits. Neither step takes a result
that is not zero across zero or onto it, because the least exponent is never undercut. So the sign
of a difference is that of the comparison. Which results are not numbers is read off the unpacked
operands.
-/

namespace CurvedMesh.Binary64

open Float.Model (Format UnpackedFloat totalExponent)
open Float.Model.UnpackedFloat

/-! ## Sides of zero -/

/-- The mantissa has room in a float, and so has the exponent unless it is too large. -/
def Fits : UnpackedFloat → Prop
  | .finite _ m e _ => m < 2 ^ 53 ∧ -1074 ≤ e
  | _ => True

theorem Canonical.fits {u : UnpackedFloat} (h : Canonical u) : Fits u := by
  cases u with
  | finite => exact ⟨h.1, h.2.1⟩
  | _ => trivial

def side : Sign → Ordering
  | .negative => .lt
  | .positive => .gt

/-- On which side of zero the value lies. What is not a number lies on none. -/
def side? (u : UnpackedFloat) : Option Ordering :=
  u.compare (.zero .positive)

theorem side?_finite (s : Sign) (m : Nat) (e : ℤ) (hm : 0 < m) :
    side? (.finite s m e hm) = some (side s) := by
  cases s <;> rfl

theorem side?_eq_none_iff {u : UnpackedFloat} : side? u = none ↔ u = .notANumber := by
  rw [side?, compare_eq_none_iff]
  exact or_iff_left nofun

theorem eq_of_side? {u : UnpackedFloat} {s : Sign} (h : side? u = some (side s)) :
    u = .infinity s ∨ ∃ m e hm, u = .finite s m e hm := by
  cases u with
  | infinity s' =>
    cases s <;> cases s' <;> first | exact .inl rfl | cases h
  | finite s' m e hm =>
    cases s <;> cases s' <;> first | exact .inr ⟨m, e, hm, rfl⟩ | cases h
  | notANumber => cases h
  | zero s' => cases s <;> cases s' <;> cases h

/-! ## Packing -/

theorem toNat_packComponents (s : Sign) (e : BitVec 11) (m : BitVec 52) :
    (packComponents .binary64 s e m).toNat =
      (s.toBitVec.toNat * 2 ^ 11 + e.toNat) * 2 ^ 52 + m.toNat := by
  change (s.toBitVec ++ e ++ m).toNat = _
  rw [BitVec.toNat_append, BitVec.toNat_append, ← Nat.shiftLeft_add_eq_or_of_lt e.isLt,
    ← Nat.shiftLeft_add_eq_or_of_lt m.isLt, Nat.shiftLeft_eq, Nat.shiftLeft_eq]

theorem signOf_packComponents (s : Sign) (e : BitVec 11) (m : BitVec 52) :
    signOf (packComponents .binary64 s e m) = s := by
  have he := e.isLt
  have hm := m.isLt
  rw [signOf, toNat_packComponents]
  cases s with
  | negative =>
    have hsign : Sign.negative.toBitVec.toNat = 1 := rfl
    exact if_pos (by omega)
  | positive =>
    have hsign : Sign.positive.toBitVec.toNat = 0 := rfl
    exact if_neg (by omega)

theorem side?_unpack_packComponents {s : Sign} {e : BitVec 11} {m : BitVec 52}
    (he : e.toNat ≠ 2047) (hne : e.toNat ≠ 0 ∨ m.toNat ≠ 0) :
    side? (unpack .binary64 (packComponents .binary64 s e m)) = some (side s) := by
  have hbits := toNat_packComponents s e m
  have hm := m.isLt
  have hexponent : exponentOf (packComponents .binary64 s e m) = e.toNat := by
    unfold exponentOf
    omega
  have hfraction : fractionOf (packComponents .binary64 s e m) = m.toNat := by
    unfold fractionOf
    omega
  have hsign := signOf_packComponents s e m
  rw [← hexponent] at he hne
  rw [← hfraction] at hne
  rcases unpack_cases (packComponents .binary64 s e m) with
    ⟨h2047, -, -⟩ | ⟨h2047, -, -⟩ | ⟨h0, hm0, -⟩ | ⟨-, _, h⟩ | ⟨-, -, _, h⟩
  · exact absurd h2047 he
  · exact absurd h2047 he
  · exact absurd hm0 (hne.resolve_left (not_not_intro h0))
  · rw [h, side?_finite, hsign]
  · rw [h, side?_finite, hsign]

theorem side?_unpack_pack {u : UnpackedFloat} (h : Fits u) :
    side? (unpack .binary64 (pack .binary64 u)) = side? u := by
  cases u with
  | infinity s => cases s <;> rfl
  | notANumber => rfl
  | zero s => cases s <;> rfl
  | finite s m e hm =>
    obtain ⟨hlt, hle⟩ := h
    have hbiased : (e + Format.binary64.exponentBias + (52 : Nat)).toNat = (e + 1075).toNat :=
      congrArg Int.toNat (add_assoc e 1023 52)
    rw [side?_finite]
    unfold UnpackedFloat.pack
    simp only [hbiased]
    split
    · -- the exponent is too large and the float infinite
      cases s <;> rfl
    · rename_i hroom
      have hexponent : (e + 1075).toNat + 1 < 2 ^ 11 := Nat.lt_of_not_le hroom
      split
      · refine side?_unpack_packComponents ?_ (.inl ?_)
        · rw [BitVec.toNat_ofNat]
          omega
        · rw [BitVec.toNat_ofNat]
          omega
      · rename_i hsubnormal
        have hlog : m.log2 < 53 := (Nat.log2_lt hm.ne').2 hlt
        have hlog' : m.log2 + 1 ≠ 53 := hsubnormal
        have hfraction : m < 2 ^ 52 := (Nat.log2_lt hm.ne').1 (by omega)
        refine side?_unpack_packComponents (by decide) (.inr ?_)
        rw [BitVec.toNat_ofNat]
        omega

theorem isNaN_ofModel_pack {u : UnpackedFloat} (h : Fits u) :
    (Float.ofModel (.pack u)).isNaN ↔ u = .notANumber := by
  rw [isNaN_iff, ← side?_eq_none_iff, ← side?_eq_none_iff, ← side?_unpack_pack h]
  rfl

/-! ## Rounding -/

theorem mantissa_shiftRight (em : ExtendedMantissa) (n : Nat) :
    (em >>> n).mantissa = em.mantissa / 2 ^ n := by
  change (n.repeat ExtendedMantissa.shiftRightOne em).mantissa = _
  induction n with
  | zero => exact (Nat.div_one _).symm
  | succ n ih =>
    change (n.repeat ExtendedMantissa.shiftRightOne em).mantissa / 2 = _
    rw [ih, Nat.div_div_eq_div_mul, ← Nat.pow_succ]

theorem mantissa_ofMantissaAndAccuracy (m : Nat) (a : Accuracy) :
    (ExtendedMantissa.ofMantissaAndAccuracy m a).mantissa = m := by
  rcases a with _ | (_ | _ | _) <;> rfl

theorem le_roundedMantissa (em : ExtendedMantissa) : em.mantissa ≤ em.roundedMantissa := by
  unfold ExtendedMantissa.roundedMantissa Accuracy.roundToNearestEven
  split <;> omega

/-- By how many places a mantissa is shifted to the right to have room. -/
def places (m : Nat) (e : ℤ) : Nat :=
  (Format.binary64.targetExponent (totalExponent m e) - e).toNat

theorem targetExponent_eq (m : Nat) (e : ℤ) :
    Format.binary64.targetExponent (totalExponent m e) = max (m.log2 + 1 + e - 53) (-1074) :=
  rfl

theorem places_eq (m : Nat) (e : ℤ) :
    (places m e : ℤ) = max 0 (max ((m.log2 : ℤ) - 52) (-1074 - e)) := by
  rw [places, targetExponent_eq]
  omega

theorem shiftToTargetExponent_eq (m : Nat) (e : ℤ) (a : Accuracy) :
    shiftToTargetExponent .binary64 m e a =
      (ExtendedMantissa.ofMantissaAndAccuracy m a >>> places m e, e + places m e) :=
  rfl

theorem div_places_lt (m : Nat) (e : ℤ) : m / 2 ^ places m e < 2 ^ 53 := by
  have hplaces := places_eq m e
  rw [Nat.div_lt_iff_lt_mul (Nat.two_pow_pos _), ← Nat.pow_add]
  calc m < 2 ^ (m.log2 + 1) := Nat.lt_log2_self
    _ ≤ 2 ^ (53 + places m e) := Nat.pow_le_pow_right (by decide) (by omega)

theorem div_places_pos {m : Nat} {e : ℤ} (hm : 0 < m) (he : -1074 ≤ e) :
    0 < m / 2 ^ places m e := by
  have hplaces := places_eq m e
  refine Nat.div_pos ?_ (Nat.two_pow_pos _)
  calc 2 ^ places m e ≤ 2 ^ m.log2 := Nat.pow_le_pow_right (by decide) (by omega)
    _ ≤ m := Nat.log2_self_le hm.ne'

/-- The mantissa is shifted and rounded, which may carry into one more bit, so it is shifted
again. -/
theorem roundWithAccuracy_cases (s : Sign) (m : Nat) (e : ℤ) (a : Accuracy) :
    ∃ n, m / 2 ^ places m e ≤ n ∧
      (n / 2 ^ places n (e + places m e) = 0 ∧ roundWithAccuracy .binary64 s m e a = .zero s ∨
      ∃ hn, roundWithAccuracy .binary64 s m e a =
        .finite s (n / 2 ^ places n (e + places m e))
          (e + places m e + places n (e + places m e)) hn) := by
  have hle := le_roundedMantissa (ExtendedMantissa.ofMantissaAndAccuracy m a >>> places m e)
  rw [mantissa_shiftRight, mantissa_ofMantissaAndAccuracy] at hle
  refine ⟨_, hle, ?_⟩
  unfold roundWithAccuracy
  rw [shiftToTargetExponent_eq]
  dsimp only
  rw [shiftToTargetExponent_eq]
  dsimp only
  generalize (ExtendedMantissa.ofMantissaAndAccuracy m a >>> places m e).roundedMantissa = n
  have hmantissa := mantissa_shiftRight (.ofMantissaAndAccuracy n .exact)
    (places n (e + places m e))
  rw [mantissa_ofMantissaAndAccuracy] at hmantissa
  by_cases hzero : n / 2 ^ places n (e + places m e) = 0
  · exact .inl ⟨hzero, dif_pos (hmantissa.trans hzero)⟩
  · refine .inr ⟨Nat.pos_of_ne_zero hzero, ?_⟩
    rw [dif_neg (hmantissa.symm ▸ hzero)]
    exact finite_congr rfl hmantissa rfl

theorem fits_roundWithAccuracy (s : Sign) (m : Nat) (e : ℤ) (a : Accuracy) :
    Fits (roundWithAccuracy .binary64 s m e a) := by
  obtain ⟨n, -, ⟨-, h⟩ | ⟨_, h⟩⟩ := roundWithAccuracy_cases s m e a
  · rw [h]
    trivial
  · have hplaces := places_eq m e
    rw [h]
    exact ⟨div_places_lt _ _, by omega⟩

theorem roundWithAccuracy_ne_notANumber (s : Sign) (m : Nat) (e : ℤ) (a : Accuracy) :
    roundWithAccuracy .binary64 s m e a ≠ .notANumber := by
  intro hnan
  obtain ⟨n, -, ⟨-, h⟩ | ⟨_, h⟩⟩ := roundWithAccuracy_cases s m e a
  · rw [h] at hnan
    cases hnan
  · rw [h] at hnan
    cases hnan

theorem side?_roundWithAccuracy {s : Sign} {m : Nat} {e : ℤ} {a : Accuracy} (hm : 0 < m)
    (he : -1074 ≤ e) : side? (roundWithAccuracy .binary64 s m e a) = some (side s) := by
  obtain ⟨n, hn, ⟨hzero, -⟩ | ⟨_, h⟩⟩ := roundWithAccuracy_cases s m e a
  · have hpos : 0 < n := (div_places_pos hm he).trans_le hn
    exact absurd hzero (div_places_pos hpos (by omega)).ne'
  · rw [h, side?_finite]

theorem shiftLeft_pos {m : Nat} (hm : 0 < m) (k : Nat) : 0 < m <<< k := by
  rw [Nat.shiftLeft_eq]
  exact Nat.mul_pos hm (Nat.two_pow_pos _)

theorem side?_round {s : Sign} {m : Nat} {e : ℤ} (hm : 0 < m) (he : -1074 ≤ e) :
    side? (UnpackedFloat.round .binary64 s m e) = some (side s) := by
  refine side?_roundWithAccuracy (shiftLeft_pos hm _) ?_
  rw [targetExponent_eq]
  omega

theorem fits_normalize (m e : ℤ) : Fits (UnpackedFloat.normalize .binary64 m e .positive) := by
  unfold UnpackedFloat.normalize
  split
  · exact fits_roundWithAccuracy ..
  · trivial
  · exact fits_roundWithAccuracy ..

theorem side?_normalize {m e : ℤ} (he : -1074 ≤ e) :
    side? (UnpackedFloat.normalize .binary64 m e .positive) = some (compare m 0) := by
  unfold UnpackedFloat.normalize
  split
  · rename_i hneg
    have hm := Int.compare_eq_lt.1 hneg
    rw [side?_round (by omega) he, hneg]
    rfl
  · rename_i hzero
    rw [hzero]
    rfl
  · rename_i hpos
    have hm := Int.compare_eq_gt.1 hpos
    rw [side?_round (by omega) he, hpos]
    rfl

/-! ## Differences -/

theorem fits_sub {a b : UnpackedFloat} (ha : Fits a) (hb : Fits b) :
    Fits (sub .binary64 a b) := by
  unfold UnpackedFloat.sub
  split
  · trivial
  · trivial
  · split <;> trivial
  · trivial
  · trivial
  · split <;> trivial
  · exact hb
  · exact ha
  · exact fits_normalize ..

theorem lt_shiftLeft {m m' : Nat} {e e' : ℤ} (hlt : e < e') (hm : m < 2 ^ 53)
    (hm' : 2 ^ 52 ≤ m') : m < m' <<< (e' - e).toNat := by
  rw [Nat.shiftLeft_eq]
  calc m < 2 ^ 52 * 2 := hm
    _ ≤ m' * 2 ^ (e' - e).toNat := Nat.mul_le_mul hm' (Nat.le_self_pow (by omega) 2)

theorem compare_eq_scaled {s₁ s₂ : Sign} {m₁ m₂ : Nat} {e₁ e₂ : ℤ} {h₁ : 0 < m₁} {h₂ : 0 < m₂}
    (ha : Canonical (.finite s₁ m₁ e₁ h₁)) (hb : Canonical (.finite s₂ m₂ e₂ h₂)) :
    (compare e₁ e₂).then (compare m₁ m₂) =
      compare (m₁ <<< (e₁ - min e₁ e₂).toNat) (m₂ <<< (e₂ - min e₁ e₂).toNat) := by
  obtain ⟨hm₁, hleast₁, hnormal₁⟩ := ha
  obtain ⟨hm₂, hleast₂, hnormal₂⟩ := hb
  rcases lt_trichotomy e₁ e₂ with hlt | rfl | hgt
  · have hshift := lt_shiftLeft hlt hm₁ (hnormal₂.resolve_right (by omega))
    rw [min_eq_left hlt.le, sub_self, Int.toNat_zero, Nat.shiftLeft_zero,
      Int.compare_eq_lt.2 hlt, Nat.compare_eq_lt.2 hshift]
    rfl
  · rw [min_self, sub_self, Int.toNat_zero, Nat.shiftLeft_zero, Nat.shiftLeft_zero,
      Int.compare_eq_eq.2 rfl]
    rfl
  · have hshift := lt_shiftLeft hgt hm₂ (hnormal₁.resolve_right (by omega))
    rw [min_eq_right hgt.le, sub_self, Int.toNat_zero, Nat.shiftLeft_zero,
      Int.compare_eq_gt.2 hgt, Nat.compare_eq_gt.2 hshift]
    rfl

theorem compare_sub_zero (m n : Nat) : compare ((m : ℤ) - n) 0 = compare m n := by
  rcases lt_trichotomy m n with hlt | rfl | hgt
  · rw [Nat.compare_eq_lt.2 hlt, Int.compare_eq_lt.2 (by omega)]
  · rw [Nat.compare_eq_eq.2 rfl, Int.compare_eq_eq.2 (by omega)]
  · rw [Nat.compare_eq_gt.2 hgt, Int.compare_eq_gt.2 (by omega)]

theorem side?_sub_finite {s₁ s₂ : Sign} {m₁ m₂ : Nat} {e₁ e₂ : ℤ} (h₁ : 0 < m₁) (h₂ : 0 < m₂)
    (ha : Canonical (.finite s₁ m₁ e₁ h₁)) (hb : Canonical (.finite s₂ m₂ e₂ h₂)) :
    side? (sub .binary64 (.finite s₁ m₁ e₁ h₁) (.finite s₂ m₂ e₂ h₂)) =
      UnpackedFloat.compare (.finite s₁ m₁ e₁ h₁) (.finite s₂ m₂ e₂ h₂) := by
  have hscaled := compare_eq_scaled ha hb
  have hpos₁ := shiftLeft_pos h₁ (e₁ - min e₁ e₂).toNat
  have hpos₂ := shiftLeft_pos h₂ (e₂ - min e₁ e₂).toNat
  have hsub : sub .binary64 (.finite s₁ m₁ e₁ h₁) (.finite s₂ m₂ e₂ h₂) =
      UnpackedFloat.normalize .binary64 (s₁.apply (m₁ <<< (e₁ - min e₁ e₂).toNat : Nat) -
        s₂.apply (m₂ <<< (e₂ - min e₁ e₂).toNat : Nat)) (min e₁ e₂) .positive := rfl
  rw [hsub, side?_normalize (le_min ha.2.1 hb.2.1)]
  generalize m₁ <<< (e₁ - min e₁ e₂).toNat = k₁ at *
  generalize m₂ <<< (e₂ - min e₁ e₂).toNat = k₂ at *
  rcases s₁ with _ | _ <;> rcases s₂ with _ | _
  · change some (compare (-(k₁ : ℤ) - -(k₂ : ℤ)) 0) = some (Ordering.swap _)
    have hneg : -(k₁ : ℤ) - -(k₂ : ℤ) = k₂ - k₁ := by omega
    rw [hscaled, Nat.compare_swap, hneg, compare_sub_zero]
  · change some (compare (-(k₁ : ℤ) - k₂) 0) = some .lt
    rw [Int.compare_eq_lt.2 (by omega)]
  · change some (compare ((k₁ : ℤ) - -k₂) 0) = some .gt
    rw [Int.compare_eq_gt.2 (by omega)]
  · change some (compare ((k₁ : ℤ) - k₂) 0) = some _
    rw [hscaled, compare_sub_zero]

theorem side?_sub {a b : UnpackedFloat} (ha : Canonical a) (hb : Canonical b)
    (hne : ∀ s, a = .infinity s → b ≠ .infinity s) :
    side? (sub .binary64 a b) = a.compare b := by
  cases a with
  | notANumber => cases b <;> rfl
  | infinity s₁ =>
    cases b with
    | infinity s₂ =>
      cases s₁ <;> cases s₂ <;> first | rfl | exact absurd rfl (hne _ rfl)
    | _ => cases s₁ <;> rfl
  | zero s₁ =>
    cases b with
    | notANumber => rfl
    | zero s₂ => cases s₁ <;> cases s₂ <;> rfl
    | _ s₂ => cases s₂ <;> rfl
  | finite s₁ m₁ e₁ h₁ =>
    cases b with
    | infinity s₂ => cases s₁ <;> cases s₂ <;> rfl
    | finite s₂ m₂ e₂ h₂ => exact side?_sub_finite h₁ h₂ ha hb
    | _ => cases s₁ <;> rfl

theorem sub_lt_zero_iff {x y : Float} : x - y < 0 ↔ x < y := by
  have hx := canonical_toModel x
  have hy := canonical_toModel y
  have hsub : (x - y).toModel.unpack =
      unpack .binary64 (pack .binary64 (sub .binary64 x.toModel.unpack y.toModel.unpack)) := rfl
  have hzero : (0 : Float).toModel.unpack = .zero .positive := rfl
  rw [lt_iff, lt_iff, hsub, hzero]
  change side? _ = _ ↔ _
  rw [side?_unpack_pack (fits_sub hx.fits hy.fits)]
  by_cases hne : ∀ s, x.toModel.unpack = .infinity s → y.toModel.unpack ≠ .infinity s
  · rw [side?_sub hx hy hne]
  · -- the difference of an infinity with itself is not a number
    simp only [not_forall, not_not] at hne
    obtain ⟨s, hs, hs'⟩ := hne
    rw [hs, hs']
    cases s <;> exact ⟨nofun, nofun⟩

theorem not_isNaN_sub {x y : Float} (hx : isFinite x) (hy : ¬ y.isNaN) : ¬ (x - y).isNaN := by
  have hx' := canonical_toModel x
  have hy' := canonical_toModel y
  have hne : x.toModel.unpack ≠ .notANumber ∧ ∀ s, x.toModel.unpack ≠ .infinity s := by
    obtain ⟨s, h⟩ | ⟨s, m, e, hm, h⟩ := unpack_of_isFinite hx <;> rw [h] <;> exact ⟨nofun, nofun⟩
  rw [isNaN_iff] at hy
  refine mt (isNaN_ofModel_pack (fits_sub hx'.fits hy'.fits)).1 ?_
  rw [← side?_eq_none_iff, side?_sub hx' hy' fun s h => absurd h (hne.2 s), compare_eq_none_iff]
  exact not_or.2 ⟨hne.1, hy⟩

theorem isNaN_sub {x y : Float} (hy : y.isNaN) : (x - y).isNaN := by
  rw [isNaN_iff] at hy
  refine (isNaN_ofModel_pack (fits_sub (canonical_toModel x).fits (canonical_toModel y).fits)).2 ?_
  rw [hy]
  cases x.toModel.unpack <;> rfl

/-! ## Quotients and products -/

theorem fits_mul (a b : UnpackedFloat) : Fits (mul .binary64 a b) := by
  unfold UnpackedFloat.mul
  split <;> first | trivial | exact fits_roundWithAccuracy ..

theorem fits_div (a b : UnpackedFloat) : Fits (div .binary64 a b) := by
  unfold UnpackedFloat.div
  split <;> first | trivial | exact fits_roundWithAccuracy ..

theorem unpack_of_pos {x : Float} (h : 0 < x) :
    x.toModel.unpack = .infinity .positive ∨
      ∃ m e hm, x.toModel.unpack = .finite .positive m e hm := by
  refine eq_of_side? ?_
  rw [side?, compare_swap]
  exact congrArg (Option.map Ordering.swap) (lt_iff.1 h)

theorem unpack_of_neg {x : Float} (h : x < 0) :
    x.toModel.unpack = .infinity .negative ∨
      ∃ m e hm, x.toModel.unpack = .finite .negative m e hm :=
  eq_of_side? (lt_iff.1 h)

theorem not_isNaN_div {x y : Float} (hx : isFinite x) (hy : 0 < y) : ¬ (x / y).isNaN := by
  refine mt (isNaN_ofModel_pack (fits_div _ _)).1 ?_
  obtain ⟨s, hx⟩ | ⟨s, m, e, hm, hx⟩ := unpack_of_isFinite hx <;>
    obtain hy | ⟨m', e', hm', hy⟩ := unpack_of_pos hy <;> rw [hx, hy]
  · exact nofun
  · exact nofun
  · exact nofun
  · exact roundWithAccuracy_ne_notANumber _ _ _ _

theorem not_isNaN_mul {x y : Float} (hx : isFinite x) (hpos : 0 < x) (hy : ¬ y.isNaN) :
    ¬ (x * y).isNaN := by
  rw [isNaN_iff] at hy
  refine mt (isNaN_ofModel_pack (fits_mul _ _)).1 ?_
  obtain hx' | ⟨m, e, hm, hx'⟩ := unpack_of_pos hpos
  · rw [isFinite_iff, hx'] at hx
    cases hx
  · rw [hx']
    cases hy' : y.toModel.unpack with
    | notANumber => exact absurd hy' hy
    | infinity => exact nofun
    | zero => exact nofun
    | finite => exact roundWithAccuracy_ne_notANumber _ _ _ _

theorem isNaN_mul {x y : Float} {s s' : Sign} (hx : x.toModel.unpack = .infinity s)
    (hy : y.toModel.unpack = .zero s') : (x * y).isNaN := by
  refine (isNaN_ofModel_pack (fits_mul _ _)).2 ?_
  rw [hx, hy]
  rfl

theorem unpack_pack_zero (s : Sign) : unpack .binary64 (pack .binary64 (.zero s)) = .zero s := by
  cases s <;> rfl

theorem unpack_div_infinity {x y : Float} (hx : isFinite x)
    (hy : y.toModel.unpack = .infinity .positive) : ∃ s, (x / y).toModel.unpack = .zero s := by
  have hdiv : (x / y).toModel.unpack =
      unpack .binary64 (pack .binary64 (div .binary64 x.toModel.unpack y.toModel.unpack)) := rfl
  rw [hdiv, hy]
  obtain ⟨s, hx⟩ | ⟨s, m, e, hm, hx⟩ := unpack_of_isFinite hx
  · rw [hx]
    exact ⟨s / Sign.positive, unpack_pack_zero _⟩
  · rw [hx]
    exact ⟨s / Sign.positive, unpack_pack_zero _⟩

/-! ## Rounding down -/

theorem not_isNaN_ofBits {n : Nat} (h : n / 2 ^ 52 % 2 ^ 11 ≠ 2047) :
    ¬ (Float.ofBits (UInt64.ofNat n)).isNaN := by
  refine mt (isNaN_ofModel_pack (canonical_unpack _).fits).1 ?_
  have hbits : (UInt64.ofNat n).toBitVec.toNat = n % 2 ^ 64 := UInt64.toNat_ofNat'
  generalize (UInt64.ofNat n).toBitVec = b at *
  have he : exponentOf b ≠ 2047 := by
    unfold exponentOf
    omega
  intro hnan
  rcases unpack_cases b with ⟨h2047, -, -⟩ | ⟨h2047, -, -⟩ | ⟨-, -, h⟩ | ⟨-, _, h⟩ | ⟨-, -, _, h⟩
  · exact he h2047
  · exact he h2047
  all_goals
    rw [h] at hnan
    cases hnan

theorem log2_le_of_lt {m k : Nat} (h : m < 2 ^ (k + 1)) : m.log2 ≤ k := by
  rcases Nat.eq_zero_or_pos m with rfl | hm
  · exact (Nat.log2_le_self 0).trans k.zero_le
  · exact Nat.le_of_lt_succ ((Nat.log2_lt hm.ne').2 h)

theorem mul_two_pow_lt {m k n : Nat} (h : m.log2 + k < n) : m * 2 ^ k < 2 ^ n := by
  calc m * 2 ^ k < 2 ^ (m.log2 + 1) * 2 ^ k :=
        Nat.mul_lt_mul_of_pos_right Nat.lt_log2_self (Nat.two_pow_pos _)
    _ = 2 ^ (m.log2 + 1 + k) := (Nat.pow_add ..).symm
    _ ≤ 2 ^ n := Nat.pow_le_pow_right (by decide) (by omega)

theorem not_isNaN_finiteFloat {negative : Bool} {m : Nat} (h : m ≤ 2 ^ 52) :
    ¬ (finiteFloat negative m 0).isNaN := by
  have hlog : m.log2 ≤ 52 := log2_le_of_lt (by omega)
  have hshifted : m * Nat.pow 2 (min (52 - m.log2) 1074) < 2 ^ 53 := mul_two_pow_lt (by omega)
  have hshift : min (52 - m.log2) 1074 ≤ 52 := by omega
  have hleast : (0 - leastExponent).toNat = 1074 := rfl
  have hsign : (if negative then Nat.pow 2 63 else 0) = 2 ^ 11 * 2 ^ 52 ∨
      (if negative then Nat.pow 2 63 else 0) = 0 := by
    cases negative
    · exact .inr rfl
    · exact .inl rfl
  have hpow : Nat.pow 2 52 = 2 ^ 52 := rfl
  unfold finiteFloat
  simp only [hleast]
  refine not_isNaN_ofBits ?_
  generalize min (52 - m.log2) 1074 = shift at *
  generalize m * Nat.pow 2 shift = shifted at *
  generalize (if negative then Nat.pow 2 63 else 0) = sign at *
  rw [hpow]
  split <;> omega

theorem not_isNaN_floor {x : Float} (hx : ¬ x.isNaN) : ¬ (floor x).isNaN := by
  unfold floor
  split
  · rename_i negative m e h
    split
    · exact hx
    · rename_i he
      have hm := lt_of_ofFloat h
      have hunit : 2 ≤ Nat.pow 2 (-e).toNat := Nat.le_self_pow (by omega) 2
      have hwhole : m / Nat.pow 2 (-e).toNat + 1 ≤ 2 ^ 52 := by
        have hhalf := Nat.div_le_div_left (c := 2) (a := m) hunit (by decide)
        omega
      dsimp only
      split
      · exact not_isNaN_finiteFloat hwhole
      · exact not_isNaN_finiteFloat (by omega)
  · exact hx

theorem unpack_floor_of_zero {x : Float} {s : Sign} (h : x.toModel.unpack = .zero s) :
    (floor x).toModel.unpack = .zero s := by
  have hzero : ofFloat x = .finite (s == .negative) 0 leastExponent := by
    rw [ofFloat_eq, h]
    rfl
  have hfraction : ¬ 0 ≤ leastExponent := by decide
  unfold floor
  rw [hzero]
  dsimp only
  rw [if_neg hfraction, Nat.zero_div, Nat.zero_mod]
  cases s <;> rfl

end CurvedMesh.Binary64
