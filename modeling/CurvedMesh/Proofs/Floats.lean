import Mathlib.Algebra.Order.Ring.Nat
import Mathlib.Order.Defs.LinearOrder
import CurvedMesh.Binary64

/-!
# Floats and their unpacked form

Floats are computed with and compared in unpacked form. What `Binary64.ofFloat` reads from the bits
of a float is that form, in which the leading bit of the mantissa stands as far to the left as there
is room. Comparing is a total order among the numbers, and what is not a number compares with
nothing.
-/

namespace CurvedMesh

open Float.Model (Format UnpackedFloat)
open Float.Model.UnpackedFloat

namespace Binary64

/-! ## Bits -/

def signOf (b : BitVec 64) : Sign :=
  if 2 ^ 63 ≤ b.toNat then .negative else .positive

def exponentOf (b : BitVec 64) : Nat :=
  b.toNat / 2 ^ 52 % 2 ^ 11

def fractionOf (b : BitVec 64) : Nat :=
  b.toNat % 2 ^ 52

theorem ofBitVec_unpackSign (b : BitVec 64) :
    Sign.ofBitVec (@unpackSign .binary64 b) = signOf b := by
  have hb := b.isLt
  have hbit : (@unpackSign .binary64 b).toNat = b.toNat / 2 ^ 63 := by
    change b.toNat >>> 63 % 2 ^ 1 = _
    rw [Nat.shiftRight_eq_div_pow]
    omega
  have hzero : @unpackSign .binary64 b = 0#1 ↔ ¬ 2 ^ 63 ≤ b.toNat := by
    rw [← BitVec.toNat_inj, hbit, BitVec.toNat_zero, Nat.div_eq_zero_iff]
    omega
  unfold Sign.ofBitVec signOf
  rw [ite_eq_iff', hzero]
  constructor <;> intro h
  · rw [if_neg h]
  · rw [if_pos (not_not.1 h)]

theorem toNat_unpackExponent (b : BitVec 64) :
    (@unpackExponent .binary64 b).toNat = exponentOf b := by
  change b.toNat >>> 52 % 2 ^ 11 = _
  rw [Nat.shiftRight_eq_div_pow, exponentOf]

theorem toNat_unpackMantissa (b : BitVec 64) :
    (@unpackMantissa .binary64 b).toNat = fractionOf b :=
  rfl

theorem toNat_one_append (v : BitVec 52) : (1#1 ++ v).toNat = 2 ^ 52 + v.toNat := by
  rw [BitVec.toNat_append, ← Nat.shiftLeft_add_eq_or_of_lt v.isLt]
  rfl

theorem finite_congr {s s' : Sign} {m m' : Nat} {e e' : ℤ} {hm : 0 < m} {hm' : 0 < m'}
    (hs : s = s') (h : m = m') (he : e = e') :
    UnpackedFloat.finite s m e hm = .finite s' m' e' hm' := by
  cases hs
  cases h
  cases he
  rfl

theorem unpack_cases (b : BitVec 64) :
    (exponentOf b = 2047 ∧ fractionOf b = 0 ∧ unpack .binary64 b = .infinity (signOf b)) ∨
    (exponentOf b = 2047 ∧ fractionOf b ≠ 0 ∧ unpack .binary64 b = .notANumber) ∨
    (exponentOf b = 0 ∧ fractionOf b = 0 ∧ unpack .binary64 b = .zero (signOf b)) ∨
    (exponentOf b = 0 ∧ ∃ hm, unpack .binary64 b = .finite (signOf b) (fractionOf b) (-1074) hm) ∨
    (exponentOf b ≠ 0 ∧ exponentOf b ≠ 2047 ∧ ∃ hm, unpack .binary64 b =
      .finite (signOf b) (2 ^ 52 + fractionOf b) (exponentOf b - 1075) hm) := by
  have hspecial : @unpackExponent .binary64 b = -1#_ ↔ exponentOf b = 2047 := by
    rw [← BitVec.toNat_inj, toNat_unpackExponent]
    rfl
  have hleast : @unpackExponent .binary64 b = 0#_ ↔ exponentOf b = 0 := by
    rw [← BitVec.toNat_inj, toNat_unpackExponent]
    rfl
  have hfraction : @unpackMantissa .binary64 b = 0#_ ↔ fractionOf b = 0 := by
    rw [← BitVec.toNat_inj, toNat_unpackMantissa]
    rfl
  have hsign := ofBitVec_unpackSign b
  have hexponent := toNat_unpackExponent b
  unfold UnpackedFloat.unpack
  dsimp only
  by_cases he : @unpackExponent .binary64 b = -1#_
  · rw [if_pos he]
    by_cases hm : @unpackMantissa .binary64 b = 0#_
    · rw [if_pos hm, hsign]
      exact .inl ⟨hspecial.1 he, hfraction.1 hm, rfl⟩
    · rw [if_neg hm]
      exact .inr (.inl ⟨hspecial.1 he, mt hfraction.2 hm, rfl⟩)
  · rw [if_neg he]
    by_cases hz : @unpackExponent .binary64 b = 0#_
    · rw [if_pos hz]
      by_cases hm : @unpackMantissa .binary64 b = 0#_
      · rw [dif_pos hm, hsign]
        exact .inr (.inr (.inl ⟨hleast.1 hz, hfraction.1 hm, rfl⟩))
      · rw [dif_neg hm, hz, hsign]
        exact .inr (.inr (.inr (.inl ⟨hleast.1 hz, Nat.pos_of_ne_zero (mt hfraction.2 hm), rfl⟩)))
    · rw [if_neg hz]
      refine .inr (.inr (.inr (.inr ⟨mt hleast.2 hz, mt hspecial.2 he, by omega, ?_⟩)))
      exact finite_congr hsign (toNat_one_append _)
        (congrArg (fun n : Nat => (n : ℤ) - 1075) hexponent)

def ofUnpacked : UnpackedFloat → Binary64
  | .notANumber => .nan
  | .infinity s => .infinite (s == .negative)
  | .zero s => .finite (s == .negative) 0 leastExponent
  | .finite s m e _ => .finite (s == .negative) m e

theorem ofFloat_eq (x : Float) : ofFloat x = ofUnpacked x.toModel.unpack := by
  have hbits : x.toBits.toNat = x.toModel.toBits.toBitVec.toNat := rfl
  have hunpack : x.toModel.unpack = unpack .binary64 x.toModel.toBits.toBitVec := rfl
  unfold ofFloat
  rw [hbits, hunpack]
  generalize x.toModel.toBits.toBitVec = b
  have hsign : decide (Nat.pow 2 63 ≤ b.toNat) = (signOf b == .negative) := by
    unfold signOf
    split
    · rename_i h
      exact decide_eq_true h
    · rename_i h
      exact decide_eq_false h
  dsimp only
  rw [hsign]
  change (if exponentOf b = 2047 then
      if fractionOf b = 0 then Binary64.infinite (signOf b == .negative) else .nan
    else if exponentOf b = 0 then .finite (signOf b == .negative) (fractionOf b) leastExponent
    else .finite (signOf b == .negative) (2 ^ 52 + fractionOf b) (exponentOf b - 1075)) = _
  rcases unpack_cases b with ⟨he, hm, h⟩ | ⟨he, hm, h⟩ | ⟨he, hm, h⟩ | ⟨he, hm, h⟩ | ⟨h0, he, hm, h⟩
  · rw [if_pos he, if_pos hm, h]
    rfl
  · rw [if_pos he, if_neg hm, h]
    rfl
  · rw [he, if_neg (by decide), if_pos rfl, hm, h]
    rfl
  · rw [he, if_neg (by decide), if_pos rfl, h]
    rfl
  · rw [if_neg he, if_neg h0, h]
    rfl

theorem isFinite_iff {x : Float} : isFinite x ↔ x.toModel.unpack.isFinite := by
  unfold isFinite
  rw [ofFloat_eq]
  cases x.toModel.unpack <;> exact Iff.rfl

theorem isNaN_iff {x : Float} : x.isNaN ↔ x.toModel.unpack = .notANumber := by
  change x.toModel.unpack.isNaN ↔ _
  cases x.toModel.unpack with
  | notANumber => exact iff_of_true rfl rfl
  | _ => exact iff_of_false Bool.false_ne_true nofun

theorem unpack_of_isFinite {x : Float} (h : isFinite x) :
    (∃ s, x.toModel.unpack = .zero s) ∨ ∃ s m e hm, x.toModel.unpack = .finite s m e hm := by
  rw [isFinite_iff] at h
  cases hx : x.toModel.unpack with
  | zero s => exact .inl ⟨s, rfl⟩
  | finite s m e hm => exact .inr ⟨s, m, e, hm, rfl⟩
  | _ =>
    rw [hx] at h
    cases h

theorem not_isNaN_of_isFinite {x : Float} (h : isFinite x) : ¬ x.isNaN := by
  rw [isNaN_iff]
  obtain ⟨s, hx⟩ | ⟨s, m, e, hm, hx⟩ := unpack_of_isFinite h <;> rw [hx] <;> exact nofun

/-- The mantissa is smaller only where the exponent cannot be. -/
def Canonical : UnpackedFloat → Prop
  | .finite _ m e _ => m < 2 ^ 53 ∧ -1074 ≤ e ∧ (2 ^ 52 ≤ m ∨ e = -1074)
  | _ => True

theorem canonical_unpack (b : BitVec 64) : Canonical (unpack .binary64 b) := by
  have hfraction : fractionOf b < 2 ^ 52 := Nat.mod_lt _ (Nat.two_pow_pos 52)
  rcases unpack_cases b with ⟨-, -, h⟩ | ⟨-, -, h⟩ | ⟨-, -, h⟩ | ⟨-, hm, h⟩ | ⟨h0, -, hm, h⟩ <;>
    rw [h]
  · trivial
  · trivial
  · trivial
  · exact ⟨by omega, le_refl _, .inr rfl⟩
  · exact ⟨by omega, by omega, .inl (by omega)⟩

theorem canonical_toModel (x : Float) : Canonical x.toModel.unpack :=
  canonical_unpack _

theorem lt_of_ofFloat {x : Float} {negative : Bool} {m : Nat} {e : ℤ}
    (h : ofFloat x = .finite negative m e) : m < 2 ^ 53 := by
  have hx := canonical_toModel x
  rw [ofFloat_eq] at h
  cases hu : x.toModel.unpack with
  | zero =>
    rw [hu] at h
    cases h
    exact Nat.two_pow_pos 53
  | finite =>
    rw [hu] at h hx
    cases h
    exact hx.1
  | _ =>
    rw [hu] at h
    cases h

/-! ## Comparisons -/

theorem lt_iff {x y : Float} :
    x < y ↔ x.toModel.unpack.compare y.toModel.unpack = some .lt := by
  have hlt : x < y ↔ x.toModel.unpack.lt y.toModel.unpack = true := decide_eq_true_iff
  rw [hlt, UnpackedFloat.lt, beq_iff_eq]

theorem le_iff {x y : Float} : x ≤ y ↔
    ∃ order, x.toModel.unpack.compare y.toModel.unpack = some order ∧ order ≠ .gt := by
  have hle : x ≤ y ↔ x.toModel.unpack.le y.toModel.unpack = true := decide_eq_true_iff
  rw [hle, UnpackedFloat.le, Option.any_eq_true]
  simp only [Ordering.isLE_iff_ne_gt]

theorem compare_eq_none_iff {a b : UnpackedFloat} :
    a.compare b = none ↔ a = .notANumber ∨ b = .notANumber := by
  constructor
  · rcases a with (_ | _) | _ | _ | ⟨_ | _, _, _, _⟩ <;>
      rcases b with (_ | _) | _ | _ | ⟨_ | _, _, _, _⟩ <;>
      first | exact fun _ => .inl rfl | exact fun _ => .inr rfl | exact nofun
  · rintro (rfl | rfl)
    · rfl
    · cases a <;> rfl

theorem compare_then_swap (e e' : ℤ) (m m' : Nat) :
    (compare e' e).then (compare m' m) = ((compare e e').then (compare m m')).swap := by
  rw [Ordering.swap_then, Int.compare_swap, Nat.compare_swap]

theorem compare_swap (a b : UnpackedFloat) : b.compare a = (a.compare b).map Ordering.swap := by
  -- only floats of one sign are compared by their mantissas
  rcases a with (_ | _) | _ | _ | ⟨_ | _, _, _, _⟩ <;>
    rcases b with (_ | _) | _ | _ | ⟨_ | _, _, _, _⟩ <;> try rfl
  · exact congrArg (some ·.swap) (compare_then_swap ..)
  · exact congrArg some (compare_then_swap ..)

theorem not_isNaN_of_lt {x y : Float} (h : x < y) : ¬ x.isNaN ∧ ¬ y.isNaN := by
  rw [isNaN_iff, isNaN_iff, ← not_or, ← compare_eq_none_iff, lt_iff.1 h]
  exact nofun

theorem not_isNaN_of_le {x y : Float} (h : x ≤ y) : ¬ x.isNaN ∧ ¬ y.isNaN := by
  obtain ⟨order, horder, -⟩ := le_iff.1 h
  rw [isNaN_iff, isNaN_iff, ← not_or, ← compare_eq_none_iff, horder]
  exact nofun

theorem not_le_of_lt {x y : Float} (h : x < y) : ¬ y ≤ x := by
  rw [le_iff, compare_swap, lt_iff.1 h]
  rintro ⟨_, hgt, hne⟩
  cases hgt
  exact hne rfl

theorem lt_of_not_le {x y : Float} (hx : ¬ x.isNaN) (hy : ¬ y.isNaN) (h : ¬ y ≤ x) : x < y := by
  rw [isNaN_iff] at hx hy
  rw [le_iff] at h
  rw [lt_iff, compare_swap]
  cases horder : y.toModel.unpack.compare x.toModel.unpack with
  | none => exact absurd (compare_eq_none_iff.1 horder) (not_or.2 ⟨hy, hx⟩)
  | some order =>
    have hgt : order = .gt := by
      by_contra hne
      exact h ⟨order, horder, hne⟩
    rw [hgt]
    rfl

theorem le_of_not_lt {x y : Float} (hx : ¬ x.isNaN) (hy : ¬ y.isNaN) (h : ¬ y < x) : x ≤ y := by
  by_contra hle
  exact h (lt_of_not_le hy hx hle)

end Binary64

end CurvedMesh
