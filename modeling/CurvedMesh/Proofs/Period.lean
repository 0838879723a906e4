import CurvedMesh.Proofs.Exact
import CurvedMesh.Period
import Mathlib.Algebra.Order.ToIntervalMod

/-!
# Periodic coordinates without rounding

In exact arithmetic `Period.wrap` picks the one representative of a coordinate in its period. What
it does about values that rounding takes out of the period is then never needed.
-/

namespace CurvedMesh

open AddCommGroup

variable {K : Type} [Field K] [LinearOrder K] [FloorRing K]

theorem Scalar.lesser_eq_min (a b : K) : Scalar.lesser a b = min a b := by
  unfold Scalar.lesser
  split
  · rename_i h
    exact (min_eq_left h).symm
  · rename_i h
    rw [if_pos le_rfl, min_eq_right (le_of_not_ge h)]

namespace Period

/-! ## The guard -/

section

variable {α : Type} [Scalar α]

/-- The coordinate less the whole periods in it, as `wrap` computes it. -/
def remainder (period x : α) : α :=
  x - period * Scalar.floor (x / period)

/-- Where `wrap` gives zero in the place of the remainder. -/
def Corrects (period x : α) : Prop :=
  period ≤ remainder period x ∨ remainder period x < 0

theorem wrap_of_corrects {period x : α} (h : Corrects period x) : wrap period x = 0 :=
  if_pos h

theorem wrap_of_not_corrects {period x : α} (h : ¬ Corrects period x) :
    wrap period x = remainder period x :=
  if_neg h

end

variable [IsStrictOrderedRing K] {P : K}

theorem remainder_eq_toIcoMod (hP : 0 < P) (x : K) : remainder P x = toIcoMod hP 0 x := by
  change x - P * (⌊x / P⌋ : K) = toIcoMod hP 0 x
  rw [toIcoMod, toIcoDiv_eq_floor, sub_zero, zsmul_eq_mul, mul_comm]

theorem not_corrects (hP : 0 < P) (x : K) : ¬ Corrects P x := by
  have hmem := toIcoMod_mem_Ico' hP x
  rw [← remainder_eq_toIcoMod hP] at hmem
  exact not_or.2 ⟨not_le.2 hmem.2, not_lt.2 hmem.1⟩

/-! ## Wrapping -/

theorem wrap_eq_toIcoMod (hP : 0 < P) (x : K) : wrap P x = toIcoMod hP 0 x := by
  rw [wrap_of_not_corrects (not_corrects hP x), remainder_eq_toIcoMod hP]

theorem wrap_mem_Ico (hP : 0 < P) (x : K) : wrap P x ∈ Set.Ico 0 P := by
  rw [wrap_eq_toIcoMod hP]
  exact toIcoMod_mem_Ico' hP x

theorem wrap_eq_wrap_iff (hP : 0 < P) {x y : K} : wrap P x = wrap P y ↔ x ≡ y [PMOD P] := by
  rw [wrap_eq_toIcoMod hP, wrap_eq_toIcoMod hP, toIcoMod_inj]

theorem wrap_eq_self (hP : 0 < P) {x : K} (hx : x ∈ Set.Ico 0 P) : wrap P x = x := by
  rw [wrap_eq_toIcoMod hP, toIcoMod_eq_self, zero_add]
  exact hx

theorem exists_wrap_eq (hP : 0 < P) (x : K) : ∃ k : ℤ, wrap P x = x - k * P := by
  refine ⟨toIcoDiv hP 0 x, ?_⟩
  rw [wrap_eq_toIcoMod hP, toIcoMod, zsmul_eq_mul]

theorem wrap_sub_mul (hP : 0 < P) (x : K) (k : ℤ) : wrap P (x - k * P) = wrap P x := by
  rw [wrap_eq_toIcoMod hP, wrap_eq_toIcoMod hP, ← zsmul_eq_mul, toIcoMod_sub_zsmul]

theorem wrap_unwrap (hP : 0 < P) (low x : K) : wrap P (unwrap P low x) = wrap P x := by
  unfold unwrap
  split
  · have hturn := wrap_sub_mul hP x 1
    rwa [Int.cast_one, one_mul] at hturn
  · rfl

theorem wrap_modEq (hP : 0 < P) (x : K) : wrap P x ≡ x [PMOD P] := by
  rw [← wrap_eq_wrap_iff hP, wrap_eq_self hP (wrap_mem_Ico hP x)]

theorem eq_wrap_iff (hP : 0 < P) {x y : K} : x = wrap P y ↔ x ∈ Set.Ico 0 P ∧ x ≡ y [PMOD P] := by
  constructor
  · rintro rfl
    exact ⟨wrap_mem_Ico hP y, wrap_modEq hP y⟩
  · rintro ⟨hx, hmod⟩
    rw [← wrap_eq_self hP hx, wrap_eq_wrap_iff hP]
    exact hmod

theorem wrap_wrap_add (hP : 0 < P) (x y : K) : wrap P (wrap P x + y) = wrap P (x + y) := by
  rw [wrap_eq_wrap_iff hP]
  exact (wrap_modEq hP x).add_right y

theorem wrap_add_mul_eq_iff (hP : 0 < P) {x a b : K} :
    wrap P (x + a * P) = wrap P (x + b * P) ↔ ∃ n : ℤ, a = b + n := by
  rw [wrap_eq_wrap_iff hP, modEq_comm, modEq_iff_zsmul']
  refine exists_congr fun n => ?_
  have hfactor : x + a * P - (x + b * P) = (a - b) * P := by ring
  rw [hfactor, zsmul_eq_mul, mul_left_inj' hP.ne', sub_eq_iff_eq_add']

theorem wrap_eq_wrap_sub_mul_iff (hP : 0 < P) {x a : K} :
    wrap P x = wrap P (x - a * P) ↔ ∃ n : ℤ, a = n := by
  have hshift := wrap_add_mul_eq_iff hP (x := x - a * P) (a := a) (b := 0)
  rw [sub_add_cancel, zero_mul, add_zero] at hshift
  simpa only [zero_add] using hshift

theorem mul_add_le_mul (hP : 0 < P) {j k : ℤ} (h : j < k) : (j : K) * P + P ≤ k * P := by
  have hcast : (j : K) + 1 ≤ k := by exact_mod_cast h
  calc (j : K) * P + P = (j + 1) * P := by ring
    _ ≤ k * P := mul_le_mul_of_nonneg_right hcast hP.le

/-! ## The canonical residue -/

theorem wrap_wrap (hP : 0 < P) (x : K) : wrap P (wrap P x) = wrap P x :=
  wrap_eq_self hP (wrap_mem_Ico hP x)

theorem wrap_add_mul (hP : 0 < P) (x : K) (k : ℤ) : wrap P (x + k * P) = wrap P x := by
  have hback := wrap_sub_mul hP x (-k)
  rwa [Int.cast_neg, neg_mul, sub_neg_eq_add] at hback

theorem eq_wrap_iff_exists (hP : 0 < P) {r x : K} :
    r = wrap P x ↔ r ∈ Set.Ico 0 P ∧ ∃ k : ℤ, x - r = k * P := by
  simp only [eq_wrap_iff hP, modEq_iff_zsmul', zsmul_eq_mul]

/-- The wrapped coordinate is the one residue in the period, and the guard never interferes. So
turns can be taken off at any time, before an addition as well as after it. -/
theorem wrap_canonical_residue (hP : 0 < P) (v : K) :
    (∀ r, r = wrap P v ↔ r ∈ Set.Ico 0 P ∧ ∃ k : ℤ, v - r = k * P) ∧
      ¬ Corrects P v ∧ wrap P v = remainder P v ∧
      wrap P (wrap P v) = wrap P v ∧
      (∀ k : ℤ, wrap P (v + k * P) = wrap P v) ∧
      ∀ u, wrap P (wrap P u + v) = wrap P (u + v) := by
  have hguard := not_corrects hP v
  refine ⟨fun r => eq_wrap_iff_exists hP, hguard, wrap_of_not_corrects hguard, wrap_wrap hP v,
    ?_, ?_⟩
  · intro k
    exact wrap_add_mul hP v k
  · intro u
    exact wrap_wrap_add hP u v

theorem wrap_canonical_residue_below_zero :
    (0 : ℚ) < 3 ∧ wrap (3 : ℚ) (-6) = 0 ∧ ¬ Corrects (3 : ℚ) (-6) ∧
      wrap (3 : ℚ) (-6 + (5 : ℤ) * 3) = 0 ∧ wrap (3 : ℚ) (wrap 3 (-7 / 2) + -6) = 5 / 2 := by
  have hP : (0 : ℚ) < 3 := by norm_num
  obtain ⟨hresidue, hguard, -, -, hturns, hsum⟩ := wrap_canonical_residue hP (-6)
  have hzero : wrap (3 : ℚ) (-6) = 0 :=
    ((hresidue 0).2 ⟨⟨le_rfl, hP⟩, -2, by norm_num⟩).symm
  have hbetween : wrap (3 : ℚ) (-7 / 2 + -6) = 5 / 2 := by decide +kernel
  exact ⟨hP, hzero, hguard, (hturns 5).trans hzero, (hsum (-7 / 2)).trans hbetween⟩

end Period

end CurvedMesh
