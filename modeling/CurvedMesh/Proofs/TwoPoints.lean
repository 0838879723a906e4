import CurvedMesh.Proofs.FloatArithmetic
import CurvedMesh.Proofs.Midpoints
import CurvedMesh.Proofs.Refusals

/-!
# Positions between two points

The constructor of a set of two points looks at the signs of both weights, and a manifold compares
the position with zero and one. The first weight is rounded, but never onto zero or across it, so
both refuse the same numbers. A position that is not a number makes no weight negative, and only the
manifold refuses it.
-/

namespace CurvedMesh

variable {d : Nat}

namespace Binary64

theorem not_one_lt_of_neg {w : Float} (h : w < 0) : ¬ 1 < w := by
  rw [lt_iff]
  obtain hw | ⟨m, e, hm, hw⟩ := unpack_of_neg h <;> rw [hw] <;> exact nofun

theorem not_mem_unit_iff {w : Float} :
    ¬ (0 ≤ w ∧ w ≤ 1) ∧ ¬ w.isNaN ↔ 1 < w ∨ w < 0 := by
  have hzero : ¬ (0 : Float).isNaN := by decide
  have hone : ¬ (1 : Float).isNaN := by decide
  constructor
  · rintro ⟨hrange, hnumber⟩
    by_cases hlow : 0 ≤ w
    · exact .inl (lt_of_not_le hone hnumber fun hhigh => hrange ⟨hlow, hhigh⟩)
    · exact .inr (lt_of_not_le hnumber hzero hlow)
  · rintro (hhigh | hlow)
    · exact ⟨fun hrange => not_le_of_lt hhigh hrange.2, (not_isNaN_of_lt hhigh).2⟩
    · exact ⟨fun hrange => not_le_of_lt hlow hrange.1, (not_isNaN_of_lt hlow).1⟩

end Binary64

open Binary64

def FlatSpace.line : FlatSpace Float 1 := euclidean

namespace WeightedPoints

theorem flaw_pair_iff {α : Type} [Scalar α] {p p' : Point α d} {v w : α} {fault : Fault α} :
    Flaw [v, w] [p, p'] fault ↔
      v < 0 ∧ fault = .negativeWeight 0 v ∨ ¬ v < 0 ∧ w < 0 ∧ fault = .negativeWeight 1 w := by
  -- The second weight is looked at only if the first is not negative.
  constructor
  · rintro (hlen | hweights | @⟨i, u, -, hu, hneg, hbefore⟩)
    · exact absurd rfl hlen
    · cases hweights
    · match i, hu with
      | 0, rfl => exact .inl ⟨hneg, rfl⟩
      | 1, rfl => exact .inr ⟨hbefore 0 Nat.one_pos v rfl, hneg, rfl⟩
  · rintro (⟨hv, rfl⟩ | ⟨hv, hw, rfl⟩)
    · exact .negative rfl rfl hv nofun
    · refine .negative rfl rfl hw fun j hj u hu => ?_
      cases Nat.lt_one_iff.1 hj
      cases hu
      exact hv

theorem twoPoint_eq_error_iff {p p' : Point Float d} {w : Float} {fault : Fault Float} :
    twoPoint p p' w = .error fault ↔
      1 < w ∧ fault = .negativeWeight 0 (1 - w) ∨ w < 0 ∧ fault = .negativeWeight 1 w := by
  have hflaw : twoPoint p p' w = .error fault ↔ Flaw [1 - w, w] [p, p'] fault :=
    ofLists_eq_error_iff.trans fault?_eq_some_iff
  rw [hflaw, flaw_pair_iff, sub_lt_zero_iff]
  constructor
  · rintro (h | ⟨-, h⟩)
    · exact .inl h
    · exact .inr h
  · rintro (h | h)
    · exact .inl h
    · exact .inr ⟨not_one_lt_of_neg h.1, h⟩

theorem twoPoint_fails_iff {p p' : Point Float d} {w : Float} :
    (∃ fault, twoPoint p p' w = .error fault) ↔ ¬ (0 ≤ w ∧ w ≤ 1) ∧ ¬ w.isNaN := by
  simp only [twoPoint_eq_error_iff, exists_or, exists_and_left, exists_eq, and_true]
  exact not_mem_unit_iff.symm

theorem twoPoint_of_mem {p p' : Point Float d} {w : Float} (hw : 0 ≤ w ∧ w ≤ 1) :
    twoPoint p p' w = .ok ⟨[1 - w, w], [p, p']⟩ := by
  cases h : twoPoint p p' w with
  | error fault => exact absurd hw (twoPoint_fails_iff.1 ⟨fault, h⟩).1
  | ok q => rw [(ofLists_eq_ok_iff.1 h).1]

/-- The constructor refuses the numbers outside the range, and the manifold refuses those and what
is not a number. Within the range both lead to the same point. -/
theorem twoPoint_agrees_with_between (p p' : Point Float d) (w : Float) :
    (∀ fault, twoPoint p p' w = .error fault ↔
      1 < w ∧ fault = .negativeWeight 0 (1 - w) ∨ w < 0 ∧ fault = .negativeWeight 1 w) ∧
    ((∃ fault, twoPoint p p' w = .error fault) ↔ ¬ (0 ≤ w ∧ w ≤ 1) ∧ ¬ w.isNaN) ∧
    ∀ m : Manifold Float d,
      (¬ (0 ≤ w ∧ w ≤ 1) → m.between p p' w = .error (.parameterOutOfRange w)) ∧
      (0 ≤ w ∧ w ≤ 1 → ∃ q, twoPoint p p' w = .ok q ∧ m.place q = m.between p p' w) := by
  refine ⟨fun _ => twoPoint_eq_error_iff, twoPoint_fails_iff, fun m => ⟨fun hw => ?_, fun hw => ?_⟩⟩
  · exact if_neg hw
  · exact ⟨_, twoPoint_of_mem hw, (m.between_eq_place hw p p').symm⟩

theorem twoPoint_agrees_with_between_near_one :
    ((∃ fault, twoPoint #v[(0 : Float)] #v[1] (.ofBits 0x3ff0000000000001) = .error fault) ∧
      FlatSpace.line.manifold.between #v[0] #v[1] (.ofBits 0x3ff0000000000001) =
        .error (.parameterOutOfRange (.ofBits 0x3ff0000000000001))) ∧
    ∃ q, twoPoint #v[(0 : Float)] #v[1] (.ofBits 0x3fefffffffffffff) = .ok q ∧
      FlatSpace.line.manifold.place q =
        FlatSpace.line.manifold.between #v[0] #v[1] (.ofBits 0x3fefffffffffffff) := by
  have habove : ¬ (0 ≤ Float.ofBits 0x3ff0000000000001 ∧ Float.ofBits 0x3ff0000000000001 ≤ 1) := by
    decide +kernel
  have hnumber : ¬ (Float.ofBits 0x3ff0000000000001).isNaN := by decide +kernel
  have hbelow : 0 ≤ Float.ofBits 0x3fefffffffffffff ∧ Float.ofBits 0x3fefffffffffffff ≤ 1 := by
    decide +kernel
  obtain ⟨-, hrefused, hbetween⟩ :=
    twoPoint_agrees_with_between #v[0] #v[1] (.ofBits 0x3ff0000000000001)
  obtain ⟨-, -, hbetween'⟩ :=
    twoPoint_agrees_with_between #v[0] #v[1] (.ofBits 0x3fefffffffffffff)
  exact ⟨⟨hrefused.2 ⟨habove, hnumber⟩, (hbetween _).1 habove⟩, (hbetween' _).2 hbelow⟩

/-- What is not a number is a position for the constructor and none for any manifold. -/
theorem exists_twoPoint_not_mem :
    ¬ ((0 : Float) ≤ 0 / 0 ∧ (0 / 0 : Float) ≤ 1) ∧
      twoPoint #v[(0 : Float)] #v[1] (0 / 0) = .ok ⟨[1 - 0 / 0, 0 / 0], [#v[0], #v[1]]⟩ ∧
      FlatSpace.line.manifold.between #v[(0 : Float)] #v[1] (0 / 0) =
        .error (.parameterOutOfRange (0 / 0)) := by
  have hrange : ¬ ((0 : Float) ≤ 0 / 0 ∧ (0 / 0 : Float) ≤ 1) := by decide +kernel
  have hfirst : ¬ (1 - 0 / 0 : Float) < 0 := by decide +kernel
  have hsecond : ¬ (0 / 0 : Float) < 0 := by decide +kernel
  refine ⟨hrange, ofLists_eq_ok_iff.2 ⟨rfl, rfl, List.cons_ne_nil _ _, ?_⟩, if_neg hrange⟩
  simp only [List.forall_mem_cons]
  exact ⟨hfirst, hsecond, nofun⟩

end WeightedPoints

end CurvedMesh
