/-!
# Scalars

The numbers that coordinates, weights and periods are made of. The geometry is written once, over
`Scalar` and `AnalyticScalar`, and runs on `Float`. The classes hold operations and no laws: a law
is a hypothesis of the theorem that needs it. The comparisons need not form a total order, because
a float that is not a number compares with nothing, not even with itself.
-/

namespace CurvedMesh

/-- Numbers with field operations, decidable comparisons and rounding to whole numbers. -/
class Scalar (α : Type) extends
    Zero α, One α, NatCast α, Add α, Sub α, Mul α, Div α, LT α, LE α where
  decLt : DecidableLT α
  decLe : DecidableLE α
  /-- The greatest whole number that does not exceed the argument. -/
  floor : α → α
  /-- What division truncated toward zero leaves over. It has the sign of the dividend. -/
  rem : α → α → α

/-- Scalars with the functions that polar and spherical coordinates need. -/
class AnalyticScalar (α : Type) extends Scalar α where
  sqrt : α → α
  sin : α → α
  cos : α → α
  /-- The angle of the point with ordinate `y` and abscissa `x`, as `atan2 y x`. -/
  atan2 : α → α → α
  /-- The full turn. -/
  twoPi : α

namespace Scalar

variable {α : Type} [Scalar α]

instance : DecidableLT α := Scalar.decLt

instance : DecidableLE α := Scalar.decLe

def half : α := 1 / ((2 : Nat) : α)

/-- The smaller argument. If only one of them compares with itself, it is that one. -/
def lesser (a b : α) : α :=
  if a ≤ b then a else if b ≤ b then b else a

/-- The larger argument. If only one of them compares with itself, it is that one. -/
def greater (a b : α) : α :=
  if b ≤ a then a else if b ≤ b then b else a

def abs (a : α) : α :=
  if a < 0 then 0 - a else a

/-- The first entry below zero, with its index. -/
def firstNegative? (l : List α) : Option (α × Nat) :=
  l.zipIdx.find? fun entry => entry.1 < 0

theorem firstNegative?_eq_none_iff {l : List α} :
    firstNegative? l = none ↔ ∀ a ∈ l, ¬ a < 0 := by
  simp only [firstNegative?, List.find?_eq_none, decide_eq_true_eq]
  constructor
  · intro h a ha
    obtain ⟨i, hi, rfl⟩ := List.getElem_of_mem ha
    exact h (l[i], i) (List.mem_zipIdx_iff_getElem?.2 (by simp [hi]))
  · rintro h ⟨a, i⟩ hentry
    exact h a (List.mem_of_getElem? (List.mem_zipIdx_iff_getElem?.1 hentry))

theorem firstNegative?_eq_some_iff {l : List α} {a : α} {i : Nat} :
    firstNegative? l = some (a, i) ↔
      l[i]? = some a ∧ a < 0 ∧ ∀ j < i, ∀ b, l[j]? = some b → ¬ b < 0 := by
  simp only [firstNegative?, List.find?_eq_some_iff_getElem, List.length_zipIdx,
    List.getElem_zipIdx, Nat.zero_add, Prod.mk.injEq, decide_eq_true_eq, Bool.not_eq_true',
    decide_eq_false_iff_not, List.getElem?_eq_some_iff]
  constructor
  · rintro ⟨hneg, i, hi, ⟨ha, rfl⟩, hbefore⟩
    refine ⟨⟨hi, ha⟩, hneg, ?_⟩
    rintro j hj b ⟨-, rfl⟩
    exact hbefore j hj
  · rintro ⟨⟨hi, ha⟩, hneg, hbefore⟩
    exact ⟨hneg, i, hi, ⟨ha, rfl⟩, fun j hj => hbefore j hj _ ⟨Nat.lt_trans hj hi, rfl⟩⟩

end Scalar

end CurvedMesh
