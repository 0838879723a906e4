import CurvedMesh.Fault
import CurvedMesh.Point

/-!
# Weighted points

A `WeightedPoints` is a list of points with a list of weights. Any two lists make one: `ofLists`
admits only those that an average can be formed from, and `check` is what an average asks of the
others.
-/

namespace CurvedMesh

/-- Points with weights. The two lists need not fit together. -/
structure WeightedPoints (α : Type) (d : Nat) where
  weights : List α
  points : List (Point α d)

namespace WeightedPoints

variable {α : Type} {d : Nat} [Scalar α]

/-- As many weights as points, at least one of them, and no weight below zero. A weight that is not
a number is not below zero. -/
def WellFormed (q : WeightedPoints α d) : Prop :=
  q.weights.length = q.points.length ∧ q.weights ≠ [] ∧ ∀ w ∈ q.weights, ¬ w < 0

/-- The set of the given lists, if it is well formed. The lengths are compared first. -/
def ofLists (weights : List α) (points : List (Point α d)) :
    Except (Fault α) (WeightedPoints α d) :=
  if weights.length = points.length then
    if weights.isEmpty then .error .noPoints
    else
      match Scalar.firstNegative? weights with
      | some (weight, index) => .error (.negativeWeight index weight)
      | none => .ok ⟨weights, points⟩
  else .error (.lengthMismatch weights.length points.length)

/-- Each point has the weight one over their number. -/
def uniform (points : List (Point α d)) : Except (Fault α) (WeightedPoints α d) :=
  ofLists (List.replicate points.length (1 / (points.length : α))) points

/-- The point at position `w` on the way from `p` to `q`. -/
def twoPoint (p q : Point α d) (w : α) : Except (Fault α) (WeightedPoints α d) :=
  ofLists [1 - w, w] [p, q]

/-- What keeps an average from being formed. -/
def fault? (q : WeightedPoints α d) : Option (Fault α) :=
  if q.weights.length ≠ q.points.length then
    some (.lengthMismatch q.weights.length q.points.length)
  else if q.points.length = 0 then some .noPoints
  else
    (Scalar.firstNegative? q.weights).map fun entry => .negativeWeight entry.2 entry.1

/-- Refuses lists that no average can be formed from. -/
def check (q : WeightedPoints α d) : Except (Fault α) Unit :=
  match q.fault? with
  | some fault => .error fault
  | none => .ok ()

theorem ofLists_eq_ok_iff {weights : List α} {points : List (Point α d)} {q : WeightedPoints α d} :
    ofLists weights points = .ok q ↔ q = ⟨weights, points⟩ ∧ q.WellFormed := by
  constructor
  · intro h
    unfold ofLists at h
    split at h
    · rename_i hlen
      split at h
      · cases h
      · rename_i hne
        split at h
        · cases h
        · rename_i hneg
          cases h
          exact ⟨rfl, hlen, by simpa using hne, Scalar.firstNegative?_eq_none_iff.1 hneg⟩
    · cases h
  · rintro ⟨rfl, hlen, hne, hneg⟩
    simp only at hlen hne hneg
    rw [ofLists, if_pos hlen, if_neg (by simpa using hne),
      Scalar.firstNegative?_eq_none_iff.2 hneg]

theorem fault?_eq_none_iff {q : WeightedPoints α d} : q.fault? = none ↔ q.WellFormed := by
  unfold fault? WellFormed
  split
  · rename_i hlen
    simp [hlen]
  · rename_i hlen
    rw [Decidable.not_not] at hlen
    split
    · rename_i hzero
      have : q.weights = [] := List.eq_nil_of_length_eq_zero (hlen.trans hzero)
      simp [this]
    · rename_i hzero
      have : q.weights ≠ [] := fun h => hzero (by rw [← hlen, h, List.length_nil])
      simp [hlen, this, Scalar.firstNegative?_eq_none_iff]

theorem check_eq_ok_iff {q : WeightedPoints α d} : q.check = .ok () ↔ q.WellFormed := by
  rw [← fault?_eq_none_iff, check]
  split <;> simp_all

/-- The number of weights. -/
def length (q : WeightedPoints α d) : Nat := q.weights.length

/-- Each weight with its point, as far as both lists go. -/
def pairs (q : WeightedPoints α d) : List (α × Point α d) := q.weights.zip q.points

def totalWeight (q : WeightedPoints α d) : α := q.weights.foldl (· + ·) 0

/-- No weight is negative, and they sum to one up to `tolerance`. -/
def IsPartitionOfUnity (q : WeightedPoints α d) (tolerance : α) : Prop :=
  (∀ w ∈ q.weights, 0 ≤ w) ∧ Scalar.abs (q.totalWeight - 1) ≤ tolerance

instance (q : WeightedPoints α d) (tolerance : α) : Decidable (q.IsPartitionOfUnity tolerance) :=
  inferInstanceAs (Decidable (_ ∧ _))

end WeightedPoints

end CurvedMesh
