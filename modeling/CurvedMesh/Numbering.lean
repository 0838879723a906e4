import Std.Data.HashMap

/-!
# Numbering by first occurrence

A `Numbering` gives the keys it has seen the numbers 0, 1, 2 and so on, in the order in which they
first came up. Its look-up table agrees with its list of keys, whatever is inserted.
-/

namespace CurvedMesh

variable {κ : Type} [BEq κ] [Hashable κ]

/-- Distinct keys, and a table of their positions. -/
structure Numbering (κ : Type) [BEq κ] [Hashable κ] where
  order : Array κ
  positions : Std.HashMap κ Nat
  /-- The table holds the position of each key in the list, and nothing else. -/
  getElem?_positions (key : κ) : positions[key]? = order.findIdx? (· == key)

namespace Numbering

variable [EquivBEq κ] [LawfulHashable κ]

def empty : Numbering κ where
  order := #[]
  positions := ∅
  getElem?_positions := by simp

/-- Gives a new key the next number and leaves a known one as it is. -/
def insert (n : Numbering κ) (key : κ) : Numbering κ :=
  if h : n.positions.contains key then n
  else
    { order := n.order.push key
      positions := n.positions.insert key n.order.size
      getElem?_positions := by
        intro other
        have absent : n.order.findIdx? (· == key) = none := by
          rw [← n.getElem?_positions, ← Option.not_isSome_iff_eq_none,
            ← Std.HashMap.contains_eq_isSome_getElem?]
          exact h
        rw [Std.HashMap.getElem?_insert, Array.findIdx?_push, n.getElem?_positions]
        split
        · rename_i same
          have agree : (fun entry => entry == other) = fun entry => entry == key :=
            funext fun _ => (BEq.congr_right same).symm
          rw [agree, absent]
          rfl
        · simp }

/-- Numbers the keys of a list. -/
def ofList (keys : List κ) : Numbering κ := keys.foldl insert empty

/-- The number of a key. Unknown keys get the number that a new key would. -/
def number (n : Numbering κ) (key : κ) : Nat := n.positions.getD key n.order.size

theorem number_eq_findIdx? (n : Numbering κ) (key : κ) :
    n.number key = (n.order.findIdx? (· == key)).getD n.order.size := by
  rw [number, Std.HashMap.getD_eq_getD_getElem?, n.getElem?_positions]

theorem contains_positions (n : Numbering κ) (key : κ) :
    n.positions.contains key = n.order.any (· == key) := by
  rw [Std.HashMap.contains_eq_isSome_getElem?, n.getElem?_positions, Array.findIdx?_isSome]

theorem order_insert (n : Numbering κ) (key : κ) :
    (n.insert key).order =
      if n.order.any (· == key) then n.order else n.order.push key := by
  rw [← contains_positions, insert]
  split <;> rfl

end Numbering

end CurvedMesh
