import CurvedMesh.Binary64
import CurvedMesh.Fault
import CurvedMesh.Point

/-!
# Documents

The data that manifolds, point sets and meshes are stored as: a tree of lists and objects over
numbers. A document has no infinite numbers, so a float that is not finite is stored as `null`, and
`null` is read as nothing. These are the data and not their text, so a document holds each float as
it is.
-/

namespace CurvedMesh

/-- A whole number of 64 bits, with a sign or without. -/
structure WholeNumber where
  value : Int
  fits : -Nat.pow 2 63 ≤ value ∧ value < Nat.pow 2 64

/-- A float that is a number and not infinite. Zero keeps its sign. -/
structure FiniteFloat where
  value : Float
  finite : Binary64.isFinite value

inductive Document where
  | null
  | bool (value : Bool)
  | int (value : WholeNumber)
  | float (value : FiniteFloat)
  | text (value : String)
  | list (items : List Document)
  /-- The same name may stand several times. -/
  | object (entries : List (String × Document))
deriving Inhabited

namespace Document

/-! ## Writing -/

def ofFloat (x : Float) : Document :=
  if h : Binary64.isFinite x then .float ⟨x, h⟩ else .null

/-- Indices have 64 bits, and larger numbers are none. -/
def ofIndex (n : Nat) : Document :=
  if h : n < Nat.pow 2 64 then .int ⟨n, by omega⟩ else .null

def ofPoint {d : Nat} (p : Point Float d) : Document :=
  .list (p.toList.map ofFloat)

/-! ## Reading -/

/-- A whole number is a number too, rounded to the nearest float. -/
def float? : Document → Option Float
  | .int n => some (Float.ofInt n.value)
  | .float x => some x.value
  | _ => none

/-- A whole number that is not negative. -/
def index? : Document → Option Nat
  | .int n => if 0 ≤ n.value then some n.value.toNat else none
  | _ => none

def list? : Document → Option (List Document)
  | .list items => some items
  | _ => none

/-- A list of exactly as many numbers as there are axes. -/
def point? (d : Nat) (doc : Document) : Option (Point Float d) := do
  let coordinates := (← (← doc.list?).mapM float?).toArray
  if h : coordinates.size = d then some ⟨coordinates, h⟩ else none

/-- The value of the one entry with the name. -/
def uniqueValue? (entries : List (String × Document)) (name : String) : Option Document :=
  match entries.filter (·.1 == name) with
  | [entry] => some entry.2
  | _ => none

/-- The values of a record, in the order of the given names. An object has to have each of them once
and may have others. A list has to have exactly as many items. -/
def fields? (names : List String) : Document → Option (List Document)
  | .object entries => names.mapM (uniqueValue? entries)
  | .list items => if items.length = names.length then some items else none
  | _ => none

end Document

/-- Why a document was refused. -/
inductive ReadFault where
  /-- It does not have the form of the value to be read. -/
  | malformed
  /-- It has the form, and the value that it describes is not allowed. -/
  | refused (fault : Fault Float)

end CurvedMesh
