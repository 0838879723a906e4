import CurvedMesh.Document.Basic

/-!
# Documents written and read

A document that is written to a medium comes back with the same lists, objects, texts and whole
numbers. Floats come back as the medium reads what it wrote for them. Where a float becomes decimal
text that depends on the reader: one that rounds every text correctly gives the float back, one that
computes in floats may give a neighbour of it.
-/

namespace CurvedMesh

/-- How a medium writes floats and reads them. -/
structure NumberFormat where
  Numeral : Type
  write : FiniteFloat → Numeral
  read : Numeral → Option FiniteFloat

namespace NumberFormat

/-- The format of a document that is kept as it is. -/
def verbatim : NumberFormat where
  Numeral := FiniteFloat
  write := id
  read := some

end NumberFormat

namespace Document

mutual

/-- What is read where a document was written. A number that cannot be read spoils all of it. -/
def transcribe (format : NumberFormat) : Document → Option Document
  | .null => some .null
  | .bool value => some (.bool value)
  | .int n => some (.int n)
  | .float x => (format.read (format.write x)).map .float
  | .text value => some (.text value)
  | .list items => (transcribeItems format items).map .list
  | .object entries => (transcribeEntries format entries).map .object

def transcribeItems (format : NumberFormat) : List Document → Option (List Document)
  | [] => some []
  | doc :: docs => do
    let head ← transcribe format doc
    let tail ← transcribeItems format docs
    some (head :: tail)

def transcribeEntries (format : NumberFormat) :
    List (String × Document) → Option (List (String × Document))
  | [] => some []
  | (name, doc) :: entries => do
    let head ← transcribe format doc
    let tail ← transcribeEntries format entries
    some ((name, head) :: tail)

end

/-- Reads a value from what a medium makes of its document. -/
def readFrom {β : Type} (format : NumberFormat) (read : Document → Except ReadFault β)
    (doc : Document) : Except ReadFault β :=
  match doc.transcribe format with
  | some doc => read doc
  | none => .error .malformed

end Document

end CurvedMesh
