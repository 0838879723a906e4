import CurvedMesh.Document.Basic
import CurvedMesh.Mesh.Basic

/-!
# Stored meshes

A cell is the list of its corners. A mesh is read without looking whether its cells refer to
vertices that it has.
-/

namespace CurvedMesh

variable {d : Nat} {s : Shape}

def Cell.toDocument (cell : Cell Nat s) : Document :=
  .list (cell.corners.map .ofIndex)

def Cell.ofDocument? (doc : Document) : Option (Cell Nat s) := do
  Cell.ofCorners? (← (← doc.list?).mapM Document.index?)

def Cell.ofDocument (doc : Document) : Except ReadFault (Cell Nat s) :=
  match Cell.ofDocument? doc with
  | some cell => .ok cell
  | none => .error .malformed

def Mesh.toDocument (mesh : Mesh Float d s) : Document :=
  .object [("vertices", .list (mesh.vertices.toList.map .ofPoint)),
    ("connectivity", .list (mesh.cells.map Cell.toDocument))]

def Mesh.ofDocument (doc : Document) : Except ReadFault (Mesh Float d s) :=
  match doc.fields? ["vertices", "connectivity"] with
  | some [vertices, cells] =>
    match vertices.list? >>= (·.mapM (Document.point? d)),
        cells.list? >>= (·.mapM Cell.ofDocument?) with
    | some vertices, some cells => .ok ⟨vertices.toArray, cells⟩
    | _, _ => .error .malformed
  | _ => .error .malformed

end CurvedMesh
