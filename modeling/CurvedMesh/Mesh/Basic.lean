import CurvedMesh.Cell
import CurvedMesh.Point

/-!
# Meshes

Vertices, and cells that refer to them by index. Nothing keeps a cell from referring to a vertex
that is not there. `Mesh.check` finds the first one that does.
-/

namespace CurvedMesh

/-- A mesh of cells of one shape. Cells that share a vertex use the same index for it. -/
structure Mesh (α : Type) (d : Nat) (s : Shape) where
  vertices : Array (Point α d)
  cells : List (Cell Nat s)
deriving BEq

namespace Mesh

variable {α : Type} {d : Nat} {s : Shape}

/-- Every corner of every cell is a vertex. -/
def Valid (mesh : Mesh α d s) : Prop :=
  ∀ cell ∈ mesh.cells, ∀ corner ∈ cell.corners, corner < mesh.vertices.size

/-- The first cell with a corner that is no vertex, and the first such corner of it. -/
def firstDangling? (mesh : Mesh α d s) : Option (Nat × Nat) :=
  mesh.cells.zipIdx.findSome? fun entry =>
    (entry.1.corners.find? fun corner => mesh.vertices.size ≤ corner).map fun corner =>
      (entry.2, corner)

def check (mesh : Mesh α d s) : Except (Fault α) Unit :=
  match mesh.firstDangling? with
  | some (cell, corner) => .error (.danglingCorner cell corner mesh.vertices.size)
  | none => .ok ()

theorem firstDangling?_eq_none_iff {mesh : Mesh α d s} :
    mesh.firstDangling? = none ↔ mesh.Valid := by
  simp only [firstDangling?, Valid, List.findSome?_eq_none_iff, Option.map_eq_none_iff,
    List.find?_eq_none, decide_eq_true_eq, Nat.not_le]
  constructor
  · intro h cell hcell
    obtain ⟨i, hi, rfl⟩ := List.getElem_of_mem hcell
    exact h (mesh.cells[i], i) (List.mem_zipIdx_iff_getElem?.2 (by simp [hi]))
  · rintro h ⟨cell, i⟩ hentry
    exact h cell (List.mem_of_getElem? (List.mem_zipIdx_iff_getElem?.1 hentry))

theorem check_eq_ok_iff {mesh : Mesh α d s} : mesh.check = .ok () ↔ mesh.Valid := by
  rw [← firstDangling?_eq_none_iff, check]
  split <;> simp_all

/-- Moves a vertex. -/
def setVertex (mesh : Mesh α d s) (index : Nat) (p : Point α d) :
    Except (Fault α) (Mesh α d s) :=
  if h : index < mesh.vertices.size then .ok { mesh with vertices := mesh.vertices.set index p h }
  else .error (.indexOutOfBounds mesh.vertices.size index)

end Mesh

end CurvedMesh
