import CurvedMesh.Label
import CurvedMesh.Mesh.Basic
import CurvedMesh.Numbering

/-!
# Uniform refinement

A round of refinement splits every cell at the midpoints of its edges, and a manifold says where the
midpoints lie. The children of the cells come first with labels for corners. The labels are then
numbered by first occurrence, so the order of the new vertices is fixed by the order of the cells,
and each label is placed once.
-/

namespace CurvedMesh

/-- What happened in one round: the fallbacks taken, in the order of the new vertices, and the sizes
of the mesh before and after. -/
structure Round (α : Type) (d : Nat) where
  fallbacks : List (Fallback α d)
  oldVertices : Nat
  newVertices : Nat
  oldCells : Nat
  newCells : Nat

namespace Mesh

variable {α : Type} {d : Nat} {s : Shape}

/-- The parts of all cells, with labels for corners. -/
def children (mesh : Mesh α d s) : List (Cell Label s) :=
  mesh.cells.flatMap fun cell => cell.split Label.vertex Label.midpoint

/-- The numbers of the new vertices. -/
def numbering (mesh : Mesh α d s) : Numbering Label :=
  Numbering.ofList (mesh.children.flatMap Cell.corners)

variable [Scalar α]

/-- One round of refinement. -/
def refine (mesh : Mesh α d s) (m : Manifold α d) :
    Except (Fault α) (Mesh α d s × Round α d) := do
  mesh.check
  let children := mesh.children
  let numbering := mesh.numbering
  -- No child is refused, since it gets as many numbers as it has corners.
  let cells ← children.mapM fun child => Cell.ofCorners (child.corners.map numbering.number)
  let placements ← numbering.order.mapM fun label => label.place m mesh.vertices
  return (
    { vertices := placements.map (·.point), cells },
    { fallbacks := placements.toList.filterMap (·.fallback?)
      oldVertices := mesh.vertices.size
      newVertices := placements.size
      oldCells := mesh.cells.length
      newCells := children.length })

/-- Several rounds of refinement, with what happened in each. -/
def refineTimes (mesh : Mesh α d s) (m : Manifold α d) :
    Nat → Except (Fault α) (Mesh α d s × List (Round α d))
  | 0 => return (mesh, [])
  | times + 1 => do
    let (next, round) ← mesh.refine m
    let (last, rounds) ← next.refineTimes m times
    return (last, round :: rounds)

end Mesh

end CurvedMesh
