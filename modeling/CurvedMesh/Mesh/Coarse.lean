import CurvedMesh.Mesh.Basic

/-!
# Coarse meshes of curved domains

Starting points for refinement: a circle as a polygon, a sphere as an octahedron.
-/

namespace CurvedMesh.Mesh

open AnalyticScalar

variable {α : Type}

/-- The regular polygon inscribed in a circle. Vertex `i` lies at `i / segments` of the full turn
from the first axis, and segment `i` leads from it to the next vertex. -/
def circle [AnalyticScalar α] (center : Point α 2) (radius : α) (segments : Nat) :
    Except (Fault α) (Mesh α 2 .segment) :=
  if segments < 3 then .error .tooFewSegments
  else if 0 < radius then
    let vertex (i : Nat) : Point α 2 :=
      let angle := twoPi * (i : α) / (segments : α)
      let direction : Point α 2 := #v[cos angle, sin angle]
      center + direction.scale radius
    .ok {
      vertices := (Array.range segments).map vertex
      cells := (List.range segments).map fun i => .segment i ((i + 1) % segments) }
  else .error .radiusNotPositive

/-- The octahedron inscribed in a sphere, with its vertices on the coordinate axes through the
center. Every triangle is counter-clockwise when seen from outside. -/
def octahedron [Scalar α] (center : Point α 3) (radius : α) :
    Except (Fault α) (Mesh α 3 .triangle) :=
  if 0 < radius then
    let x : Point α 3 := #v[1, 0, 0]
    let y : Point α 3 := #v[0, 1, 0]
    let z : Point α 3 := #v[0, 0, 1]
    .ok {
      vertices := #[center + x.scale radius, center - x.scale radius,
        center + y.scale radius, center - y.scale radius,
        center + z.scale radius, center - z.scale radius]
      cells := [.triangle 0 2 4, .triangle 2 1 4, .triangle 1 3 4, .triangle 3 0 4,
        .triangle 2 0 5, .triangle 1 2 5, .triangle 3 1 5, .triangle 0 3 5] }
  else .error .radiusNotPositive

end CurvedMesh.Mesh
