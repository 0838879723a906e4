import CurvedMesh.Geometry.FlatSpace
import CurvedMesh.Geometry.ScaledSpace
import CurvedMesh.Geometry.Spheres

/-!
# The geometries of this library

`Geometry` is any one of them, with the chart and the manifold that belong to it.
-/

namespace CurvedMesh

inductive Geometry (α : Type) (d : Nat) where
  | flat (space : FlatSpace α d)
  | spheres (around : Spheres α d)
  | scaled (space : ScaledSpace α d)

namespace Geometry

variable {α : Type} {d : Nat}

/-- Geometries of different kinds are different, whatever their parameters. -/
instance [AnalyticScalar α] [BEq α] : BEq (Geometry α d) where
  beq
    | .flat a, .flat b => a == b
    | .spheres a, .spheres b => a == b
    | .scaled a, .scaled b => a == b
    | _, _ => false

variable [AnalyticScalar α]

def chart : Geometry α d → Chart α d
  | .flat g => g.chart
  | .spheres g => g.chart
  | .scaled g => g.chart

def manifold : Geometry α d → Manifold α d
  | .flat g => g.manifold
  | .spheres g => g.manifold
  | .scaled g => g.manifold

end Geometry

end CurvedMesh
