import CurvedMesh.Chart
import CurvedMesh.Placement

/-!
# Scaled coordinates

A chart that measures space in units of two. Its periods are not checked, so an axis may carry any
period.
-/

namespace CurvedMesh

/-- Space with coordinates half as large as the ambient ones, and a period for each of them. -/
structure ScaledSpace (α : Type) (d : Nat) where
  periodicity : Point α d
deriving BEq

namespace ScaledSpace

variable {α : Type} {d : Nat} [Scalar α]

def chart (s : ScaledSpace α d) : Chart α d where
  toSpace p := .ok (p.scale ((2 : Nat) : α))
  ofSpace p := .ok (p.scale Scalar.half)
  periodicity := s.periodicity

def manifold (s : ScaledSpace α d) : Manifold α d where
  place q := return { point := ← s.chart.place q }

end ScaledSpace

end CurvedMesh
