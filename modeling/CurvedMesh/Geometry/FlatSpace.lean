import CurvedMesh.Chart
import CurvedMesh.Placement

/-!
# Flat geometry

Straight space, possibly periodic along some axes. New points are weighted centroids, taken with
wraparound on the periodic axes.
-/

namespace CurvedMesh

/-- Flat space with a period for each axis. An axis whose period is not positive is a line. -/
structure FlatSpace (α : Type) (d : Nat) where
  periodicity : Point α d
deriving BEq

namespace FlatSpace

variable {α : Type} {d : Nat} [Scalar α]

/-- Flat space without periodic axes. -/
def euclidean : FlatSpace α d := ⟨0⟩

/-- Refuses the first negative period. -/
def ofPeriodicity (periodicity : Point α d) : Except (Fault α) (FlatSpace α d) :=
  match Scalar.firstNegative? periodicity.toList with
  | some (period, axis) => .error (.negativePeriod axis period)
  | none => .ok ⟨periodicity⟩

/-- The points are their own chart points. -/
def chart (f : FlatSpace α d) : Chart α d where
  toSpace := .ok
  ofSpace := .ok
  periodicity := f.periodicity

def manifold (f : FlatSpace α d) : Manifold α d where
  place q := return { point := ← f.chart.place q }

end FlatSpace

end CurvedMesh
