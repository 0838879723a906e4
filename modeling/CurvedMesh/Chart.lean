import CurvedMesh.Period
import CurvedMesh.WeightedPoints

/-!
# Charts

A chart gives the points of space coordinates in which a curved geometry is straight, or straighter.
`Chart.place` averages there: it reads every point in chart coordinates, averages, and maps the
average back. An axis with a positive period is a circle, and its coordinates are moved next to each
other before they are averaged.
-/

namespace CurvedMesh

/-- Maps between ambient space and coordinates, and the period of each coordinate axis. An axis
whose period is not positive is a line. -/
structure Chart (α : Type) (d : Nat) where
  toSpace : Point α d → Except (ChartFault α) (Point α d)
  ofSpace : Point α d → Except (ChartFault α) (Point α d)
  periodicity : Point α d

namespace Chart

variable {α : Type} {d : Nat} [Scalar α]

/-- The least coordinate on each axis. -/
def least (p : Point α d) (points : List (Point α d)) : Point α d :=
  points.foldl (Vector.zipWith Scalar.lesser) p

/-- Brings the points within half a period of the least coordinate on each periodic axis. -/
def unwrap (periodicity : Point α d) : List (Point α d) → List (Point α d)
  | [] => []
  | p :: points =>
    let low := least p points
    (p :: points).map fun q => Vector.ofFn fun i =>
      if 0 < periodicity[i] then Period.unwrap periodicity[i] low[i] q[i] else q[i]

/-- Wraps each periodic coordinate. -/
def wrap (periodicity p : Point α d) : Point α d :=
  Vector.ofFn fun i => if 0 < periodicity[i] then Period.wrap periodicity[i] p[i] else p[i]

/-- The weighted average of chart points. -/
def average (periodicity : Point α d) (weights : List α) (points : List (Point α d)) :
    Point α d :=
  wrap periodicity (Point.weightedSum weights (unwrap periodicity points))

/-- The point of space whose chart point is the average of the given ones. -/
def place (c : Chart α d) (q : WeightedPoints α d) : Except (Fault α) (Point α d) := do
  q.check
  let points ← (q.points.mapM c.ofSpace).mapError Fault.chart
  (c.toSpace (average c.periodicity q.weights points)).mapError Fault.chart

end Chart

end CurvedMesh
