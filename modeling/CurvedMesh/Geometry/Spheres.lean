import CurvedMesh.Chart
import CurvedMesh.Placement

/-!
# Spherical geometry

All spheres around one center at once. In two dimensions the chart has the radius and the angle, in
three the radius, the angle from the third axis and the angle around it. In two dimensions points
are averaged in the chart. Above that the new point lies in the direction of the weighted centroid,
at the average distance from the center; the chart is needed only where the centroid falls on the
center.
-/

namespace CurvedMesh

open AnalyticScalar

/-- The spheres around a center. A single coordinate does not make a sphere. -/
structure Spheres (α : Type) (d : Nat) where
  center : Point α d
  two_le : 2 ≤ d

namespace Spheres

variable {α : Type} {d : Nat} [AnalyticScalar α]

/-- The center decides, since the periods follow from the dimension. -/
instance [BEq α] : BEq (Spheres α d) where
  beq s t := s.center == t.center

def ofCenter (center : Point α d) : Except (Fault α) (Spheres α d) :=
  if h : 2 ≤ d then .ok ⟨center, h⟩ else .error (.impossibleInDimension d)

/-- Radii up to this one count as zero. -/
def radiusTolerance : α := 1 / (Nat.pow 10 10 : α)

/-- Only the last axis is periodic, with the full turn. -/
def periodicity : Point α d :=
  Vector.ofFn fun i => if i.val + 1 = d then twoPi else 0

/-! ## Chart coordinates around the origin -/

/-- The vector with the given radius and angles. -/
def ofAngles : {d : Nat} → Point α d → Except (ChartFault α) (Point α d)
  | 2, q => .ok #v[q[0] * cos q[1], q[0] * sin q[1]]
  | 3, q => .ok #v[q[0] * sin q[1] * cos q[2], q[0] * sin q[1] * sin q[2], q[0] * cos q[1]]
  | d, _ => .error (.unsupportedDimension d)

/-- The radius and the angles of a vector. -/
def toAngles : {d : Nat} → Point α d → Except (ChartFault α) (Point α d)
  | 2, r => .ok #v[r.norm, Period.wrap twoPi (atan2 r[1] r[0])]
  | 3, r =>
    let fromAxis := atan2 (sqrt (r[0] * r[0] + r[1] * r[1])) r[2]
    .ok #v[r.norm, fromAxis, Period.wrap twoPi (atan2 r[1] r[0])]
  | d, _ => .error (.unsupportedDimension d)

/-! ## The chart -/

/-- Refuses a radius that is not at least zero. At the center the angles say nothing, so there every
dimension is supported. -/
def toSpace (s : Spheres α d) (q : Point α d) : Except (ChartFault α) (Point α d) :=
  have := s.two_le
  let radius := q[0]
  if 0 ≤ radius then
    if radiusTolerance < radius then return s.center + (← ofAngles q)
    else return s.center + 0
  else throw (.negativeRadius radius)

def ofSpace (s : Spheres α d) (p : Point α d) : Except (ChartFault α) (Point α d) :=
  toAngles (p - s.center)

def chart (s : Spheres α d) : Chart α d where
  toSpace := s.toSpace
  ofSpace := s.ofSpace
  periodicity := periodicity

/-! ## Placing points -/

/-- The weighted average of the distances from the center. -/
def averageRadius (s : Spheres α d) (q : WeightedPoints α d) : α :=
  q.pairs.foldl (fun sum entry => sum + entry.1 * (entry.2 - s.center).norm) 0

/-- The weighted centroid, seen from the center. -/
def centroid (s : Spheres α d) (q : WeightedPoints α d) : Point α d :=
  Point.weightedSum q.weights q.points - s.center

/-- The point in the direction of the weighted centroid, at the average distance from the center.
Where the centroid gives no direction, the angles are averaged instead. -/
def project (s : Spheres α d) (q : WeightedPoints α d) : Except (Fault α) (Placement α d) := do
  q.check
  let radius := s.averageRadius q
  let r := s.centroid q
  let length := r.norm
  if length ≤ radiusTolerance * Scalar.greater radius 1 then
    if radius ≤ radiusTolerance then return { point := s.center }
    else if 3 < d then throw (.chart (.unsupportedDimension d))
    else return { point := ← s.chart.place q, fallback? := some ⟨s.center, radius⟩ }
  else return { point := s.center + r.scale (radius / length) }

def place (s : Spheres α d) (q : WeightedPoints α d) : Except (Fault α) (Placement α d) :=
  if d = 2 then return { point := ← s.chart.place q }
  else s.project q

def manifold (s : Spheres α d) : Manifold α d where
  place := s.place

end Spheres

end CurvedMesh
