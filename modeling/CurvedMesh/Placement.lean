import CurvedMesh.WeightedPoints

/-!
# Manifolds

A manifold answers one question: where does a new point belong, given weighted old ones? On a line
or in a plane it is their centroid, on a sphere a point of the sphere.
-/

namespace CurvedMesh

variable {α : Type} {d : Nat}

/-- The weighted centroid fell on the center of a sphere and gave no direction, so the point was
placed by averaging angles. -/
structure Fallback (α : Type) (d : Nat) where
  center : Point α d
  averageRadius : α

/-- A placed point, and whether a fallback was needed for it. -/
structure Placement (α : Type) (d : Nat) where
  point : Point α d
  fallback? : Option (Fallback α d) := none

/-- The geometry that new points have to respect. -/
structure Manifold (α : Type) (d : Nat) where
  place : WeightedPoints α d → Except (Fault α) (Placement α d)

namespace Manifold

variable [Scalar α]

/-- The point at position `w` between `p` and `q`, where 0 is `p` and 1 is `q`. -/
def between (m : Manifold α d) (p q : Point α d) (w : α) : Except (Fault α) (Placement α d) :=
  if 0 ≤ w ∧ w ≤ 1 then m.place ⟨[1 - w, w], [p, q]⟩
  else .error (.parameterOutOfRange w)

/-- The point half way from `p` to `q`. -/
def midpoint (m : Manifold α d) (p q : Point α d) : Except (Fault α) (Placement α d) :=
  m.between p q Scalar.half

end Manifold

end CurvedMesh
