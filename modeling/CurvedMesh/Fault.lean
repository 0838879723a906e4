/-!
# Why an operation has no result

Each constructor is a cause, with the values that its text shows.
-/

namespace CurvedMesh

/-- Why a chart map has no value at a point. -/
inductive ChartFault (α : Type) where
  | negativeRadius (radius : α)
  /-- There are no chart coordinates in this ambient dimension. -/
  | unsupportedDimension (dim : Nat)
deriving BEq, DecidableEq, Repr

/-- Why an operation of this library has no result. -/
inductive Fault (α : Type) where
  /-- The manifold needs a larger ambient dimension. -/
  | impossibleInDimension (dim : Nat)
  | negativePeriod (axis : Nat) (period : α)
  | noPoints
  | lengthMismatch (weights points : Nat)
  | negativeWeight (index : Nat) (weight : α)
  /-- A chart map was needed where it has no value. -/
  | chart (fault : ChartFault α)
  /-- The position between two points is not between 0 and 1. -/
  | parameterOutOfRange (parameter : α)
  | tooFewSegments
  | radiusNotPositive
  /-- There is no entry at `index` in a list of this length. -/
  | indexOutOfBounds (length index : Nat)
  /-- A corner of the cell is no vertex of the mesh. -/
  | danglingCorner (cell corner vertices : Nat)
  /-- A list of corners is shorter or longer than the cell shape wants. -/
  | wrongCornerCount
deriving BEq, DecidableEq, Repr

end CurvedMesh
