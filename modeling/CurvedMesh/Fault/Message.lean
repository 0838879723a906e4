import CurvedMesh.Decimal.Layout
import CurvedMesh.Fault

/-!
# The texts of faults
-/

namespace CurvedMesh

def ChartFault.message : ChartFault Float → String
  | .negativeRadius radius =>
    s!"Negative radius for given chart point (radius = {Decimal.Layout.plain.render radius})."
  | .unsupportedDimension dim =>
    s!"Internal error: ambient dimension {dim} is not supported here."

/-- Floats are written in plain notation, except for the parameter of an intermediate point. -/
def Fault.message : Fault Float → String
  | .impossibleInDimension dim => s!"Manifold is impossible in ambient dimension {dim}."
  | .negativePeriod axis period =>
    s!"Period of chart axis {axis} must be non-negative, got {Decimal.Layout.plain.render period}."
  | .noPoints => "Weighted point set must contain at least one point."
  | .lengthMismatch weights points =>
    s!"Number of weights ({weights}) does not match number of points ({points})."
  | .negativeWeight index weight =>
    s!"Weight {index} is negative ({Decimal.Layout.plain.render weight})."
  | .chart fault => fault.message
  | .parameterOutOfRange parameter =>
    "Intermediate point parameter must be in [0, 1], got "
      ++ Decimal.Layout.marked.render parameter ++ "."
  | .tooFewSegments => "A circle needs at least three segments."
  | .radiusNotPositive => "Radius must be positive."
  | .indexOutOfBounds length index =>
    s!"index out of bounds: the len is {length} but the index is {index}"
  | .danglingCorner cell corner vertices =>
    s!"Cell {cell} references vertex {corner}, but the mesh only has {vertices} vertices"
  | .wrongCornerCount => "InvalidVertexCount"

/-- The text of a failed assertion that two numbers are equal. -/
def inequalityText (message : String) (left right : Nat) : String :=
  s!"assertion `left == right` failed: {message}\n  left: {left}\n right: {right}"

/-- The text with which placing points stops. Other than a constructor, which hands back the fault,
it asserts that there are as many weights as points. -/
def Fault.placingMessage : Fault Float → String
  | .lengthMismatch weights points =>
    inequalityText (message (.lengthMismatch weights points)) weights points
  | fault => fault.message

end CurvedMesh
