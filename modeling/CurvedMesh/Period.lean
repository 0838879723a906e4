import CurvedMesh.Scalar

/-!
# Periodic coordinates

On a periodic axis two coordinates name the same place if they differ by whole periods.
`Period.wrap` picks the representative at or above zero and below the period, `Period.unwrap` one
that is near the others. `Angle.distance` measures the way between two angles along the circle.
-/

namespace CurvedMesh

variable {α : Type}

/-- The representative of `value` between zero and the period. A value that only rounding brings up
to the period becomes zero, so the period itself is never reached. -/
def Period.wrap [Scalar α] (period value : α) : α :=
  let wrapped := value - period * Scalar.floor (value / period)
  if period ≤ wrapped ∨ wrapped < 0 then 0 else wrapped

/-- Moves a coordinate down by one period if it is more than half a period above the least one. -/
def Period.unwrap [Scalar α] (period least x : α) : α :=
  if period / ((2 : Nat) : α) < x - least then x - period else x

/-- The remainder by `turn`, moved up by one turn if it is negative. -/
def Angle.residue [Scalar α] (turn angle : α) : α :=
  let r := Scalar.rem angle turn
  if r < 0 then r + turn else r

/-- The length of the shorter arc between two angles, on a circle of circumference `turn`. -/
def Angle.distance [Scalar α] (turn a b : α) : α :=
  let ahead := Angle.residue turn (a - b)
  Scalar.lesser ahead (turn - ahead)

end CurvedMesh
