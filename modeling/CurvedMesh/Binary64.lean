import CurvedMesh.Scalar

/-!
# Binary64 floats taken apart

A finite float is a sign, a whole mantissa below `2 ^ 53` and a power of two. On that form rounding
down and the remainder of a division are exact arithmetic on whole numbers, so both are computed
there. The module ends with floats as scalars.
-/

namespace CurvedMesh

/-- The value of a float: `mantissa * 2 ^ exponent` under its sign, or one of the special values. -/
inductive Binary64 where
  | nan
  | infinite (negative : Bool)
  | finite (negative : Bool) (mantissa : Nat) (exponent : Int)
deriving DecidableEq, Repr

namespace Binary64

/-- The exponent of the subnormal floats, the least of all. -/
def leastExponent : Int := -1074

def ofFloat (x : Float) : Binary64 :=
  let bits := x.toBits.toNat
  let negative := decide (Nat.pow 2 63 ≤ bits)
  let exponent : Nat := bits / Nat.pow 2 52 % Nat.pow 2 11
  let fraction : Nat := bits % Nat.pow 2 52
  if exponent = 2047 then
    if fraction = 0 then .infinite negative else .nan
  else if exponent = 0 then .finite negative fraction leastExponent
  else .finite negative (Nat.pow 2 52 + fraction) (exponent - 1075)

/-- The float `mantissa * 2 ^ exponent` under its sign. The mantissa lies below `2 ^ 53`, and the
exponent is at least `leastExponent` and small enough for the product not to overflow. -/
def finiteFloat (negative : Bool) (mantissa : Nat) (exponent : Int) : Float :=
  -- Shift the leading bit to its place, or as far as the least exponent allows.
  let shift := min (52 - mantissa.log2) (exponent - leastExponent).toNat
  let shifted := mantissa * Nat.pow 2 shift
  let sign := if negative then Nat.pow 2 63 else 0
  let magnitude :=
    if shifted < Nat.pow 2 52 then shifted
    else (exponent - shift + 1075).toNat * Nat.pow 2 52 + (shifted - Nat.pow 2 52)
  Float.ofBits (UInt64.ofNat (sign + magnitude))

def nanFloat : Float := Float.ofBits 0x7ff8000000000000

def isFinite (x : Float) : Bool :=
  match ofFloat x with
  | .finite .. => true
  | _ => false

/-- The greatest whole float that does not exceed `x`. It keeps the sign of zero. -/
def floor (x : Float) : Float :=
  match ofFloat x with
  | .finite negative mantissa exponent =>
    if 0 ≤ exponent then x
    else
      let unit := Nat.pow 2 (-exponent).toNat
      let whole := mantissa / unit
      if negative && mantissa % unit != 0 then finiteFloat negative (whole + 1) 0
      else finiteFloat negative whole 0
  | _ => x

/-- The exact remainder of `x` by `y` for the quotient truncated toward zero. It has the sign of
`x`. An infinite `y` leaves a finite `x` as it is. -/
def rem (x y : Float) : Float :=
  match ofFloat x, ofFloat y with
  | .finite negative m e, .finite _ n f =>
    if n = 0 then nanFloat
    else
      let low := min e f
      finiteFloat negative (m * Nat.pow 2 (e - low).toNat % (n * Nat.pow 2 (f - low).toNat)) low
  | .finite .., .infinite _ => x
  | _, _ => nanFloat

end Binary64

instance : AnalyticScalar Float where
  zero := 0
  one := 1
  natCast := Float.ofNat
  decLt := fun a b => inferInstanceAs (Decidable (a < b))
  decLe := fun a b => inferInstanceAs (Decidable (a ≤ b))
  floor := Binary64.floor
  rem := Binary64.rem
  sqrt := Float.sqrt
  sin := Float.sin
  cos := Float.cos
  atan2 := Float.atan2
  twoPi := Float.ofBits 0x401921fb54442d18

end CurvedMesh
