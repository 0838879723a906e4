import CurvedMesh.Decimal.Shortest

/-!
# Floats as text

The digits are always those of `Decimal.shortest`. A `Decimal.Layout` says where an exponent is
written and whether a whole number shows that it is a float.
-/

namespace CurvedMesh

namespace Decimal

/-- The decisions of a number format. -/
structure Layout where
  /-- Whether a whole number in positional notation ends in `.0`. -/
  pointZero : Bool
  /-- Whether a number whose leading digit has weight `10 ^ weight` is written without exponent. -/
  positional : (weight : Int) → Bool

namespace Layout

/-- Positional notation throughout. -/
def plain : Layout where
  pointZero := false
  positional := fun _ => true

/-- Whole numbers end in `.0`. Numbers below `10 ^ -4` and from `10 ^ 16` on have an exponent. -/
def marked : Layout where
  pointZero := true
  positional := fun weight => -4 ≤ weight && weight < 16

end Layout

def digitChars (d : Decimal) : List Char := Nat.toDigits 10 d.digits

/-- The exponent of the power of ten that the leading digit counts. -/
def weight (d : Decimal) : Int := d.exponent + d.digitChars.length - 1

/-- Positional notation, with `whole` after a number that has no fraction. -/
def positional (d : Decimal) (whole : String) : String :=
  if 0 ≤ d.exponent then
    String.ofList (d.digitChars ++ List.replicate d.exponent.toNat '0') ++ whole
  else
    let places := (-d.exponent).toNat
    let chars := List.replicate (places + 1 - d.digitChars.length) '0' ++ d.digitChars
    String.ofList (chars.take (chars.length - places)) ++ "."
      ++ String.ofList (chars.drop (chars.length - places))

/-- One digit before the point, the others after it, and the exponent. -/
def scientific (d : Decimal) : String :=
  let fraction :=
    match d.digitChars.drop 1 with
    | [] => ""
    | rest => "." ++ String.ofList rest
  String.ofList (d.digitChars.take 1) ++ fraction ++ "e" ++ toString d.weight

/-- A finite magnitude in the given layout. -/
def text (layout : Layout) (d : Decimal) : String :=
  if d.digits = 0 ∨ layout.positional d.weight then
    d.positional (if layout.pointZero then ".0" else "")
  else d.scientific

end Decimal

/-- The text of a float. The sign of zero is shown. -/
def Decimal.Layout.render (layout : Decimal.Layout) (x : Float) : String :=
  match Binary64.ofFloat x with
  | .nan => "NaN"
  | .infinite negative => sign negative ++ "inf"
  | .finite negative mantissa exponent =>
    sign negative ++ (Decimal.shortest mantissa exponent).text layout
where
  sign (negative : Bool) : String := if negative then "-" else ""

end CurvedMesh
