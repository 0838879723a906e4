import CurvedMesh.Binary64

/-!
# The shortest decimal that reads back

`Decimal.shortest` chooses, among the decimals that round to a given float, the one on the coarsest
decimal grid and there the nearest. All comparisons are between whole numbers, so none of them
rounds.
-/

namespace CurvedMesh

/-- The number `digits * 10 ^ exponent`. -/
structure Decimal where
  digits : Nat
  exponent : Int
deriving DecidableEq, Repr

/-- The numbers that round to one positive float: those between `low / scale` and `high / scale`,
around the value `mid / scale`. The ends belong to it if `closed` holds. -/
structure RoundingRange where
  low : Nat
  mid : Nat
  high : Nat
  scale : Nat
  closed : Bool

namespace RoundingRange

/-- The range of the float `mantissa * 2 ^ exponent`. It reaches half way to the next float on both
sides, and the next float below a power of two is half as far. An end rounds to the float whose
mantissa is even. -/
def ofFinite (mantissa : Nat) (exponent : Int) : RoundingRange :=
  let below := if mantissa = Nat.pow 2 52 ∧ Binary64.leastExponent < exponent then 1 else 2
  -- Quarters of the last place make every bound whole.
  let unit := Nat.pow 2 (exponent - 2).toNat
  { low := (4 * mantissa - below) * unit
    mid := 4 * mantissa * unit
    high := (4 * mantissa + 2) * unit
    scale := Nat.pow 2 (2 - exponent).toNat
    closed := mantissa % 2 == 0 }

/-- The multiple of `10 ^ k` in the range that is nearest to the value. Of two equally near ones it
is the larger. -/
def nearestMultiple? (r : RoundingRange) (k : Int) : Option Nat :=
  let step := r.scale * Nat.pow 10 k.toNat
  let unit := Nat.pow 10 (-k).toNat
  let inRange (n : Nat) : Bool :=
    if r.closed then r.low * unit ≤ n * step && n * step ≤ r.high * unit
    else r.low * unit < n * step && n * step < r.high * unit
  let mid := r.mid * unit
  let n := mid / step
  if inRange n && inRange (n + 1) then
    if mid - n * step < (n + 1) * step - mid then some n else some (n + 1)
  else if inRange n then some n
  else if inRange (n + 1) then some (n + 1)
  else none

end RoundingRange

namespace Decimal

/-- The grids to try, coarsest first: from above the greatest float to below half the least. -/
def grids : List Int := (List.range 634).map fun (i : Nat) => 309 - (i : Int)

/-- The shortest decimal that rounds to the float `mantissa * 2 ^ exponent`. -/
def shortest (mantissa : Nat) (exponent : Int) : Decimal :=
  if mantissa = 0 then ⟨0, 0⟩
  else
    let r := RoundingRange.ofFinite mantissa exponent
    (grids.findSome? fun k => (r.nearestMultiple? k).map fun n => ⟨n, k⟩).getD ⟨0, 0⟩

end Decimal

end CurvedMesh
