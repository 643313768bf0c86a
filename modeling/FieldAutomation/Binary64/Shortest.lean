import FieldAutomation.Binary64

/-!
# The shortest decimal text of a double

The text of a finite double is the decimal with the fewest digits that reads back as the same
double, written without an exponent.  Among decimals of that length the nearest to the exact
value is taken, and of two equally near ones the larger.

* `Reach`: the reals that round to one double, in units of a power of two;
* `Reach.onGrid?`: the point of a decimal grid that lies within reach and nearest its middle;
* `Reach.shortest`: the point on the coarsest grid that has one;
* `Binary64.text`: the text, `NaN` and `inf` included.

Everything is exact arithmetic on natural numbers.  If a grid has a point within reach, one of
the two neighbours of the middle is within reach, so only those two are tried.
-/

namespace FieldAutomation

/-- A decimal `digits * 10 ^ exponent`. -/
structure Decimal where
  digits : Nat
  exponent : Int
  deriving DecidableEq, Repr

namespace Decimal

/-- Positional notation: no exponent, and a point only before a fraction. -/
def text (d : Decimal) : String :=
  let written := toString d.digits
  let places := (-d.exponent).toNat
  if 0 ≤ d.exponent then
    written ++ String.ofList (List.replicate d.exponent.toNat '0')
  else if places < written.length then
    (written.take (written.length - places)).toString ++ "." ++
      (written.drop (written.length - places)).toString
  else
    "0." ++ String.ofList (List.replicate (places - written.length) '0') ++ written

end Decimal

/-- The reals that round to one double: those from `low` to `high` in units of `2 ^ unit`.
The two ends belong to it when `closed` holds. -/
structure Reach where
  unit : Int
  low : Nat
  middle : Nat
  high : Nat
  closed : Bool
  deriving DecidableEq, Repr

namespace Reach

-- Powers are those of the core library, whatever else is in scope.
attribute [local instance (high)] instPowNat

variable (r : Reach)

/-- On the grid of multiples of `10 ^ place`, `c` stands at `c * gridScale place`, … -/
def gridScale (place : Int) : Nat := (10 ^ place.toNat) <<< (-r.unit).toNat

/-- … and `n` units stand at `n * unitScale place`. -/
def unitScale (place : Int) : Nat := (10 ^ (-place).toNat) <<< r.unit.toNat

/-- Whether `c * 10 ^ place` rounds to the double. -/
def holds (place : Int) (c : Nat) : Bool :=
  let point := c * r.gridScale place
  let low := r.low * r.unitScale place
  let high := r.high * r.unitScale place
  if r.closed then decide (low ≤ point ∧ point ≤ high) else decide (low < point ∧ point < high)

/-- The multiple of `10 ^ place` within reach that is nearest the middle; of two equally near
ones, the larger. -/
def onGrid? (place : Int) : Option Nat :=
  let middle := r.middle * r.unitScale place
  let step := r.gridScale place
  let below := middle / step
  match r.holds place below, r.holds place (below + 1) with
  | true, true => if 2 * (middle - below * step) < step then some below else some (below + 1)
  | true, false => some below
  | false, true => some (below + 1)
  | false, false => none

/-- Tries `steps` grids, each ten times finer than the one before. -/
def search : Nat → Int → Option Decimal
  | 0, _ => none
  | steps + 1, place =>
    match r.onGrid? place with
    | some c => some ⟨c, place⟩
    | none => search steps (place - 1)

/-- A place whose grid is too coarse to have a point within reach. -/
def topPlace : Int := (r.high.log2 + 1 + r.unit) * 30103 / 100000 + 1

/-- The shortest decimal within reach.  Seventeen digits tell all doubles apart, so two dozen
grids are enough. -/
def shortest : Decimal := (r.search 24 r.topPlace).getD ⟨0, 0⟩

end Reach

namespace Binary64

/-- The reals that round to the magnitude of `x`.  Ties go to an even significand, and the
double below a power of two is only half as far away. -/
def reach (x : Binary64) : Reach where
  unit := x.exponent - 2
  low := 4 * x.significand - (if x.fraction = 0 ∧ 1 < x.exponentField then 1 else 2)
  middle := 4 * x.significand
  high := 4 * x.significand + 2
  closed := x.significand % 2 == 0

/-- The shortest decimal text that reads back as `x`. -/
def text (x : Binary64) : String :=
  if x.isNaN then "NaN"
  else
    let magnitude :=
      if x.isInfinite then "inf" else if x.isZero then "0" else x.reach.shortest.text
    if x.isNegative then "-" ++ magnitude else magnitude

end Binary64

end FieldAutomation
