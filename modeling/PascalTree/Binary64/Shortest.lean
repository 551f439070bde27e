import PascalTree.Binary64

/-! # The shortest decimal that reads back

A binary value is recovered from any decimal in its rounding interval, whose ends lie half way to
the neighbouring values. Of the grids of multiples of a power of ten, the coarsest with a point in
that interval gives the fewest digits. At most two points of it surround the value; the nearer one
is taken, and of two equally near ones the upper.
-/
namespace PascalTree
set_option autoImplicit false

/-- The number `digits * 10 ^ exponent`. -/
structure Decimal where
  digits : Nat
  exponent : Int
  deriving DecidableEq, Repr

/-- The reals that round to one value: between `low` and `high`, around `middle`, all three in
units of `2 ^ scale`. The ends belong to it when `closed` holds. -/
structure RoundingInterval where
  low : Nat
  middle : Nat
  high : Nat
  scale : Int
  closed : Bool
  deriving DecidableEq, Repr

namespace Binary64

/-- The value below a power of two is only half as far away as the one above it. Ends are read as
the value when its significand is even. -/
def roundingInterval (x : Binary64) : RoundingInterval where
  low := 4 * x.significand - (if x.fractionField = 0 ∧ 1 < x.exponentField then 1 else 2)
  middle := 4 * x.significand
  high := 4 * x.significand + 2
  scale := x.scale - 2
  closed := x.significand % 2 == 0

end Binary64

namespace RoundingInterval

/-- One unit in the last place of a grid, and one unit of the interval, on a common scale. -/
def gridUnit (interval : RoundingInterval) (exponent : Int) : Nat :=
  Nat.pow 10 exponent.toNat * Nat.pow 2 (-interval.scale).toNat

def ownUnit (interval : RoundingInterval) (exponent : Int) : Nat :=
  Nat.pow 2 interval.scale.toNat * Nat.pow 10 (-exponent).toNat

def holds (interval : RoundingInterval) (exponent : Int) (digits : Nat) : Bool :=
  let point := digits * interval.gridUnit exponent
  let low := interval.low * interval.ownUnit exponent
  let high := interval.high * interval.ownUnit exponent
  if interval.closed then low ≤ point && point ≤ high else low < point && point < high

/-- The last grid point not above the middle. -/
def below (interval : RoundingInterval) (exponent : Int) : Nat :=
  interval.middle * interval.ownUnit exponent / interval.gridUnit exponent

/-- The middle is not nearer to the grid point below it than to the next one. -/
def roundsUp (interval : RoundingInterval) (exponent : Int) : Bool :=
  (2 * interval.below exponent + 1) * interval.gridUnit exponent ≤
    2 * (interval.middle * interval.ownUnit exponent)

/-- The point of the grid with this exponent that lies in the interval and is nearest to the
middle. -/
def nearest? (interval : RoundingInterval) (exponent : Int) : Option Nat :=
  let lower := interval.below exponent
  if interval.holds exponent lower then
    if interval.holds exponent (lower + 1) && interval.roundsUp exponent then some (lower + 1)
    else some lower
  else if interval.holds exponent (lower + 1) then some (lower + 1)
  else none

theorem holds_of_nearest? {interval : RoundingInterval} {exponent : Int} {digits : Nat}
    (h : interval.nearest? exponent = some digits) : interval.holds exponent digits := by
  grind [nearest?]

theorem nearest?_eq_none_iff {interval : RoundingInterval} {exponent : Int} :
    interval.nearest? exponent = none ↔
      ¬ interval.holds exponent (interval.below exponent) ∧
        ¬ interval.holds exponent (interval.below exponent + 1) := by
  grind [nearest?]

/-- Tries the grids from `exponent` downwards, `steps` of them, before taking the grid after them
as it is. -/
def coarsest (interval : RoundingInterval) : (steps : Nat) → (exponent : Int) → Decimal
  | 0, exponent => ⟨interval.below exponent, exponent⟩
  | steps + 1, exponent =>
    match interval.nearest? exponent with
    | some digits => ⟨digits, exponent⟩
    | none => interval.coarsest steps (exponent - 1)

end RoundingInterval

namespace Binary64

/-- No finite value reaches `10 ^ 309`, and every one is a multiple of `10 ^ (-1074)`. -/
def shortest (x : Binary64) : Decimal := x.roundingInterval.coarsest (309 + 1074) 309

end Binary64
end PascalTree
