/-
# The fewest decimal digits that name a number

A decimal `digits · 10 ^ exponent` names a number of a binary format if the number is the nearest one of its format, that
is, if the decimal lies in the number's rounding interval: half way to each neighbour, the ends included exactly when
the magnitude is even. `shortest` is the decimal with the fewest digits in that interval, and among those the nearest
to the number.

For each count of digits there is one grid of decimals, and if any of its points lies in the interval, one of the two
around the number does. So it is enough to test these two on ever finer grids, in exact arithmetic on natural numbers.
-/

import Suggest.Binary.Basic

namespace Suggest

/-- The decimal `digits · 10 ^ exponent`. -/
structure Decimal where
  digits : Nat
  exponent : Int
  deriving DecidableEq, Repr

namespace Decimal

/-- How many decimal digits `n` is written with. -/
def length (n : Nat) : Nat := (Nat.toDigits 10 n).length

/-- The rounding interval of a magnitude in halves of the least positive number: its lower end, twice the magnitude, its
upper end, and whether the ends belong to it. -/
structure Interval where
  low : Nat
  middle : Nat
  high : Nat
  closed : Bool

/-- The rounding interval of the `k`-th magnitude. -/
def interval (f : Format) (k : Nat) : Interval :=
  let u := f.units k
  ⟨u + f.units (k - 1), 2 * u, u + f.units (k + 1), k % 2 = 0⟩

/-- The decimal exponent of the leading digit of `u / 2 ^ scale`. -/
def leading (scale u : Nat) : Int :=
  let whole := u >>> scale
  if 0 < whole then length whole - 1 else -(length ((1 <<< scale - 1) / u) : Int)

/-- The point of the grid `10 ^ p` nearest to the middle of the interval, if one of the two around it lies inside. A tie
goes to the even point. -/
def onGrid? (scale : Nat) (i : Interval) (p : Int) : Option Nat :=
  let factor := Nat.pow 10 (-p).toNat
  let step := Nat.pow 10 p.toNat <<< (scale + 1)
  let inside (c : Nat) : Bool :=
    if i.closed then i.low * factor ≤ c * step && c * step ≤ i.high * factor
    else i.low * factor < c * step && c * step < i.high * factor
  let c := i.middle * factor / step
  let below := i.middle * factor - c * step
  let above := (c + 1) * step - i.middle * factor
  if inside c then
    if inside (c + 1) && (above < below || above = below && c % 2 = 1) then some (c + 1) else some c
  else if inside (c + 1) then some (c + 1)
  else none

/-- The same number without a last digit zero. -/
def trimZero (x : Decimal) : Decimal :=
  if x.digits % 10 = 0 then ⟨x.digits / 10, x.exponent + 1⟩ else x

/-- More digits than any number of the two formats needs. -/
def maxDigits : Nat := 20

/-- The decimal with the fewest digits that names the `k`-th magnitude, for `k` not zero. -/
def shortest (f : Format) (k : Nat) : Decimal :=
  let i := interval f k
  let lead := leading f.scale (f.units k)
  let found := (List.range maxDigits).findSome? fun n : Nat =>
    (onGrid? f.scale i (lead - n)).map fun c => (⟨c, lead - n⟩ : Decimal)
  match found with
  | some x => x.trimZero
  | none => ⟨f.units k, 0⟩

end Decimal

end Suggest
