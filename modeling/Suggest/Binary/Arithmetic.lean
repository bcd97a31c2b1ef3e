/-
# Correctly rounded arithmetic

Sums, differences, products and quotients of a binary format: the exact result rounded to the nearest magnitude, a tie
going to the even one, and beyond the last magnitude to infinity. An exact result is a quotient of natural numbers in
units of the least positive number (`ofUnits`), so no step before the last one rounds.

| case | result |
| --- | --- |
| an operand is `nan`, `∞ - ∞`, `0 · ∞`, `0 / 0`, `∞ / ∞` | `nan` |
| a nonzero number divided by zero | infinity with the product's sign |
| the sum of two negative zeros | `-0` |
| any other sum that is zero | `+0` |
-/

import Suggest.Binary.Basic

namespace Suggest

/-- The quotient to the nearest integer, a tie going to the even one. -/
def roundQuotient (num den : Nat) : Nat :=
  let q := num / den
  let r := num % den
  if den < 2 * r ∨ 2 * r = den ∧ q % 2 = 1 then q + 1 else q

namespace Format

/-- The magnitude nearest to `num / den` units, a tie going to the even one. -/
def nearest (f : Format) (num den : Nat) : Nat :=
  let shift := (num / den).log2 - f.fractionBits
  shift <<< f.fractionBits + roundQuotient num (den <<< shift)

end Format

namespace Binary

variable {f : Format}

/-- The number nearest to `± num / den` units. -/
def ofUnits (negative : Bool) (num den : Nat) : Binary f :=
  let k := f.nearest num den
  if h : k < f.limit then .finite negative ⟨k, h⟩ else .infinite negative

/-- The number nearest to `± num / den`. -/
def ofRatio (negative : Bool) (num den : Nat) : Binary f := ofUnits negative (num <<< f.scale) den

/-- The number nearest to `n`. -/
def ofNat (n : Nat) : Binary f := ofRatio false n 1

/-- The number nearest to `n`. -/
def ofInt (n : Int) : Binary f := ofRatio (n < 0) n.natAbs 1

/-- The number of the format nearest to a number of another format. -/
def convert {g : Format} : Binary g → Binary f
  | .nan => .nan
  | .infinite negative => .infinite negative
  | .finite negative k => ofUnits negative (g.units k.val <<< f.scale) (1 <<< g.scale)

/-- The number with the other sign. -/
def neg : Binary f → Binary f
  | .nan => .nan
  | .infinite negative => .infinite !negative
  | .finite negative k => .finite (!negative) k

/-- The units of a finite number with their sign. -/
def signedUnits (negative : Bool) (k : Nat) : Int := if negative then -f.units k else f.units k

/-- The sum. -/
def add : Binary f → Binary f → Binary f
  | .nan, _ | _, .nan => .nan
  | .infinite a, .infinite b => if a = b then .infinite a else .nan
  | .infinite a, .finite .. | .finite .., .infinite a => .infinite a
  | .finite a j, .finite b k =>
    let sum := signedUnits (f := f) a j.val + signedUnits (f := f) b k.val
    if sum = 0 then signedZero (a && b) else ofUnits (sum < 0) sum.natAbs 1

/-- The difference. -/
def sub (x y : Binary f) : Binary f := x.add y.neg

/-- The product. -/
def mul : Binary f → Binary f → Binary f
  | .nan, _ | _, .nan => .nan
  | .infinite a, .infinite b => .infinite (a != b)
  | .infinite a, .finite b k | .finite b k, .infinite a => if k.val = 0 then .nan else .infinite (a != b)
  | .finite a j, .finite b k => ofUnits (a != b) (f.units j.val * f.units k.val) (1 <<< f.scale)

/-- The quotient. -/
def div : Binary f → Binary f → Binary f
  | .nan, _ | _, .nan | .infinite _, .infinite _ => .nan
  | .infinite a, .finite b _ => .infinite (a != b)
  | .finite a _, .infinite b => signedZero (a != b)
  | .finite a j, .finite b k =>
    if k.val = 0 then if j.val = 0 then .nan else .infinite (a != b)
    else ofUnits (a != b) (f.units j.val <<< f.scale) (f.units k.val)

/-- One. -/
def one : Binary f := ofNat 1

theorem add_nan (x : Binary f) : x.add .nan = .nan := by cases x <;> rfl

theorem mul_nan (x : Binary f) : x.mul .nan = .nan := by cases x <;> rfl

end Binary

end Suggest
