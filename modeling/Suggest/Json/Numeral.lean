/-
# Reading numbers

A numeral is the text of a number taken apart. Its value is an integer if it has neither point nor exponent and fits 64
bits, and `-0` is a float. Every other value is a float that is computed in three roundings at most:

* as many leading digits as fit a 64-bit natural number are the significand, which is rounded to a float;
* the digits left over in front of the point, the digits used behind it and the exponent make the power of ten;
* the float is multiplied by it, or divided by its inverse, in steps of at most `10 ^ 308`.

So a numeral with few digits and a small exponent is read as the nearest float, and a longer one as one near it. A value
beyond the last finite float is refused.
-/

import Suggest.Binary.Arithmetic
import Suggest.Json.Fault
import Suggest.Json.Value
import Suggest.Text.Utf8

namespace Suggest
namespace Json

open Text (Glyph)

/-- The parts of a number's text: digits, and the exponent with its sign. -/
structure Numeral where
  negative : Bool
  whole : List Nat
  fraction : List Nat
  exponent : Option Int
  deriving DecidableEq, Repr

namespace Numeral

/-- The greatest significand. -/
def maxSignificand : Nat := 0xFFFFFFFFFFFFFFFF

/-- The greatest power of ten that one step multiplies or divides by. -/
def maxPower : Nat := 308

/-- Append digits to a significand while it fits, and count those that are left over from the first misfit on. -/
def takeWhole (significand : Nat) : List Nat → Nat × Nat
  | [] => (significand, 0)
  | d :: rest =>
    if significand * 10 + d ≤ maxSignificand then takeWhole (significand * 10 + d) rest
    else (significand, rest.length + 1)

/-- Append digits to a significand while it fits, and count those that did. -/
def takeFraction (significand : Nat) : List Nat → Nat × Nat
  | [] => (significand, 0)
  | d :: rest =>
    if significand * 10 + d ≤ maxSignificand then
      (takeFraction (significand * 10 + d) rest).map id (· + 1)
    else (significand, 0)

/-- The float nearest to a power of ten. -/
def powerOfTen (n : Nat) : Double := Binary.ofNat (Nat.pow 10 n)

/-- Divide by `10 ^ 308` so many times, but not a zero, and then by `10 ^ rest`. -/
def shrink (x : Double) (rest : Nat) : Nat → Double
  | 0 => x.div (powerOfTen rest)
  | laps + 1 => if x.isZero then x else shrink (x.div (powerOfTen maxPower)) rest laps

/-- The float for `significand · 10 ^ exponent`, if it is not out of range. -/
def scaled? (significand : Nat) (exponent : Int) : Option Double :=
  let x : Double := Binary.ofNat significand
  if 0 ≤ exponent then
    if exponent ≤ maxPower then
      let y := x.mul (powerOfTen exponent.toNat)
      if y.isFinite then some y else none
    else if x.isZero then some x else none
  else
    let laps := (exponent.natAbs - 1) / maxPower
    some (shrink x (exponent.natAbs - laps * maxPower) laps)

/-- The number a numeral stands for, unless it is out of range. -/
def number? (n : Numeral) : Option Number :=
  let whole := takeWhole 0 n.whole
  if n.fraction.isEmpty && n.exponent.isNone && whole.2 = 0 then
    if !n.negative then some (.integer whole.1)
    else if 0 < whole.1 && whole.1 ≤ 1 <<< 63 then some (.integer (-whole.1))
    else some (.float (Binary.ofNat (f := .double) whole.1).neg)
  else
    let fraction := takeFraction whole.1 n.fraction
    let exponent := (whole.2 : Int) - fraction.2 + n.exponent.getD 0
    (scaled? fraction.1 exponent).map fun x => .float (if n.negative then x.neg else x)

/-- The value of a digit. -/
def digit? : Glyph → Option Nat
  | .char c => if '0' ≤ c ∧ c ≤ '9' then some (c.toNat - 48) else none
  | .stray _ => none

/-- The digits that the glyphs start with, and the rest. -/
def digits : List Glyph → List Nat × List Glyph
  | [] => ([], [])
  | g :: rest =>
    match digit? g with
    | some d => (digits rest).map (d :: ·) id
    | none => ([], g :: rest)

/-- What is wrong where a digit is missing. -/
def missingDigit : List Glyph → Fault
  | [] => .ended
  | _ :: _ => .malformed

/-- Whether the glyphs start with a minus, and those behind it. -/
def minus : List Glyph → Bool × List Glyph
  | .char '-' :: rest => (true, rest)
  | gs => (false, gs)

/-- Whether the glyphs start with a minus, and those behind it or behind a plus. -/
def sign : List Glyph → Bool × List Glyph
  | .char '+' :: rest => (false, rest)
  | gs => minus gs

/-- The exponent that the glyphs start with, if they do, and the rest. -/
def scanExponent : List Glyph → Except Fault (Option Int × List Glyph)
  | .char c :: rest =>
    if c = 'e' ∨ c = 'E' then
      let (ds, more) := digits (sign rest).2
      if ds.isEmpty then .error (missingDigit more)
      else
        let n : Nat := ds.foldl (fun n d => n * 10 + d) 0
        .ok (some (if (sign rest).1 then -n else n), more)
    else .ok (none, .char c :: rest)
  | gs => .ok (none, gs)

/-- The fraction that the glyphs start with, if they do, and the rest. -/
def scanFraction : List Glyph → Except Fault (List Nat × List Glyph)
  | .char '.' :: rest =>
    let (ds, more) := digits rest
    if ds.isEmpty then .error (missingDigit more) else .ok (ds, more)
  | gs => .ok ([], gs)

/-- The digits in front of the point: a zero, or digits that do not start with one. -/
def scanWhole (gs : List Glyph) : Except Fault (List Nat × List Glyph) :=
  match digits gs with
  | ([], rest) => .error (missingDigit rest)
  | (0 :: _ :: _, _) => .error .malformed
  | (ds, rest) => .ok (ds, rest)

/-- The numeral that the glyphs start with, and the rest. -/
def scan (gs : List Glyph) : Except Fault (Numeral × List Glyph) := do
  let (whole, rest) ← scanWhole (minus gs).2
  let (fraction, rest) ← scanFraction rest
  let (exponent, rest) ← scanExponent rest
  return (⟨(minus gs).1, whole, fraction, exponent⟩, rest)

end Numeral

end Json
end Suggest
