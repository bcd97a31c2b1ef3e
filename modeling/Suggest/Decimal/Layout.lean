/-
# Writing decimals

A decimal is written positionally while the exponent of its leading digit is within the bounds of the layout, and with an
exponent beyond them. Positional numbers always have a point with a digit on both sides; an exponent always has a sign.

| number | leading exponent | written in `Layout.double` |
| --- | ---: | --- |
| `12` | 1 | `12.0` |
| `0.00001` | -5 | `0.00001` |
| `10 ^ 16` | 16 | `1e+16` |
| `0.0000015` | -6 | `1.5e-6` |
-/

import Suggest.Decimal.Shortest

namespace Suggest

/-- The least and the greatest exponent of a leading digit that are written positionally. -/
structure Layout where
  least : Int
  greatest : Int

namespace Layout

/-- Numbers with 32 bits. -/
def single : Layout := ⟨-6, 12⟩

/-- Numbers with 64 bits. -/
def double : Layout := ⟨-5, 15⟩

/-- A decimal in positional notation, `lead` being the exponent of its leading digit. -/
def positional (lead : Int) (x : Decimal) : List Char :=
  let ds := Nat.toDigits 10 x.digits
  if 0 ≤ x.exponent then ds ++ List.replicate x.exponent.toNat '0' ++ ['.', '0']
  else if 0 ≤ lead then ds.take (lead.toNat + 1) ++ '.' :: ds.drop (lead.toNat + 1)
  else '0' :: '.' :: List.replicate (-lead - 1).toNat '0' ++ ds

/-- A decimal with an exponent, `lead` being the exponent of its leading digit. -/
def scientific (lead : Int) (x : Decimal) : List Char :=
  let ds := Nat.toDigits 10 x.digits
  let fraction := ds.drop 1
  ds.take 1 ++ (if fraction.isEmpty then [] else '.' :: fraction) ++
    'e' :: (if lead < 0 then '-' else '+') :: Nat.toDigits 10 lead.natAbs

/-- A decimal as the layout has it. -/
def write (l : Layout) (x : Decimal) : List Char :=
  let lead := x.exponent + Decimal.length x.digits - 1
  if l.least ≤ lead ∧ lead ≤ l.greatest then positional lead x else scientific lead x

/-- A number of a binary format in as few digits as name it; infinities and `nan` have no digits. -/
def write? {f : Format} (l : Layout) : Binary f → Option (List Char)
  | .nan | .infinite _ => none
  | .finite negative k =>
    let text := if k.val = 0 then ['0', '.', '0'] else l.write (Decimal.shortest f k.val)
    some (if negative then '-' :: text else text)

end Layout

end Suggest
