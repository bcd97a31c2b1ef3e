/-
# Natural numbers in texts

A number in a query or an argument is one or more decimal digits, with a plus sign in front of them or not, and it may
not be greater than a given number.
-/

namespace Suggest
namespace Text

/-- The number of decimal digits. -/
def digitsValue (digits : List Char) : Nat := digits.foldl (fun n c => n * 10 + (c.toNat - 48)) 0

/-- The characters without a plus sign in front. -/
def unsigned : List Char → List Char
  | '+' :: rest => rest
  | cs => cs

/-- The number that a text stands for. -/
def natural? (greatest : Nat) (text : String) : Option Nat :=
  let digits := unsigned text.toList
  if digits.isEmpty || !digits.all Char.isDigit || greatest < digitsValue digits then none
  else some (digitsValue digits)

/-- What is read is not greater than allowed. -/
theorem le_of_natural? {greatest n : Nat} {text : String} (h : natural? greatest text = some n) : n ≤ greatest := by
  simp only [natural?] at h
  split at h
  · cases h
  · next hn =>
    simp only [Bool.or_eq_true, Bool.not_eq_true', decide_eq_true_eq, not_or] at hn
    cases h
    omega

end Text
end Suggest
