/-
# Lower case

Texts are compared after `lower`, which maps each character to its lower case. Two characters need more than a table:

* the capital sigma `Σ` becomes the final sigma `ς` where it ends a word, that is, where a cased character stands
  before it and none after it, looking through case-ignorable characters on both sides, and `σ` elsewhere;
* the capital dotted `İ` becomes `i` and a combining dot above.

So the lower case of a character can depend on the characters around it, and lower case can be longer than the text.
-/

import Suggest.Text.CaseTable

namespace Suggest
namespace Text

/-- The run of the ascending list that `n` belongs to, if any. -/
def lowerRun? (n : Nat) : List LowerRun → Option LowerRun
  | [] => none
  | r :: rest =>
    if n < r.first then none
    else if n ≤ r.last && (n - r.first) % r.step = 0 then some r
    else lowerRun? n rest

/-- The lower case of a character by itself. -/
def lowerChar (c : Char) : List Char :=
  if c = 'İ' then ['i', '\u0307']
  else match lowerRun? c.toNat lowerRuns with
    | some r => [Char.ofNat (c.toNat - r.first + r.lower)]
    | none => [c]

/-- Whether the first character that is not case-ignorable is cased. -/
def startsCased : List Char → Bool
  | [] => false
  | c :: rest => if caseIgnorableCharacters.contains c then startsCased rest else casedCharacters.contains c

/-- The lower case of `rest`, which follows the characters `before`, nearest first. -/
def lowerAfter (before : List Char) : List Char → List Char
  | [] => []
  | c :: rest =>
    (if c = 'Σ' then [if startsCased before && !startsCased rest then 'ς' else 'σ'] else lowerChar c) ++
      lowerAfter (c :: before) rest

/-- The lower case of a sequence of characters. -/
def lowerChars (cs : List Char) : List Char := lowerAfter [] cs

/-- The lower case of a text. -/
def lower (text : String) : String := String.ofList (lowerChars text.toList)

@[simp] theorem lower_empty : lower "" = "" := rfl

theorem toList_lower (text : String) : (lower text).toList = lowerChars text.toList := by
  simp [lower]

end Text
end Suggest
