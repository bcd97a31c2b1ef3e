/-
# Reading documents

A document is one value with blanks around it. `scan` takes a text apart into the draft of its value and says whether
anything else follows. It never fails: where the text breaks off, the draft says so.

| place | what ends it there |
| --- | --- |
| before a value | `missing`, as `ended` or `malformed` |
| inside `null`, `true` or `false` | `word` |
| inside a string or a number | the `stop` of its lexeme |
| between items or members | the `stop` of the container |
-/

import Suggest.Json.Draft
import Suggest.Json.Literal
import Suggest.Json.Numeral

namespace Suggest
namespace Json

open Text (Glyph)

/-- Whether the character may stand between the parts of a document. -/
def isBlank (c : Char) : Bool := c = ' ' || c = '\t' || c = '\n' || c = '\r'

/-- The glyphs from the first one that is no blank. -/
def skipBlanks : List Glyph → List Glyph
  | .char c :: rest => if isBlank c then skipBlanks rest else .char c :: rest
  | gs => gs

/-- What is wrong with glyphs that start with nothing that could stand there. -/
def unexpected : List Glyph → Fault
  | [] => .ended
  | _ :: _ => .malformed

/-- The glyphs behind the given letters. -/
def scanLetters : List Char → List Glyph → Except Fault (List Glyph)
  | [], gs => .ok gs
  | _ :: _, [] => .error .ended
  | c :: cs, g :: gs => if g = .char c then scanLetters cs gs else .error .malformed

/-- A draft that stands for itself once its letters are complete. -/
def scanWord (d : Draft) (letters : List Char) (gs : List Glyph) : Draft × List Glyph :=
  match scanLetters letters gs with
  | .ok rest => (d, rest)
  | .error fault => (.word fault, [])

/-- The text behind an opening quote. -/
def scanString (gs : List Glyph) : Draft × List Glyph :=
  match Literal.scan gs with
  | (literal, rest) => (.string ⟨literal.content, literal.stop⟩, rest)

/-- A number. A reader that passes over a broken one does not see that the text ends in it. -/
def scanNumber (gs : List Glyph) : Draft × List Glyph :=
  match Numeral.scan gs with
  | .ok (numeral, rest) =>
    (.number ⟨match numeral.number? with
      | some n => .ok n
      | none => .error .malformed, none⟩, rest)
  | .error fault => (.number ⟨.error fault, some .malformed⟩, [])

mutual

/-- The draft that the glyphs start with, behind blanks, and the glyphs behind it. -/
def scanValue : Nat → List Glyph → Draft × List Glyph
  | 0, _ => (.missing .ended, [])
  | fuel + 1, gs =>
    match skipBlanks gs with
    | .char c :: rest =>
      if c = '"' then scanString rest
      else if c = '[' then
        match skipBlanks rest with
        | .char ']' :: more => (.array [] none, more)
        | [] => (.array [] (some .ended), [])
        | more => match scanItems fuel more with
          | (items, stop, rest) => (.array items stop, rest)
      else if c = '{' then
        match skipBlanks rest with
        | .char '}' :: more => (.object [] none, more)
        | [] => (.object [] (some .ended), [])
        | more => match scanMembers fuel more with
          | (members, stop, rest) => (.object members stop, rest)
      else if c = 'n' then scanWord .null ['u', 'l', 'l'] rest
      else if c = 't' then scanWord (.bool true) ['r', 'u', 'e'] rest
      else if c = 'f' then scanWord (.bool false) ['a', 'l', 's', 'e'] rest
      else if c = '-' ∨ '0' ≤ c ∧ c ≤ '9' then scanNumber (.char c :: rest)
      else (.missing .malformed, [])
    | gs => (.missing (unexpected gs), [])

/-- The items up to the end of an array, what is wrong with that end, and the glyphs behind it. -/
def scanItems : Nat → List Glyph → List Draft × Option Fault × List Glyph
  | 0, _ => ([], some .ended, [])
  | fuel + 1, gs =>
    match scanValue fuel gs with
    | (d, rest) =>
      match skipBlanks rest with
      | .char ',' :: more => match scanItems fuel more with
        | (items, stop, rest) => (d :: items, stop, rest)
      | .char ']' :: more => ([d], none, more)
      | more => ([d], some (unexpected more), [])

/-- The members up to the end of an object, what is wrong with that end, and the glyphs behind it. -/
def scanMembers : Nat → List Glyph → List (Draft × Draft) × Option Fault × List Glyph
  | 0, _ => ([], some .ended, [])
  | fuel + 1, gs =>
    match scanValue fuel gs with
    | (k, rest) =>
      match skipBlanks rest with
      | .char ':' :: more => match scanValue fuel more with
        | (d, rest) =>
          match skipBlanks rest with
          | .char ',' :: more => match scanMembers fuel more with
            | (members, stop, rest) => ((k, d) :: members, stop, rest)
          | .char '}' :: more => ([(k, d)], none, more)
          | more => ([(k, d)], some (unexpected more), [])
      | more => ([(k, .missing (unexpected more))], some (unexpected more), [])

end

/-- The draft of a text's value, and what is wrong with the text behind it. -/
structure Document where
  root : Draft
  stop : Option Fault

namespace Document

/-- How deep the containers of a text may be nested. -/
def maxDepth : Nat := 127

/-- Take a text apart. -/
def scan (gs : List Glyph) : Document :=
  match scanValue (2 * gs.length + 2) gs with
  | (root, rest) => ⟨root, if (skipBlanks rest).isEmpty then none else some .malformed⟩

/-- What a reader makes of the value, if nothing else follows it. -/
def read {α : Type} (document : Document) (reader : Draft → Except Fault α) : Except Fault α := do
  let a ← reader document.root
  proceed document.stop
  return a

end Document

/-- The value of a text in which no more than so many documents, the text being one, are embedded in each other. -/
def Value.ofNested : Nat → List Glyph → Except Fault Value
  | 0, _ => .error .malformed
  | documents + 1, gs =>
    let inner (text : String) : Except Fault Value := Value.ofNested documents (Text.glyphsOf text)
    (Document.scan gs).read (Draft.value ⟨some Document.maxDepth, .malformed, .malformed, some inner⟩)

/-- The value of a text. A document is shorter than the one it is embedded in, so there are no more of them than glyphs. -/
def Value.ofGlyphs (gs : List Glyph) : Except Fault Value := Value.ofNested (gs.length + 1) gs

/-- The value that the bytes are the text of. -/
def Value.ofBytes (bytes : Bytes) : Except Fault Value := Value.ofGlyphs (Text.glyphs bytes)

/-- The value that a text stands for. -/
def Value.ofText (text : String) : Except Fault Value := Value.ofGlyphs (Text.glyphsOf text)

namespace Reading

/-- Reading out of a text. -/
def text : Reading := ⟨some Document.maxDepth, .malformed, .malformed, some Value.ofText⟩

/-- Reading out of a value. -/
def value : Reading := ⟨none, .mismatched, .mismatched, some Value.ofText⟩

end Reading

end Json
end Suggest
