/-
# Reading strings

A literal is what stands between the quotes of a string, piece by piece, together with what is wrong with its spelling.
Its content needs more than a good spelling: escaped surrogates must come in pairs, and bytes that are no text are
refused. A reader that skips a string looks at its spelling only.
-/

import Suggest.Json.Fault
import Suggest.Text.Utf8

namespace Suggest
namespace Json

open Text (Glyph)

/-- A part of a string's text: a character, the number behind `\u`, or bytes that are none. -/
inductive Piece where
  | char (c : Char)
  | escaped (unit : Nat)
  | stray
  deriving DecidableEq, Repr

/-- The pieces of a string up to its closing quote, or up to what is wrong with its spelling. -/
structure Literal where
  pieces : List Piece
  stop : Option Fault
  deriving DecidableEq, Repr

namespace Literal

/-- A scanned literal with a piece in front. -/
def cons (p : Piece) (scanned : Literal × List Glyph) : Literal × List Glyph :=
  (⟨p :: scanned.1.pieces, scanned.1.stop⟩, scanned.2)

/-- The character that a letter stands for after a backslash. -/
def escape? (c : Char) : Option Char :=
  if c = '"' ∨ c = '\\' ∨ c = '/' then some c
  else if c = 'b' then some '\x08'
  else if c = 'f' then some '\x0c'
  else if c = 'n' then some '\n'
  else if c = 'r' then some '\r'
  else if c = 't' then some '\t'
  else none

/-- The value of a hexadecimal digit. -/
def hexDigit? : Glyph → Option Nat
  | .char c =>
    if '0' ≤ c ∧ c ≤ '9' then some (c.toNat - 48)
    else if 'a' ≤ c ∧ c ≤ 'f' then some (c.toNat - 87)
    else if 'A' ≤ c ∧ c ≤ 'F' then some (c.toNat - 55)
    else none
  | .stray _ => none

/-- The number of four hexadecimal digits. -/
def hexNumber? (a b c d : Glyph) : Option Nat := do
  return (((← hexDigit? a) * 16 + (← hexDigit? b)) * 16 + (← hexDigit? c)) * 16 + (← hexDigit? d)

/-- What is wrong with glyphs that do not start with four hexadecimal digits: they end if they are fewer than four
bytes. -/
def badNumber (gs : List Glyph) : Fault :=
  if (gs.take 4).foldl (fun bytes g => bytes + g.size) 0 < 4 then .ended else .malformed

/-- The literal behind an opening quote, and the glyphs behind its closing quote. -/
def scan : List Glyph → Literal × List Glyph
  | [] => (⟨[], some .ended⟩, [])
  | .stray _ :: rest => cons .stray (scan rest)
  | .char '\\' :: .char 'u' :: a :: b :: c :: d :: rest =>
    match hexNumber? a b c d with
    | some n => cons (.escaped n) (scan rest)
    | none => (⟨[], some (badNumber (a :: b :: c :: d :: rest))⟩, [])
  | .char '\\' :: .char e :: rest =>
    if e = 'u' then (⟨[], some (badNumber rest)⟩, [])
    else match escape? e with
      | some c => cons (.char c) (scan rest)
      | none => (⟨[], some .malformed⟩, [])
  | .char c :: rest =>
    if c = '"' then (⟨[], none⟩, rest)
    else if c = '\\' then (⟨[], some (if rest.isEmpty then .ended else .malformed)⟩, [])
    else if c.toNat < 0x20 then (⟨[], some .malformed⟩, [])
    else cons (.char c) (scan rest)

/-- Whether the number starts a surrogate pair. -/
def isLeading (n : Nat) : Bool := 0xD800 ≤ n && n < 0xDC00

/-- Whether the number ends a surrogate pair. -/
def isTrailing (n : Nat) : Bool := 0xDC00 ≤ n && n < 0xE000

/-- The characters of pieces that end as `stop` says. -/
def characters (stop : Option Fault) : List Piece → Except Fault (List Char)
  | [] => match stop with
    | none => .ok []
    | some fault => .error fault
  | .char c :: rest => (characters stop rest).map (c :: ·)
  | .stray :: rest => match characters stop rest with
    | .ok _ => .error .malformed
    | .error fault => .error fault
  | .escaped n :: .escaped m :: rest =>
    if isTrailing n then .error .malformed
    else if isLeading n then
      if isTrailing m then
        (characters stop rest).map (Char.ofNat ((n - 0xD800) * 1024 + (m - 0xDC00) + 0x10000) :: ·)
      else .error .malformed
    else (characters stop (.escaped m :: rest)).map (Char.ofNat n :: ·)
  | .escaped n :: rest =>
    if isTrailing n then .error .malformed
    else if isLeading n then .error (if rest.isEmpty then stop.getD .malformed else .malformed)
    else (characters stop rest).map (Char.ofNat n :: ·)

/-- The text a literal stands for, or the first fault in it. -/
def content (l : Literal) : Except Fault String := (characters l.stop l.pieces).map String.ofList

end Literal

end Json
end Suggest
