/-
# Written strings are read back

Every character of a string is written as one piece: as itself, behind a backslash, or as the number of a control
character (`Literal.piece`).  The scanner finds the pieces again one by one (`scan_escape`), stops at the closing quote and
leaves what stands behind it (`scan_string`), and the pieces stand for the characters they came from
(`characters_pieces`).
-/

import Suggest.Json.Literal
import Suggest.Json.Writing

namespace Suggest
namespace Json
namespace Literal

open Text (Glyph)

/-- The piece that a written character is scanned as. -/
def piece (c : Char) : Piece :=
  if c = '\x08' ∨ c = '\x0c' ∨ c = '\n' ∨ c = '\r' ∨ c = '\t' then .char c
  else if c.toNat < 0x20 then .escaped c.toNat
  else .char c

theorem hexDigit?_digitChar {n : Nat} (h : n < 16) : hexDigit? (.char (Nat.digitChar n)) = some n := by
  have : ∀ m : Fin 16, hexDigit? (.char (Nat.digitChar m.val)) = some m.val := by decide
  exact this ⟨n, h⟩

/-- The number of a control character is read back from its two digits. -/
theorem hexNumber?_control {n : Nat} (h : n < 0x20) :
    hexNumber? (.char '0') (.char '0') (.char (Nat.digitChar (n / 16))) (.char (Nat.digitChar (n % 16))) = some n := by
  have h0 : hexDigit? (.char '0') = some 0 := by decide
  simp only [hexNumber?, h0, hexDigit?_digitChar (show n / 16 < 16 by omega),
    hexDigit?_digitChar (show n % 16 < 16 by omega), Option.bind_eq_bind, Option.bind_some, Option.pure_def]
  congr 1
  omega

/-- A character that is neither a quote nor a backslash nor a control character stands for itself. -/
theorem scan_char_of_plain {c : Char} (hquote : c ≠ '"') (hslash : c ≠ '\\') (hcontrol : ¬c.toNat < 0x20)
    (rest : List Glyph) : scan (.char c :: rest) = cons (.char c) (scan rest) := by
  rw [scan.eq_def]
  split
  case h_5 heq =>
    cases heq
    rw [if_neg hquote, if_neg hslash, if_neg hcontrol]
  all_goals simp_all

/-- **A written character is one piece,** whatever follows it. -/
theorem scan_escape (c : Char) (rest : List Glyph) :
    scan ((escape c).map .char ++ rest) = cons (piece c) (scan rest) := by
  by_cases hshort : c = '"' ∨ c = '\\' ∨ c = '\x08' ∨ c = '\x0c' ∨ c = '\n' ∨ c = '\r' ∨ c = '\t'
  · rcases hshort with rfl | rfl | rfl | rfl | rfl | rfl | rfl <;> simp [escape, scan, escape?, piece]
  · simp only [not_or] at hshort
    obtain ⟨hquote, hslash, hb, hf, hn, hr, ht⟩ := hshort
    by_cases hcontrol : c.toNat < 0x20
    · have hwritten : escape c = ['\\', 'u', '0', '0', Nat.digitChar (c.toNat / 16), Nat.digitChar (c.toNat % 16)] := by
        simp [escape, *]
      simp only [hwritten, List.map_cons, List.map_nil, List.cons_append, List.nil_append]
      rw [scan, hexNumber?_control hcontrol]
      simp [piece, *]
    · have hwritten : escape c = [c] := by simp [escape, *]
      simp only [hwritten, List.map_cons, List.map_nil, List.cons_append, List.nil_append]
      rw [scan_char_of_plain hquote hslash hcontrol]
      simp [piece, hcontrol]

/-- The pieces of a written string end at its closing quote. -/
theorem scan_string (cs : List Char) (rest : List Glyph) :
    scan ((cs.flatMap escape ++ ['"']).map .char ++ rest) = (⟨cs.map piece, none⟩, rest) := by
  induction cs with
  | nil => simp [scan]
  | cons c cs ih =>
    simp only [List.flatMap_cons, List.append_assoc, List.map_append] at ih ⊢
    rw [scan_escape, ih]
    rfl

theorem characters_cons_escaped {n : Nat} (h : n < 0x20) (stop : Option Fault) (pieces : List Piece) :
    characters stop (.escaped n :: pieces) = (characters stop pieces).map (Char.ofNat n :: ·) := by
  have htrail : isTrailing n = false := by simp [isTrailing]; omega
  have hlead : isLeading n = false := by simp [isLeading]; omega
  rw [characters.eq_def]
  split <;> simp_all

/-- The pieces of a written string stand for its characters. -/
theorem characters_pieces (cs : List Char) : characters none (cs.map piece) = .ok cs := by
  induction cs with
  | nil => rfl
  | cons c cs ih =>
    rw [List.map_cons, piece]
    split
    · rw [characters, ih]; rfl
    split
    · next hcontrol =>
      rw [characters_cons_escaped hcontrol, ih]
      simp [Except.map, Char.ofNat_toNat]
    · rw [characters, ih]; rfl

theorem content_pieces (s : String) : (⟨s.toList.map piece, none⟩ : Literal).content = .ok s := by
  rw [content, characters_pieces]
  simp [Except.map]

end Literal
end Json
end Suggest
