/-
# UTF-8

Texts as bytes and back. Reading never fails: a byte sequence is read as glyphs, each of which is a character or the
longest start of a character's encoding that breaks off (`Glyph.stray`), so that a reader can decide what a break
means where it stands. `lossy` puts the replacement character for each break; `text?` refuses them.

The first byte of a character fixes how many bytes follow and bounds the second one, which excludes surrogates, overlong
forms and numbers above `0x10FFFF`:

| first byte | bytes that follow | second byte |
| --- | ---: | --- |
| `00`–`7F` | 0 | |
| `C2`–`DF` | 1 | `80`–`BF` |
| `E0` | 2 | `A0`–`BF` |
| `E1`–`EC`, `EE`, `EF` | 2 | `80`–`BF` |
| `ED` | 2 | `80`–`9F` |
| `F0` | 3 | `90`–`BF` |
| `F1`–`F3` | 3 | `80`–`BF` |
| `F4` | 3 | `80`–`8F` |
-/

namespace Suggest

/-- A sequence of bytes. -/
abbrev Bytes := List UInt8

namespace Text

/-- What a reader of bytes sees: a character, or some bytes that are none. -/
inductive Glyph where
  | char (c : Char)
  | stray (bytes : Nat)
  deriving DecidableEq, Repr

namespace Glyph

/-- The number of bytes the glyph was read from. -/
def size : Glyph → Nat
  | .char c => c.utf8Size
  | .stray bytes => bytes

/-- The character, if the glyph is one. -/
def char? : Glyph → Option Char
  | .char c => some c
  | .stray _ => none

end Glyph

/-- The encoding of a character sequence. -/
def utf8 (cs : List Char) : Bytes := cs.flatMap String.utf8EncodeChar

/-- The encoding of a text. -/
def bytes (text : String) : Bytes := utf8 text.toList

/-- A character of which some bytes have been read: the value so far, how many bytes it still asks for, the bounds of the
next one, and how many there were. -/
structure Begun where
  value : Nat
  owed : Nat
  low : Nat
  high : Nat
  seen : Nat

/-- What a first byte above `7F` begins. -/
def begun? (b : Nat) : Option Begun :=
  if 0xC2 ≤ b ∧ b ≤ 0xDF then some ⟨b % 32, 1, 0x80, 0xBF, 1⟩
  else if 0xE0 ≤ b ∧ b ≤ 0xEF then
    some ⟨b % 16, 2, if b = 0xE0 then 0xA0 else 0x80, if b = 0xED then 0x9F else 0xBF, 1⟩
  else if 0xF0 ≤ b ∧ b ≤ 0xF4 then
    some ⟨b % 8, 3, if b = 0xF0 then 0x90 else 0x80, if b = 0xF4 then 0x8F else 0xBF, 1⟩
  else none

/-- A byte between characters: the glyphs it completes and what it begins. -/
def firstByte (b : Nat) : List Glyph × Option Begun :=
  if b < 0x80 then ([.char (Char.ofNat b)], none)
  else match begun? b with
    | some g => ([], some g)
    | none => ([.stray 1], none)

/-- A byte after a character has begun. -/
def nextByte (g : Begun) (b : Nat) : List Glyph × Option Begun :=
  if g.low ≤ b ∧ b ≤ g.high then
    if g.owed ≤ 1 then ([.char (Char.ofNat (g.value * 64 + b % 64))], none)
    else ([], some ⟨g.value * 64 + b % 64, g.owed - 1, 0x80, 0xBF, g.seen + 1⟩)
  else (.stray g.seen :: (firstByte b).1, (firstByte b).2)

/-- The glyphs of the bytes that follow the begun character, if one is begun. -/
def glyphsAfter : Option Begun → Bytes → List Glyph
  | none, [] => []
  | some g, [] => [.stray g.seen]
  | none, b :: rest => (firstByte b.toNat).1 ++ glyphsAfter (firstByte b.toNat).2 rest
  | some g, b :: rest => (nextByte g b.toNat).1 ++ glyphsAfter (nextByte g b.toNat).2 rest

/-- The glyphs of a byte sequence. -/
def glyphs (bs : Bytes) : List Glyph := glyphsAfter none bs

/-- The glyphs of a text are its characters. -/
def glyphsOf (text : String) : List Glyph := text.toList.map .char

/-- The text with the given encoding, if it is one. -/
def text? (bs : Bytes) : Option String := ((glyphs bs).mapM Glyph.char?).map String.ofList

/-- The text of a byte sequence, with a replacement character for each break. -/
def lossy (bs : Bytes) : String := String.ofList ((glyphs bs).map fun g => g.char?.getD '\uFFFD')

private theorem toNat_lt (c : Char) : c.val.toNat < 0xD800 ∨ 0xDFFF < c.val.toNat ∧ c.val.toNat < 0x110000 := by
  rcases c.valid with h | h
  · exact .inl (by simpa using h)
  · exact .inr (by simpa using h)

private theorem toNat_byte {b : Nat} (h : b < 256) : (UInt8.ofNat b).toNat = b := by simp; omega

private theorem glyphsAfter_first {b : Nat} (hb : b < 256) (h : 0x80 ≤ b) {g : Begun} (hg : begun? b = some g)
    (rest : Bytes) : glyphsAfter none (UInt8.ofNat b :: rest) = glyphsAfter (some g) rest := by
  rw [glyphsAfter, toNat_byte hb, firstByte, if_neg (by omega), hg]
  rfl

private theorem glyphsAfter_more {b value owed low high seen : Nat} (hb : b < 256) (hlow : low ≤ b) (hhigh : b ≤ high)
    (h : 1 < owed) (rest : Bytes) :
    glyphsAfter (some ⟨value, owed, low, high, seen⟩) (UInt8.ofNat b :: rest) =
      glyphsAfter (some ⟨value * 64 + b % 64, owed - 1, 0x80, 0xBF, seen + 1⟩) rest := by
  rw [glyphsAfter, toNat_byte hb, nextByte, if_pos ⟨hlow, hhigh⟩, if_neg (by simpa using h)]
  rfl

private theorem glyphsAfter_last {b value low high seen : Nat} (hb : b < 256) (hlow : low ≤ b) (hhigh : b ≤ high)
    (rest : Bytes) :
    glyphsAfter (some ⟨value, 1, low, high, seen⟩) (UInt8.ofNat b :: rest) =
      .char (Char.ofNat (value * 64 + b % 64)) :: glyphsAfter none rest := by
  rw [glyphsAfter, toNat_byte hb, nextByte, if_pos ⟨hlow, hhigh⟩, if_pos (by simp)]
  rfl

/-- Reading the encoding of a character gives the character. -/
theorem glyphsAfter_utf8EncodeChar (c : Char) (rest : Bytes) :
    glyphsAfter none (String.utf8EncodeChar c ++ rest) = .char c :: glyphsAfter none rest := by
  have hc := toNat_lt c
  have hval : Char.ofNat c.val.toNat = c := Char.ofNat_toNat c
  generalize hv : c.val.toNat = v at hc hval
  simp only [String.utf8EncodeChar, hv]
  split
  · have h : v < 256 := by omega
    rw [List.cons_append, glyphsAfter, toNat_byte h, firstByte, if_pos (by omega), hval]
    rfl
  · split
    · have hb : begun? (v / 64 % 32 + 192) = some ⟨v / 64, 1, 0x80, 0xBF, 1⟩ := by
        rw [begun?, if_pos (by omega), show (v / 64 % 32 + 192) % 32 = v / 64 by omega]
      simp only [List.cons_append, List.nil_append]
      rw [glyphsAfter_first (by omega) (by omega) hb, glyphsAfter_last (by omega) (by omega) (by omega),
        show v / 64 * 64 + (v % 64 + 128) % 64 = v by omega, hval]
    · split
      · have hb : begun? (v / 4096 % 16 + 224) = some ⟨v / 4096, 2, if v / 4096 = 0 then 0xA0 else 0x80,
            if v / 4096 = 13 then 0x9F else 0xBF, 1⟩ := by
          rw [begun?, if_neg (by omega), if_pos (by omega), show (v / 4096 % 16 + 224) % 16 = v / 4096 by omega]
          simp only [show v / 4096 % 16 + 224 = 224 ↔ v / 4096 = 0 by omega,
            show v / 4096 % 16 + 224 = 237 ↔ v / 4096 = 13 by omega]
        simp only [List.cons_append, List.nil_append]
        rw [glyphsAfter_first (by omega) (by omega) hb,
          glyphsAfter_more (by omega) (by split <;> omega) (by split <;> omega) (by omega),
          glyphsAfter_last (by omega) (by omega) (by omega),
          show (v / 4096 * 64 + (v / 64 % 64 + 128) % 64) * 64 + (v % 64 + 128) % 64 = v by omega, hval]
      · have hb : begun? (v / 262144 % 8 + 240) = some ⟨v / 262144, 3, if v / 262144 = 0 then 0x90 else 0x80,
            if v / 262144 = 4 then 0x8F else 0xBF, 1⟩ := by
          rw [begun?, if_neg (by omega), if_neg (by omega), if_pos (by omega),
            show (v / 262144 % 8 + 240) % 8 = v / 262144 by omega]
          simp only [show v / 262144 % 8 + 240 = 240 ↔ v / 262144 = 0 by omega,
            show v / 262144 % 8 + 240 = 244 ↔ v / 262144 = 4 by omega]
        simp only [List.cons_append, List.nil_append]
        rw [glyphsAfter_first (by omega) (by omega) hb,
          glyphsAfter_more (by omega) (by split <;> omega) (by split <;> omega) (by omega),
          glyphsAfter_more (by omega) (by omega) (by omega) (by omega),
          glyphsAfter_last (by omega) (by omega) (by omega),
          show ((v / 262144 * 64 + (v / 4096 % 64 + 128) % 64) * 64 + (v / 64 % 64 + 128) % 64) * 64 +
            (v % 64 + 128) % 64 = v by omega, hval]

/-- **Reading undoes encoding:** the glyphs of an encoded text are its characters. -/
theorem glyphs_utf8 (cs : List Char) : glyphs (utf8 cs) = cs.map .char := by
  unfold glyphs utf8
  induction cs with
  | nil => rfl
  | cons c rest ih => rw [List.flatMap_cons, glyphsAfter_utf8EncodeChar, ih, List.map_cons]

theorem glyphs_bytes (text : String) : glyphs (bytes text) = glyphsOf text := glyphs_utf8 _

@[simp] theorem text?_bytes (text : String) : text? (bytes text) = some text := by
  have h : ∀ cs : List Char, (cs.map Glyph.char).mapM Glyph.char? = some cs := fun cs => by
    induction cs with
    | nil => rfl
    | cons c rest ih => simp [List.mapM_cons, ih, Glyph.char?]
  rw [text?, glyphs_bytes, glyphsOf, h]
  simp

end Text
end Suggest
