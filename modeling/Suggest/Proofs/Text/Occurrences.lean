/-
# Where a text is found, in bytes and in characters

The first byte of a character's encoding is none of those that go on with one, so an encoded text is found in another only
where a character starts (`offset?_append_of_going_on`).  The bytes in front of the place where it is first found are therefore
the encoding of some characters (`offset?_utf8`), and these are the characters in front of the first place where the text stands
in the other character by character (`charOffset?_eq`, `exists_of_byteOffset?`).  The offset in characters is the least one from
which on the rest starts with the text (`charOffset?_eq_some_iff`).
-/

import Mathlib.Order.Bounds.Basic
import Suggest.Proofs.Text.Words

namespace Suggest
namespace Text

/-! ### Encodings -/

@[simp] theorem utf8_nil : utf8 [] = [] := rfl

theorem utf8_cons (c : Char) (cs : List Char) : utf8 (c :: cs) = String.utf8EncodeChar c ++ utf8 cs := rfl

theorem utf8_append (cs ds : List Char) : utf8 (cs ++ ds) = utf8 cs ++ utf8 ds := List.flatMap_append

/-- An encoding starts with a first byte, and goes on with bytes that are none. -/
theorem exists_utf8EncodeChar_eq_cons (c : Char) : ∃ first more, String.utf8EncodeChar c = first :: more ∧
    first.IsUTF8FirstByte ∧ ∀ b ∈ more, ¬b.IsUTF8FirstByte := by
  cases hbytes : String.utf8EncodeChar c with
  | nil => exact absurd hbytes String.utf8EncodeChar_ne_nil
  | cons first more =>
    have hfirst (i : Nat) (hi : i < (first :: more).length) : (first :: more)[i].IsUTF8FirstByte ↔ i = 0 := by
      simp only [← hbytes]
      exact UInt8.isUTF8FirstByte_getElem_utf8EncodeChar
    refine ⟨first, more, rfl, (hfirst 0 (by simp)).2 rfl, fun b hb hstarts => ?_⟩
    obtain ⟨i, hi, rfl⟩ := List.getElem_of_mem hb
    exact absurd ((hfirst (i + 1) (by simpa using hi)).1 hstarts) (Nat.succ_ne_zero i)

/-- Reading an encoded text with something behind it gives its characters first. -/
theorem glyphs_utf8_append (cs : List Char) (rest : Bytes) : glyphs (utf8 cs ++ rest) = cs.map .char ++ glyphs rest := by
  induction cs with
  | nil => rfl
  | cons c cs ih =>
    rw [utf8_cons, List.append_assoc, glyphs, glyphsAfter_utf8EncodeChar, List.map_cons, List.cons_append]
    exact congrArg (Glyph.char c :: ·) ih

/-- An encoded text starts with another exactly if the one text starts with the other. -/
theorem utf8_prefix_iff {needle cs : List Char} : utf8 needle <+: utf8 cs ↔ needle <+: cs := by
  constructor
  · rintro ⟨rest, hrest⟩
    have hglyphs : needle.map Glyph.char <+: cs.map Glyph.char :=
      ⟨glyphs rest, by rw [← glyphs_utf8_append, hrest, glyphs_utf8]⟩
    exact (List.prefix_map_iff_of_injective fun _ _ => Glyph.char.inj).1 hglyphs
  · rintro ⟨rest, rfl⟩
    exact ⟨utf8 rest, (utf8_append needle rest).symm⟩

theorem utf8_isPrefixOf (needle cs : List Char) : (utf8 needle).isPrefixOf (utf8 cs) = needle.isPrefixOf cs := by
  rw [Bool.eq_iff_iff, List.isPrefixOf_iff_prefix, List.isPrefixOf_iff_prefix, utf8_prefix_iff]

/-! ### Places -/

theorem offset?_nil {α : Type} [BEq α] (cs : List α) : offset? [] cs = some 0 := by
  cases cs <;> rfl

/-- What starts with a first byte is not found where an encoding goes on. -/
theorem offset?_append_of_going_on {first : UInt8} {more going rest : Bytes} (hfirst : first.IsUTF8FirstByte)
    (hgoing : ∀ b ∈ going, ¬b.IsUTF8FirstByte) :
    offset? (first :: more) (going ++ rest) = (offset? (first :: more) rest).map (· + going.length) := by
  induction going with
  | nil => simp
  | cons b going ih =>
    have hne : first ≠ b := by
      rintro rfl
      exact hgoing first List.mem_cons_self hfirst
    have ih := ih fun d hd => hgoing d (List.mem_cons_of_mem b hd)
    rw [List.cons_append, offset?, if_neg (by simp [List.isPrefixOf, hne]), ih, Option.map_map]
    rfl

/-- **An encoded text is first found behind the encoding of what stands before its first occurrence.** -/
theorem offset?_utf8 (needle cs : List Char) :
    offset? (utf8 needle) (utf8 cs) = (offset? needle cs).map fun k => (utf8 (cs.take k)).length := by
  cases needle with
  | nil => rw [utf8_nil, offset?_nil, offset?_nil]; rfl
  | cons n needle =>
    obtain ⟨first, more, hn, hfirst, -⟩ := exists_utf8EncodeChar_eq_cons n
    induction cs with
    | nil => rw [utf8_cons, hn]; rfl
    | cons c cs ih =>
      obtain ⟨starting, going, hc, -, hgoing⟩ := exists_utf8EncodeChar_eq_cons c
      have hprefix := utf8_isPrefixOf (n :: needle) (c :: cs)
      rw [utf8_cons c, hc, List.cons_append] at hprefix ⊢
      rw [offset?, offset?, hprefix]
      split
      · rfl
      · rw [utf8_cons n, hn, List.cons_append] at ih ⊢
        rw [offset?_append_of_going_on hfirst hgoing, ih, Option.map_map, Option.map_map, Option.map_map]
        refine congrArg (Option.map · _) (funext fun k => ?_)
        simp only [Function.comp_apply, List.take_succ_cons, utf8_cons, hc, List.length_append, List.length_cons]
        omega

/-- The bytes in front of a character are the encoding of the characters in front of it. -/
theorem take_utf8 (cs : List Char) (k : Nat) : (utf8 cs).take (utf8 (cs.take k)).length = utf8 (cs.take k) := by
  conv_lhs => rw [← List.take_append_drop k cs, utf8_append]
  exact List.take_left' (by rw [List.take_append_drop])

theorem add_length_le_of_offset? {needle cs : List Char} {k : Nat} (h : offset? needle cs = some k) :
    k + needle.length ≤ cs.length := by
  induction cs generalizing k with
  | nil =>
    rw [offset?] at h
    split at h
    · next hempty => cases h; simp [List.isEmpty_iff.1 hempty]
    · cases h
  | cons c rest ih =>
    rw [offset?] at h
    split at h
    · next hprefix =>
      cases h
      rw [Nat.zero_add]
      exact (List.isPrefixOf_iff_prefix.1 hprefix).length_le
    · obtain ⟨j, hj, rfl⟩ := Option.map_eq_some_iff.1 h
      have := ih hj
      rw [List.length_cons]
      omega

/-- **The first occurrence in characters.**  Finding a text byte by byte and counting the characters in front of it comes to the
same as finding it character by character. -/
theorem charOffset?_eq (haystack needle : String) :
    charOffset? haystack needle = offset? needle.toList haystack.toList := by
  rw [charOffset?, byteOffset?, bytes, bytes, offset?_utf8, Option.map_map]
  cases hoffset : offset? needle.toList haystack.toList with
  | none => rfl
  | some k =>
    have hlength := add_length_le_of_offset? hoffset
    rw [Option.map_some, Function.comp_apply, take_utf8, glyphs_utf8, List.length_map, List.length_take]
    exact congrArg some (by omega)

/-- The bytes in front of the place where a text is found are the encoding of the characters in front of it. -/
theorem exists_of_byteOffset? {haystack needle : String} {place : Nat} (h : byteOffset? haystack needle = some place) :
    ∃ k, charOffset? haystack needle = some k ∧ (bytes haystack).take place = utf8 (haystack.toList.take k) := by
  rw [byteOffset?, bytes, bytes, offset?_utf8] at h
  obtain ⟨k, hk, rfl⟩ := Option.map_eq_some_iff.1 h
  exact ⟨k, by rw [charOffset?_eq, hk], take_utf8 haystack.toList k⟩

/-- No earlier rest starts with the needle. -/
theorem offset?_eq_some_iff {needle cs : List Char} {k : Nat} :
    offset? needle cs = some k ↔ IsLeast {j | needle <+: cs.drop j} k := by
  induction cs generalizing k with
  | nil =>
    rw [offset?]
    split
    · next hempty =>
      rw [List.isEmpty_iff.1 hempty]
      have hzero : IsLeast {j | ([] : List Char) <+: ([] : List Char).drop j} 0 := ⟨List.nil_prefix, fun j _ => Nat.zero_le j⟩
      exact ⟨fun h => by cases h; exact hzero, fun h => congrArg some (hzero.unique h)⟩
    · next hne =>
      refine iff_of_false (by simp) fun h => hne ?_
      have hprefix : needle <+: ([] : List Char).drop k := h.1
      rw [List.drop_nil, List.prefix_nil] at hprefix
      exact List.isEmpty_iff.2 hprefix
  | cons c rest ih =>
    rw [offset?]
    split
    · next hprefix =>
      have hzero : IsLeast {j | needle <+: (c :: rest).drop j} 0 :=
        ⟨List.isPrefixOf_iff_prefix.1 hprefix, fun j _ => Nat.zero_le j⟩
      exact ⟨fun h => by cases h; exact hzero, fun h => congrArg some (hzero.unique h)⟩
    · next hprefix =>
      rw [List.isPrefixOf_iff_prefix] at hprefix
      rw [Option.map_eq_some_iff]
      constructor
      · rintro ⟨j, hj, rfl⟩
        obtain ⟨hstarts, hleast⟩ := ih.1 hj
        refine ⟨hstarts, fun i hi => ?_⟩
        cases i with
        | zero => exact absurd hi hprefix
        | succ i => exact Nat.succ_le_succ (hleast hi)
      · rintro ⟨hstarts, hleast⟩
        cases k with
        | zero => exact absurd hstarts hprefix
        | succ k => exact ⟨k, ih.2 ⟨hstarts, fun i hi => Nat.le_of_succ_le_succ (hleast (a := i + 1) hi)⟩, rfl⟩

/-- **The offset is the least one from which on the rest starts with the needle.** -/
theorem charOffset?_eq_some_iff {haystack needle : String} {k : Nat} :
    charOffset? haystack needle = some k ↔ IsLeast {j | needle.toList <+: haystack.toList.drop j} k := by
  rw [charOffset?_eq, offset?_eq_some_iff]

/-- **There is an offset exactly if the needle occurs.** -/
theorem charOffset?_isSome_iff {haystack needle : String} :
    (charOffset? haystack needle).isSome ↔ needle.toList <:+: haystack.toList := by
  rw [charOffset?_eq, offset?_isSome_iff]

end Text
end Suggest
