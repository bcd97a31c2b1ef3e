/-
# Texts of lines

A byte that is the encoding of a character by itself stands in no encoding of another one (`mem_utf8_iff`).  So a text of
lines in which there is no line feed, and none of which ends with a carriage return, has these lines (`lines_unlines`).
-/

import Suggest.Proofs.Text.Occurrences
import Suggest.Text.Line

namespace Suggest
namespace Text

variable {c d : Char} {b : UInt8}

/-- A byte that encodes a character by itself encodes no other one, and no part of another one. -/
theorem mem_utf8EncodeChar_iff (hd : String.utf8EncodeChar d = [b]) : b ∈ String.utf8EncodeChar c ↔ c = d := by
  constructor
  · intro hb
    obtain ⟨first, more, hc, -, hgoing⟩ := exists_utf8EncodeChar_eq_cons c
    obtain ⟨_, _, hb', hfirst, -⟩ := exists_utf8EncodeChar_eq_cons d
    obtain ⟨rfl, rfl⟩ := List.cons.inj (hd.symm.trans hb')
    rw [hc, List.mem_cons] at hb
    obtain rfl := hb.resolve_right fun hb => hgoing b hb hfirst
    -- so the encoding of the one starts with that of the other
    have hprefix : utf8 [d] <+: utf8 [c] := ⟨more, by simp [utf8, hd, hc]⟩
    exact (List.cons_prefix_cons.1 (utf8_prefix_iff.1 hprefix)).1.symm
  · rintro rfl
    simp [hd]

theorem mem_utf8_iff (hd : String.utf8EncodeChar d = [b]) {cs : List Char} : b ∈ utf8 cs ↔ d ∈ cs := by
  rw [utf8, List.mem_flatMap]
  simp only [mem_utf8EncodeChar_iff hd, exists_eq_right]

theorem utf8EncodeChar_lineFeed : String.utf8EncodeChar '\n' = [10] := by decide +kernel

theorem utf8EncodeChar_carriageReturn : String.utf8EncodeChar '\r' = [13] := by decide +kernel

theorem getLast?_utf8 {cs : List Char} (h : (utf8 cs).getLast? = some 13) : cs.getLast? = some '\r' := by
  induction cs using List.reverseRecOn with
  | nil => cases h
  | append_singleton cs c =>
    obtain ⟨first, more, hc, -⟩ := exists_utf8EncodeChar_eq_cons c
    have hlast : (13 : UInt8) ∈ String.utf8EncodeChar c := by
      rw [utf8_append, utf8_cons, utf8_nil, List.append_nil, hc, List.getLast?_append_of_ne_nil _ (List.cons_ne_nil _ _)] at h
      rw [hc]
      exact List.mem_of_getLast? h
    rw [List.getLast?_append_of_ne_nil _ (List.cons_ne_nil _ _), (mem_utf8EncodeChar_iff utf8EncodeChar_carriageReturn).1 hlast]
    rfl

theorem bytes_unlines_cons (line : String) (more : List String) :
    bytes (unlines (line :: more)) = bytes line ++ 10 :: bytes (unlines more) := by
  have hfeed : utf8 "\n".toList = [10] := utf8EncodeChar_lineFeed
  rw [unlines, List.map_cons, String.join_cons, bytes, String.toList_append, String.toList_append, utf8_append, utf8_append,
    hfeed, List.append_assoc]
  rfl

theorem splitOn_bytes_unlines {lines : List String} (h : ∀ line ∈ lines, '\n' ∉ line.toList) :
    (bytes (unlines lines)).splitOn 10 = lines.map bytes ++ [[]] := by
  induction lines with
  | nil => rfl
  | cons line more ih =>
    obtain ⟨hline, hmore⟩ := List.forall_mem_cons.1 h
    have hfeed : ∀ b ∈ bytes line, (b == 10) = false := fun b hb =>
      beq_eq_false_iff_ne.2 fun hb' => hline ((mem_utf8_iff utf8EncodeChar_lineFeed).1 (hb' ▸ hb))
    rw [bytes_unlines_cons, List.splitOn, List.splitOnP_append_cons_of_forall_mem hfeed 10 rfl]
    exact congrArg (bytes line :: ·) (ih hmore)

/-- **A text of lines has these lines.** -/
theorem lines_unlines {lines : List String}
    (h : ∀ line ∈ lines, '\n' ∉ line.toList ∧ line.toList.getLast? ≠ some '\r') :
    Text.lines (bytes (unlines lines)) = lines.map bytes := by
  have hends : ∀ line ∈ lines.map bytes, (if line.getLast? = some 13 then line.dropLast else line) = line :=
    List.forall_mem_map.2 fun line hline => if_neg fun hlast => (h line hline).2 (getLast?_utf8 hlast)
  rw [Text.lines, splitOn_bytes_unlines fun line hline => (h line hline).1]
  split
  · next hnil => simp at hnil
  · simp only [List.dropLast_concat, List.getLastD_concat, if_true, List.append_nil]
    rw [List.map_congr_left hends, List.map_id']

end Text
end Suggest
