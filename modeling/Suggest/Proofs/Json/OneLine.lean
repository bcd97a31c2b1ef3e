/-
# Written values stand on one line

A line feed is written as an escape in strings, and there is none in numerals, since no step of the scanner passes over one.  So
the text of a value has no line feed in it (`lineFeed_notMem_write`).
-/

import Suggest.Proofs.Json.Values

namespace Suggest
namespace Json

open Text (Glyph)

namespace Numeral

variable {gs rest : List Glyph}

/-- A line feed in the first glyphs is one in the second ones. -/
def KeepsLineFeed (gs rest : List Glyph) : Prop := .char '\n' ∈ gs → .char '\n' ∈ rest

theorem keepsLineFeed_cons {c : Char} (hc : c ≠ '\n') : KeepsLineFeed (.char c :: rest) rest :=
  fun h => (List.mem_cons.1 h).resolve_left fun heq => hc (Glyph.char.inj heq).symm

theorem keepsLineFeed_digits (gs : List Glyph) : KeepsLineFeed gs (digits gs).2 := by
  intro h
  induction gs with
  | nil => cases h
  | cons g rest ih =>
    rw [digits]
    cases hdigit : digit? g with
    | none => exact h
    | some d =>
      rcases List.mem_cons.1 h with rfl | h
      · cases hdigit
      · exact ih h

theorem keepsLineFeed_minus (gs : List Glyph) : KeepsLineFeed gs (minus gs).2 := by
  unfold minus
  split
  · exact keepsLineFeed_cons (by decide)
  · exact id

theorem keepsLineFeed_sign (gs : List Glyph) : KeepsLineFeed gs (sign gs).2 := by
  unfold sign
  split
  · exact keepsLineFeed_cons (by decide)
  · exact keepsLineFeed_minus _

theorem keepsLineFeed_scanWhole {ds : List Nat} (h : scanWhole gs = .ok (ds, rest)) : KeepsLineFeed gs rest := by
  have hdigits := keepsLineFeed_digits gs
  unfold scanWhole at h
  split at h
  · cases h
  · cases h
  · next heq =>
    cases h
    rwa [heq] at hdigits

theorem keepsLineFeed_scanFraction {ds : List Nat} (h : scanFraction gs = .ok (ds, rest)) : KeepsLineFeed gs rest := by
  unfold scanFraction at h
  split at h
  · next more =>
    dsimp only at h
    split at h
    · cases h
    · cases h
      exact fun hmem => keepsLineFeed_digits more (keepsLineFeed_cons (by decide) hmem)
  · cases h
    exact id

theorem keepsLineFeed_scanExponent {e : Option Int} (h : scanExponent gs = .ok (e, rest)) : KeepsLineFeed gs rest := by
  unfold scanExponent at h
  split at h
  · next c more =>
    split at h
    · next hc =>
      have hne : c ≠ '\n' := by rcases hc with rfl | rfl <;> decide
      dsimp only at h
      split at h
      · cases h
      · cases h
        exact fun hmem => keepsLineFeed_digits _ (keepsLineFeed_sign more (keepsLineFeed_cons hne hmem))
    · cases h
      exact id
  · cases h
    exact id

/-- **The scanner passes over no line feed.** -/
theorem keepsLineFeed_scan {numeral : Numeral} (h : scan gs = .ok (numeral, rest)) : KeepsLineFeed gs rest := by
  simp only [scan, bind_eq_ok, pure_eq_ok] at h
  obtain ⟨⟨whole, rest₁⟩, hwhole, ⟨fraction, rest₂⟩, hfraction, ⟨exponent, rest₃⟩, hexponent, heq⟩ := h
  cases heq
  intro hmem
  exact keepsLineFeed_scanExponent hexponent <| keepsLineFeed_scanFraction hfraction <|
    keepsLineFeed_scanWhole hwhole <| keepsLineFeed_minus gs hmem

end Numeral

theorem IsNumeral.lineFeed_notMem {cs : List Char} (h : IsNumeral cs) : '\n' ∉ cs := by
  obtain ⟨numeral, hscan⟩ := h
  exact fun hmem => nomatch Numeral.keepsLineFeed_scan hscan (List.mem_map_of_mem hmem)

theorem lineFeed_notMem_number (n : Number) : '\n' ∉ n.write := by
  cases n with
  | integer n => exact (isNumeral_integer n).lineFeed_notMem
  | float x =>
    cases x with
    | nan | infinite => exact (by decide : '\n' ∉ null)
    | finite negative k => exact (isNumeral_binary .double (x := .finite negative k) rfl).lineFeed_notMem

theorem lineFeed_notMem_escape (c : Char) : '\n' ∉ escape c := by
  by_cases hc : c = '\n'
  · rw [hc]
    decide
  · unfold escape
    repeat' split
    all_goals simp_all [eq_comm]

theorem lineFeed_notMem_string (s : String) : '\n' ∉ string s := by
  simp [string, lineFeed_notMem_escape]

theorem lineFeed_notMem_separated {parts : List (List Char)} (h : ∀ part ∈ parts, '\n' ∉ part) : '\n' ∉ separated parts := by
  induction parts with
  | nil => simp [separated]
  | cons part rest ih =>
    obtain ⟨hpart, hrest⟩ := List.forall_mem_cons.1 h
    cases rest with
    | nil => exact hpart
    | cons next rest => simp [separated_cons_cons, hpart, ih hrest]

/-- **A written value has no line feed in it.** -/
theorem lineFeed_notMem_write (v : Value) : '\n' ∉ v.write := by
  induction v using Value.induct with
  | null => decide
  | bool b => cases b <;> decide
  | number n => exact lineFeed_notMem_number n
  | string s => exact lineFeed_notMem_string s
  | array items ih =>
    rw [Value.write, writeItems_eq_map, array]
    simp [lineFeed_notMem_separated (List.forall_mem_map.2 ih)]
  | object members ih =>
    rw [Value.write, writeMembers_eq_map, object, List.map_map]
    have hmembers : '\n' ∉ separated (members.map fun m => member m.1 m.2.write) :=
      lineFeed_notMem_separated (List.forall_mem_map.2 fun m hm => by simp [member, lineFeed_notMem_string, ih m hm])
    simpa [Function.comp_def] using hmembers

end Json
end Suggest
