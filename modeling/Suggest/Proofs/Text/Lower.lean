/-
# What lower case does not have

No Latin capital is left in a text in lower case (`not_isCapital_of_mem_lower`): the first run of the table takes them all
away, and nothing is mapped to them.  Nor is any other character left that would be mapped to another (`isSettled_of_mem_lower`),
so lower case leaves what it returns as it is (`lower_lower`).  And no character outside the class is left in a word
(`isWordChar_of_mem_words`).
-/

import Suggest.Text.Word

namespace Suggest
namespace Text

/-- Whether a character is one of the 26 Latin capitals. -/
def IsCapital (c : Char) : Prop := 0x41 ≤ c.toNat ∧ c.toNat ≤ 0x5A

theorem le_lower_of_mem_lowerRuns : ∀ r ∈ lowerRuns, 0x61 ≤ r.lower := by decide +kernel

theorem lowerRuns_eq_cons : ∃ rest, lowerRuns = ⟨0x41, 0x5A, 1, 0x61⟩ :: rest := ⟨_, rfl⟩

theorem mem_of_lowerRun?_eq_some {n : Nat} {runs : List LowerRun} {r : LowerRun} (h : lowerRun? n runs = some r) :
    r ∈ runs := by
  induction runs with
  | nil => cases h
  | cons s rest ih =>
    rw [lowerRun?] at h
    split at h
    · cases h
    split at h
    · cases h
      simp
    · simp [ih h]

/-- A capital belongs to the first run. -/
theorem lowerRun?_ne_none_of_isCapital {c : Char} (h : IsCapital c) : lowerRun? c.toNat lowerRuns ≠ none := by
  obtain ⟨rest, hrest⟩ := lowerRuns_eq_cons
  obtain ⟨hlow, hhigh⟩ := h
  rw [hrest, lowerRun?, if_neg (Nat.not_lt.2 hlow), if_pos (by simp [hhigh, Nat.mod_one])]
  exact Option.some_ne_none _

theorem not_isCapital_ofNat {n : Nat} (h : 0x61 ≤ n) : ¬IsCapital (Char.ofNat n) := by
  by_cases hvalid : n.isValidChar
  · have hchar : Char.ofNat n = Char.ofNatAux n hvalid := dif_pos hvalid
    have hnat : (Char.ofNatAux n hvalid).toNat = n := rfl
    rw [IsCapital, hchar, hnat]
    omega
  · have hchar : Char.ofNat n = '\x00' := dif_neg hvalid
    rw [hchar]
    unfold IsCapital
    decide

theorem not_isCapital_of_mem_lowerChar {c d : Char} (h : d ∈ lowerChar c) : ¬IsCapital d := by
  rw [lowerChar] at h
  split at h
  · rw [List.mem_cons, List.mem_singleton] at h
    rcases h with rfl | rfl <;> unfold IsCapital <;> decide
  · split at h
    · next r hr =>
      rw [List.mem_singleton] at h
      subst h
      have := le_lower_of_mem_lowerRuns r (mem_of_lowerRun?_eq_some hr)
      exact not_isCapital_ofNat (by omega)
    · next hnone =>
      rw [List.mem_singleton] at h
      subst h
      exact fun hc => lowerRun?_ne_none_of_isCapital hc hnone

theorem not_isCapital_of_mem_lowerAfter {before cs : List Char} {d : Char} (h : d ∈ lowerAfter before cs) :
    ¬IsCapital d := by
  induction cs generalizing before with
  | nil => cases h
  | cons c rest ih =>
    rw [lowerAfter, List.mem_append] at h
    rcases h with h | h
    · split at h
      · rw [List.mem_singleton] at h
        split at h <;> subst h <;> unfold IsCapital <;> decide
      · exact not_isCapital_of_mem_lowerChar h
    · exact ih h

/-- **No Latin capital is left in lower case.** -/
theorem not_isCapital_of_mem_lower {text : String} {c : Char} (h : c ∈ (lower text).toList) : ¬IsCapital c := by
  rw [toList_lower] at h
  exact not_isCapital_of_mem_lowerAfter h

/-! ### What lower case leaves as it is -/

/-- Whether lower case leaves a character as it is, whatever is around it. -/
def IsSettled (c : Char) : Prop := c ≠ 'Σ' ∧ lowerChar c = [c]

instance (c : Char) : Decidable (IsSettled c) := inferInstanceAs (Decidable (_ ∧ _))

/-- How far the code points of a run lie behind its first one. -/
def LowerRun.offsets (r : LowerRun) : List Nat := (List.range (r.last - r.first + 1)).filter (· % r.step = 0)

/-- The code points that the table maps. -/
def mappedPoints : List Nat := lowerRuns.flatMap fun r => r.offsets.map (r.first + ·)

/-- The code points that it maps them to. -/
def lowerPoints : List Nat := lowerRuns.flatMap fun r => r.offsets.map (· + r.lower)

/-- The number that has the bits of a list. -/
def bitsOf : List Nat → Nat
  | [] => 0
  | n :: rest => 1 <<< n ||| bitsOf rest

theorem testBit_bitsOf {n : Nat} {points : List Nat} : (bitsOf points).testBit n = true ↔ n ∈ points := by
  induction points with
  | nil => simp [bitsOf]
  | cons m rest ih =>
    rw [bitsOf, Nat.testBit_or, Bool.or_eq_true, ih, Nat.one_shiftLeft, Nat.testBit_two_pow, decide_eq_true_eq, List.mem_cons,
      eq_comm]

/-- Two lists whose bits are apart have nothing in common. -/
theorem notMem_of_bitsOf_and_eq_zero {l m : List Nat} (h : bitsOf l &&& bitsOf m = 0) {n : Nat} (hl : n ∈ l) : n ∉ m := by
  intro hm
  have hbit : (bitsOf l &&& bitsOf m).testBit n = true := by
    rw [Nat.testBit_and, testBit_bitsOf.2 hl, testBit_bitsOf.2 hm]
    rfl
  rw [h, Nat.zero_testBit] at hbit
  cases hbit

/-- **Nothing is mapped to a code point that is mapped to another.** -/
theorem notMem_mappedPoints {n : Nat} (h : n ∈ lowerPoints) : n ∉ 'Σ'.toNat :: 'İ'.toNat :: mappedPoints :=
  notMem_of_bitsOf_and_eq_zero (by decide +kernel) h

theorem isValidChar_of_mem_lowerPoints : ∀ n ∈ lowerPoints, n.isValidChar := by decide +kernel

theorem lowerRun?_eq_some {n : Nat} {runs : List LowerRun} {r : LowerRun} (h : lowerRun? n runs = some r) :
    r ∈ runs ∧ ∃ i ∈ r.offsets, n = r.first + i := by
  refine ⟨mem_of_lowerRun?_eq_some h, n - r.first, ?_⟩
  induction runs with
  | nil => cases h
  | cons s rest ih =>
    rw [lowerRun?] at h
    split at h
    · cases h
    · next hfirst =>
      split at h
      · next hs =>
        cases h
        simp only [Bool.and_eq_true, decide_eq_true_eq] at hs
        exact ⟨List.mem_filter.2 ⟨List.mem_range.2 (by omega), by simpa using hs.2⟩, by omega⟩
      · exact ih h

theorem lowerRun?_eq_none {n : Nat} (h : n ∉ mappedPoints) : lowerRun? n lowerRuns = none := by
  rw [Option.eq_none_iff_forall_ne_some]
  intro r hr
  obtain ⟨hmem, i, hi, rfl⟩ := lowerRun?_eq_some hr
  exact h (List.mem_flatMap.2 ⟨r, hmem, List.mem_map_of_mem hi⟩)

theorem isSettled_ofNat {n : Nat} (h : n ∈ lowerPoints) : IsSettled (Char.ofNat n) := by
  have hnat : (Char.ofNat n).toNat = n := by
    rw [Char.ofNat, dif_pos (isValidChar_of_mem_lowerPoints n h)]
    rfl
  have hmapped := notMem_mappedPoints h
  simp only [List.mem_cons, not_or] at hmapped
  have hne {c : Char} (hc : n ≠ c.toNat) : Char.ofNat n ≠ c := fun heq => hc (by rw [← heq, hnat])
  refine ⟨hne hmapped.1, ?_⟩
  rw [lowerChar, if_neg (hne hmapped.2.1), hnat, lowerRun?_eq_none hmapped.2.2]

theorem isSettled_of_mem_lowerChar {c d : Char} (hc : c ≠ 'Σ') (h : d ∈ lowerChar c) : IsSettled d := by
  rw [lowerChar] at h
  split at h
  · rw [List.mem_cons, List.mem_singleton] at h
    rcases h with rfl | rfl <;> decide +kernel
  · next hdotted =>
    split at h
    · next r hr =>
      obtain ⟨hmem, i, hi, hn⟩ := lowerRun?_eq_some hr
      rw [List.mem_singleton.1 h, hn, Nat.add_sub_cancel_left]
      exact isSettled_ofNat (List.mem_flatMap.2 ⟨r, hmem, List.mem_map_of_mem hi⟩)
    · next hnone =>
      rw [List.mem_singleton.1 h]
      refine ⟨hc, ?_⟩
      rw [lowerChar, if_neg hdotted, hnone]

theorem isSettled_of_mem_lowerAfter {before cs : List Char} {d : Char} (h : d ∈ lowerAfter before cs) : IsSettled d := by
  induction cs generalizing before with
  | nil => cases h
  | cons c rest ih =>
    rw [lowerAfter, List.mem_append] at h
    rcases h with h | h
    · split at h
      · rw [List.mem_singleton] at h
        split at h <;> subst h <;> decide +kernel
      · next hc => exact isSettled_of_mem_lowerChar hc h
    · exact ih h

theorem isSettled_of_mem_lower {text : String} {c : Char} (h : c ∈ (lower text).toList) : IsSettled c := by
  rw [toList_lower] at h
  exact isSettled_of_mem_lowerAfter h

theorem lowerAfter_of_isSettled (before : List Char) {cs : List Char} (h : ∀ c ∈ cs, IsSettled c) :
    lowerAfter before cs = cs := by
  induction cs generalizing before with
  | nil => rfl
  | cons c rest ih =>
    obtain ⟨hc, hrest⟩ := List.forall_mem_cons.1 h
    rw [lowerAfter, if_neg hc.1, hc.2, ih _ hrest]
    rfl

theorem lower_of_isSettled {text : String} (h : ∀ c ∈ text.toList, IsSettled c) : lower text = text := by
  rw [lower, lowerChars, lowerAfter_of_isSettled [] h, String.ofList_toList]

/-- **Lower case leaves what it returns as it is.** -/
theorem lower_lower (text : String) : lower (lower text) = lower text :=
  lower_of_isSettled fun _ hc => isSettled_of_mem_lower hc

/-! ### Words -/

/-- A word is made of word characters. -/
theorem isWordChar_of_mem_words {text word : String} (h : word ∈ words text) {c : Char} (hc : c ∈ word.toList) :
    isWordChar c = true := by
  obtain ⟨run, hrun, rfl⟩ := List.mem_map.1 h
  have hpiece := all_of_mem_pieces (List.mem_filter.1 (List.mem_filter.1 hrun).1).1
  rw [String.toList_ofList] at hc
  exact List.all_eq_true.1 hpiece c hc

end Text
end Suggest
