/-
# Lower case of the first part of a text

Lower case takes the first part of a text to the first part of its lower case, but for one thing: a capital sigma at the end
of a word depends on what follows it.  If the first part ends with the sigma and the word goes on behind it (`CutsSigma`),
there is a final sigma in the one and a plain one in the other, and in no other case do they differ
(`lowerAfter_prefix_iff`, `lower_prefix_iff`).
-/

import Suggest.Text.Case

namespace Suggest
namespace Text

/-- Whether a capital sigma ends a word in `cs`, which follows the characters `before`, nearest first, but not if `rest`
follows. -/
def CutsSigma (before cs rest : List Char) : Prop :=
  ∃ more ignored, cs = more ++ 'Σ' :: ignored ∧ ignored.all caseIgnorableCharacters.contains = true ∧
    startsCased (more.reverse ++ before) = true ∧ startsCased rest = true

theorem cutsSigma_cons {before cs rest : List Char} {c : Char} :
    CutsSigma before (c :: cs) rest ↔
      (c = 'Σ' ∧ cs.all caseIgnorableCharacters.contains = true ∧ startsCased before = true ∧ startsCased rest = true) ∨
        CutsSigma (c :: before) cs rest := by
  constructor
  · rintro ⟨more, ignored, hcs, hignored, hbefore, hrest⟩
    cases more with
    | nil =>
      obtain ⟨rfl, rfl⟩ := List.cons.inj hcs
      exact .inl ⟨rfl, hignored, hbefore, hrest⟩
    | cons d more =>
      obtain ⟨rfl, rfl⟩ := List.cons.inj hcs
      rw [List.reverse_cons, List.append_assoc] at hbefore
      exact .inr ⟨more, ignored, rfl, hignored, hbefore, hrest⟩
  · rintro (⟨rfl, hignored, hbefore, hrest⟩ | ⟨more, ignored, rfl, hignored, hbefore, hrest⟩)
    · exact ⟨[], cs, rfl, hignored, hbefore, hrest⟩
    · refine ⟨c :: more, ignored, rfl, hignored, ?_, hrest⟩
      rwa [List.reverse_cons, List.append_assoc]

/-- The first character that is not case-ignorable is one of the first part, if there is any. -/
theorem startsCased_append (cs ds : List Char) :
    startsCased (cs ++ ds) = if cs.all caseIgnorableCharacters.contains then startsCased ds else startsCased cs := by
  induction cs with
  | nil => rfl
  | cons c rest ih =>
    rw [List.cons_append, startsCased, startsCased, ih, List.all_cons]
    cases caseIgnorableCharacters.contains c <;> rfl

theorem startsCased_of_all {cs : List Char} (h : cs.all caseIgnorableCharacters.contains = true) :
    startsCased cs = false := by
  have happend := startsCased_append cs []
  rwa [List.append_nil, if_pos h] at happend

/-- **The lower case of the first part is a first part,** unless a sigma is cut off. -/
theorem lowerAfter_prefix_iff (before cs rest : List Char) :
    lowerAfter before cs <+: lowerAfter before (cs ++ rest) ↔ ¬CutsSigma before cs rest := by
  induction cs generalizing before with
  | nil =>
    refine iff_of_true (List.nil_prefix) ?_
    rintro ⟨more, ignored, hcs, -⟩
    simp at hcs
  | cons c cs ih =>
    rw [List.cons_append, lowerAfter, lowerAfter, cutsSigma_cons, not_or, ← ih]
    by_cases hc : c = 'Σ'
    · rw [if_pos hc, if_pos hc, List.singleton_append, List.singleton_append, List.cons_prefix_cons, startsCased_append]
      refine and_congr_left fun _ => ?_
      have hcased : cs.all caseIgnorableCharacters.contains = true → startsCased cs = false := startsCased_of_all
      cases hignored : cs.all caseIgnorableCharacters.contains with
      | false => simp
      | true =>
        rw [hcased hignored]
        cases startsCased before <;> cases startsCased rest <;> simp [hc]
    · rw [if_neg hc, if_neg hc, List.prefix_append_right_inj]
      simp [hc]

/-- **So it is with whole texts.** -/
theorem lower_prefix_iff {first text : String} {rest : List Char} (h : text.toList = first.toList ++ rest) :
    (lower first).toList <+: (lower text).toList ↔ ¬CutsSigma [] first.toList rest := by
  rw [toList_lower, toList_lower, h]
  exact lowerAfter_prefix_iff [] first.toList rest

/-- A sigma at the end of the first word, behind which the word would go on. -/
example : CutsSigma [] "ΑΣ".toList "Β".toList ∧ ¬CutsSigma [] "ΑΣ".toList " Β".toList :=
  ⟨⟨['Α'], [], rfl, rfl, by decide +kernel, by decide +kernel⟩, fun ⟨_, _, _, _, _, h⟩ => absurd h (by decide +kernel)⟩

end Text
end Suggest
