/-
# The order of matches

Of two matches the one with the higher score has to stand before the other, or if their scores are level and frequencies count,
the one with the higher frequency (`Match.before_iff`).  Matches of which every score is a number are in an order, so they can be
sorted (`Match.sort?_of_numbers`), as the merge sort of the library sorts them (`Match.stableSort_eq_mergeSort`).
-/

import Suggest.Proofs.Scores
import Suggest.Trie.Basic

namespace Suggest
namespace Trie

/-- Whether a match may stand ahead of another: its score is higher, or it is not lower and the frequency of its node, where
that counts, is not lower either. -/
def Match.ranks (tieBreak : TieBreak) (a b : Match) : Bool :=
  b.entry.score.less a.entry.score ||
    !a.entry.score.less b.entry.score && (tieBreak = .queriedNode || b.frequency ≤ a.frequency)

theorem Match.before_iff {tieBreak : TieBreak} {a b : Match} :
    before tieBreak a b = true ↔ b.entry.score.less a.entry.score = true ∨
      a.entry.score.less b.entry.score = false ∧ tieBreak = .resultNode ∧ b.frequency < a.frequency := by
  unfold before compareScores
  cases hba : b.entry.score.less a.entry.score with
  | true => simp
  | false =>
    cases a.entry.score.less b.entry.score with
    | true => simp
    | false => cases tieBreak <;> simp

theorem Match.ranks_eq (tieBreak : TieBreak) (a b : Match) : ranks tieBreak a b = !before tieBreak b a := by
  rw [Bool.eq_iff_iff, Bool.not_eq_true', ← Bool.not_eq_true, before_iff, ranks]
  cases hba : b.entry.score.less a.entry.score with
  | true => simp [Binary.less_asymm hba]
  | false => cases tieBreak <;> simp [UInt64.not_lt]

theorem Match.before_asymm {tieBreak : TieBreak} {a b : Match} (h : before tieBreak a b = true) :
    before tieBreak b a = false := by
  rw [← Bool.not_eq_true]
  intro hba
  rcases before_iff.1 h with hscore | ⟨hlevel, -, hfrequency⟩
  · rcases before_iff.1 hba with hscore' | ⟨hlevel, -⟩
    · rw [Binary.less_asymm hscore] at hscore'
      cases hscore'
    · rw [hlevel] at hscore
      cases hscore
  · rcases before_iff.1 hba with hscore | ⟨-, -, hfrequency'⟩
    · rw [hlevel] at hscore
      cases hscore
    · exact UInt64.lt_irrefl _ (UInt64.lt_trans hfrequency hfrequency')

/-- Of two matches one of which has to stand before the other, a third one has to stand before the later or behind the earlier,
if the scores are numbers. -/
theorem Match.before_or_before {tieBreak : TieBreak} {a b c : Match} (ha : a.entry.score ≠ .nan) (hb : b.entry.score ≠ .nan)
    (hc : c.entry.score ≠ .nan) (h : before tieBreak a c = true) :
    before tieBreak a b = true ∨ before tieBreak b c = true := by
  simp only [before_iff] at h ⊢
  rcases h with hscore | ⟨hac, htie, hfrequency⟩
  · exact (Binary.less_or_less hb hscore).imp .inl .inl
  cases hba : b.entry.score.less a.entry.score with
  | true => exact .inl (.inl rfl)
  | false =>
    cases hcb : c.entry.score.less b.entry.score with
    | true => exact .inr (.inl rfl)
    | false =>
      -- the score of `b` is level with the others, so the frequencies count
      have hab := Binary.not_less_trans hc hac hcb
      have hbc := Binary.not_less_trans ha hba hac
      rcases UInt64.lt_or_le b.frequency a.frequency with hlt | hle
      · exact .inl (.inr ⟨hab, htie, hlt⟩)
      · exact .inr (.inr ⟨hbc, htie, UInt64.lt_of_lt_of_le hfrequency hle⟩)

/-- **Matches of which every score is a number are in an order.** -/
theorem Match.ordersOn_before (tieBreak : TieBreak) : OrdersOn (before tieBreak) fun m => m.entry.score ≠ .nan :=
  ⟨fun hab => before_asymm hab, fun ha hb hc h => before_or_before ha hb hc h⟩

/-- **They can be sorted.** -/
theorem Match.sort?_of_numbers {tieBreak : TieBreak} {found : List Match} (h : ∀ m ∈ found, m.entry.score ≠ .nan) :
    sort? tieBreak found = some (stableSort (before tieBreak) found) :=
  RunSort.sort?_eq (ordersOn_before tieBreak) size h

/-- Sorting keeps every match. -/
theorem Match.perm_sort? {tieBreak : TieBreak} {found sorted : List Match} (h : sort? tieBreak found = some sorted) :
    sorted.Perm found := RunSort.perm_sort? h

/-- Matches that cannot be sorted are many, and the score of one of them is no number. -/
theorem Match.exists_nan_of_sort?_eq_none {tieBreak : TieBreak} {found : List Match} (h : sort? tieBreak found = none) :
    20 < found.length ∧ ∃ m ∈ found, m.entry.score = .nan := by
  constructor
  · by_contra hshort
    rw [sort?, RunSort.sort?_of_length_le (Nat.le_of_not_lt hshort)] at h
    cases h
  · by_contra hnumbers
    rw [sort?_of_numbers fun m hm hnan => hnumbers ⟨m, hm, hnan⟩] at h
    cases h

/-- If frequencies do not count, matches stand in the order of their entries. -/
theorem Match.before_queriedNode (a b : Match) : before .queriedNode a b = a.entry.higher b.entry := by
  rw [before, compareScores, Entry.higher]
  cases b.entry.score.less a.entry.score with
  | true => rfl
  | false => cases a.entry.score.less b.entry.score <;> rfl

theorem Match.stableSort_eq_mergeSort {tieBreak : TieBreak} {found : List Match} (h : ∀ m ∈ found, m.entry.score ≠ .nan) :
    stableSort (before tieBreak) found = found.mergeSort (ranks tieBreak) := by
  have hranks : ranks tieBreak = fun a b => !before tieBreak b a := funext₂ (ranks_eq tieBreak)
  rw [hranks]
  exact Suggest.stableSort_eq_mergeSort before_asymm fun a ha b hb c hc => before_or_before (h a ha) (h b hb) (h c hc)

end Trie
end Suggest
