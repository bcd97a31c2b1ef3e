/-
# Asking for more

If more entries are asked for, those that are found with a lower limit are found first, and in the same order with the same
scores (`hybridSearch?_grows`): a search of a catalog is a cut of a list that does not depend on the limit.  But room is taken
for as many entries as are asked for, and with a limit for which there is no room a search finds nothing, whatever a lower
limit finds (`hybridSearch?_oneItem_shrinks`).
-/

import Suggest.Proofs.Catalog.Search
import Suggest.Proofs.Index.Growing

namespace Suggest
namespace Catalog

/-- **A higher limit only appends to what a hybrid search of a catalog finds,** if matches with one score stay in the order of
their texts and the slope of the ranking is a number that is not negative, and if there is room for as many entries as the
higher limit allows.  If there is none, the search has no answer.  (The lengths of the fields must fit 64 bits.) -/
theorem hybridSearch?_grows {rs : Records} (hitems : (rs.items.map fun i => i.id).Nodup)
    (hparts : (rs.parts.map fun p => p.id).Nodup) (hshort : ∀ e ∈ rs.entries, (Text.lower e.text).length < 2 ^ 64)
    {ranking : Ranking} (htie : ranking.tieBreak = .queriedNode) (hslope : ranking.positionDecay ≠ .nan)
    (hfalling : ranking.positionDecay.NotNegative) (query : String) (preferPrefix : Bool) {limit more : Nat}
    (hmore : limit ≤ more) :
    (Entry.maxRoom < more → rs.index.hybridSearch? query more preferPrefix ranking = none) ∧
    (more ≤ Entry.maxRoom → ∃ found, rs.index.hybridSearch? query more preferPrefix ranking = some found ∧
      rs.index.hybridSearch? query limit preferPrefix ranking = some (found.take limit)) := by
  refine ⟨fun hroom => Index.hybridSearch?_of_maxRoom_lt _ _ hroom _ _, fun hroom => ?_⟩
  have hfresh := fresh_entries hitems hparts hshort
  have hranking : ranking.BeginningFirst := ⟨htie, hslope, hfalling⟩
  rw [index_eq_ofInserts, hfresh.hybridSearch?_eq_take hranking query preferPrefix hroom,
    hfresh.hybridSearch?_eq_take hranking query preferPrefix (Nat.le_trans hmore hroom)]
  refine ⟨_, rfl, ?_⟩
  rw [List.take_take, Nat.min_eq_left hmore]

/-- Two items, the name of one of them inside that of the other. -/
def twoNames : Records where
  items := [{ id := "1", name := "cab" }, { id := "2", name := "ab" }]

/-- The first of two entries is found alone with the lower limit. -/
theorem hybridSearch?_twoNames : ∃ found, twoNames.index.hybridSearch? "ab" 2 true {} = some found ∧
    twoNames.index.hybridSearch? "ab" 1 true {} = some (found.take 1) ∧
    found.map Entry.key = [⟨"2", "item"⟩, ⟨"1", "item"⟩] := by
  have hitems : (twoNames.items.map fun i => i.id).Nodup := by decide
  have hparts : (twoNames.parts.map fun p => p.id).Nodup := by decide
  have hshort : ∀ e ∈ twoNames.entries, (Text.lower e.text).length < 2 ^ 64 := by decide +kernel
  have hkeys : (twoNames.index.hybridSearch? "ab" 2 true {}).map (·.map Entry.key) =
      some [⟨"2", "item"⟩, ⟨"1", "item"⟩] := by decide +kernel
  obtain ⟨found, hfound, hfirst⟩ :=
    (hybridSearch?_grows hitems hparts hshort rfl Ranking.beginningFirst_default.slope
      Ranking.beginningFirst_default.falling "ab" true (by decide : 1 ≤ 2)).2 (by decide)
  rw [hfound, Option.map_some, Option.some.injEq] at hkeys
  exact ⟨found, hfound, hfirst, hkeys⟩

/-- What is found with the limit one is not found if the limit has 64 bits, with the same settings. -/
theorem hybridSearch?_oneItem_shrinks : ({} : Ranking).BeginningFirst ∧
    oneItem.index.hybridSearch? "ab" 1 true {} ≠ (oneItem.index.hybridSearch? "ab" (1 <<< 63) true {}).map (·.take 1) := by
  have hshort : ∀ e ∈ oneItem.entries, (Text.lower e.text).length < 2 ^ 64 := by decide +kernel
  have hfresh : Index.Fresh (oneItem.entries.map fun e => (e.text, e)) := fresh_entries (by decide) (by decide) hshort
  have hone : oneItem.index.hybridSearch? "ab" 1 true {} ≠ none := by
    rw [index_eq_ofInserts, hfresh.hybridSearch?_eq_take Ranking.beginningFirst_default "ab" true (by decide)]
    exact Option.some_ne_none _
  have hmore : oneItem.index.hybridSearch? "ab" (1 <<< 63) true {} = none :=
    Index.hybridSearch?_of_maxRoom_lt _ _ (by decide) _ _
  rw [hmore]
  exact ⟨Ranking.beginningFirst_default, hone⟩

end Catalog
end Suggest
