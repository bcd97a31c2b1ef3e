/-
# How often a search finds an entry

A search by words finds no key twice, and neither does a merge.  A search by prefix goes through texts, and an entry that was
inserted under several of them is met at the end of each (`Trie.count_keys_allBelow`).  What is found inside texts is only added
if its key is new, but what the search by prefix found stays as it is.  So a search by prefix and inside texts finds a key as
often as it stands under texts that begin with the query (`beginnings`), and a hybrid search, which merges what it finds, finds
it once (`searches_ofInserts`).
-/

import Suggest.Proofs.Index.Growing

namespace Suggest

/-- If no list has an item twice, an item stands in all of them together as often as there are lists with it. -/
theorem count_flatMap_of_nodup {α β : Type} [DecidableEq β] {xs : List α} {f : α → List β}
    (h : ∀ x ∈ xs, (f x).Nodup) (b : β) :
    (xs.flatMap f).count b = xs.countP fun x => b ∈ f x := by
  induction xs with
  | nil => rfl
  | cons x rest ih =>
    rw [List.flatMap_cons, List.count_append, List.countP_cons, ih fun y hy => h y (List.mem_cons_of_mem x hy),
      (h x List.mem_cons_self).count, Nat.add_comm]
    simp only [decide_eq_true_eq]

/-- The texts in lower case that begin with a query and that an entry with the key was inserted under. -/
def beginnings (inserts : List (String × Entry)) (query : String) (k : Entry.Key) : Finset String :=
  ((inserts.filter fun x => x.2.key = k).map fun x => Text.lower x.1).toFinset.filter fun text =>
    (Text.lower query).toList <+: text.toList

variable {inserts : List (String × Entry)} {query : String} {limit : Nat} {ranking : Ranking} {k : Entry.Key}

theorem mem_beginnings {text : String} :
    text ∈ beginnings inserts query k ↔ (Text.lower query).toList <+: text.toList ∧
      k ∈ ((Index.ofInserts inserts).texts.exact text).map Entry.key := by
  rw [beginnings, Finset.mem_filter, List.mem_toFinset, List.mem_map, and_comm, Index.mem_keys_texts_exact]
  refine and_congr_right fun _ => exists_congr fun x => ?_
  rw [List.mem_filter, decide_eq_true_iff, and_assoc, eq_comm (a := text)]

namespace Trie

/-- The entries that a search finds are some of those below the prefix, all of them if they are fewer than the limit. -/
theorem subperm_search? {t : Trie} (hended : Ended t.nodes) {start : String} (hstart : start ≠ "") {limit : Nat}
    (hlimit : 1 ≤ limit) {tieBreak : TieBreak} {found : List Entry} (h : t.search? start limit tieBreak = some found) :
    found.Subperm (t.allBelow start) ∧ (found.length < limit → found.Perm (t.allBelow start)) := by
  have hasked : start.isEmpty = false := by simpa using hstart
  cases hplace : t.find? start with
  | none =>
    rw [search?, if_neg (by simp [hasked]; omega), hplace] at h
    cases h
    rw [allBelow, if_neg (by simp [hasked]), hplace]
    exact ⟨.refl [], fun _ => .refl []⟩
  | some place =>
    rw [search?_eq hasked hplace hlimit] at h
    obtain ⟨sorted, hsorted, rfl⟩ := Option.map_eq_some_iff.1 h
    obtain ⟨hmet, hall⟩ := prefix_allBelow hended hasked hplace limit
    have hperm := Match.perm_sort? hsorted
    -- with fewer entries than the limit nothing was cut off, and the search did not stop before it had met all
    refine ⟨?_, fun hfew => ?_⟩
    · have hcut := ((List.take_sublist limit sorted).map Match.entry).subperm
      exact hcut.trans ((hperm.map Match.entry).subperm.trans hmet.sublist.subperm)
    · rw [List.length_map, List.length_take, hperm.length_eq] at hfew
      rw [List.take_of_length_le (by rw [hperm.length_eq]; omega), ← hall (by omega)]
      exact hperm.map Match.entry

/-- Without an answer there are many entries below the prefix, and the score of one of them is no number. -/
theorem exists_nan_allBelow {t : Trie} (hended : Ended t.nodes) {start : String} {limit : Nat} {tieBreak : TieBreak}
    (h : t.search? start limit tieBreak = none) :
    20 < (t.allBelow start).length ∧ ∃ e ∈ t.allBelow start, e.score = .nan := by
  have hstart : start.isEmpty = false := by
    rw [← Bool.not_eq_true]
    intro hempty
    rw [search?, if_pos (by simp [hempty])] at h
    cases h
  obtain ⟨place, hplace, hmany, m, hm, hnan⟩ := exists_nan_of_search?_eq_none h
  have hmet := (prefix_allBelow hended hstart ((find?_eq_walk t start).trans hplace) limit).1
  have hlength := hmet.length_le
  rw [List.length_map] at hlength
  exact ⟨by omega, m.entry, hmet.subset (List.mem_map_of_mem hm), hnan⟩

/-- Below a place stand the entries of the texts that begin with its path, text after text. -/
theorem exists_texts_visit {path : List Char} {p : Nat} (hp : walk (Index.ofInserts inserts).trie.nodes 0 path = some p) :
    ∃ texts : List String, texts.Nodup ∧
      (∀ text, text ∈ texts ↔ path <+: text.toList ∧
        ∃ q, walk (Index.ofInserts inserts).trie.nodes 0 text.toList = some q) ∧
      ((Index.ofInserts inserts).trie.visit (Index.ofInserts inserts).trie.nodes.size [p]).flatMap
          (fun q => ((Index.ofInserts inserts).trie.node q).entries) =
        texts.flatMap (Index.ofInserts inserts).texts.exact := by
  have htree := isTree_ofInserts inserts
  have hmem := fun x => htree.mem_trail_iff hp (x := x)
  have hascend := htree.pairwise_trail (Index.ofInserts inserts).trie.nodes.size (ascending_singleton hp)
  rw [← map_snd_trail_singleton _ _ path]
  generalize (Index.ofInserts inserts).trie.trail (Index.ofInserts inserts).trie.nodes.size [(path, p)] = trail at *
  refine ⟨trail.map fun x => String.ofList x.1, ?_, fun text => ?_, ?_⟩
  · -- the paths ascend, so none comes twice
    rw [List.Nodup, List.pairwise_map]
    refine hascend.imp fun {x y} hlt heq => ?_
    rw [String.ofList_injective heq] at hlt
    exact Key.irrefl _ hlt
  · rw [List.mem_map]
    constructor
    · rintro ⟨x, hx, rfl⟩
      obtain ⟨hstarts, hwalk⟩ := (hmem x).1 hx
      rw [String.toList_ofList]
      exact ⟨hstarts, x.2, hwalk⟩
    · rintro ⟨hstarts, q, hwalk⟩
      exact ⟨(text.toList, q), (hmem _).2 ⟨hstarts, hwalk⟩, String.ofList_toList⟩
  · rw [List.flatMap_map, List.flatMap_map]
    exact List.flatMap_congr fun x hx => entries_of_walk ((hmem x).1 hx).2

/-- **Below a prefix an entry stands as often as there are texts that it was inserted under.** -/
theorem count_keys_allBelow (hquery : query ≠ "") (k : Entry.Key) :
    (((Index.ofInserts inserts).trie.allBelow query).map Entry.key).count k = (beginnings inserts query k).card := by
  have hasked : ¬query.isEmpty = true := fun hempty => hquery (String.isEmpty_iff.1 hempty)
  have hwalks : ∀ text ∈ beginnings inserts query k, (Text.lower query).toList <+: text.toList ∧
      ∀ cs, cs <+: text.toList → ∃ p, walk (Index.ofInserts inserts).trie.nodes 0 cs = some p := by
    intro text htext
    obtain ⟨hstarts, hk⟩ := mem_beginnings.1 htext
    obtain ⟨e, he, -⟩ := List.mem_map.1 hk
    rw [← String.ofList_toList (s := text)] at he
    exact ⟨hstarts, fun cs hcs => exists_walk_of_mem_exact hcs he⟩
  rw [allBelow, if_neg hasked, find?_eq_walk]
  cases hp : walk (Index.ofInserts inserts).trie.nodes 0 (Text.lower query).toList with
  | none =>
    -- no text begins with the query
    have hnone : beginnings inserts query k = ∅ := by
      refine Finset.eq_empty_of_forall_notMem fun text htext => ?_
      obtain ⟨hstarts, hpaths⟩ := hwalks text htext
      obtain ⟨p, hwalk⟩ := hpaths _ hstarts
      rw [hp] at hwalk
      cases hwalk
    rw [hnone]
    rfl
  | some p =>
    obtain ⟨texts, hdistinct, hmem, hentries⟩ := exists_texts_visit hp
    have hcard : (beginnings inserts query k).card =
        (texts.filter fun text => k ∈ ((Index.ofInserts inserts).texts.exact text).map Entry.key).length := by
      rw [← List.toFinset_card_of_nodup (hdistinct.filter _)]
      refine congrArg Finset.card (Finset.ext fun text => ?_)
      rw [List.mem_toFinset, List.mem_filter, hmem, decide_eq_true_iff]
      constructor
      · intro htext
        obtain ⟨hstarts, hpaths⟩ := hwalks text htext
        exact ⟨⟨hstarts, hpaths _ List.prefix_rfl⟩, (mem_beginnings.1 htext).2⟩
      · rintro ⟨⟨hstarts, -⟩, hk⟩
        exact mem_beginnings.2 ⟨hstarts, hk⟩
    dsimp only
    rw [hentries, hcard, List.map_flatMap, count_flatMap_of_nodup, List.countP_eq_length_filter]
    intro text _
    rw [Index.texts_ofInserts]
    exact Postings.nodup_keys_exact_ofAdds _ _

end Trie

namespace Index

theorem length_le_topUp (i : Index) (query : String) (limit : Nat) (includeSubstring : Bool) (ranking : Ranking)
    (begun : List Entry) : begun.length ≤ (i.topUp query limit includeSubstring ranking begun).length := by
  rw [topUp]
  split
  · exact (Entry.prefix_pushAll _ _).length_le
  · exact Nat.le_refl _

/-- A search by prefix finds a key no more often than there are texts that it was inserted under. -/
theorem count_keys_prefixSearch?_le (hlimit : 1 ≤ limit) {begun : List Entry}
    (hbegun : (ofInserts inserts).prefixSearch? query limit ranking = some begun) (k : Entry.Key) :
    (begun.map Entry.key).count k ≤ (beginnings inserts query k).card := by
  by_cases hquery : query = ""
  · rw [prefixSearch?, Trie.search?, if_pos (by simp [hquery])] at hbegun
    cases hbegun
    exact Nat.zero_le _
  · rw [← Trie.count_keys_allBelow hquery]
    obtain ⟨found, hperm, hsublist⟩ := (Trie.subperm_search? (Trie.ended_ofInserts inserts) hquery hlimit hbegun).1
    rw [← (hperm.map Entry.key).count_eq]
    exact (hsublist.map Entry.key).count_le k

theorem count_keys_topUp_le (hlimit : 1 ≤ limit) {begun : List Entry}
    (hbegun : (ofInserts inserts).prefixSearch? query limit ranking = some begun) (includeSubstring : Bool) (k : Entry.Key) :
    (((ofInserts inserts).topUp query limit includeSubstring ranking begun).map Entry.key).count k ≤
      max 1 (beginnings inserts query k).card := by
  have hbegins := count_keys_prefixSearch?_le hlimit hbegun k
  rw [topUp]
  split
  · have := Entry.count_keys_pushAll_le begun
      ((ofInserts inserts).texts.substringHits (Text.lower query) ranking Ranking.supplementWeight) k
    omega
  · omega

/-- If there is room, a key is found once for every text that begins with the query. -/
theorem count_keys_topUp (hquery : query ≠ "") {begun : List Entry}
    (hbegun : (ofInserts inserts).prefixSearch? query limit ranking = some begun) {includeSubstring : Bool}
    (hroom : ((ofInserts inserts).topUp query limit includeSubstring ranking begun).length < limit)
    (hk : (beginnings inserts query k).Nonempty) :
    (((ofInserts inserts).topUp query limit includeSubstring ranking begun).map Entry.key).count k =
      (beginnings inserts query k).card := by
  have hlimit : 1 ≤ limit := by omega
  -- there was room for the search by prefix as well, so it found all there is
  have hshort := Nat.lt_of_le_of_lt (length_le_topUp _ query limit includeSubstring ranking begun) hroom
  have hperm := (Trie.subperm_search? (Trie.ended_ofInserts inserts) hquery hlimit hbegun).2 hshort
  have hbegins : (begun.map Entry.key).count k = (beginnings inserts query k).card := by
    rw [← Trie.count_keys_allBelow hquery]
    exact (hperm.map Entry.key).count_eq k
  have hmem : k ∈ begun.map Entry.key := by
    rw [← List.count_pos_iff, hbegins]
    exact Finset.card_pos.2 hk
  rw [topUp]
  split
  · rw [Entry.count_keys_pushAll_of_mem hmem, hbegins]
  · exact hbegins

/-- What a search by prefix and inside texts promises of how often it finds a key: no more than once, or than once for every
text that begins with the query; and if there is room, exactly as often, if there is such a text. -/
structure Repeats (inserts : List (String × Entry)) (query : String) (limit : Nat) (found : List Entry) : Prop where
  length : found.length ≤ limit
  atMost : ∀ k, (found.map Entry.key).count k ≤ max 1 (beginnings inserts query k).card
  distinct : (∀ k, (beginnings inserts query k).card ≤ 1) → (found.map Entry.key).Nodup
  exact : query ≠ "" → found.length < limit → ∀ k, (beginnings inserts query k).Nonempty →
    (found.map Entry.key).count k = (beginnings inserts query k).card

theorem repeats_of_prefixOrSubstringSearch? {includeSubstring : Bool} {found : List Entry}
    (h : (ofInserts inserts).prefixOrSubstringSearch? query limit includeSubstring ranking = some found) :
    Repeats inserts query limit found := by
  rcases Nat.eq_zero_or_pos limit with rfl | hlimit
  · rw [prefixOrSubstringSearch?_zero] at h
    cases h
    exact ⟨Nat.le_refl 0, fun k => Nat.zero_le _, fun _ => List.nodup_nil, fun _ hroom => absurd hroom (Nat.lt_irrefl 0)⟩
  rw [prefixOrSubstringSearch?_eq _ _ (by omega), Option.bind_eq_some_iff] at h
  obtain ⟨begun, hbegun, h⟩ := h
  obtain ⟨sorted, hsorted, rfl⟩ := Option.map_eq_some_iff.1 h
  have hperm := Entry.perm_sortByScore? hsorted
  have hmost : ∀ k, ((sorted.take limit).map Entry.key).count k ≤ max 1 (beginnings inserts query k).card := by
    intro k
    refine Nat.le_trans (((List.take_sublist limit sorted).map Entry.key).count_le k) ?_
    rw [(hperm.map Entry.key).count_eq]
    exact count_keys_topUp_le hlimit hbegun includeSubstring k
  refine ⟨List.length_take_le limit sorted, hmost, fun hone => ?_, fun hquery hroom k hk => ?_⟩
  · refine List.nodup_iff_count_le_one.2 fun k => Nat.le_trans (hmost k) ?_
    exact Nat.max_le.2 ⟨Nat.le_refl 1, hone k⟩
  · rw [List.length_take, hperm.length_eq] at hroom
    rw [List.take_of_length_le (by rw [hperm.length_eq]; omega), (hperm.map Entry.key).count_eq]
    exact count_keys_topUp hquery hbegun (by omega) hk

/-- Without an answer there were many entries to sort, below the prefix or after these were topped up, and the score of one of
them is no number. -/
theorem exists_nan_of_prefixOrSubstringSearch?_eq_none {includeSubstring : Bool}
    (h : (ofInserts inserts).prefixOrSubstringSearch? query limit includeSubstring ranking = none) :
    (20 < ((ofInserts inserts).trie.allBelow query).length ∧
        ∃ e ∈ (ofInserts inserts).trie.allBelow query, e.score = .nan) ∨
      ∃ begun, (ofInserts inserts).prefixSearch? query limit ranking = some begun ∧
        20 < ((ofInserts inserts).topUp query limit includeSubstring ranking begun).length ∧
          ∃ e ∈ (ofInserts inserts).topUp query limit includeSubstring ranking begun, e.score = .nan := by
  rcases Nat.eq_zero_or_pos limit with rfl | hlimit
  · rw [prefixOrSubstringSearch?_zero] at h
    cases h
  cases hbegun : (ofInserts inserts).prefixSearch? query limit ranking with
  | none => exact .inl (Trie.exists_nan_allBelow (Trie.ended_ofInserts inserts) hbegun)
  | some begun =>
    rw [prefixOrSubstringSearch?_eq _ _ (by omega), hbegun, Option.bind_some, Option.map_eq_none_iff] at h
    exact .inr ⟨begun, rfl, Entry.exists_nan_of_sortByScore?_eq_none h⟩

/-- A hybrid search merges what the other two find, if there is room for as many entries as allowed. -/
theorem hybridSearch?_eq_some_iff {i : Index} {preferPrefix : Bool} {found : List Entry} :
    i.hybridSearch? query limit preferPrefix ranking = some found ↔ limit ≤ Entry.maxRoom ∧
      ∃ byPrefix, i.prefixOrSubstringSearch? query limit false ranking = some byPrefix ∧
        ∃ byWord, i.keywordSearch? query limit ranking = some byWord ∧
          (if preferPrefix then Entry.merge byPrefix byWord limit else Entry.merge byWord byPrefix limit) = found := by
  have hmerge : ∀ byPrefix byWord : List Entry,
      (if preferPrefix then Entry.merge? byPrefix byWord limit else Entry.merge? byWord byPrefix limit) = some found ↔
        limit ≤ Entry.maxRoom ∧
          (if preferPrefix then Entry.merge byPrefix byWord limit else Entry.merge byWord byPrefix limit) = found := by
    intro byPrefix byWord
    split <;> exact Entry.merge?_eq_some_iff
  simp only [hybridSearch?, Option.bind_eq_bind, Option.bind_eq_some_iff, hmerge]
  constructor
  · rintro ⟨byPrefix, hbegins, byWord, hword, hroom, hfound⟩
    exact ⟨hroom, byPrefix, hbegins, byWord, hword, hfound⟩
  · rintro ⟨hroom, byPrefix, hbegins, byWord, hword, hfound⟩
    exact ⟨byPrefix, hbegins, byWord, hword, hroom, hfound⟩

/-- There is no answer if one of the other searches has none, or if there is no room. -/
theorem hybridSearch?_eq_none_iff {i : Index} {preferPrefix : Bool} :
    i.hybridSearch? query limit preferPrefix ranking = none ↔
      Entry.maxRoom < limit ∨ i.prefixOrSubstringSearch? query limit false ranking = none ∨
        i.keywordSearch? query limit ranking = none := by
  simp only [Option.eq_none_iff_forall_ne_some, ne_eq, hybridSearch?_eq_some_iff]
  constructor
  · intro h
    by_contra hanswers
    push Not at hanswers
    obtain ⟨hroom, ⟨byPrefix, hbegins⟩, byWord, hword⟩ := hanswers
    exact h _ ⟨hroom, byPrefix, hbegins, byWord, hword, rfl⟩
  · rintro h found ⟨hroom, byPrefix, hbegins, byWord, hword, -⟩
    rcases h with h | h | h
    · omega
    · exact h _ hbegins
    · exact h _ hword

theorem distinct_of_keywordSearch? {found : List Entry}
    (h : (ofInserts inserts).keywordSearch? query limit ranking = some found) :
    found.length ≤ limit ∧ (found.map Entry.key).Nodup := by
  rcases Nat.eq_zero_or_pos limit with rfl | hlimit
  · rw [keywordSearch?_zero] at h
    cases h
    exact ⟨Nat.le_refl 0, List.nodup_nil⟩
  · have hanswer := keywordAnswer hlimit h
    exact ⟨hanswer.length ▸ Nat.min_le_left _ _, hanswer.distinct⟩

theorem distinct_of_hybridSearch? {i : Index} {preferPrefix : Bool} {found : List Entry}
    (h : i.hybridSearch? query limit preferPrefix ranking = some found) :
    found.length ≤ limit ∧ (found.map Entry.key).Nodup := by
  obtain ⟨-, byPrefix, -, byWord, -, rfl⟩ := hybridSearch?_eq_some_iff.1 h
  split
  · exact ⟨Entry.length_merge_le _ _ limit, Entry.nodup_keys_merge _ _ limit⟩
  · exact ⟨Entry.length_merge_le _ _ limit, Entry.nodup_keys_merge _ _ limit⟩

/-- **No other search than that by prefix and inside texts repeats an entry.**  What is found is no more than the limit allows,
and a search by words and a hybrid search find each key once.  A search by prefix and inside texts finds it once for every text
that it was inserted under and that begins with the query.

There is an answer to every query unless one of more than 20 entries that have to be sorted has a score that is no number, or the
limit of a hybrid search is more than there is room for. -/
theorem searches_ofInserts (inserts : List (String × Entry)) (query : String) (limit : Nat) (ranking : Ranking) :
    (∀ found, (ofInserts inserts).keywordSearch? query limit ranking = some found →
      found.length ≤ limit ∧ (found.map Entry.key).Nodup) ∧
    (∀ includeSubstring found, (ofInserts inserts).prefixOrSubstringSearch? query limit includeSubstring ranking = some found →
      Repeats inserts query limit found) ∧
    (∀ preferPrefix found, (ofInserts inserts).hybridSearch? query limit preferPrefix ranking = some found →
      found.length ≤ limit ∧ (found.map Entry.key).Nodup) ∧
    ((ofInserts inserts).keywordSearch? query limit ranking = none →
      20 < (answers inserts query).card ∧ ∃ x ∈ inserts, x.2.score = .nan) ∧
    (∀ includeSubstring, (ofInserts inserts).prefixOrSubstringSearch? query limit includeSubstring ranking = none →
      (20 < ((ofInserts inserts).trie.allBelow query).length ∧
          ∃ e ∈ (ofInserts inserts).trie.allBelow query, e.score = .nan) ∨
        ∃ begun, (ofInserts inserts).prefixSearch? query limit ranking = some begun ∧
          20 < ((ofInserts inserts).topUp query limit includeSubstring ranking begun).length ∧
            ∃ e ∈ (ofInserts inserts).topUp query limit includeSubstring ranking begun, e.score = .nan) ∧
    ∀ preferPrefix, (ofInserts inserts).hybridSearch? query limit preferPrefix ranking = none ↔
      Entry.maxRoom < limit ∨ (ofInserts inserts).prefixOrSubstringSearch? query limit false ranking = none ∨
        (ofInserts inserts).keywordSearch? query limit ranking = none := by
  refine ⟨fun found h => distinct_of_keywordSearch? h, fun _ found h => repeats_of_prefixOrSubstringSearch? h,
    fun _ found h => distinct_of_hybridSearch? h, fun h => ?_,
    fun _ h => exists_nan_of_prefixOrSubstringSearch?_eq_none h, fun _ => hybridSearch?_eq_none_iff⟩
  rcases Nat.eq_zero_or_pos limit with rfl | hlimit
  · rw [keywordSearch?_zero] at h
    cases h
  · exact exists_nan_of_keywordSearch?_eq_none hlimit h

/-- One entry under two texts. -/
def twoTextsOfOne : List (String × Entry) :=
  [("abc", { id := "1", text := "ab", category := "item" }), ("abd", { id := "1", text := "ab", category := "item" })]

theorem searches_twoTextsOfOne :
    (∃ found, (ofInserts twoTextsOfOne).keywordSearch? "ab" 10 {} = some found ∧ (found.map Entry.key).Nodup) ∧
    (∃ found, (ofInserts twoTextsOfOne).prefixOrSubstringSearch? "ab" 10 false {} = some found ∧
      (found.map Entry.key).count ⟨"1", "item"⟩ = 2) ∧
    (∃ found, (ofInserts twoTextsOfOne).prefixOrSubstringSearch? "abc" 10 false {} = some found ∧
      (found.map Entry.key).Nodup) ∧
    ∃ found, (ofInserts twoTextsOfOne).hybridSearch? "ab" 10 true {} = some found ∧ (found.map Entry.key).Nodup := by
  obtain ⟨hword, hbegins, hhybrid, -⟩ := searches_ofInserts twoTextsOfOne "ab" 10 {}
  obtain ⟨-, hwhole, -⟩ := searches_ofInserts twoTextsOfOne "abc" 10 {}
  refine ⟨?_, ?_, ?_, ?_⟩
  · cases h : (ofInserts twoTextsOfOne).keywordSearch? "ab" 10 {} with
    | none => exact absurd h (by decide +kernel)
    | some found => exact ⟨found, rfl, (hword found h).2⟩
  · have hlength : ((ofInserts twoTextsOfOne).prefixOrSubstringSearch? "ab" 10 false {}).map List.length = some 2 := by
      decide +kernel
    obtain ⟨found, h, htwo⟩ := Option.map_eq_some_iff.1 hlength
    have hbeginnings : beginnings twoTextsOfOne "ab" ⟨"1", "item"⟩ = {"abc", "abd"} := by decide +kernel
    refine ⟨found, h, ((hbegins false found h).exact (by decide) (by omega) _ ?_).trans ?_⟩
    · exact ⟨"abc", by rw [hbeginnings]; decide⟩
    · rw [hbeginnings]
      rfl
  · have hall : ((twoTextsOfOne.map fun x => Text.lower x.1).toFinset.filter fun text =>
        (Text.lower "abc").toList <+: text.toList) = {"abc"} := by decide +kernel
    have hone : ∀ k, (beginnings twoTextsOfOne "abc" k).card ≤ 1 := by
      intro k
      have hsubset : beginnings twoTextsOfOne "abc" k ⊆ {"abc"} := by
        rw [← hall]
        refine Finset.filter_subset_filter _ fun text htext => ?_
        exact List.mem_toFinset.2 ((List.filter_sublist.map _).subset (List.mem_toFinset.1 htext))
      exact Finset.card_le_card hsubset
    cases h : (ofInserts twoTextsOfOne).prefixOrSubstringSearch? "abc" 10 false {} with
    | none => exact absurd h (by decide +kernel)
    | some found => exact ⟨found, rfl, (hwhole false found h).distinct hone⟩
  · cases h : (ofInserts twoTextsOfOne).hybridSearch? "ab" 10 true {} with
    | none => exact absurd h (by decide +kernel)
    | some found => exact ⟨found, rfl, (hhybrid true found h).2⟩

theorem prefixOrSubstringSearch?_twoTextsOfOne :
    ∃ found, (ofInserts twoTextsOfOne).prefixOrSubstringSearch? "ab" 10 false {} = some found ∧
      ¬(found.map Entry.key).Nodup := by
  have hkeys : ((ofInserts twoTextsOfOne).prefixOrSubstringSearch? "ab" 10 false {}).map (·.map Entry.key) =
      some [⟨"1", "item"⟩, ⟨"1", "item"⟩] := by decide +kernel
  obtain ⟨found, h, htwice⟩ := Option.map_eq_some_iff.1 hkeys
  exact ⟨found, h, by rw [htwice]; decide⟩

end Index
end Suggest
