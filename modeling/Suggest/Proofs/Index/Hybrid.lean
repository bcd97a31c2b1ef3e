/-
# What a hybrid search finds

A search finds all texts of a kind (`FindsAll`) if what it finds is of that kind, each key once, and if nothing is missing as
long as there is room.  Merging two such searches is such a search for both kinds (`FindsAll.merge`).  Searching by prefix and
inside texts is one for the texts that contain the query, searching by words one for the texts that contain every word of it,
so a hybrid search is one for the texts that match it (`Matches`).

That needs entries that are fresh (`Fresh`): no two have one key, all have the score one, and no text has more characters than
64 bits can count.  Then every score is a number, or the slope is `nan` and so is every score that is not one; entries with
either can be sorted.
-/

import Suggest.Proofs.Index.Keyword
import Suggest.Proofs.Trie.Search

namespace Suggest

/-- Lower case leaves no text empty. -/
theorem Text.lower_ne_empty {text : String} (h : text ≠ "") : (lower text).isEmpty = false := by
  rw [← Bool.not_eq_true, String.isEmpty_iff]
  intro hempty
  have hnil : lowerChars text.toList = [] := by
    rw [← toList_lower, hempty]
    rfl
  cases htext : text.toList with
  | nil => exact h (String.toList_eq_nil_iff.1 htext)
  | cons c rest =>
    rw [htext, lowerChars, lowerAfter, List.append_eq_nil_iff] at hnil
    obtain ⟨hnil, -⟩ := hnil
    split at hnil
    · cases hnil
    · rw [lowerChar] at hnil
      split at hnil
      · cases hnil
      · split at hnil <;> cases hnil

/-- Scores that are one or `nan` are level. -/
theorem Entry.ordersOn_higher_of_level : OrdersOn Entry.higher fun e => e.score = .one ∨ e.score = .nan := by
  refine ⟨fun hab => Binary.less_asymm hab, fun {a b c} ha _ hc hac => ?_⟩
  have hlevel : a.higher c = false := by
    rw [Entry.higher]
    rcases ha with ha | ha <;> rcases hc with hc | hc <;> rw [ha, hc]
    · exact Binary.less_irrefl _
    · rfl
    · exact Binary.less_nan _
    · rfl
  rw [hlevel] at hac
  cases hac

namespace Index

variable {inserts : List (String × Entry)} {query : String} {limit : Nat} {ranking : Ranking}

/-- Whether entries were inserted with a key of their own and the score one, under texts that are not too long. -/
structure Fresh (inserts : List (String × Entry)) : Prop where
  distinct : (inserts.map fun x => x.2.key).Nodup
  scored : ∀ x ∈ inserts, x.2.score = .one
  short : ∀ x ∈ inserts, (Text.lower x.1).length < 2 ^ 64

/-- Whether entries that are found are inserted entries but for their scores, under texts of a kind, no key twice, and none of
them missing if they are fewer than the limit. -/
structure FindsAll (inserts : List (String × Entry)) (kind : String → Prop) (limit : Nat) (found : List Entry) : Prop where
  distinct : (found.map Entry.key).Nodup
  sound : ∀ e ∈ found, ∃ x ∈ inserts, kind x.1 ∧ e = { x.2 with score := e.score }
  complete : found.length < limit → ∀ x ∈ inserts, kind x.1 → x.2.key ∈ found.map Entry.key

/-- **What finds all of two kinds can be merged.** -/
theorem FindsAll.merge {kind other : String → Prop} {found more : List Entry} (h : FindsAll inserts kind limit found)
    (h' : FindsAll inserts other limit more) :
    FindsAll inserts (fun text => kind text ∨ other text) limit (Entry.merge found more limit) where
  distinct := Entry.nodup_keys_merge found more limit
  sound e he := by
    rcases Entry.mem_merge he with he | ⟨f, hf, rfl⟩
    · obtain ⟨x, hx, hkind, heq⟩ := h.sound e he
      exact ⟨x, hx, .inl hkind, heq⟩
    · obtain ⟨x, hx, hkind, heq⟩ := h'.sound f hf
      refine ⟨x, hx, .inr hkind, ?_⟩
      rw [heq]
      rfl
  complete hroom x hx hkind := by
    have hkeys := fun k => Entry.mem_keys_merge hroom (k := k)
    -- neither search has used up the limit, since all that it found is in the merge
    have hshort : ∀ entries : List Entry, (entries.map Entry.key).Nodup →
        (∀ k ∈ entries.map Entry.key, k ∈ (Entry.merge found more limit).map Entry.key) → entries.length < limit := by
      intro entries hnodup hsubset
      have := (List.subperm_of_subset hnodup hsubset).length_le
      rw [List.length_map, List.length_map] at this
      omega
    rw [hkeys]
    rcases hkind with hkind | hkind
    · exact .inl (h.complete (hshort found h.distinct fun k hk => (hkeys k).2 (.inl hk)) x hx hkind)
    · exact .inr (h'.complete (hshort more h'.distinct fun k hk => (hkeys k).2 (.inr hk)) x hx hkind)

/-- Whether a text contains every word of a query, which has one. -/
def HasWords (query text : String) : Prop :=
  Text.words query ≠ [] ∧ ∀ word ∈ Text.words query, word.toList <:+: (Text.lower text).toList

theorem Fresh.eq_of_key_eq (h : Fresh inserts) {x y : String × Entry} (hx : x ∈ inserts) (hy : y ∈ inserts)
    (hkey : x.2.key = y.2.key) : x = y :=
  List.inj_on_of_nodup_map h.distinct hx hy hkey

/-- A key answers a query with one text if it has only one. -/
theorem Fresh.answers_iff (h : Fresh inserts) {x : String × Entry} (hx : x ∈ inserts) :
    x.2.key ∈ answers inserts query ↔ HasWords query x.1 := by
  rw [mem_answers, Answers, HasWords]
  refine and_congr_right fun _ => forall₂_congr fun word _ => ?_
  constructor
  · rintro ⟨y, hy, hkey, hinfix⟩
    rwa [h.eq_of_key_eq hy hx hkey] at hinfix
  · exact fun hinfix => ⟨x, hx, rfl, hinfix⟩

theorem Fresh.score_ne_nan (h : Fresh inserts) {x : String × Entry} (hx : x ∈ inserts) : x.2.score ≠ .nan :=
  Entry.score_ne_nan_of_one (h.scored x hx)

/-- **A search by words finds all texts with every word of the query.** -/
theorem Fresh.findsAll_keywordSearch? (h : Fresh inserts) (query : String) (hlimit : 1 ≤ limit) (ranking : Ranking) :
    ∃ found, (ofInserts inserts).keywordSearch? query limit ranking = some found ∧
      FindsAll inserts (HasWords query) limit found := by
  cases hfound : (ofInserts inserts).keywordSearch? query limit ranking with
  | none =>
    obtain ⟨-, x, hx, hnan⟩ := exists_nan_of_keywordSearch?_eq_none hlimit hfound
    exact absurd hnan (h.score_ne_nan hx)
  | some found =>
    have hanswer := keywordAnswer hlimit hfound
    refine ⟨found, rfl, hanswer.distinct, fun e he => ?_, fun hroom x hx hwords => ?_⟩
    · obtain ⟨text, f, hx, hscore⟩ := exists_of_mem_candidates (mem_candidates_of_mem hlimit hfound he)
      have hkey : e.key = f.key := by rcases hscore with rfl | rfl <;> rfl
      refine ⟨(text, f), hx, ?_, by rcases hscore with rfl | rfl <;> rfl⟩
      rw [← h.answers_iff hx, ← hkey]
      exact hanswer.sound e he
    · have hcard : (answers inserts query).card ≤ limit := by
        have := hanswer.length
        omega
      exact (hanswer.mem_keys_iff hcard).2 ((h.answers_iff hx).2 hwords)

/-- With a limit of zero nothing is found. -/
theorem prefixOrSubstringSearch?_zero (i : Index) (query : String) (includeSubstring : Bool) (ranking : Ranking) :
    i.prefixOrSubstringSearch? query 0 includeSubstring ranking = some [] := by
  have hbegun : i.prefixSearch? query 0 ranking = some [] := if_pos (by simp)
  rw [prefixOrSubstringSearch?, hbegun]
  rfl

/-- A search by prefix and inside texts sorts what it finds by prefix, topped up, and cuts it. -/
theorem prefixOrSubstringSearch?_eq (i : Index) (query : String) (hlimit : limit ≠ 0) (includeSubstring : Bool)
    (ranking : Ranking) :
    i.prefixOrSubstringSearch? query limit includeSubstring ranking =
      (i.prefixSearch? query limit ranking).bind fun begun =>
        (Entry.sortByScore? (i.topUp query limit includeSubstring ranking begun)).map (·.take limit) := by
  simp only [prefixOrSubstringSearch?, if_neg hlimit]
  rfl

/-- A search by prefix has an answer, if the scores that were inserted are numbers. -/
theorem Fresh.exists_prefixSearch? (h : Fresh inserts) (query : String) (limit : Nat) (ranking : Ranking) :
    ∃ begun, (ofInserts inserts).prefixSearch? query limit ranking = some begun := by
  cases hbegun : (ofInserts inserts).prefixSearch? query limit ranking with
  | none =>
    obtain ⟨-, x, hx, hnan⟩ := Trie.exists_nan_of_search?_ofInserts_eq_none hbegun
    exact absurd hnan (h.score_ne_nan hx)
  | some begun => exact ⟨begun, rfl⟩

/-- What is found before it is sorted and cut stands below the prefix, or it is found inside a text behind its beginning. -/
theorem mem_topUp (hquery : query ≠ "") {begun : List Entry}
    (hbegun : (ofInserts inserts).prefixSearch? query limit ranking = some begun) {e : Entry}
    (he : e ∈ (ofInserts inserts).topUp query limit false ranking begun) :
    (∃ text, (text, e) ∈ inserts ∧ (Text.lower query).toList <+: (Text.lower text).toList) ∨
      ∃ text f offset, (text, f) ∈ inserts ∧ 0 < offset ∧ offset ≤ (Text.lower text).length ∧
        (Text.lower query).toList <:+: (Text.lower text).toList ∧
        e = f.scaled ((ranking.positionFactor offset (Text.lower text).length).mul Ranking.supplementWeight) := by
  have hstarts : ∀ {f}, f ∈ begun → ∃ text, (text, f) ∈ inserts ∧ (Text.lower query).toList <+: (Text.lower text).toList := by
    intro f hf
    obtain ⟨cs, hcs, hf⟩ := Trie.mem_search? hbegun hf
    obtain ⟨text, hx, htext⟩ := mem_texts_exact hf
    refine ⟨text, hx, ?_⟩
    rwa [← htext, String.toList_ofList]
  rw [topUp, Bool.false_or] at he
  split at he
  · next hroom =>
    rw [decide_eq_true_eq] at hroom
    rcases Entry.mem_or_not_mem_keys_of_mem_pushAll he with he | ⟨he, hkey⟩
    · exact .inl (hstarts he)
    · obtain ⟨key, offset, f, hoffset, hf, rfl⟩ := (Postings.mem_substringHits (Text.lower_ne_empty hquery)).1 he
      obtain ⟨text, hx, rfl⟩ := mem_texts_exact hf
      have hdrop : (Text.lower query).toList <+: (Text.lower text).toList.drop offset :=
        (Text.charOffset?_eq_some_iff.1 hoffset).1
      refine .inr ⟨text, f, offset, hx, Nat.pos_of_ne_zero fun hzero => hkey ?_, ?_, ?_, rfl⟩
      · -- an entry at the beginning of whose text the query stands is found by prefix
        rw [hzero, List.drop_zero] at hdrop
        have hf : f ∈ (ofInserts inserts).texts.exact (String.ofList (Text.lower text).toList) := by
          rwa [String.ofList_toList]
        exact List.mem_map.2 ⟨f, Trie.mem_search?_of_length_lt (by simpa using hquery) hbegun hroom hdrop hf, rfl⟩
      · have hneedle : 0 < (Text.lower query).toList.length := by
          have := Text.lower_ne_empty hquery
          rw [List.length_pos_iff, ne_eq, String.toList_eq_nil_iff, ← String.isEmpty_iff, this]
          exact Bool.false_ne_true
        have hlength := hdrop.length_le
        simp only [List.length_drop, String.length_toList] at hlength hneedle
        omega
      · exact hdrop.isInfix.trans (List.drop_suffix offset _).isInfix
  · exact .inl (hstarts he)

/-- The scores of what is found are numbers, if the slope of the ranking is one. -/
theorem Fresh.score_topUp_ne_nan (h : Fresh inserts) (hslope : ranking.positionDecay ≠ .nan) (hquery : query ≠ "")
    {begun : List Entry} (hbegun : (ofInserts inserts).prefixSearch? query limit ranking = some begun) :
    ∀ e ∈ (ofInserts inserts).topUp query limit false ranking begun, e.score ≠ .nan := by
  intro e he
  rcases mem_topUp hquery hbegun he with ⟨text, hx, -⟩ | ⟨text, f, offset, hx, hpos, hle, -, rfl⟩
  · exact h.score_ne_nan hx
  · have hshort := h.short (text, f) hx
    have hfactor := Ranking.positionFactor_ne_nan hslope hpos hle hshort
    have hweighted := Ranking.isFactor_supplementWeight.mul_right_ne_nan hfactor
    change f.score.mul _ ≠ .nan
    rw [h.scored (text, f) hx]
    exact Binary.isFactor_one.mul_left_ne_nan hweighted

/-- If the slope is no number, every score is one or `nan`. -/
theorem Fresh.score_topUp_of_nan (h : Fresh inserts) (hslope : ranking.positionDecay = .nan) (hquery : query ≠ "")
    {begun : List Entry} (hbegun : (ofInserts inserts).prefixSearch? query limit ranking = some begun) :
    ∀ e ∈ (ofInserts inserts).topUp query limit false ranking begun, e.score = .one ∨ e.score = .nan := by
  intro e he
  rcases mem_topUp hquery hbegun he with ⟨text, hx, -⟩ | ⟨text, f, offset, hx, hpos, hle, -, rfl⟩
  · exact .inl (h.scored _ hx)
  · have hfactor : ranking.positionFactor offset (Text.lower text).length = .nan := by
      rw [Ranking.positionFactor, if_neg (by omega), hslope, Binary.mul_nan]
      exact Binary.add_nan _
    refine .inr ?_
    rw [hfactor]
    exact Binary.mul_nan _

/-- **What is found can be sorted.** -/
theorem Fresh.exists_sorted_topUp (h : Fresh inserts) (hquery : query ≠ "") {begun : List Entry}
    (hbegun : (ofInserts inserts).prefixSearch? query limit ranking = some begun) :
    ∃ sorted, Entry.sortByScore? ((ofInserts inserts).topUp query limit false ranking begun) = some sorted := by
  by_cases hslope : ranking.positionDecay = .nan
  · exact ⟨_, RunSort.sort?_eq Entry.ordersOn_higher_of_level Entry.size (h.score_topUp_of_nan hslope hquery hbegun)⟩
  · exact ⟨_, Entry.sortByScore?_of_numbers (h.score_topUp_ne_nan hslope hquery hbegun)⟩

/-- **A search by prefix and inside texts finds all texts that contain the query.** -/
theorem Fresh.findsAll_prefixOrSubstringSearch? (h : Fresh inserts) (hquery : query ≠ "") (hlimit : 1 ≤ limit)
    (ranking : Ranking) :
    ∃ found, (ofInserts inserts).prefixOrSubstringSearch? query limit false ranking = some found ∧
      FindsAll inserts (fun text => (Text.lower query).toList <:+: (Text.lower text).toList) limit found := by
  obtain ⟨begun, hbegun⟩ := h.exists_prefixSearch? query limit ranking
  obtain ⟨sorted, hsorted⟩ := h.exists_sorted_topUp hquery hbegun
  have hperm := Entry.perm_sortByScore? hsorted
  refine ⟨sorted.take limit, ?_, ?_, fun e he => ?_, fun hroom x hx hinfix => ?_⟩
  · rw [prefixOrSubstringSearch?_eq _ _ (by omega), hbegun, Option.bind_some, hsorted]
    rfl
  · refine List.Nodup.sublist ((List.take_sublist limit sorted).map _) ((hperm.map Entry.key).nodup_iff.2 ?_)
    have hnodup : (begun.map Entry.key).Nodup := Trie.nodup_keys_search? h.distinct hbegun
    rw [topUp]
    split
    · exact Entry.nodup_pushAll hnodup _
    · exact hnodup
  · rcases mem_topUp hquery hbegun (hperm.mem_iff.1 (List.mem_of_mem_take he)) with
      ⟨text, hx, hstarts⟩ | ⟨text, f, offset, hx, -, -, hinfix, rfl⟩
    · exact ⟨_, hx, hstarts.isInfix, rfl⟩
    · exact ⟨_, hx, hinfix, rfl⟩
  · rw [List.length_take, hperm.length_eq] at hroom
    have hall : sorted.take limit = sorted := List.take_of_length_le (by rw [hperm.length_eq]; omega)
    have hshort : (false || decide (begun.length < limit)) = true := by
      by_contra hlong
      rw [topUp, if_neg hlong] at hroom
      rw [Bool.false_or, decide_eq_true_eq] at hlong
      omega
    rw [hall, (hperm.map Entry.key).mem_iff, topUp, if_pos hshort, Entry.mem_keys_pushAll]
    obtain ⟨f, hf, hkey⟩ := List.mem_map.1 (mem_keys_texts_exact.2 ⟨x, hx, rfl, rfl⟩)
    obtain ⟨offset, hoffset⟩ := Option.isSome_iff_exists.1 (Text.charOffset?_isSome_iff.2 hinfix)
    refine .inr (List.mem_map.2 ⟨_, (Postings.mem_substringHits (Text.lower_ne_empty hquery)).2
      ⟨_, offset, f, hoffset, hf, rfl⟩, hkey⟩)

/-- Whether a text matches a query: it contains the query, or every word of it. -/
def Matches (query text : String) : Prop :=
  (Text.lower query).toList <:+: (Text.lower text).toList ∨ HasWords query text

/-- **A hybrid search finds all texts that match the query,** if there is room for as many entries as allowed. -/
theorem Fresh.findsAll_hybridSearch? (h : Fresh inserts) (hquery : query ≠ "") (hlimit : 1 ≤ limit)
    (hroom : limit ≤ Entry.maxRoom) (preferPrefix : Bool) (ranking : Ranking) :
    ∃ found, (ofInserts inserts).hybridSearch? query limit preferPrefix ranking = some found ∧ found.length ≤ limit ∧
      FindsAll inserts (Matches query) limit found := by
  obtain ⟨byPrefix, hbyPrefix, hcontains⟩ := h.findsAll_prefixOrSubstringSearch? hquery hlimit ranking
  obtain ⟨byWord, hbyWord, hwords⟩ := h.findsAll_keywordSearch? query hlimit ranking
  have hmerge : ∀ primary secondary, Entry.merge? primary secondary limit = some (Entry.merge primary secondary limit) :=
    fun _ _ => Entry.merge?_eq_some_iff.2 ⟨hroom, rfl⟩
  rw [hybridSearch?, hbyPrefix, hbyWord]
  cases preferPrefix with
  | true =>
    refine ⟨Entry.merge byPrefix byWord limit, hmerge _ _, Entry.length_merge_le _ _ _, ?_⟩
    exact hcontains.merge hwords
  | false =>
    refine ⟨Entry.merge byWord byPrefix limit, hmerge _ _, Entry.length_merge_le _ _ _, ?_⟩
    have hmerged := hwords.merge hcontains
    simp only [or_comm (a := HasWords _ _)] at hmerged
    exact hmerged

/-- Without room there is no answer. -/
theorem hybridSearch?_of_maxRoom_lt (i : Index) (query : String) (hroom : Entry.maxRoom < limit) (preferPrefix : Bool)
    (ranking : Ranking) : i.hybridSearch? query limit preferPrefix ranking = none := by
  have hmerge : ∀ primary secondary, Entry.merge? primary secondary limit = none :=
    fun _ _ => if_neg (Nat.not_le.2 hroom)
  rw [hybridSearch?]
  cases i.prefixOrSubstringSearch? query limit false ranking with
  | none => rfl
  | some byPrefix =>
    cases i.keywordSearch? query limit ranking with
    | none => rfl
    | some byWord => cases preferPrefix <;> exact hmerge _ _

end Index
end Suggest
