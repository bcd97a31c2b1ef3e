/-
# Lists of entries

Appending entries one after the other, each unless its key is there, keeps the keys apart and loses none
(`Entry.mem_keys_pushAll`, `Entry.nodup_pushAll`).  What is there already stays as it is, whatever it repeats
(`Entry.pushAll_eq_append`).  A merge does the same with less room: it keeps the keys of both lists if there is room left at the
end (`Entry.mem_keys_merge`).

A merge is a first part of all that could be appended (`Entry.merge_eq_take`), and no more of each list counts for it than
there is room for (`Entry.merge_take`).
-/

import Mathlib.Data.List.Induction
import Mathlib.Data.List.Nodup
import Mathlib.Data.List.Perm.Subperm
import Suggest.Ranking

namespace Suggest

/-- What a first part is long enough for is taken from the first part. -/
theorem take_eq_take_of_le {α : Type} {xs ys : List α} (h : xs <+: ys) {n : Nat} (hn : n ≤ xs.length) :
    xs.take n = ys.take n := by
  obtain ⟨rest, rfl⟩ := h
  exact (List.take_append_of_le_length hn).symm

namespace Entry

theorem mem_of_mem_pushUnique {entries : List Entry} {e f : Entry} (h : f ∈ pushUnique entries e) :
    f ∈ entries ∨ f = e := by
  rw [pushUnique] at h
  split at h
  · exact .inl h
  · simpa using h

theorem length_pushUnique_le (entries : List Entry) (e : Entry) : entries.length ≤ (pushUnique entries e).length := by
  rw [pushUnique]
  split <;> simp

theorem pushAll_cons (entries : List Entry) (e : Entry) (rest : List Entry) :
    pushAll entries (e :: rest) = pushAll (pushUnique entries e) rest := rfl

theorem pushAll_append (entries more rest : List Entry) :
    pushAll entries (more ++ rest) = pushAll (pushAll entries more) rest :=
  List.foldl_append

theorem mem_keys_pushAll {entries more : List Entry} {k : Key} :
    k ∈ (pushAll entries more).map key ↔ k ∈ entries.map key ∨ k ∈ more.map key := by
  induction more generalizing entries with
  | nil => simp [pushAll]
  | cons e rest ih =>
    rw [pushAll_cons, ih, mem_keys_pushUnique, List.map_cons, List.mem_cons, or_assoc]

theorem nodup_pushAll {entries : List Entry} (h : (entries.map key).Nodup) (more : List Entry) :
    ((pushAll entries more).map key).Nodup := by
  induction more generalizing entries with
  | nil => exact h
  | cons e rest ih => exact ih (nodup_pushUnique h e)

/-- What is appended has a key that was not there. -/
theorem mem_or_not_mem_keys_of_mem_pushAll {entries more : List Entry} {e : Entry} (h : e ∈ pushAll entries more) :
    e ∈ entries ∨ e ∈ more ∧ e.key ∉ entries.map key := by
  induction more generalizing entries with
  | nil => exact .inl h
  | cons f rest ih =>
    rcases ih h with h | ⟨h, hkey⟩
    · rw [pushUnique] at h
      split at h
      · exact .inl h
      · next hnew =>
        rw [occurs_iff] at hnew
        rcases List.mem_append.1 h with h | h
        · exact .inl h
        · rw [List.mem_singleton.1 h]
          exact .inr ⟨List.mem_cons_self, hnew⟩
    · exact .inr ⟨List.mem_cons_of_mem f h, fun hold => hkey (mem_keys_pushUnique.2 (.inl hold))⟩

theorem mem_of_mem_pushAll {entries more : List Entry} {e : Entry} (h : e ∈ pushAll entries more) :
    e ∈ entries ∨ e ∈ more :=
  (mem_or_not_mem_keys_of_mem_pushAll h).imp_right And.left

/-- Entries of which the keys are there add nothing. -/
theorem pushAll_of_subset {entries more : List Entry} (h : ∀ e ∈ more, e.key ∈ entries.map key) :
    pushAll entries more = entries := by
  induction more with
  | nil => rfl
  | cons e rest ih =>
    rw [pushAll_cons, pushUnique, if_pos (occurs_iff.2 (h e (by simp)))]
    exact ih fun f hf => h f (by simp [hf])

theorem pushUnique_append (entries added : List Entry) (e : Entry) :
    pushUnique (entries ++ added) e =
      entries ++ if e.key ∈ entries.map key then added else pushUnique added e := by
  rw [pushUnique, pushUnique, occurs, occurs, List.any_append]
  by_cases hold : e.key ∈ entries.map key
  · rw [if_pos hold, ← occurs, occurs_iff.2 hold]
    rfl
  · rw [if_neg hold, ← occurs, Bool.eq_false_iff.2 fun h => hold (occurs_iff.1 h), Bool.false_or]
    split
    · rfl
    · exact List.append_assoc entries added [e]

/-- Appended are those entries of which the keys are not there. -/
theorem pushAll_eq_append (entries more : List Entry) :
    pushAll entries more = entries ++ pushAll [] (more.filter fun e => e.key ∉ entries.map key) := by
  -- what has been added so far is kept apart from what was there before
  have happend : ∀ more added : List Entry,
      pushAll (entries ++ added) more = entries ++ pushAll added (more.filter fun e => e.key ∉ entries.map key) := by
    intro more
    induction more with
    | nil => exact fun _ => rfl
    | cons e rest ih =>
      intro added
      rw [pushAll_cons, pushUnique_append, ih]
      by_cases hold : e.key ∈ entries.map key
      · rw [if_pos hold, List.filter_cons_of_neg (by simpa using hold)]
      · rw [if_neg hold, List.filter_cons_of_pos (by simpa using hold), pushAll_cons]
  simpa using happend more []

/-- **Of several entries with one key the first one is kept.** -/
theorem pushAll_eq_eraseDupsBy (entries : List Entry) :
    pushAll [] entries = entries.eraseDupsBy fun e f => e.key = f.key := by
  have hloop : ∀ more kept : List Entry,
      List.eraseDupsBy.loop (fun e f => decide (e.key = f.key)) more kept = pushAll kept.reverse more := by
    intro more
    induction more with
    | nil => exact fun _ => rfl
    | cons e rest ih =>
      intro kept
      have hany : (kept.any fun f => decide (e.key = f.key)) = occurs e.key kept.reverse := by
        simp [occurs, eq_comm]
      rw [List.eraseDupsBy.loop, hany, pushAll_cons, pushUnique]
      cases occurs e.key kept.reverse with
      | true => exact ih kept
      | false => simpa using ih (e :: kept)
  exact (hloop entries []).symm

/-- **Of several entries with one key the first one is found,** whether the later ones were appended or not. -/
theorem find?_pushAll (entries more : List Entry) (k : Key) :
    (pushAll entries more).find? (fun e => e.key = k) =
      (entries.find? fun e => e.key = k).or (more.find? fun e => e.key = k) := by
  induction more generalizing entries with
  | nil => simp [pushAll]
  | cons f rest ih =>
    rw [pushAll_cons, ih, pushUnique]
    split
    · next hold =>
      by_cases hkey : f.key = k
      · -- the entry that is there already is found first
        rw [occurs, hkey] at hold
        obtain ⟨e, he⟩ := Option.isSome_iff_exists.1 (List.find?_isSome.2 (List.any_eq_true.1 hold))
        rw [he, Option.some_or, Option.some_or]
      · rw [List.find?_cons_of_neg (by simpa using hkey)]
    · rw [List.find?_append, Option.or_assoc, ← List.find?_append, List.singleton_append]

/-- If keys do not repeat, each entry is the one that is found. -/
theorem find?_key_of_mem {entries : List Entry} (h : (entries.map key).Nodup) {e : Entry} (he : e ∈ entries) :
    entries.find? (fun f => f.key = e.key) = some e := by
  have hsome : (entries.find? fun f => f.key = e.key).isSome = true := List.find?_isSome.2 ⟨e, he, by simp⟩
  obtain ⟨f, hf⟩ := Option.isSome_iff_exists.1 hsome
  have hkey : f.key = e.key := by simpa using List.find?_some hf
  rw [hf, List.inj_on_of_nodup_map h (List.mem_of_find?_eq_some hf) he hkey]

/-- Distinct entries are appended as they are. -/
theorem pushAll_nil_of_nodup {more : List Entry} (h : (more.map key).Nodup) : pushAll [] more = more := by
  induction more using List.reverseRecOn with
  | nil => rfl
  | append_singleton more e ih =>
    rw [List.map_append, List.nodup_append] at h
    have hnew : ¬occurs e.key more = true := fun hold =>
      h.2.2 _ (occurs_iff.1 hold) _ (List.mem_singleton_self e.key) rfl
    rw [pushAll_append, ih h.1]
    exact if_neg hnew

theorem pushUnique_map_scaled (entries : List Entry) (e : Entry) (factor : Single) :
    pushUnique (entries.map (·.scaled factor)) (e.scaled factor) = (pushUnique entries e).map (·.scaled factor) := by
  have hoccurs : occurs e.key (entries.map (·.scaled factor)) = occurs e.key entries := by
    rw [occurs, List.any_map]
    rfl
  rw [pushUnique, key_scaled, hoccurs, pushUnique]
  split
  · rfl
  · rw [List.map_append]
    rfl

/-- The weight of entries makes no difference to which of them are appended. -/
theorem pushAll_map_scaled (entries more : List Entry) (factor : Single) :
    pushAll (entries.map (·.scaled factor)) (more.map (·.scaled factor)) = (pushAll entries more).map (·.scaled factor) := by
  induction more generalizing entries with
  | nil => rfl
  | cons e rest ih => rw [List.map_cons, pushAll_cons, pushUnique_map_scaled, ih, pushAll_cons]

/-- A key that is there occurs as often as before. -/
theorem count_keys_pushAll_of_mem {entries : List Entry} {k : Key} (h : k ∈ entries.map key) (more : List Entry) :
    ((pushAll entries more).map key).count k = (entries.map key).count k := by
  have hnew : k ∉ (pushAll [] (more.filter fun e => e.key ∉ entries.map key)).map key := by
    intro hk
    rcases mem_keys_pushAll.1 hk with hk | hk
    · cases hk
    · obtain ⟨e, he, rfl⟩ := List.mem_map.1 hk
      exact of_decide_eq_true (List.mem_filter.1 he).2 h
  rw [pushAll_eq_append, List.map_append, List.count_append, List.count_eq_zero_of_not_mem hnew, Nat.add_zero]

/-- No key occurs more than once, unless it did before. -/
theorem count_keys_pushAll_le (entries more : List Entry) (k : Key) :
    ((pushAll entries more).map key).count k ≤ max 1 ((entries.map key).count k) := by
  by_cases h : k ∈ entries.map key
  · rw [count_keys_pushAll_of_mem h]
    exact Nat.le_max_right _ _
  · rw [pushAll_eq_append, List.map_append, List.count_append, List.count_eq_zero_of_not_mem h, Nat.zero_add]
    exact Nat.le_trans (List.nodup_iff_count_le_one.1 (@nodup_pushAll [] List.nodup_nil _) k) (Nat.le_max_left _ _)

/-! ### Merging -/

theorem length_le_foldl_offer (limit : Nat) (entries more : List Entry) :
    entries.length ≤ (more.foldl (offer limit) entries).length := by
  induction more generalizing entries with
  | nil => exact Nat.le_refl _
  | cons e rest ih =>
    refine Nat.le_trans ?_ (ih _)
    rw [offer]
    split
    · exact length_pushUnique_le entries e
    · exact Nat.le_refl _

theorem length_foldl_offer_le {limit : Nat} {entries : List Entry} (h : entries.length ≤ limit) (more : List Entry) :
    (more.foldl (offer limit) entries).length ≤ limit := by
  induction more generalizing entries with
  | nil => exact h
  | cons e rest ih => exact ih (length_offer_le h e)

theorem nodup_foldl_offer {limit : Nat} {entries : List Entry} (h : (entries.map key).Nodup) (more : List Entry) :
    ((more.foldl (offer limit) entries).map key).Nodup := by
  induction more generalizing entries with
  | nil => exact h
  | cons e rest ih =>
    refine ih ?_
    rw [offer]
    split
    · exact nodup_pushUnique h e
    · exact h

theorem mem_of_mem_foldl_offer {limit : Nat} {entries more : List Entry} {e : Entry}
    (h : e ∈ more.foldl (offer limit) entries) : e ∈ entries ∨ e ∈ more := by
  induction more generalizing entries with
  | nil => exact .inl h
  | cons f rest ih =>
    rcases ih h with h | h
    · rw [offer] at h
      split at h
      · rcases mem_of_mem_pushUnique h with h | rfl
        · exact .inl h
        · exact .inr List.mem_cons_self
      · exact .inl h
    · exact .inr (List.mem_cons_of_mem f h)

/-- If there is room left, nothing was left out. -/
theorem foldl_offer_of_length_lt {limit : Nat} {entries more : List Entry}
    (h : (more.foldl (offer limit) entries).length < limit) : more.foldl (offer limit) entries = pushAll entries more := by
  induction more generalizing entries with
  | nil => rfl
  | cons e rest ih =>
    have hroom : entries.length < limit :=
      Nat.lt_of_le_of_lt (length_le_foldl_offer limit entries (e :: rest)) h
    have hoffer : offer limit entries e = pushUnique entries e := if_pos hroom
    rw [List.foldl_cons, hoffer] at h ⊢
    exact ih h

theorem length_merge_le (primary secondary : List Entry) (limit : Nat) :
    (merge primary secondary limit).length ≤ limit :=
  length_foldl_offer_le (length_foldl_offer_le (Nat.zero_le limit) primary) _

theorem nodup_keys_merge (primary secondary : List Entry) (limit : Nat) :
    ((merge primary secondary limit).map key).Nodup :=
  nodup_foldl_offer (@nodup_foldl_offer limit [] List.nodup_nil primary) _

theorem mem_merge {primary secondary : List Entry} {limit : Nat} {e : Entry} (h : e ∈ merge primary secondary limit) :
    e ∈ primary ∨ ∃ f ∈ secondary, e = f.scaled Ranking.secondaryWeight := by
  rcases mem_of_mem_foldl_offer h with h | h
  · rcases mem_of_mem_foldl_offer h with h | h
    · cases h
    · exact .inl h
  · obtain ⟨f, hf, rfl⟩ := List.mem_map.1 h
    exact .inr ⟨f, hf, rfl⟩

/-- **If there is room left, the keys of both lists are there.** -/
theorem mem_keys_merge {primary secondary : List Entry} {limit : Nat}
    (h : (merge primary secondary limit).length < limit) {k : Key} :
    k ∈ (merge primary secondary limit).map key ↔ k ∈ primary.map key ∨ k ∈ secondary.map key := by
  have hprimary : (primary.foldl (offer limit) []).length < limit :=
    Nat.lt_of_le_of_lt (length_le_foldl_offer limit _ _) h
  have hkeys : (secondary.map fun e => e.scaled Ranking.secondaryWeight).map key = secondary.map key := by
    rw [List.map_map]
    rfl
  rw [merge] at h ⊢
  rw [foldl_offer_of_length_lt h, foldl_offer_of_length_lt hprimary, mem_keys_pushAll, mem_keys_pushAll, hkeys]
  simp

/-! ### The room of a merge -/

theorem prefix_pushUnique (entries : List Entry) (e : Entry) : entries <+: pushUnique entries e := by
  rw [pushUnique]
  split
  · exact List.prefix_rfl
  · exact List.prefix_append _ _

/-- What is there stays in front. -/
theorem prefix_pushAll (entries more : List Entry) : entries <+: pushAll entries more := by
  induction more generalizing entries with
  | nil => exact List.prefix_rfl
  | cons e rest ih => exact (prefix_pushUnique entries e).trans (ih _)

/-- Appending within limits is a first part of appending. -/
theorem foldl_offer_eq_take {limit : Nat} {entries : List Entry} (h : entries.length ≤ limit) (more : List Entry) :
    more.foldl (offer limit) entries = (pushAll entries more).take limit := by
  induction more generalizing entries with
  | nil => exact (List.take_of_length_le h).symm
  | cons e rest ih =>
    rw [List.foldl_cons, ih (length_offer_le h e), pushAll_cons, offer]
    split
    · rfl
    · -- there is no room for anything behind the entries
      next hfull =>
      have hlimit : limit ≤ entries.length := Nat.le_of_not_lt hfull
      rw [← take_eq_take_of_le (prefix_pushAll entries rest) hlimit]
      exact take_eq_take_of_le ((prefix_pushUnique entries e).trans (prefix_pushAll _ rest)) hlimit

/-- **A merge is a first part of all entries of both lists.** -/
theorem merge_eq_take (primary secondary : List Entry) (limit : Nat) :
    merge primary secondary limit =
      (pushAll ((pushAll [] primary).take limit) (secondary.map fun e => e.scaled Ranking.secondaryWeight)).take limit := by
  have hprimary := @foldl_offer_eq_take limit [] (Nat.zero_le limit) primary
  rw [merge, hprimary, foldl_offer_eq_take (List.length_take_le limit _)]

/-- No more of what is there counts than is taken in the end. -/
theorem take_pushAll_take_left (entries more : List Entry) (n : Nat) :
    (pushAll (entries.take n) more).take n = (pushAll entries more).take n := by
  rcases Nat.le_total entries.length n with hshort | hlong
  · rw [List.take_of_length_le hshort]
  · have htaken : n ≤ (entries.take n).length := Nat.le_of_eq (List.length_take_of_le hlong).symm
    rw [← take_eq_take_of_le (prefix_pushAll (entries.take n) more) htaken, List.take_take, Nat.min_self]
    exact take_eq_take_of_le (prefix_pushAll entries more) hlong

/-- Distinct entries make a list no shorter than they are. -/
theorem length_le_pushAll (entries : List Entry) {more : List Entry} (h : (more.map key).Nodup) :
    more.length ≤ (pushAll entries more).length := by
  have hsubset : more.map key ⊆ (pushAll entries more).map key := fun k hk => mem_keys_pushAll.2 (.inr hk)
  have hlength := (List.subperm_of_subset h hsubset).length_le
  rwa [List.length_map, List.length_map] at hlength

/-- No more of distinct entries count than are taken in the end. -/
theorem take_pushAll_take_right (entries : List Entry) {more : List Entry} (h : (more.map key).Nodup) (n : Nat) :
    (pushAll entries (more.take n)).take n = (pushAll entries more).take n := by
  rcases Nat.le_total more.length n with hshort | hlong
  · rw [List.take_of_length_le hshort]
  · have hdistinct : ((more.take n).map key).Nodup := List.Nodup.sublist ((List.take_sublist n more).map key) h
    have hlength := length_le_pushAll entries hdistinct
    rw [List.length_take, Nat.min_eq_left hlong] at hlength
    have hsplit := pushAll_append entries (more.take n) (more.drop n)
    rw [List.take_append_drop] at hsplit
    rw [hsplit]
    exact take_eq_take_of_le (prefix_pushAll _ _) hlength

/-- **No more of two lists of distinct entries count for a merge than it has room for.** -/
theorem merge_take {primary secondary : List Entry} (hprimary : (primary.map key).Nodup)
    (hsecondary : (secondary.map key).Nodup) (limit : Nat) :
    merge (primary.take limit) (secondary.take limit) limit =
      (pushAll (pushAll [] primary) (secondary.map fun e => e.scaled Ranking.secondaryWeight)).take limit := by
  have hkeys : ((secondary.map fun e => e.scaled Ranking.secondaryWeight).map key).Nodup := by
    rw [List.map_map]
    exact hsecondary
  rw [merge_eq_take, take_pushAll_take_right [] hprimary, List.map_take, take_pushAll_take_right _ hkeys,
    take_pushAll_take_left]

end Entry
end Suggest
