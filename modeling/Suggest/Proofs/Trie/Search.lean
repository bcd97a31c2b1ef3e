/-
# What a search in a trie meets

A search visits the places below the one it begins at (`Below`), in an order that does not matter here.  With as much fuel as
there are nodes it visits each of them once (`IsTree.mem_visit_iff`, `IsTree.nodup_visit`), unless it has met enough before:
what it meets is a first part of what stands at those places, and all of it if that is less than the limit
(`prefix_collect`, `collect_of_length_lt`).

So a search finds entries of texts that start with the prefix (`mem_search?`), and all of them if they are fewer than the limit
or the limit allows all entries that there are (`mem_search?_of_length_lt`, `mem_search?_of_length_le`).  It has no answer only if
it has met many, one of which has a score that is no number (`exists_nan_of_search?_eq_none`).
-/

import Mathlib.Data.List.Flatten
import Mathlib.Data.List.Nodup
import Mathlib.Data.List.Perm.Subperm
import Suggest.Proofs.Trie.Matches
import Suggest.Proofs.Trie.Paths

namespace Suggest
namespace Trie

/-- Whether a path from one place ends at another. -/
def Below (nodes : Array Node) (p k : Nat) : Prop := ∃ cs, walk nodes p cs = some k

theorem Below.refl (nodes : Array Node) (p : Nat) : Below nodes p p := ⟨[], rfl⟩

theorem below_iff {nodes : Array Node} {p k : Nat} :
    Below nodes p k ↔ k = p ∨ ∃ c child, child? nodes p c = some child ∧ Below nodes child k := by
  constructor
  · rintro ⟨cs, hk⟩
    cases cs with
    | nil => exact .inl (Option.some.inj hk).symm
    | cons c rest =>
      rw [walk_cons, Option.bind_eq_some_iff] at hk
      obtain ⟨child, hc, hk⟩ := hk
      exact .inr ⟨c, child, hc, rest, hk⟩
  · rintro (rfl | ⟨c, child, hc, cs, hk⟩)
    · exact .refl nodes k
    · exact ⟨c :: cs, by rw [walk_cons, hc]; exact hk⟩

variable {nodes : Array Node}

theorem IsTree.le_of_below (h : IsTree nodes) {p k : Nat} (hk : Below nodes p k) : p ≤ k := by
  obtain ⟨cs, hk⟩ := hk
  induction cs generalizing p with
  | nil => exact Nat.le_of_eq (Option.some.inj hk)
  | cons c rest ih =>
    rw [walk_cons, Option.bind_eq_some_iff] at hk
    obtain ⟨child, hc, hk⟩ := hk
    exact Nat.le_trans (Nat.le_of_lt (h.forward hc).1) (ih hk)

theorem IsTree.below_lt (h : IsTree nodes) {p k : Nat} (hp : p < nodes.size) (hk : Below nodes p k) : k < nodes.size := by
  obtain ⟨cs, hk⟩ := hk
  exact h.walk_lt hp hk

/-- Two places below which nothing is in common. -/
def Apart (nodes : Array Node) (p q : Nat) : Prop := ∀ k, Below nodes p k → ¬Below nodes q k

/-- Nothing is below two children of one place. -/
theorem IsTree.apart_children (h : IsTree nodes) {p a b : Nat} (hp : p < nodes.size) {c d : Char}
    (ha : child? nodes p c = some a) (hb : child? nodes p d = some b) (hne : a ≠ b) : Apart nodes a b := by
  rintro k ⟨cs, hcs⟩ ⟨ds, hds⟩
  obtain ⟨path, hpath⟩ := h.exists_path hp
  have hthrough : ∀ {e child es}, child? nodes p e = some child → walk nodes child es = some k →
      walk nodes 0 (path ++ e :: es) = some k := by
    intro e child es he hes
    rw [walk_append, hpath, Option.bind_some, walk_cons, he]
    exact hes
  have heq := h.path_unique (hthrough ha hcs) (hthrough hb hds)
  rw [List.append_cancel_left_eq, List.cons_eq_cons] at heq
  rw [heq.1, hb] at ha
  exact hne (Option.some.inj ha).symm

/-- The places that are visited if there is never enough. -/
def visit (t : Trie) : Nat → List Nat → List Nat
  | 0, _ => []
  | _, [] => []
  | fuel + 1, place :: stack => place :: t.visit fuel ((t.node place).children.values ++ stack)

/-- Whether the places on a stack are there, and nothing is below two of them. -/
structure Stacked (nodes : Array Node) (stack : List Nat) : Prop where
  bounded : ∀ p ∈ stack, p < nodes.size
  apart : stack.Pairwise (Apart nodes)

theorem stacked_of_lt {nodes : Array Node} {p : Nat} (hp : p < nodes.size) : Stacked nodes [p] :=
  ⟨fun q hq => by rwa [List.mem_singleton.1 hq], List.pairwise_singleton _ p⟩

theorem getElem?_eq_node {t : Trie} {place : Nat} (hplace : place < t.nodes.size) :
    t.nodes[place]? = some (t.node place) := by
  rw [node, Array.getD_eq_getD_getElem?, Array.getElem?_eq_getElem hplace]
  rfl

theorem mem_children_values {t : Trie} {place k : Nat} (hplace : place < t.nodes.size) :
    k ∈ (t.node place).children.values ↔ ∃ c, child? t.nodes place c = some k :=
  mem_values_iff (getElem?_eq_node hplace)

/-- The stack after a visit. -/
theorem IsTree.stacked_next {t : Trie} (h : IsTree t.nodes) {place : Nat} {stack : List Nat}
    (hstack : Stacked t.nodes (place :: stack)) : Stacked t.nodes ((t.node place).children.values ++ stack) := by
  have hplace := hstack.bounded place List.mem_cons_self
  have hchild : ∀ k ∈ (t.node place).children.values, ∃ c, child? t.nodes place c = some k :=
    fun k hk => (mem_children_values hplace).1 hk
  obtain ⟨hapart, hrest⟩ := List.pairwise_cons.1 hstack.apart
  refine ⟨fun p hp => ?_, List.pairwise_append.2 ⟨?_, hrest, fun p hp q hq k hk => ?_⟩⟩
  · rcases List.mem_append.1 hp with hp | hp
    · obtain ⟨c, hc⟩ := hchild p hp
      exact (h.forward hc).2
    · exact hstack.bounded p (List.mem_cons_of_mem place hp)
  · have hvalues := h.nodup_values (getElem?_eq_node hplace)
    refine hvalues.imp_of_mem fun {a b} ha hb hne => ?_
    obtain ⟨c, hc⟩ := hchild a ha
    obtain ⟨d, hd⟩ := hchild b hb
    exact h.apart_children hplace hc hd hne
  · obtain ⟨c, hc⟩ := hchild p hp
    exact hapart q hq k (below_iff.2 (.inr ⟨c, p, hc, hk⟩))

theorem Apart.symm {p q : Nat} (h : Apart nodes p q) : Apart nodes q p := fun k hq hp => h k hp hq

theorem Stacked.perm {stack other : List Nat} (h : Stacked nodes stack) (hperm : stack.Perm other) : Stacked nodes other :=
  ⟨fun p hp => h.bounded p (hperm.mem_iff.2 hp), hperm.pairwise h.apart fun hpq => hpq.symm⟩

/-- **What is below the stack after a visit is what was below it before, without the place that was visited.** -/
theorem IsTree.below_next_iff {t : Trie} (h : IsTree t.nodes) {place : Nat} {stack : List Nat}
    (hstack : Stacked t.nodes (place :: stack)) {k : Nat} :
    (∃ p ∈ (t.node place).children.values ++ stack, Below t.nodes p k) ↔
      k ≠ place ∧ ∃ p ∈ place :: stack, Below t.nodes p k := by
  have hplace := hstack.bounded place List.mem_cons_self
  constructor
  · rintro ⟨p, hp, hk⟩
    rcases List.mem_append.1 hp with hp | hp
    · obtain ⟨c, hc⟩ := (mem_children_values hplace).1 hp
      have := (h.forward hc).1
      have := h.le_of_below hk
      exact ⟨by omega, place, List.mem_cons_self, below_iff.2 (.inr ⟨c, p, hc, hk⟩)⟩
    · refine ⟨fun heq => ?_, p, List.mem_cons_of_mem place hp, hk⟩
      exact (List.pairwise_cons.1 hstack.apart).1 p hp place (.refl _ place) (heq ▸ hk)
  · rintro ⟨hne, p, hp, hk⟩
    rcases List.mem_cons.1 hp with rfl | hp
    · obtain ⟨c, child, hc, hk⟩ := (below_iff.1 hk).resolve_left hne
      exact ⟨child, List.mem_append_left _ ((mem_children_values hplace).2 ⟨c, hc⟩), hk⟩
    · exact ⟨p, List.mem_append_right _ hp, hk⟩

/-- What is visited is below a place on the stack. -/
theorem IsTree.below_of_mem_visit {t : Trie} (h : IsTree t.nodes) (fuel : Nat) {stack : List Nat}
    (hstack : Stacked t.nodes stack) {k : Nat} (hk : k ∈ t.visit fuel stack) : ∃ p ∈ stack, Below t.nodes p k := by
  induction fuel generalizing stack with
  | zero => cases hk
  | succ fuel ih =>
    cases stack with
    | nil => cases hk
    | cons place stack =>
      rw [visit] at hk
      rcases List.mem_cons.1 hk with rfl | hk
      · exact ⟨k, List.mem_cons_self, .refl _ k⟩
      · exact ((h.below_next_iff hstack).1 (ih (h.stacked_next hstack) hk)).2

/-- No place is visited twice. -/
theorem IsTree.nodup_visit {t : Trie} (h : IsTree t.nodes) (fuel : Nat) {stack : List Nat}
    (hstack : Stacked t.nodes stack) : (t.visit fuel stack).Nodup := by
  induction fuel generalizing stack with
  | zero => exact List.nodup_nil
  | succ fuel ih =>
    cases stack with
    | nil => exact List.nodup_nil
    | cons place stack =>
      have hnext := h.stacked_next hstack
      rw [visit]
      refine List.nodup_cons.2 ⟨fun hmem => ?_, ih hnext⟩
      exact ((h.below_next_iff hstack).1 (h.below_of_mem_visit fuel hnext hmem)).1 rfl

/-- If there is fuel left, everything below the stack is visited. -/
theorem IsTree.mem_visit_of_length_lt {t : Trie} (h : IsTree t.nodes) {fuel : Nat} {stack : List Nat}
    (hstack : Stacked t.nodes stack) (hfuel : (t.visit fuel stack).length < fuel) {p k : Nat} (hp : p ∈ stack)
    (hk : Below t.nodes p k) : k ∈ t.visit fuel stack := by
  induction fuel generalizing stack p with
  | zero => omega
  | succ fuel ih =>
    cases stack with
    | nil => cases hp
    | cons place stack =>
      rw [visit, List.length_cons, Nat.add_lt_add_iff_right] at hfuel
      rw [visit, List.mem_cons]
      by_cases heq : k = place
      · exact .inl heq
      · obtain ⟨q, hq, hbelow⟩ := (h.below_next_iff hstack).2 ⟨heq, p, hp, hk⟩
        exact .inr (ih (h.stacked_next hstack) hfuel hq hbelow)

/-- The places that are visited are some of those that there are. -/
theorem IsTree.visit_subperm_range {t : Trie} (h : IsTree t.nodes) (fuel : Nat) {stack : List Nat}
    (hstack : Stacked t.nodes stack) : (t.visit fuel stack).Subperm (List.range t.nodes.size) := by
  refine List.subperm_of_subset (h.nodup_visit fuel hstack) fun k hk => ?_
  obtain ⟨p, hp, hbelow⟩ := h.below_of_mem_visit _ hstack hk
  exact List.mem_range.2 (h.below_lt (hstack.bounded p hp) hbelow)

/-- **With fuel for all nodes what is below the stack is visited, and nothing else.** -/
theorem IsTree.mem_visit_iff {t : Trie} (h : IsTree t.nodes) {stack : List Nat} (hstack : Stacked t.nodes stack)
    {k : Nat} : k ∈ t.visit t.nodes.size stack ↔ ∃ p ∈ stack, Below t.nodes p k := by
  refine ⟨h.below_of_mem_visit _ hstack, ?_⟩
  rintro ⟨p, hp, hk⟩
  rcases Nat.lt_or_ge (t.visit t.nodes.size stack).length t.nodes.size with hlt | hge
  · exact h.mem_visit_of_length_lt hstack hlt hp hk
  · -- every node has been visited
    have hperm := (h.visit_subperm_range _ hstack).perm_of_length_le (by rwa [List.length_range])
    exact hperm.mem_iff.2 (List.mem_range.2 (h.below_lt (hstack.bounded p hp) hk))

/-- What is met is a first part of what stands at the places that are visited. -/
theorem prefix_collect (t : Trie) (limit fuel : Nat) (stack : List Nat) (met : List Match) :
    t.collect limit fuel stack met <+: met ++ (t.visit fuel stack).flatMap fun p => (t.node p).matches := by
  induction fuel generalizing stack met with
  | zero => simp [collect, visit]
  | succ fuel ih =>
    cases stack with
    | nil => simp [collect, visit]
    | cons place stack =>
      rw [collect, visit, List.flatMap_cons, ← List.append_assoc]
      split
      · exact List.prefix_append _ _
      · exact ih _ _

/-- **All of it is met if it is less than the limit.** -/
theorem collect_of_length_lt {t : Trie} {limit fuel : Nat} {stack : List Nat} {met : List Match}
    (h : (t.collect limit fuel stack met).length < limit) :
    t.collect limit fuel stack met = met ++ (t.visit fuel stack).flatMap fun p => (t.node p).matches := by
  induction fuel generalizing stack met with
  | zero => simp [collect, visit]
  | succ fuel ih =>
    cases stack with
    | nil => simp [collect, visit]
    | cons place stack =>
      rw [collect] at h ⊢
      rw [visit, List.flatMap_cons, ← List.append_assoc]
      split
      · next henough =>
        rw [if_pos henough] at h
        omega
      · next hmore =>
        rw [if_neg hmore] at h
        exact ih h

/-- All of it is met if there is room for it. -/
theorem collect_of_length_le {t : Trie} {limit fuel : Nat} {stack : List Nat} {met : List Match}
    (h : (met ++ (t.visit fuel stack).flatMap fun p => (t.node p).matches).length ≤ limit) :
    t.collect limit fuel stack met = met ++ (t.visit fuel stack).flatMap fun p => (t.node p).matches := by
  rcases Nat.lt_or_ge (t.collect limit fuel stack met).length limit with hlt | hge
  · exact collect_of_length_lt hlt
  · have hfirst := prefix_collect t limit fuel stack met
    exact hfirst.eq_of_length_le (Nat.le_trans h hge)

/-! ### What is found -/

/-- Whether every node with entries ends a text. -/
def Ended (nodes : Array Node) : Prop := ∀ p, (nodes.getD p {}).entries ≠ [] → (nodes.getD p {}).terminal = true

theorem Ended.matches {t : Trie} (h : Ended t.nodes) (p : Nat) : (t.node p).matches.map Match.entry = (t.node p).entries := by
  rw [Node.matches]
  split
  · rw [List.map_map]
    exact List.map_id _
  · next hterminal =>
    by_contra hne
    exact hterminal (h p (Ne.symm hne))

theorem Ended.flatMap_matches {t : Trie} (h : Ended t.nodes) (places : List Nat) :
    (places.flatMap fun p => (t.node p).matches).map Match.entry = places.flatMap fun p => (t.node p).entries := by
  rw [List.map_flatMap]
  simp only [h.matches]

variable {inserts : List (String × Entry)}

theorem ended_ofInserts (inserts : List (String × Entry)) : Ended (Index.ofInserts inserts).trie.nodes := by
  induction inserts using List.reverseRecOn with
  | nil =>
    intro p hp
    have hnone : ((Index.ofInserts []).trie.nodes.getD p {}).entries = [] := by
      change ((#[{}] : Array Node).getD p {}).entries = []
      cases p <;> rfl
    exact absurd hnone hp
  | append_singleton inserts x ih =>
    rw [Index.ofInserts_concat, Index.insert]
    dsimp only
    rw [nodes_insert]
    have htree := isTree_ofInserts inserts
    have hsize := (Index.ofInserts inserts).trie.size_pos
    have hgrows := htree.grows_extendAll hsize (Text.lower x.1).toList
    have hplace := (htree.extendAll hsize (Text.lower x.1).toList).2
    intro p hp
    rw [getD_modify hplace] at hp ⊢
    split
    · rfl
    · next hne =>
      rw [if_neg hne] at hp
      obtain ⟨children, hsame⟩ := hgrows.same p
      rw [hsame] at hp ⊢
      exact ih p hp

/-- At the end of a path stand the entries of its text. -/
theorem entries_of_walk {cs : List Char} {p : Nat} (h : walk (Index.ofInserts inserts).trie.nodes 0 cs = some p) :
    ((Index.ofInserts inserts).trie.node p).entries = (Index.ofInserts inserts).texts.exact (String.ofList cs) := by
  rw [← entries_contentAt_ofInserts, contentAt_of_walk h]
  rfl

theorem IsTree.stacked_singleton (h : IsTree nodes) {cs : List Char} {p : Nat} (hp : walk nodes 0 cs = some p) :
    Stacked nodes [p] := stacked_of_lt (h.walk_lt h.rooted hp)

/-- What stands below a place stands there under a longer text. -/
theorem mem_visit_walk {cs : List Char} {p k : Nat} (hp : walk (Index.ofInserts inserts).trie.nodes 0 cs = some p) :
    k ∈ (Index.ofInserts inserts).trie.visit (Index.ofInserts inserts).trie.nodes.size [p] ↔
      ∃ ds, cs <+: ds ∧ walk (Index.ofInserts inserts).trie.nodes 0 ds = some k := by
  have htree := isTree_ofInserts inserts
  rw [htree.mem_visit_iff (htree.stacked_singleton hp)]
  constructor
  · rintro ⟨q, hq, ds, hds⟩
    rw [List.mem_singleton.1 hq] at hds
    exact ⟨cs ++ ds, List.prefix_append cs ds, by rw [walk_append, hp]; exact hds⟩
  · rintro ⟨_, ⟨ds, rfl⟩, hds⟩
    rw [walk_append, hp] at hds
    exact ⟨p, List.mem_singleton_self p, ds, hds⟩

/-- A search that is asked for something sorts what it meets below the place of its prefix. -/
theorem search?_eq {t : Trie} {start : String} (hstart : start.isEmpty = false) {place : Nat}
    (hplace : t.find? start = some place) {limit : Nat} (hlimit : 0 < limit) (tieBreak : TieBreak) :
    t.search? start limit tieBreak = (Match.sort? tieBreak (t.collect limit t.nodes.size [place] [])).map fun sorted =>
      (sorted.take limit).map Match.entry := by
  have hasked : ¬(start.isEmpty || limit = 0) = true := by
    simp [hstart]
    omega
  rw [search?, if_neg hasked, hplace]

/-- A search finds nothing, or it finds the place of its prefix, and what it finds are the first ones of what it meets below
that, sorted. -/
theorem search?_cases {t : Trie} {start : String} {limit : Nat} {tieBreak : TieBreak} {found : List Entry}
    (h : t.search? start limit tieBreak = some found) :
    found = [] ∨ ∃ p, walk t.nodes 0 (Text.lower start).toList = some p ∧
      ∃ sorted : List Match, sorted.Perm (t.collect limit t.nodes.size [p] []) ∧
        found = (sorted.take limit).map Match.entry := by
  rw [search?, find?_eq_walk] at h
  split at h
  · cases h
    exact .inl rfl
  · cases hp : walk t.nodes 0 (Text.lower start).toList with
    | none =>
      rw [hp] at h
      cases h
      exact .inl rfl
    | some p =>
      rw [hp] at h
      obtain ⟨sorted, hsorted, rfl⟩ := Option.map_eq_some_iff.1 h
      exact .inr ⟨p, rfl, sorted, Match.perm_sort? hsorted, rfl⟩

/-- What is found is met below the place of the prefix. -/
theorem mem_search?_cases {t : Trie} {start : String} {limit : Nat} {tieBreak : TieBreak} {found : List Entry}
    (h : t.search? start limit tieBreak = some found) {e : Entry} (he : e ∈ found) :
    ∃ p, walk t.nodes 0 (Text.lower start).toList = some p ∧ ∃ m ∈ t.collect limit t.nodes.size [p] [], m.entry = e := by
  rcases search?_cases h with rfl | ⟨p, hp, sorted, hperm, rfl⟩
  · cases he
  · obtain ⟨m, hm, rfl⟩ := List.mem_map.1 he
    exact ⟨p, hp, m, hperm.mem_iff.1 (List.mem_of_mem_take hm), rfl⟩

/-- Without an answer many matches were met below the place of the prefix, and the score of one of them is no number. -/
theorem exists_nan_of_search?_eq_none {t : Trie} {start : String} {limit : Nat} {tieBreak : TieBreak}
    (h : t.search? start limit tieBreak = none) :
    ∃ p, walk t.nodes 0 (Text.lower start).toList = some p ∧ 20 < (t.collect limit t.nodes.size [p] []).length ∧
      ∃ m ∈ t.collect limit t.nodes.size [p] [], m.entry.score = .nan := by
  rw [search?, find?_eq_walk] at h
  split at h
  · cases h
  · cases hp : walk t.nodes 0 (Text.lower start).toList with
    | none =>
      rw [hp] at h
      cases h
    | some p =>
      rw [hp] at h
      exact ⟨p, rfl, Match.exists_nan_of_sort?_eq_none (Option.map_eq_none_iff.1 h)⟩

/-- What is met below a place stands under a text that goes on from its path. -/
theorem mem_exact_of_mem_collect {path : List Char} {p : Nat}
    (hp : walk (Index.ofInserts inserts).trie.nodes 0 path = some p) {limit : Nat} {m : Match}
    (hm : m ∈ (Index.ofInserts inserts).trie.collect limit (Index.ofInserts inserts).trie.nodes.size [p] []) :
    ∃ cs, path <+: cs ∧ m.entry ∈ (Index.ofInserts inserts).texts.exact (String.ofList cs) := by
  have hmem := (prefix_collect _ _ _ _ _).subset hm
  rw [List.nil_append] at hmem
  obtain ⟨k, hk, hm⟩ := List.mem_flatMap.1 hmem
  obtain ⟨cs, hcs, hwalk⟩ := (mem_visit_walk hp).1 hk
  refine ⟨cs, hcs, ?_⟩
  rw [← entries_of_walk hwalk, ← (ended_ofInserts inserts).matches]
  exact List.mem_map_of_mem hm

/-- **What a search finds is inserted under a text that starts with the prefix.** -/
theorem mem_search? {start : String} {limit : Nat} {tieBreak : TieBreak} {found : List Entry}
    (h : (Index.ofInserts inserts).trie.search? start limit tieBreak = some found) {e : Entry} (he : e ∈ found) :
    ∃ cs, (Text.lower start).toList <+: cs ∧ e ∈ (Index.ofInserts inserts).texts.exact (String.ofList cs) := by
  obtain ⟨p, hp, m, hm, rfl⟩ := mem_search?_cases h he
  exact mem_exact_of_mem_collect hp hm

/-- Where an entry stands under a text, the paths to the text are there. -/
theorem exists_walk_of_mem_exact {cs ds : List Char} {e : Entry} (h : cs <+: ds)
    (he : e ∈ (Index.ofInserts inserts).texts.exact (String.ofList ds)) :
    ∃ p, walk (Index.ofInserts inserts).trie.nodes 0 cs = some p := by
  cases hk : walk (Index.ofInserts inserts).trie.nodes 0 ds with
  | some k => exact exists_walk_of_prefix h hk
  | none =>
    rw [← entries_contentAt_ofInserts, contentAt_of_walk_none hk] at he
    cases he

/-- A search that meets all there is below the place of its prefix finds all of it. -/
theorem mem_search?_of_collect {start : String} (hstart : start.isEmpty = false) {limit : Nat} (hlimit : 0 < limit)
    {tieBreak : TieBreak} {found : List Entry}
    (h : (Index.ofInserts inserts).trie.search? start limit tieBreak = some found) {p : Nat}
    (hp : walk (Index.ofInserts inserts).trie.nodes 0 (Text.lower start).toList = some p)
    (hfew : ((Index.ofInserts inserts).trie.collect limit (Index.ofInserts inserts).trie.nodes.size [p] []).length ≤ limit)
    (hall : (Index.ofInserts inserts).trie.collect limit (Index.ofInserts inserts).trie.nodes.size [p] [] =
      ((Index.ofInserts inserts).trie.visit (Index.ofInserts inserts).trie.nodes.size [p]).flatMap fun q =>
        ((Index.ofInserts inserts).trie.node q).matches)
    {cs : List Char} {e : Entry} (hcs : (Text.lower start).toList <+: cs)
    (he : e ∈ (Index.ofInserts inserts).texts.exact (String.ofList cs)) : e ∈ found := by
  obtain ⟨k, hk⟩ := exists_walk_of_mem_exact List.prefix_rfl he
  rw [search?_eq hstart ((find?_eq_walk _ _).trans hp) hlimit] at h
  obtain ⟨sorted, hsorted, rfl⟩ := Option.map_eq_some_iff.1 h
  have hperm := Match.perm_sort? hsorted
  rw [List.take_of_length_le (by rwa [hperm.length_eq]), (hperm.map Match.entry).mem_iff, hall, List.map_flatMap,
    List.mem_flatMap]
  refine ⟨k, (mem_visit_walk hp).2 ⟨cs, hcs, hk⟩, ?_⟩
  rwa [(ended_ofInserts inserts).matches, entries_of_walk hk]

/-- **If a search finds fewer entries than the limit, it finds all of texts that start with the prefix.** -/
theorem mem_search?_of_length_lt {start : String} (hstart : start.isEmpty = false) {limit : Nat} {tieBreak : TieBreak}
    {found : List Entry} (h : (Index.ofInserts inserts).trie.search? start limit tieBreak = some found)
    (hshort : found.length < limit) {cs : List Char} {e : Entry} (hcs : (Text.lower start).toList <+: cs)
    (he : e ∈ (Index.ofInserts inserts).texts.exact (String.ofList cs)) : e ∈ found := by
  obtain ⟨p, hp⟩ := exists_walk_of_mem_exact hcs he
  have hlimit : 0 < limit := Nat.lt_of_le_of_lt (Nat.zero_le _) hshort
  have hfew : ((Index.ofInserts inserts).trie.collect limit (Index.ofInserts inserts).trie.nodes.size [p] []).length <
      limit := by
    rw [search?_eq hstart ((find?_eq_walk _ _).trans hp) hlimit] at h
    obtain ⟨sorted, hsorted, rfl⟩ := Option.map_eq_some_iff.1 h
    rw [List.length_map, List.length_take, (Match.perm_sort? hsorted).length_eq] at hshort
    omega
  exact mem_search?_of_collect hstart hlimit h hp (Nat.le_of_lt hfew) (collect_of_length_lt hfew) hcs he

theorem toList_nodes (t : Trie) : t.nodes.toList = (List.range t.nodes.size).map t.node := by
  refine List.ext_getElem (by simp) fun q hq _ => ?_
  rw [List.getElem_map, List.getElem_range, Array.getElem_toList, node, Array.getD_eq_getD_getElem?,
    Array.getElem?_eq_getElem (by simpa using hq), Option.getD_some]

/-- What there is below a place is some of what there is. -/
theorem length_matches_le {cs : List Char} {p : Nat} (hp : walk (Index.ofInserts inserts).trie.nodes 0 cs = some p)
    (fuel : Nat) :
    (((Index.ofInserts inserts).trie.visit fuel [p]).flatMap fun q => ((Index.ofInserts inserts).trie.node q).matches).length ≤
      ((Index.ofInserts inserts).trie.nodes.toList.flatMap Node.entries).length := by
  have htree := isTree_ofInserts inserts
  obtain ⟨visited, hperm, hsublist⟩ := htree.visit_subperm_range fuel (htree.stacked_singleton hp)
  rw [toList_nodes, List.flatMap_map, ← List.length_map (f := Match.entry), List.map_flatMap]
  simp only [(ended_ofInserts inserts).matches]
  rw [← (hperm.flatMap_right _).length_eq]
  exact (hsublist.flatMap _).length_le

/-- **If the limit allows all entries that there are, a search finds all of texts that start with the prefix.** -/
theorem mem_search?_of_length_le {start : String} (hstart : start.isEmpty = false) {limit : Nat} {tieBreak : TieBreak}
    (hlimit : ((Index.ofInserts inserts).trie.nodes.toList.flatMap Node.entries).length ≤ limit) {found : List Entry}
    (h : (Index.ofInserts inserts).trie.search? start limit tieBreak = some found) {cs : List Char}
    {e : Entry} (hcs : (Text.lower start).toList <+: cs)
    (he : e ∈ (Index.ofInserts inserts).texts.exact (String.ofList cs)) : e ∈ found := by
  obtain ⟨p, hp⟩ := exists_walk_of_mem_exact hcs he
  obtain ⟨k, hk⟩ := exists_walk_of_mem_exact List.prefix_rfl he
  have hroom := Nat.le_trans (length_matches_le hp (Index.ofInserts inserts).trie.nodes.size) hlimit
  have hall : (Index.ofInserts inserts).trie.collect limit (Index.ofInserts inserts).trie.nodes.size [p] [] =
      ((Index.ofInserts inserts).trie.visit (Index.ofInserts inserts).trie.nodes.size [p]).flatMap fun q =>
        ((Index.ofInserts inserts).trie.node q).matches := collect_of_length_le hroom
  have hmet : ((Index.ofInserts inserts).trie.node k).matches ≠ [] := by
    rw [← entries_of_walk hk, ← (ended_ofInserts inserts).matches] at he
    exact fun hnone => by simp [hnone] at he
  have hpos : 0 < limit := by
    refine Nat.lt_of_lt_of_le (List.length_pos_iff.2 fun hnone => ?_) hroom
    exact hmet (List.flatMap_eq_nil_iff.1 hnone k ((mem_visit_walk hp).2 ⟨cs, hcs, hk⟩))
  exact mem_search?_of_collect hstart hpos h hp (by rwa [hall]) hall hcs he

/-- **Without an answer there are many entries, and the score of an inserted one is no number.** -/
theorem exists_nan_of_search?_ofInserts_eq_none {start : String} {limit : Nat} {tieBreak : TieBreak}
    (h : (Index.ofInserts inserts).trie.search? start limit tieBreak = none) :
    20 < ((Index.ofInserts inserts).trie.nodes.toList.flatMap Node.entries).length ∧
      ∃ x ∈ inserts, x.2.score = .nan := by
  obtain ⟨p, hp, hmany, m, hm, hnan⟩ := exists_nan_of_search?_eq_none h
  constructor
  · have hmet := (prefix_collect (Index.ofInserts inserts).trie limit (Index.ofInserts inserts).trie.nodes.size [p]
      []).length_le
    have hall := length_matches_le hp (Index.ofInserts inserts).trie.nodes.size
    rw [List.nil_append] at hmet
    omega
  · obtain ⟨cs, -, hexact⟩ := mem_exact_of_mem_collect hp hm
    obtain ⟨text, hx, -⟩ := Index.mem_texts_exact hexact
    exact ⟨_, hx, hnan⟩

/-- If no two entries were inserted with one key, no key stands at two places. -/
theorem place_unique (hdistinct : (inserts.map fun x => x.2.key).Nodup) {cs ds : List Char} {a b : Nat}
    (hcs : walk (Index.ofInserts inserts).trie.nodes 0 cs = some a)
    (hds : walk (Index.ofInserts inserts).trie.nodes 0 ds = some b) {e f : Entry}
    (he : e ∈ ((Index.ofInserts inserts).trie.node a).entries) (hf : f ∈ ((Index.ofInserts inserts).trie.node b).entries)
    (hkey : e.key = f.key) : a = b := by
  rw [entries_of_walk hcs] at he
  rw [entries_of_walk hds] at hf
  obtain ⟨text, hx, htext⟩ := Index.mem_texts_exact he
  obtain ⟨other, hy, hother⟩ := Index.mem_texts_exact hf
  have hsame : text = other := congrArg Prod.fst (List.inj_on_of_nodup_map hdistinct hx hy hkey)
  have hpaths : cs = ds := by
    rw [← String.toList_ofList (l := cs), ← String.toList_ofList (l := ds), htext, hother, hsame]
  rw [hpaths, hds] at hcs
  exact (Option.some.inj hcs).symm

/-- **If no two entries were inserted with one key, no two are found with one key.** -/
theorem nodup_keys_search? (hdistinct : (inserts.map fun x => x.2.key).Nodup) {start : String} {limit : Nat}
    {tieBreak : TieBreak} {found : List Entry}
    (h : (Index.ofInserts inserts).trie.search? start limit tieBreak = some found) : (found.map Entry.key).Nodup := by
  rcases search?_cases h with rfl | ⟨p, hp, sorted, hperm, rfl⟩
  · exact List.nodup_nil
  · have htree := isTree_ofInserts inserts
    have hvisit := htree.nodup_visit (Index.ofInserts inserts).trie.nodes.size (htree.stacked_singleton hp)
    have hall : (((((Index.ofInserts inserts).trie.visit (Index.ofInserts inserts).trie.nodes.size [p]).flatMap
        fun q => ((Index.ofInserts inserts).trie.node q).matches).map Match.entry).map Entry.key).Nodup := by
      simp only [List.map_flatMap, (ended_ofInserts inserts).matches]
      refine List.nodup_flatMap.2 ⟨fun q hq => ?_, hvisit.imp_of_mem fun {a b} ha hb hne k hka hkb => ?_⟩
      · obtain ⟨cs, -, hwalk⟩ := (mem_visit_walk hp).1 hq
        rw [entries_of_walk hwalk, Index.texts_ofInserts]
        exact Postings.nodup_keys_exact_ofAdds _ _
      · obtain ⟨cs, -, hcs⟩ := (mem_visit_walk hp).1 ha
        obtain ⟨ds, -, hds⟩ := (mem_visit_walk hp).1 hb
        obtain ⟨e, he, rfl⟩ := List.mem_map.1 hka
        obtain ⟨f, hf, hkey⟩ := List.mem_map.1 hkb
        exact hne (place_unique hdistinct hcs hds he hf hkey.symm)
    have hmet := (prefix_collect (Index.ofInserts inserts).trie limit (Index.ofInserts inserts).trie.nodes.size [p]
      []).sublist
    rw [List.nil_append] at hmet
    refine List.Nodup.sublist (((List.take_sublist limit _).map Match.entry).map Entry.key) ?_
    refine ((hperm.map Match.entry).map Entry.key).nodup_iff.2 ?_
    exact List.Nodup.sublist ((hmet.map Match.entry).map Entry.key) hall

end Trie
end Suggest
