/-
# What a trie answers does not depend on the places of its nodes

A search visits paths in their order, so all that it meets can be read off the paths and what stands at their ends
(`survey`), and so can the counts.  Which paths there are below another one, and what stands there, says the tree that the
nodes are (`IsTree.mem_survey_iff`), whatever their places.  So two tries with the same at the ends of the same paths give
the same answers (`search_eq_of_bareAt?`, `counts_eq_of_bareAt?`).
-/

import Mathlib.Data.List.Sort
import Suggest.Proofs.Trie.Order

namespace Suggest
namespace Trie

/-- What stands at the end of a path, if there is such a path. -/
def bareAt? (nodes : Array Node) (cs : List Char) : Option Node :=
  (walk nodes 0 cs).map fun p => (nodes.getD p {}).bare

theorem bareAt?_of_walk {nodes : Array Node} {cs : List Char} {p : Nat} (h : walk nodes 0 cs = some p) :
    bareAt? nodes cs = some (nodes.getD p {}).bare := by
  rw [bareAt?, h]
  rfl

theorem bareAt?_eq_none_iff {nodes : Array Node} {cs : List Char} : bareAt? nodes cs = none ↔ walk nodes 0 cs = none := by
  rw [bareAt?, Option.map_eq_none_iff]

/-- The paths that are visited below the one to a place, in their order, and what stands at their ends. -/
def survey (t : Trie) (path : List Char) (place : Nat) : List (List Char × Node) :=
  (t.trail t.nodes.size [(path, place)]).map fun x => (x.1, (t.node x.2).bare)

variable {t u : Trie}

/-- **Every path that goes on from one is surveyed,** with what stands at its end. -/
theorem IsTree.mem_survey_iff (h : IsTree t.nodes) {path : List Char} {place : Nat}
    (hpath : walk t.nodes 0 path = some place) {x : List Char × Node} :
    x ∈ t.survey path place ↔ path <+: x.1 ∧ bareAt? t.nodes x.1 = some x.2 := by
  rw [survey, List.mem_map]
  constructor
  · rintro ⟨y, hy, rfl⟩
    obtain ⟨hstarts, hwalk⟩ := (h.mem_trail_iff hpath).1 hy
    exact ⟨hstarts, bareAt?_of_walk hwalk⟩
  · rintro ⟨hstarts, hbare⟩
    obtain ⟨p, hwalk, hp⟩ := Option.map_eq_some_iff.1 hbare
    exact ⟨(x.1, p), (h.mem_trail_iff hpath).2 ⟨hstarts, hwalk⟩, Prod.ext rfl hp⟩

theorem IsTree.pairwise_survey (h : IsTree t.nodes) {path : List Char} {place : Nat}
    (hpath : walk t.nodes 0 path = some place) : (t.survey path place).Pairwise fun x y => x.1 < y.1 := by
  rw [survey, List.pairwise_map]
  exact h.pairwise_trail _ (ascending_singleton hpath)

/-- **Tries with the same at the ends of the same paths are surveyed alike.** -/
theorem IsTree.survey_eq (ht : IsTree t.nodes) (hu : IsTree u.nodes) (hsame : ∀ cs, bareAt? t.nodes cs = bareAt? u.nodes cs)
    {path : List Char} {p q : Nat} (hp : walk t.nodes 0 path = some p) (hq : walk u.nodes 0 path = some q) :
    t.survey path p = u.survey path q := by
  have hasymm : ∀ {x y : List Char × Node}, x.1 < y.1 → ¬y.1 < x.1 := fun h h' => Key.irrefl _ (Key.trans h h')
  have : Std.Irrefl (α := List Char × Node) fun x y => x.1 < y.1 := ⟨fun x => Key.irrefl x.1⟩
  have : Std.Antisymm (α := List Char × Node) fun x y => x.1 < y.1 := ⟨fun _ _ h h' => absurd h' (hasymm h)⟩
  refine (ht.pairwise_survey hp).eq_of_mem_iff (hu.pairwise_survey hq) fun x => ?_
  rw [ht.mem_survey_iff hp, hu.mem_survey_iff hq, hsame]

/-- What a search meets is what stands at the ends of the paths, one after the other until there is enough. -/
theorem collect_eq_gather_survey (t : Trie) (limit : Nat) (path : List Char) (place : Nat) :
    t.collect limit t.nodes.size [place] [] = gather limit [] ((t.survey path place).map fun x => x.2.matches) := by
  rw [collect_eq_gather, ← map_snd_trail_singleton t _ path, survey, List.map_map, List.map_map]
  rfl

/-- Each node that is visited is counted once, and once more if it ends a text. -/
theorem countFrom_eq (t : Trie) (fuel : Nat) (stack : List Nat) (counts : Counts) :
    t.countFrom fuel stack counts =
      ⟨counts.total + (t.visit fuel stack).length,
        counts.terminal + (t.visit fuel stack).countP fun p => (t.node p).terminal⟩ := by
  induction fuel generalizing stack counts with
  | zero => rfl
  | succ fuel ih =>
    cases stack with
    | nil => rfl
    | cons place stack =>
      rw [countFrom, ih, visit, List.length_cons, List.countP_cons]
      cases (t.node place).terminal <;> simp <;> omega

theorem counts_eq_survey (t : Trie) :
    t.counts = ⟨(t.survey [] 0).length, (t.survey [] 0).countP fun x => x.2.terminal⟩ := by
  rw [counts, countFrom_eq, ← map_snd_trail_singleton t _ [], survey, List.length_map, List.length_map, List.countP_map,
    List.countP_map, Nat.zero_add, Nat.zero_add]
  rfl

/-- **Tries with the same at the ends of the same paths find the same,** in the same order. -/
theorem search?_eq_of_bareAt? (ht : IsTree t.nodes) (hu : IsTree u.nodes)
    (hsame : ∀ cs, bareAt? t.nodes cs = bareAt? u.nodes cs) (start : String) (limit : Nat) (tieBreak : TieBreak) :
    t.search? start limit tieBreak = u.search? start limit tieBreak := by
  rw [search?, search?, find?_eq_walk, find?_eq_walk]
  split
  · rfl
  cases hp : walk t.nodes 0 (Text.lower start).toList with
  | none =>
    have hq := bareAt?_eq_none_iff.1 ((hsame _).symm.trans (bareAt?_eq_none_iff.2 hp))
    rw [hq]
  | some p =>
    cases hq : walk u.nodes 0 (Text.lower start).toList with
    | none =>
      rw [bareAt?_eq_none_iff.1 ((hsame _).trans (bareAt?_eq_none_iff.2 hq))] at hp
      cases hp
    | some q =>
      dsimp only
      rw [collect_eq_gather_survey t limit _ p, collect_eq_gather_survey u limit _ q, ht.survey_eq hu hsame hp hq]

/-- **They have the same counts.** -/
theorem counts_eq_of_bareAt? (ht : IsTree t.nodes) (hu : IsTree u.nodes)
    (hsame : ∀ cs, bareAt? t.nodes cs = bareAt? u.nodes cs) : t.counts = u.counts := by
  rw [counts_eq_survey, counts_eq_survey, ht.survey_eq hu hsame (walk_nil t.nodes 0) (walk_nil u.nodes 0)]

end Trie
end Suggest
