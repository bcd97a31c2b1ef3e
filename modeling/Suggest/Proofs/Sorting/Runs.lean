/-
# Sorting by runs sorts

For a relation that is an order on the items, sorting by runs always has a result, and it is the one of every stable sort
(`RunSort.sort?_eq`).  A run stands for a part of the list: it is sorted like that part, and in order if it counts as sorted
(`Run.StandsFor`).  Cutting a list, joining two neighbours and following a tree keep this up.  Pivots split a list in parts
that may be sorted by themselves (`quickSort?_eq`), as long as what is ahead of the pivot of an earlier split does not return.
-/

import Suggest.Proofs.Sorting.Merging
import Suggest.RunSort

namespace Suggest

variable {α : Type} {before : α → α → Bool} {S : α → Prop}

/-- If all of what is kept is of one kind, nothing of it is of the other. -/
theorem filter_and_of_forall {p q : α → Bool} {xs : List α} (h : ∀ x ∈ xs, q x = true → p x = true) :
    xs.filter (fun x => q x && p x) = xs.filter q ∧ xs.filter (fun x => q x && !p x) = [] := by
  constructor
  · refine List.filter_congr fun x hx => ?_
    cases hq : q x with
    | false => rfl
    | true => rw [h x hx hq]; rfl
  · refine List.filter_eq_nil_iff.2 fun x hx hqp => ?_
    rw [Bool.and_eq_true] at hqp
    rw [h x hx hqp.1] at hqp
    cases hqp.2

namespace OrdersOn

/-- A falling list is sorted like the list that is written backwards. -/
theorem stableSort_reverse_of_falling (h : OrdersOn before S) {xs : List α} (hS : ∀ x ∈ xs, S x)
    (hfalling : xs.Pairwise fun a b => before b a = true) : stableSort before xs.reverse = stableSort before xs := by
  induction xs with
  | nil => rfl
  | cons x rest ih =>
    rw [List.pairwise_cons] at hfalling
    have hrest : ∀ y ∈ rest ++ [x], S y := fun y hy => hS y (by
      rcases List.mem_append.1 hy with hy | hy
      · exact List.mem_cons_of_mem x hy
      · exact List.mem_singleton.1 hy ▸ List.mem_cons_self)
    have hexchange := h.stableSort_exchange [x] rest [] (by simpa using hS) (by simpa using hfalling.1)
    rw [List.append_nil, List.append_nil] at hexchange
    rw [List.reverse_cons,
      h.stableSort_append_congr hrest (ih (fun y hy => hS y (List.mem_cons_of_mem x hy)) hfalling.2) rfl]
    exact hexchange

/-- A list may be sorted in two parts if everything in the first one has to stand before everything in the second. -/
theorem stableSort_filter (h : OrdersOn before S) {xs : List α} (hS : ∀ x ∈ xs, S x) (p : α → Bool)
    (hp : ∀ x ∈ xs, ∀ y ∈ xs, p x = true → p y = false → before x y = true) :
    stableSort before (xs.filter p) ++ stableSort before (xs.filter fun x => !p x) = stableSort before xs := by
  rw [← stableSort_append]
  · refine h.stableSort_congr hS (List.filter_append_perm p xs) fun q hq => ?_
    -- level items are in one part
    have hone : (∀ x ∈ xs, q x = true → p x = true) ∨ ∀ x ∈ xs, q x = true → p x = false := by
      by_contra hboth
      simp only [not_or, not_forall, Bool.not_eq_true, Bool.not_eq_false] at hboth
      obtain ⟨⟨y, hy, hqy, hpy⟩, x, hx, hqx, hpx⟩ := hboth
      have hlevel := hq x hx y hy hqx hqy
      rw [hp x hx y hy hpx hpy] at hlevel
      cases hlevel
    rw [List.filter_append, List.filter_filter, List.filter_filter]
    rcases hone with hone | hone
    · obtain ⟨hfirst, hsecond⟩ := filter_and_of_forall hone
      rw [hfirst, hsecond, List.append_nil]
    · have hone' : ∀ x ∈ xs, q x = true → (!p x) = true := by simpa using hone
      obtain ⟨hsecond, hfirst⟩ := filter_and_of_forall hone'
      simp only [Bool.not_not] at hfirst
      rw [hfirst, hsecond, List.nil_append]
  · intro y hy x hx
    rw [List.mem_filter] at hx hy
    exact h.asymm (hp x hx.1 y hy.1 hx.2 (by simpa using hy.2))

/-- What has to stand before a pivot and the rest may be sorted by themselves. -/
theorem stableSort_split (h : OrdersOn before S) {xs : List α} (hS : ∀ x ∈ xs, S x) {pivot : α} (hpivot : S pivot) :
    stableSort before (xs.filter fun x => before x pivot) ++ stableSort before (xs.filter fun x => !before x pivot) =
      stableSort before xs :=
  h.stableSort_filter hS _ fun x hx y hy hxp hyp => h.before_of_level (hS x hx) hpivot (hS y hy) hxp hyp

/-- If nothing has to stand before a pivot, what is level with it comes first, and as it is. -/
theorem stableSort_split_of_first (h : OrdersOn before S) {xs : List α} (hS : ∀ x ∈ xs, S x) {pivot : α} (hpivot : S pivot)
    (hfirst : ∀ x ∈ xs, before x pivot = false) :
    xs.filter (fun x => !before pivot x) ++ stableSort before (xs.filter fun x => before pivot x) = stableSort before xs := by
  have hlevel : stableSort before (xs.filter fun x => !before pivot x) = xs.filter fun x => !before pivot x := by
    refine stableSort_of_level fun x hx y hy => ?_
    rw [List.mem_filter, Bool.not_eq_true'] at hx hy
    exact h.trans_level (hS y hy.1) hpivot (hS x hx.1) hy.2 (hfirst x hx.1)
  have hparts := h.stableSort_filter hS (fun x => !before pivot x) fun x hx y hy hxp hyp => ?_
  · simpa only [hlevel, Bool.not_not] using hparts
  · rw [Bool.not_eq_true'] at hxp
    rw [Bool.not_eq_false'] at hyp
    exact (h.split hpivot (hS x hx) (hS y hy) hyp).resolve_left (by rw [hxp]; exact Bool.false_ne_true)

end OrdersOn

namespace RunSort
namespace Run

/-- A run that stands for a list is sorted like the list, and is in order if it counts as sorted. -/
structure StandsFor (before : α → α → Bool) (r : Run α) (xs : List α) : Prop where
  inOrder : r.sorted = true → r.items.Pairwise fun a b => before b a = false
  sameSort : stableSort before r.items = stableSort before xs

theorem StandsFor.perm {r : Run α} {xs : List α} (hr : r.StandsFor before xs) : r.items.Perm xs :=
  (perm_stableSort before r.items).symm.trans (hr.sameSort ▸ perm_stableSort before xs)

section

variable (h : OrdersOn before S)

include h

/-- A run falls or rises as far as it reaches. -/
theorem pairwise_reach {falling : Bool} {x : α} {rest : List α} (hS : ∀ y ∈ x :: rest, S y) :
    (x :: rest.take (reach before falling x rest)).Pairwise fun a b => before b a = falling := by
  induction rest generalizing x with
  | nil => exact List.pairwise_singleton _ x
  | cons y rest ih =>
    rw [reach]
    split
    · next hyx =>
      have hy := ih fun z hz => hS z (List.mem_cons_of_mem x hz)
      rw [List.take_succ_cons]
      refine List.pairwise_cons.2 ⟨fun z hz => ?_, hy⟩
      rcases List.mem_cons.1 hz with rfl | hz
      · exact hyx
      · have hzy := (List.pairwise_cons.1 hy).1 z hz
        have hSz : S z := hS z (by simp [List.mem_of_mem_take hz])
        cases falling with
        | false => exact h.trans_level (hS x (by simp)) (hS y (by simp)) hSz hyx hzy
        | true => exact h.trans hSz (hS y (by simp)) (hS x (by simp)) hzy hyx
    · exact List.pairwise_singleton _ x

/-- Cutting gives runs that stand for what they are, and for the whole list one behind the other. -/
theorem standsFor_cut (good piece : Nat) {xs : List α} (hS : ∀ x ∈ xs, S x) :
    (∀ r ∈ cut before good piece xs, r.StandsFor before r.items) ∧
      stableSort before ((cut before good piece xs).flatMap items) = stableSort before xs := by
  fun_induction cut before good piece xs with
  | case1 => exact ⟨by simp, rfl⟩
  | case2 x rest falling more hgood list ih =>
    have hwhole : x :: rest = list ++ rest.drop more := by simp [list]
    have hS' : ∀ y ∈ list ++ rest.drop more, S y := hwhole ▸ hS
    have hlist : ∀ y ∈ list, S y := fun y hy => hS' y (List.mem_append_left _ hy)
    have hreach : list.Pairwise fun a b => before b a = falling := pairwise_reach h hS
    obtain ⟨hruns, hsame⟩ := ih fun y hy => hS' y (List.mem_append_right _ hy)
    have hrun : StandsFor before ⟨if falling = true then list.reverse else list, true⟩ list := by
      split
      · next hfalling =>
        rw [hfalling] at hreach
        exact ⟨fun _ => List.pairwise_reverse.2 (hreach.imp fun hba => h.asymm hba), h.stableSort_reverse_of_falling hlist hreach⟩
      · next hfalling =>
        rw [Bool.not_eq_true] at hfalling
        rw [hfalling] at hreach
        exact ⟨fun _ => hreach, rfl⟩
    refine ⟨List.forall_mem_cons.2 ⟨⟨hrun.inOrder, rfl⟩, hruns⟩, ?_⟩
    rw [List.flatMap_cons, hwhole]
    exact h.stableSort_append_congr hS' hrun.sameSort hsame
  | case3 x rest falling more hgood ih =>
    obtain ⟨hruns, hsame⟩ := ih fun y hy => hS y (List.mem_cons_of_mem x (List.mem_of_mem_drop hy))
    refine ⟨List.forall_mem_cons.2 ⟨⟨Bool.noConfusion, rfl⟩, hruns⟩, ?_⟩
    have hwhole : x :: rest = (x :: rest.take (piece - 1)) ++ rest.drop (piece - 1) := by simp
    rw [List.flatMap_cons, hwhole]
    rw [hwhole] at hS
    exact h.stableSort_append_congr hS rfl hsame

variable {sortItems? : List α → Option (List α)}
  (hsort : ∀ xs, (∀ x ∈ xs, S x) → sortItems? xs = some (stableSort before xs))

include hsort

omit h in
theorem settle?_eq {r : Run α} {xs : List α} (hr : r.StandsFor before xs) (hS : ∀ x ∈ xs, S x) :
    r.settle? sortItems? = some ⟨stableSort before xs, true⟩ := by
  obtain ⟨items, sorted⟩ := r
  rw [settle?]
  split
  · next hsorted =>
    have hitems := stableSort_of_pairwise (hr.inOrder hsorted)
    rw [hr.sameSort] at hitems
    obtain rfl : sorted = true := hsorted
    rw [hitems]
  · rw [hsort items fun x hx => hS x (hr.perm.mem_iff.1 hx), Option.map_some]
    exact congrArg (fun items => some (Run.mk items true)) hr.sameSort

/-- Neighbours that stand for two lists are joined to a run that stands for both, one behind the other. -/
theorem join?_standsFor (room : Nat) {a b : Run α} {xs ys : List α} (ha : a.StandsFor before xs) (hb : b.StandsFor before ys)
    (hS : ∀ x ∈ xs ++ ys, S x) :
    ∃ r, a.join? before sortItems? room b = some r ∧ r.StandsFor before (xs ++ ys) := by
  rw [join?]
  split
  · rw [settle?_eq hsort ha fun x hx => hS x (List.mem_append_left ys hx),
      settle?_eq hsort hb fun y hy => hS y (List.mem_append_right xs hy)]
    refine ⟨_, rfl, ?_⟩
    dsimp only
    rw [merge_stableSort h hS]
    exact ⟨fun _ => h.pairwise_stableSort hS, stableSort_of_pairwise (h.pairwise_stableSort hS)⟩
  · exact ⟨_, rfl, Bool.noConfusion, h.stableSort_append_congr hS ha.sameSort hb.sameSort⟩

end

end Run

section

variable (h : OrdersOn before S) {sortItems? : List α → Option (List α)}
  (hsort : ∀ xs, (∀ x ∈ xs, S x) → sortItems? xs = some (stableSort before xs))

include h hsort

/-- Following a tree, the runs become one that stands for all of them, one behind the other. -/
theorem MergeTree.merged?_standsFor (atOnce : Bool) (room : Nat) {tree : MergeTree α}
    (hruns : ∀ r ∈ tree.runs, r.StandsFor before r.items) (hS : ∀ x ∈ tree.runs.flatMap Run.items, S x) :
    ∃ r, tree.merged? before sortItems? atOnce room = some r ∧ r.StandsFor before (tree.runs.flatMap Run.items) := by
  induction tree with
  | leaf r =>
    have hr : r.StandsFor before r.items := hruns r List.mem_cons_self
    rw [runs, List.flatMap_singleton] at hS ⊢
    rw [merged?]
    split
    · refine ⟨_, Run.settle?_eq hsort hr hS, fun _ => h.pairwise_stableSort hS, ?_⟩
      exact stableSort_of_pairwise (h.pairwise_stableSort hS)
    · exact ⟨r, rfl, hr⟩
  | join left right ihl ihr =>
    rw [runs, List.flatMap_append] at hS ⊢
    obtain ⟨a, ha, hastands⟩ := ihl (fun r hr => hruns r (List.mem_append_left _ hr)) fun x hx =>
      hS x (List.mem_append_left _ hx)
    obtain ⟨b, hb, hbstands⟩ := ihr (fun r hr => hruns r (List.mem_append_right _ hr)) fun x hx =>
      hS x (List.mem_append_right _ hx)
    rw [merged?, ha, hb]
    exact Run.join?_standsFor h hsort room hastands hbstands hS

/-- Sorting by runs sorts, if pieces are sorted. -/
theorem sortByRuns?_eq (atOnce : Bool) (piece room : Nat) {xs : List α} (hS : ∀ x ∈ xs, S x) :
    sortByRuns? before sortItems? atOnce piece room xs = some (stableSort before xs) := by
  obtain ⟨hruns, hsame⟩ := Run.standsFor_cut h (goodLength xs.length) piece hS
  have hperm := Run.perm_cut before (goodLength xs.length) piece xs
  rw [sortByRuns?]
  split
  · next hnone =>
    rw [hnone] at hperm
    rw [← hperm.nil_eq]
    rfl
  · next r rest hcut =>
    have htree : (MergeTree.ofRuns xs.length [] 0 r rest).runs = r :: rest := MergeTree.runs_ofRuns xs.length [] 0 r rest
    rw [hcut, ← htree] at hruns hsame hperm
    have hS' := fun x hx => hS x (hperm.mem_iff.1 hx)
    obtain ⟨m, hm, hstands⟩ := MergeTree.merged?_standsFor h hsort atOnce room hruns hS'
    rw [hm, Option.bind_eq_bind, Option.bind_some, Run.settle?_eq hsort hstands hS', Option.bind_some, hsame]
    rfl

end

section

variable (h : OrdersOn before S)

include h

theorem sortByFew?_eq (size : Nat) {xs : List α} (hS : ∀ x ∈ xs, S x) :
    sortByFew? size before xs = some (stableSort before xs) :=
  sortByRuns?_eq h (fun _ => sortFew?_eq h size) true fewItems xs.length hS

/-- **Splitting by pivots** sorts, if nothing has to stand before the ancestor. -/
theorem quickSort?_eq (size limit : Nat) {ancestor : Option α} {xs : List α} (hS : ∀ x ∈ xs, S x)
    (hancestor : ∀ a ∈ ancestor, S a ∧ ∀ x ∈ xs, before x a = false) :
    quickSort? size before limit ancestor xs = some (stableSort before xs) := by
  induction limit generalizing ancestor xs with
  | zero =>
    rw [quickSort?]
    split
    · exact sortFew?_eq h size hS
    · exact sortByFew?_eq h size hS
  | succ limit ih =>
    rw [quickSort?]
    split
    · exact sortFew?_eq h size hS
    · have hxs := List.take_append_drop (pivotPlace before xs) xs
      simp only
      split
      · exact sortByFew?_eq h size hS
      · next pivot behind hp =>
        rw [hp] at hxs
        generalize xs.take (pivotPlace before xs) = ahead at hxs ⊢
        subst hxs
        have hpivot : S pivot := hS pivot (by simp)
        have hbehind : (ahead ++ behind).filter (fun x => before pivot x) =
            (ahead ++ pivot :: behind).filter fun x => before pivot x := by
          simp [List.filter_append, h.irrefl pivot]
        have hlower : (ahead ++ behind).filter (fun x => before x pivot) =
            (ahead ++ pivot :: behind).filter fun x => before x pivot := by
          simp [List.filter_append, h.irrefl pivot]
        have hlevel : ahead.filter (fun x => !before pivot x) ++ pivot :: behind.filter (fun x => !before pivot x) =
            (ahead ++ pivot :: behind).filter fun x => !before pivot x := by
          simp [List.filter_append, h.irrefl pivot]
        have hupper : ahead.filter (fun x => !before x pivot) ++ pivot :: behind.filter (fun x => !before x pivot) =
            (ahead ++ pivot :: behind).filter fun x => !before x pivot := by
          simp [List.filter_append, h.irrefl pivot]
        rw [hbehind, hlower, hlevel, hupper]
        generalize ahead ++ pivot :: behind = xs at hS hancestor ⊢
        have hSpart : ∀ (p : α → Bool), ∀ x ∈ xs.filter p, S x := fun p x hx => hS x (List.mem_filter.1 hx).1
        split
        · next hlevel =>
          -- an ancestor that need not stand before the pivot leaves nothing that has to
          have hfirst : ∀ x ∈ xs, before x pivot = false := by
            intro x hx
            rw [Bool.or_eq_true, List.isEmpty_iff, List.filter_eq_nil_iff, Option.any_eq_true] at hlevel
            rcases hlevel with hnone | ⟨a, ha, hap⟩
            · simpa using hnone x hx
            · obtain ⟨hSa, hafirst⟩ := hancestor a ha
              rw [Bool.not_eq_true'] at hap
              exact h.trans_level hpivot hSa (hS x hx) hap (hafirst x hx)
          rw [@ih none _ (hSpart _) (by simp), Option.bind_eq_bind, Option.bind_some,
            h.stableSort_split_of_first hS hpivot hfirst]
          rfl
        · have hupper : ∀ a ∈ some pivot, S a ∧ ∀ x ∈ xs.filter fun x => !before x pivot, before x a = false := by
            rintro a ⟨⟩
            exact ⟨hpivot, fun x hx => by simpa using (List.mem_filter.1 hx).2⟩
          have hlower : ∀ a ∈ ancestor, S a ∧ ∀ x ∈ xs.filter fun x => before x pivot, before x a = false :=
            fun a ha => ⟨(hancestor a ha).1, fun x hx => (hancestor a ha).2 x (List.mem_filter.1 hx).1⟩
          rw [ih (hSpart _) hupper, Option.bind_eq_bind, Option.bind_some, ih (hSpart _) hlower, Option.bind_some,
            h.stableSort_split hS hpivot]
          rfl

end

/-- **Sorting by runs is stable sorting** for a relation that is an order on the items of the list. -/
theorem sort?_eq (h : OrdersOn before S) (size : Nat) {xs : List α} (hS : ∀ x ∈ xs, S x) :
    sort? size before xs = some (stableSort before xs) := by
  rw [sort?]
  split
  · rfl
  split
  · exact sortByFew?_eq h size hS
  · exact sortByRuns?_eq h (fun xs hxs => quickSort?_eq h size _ hxs (by simp)) false _ _ hS

end RunSort
end Suggest
