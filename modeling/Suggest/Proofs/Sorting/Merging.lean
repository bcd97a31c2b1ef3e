/-
# Merging sorted lists

Two sorted lists are merged into the sorted list of their items, from whichever end the merge starts (`merge_eq`).  From both
ends at once the merge has a result if the lists differ by one item at most (`mergeEnds?_eq`): each end has drawn what stands
there in the sorted list, and one item at most is left between them.  Where the items come from is not to be seen from a list
in which some are equal, so the numbers of items drawn are compared on items with a note of their list
(`mergeEnds?_of_late`).

With four items and eight items sorted in ways of their own, a few items are sorted (`sortFew?_eq`).
-/

import Suggest.Proofs.Sorting.Stability
import Suggest.RunSort.Few

namespace Suggest

variable {α : Type} {before : α → α → Bool} {S : α → Prop}

/-- Two sorted lists are merged into the sorted list of their items. -/
theorem OrdersOn.merge_eq_stableSort (h : OrdersOn before S) {xs ys : List α} (hS : ∀ x ∈ xs ++ ys, S x)
    (hxs : xs.Pairwise fun a b => before b a = false) (hys : ys.Pairwise fun a b => before b a = false) :
    xs.merge ys (fun x y => !before y x) = stableSort before (xs ++ ys) := by
  fun_induction List.merge xs ys (fun x y => !before y x) with
  | case1 ys => exact (stableSort_of_pairwise hys).symm
  | case2 xs => rw [List.append_nil, stableSort_of_pairwise hxs]
  | case3 x xs y ys hyx ih =>
    rw [Bool.not_eq_true'] at hyx
    obtain ⟨hx, hxs⟩ := List.pairwise_cons.1 hxs
    rw [ih (fun z hz => hS z (List.mem_cons_of_mem x hz)) hxs hys, List.cons_append, stableSort_cons]
    -- neither what stands behind `x` nor what stands behind `y` has to stand before `x`
    intro z hz
    rcases List.mem_append.1 hz with hz | hz
    · exact hx z hz
    · rcases List.mem_cons.1 hz with rfl | hz'
      · exact hyx
      · exact h.trans_level (hS x (by simp)) (hS y (by simp)) (hS z (by simp [hz'])) hyx ((List.pairwise_cons.1 hys).1 z hz')
  | case4 x xs y ys hyx ih =>
    rw [Bool.not_eq_true', Bool.not_eq_false] at hyx
    obtain ⟨hy, hys⟩ := List.pairwise_cons.1 hys
    have hpass : ∀ z ∈ x :: xs, before y z = true := by
      intro z hz
      rcases List.mem_cons.1 hz with rfl | hz'
      · exact hyx
      · exact h.before_of_level (hS y (by simp)) (hS x (by simp)) (hS z (by simp [hz'])) hyx
          ((List.pairwise_cons.1 hxs).1 z hz')
    have hS' : ∀ z ∈ x :: xs ++ ys, S z := fun z hz => hS z (by
      rcases List.mem_append.1 hz with hz | hz
      · exact List.mem_append_left _ hz
      · exact List.mem_append_right _ (List.mem_cons_of_mem y hz))
    have hexchange := h.stableSort_exchange (x :: xs) [y] ys hS (by simpa using hpass)
    rw [ih hS' hxs hys]
    refine Eq.trans (stableSort_cons ?_).symm hexchange
    intro z hz
    rcases List.mem_append.1 hz with hz | hz
    · exact h.asymm (hpass z hz)
    · exact hy z hz

namespace RunSort

/-- What is drawn is the beginning of the merged list. -/
theorem draw_eq_take (mayPrecede : α → α → Bool) (n : Nat) (xs ys : List α) :
    (draw mayPrecede n xs ys).1 = (xs.merge ys mayPrecede).take n := by
  fun_induction draw mayPrecede n xs ys with
  | case1 => simp
  | case2 n ys => rw [List.nil_merge]
  | case3 n xs _ => rw [List.merge_right]
  | case4 n x xs y ys hxy drawn i hd ih =>
    rw [hd] at ih
    rw [List.cons_merge_cons, if_pos hxy, List.take_succ_cons, ← ih]
  | case5 n x xs y ys hxy drawn i hd ih =>
    rw [hd] at ih
    rw [List.cons_merge_cons, if_neg hxy, List.take_succ_cons, ← ih]

variable (h : OrdersOn before S) {xs ys : List α} (hS : ∀ x ∈ xs ++ ys, S x)
  (hxs : xs.Pairwise fun a b => before b a = false) (hys : ys.Pairwise fun a b => before b a = false)

include h hS hxs hys

theorem drawFront_eq (n : Nat) : (drawFront before n xs ys).1 = (stableSort before (xs ++ ys)).take n := by
  rw [drawFront, draw_eq_take, h.merge_eq_stableSort hS hxs hys]

theorem drawBack_eq (n : Nat) : (drawBack before n xs ys).1 = (stableSort before (xs ++ ys)).reverse.take n := by
  rw [drawBack, draw_eq_take, ← h.stableSort_reverse hS, List.reverse_append]
  refine congrArg (List.take n) (h.flip.merge_eq_stableSort (fun x hx => hS x ?_) (List.pairwise_reverse.2 hys)
    (List.pairwise_reverse.2 hxs))
  rwa [← List.reverse_append, List.mem_reverse] at hx

/-- **Two sorted lists** are merged into the sorted list of their items. -/
theorem merge_eq : merge before xs ys = stableSort before (xs ++ ys) := by
  have hlength : (stableSort before (xs ++ ys)).length = xs.length + ys.length := by
    rw [(perm_stableSort before (xs ++ ys)).length_eq, List.length_append]
  rw [merge]
  split
  · rw [drawFront_eq h hS hxs hys, List.take_of_length_le (Nat.le_of_eq hlength)]
  · rw [drawBack_eq h hS hxs hys, List.take_of_length_le, List.reverse_reverse]
    exact Nat.le_of_eq (by rw [List.length_reverse, hlength])

omit h hS hxs hys in
/-- How much is drawn of each list can be told from what is drawn if the items of the two lists can be told apart. -/
theorem draw_count_eq {mayPrecede : α → α → Bool} {n : Nat} {first : α → Bool} (hxs : ∀ x ∈ xs, first x = true)
    (hys : ∀ y ∈ ys, first y = false) :
    (draw mayPrecede n xs ys).2 = (draw mayPrecede n xs ys).1.countP first := by
  have hle := (draw_count_le mayPrecede n xs ys).2
  rw [(perm_draw mayPrecede n xs ys).countP_eq, List.countP_append,
    List.countP_eq_length.2 fun x hx => hxs x (List.mem_of_mem_take hx),
    List.countP_eq_zero.2 fun y hy => by rw [hys y (List.mem_of_mem_take hy)]; exact Bool.false_ne_true, List.length_take]
  omega

omit h hS hxs hys in
/-- The two ends of a list, if each is as long as there are early items in it, do not have too many items of a kind. -/
theorem countP_ends_le {late : α → Bool} {zs : List α} {n m : Nat} (hlength : zs.length = n + m) (hle : n ≤ m)
    (hlate : zs.countP late = m) :
    (zs.take n).countP (fun x => !late x) ≤ (zs.reverse.take n).countP late ∧
      n - (zs.take n).countP (fun x => !late x) ≤ m - (zs.reverse.take n).countP late := by
  have hparts := congrArg (List.countP late) (take_append_middle_append_drop zs hle)
  have hfront := List.length_eq_countP_add_countP late (l := zs.take n)
  have hmiddle := List.countP_le_length (p := late) (l := (zs.take m).drop n)
  have hback : (zs.reverse.take n).countP late = (zs.drop m).countP late := by
    rw [List.take_reverse, List.countP_reverse, hlength, Nat.add_sub_cancel_left]
  simp only [List.countP_append, Bool.not_eq_true, List.length_take, List.length_drop] at hparts hfront hmiddle
  have hearly : (zs.take n).countP (fun x => !late x) = (zs.take n).countP (fun x => decide (late x = false)) :=
    List.countP_congr fun x _ => by simp
  omega

omit h hS hxs hys in
/-- Two ends of a list with one item at most between them settle the list. -/
theorem eq_of_perm_ends {zs middle : List α} {n m : Nat} (hle : n ≤ m) (hle' : m ≤ n + 1)
    (hperm : (zs.take n ++ middle ++ zs.drop m).Perm zs) : zs.take n ++ middle ++ zs.drop m = zs := by
  have hparts := take_append_middle_append_drop zs hle
  have hlength : ((zs.take m).drop n).length ≤ 1 := by
    rw [List.length_drop, List.length_take]
    omega
  have hmiddle : middle.Perm ((zs.take m).drop n) := by
    rw [List.append_assoc] at hperm
    refine (List.perm_append_right_iff (zs.drop m)).1 ((List.perm_append_left_iff (zs.take n)).1 ?_)
    rwa [hparts]
  generalize (zs.take m).drop n = between at hparts hlength hmiddle
  have hsame : middle = between := by
    match between, hlength with
    | [], _ => exact hmiddle.eq_nil
    | [z], _ => exact List.perm_singleton.1 hmiddle
  rw [hsame, List.append_assoc, hparts]

/-- Two sorted lists that can be told apart are merged from both ends. -/
theorem mergeEnds?_of_late {late : α → Bool} (hearly : ∀ x ∈ xs, late x = false) (hlate : ∀ y ∈ ys, late y = true)
    (hle : xs.length ≤ ys.length) (hle' : ys.length ≤ xs.length + 1) :
    mergeEnds? before xs ys = some (stableSort before (xs ++ ys)) := by
  have hperm := perm_stableSort before (xs ++ ys)
  have hlength : (stableSort before (xs ++ ys)).length = xs.length + ys.length := by
    rw [hperm.length_eq, List.length_append]
  have hcount : (stableSort before (xs ++ ys)).countP late = ys.length := by
    rw [hperm.countP_eq, List.countP_append, List.countP_eq_zero.2 fun x hx => by rw [hearly x hx]; exact Bool.false_ne_true,
      List.countP_eq_length.2 hlate, Nat.zero_add]
  have hfront := drawFront_eq h hS hxs hys xs.length
  have hback := drawBack_eq h hS hxs hys xs.length
  have hi : (drawFront before xs.length xs ys).2 = (drawFront before xs.length xs ys).1.countP fun x => !late x :=
    draw_count_eq (fun x hx => by rw [hearly x hx]; rfl) fun y hy => by rw [hlate y hy]; rfl
  have hj : (drawBack before xs.length xs ys).2 = (drawBack before xs.length xs ys).1.countP late :=
    draw_count_eq (fun y hy => hlate y (List.mem_reverse.1 hy)) fun x hx => hearly x (List.mem_reverse.1 hx)
  have hends := countP_ends_le hlength hle hcount
  rw [← hfront, ← hback, ← hi, ← hj] at hends
  obtain ⟨middle, hsome⟩ : ∃ middle, mergeEnds? before xs ys =
      some ((drawFront before xs.length xs ys).1 ++ middle ++ (drawBack before xs.length xs ys).1.reverse) := ⟨_, if_pos hends⟩
  have hall := (perm_mergeEnds? hsome).trans hperm.symm
  have hbehind : (drawBack before xs.length xs ys).1.reverse = (stableSort before (xs ++ ys)).drop ys.length := by
    rw [hback, List.take_reverse, List.reverse_reverse, hlength, Nat.add_sub_cancel_left]
  rw [hsome]
  rw [hfront, hbehind] at hall ⊢
  rw [eq_of_perm_ends hle hle' hall]

omit h hS hxs hys

/-- Drawing does not depend on more of the items than their order does. -/
theorem draw_map {β : Type} (mayPrecede : α → α → Bool) (f : β → α) (n : Nat) (xs ys : List β) :
    draw mayPrecede n (xs.map f) (ys.map f) =
      ((draw (fun a b => mayPrecede (f a) (f b)) n xs ys).1.map f, (draw (fun a b => mayPrecede (f a) (f b)) n xs ys).2) := by
  fun_induction draw (fun a b => mayPrecede (f a) (f b)) n xs ys with
  | case1 => rfl
  | case2 n ys => rw [List.map_nil, draw, List.map_take]
  | case3 n xs hne =>
    cases xs with
    | nil => exact absurd rfl hne
    | cons x xs =>
      rw [List.map_nil, List.map_cons, draw, ← List.map_cons, ← List.map_take, List.length_map]
      exact List.cons_ne_nil _ _
  | case4 n x xs y ys hxy drawn i hd ih =>
    rw [hd, List.map_cons] at ih
    rw [List.map_cons, List.map_cons, draw, if_pos hxy, ih]
    rfl
  | case5 n x xs y ys hxy drawn i hd ih =>
    rw [hd, List.map_cons] at ih
    rw [List.map_cons, List.map_cons, draw, if_neg hxy, ih]
    rfl

theorem drawFront_map {β : Type} (f : β → α) (n : Nat) (xs ys : List β) :
    drawFront before n (xs.map f) (ys.map f) =
      ((drawFront (fun a b => before (f a) (f b)) n xs ys).1.map f, (drawFront (fun a b => before (f a) (f b)) n xs ys).2) :=
  draw_map _ f n xs ys

theorem drawBack_map {β : Type} (f : β → α) (n : Nat) (xs ys : List β) :
    drawBack before n (xs.map f) (ys.map f) =
      ((drawBack (fun a b => before (f a) (f b)) n xs ys).1.map f, (drawBack (fun a b => before (f a) (f b)) n xs ys).2) := by
  rw [drawBack, ← List.map_reverse, ← List.map_reverse]
  exact draw_map _ f n ys.reverse xs.reverse

theorem mergeEnds?_map {β : Type} (before : α → α → Bool) (f : β → α) (xs ys : List β) :
    mergeEnds? before (xs.map f) (ys.map f) = (mergeEnds? (fun a b => before (f a) (f b)) xs ys).map (List.map f) := by
  simp only [mergeEnds?, List.length_map, drawFront_map, drawBack_map]
  split
  · simp only [Option.map_some, List.map_append, List.map_drop, List.map_take, List.map_reverse]
  · rfl

include h hS hxs hys in
/-- **Two sorted lists of which the first one is not the longer, and not shorter by more than one,** are merged from both
ends into the sorted list of their items. -/
theorem mergeEnds?_eq (hle : xs.length ≤ ys.length) (hle' : ys.length ≤ xs.length + 1) :
    mergeEnds? before xs ys = some (stableSort before (xs ++ ys)) := by
  -- the same items, with a note of the list they come from
  have hearly : (xs.map fun x => (x, false)).map Prod.fst = xs := by rw [List.map_map]; exact List.map_id xs
  have hlate : (ys.map fun y => (y, true)).map Prod.fst = ys := by rw [List.map_map]; exact List.map_id ys
  have horder : OrdersOn (fun a b : α × Bool => before a.1 b.1) fun a => S a.1 :=
    ⟨fun hab => h.asymm hab, fun hx hy hz => h.split hx hy hz⟩
  have hSnoted : ∀ a ∈ (xs.map fun x => (x, false)) ++ ys.map fun y => (y, true), S a.1 := by
    simpa [or_imp, forall_and] using hS
  have hfirst : ∀ a ∈ xs.map fun x => (x, false), a.2 = false := by simp
  have hsecond : ∀ a ∈ ys.map fun y => (y, true), a.2 = true := by simp
  have hnoted := mergeEnds?_of_late horder hSnoted (List.pairwise_map.2 hxs) (List.pairwise_map.2 hys) hfirst hsecond
    (by simpa using hle) (by simpa using hle')
  have hmap := mergeEnds?_map before Prod.fst (xs.map fun x => (x, false)) (ys.map fun y => (y, true))
  rw [hearly, hlate, hnoted, Option.map_some, map_stableSort Prod.fst fun _ _ => rfl, List.map_append, hearly, hlate] at hmap
  exact hmap

include h in
/-- Sorted parts of nearly one length are merged from both ends into the sorted list. -/
theorem mergeEnds?_stableSort (hS : ∀ x ∈ xs ++ ys, S x) (hle : xs.length ≤ ys.length) (hle' : ys.length ≤ xs.length + 1) :
    mergeEnds? before (stableSort before xs) (stableSort before ys) = some (stableSort before (xs ++ ys)) := by
  have hx : ∀ x ∈ xs, S x := fun x hx => hS x (List.mem_append_left ys hx)
  have hy : ∀ y ∈ ys, S y := fun y hy => hS y (List.mem_append_right xs hy)
  have hxlen := (perm_stableSort before xs).length_eq
  have hylen := (perm_stableSort before ys).length_eq
  rw [mergeEnds?_eq h (fun z hz => hS z ?_) (h.pairwise_stableSort hx) (h.pairwise_stableSort hy) (by omega) (by omega),
    h.stableSort_append_stableSort hS]
  exact ((perm_stableSort before xs).append (perm_stableSort before ys)).mem_iff.1 hz

include h in
/-- Sorted parts are merged into the sorted list. -/
theorem merge_stableSort (hS : ∀ x ∈ xs ++ ys, S x) :
    merge before (stableSort before xs) (stableSort before ys) = stableSort before (xs ++ ys) := by
  have hx : ∀ x ∈ xs, S x := fun x hx => hS x (List.mem_append_left ys hx)
  have hy : ∀ y ∈ ys, S y := fun y hy => hS y (List.mem_append_right xs hy)
  rw [merge_eq h (fun z hz => hS z ?_) (h.pairwise_stableSort hx) (h.pairwise_stableSort hy),
    h.stableSort_append_stableSort hS]
  exact ((perm_stableSort before xs).append (perm_stableSort before ys)).mem_iff.1 hz

/-- Items that are inserted into a sorted list one after the other are sorted with it. -/
theorem insertAll_stableSort (xs rest : List α) :
    insertAll before (stableSort before xs) rest = stableSort before (xs ++ rest) := by
  simp only [stableSort, insertAll, List.reverse_reverse, List.foldl_append]

theorem sortTwo_eq (before : α → α → Bool) (a b : α) : sortTwo before a b = stableSort before [a, b] := by
  simp only [sortTwo, stableSort, insertAll, List.reverse_nil, List.foldl_cons, List.foldl_nil, insertBackwards]
  split <;> rfl

include h

/-- Four items of which the first two are sorted, and the last two as well. -/
theorem sortPairs_eq {a b c d : α} (hS : ∀ x ∈ [a, b, c, d], S x) (hba : before b a = false) (hdc : before d c = false) :
    sortPairs before a b c d = stableSort before [a, b, c, d] := by
  have ha : S a := hS a (by simp)
  have hb : S b := hS b (by simp)
  have hc : S c := hS c (by simp)
  have hd : S d := hS d (by simp)
  rw [sortPairs]
  split
  · next hca hdb =>
    have hda := h.trans_level ha hb hd hba hdb
    rw [stableSort_cons (by simp [hba, hca, hda]), sortTwo_eq, ← stableSort_concat (by simp [hdb, hdc])]
    rfl
  · next hca hdb =>
    have hda := h.trans_level ha hc hd hca hdc
    have hcb := (h.split hd hc hb hdb).resolve_left (by rw [hdc]; exact Bool.false_ne_true)
    have hpass := h.stableSort_exchange [b] [c, d] [] (by simp [hb, hc, hd]) (by simp [hcb, hdb])
    simp only [List.append_nil] at hpass
    rw [stableSort_cons (by simp [hba, hca, hda]), sortTwo_eq, ← stableSort_concat (by simp [h.asymm hcb, h.asymm hdb]), hpass]
    rfl
  · next hca hdb =>
    have hda := h.trans_level ha hb hd hba hdb
    have hcb := h.before_of_level hc ha hb hca hba
    have hpass := h.stableSort_exchange [a, b] [c] [d] hS (by simp [hca, hcb])
    rw [sortTwo_eq, ← stableSort_concat (by simp [hda, hdb]), ← stableSort_cons (by simp [h.asymm hca, h.asymm hcb, hdc])]
    exact hpass
  · next hca hdb =>
    have hcb := h.before_of_level hc ha hb hca hba
    have hpass := h.stableSort_exchange [a, b] [c] [d] hS (by simp [hca, hcb])
    have hpart : ∀ x ∈ [a] ++ [b, d], S x := by simp [ha, hb, hd]
    have hlast := h.stableSort_append_congr hpart rfl
      (h.stableSort_exchange [b] [d] [] (by simp [hb, hd]) (by simp [hdb]))
    rw [sortTwo_eq, ← stableSort_concat (by simp [hba, h.asymm hdb])]
    refine Eq.trans ?_ hpass
    refine Eq.trans (congrArg (List.cons c) hlast) (stableSort_cons ?_).symm
    simp [h.asymm hca, h.asymm hcb, hdc]

/-- **Four items** are sorted. -/
theorem sortFour_eq {a b c d : α} (hS : ∀ x ∈ [a, b, c, d], S x) :
    sortFour before a b c d = stableSort before [a, b, c, d] := by
  have ha : S a := hS a (by simp)
  have hb : S b := hS b (by simp)
  have hc : S c := hS c (by simp)
  have hd : S d := hS d (by simp)
  have hparts : ∀ x ∈ [a, b] ++ [c, d], S x := hS
  have hswap : ∀ {x y : α}, S x → S y → before y x = true → stableSort before [y, x] = stableSort before [x, y] :=
    fun {x y} hx hy hyx => h.stableSort_exchange [x] [y] [] (by simp [hx, hy]) (by simp [hyx])
  rw [sortFour]
  split
  · next hba hdc => exact sortPairs_eq h hS hba hdc
  · next hba hdc =>
    rw [sortPairs_eq h (by simp [ha, hb, hc, hd]) hba (h.asymm hdc)]
    exact h.stableSort_append_congr hparts rfl (hswap hc hd hdc)
  · next hba hdc =>
    rw [sortPairs_eq h (by simp [ha, hb, hc, hd]) (h.asymm hba) hdc]
    exact h.stableSort_append_congr hparts (hswap ha hb hba) rfl
  · next hba hdc =>
    rw [sortPairs_eq h (by simp [ha, hb, hc, hd]) (h.asymm hba) (h.asymm hdc)]
    exact h.stableSort_append_congr hparts (hswap ha hb hba) (hswap hc hd hdc)

theorem sortFromFour_eq {xs : List α} (hS : ∀ x ∈ xs, S x) : sortFromFour before xs = stableSort before xs := by
  rw [sortFromFour.eq_def]
  split
  · next a b c d rest =>
    rw [sortFour_eq h fun x hx => hS x (List.mem_append_left rest hx), insertAll_stableSort]
    rfl
  · rfl

theorem sortFromEight?_eq {xs : List α} (hS : ∀ x ∈ xs, S x) :
    sortFromEight? before xs = some (stableSort before xs) := by
  rw [sortFromEight?.eq_def]
  split
  · next a b c d e f g i rest =>
    have height : ∀ x ∈ [a, b, c, d] ++ [e, f, g, i], S x := fun x hx => hS x (List.mem_append_left rest hx)
    rw [sortFour_eq h fun x hx => height x (List.mem_append_left _ hx),
      sortFour_eq h fun x hx => height x (List.mem_append_right [a, b, c, d] hx),
      mergeEnds?_stableSort h height (by simp) (by simp), Option.map_some, insertAll_stableSort]
    rfl
  · rfl

theorem sortHalf?_eq (size n : Nat) {xs : List α} (hS : ∀ x ∈ xs, S x) :
    sortHalf? size before n xs = some (stableSort before xs) := by
  rw [sortHalf?]
  split
  · exact sortFromEight?_eq h hS
  · split
    · rw [sortFromFour_eq h hS]
    · rfl

/-- **A few items** are sorted. -/
theorem sortFew?_eq (size : Nat) {xs : List α} (hS : ∀ x ∈ xs, S x) : sortFew? size before xs = some (stableSort before xs) := by
  have hhalves := List.take_append_drop (xs.length / 2) xs
  rw [← hhalves] at hS
  rw [sortFew?, sortHalf?_eq h size _ fun x hx => hS x (List.mem_append_left _ hx), Option.bind_eq_bind, Option.bind_some,
    sortHalf?_eq h size _ fun x hx => hS x (List.mem_append_right _ hx), Option.bind_some,
    mergeEnds?_stableSort h hS, hhalves]
  · rw [List.length_take, List.length_drop]
    omega
  · rw [List.length_take, List.length_drop]
    omega

end RunSort
end Suggest
