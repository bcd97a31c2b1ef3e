/-
# Words as maximal runs

Cutting characters at each one outside a class leaves pieces (`Cut`), and these are the maximal runs of the class, the empty ones
included, each at the place where it starts (`mem_placed_iff`).  One of them ends before the next one starts
(`pairwise_placed`), so what is made of characters of the class and stands in the characters lies in one of them and in no other
(`existsUnique_placed`).

Lower case leaves what it returns as it is (`lower_lower`): no character that a letter is mapped to is mapped to anything
else.  So words with spaces between them have these words again (`words_intercalate`).
-/

import Mathlib.Data.List.Pairwise
import Suggest.Proofs.Text.Words

namespace Suggest
namespace Text

/-! ### Pieces and their places -/

section Pieces

variable {p : Char → Bool} {cs run needle : List Char} {ps : List (List Char)} {start k place : Nat}

theorem pieces_eq_splitOnP (p : Char → Bool) (cs : List Char) : pieces p cs = cs.splitOnP fun c => !p c := by
  induction cs with
  | nil => rfl
  | cons c rest ih =>
    obtain ⟨more, hmore⟩ := exists_pieces_eq_cons p rest
    rw [pieces, List.splitOnP_cons_eq_if_modifyHead, ← ih, hmore]
    cases p c <;> rfl

/-- Characters cut at each one outside the class. -/
inductive Cut (p : Char → Bool) : List Char → List (List Char) → Prop
  | last {run : List Char} (hrun : ∀ c ∈ run, p c = true) : Cut p run [run]
  | next {run tail : List Char} {d : Char} {more : List (List Char)} (hrun : ∀ c ∈ run, p c = true) (hd : p d = false)
      (htail : Cut p tail more) : Cut p (run ++ d :: tail) (run :: more)

/-- **Each list of characters is cut into its pieces.** -/
theorem cut_pieces (p : Char → Bool) (cs : List Char) : Cut p cs (pieces p cs) := by
  induction cs with
  | nil => exact .last (List.forall_mem_nil _)
  | cons c rest ih =>
    rw [pieces]
    generalize pieces p rest = ps at ih ⊢
    split
    · next hc =>
      cases ih with
      | last hrun => exact .last (List.forall_mem_cons.2 ⟨hc, hrun⟩)
      | next hrun hd htail => exact @Cut.next p (c :: _) _ _ _ (List.forall_mem_cons.2 ⟨hc, hrun⟩) hd htail
    · next hc => exact @Cut.next p [] _ _ _ (List.forall_mem_nil _) (Bool.eq_false_iff.2 hc) ih

/-- **And into nothing else.** -/
theorem Cut.eq_pieces (h : Cut p cs ps) : ps = pieces p cs := by
  rw [pieces_eq_splitOnP]
  induction h with
  | last hrun => exact (List.splitOnP_eq_singleton (by simpa using hrun)).symm
  | next hrun hd _ ih => rw [ih, List.splitOnP_append_cons_of_forall_mem (by simpa using hrun) _ (by simp [hd])]

/-- The pieces with the places where they start, the first one at `start`. -/
def placed (start : Nat) : List (List Char) → List (Nat × List Char)
  | [] => []
  | piece :: more => (start, piece) :: placed (start + piece.length + 1) more

theorem map_snd_placed (start : Nat) (ps : List (List Char)) : (placed start ps).map Prod.snd = ps := by
  induction ps generalizing start with
  | nil => rfl
  | cons piece more ih => rw [placed, List.map_cons, ih]

theorem le_of_mem_placed {x : Nat × List Char} (h : x ∈ placed start ps) : start ≤ x.1 := by
  induction ps generalizing start with
  | nil => cases h
  | cons piece more ih =>
    rcases List.mem_cons.1 h with rfl | h
    · exact Nat.le_refl start
    · have := ih h
      omega

/-- **One piece ends before the next one starts.** -/
theorem pairwise_placed (start : Nat) (ps : List (List Char)) :
    (placed start ps).Pairwise fun x y => x.1 + x.2.length < y.1 := by
  induction ps generalizing start with
  | nil => exact .nil
  | cons piece more ih => exact .cons (fun _ hy => le_of_mem_placed hy) (ih _)

/-- A run of characters of the class that starts at `place`, with none of the class right in front of it or right behind it. -/
def IsMaximalRun (p : Char → Bool) (cs : List Char) (place : Nat) (run : List Char) : Prop :=
  ∃ front back, cs = front ++ run ++ back ∧ front.length = place ∧ (∀ c ∈ run, p c = true) ∧
    (∀ c ∈ front.getLast?, p c = false) ∧ ∀ c ∈ back.head?, p c = false

theorem takeWhile_append_of_head? {back : List Char} (hrun : ∀ c ∈ run, p c = true) (hback : ∀ c ∈ back.head?, p c = false) :
    (run ++ back).takeWhile p = run := by
  rw [List.takeWhile_append_of_pos hrun]
  cases back with
  | nil => simp
  | cons c back => simp [hback c rfl]

theorem eq_nil_of_getLast? {front : List Char} (hfront : ∀ c ∈ front, p c = true)
    (hlast : ∀ c ∈ front.getLast?, p c = false) : front = [] := by
  refine List.getLast?_eq_none_iff.1 (Option.eq_none_iff_forall_not_mem.2 fun c hc => ?_)
  have hin := hfront c (List.mem_of_getLast? hc)
  rw [hlast c hc] at hin
  cases hin

theorem isMaximalRun_of_all {all : List Char} (hall : ∀ c ∈ all, p c = true) :
    IsMaximalRun p all place run ↔ place = 0 ∧ run = all := by
  constructor
  · rintro ⟨front, back, rfl, rfl, hrun, hfront, hback⟩
    obtain rfl := eq_nil_of_getLast? (fun c hc => hall c (by simp [hc])) hfront
    have hend : ∀ c ∈ ([] : List Char).head?, p c = false := by simp
    have htake : (run ++ back).takeWhile p = run ++ back := by simpa using takeWhile_append_of_head? hall hend
    exact ⟨rfl, (takeWhile_append_of_head? hrun hback).symm.trans htake⟩
  · rintro ⟨rfl, rfl⟩
    exact ⟨[], [], by simp, rfl, hall, by simp, by simp⟩

/-- A maximal run is the first one, or it is one of what follows the character that ends the first one. -/
theorem isMaximalRun_append_cons {first tail : List Char} {d : Char} (hfirst : ∀ c ∈ first, p c = true) (hd : p d = false) :
    IsMaximalRun p (first ++ d :: tail) place run ↔
      (place = 0 ∧ run = first) ∨ ∃ j, place = first.length + 1 + j ∧ IsMaximalRun p tail j run := by
  have htake : (first ++ d :: tail).takeWhile p = first := takeWhile_append_of_head? hfirst (by simpa using hd)
  constructor
  · rintro ⟨front, back, hcs, rfl, hrun, hfront, hback⟩
    rw [List.append_assoc] at hcs
    obtain ⟨more, rfl, hmore⟩ | ⟨more, rfl, -⟩ := List.append_eq_append_iff.1 hcs
    · cases more with
      | nil =>
        -- the run starts where the first one ends, so there is nothing in front of it
        rw [List.append_nil] at hfront
        obtain rfl := eq_nil_of_getLast? hfirst hfront
        refine .inl ⟨rfl, ?_⟩
        rw [← takeWhile_append_of_head? hrun hback, ← htake, hcs]
        rfl
      | cons e more =>
        obtain ⟨rfl, rfl⟩ := List.cons.inj hmore
        refine .inr ⟨more.length, by simp; omega, more, back, by simp, rfl, hrun, fun c hc => hfront c ?_, hback⟩
        rw [Option.mem_def] at hc
        rw [List.getLast?_append, List.getLast?_cons, hc]
        rfl
    · obtain rfl := eq_nil_of_getLast? (fun c hc => hfirst c (by simp [hc])) hfront
      refine .inl ⟨rfl, ?_⟩
      rw [← takeWhile_append_of_head? hrun hback, ← htake, hcs]
      rfl
  · rintro (⟨rfl, rfl⟩ | ⟨j, rfl, front, back, rfl, rfl, hrun, hfront, hback⟩)
    · exact ⟨[], d :: tail, rfl, rfl, hfirst, by simp, by simpa using hd⟩
    · refine ⟨first ++ d :: front, back, by simp, by simp; omega, hrun, fun c hc => ?_, hback⟩
      rw [List.getLast?_append, List.getLast?_cons] at hc
      cases hlast : front.getLast? with
      | none =>
        rw [hlast] at hc
        cases hc
        exact hd
      | some e =>
        rw [hlast] at hc
        cases hc
        exact hfront e hlast

/-- **The pieces are the maximal runs, each at its place.** -/
theorem Cut.mem_placed_iff (h : Cut p cs ps) :
    (place, run) ∈ placed start ps ↔ ∃ k, place = start + k ∧ IsMaximalRun p cs k run := by
  induction h generalizing start place with
  | last hrun =>
    simp only [isMaximalRun_of_all hrun, placed, List.mem_singleton, Prod.mk.injEq]
    simp
  | next hrun hd _ ih =>
    simp only [placed, List.mem_cons, Prod.mk.injEq, ih, isMaximalRun_append_cons hrun hd]
    constructor
    · rintro (⟨rfl, rfl⟩ | ⟨k, rfl, hk⟩)
      · exact ⟨0, rfl, .inl ⟨rfl, rfl⟩⟩
      · exact ⟨_, by omega, .inr ⟨k, rfl, hk⟩⟩
    · rintro ⟨k, rfl, ⟨rfl, rfl⟩ | ⟨j, rfl, hj⟩⟩
      · exact .inl ⟨rfl, rfl⟩
      · exact .inr ⟨j, by omega, hj⟩

/-- What is made of characters of the class lies in the piece where it starts. -/
theorem Cut.exists_placed (h : Cut p cs ps) (hneedle : ∀ c ∈ needle, p c = true) (hne : needle ≠ [])
    (hk : needle <+: cs.drop k) :
    ∃ x ∈ placed start ps, x.1 ≤ start + k ∧ start + k + needle.length ≤ x.1 + x.2.length := by
  have hpos : 0 < needle.length := List.length_pos_iff.2 hne
  induction h generalizing start k with
  | last _ =>
    have hlength := hk.length_le
    rw [List.length_drop] at hlength
    exact ⟨_, List.mem_cons_self, Nat.le_add_right start k, by dsimp only; omega⟩
  | @next first tail d more hrun hd _ ih =>
    by_cases hle : k ≤ first.length
    · -- the needle ends before the character that ends the piece
      rw [List.drop_append_of_le_length hle] at hk
      have htake : (first.drop k ++ d :: tail).takeWhile p = first.drop k :=
        takeWhile_append_of_head? (fun c hc => hrun c (List.mem_of_mem_drop hc)) (by simpa using hd)
      have hlength := (htake ▸ prefix_takeWhile hneedle hk).length_le
      rw [List.length_drop] at hlength
      exact ⟨_, List.mem_cons_self, Nat.le_add_right start k, by dsimp only; omega⟩
    · obtain ⟨j, rfl⟩ : ∃ j, k = first.length + 1 + j := ⟨k - (first.length + 1), by omega⟩
      rw [Nat.add_assoc, List.drop_length_add_append, Nat.add_comm 1, List.drop_succ_cons] at hk
      obtain ⟨x, hx, hstart, hend⟩ : ∃ x ∈ placed (start + first.length + 1) more,
          x.1 ≤ start + first.length + 1 + j ∧ start + first.length + 1 + j + needle.length ≤ x.1 + x.2.length := ih hk
      exact ⟨x, List.mem_cons_of_mem _ hx, by omega, by omega⟩

/-- **An occurrence lies in one piece and in no other.** -/
theorem Cut.existsUnique_placed (h : Cut p cs ps) (hneedle : ∀ c ∈ needle, p c = true) (hne : needle ≠ [])
    (hk : needle <+: cs.drop k) :
    ∃! x, x ∈ placed 0 ps ∧ x.1 ≤ k ∧ k + needle.length ≤ x.1 + x.2.length := by
  obtain ⟨x, hx, hstart, hend⟩ : ∃ x ∈ placed 0 ps, x.1 ≤ 0 + k ∧ 0 + k + needle.length ≤ x.1 + x.2.length :=
    h.exists_placed hneedle hne hk
  have hpos : 0 < needle.length := List.length_pos_iff.2 hne
  refine ⟨x, ⟨hx, by omega, by omega⟩, fun y ⟨hy, hstart', hend'⟩ => ?_⟩
  by_contra hxy
  -- one of two pieces ends before the other starts, and the needle starts in both
  have : Std.Symm fun x y : Nat × List Char => x.1 + x.2.length < y.1 ∨ y.1 + y.2.length < x.1 := ⟨fun _ _ => Or.symm⟩
  have hapart := List.Pairwise.forall (R := fun x y : Nat × List Char => x.1 + x.2.length < y.1 ∨ y.1 + y.2.length < x.1)
    ((pairwise_placed 0 ps).imp Or.inl) hx hy (Ne.symm hxy)
  omega

/-- Pieces with one character that is not of the class between each two are cut there again. -/
theorem cut_intercalate {d : Char} (hd : p d = false) (hruns : ∀ piece ∈ ps, ∀ c ∈ piece, p c = true) (hne : ps ≠ []) :
    Cut p ([d].intercalate ps) ps := by
  induction ps with
  | nil => exact absurd rfl hne
  | cons first more ih =>
    obtain ⟨hfirst, hmore⟩ := List.forall_mem_cons.1 hruns
    cases more with
    | nil =>
      rw [List.intercalate_singleton]
      exact .last hfirst
    | cons second more =>
      rw [List.intercalate_cons_cons, List.append_assoc]
      exact .next hfirst hd (ih hmore (List.cons_ne_nil _ _))

end Pieces

/-! ### Words -/

/-- The words of a text with their places in its lower case. -/
def placedWords (text : String) : List (Nat × List Char) :=
  (placed 0 (pieces isWordChar (lower text).toList)).filter (minWordLength ≤ ·.2.length)

theorem words_eq (text : String) :
    words text = ((pieces isWordChar (lower text).toList).filter (minWordLength ≤ ·.length)).map String.ofList := by
  rw [words, runs, List.filter_filter, toList_lower]
  refine congrArg (List.map _) (List.filter_congr fun piece _ => ?_)
  cases piece <;> simp [minWordLength]

theorem words_eq_map_placedWords (text : String) : words text = (placedWords text).map fun x => String.ofList x.2 := by
  have hfilter := List.filter_map (f := Prod.snd) (p := fun piece : List Char => decide (minWordLength ≤ piece.length))
    (l := placed 0 (pieces isWordChar (lower text).toList))
  rw [map_snd_placed] at hfilter
  rw [words_eq, hfilter, List.map_map]
  rfl

/-- What is left of a list without its repetitions stands in the order of the first places. -/
theorem pairwise_idxOf_eraseDups {α : Type} [BEq α] [LawfulBEq α] (l : List α) :
    l.eraseDups.Pairwise fun a b => l.idxOf a < l.idxOf b := by
  induction l using List.reverseRecOn with
  | nil => simp
  | append_singleton l a ih =>
    have hkept : l.eraseDups.Pairwise fun b c => (l ++ [a]).idxOf b < (l ++ [a]).idxOf c := by
      refine ih.imp_of_mem fun hb hc hbc => ?_
      rwa [List.idxOf_append_of_mem (List.mem_eraseDups.1 hb), List.idxOf_append_of_mem (List.mem_eraseDups.1 hc)]
    rw [List.eraseDups_append]
    by_cases ha : a ∈ l
    · simpa [List.removeAll, ha] using hkept
    · -- the last one is new, so its first place is behind all others
      have hlast : ([a].removeAll l).eraseDups = [a] := by simp [List.removeAll, ha, List.eraseDups_cons]
      rw [hlast]
      refine List.pairwise_append.2 ⟨hkept, List.pairwise_singleton _ _, fun b hb c hc => ?_⟩
      have hb := List.mem_eraseDups.1 hb
      rw [List.mem_singleton.1 hc, List.idxOf_append_of_mem hb, List.idxOf_append, if_neg ha]
      exact Nat.lt_add_left _ (List.idxOf_lt_length_of_mem hb)

theorem forall_mem_intercalate {P : Char → Prop} {d : Char} (hd : P d) {pieces : List (List Char)}
    (h : ∀ piece ∈ pieces, ∀ c ∈ piece, P c) : ∀ c ∈ [d].intercalate pieces, P c := by
  induction pieces with
  | nil => simp
  | cons first more ih =>
    obtain ⟨hfirst, hmore⟩ := List.forall_mem_cons.1 h
    cases more with
    | nil => simpa using hfirst
    | cons second more =>
      rw [List.intercalate_cons_cons]
      simp only [List.forall_mem_append, List.forall_mem_singleton]
      exact ⟨⟨hfirst, hd⟩, ih hmore⟩

/-- **Words with spaces between them have these words again.** -/
theorem words_intercalate {ws : List String} (hlong : ∀ w ∈ ws, minWordLength ≤ w.toList.length)
    (hword : ∀ w ∈ ws, ∀ c ∈ w.toList, isWordChar c = true) (hsettled : ∀ w ∈ ws, ∀ c ∈ w.toList, IsSettled c) :
    words (" ".intercalate ws) = ws := by
  by_cases hne : ws = []
  · subst hne
    decide +kernel
  have hjoined : (" ".intercalate ws).toList = [' '].intercalate (ws.map String.toList) := String.toList_intercalate
  have hlower : lower (" ".intercalate ws) = " ".intercalate ws := by
    refine lower_of_isSettled ?_
    rw [hjoined]
    exact forall_mem_intercalate (by decide +kernel) (List.forall_mem_map.2 hsettled)
  have hcut : Cut isWordChar ([' '].intercalate (ws.map String.toList)) (ws.map String.toList) :=
    cut_intercalate (by decide +kernel) (List.forall_mem_map.2 hword) (by simpa using hne)
  rw [words_eq, hlower, hjoined, ← hcut.eq_pieces, List.filter_eq_self.2 (by simpa using hlong), List.map_map]
  simp [Function.comp_def]

/-- **The words of a text are the maximal runs of word characters of its lower case that are long enough.**  In order of position
they are these runs and no others; every occurrence of at least two word characters lies in exactly one of them; without
repetitions the words stand in the order of their first places; and with spaces between them they have the same words again. -/
theorem words_are_maximal_runs (text : String) :
    (∃ places : List (Nat × List Char),
      words text = places.map (fun x => String.ofList x.2) ∧
      (places.map Prod.fst).Pairwise (· < ·) ∧
      (∀ place run, (place, run) ∈ places ↔
        IsMaximalRun isWordChar (lower text).toList place run ∧ 2 ≤ run.length) ∧
      ∀ (needle : List Char) (k : Nat), 2 ≤ needle.length → (∀ c ∈ needle, isWordChar c = true) →
        needle <+: (lower text).toList.drop k →
        ∃! x, x ∈ places ∧ x.1 ≤ k ∧ k + needle.length ≤ x.1 + x.2.length) ∧
    (distinctWords text).Nodup ∧ (∀ w, w ∈ distinctWords text ↔ w ∈ words text) ∧
    (distinctWords text).Pairwise (fun v w => (words text).idxOf v < (words text).idxOf w) ∧
    words (" ".intercalate (words text)) = words text ∧
    words (" ".intercalate (distinctWords text)) = distinctWords text := by
  have hcut := cut_pieces isWordChar (lower text).toList
  have hmem {x : Nat × List Char} : x ∈ placedWords text ↔
      x ∈ placed 0 (pieces isWordChar (lower text).toList) ∧ 2 ≤ x.2.length := by
    rw [placedWords, List.mem_filter, decide_eq_true_eq, minWordLength]
  have hretokenized {ws : List String} (hws : ∀ w ∈ ws, w ∈ words text) : words (" ".intercalate ws) = ws :=
    words_intercalate (fun w hw => (mem_words_iff.1 (hws w hw)).2) (fun w hw c hc => isWordChar_of_mem_words (hws w hw) hc)
      fun w hw c hc => isSettled_of_mem_lower ((infix_of_mem_words (hws w hw)).subset hc)
  have hfirst := pairwise_idxOf_eraseDups (words text)
  refine ⟨⟨placedWords text, words_eq_map_placedWords text, ?_, fun place run => ?_, fun needle k hlong hneedle hk => ?_⟩,
    hfirst.imp fun hlt heq => ?_, fun w => mem_distinctWords, hfirst, hretokenized fun w hw => hw,
    hretokenized fun w hw => mem_distinctWords.1 hw⟩
  · refine List.pairwise_map.2 (((pairwise_placed 0 _).filter _).imp fun h => ?_)
    omega
  · rw [hmem, hcut.mem_placed_iff]
    simp
  · -- the piece around an occurrence is as long as the occurrence, so it is one of the words
    obtain ⟨x, ⟨hx, hstart, hend⟩, hunique⟩ := hcut.existsUnique_placed hneedle (List.ne_nil_of_length_pos (by omega)) hk
    exact ⟨x, ⟨hmem.2 ⟨hx, by omega⟩, hstart, hend⟩, fun y hy => hunique y ⟨(hmem.1 hy.1).1, hy.2⟩⟩
  · rw [heq] at hlt
    exact Nat.lt_irrefl _ hlt

theorem words_are_maximal_runs_inside : ∃ places : List (Nat × List Char),
    words "La Brûlée" = places.map (fun x => String.ofList x.2) ∧ (3, "brûlée".toList) ∈ places ∧
      ∃! x, x ∈ places ∧ x.1 ≤ 4 ∧ 4 + "rû".toList.length ≤ x.1 + x.2.length := by
  have hrun : "brûlée".toList.all isWordChar = true := by decide +kernel
  have hneedle : "rû".toList.all isWordChar = true := by decide +kernel
  have hlower : (lower "La Brûlée").toList = "la ".toList ++ "brûlée".toList ++ [] := by decide +kernel
  have hspace : ∀ c ∈ "la ".toList.getLast?, isWordChar c = false := by
    rintro c ⟨⟩
    decide +kernel
  obtain ⟨⟨places, hwords, -, hmem, hinside⟩, -⟩ := words_are_maximal_runs "La Brûlée"
  exact ⟨places, hwords,
    (hmem _ _).2 ⟨⟨"la ".toList, [], hlower, rfl, List.all_eq_true.1 hrun, hspace, fun c hc => nomatch hc⟩, by decide⟩,
    hinside "rû".toList 4 (by decide) (List.all_eq_true.1 hneedle) (by decide +kernel)⟩

end Text
end Suggest
