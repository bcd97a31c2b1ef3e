/-
# Written numbers are read back

A number ends where a comma or a bracket stands, so what follows a numeral does not change it (`scan_append`), and it is
enough to know how its text is read alone (`ReadsAs`).

| number | read back |
| --- | --- |
| integers of 64 bits | always (`readsAs_integer`) |
| floats | if the codec of decimals brings them back, which `ReadsAs` says of each of them |
-/

import Suggest.Json.Document
import Suggest.Json.Reader
import Suggest.Json.Writing

namespace Suggest
namespace Json

open Text (Glyph)

/-- What may stand behind a value: nothing, or a sign that ends it. -/
def Ends (rest : List Glyph) : Prop :=
  ∀ g more, rest = g :: more → g = .char ',' ∨ g = .char ']' ∨ g = .char '}'

theorem ends_nil : Ends [] := by intro g more h; cases h

theorem ends_cons {c : Char} (h : c = ',' ∨ c = ']' ∨ c = '}') (more : List Glyph) : Ends (.char c :: more) := by
  intro g more' heq
  cases heq
  rcases h with rfl | rfl | rfl <;> simp

/-- The number that a text stands for, if it is that of a number. -/
def numberOf? (cs : List Char) : Option Number :=
  match Numeral.scan (cs.map .char) with
  | .ok (numeral, []) => numeral.number?
  | _ => none

/-- The text is that of a number, and of this one. -/
def ReadsAs (cs : List Char) (n : Number) : Prop := numberOf? cs = some n

instance (cs : List Char) (n : Number) : Decidable (ReadsAs cs n) := inferInstanceAs (Decidable (_ = _))

theorem readsAs_iff {cs : List Char} {n : Number} :
    ReadsAs cs n ↔ ∃ numeral, Numeral.scan (cs.map .char) = .ok (numeral, []) ∧ numeral.number? = some n := by
  rw [ReadsAs, numberOf?]
  constructor
  · intro h
    split at h
    · next numeral hscan => exact ⟨numeral, hscan, h⟩
    · cases h
  · rintro ⟨numeral, hscan, hn⟩
    rw [hscan]
    exact hn

namespace Numeral

theorem digit?_of_ends {rest : List Glyph} (h : Ends rest) (g : Glyph) (more : List Glyph) (hr : rest = g :: more) :
    digit? g = none := by
  rcases h g more hr with rfl | rfl | rfl <;> rfl

/-- The digits of a text are those in front of what follows, if that does not start with a digit. -/
theorem digits_append {rest : List Glyph} (h : ∀ g more, rest = g :: more → digit? g = none) (gs : List Glyph) :
    digits (gs ++ rest) = ((digits gs).1, (digits gs).2 ++ rest) := by
  induction gs with
  | nil =>
    cases rest with
    | nil => rfl
    | cons g more => simp [digits, h g more rfl]
  | cons g gs ih =>
    rw [List.cons_append, digits, digits]
    cases digit? g with
    | none => rfl
    | some d => simp [ih]

theorem scanWhole_append {rest : List Glyph} (h : Ends rest) {gs more : List Glyph} {ds : List Nat}
    (hs : scanWhole gs = .ok (ds, more)) : scanWhole (gs ++ rest) = .ok (ds, more ++ rest) := by
  unfold scanWhole at *
  rw [digits_append (digit?_of_ends h)]
  split at hs <;> simp_all

theorem scanFraction_append {rest : List Glyph} (h : Ends rest) {gs more : List Glyph} {ds : List Nat}
    (hs : scanFraction gs = .ok (ds, more)) : scanFraction (gs ++ rest) = .ok (ds, more ++ rest) := by
  unfold scanFraction at hs
  split at hs
  · next gs =>
    rw [List.cons_append, scanFraction, digits_append (digit?_of_ends h)]
    dsimp only at hs ⊢
    split at hs <;> simp_all
  · next hpoint =>
    cases hs
    rw [scanFraction.eq_def]
    split
    · next heq =>
      cases gs with
      | nil => rcases h _ _ heq with hc | hc | hc <;> cases hc
      | cons g gs => cases heq; exact absurd rfl (hpoint _)
    · rfl

theorem minus_append {gs : List Glyph} (h : gs ≠ []) (rest : List Glyph) :
    minus (gs ++ rest) = ((minus gs).1, (minus gs).2 ++ rest) := by
  cases gs with
  | nil => exact absurd rfl h
  | cons g gs =>
    simp only [List.cons_append]
    unfold minus
    split <;> simp_all

/-- The sign of a text that goes on behind the sign is the same with something else behind it. -/
theorem sign_append {gs : List Glyph} (h : gs ≠ []) (rest : List Glyph) :
    sign (gs ++ rest) = ((sign gs).1, (sign gs).2 ++ rest) := by
  cases gs with
  | nil => exact absurd rfl h
  | cons g gs =>
    have hminus := minus_append h rest
    simp only [List.cons_append] at hminus ⊢
    unfold sign
    split
    · next heq =>
      cases heq
      rfl
    · next hplus =>
      rw [hminus]
      split
      · next heq =>
        cases heq
        exact absurd rfl (hplus _)
      · rfl

theorem scanExponent_append {rest : List Glyph} (h : Ends rest) {gs more : List Glyph} {e : Option Int}
    (hs : scanExponent gs = .ok (e, more)) : scanExponent (gs ++ rest) = .ok (e, more ++ rest) := by
  cases gs with
  | nil =>
    cases hs
    cases rest with
    | nil => rfl
    | cons g rest => rcases h g rest rfl with rfl | rfl | rfl <;> rfl
  | cons g gs =>
    cases g with
    | stray n => cases hs; rfl
    | char c =>
      rw [scanExponent] at hs
      rw [List.cons_append, scanExponent]
      split at hs
      · next hc =>
        have hgs : gs ≠ [] := by rintro rfl; simp [sign, minus, digits] at hs
        rw [if_pos hc, sign_append hgs, digits_append (digit?_of_ends h)]
        dsimp only at hs ⊢
        split at hs <;> simp_all
      · next hc =>
        cases hs
        rw [if_neg hc]
        rfl

/-- **What follows a numeral does not change it.** -/
theorem scan_append {rest : List Glyph} (h : Ends rest) {gs : List Glyph} {n : Numeral} (hs : scan gs = .ok (n, [])) :
    scan (gs ++ rest) = .ok (n, rest) := by
  have hgs : gs ≠ [] := by rintro rfl; cases hs
  unfold scan at hs ⊢
  rw [minus_append hgs]
  cases hw : scanWhole (minus gs).2 with
  | error f => simp [hw, bind, Except.bind] at hs
  | ok w =>
    obtain ⟨whole, afterWhole⟩ := w
    simp only [hw, scanWhole_append h hw, bind, Except.bind] at hs ⊢
    cases hf : scanFraction afterWhole with
    | error f => simp [hf] at hs
    | ok w =>
      obtain ⟨fraction, afterFraction⟩ := w
      simp only [hf, scanFraction_append h hf] at hs ⊢
      cases he : scanExponent afterFraction with
      | error f => simp [he] at hs
      | ok w =>
        obtain ⟨exponent, afterExponent⟩ := w
        simp only [he, scanExponent_append h he, pure, Except.pure, Except.ok.injEq, Prod.mk.injEq] at hs ⊢
        obtain ⟨rfl, rfl⟩ := hs
        simp

/-- The digits of a natural number as it is written. -/
def digitsOf (n : Nat) : List Nat := (Nat.toDigits 10 n).map (·.toNat - 48)

theorem digitsOf_of_lt {n : Nat} (h : n < 10) : digitsOf n = [n] := by
  rw [digitsOf, Nat.toDigits_of_lt_base h, List.map_singleton, Nat.toNat_digitChar_sub_48_of_lt_ten h]

theorem digitsOf_of_le {n : Nat} (h : 10 ≤ n) : digitsOf n = digitsOf (n / 10) ++ [n % 10] := by
  have hlast : n % 10 < 10 := Nat.mod_lt _ (by decide)
  rw [digitsOf, Nat.toDigits_of_base_le (by decide) h, List.map_append, List.map_singleton,
    Nat.toNat_digitChar_sub_48_of_lt_ten hlast]
  rfl

/-- No number but zero starts with the digit zero. -/
theorem exists_digitsOf_eq_cons (n : Nat) : ∃ d ds, digitsOf n = d :: ds ∧ (d = 0 → n = 0) := by
  induction n using Nat.strongRecOn with
  | _ n ih =>
    rcases Nat.lt_or_ge n 10 with h | h
    · exact ⟨n, [], digitsOf_of_lt h, id⟩
    · obtain ⟨d, ds, hds, hzero⟩ := ih (n / 10) (by omega)
      exact ⟨d, ds ++ [n % 10], by rw [digitsOf_of_le h, hds, List.cons_append], fun hd => by have := hzero hd; omega⟩

theorem takeWhole_append {s m d : Nat} {ds : List Nat} (h : takeWhole s ds = (m, 0))
    (hm : m * 10 + d ≤ maxSignificand) : takeWhole s (ds ++ [d]) = (m * 10 + d, 0) := by
  induction ds generalizing s with
  | nil => cases h; simp [takeWhole, hm]
  | cons e ds ih =>
    rw [takeWhole] at h
    split at h
    · next he => rw [List.cons_append, takeWhole, if_pos he, ih h]
    · simp at h

/-- The digits of a number that fits make it up. -/
theorem takeWhole_digitsOf {n : Nat} (h : n ≤ maxSignificand) : takeWhole 0 (digitsOf n) = (n, 0) := by
  induction n using Nat.strongRecOn with
  | _ n ih =>
    rcases Nat.lt_or_ge n 10 with hlt | hge
    · rw [digitsOf_of_lt hlt]
      simp [takeWhole, h]
    · have hn : n / 10 * 10 + n % 10 = n := by omega
      rw [digitsOf_of_le hge, takeWhole_append (ih (n / 10) (by omega) (by omega)) (by omega), hn]

theorem digits_map_char {cs : List Char} (h : ∀ c ∈ cs, c.isDigit = true) :
    digits (cs.map .char) = (cs.map (·.toNat - 48), []) := by
  induction cs with
  | nil => rfl
  | cons c cs ih =>
    have hc := h c (by simp)
    simp only [Char.isDigit, Bool.and_eq_true, decide_eq_true_eq] at hc
    have hd : digit? (.char c) = some (c.toNat - 48) := if_pos hc
    rw [List.map_cons, digits, hd, ih fun c hc => h c (by simp [hc])]
    rfl

theorem scanWhole_natural (n : Nat) : scanWhole ((natural n).map .char) = .ok (digitsOf n, []) := by
  have hdigits : digits ((natural n).map .char) = (digitsOf n, []) :=
    digits_map_char fun c hc => Nat.isDigit_of_mem_toDigits (by decide) (by decide) hc
  obtain ⟨d, ds, hds, hzero⟩ := exists_digitsOf_eq_cons n
  have hone : d = 0 → ds = [] := fun hd => by
    rw [hzero hd, digitsOf_of_lt (by decide)] at hds
    exact (List.cons.inj hds).2.symm
  rw [scanWhole, hdigits, hds]
  split <;> simp_all

end Numeral

/-- **A natural number of 64 bits is read back.** -/
theorem readsAs_natural {n : Nat} (h : n ≤ Numeral.maxSignificand) : ReadsAs (natural n) (.integer n) := by
  refine readsAs_iff.2 ⟨⟨false, Numeral.digitsOf n, [], none⟩, ?_, ?_⟩
  · obtain ⟨c, cs, hcs⟩ := List.exists_cons_of_ne_nil (Nat.toDigits_ne_nil (n := n) (b := 10))
    have hc : c ≠ '-' := by
      rintro rfl
      have := Nat.isDigit_of_mem_toDigits (b := 10) (n := n) (c := '-') (by decide) (by decide) (by simp [hcs])
      exact absurd this (by decide)
    have hminus : Numeral.minus ((natural n).map .char) = (false, (natural n).map .char) := by
      rw [natural, hcs, List.map_cons, Numeral.minus]
      simpa using hc
    rw [Numeral.scan, hminus]
    simp only [Numeral.scanWhole_natural, bind, Except.bind]
    rfl
  · rw [Numeral.number?]
    simp [Numeral.takeWhole_digitsOf h]

/-- **A negative integer of 64 bits is read back.** -/
theorem readsAs_negative {n : Nat} (h0 : 0 < n) (h : n ≤ 1 <<< 63) :
    ReadsAs ('-' :: natural n) (.integer (-n)) := by
  refine readsAs_iff.2 ⟨⟨true, Numeral.digitsOf n, [], none⟩, ?_, ?_⟩
  · simp only [Numeral.scan, List.map_cons, Numeral.minus, Numeral.scanWhole_natural, bind, Except.bind]
    rfl
  · have hfits : n ≤ Numeral.maxSignificand := Nat.le_trans h (by decide)
    rw [Numeral.number?]
    simp only [Numeral.takeWhole_digitsOf hfits, List.isEmpty_nil, Option.isNone_none, h0, h]
    rfl

end Json
end Suggest
