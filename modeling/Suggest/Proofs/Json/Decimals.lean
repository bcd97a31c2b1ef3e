/-
# Written numbers are numerals

Whatever number is read back out of the text of a number, the text is that of some number (`IsNumeral`), and so it is scanned
to its end.  A decimal is put together of digits in front of a point, a fraction and an exponent (`isNumeral_append`), and
since the shortest decimal of a number that is not zero has digits other than zero (`Decimal.digits_shortest_ne_zero`), the
digits in front of the point do not start with a zero that should not be there.

| number | its text |
| --- | --- |
| an integer | a numeral (`isNumeral_integer`) |
| a finite float | a numeral (`isNumeral_binary`) |
| an infinity or `nan` | `null` |
-/

import Suggest.Proofs.Json.Numbers

namespace Suggest

namespace Decimal

theorem units_ne_zero (f : Format) {k : Nat} (h : k ≠ 0) : f.units k ≠ 0 := by
  rw [Format.units]
  split
  · exact h
  · have hgroup : 0 < 1 <<< f.fractionBits := by
      rw [Nat.shiftLeft_eq]
      exact Nat.mul_pos Nat.one_pos (Nat.two_pow_pos _)
    rw [Nat.shiftLeft_eq]
    exact Nat.mul_ne_zero (by omega) (Nat.ne_of_gt (Nat.two_pow_pos _))

/-- A point of the grid is found where it is not below the interval. -/
theorem low_le_of_onGrid? {scale : Nat} {i : Interval} {p : Int} {c : Nat} (h : onGrid? scale i p = some c) :
    i.low * Nat.pow 10 (-p).toNat ≤ c * Nat.pow 10 p.toNat <<< (scale + 1) := by
  unfold onGrid? at h
  extract_lets factor step inside middle below above at h
  have hlow : ∀ c, inside c = true → i.low * factor ≤ c * step := by
    intro c hc
    simp only [inside] at hc
    split at hc <;> simp only [Bool.and_eq_true, decide_eq_true_eq] at hc <;> omega
  split at h
  · next hmiddle =>
    split at h
    · next habove =>
      rw [Bool.and_eq_true] at habove
      exact Option.some.inj h ▸ hlow _ habove.1
    · exact Option.some.inj h ▸ hlow _ hmiddle
  · split at h
    · next habove => exact Option.some.inj h ▸ hlow _ habove
    · cases h

/-- A point inside an interval that begins above zero is not zero. -/
theorem ne_zero_of_onGrid? {scale : Nat} {i : Interval} (h : 0 < i.low) {p : Int} {c : Nat}
    (hc : onGrid? scale i p = some c) : c ≠ 0 := by
  rintro rfl
  have hlow := low_le_of_onGrid? hc
  rw [Nat.zero_mul] at hlow
  exact absurd hlow (Nat.not_le.2 (Nat.mul_pos h (Nat.pow_pos (by decide))))

theorem trimZero_ne_zero {x : Decimal} (h : x.digits ≠ 0) : x.trimZero.digits ≠ 0 := by
  rw [trimZero]
  split
  · dsimp only
    omega
  · exact h

/-- **The shortest decimal of a number that is not zero is not zero.** -/
theorem digits_shortest_ne_zero (f : Format) {k : Nat} (hk : k ≠ 0) : (shortest f k).digits ≠ 0 := by
  have hlow : 0 < (interval f k).low := by
    have := units_ne_zero f hk
    rw [interval]
    dsimp only
    omega
  rw [shortest]
  split
  · next x hx =>
    obtain ⟨n, -, hx⟩ := List.exists_of_findSome?_eq_some hx
    obtain ⟨c, hc, rfl⟩ := Option.map_eq_some_iff.1 hx
    exact trimZero_ne_zero (ne_zero_of_onGrid? hlow hc)
  · exact units_ne_zero f hk

end Decimal

namespace Json

open Text (Glyph)

/-- Whether a text is that of a number. -/
def IsNumeral (cs : List Char) : Prop := ∃ numeral, Numeral.scan (cs.map .char) = .ok (numeral, [])

/-- Whether there are digits, and nothing else. -/
structure AreDigits (cs : List Char) : Prop where
  ne_nil : cs ≠ []
  digits : ∀ c ∈ cs, c.isDigit = true

/-- Whether digits may stand in front of a point: they do not start with a zero, unless that is all. -/
structure AreWhole (cs : List Char) : Prop extends AreDigits cs where
  zero : cs.head? = some '0' → cs = ['0']

/-- Whether a text is that of a fraction, which may be missing. -/
def IsFraction (cs : List Char) : Prop := cs = [] ∨ ∃ ds, AreDigits ds ∧ cs = '.' :: ds

/-- Whether a text is that of an exponent with a sign, which may be missing. -/
def IsExponent (cs : List Char) : Prop := cs = [] ∨ ∃ c ds, (c = '+' ∨ c = '-') ∧ AreDigits ds ∧ cs = 'e' :: c :: ds

namespace Numeral

theorem digits_of_areDigits {ds : List Char} (h : AreDigits ds) {rest : List Glyph}
    (hrest : ∀ g more, rest = g :: more → digit? g = none) :
    digits (ds.map .char ++ rest) = (ds.map (·.toNat - 48), rest) := by
  rw [digits_append hrest, digits_map_char h.digits, List.nil_append]

theorem scanExponent_of_isExponent {cs : List Char} (h : IsExponent cs) :
    ∃ e, scanExponent (cs.map .char) = .ok (e, []) := by
  rcases h with rfl | ⟨c, ds, hc, hds, rfl⟩
  · exact ⟨none, rfl⟩
  · have hsign : (sign (.char c :: ds.map .char)).2 = ds.map .char := by
      rcases hc with rfl | rfl <;> rfl
    have hdigits : digits (ds.map .char ++ []) = (ds.map (·.toNat - 48), []) :=
      digits_of_areDigits hds fun _ _ h => nomatch h
    rw [List.append_nil] at hdigits
    have hne : (ds.map (·.toNat - 48)).isEmpty = false := by simpa using hds.ne_nil
    rw [List.map_cons, List.map_cons, scanExponent, if_pos (.inl rfl), hsign, hdigits]
    simp only [hne, Bool.false_eq_true, ↓reduceIte]
    exact ⟨_, rfl⟩

theorem digit?_of_isExponent {cs : List Char} (h : IsExponent cs) (g : Glyph) (more : List Glyph)
    (hg : cs.map .char = g :: more) : digit? g = none := by
  rcases h with rfl | ⟨c, ds, -, -, rfl⟩ <;> cases hg
  rfl

theorem scanFraction_of_isFraction {cs es : List Char} (h : IsFraction cs) (hes : IsExponent es) :
    ∃ ds, scanFraction (cs.map .char ++ es.map .char) = .ok (ds, es.map .char) := by
  rcases h with rfl | ⟨ds, hds, rfl⟩
  · rcases hes with rfl | ⟨c, ds, -, -, rfl⟩ <;> exact ⟨[], rfl⟩
  · have hne : (ds.map (·.toNat - 48)).isEmpty = false := by simpa using hds.ne_nil
    rw [List.map_cons, List.cons_append, scanFraction, digits_of_areDigits hds (digit?_of_isExponent hes)]
    simp only [hne, Bool.false_eq_true, ↓reduceIte]
    exact ⟨_, rfl⟩

theorem scanWhole_of_areWhole {cs : List Char} (h : AreWhole cs) {rest : List Glyph}
    (hrest : ∀ g more, rest = g :: more → digit? g = none) :
    ∃ ds, scanWhole (cs.map .char ++ rest) = .ok (ds, rest) := by
  rw [scanWhole, digits_of_areDigits h.toAreDigits hrest]
  cases cs with
  | nil => exact absurd rfl h.ne_nil
  | cons c cs =>
    cases cs with
    | nil =>
      rw [List.map_singleton]
      cases c.toNat - 48 with
      | zero => exact ⟨[0], rfl⟩
      | succ n => exact ⟨[n + 1], rfl⟩
    | cons d cs =>
      have hc := h.digits c (by simp)
      simp only [Char.isDigit, Bool.and_eq_true, decide_eq_true_eq] at hc
      have hzero : c.toNat - 48 ≠ 0 := by
        intro hzero
        obtain rfl : c = '0' := Char.toNat_inj.1 (by have : 48 ≤ c.toNat := hc.1; change c.toNat = 48; omega)
        cases h.zero rfl
      obtain ⟨n, hn⟩ := Nat.exists_eq_succ_of_ne_zero hzero
      rw [List.map_cons, List.map_cons, hn]
      exact ⟨_, rfl⟩

end Numeral

/-- **Digits in front of a point, a fraction and an exponent make up a numeral,** with a minus or without. -/
theorem isNumeral_append {whole fraction exponent : List Char} (hwhole : AreWhole whole) (hfraction : IsFraction fraction)
    (hexponent : IsExponent exponent) (negative : Bool) :
    IsNumeral (if negative then '-' :: (whole ++ fraction ++ exponent) else whole ++ fraction ++ exponent) := by
  have hminus : Numeral.minus ((if negative then '-' :: (whole ++ fraction ++ exponent)
      else whole ++ fraction ++ exponent).map .char) =
      (negative, whole.map .char ++ (fraction.map .char ++ exponent.map .char)) := by
    cases negative with
    | true => simp [Numeral.minus]
    | false =>
      obtain ⟨c, cs, rfl⟩ := List.exists_cons_of_ne_nil hwhole.ne_nil
      have hc : c ≠ '-' := by
        rintro rfl
        exact absurd (hwhole.digits '-' (by simp)) (by decide)
      simp [Numeral.minus, hc]
  have hrest : ∀ g more, fraction.map Glyph.char ++ exponent.map .char = g :: more → Numeral.digit? g = none := by
    rcases hfraction with rfl | ⟨ds, -, rfl⟩
    · exact Numeral.digit?_of_isExponent hexponent
    · rintro g more ⟨⟩
      rfl
  obtain ⟨ws, hws⟩ := Numeral.scanWhole_of_areWhole hwhole hrest
  obtain ⟨fs, hfs⟩ := Numeral.scanFraction_of_isFraction hfraction hexponent
  obtain ⟨e, he⟩ := Numeral.scanExponent_of_isExponent hexponent
  refine ⟨⟨negative, ws, fs, e⟩, ?_⟩
  simp only [Numeral.scan, hminus, hws, hfs, he, bind, Except.bind]
  rfl

/-! ### Digits of natural numbers -/

theorem areDigits_toDigits (n : Nat) : AreDigits (Nat.toDigits 10 n) where
  ne_nil := Nat.toDigits_ne_nil
  digits _ hc := Nat.isDigit_of_mem_toDigits (by decide) (by decide) hc

/-- No number but zero is written with a zero in front. -/
theorem head?_toDigits_ne {n : Nat} (h : n ≠ 0) : (Nat.toDigits 10 n).head? ≠ some '0' := by
  intro hhead
  obtain ⟨d, ds, hds, hzero⟩ := Numeral.exists_digitsOf_eq_cons n
  obtain ⟨cs, hcs⟩ := List.head?_eq_some_iff.1 hhead
  rw [Numeral.digitsOf, hcs, List.map_cons] at hds
  exact h (hzero (List.cons.inj hds).1.symm)

theorem areWhole_toDigits (n : Nat) : AreWhole (Nat.toDigits 10 n) where
  toAreDigits := areDigits_toDigits n
  zero hhead := by
    obtain rfl : n = 0 := Classical.byContradiction fun h => head?_toDigits_ne h hhead
    rfl

theorem areWhole_zero : AreWhole ['0'] := areWhole_toDigits 0

theorem isFraction_zero : IsFraction ['.', '0'] := .inr ⟨['0'], areWhole_zero.toAreDigits, rfl⟩

theorem AreDigits.append {cs ds : List Char} (hcs : AreDigits cs) (hds : ∀ c ∈ ds, c.isDigit = true) :
    AreDigits (cs ++ ds) where
  ne_nil := by simp [hcs.ne_nil]
  digits c hc := (List.mem_append.1 hc).elim (hcs.digits c) (hds c)

theorem isDigit_of_mem_replicate {n : Nat} {c : Char} (h : c ∈ List.replicate n '0') : c.isDigit = true := by
  rw [(List.mem_replicate.1 h).2]
  decide

/-- **An integer is written as a numeral.** -/
theorem isNumeral_integer (n : Int) : IsNumeral (integer n) := by
  have hnumeral := isNumeral_append (areWhole_toDigits n.natAbs) (.inl rfl) (.inl rfl) (decide (n < 0))
  simp only [List.append_nil] at hnumeral
  rw [integer]
  split
  · next h => rwa [if_pos (decide_eq_true h)] at hnumeral
  · next h => rwa [if_neg (by simpa using h)] at hnumeral

/-! ### Decimals -/

/-- The parts of a decimal in positional notation. -/
theorem exists_parts_positional {x : Decimal} (h : x.digits ≠ 0) :
    ∃ whole fraction, AreWhole whole ∧ IsFraction fraction ∧
      Layout.positional (x.exponent + Decimal.length x.digits - 1) x = whole ++ fraction ++ [] := by
  have hdigits := areDigits_toDigits x.digits
  have hhead := head?_toDigits_ne h
  obtain ⟨c, cs, hcs⟩ := List.exists_cons_of_ne_nil hdigits.ne_nil
  rw [hcs] at hdigits hhead
  simp only [Layout.positional, Decimal.length, hcs]
  split
  · refine ⟨c :: cs ++ List.replicate x.exponent.toNat '0', ['.', '0'],
      ⟨hdigits.append fun _ => isDigit_of_mem_replicate, fun hzero => absurd hzero hhead⟩, isFraction_zero, by simp⟩
  · split
    · next hexponent hlead =>
      have hshort : (x.exponent + ((c :: cs).length : Nat) - 1).toNat + 1 < (c :: cs).length := by omega
      generalize (x.exponent + ((c :: cs).length : Nat) - 1).toNat = n at hshort ⊢
      refine ⟨(c :: cs).take (n + 1), '.' :: (c :: cs).drop (n + 1),
        ⟨⟨by simp, fun d hd => hdigits.digits d (List.mem_of_mem_take hd)⟩, fun hzero => absurd hzero hhead⟩,
        .inr ⟨_, ⟨?_, fun d hd => hdigits.digits d (List.mem_of_mem_drop hd)⟩, rfl⟩, by simp⟩
      rw [Ne, List.drop_eq_nil_iff]
      omega
    · refine ⟨['0'], '.' :: (List.replicate (-(x.exponent + ((c :: cs).length : Nat) - 1) - 1).toNat '0' ++ c :: cs),
        areWhole_zero, .inr ⟨_, ⟨by simp, fun d hd => ?_⟩, rfl⟩, by simp⟩
      exact (List.mem_append.1 hd).elim isDigit_of_mem_replicate (hdigits.digits d)

/-- The parts of a decimal with an exponent. -/
theorem exists_parts_scientific (lead : Int) (x : Decimal) :
    ∃ whole fraction exponent, AreWhole whole ∧ IsFraction fraction ∧ IsExponent exponent ∧
      Layout.scientific lead x = whole ++ fraction ++ exponent := by
  have hdigits := areDigits_toDigits x.digits
  simp only [Layout.scientific]
  generalize Nat.toDigits 10 x.digits = ds at hdigits ⊢
  obtain ⟨c, cs, rfl⟩ := List.exists_cons_of_ne_nil hdigits.ne_nil
  refine ⟨[c], if cs.isEmpty then [] else '.' :: cs, _,
    ⟨⟨by simp, fun d hd => hdigits.digits d (by simp_all)⟩, fun hzero => by simpa using hzero⟩, ?_,
    .inr ⟨if lead < 0 then '-' else '+', _, ?_, areDigits_toDigits lead.natAbs, rfl⟩, by simp⟩
  · split
    · exact .inl rfl
    · next hne => exact .inr ⟨cs, ⟨by simpa using hne, fun d hd => hdigits.digits d (by simp [hd])⟩, rfl⟩
  · split
    · exact .inr rfl
    · exact .inl rfl

/-- **A finite number is written as a numeral.** -/
theorem isNumeral_binary {f : Format} (l : Layout) {x : Binary f} (h : x.isFinite = true) : IsNumeral (binary l x) := by
  cases x with
  | nan | infinite => cases h
  | finite negative k =>
    obtain ⟨whole, fraction, exponent, hwhole, hfraction, hexponent, htext⟩ : ∃ whole fraction exponent,
        AreWhole whole ∧ IsFraction fraction ∧ IsExponent exponent ∧
          (if k.val = 0 then ['0', '.', '0'] else l.write (Decimal.shortest f k.val)) = whole ++ fraction ++ exponent := by
      split
      · exact ⟨['0'], ['.', '0'], [], areWhole_zero, isFraction_zero, .inl rfl, rfl⟩
      · next hk =>
        rw [Layout.write]
        split
        · obtain ⟨whole, fraction, hwhole, hfraction, htext⟩ :=
            exists_parts_positional (Decimal.digits_shortest_ne_zero f hk)
          exact ⟨whole, fraction, [], hwhole, hfraction, .inl rfl, htext⟩
        · exact exists_parts_scientific _ _
    have hnumeral := isNumeral_append hwhole hfraction hexponent negative
    rwa [binary, Layout.write?, Option.getD_some, htext]

end Json
end Suggest
