/-
# Scores of at most one

Rounding does not bring a quotient of at most one above one, since one is a number of the format (`Format.nearest_le_one`).  So a
share, which is a number from zero to one, makes no number greater than one that is not (`Binary.AtMostOne.mul`), and taking away
from one what is not negative leaves at most one (`Binary.atMostOne_sub`).

Quotients of natural numbers are not negative, and products of numbers that are not negative are not (`Binary.NotNegative.mul`).
Hence no factor for the place of a match exceeds one, if the slope is not negative (`Ranking.atMostOne_positionFactor`).
-/

import Suggest.Proofs.Scores

namespace Suggest

/-- The magnitude of one. -/
def oneMagnitude : Nat := 127 * 2 ^ 23

namespace Format

/-- **A quotient of at most one is rounded to a number of at most one.** -/
theorem nearest_le_one {num den : Nat} (hden : 0 < den) (h : num ≤ den * 2 ^ 149) :
    single.nearest num den ≤ oneMagnitude := by
  have hquotient : num / den ≤ 2 ^ 149 := Nat.div_le_of_le_mul h
  by_cases hone : num / den = 2 ^ 149
  · -- then nothing is rounded
    have hnum : num = den * 2 ^ 149 := by
      refine Nat.le_antisymm h ?_
      rw [← hone, Nat.mul_comm]
      exact Nat.div_mul_le_self num den
    have hshifted : num / (den <<< 126) = 2 ^ 23 ∧ num % (den <<< 126) = 0 := by
      have hmul : num = den <<< 126 * 2 ^ 23 := by rw [hnum, Nat.shiftLeft_eq, Nat.mul_assoc, ← Nat.pow_add]
      have hpos : 0 < den <<< 126 := by rw [Nat.shiftLeft_eq]; omega
      rw [hmul]
      exact ⟨Nat.mul_div_cancel_left _ hpos, Nat.mul_mod_right _ _⟩
    have hshift : (num / den).log2 - single.fractionBits = 126 := by rw [hone, Nat.log2_two_pow]; rfl
    simp only [nearest, hshift, roundQuotient, hshifted.1, hshifted.2]
    rw [if_neg (by rw [Nat.shiftLeft_eq]; omega)]
    decide
  · by_cases hfew : (num / den).log2 < 23
    · have hsmall : num / den < 2 ^ 23 := by
        by_cases hzero : num / den = 0
        · omega
        · exact (Nat.log2_lt hzero).1 hfew
      have hshift : (num / den).log2 - single.fractionBits = 0 := Nat.sub_eq_zero_of_le (Nat.le_of_lt hfew)
      have hround := (roundQuotient_bounds num den).2
      rw [nearest, hshift, Nat.shiftLeft_zero, Nat.zero_shiftLeft, oneMagnitude]
      omega
    · have hne : num / den ≠ 0 := fun hzero => hfew (by rw [hzero]; decide)
      have hlog : (num / den).log2 < 149 := (Nat.log2_lt hne).2 (Nat.lt_of_le_of_ne hquotient hone)
      exact Nat.le_trans (nearest_bounds (Nat.le_of_not_lt hfew) rfl).2 (Nat.mul_le_mul_right _ (by omega))

theorem units_le_one {k : Nat} (h : k ≤ oneMagnitude) : single.units k ≤ 2 ^ 149 := by
  rw [oneMagnitude] at h
  by_cases hone : k = 127 * 2 ^ 23
  · rw [hone]
    decide
  · by_cases hfirst : k / 2 ^ 23 = 0
    · have hgroup : k < 1 <<< single.fractionBits := (Nat.div_eq_zero_iff_lt (Nat.two_pow_pos 23)).1 hfirst
      rw [units, if_pos hgroup]
      omega
    · obtain ⟨g, hg⟩ := Nat.exists_eq_add_one_of_ne_zero hfirst
      have hless : 24 + g ≤ 149 := by omega
      exact Nat.le_trans (Nat.le_of_lt (units_bounds hg).2) (Nat.pow_le_pow_right (by decide) hless)

end Format

namespace Binary

theorem rank?_one : (one : Single).rank? = some (oneMagnitude : Int) := by decide

/-- Whether a number is not greater than one. -/
def AtMostOne (x : Single) : Prop := one.less x = false

/-- Whether a number is not less than zero. -/
def NotNegative (x : Single) : Prop := x.less (signedZero false) = false

instance (x : Single) : Decidable (NotNegative x) := inferInstanceAs (Decidable (x.less (signedZero false) = false))

variable {x y : Single}

theorem atMostOne_iff : AtMostOne x ↔ ∀ place, x.rank? = some place → place ≤ oneMagnitude := by
  rw [AtMostOne, less, rank?_one]
  cases x.rank? <;> simp

theorem notNegative_iff : NotNegative x ↔ ∀ place, x.rank? = some place → 0 ≤ place := by
  have hzero : (signedZero false : Single).rank? = some 0 := rfl
  rw [NotNegative, less, hzero]
  cases x.rank? <;> simp

/-- A number that is not less than zero has no minus sign, unless it is zero. -/
theorem NotNegative.eq_zero {k : Fin Format.single.limit} (h : NotNegative (.finite true k)) : k.val = 0 := by
  have := notNegative_iff.1 h _ rfl
  simpa using this

theorem atMostOne_one : AtMostOne one := less_irrefl one

/-- What has a minus sign is not greater than one. -/
theorem atMostOne_minus (k : Fin Format.single.limit) : AtMostOne (.finite true k) := by
  rw [atMostOne_iff]
  rintro place ⟨⟩
  simp

theorem atMostOne_ofUnits_minus (num den : Nat) : AtMostOne (ofUnits true num den) := by
  rw [ofUnits]
  split
  · exact atMostOne_minus _
  · rfl

/-- Rounding a quotient of at most one, with either sign. -/
theorem atMostOne_ofUnits (negative : Bool) {num den : Nat} (hden : 0 < den) (h : num ≤ den * 2 ^ 149) :
    AtMostOne (ofUnits negative num den) := by
  cases negative with
  | true => exact atMostOne_ofUnits_minus num den
  | false =>
    have hnearest := Format.nearest_le_one hden h
    have hlimit : oneMagnitude < Format.single.limit := by decide
    rw [ofUnits, dif_pos (Nat.lt_of_le_of_lt hnearest hlimit), atMostOne_iff]
    rintro place ⟨⟩
    exact Int.ofNat_le.2 hnearest

/-- Whether a number is finite, from zero to one. -/
def IsShare (x : Single) : Prop := ∃ k, x = .finite false k ∧ k.val ≤ oneMagnitude

theorem isShare_one : IsShare one := ⟨_, rfl, by decide +kernel⟩

/-- **A share of a number of at most one** is at most one. -/
theorem AtMostOne.mul (hx : AtMostOne x) (hy : IsShare y) : AtMostOne (x.mul y) := by
  obtain ⟨k, rfl, hk⟩ := hy
  cases x with
  | nan => exact hx
  | infinite negative =>
    cases negative with
    | false => cases hx
    | true =>
      rw [Binary.mul]
      split <;> rfl
  | finite negative j =>
    cases negative with
    | true => exact atMostOne_ofUnits_minus _ _
    | false =>
      have hj : j.val ≤ oneMagnitude := Int.ofNat_le.1 (atMostOne_iff.1 hx _ rfl)
      refine atMostOne_ofUnits _ (by decide) ?_
      exact Nat.mul_le_mul (Format.units_le_one hj) (Format.units_le_one hk)

theorem mul_comm (x y : Single) : x.mul y = y.mul x := by
  cases x <;> cases y <;> simp [Binary.mul, bne_comm, Nat.mul_comm]

/-- A difference in units. -/
theorem atMostOne_sum {sum : Int} (h : sum ≤ (2 ^ 149 : Nat)) (negative : Bool) :
    AtMostOne (if sum = 0 then signedZero negative else ofUnits (sum < 0) sum.natAbs 1) := by
  split
  · cases negative <;> rfl
  · by_cases hnegative : sum < 0
    · rw [decide_eq_true hnegative]
      exact atMostOne_ofUnits_minus _ _
    · exact atMostOne_ofUnits _ Nat.one_pos (by omega)

/-- **What is not negative, taken away from one,** leaves at most one. -/
theorem atMostOne_sub (hy : NotNegative y) : AtMostOne (one.sub y) := by
  have hone : (one : Single) = .finite false ⟨oneMagnitude, by decide⟩ := by decide +kernel
  have hunits : signedUnits (f := .single) false oneMagnitude = (2 ^ 149 : Nat) := by decide +kernel
  rw [hone]
  cases y with
  | nan => rfl
  | infinite negative =>
    cases negative with
    | false => rfl
    | true => cases hy
  | finite negative k =>
    have hneg : signedUnits (f := .single) (!negative) k.val ≤ 0 := by
      cases negative with
      | false => exact Int.neg_nonpos_of_nonneg (Int.natCast_nonneg _)
      | true =>
        -- only zero has a minus sign and is not negative
        rw [hy.eq_zero]
        exact Int.le_refl _
    refine atMostOne_sum ?_ _
    rw [hunits]
    omega

/-! ### Products that are not negative -/

theorem notNegative_plus (k : Fin Format.single.limit) : NotNegative (.finite false k) := by
  rw [notNegative_iff]
  rintro place ⟨⟩
  simp

theorem notNegative_ofUnits_plus (num den : Nat) : NotNegative (ofUnits false num den) := by
  rw [ofUnits]
  split
  · exact notNegative_plus _
  · rfl

/-- Zero units are rounded to zero. -/
theorem notNegative_ofUnits_zero (negative : Bool) (den : Nat) : NotNegative (ofUnits negative 0 den) := by
  have hzero : Format.single.nearest 0 den = 0 := by simp [Format.nearest, roundQuotient]
  have hlimit : Format.single.nearest 0 den < Format.single.limit := by
    rw [hzero]
    exact Format.single.limit_pos
  rw [ofUnits, dif_pos hlimit, notNegative_iff]
  rintro place ⟨⟩
  cases negative <;> simp [hzero]

theorem NotNegative.eq_plus {negative : Bool} (h : NotNegative (.infinite negative)) : negative = false := by
  cases negative with
  | false => rfl
  | true => cases h

theorem NotNegative.eq_plus_of_ne_zero {negative : Bool} {k : Fin Format.single.limit} (h : NotNegative (.finite negative k))
    (hk : k.val ≠ 0) : negative = false := by
  cases negative with
  | false => rfl
  | true => exact absurd h.eq_zero hk

theorem NotNegative.infinite_mul {a b : Bool} {k : Fin Format.single.limit} (hx : NotNegative (.infinite a))
    (hy : NotNegative (.finite b k)) : NotNegative ((infinite a : Single).mul (.finite b k)) := by
  rw [Binary.mul]
  split
  · rfl
  · next hk =>
    rw [hx.eq_plus, hy.eq_plus_of_ne_zero hk]
    rfl

/-- **A product of numbers that are not negative** is not negative. -/
theorem NotNegative.mul (hx : NotNegative x) (hy : NotNegative y) : NotNegative (x.mul y) := by
  cases x with
  | nan => rfl
  | infinite a =>
    cases y with
    | nan => rfl
    | infinite b =>
      rw [hx.eq_plus, hy.eq_plus]
      rfl
    | finite b k => exact hx.infinite_mul hy
  | finite a j =>
    cases y with
    | nan => rfl
    | infinite b =>
      rw [mul_comm]
      exact hy.infinite_mul hx
    | finite b k =>
      rw [Binary.mul]
      by_cases hj : j.val = 0
      · rw [hj, Format.units_zero, Nat.zero_mul]
        exact notNegative_ofUnits_zero _ _
      · by_cases hk : k.val = 0
        · rw [hk, Format.units_zero, Nat.mul_zero]
          exact notNegative_ofUnits_zero _ _
        · rw [hx.eq_plus_of_ne_zero hj, hy.eq_plus_of_ne_zero hk]
          exact notNegative_ofUnits_plus _ _

theorem notNegative_div_ofNat (m n : Nat) : NotNegative ((ofNat m : Single).div (ofNat n)) := by
  have hsign : ∀ m : Nat, (ofNat m : Single) = .infinite false ∨ ∃ k, (ofNat m : Single) = .finite false k := by
    intro m
    rw [ofNat, ofRatio, ofUnits]
    split
    · exact .inr ⟨_, rfl⟩
    · exact .inl rfl
  rcases hsign m with hm | ⟨j, hm⟩ <;> rcases hsign n with hn | ⟨k, hn⟩ <;> rw [hm, hn, div]
  · rfl
  · rfl
  · exact notNegative_plus _
  · split
    · split <;> rfl
    · exact notNegative_ofUnits_plus _ _

end Binary

namespace Ranking

theorem isShare_supplementWeight : supplementWeight.IsShare := ⟨_, rfl, by decide +kernel⟩

/-- **No place of a match counts more than the beginning,** if the slope is not negative. -/
theorem atMostOne_positionFactor {r : Ranking} (h : r.positionDecay.NotNegative) (offset length : Nat) :
    (r.positionFactor offset length).AtMostOne := by
  rw [positionFactor]
  split
  · exact Binary.atMostOne_one
  · exact Binary.atMostOne_sub ((Binary.notNegative_div_ofNat offset length).mul h)

end Ranking

end Suggest
