/-
# Scores that are numbers

A number that is finite and not zero can be multiplied with every number (`Binary.IsFactor`).  The weights of a ranking are
such numbers, and so is the share of a text that stands in front of a match, if the match does not begin the text and the text
has fewer than `2 ^ 64` characters (`Ranking.isFactor_share`).  So no score of what is found inside such a text is `nan`, unless
the slope is (`Ranking.positionFactor_ne_nan`).

Scores that are numbers are in an order (`Entry.ordersOn_higher`), so entries with such scores can be sorted
(`Entry.sortByScore?_of_numbers`), and they are sorted by falling score (`Entry.pairwise_sortByScore`).
-/

import Mathlib.Algebra.Group.Nat.Defs
import Suggest.Proofs.Sorting.Runs
import Suggest.Ranking

namespace Suggest
namespace Binary

variable {f : Format}

theorem less_asymm {x y : Binary f} (h : x.less y = true) : y.less x = false := by
  rw [← Bool.not_eq_true]
  intro hyx
  have := less_trans h hyx
  rw [less_irrefl] at this
  cases this

/-- A number is above the lower one of two numbers, or below the higher one. -/
theorem less_or_less {x y z : Binary f} (hy : y ≠ .nan) (h : z.less x = true) : y.less x = true ∨ z.less y = true := by
  have hrank : ∃ b, y.rank? = some b := by
    cases y with
    | nan => exact absurd rfl hy
    | infinite | finite => exact ⟨_, rfl⟩
  obtain ⟨b, hb⟩ := hrank
  unfold less at *
  rw [hb]
  generalize x.rank? = a at *
  generalize z.rank? = c at *
  cases a <;> cases c <;> simp_all
  omega

theorem not_less_trans {x y z : Binary f} (hy : y ≠ .nan) (hxy : x.less y = false) (hyz : y.less z = false) :
    x.less z = false := by
  rw [← Bool.not_eq_true]
  intro hxz
  rcases less_or_less hy hxz with h | h
  · rw [hyz] at h
    cases h
  · rw [hxy] at h
    cases h

theorem less_nan (x : Binary f) : x.less .nan = false := by
  cases x <;> rfl

/-- Whether a number is finite and not zero. -/
def IsFactor (x : Binary f) : Prop := ∃ negative k, x = .finite negative k ∧ k.val ≠ 0

theorem ofUnits_ne_nan (negative : Bool) (num den : Nat) : (ofUnits negative num den : Binary f) ≠ .nan := by
  rw [ofUnits]
  split <;> simp

theorem one_ne_nan : (one : Binary f) ≠ .nan := ofUnits_ne_nan false (1 <<< f.scale) 1

theorem IsFactor.mul_right_ne_nan {x y : Binary f} (hx : x ≠ .nan) (hy : y.IsFactor) : x.mul y ≠ .nan := by
  obtain ⟨negative, k, rfl, hk⟩ := hy
  cases x with
  | nan => exact absurd rfl hx
  | infinite a => simp [mul, hk]
  | finite a j => exact ofUnits_ne_nan _ _ _

theorem IsFactor.mul_left_ne_nan {x y : Binary f} (hx : x.IsFactor) (hy : y ≠ .nan) : x.mul y ≠ .nan := by
  obtain ⟨negative, k, rfl, hk⟩ := hx
  cases y with
  | nan => exact absurd rfl hy
  | infinite a => simp [mul, hk]
  | finite a j => exact ofUnits_ne_nan _ _ _

/-- Whatever number is taken from a finite one leaves a number. -/
theorem sub_ne_nan {x y : Binary f} (hx : x.isFinite = true) (hy : y ≠ .nan) : x.sub y ≠ .nan := by
  cases x with
  | nan | infinite => cases hx
  | finite a j =>
    cases y with
    | nan => exact absurd rfl hy
    | infinite b => simp [sub, neg, add]
    | finite b k =>
      simp only [sub, neg, add]
      split
      · simp [signedZero]
      · exact ofUnits_ne_nan _ _ _

end Binary

/-! ### Magnitudes of single numbers

A quotient of `n + 1` bits is rounded to a magnitude in group `n - 22` or to the first one of the next group, and the units of
the magnitudes in a group `g` have `g + 23` bits. -/

theorem roundQuotient_bounds (num den : Nat) :
    num / den ≤ roundQuotient num den ∧ roundQuotient num den ≤ num / den + 1 := by
  rw [roundQuotient]
  split <;> omega

namespace Format

theorem nearest_bounds {num den n : Nat} (hn : 23 ≤ n) (hlog : (num / den).log2 = n) :
    (n - 22) * 2 ^ 23 ≤ single.nearest num den ∧ single.nearest num den ≤ (n - 21) * 2 ^ 23 := by
  have hpos : num / den ≠ 0 := by
    intro h
    rw [h, Nat.log2_zero] at hlog
    omega
  have hlow : 2 ^ n ≤ num / den := hlog ▸ Nat.log2_self_le hpos
  have hhigh : num / den < 2 ^ (n + 1) := hlog ▸ Nat.lt_log2_self
  have hquotient : num / (den <<< (n - 23)) = num / den / 2 ^ (n - 23) := by
    rw [Nat.shiftLeft_eq, Nat.div_div_eq_div_mul]
  obtain ⟨hbelow, habove⟩ := roundQuotient_bounds num (den <<< (n - 23))
  rw [hquotient] at hbelow habove
  have hleast : 2 ^ 23 ≤ num / den / 2 ^ (n - 23) := by
    rw [Nat.le_div_iff_mul_le (Nat.two_pow_pos _), ← Nat.pow_add]
    exact Nat.le_trans (Nat.pow_le_pow_right (by decide) (by omega)) hlow
  have hmost : num / den / 2 ^ (n - 23) < 2 ^ 24 := by
    rw [Nat.div_lt_iff_lt_mul (Nat.two_pow_pos _), ← Nat.pow_add]
    exact Nat.lt_of_lt_of_le hhigh (Nat.pow_le_pow_right (by decide) (by omega))
  have hnearest : single.nearest num den = (n - 23) * 2 ^ 23 + roundQuotient num (den <<< (n - 23)) := by
    rw [nearest, hlog, Nat.shiftLeft_eq]
    rfl
  rw [hnearest]
  omega

theorem units_bounds {k g : Nat} (hk : k / 2 ^ 23 = g + 1) :
    2 ^ (23 + g) ≤ single.units k ∧ single.units k < 2 ^ (24 + g) := by
  have hgroup : 1 <<< single.fractionBits = 2 ^ 23 := rfl
  have hunits : single.units k = (2 ^ 23 + k % 2 ^ 23) * 2 ^ g := by
    rw [units, hgroup, hk, Nat.shiftLeft_eq, if_neg (by omega), Nat.add_sub_cancel]
  rw [hunits, Nat.pow_add, Nat.pow_add]
  constructor
  · exact Nat.mul_le_mul_right _ (Nat.le_add_right _ _)
  · exact Nat.mul_lt_mul_of_pos_right (by omega) (Nat.two_pow_pos _)

end Format

namespace Binary

/-- **A quotient that is neither too small nor too great is rounded to a number near it.** -/
theorem ofUnits_single {num den n : Nat} (negative : Bool) (hn : 23 ≤ n) (hn' : n < 270) (hlog : (num / den).log2 = n) :
    ∃ k, (ofUnits negative num den : Single) = .finite negative k ∧ k.val ≠ 0 ∧
      2 ^ n ≤ Format.single.units k.val ∧ Format.single.units k.val < 2 ^ (n + 2) := by
  obtain ⟨hlow, hhigh⟩ := Format.nearest_bounds hn hlog
  have hlimit : Format.single.nearest num den < Format.single.limit := by
    have : Format.single.limit = 255 * 2 ^ 23 := rfl
    omega
  refine ⟨⟨_, hlimit⟩, by rw [ofUnits, dif_pos hlimit], by dsimp only; omega, ?_⟩
  obtain ⟨g, hg⟩ : ∃ g, Format.single.nearest num den / 2 ^ 23 = g + 1 :=
    ⟨Format.single.nearest num den / 2 ^ 23 - 1, by omega⟩
  obtain ⟨hleast, hmost⟩ := Format.units_bounds hg
  constructor
  · exact Nat.le_trans (Nat.pow_le_pow_right (by decide) (by omega)) hleast
  · exact Nat.lt_of_lt_of_le hmost (Nat.pow_le_pow_right (by decide) (by omega))

/-- A natural number with no more than 64 bits. -/
theorem ofNat_single {n : Nat} (hpos : 0 < n) (hn : n < 2 ^ 64) :
    ∃ k, (ofNat n : Single) = .finite false k ∧ k.val ≠ 0 ∧
      2 ^ 149 ≤ Format.single.units k.val ∧ Format.single.units k.val < 2 ^ 214 := by
  have hshift : n <<< Format.single.scale / 1 = n * 2 ^ 149 := by
    rw [Nat.div_one, Nat.shiftLeft_eq]
    rfl
  have hlow : 149 ≤ (n * 2 ^ 149).log2 := by
    rw [Nat.le_log2 (by omega)]
    exact Nat.le_mul_of_pos_left _ hpos
  have hhigh : (n * 2 ^ 149).log2 < 213 := by
    rw [Nat.log2_lt (by omega)]
    omega
  obtain ⟨k, hk, hne, hleast, hmost⟩ := ofUnits_single false (by omega) (by omega) (congrArg Nat.log2 hshift)
  refine ⟨k, hk, hne, ?_, ?_⟩
  · exact Nat.le_trans (Nat.pow_le_pow_right (by decide) hlow) hleast
  · exact Nat.lt_of_lt_of_le hmost (Nat.pow_le_pow_right (by decide) (by omega))

theorem isFactor_one : (one : Single).IsFactor := by
  obtain ⟨k, hk, hne, -⟩ := ofNat_single Nat.one_pos (by decide)
  exact ⟨false, k, hk, hne⟩

/-- **The quotient of such numbers is finite and not zero.** -/
theorem isFactor_div {m n : Nat} (hm : 0 < m) (hm' : m < 2 ^ 64) (hn : 0 < n) (hn' : n < 2 ^ 64) :
    IsFactor ((ofNat m : Single).div (ofNat n)) := by
  obtain ⟨j, hj, -, hjleast, hjmost⟩ := ofNat_single hm hm'
  obtain ⟨k, hk, hne, hkleast, hkmost⟩ := ofNat_single hn hn'
  rw [hj, hk, div, if_neg hne]
  generalize hnum : Format.single.units j.val <<< Format.single.scale = num
  generalize Format.single.units k.val = den at hkleast hkmost
  have hnum : num = Format.single.units j.val * 2 ^ 149 := by
    rw [← hnum, Nat.shiftLeft_eq]
    rfl
  have hlow : 2 ^ 84 ≤ num / den := by
    rw [Nat.le_div_iff_mul_le (by omega)]
    omega
  have hhigh : num / den < 2 ^ 214 := by
    rw [Nat.div_lt_iff_lt_mul (by omega)]
    omega
  have hlogLow : 84 ≤ (num / den).log2 := (Nat.le_log2 (by omega)).2 hlow
  have hlogHigh : (num / den).log2 < 214 := (Nat.log2_lt (by omega)).2 hhigh
  generalize hlog : (num / den).log2 = n at hlogLow hlogHigh
  obtain ⟨q, hq, hqne, -⟩ := ofUnits_single (false != false) (by omega) (by omega) hlog
  exact ⟨false != false, q, hq, hqne⟩

end Binary

namespace Ranking

/-- The share of a text that stands in front of a match. -/
theorem isFactor_share {offset length : Nat} (hpos : 0 < offset) (hle : offset ≤ length) (hlength : length < 2 ^ 64) :
    ((Binary.ofNat offset : Single).div (Binary.ofNat length)).IsFactor :=
  Binary.isFactor_div hpos (Nat.lt_of_le_of_lt hle hlength) (Nat.lt_of_lt_of_le hpos hle) hlength

theorem isFactor_longerWordWeight : longerWordWeight.IsFactor := ⟨_, _, rfl, by decide +kernel⟩

theorem isFactor_supplementWeight : supplementWeight.IsFactor := ⟨_, _, rfl, by decide +kernel⟩

/-- **A match that does not begin a text has a number for its factor,** if the slope is one. -/
theorem positionFactor_ne_nan {r : Ranking} (hslope : r.positionDecay ≠ .nan) {offset length : Nat} (hpos : 0 < offset)
    (hle : offset ≤ length) (hlength : length < 2 ^ 64) : r.positionFactor offset length ≠ .nan := by
  rw [positionFactor, if_neg (by omega)]
  exact Binary.sub_ne_nan rfl ((isFactor_share hpos hle hlength).mul_left_ne_nan hslope)

end Ranking

namespace Entry

theorem score_ne_nan_of_one {e : Entry} (h : e.score = .one) : e.score ≠ .nan := h ▸ Binary.one_ne_nan

/-- Entries by falling score, otherwise in their own order. -/
def sortByScore (entries : List Entry) : List Entry := stableSort higher entries

/-- **Scores that are numbers are in an order.** -/
theorem ordersOn_higher : OrdersOn higher fun e => e.score ≠ .nan :=
  ⟨fun hab => Binary.less_asymm hab, fun _ hy _ hxz => Binary.less_or_less hy hxz⟩

/-- **Entries of which every score is a number can be sorted.** -/
theorem sortByScore?_of_numbers {entries : List Entry} (h : ∀ e ∈ entries, e.score ≠ .nan) :
    sortByScore? entries = some (sortByScore entries) := RunSort.sort?_eq ordersOn_higher size h

/-- **They are sorted by falling score.** -/
theorem pairwise_sortByScore {entries : List Entry} (h : ∀ e ∈ entries, e.score ≠ .nan) :
    (sortByScore entries).Pairwise fun a b => a.score.less b.score = false := ordersOn_higher.pairwise_stableSort h

/-- Entries that cannot be sorted are many, and the score of one of them is no number. -/
theorem exists_nan_of_sortByScore?_eq_none {entries : List Entry} (h : sortByScore? entries = none) :
    20 < entries.length ∧ ∃ e ∈ entries, e.score = .nan := by
  constructor
  · by_contra hshort
    rw [sortByScore?, RunSort.sort?_of_length_le (Nat.le_of_not_lt hshort)] at h
    cases h
  · by_contra hnumbers
    rw [sortByScore?_of_numbers fun e he hnan => hnumbers ⟨e, he, hnan⟩] at h
    cases h

/-- Entries by rising score, except that the score of one of them is no number. -/
def unordered : List Entry :=
  (List.range 21).map fun k =>
    { id := toString k, text := "ab", category := "item", score := if k = 5 then .nan else .ofNat k }

example : sortByScore? unordered = none := by decide +kernel

end Entry

end Suggest
