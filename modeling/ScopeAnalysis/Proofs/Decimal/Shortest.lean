import Mathlib.Algebra.Order.Floor.Semifield
import ScopeAnalysis.Decimal.PropertyName
import ScopeAnalysis.Proofs.Decimal.Rounding

/-!
# The shortest decimal of a double

The search for a decimal stops at the coarsest grid on which a number rounds to the double. Sixteen
places after the first one always suffice, since doubles have 53 binary digits.
-/

namespace ScopeAnalysis

namespace Decimal

open Double

/-- The number `digits * 10 ^ exponent`. -/
def value (d : Decimal) : ℚ := d.digits * 10 ^ d.exponent

theorem zpow_eq_div {b : ℚ} (positive : b ≠ 0) (e : Int) :
    b ^ e = b ^ e.toNat / b ^ (-e).toNat := by
  rw [← zpow_natCast, ← zpow_natCast, ← zpow_sub₀ positive]
  congr 1
  omega

theorem digitCount_le_iff {n k : Nat} (positive : 0 < k) : digitCount n ≤ k ↔ n < 10 ^ k :=
  Nat.length_toDigits_le_iff (by omega) positive

theorem digitCount_pos (n : Nat) : 0 < digitCount n := Nat.length_toDigits_pos

theorem lt_pow_digitCount (n : Nat) : n < 10 ^ digitCount n :=
  (digitCount_le_iff (digitCount_pos n)).1 le_rfl

theorem pow_digitCount_le {n : Nat} (positive : n ≠ 0) : 10 ^ (digitCount n - 1) ≤ n := by
  rcases Nat.eq_zero_or_pos (digitCount n - 1) with one | more
  · rw [one, pow_zero]
    omega
  · by_contra lt
    have := (digitCount_le_iff more).2 (not_le.1 lt)
    omega

theorem pointPosition_eq (d : Decimal) : d.pointPosition = d.exponent + digitCount d.digits := rfl

/-- The first digit of a decimal stands right before its `pointPosition`. -/
theorem value_bounds {d : Decimal} (positive : d.digits ≠ 0) :
    (10 : ℚ) ^ (d.pointPosition - 1) ≤ d.value ∧ d.value < 10 ^ d.pointPosition := by
  have unit : (0 : ℚ) < 10 ^ d.exponent := by positivity
  have count := digitCount_pos d.digits
  rw [value, pointPosition_eq, show d.exponent + digitCount d.digits - 1 =
    (digitCount d.digits - 1 : Nat) + d.exponent by omega, add_comm d.exponent,
    zpow_add₀ (by norm_num), zpow_add₀ (by norm_num), zpow_natCast, zpow_natCast,
    mul_le_mul_iff_left₀ unit, mul_lt_mul_iff_left₀ unit]
  exact ⟨by exact_mod_cast pow_digitCount_le positive, by exact_mod_cast lt_pow_digitCount _⟩

/-- A fraction of at least one has as many digits before the point as its whole part; the others
are told by the whole part of their inverse, rounded up. -/
theorem leadingExponent_spec {num den : Nat} (num_pos : 0 < num) (den_pos : 0 < den) :
    (10 : ℚ) ^ leadingExponent num den ≤ num / den ∧
      (num / den : ℚ) < 10 ^ (leadingExponent num den + 1) := by
  have positive : (0 : ℚ) < den := by exact_mod_cast den_pos
  rw [leadingExponent, le_div_iff₀ positive, div_lt_iff₀ positive]
  split
  next le =>
    have whole : num / den ≠ 0 := (Nat.div_pos le den_pos).ne'
    have count := digitCount_pos (num / den)
    rw [show (digitCount (num / den) : Int) - 1 = (digitCount (num / den) - 1 : Nat) by omega,
      show ((digitCount (num / den) - 1 : Nat) : Int) + 1 = (digitCount (num / den) : Nat) by omega,
      zpow_natCast, zpow_natCast]
    constructor
    · have := Nat.mul_le_mul_right den (pow_digitCount_le whole)
      exact_mod_cast this.trans (Nat.div_mul_le_self num den)
    · have := (Nat.div_lt_iff_lt_mul den_pos).1 (lt_pow_digitCount (num / den))
      exact_mod_cast this
  next lt =>
    -- The inverse lies above a whole number and is at most the next one.
    obtain ⟨t, whole⟩ : ∃ t, (den + num - 1) / num - 1 = t := ⟨_, rfl⟩
    have first := Nat.div_mul_le_self (den + num - 1) num
    have last := Nat.lt_div_mul_add (a := den + num - 1) num_pos
    have two : 2 ≤ (den + num - 1) / num := (Nat.le_div_iff_mul_le num_pos).2 (by omega)
    rw [show (den + num - 1) / num = t + 1 by omega, Nat.add_mul, Nat.one_mul] at first last
    have count := digitCount_pos t
    have low := Nat.mul_le_mul_right num (pow_digitCount_le (n := t) (by omega))
    have high := Nat.mul_le_mul_right num (lt_pow_digitCount t)
    rw [whole, show -(digitCount t : Int) + 1 = -(digitCount t - 1 : Nat) by omega, zpow_neg,
      zpow_neg, zpow_natCast, zpow_natCast, inv_mul_le_iff₀ (by positivity),
      lt_inv_mul_iff₀ (by positivity)]
    rw [Nat.succ_mul] at high
    constructor
    · exact_mod_cast show den ≤ 10 ^ digitCount t * num by omega
    · exact_mod_cast show 10 ^ (digitCount t - 1) * num < den by omega

namespace Grid

variable {m : Nat} {e s : Int}

theorem right_pos : 0 < (around m e s).right :=
  Nat.mul_pos (Nat.pow_pos (by omega)) (Nat.pow_pos (by omega))

theorem left_mul : ((around m e s).left : ℚ) * 10 ^ s = (around m e s).right * 2 ^ (e - 2) := by
  rw [zpow_eq_div (by norm_num), zpow_eq_div two_ne_zero, neg_sub]
  simp only [around, Nat.pow_eq, Nat.cast_mul, Nat.cast_pow, Nat.cast_ofNat]
  field_simp

/-- How many units of a grid's whole numbers make one. -/
def scale (m : Nat) (e s : Int) : ℚ := (around m e s).right / 10 ^ s

theorem scale_pos : 0 < scale m e s := by
  have := right_pos (m := m) (e := e) (s := s)
  rw [scale]
  positivity

theorem mul_right_eq (c : Nat) :
    ((c * (around m e s).right : Nat) : ℚ) = c * 10 ^ s * scale m e s := by
  rw [scale]
  push_cast
  field_simp

theorem mul_left_eq (k : Nat) :
    ((k * (around m e s).left : Nat) : ℚ) = k * 2 ^ (e - 2) * scale m e s := by
  rw [scale, mul_assoc, mul_div_assoc', mul_comm (2 ^ (e - 2)), ← left_mul]
  push_cast
  field_simp

/-- Comparisons on a grid are comparisons of numbers. -/
theorem le_iff (c k : Nat) : c * (around m e s).right ≤ k * (around m e s).left ↔
    (c : ℚ) * 10 ^ s ≤ k * 2 ^ (e - 2) := by
  rw [← @Nat.cast_le ℚ, mul_right_eq, mul_left_eq, mul_le_mul_iff_left₀ scale_pos]

theorem ge_iff (c k : Nat) : k * (around m e s).left ≤ c * (around m e s).right ↔
    (k : ℚ) * 2 ^ (e - 2) ≤ c * 10 ^ s := by
  rw [← @Nat.cast_le ℚ, mul_right_eq, mul_left_eq, mul_le_mul_iff_left₀ scale_pos]

/-- A grid point is taken for one that rounds to the double exactly if it does. -/
theorem holds_iff {c : Nat} : (around m e s).holds c = true ↔ Captures m e (c * 10 ^ s) := by
  have low : ((around m e s).low : ℚ) * 2 ^ (e - 2) = lowEnd m e := rfl
  have high : ((around m e s).high : ℚ) * 2 ^ (e - 2) = highEnd m e := rfl
  by_cases even : m % 2 = 0
  · have closed : (around m e s).closed = true := beq_iff_eq.2 even
    rw [captures_iff_of_even even, ← low, ← high, ← ge_iff, ← le_iff, holds, if_pos closed,
      Bool.and_eq_true, decide_eq_true_eq, decide_eq_true_eq]
  · have closed : ¬(around m e s).closed = true := fun closed => even (beq_iff_eq.1 closed)
    rw [captures_iff_of_odd even, ← low, ← high, ← not_le, ← not_le, ← ge_iff, ← le_iff, not_le,
      not_le, holds, if_neg closed, Bool.and_eq_true, decide_eq_true_eq, decide_eq_true_eq]

theorem below_le : ((around m e s).below : ℚ) * 10 ^ s ≤ magnitude m e := by
  rw [magnitude_eq_quarters, ← le_iff]
  exact Nat.div_mul_le_self _ _

theorem lt_above : magnitude m e < ((around m e s).below + 1 : Nat) * 10 ^ s := by
  rw [magnitude_eq_quarters, ← not_le, ← le_iff, not_le]
  exact (Nat.div_lt_iff_lt_mul right_pos).1 (Nat.lt_succ_self _)

theorem captures_of_pick?_eq_some {c : Nat} (found : (around m e s).pick? = some c) :
    Captures m e (c * 10 ^ s) ∧ c ≤ (around m e s).below + 1 := by
  rw [← holds_iff]
  rw [pick?] at found
  split at found
  next low high =>
    cases found
    split
    · exact ⟨high, le_rfl⟩
    · exact ⟨low, Nat.le_succ _⟩
  next low _ =>
    cases found
    exact ⟨low, Nat.le_succ _⟩
  next _ high =>
    cases found
    exact ⟨high, le_rfl⟩
  next => cases found

/-- If any point of the grid rounds to the double, one next to the double does. -/
theorem not_captures_of_pick?_eq_none (positive : m ≠ 0) (none : (around m e s).pick? = none)
    (c : Nat) : ¬Captures m e (c * 10 ^ s) := by
  have unit : (0 : ℚ) < 10 ^ s := by positivity
  intro captures
  rw [pick?] at none
  split at none
  next => cases none
  next => cases none
  next => cases none
  next low high =>
    rcases Nat.lt_or_ge (around m e s).below c with lt | le
    · refine Bool.false_ne_true (high.symm.trans (holds_iff.2 ?_))
      have le : ((around m e s).below + 1 : Nat) * (10 : ℚ) ^ s ≤ c * 10 ^ s :=
        mul_le_mul_of_nonneg_right (by exact_mod_cast lt) unit.le
      exact (captures_magnitude positive).between captures lt_above.le le
    · refine Bool.false_ne_true (low.symm.trans (holds_iff.2 ?_))
      have le : (c : ℚ) * 10 ^ s ≤ (around m e s).below * 10 ^ s :=
        mul_le_mul_of_nonneg_right (by exact_mod_cast le) unit.le
      exact captures.between (captures_magnitude positive) le below_le

/-- Sixteen places after the first one the steps are smaller than the interval. -/
theorem pick?_ne_none (normalized : IsNormalized m e) (positive : m ≠ 0)
    (fine : (10 : ℚ) ^ (s + 16) ≤ magnitude m e) : (around m e s).pick? ≠ none := by
  intro none
  have width := magnitude_lt_width normalized positive
  have low : ((around m e s).below : ℚ) * 10 ^ s ≤ lowEnd m e := by
    by_contra above
    have high : ((around m e s).below : ℚ) * 10 ^ s < highEnd m e :=
      below_le.trans_lt magnitude_lt_highEnd
    exact not_captures_of_pick?_eq_none positive none _
      ⟨(not_le.1 above).le, high.le, .inr ⟨not_le.1 above, high⟩⟩
  have high : highEnd m e ≤ ((around m e s).below + 1 : Nat) * (10 : ℚ) ^ s := by
    by_contra below
    have low : lowEnd m e < ((around m e s).below + 1 : Nat) * (10 : ℚ) ^ s :=
      (lowEnd_lt_magnitude positive).trans lt_above
    exact not_captures_of_pick?_eq_none positive none _
      ⟨low.le, (not_le.1 below).le, .inr ⟨low, not_le.1 below⟩⟩
  rw [zpow_add₀ (by norm_num)] at fine
  push_cast at high
  norm_num at fine
  linarith

end Grid

section Search

variable {m : Nat} {e s : Int}

/-- The search ends at the first grid that has a hit. -/
theorem search_spec {fuel : Nat}
    (hit : ∃ k < fuel, (Grid.around m e (s - k)).pick? ≠ none) :
    ∃ k < fuel, ∃ c, search m e fuel s = ⟨c, s - k⟩ ∧
      (Grid.around m e (s - k)).pick? = some c ∧
        ∀ j < k, (Grid.around m e (s - j)).pick? = none := by
  induction fuel generalizing s with
  | zero =>
    obtain ⟨k, lt, _⟩ := hit
    omega
  | succ fuel ih =>
    have finer (k : Nat) : s - 1 - (k : Int) = s - (k + 1 : Nat) := by omega
    rw [search]
    split
    next digits found =>
      refine ⟨0, Nat.succ_pos _, digits, ?_, ?_, by omega⟩
      all_goals simp only [Nat.cast_zero, sub_zero, found]
    next none =>
      obtain ⟨k, lt, found⟩ := hit
      obtain ⟨k, rfl⟩ : ∃ j, k = j + 1 := by
        refine ⟨k - 1, (Nat.sub_add_cancel (Nat.one_le_iff_ne_zero.2 fun first => ?_)).symm⟩
        rw [first, Nat.cast_zero, sub_zero] at found
        exact found none
      obtain ⟨k, lt, c, result, found, before⟩ := ih ⟨k, by omega, by rwa [finer]⟩
      refine ⟨k + 1, by omega, c, by rw [result, finer], by rw [← finer, found],
        fun j earlier => ?_⟩
      cases j with
      | zero => simpa using none
      | succ j => rw [← finer, before j (by omega)]

end Search

/-- Trimming keeps the number. -/
theorem trim_value (fuel : Nat) (d : Decimal) : (trim fuel d).value = d.value := by
  induction fuel generalizing d with
  | zero => rfl
  | succ fuel ih =>
    rw [trim]
    split
    next last =>
      rw [ih, value, value, zpow_add₀ (by norm_num)]
      have whole : ((10 * (d.digits / 10) : Nat) : ℚ) = d.digits := by
        rw [Nat.mul_div_cancel' (Nat.dvd_of_mod_eq_zero last)]
      push_cast at whole
      rw [← whole]
      ring
    next => rfl

theorem trim_digits_le (fuel : Nat) (d : Decimal) : (trim fuel d).digits ≤ d.digits := by
  induction fuel generalizing d with
  | zero => exact le_rfl
  | succ fuel ih =>
    rw [trim]
    split
    · exact (ih _).trans (Nat.div_le_self _ _)
    · exact le_rfl

/-- No zero is left at the end. -/
theorem trim_digits_mod {fuel : Nat} {d : Decimal} (positive : d.digits ≠ 0)
    (short : d.digits < 10 ^ (fuel + 1)) : (trim fuel d).digits % 10 ≠ 0 := by
  induction fuel generalizing d with
  | zero =>
    rw [trim]
    omega
  | succ fuel ih =>
    rw [trim]
    split
    · refine ih ?_ ?_
      · change d.digits / 10 ≠ 0
        omega
      · change d.digits / 10 < _
        rw [pow_succ] at short
        omega
    · assumption

/-- A decimal without zeros at its end that rounds to a double and has no more digits than any
other that does. -/
structure IsShortest (d : Decimal) (m : Nat) (e : Int) : Prop where
  last : d.digits % 10 ≠ 0
  rounds : RoundsTo d.value m e
  least : ∀ d' : Decimal, RoundsTo d'.value m e → digitCount d.digits ≤ digitCount d'.digits

section Shortest

variable {m : Nat} {e : Int}

theorem leadingExponent_around (positive : m ≠ 0) :
    let grid := Grid.around m e 0
    (10 : ℚ) ^ leadingExponent (grid.point * grid.left) grid.right ≤ magnitude m e ∧
      magnitude m e < 10 ^ (leadingExponent (grid.point * grid.left) grid.right + 1) := by
  intro grid
  have right : 0 < grid.right := Grid.right_pos
  have left : 0 < grid.left := Nat.mul_pos (Nat.pow_pos (by omega)) (Nat.pow_pos (by omega))
  have point : 0 < grid.point := Nat.mul_pos (by omega) (Nat.pos_of_ne_zero positive)
  have fraction : ((grid.point * grid.left : Nat) : ℚ) / grid.right = magnitude m e := by
    have unit : (grid.right : ℚ) ≠ 0 := by exact_mod_cast right.ne'
    rw [Grid.mul_left_eq, Grid.scale, zpow_zero, div_one, magnitude_eq_quarters]
    exact mul_div_cancel_right₀ _ unit
  have spec := leadingExponent_spec (Nat.mul_pos point left) right
  rwa [fraction] at spec

variable {s : Int}

/-- What is found has no more digits than the grid has places. -/
theorem le_pow_of_pick? {c k : Nat} (less : magnitude m e < 10 ^ (s + 1))
    (found : (Grid.around m e (s - k)).pick? = some c) : c ≤ 10 ^ (k + 1) := by
  have unit : (0 : ℚ) < 10 ^ (s - k) := by positivity
  have places : (10 : ℚ) ^ (s + 1) = (10 ^ (k + 1) : Nat) * 10 ^ (s - k) := by
    rw [Nat.cast_pow, Nat.cast_ofNat, ← zpow_natCast, ← zpow_add₀ (by norm_num)]
    congr 1
    push_cast
    ring
  have lt := (Grid.below_le (s := s - k)).trans_lt less
  rw [places, mul_lt_mul_iff_left₀ unit, Nat.cast_lt] at lt
  exact (Grid.captures_of_pick?_eq_some found).2.trans lt

/-- A decimal that rounds to a double lies on a grid as coarse as its digits are few, unless the
interval holds a power of ten. -/
theorem exists_captures {d : Decimal} (first : (10 : ℚ) ^ s ≤ magnitude m e)
    (less : magnitude m e < 10 ^ (s + 1)) (positive : m ≠ 0) (captures : Captures m e d.value) :
    ∃ j < digitCount d.digits, ∃ c : Nat, Captures m e (c * 10 ^ (s - j)) := by
  have self := captures_magnitude (e := e) positive
  have count := digitCount_pos d.digits
  rcases lt_or_ge d.value (10 ^ s) with low | low
  · refine ⟨0, count, 1, ?_⟩
    rw [Nat.cast_zero, sub_zero, Nat.cast_one, one_mul]
    exact captures.between self low.le first
  rcases le_or_gt (10 ^ (s + 1)) d.value with high | high
  · refine ⟨0, count, 10, ?_⟩
    rw [Nat.cast_zero, sub_zero, Nat.cast_ofNat, ← zpow_one_add₀ (by norm_num), add_comm]
    exact self.between captures less.le high
  refine ⟨digitCount d.digits - 1, by omega, d.digits, ?_⟩
  have nonzero : d.digits ≠ 0 := by
    intro zero
    rw [value, zero, Nat.cast_zero, zero_mul] at low
    exact (low.trans_lt' (by positivity)).false
  obtain ⟨above, below⟩ := value_bounds nonzero
  have last := (zpow_lt_zpow_iff_right₀ (by norm_num)).1 (low.trans_lt below)
  have place := (zpow_lt_zpow_iff_right₀ (by norm_num)).1 (above.trans_lt high)
  rw [pointPosition_eq] at last place
  have place : s - (digitCount d.digits - 1 : Nat) = d.exponent := by omega
  rwa [place]

theorem shortest_isShortest (normalized : IsNormalized m e) (positive : m ≠ 0) :
    (shortest m e).IsShortest m e := by
  obtain ⟨first, less⟩ := leadingExponent_around (e := e) positive
  rw [shortest]
  generalize leadingExponent _ _ = s at first less ⊢
  have hit : ∃ k < maxDigits, (Grid.around m e (s - (k : Nat))).pick? ≠ none :=
    ⟨16, by decide, Grid.pick?_ne_none normalized positive (by simpa using first)⟩
  obtain ⟨k, places, c, result, found, before⟩ := search_spec hit
  have captures := (Grid.captures_of_pick?_eq_some found).1
  have bound := le_pow_of_pick? less found
  rw [show search m e maxDigits s = _ from result]
  have nonzero : c ≠ 0 := by
    rintro rfl
    have := captures.low
    have := lowEnd_pos (e := e) positive
    rw [Nat.cast_zero, zero_mul] at *
    linarith
  have short : c < 10 ^ (maxDigits + 1) :=
    bound.trans_lt (Nat.pow_lt_pow_right (by decide) (Nat.succ_lt_succ places))
  have last := trim_digits_mod (d := ⟨c, s - k⟩) nonzero short
  refine ⟨last, ?_, fun d' rounds => ?_⟩
  · rw [trim_value]
    exact captures.roundsTo normalized positive
  · obtain ⟨j, few, c', captures'⟩ :=
      exists_captures first less positive (rounds.captures normalized positive)
    have later : k ≤ j := by
      by_contra earlier
      exact Grid.not_captures_of_pick?_eq_none positive (before j (by omega)) c' captures'
    refine le_trans ?_ (show k + 1 ≤ digitCount d'.digits by omega)
    rw [digitCount_le_iff (Nat.succ_pos k)]
    refine lt_of_le_of_ne ((trim_digits_le _ _).trans bound) fun power => last ?_
    rw [power, pow_succ, Nat.mul_mod_left]

end Shortest

end Decimal

end ScopeAnalysis
