import Mathlib.Algebra.Order.Field.Rat
import Mathlib.Algebra.Order.Field.Power
import Mathlib.Data.Rat.Cast.Order
import Mathlib.Tactic.FieldSimp
import Mathlib.Tactic.Linarith
import Mathlib.Tactic.NormNum
import Mathlib.Tactic.Positivity
import Mathlib.Tactic.Ring
import ScopeAnalysis.Decimal.Shortest

/-!
# Numbers that round to a double

A number rounds to the nearest double, and to the one with the even mantissa if two are equally
near. These are the numbers between two ends that lie halfway to the neighbours of the double.
-/

namespace ScopeAnalysis

namespace Double

/-- The number `mantissa * 2 ^ exponent`. -/
def magnitude (mantissa : Nat) (exponent : Int) : ℚ := mantissa * 2 ^ exponent

/-- The numbers with at most 53 binary digits, none of which lies behind the last place of the
smallest doubles. -/
structure IsRepresentable (mantissa : Nat) (exponent : Int) : Prop where
  fits : mantissa < 2 * hiddenBit
  bounded : minExponent ≤ exponent

/-- The form in which doubles are held: the first of the 53 digits is one unless the exponent is
the least. -/
structure IsNormalized (mantissa : Nat) (exponent : Int) : Prop
    extends IsRepresentable mantissa exponent where
  leading : exponent = minExponent ∨ hiddenBit ≤ mantissa

/-- A number rounds to a double if no other one is nearer, and only an even one can be as near as
another. Exponents are not bounded above, as it is after rounding that a number overflows. -/
structure RoundsTo (q : ℚ) (mantissa : Nat) (exponent : Int) : Prop where
  nearest : ∀ m e, IsRepresentable m e →
    |q - magnitude mantissa exponent| ≤ |q - magnitude m e|
  even : ∀ m e, IsRepresentable m e → magnitude m e ≠ magnitude mantissa exponent →
    |q - magnitude m e| = |q - magnitude mantissa exponent| → mantissa % 2 = 0

theorem hiddenBit_eq : hiddenBit = 4503599627370496 := rfl

section Magnitude

variable {m n : Nat} {e f : Int}

theorem magnitude_nonneg : 0 ≤ magnitude m e := by
  rw [magnitude]
  positivity

theorem magnitude_pos (positive : m ≠ 0) : 0 < magnitude m e := by
  have : 0 < m := Nat.pos_of_ne_zero positive
  rw [magnitude]
  positivity

/-- A smaller exponent takes a greater mantissa. -/
theorem magnitude_eq_of_le (le : e ≤ f) :
    magnitude n f = magnitude (n * 2 ^ (f - e).toNat) e := by
  have step : (2 : ℚ) ^ f = 2 ^ (f - e).toNat * 2 ^ e := by
    rw [← zpow_natCast, ← zpow_add₀ two_ne_zero, Int.toNat_of_nonneg (by omega), sub_add_cancel]
  rw [magnitude, magnitude, step]
  push_cast
  ring

theorem magnitude_lt_iff : magnitude m e < magnitude n e ↔ m < n := by
  have unit : (0 : ℚ) < 2 ^ e := by positivity
  rw [magnitude, magnitude, mul_lt_mul_iff_left₀ unit, Nat.cast_lt]

theorem magnitude_le_iff : magnitude m e ≤ magnitude n e ↔ m ≤ n := by
  rw [← not_lt, magnitude_lt_iff, not_lt]

theorem magnitude_inj : magnitude m e = magnitude n e ↔ m = n := by
  have unit : (2 : ℚ) ^ e ≠ 0 := by positivity
  rw [magnitude, magnitude, mul_left_inj' unit, Nat.cast_inj]

theorem two_mul_le_shift (leading : hiddenBit ≤ m) (lt : e < f) :
    2 * hiddenBit ≤ m * 2 ^ (f - e).toNat := by
  obtain ⟨k, shift⟩ : ∃ k : Nat, (f - e).toNat = k + 1 := ⟨(f - e).toNat - 1, by omega⟩
  rw [shift, pow_succ', ← mul_assoc]
  have := Nat.le_mul_of_pos_right (m * 2) (show 0 < 2 ^ k by positivity)
  omega

/-- Every number is held in one normalized form. -/
theorem IsNormalized.unique (one : IsNormalized m e) (other : IsNormalized n f)
    (same : magnitude m e = magnitude n f) : m = n ∧ e = f := by
  wlog le : e ≤ f generalizing m n e f
  · obtain ⟨mantissa, exponent⟩ := this other one same.symm (by omega)
    exact ⟨mantissa.symm, exponent.symm⟩
  rw [magnitude_eq_of_le le, magnitude_inj] at same
  rcases le.eq_or_lt with rfl | lt
  · simpa using same
  · have leading : hiddenBit ≤ n := by
      have := one.bounded
      rcases other.leading with least | leading <;> omega
    have := one.fits
    have := two_mul_le_shift leading lt
    omega

end Magnitude

section Neighbours

variable {m n : Nat} {e f : Int}

/-- The mantissa and exponent of the neighbour below. -/
def pred (m : Nat) (e : Int) : Nat × Int :=
  if m = hiddenBit ∧ minExponent < e then (2 * m - 1, e - 1) else (m - 1, e)

theorem pred_isRepresentable (normalized : IsNormalized m e) :
    IsRepresentable (pred m e).1 (pred m e).2 := by
  have := normalized.fits
  have := normalized.bounded
  rw [pred]
  split
  all_goals exact ⟨by omega, by omega⟩

/-- The neighbour above is twice as far from its own neighbour above where the mantissa is full. -/
theorem exists_succ (normalized : IsNormalized m e) :
    ∃ n f, IsRepresentable n f ∧ magnitude n f = magnitude (m + 1) e := by
  have fits := normalized.fits
  have bounded := normalized.bounded
  by_cases full : m + 1 = 2 * hiddenBit
  · refine ⟨hiddenBit, e + 1, ⟨by decide, by omega⟩, ?_⟩
    rw [magnitude_eq_of_le (show e ≤ e + 1 by omega), full, show (e + 1 - e).toNat = 1 by omega,
      pow_one, mul_comm]
  · exact ⟨m + 1, e, ⟨by omega, bounded⟩, rfl⟩

/-- Nothing lies between a double and its neighbour above. -/
theorem succ_le (normalized : IsNormalized m e) (representable : IsRepresentable n f)
    (lt : magnitude m e < magnitude n f) : magnitude (m + 1) e ≤ magnitude n f := by
  rcases le_or_gt e f with le | gt
  · rw [magnitude_eq_of_le le, magnitude_lt_iff] at lt
    rw [magnitude_eq_of_le le, magnitude_le_iff]
    exact lt
  · -- A number with a smaller exponent is smaller, as the first digit of the double is not zero.
    have leading : hiddenBit ≤ m := by
      have := representable.bounded
      rcases normalized.leading with least | leading <;> omega
    rw [magnitude_eq_of_le gt.le, magnitude_lt_iff] at lt
    have := representable.fits
    have := two_mul_le_shift leading gt
    omega

/-- Nothing lies between a double and its neighbour below. -/
theorem le_pred (normalized : IsNormalized m e) (representable : IsRepresentable n f)
    (lt : magnitude n f < magnitude m e) :
    magnitude n f ≤ magnitude (pred m e).1 (pred m e).2 := by
  rcases le_or_gt e f with le | gt
  · rw [magnitude_eq_of_le le, magnitude_lt_iff] at lt
    rw [magnitude_eq_of_le le, pred]
    split
    · rw [magnitude_eq_of_le (show e - 1 ≤ e by omega), magnitude_le_iff,
        show (e - (e - 1)).toNat = 1 by omega]
      omega
    · rw [magnitude_le_iff]
      omega
  · have fits := representable.fits
    have leading : hiddenBit ≤ m := by
      have := representable.bounded
      rcases normalized.leading with least | leading <;> omega
    have greatest : magnitude n f ≤ magnitude (2 * hiddenBit - 1) (e - 1) := by
      rw [magnitude_eq_of_le (show f ≤ e - 1 by omega), magnitude_le_iff]
      exact (Nat.le_sub_one_of_lt fits).trans (Nat.le_mul_of_pos_right _ (by positivity))
    refine greatest.trans ?_
    rw [pred]
    split
    next first => rw [first.1]
    next other =>
      have := representable.bounded
      rw [magnitude_eq_of_le (show e - 1 ≤ e by omega), magnitude_le_iff,
        show (e - (e - 1)).toNat = 1 by omega]
      omega

end Neighbours

section Interval

variable {m n : Nat} {e f : Int} {q r : ℚ}

/-- The lower end of what rounds to a double, given in quarters of its last place. -/
def lowEnd (m : Nat) (e : Int) : ℚ :=
  (if m = hiddenBit ∧ minExponent < e then 4 * m - 1 else 4 * m - 2 : Nat) * 2 ^ (e - 2)

/-- The upper end of what rounds to a double. -/
def highEnd (m : Nat) (e : Int) : ℚ := (4 * m + 2 : Nat) * 2 ^ (e - 2)

/-- The numbers between the two ends. The ends themselves round to a double that is even. -/
structure Captures (m : Nat) (e : Int) (q : ℚ) : Prop where
  low : lowEnd m e ≤ q
  high : q ≤ highEnd m e
  inside : m % 2 = 0 ∨ lowEnd m e < q ∧ q < highEnd m e

theorem captures_iff_of_even (even : m % 2 = 0) :
    Captures m e q ↔ lowEnd m e ≤ q ∧ q ≤ highEnd m e :=
  ⟨fun captures => ⟨captures.low, captures.high⟩, fun ⟨low, high⟩ => ⟨low, high, .inl even⟩⟩

theorem captures_iff_of_odd (odd : m % 2 ≠ 0) :
    Captures m e q ↔ lowEnd m e < q ∧ q < highEnd m e :=
  ⟨fun captures => captures.inside.resolve_left odd,
    fun ⟨low, high⟩ => ⟨low.le, high.le, .inr ⟨low, high⟩⟩⟩

theorem magnitude_eq_quarters : magnitude m e = (4 * m : Nat) * 2 ^ (e - 2) := by
  rw [magnitude, zpow_sub₀ two_ne_zero]
  push_cast
  ring

/-- The upper end lies halfway to the neighbour above. -/
theorem two_mul_highEnd : 2 * highEnd m e = magnitude m e + magnitude (m + 1) e := by
  rw [highEnd, magnitude_eq_quarters, magnitude_eq_quarters]
  push_cast
  ring

/-- The lower end lies halfway to the neighbour below. -/
theorem two_mul_lowEnd (positive : m ≠ 0) :
    2 * lowEnd m e = magnitude (pred m e).1 (pred m e).2 + magnitude m e := by
  rw [lowEnd, pred]
  split
  · have half : (2 : ℚ) ^ (e - 1) = 2 * 2 ^ (e - 2) := by
      rw [zpow_sub₀ two_ne_zero, zpow_sub₀ two_ne_zero]
      ring
    rw [magnitude_eq_quarters (m := m), magnitude, half]
    push_cast [show 1 ≤ 4 * m by omega, show 1 ≤ 2 * m by omega]
    ring
  · rw [magnitude_eq_quarters, magnitude_eq_quarters]
    push_cast [show 2 ≤ 4 * m by omega, show 1 ≤ m by omega]
    ring

theorem magnitude_lt_succ : magnitude m e < magnitude (m + 1) e :=
  magnitude_lt_iff.2 (Nat.lt_succ_self m)

theorem pred_lt (positive : m ≠ 0) : magnitude (pred m e).1 (pred m e).2 < magnitude m e := by
  rw [pred]
  split
  · rw [magnitude_eq_of_le (show e - 1 ≤ e by omega), magnitude_lt_iff,
      show (e - (e - 1)).toNat = 1 by omega]
    omega
  · rw [magnitude_lt_iff]
    omega

theorem abs_sub_le_iff_of_lt {x y : ℚ} (lt : x < y) : |q - x| ≤ |q - y| ↔ 2 * q ≤ x + y := by
  rw [← sq_le_sq]
  constructor <;> intro le <;> nlinarith

theorem abs_sub_le_iff_of_gt {x y : ℚ} (lt : x < y) : |q - y| ≤ |q - x| ↔ x + y ≤ 2 * q := by
  rw [← sq_le_sq]
  constructor <;> intro le <;> nlinarith

theorem RoundsTo.captures (normalized : IsNormalized m e) (positive : m ≠ 0)
    (rounds : RoundsTo q m e) : Captures m e q := by
  obtain ⟨n, f, representable, succ⟩ := exists_succ normalized
  have high := rounds.nearest n f representable
  have low := rounds.nearest _ _ (pred_isRepresentable normalized)
  rw [succ, abs_sub_le_iff_of_lt magnitude_lt_succ, ← two_mul_highEnd] at high
  rw [abs_sub_le_iff_of_gt (pred_lt positive), ← two_mul_lowEnd positive] at low
  refine ⟨by linarith, by linarith, or_iff_not_imp_left.2 fun odd => ⟨?_, ?_⟩⟩
  · refine lt_of_le_of_ne (by linarith) fun tie => odd ?_
    refine rounds.even _ _ (pred_isRepresentable normalized) (pred_lt positive).ne ?_
    refine le_antisymm ((abs_sub_le_iff_of_lt (pred_lt positive)).2 ?_)
      ((abs_sub_le_iff_of_gt (pred_lt positive)).2 ?_)
    all_goals rw [← two_mul_lowEnd positive]; linarith
  · refine lt_of_le_of_ne (by linarith) fun tie => odd ?_
    refine rounds.even n f representable (succ ▸ magnitude_lt_succ.ne') ?_
    rw [succ]
    refine le_antisymm ((abs_sub_le_iff_of_gt magnitude_lt_succ).2 ?_)
      ((abs_sub_le_iff_of_lt magnitude_lt_succ).2 ?_)
    all_goals rw [← two_mul_highEnd]; linarith

theorem Captures.roundsTo (normalized : IsNormalized m e) (positive : m ≠ 0)
    (captures : Captures m e q) : RoundsTo q m e := by
  have high := two_mul_highEnd (m := m) (e := e)
  have low := two_mul_lowEnd (e := e) positive
  have := captures.low
  have := captures.high
  constructor
  · intro n f representable
    rcases lt_trichotomy (magnitude n f) (magnitude m e) with lt | same | gt
    · have := le_pred normalized representable lt
      rw [abs_sub_le_iff_of_gt lt]
      linarith
    · rw [same]
    · have := succ_le normalized representable gt
      rw [abs_sub_le_iff_of_lt gt]
      linarith
  · intro n f representable other tie
    by_contra odd
    obtain ⟨inLow, inHigh⟩ := captures.inside.resolve_left odd
    rcases lt_or_gt_of_ne other with lt | gt
    · have := le_pred normalized representable lt
      have := (abs_sub_le_iff_of_lt lt).1 tie.le
      linarith
    · have := succ_le normalized representable gt
      have := (abs_sub_le_iff_of_gt gt).1 tie.le
      linarith

/-- The interval has no gaps. -/
theorem Captures.between {q' : ℚ} (first : Captures m e q) (last : Captures m e q')
    (low : q ≤ r) (high : r ≤ q') : Captures m e r := by
  refine ⟨first.low.trans low, high.trans last.high, ?_⟩
  rcases first.inside with even | ⟨inLow, _⟩
  · exact .inl even
  · rcases last.inside with even | ⟨_, inHigh⟩
    · exact .inl even
    · exact .inr ⟨inLow.trans_le low, high.trans_lt inHigh⟩

theorem lowEnd_lt_magnitude (positive : m ≠ 0) : lowEnd m e < magnitude m e := by
  have low := two_mul_lowEnd (e := e) positive
  have := pred_lt (e := e) positive
  linarith

theorem magnitude_lt_highEnd : magnitude m e < highEnd m e := by
  have high := two_mul_highEnd (m := m) (e := e)
  have := magnitude_lt_succ (m := m) (e := e)
  linarith

/-- A double rounds to itself. -/
theorem captures_magnitude (positive : m ≠ 0) : Captures m e (magnitude m e) :=
  have low := lowEnd_lt_magnitude positive
  ⟨low.le, magnitude_lt_highEnd.le, .inr ⟨low, magnitude_lt_highEnd⟩⟩

theorem lowEnd_pos (positive : m ≠ 0) : 0 < lowEnd m e := by
  have low := two_mul_lowEnd (e := e) positive
  have := magnitude_pos (e := e) positive
  have := magnitude_nonneg (m := (pred m e).1) (e := (pred m e).2)
  linarith

/-- The interval is wide enough for sixteen digits after the first. -/
theorem magnitude_lt_width (normalized : IsNormalized m e) (positive : m ≠ 0) :
    magnitude m e < 10 ^ 16 * (highEnd m e - lowEnd m e) := by
  have unit : (0 : ℚ) < 2 ^ (e - 2) := by positivity
  rw [magnitude_eq_quarters, highEnd, lowEnd, ← sub_mul, ← mul_assoc, mul_lt_mul_iff_left₀ unit]
  have fits := normalized.fits
  rw [hiddenBit_eq] at fits ⊢
  split
  next first =>
    rw [first.1]
    norm_num
  next =>
    have bound : (m : ℚ) < 2 * 4503599627370496 := by exact_mod_cast fits
    push_cast [show 2 ≤ 4 * m by omega]
    linarith

/-- A number rounds to one double only. -/
theorem RoundsTo.unique (one : IsNormalized m e) (other : IsNormalized n f)
    (first : RoundsTo q m e) (second : RoundsTo q n f) : m = n ∧ e = f := by
  refine one.unique other ?_
  by_contra apart
  wlog lt : magnitude m e < magnitude n f generalizing m n e f
  · exact this other one second first (Ne.symm apart) (lt_of_le_of_ne (not_lt.1 lt) (Ne.symm apart))
  have tie : |q - magnitude n f| = |q - magnitude m e| :=
    le_antisymm (second.nearest m e one.toIsRepresentable)
      (first.nearest n f other.toIsRepresentable)
  have even := first.even n f other.toIsRepresentable lt.ne' tie
  have even' := second.even m e one.toIsRepresentable lt.ne tie.symm
  -- Two that tie are neighbours, and of neighbours one is odd.
  have next : magnitude n f = magnitude (m + 1) e := by
    obtain ⟨k, g, representable, succ⟩ := exists_succ one
    have near := first.nearest k g representable
    rw [succ, abs_sub_le_iff_of_lt magnitude_lt_succ] at near
    have far := (abs_sub_le_iff_of_gt lt).1 tie.le
    exact le_antisymm (by linarith) (succ_le one other.toIsRepresentable lt)
  have fits := one.fits
  have normalized : IsNormalized (m + 1) e := by
    refine ⟨⟨?_, one.bounded⟩, one.leading.imp id (fun leading => leading.trans (Nat.le_succ m))⟩
    rw [hiddenBit_eq] at fits ⊢
    omega
  have odd := (other.unique normalized next).1
  omega

end Interval

end Double

end ScopeAnalysis
