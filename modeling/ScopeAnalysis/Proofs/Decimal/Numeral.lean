import ScopeAnalysis.Proofs.Decimal.Shortest

/-!
# Reading numbers back from their texts

The text of a shortest decimal is a decimal literal of that number. It is canonical: it has no
zeros that could be left out and an exponent only outside of the ordinary range.
-/

namespace ScopeAnalysis

/-- The exponent of a decimal literal. -/
structure ExponentPart where
  sign : Option Char
  digits : List Char
  deriving DecidableEq, Repr

/-- A decimal literal in its parts. -/
structure Numeral where
  negative : Bool
  whole : List Char
  fraction : Option (List Char)
  exponent : Option ExponentPart
  deriving DecidableEq, Repr

def isDigits (text : List Char) : Bool := !text.isEmpty && text.all Char.isDigit

namespace ExponentPart

def read? : List Char → Option ExponentPart
  | '+' :: digits => if isDigits digits then some ⟨some '+', digits⟩ else none
  | '-' :: digits => if isDigits digits then some ⟨some '-', digits⟩ else none
  | digits => if isDigits digits then some ⟨none, digits⟩ else none

def value (x : ExponentPart) : Int :=
  if x.sign = some '-' then -(Nat.ofDigitChars 10 x.digits 0) else Nat.ofDigitChars 10 x.digits 0

end ExponentPart

namespace Numeral

def readSign : List Char → Bool × List Char
  | '-' :: text => (true, text)
  | text => (false, text)

def readFraction : List Char → Option (List Char) × List Char
  | '.' :: text => (some (text.takeWhile Char.isDigit), text.dropWhile Char.isDigit)
  | text => (none, text)

/-- Reads a decimal literal, which has digits before the point and, if there is one, behind it. -/
def read? (text : List Char) : Option Numeral :=
  let (negative, text) := readSign text
  let whole := text.takeWhile Char.isDigit
  let (fraction, text) := readFraction (text.dropWhile Char.isDigit)
  if whole.isEmpty || fraction = some [] then none
  else match text with
    | [] => some ⟨negative, whole, fraction, none⟩
    | 'e' :: text => (ExponentPart.read? text).map (⟨negative, whole, fraction, some ·⟩)
    | _ => none

def fractionDigits (n : Numeral) : List Char := n.fraction.getD []

def exponentValue (n : Numeral) : Int := (n.exponent.map ExponentPart.value).getD 0

/-- The number that a decimal literal denotes. -/
def value (n : Numeral) : ℚ :=
  (if n.negative then -1 else 1) * Nat.ofDigitChars 10 (n.whole ++ n.fractionDigits) 0 *
    10 ^ (n.exponentValue - n.fractionDigits.length)

/-- A literal with no zero that could be left out, and with a sign for its exponent. -/
structure IsCanonical (n : Numeral) : Prop where
  whole : n.whole.head? ≠ some '0' ∨ n.whole = ['0'] ∧ n.fraction.isSome
  fraction : ∀ digits, n.fraction = some digits → digits.getLast? ≠ some '0'
  exponent : ∀ x, n.exponent = some x → x.sign.isSome ∧ x.digits.head? ≠ some '0'

/-! Texts of literals whose exponents have a sign. -/

def exponentChars (n : Numeral) : List Char :=
  n.exponent.elim [] (fun x => 'e' :: (x.sign.toList ++ x.digits))

def fractionChars (n : Numeral) : List Char := n.fraction.elim [] ('.' :: ·)

/-- The text of a literal without its own sign. -/
def chars (n : Numeral) : List Char := n.whole ++ (n.fractionChars ++ n.exponentChars)

structure IsWellFormed (n : Numeral) : Prop where
  whole : isDigits n.whole = true
  fraction : ∀ digits, n.fraction = some digits → isDigits digits = true
  exponent : ∀ x, n.exponent = some x → (x.sign = some '+' ∨ x.sign = some '-') ∧
    isDigits x.digits = true

theorem isDigits_iff {text : List Char} :
    isDigits text = true ↔ text ≠ [] ∧ ∀ c ∈ text, c.isDigit = true := by
  simp [isDigits]

/-- Reading digits stops where they end. -/
theorem takeWhile_isDigit {text rest : List Char} (digits : isDigits text = true)
    (stop : ∀ c ∈ rest.head?, c.isDigit = false) :
    (text ++ rest).takeWhile Char.isDigit = text ∧
      (text ++ rest).dropWhile Char.isDigit = rest := by
  have digits := (isDigits_iff.1 digits).2
  rw [List.takeWhile_append_of_pos digits, List.dropWhile_append_of_pos digits]
  cases rest with
  | nil => exact ⟨List.append_nil text, rfl⟩
  | cons c rest =>
    have other : ¬c.isDigit = true := by simp [stop c rfl]
    rw [List.takeWhile_cons_of_neg other, List.dropWhile_cons_of_neg other]
    exact ⟨List.append_nil text, rfl⟩

section Reading

variable {n : Numeral}

theorem exponentChars_head : ∀ c ∈ n.exponentChars.head?, c.isDigit = false := by
  rw [exponentChars]
  cases n.exponent
  · exact nofun
  · simp

theorem fractionChars_head : ∀ c ∈ (n.fractionChars ++ n.exponentChars).head?,
    c.isDigit = false := by
  rw [fractionChars]
  cases n.fraction
  · exact exponentChars_head
  · simp

theorem read?_exponentChars {x : ExponentPart} (sign : x.sign = some '+' ∨ x.sign = some '-')
    (digits : isDigits x.digits = true) :
    ExponentPart.read? (x.sign.toList ++ x.digits) = some x := by
  obtain ⟨sign', digits'⟩ := x
  rcases sign with rfl | rfl
  all_goals exact if_pos digits

theorem readFraction_chars (wellFormed : n.IsWellFormed) :
    readFraction (n.fractionChars ++ n.exponentChars) = (n.fraction, n.exponentChars) := by
  rw [fractionChars]
  cases found : n.fraction with
  | none =>
    rw [exponentChars]
    cases n.exponent <;> rfl
  | some digits =>
    obtain ⟨here, rest⟩ := takeWhile_isDigit (wellFormed.fraction digits found)
      (exponentChars_head (n := n))
    change (some ((digits ++ n.exponentChars).takeWhile Char.isDigit),
      (digits ++ n.exponentChars).dropWhile Char.isDigit) = _
    rw [here, rest]

theorem readSign_chars (wellFormed : n.IsWellFormed) :
    readSign (if n.negative then '-' :: n.chars else n.chars) = (n.negative, n.chars) := by
  obtain ⟨nonempty, digits⟩ := isDigits_iff.1 wellFormed.whole
  obtain ⟨c, whole, first⟩ := List.exists_cons_of_ne_nil nonempty
  cases n.negative
  · have other : c ≠ '-' := by
      rintro rfl
      exact absurd (digits '-' (first ▸ List.mem_cons_self)) (by decide)
    rw [if_neg Bool.false_ne_true, chars, first, List.cons_append, readSign]
    simpa using other
  · rfl

/-- A literal is read as it was written. -/
theorem read?_chars (wellFormed : n.IsWellFormed) :
    read? (if n.negative then '-' :: n.chars else n.chars) = some n := by
  obtain ⟨here, rest⟩ := takeWhile_isDigit wellFormed.whole (fractionChars_head (n := n))
  have whole : n.whole.isEmpty = false := by
    simpa using (isDigits_iff.1 wellFormed.whole).1
  have fraction : n.fraction ≠ some [] := fun empty =>
    absurd (wellFormed.fraction [] empty) (by decide)
  rw [read?, readSign_chars wellFormed]
  simp only [chars, here, rest, readFraction_chars wellFormed, whole, fraction, decide_false,
    Bool.or_false, Bool.false_eq_true, if_false]
  rw [exponentChars]
  cases found : n.exponent with
  | none => exact congrArg some (by rw [← found])
  | some x =>
    obtain ⟨sign, digits⟩ := wellFormed.exponent x found
    simp only [Option.elim_some, read?_exponentChars sign digits, Option.map_some]
    rw [← found]

end Reading

end Numeral

/-! The digits of a number. -/

section Digits

variable {n : Nat}

theorem isDigits_toDigits : isDigits (Nat.toDigits 10 n) = true :=
  Numeral.isDigits_iff.2
    ⟨Nat.toDigits_ne_nil, fun _ => Nat.isDigit_of_mem_toDigits (by decide) (by decide)⟩

theorem head?_toDigits (positive : n ≠ 0) : (Nat.toDigits 10 n).head? ≠ some '0' := by
  induction n using Nat.strongRecOn with
  | _ n ih =>
    rw [Nat.toDigits_eq_if (by decide)]
    split
    next => simpa using positive
    next more =>
      rw [List.head?_append_of_ne_nil _ Nat.toDigits_ne_nil]
      exact ih (n / 10) (by omega) (by omega)

theorem getLast?_toDigits (last : n % 10 ≠ 0) : (Nat.toDigits 10 n).getLast? ≠ some '0' := by
  rw [Nat.toDigits_eq_if (by decide)]
  split
  next =>
    rw [List.getLast?_singleton, ne_eq, Option.some.injEq, Nat.digitChar_eq_zero]
    omega
  next =>
    rw [List.getLast?_concat, ne_eq, Option.some.injEq, Nat.digitChar_eq_zero]
    exact last

end Digits

namespace Decimal

variable (d : Decimal)

/-- The literal that stands for a decimal. -/
def numeral (negative : Bool) : Numeral :=
  let digits := d.digitChars
  let point := d.pointPosition
  if digits.length ≤ point ∧ point ≤ maxWholeDigits then
    ⟨negative, digits ++ zeros (point - digits.length).toNat, none, none⟩
  else if 0 < point ∧ point ≤ maxWholeDigits then
    ⟨negative, digits.take point.toNat, some (digits.drop point.toNat), none⟩
  else if minPointPosition < point ∧ point ≤ 0 then
    ⟨negative, ['0'], some (zeros (-point).toNat ++ digits), none⟩
  else
    ⟨negative, digits.take 1, if digits.length = 1 then none else some (digits.drop 1),
      some ⟨some (if point - 1 < 0 then '-' else '+'), Nat.toDigits 10 (point - 1).natAbs⟩⟩

theorem layout_eq_chars (negative : Bool) : d.layout = (d.numeral negative).chars := by
  rw [layout, numeral]
  simp only [Numeral.chars, Numeral.fractionChars, Numeral.exponentChars]
  split
  next => simp
  next =>
    split
    next => simp
    next =>
      split
      next => simp
      next =>
        split
        next none => exact absurd none Nat.toDigits_ne_nil
        next one => simp [one, exponentChars]
        next first rest many found =>
          have many : rest ≠ [] := fun none => many none
          simp [found, many, exponentChars]

/-- The four layouts of a decimal. Every count of digits or zeros is what it is meant to be: none
has been cut off at zero or at the end of the digits. -/
inductive Laid (negative : Bool) : Numeral → Prop
  | whole (filled : Nat) (count : d.pointPosition = d.digitChars.length + filled)
      (ordinary : d.pointPosition ≤ 21) :
      Laid negative ⟨negative, d.digitChars ++ zeros filled, none, none⟩
  | mixed (before after : List Char) (split : d.digitChars = before ++ after)
      (some_before : before ≠ []) (some_after : after ≠ [])
      (count : d.pointPosition = before.length) (ordinary : d.pointPosition ≤ 21) :
      Laid negative ⟨negative, before, some after, none⟩
  | small (filled : Nat) (count : d.pointPosition = -filled) (ordinary : -6 < d.pointPosition) :
      Laid negative ⟨negative, ['0'], some (zeros filled ++ d.digitChars), none⟩
  | scientific (first : Char) (rest : List Char) (split : d.digitChars = first :: rest)
      (extreme : d.pointPosition ≤ -6 ∨ 21 < d.pointPosition) :
      Laid negative ⟨negative, [first], if rest = [] then none else some rest,
        some ⟨some (if d.pointPosition - 1 < 0 then '-' else '+'),
          Nat.toDigits 10 (d.pointPosition - 1).natAbs⟩⟩

theorem numeral_laid (negative : Bool) : d.Laid negative (d.numeral negative) := by
  have digits : d.digitChars ≠ [] := Nat.toDigits_ne_nil
  have some_digits := List.length_pos_of_ne_nil digits
  rw [numeral]
  split
  next whole => exact .whole _ (by omega) whole.2
  next short =>
    rw [maxWholeDigits] at short
    split
    next mixed =>
      rw [maxWholeDigits] at mixed
      refine .mixed _ _ (List.take_append_drop _ _).symm ?_ ?_ ?_ mixed.2
      · rw [ne_eq, List.take_eq_nil_iff]
        exact fun none => none.elim (by omega) digits
      · rw [ne_eq, List.drop_eq_nil_iff]
        omega
      · rw [List.length_take]
        omega
    next outside =>
      rw [maxWholeDigits] at outside
      split
      next small => exact .small _ (by omega) small.1
      next extreme =>
        rw [minPointPosition] at extreme
        obtain ⟨first, rest, split⟩ := List.exists_cons_of_ne_nil digits
        have laid := @Laid.scientific d negative first rest split (by omega)
        simpa [split] using laid

/-- The scientific exponent of a decimal, that of its first digit. -/
def scientificExponent : Int := d.pointPosition - 1

variable {d} {negative : Bool} {n : Numeral}

theorem isDigits_zeros_append {filled : Nat} {text : List Char} (digits : isDigits text = true) :
    isDigits (zeros filled ++ text) = true ∧ isDigits (text ++ zeros filled) = true := by
  obtain ⟨some_digit, digits⟩ := Numeral.isDigits_iff.1 digits
  have filling : ∀ c ∈ zeros filled, c.isDigit = true := by
    intro c zero
    rw [(List.mem_replicate.1 zero).2]
    rfl
  simp only [Numeral.isDigits_iff, List.forall_mem_append]
  exact ⟨⟨List.append_ne_nil_of_right_ne_nil _ some_digit, filling, digits⟩,
    List.append_ne_nil_of_left_ne_nil some_digit _, digits, filling⟩

theorem Laid.isWellFormed (laid : d.Laid negative n) : n.IsWellFormed := by
  have digits : isDigits d.digitChars = true := isDigits_toDigits
  cases laid with
  | whole filled => exact ⟨(isDigits_zeros_append digits).2, nofun, nofun⟩
  | mixed before after split some_before some_after =>
    rw [split, Numeral.isDigits_iff, List.forall_mem_append] at digits
    refine ⟨Numeral.isDigits_iff.2 ⟨some_before, digits.2.1⟩, ?_, nofun⟩
    rintro _ ⟨⟩
    exact Numeral.isDigits_iff.2 ⟨some_after, digits.2.2⟩
  | small filled =>
    refine ⟨rfl, ?_, nofun⟩
    rintro _ ⟨⟩
    exact (isDigits_zeros_append digits).1
  | scientific first rest split =>
    rw [split, Numeral.isDigits_iff, List.forall_mem_cons] at digits
    refine ⟨Numeral.isDigits_iff.2 ⟨nofun, by simpa using digits.2.1⟩, fun after found => ?_, ?_⟩
    · change (if rest = [] then none else some rest) = some after at found
      split at found
      next => cases found
      next many =>
        cases found
        exact Numeral.isDigits_iff.2 ⟨many, digits.2.2⟩
    · rintro _ ⟨⟩
      refine ⟨?_, isDigits_toDigits⟩
      split
      · exact .inr rfl
      · exact .inl rfl

theorem Laid.negative_eq (laid : d.Laid negative n) : n.negative = negative := by
  cases laid <;> rfl

/-- Zeros around the digits only move the point. -/
theorem value_of_digits {a b : Nat}
    (digits : n.whole ++ n.fractionDigits = zeros a ++ (d.digitChars ++ zeros b))
    (place : n.exponentValue - n.fractionDigits.length + b = d.exponent) :
    n.value = (if n.negative then -1 else 1) * d.value := by
  rw [Numeral.value, digits, Nat.ofDigitChars_append, Nat.ofDigitChars_append, zeros, zeros,
    Nat.ofDigitChars_replicate_zero, Nat.ofDigitChars_replicate_zero, mul_zero, digitChars,
    Nat.ofDigitChars_ten_toDigits, value, ← place, zpow_add₀ (by norm_num), zpow_natCast]
  push_cast
  ring

theorem ExponentPart.value_ofInt (e : Int) : ExponentPart.value
    ⟨some (if e < 0 then '-' else '+'), Nat.toDigits 10 e.natAbs⟩ = e := by
  rw [ExponentPart.value, Nat.ofDigitChars_ten_toDigits]
  split
  all_goals grind

/-- The literal denotes exactly the decimal. -/
theorem Laid.value_eq (laid : d.Laid negative n) :
    n.value = (if negative then -1 else 1) * d.value := by
  have point := pointPosition_eq d
  rw [show digitCount d.digits = d.digitChars.length from rfl] at point
  rw [← laid.negative_eq]
  cases laid with
  | whole filled count =>
    refine value_of_digits (a := 0) (b := filled) (List.append_nil _) ?_
    change (0 : Int) - (0 : Nat) + filled = d.exponent
    omega
  | mixed before after split _ _ count =>
    refine value_of_digits (a := 0) (b := 0) ?_ ?_
    · exact split.symm.trans (List.append_nil _).symm
    · rw [split, List.length_append] at point
      change (0 : Int) - after.length + 0 = d.exponent
      omega
  | small filled count =>
    refine value_of_digits (a := filled + 1) (b := 0) ?_ ?_
    · simp [Numeral.fractionDigits, zeros, List.replicate_succ]
    · change (0 : Int) - (zeros filled ++ d.digitChars).length + 0 = d.exponent
      rw [List.length_append, zeros, List.length_replicate]
      omega
  | scientific first rest split =>
    have digits (e : Option ExponentPart) : Numeral.fractionDigits
        ⟨negative, [first], if rest = [] then none else some rest, e⟩ = rest := by
      cases rest <;> rfl
    refine value_of_digits (a := 0) (b := 0) ?_ ?_
    · rw [digits, split]
      exact (List.append_nil _).symm
    · rw [split, List.length_cons] at point
      rw [digits]
      change ExponentPart.value _ - rest.length + 0 = d.exponent
      rw [ExponentPart.value_ofInt]
      omega

theorem Laid.isCanonical (laid : d.Laid negative n) (last : d.digits % 10 ≠ 0) :
    n.IsCanonical := by
  have head : d.digitChars.head? ≠ some '0' := head?_toDigits (by omega)
  have final : d.digitChars.getLast? ≠ some '0' := getLast?_toDigits last
  have some_digit : d.digitChars ≠ [] := Nat.toDigits_ne_nil
  cases laid with
  | whole filled =>
    refine ⟨.inl ?_, nofun, nofun⟩
    change (d.digitChars ++ _).head? ≠ _
    rwa [List.head?_append_of_ne_nil _ some_digit]
  | mixed before after split some_before some_after =>
    rw [split] at head final
    rw [List.head?_append_of_ne_nil _ some_before] at head
    rw [List.getLast?_append_of_ne_nil _ some_after] at final
    refine ⟨.inl head, ?_, nofun⟩
    rintro _ ⟨⟩
    exact final
  | small filled =>
    refine ⟨.inr ⟨rfl, rfl⟩, ?_, nofun⟩
    rintro _ ⟨⟩
    rwa [List.getLast?_append_of_ne_nil _ some_digit]
  | scientific first rest split extreme =>
    rw [split] at head final
    refine ⟨.inl head, fun after found => ?_, ?_⟩
    · change (if rest = [] then none else some rest) = some after at found
      split at found
      next => cases found
      next many =>
        cases found
        rwa [← List.singleton_append, List.getLast?_append_of_ne_nil _ many] at final
    · rintro _ ⟨⟩
      exact ⟨rfl, head?_toDigits (by omega)⟩

/-- Ordinary numbers are written out. -/
theorem Laid.exponent_eq_none (laid : d.Laid negative n) :
    n.exponent = none ↔ -6 ≤ d.scientificExponent ∧ d.scientificExponent ≤ 20 := by
  have some_digit : 0 < d.digitChars.length := Nat.length_toDigits_pos
  rw [scientificExponent]
  cases laid with
  | whole filled count ordinary => exact iff_of_true rfl (by omega)
  | mixed before after split some_before some_after count ordinary =>
    have := List.length_pos_of_ne_nil some_before
    exact iff_of_true rfl (by omega)
  | small filled count ordinary => exact iff_of_true rfl (by omega)
  | scientific first rest split extreme => exact iff_of_false nofun (by omega)

/-- The literal of a decimal `d1.d2…dk * 10 ^ e` with a sign. It has an exponent, which has a sign,
unless `e` is at least `-6` and at most `20`. -/
structure IsWrittenBy (d : Decimal) (negative : Bool) (n : Numeral) : Prop where
  value : n.value = (if negative then -1 else 1) * d.value
  first : (10 : ℚ) ^ d.scientificExponent ≤ d.value ∧ d.value < 10 ^ (d.scientificExponent + 1)
  plain : n.exponent = none ↔ -6 ≤ d.scientificExponent ∧ d.scientificExponent ≤ 20
  canonical : n.IsCanonical
  laid : d.Laid negative n

theorem Laid.isWrittenBy (laid : d.Laid negative n) (last : d.digits % 10 ≠ 0) :
    d.IsWrittenBy negative n where
  value := laid.value_eq
  first := by
    rw [scientificExponent, sub_add_cancel]
    exact value_bounds (by omega)
  plain := laid.exponent_eq_none
  canonical := laid.isCanonical last
  laid := laid

end Decimal

end ScopeAnalysis
