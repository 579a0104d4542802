/-!
# Scanning JSON text

Scanners over the characters of a JSON text. Each takes what is left of the text and gives back a
value and the rest, or the first fault it meets. The faults are told apart because a caller can
mend a text that merely stops early, and because a well-formed value of the wrong shape is no
fault of the notation.

A value is read in one of two ways. A value that is wanted is read in full, numbers within the
range of doubles and texts with paired surrogates. A value that is skipped has to be well formed
and no more.
-/

namespace ScopeAnalysis.Json

inductive Fault where
  /-- The text is not JSON at this place. -/
  | malformed
  /-- The text is JSON so far, and its value is not the wanted one. -/
  | wrongShape
  /-- The text ends too early. -/
  | truncated
  deriving DecidableEq, Repr

/-- A scanner for values of type `α`. -/
abbrev Scan (α : Type) := List Char → Except Fault (α × List Char)

def isBlank (c : Char) : Bool := c == ' ' || c == '\t' || c == '\n' || c == '\r'

def skipBlank (text : List Char) : List Char := text.dropWhile isBlank

def isDigit (c : Char) : Bool := '0' ≤ c && c ≤ '9'

def digitValue (c : Char) : Nat := c.toNat - '0'.toNat

/-! ## Words -/

/-- Reads exactly the given characters. -/
def word : List Char → Scan Unit
  | [], text => .ok ((), text)
  | _ :: _, [] => .error .truncated
  | expected :: more, c :: rest => if c = expected then word more rest else .error .malformed

/-! ## Texts -/

def quote : Char := '\x22'
def backslash : Char := '\x5c'

def hexValue? (c : Char) : Option Nat :=
  if isDigit c then some (digitValue c)
  else if 'a' ≤ c && c ≤ 'f' then some (10 + (c.toNat - 'a'.toNat))
  else if 'A' ≤ c && c ≤ 'F' then some (10 + (c.toNat - 'A'.toNat))
  else none

/-- The size of a text in bytes. -/
def byteCount : List Char → Nat
  | [] => 0
  | c :: rest => c.utf8Size + byteCount rest

/-- The four hexadecimal digits of an escape. The text is too short for them when fewer than four
bytes are left. -/
def hexUnit : Scan Nat := fun text =>
  if byteCount (text.take 4) < 4 then .error .truncated
  else
    match text with
    | a :: b :: c :: d :: rest =>
      match hexValue? a, hexValue? b, hexValue? c, hexValue? d with
      | some a, some b, some c, some d => .ok (((a * 16 + b) * 16 + c) * 16 + d, rest)
      | _, _, _, _ => .error .malformed
    | _ => .error .malformed

def isLeadingSurrogate (unit : Nat) : Bool := 0xD800 ≤ unit && unit ≤ 0xDBFF
def isTrailingSurrogate (unit : Nat) : Bool := 0xDC00 ≤ unit && unit ≤ 0xDFFF

/-- The character of a surrogate pair. -/
def pairedChar (lead trail : Nat) : Char :=
  Char.ofNat (0x10000 + (lead - 0xD800) * 0x400 + (trail - 0xDC00))

/-- The second half of a surrogate pair. -/
def trailingHalf (lead : Nat) : Scan Char
  | [] => .error .truncated
  | c :: text =>
    if c = backslash then
      match text with
      | [] => .error .truncated
      | d :: rest =>
        if d = 'u' then do
          let (trail, rest) ← hexUnit rest
          if isTrailingSurrogate trail then .ok (pairedChar lead trail, rest)
          else .error .malformed
        else .error .malformed
    else .error .malformed

/-- The character that a one-letter escape stands for. -/
def shortEscape? (c : Char) : Option Char :=
  if c = quote ∨ c = backslash ∨ c = '/' then some c
  else if c = 'b' then some '\x08'
  else if c = 'f' then some '\x0c'
  else if c = 'n' then some '\n'
  else if c = 'r' then some '\r'
  else if c = 't' then some '\t'
  else none

/-- What follows a backslash in a text that is wanted. -/
def escaped : Scan Char
  | [] => .error .truncated
  | c :: rest =>
    if c = 'u' then do
      let (unit, rest) ← hexUnit rest
      if isTrailingSurrogate unit then .error .malformed
      else if isLeadingSurrogate unit then trailingHalf unit rest
      else .ok (Char.ofNat unit, rest)
    else
      match shortEscape? c with
      | some c => .ok (c, rest)
      | none => .error .malformed

/-- What follows a backslash in a text that is skipped. -/
def skippedEscape : Scan Unit
  | [] => .error .truncated
  | c :: rest =>
    if c = 'u' then do
      let (_, rest) ← hexUnit rest
      .ok ((), rest)
    else if (shortEscape? c).isSome then .ok ((), rest)
    else .error .malformed

def textLoop : Nat → List Char → Scan (List Char)
  | 0, _, _ => .error .truncated
  | fuel + 1, done, text =>
    match text with
    | [] => .error .truncated
    | c :: rest =>
      if c = quote then .ok (done.reverse, rest)
      else if c = backslash then do
        let (c, rest) ← escaped rest
        textLoop fuel (c :: done) rest
      else if c.toNat < 0x20 then .error .malformed
      else textLoop fuel (c :: done) rest

/-- The rest of a text after its opening quote. -/
def text : Scan (List Char) := fun cs => textLoop (cs.length + 1) [] cs

def skipTextLoop : Nat → Scan Unit
  | 0, _ => .error .truncated
  | fuel + 1, text =>
    match text with
    | [] => .error .truncated
    | c :: rest =>
      if c = quote then .ok ((), rest)
      else if c = backslash then do
        let (_, rest) ← skippedEscape rest
        skipTextLoop fuel rest
      else if c.toNat < 0x20 then .error .malformed
      else skipTextLoop fuel rest

/-- Skips the rest of a text after its opening quote. -/
def skipText : Scan Unit := fun cs => skipTextLoop (cs.length + 1) cs

/-! ## Numbers -/

/-- A fault at the end of the text, or another one before it. -/
def faultAt (atEnd : Fault) : List Char → Fault
  | [] => atEnd
  | _ :: _ => .malformed

/-- A run of digits that must not be empty. -/
def digits1 (atEnd : Fault) : Scan (List Char) := fun text =>
  match text.takeWhile isDigit with
  | [] => .error (faultAt atEnd text)
  | ds => .ok (ds, text.dropWhile isDigit)

/-- The digits before the point: a zero alone, or digits that do not start with one. -/
def wholeDigits (atEnd : Fault) : Scan (List Char) := fun text => do
  let (ds, rest) ← digits1 atEnd text
  match ds with
  | '0' :: _ :: _ => .error .malformed
  | _ => .ok (ds, rest)

/-- The digits after the point, if there is one. -/
def fractionDigits (atEnd : Fault) : Scan (List Char)
  | '.' :: rest => digits1 atEnd rest
  | text => .ok ([], text)

def numberOfDigits (ds : List Char) : Nat := ds.foldl (fun n c => 10 * n + digitValue c) 0

def exponentSign : List Char → Bool × List Char
  | '+' :: rest => (false, rest)
  | '-' :: rest => (true, rest)
  | text => (false, text)

/-- The exponent, zero if there is none. -/
def exponent (atEnd : Fault) : Scan Int := fun text =>
  match text with
  | [] => .ok (0, [])
  | c :: rest =>
    if c = 'e' ∨ c = 'E' then do
      let (negative, rest) := exponentSign rest
      let (ds, rest) ← digits1 atEnd rest
      let size : Int := numberOfDigits ds
      .ok (if negative then -size else size, rest)
    else .ok (0, text)

/-- A number without its sign, as the digits before and after the point and the exponent. The text
may end inside it with the fault `atEnd`. -/
def numeral (atEnd : Fault) : Scan (List Char × List Char × Int) := fun text => do
  let (whole, rest) ← wholeDigits atEnd text
  let (fraction, rest) ← fractionDigits atEnd rest
  let (e, rest) ← exponent atEnd rest
  .ok ((whole, fraction, e), rest)

/-- A significand is kept as long as it stays below this bound. -/
def significandBound : Nat := Nat.pow 2 64

/-- Takes digits into a significand up to the first that would lift it past the bound. Gives the
significand, the number of digits taken and whether all of them were. -/
def takeDigits : Nat → List Char → Nat × Nat × Bool
  | n, [] => (n, 0, true)
  | n, c :: rest =>
    let next := 10 * n + digitValue c
    if next < significandBound then
      let (m, count, all) := takeDigits next rest
      (m, count + 1, all)
    else (n, 0, false)

/-- The significand and decimal exponent that a number is reckoned with. Digits that no longer fit
are dropped; before the point they still count as powers of ten. -/
def reckoned (whole fraction : List Char) (e : Int) : Nat × Int :=
  let (significand, count, _) := takeDigits 0 whole
  let (significand, places, _) := takeDigits significand fraction
  (significand, e + (whole.length - count : Nat) - (places : Nat))

/-- The nearest number with 53 significant binary digits, a half going to the even one. -/
def roundToDouble (n : Nat) : Nat :=
  let shift := n.log2 - 52
  let unit := Nat.pow 2 shift
  let low := n / unit
  let twice := 2 * (n % unit)
  if unit < twice ∨ (unit = twice ∧ low % 2 = 1) then (low + 1) * unit else low * unit

/-- Products from here on round to infinity. -/
def overflowBound : Nat := Nat.pow 2 1024 - Nat.pow 2 970

/-- The largest power of ten that is a finite double. -/
def maxPower : Nat := 308

/-- Whether a number is within the range of doubles. -/
def inRange (significand : Nat) (e : Int) : Bool :=
  significand == 0 || e < 0
    || (e ≤ maxPower
      && roundToDouble significand * roundToDouble (Nat.pow 10 e.toNat) < overflowBound)

/-- Reads a number without its sign, which has to be within the range of doubles. -/
def number : Scan Unit := fun text => do
  let ((whole, fraction, e), rest) ← numeral .truncated text
  let (significand, e) := reckoned whole fraction e
  if inRange significand e then .ok ((), rest) else .error .malformed

/-- Skips a number without its sign, of any size. Nothing may be missing from it, not even at the
end of the text. -/
def skipNumber : Scan Unit := fun text => do
  let (_, rest) ← numeral .malformed text
  .ok ((), rest)

/-! ## Values -/

/-- The fault of a value that is not the wanted one: a scalar is read to its end first. -/
def unwanted : List Char → Fault
  | [] => .truncated
  | c :: rest =>
    let judge {α : Type} : Except Fault α → Fault
      | .ok _ => .wrongShape
      | .error fault => fault
    if c = 'n' then judge (word ['u', 'l', 'l'] rest)
    else if c = 't' then judge (word ['r', 'u', 'e'] rest)
    else if c = 'f' then judge (word ['a', 'l', 's', 'e'] rest)
    else if c = '-' then judge (number rest)
    else if isDigit c then judge (number (c :: rest))
    else if c = quote then judge (text rest)
    else if c = '[' ∨ c = '\x7b' then .wrongShape
    else .malformed

/-- Reads a truth value. -/
def boolean : Scan Bool := fun cs =>
  match skipBlank cs with
  | 't' :: rest => do
    let (_, rest) ← word ['r', 'u', 'e'] rest
    .ok (true, rest)
  | 'f' :: rest => do
    let (_, rest) ← word ['a', 'l', 's', 'e'] rest
    .ok (false, rest)
  | other => .error (unwanted other)

/-- Reads the colon after a key. -/
def colon : Scan Unit := fun cs =>
  match skipBlank cs with
  | ':' :: rest => .ok ((), rest)
  | other => .error (faultAt .truncated other)

mutual

/-- Skips one value of any kind. -/
def skipValueLoop : Nat → Scan Unit
  | 0, _ => .error .truncated
  | fuel + 1, cs =>
    match skipBlank cs with
    | [] => .error .truncated
    | c :: rest =>
      if c = 'n' then word ['u', 'l', 'l'] rest
      else if c = 't' then word ['r', 'u', 'e'] rest
      else if c = 'f' then word ['a', 'l', 's', 'e'] rest
      else if c = '-' then skipNumber rest
      else if isDigit c then skipNumber (c :: rest)
      else if c = quote then skipText rest
      else if c = '[' then
        match skipBlank rest with
        | ']' :: rest => .ok ((), rest)
        | [] => .error .truncated
        | other => skipItemsLoop fuel other
      else if c = '\x7b' then
        match skipBlank rest with
        | '\x7d' :: rest => .ok ((), rest)
        | [] => .error .truncated
        | other => skipFieldsLoop fuel other
      else .error .malformed

/-- Skips the items of an array from the next one on. -/
def skipItemsLoop : Nat → Scan Unit
  | 0, _ => .error .truncated
  | fuel + 1, cs => do
    let (_, rest) ← skipValueLoop fuel cs
    match skipBlank rest with
    | ',' :: rest => skipItemsLoop fuel rest
    | ']' :: rest => .ok ((), rest)
    | other => .error (faultAt .truncated other)

/-- Skips the fields of an object from the next one on. -/
def skipFieldsLoop : Nat → Scan Unit
  | 0, _ => .error .truncated
  | fuel + 1, cs =>
    match skipBlank cs with
    | [] => .error .truncated
    | c :: rest =>
      if c = quote then do
        let (_, rest) ← skipText rest
        let (_, rest) ← colon rest
        let (_, rest) ← skipValueLoop fuel rest
        match skipBlank rest with
        | ',' :: rest => skipFieldsLoop fuel rest
        | '\x7d' :: rest => .ok ((), rest)
        | other => .error (faultAt .truncated other)
      else .error .malformed

end

/-- Skips one value of any kind. -/
def skipValue : Scan Unit := fun cs => skipValueLoop (2 * cs.length + 2) cs

/-- Nothing but blanks may follow the value. -/
def endOfText (cs : List Char) : Except Fault Unit :=
  match skipBlank cs with
  | [] => .ok ()
  | _ :: _ => .error .malformed

end ScopeAnalysis.Json
