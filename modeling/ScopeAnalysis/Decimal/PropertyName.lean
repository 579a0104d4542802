import ScopeAnalysis.Decimal.Shortest

/-!
# Numbers as property names

A number used as a property name is the text of its shortest decimal. Decimals of ordinary size
are written out; the others take an exponent with an explicit sign.
-/

namespace ScopeAnalysis

namespace Decimal

def zeros (n : Nat) : List Char := List.replicate n '0'

def digitChars (d : Decimal) : List Char := Nat.toDigits 10 d.digits

/-- How many digits stand before the decimal point; zero or less when the number is below one. -/
def pointPosition (d : Decimal) : Int := d.exponent + d.digitChars.length

/-- More digits than this before the point call for an exponent. -/
def maxWholeDigits : Int := 21

/-- With the point this far before the first digit, an exponent is called for. -/
def minPointPosition : Int := -6

/-- The exponent part, with its sign. -/
def exponentChars (e : Int) : List Char :=
  'e' :: (if e < 0 then '-' else '+') :: Nat.toDigits 10 e.natAbs

/-- The text of a positive decimal. -/
def layout (d : Decimal) : List Char :=
  let digits := d.digitChars
  let point := d.pointPosition
  if digits.length ≤ point ∧ point ≤ maxWholeDigits then
    digits ++ zeros (point - digits.length).toNat
  else if 0 < point ∧ point ≤ maxWholeDigits then
    digits.take point.toNat ++ '.' :: digits.drop point.toNat
  else if minPointPosition < point ∧ point ≤ 0 then
    '0' :: '.' :: zeros (-point).toNat ++ digits
  else
    match digits with
    | [] => []
    | [first] => first :: exponentChars (point - 1)
    | first :: rest => first :: '.' :: rest ++ exponentChars (point - 1)

end Decimal

/-- The property name a number stands for; both zeros have the same one. -/
def Double.propertyName (d : Double) : String :=
  match d.value with
  | .nan => "NaN"
  | .infinity negative => if negative then "-Infinity" else "Infinity"
  | .finite negative mantissa exponent =>
    if mantissa = 0 then "0"
    else
      let text := (Decimal.shortest mantissa exponent).layout
      String.ofList (if negative then '-' :: text else text)

end ScopeAnalysis
