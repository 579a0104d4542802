import ScopeAnalysis.Json.Scan

/-!
# Analysis options

The options can be loaded from a JSON text, as an object with optional fields or as an array of up
to two truth values in the order of the fields.
-/

namespace ScopeAnalysis

/-- How a program is analyzed. -/
structure Options where
  /-- Treat scripts as if they began with a `use strict` directive. -/
  alwaysStrict : Bool
  /-- Give functions declared in blocks of sloppy code a twin in the enclosing function. -/
  annexB : Bool
  deriving DecidableEq, Repr

namespace Options

def default : Options := ⟨false, true⟩

/-- The options as a JSON object. -/
def toJson (o : Options) : String :=
  "\x7b\"alwaysStrict\":" ++ toString o.alwaysStrict ++ ",\"annexB\":" ++ toString o.annexB
    ++ "\x7d"

open Json

/-- Whether an array has a next element, and the text at that element. -/
def nextElement (first : Bool) (cs : List Char) : Except Fault (Option (List Char)) :=
  match skipBlank cs with
  | [] => .error .truncated
  | ']' :: _ => .ok none
  | c :: rest =>
    if first then .ok (some (c :: rest))
    else if c = ',' then
      match skipBlank rest with
      | [] => .error .truncated
      | ']' :: _ => .error .malformed
      | other => .ok (some other)
    else .error .malformed

/-- The truth value at the next element of an array, or the given one if there is none. -/
def elementOr (missing first : Bool) : Scan Bool := fun cs => do
  match ← nextElement first cs with
  | none => .ok (missing, cs)
  | some cs => boolean cs

/-- The end of an array whose elements have all been taken. -/
def endOfArray : Scan Unit := fun cs =>
  match skipBlank cs with
  | ']' :: rest => .ok ((), rest)
  | other => .error (faultAt .truncated other)

/-- Reads options by position, after the opening bracket. -/
def positional : Scan Options := fun cs => do
  let (alwaysStrict, cs) ← elementOr default.alwaysStrict true cs
  let (annexB, cs) ← elementOr default.annexB false cs
  let (_, cs) ← endOfArray cs
  .ok (⟨alwaysStrict, annexB⟩, cs)

/-- Whether an object has a next field, and the text after the opening quote of its key. -/
def nextKey (first : Bool) (cs : List Char) : Except Fault (Option (List Char)) :=
  match skipBlank cs with
  | [] => .error .truncated
  | '\x7d' :: _ => .ok none
  | c :: rest =>
    if first then
      if c = quote then .ok (some rest) else .error .malformed
    else if c = ',' then
      match skipBlank rest with
      | [] => .error .truncated
      | d :: rest => if d = quote then .ok (some rest) else .error .malformed
    else .error .malformed

/-- The fields of an object that have been read so far. -/
structure Fields where
  alwaysStrict : Option Bool
  annexB : Option Bool

/-- A field that may be given once. -/
def fieldOnce (given : Option Bool) : Scan Bool := fun cs =>
  match given with
  | some _ => .error .wrongShape
  | none => do
    let (_, cs) ← colon cs
    boolean cs

def fieldsLoop : Nat → Bool → Fields → Scan Fields
  | 0, _, _, _ => .error .truncated
  | fuel + 1, first, fields, cs => do
    match ← nextKey first cs with
    | none => .ok (fields, cs)
    | some cs =>
      let (key, cs) ← text cs
      if key = "alwaysStrict".toList then
        let (value, cs) ← fieldOnce fields.alwaysStrict cs
        fieldsLoop fuel false { fields with alwaysStrict := some value } cs
      else if key = "annexB".toList then
        let (value, cs) ← fieldOnce fields.annexB cs
        fieldsLoop fuel false { fields with annexB := some value } cs
      else
        let (_, cs) ← colon cs
        let (_, cs) ← skipValue cs
        fieldsLoop fuel false fields cs

/-- Reads options by field, after the opening brace. -/
def byField : Scan Options := fun cs => do
  let (fields, cs) ← fieldsLoop (cs.length + 1) true ⟨none, none⟩ cs
  match skipBlank cs with
  | [] => .error .truncated
  | _ :: cs =>
    .ok (⟨fields.alwaysStrict.getD default.alwaysStrict, fields.annexB.getD default.annexB⟩, cs)

/-- Loads options from a JSON text. Fields that are missing keep their defaults, and fields that
are not known are skipped. The first fault decides. -/
def load (json : String) : Except Fault Options :=
  match skipBlank json.toList with
  | '[' :: rest => do
    let (options, rest) ← positional rest
    endOfText rest
    .ok options
  | '\x7b' :: rest => do
    let (options, rest) ← byField rest
    endOfText rest
    .ok options
  | other => .error (unwanted other)

end Options

end ScopeAnalysis
