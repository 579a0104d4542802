import ScopeAnalysis.ScopeTree.Summary

/-!
# Summaries as JSON text

A summary is written with two spaces of indentation for each level, one item or field to a line,
and an empty array as a pair of brackets. In texts only quotes, backslashes and control characters
are escaped.
-/

namespace ScopeAnalysis

namespace Report

def quote : Char := '\x22'
def backslash : Char := '\x5c'

def hexDigit (n : Nat) : Char := (Nat.toDigits 16 n).headD '0'

/-- One character of a text. -/
def escape (c : Char) : List Char :=
  if c = quote ∨ c = backslash then [backslash, c]
  else if c = '\n' then [backslash, 'n']
  else if c = '\t' then [backslash, 't']
  else if c = '\r' then [backslash, 'r']
  else if c = '\x08' then [backslash, 'b']
  else if c = '\x0c' then [backslash, 'f']
  else if c.toNat < 0x20 then
    [backslash, 'u', '0', '0', hexDigit (c.toNat / 16), hexDigit (c.toNat % 16)]
  else [c]

def quoted (text : String) : String :=
  String.ofList (quote :: text.toList.flatMap escape ++ [quote])

def newline (level : Nat) : String := "\n" ++ String.ofList (List.replicate (2 * level) ' ')

/-- Items between two brackets at the given level, each on a line of its own. -/
def bracketed (left right : String) (level : Nat) : List String → String
  | [] => left ++ right
  | items =>
    left ++ newline (level + 1) ++
      ("," ++ newline (level + 1)).intercalate items ++ newline level ++ right

def array : Nat → List String → String := bracketed "[" "]"

/-- Fields in the given order. -/
def object (level : Nat) (fields : List (String × String)) : String :=
  bracketed "\x7b" "\x7d" level (fields.map (fun field => quoted field.1 ++ ": " ++ field.2))

def boolean (b : Bool) : String := if b then "true" else "false"

def variableText (level : Nat) (v : VariableSummary) : String :=
  object level
    [("name", quoted v.name),
      ("declarations", array (level + 1) (v.declarations.map (fun k => quoted k.text))),
      ("references", array (level + 1) (v.references.map (fun a => quoted a.text)))]

def throughText (level : Nat) (t : ThroughSummary) : String :=
  object level [("name", quoted t.name), ("count", toString t.count)]

mutual

def summaryText (level : Nat) : Summary → String
  | .mk kind dynamic vars through children =>
    object level
      [("kind", quoted kind.text),
        ("dynamic", boolean dynamic),
        ("variables", array (level + 1) (vars.map (variableText (level + 2)))),
        ("through", array (level + 1) (through.map (throughText (level + 2)))),
        ("children", array (level + 1) (summaryTexts (level + 2) children))]

def summaryTexts (level : Nat) : List Summary → List String
  | [] => []
  | s :: rest => summaryText level s :: summaryTexts level rest

end

end Report

/-- The JSON text of a summary. -/
def Summary.toJson (s : Summary) : String := Report.summaryText 0 s

end ScopeAnalysis
