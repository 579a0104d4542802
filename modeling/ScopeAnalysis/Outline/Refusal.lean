import ScopeAnalysis.Outline.Basic

/-!
# Refusals

The rules that collect declarations and targets have no answer for outlines in the wrong place.
A refusal names the rule and the shape it met.
-/

namespace ScopeAnalysis

/-- The rules that may refuse an outline. -/
inductive Rule where
  | boundNames | writtenNames | lexicalDeclarations | hoisted
  deriving DecidableEq, Repr

def Rule.text : Rule → String
  | .boundNames => "bound_names"
  | .writtenNames => "assignment_targets"
  | .lexicalDeclarations => "block_declarations"
  | .hoisted => "var_declarations"

/-- The shape of an outline. -/
inductive Shape where
  | nothing | binding | target | read | evaluated | union | directEval | delete | update | assign
  | decl | block | ifElse | forLoop | forEach | switch | handler | withObject | imports
  | function | class_
  deriving DecidableEq, Repr

def Shape.text : Shape → String
  | .nothing => "nothing"
  | .binding => "binding identifier"
  | .target => "assignment target identifier"
  | .read => "identifier reference"
  | .evaluated => "parameter expressions"
  | .union => "union"
  | .directEval => "eval"
  | .delete => "delete"
  | .update => "update"
  | .assign => "assignment"
  | .decl => "variable declaration"
  | .block => "block"
  | .ifElse => "if"
  | .forLoop => "for"
  | .forEach => "for-in/of"
  | .switch => "switch"
  | .handler => "catch"
  | .withObject => "with"
  | .imports => "import"
  | .function => "function"
  | .class_ => "class"

def Outline.shape : Outline → Shape
  | .nothing => .nothing
  | .binding _ => .binding
  | .target _ => .target
  | .read _ => .read
  | .evaluated _ => .evaluated
  | .union _ => .union
  | .directEval _ => .directEval
  | .delete _ => .delete
  | .update _ => .update
  | .assign .. => .assign
  | .decl .. => .decl
  | .block .. => .block
  | .ifElse .. => .ifElse
  | .forLoop .. => .forLoop
  | .forEach .. => .forEach
  | .switch .. => .switch
  | .handler .. => .handler
  | .withObject .. => .withObject
  | .imports _ => .imports
  | .function .. => .function
  | .class_ .. => .class_

/-- Why an analysis fails: a rule met a shape it has no answer for. -/
structure Refusal where
  rule : Rule
  shape : Shape
  deriving DecidableEq, Repr

def Refusal.message (r : Refusal) : String :=
  "internal error: `" ++ r.rule.text ++ "` cannot handle a `" ++ r.shape.text ++ "` digest"

/-- An answer that may be refused. -/
abbrev Answer := Except Refusal

end ScopeAnalysis
