import ScopeAnalysis.ScopeTree.Basic

/-!
# Outlines

An outline is what a program leaves behind when everything that does not concern names is dropped:
occurrences of identifiers by their role, the constructs that open scopes, and with each list of
statements the lexical declarations that belong to it. A part of a program that does not concern
names at all has the outline `nothing`.
-/

namespace ScopeAnalysis

/-- The form of a function. -/
inductive FunctionKind where
  | declaration | expression | arrow | method | getter | setter
  deriving DecidableEq, Repr

namespace FunctionKind

/-- Whether the function has `arguments` of its own; an arrow sees those of the function around
it. -/
def hasArguments : FunctionKind → Bool
  | .arrow => false
  | _ => true

def scopeKind : FunctionKind → ScopeKind
  | .arrow => .arrowFunction
  | _ => .function

end FunctionKind

/-- A named function declaration that is the whole clause of an `if`. -/
structure LoneFunction where
  node : Node
  name : Occurrence
  deriving DecidableEq, Repr

mutual

inductive Outline where
  | nothing
  /-- An identifier that a declaration binds. -/
  | binding (id : Occurrence)
  /-- An identifier that an assignment writes. -/
  | target (id : Occurrence)
  /-- An identifier used as a value. -/
  | read (id : Occurrence)
  /-- A binding or target that runs code of its own: an initial value, a computed key, or the
  object of a member. -/
  | evaluated (inner : Outline)
  /-- Two or more outlines side by side. -/
  | union (parts : List Outline)
  /-- A direct call of `eval`, around the outline of the whole call. -/
  | directEval (call : Outline)
  | delete (id : Occurrence)
  | update (id : Occurrence)
  | assign (compound : Bool) (target value : Outline)
  | decl (kind : VariableKind) (declarators : List DeclaratorOutline)
  | block (node : Node) (decls : List Declaration) (statements : List Outline)
  | ifElse (test : Outline) (yesAlone : Option LoneFunction) (yes : Outline)
      (noAlone : Option LoneFunction) (no : Outline)
  | forLoop (node : Node) (decls : List Declaration) (init test update body : Outline)
  | forEach (node : Node) (decls : List Declaration) (head collection body : Outline)
  | switch (node : Node) (decls : List Declaration) (discriminant : Outline)
      (cases : List CaseOutline)
  /-- A catch clause, its pattern or name, and its block. -/
  | handler (node : Node) (isPattern : Bool) (binding : Outline) (block : Node)
      (decls : List Declaration) (statements : List Outline)
  | withObject (node : Node) (object body : Outline)
  | imports (ids : List Occurrence)
  | function (kind : FunctionKind) (node : Node) (name : Option Occurrence)
      (params : List ParamOutline) (body : BodyOutline)
  | class_ (node : Node) (isDeclaration : Bool) (name : Option Occurrence) (heritage : Outline)
      (elements : List Outline)

/-- A declarator. Its initial value may be there and still have no outline. -/
inductive DeclaratorOutline where
  | mk (binding : Outline) (hasInit : Bool) (init : Outline)

inductive CaseOutline where
  | mk (test : Outline) (statements : List Outline)

inductive ParamOutline where
  | mk (node : Node) (binding : Outline)

inductive BodyOutline where
  | block (strict : Bool) (decls : List Declaration) (statements : List Outline)
  | concise (value : Outline)

end

/-- The outline of a whole program. -/
structure ProgramOutline where
  isModule : Bool
  node : Node
  strict : Bool
  decls : List Declaration
  statements : List Outline

namespace Outline

def isNothing : Outline → Bool
  | .nothing => true
  | _ => false

/-- Outlines side by side: those that are nothing drop out, and one left stands for itself. -/
def join (parts : List Outline) : Outline :=
  match parts.filter (fun o => !o.isNothing) with
  | [] => .nothing
  | [part] => part
  | parts => .union parts

end Outline

namespace BodyOutline

def isStrict : BodyOutline → Bool
  | .block strict _ _ => strict
  | .concise _ => false

end BodyOutline

end ScopeAnalysis
