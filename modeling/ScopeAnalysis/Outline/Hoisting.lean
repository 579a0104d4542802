import ScopeAnalysis.Outline.Declarations

/-!
# Hoisted declarations

A function, script or module owns every `var` inside it, however deeply nested in its statements,
and the functions declared at its top. In sloppy code a function declared in a block also gets a
twin there, unless a lexical declaration of the same name around it claims the name.
-/

namespace ScopeAnalysis

/-- What a body owns of the statements inside it. -/
structure Hoisted where
  /-- Names declared by `var`, and functions declared at the top. -/
  vars : List Declaration
  /-- Twins of functions declared in blocks. -/
  twins : List Declaration
  deriving DecidableEq, Repr

namespace Hoisted

def none : Hoisted := ⟨[], []⟩

def append (a b : Hoisted) : Hoisted := ⟨a.vars ++ b.vars, a.twins ++ b.twins⟩

end Hoisted

/-- Whether a declaration keeps a function of the same name from having a twin. A function does
not stand in its own way. -/
def Declaration.blocks (d : Declaration) (id : Occurrence) : Bool :=
  d.id.node.id != id.node.id && d.id.name == id.name

namespace Outline

/-- The twin of a function declared in a block, where twins are allowed and none of the
declarations around it claims the name. -/
def twin (allowed : Bool) (around : List Declaration) (id : Occurrence) : List Declaration :=
  if allowed && !around.any (fun d => d.blocks id) then [⟨id, .functionVarDeclaration⟩] else []

/-- The names of a declaration, if it is a `var`. -/
def hoistedVars (kind : VariableKind) (declarators : List DeclaratorOutline) : Answer Hoisted :=
  if kind.isLexical then .ok .none
  else do
    let ids ← declaratorNames declarators
    .ok ⟨declareAs .var ids, []⟩

mutual

/-- What the enclosing body owns of one statement. `around` holds the lexical declarations that the
statement is nested in, and `top` says whether it stands at the top of the body. -/
def hoisted (allowed : Bool) (around : List Declaration) (top : Bool) : Outline → Answer Hoisted
  | .decl kind declarators => hoistedVars kind declarators
  | .function kind _ name _ _ =>
    match kind, name with
    | .declaration, some id =>
      if top then .ok ⟨[⟨id, .functionDeclaration⟩], []⟩ else .ok ⟨[], twin allowed around id⟩
    | _, _ => .ok .none
  | .block _ decls statements => hoistedAll allowed (around ++ decls) false statements
  | .ifElse _ _ yes _ no => do
    let first ← hoisted allowed around false yes
    let second ← hoisted allowed around false no
    .ok (first.append second)
  | .forLoop _ decls init _ _ body => do
    let first ← hoisted allowed (around ++ decls) false init
    let second ← hoisted allowed (around ++ decls) false body
    .ok (first.append second)
  | .forEach _ decls (.decl kind declarators) _ body => do
    let first ← hoistedVars kind declarators
    let second ← hoisted allowed (around ++ decls) false body
    .ok (first.append second)
  | .forEach _ decls _ _ body => hoisted allowed (around ++ decls) false body
  | .switch _ decls _ cases => hoistedCases allowed (around ++ decls) cases
  | .handler _ isPattern b _ decls statements => do
    let bound ← if isPattern then boundNames b else .ok .none
    hoistedAll allowed (around ++ declareAs .catch_ bound.names ++ decls) false statements
  | .withObject _ _ body => hoisted allowed around false body
  | .union parts => hoistedAll allowed around false parts
  | .nothing | .class_ .. | .imports _ | .read _ | .directEval _ | .delete _ | .update _
  | .assign .. => .ok .none
  | .binding _ => .error ⟨.hoisted, .binding⟩
  | .target _ => .error ⟨.hoisted, .target⟩
  | .evaluated _ => .error ⟨.hoisted, .evaluated⟩

def hoistedAll (allowed : Bool) (around : List Declaration) (top : Bool) :
    List Outline → Answer Hoisted
  | [] => .ok .none
  | o :: rest => do
    let first ← hoisted allowed around top o
    let others ← hoistedAll allowed around top rest
    .ok (first.append others)

def hoistedCases (allowed : Bool) (around : List Declaration) :
    List CaseOutline → Answer Hoisted
  | [] => .ok .none
  | .mk _ statements :: rest => do
    let first ← hoistedAll allowed around false statements
    let others ← hoistedCases allowed around rest
    .ok (first.append others)

end

end Outline

end ScopeAnalysis
