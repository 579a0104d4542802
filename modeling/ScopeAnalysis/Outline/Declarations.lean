import ScopeAnalysis.Outline.Refusal

/-!
# Names that an outline binds or writes

`boundNames` collects what a binding binds, `writtenNames` what a target writes, and
`lexicalDeclarations` what a statement adds to the list of statements it stands in. They run before
a scope is entered, so that every name of a scope is known before its first statement.
-/

namespace ScopeAnalysis

/-- The names bound by a binding, from left to right, and whether binding them runs code. -/
structure Bound where
  names : List Occurrence
  evaluates : Bool
  deriving DecidableEq, Repr

namespace Bound

def none : Bound := ⟨[], false⟩

def append (a b : Bound) : Bound := ⟨a.names ++ b.names, a.evaluates || b.evaluates⟩

end Bound

namespace Outline

mutual

/-- The names that a binding binds. Whatever only runs when names are bound binds none itself. -/
def boundNames : Outline → Answer Bound
  | .nothing => .ok .none
  | .binding id => .ok ⟨[id], false⟩
  | .evaluated inner => do
    let bound ← boundNames inner
    .ok ⟨bound.names, true⟩
  | .union parts => boundNamesAll parts
  | .read _ | .directEval _ | .delete _ | .update _ | .assign .. | .function .. | .class_ .. =>
    .ok .none
  | .target _ => .error ⟨.boundNames, .target⟩
  | .decl .. => .error ⟨.boundNames, .decl⟩
  | .block .. => .error ⟨.boundNames, .block⟩
  | .ifElse .. => .error ⟨.boundNames, .ifElse⟩
  | .forLoop .. => .error ⟨.boundNames, .forLoop⟩
  | .forEach .. => .error ⟨.boundNames, .forEach⟩
  | .switch .. => .error ⟨.boundNames, .switch⟩
  | .handler .. => .error ⟨.boundNames, .handler⟩
  | .withObject .. => .error ⟨.boundNames, .withObject⟩
  | .imports _ => .error ⟨.boundNames, .imports⟩

def boundNamesAll : List Outline → Answer Bound
  | [] => .ok .none
  | o :: rest => do
    let first ← boundNames o
    let others ← boundNamesAll rest
    .ok (first.append others)

end

mutual

/-- The identifiers that an assignment target writes. -/
def writtenNames : Outline → Answer (List Occurrence)
  | .nothing => .ok []
  | .target id => .ok [id]
  | .union parts => writtenNamesAll parts
  | .evaluated inner => writtenNames inner
  | .read _ | .directEval _ | .delete _ | .update _ | .assign .. | .function .. | .class_ .. =>
    .ok []
  | .binding _ => .error ⟨.writtenNames, .binding⟩
  | .decl .. => .error ⟨.writtenNames, .decl⟩
  | .block .. => .error ⟨.writtenNames, .block⟩
  | .ifElse .. => .error ⟨.writtenNames, .ifElse⟩
  | .forLoop .. => .error ⟨.writtenNames, .forLoop⟩
  | .forEach .. => .error ⟨.writtenNames, .forEach⟩
  | .switch .. => .error ⟨.writtenNames, .switch⟩
  | .handler .. => .error ⟨.writtenNames, .handler⟩
  | .withObject .. => .error ⟨.writtenNames, .withObject⟩
  | .imports _ => .error ⟨.writtenNames, .imports⟩

def writtenNamesAll : List Outline → Answer (List Occurrence)
  | [] => .ok []
  | o :: rest => do
    let first ← writtenNames o
    let others ← writtenNamesAll rest
    .ok (first ++ others)

end

/-- The names bound by all declarators of one declaration. -/
def declaratorNames : List DeclaratorOutline → Answer (List Occurrence)
  | [] => .ok []
  | .mk b _ _ :: rest => do
    let bound ← boundNames b
    let others ← declaratorNames rest
    .ok (bound.names ++ others)

/-- Declarations of one kind. -/
def declareAs (kind : DeclarationKind) (ids : List Occurrence) : List Declaration :=
  ids.map (fun id => ⟨id, kind⟩)

mutual

/-- The lexical declarations that a statement adds to its list of statements. At the top of a
script, module or function a function declaration is not lexical. Under a union nothing stands at
the top. -/
def lexicalDeclarations (top : Bool) : Outline → Answer (List Declaration)
  | .decl kind declarators =>
    if kind.isLexical then do
      let ids ← declaratorNames declarators
      .ok (declareAs (.ofVariableKind kind) ids)
    else .ok []
  | .function kind _ name _ _ =>
    if kind = .declaration ∧ !top then .ok (declareAs .functionDeclaration name.toList)
    else .ok []
  | .class_ _ isDeclaration name _ _ =>
    if isDeclaration then .ok (declareAs .classDeclaration name.toList) else .ok []
  | .imports ids => .ok (declareAs .import_ ids)
  | .union parts => lexicalDeclarationsAll false parts
  | .nothing | .read _ | .directEval _ | .delete _ | .update _ | .assign .. | .block ..
  | .ifElse .. | .forLoop .. | .forEach .. | .switch .. | .handler .. | .withObject .. => .ok []
  | .binding _ => .error ⟨.lexicalDeclarations, .binding⟩
  | .target _ => .error ⟨.lexicalDeclarations, .target⟩
  | .evaluated _ => .error ⟨.lexicalDeclarations, .evaluated⟩

def lexicalDeclarationsAll (top : Bool) : List Outline → Answer (List Declaration)
  | [] => .ok []
  | o :: rest => do
    let first ← lexicalDeclarations top o
    let others ← lexicalDeclarationsAll top rest
    .ok (first ++ others)

end

end Outline

end ScopeAnalysis
