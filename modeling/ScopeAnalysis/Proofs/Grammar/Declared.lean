import ScopeAnalysis.Outline.Hoisting
import ScopeAnalysis.Outline.OfProgram

/-!
# What syntax declares

The names that patterns bind and write, the names that statements declare where they stand, the
`var` names inside a statement, and the functions nested in its blocks, all read off the program
itself.
-/

namespace ScopeAnalysis

mutual

/-- The identifiers that a binding binds, from left to right. -/
def Binding.names : Binding Node Name → List Occurrence
  | .ident id => [id]
  | .array _ slots rest => Binding.slotNames slots ++ Binding.optNames rest
  | .object _ ps rest => Binding.propertyNames ps ++ rest.toList

def Binding.optNames : Option (Binding Node Name) → List Occurrence
  | none => []
  | some b => b.names

def BindingElement.names : BindingElement Node Name → List Occurrence
  | .mk _ _ b _ => b.names

def Binding.slotNames : List (Slot Node (BindingElement Node Name)) → List Occurrence
  | [] => []
  | .hole _ :: rest => Binding.slotNames rest
  | .element e :: rest => e.names ++ Binding.slotNames rest

def BindingProperty.names : BindingProperty Node Name → List Occurrence
  | .shorthand _ id _ => [id]
  | .keyed _ _ element => element.names

def Binding.propertyNames : List (BindingProperty Node Name) → List Occurrence
  | [] => []
  | p :: rest => p.names ++ Binding.propertyNames rest

end

mutual

/-- Whether a binding contains a default value or a computed key at any depth. -/
def Binding.evaluates : Binding Node Name → Bool
  | .ident _ => false
  | .array _ slots rest => Binding.slotsEvaluate slots || Binding.optEvaluates rest
  | .object _ ps _ => Binding.propertiesEvaluate ps

def Binding.optEvaluates : Option (Binding Node Name) → Bool
  | none => false
  | some b => b.evaluates

def BindingElement.evaluates : BindingElement Node Name → Bool
  | .mk _ _ b init => init.isSome || b.evaluates

def Binding.slotsEvaluate : List (Slot Node (BindingElement Node Name)) → Bool
  | [] => false
  | .hole _ :: rest => Binding.slotsEvaluate rest
  | .element e :: rest => e.evaluates || Binding.slotsEvaluate rest

def BindingProperty.evaluates : BindingProperty Node Name → Bool
  | .shorthand _ _ init => init.isSome
  | .keyed _ k element => k.isComputed || element.evaluates

def Binding.propertiesEvaluate : List (BindingProperty Node Name) → Bool
  | [] => false
  | p :: rest => p.evaluates || Binding.propertiesEvaluate rest

end

mutual

/-- The identifiers that an assignment writes, at any depth of a pattern. -/
def Target.names : Target Node Name → List Occurrence
  | .ident id => [id]
  | .member .. | .index .. => []
  | .array _ slots rest => Target.slotNames slots ++ Target.optNames rest
  | .object _ ps rest => Target.propertyNames ps ++ Target.optNames rest

def Target.optNames : Option (Target Node Name) → List Occurrence
  | none => []
  | some t => t.names

def TargetElement.names : TargetElement Node Name → List Occurrence
  | .mk _ t _ => t.names

def Target.slotNames : List (Slot Node (TargetElement Node Name)) → List Occurrence
  | [] => []
  | .hole _ :: rest => Target.slotNames rest
  | .element e :: rest => e.names ++ Target.slotNames rest

def TargetProperty.names : TargetProperty Node Name → List Occurrence
  | .shorthand _ id _ => [id]
  | .keyed _ _ element => element.names

def Target.propertyNames : List (TargetProperty Node Name) → List Occurrence
  | [] => []
  | p :: rest => p.names ++ Target.propertyNames rest

end

def Target.isPattern : Target Node Name → Bool
  | .ident _ | .member .. | .index .. => false
  | .array .. | .object .. => true

namespace Params

/-- The names of all parameters, the rest parameter last. -/
def names : Params Node Name → List Occurrence
  | .mk _ items rest => items.flatMap BindingElement.names ++ Binding.optNames rest

def evaluates : Params Node Name → Bool
  | .mk _ items rest => items.any BindingElement.evaluates || Binding.optEvaluates rest

/-- The nodes of the parameters that run code. -/
def evaluatedNodes : Params Node Name → List Node
  | .mk _ items rest => (items.filter BindingElement.evaluates).map Folding.elementNode ++
    (rest.toList.filter Binding.evaluates).map Folding.bindingNode

end Params

/-! Declarations of statements. -/

/-- The names of the declarators of one declaration. -/
def declaredNames (ds : List (BindingElement Node Name)) : List Occurrence :=
  ds.flatMap BindingElement.names

/-- The declarations of a `let` or `const`; a `var` makes none here. -/
def lexicalNames (kind : VariableKind) (ds : List (BindingElement Node Name)) : List Declaration :=
  if kind.isLexical then Outline.declareAs (.ofVariableKind kind) (declaredNames ds) else []

/-- The names of a `var`. -/
def varNames (kind : VariableKind) (ds : List (BindingElement Node Name)) : List Occurrence :=
  if kind.isLexical then [] else declaredNames ds

namespace Stmt

/-- The lexical declarations that a statement adds to the list it stands in. At the top of a
script, module or function a function is not lexical. -/
def lexicals (top : Bool) : Stmt Node Name → List Declaration
  | .decl _ _ kind ds => lexicalNames kind ds
  | .function (.mk _ name _ _ _) =>
    if top then [] else Outline.declareAs .functionDeclaration name.toList
  | .class_ (.mk _ name _ _) => Outline.declareAs .classDeclaration name.toList
  | .labeled _ _ s => s.lexicals top
  | _ => []

/-- The function that a statement declares, labels aside. -/
def functions : Stmt Node Name → List Occurrence
  | .function (.mk _ name _ _ _) => name.toList
  | .labeled _ _ s => s.functions
  | _ => []

mutual

/-- The names that `var` declares anywhere inside a statement, nested functions and classes left
out. -/
def vars : Stmt Node Name → List Occurrence
  | .decl _ _ kind ds => varNames kind ds
  | .block _ body => varsAll body
  | .labeled _ _ s => s.vars
  | .ifThen _ _ yes => yes.vars
  | .ifElse _ _ yes no => yes.vars ++ no.vars
  | .forLoop _ _ _ _ s => s.vars
  | .forDecl _ _ kind ds _ _ s => varNames kind ds ++ s.vars
  | .forEach _ _ _ _ s => s.vars
  | .forEachDecl _ _ _ kind ds _ s => varNames kind ds ++ s.vars
  | .whileLoop _ _ s => s.vars
  | .doLoop _ s _ => s.vars
  | .withObject _ _ s => s.vars
  | .switch _ _ _ cs => varsOfClauses cs
  | .tryCatch _ _ body h => varsAll body ++ varsOfHandler h
  | .tryFinally _ _ body _ finalizer => varsAll body ++ varsAll finalizer
  | .tryCatchFinally _ _ body h _ finalizer =>
    varsAll body ++ (varsOfHandler h ++ varsAll finalizer)
  | .expr .. | .empty _ | .debugger _ | .jump .. | .ret .. | .throw .. | .function _
  | .class_ _ => []

def varsAll : List (Stmt Node Name) → List Occurrence
  | [] => []
  | s :: rest => s.vars ++ varsAll rest

def varsOfClauses : List (Clause Node Name) → List Occurrence
  | [] => []
  | .mk _ _ body :: rest => varsAll body ++ varsOfClauses rest

def varsOfHandler : Handler Node Name → List Occurrence
  | .mk _ _ _ body => varsAll body

end

end Stmt

/-- The lexical declarations of all clauses of a switch. -/
def clauseLexicals : List (Clause Node Name) → List Declaration
  | [] => []
  | .mk _ _ body :: rest => body.flatMap (Stmt.lexicals false) ++ clauseLexicals rest

/-- The names of a catch clause that stand in the way of functions in its block: those of a
pattern, while a simple name does not. -/
def Handler.patternNames : Option (Binding Node Name) → List Declaration
  | none | some (.ident _) => []
  | some b => Outline.declareAs .catch_ b.names

/-- A named function declared in a block, a case or the clause of an `if`, with the declarations
around it that may stand in the way of its promotion. -/
structure NestedFunction where
  id : Occurrence
  rivals : List Declaration

/-- Whether another declaration around a function claims its name. -/
def NestedFunction.isRivalled (f : NestedFunction) : Bool :=
  f.rivals.any (fun d => d.id.name = f.id.name ∧ d.id.node.id ≠ f.id.node.id)

namespace Stmt

mutual

/-- The functions nested in a statement, among the given declarations around it. Those that stand
at the top are not nested. -/
def nested (top : Bool) (rivals : List Declaration) : Stmt Node Name → List NestedFunction
  | .function (.mk _ name _ _ _) => if top then [] else name.toList.map (⟨·, rivals⟩)
  | .block _ body => nestedAll false (rivals ++ body.flatMap (lexicals false)) body
  | .labeled _ _ s => s.nested top rivals
  | .ifThen _ _ yes => yes.nested false rivals
  | .ifElse _ _ yes no => yes.nested false rivals ++ no.nested false rivals
  | .forLoop _ _ _ _ s => s.nested false rivals
  | .forDecl _ _ kind ds _ _ s => s.nested false (rivals ++ lexicalNames kind ds)
  | .forEach _ _ _ _ s => s.nested false rivals
  | .forEachDecl _ _ _ kind ds _ s => s.nested false (rivals ++ lexicalNames kind ds)
  | .whileLoop _ _ s => s.nested false rivals
  | .doLoop _ s _ => s.nested false rivals
  | .withObject _ _ s => s.nested false rivals
  | .switch _ _ _ cs => nestedInClauses (rivals ++ clauseLexicals cs) cs
  | .tryCatch _ _ body h =>
    nestedAll false (rivals ++ body.flatMap (lexicals false)) body ++ nestedInHandler rivals h
  | .tryFinally _ _ body _ finalizer =>
    nestedAll false (rivals ++ body.flatMap (lexicals false)) body ++
      nestedAll false (rivals ++ finalizer.flatMap (lexicals false)) finalizer
  | .tryCatchFinally _ _ body h _ finalizer =>
    nestedAll false (rivals ++ body.flatMap (lexicals false)) body ++ (nestedInHandler rivals h ++
      nestedAll false (rivals ++ finalizer.flatMap (lexicals false)) finalizer)
  | .expr .. | .decl .. | .empty _ | .debugger _ | .jump .. | .ret .. | .throw .. | .class_ _ => []

def nestedAll (top : Bool) (rivals : List Declaration) :
    List (Stmt Node Name) → List NestedFunction
  | [] => []
  | s :: rest => s.nested top rivals ++ nestedAll top rivals rest

def nestedInClauses (rivals : List Declaration) : List (Clause Node Name) → List NestedFunction
  | [] => []
  | .mk _ _ body :: rest => nestedAll false rivals body ++ nestedInClauses rivals rest

def nestedInHandler (rivals : List Declaration) : Handler Node Name → List NestedFunction
  | .mk _ b _ body =>
    nestedAll false (rivals ++ Handler.patternNames b ++ body.flatMap (lexicals false)) body

end

end Stmt

/-- The declarations of the functions that are promoted, if promotion is allowed. -/
def promote (allowed : Bool) (fs : List NestedFunction) : List Declaration :=
  if allowed then
    Outline.declareAs .functionVarDeclaration
      ((fs.filter (fun f => !f.isRivalled)).map NestedFunction.id)
  else []

/-- What the enclosing script, module or function owns of a statement. -/
def Stmt.hoisted (allowed : Bool) (rivals : List Declaration) (top : Bool) (s : Stmt Node Name) :
    Hoisted :=
  ⟨Outline.declareAs .functionDeclaration (if top then s.functions else []) ++
      Outline.declareAs .var s.vars,
    promote allowed (s.nested top rivals)⟩

namespace Item

/-- The statement that an item of a module stands for, if it is one. -/
def statement? : Item Node Name → Option (Stmt Node Name)
  | .stmt s | .exportStmt s => some s
  | .exportDefaultFunction f => some (.function f)
  | .exportDefaultClass c => some (.class_ c)
  | _ => none

/-- The names that an item imports. -/
def imported : Item Node Name → List Occurrence
  | .imports _ _ defaultBinding nameSpace named =>
    defaultBinding.toList ++ nameSpace.toList ++ named.map ImportSpecifier.binding
  | _ => []

def lexicals (top : Bool) (i : Item Node Name) : List Declaration :=
  Outline.declareAs .import_ i.imported ++ i.statement?.elim [] (Stmt.lexicals top)

def functions (i : Item Node Name) : List Occurrence := i.statement?.elim [] Stmt.functions

def vars (i : Item Node Name) : List Occurrence := i.statement?.elim [] Stmt.vars

def nested (top : Bool) (rivals : List Declaration) (i : Item Node Name) : List NestedFunction :=
  i.statement?.elim [] (Stmt.nested top rivals)

end Item

end ScopeAnalysis
