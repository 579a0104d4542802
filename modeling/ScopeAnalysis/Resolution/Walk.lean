import ScopeAnalysis.Options
import ScopeAnalysis.Outline.Hoisting
import ScopeAnalysis.Resolution.State

/-!
# Walking outlines

The walk goes through an outline in the order in which the program would be read, opens and closes
scopes, and records uses. The names of a scope are declared before its first statement is walked,
so a use may stand before the declaration it means.

A walk that is refused still leaves every scope it opened, and restores whether code is strict.
-/

namespace ScopeAnalysis.Resolution

/-- A step of the walk. It changes the state even when it is refused. -/
abbrev Walk := ExceptT Refusal (StateM State)

namespace Walk

/-- What stays the same during a walk. -/
structure Setting where
  options : Options
  /-- The name of the implicit binding of functions. -/
  arguments : Name
  deriving DecidableEq, Repr

def answer {α : Type} (a : Answer α) : Walk α := ExceptT.mk (fun s => (a, s))

def change (f : State → State) : Walk Unit := ExceptT.mk (fun s => (.ok (), f s))

def isStrict : Walk Bool := ExceptT.mk (fun s => (.ok s.strict, s))

/-- Walks inside a new scope, which is closed whatever the outcome. -/
def within {α : Type} (kind : ScopeKind) (node : Node) (inner : Walk α) : Walk α :=
  ExceptT.mk (fun s =>
    let (result, s) := inner.run (s.enter kind node)
    (result, s.leave))

/-- Walks with strictness set, and restores it whatever the outcome. -/
def withStrictness {α : Type} (strict : Bool) (inner : Walk α) : Walk α :=
  ExceptT.mk (fun s =>
    let (result, after) := inner.run { s with strict }
    (result, { after with strict := s.strict }))

def declare (d : Declaration) : Walk Unit := change (·.declare d)

def declareAll (ds : List Declaration) : Walk Unit := change (·.declareAll ds)

def record (id : Occurrence) (access : Access) : Walk Unit := change (·.record id access)

def recordAll (access : Access) (ids : List Occurrence) : Walk Unit :=
  change (·.recordAll access ids)

def withStatement : Walk Unit := change (fun s => s.report (.withStatement s.current))

/-- The writes of an assignment. Only a target that is an identifier by itself is read as well by
a compound assignment. -/
def writes (compound : Bool) : Outline → Walk Unit
  | .target id => record id (if compound then .readWrite else .write)
  | t => do
    let ids ← answer t.writtenNames
    recordAll .write ids

/-- The writes of a loop over a collection to what stands in its head. -/
def headWrites : Outline → Walk Unit
  | .decl _ declarators => do
    let ids ← answer (Outline.declaratorNames declarators)
    recordAll .write ids
  | t => do
    let ids ← answer t.writtenNames
    recordAll .write ids

/-- Walks the clause of an `if`. A function declaration that stands alone in it is treated as if it
had a block around it. -/
def aroundLone (alone : Option LoneFunction) (inner : Walk Unit) : Walk Unit :=
  match alone with
  | some f =>
    within .block f.node do
      declare ⟨f.name, .functionDeclaration⟩
      inner
  | none => inner

/-- Walks a function. A function expression with a name has a scope for that name around it. -/
def aroundNamed (kind : FunctionKind) (node : Node) (name : Option Occurrence)
    (inner : Walk Unit) : Walk Unit :=
  match kind, name with
  | .expression, some id =>
    within .functionName node do
      declare ⟨id, .functionName⟩
      inner
  | _, _ => inner

/-- What all parameters bind together. -/
def boundByAll : List ParamOutline → Answer Bound
  | [] => .ok .none
  | .mk _ b :: rest => do
    let first ← b.boundNames
    let others ← boundByAll rest
    .ok (first.append others)

/-- Declares the parameters of a function in the innermost scope, behind `arguments` if the
function has its own. -/
def declareParams (setting : Setting) (hasArguments : Bool) (params : List Declaration) :
    Walk Unit := do
  if hasArguments then change (·.bindArguments setting.arguments)
  declareAll params

/-- Declares what the body of a function owns. -/
def declareBody (setting : Setting) (params decls : List Declaration)
    (statements : List Outline) : Walk Unit := do
  let strict ← isStrict
  let owned ← answer
    (Outline.hoistedAll (!strict && setting.options.annexB) (params ++ decls) true statements)
  declareAll decls
  declareAll owned.vars
  declareAll owned.twins

variable (setting : Setting)

mutual

def walk : Outline → Walk Unit
  | .nothing => pure ()
  | .binding _ => pure ()
  | .target _ => pure ()
  | .imports _ => pure ()
  | .read id => record id .read
  | .delete id => record id .delete
  | .update id => record id .readWrite
  | .evaluated inner => walk inner
  | .union parts => walkAll parts
  | .directEval call => do
    change (·.makeDynamic)
    walk call
  | .assign compound t value => do
    writes compound t
    walk t
    walk value
  | .decl _ declarators => walkDeclarators declarators
  | .block node decls statements =>
    within .block node do
      declareAll decls
      walkAll statements
  | .ifElse test yesAlone yes noAlone no => do
    walk test
    aroundLone yesAlone (walk yes)
    aroundLone noAlone (walk no)
  | .forLoop node decls init test update body =>
    within .block node do
      declareAll decls
      walk init
      walk test
      walk update
      walk body
  | .forEach node decls head collection body =>
    within .block node do
      declareAll decls
      headWrites head
      walk head
      walk collection
      walk body
  | .switch node decls discriminant cases => do
    walk discriminant
    within .block node do
      declareAll decls
      walkCases cases
  | .handler node _ b block decls statements =>
    within .catch_ node do
      let bound ← answer b.boundNames
      declareAll (Outline.declareAs .catchParameter bound.names)
      walk b
      within .block block do
        declareAll decls
        walkAll statements
  | .withObject node object body => do
    walk object
    within .with_ node do
      withStatement
      walk body
  | .class_ node _ name heritage elements =>
    withStrictness true do
      within .className node do
        declareAll (Outline.declareAs .className name.toList)
        walk heritage
        walkAll elements
  | .function kind node name params body =>
    aroundNamed kind node name do
      let strict ← isStrict
      withStrictness (strict || body.isStrict) do
        let bound ← answer (boundByAll params)
        if bound.evaluates then
          within .parameters node do
            declareParams setting kind.hasArguments
              (Outline.declareAs .parameter bound.names)
            walkParams params
            walkBody kind node (Outline.declareAs .parameter bound.names) false body
        else walkBody kind node (Outline.declareAs .parameter bound.names) true body

def walkAll : List Outline → Walk Unit
  | [] => pure ()
  | o :: rest => do
    walk o
    walkAll rest

/-- Declarators in order: the writes of an initial value, then the binding, then the value. -/
def walkDeclarators : List DeclaratorOutline → Walk Unit
  | [] => pure ()
  | .mk b hasInit init :: rest => do
    if hasInit then
      let bound ← answer b.boundNames
      recordAll .write bound.names
    walk b
    walk init
    walkDeclarators rest

def walkCases : List CaseOutline → Walk Unit
  | [] => pure ()
  | .mk test statements :: rest => do
    walk test
    walkAll statements
    walkCases rest

/-- Parameters in order, each that runs code in a scope of its own. -/
def walkParams : List ParamOutline → Walk Unit
  | [] => pure ()
  | .mk node b :: rest => do
    let bound ← answer b.boundNames
    if bound.evaluates then within .parameterExpression node (walk b) else walk b
    walkParams rest

/-- The body of a function in its scope, which holds the parameters too unless they have a scope of
their own. A concise body owns nothing but the parameters. -/
def walkBody (kind : FunctionKind) (node : Node) (params : List Declaration) (holdsParams : Bool) :
    BodyOutline → Walk Unit
  | .concise value =>
    within kind.scopeKind node do
      if holdsParams then declareAll params
      walk value
  | .block _ decls statements =>
    within kind.scopeKind node do
      if holdsParams then declareParams setting kind.hasArguments params
      declareBody setting params decls statements
      walkAll statements

end

/-- Walks a whole program. The `var`s and functions of a script belong to the global scope, all
declarations of a module to its own. -/
def program (outline : ProgramOutline) : Walk Unit := do
  change (·.enter .global outline.node)
  if outline.isModule then
    change (fun s => { s with strict := true })
    within .module outline.node do
      let owned ← answer (Outline.hoistedAll false outline.decls true outline.statements)
      declareAll outline.decls
      declareAll owned.vars
      walkAll setting outline.statements
  else
    let strict := outline.strict || setting.options.alwaysStrict
    change (fun s => { s with strict })
    let owned ← answer
      (Outline.hoistedAll (!strict && setting.options.annexB) outline.decls true outline.statements)
    declareAll owned.vars
    declareAll owned.twins
    within .script outline.node do
      declareAll outline.decls
      walkAll setting outline.statements
  change (·.leaveAll)

end Walk

end ScopeAnalysis.Resolution
