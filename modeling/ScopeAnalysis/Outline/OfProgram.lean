import ScopeAnalysis.Outline.Declarations
import ScopeAnalysis.Program.PropertyKey

/-!
# From programs to outlines

Every construct is folded into its outline, its parts first. Folding interns the texts of numbers
used as keys of getters and setters, because accessors of one key belong together however the key
is written; what has been interned stays so even if a later part is refused.
-/

namespace ScopeAnalysis

/-- A folding step. It may intern names, and it may be refused. -/
abbrev Folding := ExceptT Refusal (StateM Interner)

namespace Folding

def answer {α : Type} (a : Answer α) : Folding α := ExceptT.mk (pure a)

/-- The name of a static key. -/
def staticName (key : Key Node Name) : Folding (Option Name) :=
  ExceptT.mk (fun names =>
    let (name, names) := key.staticName names
    (.ok name, names))

/-- Puts an outline in front of others unless it is nothing. -/
def keep (o : Outline) (rest : List Outline) : List Outline :=
  if o.isNothing then rest else o :: rest

/-- What one member of an object or class leaves, with the placement and key under which further
accessors join it. -/
structure Part where
  slot : Option (Bool × Name)
  outline : Outline

/-- Adds a member. An accessor goes to the first accessor with the same placement and key. -/
def addPart (slot : Option (Bool × Name)) (o : Outline) (parts : List Part) : List Part :=
  match slot with
  | none => parts ++ [⟨none, o⟩]
  | some _ =>
    if parts.any (fun part => part.slot = slot) then
      parts.map (fun part =>
        if part.slot = slot then ⟨part.slot, .join [part.outline, o]⟩ else part)
    else parts ++ [⟨slot, o⟩]

/-- A block of folded statements, with their lexical declarations. -/
def block (node : Node) (statements : List Outline) : Folding Outline := do
  let decls ← answer (Outline.lexicalDeclarationsAll false statements)
  pure (.block node decls statements)

/-- The placement and key of an accessor whose key is static. -/
def accessorSlot (isStatic : Bool) (kind : MethodKind) (key : Key Node Name) :
    Folding (Option (Bool × Name)) :=
  match kind with
  | .method => pure none
  | .getter | .setter => do
    let name ← staticName key
    pure (name.map (fun name => (isStatic, name)))

def saysUseStrict (special : SpecialNames) (directives : List (Directive Node Name)) : Bool :=
  directives.any (fun d => d.text = special.useStrict)

/-- The statement, if it is a named function declaration. -/
def loneFunction : Stmt Node Name → Option LoneFunction
  | .function (.mk node (some name) _ _ _) => some ⟨node, name⟩
  | _ => none

def bindingNode : Binding Node Name → Node
  | .ident id => id.node
  | .array node _ _ => node
  | .object node _ _ => node

def elementNode : BindingElement Node Name → Node
  | .mk node _ _ _ => node

def isPattern : Binding Node Name → Bool
  | .ident _ => false
  | .array .. | .object .. => true

/-- A call of the bare identifier `eval`. -/
def isEval (special : SpecialNames) : Expr Node Name → Bool
  | .ident id => id.name = special.eval
  | _ => false

/-- The kind of function that a method is. -/
def methodFunction : MethodKind → FunctionKind
  | .method => .method
  | .getter => .getter
  | .setter => .setter

variable (special : SpecialNames)

mutual

def expr : Expr Node Name → Folding Outline
  | .ident id => pure (.read id)
  | .literal _ _ => pure .nothing
  | .keyword _ _ => pure .nothing
  | .hole _ => pure .nothing
  | .template _ tag parts => do
    let tag ← optExpr tag
    let parts ← exprs parts
    pure (.join (tag :: parts))
  | .array _ elements => do
    let elements ← exprs elements
    pure (.join elements)
  | .object _ ps => do
    let parts ← properties [] ps
    pure (.join (parts.map Part.outline))
  | .member _ object _ => expr object
  | .index _ object key => do
    let object ← expr object
    let key ← expr key
    pure (.join [object, key])
  | .call _ callee arguments => do
    let head ← expr callee
    let arguments ← exprs arguments
    let whole := Outline.join (head :: arguments)
    pure (if isEval special callee then .directEval whole else whole)
  | .construct _ callee arguments => do
    let callee ← expr callee
    let arguments ← exprs arguments
    pure (.join (callee :: arguments))
  | .function f => func .expression f
  | .arrow f => arrow f
  | .class_ c => classOutline false c
  | .assign _ op t value => do
    let t ← target t
    let value ← expr value
    pure (.assign op.isCompound t value)
  | .binary _ left _ right => do
    let left ← expr left
    let right ← expr right
    pure (.join [left, right])
  | .conditional _ test yes no => do
    let test ← expr test
    let yes ← expr yes
    let no ← expr no
    pure (.join [test, yes, no])
  | .delete _ (.ident id) => pure (.delete id)
  | .delete _ operand => expr operand
  | .unary _ _ operand => expr operand
  | .update _ _ _ (.ident id) => pure (.update id)
  | .update _ _ _ (.member _ object _) => expr object
  | .update _ _ _ (.index _ object key) => do
    let object ← expr object
    let key ← expr key
    pure (.join [object, key])
  | .update _ _ _ operand => target operand
  | .yield _ operand => optExpr operand
  | .spread _ operand => expr operand

def optExpr : Option (Expr Node Name) → Folding Outline
  | none => pure .nothing
  | some e => expr e

def exprs : List (Expr Node Name) → Folding (List Outline)
  | [] => pure []
  | e :: rest => do
    let o ← expr e
    let rest ← exprs rest
    pure (o :: rest)

/-- The members of an object literal, after those folded already. -/
def properties (parts : List Part) : List (Property Node Name) → Folding (List Part)
  | [] => pure parts
  | .keyed _ k value :: rest => do
    let k ← key k
    let value ← expr value
    properties (addPart none (.join [k, value]) parts) rest
  | .shorthand _ id :: rest => properties (addPart none (.read id) parts) rest
  | .spread _ value :: rest => do
    let value ← expr value
    properties (addPart none value parts) rest
  | .method kind k f :: rest => do
    let f ← func (methodFunction kind) f
    let head ← key k
    let slot ← accessorSlot false kind k
    properties (addPart slot (.join [head, f]) parts) rest

/-- The members of a class, after those folded already. -/
def members (parts : List Part) : List (Member Node Name) → Folding (List Part)
  | [] => pure parts
  | .mk _ isStatic kind k f :: rest => do
    let f ← func (methodFunction kind) f
    let head ← key k
    let slot ← accessorSlot isStatic kind k
    members (addPart slot (.join [head, f]) parts) rest

def key : Key Node Name → Folding Outline
  | .computed _ value => expr value
  | .ident _ => pure .nothing
  | .string _ _ => pure .nothing
  | .number _ _ => pure .nothing

def classOutline (isDeclaration : Bool) : Class Node Name → Folding Outline
  | .mk node name heritage ms => do
    let parts ← members [] ms
    let heritage ← optExpr heritage
    pure (.class_ node isDeclaration name heritage
      ((parts.map Part.outline).filter (fun o => !o.isNothing)))

def func (kind : FunctionKind) : Func Node Name → Folding Outline
  | .mk node name _ ps b => do
    let ps ← params ps
    let b ← body b
    pure (.function kind node name ps b)

/-- An arrow, whose body is folded before its parameters. -/
def arrow : Func Node Name → Folding Outline
  | .mk node _ _ ps b => do
    let b ← body b
    let ps ← params ps
    pure (.function .arrow node none ps b)

/-- The parameters, the rest parameter last. -/
def params : Params Node Name → Folding (List ParamOutline)
  | .mk _ items none => paramItems items
  | .mk _ items (some rest) => do
    let items ← paramItems items
    let o ← binding rest
    pure (items ++ [.mk (bindingNode rest) o])

def paramItems : List (BindingElement Node Name) → Folding (List ParamOutline)
  | [] => pure []
  | e :: rest => do
    let o ← bindingElement e
    let rest ← paramItems rest
    pure (.mk (elementNode e) o :: rest)

def body : Body Node Name → Folding BodyOutline
  | .block _ directives statements => do
    let statements ← stmts statements
    let decls ← answer (Outline.lexicalDeclarationsAll true statements)
    pure (.block (saysUseStrict special directives) decls statements)
  | .concise value => do
    let value ← expr value
    pure (.concise value)

/-- A binding. A part that has an initial value or a computed key is marked as evaluated. -/
def binding : Binding Node Name → Folding Outline
  | .ident id => pure (.binding id)
  | .array _ slots rest => do
    let parts ← bindingSlots slots
    let rest ← optBinding rest
    pure (.join (parts ++ [rest]))
  | .object _ ps rest => do
    let parts ← bindingProperties ps
    pure (.join (parts ++ rest.toList.map Outline.binding))

def optBinding : Option (Binding Node Name) → Folding Outline
  | none => pure .nothing
  | some b => binding b

def bindingElement : BindingElement Node Name → Folding Outline
  | .mk _ _ b none => binding b
  | .mk _ _ b (some init) => do
    let b ← binding b
    let init ← expr init
    pure (.evaluated (.join [b, init]))

def bindingSlots : List (Slot Node (BindingElement Node Name)) → Folding (List Outline)
  | [] => pure []
  | .hole _ :: rest => bindingSlots rest
  | .element e :: rest => do
    let o ← bindingElement e
    let rest ← bindingSlots rest
    pure (o :: rest)

def bindingProperty : BindingProperty Node Name → Folding Outline
  | .shorthand _ id none => pure (.binding id)
  | .shorthand _ id (some init) => do
    let init ← expr init
    pure (.evaluated (.join [.binding id, init]))
  | .keyed _ k element => do
    let head ← key k
    let o ← bindingElement element
    pure (if k.isComputed then .evaluated (.join [head, o]) else .join [head, o])

def bindingProperties : List (BindingProperty Node Name) → Folding (List Outline)
  | [] => pure []
  | p :: rest => do
    let o ← bindingProperty p
    let rest ← bindingProperties rest
    pure (o :: rest)

/-- An assignment target. A member is marked as evaluated if its object concerns names. -/
def target : Target Node Name → Folding Outline
  | .ident id => pure (.target id)
  | .member _ object _ => do
    let object ← expr object
    pure (if object.isNothing then .nothing else .evaluated object)
  | .index _ object k => do
    let object ← expr object
    let k ← expr k
    let both := Outline.join [object, k]
    pure (if both.isNothing then .nothing else .evaluated both)
  | .array _ slots rest => do
    let parts ← targetSlots slots
    let rest ← optTarget rest
    pure (.join (parts ++ [rest]))
  | .object _ ps rest => do
    let parts ← targetProperties ps
    let rest ← optTarget rest
    pure (.join (parts ++ [rest]))

def optTarget : Option (Target Node Name) → Folding Outline
  | none => pure .nothing
  | some t => target t

def targetElement : TargetElement Node Name → Folding Outline
  | .mk _ t init => do
    let t ← target t
    let init ← optExpr init
    pure (.join [t, init])

def targetSlots : List (Slot Node (TargetElement Node Name)) → Folding (List Outline)
  | [] => pure []
  | .hole _ :: rest => targetSlots rest
  | .element e :: rest => do
    let o ← targetElement e
    let rest ← targetSlots rest
    pure (o :: rest)

def targetProperty : TargetProperty Node Name → Folding Outline
  | .shorthand _ id init => do
    let init ← optExpr init
    pure (.join [.target id, init])
  | .keyed _ k element => do
    let k ← key k
    let o ← targetElement element
    pure (.join [k, o])

def targetProperties : List (TargetProperty Node Name) → Folding (List Outline)
  | [] => pure []
  | p :: rest => do
    let o ← targetProperty p
    let rest ← targetProperties rest
    pure (o :: rest)

/-- The declarators of a variable declaration. -/
def declarators : List (BindingElement Node Name) → Folding (List DeclaratorOutline)
  | [] => pure []
  | .mk _ _ b init :: rest => do
    let b ← binding b
    let o ← optExpr init
    let rest ← declarators rest
    pure (.mk b init.isSome o :: rest)

def stmt : Stmt Node Name → Folding Outline
  | .expr _ value => expr value
  | .decl _ _ kind ds => do
    let ds ← declarators ds
    pure (.decl kind ds)
  | .block node statements => do
    let statements ← stmts statements
    block node statements
  | .empty _ => pure .nothing
  | .debugger _ => pure .nothing
  | .jump _ _ _ => pure .nothing
  | .labeled _ _ s => stmt s
  | .ifThen _ test yes => do
    let test ← expr test
    let o ← stmt yes
    pure (.ifElse test (loneFunction yes) o none .nothing)
  | .ifElse _ test yes no => do
    let test ← expr test
    let first ← stmt yes
    let second ← stmt no
    pure (.ifElse test (loneFunction yes) first (loneFunction no) second)
  | .forLoop node init test update s => do
    let init ← optExpr init
    let decls ← answer (Outline.lexicalDeclarations false init)
    let test ← optExpr test
    let update ← optExpr update
    let s ← stmt s
    pure (.forLoop node decls init test update s)
  | .forDecl node _ kind ds test update s => do
    let ds ← declarators ds
    let init := Outline.decl kind ds
    let decls ← answer (Outline.lexicalDeclarations false init)
    let test ← optExpr test
    let update ← optExpr update
    let s ← stmt s
    pure (.forLoop node decls init test update s)
  | .forEach node _ t collection s => do
    let head ← target t
    let collection ← expr collection
    let s ← stmt s
    pure (.forEach node [] head collection s)
  | .forEachDecl node _ _ kind ds collection s => do
    let ds ← declarators ds
    let head := Outline.decl kind ds
    let decls ← answer (Outline.lexicalDeclarations false head)
    let collection ← expr collection
    let s ← stmt s
    pure (.forEach node decls head collection s)
  | .whileLoop _ test s => do
    let test ← expr test
    let s ← stmt s
    pure (.join [test, s])
  | .doLoop _ s test => do
    let s ← stmt s
    let test ← expr test
    pure (.join [s, test])
  | .ret _ value => optExpr value
  | .throw _ value => expr value
  | .withObject node object s => do
    let object ← expr object
    let s ← stmt s
    pure (.withObject node object s)
  | .switch _ discriminant caseBlock cs => do
    let (cases, decls) ← clauses cs
    let discriminant ← expr discriminant
    pure (.switch caseBlock decls discriminant cases)
  | .tryCatch _ blockNode statements h => do
    let statements ← stmts statements
    let first ← block blockNode statements
    let second ← handler h
    pure (.join [first, second])
  | .tryFinally _ blockNode statements last finalizer => do
    let statements ← stmts statements
    let first ← block blockNode statements
    let finalizer ← stmts finalizer
    let third ← block last finalizer
    pure (.join [first, third])
  | .tryCatchFinally _ blockNode statements h last finalizer => do
    let statements ← stmts statements
    let first ← block blockNode statements
    let second ← handler h
    let finalizer ← stmts finalizer
    let third ← block last finalizer
    pure (.join [first, second, third])
  | .function f => func .declaration f
  | .class_ c => classOutline true c

def stmts : List (Stmt Node Name) → Folding (List Outline)
  | [] => pure []
  | s :: rest => do
    let o ← stmt s
    let rest ← stmts rest
    pure (keep o rest)

def handler : Handler Node Name → Folding Outline
  | .mk node b blockNode statements => do
    let o ← optBinding b
    let statements ← stmts statements
    let decls ← answer (Outline.lexicalDeclarationsAll false statements)
    pure (.handler node (b.any isPattern) o blockNode decls statements)

/-- The clauses of a switch and the lexical declarations of all of them together. -/
def clauses : List (Clause Node Name) → Folding (List CaseOutline × List Declaration)
  | [] => pure ([], [])
  | .mk _ test statements :: rest => do
    let test ← optExpr test
    let (statements, decls) ← clauseStmts statements
    let (cases, others) ← clauses rest
    pure (.mk test statements :: cases, decls ++ others)

/-- The statements of a clause, each followed at once by its lexical declarations. -/
def clauseStmts : List (Stmt Node Name) → Folding (List Outline × List Declaration)
  | [] => pure ([], [])
  | s :: rest => do
    let o ← stmt s
    let decls ← answer (Outline.lexicalDeclarations false o)
    let (rest, others) ← clauseStmts rest
    pure (keep o rest, decls ++ others)

end

def item : Item Node Name → Folding Outline
  | .stmt s => stmt special s
  | .imports _ _ defaultBinding nameSpace named =>
    pure (.imports (defaultBinding.toList ++ nameSpace.toList
      ++ named.map ImportSpecifier.binding))
  | .exportAll _ _ => pure .nothing
  | .exportFrom _ _ _ => pure .nothing
  | .exportLocals _ specifiers => pure (.join (specifiers.map (fun s => .read s.id)))
  | .exportStmt s => stmt special s
  | .exportDefaultFunction f => func special .declaration f
  | .exportDefaultClass c => classOutline special true c
  | .exportDefaultExpr value => expr special value

def items : List (Item Node Name) → Folding (List Outline)
  | [] => pure []
  | i :: rest => do
    let o ← item special i
    let rest ← items rest
    pure (keep o rest)

end Folding

/-- The outline of a program. A module is strict without saying so. -/
def NumberedProgram.outline (special : SpecialNames) : NumberedProgram → Folding ProgramOutline
  | .script node directives statements => do
    let statements ← Folding.stmts special statements
    let decls ← Folding.answer (Outline.lexicalDeclarationsAll true statements)
    pure ⟨false, node, Folding.saysUseStrict special directives, decls, statements⟩
  | .module node _ items => do
    let statements ← Folding.items special items
    let decls ← Folding.answer (Outline.lexicalDeclarationsAll true statements)
    pure ⟨true, node, true, decls, statements⟩

end ScopeAnalysis
