import ScopeAnalysis.Options
import ScopeAnalysis.Outline.OfProgram
import ScopeAnalysis.Proofs.Grammar.Declared

/-!
# The pieces of a program

Everything in a program that concerns names, in one list: every use of an identifier with what it
does, every scope that the syntax asks for with its declarations, every owner of `var` names, and
what the grammar has a say in, which is where statements stand and what is updated and assigned.
-/

namespace ScopeAnalysis

/-- What may make the code inside it strict. -/
inductive Enclosure where
  | script (directives : List (Directive Node Name))
  | module
  | function (directives : List (Directive Node Name))
  | class_

def Enclosure.isStrict (useStrict : Name) : Enclosure → Bool
  | .script directives | .function directives => directives.any (fun d => d.text = useStrict)
  | .module | .class_ => true

/-- Whether code among the given enclosures is strict. -/
def strictIn (options : Options) (useStrict : Name) (around : List Enclosure) : Bool :=
  options.alwaysStrict || around.any (Enclosure.isStrict useStrict)

/-- A scope that is opened, with its declarations in the order in which they are made. -/
structure Opening where
  kind : ScopeKind
  node : Node
  hasArguments : Bool
  decls : List Declaration

inductive OwnerForm where
  | script
  | module
  /-- A function with the names of its parameters, which may have a scope of their own. -/
  | function (kind : FunctionKind) (params : List Occurrence) (apart : Bool)

/-- A script, module or function, which owns the `var` names inside it. -/
structure Owner where
  form : OwnerForm
  node : Node
  /-- What the statements of the owner are inside of, the owner first. -/
  around : List Enclosure
  items : List (Item Node Name)
  /-- Whether the scope that receives the `var` names has `arguments` as well. -/
  hasArguments : Bool

namespace Owner

/-- The kind of the scope that receives the `var` names. -/
def scopeKind (o : Owner) : ScopeKind :=
  match o.form with
  | .script => .global
  | .module => .module
  | .function kind _ _ => kind.scopeKind

def params (o : Owner) : List Occurrence :=
  match o.form with
  | .script | .module => []
  | .function _ params _ => params

/-- The lexical declarations at the top. -/
def lexicals (o : Owner) : List Declaration := o.items.flatMap (Item.lexicals true)

/-- The functions declared at the top. -/
def functions (o : Owner) : List Occurrence := o.items.flatMap Item.functions

def vars (o : Owner) : List Occurrence := o.items.flatMap Item.vars

/-- The functions declared in blocks, cases and clauses. Parameters and the lexical declarations at
the top stand in their way as well as what is around them further in. -/
def nested (o : Owner) : List NestedFunction :=
  o.items.flatMap (Item.nested true (Outline.declareAs .parameter o.params ++ o.lexicals))

/-- Whether functions in blocks may be promoted at all. -/
def promotes (options : Options) (useStrict : Name) (o : Owner) : Bool :=
  options.annexB && !strictIn options useStrict o.around

/-- The promoted functions. -/
def promoted (options : Options) (useStrict : Name) (o : Owner) : List Occurrence :=
  if o.promotes options useStrict then
    (o.nested.filter (fun f => !f.isRivalled)).map NestedFunction.id
  else []

/-- The functions at the top and the `var` names, in the order of the statements. -/
def hoisted (o : Owner) : List Declaration :=
  o.items.flatMap (fun i =>
    Outline.declareAs .functionDeclaration i.functions ++ Outline.declareAs .var i.vars)

/-- What the scope that receives the `var` names declares. The lexical declarations of a script are
in a scope of their own, and so are parameters that run code. -/
def decls (options : Options) (useStrict : Name) (o : Owner) : List Declaration :=
  (match o.form with
    | .script => []
    | .module => o.lexicals
    | .function _ params apart =>
      (if apart then [] else Outline.declareAs .parameter params) ++ o.lexicals) ++
    o.hoisted ++ Outline.declareAs .functionVarDeclaration (o.promoted options useStrict)

def opening (options : Options) (useStrict : Name) (o : Owner) : Opening :=
  ⟨o.scopeKind, o.node, o.hasArguments, o.decls options useStrict⟩

end Owner

/-- Where a statement stands: in a list, as the clause of an `if`, or as the body of a loop or a
`with`. -/
inductive Position where
  | list | clause | body
  deriving DecidableEq, Repr

/-- Whether a statement declares nothing in the place where it stands, labels aside. -/
def Stmt.isFree : Stmt Node Name → Bool
  | .decl _ _ kind _ => !kind.isLexical
  | .function _ | .class_ _ => false
  | .labeled _ _ s => s.isFree
  | _ => true

/-- Whether a statement is a function declaration, labels aside. -/
def Stmt.isFunction : Stmt Node Name → Bool
  | .function _ => true
  | .labeled _ _ s => s.isFunction
  | _ => false

/-- Whether the grammar admits a statement at a position. Functions, classes, `let` and `const`
stand directly in lists, functions also behind labels, and a function may be a clause. -/
def Position.admits : Position → Stmt Node Name → Bool
  | .list, .labeled _ _ s => s.isFree || s.isFunction
  | .list, _ => true
  | .clause, .function _ => true
  | .clause, s => s.isFree
  | .body, s => s.isFree

namespace Body

def directives : Body Node Name → List (Directive Node Name)
  | .block _ directives _ => directives
  | .concise _ => []

def statements : Body Node Name → List (Stmt Node Name)
  | .block _ _ statements => statements
  | .concise _ => []

def isConcise : Body Node Name → Bool
  | .block .. => false
  | .concise _ => true

end Body

/-- A function as the owner of its `var` names. -/
def Owner.ofFunction (around : List Enclosure) (kind : FunctionKind) (node : Node)
    (ps : Params Node Name) (b : Body Node Name) : Owner :=
  ⟨.function kind ps.names ps.evaluates, node, .function b.directives :: around,
    b.statements.map .stmt, kind.hasArguments && !ps.evaluates && !b.isConcise⟩

/-- A scope inside a program other than those that receive `var` names. -/
inductive InnerScope where
  | block (node : Node) (statements : List (Stmt Node Name))
  | loop (node : Node)
  | declLoop (node : Node) (kind : VariableKind) (declarators : List (BindingElement Node Name))
  | switch (node : Node) (clauses : List (Clause Node Name))
  /-- The clause of an `if` that is a named function declaration. -/
  | lone (f : LoneFunction)
  | with_ (node : Node)
  | catch_ (node : Node) (binding : Option (Binding Node Name))
  | className (node : Node) (name : Option Occurrence)
  | functionName (node : Node) (id : Occurrence)
  /-- The scope of all parameters of a function if any of them runs code. -/
  | parameters (kind : FunctionKind) (node : Node) (params : Params Node Name)
  | parameterExpression (node : Node)

def InnerScope.opening : InnerScope → Opening
  | .block node statements => ⟨.block, node, false, statements.flatMap (Stmt.lexicals false)⟩
  | .loop node => ⟨.block, node, false, []⟩
  | .declLoop node kind ds => ⟨.block, node, false, lexicalNames kind ds⟩
  | .switch node clauses => ⟨.block, node, false, clauseLexicals clauses⟩
  | .lone f => ⟨.block, f.node, false, [⟨f.name, .functionDeclaration⟩]⟩
  | .with_ node => ⟨.with_, node, false, []⟩
  | .catch_ node b =>
    ⟨.catch_, node, false, Outline.declareAs .catchParameter (Binding.optNames b)⟩
  | .className node name => ⟨.className, node, false, Outline.declareAs .className name.toList⟩
  | .functionName node id => ⟨.functionName, node, false, [⟨id, .functionName⟩]⟩
  | .parameters kind node ps =>
    ⟨.parameters, node, kind.hasArguments, Outline.declareAs .parameter ps.names⟩
  | .parameterExpression node => ⟨.parameterExpression, node, false, []⟩

inductive Piece where
  | use (id : Occurrence) (access : Access)
  | scope (inner : InnerScope)
  /-- A function among its enclosures, which owns `var` names. -/
  | function (around : List Enclosure) (kind : FunctionKind) (node : Node)
      (params : Params Node Name) (body : Body Node Name)
  | update (operand : Target Node Name)
  | assign (op : AssignmentOperator) (target : Target Node Name)
  | stands (position : Position) (s : Stmt Node Name)

namespace Piece

/-- The grammar admits the statement where it stands. -/
def isPlaced : Piece → Bool
  | .stands position s => position.admits s
  | _ => true

def uses : Piece → List (Occurrence × Access)
  | .use id access => [(id, access)]
  | _ => []

/-- The scope that a piece asks for. -/
def openings (options : Options) (useStrict : Name) : Piece → List Opening
  | .scope inner => [inner.opening]
  | .function around kind node ps b =>
    [(Owner.ofFunction around kind node ps b).opening options useStrict]
  | _ => []

/-- The owner that a piece is. -/
def owner? : Piece → Option Owner
  | .function around kind node ps b => some (.ofFunction around kind node ps b)
  | _ => none

/-- No pattern is updated. -/
def isSound : Piece → Bool
  | .update operand => !operand.isPattern
  | _ => true

/-- No pattern is updated or the target of a compound assignment. -/
def isPlain : Piece → Bool
  | .update operand => !operand.isPattern
  | .assign op target => !(op.isCompound && target.isPattern)
  | _ => true

theorem isSound_of_isPlain {piece : Piece} (plain : piece.isPlain = true) :
    piece.isSound = true := by
  cases piece <;> first | exact plain | rfl

/-- The uses of an assignment. Only a plain identifier is read by a compound assignment. -/
def ofAssign (op : AssignmentOperator) : Target Node Name → List Piece
  | .ident id => [.use id (if op.isCompound then .readWrite else .write)]
  | t => t.names.map (fun id => .use id .write)

def ofUpdate : Target Node Name → List Piece
  | .ident id => [.use id .readWrite]
  | _ => []

/-- The writes of declarators, one for each name of a declarator that has an initial value. -/
def ofDeclarators (ds : List (BindingElement Node Name)) : List Piece :=
  ds.flatMap (fun
    | .mk _ _ b init => if init.isSome then b.names.map (fun id => .use id .write) else [])

/-- The scope around the name of a function expression. -/
def ofName (kind : FunctionKind) (node : Node) : Option Occurrence → List Piece
  | some id =>
    if kind = .expression then [.scope (.functionName node id)] else []
  | none => []

/-- The scopes of parameters that run code: one for all of them, and one more for each that does. -/
def ofParams (kind : FunctionKind) (node : Node) (ps : Params Node Name) : List Piece :=
  if ps.evaluates then
    .scope (.parameters kind node ps) ::
      ps.evaluatedNodes.map (fun node => .scope (.parameterExpression node))
  else []

/-- The scope of the clause of an `if` that is a function declaration with a name. -/
def ofClause (s : Stmt Node Name) : List Piece :=
  (Folding.loneFunction s).toList.map (fun f => .scope (.lone f))

end Piece

namespace Pieces

mutual

def expr (around : List Enclosure) : Expr Node Name → List Piece
  | .ident id => [.use id .read]
  | .literal _ _ => []
  | .keyword _ _ => []
  | .hole _ => []
  | .template _ tag parts => optExpr around tag ++ exprs around parts
  | .array _ elements => exprs around elements
  | .object _ ps => properties around ps
  | .member _ object _ => expr around object
  | .index _ object k => expr around object ++ expr around k
  | .call _ callee arguments => expr around callee ++ exprs around arguments
  | .construct _ callee arguments => expr around callee ++ exprs around arguments
  | .function f => func around .expression f
  | .arrow f => func around .arrow f
  | .class_ c => classPieces around c
  | .assign _ op t value =>
    .assign op t :: (Piece.ofAssign op t ++ (target around t ++ expr around value))
  | .binary _ left _ right => expr around left ++ expr around right
  | .conditional _ test yes no => expr around test ++ (expr around yes ++ expr around no)
  | .delete _ (.ident id) => [.use id .delete]
  | .delete _ operand => expr around operand
  | .unary _ _ operand => expr around operand
  | .update _ _ _ t => .update t :: (Piece.ofUpdate t ++ target around t)
  | .yield _ operand => optExpr around operand
  | .spread _ operand => expr around operand

def optExpr (around : List Enclosure) : Option (Expr Node Name) → List Piece
  | none => []
  | some e => expr around e

def exprs (around : List Enclosure) : List (Expr Node Name) → List Piece
  | [] => []
  | e :: rest => expr around e ++ exprs around rest

def properties (around : List Enclosure) : List (Property Node Name) → List Piece
  | [] => []
  | .keyed _ k value :: rest => key around k ++ expr around value ++ properties around rest
  | .shorthand _ id :: rest => .use id .read :: properties around rest
  | .spread _ value :: rest => expr around value ++ properties around rest
  | .method kind k f :: rest =>
    key around k ++ func around (Folding.methodFunction kind) f ++ properties around rest

def members (around : List Enclosure) : List (Member Node Name) → List Piece
  | [] => []
  | .mk _ _ kind k f :: rest =>
    key around k ++ func around (Folding.methodFunction kind) f ++ members around rest

def key (around : List Enclosure) : Key Node Name → List Piece
  | .computed _ value => expr around value
  | .ident _ => []
  | .string _ _ => []
  | .number _ _ => []

def classPieces (around : List Enclosure) : Class Node Name → List Piece
  | .mk node name heritage ms =>
    .scope (.className node name) ::
      (optExpr (.class_ :: around) heritage ++ members (.class_ :: around) ms)

def func (around : List Enclosure) (kind : FunctionKind) : Func Node Name → List Piece
  | .mk node name _ ps b =>
    Piece.ofName kind node name ++ (Piece.ofParams kind node ps ++
      (params (.function b.directives :: around) ps ++
        .function around kind node ps b :: body (.function b.directives :: around) b))

def params (around : List Enclosure) : Params Node Name → List Piece
  | .mk _ items rest => elements around items ++ optBinding around rest

def body (around : List Enclosure) : Body Node Name → List Piece
  | .block _ _ statements => stmts around statements
  | .concise value => expr around value

def binding (around : List Enclosure) : Binding Node Name → List Piece
  | .ident _ => []
  | .array _ slots rest => bindingSlots around slots ++ optBinding around rest
  | .object _ ps _ => bindingProperties around ps

def optBinding (around : List Enclosure) : Option (Binding Node Name) → List Piece
  | none => []
  | some b => binding around b

def element (around : List Enclosure) : BindingElement Node Name → List Piece
  | .mk _ _ b init => binding around b ++ optExpr around init

def elements (around : List Enclosure) : List (BindingElement Node Name) → List Piece
  | [] => []
  | e :: rest => element around e ++ elements around rest

def bindingSlots (around : List Enclosure) :
    List (Slot Node (BindingElement Node Name)) → List Piece
  | [] => []
  | .hole _ :: rest => bindingSlots around rest
  | .element e :: rest => element around e ++ bindingSlots around rest

def bindingProperty (around : List Enclosure) : BindingProperty Node Name → List Piece
  | .shorthand _ _ init => optExpr around init
  | .keyed _ k e => key around k ++ element around e

def bindingProperties (around : List Enclosure) : List (BindingProperty Node Name) → List Piece
  | [] => []
  | p :: rest => bindingProperty around p ++ bindingProperties around rest

def target (around : List Enclosure) : Target Node Name → List Piece
  | .ident _ => []
  | .member _ object _ => expr around object
  | .index _ object k => expr around object ++ expr around k
  | .array _ slots rest => targetSlots around slots ++ optTarget around rest
  | .object _ ps rest => targetProperties around ps ++ optTarget around rest

def optTarget (around : List Enclosure) : Option (Target Node Name) → List Piece
  | none => []
  | some t => target around t

def targetElement (around : List Enclosure) : TargetElement Node Name → List Piece
  | .mk _ t init => target around t ++ optExpr around init

def targetSlots (around : List Enclosure) :
    List (Slot Node (TargetElement Node Name)) → List Piece
  | [] => []
  | .hole _ :: rest => targetSlots around rest
  | .element e :: rest => targetElement around e ++ targetSlots around rest

def targetProperty (around : List Enclosure) : TargetProperty Node Name → List Piece
  | .shorthand _ _ init => optExpr around init
  | .keyed _ k e => key around k ++ targetElement around e

def targetProperties (around : List Enclosure) : List (TargetProperty Node Name) → List Piece
  | [] => []
  | p :: rest => targetProperty around p ++ targetProperties around rest

def stmt (around : List Enclosure) : Stmt Node Name → List Piece
  | .expr _ value => expr around value
  | .decl _ _ _ ds => Piece.ofDeclarators ds ++ elements around ds
  | .block node statements =>
    .scope (.block node statements) :: stmts around statements
  | .empty _ => []
  | .debugger _ => []
  | .jump _ _ _ => []
  | .labeled _ _ s => stmt around s
  | .ifThen _ test yes =>
    expr around test ++ (.stands .clause yes :: (Piece.ofClause yes ++ stmt around yes))
  | .ifElse _ test yes no =>
    expr around test ++ (.stands .clause yes :: (Piece.ofClause yes ++ stmt around yes) ++
      .stands .clause no :: (Piece.ofClause no ++ stmt around no))
  | .forLoop node init test update s =>
    .scope (.loop node) :: (optExpr around init ++ (optExpr around test ++
      (optExpr around update ++ .stands .body s :: stmt around s)))
  | .forDecl node _ kind ds test update s =>
    .scope (.declLoop node kind ds) :: (Piece.ofDeclarators ds ++ elements around ds ++
      (optExpr around test ++ (optExpr around update ++ .stands .body s :: stmt around s)))
  | .forEach node _ t collection s =>
    .scope (.loop node) :: (t.names.map (fun id => .use id .write) ++ (target around t ++
      (expr around collection ++ .stands .body s :: stmt around s)))
  | .forEachDecl node _ _ kind ds collection s =>
    .scope (.declLoop node kind ds) :: ((declaredNames ds).map (fun id => .use id .write) ++
      (Piece.ofDeclarators ds ++ elements around ds ++
        (expr around collection ++ .stands .body s :: stmt around s)))
  | .whileLoop _ test s => expr around test ++ .stands .body s :: stmt around s
  | .doLoop _ s test => .stands .body s :: (stmt around s ++ expr around test)
  | .ret _ value => optExpr around value
  | .throw _ value => expr around value
  | .withObject node object s =>
    expr around object ++ (.scope (.with_ node) :: .stands .body s :: stmt around s)
  | .switch _ discriminant caseBlock cs =>
    expr around discriminant ++ (.scope (.switch caseBlock cs) :: clauses around cs)
  | .tryCatch _ blockNode statements h =>
    .scope (.block blockNode statements) ::
      (stmts around statements ++ handler around h)
  | .tryFinally _ blockNode statements last finalizer =>
    .scope (.block blockNode statements) :: (stmts around statements ++
      .scope (.block last finalizer) :: stmts around finalizer)
  | .tryCatchFinally _ blockNode statements h last finalizer =>
    .scope (.block blockNode statements) :: (stmts around statements ++
      (handler around h ++
        .scope (.block last finalizer) :: stmts around finalizer))
  | .function f => func around .declaration f
  | .class_ c => classPieces around c

def stmts (around : List Enclosure) : List (Stmt Node Name) → List Piece
  | [] => []
  | s :: rest => .stands .list s :: (stmt around s ++ stmts around rest)

def handler (around : List Enclosure) : Handler Node Name → List Piece
  | .mk node b blockNode statements =>
    .scope (.catch_ node b) ::
      (optBinding around b ++
        .scope (.block blockNode statements) :: stmts around statements)

def clauses (around : List Enclosure) : List (Clause Node Name) → List Piece
  | [] => []
  | .mk _ test statements :: rest =>
    optExpr around test ++ (stmts around statements ++ clauses around rest)

end

def item (around : List Enclosure) : Item Node Name → List Piece
  | .stmt s | .exportStmt s => .stands .list s :: stmt around s
  | .imports .. | .exportAll .. | .exportFrom .. => []
  | .exportLocals _ specifiers => specifiers.map (fun s => .use s.id .read)
  | .exportDefaultFunction f => func around .declaration f
  | .exportDefaultClass c => classPieces around c
  | .exportDefaultExpr value => expr around value

end Pieces

namespace NumberedProgram

/-- The program itself as the owner of the `var` names outside its functions. -/
def owner : NumberedProgram → Owner
  | .script node directives statements =>
    ⟨.script, node, [.script directives], statements.map .stmt, false⟩
  | .module node _ items => ⟨.module, node, [.module], items, false⟩

/-- The scope of a program that receives no `var` names. -/
def beside : NumberedProgram → Opening
  | .script node directives statements =>
    ⟨.script, node, false, (owner (.script node directives statements)).lexicals⟩
  | .module node _ _ => ⟨.global, node, false, []⟩

/-- The two scopes of a program itself, the outer one first. Around a module there is a global
scope, and inside the global scope of a script there is one for its lexical declarations. -/
def around (options : Options) (useStrict : Name) : NumberedProgram → List Opening
  | .script node directives statements =>
    [(owner (.script node directives statements)).opening options useStrict,
      beside (.script node directives statements)]
  | .module node directives items =>
    [beside (.module node directives items),
      (owner (.module node directives items)).opening options useStrict]

def pieces (p : NumberedProgram) : List Piece :=
  p.owner.items.flatMap (Pieces.item p.owner.around)

/-- All scopes of a program. -/
def openings (options : Options) (useStrict : Name) (p : NumberedProgram) : List Opening :=
  p.around options useStrict ++ p.pieces.flatMap (Piece.openings options useStrict)

/-- A scope of a program is around all of it, inside an owner, or of a function. -/
theorem mem_openings {options : Options} {useStrict : Name} {p : NumberedProgram} {o : Opening} :
    o ∈ p.openings options useStrict ↔ o ∈ p.around options useStrict ∨
      (∃ inner, .scope inner ∈ p.pieces ∧ o = inner.opening) ∨
      ∃ around kind node ps b, .function around kind node ps b ∈ p.pieces ∧
        o = (Owner.ofFunction around kind node ps b).opening options useStrict := by
  rw [openings, List.mem_append, List.mem_flatMap]
  refine or_congr_right ⟨?_, ?_⟩
  · rintro ⟨piece, member, asked⟩
    cases piece with
    | scope inner => exact .inl ⟨inner, member, List.mem_singleton.1 asked⟩
    | function around kind node ps b =>
      exact .inr ⟨around, kind, node, ps, b, member, List.mem_singleton.1 asked⟩
    | _ => cases asked
  · rintro (⟨inner, member, rfl⟩ | ⟨around, kind, node, ps, b, member, rfl⟩)
    · exact ⟨_, member, List.mem_singleton.2 rfl⟩
    · exact ⟨_, member, List.mem_singleton.2 rfl⟩

/-- Every statement stands where the grammar admits it. -/
def isPlaced (p : NumberedProgram) : Bool := p.pieces.all Piece.isPlaced

/-- No update has a pattern as its operand. -/
def isSound (p : NumberedProgram) : Bool := p.pieces.all Piece.isSound

/-- No update and no compound assignment has a pattern as its operand. -/
def isPlain (p : NumberedProgram) : Bool := p.pieces.all Piece.isPlain

/-- The uses of a program: which identifier, and what is done with its variable. -/
def uses (p : NumberedProgram) : List (Occurrence × Access) := p.pieces.flatMap Piece.uses

/-- The script or module and every function in it. -/
def owners (p : NumberedProgram) : List Owner := p.owner :: p.pieces.filterMap Piece.owner?

end NumberedProgram

end ScopeAnalysis
