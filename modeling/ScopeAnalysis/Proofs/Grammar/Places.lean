import ScopeAnalysis.Proofs.Grammar.Declared

/-!
# The places of scopes

The scopes that the syntax of a program asks for, each with the scopes around it. A construct that
opens a scope says which of its parts stand inside: the object of a `with` and the discriminant of a
`switch` stand outside, the tests of the cases and whatever stands in the head of a loop inside.
-/

namespace ScopeAnalysis

/-- A scope by its kind and node, and those around it, the innermost first. -/
abbrev Place := List (ScopeKind × Node)

namespace Places

/-- A scope and those inside it. -/
def scope (kind : ScopeKind) (node : Node) (inside : Place → List Place) (around : Place) :
    List Place :=
  ((kind, node) :: around) :: inside ((kind, node) :: around)

/-- A scope that is only there if it is asked for. -/
def scopeIf (asked : Bool) (kind : ScopeKind) (node : Node) (inside : Place → List Place) :
    Place → List Place :=
  if asked then scope kind node inside else inside

/-- The clause of an `if`, in a scope of its own if it is a named function declaration. -/
def clause (s : Stmt Node Name) (inside : Place → List Place) : Place → List Place :=
  match Folding.loneFunction s with
  | some f => scope .block f.node inside
  | none => inside

/-- A function, in a scope for its name if it is an expression that has one. -/
def named (kind : FunctionKind) (node : Node) (name : Option Occurrence)
    (inside : Place → List Place) : Place → List Place :=
  scopeIf (kind = .expression ∧ name.isSome) .functionName node inside

mutual

def expr : Expr Node Name → Place → List Place
  | .ident _, _ => []
  | .literal _ _, _ => []
  | .keyword _ _, _ => []
  | .hole _, _ => []
  | .template _ tag parts, around => optExpr tag around ++ exprs parts around
  | .array _ elements, around => exprs elements around
  | .object _ ps, around => properties ps around
  | .member _ object _, around => expr object around
  | .index _ object k, around => expr object around ++ expr k around
  | .call _ callee arguments, around => expr callee around ++ exprs arguments around
  | .construct _ callee arguments, around => expr callee around ++ exprs arguments around
  | .function f, around => func .expression f around
  | .arrow f, around => func .arrow f around
  | .class_ c, around => classPlaces c around
  | .assign _ _ t value, around => target t around ++ expr value around
  | .binary _ left _ right, around => expr left around ++ expr right around
  | .conditional _ test yes no, around => expr test around ++ (expr yes around ++ expr no around)
  | .delete _ operand, around => expr operand around
  | .unary _ _ operand, around => expr operand around
  | .update _ _ _ operand, around => target operand around
  | .yield _ operand, around => optExpr operand around
  | .spread _ operand, around => expr operand around

def optExpr : Option (Expr Node Name) → Place → List Place
  | none, _ => []
  | some e, around => expr e around

def exprs : List (Expr Node Name) → Place → List Place
  | [], _ => []
  | e :: rest, around => expr e around ++ exprs rest around

def properties : List (Property Node Name) → Place → List Place
  | [], _ => []
  | .keyed _ k value :: rest, around =>
    key k around ++ expr value around ++ properties rest around
  | .shorthand _ _ :: rest, around => properties rest around
  | .spread _ value :: rest, around => expr value around ++ properties rest around
  | .method kind k f :: rest, around =>
    key k around ++ func (Folding.methodFunction kind) f around ++ properties rest around

def members : List (Member Node Name) → Place → List Place
  | [], _ => []
  | .mk _ _ kind k f :: rest, around =>
    key k around ++ func (Folding.methodFunction kind) f around ++ members rest around

def key : Key Node Name → Place → List Place
  | .computed _ value, around => expr value around
  | .ident _, _ => []
  | .string _ _, _ => []
  | .number _ _, _ => []

def classPlaces : Class Node Name → Place → List Place
  | .mk node _ heritage ms, around =>
    scope .className node (fun inner => optExpr heritage inner ++ members ms inner) around

/-- A function. If any parameter runs code, all of them have a scope of their own, with the scope of
the body inside. -/
def func (kind : FunctionKind) : Func Node Name → Place → List Place
  | .mk node name _ ps b, around =>
    named kind node name (scopeIf ps.evaluates .parameters node (fun inner =>
      params ps inner ++ scope kind.scopeKind node (body b) inner)) around

def params : Params Node Name → Place → List Place
  | .mk _ items none, around => paramItems items around
  | .mk _ items (some b), around =>
    paramItems items around ++
      scopeIf b.evaluates .parameterExpression (Folding.bindingNode b) (binding b) around

def paramItems : List (BindingElement Node Name) → Place → List Place
  | [], _ => []
  | e :: rest, around =>
    scopeIf e.evaluates .parameterExpression (Folding.elementNode e) (element e) around ++
      paramItems rest around

def body : Body Node Name → Place → List Place
  | .block _ _ statements, around => stmts statements around
  | .concise value, around => expr value around

def binding : Binding Node Name → Place → List Place
  | .ident _, _ => []
  | .array _ slots rest, around => bindingSlots slots around ++ optBinding rest around
  | .object _ ps _, around => bindingProperties ps around

def optBinding : Option (Binding Node Name) → Place → List Place
  | none, _ => []
  | some b, around => binding b around

def element : BindingElement Node Name → Place → List Place
  | .mk _ _ b init, around => binding b around ++ optExpr init around

def elements : List (BindingElement Node Name) → Place → List Place
  | [], _ => []
  | e :: rest, around => element e around ++ elements rest around

def bindingSlots : List (Slot Node (BindingElement Node Name)) → Place → List Place
  | [], _ => []
  | .hole _ :: rest, around => bindingSlots rest around
  | .element e :: rest, around => element e around ++ bindingSlots rest around

def bindingProperty : BindingProperty Node Name → Place → List Place
  | .shorthand _ _ init, around => optExpr init around
  | .keyed _ k e, around => key k around ++ element e around

def bindingProperties : List (BindingProperty Node Name) → Place → List Place
  | [], _ => []
  | p :: rest, around => bindingProperty p around ++ bindingProperties rest around

def target : Target Node Name → Place → List Place
  | .ident _, _ => []
  | .member _ object _, around => expr object around
  | .index _ object k, around => expr object around ++ expr k around
  | .array _ slots rest, around => targetSlots slots around ++ optTarget rest around
  | .object _ ps rest, around => targetProperties ps around ++ optTarget rest around

def optTarget : Option (Target Node Name) → Place → List Place
  | none, _ => []
  | some t, around => target t around

def targetElement : TargetElement Node Name → Place → List Place
  | .mk _ t init, around => target t around ++ optExpr init around

def targetSlots : List (Slot Node (TargetElement Node Name)) → Place → List Place
  | [], _ => []
  | .hole _ :: rest, around => targetSlots rest around
  | .element e :: rest, around => targetElement e around ++ targetSlots rest around

def targetProperty : TargetProperty Node Name → Place → List Place
  | .shorthand _ _ init, around => optExpr init around
  | .keyed _ k e, around => key k around ++ targetElement e around

def targetProperties : List (TargetProperty Node Name) → Place → List Place
  | [], _ => []
  | p :: rest, around => targetProperty p around ++ targetProperties rest around

def stmt : Stmt Node Name → Place → List Place
  | .expr _ value, around => expr value around
  | .decl _ _ _ ds, around => elements ds around
  | .block node statements, around => scope .block node (stmts statements) around
  | .empty _, _ => []
  | .debugger _, _ => []
  | .jump _ _ _, _ => []
  | .labeled _ _ s, around => stmt s around
  | .ifThen _ test yes, around => expr test around ++ clause yes (stmt yes) around
  | .ifElse _ test yes no, around =>
    expr test around ++ (clause yes (stmt yes) around ++ clause no (stmt no) around)
  | .forLoop node init test update s, around =>
    scope .block node (fun inner => optExpr init inner ++ (optExpr test inner ++
      (optExpr update inner ++ stmt s inner))) around
  | .forDecl node _ _ ds test update s, around =>
    scope .block node (fun inner => elements ds inner ++ (optExpr test inner ++
      (optExpr update inner ++ stmt s inner))) around
  | .forEach node _ t collection s, around =>
    scope .block node (fun inner => target t inner ++ (expr collection inner ++ stmt s inner))
      around
  | .forEachDecl node _ _ _ ds collection s, around =>
    scope .block node (fun inner => elements ds inner ++ (expr collection inner ++ stmt s inner))
      around
  | .whileLoop _ test s, around => expr test around ++ stmt s around
  | .doLoop _ s test, around => stmt s around ++ expr test around
  | .ret _ value, around => optExpr value around
  | .throw _ value, around => expr value around
  | .withObject node object s, around => expr object around ++ scope .with_ node (stmt s) around
  | .switch _ discriminant caseBlock cs, around =>
    expr discriminant around ++ scope .block caseBlock (clauses cs) around
  | .tryCatch _ blockNode statements h, around =>
    scope .block blockNode (stmts statements) around ++ handler h around
  | .tryFinally _ blockNode statements last finalizer, around =>
    scope .block blockNode (stmts statements) around ++ scope .block last (stmts finalizer) around
  | .tryCatchFinally _ blockNode statements h last finalizer, around =>
    scope .block blockNode (stmts statements) around ++ (handler h around ++
      scope .block last (stmts finalizer) around)
  | .function f, around => func .declaration f around
  | .class_ c, around => classPlaces c around

def stmts : List (Stmt Node Name) → Place → List Place
  | [], _ => []
  | s :: rest, around => stmt s around ++ stmts rest around

def handler : Handler Node Name → Place → List Place
  | .mk node b blockNode statements, around =>
    scope .catch_ node (fun inner => optBinding b inner ++
      scope .block blockNode (stmts statements) inner) around

def clauses : List (Clause Node Name) → Place → List Place
  | [], _ => []
  | .mk _ test statements :: rest, around =>
    optExpr test around ++ (stmts statements around ++ clauses rest around)

end

def item : Item Node Name → Place → List Place
  | .stmt s, around | .exportStmt s, around => stmt s around
  | .imports .., _ | .exportAll .., _ | .exportFrom .., _ | .exportLocals .., _ => []
  | .exportDefaultFunction f, around => func .declaration f around
  | .exportDefaultClass c, around => classPlaces c around
  | .exportDefaultExpr value, around => expr value around

def items : List (Item Node Name) → Place → List Place
  | [], _ => []
  | i :: rest, around => item i around ++ items rest around

/-- Around everything in a program there is a global scope, with one for the script or module
inside. -/
def program : NumberedProgram → Place → List Place
  | .script node _ statements => scope .global node (scope .script node (stmts statements))
  | .module node _ is => scope .global node (scope .module node (items is))

end Places

/-- The places of all scopes of a program. -/
def NumberedProgram.places (p : NumberedProgram) : List Place := Places.program p []

end ScopeAnalysis
