import ScopeAnalysis.Program.Tree

/-!
# Gathering from the syntax

One way through the whole syntax, in the order in which nodes are numbered: the parts of a node from
left to right, then the node itself, then its own identifiers, holes and directives. What is
gathered on the way is a parameter.
-/

namespace ScopeAnalysis

/-- What is gathered from a node by its mark, and from a method or accessor by its kind and key. -/
structure Gathering (μ ν α : Type) where
  mark : μ → List α
  method : MethodKind → Key μ ν → List α

namespace Gathering

variable {μ ν α : Type} (g : Gathering μ ν α)

def ident (id : Ident μ ν) : List α := g.mark id.node

def optIdent : Option (Ident μ ν) → List α
  | none => []
  | some id => g.ident id

def directives : List (Directive μ ν) → List α
  | [] => []
  | d :: rest => g.mark d.node ++ directives rest

def holes {β : Type} : List (Slot μ β) → List α
  | [] => []
  | .hole node :: rest => g.mark node ++ holes rest
  | .element _ :: rest => holes rest

mutual

def expr : Expr μ ν → List α
  | .ident id => g.ident id
  | .literal node _ => g.mark node
  | .keyword node _ => g.mark node
  | .hole node => g.mark node
  | .template node tag parts => optExpr tag ++ exprs parts ++ g.mark node
  | .array node elements => exprs elements ++ g.mark node
  | .object node ps => properties ps ++ g.mark node
  | .member node object _ => expr object ++ g.mark node
  | .index node object k => expr object ++ expr k ++ g.mark node
  | .call node callee arguments => expr callee ++ exprs arguments ++ g.mark node
  | .construct node callee arguments => expr callee ++ exprs arguments ++ g.mark node
  | .function f => func f
  | .arrow f => func f
  | .class_ c => classTree c
  | .assign node _ t value => target t ++ expr value ++ g.mark node
  | .binary node left _ right => expr left ++ expr right ++ g.mark node
  | .conditional node test yes no => expr test ++ expr yes ++ expr no ++ g.mark node
  | .delete node operand => expr operand ++ g.mark node
  | .unary node _ operand => expr operand ++ g.mark node
  | .update node _ _ operand => target operand ++ g.mark node
  | .yield node operand => optExpr operand ++ g.mark node
  | .spread node operand => expr operand ++ g.mark node

def optExpr : Option (Expr μ ν) → List α
  | none => []
  | some e => expr e

def exprs : List (Expr μ ν) → List α
  | [] => []
  | e :: rest => expr e ++ exprs rest

def stmt : Stmt μ ν → List α
  | .expr node value => expr value ++ g.mark node
  | .decl node list _ ds => bindingElements ds ++ g.mark node ++ g.mark list
  | .block node statements => stmts statements ++ g.mark node
  | .empty node => g.mark node
  | .debugger node => g.mark node
  | .jump node _ _ => g.mark node
  | .labeled node _ s => stmt s ++ g.mark node
  | .ifThen node test yes => expr test ++ stmt yes ++ g.mark node
  | .ifElse node test yes no => expr test ++ stmt yes ++ stmt no ++ g.mark node
  | .forLoop node init test update s =>
    optExpr init ++ optExpr test ++ optExpr update ++ stmt s ++ g.mark node
  | .forDecl node list _ ds test update s =>
    bindingElements ds ++ g.mark list ++ optExpr test ++ optExpr update ++ stmt s ++ g.mark node
  | .forEach node _ t collection s => target t ++ expr collection ++ stmt s ++ g.mark node
  | .forEachDecl node _ list _ ds collection s =>
    bindingElements ds ++ g.mark list ++ expr collection ++ stmt s ++ g.mark node
  | .whileLoop node test s => expr test ++ stmt s ++ g.mark node
  | .doLoop node s test => stmt s ++ expr test ++ g.mark node
  | .ret node value => optExpr value ++ g.mark node
  | .throw node value => expr value ++ g.mark node
  | .withObject node object s => expr object ++ stmt s ++ g.mark node
  | .switch node discriminant caseBlock cs =>
    expr discriminant ++ clauses cs ++ g.mark node ++ g.mark caseBlock
  | .tryCatch node block statements (.mk clause b handlerBlock handler) =>
    stmts statements ++ optBinding b ++ stmts handler ++ g.mark node ++ g.mark block ++
      g.mark clause ++ g.mark handlerBlock
  | .tryFinally node block statements last finalizer =>
    stmts statements ++ stmts finalizer ++ g.mark node ++ g.mark block ++ g.mark last
  | .tryCatchFinally node block statements (.mk clause b handlerBlock handler) last finalizer =>
    stmts statements ++ optBinding b ++ stmts handler ++ g.mark clause ++ g.mark handlerBlock ++
      stmts finalizer ++ g.mark node ++ g.mark block ++ g.mark last
  | .function f => func f
  | .class_ c => classTree c

def stmts : List (Stmt μ ν) → List α
  | [] => []
  | s :: rest => stmt s ++ stmts rest

def func : Func μ ν → List α
  | .mk node name _ ps b => params ps ++ body b ++ g.mark node ++ g.optIdent name

def params : Params μ ν → List α
  | .mk none items rest => bindingElements items ++ optBinding rest
  | .mk (some node) items rest => bindingElements items ++ optBinding rest ++ g.mark node

def body : Body μ ν → List α
  | .block node ds statements => stmts statements ++ g.mark node ++ g.directives ds
  | .concise value => expr value

def classTree : Class μ ν → List α
  | .mk node name heritage ms => optExpr heritage ++ members ms ++ g.mark node ++ g.optIdent name

def members : List (Member μ ν) → List α
  | [] => []
  | .mk node _ kind k f :: rest =>
    g.method kind k ++ key k ++ func f ++ g.mark node ++ members rest

def key : Key μ ν → List α
  | .ident id => g.ident id
  | .string node _ => g.mark node
  | .number node _ => g.mark node
  | .computed node value => expr value ++ g.mark node

def property : Property μ ν → List α
  | .keyed node k value => key k ++ expr value ++ g.mark node
  | .shorthand node id => g.mark node ++ g.ident id
  | .spread node value => expr value ++ g.mark node
  | .method kind k f => g.method kind k ++ key k ++ func f

def properties : List (Property μ ν) → List α
  | [] => []
  | p :: rest => property p ++ properties rest

def binding : Binding μ ν → List α
  | .ident id => g.ident id
  | .array node slots rest => bindingSlots slots ++ optBinding rest ++ g.mark node ++ g.holes slots
  | .object node ps rest => bindingProperties ps ++ g.mark node ++ g.optIdent rest

def optBinding : Option (Binding μ ν) → List α
  | none => []
  | some b => binding b

def bindingElement : BindingElement μ ν → List α
  | .mk node .nameFirst b init => binding b ++ optExpr init ++ g.mark node
  | .mk node .valueFirst b init => optExpr init ++ binding b ++ g.mark node

def bindingElements : List (BindingElement μ ν) → List α
  | [] => []
  | e :: rest => bindingElement e ++ bindingElements rest

/-- The elements of a pattern, without its holes. -/
def bindingSlots : List (Slot μ (BindingElement μ ν)) → List α
  | [] => []
  | .hole _ :: rest => bindingSlots rest
  | .element e :: rest => bindingElement e ++ bindingSlots rest

def bindingProperty : BindingProperty μ ν → List α
  | .shorthand node id init => optExpr init ++ g.mark node ++ g.ident id
  | .keyed node k e => key k ++ bindingElement e ++ g.mark node

def bindingProperties : List (BindingProperty μ ν) → List α
  | [] => []
  | p :: rest => bindingProperty p ++ bindingProperties rest

def target : Target μ ν → List α
  | .ident id => g.ident id
  | .member node object _ => expr object ++ g.mark node
  | .index node object k => expr object ++ expr k ++ g.mark node
  | .array node slots rest => targetSlots slots ++ optTarget rest ++ g.mark node ++ g.holes slots
  | .object node ps rest => targetProperties ps ++ optTarget rest ++ g.mark node

def optTarget : Option (Target μ ν) → List α
  | none => []
  | some t => target t

def targetElement : TargetElement μ ν → List α
  | .mk node t init => target t ++ optExpr init ++ g.mark node

/-- The elements of a pattern, without its holes. -/
def targetSlots : List (Slot μ (TargetElement μ ν)) → List α
  | [] => []
  | .hole _ :: rest => targetSlots rest
  | .element e :: rest => targetElement e ++ targetSlots rest

def targetProperty : TargetProperty μ ν → List α
  | .shorthand node id init => optExpr init ++ g.mark node ++ g.ident id
  | .keyed node k e => key k ++ targetElement e ++ g.mark node

def targetProperties : List (TargetProperty μ ν) → List α
  | [] => []
  | p :: rest => targetProperty p ++ targetProperties rest

def clauses : List (Clause μ ν) → List α
  | [] => []
  | .mk node test statements :: rest =>
    optExpr test ++ stmts statements ++ g.mark node ++ clauses rest

end

/-- The parts of a catch clause, without its own nodes. -/
def handlerParts : Handler μ ν → List α
  | .mk _ b _ statements => g.optBinding b ++ g.stmts statements

def importSpecifiers : List (ImportSpecifier μ ν) → List α
  | [] => []
  | s :: rest => g.mark s.node ++ g.ident s.binding ++ importSpecifiers rest

def reexportSpecifiers : List (ReexportSpecifier μ ν) → List α
  | [] => []
  | s :: rest => g.mark s.node ++ reexportSpecifiers rest

def exportSpecifiers : List (ExportSpecifier μ ν) → List α
  | [] => []
  | s :: rest => g.mark s.node ++ g.ident s.id ++ exportSpecifiers rest

def item : Item μ ν → List α
  | .stmt s => g.stmt s
  | .imports node _ defaultBinding nameSpace named =>
    g.mark node ++ g.importSpecifiers named ++ g.optIdent defaultBinding ++ g.optIdent nameSpace
  | .exportAll node _ => g.mark node
  | .exportFrom node _ names => g.mark node ++ g.reexportSpecifiers names
  | .exportLocals node names => g.mark node ++ g.exportSpecifiers names
  | .exportStmt s => g.stmt s
  | .exportDefaultFunction f => g.func f
  | .exportDefaultClass c => g.classTree c
  | .exportDefaultExpr value => g.expr value

def items : List (Item μ ν) → List α
  | [] => []
  | i :: rest => g.item i ++ items rest

def program : Program μ ν → List α
  | .script node ds statements => g.stmts statements ++ g.mark node ++ g.directives ds
  | .module node ds is => g.items is ++ g.mark node ++ g.directives ds

attribute [simp] expr optExpr exprs stmt stmts func body classTree members key property
  properties binding optBinding bindingElements bindingSlots bindingProperty
  bindingProperties target optTarget targetElement targetSlots targetProperty targetProperties
  clauses handlerParts item items program

/-- The marks of all nodes. -/
def marks : Gathering μ ν μ where
  mark node := [node]
  method _ _ := []

end Gathering

/-- The nodes of a program, parts before wholes. -/
def Program.nodes {μ ν : Type} (p : Program μ ν) : List μ := Gathering.marks.program p

end ScopeAnalysis
