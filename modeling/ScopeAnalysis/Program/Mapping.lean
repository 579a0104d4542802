import ScopeAnalysis.Program.Tree

/-!
# Mapping programs

A mapping goes through a whole program and gives it other marks, other names and other flags of
functions. The shape of the program stays. An identifier that binds, writes or uses a variable gets
its name as a variable. Keys of properties, labels, directives and literals are no variables; they
are texts and are mapped apart.
-/

namespace ScopeAnalysis

structure Mapping (μ ν μ' ν' : Type) where
  node : μ → μ'
  /-- The name of an identifier that stands for a variable. -/
  name : Ident μ ν → ν'
  /-- What becomes of any other text: of a key, a label, a directive or a literal. -/
  text : ν → ν'
  flags : μ → FunctionFlags → FunctionFlags

namespace Mapping

variable {μ ν μ' ν' : Type}

/-- Maps every text alike and leaves the flags of functions alone. -/
def plain (node : μ → μ') (text : ν → ν') : Mapping μ ν μ' ν' :=
  ⟨node, fun id => text id.name, text, fun _ flags => flags⟩

variable (m : Mapping μ ν μ' ν')

def ident (id : Ident μ ν) : Ident μ' ν' := ⟨m.node id.node, m.name id⟩

def literal : Literal ν → Literal ν'
  | .string value => .string (m.text value)
  | .number value => .number value
  | .boolean value => .boolean value
  | .null => .null
  | .regex pattern flags => .regex (m.text pattern) (m.text flags)

def directive (d : Directive μ ν) : Directive μ' ν' := ⟨m.node d.node, m.text d.text⟩

mutual

def expr : Expr μ ν → Expr μ' ν'
  | .ident id => .ident (m.ident id)
  | .literal node value => .literal (m.node node) (m.literal value)
  | .keyword node value => .keyword (m.node node) value
  | .hole node => .hole (m.node node)
  | .template node tag parts => .template (m.node node) (optExpr tag) (exprs parts)
  | .array node elements => .array (m.node node) (exprs elements)
  | .object node ps => .object (m.node node) (properties ps)
  | .member node object field => .member (m.node node) (expr object) (m.text field)
  | .index node object k => .index (m.node node) (expr object) (expr k)
  | .call node callee arguments => .call (m.node node) (expr callee) (exprs arguments)
  | .construct node callee arguments => .construct (m.node node) (expr callee) (exprs arguments)
  | .function g => .function (func g)
  | .arrow g => .arrow (func g)
  | .class_ c => .class_ (classTree c)
  | .assign node op t value => .assign (m.node node) op (target t) (expr value)
  | .binary node left op right => .binary (m.node node) (expr left) op (expr right)
  | .conditional node test yes no => .conditional (m.node node) (expr test) (expr yes) (expr no)
  | .delete node operand => .delete (m.node node) (expr operand)
  | .unary node op operand => .unary (m.node node) op (expr operand)
  | .update node op before operand => .update (m.node node) op before (target operand)
  | .yield node operand => .yield (m.node node) (optExpr operand)
  | .spread node operand => .spread (m.node node) (expr operand)

def optExpr : Option (Expr μ ν) → Option (Expr μ' ν')
  | none => none
  | some e => some (expr e)

def exprs : List (Expr μ ν) → List (Expr μ' ν')
  | [] => []
  | e :: rest => expr e :: exprs rest

def property : Property μ ν → Property μ' ν'
  | .keyed node k value => .keyed (m.node node) (key k) (expr value)
  | .shorthand node id => .shorthand (m.node node) (m.ident id)
  | .spread node value => .spread (m.node node) (expr value)
  | .method kind k g => .method kind (key k) (func g)

def properties : List (Property μ ν) → List (Property μ' ν')
  | [] => []
  | p :: rest => property p :: properties rest

def members : List (Member μ ν) → List (Member μ' ν')
  | [] => []
  | .mk node isStatic kind k g :: rest =>
    .mk (m.node node) isStatic kind (key k) (func g) :: members rest

/-- A key is no variable, but a computed one may use some. -/
def key : Key μ ν → Key μ' ν'
  | .ident id => .ident ⟨m.node id.node, m.text id.name⟩
  | .string node value => .string (m.node node) (m.text value)
  | .number node value => .number (m.node node) value
  | .computed node value => .computed (m.node node) (expr value)

def classTree : Class μ ν → Class μ' ν'
  | .mk node name heritage ms =>
    .mk (m.node node) (name.map m.ident) (optExpr heritage) (members ms)

def func : Func μ ν → Func μ' ν'
  | .mk node name flags ps b =>
    .mk (m.node node) (name.map m.ident) (m.flags node flags) (params ps) (body b)

def params : Params μ ν → Params μ' ν'
  | .mk node items rest => .mk (node.map m.node) (elements items) (optBinding rest)

def body : Body μ ν → Body μ' ν'
  | .block node directives statements =>
    .block (m.node node) (directives.map m.directive) (stmts statements)
  | .concise value => .concise (expr value)

def binding : Binding μ ν → Binding μ' ν'
  | .ident id => .ident (m.ident id)
  | .array node slots rest => .array (m.node node) (bindingSlots slots) (optBinding rest)
  | .object node ps rest => .object (m.node node) (bindingProperties ps) (rest.map m.ident)

def optBinding : Option (Binding μ ν) → Option (Binding μ' ν')
  | none => none
  | some b => some (binding b)

def element : BindingElement μ ν → BindingElement μ' ν'
  | .mk node order b init => .mk (m.node node) order (binding b) (optExpr init)

def elements : List (BindingElement μ ν) → List (BindingElement μ' ν')
  | [] => []
  | e :: rest => element e :: elements rest

def bindingSlots : List (Slot μ (BindingElement μ ν)) →
    List (Slot μ' (BindingElement μ' ν'))
  | [] => []
  | .hole node :: rest => .hole (m.node node) :: bindingSlots rest
  | .element e :: rest => .element (element e) :: bindingSlots rest

def bindingProperty : BindingProperty μ ν → BindingProperty μ' ν'
  | .shorthand node id init => .shorthand (m.node node) (m.ident id) (optExpr init)
  | .keyed node k e => .keyed (m.node node) (key k) (element e)

def bindingProperties : List (BindingProperty μ ν) → List (BindingProperty μ' ν')
  | [] => []
  | p :: rest => bindingProperty p :: bindingProperties rest

def target : Target μ ν → Target μ' ν'
  | .ident id => .ident (m.ident id)
  | .member node object field => .member (m.node node) (expr object) (m.text field)
  | .index node object k => .index (m.node node) (expr object) (expr k)
  | .array node slots rest => .array (m.node node) (targetSlots slots) (optTarget rest)
  | .object node ps rest => .object (m.node node) (targetProperties ps) (optTarget rest)

def optTarget : Option (Target μ ν) → Option (Target μ' ν')
  | none => none
  | some t => some (target t)

def targetElement : TargetElement μ ν → TargetElement μ' ν'
  | .mk node t init => .mk (m.node node) (target t) (optExpr init)

def targetSlots : List (Slot μ (TargetElement μ ν)) →
    List (Slot μ' (TargetElement μ' ν'))
  | [] => []
  | .hole node :: rest => .hole (m.node node) :: targetSlots rest
  | .element e :: rest => .element (targetElement e) :: targetSlots rest

def targetProperty : TargetProperty μ ν → TargetProperty μ' ν'
  | .shorthand node id init => .shorthand (m.node node) (m.ident id) (optExpr init)
  | .keyed node k e => .keyed (m.node node) (key k) (targetElement e)

def targetProperties : List (TargetProperty μ ν) → List (TargetProperty μ' ν')
  | [] => []
  | p :: rest => targetProperty p :: targetProperties rest

def stmt : Stmt μ ν → Stmt μ' ν'
  | .expr node value => .expr (m.node node) (expr value)
  | .decl node list kind ds => .decl (m.node node) (m.node list) kind (elements ds)
  | .block node statements => .block (m.node node) (stmts statements)
  | .empty node => .empty (m.node node)
  | .debugger node => .debugger (m.node node)
  | .jump node kind label => .jump (m.node node) kind (label.map m.text)
  | .labeled node label s => .labeled (m.node node) (m.text label) (stmt s)
  | .ifThen node test yes => .ifThen (m.node node) (expr test) (stmt yes)
  | .ifElse node test yes no => .ifElse (m.node node) (expr test) (stmt yes) (stmt no)
  | .forLoop node init test update s =>
    .forLoop (m.node node) (optExpr init) (optExpr test) (optExpr update) (stmt s)
  | .forDecl node list kind ds test update s =>
    .forDecl (m.node node) (m.node list) kind (elements ds) (optExpr test) (optExpr update) (stmt s)
  | .forEach node each t collection s =>
    .forEach (m.node node) each (target t) (expr collection) (stmt s)
  | .forEachDecl node each list kind ds collection s =>
    .forEachDecl (m.node node) each (m.node list) kind (elements ds) (expr collection) (stmt s)
  | .whileLoop node test s => .whileLoop (m.node node) (expr test) (stmt s)
  | .doLoop node s test => .doLoop (m.node node) (stmt s) (expr test)
  | .ret node value => .ret (m.node node) (optExpr value)
  | .throw node value => .throw (m.node node) (expr value)
  | .withObject node object s => .withObject (m.node node) (expr object) (stmt s)
  | .switch node discriminant caseBlock cs =>
    .switch (m.node node) (expr discriminant) (m.node caseBlock) (clauses cs)
  | .tryCatch node block statements h =>
    .tryCatch (m.node node) (m.node block) (stmts statements) (handler h)
  | .tryFinally node block statements last finalizer =>
    .tryFinally (m.node node) (m.node block) (stmts statements) (m.node last) (stmts finalizer)
  | .tryCatchFinally node block statements h last finalizer =>
    .tryCatchFinally (m.node node) (m.node block) (stmts statements) (handler h) (m.node last)
      (stmts finalizer)
  | .function g => .function (func g)
  | .class_ c => .class_ (classTree c)

def stmts : List (Stmt μ ν) → List (Stmt μ' ν')
  | [] => []
  | s :: rest => stmt s :: stmts rest

def handler : Handler μ ν → Handler μ' ν'
  | .mk node b block statements =>
    .mk (m.node node) (optBinding b) (m.node block) (stmts statements)

def clauses : List (Clause μ ν) → List (Clause μ' ν')
  | [] => []
  | .mk node test statements :: rest =>
    .mk (m.node node) (optExpr test) (stmts statements) :: clauses rest

end

def importSpecifier (s : ImportSpecifier μ ν) : ImportSpecifier μ' ν' :=
  ⟨m.node s.node, s.imported.map m.text, m.ident s.binding⟩

def reexportSpecifier (s : ReexportSpecifier μ ν) : ReexportSpecifier μ' ν' :=
  ⟨m.node s.node, m.text s.name⟩

def exportSpecifier (s : ExportSpecifier μ ν) : ExportSpecifier μ' ν' :=
  ⟨m.node s.node, m.ident s.id⟩

def item : Item μ ν → Item μ' ν'
  | .stmt s => .stmt (m.stmt s)
  | .imports node source defaultBinding nameSpace named =>
    .imports (m.node node) (m.text source) (defaultBinding.map m.ident)
      (nameSpace.map m.ident) (named.map m.importSpecifier)
  | .exportAll node source => .exportAll (m.node node) (m.text source)
  | .exportFrom node source names =>
    .exportFrom (m.node node) (m.text source) (names.map m.reexportSpecifier)
  | .exportLocals node names => .exportLocals (m.node node) (names.map m.exportSpecifier)
  | .exportStmt s => .exportStmt (m.stmt s)
  | .exportDefaultFunction g => .exportDefaultFunction (m.func g)
  | .exportDefaultClass c => .exportDefaultClass (m.classTree c)
  | .exportDefaultExpr value => .exportDefaultExpr (m.expr value)

end Mapping

def Program.map {μ ν μ' ν' : Type} (m : Mapping μ ν μ' ν') : Program μ ν → Program μ' ν'
  | .script node directives statements =>
    .script (m.node node) (directives.map m.directive) (m.stmts statements)
  | .module node directives items =>
    .module (m.node node) (directives.map m.directive) (items.map m.item)

end ScopeAnalysis
