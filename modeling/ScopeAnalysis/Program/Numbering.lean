import ScopeAnalysis.Program.Tree

/-!
# Numbering drafts

Numbering turns a draft into a program: every node gets the next free number and every name is
interned. The parts of a node are numbered from left to right before the node itself, and a node's
own identifiers, holes and directives after it.

Three forms have an order of their own. An element may number its initial value before its name.
A `try` with a catch clause alone numbers that clause after itself, and one with a finally block
before itself.
-/

namespace ScopeAnalysis

/-- What has been handed out so far: names, and node numbers from zero up to the next one. The
counter has 32 bits and starts again at zero when they are used up. -/
structure Workbench where
  names : Interner
  next : BitVec 32
  deriving DecidableEq, Repr

namespace Workbench

def empty : Workbench := ⟨.empty, 0⟩

/-- The number of nodes so far, as the counter shows it. -/
def nodeCount (bench : Workbench) : Nat := bench.next.toNat

end Workbench

/-- A step that hands out names and numbers. -/
abbrev Numbering := StateM Workbench

namespace Numbering

/-- Takes the next number for a node. -/
def node (span : Span) : Numbering Node := fun bench =>
  (⟨⟨bench.next⟩, span⟩, { bench with next := bench.next + 1 })

/-- Interns a text. -/
def name (text : String) : Numbering Name := fun bench =>
  let (name, names) := bench.names.intern text
  (name, { bench with names })

def optName : Option String → Numbering (Option Name)
  | none => pure none
  | some text => do
    let n ← name text
    pure (some n)

def ident (id : Ident Span String) : Numbering Occurrence := do
  let n ← node id.node
  let text ← name id.name
  pure ⟨n, text⟩

def optIdent : Option (Ident Span String) → Numbering (Option Occurrence)
  | none => pure none
  | some id => do
    let id ← ident id
    pure (some id)

def directives : List (Directive Span String) → Numbering (List (Directive Node Name))
  | [] => pure []
  | d :: rest => do
    let n ← node d.node
    let text ← name d.text
    let rest ← directives rest
    pure (⟨n, text⟩ :: rest)

def literal : Literal String → Numbering (Literal Name)
  | .string value => do
    let value ← name value
    pure (.string value)
  | .number value => pure (.number value)
  | .boolean value => pure (.boolean value)
  | .null => pure .null
  | .regex pattern flags => do
    let pattern ← name pattern
    let flags ← name flags
    pure (.regex pattern flags)

/-- Numbers the holes of a pattern whose elements are numbered already. -/
def holes {β : Type} : List (Slot Span β) → Numbering (List (Slot Node β))
  | [] => pure []
  | .hole span :: rest => do
    let n ← node span
    let rest ← holes rest
    pure (.hole n :: rest)
  | .element e :: rest => do
    let rest ← holes rest
    pure (.element e :: rest)

mutual

def expr : Expr Span String → Numbering (Expr Node Name)
  | .ident id => do
    let id ← ident id
    pure (.ident id)
  | .literal n value => do
    let n ← node n
    let value ← literal value
    pure (.literal n value)
  | .keyword n value => do
    let n ← node n
    pure (.keyword n value)
  | .hole n => do
    let n ← node n
    pure (.hole n)
  | .template n tag parts => do
    let tag ← optExpr tag
    let parts ← exprs parts
    let n ← node n
    pure (.template n tag parts)
  | .array n elements => do
    let elements ← exprs elements
    let n ← node n
    pure (.array n elements)
  | .object n ps => do
    let ps ← properties ps
    let n ← node n
    pure (.object n ps)
  | .member n object field => do
    let object ← expr object
    let n ← node n
    let field ← name field
    pure (.member n object field)
  | .index n object key => do
    let object ← expr object
    let key ← expr key
    let n ← node n
    pure (.index n object key)
  | .call n callee arguments => do
    let callee ← expr callee
    let arguments ← exprs arguments
    let n ← node n
    pure (.call n callee arguments)
  | .construct n callee arguments => do
    let callee ← expr callee
    let arguments ← exprs arguments
    let n ← node n
    pure (.construct n callee arguments)
  | .function f => do
    let f ← func f
    pure (.function f)
  | .arrow f => do
    let f ← func f
    pure (.arrow f)
  | .class_ c => do
    let c ← classTree c
    pure (.class_ c)
  | .assign n op t value => do
    let t ← target t
    let value ← expr value
    let n ← node n
    pure (.assign n op t value)
  | .binary n left op right => do
    let left ← expr left
    let right ← expr right
    let n ← node n
    pure (.binary n left op right)
  | .conditional n test yes no => do
    let test ← expr test
    let yes ← expr yes
    let no ← expr no
    let n ← node n
    pure (.conditional n test yes no)
  | .delete n operand => do
    let operand ← expr operand
    let n ← node n
    pure (.delete n operand)
  | .unary n op operand => do
    let operand ← expr operand
    let n ← node n
    pure (.unary n op operand)
  | .update n op before operand => do
    let operand ← target operand
    let n ← node n
    pure (.update n op before operand)
  | .yield n operand => do
    let operand ← optExpr operand
    let n ← node n
    pure (.yield n operand)
  | .spread n operand => do
    let operand ← expr operand
    let n ← node n
    pure (.spread n operand)

def optExpr : Option (Expr Span String) → Numbering (Option (Expr Node Name))
  | none => pure none
  | some e => do
    let e ← expr e
    pure (some e)

def exprs : List (Expr Span String) → Numbering (List (Expr Node Name))
  | [] => pure []
  | e :: rest => do
    let e ← expr e
    let rest ← exprs rest
    pure (e :: rest)

def stmt : Stmt Span String → Numbering (Stmt Node Name)
  | .expr n value => do
    let value ← expr value
    let n ← node n
    pure (.expr n value)
  | .decl n list kind declarators => do
    let declarators ← bindingElements declarators
    let n ← node n
    let list ← node list
    pure (.decl n list kind declarators)
  | .block n body => do
    let body ← stmts body
    let n ← node n
    pure (.block n body)
  | .empty n => do
    let n ← node n
    pure (.empty n)
  | .debugger n => do
    let n ← node n
    pure (.debugger n)
  | .jump n kind label => do
    let n ← node n
    let label ← optName label
    pure (.jump n kind label)
  | .labeled n label body => do
    let body ← stmt body
    let n ← node n
    let label ← name label
    pure (.labeled n label body)
  | .ifThen n test yes => do
    let test ← expr test
    let yes ← stmt yes
    let n ← node n
    pure (.ifThen n test yes)
  | .ifElse n test yes no => do
    let test ← expr test
    let yes ← stmt yes
    let no ← stmt no
    let n ← node n
    pure (.ifElse n test yes no)
  | .forLoop n init test update body => do
    let init ← optExpr init
    let test ← optExpr test
    let update ← optExpr update
    let body ← stmt body
    let n ← node n
    pure (.forLoop n init test update body)
  | .forDecl n list kind declarators test update body => do
    let declarators ← bindingElements declarators
    let list ← node list
    let test ← optExpr test
    let update ← optExpr update
    let body ← stmt body
    let n ← node n
    pure (.forDecl n list kind declarators test update body)
  | .forEach n each t collection body => do
    let t ← target t
    let collection ← expr collection
    let body ← stmt body
    let n ← node n
    pure (.forEach n each t collection body)
  | .forEachDecl n each list kind declarators collection body => do
    let declarators ← bindingElements declarators
    let list ← node list
    let collection ← expr collection
    let body ← stmt body
    let n ← node n
    pure (.forEachDecl n each list kind declarators collection body)
  | .whileLoop n test body => do
    let test ← expr test
    let body ← stmt body
    let n ← node n
    pure (.whileLoop n test body)
  | .doLoop n body test => do
    let body ← stmt body
    let test ← expr test
    let n ← node n
    pure (.doLoop n body test)
  | .ret n value => do
    let value ← optExpr value
    let n ← node n
    pure (.ret n value)
  | .throw n value => do
    let value ← expr value
    let n ← node n
    pure (.throw n value)
  | .withObject n object body => do
    let object ← expr object
    let body ← stmt body
    let n ← node n
    pure (.withObject n object body)
  | .switch n discriminant caseBlock cs => do
    let discriminant ← expr discriminant
    let cs ← clauses cs
    let n ← node n
    let caseBlock ← node caseBlock
    pure (.switch n discriminant caseBlock cs)
  | .tryCatch n block body (.mk clause b handlerBlock handler) => do
    let body ← stmts body
    let b ← optBinding b
    let handler ← stmts handler
    let n ← node n
    let block ← node block
    let clause ← node clause
    let handlerBlock ← node handlerBlock
    pure (.tryCatch n block body (.mk clause b handlerBlock handler))
  | .tryFinally n block body last finalizer => do
    let body ← stmts body
    let finalizer ← stmts finalizer
    let n ← node n
    let block ← node block
    let last ← node last
    pure (.tryFinally n block body last finalizer)
  | .tryCatchFinally n block body (.mk clause b handlerBlock handler) last finalizer => do
    let body ← stmts body
    let b ← optBinding b
    let handler ← stmts handler
    let clause ← node clause
    let handlerBlock ← node handlerBlock
    let finalizer ← stmts finalizer
    let n ← node n
    let block ← node block
    let last ← node last
    pure (.tryCatchFinally n block body (.mk clause b handlerBlock handler) last finalizer)
  | .function f => do
    let f ← func f
    pure (.function f)
  | .class_ c => do
    let c ← classTree c
    pure (.class_ c)

def stmts : List (Stmt Span String) → Numbering (List (Stmt Node Name))
  | [] => pure []
  | s :: rest => do
    let s ← stmt s
    let rest ← stmts rest
    pure (s :: rest)

def func : Func Span String → Numbering (Func Node Name)
  | .mk n id flags ps b => do
    let ps ← params ps
    let b ← body b
    let n ← node n
    let id ← optIdent id
    pure (.mk n id flags ps b)

def params : Params Span String → Numbering (Params Node Name)
  | .mk none items rest => do
    let items ← bindingElements items
    let rest ← optBinding rest
    pure (.mk none items rest)
  | .mk (some n) items rest => do
    let items ← bindingElements items
    let rest ← optBinding rest
    let n ← node n
    pure (.mk (some n) items rest)

def body : Body Span String → Numbering (Body Node Name)
  | .block n ds statements => do
    let statements ← stmts statements
    let n ← node n
    let ds ← directives ds
    pure (.block n ds statements)
  | .concise value => do
    let value ← expr value
    pure (.concise value)

def classTree : Class Span String → Numbering (Class Node Name)
  | .mk n id heritage ms => do
    let heritage ← optExpr heritage
    let ms ← members ms
    let n ← node n
    let id ← optIdent id
    pure (.mk n id heritage ms)

def members : List (Member Span String) → Numbering (List (Member Node Name))
  | [] => pure []
  | .mk n isStatic kind k f :: rest => do
    let k ← key k
    let f ← func f
    let n ← node n
    let rest ← members rest
    pure (.mk n isStatic kind k f :: rest)

def key : Key Span String → Numbering (Key Node Name)
  | .ident id => do
    let id ← ident id
    pure (.ident id)
  | .string n value => do
    let n ← node n
    let value ← name value
    pure (.string n value)
  | .number n value => do
    let n ← node n
    pure (.number n value)
  | .computed n value => do
    let value ← expr value
    let n ← node n
    pure (.computed n value)

def property : Property Span String → Numbering (Property Node Name)
  | .keyed n k value => do
    let k ← key k
    let value ← expr value
    let n ← node n
    pure (.keyed n k value)
  | .shorthand n id => do
    let n ← node n
    let id ← ident id
    pure (.shorthand n id)
  | .spread n value => do
    let value ← expr value
    let n ← node n
    pure (.spread n value)
  | .method kind k f => do
    let k ← key k
    let f ← func f
    pure (.method kind k f)

def properties : List (Property Span String) → Numbering (List (Property Node Name))
  | [] => pure []
  | p :: rest => do
    let p ← property p
    let rest ← properties rest
    pure (p :: rest)

def binding : Binding Span String → Numbering (Binding Node Name)
  | .ident id => do
    let id ← ident id
    pure (.ident id)
  | .array n slots rest => do
    let slots ← bindingSlots slots
    let rest ← optBinding rest
    let n ← node n
    let slots ← holes slots
    pure (.array n slots rest)
  | .object n ps rest => do
    let ps ← bindingProperties ps
    let n ← node n
    let rest ← optIdent rest
    pure (.object n ps rest)

def optBinding : Option (Binding Span String) → Numbering (Option (Binding Node Name))
  | none => pure none
  | some b => do
    let b ← binding b
    pure (some b)

def bindingElement : BindingElement Span String → Numbering (BindingElement Node Name)
  | .mk n .nameFirst b init => do
    let b ← binding b
    let init ← optExpr init
    let n ← node n
    pure (.mk n .nameFirst b init)
  | .mk n .valueFirst b init => do
    let init ← optExpr init
    let b ← binding b
    let n ← node n
    pure (.mk n .valueFirst b init)

def bindingElements :
    List (BindingElement Span String) → Numbering (List (BindingElement Node Name))
  | [] => pure []
  | e :: rest => do
    let e ← bindingElement e
    let rest ← bindingElements rest
    pure (e :: rest)

/-- Numbers the elements of a pattern and leaves its holes for later. -/
def bindingSlots : List (Slot Span (BindingElement Span String)) →
    Numbering (List (Slot Span (BindingElement Node Name)))
  | [] => pure []
  | .hole span :: rest => do
    let rest ← bindingSlots rest
    pure (.hole span :: rest)
  | .element e :: rest => do
    let e ← bindingElement e
    let rest ← bindingSlots rest
    pure (.element e :: rest)

def bindingProperty : BindingProperty Span String → Numbering (BindingProperty Node Name)
  | .shorthand n id init => do
    let init ← optExpr init
    let n ← node n
    let id ← ident id
    pure (.shorthand n id init)
  | .keyed n k element => do
    let k ← key k
    let element ← bindingElement element
    let n ← node n
    pure (.keyed n k element)

def bindingProperties :
    List (BindingProperty Span String) → Numbering (List (BindingProperty Node Name))
  | [] => pure []
  | p :: rest => do
    let p ← bindingProperty p
    let rest ← bindingProperties rest
    pure (p :: rest)

def target : Target Span String → Numbering (Target Node Name)
  | .ident id => do
    let id ← ident id
    pure (.ident id)
  | .member n object field => do
    let object ← expr object
    let n ← node n
    let field ← name field
    pure (.member n object field)
  | .index n object k => do
    let object ← expr object
    let k ← expr k
    let n ← node n
    pure (.index n object k)
  | .array n slots rest => do
    let slots ← targetSlots slots
    let rest ← optTarget rest
    let n ← node n
    let slots ← holes slots
    pure (.array n slots rest)
  | .object n ps rest => do
    let ps ← targetProperties ps
    let rest ← optTarget rest
    let n ← node n
    pure (.object n ps rest)

def optTarget : Option (Target Span String) → Numbering (Option (Target Node Name))
  | none => pure none
  | some t => do
    let t ← target t
    pure (some t)

def targetElement : TargetElement Span String → Numbering (TargetElement Node Name)
  | .mk n t init => do
    let t ← target t
    let init ← optExpr init
    let n ← node n
    pure (.mk n t init)

/-- Numbers the elements of a pattern and leaves its holes for later. -/
def targetSlots : List (Slot Span (TargetElement Span String)) →
    Numbering (List (Slot Span (TargetElement Node Name)))
  | [] => pure []
  | .hole span :: rest => do
    let rest ← targetSlots rest
    pure (.hole span :: rest)
  | .element e :: rest => do
    let e ← targetElement e
    let rest ← targetSlots rest
    pure (.element e :: rest)

def targetProperty : TargetProperty Span String → Numbering (TargetProperty Node Name)
  | .shorthand n id init => do
    let init ← optExpr init
    let n ← node n
    let id ← ident id
    pure (.shorthand n id init)
  | .keyed n k element => do
    let k ← key k
    let element ← targetElement element
    let n ← node n
    pure (.keyed n k element)

def targetProperties :
    List (TargetProperty Span String) → Numbering (List (TargetProperty Node Name))
  | [] => pure []
  | p :: rest => do
    let p ← targetProperty p
    let rest ← targetProperties rest
    pure (p :: rest)

def clauses : List (Clause Span String) → Numbering (List (Clause Node Name))
  | [] => pure []
  | .mk n test b :: rest => do
    let test ← optExpr test
    let b ← stmts b
    let n ← node n
    let rest ← clauses rest
    pure (.mk n test b :: rest)

end

def importSpecifiers :
    List (ImportSpecifier Span String) → Numbering (List (ImportSpecifier Node Name))
  | [] => pure []
  | s :: rest => do
    let n ← node s.node
    let imported ← optName s.imported
    let id ← ident s.binding
    let rest ← importSpecifiers rest
    pure (⟨n, imported, id⟩ :: rest)

def reexportSpecifiers :
    List (ReexportSpecifier Span String) → Numbering (List (ReexportSpecifier Node Name))
  | [] => pure []
  | s :: rest => do
    let n ← node s.node
    let text ← name s.name
    let rest ← reexportSpecifiers rest
    pure (⟨n, text⟩ :: rest)

def exportSpecifiers :
    List (ExportSpecifier Span String) → Numbering (List (ExportSpecifier Node Name))
  | [] => pure []
  | s :: rest => do
    let n ← node s.node
    let id ← ident s.id
    let rest ← exportSpecifiers rest
    pure (⟨n, id⟩ :: rest)

def item : Item Span String → Numbering (Item Node Name)
  | .stmt s => do
    let s ← stmt s
    pure (.stmt s)
  | .imports n source defaultBinding nameSpace named => do
    let n ← node n
    let named ← importSpecifiers named
    let source ← name source
    let defaultBinding ← optIdent defaultBinding
    let nameSpace ← optIdent nameSpace
    pure (.imports n source defaultBinding nameSpace named)
  | .exportAll n source => do
    let n ← node n
    let source ← name source
    pure (.exportAll n source)
  | .exportFrom n source specifiers => do
    let n ← node n
    let specifiers ← reexportSpecifiers specifiers
    let source ← name source
    pure (.exportFrom n source specifiers)
  | .exportLocals n specifiers => do
    let n ← node n
    let specifiers ← exportSpecifiers specifiers
    pure (.exportLocals n specifiers)
  | .exportStmt s => do
    let s ← stmt s
    pure (.exportStmt s)
  | .exportDefaultFunction f => do
    let f ← func f
    pure (.exportDefaultFunction f)
  | .exportDefaultClass c => do
    let c ← classTree c
    pure (.exportDefaultClass c)
  | .exportDefaultExpr value => do
    let value ← expr value
    pure (.exportDefaultExpr value)

def items : List (Item Span String) → Numbering (List (Item Node Name))
  | [] => pure []
  | i :: rest => do
    let i ← item i
    let rest ← items rest
    pure (i :: rest)

end Numbering

/-- Numbers a draft. -/
def Draft.number : Draft → Numbering NumberedProgram
  | .script n ds statements => do
    let statements ← Numbering.stmts statements
    let n ← Numbering.node n
    let ds ← Numbering.directives ds
    pure (.script n ds statements)
  | .module n ds is => do
    let is ← Numbering.items is
    let n ← Numbering.node n
    let ds ← Numbering.directives ds
    pure (.module n ds is)

end ScopeAnalysis
