import ScopeAnalysis.Decimal.Double
import ScopeAnalysis.Program.Node
import ScopeAnalysis.Program.Operator

/-!
# Program trees

The trees of JavaScript programs, over a type `μ` of node marks and a type `ν` of names. A draft
marks its nodes with spans and holds names as texts; a numbered program marks its nodes with their
numbers and holds interned names.

Whatever has a number of its own has a mark: parameter lists, declaration lists, case blocks,
pattern holes, specifiers and directives as well as expressions and statements.
-/

namespace ScopeAnalysis

inductive Literal (ν : Type) where
  | string (value : ν)
  | number (value : Double)
  | boolean (value : Bool)
  | null
  | regex (pattern flags : ν)

/-- Keywords that stand for a value. -/
inductive KeywordValue where
  | this | super | newTarget
  deriving DecidableEq, Repr

inductive JumpKind where
  | break | continue
  deriving DecidableEq, Repr

/-- What a loop over a collection runs through. -/
inductive EachKind where
  | keys | values | awaitedValues
  deriving DecidableEq, Repr

inductive MethodKind where
  | method | getter | setter
  deriving DecidableEq, Repr

/-- Which of a name and its initial value is numbered first. It has no meaning of its own once the
numbers have been handed out. -/
inductive ElementOrder where
  | nameFirst | valueFirst
  deriving DecidableEq, Repr

/-- A place in an array pattern. -/
inductive Slot (μ β : Type) where
  | hole (node : μ)
  | element (element : β)

mutual

inductive Expr (μ ν : Type) where
  | ident (id : Ident μ ν)
  | literal (node : μ) (value : Literal ν)
  | keyword (node : μ) (value : KeywordValue)
  /-- A missing element of an array literal. -/
  | hole (node : μ)
  | template (node : μ) (tag : Option (Expr μ ν)) (parts : List (Expr μ ν))
  | array (node : μ) (elements : List (Expr μ ν))
  | object (node : μ) (properties : List (Property μ ν))
  | member (node : μ) (object : Expr μ ν) (name : ν)
  | index (node : μ) (object key : Expr μ ν)
  | call (node : μ) (callee : Expr μ ν) (arguments : List (Expr μ ν))
  | construct (node : μ) (callee : Expr μ ν) (arguments : List (Expr μ ν))
  | function (f : Func μ ν)
  | arrow (f : Func μ ν)
  | class_ (c : Class μ ν)
  | assign (node : μ) (op : AssignmentOperator) (target : Target μ ν) (value : Expr μ ν)
  | binary (node : μ) (left : Expr μ ν) (op : BinaryOperator) (right : Expr μ ν)
  | conditional (node : μ) (test yes no : Expr μ ν)
  | delete (node : μ) (operand : Expr μ ν)
  | unary (node : μ) (op : UnaryOperator) (operand : Expr μ ν)
  | update (node : μ) (op : UpdateOperator) (before : Bool) (operand : Target μ ν)
  | yield (node : μ) (operand : Option (Expr μ ν))
  | spread (node : μ) (operand : Expr μ ν)

inductive Stmt (μ ν : Type) where
  | expr (node : μ) (value : Expr μ ν)
  | decl (node list : μ) (kind : VariableKind) (declarators : List (BindingElement μ ν))
  | block (node : μ) (body : List (Stmt μ ν))
  | empty (node : μ)
  | debugger (node : μ)
  | jump (node : μ) (kind : JumpKind) (label : Option ν)
  | labeled (node : μ) (label : ν) (body : Stmt μ ν)
  | ifThen (node : μ) (test : Expr μ ν) (yes : Stmt μ ν)
  | ifElse (node : μ) (test : Expr μ ν) (yes no : Stmt μ ν)
  | forLoop (node : μ) (init test update : Option (Expr μ ν)) (body : Stmt μ ν)
  | forDecl (node list : μ) (kind : VariableKind) (declarators : List (BindingElement μ ν))
      (test update : Option (Expr μ ν)) (body : Stmt μ ν)
  | forEach (node : μ) (each : EachKind) (target : Target μ ν) (collection : Expr μ ν)
      (body : Stmt μ ν)
  | forEachDecl (node : μ) (each : EachKind) (list : μ) (kind : VariableKind)
      (declarators : List (BindingElement μ ν)) (collection : Expr μ ν) (body : Stmt μ ν)
  | whileLoop (node : μ) (test : Expr μ ν) (body : Stmt μ ν)
  | doLoop (node : μ) (body : Stmt μ ν) (test : Expr μ ν)
  | ret (node : μ) (value : Option (Expr μ ν))
  | throw (node : μ) (value : Expr μ ν)
  | withObject (node : μ) (object : Expr μ ν) (body : Stmt μ ν)
  | switch (node : μ) (discriminant : Expr μ ν) (caseBlock : μ) (clauses : List (Clause μ ν))
  | tryCatch (node block : μ) (body : List (Stmt μ ν)) (handler : Handler μ ν)
  | tryFinally (node block : μ) (body : List (Stmt μ ν)) (last : μ) (finalizer : List (Stmt μ ν))
  | tryCatchFinally (node block : μ) (body : List (Stmt μ ν)) (handler : Handler μ ν) (last : μ)
      (finalizer : List (Stmt μ ν))
  | function (f : Func μ ν)
  | class_ (c : Class μ ν)

/-- A function of any form. Declarations and function expressions may have a name; only arrows may
have a concise body. -/
inductive Func (μ ν : Type) where
  | mk (node : μ) (name : Option (Ident μ ν)) (flags : FunctionFlags) (params : Params μ ν)
      (body : Body μ ν)

/-- A parameter list. Getters and setters have none, so their parameters stand without a node of
the list. -/
inductive Params (μ ν : Type) where
  | mk (node : Option μ) (items : List (BindingElement μ ν)) (rest : Option (Binding μ ν))

inductive Body (μ ν : Type) where
  | block (node : μ) (directives : List (Directive μ ν)) (statements : List (Stmt μ ν))
  /-- The value of an arrow that has no block. -/
  | concise (value : Expr μ ν)

inductive Class (μ ν : Type) where
  | mk (node : μ) (name : Option (Ident μ ν)) (heritage : Option (Expr μ ν))
      (members : List (Member μ ν))

/-- A method or accessor of a class. -/
inductive Member (μ ν : Type) where
  | mk (node : μ) (isStatic : Bool) (kind : MethodKind) (key : Key μ ν) (f : Func μ ν)

/-- The key of a property. It is no use of a variable, whatever a computed key contains apart. -/
inductive Key (μ ν : Type) where
  | ident (id : Ident μ ν)
  | string (node : μ) (value : ν)
  | number (node : μ) (value : Double)
  | computed (node : μ) (value : Expr μ ν)

inductive Property (μ ν : Type) where
  | keyed (node : μ) (key : Key μ ν) (value : Expr μ ν)
  | shorthand (node : μ) (id : Ident μ ν)
  | spread (node : μ) (value : Expr μ ν)
  | method (kind : MethodKind) (key : Key μ ν) (f : Func μ ν)

/-- What a declaration binds. -/
inductive Binding (μ ν : Type) where
  | ident (id : Ident μ ν)
  | array (node : μ) (slots : List (Slot μ (BindingElement μ ν))) (rest : Option (Binding μ ν))
  | object (node : μ) (properties : List (BindingProperty μ ν)) (rest : Option (Ident μ ν))

/-- A binding with an optional initial value: a declarator, a parameter, or a part of a pattern. -/
inductive BindingElement (μ ν : Type) where
  | mk (node : μ) (order : ElementOrder) (binding : Binding μ ν) (init : Option (Expr μ ν))

inductive BindingProperty (μ ν : Type) where
  | shorthand (node : μ) (id : Ident μ ν) (init : Option (Expr μ ν))
  | keyed (node : μ) (key : Key μ ν) (element : BindingElement μ ν)

/-- What an assignment or an update writes. -/
inductive Target (μ ν : Type) where
  | ident (id : Ident μ ν)
  | member (node : μ) (object : Expr μ ν) (name : ν)
  | index (node : μ) (object key : Expr μ ν)
  | array (node : μ) (slots : List (Slot μ (TargetElement μ ν))) (rest : Option (Target μ ν))
  | object (node : μ) (properties : List (TargetProperty μ ν)) (rest : Option (Target μ ν))

inductive TargetElement (μ ν : Type) where
  | mk (node : μ) (target : Target μ ν) (init : Option (Expr μ ν))

inductive TargetProperty (μ ν : Type) where
  | shorthand (node : μ) (id : Ident μ ν) (init : Option (Expr μ ν))
  | keyed (node : μ) (key : Key μ ν) (element : TargetElement μ ν)

/-- A clause of a switch; the default clause has no test. -/
inductive Clause (μ ν : Type) where
  | mk (node : μ) (test : Option (Expr μ ν)) (body : List (Stmt μ ν))

/-- A catch clause with its block. -/
inductive Handler (μ ν : Type) where
  | mk (node : μ) (binding : Option (Binding μ ν)) (block : μ) (body : List (Stmt μ ν))

end

/-- One name of an import list. -/
structure ImportSpecifier (μ ν : Type) where
  node : μ
  /-- The name in the other module, where it differs from the local one. -/
  imported : Option ν
  binding : Ident μ ν

/-- A name that a module passes on from another one. -/
structure ReexportSpecifier (μ ν : Type) where
  node : μ
  name : ν

/-- A local name that a module exports; it reads the local binding. -/
structure ExportSpecifier (μ ν : Type) where
  node : μ
  id : Ident μ ν

inductive Item (μ ν : Type) where
  | stmt (s : Stmt μ ν)
  | imports (node : μ) (source : ν) (defaultBinding nameSpace : Option (Ident μ ν))
      (named : List (ImportSpecifier μ ν))
  | exportAll (node : μ) (source : ν)
  | exportFrom (node : μ) (source : ν) (names : List (ReexportSpecifier μ ν))
  | exportLocals (node : μ) (names : List (ExportSpecifier μ ν))
  | exportStmt (s : Stmt μ ν)
  | exportDefaultFunction (f : Func μ ν)
  | exportDefaultClass (c : Class μ ν)
  | exportDefaultExpr (value : Expr μ ν)

inductive Program (μ ν : Type) where
  | script (node : μ) (directives : List (Directive μ ν)) (statements : List (Stmt μ ν))
  | module (node : μ) (directives : List (Directive μ ν)) (items : List (Item μ ν))

namespace Program

variable {μ ν : Type}

def node : Program μ ν → μ
  | .script node _ _ | .module node _ _ => node

def directives : Program μ ν → List (Directive μ ν)
  | .script _ directives _ | .module _ directives _ => directives

def isModule : Program μ ν → Bool
  | .script .. => false
  | .module .. => true

end Program

/-- A program before numbers are handed out. -/
abbrev Draft := Program Span String

/-- A program whose nodes are numbered and whose names are interned. -/
abbrev NumberedProgram := Program Node Name

end ScopeAnalysis
