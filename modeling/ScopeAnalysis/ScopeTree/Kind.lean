import ScopeAnalysis.Program.Operator

/-!
# Kinds of scopes, declarations and uses
-/

namespace ScopeAnalysis

/-- The construct that opened a scope. -/
inductive ScopeKind where
  /-- The root of every tree: the `var`s and top-level functions of a script, and whatever is used
  without being declared. -/
  | global
  /-- The lexical declarations at the top of a script. -/
  | script
  /-- Every declaration at the top of a module. -/
  | module
  | function
  | arrowFunction
  /-- A block, the head of a loop, the case block of a switch, or the block that an `if` puts
  around a function standing alone in one of its clauses. -/
  | block
  /-- The parameters of a function whose parameter list runs code. -/
  | parameters
  /-- One parameter that runs code. -/
  | parameterExpression
  | catch_
  /-- Always dynamic. -/
  | with_
  /-- A class, binding its own name. -/
  | className
  /-- A named function expression, binding its own name. -/
  | functionName
  deriving DecidableEq, Repr

namespace ScopeKind

def all : List ScopeKind :=
  [.global, .script, .module, .function, .arrowFunction, .block, .parameters,
    .parameterExpression, .catch_, .with_, .className, .functionName]

def text : ScopeKind → String
  | .global => "Global"
  | .script => "Script"
  | .module => "Module"
  | .function => "Function"
  | .arrowFunction => "ArrowFunction"
  | .block => "Block"
  | .parameters => "Parameters"
  | .parameterExpression => "ParameterExpression"
  | .catch_ => "Catch"
  | .with_ => "With"
  | .className => "ClassName"
  | .functionName => "FunctionName"

def ofText? (text : String) : Option ScopeKind := all.find? (·.text == text)

/-- Whether a scope of this kind is dynamic from the start. -/
def isDynamic : ScopeKind → Bool
  | .global | .with_ => true
  | _ => false

end ScopeKind

/-- The construct that introduced a declaration. -/
inductive DeclarationKind where
  | var
  | let_
  | const
  | functionDeclaration
  /-- The twin, in the enclosing function, of a function declared in a block of sloppy code. -/
  | functionVarDeclaration
  | parameter
  | catchParameter
  | className
  | classDeclaration
  | functionName
  | import_
  /-- A name bound by a catch pattern, as seen when twins are decided on. -/
  | catch_
  deriving DecidableEq, Repr

namespace DeclarationKind

def text : DeclarationKind → String
  | .var => "Var"
  | .let_ => "Let"
  | .const => "Const"
  | .functionDeclaration => "FunctionDeclaration"
  | .functionVarDeclaration => "FunctionVarDeclaration"
  | .parameter => "Parameter"
  | .catchParameter => "CatchParameter"
  | .className => "ClassName"
  | .classDeclaration => "ClassDeclaration"
  | .functionName => "FunctionName"
  | .import_ => "Import"
  | .catch_ => "Catch"

def ofVariableKind : VariableKind → DeclarationKind
  | .var => .var
  | .let_ => .let_
  | .const => .const

end DeclarationKind

/-- What a use does with its variable. -/
inductive Access where
  | read
  | write
  /-- A compound assignment or an update. -/
  | readWrite
  | delete
  deriving DecidableEq, Repr

namespace Access

def all : List Access := [.read, .write, .readWrite, .delete]

def text : Access → String
  | .read => "Read"
  | .write => "Write"
  | .readWrite => "ReadWrite"
  | .delete => "Delete"

def ofText? (text : String) : Option Access := all.find? (·.text == text)

def isRead : Access → Bool
  | .read | .readWrite => true
  | .write | .delete => false

def isWrite : Access → Bool
  | .write | .readWrite => true
  | .read | .delete => false

end Access

end ScopeAnalysis
