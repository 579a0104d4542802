/-!
# Keywords, operators and function flags
-/

namespace ScopeAnalysis

/-- The keyword of a variable declaration. -/
inductive VariableKind where
  | var | let_ | const
  deriving DecidableEq, Repr

namespace VariableKind

def all : List VariableKind := [.var, .let_, .const]

def keyword : VariableKind → String
  | .var => "var"
  | .let_ => "let"
  | .const => "const"

def ofKeyword? (text : String) : Option VariableKind := all.find? (·.keyword == text)

/-- Whether the keyword binds in the enclosing block; `var` binds in the enclosing function. -/
def isLexical : VariableKind → Bool
  | .var => false
  | .let_ | .const => true

end VariableKind

inductive AssignmentOperator where
  | assign | add | subtract | multiply | divide | remainder | exponent
  | leftShift | rightShift | unsignedRightShift
  | bitwiseAnd | bitwiseOr | bitwiseXor
  | logicalAnd | logicalOr | nullish
  deriving DecidableEq, Repr

namespace AssignmentOperator

def all : List AssignmentOperator :=
  [.assign, .add, .subtract, .multiply, .divide, .remainder, .exponent,
    .leftShift, .rightShift, .unsignedRightShift,
    .bitwiseAnd, .bitwiseOr, .bitwiseXor, .logicalAnd, .logicalOr, .nullish]

def symbol : AssignmentOperator → String
  | .assign => "="
  | .add => "+="
  | .subtract => "-="
  | .multiply => "*="
  | .divide => "/="
  | .remainder => "%="
  | .exponent => "**="
  | .leftShift => "<<="
  | .rightShift => ">>="
  | .unsignedRightShift => ">>>="
  | .bitwiseAnd => "&="
  | .bitwiseOr => "|="
  | .bitwiseXor => "^="
  | .logicalAnd => "&&="
  | .logicalOr => "||="
  | .nullish => "??="

def ofSymbol? (text : String) : Option AssignmentOperator := all.find? (·.symbol == text)

/-- Whether the operator reads its target before it writes it, as all do but plain assignment. -/
def isCompound (op : AssignmentOperator) : Bool := op != .assign

end AssignmentOperator

inductive BinaryOperator where
  | comma | logicalOr | logicalAnd | nullish
  | bitwiseOr | bitwiseXor | bitwiseAnd
  | equal | notEqual | strictEqual | strictNotEqual
  | less | lessEqual | greater | greaterEqual | in_ | instanceOf
  | leftShift | rightShift | unsignedRightShift
  | add | subtract | multiply | divide | remainder | exponent
  deriving DecidableEq, Repr

namespace BinaryOperator

def all : List BinaryOperator :=
  [.comma, .logicalOr, .logicalAnd, .nullish, .bitwiseOr, .bitwiseXor, .bitwiseAnd,
    .equal, .notEqual, .strictEqual, .strictNotEqual,
    .less, .lessEqual, .greater, .greaterEqual, .in_, .instanceOf,
    .leftShift, .rightShift, .unsignedRightShift,
    .add, .subtract, .multiply, .divide, .remainder, .exponent]

def symbol : BinaryOperator → String
  | .comma => ","
  | .logicalOr => "||"
  | .logicalAnd => "&&"
  | .nullish => "??"
  | .bitwiseOr => "|"
  | .bitwiseXor => "^"
  | .bitwiseAnd => "&"
  | .equal => "=="
  | .notEqual => "!="
  | .strictEqual => "==="
  | .strictNotEqual => "!=="
  | .less => "<"
  | .lessEqual => "<="
  | .greater => ">"
  | .greaterEqual => ">="
  | .in_ => "in"
  | .instanceOf => "instanceof"
  | .leftShift => "<<"
  | .rightShift => ">>"
  | .unsignedRightShift => ">>>"
  | .add => "+"
  | .subtract => "-"
  | .multiply => "*"
  | .divide => "/"
  | .remainder => "%"
  | .exponent => "**"

def ofSymbol? (text : String) : Option BinaryOperator := all.find? (·.symbol == text)

end BinaryOperator

/-- The operators on one operand that read it, `delete` and the updates apart. -/
inductive UnaryOperator where
  | plus | minus | bitwiseNot | logicalNot | typeOf | void | await
  deriving DecidableEq, Repr

namespace UnaryOperator

/-- The operators that are written with a sign. -/
def signs : List UnaryOperator := [.plus, .minus, .bitwiseNot, .logicalNot]

def symbol : UnaryOperator → String
  | .plus => "+"
  | .minus => "-"
  | .bitwiseNot => "~"
  | .logicalNot => "!"
  | .typeOf => "typeof"
  | .void => "void"
  | .await => "await"

def ofSign? (text : String) : Option UnaryOperator := signs.find? (·.symbol == text)

end UnaryOperator

inductive UpdateOperator where
  | increment | decrement
  deriving DecidableEq, Repr

namespace UpdateOperator

def all : List UpdateOperator := [.increment, .decrement]

def symbol : UpdateOperator → String
  | .increment => "++"
  | .decrement => "--"

def ofSymbol? (text : String) : Option UpdateOperator := all.find? (·.symbol == text)

end UpdateOperator

/-- What kind of function a function is, apart from its form. -/
structure FunctionFlags where
  async : Bool
  generator : Bool
  deriving DecidableEq, Repr

namespace FunctionFlags

def none : FunctionFlags := ⟨false, false⟩

/-- The flags in the two lowest bits; higher bits are dropped. -/
def ofBits (bits : Nat) : FunctionFlags := ⟨bits % 2 == 1, bits / 2 % 2 == 1⟩

def bits (flags : FunctionFlags) : Nat := flags.async.toNat + 2 * flags.generator.toNat

def isEmpty (flags : FunctionFlags) : Bool := flags == none

end FunctionFlags

end ScopeAnalysis
