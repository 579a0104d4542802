import ScopeAnalysis.Decimal.PropertyName
import ScopeAnalysis.Program.Tree

/-!
# Static property keys

The key of a property is static when it can be told without running the program. A number denotes
the same key as its text, so `1`, `1.0` and the string `"1"` are one key.
-/

namespace ScopeAnalysis

namespace Key

/-- The name of a static key. The text of a number is interned when it is asked for. -/
def staticName (names : Interner) : Key Node Name → Option Name × Interner
  | .ident id => (some id.name, names)
  | .string _ value => (some value, names)
  | .number _ value =>
    let (name, names) := names.intern value.propertyName
    (some name, names)
  | .computed _ (.literal _ (.string value)) => (some value, names)
  | .computed _ (.literal _ (.number value)) =>
    let (name, names) := names.intern value.propertyName
    (some name, names)
  | .computed _ _ => (none, names)

def isComputed {μ ν : Type} : Key μ ν → Bool
  | .computed .. => true
  | .ident _ | .string .. | .number .. => false

end Key

end ScopeAnalysis
