import ScopeAnalysis.MultiMap
import ScopeAnalysis.Program.Node
import ScopeAnalysis.ScopeTree.Kind

/-!
# Scope trees

The result of an analysis. Scopes, variables and references stand in three lists and point at each
other by position. Scopes are listed in depth-first order, so the root comes first and a scope
after its parent.
-/

namespace ScopeAnalysis

structure ScopeId where
  index : Nat
  deriving DecidableEq, Repr

namespace ScopeId

/-- The global scope of every tree. -/
def root : ScopeId := ⟨0⟩

def display (id : ScopeId) : String := "ScopeId(" ++ toString id.index ++ ")"

end ScopeId

structure VariableId where
  index : Nat
  deriving DecidableEq, Repr

structure ReferenceId where
  index : Nat
  deriving DecidableEq, Repr

/-- One occurrence that binds a name. -/
structure Declaration where
  id : Occurrence
  kind : DeclarationKind
  deriving DecidableEq, Repr

/-- One use of a name, with the variable it means. -/
structure Reference where
  id : Occurrence
  access : Access
  resolved : VariableId
  deriving DecidableEq, Repr

/-- A binding of a name in one scope. A function's own `arguments` and the globals that are used
but never declared have no declarations. -/
structure Variable where
  name : Name
  scope : ScopeId
  declarations : List Declaration
  references : List ReferenceId
  deriving DecidableEq, Repr

/-- Whether a variable came about by being used without a declaration. -/
def Variable.isImplicit (v : Variable) : Bool :=
  v.scope == ScopeId.root && v.declarations.isEmpty

structure Scope where
  id : ScopeId
  kind : ScopeKind
  /-- The node that opened the scope. -/
  node : Node
  parent : Option ScopeId
  children : List ScopeId
  /-- The variables of the scope by name, in the order in which they came about. -/
  bindings : List (Name × VariableId)
  /-- Whether names below this scope may mean something else when the program runs. -/
  dynamic : Bool
  /-- The uses that pass through this scope on the way to a variable further out. -/
  through : MultiMap Name ReferenceId

/-- The variable of a name in this very scope. -/
def Scope.find? (s : Scope) (name : Name) : Option VariableId :=
  (s.bindings.find? (fun entry => entry.1 = name)).map Prod.snd

structure ScopeTree where
  scopes : Array Scope
  vars : Array Variable
  references : Array Reference

end ScopeAnalysis
