import ScopeAnalysis.ScopeTree.Basic

/-!
# Queries

Questions that can be asked of a finished tree. A question about an identity that the tree does
not have gets no answer. Names are given as texts and looked up in the interner that the program
was numbered with; a text that was never interned names nothing, whatever the scope.
-/

namespace ScopeAnalysis

namespace ScopeTree

def root? (tree : ScopeTree) : Option Scope := tree.scopes[ScopeId.root.index]?

def scopeAt? (tree : ScopeTree) (id : ScopeId) : Option Scope := tree.scopes[id.index]?

def variableAt? (tree : ScopeTree) (id : VariableId) : Option Variable := tree.vars[id.index]?

def referenceAt? (tree : ScopeTree) (id : ReferenceId) : Option Reference :=
  tree.references[id.index]?

/-- The text of a variable's name. -/
def name? (tree : ScopeTree) (names : Interner) (id : VariableId) : Option String :=
  (tree.variableAt? id).map (fun v => names.text v.name)

/-- The variable of a name in one scope, its ancestors left aside. -/
def lookup? (tree : ScopeTree) (names : Interner) (id : ScopeId) (text : String) :
    Option (Option Variable) :=
  match names.find? text with
  | none => some none
  | some name => do
    let scope ← tree.scopeAt? id
    match scope.find? name with
    | none => some none
    | some v => (tree.variableAt? v).map some

/-- The variables of a scope, in the order in which they came about. -/
def variablesIn? (tree : ScopeTree) (id : ScopeId) : Option (List Variable) := do
  let scope ← tree.scopeAt? id
  scope.bindings.mapM (fun entry => tree.variableAt? entry.2)

/-- The uses of a name that pass through a scope. -/
def through? (tree : ScopeTree) (names : Interner) (id : ScopeId) (text : String) :
    Option (List Reference) :=
  match names.find? text with
  | none => some []
  | some name => do
    let scope ← tree.scopeAt? id
    (scope.through.get name).mapM tree.referenceAt?

def children? (tree : ScopeTree) (id : ScopeId) : Option (List Scope) := do
  let scope ← tree.scopeAt? id
  scope.children.mapM tree.scopeAt?

def scopesOfKind (tree : ScopeTree) (kind : ScopeKind) : List Scope :=
  tree.scopes.toList.filter (fun s => s.kind = kind)

/-- The scopes that a node opened, the outermost first. -/
def scopesOpenedBy (tree : ScopeTree) (node : NodeId) : List Scope :=
  tree.scopes.toList.filter (fun s => s.node.id = node)

/-- The variable that a use means. -/
def resolve? (tree : ScopeTree) (id : ReferenceId) : Option Variable := do
  let reference ← tree.referenceAt? id
  tree.variableAt? reference.resolved

end ScopeTree

end ScopeAnalysis
