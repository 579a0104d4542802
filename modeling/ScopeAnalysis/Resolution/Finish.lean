import ScopeAnalysis.Resolution.State

/-!
# Finishing the tree

When the walk is over the scopes are listed from the root down, each before its children and these
in the order in which they were opened.
-/

namespace ScopeAnalysis.Resolution

/-- Lists the scopes of a pile of identities, each with all that is below it. Every scope is
listed once, so as many steps suffice as there are scopes. -/
def preorder (scopes : Array Scope) : Nat → List ScopeId → List Scope
  | 0, _ => []
  | _ + 1, [] => []
  | steps + 1, id :: rest =>
    match scopes[id.index]? with
    | some scope => scope :: preorder scopes steps (scope.children ++ rest)
    | none => preorder scopes steps rest

/-- The tree of a walk that is over. -/
def State.finish (s : State) : ScopeTree where
  scopes := (preorder s.scopes s.scopes.size [ScopeId.root]).toArray
  vars := s.vars
  references := s.references

end ScopeAnalysis.Resolution
