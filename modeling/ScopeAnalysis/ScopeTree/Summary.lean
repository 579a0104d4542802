import ScopeAnalysis.ScopeTree.Query

/-!
# Summaries

A summary shows the structure of a tree without the identities of its nodes, so that two analyses
of alike programs can be compared.
-/

namespace ScopeAnalysis

structure VariableSummary where
  name : String
  declarations : List DeclarationKind
  references : List Access
  deriving DecidableEq, Repr

structure ThroughSummary where
  name : String
  count : Nat
  deriving DecidableEq, Repr

inductive Summary where
  | mk (kind : ScopeKind) (dynamic : Bool) (vars : List VariableSummary)
      (through : List ThroughSummary) (children : List Summary)

namespace Summary

mutual

/-- The number of scopes summarized. -/
def scopeCount : Summary → Nat
  | .mk _ _ _ _ children => 1 + scopeCounts children

def scopeCounts : List Summary → Nat
  | [] => 0
  | s :: rest => scopeCount s + scopeCounts rest

end

mutual

/-- Whether two summaries are the same. -/
def same : Summary → Summary → Bool
  | .mk kind dynamic vars through children, .mk kind' dynamic' vars' through' children' =>
    kind == kind' && dynamic == dynamic' && vars == vars' && through == through'
      && sameAll children children'

def sameAll : List Summary → List Summary → Bool
  | [], [] => true
  | s :: rest, s' :: rest' => same s s' && sameAll rest rest'
  | _, _ => false

end

end Summary

namespace ScopeTree

def summarizeVariable (tree : ScopeTree) (names : Interner) (id : VariableId) :
    Option VariableSummary := do
  let v ← tree.variableAt? id
  let references ← v.references.mapM (fun r => (tree.referenceAt? r).map Reference.access)
  some ⟨names.text v.name, v.declarations.map Declaration.kind, references⟩

def summarizeThrough (names : Interner) (scope : Scope) : List ThroughSummary :=
  scope.through.entries.map (fun entry => ⟨names.text entry.1, entry.2.length⟩)

/-- Summarizes the tree below a scope, at most `depth` scopes deep. -/
def summarizeScope (tree : ScopeTree) (names : Interner) : Nat → ScopeId → Option Summary
  | 0, _ => none
  | depth + 1, id => do
    let scope ← tree.scopeAt? id
    let vars ← scope.bindings.mapM (fun entry => tree.summarizeVariable names entry.2)
    let children ← scope.children.mapM (fun child => tree.summarizeScope names depth child)
    some (.mk scope.kind scope.dynamic vars (summarizeThrough names scope) children)

/-- The summary of a whole tree. -/
def summarize? (tree : ScopeTree) (names : Interner) : Option Summary :=
  tree.summarizeScope names tree.scopes.size ScopeId.root

end ScopeTree

end ScopeAnalysis
