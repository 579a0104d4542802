import ScopeAnalysis.Program.Numbering
import ScopeAnalysis.Proofs.Passage
import ScopeAnalysis.Proofs.Preorder
import ScopeAnalysis.ScopeTree.Query

/-!
# Lookup in a finished tree

A finished tree answers what a name means at a place: the variable of the nearest scope outwards
that binds the name. The main statement is that every use of an analyzed program has been resolved
to just that variable, although it was resolved while the tree was still being built.
-/

namespace ScopeAnalysis

namespace ScopeTree

def parentOf? (tree : ScopeTree) (id : ScopeId) : Option ScopeId :=
  (tree.scopeAt? id).bind Scope.parent

/-- The variable that a scope itself binds to a name. -/
def own? (tree : ScopeTree) (id : ScopeId) (name : Name) : Option VariableId :=
  (tree.scopeAt? id).bind (fun scope => scope.find? name)

/-- Walking outwards from a scope, the first variable of a name. -/
inductive Finds (tree : ScopeTree) (name : Name) : ScopeId → VariableId → Prop
  | own {id : ScopeId} {v : VariableId} (owned : tree.own? id name = some v) : Finds tree name id v
  | outward {id outer : ScopeId} {v : VariableId} (free : tree.own? id name = none)
      (up : tree.parentOf? id = some outer) (further : Finds tree name outer v) :
      Finds tree name id v

theorem Finds.unique {tree : ScopeTree} {name : Name} {id : ScopeId} {v w : VariableId}
    (first : tree.Finds name id v) (second : tree.Finds name id w) : v = w := by
  induction first with
  | own owned =>
    cases second with
    | own owned' =>
      rw [owned] at owned'
      exact Option.some.inj owned'
    | outward free => rw [owned] at free; cases free
  | outward free up further ih =>
    cases second with
    | own owned' => rw [free] at owned'; cases owned'
    | outward free' up' further' =>
      rw [up] at up'
      cases up'
      exact ih further'

/-- Up a chain of scopes that do not bind a name, each finds what the last one finds. -/
theorem finds_of_climbs {tree : ScopeTree} {name : Name} {chain : List ScopeId} {top : ScopeId}
    {v : VariableId}
    (climbs : (chain ++ [top]).IsChain (fun inner outer => tree.parentOf? inner = some outer))
    (hidden : ∀ id ∈ chain, tree.own? id name = none) (found : tree.Finds name top v) :
    ∀ id ∈ chain ++ [top], tree.Finds name id v := by
  induction chain with
  | nil =>
    intro id member
    rw [List.mem_singleton.1 member]
    exact found
  | cons first rest ih =>
    have further := ih (List.IsChain.tail climbs) (fun id member => hidden id (by simp [member]))
    have free := hidden first (by simp)
    intro id member
    rcases List.mem_cons.1 member with rfl | inRest
    · cases rest with
      | nil => exact .outward free (List.isChain_cons_cons.1 climbs).1 found
      | cons next others =>
        exact .outward free (List.isChain_cons_cons.1 climbs).1 (further next (by simp))
    · exact further id inRest

/-- Uses mean what looking their names up in the finished tree finds. -/
structure ResolvedByLookup (tree : ScopeTree) : Prop where
  /-- A use passes through a chain of scopes below the owner of its variable, once through each and
  under its own name. None of them binds the name and the owner binds it to the variable, so the
  variable is found from the place of the use. -/
  ways : ∀ r use, tree.referenceAt? r = some use →
    ∃ v chain, tree.variableAt? use.resolved = some v ∧
      (chain ++ [v.scope]).IsChain (fun inner outer => tree.parentOf? inner = some outer) ∧
      (∀ id scope, tree.scopeAt? id = some scope →
        scope.passes r = if id ∈ chain then [(use.id.name, r)] else []) ∧
      (∀ id ∈ chain, tree.own? id use.id.name = none) ∧
      tree.own? v.scope use.id.name = some use.resolved ∧
      tree.Finds use.id.name (chain.headD v.scope) use.resolved
  root : ∃ root, tree.root? = some root ∧ root.kind = .global ∧ root.through.isEmpty = true
  agree : ∀ id scope name, tree.scopeAt? id = some scope →
    ∀ r₁ ∈ scope.through.get name, ∀ r₂ ∈ scope.through.get name,
      ∃ use₁ use₂, tree.referenceAt? r₁ = some use₁ ∧ tree.referenceAt? r₂ = some use₂ ∧
        use₁.resolved = use₂.resolved

end ScopeTree

namespace Resolution

namespace State

theorem own?_tree (s : State) (id : ScopeId) (name : Name) :
    s.tree.own? id name = s.own name id := by
  unfold ScopeTree.own? own bindingsOf
  cases found : s.tree.scopeAt? id with
  | none =>
    have missing : s.scopes[id.index]? = none := found
    rw [missing]
    rfl
  | some scope =>
    have there : s.scopes[id.index]? = some scope := found
    rw [there]
    rfl

/-- The way of a use, read off the finished tree. -/
theorem Route.finds {s : State} {r : ReferenceId} {use : Reference} {v : Variable}
    {chain : List ScopeId} (route : s.Route r use v chain) :
    ∀ id ∈ chain ++ [v.scope], s.tree.Finds use.id.name id use.resolved := by
  refine ScopeTree.finds_of_climbs route.climbs (fun id member => ?_) (.own ?_)
  · rw [own?_tree]
    exact route.hidden id member
  · rw [own?_tree]
    exact route.owned

theorem Routed.ways {s : State} (routed : s.Routed) (r : ReferenceId) (use : Reference)
    (found : s.tree.referenceAt? r = some use) :
    ∃ v chain, s.tree.variableAt? use.resolved = some v ∧
      (chain ++ [v.scope]).IsChain (fun inner outer => s.tree.parentOf? inner = some outer) ∧
      (∀ id scope, s.tree.scopeAt? id = some scope →
        scope.passes r = if id ∈ chain then [(use.id.name, r)] else []) ∧
      (∀ id ∈ chain, s.tree.own? id use.id.name = none) ∧
      s.tree.own? v.scope use.id.name = some use.resolved ∧
      s.tree.Finds use.id.name (chain.headD v.scope) use.resolved := by
  obtain ⟨v, chain, route⟩ := routed.routes r.index use found
  refine ⟨v, chain, route.found, route.climbs, fun id scope there => ?_, fun id member => ?_, ?_,
    ?_⟩
  · exact route.passes id.index scope there
  · rw [own?_tree]
    exact route.hidden id member
  · rw [own?_tree]
    exact route.owned
  · refine route.finds _ ?_
    cases chain <;> simp

/-- What passes through a scope under a name has that name and is found from that scope. -/
theorem Routed.finds_of_mem_pairs {s : State} (routed : s.Routed) {id : ScopeId} {scope : Scope}
    {name : Name} {r : ReferenceId} (found : s.tree.scopeAt? id = some scope)
    (pair : (name, r) ∈ scope.through.pairs) :
    ∃ use, s.tree.referenceAt? r = some use ∧ use.id.name = name ∧
      s.tree.Finds name id use.resolved := by
  have bound : r.index < s.references.size := routed.bounded id.index scope found _ pair
  have there := Array.getElem?_eq_getElem bound
  obtain ⟨v, chain, route⟩ := routed.routes r.index _ there
  have passing : (name, r) ∈ scope.passes r := List.mem_filter.2 ⟨pair, by simp⟩
  rw [route.passes id.index scope found] at passing
  split at passing
  next inside =>
    have same := List.mem_singleton.1 passing
    simp only [Prod.mk.injEq] at same
    obtain ⟨rfl, _⟩ := same
    exact ⟨_, there, rfl, route.finds id (by simp [inside])⟩
  next => cases passing

theorem Routed.finds_of_mem_get {s : State} (routed : s.Routed) {id : ScopeId} {scope : Scope}
    {name : Name} {r : ReferenceId} (found : s.tree.scopeAt? id = some scope)
    (member : r ∈ scope.through.get name) :
    ∃ use, s.tree.referenceAt? r = some use ∧ s.tree.Finds name id use.resolved := by
  obtain ⟨use, there, _, finds⟩ :=
    routed.finds_of_mem_pairs found (MultiMap.mem_pairs_of_mem_get member)
  exact ⟨use, there, finds⟩

/-- No use passes through the root. -/
theorem Routed.passes_root {s : State} (routed : s.Routed) (coherent : s.Coherent) {root : Scope}
    (found : s.scopes[ScopeId.root.index]? = some root) : root.through.pairs = [] := by
  refine List.eq_nil_iff_forall_not_mem.2 (fun pair member => ?_)
  have bound := routed.bounded _ root found pair member
  obtain ⟨v, chain, route⟩ := routed.routes _ _ (Array.getElem?_eq_getElem bound)
  have passing : pair ∈ root.passes pair.2 := List.mem_filter.2 ⟨member, by simp⟩
  have outside : ScopeId.root ∉ chain := by
    intro inside
    obtain ⟨outer, up⟩ := exists_parentOf route.climbs _ inside
    rw [coherent.rootless] at up
    cases up
  have none := route.passes ScopeId.root.index root found
  rw [if_neg outside] at none
  rw [none] at passing
  cases passing

/-- The outermost scope stays the root and keeps its kind. -/
theorem root_layOut_initial (events : Array Event) (kind : ScopeKind) (node : Node)
    (arguments : Option Name) (decls : List Declaration) (inner : List Layout) :
    ∃ root added,
      ((initial events).layOut (.scope kind node arguments decls inner)).scopes[0]? = some root ∧
        root.kind = kind ∧ root.through = MultiMap.empty.insertAll added := by
  obtain ⟨root, added, found, kindRoot, _, through⟩ := exists_layOut_scope
    (Coherent.initial events) (fun _ => rfl) kind node arguments decls inner
  exact ⟨root, added, found, kindRoot, through⟩

end State

end Resolution

open Resolution in
/-- Every use in the tree of an analyzed program means what looking its name up finds. -/
theorem resolvedByLookup_of_analyze {options : Options} {p : NumberedProgram}
    {names names' : Interner} {a : Analysis}
    (analyzed : p.analyze options names = (.ok a, names')) : a.tree.ResolvedByLookup := by
  obtain ⟨outline, decls, inner, _, _, tree⟩ := analyze_layOut analyzed
  obtain ⟨root, added, foundRoot, kind, through⟩ := State.root_layOut_initial
    #[.start p.isModule p.node.id] .global outline.node none decls inner
  have coherent := State.Coherent.scope (.initial #[.start p.isModule p.node.id])
    (fun _ => rfl) .global outline.node none decls inner
  have routed := State.Routed.scope (.initial #[.start p.isModule p.node.id]) (.initial _)
    (fun _ => rfl) .global outline.node none decls inner
  rw [tree]
  refine ⟨routed.ways, ⟨root, foundRoot, kind, ?_⟩, ?_⟩
  · have silent := routed.passes_root coherent foundRoot
    rw [through] at silent
    have none : added = [] := by
      refine List.eq_nil_iff_forall_not_mem.2 (fun pair member => ?_)
      have there := (MultiMap.mem_pairs_insertAll .empty added pair).2 (.inr member)
      rw [silent] at there
      cases there
    rw [through, none]
    rfl
  · intro id scope name found r₁ member₁ r₂ member₂
    obtain ⟨use₁, found₁, finds₁⟩ := routed.finds_of_mem_get found member₁
    obtain ⟨use₂, found₂, finds₂⟩ := routed.finds_of_mem_get found member₂
    exact ⟨use₁, use₂, found₁, found₂, finds₁.unique finds₂⟩

/-- `function f(a) { { let b = a; g(b); } }`, where nothing declares `g`. -/
def undeclaredCall : NumberedProgram × Workbench :=
  let id (name : String) : Ident Span String := ⟨.none, name⟩
  Draft.number (.script .none [] [.function (.mk .none (some (id "f")) .none
    (.mk (some .none) [.mk .none .nameFirst (.ident (id "a")) none] none)
    (.block .none [] [.block .none
      [.decl .none .none .let_ [.mk .none .nameFirst (.ident (id "b")) (some (.ident (id "a")))],
        .expr .none (.call .none (.ident (id "g")) [.ident (id "b")])]]))]) .empty

theorem undeclaredCall_resolvedByLookup :
    ∃ a names', undeclaredCall.1.analyze .default undeclaredCall.2.names = (.ok a, names') ∧
      a.tree.ResolvedByLookup := by
  have completed :
      (undeclaredCall.1.analyze .default undeclaredCall.2.names).1.isOk = true := by
    decide +kernel
  obtain ⟨a, names', analyzed⟩ := Resolution.exists_of_isOk completed
  exact ⟨a, names', analyzed, resolvedByLookup_of_analyze analyzed⟩

end ScopeAnalysis
