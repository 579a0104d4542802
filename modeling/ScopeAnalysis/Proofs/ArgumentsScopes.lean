import ScopeAnalysis.Proofs.ParameterScopes

/-!
# Where `arguments` is known

Every function but an arrow binds `arguments` in the outermost scope in which its parameters are
known, before all else. So no use of this name in the function gets past that scope, and a global
`arguments` has only uses from elsewhere. The scopes of an arrow bind the name only if the arrow
declares it.
-/

namespace ScopeAnalysis

open Resolution

/-- The outermost scope in which the parameters of a function are known. -/
def FunctionSite.outermost (site : FunctionSite) : Scope := site.params.getD site.own

theorem FunctionSite.outermost_mem (site : FunctionSite) : site.outermost ∈ site.scopes := by
  obtain ⟨_ | params, apart, own⟩ := site <;> simp [mem_scopes, outermost]

namespace ScopeTree

/-- A scope is another one or lies somewhere below it. -/
def IsWithin (tree : ScopeTree) : ScopeId → ScopeId → Prop :=
  Relation.ReflTransGen (fun inner outer => tree.parentOf? inner = some outer)

/-- A scope binds `arguments` first, and no use of this name within the scope means a variable
outside. -/
structure KeepsArguments (arguments : Name) (tree : ScopeTree) (outermost : Scope) : Prop where
  first : outermost.bindings.head?.map Prod.fst = some arguments
  inside : ∀ r use id, tree.referenceAt? r = some use → use.id.name = arguments →
    tree.UsedIn r id → tree.IsWithin id outermost.id →
      ∃ v, tree.variableAt? use.resolved = some v ∧ tree.IsWithin v.scope outermost.id
  outside : ∀ id v, tree.variableAt? id = some v → v.name = arguments → v.scope = ScopeId.root →
    ∀ r ∈ v.references, ∀ place, tree.UsedIn r place → ¬ tree.IsWithin place outermost.id

/-- If a scope binds a name, this is a parameter of the given function, or something that is
declared in its body. -/
def BindsExplicitly (name : Name) (tree : ScopeTree) (f : FunctionForm) (scope : Scope) : Prop :=
  ∀ id, tree.own? scope.id name = some id →
    ∃ v, tree.variableAt? id = some v ∧ ∃ d ∈ v.declarations, d.id.name = name ∧
      (d.kind = .parameter ∧ d.id ∈ f.params.names ∨ d.IsFrom f.body.declared)

end ScopeTree

/-- Functions keep their own `arguments` to themselves, and arrows have none. -/
structure NumberedProgram.ConfinesArguments (p : NumberedProgram) (arguments : Name)
    (tree : ScopeTree) : Prop where
  /-- Every use stands directly in some scope, and in no other. -/
  placed : ∀ r use, tree.referenceAt? r = some use → ∃! id, tree.UsedIn r id
  confined : ∃ sites, List.Forall₂ (fun f site => tree.LaysOut arguments f site ∧
      (f.hasArguments = true → tree.KeepsArguments arguments site.outermost) ∧
      (f.kind = .arrow → ∀ scope ∈ site.scopes, tree.BindsExplicitly arguments f scope))
      p.functions sites ∧
    (sites.flatMap FunctionSite.scopes).Perm (tree.scopesOf ScopeKind.isOfFunction)

namespace ScopeTree

variable {tree : ScopeTree} {arguments : Name} {f : FunctionForm} {site : FunctionSite}

/-- Looking a name up from within a scope that binds it ends within that scope. -/
theorem Finds.exists_within {name : Name} {id outermost : ScopeId} {v : VariableId}
    (finds : tree.Finds name id v) (within : tree.IsWithin id outermost)
    (bound : tree.own? outermost name ≠ none) :
    ∃ place, tree.IsWithin place outermost ∧ tree.own? place name = some v := by
  induction finds with
  | own owned => exact ⟨_, within, owned⟩
  | outward free up _ ih =>
    obtain rfl | ⟨outer, up', further⟩ := within.cases_head
    · exact absurd free bound
    · cases up.symm.trans up'
      exact ih further

theorem IsDepthFirst.index_le {id outer : ScopeId} (deep : tree.IsDepthFirst)
    (within : tree.IsWithin id outer) : outer.index ≤ id.index := by
  induction within with
  | refl => exact Nat.le_refl _
  | tail _ up ih => exact Nat.le_trans (Nat.le_of_lt (deep.above _ _ up)) ih

/-- The outermost scope of a function with `arguments` has them before all other variables. -/
theorem LaysOut.exists_exact (laysOut : tree.LaysOut arguments f site)
    (has : f.hasArguments = true) :
    ∃ o, o.hasArguments = true ∧ o.kind.isOfFunction = true ∧
      Opening.IsExact arguments o tree site.outermost := by
  cases laysOut with
  | together _ _ exact => exact ⟨_, has, f.kind.isOfFunction_scopeKind, exact⟩
  | apart _ _ exact => exact ⟨_, (Bool.and_eq_true_iff.1 has).1, rfl, exact⟩

/-- What the scopes of an arrow declare are its parameters and the declarations of its body. -/
theorem LaysOut.exists_exact_arrow (laysOut : tree.LaysOut arguments f site)
    (arrow : f.kind = .arrow) {scope : Scope} (member : scope ∈ site.scopes) :
    ∃ o, o.hasArguments = false ∧ Opening.IsExact arguments o tree scope ∧ ∀ d ∈ o.decls,
      d.kind = .parameter ∧ d.id ∈ f.params.names ∨ d.IsFrom f.body.declared := by
  have parameters : ∀ d ∈ Outline.declareAs .parameter f.params.names,
      d.kind = .parameter ∧ d.id ∈ f.params.names ∨ d.IsFrom f.body.declared := by
    intro d declared
    obtain ⟨id, inside, rfl⟩ := List.mem_map.1 declared
    exact .inl ⟨rfl, inside⟩
  rw [FunctionSite.mem_scopes] at member
  cases laysOut with
  | together still bodily exact =>
    obtain params | apart | rfl := member
    · cases params
    · cases apart
    · have without : f.hasArguments = false := by
        rw [FunctionForm.hasArguments, arrow]
        rfl
      exact ⟨_, without, exact, List.forall_mem_append.2
        ⟨parameters, fun d declared => .inr (bodily d declared)⟩⟩
  | apart runs bodily exact expressions _ body =>
    obtain params | apart | rfl := member
    · cases params
      exact ⟨_, congrArg FunctionKind.hasArguments arrow, exact, parameters⟩
    · obtain ⟨node, _, bare⟩ := exists_of_forall₂_of_mem expressions apart
      exact ⟨_, rfl, bare, List.forall_mem_nil _⟩
    · exact ⟨_, rfl, body, fun d declared => .inr (bodily d declared)⟩

end ScopeTree

/-- A name that a scope binds, other than its own `arguments`, has a declaration there. -/
theorem Opening.IsExact.exists_declaration {arguments : Name} {o : Opening} {tree : ScopeTree}
    {scope : Scope} (exact : o.IsExact arguments tree scope) (without : o.hasArguments = false)
    (found : tree.scopeAt? scope.id = some scope) {name : Name} {id : VariableId}
    (owned : tree.own? scope.id name = some id) :
    ∃ v, tree.variableAt? id = some v ∧ ∃ d ∈ v.declarations, d.id.name = name ∧ d ∈ o.decls := by
  have bound : tree.own? scope.id name ≠ none := by simp [owned]
  rw [ne_eq, exact.own?_eq_none_iff found, without] at bound
  obtain ⟨d, declared, named⟩ : ∃ d ∈ o.decls, d.id.name = name := by simpa using bound
  have all := ScopeTree.declarationsIn_eq found name
  rw [exact.declarations, ScopeTree.declarationsIn, owned, Option.bind_some] at all
  have inside : d ∈ o.decls.filter (fun d => d.id.name = name) :=
    List.mem_filter.2 ⟨declared, by simpa using named⟩
  rw [← all] at inside
  cases there : tree.variableAt? id with
  | none =>
    rw [there] at inside
    cases inside
  | some v =>
    rw [there] at inside
    exact ⟨v, rfl, d, inside, named, declared⟩

/-- The first variable of a scope with `arguments` of its own. -/
theorem Opening.IsExact.first_eq {arguments : Name} {o : Opening} {tree : ScopeTree} {scope : Scope}
    (exact : o.IsExact arguments tree scope) (has : o.hasArguments = true) :
    scope.bindings.head?.map Prod.fst = some arguments := by
  rw [← List.head?_map, exact.names, if_pos has, List.singleton_append, List.eraseDups_cons]
  rfl

namespace Resolution.State

/-- Every use stands directly in a scope. -/
theorem Routed.exists_usedIn {s : State} (routed : s.Routed) {r : ReferenceId} {use : Reference}
    (found : s.tree.referenceAt? r = some use) : ∃ id, s.tree.UsedIn r id := by
  obtain ⟨v, chain, route⟩ := routed.routes r.index use found
  exact ⟨_, StartsIn.usedIn ⟨use, v, chain, found, route, rfl⟩⟩

end Resolution.State

section Analyzed

variable {options : Options} {p : NumberedProgram} {names names' : Interner} {a : Analysis}

/-- A scope of an analyzed program that has `arguments` of its own keeps them. -/
theorem keepsArguments_of_analyze (analyzed : p.analyze options names = (.ok a, names'))
    {o : Opening} {scope : Scope} (found : a.tree.scopeAt? scope.id = some scope)
    (ofFunction : o.kind.isOfFunction = true) (has : o.hasArguments = true)
    (exact : o.IsExact (SpecialNames.intern names).1.arguments a.tree scope) :
    a.tree.KeepsArguments (SpecialNames.intern names).1.arguments scope := by
  have deep := isDepthFirst_tree analyzed
  have inner := id_ne_root_of_isOfFunction analyzed found (exact.kind ▸ ofFunction)
  obtain ⟨s, tree, coherent, routed, accounted⟩ := exists_state_of_analyze analyzed
  rw [tree] at found exact deep ⊢
  have bound : s.tree.own? scope.id (SpecialNames.intern names).1.arguments ≠ none := by
    intro absent
    exact ((exact.own?_eq_none_iff found _).1 absent).1 ⟨has, rfl⟩
  have within {r : ReferenceId} {use : Reference} {id : ScopeId}
      (there : s.tree.referenceAt? r = some use)
      (named : use.id.name = (SpecialNames.intern names).1.arguments) (used : s.tree.UsedIn r id)
      (below : s.tree.IsWithin id scope.id) :
      ∃ v, s.tree.variableAt? use.resolved = some v ∧ s.tree.IsWithin v.scope scope.id := by
    have finds := routed.finds_of_usedIn there used
    rw [named] at finds
    obtain ⟨place, further, owned⟩ := finds.exists_within below bound
    rw [State.own?_tree] at owned
    obtain ⟨v, meant, _, rfl⟩ := coherent.owner owned
    exact ⟨v, meant, further⟩
  refine ⟨exact.first_eq has, fun r use id there named used below =>
    within there named used below, fun id v held named global r listed place used below => ?_⟩
  obtain ⟨use, there, rfl⟩ := (accounted.mem_references held r).1 listed
  obtain ⟨w, meant, name⟩ := routed.meant coherent there
  cases held.symm.trans meant
  obtain ⟨v', meant', further⟩ := within there (name.symm.trans named) used below
  cases held.symm.trans meant'
  rw [global] at further
  have top : scope.id.index ≤ ScopeId.root.index := deep.index_le further
  exact inner (congrArg ScopeId.mk (Nat.le_zero.1 top))

/-- In every program that is analyzed, each function but an arrow has `arguments` of its own, which
all uses of the name within the function mean, unless they mean a variable further inside. -/
theorem confinesArguments_of_analyze (analyzed : p.analyze options names = (.ok a, names')) :
    p.ConfinesArguments (SpecialNames.intern names).1.arguments a.tree where
  placed r use found := by
    have deep := isDepthFirst_tree analyzed
    obtain ⟨s, tree, _, routed, _⟩ := exists_state_of_analyze analyzed
    rw [tree] at found deep ⊢
    obtain ⟨id, used⟩ := routed.exists_usedIn found
    exact ⟨id, used, fun other there => there.unique deep used⟩
  confined := by
    obtain ⟨sites, each, all⟩ := exists_sites_of_analyze analyzed
    refine ⟨sites, each.imp (fun f site both => ?_), all⟩
    obtain ⟨o, leaves, houses⟩ := both
    have laysOut := laysOut_of_analyze analyzed leaves houses
    refine ⟨laysOut, fun has => ?_, fun arrow scope member id owned => ?_⟩
    · obtain ⟨o, own, ofFunction, exact⟩ := laysOut.exists_exact has
      exact keepsArguments_of_analyze analyzed (houses.found _ site.outermost_mem) ofFunction own
        exact
    · obtain ⟨o, without, exact, explicit⟩ := laysOut.exists_exact_arrow arrow member
      obtain ⟨v, held, d, declares, named, declared⟩ :=
        exact.exists_declaration without (houses.found scope member) owned
      exact ⟨v, held, d, declares, named, explicit d declared⟩

end Analyzed

/-- `function f(a = arguments) { () => { let arguments; arguments; }; arguments; }`,
`(arguments) => arguments;` and `({ [arguments]: 0, m() { arguments; } });` -/
def nestedArguments : NumberedProgram × Workbench :=
  let id (name : String) : Ident Span String := ⟨.none, name⟩
  let use : Stmt Span String := .expr .none (.ident (id "arguments"))
  let bare (name : String) : BindingElement Span String :=
    .mk .none .nameFirst (.ident (id name)) none
  let arrow (params : List (BindingElement Span String)) (body : Body Span String) :
      Stmt Span String :=
    .expr .none (.arrow (.mk .none none .none (.mk (some .none) params none) body))
  Draft.number (.script .none []
    [.function (.mk .none (some (id "f")) .none
        (.mk (some .none) [.mk .none .nameFirst (.ident (id "a")) (some (.ident (id "arguments")))]
          none)
        (.block .none []
          [arrow [] (.block .none [] [.decl .none .none .let_ [bare "arguments"], use]), use])),
      arrow [bare "arguments"] (.concise (.ident (id "arguments"))),
      .expr .none (.object .none
        [.keyed .none (.computed .none (.ident (id "arguments"))) (.literal .none .null),
          .method .method (.ident (id "m")) (.mk .none none .none (.mk (some .none) [] none)
            (.block .none [] [use]))])]) .empty

/-- The function and the method have their own `arguments`, both arrows declare the name, and the
computed key means that of the root. -/
theorem nestedArguments_confinesArguments :
    ∃ a names', nestedArguments.1.analyze .default nestedArguments.2.names = (.ok a, names') ∧
      (a.tree.vars.toList.filter (fun v =>
          v.name = (SpecialNames.intern nestedArguments.2.names).1.arguments)).map
        (fun v => (v.scope.index, v.references.length)) =
          [(2, 2), (5, 1), (6, 1), (0, 1), (7, 1)] ∧
      nestedArguments.1.ConfinesArguments
        (SpecialNames.intern nestedArguments.2.names).1.arguments a.tree := by
  have computed : (nestedArguments.1.analyze .default nestedArguments.2.names).1.toOption.map
      (fun a => (a.tree.vars.toList.filter (fun v =>
          v.name = (SpecialNames.intern nestedArguments.2.names).1.arguments)).map
        (fun v => (v.scope.index, v.references.length))) =
      some [(2, 2), (5, 1), (6, 1), (0, 1), (7, 1)] := by
    decide +kernel
  have completed :
      (nestedArguments.1.analyze .default nestedArguments.2.names).1.isOk = true := by
    decide +kernel
  obtain ⟨a, names', analyzed⟩ := exists_of_isOk completed
  rw [analyzed] at computed
  exact ⟨a, names', analyzed, Option.some.inj computed, confinesArguments_of_analyze analyzed⟩

end ScopeAnalysis
