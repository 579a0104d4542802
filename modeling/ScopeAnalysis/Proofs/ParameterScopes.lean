import ScopeAnalysis.Proofs.FunctionSites
import ScopeAnalysis.Proofs.PromotionAdds

/-!
# Parameter scopes

Syntax alone decides whether the parameters of a function have a scope of their own: they have one
just if a parameter contains a default value or a computed key. The main statement says what is in
this scope and around it, for every function of an analyzed program, and that there are no other
scopes of functions.
-/

namespace ScopeAnalysis

/-- Related multisets of two lists are related one by one, in some order. -/
theorem exists_forall₂_of_rel {α β : Type} {r : α → β → Prop} {as : List α} {bs : List β}
    (rel : Multiset.Rel r as bs) : ∃ bs', List.Forall₂ r as bs' ∧ bs'.Perm bs := by
  induction as generalizing bs with
  | nil => exact ⟨[], .nil, Multiset.coe_eq_coe.1 (Multiset.rel_zero_left.1 rel).symm⟩
  | cons a rest ih =>
    rw [← Multiset.cons_coe, Multiset.rel_cons_left] at rel
    obtain ⟨b, others, first, further, same⟩ := rel
    obtain ⟨bs₁, rfl⟩ := Quotient.exists_rep others
    obtain ⟨bs', each, perm⟩ := ih further
    exact ⟨b :: bs', .cons first each, (perm.cons b).trans (Multiset.coe_eq_coe.1 same.symm)⟩

theorem exists_of_forall₂_of_mem {α β : Type} {r : α → β → Prop} {as : List α} {bs : List β}
    (each : List.Forall₂ r as bs) {b : β} (member : b ∈ bs) : ∃ a ∈ as, r a b := by
  induction each with
  | nil => cases member
  | cons first _ ih =>
    obtain rfl | later := List.mem_cons.1 member
    · exact ⟨_, List.mem_cons_self, first⟩
    · obtain ⟨a, inside, holds⟩ := ih later
      exact ⟨a, List.mem_cons_of_mem _ inside, holds⟩

theorem forall₂_comp {α β γ : Type} {r : α → β → Prop} {q : β → γ → Prop} {as : List α}
    {bs : List β} {cs : List γ} (first : List.Forall₂ r as bs) (second : List.Forall₂ q bs cs) :
    List.Forall₂ (Relation.Comp r q) as cs := by
  induction first generalizing cs with
  | nil =>
    cases second
    exact .nil
  | cons here _ ih =>
    cases second with
    | cons there others => exact .cons ⟨_, here, there⟩ (ih others)

/-- Whether a function has `arguments` of its own. All have but arrows, which alone may have an
expression for a body. -/
def FunctionForm.hasArguments (f : FunctionForm) : Bool :=
  f.kind.hasArguments && !f.body.isConcise

namespace ScopeTree

/-- The scopes of a function, laid out as its parameters demand. What its own scope declares besides
the parameters has names of declarations in the body. -/
inductive LaysOut (arguments : Name) (tree : ScopeTree) (f : FunctionForm) : FunctionSite → Prop
  | together {own : Scope} {others : List Declaration} (still : f.params.evaluates = false)
      (bodily : ∀ d ∈ others, d.IsFrom f.body.declared)
      (exact : Opening.IsExact arguments ⟨f.kind.scopeKind, f.node, f.hasArguments,
        Outline.declareAs .parameter f.params.names ++ others⟩ tree own) :
      LaysOut arguments tree f ⟨none, [], own⟩
  | apart {params own : Scope} {apart : List Scope} {others : List Declaration}
      (runs : f.params.evaluates = true) (bodily : ∀ d ∈ others, d.IsFrom f.body.declared)
      (exact : Opening.IsExact arguments ⟨.parameters, f.node, f.kind.hasArguments,
        Outline.declareAs .parameter f.params.names⟩ tree params)
      (expressions : List.Forall₂ (fun node scope =>
        Opening.IsExact arguments ⟨.parameterExpression, node, false, []⟩ tree scope)
        f.params.evaluatedNodes apart)
      (children : tree.children? params.id = some (apart ++ [own]))
      (body : Opening.IsExact arguments ⟨f.kind.scopeKind, f.node, false, others⟩ tree own) :
      LaysOut arguments tree f ⟨some params, apart, own⟩

/-- Where a parameter runs code, the names of all parameters mean the parameters. -/
def SeesParameters (tree : ScopeTree) (f : FunctionForm) (site : FunctionSite) : Prop :=
  ∀ params ∈ site.params, ∀ scope ∈ site.apart, ∀ r use, tree.referenceAt? r = some use →
    tree.UsedIn r scope.id → ∀ id ∈ f.params.names, id.name = use.id.name →
      tree.own? params.id use.id.name = some use.resolved

end ScopeTree

/-- Every function has its scopes in the tree, as its parameters demand, and there are no other
scopes of functions or parameters. -/
def NumberedProgram.PlacesParameters (p : NumberedProgram) (arguments : Name) (tree : ScopeTree) :
    Prop :=
  ∃ sites, List.Forall₂ (fun f site => tree.LaysOut arguments f site ∧ tree.SeesParameters f site)
      p.functions sites ∧
    (sites.flatMap FunctionSite.scopes).Perm (tree.scopesOf ScopeKind.isOfFunction)

namespace ScopeTree

theorem Houses.found {arguments : Name} {tree : ScopeTree} {o : FunctionOutline}
    {site : FunctionSite} (houses : tree.Houses arguments o site) :
    ∀ scope ∈ site.scopes, tree.scopeAt? scope.id = some scope := by
  intro scope member
  rw [FunctionSite.mem_scopes] at member
  cases houses with
  | together _ _ body =>
    obtain params | apart | rfl := member
    · cases params
    · cases apart
    · exact body.found
  | apart _ _ found _ expressions _ body =>
    obtain params | apart | rfl := member
    · cases params
      exact found
    · obtain ⟨node, _, isApart⟩ := exists_of_forall₂_of_mem expressions apart
      exact isApart.found
    · exact body.found

/-- Scopes that are found under their own identity are the ones asked for. -/
theorem mapM_scopeAt?_map {tree : ScopeTree} {scopes : List Scope}
    (found : ∀ scope ∈ scopes, tree.scopeAt? scope.id = some scope) :
    (scopes.map Scope.id).mapM tree.scopeAt? = some scopes := by
  induction scopes with
  | nil => rfl
  | cons scope rest ih =>
    obtain ⟨here, there⟩ := List.forall_mem_cons.1 found
    simp [here, ih there]

end ScopeTree

/-- A scope binds its own `arguments` and what it declares. -/
theorem Opening.IsExact.own?_eq_none_iff {arguments : Name} {o : Opening} {tree : ScopeTree}
    {scope : Scope} (exact : o.IsExact arguments tree scope)
    (found : tree.scopeAt? scope.id = some scope) (name : Name) :
    tree.own? scope.id name = none ↔
      ¬ (o.hasArguments = true ∧ name = arguments) ∧ ∀ d ∈ o.decls, d.id.name ≠ name := by
  rw [ScopeTree.own?_eq_none_iff found, tree.keys_contents, exact.names, List.mem_eraseDups,
    List.mem_append, not_or, List.mem_map]
  cases o.hasArguments <;> simp

namespace Resolution.State

/-- A use that stands directly in a scope means what its name is found to be from there. -/
theorem Routed.finds_of_usedIn {s : State} (routed : s.Routed) {r : ReferenceId} {use : Reference}
    (found : s.tree.referenceAt? r = some use) {id : ScopeId} (used : s.tree.UsedIn r id) :
    s.tree.Finds use.id.name id use.resolved := by
  obtain ⟨⟨scope, entry, there, inside, member⟩, _⟩ | ⟨_, v, means, rfl⟩ := used
  · have pair : (entry.1, r) ∈ scope.through.pairs :=
      List.mem_flatMap.2 ⟨entry, inside, List.mem_map_of_mem member⟩
    obtain ⟨use', found', name, finds⟩ := routed.finds_of_mem_pairs there pair
    cases found.symm.trans found'
    exact name ▸ finds
  · obtain ⟨w, _, foundW, _, _, _, owned, _⟩ := routed.ways r use found
    simp only [ScopeTree.resolve?, found, Option.bind_eq_bind, Option.bind_some] at means
    cases foundW.symm.trans means
    exact .own owned

end Resolution.State

open Resolution

section Analyzed

variable {options : Options} {p : NumberedProgram} {names names' : Interner} {a : Analysis}

/-- The functions of an analyzed program have their scopes in its tree, and there are no other
scopes of functions. -/
theorem exists_sites_of_analyze (analyzed : p.analyze options names = (.ok a, names')) :
    ∃ sites, List.Forall₂ (Relation.Comp FunctionForm.Leaves
        (a.tree.Houses (SpecialNames.intern names).1.arguments)) p.functions sites ∧
      (sites.flatMap FunctionSite.scopes).Perm (a.tree.scopesOf ScopeKind.isOfFunction) := by
  obtain ⟨outline, decls, inner, folded, completed, tree⟩ := analyze_layOut analyzed
  obtain ⟨outlines, leaves, perm⟩ := exists_forall₂_of_rel
    (Folding.keeps_outline p _ outline (congrArg Prod.fst folded))
  have named := (agrees_of_folded folded completed).named
  rw [Layout.argumentNamesAll, Layout.argumentNamesAll, List.append_nil] at named
  obtain ⟨ids, follows⟩ := State.follows_layOut_initial #[.start p.isModule p.node.id] .global
    outline.node none decls inner named
  rw [← tree] at follows
  have houses : Course.Houses _ a.tree _ _ :=
    Course.houses_ofProgram ⟨options, (SpecialNames.intern names).1.arguments⟩ outline
  rw [completed] at houses
  have still : ∀ f ∈ Outline.functionsAll outline.statements, ∀ q ∈ f.params, q.IsStill := by
    intro f member
    obtain ⟨form, _, leaf⟩ := exists_of_forall₂_of_mem leaves (perm.mem_iff.2 member)
    exact leaf.still
  obtain ⟨sites, each, all⟩ := houses still rfl none ids _ follows
  obtain ⟨sites', each', perm'⟩ := List.perm_comp_forall₂ perm each
  refine ⟨sites', forall₂_comp leaves each', (perm'.flatMap_right _).trans (all.trans (.of_eq ?_))⟩
  rw [tree]
  rfl

/-- No scope of a function is the root. -/
theorem id_ne_root_of_isOfFunction (analyzed : p.analyze options names = (.ok a, names'))
    {scope : Scope} (found : a.tree.scopeAt? scope.id = some scope)
    (ofFunction : scope.kind.isOfFunction = true) : scope.id ≠ ScopeId.root := by
  refine id_ne_root_of_analyze analyzed
    (List.mem_of_getElem? ((Array.getElem?_toList ..).trans found)) (fun global => ?_)
  rw [global] at ofFunction
  cases ofFunction

/-- A scope of a function declares exactly what it was opened with. -/
theorem isExact_of_analyze (analyzed : p.analyze options names = (.ok a, names')) {o : Opening}
    {scope : Scope} (found : a.tree.scopeAt? scope.id = some scope)
    (filled : o.IsFilled (SpecialNames.intern names).1.arguments a.tree scope)
    (ofFunction : o.kind.isOfFunction = true) :
    o.IsExact (SpecialNames.intern names).1.arguments a.tree scope :=
  filled.isExact (id_ne_root_of_isOfFunction analyzed found (filled.kind ▸ ofFunction))

variable {f : FunctionForm} {o : FunctionOutline} {site : FunctionSite}

theorem laysOut_of_analyze (analyzed : p.analyze options names = (.ok a, names'))
    (leaves : f.Leaves o)
    (houses : a.tree.Houses (SpecialNames.intern names).1.arguments o site) :
    a.tree.LaysOut (SpecialNames.intern names).1.arguments f site := by
  have placed := houses.found
  cases houses with
  | together bounds still body =>
    obtain ⟨bind, evaluates, _⟩ := leaves.params _ bounds
    obtain ⟨others, owns, filled⟩ := body.filled
    have exact := isExact_of_analyze analyzed body.found filled o.kind.isOfFunction_scopeKind
    rw [leaves.kind, leaves.node, leaves.concise, bind] at exact
    exact .together (evaluates ▸ still) (leaves.declares.isFrom owns) exact
  | @apart bound params own apart bounds runs found filled expressions children body =>
    obtain ⟨bind, evaluates, nodes⟩ := leaves.params _ bounds
    obtain ⟨others, owns, holds⟩ := body.filled
    have exact := isExact_of_analyze analyzed found filled rfl
    have exact' := isExact_of_analyze analyzed body.found holds o.kind.isOfFunction_scopeKind
    rw [leaves.kind, leaves.node, bind] at exact
    rw [leaves.kind, leaves.node] at exact'
    rw [nodes] at expressions
    refine .apart (evaluates ▸ runs) (leaves.declares.isFrom owns) exact
      (expressions.imp (fun _ _ apart =>
        isExact_of_analyze analyzed apart.found apart.filled rfl)) ?_ exact'
    have there : ∀ scope ∈ apart ++ [own], a.tree.scopeAt? scope.id = some scope :=
      fun scope member => placed scope (List.mem_append_right _ member)
    have all := ScopeTree.mapM_scopeAt?_map there
    rw [List.map_append, List.map_singleton, ← children] at all
    rw [ScopeTree.children?, found]
    exact all

theorem seesParameters_of_analyze (analyzed : p.analyze options names = (.ok a, names'))
    (leaves : f.Leaves o)
    (houses : a.tree.Houses (SpecialNames.intern names).1.arguments o site) :
    a.tree.SeesParameters f site := by
  intro params member scope inside r use there used id listed name
  cases houses with
  | together => cases member
  | @apart bound params own apart bounds runs found filled expressions children body =>
    cases member
    obtain ⟨s, tree, _, routed, _⟩ := exists_state_of_analyze analyzed
    obtain ⟨node, _, isApart⟩ := exists_of_forall₂_of_mem expressions inside
    have finds : a.tree.Finds use.id.name scope.id use.resolved := by
      rw [tree] at there used ⊢
      exact routed.finds_of_usedIn there used
    have up : a.tree.parentOf? scope.id = some params.id := by
      rw [ScopeTree.parentOf?, isApart.found]
      exact isApart.parent
    have free : a.tree.own? scope.id use.id.name = none :=
      ((isExact_of_analyze analyzed isApart.found isApart.filled rfl).own?_eq_none_iff
        isApart.found _).2 ⟨fun has => Bool.false_ne_true has.1, List.forall_mem_nil _⟩
    have bound : a.tree.own? params.id use.id.name ≠ none := by
      intro absent
      have none := (((isExact_of_analyze analyzed found filled rfl).own?_eq_none_iff found _).1
        absent).2
      refine none ⟨id, .parameter⟩ (List.mem_map.2 ⟨id, ?_, rfl⟩) name
      rw [(leaves.params _ bounds).1]
      exact listed
    obtain ⟨v, owned⟩ := Option.ne_none_iff_exists'.1 bound
    rw [owned, finds.unique (.outward free up (.own owned))]

/-- In every program that is analyzed the parameters of a function have a scope of their own just if
one of them contains a default value or a computed key. -/
theorem placesParameters_of_analyze (analyzed : p.analyze options names = (.ok a, names')) :
    p.PlacesParameters (SpecialNames.intern names).1.arguments a.tree := by
  obtain ⟨sites, each, all⟩ := exists_sites_of_analyze analyzed
  refine ⟨sites, each.imp (fun f site both => ?_), all⟩
  obtain ⟨o, leaves, houses⟩ := both
  exact ⟨laysOut_of_analyze analyzed leaves houses,
    seesParameters_of_analyze analyzed leaves houses⟩

end Analyzed

/-- `function f(a, b = c, {[b]: c}, ...arguments) { var a; }` and
`({ set g([]) {}, m: (x, { y: [x = 0] }) => x });` -/
def laterParameter : NumberedProgram × Workbench :=
  let id (name : String) : Ident Span String := ⟨.none, name⟩
  let bare (b : Binding Span String) : BindingElement Span String := .mk .none .nameFirst b none
  let given (name : String) (init : Expr Span String) : BindingElement Span String :=
    .mk .none .nameFirst (.ident (id name)) (some init)
  Draft.number (.script .none []
    [.function (.mk .none (some (id "f")) .none
        (.mk (some .none) [bare (.ident (id "a")), given "b" (.ident (id "c")),
            bare (.object .none
              [.keyed .none (.computed .none (.ident (id "b"))) (bare (.ident (id "c")))] none)]
          (some (.ident (id "arguments"))))
        (.block .none [] [.decl .none .none .var [bare (.ident (id "a"))]])),
      .expr .none (.object .none
        [.method .setter (.ident (id "g")) (.mk .none none .none
            (.mk none [bare (.array .none [] none)] none) (.block .none [] [])),
          .keyed .none (.ident (id "m")) (.arrow (.mk .none none .none
            (.mk (some .none) [bare (.ident (id "x")), bare (.object .none
              [.keyed .none (.ident (id "y")) (bare (.array .none
                [.element (given "x" (.literal .none .null))] none))] none)] none)
            (.concise (.ident (id "x")))))])]) .empty

/-- The initial value of `b` sees the parameter behind it. -/
theorem laterParameter_placesParameters :
    laterParameter.1.functions.map (fun f =>
        (f.kind, f.params.evaluates, f.params.evaluatedNodes.map (fun node => node.id.val))) =
      [(.declaration, true, [4, 11]), (.setter, false, []), (.arrow, true, [37])] ∧
      ∃ a names', laterParameter.1.analyze .default laterParameter.2.names = (.ok a, names') ∧
        laterParameter.1.PlacesParameters
          (SpecialNames.intern laterParameter.2.names).1.arguments a.tree := by
  have completed :
      (laterParameter.1.analyze .default laterParameter.2.names).1.isOk = true := by
    decide +kernel
  obtain ⟨a, names', analyzed⟩ := exists_of_isOk completed
  exact ⟨by decide +kernel, a, names', analyzed, placesParameters_of_analyze analyzed⟩

end ScopeAnalysis
