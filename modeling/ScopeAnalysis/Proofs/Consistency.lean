import ScopeAnalysis.Program.Numbering
import ScopeAnalysis.Proofs.Accounting
import ScopeAnalysis.Proofs.Grammar.Agreement
import ScopeAnalysis.Proofs.Lookup

/-!
# Consistency of a finished tree

Scopes, variables and references stand in three lists and point at each other by position. The main
statement is that in the tree of an analyzed program they point at each other both ways, that names
agree wherever they are said twice, and that a variable without declarations is either a global that
is used or the `arguments` of a function.
-/

namespace ScopeAnalysis

/-- The scope that holds the parameters of a function other than an arrow: the one that all its
parameters share if any of them runs code, else that of the function itself. -/
def NumberedProgram.HoldsArguments (p : NumberedProgram) (scope : Scope) : Prop :=
  ∃ kind ps, kind ≠ FunctionKind.arrow ∧
    ((scope.kind = .parameters ∧ Piece.scope (.parameters kind scope.node ps) ∈ p.pieces) ∨
      (scope.kind = .function ∧ Params.evaluates ps = false ∧
        ∃ around b, Piece.function around kind scope.node ps b ∈ p.pieces))

namespace ScopeTree

/-- The scopes, variables and references of the tree of a program agree with each other. -/
structure IsConsistent (tree : ScopeTree) (p : NumberedProgram) (arguments : Name) : Prop where
  bound : ∀ id scope, tree.scopeAt? id = some scope → ∀ entry ∈ scope.bindings,
    ∃ v, tree.variableAt? entry.2 = some v ∧ v.name = entry.1 ∧ v.scope = id
  unique : ∀ id scope, tree.scopeAt? id = some scope → (scope.bindings.map Prod.fst).Nodup
  /-- A variable is found in its scope under its name, and it is bound nowhere else. -/
  held : ∀ id v, tree.variableAt? id = some v → tree.own? v.scope v.name = some id ∧
    ∀ place scope, tree.scopeAt? place = some scope →
      scope.bindings.filter (fun entry => entry.2 = id) =
        if place = v.scope then [(v.name, id)] else []
  /-- A variable lists the references that mean it. -/
  listed : ∀ id v, tree.variableAt? id = some v → ∀ r,
    r ∈ v.references ↔ ∃ use, tree.referenceAt? r = some use ∧ use.resolved = id
  increasing : ∀ id v, tree.variableAt? id = some v →
    v.references.Pairwise (fun first second => first.index < second.index)
  meant : ∀ r use, tree.referenceAt? r = some use →
    ∃ v, tree.variableAt? use.resolved = some v ∧ v.name = use.id.name
  declared : ∀ id v, tree.variableAt? id = some v → ∀ d ∈ v.declarations, d.id.name = v.name
  /-- What is declared nowhere is a global that is used, or the `arguments` of a function. -/
  bare : ∀ id v, tree.variableAt? id = some v → v.declarations = [] →
    (v.scope = ScopeId.root ∧ v.references ≠ []) ∨
      (v.name = arguments ∧ ∃ scope, tree.scopeAt? v.scope = some scope ∧ p.HoldsArguments scope)
  implicit : ∀ id v id' v', tree.variableAt? id = some v → tree.variableAt? id' = some v' →
    v.isImplicit = true → v'.isImplicit = true → v.name = v'.name → id = id'

end ScopeTree

namespace Resolution

namespace State

/-- A name that a scope binds is found there. -/
theorem Coherent.own_of_mem {s : State} (coherent : s.Coherent) {id : ScopeId} {name : Name}
    {v : VariableId} (member : (name, v) ∈ s.bindingsOf id) : s.own name id = some v := by
  obtain ⟨before, after, split, apart⟩ := coherent.split member
  have earlier : before.find? (fun entry => entry.1 = name) = none := by
    simp only [List.find?_eq_none, decide_eq_true_eq]
    exact fun entry inside => (apart entry (List.mem_append_left _ inside)).1
  simp [own, split, List.find?_append, earlier]

theorem Coherent.own?_of_variableAt? {s : State} (coherent : s.Coherent) {id : VariableId}
    {v : Variable} (found : s.tree.variableAt? id = some v) :
    s.tree.own? v.scope v.name = some id := by
  rw [own?_tree]
  exact coherent.own_of_mem (coherent.held id.index v found)

/-- What a use means has its name. -/
theorem Routed.meant {s : State} (routed : s.Routed) (coherent : s.Coherent) {r : ReferenceId}
    {use : Reference} (found : s.tree.referenceAt? r = some use) :
    ∃ v, s.tree.variableAt? use.resolved = some v ∧ v.name = use.id.name := by
  obtain ⟨v, chain, route⟩ := routed.routes r.index use found
  obtain ⟨w, foundW, name, _⟩ := coherent.owner route.owned
  exact ⟨w, foundW, name⟩

/-- A variable lists just the uses that mean it. -/
theorem Accounted.mem_references {s : State} (accounted : s.Accounted none) {id : VariableId}
    {v : Variable} (found : s.tree.variableAt? id = some v) (r : ReferenceId) :
    r ∈ v.references ↔ ∃ use, s.tree.referenceAt? r = some use ∧ use.resolved = id := by
  rw [accounted.listed id.index v found, State.mem_referencesTo]
  rfl

/-- A variable is bound once, by its own scope. -/
theorem Coherent.filter_bindings {s : State} (coherent : s.Coherent) {id : VariableId}
    {v : Variable} (found : s.vars[id.index]? = some v) {i : Nat} {scope : Scope}
    (there : s.scopes[i]? = some scope) :
    scope.bindings.filter (fun entry => entry.2 = id) =
      if (⟨i⟩ : ScopeId) = v.scope then [(v.name, id)] else [] := by
  have bindings : s.bindingsOf ⟨i⟩ = scope.bindings := bindingsOf_eq there
  rw [← bindings]
  split
  next here =>
    have member := coherent.held id.index v found
    rw [← here] at member
    obtain ⟨before, after, split, apart⟩ := coherent.split member
    rw [List.forall_mem_append] at apart
    have first : before.filter (fun entry => entry.2 = id) = [] :=
      List.filter_eq_nil_iff.2 (fun entry inside => by simpa using (apart.1 entry inside).2)
    have last : after.filter (fun entry => entry.2 = id) = [] :=
      List.filter_eq_nil_iff.2 (fun entry inside => by simpa using (apart.2 entry inside).2)
    rw [split, List.filter_append, first, List.filter_cons_of_pos (by simp), last]
    rfl
  next elsewhere =>
    refine List.filter_eq_nil_iff.2 (fun entry member same => elsewhere ?_)
    obtain ⟨w, foundW, _, scopeW⟩ := coherent.bound _ _ member
    rw [decide_eq_true_eq] at same
    rw [same, found] at foundW
    cases foundW
    exact scopeW.symm

end State

end Resolution

namespace MultiMap

variable {κ ν : Type} [DecidableEq κ]

theorem mem_insertEntry_nil {key other : κ} {value : ν} {entries : List (κ × List ν)}
    (member : (other, []) ∈ insertEntry key value entries) : (other, []) ∈ entries := by
  induction entries with
  | nil => simp [insertEntry] at member
  | cons entry rest ih =>
    obtain ⟨first, values⟩ := entry
    rw [insertEntry] at member
    split at member
    · rcases List.mem_cons.1 member with here | further
      · simp at here
      · exact List.mem_cons_of_mem _ further
    · rcases List.mem_cons.1 member with here | further
      · rw [here]
        exact List.mem_cons_self
      · exact List.mem_cons_of_mem _ (ih further)

/-- A key without values had none before. -/
theorem mem_insertAll_nil {map : MultiMap κ ν} {added : List (κ × ν)} {key : κ}
    (member : (key, []) ∈ (map.insertAll added).entries) : (key, []) ∈ map.entries := by
  induction added generalizing map with
  | nil => exact member
  | cons first rest ih =>
    have later : (key, []) ∈ ((map.insert first.1 first.2).insertAll rest).entries := member
    exact mem_insertEntry_nil (ih later)

end MultiMap

/-- Of what a scope is opened with, only its own `arguments` may lack declarations. -/
theorem Opening.mem_contents_nil {arguments name : Name} {o : Opening}
    (member : (name, []) ∈ (o.contents arguments).entries) :
    o.hasArguments = true ∧ name = arguments := by
  have start := MultiMap.mem_insertAll_nil member
  cases has : o.hasArguments with
  | false => simp [has] at start
  | true => simpa [has] using start

theorem NumberedProgram.hasArguments_around {options : Options} {useStrict : Name}
    {p : NumberedProgram} : ∀ o ∈ p.around options useStrict, o.hasArguments = false := by
  cases p <;> simp [around, owner, beside, Owner.opening]

/-- The scopes of a program that have their own `arguments` are those that hold the parameters of a
function other than an arrow. -/
theorem NumberedProgram.holdsArguments_of_hasArguments {options : Options} {useStrict : Name}
    {p : NumberedProgram} {o : Opening} {scope : Scope} (member : o ∈ p.openings options useStrict)
    (has : o.hasArguments = true) (kind : scope.kind = o.kind) (node : scope.node = o.node) :
    p.HoldsArguments scope := by
  rcases mem_openings.1 member with
    outer | ⟨inner, inside, rfl⟩ | ⟨around, kind', node', ps, b, inside, rfl⟩
  · rw [hasArguments_around o outer] at has
    cases has
  · cases inner with
    | parameters kind' node' ps =>
      refine ⟨kind', ps, ?_, .inl ⟨kind, ?_⟩⟩
      · rintro rfl
        cases has
      · rw [node]
        exact inside
    | _ => cases has
  · simp only [Owner.opening, Owner.ofFunction, Bool.and_eq_true, Bool.not_eq_true'] at has
    obtain ⟨⟨own, runs⟩, _⟩ := has
    have other : kind' ≠ .arrow := by
      rintro rfl
      cases own
    refine ⟨kind', ps, other, .inr ⟨?_, runs, around, b, ?_⟩⟩
    · rw [kind]
      cases kind' <;> first | rfl | exact absurd rfl other
    · rw [node]
      exact inside

section Analyzed

open Resolution

variable {options : Options} {p : NumberedProgram} {names names' : Interner} {a : Analysis}

/-- A scope of the tree of any analyzed program is one of the program, and it holds no name without
declarations but its own `arguments`, the root apart. -/
theorem exists_opening_of_analyze (analyzed : p.analyze options names = (.ok a, names'))
    {scope : Scope} (member : scope ∈ a.tree.scopes.toList) :
    ∃ o ∈ p.openings options (SpecialNames.intern names).1.useStrict,
      scope.kind = o.kind ∧ scope.node = o.node ∧
        ∀ name, (name, []) ∈ (a.tree.contents scope).entries → scope.id = ScopeId.root ∨
          o.hasArguments = true ∧ name = (SpecialNames.intern names).1.arguments := by
  obtain ⟨node, decls, inner, agrees, tree⟩ :=
    exists_layout (given_nothing options names p.pieces) analyzed
  have named := agrees.named
  have shapes := agrees.shapes
  simp only [Layout.argumentNamesAll, Layout.openingsAll, List.append_nil] at named shapes
  have laid := rel_of_forall₂ (State.forall₂_isFilled_initial #[.start p.isModule p.node.id]
    .global node none decls inner named)
  rw [tree] at member
  obtain ⟨o', asked, filled⟩ :=
    Multiset.exists_mem_of_rel_of_mem (Multiset.rel_flip.2 laid) (Multiset.mem_coe.2 member)
  have shaped : o'.shape ∈ Multiset.ofList
      ((p.openings options (SpecialNames.intern names).1.useStrict).map Opening.shape) := by
    rw [← shapes]
    exact Multiset.mem_coe.2 (List.mem_map_of_mem (Multiset.mem_coe.1 asked))
  obtain ⟨o, there, same⟩ := List.mem_map.1 (Multiset.mem_coe.1 shaped)
  simp only [Opening.shape, Prod.mk.injEq] at same
  refine ⟨o, there, filled.kind.trans same.1.symm, filled.node.trans same.2.1.symm, ?_⟩
  intro name held
  obtain ⟨bare, contents, root⟩ := filled.contents
  rw [tree, contents, List.mem_append] at held
  rcases held with own | extra
  · rw [same.2.2]
    exact .inr (Opening.mem_contents_nil own)
  · obtain ⟨_, inBare, _⟩ := List.mem_map.1 extra
    exact .inl (root (List.ne_nil_of_mem inBare))

/-- The tree of an analyzed program is that of a state in which all invariants of a walk hold. -/
theorem exists_state_of_analyze (analyzed : p.analyze options names = (.ok a, names')) :
    ∃ s : State, a.tree = s.tree ∧ s.Coherent ∧ s.Routed ∧ s.Accounted none := by
  obtain ⟨outline, decls, inner, _, _, tree⟩ := analyze_layOut analyzed
  exact ⟨_, tree, State.coherent_layOut_initial .., State.routed_layOut_initial ..,
    State.accounted_layOut_initial ..⟩

/-- A variable that nothing declares is a global that is used, or the `arguments` of a function. -/
theorem bare_of_analyze (analyzed : p.analyze options names = (.ok a, names')) {id : VariableId}
    {v : Variable} (found : a.tree.variableAt? id = some v) (bare : v.declarations = []) :
    (v.scope = ScopeId.root ∧ v.references ≠ []) ∨
      (v.name = (SpecialNames.intern names).1.arguments ∧
        ∃ scope, a.tree.scopeAt? v.scope = some scope ∧ p.HoldsArguments scope) := by
  obtain ⟨s, tree, coherent, _, accounted⟩ := exists_state_of_analyze analyzed
  have opens {scope : Scope} (member : scope ∈ a.tree.scopes.toList) :=
    exists_opening_of_analyze analyzed member
  rw [tree] at opens found ⊢
  have member := coherent.held id.index v found
  obtain ⟨scope, there⟩ := State.exists_of_mem_bindingsOf member
  have inTree : scope ∈ s.tree.scopes.toList :=
    List.mem_of_getElem? ((Array.getElem?_toList ..).trans there)
  obtain ⟨o, asked, kind, node, held⟩ := opens inTree
  have entry : (v.name, []) ∈ (s.tree.contents scope).entries := by
    rw [State.bindingsOf_eq there] at member
    refine List.mem_map.2 ⟨_, member, ?_⟩
    have there : s.tree.vars[id.index]? = some v := found
    rw [there]
    exact congrArg (Prod.mk v.name) bare
  rcases held v.name entry with root | ⟨has, name⟩
  · have atRoot : v.scope = ScopeId.root := (coherent.placed _ _ there).symm.trans root
    refine .inl ⟨atRoot, fun unused => ?_⟩
    cases accounted.used id.index v found atRoot bare unused
  · exact .inr ⟨name, scope, there,
      NumberedProgram.holdsArguments_of_hasArguments asked has kind node⟩

/-- In the tree of an analyzed program scopes, variables and references agree with each other. -/
theorem isConsistent_of_analyze (analyzed : p.analyze options names = (.ok a, names')) :
    a.tree.IsConsistent p (SpecialNames.intern names).1.arguments := by
  obtain ⟨s, tree, coherent, routed, accounted⟩ := exists_state_of_analyze analyzed
  have bare {id : VariableId} {v : Variable} (found : a.tree.variableAt? id = some v) :=
    bare_of_analyze analyzed found
  rw [tree] at bare ⊢
  refine ⟨?_, ?_, fun id v found => ⟨coherent.own?_of_variableAt? found, ?_⟩, ?_, ?_, ?_, ?_,
    fun id v found => bare found, ?_⟩
  · intro id scope found entry member
    have bindings : s.bindingsOf id = scope.bindings := State.bindingsOf_eq found
    exact coherent.bound id entry (bindings ▸ member)
  · intro id scope found
    have bindings : s.bindingsOf id = scope.bindings := State.bindingsOf_eq found
    exact bindings ▸ coherent.unique id
  · exact fun place scope there => coherent.filter_bindings found there
  · exact fun id v found => accounted.mem_references found
  · intro id v found
    rw [accounted.listed id.index v found]
    exact s.referencesTo_increasing _
  · exact fun r use found => routed.meant coherent found
  · exact fun id v found => accounted.declared id.index v found
  · intro id v id' v' found found' isImplicit isImplicit' name
    simp only [Variable.isImplicit, Bool.and_eq_true, beq_iff_eq] at isImplicit isImplicit'
    have first := coherent.own?_of_variableAt? found
    have second := coherent.own?_of_variableAt? found'
    rw [isImplicit.1] at first
    rw [isImplicit'.1, ← name, first] at second
    exact Option.some.inj second

end Analyzed

/-- `function f(a) { a(b); } (function (c = b) { arguments; }); () => arguments;` -/
def implicitNames : NumberedProgram × Workbench :=
  let id (name : String) : Ident Span String := ⟨.none, name⟩
  let param (name : String) (init : Option (Expr Span String)) : BindingElement Span String :=
    .mk .none .nameFirst (.ident (id name)) init
  Draft.number (.script .none []
    [.function (.mk .none (some (id "f")) .none (.mk (some .none) [param "a" none] none)
        (.block .none [] [.expr .none (.call .none (.ident (id "a")) [.ident (id "b")])])),
      .expr .none (.function (.mk .none none .none
        (.mk (some .none) [param "c" (some (.ident (id "b")))] none)
        (.block .none [] [.expr .none (.ident (id "arguments"))]))),
      .expr .none (.arrow (.mk .none none .none (.mk (some .none) [] none)
        (.concise (.ident (id "arguments")))))]) .empty

/-- Both functions have their own `arguments`, while `b` and the `arguments` of the arrow belong to
the root. -/
theorem implicitNames_isConsistent :
    ∃ a names', implicitNames.1.analyze .default implicitNames.2.names = (.ok a, names') ∧
      (a.tree.vars.toList.filter (fun v => v.declarations.isEmpty)).map
        (fun v => (v.scope.index, v.references.length)) = [(2, 0), (0, 2), (3, 1), (0, 1)] ∧
      a.tree.IsConsistent implicitNames.1
        (SpecialNames.intern implicitNames.2.names).1.arguments := by
  have computed : (implicitNames.1.analyze .default implicitNames.2.names).1.toOption.map
      (fun a => (a.tree.vars.toList.filter (fun v => v.declarations.isEmpty)).map
        (fun v => (v.scope.index, v.references.length))) =
      some [(2, 0), (0, 2), (3, 1), (0, 1)] := by
    decide +kernel
  have completed : (implicitNames.1.analyze .default implicitNames.2.names).1.isOk = true := by
    decide +kernel
  obtain ⟨a, names', analyzed⟩ := Resolution.exists_of_isOk completed
  rw [analyzed] at computed
  exact ⟨a, names', analyzed, Option.some.inj computed, isConsistent_of_analyze analyzed⟩

end ScopeAnalysis
