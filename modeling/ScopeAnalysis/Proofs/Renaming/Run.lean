import ScopeAnalysis.Proofs.Consistency
import ScopeAnalysis.Proofs.Renaming.Faithful
import ScopeAnalysis.Proofs.Stage

/-!
# Renamed runs

Laying out a renamed layout goes through the same states with their variables renamed, if the
renaming is faithful to where it ends. Which variable a use finds may depend on names that are only
declared later, so it does not do to be faithful to where a step begins.
-/

namespace ScopeAnalysis.Resolution.State

variable {f : Occurrence → Name} {new : VariableId → Name → Name} {arguments : Name}

/-- A scope that binds the same variables under new names, and through which the same uses pass, in
the same order, under theirs. -/
structure RenamesScope (f : Occurrence → Name) (new : VariableId → Name → Name)
    (references : Array Reference) (a b : Scope) : Prop where
  frame : b.frame = a.frame
  bindings : b.bindings = renameBindings new a.bindings
  through : ∃ added : List (Occurrence × ReferenceId),
    a.through = MultiMap.empty.insertAll (added.map (fun pass => (pass.1.name, pass.2))) ∧
    b.through = MultiMap.empty.insertAll (added.map (fun pass => (f pass.1, pass.2))) ∧
    ∀ pass ∈ added, ∃ use, references[pass.2.index]? = some use ∧ use.id = pass.1

theorem RenamesScope.push {references : Array Reference} {a b : Scope}
    (renames : RenamesScope f new references a b) (use : Reference) :
    RenamesScope f new (references.push use) a b := by
  obtain ⟨added, through, through', recorded⟩ := renames.through
  refine ⟨renames.frame, renames.bindings, added, through, through', fun pass member => ?_⟩
  obtain ⟨old, found, same⟩ := recorded pass member
  have below := (Array.getElem?_eq_some_iff.1 found).1
  refine ⟨old, ?_, same⟩
  rw [Array.getElem?_push, if_neg (Nat.ne_of_lt below)]
  exact found

/-- The second state is the first one with its variables renamed. -/
structure Renames (f : Occurrence → Name) (new : VariableId → Name → Name) (s t : State) :
    Prop where
  openScopes : t.openScopes = s.openScopes
  vars : t.vars = s.vars.mapIdx (fun i v => v.rename (new ⟨i⟩))
  references : t.references = s.references.map (Reference.rename new)
  size : t.scopes.size = s.scopes.size
  scopes : ∀ (i : Nat) (a b : Scope), s.scopes[i]? = some a → t.scopes[i]? = some b →
    RenamesScope f new s.references a b

namespace Renames

variable {s t : State}

theorem current (renames : Renames f new s t) : t.current = s.current := by
  rw [State.current, renames.openScopes]
  rfl

theorem vars_size (renames : Renames f new s t) : t.vars.size = s.vars.size := by
  rw [renames.vars, Array.size_mapIdx]

theorem references_size (renames : Renames f new s t) :
    t.references.size = s.references.size := by
  rw [renames.references, Array.size_map]

theorem bindingsOf (renames : Renames f new s t) (id : ScopeId) :
    t.bindingsOf id = renameBindings new (s.bindingsOf id) := by
  unfold State.bindingsOf
  cases found : s.scopes[id.index]? with
  | none =>
    have outside := Array.getElem?_eq_none_iff.1 found
    rw [← renames.size] at outside
    rw [Array.getElem?_eq_none outside]
    rfl
  | some a =>
    have below := (Array.getElem?_eq_some_iff.1 found).1
    rw [← renames.size] at below
    have there := Array.getElem?_eq_getElem below
    rw [there]
    exact (renames.scopes _ a _ found there).bindings

/-- A scope binds a new name to what it binds the old name to, if that variable gets the new name
and others do not. -/
theorem own (renames : Renames f new s t) (coherent : s.Coherent) {id : ScopeId} {name name' : Name}
    (meant : ∀ v, s.own name id = some v → new v name = name')
    (apart : ∀ entry ∈ s.bindingsOf id, new entry.2 entry.1 = name' → entry.1 = name) :
    t.own name' id = s.own name id := by
  have same : ∀ entry ∈ s.bindingsOf id,
      decide (new entry.2 entry.1 = name') = decide (entry.1 = name) := by
    refine fun entry member => decide_eq_decide.2 ⟨apart entry member, fun named => ?_⟩
    have owned : (entry.1, entry.2) ∈ s.bindingsOf id := member
    rw [named] at owned ⊢
    exact meant entry.2 (coherent.own_of_mem owned)
  rw [State.own, State.own, renames.bindingsOf, renameBindings, List.find?_map, Option.map_map]
  generalize s.bindingsOf id = bindings at same
  induction bindings with
  | nil => rfl
  | cons entry rest ih =>
    obtain ⟨here, others⟩ := List.forall_mem_cons.1 same
    rw [List.find?_cons, List.find?_cons]
    simp only [Function.comp_apply, here]
    cases decide (entry.1 = name) with
    | true => rfl
    | false => exact ih others

theorem updateScope (renames : Renames f new s t) (id : ScopeId) {g g' : Scope → Scope}
    (kept : ∀ a b, RenamesScope f new s.references a b →
      RenamesScope f new s.references (g a) (g' b)) :
    Renames f new (s.updateScope id g) (t.updateScope id g') where
  openScopes := renames.openScopes
  vars := renames.vars
  references := renames.references
  size := by rw [size_updateScope, size_updateScope, renames.size]
  scopes i a b found found' := by
    rw [getElem?_updateScope] at found found'
    split at found
    next here =>
      rw [if_pos here] at found'
      obtain ⟨a₀, there, rfl⟩ := Option.map_eq_some_iff.1 found
      obtain ⟨b₀, there', rfl⟩ := Option.map_eq_some_iff.1 found'
      exact kept a₀ b₀ (renames.scopes i a₀ b₀ there there')
    next elsewhere =>
      rw [if_neg elsewhere] at found'
      exact renames.scopes i a b found found'

theorem report (renames : Renames f new s t) (event event' : Event) :
    Renames f new (s.report event) (t.report event') :=
  ⟨renames.openScopes, renames.vars, renames.references, renames.size, renames.scopes⟩

theorem noteChild (renames : Renames f new s t) (child : ScopeId) :
    Renames f new (s.noteChild child) (t.noteChild child) := by
  unfold State.noteChild
  rw [renames.openScopes]
  cases s.openScopes with
  | nil => exact renames
  | cons parent rest =>
    refine renames.updateScope parent (fun a b same => ⟨?_, same.bindings, same.through⟩)
    have frame := same.frame
    simp only [Scope.frame, Frame.mk.injEq] at frame ⊢
    simp [frame]

theorem enter (renames : Renames f new s t) (kind : ScopeKind) (node : Node) :
    Renames f new (s.enter kind node) (t.enter kind node) := by
  have noted := renames.noteChild ⟨s.scopes.size⟩
  refine ⟨?_, ?_, ?_, ?_, fun i a b found found' => ?_⟩
  · rw [openScopes_enter, openScopes_enter, renames.openScopes, renames.size]
  · rw [vars_enter, vars_enter, renames.vars]
  · rw [references_enter, references_enter, renames.references]
  · rw [size_enter, size_enter, renames.size]
  · rw [getElem?_enter] at found found'
    rw [references_enter]
    rw [renames.size] at found'
    split at found
    next last =>
      rw [if_pos last] at found'
      cases found
      cases found'
      refine ⟨?_, rfl, [], rfl, rfl, nofun⟩
      simp only [nextScope, Scope.frame, renames.size, renames.openScopes]
    next older =>
      rw [if_neg older] at found'
      have same : (s.noteChild ⟨s.scopes.size⟩).references = s.references := by
        unfold State.noteChild
        split <;> rfl
      rw [← same]
      exact noted.scopes i a b found found'

theorem leave (renames : Renames f new s t) : Renames f new s.leave t.leave := by
  refine ⟨?_, ?_, ?_, ?_, ?_⟩
  · rw [openScopes_leave, openScopes_leave, renames.openScopes]
  · rw [vars_leave, vars_leave, renames.vars]
  · rw [references_leave, references_leave, renames.references]
  · rw [scopes_leave, scopes_leave, renames.size]
  · rw [scopes_leave, scopes_leave, references_leave]
    exact renames.scopes

theorem makeDynamic (renames : Renames f new s t) : Renames f new s.makeDynamic t.makeDynamic := by
  unfold State.makeDynamic
  rw [renames.current]
  refine (renames.report _ _).updateScope s.current
    (fun a b same => ⟨?_, same.bindings, same.through⟩)
  have frame := same.frame
  simp only [Scope.frame, Frame.mk.injEq] at frame ⊢
  simp [frame]

/-- A new variable under its new name. -/
theorem addVariable (renames : Renames f new s t) (scope : ScopeId) {name name' : Name}
    (named : name' = new ⟨s.vars.size⟩ name) {ds ds' : List Declaration}
    (declared : ds' = ds.map (Declaration.rename (fun id => new ⟨s.vars.size⟩ id.name))) :
    Renames f new (s.addVariable scope name ds).2 (t.addVariable scope name' ds').2 := by
  subst named declared
  have kept : Renames f new
      (s.updateScope scope (fun a => { a with bindings := a.bindings ++ [(name, ⟨s.vars.size⟩)] }))
      (t.updateScope scope (fun b =>
        { b with bindings := b.bindings ++ [(new ⟨s.vars.size⟩ name, ⟨s.vars.size⟩)] })) := by
    refine renames.updateScope scope (fun a b same => ⟨same.frame, ?_, same.through⟩)
    rw [same.bindings, renameBindings, renameBindings, List.map_append]
    rfl
  refine ⟨renames.openScopes, ?_, renames.references, ?_, fun i a b found found' => ?_⟩
  · rw [vars_addVariable, vars_addVariable, renames.vars, Array.mapIdx_push]
    rfl
  · rw [size_addVariable, size_addVariable, renames.size]
  · rw [getElem?_addVariable] at found found'
    rw [renames.vars_size] at found'
    exact kept.scopes i a b ((getElem?_updateScope ..).trans found)
      ((getElem?_updateScope ..).trans found')

theorem updateVariable (renames : Renames f new s t) (v : VariableId) {g g' : Variable → Variable}
    (same : ∀ a, g' (a.rename (new v)) = (g a).rename (new v)) :
    Renames f new (s.updateVariable v g) (t.updateVariable v g') := by
  refine ⟨renames.openScopes, ?_, renames.references, renames.size, renames.scopes⟩
  refine Array.ext_getElem? (fun i => ?_)
  rw [getElem?_updateVariable, Array.getElem?_mapIdx, getElem?_updateVariable, renames.vars,
    Array.getElem?_mapIdx]
  split
  next here =>
    subst here
    cases s.vars[v.index]? with
    | none => rfl
    | some a => exact congrArg some (same a)
  next => rfl

section Faithful

variable {u : State} {v : VariableId} {a : Variable}

/-- A scope binds the new name of a variable to what it binds the old name to, unless that is
another variable. -/
theorem own_of_faithful (renames : Renames f new s t) (coherent : s.Coherent)
    (widens : Widens s u) (faithful : u.tree.Faithful f new arguments)
    (found : u.vars[v.index]? = some a) {id : ScopeId}
    (meant : ∀ w, s.own a.name id = some w → w = v) :
    t.own (new v a.name) id = s.own a.name id := by
  refine renames.own coherent (fun w owned => by rw [meant w owned]) (fun entry member same => ?_)
  obtain ⟨b, foundB, name, _⟩ := coherent.bound id entry member
  obtain ⟨c, foundC, name', _⟩ := widens.vars _ b foundB
  rw [← name, ← name'] at same ⊢
  exact faithful.apart _ _ c a foundC found same

theorem own_eq_some (renames : Renames f new s t) (coherent : s.Coherent) (widens : Widens s u)
    (faithful : u.tree.Faithful f new arguments) (found : u.vars[v.index]? = some a) {id : ScopeId}
    (owned : s.own a.name id = some v) : t.own (new v a.name) id = some v := by
  have meant : ∀ w, s.own a.name id = some w → w = v := by
    rw [owned]
    exact fun w same => (Option.some.inj same).symm
  exact (renames.own_of_faithful coherent widens faithful found meant).trans owned

theorem own_eq_none (renames : Renames f new s t) (coherent : s.Coherent) (widens : Widens s u)
    (faithful : u.tree.Faithful f new arguments) (found : u.vars[v.index]? = some a) {id : ScopeId}
    (free : s.own a.name id = none) : t.own (new v a.name) id = none := by
  have meant : ∀ w, s.own a.name id = some w → w = v := by
    rw [free]
    exact nofun
  exact (renames.own_of_faithful coherent widens faithful found meant).trans free

end Faithful

/-- A declaration is made under the new name of the variable that gains it. -/
theorem declare (renames : Renames f new s t) (coherent : s.Coherent) (d : Declaration)
    (faithful : (s.declare d).tree.Faithful f new arguments) :
    Renames f new (s.declare d) (t.declare (d.rename f)) := by
  have widens := Widens.declare s d
  cases owned : s.own d.id.name s.current with
  | some v =>
    obtain ⟨a, found, name, _⟩ := coherent.owner owned
    rw [declare_of_own owned] at faithful widens ⊢
    have gained : ((s.report (.declare d.id.name d.kind s.current)).updateVariable v
        (fun a => { a with declarations := a.declarations ++ [d] })).vars[v.index]? =
          some { a with declarations := a.declarations ++ [d] } := by
      rw [getElem?_updateVariable, if_pos rfl]
      exact congrArg (Option.map _) found
    -- The variable has the declaration once it is made, so it decides on the new name.
    have named := faithful.declared _ _ gained d (by simp)
    rw [← name] at owned
    have same := renames.own_eq_some coherent widens faithful gained owned
    rw [name, ← named, ← renames.current] at same
    rw [declare_of_own same]
    refine (renames.report _ _).updateVariable v (fun b => ?_)
    rw [Declaration.rename_congr (g := fun id => new v id.name) named, Variable.rename,
      Variable.rename, List.map_append]
    rfl
  | none =>
    rw [declare_of_free owned] at faithful widens ⊢
    have gained : ((s.report (.declare d.id.name d.kind s.current)).addVariable s.current d.id.name
        [d]).2.vars[s.vars.size]? = some ⟨d.id.name, s.current, [d], []⟩ :=
      Array.getElem?_push_size
    have named := faithful.declared _ _ gained d (List.mem_singleton_self d)
    have same := renames.own_eq_none coherent widens faithful (v := ⟨s.vars.size⟩) gained owned
    rw [← named, ← renames.current] at same
    rw [declare_of_free same, renames.current]
    refine (renames.report _ _).addVariable s.current named ?_
    rw [List.map_singleton, Declaration.rename_congr (g := fun id => new ⟨s.vars.size⟩ id.name)
      named]
    rfl

/-- Declarations are made under the new names of their variables. -/
theorem declareAll (renames : Renames f new s t) (coherent : s.Coherent) {id : ScopeId}
    {rest : List ScopeId} (stack : s.openScopes = id :: rest) (ds : List Declaration)
    (faithful : (s.declareAll ds).tree.Faithful f new arguments) :
    Renames f new (s.declareAll ds) (t.declareAll (ds.map (Declaration.rename f))) := by
  induction ds generalizing s t with
  | nil => exact renames
  | cons d others ih =>
    have first := renames.declare coherent d
      (faithful.of_widens (Widens.declareAll (s.declare d) others))
    exact ih first (coherent.declare stack d) (by simpa using stack) faithful

/-- The implicit `arguments` keeps its name. -/
theorem bindArguments (renames : Renames f new s t) (coherent : s.Coherent)
    (faithful : (s.bindArguments arguments).tree.Faithful f new arguments) :
    Renames f new (s.bindArguments arguments) (t.bindArguments arguments) := by
  have widens := Widens.bindArguments s arguments
  cases owned : s.own arguments s.current with
  | some v =>
    obtain ⟨a, found, name, _⟩ := coherent.owner owned
    rw [bindArguments_of_own owned] at faithful widens ⊢
    have named := faithful.arguments _ a found name
    rw [← name] at owned
    have same := renames.own_eq_some coherent widens faithful found owned
    rw [named, ← renames.current] at same
    rw [bindArguments_of_own same]
    exact renames
  | none =>
    rw [bindArguments_of_free owned] at faithful widens ⊢
    have gained : (s.addVariable s.current arguments []).2.vars[s.vars.size]? =
        some ⟨arguments, s.current, [], []⟩ := Array.getElem?_push_size
    have named := faithful.arguments _ _ gained rfl
    have same := renames.own_eq_none coherent widens faithful (v := ⟨s.vars.size⟩) gained owned
    rw [named, ← renames.current] at same
    rw [bindArguments_of_free same, renames.current]
    exact renames.addVariable s.current named.symm rfl

theorem furnish (renames : Renames f new s t) (coherent : s.Coherent) {id : ScopeId}
    {rest : List ScopeId} (stack : s.openScopes = id :: rest) {own : Option Name}
    (named : ∀ name ∈ own, name = arguments) (decls : List Declaration)
    (faithful : (s.furnish own decls).tree.Faithful f new arguments) :
    Renames f new (s.furnish own decls) (t.furnish own (decls.map (Declaration.rename f))) := by
  cases own with
  | none => exact renames.declareAll coherent stack decls faithful
  | some name =>
    cases named name rfl
    have first := renames.bindArguments coherent
      (faithful.of_widens (Widens.declareAll (s.bindArguments arguments) decls))
    exact first.declareAll (coherent.bindArguments stack arguments) (by simpa using stack) decls
      faithful

theorem openWith (renames : Renames f new s t) (coherent : s.Coherent) (can : s.CanEnter)
    (kind : ScopeKind) (node : Node) {own : Option Name} (named : ∀ name ∈ own, name = arguments)
    (decls : List Declaration)
    (faithful : (s.openWith kind node own decls).tree.Faithful f new arguments) :
    Renames f new (s.openWith kind node own decls)
      (t.openWith kind node own (decls.map (Declaration.rename f))) :=
  (renames.enter kind node).furnish (coherent.enter can kind node) (openScopes_enter s kind node)
    named decls faithful

/-- A use finds the same variable under its new name, or none under either name. -/
theorem resolve (renames : Renames f new s t) (coherent : s.Coherent) (coherent' : t.Coherent)
    {name name' : Name} (faithful : (s.resolve name).2.tree.Faithful f new arguments)
    (named : name' = new (s.resolve name).1 name) :
    (t.resolve name').1 = (s.resolve name).1 ∧
      Renames f new (s.resolve name).2 (t.resolve name').2 := by
  have widens := (Grows.resolve s name).widens
  cases seen : s.sight.get name with
  | cons v rest =>
    rw [resolve_of_seen seen] at faithful widens named ⊢
    rw [coherent.sighted, List.filterMap_eq_cons_iff] at seen
    obtain ⟨inner, owner, outer, stack, hidden, owned, _⟩ := seen
    obtain ⟨a, found, rfl, _⟩ := coherent.owner owned
    -- Scopes further in do not bind the old name, so none of them binds the new one.
    have hidden' : ∀ id ∈ inner, t.own name' id = none :=
      fun id member => named ▸
        renames.own_eq_none coherent widens faithful found (hidden id member)
    have owned' : t.own name' owner = some v :=
      named ▸ renames.own_eq_some coherent widens faithful found owned
    have seen' : t.sight.get name' = v :: outer.filterMap (t.own name') := by
      rw [coherent'.sighted, renames.openScopes, stack, List.filterMap_append,
        List.filterMap_eq_nil_iff.2 hidden', List.filterMap_cons_some owned', List.nil_append]
    rw [resolve_of_seen seen']
    exact ⟨rfl, renames⟩
  | nil =>
    have free := coherent.own_eq_none seen
    rw [resolve_of_unseen seen] at faithful widens named ⊢
    have gained : ((s.report (.implicitGlobal name)).addVariable ScopeId.root name []).2.vars[
        s.vars.size]? = some ⟨name, ScopeId.root, [], []⟩ := Array.getElem?_push_size
    have unseen' : t.sight.get name' = [] := by
      rw [coherent'.sighted, renames.openScopes]
      exact List.filterMap_eq_nil_iff.2 (fun id member => named ▸
        renames.own_eq_none coherent widens faithful (v := ⟨s.vars.size⟩) gained (free id member))
    rw [resolve_of_unseen unseen']
    refine ⟨congrArg VariableId.mk renames.vars_size, ?_⟩
    exact (renames.report _ _).addVariable ScopeId.root named rfl

theorem attach (renames : Renames f new s t) {id : Occurrence} {v : VariableId}
    (named : f id = new v id.name) (access : Access) :
    Renames f new (s.attach id access v) (t.attach (id.rename f) access v) := by
  have pushed : Renames f new { s with references := s.references.push ⟨id, access, v⟩ }
      { t with references := t.references.push ⟨id.rename f, access, v⟩ } := by
    refine ⟨renames.openScopes, renames.vars, ?_, renames.size, fun i a b found found' => ?_⟩
    · change t.references.push _ = (s.references.push _).map _
      rw [Array.map_push, renames.references, Reference.rename, Ident.rename, Ident.rename, named]
    · exact (renames.scopes i a b found found').push _
  rw [State.attach, State.attach, renames.references_size]
  exact pushed.updateVariable v (fun _ => rfl)

theorem inside (renames : Renames f new s t) (v : VariableId) : t.inside v = s.inside v := by
  have owner : t.ownerOf v = s.ownerOf v := by
    unfold ownerOf
    rw [renames.vars, Array.getElem?_mapIdx]
    cases s.vars[v.index]? <;> rfl
  rw [State.inside, State.inside, owner, renames.openScopes]

/-- A use passes through the same scopes, under its new name. -/
theorem passThrough (renames : Renames f new s t) {r : ReferenceId} {use : Reference}
    (found : s.references[r.index]? = some use) (ids : List ScopeId) :
    Renames f new (ids.foldl (State.passThrough use.id.name r) s)
      (ids.foldl (State.passThrough (f use.id) r) t) := by
  induction ids generalizing s t with
  | nil => exact renames
  | cons id rest ih =>
    refine ih (renames.updateScope id (fun a b same => ?_)) found
    obtain ⟨added, through, through', recorded⟩ := same.through
    refine ⟨same.frame, same.bindings, added ++ [(use.id, r)], ?_, ?_, ?_⟩
    · rw [through, List.map_append, ← MultiMap.insertAll_append]
      rfl
    · rw [through', List.map_append, ← MultiMap.insertAll_append]
      rfl
    · rw [List.forall_mem_append]
      refine ⟨recorded, fun pass member => ?_⟩
      cases List.mem_singleton.1 member
      exact ⟨use, found, rfl⟩

theorem record (renames : Renames f new s t) (coherent : s.Coherent) (coherent' : t.Coherent)
    (opened : s.openScopes ≠ []) (id : Occurrence) (access : Access)
    (faithful : (s.record id access).tree.Faithful f new arguments) :
    Renames f new (s.record id access) (t.record (id.rename f) access) := by
  have unique := ((coherent.resolve opened id.name).attach id access
    (s.resolve id.name).1).nodup_inside (s.resolve id.name).1
  have before := faithful.of_widens (Grows.attach id access _ unique).widens
  have recorded : (s.record id access).references[(s.resolve id.name).2.references.size]? =
      some ⟨id, access, (s.resolve id.name).1⟩ := by
    rw [record_eq, references_passThrough]
    exact Array.getElem?_push_size
  -- The new use is in the result, so the renaming gives it the new name of what it means.
  have named : f id = new (s.resolve id.name).1 id.name := faithful.used _ _ recorded
  obtain ⟨same, resolved⟩ := renames.resolve coherent coherent' before named
  have attached := resolved.attach named access
  rw [record_eq, record_eq]
  change Renames f new _ (List.foldl
    (State.passThrough (f id) ⟨(t.resolve (f id)).2.references.size⟩)
    ((t.resolve (f id)).2.attach (id.rename f) access (t.resolve (f id)).1)
    (((t.resolve (f id)).2.attach (id.rename f) access (t.resolve (f id)).1).inside
      (t.resolve (f id)).1))
  rw [same, attached.inside, resolved.references_size]
  rw [record_eq, references_passThrough] at recorded
  exact attached.passThrough recorded _

/-- What is inside a scope is laid out between opening and leaving it. -/
theorem scope_of_inside (renames : Renames f new s t) (coherent : s.Coherent) (can : s.CanEnter)
    {kind : ScopeKind} {node : Node} {own : Option Name} (named : ∀ name ∈ own, name = arguments)
    {decls : List Declaration} {inner : List Layout}
    (inside : Renames f new (s.openWith kind node own decls)
        (t.openWith kind node own (decls.map (Declaration.rename f))) →
      ((s.openWith kind node own decls).layOutAll inner).tree.Faithful f new arguments →
        Renames f new ((s.openWith kind node own decls).layOutAll inner)
          ((t.openWith kind node own (decls.map (Declaration.rename f))).layOutAll
            (Layout.renameList f inner)))
    (faithful : (s.layOut (.scope kind node own decls inner)).tree.Faithful f new arguments) :
    Renames f new (s.layOut (.scope kind node own decls inner))
      (t.layOut (Layout.rename f (.scope kind node own decls inner))) := by
  have started := coherent.openWith can kind node own decls
  have filled := faithful.of_widens (Grows.leave _).widens
  have begun := filled.of_widens
    (Grows.layOutAll started opened_openWith inner).widens
  exact (inside (renames.openWith coherent can kind node named decls begun) filled).leave

mutual

/-- Laying out the renamed layout gives the state renamed, if the renaming is faithful to it. -/
theorem layOut {s t : State} (renames : Renames f new s t) (coherent : s.Coherent)
    (coherent' : t.Coherent) (opened : s.openScopes ≠ []) :
    ∀ l : Layout, (∀ name ∈ l.argumentNames, name = arguments) →
      (s.layOut l).tree.Faithful f new arguments →
        Renames f new (s.layOut l) (t.layOut (l.rename f))
  | .use id access, _, faithful => renames.record coherent coherent' opened id access faithful
  | .directEval, _, _ => renames.makeDynamic
  | .withStatement, _, _ => renames.report _ _
  | .scope kind node own decls inner, named, faithful => by
    have opened' : t.openScopes ≠ [] := renames.openScopes ▸ opened
    have can : s.CanEnter := .of_opened opened
    have can' : t.CanEnter := .of_opened opened'
    rw [Layout.argumentNames, List.forall_mem_append] at named
    refine renames.scope_of_inside coherent can
      (fun name member => named.1 name (Option.mem_toList.2 member)) (fun begun filled => ?_)
      faithful
    exact layOutAll begun (coherent.openWith can kind node own decls)
      (coherent'.openWith can' kind node own _) opened_openWith inner named.2 filled

theorem layOutAll {s t : State} (renames : Renames f new s t) (coherent : s.Coherent)
    (coherent' : t.Coherent) (opened : s.openScopes ≠ []) :
    ∀ ls : List Layout, (∀ name ∈ Layout.argumentNamesAll ls, name = arguments) →
      (s.layOutAll ls).tree.Faithful f new arguments →
        Renames f new (s.layOutAll ls) (t.layOutAll (Layout.renameList f ls))
  | [], _, _ => renames
  | l :: rest, named, faithful => by
    have opened' : t.openScopes ≠ [] := renames.openScopes ▸ opened
    have after := coherent.layOut opened l
    have still : (s.layOut l).openScopes ≠ [] := by simpa using opened
    rw [Layout.argumentNamesAll, List.forall_mem_append] at named
    have first := layOut renames coherent coherent' opened l named.1
      (faithful.of_widens (Grows.layOutAll after still rest).widens)
    exact layOutAll first after (coherent'.layOut opened' (l.rename f)) still rest named.2 faithful

end

theorem initial (events events' : Array Event) :
    Renames f new (State.initial events) (State.initial events') :=
  ⟨rfl, Array.mapIdx_empty.symm, Array.map_empty.symm, rfl, fun _ _ _ found => by
    simp [State.initial] at found⟩

/-- The same for the outermost scope. -/
theorem scope (events events' : Array Event) (kind : ScopeKind) (node : Node) {own : Option Name}
    (decls : List Declaration) (inner : List Layout)
    (named : ∀ name ∈ Layout.argumentNames (.scope kind node own decls inner), name = arguments)
    (faithful : ((State.initial events).layOut (.scope kind node own decls inner)).tree.Faithful f
      new arguments) :
    Renames f new ((State.initial events).layOut (.scope kind node own decls inner))
      ((State.initial events').layOut (Layout.rename f (.scope kind node own decls inner))) := by
  rw [Layout.argumentNames, List.forall_mem_append] at named
  refine (initial events events').scope_of_inside (.initial _) (fun _ => rfl)
    (fun name member => named.1 name (Option.mem_toList.2 member)) (fun begun filled => ?_) faithful
  exact begun.layOutAll (Coherent.openWith (.initial _) (fun _ => rfl) kind node own decls)
    (Coherent.openWith (.initial _) (fun _ => rfl) kind node own _) opened_openWith inner
    named.2 filled

end Renames

end ScopeAnalysis.Resolution.State
