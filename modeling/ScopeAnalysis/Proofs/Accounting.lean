import ScopeAnalysis.Proofs.Passage

/-!
# Variables and their references

A variable lists the references that mean it, in the order in which they were made. Every
declaration of a variable has its name. A global that is declared nowhere came about by being used,
so it has a reference as soon as the use is recorded. `Accounted` says all this of a state, and
every layout keeps it.
-/

namespace ScopeAnalysis.Resolution

namespace State

/-- The references that mean a variable, in order. -/
def referencesTo (s : State) (id : VariableId) : List ReferenceId :=
  ((List.range s.references.size).filter
    (fun r => s.references[r]?.map Reference.resolved = some id)).map ReferenceId.mk

theorem mem_referencesTo {s : State} {id : VariableId} {r : ReferenceId} :
    r ∈ s.referencesTo id ↔ ∃ use, s.references[r.index]? = some use ∧ use.resolved = id := by
  obtain ⟨i⟩ := r
  simp only [referencesTo, List.mem_map, List.mem_filter, List.mem_range, decide_eq_true_eq,
    Option.map_eq_some_iff, ReferenceId.mk.injEq, exists_eq_right]
  exact and_iff_right_of_imp (fun ⟨_, found, _⟩ => (Array.getElem?_eq_some_iff.1 found).1)

theorem referencesTo_increasing (s : State) (id : VariableId) :
    (s.referencesTo id).Pairwise (fun first second => first.index < second.index) :=
  List.pairwise_map.2 (List.pairwise_lt_range.filter _)

theorem referencesTo_congr {s t : State} (same : t.references = s.references) :
    t.referencesTo = s.referencesTo := by
  funext id
  simp only [referencesTo, same]

/-- A new reference is the last one to its variable. -/
theorem referencesTo_attach (s : State) (id : Occurrence) (access : Access) (v w : VariableId) :
    (s.attach id access v).referencesTo w =
      s.referencesTo w ++ if v = w then [⟨s.references.size⟩] else [] := by
  have pushed : (s.attach id access v).references = s.references.push ⟨id, access, v⟩ := rfl
  have old : (List.range s.references.size).filter (fun r =>
        (s.references.push ⟨id, access, v⟩)[r]?.map Reference.resolved = some w) =
      (List.range s.references.size).filter (fun r =>
        s.references[r]?.map Reference.resolved = some w) := by
    refine List.filter_congr (fun r member => ?_)
    rw [Array.getElem?_push, if_neg (Nat.ne_of_lt (List.mem_range.1 member))]
  simp only [referencesTo, pushed, Array.size_push, List.range_succ, List.filter_append, old,
    List.map_append]
  congr 1
  by_cases same : v = w <;> simp [same]

theorem vars_size_updateVariable (s : State) (v : VariableId) (f : Variable → Variable) :
    (s.updateVariable v f).vars.size = s.vars.size :=
  Array.size_modify

/-- Variables and references account for each other, declarations have the name of their variable,
and a global that is declared nowhere is used. One such global may still await its first use. -/
structure Accounted (s : State) (awaiting : Option VariableId) : Prop where
  listed : ∀ (i : Nat) (v : Variable), s.vars[i]? = some v → v.references = s.referencesTo ⟨i⟩
  meant : ∀ (i : Nat) (use : Reference), s.references[i]? = some use →
    use.resolved.index < s.vars.size
  declared : ∀ (i : Nat) (v : Variable), s.vars[i]? = some v →
    ∀ d ∈ v.declarations, d.id.name = v.name
  used : ∀ (i : Nat) (v : Variable), s.vars[i]? = some v → v.scope = ScopeId.root →
    v.declarations = [] → v.references = [] → awaiting = some ⟨i⟩

namespace Accounted

variable {s t : State} {awaiting : Option VariableId}

theorem congr (accounted : s.Accounted awaiting) (vars : t.vars = s.vars)
    (references : t.references = s.references) : t.Accounted awaiting where
  listed i v found := by
    rw [vars] at found
    rw [referencesTo_congr references]
    exact accounted.listed i v found
  meant i use found := by
    rw [references] at found
    rw [vars]
    exact accounted.meant i use found
  declared i v found := by
    rw [vars] at found
    exact accounted.declared i v found
  used i v found := by
    rw [vars] at found
    exact accounted.used i v found

theorem referencesTo_new (accounted : s.Accounted awaiting) :
    s.referencesTo ⟨s.vars.size⟩ = [] := by
  refine List.eq_nil_iff_forall_not_mem.2 (fun r member => ?_)
  obtain ⟨use, found, resolved⟩ := mem_referencesTo.1 member
  have below := accounted.meant _ _ found
  rw [resolved] at below
  exact Nat.lt_irrefl _ below

/-- A variable may be added before it is used. A global without declarations awaits its use. -/
theorem addVariable (accounted : s.Accounted none) {scope : ScopeId} {name : Name}
    {ds : List Declaration} (named : ∀ d ∈ ds, d.id.name = name)
    (awaits : scope = ScopeId.root → ds = [] → awaiting = some ⟨s.vars.size⟩) :
    (s.addVariable scope name ds).2.Accounted awaiting where
  listed i v found := by
    have same : (s.addVariable scope name ds).2.referencesTo = s.referencesTo :=
      referencesTo_congr rfl
    rw [vars_addVariable, Array.getElem?_push] at found
    rw [same]
    split at found
    next last =>
      cases found
      rw [last, accounted.referencesTo_new]
    next => exact accounted.listed i v found
  meant i use found := by
    rw [vars_addVariable, Array.size_push]
    exact Nat.lt_succ_of_lt (accounted.meant i use found)
  declared i v found := by
    rw [vars_addVariable, Array.getElem?_push] at found
    split at found
    next =>
      cases found
      exact named
    next => exact accounted.declared i v found
  used i v found root bare unused := by
    rw [vars_addVariable, Array.getElem?_push] at found
    split at found
    next last =>
      cases found
      rw [last]
      exact awaits root bare
    next => cases accounted.used i v found root bare unused

/-- A variable may be declared again under its name. -/
theorem updateVariable (accounted : s.Accounted awaiting) {v : VariableId} {a : Variable}
    {d : Declaration} (found : s.vars[v.index]? = some a) (named : d.id.name = a.name) :
    (s.updateVariable v
      (fun a => { a with declarations := a.declarations ++ [d] })).Accounted awaiting where
  listed i w foundW := by
    rw [getElem?_updateVariable] at foundW
    split at foundW
    · obtain ⟨b, foundB, rfl⟩ := Option.map_eq_some_iff.1 foundW
      exact accounted.listed i b foundB
    · exact accounted.listed i w foundW
  meant i use foundUse := by
    rw [vars_size_updateVariable]
    exact accounted.meant i use foundUse
  declared i w foundW := by
    rw [getElem?_updateVariable] at foundW
    split at foundW
    next here =>
      subst here
      rw [found] at foundW
      cases foundW
      intro e member
      rcases List.mem_append.1 member with old | new
      · exact accounted.declared _ a found e old
      · rw [List.mem_singleton.1 new]
        exact named
    next => exact accounted.declared i w foundW
  used i w foundW root bare := by
    rw [getElem?_updateVariable] at foundW
    split at foundW
    · obtain ⟨b, _, rfl⟩ := Option.map_eq_some_iff.1 foundW
      simp at bare
    · exact accounted.used i w foundW root bare

/-- A use is listed by its variable, which awaits it no longer. -/
theorem attach {v : VariableId} (accounted : s.Accounted (some v)) (there : v.index < s.vars.size)
    (id : Occurrence) (access : Access) : (s.attach id access v).Accounted none where
  listed i w found := by
    rw [getElem?_attach] at found
    rw [referencesTo_attach]
    split at found
    next here =>
      obtain ⟨b, foundB, rfl⟩ := Option.map_eq_some_iff.1 found
      have same : v = ⟨i⟩ := congrArg VariableId.mk here
      rw [if_pos same, ← accounted.listed i b foundB]
    next here =>
      have other : v ≠ ⟨i⟩ := fun same => here (congrArg VariableId.index same)
      rw [if_neg other, List.append_nil]
      exact accounted.listed i w found
  meant i use found := by
    have size : (s.attach id access v).vars.size = s.vars.size := vars_size_updateVariable _ _ _
    have pushed : (s.references.push ⟨id, access, v⟩)[i]? = some use := found
    rw [Array.getElem?_push] at pushed
    rw [size]
    split at pushed
    next =>
      cases pushed
      exact there
    next => exact accounted.meant i use pushed
  declared i w found := by
    rw [getElem?_attach] at found
    split at found
    · obtain ⟨b, foundB, rfl⟩ := Option.map_eq_some_iff.1 found
      exact accounted.declared i b foundB
    · exact accounted.declared i w found
  used i w found root bare unused := by
    rw [getElem?_attach] at found
    split at found
    · obtain ⟨b, _, rfl⟩ := Option.map_eq_some_iff.1 found
      simp at unused
    next here =>
      have awaited := accounted.used i w found root bare unused
      exact absurd (congrArg VariableId.index (Option.some.inj awaited)) here

theorem resolve (accounted : s.Accounted none) (name : Name) :
    (s.resolve name).2.Accounted (some (s.resolve name).1) := by
  unfold State.resolve
  split
  · refine ⟨accounted.listed, accounted.meant, accounted.declared, fun i v found root bare => ?_⟩
    exact fun unused => nomatch accounted.used i v found root bare unused
  · have reported : (s.report (.implicitGlobal name)).Accounted none := accounted.congr rfl rfl
    exact reported.addVariable (by simp) (fun _ _ => rfl)

theorem record (accounted : s.Accounted none) (coherent : s.Coherent) (opened : s.openScopes ≠ [])
    (id : Occurrence) (access : Access) : (s.record id access).Accounted none := by
  obtain ⟨_, owner, _, _, _, owned⟩ := coherent.resolve_spec opened id.name
  obtain ⟨a, found, _⟩ := (coherent.resolve opened id.name).owner owned
  have there := (Array.getElem?_eq_some_iff.1 found).1
  rw [record_eq]
  exact ((accounted.resolve id.name).attach there id access).congr (vars_passThrough ..)
    (references_passThrough ..)

theorem declare (accounted : s.Accounted none) (coherent : s.Coherent) (d : Declaration) :
    (s.declare d).Accounted none := by
  have reported : (s.report (.declare d.id.name d.kind s.current)).Accounted none :=
    accounted.congr rfl rfl
  simp only [State.declare]
  split
  next v owned =>
    rw [ownVariable?_eq] at owned
    obtain ⟨a, found, name, _⟩ := (coherent.report _).owner owned
    exact reported.updateVariable found name.symm
  next =>
    exact reported.addVariable (by simp) (fun _ empty => absurd empty (List.cons_ne_nil d []))

theorem declareAll (accounted : s.Accounted none) (coherent : s.Coherent) {id : ScopeId}
    {rest : List ScopeId} (stack : s.openScopes = id :: rest) (ds : List Declaration) :
    (s.declareAll ds).Accounted none := by
  induction ds generalizing s with
  | nil => exact accounted
  | cons d others ih =>
    exact ih (accounted.declare coherent d) (coherent.declare stack d) (by simpa using stack)

/-- A scope inside the root may have its own `arguments`, which need not be used. -/
theorem furnish (accounted : s.Accounted none) (coherent : s.Coherent) {id : ScopeId}
    {rest : List ScopeId} (stack : s.openScopes = id :: rest) {arguments : Option Name}
    (outermost : id = ScopeId.root → arguments = none) (decls : List Declaration) :
    (s.furnish arguments decls).Accounted none := by
  cases arguments with
  | none => exact accounted.declareAll coherent stack decls
  | some name =>
    have bound : (s.bindArguments name).Accounted none := by
      unfold bindArguments
      split
      · exact accounted
      · refine accounted.addVariable (by simp) (fun root => ?_)
        rw [current_eq stack] at root
        cases outermost root
    exact bound.declareAll (coherent.bindArguments stack name)
      ((openScopes_bindArguments s name).trans stack) decls

theorem openWith (accounted : s.Accounted none) (coherent : s.Coherent) (can : s.CanEnter)
    (kind : ScopeKind) (node : Node) {arguments : Option Name}
    (outermost : s.scopes.size = 0 → arguments = none) (decls : List Declaration) :
    (s.openWith kind node arguments decls).Accounted none := by
  have entered : (s.enter kind node).Accounted none :=
    accounted.congr (vars_enter s kind node) (references_enter s kind node)
  refine entered.furnish (coherent.enter can kind node) (openScopes_enter s kind node) ?_ decls
  exact fun root => outermost (congrArg ScopeId.index root)

end Accounted

theorem vars_leave (s : State) : s.leave.vars = s.vars := by
  unfold leave
  split <;> rfl

theorem Accounted.leave {s : State} (accounted : s.Accounted none) : s.leave.Accounted none :=
  accounted.congr (vars_leave s) (references_leave s)

/-- Every step keeps variables and references accounted for. -/
theorem Accounted.invariant : Invariant (fun s => s.Accounted none) where
  record accounted coherent opened id access := accounted.record coherent opened id access
  directEval accounted _ := accounted.congr rfl rfl
  withStatement accounted _ := accounted.congr rfl rfl
  openWith accounted coherent opened kind node _ decls :=
    accounted.openWith coherent (.of_opened opened) kind node
      (fun empty => absurd empty (Nat.ne_of_gt (coherent.size_pos opened))) decls
  leave accounted _ := accounted.leave

/-- The outermost scope may be laid out as well, unless it has its own `arguments`. -/
theorem Accounted.scope {s : State} (accounted : s.Accounted none) (coherent : s.Coherent)
    (can : s.CanEnter) (kind : ScopeKind) (node : Node) {arguments : Option Name}
    (outermost : s.scopes.size = 0 → arguments = none) (decls : List Declaration)
    (inner : List Layout) :
    (s.layOut (.scope kind node arguments decls inner)).Accounted none :=
  Accounted.invariant.scope coherent can
    (accounted.openWith coherent can kind node outermost decls) inner

theorem Accounted.initial (events : Array Event) : (State.initial events).Accounted none where
  listed _ _ found := by simp [State.initial] at found
  meant _ _ found := by simp [State.initial] at found
  declared _ _ found := by simp [State.initial] at found
  used _ _ found := by simp [State.initial] at found

theorem accounted_layOut_initial (events : Array Event) (kind : ScopeKind) (node : Node)
    (decls : List Declaration) (inner : List Layout) :
    ((initial events).layOut (.scope kind node none decls inner)).Accounted none :=
  (Accounted.initial events).scope (.initial events) (fun _ => rfl) kind node (fun _ => rfl) decls
    inner

end State

end ScopeAnalysis.Resolution
