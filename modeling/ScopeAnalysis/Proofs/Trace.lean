import ScopeAnalysis.Proofs.Consistency
import ScopeAnalysis.Proofs.DepthFirst
import ScopeAnalysis.Proofs.Switches

/-!
# Traces

What an analysis reports can be read without its tree. The events say which scopes are open at each
moment, and whether scopes are closed in the right order. The main statement is that the trace of an
analysis is a faithful record of its tree: scopes are entered in the order of their identities and
inside their ancestors, and declarations and implicit globals are reported once each.
-/

namespace ScopeAnalysis

namespace Event

/-- The scope that is entered, with its kind and node. -/
def entered? : Event → Option (ScopeId × ScopeKind × NodeId)
  | .enterScope scope kind node => some (scope, kind, node)
  | _ => none

def exited? : Event → Option ScopeId
  | .exitScope scope => some scope
  | _ => none

def global? : Event → Option Name
  | .implicitGlobal name => some name
  | _ => none

def isDeclare : Event → Bool
  | .declare .. => true
  | _ => false

/-- The kind with which one name is declared in one scope. -/
def kindFor? (scope : ScopeId) (name : Name) : Event → Option DeclarationKind
  | .declare name' kind scope' => if scope' = scope ∧ name' = name then some kind else none
  | _ => none

/-- A declaration has its kind where it is made, and says nothing of any other name or scope. -/
theorem filterMap_kindFor?_declare (scope scope' : ScopeId) (name name' : Name)
    (kind : DeclarationKind) : [declare name' kind scope'].filterMap (kindFor? scope name) =
      if scope' = scope ∧ name' = name then [kind] else [] := by
  rw [List.filterMap_cons, kindFor?]
  split <;> split <;> simp_all

/-- What an event does to the scopes that have been entered and not exited, the last one first. -/
def shift (stack : List ScopeId) : Event → List ScopeId
  | .enterScope scope .. => scope :: stack
  | .exitScope scope => stack.erase scope
  | _ => stack

/-- The scopes that have been entered and not exited, the last one first. -/
def openAfter (events : List Event) : List ScopeId := events.foldl shift []

/-- Every scope that is entered is exited, and what is entered in between is exited before. -/
inductive Bracketed : List Event → Prop
  | nil : Bracketed []
  | other {event : Event} {rest : List Event} (enters : event.entered? = none)
      (exits : event.exited? = none) (further : Bracketed rest) : Bracketed (event :: rest)
  | scope (id : ScopeId) (kind : ScopeKind) (node : NodeId) {inner rest : List Event}
      (inside : Bracketed inner) (further : Bracketed rest) :
      Bracketed (.enterScope id kind node :: (inner ++ .exitScope id :: rest))

/-- What holds of every event and of those before it holds as well after one more event for which it
holds. -/
theorem forall_split_concat {P : List Event → Event → Prop} {events : List Event} {last : Event}
    (all : ∀ before event after, events = before ++ event :: after → P before event)
    (final : P events last) (before : List Event) (event : Event) (after : List Event)
    (split : events ++ [last] = before ++ event :: after) : P before event := by
  rcases List.eq_nil_or_concat after with rfl | ⟨rest, e, rfl⟩
  · obtain ⟨rfl, same⟩ := List.append_inj' split rfl
    cases same
    exact final
  · have regrouped : events ++ [last] = (before ++ event :: rest) ++ [e] := by simpa using split
    exact all before event rest (List.append_inj' regrouped rfl).1

theorem shift_of_quiet {event : Event} (enters : event.entered? = none)
    (exits : event.exited? = none) (stack : List ScopeId) : shift stack event = stack := by
  cases event with
  | enterScope => cases enters
  | exitScope => cases exits
  | _ => rfl

theorem openAfter_concat (events : List Event) (event : Event) :
    openAfter (events ++ [event]) = shift (openAfter events) event := by
  simp [openAfter]

namespace Bracketed

theorem one {event : Event} (enters : event.entered? = none) (exits : event.exited? = none) :
    Bracketed [event] :=
  .other enters exits .nil

theorem append {first second : List Event} (before : Bracketed first) (after : Bracketed second) :
    Bracketed (first ++ second) := by
  induction before with
  | nil => exact after
  | other enters exits _ ih => exact .other enters exits ih
  | scope id kind node inside _ _ ih =>
    simpa only [List.cons_append, List.append_assoc] using Bracketed.scope id kind node inside ih

/-- Each scope is exited as often as it is entered. -/
theorem perm {events : List Event} (bracketed : Bracketed events) :
    (events.filterMap exited?).Perm ((events.filterMap entered?).map Prod.fst) := by
  induction bracketed with
  | nil => exact .refl _
  | other enters exits _ ih => simpa [List.filterMap_cons, enters, exits] using ih
  | scope id kind node _ _ ihInner ihRest =>
    simp only [List.filterMap_cons, List.filterMap_append, entered?, exited?, List.map_cons,
      List.map_append]
    exact List.perm_middle.trans ((ihInner.append ihRest).cons id)

end Bracketed

end Event

/-- A variable as it is before it is used. -/
def Variable.withoutUses (v : Variable) : Variable := { v with references := [] }

namespace ScopeTree

/-- The scopes around a scope, from its parent out to the root. -/
inductive Ancestors (tree : ScopeTree) : ScopeId → List ScopeId → Prop
  | root {id : ScopeId} (top : tree.parentOf? id = none) : Ancestors tree id []
  | inside {id outer : ScopeId} {chain : List ScopeId} (up : tree.parentOf? id = some outer)
      (further : Ancestors tree outer chain) : Ancestors tree id (outer :: chain)

/-- A list of events is a faithful record of how a tree came about. -/
structure IsRecordedBy (tree : ScopeTree) (events : List Event) : Prop where
  /-- Scopes are entered once each, in the order of their identities. -/
  numbered : (events.filterMap Event.entered?).map Prod.fst =
    (List.range tree.scopes.size).map ScopeId.mk
  entered : events.filterMap Event.entered? =
    tree.scopes.toList.map (fun scope => (scope.id, scope.kind, scope.node.id))
  bracketed : Event.Bracketed events
  exited : (events.filterMap Event.exited?).Perm ((List.range tree.scopes.size).map ScopeId.mk)
  /-- When a scope is entered, just its ancestors are open. -/
  surrounded : ∀ before id kind node after,
    events = before ++ .enterScope id kind node :: after →
      tree.Ancestors id (Event.openAfter before)
  innermost : ∀ before name kind scope after,
    events = before ++ .declare name kind scope :: after →
      (Event.openAfter before).head? = some scope
  /-- Each variable is declared as often as it has declarations, with their kinds in order. -/
  declared : ∀ id v, tree.variableAt? id = some v →
    events.filterMap (Event.kindFor? v.scope v.name) = v.declarations.map Declaration.kind
  /-- Nothing else is declared. -/
  owned : ∀ before name kind scope after, events = before ++ .declare name kind scope :: after →
    ∃ id, tree.own? scope name = some id
  total : (events.filter Event.isDeclare).length =
    (tree.vars.toList.map (fun v => v.declarations.length)).sum
  /-- The implicit globals are reported once each, in the order of the variables. -/
  globals : events.filterMap Event.global? =
    (tree.vars.toList.filter Variable.isImplicit).map Variable.name
  last : events.getLast? =
    some (.complete tree.scopes.size tree.vars.size tree.references.size)

end ScopeTree

namespace Resolution

namespace State

/-! What is reported about scopes. -/

/-- An event suits the moment at which just the given scopes are open: scopes are entered inside
them, and the innermost is the one that is exited or declared in. -/
def Suits (s : State) (stack : List ScopeId) : Event → Prop
  | .enterScope id .. => s.Nested (id :: stack)
  | .exitScope id => stack.head? = some id
  | .declare _ _ scope => stack.head? = some scope
  | _ => True

/-- The events so far agree with the scopes of the state. -/
structure Marked (s : State) : Prop where
  entered : s.events.toList.filterMap Event.entered? =
    s.scopes.toList.map (fun scope => (scope.id, scope.kind, scope.node.id))
  stack : Event.openAfter s.events.toList = s.openScopes
  suits : ∀ before event after, s.events.toList = before ++ event :: after →
    s.Suits (Event.openAfter before) event

/-- Suiting the moment depends on the parents of the scopes alone. -/
theorem Suits.congr {s t : State} {stack : List ScopeId} {event : Event}
    (suits : s.Suits stack event) (size : s.scopes.size ≤ t.scopes.size)
    (same : ∀ id, id.index < s.scopes.size → t.parentOf id = s.parentOf id) :
    t.Suits stack event := by
  cases event with
  | enterScope id kind node => exact Nested.congr suits size same
  | _ => exact suits

theorem events_enter (s : State) (kind : ScopeKind) (node : Node) : (s.enter kind node).events =
    s.events.push (.enterScope ⟨s.scopes.size⟩ kind node.id) := by
  obtain ⟨scopes, vars, references, openScopes, sight, strict, events⟩ := s
  cases openScopes <;> rfl

theorem events_passThrough (s : State) (name : Name) (r : ReferenceId) (ids : List ScopeId) :
    (ids.foldl (passThrough name r) s).events = s.events := by
  rw [foldl_passThrough_eq]

namespace Marked

variable {s t : State}

theorem congr (marked : s.Marked) (events : t.events = s.events)
    (scopes : t.scopes.toList.map (fun scope => (scope.id, scope.kind, scope.node.id)) =
      s.scopes.toList.map (fun scope => (scope.id, scope.kind, scope.node.id)))
    (stack : t.openScopes = s.openScopes) (parents : ∀ id, t.parentOf id = s.parentOf id) :
    t.Marked where
  entered := by rw [events, scopes, marked.entered]
  stack := by rw [events, stack, marked.stack]
  suits before event after split := by
    rw [events] at split
    have size : t.scopes.size = s.scopes.size := by simpa using congrArg List.length scopes
    exact (marked.suits before event after split).congr (Nat.le_of_eq size.symm)
      (fun id _ => parents id)

theorem report (marked : s.Marked) (event : Event) (enters : event.entered? = none)
    (exits : event.exited? = none) (suits : s.Suits s.openScopes event) :
    (s.report event).Marked where
  entered := by simpa [State.report, List.filterMap_append, enters] using marked.entered
  stack := by
    simp only [State.report, Array.toList_push, Event.openAfter_concat,
      Event.shift_of_quiet enters exits]
    exact marked.stack
  suits := by
    simp only [State.report, Array.toList_push]
    refine Event.forall_split_concat (fun before event after split => ?_) ?_
    · exact (marked.suits before event after split).congr (Nat.le_refl _) (fun _ _ => rfl)
    · rw [marked.stack]
      exact suits.congr (Nat.le_refl _) (fun _ _ => rfl)

/-- Changing a scope in other respects. -/
theorem updateScope (marked : s.Marked) (id : ScopeId) {f : Scope → Scope}
    (same : ∀ a, ((f a).id, (f a).kind, (f a).node, (f a).parent) =
      (a.id, a.kind, a.node, a.parent)) :
    (s.updateScope id f).Marked := by
  refine marked.congr rfl ?_ rfl (fun other => ?_)
  · simp only [Prod.mk.injEq] at same
    refine List.ext_getElem? (fun i => ?_)
    have step := getElem?_updateScope s id f i
    simp only [List.getElem?_map, Array.getElem?_toList, step]
    split
    · simp only [Option.map_map]
      congr 1
      funext a
      simp [same a]
    · rfl
  · simp only [Prod.mk.injEq] at same
    simp only [parentOf, getElem?_updateScope]
    split
    · cases s.scopes[other.index]? <;> simp [same]
    · rfl

theorem addVariable (marked : s.Marked) (scope : ScopeId) (name : Name) (ds : List Declaration) :
    (s.addVariable scope name ds).2.Marked := by
  have updated : (s.updateScope scope (fun sc =>
      { sc with bindings := sc.bindings ++ [(name, ⟨s.vars.size⟩)] })).Marked :=
    marked.updateScope scope (fun _ => rfl)
  exact updated.congr rfl rfl rfl (fun _ => rfl)

theorem declare (marked : s.Marked) {id : ScopeId} {rest : List ScopeId}
    (stack : s.openScopes = id :: rest) (d : Declaration) : (s.declare d).Marked := by
  have reported : (s.report (.declare d.id.name d.kind s.current)).Marked :=
    marked.report _ rfl rfl (by rw [current_eq stack, stack]; rfl)
  simp only [State.declare]
  split
  · exact reported.congr rfl rfl rfl (fun _ => rfl)
  · exact reported.addVariable _ _ _

theorem furnish (marked : s.Marked) {id : ScopeId} {rest : List ScopeId}
    (stack : s.openScopes = id :: rest) (arguments : Option Name) (decls : List Declaration) :
    (s.furnish arguments decls).Marked := by
  have all (s : State) (marked : s.Marked) (stack : s.openScopes = id :: rest) :
      (s.declareAll decls).Marked := by
    induction decls generalizing s with
    | nil => exact marked
    | cons d others ih => exact ih _ (marked.declare stack d) (by simpa using stack)
  cases arguments with
  | none => exact all s marked stack
  | some name =>
    refine all _ ?_ (by simpa using stack)
    simp only [Option.elim, bindArguments]
    split
    · exact marked
    · exact marked.addVariable _ _ _

theorem record (marked : s.Marked) (id : Occurrence) (access : Access) :
    (s.record id access).Marked := by
  have resolved : (s.resolve id.name).2.Marked := by
    unfold resolve
    split
    · exact marked
    · exact (marked.report (.implicitGlobal id.name) rfl rfl trivial).addVariable _ _ _
  have attached : ((s.resolve id.name).2.attach id access (s.resolve id.name).1).Marked :=
    resolved.congr rfl rfl rfl (fun _ => rfl)
  rw [record_eq]
  generalize State.inside _ _ = ids
  generalize State.attach _ _ _ _ = u at attached ⊢
  induction ids generalizing u with
  | nil => exact attached
  | cons first rest ih => exact ih _ (attached.updateScope first (fun _ => rfl))

theorem makeDynamic (marked : s.Marked) : s.makeDynamic.Marked :=
  (marked.report (.directEval s.current) rfl rfl trivial).updateScope _ (fun _ => rfl)

theorem enter (marked : s.Marked) (coherent : s.Coherent) (can : s.CanEnter) (kind : ScopeKind)
    (node : Node) : (s.enter kind node).Marked := by
  have noted : (s.noteChild ⟨s.scopes.size⟩).Marked := by
    unfold noteChild
    split
    · exact marked
    · exact marked.updateScope _ (fun _ => rfl)
  have events : (s.enter kind node).events.toList =
      s.events.toList ++ [.enterScope ⟨s.scopes.size⟩ kind node.id] := by
    rw [events_enter, Array.toList_push]
  have same : (s.noteChild ⟨s.scopes.size⟩).events = s.events := by
    unfold noteChild
    split <;> rfl
  refine ⟨?_, ?_, ?_⟩
  · have before := noted.entered
    rw [same] at before
    rw [events, List.filterMap_append, before, scopes_enter]
    simp [Event.entered?, nextScope]
  · rw [events, Event.openAfter_concat, marked.stack, openScopes_enter]
    rfl
  · rw [events]
    refine Event.forall_split_concat (fun before event after split => ?_) ?_
    · refine (marked.suits before event after split).congr (by rw [size_enter]; omega) ?_
      exact fun id old => parentOf_enter_of_lt s kind node old
    · have nested := (coherent.enter can kind node).nested
      rw [openScopes_enter] at nested
      rw [marked.stack]
      exact nested

theorem leave (marked : s.Marked) : s.leave.Marked := by
  unfold State.leave
  split
  · exact marked
  next id rest stack =>
    refine ⟨?_, ?_, ?_⟩
    · have exits : (Event.exitScope id).entered? = none := rfl
      simpa [State.report, List.filterMap_append, exits] using marked.entered
    · simp [State.report, Event.openAfter_concat, marked.stack, stack, Event.shift]
    · simp only [State.report, Array.toList_push]
      refine Event.forall_split_concat (fun before event after split => ?_) ?_
      · exact (marked.suits before event after split).congr (Nat.le_refl _) (fun _ _ => rfl)
      · rw [marked.stack, stack]
        rfl

end Marked

theorem Marked.openWith {s : State} (marked : s.Marked) (coherent : s.Coherent) (can : s.CanEnter)
    (kind : ScopeKind) (node : Node) (arguments : Option Name) (decls : List Declaration) :
    (s.openWith kind node arguments decls).Marked :=
  (marked.enter coherent can kind node).furnish (openScopes_enter s kind node) arguments decls

/-- Every step reports what it does to the scopes. -/
theorem Marked.invariant : Invariant Marked where
  record marked _ _ id access := marked.record id access
  directEval marked _ := marked.makeDynamic
  withStatement marked _ := marked.report _ rfl rfl trivial
  openWith marked coherent opened kind node arguments decls :=
    marked.openWith coherent (.of_opened opened) kind node arguments decls
  leave marked _ := marked.leave

/-! What is reported about variables. -/

/-- There are no implicit globals. -/
def Settled (s : State) : Prop :=
  ∀ (i : Nat) (v : Variable), s.vars[i]? = some v → v.isImplicit = false

theorem Settled.declare {s : State} (settled : s.Settled) (d : Declaration) :
    (s.declare d).Settled := by
  intro i v found
  cases owned : s.own d.id.name s.current with
  | some w =>
    rw [declare_of_own owned, getElem?_updateVariable] at found
    split at found
    · obtain ⟨a, _, rfl⟩ := Option.map_eq_some_iff.1 found
      simp [Variable.isImplicit]
    · exact settled i v found
  | none =>
    rw [declare_of_free owned, vars_addVariable, Array.getElem?_push] at found
    split at found
    · cases found
      simp [Variable.isImplicit]
    · exact settled i v found

/-- The events so far agree with the declarations of the variables and with the implicit globals. -/
structure Noted (s : State) : Prop where
  declared : ∀ (i : Nat) (v : Variable), s.vars[i]? = some v →
    s.events.toList.filterMap (Event.kindFor? v.scope v.name) =
      v.declarations.map Declaration.kind
  /-- What no scope binds has not been declared. -/
  free : ∀ scope name, s.own name scope = none →
    s.events.toList.filterMap (Event.kindFor? scope name) = []
  total : (s.events.toList.filter Event.isDeclare).length =
    (s.vars.toList.map (fun v => v.declarations.length)).sum
  globals : s.events.toList.filterMap Event.global? =
    (s.vars.toList.filter Variable.isImplicit).map Variable.name

namespace Noted

variable {s t : State}

/-- A step that declares nothing and brings about no variable. -/
theorem congr (noted : s.Noted) (new : List Event) (events : t.events.toList =
      s.events.toList ++ new)
    (quiet : ∀ e ∈ new, (∀ scope name, e.kindFor? scope name = none) ∧ e.isDeclare = false ∧
      e.global? = none)
    (own : ∀ name id, t.own name id = s.own name id)
    (vars : t.vars.toList.map Variable.withoutUses = s.vars.toList.map Variable.withoutUses) :
    t.Noted := by
  have kinds (scope : ScopeId) (name : Name) : t.events.toList.filterMap
      (Event.kindFor? scope name) = s.events.toList.filterMap (Event.kindFor? scope name) := by
    rw [events, List.filterMap_append,
      List.filterMap_eq_nil_iff.2 (fun e member => (quiet e member).1 scope name), List.append_nil]
  refine ⟨fun i v found => ?_, fun scope name unowned => ?_, ?_, ?_⟩
  · have same := congrArg (fun l => l[i]?) vars
    simp only [List.getElem?_map, Array.getElem?_toList, found, Option.map_some] at same
    obtain ⟨w, foundW, eq⟩ := Option.map_eq_some_iff.1 same.symm
    have before := noted.declared i w foundW
    simp only [Variable.withoutUses, Variable.mk.injEq] at eq
    rw [eq.1, eq.2.1, eq.2.2.1] at before
    rw [kinds, before]
  · rw [kinds]
    exact noted.free scope name ((own name scope).symm.trans unowned)
  · have none : new.filter Event.isDeclare = [] :=
      List.filter_eq_nil_iff.2 (fun e member => by simp [(quiet e member).2.1])
    have lengths (vs : List Variable) : vs.map (fun v => v.declarations.length) =
        (vs.map Variable.withoutUses).map (fun v => v.declarations.length) := by
      rw [List.map_map]
      rfl
    rw [events, List.filter_append, none, List.append_nil, noted.total, lengths, ← vars, ← lengths]
  · have none : new.filterMap Event.global? = [] :=
      List.filterMap_eq_nil_iff.2 (fun e member => (quiet e member).2.2)
    have named (vs : List Variable) : (vs.filter Variable.isImplicit).map Variable.name =
        ((vs.map Variable.withoutUses).filter Variable.isImplicit).map Variable.name := by
      rw [List.filter_map, List.map_map]
      rfl
    rw [events, List.filterMap_append, none, List.append_nil, noted.globals, named, ← vars,
      ← named]

/-- A variable comes about with all that is reported about it. -/
theorem gain (noted : s.Noted) (coherent : t.Coherent) (vars : t.vars = s.vars)
    (own : ∀ name id, t.own name id = s.own name id) {scope : ScopeId}
    (there : scope.index < t.scopes.size) {name : Name} (free : t.own name scope = none)
    {ds : List Declaration} {new : List Event} (events : t.events.toList = s.events.toList ++ new)
    (kinds : ∀ scope' name', new.filterMap (Event.kindFor? scope' name') =
      if scope = scope' ∧ name = name' then ds.map Declaration.kind else [])
    (count : (new.filter Event.isDeclare).length = ds.length)
    (implicit : new.filterMap Event.global? =
      if scope == ScopeId.root && ds.isEmpty then [name] else []) :
    (t.addVariable scope name ds).2.Noted := by
  have reported : (t.addVariable scope name ds).2.events.toList = s.events.toList ++ new := events
  have gained : (t.addVariable scope name ds).2.vars.toList =
      s.vars.toList ++ [⟨name, scope, ds, []⟩] := by
    rw [vars_addVariable, vars, Array.toList_push]
  refine ⟨fun i v found => ?_, fun scope' name' unowned => ?_, ?_, ?_⟩
  · rw [reported, List.filterMap_append, kinds]
    rw [vars_addVariable, Array.getElem?_push] at found
    split at found
    next last =>
      cases found
      rw [if_pos ⟨rfl, rfl⟩, noted.free scope name ((own name scope).symm.trans free),
        List.nil_append]
    next =>
      have old := coherent.own_of_mem (coherent.held i v found)
      have other : ¬(scope = v.scope ∧ name = v.name) := by
        rintro ⟨rfl, rfl⟩
        rw [free] at old
        cases old
      rw [if_neg other, List.append_nil]
      exact noted.declared i v (vars ▸ found)
  · have other : ¬(scope = scope' ∧ name = name') := by
      rintro ⟨rfl, rfl⟩
      rw [own_addVariable_self t there free] at unowned
      cases unowned
    have before : t.own name' scope' = none := by
      by_cases same : name' = name
      · have apart : scope' ≠ scope := fun here => other ⟨here.symm, same.symm⟩
        rwa [own_congr (bindingsOf_addVariable_of_ne t apart name ds)] at unowned
      · rwa [own_addVariable_of_ne t scope scope' same] at unowned
    rw [reported, List.filterMap_append, kinds, if_neg other, List.append_nil]
    exact noted.free scope' name' ((own name' scope').symm.trans before)
  · rw [reported, gained, List.filter_append, List.length_append, noted.total, count]
    simp
  · rw [reported, gained, List.filterMap_append, noted.globals, implicit, List.filter_append,
      List.map_append, List.filter_cons, Variable.isImplicit]
    split <;> rfl

/-- An entry of an array that is changed stays between those before and after it. -/
theorem exists_split_modify {α : Type} {xs : Array α} {i : Nat} {a : α} (found : xs[i]? = some a)
    (g : α → α) : ∃ before after, xs.toList = before ++ a :: after ∧
      (xs.modify i g).toList = before ++ g a :: after := by
  obtain ⟨before, b, after, split, position, modified⟩ :=
    List.exists_of_modify g (Array.getElem?_eq_some_iff.1 found).1
  have there : xs.toList[i]? = some a := by rw [Array.getElem?_toList, found]
  rw [split, ← position, List.getElem?_append_right (Nat.le_refl _), Nat.sub_self] at there
  cases Option.some.inj there
  exact ⟨before, after, split, (Array.toList_modify ..).trans modified⟩

/-- A variable gains a declaration that is reported. An implicit global must not. -/
theorem gainDeclaration (noted : s.Noted) (coherent : s.Coherent) {d : Declaration}
    {v : VariableId} (owned : s.own d.id.name s.current = some v)
    (declared : ∀ a, s.vars[v.index]? = some a → a.isImplicit = false) :
    ((s.report (.declare d.id.name d.kind s.current)).updateVariable v
      (fun a => { a with declarations := a.declarations ++ [d] })).Noted := by
  obtain ⟨a, found, name, scope⟩ := coherent.owner owned
  have explicit := declared a found
  have kinds (scope' : ScopeId) (name' : Name) : (s.events.push (.declare d.id.name d.kind
      s.current)).toList.filterMap (Event.kindFor? scope' name') =
      s.events.toList.filterMap (Event.kindFor? scope' name') ++
        if s.current = scope' ∧ d.id.name = name' then [d.kind] else [] := by
    rw [Array.toList_push, List.filterMap_append, Event.filterMap_kindFor?_declare]
  obtain ⟨before, after, split, gained⟩ := exists_split_modify found
    (fun a => { a with declarations := a.declarations ++ [d] })
  refine ⟨fun i w foundW => ?_, fun scope' name' unowned => ?_, ?_, ?_⟩
  · change (s.events.push _).toList.filterMap _ = _
    rw [kinds]
    rw [getElem?_updateVariable] at foundW
    split at foundW
    next here =>
      obtain ⟨c, foundC, rfl⟩ := Option.map_eq_some_iff.1 foundW
      cases Option.some.inj (foundC.symm.trans (here ▸ found))
      rw [if_pos ⟨scope.symm, name.symm⟩, noted.declared i _ foundC, List.map_append]
      rfl
    next here =>
      have other : ¬(s.current = w.scope ∧ d.id.name = w.name) := by
        rintro ⟨scope', name'⟩
        have old := coherent.own_of_mem (coherent.held i w foundW)
        rw [← scope', ← name', owned] at old
        exact here (congrArg VariableId.index (Option.some.inj old))
      rw [if_neg other, List.append_nil]
      exact noted.declared i w foundW
  · have other : ¬(s.current = scope' ∧ d.id.name = name') := by
      rintro ⟨rfl, rfl⟩
      exact nomatch owned.symm.trans unowned
    change (s.events.push _).toList.filterMap _ = _
    rw [kinds, if_neg other, List.append_nil]
    exact noted.free scope' name' unowned
  · change ((s.events.push _).toList.filter _).length = _
    have total := noted.total
    have one : Event.isDeclare (.declare d.id.name d.kind s.current) = true := rfl
    rw [split] at total
    simp only [State.updateVariable, State.report, gained, Array.toList_push, List.filter_append,
      List.filter_cons_of_pos one, List.filter_nil, List.length_append, List.length_singleton,
      List.map_append, List.map_cons, List.sum_append, List.sum_cons] at total ⊢
    omega
  · change (s.events.push _).toList.filterMap _ = _
    have globals := noted.globals
    rw [split] at globals
    simp only [State.updateVariable, State.report, gained]
    have explicit' : ({ a with declarations := a.declarations ++ [d] } : Variable).isImplicit =
        false := by simp [Variable.isImplicit]
    have silent : Event.global? (.declare d.id.name d.kind s.current) = none := rfl
    simp only [List.filter_append, List.filter_cons, explicit, explicit'] at globals ⊢
    simpa [List.filterMap_append, silent] using globals

/-- In the root declarations are only made as long as there are no implicit globals. -/
theorem declare (noted : s.Noted) (coherent : s.Coherent) {id : ScopeId} {rest : List ScopeId}
    (stack : s.openScopes = id :: rest) (d : Declaration)
    (settled : id = ScopeId.root → s.Settled) :
    (s.declare d).Noted := by
  have here := current_eq stack
  cases owned : s.own d.id.name s.current with
  | some v =>
    rw [declare_of_own owned]
    refine noted.gainDeclaration coherent owned (fun a found => ?_)
    obtain ⟨b, foundB, _, scope⟩ := coherent.owner owned
    rw [found] at foundB
    cases foundB
    by_cases root : id = ScopeId.root
    · exact settled root _ a found
    · simp [Variable.isImplicit, scope, here, root]
  | none =>
    rw [declare_of_free owned]
    have there : s.current.index < s.scopes.size := by
      rw [here]
      exact coherent.nested.index_lt id (by simp [stack])
    refine noted.gain (coherent.report _) rfl (fun _ _ => rfl) there owned Array.toList_push
      (fun scope' name' => Event.filterMap_kindFor?_declare scope' _ name' _ _) rfl ?_
    simp [Event.global?]

theorem furnish (noted : s.Noted) (coherent : s.Coherent) {id : ScopeId} {rest : List ScopeId}
    (stack : s.openScopes = id :: rest) {arguments : Option Name}
    (outermost : id = ScopeId.root → arguments = none ∧ s.Settled) (decls : List Declaration) :
    (s.furnish arguments decls).Noted := by
  have all (s : State) (noted : s.Noted) (coherent : s.Coherent)
      (stack : s.openScopes = id :: rest) (settled : id = ScopeId.root → s.Settled) :
      (s.declareAll decls).Noted := by
    induction decls generalizing s with
    | nil => exact noted
    | cons d others ih =>
      exact ih _ (noted.declare coherent stack d settled) (coherent.declare stack d)
        (by simpa using stack) (fun root => (settled root).declare d)
  cases arguments with
  | none => exact all s noted coherent stack (fun root => (outermost root).2)
  | some name =>
    have inner : id ≠ ScopeId.root := fun root => nomatch (outermost root).1
    refine all _ ?_ (coherent.bindArguments stack name) (by simpa using stack)
      (fun root => absurd root inner)
    change (s.bindArguments name).Noted
    cases owned : s.own name s.current with
    | some v => exact (bindArguments_of_own owned).symm ▸ noted
    | none =>
      have here := current_eq stack
      have there : s.current.index < s.scopes.size := by
        rw [here]
        exact coherent.nested.index_lt id (by simp [stack])
      rw [bindArguments_of_free owned]
      refine noted.gain coherent rfl (fun _ _ => rfl) there owned (List.append_nil _).symm
        (fun _ _ => by simp) rfl ?_
      simp [here, inner]

theorem resolve (noted : s.Noted) (coherent : s.Coherent) (opened : s.openScopes ≠ [])
    (name : Name) : (s.resolve name).2.Noted := by
  cases seen : s.sight.get name with
  | cons v rest => exact (resolve_of_seen seen).symm ▸ noted
  | nil =>
    have free := coherent.own_eq_none seen
    obtain ⟨id, rest, stack⟩ := List.exists_cons_of_ne_nil opened
    have nested := coherent.nested
    rw [stack] at nested
    obtain ⟨inner, bottom⟩ := nested.eq_append_root
    have outermost : ScopeId.root ∈ s.openScopes := by
      rw [stack, bottom]
      exact List.mem_append_right _ (List.mem_singleton_self _)
    rw [resolve_of_unseen seen]
    exact noted.gain (coherent.report _) rfl (fun _ _ => rfl)
      (coherent.nested.index_lt _ outermost) (free _ outermost) Array.toList_push
      (fun _ _ => by simp [Event.kindFor?]) rfl rfl

theorem record (noted : s.Noted) (coherent : s.Coherent) (opened : s.openScopes ≠ [])
    (id : Occurrence) (access : Access) : (s.record id access).Noted := by
  have resolved := noted.resolve coherent opened id.name
  rw [record_eq]
  generalize State.inside _ _ = ids
  refine resolved.congr [] ?_ (by simp) (fun name scope => ?_) ?_
  · rw [events_passThrough, List.append_nil]
    rfl
  · exact congrFun ((sameFrame_passThrough _ _ _ ids).own name) scope
  · rw [vars_passThrough]
    refine List.ext_getElem? (fun i => ?_)
    simp only [List.getElem?_map, Array.getElem?_toList, getElem?_attach]
    split
    · rw [Option.map_map]
      rfl
    · rfl

/-- An event that says nothing of variables, and a step that leaves them alone. -/
theorem quiet (noted : s.Noted) (event : Event) (kinds : ∀ scope name,
      event.kindFor? scope name = none) (declares : event.isDeclare = false)
    (global : event.global? = none) (events : t.events = s.events.push event)
    (own : ∀ name id, t.own name id = s.own name id) (vars : t.vars = s.vars) : t.Noted := by
  refine noted.congr [event] (by rw [events, Array.toList_push]) (fun e member => ?_) own
    (by rw [vars])
  rw [List.mem_singleton.1 member]
  exact ⟨kinds, declares, global⟩

theorem makeDynamic (noted : s.Noted) : s.makeDynamic.Noted := by
  have frame : SameFrame (s.report (.directEval s.current)) s.makeDynamic :=
    .updateScope _ _ (fun _ => rfl)
  exact noted.quiet (.directEval s.current) (fun _ _ => rfl) rfl rfl rfl
    (fun name id => own_congr (frame.bindingsOf id) name) rfl

theorem enter (noted : s.Noted) (kind : ScopeKind) (node : Node) : (s.enter kind node).Noted :=
  noted.quiet (.enterScope ⟨s.scopes.size⟩ kind node.id) (fun _ _ => rfl) rfl rfl
    (events_enter s kind node)
    (fun name id => own_congr (bindingsOf_enter s kind node id) name) (vars_enter s kind node)

theorem leave (noted : s.Noted) : s.leave.Noted := by
  unfold State.leave
  split
  · exact noted
  next id rest _ =>
    exact noted.quiet (.exitScope id) (fun _ _ => rfl) rfl rfl rfl (fun _ _ => rfl) rfl

end Noted

theorem Noted.openWith {s : State} (noted : s.Noted) (coherent : s.Coherent) (can : s.CanEnter)
    (kind : ScopeKind) (node : Node) {arguments : Option Name}
    (outermost : s.scopes.size = 0 → arguments = none ∧ s.Settled) (decls : List Declaration) :
    (s.openWith kind node arguments decls).Noted := by
  refine (noted.enter kind node).furnish (coherent.enter can kind node)
    (openScopes_enter s kind node) (fun root => ?_) decls
  obtain ⟨bare, settled⟩ := outermost (congrArg ScopeId.index root)
  refine ⟨bare, fun i v found => settled i v ?_⟩
  rwa [vars_enter] at found

/-- Every step reports what it does to the variables. -/
theorem Noted.invariant : Invariant Noted where
  record noted coherent opened id access := noted.record coherent opened id access
  directEval noted _ := noted.makeDynamic
  withStatement noted _ :=
    noted.quiet (.withStatement _) (fun _ _ => rfl) rfl rfl rfl (fun _ _ => rfl) rfl
  openWith noted coherent opened kind node _ decls :=
    noted.openWith coherent (.of_opened opened) kind node
      (fun empty => absurd empty (Nat.ne_of_gt (coherent.size_pos opened))) decls
  leave noted _ := noted.leave

/-! Scopes are closed in the right order. -/

/-- The events between two states are well bracketed. -/
def Brackets (s t : State) : Prop :=
  ∃ new, t.events.toList = s.events.toList ++ new ∧ Event.Bracketed new

namespace Brackets

variable {s t u : State}

theorem of_same (same : t.events = s.events) : Brackets s t :=
  ⟨[], by rw [same, List.append_nil], .nil⟩

theorem trans (first : Brackets s t) (second : Brackets t u) : Brackets s u := by
  obtain ⟨new, events, bracketed⟩ := first
  obtain ⟨new', events', bracketed'⟩ := second
  exact ⟨new ++ new', by rw [events', events, List.append_assoc], bracketed.append bracketed'⟩

theorem push (event : Event) (enters : event.entered? = none) (exits : event.exited? = none)
    (events : t.events = s.events.push event) : Brackets s t :=
  ⟨[event], by rw [events, Array.toList_push], .one enters exits⟩

theorem declare (s : State) (d : Declaration) : Brackets s (s.declare d) := by
  have reported : (s.declare d).events = s.events.push (.declare d.id.name d.kind s.current) := by
    simp only [State.declare]
    split <;> rfl
  exact .push _ rfl rfl reported

theorem furnish (s : State) (arguments : Option Name) (decls : List Declaration) :
    Brackets s (s.furnish arguments decls) := by
  have all (s : State) : Brackets s (s.declareAll decls) := by
    induction decls generalizing s with
    | nil => exact .of_same rfl
    | cons d rest ih => exact (declare s d).trans (ih (s.declare d))
  cases arguments with
  | none => exact all s
  | some name =>
    have silent : (s.bindArguments name).events = s.events := by
      unfold bindArguments
      split <;> rfl
    exact (Brackets.of_same silent).trans (all _)

theorem record (s : State) (id : Occurrence) (access : Access) :
    Brackets s (s.record id access) := by
  have resolved : Brackets s (s.resolve id.name).2 := by
    unfold resolve
    split
    · exact .of_same rfl
    · exact .push (.implicitGlobal id.name) rfl rfl rfl
  rw [record_eq]
  refine resolved.trans (.of_same ?_)
  exact events_passThrough ((s.resolve id.name).2.attach id access (s.resolve id.name).1) ..

/-- A scope brackets what is reported inside it. -/
theorem scope {kind : ScopeKind} {node : Node} {arguments : Option Name}
    {decls : List Declaration} {inner : List Layout}
    (inside : Brackets (s.openWith kind node arguments decls)
      ((s.openWith kind node arguments decls).layOutAll inner)) :
    Brackets s (s.layOut (.scope kind node arguments decls inner)) := by
  obtain ⟨new, events, bracketed⟩ := (furnish (s.enter kind node) arguments decls).trans inside
  have last (u : State) (outer : List ScopeId) (stack : u.openScopes = ⟨s.scopes.size⟩ :: outer) :
      u.leave.events.toList = u.events.toList ++ [.exitScope ⟨s.scopes.size⟩] := by
    simp [State.leave, stack, State.report]
  have stack : ((s.openWith kind node arguments decls).layOutAll inner).openScopes =
      ⟨s.scopes.size⟩ :: s.openScopes := by
    simp [State.openWith]
  refine ⟨_, ?_, .scope ⟨s.scopes.size⟩ kind node.id bracketed .nil⟩
  rw [State.layOut, last _ _ stack, events, events_enter, Array.toList_push]
  simp

end Brackets

mutual

/-- What is reported while laying out is well bracketed. -/
theorem Brackets.layOut (s : State) : ∀ l : Layout, Brackets s (s.layOut l)
  | .use id access => .record s id access
  | .directEval => .push (.directEval s.current) rfl rfl rfl
  | .withStatement => .push (.withStatement s.current) rfl rfl rfl
  | .scope kind node arguments decls inner =>
    .scope (Brackets.layOutAll (s.openWith kind node arguments decls) inner)

theorem Brackets.layOutAll (s : State) : ∀ ls : List Layout, Brackets s (s.layOutAll ls)
  | [] => .of_same rfl
  | l :: rest => (Brackets.layOut s l).trans (Brackets.layOutAll (s.layOut l) rest)

end

/-- Nested scopes are the ancestors of the first one. -/
theorem Nested.ancestors {s : State} (coherent : s.Coherent) {id : ScopeId} {ids : List ScopeId}
    (nested : s.Nested (id :: ids)) : s.tree.Ancestors id ids := by
  induction ids generalizing id with
  | nil =>
    refine .root ?_
    rw [nested.1]
    exact coherent.rootless
  | cons outer rest ih => exact .inside nested.2.2.1 (ih nested.tail)

end State

end Resolution

open Resolution in
/-- The tree and the trace of an analysis are those of one state, in which all that is reported
agrees with the scopes and variables. -/
theorem exists_traced_of_analyze {options : Options} {p : NumberedProgram}
    {names names' : Interner} {a : Analysis}
    (analyzed : p.analyze options names = (.ok a, names')) :
    ∃ s : State, a = ⟨s.tree, s.events⟩ ∧ s.Coherent ∧ s.Marked ∧ s.Noted ∧
      Event.Bracketed s.events.toList ∧ s.events.toList.getLast? =
        some (.complete s.tree.scopes.size s.tree.vars.size s.tree.references.size) := by
  obtain ⟨outline, decls, inner, folded, completed, _⟩ := analyze_layOut analyzed
  have ran : p.analyze options names = _ := analyze_of_folded folded
  rw [completed, analyzed] at ran
  have finished := State.finish_eq_tree (State.forest_layOut_initial
    #[.start p.isModule p.node.id] .global outline.node none decls inner)
  have initial := State.Coherent.initial #[.start p.isModule p.node.id]
  have can : (State.initial #[.start p.isModule p.node.id]).CanEnter := fun _ => rfl
  -- The first event and the last one say nothing of any scope or variable.
  have unmarked : (State.initial #[]).Marked := ⟨rfl, rfl, by simp [State.initial]⟩
  have marked : (State.initial #[.start p.isModule p.node.id]).Marked :=
    unmarked.report (.start p.isModule p.node.id) rfl rfl trivial
  have noted : (State.initial #[.start p.isModule p.node.id]).Noted :=
    ⟨by simp [State.initial], fun _ _ _ => rfl, rfl, rfl⟩
  have brackets : State.Brackets (.initial #[]) (.initial #[.start p.isModule p.node.id]) :=
    .push (.start p.isModule p.node.id) rfl rfl rfl
  set s := (State.initial #[.start p.isModule p.node.id]).layOut
    (.scope .global outline.node none decls inner)
  have result : a = ⟨s.finish, s.events.push
      (.complete s.finish.scopes.size s.finish.vars.size s.finish.references.size)⟩ :=
    Except.ok.inj (congrArg Prod.fst ran)
  have coherentS : s.Coherent := State.coherent_layOut_initial ..
  have markedS : s.Marked := State.Marked.invariant.scope initial can
    (marked.openWith initial can .global outline.node none decls) inner
  have outermost : (none : Option Name) = none ∧ (State.initial #[.start p.isModule
      p.node.id]).Settled := ⟨rfl, by simp [State.Settled, State.initial]⟩
  have notedS : s.Noted := State.Noted.invariant.scope initial can
    (noted.openWith initial can .global outline.node (fun _ => outermost) decls) inner
  set done : Event := .complete s.tree.scopes.size s.tree.vars.size s.tree.references.size
  have ended : State.Brackets s (s.report done) := .push done rfl rfl rfl
  obtain ⟨new, events, bracketed⟩ := (brackets.trans (State.Brackets.layOut _ _)).trans ended
  refine ⟨s.report done, ?_, coherentS.report done, markedS.report done rfl rfl trivial,
    notedS.quiet done (fun _ _ => rfl) rfl rfl rfl (fun _ _ => rfl) rfl, ?_, ?_⟩
  · rw [result, finished]
    rfl
  · have all : (s.report done).events.toList = new := events
    exact all ▸ bracketed
  · simp [State.report]
    rfl

open Resolution in
/-- The trace of an analysis is a faithful record of the tree. -/
theorem isRecordedBy_of_analyze {options : Options} {p : NumberedProgram} {names names' : Interner}
    {a : Analysis} (analyzed : p.analyze options names = (.ok a, names')) :
    a.tree.IsRecordedBy a.events.toList := by
  obtain ⟨s, rfl, coherent, marked, noted, bracketed, last⟩ := exists_traced_of_analyze analyzed
  have ids : s.tree.scopes.toList.map Scope.id =
      (List.range s.tree.scopes.size).map ScopeId.mk := by
    refine List.ext_getElem (by simp) (fun i inside _ => ?_)
    have there : i < s.tree.scopes.size := by simpa using inside
    have found : s.tree.scopes[i]? = some s.tree.scopes[i] := Array.getElem?_eq_getElem there
    simpa using coherent.placed i _ found
  have numbered : (s.events.toList.filterMap Event.entered?).map Prod.fst =
      (List.range s.tree.scopes.size).map ScopeId.mk := by
    rw [marked.entered, List.map_map, ← ids]
    rfl
  refine ⟨numbered, marked.entered, bracketed, numbered ▸ bracketed.perm, ?_, ?_,
    fun id => noted.declared id.index, ?_, noted.total, noted.globals, last⟩
  · intro before id kind node after split
    exact State.Nested.ancestors coherent (marked.suits _ _ _ split)
  · intro before name kind scope after split
    exact marked.suits _ _ _ split
  · intro before name kind scope after split
    by_contra unowned
    have free : s.own name scope = none := by
      rw [← State.own?_tree, Option.eq_none_iff_forall_ne_some]
      exact fun id owned => unowned ⟨id, owned⟩
    have silent := noted.free scope name free
    rw [split, List.filterMap_append, List.filterMap_cons] at silent
    simp [Event.kindFor?] at silent

theorem nestedBlocks_isRecordedBy :
    ∃ a names', nestedBlocks.1.analyze .default nestedBlocks.2.names = (.ok a, names') ∧
      a.tree.IsRecordedBy a.events.toList := by
  have completed : (nestedBlocks.1.analyze .default nestedBlocks.2.names).1.isOk = true := by
    decide +kernel
  obtain ⟨a, names', analyzed⟩ := Resolution.exists_of_isOk completed
  exact ⟨a, names', analyzed, isRecordedBy_of_analyze analyzed⟩

end ScopeAnalysis
