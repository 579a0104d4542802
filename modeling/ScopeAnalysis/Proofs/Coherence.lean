import Mathlib.Data.List.Nodup
import ScopeAnalysis.Proofs.Layout

/-!
# Coherence

The state of a walk says the same thing in several places: a variable names its scope and the scope
lists the variable, and what is in sight under a name is what the open scopes bind. `Coherent`
collects these agreements. Every step keeps them, so they hold after every layout, and so does
whatever else each step keeps of a coherent state, which is an `Invariant`.

Variables are only ever added to a scope that has just been opened or, without declarations, to the
root. `Grows` says so for whole layouts.
-/

namespace ScopeAnalysis.Resolution

namespace State

/-- The variable that a scope binds to a name. -/
def own (s : State) (name : Name) (id : ScopeId) : Option VariableId :=
  ((s.bindingsOf id).find? (fun entry => entry.1 = name)).map Prod.snd

def parentOf (s : State) (id : ScopeId) : Option ScopeId := s.scopes[id.index]?.bind Scope.parent

/-- Each scope of the list lies directly inside the next one, and the last is the root. -/
def Nested (s : State) : List ScopeId → Prop
  | [] => True
  | [id] => id = ScopeId.root ∧ 0 < s.scopes.size
  | id :: outer :: rest =>
    id.index < s.scopes.size ∧ outer.index < id.index ∧ s.parentOf id = some outer ∧
      s.Nested (outer :: rest)

/-- The places where a state says the same thing agree. -/
structure Coherent (s : State) : Prop where
  placed : ∀ (i : Nat) (scope : Scope), s.scopes[i]? = some scope → scope.id = ⟨i⟩
  rootless : s.parentOf ScopeId.root = none
  /-- A scope binds a name once. -/
  unique : ∀ id, ((s.bindingsOf id).map Prod.fst).Nodup
  /-- What a scope binds is a variable of that name and scope. -/
  bound : ∀ id entry, entry ∈ s.bindingsOf id →
    ∃ v, s.vars[entry.2.index]? = some v ∧ v.name = entry.1 ∧ v.scope = id
  /-- Every variable is bound by its scope. -/
  held : ∀ (i : Nat) (v : Variable), s.vars[i]? = some v → (v.name, ⟨i⟩) ∈ s.bindingsOf v.scope
  nested : s.Nested s.openScopes
  /-- In sight are the variables of the open scopes. -/
  sighted : ∀ name, s.sight.get name = s.openScopes.filterMap (s.own name)

theorem bindingsOf_eq {s : State} {id : ScopeId} {scope : Scope}
    (found : s.scopes[id.index]? = some scope) : s.bindingsOf id = scope.bindings := by
  simp [bindingsOf, found]

theorem own_eq {s : State} {id : ScopeId} {scope : Scope}
    (found : s.scopes[id.index]? = some scope) (name : Name) :
    s.own name id = scope.find? name := by
  simp [own, Scope.find?, bindingsOf_eq found]

theorem ownVariable?_eq (s : State) (name : Name) : s.ownVariable? name = s.own name s.current := by
  unfold ownVariable? own bindingsOf
  cases s.scopes[s.current.index]? with
  | none => rfl
  | some scope => rfl

theorem declare_of_own {s : State} {d : Declaration} {v : VariableId}
    (owned : s.own d.id.name s.current = some v) :
    s.declare d = (s.report (.declare d.id.name d.kind s.current)).updateVariable v
      (fun a => { a with declarations := a.declarations ++ [d] }) := by
  have same : (s.report (.declare d.id.name d.kind s.current)).ownVariable? d.id.name = some v :=
    (ownVariable?_eq ..).trans owned
  simp only [State.declare, same]

theorem declare_of_free {s : State} {d : Declaration}
    (free : s.own d.id.name s.current = none) :
    s.declare d = ((s.report (.declare d.id.name d.kind s.current)).addVariable s.current d.id.name
      [d]).2 := by
  have same : (s.report (.declare d.id.name d.kind s.current)).ownVariable? d.id.name = none :=
    (ownVariable?_eq ..).trans free
  simp only [State.declare, same]

theorem bindArguments_of_own {s : State} {arguments : Name} {v : VariableId}
    (owned : s.own arguments s.current = some v) : s.bindArguments arguments = s := by
  simp only [State.bindArguments, (ownVariable?_eq ..).trans owned]

theorem bindArguments_of_free {s : State} {arguments : Name}
    (free : s.own arguments s.current = none) :
    s.bindArguments arguments = (s.addVariable s.current arguments []).2 := by
  simp only [State.bindArguments, (ownVariable?_eq ..).trans free]

theorem resolve_of_seen {s : State} {name : Name} {v : VariableId} {rest : List VariableId}
    (seen : s.sight.get name = v :: rest) : s.resolve name = (v, s) := by
  rw [State.resolve, seen]

theorem resolve_of_unseen {s : State} {name : Name} (unseen : s.sight.get name = []) :
    s.resolve name = (s.report (.implicitGlobal name)).addVariable ScopeId.root name [] := by
  rw [State.resolve, unseen, implicitGlobal]

theorem own_eq_none_iff {s : State} {name : Name} {id : ScopeId} :
    s.own name id = none ↔ name ∉ (s.bindingsOf id).map Prod.fst := by
  simp only [own, Option.map_eq_none_iff, List.find?_eq_none, List.mem_map, not_exists, not_and]
  simp

/-- A scope that binds anything is there. -/
theorem exists_of_mem_bindingsOf {s : State} {id : ScopeId} {entry : Name × VariableId}
    (member : entry ∈ s.bindingsOf id) : ∃ scope, s.scopes[id.index]? = some scope := by
  unfold bindingsOf at member
  split at member
  · exact ⟨_, ‹_›⟩
  · cases member

theorem mem_of_own {s : State} {name : Name} {id : ScopeId} {v : VariableId}
    (owned : s.own name id = some v) : (name, v) ∈ s.bindingsOf id := by
  obtain ⟨entry, found, rfl⟩ := Option.map_eq_some_iff.1 owned
  have same : entry.1 = name := by simpa using List.find?_some found
  rw [← same]
  exact List.mem_of_find?_eq_some found

theorem index_lt_of_own {s : State} {name : Name} {id : ScopeId} {v : VariableId}
    (owned : s.own name id = some v) : id.index < s.scopes.size := by
  obtain ⟨scope, there⟩ := exists_of_mem_bindingsOf (mem_of_own owned)
  exact (Array.getElem?_eq_some_iff.1 there).1

theorem index_lt_of_parentOf {s : State} {id outer : ScopeId} (up : s.parentOf id = some outer) :
    id.index < s.scopes.size := by
  simp only [parentOf, Option.bind_eq_some_iff] at up
  obtain ⟨scope, there, _⟩ := up
  exact (Array.getElem?_eq_some_iff.1 there).1

namespace Nested

variable {s : State} {id : ScopeId} {ids : List ScopeId}

theorem tail (nested : s.Nested (id :: ids)) : s.Nested ids := by
  cases ids with
  | nil => trivial
  | cons outer rest => exact nested.2.2.2

theorem index_lt (nested : s.Nested ids) : ∀ id ∈ ids, id.index < s.scopes.size := by
  induction ids with
  | nil => simp
  | cons first rest ih =>
    intro id member
    rcases List.mem_cons.1 member with rfl | inRest
    · cases rest with
      | nil => exact nested.1 ▸ nested.2
      | cons outer others => exact nested.1
    · exact ih nested.tail id inRest

/-- Numbers fall on the way out. -/
theorem index_lt_first (nested : s.Nested (id :: ids)) : ∀ outer ∈ ids, outer.index < id.index := by
  induction ids generalizing id with
  | nil => simp
  | cons first rest ih =>
    intro outer member
    have step : first.index < id.index := nested.2.1
    rcases List.mem_cons.1 member with rfl | inRest
    · exact step
    · exact Nat.lt_trans (ih nested.2.2.2 outer inRest) step

theorem nodup (nested : s.Nested ids) : ids.Nodup := by
  induction ids with
  | nil => exact .nil
  | cons first rest ih =>
    refine List.nodup_cons.2 ⟨fun member => ?_, ih nested.tail⟩
    exact Nat.lt_irrefl _ (nested.index_lt_first first member)

/-- The last of nested scopes is the root. -/
theorem eq_append_root (nested : s.Nested (id :: ids)) :
    ∃ inner, id :: ids = inner ++ [ScopeId.root] := by
  induction ids generalizing id with
  | nil => exact ⟨[], by rw [nested.1]; rfl⟩
  | cons first rest ih =>
    obtain ⟨inner, eq⟩ := ih nested.2.2.2
    exact ⟨id :: inner, by rw [eq]; rfl⟩

/-- Nesting depends on the parents of the scopes alone. -/
theorem congr {t : State} (nested : s.Nested ids) (size : s.scopes.size ≤ t.scopes.size)
    (same : ∀ id, id.index < s.scopes.size → t.parentOf id = s.parentOf id) : t.Nested ids := by
  induction ids with
  | nil => trivial
  | cons first rest ih =>
    cases rest with
    | nil => exact ⟨nested.1, Nat.lt_of_lt_of_le nested.2 size⟩
    | cons outer others =>
      obtain ⟨below, falls, up, further⟩ := nested
      exact ⟨Nat.lt_of_lt_of_le below size, falls, (same first below).trans up, ih further⟩

end Nested

/-! What single steps do to the scopes. -/

theorem getElem?_updateScope (s : State) (id : ScopeId) (f : Scope → Scope) (i : Nat) :
    (s.updateScope id f).scopes[i]? =
      if id.index = i then s.scopes[i]?.map f else s.scopes[i]? :=
  Array.getElem?_modify

theorem size_updateScope (s : State) (id : ScopeId) (f : Scope → Scope) :
    (s.updateScope id f).scopes.size = s.scopes.size :=
  Array.size_modify

theorem own_congr {s t : State} {id : ScopeId} (same : t.bindingsOf id = s.bindingsOf id)
    (name : Name) : t.own name id = s.own name id := by
  simp only [own, same]

/-- Two states agree on where scopes lie and what they bind. -/
def SameFrame (s t : State) : Prop :=
  ∀ i : Nat, (t.scopes[i]?).map (fun a => (a.id, a.parent, a.bindings)) =
    (s.scopes[i]?).map (fun a => (a.id, a.parent, a.bindings))

namespace SameFrame

variable {s t u : State}

theorem refl (s : State) : SameFrame s s := fun _ => rfl

theorem trans (first : SameFrame s t) (second : SameFrame t u) : SameFrame s u :=
  fun i => (second i).trans (first i)

theorem updateScope (s : State) (id : ScopeId) {f : Scope → Scope}
    (same : ∀ a, ((f a).id, (f a).parent, (f a).bindings) = (a.id, a.parent, a.bindings)) :
    SameFrame s (s.updateScope id f) := by
  intro i
  rw [getElem?_updateScope]
  split
  · cases s.scopes[i]? <;> simp [same]
  · rfl

theorem parentOf (same : SameFrame s t) (id : ScopeId) : t.parentOf id = s.parentOf id := by
  have here := congrArg (Option.map (fun a => a.2.1)) (same id.index)
  simp only [Option.map_map] at here
  simp only [State.parentOf]
  cases foundT : t.scopes[id.index]? <;> cases foundS : s.scopes[id.index]? <;>
    simp_all

theorem bindingsOf (same : SameFrame s t) (id : ScopeId) :
    t.bindingsOf id = s.bindingsOf id := by
  have here := same id.index
  simp only [State.bindingsOf]
  cases foundT : t.scopes[id.index]? <;> cases foundS : s.scopes[id.index]? <;>
    simp_all

theorem own (same : SameFrame s t) (name : Name) : t.own name = s.own name :=
  funext (fun id => own_congr (same.bindingsOf id) name)

theorem id_eq (same : SameFrame s t) {i : Nat} {scope : Scope} (found : t.scopes[i]? = some scope) :
    ∃ before, s.scopes[i]? = some before ∧ before.id = scope.id := by
  have here := same i
  rw [found] at here
  obtain ⟨before, there, eq⟩ := Option.map_eq_some_iff.1 here.symm
  exact ⟨before, there, congrArg Prod.fst eq⟩

end SameFrame

/-- A step that leaves alone all that coherence is about keeps it. -/
theorem Coherent.congr {s t : State} (coherent : s.Coherent) (scopes : SameFrame s t)
    (size : s.scopes.size ≤ t.scopes.size)
    (vars : ∀ i : Nat, (t.vars[i]?).map (fun v => (v.name, v.scope)) =
      (s.vars[i]?).map (fun v => (v.name, v.scope)))
    (openScopes : t.openScopes = s.openScopes) (sight : t.sight = s.sight) : t.Coherent where
  placed i scope found := by
    obtain ⟨before, there, same⟩ := scopes.id_eq found
    rw [← same]
    exact coherent.placed i before there
  rootless := (scopes.parentOf _).trans coherent.rootless
  unique id := by rw [scopes.bindingsOf]; exact coherent.unique id
  bound id entry member := by
    rw [scopes.bindingsOf] at member
    obtain ⟨v, found, name, scope⟩ := coherent.bound id entry member
    have same := vars entry.2.index
    rw [found] at same
    obtain ⟨w, foundW, eq⟩ := Option.map_eq_some_iff.1 same
    simp only [Prod.mk.injEq] at eq
    exact ⟨w, foundW, eq.1.trans name, eq.2.trans scope⟩
  held i v found := by
    have same := vars i
    rw [found] at same
    obtain ⟨w, foundW, eq⟩ := Option.map_eq_some_iff.1 same.symm
    simp only [Prod.mk.injEq] at eq
    rw [scopes.bindingsOf, ← eq.1, ← eq.2]
    exact coherent.held i w foundW
  nested := by
    rw [openScopes]
    exact coherent.nested.congr size (fun id _ => scopes.parentOf id)
  sighted name := by
    rw [sight, openScopes, scopes.own]
    exact coherent.sighted name

/-! Opening a scope. -/

/-- The scope that is opened next, empty. -/
def nextScope (s : State) (kind : ScopeKind) (node : Node) : Scope :=
  { id := ⟨s.scopes.size⟩, kind, node, parent := s.openScopes.head?, children := [], bindings := [],
    dynamic := kind.isDynamic, through := .empty }

theorem sameFrame_noteChild (s : State) (child : ScopeId) : SameFrame s (s.noteChild child) := by
  unfold noteChild
  split
  · exact .refl s
  · exact .updateScope s _ (fun _ => rfl)

theorem size_noteChild (s : State) (child : ScopeId) :
    (s.noteChild child).scopes.size = s.scopes.size := by
  unfold noteChild
  split
  · rfl
  · exact size_updateScope s _ _

theorem scopes_enter (s : State) (kind : ScopeKind) (node : Node) :
    (s.enter kind node).scopes =
      (s.noteChild ⟨s.scopes.size⟩).scopes.push (s.nextScope kind node) := by
  obtain ⟨scopes, vars, references, openScopes, sight, strict, events⟩ := s
  cases openScopes <;> rfl

theorem size_enter (s : State) (kind : ScopeKind) (node : Node) :
    (s.enter kind node).scopes.size = s.scopes.size + 1 := by
  rw [scopes_enter, Array.size_push, size_noteChild]

theorem getElem?_enter (s : State) (kind : ScopeKind) (node : Node) (i : Nat) :
    (s.enter kind node).scopes[i]? =
      if i = s.scopes.size then some (s.nextScope kind node)
      else (s.noteChild ⟨s.scopes.size⟩).scopes[i]? := by
  rw [scopes_enter, Array.getElem?_push, size_noteChild]

theorem vars_enter (s : State) (kind : ScopeKind) (node : Node) :
    (s.enter kind node).vars = s.vars := by
  obtain ⟨scopes, vars, references, openScopes, sight, strict, events⟩ := s
  cases openScopes <;> rfl

theorem references_enter (s : State) (kind : ScopeKind) (node : Node) :
    (s.enter kind node).references = s.references := by
  obtain ⟨scopes, vars, references, openScopes, sight, strict, events⟩ := s
  cases openScopes <;> rfl

theorem sight_enter (s : State) (kind : ScopeKind) (node : Node) :
    (s.enter kind node).sight = s.sight := by
  obtain ⟨scopes, vars, references, openScopes, sight, strict, events⟩ := s
  cases openScopes <;> rfl

theorem bindingsOf_enter (s : State) (kind : ScopeKind) (node : Node) (id : ScopeId) :
    (s.enter kind node).bindingsOf id = s.bindingsOf id := by
  by_cases h : id.index = s.scopes.size
  · simp [bindingsOf, getElem?_enter, h, nextScope]
  · rw [← (sameFrame_noteChild s ⟨s.scopes.size⟩).bindingsOf id]
    simp [bindingsOf, getElem?_enter, h]

/-- The next scope binds nothing yet. -/
theorem bindingsOf_next (s : State) : s.bindingsOf ⟨s.scopes.size⟩ = [] := by simp [bindingsOf]

theorem own_enter (s : State) (kind : ScopeKind) (node : Node) (name : Name) :
    (s.enter kind node).own name = s.own name :=
  funext (fun id => own_congr (bindingsOf_enter s kind node id) name)

/-- A scope that has just been opened brings nothing into sight. -/
theorem filterMap_own_enter (s : State) (kind : ScopeKind) (node : Node) (name : Name) :
    (s.enter kind node).openScopes.filterMap ((s.enter kind node).own name) =
      s.openScopes.filterMap (s.own name) := by
  have fresh : s.own name ⟨s.scopes.size⟩ = none := by simp [own, bindingsOf_next]
  rw [openScopes_enter, own_enter, List.filterMap_cons_none fresh]

theorem parentOf_enter_of_lt (s : State) (kind : ScopeKind) (node : Node) {id : ScopeId}
    (old : id.index < s.scopes.size) : (s.enter kind node).parentOf id = s.parentOf id := by
  have different : id.index ≠ s.scopes.size := Nat.ne_of_lt old
  rw [← (sameFrame_noteChild s ⟨s.scopes.size⟩).parentOf id]
  simp [parentOf, getElem?_enter, different]

theorem parentOf_enter_new (s : State) (kind : ScopeKind) (node : Node) :
    (s.enter kind node).parentOf ⟨s.scopes.size⟩ = s.openScopes.head? := by
  simp [parentOf, getElem?_enter, nextScope]

/-- Scopes are opened inside others, the first one apart. -/
def CanEnter (s : State) : Prop := s.openScopes = [] → s.scopes.size = 0

theorem CanEnter.of_opened {s : State} (opened : s.openScopes ≠ []) : s.CanEnter :=
  fun empty => absurd empty opened

/-- No scope is open before the first one has been opened. -/
theorem Coherent.size_pos {s : State} (coherent : s.Coherent) (opened : s.openScopes ≠ []) :
    0 < s.scopes.size := by
  obtain ⟨id, rest, stack⟩ := List.exists_cons_of_ne_nil opened
  exact Nat.zero_lt_of_lt (coherent.nested.index_lt id (by simp [stack]))

theorem Coherent.enter {s : State} (coherent : s.Coherent) (can : s.CanEnter) (kind : ScopeKind)
    (node : Node) : (s.enter kind node).Coherent where
  placed i scope found := by
    rw [getElem?_enter] at found
    split at found
    next h =>
      cases found
      exact congrArg ScopeId.mk h.symm
    next h =>
      obtain ⟨before, there, same⟩ := (sameFrame_noteChild s ⟨s.scopes.size⟩).id_eq found
      rw [← same]
      exact coherent.placed i before there
  rootless := by
    by_cases empty : s.scopes.size = 0
    · have outside : s.openScopes = [] := by
        by_contra opened
        exact Nat.ne_of_gt (coherent.size_pos opened) empty
      have root : ScopeId.root = ⟨s.scopes.size⟩ := congrArg ScopeId.mk empty.symm
      rw [root, parentOf_enter_new, outside]
      rfl
    · have old : ScopeId.root.index < s.scopes.size := Nat.pos_of_ne_zero empty
      rw [parentOf_enter_of_lt s kind node old]
      exact coherent.rootless
  unique id := by rw [bindingsOf_enter]; exact coherent.unique id
  bound id entry member := by
    rw [bindingsOf_enter] at member
    rw [vars_enter]
    exact coherent.bound id entry member
  held i v found := by
    rw [vars_enter] at found
    rw [bindingsOf_enter]
    exact coherent.held i v found
  nested := by
    have further : (s.enter kind node).Nested s.openScopes :=
      coherent.nested.congr (by rw [size_enter]; omega)
        (fun id old => parentOf_enter_of_lt s kind node old)
    rw [openScopes_enter]
    cases stack : s.openScopes with
    | nil => exact ⟨congrArg ScopeId.mk (can stack), by rw [size_enter]; omega⟩
    | cons outer rest =>
      rw [stack] at further
      refine ⟨by rw [size_enter]; simp, ?_, ?_, further⟩
      · exact coherent.nested.index_lt outer (by simp [stack])
      · rw [parentOf_enter_new, stack]
        rfl
  sighted name := by
    rw [sight_enter, filterMap_own_enter]
    exact coherent.sighted name

/-! Adding a variable to an open scope. -/

theorem getElem?_addVariable (s : State) (scope : ScopeId) (name : Name) (ds : List Declaration)
    (i : Nat) : (s.addVariable scope name ds).2.scopes[i]? =
      if scope.index = i then
        s.scopes[i]?.map (fun a => { a with bindings := a.bindings ++ [(name, ⟨s.vars.size⟩)] })
      else s.scopes[i]? :=
  Array.getElem?_modify

theorem vars_addVariable (s : State) (scope : ScopeId) (name : Name) (ds : List Declaration) :
    (s.addVariable scope name ds).2.vars = s.vars.push ⟨name, scope, ds, []⟩ := rfl

/-- The variables that were there keep their places. -/
theorem vars_addVariable_of_some {s : State} {i : Nat} {v : Variable} (found : s.vars[i]? = some v)
    (scope : ScopeId) (name : Name) (ds : List Declaration) :
    (s.addVariable scope name ds).2.vars[i]? = some v := by
  have below := (Array.getElem?_eq_some_iff.1 found).1
  rw [vars_addVariable, Array.getElem?_push, if_neg (Nat.ne_of_lt below)]
  exact found

theorem size_addVariable (s : State) (scope : ScopeId) (name : Name) (ds : List Declaration) :
    (s.addVariable scope name ds).2.scopes.size = s.scopes.size :=
  Array.size_modify

theorem parentOf_addVariable (s : State) (scope : ScopeId) (name : Name) (ds : List Declaration)
    (id : ScopeId) : (s.addVariable scope name ds).2.parentOf id = s.parentOf id := by
  simp only [parentOf, getElem?_addVariable]
  split
  · cases s.scopes[id.index]? <;> rfl
  · rfl

theorem bindingsOf_addVariable_of_ne (s : State) {scope id : ScopeId} (other : id ≠ scope)
    (name : Name) (ds : List Declaration) :
    (s.addVariable scope name ds).2.bindingsOf id = s.bindingsOf id := by
  have different : scope.index ≠ id.index := fun h => other (congrArg ScopeId.mk h).symm
  simp [bindingsOf, getElem?_addVariable, different]

theorem bindingsOf_addVariable_self (s : State) {scope : ScopeId}
    (there : scope.index < s.scopes.size) (name : Name) (ds : List Declaration) :
    (s.addVariable scope name ds).2.bindingsOf scope =
      s.bindingsOf scope ++ [(name, ⟨s.vars.size⟩)] := by
  simp [bindingsOf, getElem?_addVariable, Array.getElem?_eq_getElem there]

/-- A scope binds what it bound before, and the one that has gained a variable binds it too. -/
theorem mem_bindingsOf_addVariable {s : State} {scope : ScopeId}
    (there : scope.index < s.scopes.size) {name : Name} {ds : List Declaration} {id : ScopeId}
    {entry : Name × VariableId} :
    entry ∈ (s.addVariable scope name ds).2.bindingsOf id ↔
      entry ∈ s.bindingsOf id ∨ id = scope ∧ entry = (name, ⟨s.vars.size⟩) := by
  by_cases same : id = scope
  · subst same
    rw [bindingsOf_addVariable_self s there, List.mem_append, List.mem_singleton]
    simp only [true_and]
  · rw [bindingsOf_addVariable_of_ne s same]
    simp only [same, false_and, or_false]

theorem own_addVariable_self (s : State) {scope : ScopeId} (there : scope.index < s.scopes.size)
    {name : Name} (free : s.own name scope = none) (ds : List Declaration) :
    (s.addVariable scope name ds).2.own name scope = some ⟨s.vars.size⟩ := by
  have absent : (s.bindingsOf scope).find? (fun entry => entry.1 = name) = none := by
    simpa only [own, Option.map_eq_none_iff] using free
  simp [own, bindingsOf_addVariable_self s there, List.find?_append, absent]

theorem own_addVariable_of_ne (s : State) (scope id : ScopeId) {name other : Name}
    (different : other ≠ name) (ds : List Declaration) :
    (s.addVariable scope name ds).2.own other id = s.own other id := by
  by_cases same : id = scope
  · subst same
    by_cases there : id.index < s.scopes.size
    · have no : (name, (⟨s.vars.size⟩ : VariableId)).1 ≠ other := different.symm
      simp [own, bindingsOf_addVariable_self s there, List.find?_append, different.symm]
    · have out : s.scopes[id.index]? = none := by simp; omega
      simp [own, bindingsOf, getElem?_addVariable, out]
  · exact own_congr (bindingsOf_addVariable_of_ne s same name ds) other

section

variable {s : State} {scope : ScopeId} {name : Name}

theorem unique_addVariable (unique : ∀ id, ((s.bindingsOf id).map Prod.fst).Nodup)
    (there : scope.index < s.scopes.size) (free : s.own name scope = none)
    (ds : List Declaration) (id : ScopeId) :
    (((s.addVariable scope name ds).2.bindingsOf id).map Prod.fst).Nodup := by
  by_cases same : id = scope
  · subst same
    rw [bindingsOf_addVariable_self s there, List.map_append, List.nodup_append]
    refine ⟨unique id, by simp, ?_⟩
    rintro n inOld m inNew rfl
    simp only [List.map_cons, List.map_nil, List.mem_singleton] at inNew
    exact own_eq_none_iff.1 free (inNew ▸ inOld)
  · rw [bindingsOf_addVariable_of_ne s same]
    exact unique id

theorem bound_addVariable (coherent : s.Coherent) (there : scope.index < s.scopes.size)
    (ds : List Declaration) (id : ScopeId) (entry : Name × VariableId)
    (member : entry ∈ (s.addVariable scope name ds).2.bindingsOf id) :
    ∃ v, (s.addVariable scope name ds).2.vars[entry.2.index]? = some v ∧ v.name = entry.1 ∧
      v.scope = id := by
  rcases (mem_bindingsOf_addVariable there).1 member with old | ⟨rfl, rfl⟩
  · obtain ⟨v, found, named⟩ := coherent.bound id entry old
    exact ⟨v, vars_addVariable_of_some found scope name ds, named⟩
  · exact ⟨⟨name, id, ds, []⟩, by simp [vars_addVariable], rfl, rfl⟩

theorem held_addVariable (coherent : s.Coherent) (there : scope.index < s.scopes.size)
    (ds : List Declaration) (i : Nat) (v : Variable)
    (found : (s.addVariable scope name ds).2.vars[i]? = some v) :
    (v.name, ⟨i⟩) ∈ (s.addVariable scope name ds).2.bindingsOf v.scope := by
  rw [vars_addVariable, Array.getElem?_push] at found
  split at found
  next last =>
    cases found
    exact (mem_bindingsOf_addVariable there).2 (.inr ⟨rfl, by rw [last]⟩)
  next => exact (mem_bindingsOf_addVariable there).2 (.inl (coherent.held i v found))

/-- The scopes further in do not bind the name, so the new variable comes first. -/
theorem filterMap_own_addVariable (distinct : s.openScopes.Nodup)
    (there : scope.index < s.scopes.size) {inner outer : List ScopeId}
    (stack : s.openScopes = inner ++ scope :: outer)
    (hidden : ∀ id ∈ inner, s.own name id = none) (free : s.own name scope = none)
    (ds : List Declaration) :
    s.openScopes.filterMap ((s.addVariable scope name ds).2.own name) =
      ⟨s.vars.size⟩ :: s.openScopes.filterMap (s.own name) := by
  have apart : scope ∉ inner ++ outer := by
    rw [stack, List.nodup_middle] at distinct
    exact (List.nodup_cons.1 distinct).1
  have elsewhere (id : ScopeId) (member : id ∈ inner ++ outer) :
      (s.addVariable scope name ds).2.own name id = s.own name id := by
    have other : id ≠ scope := by rintro rfl; exact apart member
    exact own_congr (bindingsOf_addVariable_of_ne s other name ds) name
  have before : inner.filterMap (s.own name) = [] := List.filterMap_eq_nil_iff.2 hidden
  have sameInner : inner.filterMap ((s.addVariable scope name ds).2.own name) =
      inner.filterMap (s.own name) :=
    List.filterMap_congr (fun id member => elsewhere id (List.mem_append_left _ member))
  have sameOuter : outer.filterMap ((s.addVariable scope name ds).2.own name) =
      outer.filterMap (s.own name) :=
    List.filterMap_congr (fun id member => elsewhere id (List.mem_append_right _ member))
  rw [stack, List.filterMap_append, List.filterMap_append, sameInner, before,
    List.filterMap_cons_none free, List.filterMap_cons_some (own_addVariable_self s there free ds),
    sameOuter]
  rfl

/-- The variables of the open scopes stay in sight, with the new one in front. -/
theorem sighted_addVariable (distinct : s.openScopes.Nodup) (there : scope.index < s.scopes.size)
    {inner outer : List ScopeId} (stack : s.openScopes = inner ++ scope :: outer)
    (hidden : ∀ id ∈ inner, s.own name id = none) (free : s.own name scope = none)
    (sighted : ∀ other, s.sight.get other = s.openScopes.filterMap (s.own other))
    (ds : List Declaration) (other : Name) : (s.addVariable scope name ds).2.sight.get other =
      s.openScopes.filterMap ((s.addVariable scope name ds).2.own other) := by
  change (s.sight.push name ⟨s.vars.size⟩).get other = _
  by_cases same : other = name
  · subst same
    rw [Sight.get_push_self, sighted,
      filterMap_own_addVariable distinct there stack hidden free ds]
  · have others : (s.addVariable scope name ds).2.own other = s.own other :=
      funext (fun id => own_addVariable_of_ne s scope id same ds)
    rw [Sight.get_push_of_ne _ _ same, others]
    exact sighted other

/-- A name that no scope further in binds may be added to an open scope. -/
theorem Coherent.addVariable (coherent : s.Coherent) {inner outer : List ScopeId}
    (stack : s.openScopes = inner ++ scope :: outer)
    (hidden : ∀ id ∈ inner, s.own name id = none) (free : s.own name scope = none)
    (ds : List Declaration) : (s.addVariable scope name ds).2.Coherent := by
  have there : scope.index < s.scopes.size := coherent.nested.index_lt scope (by simp [stack])
  refine ⟨?_, ?_, unique_addVariable coherent.unique there free ds,
    bound_addVariable coherent there ds, held_addVariable coherent there ds, ?_,
    sighted_addVariable coherent.nested.nodup there stack hidden free coherent.sighted ds⟩
  · intro i a found
    rw [getElem?_addVariable] at found
    split at found
    · obtain ⟨b, foundB, rfl⟩ := Option.map_eq_some_iff.1 found
      exact coherent.placed i b foundB
    · exact coherent.placed i a found
  · exact (parentOf_addVariable ..).trans coherent.rootless
  · exact coherent.nested.congr (Nat.le_of_eq (size_addVariable ..).symm)
      (fun id _ => parentOf_addVariable ..)

end

/-! The remaining steps. -/

theorem Coherent.report {s : State} (coherent : s.Coherent) (event : Event) :
    (s.report event).Coherent :=
  coherent.congr (.refl s) (Nat.le_refl _) (fun _ => rfl) rfl rfl

theorem getElem?_updateVariable (s : State) (v : VariableId) (f : Variable → Variable) (i : Nat) :
    (s.updateVariable v f).vars[i]? = if v.index = i then s.vars[i]?.map f else s.vars[i]? :=
  Array.getElem?_modify

theorem Coherent.updateVariable {s : State} (coherent : s.Coherent) (v : VariableId)
    {f : Variable → Variable}
    (same : ∀ a : Variable, ((f a).name, (f a).scope) = (a.name, a.scope)) :
    (s.updateVariable v f).Coherent := by
  refine coherent.congr (.refl s) (Nat.le_refl _) (fun i => ?_) rfl rfl
  rw [getElem?_updateVariable]
  split
  · cases s.vars[i]? <;> simp [same]
  · rfl

theorem current_eq {s : State} {id : ScopeId} {rest : List ScopeId}
    (stack : s.openScopes = id :: rest) : s.current = id := by
  simp [current, stack]

theorem Coherent.declare {s : State} (coherent : s.Coherent) {id : ScopeId} {rest : List ScopeId}
    (stack : s.openScopes = id :: rest) (d : Declaration) : (s.declare d).Coherent := by
  have reported := coherent.report (.declare d.id.name d.kind s.current)
  simp only [State.declare]
  split
  · exact reported.updateVariable _ (fun _ => rfl)
  next absent =>
    rw [ownVariable?_eq] at absent
    have top : s.openScopes = [] ++ s.current :: rest := by rw [current_eq stack, stack]; rfl
    exact reported.addVariable top (by simp) absent [d]

theorem Coherent.bindArguments {s : State} (coherent : s.Coherent) {id : ScopeId}
    {rest : List ScopeId} (stack : s.openScopes = id :: rest) (arguments : Name) :
    (s.bindArguments arguments).Coherent := by
  unfold State.bindArguments
  split
  · exact coherent
  next absent =>
    rw [ownVariable?_eq, current_eq stack] at absent
    have top : s.openScopes = [] ++ id :: rest := stack
    rw [current_eq stack]
    exact coherent.addVariable top (by simp) absent []

theorem Coherent.declareAll {s : State} (coherent : s.Coherent) {id : ScopeId}
    {rest : List ScopeId} (stack : s.openScopes = id :: rest) (ds : List Declaration) :
    (s.declareAll ds).Coherent := by
  induction ds generalizing s with
  | nil => exact coherent
  | cons d others ih => exact ih (coherent.declare stack d) (by simpa using stack)

theorem Coherent.furnish {s : State} (coherent : s.Coherent) {id : ScopeId}
    {rest : List ScopeId} (stack : s.openScopes = id :: rest) (arguments : Option Name)
    (decls : List Declaration) : (s.furnish arguments decls).Coherent := by
  cases arguments with
  | none => exact coherent.declareAll stack decls
  | some name => exact (coherent.bindArguments stack name).declareAll (by simpa using stack) decls

theorem Coherent.openWith {s : State} (coherent : s.Coherent) (can : s.CanEnter)
    (kind : ScopeKind) (node : Node) (arguments : Option Name) (decls : List Declaration) :
    (s.openWith kind node arguments decls).Coherent :=
  (coherent.enter can kind node).furnish (openScopes_enter s kind node) arguments decls

/-- Nothing in sight under a name means that no open scope binds it. -/
theorem Coherent.own_eq_none {s : State} (coherent : s.Coherent) {name : Name}
    (unseen : s.sight.get name = []) : ∀ id ∈ s.openScopes, s.own name id = none := by
  rw [coherent.sighted, List.filterMap_eq_nil_iff] at unseen
  exact unseen

theorem Coherent.resolve {s : State} (coherent : s.Coherent) (opened : s.openScopes ≠ [])
    (name : Name) : (s.resolve name).2.Coherent := by
  unfold State.resolve
  split
  · exact coherent
  next unseen =>
    obtain ⟨id, rest, stack⟩ := List.exists_cons_of_ne_nil opened
    have none := coherent.own_eq_none unseen
    have nested := coherent.nested
    rw [stack] at nested
    obtain ⟨inner, bottom⟩ := nested.eq_append_root
    rw [← stack] at bottom
    refine (coherent.report _).addVariable bottom (fun id member => ?_) ?_ []
    · exact none id (by simp [bottom, member])
    · exact none ScopeId.root (by simp [bottom])

theorem sameFrame_passThrough (s : State) (name : Name) (r : ReferenceId) (ids : List ScopeId) :
    SameFrame s (ids.foldl (passThrough name r) s) := by
  induction ids generalizing s with
  | nil => exact .refl s
  | cons id rest ih =>
    have first : SameFrame s (State.passThrough name r s id) := .updateScope s id (fun _ => rfl)
    exact first.trans (ih _)

theorem Coherent.passThrough {s : State} (coherent : s.Coherent) (name : Name) (r : ReferenceId)
    (ids : List ScopeId) : (ids.foldl (passThrough name r) s).Coherent := by
  induction ids generalizing s with
  | nil => exact coherent
  | cons id rest ih =>
    refine ih (coherent.congr (.updateScope s id (fun _ => rfl)) ?_ (fun _ => rfl) rfl rfl)
    exact Nat.le_of_eq (size_updateScope s id _).symm

theorem Coherent.attach {s : State} (coherent : s.Coherent) (id : Occurrence) (access : Access)
    (v : VariableId) : (s.attach id access v).Coherent := by
  refine Coherent.updateVariable ?_ v (fun _ => rfl)
  exact coherent.congr (.refl s) (Nat.le_refl _) (fun _ => rfl) rfl rfl

theorem Coherent.record {s : State} (coherent : s.Coherent) (opened : s.openScopes ≠ [])
    (id : Occurrence) (access : Access) : (s.record id access).Coherent := by
  rw [record_eq]
  exact ((coherent.resolve opened id.name).attach id access _).passThrough _ _ _

theorem Coherent.makeDynamic {s : State} (coherent : s.Coherent) : s.makeDynamic.Coherent := by
  refine coherent.congr (.updateScope (s.report _) _ (fun _ => rfl)) ?_ (fun _ => rfl) rfl rfl
  exact Nat.le_of_eq (size_updateScope (s.report _) _ _).symm

/-- Closing a scope uncovers each of its names once. -/
theorem get_popAll (entries : List (Name × VariableId)) (sight : Sight) (name : Name)
    (unique : (entries.map Prod.fst).Nodup) :
    (entries.foldl (fun sight entry => sight.pop entry.1) sight).get name =
      if name ∈ entries.map Prod.fst then (sight.get name).tail else sight.get name := by
  induction entries generalizing sight with
  | nil => rfl
  | cons entry rest ih =>
    obtain ⟨absent, uniqueRest⟩ := List.nodup_cons.1 unique
    rw [List.foldl_cons, ih (sight.pop entry.1) uniqueRest]
    by_cases here : name = entry.1
    · subst here
      rw [if_neg absent, Sight.get_pop_self, if_pos (by simp)]
    · have same : name ∈ (entry :: rest).map Prod.fst ↔ name ∈ rest.map Prod.fst := by
        rw [List.map_cons, List.mem_cons, or_iff_right here]
      rw [Sight.get_pop_of_ne sight here, if_congr same rfl rfl]

/-- Closing the innermost scope leaves in sight what the others bind. -/
theorem get_popAll_bindingsOf {s : State} {id : ScopeId} {rest : List ScopeId} {name : Name}
    (unique : ((s.bindingsOf id).map Prod.fst).Nodup)
    (sighted : s.sight.get name = (id :: rest).filterMap (s.own name)) :
    ((s.bindingsOf id).foldl (fun sight entry => sight.pop entry.1) s.sight).get name =
      rest.filterMap (s.own name) := by
  rw [get_popAll _ _ _ unique, sighted]
  cases owned : s.own name id with
  | none =>
    rw [if_neg (own_eq_none_iff.1 owned), List.filterMap_cons_none owned]
  | some v =>
    have member : name ∈ (s.bindingsOf id).map Prod.fst := by
      by_contra absent
      rw [own_eq_none_iff.2 absent] at owned
      cases owned
    rw [if_pos member, List.filterMap_cons_some owned]
    rfl

theorem Coherent.leave {s : State} (coherent : s.Coherent) : s.leave.Coherent := by
  unfold State.leave
  split
  · exact coherent
  next id rest stack =>
    have nested := coherent.nested
    rw [stack] at nested
    refine ⟨coherent.placed, coherent.rootless, coherent.unique, coherent.bound, coherent.held,
      nested.tail.congr (Nat.le_refl _) (fun _ _ => rfl), fun name => ?_⟩
    exact get_popAll_bindingsOf (coherent.unique id) (stack ▸ coherent.sighted name)

mutual

/-- Laying out keeps a state coherent. -/
theorem Coherent.layOut {s : State} (coherent : s.Coherent) (opened : s.openScopes ≠ []) :
    ∀ l : Layout, (s.layOut l).Coherent
  | .use id access => coherent.record opened id access
  | .directEval => coherent.makeDynamic
  | .withStatement => coherent.report _
  | .scope kind node arguments decls inner => by
    have inside := coherent.openWith (.of_opened opened) kind node arguments decls
    rw [State.layOut]
    exact (inside.layOutAll opened_openWith inner).leave

theorem Coherent.layOutAll {s : State} (coherent : s.Coherent) (opened : s.openScopes ≠ []) :
    ∀ ls : List Layout, (s.layOutAll ls).Coherent
  | [] => coherent
  | l :: rest => by
    rw [State.layOutAll]
    exact (coherent.layOut opened l).layOutAll (by simpa using opened) rest

end

/-- The outermost scope may be laid out as well. -/
theorem Coherent.scope {s : State} (coherent : s.Coherent) (can : s.CanEnter) (kind : ScopeKind)
    (node : Node) (arguments : Option Name) (decls : List Declaration) (inner : List Layout) :
    (s.layOut (.scope kind node arguments decls inner)).Coherent := by
  have inside := coherent.openWith can kind node arguments decls
  rw [State.layOut]
  exact (inside.layOutAll opened_openWith inner).leave

theorem Coherent.initial (events : Array Event) : (State.initial events).Coherent where
  placed _ _ found := by simp [State.initial] at found
  rootless := by simp [State.initial, parentOf]
  unique _ := by simp [State.initial, bindingsOf]
  bound _ _ member := by simp [State.initial, bindingsOf] at member
  held _ _ found := by simp [State.initial] at found
  nested := trivial
  sighted _ := rfl

/-- A scope that is laid out before anything else leaves a coherent state. -/
theorem coherent_layOut_initial (events : Array Event) (kind : ScopeKind) (node : Node)
    (arguments : Option Name) (decls : List Declaration) (inner : List Layout) :
    ((initial events).layOut (.scope kind node arguments decls inner)).Coherent :=
  (Coherent.initial events).scope (fun _ => rfl) kind node arguments decls inner

/-! What every step keeps is kept by all of them. -/

/-- What holds of a coherent state and is kept by every step of laying out inside an open scope. -/
structure Invariant (P : State → Prop) : Prop where
  record : ∀ {s : State}, P s → s.Coherent → s.openScopes ≠ [] → ∀ id access, P (s.record id access)
  directEval : ∀ {s : State}, P s → s.Coherent → P s.makeDynamic
  withStatement : ∀ {s : State}, P s → s.Coherent → P (s.report (.withStatement s.current))
  openWith : ∀ {s : State}, P s → s.Coherent → s.openScopes ≠ [] →
    ∀ kind node arguments decls, P (s.openWith kind node arguments decls)
  leave : ∀ {s : State}, P s → s.Coherent → P s.leave

namespace Invariant

variable {P : State → Prop} {s : State}

/-- A scope is left once all that is inside it has been laid out. -/
theorem scope_of_inside (invariant : Invariant P) (coherent : s.Coherent) (can : s.CanEnter)
    {kind : ScopeKind} {node : Node} {arguments : Option Name} {decls : List Declaration}
    {inner : List Layout} (inside : P ((s.openWith kind node arguments decls).layOutAll inner)) :
    P (s.layOut (.scope kind node arguments decls inner)) := by
  have started := coherent.openWith can kind node arguments decls
  rw [State.layOut]
  exact invariant.leave inside (started.layOutAll opened_openWith inner)

mutual

/-- Laying out keeps what every step keeps. The state stays coherent on the way. -/
theorem layOut (invariant : Invariant P) {s : State} (holds : P s) (coherent : s.Coherent)
    (opened : s.openScopes ≠ []) : ∀ l : Layout, P (s.layOut l)
  | .use id access => invariant.record holds coherent opened id access
  | .directEval => invariant.directEval holds coherent
  | .withStatement => invariant.withStatement holds coherent
  | .scope kind node arguments decls inner => by
    have can : s.CanEnter := .of_opened opened
    have started := invariant.openWith holds coherent opened kind node arguments decls
    exact invariant.scope_of_inside coherent can (invariant.layOutAll started
      (coherent.openWith can kind node arguments decls) opened_openWith inner)

theorem layOutAll (invariant : Invariant P) {s : State} (holds : P s) (coherent : s.Coherent)
    (opened : s.openScopes ≠ []) : ∀ ls : List Layout, P (s.layOutAll ls)
  | [] => holds
  | l :: rest => by
    rw [State.layOutAll]
    exact invariant.layOutAll (invariant.layOut holds coherent opened l)
      (coherent.layOut opened l) (by simpa using opened) rest

end

/-- The outermost scope may be laid out as well if opening it is a step like any other. -/
theorem scope (invariant : Invariant P) (coherent : s.Coherent) (can : s.CanEnter)
    {kind : ScopeKind} {node : Node} {arguments : Option Name} {decls : List Declaration}
    (started : P (s.openWith kind node arguments decls)) (inner : List Layout) :
    P (s.layOut (.scope kind node arguments decls inner)) :=
  invariant.scope_of_inside coherent can (invariant.layOutAll started
    (coherent.openWith can kind node arguments decls) opened_openWith inner)

end Invariant

end State

end ScopeAnalysis.Resolution
