import ScopeAnalysis.Event

/-!
# The state of a walk

While a program is walked, the scopes, variables and references found so far are kept together with
the scopes that are open and, for each name, the variables that are in sight under it. Opening a
scope and declaring a name puts a variable in front; closing the scope takes it away and uncovers
what the name meant outside.
-/

namespace ScopeAnalysis.Resolution

/-- For each name the variables in sight, the innermost first. -/
structure Sight where
  entries : List (Name × List VariableId)
  deriving DecidableEq, Repr

namespace Sight

def empty : Sight := ⟨[]⟩

/-- The variables in sight under a name, the innermost first. -/
def get (sight : Sight) (name : Name) : List VariableId :=
  match sight.entries.find? (fun entry => entry.1 = name) with
  | some entry => entry.2
  | none => []

def pushEntry (name : Name) (v : VariableId) :
    List (Name × List VariableId) → List (Name × List VariableId)
  | [] => [(name, [v])]
  | (other, stack) :: rest =>
    if other = name then (other, v :: stack) :: rest else (other, stack) :: pushEntry name v rest

/-- Puts a variable in front of those in sight under its name. -/
def push (sight : Sight) (name : Name) (v : VariableId) : Sight :=
  ⟨pushEntry name v sight.entries⟩

def popEntry (name : Name) : List (Name × List VariableId) → List (Name × List VariableId)
  | [] => []
  | (other, stack) :: rest =>
    if other = name then (other, stack.tail) :: rest else (other, stack) :: popEntry name rest

/-- Takes the innermost variable of a name out of sight. -/
def pop (sight : Sight) (name : Name) : Sight := ⟨popEntry name sight.entries⟩

@[simp]
theorem get_empty (name : Name) : empty.get name = [] := rfl

@[simp]
theorem get_push_self (sight : Sight) (name : Name) (v : VariableId) :
    (sight.push name v).get name = v :: sight.get name := by
  obtain ⟨entries⟩ := sight
  simp only [get, push]
  induction entries with
  | nil => simp [pushEntry]
  | cons entry rest ih =>
    obtain ⟨other, stack⟩ := entry
    by_cases h : other = name
    · simp [pushEntry, h]
    · simpa [pushEntry, h] using ih

theorem get_push_of_ne (sight : Sight) {name other : Name} (v : VariableId)
    (distinct : other ≠ name) : (sight.push name v).get other = sight.get other := by
  obtain ⟨entries⟩ := sight
  simp only [get, push]
  induction entries with
  | nil => simp [pushEntry, distinct.symm]
  | cons entry rest ih =>
    obtain ⟨first, stack⟩ := entry
    by_cases h : first = name
    · simp [pushEntry, h, distinct.symm]
    · by_cases h' : first = other
      · simp [pushEntry, h', distinct]
      · simpa [pushEntry, h, h'] using ih

@[simp]
theorem get_pop_self (sight : Sight) (name : Name) :
    (sight.pop name).get name = (sight.get name).tail := by
  obtain ⟨entries⟩ := sight
  simp only [get, pop]
  induction entries with
  | nil => simp [popEntry]
  | cons entry rest ih =>
    obtain ⟨other, stack⟩ := entry
    by_cases h : other = name
    · simp [popEntry, h]
    · simpa [popEntry, h] using ih

theorem get_pop_of_ne (sight : Sight) {name other : Name} (distinct : other ≠ name) :
    (sight.pop name).get other = sight.get other := by
  obtain ⟨entries⟩ := sight
  simp only [get, pop]
  induction entries with
  | nil => simp [popEntry]
  | cons entry rest ih =>
    obtain ⟨first, stack⟩ := entry
    by_cases h : first = name
    · simp [popEntry, h, distinct.symm]
    · by_cases h' : first = other
      · simp [popEntry, h', distinct]
      · simpa [popEntry, h, h'] using ih

end Sight

structure State where
  /-- The scopes opened so far, each at the position of its identity. -/
  scopes : Array Scope
  vars : Array Variable
  references : Array Reference
  /-- The open scopes, the innermost first. -/
  openScopes : List ScopeId
  sight : Sight
  strict : Bool
  events : Array Event

namespace State

/-- Nothing opened and nothing found, with some events already reported. -/
def initial (events : Array Event) : State := ⟨#[], #[], #[], [], .empty, false, events⟩

def report (s : State) (event : Event) : State := { s with events := s.events.push event }

def current (s : State) : ScopeId := s.openScopes.headD ScopeId.root

def updateScope (s : State) (id : ScopeId) (f : Scope → Scope) : State :=
  { s with scopes := s.scopes.modify id.index f }

def updateVariable (s : State) (id : VariableId) (f : Variable → Variable) : State :=
  { s with vars := s.vars.modify id.index f }

/-- The scope around the next one, with the next one noted as its child. -/
def noteChild (s : State) (child : ScopeId) : State :=
  match s.openScopes with
  | [] => s
  | parent :: _ => s.updateScope parent (fun p => { p with children := p.children ++ [child] })

/-- Opens a scope inside the innermost one. -/
def enter (s : State) (kind : ScopeKind) (node : Node) : State :=
  let id : ScopeId := ⟨s.scopes.size⟩
  let scope : Scope :=
    { id, kind, node, parent := s.openScopes.head?, children := [], bindings := [],
      dynamic := kind.isDynamic, through := .empty }
  let s := s.noteChild id
  let s := { s with scopes := s.scopes.push scope, openScopes := id :: s.openScopes }
  s.report (.enterScope id kind node.id)

/-- The names that a scope binds so far. -/
def bindingsOf (s : State) (id : ScopeId) : List (Name × VariableId) :=
  match s.scopes[id.index]? with
  | some scope => scope.bindings
  | none => []

/-- Closes the innermost scope and uncovers the names it bound. -/
def leave (s : State) : State :=
  match s.openScopes with
  | [] => s
  | id :: rest =>
    let sight := (s.bindingsOf id).foldl (fun sight entry => sight.pop entry.1) s.sight
    { s with openScopes := rest, sight }.report (.exitScope id)

/-- Closes every scope that is still open. -/
def leaveAll (s : State) : State :=
  s.openScopes.foldl (fun s _ => s.leave) s

/-- Adds a variable to a scope and puts it in sight. -/
def addVariable (s : State) (scope : ScopeId) (name : Name) (declarations : List Declaration) :
    VariableId × State :=
  let id : VariableId := ⟨s.vars.size⟩
  let s := { s with vars := s.vars.push ⟨name, scope, declarations, []⟩ }
  let s := s.updateScope scope (fun sc => { sc with bindings := sc.bindings ++ [(name, id)] })
  (id, { s with sight := s.sight.push name id })

/-- The variable of a name in the innermost scope itself. -/
def ownVariable? (s : State) (name : Name) : Option VariableId :=
  match s.scopes[s.current.index]? with
  | some scope => scope.find? name
  | none => none

/-- Declares a name in the innermost scope. A variable of that name which the scope has already
gains a declaration. -/
def declare (s : State) (d : Declaration) : State :=
  let scope := s.current
  let s := s.report (.declare d.id.name d.kind scope)
  match s.ownVariable? d.id.name with
  | some v => s.updateVariable v (fun v => { v with declarations := v.declarations ++ [d] })
  | none => (s.addVariable scope d.id.name [d]).2

def declareAll (s : State) (ds : List Declaration) : State := ds.foldl declare s

/-- Gives the innermost scope an `arguments` variable, which is declared nowhere. -/
def bindArguments (s : State) (arguments : Name) : State :=
  match s.ownVariable? arguments with
  | some _ => s
  | none => (s.addVariable s.current arguments []).2

/-- A variable of the root for a name that is used without being declared. -/
def implicitGlobal (s : State) (name : Name) : VariableId × State :=
  (s.report (.implicitGlobal name)).addVariable ScopeId.root name []

/-- The innermost variable in sight under a name, or a new implicit global. -/
def resolve (s : State) (name : Name) : VariableId × State :=
  match s.sight.get name with
  | v :: _ => (v, s)
  | [] => s.implicitGlobal name

/-- Records that a use passes through a scope. -/
def passThrough (name : Name) (r : ReferenceId) (s : State) (id : ScopeId) : State :=
  s.updateScope id (fun scope => { scope with through := scope.through.insert name r })

/-- The scope that owns a variable. -/
def ownerOf (s : State) (v : VariableId) : ScopeId :=
  match s.vars[v.index]? with
  | some found => found.scope
  | none => ScopeId.root

/-- Records a use of a name as it is in sight now. The use passes through every open scope inside
the one that owns its variable. -/
def record (s : State) (id : Occurrence) (access : Access) : State :=
  let (v, s) := s.resolve id.name
  let r : ReferenceId := ⟨s.references.size⟩
  let s := { s with references := s.references.push ⟨id, access, v⟩ }
  let s := s.updateVariable v (fun v => { v with references := v.references ++ [r] })
  let inside := s.openScopes.takeWhile (fun scope => scope ≠ s.ownerOf v)
  inside.foldl (passThrough id.name r) s

def recordAll (s : State) (access : Access) (ids : List Occurrence) : State :=
  ids.foldl (fun s id => s.record id access) s

/-- Marks the innermost scope as dynamic because of a direct call of `eval`. -/
def makeDynamic (s : State) : State :=
  let id := s.current
  (s.report (.directEval id)).updateScope id (fun scope => { scope with dynamic := true })

end State

end ScopeAnalysis.Resolution
