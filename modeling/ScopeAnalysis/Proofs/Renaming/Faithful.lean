import ScopeAnalysis.Proofs.Preorder
import ScopeAnalysis.Proofs.Renaming.Course

/-!
# Faithful renamings

A renaming of identifiers is faithful to a tree if it renames every variable as a whole: all its
declarations and uses get its new name, and no two variables of different names get the same one.
A walk goes through states that only gain variables, declarations and uses, so what is faithful to
the tree at its end is faithful to every state on the way.
-/

namespace ScopeAnalysis

/-- A variable whose name and declarations are renamed. -/
def Variable.rename (new : Name → Name) (v : Variable) : Variable :=
  { v with
    name := new v.name
    declarations := v.declarations.map (Declaration.rename (fun id => new id.name)) }

/-- A use under the new name of its variable. -/
def Reference.rename (new : VariableId → Name → Name) (use : Reference) : Reference :=
  { use with id := use.id.rename (fun id => new use.resolved id.name) }

/-- What a scope binds, under new names. -/
def renameBindings (new : VariableId → Name → Name) (bindings : List (Name × VariableId)) :
    List (Name × VariableId) :=
  bindings.map (fun entry => (new entry.2 entry.1, entry.2))

namespace Resolution.State

/-- What is there stays, but variables may gain declarations. -/
structure Widens (s t : State) : Prop where
  vars : ∀ (i : Nat) (v : Variable), s.vars[i]? = some v →
    ∃ w, t.vars[i]? = some w ∧ w.name = v.name ∧ v.declarations ⊆ w.declarations
  references : ∀ (i : Nat) (r : Reference), s.references[i]? = some r → t.references[i]? = some r

namespace Widens

variable {s t u : State}

theorem refl (s : State) : Widens s s where
  vars _ v found := ⟨v, found, rfl, List.Subset.refl _⟩
  references _ _ found := found

theorem trans (first : Widens s t) (second : Widens t u) : Widens s u where
  vars i v found := by
    obtain ⟨w, foundW, name, more⟩ := first.vars i v found
    obtain ⟨x, foundX, name', more'⟩ := second.vars i w foundW
    exact ⟨x, foundX, name'.trans name, List.Subset.trans more more'⟩
  references i r found := second.references i r (first.references i r found)

theorem report (s : State) (event : Event) : Widens s (s.report event) where
  vars _ v found := ⟨v, found, rfl, List.Subset.refl _⟩
  references _ _ found := found

theorem addVariable (s : State) (scope : ScopeId) (name : Name) (ds : List Declaration) :
    Widens s (s.addVariable scope name ds).2 where
  vars _ v found := ⟨v, vars_addVariable_of_some found scope name ds, rfl, List.Subset.refl _⟩
  references _ _ found := found

theorem bindArguments (s : State) (arguments : Name) : Widens s (s.bindArguments arguments) := by
  unfold State.bindArguments
  split
  · exact refl s
  · exact addVariable s s.current arguments []

theorem declare (s : State) (d : Declaration) : Widens s (s.declare d) := by
  simp only [State.declare]
  split
  next w _ =>
    refine ⟨fun i v found => ?_, fun _ _ found => found⟩
    have there : (s.report (.declare d.id.name d.kind s.current)).vars[i]? = some v := found
    rw [getElem?_updateVariable, there]
    split
    · exact ⟨_, rfl, rfl, List.subset_append_left ..⟩
    · exact ⟨v, rfl, rfl, List.Subset.refl _⟩
  next => exact (report s _).trans (addVariable _ _ _ _)

theorem declareAll (s : State) (ds : List Declaration) : Widens s (s.declareAll ds) := by
  induction ds generalizing s with
  | nil => exact refl s
  | cons d rest ih => exact (declare s d).trans (ih (s.declare d))

end Widens

theorem Grows.widens {s t : State} (grows : Grows s t) : Widens s t where
  vars i v found := by
    obtain ⟨w, there, name, _, declarations⟩ := grows.vars i v found
    exact ⟨w, there, name, declarations ▸ List.Subset.refl _⟩
  references := grows.references

end Resolution.State

/-- Identifiers get the new names of the variables they declare or mean, and variables have the same
new name only if they had the same name. The name of `arguments` stays. -/
structure ScopeTree.Faithful (f : Occurrence → Name) (new : VariableId → Name → Name)
    (arguments : Name) (tree : ScopeTree) : Prop where
  declared : ∀ (i : Nat) (v : Variable), tree.vars[i]? = some v →
    ∀ d ∈ v.declarations, f d.id = new ⟨i⟩ d.id.name
  used : ∀ (i : Nat) (use : Reference), tree.references[i]? = some use →
    f use.id = new use.resolved use.id.name
  apart : ∀ (i j : Nat) (v w : Variable), tree.vars[i]? = some v → tree.vars[j]? = some w →
    new ⟨i⟩ v.name = new ⟨j⟩ w.name → v.name = w.name
  arguments : ∀ (i : Nat) (v : Variable), tree.vars[i]? = some v → v.name = arguments →
    new ⟨i⟩ v.name = arguments

/-- What is faithful to a state is faithful to the states before. -/
theorem ScopeTree.Faithful.of_widens {f : Occurrence → Name} {new : VariableId → Name → Name}
    {arguments : Name} {s t : Resolution.State} (faithful : t.tree.Faithful f new arguments)
    (widens : s.Widens t) : s.tree.Faithful f new arguments where
  declared i v found d member := by
    obtain ⟨w, there, _, more⟩ := widens.vars i v found
    exact faithful.declared i w there d (more member)
  used i use found := faithful.used i use (widens.references i use found)
  apart i j v w found found' same := by
    obtain ⟨v', there, name, _⟩ := widens.vars i v found
    obtain ⟨w', there', name', _⟩ := widens.vars j w found'
    rw [← name, ← name'] at same ⊢
    exact faithful.apart i j v' w' there there' same
  arguments i v found named := by
    obtain ⟨w, there, name, _⟩ := widens.vars i v found
    rw [← name] at named ⊢
    exact faithful.arguments i w there named

end ScopeAnalysis
