import Mathlib.Logic.Function.Basic
import ScopeAnalysis.Proofs.Coherence
import ScopeAnalysis.Proofs.Relabelling.Course
import ScopeAnalysis.Proofs.Switches

/-!
# Relabelled runs

A relabelling that gives every name one handle, different from those of other names, commutes with
every step of a run: names are only ever compared with each other, and the tables keyed by names are
in the order in which their keys came.
-/

namespace ScopeAnalysis

namespace MultiMap

variable {κ κ' ν : Type} [DecidableEq κ] [DecidableEq κ']

/-- A key that no other key is confused with may be renamed before or after adding a value. -/
theorem insertEntry_map {g : κ → κ'} {key : κ} (value : ν) {entries : List (κ × List ν)}
    (apart : ∀ entry ∈ entries, g entry.1 = g key → entry.1 = key) :
    insertEntry (g key) value (entries.map (fun entry => (g entry.1, entry.2))) =
      (insertEntry key value entries).map (fun entry => (g entry.1, entry.2)) := by
  induction entries with
  | nil => rfl
  | cons entry rest ih =>
    obtain ⟨here, others⟩ := List.forall_mem_cons.1 apart
    rw [List.map_cons, insertEntry, insertEntry]
    by_cases same : entry.1 = key
    · rw [if_pos same, if_pos (congrArg g same)]
      rfl
    · rw [if_neg same, if_neg (fun confused => same (here confused)), ih others]
      rfl

end MultiMap

/-- A name has one handle wherever it stands, and it shares it with no other name. -/
structure Relabelling.Uniform (r : Relabelling) : Prop where
  name : ∀ id, r.name id = r.text id.name
  texts : Function.Injective r.text

theorem Relabelling.Uniform.separates {r : Relabelling} (uniform : r.Uniform)
    (numbers : Function.Injective r.number) : r.Separates where
  names id other := by rw [uniform.name, uniform.name, uniform.texts.eq_iff]
  numbers := numbers

/-- The entries of a table under the new handles of their names. -/
def Relabelling.keys {α : Type} (r : Relabelling) (entries : List (Name × α)) : List (Name × α) :=
  entries.map (fun entry => (r.text entry.1, entry.2))

def Variable.relabel (r : Relabelling) (v : Variable) : Variable :=
  { v with
    name := r.text v.name
    declarations := v.declarations.map (Declaration.relabel r) }

def Reference.relabel (r : Relabelling) (use : Reference) : Reference :=
  { use with id := use.id.relabel r }

def Scope.relabel (r : Relabelling) (scope : Scope) : Scope :=
  { scope with
    node := r.node scope.node
    bindings := r.keys scope.bindings
    through := ⟨r.keys scope.through.entries⟩ }

def ScopeTree.relabel (r : Relabelling) (tree : ScopeTree) : ScopeTree where
  scopes := tree.scopes.map (Scope.relabel r)
  vars := tree.vars.map (Variable.relabel r)
  references := tree.references.map (Reference.relabel r)

def Event.relabel (r : Relabelling) : Event → Event
  | .start isModule node => .start isModule (r.number node)
  | .enterScope scope kind node => .enterScope scope kind (r.number node)
  | .exitScope scope => .exitScope scope
  | .declare name kind scope => .declare (r.text name) kind scope
  | .implicitGlobal name => .implicitGlobal (r.text name)
  | .directEval scope => .directEval scope
  | .withStatement scope => .withStatement scope
  | .complete scopes vars references => .complete scopes vars references

def Analysis.relabel (r : Relabelling) (a : Analysis) : Analysis :=
  ⟨a.tree.relabel r, a.events.map (Event.relabel r)⟩

theorem Relabelling.Uniform.find?_keys {α : Type} {r : Relabelling} (uniform : r.Uniform)
    (entries : List (Name × α)) (name : Name) :
    (r.keys entries).find? (fun entry => entry.1 = r.text name) =
      (entries.find? (fun entry => entry.1 = name)).map
        (fun entry => (r.text entry.1, entry.2)) := by
  rw [Relabelling.keys, List.find?_map]
  simp only [Function.comp_def, uniform.texts.eq_iff]

namespace Resolution

def Sight.relabel (r : Relabelling) (sight : Sight) : Sight :=
  ⟨r.keys sight.entries⟩

namespace Sight

variable {r : Relabelling}

theorem get_relabel (uniform : r.Uniform) (sight : Sight) (name : Name) :
    (sight.relabel r).get (r.text name) = sight.get name := by
  simp only [get, relabel, uniform.find?_keys]
  cases sight.entries.find? (fun entry => entry.1 = name) <;> rfl

theorem relabel_push (uniform : r.Uniform) (sight : Sight) (name : Name) (v : VariableId) :
    (sight.push name v).relabel r = (sight.relabel r).push (r.text name) v := by
  obtain ⟨entries⟩ := sight
  simp only [relabel, push, Sight.mk.injEq, Relabelling.keys]
  induction entries with
  | nil => rfl
  | cons entry rest ih =>
    simp only [List.map_cons, pushEntry, uniform.texts.eq_iff]
    split
    · rfl
    · rw [List.map_cons, ih]

theorem relabel_pop (uniform : r.Uniform) (sight : Sight) (name : Name) :
    (sight.pop name).relabel r = (sight.relabel r).pop (r.text name) := by
  obtain ⟨entries⟩ := sight
  simp only [relabel, pop, Sight.mk.injEq, Relabelling.keys]
  induction entries with
  | nil => rfl
  | cons entry rest ih =>
    simp only [List.map_cons, popEntry, uniform.texts.eq_iff]
    split
    · rfl
    · rw [List.map_cons, ih]

theorem relabel_popAll (uniform : r.Uniform) (sight : Sight) (bindings : List (Name × VariableId)) :
    (bindings.foldl (fun sight entry => sight.pop entry.1) sight).relabel r =
      (r.keys bindings).foldl (fun sight entry => sight.pop entry.1) (sight.relabel r) := by
  induction bindings generalizing sight with
  | nil => rfl
  | cons entry rest ih =>
    rw [List.foldl_cons, ih, relabel_pop uniform]
    rfl

end Sight

theorem map_modify {α β : Type} {g : α → β} {f : α → α} {f' : β → β}
    (same : ∀ a, g (f a) = f' (g a)) (as : Array α) (i : Nat) :
    (as.modify i f).map g = (as.map g).modify i f' := by
  refine Array.ext_getElem? (fun j => ?_)
  simp only [Array.getElem?_map, Array.getElem?_modify]
  split
  · cases as[j]? with
    | none => rfl
    | some a => exact congrArg some (same a)
  · rfl

namespace State

def relabel (r : Relabelling) (s : State) : State where
  scopes := s.scopes.map (Scope.relabel r)
  vars := s.vars.map (Variable.relabel r)
  references := s.references.map (Reference.relabel r)
  openScopes := s.openScopes
  sight := s.sight.relabel r
  strict := s.strict
  events := s.events.map (Event.relabel r)

variable {r : Relabelling} (s : State)

theorem relabel_report (event : Event) :
    (s.report event).relabel r = (s.relabel r).report (event.relabel r) := by
  simp [relabel, report]

theorem relabel_updateScope (id : ScopeId) {f g : Scope → Scope}
    (same : ∀ scope, (f scope).relabel r = g (scope.relabel r)) :
    (s.updateScope id f).relabel r = (s.relabel r).updateScope id g := by
  simp only [relabel, updateScope, map_modify same]

theorem relabel_updateVariable (id : VariableId) {f g : Variable → Variable}
    (same : ∀ v, (f v).relabel r = g (v.relabel r)) :
    (s.updateVariable id f).relabel r = (s.relabel r).updateVariable id g := by
  simp only [relabel, updateVariable, map_modify same]

theorem relabel_noteChild (child : ScopeId) :
    (s.noteChild child).relabel r = (s.relabel r).noteChild child := by
  have stack : (s.relabel r).openScopes = s.openScopes := rfl
  unfold noteChild
  rw [stack]
  cases s.openScopes with
  | nil => rfl
  | cons parent rest => exact s.relabel_updateScope parent (fun _ => rfl)

theorem relabel_enter (kind : ScopeKind) (node : Node) :
    (s.enter kind node).relabel r = (s.relabel r).enter kind (r.node node) := by
  have noted := s.relabel_noteChild (r := r) ⟨s.scopes.size⟩
  have size : (s.relabel r).scopes.size = s.scopes.size := Array.size_map
  simp only [enter, relabel_report, size, ← noted]
  refine congrArg (report · _) ?_
  simp only [relabel, Array.map_push]
  rfl

theorem bindingsOf_relabel (id : ScopeId) :
    (s.relabel r).bindingsOf id = r.keys (s.bindingsOf id) := by
  simp only [bindingsOf, relabel, Array.getElem?_map]
  cases s.scopes[id.index]? <;> rfl

theorem own_relabel (uniform : r.Uniform) (name : Name) (id : ScopeId) :
    (s.relabel r).own (r.text name) id = s.own name id := by
  rw [own, own, bindingsOf_relabel, uniform.find?_keys, Option.map_map]
  rfl

theorem relabel_leave (uniform : r.Uniform) : s.leave.relabel r = (s.relabel r).leave := by
  have stack : (s.relabel r).openScopes = s.openScopes := rfl
  unfold leave
  rw [stack]
  cases s.openScopes with
  | nil => rfl
  | cons id rest =>
    simp only [relabel_report, bindingsOf_relabel]
    refine congrArg (report · _) ?_
    simp only [relabel, Sight.relabel_popAll uniform]

theorem relabel_addVariable (uniform : r.Uniform) (scope : ScopeId) (name : Name)
    (ds : List Declaration) :
    (s.addVariable scope name ds).2.relabel r =
      ((s.relabel r).addVariable scope (r.text name) (ds.map (Declaration.relabel r))).2 := by
  have size : (s.relabel r).vars.size = s.vars.size := Array.size_map
  have bound := relabel_updateScope (r := r)
    { s with vars := s.vars.push ⟨name, scope, ds, []⟩ } scope
    (f := fun sc => { sc with bindings := sc.bindings ++ [(name, ⟨s.vars.size⟩)] })
    (g := fun sc => { sc with bindings := sc.bindings ++ [(r.text name, ⟨s.vars.size⟩)] })
    (fun sc => by simp [Scope.relabel, Relabelling.keys])
  simp only [relabel, Array.map_push, updateScope] at bound
  simp only [addVariable, updateScope, size]
  simp only [relabel, Sight.relabel_push uniform, Array.map_push]
  simp only [State.mk.injEq, and_true] at bound ⊢
  exact ⟨bound, rfl⟩

theorem relabel_declare (uniform : r.Uniform) (d : Declaration) :
    (s.declare d).relabel r = (s.relabel r).declare (d.relabel r) := by
  have named : (d.relabel r).id.name = r.text d.id.name := uniform.name d.id
  have owned := s.own_relabel uniform d.id.name s.current
  rw [← named] at owned
  cases own : s.own d.id.name s.current with
  | some v =>
    rw [declare_of_own own, declare_of_own (owned.trans own), relabel_updateVariable (g := fun a =>
      { a with declarations := a.declarations ++ [d.relabel r] }), relabel_report, named]
    · rfl
    · intro a
      simp [Variable.relabel]
  | none =>
    rw [declare_of_free own, declare_of_free (owned.trans own), relabel_addVariable _ uniform,
      relabel_report, named]
    rfl

theorem relabel_declareAll (uniform : r.Uniform) (ds : List Declaration) :
    (s.declareAll ds).relabel r = (s.relabel r).declareAll (ds.map (Declaration.relabel r)) := by
  induction ds generalizing s with
  | nil => rfl
  | cons d rest ih =>
    have first := ih (s.declare d)
    rw [relabel_declare s uniform] at first
    exact first

theorem relabel_bindArguments (uniform : r.Uniform) (arguments : Name) :
    (s.bindArguments arguments).relabel r = (s.relabel r).bindArguments (r.text arguments) := by
  have owned := s.own_relabel uniform arguments s.current
  cases own : s.own arguments s.current with
  | some v => rw [bindArguments_of_own own, bindArguments_of_own (owned.trans own)]
  | none =>
    rw [bindArguments_of_free own, bindArguments_of_free (owned.trans own),
      relabel_addVariable _ uniform]
    rfl

theorem relabel_openWith (uniform : r.Uniform) (kind : ScopeKind) (node : Node)
    (arguments : Option Name) (decls : List Declaration) :
    (s.openWith kind node arguments decls).relabel r =
      (s.relabel r).openWith kind (r.node node) (arguments.map r.text)
        (decls.map (Declaration.relabel r)) := by
  simp only [openWith, furnish, relabel_declareAll _ uniform]
  cases arguments with
  | none => exact congrArg (declareAll · _) (relabel_enter ..)
  | some name =>
    refine congrArg (declareAll · _) ?_
    exact (relabel_bindArguments _ uniform name).trans
      (congrArg (bindArguments · _) (relabel_enter ..))

/-- A use finds the same variable. -/
theorem resolve_relabel (uniform : r.Uniform) (name : Name) :
    (s.relabel r).resolve (r.text name) = ((s.resolve name).1, (s.resolve name).2.relabel r) := by
  have seen := s.sight.get_relabel uniform name
  cases found : s.sight.get name with
  | cons v rest => rw [resolve_of_seen found, resolve_of_seen (seen.trans found)]
  | nil =>
    have added := (s.report (.implicitGlobal name)).relabel_addVariable uniform ScopeId.root name []
    rw [relabel_report] at added
    rw [resolve_of_unseen found, resolve_of_unseen (seen.trans found), added]
    refine Prod.ext ?_ rfl
    exact congrArg VariableId.mk Array.size_map

theorem relabel_attach (id : Occurrence) (access : Access) (v : VariableId) :
    (s.attach id access v).relabel r = (s.relabel r).attach (id.relabel r) access v := by
  have size : (s.relabel r).references.size = s.references.size := Array.size_map
  have pushed : (State.mk s.scopes s.vars (s.references.push ⟨id, access, v⟩) s.openScopes s.sight
      s.strict s.events).relabel r = { s.relabel r with
        references := (s.relabel r).references.push ⟨id.relabel r, access, v⟩ } := by
    simp only [relabel, Array.map_push]
    rfl
  simp only [attach, size]
  rw [relabel_updateVariable (g := fun var =>
    { var with references := var.references ++ [⟨s.references.size⟩] }), pushed]
  exact fun _ => rfl

theorem ownerOf_relabel (v : VariableId) : (s.relabel r).ownerOf v = s.ownerOf v := by
  simp only [ownerOf, relabel, Array.getElem?_map]
  cases s.vars[v.index]? <;> rfl

theorem inside_relabel (v : VariableId) : (s.relabel r).inside v = s.inside v := by
  simp only [inside, ownerOf_relabel]
  rfl

theorem relabel_passThrough (uniform : r.Uniform) (name : Name) (ref : ReferenceId) (id : ScopeId) :
    (passThrough name ref s id).relabel r = passThrough (r.text name) ref (s.relabel r) id := by
  refine s.relabel_updateScope id (fun scope => ?_)
  have inserted : MultiMap.insertEntry (r.text name) ref
      (scope.through.entries.map (fun entry => (r.text entry.1, entry.2))) =
        (MultiMap.insertEntry name ref scope.through.entries).map
          (fun entry => (r.text entry.1, entry.2)) :=
    MultiMap.insertEntry_map ref (fun _ _ same => uniform.texts same)
  simp only [Scope.relabel, MultiMap.insert, Relabelling.keys, inserted]

theorem relabel_passAll (uniform : r.Uniform) (name : Name) (ref : ReferenceId)
    (ids : List ScopeId) : (ids.foldl (passThrough name ref) s).relabel r =
      ids.foldl (passThrough (r.text name) ref) (s.relabel r) := by
  induction ids generalizing s with
  | nil => rfl
  | cons id rest ih => rw [List.foldl_cons, List.foldl_cons, ih, relabel_passThrough _ uniform]

theorem relabel_record (uniform : r.Uniform) (id : Occurrence) (access : Access) :
    (s.record id access).relabel r = (s.relabel r).record (id.relabel r) access := by
  have named : (id.relabel r).name = r.text id.name := uniform.name id
  have size : ((s.resolve id.name).2.relabel r).references.size =
    (s.resolve id.name).2.references.size := Array.size_map
  rw [record_eq, record_eq, named, resolve_relabel s uniform, relabel_passAll _ uniform,
    relabel_attach, size, ← relabel_attach, inside_relabel]

theorem relabel_makeDynamic : s.makeDynamic.relabel r = (s.relabel r).makeDynamic := by
  rw [makeDynamic, relabel_updateScope (g := fun scope => { scope with dynamic := true }),
    relabel_report]
  · rfl
  · exact fun _ => rfl

mutual

/-- A relabelled layout is laid out like the layout. -/
theorem relabel_layOut (uniform : r.Uniform) (s : State) : ∀ l : Layout,
    (s.layOut l).relabel r = (s.relabel r).layOut (l.relabel r)
  | .use id access => s.relabel_record uniform id access
  | .directEval => s.relabel_makeDynamic
  | .withStatement => s.relabel_report _
  | .scope kind node arguments decls inner => by
    rw [layOut, relabel_leave _ uniform, relabel_layOutAll uniform, relabel_openWith _ uniform]
    rfl

theorem relabel_layOutAll (uniform : r.Uniform) (s : State) : ∀ ls : List Layout,
    (s.layOutAll ls).relabel r = (s.relabel r).layOutAll (Layout.relabelList r ls)
  | [] => rfl
  | l :: rest => by
    rw [layOutAll, relabel_layOutAll uniform (s.layOut l) rest, relabel_layOut uniform s l]
    rfl

end

theorem preorder_relabel (scopes : Array Scope) (steps : Nat) (ids : List ScopeId) :
    preorder (scopes.map (Scope.relabel r)) steps ids =
      (preorder scopes steps ids).map (Scope.relabel r) := by
  induction steps generalizing ids with
  | zero => rfl
  | succ steps ih =>
    cases ids with
    | nil => rfl
    | cons id rest =>
      simp only [preorder, Array.getElem?_map]
      cases scopes[id.index]? with
      | none => exact ih rest
      | some scope => exact congrArg (List.cons _) (ih _)

theorem finish_relabel : (s.relabel r).finish = s.finish.relabel r := by
  simp only [finish, relabel, preorder_relabel, Array.size_map, ScopeTree.relabel,
    List.map_toArray]

end State

theorem Course.analysis_relabel {r : Relabelling} (uniform : r.Uniform) (start : Event)
    (c : Course) : (c.relabel r).analysis (start.relabel r) =
      (c.analysis start).map (Analysis.relabel r) := by
  obtain ⟨parts, outcome⟩ := c
  cases outcome with
  | error refusal => rfl
  | ok _ =>
    have laid := State.relabel_layOutAll uniform (.initial #[start]) parts
    have initial : (State.initial #[start]).relabel r = .initial #[start.relabel r] := by
      simp [State.relabel, State.initial, Sight.relabel, Relabelling.keys, Sight.empty]
    rw [initial] at laid
    simp only [analysis, Course.relabel, ← laid, State.finish_relabel]
    simp [Except.map, Analysis.relabel, State.relabel, ScopeTree.relabel, Event.relabel]

end Resolution

end ScopeAnalysis
