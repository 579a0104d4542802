import Mathlib.Data.Fintype.EquivFin
import ScopeAnalysis.Proofs.Renaming.Analysis

/-!
# Fresh names

A variable may get a name that occurs nowhere in the program. If its identifiers, and no others, are
given the new name, the program is analyzed as before, and in its tree nothing differs but the name
of that variable. Other variables of its old name may surround it, be inside its scope, or come
about because nothing declares them.
-/

namespace ScopeAnalysis

open Resolution

/-- A name, or another one in place of an old one. -/
def Name.replace (old other name : Name) : Name := if name = old then other else name

/-- A name occurs nowhere in a program if putting another one in its place changes nothing. -/
def NumberedProgram.Lacks (p : NumberedProgram) (name : Name) : Prop :=
  ∀ other, Program.rename (fun id => name.replace other id.name) p = p

theorem Name.replace_self (old other : Name) : old.replace other old = other := if_pos rfl

theorem Name.replace_of_ne {old name : Name} (different : name ≠ old) (other : Name) :
    old.replace other name = name := if_neg different

/-- Names that stay apart from the other one are not confused. -/
theorem Name.eq_of_replace_eq {old other first second : Name} (apart : first ≠ other)
    (apart' : second ≠ other) (same : old.replace other first = old.replace other second) :
    first = second := by
  by_cases here : first = old <;> by_cases here' : second = old
  · exact here.trans here'.symm
  · rw [here, replace_self, replace_of_ne here'] at same
    exact absurd same.symm apart'
  · rw [here', replace_self, replace_of_ne here] at same
    exact absurd same apart
  · rwa [replace_of_ne here, replace_of_ne here'] at same

namespace ScopeTree

/-- The identifiers that declare a variable or use it. -/
def occurrencesOf (tree : ScopeTree) (v : VariableId) : List Occurrence :=
  match tree.variableAt? v with
  | some var =>
    var.declarations.map Declaration.id ++
      var.references.filterMap (fun r => (tree.referenceAt? r).map Reference.id)
  | none => []

/-- A new name for the identifiers of a variable, and their old names for all others. -/
def newName (tree : ScopeTree) (v : VariableId) (z : Name) (id : Occurrence) : Name :=
  if id ∈ tree.occurrencesOf v then z else id.name

/-- Uses pass through scopes under their own names. -/
def PassesByName (tree : ScopeTree) : Prop :=
  ∀ scope ∈ tree.scopes.toList, ∀ pass ∈ scope.through.pairs,
    ∃ use, tree.referenceAt? pass.2 = some use ∧ use.id.name = pass.1

/-- A tree in which one variable has a new name. -/
def renameVariable (tree : ScopeTree) (v : VariableId) (z : Name) : ScopeTree :=
  tree.rename (fun w name => if w = v then z else name)

theorem mem_occurrencesOf_of_declares {tree : ScopeTree} {v : VariableId} {var : Variable}
    (found : tree.variableAt? v = some var) {d : Declaration} (member : d ∈ var.declarations) :
    d.id ∈ tree.occurrencesOf v := by
  rw [occurrencesOf, found]
  exact List.mem_append_left _ (List.mem_map_of_mem member)

end ScopeTree

namespace Resolution.State

variable {s : State} {v : VariableId} {var : Variable}

/-- A use is among the identifiers of the variable that it means. -/
theorem Routed.mem_occurrencesOf (routed : s.Routed) (coherent : s.Coherent)
    (accounted : s.Accounted none) {r : ReferenceId} {use : Reference}
    (found : s.tree.referenceAt? r = some use) : use.id ∈ s.tree.occurrencesOf use.resolved := by
  obtain ⟨var, there, _⟩ := routed.meant coherent found
  have listed := (accounted.mem_references there r).2 ⟨use, found, rfl⟩
  rw [ScopeTree.occurrencesOf, there]
  exact List.mem_append_right _ (List.mem_filterMap.2 ⟨r, listed, by rw [found]; rfl⟩)

/-- The identifiers of a variable have its name. -/
theorem Routed.name_of_mem_occurrencesOf (routed : s.Routed) (coherent : s.Coherent)
    (accounted : s.Accounted none) (found : s.tree.variableAt? v = some var) {id : Occurrence}
    (member : id ∈ s.tree.occurrencesOf v) : id.name = var.name := by
  rw [ScopeTree.occurrencesOf, found] at member
  rcases List.mem_append.1 member with declares | uses
  · obtain ⟨d, inside, rfl⟩ := List.mem_map.1 declares
    exact accounted.declared v.index var found d inside
  · obtain ⟨r, inside, here⟩ := List.mem_filterMap.1 uses
    obtain ⟨use, there, rfl⟩ := Option.map_eq_some_iff.1 here
    obtain ⟨use', there', resolved⟩ := (accounted.mem_references found r).1 inside
    cases there.symm.trans there'
    obtain ⟨var', found', name⟩ := routed.meant coherent there
    rw [resolved, found] at found'
    cases found'
    exact name.symm

/-- Renaming the identifiers of one variable is faithful if no other variable has any of them or the
new name. -/
theorem Routed.faithful_newName (routed : s.Routed) (coherent : s.Coherent)
    (accounted : s.Accounted none) {arguments : Name} (found : s.tree.variableAt? v = some var)
    (ordinary : var.name ≠ arguments) {z : Name}
    (unused : ∀ w other, s.tree.variableAt? w = some other → other.name ≠ z)
    (owned : ∀ w, w ≠ v → ∀ id ∈ s.tree.occurrencesOf v, id ∉ s.tree.occurrencesOf w) :
    s.tree.Faithful (s.tree.newName v z) (fun w name => if w = v then z else name) arguments := by
  have named : ∀ w id, id ∈ s.tree.occurrencesOf w →
      s.tree.newName v z id = if w = v then z else id.name := by
    intro w id member
    rw [ScopeTree.newName]
    by_cases same : w = v
    · rw [if_pos same, if_pos (same ▸ member)]
    · rw [if_neg same, if_neg (fun both => owned w same id both member)]
  refine ⟨fun i w there d member => ?_, fun i use there => ?_, fun i j w w' there there' same => ?_,
    fun i w there name => ?_⟩
  · exact named ⟨i⟩ d.id (ScopeTree.mem_occurrencesOf_of_declares there member)
  · exact named use.resolved use.id (routed.mem_occurrencesOf coherent accounted (r := ⟨i⟩) there)
  · by_cases first : (⟨i⟩ : VariableId) = v <;> by_cases second : (⟨j⟩ : VariableId) = v
    · cases first.trans second.symm
      cases there.symm.trans there'
      rfl
    · rw [if_pos first, if_neg second] at same
      exact absurd same.symm (unused ⟨j⟩ w' there')
    · rw [if_neg first, if_pos second] at same
      exact absurd same (unused ⟨i⟩ w there)
    · rwa [if_neg first, if_neg second] at same
  · have other : (⟨i⟩ : VariableId) ≠ v := by
      rintro rfl
      cases there.symm.trans found
      exact ordinary name
    rw [if_neg other]
    exact name

end Resolution.State

section Analyzed

variable {options : Options} {p : NumberedProgram} {names names' : Interner} {a : Analysis}

theorem exists_notMem_names (taken : List Name) : ∃ name, name ∉ taken := by
  obtain ⟨n, out⟩ := Infinite.exists_notMem_finset (taken.map Name.index).toFinset
  refine ⟨⟨n⟩, fun member => out ?_⟩
  rw [List.mem_toFinset]
  exact List.mem_map_of_mem (f := Name.index) member

/-- No variable has a name that occurs nowhere in the program, other than `arguments`. -/
theorem name_ne_of_lacks (off : options.annexB = false)
    (analyzed : p.analyze options names = (.ok a, names')) {z : Name} (lacks : p.Lacks z)
    (notEval : z ≠ (SpecialNames.intern names).1.eval)
    (notArguments : z ≠ (SpecialNames.intern names).1.arguments) {v : VariableId} {var : Variable}
    (found : a.tree.variableAt? v = some var) : var.name ≠ z := by
  obtain ⟨other, free⟩ := exists_notMem_names
    ((SpecialNames.intern names).1.eval :: a.tree.vars.toList.map Variable.name)
  rw [List.mem_cons, not_or] at free
  have untaken {i : Nat} {w : Variable} (there : a.tree.vars[i]? = some w) : w.name ≠ other := by
    have listed := List.mem_of_getElem? ((Array.getElem?_toList ..).trans there)
    exact fun taken => free.2 (taken ▸ List.mem_map_of_mem listed)
  have kept : (SpecialNames.intern names).1.KeepsEval (fun id => z.replace other id.name) := by
    intro id
    change z.replace other id.name = _ ↔ _
    by_cases here : id.name = z
    · rw [here, Name.replace_self]
      exact iff_of_false free.1 notEval
    · rw [Name.replace_of_ne here]
  have faithful : a.tree.Faithful (fun id => z.replace other id.name) (fun _ => z.replace other)
      (SpecialNames.intern names).1.arguments := by
    refine ⟨fun _ _ _ _ _ => rfl, fun _ _ _ => rfl, fun _ _ _ _ there there' => ?_,
      fun _ _ _ name => ?_⟩
    · exact Name.eq_of_replace_eq (untaken there) (untaken there')
    · rw [name, Name.replace_of_ne notArguments.symm]
  obtain ⟨a', again, tree⟩ := exists_analysis_of_faithful analyzed kept
    (fun on => absurd (off.symm.trans on) Bool.false_ne_true) faithful
  rw [lacks, analyzed] at again
  cases again
  have renamed : a.tree.vars[v.index]? = (a.tree.vars[v.index]?).map
      (Variable.rename (z.replace other)) := by
    have vars := congrArg (fun tree => tree.vars[v.index]?) tree
    exact vars.trans Array.getElem?_mapIdx
  rw [ScopeTree.variableAt?] at found
  rw [found] at renamed
  have same : var.name = z.replace other var.name :=
    congrArg Variable.name (Option.some.inj renamed)
  intro here
  rw [here, Name.replace_self] at same
  exact untaken found (here.trans same)

theorem passesByName_of_analyze (analyzed : p.analyze options names = (.ok a, names')) :
    a.tree.PassesByName := by
  obtain ⟨s, tree, _, routed, _⟩ := exists_state_of_analyze analyzed
  rw [tree]
  intro scope member pass inside
  obtain ⟨i, found⟩ := List.mem_iff_getElem?.1 member
  rw [Array.getElem?_toList] at found
  have placed : s.tree.scopeAt? ⟨i⟩ = some scope := found
  obtain ⟨use, there, name, _⟩ := routed.finds_of_mem_pairs placed inside
  exact ⟨use, there, name⟩

/-- Giving one variable a name that occurs nowhere in the program changes nothing but its name, in
its declarations and uses and where these pass through scopes. -/
theorem analyze_freshName (off : options.annexB = false)
    (analyzed : p.analyze options names = (.ok a, names')) {v : VariableId} {var : Variable}
    (found : a.tree.variableAt? v = some var)
    (notEval : var.name ≠ (SpecialNames.intern names).1.eval)
    (notArguments : var.name ≠ (SpecialNames.intern names).1.arguments) {z : Name}
    (notEval' : z ≠ (SpecialNames.intern names).1.eval)
    (notArguments' : z ≠ (SpecialNames.intern names).1.arguments) (lacks : p.Lacks z)
    (owned : ∀ w, w ≠ v → ∀ id ∈ a.tree.occurrencesOf v, id ∉ a.tree.occurrencesOf w) :
    ∃ a', (Program.rename (a.tree.newName v z) p).analyze options names = (.ok a', names') ∧
      a'.tree = a.tree.renameVariable v z ∧ a'.tree.PassesByName := by
  obtain ⟨s, tree, coherent, routed, accounted⟩ := exists_state_of_analyze analyzed
  have unused : ∀ w other, a.tree.variableAt? w = some other → other.name ≠ z :=
    fun w other there => name_ne_of_lacks off analyzed lacks notEval' notArguments' there
  have kept : (SpecialNames.intern names).1.KeepsEval (a.tree.newName v z) := by
    intro id
    rw [ScopeTree.newName]
    by_cases here : id ∈ a.tree.occurrencesOf v
    · rw [if_pos here]
      rw [tree] at here found
      rw [routed.name_of_mem_occurrencesOf coherent accounted found here]
      exact iff_of_false notEval' notEval
    · rw [if_neg here]
  have faithful : a.tree.Faithful (a.tree.newName v z) (fun w name => if w = v then z else name)
      (SpecialNames.intern names).1.arguments := by
    rw [tree] at found unused owned ⊢
    exact routed.faithful_newName coherent accounted found notArguments unused owned
  obtain ⟨a', analyzed', renamed⟩ := exists_analysis_of_faithful analyzed kept
    (fun on => absurd (off.symm.trans on) Bool.false_ne_true) faithful
  exact ⟨a', analyzed', renamed, passesByName_of_analyze analyzed'⟩

end Analyzed

/-- `let x; { let x; x; } () => x;` -/
def shadowedLet : NumberedProgram :=
  let node (n : Nat) : Node := ⟨⟨n⟩, .none⟩
  let x (n : Nat) : Occurrence := ⟨node n, ⟨0⟩⟩
  let letX (n : Nat) : Stmt Node Name :=
    .decl (node (n + 2)) (node (n + 1)) .let_ [.mk (node (n + 1)) .nameFirst (.ident (x n)) none]
  .script (node 14) []
    [letX 0, .block (node 8) [letX 3, .expr (node 7) (.ident (x 6))],
      .expr (node 13) (.arrow (.mk (node 12) none .none (.mk (some (node 9)) [] none)
        (.concise (.ident (x 10)))))]

def shadowedLetNames : Interner := ⟨["x", "z"], by decide⟩

/-- The outer `x` becomes `z`, and with it the use in the arrow. -/
theorem shadowedLet_freshName :
    ∃ a a' names', shadowedLet.analyze ⟨false, false⟩ shadowedLetNames = (.ok a, names') ∧
      (Program.rename (a.tree.newName ⟨0⟩ ⟨1⟩) shadowedLet).analyze ⟨false, false⟩
        shadowedLetNames = (.ok a', names') ∧
      (a.tree.renameVariable ⟨0⟩ ⟨1⟩).vars.toList.map Variable.name = [⟨1⟩, ⟨0⟩] ∧
      (a.tree.renameVariable ⟨0⟩ ⟨1⟩).scopes.toList.map (fun scope => scope.through.keys) =
        [[], [], [], [⟨1⟩]] ∧
      a'.tree = a.tree.renameVariable ⟨0⟩ ⟨1⟩ ∧ a'.tree.PassesByName := by
  have completed : (shadowedLet.analyze ⟨false, false⟩ shadowedLetNames).1.isOk = true := by
    decide +kernel
  have computed : (shadowedLet.analyze ⟨false, false⟩ shadowedLetNames).1.toOption.map (fun a =>
      ((a.tree.variableAt? ⟨0⟩).map Variable.name,
        decide (∀ i < a.tree.vars.size, i ≠ 0 →
          ∀ id ∈ a.tree.occurrencesOf ⟨0⟩, id ∉ a.tree.occurrencesOf ⟨i⟩),
        (a.tree.renameVariable ⟨0⟩ ⟨1⟩).vars.toList.map Variable.name,
        (a.tree.renameVariable ⟨0⟩ ⟨1⟩).scopes.toList.map (fun scope => scope.through.keys))) =
      some (some ⟨0⟩, true, [⟨1⟩, ⟨0⟩], [[], [], [], [⟨1⟩]]) := by
    decide +kernel
  obtain ⟨a, names', analyzed⟩ := exists_of_isOk completed
  rw [analyzed] at computed
  simp only [Except.toOption, Option.map_some, Option.some.injEq, Prod.mk.injEq,
    decide_eq_true_eq] at computed
  obtain ⟨named, owned, vars, keys⟩ := computed
  obtain ⟨var, found, name⟩ := Option.map_eq_some_iff.1 named
  have eval : (SpecialNames.intern shadowedLetNames).1.eval = ⟨3⟩ := by decide +kernel
  have arguments : (SpecialNames.intern shadowedLetNames).1.arguments = ⟨2⟩ := by decide +kernel
  obtain ⟨a', analyzed', tree⟩ := analyze_freshName rfl analyzed found
    (by rw [name, eval]; decide) (by rw [name, arguments]; decide) (z := ⟨1⟩)
    (by rw [eval]; decide) (by rw [arguments]; decide) (fun _ => rfl) (fun w other id inside => by
      by_cases there : w.index < a.tree.vars.size
      · exact owned w.index there (fun same => other (congrArg VariableId.mk same)) id inside
      · rw [ScopeTree.occurrencesOf, ScopeTree.variableAt?, Array.getElem?_eq_none (by omega)]
        exact List.not_mem_nil)
  exact ⟨a, a', names', analyzed, analyzed', vars, keys, tree⟩

end ScopeAnalysis
