import ScopeAnalysis.Proofs.Alike
import ScopeAnalysis.Proofs.DraftBuilds
import ScopeAnalysis.Proofs.Relabelling.Analysis

/-!
# Names of a table

A program is analyzed with a table that its names belong to, as those of a program do that was built
with it, in whatever order. The tree then has only names of the table, too: nothing changes when
other handles are sent elsewhere, neither in the program nor, for that reason, in the tree.
-/

namespace ScopeAnalysis

/-- All names in a program belong to a table. -/
def NumberedProgram.IsNamedIn (p : NumberedProgram) (names : Interner) : Prop :=
  ∃ q : Program Node {name : Name // ∃ text, names.text? name = some text},
    q.map (.plain id Subtype.val) = p

/-- The names of variables and of uses that pass through scopes have texts. -/
structure ScopeTree.IsNamedIn (tree : ScopeTree) (names : Interner) : Prop where
  vars : ∀ v ∈ tree.vars.toList, ∃ text, names.text? v.name = some text
  through : ∀ scope ∈ tree.scopes.toList, ∀ entry ∈ scope.through.entries,
    ∃ text, names.text? entry.1 = some text

theorem ScopeTree.IsNamedIn.of_begins {tree : ScopeTree} {names later : Interner}
    (named : tree.IsNamedIn names) (begins : names.Begins later) : tree.IsNamedIn later where
  vars v member := (named.vars v member).imp (fun _ known => begins.text? known)
  through scope member entry inside :=
    (named.through scope member entry inside).imp (fun _ known => begins.text? known)

theorem NumberedProgram.IsNamedIn.of_begins {p : NumberedProgram} {names later : Interner}
    (named : p.IsNamedIn names) (begins : names.Begins later) : p.IsNamedIn later := by
  obtain ⟨q, rfl⟩ := named
  let keep (name : {name : Name // ∃ text, names.text? name = some text}) :
      {name : Name // ∃ text, later.text? name = some text} :=
    ⟨name.1, name.2.imp (fun _ known => begins.text? known)⟩
  refine ⟨q.map (.plain id keep), ?_⟩
  rw [← Program.map_comp]
  rfl

/-- In whatever order a program is built, its names belong to the table that is filled meanwhile. -/
theorem Build.isNamedIn_number (b : Build) (bench : Workbench) :
    (b.number bench).1.IsNamedIn (b.number bench).2.names := by
  have known (text : {text // text ∈ Call.texts b.calls}) :
      (bench.after b.calls).names.text? ((bench.after b.calls).names.intern text.1).1 =
        some text.1 := by
    have there : text.1 ∈ (bench.after b.calls).names.texts := by
      rw [Workbench.names_after]
      exact Interner.mem_texts_internAll.2 (.inr text.2)
    have found := Interner.text?_of_find? (Interner.find?_intern (bench.after b.calls).names text.1)
    rwa [Interner.intern_snd_of_mem there] at found
  let name (text : {text // text ∈ Call.texts b.calls}) :
      {name : Name // ∃ text, (b.number bench).2.names.text? name = some text} :=
    ⟨((bench.after b.calls).names.intern text.1).1, text.1, known text⟩
  refine ⟨b.tree.map (.plain (b.node bench.next) name), ?_⟩
  rw [← Program.map_comp]
  rfl

theorem Draft.isNamedIn_number (draft : Draft) (bench : Workbench) :
    (draft.number bench).1.IsNamedIn (draft.number bench).2.names := by
  obtain ⟨b, _, _, number⟩ := draft.exists_build
  rw [number]
  exact b.isNamedIn_number bench

namespace Comparison

/-- A table compared with itself, where all numbers have been handed out. -/
def own (names : Interner) : Comparison := ⟨names, names, 0, 2 ^ 32⟩

variable {names : Interner} (choice : (own names).Choice)

theorem own_text {name : Name} {text : String} (known : names.text? name = some text) :
    ((own names).relabelling choice).text name = name :=
  Interner.carry_of_counterpart? _ (Interner.counterpart?_eq_some.2
    ⟨text, Interner.find?_of_text? known, Interner.find?_of_text? known⟩)

theorem own_node (node : Node) : ((own names).relabelling choice).node node = node := by
  have kept := choice.fixes node.id node.id.bits.isLt
  have number : ((own names).relabelling choice).number node.id = node.id := by
    simp [relabelling, kept, own]
  simp [Relabelling.node, number]

/-- Where only unknown names go elsewhere, a program stays what it is. -/
theorem own_program {p : NumberedProgram} (named : p.IsNamedIn names) :
    Program.relabel ((own names).relabelling choice) p = p := by
  obtain ⟨q, rfl⟩ := named
  have nodes : ((own names).relabelling choice).node = id := funext (own_node choice)
  have idents := ((own names).uniform_relabelling choice).name
  have texts (name : {name : Name // ∃ text, names.text? name = some text}) :
      ((own names).relabelling choice).text name.1 = name.1 := by
    obtain ⟨text, known⟩ := name.2
    exact own_text choice known
  rw [Program.relabel, ← Program.map_comp]
  refine congrArg (Program.map · q) ?_
  simp only [Mapping.plain, Mapping.comp, Mapping.ident, Relabelling.mapping, nodes, idents, texts]
  rfl

end Comparison

theorem map_eq_self_iff {α : Type} {f : α → α} {as : List α} :
    as.map f = as ↔ ∀ a ∈ as, f a = a := by
  have unchanged := List.map_inj_left (l := as) (f := f) (g := id)
  rwa [List.map_id] at unchanged

/-- A tree that stays what it is wherever unknown names go has none of them. -/
theorem ScopeTree.isNamedIn_of_relabel {tree : ScopeTree} {names : Interner}
    (same : ∀ choice, tree.relabel ((Comparison.own names).relabelling choice) = tree) :
    tree.IsNamedIn names := by
  have known {name : Name}
      (fixed : ∀ choice, ((Comparison.own names).relabelling choice).text name = name) :
      ∃ text, names.text? name = some text := by
    obtain ⟨text, known, _⟩ :=
      Comparison.name_alike (fun choice => (fixed choice).trans (fixed (.near _)).symm)
    exact ⟨text, known⟩
  have vars := fun choice => congrArg (fun tree => tree.vars.toList) (same choice)
  have scopes := fun choice => congrArg (fun tree => tree.scopes.toList) (same choice)
  simp only [ScopeTree.relabel, Array.toList_map, map_eq_self_iff] at vars scopes
  refine ⟨fun v member => known (fun choice => ?_), fun scope member entry inside =>
    known (fun choice => ?_)⟩
  · exact congrArg Variable.name (vars choice v member)
  · have entries := congrArg (fun s => s.through.entries) (scopes choice scope member)
    exact congrArg Prod.fst (map_eq_self_iff.1 entries entry inside)

/-- The tree of a program whose names belong to the table has no other names than those of the
table. -/
theorem NumberedProgram.IsNamedIn.tree {p : NumberedProgram} {names names' : Interner}
    (named : p.IsNamedIn names) {options : Options} {a : Analysis}
    (analyzed : p.analyze options names = (.ok a, names')) : a.tree.IsNamedIn names' := by
  obtain ⟨texts, elsewhere⟩ := analyze_elsewhere p names
  obtain ⟨interned, alike⟩ := elsewhere options
  rw [analyzed] at interned alike
  subst interned
  refine ScopeTree.isNamedIn_of_relabel (fun choice => ?_)
  have later := named.of_begins (.internAll names texts)
  have again : NumberedProgram.analyze options
      (Program.relabel ((Comparison.own _).relabelling choice) p) names = _ :=
    alike _ _ names _ _ (Comparison.uniform_relabelling _ choice)
      (Comparison.number_injective _ choice) (.refl _) (.refl _) (Comparison.carries _ choice)
  rw [Comparison.own_program choice later, analyzed] at again
  exact (congrArg Analysis.tree (Except.ok.inj (congrArg Prod.fst again))).symm

end ScopeAnalysis
