import Mathlib.Logic.Equiv.Basic
import ScopeAnalysis.Proofs.Consistency
import ScopeAnalysis.Proofs.Relabelling.Analysis
import ScopeAnalysis.Proofs.Renaming.Fold

/-!
# Equivariance

Which names the variables of a program have does not matter to its analysis, only which of them are
equal, and which are `arguments` or `eval`.
-/

namespace ScopeAnalysis

open Resolution

/-- Every name gets a new handle, and the nodes keep their numbers. -/
def Relabelling.ofNames (g : Name → Name) : Relabelling := ⟨id, fun id => g id.name, g⟩

theorem Relabelling.uniform_ofNames {g : Name → Name} (injective : Function.Injective g) :
    (ofNames g).Uniform := ⟨fun _ => rfl, injective⟩

/-- If a program has other names for its variables, but no two of them for one name and no name for
two of them, and `arguments` and `eval` stay what they are, then it is refused for the same reason,
or its analysis is the same but for these names. -/
theorem analyze_rename_of_injective {names : Interner} {g : Name → Name}
    (injective : Function.Injective g)
    (arguments : g (SpecialNames.intern names).1.arguments =
      (SpecialNames.intern names).1.arguments)
    (eval : g (SpecialNames.intern names).1.eval = (SpecialNames.intern names).1.eval)
    (options : Options) (p : NumberedProgram) :
    (Program.rename (fun id => g id.name) p).analyze options names =
      ((p.analyze options names).1.map (Analysis.relabel (.ofNames g)),
        (p.analyze options names).2) := by
  have kept : (SpecialNames.intern names).1.KeepsEval (fun id => g id.name) :=
    fun _ => ⟨fun same => injective (same.trans eval.symm),
      fun same => (congrArg g same).trans eval⟩
  have start : Event.start (Program.rename (fun id => g id.name) p).isModule
      (Program.rename (fun id => g id.name) p).node.id =
        (Event.start p.isModule p.node.id).relabel (.ofNames g) := by
    cases p <;> rfl
  obtain ⟨⟨answer, names'⟩, folded⟩ : ∃ result,
      (p.outline (SpecialNames.intern names).1).run (SpecialNames.intern names).2 = result :=
    ⟨_, rfl⟩
  have renamed : ProgramOutline.relabel (.renaming (fun id => g id.name)) =
      ProgramOutline.relabel (.ofNames g) := funext ProgramOutline.relabel_congr
  have folded' : (NumberedProgram.outline (SpecialNames.intern names).1
      (Program.rename (fun id => g id.name) p)).run (SpecialNames.intern names).2 =
        (answer.map (ProgramOutline.relabel (.ofNames g)), names') := by
    rw [NumberedProgram.outline_rename kept p, ExceptT.run_map, renamed]
    exact congrArg (fun r => (r.1.map (ProgramOutline.relabel (.ofNames g)), r.2)) folded
  rw [analyze_snd_of_folded folded]
  exact analyze_of_folded_relabelled (Relabelling.uniform_ofNames injective) Function.injective_id
    folded folded' start arguments.symm options

/-- With `a` and `b` exchanged, the parameter of the first function is `b` and the global that is
used without being declared is `a`. -/
theorem implicitNames_exchanged :
    ∃ a names', implicitNames.1.analyze .default implicitNames.2.names = (.ok a, names') ∧
      (Program.rename (fun id => Equiv.swap ⟨0⟩ ⟨1⟩ id.name) implicitNames.1).analyze .default
        implicitNames.2.names = (.ok (a.relabel (.ofNames (Equiv.swap ⟨0⟩ ⟨1⟩))), names') ∧
      a.tree.vars.toList.map (fun v => v.name.index) = [2, 4, 0, 1, 4, 3, 4] ∧
      (a.tree.relabel (.ofNames (Equiv.swap ⟨0⟩ ⟨1⟩))).vars.toList.map (fun v => v.name.index) =
        [2, 4, 1, 0, 4, 3, 4] := by
  have computed : (implicitNames.1.analyze .default implicitNames.2.names).1.toOption.map (fun a =>
      (a.tree.vars.toList.map (fun v => v.name.index),
        (a.tree.relabel (.ofNames (Equiv.swap ⟨0⟩ ⟨1⟩))).vars.toList.map
          (fun v => v.name.index))) =
        some ([2, 4, 0, 1, 4, 3, 4], [2, 4, 1, 0, 4, 3, 4]) := by
    decide +kernel
  have exchanged :
      (Program.rename (fun id => Equiv.swap ⟨0⟩ ⟨1⟩ id.name) implicitNames.1).analyze .default
        implicitNames.2.names = _ :=
    analyze_rename_of_injective (Equiv.injective _) (by decide +kernel) (by decide +kernel)
      .default implicitNames.1
  generalize implicitNames.1.analyze .default implicitNames.2.names = result at computed exchanged
  obtain ⟨answer, names'⟩ := result
  cases answer with
  | error refusal => cases computed
  | ok a =>
    obtain ⟨before, after⟩ := Prod.mk.inj (Option.some.inj computed)
    exact ⟨a, names', rfl, exchanged, before, after⟩

end ScopeAnalysis
