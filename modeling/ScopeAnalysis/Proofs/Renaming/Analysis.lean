import ScopeAnalysis.Proofs.Renaming.Fold
import ScopeAnalysis.Proofs.Renaming.Tree
import ScopeAnalysis.Proofs.Switches

/-!
# Analyses of renamed programs

If a program is analyzed and a renaming of its identifiers is faithful to the tree, then the renamed
program is analyzed as well, and its tree is the renamed tree.
-/

namespace ScopeAnalysis

open Resolution

variable {options : Options} {p : NumberedProgram} {names names' : Interner} {a : Analysis}
  {f : Occurrence → Name} {new : VariableId → Name → Name}

/-- Folding a renamed program succeeds like folding the program, with the same names interned. -/
theorem outline_rename_run {outline : ProgramOutline} {special : SpecialNames}
    (kept : special.KeepsEval f)
    (folded : (p.outline special).run names = (.ok outline, names')) :
    (NumberedProgram.outline special (Program.rename f p)).run names =
      (.ok (outline.relabel (.renaming f)), names') := by
  rw [NumberedProgram.outline_rename kept p, ExceptT.run_map]
  exact congrArg (fun r => (r.1.map (ProgramOutline.relabel (.renaming f)), r.2)) folded

/-- The tree of a program under a faithful renaming is the renamed tree. -/
theorem exists_analysis_of_faithful (analyzed : p.analyze options names = (.ok a, names'))
    (kept : (SpecialNames.intern names).1.KeepsEval f)
    (separate : options.annexB = true → Separates f)
    (faithful : a.tree.Faithful f new (SpecialNames.intern names).1.arguments) :
    ∃ a', (Program.rename f p).analyze options names = (.ok a', names') ∧
      a'.tree = a.tree.rename new := by
  obtain ⟨outline, decls, inner, folded, completed, tree⟩ := analyze_layOut analyzed
  have named := (agrees_of_folded folded completed).named
  rw [Layout.argumentNamesAll, Layout.argumentNamesAll, List.append_nil] at named
  have folded' := outline_rename_run kept folded
  have completed' : (Course.ofProgram ⟨options, (SpecialNames.intern names).1.arguments⟩
      outline).rename f = Course.ofProgram ⟨options, (SpecialNames.intern names).1.arguments⟩
        (outline.relabel (.renaming f)) := Course.rename_ofProgram separate outline
  rw [completed] at completed'
  obtain ⟨a', analyzed', tree'⟩ := exists_analysis_of_completed folded' completed'.symm
  refine ⟨a', analyzed', ?_⟩
  rw [tree] at faithful ⊢
  rw [tree']
  exact (State.Renames.scope _ _ .global outline.node decls inner named faithful).tree_eq
    (State.coherent_layOut_initial ..) (State.routed_layOut_initial ..) faithful

end ScopeAnalysis
