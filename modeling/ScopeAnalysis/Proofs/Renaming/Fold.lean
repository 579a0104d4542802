import ScopeAnalysis.Proofs.Relabelling.Fold

/-!
# Folding renamed programs

A renamed program has the renamed outline of the program, or it is refused alike, and the same texts
are interned on the way. The renaming must only keep apart what is called `eval` and what is not.
-/

namespace ScopeAnalysis

/-- A renaming that makes nothing `eval` that was not, and the other way around. -/
def SpecialNames.KeepsEval (special : SpecialNames) (f : Occurrence → Name) : Prop :=
  ∀ id, f id = special.eval ↔ id.name = special.eval

variable {special : SpecialNames} {f : Occurrence → Name}

/-- A renaming leaves the special names what they are. -/
def Recast.ofRenaming (kept : special.KeepsEval f) : Recast special where
  r := .renaming f
  flags _ flags := flags
  special := special
  eval := kept
  useStrict _ := Iff.rfl
  texts := Function.injective_id

/-- A renamed program has the renamed outline. -/
theorem NumberedProgram.outline_rename (kept : special.KeepsEval f) (p : NumberedProgram) :
    NumberedProgram.outline special (Program.rename f p) =
      ProgramOutline.relabel (.renaming f) <$> p.outline special := by
  refine ExceptT.ext (funext (fun table => ?_))
  -- Both programs intern the same texts in the same table.
  have folds : Folding.Folds special ProgramOutline.relabel (p.outline special) _ :=
    NumberedProgram.folds_outline p
  obtain ⟨texts, interned, alike⟩ := folds table
  have same := alike (.ofRenaming kept) table _ _ (.refl _) (.refl _) (Interner.carries_id _)
  rw [← interned] at same
  rw [ExceptT.run_map]
  exact same

end ScopeAnalysis
