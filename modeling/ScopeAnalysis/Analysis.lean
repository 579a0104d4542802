import ScopeAnalysis.Outline.OfProgram
import ScopeAnalysis.Resolution.Finish
import ScopeAnalysis.Resolution.Walk

/-!
# Analysis

Analyzing a program interns the special names, folds the program into its outline, and walks the
outline into a scope tree. A use without a declaration is no failure; an analysis fails only when a
rule meets a shape that it has no answer for, and then there is no tree.
-/

namespace ScopeAnalysis

/-- The result of an analysis, with what was reported on the way. -/
structure Analysis where
  tree : ScopeTree
  events : Array Event

/-- The walk over the outline of a program. -/
def ProgramOutline.resolve (options : Options) (special : SpecialNames) (start : Event)
    (outline : ProgramOutline) : Answer Analysis :=
  let walk := Resolution.Walk.program ⟨options, special.arguments⟩ outline
  match walk.run (.initial #[start]) with
  | (.error refusal, _) => .error refusal
  | (.ok (), s) =>
    let tree := s.finish
    let done : Event := .complete tree.scopes.size tree.vars.size tree.references.size
    .ok ⟨tree, s.events.push done⟩

/-- Analyzes a program with the interner it was numbered with. Interned names stay interned even
if the analysis fails. -/
def NumberedProgram.analyze (options : Options) (p : NumberedProgram) (names : Interner) :
    Answer Analysis × Interner :=
  let (special, names) := SpecialNames.intern names
  match (p.outline special).run names with
  | (.error refusal, names) => (.error refusal, names)
  | (.ok outline, names) =>
    (outline.resolve options special (.start p.isModule p.node.id), names)

end ScopeAnalysis
