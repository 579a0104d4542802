import ScopeAnalysis.Program.Numbering
import ScopeAnalysis.Proofs.Grammar.Agreement

/-!
# Which programs are refused, and how

An analysis is refused only where a pattern is updated, and then only because what the pattern
writes is asked what it declares or binds. The rule that collects written names refuses nothing.
-/

namespace ScopeAnalysis

open Resolution

section Refusals

variable {options : Options} {p : NumberedProgram} {names names' : Interner} {refusal : Refusal}

/-- An analysis that is refused was refused while folding or while walking the outline. -/
theorem refused_cases (refused : p.analyze options names = (.error refusal, names')) :
    (p.outline (SpecialNames.intern names).1).run (SpecialNames.intern names).2 =
        (.error refusal, names') ∨
      ∃ outline, (p.outline (SpecialNames.intern names).1).run (SpecialNames.intern names).2 =
          (.ok outline, names') ∧
        (Course.ofProgram ⟨options, (SpecialNames.intern names).1.arguments⟩ outline).outcome =
          .error refusal := by
  simp only [NumberedProgram.analyze] at refused
  split at refused
  next folded =>
    cases refused
    exact .inl folded
  next outline later folded =>
    simp only [Prod.mk.injEq] at refused
    obtain ⟨resolved, rfl⟩ := refused
    have run := (Walk.program_run ⟨options, (SpecialNames.intern names).1.arguments⟩ outline
      #[.start p.isModule p.node.id]).1
    simp only [ProgramOutline.resolve] at resolved
    split at resolved
    next walked =>
      cases resolved
      rw [walked] at run
      exact .inr ⟨outline, folded, run.symm⟩
    next => cases resolved

/-- Nothing is taken for granted here: every refusal of any program is foreseen. -/
theorem isForeseen_of_refused (refused : p.analyze options names = (.error refusal, names')) :
    refusal.isForeseen = true := by
  have meets := answers_outline (given_nothing options names p.pieces)
  rcases refused_cases refused with folded | ⟨outline, folded, walked⟩
  · rw [folded] at meets
    exact meets.1
  · rw [folded] at meets
    change Reading.CompletesProgram _ _ _ _ at meets
    rw [Reading.CompletesProgram, walked] at meets
    exact meets.1

theorem texts_of_isForeseen (foreseen : refusal.isForeseen = true) :
    (refusal.rule.text ∈ ["block_declarations", "var_declarations"] ∧
        refusal.shape.text ∈ ["assignment target identifier", "parameter expressions"]) ∨
      (refusal.rule.text = "bound_names" ∧
        refusal.shape.text = "assignment target identifier") := by
  unfold Refusal.isForeseen at foreseen
  split at foreseen
  all_goals simp_all [Rule.text, Shape.text]

end Refusals

/-- A program in which no pattern is updated is analyzed, whatever the options. The other programs
are refused in five ways at most, none of which concerns the names that a target writes. -/
theorem analyze_refuses_only_updatedPatterns (options : Options) (p : NumberedProgram)
    (names : Interner) :
    (p.isSound = true → ∃ a names', p.analyze options names = (.ok a, names')) ∧
      ∀ refusal names', p.analyze options names = (.error refusal, names') →
        ((refusal.rule.text ∈ ["block_declarations", "var_declarations"] ∧
            refusal.shape.text ∈ ["assignment target identifier", "parameter expressions"]) ∨
          (refusal.rule.text = "bound_names" ∧
            refusal.shape.text = "assignment target identifier")) ∧
          refusal.rule ≠ .writtenNames := by
  refine ⟨fun sound => ?_, fun refusal names' refused => ?_⟩
  · have given : (Reading.ofAnalysis options names False True False (fun _ => trivial)).Given
        p.pieces := by
      intro piece member
      exact ⟨False.elim, fun _ => List.all_eq_true.1 sound piece member, False.elim⟩
    exact exists_analyze given trivial
  · have foreseen := isForeseen_of_refused refused
    refine ⟨texts_of_isForeseen foreseen, fun written => ?_⟩
    rw [Refusal.isForeseen, written] at foreseen
    cases foreseen

/-- `a++; [b] = c;` and `[a.b]++;`, where only the second updates a pattern. -/
def updates : NumberedProgram × Workbench :=
  let id (name : String) : Ident Span String := ⟨.none, name⟩
  Draft.number (.script .none []
    [.expr .none (.update .none .increment false (.ident (id "a"))),
      .expr .none (.assign .none .assign (.array .none
        [.element (.mk .none (.ident (id "b")) none)] none) (.ident (id "c")))]) .empty

def updatedPattern : NumberedProgram × Workbench :=
  let id (name : String) : Ident Span String := ⟨.none, name⟩
  Draft.number (.script .none []
    [.expr .none (.update .none .increment false (.array .none
      [.element (.mk .none (.member .none (.ident (id "a")) "b") none)] none))]) .empty

theorem updatedPattern_refused :
    updates.1.isSound = true ∧
      (∃ a names', updates.1.analyze .default updates.2.names = (.ok a, names')) ∧
      ∃ refusal names', updatedPattern.1.analyze .default updatedPattern.2.names =
          (.error refusal, names') ∧ refusal.rule ≠ .writtenNames := by
  have sound : updates.1.isSound = true := by decide +kernel
  have failed : (updatedPattern.1.analyze .default updatedPattern.2.names).1.isOk = false := by
    decide +kernel
  refine ⟨sound, (analyze_refuses_only_updatedPatterns _ _ _).1 sound, ?_⟩
  generalize outcome : updatedPattern.1.analyze .default updatedPattern.2.names = result at failed
  obtain ⟨answer, names'⟩ := result
  cases answer with
  | ok a => cases failed
  | error refusal =>
    exact ⟨refusal, names', rfl,
      ((analyze_refuses_only_updatedPatterns _ _ _).2 refusal names' outcome).2⟩

end ScopeAnalysis
