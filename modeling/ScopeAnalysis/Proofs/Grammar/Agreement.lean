import ScopeAnalysis.Proofs.Grammar.Whole
import ScopeAnalysis.Proofs.Realisation

/-!
# Programs and their trees

The uses of a plain program are those of its tree, and the scopes of a placed program are those of
its tree, each with its declarations.
-/

namespace ScopeAnalysis

open Resolution

/-- How the analysis of a program with the given options and names reads it. -/
def Reading.ofAnalysis (options : Options) (names : Interner) (placed sound plain : Prop)
    (sound_of_plain : plain → sound) : Reading :=
  ⟨⟨options, (SpecialNames.intern names).1.arguments⟩, (SpecialNames.intern names).1, placed, sound,
    plain, sound_of_plain⟩

section Readings

variable {options : Options} {p : NumberedProgram} {names names' : Interner} {a : Analysis}
  {placed sound plain : Prop} {sound_of_plain : plain → sound}

/-- A program of which nothing is asked keeps to it. -/
theorem given_nothing (options : Options) (names : Interner) (pieces : List Piece) :
    (Reading.ofAnalysis options names False False False id).Given pieces :=
  fun _ _ => ⟨False.elim, False.elim, False.elim⟩

/-- What folding the program comes to. -/
theorem answers_outline
    (given : (Reading.ofAnalysis options names placed sound plain sound_of_plain).Given p.pieces) :
    Answers sound ((p.outline (SpecialNames.intern names).1).run (SpecialNames.intern names).2).1
      (fun outline =>
        (Reading.ofAnalysis options names placed sound plain sound_of_plain).CompletesProgram
          (Course.ofProgram ⟨options, (SpecialNames.intern names).1.arguments⟩ outline)
          (p.around options (SpecialNames.intern names).1.useStrict) p.pieces) :=
  Folding.meets_outline p given (SpecialNames.intern names).2

/-- A program in which no pattern is updated is analyzed. -/
theorem exists_analyze
    (given : (Reading.ofAnalysis options names placed sound plain sound_of_plain).Given p.pieces)
    (holds : sound) : ∃ a names', p.analyze options names = (.ok a, names') := by
  have meets := answers_outline given
  generalize folded : (p.outline (SpecialNames.intern names).1).run (SpecialNames.intern names).2 =
    outcome at meets
  obtain ⟨answer, names'⟩ := outcome
  cases answer with
  | error refusal => exact absurd holds meets.2
  | ok outline =>
    change Reading.CompletesProgram _ _ _ _ at meets
    unfold Reading.CompletesProgram at meets
    split at meets
    next completed =>
      obtain ⟨a, analyzed⟩ := exists_of_completed folded completed
      exact ⟨a, names', analyzed⟩
    next => exact absurd holds meets.2

/-- The tree of an analyzed program is laid out with the scopes and uses of the program. -/
theorem exists_layout
    (given : (Reading.ofAnalysis options names placed sound plain sound_of_plain).Given p.pieces)
    (analyzed : p.analyze options names = (.ok a, names')) :
    ∃ node decls inner,
      (Reading.ofAnalysis options names placed sound plain sound_of_plain).Agrees
        [.scope .global node none decls inner]
        (p.openings options (SpecialNames.intern names).1.useStrict) p.uses ∧
      a.tree = ((State.initial #[.start p.isModule p.node.id]).layOut
        (.scope .global node none decls inner)).tree := by
  obtain ⟨outline, decls, inner, folded, completed, tree⟩ := analyze_layOut analyzed
  have meets := answers_outline given
  rw [folded] at meets
  change Reading.CompletesProgram _ _ _ _ at meets
  rw [completed] at meets
  exact ⟨outline.node, decls, inner, meets, tree⟩

end Readings

theorem rel_of_forall₂ {α β : Type} {r : α → β → Prop} {as : List α} {bs : List β}
    (each : List.Forall₂ r as bs) : Multiset.Rel r as bs := by
  induction each with
  | nil => exact .zero
  | cons first _ ih => exact .cons first ih

section Placed

variable {options : Options} {p : NumberedProgram} {names names' : Interner} {a : Analysis}

/-- The scopes of the tree of a placed program are those of the program, each filled as the program
says. -/
theorem rel_isFilled_of_isPlaced (placed : p.isPlaced = true)
    (analyzed : p.analyze options names = (.ok a, names')) :
    Multiset.Rel (fun (o : Opening) scope =>
        o.IsFilled (SpecialNames.intern names).1.arguments a.tree scope)
      (p.openings options (SpecialNames.intern names).1.useStrict) a.tree.scopes.toList := by
  have given : (Reading.ofAnalysis options names True False False id).Given p.pieces := by
    intro piece member
    exact ⟨fun _ => List.all_eq_true.1 placed piece member, False.elim, False.elim⟩
  obtain ⟨node, decls, inner, agrees, tree⟩ := exists_layout given analyzed
  have named := agrees.named
  have scopes := agrees.scopes trivial
  simp only [Layout.argumentNamesAll, Layout.openingsAll, List.append_nil] at named scopes
  rw [← scopes, tree]
  exact rel_of_forall₂ (State.forall₂_isFilled_initial #[.start p.isModule p.node.id] .global
    node none decls inner named)

/-- The scopes of the tree of a placed program are those of the program, each with its
declarations. -/
theorem rel_isScope_of_isPlaced (placed : p.isPlaced = true)
    (analyzed : p.analyze options names = (.ok a, names')) :
    Multiset.Rel (fun (o : Opening) scope => o.IsScope a.tree scope)
      (p.openings options (SpecialNames.intern names).1.useStrict) a.tree.scopes.toList :=
  (rel_isFilled_of_isPlaced placed analyzed).mono (fun _ _ _ _ filled => filled.isScope)

end Placed

end ScopeAnalysis
