import ScopeAnalysis.Proofs.Relabelling.Fold
import ScopeAnalysis.Proofs.Relabelling.Run

/-!
# Analyses with other tables

A relabelled program that is analyzed with another table interns the same texts there, and its
analysis is the relabelled one.
-/

namespace ScopeAnalysis

open Resolution

/-- The texts behind the special names. -/
def SpecialNames.texts : List String := ["arguments", "eval", "use strict"]

theorem SpecialNames.intern_snd (table : Interner) :
    (SpecialNames.intern table).2 = table.internAll SpecialNames.texts := rfl

section

variable {r : Relabelling} {table table' last last' : Interner}

/-- The special names are carried to the special names. -/
theorem SpecialNames.intern_fst_carried (carries : last.Carries last' r.text)
    (within : (SpecialNames.intern table).2.Begins last)
    (within' : (SpecialNames.intern table').2.Begins last') :
    (SpecialNames.intern table').1 =
      ⟨r.text (SpecialNames.intern table).1.arguments, r.text (SpecialNames.intern table).1.eval,
        r.text (SpecialNames.intern table).1.useStrict⟩ := by
  have later (table : Interner) := Interner.Begins.intern (table.intern "arguments").2 "eval"
  have latest (table : Interner) :=
    Interner.Begins.intern ((table.intern "arguments").2.intern "eval").2 "use strict"
  have arguments := carries.intern (((later table).trans (latest table)).trans within)
    (((later table').trans (latest table')).trans within')
  have eval := carries.intern ((latest table).trans within) ((latest table').trans within')
  have useStrict : r.text (((table.intern "arguments").2.intern "eval").2.intern "use strict").1 =
      (((table'.intern "arguments").2.intern "eval").2.intern "use strict").1 :=
    carries.intern within within'
  change SpecialNames.mk (table'.intern "arguments").1
    ((table'.intern "arguments").2.intern "eval").1
    (((table'.intern "arguments").2.intern "eval").2.intern "use strict").1 = _
  rw [← arguments, ← eval, ← useStrict]
  rfl

/-- A relabelling that gives every name one handle recasts the special names. -/
def Recast.ofUniform (uniform : r.Uniform) (flags : Node → FunctionFlags → FunctionFlags)
    (special : SpecialNames) : Recast special where
  r := r
  flags := flags
  special := ⟨r.text special.arguments, r.text special.eval, r.text special.useStrict⟩
  eval id := by rw [uniform.name, uniform.texts.eq_iff]
  useStrict _ := uniform.texts.eq_iff
  texts := uniform.texts

/-- A program that folds into the relabelled outline of another one has the relabelled analysis. -/
theorem analyze_of_folded_relabelled (uniform : r.Uniform) (numbers : Function.Injective r.number)
    {p p' : NumberedProgram} {answer : Answer ProgramOutline}
    (folded : (p.outline (SpecialNames.intern table).1).run (SpecialNames.intern table).2 =
      (answer, last))
    (folded' : (p'.outline (SpecialNames.intern table').1).run (SpecialNames.intern table').2 =
      (answer.map (ProgramOutline.relabel r), last'))
    (start : Event.start p'.isModule p'.node.id = (Event.start p.isModule p.node.id).relabel r)
    (arguments : (SpecialNames.intern table').1.arguments =
      r.text (SpecialNames.intern table).1.arguments) (options : Options) :
    p'.analyze options table' = ((p.analyze options table).1.map (Analysis.relabel r), last') := by
  cases answer with
  | error refusal =>
    rw [analyze_of_refused folded, analyze_of_refused folded']
    rfl
  | ok outline =>
    have course : (Course.ofProgram ⟨options, (SpecialNames.intern table).1.arguments⟩
        outline).relabel r = _ :=
      Course.relabel_ofProgram (fun _ => uniform.separates numbers) outline
    rw [analyze_of_folded folded, analyze_of_folded folded', start, arguments]
    refine Prod.ext ?_ rfl
    rw [← Course.analysis_relabel uniform, course]
    rfl

end

/-- An analysis interns texts that do not depend on the handles of the program nor on the options,
and answers alike whatever these handles, the numbers of the nodes and the flags of functions
are. -/
theorem analyze_elsewhere (p : NumberedProgram) (table : Interner) : ∃ texts, ∀ options,
    (p.analyze options table).2 = table.internAll texts ∧
    ∀ (r : Relabelling) (flags : Node → FunctionFlags → FunctionFlags)
      (table' last last' : Interner), r.Uniform → Function.Injective r.number →
        (table.internAll texts).Begins last → (table'.internAll texts).Begins last' →
          last.Carries last' r.text →
            NumberedProgram.analyze options (p.map (r.mapping flags)) table' =
              ((p.analyze options table).1.map (Analysis.relabel r), table'.internAll texts) := by
  obtain ⟨texts, interned, alike⟩ := NumberedProgram.folds_outline p (SpecialNames.intern table).2
  obtain ⟨⟨answer, later⟩, folded⟩ : ∃ result, (p.outline (SpecialNames.intern table).1).run
      (SpecialNames.intern table).2 = result := ⟨_, rfl⟩
  rw [folded] at interned alike
  subst interned
  refine ⟨SpecialNames.texts ++ texts, fun options => ⟨?_, ?_⟩⟩
  · rw [Interner.internAll_append, ← SpecialNames.intern_snd]
    exact analyze_snd_of_folded folded
  · intro r flags table' last last' uniform numbers within within' carries
    rw [Interner.internAll_append, ← SpecialNames.intern_snd] at within within' ⊢
    have special := SpecialNames.intern_fst_carried carries
      ((Interner.Begins.internAll _ texts).trans within)
      ((Interner.Begins.internAll _ texts).trans within')
    have folded' := alike (.ofUniform uniform flags _) (SpecialNames.intern table').2 last last'
      within within' carries
    change (NumberedProgram.outline ⟨r.text _, r.text _, r.text _⟩
      (Program.map (r.mapping flags) p)).run _ = (ProgramOutline.relabel r <$> answer, _) at folded'
    rw [← special] at folded'
    have start : Event.start (Program.map (r.mapping flags) p).isModule
        (Program.map (r.mapping flags) p).node.id =
          (Event.start p.isModule p.node.id).relabel r := by
      cases p <;> rfl
    exact analyze_of_folded_relabelled uniform numbers folded folded' start
      (congrArg SpecialNames.arguments special) options

end ScopeAnalysis
