import ScopeAnalysis.Program.Numbering
import ScopeAnalysis.Proofs.Relabelling.Analysis

/-!
# Flags of functions

A function may be a generator, asynchronous, or both. Folding leaves this out, so no part of an
analysis depends on it: where names are declared and which functions in blocks are promoted is the
same whatever the flags of the functions are. In particular generators and asynchronous functions in
the blocks of a script are promoted as plain functions are.
-/

namespace ScopeAnalysis

/-- The relabelling that changes nothing. -/
def Relabelling.same : Relabelling := ⟨id, Ident.name, id⟩

theorem Relabelling.uniform_same : Relabelling.same.Uniform :=
  ⟨fun _ => rfl, Function.injective_id⟩

theorem Analysis.relabel_same (a : Analysis) : a.relabel .same = a := by
  have declaration : Declaration.relabel .same = id := rfl
  have variable_ : Variable.relabel .same = id := by
    funext v
    simp only [Variable.relabel, declaration, List.map_id]
    rfl
  have keys {α : Type} (entries : List (Name × α)) : Relabelling.same.keys entries = entries :=
    List.map_id _
  have scope : Scope.relabel .same = id := by
    funext s
    simp only [Scope.relabel, keys]
    rfl
  have reference : Reference.relabel .same = id := rfl
  have event : Event.relabel .same = id := by
    funext e
    cases e <;> rfl
  simp only [Analysis.relabel, ScopeTree.relabel, variable_, scope, reference, event, Array.map_id]

/-- Whether functions are generators or asynchronous makes no difference to an analysis, also not to
what is promoted. -/
theorem NumberedProgram.analyze_reflag (flags : Node → FunctionFlags) (options : Options)
    (p : NumberedProgram) (names : Interner) :
    NumberedProgram.analyze options (p.reflag flags) names = p.analyze options names := by
  obtain ⟨texts, analyzed⟩ := analyze_elsewhere p names
  obtain ⟨interned, alike⟩ := analyzed options
  -- Other flags are a relabelling in which only the flags change.
  have reflagged : NumberedProgram.analyze options (p.reflag flags) names = _ :=
    alike .same (fun node _ => flags node) names _ _ Relabelling.uniform_same
      Function.injective_id (.refl _) (.refl _) (Interner.carries_id _)
  rw [reflagged, ← interned]
  refine Prod.ext ?_ rfl
  cases (p.analyze options names).1 with
  | error refusal => rfl
  | ok a => exact congrArg Except.ok a.relabel_same

/-- `{ async function* f() {} }` -/
def blockGenerator : NumberedProgram × Workbench :=
  Draft.number (.script .none [] [.block .none [.function (.mk .none (some ⟨.none, "f"⟩)
    ⟨true, true⟩ (.mk (some .none) [] none) (.block .none [] []))]]) .empty

/-- The global scope gets a variable from the declaration of an asynchronous generator. -/
theorem blockGenerator_promoted : ∃ a names',
    blockGenerator.1.analyze .default blockGenerator.2.names = (.ok a, names') ∧
      ∃ node block fn id ps b, blockGenerator.1 =
          .script node [] [.block block [.function (.mk fn (some id) ⟨true, true⟩ ps b)]] ∧
        ∃ v ∈ a.tree.vars.toList, v.scope = ScopeId.root ∧
          v.declarations = [⟨id, .functionVarDeclaration⟩] := by
  have completed : (blockGenerator.1.analyze .default blockGenerator.2.names).1.isOk = true := by
    decide +kernel
  obtain ⟨a, names', analyzed⟩ := Resolution.exists_of_isOk completed
  have declared : (blockGenerator.1.analyze .default blockGenerator.2.names).1.toOption.map
      (fun a => a.tree.vars.toList.any (fun v => v.scope = ScopeId.root ∧
        v.declarations = [⟨⟨⟨⟨3⟩, .none⟩, ⟨0⟩⟩, .functionVarDeclaration⟩])) = some true := by
    decide +kernel
  rw [analyzed] at declared
  obtain ⟨v, member, promoted⟩ := List.any_eq_true.1 (Option.some.inj declared)
  obtain ⟨scope, declarations⟩ := of_decide_eq_true promoted
  exact ⟨a, names', analyzed, _, _, _, _, _, _, rfl, v, member, scope, declarations⟩

end ScopeAnalysis
