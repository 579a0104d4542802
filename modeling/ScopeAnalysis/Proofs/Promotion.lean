import ScopeAnalysis.Proofs.VarScopes

/-!
# Promotion of functions in blocks

In sloppy code a function that is declared in a block, a case or the clause of an `if` gets a twin
in the scope that receives the `var` names around it, unless a parameter or a lexical declaration
on the way there has the same name.
-/

namespace ScopeAnalysis

/-- No declaration around a function has its name but the function itself. -/
def NestedFunction.IsUnrivalled (f : NestedFunction) : Prop :=
  ∀ d ∈ f.rivals, d.id.name = f.id.name → d.id.node.id = f.id.node.id

theorem NestedFunction.isRivalled_eq_false (f : NestedFunction) :
    f.isRivalled = false ↔ f.IsUnrivalled := by
  simp [isRivalled, IsUnrivalled]

namespace Owner

variable {options : Options} {useStrict : Name} {o : Owner}

theorem promotes_iff : o.promotes options useStrict = true ↔
    options.annexB = true ∧ strictIn options useStrict o.around = false := by
  rw [promotes, Bool.and_eq_true, Bool.not_eq_true']

theorem mem_promoted {id : Occurrence} : id ∈ o.promoted options useStrict ↔
    options.annexB = true ∧ strictIn options useStrict o.around = false ∧
      ∃ f ∈ o.nested, f.IsUnrivalled ∧ f.id = id := by
  rw [← and_assoc, ← promotes_iff]
  unfold promoted
  split
  next allowed => simp [allowed, and_assoc, NestedFunction.isRivalled_eq_false]
  next refused => exact ⟨nofun, fun ⟨allowed, _⟩ => absurd allowed refused⟩

/-- Of functions with identifiers of their own each one is promoted for itself. -/
theorem id_mem_promoted (distinct : (o.nested.map NestedFunction.id).Nodup) {f : NestedFunction}
    (member : f ∈ o.nested) : f.id ∈ o.promoted options useStrict ↔
      options.annexB = true ∧ strictIn options useStrict o.around = false ∧ f.IsUnrivalled := by
  rw [mem_promoted]
  refine and_congr_right (fun _ => and_congr_right (fun _ => ⟨?_, fun free => ?_⟩))
  · rintro ⟨g, inside, free, same⟩
    rwa [← List.inj_on_of_nodup_map distinct inside member same]
  · exact ⟨f, member, free, rfl⟩

/-- The scope of an owner declares twins exactly of the functions in its blocks that may be
promoted. -/
structure PromotesTo (o : Owner) (options : Options) (useStrict : Name) (tree : ScopeTree)
    (scope : Scope) : Prop where
  kind : scope.kind = o.scopeKind
  node : scope.node = o.node
  promoted : (tree.declaredAs .functionVarDeclaration scope).Perm (o.promoted options useStrict)
  twins : ∀ id, id ∈ tree.declaredAs .functionVarDeclaration scope ↔ options.annexB = true ∧
    strictIn options useStrict o.around = false ∧ ∃ f ∈ o.nested, f.IsUnrivalled ∧ f.id = id
  /-- The nodes of a program are its own, so that no two functions share an identifier. -/
  each : (o.nested.map NestedFunction.id).Nodup → ∀ f ∈ o.nested,
    (f.id ∈ tree.declaredAs .functionVarDeclaration scope ↔ options.annexB = true ∧
      strictIn options useStrict o.around = false ∧ f.IsUnrivalled)

end Owner

/-- Every owner has a scope of its own that functions in its blocks are promoted to, and no other
scope declares a twin. -/
structure NumberedProgram.PromotesFunctions (p : NumberedProgram) (options : Options)
    (useStrict : Name) (tree : ScopeTree) : Prop where
  owned : Multiset.Rel (fun (o : Owner) scope => o.PromotesTo options useStrict tree scope) p.owners
    (tree.receivers p)
  others : ∀ scope ∈ tree.scopes.toList, p.receives scope.kind = false →
    tree.declaredAs .functionVarDeclaration scope = []

/-- In every placed program that is analyzed, exactly those functions in blocks are promoted that
stand in sloppy code and whose name is free up to their owner. -/
theorem promotesFunctions_of_isPlaced {options : Options} {p : NumberedProgram}
    {names names' : Interner} {a : Analysis} (placed : p.isPlaced = true)
    (analyzed : p.analyze options names = (.ok a, names')) :
    p.PromotesFunctions options (SpecialNames.intern names).1.useStrict a.tree where
  owned := by
    refine (rel_receivers placed analyzed).mono (fun o _ scope _ opened => ?_)
    have same := idsAs_perm .functionVarDeclaration opened.declares
    rw [Owner.opening, Owner.idsAs_promoted_decls] at same
    refine ⟨opened.kind, opened.node, same, fun id => ?_, fun distinct f member => ?_⟩
    · exact same.mem_iff.trans Owner.mem_promoted
    · exact same.mem_iff.trans (Owner.id_mem_promoted distinct member)
  others scope member other := declaredAs_of_not_receives placed analyzed member other rfl

/-- `function g(p) { { function f() {} function p() {} } for (let f of p) { { function f() {} } }`,
and at its end `if (p) function q() {} }`. -/
def blockFunctions : NumberedProgram × Workbench :=
  let id (name : String) : Ident Span String := ⟨.none, name⟩
  let bare (name : String) : Stmt Span String :=
    .function (.mk .none (some (id name)) .none (.mk (some .none) [] none) (.block .none [] []))
  Draft.number (.script .none [] [.function (.mk .none (some (id "g")) .none
    (.mk (some .none) [.mk .none .nameFirst (.ident (id "p")) none] none)
    (.block .none []
      [.block .none [bare "f", bare "p"],
        .forEachDecl .none .values .none .let_
          [.mk .none .nameFirst (.ident (id "f")) none] (.ident (id "p"))
          (.block .none [.block .none [bare "f"]]),
        .ifThen .none (.ident (id "p")) (bare "q")]))]) .empty

theorem blockFunctions_promotesFunctions :
    let useStrict := (SpecialNames.intern blockFunctions.2.names).1.useStrict
    blockFunctions.1.owners.map (fun o => (o.nested.map (fun f => f.id.node.id.val),
        (o.promoted .default useStrict).map (fun id => id.node.id.val))) =
          [([], []), ([6, 10, 19, 27], [6, 27]), ([], []), ([], []), ([], []), ([], [])] ∧
      ∃ a names', blockFunctions.1.analyze .default blockFunctions.2.names = (.ok a, names') ∧
        blockFunctions.1.PromotesFunctions .default useStrict a.tree := by
  have completed : (blockFunctions.1.analyze .default blockFunctions.2.names).1.isOk = true := by
    decide +kernel
  obtain ⟨a, names', analyzed⟩ := Resolution.exists_of_isOk completed
  exact ⟨by decide +kernel, a, names', analyzed,
    promotesFunctions_of_isPlaced (by decide +kernel) analyzed⟩

end ScopeAnalysis
