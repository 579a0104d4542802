import ScopeAnalysis.Program.Numbering
import ScopeAnalysis.Proofs.Grammar.Agreement

/-!
# Uses

Between a program and its tree no use is lost, added or taken for another: the references of the
tree are the uses that the program itself has, as often as it has them.
-/

namespace ScopeAnalysis

open Resolution in
/-- A plain program is analyzed, and the uses in its tree are those of the program. -/
theorem uses_perm_of_isPlain (options : Options) {p : NumberedProgram} (names : Interner)
    (plain : p.isPlain = true) :
    ∃ a names', p.analyze options names = (.ok a, names') ∧ a.tree.uses.Perm p.uses := by
  have given : (Reading.ofAnalysis options names False True True id).Given p.pieces := by
    intro piece member
    have one := List.all_eq_true.1 plain piece member
    exact ⟨False.elim, fun _ => Piece.isSound_of_isPlain one, fun _ => one⟩
  obtain ⟨a, names', analyzed⟩ := exists_analyze given trivial
  obtain ⟨node, decls, inner, agrees, tree⟩ := exists_layout given analyzed
  refine ⟨a, names', analyzed, ?_⟩
  have laid := State.uses_layOut (.initial #[.start p.isModule p.node.id])
    (.scope .global node none decls inner)
  have same := agrees.uses trivial
  rw [Layout.usesAll, Layout.usesAll, List.append_nil] at same
  rw [tree, laid]
  exact Multiset.coe_eq_coe.1 same

/-- `for (var k = null in o) { [k, o.p = q] = delete r; k += o[k++]; }` -/
def keysLoop : NumberedProgram × Workbench :=
  let id (name : String) : Ident Span String := ⟨.none, name⟩
  Draft.number (.script .none [] [.forEachDecl .none .keys .none .var
    [.mk .none .nameFirst (.ident (id "k")) (some (.literal .none .null))]
    (.ident (id "o")) (.block .none
      [.expr .none (.assign .none .assign
        (.array .none
          [.element (.mk .none (.ident (id "k")) none),
            .element (.mk .none (.member .none (.ident (id "o")) "p") (some (.ident (id "q"))))]
          none)
        (.delete .none (.ident (id "r")))),
      .expr .none (.assign .none .add (.ident (id "k"))
        (.index .none (.ident (id "o"))
          (.update .none .increment false (.ident (id "k")))))])]) .empty

theorem keysLoop_uses_perm :
    keysLoop.1.uses.map (fun use => (use.1.node.id.val, use.2)) =
        [(0, .write), (0, .write), (4, .read), (5, .write), (7, .read), (9, .read), (12, .delete),
          (16, .readWrite), (17, .read), (18, .readWrite)] ∧
      ∃ a names', keysLoop.1.analyze .default keysLoop.2.names = (.ok a, names') ∧
        a.tree.uses.Perm keysLoop.1.uses :=
  ⟨by decide +kernel, uses_perm_of_isPlain .default _ (by decide +kernel)⟩

end ScopeAnalysis
