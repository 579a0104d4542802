import ScopeAnalysis.Program.Numbering
import ScopeAnalysis.Proofs.Grammar.Agreement
import ScopeAnalysis.Proofs.Grammar.FoldNesting
import ScopeAnalysis.ScopeTree.Query

/-!
# The skeleton of a tree

The scopes of a tree are those that the syntax of the program asks for, no more and no fewer, and
each lies inside the scopes of the constructs around it. This holds of every program that is
analyzed, wherever its statements stand and whatever the options.
-/

namespace ScopeAnalysis

/-- A scope lies at a place if it was opened as the place says and its parent lies at the rest. -/
inductive ScopeTree.LiesAt (tree : ScopeTree) : Option ScopeId → Place → Prop
  | outside : LiesAt tree none []
  | inside {id : ScopeId} {scope : Scope} {around : Place} (found : tree.scopeAt? id = some scope)
      (outer : LiesAt tree scope.parent around) :
      LiesAt tree (some id) ((scope.kind, scope.node) :: around)

/-- The scopes of a tree are at the given places. -/
structure ScopeTree.Mirrors (tree : ScopeTree) (places : List Place) : Prop where
  scopes : Multiset.ofList (places.map List.head?) =
    Multiset.ofList (tree.scopes.toList.map (fun scope => some (scope.kind, scope.node)))
  nesting : Multiset.Rel (fun place (scope : Scope) => tree.LiesAt (some scope.id) place)
    places tree.scopes.toList

namespace Resolution.State

variable {s t u : State}

/-- A scope stays where it lies. -/
theorem Grows.liesAt (grows : Grows s t) {id : Option ScopeId} {place : Place}
    (lies : s.tree.LiesAt id place) : t.tree.LiesAt id place := by
  induction lies with
  | outside => exact .outside
  | @inside id scope around found outer ih =>
    obtain ⟨b, _, _, foundB, kind, node, parent, _⟩ := grows.scopes id.index scope found
    rw [← parent] at ih
    rw [← kind, ← node]
    exact .inside foundB ih

/-- From one state to the next scopes were opened at the given places, one after the other. -/
structure Spreads (s t : State) (places : List Place) : Prop where
  size : t.scopes.size = s.scopes.size + places.length
  lie : ∀ (i : Nat) (place : Place), places[i]? = some place →
    t.tree.LiesAt (some ⟨s.scopes.size + i⟩) place

namespace Spreads

theorem of_size (same : t.scopes.size = s.scopes.size) : Spreads s t [] := ⟨same, nofun⟩

theorem trans {places more : List Place} (first : Spreads s t places) (second : Spreads t u more)
    (grows : Grows t u) : Spreads s u (places ++ more) where
  size := by rw [second.size, first.size, List.length_append, Nat.add_assoc]
  lie i place asked := by
    by_cases early : i < places.length
    · rw [List.getElem?_append_left early] at asked
      exact grows.liesAt (first.lie i place asked)
    · rw [List.getElem?_append_right (by omega)] at asked
      have there := second.lie _ place asked
      have same : t.scopes.size + (i - places.length) = s.scopes.size + i := by
        rw [first.size]
        omega
      rwa [same] at there

end Spreads

/-- The scope that was opened last lies inside the one that was open before. -/
theorem liesAt_openWith {around : Place} (lies : s.tree.LiesAt s.openScopes.head? around)
    (kind : ScopeKind) (node : Node) (arguments : Option Name) (decls : List Declaration) :
    (s.openWith kind node arguments decls).tree.LiesAt (some ⟨s.scopes.size⟩)
      ((kind, node) :: around) := by
  have furnished := Furnished.openWith s kind node arguments decls
  have entered : (s.enter kind node).scopes[s.scopes.size]? = some (s.nextScope kind node) := by
    rw [getElem?_enter, if_pos rfl]
  obtain ⟨bindings, found⟩ := furnished.here _ entered
  have outer := (Grows.openWith s kind node arguments decls).liesAt lies
  have placed : (s.openWith kind node arguments decls).tree.scopeAt? ⟨s.scopes.size⟩ =
    some { s.nextScope kind node with bindings } := found
  exact .inside placed outer

theorem Spreads.scope_of_inside (coherent : s.Coherent) (can : s.CanEnter) {around : Place}
    (lies : s.tree.LiesAt s.openScopes.head? around) (kind : ScopeKind) (node : Node)
    (arguments : Option Name) (decls : List Declaration) {inner : List Layout}
    {places : List Place}
    (inside : Spreads (s.openWith kind node arguments decls)
      ((s.openWith kind node arguments decls).layOutAll inner) places) :
    Spreads s (s.layOut (.scope kind node arguments decls inner))
      (((kind, node) :: around) :: places) := by
  have started := coherent.openWith can kind node arguments decls
  have there : (s.openWith kind node arguments decls).openScopes ≠ [] := opened_openWith
  have here := liesAt_openWith lies kind node arguments decls
  have opened : Spreads s (s.openWith kind node arguments decls) [(kind, node) :: around] := by
    refine ⟨size_openWith s kind node arguments decls, fun i place asked => ?_⟩
    cases i with
    | zero => exact Option.some.inj asked ▸ here
    | succ i => cases asked
  have left := (opened.trans inside (Grows.layOutAll started there inner)).trans
    (.of_size (congrArg Array.size (scopes_leave _))) (.leave _)
  rw [List.append_nil] at left
  exact left

mutual

/-- Laying out opens the scopes of a layout at their places. -/
theorem Spreads.layOut {s : State} (coherent : s.Coherent) (opened : s.openScopes ≠ [])
    {around : Place}
    (lies : s.tree.LiesAt s.openScopes.head? around) :
    ∀ l : Layout, Spreads s (s.layOut l) (l.places around)
  | .use id access => by
    refine .of_size ?_
    rw [State.layOut, record_eq, size_passThrough]
    exact size_resolve s id.name
  | .directEval => .of_size (size_updateScope (s.report _) _ _)
  | .withStatement => .of_size rfl
  | .scope kind node arguments decls inner => by
    have can : s.CanEnter := .of_opened opened
    have here := liesAt_openWith lies kind node arguments decls
    exact .scope_of_inside coherent can lies kind node arguments decls
      (Spreads.layOutAll (coherent.openWith can kind node arguments decls) opened_openWith
        (by simpa [openWith] using here) inner)

theorem Spreads.layOutAll {s : State} (coherent : s.Coherent) (opened : s.openScopes ≠ [])
    {around : Place}
    (lies : s.tree.LiesAt s.openScopes.head? around) :
    ∀ ls : List Layout, Spreads s (s.layOutAll ls) (Layout.placesAll around ls)
  | [] => .of_size rfl
  | l :: rest => by
    have still : (s.layOut l).openScopes ≠ [] := by simpa using opened
    have after := coherent.layOut opened l
    have kept : (s.layOut l).tree.LiesAt (s.layOut l).openScopes.head? around := by
      rw [openScopes_layOut]
      exact (Grows.layOut coherent opened l).liesAt lies
    exact (Spreads.layOut coherent opened lies l).trans (Spreads.layOutAll after still kept rest)
      (Grows.layOutAll after still rest)

end

/-- The scopes of a finished tree lie at the places of its layout, in order. -/
theorem forall₂_liesAt_initial (events : Array Event) (kind : ScopeKind) (node : Node)
    (arguments : Option Name) (decls : List Declaration) (inner : List Layout) :
    let t := (initial events).layOut (.scope kind node arguments decls inner)
    List.Forall₂ (fun place scope => t.tree.LiesAt (some scope.id) place)
      (Layout.places [] (.scope kind node arguments decls inner)) t.scopes.toList := by
  have coherent := Coherent.initial events
  have can : (initial events).CanEnter := fun _ => rfl
  have here := liesAt_openWith (s := initial events) .outside kind node arguments decls
  obtain ⟨size, lie⟩ := Spreads.scope_of_inside coherent can .outside kind node arguments decls
    (Spreads.layOutAll (coherent.openWith can kind node arguments decls) opened_openWith
      (by simpa [openWith] using here) inner)
  have placed := (coherent_layOut_initial events kind node arguments decls inner).placed
  refine List.forall₂_iff_get.2 ⟨(Nat.zero_add _).symm.trans size.symm, fun i below below' => ?_⟩
  have there := lie i _ (List.getElem?_eq_getElem below)
  have same : (initial events).scopes.size + i = i := Nat.zero_add i
  rw [same] at there
  rw [List.get_eq_getElem, placed i _ (by simp)]
  exact there

end Resolution.State

namespace ScopeTree

theorem LiesAt.head {tree : ScopeTree} {id : ScopeId} {scope : Scope} {place : Place}
    (lies : tree.LiesAt (some id) place) (found : tree.scopeAt? id = some scope) :
    place.head? = some (scope.kind, scope.node) := by
  cases lies with
  | inside found' =>
    rw [found] at found'
    cases found'
    rfl

/-- Scopes at places are what the heads of the places say. -/
theorem Mirrors.of_rel {tree : ScopeTree} {places : List Place}
    (placed : ∀ (i : Nat) (scope : Scope), tree.scopes[i]? = some scope → scope.id = ⟨i⟩)
    (nesting : Multiset.Rel (fun place (scope : Scope) => tree.LiesAt (some scope.id) place)
      places tree.scopes.toList) : tree.Mirrors places where
  nesting := nesting
  scopes := by
    have heads : Multiset.Rel Eq ((places : Multiset Place).map List.head?)
        ((tree.scopes.toList : Multiset Scope).map
          (fun scope => some (scope.kind, scope.node))) := by
      refine Multiset.rel_map.2 (nesting.mono (fun place _ scope member lies => ?_))
      obtain ⟨i, below, rfl⟩ := List.getElem_of_mem member
      refine lies.head ?_
      rw [placed i _ (by simp)]
      simp [scopeAt?]
    exact Multiset.rel_eq.1 heads

end ScopeTree

open Resolution in
/-- The scopes of an analyzed program are those that its syntax asks for, in their places. -/
theorem mirrors_of_analyze {options : Options} {p : NumberedProgram} {names names' : Interner}
    {a : Analysis} (analyzed : p.analyze options names = (.ok a, names')) :
    a.tree.Mirrors p.places := by
  obtain ⟨outline, decls, inner, folded, completed, tree⟩ := analyze_layOut analyzed
  have nests := Folding.returns_outline p _ outline (congrArg Prod.fst folded)
    ⟨options, (SpecialNames.intern names).1.arguments⟩
  rw [completed] at nests
  have places := (nests rfl).1 []
  rw [Layout.placesAll, Layout.placesAll, List.append_nil] at places
  have coherent := State.Coherent.scope (.initial #[.start p.isModule p.node.id])
    (fun _ => rfl) .global outline.node none decls inner
  have lie := State.forall₂_liesAt_initial #[.start p.isModule p.node.id] .global outline.node none
    decls inner
  rw [tree]
  refine .of_rel coherent.placed ?_
  rw [NumberedProgram.places, ← Multiset.coe_eq_coe.2 places]
  exact rel_of_forall₂ lie

/-- `if (p) function f(x = class C {}) { with (x) { switch (function g() {}) { case y => y: } } }`,
with a scope in nearly every place that a scope can be in. -/
def crowdedClause : NumberedProgram × Workbench :=
  let id (name : String) : Ident Span String := ⟨.none, name⟩
  let read (name : String) : Expr Span String := .ident (id name)
  let bind (name : String) : BindingElement Span String :=
    .mk .none .nameFirst (.ident (id name)) none
  Draft.number (.script .none [] [.ifThen .none (read "p") (.function (.mk .none (some (id "f"))
    .none (.mk (some .none) [.mk .none .nameFirst (.ident (id "x"))
      (some (.class_ (.mk .none (some (id "C")) none [])))] none)
    (.block .none [] [.withObject .none (read "x") (.block .none
      [.switch .none
        (.function (.mk .none (some (id "g")) .none (.mk (some .none) [] none)
          (.block .none [] [])))
        .none
        [.mk .none (some (.arrow (.mk .none none .none (.mk (some .none) [bind "y"] none)
          (.concise (read "y"))))) []]])])))]) .empty

theorem crowdedClause_mirrors :
    crowdedClause.1.places.map (fun place => place.map Prod.fst) =
        [[.global], [.script, .global], [.block, .script, .global],
          [.parameters, .block, .script, .global],
          [.parameterExpression, .parameters, .block, .script, .global],
          [.className, .parameterExpression, .parameters, .block, .script, .global],
          [.function, .parameters, .block, .script, .global],
          [.with_, .function, .parameters, .block, .script, .global],
          [.block, .with_, .function, .parameters, .block, .script, .global],
          [.functionName, .block, .with_, .function, .parameters, .block, .script, .global],
          [.function, .functionName, .block, .with_, .function, .parameters, .block, .script,
            .global],
          [.block, .block, .with_, .function, .parameters, .block, .script, .global],
          [.arrowFunction, .block, .block, .with_, .function, .parameters, .block, .script,
            .global]] ∧
      ∃ a names', crowdedClause.1.analyze .default crowdedClause.2.names = (.ok a, names') ∧
        a.tree.Mirrors crowdedClause.1.places := by
  have completed : (crowdedClause.1.analyze .default crowdedClause.2.names).1.isOk = true := by
    decide +kernel
  obtain ⟨a, names', analyzed⟩ := Resolution.exists_of_isOk completed
  exact ⟨by decide +kernel, a, names', analyzed, mirrors_of_analyze analyzed⟩

end ScopeAnalysis
