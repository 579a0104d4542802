import Mathlib.Logic.Relation
import ScopeAnalysis.Proofs.Lookup

/-!
# The shape of a finished tree

A finished tree has one root, parents and children point at each other, and a scope comes before all
that is below it and before the scopes beside it that were opened later. The main statement is
`isDepthFirst_of_analyze`. It rests on the forest that a walk leaves behind: what is below a scope
fills the positions right after it.
-/

namespace ScopeAnalysis

namespace ScopeTree

/-- A scope lies somewhere below another one. -/
def IsBelow (tree : ScopeTree) : ScopeId → ScopeId → Prop :=
  Relation.TransGen (fun inner outer => tree.parentOf? inner = some outer)

/-- The scopes form one tree, numbered depth first. -/
structure IsDepthFirst (tree : ScopeTree) : Prop where
  /-- Asking for an identity gives the scope of that identity. -/
  placed : ∀ id scope, tree.scopeAt? id = some scope → scope.id = id
  /-- The root is the global scope, which is dynamic and holds just the script or the module. -/
  root : ∃ root child, tree.root? = some root ∧ root.parent = none ∧ root.kind = .global ∧
    root.dynamic = true ∧ root.children = [child.id] ∧ tree.scopeAt? child.id = some child ∧
    (child.kind = .script ∨ child.kind = .module)
  orphan : ∀ id scope, tree.scopeAt? id = some scope → scope.parent = none → id = ScopeId.root
  parent_iff : ∀ id outer, tree.parentOf? id = some outer ↔
    ∃ scope, tree.scopeAt? outer = some scope ∧ id ∈ scope.children
  sorted : ∀ id scope, tree.scopeAt? id = some scope →
    scope.children.Pairwise (fun first second => first.index < second.index)
  above : ∀ id outer, tree.parentOf? id = some outer → outer.index < id.index
  /-- What is below a scope stands right behind it. -/
  below : ∀ id scope, tree.scopeAt? id = some scope →
    ∃ n, ∀ inner, tree.IsBelow inner id ↔ id.index < inner.index ∧ inner.index ≤ id.index + n
  /-- Asking for the children of a scope gives the scopes of those identities. -/
  children : ∀ id scope, tree.scopeAt? id = some scope →
    ∃ inner, tree.children? id = some inner ∧ inner.map Scope.id = scope.children

/-- Scopes that are all there are found one by one. -/
theorem mapM_scopeAt? {tree : ScopeTree} {ids : List ScopeId}
    (placed : ∀ id scope, tree.scopeAt? id = some scope → scope.id = id)
    (there : ∀ id ∈ ids, ∃ scope, tree.scopeAt? id = some scope) :
    ∃ scopes, ids.mapM tree.scopeAt? = some scopes ∧ scopes.map Scope.id = ids := by
  induction ids with
  | nil => exact ⟨[], rfl, rfl⟩
  | cons id rest ih =>
    obtain ⟨scope, found⟩ := there id (by simp)
    obtain ⟨scopes, all, same⟩ := ih (fun other member => there other (by simp [member]))
    exact ⟨scope :: scopes, by simp [found, all], by simp [placed id scope found, same]⟩

end ScopeTree

namespace Resolution

namespace Forest

variable {links : Nat → Option Links} {parent : Option ScopeId} {lo hi : Nat} {ids : List ScopeId}

theorem bounds (forest : Forest links parent lo ids hi) :
    ∀ id ∈ ids, lo ≤ id.index ∧ id.index < hi := by
  induction forest with
  | nil => simp
  | cons found inner outer ihInner ihOuter =>
    have up := inner.le
    have further := outer.le
    intro id member
    rcases List.mem_cons.1 member with rfl | beside
    · exact ⟨Nat.le_refl _, Nat.lt_of_lt_of_le up further⟩
    · have := ihOuter id beside
      omega

theorem sorted (forest : Forest links parent lo ids hi) :
    ids.Pairwise (fun first second => first.index < second.index) := by
  induction forest with
  | nil => exact .nil
  | cons found inner outer ihInner ihOuter =>
    refine .cons (fun id beside => ?_) ihOuter
    exact Nat.lt_of_lt_of_le inner.le (outer.bounds id beside).1

theorem linked (forest : Forest links parent lo ids hi) :
    ∀ id ∈ ids, ∃ below, links id.index = some ⟨parent, below⟩ := by
  induction forest with
  | nil => simp
  | cons found inner outer ihInner ihOuter =>
    intro id member
    rcases List.mem_cons.1 member with rfl | beside
    · exact ⟨_, found⟩
    · exact ihOuter id beside

/-- Behind every position of a forest stands the forest of its own children. -/
theorem inside (forest : Forest links parent lo ids hi) {i : Nat} (lower : lo ≤ i)
    (upper : i < hi) : ∃ outer below mid, links i = some ⟨outer, below⟩ ∧ mid ≤ hi ∧
      Forest links (some ⟨i⟩) (i + 1) below mid := by
  induction forest with
  | nil => omega
  | @cons parent lo mid hi below beside found inner outer ihInner ihOuter =>
    have further := outer.le
    by_cases here : i = lo
    · subst here
      exact ⟨parent, below, mid, found, further, inner⟩
    · by_cases early : i < mid
      · obtain ⟨outer', below', mid', there, le, forest⟩ := ihInner (by omega) early
        exact ⟨outer', below', mid', there, by omega, forest⟩
      · exact ihOuter (by omega) upper

/-- Every position of a forest is a root or a child. -/
theorem mem_or_child (forest : Forest links parent lo ids hi) {i : Nat} (lower : lo ≤ i)
    (upper : i < hi) :
    ⟨i⟩ ∈ ids ∨ ∃ j outer below, links j = some ⟨outer, below⟩ ∧ ⟨i⟩ ∈ below := by
  induction forest with
  | nil => omega
  | @cons parent lo mid hi below beside found inner outer ihInner ihOuter =>
    by_cases here : i = lo
    · exact .inl (by simp [here])
    · by_cases early : i < mid
      · rcases ihInner (by omega) early with child | deeper
        · exact .inr ⟨lo, parent, below, found, child⟩
        · exact .inr deeper
      · exact (ihOuter (by omega) upper).imp_left (List.mem_cons_of_mem _)

/-- From every position of a forest a way leads up to one of its roots. -/
theorem climbs (forest : Forest links parent lo ids hi) {i : Nat} (lower : lo ≤ i)
    (upper : i < hi) : ∃ id ∈ ids, Relation.ReflTransGen
      (fun inner outer : ScopeId => (links inner.index).bind Links.parent = some outer) ⟨i⟩ id := by
  induction forest with
  | nil => omega
  | @cons parent lo mid hi below beside found inner outer ihInner ihOuter =>
    by_cases here : i = lo
    · exact ⟨⟨lo⟩, List.mem_cons_self, by rw [here]⟩
    · by_cases early : i < mid
      · obtain ⟨id, child, up⟩ := ihInner (by omega) early
        obtain ⟨deeper, there⟩ := inner.linked id child
        exact ⟨⟨lo⟩, List.mem_cons_self, up.tail (by rw [there]; rfl)⟩
      · obtain ⟨id, root, up⟩ := ihOuter (by omega) upper
        exact ⟨id, List.mem_cons_of_mem _ root, up⟩

end Forest

namespace State

theorem parentOf?_tree (s : State) (id : ScopeId) :
    s.tree.parentOf? id = (s.linksAt id.index).bind Links.parent := by
  have there : s.tree.scopeAt? id = s.scopes[id.index]? := rfl
  rw [ScopeTree.parentOf?, there, linksAt]
  cases s.scopes[id.index]? <;> rfl

theorem linksAt_eq_of_scopeAt? {s : State} {id : ScopeId} {scope : Scope}
    (found : s.tree.scopeAt? id = some scope) :
    s.linksAt id.index = some ⟨scope.parent, scope.children⟩ :=
  congrArg (Option.map Scope.links) found

theorem exists_of_linksAt {s : State} {i : Nat} {parent : Option ScopeId}
    {below : List ScopeId} (found : s.linksAt i = some ⟨parent, below⟩) :
    ∃ scope, s.tree.scopeAt? ⟨i⟩ = some scope ∧ scope.parent = parent ∧ scope.children = below := by
  obtain ⟨scope, there, eq⟩ := Option.map_eq_some_iff.1 found
  cases eq
  exact ⟨scope, there, rfl, rfl⟩

theorem index_lt_of_scopeAt? {s : State} {id : ScopeId} {scope : Scope}
    (found : s.tree.scopeAt? id = some scope) : id.index < s.scopes.size :=
  (Array.getElem?_eq_some_iff.1 found).1

section

variable {s : State} (forest : Forest s.linksAt none 0 [ScopeId.root] s.scopes.size)

include forest

/-- The children of a scope are the roots of the forest behind it. -/
theorem forest_of_scopeAt? {id : ScopeId} {scope : Scope}
    (found : s.tree.scopeAt? id = some scope) :
    ∃ mid, Forest s.linksAt (some id) (id.index + 1) scope.children mid := by
  obtain ⟨outer, below, mid, there, _, inner⟩ :=
    forest.inside (Nat.zero_le _) (index_lt_of_scopeAt? found)
  rw [linksAt_eq_of_scopeAt? found] at there
  cases there
  exact ⟨mid, inner⟩

theorem parent_eq_of_mem_children {id child : ScopeId} {scope : Scope}
    (found : s.tree.scopeAt? id = some scope) (member : child ∈ scope.children) :
    s.tree.parentOf? child = some id := by
  obtain ⟨mid, inner⟩ := forest_of_scopeAt? forest found
  obtain ⟨below, there⟩ := inner.linked child member
  rw [parentOf?_tree, there]
  rfl

/-- A scope other than the root is a child of another one. -/
theorem eq_root_or_child {id : ScopeId} {scope : Scope} (found : s.tree.scopeAt? id = some scope) :
    id = ScopeId.root ∨
      ∃ outer around, s.tree.scopeAt? outer = some around ∧ id ∈ around.children := by
  rcases forest.mem_or_child (Nat.zero_le _) (index_lt_of_scopeAt? found) with root | child
  · exact .inl (List.mem_singleton.1 root)
  · obtain ⟨j, outer, below, there, member⟩ := child
    obtain ⟨around, foundAround, _, rfl⟩ := exists_of_linksAt there
    exact .inr ⟨⟨j⟩, around, foundAround, member⟩

theorem parentOf?_eq_some_iff (id outer : ScopeId) : s.tree.parentOf? id = some outer ↔
    ∃ around, s.tree.scopeAt? outer = some around ∧ id ∈ around.children := by
  constructor
  · intro up
    obtain ⟨scope, found, parent⟩ := Option.bind_eq_some_iff.1 up
    rcases eq_root_or_child forest found with rfl | ⟨outer', around, foundAround, member⟩
    · obtain ⟨below, there⟩ := forest.linked ScopeId.root (List.mem_singleton_self _)
      rw [linksAt_eq_of_scopeAt? found, parent] at there
      cases there
    · have up' := parent_eq_of_mem_children forest foundAround member
      rw [up] at up'
      cases up'
      exact ⟨around, foundAround, member⟩
  · rintro ⟨around, found, member⟩
    exact parent_eq_of_mem_children forest found member

/-- The forest behind a scope holds just what is below the scope. -/
theorem isBelow_iff {id : ScopeId} {scope : Scope} {mid : Nat}
    (inner : Forest s.linksAt (some id) (id.index + 1) scope.children mid)
    (found : s.tree.scopeAt? id = some scope) (d : ScopeId) :
    s.tree.IsBelow d id ↔ id.index < d.index ∧ d.index < mid := by
  constructor
  · -- A child of a scope in the forest is in the forest.
    intro below
    induction below using Relation.TransGen.head_induction_on with
    | single up =>
      obtain ⟨around, there, member⟩ := (parentOf?_eq_some_iff forest _ _).1 up
      rw [found] at there
      cases there
      exact inner.bounds _ member
    | head up _ ih =>
      obtain ⟨around, there, member⟩ := (parentOf?_eq_some_iff forest _ _).1 up
      obtain ⟨outer, below, mid', links, le', deeper⟩ := inner.inside ih.1 ih.2
      rw [linksAt_eq_of_scopeAt? there] at links
      cases links
      have := deeper.bounds _ member
      omega
  · rintro ⟨above, upper⟩
    obtain ⟨child, member, up⟩ := inner.climbs above upper
    have top := parent_eq_of_mem_children forest found member
    simp only [← parentOf?_tree] at up
    exact .tail' up top

end

/-- Where all scopes are in depth-first order below a dynamic global scope with one child, the tree
is as it should be. -/
theorem Coherent.isDepthFirst {s : State} (coherent : s.Coherent)
    (forest : Forest s.linksAt none 0 [ScopeId.root] s.scopes.size)
    {root child : Scope} (found : s.tree.root? = some root) (kind : root.kind = .global)
    (dynamic : root.dynamic = true) (only : root.children = [⟨1⟩])
    (foundChild : s.tree.scopeAt? ⟨1⟩ = some child)
    (kindChild : child.kind = .script ∨ child.kind = .module) : s.tree.IsDepthFirst := by
  have placed (id : ScopeId) (scope : Scope) (there : s.tree.scopeAt? id = some scope) :
      scope.id = id := coherent.placed id.index scope there
  refine ⟨placed, ⟨root, child, found, ?_, kind, dynamic, ?_, ?_, kindChild⟩, ?_,
    parentOf?_eq_some_iff forest, ?_, ?_, ?_, ?_⟩
  · obtain ⟨below, there⟩ := forest.linked ScopeId.root (List.mem_singleton_self _)
    have atRoot : s.tree.scopeAt? ScopeId.root = some root := found
    rw [linksAt_eq_of_scopeAt? atRoot, Option.some.injEq, Links.mk.injEq] at there
    exact there.1
  · rw [placed ⟨1⟩ child foundChild, only]
  · rw [placed ⟨1⟩ child foundChild, foundChild]
  · intro id scope there orphan
    rcases eq_root_or_child forest there with root | ⟨outer, around, foundAround, member⟩
    · exact root
    · have up := parent_eq_of_mem_children forest foundAround member
      rw [ScopeTree.parentOf?, there, Option.bind_some, orphan] at up
      cases up
  · intro id scope there
    obtain ⟨mid, inner⟩ := forest_of_scopeAt? forest there
    exact inner.sorted
  · intro id outer up
    obtain ⟨around, there, member⟩ := (parentOf?_eq_some_iff forest _ _).1 up
    obtain ⟨mid, inner⟩ := forest_of_scopeAt? forest there
    exact (inner.bounds id member).1
  · intro id scope there
    obtain ⟨mid, inner⟩ := forest_of_scopeAt? forest there
    have behind := inner.le
    refine ⟨mid - (id.index + 1), fun d => ?_⟩
    rw [isBelow_iff forest inner there d]
    omega
  · intro id scope there
    obtain ⟨mid, inner⟩ := forest_of_scopeAt? forest there
    have found (c : ScopeId) (member : c ∈ scope.children) :
        ∃ a, s.tree.scopeAt? c = some a := by
      obtain ⟨below, links⟩ := inner.linked c member
      obtain ⟨a, foundA, _⟩ := exists_of_linksAt links
      exact ⟨a, foundA⟩
    obtain ⟨scopes, all, same⟩ := ScopeTree.mapM_scopeAt? placed found
    exact ⟨scopes, by simp [ScopeTree.children?, there, all], same⟩

/-- A scope inside the outermost one is its only child. -/
theorem isDepthFirst_layOut_initial (events : Array Event) (node : Node)
    (arguments : Option Name) (decls : List Declaration) {kind : ScopeKind} (node' : Node)
    (arguments' : Option Name) (decls' : List Declaration) (inner : List Layout)
    (own : kind = .script ∨ kind = .module) :
    ((initial events).layOut (.scope .global node arguments decls
      [.scope kind node' arguments' decls' inner])).tree.IsDepthFirst := by
  have coherent := Coherent.initial events
  have can : (initial events).CanEnter := fun _ => rfl
  have opened := coherent.openWith can .global node arguments decls
  have still : ((initial events).openWith .global node arguments decls).openScopes ≠ [] := by
    simp [openWith]
  have size : ((initial events).openWith .global node arguments decls).scopes.size = 1 :=
    size_openWith (.initial events) .global node arguments decls
  have links := linksAt_layOut_initial events .global node arguments decls
    [.scope kind node' arguments' decls' inner]
    (Branches.layOut_scope opened still kind node' arguments' decls' inner)
  obtain ⟨root, _, found, kindRoot, dynamic, _⟩ := exists_layOut_scope coherent can .global node
    arguments decls [.scope kind node' arguments' decls' inner]
  obtain ⟨child, _, foundChild, kindChild, _⟩ := exists_layOut_scope opened
    (fun empty => absurd empty still) kind node' arguments' decls' inner
  rw [size] at links foundChild
  obtain ⟨root', found', _, only⟩ := exists_of_linksAt links
  have same : root' = root := Option.some.inj (found'.symm.trans found)
  have inside : ((initial events).layOut (.scope .global node arguments decls
      [.scope kind node' arguments' decls' inner])).scopes[1]? = some child := by
    rw [layOut, scopes_leave]
    exact foundChild
  exact (coherent_layOut_initial ..).isDepthFirst (forest_layOut_initial ..) found kindRoot
    (dynamic rfl) (same ▸ only) inside (kindChild ▸ own)

end State

end Resolution

open Resolution in
/-- The walk over the outline of a program is completed in a state. -/
def NumberedProgram.EndsIn (options : Options) (p : NumberedProgram) (names : Interner)
    (state : State) : Prop :=
  ∃ outline names', (p.outline (SpecialNames.intern names).1).run (SpecialNames.intern names).2 =
      (.ok outline, names') ∧
    (Walk.program ⟨options, (SpecialNames.intern names).1.arguments⟩ outline).run
      (.initial #[.start p.isModule p.node.id]) = (.ok (), state)

open Resolution in
theorem isDepthFirst_tree {options : Options} {p : NumberedProgram} {names names' : Interner}
    {a : Analysis} (analyzed : p.analyze options names = (.ok a, names')) :
    a.tree.IsDepthFirst := by
  obtain ⟨outline, decls, inner, _, completed, tree⟩ := analyze_layOut analyzed
  obtain ⟨_, own, scopes, same⟩ := Course.ofProgram_eq_ok completed
  cases same
  rw [tree]
  refine State.isDepthFirst_layOut_initial _ _ _ _ _ _ _ _ ?_
  cases outline.isModule <;> simp

open Resolution in
/-- Finishing lists every scope that the walk over an analyzed program has opened, once and at the
position of its identity, and the scopes form one tree that is numbered depth first. -/
theorem isDepthFirst_of_analyze {options : Options} {p : NumberedProgram}
    {names names' : Interner} {a : Analysis}
    (analyzed : p.analyze options names = (.ok a, names')) :
    (∃ state : State, p.EndsIn options names state ∧ a.tree = state.finish ∧
      state.finish.scopes = state.scopes) ∧ a.tree.IsDepthFirst := by
  obtain ⟨outline, parts, state, folded, completed, walked, ends, tree⟩ := analyze_walked analyzed
  obtain ⟨decls, own, inner, rfl⟩ := Course.ofProgram_eq_ok completed
  have finished : state.finish = (state.withStrict false).tree := by
    change (state.withStrict false).finish = _
    rw [ends]
    exact State.finish_eq_tree (State.forest_layOut_initial _ _ _ _ _ _)
  refine ⟨⟨state, ⟨outline, names', folded, walked⟩, tree, by rw [finished]; rfl⟩, ?_⟩
  rw [tree, finished, ends]
  refine State.isDepthFirst_layOut_initial _ _ _ _ _ _ _ _ ?_
  cases outline.isModule <;> simp

/-- `{ { let a; } f(a); } function g() { eval(x); }`, with scopes inside and beside each other. -/
def nestedBlocks : NumberedProgram × Workbench :=
  let id (name : String) : Ident Span String := ⟨.none, name⟩
  Draft.number (.script .none []
    [.block .none [.block .none
        [.decl .none .none .let_ [.mk .none .nameFirst (.ident (id "a")) none]],
      .expr .none (.call .none (.ident (id "f")) [.ident (id "a")])],
    .function (.mk .none (some (id "g")) .none (.mk (some .none) [] none)
      (.block .none [] [.expr .none (.call .none (.ident (id "eval")) [.ident (id "x")])]))])
    .empty

theorem nestedBlocks_isDepthFirst :
    ∃ a names', nestedBlocks.1.analyze .default nestedBlocks.2.names = (.ok a, names') ∧
      (∃ state : Resolution.State, nestedBlocks.1.EndsIn .default nestedBlocks.2.names state ∧
        a.tree = state.finish ∧ state.finish.scopes = state.scopes) ∧ a.tree.IsDepthFirst := by
  have completed : (nestedBlocks.1.analyze .default nestedBlocks.2.names).1.isOk = true := by
    decide +kernel
  obtain ⟨a, names', analyzed⟩ := Resolution.exists_of_isOk completed
  exact ⟨a, names', analyzed, isDepthFirst_of_analyze analyzed⟩

end ScopeAnalysis
