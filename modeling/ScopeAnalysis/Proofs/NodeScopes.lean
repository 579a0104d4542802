import ScopeAnalysis.Proofs.Building
import ScopeAnalysis.Proofs.Grammar.Stacks
import ScopeAnalysis.Proofs.ParameterScopes
import ScopeAnalysis.Proofs.Skeleton

/-!
# The scopes of one node

Asking for the scopes of a node gives a chain from the outside to the inside, of three scopes at
most. There is more than one only for the node of the program, whose global scope holds the one for
the script or module, and for the node of a function.
-/

namespace ScopeAnalysis

theorem Places.length_lt_of_mem_stack {node : Node} {kinds : List ScopeKind} {around place : Place}
    (member : place ∈ stack node around kinds) : around.length < place.length := by
  induction kinds generalizing around with
  | nil => cases member
  | cons kind rest ih =>
    rcases List.mem_cons.1 member with rfl | deeper
    · exact Nat.lt_succ_self _
    · exact Nat.lt_of_succ_lt (ih deeper)

namespace ScopeTree

/-- A scope of a tree at its place. -/
structure HoldsAt (tree : ScopeTree) (place : Place) (scope : Scope) : Prop where
  found : tree.scopeAt? scope.id = some scope
  lies : tree.LiesAt (some scope.id) place

/-- The scopes that a node opened: no more than three, each the parent of the next. If there is more
than one, they are the two of the program itself or those of a function. -/
structure ChainsScopesOf (tree : ScopeTree) (p : NumberedProgram) (n : NodeId) : Prop where
  few : (tree.scopesOpenedBy n).length ≤ 3
  nested : (tree.scopesOpenedBy n).IsChain (fun outer inner => inner.parent = some outer.id)
  kinds : 1 < (tree.scopesOpenedBy n).length → ∃ node, node.id = n ∧
    (node = p.node ∧ (tree.scopesOpenedBy n).map Scope.kind = [.global, p.innerKind] ∨
      Piece.FunctionScopes p.pieces node ((tree.scopesOpenedBy n).map Scope.kind))

variable {tree : ScopeTree} {place : Place} {scope : Scope}

/-- A scope has one place. -/
theorem LiesAt.unique {id : Option ScopeId} {place place' : Place} (lies : tree.LiesAt id place)
    (lies' : tree.LiesAt id place') : place = place' := by
  induction lies generalizing place' with
  | outside =>
    cases lies'
    rfl
  | inside found _ ih =>
    cases lies' with
    | inside found' outer' =>
      cases found.symm.trans found'
      rw [ih outer']

theorem HoldsAt.isAt_eq (holds : tree.HoldsAt place scope) (n : NodeId) :
    Places.isAt n place = decide (scope.node.id = n) := by
  obtain ⟨found, lies⟩ := holds
  cases lies with
  | inside found' _ =>
    cases found.symm.trans found'
    rfl

/-- What a scope lies in is held by the tree as well. -/
theorem HoldsAt.outer {kind kind' : ScopeKind} {node node' : Node} {around : Place}
    (holds : tree.HoldsAt ((kind', node') :: (kind, node) :: around) scope)
    (placed : ∀ id scope, tree.scopeAt? id = some scope → scope.id = id) :
    ∃ outer, scope.parent = some outer.id ∧ tree.HoldsAt ((kind, node) :: around) outer := by
  obtain ⟨found, lies⟩ := holds
  generalize same : (kind', node') :: (kind, node) :: around = place at lies
  cases lies with
  | inside found' lies' =>
    cases found.symm.trans found'
    cases same
    generalize parent : scope.parent = id at lies'
    cases lies' with
    | @inside id outer _ there further =>
      obtain rfl := placed id outer there
      exact ⟨outer, rfl, there, .inside there further⟩

/-- The scopes of a stack are nested if the tree holds no others at its places. -/
theorem isChain_of_holdsAt (placed : ∀ id scope, tree.scopeAt? id = some scope → scope.id = id)
    {node : Node} {kinds : List ScopeKind} {around : Place} {scopes : List Scope}
    (each : List.Forall₂ tree.HoldsAt (Places.stack node around kinds) scopes)
    (all : ∀ place ∈ Places.stack node around kinds, ∀ scope, tree.HoldsAt place scope →
      scope ∈ scopes) :
    scopes.map Scope.kind = kinds ∧
      scopes.IsChain (fun outer inner => inner.parent = some outer.id) := by
  induction kinds generalizing around scopes with
  | nil =>
    cases each
    exact ⟨rfl, .nil⟩
  | cons kind rest ih =>
    obtain _ | @⟨_, scope, _, inner, here, further⟩ := each
    -- The first scope has the shortest place, so none of the others lies there.
    have apart : ∀ place ∈ Places.stack node ((kind, node) :: around) rest,
        place ≠ (kind, node) :: around := by
      rintro place member rfl
      exact Nat.lt_irrefl _ (Places.length_lt_of_mem_stack member)
    have only : ∀ other, tree.HoldsAt ((kind, node) :: around) other → other = scope := by
      intro other there
      rcases List.mem_cons.1 (all _ List.mem_cons_self other there) with same | later
      · exact same
      · obtain ⟨place, member, holds⟩ := exists_of_forall₂_of_mem further later
        exact absurd (holds.lies.unique there.lies) (apart place member)
    have later : ∀ place ∈ Places.stack node ((kind, node) :: around) rest, ∀ other,
        tree.HoldsAt place other → other ∈ inner := by
      intro place member other there
      have first_or_later := List.mem_cons.1 (all place (List.mem_cons_of_mem _ member) other there)
      refine first_or_later.resolve_left ?_
      rintro rfl
      exact apart place member (there.lies.unique here.lies)
    obtain ⟨kinds, chain⟩ := ih further later
    have own : scope.kind = kind := by
      have head := here.lies.head here.found
      cases head
      rfl
    refine ⟨by rw [List.map_cons, kinds, own], ?_⟩
    cases rest with
    | nil =>
      cases further
      exact .singleton _
    | cons kind' rest =>
      obtain _ | @⟨_, scope', _, more, next, _⟩ := further
      obtain ⟨outer, parent, there⟩ := next.outer placed
      rw [only outer there] at parent
      exact .cons_cons parent chain

theorem scopeAt?_of_mem (placed : ∀ id scope, tree.scopeAt? id = some scope → scope.id = id)
    (member : scope ∈ tree.scopes.toList) : tree.scopeAt? scope.id = some scope := by
  obtain ⟨i, below, rfl⟩ := List.getElem_of_mem member
  have there : tree.scopeAt? ⟨i⟩ = some tree.scopes.toList[i] := by simp [scopeAt?]
  rwa [placed _ _ there]

/-- The scopes of a tree are listed by their numbers. -/
theorem pairwise_scopes (placed : ∀ id scope, tree.scopeAt? id = some scope → scope.id = id) :
    tree.scopes.toList.Pairwise (fun first second => first.id.index < second.id.index) := by
  have position (i : Nat) (below : i < tree.scopes.toList.length) :
      tree.scopes.toList[i].id.index = i :=
    congrArg ScopeId.index (placed ⟨i⟩ _ (by simp [scopeAt?]))
  refine List.pairwise_iff_getElem.2 (fun i j below below' before => ?_)
  rwa [position, position]

/-- Scopes that are each the parent of the next are listed by their numbers. -/
theorem pairwise_of_isChain (deep : tree.IsDepthFirst) {scopes : List Scope}
    (found : ∀ scope ∈ scopes, tree.scopeAt? scope.id = some scope)
    (chain : scopes.IsChain (fun outer inner => inner.parent = some outer.id)) :
    scopes.Pairwise (fun first second => first.id.index < second.id.index) := by
  have transitive : Trans (fun first second : Scope => first.id.index < second.id.index)
      (fun first second : Scope => first.id.index < second.id.index)
      (fun first second : Scope => first.id.index < second.id.index) := ⟨Nat.lt_trans⟩
  refine List.IsChain.pairwise (chain.imp_of_mem_imp (fun outer inner _ member parent => ?_))
  refine deep.above inner.id outer.id ?_
  rw [parentOf?, found inner member]
  exact parent

/-- If the scopes of a tree lie at places of which those at one number are a stack, the scopes of
this number are nested. -/
theorem scopesOpenedBy_of_stack (deep : tree.IsDepthFirst) {places : List Place}
    {scopes : List Scope} (each : List.Forall₂ tree.HoldsAt places scopes)
    (perm : scopes.Perm tree.scopes.toList) {n : NodeId} {node : Node} {around : Place}
    {kinds : List ScopeKind}
    (stack : places.filter (Places.isAt n) = Places.stack node around kinds) :
    (tree.scopesOpenedBy n).map Scope.kind = kinds ∧ (tree.scopesOpenedBy n).IsChain
      (fun outer inner => inner.parent = some outer.id) := by
  have found : ∀ scope ∈ scopes, tree.scopeAt? scope.id = some scope := by
    intro scope member
    obtain ⟨_, _, holds⟩ := exists_of_forall₂_of_mem each member
    exact holds.found
  have here := List.rel_filter (p := Places.isAt n) (q := fun scope => scope.node.id = n)
    (fun place scope holds => by simp [holds.isAt_eq n]) each
  rw [stack] at here
  have all : ∀ place ∈ Places.stack node around kinds, ∀ scope, tree.HoldsAt place scope →
      scope ∈ scopes.filter (fun scope => scope.node.id = n) := by
    intro place member scope holds
    rw [← stack, List.mem_filter, holds.isAt_eq n] at member
    refine List.mem_filter.2 ⟨perm.mem_iff.2 ?_, member.2⟩
    exact Array.mem_toList_iff.2 (Array.mem_of_getElem? holds.found)
  obtain ⟨same, chain⟩ := isChain_of_holdsAt deep.placed here all
  have sorted := pairwise_of_isChain deep
    (fun scope member => found scope (List.mem_of_mem_filter member)) chain
  have order : scopes.filter (fun scope => scope.node.id = n) = tree.scopesOpenedBy n :=
    List.Perm.eq_of_pairwise (fun _ _ _ _ before after => absurd before (Nat.lt_asymm after))
      sorted ((pairwise_scopes deep.placed).filter _) (perm.filter _)
  exact order ▸ ⟨same, chain⟩

end ScopeTree

open Resolution in
/-- The scopes of an analyzed program are one by one at its places. -/
theorem exists_forall₂_holdsAt_of_analyze {options : Options} {p : NumberedProgram}
    {names names' : Interner} {a : Analysis}
    (analyzed : p.analyze options names = (.ok a, names')) :
    ∃ scopes, List.Forall₂ a.tree.HoldsAt p.places scopes ∧
      scopes.Perm a.tree.scopes.toList := by
  obtain ⟨outline, decls, inner, folded, completed, tree⟩ := analyze_layOut analyzed
  have nests := Folding.returns_outline p _ outline (congrArg Prod.fst folded)
    ⟨options, (SpecialNames.intern names).1.arguments⟩
  rw [completed] at nests
  have places := (nests rfl).1 []
  rw [Layout.placesAll, Layout.placesAll, List.append_nil] at places
  have lie : List.Forall₂ (fun place (scope : Scope) => a.tree.LiesAt (some scope.id) place)
      (Layout.places [] (.scope .global outline.node none decls inner)) a.tree.scopes.toList := by
    rw [tree]
    exact State.forall₂_liesAt_initial _ .global outline.node none decls inner
  obtain ⟨scopes, each, perm⟩ := List.perm_comp_forall₂ places.symm lie
  obtain ⟨length, lies⟩ := List.forall₂_iff_get.1 each
  refine ⟨scopes, List.forall₂_iff_get.2 ⟨length, fun i below below' => ⟨?_, lies i below below'⟩⟩,
    perm⟩
  exact ScopeTree.scopeAt?_of_mem (isDepthFirst_tree analyzed).placed
    (perm.mem_iff.1 (List.get_mem _ _))

/-- The scopes that one node of a program opened are nested, if no two of its nodes have the same
number. This is so for whatever is built, in any order and wherever the program stands among those
that were built with it, as long as the numbers last (`Build.nodup_ids_number`). -/
theorem chainsScopesOf_of_analyze {p : NumberedProgram} (apart : (p.nodes.map Node.id).Nodup)
    {options : Options} {names names' : Interner} {a : Analysis}
    (analyzed : p.analyze options names = (.ok a, names')) (n : NodeId) :
    a.tree.ChainsScopesOf p n := by
  obtain ⟨scopes, each, perm⟩ := exists_forall₂_holdsAt_of_analyze analyzed
  obtain ⟨node, around, kinds, stack, form⟩ := NumberedProgram.filter_places apart n
  obtain ⟨same, nested⟩ :=
    ScopeTree.scopesOpenedBy_of_stack (isDepthFirst_tree analyzed) each perm stack
  have length : (a.tree.scopesOpenedBy n).length = kinds.length := by rw [← same, List.length_map]
  refine ⟨?_, nested, fun several => ?_⟩
  · rw [length]
    rcases form with one | ⟨_, rfl⟩ | ofFunction
    · omega
    · exact Nat.le_succ 2
    · exact ofFunction.length_le
  · rw [length] at several
    rw [same]
    refine ⟨node, Places.id_eq_of_filter stack (by rintro rfl; cases several), ?_⟩
    exact form.resolve_left (Nat.not_le.2 several)

/-- `if (p) function f(x = y) {}`, whose function is in a block of its own and has a scope for its
parameters. The function is built before the condition. -/
def lateCondition : Build where
  calls := [.node .none, .name "x", .node .none, .name "y", .node .none, .node .none, .node .none,
    .node .none, .node .none, .name "f", .node .none, .name "p", .node .none, .node .none]
  tree := .script ⟨9, by decide⟩ [] [.ifThen ⟨8, by decide⟩
    (.ident ⟨⟨7, by decide⟩, "p", by decide⟩)
    (.function (.mk ⟨5, by decide⟩ (some ⟨⟨6, by decide⟩, "f", by decide⟩) .none
      (.mk (some ⟨3, by decide⟩) [.mk ⟨2, by decide⟩ .nameFirst
        (.ident ⟨⟨0, by decide⟩, "x", by decide⟩)
        (some (.ident ⟨⟨1, by decide⟩, "y", by decide⟩))] none)
      (.block ⟨4, by decide⟩ [] [])))]
  once := by decide +kernel

/-- The program is built twice, and the second one is analyzed. -/
theorem lateCondition_chainsScopesOf :
    let second := lateCondition.number (lateCondition.number .empty).2
    ∃ a names', second.1.analyze .default second.2.names = (.ok a, names') ∧
      (∀ n, a.tree.ChainsScopesOf second.1 n) ∧
      (a.tree.scopesOpenedBy ⟨15⟩).map Scope.kind = [.block, .parameters, .function] := by
  intro second
  have apart : (second.1.nodes.map Node.id).Nodup :=
    lateCondition.nodup_ids_number _ (by decide +kernel)
  have completed : (second.1.analyze .default second.2.names).1.isOk = true := by decide +kernel
  obtain ⟨a, names', analyzed⟩ := Resolution.exists_of_isOk completed
  have kinds : (second.1.analyze .default second.2.names).1.toOption.map
      (fun a => (a.tree.scopesOpenedBy ⟨15⟩).map Scope.kind) =
        some [.block, .parameters, .function] := by decide +kernel
  rw [analyzed] at kinds
  exact ⟨a, names', analyzed, chainsScopesOf_of_analyze apart analyzed, Option.some.inj kinds⟩

end ScopeAnalysis
