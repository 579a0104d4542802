import ScopeAnalysis.Proofs.Preorder
import ScopeAnalysis.Proofs.Realisation
import ScopeAnalysis.ScopeTree.Query

/-!
# Trees built from layouts

The tree of an analyzed program follows its layout: each scope of the layout is one scope of the
tree, furnished as it says, and the scopes directly inside it are its children, in order.
-/

namespace ScopeAnalysis

open Resolution

/-- Scopes of a tree inside a given one were built from layouts. First come those directly inside
it, then all of them, each in front of what is below it. -/
inductive ScopeTree.Follows (arguments : Name) (tree : ScopeTree) :
    Option ScopeId → List Layout → List ScopeId → List Scope → Prop
  | nil (outer : Option ScopeId) : Follows arguments tree outer [] [] []
  | flat {outer : Option ScopeId} {l : Layout} {rest : List Layout} {ids : List ScopeId}
      {scopes : List Scope} (bare : l.openings = [])
      (further : Follows arguments tree outer rest ids scopes) :
      Follows arguments tree outer (l :: rest) ids scopes
  | scope {outer : Option ScopeId} {kind : ScopeKind} {node : Node} {own : Option Name}
      {decls : List Declaration} {inner rest : List Layout} {ids : List ScopeId} {scope : Scope}
      {below beside : List Scope} (found : tree.scopeAt? scope.id = some scope)
      (filled : Opening.IsFilled arguments ⟨kind, node, own.isSome, decls⟩ tree scope)
      (parent : scope.parent = outer)
      (inside : Follows arguments tree (some scope.id) inner scope.children below)
      (further : Follows arguments tree outer rest ids beside) :
      Follows arguments tree outer (.scope kind node own decls inner :: rest) (scope.id :: ids)
        (scope :: (below ++ beside))

namespace ScopeTree.Follows

variable {arguments : Name} {tree : ScopeTree} {outer : Option ScopeId} {ls ms : List Layout}
  {ids : List ScopeId} {scopes : List Scope}

/-- Layouts one after the other. -/
theorem exists_of_append (follows : tree.Follows arguments outer (ls ++ ms) ids scopes) :
    ∃ ids₁ ids₂ scopes₁ scopes₂, ids = ids₁ ++ ids₂ ∧ scopes = scopes₁ ++ scopes₂ ∧
      tree.Follows arguments outer ls ids₁ scopes₁ ∧
      tree.Follows arguments outer ms ids₂ scopes₂ := by
  induction ls generalizing ids scopes with
  | nil => exact ⟨[], ids, [], scopes, rfl, rfl, .nil outer, follows⟩
  | cons l rest ih =>
    cases follows with
    | flat bare further =>
      obtain ⟨ids₁, ids₂, scopes₁, scopes₂, rfl, rfl, first, second⟩ := ih further
      exact ⟨ids₁, ids₂, scopes₁, scopes₂, rfl, rfl, .flat bare first, second⟩
    | scope found filled parent inside further =>
      obtain ⟨ids₁, ids₂, scopes₁, scopes₂, rfl, rfl, first, second⟩ := ih further
      exact ⟨_ :: ids₁, ids₂, _, scopes₂, rfl, by simp,
        .scope found filled parent inside first, second⟩

/-- Layouts without scopes build nothing. -/
theorem eq_nil (follows : tree.Follows arguments outer ls ids scopes)
    (bare : Layout.openingsAll ls = []) : ids = [] ∧ scopes = [] := by
  induction follows with
  | nil => exact ⟨rfl, rfl⟩
  | flat none further ih =>
    rw [Layout.openingsAll, none] at bare
    exact ih bare
  | scope => simp [Layout.openingsAll, Layout.openings] at bare

/-- A single scope. -/
theorem exists_of_singleton {kind : ScopeKind} {node : Node} {own : Option Name}
    {decls : List Declaration} {inner : List Layout}
    (follows : tree.Follows arguments outer [.scope kind node own decls inner] ids scopes) :
    ∃ scope below, ids = [scope.id] ∧ scopes = scope :: below ∧
      tree.scopeAt? scope.id = some scope ∧
      Opening.IsFilled arguments ⟨kind, node, own.isSome, decls⟩ tree scope ∧
      scope.parent = outer ∧
      tree.Follows arguments (some scope.id) inner scope.children below := by
  cases follows with
  | flat bare => cases bare
  | scope found filled parent inside further =>
    obtain ⟨rfl, rfl⟩ := further.eq_nil rfl
    exact ⟨_, _, rfl, by simp, found, filled, parent, inside⟩

end ScopeTree.Follows

namespace Resolution

namespace State.Realises

variable {arguments : Name} {t : State} {start : Nat} {openings more : List Opening}

theorem left (realises : Realises arguments t start (openings ++ more)) :
    Realises arguments t start openings := by
  intro i o asked
  have early : i < openings.length := (List.getElem?_eq_some_iff.1 asked).1
  exact realises i o (by rw [List.getElem?_append_left early, asked])

theorem right (realises : Realises arguments t start (openings ++ more)) :
    Realises arguments t (start + openings.length) more := by
  intro i o asked
  have late : (openings ++ more)[openings.length + i]? = some o := by
    rw [List.getElem?_append_right (Nat.le_add_right _ _), Nat.add_sub_cancel_left, asked]
  rw [Nat.add_assoc]
  exact realises _ o late

end State.Realises

/-- Layouts whose scopes fill the positions from the first up to the last, with their places in the
tree. -/
inductive Planted (links : Nat → Option Links) :
    Option ScopeId → Nat → List Layout → List ScopeId → Nat → Prop
  | nil (outer : Option ScopeId) (lo : Nat) : Planted links outer lo [] [] lo
  | flat {outer : Option ScopeId} {lo hi : Nat} {l : Layout} {rest : List Layout}
      {ids : List ScopeId} (bare : l.openings = []) (further : Planted links outer lo rest ids hi) :
      Planted links outer lo (l :: rest) ids hi
  | scope {outer : Option ScopeId} {lo mid hi : Nat} {kind : ScopeKind} {node : Node}
      {own : Option Name} {decls : List Declaration} {inner rest : List Layout}
      {below beside : List ScopeId} (found : links lo = some ⟨outer, below⟩)
      (inside : Planted links (some ⟨lo⟩) (lo + 1) inner below mid)
      (further : Planted links outer mid rest beside hi) :
      Planted links outer lo (.scope kind node own decls inner :: rest) (⟨lo⟩ :: beside) hi

namespace Planted

variable {links others : Nat → Option Links} {outer : Option ScopeId} {lo mid hi : Nat}
  {ls ms : List Layout} {ids more : List ScopeId}

theorem le (planted : Planted links outer lo ls ids hi) : lo ≤ hi := by
  induction planted with
  | nil => exact Nat.le_refl _
  | flat _ _ ih => exact ih
  | scope _ _ _ ihInside ihFurther => omega

theorem append (first : Planted links outer lo ls ids mid)
    (second : Planted links outer mid ms more hi) :
    Planted links outer lo (ls ++ ms) (ids ++ more) hi := by
  induction first with
  | nil => exact second
  | flat bare _ ih => exact .flat bare (ih second)
  | scope found inside _ _ ih => exact .scope found inside (ih second)

/-- It depends on the links at its own positions alone. -/
theorem congr (planted : Planted links outer lo ls ids hi)
    (same : ∀ i, lo ≤ i → i < hi → others i = links i) : Planted others outer lo ls ids hi := by
  induction planted with
  | nil outer lo => exact .nil outer lo
  | flat bare _ ih => exact .flat bare (ih same)
  | scope found inside further ihInside ihFurther =>
    have up := inside.le
    have beyond := further.le
    refine .scope ((same _ (Nat.le_refl _) (by omega)).trans found) (ihInside ?_) (ihFurther ?_)
    · intro i above below
      exact same i (by omega) (by omega)
    · intro i above below
      exact same i (by omega) below

/-- Where the scopes at the positions are furnished as the layouts say, the tree follows them. -/
theorem follows {arguments : Name} {t : State} (coherent : t.Coherent)
    (planted : Planted t.linksAt outer lo ls ids hi)
    (realises : State.Realises arguments t lo (Layout.openingsAll ls)) :
    ∃ scopes, t.tree.Follows arguments outer ls ids scopes ∧
      t.scopes.toList.drop lo = scopes ++ t.scopes.toList.drop hi ∧
      hi = lo + (Layout.openingsAll ls).length := by
  induction planted with
  | nil outer lo => exact ⟨[], .nil outer, rfl, rfl⟩
  | flat bare _ ih =>
    rw [Layout.openingsAll, bare] at realises ⊢
    obtain ⟨scopes, follows, there, count⟩ := ih realises
    exact ⟨scopes, .flat bare follows, there, count⟩
  | @scope outer lo mid hi kind node own decls inner rest below beside found _ _ ihInside
      ihFurther =>
    rw [Layout.openingsAll, Layout.openings] at realises ⊢
    obtain ⟨scope, here, filled⟩ := realises 0 _ rfl
    have first : State.Realises arguments t lo
        ([⟨kind, node, own.isSome, decls⟩] ++ Layout.openingsAll inner) := realises.left
    obtain ⟨scopes, follows, there, rfl⟩ := ihInside first.right
    have further := realises.right
    rw [List.length_cons, Nat.add_comm _ 1, ← Nat.add_assoc] at further
    obtain ⟨scopes', follows', there', rfl⟩ := ihFurther further
    have id : scope.id = ⟨lo⟩ := coherent.placed lo scope here
    have links : scope.links = ⟨outer, below⟩ := by
      rw [State.linksAt, ← Nat.add_zero lo, here] at found
      exact Option.some.inj found
    have parent : scope.parent = outer := congrArg Links.parent links
    have children : scope.children = below := congrArg Links.children links
    rw [← children, ← id] at follows
    obtain ⟨bound, got⟩ := Array.getElem?_eq_some_iff.1 here
    refine ⟨scope :: (scopes ++ scopes'), ?_, ?_, ?_⟩
    · rw [← id]
      exact .scope (by rw [id]; exact here) filled parent follows follows'
    · rw [List.drop_eq_getElem_cons (by simpa using bound), there, there', List.cons_append,
        List.append_assoc, ← got, Array.getElem_toList]
      rfl
    · simp only [List.length_append, List.length_cons]
      omega

end Planted

namespace State

variable {s t : State} {kind : ScopeKind} {node : Node} {own : Option Name}
  {decls : List Declaration} {inner : List Layout} {new : List ScopeId}

theorem Branches.size_eq (branches : Branches s t []) : t.scopes.size = s.scopes.size := by
  have forest := branches.forest
  generalize t.scopes.size = last at forest
  cases forest
  rfl

/-- A scope that has been laid out is inside the one that was open and around what is in it. -/
theorem linksAt_layOut_scope (filled : Branches (s.openWith kind node own decls)
    ((s.openWith kind node own decls).layOutAll inner) new) :
    (s.layOut (.scope kind node own decls inner)).linksAt s.scopes.size =
      some ⟨s.openScopes.head?, new⟩ := by
  have here := filled.leave.here
  rw [current_openWith, linksAt_openWith, linksAt_enter_new] at here
  exact here

/-- What was planted in a scope stays when the scope is closed. -/
theorem planted_layOut_scope (filled : Branches (s.openWith kind node own decls)
      ((s.openWith kind node own decls).layOutAll inner) new)
    (inside : Planted ((s.openWith kind node own decls).layOutAll inner).linksAt
      (some ⟨s.scopes.size⟩) (s.scopes.size + 1) inner new
      ((s.openWith kind node own decls).layOutAll inner).scopes.size) :
    Planted (s.layOut (.scope kind node own decls inner)).linksAt s.openScopes.head?
      s.scopes.size [.scope kind node own decls inner] [⟨s.scopes.size⟩]
      (s.layOut (.scope kind node own decls inner)).scopes.size := by
  have found := linksAt_layOut_scope filled
  have same : (s.layOut (.scope kind node own decls inner)).scopes =
      ((s.openWith kind node own decls).layOutAll inner).scopes := scopes_leave _
  have links : (s.layOut (.scope kind node own decls inner)).linksAt =
      ((s.openWith kind node own decls).layOutAll inner).linksAt := by
    funext i
    rw [linksAt, same]
    rfl
  rw [links] at found ⊢
  rw [same]
  exact .scope found inside (.nil _ _)

mutual

/-- Laying out plants the scopes of a layout inside the innermost scope. -/
theorem planted_layOut {s : State} (coherent : s.Coherent) (opened : s.openScopes ≠ []) :
    ∀ l : Layout, ∃ new, Branches s (s.layOut l) new ∧
      Planted (s.layOut l).linksAt s.openScopes.head? s.scopes.size [l] new
        (s.layOut l).scopes.size
  | .use id access =>
    have branches := Branches.record s id access
    ⟨[], branches, by
      rw [layOut, branches.size_eq]
      exact .flat rfl (.nil _ _)⟩
  | .directEval =>
    have branches : Branches s (s.layOut .directEval) [] :=
      .of_kept (funext (view_updateScope _ _ (fun _ => rfl))) (size_updateScope (s.report _) _ _)
    ⟨[], branches, by
      rw [branches.size_eq]
      exact .flat rfl (.nil _ _)⟩
  | .withStatement => ⟨[], .of_kept rfl rfl, .flat rfl (.nil _ _)⟩
  | .scope kind node own decls inner => by
    have can : s.CanEnter := .of_opened opened
    obtain ⟨new, filled, inside⟩ := planted_layOutAll (coherent.openWith can kind node own decls)
      opened_openWith inner
    rw [size_openWith] at inside
    refine ⟨_, .scope_of_inside coherent opened kind node own decls filled,
      planted_layOut_scope filled ?_⟩
    simpa [openWith] using inside

theorem planted_layOutAll {s : State} (coherent : s.Coherent) (opened : s.openScopes ≠ []) :
    ∀ ls : List Layout, ∃ new, Branches s (s.layOutAll ls) new ∧
      Planted (s.layOutAll ls).linksAt s.openScopes.head? s.scopes.size ls new
        (s.layOutAll ls).scopes.size
  | [] => ⟨[], .of_kept rfl rfl, .nil _ _⟩
  | l :: rest => by
    obtain ⟨id, outer, stack⟩ := List.exists_cons_of_ne_nil opened
    obtain ⟨new, first, planted⟩ := planted_layOut coherent opened l
    obtain ⟨more, second, further⟩ := planted_layOutAll (coherent.layOut opened l)
      (by simpa using opened) rest
    have there : s.current.index < s.scopes.size := by
      rw [current_eq stack]
      exact coherent.nested.index_lt id (by simp [stack])
    refine ⟨new ++ more, first.trans second (by simp [current]) there, ?_⟩
    have kept : Planted ((s.layOut l).layOutAll rest).linksAt s.openScopes.head? s.scopes.size [l]
        new (s.layOut l).scopes.size := by
      refine planted.congr (fun i above below => second.others i below ?_)
      have same : (s.layOut l).current = s.current := by simp [current]
      rw [same]
      omega
    rw [openScopes_layOut] at further
    exact kept.append further

end

section

variable (events : Array Event) (kind : ScopeKind) (node : Node) (own : Option Name)
  (decls : List Declaration) (inner : List Layout)

/-- A finished tree follows its layout. -/
theorem follows_layOut_initial {arguments : Name}
    (named : ∀ name ∈ Layout.argumentNames (.scope kind node own decls inner), name = arguments) :
    let t := (initial events).layOut (.scope kind node own decls inner)
    ∃ ids, t.tree.Follows arguments none [.scope kind node own decls inner] ids
      t.scopes.toList := by
  intro t
  have coherent := Coherent.initial events
  have can : (initial events).CanEnter := fun _ => rfl
  obtain ⟨new, filled, inside⟩ := planted_layOutAll (coherent.openWith can kind node own decls)
    opened_openWith inner
  rw [size_openWith] at inside
  have planted := planted_layOut_scope filled (by simpa [openWith] using inside)
  rw [Layout.argumentNames, List.forall_mem_append] at named
  obtain ⟨realised, _⟩ := Opens.scope_of_inside coherent can kind node
    (fun name member => named.1 name (Option.mem_toList.2 member)) decls
    (Opens.layOutAll (coherent.openWith can kind node own decls) opened_openWith inner named.2)
  obtain ⟨scopes, follows, whole, _⟩ := planted.follows
    (coherent_layOut_initial events kind node own decls inner) (by
      simpa [Layout.openingsAll, Layout.openings] using realised)
  have all : scopes = t.scopes.toList := by
    have start : (initial events).scopes.size = 0 := rfl
    rw [start, List.drop_zero, ← Array.length_toList, List.drop_length, List.append_nil] at whole
    exact whole.symm
  exact ⟨_, all ▸ follows⟩

end

end State

end Resolution

end ScopeAnalysis
