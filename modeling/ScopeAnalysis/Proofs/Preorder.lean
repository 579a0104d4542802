import ScopeAnalysis.Proofs.Growth
import ScopeAnalysis.Proofs.WalkCourse

/-!
# Depth-first order

Scopes are numbered when they are opened, and a scope is closed before the next one beside it is
opened. So the numbers are already in depth-first order, and finishing a tree lists every scope
once, at the position of its identity.
-/

namespace ScopeAnalysis

namespace Resolution

/-- The scope around a scope and those directly inside it. -/
structure Links where
  parent : Option ScopeId
  children : List ScopeId

/-- The same place with more children. -/
def Links.extend (links : Links) (new : List ScopeId) : Links :=
  { links with children := links.children ++ new }

end Resolution

def Scope.links (scope : Scope) : Resolution.Links := ⟨scope.parent, scope.children⟩

namespace Resolution

/-- Trees whose roots have one parent fill the positions from the first up to the last, each root in
front of what is below it. -/
inductive Forest (links : Nat → Option Links) : Option ScopeId → Nat → List ScopeId → Nat → Prop
  | nil (parent : Option ScopeId) (lo : Nat) : Forest links parent lo [] lo
  | cons {parent : Option ScopeId} {lo mid hi : Nat} {below beside : List ScopeId}
      (found : links lo = some ⟨parent, below⟩)
      (inner : Forest links (some ⟨lo⟩) (lo + 1) below mid)
      (outer : Forest links parent mid beside hi) : Forest links parent lo (⟨lo⟩ :: beside) hi

namespace Forest

variable {links others : Nat → Option Links} {parent : Option ScopeId} {lo mid hi : Nat}
  {ids more : List ScopeId}

theorem le (forest : Forest links parent lo ids hi) : lo ≤ hi := by
  induction forest with
  | nil _ lo => exact Nat.le_refl lo
  | cons found inner outer ihInner ihOuter => omega

theorem append (first : Forest links parent lo ids mid) (second : Forest links parent mid more hi) :
    Forest links parent lo (ids ++ more) hi := by
  induction first with
  | nil _ lo => exact second
  | cons found inner outer ihInner ihOuter => exact .cons found inner (ihOuter second)

/-- A forest depends on the links at its own positions alone. -/
theorem congr (forest : Forest links parent lo ids hi)
    (same : ∀ i, lo ≤ i → i < hi → others i = links i) : Forest others parent lo ids hi := by
  induction forest with
  | nil parent lo => exact .nil parent lo
  | cons found inner outer ihInner ihOuter =>
    have up := inner.le
    have further := outer.le
    refine .cons ((same _ (Nat.le_refl _) (by omega)).trans found) (ihInner ?_) (ihOuter ?_)
    · intro i above below
      exact same i (by omega) (by omega)
    · intro i above below
      exact same i (by omega) below

/-- Listing a forest depth first lists its positions in order. -/
theorem preorder_eq {scopes : Array Scope}
    (forest : Forest (fun i => scopes[i]?.map Scope.links) parent lo ids hi)
    (steps : Nat) (rest : List ScopeId) :
    preorder scopes (hi - lo + steps) (ids ++ rest) =
      (scopes.toList.drop lo).take (hi - lo) ++ preorder scopes steps rest := by
  induction forest generalizing steps rest with
  | nil _ lo => simp
  | @cons parent lo mid hi below beside found inner outer ihInner ihOuter =>
    obtain ⟨scope, there, eq⟩ := Option.map_eq_some_iff.1 found
    cases eq
    have up := inner.le
    have further := outer.le
    obtain ⟨bound, eq⟩ := Array.getElem?_eq_some_iff.1 there
    have front : scopes.toList.drop lo = scope :: scopes.toList.drop (lo + 1) := by
      rw [List.drop_eq_getElem_cons (by simpa using bound)]
      simp [eq]
    have count : hi - lo = (mid - (lo + 1) + (hi - mid)) + 1 := by omega
    have behind : lo + 1 + (mid - (lo + 1)) = mid := by omega
    calc preorder scopes (hi - lo + steps) (⟨lo⟩ :: beside ++ rest)
        = scope :: preorder scopes (mid - (lo + 1) + (hi - mid + steps))
            (scope.children ++ (beside ++ rest)) := by
          rw [show hi - lo + steps = (mid - (lo + 1) + (hi - mid + steps)) + 1 by omega]
          simp only [preorder, List.cons_append, there]
      _ = scope :: ((scopes.toList.drop (lo + 1)).take (mid - (lo + 1)) ++
            ((scopes.toList.drop mid).take (hi - mid) ++ preorder scopes steps rest)) := by
          rw [ihInner, ihOuter]
      _ = (scopes.toList.drop lo).take (hi - lo) ++ preorder scopes steps rest := by
          rw [front, count, List.take_succ_cons, List.take_add, List.drop_drop, behind]
          simp

end Forest

namespace State

def linksAt (s : State) (i : Nat) : Option Links := s.scopes[i]?.map Scope.links

/-- New children of the innermost scope, with all that is below them, are the only new scopes. -/
structure Branches (s t : State) (new : List ScopeId) : Prop where
  here : t.linksAt s.current.index = (s.linksAt s.current.index).map (·.extend new)
  others : ∀ i < s.scopes.size, i ≠ s.current.index → t.linksAt i = s.linksAt i
  forest : Forest t.linksAt (some s.current) s.scopes.size new t.scopes.size

namespace Branches

variable {s t u : State} {new more : List ScopeId}

theorem of_kept (links : t.linksAt = s.linksAt) (size : t.scopes.size = s.scopes.size) :
    Branches s t [] where
  here := by simp [links, Links.extend]
  others i _ _ := congrFun links i
  forest := by
    rw [size]
    exact .nil _ _

theorem trans (first : Branches s t new) (second : Branches t u more)
    (same : t.current = s.current) (there : s.current.index < s.scopes.size) :
    Branches s u (new ++ more) where
  here := by
    rw [← same, second.here, same, first.here, Option.map_map]
    congr 1
    funext links
    simp [Links.extend]
  others i old other := by
    have older := Nat.lt_of_lt_of_le old first.forest.le
    rw [second.others i older (same ▸ other), first.others i old other]
  forest := by
    refine (first.forest.congr (fun i new old => ?_)).append (same ▸ second.forest)
    exact second.others i old (by rw [same]; omega)

/-- A scope that is opened, filled and closed again is one new child. -/
theorem scope {s₁ : State} (opened : s₁.current = ⟨s.scopes.size⟩)
    (size : s₁.scopes.size = s.scopes.size + 1)
    (bare : s₁.linksAt s.scopes.size = some ⟨some s.current, []⟩)
    (here : s₁.linksAt s.current.index =
      (s.linksAt s.current.index).map (·.extend [⟨s.scopes.size⟩]))
    (others : ∀ i < s.scopes.size, i ≠ s.current.index → s₁.linksAt i = s.linksAt i)
    (there : s.current.index < s.scopes.size) (filled : Branches s₁ t new) :
    Branches s t [⟨s.scopes.size⟩] := by
  have index : s₁.current.index = s.scopes.size := by rw [opened]
  have below := filled.here
  rw [index, bare] at below
  have inner := filled.forest
  rw [opened, size] at inner
  refine ⟨?_, fun i old other => ?_, .cons below inner (.nil _ _)⟩
  · rw [filled.others _ (by omega) (by omega), here]
  · rw [filled.others i (by omega) (by omega), others i old other]

end Branches

/-! What is seen of a scope without what it binds and what passes through it. -/

section Views

variable {α : Type} {view : Scope → α}

theorem view_updateScope (s : State) (id : ScopeId) {f : Scope → Scope}
    (same : ∀ a, view (f a) = view a) (i : Nat) :
    (s.updateScope id f).scopes[i]?.map view = s.scopes[i]?.map view := by
  rw [getElem?_updateScope]
  split
  · cases s.scopes[i]? <;> simp [same]
  · rfl

theorem view_passThrough (blind : ∀ a through, view { a with through := through } = view a)
    (s : State) (name : Name) (r : ReferenceId) (ids : List ScopeId) (i : Nat) :
    (ids.foldl (passThrough name r) s).scopes[i]?.map view = s.scopes[i]?.map view := by
  induction ids generalizing s with
  | nil => rfl
  | cons id rest ih =>
    exact (ih (passThrough name r s id)).trans (view_updateScope s id (fun a => blind a _) i)

theorem view_resolve (blind : ∀ a bindings, view { a with bindings := bindings } = view a)
    (s : State) (name : Name) (i : Nat) :
    (s.resolve name).2.scopes[i]?.map view = s.scopes[i]?.map view := by
  unfold resolve
  split
  · rfl
  · exact view_updateScope _ _ (fun a => blind a _) i

theorem view_record (bindings : ∀ a bindings, view { a with bindings := bindings } = view a)
    (through : ∀ a through, view { a with through := through } = view a) (s : State)
    (id : Occurrence) (access : Access) (i : Nat) :
    (s.record id access).scopes[i]?.map view = s.scopes[i]?.map view := by
  rw [record_eq, view_passThrough through]
  exact view_resolve bindings s id.name i

theorem Furnished.view_eq {id : ScopeId} {s t : State} (furnished : Furnished id s t)
    (there : id.index < s.scopes.size)
    (blind : ∀ a bindings, view { a with bindings := bindings } = view a) (i : Nat) :
    t.scopes[i]?.map view = s.scopes[i]?.map view := by
  by_cases same : i = id.index
  · subst same
    have found := Array.getElem?_eq_getElem there
    obtain ⟨bindings, foundT⟩ := furnished.here _ found
    rw [foundT, found]
    exact congrArg some (blind _ bindings)
  · rw [furnished.others i same]

/-- What an opened scope has been furnished with is not seen. -/
theorem view_openWith (s : State) (kind : ScopeKind) (node : Node) (arguments : Option Name)
    (decls : List Declaration)
    (blind : ∀ a bindings, view { a with bindings := bindings } = view a) (i : Nat) :
    (s.openWith kind node arguments decls).scopes[i]?.map view =
      (s.enter kind node).scopes[i]?.map view := by
  refine (Furnished.openWith s kind node arguments decls).view_eq ?_ blind i
  rw [size_enter]
  exact Nat.lt_succ_self _

end Views

theorem size_resolve (s : State) (name : Name) :
    (s.resolve name).2.scopes.size = s.scopes.size := by
  unfold resolve
  split
  · rfl
  · exact size_addVariable _ _ _ _

theorem Branches.record (s : State) (id : Occurrence) (access : Access) :
    Branches s (s.record id access) [] := by
  refine .of_kept (funext (view_record (fun _ _ => rfl) (fun _ _ => rfl) s id access)) ?_
  rw [record_eq, size_passThrough]
  exact size_resolve s id.name

theorem scopes_leave (s : State) : s.leave.scopes = s.scopes := by
  unfold leave
  split <;> rfl

theorem Branches.leave {s t : State} {new : List ScopeId} (branches : Branches s t new) :
    Branches s t.leave new := by
  obtain ⟨here, others, forest⟩ := branches
  have same : t.leave.linksAt = t.linksAt := by
    funext i
    simp only [linksAt, scopes_leave]
  refine ⟨?_, ?_, ?_⟩
  · rw [same]; exact here
  · rw [same]; exact others
  · rw [same, scopes_leave]; exact forest

theorem size_openWith (s : State) (kind : ScopeKind) (node : Node) (arguments : Option Name)
    (decls : List Declaration) :
    (s.openWith kind node arguments decls).scopes.size = s.scopes.size + 1 :=
  (Furnished.openWith s kind node arguments decls).size.trans (size_enter s kind node)

theorem linksAt_openWith (s : State) (kind : ScopeKind) (node : Node) (arguments : Option Name)
    (decls : List Declaration) :
    (s.openWith kind node arguments decls).linksAt = (s.enter kind node).linksAt :=
  funext (view_openWith s kind node arguments decls (fun _ _ => rfl))

theorem linksAt_enter_new (s : State) (kind : ScopeKind) (node : Node) :
    (s.enter kind node).linksAt s.scopes.size = some ⟨s.openScopes.head?, []⟩ := by
  simp [linksAt, getElem?_enter, nextScope, Scope.links]

/-- Opening a scope notes it as the last child of the one around it. -/
theorem linksAt_enter_old {s : State} {id : ScopeId} {rest : List ScopeId}
    (stack : s.openScopes = id :: rest) (kind : ScopeKind) (node : Node) {i : Nat}
    (old : i < s.scopes.size) :
    (s.enter kind node).linksAt i =
      if id.index = i then (s.linksAt i).map (·.extend [⟨s.scopes.size⟩]) else s.linksAt i := by
  simp only [linksAt, getElem?_enter, if_neg (Nat.ne_of_lt old), noteChild, stack,
    getElem?_updateScope]
  split
  · simp only [Option.map_map]
    rfl
  · rfl

theorem current_openWith (s : State) (kind : ScopeKind) (node : Node) (arguments : Option Name)
    (decls : List Declaration) :
    (s.openWith kind node arguments decls).current = ⟨s.scopes.size⟩ := by
  simp [current, openWith]

/-- A scope adds itself as the only child, whatever is inside it. -/
theorem Branches.scope_of_inside {s : State} (coherent : s.Coherent) (opened : s.openScopes ≠ [])
    (kind : ScopeKind) (node : Node) (arguments : Option Name) (decls : List Declaration)
    {inner : List Layout} {new : List ScopeId}
    (inside : Branches (s.openWith kind node arguments decls)
      ((s.openWith kind node arguments decls).layOutAll inner) new) :
    Branches s (s.layOut (.scope kind node arguments decls inner)) [⟨s.scopes.size⟩] := by
  obtain ⟨id, rest, stack⟩ := List.exists_cons_of_ne_nil opened
  have can : s.CanEnter := .of_opened opened
  have there : id.index < s.scopes.size := coherent.nested.index_lt id (by simp [stack])
  have links := linksAt_openWith s kind node arguments decls
  rw [State.layOut]
  refine .scope (current_openWith s kind node arguments decls)
    (size_openWith s kind node arguments decls) ?_ ?_ ?_ ?_ inside.leave
  · rw [links, linksAt_enter_new, stack, current_eq stack]
    rfl
  · rw [links, current_eq stack, linksAt_enter_old stack kind node there, if_pos rfl]
  · intro i old other
    rw [current_eq stack] at other
    rw [links, linksAt_enter_old stack kind node old, if_neg other.symm]
  · rw [current_eq stack]
    exact there

mutual

/-- Laying out adds children to the innermost scope only, in the order of their numbers. -/
theorem Branches.layOut {s : State} (coherent : s.Coherent) (opened : s.openScopes ≠ []) :
    ∀ l : Layout, ∃ new, Branches s (s.layOut l) new
  | .use id access => ⟨[], .record s id access⟩
  | .directEval =>
    ⟨[], .of_kept (funext (view_updateScope _ _ (fun _ => rfl)))
      (size_updateScope (s.report _) _ _)⟩
  | .withStatement => ⟨[], .of_kept rfl rfl⟩
  | .scope kind node arguments decls inner => by
    obtain ⟨new, inside⟩ := Branches.layOutAll
      (coherent.openWith (.of_opened opened) kind node arguments decls)
      opened_openWith inner
    exact ⟨_, .scope_of_inside coherent opened kind node arguments decls inside⟩

theorem Branches.layOutAll {s : State} (coherent : s.Coherent) (opened : s.openScopes ≠ []) :
    ∀ ls : List Layout, ∃ new, Branches s (s.layOutAll ls) new
  | [] => ⟨[], .of_kept rfl rfl⟩
  | l :: rest => by
    obtain ⟨id, outer, stack⟩ := List.exists_cons_of_ne_nil opened
    obtain ⟨new, first⟩ := Branches.layOut coherent opened l
    obtain ⟨more, second⟩ := Branches.layOutAll (coherent.layOut opened l) (by simpa using opened)
      rest
    refine ⟨new ++ more, first.trans second ?_ ?_⟩
    · simp [current]
    · rw [current_eq stack]
      exact coherent.nested.index_lt id (by simp [stack])

end

theorem Branches.layOut_scope {s : State} (coherent : s.Coherent) (opened : s.openScopes ≠ [])
    (kind : ScopeKind) (node : Node) (arguments : Option Name) (decls : List Declaration)
    (inner : List Layout) :
    Branches s (s.layOut (.scope kind node arguments decls inner)) [⟨s.scopes.size⟩] := by
  obtain ⟨new, inside⟩ := Branches.layOutAll
    (coherent.openWith (.of_opened opened) kind node arguments decls)
    opened_openWith inner
  exact .scope_of_inside coherent opened kind node arguments decls inside

/-- The scopes, variables and references of a state as they stand. -/
def tree (s : State) : ScopeTree := ⟨s.scopes, s.vars, s.references⟩

/-- Where the root is above all scopes, finishing lists them as they stand. -/
theorem finish_eq_tree {s : State}
    (forest : Forest s.linksAt none 0 [ScopeId.root] s.scopes.size) : s.finish = s.tree := by
  have listed := forest.preorder_eq 0 []
  rw [Nat.sub_zero, Nat.add_zero, List.append_nil] at listed
  have all : s.scopes.toList.take s.scopes.size = s.scopes.toList :=
    List.take_of_length_le (Nat.le_of_eq s.scopes.length_toList)
  simp [finish, tree, listed, all, preorder]

section

variable (events : Array Event) (kind : ScopeKind) (node : Node) (arguments : Option Name)
  (decls : List Declaration) (inner : List Layout)

/-- What is laid out in the outermost scope is below it. -/
theorem linksAt_layOut_initial {new : List ScopeId}
    (filled : Branches ((initial events).openWith kind node arguments decls)
      (((initial events).openWith kind node arguments decls).layOutAll inner) new) :
    ((initial events).layOut (.scope kind node arguments decls inner)).linksAt 0 =
      some ⟨none, new⟩ := by
  have here := filled.leave.here
  rw [current_openWith, linksAt_openWith] at here
  rw [layOut]
  exact here.trans (by rw [linksAt_enter_new]; rfl)

/-- All scopes are below the outermost one, in depth-first order. -/
theorem forest_layOut_initial :
    Forest ((initial events).layOut (.scope kind node arguments decls inner)).linksAt none 0
      [ScopeId.root] ((initial events).layOut (.scope kind node arguments decls inner)).scopes.size
    := by
  have coherent := Coherent.initial events
  have can : (initial events).CanEnter := fun _ => rfl
  obtain ⟨new, filled⟩ := Branches.layOutAll (coherent.openWith can kind node arguments decls)
    opened_openWith inner
  have below := linksAt_layOut_initial events kind node arguments decls inner filled
  have forest := filled.leave.forest
  rw [current_openWith, size_openWith] at forest
  rw [layOut] at below ⊢
  exact .cons below forest (.nil _ _)

end

end State

/-- A completed program opens one outermost scope, and in it the one of the script or module. -/
theorem Course.ofProgram_eq_ok {setting : Walk.Setting} {outline : ProgramOutline}
    {parts : List Layout} (completed : Course.ofProgram setting outline = ⟨parts, .ok ()⟩) :
    ∃ decls own inner, parts = [.scope .global outline.node none decls
      [.scope (if outline.isModule then .module else .script) outline.node none own inner]] := by
  unfold Course.ofProgram at completed
  generalize outline.isModule = isModule at completed ⊢
  cases isModule
  all_goals
    obtain ⟨owned, _, outer⟩ := Course.asking_eq_ok.1 completed
    obtain ⟨parts, own, rfl⟩ := Course.inScope_eq_ok.1 outer
    obtain ⟨inner, _, rfl⟩ := Course.inScope_eq_ok.1 own
    exact ⟨_, _, inner, rfl⟩

/-- A program that is analyzed has a completed course of one outermost scope, and its tree is what
that scope lays out. -/
theorem analyze_layOut {options : Options} {p : NumberedProgram} {names names' : Interner}
    {a : Analysis} (analyzed : p.analyze options names = (.ok a, names')) :
    ∃ outline decls inner,
      (p.outline (SpecialNames.intern names).1).run (SpecialNames.intern names).2 =
        (.ok outline, names') ∧
      Course.ofProgram ⟨options, (SpecialNames.intern names).1.arguments⟩ outline =
        ⟨[.scope .global outline.node none decls inner], .ok ()⟩ ∧
      a.tree = ((State.initial #[.start p.isModule p.node.id]).layOut
        (.scope .global outline.node none decls inner)).tree := by
  obtain ⟨outline, parts, state, folded, completed, _, ends, tree⟩ := analyze_walked analyzed
  obtain ⟨decls, own, inner, rfl⟩ := Course.ofProgram_eq_ok completed
  refine ⟨outline, decls, _, folded, completed, ?_⟩
  calc a.tree = (state.withStrict false).finish := tree
    _ = _ := by
      rw [ends]
      exact State.finish_eq_tree (State.forest_layOut_initial _ _ _ _ _ _)

end Resolution

end ScopeAnalysis
