import Mathlib.Data.List.Chain
import ScopeAnalysis.Proofs.Growth

/-!
# The way of a use to its variable

A use is resolved by what is in sight at that moment. The scopes it passes through lead from the
innermost open scope up to the owner of its variable, and none of them binds the name. Since old
scopes gain no declarations, this is so in every later state as well: `Routed` holds after every
layout.
-/

namespace ScopeAnalysis.Resolution

namespace State

/-- The way of one use: the scopes it passes through, each inside the next and the last inside the
owner of the variable. -/
structure Route (s : State) (r : ReferenceId) (use : Reference) (v : Variable)
    (chain : List ScopeId) : Prop where
  found : s.vars[use.resolved.index]? = some v
  climbs : (chain ++ [v.scope]).IsChain (fun inner outer => s.parentOf inner = some outer)
  passes : ∀ (i : Nat) (scope : Scope), s.scopes[i]? = some scope →
    scope.passes r = if ⟨i⟩ ∈ chain then [(use.id.name, r)] else []
  hidden : ∀ id ∈ chain, s.own use.id.name id = none
  owned : s.own use.id.name v.scope = some use.resolved

/-- Every use has its way, and nothing else passes through a scope. -/
structure Routed (s : State) : Prop where
  bounded : ∀ (i : Nat) (scope : Scope), s.scopes[i]? = some scope →
    ∀ pair ∈ scope.through.pairs, pair.2.index < s.references.size
  routes : ∀ (i : Nat) (use : Reference), s.references[i]? = some use →
    ∃ v chain, s.Route ⟨i⟩ use v chain

/-- All but the last of a chain of scopes have a parent. -/
theorem exists_parentOf {s : State} {chain : List ScopeId} {top : ScopeId}
    (climbs : (chain ++ [top]).IsChain (fun inner outer => s.parentOf inner = some outer)) :
    ∀ id ∈ chain, ∃ outer, s.parentOf id = some outer := by
  induction chain with
  | nil => simp
  | cons first rest ih =>
    intro id member
    rcases List.mem_cons.1 member with rfl | inRest
    · cases rest with
      | nil => exact ⟨top, by simpa using climbs⟩
      | cons next others => exact ⟨next, (List.isChain_cons_cons.1 climbs).1⟩
    · exact ih (List.IsChain.tail climbs) id inRest

namespace Grows

variable {s t : State}

theorem parentOf_eq (grows : Grows s t) {id : ScopeId} (old : id.index < s.scopes.size) :
    t.parentOf id = s.parentOf id := by
  have found := Array.getElem?_eq_getElem old
  obtain ⟨b, more, added, foundB, _, _, parent, _⟩ := grows.scopes id.index _ found
  simp [parentOf, found, foundB, parent]

theorem own_eq_some (grows : Grows s t) {name : Name} {id : ScopeId} {v : VariableId}
    (owned : s.own name id = some v) : t.own name id = some v := by
  have found := Array.getElem?_eq_getElem (index_lt_of_own owned)
  obtain ⟨b, more, added, foundB, _, _, _, bindings, _⟩ := grows.scopes id.index _ found
  rw [own_eq found, Scope.find?, Option.map_eq_some_iff] at owned
  obtain ⟨entry, first, rfl⟩ := owned
  rw [own_eq foundB, Scope.find?, bindings, List.find?_append, first]
  rfl

/-- A name that an old scope other than the root does not bind, it never binds. -/
theorem own_eq_none (grows : Grows s t) {name : Name} {id : ScopeId}
    (old : id.index < s.scopes.size) (inner : id ≠ ScopeId.root) (free : s.own name id = none) :
    t.own name id = none := by
  have found := Array.getElem?_eq_getElem old
  obtain ⟨b, more, added, foundB, _, _, _, bindings, root, _⟩ := grows.scopes id.index _ found
  have same : more = [] := by
    by_contra some
    exact inner (congrArg ScopeId.mk (root some))
  rw [own_eq found] at free
  rw [own_eq foundB, Scope.find?, bindings, same, List.append_nil]
  exact free

/-- The way of an old use stays as it is. -/
theorem route (grows : Grows s t) (coherent : s.Coherent) {r : ReferenceId} {use : Reference}
    {v : Variable} {chain : List ScopeId} (old : r.index < s.references.size)
    (route : s.Route r use v chain) : ∃ w, t.Route r use w chain := by
  obtain ⟨w, foundW, _, scope, _⟩ := grows.vars _ v route.found
  have parents := exists_parentOf route.climbs
  have inside : ∀ id ∈ chain, id.index < s.scopes.size := by
    intro id member
    obtain ⟨outer, up⟩ := parents id member
    exact index_lt_of_parentOf up
  have climbs := route.climbs
  refine ⟨w, foundW, ?_, ?_, ?_, ?_⟩
  · rw [scope]
    refine climbs.imp (fun a b up => ?_)
    rw [grows.parentOf_eq (index_lt_of_parentOf up)]
    exact up
  · intro i b foundB
    by_cases there : i < s.scopes.size
    · have found := Array.getElem?_eq_getElem there
      rw [grows.passes_eq found foundB old]
      exact route.passes i _ found
    · -- No old use passes through a scope that is newer.
      have outside : (⟨i⟩ : ScopeId) ∉ chain := fun member => there (inside _ member)
      rw [if_neg outside, Scope.passes, List.filter_eq_nil_iff]
      intro pair member same
      have since := (grows.fresh i b (by omega) foundB pair member).1
      simp only [decide_eq_true_eq] at same
      rw [same] at since
      omega
  · intro id member
    refine grows.own_eq_none (inside id member) ?_ (route.hidden id member)
    rintro rfl
    obtain ⟨outer, up⟩ := parents _ member
    rw [coherent.rootless] at up
    cases up
  · rw [scope]
    exact grows.own_eq_some route.owned

/-- Old uses keep their ways, so only new ones have to be looked at. -/
theorem routed (grows : Grows s t) (coherent : s.Coherent) (routed : s.Routed)
    (new : ∀ (i : Nat) (use : Reference), s.references.size ≤ i → t.references[i]? = some use →
      ∃ v chain, t.Route ⟨i⟩ use v chain) : t.Routed where
  bounded i b foundB pair member := by
    have size := grows.references_size
    by_cases there : i < s.scopes.size
    · have found := Array.getElem?_eq_getElem there
      obtain ⟨b', more, added, foundB', _, _, _, _, _, _, through, since⟩ :=
        grows.scopes i _ found
      rw [foundB] at foundB'
      cases foundB'
      rw [through, MultiMap.mem_pairs_insertAll] at member
      rcases member with old | new
      · have := routed.bounded i _ found pair old
        omega
      · exact (since pair new).2
    · exact (grows.fresh i b (by omega) foundB pair member).2
  routes i use found := by
    by_cases old : i < s.references.size
    · have same := grows.references i _ (Array.getElem?_eq_getElem old)
      rw [found] at same
      cases same
      obtain ⟨v, chain, route⟩ := routed.routes i _ (Array.getElem?_eq_getElem old)
      obtain ⟨w, kept⟩ := grows.route coherent (r := ⟨i⟩) old route
      exact ⟨w, chain, kept⟩
    · exact new i use (by omega) found

/-- A step without a use changes no way. -/
theorem routed_of_quiet (grows : Grows s t) (coherent : s.Coherent) (routed : s.Routed)
    (quiet : t.references.size = s.references.size) : t.Routed := by
  refine grows.routed coherent routed (fun i use outside found => ?_)
  have below := (Array.getElem?_eq_some_iff.1 found).1
  omega

end Grows

/-- Nested scopes climb from the first to any later one. -/
theorem Nested.climbs {s : State} {inner : List ScopeId} {owner : ScopeId} {outer : List ScopeId}
    (nested : s.Nested (inner ++ owner :: outer)) :
    (inner ++ [owner]).IsChain (fun inner outer => s.parentOf inner = some outer) := by
  induction inner with
  | nil => exact .singleton owner
  | cons first rest ih =>
    have further := ih nested.tail
    cases rest with
    | nil => exact .cons_cons nested.2.2.1 further
    | cons next others => exact .cons_cons nested.2.2.1 further

/-- Resolving a name finds the innermost open scope that binds it, the root if need be. -/
theorem Coherent.resolve_spec {s : State} (coherent : s.Coherent) (opened : s.openScopes ≠ [])
    (name : Name) :
    ∃ inner owner outer, s.openScopes = inner ++ owner :: outer ∧
      (∀ id ∈ inner, (s.resolve name).2.own name id = none) ∧
      (s.resolve name).2.own name owner = some (s.resolve name).1 := by
  unfold State.resolve
  split
  next v rest seen =>
    rw [coherent.sighted, List.filterMap_eq_cons_iff] at seen
    obtain ⟨inner, owner, outer, stack, hidden, owned, _⟩ := seen
    exact ⟨inner, owner, outer, stack, hidden, owned⟩
  next unseen =>
    have free := coherent.own_eq_none unseen
    obtain ⟨first, rest, stack⟩ := List.exists_cons_of_ne_nil opened
    have nested := coherent.nested
    have unique := nested.nodup
    rw [stack] at nested
    obtain ⟨inner, eq⟩ := nested.eq_append_root
    rw [stack, eq] at free unique
    have there : ScopeId.root.index < s.scopes.size :=
      coherent.nested.index_lt ScopeId.root (by rw [stack, eq]; simp)
    refine ⟨inner, ScopeId.root, [], stack.trans eq, fun id member => ?_, ?_⟩
    · have other : id ≠ ScopeId.root := by
        rintro rfl
        exact (List.nodup_append.1 unique).2.2 _ member _ (List.mem_singleton_self _) rfl
      have same := bindingsOf_addVariable_of_ne (s.report (.implicitGlobal name)) other name []
      exact (own_congr same name).trans (free id (by simp [member]))
    · exact own_addVariable_self (s.report (.implicitGlobal name)) there (free _ (by simp)) []

theorem takeWhile_ne_owner {inner outer : List ScopeId} {owner : ScopeId}
    (unique : (inner ++ owner :: outer).Nodup) :
    (inner ++ owner :: outer).takeWhile (fun id => id ≠ owner) = inner := by
  have absent : ∀ id ∈ inner, decide (id ≠ owner) = true := by
    intro id member
    rw [decide_eq_true_eq]
    exact (List.nodup_append.1 unique).2.2 id member owner List.mem_cons_self
  rw [List.takeWhile_append_of_pos absent, List.takeWhile_cons_of_neg (by simp), List.append_nil]

/-- The new reference passes once through each scope of its way. -/
theorem passes_passThrough {s : State} {r : ReferenceId} (unused : ∀ (i : Nat) (scope : Scope),
      s.scopes[i]? = some scope → scope.passes r = []) (name : Name) {ids : List ScopeId}
    (unique : ids.Nodup) (i : Nat) (scope : Scope)
    (found : (ids.foldl (passThrough name r) s).scopes[i]? = some scope) :
    scope.passes r = if ⟨i⟩ ∈ ids then [(name, r)] else [] := by
  rw [getElem?_passThrough _ _ _ _ unique] at found
  split at found
  next member =>
    obtain ⟨a, foundA, rfl⟩ := Option.map_eq_some_iff.1 found
    rw [if_pos member]
    have perm := (MultiMap.pairs_insert_perm a.through name r).filter (fun pair => pair.2 = r)
    have none : a.through.pairs.filter (fun pair => pair.2 = r) = [] := unused i a foundA
    rw [List.filter_cons_of_pos (by simp), none] at perm
    exact List.perm_singleton.1 perm
  next absent =>
    rw [if_neg absent]
    exact unused i scope found

/-- A reference that is still to come passes through no scope. -/
theorem Routed.passes_eq_nil {s : State} (routed : s.Routed) {r : ReferenceId}
    (fresh : s.references.size ≤ r.index) (i : Nat) (scope : Scope)
    (found : s.scopes[i]? = some scope) : scope.passes r = [] := by
  rw [Scope.passes, List.filter_eq_nil_iff]
  intro pair member same
  have bound := routed.bounded i scope found pair member
  simp only [decide_eq_true_eq] at same
  rw [same] at bound
  exact Nat.not_lt.2 fresh bound

section Attached

variable {u : State} {inner outer : List ScopeId} {owner : ScopeId} {id : Occurrence}
  {v : VariableId}

/-- A use passes through the open scopes before the first one that binds its name. -/
theorem Coherent.inside_attach (coherent : u.Coherent)
    (stack : u.openScopes = inner ++ owner :: outer) (owned : u.own id.name owner = some v)
    (access : Access) : (u.attach id access v).inside v = inner := by
  obtain ⟨a, found, _, scope⟩ := coherent.owner owned
  have owns : (u.attach id access v).ownerOf v = owner := by
    simp [ownerOf, getElem?_attach, found, scope]
  have same : (u.attach id access v).openScopes = inner ++ owner :: outer := stack
  rw [State.inside, owns, same]
  exact takeWhile_ne_owner (stack ▸ coherent.nested.nodup)

/-- The way of a new use, once it has passed through the scopes that hide nothing from it. -/
theorem Routed.route_attach (routed : u.Routed) (coherent : u.Coherent)
    (stack : u.openScopes = inner ++ owner :: outer)
    (hidden : ∀ scope ∈ inner, u.own id.name scope = none) (owned : u.own id.name owner = some v)
    (access : Access) :
    ∃ a, (inner.foldl (passThrough id.name ⟨u.references.size⟩) (u.attach id access v)).Route
      ⟨u.references.size⟩ ⟨id, access, v⟩ a inner := by
  obtain ⟨a, found, _, ownerA⟩ := coherent.owner owned
  have nested := coherent.nested
  have unique := nested.nodup
  rw [stack] at nested unique
  have frame := sameFrame_passThrough (u.attach id access v) id.name ⟨u.references.size⟩ inner
  refine ⟨{ a with references := a.references ++ [⟨u.references.size⟩] }, ?_, ?_, ?_, ?_, ?_⟩
  · rw [vars_passThrough, getElem?_attach, if_pos rfl, found]
    rfl
  · change (inner ++ [a.scope]).IsChain _
    rw [ownerA]
    refine nested.climbs.imp (fun b c up => ?_)
    rw [frame.parentOf]
    exact up
  · refine passes_passThrough (fun i scope there => ?_) id.name (List.nodup_append.1 unique).1
    exact routed.passes_eq_nil (Nat.le_refl u.references.size) i scope there
  · intro scope member
    rw [frame.own]
    exact hidden scope member
  · change State.own _ id.name a.scope = some v
    rw [frame.own, ownerA]
    exact owned

end Attached

/-- A use takes the way from the innermost scope to the owner of its variable. -/
theorem Routed.route_record {s : State} (routed : s.Routed) (coherent : s.Coherent)
    (opened : s.openScopes ≠ []) (id : Occurrence) (access : Access) :
    ∃ v a inner outer, (s.record id access).references = s.references.push ⟨id, access, v⟩ ∧
      (s.record id access).Route ⟨s.references.size⟩ ⟨id, access, v⟩ a inner ∧
      s.openScopes = inner ++ a.scope :: outer := by
  obtain ⟨inner, owner, outer, stack, hidden, owned⟩ := coherent.resolve_spec opened id.name
  have resolved := coherent.resolve opened id.name
  have kept := references_resolve s id.name
  have routedR := (Grows.resolve s id.name).routed_of_quiet coherent routed (by rw [kept])
  have stackR := stack
  rw [← openScopes_resolve s id.name] at stackR
  rw [record_eq, ← kept]
  generalize (s.resolve id.name).1 = v at hidden owned ⊢
  generalize (s.resolve id.name).2 = u at stackR hidden owned resolved routedR ⊢
  rw [resolved.inside_attach stackR owned access]
  obtain ⟨a, route⟩ := routedR.route_attach resolved stackR hidden owned access
  -- What binds the name owns the variable.
  obtain ⟨b, found, _, scope⟩ := resolved.owner owned
  have same := route.found
  rw [vars_passThrough, getElem?_attach, if_pos rfl, found] at same
  cases same
  refine ⟨v, _, inner, outer, references_passThrough _ _ _ _, route, ?_⟩
  rw [stack, ← scope]

theorem Routed.record {s : State} (routed : s.Routed) (coherent : s.Coherent)
    (opened : s.openScopes ≠ []) (id : Occurrence) (access : Access) :
    (s.record id access).Routed := by
  obtain ⟨v, a, inner, outer, references, route, _⟩ :=
    routed.route_record coherent opened id access
  refine (Grows.record coherent.nested.nodup id access).routed coherent routed ?_
  -- The only use that is new is the last one.
  intro i use outside found
  rw [references] at found
  have below := (Array.getElem?_eq_some_iff.1 found).1
  have last : i = s.references.size := by
    rw [Array.size_push] at below
    omega
  subst last
  rw [Array.getElem?_push_size] at found
  cases found
  exact ⟨a, inner, route⟩

/-- Opening a scope and leaving it keep every use on its way. -/
theorem Routed.openWith {s : State} (routed : s.Routed) (coherent : s.Coherent) (kind : ScopeKind)
    (node : Node) (arguments : Option Name) (decls : List Declaration) :
    (s.openWith kind node arguments decls).Routed :=
  (Grows.openWith s kind node arguments decls).routed_of_quiet coherent routed
    (congrArg Array.size (references_openWith s kind node arguments decls))

theorem Routed.leave {s : State} (routed : s.Routed) (coherent : s.Coherent) : s.leave.Routed :=
  (Grows.leave s).routed_of_quiet coherent routed (by rw [references_leave])

/-- Every step keeps every use on its way. -/
theorem Routed.invariant : Invariant Routed where
  record routed coherent opened id access := routed.record coherent opened id access
  directEval routed coherent := (Grows.makeDynamic _).routed_of_quiet coherent routed rfl
  withStatement routed coherent := (Grows.report _ _).routed_of_quiet coherent routed rfl
  openWith routed coherent _ kind node arguments decls :=
    routed.openWith coherent kind node arguments decls
  leave routed coherent := routed.leave coherent

theorem Routed.scope {s : State} (routed : s.Routed) (coherent : s.Coherent) (can : s.CanEnter)
    (kind : ScopeKind) (node : Node) (arguments : Option Name) (decls : List Declaration)
    (inner : List Layout) : (s.layOut (.scope kind node arguments decls inner)).Routed :=
  Routed.invariant.scope coherent can (routed.openWith coherent kind node arguments decls) inner

theorem Routed.initial (events : Array Event) : (State.initial events).Routed where
  bounded _ _ found := by simp [State.initial] at found
  routes _ _ found := by simp [State.initial] at found

theorem routed_layOut_initial (events : Array Event) (kind : ScopeKind) (node : Node)
    (arguments : Option Name) (decls : List Declaration) (inner : List Layout) :
    ((initial events).layOut (.scope kind node arguments decls inner)).Routed :=
  (Routed.initial events).scope (.initial events) (fun _ => rfl) kind node arguments decls inner

end State

end ScopeAnalysis.Resolution
