import ScopeAnalysis.Proofs.Coherence

/-!
# Growth

What is there stays. A layout adds scopes, variables and references, and passes new references
through the open scopes, but an old scope keeps its kind, node, parent and bindings, the root apart,
which may gain variables without declarations. Old variables keep their declarations, and old
references pass through the scopes they passed through before.
-/

namespace ScopeAnalysis

namespace MultiMap

variable {κ ν : Type}

/-- Every value with its key. -/
def pairs (map : MultiMap κ ν) : List (κ × ν) :=
  map.entries.flatMap (fun entry => entry.2.map (Prod.mk entry.1))

theorem pairs_insertEntry_perm [DecidableEq κ] (key : κ) (value : ν) (entries : List (κ × List ν)) :
    ((insertEntry key value entries).flatMap (fun entry => entry.2.map (Prod.mk entry.1))).Perm
      ((key, value) :: entries.flatMap (fun entry => entry.2.map (Prod.mk entry.1))) := by
  induction entries with
  | nil => exact .refl _
  | cons entry rest ih =>
    obtain ⟨other, values⟩ := entry
    rw [insertEntry]
    split
    next same =>
      subst same
      simp only [List.flatMap_cons, List.map_append, List.append_assoc]
      exact List.perm_middle
    next =>
      simp only [List.flatMap_cons]
      exact (ih.append_left _).trans List.perm_middle

/-- A value is added once, under its key. -/
theorem pairs_insert_perm [DecidableEq κ] (map : MultiMap κ ν) (key : κ) (value : ν) :
    (map.insert key value).pairs.Perm ((key, value) :: map.pairs) :=
  pairs_insertEntry_perm key value map.entries

/-- Values that are left out of account may be added. -/
theorem filter_pairs_insert [DecidableEq κ] (map : MultiMap κ ν) (key : κ) (value : ν)
    {p : κ × ν → Bool} (out : p (key, value) = false) :
    (map.insert key value).pairs.filter p = map.pairs.filter p := by
  obtain ⟨entries⟩ := map
  simp only [pairs, insert]
  induction entries with
  | nil => simp [insertEntry, out]
  | cons entry rest ih =>
    obtain ⟨other, values⟩ := entry
    rw [insertEntry]
    split
    next same =>
      subst same
      simp [List.flatMap_cons, List.filter_append, out]
    next =>
      rw [List.flatMap_cons, List.flatMap_cons, List.filter_append, List.filter_append, ih]

/-- A table after more values were added to it. -/
def insertAll [DecidableEq κ] (map : MultiMap κ ν) (added : List (κ × ν)) : MultiMap κ ν :=
  added.foldl (fun map pair => map.insert pair.1 pair.2) map

theorem insertAll_append [DecidableEq κ] (map : MultiMap κ ν) (first second : List (κ × ν)) :
    (map.insertAll first).insertAll second = map.insertAll (first ++ second) :=
  List.foldl_append.symm

theorem mem_pairs_insertAll [DecidableEq κ] (map : MultiMap κ ν) (added : List (κ × ν))
    (pair : κ × ν) : pair ∈ (map.insertAll added).pairs ↔ pair ∈ map.pairs ∨ pair ∈ added := by
  induction added generalizing map with
  | nil => simp [insertAll]
  | cons first rest ih =>
    have step := ih (map.insert first.1 first.2)
    have one := (pairs_insert_perm map first.1 first.2).mem_iff (a := pair)
    rw [List.mem_cons] at one
    rw [List.mem_cons]
    exact step.trans (by rw [one]; tauto)

theorem filter_pairs_insertAll [DecidableEq κ] (map : MultiMap κ ν) (added : List (κ × ν))
    {p : κ × ν → Bool} (out : ∀ pair ∈ added, p pair = false) :
    (map.insertAll added).pairs.filter p = map.pairs.filter p := by
  induction added generalizing map with
  | nil => rfl
  | cons first rest ih =>
    obtain ⟨outFirst, outRest⟩ := List.forall_mem_cons.1 out
    exact (ih (map.insert first.1 first.2) outRest).trans
      (filter_pairs_insert map first.1 first.2 outFirst)

theorem mem_pairs_of_mem_get [DecidableEq κ] {map : MultiMap κ ν} {key : κ} {value : ν}
    (member : value ∈ map.get key) : (key, value) ∈ map.pairs := by
  unfold get at member
  split at member
  next entry found =>
    have same : entry.1 = key := by simpa using List.find?_some found
    subst same
    exact List.mem_flatMap.2 ⟨entry, List.mem_of_find?_eq_some found, List.mem_map_of_mem member⟩
  next => cases member

end MultiMap

/-- The names under which a use passes through a scope, once for each time. -/
def Scope.passes (scope : Scope) (r : ReferenceId) : List (Name × ReferenceId) :=
  scope.through.pairs.filter (fun pair => pair.2 = r)

namespace Resolution

namespace State

/-- The references between two states. -/
def Since (s t : State) (r : ReferenceId) : Prop :=
  s.references.size ≤ r.index ∧ r.index < t.references.size

/-- All that was there before is there after, with nothing declared in it since. Only references
made since have passed through a scope since, and a dynamic scope stays dynamic. -/
structure Grows (s t : State) : Prop where
  vars : ∀ (i : Nat) (v : Variable), s.vars[i]? = some v →
    ∃ w, t.vars[i]? = some w ∧ w.name = v.name ∧ w.scope = v.scope ∧
      w.declarations = v.declarations
  scopes : ∀ (i : Nat) (a : Scope), s.scopes[i]? = some a →
    ∃ b more added, t.scopes[i]? = some b ∧ b.kind = a.kind ∧ b.node = a.node ∧
      b.parent = a.parent ∧ b.bindings = a.bindings ++ more ∧ (more ≠ [] → i = 0) ∧
      (∀ entry ∈ more, t.vars[entry.2.index]?.map Variable.declarations = some []) ∧
      b.through = a.through.insertAll added ∧ ∀ pair ∈ added, Since s t pair.2
  fresh : ∀ (i : Nat) (b : Scope), s.scopes.size ≤ i → t.scopes[i]? = some b →
    ∀ pair ∈ b.through.pairs, Since s t pair.2
  references : ∀ (i : Nat) (r : Reference), s.references[i]? = some r → t.references[i]? = some r
  dynamic : ∀ (i : Nat) (a : Scope), s.scopes[i]? = some a → a.dynamic = true →
    ∃ b, t.scopes[i]? = some b ∧ b.dynamic = true

namespace Grows

variable {s t u : State}

theorem refl (s : State) : Grows s s where
  vars _ v found := ⟨v, found, rfl, rfl, rfl⟩
  scopes _ a found :=
    ⟨a, [], [], found, rfl, rfl, rfl, by simp, by simp, by simp, rfl, by simp⟩
  fresh i b outside found := absurd (Array.getElem?_eq_some_iff.1 found).1 (by omega)
  references _ _ found := found
  dynamic _ a found marked := ⟨a, found, marked⟩

theorem references_size (grows : Grows s t) : s.references.size ≤ t.references.size := by
  by_contra less
  have inside : t.references.size < s.references.size := by omega
  have found := grows.references _ _ (Array.getElem?_eq_getElem inside)
  simp at found

theorem since_left (second : Grows t u) {r : ReferenceId} (since : Since s t r) : Since s u r := by
  have size := second.references_size
  exact ⟨since.1, by have := since.2; omega⟩

theorem since_right (first : Grows s t) {r : ReferenceId} (since : Since t u r) :
    Since s u r := by
  have size := first.references_size
  exact ⟨by have := since.1; omega, since.2⟩

/-- An old reference passes through an old scope as before. -/
theorem passes_eq (grows : Grows s t) {i : Nat} {a b : Scope} (found : s.scopes[i]? = some a)
    (foundT : t.scopes[i]? = some b) {r : ReferenceId} (old : r.index < s.references.size) :
    b.passes r = a.passes r := by
  obtain ⟨b', more, added, foundB, _, _, _, _, _, _, through, since⟩ := grows.scopes i a found
  rw [foundT] at foundB
  cases foundB
  simp only [Scope.passes, through]
  refine MultiMap.filter_pairs_insertAll a.through added (fun pair member => ?_)
  rw [decide_eq_false_iff_not]
  rintro rfl
  have := (since pair member).1
  omega

theorem trans (first : Grows s t) (second : Grows t u) : Grows s u where
  vars i v found := by
    obtain ⟨w, foundW, name, scope, decls⟩ := first.vars i v found
    obtain ⟨x, foundX, nameX, scopeX, declsX⟩ := second.vars i w foundW
    exact ⟨x, foundX, nameX.trans name, scopeX.trans scope, declsX.trans decls⟩
  scopes i a found := by
    obtain ⟨b, more, added, foundB, kind, node, parent, bindings, root, bare, through, since⟩ :=
      first.scopes i a found
    obtain ⟨c, more', added', foundC, kindC, nodeC, parentC, bindingsC, rootC, bareC, throughC,
      sinceC⟩ := second.scopes i b foundB
    refine ⟨c, more ++ more', added ++ added', foundC, kindC.trans kind, nodeC.trans node,
      parentC.trans parent, by rw [bindingsC, bindings, List.append_assoc], ?_, ?_,
      by rw [throughC, through, MultiMap.insertAll_append], ?_⟩
    · intro some
      by_contra other
      have none : more = [] := by by_contra h; exact other (root h)
      have none' : more' = [] := by by_contra h; exact other (rootC h)
      exact some (by rw [none, none']; rfl)
    · intro entry member
      rcases List.mem_append.1 member with old | new
      · obtain ⟨v, foundV, noDecls⟩ := Option.map_eq_some_iff.1 (bare entry old)
        obtain ⟨w, foundW, _, _, same⟩ := second.vars _ v foundV
        rw [foundW, Option.map_some, same, noDecls]
      · exact bareC entry new
    · intro pair member
      rcases List.mem_append.1 member with old | new
      · exact second.since_left (since pair old)
      · exact first.since_right (sinceC pair new)
  fresh i c outside found := by
    intro pair member
    by_cases there : i < t.scopes.size
    · obtain ⟨c', more, added, foundC, _, _, _, _, _, _, through, since⟩ :=
        second.scopes i _ (Array.getElem?_eq_getElem there)
      rw [found] at foundC
      cases foundC
      rw [through, MultiMap.mem_pairs_insertAll] at member
      rcases member with old | new
      · exact second.since_left
          (first.fresh i _ outside (Array.getElem?_eq_getElem there) pair old)
      · exact first.since_right (since pair new)
    · exact first.since_right (second.fresh i c (by omega) found pair member)
  references i r found := second.references i r (first.references i r found)
  dynamic i a found marked := by
    obtain ⟨b, foundB, markedB⟩ := first.dynamic i a found marked
    exact second.dynamic i b foundB markedB

/-- A step that changes nothing of what was there but children, and marks scopes as dynamic. -/
theorem of_kept (scopes : ∀ (i : Nat) (a : Scope), s.scopes[i]? = some a →
      ∃ b, t.scopes[i]? = some b ∧ (b.kind, b.node, b.parent, b.bindings, b.through) =
        (a.kind, a.node, a.parent, a.bindings, a.through) ∧
        (a.dynamic = true → b.dynamic = true))
    (fresh : ∀ (i : Nat) (b : Scope), s.scopes.size ≤ i → t.scopes[i]? = some b →
      b.through = .empty)
    (vars : ∀ (i : Nat) (v : Variable), s.vars[i]? = some v → t.vars[i]? = some v)
    (references : t.references = s.references) : Grows s t where
  vars i v found := ⟨v, vars i v found, rfl, rfl, rfl⟩
  scopes i a found := by
    obtain ⟨b, foundB, eq, _⟩ := scopes i a found
    simp only [Prod.mk.injEq] at eq
    obtain ⟨kind, node, parent, bindings, through⟩ := eq
    exact ⟨b, [], [], foundB, kind, node, parent, by simpa using bindings, by simp, by simp,
      through, by simp⟩
  fresh i b outside found pair member := by
    rw [fresh i b outside found] at member
    cases member
  references i r found := by rw [references, found]
  dynamic i a found marked := by
    obtain ⟨b, foundB, _, keeps⟩ := scopes i a found
    exact ⟨b, foundB, keeps marked⟩

theorem updateScope (s : State) (id : ScopeId) {f : Scope → Scope}
    (same : ∀ a, ((f a).kind, (f a).node, (f a).parent, (f a).bindings, (f a).through) =
      (a.kind, a.node, a.parent, a.bindings, a.through))
    (keeps : ∀ a, a.dynamic = true → (f a).dynamic = true) : Grows s (s.updateScope id f) := by
  refine of_kept (fun i a found => ?_) (fun i b outside found => ?_) (fun _ _ found => found) rfl
  · rw [getElem?_updateScope, found]
    split
    · exact ⟨f a, rfl, same a, keeps a⟩
    · exact ⟨a, rfl, rfl, fun marked => marked⟩
  · have below := (Array.getElem?_eq_some_iff.1 found).1
    rw [size_updateScope] at below
    omega

/-- A step that changes no scope, variable or reference. -/
theorem of_same (scopes : t.scopes = s.scopes) (vars : t.vars = s.vars)
    (references : t.references = s.references) : Grows s t := by
  obtain ⟨_, _, _, openScopes, sight, strict, events⟩ := t
  cases scopes
  cases vars
  cases references
  have same := refl s
  exact ⟨same.vars, same.scopes, same.fresh, same.references, same.dynamic⟩

theorem report (s : State) (event : Event) : Grows s (s.report event) := of_same rfl rfl rfl

theorem leave (s : State) : Grows s s.leave := by
  unfold State.leave
  split
  · exact refl s
  · exact of_same rfl rfl rfl

theorem makeDynamic (s : State) : Grows s s.makeDynamic :=
  (report s _).trans (updateScope _ _ (fun _ => rfl) (fun _ _ => rfl))

/-- The root may gain a variable that is declared nowhere. -/
theorem addToRoot (s : State) (name : Name) :
    Grows s (s.addVariable ScopeId.root name []).2 where
  vars _ v found := ⟨v, vars_addVariable_of_some found _ _ _, rfl, rfl, rfl⟩
  scopes i a found := by
    rw [getElem?_addVariable]
    split
    next root =>
      refine ⟨{ a with bindings := a.bindings ++ [(name, ⟨s.vars.size⟩)] },
        [(name, ⟨s.vars.size⟩)], [], by rw [found]; rfl, rfl, rfl, rfl, rfl, fun _ => root.symm,
        ?_, rfl, by simp⟩
      intro entry member
      cases List.mem_singleton.1 member
      simp [vars_addVariable]
    next =>
      exact ⟨a, [], [], found, rfl, rfl, rfl, by simp, by simp, by simp, rfl, by simp⟩
  fresh i b outside found := by
    have below := (Array.getElem?_eq_some_iff.1 found).1
    rw [size_addVariable] at below
    omega
  references _ _ found := found
  dynamic i a found marked := by
    rw [getElem?_addVariable, found]
    split
    · exact ⟨_, rfl, marked⟩
    · exact ⟨a, rfl, marked⟩

theorem resolve (s : State) (name : Name) : Grows s (s.resolve name).2 := by
  unfold State.resolve
  split
  · exact refl s
  · exact (report s _).trans (addToRoot _ name)

end Grows

theorem references_resolve (s : State) (name : Name) :
    (s.resolve name).2.references = s.references := by
  unfold resolve
  split <;> rfl

/-- What passing a new reference through scopes does to one of them. -/
theorem getElem?_passThrough (s : State) (name : Name) (r : ReferenceId) (ids : List ScopeId)
    (unique : ids.Nodup) (i : Nat) :
    (ids.foldl (passThrough name r) s).scopes[i]? =
      if ⟨i⟩ ∈ ids then s.scopes[i]?.map (fun a => { a with through := a.through.insert name r })
      else s.scopes[i]? := by
  induction ids generalizing s with
  | nil => rfl
  | cons id rest ih =>
    obtain ⟨absent, uniqueRest⟩ := List.nodup_cons.1 unique
    rw [List.foldl_cons, ih _ uniqueRest]
    have step : (State.passThrough name r s id).scopes[i]? = if id.index = i then
        s.scopes[i]?.map (fun a => { a with through := a.through.insert name r })
        else s.scopes[i]? := getElem?_updateScope s id _ i
    by_cases here : id.index = i
    · have same : (⟨i⟩ : ScopeId) = id := congrArg ScopeId.mk here.symm
      rw [same, if_neg absent, if_pos (List.mem_cons_self ..), step, if_pos here]
    · have other : (⟨i⟩ : ScopeId) ≠ id := fun h => here (congrArg ScopeId.index h).symm
      have same : (⟨i⟩ : ScopeId) ∈ id :: rest ↔ (⟨i⟩ : ScopeId) ∈ rest := by
        rw [List.mem_cons, or_iff_right other]
      rw [step, if_neg here, if_congr same rfl rfl]

theorem vars_passThrough (s : State) (name : Name) (r : ReferenceId) (ids : List ScopeId) :
    (ids.foldl (passThrough name r) s).vars = s.vars := by
  rw [foldl_passThrough_eq]

theorem references_passThrough (s : State) (name : Name) (r : ReferenceId) (ids : List ScopeId) :
    (ids.foldl (passThrough name r) s).references = s.references := by
  rw [foldl_passThrough_eq]

theorem getElem?_attach (s : State) (id : Occurrence) (access : Access) (v : VariableId)
    (i : Nat) : (s.attach id access v).vars[i]? =
      if v.index = i then
        s.vars[i]?.map (fun a => { a with references := a.references ++ [⟨s.references.size⟩] })
      else s.vars[i]? :=
  getElem?_updateVariable _ v _ i

theorem nodup_inside {s : State} (distinct : s.openScopes.Nodup) (v : VariableId) :
    (s.inside v).Nodup :=
  distinct.sublist (List.takeWhile_sublist _)

theorem Coherent.nodup_inside {s : State} (coherent : s.Coherent) (v : VariableId) :
    (s.inside v).Nodup :=
  State.nodup_inside coherent.nested.nodup v

theorem size_passThrough (s : State) (name : Name) (r : ReferenceId) (ids : List ScopeId) :
    (ids.foldl (passThrough name r) s).scopes.size = s.scopes.size := by
  induction ids generalizing s with
  | nil => rfl
  | cons id rest ih => exact (ih (passThrough name r s id)).trans (size_updateScope s id _)

/-- A use adds one reference, and only this one passes through more scopes. -/
theorem Grows.attach {s : State} (id : Occurrence) (access : Access) (v : VariableId)
    {ids : List ScopeId} (unique : ids.Nodup) :
    Grows s (ids.foldl (passThrough id.name ⟨s.references.size⟩) (s.attach id access v)) where
  vars i a found := by
    rw [vars_passThrough, getElem?_attach]
    split
    · exact ⟨{ a with references := a.references ++ [⟨s.references.size⟩] },
        by rw [found]; rfl, rfl, rfl, rfl⟩
    · exact ⟨a, found, rfl, rfl, rfl⟩
  scopes i a found := by
    have there : (s.attach id access v).scopes[i]? = some a := found
    rw [getElem?_passThrough _ _ _ _ unique, there]
    split
    · refine ⟨_, [], [(id.name, ⟨s.references.size⟩)], rfl, rfl, rfl, rfl, by simp, by simp,
        by simp, rfl, fun pair member => ?_⟩
      cases List.mem_singleton.1 member
      refine ⟨Nat.le_refl _, ?_⟩
      rw [references_passThrough]
      simp [State.attach, State.updateVariable]
    · exact ⟨a, [], [], rfl, rfl, rfl, rfl, by simp, by simp, by simp, rfl, by simp⟩
  fresh i b outside found := by
    have below := (Array.getElem?_eq_some_iff.1 found).1
    rw [size_passThrough] at below
    change i < s.scopes.size at below
    omega
  references i r found := by
    have below := (Array.getElem?_eq_some_iff.1 found).1
    rw [references_passThrough]
    change (s.references.push _)[i]? = some r
    rw [Array.getElem?_push, if_neg (by omega)]
    exact found
  dynamic i a found marked := by
    have there : (s.attach id access v).scopes[i]? = some a := found
    rw [getElem?_passThrough _ _ _ _ unique, there]
    split
    · exact ⟨_, rfl, marked⟩
    · exact ⟨a, rfl, marked⟩

theorem Grows.record {s : State} (distinct : s.openScopes.Nodup) (id : Occurrence)
    (access : Access) : Grows s (s.record id access) := by
  rw [record_eq]
  have resolved : (s.resolve id.name).2.openScopes.Nodup := (openScopes_resolve ..).symm ▸ distinct
  refine (Grows.resolve s id.name).trans (.attach id access _ (nodup_inside ?_ _))
  exact resolved

/-- A name that a scope binds belongs to a variable of that scope. -/
theorem Coherent.owner {s : State} {id : ScopeId} {name : Name} {v : VariableId}
    (coherent : s.Coherent) (owned : s.own name id = some v) :
    ∃ a, s.vars[v.index]? = some a ∧ a.name = name ∧ a.scope = id :=
  coherent.bound id _ (mem_of_own owned)

/-- Only one scope has changed, and in it only what it binds: besides the variables that it bound
before, new ones. -/
structure Furnished (id : ScopeId) (s t : State) : Prop where
  size : t.scopes.size = s.scopes.size
  others : ∀ i : Nat, i ≠ id.index → t.scopes[i]? = s.scopes[i]?
  here : ∀ a : Scope, s.scopes[id.index]? = some a →
    ∃ bindings, t.scopes[id.index]? = some { a with bindings := bindings }
  bound : ∀ entry ∈ t.bindingsOf id, entry ∈ s.bindingsOf id ∨ s.vars.size ≤ entry.2.index
  grown : s.vars.size ≤ t.vars.size
  vars : ∀ (i : Nat) (v : Variable), s.vars[i]? = some v →
    (∀ entry ∈ s.bindingsOf id, entry.2.index ≠ i) → t.vars[i]? = some v
  references : t.references = s.references

namespace Furnished

variable {id : ScopeId} {s t u : State}

theorem refl (id : ScopeId) (s : State) : Furnished id s s where
  size := rfl
  others _ _ := rfl
  here a found := ⟨a.bindings, found⟩
  bound _ member := .inl member
  grown := Nat.le_refl _
  vars _ _ found _ := found
  references := rfl

theorem trans (first : Furnished id s t) (second : Furnished id t u) : Furnished id s u where
  size := second.size.trans first.size
  others i other := (second.others i other).trans (first.others i other)
  here a found := by
    obtain ⟨bindings, foundT⟩ := first.here a found
    exact second.here { a with bindings := bindings } foundT
  bound entry member := by
    rcases second.bound entry member with inT | new
    · exact first.bound entry inT
    · exact .inr (Nat.le_trans first.grown new)
  grown := Nat.le_trans first.grown second.grown
  vars i v found unbound := by
    refine second.vars i v (first.vars i v found unbound) (fun entry member => ?_)
    have old : i < s.vars.size := (Array.getElem?_eq_some_iff.1 found).1
    rcases first.bound entry member with inS | new
    · exact unbound entry inS
    · omega
  references := second.references.trans first.references

theorem report (id : ScopeId) (s : State) (event : Event) : Furnished id s (s.report event) where
  size := rfl
  others _ _ := rfl
  here a found := ⟨a.bindings, found⟩
  bound _ member := .inl member
  grown := Nat.le_refl _
  vars _ _ found _ := found
  references := rfl

theorem addVariable (id : ScopeId) (s : State) (name : Name) (ds : List Declaration) :
    Furnished id s (s.addVariable id name ds).2 where
  size := size_addVariable s id name ds
  others i other := by rw [getElem?_addVariable, if_neg other.symm]
  here a found := ⟨_, by rw [getElem?_addVariable, if_pos rfl, found]; rfl⟩
  bound entry member := by
    obtain ⟨a, found⟩ := exists_of_mem_bindingsOf member
    have there : id.index < s.scopes.size := by
      rw [← size_addVariable s id name ds]
      exact (Array.getElem?_eq_some_iff.1 found).1
    rcases (mem_bindingsOf_addVariable there).1 member with old | ⟨_, rfl⟩
    · exact .inl old
    · exact .inr (Nat.le_refl _)
  grown := by simp [vars_addVariable]
  vars _ _ found _ := vars_addVariable_of_some found id name ds
  references := rfl

theorem updateVariable {name : Name} {v : VariableId} (owned : s.own name id = some v)
    (f : Variable → Variable) : Furnished id s (s.updateVariable v f) where
  size := rfl
  others _ _ := rfl
  here a found := ⟨a.bindings, found⟩
  bound _ member := .inl member
  grown := Nat.le_of_eq Array.size_modify.symm
  vars i a found unbound := by
    rw [getElem?_updateVariable, if_neg (unbound _ (mem_of_own owned))]
    exact found
  references := rfl

theorem declare {rest : List ScopeId} (stack : s.openScopes = id :: rest) (d : Declaration) :
    Furnished id s (s.declare d) := by
  have here := current_eq stack
  have reported := report id s (.declare d.id.name d.kind s.current)
  simp only [State.declare]
  split
  next v owned =>
    rw [ownVariable?_eq] at owned
    change (s.report (.declare d.id.name d.kind s.current)).own d.id.name s.current = some v
      at owned
    rw [here] at owned reported ⊢
    exact reported.trans (updateVariable owned _)
  next =>
    rw [here] at reported ⊢
    exact reported.trans (addVariable id _ _ _)

theorem declareAll {rest : List ScopeId} (stack : s.openScopes = id :: rest)
    (ds : List Declaration) : Furnished id s (s.declareAll ds) := by
  induction ds generalizing s with
  | nil => exact refl id s
  | cons d others ih => exact (declare stack d).trans (ih (by simpa using stack))

theorem bindArguments {rest : List ScopeId} (stack : s.openScopes = id :: rest)
    (arguments : Name) : Furnished id s (s.bindArguments arguments) := by
  unfold State.bindArguments
  split
  · exact refl id s
  · rw [current_eq stack]
    exact addVariable id s arguments []

theorem furnish {rest : List ScopeId} (stack : s.openScopes = id :: rest)
    (arguments : Option Name) (decls : List Declaration) :
    Furnished id s (s.furnish arguments decls) := by
  cases arguments with
  | none => exact declareAll stack decls
  | some name =>
    exact (bindArguments stack name).trans (declareAll (by simpa using stack) decls)

/-- A scope is furnished as soon as it has been opened. -/
theorem openWith (s : State) (kind : ScopeKind) (node : Node) (arguments : Option Name)
    (decls : List Declaration) :
    Furnished ⟨s.scopes.size⟩ (s.enter kind node) (s.openWith kind node arguments decls) :=
  furnish (openScopes_enter s kind node) arguments decls

end Furnished

theorem references_openWith (s : State) (kind : ScopeKind) (node : Node)
    (arguments : Option Name) (decls : List Declaration) :
    (s.openWith kind node arguments decls).references = s.references :=
  (Furnished.openWith s kind node arguments decls).references.trans (references_enter s kind node)

/-- Opening a scope with its declarations leaves all older scopes as they were. -/
theorem Grows.openWith (s : State) (kind : ScopeKind) (node : Node) (arguments : Option Name)
    (decls : List Declaration) : Grows s (s.openWith kind node arguments decls) := by
  have furnished := Furnished.openWith s kind node arguments decls
  refine .of_kept (fun i a found => ?_) (fun i b outside found => ?_) (fun i v found => ?_) ?_
  · have old := (Array.getElem?_eq_some_iff.1 found).1
    have other : i ≠ s.scopes.size := Nat.ne_of_lt old
    have kept : (s.openWith kind node arguments decls).scopes[i]? =
        (s.noteChild ⟨s.scopes.size⟩).scopes[i]? := by
      refine (furnished.others i other).trans ?_
      rw [getElem?_enter, if_neg other]
    rw [kept]
    unfold noteChild
    split
    · exact ⟨a, found, rfl, id⟩
    · rw [getElem?_updateScope, found]
      split
      · exact ⟨_, rfl, rfl, id⟩
      · exact ⟨a, rfl, rfl, id⟩
  · -- The only new scope is the one just opened.
    have below := (Array.getElem?_eq_some_iff.1 found).1
    have size := furnished.size.trans (size_enter s kind node)
    have last : i = s.scopes.size := by
      rw [size] at below
      omega
    subst last
    have entered : (s.enter kind node).scopes[s.scopes.size]? = some (s.nextScope kind node) := by
      rw [getElem?_enter, if_pos rfl]
    obtain ⟨bindings, foundB⟩ := furnished.here _ entered
    rw [foundB] at found
    cases found
    rfl
  · -- A scope that has just been opened binds no old variable.
    have bare : (s.enter kind node).bindingsOf ⟨s.scopes.size⟩ = [] := by
      rw [bindingsOf_enter, bindingsOf_next]
    refine furnished.vars i v (by rw [vars_enter]; exact found) ?_
    rw [bare]
    simp
  · exact references_openWith s kind node arguments decls

theorem references_leave (s : State) : s.leave.references = s.references := by
  unfold leave
  split <;> rfl

/-- Every step adds to what is there and leaves the rest alone. -/
theorem Grows.invariant (s : State) : Invariant (Grows s) where
  record grows coherent _ id access := grows.trans (.record coherent.nested.nodup id access)
  directEval grows _ := grows.trans (.makeDynamic _)
  withStatement grows _ := grows.trans (.report _ _)
  openWith grows _ _ kind node arguments decls :=
    grows.trans (.openWith _ kind node arguments decls)
  leave grows _ := grows.trans (.leave _)

theorem Grows.layOut {s : State} (coherent : s.Coherent) (opened : s.openScopes ≠ [])
    (l : Layout) : Grows s (s.layOut l) :=
  (Grows.invariant s).layOut (.refl s) coherent opened l

theorem Grows.layOutAll {s : State} (coherent : s.Coherent) (opened : s.openScopes ≠ [])
    (ls : List Layout) : Grows s (s.layOutAll ls) :=
  (Grows.invariant s).layOutAll (.refl s) coherent opened ls

/-- A scope that has been laid out is of its kind and still dynamic if all of its kind are, and all
that passes through it was added while it was laid out. -/
theorem exists_layOut_scope {s : State} (coherent : s.Coherent) (can : s.CanEnter)
    (kind : ScopeKind) (node : Node) (arguments : Option Name) (decls : List Declaration)
    (inner : List Layout) :
    ∃ scope added, (s.layOut (.scope kind node arguments decls inner)).scopes[s.scopes.size]? =
        some scope ∧ scope.kind = kind ∧ (kind.isDynamic = true → scope.dynamic = true) ∧
      scope.through = MultiMap.empty.insertAll added := by
  have entered : (s.enter kind node).scopes[s.scopes.size]? = some (s.nextScope kind node) := by
    rw [getElem?_enter, if_pos rfl]
  obtain ⟨bindings, started⟩ := (Furnished.openWith s kind node arguments decls).here _ entered
  have grows := (Grows.layOutAll (coherent.openWith can kind node arguments decls)
    opened_openWith inner).trans (.leave _)
  obtain ⟨scope, _, added, found, kindEq, _, _, _, _, _, through, _⟩ := grows.scopes _ _ started
  refine ⟨scope, added, by rw [layOut]; exact found, kindEq, fun marked => ?_, through⟩
  obtain ⟨scope', found', dynamic⟩ := grows.dynamic _ _ started marked
  rw [found] at found'
  cases found'
  exact dynamic

end State

end Resolution

end ScopeAnalysis
