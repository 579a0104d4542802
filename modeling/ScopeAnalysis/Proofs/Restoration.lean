import ScopeAnalysis.Proofs.Passage
import ScopeAnalysis.Proofs.WalkCourse

/-!
# Restoration

A walk puts back what it moves. Whether it is completed or refused, the scopes that were open are
open again, code is as strict as it was, and a name means what it meant before. Only a name that
meant nothing may mean something now: a variable that the root has gained.

The walk may start in any state whose open scopes, bindings and names in sight fit together. Nothing
is asked of the nesting of its scopes, and they fit together again when the walk is over. So scopes
that are opened and names that are declared on the way are taken back in the right order, although
closing a scope takes names out of sight without looking at who put them there.
-/

namespace ScopeAnalysis.Resolution

namespace State

/-- The open scopes, what scopes bind, and what is in sight fit together. -/
structure Tidy (s : State) : Prop where
  distinct : s.openScopes.Nodup
  there : ∀ id ∈ s.openScopes, id.index < s.scopes.size
  /-- The outermost open scope is the root. -/
  rooted : s.openScopes.getLast? = some ScopeId.root
  /-- A scope binds a name once. -/
  unique : ∀ id, ((s.bindingsOf id).map Prod.fst).Nodup
  /-- What a scope binds is a variable of that name. -/
  named : ∀ id, ∀ entry ∈ s.bindingsOf id,
    (s.vars[entry.2.index]?).map Variable.name = some entry.1
  /-- In sight under a name is what the open scopes bind to it, the innermost first. -/
  sighted : ∀ name, s.sight.get name = s.openScopes.filterMap (s.own name)

/-- A state of an analysis in which a scope is open is tidy. -/
theorem Coherent.tidy {s : State} (coherent : s.Coherent) (opened : s.openScopes ≠ []) :
    s.Tidy where
  distinct := coherent.nested.nodup
  there := coherent.nested.index_lt
  rooted := by
    obtain ⟨id, rest, stack⟩ := List.exists_cons_of_ne_nil opened
    have nested := coherent.nested
    rw [stack] at nested ⊢
    exact List.getLast?_eq_some_iff.2 nested.eq_append_root
  unique := coherent.unique
  named id entry member := by
    obtain ⟨v, found, name, _⟩ := coherent.bound id entry member
    rw [found, Option.map_some, name]
  sighted := coherent.sighted

namespace Tidy

variable {s t : State}

theorem opened (tidy : s.Tidy) : s.openScopes ≠ [] := by
  intro none
  have rooted := tidy.rooted
  rw [none] at rooted
  cases rooted

/-- The root is the last of the open scopes and there only. -/
theorem eq_append_root (tidy : s.Tidy) : ∃ inner, s.openScopes = inner ++ [ScopeId.root] :=
  List.getLast?_eq_some_iff.1 tidy.rooted

theorem root_there (tidy : s.Tidy) : ScopeId.root.index < s.scopes.size := by
  obtain ⟨inner, stack⟩ := tidy.eq_append_root
  apply tidy.there
  simp [stack]

/-- Nothing in sight under a name means that no open scope binds it. -/
theorem own_eq_none (tidy : s.Tidy) {name : Name} (unseen : s.sight.get name = []) :
    ∀ id ∈ s.openScopes, s.own name id = none := by
  rw [tidy.sighted, List.filterMap_eq_nil_iff] at unseen
  exact unseen

/-- A step that leaves alone all that tidiness is about keeps it. -/
theorem congr (tidy : s.Tidy) (scopes : SameFrame s t) (size : s.scopes.size ≤ t.scopes.size)
    (vars : ∀ i : Nat, (t.vars[i]?).map Variable.name = (s.vars[i]?).map Variable.name)
    (openScopes : t.openScopes = s.openScopes) (sight : t.sight = s.sight) : t.Tidy where
  distinct := openScopes ▸ tidy.distinct
  there id member := by
    rw [openScopes] at member
    exact Nat.lt_of_lt_of_le (tidy.there id member) size
  rooted := openScopes ▸ tidy.rooted
  unique id := by
    rw [scopes.bindingsOf]
    exact tidy.unique id
  named id entry member := by
    rw [scopes.bindingsOf] at member
    rw [vars]
    exact tidy.named id entry member
  sighted name := by
    rw [sight, openScopes, scopes.own]
    exact tidy.sighted name

theorem report (tidy : s.Tidy) (event : Event) : (s.report event).Tidy :=
  tidy.congr (.refl s) (Nat.le_refl _) (fun _ => rfl) rfl rfl

theorem updateScope (tidy : s.Tidy) (id : ScopeId) {f : Scope → Scope}
    (same : ∀ a, ((f a).id, (f a).parent, (f a).bindings) = (a.id, a.parent, a.bindings)) :
    (s.updateScope id f).Tidy :=
  tidy.congr (.updateScope s id same) (Nat.le_of_eq (size_updateScope s id f).symm) (fun _ => rfl)
    rfl rfl

theorem updateVariable (tidy : s.Tidy) (v : VariableId) {f : Variable → Variable}
    (same : ∀ a, (f a).name = a.name) : (s.updateVariable v f).Tidy := by
  refine tidy.congr (.refl s) (Nat.le_refl _) (fun i => ?_) rfl rfl
  rw [getElem?_updateVariable]
  split
  · cases s.vars[i]? <;> simp [same]
  · rfl

/-- The next scope is none of those that are open. -/
theorem enter (tidy : s.Tidy) (kind : ScopeKind) (node : Node) : (s.enter kind node).Tidy where
  distinct := by
    rw [openScopes_enter, List.nodup_cons]
    exact ⟨fun member => Nat.lt_irrefl _ (tidy.there _ member), tidy.distinct⟩
  there id member := by
    rw [openScopes_enter] at member
    rw [size_enter]
    rcases List.mem_cons.1 member with rfl | old
    · exact Nat.lt_succ_self _
    · exact Nat.lt_succ_of_lt (tidy.there id old)
  rooted := by
    rw [openScopes_enter, List.getLast?_cons, tidy.rooted]
    rfl
  unique id := by
    rw [bindingsOf_enter]
    exact tidy.unique id
  named id entry member := by
    rw [bindingsOf_enter] at member
    rw [vars_enter]
    exact tidy.named id entry member
  sighted name := by
    rw [sight_enter, filterMap_own_enter]
    exact tidy.sighted name

/-- A name that no scope further in binds may be added to an open scope. -/
theorem addVariable (tidy : s.Tidy) {scope : ScopeId} {name : Name} {inner outer : List ScopeId}
    (stack : s.openScopes = inner ++ scope :: outer)
    (hidden : ∀ id ∈ inner, s.own name id = none) (free : s.own name scope = none)
    (ds : List Declaration) : (s.addVariable scope name ds).2.Tidy := by
  have there : scope.index < s.scopes.size := tidy.there scope (by simp [stack])
  refine ⟨tidy.distinct, fun id member => ?_, tidy.rooted,
    unique_addVariable tidy.unique there free ds, fun id entry member => ?_,
    sighted_addVariable tidy.distinct there stack hidden free tidy.sighted ds⟩
  · rw [size_addVariable]
    exact tidy.there id member
  · rcases (mem_bindingsOf_addVariable there).1 member with old | ⟨rfl, rfl⟩
    · obtain ⟨v, found, named⟩ := Option.map_eq_some_iff.1 (tidy.named id entry old)
      rw [vars_addVariable_of_some found, Option.map_some, named]
    · simp [vars_addVariable]

section Innermost

variable {id : ScopeId} {rest : List ScopeId}

theorem declare (tidy : s.Tidy) (stack : s.openScopes = id :: rest) (d : Declaration) :
    (s.declare d).Tidy := by
  have reported := tidy.report (.declare d.id.name d.kind s.current)
  have top : s.openScopes = [] ++ s.current :: rest := by rw [current_eq stack, stack]; rfl
  cases owned : s.own d.id.name s.current with
  | some v =>
    rw [declare_of_own owned]
    exact reported.updateVariable v (fun _ => rfl)
  | none =>
    rw [declare_of_free owned]
    exact reported.addVariable top (by simp) owned [d]

theorem bindArguments (tidy : s.Tidy) (stack : s.openScopes = id :: rest) (arguments : Name) :
    (s.bindArguments arguments).Tidy := by
  have top : s.openScopes = [] ++ s.current :: rest := by rw [current_eq stack, stack]; rfl
  cases owned : s.own arguments s.current with
  | some v =>
    rw [bindArguments_of_own owned]
    exact tidy
  | none =>
    rw [bindArguments_of_free owned]
    exact tidy.addVariable top (by simp) owned []

theorem declareAll (tidy : s.Tidy) (stack : s.openScopes = id :: rest) (ds : List Declaration) :
    (s.declareAll ds).Tidy := by
  induction ds generalizing s with
  | nil => exact tidy
  | cons d others ih => exact ih (tidy.declare stack d) (by simpa using stack)

theorem furnish (tidy : s.Tidy) (stack : s.openScopes = id :: rest) (arguments : Option Name)
    (decls : List Declaration) : (s.furnish arguments decls).Tidy := by
  cases arguments with
  | none => exact tidy.declareAll stack decls
  | some name => exact (tidy.bindArguments stack name).declareAll (by simpa using stack) decls

/-- Closing a scope inside the root. -/
theorem leave (tidy : s.Tidy) (stack : s.openScopes = id :: rest) (further : rest ≠ []) :
    s.leave.Tidy := by
  have distinct := tidy.distinct
  have there := tidy.there
  have rooted := tidy.rooted
  rw [stack] at distinct there rooted
  obtain ⟨outer, others, rfl⟩ := List.exists_cons_of_ne_nil further
  simp only [State.leave, stack]
  refine ⟨(List.nodup_cons.1 distinct).2, fun id member => there id (List.mem_cons_of_mem _ member),
    ?_, tidy.unique, tidy.named, fun name => ?_⟩
  · rw [List.getLast?_cons_cons] at rooted
    exact rooted
  · exact get_popAll_bindingsOf (tidy.unique id) (stack ▸ tidy.sighted name)

/-- In sight is what the innermost scope binds, before all that is in sight outside of it. -/
theorem sight_eq (tidy : s.Tidy) (stack : s.openScopes = id :: rest) (name : Name) :
    s.sight.get name = (s.own name id).toList ++ s.leave.sight.get name := by
  have sighted := stack ▸ tidy.sighted name
  have outside : s.leave.sight.get name = rest.filterMap (s.own name) := by
    simp only [State.leave, stack]
    exact get_popAll_bindingsOf (tidy.unique id) sighted
  rw [outside, sighted]
  cases owned : s.own name id with
  | none => rw [List.filterMap_cons_none owned]; rfl
  | some v => rw [List.filterMap_cons_some owned]; rfl

end Innermost

theorem openWith (tidy : s.Tidy) (kind : ScopeKind) (node : Node) (arguments : Option Name)
    (decls : List Declaration) : (s.openWith kind node arguments decls).Tidy :=
  (tidy.enter kind node).furnish (openScopes_enter s kind node) arguments decls

theorem makeDynamic (tidy : s.Tidy) : s.makeDynamic.Tidy :=
  (tidy.report _).updateScope _ (fun _ => rfl)

theorem attach (tidy : s.Tidy) (id : Occurrence) (access : Access) (v : VariableId) :
    (s.attach id access v).Tidy := by
  have pushed : ({ s with references := s.references.push ⟨id, access, v⟩ } : State).Tidy :=
    tidy.congr (.refl s) (Nat.le_refl _) (fun _ => rfl) rfl rfl
  exact pushed.updateVariable v (fun _ => rfl)

theorem passThrough (tidy : s.Tidy) (name : Name) (r : ReferenceId) (ids : List ScopeId) :
    (ids.foldl (passThrough name r) s).Tidy := by
  induction ids generalizing s with
  | nil => exact tidy
  | cons id rest ih => exact ih (tidy.updateScope id (fun _ => rfl))

end Tidy

/-! What single steps leave alone. -/

theorem strict_passThrough (s : State) (name : Name) (r : ReferenceId) (ids : List ScopeId) :
    (ids.foldl (passThrough name r) s).strict = s.strict := by
  rw [foldl_passThrough_eq]

theorem sight_passThrough (s : State) (name : Name) (r : ReferenceId) (ids : List ScopeId) :
    (ids.foldl (passThrough name r) s).sight = s.sight := by
  rw [foldl_passThrough_eq]

theorem strict_leave (s : State) : s.leave.strict = s.strict := by
  unfold leave
  split <;> rfl

theorem own_leave (s : State) : s.leave.own = s.own := by
  unfold leave
  split <;> rfl

/-- A scope that was open before binds no less and no more when another one has been opened. -/
theorem own_openWith (s : State) (kind : ScopeKind) (node : Node) (arguments : Option Name)
    (decls : List Declaration) {id : ScopeId} (old : id.index < s.scopes.size) (name : Name) :
    (s.openWith kind node arguments decls).own name id = s.own name id := by
  have other : id.index ≠ s.scopes.size := Nat.ne_of_lt old
  have kept := (Furnished.openWith s kind node arguments decls).others id.index other
  have same : (s.openWith kind node arguments decls).bindingsOf id =
      (s.enter kind node).bindingsOf id := by
    unfold bindingsOf
    rw [kept]
  rw [own_congr same, own_enter]

/-- Opening a scope with its declarations and closing it at once changes nothing in sight. -/
theorem Tidy.sight_openWith {s : State} (tidy : s.Tidy) (kind : ScopeKind) (node : Node)
    (arguments : Option Name) (decls : List Declaration) (name : Name) :
    (s.openWith kind node arguments decls).leave.sight.get name = s.sight.get name := by
  have started := tidy.openWith kind node arguments decls
  have stack : (s.openWith kind node arguments decls).openScopes =
      ⟨s.scopes.size⟩ :: s.openScopes := by
    simp [State.openWith]
  have closed := started.leave stack tidy.opened
  rw [closed.sighted, tidy.sighted, openScopes_leave, stack, List.tail_cons]
  refine List.filterMap_congr (fun id member => ?_)
  rw [own_leave]
  exact own_openWith s kind node arguments decls (tidy.there id member) name

/-- The root has gained a variable for a name, which is declared nowhere. -/
def GainsGlobal (s t : State) (name : Name) (v : VariableId) : Prop :=
  s.vars.size ≤ v.index ∧ t.own name ScopeId.root = some v ∧
    ∃ a, t.vars[v.index]? = some a ∧ a.name = name ∧ a.scope = ScopeId.root ∧ a.declarations = []

/-- All that was there is there still, the root may have gained variables without declarations, and
what was open, strict and in sight is so again. -/
structure Restores (s t : State) : Prop extends Grows s t where
  tidy : t.Tidy
  openScopes : t.openScopes = s.openScopes
  strict : t.strict = s.strict
  /-- A name means what it meant, or it meant nothing and means a new variable of the root. -/
  sight : ∀ name, t.sight.get name = s.sight.get name ∨
    s.sight.get name = [] ∧ ∃ v, t.sight.get name = [v] ∧ GainsGlobal s t name v

theorem Grows.vars_size {s t : State} (grows : Grows s t) : s.vars.size ≤ t.vars.size := by
  by_contra less
  have inside : t.vars.size < s.vars.size := by omega
  obtain ⟨w, found, _⟩ := grows.vars _ _ (Array.getElem?_eq_getElem inside)
  simp at found

namespace GainsGlobal

variable {s t u : State} {name : Name} {v : VariableId}

theorem before (grows : Grows s t) (gains : GainsGlobal t u name v) : GainsGlobal s u name v :=
  ⟨Nat.le_trans grows.vars_size gains.1, gains.2⟩

theorem after (gains : GainsGlobal s t name v) (grows : Grows t u) : GainsGlobal s u name v := by
  obtain ⟨new, owned, a, found, named, scope, bare⟩ := gains
  obtain ⟨b, foundB, nameB, scopeB, declsB⟩ := grows.vars _ a found
  exact ⟨new, grows.own_eq_some owned, b, foundB, nameB.trans named, scopeB.trans scope,
    declsB.trans bare⟩

end GainsGlobal

namespace Restores

variable {s t u : State}

theorem refl (tidy : s.Tidy) : Restores s s where
  toGrows := .refl s
  tidy := tidy
  openScopes := rfl
  strict := rfl
  sight _ := .inl rfl

theorem trans (first : Restores s t) (second : Restores t u) : Restores s u where
  toGrows := first.toGrows.trans second.toGrows
  tidy := second.tidy
  openScopes := second.openScopes.trans first.openScopes
  strict := second.strict.trans first.strict
  sight name := by
    rcases second.sight name with same | ⟨unseen, v, seen, gains⟩
    · rw [same]
      rcases first.sight name with same | ⟨unseen, v, seen, gains⟩
      · exact .inl same
      · exact .inr ⟨unseen, v, seen, gains.after second.toGrows⟩
    · -- What is out of sight in between was so at first.
      refine .inr ⟨?_, v, seen, gains.before first.toGrows⟩
      rcases first.sight name with same | ⟨unseen', _⟩
      · rw [← same, unseen]
      · exact unseen'

/-- A step that moves nothing. -/
theorem of_still (grows : Grows s t) (tidy : t.Tidy) (openScopes : t.openScopes = s.openScopes)
    (strict : t.strict = s.strict) (sight : t.sight = s.sight) : Restores s t where
  toGrows := grows
  tidy := tidy
  openScopes := openScopes
  strict := strict
  sight _ := .inl (by rw [sight])

/-- A name that is out of sight when it is used comes into sight for good. -/
theorem resolve (tidy : s.Tidy) (name : Name) : Restores s (s.resolve name).2 := by
  cases seen : s.sight.get name with
  | cons v rest =>
    rw [resolve_of_seen seen]
    exact refl tidy
  | nil =>
    have free := tidy.own_eq_none seen
    obtain ⟨inner, stack⟩ := tidy.eq_append_root
    have hidden : ∀ id ∈ inner, s.own name id = none := fun id member =>
      free id (by simp [stack, member])
    have unbound : s.own name ScopeId.root = none := free ScopeId.root (by simp [stack])
    have reported := tidy.report (.implicitGlobal name)
    have grows := Grows.resolve s name
    rw [resolve_of_unseen seen] at grows ⊢
    refine ⟨grows, reported.addVariable stack hidden unbound [], rfl, rfl, fun other => ?_⟩
    change (s.sight.push name ⟨s.vars.size⟩).get other = _ ∨ _
    by_cases same : other = name
    · subst same
      refine .inr ⟨seen, ⟨s.vars.size⟩, ?_, Nat.le_refl _, ?_, ?_⟩
      · change (s.sight.push other ⟨s.vars.size⟩).get other = _
        rw [Sight.get_push_self, seen]
      · exact own_addVariable_self (s.report _) tidy.root_there unbound []
      · refine ⟨⟨other, ScopeId.root, [], []⟩, ?_, rfl, rfl, rfl⟩
        exact Array.getElem?_push_size
    · exact .inl (Sight.get_push_of_ne _ _ same)

theorem passAll (tidy : s.Tidy) (id : Occurrence) (access : Access) (v : VariableId) :
    Restores s (((s.attach id access v).inside v).foldl
      (passThrough id.name ⟨s.references.size⟩) (s.attach id access v)) := by
  have attached := tidy.attach id access v
  refine of_still (.attach id access v (nodup_inside attached.distinct v)) ?_ ?_ ?_ ?_
  · exact attached.passThrough id.name _ _
  · exact openScopes_passThrough _ _ _ _
  · exact strict_passThrough _ _ _ _
  · exact sight_passThrough _ _ _ _

theorem record (tidy : s.Tidy) (id : Occurrence) (access : Access) :
    Restores s (s.record id access) := by
  rw [record_eq]
  have resolved := resolve tidy id.name
  exact resolved.trans (passAll resolved.tidy id access _)

/-- A scope takes back what it put in sight, and whatever restores the state inside it restores the
state outside. -/
theorem scope (tidy : s.Tidy) (kind : ScopeKind) (node : Node) (arguments : Option Name)
    (decls : List Declaration) (inside : Restores (s.openWith kind node arguments decls) t) :
    Restores s t.leave := by
  have grows := Grows.openWith s kind node arguments decls
  have started := tidy.openWith kind node arguments decls
  have stack : (s.openWith kind node arguments decls).openScopes =
      ⟨s.scopes.size⟩ :: s.openScopes := by
    simp [State.openWith]
  have stackT : t.openScopes = ⟨s.scopes.size⟩ :: s.openScopes := inside.openScopes.trans stack
  refine ⟨(grows.trans inside.toGrows).trans (.leave t), inside.tidy.leave stackT tidy.opened, ?_,
    ?_, fun name => ?_⟩
  · rw [openScopes_leave, stackT, List.tail_cons]
  · rw [strict_leave, inside.strict]
    exact (strict_furnish ..).trans (strict_enter ..)
  · have outer := started.sight_eq stack name
    have outerT := inside.tidy.sight_eq stackT name
    rw [tidy.sight_openWith] at outer
    -- The new scope is not the root, so it gained nothing inside.
    have kept : t.own name ⟨s.scopes.size⟩ =
        (s.openWith kind node arguments decls).own name ⟨s.scopes.size⟩ := by
      have there := started.there ⟨s.scopes.size⟩ (by simp [stack])
      have inner : (⟨s.scopes.size⟩ : ScopeId) ≠ ScopeId.root := fun same =>
        Nat.ne_of_gt tidy.root_there (congrArg ScopeId.index same)
      cases owned : (s.openWith kind node arguments decls).own name ⟨s.scopes.size⟩ with
      | some v => exact inside.toGrows.own_eq_some owned
      | none => exact inside.toGrows.own_eq_none there inner owned
    rw [kept] at outerT
    rcases inside.sight name with same | ⟨unseen, v, seen, gains⟩
    · left
      rw [outer, outerT] at same
      exact List.append_cancel_left same
    · right
      rw [outer, List.append_eq_nil_iff] at unseen
      rw [seen, unseen.1, List.nil_append] at outerT
      exact ⟨unseen.2, v, outerT.symm, (gains.before grows).after (.leave t)⟩

mutual

/-- Laying out restores the state. -/
theorem layOut {s : State} (tidy : s.Tidy) : ∀ l : Layout, Restores s (s.layOut l)
  | .use id access => record tidy id access
  | .directEval => of_still (.makeDynamic s) tidy.makeDynamic rfl rfl rfl
  | .withStatement => of_still (.report s _) (tidy.report _) rfl rfl rfl
  | .scope kind node arguments decls inner =>
    scope tidy kind node arguments decls
      (layOutAll (tidy.openWith kind node arguments decls) inner)

theorem layOutAll {s : State} (tidy : s.Tidy) : ∀ ls : List Layout, Restores s (s.layOutAll ls)
  | [] => refl tidy
  | l :: rest =>
    have first := layOut tidy l
    first.trans (layOutAll first.tidy rest)

end

end Restores

end State

namespace Walk

/-- Whatever its outcome, a walk restores the state in which it starts. -/
theorem restores_of_tidy (setting : Setting) (outline : Outline) {s : State} (tidy : s.Tidy) :
    s.Restores ((walk setting outline).run s).2 := by
  rw [follows setting s.strict outline s rfl]
  exact .layOutAll tidy _

/-- The global scope of `var x;`, still open. -/
def oneGlobal : State :=
  (State.initial #[]).openWith .global ⟨⟨3⟩, .none⟩ none [⟨⟨⟨⟨0⟩, .none⟩, ⟨0⟩⟩, .var⟩]

/-- A block with an `x` of its own that uses `x` and an unknown `y` and is refused then. -/
def interruptedBlock : Outline :=
  let id (node name : Nat) : Occurrence := ⟨⟨⟨node⟩, .none⟩, ⟨name⟩⟩
  .block ⟨⟨9⟩, .none⟩ [⟨id 4 0, .let_⟩]
    [.read (id 5 0), .read (id 6 1), .assign false (.binding (id 7 0)) .nothing, .read (id 8 2)]

def interruptedRun : Answer Unit × State :=
  (walk ⟨.default, ⟨5⟩⟩ interruptedBlock).run oneGlobal

theorem interruptedBlock_restores :
    oneGlobal.Tidy ∧ oneGlobal.Restores interruptedRun.2 ∧
      interruptedRun.1 = .error ⟨.writtenNames, .binding⟩ ∧
      interruptedRun.2.sight.entries = [(⟨0⟩, [⟨0⟩]), (⟨1⟩, [⟨2⟩])] := by
  have coherent := (State.Coherent.initial #[]).openWith (fun _ => rfl) .global ⟨⟨3⟩, .none⟩ none
    [⟨⟨⟨⟨0⟩, .none⟩, ⟨0⟩⟩, .var⟩]
  have tidy : oneGlobal.Tidy := coherent.tidy State.opened_openWith
  exact ⟨tidy, restores_of_tidy ⟨.default, ⟨5⟩⟩ interruptedBlock tidy, rfl, rfl⟩

end Walk

end ScopeAnalysis.Resolution
