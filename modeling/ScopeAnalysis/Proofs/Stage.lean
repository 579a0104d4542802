import ScopeAnalysis.Proofs.Lookup
import ScopeAnalysis.Proofs.Realisation
import ScopeAnalysis.Proofs.Twins

/-!
# What does not depend on names

Where the scopes of a tree lie, which of them are dynamic, and in which scope each use stands depend
on the shape of a layout alone, not on what it declares or how its names are resolved. A stage is
the state of a walk without names. It says from which scope each use has to be looked up, so that
two walks on the same stage can be compared use by use.
-/

namespace ScopeAnalysis

/-- A scope without what it binds and what passes through it. -/
structure Frame where
  id : ScopeId
  kind : ScopeKind
  node : Node
  parent : Option ScopeId
  children : List ScopeId
  dynamic : Bool
  deriving DecidableEq, Repr

def Scope.frame (scope : Scope) : Frame :=
  ⟨scope.id, scope.kind, scope.node, scope.parent, scope.children, scope.dynamic⟩

/-- The scopes of a tree without names. -/
def ScopeTree.frames (tree : ScopeTree) : Array Frame := tree.scopes.map Scope.frame

namespace Resolution

/-- The state of a walk without names, with the innermost open scope of each use so far. -/
structure Stage where
  frames : Array Frame
  openScopes : List ScopeId
  sites : Array ScopeId

namespace Stage

def initial : Stage := ⟨#[], [], #[]⟩

def current (g : Stage) : ScopeId := g.openScopes.headD ScopeId.root

/-- The frames with a new one noted as the last child of the innermost open scope. -/
def noteChild (g : Stage) (child : ScopeId) : Array Frame :=
  match g.openScopes with
  | [] => g.frames
  | parent :: _ =>
    g.frames.modify parent.index (fun f => { f with children := f.children ++ [child] })

def enter (g : Stage) (kind : ScopeKind) (node : Node) : Stage where
  frames := (g.noteChild ⟨g.frames.size⟩).push
    ⟨⟨g.frames.size⟩, kind, node, g.openScopes.head?, [], kind.isDynamic⟩
  openScopes := ⟨g.frames.size⟩ :: g.openScopes
  sites := g.sites

def leave (g : Stage) : Stage := { g with openScopes := g.openScopes.tail }

def use (g : Stage) : Stage := { g with sites := g.sites.push g.current }

def makeDynamic (g : Stage) : Stage :=
  { g with frames := g.frames.modify g.current.index (fun f => { f with dynamic := true }) }

mutual

def layOut (g : Stage) : Layout → Stage
  | .use _ _ => g.use
  | .directEval => g.makeDynamic
  | .withStatement => g
  | .scope kind node _ _ inner => ((g.enter kind node).layOutAll inner).leave

def layOutAll (g : Stage) : List Layout → Stage
  | [] => g
  | l :: rest => (g.layOut l).layOutAll rest

end

mutual

/-- Twins make no difference to the stage. -/
theorem layOut_withoutTwins (g : Stage) : ∀ l : Layout, g.layOut l.withoutTwins = g.layOut l
  | .use .. | .directEval | .withStatement => rfl
  | .scope kind node _ _ inner => by
    rw [Layout.withoutTwins, layOut, layOut, layOutAll_withoutTwins]

theorem layOutAll_withoutTwins (g : Stage) :
    ∀ ls : List Layout, g.layOutAll (Layout.withoutTwinsAll ls) = g.layOutAll ls
  | [] => rfl
  | l :: rest => by
    rw [Layout.withoutTwinsAll, layOutAll, layOutAll, layOut_withoutTwins, layOutAll_withoutTwins]

end

end Stage

namespace State

def frames (s : State) : Array Frame := s.scopes.map Scope.frame

theorem frames_updateScope (s : State) (id : ScopeId) {f : Scope → Scope} {g : Frame → Frame}
    (same : ∀ a, (f a).frame = g a.frame) :
    (s.updateScope id f).frames = s.frames.modify id.index g := by
  refine Array.ext_getElem? (fun i => ?_)
  simp only [frames, Array.getElem?_map, Array.getElem?_modify, getElem?_updateScope]
  split
  · cases s.scopes[i]? with
    | none => rfl
    | some a => exact congrArg some (same a)
  · rfl

theorem frames_updateScope_of_kept (s : State) (id : ScopeId) {f : Scope → Scope}
    (same : ∀ a, (f a).frame = a.frame) : (s.updateScope id f).frames = s.frames := by
  refine Array.ext_getElem? (fun i => ?_)
  simp only [frames, Array.getElem?_map, getElem?_updateScope]
  split
  · cases s.scopes[i]? with
    | none => rfl
    | some a => exact congrArg some (same a)
  · rfl

theorem frames_passThrough (s : State) (name : Name) (r : ReferenceId) (ids : List ScopeId) :
    (ids.foldl (passThrough name r) s).frames = s.frames := by
  induction ids generalizing s with
  | nil => rfl
  | cons id rest ih =>
    exact (ih (passThrough name r s id)).trans (frames_updateScope_of_kept s id (fun _ => rfl))

theorem frames_addVariable (s : State) (scope : ScopeId) (name : Name) (ds : List Declaration) :
    (s.addVariable scope name ds).2.frames = s.frames := by
  let grown : State := { s with vars := s.vars.push ⟨name, scope, ds, []⟩ }
  exact frames_updateScope_of_kept grown scope
    (f := fun a => { a with bindings := a.bindings ++ [(name, ⟨s.vars.size⟩)] }) (fun _ => rfl)

theorem frames_resolve (s : State) (name : Name) : (s.resolve name).2.frames = s.frames := by
  unfold resolve
  split
  · rfl
  · exact frames_addVariable (s.report (.implicitGlobal name)) ScopeId.root name []

theorem frames_record (s : State) (id : Occurrence) (access : Access) :
    (s.record id access).frames = s.frames := by
  rw [record_eq, frames_passThrough]
  exact frames_resolve s id.name

theorem Furnished.frames {id : ScopeId} {s t : State} (furnished : Furnished id s t) :
    t.frames = s.frames := by
  refine Array.ext_getElem? (fun i => ?_)
  simp only [State.frames, Array.getElem?_map]
  by_cases here : i = id.index
  · subst here
    cases found : s.scopes[id.index]? with
    | none =>
      have outside : t.scopes.size ≤ id.index := by
        rw [furnished.size]
        exact Array.getElem?_eq_none_iff.1 found
      rw [Array.getElem?_eq_none outside]
    | some a =>
      obtain ⟨bindings, foundT⟩ := furnished.here a found
      rw [foundT]
      rfl
  · rw [furnished.others i here]

theorem frames_enter (s : State) (kind : ScopeKind) (node : Node) :
    (s.enter kind node).frames =
      ((⟨s.frames, s.openScopes, #[]⟩ : Stage).enter kind node).frames := by
  have size : s.frames.size = s.scopes.size := Array.size_map
  have noted : (s.noteChild ⟨s.scopes.size⟩).frames =
      (⟨s.frames, s.openScopes, #[]⟩ : Stage).noteChild ⟨s.scopes.size⟩ := by
    unfold State.noteChild Stage.noteChild
    split
    · next empty => simp only [empty]
    · next parent rest stack =>
      simp only [stack]
      exact frames_updateScope s parent (fun _ => rfl)
  rw [State.frames, scopes_enter, Array.map_push]
  simp only [Stage.enter, size]
  rw [← noted]
  rfl

/-! Looking up what a use means, from the scope it stands in. -/

/-- What a name means in a scope it means there for good, once it is bound. -/
theorem Grows.finds {s t : State} (grows : Grows s t) (coherent : s.Coherent) {name : Name}
    {id : ScopeId} {v : VariableId} (finds : s.tree.Finds name id v) : t.tree.Finds name id v := by
  induction finds with
  | own owned =>
    rw [own?_tree] at owned
    refine .own ?_
    rw [own?_tree]
    exact grows.own_eq_some owned
  | @outward id outer v free up further ih =>
    have climbs : s.parentOf id = some outer := up
    have there := index_lt_of_parentOf climbs
    have inner : id ≠ ScopeId.root := by
      rintro rfl
      rw [coherent.rootless] at climbs
      cases climbs
    rw [own?_tree] at free
    refine .outward ?_ ((grows.parentOf_eq there).trans climbs) ih
    rw [own?_tree]
    exact grows.own_eq_none there inner free

/-- A new use is found from the innermost open scope. -/
theorem finds_record {s : State} (coherent : s.Coherent) (opened : s.openScopes ≠ [])
    (id : Occurrence) (access : Access) :
    (s.record id access).tree.Finds id.name s.current (s.resolve id.name).1 := by
  obtain ⟨inner, owner, outer, stack, hidden, owned⟩ := coherent.resolve_spec opened id.name
  have resolved := coherent.resolve opened id.name
  have nested := resolved.nested
  rw [openScopes_resolve, stack] at nested
  have first : s.current ∈ inner ++ [owner] := by
    rw [current, stack]
    cases inner <;> simp
  rw [record_eq]
  generalize (s.resolve id.name).1 = v at hidden owned ⊢
  generalize (s.resolve id.name).2 = u at hidden owned resolved nested ⊢
  have unique := (resolved.attach id access v).nodup_inside v
  refine (Grows.attach id access v unique).finds resolved ?_
  have climbs : (inner ++ [owner]).IsChain
    (fun below above => u.tree.parentOf? below = some above) := nested.climbs
  refine ScopeTree.finds_of_climbs climbs (fun scope member => ?_) (.own ?_) _ first
  · exact (own?_tree u scope id.name).trans (hidden scope member)
  · exact (own?_tree u owner id.name).trans owned

/-- The state of a walk on a stage. Each use is found from the scope that it stands in. -/
structure OnStage (s : State) (g : Stage) : Prop where
  frames : s.frames = g.frames
  openScopes : s.openScopes = g.openScopes
  size : g.sites.size = s.references.size
  found : ∀ (i : Nat) (use : Reference) (site : ScopeId), s.references[i]? = some use →
    g.sites[i]? = some site → s.tree.Finds use.id.name site use.resolved

namespace OnStage

variable {s t : State} {g h : Stage}

/-- A step without a use. -/
theorem step (on : s.OnStage g) (coherent : s.Coherent) (grows : Grows s t)
    (frames : t.frames = h.frames) (openScopes : t.openScopes = h.openScopes)
    (quiet : t.references = s.references) (sites : h.sites = g.sites) : t.OnStage h where
  frames := frames
  openScopes := openScopes
  size := by rw [sites, quiet, on.size]
  found i use site foundUse foundSite := by
    rw [quiet] at foundUse
    rw [sites] at foundSite
    exact grows.finds coherent (on.found i use site foundUse foundSite)

theorem current (on : s.OnStage g) : s.current = g.current := by
  rw [State.current, on.openScopes]
  rfl

theorem record (on : s.OnStage g) (coherent : s.Coherent) (opened : s.openScopes ≠ [])
    (id : Occurrence) (access : Access) : (s.record id access).OnStage g.use := by
  have pushed : (s.record id access).references =
      s.references.push ⟨id, access, (s.resolve id.name).1⟩ := by
    rw [record_eq, references_passThrough]
    change (s.resolve id.name).2.references.push _ = _
    rw [references_resolve]
  refine ⟨(frames_record s id access).trans on.frames,
    (openScopes_record s id access).trans on.openScopes, ?_, ?_⟩
  · rw [pushed, Array.size_push, Stage.use, Array.size_push, on.size]
  · intro i use site foundUse foundSite
    rw [pushed, Array.getElem?_push] at foundUse
    rw [Stage.use, Array.getElem?_push, on.size] at foundSite
    split at foundUse
    next last =>
      rw [if_pos last] at foundSite
      cases foundUse
      cases foundSite
      rw [← on.current]
      exact finds_record coherent opened id access
    next other =>
      rw [if_neg other] at foundSite
      exact (Grows.record coherent.nested.nodup id access).finds coherent
        (on.found i use site foundUse foundSite)

theorem openWith (on : s.OnStage g) (coherent : s.Coherent) (kind : ScopeKind) (node : Node)
    (arguments : Option Name) (decls : List Declaration) :
    (s.openWith kind node arguments decls).OnStage (g.enter kind node) := by
  have furnished := Furnished.openWith s kind node arguments decls
  refine on.step coherent (Grows.openWith s kind node arguments decls) ?_ ?_
    (references_openWith s kind node arguments decls) rfl
  · rw [furnished.frames, frames_enter, on.frames, on.openScopes]
    rfl
  · have size : g.frames.size = s.scopes.size := by
      rw [← on.frames]
      exact Array.size_map
    rw [State.openWith, openScopes_furnish, openScopes_enter, Stage.enter, size, on.openScopes]

theorem leave (on : s.OnStage g) (coherent : s.Coherent) : s.leave.OnStage g.leave := by
  refine on.step coherent (.leave s) ?_ ?_ (references_leave s) rfl
  · rw [State.frames, scopes_leave]
    exact on.frames
  · rw [openScopes_leave, on.openScopes]
    rfl

theorem scope_of_inside (coherent : s.Coherent) (can : s.CanEnter) {kind : ScopeKind} {node : Node}
    {arguments : Option Name} {decls : List Declaration} {inner : List Layout}
    (inside : ((s.openWith kind node arguments decls).layOutAll inner).OnStage
      ((g.enter kind node).layOutAll inner)) :
    (s.layOut (.scope kind node arguments decls inner)).OnStage
      (g.layOut (.scope kind node arguments decls inner)) :=
  inside.leave ((coherent.openWith can kind node arguments decls).layOutAll opened_openWith inner)

mutual

/-- Laying out takes a state from stage to stage. -/
theorem layOut {s : State} {g : Stage} (on : s.OnStage g) (coherent : s.Coherent)
    (opened : s.openScopes ≠ []) : ∀ l : Layout, (s.layOut l).OnStage (g.layOut l)
  | .use id access => on.record coherent opened id access
  | .directEval => by
    refine on.step coherent (.makeDynamic s) ?_ on.openScopes rfl rfl
    rw [Stage.layOut, Stage.makeDynamic, ← on.frames, ← on.current]
    exact frames_updateScope (s.report (.directEval s.current)) s.current
      (g := fun f => { f with dynamic := true }) (fun _ => rfl)
  | .withStatement => on.step coherent (.report s _) on.frames on.openScopes rfl rfl
  | .scope kind node arguments decls inner => by
    have can : s.CanEnter := .of_opened opened
    exact scope_of_inside coherent can ((on.openWith coherent kind node arguments decls).layOutAll
      (coherent.openWith can kind node arguments decls) opened_openWith inner)

theorem layOutAll {s : State} {g : Stage} (on : s.OnStage g) (coherent : s.Coherent)
    (opened : s.openScopes ≠ []) : ∀ ls : List Layout, (s.layOutAll ls).OnStage (g.layOutAll ls)
  | [] => on
  | l :: rest => by
    rw [State.layOutAll]
    exact (on.layOut coherent opened l).layOutAll (coherent.layOut opened l)
      (by simpa using opened) rest

end

theorem initial (events : Array Event) : (State.initial events).OnStage .initial :=
  ⟨Array.map_empty, rfl, rfl, nofun⟩

theorem scope (on : s.OnStage g) (coherent : s.Coherent) (can : s.CanEnter) (kind : ScopeKind)
    (node : Node) (arguments : Option Name) (decls : List Declaration) (inner : List Layout) :
    (s.layOut (.scope kind node arguments decls inner)).OnStage
      (g.layOut (.scope kind node arguments decls inner)) :=
  scope_of_inside coherent can ((on.openWith coherent kind node arguments decls).layOutAll
    (coherent.openWith can kind node arguments decls) opened_openWith inner)

end OnStage

end State

end Resolution

end ScopeAnalysis
