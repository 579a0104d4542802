import ScopeAnalysis.Analysis
import ScopeAnalysis.Proofs.Layout

/-!
# Walks follow their courses

A walk lays out the course of its outline and ends with its outcome, refused walks included. So the
tree of an analysis is that of a layout, and what is true of every layout is true of every tree.
-/

namespace ScopeAnalysis.Resolution

/-- From every state of the given strictness, the walk lays out the course and ends with its
outcome. -/
def Follows (strict : Bool) (w : Walk Unit) (c : Course) : Prop :=
  ∀ s : State, s.strict = strict → w.run s = (c.outcome, s.layOutAll c.parts)

theorem Walk.run_bind {α β : Type} (w : Walk α) (f : α → Walk β) (s : State) :
    (w >>= f).run s =
      match w.run s with
      | (.ok a, t) => (f a).run t
      | (.error refusal, t) => (.error refusal, t) := by
  change (ExceptT.bindCont f (w.run s).1) (w.run s).2 = _
  obtain ⟨result, t⟩ := w.run s
  cases result <;> rfl

namespace Follows

variable {strict : Bool} {w : Walk Unit} {c : Course}

theorem pure_done : Follows strict (pure ()) .done := fun _ _ => rfl

theorem bind {w' : Walk Unit} {c' : Course} (first : Follows strict w c)
    (second : Follows strict w' c') : Follows strict (w >>= fun _ => w') (c.andThen c') := by
  intro s same
  obtain ⟨parts, outcome⟩ := c
  rw [Walk.run_bind, first s same]
  cases outcome with
  | error refusal => rfl
  | ok _ =>
    simp only [Course.andThen, State.layOutAll_append]
    exact second _ ((State.strict_layOutAll s parts).trans same)

theorem answer {α : Type} {a : Answer α} {f : α → Walk Unit} {next : α → Course}
    (each : ∀ x, a = .ok x → Follows strict (f x) (next x)) :
    Follows strict (Walk.answer a >>= f) (.asking a next) := by
  intro s same
  rw [Walk.run_bind]
  cases a with
  | error refusal => rfl
  | ok x => exact each x rfl s same

theorem isStrict {f : Bool → Walk Unit} (next : Follows strict (f strict) c) :
    Follows strict (Walk.isStrict >>= f) c := by
  intro s same
  rw [Walk.run_bind]
  change (f s.strict).run s = _
  rw [same]
  exact next s same

theorem record (id : Occurrence) (access : Access) :
    Follows strict (Walk.record id access) (.use id access) :=
  fun _ _ => rfl

theorem recordAll (access : Access) (ids : List Occurrence) :
    Follows strict (Walk.recordAll access ids) (.useAll access ids) := by
  intro s _
  have each : ∀ s : State, s.recordAll access ids =
      s.layOutAll (ids.map (fun id => .use id access)) := by
    induction ids with
    | nil => exact fun _ => rfl
    | cons id rest ih => exact fun s => ih (s.record id access)
  exact congrArg (Prod.mk _) (each s)

/-- Inside a scope that is opened with its declarations, unless collecting these is refused. -/
theorem within {kind : ScopeKind} {node : Node} {arguments : Option Name}
    {decls : List Declaration} (prepare : Walk Unit) (outcome : Answer Unit)
    (prepared : ∀ s : State, s.strict = strict →
      prepare.run s = (outcome, s.furnish arguments decls))
    (inner : Follows strict w c) :
    Follows strict (Walk.within kind node (prepare >>= fun _ => w))
      (.inScope kind node arguments decls (Course.andThen ⟨[], outcome⟩ c)) := by
  intro s same
  have entered : (s.enter kind node).strict = strict := (State.strict_enter ..).trans same
  have opened : (s.openWith kind node arguments decls).strict = strict :=
    (State.strict_furnish ..).trans entered
  change (let (result, t) := (prepare >>= fun _ => w).run (s.enter kind node)
    (result, t.leave)) = _
  rw [Walk.run_bind, prepared _ entered]
  cases outcome with
  | error refusal => rfl
  | ok _ =>
    change (let (result, t) := w.run (s.openWith kind node arguments decls)
      (result, t.leave)) = _
    rw [inner _ opened]
    rfl

theorem withStrictness {b : Bool} (inner : Follows b w c) :
    Follows strict (Walk.withStrictness b w) c := by
  intro s _
  change (let (result, after) := w.run (s.withStrict b)
    (result, after.withStrict s.strict)) = _
  rw [inner (s.withStrict b) rfl, State.layOutAll_withStrict]
  have kept : (s.layOutAll c.parts).strict = s.strict := State.strict_layOutAll s c.parts
  simp only [State.withStrict, ← kept]

/-- Inside a scope that declares nothing before it is walked. -/
theorem within_bare {kind : ScopeKind} {node : Node} (inner : Follows strict w c) :
    Follows strict (Walk.within kind node w) (.inScope kind node none [] c) :=
  within (pure ()) (.ok ()) (fun _ _ => rfl) inner

theorem within_declaring {kind : ScopeKind} {node : Node} {decls : List Declaration}
    (inner : Follows strict w c) :
    Follows strict (Walk.within kind node (Walk.declareAll decls >>= fun _ => w))
      (.inScope kind node none decls c) :=
  within (Walk.declareAll decls) (.ok ()) (fun _ _ => rfl) inner

theorem writes (compound : Bool) (t : Outline) :
    Follows strict (Walk.writes compound t) (.writes compound t) := by
  cases t with
  | target id => exact record _ _
  | _ => exact answer (fun ids _ => recordAll .write ids)

theorem headWrites (t : Outline) : Follows strict (Walk.headWrites t) (.headWrites t) := by
  cases t with
  | _ => exact answer (fun ids _ => recordAll .write ids)

theorem aroundLone (alone : Option LoneFunction) (inner : Follows strict w c) :
    Follows strict (Walk.aroundLone alone w) (.aroundLone alone c) := by
  cases alone with
  | none => exact inner
  | some f =>
    exact within (Walk.declare ⟨f.name, .functionDeclaration⟩) (.ok ()) (fun _ _ => rfl) inner

theorem aroundNamed (kind : FunctionKind) (node : Node) (name : Option Occurrence)
    (inner : Follows strict w c) :
    Follows strict (Walk.aroundNamed kind node name w) (.aroundNamed kind node name c) := by
  cases name with
  | none => cases kind <;> exact inner
  | some id =>
    cases kind with
    | expression =>
      exact within (Walk.declare ⟨id, .functionName⟩) (.ok ()) (fun _ _ => rfl) inner
    | _ => exact inner

end Follows

namespace Walk

variable (setting : Setting)

@[simp]
theorem answer_run {α : Type} (a : Answer α) (s : State) : (answer a).run s = (a, s) := rfl

@[simp]
theorem isStrict_run (s : State) : isStrict.run s = (.ok s.strict, s) := rfl

@[simp]
theorem declareAll_run (ds : List Declaration) (s : State) :
    (declareAll ds).run s = (.ok (), s.declareAll ds) := rfl

/-- Declares the parameters behind `arguments`. -/
theorem declareParams_run (kind : FunctionKind) (params : List Declaration) (s : State) :
    (declareParams setting kind.hasArguments params).run s =
      (.ok (), s.furnish (Course.argumentsOf setting kind) params) := by
  cases h : kind.hasArguments <;> simp only [declareParams, Course.argumentsOf, h] <;> rfl

/-- Declares what a function scope holds: the parameters, unless they have a scope of their own, and
what the body owns. -/
theorem declareFunction_run (strict : Bool) (kind : FunctionKind) (params decls : List Declaration)
    (holdsParams : Bool) (statements : List Outline) (s : State) (same : s.strict = strict) :
    (do
      if holdsParams then declareParams setting kind.hasArguments params
      declareBody setting params decls statements : Walk Unit).run s =
      match Outline.hoistedAll (!strict && setting.options.annexB) (params ++ decls) true
          statements with
      | .error refusal =>
        (.error refusal, s.furnish (if holdsParams then Course.argumentsOf setting kind else none)
          (if holdsParams then params else []))
      | .ok owned =>
        (.ok (), s.furnish (if holdsParams then Course.argumentsOf setting kind else none)
          ((if holdsParams then params else []) ++ decls ++ owned.vars ++ owned.twins)) := by
  cases holdsParams with
  | false =>
    simp only [declareBody, Bool.false_eq_true, if_false, run_bind, isStrict_run, answer_run, same]
    cases Outline.hoistedAll (!strict && setting.options.annexB) (params ++ decls) true
      statements with
    | error refusal => rfl
    | ok owned =>
      simp only [declareAll_run, ← State.furnish_declareAll]
      rfl
  | true =>
    have kept := (State.strict_furnish s (Course.argumentsOf setting kind) params).trans same
    simp only [declareBody, if_true, run_bind, declareParams_run, isStrict_run, answer_run, kept]
    cases Outline.hoistedAll (!strict && setting.options.annexB) (params ++ decls) true
      statements with
    | error refusal => rfl
    | ok owned => simp only [declareAll_run, State.furnish_declareAll]

mutual

/-- Every walk follows the course of its outline. -/
theorem follows (strict : Bool) :
    ∀ o : Outline, Follows strict (walk setting o) (.ofOutline setting strict o)
  | .nothing | .binding _ | .target _ | .imports _ => .pure_done
  | .read id => .record id .read
  | .delete id => .record id .delete
  | .update id => .record id .readWrite
  | .evaluated inner => follows strict inner
  | .union parts => followsAll strict parts
  | .directEval call =>
    .bind (c := ⟨[.directEval], .ok ()⟩) (fun _ _ => rfl) (follows strict call)
  | .assign compound t value =>
    .bind (.writes compound t) (.bind (follows strict t) (follows strict value))
  | .decl _ declarators => followsDeclarators strict declarators
  | .block _ _ statements => .within_declaring (followsAll strict statements)
  | .ifElse test yesAlone yes noAlone no =>
    .bind (follows strict test)
      (.bind (.aroundLone yesAlone (follows strict yes)) (.aroundLone noAlone (follows strict no)))
  | .forLoop _ _ init test update body =>
    .within_declaring (.bind (follows strict init)
      (.bind (follows strict test) (.bind (follows strict update) (follows strict body))))
  | .forEach _ _ head collection body =>
    .within_declaring (.bind (.headWrites head)
      (.bind (follows strict head) (.bind (follows strict collection) (follows strict body))))
  | .switch _ _ discriminant cases =>
    .bind (follows strict discriminant) (.within_declaring (followsCases strict cases))
  | .handler node isPattern b block decls statements => by
    let declaring : Walk Unit := do
      let bound ← answer b.boundNames
      declareAll (Outline.declareAs .catchParameter bound.names)
    let inner : Walk Unit := do
      walk setting b
      within .block block do
        declareAll decls
        walkAll setting statements
    have regrouped : walk setting (.handler node isPattern b block decls statements) =
        within .catch_ node (declaring >>= fun _ => inner) := by
      simp only [walk, declaring, inner, bind_assoc]
    have followed : Follows strict inner _ :=
      .bind (follows strict b) (.within_declaring (followsAll strict statements))
    rw [regrouped, Course.ofOutline]
    cases names : b.boundNames with
    | error refusal =>
      exact .within declaring (.error refusal)
        (fun s _ => by simp only [declaring, run_bind, names, answer_run]; rfl) followed
    | ok bound =>
      exact .within declaring (.ok ())
        (fun s _ => by simp only [declaring, run_bind, names, answer_run]; rfl) followed
  | .withObject _ object body => .bind (follows strict object) (.within_bare
      (.bind (c := ⟨[.withStatement], .ok ()⟩) (fun _ _ => rfl) (follows strict body)))
  | .class_ _ _ _ heritage elements =>
    .withStrictness (.within_declaring (.bind (follows true heritage) (followsAll true elements)))
  | .function kind node name params body => by
    rw [walk, Course.ofOutline]
    refine .aroundNamed kind node name (.isStrict (.withStrictness (.answer (fun bound _ => ?_))))
    split
    · exact .within _ (.ok ()) (fun s _ => declareParams_run setting kind _ s)
        (.bind (followsParams _ params) (followsBody _ kind node _ false body))
    · exact followsBody _ kind node _ true body

theorem followsAll (strict : Bool) :
    ∀ os : List Outline, Follows strict (walkAll setting os) (.ofAll setting strict os)
  | [] => .pure_done
  | o :: rest => .bind (follows strict o) (followsAll strict rest)

theorem followsDeclarators (strict : Bool) : ∀ ds : List DeclaratorOutline,
    Follows strict (walkDeclarators setting ds) (.ofDeclarators setting strict ds)
  | [] => .pure_done
  | .mk b hasInit init :: rest => by
    have others : Follows strict (do
        walk setting b
        walk setting init
        walkDeclarators setting rest) _ :=
      .bind (follows strict b) (.bind (follows strict init) (followsDeclarators strict rest))
    cases hasInit with
    | false => exact others
    | true =>
      have written : Follows strict (do
          let bound ← answer b.boundNames
          recordAll .write bound.names) _ :=
        .answer (fun bound _ => .recordAll .write bound.names)
      have both := written.bind others
      rwa [bind_assoc] at both

theorem followsCases (strict : Bool) : ∀ cs : List CaseOutline,
    Follows strict (walkCases setting cs) (.ofCases setting strict cs)
  | [] => .pure_done
  | .mk test statements :: rest =>
    .bind (follows strict test) (.bind (followsAll strict statements) (followsCases strict rest))

theorem followsParams (strict : Bool) : ∀ ps : List ParamOutline,
    Follows strict (walkParams setting ps) (.ofParams setting strict ps)
  | [] => .pure_done
  | .mk node b :: rest => by
    rw [walkParams, Course.ofParams]
    refine .answer (fun bound _ => ?_)
    cases bound.evaluates with
    | false => exact .bind (follows strict b) (followsParams strict rest)
    | true => exact .bind (.within_bare (follows strict b)) (followsParams strict rest)

theorem followsBody (strict : Bool) (kind : FunctionKind) (node : Node)
    (params : List Declaration) (holdsParams : Bool) : ∀ b : BodyOutline,
    Follows strict (walkBody setting kind node params holdsParams b)
      (.ofBody setting strict kind node params holdsParams b)
  | .concise value => by
    cases holdsParams with
    | false => exact .within_bare (follows strict value)
    | true => exact .within_declaring (follows strict value)
  | .block isStrict decls statements => by
    let preparing : Walk Unit := do
      if holdsParams then declareParams setting kind.hasArguments params
      declareBody setting params decls statements
    have regrouped :
        walkBody setting kind node params holdsParams (.block isStrict decls statements) =
          within kind.scopeKind node (preparing >>= fun _ => walkAll setting statements) := by
      cases holdsParams <;> simp [walkBody, preparing]
    have prepared := declareFunction_run setting strict kind params decls holdsParams statements
    rw [regrouped, Course.ofBody]
    split
    next refusal refused =>
      exact .within preparing (.error refusal)
        (fun s same => by simpa only [refused] using prepared s same) (followsAll strict statements)
    next owned hoisted =>
      exact .within preparing (.ok ())
        (fun s same => by simpa only [hoisted] using prepared s same) (followsAll strict statements)

end

end Walk

namespace Walk

/-- A walk inside the global scope, which is closed at the end. -/
theorem run_inGlobal {b : Bool} {w : Walk Unit} {c : Course} (inner : Follows b w c) (node : Node)
    (ds : List Declaration) (events : Array Event) (ran : Answer Unit × State)
    (run : (w >>= fun _ => change (·.leaveAll)).run
      (((State.initial events).openWith .global node none ds).withStrict b) = ran) :
    ran.1 = c.outcome ∧ (c.outcome = .ok () → ran.2.withStrict false =
      (State.initial events).layOutAll [.scope .global node none ds c.parts]) := by
  subst run
  rw [run_bind, inner _ rfl, State.layOutAll_withStrict]
  cases c.outcome with
  | error refusal => exact ⟨rfl, nofun⟩
  | ok _ =>
    refine ⟨rfl, fun _ => ?_⟩
    have only : (((State.initial events).openWith .global node none ds).layOutAll
        c.parts).openScopes = [⟨0⟩] := by
      rw [State.openScopes_layOutAll]
      simp [State.openWith, State.initial]
    have closed (s : State) (one : s.openScopes = [⟨0⟩]) : s.leaveAll = s.leave := by
      simp [State.leaveAll, one]
    have last : (((State.initial events).layOutAll [.scope .global node none ds c.parts])).strict =
        false := State.strict_layOutAll ..
    change ((((State.initial events).openWith .global node none ds).layOutAll
      c.parts).withStrict b).leaveAll.withStrict false = _
    rw [closed (State.withStrict _ b) only, State.leave_withStrict]
    simp only [State.layOutAll, State.layOut] at last ⊢
    simp only [State.withStrict, ← last]

/-- The walk of a program has the outcome of its course, and lays it out if it is completed. -/
theorem program_run (setting : Setting) (outline : ProgramOutline) (events : Array Event) :
    ((program setting outline).run (.initial events)).1 =
        (Course.ofProgram setting outline).outcome ∧
      ((Course.ofProgram setting outline).outcome = .ok () →
        ((program setting outline).run (.initial events)).2.withStrict false =
          (State.initial events).layOutAll (Course.ofProgram setting outline).parts) := by
  obtain ⟨isModule, node, strict, decls, statements⟩ := outline
  cases isModule with
  | false =>
    generalize same : (strict || setting.options.alwaysStrict) = b
    have inner : Follows b (within .script node do
        declareAll decls
        walkAll setting statements) _ :=
      .within_declaring (followsAll setting b statements)
    simp only [program, Course.ofProgram, same, Bool.false_eq_true, if_false]
    cases Outline.hoistedAll (!b && setting.options.annexB) decls true statements with
    | error refusal => exact ⟨rfl, nofun⟩
    | ok owned =>
      refine run_inGlobal inner node (owned.vars ++ owned.twins) events _ ?_
      have opened : ((State.initial events).openWith .global node none
          (owned.vars ++ owned.twins)).withStrict b =
          ((((State.initial events).enter .global node).withStrict b).declareAll
            owned.vars).declareAll owned.twins := by
        rw [← State.declareAll_append, State.declareAll_withStrict]
        rfl
      rw [opened]
      rfl
  | true =>
    let declaring (owned : Hoisted) : Walk Unit := do
      declareAll decls
      declareAll owned.vars
    simp only [program, Course.ofProgram, if_true]
    cases Outline.hoistedAll false decls true statements with
    | error refusal => exact ⟨rfl, nofun⟩
    | ok owned =>
      have declared (s : State) : (declaring owned).run s =
          (.ok (), s.furnish none (decls ++ owned.vars)) :=
        congrArg (Prod.mk _) (State.declareAll_append s decls owned.vars).symm
      have inner : Follows true (within .module node (declaring owned >>= fun _ =>
          walkAll setting statements)) _ :=
        .within (declaring owned) (.ok ()) (fun s _ => declared s)
          (followsAll setting true statements)
      exact run_inGlobal inner node [] events _ rfl

end Walk

theorem exists_of_isOk {options : Options} {p : NumberedProgram} {names : Interner}
    (completed : (p.analyze options names).1.isOk = true) :
    ∃ a names', p.analyze options names = (.ok a, names') := by
  generalize p.analyze options names = result at completed ⊢
  obtain ⟨answer, names'⟩ := result
  cases answer with
  | ok a => exact ⟨a, names', rfl⟩
  | error refusal => cases completed

/-- A program is analyzed if it has an outline whose course is completed. -/
theorem exists_of_completed {options : Options} {p : NumberedProgram} {names names' : Interner}
    {outline : ProgramOutline}
    (folded : (p.outline (SpecialNames.intern names).1).run (SpecialNames.intern names).2 =
      (.ok outline, names'))
    (completed : (Course.ofProgram ⟨options, (SpecialNames.intern names).1.arguments⟩
      outline).outcome = .ok ()) :
    ∃ a, p.analyze options names = (.ok a, names') := by
  have run := (Walk.program_run ⟨options, (SpecialNames.intern names).1.arguments⟩ outline
    #[.start p.isModule p.node.id]).1
  rw [completed] at run
  simp only [NumberedProgram.analyze, folded, ProgramOutline.resolve]
  split
  next refusal state walked =>
    rw [walked] at run
    cases run
  next state walked => exact ⟨_, rfl⟩

/-- A program that is analyzed has an outline. The walk over the outline ends where its completed
course does, and there the tree is finished. -/
theorem analyze_walked {options : Options} {p : NumberedProgram} {names names' : Interner}
    {a : Analysis} (analyzed : p.analyze options names = (.ok a, names')) :
    ∃ outline parts state,
      (p.outline (SpecialNames.intern names).1).run (SpecialNames.intern names).2 =
        (.ok outline, names') ∧
      Course.ofProgram ⟨options, (SpecialNames.intern names).1.arguments⟩ outline =
        ⟨parts, .ok ()⟩ ∧
      (Walk.program ⟨options, (SpecialNames.intern names).1.arguments⟩ outline).run
        (.initial #[.start p.isModule p.node.id]) = (.ok (), state) ∧
      state.withStrict false = (State.initial #[.start p.isModule p.node.id]).layOutAll parts ∧
      a.tree = state.finish := by
  simp only [NumberedProgram.analyze] at analyzed
  split at analyzed
  next => cases analyzed
  next outline later folded =>
    simp only [Prod.mk.injEq] at analyzed
    obtain ⟨resolved, rfl⟩ := analyzed
    simp only [ProgramOutline.resolve] at resolved
    generalize Walk.Setting.mk options (SpecialNames.intern names).1.arguments = setting
      at resolved ⊢
    have run := Walk.program_run setting outline #[.start p.isModule p.node.id]
    split at resolved
    next => cases resolved
    next state walked =>
      rw [walked] at run
      cases resolved
      have completed : (Course.ofProgram setting outline).outcome = .ok () := run.1.symm
      exact ⟨outline, (Course.ofProgram setting outline).parts, state, folded,
        congrArg (Course.mk _) completed, walked, run.2 completed, rfl⟩

end ScopeAnalysis.Resolution
