import ScopeAnalysis.Proofs.Grammar.Owners
import ScopeAnalysis.Proofs.Grammar.Places
import ScopeAnalysis.Proofs.Twins

/-!
# What the outlines of a program nest

The places of a layout are its scopes with those around them. An outline nests the places of the
part of the program that it was folded from: whenever walking it is completed, its scopes lie there,
whatever is around it. Where twins are barred no scope of it declares one, at any depth.
-/

namespace ScopeAnalysis

open Resolution

namespace Resolution.Layout

mutual

/-- The scopes of a layout, each with those around it, in the order in which they are opened. -/
def places (around : Place) : Layout → List Place
  | .scope kind node _ _ inner =>
    ((kind, node) :: around) :: placesAll ((kind, node) :: around) inner
  | .use .. | .directEval | .withStatement => []

def placesAll (around : Place) : List Layout → List Place
  | [] => []
  | l :: rest => l.places around ++ placesAll around rest

end

theorem placesAll_append (around : Place) (ls ms : List Layout) :
    placesAll around (ls ++ ms) = placesAll around ls ++ placesAll around ms := by
  induction ls with
  | nil => rfl
  | cons l rest ih => simp [placesAll, ih]

theorem placesAll_uses (around : Place) (access : Access) (ids : List Occurrence) :
    placesAll around (ids.map (fun id => .use id access)) = [] := by
  induction ids with
  | nil => rfl
  | cons id rest ih => simp [placesAll, places, ih]

end Resolution.Layout

namespace Resolution.Course

/-- A course that has its scopes at the given places if it is completed, and declares no twin if
they are barred. -/
def Nests (barred : Prop) (P : Place → List Place) (c : Course) : Prop :=
  c.outcome = .ok () → (∀ around, (Layout.placesAll around c.parts).Perm (P around)) ∧
    (barred → Layout.Untwinned c.parts)

namespace Nests

variable {barred barred' : Prop} {P Q T : Place → List Place} {c d e : Course}

theorem error {parts : List Layout} {refusal : Refusal} :
    Nests barred P ⟨parts, .error refusal⟩ := nofun

theorem done : Nests barred (fun _ => []) .done :=
  fun _ => ⟨fun _ => .refl _, fun _ => Layout.untwinned_nil⟩

theorem useAll (access : Access) (ids : List Occurrence) :
    Nests barred (fun _ => []) (.useAll access ids) := by
  refine fun _ => ⟨fun around => .of_eq (Layout.placesAll_uses around access ids), fun _ => ?_⟩
  rw [Course.useAll, Layout.Untwinned, Layout.openingsAll_uses]
  simp

theorem use (id : Occurrence) (access : Access) : Nests barred (fun _ => []) (.use id access) :=
  useAll access [id]

/-- What is done for twins being barred may be barred for more reasons. -/
theorem mono (nests : Nests barred P c) (more : barred' → barred) : Nests barred' P c :=
  fun completed => ⟨(nests completed).1, fun given => (nests completed).2 (more given)⟩

theorem andThen (first : Nests barred P c) (second : Nests barred Q d) :
    Nests barred (fun around => P around ++ Q around) (c.andThen d) := by
  obtain ⟨parts, outcome⟩ := c
  cases outcome with
  | error refusal => exact error
  | ok _ =>
    intro completed
    obtain ⟨places, clean⟩ := first rfl
    obtain ⟨places', clean'⟩ := second completed
    refine ⟨fun around => ?_, fun given => ?_⟩
    · change (Layout.placesAll around (parts ++ d.parts)).Perm _
      rw [Layout.placesAll_append]
      exact (places around).append (places' around)
    · exact Layout.untwinned_append_iff.2 ⟨clean given, clean' given⟩

/-- What is put between two parts of a course adds its places. -/
theorem insert (whole : Nests barred P (c.andThen (d.andThen e))) {more : Course}
    (added : Nests barred Q more) :
    Nests barred (fun around => P around ++ Q around) (c.andThen ((d.andThen more).andThen e)) := by
  obtain ⟨ls, outcome⟩ := c
  cases outcome with
  | error refusal => exact error
  | ok _ =>
    obtain ⟨ms, outcome'⟩ := d
    cases outcome' with
    | error refusal => exact error
    | ok _ =>
      obtain ⟨ns, outcome''⟩ := more
      cases outcome'' with
      | error refusal => exact error
      | ok _ =>
        intro completed
        obtain ⟨places, clean⟩ := whole completed
        obtain ⟨places', clean'⟩ := added rfl
        simp only [Course.andThen, Layout.placesAll_append, Layout.untwinned_append_iff]
          at places clean ⊢
        refine ⟨fun around => ?_, fun given => ?_⟩
        · have all := (places around).append (places' around)
          refine .trans (Multiset.coe_eq_coe.1 ?_) all
          simp only [← Multiset.coe_add]
          abel
        · obtain ⟨first, second, third⟩ := clean given
          exact ⟨first, ⟨second, clean' given⟩, third⟩

theorem asking {α : Type} {answer : Answer α} {next : α → Course}
    (further : ∀ a, answer = .ok a → Nests barred P (next a)) :
    Nests barred P (.asking answer next) := by
  cases answer with
  | error refusal => exact error
  | ok a => exact further a rfl

theorem inScope {kind : ScopeKind} {node : Node} {arguments : Option Name}
    {decls : List Declaration} (inner : Nests barred P c)
    (firsthand : barred → ∀ d ∈ decls, d.kind ≠ .functionVarDeclaration) :
    Nests barred (Places.scope kind node P) (.inScope kind node arguments decls c) := by
  intro completed
  obtain ⟨places, clean⟩ := inner completed
  refine ⟨fun around => ?_, fun given => ?_⟩
  · simp only [Course.inScope, Layout.placesAll, Layout.places, List.append_nil]
    exact (places _).cons _
  · exact Layout.untwinned_scope_iff.2 ⟨firsthand given, clean given⟩

theorem writes (compound : Bool) (o : Outline) :
    Nests barred (fun _ => []) (.writes compound o) := by
  unfold Course.writes
  split
  · exact use _ _
  · exact asking (fun ids _ => useAll .write ids)

theorem headWrites (o : Outline) : Nests barred (fun _ => []) (.headWrites o) := by
  unfold Course.headWrites
  split <;> exact asking (fun ids _ => useAll .write ids)

theorem aroundLone (s : Stmt Node Name) (inner : Nests barred P c) :
    Nests barred (Places.clause s P) (.aroundLone (Folding.loneFunction s) c) := by
  unfold Places.clause
  cases Folding.loneFunction s with
  | none => exact inner
  | some f =>
    refine inScope inner (fun _ d member => ?_)
    rw [List.mem_singleton.1 member]
    simp

theorem aroundNamed (kind : FunctionKind) (node : Node) (name : Option Occurrence)
    (inner : Nests barred P c) :
    Nests barred (Places.named kind node name P) (.aroundNamed kind node name c) := by
  unfold Course.aroundNamed
  split
  next id =>
    refine inScope inner (fun _ d member => ?_)
    rw [List.mem_singleton.1 member]
    simp
  next other =>
    have unnamed : decide (kind = .expression ∧ name.isSome) = false := by
      cases kind <;> cases name <;> first | rfl | exact absurd rfl (other _ rfl)
    rw [Places.named, unnamed]
    exact inner

end Nests

end Resolution.Course

/-- Twins are barred from a part of a program. -/
def Resolution.Walk.Setting.Barred (setting : Walk.Setting) (strict : Bool) : Prop :=
  (!strict && setting.options.annexB) = false

theorem Resolution.Walk.Setting.Barred.or {setting : Walk.Setting} {strict : Bool}
    (barred : setting.Barred strict) (strict' : Bool) : setting.Barred (strict || strict') := by
  unfold Walk.Setting.Barred at barred ⊢
  rw [Bool.not_or, Bool.and_right_comm, barred, Bool.false_and]

namespace Outline

/-- The scopes of an outline lie at the given places. -/
def Nests (P : Place → List Place) (o : Outline) : Prop :=
  ∀ setting strict, (Course.ofOutline setting strict o).Nests (setting.Barred strict) P

def NestsAll (P : Place → List Place) (os : List Outline) : Prop :=
  ∀ setting strict, (Course.ofAll setting strict os).Nests (setting.Barred strict) P

variable {P Q T : Place → List Place} {o o' : Outline} {os : List Outline}

theorem NestsAll.nil : NestsAll (fun _ => []) [] := fun _ _ => .done

theorem Nests.cons (first : Nests P o) (rest : NestsAll Q os) :
    NestsAll (fun around => P around ++ Q around) (o :: os) :=
  fun setting strict => (first setting strict).andThen (rest setting strict)

theorem NestsAll.join (all : NestsAll P os) : Nests P (.join os) := by
  intro setting strict
  rw [Course.ofOutline_join]
  exact all setting strict

theorem Nests.join₂ (first : Nests P o) (second : Nests Q o') :
    Nests (fun around => P around ++ Q around) (.join [o, o']) := by
  have both := (first.cons (second.cons .nil)).join
  simpa only [List.append_nil] using both

theorem Nests.join₃ {o'' : Outline} (first : Nests P o) (second : Nests Q o')
    (third : Nests T o'') :
    Nests (fun around => P around ++ (Q around ++ T around)) (.join [o, o', o'']) := by
  have all := (first.cons (second.cons (third.cons .nil))).join
  simpa only [List.append_nil] using all

theorem Nests.keep (first : Nests P o) (rest : NestsAll Q os) :
    NestsAll (fun around => P around ++ Q around) (Folding.keep o os) := by
  intro setting strict
  rw [Course.ofAll_keep]
  exact (first setting strict).andThen (rest setting strict)

/-- Outlines that are nothing may drop out. -/
theorem NestsAll.filter (all : NestsAll P os) :
    NestsAll P (os.filter (fun o => !o.isNothing)) := by
  intro setting strict
  rw [Course.ofAll_filter]
  exact all setting strict

theorem NestsAll.snoc (all : NestsAll P os) (last : Nests Q o) :
    NestsAll (fun around => P around ++ Q around) (os ++ [o]) := by
  intro setting strict
  have one := last.cons .nil setting strict
  simp only [List.append_nil] at one
  rw [Course.ofAll_append]
  exact (all setting strict).andThen one

namespace Nests

/-! Outlines without scopes. -/

theorem nothing : Nests (fun _ => []) .nothing := fun _ _ => .done

theorem binding (id : Occurrence) : Nests (fun _ => []) (.binding id) := fun _ _ => .done

theorem target (id : Occurrence) : Nests (fun _ => []) (.target id) := fun _ _ => .done

theorem imports (ids : List Occurrence) : Nests (fun _ => []) (.imports ids) := fun _ _ => .done

theorem read (id : Occurrence) : Nests (fun _ => []) (.read id) := fun _ _ => .use id .read

theorem delete (id : Occurrence) : Nests (fun _ => []) (.delete id) := fun _ _ => .use id .delete

theorem update (id : Occurrence) : Nests (fun _ => []) (.update id) :=
  fun _ _ => .use id .readWrite

theorem evaluated (inner : Nests P o) : Nests P (.evaluated o) := by
  intro setting strict
  rw [Course.ofOutline]
  exact inner setting strict

theorem directEval (call : Nests P o) : Nests P (.directEval o) := by
  intro setting strict
  have quiet : Course.Nests (setting.Barred strict) (fun _ => []) ⟨[.directEval], .ok ()⟩ :=
    fun _ => ⟨fun _ => .refl _, fun _ => Layout.untwinned_nil⟩
  rw [Course.ofOutline]
  exact quiet.andThen (call setting strict)

theorem assign (compound : Bool) (target : Nests P o) (value : Nests Q o') :
    Nests (fun around => P around ++ Q around) (.assign compound o o') := by
  intro setting strict
  rw [Course.ofOutline]
  exact (Course.Nests.writes compound o).andThen
    ((target setting strict).andThen (value setting strict))

/-- A member that an assignment writes is marked as evaluated if it concerns names. -/
theorem member (object : Nests P o) :
    Nests P (if o.isNothing then .nothing else .evaluated o) := by
  split
  next is =>
    rw [eq_nothing is] at object
    exact object
  next => exact object.evaluated

end Nests

/-! Statements that open scopes. -/

section Statements

variable {decls : List Declaration}

theorem NestsAll.block (all : NestsAll P os) (node : Node)
    (firsthand : ∀ d ∈ decls, d.kind ≠ .functionVarDeclaration) :
    Nests (Places.scope .block node P) (.block node decls os) := by
  intro setting strict
  rw [Course.ofOutline]
  exact (all setting strict).inScope (fun _ => firsthand)

theorem Nests.ifElse {test yes no : Outline} (first second : Stmt Node Name) (head : Nests P test)
    (nestsYes : Nests Q yes) (nestsNo : Nests T no) :
    Nests (fun around => P around ++
        (Places.clause first Q around ++ Places.clause second T around))
      (.ifElse test (Folding.loneFunction first) yes (Folding.loneFunction second) no) := by
  intro setting strict
  rw [Course.ofOutline]
  exact (head setting strict).andThen (((nestsYes setting strict).aroundLone first).andThen
    ((nestsNo setting strict).aroundLone second))

theorem Nests.ifThen {test yes : Outline} (first : Stmt Node Name) (head : Nests P test)
    (nestsYes : Nests Q yes) :
    Nests (fun around => P around ++ Places.clause first Q around)
      (.ifElse test (Folding.loneFunction first) yes none .nothing) := by
  intro setting strict
  rw [Course.ofOutline, Course.aroundLone, Course.ofOutline, Course.andThen_done]
  exact (head setting strict).andThen ((nestsYes setting strict).aroundLone first)

theorem Nests.forLoop {init test update body : Outline} {S : Place → List Place} (node : Node)
    (firsthand : ∀ d ∈ decls, d.kind ≠ .functionVarDeclaration) (nestsInit : Nests P init)
    (nestsTest : Nests Q test) (nestsUpdate : Nests T update) (nestsBody : Nests S body) :
    Nests (Places.scope .block node (fun inner =>
        P inner ++ (Q inner ++ (T inner ++ S inner))))
      (.forLoop node decls init test update body) := by
  intro setting strict
  rw [Course.ofOutline]
  exact ((nestsInit setting strict).andThen ((nestsTest setting strict).andThen
    ((nestsUpdate setting strict).andThen (nestsBody setting strict)))).inScope
      (fun _ => firsthand)

theorem Nests.forEach {head collection body : Outline} (node : Node)
    (firsthand : ∀ d ∈ decls, d.kind ≠ .functionVarDeclaration) (nestsHead : Nests P head)
    (nestsCollection : Nests Q collection) (nestsBody : Nests T body) :
    Nests (Places.scope .block node (fun inner => P inner ++ (Q inner ++ T inner)))
      (.forEach node decls head collection body) := by
  intro setting strict
  rw [Course.ofOutline]
  exact ((Course.Nests.headWrites head).andThen ((nestsHead setting strict).andThen
    ((nestsCollection setting strict).andThen (nestsBody setting strict)))).inScope
      (fun _ => firsthand)

/-- The object of a `with` stands outside its scope. -/
theorem Nests.withObject {object body : Outline} (node : Node) (outside : Nests P object)
    (inside : Nests Q body) :
    Nests (fun around => P around ++ Places.scope .with_ node Q around)
      (.withObject node object body) := by
  intro setting strict
  have quiet : Course.Nests (setting.Barred strict) (fun _ => []) ⟨[.withStatement], .ok ()⟩ :=
    fun _ => ⟨fun _ => .refl _, fun _ => Layout.untwinned_nil⟩
  rw [Course.ofOutline]
  exact (outside setting strict).andThen
    ((quiet.andThen (inside setting strict)).inScope (fun _ => firsthand_nil))

/-- The clauses of a switch at the given places. -/
def NestsCases (P : Place → List Place) (cases : List CaseOutline) : Prop :=
  ∀ setting strict, (Course.ofCases setting strict cases).Nests (setting.Barred strict) P

theorem NestsCases.nil : NestsCases (fun _ => []) [] := fun _ _ => .done

theorem NestsCases.cons {test : Outline} {cases : List CaseOutline} (head : Nests P test)
    (statements : NestsAll Q os) (rest : NestsCases T cases) :
    NestsCases (fun around => P around ++ (Q around ++ T around)) (.mk test os :: cases) :=
  fun setting strict => (head setting strict).andThen
    ((statements setting strict).andThen (rest setting strict))

/-- The discriminant of a `switch` stands outside its scope. -/
theorem NestsCases.switch {discriminant : Outline} {cases : List CaseOutline}
    (inside : NestsCases Q cases) (node : Node)
    (firsthand : ∀ d ∈ decls, d.kind ≠ .functionVarDeclaration) (outside : Nests P discriminant) :
    Nests (fun around => P around ++ Places.scope .block node Q around)
      (.switch node decls discriminant cases) := by
  intro setting strict
  rw [Course.ofOutline]
  exact (outside setting strict).andThen ((inside setting strict).inScope (fun _ => firsthand))

theorem NestsAll.handler {bound : Outline} (all : NestsAll Q os) (node block : Node)
    (isPattern : Bool) (firsthand : ∀ d ∈ decls, d.kind ≠ .functionVarDeclaration)
    (head : Nests P bound) :
    Nests (Places.scope .catch_ node (fun inner =>
        P inner ++ Places.scope .block block Q inner))
      (.handler node isPattern bound block decls os) := by
  intro setting strict
  rw [Course.ofOutline]
  split
  · exact .error
  · exact ((head setting strict).andThen ((all setting strict).inScope
      (fun _ => firsthand))).inScope (fun _ => firsthand_declareAs _ (by decide))

/-- A class is strict, so that twins are barred from all of it. -/
theorem NestsAll.class_ {heritage : Outline} (elements : NestsAll Q os) (node : Node)
    (isDeclaration : Bool) (name : Option Occurrence) (head : Nests P heritage) :
    Nests (Places.scope .className node (fun inner => P inner ++ Q inner))
      (.class_ node isDeclaration name heritage os) := by
  intro setting strict
  rw [Course.ofOutline]
  refine (((head setting true).andThen (elements setting true)).mono (fun _ => ?_)).inScope
    (fun _ => firsthand_declareAs _ (by decide))
  exact Bool.false_and _

end Statements

/-! Bindings and parameters. -/

/-- The outline of a binding at the given places. It is known whether it runs code, and there are
no scopes in it otherwise. -/
structure Binds (evaluates : Bool) (P : Place → List Place) (o : Outline) : Prop where
  nests : Nests P o
  bound : ∀ bound, o.boundNames = .ok bound → bound.evaluates = evaluates
  still : evaluates = false → ∀ around, P around = []

structure BindsAll (evaluates : Bool) (P : Place → List Place) (os : List Outline) : Prop where
  nests : NestsAll P os
  bound : ∀ bound, boundNamesAll os = .ok bound → bound.evaluates = evaluates
  still : evaluates = false → ∀ around, P around = []

section Bindings

variable {evaluates evaluates' : Bool}

theorem evaluates_append {answer answer' : Answer Bound}
    (first : ∀ bound, answer = .ok bound → bound.evaluates = evaluates)
    (second : ∀ bound, answer' = .ok bound → bound.evaluates = evaluates') :
    ∀ bound, (do let a ← answer; let b ← answer'; .ok (a.append b)) = Except.ok bound →
      bound.evaluates = (evaluates || evaluates') := by
  intro bound both
  cases answer with
  | error refusal => cases both
  | ok a =>
    cases answer' with
    | error refusal => cases both
    | ok b =>
      cases both
      rw [Bound.append, first a rfl, second b rfl]

theorem still_append (first : evaluates = false → ∀ around, P around = [])
    (second : evaluates' = false → ∀ around, Q around = []) :
    (evaluates || evaluates') = false → ∀ around, P around ++ Q around = [] := by
  intro bare around
  obtain ⟨here, there⟩ := Bool.or_eq_false_iff.1 bare
  rw [first here, second there, List.append_nil]

theorem BindsAll.nil : BindsAll false (fun _ => []) [] :=
  ⟨.nil, fun _ empty => by cases empty; rfl, fun _ _ => rfl⟩

theorem Binds.cons (first : Binds evaluates P o) (rest : BindsAll evaluates' Q os) :
    BindsAll (evaluates || evaluates') (fun around => P around ++ Q around) (o :: os) :=
  ⟨first.nests.cons rest.nests, evaluates_append first.bound rest.bound,
    still_append first.still rest.still⟩

theorem BindsAll.snoc (all : BindsAll evaluates P os) (last : Binds evaluates' Q o) :
    BindsAll (evaluates || evaluates') (fun around => P around ++ Q around) (os ++ [o]) := by
  refine ⟨all.nests.snoc last.nests, ?_, still_append all.still last.still⟩
  rw [boundNamesAll_append, boundNamesAll_singleton]
  exact evaluates_append all.bound last.bound

theorem BindsAll.join (all : BindsAll evaluates P os) : Binds evaluates P (.join os) :=
  ⟨all.nests.join, by rw [boundNames_join]; exact all.bound, all.still⟩

namespace Binds

theorem nothing : Binds false (fun _ => []) .nothing :=
  ⟨.nothing, fun _ empty => by cases empty; rfl, fun _ _ => rfl⟩

theorem ident (id : Occurrence) : Binds false (fun _ => []) (.binding id) :=
  ⟨.binding id, fun _ one => by cases one; rfl, fun _ _ => rfl⟩

/-- A part of a binding that is marked as evaluated runs code, whatever it contains. -/
theorem evaluated (inner : Nests P o) : Binds true P (.evaluated o) := by
  refine ⟨inner.evaluated, fun bound marked => ?_, nofun⟩
  rw [boundNames] at marked
  cases names : o.boundNames with
  | error refusal => rw [names] at marked; cases marked
  | ok found =>
    rw [names] at marked
    cases marked
    rfl

theorem congr (binds : Binds evaluates P o) (same : ∀ around, P around = Q around) :
    Binds evaluates Q o :=
  funext same ▸ binds

/-- A part of a pattern under a key, which runs code if it is computed. -/
theorem keyed {k : Key Node Name} {head : Outline} (binds : Binds evaluates P o)
    (nestsKey : Nests (Places.key k) head) (bare : k.isComputed = false → head = .nothing) :
    Binds (k.isComputed || evaluates) (fun around => Places.key k around ++ P around)
      (if k.isComputed then .evaluated (.join [head, o]) else .join [head, o]) := by
  cases computed : k.isComputed with
  | true => exact .evaluated (nestsKey.join₂ binds.nests)
  | false =>
    have silent (around : Place) : Places.key k around = [] := by
      cases k with
      | computed node value => cases computed
      | _ => rfl
    have both := (Binds.nothing.cons (binds.cons .nil)).join
    rw [bare computed]
    simpa only [silent, Bool.or_false, Bool.false_or, List.append_nil, List.nil_append,
      Bool.false_eq_true, if_false] using both

end Binds

/-- Parameters at the given places, each that runs code in a scope of its own. -/
structure NestsParams (evaluates : Bool) (P : Place → List Place) (ps : List ParamOutline) :
    Prop where
  course : ∀ setting strict, (Course.ofParams setting strict ps).Nests (setting.Barred strict) P
  bound : ∀ bound, Walk.boundByAll ps = .ok bound → bound.evaluates = evaluates
  still : evaluates = false → ∀ around, P around = []

namespace NestsParams

variable {ps qs : List ParamOutline}

theorem nil : NestsParams false (fun _ => []) [] :=
  ⟨fun _ _ => .done, fun _ empty => by cases empty; rfl, fun _ _ => rfl⟩

theorem singleton (node : Node) (binds : Binds evaluates P o) :
    NestsParams evaluates (Places.scopeIf evaluates .parameterExpression node P) [.mk node o] where
  course setting strict := by
    rw [Course.ofParams]
    refine .asking (fun bound found => ?_)
    rw [binds.bound bound found, Course.ofParams, Course.andThen_done]
    cases evaluates with
    | false => exact binds.nests setting strict
    | true => exact (binds.nests setting strict).inScope (fun _ => firsthand_nil)
  bound bound found := by
    have one := evaluates_append binds.bound BindsAll.nil.bound bound found
    rwa [Bool.or_false] at one
  still bare := by
    subst bare
    exact binds.still rfl

theorem append (first : NestsParams evaluates P ps) (second : NestsParams evaluates' Q qs) :
    NestsParams (evaluates || evaluates') (fun around => P around ++ Q around) (ps ++ qs) where
  course setting strict := by
    rw [Reading.Parameters.ofParams_append]
    exact (first.course setting strict).andThen (second.course setting strict)
  bound := by
    rw [Reading.Parameters.boundByAll_append]
    exact evaluates_append first.bound second.bound
  still := still_append first.still second.still

end NestsParams

/-- The body of a function at the given places inside its scope, whatever its parameters. -/
def NestsBody (P : Place → List Place) (b : BodyOutline) : Prop :=
  ∀ setting strict kind node params holdsParams,
    (∀ d ∈ params, d.kind ≠ .functionVarDeclaration) →
      (Course.ofBody setting strict kind node params holdsParams b).Nests (setting.Barred strict)
        (Places.scope kind.scopeKind node P)

theorem Nests.concise (value : Nests P o) : NestsBody P (.concise o) := by
  intro setting strict kind node params holdsParams firsthand
  rw [Course.ofBody]
  refine (value setting strict).inScope (fun _ => ?_)
  split
  · exact firsthand
  · exact firsthand_nil

theorem NestsAll.body {decls : List Declaration} (all : NestsAll P os) (isStrict : Bool)
    (own : ∀ d ∈ decls, d.kind ≠ .functionVarDeclaration) :
    NestsBody P (.block isStrict decls os) := by
  intro setting strict kind node params holdsParams firsthand
  rw [Course.ofBody]
  split
  · exact .error
  next owned collected =>
    refine (all setting strict).inScope (fun barred => ?_)
    rw [barred] at collected
    rw [List.append_assoc]
    refine List.forall_mem_append.2 ⟨List.forall_mem_append.2 ⟨?_, own⟩,
      firsthand_of_hoistedAll collected⟩
    split
    · exact firsthand
    · exact firsthand_nil

/-- A function at the given places. If any parameter runs code all of them have a scope. -/
theorem NestsBody.function {ps : List ParamOutline} {b : BodyOutline} (inside : NestsBody Q b)
    (kind : FunctionKind) (node : Node) (name : Option Occurrence)
    (parameters : NestsParams evaluates P ps) :
    Nests (Places.named kind node name (Places.scopeIf evaluates .parameters node (fun inner =>
        P inner ++ Places.scope kind.scopeKind node Q inner)))
      (.function kind node name ps b) := by
  intro setting strict
  rw [Course.ofOutline]
  refine .aroundNamed kind node name (.asking (fun bound found => ?_))
  have firsthand : ∀ d ∈ declareAs .parameter bound.names, d.kind ≠ .functionVarDeclaration :=
    firsthand_declareAs bound.names (by decide)
  have course (holds : Bool) := (inside setting (strict || b.isStrict) kind node
    (declareAs .parameter bound.names) holds firsthand).mono
      (fun barred : setting.Barred strict => barred.or b.isStrict)
  rw [parameters.bound bound found]
  cases evaluates with
  | false =>
    simp only [Places.scopeIf, parameters.still rfl, List.nil_append]
    exact course true
  | true =>
    have params := (parameters.course setting (strict || b.isStrict)).mono
      (fun barred : setting.Barred strict => barred.or b.isStrict)
    exact (params.andThen (course false)).inScope (fun _ => firsthand)

end Bindings

/-- Declarators at the given places. -/
def NestsDeclarators (P : Place → List Place) (ds : List DeclaratorOutline) : Prop :=
  ∀ setting strict, (Course.ofDeclarators setting strict ds).Nests (setting.Barred strict) P

theorem NestsDeclarators.nil : NestsDeclarators (fun _ => []) [] := fun _ _ => .done

theorem NestsDeclarators.cons {init : Outline} {ds : List DeclaratorOutline} (hasInit : Bool)
    (binds : Nests P o) (value : Nests Q init) (rest : NestsDeclarators T ds) :
    NestsDeclarators (fun around => P around ++ Q around ++ T around)
      (.mk o hasInit init :: ds) := by
  intro setting strict
  have writes : Course.Nests (setting.Barred strict) (fun _ => [])
      (if hasInit then .asking o.boundNames (fun bound => .useAll .write bound.names)
        else .done) := by
    split
    · exact .asking (fun bound _ => .useAll .write bound.names)
    · exact .done
  simp only [List.append_assoc]
  exact writes.andThen ((binds setting strict).andThen
    ((value setting strict).andThen (rest setting strict)))

theorem NestsDeclarators.decl {ds : List DeclaratorOutline} (all : NestsDeclarators P ds)
    (kind : VariableKind) : Nests P (.decl kind ds) := by
  intro setting strict
  rw [Course.ofOutline]
  exact all setting strict

end Outline

namespace Folding

/-! Members of objects and classes. -/

/-- No two members wait for accessors of the same placement and key. -/
def Apart (parts : List Part) : Prop :=
  (parts.map Part.slot).Pairwise (fun slot other => slot.isSome → other ≠ slot)

theorem Apart.snoc {parts : List Part} (apart : Apart parts) {slot : Option (Bool × Name)}
    (fresh : ∀ part ∈ parts, part.slot.isSome → slot ≠ part.slot) (o : Outline) :
    Apart (parts ++ [⟨slot, o⟩]) := by
  rw [Apart, List.map_append]
  refine List.pairwise_append.2 ⟨apart, List.pairwise_singleton _ _, ?_⟩
  intro other member last only
  obtain ⟨part, present, rfl⟩ := List.mem_map.1 member
  rw [List.mem_singleton.1 only]
  exact fresh part present

/-- Only the accessor that waits for a slot is changed by what goes there. -/
theorem Apart.merge {before after : List Part} {part : Part}
    (apart : Apart (before ++ part :: after)) {key : Bool × Name} (waits : part.slot = some key)
    (o : Outline) :
    (before ++ part :: after).map (fun part =>
        if part.slot = some key then ⟨part.slot, .join [part.outline, o]⟩ else part) =
      before ++ ⟨part.slot, .join [part.outline, o]⟩ :: after := by
  rw [Apart, List.map_append, List.map_cons] at apart
  obtain ⟨_, apart, across⟩ := List.pairwise_append.1 apart
  have early : ∀ other ∈ before, other.slot ≠ some key := by
    intro other member same
    refine across other.slot (List.mem_map_of_mem member) part.slot List.mem_cons_self ?_ ?_
    · rw [same]; rfl
    · rw [waits, same]
  have late : ∀ other ∈ after, other.slot ≠ some key := by
    intro other member same
    refine (List.pairwise_cons.1 apart).1 other.slot (List.mem_map_of_mem member) ?_ ?_
    · rw [waits]; rfl
    · rw [waits, same]
  have unmoved (parts : List Part) (others : ∀ part ∈ parts, part.slot ≠ some key) :
      parts.map (fun part =>
        if part.slot = some key then ⟨part.slot, .join [part.outline, o]⟩ else part) = parts := by
    refine (List.map_congr_left (fun part member => ?_)).trans (List.map_id parts)
    rw [if_neg (others part member)]
    rfl
  rw [List.map_append, List.map_cons, unmoved before early, unmoved after late, if_pos waits]

/-- A member goes behind the others, or its outline to the one accessor that waits for it. -/
theorem addPart_cases {parts : List Part} (apart : Apart parts) (slot : Option (Bool × Name))
    (o : Outline) :
    Apart (addPart slot o parts) ∧
      (addPart slot o parts = parts ++ [⟨slot, o⟩] ∨
        ∃ before part after, parts = before ++ part :: after ∧
          addPart slot o parts = before ++ ⟨part.slot, .join [part.outline, o]⟩ :: after) := by
  cases slot with
  | none =>
    refine ⟨apart.snoc (fun part _ waits same => ?_) o, .inl rfl⟩
    rw [← same] at waits
    cases waits
  | some key =>
    rw [addPart]
    split
    next found =>
      obtain ⟨part, member, waits⟩ := List.any_eq_true.1 found
      obtain ⟨before, after, rfl⟩ := List.append_of_mem member
      have merged := apart.merge (of_decide_eq_true waits) o
      refine ⟨?_, .inr ⟨before, part, after, rfl, merged⟩⟩
      rw [merged]
      simpa only [Apart, List.map_append, List.map_cons] using apart
    next none =>
      refine ⟨apart.snoc (fun part member _ same => ?_) o, .inl rfl⟩
      exact none (List.any_eq_true.2 ⟨part, member, decide_eq_true same.symm⟩)

/-- Members at the given places, in any order. -/
structure Gathers (P : Place → List Place) (parts : List Part) : Prop where
  apart : Apart parts
  nests : Outline.NestsAll P (parts.map Part.outline)

theorem Gathers.assoc {P Q T : Place → List Place} {parts : List Part}
    (gathers : Gathers (fun around => P around ++ Q around ++ T around) parts) :
    Gathers (fun around => P around ++ (Q around ++ T around)) parts := by
  simpa only [List.append_assoc] using gathers

theorem Gathers.append_nil {P : Place → List Place} {parts : List Part}
    (gathers : Gathers P parts) : Gathers (fun around => P around ++ []) parts := by
  simpa only [List.append_nil] using gathers

theorem Gathers.addPart {P Q : Place → List Place} {parts : List Part} {o : Outline}
    (gathers : Gathers P parts) (slot : Option (Bool × Name)) (value : o.Nests Q) :
    Gathers (fun around => P around ++ Q around) (addPart slot o parts) := by
  obtain ⟨apart, behind | ⟨before, part, after, rfl, merged⟩⟩ := addPart_cases gathers.apart slot o
  · refine ⟨apart, ?_⟩
    rw [behind, List.map_append]
    exact gathers.nests.snoc value
  · refine ⟨apart, fun setting strict => ?_⟩
    have all := gathers.nests setting strict
    rw [List.map_append, List.map_cons, Course.ofAll_append, Course.ofAll] at all
    rw [merged, List.map_append, List.map_cons, Course.ofAll_append, Course.ofAll,
      Course.ofOutline_join, Course.ofAll, Course.ofAll, Course.ofAll, Course.andThen_done]
    exact all.insert (value setting strict)

end Folding

end ScopeAnalysis
