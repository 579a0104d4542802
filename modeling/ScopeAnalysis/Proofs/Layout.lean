import ScopeAnalysis.Resolution.Walk

/-!
# Layouts

A layout says, without any state, what a walk does: which scopes it opens, what it declares in them
before anything else, and what it uses inside, each in its place. The course of an outline is the
layout of the part that is walked, with the outcome.
-/

namespace ScopeAnalysis.Resolution

inductive Layout where
  | use (id : Occurrence) (access : Access)
  | directEval
  | withStatement
  /-- A scope with the name of its implicit `arguments`, if it has one, its declarations in the
  order in which they are made, and what is inside. -/
  | scope (kind : ScopeKind) (node : Node) (arguments : Option Name) (decls : List Declaration)
      (inner : List Layout)

namespace State

/-- Declares all that the innermost scope is to hold. -/
def furnish (s : State) (arguments : Option Name) (decls : List Declaration) : State :=
  (arguments.elim s s.bindArguments).declareAll decls

/-- Opens a scope and declares all that it is to hold. -/
def openWith (s : State) (kind : ScopeKind) (node : Node) (arguments : Option Name)
    (decls : List Declaration) : State :=
  (s.enter kind node).furnish arguments decls

mutual

/-- Lays out in a state what a layout says. -/
def layOut (s : State) : Layout → State
  | .use id access => s.record id access
  | .directEval => s.makeDynamic
  | .withStatement => s.report (.withStatement s.current)
  | .scope kind node arguments decls inner =>
    ((s.openWith kind node arguments decls).layOutAll inner).leave

def layOutAll (s : State) : List Layout → State
  | [] => s
  | l :: rest => (s.layOut l).layOutAll rest

end

theorem layOutAll_append (s : State) (ls ms : List Layout) :
    s.layOutAll (ls ++ ms) = (s.layOutAll ls).layOutAll ms := by
  induction ls generalizing s with
  | nil => rfl
  | cons l rest ih => exact ih (s.layOut l)

/-- The new reference of a use whose variable is known, before it passes through any scope. -/
def attach (s : State) (id : Occurrence) (access : Access) (v : VariableId) : State :=
  let r : ReferenceId := ⟨s.references.size⟩
  let s := { s with references := s.references.push ⟨id, access, v⟩ }
  s.updateVariable v (fun var => { var with references := var.references ++ [r] })

/-- The open scopes inside the one that owns a variable. -/
def inside (s : State) (v : VariableId) : List ScopeId :=
  s.openScopes.takeWhile (fun scope => scope ≠ s.ownerOf v)

/-- The three parts of recording a use: finding its variable, attaching the reference, and passing
through the scopes in between. -/
theorem record_eq (s : State) (id : Occurrence) (access : Access) :
    s.record id access =
      (((s.resolve id.name).2.attach id access (s.resolve id.name).1).inside
          (s.resolve id.name).1).foldl
        (passThrough id.name ⟨(s.resolve id.name).2.references.size⟩)
        ((s.resolve id.name).2.attach id access (s.resolve id.name).1) :=
  rfl

/-- Passing through scopes changes nothing but these scopes. -/
theorem foldl_passThrough_eq (s : State) (name : Name) (r : ReferenceId) (ids : List ScopeId) :
    ids.foldl (passThrough name r) s =
      { s with scopes := (ids.foldl (passThrough name r) s).scopes } := by
  induction ids generalizing s with
  | nil => rfl
  | cons id rest ih => exact ih (passThrough name r s id)

theorem declareAll_append (s : State) (ds es : List Declaration) :
    s.declareAll (ds ++ es) = (s.declareAll ds).declareAll es :=
  List.foldl_append

theorem furnish_declareAll (s : State) (arguments : Option Name) (ds es : List Declaration) :
    (s.furnish arguments ds).declareAll es = s.furnish arguments (ds ++ es) :=
  (declareAll_append _ ds es).symm

end State

/-- What a walk does, as far as it gets. -/
structure Course where
  parts : List Layout
  outcome : Answer Unit

namespace Course

def done : Course := ⟨[], .ok ()⟩

def use (id : Occurrence) (access : Access) : Course := ⟨[.use id access], .ok ()⟩

def useAll (access : Access) (ids : List Occurrence) : Course :=
  ⟨ids.map (fun id => .use id access), .ok ()⟩

/-- One course after another, unless the first is refused. -/
def andThen (first second : Course) : Course :=
  match first.outcome with
  | .ok () => ⟨first.parts ++ second.parts, second.outcome⟩
  | .error refusal => ⟨first.parts, .error refusal⟩

/-- A course that depends on an answer. -/
def asking {α : Type} (answer : Answer α) (next : α → Course) : Course :=
  match answer with
  | .ok a => next a
  | .error refusal => ⟨[], .error refusal⟩

def inScope (kind : ScopeKind) (node : Node) (arguments : Option Name) (decls : List Declaration)
    (inner : Course) : Course :=
  ⟨[.scope kind node arguments decls inner.parts], inner.outcome⟩

@[simp]
theorem done_andThen (c : Course) : done.andThen c = c := rfl

@[simp]
theorem andThen_done (c : Course) : c.andThen done = c := by
  obtain ⟨parts, outcome⟩ := c
  cases outcome with
  | error refusal => rfl
  | ok _ => simp [andThen, done]

theorem andThen_assoc (c₁ c₂ c₃ : Course) :
    (c₁.andThen c₂).andThen c₃ = c₁.andThen (c₂.andThen c₃) := by
  obtain ⟨p₁, r₁⟩ := c₁
  obtain ⟨p₂, r₂⟩ := c₂
  cases r₁ with
  | error refusal => rfl
  | ok _ =>
    cases r₂ with
    | error refusal => rfl
    | ok _ => simp [andThen]

theorem asking_eq_ok {α : Type} {answer : Answer α} {next : α → Course} {parts : List Layout} :
    asking answer next = ⟨parts, .ok ()⟩ ↔ ∃ a, answer = .ok a ∧ next a = ⟨parts, .ok ()⟩ := by
  cases answer <;> simp [asking]

theorem inScope_eq_ok {kind : ScopeKind} {node : Node} {arguments : Option Name}
    {decls : List Declaration} {inner : Course} {parts : List Layout} :
    inScope kind node arguments decls inner = ⟨parts, .ok ()⟩ ↔
      ∃ p, inner = ⟨p, .ok ()⟩ ∧ parts = [.scope kind node arguments decls p] := by
  obtain ⟨p, r⟩ := inner
  simp only [inScope, mk.injEq]
  constructor
  · rintro ⟨rfl, rfl⟩
    exact ⟨p, ⟨rfl, rfl⟩, rfl⟩
  · rintro ⟨q, ⟨rfl, rfl⟩, rfl⟩
    exact ⟨rfl, rfl⟩

/-- The writes of an assignment. -/
def writes (compound : Bool) : Outline → Course
  | .target id => use id (if compound then .readWrite else .write)
  | t => asking t.writtenNames (useAll .write)

/-- The writes of a loop over a collection to what stands in its head. -/
def headWrites : Outline → Course
  | .decl _ declarators => asking (Outline.declaratorNames declarators) (useAll .write)
  | t => asking t.writtenNames (useAll .write)

def aroundLone (alone : Option LoneFunction) (inner : Course) : Course :=
  match alone with
  | some f => inScope .block f.node none [⟨f.name, .functionDeclaration⟩] inner
  | none => inner

def aroundNamed (kind : FunctionKind) (node : Node) (name : Option Occurrence) (inner : Course) :
    Course :=
  match kind, name with
  | .expression, some id => inScope .functionName node none [⟨id, .functionName⟩] inner
  | _, _ => inner

variable (setting : Walk.Setting)

/-- The name under which a function of this kind has its own `arguments`. -/
def argumentsOf (kind : FunctionKind) : Option Name :=
  if kind.hasArguments then some setting.arguments else none

mutual

def ofOutline (strict : Bool) : Outline → Course
  | .nothing | .binding _ | .target _ | .imports _ => done
  | .read id => use id .read
  | .delete id => use id .delete
  | .update id => use id .readWrite
  | .evaluated inner => ofOutline strict inner
  | .union parts => ofAll strict parts
  | .directEval call => andThen ⟨[.directEval], .ok ()⟩ (ofOutline strict call)
  | .assign compound t value =>
    (writes compound t).andThen ((ofOutline strict t).andThen (ofOutline strict value))
  | .decl _ declarators => ofDeclarators strict declarators
  | .block node decls statements => inScope .block node none decls (ofAll strict statements)
  | .ifElse test yesAlone yes noAlone no =>
    (ofOutline strict test).andThen
      ((aroundLone yesAlone (ofOutline strict yes)).andThen
        (aroundLone noAlone (ofOutline strict no)))
  | .forLoop node decls init test update body =>
    inScope .block node none decls
      ((ofOutline strict init).andThen ((ofOutline strict test).andThen
        ((ofOutline strict update).andThen (ofOutline strict body))))
  | .forEach node decls head collection body =>
    inScope .block node none decls
      ((headWrites head).andThen ((ofOutline strict head).andThen
        ((ofOutline strict collection).andThen (ofOutline strict body))))
  | .switch node decls discriminant cases =>
    (ofOutline strict discriminant).andThen (inScope .block node none decls (ofCases strict cases))
  | .handler node _ b block decls statements =>
    -- A pattern that is refused leaves its scope without declarations.
    match b.boundNames with
    | .error refusal => inScope .catch_ node none [] ⟨[], .error refusal⟩
    | .ok bound =>
      inScope .catch_ node none (Outline.declareAs .catchParameter bound.names)
        ((ofOutline strict b).andThen (inScope .block block none decls (ofAll strict statements)))
  | .withObject node object body =>
    (ofOutline strict object).andThen
      (inScope .with_ node none [] (andThen ⟨[.withStatement], .ok ()⟩ (ofOutline strict body)))
  | .class_ node _ name heritage elements =>
    inScope .className node none (Outline.declareAs .className name.toList)
      ((ofOutline true heritage).andThen (ofAll true elements))
  | .function kind node name params body =>
    aroundNamed kind node name (asking (Walk.boundByAll params) (fun bound =>
      if bound.evaluates then
        inScope .parameters node (argumentsOf setting kind)
          (Outline.declareAs .parameter bound.names)
          ((ofParams (strict || body.isStrict) params).andThen
            (ofBody (strict || body.isStrict) kind node
              (Outline.declareAs .parameter bound.names) false body))
      else
        ofBody (strict || body.isStrict) kind node (Outline.declareAs .parameter bound.names) true
          body))

def ofAll (strict : Bool) : List Outline → Course
  | [] => done
  | o :: rest => (ofOutline strict o).andThen (ofAll strict rest)

def ofDeclarators (strict : Bool) : List DeclaratorOutline → Course
  | [] => done
  | .mk b hasInit init :: rest =>
    (if hasInit then asking b.boundNames (fun bound => useAll .write bound.names) else done).andThen
      ((ofOutline strict b).andThen ((ofOutline strict init).andThen (ofDeclarators strict rest)))

def ofCases (strict : Bool) : List CaseOutline → Course
  | [] => done
  | .mk test statements :: rest =>
    (ofOutline strict test).andThen ((ofAll strict statements).andThen (ofCases strict rest))

def ofParams (strict : Bool) : List ParamOutline → Course
  | [] => done
  | .mk node b :: rest =>
    asking b.boundNames (fun bound =>
      (if bound.evaluates then inScope .parameterExpression node none [] (ofOutline strict b)
        else ofOutline strict b).andThen (ofParams strict rest))

def ofBody (strict : Bool) (kind : FunctionKind) (node : Node) (params : List Declaration)
    (holdsParams : Bool) : BodyOutline → Course
  | .concise value =>
    inScope kind.scopeKind node none (if holdsParams then params else []) (ofOutline strict value)
  | .block _ decls statements =>
    -- A body whose statements are refused leaves its scope with the parameters only.
    match Outline.hoistedAll (!strict && setting.options.annexB) (params ++ decls) true
        statements with
    | .error refusal =>
      inScope kind.scopeKind node (if holdsParams then argumentsOf setting kind else none)
        (if holdsParams then params else []) ⟨[], .error refusal⟩
    | .ok owned =>
      inScope kind.scopeKind node (if holdsParams then argumentsOf setting kind else none)
        ((if holdsParams then params else []) ++ decls ++ owned.vars ++ owned.twins)
        (ofAll strict statements)

end

end Course


/-- The course of a whole program, which opens the global scope before anything else. -/
def Course.ofProgram (setting : Walk.Setting) (outline : ProgramOutline) : Course :=
  if outline.isModule then
    asking (Outline.hoistedAll false outline.decls true outline.statements) (fun owned =>
      inScope .global outline.node none []
        (inScope .module outline.node none (outline.decls ++ owned.vars)
          (ofAll setting true outline.statements)))
  else
    asking (Outline.hoistedAll
        (!(outline.strict || setting.options.alwaysStrict) && setting.options.annexB) outline.decls
        true outline.statements) (fun owned =>
      inScope .global outline.node none (owned.vars ++ owned.twins)
        (inScope .script outline.node none outline.decls
          (ofAll setting (outline.strict || setting.options.alwaysStrict) outline.statements)))

namespace State

/-! Whether code is strict matters to no step of a layout, and no step changes it. -/

def withStrict (s : State) (strict : Bool) : State := { s with strict }

theorem enter_withStrict (s : State) (b : Bool) (kind : ScopeKind) (node : Node) :
    (s.withStrict b).enter kind node = (s.enter kind node).withStrict b := by
  obtain ⟨scopes, vars, references, openScopes, sight, strict, events⟩ := s
  cases openScopes <;> rfl

theorem bindArguments_withStrict (s : State) (b : Bool) (arguments : Name) :
    (s.withStrict b).bindArguments arguments = (s.bindArguments arguments).withStrict b := by
  have same : (s.withStrict b).ownVariable? arguments = s.ownVariable? arguments := rfl
  simp only [bindArguments, same]
  split <;> rfl

theorem declare_withStrict (s : State) (b : Bool) (d : Declaration) :
    (s.withStrict b).declare d = (s.declare d).withStrict b := by
  have same (event : Event) : ((s.withStrict b).report event).ownVariable? d.id.name =
      (s.report event).ownVariable? d.id.name := rfl
  have current : (s.withStrict b).current = s.current := rfl
  simp only [declare, same, current]
  split <;> rfl

theorem declareAll_withStrict (s : State) (b : Bool) (ds : List Declaration) :
    (s.withStrict b).declareAll ds = (s.declareAll ds).withStrict b := by
  induction ds generalizing s with
  | nil => rfl
  | cons d rest ih =>
    simp only [declareAll, List.foldl_cons] at ih ⊢
    rw [declare_withStrict, ih]

theorem furnish_withStrict (s : State) (b : Bool) (arguments : Option Name)
    (decls : List Declaration) :
    (s.withStrict b).furnish arguments decls = (s.furnish arguments decls).withStrict b := by
  cases arguments with
  | none => exact declareAll_withStrict s b decls
  | some name =>
    simp only [furnish, Option.elim, bindArguments_withStrict, declareAll_withStrict]

theorem strict_furnish (s : State) (arguments : Option Name) (decls : List Declaration) :
    (s.furnish arguments decls).strict = s.strict := by
  have same : s.furnish arguments decls = (s.furnish arguments decls).withStrict s.strict :=
    furnish_withStrict s s.strict arguments decls
  rw [same]
  rfl

theorem strict_enter (s : State) (kind : ScopeKind) (node : Node) :
    (s.enter kind node).strict = s.strict := by
  have same : s.enter kind node = (s.enter kind node).withStrict s.strict :=
    enter_withStrict s s.strict kind node
  rw [same]
  rfl

theorem leave_withStrict (s : State) (b : Bool) :
    (s.withStrict b).leave = s.leave.withStrict b := by
  obtain ⟨scopes, vars, references, openScopes, sight, strict, events⟩ := s
  cases openScopes <;> rfl

theorem passThrough_withStrict (s : State) (b : Bool) (name : Name) (r : ReferenceId)
    (ids : List ScopeId) :
    ids.foldl (passThrough name r) (s.withStrict b) =
      (ids.foldl (passThrough name r) s).withStrict b := by
  induction ids generalizing s with
  | nil => rfl
  | cons id rest ih => exact ih (passThrough name r s id)

theorem resolve_withStrict (s : State) (b : Bool) (name : Name) :
    (s.withStrict b).resolve name = ((s.resolve name).1, (s.resolve name).2.withStrict b) := by
  have same : (s.withStrict b).sight.get name = s.sight.get name := rfl
  simp only [resolve, same]
  split <;> rfl

theorem record_withStrict (s : State) (b : Bool) (id : Occurrence) (access : Access) :
    (s.withStrict b).record id access = (s.record id access).withStrict b := by
  simp only [record_eq, resolve_withStrict]
  exact passThrough_withStrict ((s.resolve id.name).2.attach id access (s.resolve id.name).1) b ..

mutual

theorem layOut_withStrict (s : State) (b : Bool) :
    ∀ l : Layout, (s.withStrict b).layOut l = (s.layOut l).withStrict b
  | .use id access => record_withStrict s b id access
  | .directEval => rfl
  | .withStatement => rfl
  | .scope kind node arguments decls inner => by
    simp only [layOut, openWith, enter_withStrict, furnish_withStrict]
    rw [layOutAll_withStrict, leave_withStrict]

theorem layOutAll_withStrict (s : State) (b : Bool) :
    ∀ ls : List Layout, (s.withStrict b).layOutAll ls = (s.layOutAll ls).withStrict b
  | [] => rfl
  | l :: rest => by
    simp only [layOutAll]
    rw [layOut_withStrict, layOutAll_withStrict]

end

theorem strict_layOutAll (s : State) (ls : List Layout) : (s.layOutAll ls).strict = s.strict := by
  have same : s.layOutAll ls = (s.layOutAll ls).withStrict s.strict :=
    layOutAll_withStrict s s.strict ls
  rw [same]
  rfl

end State

namespace State

/-! Laying out leaves the scopes open that were open before. -/

@[simp]
theorem openScopes_enter (s : State) (kind : ScopeKind) (node : Node) :
    (s.enter kind node).openScopes = ⟨s.scopes.size⟩ :: s.openScopes := by
  obtain ⟨scopes, vars, references, openScopes, sight, strict, events⟩ := s
  cases openScopes <;> rfl

@[simp]
theorem openScopes_leave (s : State) : s.leave.openScopes = s.openScopes.tail := by
  obtain ⟨scopes, vars, references, openScopes, sight, strict, events⟩ := s
  cases openScopes <;> rfl

@[simp]
theorem openScopes_bindArguments (s : State) (arguments : Name) :
    (s.bindArguments arguments).openScopes = s.openScopes := by
  unfold bindArguments
  split <;> rfl

@[simp]
theorem openScopes_declare (s : State) (d : Declaration) :
    (s.declare d).openScopes = s.openScopes := by
  simp only [declare]
  split <;> rfl

@[simp]
theorem openScopes_declareAll (s : State) (ds : List Declaration) :
    (s.declareAll ds).openScopes = s.openScopes := by
  induction ds generalizing s with
  | nil => rfl
  | cons d rest ih => exact (ih (s.declare d)).trans (openScopes_declare s d)

@[simp]
theorem openScopes_furnish (s : State) (arguments : Option Name) (decls : List Declaration) :
    (s.furnish arguments decls).openScopes = s.openScopes := by
  cases arguments <;> simp [furnish]

theorem opened_openWith {s : State} {kind : ScopeKind} {node : Node} {arguments : Option Name}
    {decls : List Declaration} :
    (s.openWith kind node arguments decls).openScopes ≠ [] := by
  simp [openWith]

@[simp]
theorem openScopes_resolve (s : State) (name : Name) :
    (s.resolve name).2.openScopes = s.openScopes := by
  unfold resolve
  split <;> rfl

theorem openScopes_passThrough (s : State) (name : Name) (r : ReferenceId) (ids : List ScopeId) :
    (ids.foldl (passThrough name r) s).openScopes = s.openScopes := by
  rw [foldl_passThrough_eq]

@[simp]
theorem openScopes_record (s : State) (id : Occurrence) (access : Access) :
    (s.record id access).openScopes = s.openScopes := by
  rw [record_eq, openScopes_passThrough]
  exact openScopes_resolve s id.name

mutual

@[simp]
theorem openScopes_layOut (s : State) : ∀ l : Layout, (s.layOut l).openScopes = s.openScopes
  | .use id access => openScopes_record s id access
  | .directEval => rfl
  | .withStatement => rfl
  | .scope kind node arguments decls inner => by
    simp only [layOut, openWith, openScopes_leave]
    rw [openScopes_layOutAll]
    simp

@[simp]
theorem openScopes_layOutAll (s : State) :
    ∀ ls : List Layout, (s.layOutAll ls).openScopes = s.openScopes
  | [] => rfl
  | l :: rest => by
    simp only [layOutAll]
    rw [openScopes_layOutAll, openScopes_layOut]

end

end State

end ScopeAnalysis.Resolution
