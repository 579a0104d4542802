import ScopeAnalysis.Proofs.Grammar.Constructs

/-!
# Functions, classes and modules

The scope that receives the `var` names of a script, module or function declares what its owner is
to declare. Around it a function may have a scope for its name and scopes for its parameters.
-/

namespace ScopeAnalysis

open Resolution

theorem strictIn_function (options : Options) (useStrict : Name)
    (directives : List (Directive Node Name)) (around : List Enclosure) :
    strictIn options useStrict (.function directives :: around) =
      (strictIn options useStrict around || directives.any (fun d => d.text = useStrict)) := by
  simp only [strictIn, List.any_cons, Enclosure.isStrict]
  cases options.alwaysStrict <;> cases around.any (Enclosure.isStrict useStrict) <;> simp

theorem strictIn_class (options : Options) (useStrict : Name) (around : List Enclosure) :
    strictIn options useStrict (.class_ :: around) = true := by
  simp [strictIn, Enclosure.isStrict]

/-- What a script, module or function owns of its items. -/
def Item.hoistedAll (allowed : Bool) (rivals : List Declaration) (top : Bool)
    (is : List (Item Node Name)) : Hoisted :=
  ⟨is.flatMap (fun i => Outline.declareAs .functionDeclaration (if top then i.functions else []) ++
      Outline.declareAs .var i.vars),
    promote allowed (is.flatMap (Item.nested top rivals))⟩

theorem Item.hoistedAll_cons (allowed : Bool) (rivals : List Declaration) (top : Bool)
    (i : Item Node Name) (is : List (Item Node Name)) :
    Item.hoistedAll allowed rivals top (i :: is) =
      (Item.hoistedAll allowed rivals top [i]).append (Item.hoistedAll allowed rivals top is) := by
  simp [Item.hoistedAll, Hoisted.append, promote_append]

theorem Item.hoistedAll_stmt (allowed : Bool) (rivals : List Declaration) (top : Bool)
    (s : Stmt Node Name) : Item.hoistedAll allowed rivals top [.stmt s] =
      s.hoisted allowed rivals top := by
  simp [Item.hoistedAll, Stmt.hoisted, Item.functions, Item.vars, Item.nested, Item.statement?]

theorem Item.hoistedAll_map_stmt (allowed : Bool) (rivals : List Declaration) (top : Bool)
    (ss : List (Stmt Node Name)) : Item.hoistedAll allowed rivals top (ss.map .stmt) =
      Stmt.hoistedAll allowed rivals top ss := by
  induction ss with
  | nil => cases allowed <;> rfl
  | cons s rest ih =>
    rw [List.map_cons, Item.hoistedAll_cons, Item.hoistedAll_stmt, ih, Stmt.hoistedAll]

theorem Item.lexicals_map_stmt (top : Bool) (ss : List (Stmt Node Name)) :
    (ss.map Item.stmt).flatMap (Item.lexicals top) = ss.flatMap (Stmt.lexicals top) := by
  rw [List.flatMap_map]
  rfl

/-- The items of an owner give its declarations in their order. -/
theorem Owner.hoistedAll_items (options : Options) (useStrict : Name) (o : Owner) :
    Item.hoistedAll (o.promotes options useStrict)
        (Outline.declareAs .parameter o.params ++ o.lexicals) true o.items =
      ⟨o.hoisted, Outline.declareAs .functionVarDeclaration (o.promoted options useStrict)⟩ := by
  simp only [Item.hoistedAll, Owner.hoisted, Owner.promoted, promote, Owner.nested]
  cases o.promotes options useStrict <;> rfl

/-! What a function owns. -/

theorem Owner.lexicals_ofFunction (around : List Enclosure) (kind : FunctionKind) (node : Node)
    (ps : Params Node Name) (b : Body Node Name) :
    (Owner.ofFunction around kind node ps b).lexicals =
      b.statements.flatMap (Stmt.lexicals true) :=
  Item.lexicals_map_stmt true b.statements

theorem Owner.promotes_ofFunction (options : Options) (useStrict : Name) (around : List Enclosure)
    (kind : FunctionKind) (node : Node) (ps : Params Node Name) (b : Body Node Name) :
    (Owner.ofFunction around kind node ps b).promotes options useStrict =
      (!strictIn options useStrict (.function b.directives :: around) && options.annexB) :=
  Bool.and_comm _ _

/-- Parameters that run no code are in the scope of the function. -/
theorem Owner.decls_ofFunction (options : Options) (useStrict : Name) (around : List Enclosure)
    (kind : FunctionKind) (node : Node) (ps : Params Node Name) (b : Body Node Name) :
    let owner := Owner.ofFunction around kind node ps b
    owner.decls options useStrict =
      (if !ps.evaluates then Outline.declareAs .parameter ps.names else []) ++ owner.lexicals ++
        owner.hoisted ++
          Outline.declareAs .functionVarDeclaration (owner.promoted options useStrict) := by
  simp only [Owner.decls, Owner.ofFunction]
  cases ps.evaluates <;> rfl

namespace Reading

variable (R : Reading) (strict : Bool)

/-- The outlines of the items of an owner. -/
abbrev Items (is : List (Item Node Name)) (os : List Outline) (pieces : List Piece) : Prop :=
  R.StandsAll strict (fun top => is.flatMap (Item.lexicals top))
    (fun allowed around top => Item.hoistedAll allowed around top is) os pieces

/-- The outlines of a parameter list, with a scope for each parameter that runs code. -/
structure Parameters (names : List Occurrence) (evaluates : Bool) (os : List ParamOutline)
    (pieces : List Piece) : Prop where
  bound : Answers R.sound (Walk.boundByAll os)
    (fun bound => bound.names = names ∧ bound.evaluates = evaluates)
  course : R.Completes (.ofParams R.setting strict os) pieces

variable {R strict} {o : Outline} {os : List Outline} {pieces pieces' : List Piece}
  {names names' : List Occurrence} {evaluates evaluates' : Bool} {ss : List (Stmt Node Name)}

theorem Statement.items (all : R.Statements strict ss os pieces) :
    R.Items strict (ss.map .stmt) os pieces where
  lexical top := (all.lexical top).imp (fun _ here placed => by
    rw [here placed, Item.lexicals_map_stmt])
  hoists allowed around top := (all.hoists allowed around top).imp (fun _ here placed => by
    rw [here placed, Item.hoistedAll_map_stmt])
  course := all.course

/-- The scopes of the parameters that run code. -/
def parameterScopes (nodes : List Node) : List Piece :=
  nodes.map (fun node => .scope (.parameterExpression node))

theorem parameterScopes_append (nodes others : List Node) :
    parameterScopes (nodes ++ others) = parameterScopes nodes ++ parameterScopes others :=
  List.map_append

theorem evaluatedNodes_some (list : Option Node) (items : List (BindingElement Node Name))
    (b : Binding Node Name) : Params.evaluatedNodes (.mk list items (some b)) =
      (items.filter BindingElement.evaluates).map Folding.elementNode ++
        if b.evaluates then [Folding.bindingNode b] else [] := by
  cases evaluates : b.evaluates <;> simp [Params.evaluatedNodes, evaluates]

theorem elementNodes_cons (e : BindingElement Node Name) (rest : List (BindingElement Node Name)) :
    ((e :: rest).filter BindingElement.evaluates).map Folding.elementNode =
      (if e.evaluates then [Folding.elementNode e] else []) ++
        (rest.filter BindingElement.evaluates).map Folding.elementNode := by
  cases evaluates : e.evaluates <;> simp [evaluates]

namespace Parameters

theorem nil : R.Parameters strict [] false [] [] := ⟨⟨rfl, rfl⟩, .done⟩

theorem singleton (node : Node) (binds : R.Binds strict o names evaluates pieces) :
    R.Parameters strict names evaluates [.mk node o]
      (parameterScopes (if evaluates then [node] else []) ++ pieces) where
  bound := by
    rw [Walk.boundByAll, Walk.boundByAll]
    refine binds.bound.bind (fun bound here => ?_)
    exact ⟨(List.append_nil bound.names).trans here.1, (Bool.or_false _).trans here.2⟩
  course := by
    rw [Course.ofParams, Course.ofParams]
    refine Completes.asking binds.bound (fun bound here => ?_)
    rw [Course.andThen_done, here.2]
    split
    · exact .scope rfl (fun _ => rfl) binds.course
    · exact binds.course

theorem boundByAll_append (ps qs : List ParamOutline) :
    Walk.boundByAll (ps ++ qs) = (do
      let first ← Walk.boundByAll ps
      let second ← Walk.boundByAll qs
      .ok (first.append second)) := by
  induction ps with
  | nil =>
    simp only [List.nil_append, Walk.boundByAll]
    cases Walk.boundByAll qs <;> rfl
  | cons p rest ih =>
    obtain ⟨node, b⟩ := p
    simp only [List.cons_append, Walk.boundByAll, ih]
    cases b.boundNames with
    | error refusal => rfl
    | ok first =>
      cases Walk.boundByAll rest with
      | error refusal => rfl
      | ok second =>
        cases Walk.boundByAll qs with
        | error refusal => rfl
        | ok third =>
          change Except.ok (first.append (second.append third)) =
            Except.ok ((first.append second).append third)
          simp [Bound.append, Bool.or_assoc]

theorem ofParams_append (setting : Walk.Setting) (ps qs : List ParamOutline) :
    Course.ofParams setting strict (ps ++ qs) =
      (Course.ofParams setting strict ps).andThen (Course.ofParams setting strict qs) := by
  induction ps with
  | nil => rfl
  | cons p rest ih =>
    obtain ⟨node, b⟩ := p
    rw [List.cons_append, Course.ofParams, Course.ofParams, ih]
    cases b.boundNames with
    | error refusal => rfl
    | ok bound => exact (Course.andThen_assoc _ _ _).symm

/-- Parameters side by side, their scopes in front. -/
theorem append {ps qs : List ParamOutline} {scopes scopes' : List Piece}
    (first : R.Parameters strict names evaluates ps (scopes ++ pieces))
    (second : R.Parameters strict names' evaluates' qs (scopes' ++ pieces')) :
    R.Parameters strict (names ++ names') (evaluates || evaluates') (ps ++ qs)
      (scopes ++ scopes' ++ (pieces ++ pieces')) where
  bound := by
    rw [boundByAll_append]
    refine first.bound.bind (fun some here => second.bound.bind (fun more further => ?_))
    exact ⟨congrArg₂ (· ++ ·) here.1 further.1, congrArg₂ (· || ·) here.2 further.2⟩
  course := by
    have both := first.course.andThen second.course
    rw [ofParams_append]
    refine both.perm (Multiset.coe_eq_coe.1 ?_)
    simp only [← Multiset.coe_add]
    abel

end Parameters

/-- An owner gets the functions at its top, its `var` names and its promoted functions. -/
theorem answers_hoistedAll {owner : Owner} {params decls : List Declaration} {allowed : Bool}
    (all : R.Items strict owner.items os pieces)
    (rivals : params = Outline.declareAs .parameter owner.params)
    (same : R.placed → decls = owner.lexicals)
    (allows : allowed = owner.promotes R.setting.options R.useStrict) :
    Answers R.sound (Outline.hoistedAll allowed (params ++ decls) true os) (fun h => R.placed →
      h = ⟨owner.hoisted, Outline.declareAs .functionVarDeclaration
        (owner.promoted R.setting.options R.useStrict)⟩) := by
  refine (all.hoists allowed (params ++ decls) true).imp (fun h here placed => ?_)
  rw [here placed, rivals, same placed, allows, Owner.hoistedAll_items]

variable (R)

/-- The outline of the body of a function: walking it opens the scope of the function. -/
structure Bodied (around : List Enclosure) (b : Body Node Name) (o : BodyOutline)
    (pieces : List Piece) : Prop where
  isStrict : o.isStrict = b.directives.any (fun d => d.text = R.useStrict)
  course : ∀ kind node (ps : Params Node Name),
    R.Completes (.ofBody R.setting
        (strictIn R.setting.options R.useStrict (.function b.directives :: around)) kind node
        (Outline.declareAs .parameter ps.names) (!ps.evaluates) o)
      (.function around kind node ps b :: pieces)

variable {R}

theorem named_argumentsOf {kind : FunctionKind} {name : Name}
    (member : name ∈ Course.argumentsOf R.setting kind) : name = R.setting.arguments := by
  unfold Course.argumentsOf at member
  split at member
  · exact (Option.mem_some.1 member).symm
  · cases member

/-- The implicit `arguments` of a function are in its own scope unless its parameters run code. -/
theorem named_argumentsIf {kind : FunctionKind} {here : Bool} {name : Name}
    (member : name ∈ if here then Course.argumentsOf R.setting kind else none) :
    name = R.setting.arguments := by
  split at member
  · exact named_argumentsOf member
  · cases member

theorem shape_ofFunction_block (around : List Enclosure) (kind : FunctionKind) (opener node : Node)
    (ps : Params Node Name) (directives : List (Directive Node Name)) (ss : List (Stmt Node Name)) :
    ((Owner.ofFunction around kind opener ps (.block node directives ss)).opening R.setting.options
      R.useStrict).shape = (kind.scopeKind, opener,
        (if !ps.evaluates then Course.argumentsOf R.setting kind else none).isSome) := by
  simp only [Opening.shape, Owner.opening, Owner.ofFunction, Owner.scopeKind, Body.isConcise,
    Course.argumentsOf]
  cases ps.evaluates <;> cases kind.hasArguments <;> rfl

namespace Bodied

theorem concise {around : List Enclosure} {value : Expr Node Name}
    (outline : R.Value (strictIn R.setting.options R.useStrict (.function [] :: around)) o pieces) :
    R.Bodied around (.concise value) (.concise o) pieces where
  isStrict := rfl
  course kind node ps := by
    rw [Course.ofBody]
    refine Completes.inScope rfl ?_ nofun (fun _ => ?_) rfl outline.course
    · simp [Opening.shape, Owner.opening, Owner.ofFunction, Owner.scopeKind, Body.isConcise]
    · simp only [Owner.opening, Owner.decls, Owner.ofFunction]
      cases ps.evaluates <;> simp [Owner.lexicals, Owner.hoisted, Owner.promoted, Owner.nested,
        Body.statements, Outline.declareAs]

theorem block {around : List Enclosure} {node : Node} {directives : List (Directive Node Name)}
    {decls : List Declaration}
    (all : R.Statements (strictIn R.setting.options R.useStrict (.function directives :: around)) ss
      os pieces)
    (same : R.placed → decls = ss.flatMap (Stmt.lexicals true)) :
    R.Bodied around (.block node directives ss)
      (.block (directives.any (fun d => d.text = R.useStrict)) decls os) pieces where
  isStrict := rfl
  course kind opener ps := by
    let owner := Owner.ofFunction around kind opener ps (.block node directives ss)
    have items : R.Items (strictIn R.setting.options R.useStrict (.function directives :: around))
        owner.items os pieces := Statement.items all
    have lexicals : owner.lexicals = ss.flatMap (Stmt.lexicals true) :=
      Owner.lexicals_ofFunction ..
    have rivals : Outline.declareAs .parameter ps.names =
        Outline.declareAs .parameter owner.params := rfl
    have hoisted := answers_hoistedAll items rivals
      (fun placed => (same placed).trans lexicals.symm) (Owner.promotes_ofFunction ..).symm
    rw [Body.directives] at hoisted
    rw [Course.ofBody, Body.directives]
    split
    next refusal refused =>
      rw [refused] at hoisted
      exact hoisted
    next h answered =>
      rw [answered] at hoisted
      refine Completes.inScope rfl (shape_ofFunction_block ..) (fun _ => named_argumentsIf)
        (fun placed => ?_) rfl items.course
      rw [hoisted placed, same placed, ← lexicals]
      exact Owner.decls_ofFunction ..

end Bodied

section Functions

variable {around : List Enclosure} {kind : FunctionKind} {node : Node} {name : Option Occurrence}
  {ps : Params Node Name} {b : Body Node Name} {params : List ParamOutline} {bo : BodyOutline}
  {inner bodyPieces : List Piece}

theorem completes_aroundNamed {c : Course} (completes : R.Completes c pieces) :
    R.Completes (.aroundNamed kind node name c) (Piece.ofName kind node name ++ pieces) := by
  cases name with
  | none => cases kind <;> exact completes
  | some id =>
    cases kind with
    | expression => exact .scope rfl (fun _ => rfl) completes
    | _ => exact completes

/-- A function opens a scope for its name if it is an expression, scopes for its parameters if they
run code, and its own. -/
theorem completes_function
    (parameters : R.Parameters
      (strictIn R.setting.options R.useStrict (.function b.directives :: around)) ps.names
      ps.evaluates params (parameterScopes ps.evaluatedNodes ++ inner))
    (bodied : R.Bodied around b bo bodyPieces) (bare : ps.evaluates = false → inner = []) :
    R.Completes (.ofOutline R.setting (strictIn R.setting.options R.useStrict around)
        (.function kind node name params bo))
      (Piece.ofName kind node name ++ (Piece.ofParams kind node ps ++
        (inner ++ .function around kind node ps b :: bodyPieces))) := by
  have strict : (strictIn R.setting.options R.useStrict around || bo.isStrict) =
      strictIn R.setting.options R.useStrict (.function b.directives :: around) := by
    rw [strictIn_function, bodied.isStrict]
  have body := bodied.course kind node ps
  rw [Course.ofOutline, strict]
  refine completes_aroundNamed (Completes.asking parameters.bound (fun bound here => ?_))
  rw [here.1, here.2, Piece.ofParams]
  cases evaluates : ps.evaluates with
  | true =>
    have both := parameters.course.andThen body
    rw [List.append_assoc, evaluates] at both
    refine Completes.inScope rfl ?_ (fun name => named_argumentsOf) (fun _ => rfl) rfl both
    simp only [InnerScope.opening, Opening.shape, Course.argumentsOf]
    cases kind.hasArguments <;> rfl
  | false =>
    rw [evaluates] at body
    rw [bare evaluates]
    exact body

/-- A function that is not declared is a value. -/
theorem value_function (other : kind ≠ .declaration)
    (course :
      R.Completes (.ofOutline R.setting strict (.function kind node name params bo)) pieces) :
    R.Value strict (.function kind node name params bo) pieces where
  silent := by
    refine ⟨rfl, fun top => ?_, fun allowed around top => ?_, nofun⟩
    · rw [Outline.lexicalDeclarations, if_neg (fun both => other both.1)]
      rfl
    · cases kind <;> first | exact absurd rfl other | rfl
  unwritten := fun _ => rfl
  course := course

theorem statement_function {flags : FunctionFlags}
    (course : R.Completes (.ofOutline R.setting strict (.function .declaration node name params bo))
      pieces) :
    R.Statement strict (.function (.mk node name flags ps b))
      (.function .declaration node name params bo) pieces where
  lexical top := by
    rw [Outline.lexicalDeclarations]
    cases top <;> exact fun _ => rfl
  hoists allowed around top := by
    cases name with
    | none => cases top <;> cases allowed <;> exact fun _ => rfl
    | some id =>
      cases top with
      | true => cases allowed <;> exact fun _ => rfl
      | false =>
        change Answers R.sound (.ok (⟨[], Outline.twin allowed around id⟩ : Hoisted)) _
        intro _
        rw [twin_eq_promote]
        rfl
  course := course

end Functions

section Classes

variable {node : Node} {name : Option Occurrence} {heritage : Outline} {elements : List Outline}

theorem completes_class (parent : R.Value true heritage pieces)
    (members : R.Completes (.ofAll R.setting true elements) pieces') (isDeclaration : Bool) :
    R.Completes (.ofOutline R.setting strict (.class_ node isDeclaration name heritage elements))
      (.scope (.className node name) ::
        (pieces ++ pieces')) := by
  rw [Course.ofOutline]
  exact .scope rfl (fun _ => rfl) (parent.course.andThen members)

theorem value_class
    (course : R.Completes (.ofOutline R.setting strict (.class_ node false name heritage elements))
      pieces) : R.Value strict (.class_ node false name heritage elements) pieces :=
  ⟨⟨rfl, fun _ => rfl, fun _ _ _ => rfl, nofun⟩, fun _ => rfl, course⟩

theorem statement_class {parent : Option (Expr Node Name)} {ms : List (Member Node Name)}
    (course : R.Completes (.ofOutline R.setting strict (.class_ node true name heritage elements))
      pieces) :
    R.Statement strict (.class_ (.mk node name parent ms))
      (.class_ node true name heritage elements) pieces where
  lexical _ _ := rfl
  hoists allowed _ top _ := by
    cases allowed <;> cases top <;> rfl
  course := course

end Classes

end Reading

end ScopeAnalysis
