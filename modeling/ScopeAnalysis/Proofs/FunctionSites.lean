import ScopeAnalysis.Proofs.DynamicScopes
import ScopeAnalysis.Proofs.Grammar.Functions
import ScopeAnalysis.Proofs.TreeOfLayout

/-!
# Where functions are in a tree

Every function of an outline has its scopes in a tree that was built from the outline: its own, and
if a parameter runs code one for all parameters, with one for each that does and the scope of the
function as its children. No other scope has one of these kinds.
-/

namespace ScopeAnalysis

open Resolution

/-- Whether scopes of this kind are those of a function or of its parameters. -/
def ScopeKind.isOfFunction : ScopeKind → Bool
  | .function | .arrowFunction | .parameters | .parameterExpression => true
  | _ => false

theorem FunctionKind.isOfFunction_scopeKind (kind : FunctionKind) :
    kind.scopeKind.isOfFunction = true := by
  cases kind <;> rfl

def Scope.isOfFunction (scope : Scope) : Bool := scope.kind.isOfFunction

/-- The scopes of a function: that of all its parameters, if there is one, those of the parameters
that run code, and its own. -/
structure FunctionSite where
  params : Option Scope
  apart : List Scope
  own : Scope

def FunctionSite.scopes (site : FunctionSite) : List Scope :=
  site.params.toList ++ (site.apart ++ [site.own])

theorem FunctionSite.mem_scopes {site : FunctionSite} {scope : Scope} : scope ∈ site.scopes ↔
    scope ∈ site.params ∨ scope ∈ site.apart ∨ scope = site.own := by
  simp [scopes]

/-- What a body gives the scope of its function to declare. -/
def BodyOutline.Owns : BodyOutline → List Declaration → Prop
  | .concise _, others => others = []
  | .block _ decls statements, others => ∃ allowed around owned,
    Outline.hoistedAll allowed around true statements = .ok owned ∧
      others = decls ++ owned.vars ++ owned.twins

theorem BodyOutline.DeclaresOnly.isFrom {ids : List Occurrence} {body : BodyOutline}
    {others : List Declaration} (declares : body.DeclaresOnly ids) (owns : body.Owns others) :
    ∀ d ∈ others, d.IsFrom ids := by
  cases body with
  | concise value =>
    cases owns
    exact nofun
  | block strict decls statements =>
    obtain ⟨lexical, all⟩ := declares
    obtain ⟨allowed, around, owned, answered, rfl⟩ := owns
    rw [List.append_assoc]
    exact List.forall_mem_append.2 ⟨lexical, all.hoists allowed around true owned answered⟩

namespace ScopeTree

variable (arguments : Name) (tree : ScopeTree)

/-- The scope of a parameter that runs code. It declares nothing. -/
structure IsApart (outer : Option ScopeId) (node : Node) (scope : Scope) : Prop where
  found : tree.scopeAt? scope.id = some scope
  filled : Opening.IsFilled arguments ⟨.parameterExpression, node, false, []⟩ tree scope
  parent : scope.parent = outer

/-- The scope of a function, with what it declares besides the given parameters. -/
structure IsBody (kind : FunctionKind) (node : Node) (body : BodyOutline)
    (params : List Declaration) (holdsParams : Bool) (outer : Option ScopeId) (scope : Scope) :
    Prop where
  found : tree.scopeAt? scope.id = some scope
  filled : ∃ others, body.Owns others ∧
    Opening.IsFilled arguments ⟨kind.scopeKind, node,
      holdsParams && kind.hasArguments && !body.isConcise,
      (if holdsParams then params else []) ++ others⟩ tree scope
  parent : scope.parent = outer

/-- The scopes of a function. -/
inductive Houses (o : FunctionOutline) : FunctionSite → Prop
  | together {bound : Bound} {outer : Option ScopeId} {own : Scope}
      (bounds : Walk.boundByAll o.params = .ok bound) (still : bound.evaluates = false)
      (body : tree.IsBody arguments o.kind o.node o.body
        (Outline.declareAs .parameter bound.names) true outer own) :
      Houses o ⟨none, [], own⟩
  | apart {bound : Bound} {params own : Scope} {apart : List Scope}
      (bounds : Walk.boundByAll o.params = .ok bound) (runs : bound.evaluates = true)
      (found : tree.scopeAt? params.id = some params)
      (filled : Opening.IsFilled arguments ⟨.parameters, o.node, o.kind.hasArguments,
        Outline.declareAs .parameter bound.names⟩ tree params)
      (expressions : List.Forall₂ (tree.IsApart arguments (some params.id))
        ((o.params.filter ParamOutline.runsCode).map ParamOutline.node) apart)
      (children : params.children = apart.map Scope.id ++ [own.id])
      (body : tree.IsBody arguments o.kind o.node o.body
        (Outline.declareAs .parameter bound.names) false (some params.id) own) :
      Houses o ⟨some params, apart, own⟩

/-- Those among some scopes that are of a function are the scopes of the given functions. -/
def HousesAll (fs : List FunctionOutline) (scopes : List Scope) : Prop :=
  ∃ sites, List.Forall₂ (tree.Houses arguments) fs sites ∧
    (sites.flatMap FunctionSite.scopes).Perm
      (scopes.filter Scope.isOfFunction)

variable {arguments tree} {fs gs : List FunctionOutline} {scopes others : List Scope}

theorem HousesAll.append (first : tree.HousesAll arguments fs scopes)
    (second : tree.HousesAll arguments gs others) :
    tree.HousesAll arguments (fs ++ gs) (scopes ++ others) := by
  obtain ⟨sites, each, all⟩ := first
  obtain ⟨sites', each', all'⟩ := second
  refine ⟨sites ++ sites', List.rel_append each each', ?_⟩
  rw [List.flatMap_append, List.filter_append]
  exact all.append all'

theorem HousesAll.nil : tree.HousesAll arguments [] [] := ⟨[], .nil, .refl _⟩

/-- A scope that is not of a function adds nothing. -/
theorem HousesAll.cons (houses : tree.HousesAll arguments fs scopes) {scope : Scope}
    (other : scope.isOfFunction = false) : tree.HousesAll arguments fs (scope :: scopes) := by
  obtain ⟨sites, each, all⟩ := houses
  refine ⟨sites, each, ?_⟩
  rwa [List.filter_cons_of_neg (by simp [other])]

end ScopeTree

namespace Resolution.Course

section

variable (arguments : Name) (tree : ScopeTree)

/-- If a completed course was laid out in a tree, its functions have their scopes there. -/
def Houses (fs : List FunctionOutline) (c : Course) : Prop :=
  (∀ f ∈ fs, ∀ q ∈ f.params, q.IsStill) → c.outcome = .ok () → ∀ outer ids scopes,
    tree.Follows arguments outer c.parts ids scopes → tree.HousesAll arguments fs scopes

/-- The same of the parameters of a function, which have scopes of their own if they run code. -/
def HousesParams (nodes : List Node) (fs : List FunctionOutline) (c : Course) : Prop :=
  (∀ f ∈ fs, ∀ q ∈ f.params, q.IsStill) → c.outcome = .ok () → ∀ outer ids scopes,
    tree.Follows arguments outer c.parts ids scopes →
      ∃ apart sites, List.Forall₂ (tree.IsApart arguments outer) nodes apart ∧
        List.Forall₂ (tree.Houses arguments) fs sites ∧ ids = apart.map Scope.id ∧
        (apart ++ sites.flatMap FunctionSite.scopes).Perm
          (scopes.filter Scope.isOfFunction)

/-- The same of the body of a function, with the scope of the function around it. -/
def HousesBody (kind : FunctionKind) (node : Node) (body : BodyOutline) (params : List Declaration)
    (holdsParams : Bool) (fs : List FunctionOutline) (c : Course) : Prop :=
  (∀ f ∈ fs, ∀ q ∈ f.params, q.IsStill) → c.outcome = .ok () → ∀ outer ids scopes,
    tree.Follows arguments outer c.parts ids scopes →
      ∃ own sites, tree.IsBody arguments kind node body params holdsParams outer own ∧
        List.Forall₂ (tree.Houses arguments) fs sites ∧ ids = [own.id] ∧
        (own :: sites.flatMap FunctionSite.scopes).Perm
          (scopes.filter Scope.isOfFunction)

end

namespace Houses

variable {arguments : Name} {tree : ScopeTree} {c c' : Course} {fs gs : List FunctionOutline}

/-- A course without scopes. -/
theorem bare (none : Layout.openingsAll c.parts = []) : c.Houses arguments tree [] := by
  intro _ _ outer ids scopes follows
  obtain ⟨_, rfl⟩ := follows.eq_nil none
  exact .nil

theorem done : Course.done.Houses arguments tree [] := bare rfl

theorem use (id : Occurrence) (access : Access) :
    (Course.use id access).Houses arguments tree [] := bare rfl

theorem useAll (access : Access) (ids : List Occurrence) :
    (Course.useAll access ids).Houses arguments tree [] :=
  bare (Layout.openingsAll_uses access ids)

theorem andThen (first : c.Houses arguments tree fs) (second : c'.Houses arguments tree gs) :
    (c.andThen c').Houses arguments tree (fs ++ gs) := by
  obtain ⟨parts, outcome⟩ := c
  cases outcome with
  | error refusal => intro _ completed; cases completed
  | ok _ =>
    intro still completed outer ids scopes follows
    obtain ⟨here, there⟩ := List.forall_mem_append.1 still
    obtain ⟨ids₁, ids₂, scopes₁, scopes₂, rfl, rfl, followsFirst, followsSecond⟩ :=
      follows.exists_of_append
    exact (first here rfl outer ids₁ scopes₁ followsFirst).append
      (second there completed outer ids₂ scopes₂ followsSecond)

theorem asking {α : Type} {answer : Answer α} {next : α → Course}
    (all : ∀ a, answer = .ok a → (next a).Houses arguments tree fs) :
    (Course.asking answer next).Houses arguments tree fs := by
  cases answer with
  | error refusal => intro _ completed; cases completed
  | ok a => exact all a rfl

theorem inScope {kind : ScopeKind} {node : Node} {own : Option Name} {decls : List Declaration}
    (inner : c.Houses arguments tree fs) (other : kind.isOfFunction = false) :
    (Course.inScope kind node own decls c).Houses arguments tree fs := by
  intro still completed outer ids scopes follows
  obtain ⟨scope, below, _, rfl, _, filled, _, inside⟩ := follows.exists_of_singleton
  refine (inner still completed _ _ below inside).cons ?_
  rw [Scope.isOfFunction, filled.kind]
  exact other

theorem writes (compound : Bool) (t : Outline) :
    (Course.writes compound t).Houses arguments tree [] := by
  unfold Course.writes
  split
  · exact .use _ _
  · exact .asking (fun ids _ => .useAll .write ids)

theorem headWrites (t : Outline) : (Course.headWrites t).Houses arguments tree [] := by
  unfold Course.headWrites
  split <;> exact .asking (fun ids _ => .useAll .write ids)

theorem aroundLone (inner : c.Houses arguments tree fs) (alone : Option LoneFunction) :
    (Course.aroundLone alone c).Houses arguments tree fs := by
  cases alone with
  | none => exact inner
  | some f => exact inner.inScope rfl

theorem aroundNamed (inner : c.Houses arguments tree fs) (kind : FunctionKind) (node : Node)
    (name : Option Occurrence) :
    (Course.aroundNamed kind node name c).Houses arguments tree fs := by
  unfold Course.aroundNamed
  split
  · exact inner.inScope rfl
  · exact inner

end Houses

variable {tree : ScopeTree} (setting : Walk.Setting)

section

variable {arguments : Name} {kind : FunctionKind} {node : Node} {params : List ParamOutline}
  {body : BodyOutline} {bound : Bound} {c c' : Course} {fs gs : List FunctionOutline}

/-- A scope with the body inside. -/
theorem HousesBody.inScope {own : Option Name} {decls declared : List Declaration}
    {holdsParams : Bool} (inner : c.Houses arguments tree fs)
    (named : own.isSome = (holdsParams && kind.hasArguments && !body.isConcise))
    (declares : ∃ others, body.Owns others ∧
      decls = (if holdsParams then declared else []) ++ others) :
    (Course.inScope kind.scopeKind node own decls c).HousesBody arguments tree kind node body
      declared holdsParams fs := by
  intro still completed outer ids scopes follows
  obtain ⟨scope, below, rfl, rfl, found, filled, parent, inside⟩ := follows.exists_of_singleton
  obtain ⟨sites, each, all⟩ := inner still completed _ _ below inside
  obtain ⟨others, owns, rfl⟩ := declares
  have ofFunction : scope.isOfFunction = true := by
    rw [Scope.isOfFunction, filled.kind]
    exact kind.isOfFunction_scopeKind
  rw [named] at filled
  refine ⟨scope, sites, ⟨found, ⟨others, owns, filled⟩, parent⟩, each, rfl, ?_⟩
  rw [List.filter_cons_of_pos ofFunction]
  exact all.cons scope

/-- A parameter that runs code has a scope, and any other one opens none. -/
theorem HousesParams.cons {nodes : List Node} (parameter : c.Houses arguments tree fs)
    (still : bound.evaluates = false → c.outcome = .ok () → Layout.openingsAll c.parts = [])
    (rest : c'.HousesParams arguments tree nodes gs) :
    ((if bound.evaluates then Course.inScope .parameterExpression node none [] c else c).andThen
        c').HousesParams arguments tree ((if bound.evaluates then [node] else []) ++ nodes)
      (fs ++ gs) := by
  obtain ⟨parts, outcome⟩ := c
  cases outcome with
  | error refusal =>
    intro _ completed
    cases evaluates : bound.evaluates <;> rw [evaluates] at completed <;> cases completed
  | ok _ =>
    intro quiet completed outer ids scopes follows
    obtain ⟨here, there⟩ := List.forall_mem_append.1 quiet
    cases evaluates : bound.evaluates with
    | true =>
      rw [evaluates] at completed follows
      obtain ⟨ids₁, ids₂, scopes₁, scopes₂, rfl, rfl, first, second⟩ := follows.exists_of_append
      obtain ⟨apart, sites, expressions, each, rfl, all⟩ := rest there completed outer _ _ second
      obtain ⟨scope, below, rfl, rfl, found, filled, parent, inside⟩ := first.exists_of_singleton
      obtain ⟨sites', each', all'⟩ := parameter here rfl _ _ below inside
      refine ⟨scope :: apart, sites' ++ sites, .cons ⟨found, filled, parent⟩ expressions,
        List.rel_append each' each, rfl, ?_⟩
      have ofFunction : scope.isOfFunction = true := by
        rw [Scope.isOfFunction, filled.kind]
        rfl
      rw [List.flatMap_append, List.cons_append, List.cons_append,
        List.filter_cons_of_pos ofFunction, List.filter_append]
      refine List.Perm.cons scope (.trans ?_ (all'.append all))
      rw [← List.append_assoc, ← List.append_assoc]
      exact List.perm_append_comm.append_right _
    | false =>
      rw [evaluates] at completed follows
      obtain ⟨ids₁, ids₂, scopes₁, scopes₂, rfl, rfl, first, second⟩ := follows.exists_of_append
      obtain ⟨apart, sites, expressions, each, rfl, all⟩ := rest there completed outer _ _ second
      obtain ⟨sites', each', all'⟩ := parameter here rfl _ _ _ first
      obtain ⟨rfl, rfl⟩ := first.eq_nil (still evaluates rfl)
      have none : sites'.flatMap FunctionSite.scopes = [] := all'.eq_nil
      refine ⟨apart, sites' ++ sites, expressions, List.rel_append each' each, rfl, ?_⟩
      rw [List.flatMap_append, none]
      exact all

/-- A function whose parameters are in its own scope. -/
theorem Houses.together (bounds : Walk.boundByAll params = .ok bound)
    (still : bound.evaluates = false)
    (inside : c.HousesBody arguments tree kind node body
      (Outline.declareAs .parameter bound.names) true fs) :
    c.Houses arguments tree (⟨kind, node, params, body⟩ :: fs) := by
  intro quiet completed outer ids scopes follows
  obtain ⟨own, sites, isBody, each, _, all⟩ :=
    inside (List.forall_mem_cons.1 quiet).2 completed outer ids scopes follows
  exact ⟨⟨none, [], own⟩ :: sites, .cons (.together bounds still isBody) each, all⟩

/-- A function with a scope for all its parameters. -/
theorem Houses.apart (bounds : Walk.boundByAll params = .ok bound) (runs : bound.evaluates = true)
    (first : c.HousesParams arguments tree
      ((params.filter ParamOutline.runsCode).map ParamOutline.node) fs)
    (second : c'.HousesBody arguments tree kind node body
      (Outline.declareAs .parameter bound.names) false gs)
    {own : Option Name} (named : own.isSome = kind.hasArguments) :
    (Course.inScope .parameters node own (Outline.declareAs .parameter bound.names)
      (c.andThen c')).Houses arguments tree (fs ++ ⟨kind, node, params, body⟩ :: gs) := by
  obtain ⟨parts, outcome⟩ := c
  cases outcome with
  | error refusal => intro _ completed; cases completed
  | ok _ =>
    intro quiet completed outer ids scopes follows
    obtain ⟨here, there⟩ := List.forall_mem_append.1 quiet
    obtain ⟨scope, below, rfl, rfl, found, filled, parent, inside⟩ := follows.exists_of_singleton
    obtain ⟨ids₁, ids₂, scopes₁, scopes₂, children, rfl, followsFirst, followsSecond⟩ :=
      inside.exists_of_append
    obtain ⟨apart, sites, expressions, each, rfl, all⟩ := first here rfl _ _ _ followsFirst
    obtain ⟨function, sites', isBody, each', rfl, all'⟩ :=
      second (List.forall_mem_cons.1 there).2 completed _ _ _ followsSecond
    rw [named] at filled
    refine ⟨sites ++ ⟨some scope, apart, function⟩ :: sites', List.rel_append each
      (.cons (.apart bounds runs found filled expressions children isBody) each'), ?_⟩
    have ofFunction : scope.isOfFunction = true := by
      rw [Scope.isOfFunction, filled.kind]
      rfl
    rw [List.filter_cons_of_pos ofFunction, List.filter_append]
    refine .trans ?_ ((all.append all').cons scope)
    simp only [List.flatMap_append, List.flatMap_cons, FunctionSite.scopes, Option.toList_some,
      List.cons_append, List.nil_append, List.append_assoc]
    refine List.perm_middle.trans (List.Perm.cons scope ?_)
    rw [← List.append_assoc, ← List.append_assoc]
    exact List.perm_append_comm.append_right _

end

mutual

/-- The functions of an outline have their scopes wherever it is laid out. -/
theorem houses_ofOutline (strict : Bool) : ∀ o : Outline,
    (ofOutline setting strict o).Houses setting.arguments tree o.functions
  | .nothing | .binding _ | .target _ | .imports _ => .done
  | .read id => .use id .read
  | .delete id => .use id .delete
  | .update id => .use id .readWrite
  | .evaluated inner => houses_ofOutline strict inner
  | .union parts => houses_ofAll strict parts
  | .directEval call =>
    have marked : Houses setting.arguments tree [] ⟨[.directEval], .ok ()⟩ := .bare rfl
    marked.andThen (houses_ofOutline strict call)
  | .assign compound t value =>
    (Houses.writes compound t).andThen
      ((houses_ofOutline strict t).andThen (houses_ofOutline strict value))
  | .decl _ declarators => houses_ofDeclarators strict declarators
  | .block _ _ statements => (houses_ofAll strict statements).inScope rfl
  | .ifElse test yesAlone yes noAlone no =>
    (houses_ofOutline strict test).andThen
      (((houses_ofOutline strict yes).aroundLone yesAlone).andThen
        ((houses_ofOutline strict no).aroundLone noAlone))
  | .forLoop _ _ init test update body =>
    ((houses_ofOutline strict init).andThen ((houses_ofOutline strict test).andThen
      ((houses_ofOutline strict update).andThen (houses_ofOutline strict body)))).inScope rfl
  | .forEach _ _ head collection body =>
    ((Houses.headWrites head).andThen ((houses_ofOutline strict head).andThen
      ((houses_ofOutline strict collection).andThen
        (houses_ofOutline strict body)))).inScope rfl
  | .switch _ _ discriminant cases =>
    (houses_ofOutline strict discriminant).andThen ((houses_ofCases strict cases).inScope rfl)
  | .handler node _ b block decls statements => by
    rw [ofOutline]
    split
    next => intro _ completed; cases completed
    next bound _ =>
      exact ((houses_ofOutline strict b).andThen
        ((houses_ofAll strict statements).inScope rfl)).inScope rfl
  | .withObject node object body => by
    have marked : Houses setting.arguments tree [] ⟨[.withStatement], .ok ()⟩ := .bare rfl
    exact (houses_ofOutline strict object).andThen
      ((marked.andThen (houses_ofOutline strict body)).inScope rfl)
  | .class_ _ _ _ heritage elements =>
    ((houses_ofOutline true heritage).andThen (houses_ofAll true elements)).inScope rfl
  | .function kind node name params body => by
    refine Houses.aroundNamed (.asking (fun bound bounds => ?_)) kind node name
    have runs := evaluates_of_boundByAll bounds
    rw [Outline.functions, ← runs]
    split
    next evaluates =>
      intro quiet
      have still : ∀ q ∈ params, q.IsStill :=
        quiet ⟨kind, node, params, body⟩ (by simp)
      refine Houses.apart bounds evaluates (houses_ofParams _ params still)
        (houses_ofBody _ kind node _ false body) ?_ quiet
      rw [argumentsOf]
      cases kind.hasArguments <;> rfl
    next still =>
      exact .together bounds (Bool.not_eq_true _ ▸ still) (houses_ofBody _ kind node _ true body)

theorem houses_ofAll (strict : Bool) : ∀ os : List Outline,
    (ofAll setting strict os).Houses setting.arguments tree (Outline.functionsAll os)
  | [] => .done
  | o :: rest => (houses_ofOutline strict o).andThen (houses_ofAll strict rest)

theorem houses_ofDeclarators (strict : Bool) : ∀ ds : List DeclaratorOutline,
    (ofDeclarators setting strict ds).Houses setting.arguments tree
      (Outline.functionsDeclarators ds)
  | [] => .done
  | .mk b hasInit init :: rest => by
    rw [ofDeclarators, Outline.functionsDeclarators, List.append_assoc]
    have initial : Houses setting.arguments tree []
        (if hasInit then asking b.boundNames (fun bound => useAll .write bound.names)
          else done) := by
      split
      · exact .asking (fun bound _ => .useAll .write bound.names)
      · exact .done
    exact initial.andThen ((houses_ofOutline strict b).andThen
      ((houses_ofOutline strict init).andThen (houses_ofDeclarators strict rest)))

theorem houses_ofCases (strict : Bool) : ∀ cs : List CaseOutline,
    (ofCases setting strict cs).Houses setting.arguments tree (Outline.functionsCases cs)
  | [] => .done
  | .mk test statements :: rest => by
    rw [ofCases, Outline.functionsCases, List.append_assoc]
    exact (houses_ofOutline strict test).andThen
      ((houses_ofAll strict statements).andThen (houses_ofCases strict rest))

theorem houses_ofParams (strict : Bool) : ∀ ps : List ParamOutline, (∀ q ∈ ps, q.IsStill) →
    (ofParams setting strict ps).HousesParams setting.arguments tree
      ((ps.filter ParamOutline.runsCode).map ParamOutline.node) (Outline.functionsParams ps)
  | [], _ => by
    intro _ _ outer ids scopes follows
    obtain ⟨rfl, rfl⟩ := follows.eq_nil rfl
    exact ⟨[], [], .nil, .nil, rfl, .refl _⟩
  | .mk node b :: rest, still => by
    obtain ⟨here, there⟩ := List.forall_mem_cons.1 still
    rw [ofParams]
    cases names : b.boundNames with
    | error refusal => intro _ completed; cases completed
    | ok bound =>
      rw [ParamOutline.nodes_cons names]
      refine HousesParams.cons (houses_ofOutline strict b) (fun quiet => here ?_ setting strict)
        (houses_ofParams strict rest there)
      rw [Outline.runsCode, names]
      exact quiet

theorem houses_ofBody (strict : Bool) (kind : FunctionKind) (node : Node)
    (params : List Declaration) (holdsParams : Bool) : ∀ body : BodyOutline,
    (ofBody setting strict kind node params holdsParams body).HousesBody setting.arguments tree
      kind node body params holdsParams (Outline.functionsBody body)
  | .concise value => by
    rw [ofBody]
    refine .inScope (houses_ofOutline strict value) ?_ ⟨[], rfl, (List.append_nil _).symm⟩
    simp [BodyOutline.isConcise]
  | .block _ decls statements => by
    rw [ofBody]
    split
    next => intro _ completed; cases completed
    next owned answered =>
      refine .inScope (houses_ofAll _ statements) ?_
        ⟨decls ++ owned.vars ++ owned.twins, ⟨_, _, owned, answered, rfl⟩, by simp⟩
      rw [argumentsOf]
      cases holdsParams <;> cases kind.hasArguments <;> rfl

end

theorem houses_ofProgram (outline : ProgramOutline) :
    (ofProgram setting outline).Houses setting.arguments tree
      (Outline.functionsAll outline.statements) := by
  unfold ofProgram
  split <;>
    exact .asking (fun owned _ =>
      ((houses_ofAll setting _ outline.statements).inScope rfl).inScope rfl)

end Resolution.Course

end ScopeAnalysis
