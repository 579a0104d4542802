import Mathlib.Data.Multiset.MapFold
import Mathlib.Data.Multiset.ZeroCons
import ScopeAnalysis.Proofs.Grammar.BodyNames
import ScopeAnalysis.Proofs.Grammar.EvalCalls
import ScopeAnalysis.Proofs.Grammar.Whole

/-!
# The functions of a program

Every function, arrow, method, getter and setter of a program is folded into an outline of a
function, and an outline contains no others. Such an outline keeps what the scopes of the function
depend on: its kind, the names of its parameters, which of them run code, whether its body is an
expression, and what the body declares.
-/

namespace ScopeAnalysis

open Resolution

/-- A function, arrow, method, getter or setter as it is written. -/
structure FunctionForm where
  kind : FunctionKind
  node : Node
  params : Params Node Name
  body : Body Node Name

def Piece.form? : Piece → Option FunctionForm
  | .function _ kind node ps b => some ⟨kind, node, ps, b⟩
  | _ => none

/-- All functions of a program, at any depth. -/
def NumberedProgram.functions (p : NumberedProgram) : List FunctionForm :=
  p.pieces.filterMap Piece.form?

/-- A function that is contained in an outline. -/
structure FunctionOutline where
  kind : FunctionKind
  node : Node
  params : List ParamOutline
  body : BodyOutline

def ParamOutline.node : ParamOutline → Node
  | .mk node _ => node

def BodyOutline.isConcise : BodyOutline → Bool
  | .block .. => false
  | .concise _ => true

namespace Outline

mutual

/-- The functions of an outline that are walked with it. Parameters are walked if any of them runs
code. -/
def functions : Outline → List FunctionOutline
  | .nothing | .binding _ | .target _ | .read _ | .delete _ | .update _ | .imports _ => []
  | .evaluated inner => functions inner
  | .union parts => functionsAll parts
  | .directEval call => functions call
  | .assign _ t value => functions t ++ functions value
  | .decl _ declarators => functionsDeclarators declarators
  | .block _ _ statements => functionsAll statements
  | .ifElse test _ yes _ no => functions test ++ (functions yes ++ functions no)
  | .forLoop _ _ init test step body =>
    functions init ++ (functions test ++ (functions step ++ functions body))
  | .forEach _ _ head collection body => functions head ++ (functions collection ++ functions body)
  | .switch _ _ discriminant cases => functions discriminant ++ functionsCases cases
  | .handler _ _ b _ _ statements => functions b ++ functionsAll statements
  | .withObject _ object body => functions object ++ functions body
  | .function kind node _ params body =>
    (if params.any ParamOutline.runsCode then functionsParams params else []) ++
      ⟨kind, node, params, body⟩ :: functionsBody body
  | .class_ _ _ _ heritage elements => functions heritage ++ functionsAll elements

def functionsAll : List Outline → List FunctionOutline
  | [] => []
  | o :: rest => functions o ++ functionsAll rest

def functionsDeclarators : List DeclaratorOutline → List FunctionOutline
  | [] => []
  | .mk b _ init :: rest => functions b ++ functions init ++ functionsDeclarators rest

def functionsCases : List CaseOutline → List FunctionOutline
  | [] => []
  | .mk test statements :: rest => functions test ++ functionsAll statements ++ functionsCases rest

def functionsParams : List ParamOutline → List FunctionOutline
  | [] => []
  | .mk _ b :: rest => functions b ++ functionsParams rest

def functionsBody : BodyOutline → List FunctionOutline
  | .block _ _ statements => functionsAll statements
  | .concise value => functions value

end

theorem functionsAll_append (os rest : List Outline) :
    functionsAll (os ++ rest) = functionsAll os ++ functionsAll rest := by
  induction os with
  | nil => rfl
  | cons o os ih => rw [List.cons_append, functionsAll, functionsAll, ih, List.append_assoc]

theorem functionsParams_append (ps rest : List ParamOutline) :
    functionsParams (ps ++ rest) = functionsParams ps ++ functionsParams rest := by
  induction ps with
  | nil => rfl
  | cons p ps ih =>
    obtain ⟨node, b⟩ := p
    rw [List.cons_append, functionsParams, functionsParams, ih, List.append_assoc]

theorem functionsAll_keep (o : Outline) (rest : List Outline) :
    functionsAll (Folding.keep o rest) = functions o ++ functionsAll rest := by
  unfold Folding.keep
  split
  next nothing =>
    rw [eq_nothing nothing]
    rfl
  next => rfl

theorem functionsAll_filter (os : List Outline) :
    functionsAll (os.filter (fun o => !o.isNothing)) = functionsAll os := by
  induction os with
  | nil => rfl
  | cons o rest ih =>
    rw [functionsAll, ← ih, ← functionsAll_keep, Folding.keep]
    by_cases is : o.isNothing = true
    · rw [List.filter_cons_of_neg (by simp [is]), if_pos is]
    · rw [List.filter_cons_of_pos (by simp [is]), if_neg is]

theorem functions_join (os : List Outline) : functions (join os) = functionsAll os := by
  rw [← functionsAll_filter os, join]
  split <;> simp [*, functions, functionsAll]

theorem functionsAll_read (ids : List Occurrence) : functionsAll (ids.map .read) = [] := by
  induction ids with
  | nil => rfl
  | cons id rest ih => exact ih

end Outline

/-- A parameter runs code if that is said when its names are bound. -/
theorem ParamOutline.nodes_cons {node : Node} {o : Outline} {bound : Bound}
    (names : o.boundNames = .ok bound) (rest : List ParamOutline) :
    ((ParamOutline.mk node o :: rest).filter runsCode).map ParamOutline.node =
      (if bound.evaluates then [node] else []) ++ (rest.filter runsCode).map ParamOutline.node := by
  have runs : (ParamOutline.mk node o).runsCode = bound.evaluates := by
    rw [ParamOutline.runsCode, Outline.runsCode, names]
  cases evaluates : bound.evaluates <;> simp [runs, evaluates, ParamOutline.node]

/-- The outlines of parameters keep their names and which of them run code. -/
def KeepsParams (names : List Occurrence) (evaluates : Bool) (nodes : List Node)
    (ps : List ParamOutline) : Prop :=
  ∀ bound, Walk.boundByAll ps = .ok bound → bound.names = names ∧ bound.evaluates = evaluates ∧
    (ps.filter ParamOutline.runsCode).map ParamOutline.node = nodes

namespace KeepsParams

theorem nil : KeepsParams [] false [] [] := by
  intro bound answered
  cases answered
  exact ⟨rfl, rfl, rfl⟩

theorem cons {names names' : List Occurrence} {evaluates evaluates' : Bool} {nodes : List Node}
    {node : Node} {o : Outline} {ps : List ParamOutline}
    (first : ∀ bound, o.boundNames = .ok bound → bound.names = names ∧ bound.evaluates = evaluates)
    (rest : KeepsParams names' evaluates' nodes ps) :
    KeepsParams (names ++ names') (evaluates || evaluates')
      ((if evaluates then [node] else []) ++ nodes) (.mk node o :: ps) := by
  intro bound answered
  rw [Walk.boundByAll] at answered
  cases own : o.boundNames with
  | error refusal => rw [own] at answered; cases answered
  | ok here =>
    cases others : Walk.boundByAll ps with
    | error refusal => rw [own, others] at answered; cases answered
    | ok further =>
      rw [own, others] at answered
      cases answered
      obtain ⟨rfl, rfl⟩ := first here own
      obtain ⟨rfl, rfl, rfl⟩ := rest further others
      exact ⟨rfl, rfl, ParamOutline.nodes_cons own ps⟩

theorem append {names names' : List Occurrence} {evaluates evaluates' : Bool}
    {nodes nodes' : List Node} {ps qs : List ParamOutline}
    (first : KeepsParams names evaluates nodes ps)
    (second : KeepsParams names' evaluates' nodes' qs) :
    KeepsParams (names ++ names') (evaluates || evaluates') (nodes ++ nodes') (ps ++ qs) := by
  intro bound answered
  rw [Reading.Parameters.boundByAll_append] at answered
  cases own : Walk.boundByAll ps with
  | error refusal => rw [own] at answered; cases answered
  | ok here =>
    cases others : Walk.boundByAll qs with
    | error refusal => rw [own, others] at answered; cases answered
    | ok further =>
      rw [own, others] at answered
      cases answered
      obtain ⟨rfl, rfl, rfl⟩ := first here own
      obtain ⟨rfl, rfl, rfl⟩ := second further others
      exact ⟨rfl, rfl, by rw [List.filter_append, List.map_append]⟩

end KeepsParams

/-- A parameter that runs no code opens no scope. -/
def ParamOutline.IsStill : ParamOutline → Prop
  | .mk _ b => b.runsCode = false → ∀ setting strict,
    (Course.ofOutline setting strict b).outcome = .ok () →
      Layout.openingsAll (Course.ofOutline setting strict b).parts = []

theorem Resolution.Layout.openingsAll_eq_nil {around : Place} {ls : List Layout}
    (none : Layout.placesAll around ls = []) : Layout.openingsAll ls = [] := by
  induction ls with
  | nil => rfl
  | cons l rest ih =>
    obtain ⟨first, others⟩ := List.append_eq_nil_iff.1 none
    rw [Layout.openingsAll, ih others, List.append_nil]
    cases l with
    | scope => cases first
    | _ => rfl

theorem ParamOutline.isStill_of_binds {evaluates : Bool} {P : Place → List Place} {o : Outline}
    (binds : Outline.Binds evaluates P o) (node : Node) : (ParamOutline.mk node o).IsStill := by
  intro quiet setting strict completed
  rw [Outline.runsCode] at quiet
  cases names : o.boundNames with
  | error refusal => rw [names] at quiet; cases quiet
  | ok bound =>
    rw [names] at quiet
    have still := binds.still ((binds.bound bound names).symm.trans quiet) []
    have places := (binds.nests setting strict completed).1 []
    rw [still] at places
    exact Layout.openingsAll_eq_nil places.eq_nil

/-- An outline keeps what the scopes of a function depend on. -/
structure FunctionForm.Leaves (f : FunctionForm) (o : FunctionOutline) : Prop where
  kind : o.kind = f.kind
  node : o.node = f.node
  params : KeepsParams f.params.names f.params.evaluates f.params.evaluatedNodes o.params
  still : ∀ q ∈ o.params, q.IsStill
  concise : o.body.isConcise = f.body.isConcise
  declares : o.body.DeclaresOnly f.body.declared

namespace Piece

/-! Pieces that are no functions. -/

theorem forms_uses (access : Access) (ids : List Occurrence) :
    (ids.map (fun id => Piece.use id access)).filterMap form? = [] := by
  rw [List.filterMap_map]
  exact List.filterMap_eq_nil_iff.2 (fun _ _ => rfl)

theorem forms_ofAssign (op : AssignmentOperator) (t : Target Node Name) :
    (ofAssign op t).filterMap form? = [] := by
  cases t with
  | ident id => rfl
  | _ => exact forms_uses .write _

theorem forms_ofDeclarators (ds : List (BindingElement Node Name)) :
    (ofDeclarators ds).filterMap form? = [] := by
  induction ds with
  | nil => rfl
  | cons d rest ih =>
    obtain ⟨node, order, b, init⟩ := d
    have first : ofDeclarators (.mk node order b init :: rest) =
        (if init.isSome then b.names.map (fun id => Piece.use id .write) else []) ++
          ofDeclarators rest := List.flatMap_cons
    rw [first, List.filterMap_append, ih, List.append_nil]
    split
    · exact forms_uses .write b.names
    · rfl

theorem forms_ofName (kind : FunctionKind) (node : Node) (name : Option Occurrence) :
    (ofName kind node name).filterMap form? = [] := by
  cases name with
  | none => rfl
  | some id => cases kind <;> rfl

theorem forms_ofParams (kind : FunctionKind) (node : Node) (ps : Params Node Name) :
    (ofParams kind node ps).filterMap form? = [] := by
  unfold ofParams
  split
  · rw [List.filterMap_cons_none rfl, List.filterMap_map]
    exact List.filterMap_eq_nil_iff.2 (fun _ _ => rfl)
  · rfl

theorem forms_ofClause (s : Stmt Node Name) : (ofClause s).filterMap form? = [] := by
  unfold ofClause
  cases Folding.loneFunction s <;> rfl

end Piece

/-- The functions among the pieces of a part of a program are those of its outline. -/
def KeepsFunctions (pieces : List Piece) (found : List FunctionOutline) : Prop :=
  Multiset.Rel FunctionForm.Leaves (pieces.filterMap Piece.form?) found

namespace KeepsFunctions

variable {ps qs rs : List Piece} {found found' : List FunctionOutline}

theorem nil : KeepsFunctions [] [] := Multiset.Rel.zero

theorem append (first : KeepsFunctions ps found) (second : KeepsFunctions qs found') :
    KeepsFunctions (ps ++ qs) (found ++ found') := by
  rw [KeepsFunctions, List.filterMap_append, ← Multiset.coe_add, ← Multiset.coe_add]
  exact Multiset.Rel.add first second

theorem perm (keeps : KeepsFunctions ps found) (same : found.Perm found') :
    KeepsFunctions ps found' := by
  rw [KeepsFunctions, ← Multiset.coe_eq_coe.2 same]
  exact keeps

/-- Pieces that are no functions may be left out. -/
theorem mute_append (keeps : KeepsFunctions ps found) (mute : qs.filterMap Piece.form? = []) :
    KeepsFunctions (qs ++ ps) found := by
  rw [KeepsFunctions, List.filterMap_append, mute]
  exact keeps

theorem cons_mute {piece : Piece} (keeps : KeepsFunctions ps found) (mute : piece.form? = none) :
    KeepsFunctions (piece :: ps) found := by
  rw [KeepsFunctions, List.filterMap_cons_none mute]
  exact keeps

theorem cons {around : List Enclosure} {kind : FunctionKind} {node : Node}
    {params : Params Node Name} {b : Body Node Name} {o : FunctionOutline}
    (leaves : FunctionForm.Leaves ⟨kind, node, params, b⟩ o) (rest : KeepsFunctions ps found) :
    KeepsFunctions (.function around kind node params b :: ps) (o :: found) :=
  Multiset.Rel.cons leaves rest

theorem assoc (keeps : KeepsFunctions (ps ++ qs ++ rs) found) :
    KeepsFunctions (ps ++ (qs ++ rs)) found := by
  rwa [List.append_assoc] at keeps

theorem join {os : List Outline} (all : KeepsFunctions ps (Outline.functionsAll os)) :
    KeepsFunctions ps (Outline.join os).functions := by
  rw [Outline.functions_join]
  exact all

theorem join₂ {o o' : Outline} (first : KeepsFunctions ps o.functions)
    (second : KeepsFunctions qs o'.functions) :
    KeepsFunctions (ps ++ qs) (Outline.join [o, o']).functions := by
  rw [Outline.functions_join, Outline.functionsAll, Outline.functionsAll, Outline.functionsAll,
    List.append_nil]
  exact first.append second

theorem join₃ {o o' o'' : Outline} (first : KeepsFunctions ps o.functions)
    (second : KeepsFunctions qs o'.functions) (third : KeepsFunctions rs o''.functions) :
    KeepsFunctions (ps ++ (qs ++ rs)) (Outline.join [o, o', o'']).functions := by
  rw [Outline.functions_join, Outline.functionsAll, Outline.functionsAll, Outline.functionsAll,
    Outline.functionsAll, List.append_nil]
  exact first.append (second.append third)

theorem keep {o : Outline} {os : List Outline} (first : KeepsFunctions ps o.functions)
    (others : KeepsFunctions qs (Outline.functionsAll os)) :
    KeepsFunctions (ps ++ qs) (Outline.functionsAll (Folding.keep o os)) := by
  rw [Outline.functionsAll_keep]
  exact first.append others

theorem snoc {os : List Outline} {o : Outline} (all : KeepsFunctions ps (Outline.functionsAll os))
    (last : KeepsFunctions qs o.functions) :
    KeepsFunctions (ps ++ qs) (Outline.functionsAll (os ++ [o])) := by
  rw [Outline.functionsAll_append, Outline.functionsAll, Outline.functionsAll, List.append_nil]
  exact all.append last

/-- What is marked as evaluated only if it concerns names. -/
theorem member {o : Outline} (value : KeepsFunctions ps o.functions) :
    KeepsFunctions ps (if o.isNothing then Outline.nothing else .evaluated o).functions := by
  split
  next nothing =>
    rw [Outline.eq_nothing nothing] at value
    exact value
  next => exact value

end KeepsFunctions

namespace Folding

open Outline

/-- Members whose functions are those among the given pieces, in any order. -/
structure GathersFunctions (pieces : List Piece) (parts : List Part) : Prop where
  apart : Apart parts
  keeps : KeepsFunctions pieces (functionsAll (parts.map Part.outline))

namespace GathersFunctions

variable {ps qs rs : List Piece} {parts : List Part} {o : Outline}

theorem nil : GathersFunctions [] [] := ⟨.nil, .nil⟩

theorem addPart (gathers : GathersFunctions ps parts) (slot : Option (Bool × Name))
    (value : KeepsFunctions qs o.functions) :
    GathersFunctions (ps ++ qs) (addPart slot o parts) := by
  obtain ⟨apart, behind | ⟨before, part, after, rfl, merged⟩⟩ := addPart_cases gathers.apart slot o
  · refine ⟨apart, ?_⟩
    rw [behind, List.map_append]
    exact gathers.keeps.snoc value
  · refine ⟨apart, (gathers.keeps.append value).perm ?_⟩
    simp only [merged, List.map_append, List.map_cons, functionsAll_append, functionsAll,
      functions_join, List.append_nil, List.append_assoc]
    exact (List.perm_append_comm.append_left _).append_left _

theorem assoc (gathers : GathersFunctions (ps ++ qs ++ rs) parts) :
    GathersFunctions (ps ++ (qs ++ rs)) parts :=
  ⟨gathers.apart, gathers.keeps.assoc⟩

end GathersFunctions

variable {special : SpecialNames}

theorem keeps_element (e : BindingElement Node Name) :
    Returns (bindingElement special e) (fun o => ∀ bound, o.boundNames = .ok bound →
      bound.names = e.names ∧ bound.evaluates = e.evaluates) :=
  (Returns.of_meets (meets_bindingElement (R := .cautious special) [] e
    (Reading.cautious_given _ _))).imp (fun _ binds bound answered => by
      have here := binds.bound
      rwa [answered] at here)

theorem keeps_rest (b : Binding Node Name) :
    Returns (binding special b) (fun o => ∀ bound, o.boundNames = .ok bound →
      bound.names = b.names ∧ bound.evaluates = b.evaluates) :=
  (Returns.of_meets (meets_binding (R := .cautious special) [] b
    (Reading.cautious_given _ _))).imp (fun _ binds bound answered => by
      have here := binds.bound
      rwa [answered] at here)

theorem keeps_paramItems (es : List (BindingElement Node Name)) :
    Returns (paramItems special es) (KeepsParams (es.flatMap BindingElement.names)
      (es.any BindingElement.evaluates)
      ((es.filter BindingElement.evaluates).map elementNode)) := by
  induction es with
  | nil => exact .pure .nil
  | cons e rest ih =>
    refine (keeps_element e).bind (fun _ first => ih.bind (fun _ others => .pure ?_))
    rw [Reading.elementNodes_cons]
    exact .cons first others

theorem keeps_params (ps : Params Node Name) : Returns (params special ps)
    (KeepsParams ps.names ps.evaluates ps.evaluatedNodes) := by
  obtain ⟨node, items, _ | b⟩ := ps
  · refine (keeps_paramItems items).imp (fun os keeps => ?_)
    simpa [Params.evaluatedNodes, Params.names, Params.evaluates, Binding.optNames,
      Binding.optEvaluates] using keeps
  · refine (keeps_paramItems items).bind (fun os first => (keeps_rest b).bind (fun o rest =>
      .pure ?_))
    rw [Reading.evaluatedNodes_some]
    have last : KeepsParams _ _ _ [.mk (bindingNode b) o] := .cons rest .nil
    rw [List.append_nil, List.append_nil, Bool.or_false] at last
    exact first.append last

theorem still_paramItems (es : List (BindingElement Node Name)) :
    Returns (paramItems special es) (fun ps => ∀ q ∈ ps, q.IsStill) := by
  induction es with
  | nil => exact .pure (List.forall_mem_nil _)
  | cons e rest ih =>
    exact (returns_bindingElement e).bind (fun _ binds => ih.bind (fun _ others =>
      .pure (List.forall_mem_cons.2 ⟨ParamOutline.isStill_of_binds binds _, others⟩)))

theorem still_params (ps : Params Node Name) :
    Returns (params special ps) (fun ps => ∀ q ∈ ps, q.IsStill) := by
  obtain ⟨node, items, _ | b⟩ := ps
  · exact still_paramItems items
  · exact (still_paramItems items).bind (fun _ first => (returns_binding b).bind (fun _ binds =>
      .pure (List.forall_mem_append.2 ⟨first,
        List.forall_mem_singleton.2 (ParamOutline.isStill_of_binds binds _)⟩)))

theorem concise_body (b : Body Node Name) :
    Returns (body special b) (fun o => o.isConcise = b.isConcise) := by
  cases b with
  | concise value => exact (Returns.any _).bind (fun _ _ => .pure rfl)
  | block node directives statements =>
    exact (Returns.any _).bind (fun _ _ => (Returns.any _).bind (fun _ _ => .pure rfl))

/-- Parameters none of which runs code are all bound, without running any. -/
theorem exists_boundByAll {ps : List ParamOutline} (still : ps.any ParamOutline.runsCode = false) :
    ∃ bound, Walk.boundByAll ps = .ok bound ∧ bound.evaluates = false := by
  induction ps with
  | nil => exact ⟨.none, rfl, rfl⟩
  | cons p rest ih =>
    obtain ⟨node, b⟩ := p
    rw [List.any_cons, Bool.or_eq_false_iff, ParamOutline.runsCode, Outline.runsCode] at still
    obtain ⟨first, others⟩ := still
    obtain ⟨more, answered, further⟩ := ih others
    cases own : b.boundNames with
    | error refusal => rw [own] at first; cases first
    | ok bound =>
      rw [own] at first
      refine ⟨bound.append more, by rw [Walk.boundByAll, own, answered]; rfl, ?_⟩
      exact Bool.or_eq_false_iff.2 ⟨first, further⟩

/-- Parameters that run no code contain no function, so it does not matter that they are not
walked. -/
theorem keeps_function {around : List Enclosure} {kind : FunctionKind} {node : Node}
    {name name' : Option Occurrence} {ps : Params Node Name} {b : Body Node Name}
    {params : List ParamOutline} {bo : BodyOutline}
    (leaves : FunctionForm.Leaves ⟨kind, node, ps, b⟩ ⟨kind, node, params, bo⟩)
    (first : KeepsFunctions (Pieces.params (.function b.directives :: around) ps)
      (functionsParams params))
    (second : KeepsFunctions (Pieces.body (.function b.directives :: around) b)
      (functionsBody bo)) :
    KeepsFunctions (Piece.ofName kind node name ++ (Piece.ofParams kind node ps ++
        (Pieces.params (.function b.directives :: around) ps ++
          .function around kind node ps b :: Pieces.body (.function b.directives :: around) b)))
      (Outline.function kind node name' params bo).functions := by
  rw [functions]
  refine .mute_append (.mute_append ?_ (Piece.forms_ofParams kind node ps))
    (Piece.forms_ofName kind node name)
  refine .append ?_ (.cons leaves second)
  split
  next => exact first
  next quiet =>
    obtain ⟨bound, answered, still⟩ := exists_boundByAll (Bool.not_eq_true _ ▸ quiet)
    have evaluates : ps.evaluates = false := (leaves.params bound answered).2.1.symm.trans still
    rw [Pieces.params_of_evaluates _ ps evaluates]
    exact .nil

theorem keeps_block {ps : List Piece} {os : List Outline} (node : Node)
    (all : KeepsFunctions ps (functionsAll os)) :
    Returns (block node os) (fun o => KeepsFunctions ps o.functions) :=
  (Returns.any _).bind (fun _ _ => .pure all)

mutual

theorem keeps_expr (around : List Enclosure) : ∀ e : Expr Node Name,
    Returns (expr special e) (fun o => KeepsFunctions (Pieces.expr around e) o.functions)
  | .ident id => .pure (.cons_mute .nil rfl)
  | .literal _ _ | .keyword _ _ | .hole _ => .pure .nil
  | .template _ tag parts =>
    (keeps_optExpr around tag).bind (fun _ head =>
      (keeps_exprs around parts).bind (fun _ all => .pure (.join (head.append all))))
  | .array _ elements => (keeps_exprs around elements).bind (fun _ all => .pure all.join)
  | .object _ ps =>
    (keeps_properties around ps [] _ .nil).bind (fun _ all => .pure all.keeps.join)
  | .member _ object _ => keeps_expr around object
  | .index _ object k =>
    (keeps_expr around object).bind (fun _ first =>
      (keeps_expr around k).bind (fun _ second => .pure (first.join₂ second)))
  | .call _ callee arguments =>
    (keeps_expr around callee).bind (fun _ head =>
      (keeps_exprs around arguments).bind (fun _ all => .pure (by
        have whole : KeepsFunctions _ (functions (.join (_ :: _))) := .join (head.append all)
        split <;> exact whole)))
  | .construct _ callee arguments =>
    (keeps_expr around callee).bind (fun _ head =>
      (keeps_exprs around arguments).bind (fun _ all => .pure (.join (head.append all))))
  | .function f => keeps_func around .expression f
  | .arrow f => keeps_arrow around f
  | .class_ c => keeps_class around false c
  | .assign _ op t value =>
    (keeps_target around t).bind (fun _ first =>
      (keeps_expr around value).bind (fun _ second => .pure
        (((first.append second).mute_append (Piece.forms_ofAssign op t)).cons_mute rfl)))
  | .binary _ left _ right =>
    (keeps_expr around left).bind (fun _ first =>
      (keeps_expr around right).bind (fun _ second => .pure (first.join₂ second)))
  | .conditional _ test yes no =>
    (keeps_expr around test).bind (fun _ first =>
      (keeps_expr around yes).bind (fun _ second =>
        (keeps_expr around no).bind (fun _ third => .pure (first.join₃ second third))))
  | .delete _ operand => by
    by_cases lone : ∃ id, operand = .ident id
    · obtain ⟨id, rfl⟩ := lone
      exact .pure (.cons_mute .nil rfl)
    · have other : ∀ id, operand ≠ .ident id := fun id same => lone ⟨id, same⟩
      rw [Pieces.expr_delete around other, expr_delete special other]
      exact keeps_expr around operand
  | .unary _ _ operand => keeps_expr around operand
  | .update _ _ _ (.ident _) => .pure (.cons_mute (.cons_mute .nil rfl) rfl)
  | .update _ _ _ (.member _ object _) =>
    (keeps_expr around object).imp (fun _ value => value.cons_mute rfl)
  | .update _ _ _ (.index _ object k) =>
    (keeps_expr around object).bind (fun _ first =>
      (keeps_expr around k).bind (fun _ second => .pure ((first.join₂ second).cons_mute rfl)))
  | .update _ _ _ (.array node slots rest) =>
    (keeps_target around (.array node slots rest)).imp (fun _ target => target.cons_mute rfl)
  | .update _ _ _ (.object node ps rest) =>
    (keeps_target around (.object node ps rest)).imp (fun _ target => target.cons_mute rfl)
  | .yield _ operand => keeps_optExpr around operand
  | .spread _ operand => keeps_expr around operand

theorem keeps_optExpr (around : List Enclosure) : ∀ e : Option (Expr Node Name),
    Returns (optExpr special e) (fun o => KeepsFunctions (Pieces.optExpr around e) o.functions)
  | none => .pure .nil
  | some e => keeps_expr around e

theorem keeps_exprs (around : List Enclosure) : ∀ es : List (Expr Node Name),
    Returns (exprs special es) (fun os => KeepsFunctions (Pieces.exprs around es) (functionsAll os))
  | [] => .pure .nil
  | e :: rest =>
    (keeps_expr around e).bind (fun _ first =>
      (keeps_exprs around rest).bind (fun _ others => .pure (first.append others)))

theorem keeps_properties (around : List Enclosure) : ∀ (ps : List (Property Node Name))
    (parts : List Part) (pieces : List Piece), GathersFunctions pieces parts →
    Returns (properties special parts ps)
      (GathersFunctions (pieces ++ Pieces.properties around ps))
  | [], _, pieces, gathers => .pure ((List.append_nil pieces).symm ▸ gathers)
  | .keyed _ k value :: rest, parts, pieces, gathers => by
    refine (keeps_key around k).bind (fun o head => ?_)
    refine (keeps_expr around value).bind (fun o' value => ?_)
    have grown := gathers.addPart none (head.join₂ value)
    exact (keeps_properties around rest _ _ grown).imp (fun _ all => all.assoc)
  | .shorthand _ id :: rest, parts, pieces, gathers => by
    have read : KeepsFunctions [.use id .read] (Outline.read id).functions := .cons_mute .nil rfl
    have grown := gathers.addPart none read
    exact (keeps_properties around rest _ _ grown).imp (fun _ all => all.assoc)
  | .spread _ value :: rest, parts, pieces, gathers => by
    refine (keeps_expr around value).bind (fun o value => ?_)
    have grown := gathers.addPart none value
    exact (keeps_properties around rest _ _ grown).imp (fun _ all => all.assoc)
  | .method kind k f :: rest, parts, pieces, gathers => by
    refine (keeps_func around (methodFunction kind) f).bind (fun o function => ?_)
    refine (keeps_key around k).bind (fun o' head => ?_)
    refine (Returns.any _).bind (fun slot _ => ?_)
    have grown := gathers.addPart slot (head.join₂ function)
    exact (keeps_properties around rest _ _ grown).imp (fun _ all => all.assoc)

theorem keeps_members (around : List Enclosure) : ∀ (ms : List (Member Node Name))
    (parts : List Part) (pieces : List Piece), GathersFunctions pieces parts →
    Returns (members special parts ms) (GathersFunctions (pieces ++ Pieces.members around ms))
  | [], _, pieces, gathers => .pure ((List.append_nil pieces).symm ▸ gathers)
  | .mk _ isStatic kind k f :: rest, parts, pieces, gathers => by
    refine (keeps_func around (methodFunction kind) f).bind (fun o function => ?_)
    refine (keeps_key around k).bind (fun o' head => ?_)
    refine (Returns.any _).bind (fun slot _ => ?_)
    have grown := gathers.addPart slot (head.join₂ function)
    exact (keeps_members around rest _ _ grown).imp (fun _ all => all.assoc)

theorem keeps_key (around : List Enclosure) : ∀ k : Key Node Name,
    Returns (key special k) (fun o => KeepsFunctions (Pieces.key around k) o.functions)
  | .computed _ value => keeps_expr around value
  | .ident _ | .string _ _ | .number _ _ => .pure .nil

theorem keeps_class (around : List Enclosure) (isDeclaration : Bool) : ∀ c : Class Node Name,
    Returns (classOutline special isDeclaration c)
      (fun o => KeepsFunctions (Pieces.classPieces around c) o.functions)
  | .mk node name heritage ms => by
    refine (keeps_members (.class_ :: around) ms [] _ .nil).bind (fun parts all => ?_)
    refine (keeps_optExpr (.class_ :: around) heritage).bind (fun o parent => .pure ?_)
    have elements := all.keeps
    rw [← functionsAll_filter] at elements
    exact (parent.append elements).cons_mute rfl

theorem keeps_func (around : List Enclosure) (kind : FunctionKind) : ∀ f : Func Node Name,
    Returns (func special kind f)
      (fun o => KeepsFunctions (Pieces.func around kind f) o.functions)
  | .mk _ _ _ ps b =>
    (((keeps_params ps).and (still_params ps)).and
        (keeps_paramList (.function b.directives :: around) ps)).bind
      (fun _ first =>
        (((concise_body b).and (declares_body b)).and
            (keeps_body (.function b.directives :: around) b)).bind (fun _ second =>
          .pure (keeps_function
            ⟨rfl, rfl, first.1.1, first.1.2, second.1.1, second.1.2⟩ first.2 second.2)))

theorem keeps_arrow (around : List Enclosure) : ∀ f : Func Node Name,
    Returns (arrow special f)
      (fun o => KeepsFunctions (Pieces.func around .arrow f) o.functions)
  | .mk _ _ _ ps b =>
    (((concise_body b).and (declares_body b)).and
        (keeps_body (.function b.directives :: around) b)).bind (fun _ second =>
      (((keeps_params ps).and (still_params ps)).and
        (keeps_paramList (.function b.directives :: around) ps)).bind
        (fun _ first =>
          .pure (keeps_function
            ⟨rfl, rfl, first.1.1, first.1.2, second.1.1, second.1.2⟩ first.2 second.2)))

theorem keeps_paramList (around : List Enclosure) : ∀ ps : Params Node Name,
    Returns (params special ps)
      (fun os => KeepsFunctions (Pieces.params around ps) (functionsParams os))
  | .mk _ items none => (keeps_paramElements around items).imp (fun _ all => by
      rwa [Pieces.params, Pieces.optBinding, List.append_nil])
  | .mk _ items (some b) =>
    (keeps_paramElements around items).bind (fun _ first =>
      (keeps_binding around b).bind (fun _ rest => .pure (by
        rw [functionsParams_append, functionsParams, functionsParams, List.append_nil]
        exact first.append rest)))

theorem keeps_paramElements (around : List Enclosure) : ∀ es : List (BindingElement Node Name),
    Returns (paramItems special es)
      (fun os => KeepsFunctions (Pieces.elements around es) (functionsParams os))
  | [] => .pure .nil
  | e :: rest =>
    (keeps_bindingElement around e).bind (fun _ first =>
      (keeps_paramElements around rest).bind (fun _ others => .pure (first.append others)))

theorem keeps_body (around : List Enclosure) : ∀ b : Body Node Name,
    Returns (body special b) (fun o => KeepsFunctions (Pieces.body around b) (functionsBody o))
  | .block _ _ statements =>
    (keeps_stmts around statements).bind (fun _ all => (Returns.any _).bind (fun _ _ => .pure all))
  | .concise value => (keeps_expr around value).bind (fun _ value => .pure value)

theorem keeps_binding (around : List Enclosure) : ∀ b : Binding Node Name,
    Returns (binding special b) (fun o => KeepsFunctions (Pieces.binding around b) o.functions)
  | .ident _ => .pure .nil
  | .array _ slots rest =>
    (keeps_bindingSlots around slots).bind (fun _ all =>
      (keeps_optBinding around rest).bind (fun _ last => .pure (all.snoc last).join))
  | .object _ ps rest =>
    (keeps_bindingProperties around ps).bind (fun _ all => .pure (by
      rw [functions_join, functionsAll_append, Pieces.binding]
      cases rest <;> simpa [functionsAll, functions] using all))

theorem keeps_optBinding (around : List Enclosure) : ∀ b : Option (Binding Node Name),
    Returns (optBinding special b)
      (fun o => KeepsFunctions (Pieces.optBinding around b) o.functions)
  | none => .pure .nil
  | some b => keeps_binding around b

theorem keeps_bindingElement (around : List Enclosure) : ∀ e : BindingElement Node Name,
    Returns (bindingElement special e)
      (fun o => KeepsFunctions (Pieces.element around e) o.functions)
  | .mk _ _ b none => (keeps_binding around b).imp (fun _ binds => by
      rwa [Pieces.element, Pieces.optExpr, List.append_nil])
  | .mk _ _ b (some init) =>
    (keeps_binding around b).bind (fun _ binds =>
      (keeps_expr around init).bind (fun _ value => .pure (binds.join₂ value)))

theorem keeps_bindingSlots (around : List Enclosure) :
    ∀ slots : List (Slot Node (BindingElement Node Name)), Returns (bindingSlots special slots)
      (fun os => KeepsFunctions (Pieces.bindingSlots around slots) (functionsAll os))
  | [] => .pure .nil
  | .hole _ :: rest => keeps_bindingSlots around rest
  | .element e :: rest =>
    (keeps_bindingElement around e).bind (fun _ first =>
      (keeps_bindingSlots around rest).bind (fun _ others => .pure (first.append others)))

theorem keeps_bindingProperty (around : List Enclosure) : ∀ p : BindingProperty Node Name,
    Returns (bindingProperty special p)
      (fun o => KeepsFunctions (Pieces.bindingProperty around p) o.functions)
  | .shorthand _ _ none => .pure .nil
  | .shorthand _ id (some init) =>
    have name : KeepsFunctions [] (Outline.binding id).functions := .nil
    (keeps_expr around init).bind (fun _ value => .pure (name.join₂ value))
  | .keyed _ k e =>
    (keeps_key around k).bind (fun _ head =>
      (keeps_bindingElement around e).bind (fun _ binds => .pure (by
        split <;> exact head.join₂ binds)))

theorem keeps_bindingProperties (around : List Enclosure) :
    ∀ ps : List (BindingProperty Node Name), Returns (bindingProperties special ps)
      (fun os => KeepsFunctions (Pieces.bindingProperties around ps) (functionsAll os))
  | [] => .pure .nil
  | p :: rest =>
    (keeps_bindingProperty around p).bind (fun _ first =>
      (keeps_bindingProperties around rest).bind (fun _ others => .pure (first.append others)))

theorem keeps_target (around : List Enclosure) : ∀ t : Target Node Name,
    Returns (target special t) (fun o => KeepsFunctions (Pieces.target around t) o.functions)
  | .ident _ => .pure .nil
  | .member _ object _ => (keeps_expr around object).bind (fun _ value => .pure value.member)
  | .index _ object k =>
    (keeps_expr around object).bind (fun _ first =>
      (keeps_expr around k).bind (fun _ second => .pure (first.join₂ second).member))
  | .array _ slots rest =>
    (keeps_targetSlots around slots).bind (fun _ all =>
      (keeps_optTarget around rest).bind (fun _ last => .pure (all.snoc last).join))
  | .object _ ps rest =>
    (keeps_targetProperties around ps).bind (fun _ all =>
      (keeps_optTarget around rest).bind (fun _ last => .pure (all.snoc last).join))

theorem keeps_optTarget (around : List Enclosure) : ∀ t : Option (Target Node Name),
    Returns (optTarget special t) (fun o => KeepsFunctions (Pieces.optTarget around t) o.functions)
  | none => .pure .nil
  | some t => keeps_target around t

theorem keeps_targetElement (around : List Enclosure) : ∀ e : TargetElement Node Name,
    Returns (targetElement special e)
      (fun o => KeepsFunctions (Pieces.targetElement around e) o.functions)
  | .mk _ t init =>
    (keeps_target around t).bind (fun _ first =>
      (keeps_optExpr around init).bind (fun _ second => .pure (first.join₂ second)))

theorem keeps_targetSlots (around : List Enclosure) :
    ∀ slots : List (Slot Node (TargetElement Node Name)), Returns (targetSlots special slots)
      (fun os => KeepsFunctions (Pieces.targetSlots around slots) (functionsAll os))
  | [] => .pure .nil
  | .hole _ :: rest => keeps_targetSlots around rest
  | .element e :: rest =>
    (keeps_targetElement around e).bind (fun _ first =>
      (keeps_targetSlots around rest).bind (fun _ others => .pure (first.append others)))

theorem keeps_targetProperty (around : List Enclosure) : ∀ p : TargetProperty Node Name,
    Returns (targetProperty special p)
      (fun o => KeepsFunctions (Pieces.targetProperty around p) o.functions)
  | .shorthand _ id init =>
    have name : KeepsFunctions [] (Outline.target id).functions := .nil
    (keeps_optExpr around init).bind (fun _ value => .pure (name.join₂ value))
  | .keyed _ k e =>
    (keeps_key around k).bind (fun _ head =>
      (keeps_targetElement around e).bind (fun _ element => .pure (head.join₂ element)))

theorem keeps_targetProperties (around : List Enclosure) :
    ∀ ps : List (TargetProperty Node Name), Returns (targetProperties special ps)
      (fun os => KeepsFunctions (Pieces.targetProperties around ps) (functionsAll os))
  | [] => .pure .nil
  | p :: rest =>
    (keeps_targetProperty around p).bind (fun _ first =>
      (keeps_targetProperties around rest).bind (fun _ others => .pure (first.append others)))

theorem keeps_declarators (around : List Enclosure) : ∀ ds : List (BindingElement Node Name),
    Returns (declarators special ds)
      (fun os => KeepsFunctions (Pieces.elements around ds) (functionsDeclarators os))
  | [] => .pure .nil
  | .mk _ _ b init :: rest =>
    (keeps_binding around b).bind (fun _ binds =>
      (keeps_optExpr around init).bind (fun _ value =>
        (keeps_declarators around rest).bind (fun _ others =>
          .pure ((binds.append value).append others))))

theorem keeps_stmt (around : List Enclosure) : ∀ s : Stmt Node Name,
    Returns (stmt special s) (fun o => KeepsFunctions (Pieces.stmt around s) o.functions)
  | .expr _ value => keeps_expr around value
  | .decl _ _ _ ds =>
    (keeps_declarators around ds).bind (fun _ all =>
      .pure (all.mute_append (Piece.forms_ofDeclarators ds)))
  | .block node statements =>
    (keeps_stmts around statements).bind (fun _ all => keeps_block node (all.cons_mute rfl))
  | .empty _ | .debugger _ | .jump _ _ _ => .pure .nil
  | .labeled _ _ s => keeps_stmt around s
  | .ifThen _ test yes =>
    (keeps_expr around test).bind (fun _ first =>
      (keeps_stmt around yes).bind (fun _ second => .pure (by
        rw [functions, functions, List.append_nil]
        exact first.append ((second.mute_append (Piece.forms_ofClause yes)).cons_mute rfl))))
  | .ifElse _ test yes no =>
    (keeps_expr around test).bind (fun _ first =>
      (keeps_stmt around yes).bind (fun _ second =>
        (keeps_stmt around no).bind (fun _ third => .pure (first.append
          (((second.mute_append (Piece.forms_ofClause yes)).cons_mute rfl).append
            ((third.mute_append (Piece.forms_ofClause no)).cons_mute rfl))))))
  | .forLoop _ init test step s =>
    (keeps_optExpr around init).bind (fun _ first =>
      (Returns.any _).bind (fun _ _ =>
        (keeps_optExpr around test).bind (fun _ second =>
          (keeps_optExpr around step).bind (fun _ third =>
            (keeps_stmt around s).bind (fun _ inside => .pure ((first.append
              (second.append (third.append (inside.cons_mute rfl)))).cons_mute rfl))))))
  | .forDecl _ _ _ ds test step s =>
    (keeps_declarators around ds).bind (fun _ first =>
      (Returns.any _).bind (fun _ _ =>
        (keeps_optExpr around test).bind (fun _ second =>
          (keeps_optExpr around step).bind (fun _ third =>
            (keeps_stmt around s).bind (fun _ inside =>
              .pure (((first.mute_append (Piece.forms_ofDeclarators ds)).append
                (second.append (third.append (inside.cons_mute rfl)))).cons_mute rfl))))))
  | .forEach _ _ t collection s =>
    (keeps_target around t).bind (fun _ head =>
      (keeps_expr around collection).bind (fun _ value =>
        (keeps_stmt around s).bind (fun _ inside => .pure
          (((head.append (value.append (inside.cons_mute rfl))).mute_append
            (Piece.forms_uses .write t.names)).cons_mute rfl))))
  | .forEachDecl _ _ _ _ ds collection s =>
    (keeps_declarators around ds).bind (fun _ head =>
      (Returns.any _).bind (fun _ _ =>
        (keeps_expr around collection).bind (fun _ value =>
          (keeps_stmt around s).bind (fun _ inside => .pure
            ((((head.mute_append (Piece.forms_ofDeclarators ds)).append
              (value.append (inside.cons_mute rfl))).mute_append
                (Piece.forms_uses .write (declaredNames ds))).cons_mute rfl)))))
  | .whileLoop _ test s =>
    (keeps_expr around test).bind (fun _ head =>
      (keeps_stmt around s).bind (fun _ inside => .pure (head.join₂ (inside.cons_mute rfl))))
  | .doLoop _ s test =>
    (keeps_stmt around s).bind (fun _ inside =>
      (keeps_expr around test).bind (fun _ last => .pure ((inside.join₂ last).cons_mute rfl)))
  | .ret _ value => keeps_optExpr around value
  | .throw _ value => keeps_expr around value
  | .withObject _ object s =>
    (keeps_expr around object).bind (fun _ outside =>
      (keeps_stmt around s).bind (fun _ inside =>
        .pure (outside.append ((inside.cons_mute rfl).cons_mute rfl))))
  | .switch _ discriminant _ cs =>
    (keeps_clauses around cs).bind (fun _ all =>
      (keeps_expr around discriminant).bind (fun _ outside =>
        .pure (outside.append (all.cons_mute rfl))))
  | .tryCatch _ blockNode statements h =>
    (keeps_stmts around statements).bind (fun _ all =>
      (keeps_block blockNode all).bind (fun _ first =>
        (keeps_handler around h).bind (fun _ second =>
          .pure ((first.join₂ second).cons_mute rfl))))
  | .tryFinally _ blockNode statements last finalizer =>
    (keeps_stmts around statements).bind (fun _ all =>
      (keeps_block blockNode all).bind (fun _ first =>
        (keeps_stmts around finalizer).bind (fun _ all' =>
          (keeps_block last (all'.cons_mute rfl)).bind (fun _ third =>
            .pure ((first.join₂ third).cons_mute rfl)))))
  | .tryCatchFinally _ blockNode statements h last finalizer =>
    (keeps_stmts around statements).bind (fun _ all =>
      (keeps_block blockNode all).bind (fun _ first =>
        (keeps_handler around h).bind (fun _ second =>
          (keeps_stmts around finalizer).bind (fun _ all' =>
            (keeps_block last (all'.cons_mute rfl)).bind (fun _ third =>
              .pure ((first.join₃ second third).cons_mute rfl))))))
  | .function f => keeps_func around .declaration f
  | .class_ c => keeps_class around true c

theorem keeps_stmts (around : List Enclosure) : ∀ ss : List (Stmt Node Name),
    Returns (stmts special ss) (fun os => KeepsFunctions (Pieces.stmts around ss) (functionsAll os))
  | [] => .pure .nil
  | s :: rest =>
    (keeps_stmt around s).bind (fun _ first =>
      (keeps_stmts around rest).bind (fun _ others => .pure ((first.keep others).cons_mute rfl)))

theorem keeps_handler (around : List Enclosure) : ∀ h : Handler Node Name,
    Returns (handler special h) (fun o => KeepsFunctions (Pieces.handler around h) o.functions)
  | .mk _ b _ statements =>
    (keeps_optBinding around b).bind (fun _ binds =>
      (keeps_stmts around statements).bind (fun _ all =>
        (Returns.any _).bind (fun _ _ =>
          .pure ((binds.append (all.cons_mute rfl)).cons_mute rfl))))

theorem keeps_clauses (around : List Enclosure) : ∀ cs : List (Clause Node Name),
    Returns (clauses special cs)
      (fun found => KeepsFunctions (Pieces.clauses around cs) (functionsCases found.1))
  | [] => .pure .nil
  | .mk _ test statements :: rest =>
    (keeps_optExpr around test).bind (fun _ head =>
      (keeps_clauseStmts around statements).bind (fun _ all =>
        (keeps_clauses around rest).bind (fun _ others =>
          .pure ((head.append all).append others).assoc)))

theorem keeps_clauseStmts (around : List Enclosure) : ∀ ss : List (Stmt Node Name),
    Returns (clauseStmts special ss)
      (fun found => KeepsFunctions (Pieces.stmts around ss) (functionsAll found.1))
  | [] => .pure .nil
  | s :: rest =>
    (keeps_stmt around s).bind (fun _ first =>
      (Returns.any _).bind (fun _ _ =>
        (keeps_clauseStmts around rest).bind (fun _ others =>
          .pure ((first.keep others).cons_mute rfl))))

end

theorem keeps_item (around : List Enclosure) : ∀ i : Item Node Name,
    Returns (item special i) (fun o => KeepsFunctions (Pieces.item around i) o.functions)
  | .stmt s | .exportStmt s => (keeps_stmt around s).imp (fun _ keeps => keeps.cons_mute rfl)
  | .imports .. | .exportAll .. | .exportFrom .. => .pure .nil
  | .exportLocals _ specifiers => .pure (by
      have none := functionsAll_read (specifiers.map ExportSpecifier.id)
      have mute := Piece.forms_uses .read (specifiers.map ExportSpecifier.id)
      rw [List.map_map] at none mute
      rw [KeepsFunctions, functions_join]
      exact none ▸ mute ▸ Multiset.Rel.zero)
  | .exportDefaultFunction f => keeps_func around .declaration f
  | .exportDefaultClass c => keeps_class around true c
  | .exportDefaultExpr value => keeps_expr around value

theorem keeps_items (around : List Enclosure) : ∀ is : List (Item Node Name),
    Returns (items special is)
      (fun os => KeepsFunctions (is.flatMap (Pieces.item around)) (functionsAll os))
  | [] => .pure .nil
  | i :: rest =>
    (keeps_item around i).bind (fun _ first =>
      (keeps_items around rest).bind (fun _ others => .pure (first.keep others)))

/-- The functions in the outline of a program are those of the program. -/
theorem keeps_outline (p : NumberedProgram) : Returns (p.outline special) (fun outline =>
    Multiset.Rel FunctionForm.Leaves p.functions (functionsAll outline.statements)) := by
  cases p with
  | script node directives statements =>
    refine (keeps_stmts [.script directives] statements).bind (fun _ all =>
      (Returns.any _).bind (fun _ _ => .pure ?_))
    have pieces : NumberedProgram.pieces (.script node directives statements) =
        Pieces.stmts [.script directives] statements := Pieces.item_map_stmt _ statements
    rw [NumberedProgram.functions, pieces]
    exact all
  | module node directives is =>
    exact (keeps_items [.module] is).bind (fun _ all =>
      (Returns.any _).bind (fun _ _ => .pure all))

end Folding

end ScopeAnalysis
