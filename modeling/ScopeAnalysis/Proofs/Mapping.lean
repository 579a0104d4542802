import ScopeAnalysis.Program.Gathering
import ScopeAnalysis.Program.Mapping

/-!
# Laws of mapping

Mapping twice is mapping once by the composite, and the nodes of a mapped program are the mapped
nodes of the program, in the same order.
-/

namespace ScopeAnalysis

namespace Mapping

section Composition

variable {μ ν μ' ν' μ'' ν'' : Type} (m : Mapping μ ν μ' ν') (m' : Mapping μ' ν' μ'' ν'')

/-- The first mapping and then the second. -/
def comp : Mapping μ ν μ'' ν'' where
  node n := m'.node (m.node n)
  name id := m'.name (m.ident id)
  text t := m'.text (m.text t)
  flags n own := m'.flags (m.node n) (m.flags n own)

theorem comp_node (n : μ) : (m.comp m').node n = m'.node (m.node n) := rfl

theorem comp_text (t : ν) : (m.comp m').text t = m'.text (m.text t) := rfl

theorem comp_flags (n : μ) (own : FunctionFlags) :
    (m.comp m').flags n own = m'.flags (m.node n) (m.flags n own) := rfl

theorem comp_ident (id : Ident μ ν) : (m.comp m').ident id = m'.ident (m.ident id) := rfl

theorem optIdent_comp (id : Option (Ident μ ν)) :
    id.map (m.comp m').ident = (id.map m.ident).map m'.ident := by
  cases id <;> rfl

theorem optNode_comp (n : Option μ) :
    n.map (m.comp m').node = (n.map m.node).map m'.node := by
  cases n <;> rfl

theorem optText_comp (t : Option ν) :
    t.map (m.comp m').text = (t.map m.text).map m'.text := by
  cases t <;> rfl

theorem literal_comp (value : Literal ν) :
    (m.comp m').literal value = m'.literal (m.literal value) := by
  cases value <;> rfl

theorem directives_comp (ds : List (Directive μ ν)) :
    ds.map (m.comp m').directive = (ds.map m.directive).map m'.directive := by
  rw [List.map_map]
  rfl

attribute [local simp] comp_node comp_text comp_flags comp_ident optIdent_comp optNode_comp
  optText_comp literal_comp directives_comp

mutual

theorem expr_comp : ∀ e : Expr μ ν, (m.comp m').expr e = m'.expr (m.expr e)
  | .ident _ | .keyword _ _ | .hole _ => rfl
  | .literal _ value => by simp [expr]
  | .member _ object _ => by simp [expr, expr_comp object]
  | .delete _ operand | .unary _ _ operand | .spread _ operand => by
    simp [expr, expr_comp operand]
  | .yield _ operand => by simp [expr, optExpr_comp operand]
  | .array _ es => by simp [expr, exprs_comp es]
  | .object _ ps => by simp [expr, properties_comp ps]
  | .function g | .arrow g => by simp [expr, func_comp g]
  | .class_ c => by simp [expr, classTree_comp c]
  | .update _ _ _ operand => by simp [expr, target_comp operand]
  | .template _ tag parts => by simp [expr, optExpr_comp tag, exprs_comp parts]
  | .call _ callee arguments | .construct _ callee arguments => by
    simp [expr, expr_comp callee, exprs_comp arguments]
  | .index _ a b | .binary _ a _ b => by simp [expr, expr_comp a, expr_comp b]
  | .assign _ _ t value => by simp [expr, target_comp t, expr_comp value]
  | .conditional _ test yes no => by simp [expr, expr_comp test, expr_comp yes, expr_comp no]

theorem optExpr_comp : ∀ e : Option (Expr μ ν), (m.comp m').optExpr e = m'.optExpr (m.optExpr e)
  | none => rfl
  | some e => by simp [optExpr, expr_comp e]

theorem exprs_comp : ∀ es : List (Expr μ ν), (m.comp m').exprs es = m'.exprs (m.exprs es)
  | [] => rfl
  | e :: rest => by simp [exprs, expr_comp e, exprs_comp rest]

theorem property_comp : ∀ p : Property μ ν, (m.comp m').property p = m'.property (m.property p)
  | .shorthand _ _ => rfl
  | .keyed _ k value => by simp [property, key_comp k, expr_comp value]
  | .spread _ value => by simp [property, expr_comp value]
  | .method _ k g => by simp [property, key_comp k, func_comp g]

theorem properties_comp : ∀ ps : List (Property μ ν),
    (m.comp m').properties ps = m'.properties (m.properties ps)
  | [] => rfl
  | p :: rest => by simp [properties, property_comp p, properties_comp rest]

theorem members_comp : ∀ ms : List (Member μ ν),
    (m.comp m').members ms = m'.members (m.members ms)
  | [] => rfl
  | .mk _ _ _ k g :: rest => by simp [members, key_comp k, func_comp g, members_comp rest]

theorem key_comp : ∀ k : Key μ ν, (m.comp m').key k = m'.key (m.key k)
  | .ident _ | .string _ _ | .number _ _ => rfl
  | .computed _ value => by simp [key, expr_comp value]

theorem classTree_comp : ∀ c : Class μ ν, (m.comp m').classTree c = m'.classTree (m.classTree c)
  | .mk _ _ heritage ms => by simp [classTree, optExpr_comp heritage, members_comp ms]

theorem func_comp : ∀ g : Func μ ν, (m.comp m').func g = m'.func (m.func g)
  | .mk _ _ _ ps b => by simp [func, params_comp ps, body_comp b]

theorem params_comp : ∀ ps : Params μ ν, (m.comp m').params ps = m'.params (m.params ps)
  | .mk _ items rest => by simp [params, elements_comp items, optBinding_comp rest]

theorem body_comp : ∀ b : Body μ ν, (m.comp m').body b = m'.body (m.body b)
  | .block _ _ statements => by simp [body, stmts_comp statements]
  | .concise value => by simp [body, expr_comp value]

theorem binding_comp : ∀ b : Binding μ ν, (m.comp m').binding b = m'.binding (m.binding b)
  | .ident _ => rfl
  | .array _ slots rest => by simp [binding, bindingSlots_comp slots, optBinding_comp rest]
  | .object _ ps _ => by simp [binding, bindingProperties_comp ps]

theorem optBinding_comp : ∀ b : Option (Binding μ ν),
    (m.comp m').optBinding b = m'.optBinding (m.optBinding b)
  | none => rfl
  | some b => by simp [optBinding, binding_comp b]

theorem element_comp : ∀ e : BindingElement μ ν, (m.comp m').element e = m'.element (m.element e)
  | .mk _ _ b init => by simp [element, binding_comp b, optExpr_comp init]

theorem elements_comp : ∀ es : List (BindingElement μ ν),
    (m.comp m').elements es = m'.elements (m.elements es)
  | [] => rfl
  | e :: rest => by simp [elements, element_comp e, elements_comp rest]

theorem bindingSlots_comp : ∀ slots : List (Slot μ (BindingElement μ ν)),
    (m.comp m').bindingSlots slots = m'.bindingSlots (m.bindingSlots slots)
  | [] => rfl
  | .hole _ :: rest => by simp [bindingSlots, bindingSlots_comp rest]
  | .element e :: rest => by simp [bindingSlots, element_comp e, bindingSlots_comp rest]

theorem bindingProperty_comp : ∀ p : BindingProperty μ ν,
    (m.comp m').bindingProperty p = m'.bindingProperty (m.bindingProperty p)
  | .shorthand _ _ init => by simp [bindingProperty, optExpr_comp init]
  | .keyed _ k e => by simp [bindingProperty, key_comp k, element_comp e]

theorem bindingProperties_comp : ∀ ps : List (BindingProperty μ ν),
    (m.comp m').bindingProperties ps = m'.bindingProperties (m.bindingProperties ps)
  | [] => rfl
  | p :: rest => by simp [bindingProperties, bindingProperty_comp p, bindingProperties_comp rest]

theorem target_comp : ∀ t : Target μ ν, (m.comp m').target t = m'.target (m.target t)
  | .ident _ => rfl
  | .member _ object _ => by simp [target, expr_comp object]
  | .index _ object k => by simp [target, expr_comp object, expr_comp k]
  | .array _ slots rest => by simp [target, targetSlots_comp slots, optTarget_comp rest]
  | .object _ ps rest => by simp [target, targetProperties_comp ps, optTarget_comp rest]

theorem optTarget_comp : ∀ t : Option (Target μ ν),
    (m.comp m').optTarget t = m'.optTarget (m.optTarget t)
  | none => rfl
  | some t => by simp [optTarget, target_comp t]

theorem targetElement_comp : ∀ e : TargetElement μ ν,
    (m.comp m').targetElement e = m'.targetElement (m.targetElement e)
  | .mk _ t init => by simp [targetElement, target_comp t, optExpr_comp init]

theorem targetSlots_comp : ∀ slots : List (Slot μ (TargetElement μ ν)),
    (m.comp m').targetSlots slots = m'.targetSlots (m.targetSlots slots)
  | [] => rfl
  | .hole _ :: rest => by simp [targetSlots, targetSlots_comp rest]
  | .element e :: rest => by simp [targetSlots, targetElement_comp e, targetSlots_comp rest]

theorem targetProperty_comp : ∀ p : TargetProperty μ ν,
    (m.comp m').targetProperty p = m'.targetProperty (m.targetProperty p)
  | .shorthand _ _ init => by simp [targetProperty, optExpr_comp init]
  | .keyed _ k e => by simp [targetProperty, key_comp k, targetElement_comp e]

theorem targetProperties_comp : ∀ ps : List (TargetProperty μ ν),
    (m.comp m').targetProperties ps = m'.targetProperties (m.targetProperties ps)
  | [] => rfl
  | p :: rest => by simp [targetProperties, targetProperty_comp p, targetProperties_comp rest]

theorem stmt_comp : ∀ s : Stmt μ ν, (m.comp m').stmt s = m'.stmt (m.stmt s)
  | .empty _ | .debugger _ => rfl
  | .jump _ _ _ => by simp [stmt]
  | .expr _ value | .throw _ value => by simp [stmt, expr_comp value]
  | .ret _ value => by simp [stmt, optExpr_comp value]
  | .decl _ _ _ ds => by simp [stmt, elements_comp ds]
  | .block _ statements => by simp [stmt, stmts_comp statements]
  | .labeled _ _ s => by simp [stmt, stmt_comp s]
  | .function g => by simp [stmt, func_comp g]
  | .class_ c => by simp [stmt, classTree_comp c]
  | .ifThen _ a s | .whileLoop _ a s | .doLoop _ s a | .withObject _ a s => by
    simp [stmt, expr_comp a, stmt_comp s]
  | .ifElse _ test yes no => by simp [stmt, expr_comp test, stmt_comp yes, stmt_comp no]
  | .forLoop _ init test update s => by
    simp [stmt, optExpr_comp init, optExpr_comp test, optExpr_comp update, stmt_comp s]
  | .forDecl _ _ _ ds test update s => by
    simp [stmt, elements_comp ds, optExpr_comp test, optExpr_comp update, stmt_comp s]
  | .forEach _ _ t collection s => by
    simp [stmt, target_comp t, expr_comp collection, stmt_comp s]
  | .forEachDecl _ _ _ _ ds collection s => by
    simp [stmt, elements_comp ds, expr_comp collection, stmt_comp s]
  | .switch _ discriminant _ cs => by simp [stmt, expr_comp discriminant, clauses_comp cs]
  | .tryCatch _ _ statements h => by simp [stmt, stmts_comp statements, handler_comp h]
  | .tryFinally _ _ statements _ finalizer => by
    simp [stmt, stmts_comp statements, stmts_comp finalizer]
  | .tryCatchFinally _ _ statements h _ finalizer => by
    simp [stmt, stmts_comp statements, handler_comp h, stmts_comp finalizer]

theorem stmts_comp : ∀ ss : List (Stmt μ ν), (m.comp m').stmts ss = m'.stmts (m.stmts ss)
  | [] => rfl
  | s :: rest => by simp [stmts, stmt_comp s, stmts_comp rest]

theorem handler_comp : ∀ h : Handler μ ν, (m.comp m').handler h = m'.handler (m.handler h)
  | .mk _ b _ statements => by simp [handler, optBinding_comp b, stmts_comp statements]

theorem clauses_comp : ∀ cs : List (Clause μ ν),
    (m.comp m').clauses cs = m'.clauses (m.clauses cs)
  | [] => rfl
  | .mk _ test statements :: rest => by
    simp [clauses, optExpr_comp test, stmts_comp statements, clauses_comp rest]

end

theorem importSpecifier_comp (s : ImportSpecifier μ ν) :
    (m.comp m').importSpecifier s = m'.importSpecifier (m.importSpecifier s) := by
  simp [importSpecifier]

theorem item_comp (i : Item μ ν) : (m.comp m').item i = m'.item (m.item i) := by
  cases i with
  | stmt s | exportStmt s => simp [item, stmt_comp]
  | imports node source defaultBinding nameSpace named =>
    simp [item, Function.comp_def, importSpecifier_comp]
  | exportAll node source => rfl
  | exportFrom node source names => simp [item, Function.comp_def, reexportSpecifier]
  | exportLocals node names => simp [item, Function.comp_def, exportSpecifier]
  | exportDefaultFunction g => simp [item, func_comp]
  | exportDefaultClass c => simp [item, classTree_comp]
  | exportDefaultExpr value => simp [item, expr_comp]

end Composition

section Nodes

open Gathering (marks)

variable {μ ν μ' ν' : Type} (m : Mapping μ ν μ' ν')

theorem marks_ident (id : Ident μ ν) : marks.ident (m.ident id) = (marks.ident id).map m.node := rfl

theorem marks_mark (n : μ) :
    (marks (ν := ν')).mark (m.node n) = ((marks (ν := ν)).mark n).map m.node := rfl

theorem marks_method (kind : MethodKind) (k : Key μ ν) : marks.method kind k = [] := rfl

theorem marks_optIdent : ∀ id : Option (Ident μ ν),
    marks.optIdent (id.map m.ident) = (marks.optIdent id).map m.node
  | none => rfl
  | some _ => rfl

theorem marks_directives (ds : List (Directive μ ν)) :
    marks.directives (ds.map m.directive) = (marks.directives ds).map m.node := by
  induction ds with
  | nil => rfl
  | cons d rest ih => exact congrArg (m.node d.node :: ·) ih

theorem marks_bindingHoles (slots : List (Slot μ (BindingElement μ ν))) :
    (marks (ν := ν')).holes (m.bindingSlots slots) =
      ((marks (ν := ν)).holes slots).map m.node := by
  induction slots with
  | nil => rfl
  | cons slot rest ih =>
    cases slot with
    | hole n => exact congrArg (m.node n :: ·) ih
    | element _ => exact ih

theorem marks_targetHoles (slots : List (Slot μ (TargetElement μ ν))) :
    (marks (ν := ν')).holes (m.targetSlots slots) =
      ((marks (ν := ν)).holes slots).map m.node := by
  induction slots with
  | nil => rfl
  | cons slot rest ih =>
    cases slot with
    | hole n => exact congrArg (m.node n :: ·) ih
    | element _ => exact ih

attribute [local simp] marks_ident marks_mark marks_method marks_optIdent marks_directives
  marks_bindingHoles marks_targetHoles

mutual

theorem marks_expr : ∀ e : Expr μ ν, marks.expr (m.expr e) = (marks.expr e).map m.node
  | .ident _ | .keyword _ _ | .hole _ | .literal _ _ => rfl
  | .member _ object _ => by simp [expr, marks_expr object]
  | .delete _ operand | .unary _ _ operand | .spread _ operand => by
    simp [expr, marks_expr operand]
  | .yield _ operand => by simp [expr, marks_optExpr operand]
  | .array _ es => by simp [expr, marks_exprs es]
  | .object _ ps => by simp [expr, marks_properties ps]
  | .function g | .arrow g => by simp [expr, marks_func g]
  | .class_ c => by simp [expr, marks_classTree c]
  | .update _ _ _ operand => by simp [expr, marks_target operand]
  | .template _ tag parts => by simp [expr, marks_optExpr tag, marks_exprs parts]
  | .call _ callee arguments | .construct _ callee arguments => by
    simp [expr, marks_expr callee, marks_exprs arguments]
  | .index _ a b | .binary _ a _ b => by simp [expr, marks_expr a, marks_expr b]
  | .assign _ _ t value => by simp [expr, marks_target t, marks_expr value]
  | .conditional _ test yes no => by
    simp [expr, marks_expr test, marks_expr yes, marks_expr no]

theorem marks_optExpr : ∀ e : Option (Expr μ ν),
    marks.optExpr (m.optExpr e) = (marks.optExpr e).map m.node
  | none => rfl
  | some e => by simp [optExpr, marks_expr e]

theorem marks_exprs : ∀ es : List (Expr μ ν),
    marks.exprs (m.exprs es) = (marks.exprs es).map m.node
  | [] => rfl
  | e :: rest => by simp [exprs, marks_expr e, marks_exprs rest]

theorem marks_property : ∀ p : Property μ ν,
    marks.property (m.property p) = (marks.property p).map m.node
  | .shorthand _ _ => rfl
  | .keyed _ k value => by simp [property, marks_key k, marks_expr value]
  | .spread _ value => by simp [property, marks_expr value]
  | .method _ k g => by simp [property, marks_key k, marks_func g]

theorem marks_properties : ∀ ps : List (Property μ ν),
    marks.properties (m.properties ps) = (marks.properties ps).map m.node
  | [] => rfl
  | p :: rest => by simp [properties, marks_property p, marks_properties rest]

theorem marks_members : ∀ ms : List (Member μ ν),
    marks.members (m.members ms) = (marks.members ms).map m.node
  | [] => rfl
  | .mk _ _ _ k g :: rest => by
    simp [members, marks_key k, marks_func g, marks_members rest]

theorem marks_key : ∀ k : Key μ ν, marks.key (m.key k) = (marks.key k).map m.node
  | .ident _ | .string _ _ | .number _ _ => rfl
  | .computed _ value => by simp [key, marks_expr value]

theorem marks_classTree : ∀ c : Class μ ν,
    marks.classTree (m.classTree c) = (marks.classTree c).map m.node
  | .mk _ _ heritage ms => by simp [classTree, marks_optExpr heritage, marks_members ms]

theorem marks_func : ∀ g : Func μ ν, marks.func (m.func g) = (marks.func g).map m.node
  | .mk _ _ _ ps b => by simp [func, marks_params ps, marks_body b]

theorem marks_params : ∀ ps : Params μ ν, marks.params (m.params ps) = (marks.params ps).map m.node
  | .mk none items rest | .mk (some _) items rest => by
    simp [params, Gathering.params, marks_elements items, marks_optBinding rest]

theorem marks_body : ∀ b : Body μ ν, marks.body (m.body b) = (marks.body b).map m.node
  | .block _ _ statements => by simp [body, marks_stmts statements]
  | .concise value => by simp [body, marks_expr value]

theorem marks_binding : ∀ b : Binding μ ν,
    marks.binding (m.binding b) = (marks.binding b).map m.node
  | .ident _ => rfl
  | .array _ slots rest => by simp [binding, marks_bindingSlots slots, marks_optBinding rest]
  | .object _ ps _ => by simp [binding, marks_bindingProperties ps]

theorem marks_optBinding : ∀ b : Option (Binding μ ν),
    marks.optBinding (m.optBinding b) = (marks.optBinding b).map m.node
  | none => rfl
  | some b => by simp [optBinding, marks_binding b]

theorem marks_element : ∀ e : BindingElement μ ν,
    marks.bindingElement (m.element e) = (marks.bindingElement e).map m.node
  | .mk _ .nameFirst b init | .mk _ .valueFirst b init => by
    simp [element, Gathering.bindingElement, marks_binding b, marks_optExpr init]

theorem marks_elements : ∀ es : List (BindingElement μ ν),
    marks.bindingElements (m.elements es) = (marks.bindingElements es).map m.node
  | [] => rfl
  | e :: rest => by simp [elements, marks_element e, marks_elements rest]

theorem marks_bindingSlots : ∀ slots : List (Slot μ (BindingElement μ ν)),
    marks.bindingSlots (m.bindingSlots slots) = (marks.bindingSlots slots).map m.node
  | [] => rfl
  | .hole _ :: rest => by simp [bindingSlots, marks_bindingSlots rest]
  | .element e :: rest => by simp [bindingSlots, marks_element e, marks_bindingSlots rest]

theorem marks_bindingProperty : ∀ p : BindingProperty μ ν,
    marks.bindingProperty (m.bindingProperty p) = (marks.bindingProperty p).map m.node
  | .shorthand _ _ init => by simp [bindingProperty, marks_optExpr init]
  | .keyed _ k e => by simp [bindingProperty, marks_key k, marks_element e]

theorem marks_bindingProperties : ∀ ps : List (BindingProperty μ ν),
    marks.bindingProperties (m.bindingProperties ps) = (marks.bindingProperties ps).map m.node
  | [] => rfl
  | p :: rest => by
    simp [bindingProperties, marks_bindingProperty p, marks_bindingProperties rest]

theorem marks_target : ∀ t : Target μ ν, marks.target (m.target t) = (marks.target t).map m.node
  | .ident _ => rfl
  | .member _ object _ => by simp [target, marks_expr object]
  | .index _ object k => by simp [target, marks_expr object, marks_expr k]
  | .array _ slots rest => by simp [target, marks_targetSlots slots, marks_optTarget rest]
  | .object _ ps rest => by simp [target, marks_targetProperties ps, marks_optTarget rest]

theorem marks_optTarget : ∀ t : Option (Target μ ν),
    marks.optTarget (m.optTarget t) = (marks.optTarget t).map m.node
  | none => rfl
  | some t => by simp [optTarget, marks_target t]

theorem marks_targetElement : ∀ e : TargetElement μ ν,
    marks.targetElement (m.targetElement e) = (marks.targetElement e).map m.node
  | .mk _ t init => by simp [targetElement, marks_target t, marks_optExpr init]

theorem marks_targetSlots : ∀ slots : List (Slot μ (TargetElement μ ν)),
    marks.targetSlots (m.targetSlots slots) = (marks.targetSlots slots).map m.node
  | [] => rfl
  | .hole _ :: rest => by simp [targetSlots, marks_targetSlots rest]
  | .element e :: rest => by simp [targetSlots, marks_targetElement e, marks_targetSlots rest]

theorem marks_targetProperty : ∀ p : TargetProperty μ ν,
    marks.targetProperty (m.targetProperty p) = (marks.targetProperty p).map m.node
  | .shorthand _ _ init => by simp [targetProperty, marks_optExpr init]
  | .keyed _ k e => by simp [targetProperty, marks_key k, marks_targetElement e]

theorem marks_targetProperties : ∀ ps : List (TargetProperty μ ν),
    marks.targetProperties (m.targetProperties ps) = (marks.targetProperties ps).map m.node
  | [] => rfl
  | p :: rest => by
    simp [targetProperties, marks_targetProperty p, marks_targetProperties rest]

theorem marks_stmt : ∀ s : Stmt μ ν, marks.stmt (m.stmt s) = (marks.stmt s).map m.node
  | .empty _ | .debugger _ | .jump _ _ _ => rfl
  | .expr _ value | .throw _ value => by simp [stmt, marks_expr value]
  | .ret _ value => by simp [stmt, marks_optExpr value]
  | .decl _ _ _ ds => by simp [stmt, marks_elements ds]
  | .block _ statements => by simp [stmt, marks_stmts statements]
  | .labeled _ _ s => by simp [stmt, marks_stmt s]
  | .function g => by simp [stmt, marks_func g]
  | .class_ c => by simp [stmt, marks_classTree c]
  | .ifThen _ a s | .whileLoop _ a s | .doLoop _ s a | .withObject _ a s => by
    simp [stmt, marks_expr a, marks_stmt s]
  | .ifElse _ test yes no => by simp [stmt, marks_expr test, marks_stmt yes, marks_stmt no]
  | .forLoop _ init test update s => by
    simp [stmt, marks_optExpr init, marks_optExpr test, marks_optExpr update, marks_stmt s]
  | .forDecl _ _ _ ds test update s => by
    simp [stmt, marks_elements ds, marks_optExpr test, marks_optExpr update, marks_stmt s]
  | .forEach _ _ t collection s => by
    simp [stmt, marks_target t, marks_expr collection, marks_stmt s]
  | .forEachDecl _ _ _ _ ds collection s => by
    simp [stmt, marks_elements ds, marks_expr collection, marks_stmt s]
  | .switch _ discriminant _ cs => by simp [stmt, marks_expr discriminant, marks_clauses cs]
  | .tryCatch _ _ statements (.mk _ b _ handled) => by
    simp [stmt, handler, marks_stmts statements, marks_optBinding b, marks_stmts handled]
  | .tryFinally _ _ statements _ finalizer => by
    simp [stmt, marks_stmts statements, marks_stmts finalizer]
  | .tryCatchFinally _ _ statements (.mk _ b _ handled) _ finalizer => by
    simp [stmt, handler, marks_stmts statements, marks_optBinding b, marks_stmts handled,
      marks_stmts finalizer]

theorem marks_stmts : ∀ ss : List (Stmt μ ν), marks.stmts (m.stmts ss) = (marks.stmts ss).map m.node
  | [] => rfl
  | s :: rest => by simp [stmts, marks_stmt s, marks_stmts rest]

theorem marks_clauses : ∀ cs : List (Clause μ ν),
    marks.clauses (m.clauses cs) = (marks.clauses cs).map m.node
  | [] => rfl
  | .mk _ test statements :: rest => by
    simp [clauses, marks_optExpr test, marks_stmts statements, marks_clauses rest]

end

theorem marks_importSpecifiers (ss : List (ImportSpecifier μ ν)) :
    marks.importSpecifiers (ss.map m.importSpecifier) =
      (marks.importSpecifiers ss).map m.node := by
  induction ss with
  | nil => rfl
  | cons s rest ih =>
    exact congrArg (fun others => m.node s.node :: m.node s.binding.node :: others) ih

theorem marks_reexportSpecifiers (ss : List (ReexportSpecifier μ ν)) :
    marks.reexportSpecifiers (ss.map m.reexportSpecifier) =
      (marks.reexportSpecifiers ss).map m.node := by
  induction ss with
  | nil => rfl
  | cons s rest ih => exact congrArg (m.node s.node :: ·) ih

theorem marks_exportSpecifiers (ss : List (ExportSpecifier μ ν)) :
    marks.exportSpecifiers (ss.map m.exportSpecifier) =
      (marks.exportSpecifiers ss).map m.node := by
  induction ss with
  | nil => rfl
  | cons s rest ih =>
    exact congrArg (fun others => m.node s.node :: m.node s.id.node :: others) ih

theorem marks_item (i : Item μ ν) : marks.item (m.item i) = (marks.item i).map m.node := by
  cases i with
  | stmt s | exportStmt s => simp [item, marks_stmt]
  | imports node source defaultBinding nameSpace named => simp [item, marks_importSpecifiers]
  | exportAll node source => rfl
  | exportFrom node source names => simp [item, marks_reexportSpecifiers]
  | exportLocals node names => simp [item, marks_exportSpecifiers]
  | exportDefaultFunction g => simp [item, marks_func]
  | exportDefaultClass c => simp [item, marks_classTree]
  | exportDefaultExpr value => simp [item, marks_expr]

theorem marks_items (is : List (Item μ ν)) :
    marks.items (is.map m.item) = (marks.items is).map m.node := by
  induction is with
  | nil => rfl
  | cons i rest ih =>
    rw [List.map_cons, Gathering.items, Gathering.items, marks_item, ih, List.map_append]

end Nodes

end Mapping

theorem Program.map_comp {μ ν μ' ν' μ'' ν'' : Type} (m : Mapping μ ν μ' ν')
    (m' : Mapping μ' ν' μ'' ν'') (p : Program μ ν) : p.map (m.comp m') = (p.map m).map m' := by
  cases p with
  | script node directives statements =>
    rw [map, Mapping.stmts_comp, Mapping.directives_comp]
    rfl
  | module node directives items =>
    rw [map, funext (Mapping.item_comp m m'), Mapping.directives_comp, ← Function.comp_def,
      ← List.map_map]
    rfl

/-- A mapping keeps the order of the nodes. -/
theorem Program.nodes_map {μ ν μ' ν' : Type} (m : Mapping μ ν μ' ν') (p : Program μ ν) :
    (p.map m).nodes = p.nodes.map m.node := by
  cases p with
  | script node directives statements =>
    simp [map, nodes, Mapping.marks_stmts, Mapping.marks_directives, Mapping.marks_mark]
  | module node directives items =>
    simp [map, nodes, Mapping.marks_items, Mapping.marks_directives, Mapping.marks_mark]

end ScopeAnalysis
