import ScopeAnalysis.Proofs.Grammar.FoldNesting

/-!
# Direct calls of `eval`

A call is a direct call of `eval` if its callee is the bare identifier. The callees of such calls
are read off the syntax, wherever a call stands: in arguments, default values, computed keys, heads
of loops, heritage or the values of assignments. In an outline each of them stands at the head of
an outline that is marked. The main statement is that the marks of an outline are those of the
syntax.
-/

namespace ScopeAnalysis

/-- The callee of a call, if it makes the call a direct call of `eval`. -/
def Expr.evalCallee (eval : Name) : Expr Node Name → List Occurrence
  | .ident id => if id.name = eval then [id] else []
  | _ => []

namespace EvalCalls

variable (eval : Name)

mutual

def expr : Expr Node Name → List Occurrence
  | .ident _ | .literal _ _ | .keyword _ _ | .hole _ => []
  | .template _ tag parts => optExpr tag ++ exprs parts
  | .array _ elements => exprs elements
  | .object _ ps => properties ps
  | .member _ object _ => expr object
  | .index _ object k => expr object ++ expr k
  | .call _ callee arguments => callee.evalCallee eval ++ (expr callee ++ exprs arguments)
  | .construct _ callee arguments => expr callee ++ exprs arguments
  | .function f => func f
  | .arrow f => func f
  | .class_ c => classCalls c
  | .assign _ _ t value => target t ++ expr value
  | .binary _ left _ right => expr left ++ expr right
  | .conditional _ test yes no => expr test ++ (expr yes ++ expr no)
  | .delete _ operand => expr operand
  | .unary _ _ operand => expr operand
  | .update _ _ _ operand => target operand
  | .yield _ operand => optExpr operand
  | .spread _ operand => expr operand

def optExpr : Option (Expr Node Name) → List Occurrence
  | none => []
  | some e => expr e

def exprs : List (Expr Node Name) → List Occurrence
  | [] => []
  | e :: rest => expr e ++ exprs rest

def properties : List (Property Node Name) → List Occurrence
  | [] => []
  | .keyed _ k value :: rest => key k ++ expr value ++ properties rest
  | .shorthand _ _ :: rest => properties rest
  | .spread _ value :: rest => expr value ++ properties rest
  | .method _ k f :: rest => key k ++ func f ++ properties rest

def members : List (Member Node Name) → List Occurrence
  | [] => []
  | .mk _ _ _ k f :: rest => key k ++ func f ++ members rest

def key : Key Node Name → List Occurrence
  | .computed _ value => expr value
  | .ident _ | .string _ _ | .number _ _ => []

def classCalls : Class Node Name → List Occurrence
  | .mk _ _ heritage ms => optExpr heritage ++ members ms

def func : Func Node Name → List Occurrence
  | .mk _ _ _ ps b => params ps ++ body b

def params : Params Node Name → List Occurrence
  | .mk _ items rest => elements items ++ optBinding rest

def body : Body Node Name → List Occurrence
  | .block _ _ statements => stmts statements
  | .concise value => expr value

def binding : Binding Node Name → List Occurrence
  | .ident _ => []
  | .array _ slots rest => bindingSlots slots ++ optBinding rest
  | .object _ ps _ => bindingProperties ps

def optBinding : Option (Binding Node Name) → List Occurrence
  | none => []
  | some b => binding b

def element : BindingElement Node Name → List Occurrence
  | .mk _ _ b init => binding b ++ optExpr init

def elements : List (BindingElement Node Name) → List Occurrence
  | [] => []
  | e :: rest => element e ++ elements rest

def bindingSlots : List (Slot Node (BindingElement Node Name)) → List Occurrence
  | [] => []
  | .hole _ :: rest => bindingSlots rest
  | .element e :: rest => element e ++ bindingSlots rest

def bindingProperty : BindingProperty Node Name → List Occurrence
  | .shorthand _ _ init => optExpr init
  | .keyed _ k e => key k ++ element e

def bindingProperties : List (BindingProperty Node Name) → List Occurrence
  | [] => []
  | p :: rest => bindingProperty p ++ bindingProperties rest

def target : Target Node Name → List Occurrence
  | .ident _ => []
  | .member _ object _ => expr object
  | .index _ object k => expr object ++ expr k
  | .array _ slots rest => targetSlots slots ++ optTarget rest
  | .object _ ps rest => targetProperties ps ++ optTarget rest

def optTarget : Option (Target Node Name) → List Occurrence
  | none => []
  | some t => target t

def targetElement : TargetElement Node Name → List Occurrence
  | .mk _ t init => target t ++ optExpr init

def targetSlots : List (Slot Node (TargetElement Node Name)) → List Occurrence
  | [] => []
  | .hole _ :: rest => targetSlots rest
  | .element e :: rest => targetElement e ++ targetSlots rest

def targetProperty : TargetProperty Node Name → List Occurrence
  | .shorthand _ _ init => optExpr init
  | .keyed _ k e => key k ++ targetElement e

def targetProperties : List (TargetProperty Node Name) → List Occurrence
  | [] => []
  | p :: rest => targetProperty p ++ targetProperties rest

def stmt : Stmt Node Name → List Occurrence
  | .expr _ value => expr value
  | .decl _ _ _ ds => elements ds
  | .block _ statements => stmts statements
  | .empty _ | .debugger _ | .jump _ _ _ => []
  | .labeled _ _ s => stmt s
  | .ifThen _ test yes => expr test ++ stmt yes
  | .ifElse _ test yes no => expr test ++ (stmt yes ++ stmt no)
  | .forLoop _ init test update s =>
    optExpr init ++ (optExpr test ++ (optExpr update ++ stmt s))
  | .forDecl _ _ _ ds test update s =>
    elements ds ++ (optExpr test ++ (optExpr update ++ stmt s))
  | .forEach _ _ t collection s => target t ++ (expr collection ++ stmt s)
  | .forEachDecl _ _ _ _ ds collection s => elements ds ++ (expr collection ++ stmt s)
  | .whileLoop _ test s => expr test ++ stmt s
  | .doLoop _ s test => stmt s ++ expr test
  | .ret _ value => optExpr value
  | .throw _ value => expr value
  | .withObject _ object s => expr object ++ stmt s
  | .switch _ discriminant _ cs => expr discriminant ++ clauses cs
  | .tryCatch _ _ statements h => stmts statements ++ handler h
  | .tryFinally _ _ statements _ finalizer => stmts statements ++ stmts finalizer
  | .tryCatchFinally _ _ statements h _ finalizer =>
    stmts statements ++ (handler h ++ stmts finalizer)
  | .function f => func f
  | .class_ c => classCalls c

def stmts : List (Stmt Node Name) → List Occurrence
  | [] => []
  | s :: rest => stmt s ++ stmts rest

def handler : Handler Node Name → List Occurrence
  | .mk _ b _ statements => optBinding b ++ stmts statements

def clauses : List (Clause Node Name) → List Occurrence
  | [] => []
  | .mk _ test statements :: rest => optExpr test ++ stmts statements ++ clauses rest

end

def item : Item Node Name → List Occurrence
  | .stmt s | .exportStmt s => stmt eval s
  | .imports .. | .exportAll .. | .exportFrom .. | .exportLocals .. => []
  | .exportDefaultFunction f => func eval f
  | .exportDefaultClass c => classCalls eval c
  | .exportDefaultExpr value => expr eval value

end EvalCalls

/-- The callees of all direct calls of `eval` in a program. -/
def NumberedProgram.evalCallees (eval : Name) : NumberedProgram → List Occurrence
  | .script _ _ statements => EvalCalls.stmts eval statements
  | .module _ _ items => items.flatMap (EvalCalls.item eval)

namespace Outline

/-- The identifier that is read first in an outline, if it starts with one. -/
def firstRead? : Outline → Option Occurrence
  | .read id => some id
  | .union (.read id :: _) => some id
  | _ => none

/-- Whether binding runs code, as far as that is known before it is walked. -/
def runsCode (o : Outline) : Bool :=
  match o.boundNames with
  | .ok bound => bound.evaluates
  | .error _ => true

end Outline

def ParamOutline.runsCode : ParamOutline → Bool
  | .mk _ b => b.runsCode

namespace Outline

mutual

/-- What is read first under each mark of a direct call of `eval`, where it is walked. -/
def callees : Outline → List (Option Occurrence)
  | .nothing | .binding _ | .target _ | .read _ | .delete _ | .update _ | .imports _ => []
  | .evaluated inner => callees inner
  | .union parts => calleesAll parts
  | .directEval call => call.firstRead? :: callees call
  | .assign _ t value => callees t ++ callees value
  | .decl _ declarators => calleesDeclarators declarators
  | .block _ _ statements => calleesAll statements
  | .ifElse test _ yes _ no => callees test ++ (callees yes ++ callees no)
  | .forLoop _ _ init test step body =>
    callees init ++ (callees test ++ (callees step ++ callees body))
  | .forEach _ _ head collection body => callees head ++ (callees collection ++ callees body)
  | .switch _ _ discriminant cases => callees discriminant ++ calleesCases cases
  | .handler _ _ b _ _ statements => callees b ++ calleesAll statements
  | .withObject _ object body => callees object ++ callees body
  | .function _ _ _ params body =>
    (if params.any ParamOutline.runsCode then calleesParams params else []) ++ calleesBody body
  | .class_ _ _ _ heritage elements => callees heritage ++ calleesAll elements

def calleesAll : List Outline → List (Option Occurrence)
  | [] => []
  | o :: rest => callees o ++ calleesAll rest

def calleesDeclarators : List DeclaratorOutline → List (Option Occurrence)
  | [] => []
  | .mk b _ init :: rest => callees b ++ callees init ++ calleesDeclarators rest

def calleesCases : List CaseOutline → List (Option Occurrence)
  | [] => []
  | .mk test statements :: rest => callees test ++ calleesAll statements ++ calleesCases rest

def calleesParams : List ParamOutline → List (Option Occurrence)
  | [] => []
  | .mk _ b :: rest => callees b ++ calleesParams rest

def calleesBody : BodyOutline → List (Option Occurrence)
  | .block _ _ statements => calleesAll statements
  | .concise value => callees value

end

theorem calleesAll_append (os rest : List Outline) :
    calleesAll (os ++ rest) = calleesAll os ++ calleesAll rest := by
  induction os with
  | nil => rfl
  | cons o os ih => rw [List.cons_append, calleesAll, calleesAll, ih, List.append_assoc]

theorem calleesParams_append (ps rest : List ParamOutline) :
    calleesParams (ps ++ rest) = calleesParams ps ++ calleesParams rest := by
  induction ps with
  | nil => rfl
  | cons p ps ih =>
    obtain ⟨node, b⟩ := p
    rw [List.cons_append, calleesParams, calleesParams, ih, List.append_assoc]

theorem callees_of_isNothing {o : Outline} (nothing : o.isNothing = true) : callees o = [] := by
  cases o with
  | nothing => rfl
  | _ => cases nothing

theorem calleesAll_filter (os : List Outline) :
    calleesAll (os.filter (fun o => !o.isNothing)) = calleesAll os := by
  induction os with
  | nil => rfl
  | cons o rest ih =>
    cases nothing : o.isNothing with
    | true => simp [nothing, calleesAll, callees_of_isNothing nothing, ih]
    | false => simp [nothing, calleesAll, ih]

theorem callees_join (os : List Outline) : callees (join os) = calleesAll os := by
  rw [← calleesAll_filter os, join]
  split <;> simp [*, callees, calleesAll]

theorem runsCode_evaluated (o : Outline) : (Outline.evaluated o).runsCode = true := by
  rw [runsCode, boundNames]
  cases o.boundNames <;> rfl

theorem runsCode_of_boundNamesAll (os : List Outline) : (match boundNamesAll os with
    | .ok bound => bound.evaluates
    | .error _ => true) = os.any runsCode := by
  induction os with
  | nil => rfl
  | cons o rest ih =>
    rw [List.any_cons, ← ih, boundNamesAll, runsCode]
    cases o.boundNames with
    | error refusal => rfl
    | ok first =>
      cases boundNamesAll rest with
      | error refusal => exact (Bool.or_true _).symm
      | ok others => rfl

theorem runsCode_join (os : List Outline) : (join os).runsCode = os.any runsCode := by
  rw [runsCode, boundNames_join]
  exact runsCode_of_boundNamesAll os

/-- Where binding runs no code, no call is marked. -/
def RunsMarked (o : Outline) : Prop := o.runsCode = false → o.callees = []

theorem RunsMarked.evaluated (o : Outline) : RunsMarked (.evaluated o) := by
  rw [RunsMarked, runsCode_evaluated]
  nofun

theorem RunsMarked.join {os : List Outline} (all : ∀ o ∈ os, RunsMarked o) :
    RunsMarked (Outline.join os) := by
  intro quiet
  rw [callees_join]
  rw [runsCode_join] at quiet
  induction os with
  | nil => rfl
  | cons o rest ih =>
    rw [List.any_cons, Bool.or_eq_false_iff] at quiet
    rw [calleesAll, all o (by simp) quiet.1, ih (fun o member => all o (by simp [member])) quiet.2]
    rfl

/-- The marks of an outline are those of the given callees. -/
def Calls (cs : List Occurrence) (o : Outline) : Prop := o.callees.Perm (cs.map some)

def CallsAll (cs : List Occurrence) (os : List Outline) : Prop :=
  (calleesAll os).Perm (cs.map some)

/-- Two lists of marks are those of two lists of callees. -/
theorem perm_both {marks marks' : List (Option Occurrence)} {cs ds : List Occurrence}
    (first : marks.Perm (cs.map some)) (second : marks'.Perm (ds.map some)) :
    (marks ++ marks').Perm ((cs ++ ds).map some) := by
  rw [List.map_append]
  exact first.append second

theorem CallsAll.join {cs : List Occurrence} {os : List Outline} (all : CallsAll cs os) :
    Calls cs (Outline.join os) := by
  rw [Calls, callees_join]
  exact all

theorem Calls.cons {cs ds : List Occurrence} {o : Outline} {os : List Outline}
    (first : Calls cs o) (others : CallsAll ds os) : CallsAll (cs ++ ds) (o :: os) :=
  perm_both first others

theorem Calls.join₂ {cs ds : List Occurrence} {o o' : Outline} (first : Calls cs o)
    (second : Calls ds o') : Calls (cs ++ ds) (Outline.join [o, o']) := by
  rw [Calls, callees_join, calleesAll, calleesAll, calleesAll, List.append_nil]
  exact perm_both first second

theorem Calls.join₃ {cs ds es : List Occurrence} {o o' o'' : Outline} (first : Calls cs o)
    (second : Calls ds o') (third : Calls es o'') :
    Calls (cs ++ (ds ++ es)) (Outline.join [o, o', o'']) := by
  rw [Calls, callees_join, calleesAll, calleesAll, calleesAll, calleesAll, List.append_nil]
  exact perm_both first (perm_both second third)

theorem firstRead?_join (id : Occurrence) (os : List Outline) :
    firstRead? (join (.read id :: os)) = some id := by
  have kept : (Outline.read id).isNothing = false := rfl
  rw [join, List.filter_cons, kept, if_pos (by rfl)]
  cases os.filter (fun o => !o.isNothing) <;> rfl

/-- A call that is marked starts with its callee. -/
theorem CallsAll.directEval {cs : List Occurrence} {id : Occurrence} {os : List Outline}
    (all : CallsAll cs (.read id :: os)) :
    Calls (id :: cs) (.directEval (Outline.join (.read id :: os))) := by
  rw [Calls, callees, firstRead?_join, List.map_cons]
  exact List.Perm.cons (some id) all.join

theorem CallsAll.keep {cs ds : List Occurrence} {o : Outline} {os : List Outline}
    (first : Calls cs o) (others : CallsAll ds os) : CallsAll (cs ++ ds) (Folding.keep o os) := by
  have both := perm_both first others
  unfold Folding.keep
  split
  next nothing =>
    rw [callees_of_isNothing nothing] at both
    exact both
  next => exact both

theorem CallsAll.snoc {cs ds : List Occurrence} {os : List Outline} {o : Outline}
    (all : CallsAll cs os) (last : Calls ds o) : CallsAll (cs ++ ds) (os ++ [o]) := by
  rw [CallsAll, calleesAll_append, calleesAll, calleesAll, List.append_nil]
  exact perm_both all last

/-- What is marked as evaluated only if it concerns names. -/
theorem Calls.member {cs : List Occurrence} {o : Outline} (value : Calls cs o) :
    Calls cs (if o.isNothing then .nothing else .evaluated o) := by
  split
  next nothing =>
    rw [Calls, callees_of_isNothing nothing] at value
    exact value
  next => exact value

end Outline

namespace Folding

open Outline

/-- Members with the marks of the given callees, in any order. -/
structure GathersCalls (cs : List Occurrence) (parts : List Part) : Prop where
  apart : Apart parts
  calls : CallsAll cs (parts.map Part.outline)

namespace GathersCalls

variable {cs ds es : List Occurrence} {parts : List Part} {o : Outline}

theorem nil : GathersCalls [] [] := ⟨.nil, .refl _⟩

/-- An accessor that joins an earlier one moves in front of what is between them. -/
theorem addPart (gathers : GathersCalls cs parts) (slot : Option (Bool × Name))
    (value : Calls ds o) : GathersCalls (cs ++ ds) (addPart slot o parts) := by
  have both := perm_both gathers.calls value
  obtain ⟨apart, behind | ⟨before, part, after, rfl, merged⟩⟩ := addPart_cases gathers.apart slot o
  · refine ⟨apart, ?_⟩
    rw [behind, List.map_append]
    exact gathers.calls.snoc value
  · refine ⟨apart, .trans ?_ both⟩
    simp only [merged, List.map_append, List.map_cons, calleesAll_append, calleesAll, callees_join,
      List.append_nil, List.append_assoc]
    exact (List.perm_append_comm.append_left _).append_left _

theorem assoc (gathers : GathersCalls (cs ++ ds ++ es) parts) :
    GathersCalls (cs ++ (ds ++ es)) parts := by
  rwa [List.append_assoc] at gathers

end GathersCalls

variable {special : SpecialNames}

mutual

theorem silent_binding : ∀ b : Binding Node Name, Returns (binding special b) RunsMarked
  | .ident _ => .pure (fun _ => rfl)
  | .array _ slots rest =>
    (silent_bindingSlots slots).bind (fun _ all =>
      (silent_optBinding rest).bind (fun _ last =>
        .pure (.join (List.forall_mem_append.2 ⟨all, List.forall_mem_singleton.2 last⟩))))
  | .object _ ps _ =>
    (silent_bindingProperties ps).bind (fun _ all =>
      .pure (.join (List.forall_mem_append.2 ⟨all, List.forall_mem_map.2 (fun _ _ _ => rfl)⟩)))

theorem silent_optBinding : ∀ b : Option (Binding Node Name),
    Returns (optBinding special b) RunsMarked
  | none => .pure (fun _ => rfl)
  | some b => silent_binding b

theorem silent_bindingElement : ∀ e : BindingElement Node Name,
    Returns (bindingElement special e) RunsMarked
  | .mk _ _ b none => silent_binding b
  | .mk _ _ b (some _) =>
    (silent_binding b).bind (fun _ _ => (Returns.any _).bind (fun _ _ => .pure (.evaluated _)))

theorem silent_bindingSlots : ∀ slots : List (Slot Node (BindingElement Node Name)),
    Returns (bindingSlots special slots) (fun os => ∀ o ∈ os, RunsMarked o)
  | [] => .pure nofun
  | .hole _ :: rest => silent_bindingSlots rest
  | .element e :: rest =>
    (silent_bindingElement e).bind (fun _ first =>
      (silent_bindingSlots rest).bind (fun _ others =>
        .pure (List.forall_mem_cons.2 ⟨first, others⟩)))

/-- Only a computed key has a part of its own in what is bound under it. -/
theorem silent_bindingProperty : ∀ p : BindingProperty Node Name,
    Returns (bindingProperty special p) RunsMarked
  | .shorthand _ _ none => .pure (fun _ => rfl)
  | .shorthand _ _ (some _) => (Returns.any _).bind (fun _ _ => .pure (.evaluated _))
  | .keyed _ k e =>
    (returns_key k).bind (fun head blank =>
      (silent_bindingElement e).bind (fun o silent => .pure (by
        split
        next => exact .evaluated _
        next plain =>
          rw [blank.2 (Bool.not_eq_true _ ▸ plain)]
          exact .join (List.forall_mem_cons.2 ⟨fun _ => rfl, List.forall_mem_singleton.2 silent⟩))))

theorem silent_bindingProperties : ∀ ps : List (BindingProperty Node Name),
    Returns (bindingProperties special ps) (fun os => ∀ o ∈ os, RunsMarked o)
  | [] => .pure nofun
  | p :: rest =>
    (silent_bindingProperty p).bind (fun _ first =>
      (silent_bindingProperties rest).bind (fun _ others =>
        .pure (List.forall_mem_cons.2 ⟨first, others⟩)))

end

theorem silent_paramItems (es : List (BindingElement Node Name)) :
    Returns (paramItems special es)
      (fun ps => ps.any ParamOutline.runsCode = false → calleesParams ps = []) := by
  induction es with
  | nil => exact .pure (fun _ => rfl)
  | cons e rest ih =>
    refine (silent_bindingElement e).bind (fun _ first => ih.bind (fun _ others => .pure ?_))
    intro quiet
    rw [List.any_cons, Bool.or_eq_false_iff] at quiet
    rw [calleesParams, first quiet.1, others quiet.2]
    rfl

theorem silent_params (ps : Params Node Name) : Returns (params special ps)
    (fun ps => ps.any ParamOutline.runsCode = false → calleesParams ps = []) := by
  obtain ⟨node, items, _ | b⟩ := ps
  · exact silent_paramItems items
  · refine (silent_paramItems items).bind (fun _ first =>
      (silent_binding b).bind (fun _ rest => .pure ?_))
    intro quiet
    rw [List.any_append, Bool.or_eq_false_iff, List.any_cons, Bool.or_eq_false_iff] at quiet
    rw [calleesParams_append, first quiet.1, calleesParams, rest quiet.2.1]
    rfl

/-- Parameters that run no code mark nothing, so it does not matter that they are not walked. -/
theorem calls_function {params : List ParamOutline} {body : BodyOutline} {cs ds : List Occurrence}
    (silent : params.any ParamOutline.runsCode = false → calleesParams params = [])
    (first : (calleesParams params).Perm (cs.map some))
    (second : (calleesBody body).Perm (ds.map some)) (kind : FunctionKind) (node : Node)
    (name : Option Occurrence) : Calls (cs ++ ds) (.function kind node name params body) := by
  rw [Calls, callees]
  cases runs : params.any ParamOutline.runsCode with
  | true => exact perm_both first second
  | false =>
    rw [silent runs] at first
    exact perm_both first second

theorem calls_block {cs : List Occurrence} {os : List Outline} (node : Node)
    (all : CallsAll cs os) : Returns (block node os) (Calls cs) :=
  (Returns.answer _).bind (fun _ _ => .pure all)

mutual

theorem calls_expr : ∀ e : Expr Node Name,
    Returns (expr special e) (Calls (EvalCalls.expr special.eval e))
  | .ident _ | .literal _ _ | .keyword _ _ | .hole _ => .pure (.refl _)
  | .template _ tag parts =>
    (calls_optExpr tag).bind (fun _ head =>
      (calls_exprs parts).bind (fun _ all => .pure (head.cons all).join))
  | .array _ elements => (calls_exprs elements).bind (fun _ all => .pure all.join)
  | .object _ ps =>
    (calls_properties ps [] _ .nil).bind (fun _ all => .pure all.calls.join)
  | .member _ object _ => calls_expr object
  | .index _ object k =>
    (calls_expr object).bind (fun _ first =>
      (calls_expr k).bind (fun _ second => .pure (first.join₂ second)))
  | .call node callee arguments => by
    by_cases direct : ∃ id, callee = .ident id ∧ id.name = special.eval
    · obtain ⟨id, rfl, same⟩ := direct
      refine (calls_exprs arguments).bind (fun os all => .pure ?_)
      have read : Calls [] (.read id) := .refl _
      have callees : (Expr.ident id).evalCallee special.eval = [id] := if_pos same
      change Calls ((Expr.ident id).evalCallee special.eval ++ ([] ++
        EvalCalls.exprs special.eval arguments)) _
      rw [callees]
      simpa [isEval, same] using (read.cons all).directEval
    · have plain : isEval special callee = false ∧ callee.evalCallee special.eval = [] := by
        cases callee <;> simp_all [isEval, Expr.evalCallee]
      refine (calls_expr callee).bind (fun o head => ?_)
      refine (calls_exprs arguments).bind (fun os all => .pure ?_)
      change Calls (callee.evalCallee special.eval ++ (EvalCalls.expr special.eval callee ++
        EvalCalls.exprs special.eval arguments)) _
      rw [plain.1, plain.2]
      exact (head.cons all).join
  | .construct _ callee arguments =>
    (calls_expr callee).bind (fun _ head =>
      (calls_exprs arguments).bind (fun _ all => .pure (head.cons all).join))
  | .function f => calls_func .expression f
  | .arrow f => calls_arrow f
  | .class_ c => calls_class false c
  | .assign _ op t value =>
    (calls_target t).bind (fun _ first =>
      (calls_expr value).bind (fun _ second => .pure (perm_both first second)))
  | .binary _ left _ right =>
    (calls_expr left).bind (fun _ first =>
      (calls_expr right).bind (fun _ second => .pure (first.join₂ second)))
  | .conditional _ test yes no =>
    (calls_expr test).bind (fun _ first =>
      (calls_expr yes).bind (fun _ second =>
        (calls_expr no).bind (fun _ third => .pure (first.join₃ second third))))
  | .delete _ operand => by
    by_cases lone : ∃ id, operand = .ident id
    · obtain ⟨id, rfl⟩ := lone
      exact .pure (.refl _)
    · rw [expr_delete special (fun id same => lone ⟨id, same⟩)]
      exact calls_expr operand
  | .unary _ _ operand => calls_expr operand
  | .update _ _ _ (.ident _) => .pure (.refl _)
  | .update _ _ _ (.member _ object _) => calls_expr object
  | .update _ _ _ (.index _ object k) =>
    (calls_expr object).bind (fun _ first =>
      (calls_expr k).bind (fun _ second => .pure (first.join₂ second)))
  | .update _ _ _ (.array node slots rest) => calls_target (.array node slots rest)
  | .update _ _ _ (.object node ps rest) => calls_target (.object node ps rest)
  | .yield _ operand => calls_optExpr operand
  | .spread _ operand => calls_expr operand

theorem calls_optExpr : ∀ e : Option (Expr Node Name),
    Returns (optExpr special e) (Calls (EvalCalls.optExpr special.eval e))
  | none => .pure (.refl _)
  | some e => calls_expr e

theorem calls_exprs : ∀ es : List (Expr Node Name),
    Returns (exprs special es) (CallsAll (EvalCalls.exprs special.eval es))
  | [] => .pure (.refl _)
  | e :: rest =>
    (calls_expr e).bind (fun _ first =>
      (calls_exprs rest).bind (fun _ others => .pure (first.cons others)))

theorem calls_properties : ∀ (ps : List (Property Node Name)) (parts : List Part)
    (cs : List Occurrence), GathersCalls cs parts → Returns (properties special parts ps)
      (GathersCalls (cs ++ EvalCalls.properties special.eval ps))
  | [], _, cs, gathers => .pure ((List.append_nil cs).symm ▸ gathers)
  | .keyed _ k value :: rest, parts, cs, gathers => by
    refine (calls_key k).bind (fun o head => ?_)
    refine (calls_expr value).bind (fun o' value => ?_)
    have grown := gathers.addPart none (head.join₂ value)
    exact (calls_properties rest _ _ grown).imp (fun _ all => all.assoc)
  | .shorthand _ id :: rest, parts, cs, gathers => by
    have read : Calls [] (.read id) := .refl _
    have grown := gathers.addPart none read
    rw [List.append_nil] at grown
    exact calls_properties rest _ _ grown
  | .spread _ value :: rest, parts, cs, gathers => by
    refine (calls_expr value).bind (fun o value => ?_)
    have grown := gathers.addPart none value
    exact (calls_properties rest _ _ grown).imp (fun _ all => all.assoc)
  | .method kind k f :: rest, parts, cs, gathers => by
    refine (calls_func (methodFunction kind) f).bind (fun o function => ?_)
    refine (calls_key k).bind (fun o' head => ?_)
    refine (Returns.any _).bind (fun slot _ => ?_)
    have grown := gathers.addPart slot (head.join₂ function)
    exact (calls_properties rest _ _ grown).imp (fun _ all => all.assoc)

theorem calls_members : ∀ (ms : List (Member Node Name)) (parts : List Part)
    (cs : List Occurrence), GathersCalls cs parts → Returns (members special parts ms)
      (GathersCalls (cs ++ EvalCalls.members special.eval ms))
  | [], _, cs, gathers => .pure ((List.append_nil cs).symm ▸ gathers)
  | .mk _ isStatic kind k f :: rest, parts, cs, gathers => by
    refine (calls_func (methodFunction kind) f).bind (fun o function => ?_)
    refine (calls_key k).bind (fun o' head => ?_)
    refine (Returns.any _).bind (fun slot _ => ?_)
    have grown := gathers.addPart slot (head.join₂ function)
    exact (calls_members rest _ _ grown).imp (fun _ all => all.assoc)

theorem calls_key : ∀ k : Key Node Name,
    Returns (key special k) (Calls (EvalCalls.key special.eval k))
  | .computed _ value => calls_expr value
  | .ident _ | .string _ _ | .number _ _ => .pure (.refl _)

theorem calls_class (isDeclaration : Bool) : ∀ c : Class Node Name,
    Returns (classOutline special isDeclaration c) (Calls (EvalCalls.classCalls special.eval c))
  | .mk node name heritage ms => by
    refine (calls_members ms [] _ .nil).bind (fun parts all => ?_)
    refine (calls_optExpr heritage).bind (fun o parent => .pure ?_)
    have elements := all.calls
    rw [CallsAll, ← calleesAll_filter] at elements
    exact perm_both parent elements

theorem calls_func (kind : FunctionKind) : ∀ f : Func Node Name,
    Returns (func special kind f) (Calls (EvalCalls.func special.eval f))
  | .mk _ _ _ ps b =>
    ((calls_params ps).and (silent_params ps)).bind (fun _ first =>
      (calls_body b).bind (fun _ second => .pure (calls_function first.2 first.1 second ..)))

theorem calls_arrow : ∀ f : Func Node Name,
    Returns (arrow special f) (Calls (EvalCalls.func special.eval f))
  | .mk _ _ _ ps b =>
    (calls_body b).bind (fun _ second =>
      ((calls_params ps).and (silent_params ps)).bind (fun _ first =>
        .pure (calls_function first.2 first.1 second ..)))

theorem calls_params : ∀ ps : Params Node Name, Returns (params special ps)
    (fun os => (calleesParams os).Perm ((EvalCalls.params special.eval ps).map some))
  | .mk _ items none => (calls_paramItems items).imp (fun _ all => by
      rwa [EvalCalls.params, EvalCalls.optBinding, List.append_nil])
  | .mk _ items (some b) =>
    (calls_paramItems items).bind (fun _ first =>
      (calls_binding b).bind (fun _ rest => .pure (by
        rw [calleesParams_append, calleesParams, calleesParams, List.append_nil]
        exact perm_both first rest)))

theorem calls_paramItems : ∀ es : List (BindingElement Node Name),
    Returns (paramItems special es)
      (fun os => (calleesParams os).Perm ((EvalCalls.elements special.eval es).map some))
  | [] => .pure (.refl _)
  | e :: rest =>
    (calls_bindingElement e).bind (fun _ first =>
      (calls_paramItems rest).bind (fun _ others => .pure (perm_both first others)))

theorem calls_body : ∀ b : Body Node Name, Returns (body special b)
    (fun o => (calleesBody o).Perm ((EvalCalls.body special.eval b).map some))
  | .block _ _ statements =>
    (calls_stmts statements).bind (fun _ all => (Returns.answer _).bind (fun _ _ => .pure all))
  | .concise value => (calls_expr value).bind (fun _ value => .pure value)

theorem calls_binding : ∀ b : Binding Node Name,
    Returns (binding special b) (Calls (EvalCalls.binding special.eval b))
  | .ident _ => .pure (.refl _)
  | .array _ slots rest =>
    (calls_bindingSlots slots).bind (fun _ all =>
      (calls_optBinding rest).bind (fun _ last => .pure (all.snoc last).join))
  | .object _ ps rest =>
    (calls_bindingProperties ps).bind (fun _ all => .pure (by
      rw [CallsAll] at all
      rw [Calls, callees_join, calleesAll_append, EvalCalls.binding]
      cases rest <;> simpa [calleesAll, callees] using all))

theorem calls_optBinding : ∀ b : Option (Binding Node Name),
    Returns (optBinding special b) (Calls (EvalCalls.optBinding special.eval b))
  | none => .pure (.refl _)
  | some b => calls_binding b

theorem calls_bindingElement : ∀ e : BindingElement Node Name,
    Returns (bindingElement special e) (Calls (EvalCalls.element special.eval e))
  | .mk _ _ b none => (calls_binding b).imp (fun _ binds => by
      rwa [EvalCalls.element, EvalCalls.optExpr, List.append_nil])
  | .mk _ _ b (some init) =>
    (calls_binding b).bind (fun _ binds =>
      (calls_expr init).bind (fun _ value => .pure (binds.join₂ value)))

theorem calls_bindingSlots : ∀ slots : List (Slot Node (BindingElement Node Name)),
    Returns (bindingSlots special slots) (CallsAll (EvalCalls.bindingSlots special.eval slots))
  | [] => .pure (.refl _)
  | .hole _ :: rest => calls_bindingSlots rest
  | .element e :: rest =>
    (calls_bindingElement e).bind (fun _ first =>
      (calls_bindingSlots rest).bind (fun _ others => .pure (first.cons others)))

theorem calls_bindingProperty : ∀ p : BindingProperty Node Name,
    Returns (bindingProperty special p) (Calls (EvalCalls.bindingProperty special.eval p))
  | .shorthand _ _ none => .pure (.refl _)
  | .shorthand _ id (some init) =>
    have name : Calls [] (.binding id) := .refl _
    (calls_expr init).bind (fun _ value => .pure (name.join₂ value))
  | .keyed _ k e =>
    (calls_key k).bind (fun _ head =>
      (calls_bindingElement e).bind (fun _ binds => .pure (by
        split <;> exact head.join₂ binds)))

theorem calls_bindingProperties : ∀ ps : List (BindingProperty Node Name),
    Returns (bindingProperties special ps)
      (CallsAll (EvalCalls.bindingProperties special.eval ps))
  | [] => .pure (.refl _)
  | p :: rest =>
    (calls_bindingProperty p).bind (fun _ first =>
      (calls_bindingProperties rest).bind (fun _ others => .pure (first.cons others)))

theorem calls_target : ∀ t : Target Node Name,
    Returns (target special t) (Calls (EvalCalls.target special.eval t))
  | .ident _ => .pure (.refl _)
  | .member _ object _ => (calls_expr object).bind (fun _ value => .pure value.member)
  | .index _ object k =>
    (calls_expr object).bind (fun _ first =>
      (calls_expr k).bind (fun _ second => .pure (first.join₂ second).member))
  | .array _ slots rest =>
    (calls_targetSlots slots).bind (fun _ all =>
      (calls_optTarget rest).bind (fun _ last => .pure (all.snoc last).join))
  | .object _ ps rest =>
    (calls_targetProperties ps).bind (fun _ all =>
      (calls_optTarget rest).bind (fun _ last => .pure (all.snoc last).join))

theorem calls_optTarget : ∀ t : Option (Target Node Name),
    Returns (optTarget special t) (Calls (EvalCalls.optTarget special.eval t))
  | none => .pure (.refl _)
  | some t => calls_target t

theorem calls_targetElement : ∀ e : TargetElement Node Name,
    Returns (targetElement special e) (Calls (EvalCalls.targetElement special.eval e))
  | .mk _ t init =>
    (calls_target t).bind (fun _ first =>
      (calls_optExpr init).bind (fun _ second => .pure (first.join₂ second)))

theorem calls_targetSlots : ∀ slots : List (Slot Node (TargetElement Node Name)),
    Returns (targetSlots special slots) (CallsAll (EvalCalls.targetSlots special.eval slots))
  | [] => .pure (.refl _)
  | .hole _ :: rest => calls_targetSlots rest
  | .element e :: rest =>
    (calls_targetElement e).bind (fun _ first =>
      (calls_targetSlots rest).bind (fun _ others => .pure (first.cons others)))

theorem calls_targetProperty : ∀ p : TargetProperty Node Name,
    Returns (targetProperty special p) (Calls (EvalCalls.targetProperty special.eval p))
  | .shorthand _ id init =>
    have name : Calls [] (.target id) := .refl _
    (calls_optExpr init).bind (fun _ value => .pure (name.join₂ value))
  | .keyed _ k e =>
    (calls_key k).bind (fun _ head =>
      (calls_targetElement e).bind (fun _ element => .pure (head.join₂ element)))

theorem calls_targetProperties : ∀ ps : List (TargetProperty Node Name),
    Returns (targetProperties special ps)
      (CallsAll (EvalCalls.targetProperties special.eval ps))
  | [] => .pure (.refl _)
  | p :: rest =>
    (calls_targetProperty p).bind (fun _ first =>
      (calls_targetProperties rest).bind (fun _ others => .pure (first.cons others)))

theorem calls_declarators : ∀ ds : List (BindingElement Node Name),
    Returns (declarators special ds)
      (fun os => (calleesDeclarators os).Perm ((EvalCalls.elements special.eval ds).map some))
  | [] => .pure (.refl _)
  | .mk _ _ b init :: rest =>
    (calls_binding b).bind (fun _ binds =>
      (calls_optExpr init).bind (fun _ value =>
        (calls_declarators rest).bind (fun _ others =>
          .pure (perm_both (perm_both binds value) others))))

theorem calls_stmt : ∀ s : Stmt Node Name,
    Returns (stmt special s) (Calls (EvalCalls.stmt special.eval s))
  | .expr _ value => calls_expr value
  | .decl _ _ _ ds => (calls_declarators ds).bind (fun _ all => .pure all)
  | .block node statements => (calls_stmts statements).bind (fun _ all => calls_block node all)
  | .empty _ | .debugger _ | .jump _ _ _ => .pure (.refl _)
  | .labeled _ _ s => calls_stmt s
  | .ifThen _ test yes =>
    (calls_expr test).bind (fun _ first =>
      (calls_stmt yes).bind (fun _ second => .pure (by
        rw [Calls, callees, callees, List.append_nil]
        exact perm_both first second)))
  | .ifElse _ test yes no =>
    (calls_expr test).bind (fun _ first =>
      (calls_stmt yes).bind (fun _ second =>
        (calls_stmt no).bind (fun _ third => .pure (perm_both first (perm_both second third)))))
  | .forLoop _ init test step s =>
    (calls_optExpr init).bind (fun _ first =>
      (Returns.answer _).bind (fun _ _ =>
        (calls_optExpr test).bind (fun _ second =>
          (calls_optExpr step).bind (fun _ third =>
            (calls_stmt s).bind (fun _ inside =>
              .pure (perm_both first (perm_both second (perm_both third inside))))))))
  | .forDecl _ _ _ ds test step s =>
    (calls_declarators ds).bind (fun _ first =>
      (Returns.answer _).bind (fun _ _ =>
        (calls_optExpr test).bind (fun _ second =>
          (calls_optExpr step).bind (fun _ third =>
            (calls_stmt s).bind (fun _ inside =>
              .pure (perm_both first (perm_both second (perm_both third inside))))))))
  | .forEach _ _ t collection s =>
    (calls_target t).bind (fun _ head =>
      (calls_expr collection).bind (fun _ value =>
        (calls_stmt s).bind (fun _ inside => .pure (perm_both head (perm_both value inside)))))
  | .forEachDecl _ _ _ _ ds collection s =>
    (calls_declarators ds).bind (fun _ head =>
      (Returns.answer _).bind (fun _ _ =>
        (calls_expr collection).bind (fun _ value =>
          (calls_stmt s).bind (fun _ inside =>
            .pure (perm_both head (perm_both value inside))))))
  | .whileLoop _ test s =>
    (calls_expr test).bind (fun _ head =>
      (calls_stmt s).bind (fun _ inside => .pure (head.join₂ inside)))
  | .doLoop _ s test =>
    (calls_stmt s).bind (fun _ inside =>
      (calls_expr test).bind (fun _ last => .pure (inside.join₂ last)))
  | .ret _ value => calls_optExpr value
  | .throw _ value => calls_expr value
  | .withObject _ object s =>
    (calls_expr object).bind (fun _ outside =>
      (calls_stmt s).bind (fun _ inside => .pure (perm_both outside inside)))
  | .switch _ discriminant _ cs =>
    (calls_clauses cs).bind (fun _ all =>
      (calls_expr discriminant).bind (fun _ outside => .pure (perm_both outside all)))
  | .tryCatch _ blockNode statements h =>
    (calls_stmts statements).bind (fun _ all =>
      (calls_block blockNode all).bind (fun _ first =>
        (calls_handler h).bind (fun _ second => .pure (first.join₂ second))))
  | .tryFinally _ blockNode statements last finalizer =>
    (calls_stmts statements).bind (fun _ all =>
      (calls_block blockNode all).bind (fun _ first =>
        (calls_stmts finalizer).bind (fun _ all' =>
          (calls_block last all').bind (fun _ third => .pure (first.join₂ third)))))
  | .tryCatchFinally _ blockNode statements h last finalizer =>
    (calls_stmts statements).bind (fun _ all =>
      (calls_block blockNode all).bind (fun _ first =>
        (calls_handler h).bind (fun _ second =>
          (calls_stmts finalizer).bind (fun _ all' =>
            (calls_block last all').bind (fun _ third => .pure (first.join₃ second third))))))
  | .function f => calls_func .declaration f
  | .class_ c => calls_class true c

theorem calls_stmts : ∀ ss : List (Stmt Node Name),
    Returns (stmts special ss) (CallsAll (EvalCalls.stmts special.eval ss))
  | [] => .pure (.refl _)
  | s :: rest =>
    (calls_stmt s).bind (fun _ first =>
      (calls_stmts rest).bind (fun _ others => .pure (.keep first others)))

theorem calls_handler : ∀ h : Handler Node Name,
    Returns (handler special h) (Calls (EvalCalls.handler special.eval h))
  | .mk _ b _ statements =>
    (calls_optBinding b).bind (fun _ binds =>
      (calls_stmts statements).bind (fun _ all =>
        (Returns.answer _).bind (fun _ _ => .pure (perm_both binds all))))

theorem calls_clauses : ∀ cs : List (Clause Node Name), Returns (clauses special cs)
    (fun found => (calleesCases found.1).Perm ((EvalCalls.clauses special.eval cs).map some))
  | [] => .pure (.refl _)
  | .mk _ test statements :: rest =>
    (calls_optExpr test).bind (fun _ head =>
      (calls_clauseStmts statements).bind (fun _ all =>
        (calls_clauses rest).bind (fun _ others =>
          .pure (perm_both (perm_both head all) others))))

theorem calls_clauseStmts : ∀ ss : List (Stmt Node Name), Returns (clauseStmts special ss)
    (fun found => CallsAll (EvalCalls.stmts special.eval ss) found.1)
  | [] => .pure (.refl _)
  | s :: rest =>
    (calls_stmt s).bind (fun _ first =>
      (Returns.answer _).bind (fun _ _ =>
        (calls_clauseStmts rest).bind (fun _ others => .pure (.keep first others))))

end

theorem calleesAll_read (ids : List Occurrence) : calleesAll (ids.map .read) = [] := by
  induction ids with
  | nil => rfl
  | cons id rest ih => exact ih

theorem calls_item : ∀ i : Item Node Name,
    Returns (item special i) (Calls (EvalCalls.item special.eval i))
  | .stmt s | .exportStmt s => calls_stmt s
  | .imports .. | .exportAll .. | .exportFrom .. => .pure (.refl _)
  | .exportLocals _ specifiers => .pure (by
    have none := calleesAll_read (specifiers.map ExportSpecifier.id)
    rw [List.map_map] at none
    rw [Calls, callees_join]
    exact .of_eq none)
  | .exportDefaultFunction f => calls_func .declaration f
  | .exportDefaultClass c => calls_class true c
  | .exportDefaultExpr value => calls_expr value

theorem calls_items : ∀ is : List (Item Node Name),
    Returns (items special is) (CallsAll (is.flatMap (EvalCalls.item special.eval)))
  | [] => .pure (.refl _)
  | i :: rest =>
    (calls_item i).bind (fun _ first =>
      (calls_items rest).bind (fun _ others => .pure (.keep first others)))

/-- The marks in the outline of a program are the direct calls of `eval` in the program. -/
theorem calls_outline (p : NumberedProgram) : Returns (p.outline special)
    (fun outline => CallsAll (p.evalCallees special.eval) outline.statements) := by
  cases p with
  | script node directives statements =>
    exact (calls_stmts statements).bind (fun _ all =>
      (Returns.answer _).bind (fun _ _ => .pure all))
  | module node directives is =>
    exact (calls_items is).bind (fun _ all =>
      (Returns.answer _).bind (fun _ _ => .pure all))

end Folding

end ScopeAnalysis
