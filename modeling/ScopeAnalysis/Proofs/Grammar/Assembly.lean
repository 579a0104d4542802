import Mathlib.Data.List.Nodup
import ScopeAnalysis.Program.Gathering

/-!
# Putting a program together

A program is put together in steps. A step takes parts that are finished, with all the nodes inside
them, and adds nodes of its own: that of the construct, those of its lists and clauses, and its own
identifiers, holes and directives. A method takes its key with its parameters and its body, and a
catch clause that stands before a finally block is finished before the `try` is.

Every node of the program is added in one of the steps, and the steps add them in the order in which
nodes are numbered. So a step comes after all that it takes.
-/

namespace ScopeAnalysis

/-- A node of a program, alone or as that of an identifier. -/
inductive Atom (μ ν : Type) where
  | plain (node : μ)
  | ident (id : Ident μ ν)

namespace Atom

variable {μ ν : Type}

def node : Atom μ ν → μ
  | .plain node => node
  | .ident id => id.node

def ident? : Atom μ ν → Option (Ident μ ν)
  | .plain _ => none
  | .ident id => some id

/-- Identifiers have their nodes in the order of the atoms. -/
theorem node_ident?_sublist (atoms : List (Atom μ ν)) :
    ((atoms.filterMap ident?).map Ident.node).Sublist (atoms.map node) := by
  induction atoms with
  | nil => exact List.Sublist.slnil
  | cons atom rest ih =>
    cases atom with
    | plain _ => exact ih.cons _
    | ident _ => exact ih.cons_cons _

end Atom

/-- One step: the nodes inside the parts it takes, from left to right, and those it adds. -/
structure Step (μ ν : Type) where
  parts : List (Atom μ ν)
  own : List (Atom μ ν)

/-- The steps in which something is put together. -/
abbrev Assembly (μ ν : Type) := List (Step μ ν)

namespace Assembly

variable {μ ν : Type}

/-- All nodes that are added, in the order of the steps. -/
def atoms (steps : Assembly μ ν) : List (Atom μ ν) := steps.flatMap Step.own

/-- One more step, which takes all that there is. -/
def close (parts : Assembly μ ν) (own : List (Atom μ ν)) : Assembly μ ν :=
  parts ++ [⟨parts.atoms, own⟩]

@[simp] theorem atoms_append (steps more : Assembly μ ν) :
    atoms (steps ++ more) = steps.atoms ++ more.atoms :=
  List.flatMap_append

@[simp] theorem atoms_close (parts : Assembly μ ν) (own : List (Atom μ ν)) :
    (parts.close own).atoms = parts.atoms ++ own := by
  simp [close, atoms]

/-! What a step adds. -/

def plain (node : μ) : List (Atom μ ν) := [.plain node]

def ident (id : Ident μ ν) : List (Atom μ ν) := [.ident id]

def optIdent : Option (Ident μ ν) → List (Atom μ ν)
  | none => []
  | some id => ident id

def directives (ds : List (Directive μ ν)) : List (Atom μ ν) := ds.map (fun d => .plain d.node)

def holes {β : Type} : List (Slot μ β) → List (Atom μ ν)
  | [] => []
  | .hole node :: rest => plain node ++ holes rest
  | .element _ :: rest => holes rest

def importSpecifiers (ss : List (ImportSpecifier μ ν)) : List (Atom μ ν) :=
  ss.flatMap (fun s => plain s.node ++ ident s.binding)

def reexportSpecifiers (ss : List (ReexportSpecifier μ ν)) : List (Atom μ ν) :=
  ss.map (fun s => .plain s.node)

def exportSpecifiers (ss : List (ExportSpecifier μ ν)) : List (Atom μ ν) :=
  ss.flatMap (fun s => plain s.node ++ ident s.id)

mutual

def expr : Expr μ ν → Assembly μ ν
  | .ident id => close [] (ident id)
  | .literal node _ => close [] (plain node)
  | .keyword node _ => close [] (plain node)
  | .hole node => close [] (plain node)
  | .template node tag parts => close (optExpr tag ++ exprs parts) (plain node)
  | .array node elements => close (exprs elements) (plain node)
  | .object node ps => close (properties ps) (plain node)
  | .member node object _ => close (expr object) (plain node)
  | .index node object k => close (expr object ++ expr k) (plain node)
  | .call node callee arguments => close (expr callee ++ exprs arguments) (plain node)
  | .construct node callee arguments => close (expr callee ++ exprs arguments) (plain node)
  | .function f => func f []
  | .arrow f => func f []
  | .class_ c => classTree c
  | .assign node _ t value => close (target t ++ expr value) (plain node)
  | .binary node left _ right => close (expr left ++ expr right) (plain node)
  | .conditional node test yes no => close (expr test ++ expr yes ++ expr no) (plain node)
  | .delete node operand => close (expr operand) (plain node)
  | .unary node _ operand => close (expr operand) (plain node)
  | .update node _ _ operand => close (target operand) (plain node)
  | .yield node operand => close (optExpr operand) (plain node)
  | .spread node operand => close (expr operand) (plain node)

def optExpr : Option (Expr μ ν) → Assembly μ ν
  | none => []
  | some e => expr e

def exprs : List (Expr μ ν) → Assembly μ ν
  | [] => []
  | e :: rest => expr e ++ exprs rest

def stmt : Stmt μ ν → Assembly μ ν
  | .expr node value => close (expr value) (plain node)
  | .decl node list _ ds => close (bindingElements ds) (plain node ++ plain list)
  | .block node statements => close (stmts statements) (plain node)
  | .empty node => close [] (plain node)
  | .debugger node => close [] (plain node)
  | .jump node _ _ => close [] (plain node)
  | .labeled node _ s => close (stmt s) (plain node)
  | .ifThen node test yes => close (expr test ++ stmt yes) (plain node)
  | .ifElse node test yes no => close (expr test ++ stmt yes ++ stmt no) (plain node)
  | .forLoop node init test update s =>
    close (optExpr init ++ optExpr test ++ optExpr update ++ stmt s) (plain node)
  | .forDecl node list _ ds test update s =>
    close (close (bindingElements ds) (plain list) ++ optExpr test ++ optExpr update ++ stmt s)
      (plain node)
  | .forEach node _ t collection s => close (target t ++ expr collection ++ stmt s) (plain node)
  | .forEachDecl node _ list _ ds collection s =>
    close (close (bindingElements ds) (plain list) ++ expr collection ++ stmt s) (plain node)
  | .whileLoop node test s => close (expr test ++ stmt s) (plain node)
  | .doLoop node s test => close (stmt s ++ expr test) (plain node)
  | .ret node value => close (optExpr value) (plain node)
  | .throw node value => close (expr value) (plain node)
  | .withObject node object s => close (expr object ++ stmt s) (plain node)
  | .switch node discriminant caseBlock cs =>
    close (expr discriminant ++ clauses cs) (plain node ++ plain caseBlock)
  | .tryCatch node block statements (.mk clause b handlerBlock handler) =>
    close (stmts statements ++ optBinding b ++ stmts handler)
      (plain node ++ plain block ++ plain clause ++ plain handlerBlock)
  | .tryFinally node block statements last finalizer =>
    close (stmts statements ++ stmts finalizer) (plain node ++ plain block ++ plain last)
  | .tryCatchFinally node block statements (.mk clause b handlerBlock handler) last finalizer =>
    close (stmts statements ++
        close (optBinding b ++ stmts handler) (plain clause ++ plain handlerBlock) ++
        stmts finalizer)
      (plain node ++ plain block ++ plain last)
  | .function f => func f []
  | .class_ c => classTree c

def stmts : List (Stmt μ ν) → Assembly μ ν
  | [] => []
  | s :: rest => stmt s ++ stmts rest

/-- A function, with what it takes besides its parameters and its body. -/
def func : Func μ ν → Assembly μ ν → Assembly μ ν
  | .mk node name _ ps b, front =>
    close (front ++ params ps ++ body b) (plain node ++ optIdent name)

def params : Params μ ν → Assembly μ ν
  | .mk none items rest => bindingElements items ++ optBinding rest
  | .mk (some node) items rest => close (bindingElements items ++ optBinding rest) (plain node)

def body : Body μ ν → Assembly μ ν
  | .block node ds statements => close (stmts statements) (plain node ++ directives ds)
  | .concise value => expr value

def classTree : Class μ ν → Assembly μ ν
  | .mk node name heritage ms =>
    close (optExpr heritage ++ members ms) (plain node ++ optIdent name)

def members : List (Member μ ν) → Assembly μ ν
  | [] => []
  | .mk node _ _ k f :: rest => close (func f (key k)) (plain node) ++ members rest

def key : Key μ ν → Assembly μ ν
  | .ident id => close [] (ident id)
  | .string node _ => close [] (plain node)
  | .number node _ => close [] (plain node)
  | .computed node value => close (expr value) (plain node)

def property : Property μ ν → Assembly μ ν
  | .keyed node k value => close (key k ++ expr value) (plain node)
  | .shorthand node id => close [] (plain node ++ ident id)
  | .spread node value => close (expr value) (plain node)
  | .method _ k f => func f (key k)

def properties : List (Property μ ν) → Assembly μ ν
  | [] => []
  | p :: rest => property p ++ properties rest

def binding : Binding μ ν → Assembly μ ν
  | .ident id => close [] (ident id)
  | .array node slots rest =>
    close (bindingSlots slots ++ optBinding rest) (plain node ++ holes slots)
  | .object node ps rest => close (bindingProperties ps) (plain node ++ optIdent rest)

def optBinding : Option (Binding μ ν) → Assembly μ ν
  | none => []
  | some b => binding b

def bindingElement : BindingElement μ ν → Assembly μ ν
  | .mk node .nameFirst b init => close (binding b ++ optExpr init) (plain node)
  | .mk node .valueFirst b init => close (optExpr init ++ binding b) (plain node)

def bindingElements : List (BindingElement μ ν) → Assembly μ ν
  | [] => []
  | e :: rest => bindingElement e ++ bindingElements rest

def bindingSlots : List (Slot μ (BindingElement μ ν)) → Assembly μ ν
  | [] => []
  | .hole _ :: rest => bindingSlots rest
  | .element e :: rest => bindingElement e ++ bindingSlots rest

def bindingProperty : BindingProperty μ ν → Assembly μ ν
  | .shorthand node id init => close (optExpr init) (plain node ++ ident id)
  | .keyed node k e => close (key k ++ bindingElement e) (plain node)

def bindingProperties : List (BindingProperty μ ν) → Assembly μ ν
  | [] => []
  | p :: rest => bindingProperty p ++ bindingProperties rest

def target : Target μ ν → Assembly μ ν
  | .ident id => close [] (ident id)
  | .member node object _ => close (expr object) (plain node)
  | .index node object k => close (expr object ++ expr k) (plain node)
  | .array node slots rest =>
    close (targetSlots slots ++ optTarget rest) (plain node ++ holes slots)
  | .object node ps rest => close (targetProperties ps ++ optTarget rest) (plain node)

def optTarget : Option (Target μ ν) → Assembly μ ν
  | none => []
  | some t => target t

def targetElement : TargetElement μ ν → Assembly μ ν
  | .mk node t init => close (target t ++ optExpr init) (plain node)

def targetSlots : List (Slot μ (TargetElement μ ν)) → Assembly μ ν
  | [] => []
  | .hole _ :: rest => targetSlots rest
  | .element e :: rest => targetElement e ++ targetSlots rest

def targetProperty : TargetProperty μ ν → Assembly μ ν
  | .shorthand node id init => close (optExpr init) (plain node ++ ident id)
  | .keyed node k e => close (key k ++ targetElement e) (plain node)

def targetProperties : List (TargetProperty μ ν) → Assembly μ ν
  | [] => []
  | p :: rest => targetProperty p ++ targetProperties rest

def clauses : List (Clause μ ν) → Assembly μ ν
  | [] => []
  | .mk node test statements :: rest =>
    close (optExpr test ++ stmts statements) (plain node) ++ clauses rest

end

def item : Item μ ν → Assembly μ ν
  | .stmt s => stmt s
  | .imports node _ defaultBinding nameSpace named =>
    close [] (plain node ++ importSpecifiers named ++ optIdent defaultBinding ++ optIdent nameSpace)
  | .exportAll node _ => close [] (plain node)
  | .exportFrom node _ names => close [] (plain node ++ reexportSpecifiers names)
  | .exportLocals node names => close [] (plain node ++ exportSpecifiers names)
  | .exportStmt s => stmt s
  | .exportDefaultFunction f => func f []
  | .exportDefaultClass c => classTree c
  | .exportDefaultExpr value => expr value

def items (is : List (Item μ ν)) : Assembly μ ν := is.flatMap item

end Assembly

namespace Program

variable {μ ν : Type}

/-- The steps in which a program is put together. -/
def assembly : Program μ ν → Assembly μ ν
  | .script node ds statements =>
    .close (.stmts statements) (Assembly.plain node ++ Assembly.directives ds)
  | .module node ds is => .close (.items is) (Assembly.plain node ++ Assembly.directives ds)

/-- All identifiers of a program, one entry for each place at which one stands. -/
def identifiers (p : Program μ ν) : List (Ident μ ν) := p.assembly.atoms.filterMap Atom.ident?

end Program

namespace Assembly

open Gathering (marks)

variable {μ ν : Type}

/-- The steps add the given nodes one after the other, and each of them comes after the nodes of
which it takes, which it has in the same order. -/
structure Makes (steps : Assembly μ ν) (nodes : List μ) : Prop where
  node_atoms : steps.atoms.map Atom.node = nodes
  sublist : ∀ step ∈ steps, (step.parts ++ step.own).Sublist steps.atoms

namespace Makes

variable {steps more : Assembly μ ν} {nodes others : List μ} {own further : List (Atom μ ν)}

theorem nil : Makes ([] : Assembly μ ν) [] where
  node_atoms := rfl
  sublist := by simp

theorem append (first : Makes steps nodes) (second : Makes more others) :
    Makes (steps ++ more) (nodes ++ others) where
  node_atoms := by
    rw [atoms_append, List.map_append, first.node_atoms, second.node_atoms]
  sublist step member := by
    rw [atoms_append]
    rcases List.mem_append.1 member with inFirst | inSecond
    · exact (first.sublist step inFirst).trans (List.sublist_append_left ..)
    · exact (second.sublist step inSecond).trans (List.sublist_append_right ..)

/-- The last step has all that came before among its parts. -/
theorem close (parts : Makes steps nodes) (same : own.map Atom.node = others) :
    Makes (steps.close own) (nodes ++ others) where
  node_atoms := by
    rw [atoms_close, List.map_append, parts.node_atoms, same]
  sublist step member := by
    rw [atoms_close]
    rcases List.mem_append.1 member with old | last
    · exact (parts.sublist step old).trans (List.sublist_append_left ..)
    · rw [List.mem_singleton.1 last]

/-- A step without parts. -/
theorem fresh (same : own.map Atom.node = nodes) : Makes (Assembly.close [] own) nodes :=
  nil.close same

/-- The last step may add more. -/
theorem also (closed : Makes (steps.close own) nodes) (same : further.map Atom.node = others) :
    Makes (steps.close (own ++ further)) (nodes ++ others) where
  node_atoms := by
    rw [atoms_close, ← List.append_assoc, ← atoms_close, List.map_append, closed.node_atoms, same]
  sublist step member := by
    rw [atoms_close]
    rcases List.mem_append.1 member with old | last
    · have before := closed.sublist step (List.mem_append_left _ old)
      rw [atoms_close] at before
      rw [← List.append_assoc]
      exact before.trans (List.sublist_append_left ..)
    · rw [List.mem_singleton.1 last]

end Makes

theorem node_optIdent (id : Option (Ident μ ν)) :
    (optIdent id).map Atom.node = marks.optIdent id := by
  cases id <;> rfl

theorem node_directives (ds : List (Directive μ ν)) :
    (directives ds).map Atom.node = marks.directives ds := by
  induction ds with
  | nil => rfl
  | cons d rest ih => exact congrArg (d.node :: ·) ih

theorem node_holes {β : Type} (slots : List (Slot μ β)) :
    (holes slots : List (Atom μ ν)).map Atom.node = (marks (ν := ν)).holes slots := by
  induction slots with
  | nil => rfl
  | cons slot rest ih =>
    cases slot with
    | hole node => exact congrArg (node :: ·) ih
    | element _ => exact ih

theorem node_importSpecifiers (ss : List (ImportSpecifier μ ν)) :
    (importSpecifiers ss).map Atom.node = marks.importSpecifiers ss := by
  induction ss with
  | nil => rfl
  | cons s rest ih => exact congrArg ([s.node, s.binding.node] ++ ·) ih

theorem node_reexportSpecifiers (ss : List (ReexportSpecifier μ ν)) :
    (reexportSpecifiers ss).map Atom.node = marks.reexportSpecifiers ss := by
  induction ss with
  | nil => rfl
  | cons s rest ih => exact congrArg (s.node :: ·) ih

theorem node_exportSpecifiers (ss : List (ExportSpecifier μ ν)) :
    (exportSpecifiers ss).map Atom.node = marks.exportSpecifiers ss := by
  induction ss with
  | nil => rfl
  | cons s rest ih => exact congrArg ([s.node, s.id.node] ++ ·) ih

mutual

theorem makes_expr : ∀ e : Expr μ ν, Makes (expr e) (marks.expr e)
  | .ident _ | .literal _ _ | .keyword _ _ | .hole _ => .fresh rfl
  | .template _ tag parts => ((makes_optExpr tag).append (makes_exprs parts)).close rfl
  | .array _ elements => (makes_exprs elements).close rfl
  | .object _ ps => (makes_properties ps).close rfl
  | .member _ object _ => (makes_expr object).close rfl
  | .index _ object k => ((makes_expr object).append (makes_expr k)).close rfl
  | .call _ callee arguments => ((makes_expr callee).append (makes_exprs arguments)).close rfl
  | .construct _ callee arguments => ((makes_expr callee).append (makes_exprs arguments)).close rfl
  | .function f | .arrow f => makes_func f .nil
  | .class_ c => makes_class c
  | .assign _ _ t value => ((makes_target t).append (makes_expr value)).close rfl
  | .binary _ left _ right => ((makes_expr left).append (makes_expr right)).close rfl
  | .conditional _ test yes no =>
    (((makes_expr test).append (makes_expr yes)).append (makes_expr no)).close rfl
  | .delete _ operand | .unary _ _ operand | .spread _ operand => (makes_expr operand).close rfl
  | .update _ _ _ operand => (makes_target operand).close rfl
  | .yield _ operand => (makes_optExpr operand).close rfl

theorem makes_optExpr : ∀ e : Option (Expr μ ν), Makes (optExpr e) (marks.optExpr e)
  | none => .nil
  | some e => makes_expr e

theorem makes_exprs : ∀ es : List (Expr μ ν), Makes (exprs es) (marks.exprs es)
  | [] => .nil
  | e :: rest => (makes_expr e).append (makes_exprs rest)

theorem makes_stmt : ∀ s : Stmt μ ν, Makes (stmt s) (marks.stmt s)
  | .expr _ value | .throw _ value => (makes_expr value).close rfl
  | .decl _ _ _ ds => ((makes_elements ds).close rfl).also rfl
  | .block _ statements => (makes_stmts statements).close rfl
  | .empty _ | .debugger _ | .jump _ _ _ => .fresh rfl
  | .labeled _ _ s => (makes_stmt s).close rfl
  | .ifThen _ test yes => ((makes_expr test).append (makes_stmt yes)).close rfl
  | .ifElse _ test yes no =>
    (((makes_expr test).append (makes_stmt yes)).append (makes_stmt no)).close rfl
  | .forLoop _ init test update s =>
    ((((makes_optExpr init).append (makes_optExpr test)).append (makes_optExpr update)).append
      (makes_stmt s)).close rfl
  | .forDecl _ _ _ ds test update s =>
    (((((makes_elements ds).close rfl).append (makes_optExpr test)).append
      (makes_optExpr update)).append (makes_stmt s)).close rfl
  | .forEach _ _ t collection s =>
    (((makes_target t).append (makes_expr collection)).append (makes_stmt s)).close rfl
  | .forEachDecl _ _ _ _ ds collection s =>
    ((((makes_elements ds).close rfl).append (makes_expr collection)).append
      (makes_stmt s)).close rfl
  | .whileLoop _ test s | .withObject _ test s =>
    ((makes_expr test).append (makes_stmt s)).close rfl
  | .doLoop _ s test => ((makes_stmt s).append (makes_expr test)).close rfl
  | .ret _ value => (makes_optExpr value).close rfl
  | .switch _ discriminant _ cs =>
    (((makes_expr discriminant).append (makes_clauses cs)).close rfl).also rfl
  | .tryCatch _ _ statements (.mk _ b _ handler) =>
    ((((((makes_stmts statements).append (makes_optBinding b)).append (makes_stmts handler)).close
      rfl).also rfl).also rfl).also rfl
  | .tryFinally _ _ statements _ finalizer =>
    ((((makes_stmts statements).append (makes_stmts finalizer)).close rfl).also rfl).also rfl
  | .tryCatchFinally _ _ statements (.mk clause b handlerBlock handler) _ finalizer => by
    have inner : Makes (close (optBinding b ++ stmts handler) (plain clause ++ plain handlerBlock))
        (marks.optBinding b ++ marks.stmts handler ++ [clause] ++ [handlerBlock]) :=
      (((makes_optBinding b).append (makes_stmts handler)).close rfl).also rfl
    have parts := ((makes_stmts statements).append inner).append (makes_stmts finalizer)
    simp only [← List.append_assoc] at parts
    exact ((parts.close rfl).also rfl).also rfl
  | .function f => makes_func f .nil
  | .class_ c => makes_class c

theorem makes_stmts : ∀ ss : List (Stmt μ ν), Makes (stmts ss) (marks.stmts ss)
  | [] => .nil
  | s :: rest => (makes_stmt s).append (makes_stmts rest)

theorem makes_func : ∀ (f : Func μ ν) {front : Assembly μ ν} {nodes : List μ},
    Makes front nodes → Makes (func f front) (nodes ++ marks.func f)
  | .mk node name _ ps b, front, nodes, before => by
    have parts := (before.append (makes_params ps)).append (makes_body b)
    have whole : Makes (close (front ++ params ps ++ body b) (plain node ++ optIdent name))
        (nodes ++ marks.params ps ++ marks.body b ++ (marks (ν := ν)).mark node ++
          marks.optIdent name) :=
      (parts.close rfl).also (node_optIdent name)
    simpa only [func, Gathering.func, List.append_assoc] using whole

theorem makes_params : ∀ ps : Params μ ν, Makes (params ps) (marks.params ps)
  | .mk none items rest => (makes_elements items).append (makes_optBinding rest)
  | .mk (some _) items rest => ((makes_elements items).append (makes_optBinding rest)).close rfl

theorem makes_body : ∀ b : Body μ ν, Makes (body b) (marks.body b)
  | .block _ ds statements => ((makes_stmts statements).close rfl).also (node_directives ds)
  | .concise value => makes_expr value

theorem makes_class : ∀ c : Class μ ν, Makes (classTree c) (marks.classTree c)
  | .mk _ name heritage ms =>
    (((makes_optExpr heritage).append (makes_members ms)).close rfl).also (node_optIdent name)

theorem makes_members : ∀ ms : List (Member μ ν), Makes (members ms) (marks.members ms)
  | [] => .nil
  | .mk _ _ _ k f :: rest => ((makes_func f (makes_key k)).close rfl).append (makes_members rest)

theorem makes_key : ∀ k : Key μ ν, Makes (key k) (marks.key k)
  | .ident _ | .string _ _ | .number _ _ => .fresh rfl
  | .computed _ value => (makes_expr value).close rfl

theorem makes_property : ∀ p : Property μ ν, Makes (property p) (marks.property p)
  | .keyed _ k value => ((makes_key k).append (makes_expr value)).close rfl
  | .shorthand _ _ => (Makes.fresh rfl).also rfl
  | .spread _ value => (makes_expr value).close rfl
  | .method _ k f => makes_func f (makes_key k)

theorem makes_properties : ∀ ps : List (Property μ ν), Makes (properties ps) (marks.properties ps)
  | [] => .nil
  | p :: rest => (makes_property p).append (makes_properties rest)

theorem makes_binding : ∀ b : Binding μ ν, Makes (binding b) (marks.binding b)
  | .ident _ => .fresh rfl
  | .array _ slots rest =>
    (((makes_bindingSlots slots).append (makes_optBinding rest)).close rfl).also (node_holes slots)
  | .object _ ps rest => ((makes_bindingProperties ps).close rfl).also (node_optIdent rest)

theorem makes_optBinding : ∀ b : Option (Binding μ ν), Makes (optBinding b) (marks.optBinding b)
  | none => .nil
  | some b => makes_binding b

theorem makes_element : ∀ e : BindingElement μ ν,
    Makes (bindingElement e) (marks.bindingElement e)
  | .mk _ .nameFirst b init => ((makes_binding b).append (makes_optExpr init)).close rfl
  | .mk _ .valueFirst b init => ((makes_optExpr init).append (makes_binding b)).close rfl

theorem makes_elements : ∀ es : List (BindingElement μ ν),
    Makes (bindingElements es) (marks.bindingElements es)
  | [] => .nil
  | e :: rest => (makes_element e).append (makes_elements rest)

theorem makes_bindingSlots : ∀ slots : List (Slot μ (BindingElement μ ν)),
    Makes (bindingSlots slots) (marks.bindingSlots slots)
  | [] => .nil
  | .hole _ :: rest => makes_bindingSlots rest
  | .element e :: rest => (makes_element e).append (makes_bindingSlots rest)

theorem makes_bindingProperty : ∀ p : BindingProperty μ ν,
    Makes (bindingProperty p) (marks.bindingProperty p)
  | .shorthand _ _ init => ((makes_optExpr init).close rfl).also rfl
  | .keyed _ k e => ((makes_key k).append (makes_element e)).close rfl

theorem makes_bindingProperties : ∀ ps : List (BindingProperty μ ν),
    Makes (bindingProperties ps) (marks.bindingProperties ps)
  | [] => .nil
  | p :: rest => (makes_bindingProperty p).append (makes_bindingProperties rest)

theorem makes_target : ∀ t : Target μ ν, Makes (target t) (marks.target t)
  | .ident _ => .fresh rfl
  | .member _ object _ => (makes_expr object).close rfl
  | .index _ object k => ((makes_expr object).append (makes_expr k)).close rfl
  | .array _ slots rest =>
    (((makes_targetSlots slots).append (makes_optTarget rest)).close rfl).also (node_holes slots)
  | .object _ ps rest => ((makes_targetProperties ps).append (makes_optTarget rest)).close rfl

theorem makes_optTarget : ∀ t : Option (Target μ ν), Makes (optTarget t) (marks.optTarget t)
  | none => .nil
  | some t => makes_target t

theorem makes_targetElement : ∀ e : TargetElement μ ν,
    Makes (targetElement e) (marks.targetElement e)
  | .mk _ t init => ((makes_target t).append (makes_optExpr init)).close rfl

theorem makes_targetSlots : ∀ slots : List (Slot μ (TargetElement μ ν)),
    Makes (targetSlots slots) (marks.targetSlots slots)
  | [] => .nil
  | .hole _ :: rest => makes_targetSlots rest
  | .element e :: rest => (makes_targetElement e).append (makes_targetSlots rest)

theorem makes_targetProperty : ∀ p : TargetProperty μ ν,
    Makes (targetProperty p) (marks.targetProperty p)
  | .shorthand _ _ init => ((makes_optExpr init).close rfl).also rfl
  | .keyed _ k e => ((makes_key k).append (makes_targetElement e)).close rfl

theorem makes_targetProperties : ∀ ps : List (TargetProperty μ ν),
    Makes (targetProperties ps) (marks.targetProperties ps)
  | [] => .nil
  | p :: rest => (makes_targetProperty p).append (makes_targetProperties rest)

theorem makes_clauses : ∀ cs : List (Clause μ ν), Makes (clauses cs) (marks.clauses cs)
  | [] => .nil
  | .mk _ test statements :: rest =>
    (((makes_optExpr test).append (makes_stmts statements)).close rfl).append (makes_clauses rest)

end

theorem makes_item : ∀ i : Item μ ν, Makes (item i) (marks.item i)
  | .stmt s | .exportStmt s => makes_stmt s
  | .imports _ _ defaultBinding nameSpace named =>
    (((Makes.fresh rfl).also (node_importSpecifiers named)).also
      (node_optIdent defaultBinding)).also (node_optIdent nameSpace)
  | .exportAll _ _ => .fresh rfl
  | .exportFrom _ _ names => (Makes.fresh rfl).also (node_reexportSpecifiers names)
  | .exportLocals _ names => (Makes.fresh rfl).also (node_exportSpecifiers names)
  | .exportDefaultFunction f => makes_func f .nil
  | .exportDefaultClass c => makes_class c
  | .exportDefaultExpr value => makes_expr value

theorem makes_items : ∀ is : List (Item μ ν), Makes (items is) (marks.items is)
  | [] => .nil
  | i :: rest => (makes_item i).append (makes_items rest)

end Assembly

/-- Putting a program together makes its nodes, whatever they are marked with. -/
theorem Program.makes_assembly {μ ν : Type} :
    ∀ p : Program μ ν, Assembly.Makes p.assembly p.nodes
  | .script _ ds statements =>
    ((Assembly.makes_stmts statements).close rfl).also (Assembly.node_directives ds)
  | .module _ ds is => ((Assembly.makes_items is).close rfl).also (Assembly.node_directives ds)

end ScopeAnalysis
