import ScopeAnalysis.Program.Gathering
import ScopeAnalysis.Proofs.Relabelling.Analysis
import ScopeAnalysis.Session

/-!
# What an analysis interns

Besides the special names an analysis interns the texts of numbers used as keys of getters and
setters, wherever they stand, and nothing else. It interns all of them unless it is refused before,
and none of them a second time. Asking about a tree interns nothing.
-/

namespace ScopeAnalysis

/-- The text of a key that is a number, plain or computed. -/
def Key.numericText {μ ν : Type} : Key μ ν → List String
  | .number _ value | .computed _ (.literal _ (.number value)) => [value.propertyName]
  | _ => []

namespace Gathering

variable {μ ν : Type}

/-- The texts of the numbers that are keys of getters and setters. -/
def accessorTexts : Gathering μ ν String where
  mark _ := []
  method
    | .method, _ => []
    | .getter, k | .setter, k => k.numericText

@[simp]
theorem accessorTexts_mark (node : μ) : (accessorTexts (ν := ν)).mark node = [] := rfl

@[simp]
theorem accessorTexts_ident (id : Ident μ ν) : accessorTexts.ident id = [] := rfl

@[simp]
theorem accessorTexts_optIdent (id : Option (Ident μ ν)) : accessorTexts.optIdent id = [] := by
  cases id <;> rfl

@[simp]
theorem accessorTexts_directives (ds : List (Directive μ ν)) :
    accessorTexts.directives ds = [] := by
  induction ds with
  | nil => rfl
  | cons d rest ih => simpa [directives] using ih

@[simp]
theorem accessorTexts_holes {β : Type} (slots : List (Slot μ β)) :
    (accessorTexts (ν := ν)).holes slots = [] := by
  induction slots with
  | nil => rfl
  | cons slot rest ih => cases slot <;> simpa [holes] using ih

@[simp]
theorem accessorTexts_params (node : Option μ) (items : List (BindingElement μ ν))
    (rest : Option (Binding μ ν)) : accessorTexts.params (.mk node items rest) =
      accessorTexts.bindingElements items ++ accessorTexts.optBinding rest := by
  cases node <;> simp [params]

@[simp]
theorem accessorTexts_importSpecifiers (specifiers : List (ImportSpecifier μ ν)) :
    accessorTexts.importSpecifiers specifiers = [] := by
  induction specifiers with
  | nil => rfl
  | cons s rest ih => simpa [importSpecifiers] using ih

@[simp]
theorem accessorTexts_reexportSpecifiers (specifiers : List (ReexportSpecifier μ ν)) :
    accessorTexts.reexportSpecifiers specifiers = [] := by
  induction specifiers with
  | nil => rfl
  | cons s rest ih => simpa [reexportSpecifiers] using ih

@[simp]
theorem accessorTexts_exportSpecifiers (specifiers : List (ExportSpecifier μ ν)) :
    accessorTexts.exportSpecifiers specifiers = [] := by
  induction specifiers with
  | nil => rfl
  | cons s rest ih => simpa [exportSpecifiers] using ih

@[simp]
theorem mem_accessorTexts_element {text : String} {node : μ} {order : ElementOrder}
    {b : Binding μ ν} {init : Option (Expr μ ν)} :
    text ∈ accessorTexts.bindingElement (.mk node order b init) ↔
      text ∈ accessorTexts.binding b ∨ text ∈ accessorTexts.optExpr init := by
  cases order <;> simp [bindingElement, or_comm]

end Gathering

/-- The texts of the numbers that are keys of getters and setters, in objects and classes anywhere
in a program. -/
def NumberedProgram.accessorTexts (p : NumberedProgram) : List String :=
  Gathering.accessorTexts.program p

namespace Folding

/-- After the texts in front, a step interns none but the given texts, and the rest of them if it is
not refused. Where they are interned already it answers the same and interns nothing. -/
def InternsAfter {α : Type} (m : Folding α) (front texts : List String) : Prop :=
  front ⊆ texts ∧ ∀ table : Interner, ∃ done, (m.run table).2 = table.internAll done ∧
    done ⊆ texts ∧ ((m.run table).1.isOk = true → texts ⊆ front ++ done) ∧
    ∀ later : Interner, (table.internAll done).Begins later →
      m.run later = ((m.run table).1, later)

abbrev Interns {α : Type} (m : Folding α) (texts : List String) : Prop := m.InternsAfter [] texts

namespace InternsAfter

variable {α β : Type} {m : Folding α} {front texts own : List String}

theorem pure (a : α) (same : ∀ text, text ∈ texts ↔ text ∈ front) :
    (Pure.pure a : Folding α).InternsAfter front texts := by
  refine ⟨fun text => (same text).2, fun table => ⟨[], rfl, List.nil_subset _, fun _ => ?_,
    fun _ _ => rfl⟩⟩
  rw [List.append_nil]
  exact fun text => (same text).1

theorem nothing (a : α) : (Pure.pure a : Folding α).Interns [] := pure a (fun _ => Iff.rfl)

theorem answer (a : Answer α) : (Folding.answer a).Interns [] :=
  ⟨List.nil_subset _, fun _ => ⟨[], rfl, List.nil_subset _, fun _ => List.nil_subset _,
    fun _ _ => rfl⟩⟩

theorem interned (text : String) : (Folding.interned text).Interns [text] := by
  refine ⟨List.nil_subset _, fun table => ⟨[text], rfl, List.Subset.refl _,
    fun _ => List.Subset.refl _, fun later begins => ?_⟩⟩
  change (Except.ok (some (later.intern text).1), (later.intern text).2) = _
  rw [Interner.intern_of_begins begins]
  rfl

/-- The last step interns the rest. -/
theorem last (interns : m.Interns own) (same : ∀ text, text ∈ texts ↔ text ∈ front ∨ text ∈ own) :
    m.InternsAfter front texts := by
  refine ⟨fun text member => (same text).2 (.inl member), fun table => ?_⟩
  obtain ⟨done, interned, only, all, again⟩ := interns.2 table
  refine ⟨done, interned, fun text member => (same text).2 (.inr (only member)),
    fun ok text member => ?_, again⟩
  exact List.mem_append.2 (((same text).1 member).imp_right (fun inside => all ok inside))

theorem bind [Nonempty α] {next : α → Folding β} (first : m.Interns own)
    (second : ∀ a, (next a).InternsAfter (front ++ own) texts) :
    (m >>= next).InternsAfter front texts := by
  obtain ⟨a₀⟩ := (inferInstance : Nonempty α)
  obtain ⟨before, within⟩ := List.append_subset.1 (second a₀).1
  refine ⟨before, fun table => ?_⟩
  obtain ⟨done, interned, only, all, again⟩ := first.2 table
  obtain ⟨⟨result, later⟩, ran⟩ : ∃ result, m.run table = result := ⟨_, rfl⟩
  rw [ran] at interned all again
  subst interned
  cases result with
  | error refusal =>
    have stopped : (m >>= next).run table = (.error refusal, table.internAll done) :=
      run_bind_of_error ran
    rw [stopped]
    exact ⟨done, rfl, fun text member => within (only member), nofun,
      fun last begins => run_bind_of_error (again last begins)⟩
  | ok a =>
    obtain ⟨done', interned', only', all', again'⟩ := (second a).2 (table.internAll done)
    have went : (m >>= next).run table = (next a).run (table.internAll done) := run_bind_of_ok ran
    have sofar : front ++ own ⊆ front ++ done :=
      List.append_subset.2 ⟨List.subset_append_left .., fun text member =>
        List.mem_append_right _ (all rfl member)⟩
    rw [went]
    refine ⟨done ++ done', by rw [interned', Interner.internAll_append],
      List.append_subset.2 ⟨fun text member => within (only member), only'⟩,
      fun ok text member => ?_, fun last begins => ?_⟩
    · rw [← List.append_assoc]
      exact List.mem_append.2 ((List.mem_append.1 (all' ok member)).imp_left
        (fun inside => sofar inside))
    · rw [Interner.internAll_append] at begins
      have between := (Interner.Begins.internAll (table.internAll done) done').trans begins
      exact (run_bind_of_ok (again last between)).trans (again' last begins)

end InternsAfter

instance : Nonempty Outline := ⟨.nothing⟩

instance : Nonempty BodyOutline := ⟨.concise .nothing⟩

open Gathering (accessorTexts)

section Parts

variable {special : SpecialNames}

theorem interns_block (node : Node) (os : List Outline) : (block node os).Interns [] := by
  refine .bind (.answer _) fun _ => ?_
  exact .nothing _

theorem interns_staticName (k : Key Node Name) : (staticName k).Interns k.numericText := by
  cases k with
  | number node value => exact .interned value.propertyName
  | computed node value =>
    cases value with
    | literal node value =>
      cases value with
      | number value => exact .interned value.propertyName
      | _ => exact .nothing _
    | _ => exact .nothing _
  | _ => exact .nothing _

theorem interns_accessorSlot (isStatic : Bool) (kind : MethodKind) (k : Key Node Name) :
    (accessorSlot isStatic kind k).Interns (accessorTexts.method kind k) := by
  cases kind with
  | method => exact .nothing _
  | getter | setter =>
    refine .bind (interns_staticName k) fun _ => ?_
    exact .pure _ (by simp [accessorTexts])

mutual

theorem interns_expr : ∀ e : Expr Node Name, (expr special e).Interns (accessorTexts.expr e)
  | .ident _ | .literal _ _ | .keyword _ _ | .hole _ => .nothing _
  | .template _ tag parts => by
    refine .bind (interns_optExpr tag) fun _ => ?_
    refine .bind (interns_exprs parts) fun _ => ?_
    exact .pure _ (by simp)
  | .array _ es => by
    refine .bind (interns_exprs es) fun _ => ?_
    exact .pure _ (by simp)
  | .object _ ps => by
    refine .bind (interns_properties [] ps) fun _ => ?_
    exact .pure _ (by simp)
  | .member _ object _ => .last (interns_expr object) (by simp)
  | .index _ object k => by
    refine .bind (interns_expr object) fun _ => ?_
    refine .bind (interns_expr k) fun _ => ?_
    exact .pure _ (by simp)
  | .call _ callee args => by
    refine .bind (interns_expr callee) fun _ => ?_
    refine .bind (interns_exprs args) fun _ => ?_
    exact .pure _ (by simp)
  | .construct _ callee args => by
    refine .bind (interns_expr callee) fun _ => ?_
    refine .bind (interns_exprs args) fun _ => ?_
    exact .pure _ (by simp)
  | .function g => interns_func .expression g
  | .arrow g => interns_arrow g
  | .class_ c => interns_class false c
  | .assign _ _ t value => by
    refine .bind (interns_target t) fun _ => ?_
    refine .bind (interns_expr value) fun _ => ?_
    exact .pure _ (by simp)
  | .binary _ left _ right => by
    refine .bind (interns_expr left) fun _ => ?_
    refine .bind (interns_expr right) fun _ => ?_
    exact .pure _ (by simp)
  | .conditional _ test yes no => by
    refine .bind (interns_expr test) fun _ => ?_
    refine .bind (interns_expr yes) fun _ => ?_
    refine .bind (interns_expr no) fun _ => ?_
    exact .pure _ (by simp)
  | .delete node operand => by
    by_cases lone : ∃ id, operand = .ident id
    · obtain ⟨id, rfl⟩ := lone
      exact .nothing _
    · have other : ∀ id, operand ≠ .ident id := fun id same => lone ⟨id, same⟩
      rw [expr_delete special other]
      exact .last (interns_expr operand) (by simp)
  | .unary _ _ operand => .last (interns_expr operand) (by simp)
  | .update _ _ _ (.ident _) => .nothing _
  | .update _ _ _ (.member _ object _) => .last (interns_expr object) (by simp)
  | .update _ _ _ (.index _ object k) => by
    refine .bind (interns_expr object) fun _ => ?_
    refine .bind (interns_expr k) fun _ => ?_
    exact .pure _ (by simp)
  | .update _ _ _ (.array node slots rest) =>
    .last (interns_target (.array node slots rest)) (by simp)
  | .update _ _ _ (.object node ps rest) => .last (interns_target (.object node ps rest)) (by simp)
  | .yield _ operand => .last (interns_optExpr operand) (by simp)
  | .spread _ operand => .last (interns_expr operand) (by simp)

theorem interns_optExpr : ∀ e : Option (Expr Node Name),
    (optExpr special e).Interns (accessorTexts.optExpr e)
  | none => .nothing _
  | some e => interns_expr e

theorem interns_exprs : ∀ es : List (Expr Node Name),
    (exprs special es).Interns (accessorTexts.exprs es)
  | [] => .nothing _
  | e :: rest => by
    refine .bind (interns_expr e) fun _ => ?_
    refine .bind (interns_exprs rest) fun _ => ?_
    exact .pure _ (by simp)

theorem interns_properties (parts : List Part) : ∀ ps : List (Property Node Name),
    (properties special parts ps).Interns (accessorTexts.properties ps)
  | [] => .nothing _
  | .keyed _ k value :: rest => by
    refine .bind (interns_key k) fun _ => ?_
    refine .bind (interns_expr value) fun _ => ?_
    exact .last (interns_properties _ rest) (by simp [or_assoc])
  | .shorthand _ id :: rest => .last (interns_properties _ rest) (by simp)
  | .spread _ value :: rest => by
    refine .bind (interns_expr value) fun _ => ?_
    exact .last (interns_properties _ rest) (by simp)
  | .method kind k g :: rest => by
    refine .bind (interns_func _ g) fun _ => ?_
    refine .bind (interns_key k) fun _ => ?_
    refine .bind (interns_accessorSlot false kind k) fun _ => ?_
    exact .last (interns_properties _ rest) (by simp [or_left_comm, or_assoc])

theorem interns_members (parts : List Part) : ∀ ms : List (Member Node Name),
    (members special parts ms).Interns (accessorTexts.members ms)
  | [] => .nothing _
  | .mk _ isStatic kind k g :: rest => by
    refine .bind (interns_func _ g) fun _ => ?_
    refine .bind (interns_key k) fun _ => ?_
    refine .bind (interns_accessorSlot isStatic kind k) fun _ => ?_
    exact .last (interns_members _ rest) (by simp [or_left_comm, or_assoc])

theorem interns_key : ∀ k : Key Node Name, (key special k).Interns (accessorTexts.key k)
  | .computed _ value => .last (interns_expr value) (by simp)
  | .ident _ | .string _ _ | .number _ _ => .nothing _

theorem interns_class (isDeclaration : Bool) : ∀ c : Class Node Name,
    (classOutline special isDeclaration c).Interns (accessorTexts.classTree c)
  | .mk _ _ heritage ms => by
    refine .bind (interns_members [] ms) fun _ => ?_
    refine .bind (interns_optExpr heritage) fun _ => ?_
    exact .pure _ (by simp [or_comm])

theorem interns_func (kind : FunctionKind) : ∀ g : Func Node Name,
    (func special kind g).Interns (accessorTexts.func g)
  | .mk _ _ _ ps b => by
    refine .bind (interns_params ps) fun _ => ?_
    refine .bind (interns_body b) fun _ => ?_
    exact .pure _ (by simp)

theorem interns_arrow : ∀ g : Func Node Name,
    (arrow special g).Interns (accessorTexts.func g)
  | .mk _ _ _ ps b => by
    refine .bind (interns_body b) fun _ => ?_
    refine .bind (interns_params ps) fun _ => ?_
    exact .pure _ (by simp [or_comm])

theorem interns_params : ∀ ps : Params Node Name,
    (params special ps).Interns (accessorTexts.params ps)
  | .mk _ items none => .last (interns_paramItems items) (by simp)
  | .mk _ items (some b) => by
    refine .bind (interns_paramItems items) fun _ => ?_
    refine .bind (interns_binding b) fun _ => ?_
    exact .pure _ (by simp)

theorem interns_paramItems : ∀ es : List (BindingElement Node Name),
    (paramItems special es).Interns (accessorTexts.bindingElements es)
  | [] => .nothing _
  | e :: rest => by
    refine .bind (interns_element e) fun _ => ?_
    refine .bind (interns_paramItems rest) fun _ => ?_
    exact .pure _ (by simp)

theorem interns_body : ∀ b : Body Node Name, (body special b).Interns (accessorTexts.body b)
  | .block _ _ statements => by
    refine .bind (interns_stmts statements) fun _ => ?_
    refine .bind (.answer _) fun _ => ?_
    exact .pure _ (by simp)
  | .concise value => by
    refine .bind (interns_expr value) fun _ => ?_
    exact .pure _ (by simp)

theorem interns_binding : ∀ b : Binding Node Name,
    (binding special b).Interns (accessorTexts.binding b)
  | .ident _ => .nothing _
  | .array _ slots rest => by
    refine .bind (interns_bindingSlots slots) fun _ => ?_
    refine .bind (interns_optBinding rest) fun _ => ?_
    exact .pure _ (by simp)
  | .object _ ps _ => by
    refine .bind (interns_bindingProperties ps) fun _ => ?_
    exact .pure _ (by simp)

theorem interns_optBinding : ∀ b : Option (Binding Node Name),
    (optBinding special b).Interns (accessorTexts.optBinding b)
  | none => .nothing _
  | some b => interns_binding b

theorem interns_element : ∀ e : BindingElement Node Name,
    (bindingElement special e).Interns (accessorTexts.bindingElement e)
  | .mk _ _ b none => .last (interns_binding b) (by simp)
  | .mk _ _ b (some init) => by
    refine .bind (interns_binding b) fun _ => ?_
    refine .bind (interns_expr init) fun _ => ?_
    exact .pure _ (by simp)

theorem interns_bindingSlots : ∀ slots : List (Slot Node (BindingElement Node Name)),
    (bindingSlots special slots).Interns (accessorTexts.bindingSlots slots)
  | [] => .nothing _
  | .hole _ :: rest => interns_bindingSlots rest
  | .element e :: rest => by
    refine .bind (interns_element e) fun _ => ?_
    refine .bind (interns_bindingSlots rest) fun _ => ?_
    exact .pure _ (by simp)

theorem interns_bindingProperty : ∀ p : BindingProperty Node Name,
    (bindingProperty special p).Interns (accessorTexts.bindingProperty p)
  | .shorthand _ _ none => .nothing _
  | .shorthand _ _ (some init) => by
    refine .bind (interns_expr init) fun _ => ?_
    exact .pure _ (by simp)
  | .keyed _ k e => by
    refine .bind (interns_key k) fun _ => ?_
    refine .bind (interns_element e) fun _ => ?_
    exact .pure _ (by simp)

theorem interns_bindingProperties : ∀ ps : List (BindingProperty Node Name),
    (bindingProperties special ps).Interns (accessorTexts.bindingProperties ps)
  | [] => .nothing _
  | p :: rest => by
    refine .bind (interns_bindingProperty p) fun _ => ?_
    refine .bind (interns_bindingProperties rest) fun _ => ?_
    exact .pure _ (by simp)

theorem interns_target : ∀ t : Target Node Name,
    (target special t).Interns (accessorTexts.target t)
  | .ident _ => .nothing _
  | .member _ object _ => by
    refine .bind (interns_expr object) fun _ => ?_
    exact .pure _ (by simp)
  | .index _ object k => by
    refine .bind (interns_expr object) fun _ => ?_
    refine .bind (interns_expr k) fun _ => ?_
    exact .pure _ (by simp)
  | .array _ slots rest => by
    refine .bind (interns_targetSlots slots) fun _ => ?_
    refine .bind (interns_optTarget rest) fun _ => ?_
    exact .pure _ (by simp)
  | .object _ ps rest => by
    refine .bind (interns_targetProperties ps) fun _ => ?_
    refine .bind (interns_optTarget rest) fun _ => ?_
    exact .pure _ (by simp)

theorem interns_optTarget : ∀ t : Option (Target Node Name),
    (optTarget special t).Interns (accessorTexts.optTarget t)
  | none => .nothing _
  | some t => interns_target t

theorem interns_targetElement : ∀ e : TargetElement Node Name,
    (targetElement special e).Interns (accessorTexts.targetElement e)
  | .mk _ t init => by
    refine .bind (interns_target t) fun _ => ?_
    refine .bind (interns_optExpr init) fun _ => ?_
    exact .pure _ (by simp)

theorem interns_targetSlots : ∀ slots : List (Slot Node (TargetElement Node Name)),
    (targetSlots special slots).Interns (accessorTexts.targetSlots slots)
  | [] => .nothing _
  | .hole _ :: rest => interns_targetSlots rest
  | .element e :: rest => by
    refine .bind (interns_targetElement e) fun _ => ?_
    refine .bind (interns_targetSlots rest) fun _ => ?_
    exact .pure _ (by simp)

theorem interns_targetProperty : ∀ p : TargetProperty Node Name,
    (targetProperty special p).Interns (accessorTexts.targetProperty p)
  | .shorthand _ _ init => by
    refine .bind (interns_optExpr init) fun _ => ?_
    exact .pure _ (by simp)
  | .keyed _ k e => by
    refine .bind (interns_key k) fun _ => ?_
    refine .bind (interns_targetElement e) fun _ => ?_
    exact .pure _ (by simp)

theorem interns_targetProperties : ∀ ps : List (TargetProperty Node Name),
    (targetProperties special ps).Interns (accessorTexts.targetProperties ps)
  | [] => .nothing _
  | p :: rest => by
    refine .bind (interns_targetProperty p) fun _ => ?_
    refine .bind (interns_targetProperties rest) fun _ => ?_
    exact .pure _ (by simp)

theorem interns_declarators : ∀ ds : List (BindingElement Node Name),
    (declarators special ds).Interns (accessorTexts.bindingElements ds)
  | [] => .nothing _
  | .mk _ _ b init :: rest => by
    refine .bind (interns_binding b) fun _ => ?_
    refine .bind (interns_optExpr init) fun _ => ?_
    refine .bind (interns_declarators rest) fun _ => ?_
    exact .pure _ (by simp [or_assoc])

theorem interns_stmt : ∀ s : Stmt Node Name, (stmt special s).Interns (accessorTexts.stmt s)
  | .expr _ value => .last (interns_expr value) (by simp)
  | .decl _ _ _ ds => by
    refine .bind (interns_declarators ds) fun _ => ?_
    exact .pure _ (by simp)
  | .block node statements => by
    refine .bind (interns_stmts statements) fun os => ?_
    exact .last (interns_block node os) (by simp)
  | .empty _ | .debugger _ | .jump _ _ _ => .nothing _
  | .labeled _ _ s => .last (interns_stmt s) (by simp)
  | .ifThen _ test yes => by
    refine .bind (interns_expr test) fun _ => ?_
    refine .bind (interns_stmt yes) fun _ => ?_
    exact .pure _ (by simp)
  | .ifElse _ test yes no => by
    refine .bind (interns_expr test) fun _ => ?_
    refine .bind (interns_stmt yes) fun _ => ?_
    refine .bind (interns_stmt no) fun _ => ?_
    exact .pure _ (by simp)
  | .forLoop _ init test step s => by
    refine .bind (interns_optExpr init) fun _ => ?_
    refine .bind (.answer _) fun _ => ?_
    refine .bind (interns_optExpr test) fun _ => ?_
    refine .bind (interns_optExpr step) fun _ => ?_
    refine .bind (interns_stmt s) fun _ => ?_
    exact .pure _ (by simp)
  | .forDecl _ _ _ ds test step s => by
    refine .bind (interns_declarators ds) fun _ => ?_
    refine .bind (.answer _) fun _ => ?_
    refine .bind (interns_optExpr test) fun _ => ?_
    refine .bind (interns_optExpr step) fun _ => ?_
    refine .bind (interns_stmt s) fun _ => ?_
    exact .pure _ (by simp)
  | .forEach _ _ t collection s => by
    refine .bind (interns_target t) fun _ => ?_
    refine .bind (interns_expr collection) fun _ => ?_
    refine .bind (interns_stmt s) fun _ => ?_
    exact .pure _ (by simp)
  | .forEachDecl _ _ _ _ ds collection s => by
    refine .bind (interns_declarators ds) fun _ => ?_
    refine .bind (.answer _) fun _ => ?_
    refine .bind (interns_expr collection) fun _ => ?_
    refine .bind (interns_stmt s) fun _ => ?_
    exact .pure _ (by simp)
  | .whileLoop _ test s => by
    refine .bind (interns_expr test) fun _ => ?_
    refine .bind (interns_stmt s) fun _ => ?_
    exact .pure _ (by simp)
  | .doLoop _ s test => by
    refine .bind (interns_stmt s) fun _ => ?_
    refine .bind (interns_expr test) fun _ => ?_
    exact .pure _ (by simp)
  | .ret _ value => .last (interns_optExpr value) (by simp)
  | .throw _ value => .last (interns_expr value) (by simp)
  | .withObject _ object s => by
    refine .bind (interns_expr object) fun _ => ?_
    refine .bind (interns_stmt s) fun _ => ?_
    exact .pure _ (by simp)
  | .switch _ discriminant _ cs => by
    refine .bind (interns_clauses cs) fun _ => ?_
    refine .bind (interns_expr discriminant) fun _ => ?_
    exact .pure _ (by simp [or_comm])
  | .tryCatch _ node statements h => by
    refine .bind (interns_stmts statements) fun os => ?_
    refine .bind (interns_block node os) fun _ => ?_
    refine .bind (interns_handler h) fun _ => ?_
    refine .pure _ ?_
    cases h
    simp
  | .tryFinally _ node statements last finalizer => by
    refine .bind (interns_stmts statements) fun os => ?_
    refine .bind (interns_block node os) fun _ => ?_
    refine .bind (interns_stmts finalizer) fun os' => ?_
    refine .bind (interns_block last os') fun _ => ?_
    exact .pure _ (by simp)
  | .tryCatchFinally _ node statements h last finalizer => by
    refine .bind (interns_stmts statements) fun os => ?_
    refine .bind (interns_block node os) fun _ => ?_
    refine .bind (interns_handler h) fun _ => ?_
    refine .bind (interns_stmts finalizer) fun os' => ?_
    refine .bind (interns_block last os') fun _ => ?_
    refine .pure _ ?_
    cases h
    simp
  | .function g => interns_func .declaration g
  | .class_ c => interns_class true c

theorem interns_stmts : ∀ ss : List (Stmt Node Name),
    (stmts special ss).Interns (accessorTexts.stmts ss)
  | [] => .nothing _
  | s :: rest => by
    refine .bind (interns_stmt s) fun _ => ?_
    refine .bind (interns_stmts rest) fun _ => ?_
    exact .pure _ (by simp)

theorem interns_handler : ∀ h : Handler Node Name,
    (handler special h).Interns (accessorTexts.handlerParts h)
  | .mk _ b _ statements => by
    refine .bind (interns_optBinding b) fun _ => ?_
    refine .bind (interns_stmts statements) fun _ => ?_
    refine .bind (.answer _) fun _ => ?_
    exact .pure _ (by simp)

theorem interns_clauses : ∀ cs : List (Clause Node Name),
    (clauses special cs).Interns (accessorTexts.clauses cs)
  | [] => .nothing _
  | .mk _ test statements :: rest => by
    refine .bind (interns_optExpr test) fun _ => ?_
    refine .bind (interns_clauseStmts statements) fun _ => ?_
    refine .bind (interns_clauses rest) fun _ => ?_
    exact .pure _ (by simp)

theorem interns_clauseStmts : ∀ ss : List (Stmt Node Name),
    (clauseStmts special ss).Interns (accessorTexts.stmts ss)
  | [] => .nothing _
  | s :: rest => by
    refine .bind (interns_stmt s) fun _ => ?_
    refine .bind (.answer _) fun _ => ?_
    refine .bind (interns_clauseStmts rest) fun _ => ?_
    exact .pure _ (by simp)

end

theorem interns_item (i : Item Node Name) :
    (item special i).Interns (accessorTexts.item i) := by
  cases i with
  | stmt s | exportStmt s => exact interns_stmt s
  | imports _ _ _ _ _ | exportFrom _ _ _ | exportLocals _ _ =>
    exact .pure _ (by simp)
  | exportAll _ _ => exact .nothing _
  | exportDefaultFunction g => exact interns_func .declaration g
  | exportDefaultClass c => exact interns_class true c
  | exportDefaultExpr value => exact interns_expr value

theorem interns_items : ∀ is : List (Item Node Name),
    (items special is).Interns (accessorTexts.items is)
  | [] => .nothing _
  | i :: rest => by
    refine .bind (interns_item i) fun _ => ?_
    refine .bind (interns_items rest) fun _ => ?_
    exact .pure _ (by simp)

end Parts

end Folding

/-- Folding a program interns the texts of its numeric accessor keys. -/
theorem NumberedProgram.interns_outline {special : SpecialNames} : ∀ p : NumberedProgram,
    (p.outline special).Interns p.accessorTexts
  | .script _ _ statements => by
    refine .bind (Folding.interns_stmts statements) fun _ => ?_
    refine .bind (.answer _) fun _ => ?_
    exact .pure _ (by simp [NumberedProgram.accessorTexts])
  | .module _ _ is => by
    refine .bind (Folding.interns_items is) fun _ => ?_
    refine .bind (.answer _) fun _ => ?_
    exact .pure _ (by simp [NumberedProgram.accessorTexts])

namespace Session

variable (session : Session)

/-- Every question hands the table of names back as it was. -/
theorem answer?_snd (tree : ScopeTree) (query : Query) (names : Interner) :
    ((answer? tree query).run names).2 = names := by
  cases query <;> rfl

theorem reply_snd {question : Asking (Option Reply)}
    (silent : ∀ names, (question.run names).2 = names) : (session.reply question).2 = session := by
  change { session with bench := { session.bench with names := (question.run _).2 } } = session
  rw [silent]

theorem ask_snd (tree : Nat) (query : Query) : (session.step (.ask tree query)).2 = session := by
  simp only [step]
  split
  next t _ => exact session.reply_snd (answer?_snd t query)
  next => rfl

theorem sameSummary_snd (first second : Nat) :
    (session.step (.sameSummary first second)).2 = session := by
  simp only [step]
  split
  · exact session.reply_snd (fun _ => rfl)
  · rfl

end Session

/-- Once interned, the special names stay what they are. -/
theorem SpecialNames.intern_of_begins {table later : Interner}
    (begins : (SpecialNames.intern table).2.Begins later) :
    SpecialNames.intern later = ((SpecialNames.intern table).1, later) := by
  have second := Interner.Begins.intern ((table.intern "arguments").2.intern "eval").2 "use strict"
  have first := Interner.Begins.intern (table.intern "arguments").2 "eval"
  have useStrict : later.intern "use strict" =
      ((((table.intern "arguments").2.intern "eval").2.intern "use strict").1, later) :=
    Interner.intern_of_begins begins
  have eval := Interner.intern_of_begins (second.trans begins)
  have arguments := Interner.intern_of_begins (first.trans (second.trans begins))
  simp only [SpecialNames.intern, arguments, eval, useStrict]

namespace NumberedProgram

/-- What the analysis of a program under some options does to the table of names. -/
structure InternsExactly (p : NumberedProgram) (options : Options) (names : Interner) : Prop where
  completed : ∀ a names', p.analyze options names = (.ok a, names') → ∀ text,
    text ∈ names'.texts ↔
      text ∈ names.texts ∨ text ∈ SpecialNames.texts ∨ text ∈ p.accessorTexts
  refused : ∀ refusal names', p.analyze options names = (.error refusal, names') → ∀ text,
    (text ∈ names.texts ∨ text ∈ SpecialNames.texts → text ∈ names'.texts) ∧
    (text ∈ names'.texts →
      text ∈ names.texts ∨ text ∈ SpecialNames.texts ∨ text ∈ p.accessorTexts)
  /-- Handles stay what they are. -/
  handles : ∀ name text,
    (names.text? name = some text → (p.analyze options names).2.text? name = some text) ∧
    (names.find? text = some name → (p.analyze options names).2.find? text = some name)
  /-- Analyzed again, whatever the options and however much was interned in between, the program
  is answered as it would have been at first, and nothing is interned. -/
  again : ∀ options' later, (p.analyze options names).2.Begins later →
    p.analyze options' later = ((p.analyze options' names).1, later)

open Resolution in
/-- An analysis interns the special names and some texts of numeric accessor keys, all of them if it
is not refused, and the second time nothing at all. -/
theorem exists_interned (p : NumberedProgram) (names : Interner) :
    ∃ done ⊆ p.accessorTexts, ∀ options,
      (p.analyze options names).2 = names.internAll (SpecialNames.texts ++ done) ∧
      ((p.analyze options names).1.isOk = true → p.accessorTexts ⊆ done) ∧
      ∀ later, (names.internAll (SpecialNames.texts ++ done)).Begins later →
        p.analyze options later = ((p.analyze options names).1, later) := by
  obtain ⟨done, interned, only, all, again⟩ := p.interns_outline.2 (SpecialNames.intern names).2
  obtain ⟨⟨answer, last⟩, folded⟩ : ∃ result, (p.outline (SpecialNames.intern names).1).run
      (SpecialNames.intern names).2 = result := ⟨_, rfl⟩
  rw [folded] at interned all again
  subst interned
  have split : names.internAll (SpecialNames.texts ++ done) =
      (SpecialNames.intern names).2.internAll done := Interner.internAll_append ..
  refine ⟨done, only, fun options => ?_⟩
  rw [split]
  refine ⟨analyze_snd_of_folded folded, fun ok => all ?_, fun later begins => ?_⟩
  · cases answer with
    | error refusal =>
      rw [analyze_of_refused folded] at ok
      cases ok
    | ok outline => rfl
  · have special := SpecialNames.intern_of_begins ((Interner.Begins.internAll _ done).trans begins)
    have folded' : (p.outline (SpecialNames.intern later).1).run (SpecialNames.intern later).2 =
        (answer, later) := by
      rw [special]
      exact again later begins
    cases answer with
    | error refusal => rw [analyze_of_refused folded, analyze_of_refused folded']
    | ok outline => rw [analyze_of_folded folded, analyze_of_folded folded', special]

/-- An analysis interns exactly what it must. A question about a tree interns nothing, and neither
does a comparison of summaries. -/
theorem internsExactly (p : NumberedProgram) (options : Options) (names : Interner) :
    p.InternsExactly options names ∧ ∀ session : Session,
      (∀ tree query, (session.step (.ask tree query)).2 = session) ∧
      ∀ first second, (session.step (.sameSummary first second)).2 = session := by
  obtain ⟨done, only, analyzed⟩ := p.exists_interned names
  obtain ⟨interned, all, again⟩ := analyzed options
  have mem (text : String) : text ∈ (p.analyze options names).2.texts ↔
      text ∈ names.texts ∨ text ∈ SpecialNames.texts ∨ text ∈ done := by
    rw [interned, Interner.mem_texts_internAll, List.mem_append]
  have begins : names.Begins (p.analyze options names).2 := by
    rw [interned]
    exact .internAll names _
  refine ⟨⟨fun a names' ok text => ?_, fun refusal names' error text => ⟨fun old => ?_,
    fun new => ?_⟩, fun name text => ?_, fun options' later after => ?_⟩,
    fun session => ⟨session.ask_snd, session.sameSummary_snd⟩⟩
  · rw [ok] at mem all
    have whole : text ∈ done ↔ text ∈ p.accessorTexts :=
      ⟨fun member => only member, fun member => all rfl member⟩
    rw [mem text, whole]
  · rw [error] at mem
    exact (mem text).2 (old.imp_right .inl)
  · rw [error] at mem
    exact ((mem text).1 new).imp_right (fun either => either.imp_right (fun member => only member))
  · exact ⟨begins.text?, begins.find?⟩
  · rw [interned] at after
    exact (analyzed options').2.2 later after

end NumberedProgram

end ScopeAnalysis
