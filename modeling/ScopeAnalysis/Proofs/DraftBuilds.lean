import ScopeAnalysis.Proofs.Building

/-!
# Drafts are built from left to right

Numbering a draft is one way of building it. Everything that is asked for stands in the program, and
its nodes stand there in the order of the calls. Which calls these are depends on the draft alone,
and so does the tree that is put together from what they hand out.
-/

namespace ScopeAnalysis

/-- Nodes at these places with consecutive numbers. -/
def Node.numbered (first : BitVec 32) (spans : List Span) : List Node :=
  spans.mapIdx (fun i span => ⟨⟨first + BitVec.ofNat 32 i⟩, span⟩)

namespace Node

theorem length_numbered (first : BitVec 32) (spans : List Span) :
    (numbered first spans).length = spans.length := List.length_mapIdx

theorem numbered_append (first : BitVec 32) (spans more : List Span) :
    numbered first (spans ++ more) =
      numbered first spans ++ numbered (first + BitVec.ofNat 32 spans.length) more := by
  simp only [numbered, List.mapIdx_append, BitVec.add_assoc, ← BitVec.ofNat_add, Nat.add_comm]

end Node

/-- A kind of syntax: its trees over marks and names, the marks of a tree in the order of its parts,
and how a tree is mapped. -/
structure Form where
  Tree : Type → Type → Type
  nodes {μ ν : Type} : Tree μ ν → List μ
  map {μ ν μ' ν' : Type} : (μ → μ') → (ν → ν') → Tree μ ν → Tree μ' ν'

namespace Form

open Gathering (marks)

def node : Form := ⟨fun μ _ => μ, fun n => [n], fun f _ => f⟩
def name : Form := ⟨fun _ ν => ν, fun _ => [], fun _ g => g⟩

/-- Two parts, the nodes of the first one before those of the second one. -/
def pair (S T : Form) : Form where
  Tree μ ν := S.Tree μ ν × T.Tree μ ν
  nodes p := S.nodes p.1 ++ T.nodes p.2
  map f g p := (S.map f g p.1, T.map f g p.2)

/-- Two parts of which the second one has no nodes. -/
def beside (S T : Form) : Form where
  Tree μ ν := S.Tree μ ν × T.Tree μ ν
  nodes p := S.nodes p.1
  map f g p := (S.map f g p.1, T.map f g p.2)

def optName : Form := ⟨fun _ ν => Option ν, fun _ => [], fun _ g => Option.map g⟩
def ident : Form := ⟨Ident, marks.ident, fun f g => (Mapping.plain f g).ident⟩
def optIdent : Form :=
  ⟨fun μ ν => Option (Ident μ ν), marks.optIdent, fun f g => Option.map (Mapping.plain f g).ident⟩
def directives : Form :=
  ⟨fun μ ν => List (Directive μ ν), marks.directives,
    fun f g => List.map (Mapping.plain f g).directive⟩
def literal : Form := ⟨fun _ => Literal, fun _ => [], fun f g => (Mapping.plain f g).literal⟩
def expr : Form := ⟨Expr, marks.expr, fun f g => (Mapping.plain f g).expr⟩
def optExpr : Form :=
  ⟨fun μ ν => Option (Expr μ ν), marks.optExpr, fun f g => (Mapping.plain f g).optExpr⟩
def exprs : Form := ⟨fun μ ν => List (Expr μ ν), marks.exprs, fun f g => (Mapping.plain f g).exprs⟩
def stmt : Form := ⟨Stmt, marks.stmt, fun f g => (Mapping.plain f g).stmt⟩
def stmts : Form := ⟨fun μ ν => List (Stmt μ ν), marks.stmts, fun f g => (Mapping.plain f g).stmts⟩
def func : Form := ⟨Func, marks.func, fun f g => (Mapping.plain f g).func⟩
def params : Form := ⟨Params, marks.params, fun f g => (Mapping.plain f g).params⟩
def body : Form := ⟨Body, marks.body, fun f g => (Mapping.plain f g).body⟩
def classTree : Form := ⟨Class, marks.classTree, fun f g => (Mapping.plain f g).classTree⟩
def members : Form :=
  ⟨fun μ ν => List (Member μ ν), marks.members, fun f g => (Mapping.plain f g).members⟩
def key : Form := ⟨Key, marks.key, fun f g => (Mapping.plain f g).key⟩
def property : Form := ⟨Property, marks.property, fun f g => (Mapping.plain f g).property⟩
def properties : Form :=
  ⟨fun μ ν => List (Property μ ν), marks.properties, fun f g => (Mapping.plain f g).properties⟩
def binding : Form := ⟨Binding, marks.binding, fun f g => (Mapping.plain f g).binding⟩
def optBinding : Form :=
  ⟨fun μ ν => Option (Binding μ ν), marks.optBinding, fun f g => (Mapping.plain f g).optBinding⟩
def bindingElement : Form :=
  ⟨BindingElement, marks.bindingElement, fun f g => (Mapping.plain f g).element⟩
def bindingElements : Form :=
  ⟨fun μ ν => List (BindingElement μ ν), marks.bindingElements,
    fun f g => (Mapping.plain f g).elements⟩
def bindingProperty : Form :=
  ⟨BindingProperty, marks.bindingProperty, fun f g => (Mapping.plain f g).bindingProperty⟩
def bindingProperties : Form :=
  ⟨fun μ ν => List (BindingProperty μ ν), marks.bindingProperties,
    fun f g => (Mapping.plain f g).bindingProperties⟩
def target : Form := ⟨Target, marks.target, fun f g => (Mapping.plain f g).target⟩
def optTarget : Form :=
  ⟨fun μ ν => Option (Target μ ν), marks.optTarget, fun f g => (Mapping.plain f g).optTarget⟩
def targetElement : Form :=
  ⟨TargetElement, marks.targetElement, fun f g => (Mapping.plain f g).targetElement⟩
def targetProperty : Form :=
  ⟨TargetProperty, marks.targetProperty, fun f g => (Mapping.plain f g).targetProperty⟩
def targetProperties : Form :=
  ⟨fun μ ν => List (TargetProperty μ ν), marks.targetProperties,
    fun f g => (Mapping.plain f g).targetProperties⟩
def clauses : Form :=
  ⟨fun μ ν => List (Clause μ ν), marks.clauses, fun f g => (Mapping.plain f g).clauses⟩
def importSpecifiers : Form :=
  ⟨fun μ ν => List (ImportSpecifier μ ν), marks.importSpecifiers,
    fun f g => List.map (Mapping.plain f g).importSpecifier⟩
def reexportSpecifiers : Form :=
  ⟨fun μ ν => List (ReexportSpecifier μ ν), marks.reexportSpecifiers,
    fun f g => List.map (Mapping.plain f g).reexportSpecifier⟩
def exportSpecifiers : Form :=
  ⟨fun μ ν => List (ExportSpecifier μ ν), marks.exportSpecifiers,
    fun f g => List.map (Mapping.plain f g).exportSpecifier⟩
def item : Form := ⟨Item, marks.item, fun f g => (Mapping.plain f g).item⟩
def items : Form :=
  ⟨fun μ ν => List (Item μ ν), marks.items, fun f g => List.map (Mapping.plain f g).item⟩
def program : Form := ⟨Program, Program.nodes, fun f g => Program.map (.plain f g)⟩

/-- The places of a pattern, of which the holes are numbered after some other parts. -/
def bindingPattern (S : Form) : Form where
  Tree μ ν := List (Slot μ (BindingElement μ ν)) × S.Tree μ ν
  nodes {_ ν} p := marks.bindingSlots p.1 ++ S.nodes p.2 ++ (marks (ν := ν)).holes p.1
  map f g p := ((Mapping.plain f g).bindingSlots p.1, S.map f g p.2)

/-- The places of a pattern, of which the holes are numbered after some other parts. -/
def targetPattern (S : Form) : Form where
  Tree μ ν := List (Slot μ (TargetElement μ ν)) × S.Tree μ ν
  nodes {_ ν} p := marks.targetSlots p.1 ++ S.nodes p.2 ++ (marks (ν := ν)).holes p.1
  map f g p := ((Mapping.plain f g).targetSlots p.1, S.map f g p.2)

end Form

section

variable {μ ν : Type} {calls more : List Call} {marks others : List μ} {bench : Workbench}
  {node : μ → Node} {name : ν → Name}

/-- The marks and names stand for what the calls hand out on a workbench. -/
structure HandsOut (calls : List Call) (marks : List μ)
    (handle : {text // text ∈ Call.texts calls} → ν) (bench : Workbench) (node : μ → Node)
    (name : ν → Name) : Prop where
  nodes : marks.map node = Node.numbered bench.next (Call.spans calls)
  names : ∀ text, name (handle text) = ((bench.after calls).names.intern text.1).1

/-- The marks and names stand for what the calls ask for. -/
structure AsksFor (calls : List Call) (marks : List μ)
    (handle : {text // text ∈ Call.texts calls} → ν) (span : μ → Span) (text : ν → String) :
    Prop where
  spans : marks.map span = Call.spans calls
  texts : ∀ asked, text (handle asked) = asked.1

/-- A text that the first calls ask for. -/
def Call.ofFirst (text : {text // text ∈ Call.texts calls}) :
    {text // text ∈ Call.texts (calls ++ more)} :=
  ⟨text.1, by rw [texts_append]; exact List.mem_append_left _ text.2⟩

/-- A text that the later calls ask for. -/
def Call.ofSecond (text : {text // text ∈ Call.texts more}) :
    {text // text ∈ Call.texts (calls ++ more)} :=
  ⟨text.1, by rw [texts_append]; exact List.mem_append_right _ text.2⟩

variable {handle : {text // text ∈ Call.texts (calls ++ more)} → ν}

theorem HandsOut.first (out : HandsOut (calls ++ more) (marks ++ others) handle bench node name)
    (length : marks.length = (Call.spans calls).length) :
    HandsOut calls marks (fun text => handle (Call.ofFirst text)) bench node name where
  nodes := by
    have nodes := out.nodes
    rw [Call.spans_append, Node.numbered_append, List.map_append] at nodes
    exact (List.append_inj nodes (by simpa [Node.length_numbered] using length)).1
  names text := by
    have there : text.1 ∈ (bench.after calls).names.texts := by
      rw [Workbench.names_after]
      exact Interner.mem_texts_internAll.2 (.inr text.2)
    have begins := Workbench.begins_after (bench.after calls) more
    rw [← Workbench.after_append] at begins
    rw [out.names, ← begins.intern_fst there]
    rfl

theorem HandsOut.second (out : HandsOut (calls ++ more) (marks ++ others) handle bench node name)
    (length : marks.length = (Call.spans calls).length) :
    HandsOut more others (fun text => handle (Call.ofSecond text)) (bench.after calls) node
      name where
  nodes := by
    have nodes := out.nodes
    rw [Call.spans_append, Node.numbered_append, List.map_append] at nodes
    rw [Workbench.next_after]
    exact (List.append_inj nodes (by simpa [Node.length_numbered] using length)).2
  names text := by
    rw [out.names, Workbench.after_append]
    rfl

variable {span : μ → Span} {text : ν → String}

theorem AsksFor.first (asks : AsksFor (calls ++ more) (marks ++ others) handle span text)
    (length : marks.length = (Call.spans calls).length) :
    AsksFor calls marks (fun text => handle (Call.ofFirst text)) span text where
  spans := by
    have spans := asks.spans
    rw [Call.spans_append, List.map_append] at spans
    exact (List.append_inj spans (by rwa [List.length_map])).1
  texts asked := asks.texts (Call.ofFirst asked)

theorem AsksFor.second (asks : AsksFor (calls ++ more) (marks ++ others) handle span text)
    (length : marks.length = (Call.spans calls).length) :
    AsksFor more others (fun text => handle (Call.ofSecond text)) span text where
  spans := by
    have spans := asks.spans
    rw [Call.spans_append, List.map_append] at spans
    exact (List.append_inj spans (by rwa [List.length_map])).2
  texts asked := asks.texts (Call.ofSecond asked)

end

namespace Numbering

/-- A step makes some calls and delivers a tree of what they hand out. Its nodes are in the order of
the calls, and what they ask for makes it the tree that the step was for. -/
def Delivers (S : Form) (source : S.Tree Span String) (m : Numbering (S.Tree Node Name)) : Prop :=
  ∃ calls : List Call, ∀ {μ ν : Type} (marks : List μ)
    (handle : {text // text ∈ Call.texts calls} → ν), marks.length = (Call.spans calls).length →
      ∃ tree : S.Tree μ ν, S.nodes tree = marks ∧
        (∀ span text, AsksFor calls marks handle span text → S.map span text tree = source) ∧
        ∀ bench node name, HandsOut calls marks handle bench node name →
          m bench = (S.map node name tree, bench.after calls)

namespace Delivers

variable {S T : Form} {s : S.Tree Span String} {t : T.Tree Span String}
  {m : Numbering (S.Tree Node Name)} {m' : Numbering (T.Tree Node Name)}

theorem node (span : Span) : Delivers .node span (Numbering.node span) := by
  refine ⟨[.node span], fun marks handle length => ?_⟩
  obtain ⟨mark, rfl⟩ := List.length_eq_one_iff.1 length
  refine ⟨mark, rfl, fun span' text asks => List.singleton_injective asks.spans,
    fun bench node name out => ?_⟩
  have same : [node mark] = [⟨⟨bench.next + BitVec.ofNat 32 0⟩, span⟩] := out.nodes
  rw [BitVec.add_zero] at same
  exact Prod.ext (List.singleton_injective same).symm rfl

theorem name (text : String) : Delivers .name text (Numbering.name text) := by
  refine ⟨[.name text], fun marks handle length => ?_⟩
  obtain rfl := List.length_eq_zero_iff.1 length
  refine ⟨handle ⟨text, List.mem_singleton_self text⟩, rfl,
    fun span text' asks => asks.texts ⟨text, _⟩, fun bench node name out => ?_⟩
  have same := out.names ⟨text, List.mem_singleton_self text⟩
  have again := Interner.intern_of_begins (Interner.Begins.refl (bench.names.intern text).2)
  exact Prod.ext (same.trans (congrArg Prod.fst again)).symm rfl

/-- A step that asks for nothing. -/
theorem const (tree : ∀ μ ν : Type, S.Tree μ ν)
    (same : ∀ bench, m bench = (tree Node Name, bench) := by exact fun _ => rfl)
    (nodes : ∀ μ ν : Type, S.nodes (tree μ ν) = [] := by exact fun _ _ => rfl)
    (maps : ∀ {μ ν μ' ν' : Type} (f : μ → μ') (g : ν → ν'),
      S.map f g (tree μ ν) = tree μ' ν' := by exact fun _ _ => rfl)
    (source : tree Span String = s := by rfl) : Delivers S s m := by
  refine ⟨[], fun marks handle length => ?_⟩
  obtain rfl := List.length_eq_zero_iff.1 length
  refine ⟨tree _ _, nodes _ _, fun span text _ => (maps span text).trans source,
    fun bench node name _ => ?_⟩
  rw [same, maps]
  rfl

theorem pair (first : Delivers S s m) (second : Delivers T t m') :
    Delivers (S.pair T) (s, t) (do
      let a ← m
      let b ← m'
      pure (a, b)) := by
  obtain ⟨calls, first⟩ := first
  obtain ⟨more, second⟩ := second
  refine ⟨calls ++ more, fun marks handle length => ?_⟩
  obtain ⟨here, there, rfl, length, length'⟩ : ∃ here there, marks = here ++ there ∧
      here.length = (Call.spans calls).length ∧ there.length = (Call.spans more).length := by
    rw [Call.spans_append, List.length_append] at length
    exact ⟨_, _, (List.take_append_drop (Call.spans calls).length marks).symm,
      by rw [List.length_take]; omega, by rw [List.length_drop]; omega⟩
  obtain ⟨a, nodes, source, delivered⟩ := first here (fun text => handle (Call.ofFirst text)) length
  obtain ⟨b, nodes', source', delivered'⟩ :=
    second there (fun text => handle (Call.ofSecond text)) length'
  refine ⟨(a, b), congrArg₂ (· ++ ·) nodes nodes', fun span text asks => ?_,
    fun bench node name out => ?_⟩
  · exact Prod.ext (source span text (asks.first length)) (source' span text (asks.second length))
  · have begun := delivered bench node name (out.first length)
    have done := delivered' (bench.after calls) node name (out.second length)
    change (((m bench).1, (m' (m bench).2).1), (m' (m bench).2).2) = _
    rw [begun, done, Workbench.after_append]
    rfl

/-- A tree that is made of what was delivered. -/
theorem make (delivers : Delivers S s m) (tree : ∀ {μ ν : Type}, S.Tree μ ν → T.Tree μ ν)
    (same : ∀ bench, m' bench = (tree (m bench).1, (m bench).2) := by exact fun _ => rfl)
    (nodes : ∀ {μ ν : Type} (part : S.Tree μ ν),
      T.nodes (tree part) = S.nodes part := by exact fun _ => rfl)
    (maps : ∀ {μ ν μ' ν' : Type} (f : μ → μ') (g : ν → ν') (part : S.Tree μ ν),
      T.map f g (tree part) = tree (S.map f g part) := by exact fun _ _ _ => rfl)
    (source : tree s = t := by rfl) : Delivers T t m' := by
  obtain ⟨calls, delivers⟩ := delivers
  refine ⟨calls, fun marks handle length => ?_⟩
  obtain ⟨part, met, asked, delivered⟩ := delivers marks handle length
  refine ⟨tree part, (nodes part).trans met, fun span text asks => ?_,
    fun bench node name out => ?_⟩
  · rw [maps, asked span text asks, source]
  · rw [same, delivered bench node name out, maps]

/-- A further part without nodes. -/
theorem beside (first : Delivers S s m) (second : Delivers T t m')
    (quiet : ∀ {μ ν : Type} (part : T.Tree μ ν), T.nodes part = [] := by exact fun _ => rfl) :
    Delivers (S.beside T) (s, t) (do
      let a ← m
      let b ← m'
      pure (a, b)) := by
  refine (first.pair second).make (fun p => p) (fun _ => rfl) (fun p => ?_)
  exact (List.append_nil _).symm.trans (congrArg (S.nodes p.1 ++ ·) (quiet p.2).symm)

end Delivers

theorem delivers_optName : ∀ text : Option String, Delivers .optName text (optName text)
  | none => .const fun _ _ => none
  | some text => (Delivers.name text).make fun n => some n

theorem delivers_ident (id : Ident Span String) : Delivers .ident id (ident id) := by
  have parts := Delivers.node id.node |>.beside (.name id.name)
  exact parts.make fun (n, text) => ⟨n, text⟩

theorem delivers_optIdent : ∀ id : Option (Ident Span String), Delivers .optIdent id (optIdent id)
  | none => .const fun _ _ => none
  | some id => (delivers_ident id).make fun id => some id

theorem delivers_directives : ∀ ds : List (Directive Span String),
    Delivers .directives ds (directives ds)
  | [] => .const fun _ _ => []
  | d :: rest => by
    have parts := Delivers.node d.node |>.beside (.name d.text) |>.pair (delivers_directives rest)
    exact parts.make fun ((n, text), rest) => ⟨n, text⟩ :: rest

theorem delivers_literal : ∀ value : Literal String, Delivers .literal value (literal value)
  | .string value => (Delivers.name value).make fun value => .string value
  | .number value => .const fun _ _ => .number value
  | .boolean value => .const fun _ _ => .boolean value
  | .null => .const fun _ _ => .null
  | .regex pattern flags => by
    have parts := Delivers.name pattern |>.beside (.name flags)
    exact parts.make fun (pattern, flags) => .regex pattern flags

mutual

theorem delivers_expr : ∀ e : Expr Span String, Delivers .expr e (expr e)
  | .ident id => (delivers_ident id).make fun id => .ident id
  | .literal n value => by
    have parts := Delivers.node n |>.beside (delivers_literal value)
    exact parts.make fun (n, value) => .literal n value
  | .keyword n value => (Delivers.node n).make fun n => .keyword n value
  | .hole n => (Delivers.node n).make fun n => .hole n
  | .template n tag parts => by
    have parts := delivers_optExpr tag |>.pair (delivers_exprs parts) |>.pair (.node n)
    exact parts.make fun ((tag, parts), n) => .template n tag parts
  | .array n elements => by
    have parts := delivers_exprs elements |>.pair (.node n)
    exact parts.make fun (elements, n) => .array n elements
  | .object n ps => by
    have parts := delivers_properties ps |>.pair (.node n)
    exact parts.make fun (ps, n) => .object n ps
  | .member n object field => by
    have parts := delivers_expr object |>.pair (.node n) |>.beside (.name field)
    exact parts.make fun ((object, n), field) => .member n object field
  | .index n object key => by
    have parts := delivers_expr object |>.pair (delivers_expr key) |>.pair (.node n)
    exact parts.make fun ((object, key), n) => .index n object key
  | .call n callee arguments => by
    have parts := delivers_expr callee |>.pair (delivers_exprs arguments) |>.pair (.node n)
    exact parts.make fun ((callee, arguments), n) => .call n callee arguments
  | .construct n callee arguments => by
    have parts := delivers_expr callee |>.pair (delivers_exprs arguments) |>.pair (.node n)
    exact parts.make fun ((callee, arguments), n) => .construct n callee arguments
  | .function f => (delivers_func f).make fun f => .function f
  | .arrow f => (delivers_func f).make fun f => .arrow f
  | .class_ c => (delivers_classTree c).make fun c => .class_ c
  | .assign n op t value => by
    have parts := delivers_target t |>.pair (delivers_expr value) |>.pair (.node n)
    exact parts.make fun ((t, value), n) => .assign n op t value
  | .binary n left op right => by
    have parts := delivers_expr left |>.pair (delivers_expr right) |>.pair (.node n)
    exact parts.make fun ((left, right), n) => .binary n left op right
  | .conditional n test yes no => by
    have parts := delivers_expr test |>.pair (delivers_expr yes) |>.pair (delivers_expr no)
      |>.pair (.node n)
    exact parts.make fun (((test, yes), no), n) => .conditional n test yes no
  | .delete n operand => by
    have parts := delivers_expr operand |>.pair (.node n)
    exact parts.make fun (operand, n) => .delete n operand
  | .unary n op operand => by
    have parts := delivers_expr operand |>.pair (.node n)
    exact parts.make fun (operand, n) => .unary n op operand
  | .update n op before operand => by
    have parts := delivers_target operand |>.pair (.node n)
    exact parts.make fun (operand, n) => .update n op before operand
  | .yield n operand => by
    have parts := delivers_optExpr operand |>.pair (.node n)
    exact parts.make fun (operand, n) => .yield n operand
  | .spread n operand => by
    have parts := delivers_expr operand |>.pair (.node n)
    exact parts.make fun (operand, n) => .spread n operand

theorem delivers_optExpr : ∀ e : Option (Expr Span String), Delivers .optExpr e (optExpr e)
  | none => .const fun _ _ => none
  | some e => (delivers_expr e).make fun e => some e

theorem delivers_exprs : ∀ es : List (Expr Span String), Delivers .exprs es (exprs es)
  | [] => .const fun _ _ => []
  | e :: rest => by
    have parts := delivers_expr e |>.pair (delivers_exprs rest)
    exact parts.make fun (e, rest) => e :: rest

theorem delivers_stmt : ∀ s : Stmt Span String, Delivers .stmt s (stmt s)
  | .expr n value => by
    have parts := delivers_expr value |>.pair (.node n)
    exact parts.make fun (value, n) => .expr n value
  | .decl n list kind declarators => by
    have parts := delivers_bindingElements declarators |>.pair (.node n) |>.pair (.node list)
    exact parts.make fun ((declarators, n), list) => .decl n list kind declarators
  | .block n body => by
    have parts := delivers_stmts body |>.pair (.node n)
    exact parts.make fun (body, n) => .block n body
  | .empty n => (Delivers.node n).make fun n => .empty n
  | .debugger n => (Delivers.node n).make fun n => .debugger n
  | .jump n kind label => by
    have parts := Delivers.node n |>.beside (delivers_optName label)
    exact parts.make fun (n, label) => .jump n kind label
  | .labeled n label body => by
    have parts := delivers_stmt body |>.pair (.node n) |>.beside (.name label)
    exact parts.make fun ((body, n), label) => .labeled n label body
  | .ifThen n test yes => by
    have parts := delivers_expr test |>.pair (delivers_stmt yes) |>.pair (.node n)
    exact parts.make fun ((test, yes), n) => .ifThen n test yes
  | .ifElse n test yes no => by
    have parts := delivers_expr test |>.pair (delivers_stmt yes) |>.pair (delivers_stmt no)
      |>.pair (.node n)
    exact parts.make fun (((test, yes), no), n) => .ifElse n test yes no
  | .forLoop n init test update body => by
    have parts := delivers_optExpr init |>.pair (delivers_optExpr test)
      |>.pair (delivers_optExpr update) |>.pair (delivers_stmt body) |>.pair (.node n)
    exact parts.make fun ((((init, test), update), body), n) => .forLoop n init test update body
  | .forDecl n list kind declarators test update body => by
    have parts := delivers_bindingElements declarators |>.pair (.node list)
      |>.pair (delivers_optExpr test) |>.pair (delivers_optExpr update) |>.pair (delivers_stmt body)
      |>.pair (.node n)
    exact parts.make fun (((((declarators, list), test), update), body), n) =>
      .forDecl n list kind declarators test update body
  | .forEach n each t collection body => by
    have parts := delivers_target t |>.pair (delivers_expr collection) |>.pair (delivers_stmt body)
      |>.pair (.node n)
    exact parts.make fun (((t, collection), body), n) => .forEach n each t collection body
  | .forEachDecl n each list kind declarators collection body => by
    have parts := delivers_bindingElements declarators |>.pair (.node list)
      |>.pair (delivers_expr collection) |>.pair (delivers_stmt body) |>.pair (.node n)
    exact parts.make fun ((((declarators, list), collection), body), n) =>
      .forEachDecl n each list kind declarators collection body
  | .whileLoop n test body => by
    have parts := delivers_expr test |>.pair (delivers_stmt body) |>.pair (.node n)
    exact parts.make fun ((test, body), n) => .whileLoop n test body
  | .doLoop n body test => by
    have parts := delivers_stmt body |>.pair (delivers_expr test) |>.pair (.node n)
    exact parts.make fun ((body, test), n) => .doLoop n body test
  | .ret n value => by
    have parts := delivers_optExpr value |>.pair (.node n)
    exact parts.make fun (value, n) => .ret n value
  | .throw n value => by
    have parts := delivers_expr value |>.pair (.node n)
    exact parts.make fun (value, n) => .throw n value
  | .withObject n object body => by
    have parts := delivers_expr object |>.pair (delivers_stmt body) |>.pair (.node n)
    exact parts.make fun ((object, body), n) => .withObject n object body
  | .switch n discriminant caseBlock cs => by
    have parts := delivers_expr discriminant |>.pair (delivers_clauses cs) |>.pair (.node n)
      |>.pair (.node caseBlock)
    exact parts.make fun (((discriminant, cs), n), caseBlock) => .switch n discriminant caseBlock cs
  | .tryCatch n block body (.mk clause b handlerBlock handler) => by
    have parts := delivers_stmts body |>.pair (delivers_optBinding b)
      |>.pair (delivers_stmts handler) |>.pair (.node n) |>.pair (.node block)
      |>.pair (.node clause) |>.pair (.node handlerBlock)
    exact parts.make fun ((((((body, b), handler), n), block), clause), handlerBlock) =>
      .tryCatch n block body (.mk clause b handlerBlock handler)
  | .tryFinally n block body last finalizer => by
    have parts := delivers_stmts body |>.pair (delivers_stmts finalizer) |>.pair (.node n)
      |>.pair (.node block) |>.pair (.node last)
    exact parts.make fun ((((body, finalizer), n), block), last) =>
      .tryFinally n block body last finalizer
  | .tryCatchFinally n block body (.mk clause b handlerBlock handler) last finalizer => by
    have parts := delivers_stmts body |>.pair (delivers_optBinding b)
      |>.pair (delivers_stmts handler) |>.pair (.node clause) |>.pair (.node handlerBlock)
      |>.pair (delivers_stmts finalizer) |>.pair (.node n) |>.pair (.node block)
      |>.pair (.node last)
    exact parts.make fun
      ((((((((body, b), handler), clause), handlerBlock), finalizer), n), block), last) =>
        .tryCatchFinally n block body (.mk clause b handlerBlock handler) last finalizer
  | .function f => (delivers_func f).make fun f => .function f
  | .class_ c => (delivers_classTree c).make fun c => .class_ c

theorem delivers_stmts : ∀ ss : List (Stmt Span String), Delivers .stmts ss (stmts ss)
  | [] => .const fun _ _ => []
  | s :: rest => by
    have parts := delivers_stmt s |>.pair (delivers_stmts rest)
    exact parts.make fun (s, rest) => s :: rest

theorem delivers_func : ∀ g : Func Span String, Delivers .func g (func g)
  | .mk n id flags ps b => by
    have parts := delivers_params ps |>.pair (delivers_body b) |>.pair (.node n)
      |>.pair (delivers_optIdent id)
    exact parts.make fun (((ps, b), n), id) => .mk n id flags ps b

theorem delivers_params : ∀ ps : Params Span String, Delivers .params ps (params ps)
  | .mk none items rest => by
    have parts := delivers_bindingElements items |>.pair (delivers_optBinding rest)
    exact parts.make fun (items, rest) => .mk none items rest
  | .mk (some n) items rest => by
    have parts := delivers_bindingElements items |>.pair (delivers_optBinding rest)
      |>.pair (.node n)
    exact parts.make fun ((items, rest), n) => .mk (some n) items rest

theorem delivers_body : ∀ b : Body Span String, Delivers .body b (body b)
  | .block n ds statements => by
    have parts := delivers_stmts statements |>.pair (.node n) |>.pair (delivers_directives ds)
    exact parts.make fun ((statements, n), ds) => .block n ds statements
  | .concise value => (delivers_expr value).make fun value => .concise value

theorem delivers_classTree : ∀ c : Class Span String, Delivers .classTree c (classTree c)
  | .mk n id heritage ms => by
    have parts := delivers_optExpr heritage |>.pair (delivers_members ms) |>.pair (.node n)
      |>.pair (delivers_optIdent id)
    exact parts.make fun (((heritage, ms), n), id) => .mk n id heritage ms

theorem delivers_members : ∀ ms : List (Member Span String), Delivers .members ms (members ms)
  | [] => .const fun _ _ => []
  | .mk n isStatic kind k f :: rest => by
    have parts := delivers_key k |>.pair (delivers_func f) |>.pair (.node n)
      |>.pair (delivers_members rest)
    exact parts.make fun (((k, f), n), rest) => .mk n isStatic kind k f :: rest

theorem delivers_key : ∀ k : Key Span String, Delivers .key k (key k)
  | .ident id => (delivers_ident id).make fun id => .ident id
  | .string n value => by
    have parts := Delivers.node n |>.beside (.name value)
    exact parts.make fun (n, value) => .string n value
  | .number n value => (Delivers.node n).make fun n => .number n value
  | .computed n value => by
    have parts := delivers_expr value |>.pair (.node n)
    exact parts.make fun (value, n) => .computed n value

theorem delivers_property : ∀ p : Property Span String, Delivers .property p (property p)
  | .keyed n k value => by
    have parts := delivers_key k |>.pair (delivers_expr value) |>.pair (.node n)
    exact parts.make fun ((k, value), n) => .keyed n k value
  | .shorthand n id => by
    have parts := Delivers.node n |>.pair (delivers_ident id)
    exact parts.make fun (n, id) => .shorthand n id
  | .spread n value => by
    have parts := delivers_expr value |>.pair (.node n)
    exact parts.make fun (value, n) => .spread n value
  | .method kind k f => by
    have parts := delivers_key k |>.pair (delivers_func f)
    exact parts.make fun (k, f) => .method kind k f

theorem delivers_properties : ∀ ps : List (Property Span String),
    Delivers .properties ps (properties ps)
  | [] => .const fun _ _ => []
  | p :: rest => by
    have parts := delivers_property p |>.pair (delivers_properties rest)
    exact parts.make fun (p, rest) => p :: rest

theorem delivers_binding : ∀ b : Binding Span String, Delivers .binding b (binding b)
  | .ident id => (delivers_ident id).make fun id => .ident id
  | .array n slots rest => by
    have parts := delivers_bindingSlots slots (delivers_optBinding rest |>.pair (.node n))
    refine parts.make (fun (slots, rest, n) => .array n slots rest) (fun _ => rfl) ?_
    exact fun (_, _, _) => congrArg (· ++ _) (List.append_assoc ..)
  | .object n ps rest => by
    have parts := delivers_bindingProperties ps |>.pair (.node n) |>.pair (delivers_optIdent rest)
    exact parts.make fun ((ps, n), rest) => .object n ps rest

theorem delivers_optBinding : ∀ b : Option (Binding Span String),
    Delivers .optBinding b (optBinding b)
  | none => .const fun _ _ => none
  | some b => (delivers_binding b).make fun b => some b

theorem delivers_bindingElement : ∀ e : BindingElement Span String,
    Delivers .bindingElement e (bindingElement e)
  | .mk n .nameFirst b init => by
    have parts := delivers_binding b |>.pair (delivers_optExpr init) |>.pair (.node n)
    exact parts.make fun ((b, init), n) => .mk n .nameFirst b init
  | .mk n .valueFirst b init => by
    have parts := delivers_optExpr init |>.pair (delivers_binding b) |>.pair (.node n)
    exact parts.make fun ((init, b), n) => .mk n .valueFirst b init

theorem delivers_bindingElements : ∀ es : List (BindingElement Span String),
    Delivers .bindingElements es (bindingElements es)
  | [] => .const fun _ _ => []
  | e :: rest => by
    have parts := delivers_bindingElement e |>.pair (delivers_bindingElements rest)
    exact parts.make fun (e, rest) => e :: rest

theorem delivers_bindingSlots : ∀ (slots : List (Slot Span (BindingElement Span String)))
    {S : Form} {s : S.Tree Span String} {m : Numbering (S.Tree Node Name)}, Delivers S s m →
      Delivers (.bindingPattern S) (slots, s) (do
        let slots ← bindingSlots slots
        let other ← m
        let slots ← holes slots
        pure (slots, other))
  | [], _, _, _, others =>
    others.make (fun other => ([], other)) (fun _ => rfl) (fun _ => List.append_nil _)
  | .hole span :: rest, _, _, _, others => by
    have parts := delivers_bindingSlots rest (others.pair (.node span))
    refine parts.make (fun (slots, other, n) => (.hole n :: slots, other)) (fun _ => rfl) ?_
    exact fun (_, _, _) => by
      simp [Form.bindingPattern, Form.pair, Form.node, Gathering.holes, Gathering.marks]
  | .element e :: rest, _, _, _, others => by
    have parts := delivers_bindingElement e |>.pair (delivers_bindingSlots rest others)
    refine parts.make (fun (e, slots, other) => (.element e :: slots, other)) (fun _ => rfl) ?_
    exact fun (_, _, _) => by
      simp [Form.bindingPattern, Form.pair, Form.bindingElement, Gathering.holes]

theorem delivers_bindingProperty : ∀ p : BindingProperty Span String,
    Delivers .bindingProperty p (bindingProperty p)
  | .shorthand n id init => by
    have parts := delivers_optExpr init |>.pair (.node n) |>.pair (delivers_ident id)
    exact parts.make fun ((init, n), id) => .shorthand n id init
  | .keyed n k element => by
    have parts := delivers_key k |>.pair (delivers_bindingElement element) |>.pair (.node n)
    exact parts.make fun ((k, element), n) => .keyed n k element

theorem delivers_bindingProperties : ∀ ps : List (BindingProperty Span String),
    Delivers .bindingProperties ps (bindingProperties ps)
  | [] => .const fun _ _ => []
  | p :: rest => by
    have parts := delivers_bindingProperty p |>.pair (delivers_bindingProperties rest)
    exact parts.make fun (p, rest) => p :: rest

theorem delivers_target : ∀ t : Target Span String, Delivers .target t (target t)
  | .ident id => (delivers_ident id).make fun id => .ident id
  | .member n object field => by
    have parts := delivers_expr object |>.pair (.node n) |>.beside (.name field)
    exact parts.make fun ((object, n), field) => .member n object field
  | .index n object k => by
    have parts := delivers_expr object |>.pair (delivers_expr k) |>.pair (.node n)
    exact parts.make fun ((object, k), n) => .index n object k
  | .array n slots rest => by
    have parts := delivers_targetSlots slots (delivers_optTarget rest |>.pair (.node n))
    refine parts.make (fun (slots, rest, n) => .array n slots rest) (fun _ => rfl) ?_
    exact fun (_, _, _) => congrArg (· ++ _) (List.append_assoc ..)
  | .object n ps rest => by
    have parts := delivers_targetProperties ps |>.pair (delivers_optTarget rest) |>.pair (.node n)
    exact parts.make fun ((ps, rest), n) => .object n ps rest

theorem delivers_optTarget : ∀ t : Option (Target Span String), Delivers .optTarget t (optTarget t)
  | none => .const fun _ _ => none
  | some t => (delivers_target t).make fun t => some t

theorem delivers_targetElement : ∀ e : TargetElement Span String,
    Delivers .targetElement e (targetElement e)
  | .mk n t init => by
    have parts := delivers_target t |>.pair (delivers_optExpr init) |>.pair (.node n)
    exact parts.make fun ((t, init), n) => .mk n t init

theorem delivers_targetSlots : ∀ (slots : List (Slot Span (TargetElement Span String)))
    {S : Form} {s : S.Tree Span String} {m : Numbering (S.Tree Node Name)}, Delivers S s m →
      Delivers (.targetPattern S) (slots, s) (do
        let slots ← targetSlots slots
        let other ← m
        let slots ← holes slots
        pure (slots, other))
  | [], _, _, _, others =>
    others.make (fun other => ([], other)) (fun _ => rfl) (fun _ => List.append_nil _)
  | .hole span :: rest, _, _, _, others => by
    have parts := delivers_targetSlots rest (others.pair (.node span))
    refine parts.make (fun (slots, other, n) => (.hole n :: slots, other)) (fun _ => rfl) ?_
    exact fun (_, _, _) => by
      simp [Form.targetPattern, Form.pair, Form.node, Gathering.holes, Gathering.marks]
  | .element e :: rest, _, _, _, others => by
    have parts := delivers_targetElement e |>.pair (delivers_targetSlots rest others)
    refine parts.make (fun (e, slots, other) => (.element e :: slots, other)) (fun _ => rfl) ?_
    exact fun (_, _, _) => by
      simp [Form.targetPattern, Form.pair, Form.targetElement, Gathering.holes]

theorem delivers_targetProperty : ∀ p : TargetProperty Span String,
    Delivers .targetProperty p (targetProperty p)
  | .shorthand n id init => by
    have parts := delivers_optExpr init |>.pair (.node n) |>.pair (delivers_ident id)
    exact parts.make fun ((init, n), id) => .shorthand n id init
  | .keyed n k element => by
    have parts := delivers_key k |>.pair (delivers_targetElement element) |>.pair (.node n)
    exact parts.make fun ((k, element), n) => .keyed n k element

theorem delivers_targetProperties : ∀ ps : List (TargetProperty Span String),
    Delivers .targetProperties ps (targetProperties ps)
  | [] => .const fun _ _ => []
  | p :: rest => by
    have parts := delivers_targetProperty p |>.pair (delivers_targetProperties rest)
    exact parts.make fun (p, rest) => p :: rest

theorem delivers_clauses : ∀ cs : List (Clause Span String), Delivers .clauses cs (clauses cs)
  | [] => .const fun _ _ => []
  | .mk n test b :: rest => by
    have parts := delivers_optExpr test |>.pair (delivers_stmts b) |>.pair (.node n)
      |>.pair (delivers_clauses rest)
    exact parts.make fun (((test, b), n), rest) => .mk n test b :: rest

end

theorem delivers_importSpecifiers : ∀ ss : List (ImportSpecifier Span String),
    Delivers .importSpecifiers ss (importSpecifiers ss)
  | [] => .const fun _ _ => []
  | s :: rest => by
    have parts := Delivers.node s.node |>.beside (delivers_optName s.imported)
      |>.pair (delivers_ident s.binding) |>.pair (delivers_importSpecifiers rest)
    exact parts.make fun (((n, imported), id), rest) => ⟨n, imported, id⟩ :: rest

theorem delivers_reexportSpecifiers : ∀ ss : List (ReexportSpecifier Span String),
    Delivers .reexportSpecifiers ss (reexportSpecifiers ss)
  | [] => .const fun _ _ => []
  | s :: rest => by
    have parts := Delivers.node s.node |>.beside (.name s.name)
      |>.pair (delivers_reexportSpecifiers rest)
    exact parts.make fun ((n, text), rest) => ⟨n, text⟩ :: rest

theorem delivers_exportSpecifiers : ∀ ss : List (ExportSpecifier Span String),
    Delivers .exportSpecifiers ss (exportSpecifiers ss)
  | [] => .const fun _ _ => []
  | s :: rest => by
    have parts := Delivers.node s.node |>.pair (delivers_ident s.id)
      |>.pair (delivers_exportSpecifiers rest)
    exact parts.make fun ((n, id), rest) => ⟨n, id⟩ :: rest

theorem delivers_item : ∀ i : Item Span String, Delivers .item i (item i)
  | .stmt s => (delivers_stmt s).make fun s => .stmt s
  | .imports n source defaultBinding nameSpace named => by
    have parts := Delivers.node n |>.pair (delivers_importSpecifiers named) |>.beside (.name source)
      |>.pair (delivers_optIdent defaultBinding) |>.pair (delivers_optIdent nameSpace)
    exact parts.make fun ((((n, named), source), defaultBinding), nameSpace) =>
      .imports n source defaultBinding nameSpace named
  | .exportAll n source => by
    have parts := Delivers.node n |>.beside (.name source)
    exact parts.make fun (n, source) => .exportAll n source
  | .exportFrom n source specifiers => by
    have parts := Delivers.node n |>.pair (delivers_reexportSpecifiers specifiers)
      |>.beside (.name source)
    exact parts.make fun ((n, specifiers), source) => .exportFrom n source specifiers
  | .exportLocals n specifiers => by
    have parts := Delivers.node n |>.pair (delivers_exportSpecifiers specifiers)
    exact parts.make fun (n, specifiers) => .exportLocals n specifiers
  | .exportStmt s => (delivers_stmt s).make fun s => .exportStmt s
  | .exportDefaultFunction f => (delivers_func f).make fun f => .exportDefaultFunction f
  | .exportDefaultClass c => (delivers_classTree c).make fun c => .exportDefaultClass c
  | .exportDefaultExpr value => (delivers_expr value).make fun value => .exportDefaultExpr value

theorem delivers_items : ∀ is : List (Item Span String), Delivers .items is (items is)
  | [] => .const fun _ _ => []
  | i :: rest => by
    have parts := delivers_item i |>.pair (delivers_items rest)
    exact parts.make fun (i, rest) => i :: rest

end Numbering

theorem Draft.delivers_number : ∀ draft : Draft,
    Numbering.Delivers .program draft draft.number
  | .script n ds statements => by
    have parts := Numbering.delivers_stmts statements |>.pair (.node n)
      |>.pair (Numbering.delivers_directives ds)
    exact parts.make fun ((statements, n), ds) => .script n ds statements
  | .module n ds is => by
    have parts := Numbering.delivers_items is |>.pair (.node n)
      |>.pair (Numbering.delivers_directives ds)
    exact parts.make fun ((is, n), ds) => .module n ds is

/-- Numbering a draft is one way of building it. Every node that is asked for stands in the program,
in the order of the calls, and with what was asked for the program is the draft. -/
theorem Draft.exists_build (draft : Draft) : ∃ b : Build,
    b.tree.nodes = List.finRange b.size ∧
      b.tree.map (.plain (Call.spans b.calls).get Subtype.val) = draft ∧
        draft.number = b.number := by
  obtain ⟨calls, delivers⟩ := draft.delivers_number
  obtain ⟨tree, nodes, asked, delivered⟩ :=
    delivers (List.finRange (Call.spans calls).length) (fun text => text) (List.length_finRange ..)
  have once : tree.nodes.Nodup := by
    rw [show tree.nodes = _ from nodes]
    exact List.nodup_finRange _
  refine ⟨⟨calls, tree, once⟩, nodes, asked _ _ ⟨?_, fun _ => rfl⟩, funext (fun bench => ?_)⟩
  · exact List.ext_getElem (by simp) (fun i below below' => by simp)
  · refine delivered bench _ _ ⟨?_, fun _ => rfl⟩
    refine List.ext_getElem (by simp [Node.length_numbered]) (fun i below below' => ?_)
    simp [Build.node, Node.numbered]

end ScopeAnalysis
