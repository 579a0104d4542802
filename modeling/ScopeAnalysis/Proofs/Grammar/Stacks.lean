import ScopeAnalysis.Proofs.Grammar.Whole
import ScopeAnalysis.Proofs.Grammar.Places
import ScopeAnalysis.Program.Gathering

/-!
# The scopes of one node

A node opens at most one scope, unless it is a function: around the scope of its body a function may
have one for its parameters, and around that one for its name or, as the clause of an `if`, one for
its declaration. Nothing else is opened between these scopes. Where no two nodes have one number,
the places of the scopes of a number are therefore a stack: each is directly inside the one before.
-/

namespace ScopeAnalysis

namespace Piece

/-- What may be opened around a function: a scope for its name if it is an expression that has one,
and the block of a clause. -/
inductive Fronts (pieces : List Piece) (node : Node) : Option ScopeKind → Prop
  | bare : Fronts pieces node none
  | named {id : Occurrence} (found : .scope (.functionName node id) ∈ pieces) :
      Fronts pieces node (some .functionName)
  | clause {name : Occurrence} (found : .scope (.lone ⟨node, name⟩) ∈ pieces) :
      Fronts pieces node (some .block)

/-- The kinds of the scopes of a function, the outermost first. -/
inductive FunctionScopes (pieces : List Piece) (node : Node) : List ScopeKind → Prop
  | mk {around : List Enclosure} {kind : FunctionKind} {ps : Params Node Name} {b : Body Node Name}
      {front : Option ScopeKind} (found : .function around kind node ps b ∈ pieces)
      (fronts : Fronts pieces node front) : FunctionScopes pieces node
        (front.toList ++ ((if ps.evaluates then [.parameters] else []) ++ [kind.scopeKind]))

variable {pieces more : List Piece} {node : Node}

theorem Fronts.mono {front : Option ScopeKind} (fronts : Fronts pieces node front)
    (all : pieces ⊆ more) : Fronts more node front := by
  cases fronts with
  | bare => exact .bare
  | named found => exact .named (all found)
  | clause found => exact .clause (all found)

theorem FunctionScopes.mono {kinds : List ScopeKind} (scopes : FunctionScopes pieces node kinds)
    (all : pieces ⊆ more) : FunctionScopes more node kinds := by
  obtain ⟨found, fronts⟩ := scopes
  exact ⟨all found, fronts.mono all⟩

theorem FunctionScopes.length_le {kinds : List ScopeKind}
    (scopes : FunctionScopes pieces node kinds) : kinds.length ≤ 3 := by
  obtain @⟨_, _, ps, _, front, _, _⟩ := scopes
  cases front <;> cases ps.evaluates <;> simp

end Piece

/-- How many of the nodes have a number. -/
def Node.countAt (n : NodeId) (nodes : List Node) : Nat := nodes.countP (fun node => node.id = n)

namespace Node

@[simp] theorem countAt_nil (n : NodeId) : countAt n [] = 0 := rfl

@[simp] theorem countAt_append (n : NodeId) (nodes more : List Node) :
    countAt n (nodes ++ more) = countAt n nodes + countAt n more := List.countP_append

theorem countAt_mark (n : NodeId) (node : Node) :
    countAt n (Gathering.marks.mark (ν := Name) node) = if node.id = n then 1 else 0 := by
  by_cases own : node.id = n <;> simp [countAt, Gathering.marks, own]

theorem countAt_le_one {nodes : List Node} (distinct : (nodes.map Node.id).Nodup) (n : NodeId) :
    countAt n nodes ≤ 1 := by
  have once := List.nodup_iff_count_le_one.1 distinct n
  rwa [List.count, List.countP_map] at once

end Node

namespace Places

/-- The nodes of a part of a numbered program. -/
abbrev marks : Gathering Node Name Node := Gathering.marks

/-- Whether the scope at a place was opened by the node of a number. -/
def isAt (n : NodeId) : Place → Bool
  | [] => false
  | (_, node) :: _ => node.id = n

/-- Scopes of one node, each directly inside the one before. -/
def stack (node : Node) (around : Place) : List ScopeKind → List Place
  | [] => []
  | kind :: rest => ((kind, node) :: around) :: stack node ((kind, node) :: around) rest

/-- Only a node of a number opens the scopes at it. -/
theorem id_eq_of_filter {n : NodeId} {places : List Place} {node : Node} {around : Place}
    {kinds : List ScopeKind} (same : places.filter (isAt n) = stack node around kinds)
    (some : kinds ≠ []) : node.id = n := by
  cases kinds with
  | nil => exact absurd rfl some
  | cons kind rest =>
    have first : (kind, node) :: around ∈ places.filter (isAt n) := same ▸ List.mem_cons_self
    exact of_decide_eq_true (List.mem_filter.1 first).2

/-- If some nodes have different numbers, then those of the places that are at one number are a
stack, and if none of the nodes has the number no place is at it. -/
structure StackedAt (n : NodeId) (pieces : List Piece) (nodes : List Node) (places : List Place) :
    Prop where
  none : Node.countAt n nodes = 0 → places.filter (isAt n) = []
  stack : Node.countAt n nodes ≤ 1 → places.filter (isAt n) = [] ∨
    ∃ node around kinds, (kinds.length = 1 ∨ Piece.FunctionScopes pieces node kinds) ∧
      places.filter (isAt n) = Places.stack node around kinds

namespace StackedAt

variable {n : NodeId} {pieces pieces' : List Piece} {nodes nodes' : List Node}
  {places places' : List Place}

theorem nil : StackedAt n pieces nodes [] := ⟨fun _ => rfl, fun _ => .inl rfl⟩

/-- There may be more pieces. -/
theorem mono (stacked : StackedAt n pieces nodes places) (all : pieces ⊆ pieces') :
    StackedAt n pieces' nodes places where
  none := stacked.none
  stack few := (stacked.stack few).imp_right (fun ⟨node, around, kinds, scopes, same⟩ =>
    ⟨node, around, kinds, scopes.imp_right (fun ofFunction => ofFunction.mono all), same⟩)

theorem cons (stacked : StackedAt n pieces nodes places) {piece : Piece} :
    StackedAt n (piece :: pieces) nodes places :=
  stacked.mono (List.subset_cons_self _ _)

theorem before (stacked : StackedAt n pieces nodes places) {more : List Piece} :
    StackedAt n (pieces ++ more) nodes places :=
  stacked.mono (List.subset_append_left _ _)

theorem after (stacked : StackedAt n pieces nodes places) {more : List Piece} :
    StackedAt n (more ++ pieces) nodes places :=
  stacked.mono (List.subset_append_right _ _)

/-- There may be more nodes, in any order. -/
theorem counted (stacked : StackedAt n pieces nodes places)
    (all : Node.countAt n nodes ≤ Node.countAt n nodes') : StackedAt n pieces nodes' places where
  none absent := stacked.none (by omega)
  stack few := stacked.stack (by omega)

theorem marked (stacked : StackedAt n pieces nodes places) {more : List Node} :
    StackedAt n pieces (nodes ++ more) places :=
  stacked.counted (by simp)

theorem append (first : StackedAt n pieces nodes places)
    (second : StackedAt n pieces' nodes' places') :
    StackedAt n (pieces ++ pieces') (nodes ++ nodes') (places ++ places') where
  none absent := by
    rw [Node.countAt_append] at absent
    rw [List.filter_append, first.none (by omega), second.none (by omega)]
    rfl
  stack few := by
    rw [Node.countAt_append] at few
    rw [List.filter_append]
    -- One of the two parts does not have the number at all.
    by_cases absent : Node.countAt n nodes = 0
    · rw [first.none absent, List.nil_append]
      have further : StackedAt n (pieces ++ pieces') nodes' places' := second.after
      exact further.stack (by omega)
    · rw [second.none (by omega), List.append_nil]
      have further : StackedAt n (pieces ++ pieces') nodes places := first.before
      exact further.stack (by omega)

/-- A scope whose node is none of those inside. -/
theorem scope {kind : ScopeKind} {node : Node} {P : Place → List Place} {around : Place}
    (stacked : StackedAt n pieces nodes (P ((kind, node) :: around))) :
    StackedAt n pieces (nodes ++ marks.mark node) (Places.scope kind node P around) := by
  by_cases own : node.id = n
  · have count : Node.countAt n (nodes ++ marks.mark node) = Node.countAt n nodes + 1 := by
      rw [Node.countAt_append, Node.countAt_mark, if_pos own]
    refine ⟨fun absent => by omega, fun few => .inr ⟨node, around, [kind], .inl rfl, ?_⟩⟩
    rw [Places.scope, List.filter_cons_of_pos (by simp [isAt, own]), stacked.none (by omega)]
    rfl
  · have same : (Places.scope kind node P around).filter (isAt n) =
        (P ((kind, node) :: around)).filter (isAt n) :=
      List.filter_cons_of_neg (by simp [isAt, own])
    have further : StackedAt n pieces (nodes ++ marks.mark node) (P ((kind, node) :: around)) :=
      stacked.marked
    exact ⟨fun absent => same ▸ further.none absent, fun few => same ▸ further.stack few⟩

theorem scopeIf {asked : Bool} {kind : ScopeKind} {node : Node} {P : Place → List Place}
    {around : Place} (stacked : ∀ around, StackedAt n pieces nodes (P around)) :
    StackedAt n pieces (nodes ++ marks.mark node) (Places.scopeIf asked kind node P around) := by
  cases asked with
  | true => exact (stacked _).scope
  | false => exact (stacked around).marked

end StackedAt

/-- A function behind what is opened around it. -/
def fronted (front : Option ScopeKind) (node : Node) (inside : Place → List Place) :
    Place → List Place :=
  match front with
  | none => inside
  | some kind => scope kind node inside

theorem named_eq (kind : FunctionKind) (node : Node) (name : Option Occurrence)
    (inside : Place → List Place) : named kind node name inside =
      fronted (if kind = .expression ∧ name.isSome then some .functionName else none) node
        inside := by
  rw [named, scopeIf]
  by_cases asked : kind = .expression ∧ name.isSome <;> simp [asked, fronted]

/-- The places of a function without what is opened around it. -/
def bare (kind : FunctionKind) (node : Node) (ps : Params Node Name) (b : Body Node Name) :
    Place → List Place :=
  scopeIf ps.evaluates .parameters node (fun inner =>
    params ps inner ++ scope kind.scopeKind node (body b) inner)

section

variable {n : NodeId} {node : Node}

/-- The scopes of a function are a stack. -/
theorem filter_fronted {kind : FunctionKind} {ps : Params Node Name} {b : Body Node Name}
    (own : node.id = n) (params : ∀ around, (params ps around).filter (isAt n) = [])
    (body : ∀ around, (body b around).filter (isAt n) = []) (front : Option ScopeKind)
    (around : Place) : (fronted front node (bare kind node ps b) around).filter (isAt n) =
      stack node around
        (front.toList ++ ((if ps.evaluates then [.parameters] else []) ++ [kind.scopeKind])) := by
  cases front <;> cases evaluates : ps.evaluates <;>
    simp [fronted, bare, scope, scopeIf, stack, isAt, own, params, body, evaluates]

/-- Whatever is inside a function and at another number is at it inside the parameters or inside the
body. -/
theorem filter_fronted_of_ne (kind : FunctionKind) (ps : Params Node Name) (b : Body Node Name)
    (other : node.id ≠ n) (front : Option ScopeKind) (around : Place) :
    ∃ outer inner, (fronted front node (bare kind node ps b) around).filter (isAt n) =
      (params ps outer ++ body b inner).filter (isAt n) := by
  cases front <;> cases evaluates : ps.evaluates <;>
    exact ⟨_, _, by simp [fronted, bare, scope, scopeIf, isAt, other, evaluates]; rfl⟩

end

/-- A function with what is opened around it. -/
theorem StackedAt.function {n : NodeId} {pieces : List Piece} {nodes nodes' more : List Node}
    {enclosures : List Enclosure} {kind : FunctionKind} {node : Node} {ps : Params Node Name}
    {b : Body Node Name} {front : Option ScopeKind}
    (ofParams : ∀ around, StackedAt n pieces nodes (params ps around))
    (ofBody : ∀ around, StackedAt n pieces nodes' (body b around))
    (found : .function enclosures kind node ps b ∈ pieces) (fronts : Piece.Fronts pieces node front)
    (around : Place) : StackedAt n pieces (nodes ++ nodes' ++ marks.mark node ++ more)
      (fronted front node (bare kind node ps b) around) := by
  by_cases own : node.id = n
  · have count : Node.countAt n (nodes ++ nodes' ++ marks.mark node ++ more) =
        Node.countAt n nodes + Node.countAt n nodes' + 1 + Node.countAt n more := by
      simp only [Node.countAt_append, Node.countAt_mark, if_pos own]
    refine ⟨fun absent => by omega, fun few => .inr ⟨node, around, _, .inr ⟨found, fronts⟩, ?_⟩⟩
    exact filter_fronted own (fun outer => (ofParams outer).none (by omega))
      (fun inner => (ofBody inner).none (by omega)) front around
  · obtain ⟨outer, inner, same⟩ := filter_fronted_of_ne kind ps b own front around
    have parts : StackedAt n pieces (nodes ++ nodes' ++ marks.mark node ++ more)
        (params ps outer ++ body b inner) :=
      ((ofParams outer).append (ofBody inner)).marked.marked.mono (by simp)
    exact ⟨fun absent => same ▸ parts.none absent, fun few => same ▸ parts.stack few⟩

/-- The places of a function are stacked in every position, also as the clause of an `if`. -/
structure StackedFunc (n : NodeId) (enclosures : List Enclosure) (f : Func Node Name) : Prop where
  alone : ∀ kind around, StackedAt n (Pieces.func enclosures kind f) (marks.func f)
    (func kind f around)
  clause : ∀ around, StackedAt n
    (Piece.ofClause (.function f) ++ Pieces.func enclosures .declaration f) (marks.func f)
    (clause (.function f) (func .declaration f) around)

/-- A function is stacked if its parameters and its body are. -/
theorem StackedFunc.of_parts {n : NodeId} {enclosures : List Enclosure} {node : Node}
    {name : Option Occurrence} {flags : FunctionFlags} {ps : Params Node Name} {b : Body Node Name}
    (ofParams : ∀ around, StackedAt n (Pieces.params (.function b.directives :: enclosures) ps)
      (marks.params ps) (params ps around))
    (ofBody : ∀ around, StackedAt n (Pieces.body (.function b.directives :: enclosures) b)
      (marks.body b) (body b around)) :
    StackedFunc n enclosures (.mk node name flags ps b) := by
  have whole : ∀ kind pieces front,
      Pieces.func enclosures kind (.mk node name flags ps b) ⊆ pieces →
      Piece.Fronts pieces node front → ∀ around, StackedAt n pieces
        (marks.func (.mk node name flags ps b))
        (fronted front node (bare kind node ps b) around) := by
    intro kind pieces front all fronts around
    have found : .function enclosures kind node ps b ∈ pieces := all (by simp [Pieces.func])
    exact .function
      (fun outer => (ofParams outer).mono (fun piece member => all (by simp [Pieces.func, member])))
      (fun inner => (ofBody inner).mono (fun piece member => all (by simp [Pieces.func, member])))
      found fronts around
  refine ⟨fun kind around => ?_, fun around => ?_⟩
  · rw [func, named_eq]
    refine whole kind _ _ (List.Subset.refl _) ?_ around
    split
    next asked =>
      obtain ⟨rfl, isSome⟩ := asked
      obtain ⟨id, rfl⟩ := Option.isSome_iff_exists.1 isSome
      have found : .scope (.functionName node id) ∈
          Pieces.func enclosures .expression (.mk node (some id) flags ps b) := by
        simp [Pieces.func, Piece.ofName]
      exact .named found
    next => exact .bare
  · cases name with
    | none => exact whole .declaration _ _ (List.subset_append_right _ _) .bare around
    | some name =>
      have found : .scope (.lone ⟨node, name⟩) ∈
          Piece.ofClause (.function (.mk node (some name) flags ps b)) ++
            Pieces.func enclosures .declaration (.mk node (some name) flags ps b) := by
        simp [Piece.ofClause, Folding.loneFunction]
      exact whole .declaration _ (some .block) (List.subset_append_right _ _) (.clause found) around

/-- The places of a statement are stacked, also as the clause of an `if`. -/
structure StackedStmt (n : NodeId) (enclosures : List Enclosure) (s : Stmt Node Name) : Prop where
  alone : ∀ around, StackedAt n (Pieces.stmt enclosures s) (marks.stmt s) (stmt s around)
  clause : ∀ around, StackedAt n (Piece.ofClause s ++ Pieces.stmt enclosures s) (marks.stmt s)
    (clause s (stmt s) around)

/-- A statement that is no function has no scope of its own as a clause. -/
theorem StackedStmt.of_alone {n : NodeId} {enclosures : List Enclosure} {s : Stmt Node Name}
    (alone : ∀ around, StackedAt n (Pieces.stmt enclosures s) (marks.stmt s) (stmt s around))
    (other : Folding.loneFunction s = none) : StackedStmt n enclosures s := by
  refine ⟨alone, fun around => ?_⟩
  rw [Piece.ofClause, Places.clause, other]
  exact alone around

/-- The nodes inside a pattern. -/
def bindingNodes : Binding Node Name → List Node
  | .ident _ => []
  | .array _ slots rest => marks.bindingSlots slots ++ marks.optBinding rest ++ marks.holes slots
  | .object _ ps rest => marks.bindingProperties ps ++ marks.optIdent rest

/-- The nodes inside an element of a pattern. -/
def elementNodes : BindingElement Node Name → List Node
  | .mk _ _ b init => marks.binding b ++ marks.optExpr init

/-- The nodes of a catch clause, its block before itself. -/
def handlerNodes : Handler Node Name → List Node
  | .mk node b blockNode statements =>
    marks.optBinding b ++ (marks.stmts statements ++ marks.mark blockNode) ++ marks.mark node

theorem countAt_binding (n : NodeId) (b : Binding Node Name) :
    Node.countAt n (bindingNodes b ++ marks.mark (Folding.bindingNode b)) ≤
      Node.countAt n (marks.binding b) := by
  cases b <;> simp only [bindingNodes, Folding.bindingNode, Gathering.binding, Gathering.ident,
    Node.countAt_append, Node.countAt_nil] <;> omega

theorem countAt_element (n : NodeId) (e : BindingElement Node Name) :
    Node.countAt n (elementNodes e ++ marks.mark (Folding.elementNode e)) ≤
      Node.countAt n (marks.bindingElement e) := by
  obtain ⟨node, order, b, init⟩ := e
  cases order <;> simp only [elementNodes, Folding.elementNode, Gathering.bindingElement,
    Node.countAt_append] <;> omega

variable {n : NodeId}

mutual

theorem stacked_expr (enc : List Enclosure) : ∀ (e : Expr Node Name) (around : Place),
    StackedAt n (Pieces.expr enc e) (marks.expr e) (expr e around)
  | .ident _, _ => .nil
  | .literal _ _, _ => .nil
  | .keyword _ _, _ => .nil
  | .hole _, _ => .nil
  | .template _ tag parts, around =>
    ((stacked_optExpr enc tag around).append (stacked_exprs enc parts around)).marked
  | .array _ elements, around => (stacked_exprs enc elements around).marked
  | .object _ ps, around => (stacked_properties enc ps around).marked
  | .member _ object _, around => (stacked_expr enc object around).marked
  | .index _ object k, around =>
    ((stacked_expr enc object around).append (stacked_expr enc k around)).marked
  | .call _ callee arguments, around =>
    ((stacked_expr enc callee around).append (stacked_exprs enc arguments around)).marked
  | .construct _ callee arguments, around =>
    ((stacked_expr enc callee around).append (stacked_exprs enc arguments around)).marked
  | .function f, around => (stacked_func enc f).alone .expression around
  | .arrow f, around => (stacked_func enc f).alone .arrow around
  | .class_ c, around => stacked_class enc c around
  | .assign _ _ t value, around =>
    ((stacked_target enc t around).append (stacked_expr enc value around)).marked.after.cons
  | .binary _ left _ right, around =>
    ((stacked_expr enc left around).append (stacked_expr enc right around)).marked
  | .conditional _ test yes no, around =>
    ((stacked_expr enc test around).append
      ((stacked_expr enc yes around).append (stacked_expr enc no around))).counted
      (by simp)
  | .delete _ operand, around => by
    have whole := stacked_expr enc operand around
    cases operand with
    | ident id => exact .nil
    | _ => exact whole.marked
  | .unary _ _ operand, around => (stacked_expr enc operand around).marked
  | .update _ _ _ operand, around => (stacked_target enc operand around).marked.after.cons
  | .yield _ operand, around => (stacked_optExpr enc operand around).marked
  | .spread _ operand, around => (stacked_expr enc operand around).marked

theorem stacked_optExpr (enc : List Enclosure) : ∀ (e : Option (Expr Node Name)) (around : Place),
    StackedAt n (Pieces.optExpr enc e) (marks.optExpr e) (optExpr e around)
  | none, _ => .nil
  | some e, around => stacked_expr enc e around

theorem stacked_exprs (enc : List Enclosure) : ∀ (es : List (Expr Node Name)) (around : Place),
    StackedAt n (Pieces.exprs enc es) (marks.exprs es) (exprs es around)
  | [], _ => .nil
  | e :: rest, around => (stacked_expr enc e around).append (stacked_exprs enc rest around)

theorem stacked_properties (enc : List Enclosure) :
    ∀ (ps : List (Property Node Name)) (around : Place),
      StackedAt n (Pieces.properties enc ps) (marks.properties ps) (properties ps around)
  | [], _ => .nil
  | .keyed _ k value :: rest, around =>
    ((stacked_key enc k around).append (stacked_expr enc value around)).marked.append
      (stacked_properties enc rest around)
  | .shorthand _ _ :: rest, around =>
    (stacked_properties enc rest around).cons.counted (by simp; omega)
  | .spread _ value :: rest, around =>
    (stacked_expr enc value around).marked.append (stacked_properties enc rest around)
  | .method kind k f :: rest, around =>
    ((stacked_key enc k around).append
      ((stacked_func enc f).alone (Folding.methodFunction kind) around)).append
      (stacked_properties enc rest around)

theorem stacked_members (enc : List Enclosure) :
    ∀ (ms : List (Member Node Name)) (around : Place),
      StackedAt n (Pieces.members enc ms) (marks.members ms) (members ms around)
  | [], _ => .nil
  | .mk _ _ kind k f :: rest, around =>
    ((stacked_key enc k around).append
      ((stacked_func enc f).alone (Folding.methodFunction kind) around)).marked.append
      (stacked_members enc rest around)

theorem stacked_key (enc : List Enclosure) : ∀ (k : Key Node Name) (around : Place),
    StackedAt n (Pieces.key enc k) (marks.key k) (key k around)
  | .computed _ value, around => (stacked_expr enc value around).marked
  | .ident _, _ => .nil
  | .string _ _, _ => .nil
  | .number _ _, _ => .nil

theorem stacked_class (enc : List Enclosure) : ∀ (c : Class Node Name) (around : Place),
    StackedAt n (Pieces.classPieces enc c) (marks.classTree c) (classPlaces c around)
  | .mk node _ heritage ms, around =>
    (StackedAt.scope (P := fun inner => optExpr heritage inner ++ members ms inner)
      ((stacked_optExpr (.class_ :: enc) heritage ((.className, node) :: around)).append
        (stacked_members (.class_ :: enc) ms ((.className, node) :: around)))).cons.marked

theorem stacked_func (enc : List Enclosure) : ∀ f : Func Node Name, StackedFunc n enc f
  | .mk _ _ _ ps b =>
    .of_parts (stacked_params (.function b.directives :: enc) ps)
      (stacked_body (.function b.directives :: enc) b)

theorem stacked_params (enc : List Enclosure) : ∀ (ps : Params Node Name) (around : Place),
    StackedAt n (Pieces.params enc ps) (marks.params ps) (params ps around)
  | .mk none items none, around => (stacked_paramItems enc items around).before.marked
  | .mk none items (some b), around =>
    (stacked_paramItems enc items around).append
      ((StackedAt.scopeIf (stacked_binding enc b)).counted (countAt_binding n b))
  | .mk (some _) items none, around => (stacked_paramItems enc items around).before.marked.marked
  | .mk (some _) items (some b), around =>
    ((stacked_paramItems enc items around).append
      ((StackedAt.scopeIf (stacked_binding enc b)).counted (countAt_binding n b))).marked

theorem stacked_paramItems (enc : List Enclosure) :
    ∀ (es : List (BindingElement Node Name)) (around : Place),
      StackedAt n (Pieces.elements enc es) (marks.bindingElements es) (paramItems es around)
  | [], _ => .nil
  | e :: rest, around =>
    ((StackedAt.scopeIf (stacked_element enc e)).counted (countAt_element n e)).append
      (stacked_paramItems enc rest around)

theorem stacked_body (enc : List Enclosure) : ∀ (b : Body Node Name) (around : Place),
    StackedAt n (Pieces.body enc b) (marks.body b) (body b around)
  | .block _ _ statements, around => (stacked_stmts enc statements around).marked.marked
  | .concise value, around => stacked_expr enc value around

theorem stacked_binding (enc : List Enclosure) : ∀ (b : Binding Node Name) (around : Place),
    StackedAt n (Pieces.binding enc b) (bindingNodes b) (binding b around)
  | .ident _, _ => .nil
  | .array _ slots rest, around =>
    ((stacked_bindingSlots enc slots around).append (stacked_optBinding enc rest around)).marked
  | .object _ ps _, around => (stacked_bindingProperties enc ps around).marked

theorem stacked_optBinding (enc : List Enclosure) :
    ∀ (b : Option (Binding Node Name)) (around : Place),
      StackedAt n (Pieces.optBinding enc b) (marks.optBinding b) (optBinding b around)
  | none, _ => .nil
  | some b, around => (stacked_binding enc b around).marked.counted (countAt_binding n b)

theorem stacked_element (enc : List Enclosure) :
    ∀ (e : BindingElement Node Name) (around : Place),
      StackedAt n (Pieces.element enc e) (elementNodes e) (element e around)
  | .mk _ _ b init, around =>
    ((stacked_binding enc b around).marked.counted (countAt_binding n b)).append
      (stacked_optExpr enc init around)

theorem stacked_elements (enc : List Enclosure) :
    ∀ (es : List (BindingElement Node Name)) (around : Place),
      StackedAt n (Pieces.elements enc es) (marks.bindingElements es) (elements es around)
  | [], _ => .nil
  | e :: rest, around =>
    ((stacked_element enc e around).marked.counted (countAt_element n e)).append
      (stacked_elements enc rest around)

theorem stacked_bindingSlots (enc : List Enclosure) :
    ∀ (slots : List (Slot Node (BindingElement Node Name))) (around : Place),
      StackedAt n (Pieces.bindingSlots enc slots) (marks.bindingSlots slots)
        (bindingSlots slots around)
  | [], _ => .nil
  | .hole _ :: rest, around => stacked_bindingSlots enc rest around
  | .element e :: rest, around =>
    ((stacked_element enc e around).marked.counted (countAt_element n e)).append
      (stacked_bindingSlots enc rest around)

theorem stacked_bindingProperty (enc : List Enclosure) :
    ∀ (p : BindingProperty Node Name) (around : Place),
      StackedAt n (Pieces.bindingProperty enc p) (marks.bindingProperty p)
        (bindingProperty p around)
  | .shorthand _ _ init, around => (stacked_optExpr enc init around).marked.marked
  | .keyed _ k e, around =>
    ((stacked_key enc k around).append
      ((stacked_element enc e around).marked.counted (countAt_element n e))).marked

theorem stacked_bindingProperties (enc : List Enclosure) :
    ∀ (ps : List (BindingProperty Node Name)) (around : Place),
      StackedAt n (Pieces.bindingProperties enc ps) (marks.bindingProperties ps)
        (bindingProperties ps around)
  | [], _ => .nil
  | p :: rest, around =>
    (stacked_bindingProperty enc p around).append (stacked_bindingProperties enc rest around)

theorem stacked_target (enc : List Enclosure) : ∀ (t : Target Node Name) (around : Place),
    StackedAt n (Pieces.target enc t) (marks.target t) (target t around)
  | .ident _, _ => .nil
  | .member _ object _, around => (stacked_expr enc object around).marked
  | .index _ object k, around =>
    ((stacked_expr enc object around).append (stacked_expr enc k around)).marked
  | .array _ slots rest, around =>
    ((stacked_targetSlots enc slots around).append
      (stacked_optTarget enc rest around)).marked.marked
  | .object _ ps rest, around =>
    ((stacked_targetProperties enc ps around).append (stacked_optTarget enc rest around)).marked

theorem stacked_optTarget (enc : List Enclosure) :
    ∀ (t : Option (Target Node Name)) (around : Place),
      StackedAt n (Pieces.optTarget enc t) (marks.optTarget t) (optTarget t around)
  | none, _ => .nil
  | some t, around => stacked_target enc t around

theorem stacked_targetElement (enc : List Enclosure) :
    ∀ (e : TargetElement Node Name) (around : Place),
      StackedAt n (Pieces.targetElement enc e) (marks.targetElement e) (targetElement e around)
  | .mk _ t init, around =>
    ((stacked_target enc t around).append (stacked_optExpr enc init around)).marked

theorem stacked_targetSlots (enc : List Enclosure) :
    ∀ (slots : List (Slot Node (TargetElement Node Name))) (around : Place),
      StackedAt n (Pieces.targetSlots enc slots) (marks.targetSlots slots)
        (targetSlots slots around)
  | [], _ => .nil
  | .hole _ :: rest, around => stacked_targetSlots enc rest around
  | .element e :: rest, around =>
    (stacked_targetElement enc e around).append (stacked_targetSlots enc rest around)

theorem stacked_targetProperty (enc : List Enclosure) :
    ∀ (p : TargetProperty Node Name) (around : Place),
      StackedAt n (Pieces.targetProperty enc p) (marks.targetProperty p) (targetProperty p around)
  | .shorthand _ _ init, around => (stacked_optExpr enc init around).marked.marked
  | .keyed _ k e, around =>
    ((stacked_key enc k around).append (stacked_targetElement enc e around)).marked

theorem stacked_targetProperties (enc : List Enclosure) :
    ∀ (ps : List (TargetProperty Node Name)) (around : Place),
      StackedAt n (Pieces.targetProperties enc ps) (marks.targetProperties ps)
        (targetProperties ps around)
  | [], _ => .nil
  | p :: rest, around =>
    (stacked_targetProperty enc p around).append (stacked_targetProperties enc rest around)

theorem stacked_stmt (enc : List Enclosure) : ∀ s : Stmt Node Name, StackedStmt n enc s
  | .expr _ value => .of_alone (fun around => (stacked_expr enc value around).marked) rfl
  | .decl _ _ _ ds =>
    .of_alone (fun around => (stacked_elements enc ds around).marked.marked.after) rfl
  | .block _ statements => .of_alone (fun _ => .cons (.scope (stacked_stmts enc statements _))) rfl
  | .empty _ => .of_alone (fun _ => .nil) rfl
  | .debugger _ => .of_alone (fun _ => .nil) rfl
  | .jump _ _ _ => .of_alone (fun _ => .nil) rfl
  | .labeled _ _ s => .of_alone (fun around => ((stacked_stmt enc s).alone around).marked) rfl
  | .ifThen _ test yes =>
    .of_alone (fun around => ((stacked_expr enc test around).append
      ((stacked_stmt enc yes).clause around).cons).marked) rfl
  | .ifElse _ test yes no =>
    .of_alone (fun around => ((stacked_expr enc test around).append
      (((stacked_stmt enc yes).clause around).cons.append
        ((stacked_stmt enc no).clause around).cons)).counted (by simp)) rfl
  | .forLoop _ init test update s =>
    .of_alone (fun _ => .counted (.cons (.scope ((stacked_optExpr enc init _).append
      ((stacked_optExpr enc test _).append ((stacked_optExpr enc update _).append
        ((stacked_stmt enc s).alone _).cons))))) (by simp)) rfl
  | .forDecl _ _ _ ds test update s =>
    .of_alone (fun _ => .counted (.cons (.scope ((stacked_elements enc ds _).after.append
      ((stacked_optExpr enc test _).append ((stacked_optExpr enc update _).append
        ((stacked_stmt enc s).alone _).cons))))) (by simp)) rfl
  | .forEach _ _ t collection s =>
    .of_alone (fun _ => .counted (.cons (.scope (((stacked_target enc t _).append
      ((stacked_expr enc collection _).append ((stacked_stmt enc s).alone _).cons)).after)))
      (by simp)) rfl
  | .forEachDecl _ _ _ _ ds collection s =>
    .of_alone (fun _ => .counted (.cons (.scope (((stacked_elements enc ds _).after.append
      ((stacked_expr enc collection _).append ((stacked_stmt enc s).alone _).cons)).after)))
      (by simp)) rfl
  | .whileLoop _ test s =>
    .of_alone (fun around => ((stacked_expr enc test around).append
      ((stacked_stmt enc s).alone around).cons).marked) rfl
  | .doLoop _ s test =>
    .of_alone (fun around => (((stacked_stmt enc s).alone around).append
      (stacked_expr enc test around)).marked.cons) rfl
  | .ret _ value => .of_alone (fun around => (stacked_optExpr enc value around).marked) rfl
  | .throw _ value => .of_alone (fun around => (stacked_expr enc value around).marked) rfl
  | .withObject _ object s =>
    .of_alone (fun around => ((stacked_expr enc object around).append
      (((stacked_stmt enc s).alone _).cons.scope).cons).counted (by simp)) rfl
  | .switch _ discriminant _ cs =>
    .of_alone (fun around => ((stacked_expr enc discriminant around).append
      ((stacked_clauses enc cs _).scope).cons).counted (by simp)) rfl
  | .tryCatch _ _ statements (.mk clause b handlerBlock handler) =>
    .of_alone (fun around => .counted (.cons (((stacked_stmts enc statements _).scope).append
      (stacked_handler enc (.mk clause b handlerBlock handler) around)))
      (by simp [handlerNodes]; omega)) rfl
  | .tryFinally _ _ statements _ finalizer =>
    .of_alone (fun _ => .counted (.cons (((stacked_stmts enc statements _).scope).append
      ((stacked_stmts enc finalizer _).scope).cons)) (by simp; omega)) rfl
  | .tryCatchFinally _ _ statements (.mk clause b handlerBlock handler) _ finalizer =>
    .of_alone (fun around => .counted (.cons (((stacked_stmts enc statements _).scope).append
      ((stacked_handler enc (.mk clause b handlerBlock handler) around).append
        ((stacked_stmts enc finalizer _).scope).cons)))
      (by simp [handlerNodes]; omega)) rfl
  | .function f => ⟨(stacked_func enc f).alone .declaration, (stacked_func enc f).clause⟩
  | .class_ c => .of_alone (stacked_class enc c) rfl

theorem stacked_stmts (enc : List Enclosure) : ∀ (ss : List (Stmt Node Name)) (around : Place),
    StackedAt n (Pieces.stmts enc ss) (marks.stmts ss) (stmts ss around)
  | [], _ => .nil
  | s :: rest, around =>
    .cons (((stacked_stmt enc s).alone around).append (stacked_stmts enc rest around))

theorem stacked_handler (enc : List Enclosure) : ∀ (h : Handler Node Name) (around : Place),
    StackedAt n (Pieces.handler enc h) (handlerNodes h) (handler h around)
  | .mk node b blockNode statements, around =>
    (StackedAt.scope
      (P := fun inner => optBinding b inner ++ scope .block blockNode (stmts statements) inner)
      ((stacked_optBinding enc b ((.catch_, node) :: around)).append
        ((stacked_stmts enc statements _).scope).cons)).cons

theorem stacked_clauses (enc : List Enclosure) : ∀ (cs : List (Clause Node Name)) (around : Place),
    StackedAt n (Pieces.clauses enc cs) (marks.clauses cs) (clauses cs around)
  | [], _ => .nil
  | .mk _ test statements :: rest, around =>
    ((stacked_optExpr enc test around).append ((stacked_stmts enc statements around).append
      (stacked_clauses enc rest around))).counted (by simp)

end

theorem stacked_item (enc : List Enclosure) : ∀ (i : Item Node Name) (around : Place),
    StackedAt n (Pieces.item enc i) (marks.item i) (item i around)
  | .stmt s, around | .exportStmt s, around => ((stacked_stmt enc s).alone around).cons
  | .imports .., _ | .exportAll .., _ | .exportFrom .., _ | .exportLocals .., _ => .nil
  | .exportDefaultFunction f, around => (stacked_func enc f).alone .declaration around
  | .exportDefaultClass c, around => stacked_class enc c around
  | .exportDefaultExpr value, around => stacked_expr enc value around

theorem stacked_items (enc : List Enclosure) : ∀ (is : List (Item Node Name)) (around : Place),
    StackedAt n (is.flatMap (Pieces.item enc)) (marks.items is) (items is around)
  | [], _ => .nil
  | i :: rest, around => (stacked_item enc i around).append (stacked_items enc rest around)

/-- The places at one number, with two scopes of one node around all others. -/
theorem filter_scope_scope {pieces : List Piece} {nodes more : List Node} {outer inner : ScopeKind}
    {node : Node} {P : Place → List Place}
    (stacked : StackedAt n pieces nodes (P [(inner, node), (outer, node)]))
    (few : Node.countAt n (nodes ++ marks.mark node ++ more) ≤ 1) :
    ∃ owner around kinds, (scope outer node (scope inner node P) []).filter (isAt n) =
        stack owner around kinds ∧
      (kinds.length ≤ 1 ∨ owner = node ∧ kinds = [outer, inner] ∨
        Piece.FunctionScopes pieces owner kinds) := by
  simp only [Node.countAt_append, Node.countAt_mark] at few
  by_cases own : node.id = n
  · rw [if_pos own] at few
    refine ⟨node, [], [outer, inner], ?_, .inr (.inl ⟨rfl, rfl⟩)⟩
    simp [scope, isAt, own, stacked.none (by omega), stack]
  · have same : (scope outer node (scope inner node P) []).filter (isAt n) =
        (P [(inner, node), (outer, node)]).filter (isAt n) := by
      simp [scope, isAt, own]
    rcases stacked.stack (by omega) with none | ⟨owner, around, kinds, scopes, there⟩
    · exact ⟨node, [], [], same.trans none, .inl (Nat.zero_le 1)⟩
    · exact ⟨owner, around, kinds, same.trans there, scopes.imp Eq.le .inr⟩

end Places

/-- The kind of the inner one of the two scopes of a program itself. -/
def NumberedProgram.innerKind (p : NumberedProgram) : ScopeKind :=
  if p.isModule then .module else .script

open Places in
/-- If the nodes of a program have different numbers, its places at one number are a stack of
scopes, which are one at most, or those of the program itself, or those of a function. -/
theorem NumberedProgram.filter_places {p : NumberedProgram}
    (distinct : (p.nodes.map Node.id).Nodup) (n : NodeId) :
    ∃ owner around kinds, p.places.filter (isAt n) = stack owner around kinds ∧
      (kinds.length ≤ 1 ∨ owner = p.node ∧ kinds = [.global, p.innerKind] ∨
        Piece.FunctionScopes p.pieces owner kinds) := by
  have few := Node.countAt_le_one distinct n
  cases p with
  | script node ds statements =>
    have stacked := stacked_stmts (n := n) [.script ds] statements
      [(.script, node), (.global, node)]
    rw [← Pieces.item_map_stmt] at stacked
    exact filter_scope_scope stacked few
  | module node ds is =>
    exact filter_scope_scope (stacked_items [.module] is _) few

end ScopeAnalysis
