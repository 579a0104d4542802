import ScopeAnalysis.Proofs.Grammar.Fold
import ScopeAnalysis.Proofs.Handles
import ScopeAnalysis.Proofs.Relabelling.Program

/-!
# Folding relabelled programs

A relabelled program has the relabelled outline, or it is refused alike, and the same texts are
interned on the way. No handle that is new goes into an outline; it only decides which accessors
have one key.
-/

namespace ScopeAnalysis

/-- A relabelling with any flags of functions, and the special names as they are after it. It must
keep apart what is called `eval`, what says that code is strict, and the keys of accessors. -/
structure Recast (before : SpecialNames) where
  r : Relabelling
  flags : Node → FunctionFlags → FunctionFlags
  special : SpecialNames
  eval : ∀ id, r.name id = special.eval ↔ id.name = before.eval
  useStrict : ∀ text, r.text text = special.useStrict ↔ text = before.useStrict
  texts : Function.Injective r.text

namespace Recast

variable {before : SpecialNames} (c : Recast before)

def mapping : Mapping Node Name Node Name := c.r.mapping c.flags

@[simp]
theorem node_mapping : c.mapping.node = c.r.node := rfl

@[simp]
theorem ident_mapping : c.mapping.ident = Ident.relabel c.r := rfl

@[simp]
theorem text_mapping : c.mapping.text = c.r.text := rfl

end Recast

namespace Folding

open Outline

/-- The second step interns what the first one does, and if the relabelling carries one table into
the other, it answers with what the first one answers with, relabelled. -/
def Folds {α : Type} (special : SpecialNames) (R : Relabelling → α → α) (m : Folding α)
    (m' : Recast special → Folding α) : Prop :=
  ∀ table : Interner, ∃ texts, (m.run table).2 = table.internAll texts ∧
    ∀ (c : Recast special) (table' last last' : Interner),
      (table.internAll texts).Begins last → (table'.internAll texts).Begins last' →
        last.Carries last' c.r.text →
          (m' c).run table' = (R c.r <$> (m.run table).1, table'.internAll texts)

/-- What the static name of a number is. -/
def interned (text : String) : Folding (Option Name) :=
  ExceptT.mk (fun names => (.ok (some (names.intern text).1), (names.intern text).2))

theorem run_bind_of_ok {α β : Type} {m : Folding α} {next : α → Folding β} {table later : Interner}
    {a : α} (ran : m.run table = (.ok a, later)) :
    (m >>= next).run table = (next a).run later := by
  change (match m.run table with
    | (result, names) => ExceptT.bindCont next result names) = _
  rw [ran]
  rfl

theorem run_bind_of_error {α β : Type} {m : Folding α} {next : α → Folding β}
    {table later : Interner} {refusal : Refusal} (ran : m.run table = (.error refusal, later)) :
    (m >>= next).run table = (.error refusal, later) := by
  change (match m.run table with
    | (result, names) => ExceptT.bindCont next result names) = _
  rw [ran]
  rfl

namespace Folds

variable {special : SpecialNames} {α β : Type} {R : Relabelling → α → α} {S : Relabelling → β → β}
  {m : Folding α} {m' m'' : Recast special → Folding α}

theorem pure {a : α} {b : Recast special → α} (same : ∀ c, R c.r a = b c) :
    Folds special R (Pure.pure a) (fun c => Pure.pure (b c)) :=
  fun _ => ⟨[], rfl, fun c _ _ _ _ _ _ => congrArg (fun a => (Except.ok a, _)) (same c).symm⟩

theorem answer {a : Answer α} {b : Recast special → Answer α} (same : ∀ c, b c = R c.r <$> a) :
    Folds special R (Folding.answer a) (fun c => Folding.answer (b c)) :=
  fun _ => ⟨[], rfl, fun c _ _ _ _ _ _ => congrArg (fun a => (a, _)) (same c)⟩

/-- An interned text has a handle of its own in either table. -/
theorem interned (text : String) :
    Folds special (fun r => Option.map r.text) (Folding.interned text)
      (fun _ => Folding.interned text) :=
  fun _ => ⟨[text], rfl, fun _ _ _ _ within within' carries =>
    congrArg (fun name => (Except.ok (some name), _)) (carries.intern within within').symm⟩

theorem congr (folds : Folds special R m m') (same : ∀ c, m'' c = m' c) :
    Folds special R m m'' := by
  rwa [funext same]

theorem bind {next : α → Folding β} {next' : Recast special → α → Folding β}
    (first : Folds special R m m')
    (second : ∀ a, Folds special S (next a) (fun c => next' c (R c.r a))) :
    Folds special S (m >>= next) (fun c => m' c >>= next' c) := by
  intro table
  obtain ⟨texts, interned, alike⟩ := first table
  obtain ⟨⟨result, later⟩, ran⟩ : ∃ result, m.run table = result := ⟨_, rfl⟩
  rw [ran] at interned alike
  subst interned
  cases result with
  | error refusal =>
    have stopped : (m >>= next).run table = (.error refusal, table.internAll texts) :=
      run_bind_of_error ran
    refine ⟨texts, by rw [stopped], fun c table' last last' within within' carries => ?_⟩
    rw [stopped]
    exact run_bind_of_error (alike c table' last last' within within' carries)
  | ok a =>
    obtain ⟨more, interned, alike'⟩ := second a (table.internAll texts)
    have went : (m >>= next).run table = (next a).run (table.internAll texts) :=
      run_bind_of_ok ran
    refine ⟨texts ++ more, by rw [went, interned, Interner.internAll_append],
      fun c table' last last' within within' carries => ?_⟩
    rw [Interner.internAll_append] at within within'
    have between := (Interner.Begins.internAll (table.internAll texts) more).trans within
    have between' := (Interner.Begins.internAll (table'.internAll texts) more).trans within'
    have ran' := alike c table' last last' between between' carries
    rw [went, Interner.internAll_append]
    exact (run_bind_of_ok ran').trans (alike' c _ last last' within within' carries)

end Folds

section Parts

variable (r : Relabelling)

def Part.relabel (p : Part) : Part :=
  ⟨p.slot.map (Prod.map id r.text), Outline.relabel r p.outline⟩

theorem map_outline_relabel (parts : List Part) :
    (parts.map (Part.relabel r)).map Part.outline = relabelAll r (parts.map Part.outline) := by
  simp only [relabelAll_eq_map, List.map_map]
  rfl

theorem relabel_pair (o o' : Outline) :
    relabel r (join [o, o']) = join [relabel r o, relabel r o'] :=
  relabel_join r [o, o']

variable {r} in
theorem addPart_relabel (apart : Function.Injective r.text) (slot : Option (Bool × Name))
    (o : Outline) (parts : List Part) :
    addPart (slot.map (Prod.map id r.text)) (relabel r o) (parts.map (Part.relabel r)) =
      (addPart slot o parts).map (Part.relabel r) := by
  cases slot with
  | none => simp [addPart, Part.relabel]
  | some s =>
    have same (part : Part) :
        (part.relabel r).slot = some (Prod.map id r.text s) ↔ part.slot = some s :=
      (Option.map_injective (Function.injective_id.prodMap apart)).eq_iff (b := some s)
    have found : (parts.map (Part.relabel r)).any
        (fun part => part.slot = some (Prod.map id r.text s)) =
          parts.any (fun part => part.slot = some s) := by
      simp only [List.any_map, Function.comp_def, same]
    simp only [addPart, Option.map_some, found]
    split
    · simp only [List.map_map]
      refine List.map_congr_left (fun part _ => ?_)
      simp only [Function.comp_apply, same]
      split
      · simp only [Part.relabel, relabel_join, relabelAll]
      · rfl
    · simp [Part.relabel]

theorem keep_relabel (o : Outline) (rest : List Outline) :
    keep (relabel r o) (relabelAll r rest) = relabelAll r (keep o rest) := by
  unfold keep
  rw [isNothing_relabel]
  split <;> rfl

/-- What runs code is marked alike. -/
theorem relabel_marked (o : Outline) :
    relabel r (if o.isNothing then .nothing else .evaluated o) =
      if (relabel r o).isNothing then .nothing else .evaluated (relabel r o) := by
  rw [isNothing_relabel]
  split <;> rw [relabel]

end Parts

section Mapped

variable (m : Mapping Node Name Node Name)

@[simp]
theorem isComputed_key (k : Key Node Name) : (m.key k).isComputed = k.isComputed := by
  cases k <;> rfl

@[simp]
theorem bindingNode_binding (b : Binding Node Name) :
    bindingNode (m.binding b) = m.node (bindingNode b) := by
  cases b <;> rfl

@[simp]
theorem elementNode_element (e : BindingElement Node Name) :
    elementNode (m.element e) = m.node (elementNode e) := by
  cases e
  rfl

@[simp]
theorem isPattern_optBinding (b : Option (Binding Node Name)) :
    (m.optBinding b).any isPattern = b.any isPattern := by
  cases b with
  | none => rfl
  | some b => cases b <;> rfl

@[simp]
theorem isSome_optExpr (e : Option (Expr Node Name)) :
    (m.optExpr e).isSome = e.isSome := by
  cases e <;> rfl

end Mapped

variable {special : SpecialNames}

theorem loneFunction_stmt (c : Recast special) (s : Stmt Node Name) :
    loneFunction (c.mapping.stmt s) = (loneFunction s).map (LoneFunction.relabel c.r) := by
  cases s with
  | function g =>
    obtain ⟨node, name, flags, ps, b⟩ := g
    cases name <;> rfl
  | _ => rfl

theorem isEval_expr (c : Recast special) (e : Expr Node Name) :
    isEval c.special (c.mapping.expr e) = isEval special e := by
  cases e with
  | ident id => exact decide_eq_decide.2 (c.eval id)
  | _ => rfl

theorem saysUseStrict_map (c : Recast special) (ds : List (Directive Node Name)) :
    saysUseStrict c.special (ds.map c.mapping.directive) = saysUseStrict special ds := by
  simp only [saysUseStrict, List.any_map, Function.comp_def, Mapping.directive, c.text_mapping,
    c.useStrict]

theorem folds_lexicalDeclarations (top : Bool) (o : Outline) :
    Folds special (fun r => List.map (Declaration.relabel r)) (answer (lexicalDeclarations top o))
      (fun c => answer (lexicalDeclarations top (relabel c.r o))) :=
  .answer (fun c => lexicalDeclarations_relabel c.r top o)

theorem folds_lexicalDeclarationsAll (top : Bool) (os : List Outline) :
    Folds special (fun r => List.map (Declaration.relabel r))
      (answer (lexicalDeclarationsAll top os))
      (fun c => answer (lexicalDeclarationsAll top (relabelAll c.r os))) :=
  .answer (fun c => lexicalDeclarationsAll_relabel c.r top os)

theorem folds_block (node : Node) (os : List Outline) :
    Folds special relabel (block node os) (fun c => block (c.r.node node) (relabelAll c.r os)) :=
  (folds_lexicalDeclarationsAll false os).bind
    (fun _ => .pure (fun _ => rfl))

/-- The name of a static key is interned only if it is a number. -/
theorem folds_staticName (k : Key Node Name) :
    Folds special (fun r => Option.map r.text) (staticName k)
      (fun c => staticName (c.mapping.key k)) := by
  cases k with
  | ident id => exact .pure (fun _ => rfl)
  | string node value => exact .pure (fun _ => rfl)
  | number node value => exact .interned value.propertyName
  | computed node value =>
    cases value with
    | literal node value =>
      cases value with
      | number value => exact .interned value.propertyName
      | _ => exact .pure (fun _ => rfl)
    | _ => exact .pure (fun _ => rfl)

theorem folds_accessorSlot (isStatic : Bool) (kind : MethodKind) (k : Key Node Name) :
    Folds special (fun r => Option.map (Prod.map id r.text)) (accessorSlot isStatic kind k)
      (fun c => accessorSlot isStatic kind (c.mapping.key k)) := by
  cases kind with
  | method => exact .pure (fun _ => rfl)
  | getter | setter =>
    exact (folds_staticName k).bind (fun name => .pure (fun c => by cases name <;> rfl))

mutual

theorem folds_expr : ∀ e : Expr Node Name,
    Folds special relabel (expr special e) (fun c => expr c.special (c.mapping.expr e))
  | .ident _ | .literal _ _ | .keyword _ _ | .hole _ => .pure (fun _ => rfl)
  | .template _ tag parts => by
    refine (folds_optExpr tag).bind fun o => ?_
    refine (folds_exprs parts).bind fun os => ?_
    exact .pure fun c => relabel_join c.r (o :: os)
  | .array _ es => by
    refine (folds_exprs es).bind fun os => ?_
    exact .pure fun c => relabel_join c.r os
  | .object _ ps => by
    refine (folds_properties [] ps).bind fun parts => ?_
    refine .pure fun c => ?_
    rw [relabel_join, map_outline_relabel]
  | .member _ object _ => folds_expr object
  | .index _ object k => by
    refine (folds_expr object).bind fun o => ?_
    refine (folds_expr k).bind fun o' => ?_
    exact .pure fun c => relabel_join c.r [o, o']
  | .call _ callee args => by
    refine (folds_expr callee).bind fun o => ?_
    refine (folds_exprs args).bind fun os => ?_
    refine .pure fun c => ?_
    rw [isEval_expr c]
    split <;> simp only [relabel, relabel_join, relabelAll]
  | .construct _ callee args => by
    refine (folds_expr callee).bind fun o => ?_
    refine (folds_exprs args).bind fun os => ?_
    exact .pure fun c => relabel_join c.r (o :: os)
  | .function g => folds_func .expression g
  | .arrow g => folds_arrow g
  | .class_ c => folds_class false c
  | .assign _ _ t value => by
    refine (folds_target t).bind fun _ => ?_
    refine (folds_expr value).bind fun _ => ?_
    exact .pure fun _ => rfl
  | .binary _ left _ right => by
    refine (folds_expr left).bind fun o => ?_
    refine (folds_expr right).bind fun o' => ?_
    exact .pure fun c => relabel_join c.r [o, o']
  | .conditional _ test yes no => by
    refine (folds_expr test).bind fun o => ?_
    refine (folds_expr yes).bind fun o' => ?_
    refine (folds_expr no).bind fun o'' => ?_
    exact .pure fun c => relabel_join c.r [o, o', o'']
  | .delete node operand => by
    by_cases lone : ∃ id, operand = .ident id
    · obtain ⟨id, rfl⟩ := lone
      exact .pure (fun _ => rfl)
    · have other : ∀ id, operand ≠ .ident id := fun id same => lone ⟨id, same⟩
      have other' (c : Recast special) : ∀ id, c.mapping.expr operand ≠ .ident id := by
        cases operand with
        | ident id => exact absurd rfl (other id)
        | _ =>
          intro id same
          cases same
      rw [expr_delete special other]
      exact (folds_expr operand).congr (fun c => expr_delete c.special (other' c))
  | .unary _ _ operand => folds_expr operand
  | .update _ _ _ (.ident _) => .pure (fun _ => rfl)
  | .update _ _ _ (.member _ object _) => folds_expr object
  | .update _ _ _ (.index _ object k) => by
    refine (folds_expr object).bind fun o => ?_
    refine (folds_expr k).bind fun o' => ?_
    exact .pure fun c => relabel_join c.r [o, o']
  | .update _ _ _ (.array node slots rest) => folds_target (.array node slots rest)
  | .update _ _ _ (.object node ps rest) => folds_target (.object node ps rest)
  | .yield _ operand => folds_optExpr operand
  | .spread _ operand => folds_expr operand

theorem folds_optExpr : ∀ e : Option (Expr Node Name),
    Folds special relabel (optExpr special e) (fun c => optExpr c.special (c.mapping.optExpr e))
  | none => .pure (fun _ => rfl)
  | some e => folds_expr e

theorem folds_exprs : ∀ es : List (Expr Node Name),
    Folds special relabelAll (exprs special es) (fun c => exprs c.special (c.mapping.exprs es))
  | [] => .pure (fun _ => rfl)
  | e :: rest => by
    refine (folds_expr e).bind fun _ => ?_
    refine (folds_exprs rest).bind fun _ => ?_
    exact .pure fun _ => rfl

theorem folds_properties (parts : List Part) :
    ∀ ps : List (Property Node Name), Folds special (fun r => List.map (Part.relabel r))
      (properties special parts ps)
      (fun c => properties c.special (parts.map (Part.relabel c.r)) (c.mapping.properties ps))
  | [] => .pure (fun _ => rfl)
  | .keyed _ k value :: rest => by
    refine (folds_key k).bind fun o => ?_
    refine (folds_expr value).bind fun o' => ?_
    refine (folds_properties _ rest).congr fun c => ?_
    rw [← addPart_relabel c.texts, relabel_pair]
    rfl
  | .shorthand _ id :: rest =>
    (folds_properties (addPart none (.read id) parts) rest).congr (fun c => by
      rw [← addPart_relabel c.texts]
      rfl)
  | .spread _ value :: rest => by
    refine (folds_expr value).bind fun o => ?_
    refine (folds_properties _ rest).congr fun c => ?_
    rw [← addPart_relabel c.texts]
    rfl
  | .method kind k g :: rest => by
    refine (folds_func _ g).bind fun o => ?_
    refine (folds_key k).bind fun o' => ?_
    refine (folds_accessorSlot false kind k).bind fun slot => ?_
    refine (folds_properties _ rest).congr fun c => ?_
    rw [← addPart_relabel c.texts, relabel_pair]

theorem folds_members (parts : List Part) :
    ∀ ms : List (Member Node Name), Folds special (fun r => List.map (Part.relabel r))
      (members special parts ms)
      (fun c => members c.special (parts.map (Part.relabel c.r)) (c.mapping.members ms))
  | [] => .pure (fun _ => rfl)
  | .mk _ isStatic kind k g :: rest => by
    refine (folds_func _ g).bind fun o => ?_
    refine (folds_key k).bind fun o' => ?_
    refine (folds_accessorSlot isStatic kind k).bind fun slot => ?_
    refine (folds_members _ rest).congr fun c => ?_
    rw [← addPart_relabel c.texts, relabel_pair]

theorem folds_key : ∀ k : Key Node Name,
    Folds special relabel (key special k) (fun c => key c.special (c.mapping.key k))
  | .computed _ value => folds_expr value
  | .ident _ | .string _ _ | .number _ _ => .pure (fun _ => rfl)

theorem folds_class (isDeclaration : Bool) :
    ∀ d : Class Node Name, Folds special relabel (classOutline special isDeclaration d)
      (fun c => classOutline c.special isDeclaration (c.mapping.classTree d))
  | .mk node name heritage ms => by
    refine (folds_members [] ms).bind fun parts => ?_
    refine (folds_optExpr heritage).bind fun o => ?_
    refine .pure fun c => ?_
    rw [map_outline_relabel, relabelAll_eq_map, filter_relabel, ← relabelAll_eq_map, relabel]
    rfl

theorem folds_func (kind : FunctionKind) : ∀ g : Func Node Name,
    Folds special relabel (func special kind g) (fun c => func c.special kind (c.mapping.func g))
  | .mk _ _ _ ps b => by
    refine (folds_params ps).bind fun _ => ?_
    refine (folds_body b).bind fun _ => ?_
    exact .pure fun _ => rfl

theorem folds_arrow : ∀ g : Func Node Name,
    Folds special relabel (arrow special g) (fun c => arrow c.special (c.mapping.func g))
  | .mk _ _ _ ps b => by
    refine (folds_body b).bind fun _ => ?_
    refine (folds_params ps).bind fun _ => ?_
    exact .pure fun _ => rfl

theorem folds_params : ∀ ps : Params Node Name,
    Folds special relabelParams (params special ps)
      (fun c => params c.special (c.mapping.params ps))
  | .mk _ items none => folds_paramItems items
  | .mk _ items (some rest) => by
    refine (folds_paramItems items).bind fun ps => ?_
    refine (folds_binding rest).bind fun o => ?_
    refine .pure fun c => ?_
    rw [relabelParams_append, bindingNode_binding]
    rfl

theorem folds_paramItems : ∀ es : List (BindingElement Node Name),
    Folds special relabelParams (paramItems special es)
      (fun c => paramItems c.special (c.mapping.elements es))
  | [] => .pure (fun _ => rfl)
  | e :: rest => by
    refine (folds_element e).bind fun _ => ?_
    refine (folds_paramItems rest).bind fun _ => ?_
    refine .pure fun c => ?_
    rw [elementNode_element]
    rfl

theorem folds_body : ∀ b : Body Node Name,
    Folds special relabelBody (body special b) (fun c => body c.special (c.mapping.body b))
  | .block _ _ statements => by
    refine (folds_stmts statements).bind fun os => ?_
    refine (folds_lexicalDeclarationsAll true os).bind fun _ => ?_
    refine .pure fun c => ?_
    rw [saysUseStrict_map]
    rfl
  | .concise value => by
    refine (folds_expr value).bind fun _ => ?_
    exact .pure fun _ => rfl

theorem folds_binding : ∀ b : Binding Node Name,
    Folds special relabel (binding special b) (fun c => binding c.special (c.mapping.binding b))
  | .ident _ => .pure (fun _ => rfl)
  | .array _ slots rest => by
    refine (folds_bindingSlots slots).bind fun os => ?_
    refine (folds_optBinding rest).bind fun o => ?_
    refine .pure fun c => ?_
    rw [relabel_join, relabelAll_append, relabelAll, relabelAll]
  | .object _ ps rest => by
    refine (folds_bindingProperties ps).bind fun os => ?_
    refine .pure fun c => ?_
    rw [relabel_join, relabelAll_append]
    cases rest <;> rfl

theorem folds_optBinding : ∀ b : Option (Binding Node Name),
    Folds special relabel (optBinding special b)
      (fun c => optBinding c.special (c.mapping.optBinding b))
  | none => .pure (fun _ => rfl)
  | some b => folds_binding b

theorem folds_element : ∀ e : BindingElement Node Name,
    Folds special relabel (bindingElement special e)
      (fun c => bindingElement c.special (c.mapping.element e))
  | .mk _ _ b none => folds_binding b
  | .mk _ _ b (some init) => by
    refine (folds_binding b).bind fun o => ?_
    refine (folds_expr init).bind fun o' => ?_
    exact .pure fun c => congrArg Outline.evaluated (relabel_join c.r [o, o'])

theorem folds_bindingSlots :
    ∀ slots : List (Slot Node (BindingElement Node Name)), Folds special relabelAll
      (bindingSlots special slots) (fun c => bindingSlots c.special (c.mapping.bindingSlots slots))
  | [] => .pure (fun _ => rfl)
  | .hole _ :: rest => folds_bindingSlots rest
  | .element e :: rest => by
    refine (folds_element e).bind fun _ => ?_
    refine (folds_bindingSlots rest).bind fun _ => ?_
    exact .pure fun _ => rfl

theorem folds_bindingProperty : ∀ p : BindingProperty Node Name,
    Folds special relabel (bindingProperty special p)
      (fun c => bindingProperty c.special (c.mapping.bindingProperty p))
  | .shorthand _ _ none => .pure (fun _ => rfl)
  | .shorthand _ id (some init) => by
    refine (folds_expr init).bind fun o => ?_
    exact .pure fun c => congrArg Outline.evaluated (relabel_join c.r [.binding id, o])
  | .keyed _ k e => by
    refine (folds_key k).bind fun o => ?_
    refine (folds_element e).bind fun o' => ?_
    refine .pure fun c => ?_
    rw [isComputed_key]
    split <;> simp only [relabel, relabel_join, relabelAll]

theorem folds_bindingProperties :
    ∀ ps : List (BindingProperty Node Name), Folds special relabelAll (bindingProperties special ps)
      (fun c => bindingProperties c.special (c.mapping.bindingProperties ps))
  | [] => .pure (fun _ => rfl)
  | p :: rest => by
    refine (folds_bindingProperty p).bind fun _ => ?_
    refine (folds_bindingProperties rest).bind fun _ => ?_
    exact .pure fun _ => rfl

theorem folds_target : ∀ t : Target Node Name,
    Folds special relabel (target special t) (fun c => target c.special (c.mapping.target t))
  | .ident _ => .pure (fun _ => rfl)
  | .member _ object _ => by
    refine (folds_expr object).bind fun o => ?_
    exact .pure fun c => relabel_marked c.r o
  | .index _ object k => by
    refine (folds_expr object).bind fun o => ?_
    refine (folds_expr k).bind fun o' => ?_
    refine .pure fun c => ?_
    rw [relabel_marked, relabel_pair]
  | .array _ slots rest => by
    refine (folds_targetSlots slots).bind fun os => ?_
    refine (folds_optTarget rest).bind fun o => ?_
    refine .pure fun c => ?_
    rw [relabel_join, relabelAll_append, relabelAll, relabelAll]
  | .object _ ps rest => by
    refine (folds_targetProperties ps).bind fun os => ?_
    refine (folds_optTarget rest).bind fun o => ?_
    refine .pure fun c => ?_
    rw [relabel_join, relabelAll_append, relabelAll, relabelAll]

theorem folds_optTarget : ∀ t : Option (Target Node Name),
    Folds special relabel (optTarget special t)
      (fun c => optTarget c.special (c.mapping.optTarget t))
  | none => .pure (fun _ => rfl)
  | some t => folds_target t

theorem folds_targetElement : ∀ e : TargetElement Node Name,
    Folds special relabel (targetElement special e)
      (fun c => targetElement c.special (c.mapping.targetElement e))
  | .mk _ t init => by
    refine (folds_target t).bind fun o => ?_
    refine (folds_optExpr init).bind fun o' => ?_
    exact .pure fun c => relabel_join c.r [o, o']

theorem folds_targetSlots :
    ∀ slots : List (Slot Node (TargetElement Node Name)), Folds special relabelAll
      (targetSlots special slots) (fun c => targetSlots c.special (c.mapping.targetSlots slots))
  | [] => .pure (fun _ => rfl)
  | .hole _ :: rest => folds_targetSlots rest
  | .element e :: rest => by
    refine (folds_targetElement e).bind fun _ => ?_
    refine (folds_targetSlots rest).bind fun _ => ?_
    exact .pure fun _ => rfl

theorem folds_targetProperty : ∀ p : TargetProperty Node Name,
    Folds special relabel (targetProperty special p)
      (fun c => targetProperty c.special (c.mapping.targetProperty p))
  | .shorthand _ id init => by
    refine (folds_optExpr init).bind fun o => ?_
    exact .pure fun c => relabel_join c.r [.target id, o]
  | .keyed _ k e => by
    refine (folds_key k).bind fun o => ?_
    refine (folds_targetElement e).bind fun o' => ?_
    exact .pure fun c => relabel_join c.r [o, o']

theorem folds_targetProperties :
    ∀ ps : List (TargetProperty Node Name), Folds special relabelAll (targetProperties special ps)
      (fun c => targetProperties c.special (c.mapping.targetProperties ps))
  | [] => .pure (fun _ => rfl)
  | p :: rest => by
    refine (folds_targetProperty p).bind fun _ => ?_
    refine (folds_targetProperties rest).bind fun _ => ?_
    exact .pure fun _ => rfl

theorem folds_declarators :
    ∀ ds : List (BindingElement Node Name), Folds special relabelDeclarators
      (declarators special ds) (fun c => declarators c.special (c.mapping.elements ds))
  | [] => .pure (fun _ => rfl)
  | .mk _ _ b init :: rest => by
    refine (folds_binding b).bind fun _ => ?_
    refine (folds_optExpr init).bind fun _ => ?_
    refine (folds_declarators rest).bind fun _ => ?_
    refine .pure fun c => ?_
    rw [isSome_optExpr]
    rfl

theorem folds_stmt : ∀ s : Stmt Node Name,
    Folds special relabel (stmt special s) (fun c => stmt c.special (c.mapping.stmt s))
  | .expr _ value => folds_expr value
  | .decl _ _ _ ds => by
    refine (folds_declarators ds).bind fun _ => ?_
    exact .pure fun _ => rfl
  | .block node statements => by
    refine (folds_stmts statements).bind fun os => ?_
    exact folds_block node os
  | .empty _ | .debugger _ | .jump _ _ _ => .pure (fun _ => rfl)
  | .labeled _ _ s => folds_stmt s
  | .ifThen _ test yes => by
    refine (folds_expr test).bind fun _ => ?_
    refine (folds_stmt yes).bind fun _ => ?_
    refine .pure fun c => ?_
    rw [loneFunction_stmt]
    rfl
  | .ifElse _ test yes no => by
    refine (folds_expr test).bind fun _ => ?_
    refine (folds_stmt yes).bind fun _ => ?_
    refine (folds_stmt no).bind fun _ => ?_
    refine .pure fun c => ?_
    rw [loneFunction_stmt, loneFunction_stmt]
    rfl
  | .forLoop _ init test step s => by
    refine (folds_optExpr init).bind fun o => ?_
    refine (folds_lexicalDeclarations false o).bind fun _ => ?_
    refine (folds_optExpr test).bind fun _ => ?_
    refine (folds_optExpr step).bind fun _ => ?_
    refine (folds_stmt s).bind fun _ => ?_
    exact .pure fun _ => rfl
  | .forDecl _ _ kind ds test step s => by
    refine (folds_declarators ds).bind fun o => ?_
    refine (folds_lexicalDeclarations false (.decl kind o)).bind fun _ => ?_
    refine (folds_optExpr test).bind fun _ => ?_
    refine (folds_optExpr step).bind fun _ => ?_
    refine (folds_stmt s).bind fun _ => ?_
    exact .pure fun _ => rfl
  | .forEach _ _ t collection s => by
    refine (folds_target t).bind fun _ => ?_
    refine (folds_expr collection).bind fun _ => ?_
    refine (folds_stmt s).bind fun _ => ?_
    exact .pure fun _ => rfl
  | .forEachDecl _ _ _ kind ds collection s => by
    refine (folds_declarators ds).bind fun o => ?_
    refine (folds_lexicalDeclarations false (.decl kind o)).bind fun _ => ?_
    refine (folds_expr collection).bind fun _ => ?_
    refine (folds_stmt s).bind fun _ => ?_
    exact .pure fun _ => rfl
  | .whileLoop _ test s => by
    refine (folds_expr test).bind fun o => ?_
    refine (folds_stmt s).bind fun o' => ?_
    exact .pure fun c => relabel_join c.r [o, o']
  | .doLoop _ s test => by
    refine (folds_stmt s).bind fun o => ?_
    refine (folds_expr test).bind fun o' => ?_
    exact .pure fun c => relabel_join c.r [o, o']
  | .ret _ value => folds_optExpr value
  | .throw _ value => folds_expr value
  | .withObject _ object s => by
    refine (folds_expr object).bind fun _ => ?_
    refine (folds_stmt s).bind fun _ => ?_
    exact .pure fun _ => rfl
  | .switch _ discriminant _ cs => by
    refine (folds_clauses cs).bind fun _ => ?_
    refine (folds_expr discriminant).bind fun _ => ?_
    exact .pure fun _ => rfl
  | .tryCatch _ node statements h => by
    refine (folds_stmts statements).bind fun os => ?_
    refine (folds_block node os).bind fun o => ?_
    refine (folds_handler h).bind fun o' => ?_
    exact .pure fun c => relabel_join c.r [o, o']
  | .tryFinally _ node statements last finalizer => by
    refine (folds_stmts statements).bind fun os => ?_
    refine (folds_block node os).bind fun o => ?_
    refine (folds_stmts finalizer).bind fun os' => ?_
    refine (folds_block last os').bind fun o' => ?_
    exact .pure fun c => relabel_join c.r [o, o']
  | .tryCatchFinally _ node statements h last finalizer => by
    refine (folds_stmts statements).bind fun os => ?_
    refine (folds_block node os).bind fun o => ?_
    refine (folds_handler h).bind fun o' => ?_
    refine (folds_stmts finalizer).bind fun os' => ?_
    refine (folds_block last os').bind fun o'' => ?_
    exact .pure fun c => relabel_join c.r [o, o', o'']
  | .function g => folds_func .declaration g
  | .class_ c => folds_class true c

theorem folds_stmts : ∀ ss : List (Stmt Node Name),
    Folds special relabelAll (stmts special ss) (fun c => stmts c.special (c.mapping.stmts ss))
  | [] => .pure (fun _ => rfl)
  | s :: rest => by
    refine (folds_stmt s).bind fun o => ?_
    refine (folds_stmts rest).bind fun os => ?_
    exact .pure fun c => (keep_relabel c.r o os).symm

theorem folds_handler : ∀ h : Handler Node Name,
    Folds special relabel (handler special h) (fun c => handler c.special (c.mapping.handler h))
  | .mk _ b _ statements => by
    refine (folds_optBinding b).bind fun _ => ?_
    refine (folds_stmts statements).bind fun os => ?_
    refine (folds_lexicalDeclarationsAll false os).bind fun _ => ?_
    refine .pure fun c => ?_
    rw [isPattern_optBinding]
    rfl

theorem folds_clauses : ∀ cs : List (Clause Node Name),
    Folds special (fun r => Prod.map (relabelCases r) (List.map (Declaration.relabel r)))
      (clauses special cs) (fun c => clauses c.special (c.mapping.clauses cs))
  | [] => .pure (fun _ => rfl)
  | .mk _ test statements :: rest => by
    refine (folds_optExpr test).bind fun _ => ?_
    refine (folds_clauseStmts statements).bind fun _ => ?_
    refine (folds_clauses rest).bind fun _ => ?_
    exact .pure fun _ => congrArg (Prod.mk _) List.map_append

theorem folds_clauseStmts : ∀ ss : List (Stmt Node Name),
    Folds special (fun r => Prod.map (relabelAll r) (List.map (Declaration.relabel r)))
      (clauseStmts special ss) (fun c => clauseStmts c.special (c.mapping.stmts ss))
  | [] => .pure (fun _ => rfl)
  | s :: rest => by
    refine (folds_stmt s).bind fun o => ?_
    refine (folds_lexicalDeclarations false o).bind fun _ => ?_
    refine (folds_clauseStmts rest).bind fun _ => ?_
    exact .pure fun _ => Prod.ext (keep_relabel ..).symm List.map_append

end

theorem folds_item (i : Item Node Name) :
    Folds special relabel (item special i) (fun c => item c.special (c.mapping.item i)) := by
  cases i with
  | stmt s => exact folds_stmt s
  | imports node source defaultBinding nameSpace named =>
    refine .pure (fun c => ?_)
    simp [relabel, Option.toList_map, Mapping.importSpecifier, Function.comp_def]
  | exportAll node source => exact .pure (fun _ => rfl)
  | exportFrom node source names => exact .pure (fun _ => rfl)
  | exportLocals node names =>
    refine .pure (fun c => ?_)
    simp [relabel_join, relabelAll_eq_map, relabel, Function.comp_def, Mapping.exportSpecifier]
  | exportStmt s => exact folds_stmt s
  | exportDefaultFunction g => exact folds_func .declaration g
  | exportDefaultClass c => exact folds_class true c
  | exportDefaultExpr value => exact folds_expr value

theorem folds_items : ∀ is : List (Item Node Name),
    Folds special relabelAll (items special is) (fun c => items c.special (is.map c.mapping.item))
  | [] => .pure (fun _ => rfl)
  | i :: rest => by
    refine (folds_item i).bind fun o => ?_
    refine (folds_items rest).bind fun os => ?_
    exact .pure fun c => (keep_relabel c.r o os).symm

end Folding

/-- A relabelled program has the relabelled outline, whatever flags its functions get. -/
theorem NumberedProgram.folds_outline {special : SpecialNames} : ∀ p : NumberedProgram,
    Folding.Folds special ProgramOutline.relabel (p.outline special)
      (fun c => NumberedProgram.outline c.special (Program.map c.mapping p))
  | .script _ ds statements => by
    refine (Folding.folds_stmts statements).bind fun os => ?_
    refine (Folding.folds_lexicalDeclarationsAll true os).bind fun _ => ?_
    refine .pure fun c => ?_
    rw [Folding.saysUseStrict_map]
    rfl
  | .module _ _ is => by
    refine (Folding.folds_items is).bind fun os => ?_
    refine (Folding.folds_lexicalDeclarationsAll true os).bind fun _ => ?_
    exact .pure fun _ => rfl

end ScopeAnalysis
