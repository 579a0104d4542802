import ScopeAnalysis.Proofs.Grammar.Members

/-!
# Folding keeps the pieces

Every part of a program is folded into an outline of its role, and walking the outline yields the
pieces of that part. The induction follows the syntax, with one case for each construct; what is
special about a construct has been said before.
-/

namespace ScopeAnalysis

open Resolution

namespace Reading

variable (R : Reading)

/-- Whether code among the given enclosures is strict. -/
abbrev isStrict (around : List Enclosure) : Bool :=
  strictIn R.setting.options R.useStrict around

/-- The outline of a function. -/
def IsFunction (strict : Bool) (kind : FunctionKind) (o : Outline) (pieces : List Piece) :
    Func Node Name → Prop
  | .mk node name _ _ _ => ∃ params body, o = .function kind node name params body ∧
    R.Completes (.ofOutline R.setting strict o) pieces

/-- The outline of a class. -/
def IsClass (strict isDeclaration : Bool) (o : Outline) (pieces : List Piece) :
    Class Node Name → Prop
  | .mk node name _ _ => ∃ heritage elements,
    o = .class_ node isDeclaration name heritage elements ∧
      R.Completes (.ofOutline R.setting strict o) pieces

variable {R} {strict : Bool} {o o' : Outline} {os : List Outline} {pieces pieces' : List Piece}

theorem IsFunction.value {kind : FunctionKind} {f : Func Node Name}
    (function : R.IsFunction strict kind o pieces f) (other : kind ≠ .declaration) :
    R.Value strict o pieces := by
  obtain ⟨node, name, flags, ps, b⟩ := f
  obtain ⟨params, body, rfl, course⟩ := function
  exact value_function other course

theorem IsFunction.statement {f : Func Node Name}
    (function : R.IsFunction strict .declaration o pieces f) :
    R.Statement strict (.function f) o pieces := by
  obtain ⟨node, name, flags, ps, b⟩ := f
  obtain ⟨params, body, rfl, course⟩ := function
  exact statement_function course

theorem IsClass.value {c : Class Node Name} (class_ : R.IsClass strict false o pieces c) :
    R.Value strict o pieces := by
  obtain ⟨node, name, parent, ms⟩ := c
  obtain ⟨heritage, elements, rfl, course⟩ := class_
  exact value_class course

theorem IsClass.statement {c : Class Node Name} (class_ : R.IsClass strict true o pieces c) :
    R.Statement strict (.class_ c) o pieces := by
  obtain ⟨node, name, parent, ms⟩ := c
  obtain ⟨heritage, elements, rfl, course⟩ := class_
  exact statement_class course

variable (R strict)

/-- A target writes the names of its syntax. It is a bare identifier only if the syntax is, or is a
pattern around one. -/
structure Targets (t : Target Node Name) (o : Outline) (pieces : List Piece) : Prop where
  writes : R.Writes strict o t.names pieces
  ident : ∀ id, t = .ident id → o = .target id
  lone : ∀ id, o = .target id → t = .ident id ∨ t.isPattern = true

/-- A key that is not computed leaves nothing behind. -/
structure Keys (k : Key Node Name) (o : Outline) (pieces : List Piece) : Prop where
  value : R.Value strict o pieces
  bare : k.isComputed = false → o = .nothing ∧ pieces = []

variable {R strict}

theorem Keys.binds {k : Key Node Name} {names : List Occurrence} {evaluates : Bool}
    (head : R.Keys strict k o pieces) (binds : R.Binds strict o' names evaluates pieces') :
    R.Binds strict (if k.isComputed then .evaluated (.join [o, o']) else .join [o, o']) names
      (k.isComputed || evaluates) (pieces ++ pieces') := by
  cases computed : k.isComputed with
  | true => exact .withKey head.value binds
  | false =>
    obtain ⟨rfl, rfl⟩ := head.bare computed
    have both := Binds.join (Binds.nothing.cons (binds.cons Binds.nil))
    rwa [List.append_nil, List.append_nil, Bool.or_false] at both

/-- The value of an assignment. A compound assignment reads its target if that is an identifier. -/
theorem Targets.assign {op : AssignmentOperator} {t : Target Node Name}
    (target : R.Targets strict t o pieces)
    (plain : R.plain → (Piece.assign op t).isPlain = true) (value : R.Value strict o' pieces') :
    R.Value strict (.assign op.isCompound o o')
      (.assign op t :: (Piece.ofAssign op t ++ (pieces ++ pieces'))) := by
  have general (other : ∀ id, t ≠ .ident id) :
      R.Completes (.writes op.isCompound o) (t.names.map (fun id => .use id .write)) := by
    refine target.writes.completes_writes op.isCompound (fun given compound id lone => ?_)
    obtain same | pattern := target.lone id lone
    · exact other id same
    · have fails := plain given
      simp [Piece.isPlain, compound, pattern] at fails
  have writes : R.Completes (.writes op.isCompound o) (Piece.ofAssign op t) := by
    cases t with
    | ident id =>
      rw [target.ident id rfl]
      exact .use id (if op.isCompound then .readWrite else .write)
    | member => exact general nofun
    | index => exact general nofun
    | array => exact general nofun
    | object => exact general nofun
  exact (Value.assign writes target.writes.course value).cons_mute rfl rfl

theorem Targets.of_isPattern {t : Target Node Name} (writes : R.Writes strict o t.names pieces)
    (pattern : t.isPattern = true) : R.Targets strict t o pieces where
  writes := writes
  ident id same := by
    rw [same] at pattern
    cases pattern
  lone _ _ := .inr pattern

end Reading

/-! Whatever is deleted other than an identifier is a value. -/

theorem Pieces.expr_delete (around : List Enclosure) {node : Node} {operand : Expr Node Name}
    (other : ∀ id, operand ≠ .ident id) :
    Pieces.expr around (.delete node operand) = Pieces.expr around operand := by
  cases operand with
  | ident id => exact absurd rfl (other id)
  | _ => rfl

theorem Folding.expr_delete (special : SpecialNames) {node : Node} {operand : Expr Node Name}
    (other : ∀ id, operand ≠ .ident id) :
    Folding.expr special (.delete node operand) = Folding.expr special operand := by
  cases operand with
  | ident id => exact absurd rfl (other id)
  | _ => rfl

namespace Folding

variable {R : Reading}

theorem perm_declarators (around : List Enclosure) (node : Node) (order : ElementOrder)
    (b : Binding Node Name) (init : Option (Expr Node Name))
    (rest : List (BindingElement Node Name)) :
    ((if init.isSome then b.names.map (fun id => Piece.use id .write) else []) ++
        (Pieces.binding around b ++ (Pieces.optExpr around init ++
          (Piece.ofDeclarators rest ++ Pieces.elements around rest)))).Perm
      (Piece.ofDeclarators (.mk node order b init :: rest) ++
        Pieces.elements around (.mk node order b init :: rest)) := by
  have first : Piece.ofDeclarators (.mk node order b init :: rest) =
      (if init.isSome then b.names.map (fun id => Piece.use id .write) else []) ++
        Piece.ofDeclarators rest := List.flatMap_cons
  rw [← Multiset.coe_eq_coe, first, Pieces.elements, Pieces.element]
  simp only [← Multiset.coe_add]
  abel

/-- A block of statements whose lexical declarations are collected. -/
theorem meets_block {strict : Bool} {ss : List (Stmt Node Name)} {os : List Outline}
    {pieces : List Piece} (node : Node) (all : R.Statements strict ss os pieces) :
    Meets R.sound (block node os) (fun o => R.Still strict (Stmt.varsAll ss)
      (fun rivals => Stmt.nestedAll false (rivals ++ ss.flatMap (Stmt.lexicals false)) ss) o
      (.scope (.block node ss) :: pieces)) :=
  (Meets.answer (all.lexical false)).bind (fun _ same => .pure (.block all same))

section Induction

open Reading

/-- What is given of a function is given of its parameters and its body. -/
theorem given_func {around : List Enclosure} {kind : FunctionKind} {node : Node}
    {name : Option Occurrence} {flags : FunctionFlags} {ps : Params Node Name} {b : Body Node Name}
    (given : R.Given (Pieces.func around kind (.mk node name flags ps b))) :
    R.Given (Pieces.params (.function b.directives :: around) ps) ∧
      R.Given (Pieces.body (.function b.directives :: around) b) := by
  rw [Pieces.func] at given
  obtain ⟨_, rest⟩ := given_append.1 given
  obtain ⟨_, rest⟩ := given_append.1 rest
  obtain ⟨parameters, rest⟩ := given_append.1 rest
  exact ⟨parameters, (given_cons.1 rest).2⟩

mutual

theorem meets_expr (around : List Enclosure) : ∀ e : Expr Node Name,
    R.Given (Pieces.expr around e) → Meets R.sound (expr R.special e)
      (fun o => R.Value (R.isStrict around) o (Pieces.expr around e))
  | .ident id, _ => .pure (.read id)
  | .literal _ _, _ => .pure .nothing
  | .keyword _ _, _ => .pure .nothing
  | .hole _, _ => .pure .nothing
  | .template _ tag parts, given => by
    obtain ⟨first, second⟩ := given_append.1 given
    refine (meets_optExpr around tag first).bind (fun o here => ?_)
    exact (meets_exprs around parts second).bind
      (fun os further => .pure (.join (here.cons further)))
  | .array _ elements, given =>
    (meets_exprs around elements given).bind (fun os all => .pure (.join all))
  | .object _ ps, given =>
    (meets_properties around ps [] [] .nil given).bind (fun parts all => .pure all.value)
  | .member _ object _, given => meets_expr around object given
  | .index _ object k, given => by
    obtain ⟨first, second⟩ := given_append.1 given
    refine (meets_expr around object first).bind (fun o here => ?_)
    exact (meets_expr around k second).bind (fun o' further => .pure (here.join₂ further))
  | .call _ callee arguments, given => by
    obtain ⟨first, second⟩ := given_append.1 given
    refine (meets_expr around callee first).bind (fun o here => ?_)
    refine (meets_exprs around arguments second).bind (fun os further => .pure ?_)
    split
    · exact .directEval (.join (here.cons further))
    · exact .join (here.cons further)
  | .construct _ callee arguments, given => by
    obtain ⟨first, second⟩ := given_append.1 given
    refine (meets_expr around callee first).bind (fun o here => ?_)
    exact (meets_exprs around arguments second).bind (fun os further =>
      .pure (.join (here.cons further)))
  | .function f, given =>
    (meets_func around .expression f given).imp (fun _ function => function.value nofun)
  | .arrow f, given => meets_arrow around f given
  | .class_ c, given => (meets_class around false c given).imp (fun _ class_ => class_.value)
  | .assign _ op t value, given => by
    obtain ⟨⟨_, _, plain⟩, rest⟩ := given_cons.1 given
    obtain ⟨_, rest⟩ := given_append.1 rest
    obtain ⟨first, second⟩ := given_append.1 rest
    refine (meets_target around t first).bind (fun o target => ?_)
    exact (meets_expr around value second).bind (fun o' further =>
      .pure (target.assign plain further))
  | .binary _ left _ right, given => by
    obtain ⟨first, second⟩ := given_append.1 given
    refine (meets_expr around left first).bind (fun o here => ?_)
    exact (meets_expr around right second).bind (fun o' further => .pure (here.join₂ further))
  | .conditional _ test yes no, given => by
    obtain ⟨first, rest⟩ := given_append.1 given
    obtain ⟨second, third⟩ := given_append.1 rest
    refine (meets_expr around test first).bind (fun o here => ?_)
    refine (meets_expr around yes second).bind (fun o' further => ?_)
    exact (meets_expr around no third).bind (fun o'' last => .pure (here.join₃ further last))
  | .delete _ operand, given => by
    by_cases lone : ∃ id, operand = .ident id
    · obtain ⟨id, rfl⟩ := lone
      exact .pure (.delete id)
    · have other : ∀ id, operand ≠ .ident id := fun id same => lone ⟨id, same⟩
      rw [Pieces.expr_delete around other] at given ⊢
      rw [expr_delete R.special other]
      exact meets_expr around operand given
  | .unary _ _ operand, given => meets_expr around operand given
  | .update _ _ _ (.ident id), _ => .pure ((Value.update id).cons_mute rfl rfl)
  | .update _ _ _ (.member _ object _), given => by
    obtain ⟨_, rest⟩ := given_cons.1 given
    exact (meets_expr around object rest).imp (fun o value => value.cons_mute rfl rfl)
  | .update _ _ _ (.index _ object k), given => by
    obtain ⟨_, rest⟩ := given_cons.1 given
    obtain ⟨_, rest⟩ := given_append.1 rest
    obtain ⟨first, second⟩ := given_append.1 rest
    refine (meets_expr around object first).bind (fun o here => ?_)
    exact (meets_expr around k second).bind (fun o' further =>
      .pure ((here.join₂ further).cons_mute rfl rfl))
  | .update _ _ _ (.array node slots rest), given => by
    obtain ⟨⟨_, sound, _⟩, given⟩ := given_cons.1 given
    refine (meets_target around (.array node slots rest) given).imp (fun o target => ?_)
    exact (target.writes.value (fun holds => nomatch sound holds)).cons_mute rfl rfl
  | .update _ _ _ (.object node ps rest), given => by
    obtain ⟨⟨_, sound, _⟩, given⟩ := given_cons.1 given
    refine (meets_target around (.object node ps rest) given).imp (fun o target => ?_)
    exact (target.writes.value (fun holds => nomatch sound holds)).cons_mute rfl rfl
  | .yield _ operand, given => meets_optExpr around operand given
  | .spread _ operand, given => meets_expr around operand given

theorem meets_optExpr (around : List Enclosure) : ∀ e : Option (Expr Node Name),
    R.Given (Pieces.optExpr around e) → Meets R.sound (optExpr R.special e)
      (fun o => R.Value (R.isStrict around) o (Pieces.optExpr around e))
  | none, _ => .pure .nothing
  | some e, given => meets_expr around e given

theorem meets_exprs (around : List Enclosure) : ∀ es : List (Expr Node Name),
    R.Given (Pieces.exprs around es) → Meets R.sound (exprs R.special es)
      (fun os => R.Values (R.isStrict around) os (Pieces.exprs around es))
  | [], _ => .pure Value.nil
  | e :: rest, given => by
    obtain ⟨first, second⟩ := given_append.1 given
    refine (meets_expr around e first).bind (fun o here => ?_)
    exact (meets_exprs around rest second).bind (fun os further => .pure (here.cons further))

theorem meets_properties (around : List Enclosure) : ∀ (ps : List (Property Node Name))
    (parts : List Part) (pieces : List Piece), R.Gathers (R.isStrict around) parts pieces →
    R.Given (Pieces.properties around ps) → Meets R.sound (properties R.special parts ps)
      (fun found => R.Gathers (R.isStrict around) found (pieces ++ Pieces.properties around ps))
  | [], parts, pieces, gathers, _ => .pure ((List.append_nil pieces).symm ▸ gathers)
  | .keyed _ k value :: rest, parts, pieces, gathers, given => by
    obtain ⟨here, further⟩ := given_append.1 given
    obtain ⟨first, second⟩ := given_append.1 here
    refine (meets_key around k first).bind (fun o head => ?_)
    refine (meets_expr around value second).bind (fun o' value => ?_)
    have grown := gathers.addPart none (head.value.join₂ value)
    exact (meets_properties around rest _ _ grown further).imp (fun _ all => all.assoc)
  | .shorthand _ id :: rest, parts, pieces, gathers, given => by
    obtain ⟨_, further⟩ := given_cons.1 given
    have grown := gathers.addPart none (.read id)
    exact (meets_properties around rest _ _ grown further).imp (fun _ all => all.assoc)
  | .spread _ value :: rest, parts, pieces, gathers, given => by
    obtain ⟨here, further⟩ := given_append.1 given
    refine (meets_expr around value here).bind (fun o value => ?_)
    have grown := gathers.addPart none value
    exact (meets_properties around rest _ _ grown further).imp (fun _ all => all.assoc)
  | .method kind k f :: rest, parts, pieces, gathers, given => by
    obtain ⟨here, further⟩ := given_append.1 given
    obtain ⟨first, second⟩ := given_append.1 here
    refine (meets_func around (methodFunction kind) f second).bind (fun o function => ?_)
    refine (meets_key around k first).bind (fun o' head => ?_)
    refine (meets_accessorSlot false kind k).bind (fun slot _ => ?_)
    have value := function.value (by cases kind <;> nofun)
    have grown := gathers.addPart slot (head.value.join₂ value)
    exact (meets_properties around rest _ _ grown further).imp (fun _ all => all.assoc)

theorem meets_members (around : List Enclosure) : ∀ (ms : List (Member Node Name))
    (parts : List Part) (pieces : List Piece), R.Gathers (R.isStrict around) parts pieces →
    R.Given (Pieces.members around ms) → Meets R.sound (members R.special parts ms)
      (fun found => R.Gathers (R.isStrict around) found (pieces ++ Pieces.members around ms))
  | [], parts, pieces, gathers, _ => .pure ((List.append_nil pieces).symm ▸ gathers)
  | .mk _ isStatic kind k f :: rest, parts, pieces, gathers, given => by
    obtain ⟨here, further⟩ := given_append.1 given
    obtain ⟨first, second⟩ := given_append.1 here
    refine (meets_func around (methodFunction kind) f second).bind (fun o function => ?_)
    refine (meets_key around k first).bind (fun o' head => ?_)
    refine (meets_accessorSlot isStatic kind k).bind (fun slot _ => ?_)
    have value := function.value (by cases kind <;> nofun)
    have grown := gathers.addPart slot (head.value.join₂ value)
    exact (meets_members around rest _ _ grown further).imp (fun _ all => all.assoc)

theorem meets_key (around : List Enclosure) : ∀ k : Key Node Name,
    R.Given (Pieces.key around k) → Meets R.sound (key R.special k)
      (fun o => R.Keys (R.isStrict around) k o (Pieces.key around k))
  | .computed _ value, given =>
    (meets_expr around value given).imp (fun _ here => ⟨here, nofun⟩)
  | .ident _, _ => .pure ⟨.nothing, fun _ => ⟨rfl, rfl⟩⟩
  | .string _ _, _ => .pure ⟨.nothing, fun _ => ⟨rfl, rfl⟩⟩
  | .number _ _, _ => .pure ⟨.nothing, fun _ => ⟨rfl, rfl⟩⟩

theorem meets_class (around : List Enclosure) (isDeclaration : Bool) : ∀ c : Class Node Name,
    R.Given (Pieces.classPieces around c) → Meets R.sound (classOutline R.special isDeclaration c)
      (fun o => R.IsClass (R.isStrict around) isDeclaration o (Pieces.classPieces around c) c)
  | .mk node name heritage ms, given => by
    obtain ⟨_, rest⟩ := given_cons.1 given
    obtain ⟨first, second⟩ := given_append.1 rest
    have strict : R.isStrict (.class_ :: around) = true := strictIn_class _ _ _
    refine (meets_members (.class_ :: around) ms [] [] .nil second).bind (fun parts all => ?_)
    refine (meets_optExpr (.class_ :: around) heritage first).bind (fun o parent => .pure ?_)
    rw [strict] at all parent
    exact ⟨_, _, rfl, completes_class parent all.completes isDeclaration⟩

theorem meets_func (around : List Enclosure) (kind : FunctionKind) : ∀ f : Func Node Name,
    R.Given (Pieces.func around kind f) → Meets R.sound (func R.special kind f)
      (fun o => R.IsFunction (R.isStrict around) kind o (Pieces.func around kind f) f)
  | .mk node name _ ps b, given => by
    obtain ⟨first, second⟩ := given_func given
    refine (meets_params (.function b.directives :: around) ps first).bind (fun os parameters => ?_)
    refine (meets_body around b second).bind (fun bo bodied => .pure ⟨_, _, rfl, ?_⟩)
    exact completes_function parameters bodied (Pieces.params_of_evaluates _ ps)

theorem meets_arrow (around : List Enclosure) : ∀ f : Func Node Name,
    R.Given (Pieces.func around .arrow f) → Meets R.sound (arrow R.special f)
      (fun o => R.Value (R.isStrict around) o (Pieces.func around .arrow f))
  | .mk node name _ ps b, given => by
    have unnamed : Piece.ofName .arrow node name = Piece.ofName .arrow node none := by
      cases name <;> rfl
    obtain ⟨first, second⟩ := given_func given
    rw [Pieces.func, unnamed]
    refine (meets_body around b second).bind (fun bo bodied => ?_)
    refine (meets_params (.function b.directives :: around) ps first).bind (fun os parameters => ?_)
    refine .pure (value_function nofun ?_)
    exact completes_function parameters bodied (Pieces.params_of_evaluates _ ps)

theorem meets_params (around : List Enclosure) : ∀ ps : Params Node Name,
    R.Given (Pieces.params around ps) → Meets R.sound (params R.special ps)
      (fun os => R.Parameters (R.isStrict around) ps.names ps.evaluates os
        (parameterScopes ps.evaluatedNodes ++ Pieces.params around ps))
  | .mk _ items none, given => by
    obtain ⟨first, _⟩ := given_append.1 given
    refine (meets_paramItems around items first).imp (fun os parameters => ?_)
    simpa [Params.evaluatedNodes, Params.names, Params.evaluates, Binding.optNames,
      Binding.optEvaluates, Pieces.params, Pieces.optBinding] using parameters
  | .mk _ items (some b), given => by
    obtain ⟨first, second⟩ := given_append.1 given
    refine (meets_paramItems around items first).bind (fun os parameters => ?_)
    refine (meets_binding around b second).bind (fun o binds => .pure ?_)
    rw [evaluatedNodes_some, parameterScopes_append]
    exact parameters.append (.singleton (bindingNode b) binds)

theorem meets_paramItems (around : List Enclosure) : ∀ es : List (BindingElement Node Name),
    R.Given (Pieces.elements around es) → Meets R.sound (paramItems R.special es)
      (fun os => R.Parameters (R.isStrict around) (es.flatMap BindingElement.names)
        (es.any BindingElement.evaluates) os
        (parameterScopes ((es.filter BindingElement.evaluates).map elementNode) ++
          Pieces.elements around es))
  | [], _ => .pure .nil
  | e :: rest, given => by
    obtain ⟨first, second⟩ := given_append.1 given
    refine (meets_bindingElement around e first).bind (fun o binds => ?_)
    refine (meets_paramItems around rest second).bind (fun os parameters => .pure ?_)
    rw [elementNodes_cons, parameterScopes_append]
    exact (Parameters.singleton (elementNode e) binds).append parameters

theorem meets_body (around : List Enclosure) : ∀ b : Body Node Name,
    R.Given (Pieces.body (.function b.directives :: around) b) → Meets R.sound (body R.special b)
      (fun bo => R.Bodied around b bo (Pieces.body (.function b.directives :: around) b))
  | .block _ directives statements, given => by
    refine (meets_stmts (.function directives :: around) statements given).bind (fun os all => ?_)
    refine (Meets.answer (all.lexical true)).bind (fun decls same => .pure ?_)
    exact .block all same
  | .concise value, given =>
    (meets_expr (.function [] :: around) value given).bind (fun o value =>
      .pure (.concise value))

theorem meets_binding (around : List Enclosure) : ∀ b : Binding Node Name,
    R.Given (Pieces.binding around b) → Meets R.sound (binding R.special b)
      (fun o => R.Binds (R.isStrict around) o b.names b.evaluates (Pieces.binding around b))
  | .ident id, _ => .pure (.ident id)
  | .array _ slots rest, given => by
    obtain ⟨first, second⟩ := given_append.1 given
    refine (meets_bindingSlots around slots first).bind (fun os all => ?_)
    exact (meets_optBinding around rest second).bind
      (fun o last => .pure (.join (Binds.snoc all last)))
  | .object _ ps none, given => by
    refine (meets_bindingProperties around ps given).bind (fun os all => .pure ?_)
    simpa [Binding.names, Binding.evaluates, Pieces.binding] using Binds.join all
  | .object _ ps (some id), given => by
    refine (meets_bindingProperties around ps given).bind (fun os all => .pure ?_)
    have both := Binds.join (Binds.snoc all (.ident id))
    rwa [Bool.or_false, List.append_nil] at both

theorem meets_optBinding (around : List Enclosure) : ∀ b : Option (Binding Node Name),
    R.Given (Pieces.optBinding around b) → Meets R.sound (optBinding R.special b)
      (fun o => R.Binds (R.isStrict around) o (Binding.optNames b) (Binding.optEvaluates b)
        (Pieces.optBinding around b))
  | none, _ => .pure .nothing
  | some b, given => meets_binding around b given

theorem meets_bindingElement (around : List Enclosure) : ∀ e : BindingElement Node Name,
    R.Given (Pieces.element around e) → Meets R.sound (bindingElement R.special e)
      (fun o => R.Binds (R.isStrict around) o e.names e.evaluates (Pieces.element around e))
  | .mk _ _ b none, given => by
    rw [Pieces.element, Pieces.optExpr, List.append_nil] at given ⊢
    exact meets_binding around b given
  | .mk _ _ b (some init), given => by
    obtain ⟨first, second⟩ := given_append.1 given
    refine (meets_binding around b first).bind (fun o binds => ?_)
    exact (meets_expr around init second).bind (fun o' value => .pure (binds.withDefault value))

theorem meets_bindingSlots (around : List Enclosure) :
    ∀ slots : List (Slot Node (BindingElement Node Name)),
    R.Given (Pieces.bindingSlots around slots) → Meets R.sound (bindingSlots R.special slots)
      (fun os => R.BindsAll (R.isStrict around) os (Binding.slotNames slots)
        (Binding.slotsEvaluate slots) (Pieces.bindingSlots around slots))
  | [], _ => .pure Binds.nil
  | .hole _ :: rest, given => meets_bindingSlots around rest given
  | .element e :: rest, given => by
    obtain ⟨first, second⟩ := given_append.1 given
    refine (meets_bindingElement around e first).bind (fun o binds => ?_)
    exact (meets_bindingSlots around rest second).bind (fun os all => .pure (binds.cons all))

theorem meets_bindingProperty (around : List Enclosure) : ∀ p : BindingProperty Node Name,
    R.Given (Pieces.bindingProperty around p) → Meets R.sound (bindingProperty R.special p)
      (fun o => R.Binds (R.isStrict around) o p.names p.evaluates
        (Pieces.bindingProperty around p))
  | .shorthand _ id none, _ => .pure (.ident id)
  | .shorthand _ id (some init), given =>
    (meets_expr around init given).bind (fun o value =>
      .pure ((Binds.ident id).withDefault value))
  | .keyed _ k e, given => by
    obtain ⟨first, second⟩ := given_append.1 given
    refine (meets_key around k first).bind (fun o head => ?_)
    refine (meets_bindingElement around e second).bind (fun o' binds => .pure ?_)
    exact head.binds binds

theorem meets_bindingProperties (around : List Enclosure) :
    ∀ ps : List (BindingProperty Node Name),
    R.Given (Pieces.bindingProperties around ps) → Meets R.sound (bindingProperties R.special ps)
      (fun os => R.BindsAll (R.isStrict around) os (Binding.propertyNames ps)
        (Binding.propertiesEvaluate ps) (Pieces.bindingProperties around ps))
  | [], _ => .pure Binds.nil
  | p :: rest, given => by
    obtain ⟨first, second⟩ := given_append.1 given
    refine (meets_bindingProperty around p first).bind (fun o binds => ?_)
    exact (meets_bindingProperties around rest second).bind (fun os all => .pure (binds.cons all))

theorem meets_target (around : List Enclosure) : ∀ t : Target Node Name,
    R.Given (Pieces.target around t) → Meets R.sound (target R.special t)
      (fun o => R.Targets (R.isStrict around) t o (Pieces.target around t))
  | .ident id, _ => .pure ⟨.ident id, by simp, by simp⟩
  | .member _ object _, given => by
    refine (meets_expr around object given).bind (fun o value => .pure ?_)
    exact ⟨.member value, nofun, by split <;> nofun⟩
  | .index _ object k, given => by
    obtain ⟨first, second⟩ := given_append.1 given
    refine (meets_expr around object first).bind (fun o here => ?_)
    refine (meets_expr around k second).bind (fun o' further => .pure ?_)
    exact ⟨.member (here.join₂ further), nofun, by split <;> nofun⟩
  | .array _ slots rest, given => by
    obtain ⟨first, second⟩ := given_append.1 given
    refine (meets_targetSlots around slots first).bind (fun os all => ?_)
    exact (meets_optTarget around rest second).bind (fun o last =>
      .pure (.of_isPattern (.join (Writes.snoc all last)) rfl))
  | .object _ ps rest, given => by
    obtain ⟨first, second⟩ := given_append.1 given
    refine (meets_targetProperties around ps first).bind (fun os all => ?_)
    exact (meets_optTarget around rest second).bind (fun o last =>
      .pure (.of_isPattern (.join (Writes.snoc all last)) rfl))

theorem meets_optTarget (around : List Enclosure) : ∀ t : Option (Target Node Name),
    R.Given (Pieces.optTarget around t) → Meets R.sound (optTarget R.special t)
      (fun o => R.Writes (R.isStrict around) o (Target.optNames t) (Pieces.optTarget around t))
  | none, _ => .pure .nothing
  | some t, given => (meets_target around t given).imp (fun _ target => target.writes)

theorem meets_targetElement (around : List Enclosure) : ∀ e : TargetElement Node Name,
    R.Given (Pieces.targetElement around e) → Meets R.sound (targetElement R.special e)
      (fun o => R.Writes (R.isStrict around) o e.names (Pieces.targetElement around e))
  | .mk _ t init, given => by
    obtain ⟨first, second⟩ := given_append.1 given
    refine (meets_target around t first).bind (fun o target => ?_)
    refine (meets_optExpr around init second).bind (fun o' value => .pure ?_)
    have both := target.writes.join₂ value.writes
    rwa [List.append_nil] at both

theorem meets_targetSlots (around : List Enclosure) :
    ∀ slots : List (Slot Node (TargetElement Node Name)),
    R.Given (Pieces.targetSlots around slots) → Meets R.sound (targetSlots R.special slots)
      (fun os => R.WritesAll (R.isStrict around) os (Target.slotNames slots)
        (Pieces.targetSlots around slots))
  | [], _ => .pure Writes.nil
  | .hole _ :: rest, given => meets_targetSlots around rest given
  | .element e :: rest, given => by
    obtain ⟨first, second⟩ := given_append.1 given
    refine (meets_targetElement around e first).bind (fun o writes => ?_)
    exact (meets_targetSlots around rest second).bind (fun os all => .pure (writes.cons all))

theorem meets_targetProperty (around : List Enclosure) : ∀ p : TargetProperty Node Name,
    R.Given (Pieces.targetProperty around p) → Meets R.sound (targetProperty R.special p)
      (fun o => R.Writes (R.isStrict around) o p.names (Pieces.targetProperty around p))
  | .shorthand _ id init, given =>
    (meets_optExpr around init given).bind (fun o value =>
      .pure ((Writes.ident id).join₂ value.writes))
  | .keyed _ k e, given => by
    obtain ⟨first, second⟩ := given_append.1 given
    refine (meets_key around k first).bind (fun o head => ?_)
    exact (meets_targetElement around e second).bind (fun o' writes =>
      .pure (head.value.writes.join₂ writes))

theorem meets_targetProperties (around : List Enclosure) :
    ∀ ps : List (TargetProperty Node Name),
    R.Given (Pieces.targetProperties around ps) → Meets R.sound (targetProperties R.special ps)
      (fun os => R.WritesAll (R.isStrict around) os (Target.propertyNames ps)
        (Pieces.targetProperties around ps))
  | [], _ => .pure Writes.nil
  | p :: rest, given => by
    obtain ⟨first, second⟩ := given_append.1 given
    refine (meets_targetProperty around p first).bind (fun o writes => ?_)
    exact (meets_targetProperties around rest second).bind (fun os all => .pure (writes.cons all))

theorem meets_declarators (around : List Enclosure) : ∀ ds : List (BindingElement Node Name),
    R.Given (Pieces.elements around ds) → Meets R.sound (declarators R.special ds)
      (fun os => R.Declares (R.isStrict around) ds os
        (Piece.ofDeclarators ds ++ Pieces.elements around ds))
  | [], _ => .pure .nil
  | .mk node order b init :: rest, given => by
    rw [Pieces.elements, Pieces.element] at given
    obtain ⟨here, further⟩ := given_append.1 given
    obtain ⟨first, second⟩ := given_append.1 here
    refine (meets_binding around b first).bind (fun o binds => ?_)
    refine (meets_optExpr around init second).bind (fun o' value => ?_)
    refine (meets_declarators around rest further).bind (fun os declares => .pure ?_)
    exact (Declares.cons binds value declares).perm (perm_declarators around ..)

theorem meets_stmt (around : List Enclosure) : ∀ s : Stmt Node Name,
    R.Given (Pieces.stmt around s) → Meets R.sound (stmt R.special s)
      (fun o => R.Statement (R.isStrict around) s o (Pieces.stmt around s))
  | .expr _ value, given =>
    (meets_expr around value given).imp (fun _ value => value.still.statement rfl)
  | .decl _ _ kind ds, given => by
    obtain ⟨_, further⟩ := given_append.1 given
    exact (meets_declarators around ds further).bind (fun os declares => .pure declares.statement)
  | .block node statements, given => by
    obtain ⟨_, inside⟩ := given_cons.1 given
    refine (meets_stmts around statements inside).bind (fun os all => ?_)
    exact (meets_block node all).imp (fun o block => block.statement rfl)
  | .empty _, _ => .pure (Value.nothing.still.statement rfl)
  | .debugger _, _ => .pure (Value.nothing.still.statement rfl)
  | .jump _ _ _, _ => .pure (Value.nothing.still.statement rfl)
  | .labeled _ _ s, given => meets_stmt around s given
  | .ifThen _ test yes, given => by
    obtain ⟨first, rest⟩ := given_append.1 given
    obtain ⟨_, rest⟩ := given_cons.1 rest
    obtain ⟨_, second⟩ := given_append.1 rest
    refine (meets_expr around test first).bind (fun o value => ?_)
    exact (meets_stmt around yes second).bind (fun o' stands =>
      .pure (Still.statement (.ifThen value stands) rfl))
  | .ifElse _ test yes no, given => by
    obtain ⟨first, rest⟩ := given_append.1 given
    obtain ⟨clause, clause'⟩ := given_append.1 rest
    obtain ⟨_, second⟩ := given_append.1 (given_cons.1 clause).2
    obtain ⟨_, third⟩ := given_append.1 (given_cons.1 clause').2
    refine (meets_expr around test first).bind (fun o value => ?_)
    refine (meets_stmt around yes second).bind (fun o' stands => ?_)
    exact (meets_stmt around no third).bind (fun o'' stands' =>
      .pure (Still.statement (.ifElse value stands stands') rfl))
  | .forLoop node init test update s, given => by
    obtain ⟨_, rest⟩ := given_cons.1 given
    obtain ⟨first, rest⟩ := given_append.1 rest
    obtain ⟨second, rest⟩ := given_append.1 rest
    obtain ⟨third, rest⟩ := given_append.1 rest
    obtain ⟨_, fourth⟩ := given_cons.1 rest
    refine (meets_optExpr around init first).bind (fun o head => ?_)
    refine (Meets.answer (head.silent.undeclared false)).bind (fun decls same => ?_)
    refine (meets_optExpr around test second).bind (fun o' condition => ?_)
    refine (meets_optExpr around update third).bind (fun o'' step => ?_)
    refine (meets_stmt around s fourth).bind (fun body stands => .pure ?_)
    have shape : (InnerScope.loop node).opening.shape = (.block, node, false) := rfl
    have loop := Still.forLoop shape head.still (fun _ => same) condition step stands
    simp only [InnerScope.opening, List.append_nil] at loop
    exact Still.statement loop rfl
  | .forDecl node _ kind ds test update s, given => by
    obtain ⟨_, rest⟩ := given_cons.1 given
    obtain ⟨first, rest⟩ := given_append.1 rest
    obtain ⟨_, first⟩ := given_append.1 first
    obtain ⟨second, rest⟩ := given_append.1 rest
    obtain ⟨third, rest⟩ := given_append.1 rest
    obtain ⟨_, fourth⟩ := given_cons.1 rest
    refine (meets_declarators around ds first).bind (fun os declares => ?_)
    refine (Meets.answer (declares.lexicalDeclarations kind false)).bind (fun decls same => ?_)
    refine (meets_optExpr around test second).bind (fun o' condition => ?_)
    refine (meets_optExpr around update third).bind (fun o'' step => ?_)
    refine (meets_stmt around s fourth).bind (fun body stands => .pure ?_)
    have shape : (InnerScope.declLoop node kind ds).opening.shape = (.block, node, false) := rfl
    have loop := Still.forLoop shape declares.head (fun _ => same) condition step stands
    exact Still.statement loop rfl
  | .forEach node _ t collection s, given => by
    obtain ⟨_, rest⟩ := given_cons.1 given
    obtain ⟨_, rest⟩ := given_append.1 rest
    obtain ⟨first, rest⟩ := given_append.1 rest
    obtain ⟨second, rest⟩ := given_append.1 rest
    obtain ⟨_, third⟩ := given_cons.1 rest
    refine (meets_target around t first).bind (fun o target => ?_)
    refine (meets_expr around collection second).bind (fun o' value => ?_)
    exact (meets_stmt around s third).bind (fun body stands =>
      .pure (Still.statement (.forEachTarget target.writes value stands) rfl))
  | .forEachDecl node _ _ kind ds collection s, given => by
    obtain ⟨_, rest⟩ := given_cons.1 given
    obtain ⟨_, rest⟩ := given_append.1 rest
    obtain ⟨first, rest⟩ := given_append.1 rest
    obtain ⟨_, first⟩ := given_append.1 first
    obtain ⟨second, rest⟩ := given_append.1 rest
    obtain ⟨_, third⟩ := given_cons.1 rest
    refine (meets_declarators around ds first).bind (fun os declares => ?_)
    refine (Meets.answer (declares.lexicalDeclarations kind false)).bind (fun decls same => ?_)
    refine (meets_expr around collection second).bind (fun o' value => ?_)
    exact (meets_stmt around s third).bind (fun body stands =>
      .pure (Still.statement (.forEachDecl declares (fun _ => same) value stands) rfl))
  | .whileLoop _ test s, given => by
    obtain ⟨first, rest⟩ := given_append.1 given
    obtain ⟨⟨placed, _, _⟩, second⟩ := given_cons.1 rest
    refine (meets_expr around test first).bind (fun o value => ?_)
    refine (meets_stmt around s second).bind (fun body stands => .pure ?_)
    have body := Stands.cons_stands .body s (Still.of_isFree stands placed)
    exact Still.statement (value.still.join₂ body) rfl
  | .doLoop _ s test, given => by
    obtain ⟨⟨placed, _, _⟩, rest⟩ := given_cons.1 given
    obtain ⟨first, second⟩ := given_append.1 rest
    refine (meets_stmt around s first).bind (fun body stands => ?_)
    refine (meets_expr around test second).bind (fun o value => .pure ?_)
    have body := Stands.cons_stands .body s (Still.of_isFree stands placed)
    have both := Still.join₂ body value.still
    simp only [List.append_nil] at both
    exact Still.statement both rfl
  | .ret _ value, given =>
    (meets_optExpr around value given).imp (fun _ value => value.still.statement rfl)
  | .throw _ value, given =>
    (meets_expr around value given).imp (fun _ value => value.still.statement rfl)
  | .withObject node object s, given => by
    obtain ⟨first, rest⟩ := given_append.1 given
    obtain ⟨_, rest⟩ := given_cons.1 rest
    obtain ⟨_, second⟩ := given_cons.1 rest
    refine (meets_expr around object first).bind (fun o value => ?_)
    exact (meets_stmt around s second).bind (fun body stands =>
      .pure (Still.statement (.withObject value stands) rfl))
  | .switch _ discriminant caseBlock cs, given => by
    obtain ⟨first, rest⟩ := given_append.1 given
    obtain ⟨_, second⟩ := given_cons.1 rest
    refine (meets_clauses around cs second).bind (fun found all => ?_)
    exact (meets_expr around discriminant first).bind (fun o value =>
      .pure (Still.statement (.switch value all) rfl))
  | .tryCatch _ blockNode statements h, given => by
    obtain ⟨_, rest⟩ := given_cons.1 given
    obtain ⟨first, second⟩ := given_append.1 rest
    refine (meets_stmts around statements first).bind (fun os all => ?_)
    refine (meets_block blockNode all).bind (fun o block => ?_)
    exact (meets_handler around h second).bind (fun o' handler =>
      .pure (Still.statement (block.join₂ handler) rfl))
  | .tryFinally _ blockNode statements last finalizer, given => by
    obtain ⟨_, rest⟩ := given_cons.1 given
    obtain ⟨first, rest⟩ := given_append.1 rest
    obtain ⟨_, second⟩ := given_cons.1 rest
    refine (meets_stmts around statements first).bind (fun os all => ?_)
    refine (meets_block blockNode all).bind (fun o block => ?_)
    refine (meets_stmts around finalizer second).bind (fun os' all' => ?_)
    exact (meets_block last all').bind (fun o' block' =>
      .pure (Still.statement (block.join₂ block') rfl))
  | .tryCatchFinally _ blockNode statements h last finalizer, given => by
    obtain ⟨_, rest⟩ := given_cons.1 given
    obtain ⟨first, rest⟩ := given_append.1 rest
    obtain ⟨second, rest⟩ := given_append.1 rest
    obtain ⟨_, third⟩ := given_cons.1 rest
    refine (meets_stmts around statements first).bind (fun os all => ?_)
    refine (meets_block blockNode all).bind (fun o block => ?_)
    refine (meets_handler around h second).bind (fun o' handler => ?_)
    refine (meets_stmts around finalizer third).bind (fun os' all' => ?_)
    exact (meets_block last all').bind (fun o'' block' =>
      .pure (Still.statement (block.join₃ handler block') rfl))
  | .function f, given =>
    (meets_func around .declaration f given).imp (fun _ function => function.statement)
  | .class_ c, given =>
    (meets_class around true c given).imp (fun _ class_ => class_.statement)

theorem meets_stmts (around : List Enclosure) : ∀ ss : List (Stmt Node Name),
    R.Given (Pieces.stmts around ss) → Meets R.sound (stmts R.special ss)
      (fun os => R.Statements (R.isStrict around) ss os (Pieces.stmts around ss))
  | [], _ => .pure Statement.nil
  | s :: rest, given => by
    obtain ⟨first, second⟩ := given_append.1 (given_cons.1 given).2
    refine (meets_stmt around s first).bind (fun o stands => ?_)
    exact (meets_stmts around rest second).bind (fun os all => .pure (stands.keep all))

theorem meets_handler (around : List Enclosure) : ∀ h : Handler Node Name,
    R.Given (Pieces.handler around h) → Meets R.sound (handler R.special h)
      (fun o => R.Still (R.isStrict around) (Stmt.varsOfHandler h)
        (fun rivals => Stmt.nestedInHandler rivals h) o (Pieces.handler around h))
  | .mk node b blockNode statements, given => by
    obtain ⟨_, rest⟩ := given_cons.1 given
    obtain ⟨first, rest⟩ := given_append.1 rest
    obtain ⟨_, second⟩ := given_cons.1 rest
    refine (meets_optBinding around b first).bind (fun o binds => ?_)
    refine (meets_stmts around statements second).bind (fun os all => ?_)
    exact (Meets.answer (all.lexical false)).bind (fun decls same =>
      .pure (.handler binds all same))

theorem meets_clauses (around : List Enclosure) : ∀ cs : List (Clause Node Name),
    R.Given (Pieces.clauses around cs) → Meets R.sound (clauses R.special cs)
      (fun found => R.Cases (R.isStrict around) cs found.1 found.2 (Pieces.clauses around cs))
  | [], _ => .pure .nil
  | .mk _ test statements :: rest, given => by
    obtain ⟨first, further⟩ := given_append.1 given
    obtain ⟨second, third⟩ := given_append.1 further
    refine (meets_optExpr around test first).bind (fun o value => ?_)
    refine (meets_clauseStmts around statements second).bind (fun found all => ?_)
    exact (meets_clauses around rest third).bind (fun others further =>
      .pure (.cons value all.1 all.2 further))

theorem meets_clauseStmts (around : List Enclosure) : ∀ ss : List (Stmt Node Name),
    R.Given (Pieces.stmts around ss) → Meets R.sound (clauseStmts R.special ss)
      (fun found => R.Statements (R.isStrict around) ss found.1 (Pieces.stmts around ss) ∧
        (R.placed → found.2 = ss.flatMap (Stmt.lexicals false)))
  | [], _ => .pure ⟨Statement.nil, fun _ => rfl⟩
  | s :: rest, given => by
    obtain ⟨first, second⟩ := given_append.1 (given_cons.1 given).2
    refine (meets_stmt around s first).bind (fun o stands => ?_)
    refine (Meets.answer (stands.lexical false)).bind (fun decls same => ?_)
    refine (meets_clauseStmts around rest second).bind (fun found all => .pure ⟨?_, ?_⟩)
    · exact stands.keep all.1
    · intro placed
      rw [same placed, all.2 placed, List.flatMap_cons]

end

end Induction

end Folding

end ScopeAnalysis
