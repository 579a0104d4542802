import ScopeAnalysis.Proofs.Grammar.Fold
import ScopeAnalysis.Proofs.Grammar.Nesting

/-!
# Folding keeps places

Every part of a program that is folded has an outline at the places of that part. The induction
follows the syntax as it does for the pieces of a program, but takes nothing for granted about where
statements stand or what is updated: what is refused is left out of account.
-/

namespace ScopeAnalysis

open Resolution

namespace Folding

/-- What a folding step returns has a property, unless it is refused. -/
def Returns {α : Type} (m : Folding α) (P : α → Prop) : Prop :=
  ∀ names a, (m.run names).1 = .ok a → P a

namespace Returns

variable {α β : Type} {m : Folding α} {P Q : α → Prop}

theorem pure {a : α} (holds : P a) : Returns (Pure.pure a) P := by
  intro names b returned
  cases returned
  exact holds

theorem answer (a : Answer α) : Returns (Folding.answer a) (fun b => a = .ok b) :=
  fun _ _ returned => returned

theorem bind {next : α → Folding β} {R : β → Prop} (first : Returns m P)
    (second : ∀ a, P a → Returns (next a) R) : Returns (m >>= next) R := by
  intro names b returned
  have here := first names
  change (ExceptT.bindCont next (m.run names).1 (m.run names).2).1 = .ok b at returned
  generalize m.run names = outcome at here returned
  obtain ⟨result, later⟩ := outcome
  cases result with
  | ok a => exact second a (here a rfl) later b returned
  | error refusal => cases returned

theorem imp (returns : Returns m P) (weaker : ∀ a, P a → Q a) : Returns m Q :=
  fun names a returned => weaker a (returns names a returned)

theorem and (first : Returns m P) (second : Returns m Q) : Returns m (fun a => P a ∧ Q a) :=
  fun names a returned => ⟨first names a returned, second names a returned⟩

theorem any (m : Folding α) : Returns m (fun _ => True) := fun _ _ _ => trivial

end Returns

variable {special : SpecialNames}

/-- A block of statements at its place. -/
theorem returns_block {P : Place → List Place} {os : List Outline} (node : Node)
    (all : Outline.NestsAll P os) :
    Returns (block node os) (Outline.Nests (Places.scope .block node P)) :=
  (Returns.answer _).bind (fun _ collected =>
    .pure (all.block node (Outline.firsthand_lexicalDeclarationsAll false os collected)))

section Induction

open Outline

mutual

theorem returns_expr : ∀ e : Expr Node Name, Returns (expr special e) (Nests (Places.expr e))
  | .ident id => .pure (.read id)
  | .literal _ _ => .pure .nothing
  | .keyword _ _ => .pure .nothing
  | .hole _ => .pure .nothing
  | .template _ tag parts =>
    (returns_optExpr tag).bind (fun _ head =>
      (returns_exprs parts).bind (fun _ all => .pure (head.cons all).join))
  | .array _ elements => (returns_exprs elements).bind (fun _ all => .pure all.join)
  | .object _ ps =>
    (returns_properties ps [] _ ⟨.nil, .nil⟩).bind (fun _ all => .pure all.nests.join)
  | .member _ object _ => returns_expr object
  | .index _ object k =>
    (returns_expr object).bind (fun _ first =>
      (returns_expr k).bind (fun _ second => .pure (first.join₂ second)))
  | .call _ callee arguments => by
    refine (returns_expr callee).bind (fun o head => ?_)
    refine (returns_exprs arguments).bind (fun os all => .pure ?_)
    split
    · exact (head.cons all).join.directEval
    · exact (head.cons all).join
  | .construct _ callee arguments =>
    (returns_expr callee).bind (fun _ head =>
      (returns_exprs arguments).bind (fun _ all => .pure (head.cons all).join))
  | .function f => returns_func .expression f
  | .arrow f => returns_arrow f
  | .class_ c => returns_class false c
  | .assign _ op t value =>
    (returns_target t).bind (fun _ target =>
      (returns_expr value).bind (fun _ value => .pure (target.assign op.isCompound value)))
  | .binary _ left _ right =>
    (returns_expr left).bind (fun _ first =>
      (returns_expr right).bind (fun _ second => .pure (first.join₂ second)))
  | .conditional _ test yes no =>
    (returns_expr test).bind (fun _ first =>
      (returns_expr yes).bind (fun _ second =>
        (returns_expr no).bind (fun _ third => .pure (first.join₃ second third))))
  | .delete _ operand => by
    by_cases lone : ∃ id, operand = .ident id
    · obtain ⟨id, rfl⟩ := lone
      exact .pure (.delete id)
    · rw [expr_delete special (fun id same => lone ⟨id, same⟩)]
      exact returns_expr operand
  | .unary _ _ operand => returns_expr operand
  | .update _ _ _ (.ident id) => .pure (.update id)
  | .update _ _ _ (.member _ object _) => returns_expr object
  | .update _ _ _ (.index _ object k) =>
    (returns_expr object).bind (fun _ first =>
      (returns_expr k).bind (fun _ second => .pure (first.join₂ second)))
  | .update _ _ _ (.array node slots rest) => returns_target (.array node slots rest)
  | .update _ _ _ (.object node ps rest) => returns_target (.object node ps rest)
  | .yield _ operand => returns_optExpr operand
  | .spread _ operand => returns_expr operand

theorem returns_optExpr :
    ∀ e : Option (Expr Node Name), Returns (optExpr special e) (Nests (Places.optExpr e))
  | none => .pure .nothing
  | some e => returns_expr e

theorem returns_exprs :
    ∀ es : List (Expr Node Name), Returns (exprs special es) (NestsAll (Places.exprs es))
  | [] => .pure .nil
  | e :: rest =>
    (returns_expr e).bind (fun _ head =>
      (returns_exprs rest).bind (fun _ all => .pure (head.cons all)))

theorem returns_properties : ∀ (ps : List (Property Node Name)) (parts : List Part)
    (P : Place → List Place), Gathers P parts → Returns (properties special parts ps)
      (Gathers (fun around => P around ++ Places.properties ps around))
  | [], parts, P, gathers => .pure gathers.append_nil
  | .keyed _ k value :: rest, parts, P, gathers => by
    refine (returns_key k).bind (fun o head => ?_)
    refine (returns_expr value).bind (fun o' value => ?_)
    have grown := gathers.addPart none (head.1.join₂ value)
    exact (returns_properties rest _ _ grown).imp (fun _ all => all.assoc)
  | .shorthand _ id :: rest, parts, P, gathers => by
    have grown := gathers.addPart none (.read id)
    exact (returns_properties rest _ _ grown).imp (fun _ all => all.assoc)
  | .spread _ value :: rest, parts, P, gathers => by
    refine (returns_expr value).bind (fun o value => ?_)
    have grown := gathers.addPart none value
    exact (returns_properties rest _ _ grown).imp (fun _ all => all.assoc)
  | .method kind k f :: rest, parts, P, gathers => by
    refine (returns_func (methodFunction kind) f).bind (fun o function => ?_)
    refine (returns_key k).bind (fun o' head => ?_)
    refine (Returns.any _).bind (fun slot _ => ?_)
    have grown := gathers.addPart slot (head.1.join₂ function)
    exact (returns_properties rest _ _ grown).imp (fun _ all => all.assoc)

theorem returns_members : ∀ (ms : List (Member Node Name)) (parts : List Part)
    (P : Place → List Place), Gathers P parts → Returns (members special parts ms)
      (Gathers (fun around => P around ++ Places.members ms around))
  | [], parts, P, gathers => .pure gathers.append_nil
  | .mk _ isStatic kind k f :: rest, parts, P, gathers => by
    refine (returns_func (methodFunction kind) f).bind (fun o function => ?_)
    refine (returns_key k).bind (fun o' head => ?_)
    refine (Returns.any _).bind (fun slot _ => ?_)
    have grown := gathers.addPart slot (head.1.join₂ function)
    exact (returns_members rest _ _ grown).imp (fun _ all => all.assoc)

theorem returns_key : ∀ k : Key Node Name, Returns (key special k)
    (fun o => Nests (Places.key k) o ∧ (k.isComputed = false → o = .nothing))
  | .computed _ value => (returns_expr value).imp (fun _ value => ⟨value, nofun⟩)
  | .ident _ => .pure ⟨.nothing, fun _ => rfl⟩
  | .string _ _ => .pure ⟨.nothing, fun _ => rfl⟩
  | .number _ _ => .pure ⟨.nothing, fun _ => rfl⟩

theorem returns_class (isDeclaration : Bool) : ∀ c : Class Node Name,
    Returns (classOutline special isDeclaration c) (Nests (Places.classPlaces c))
  | .mk node name heritage ms => by
    refine (returns_members ms [] _ ⟨.nil, .nil⟩).bind (fun parts all => ?_)
    refine (returns_optExpr heritage).bind (fun o parent => .pure ?_)
    exact all.nests.filter.class_ node isDeclaration name parent

theorem returns_func (kind : FunctionKind) : ∀ f : Func Node Name,
    Returns (func special kind f) (Nests (Places.func kind f))
  | .mk node name _ ps b =>
    (returns_params ps).bind (fun _ parameters =>
      (returns_body b).bind (fun _ inside => .pure (inside.function kind node name parameters)))

theorem returns_arrow : ∀ f : Func Node Name,
    Returns (arrow special f) (Nests (Places.func .arrow f))
  | .mk node _ _ ps b =>
    (returns_body b).bind (fun _ inside =>
      (returns_params ps).bind (fun _ parameters =>
        .pure (inside.function .arrow node none parameters)))

theorem returns_params : ∀ ps : Params Node Name,
    Returns (params special ps) (NestsParams ps.evaluates (Places.params ps))
  | .mk _ items none => by
    rw [Params.evaluates, Binding.optEvaluates, Bool.or_false]
    exact returns_paramItems items
  | .mk _ items (some b) =>
    (returns_paramItems items).bind (fun _ first =>
      (returns_binding b).bind (fun _ rest =>
        .pure (first.append (.singleton (bindingNode b) rest))))

theorem returns_paramItems : ∀ es : List (BindingElement Node Name),
    Returns (paramItems special es)
      (NestsParams (es.any BindingElement.evaluates) (Places.paramItems es))
  | [] => .pure .nil
  | e :: rest =>
    (returns_bindingElement e).bind (fun _ first =>
      (returns_paramItems rest).bind (fun _ others =>
        .pure ((NestsParams.singleton (elementNode e) first).append others)))

theorem returns_body : ∀ b : Body Node Name,
    Returns (body special b) (NestsBody (Places.body b))
  | .block _ _ statements =>
    (returns_stmts statements).bind (fun os all =>
      (Returns.answer _).bind (fun _ collected =>
        .pure (all.body _ (firsthand_lexicalDeclarationsAll true os collected))))
  | .concise value => (returns_expr value).bind (fun _ value => .pure value.concise)

theorem returns_binding : ∀ b : Binding Node Name,
    Returns (binding special b) (Binds b.evaluates (Places.binding b))
  | .ident id => .pure (.ident id)
  | .array _ slots rest =>
    (returns_bindingSlots slots).bind (fun _ all =>
      (returns_optBinding rest).bind (fun _ last => .pure (all.snoc last).join))
  | .object _ ps none => by
    refine (returns_bindingProperties ps).bind (fun os all => .pure ?_)
    rw [Option.toList, List.map_nil, List.append_nil]
    exact all.join
  | .object _ ps (some id) => by
    refine (returns_bindingProperties ps).bind (fun os all => .pure ?_)
    have both := (all.snoc (.ident id)).join
    simp only [Bool.or_false, List.append_nil] at both
    exact both

theorem returns_optBinding : ∀ b : Option (Binding Node Name),
    Returns (optBinding special b) (Binds (Binding.optEvaluates b) (Places.optBinding b))
  | none => .pure .nothing
  | some b => returns_binding b

theorem returns_bindingElement : ∀ e : BindingElement Node Name,
    Returns (bindingElement special e) (Binds e.evaluates (Places.element e))
  | .mk _ _ b none => (returns_binding b).imp (fun _ binds =>
      binds.congr (fun _ => (List.append_nil _).symm))
  | .mk _ _ b (some init) =>
    (returns_binding b).bind (fun _ binds =>
      (returns_expr init).bind (fun _ value => .pure (.evaluated (binds.nests.join₂ value))))

theorem returns_bindingSlots : ∀ slots : List (Slot Node (BindingElement Node Name)),
    Returns (bindingSlots special slots)
      (BindsAll (Binding.slotsEvaluate slots) (Places.bindingSlots slots))
  | [] => .pure .nil
  | .hole _ :: rest => returns_bindingSlots rest
  | .element e :: rest =>
    (returns_bindingElement e).bind (fun _ first =>
      (returns_bindingSlots rest).bind (fun _ others => .pure (first.cons others)))

theorem returns_bindingProperty : ∀ p : BindingProperty Node Name,
    Returns (bindingProperty special p) (Binds p.evaluates (Places.bindingProperty p))
  | .shorthand _ id none => .pure (.ident id)
  | .shorthand _ id (some init) =>
    (returns_expr init).bind (fun _ value =>
      .pure (.evaluated ((Nests.binding id).join₂ value)))
  | .keyed _ k e =>
    (returns_key k).bind (fun _ head =>
      (returns_bindingElement e).bind (fun _ binds => .pure (binds.keyed head.1 head.2)))

theorem returns_bindingProperties : ∀ ps : List (BindingProperty Node Name),
    Returns (bindingProperties special ps)
      (BindsAll (Binding.propertiesEvaluate ps) (Places.bindingProperties ps))
  | [] => .pure .nil
  | p :: rest =>
    (returns_bindingProperty p).bind (fun _ first =>
      (returns_bindingProperties rest).bind (fun _ others => .pure (first.cons others)))

theorem returns_target : ∀ t : Target Node Name,
    Returns (target special t) (Nests (Places.target t))
  | .ident id => .pure (.target id)
  | .member _ object _ => (returns_expr object).bind (fun _ value => .pure value.member)
  | .index _ object k =>
    (returns_expr object).bind (fun _ first =>
      (returns_expr k).bind (fun _ second => .pure (first.join₂ second).member))
  | .array _ slots rest =>
    (returns_targetSlots slots).bind (fun _ all =>
      (returns_optTarget rest).bind (fun _ last => .pure (all.snoc last).join))
  | .object _ ps rest =>
    (returns_targetProperties ps).bind (fun _ all =>
      (returns_optTarget rest).bind (fun _ last => .pure (all.snoc last).join))

theorem returns_optTarget : ∀ t : Option (Target Node Name),
    Returns (optTarget special t) (Nests (Places.optTarget t))
  | none => .pure .nothing
  | some t => returns_target t

theorem returns_targetElement : ∀ e : TargetElement Node Name,
    Returns (targetElement special e) (Nests (Places.targetElement e))
  | .mk _ t init =>
    (returns_target t).bind (fun _ first =>
      (returns_optExpr init).bind (fun _ second => .pure (first.join₂ second)))

theorem returns_targetSlots : ∀ slots : List (Slot Node (TargetElement Node Name)),
    Returns (targetSlots special slots) (NestsAll (Places.targetSlots slots))
  | [] => .pure .nil
  | .hole _ :: rest => returns_targetSlots rest
  | .element e :: rest =>
    (returns_targetElement e).bind (fun _ first =>
      (returns_targetSlots rest).bind (fun _ others => .pure (first.cons others)))

theorem returns_targetProperty : ∀ p : TargetProperty Node Name,
    Returns (targetProperty special p) (Nests (Places.targetProperty p))
  | .shorthand _ id init =>
    (returns_optExpr init).bind (fun _ value => .pure ((Nests.target id).join₂ value))
  | .keyed _ k e =>
    (returns_key k).bind (fun _ head =>
      (returns_targetElement e).bind (fun _ element => .pure (head.1.join₂ element)))

theorem returns_targetProperties : ∀ ps : List (TargetProperty Node Name),
    Returns (targetProperties special ps) (NestsAll (Places.targetProperties ps))
  | [] => .pure .nil
  | p :: rest =>
    (returns_targetProperty p).bind (fun _ first =>
      (returns_targetProperties rest).bind (fun _ others => .pure (first.cons others)))

theorem returns_declarators : ∀ ds : List (BindingElement Node Name),
    Returns (declarators special ds) (NestsDeclarators (Places.elements ds))
  | [] => .pure .nil
  | .mk _ _ b init :: rest =>
    (returns_binding b).bind (fun _ binds =>
      (returns_optExpr init).bind (fun _ value =>
        (returns_declarators rest).bind (fun _ others =>
          .pure (.cons init.isSome binds.nests value others))))

theorem returns_stmt : ∀ s : Stmt Node Name, Returns (stmt special s) (Nests (Places.stmt s))
  | .expr _ value => returns_expr value
  | .decl _ _ kind ds => (returns_declarators ds).bind (fun _ all => .pure (all.decl kind))
  | .block node statements => (returns_stmts statements).bind (fun _ all => returns_block node all)
  | .empty _ => .pure .nothing
  | .debugger _ => .pure .nothing
  | .jump _ _ _ => .pure .nothing
  | .labeled _ _ s => returns_stmt s
  | .ifThen _ test yes =>
    (returns_expr test).bind (fun _ head =>
      (returns_stmt yes).bind (fun _ clause => .pure (head.ifThen yes clause)))
  | .ifElse _ test yes no =>
    (returns_expr test).bind (fun _ head =>
      (returns_stmt yes).bind (fun _ first =>
        (returns_stmt no).bind (fun _ second => .pure (head.ifElse yes no first second))))
  | .forLoop node init test step s =>
    (returns_optExpr init).bind (fun o first =>
      (Returns.answer _).bind (fun _ collected =>
        (returns_optExpr test).bind (fun _ second =>
          (returns_optExpr step).bind (fun _ third =>
            (returns_stmt s).bind (fun _ inside => .pure (.forLoop node
              (firsthand_lexicalDeclarations false o collected) first second third inside))))))
  | .forDecl node _ kind ds test step s =>
    (returns_declarators ds).bind (fun os all =>
      (Returns.answer _).bind (fun _ collected =>
        (returns_optExpr test).bind (fun _ second =>
          (returns_optExpr step).bind (fun _ third =>
            (returns_stmt s).bind (fun _ inside => .pure (.forLoop node
              (firsthand_lexicalDeclarations false (.decl kind os) collected) (all.decl kind)
              second third inside))))))
  | .forEach node _ t collection s =>
    (returns_target t).bind (fun _ head =>
      (returns_expr collection).bind (fun _ value =>
        (returns_stmt s).bind (fun _ inside => .pure (.forEach node nofun head value inside))))
  | .forEachDecl node _ _ kind ds collection s =>
    (returns_declarators ds).bind (fun os all =>
      (Returns.answer _).bind (fun _ collected =>
        (returns_expr collection).bind (fun _ value =>
          (returns_stmt s).bind (fun _ inside => .pure (.forEach node
            (firsthand_lexicalDeclarations false (.decl kind os) collected) (all.decl kind)
            value inside)))))
  | .whileLoop _ test s =>
    (returns_expr test).bind (fun _ head =>
      (returns_stmt s).bind (fun _ inside => .pure (head.join₂ inside)))
  | .doLoop _ s test =>
    (returns_stmt s).bind (fun _ inside =>
      (returns_expr test).bind (fun _ last => .pure (inside.join₂ last)))
  | .ret _ value => returns_optExpr value
  | .throw _ value => returns_expr value
  | .withObject node object s =>
    (returns_expr object).bind (fun _ outside =>
      (returns_stmt s).bind (fun _ inside => .pure (.withObject node outside inside)))
  | .switch _ discriminant caseBlock cs =>
    (returns_clauses cs).bind (fun _ all =>
      (returns_expr discriminant).bind (fun _ outside =>
        .pure (all.1.switch caseBlock all.2 outside)))
  | .tryCatch _ blockNode statements h =>
    (returns_stmts statements).bind (fun _ all =>
      (returns_block blockNode all).bind (fun _ first =>
        (returns_handler h).bind (fun _ second => .pure (first.join₂ second))))
  | .tryFinally _ blockNode statements last finalizer =>
    (returns_stmts statements).bind (fun _ all =>
      (returns_block blockNode all).bind (fun _ first =>
        (returns_stmts finalizer).bind (fun _ all' =>
          (returns_block last all').bind (fun _ third => .pure (first.join₂ third)))))
  | .tryCatchFinally _ blockNode statements h last finalizer =>
    (returns_stmts statements).bind (fun _ all =>
      (returns_block blockNode all).bind (fun _ first =>
        (returns_handler h).bind (fun _ second =>
          (returns_stmts finalizer).bind (fun _ all' =>
            (returns_block last all').bind (fun _ third => .pure (first.join₃ second third))))))
  | .function f => returns_func .declaration f
  | .class_ c => returns_class true c

theorem returns_stmts : ∀ ss : List (Stmt Node Name),
    Returns (stmts special ss) (NestsAll (Places.stmts ss))
  | [] => .pure .nil
  | s :: rest =>
    (returns_stmt s).bind (fun _ first =>
      (returns_stmts rest).bind (fun _ others => .pure (first.keep others)))

theorem returns_handler : ∀ h : Handler Node Name,
    Returns (handler special h) (Nests (Places.handler h))
  | .mk node b blockNode statements =>
    (returns_optBinding b).bind (fun _ binds =>
      (returns_stmts statements).bind (fun os all =>
        (Returns.answer _).bind (fun _ collected =>
          .pure (all.handler node blockNode _
            (firsthand_lexicalDeclarationsAll false os collected) binds.nests))))

theorem returns_clauses : ∀ cs : List (Clause Node Name),
    Returns (clauses special cs) (fun found => NestsCases (Places.clauses cs) found.1 ∧
      ∀ d ∈ found.2, d.kind ≠ .functionVarDeclaration)
  | [] => .pure ⟨.nil, nofun⟩
  | .mk _ test statements :: rest =>
    (returns_optExpr test).bind (fun _ head =>
      (returns_clauseStmts statements).bind (fun _ all =>
        (returns_clauses rest).bind (fun _ others =>
          .pure ⟨.cons head all.1 others.1, List.forall_mem_append.2 ⟨all.2, others.2⟩⟩)))

theorem returns_clauseStmts : ∀ ss : List (Stmt Node Name),
    Returns (clauseStmts special ss) (fun found => NestsAll (Places.stmts ss) found.1 ∧
      ∀ d ∈ found.2, d.kind ≠ .functionVarDeclaration)
  | [] => .pure ⟨.nil, nofun⟩
  | s :: rest =>
    (returns_stmt s).bind (fun o first =>
      (Returns.answer _).bind (fun _ collected =>
        (returns_clauseStmts rest).bind (fun _ others =>
          .pure ⟨first.keep others.1, List.forall_mem_append.2
            ⟨firsthand_lexicalDeclarations false o collected, others.2⟩⟩)))

end

end Induction

theorem nestsAll_reads (ids : List Occurrence) :
    Outline.NestsAll (fun _ => []) (ids.map .read) := by
  induction ids with
  | nil => exact .nil
  | cons id rest ih => exact (Outline.Nests.read id).cons ih

theorem returns_item : ∀ i : Item Node Name,
    Returns (item special i) (Outline.Nests (Places.item i))
  | .stmt s => returns_stmt s
  | .imports .. => .pure (.imports _)
  | .exportAll .. => .pure .nothing
  | .exportFrom .. => .pure .nothing
  | .exportLocals _ specifiers => by
    have reads := nestsAll_reads (specifiers.map ExportSpecifier.id)
    rw [List.map_map] at reads
    exact .pure reads.join
  | .exportStmt s => returns_stmt s
  | .exportDefaultFunction f => returns_func .declaration f
  | .exportDefaultClass c => returns_class true c
  | .exportDefaultExpr value => returns_expr value

theorem returns_items : ∀ is : List (Item Node Name),
    Returns (items special is) (Outline.NestsAll (Places.items is))
  | [] => .pure .nil
  | i :: rest =>
    (returns_item i).bind (fun _ first =>
      (returns_items rest).bind (fun _ others => .pure (first.keep others)))

/-- The outline of a program at the places of the program, without twins if the program promotes no
functions. -/
theorem returns_outline (p : NumberedProgram) : Returns (p.outline special) (fun outline =>
    ∀ setting, (Course.ofProgram setting outline).Nests
      (p.owner.promotes setting.options special.useStrict = false) (Places.program p)) := by
  cases p with
  | script node directives statements =>
    refine (returns_stmts statements).bind (fun os all => ?_)
    refine (Returns.answer _).bind (fun decls collected => .pure (fun setting => ?_))
    have own := Outline.firsthand_lexicalDeclarationsAll true os collected
    have same : (NumberedProgram.owner (.script node directives statements)).promotes
        setting.options special.useStrict =
          (!(saysUseStrict special directives || setting.options.alwaysStrict) &&
            setting.options.annexB) := by
      simp only [Owner.promotes, NumberedProgram.owner, strictIn, List.any_cons, List.any_nil,
        Enclosure.isStrict, saysUseStrict, Bool.or_false]
      rw [Bool.and_comm, Bool.or_comm]
    rw [same]
    refine .asking (fun owned hoisted => ?_)
    refine ((all setting _).inScope (fun _ => own)).inScope (fun barred => ?_)
    rw [barred] at hoisted
    exact Outline.firsthand_of_hoistedAll hoisted
  | module node directives is =>
    refine (returns_items is).bind (fun os all => ?_)
    refine (Returns.answer _).bind (fun decls collected => .pure (fun setting => ?_))
    have own := Outline.firsthand_lexicalDeclarationsAll true os collected
    refine .asking (fun owned hoisted => ?_)
    have vars := (List.forall_mem_append.1 (Outline.firsthand_of_hoistedAll hoisted)).1
    refine (((all setting true).mono (fun _ => Bool.false_and _)).inScope (fun _ => ?_)).inScope
      (fun _ => Outline.firsthand_nil)
    exact List.forall_mem_append.2 ⟨own, vars⟩

end Folding

end ScopeAnalysis
