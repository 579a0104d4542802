import ScopeAnalysis.Proofs.Grammar.Fold

/-!
# Whole programs

The items of a module, the statements of a script, and around them the scopes that belong to the
program itself.
-/

namespace ScopeAnalysis

open Resolution

namespace Pieces

theorem item_map_stmt (around : List Enclosure) (ss : List (Stmt Node Name)) :
    (ss.map Item.stmt).flatMap (item around) = stmts around ss := by
  induction ss with
  | nil => rfl
  | cons s rest ih =>
    rw [List.map_cons, List.flatMap_cons, ih, stmts, item, List.cons_append]

end Pieces

theorem Item.hoistedAll_of_none {i : Item Node Name} (none : i.statement? = none) {allowed : Bool}
    {rivals : List Declaration} {top : Bool} :
    Item.hoistedAll allowed rivals top [i] = .none := by
  simp [Item.hoistedAll, Item.functions, Item.vars, Item.nested, none, promote, Outline.declareAs,
    Hoisted.none]

namespace Reading

variable (R : Reading) (strict : Bool)

/-- The outline of one item. -/
abbrev IsItem (i : Item Node Name) (o : Outline) (pieces : List Piece) : Prop :=
  R.Stands strict (fun top => i.lexicals top)
    (fun allowed around top => Item.hoistedAll allowed around top [i]) o pieces

variable {R strict} {o : Outline} {os : List Outline} {pieces pieces' : List Piece}

namespace IsItem

/-- An item that stands for a statement. -/
theorem of_statement {i : Item Node Name} {s : Stmt Node Name}
    (stands : R.Statement strict s o pieces) (same : i.statement? = some s)
    (local_ : i.imported = []) : R.IsItem strict i o pieces := by
  refine Stands.congr stands (fun _ top => ?_) (fun _ allowed around top => ?_)
  · rw [Item.lexicals, same, local_]
    rfl
  · simp [Item.hoistedAll, Stmt.hoisted, Item.functions, Item.vars, Item.nested, same]

/-- An item that declares nothing. -/
theorem of_value {i : Item Node Name} (value : R.Value strict o pieces)
    (none : i.statement? = none) (local_ : i.imported = []) : R.IsItem strict i o pieces := by
  refine Stands.congr value.still (fun _ top => ?_) (fun _ allowed around top => ?_)
  · rw [Item.lexicals, none, local_]
    rfl
  · rw [Item.hoistedAll_of_none none, Hoisted.inner_nil]

theorem imports (node : Node) (source : Name) (defaultBinding nameSpace : Option Occurrence)
    (named : List (ImportSpecifier Node Name)) :
    R.IsItem strict (.imports node source defaultBinding nameSpace named)
      (.imports (defaultBinding.toList ++ nameSpace.toList ++
        named.map ImportSpecifier.binding)) [] where
  lexical _ _ := (List.append_nil _).symm
  hoists _ _ _ _ := (Item.hoistedAll_of_none rfl).symm
  course := .done

theorem keep {i : Item Node Name} {is : List (Item Node Name)} (stands : R.IsItem strict i o pieces)
    (others : R.Items strict is os pieces') :
    R.Items strict (i :: is) (Folding.keep o os) (pieces ++ pieces') := by
  have both := Stands.keep stands others
  simp only [← Item.hoistedAll_cons] at both
  exact both

end IsItem

theorem values_reads (ids : List Occurrence) :
    R.Values strict (ids.map .read) (ids.map (fun id => .use id .read)) := by
  induction ids with
  | nil => exact Value.nil
  | cons id rest ih => exact (Value.read id).cons ih

section Programs

variable (R)

/-- The course of a program: its scopes are those that receive the `var` names outside functions
and the one beside it, and what is inside. -/
def CompletesProgram (c : Course) (openings : List Opening) (pieces : List Piece) : Prop :=
  match c.outcome with
  | .ok () => R.Agrees c.parts (openings ++ R.openingsOf pieces) (pieces.flatMap Piece.uses)
  | .error refusal => refusal.isForeseen = true ∧ ¬ R.sound

variable {R} {owner : Owner} {isStrict : Bool} {decls : List Declaration}

/-- Two scopes around everything else. -/
theorem Completes.inTwo {c : Course} {kind kind' : ScopeKind} {node node' : Node}
    {decls decls' : List Declaration} {outer inner : Opening}
    (shape : outer.shape = (kind, node, false)) (same : R.placed → outer.decls = decls)
    (shape' : inner.shape = (kind', node', false)) (same' : R.placed → inner.decls = decls')
    (completes : R.Completes c pieces) :
    R.CompletesProgram (.inScope kind node none decls (.inScope kind' node' none decls' c))
      [outer, inner] pieces := by
  obtain ⟨parts, outcome⟩ := c
  cases outcome with
  | error refusal => exact completes
  | ok _ => exact .scope shape nofun same (.scope shape' nofun same' completes)

theorem CompletesProgram.asking {α : Type} {answer : Answer α} {P : α → Prop} {next : α → Course}
    {openings : List Opening} (holds : Answers R.sound answer P)
    (further : ∀ a, P a → R.CompletesProgram (next a) openings pieces) :
    R.CompletesProgram (.asking answer next) openings pieces := by
  cases answer with
  | ok a => exact further a holds
  | error refusal => exact holds

variable (owner)

/-- A script: its lexical declarations are in a scope inside the global one. -/
theorem completes_script (form : owner.form = .script) (bare : owner.hasArguments = false)
    (all : R.Items (R.isStrict owner.around) owner.items os pieces)
    (same : R.placed → decls = owner.lexicals)
    (strict : (isStrict || R.setting.options.alwaysStrict) = R.isStrict owner.around) :
    R.CompletesProgram (Course.ofProgram R.setting ⟨false, owner.node, isStrict, decls, os⟩)
      [owner.opening R.setting.options R.useStrict, ⟨.script, owner.node, false, owner.lexicals⟩]
      pieces := by
  have rivals : [] = Outline.declareAs .parameter owner.params := by
    simp [Owner.params, form, Outline.declareAs]
  have hoisted := answers_hoistedAll all rivals same (Bool.and_comm _ _)
  rw [Course.ofProgram, if_neg Bool.false_ne_true, strict]
  refine CompletesProgram.asking hoisted (fun owned found => ?_)
  refine Completes.inTwo ?_ (fun placed => ?_) rfl (fun placed => (same placed).symm) all.course
  · simp [Opening.shape, Owner.opening, Owner.scopeKind, form, bare]
  · simp [Owner.opening, Owner.decls, form, found placed]

/-- A module, inside a global scope without declarations. -/
theorem completes_module (form : owner.form = .module) (bare : owner.hasArguments = false)
    (all : R.Items (R.isStrict owner.around) owner.items os pieces)
    (same : R.placed → decls = owner.lexicals) (strict : R.isStrict owner.around = true) :
    R.CompletesProgram (Course.ofProgram R.setting ⟨true, owner.node, isStrict, decls, os⟩)
      [⟨.global, owner.node, false, []⟩, owner.opening R.setting.options R.useStrict] pieces := by
  have rivals : [] = Outline.declareAs .parameter owner.params := by
    simp [Owner.params, form, Outline.declareAs]
  have never : false = owner.promotes R.setting.options R.useStrict := by
    simp [Owner.promotes, strict]
  have hoisted := answers_hoistedAll all rivals same never
  rw [strict] at all
  rw [Course.ofProgram, if_pos rfl]
  refine CompletesProgram.asking hoisted (fun owned found => ?_)
  refine Completes.inTwo rfl (fun _ => rfl) ?_ (fun placed => ?_) all.course
  · simp [Opening.shape, Owner.opening, Owner.scopeKind, form, bare]
  · simp [Owner.opening, Owner.decls, Owner.promoted, form, found placed, same placed, ← never,
      Outline.declareAs]

end Programs

end Reading

namespace Folding

open Reading

variable {R : Reading}

theorem meets_item (around : List Enclosure) (i : Item Node Name)
    (given : R.Given (Pieces.item around i)) : Meets R.sound (item R.special i)
      (fun o => R.IsItem (R.isStrict around) i o (Pieces.item around i)) := by
  cases i with
  | stmt s =>
    refine (meets_stmt around s (given_cons.1 given).2).imp (fun o stands => ?_)
    exact .of_statement (stands.cons_stands .list s) rfl rfl
  | exportStmt s =>
    refine (meets_stmt around s (given_cons.1 given).2).imp (fun o stands => ?_)
    exact .of_statement (stands.cons_stands .list s) rfl rfl
  | imports node source defaultBinding nameSpace named => exact .pure (.imports ..)
  | exportAll node source => exact .pure (.of_value .nothing rfl rfl)
  | exportFrom node source names => exact .pure (.of_value .nothing rfl rfl)
  | exportLocals node names =>
    have reads : R.Values (R.isStrict around) _ _ := values_reads (names.map ExportSpecifier.id)
    rw [List.map_map, List.map_map] at reads
    exact .pure (.of_value (.join reads) rfl rfl)
  | exportDefaultFunction f =>
    exact (meets_func around .declaration f given).imp (fun o function =>
      .of_statement function.statement rfl rfl)
  | exportDefaultClass c =>
    exact (meets_class around true c given).imp (fun o class_ =>
      .of_statement class_.statement rfl rfl)
  | exportDefaultExpr value =>
    exact (meets_expr around value given).imp (fun o value => .of_value value rfl rfl)

theorem meets_items (around : List Enclosure) (is : List (Item Node Name))
    (given : R.Given (is.flatMap (Pieces.item around))) : Meets R.sound (items R.special is)
      (fun os => R.Items (R.isStrict around) is os (is.flatMap (Pieces.item around))) := by
  induction is with
  | nil =>
    refine .pure ⟨fun _ _ => rfl, fun allowed _ _ _ => ?_, .done⟩
    cases allowed <;> rfl
  | cons i rest ih =>
    obtain ⟨first, second⟩ := given_append.1 given
    refine (meets_item around i first).bind (fun o stands => ?_)
    exact (ih second).bind (fun os others => .pure (stands.keep others))

/-- Every program is folded into an outline that is walked with the scopes and pieces of the
program. -/
theorem meets_outline (p : NumberedProgram) (given : R.Given p.pieces) :
    Meets R.sound (p.outline R.special) (fun outline => R.CompletesProgram
      (Course.ofProgram R.setting outline) (p.around R.setting.options R.useStrict) p.pieces) := by
  cases p with
  | script node directives statements =>
    have inside : NumberedProgram.pieces (.script node directives statements) =
        Pieces.stmts [.script directives] statements := Pieces.item_map_stmt _ _
    rw [inside] at given ⊢
    refine (meets_stmts [.script directives] statements given).bind (fun os all => ?_)
    refine (Meets.answer (all.lexical true)).bind (fun decls same => .pure ?_)
    refine completes_script (NumberedProgram.owner (.script node directives statements))
      rfl rfl (Statement.items all) (fun placed => ?_) ?_
    · rw [same placed]
      exact (Item.lexicals_map_stmt true statements).symm
    · simp [strictIn, Enclosure.isStrict, saysUseStrict, NumberedProgram.owner, Bool.or_comm]
  | module node directives is =>
    refine (meets_items [.module] is given).bind (fun os all => ?_)
    refine (Meets.answer (all.lexical true)).bind (fun decls same => .pure ?_)
    refine completes_module (NumberedProgram.owner (.module node directives is)) rfl rfl
      all same ?_
    simp [strictIn, Enclosure.isStrict, NumberedProgram.owner]

end Folding

end ScopeAnalysis
