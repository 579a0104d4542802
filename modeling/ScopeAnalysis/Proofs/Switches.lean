import ScopeAnalysis.Program.Numbering
import ScopeAnalysis.Proofs.Grammar.Agreement
import ScopeAnalysis.Proofs.Grammar.FoldNesting
import ScopeAnalysis.Proofs.Handles
import ScopeAnalysis.ScopeTree.Query

/-!
# Switching promotion off

Functions in blocks are not promoted in strict code nor where the options say so. A script can be
strict by its options or by its first directive, and a module always is. Whichever way promotion is
switched off for a whole program, the analysis is the same down to what it reports, and no function
anywhere in the tree is promoted.
-/

namespace ScopeAnalysis

open Resolution

/-! The analysis as a function of the course. -/

/-- What comes of a walk that takes a course. -/
def Resolution.Course.analysis (start : Event) (c : Course) : Answer Analysis :=
  match c.outcome with
  | .error refusal => .error refusal
  | .ok () =>
    let s := (State.initial #[start]).layOutAll c.parts
    let done : Event :=
      .complete s.finish.scopes.size s.finish.vars.size s.finish.references.size
    .ok ⟨s.finish, s.events.push done⟩

theorem ProgramOutline.resolve_eq (options : Options) (special : SpecialNames) (start : Event)
    (outline : ProgramOutline) : outline.resolve options special start =
      (Course.ofProgram ⟨options, special.arguments⟩ outline).analysis start := by
  obtain ⟨outcome, ends⟩ := Walk.program_run ⟨options, special.arguments⟩ outline #[start]
  rw [ProgramOutline.resolve, Course.analysis]
  generalize (Walk.program ⟨options, special.arguments⟩ outline).run (.initial #[start]) = ran
    at outcome ends ⊢
  obtain ⟨result, s⟩ := ran
  cases result with
  | error refusal =>
    have refused : (Course.ofProgram ⟨options, special.arguments⟩ outline).outcome =
      .error refusal := outcome.symm
    simp only [refused]
  | ok _ =>
    have completed : (Course.ofProgram ⟨options, special.arguments⟩ outline).outcome = .ok () :=
      outcome.symm
    simp only [completed, ← ends completed]
    rfl

/-- Courses with the same outcome, and the same layout if they are completed, are analyzed
alike. -/
theorem Resolution.Course.analysis_congr {c d : Course} (start : Event)
    (outcome : c.outcome = d.outcome) (parts : c.outcome = .ok () → c.parts = d.parts) :
    c.analysis start = d.analysis start := by
  obtain ⟨ls, result⟩ := c
  obtain ⟨ms, result'⟩ := d
  cases outcome
  cases result with
  | error refusal => rfl
  | ok _ => rw [show ls = ms from parts rfl]

section Analyses

variable {options : Options} {p : NumberedProgram} {names names' : Interner}

theorem analyze_of_folded {outline : ProgramOutline}
    (folded : (p.outline (SpecialNames.intern names).1).run (SpecialNames.intern names).2 =
      (.ok outline, names')) : p.analyze options names =
        ((Course.ofProgram ⟨options, (SpecialNames.intern names).1.arguments⟩ outline).analysis
          (.start p.isModule p.node.id), names') := by
  simp only [NumberedProgram.analyze, folded, ProgramOutline.resolve_eq]

theorem analyze_of_refused {refusal : Refusal}
    (folded : (p.outline (SpecialNames.intern names).1).run (SpecialNames.intern names).2 =
      (.error refusal, names')) : p.analyze options names = (.error refusal, names') := by
  simp only [NumberedProgram.analyze, folded]

/-- Only folding interns names. -/
theorem analyze_snd_of_folded {answer : Answer ProgramOutline}
    (folded : (p.outline (SpecialNames.intern names).1).run (SpecialNames.intern names).2 =
      (answer, names')) : (p.analyze options names).2 = names' := by
  cases answer with
  | error refusal => rw [analyze_of_refused folded]
  | ok outline => rw [analyze_of_folded folded]

/-- The tree of a program whose course opens the global scope. -/
theorem exists_analysis_of_completed {outline : ProgramOutline} {node : Node}
    {decls : List Declaration} {inner : List Layout}
    (folded : (p.outline (SpecialNames.intern names).1).run (SpecialNames.intern names).2 =
      (.ok outline, names'))
    (completed : Course.ofProgram ⟨options, (SpecialNames.intern names).1.arguments⟩ outline =
      ⟨[.scope .global node none decls inner], .ok ()⟩) :
    ∃ a, p.analyze options names = (.ok a, names') ∧
      a.tree = ((State.initial #[.start p.isModule p.node.id]).layOut
        (.scope .global node none decls inner)).tree := by
  rw [analyze_of_folded folded, completed]
  exact ⟨_, rfl, State.finish_eq_tree (State.forest_layOut_initial _ _ _ _ _ _)⟩

end Analyses

/-- The scopes and uses of a completed course are those of the program, apart from declarations. -/
theorem agrees_of_folded {options : Options} {p : NumberedProgram} {names names' : Interner}
    {outline : ProgramOutline} {parts : List Layout}
    (folded : (p.outline (SpecialNames.intern names).1).run (SpecialNames.intern names).2 =
      (.ok outline, names'))
    (completed : Course.ofProgram ⟨options, (SpecialNames.intern names).1.arguments⟩ outline =
      ⟨parts, .ok ()⟩) :
    (Reading.ofAnalysis options names False False False id).Agrees parts
      (p.openings options (SpecialNames.intern names).1.useStrict) p.uses := by
  have meets := answers_outline (given_nothing options names p.pieces)
  rw [folded] at meets
  change Reading.CompletesProgram _ _ _ _ at meets
  rw [completed] at meets
  exact meets

/-- The same script under other directives has the same outline, but may be strict or not. -/
theorem NumberedProgram.outline_script (special : SpecialNames) (node : Node)
    (directives directives' : List (Directive Node Name)) (statements : List (Stmt Node Name))
    (names : Interner) :
    let outcome := (NumberedProgram.outline special (.script node directives statements)).run names
    (NumberedProgram.outline special (.script node directives' statements)).run names =
      (outcome.1.map (fun o =>
        { o with strict := Folding.saysUseStrict special directives' }), outcome.2) := by
  have same : NumberedProgram.outline special (.script node directives' statements) =
      (fun o => { o with strict := Folding.saysUseStrict special directives' }) <$>
        NumberedProgram.outline special (.script node directives statements) := by
    simp only [NumberedProgram.outline, map_bind, map_pure]
  rw [same, ExceptT.run_map]
  rfl

/-! Programs without promotion. -/

/-- Without twins a course is the same however twins are kept out. -/
theorem Resolution.Course.parts_eq_of_untwinned {c d : Course}
    (same : c.withoutTwins = d.withoutTwins) (first : Layout.Untwinned c.parts)
    (second : Layout.Untwinned d.parts) : c.parts = d.parts := by
  have parts : Layout.withoutTwinsAll c.parts = Layout.withoutTwinsAll d.parts :=
    congrArg Course.parts same
  rwa [Layout.withoutTwinsAll_of_untwinned first, Layout.withoutTwinsAll_of_untwinned second]
    at parts

/-- No declaration in a tree is a twin. -/
def ScopeTree.IsUntwinned (tree : ScopeTree) : Prop :=
  ∀ (id : VariableId) (v : Variable), tree.variableAt? id = some v →
    ∀ d ∈ v.declarations, d.kind ≠ .functionVarDeclaration

section Promotion

variable {options options' : Options} {p : NumberedProgram} {names names' : Interner}
  {outline : ProgramOutline} {special : SpecialNames} {a : Analysis}

/-- Two outlines of programs that promote nothing, one of which may say that it is strict, have the
same analysis. -/
theorem analysis_eq_of_folded {p' : NumberedProgram} {said : Bool} {names₀ names₀' : Interner}
    (folded : ((p.outline special).run names₀).1 = .ok outline)
    (folded' : ((p'.outline special).run names₀').1 = .ok { outline with strict := said })
    (bare : p.owner.promotes options special.useStrict = false)
    (bare' : p'.owner.promotes options' special.useStrict = false) (start : Event) :
    (Course.ofProgram ⟨options, special.arguments⟩ outline).analysis start =
      (Course.ofProgram ⟨options', special.arguments⟩
        { outline with strict := said }).analysis start := by
  have same : (Course.ofProgram ⟨options, special.arguments⟩ outline).withoutTwins =
      (Course.ofProgram ⟨options', special.arguments⟩
        { outline with strict := said }).withoutTwins :=
    Course.withoutTwins_ofProgram outline said
  have outcome := congrArg Course.outcome same
  refine Course.analysis_congr start outcome (fun completed => ?_)
  have nests := Folding.returns_outline p names₀ outline folded ⟨options, special.arguments⟩
  have nests' := Folding.returns_outline p' names₀' _ folded' ⟨options', special.arguments⟩
  exact Course.parts_eq_of_untwinned same ((nests completed).2 bare)
    ((nests' (outcome.symm.trans completed)).2 bare')

/-- The tree of a program that promotes nothing has no twins. -/
theorem isUntwinned_of_analyze (analyzed : p.analyze options names = (.ok a, names'))
    (bare : p.owner.promotes options (SpecialNames.intern names).1.useStrict = false) :
    a.tree.IsUntwinned := by
  obtain ⟨outline, decls, inner, folded, completed, tree⟩ := analyze_layOut analyzed
  have nests := Folding.returns_outline p _ outline (congrArg Prod.fst folded)
    ⟨options, (SpecialNames.intern names).1.arguments⟩
  rw [completed] at nests
  have clean := (nests rfl).2 bare
  have named := (agrees_of_folded folded completed).named
  simp only [Layout.Untwinned, Layout.openingsAll, Layout.argumentNamesAll, List.append_nil]
    at clean named
  have filled := State.forall₂_isFilled_initial #[.start p.isModule p.node.id] .global outline.node
    none decls inner named
  have coherent := State.coherent_layOut_initial #[.start p.isModule p.node.id] .global outline.node
    none decls inner
  rw [tree]
  intro id v found d member
  have held := coherent.held id.index v found
  obtain ⟨scope, there⟩ := State.exists_of_mem_bindingsOf held
  rw [State.bindingsOf_eq there] at held
  have inTree := List.mem_of_getElem? ((Array.getElem?_toList ..).trans there)
  obtain ⟨o, asked, filled⟩ := Multiset.exists_mem_of_rel_of_mem
    (Multiset.rel_flip.2 (rel_of_forall₂ filled)) (Multiset.mem_coe.2 inTree)
  refine clean o (Multiset.mem_coe.1 asked) d (filled.isScope.declares.mem_iff.1 ?_)
  refine List.mem_flatMap.2 ⟨_, held, ?_⟩
  simp only [ScopeTree.variableAt?] at found
  rw [found]
  exact member

end Promotion

section Programs

variable (names : Interner) (node : Node)

/-- Scripts of the same statements are analyzed alike if neither promotes anything. -/
theorem analyze_script_eq {options options' : Options}
    (directives directives' : List (Directive Node Name)) (statements : List (Stmt Node Name))
    (bare : (NumberedProgram.owner (.script node directives statements)).promotes options
      (SpecialNames.intern names).1.useStrict = false)
    (bare' : (NumberedProgram.owner (.script node directives' statements)).promotes options'
      (SpecialNames.intern names).1.useStrict = false) :
    NumberedProgram.analyze options (.script node directives statements) names =
      NumberedProgram.analyze options' (.script node directives' statements) names := by
  generalize folded : (NumberedProgram.outline (SpecialNames.intern names).1
    (.script node directives statements)).run (SpecialNames.intern names).2 = outcome
  have folded' := NumberedProgram.outline_script (SpecialNames.intern names).1 node directives
    directives' statements (SpecialNames.intern names).2
  rw [folded] at folded'
  obtain ⟨answer, names'⟩ := outcome
  cases answer with
  | error refusal => rw [analyze_of_refused folded, analyze_of_refused folded']
  | ok outline =>
    rw [analyze_of_folded folded, analyze_of_folded folded']
    exact congrArg (fun answer => (answer, names')) (analysis_eq_of_folded
      (congrArg Prod.fst folded) (congrArg Prod.fst folded') bare bare' _)

theorem module_promotes (options : Options) (useStrict : Name)
    (directives : List (Directive Node Name)) (is : List (Item Node Name)) :
    (NumberedProgram.owner (.module node directives is)).promotes options useStrict = false := by
  simp [Owner.promotes, NumberedProgram.owner, strictIn, Enclosure.isStrict]

/-- A module is analyzed alike under all options. -/
theorem analyze_module_eq (options options' : Options)
    (directives : List (Directive Node Name)) (is : List (Item Node Name)) :
    NumberedProgram.analyze options (.module node directives is) names =
      NumberedProgram.analyze options' (.module node directives is) names := by
  generalize folded : (NumberedProgram.outline (SpecialNames.intern names).1
    (.module node directives is)).run (SpecialNames.intern names).2 = outcome
  obtain ⟨answer, names'⟩ := outcome
  cases answer with
  | error refusal => rw [analyze_of_refused folded, analyze_of_refused folded]
  | ok outline =>
    rw [analyze_of_folded folded, analyze_of_folded folded]
    exact congrArg (fun answer => (answer, names')) (analysis_eq_of_folded
      (congrArg Prod.fst folded) (congrArg Prod.fst folded) (module_promotes ..)
      (module_promotes ..) _)

end Programs

/-! What the directive is called. -/

/-- The directive keeps the name that it has. -/
theorem SpecialNames.useStrict_intern {names : Interner} {name : Name}
    (found : names.find? "use strict" = some name) :
    (SpecialNames.intern names).1.useStrict = name := by
  have later := (Interner.Begins.intern (names.intern "arguments").2 "eval").find?
    ((Interner.Begins.intern names "arguments").find? found)
  change (((names.intern "arguments").2.intern "eval").2.intern "use strict").1 = name
  rw [Interner.intern_of_find? later]

/-- The ways of switching promotion off for a script agree: by either option, or by a directive in
front of the others. So do all options for a module. Nothing is promoted in any of them. -/
theorem analyze_eq_of_promotion_off (names : Interner) :
    (∀ (node : Node) (directives : List (Directive Node Name)) (statements : List (Stmt Node Name)),
      (∀ alwaysStrict annexB,
        NumberedProgram.analyze ⟨true, annexB⟩ (.script node directives statements) names =
          NumberedProgram.analyze ⟨alwaysStrict, false⟩ (.script node directives statements)
            names) ∧
      (∀ (d : Directive Node Name), names.find? "use strict" = some d.text → ∀ annexB,
        NumberedProgram.analyze ⟨false, annexB⟩ (.script node (d :: directives) statements) names =
          NumberedProgram.analyze ⟨true, annexB⟩ (.script node directives statements) names) ∧
      ∀ annexB a names',
        NumberedProgram.analyze ⟨true, annexB⟩ (.script node directives statements) names =
          (.ok a, names') → a.tree.IsUntwinned) ∧
    ∀ (node : Node) (directives : List (Directive Node Name)) (is : List (Item Node Name)),
      (∀ options options',
        NumberedProgram.analyze options (.module node directives is) names =
          NumberedProgram.analyze options' (.module node directives is) names) ∧
      ∀ options a names', NumberedProgram.analyze options (.module node directives is) names =
        (.ok a, names') → a.tree.IsUntwinned := by
  have strict (annexB : Bool) (useStrict : Name) (o : Owner) :
      o.promotes ⟨true, annexB⟩ useStrict = false := by simp [Owner.promotes, strictIn]
  have off (alwaysStrict : Bool) (useStrict : Name) (o : Owner) :
      o.promotes ⟨alwaysStrict, false⟩ useStrict = false := rfl
  refine ⟨fun node directives statements => ⟨?_, ?_, ?_⟩, fun node directives is => ⟨?_, ?_⟩⟩
  · intro alwaysStrict annexB
    exact analyze_script_eq names node directives directives statements (strict ..) (off ..)
  · intro d found annexB
    refine analyze_script_eq names node (d :: directives) directives statements ?_ (strict ..)
    simp [Owner.promotes, NumberedProgram.owner, strictIn, Enclosure.isStrict,
      SpecialNames.useStrict_intern found]
  · intro annexB a names' analyzed
    exact isUntwinned_of_analyze analyzed (strict ..)
  · intro options options'
    exact analyze_module_eq names node options options' directives is
  · intro options a names' analyzed
    exact isUntwinned_of_analyze analyzed (module_promotes ..)

/-- `"use strict"; { { function f() {} } } (x) => { { function g() {} } };` -/
def nestedFunctions : NumberedProgram × Workbench :=
  let id (name : String) : Ident Span String := ⟨.none, name⟩
  let function (name : String) : Stmt Span String := .function (.mk .none (some (id name)) .none
    (.mk (some .none) [] none) (.block .none [] []))
  Draft.number (.script .none [⟨.none, "use strict"⟩]
    [.block .none [.block .none [function "f"]],
      .expr .none (.arrow (.mk .none none .none
        (.mk (some .none) [.mk .none .nameFirst (.ident (id "x")) none] none)
        (.block .none [] [.block .none [function "g"]])))]) .empty

theorem nestedFunctions_promotion_off :
    ∃ node d statements, nestedFunctions.1 = .script node [d] statements ∧
      nestedFunctions.2.names.find? "use strict" = some d.text ∧
      NumberedProgram.analyze ⟨true, true⟩ (.script node [] statements) nestedFunctions.2.names =
        nestedFunctions.1.analyze ⟨false, true⟩ nestedFunctions.2.names ∧
      ∃ a names', NumberedProgram.analyze ⟨true, true⟩ (.script node [] statements)
        nestedFunctions.2.names = (.ok a, names') ∧ a.tree.IsUntwinned := by
  have script : nestedFunctions.1.isModule = false := by decide +kernel
  have named : nestedFunctions.1.directives.map (some ∘ Directive.text) =
      [nestedFunctions.2.names.find? "use strict"] := by
    decide +kernel
  have completed : (nestedFunctions.1.analyze ⟨false, true⟩ nestedFunctions.2.names).1.isOk =
      true := by
    decide +kernel
  generalize nestedFunctions.2.names = names at named completed ⊢
  cases shape : nestedFunctions.1 with
  | module node directives is =>
    rw [shape] at script
    cases script
  | script node directives statements =>
    rw [shape] at named completed
    obtain ⟨d, rfl, found⟩ := List.map_eq_singleton_iff.1 named
    obtain ⟨_, said, untwinned⟩ := (analyze_eq_of_promotion_off names).1 node [] statements
    have same := said d found.symm true
    obtain ⟨a, names', analyzed⟩ := Resolution.exists_of_isOk completed
    rw [same] at analyzed
    exact ⟨node, d, statements, rfl, found.symm, same.symm, a, names', analyzed,
      untwinned true a names' analyzed⟩

end ScopeAnalysis
