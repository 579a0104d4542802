import ScopeAnalysis.Proofs.DepthFirst
import ScopeAnalysis.Proofs.LexicalScopes
import ScopeAnalysis.Proofs.Stage
import ScopeAnalysis.Proofs.Switches

/-!
# Promotion only adds

Allowing promotion changes nothing about the scopes of a program and the order of its uses. It adds
twins to what scopes declare, and nothing else. A use that means something else with promotion than
without is caught by a name that only twins declare, on its way to a scope further out.
-/

namespace ScopeAnalysis

open Resolution

namespace ScopeTree

/-- The declarations of a name in one scope, none if the scope does not bind it. -/
def declarationsIn (tree : ScopeTree) (id : ScopeId) (name : Name) : List Declaration :=
  ((tree.own? id name).bind tree.variableAt?).elim [] Variable.declarations

/-- One tree has what another has, and twins. -/
structure Adds (more less : ScopeTree) : Prop where
  frames : more.frames = less.frames
  uses : more.uses = less.uses
  declarations : ∀ id name,
    untwinned (more.declarationsIn id name) = less.declarationsIn id name
  /-- Each use means variables of one scope in both trees, or else a variable that has only twins
  and lies below the scope of the other. -/
  resolution : ∀ r use use', more.referenceAt? r = some use → less.referenceAt? r = some use' →
    ∃ v v', more.variableAt? use.resolved = some v ∧ less.variableAt? use'.resolved = some v' ∧
      (v.scope = v'.scope ∨
        v.declarations ≠ [] ∧ (∀ d ∈ v.declarations, d.kind = .functionVarDeclaration) ∧
          less.IsBelow v.scope v'.scope)

theorem declarationsIn_eq {tree : ScopeTree} {id : ScopeId} {scope : Scope}
    (found : tree.scopeAt? id = some scope) (name : Name) :
    tree.declarationsIn id name = (tree.contents scope).get name := by
  rw [declarationsIn, own?, found, Option.bind_some, Scope.find?, contents, MultiMap.get,
    List.find?_map]
  have same : (fun entry : Name × VariableId => decide (entry.1 = name)) =
      (fun entry : Name × List Declaration => decide (entry.1 = name)) ∘ (fun entry =>
        (entry.1, tree.vars[entry.2.index]?.elim [] Variable.declarations)) := rfl
  rw [← same]
  cases scope.bindings.find? (fun entry => entry.1 = name) <;> rfl

theorem declarationsIn_of_missing {tree : ScopeTree} {id : ScopeId}
    (missing : tree.scopeAt? id = none) (name : Name) : tree.declarationsIn id name = [] := by
  rw [declarationsIn, own?, missing]
  rfl

theorem own?_eq_none_iff {tree : ScopeTree} {id : ScopeId} {scope : Scope}
    (found : tree.scopeAt? id = some scope) (name : Name) :
    tree.own? id name = none ↔ name ∉ (tree.contents scope).keys := by
  rw [own?, found, Option.bind_some, Scope.find?, Option.map_eq_none_iff, List.find?_eq_none,
    keys_contents, List.mem_map]
  simp only [decide_eq_true_eq, not_exists, not_and]

/-- Looking a name up in two trees of the same shape, the second of which binds no more, ends in one
scope, or first in the one that binds more. -/
theorem Finds.compare {more less : ScopeTree} {name : Name} {id : ScopeId} {v v' : VariableId}
    (shape : ∀ id, more.parentOf? id = less.parentOf? id)
    (kept : ∀ id outer, less.parentOf? id = some outer → more.own? id name = none →
      less.own? id name = none)
    (first : more.Finds name id v) (second : less.Finds name id v') :
    (∃ place, more.own? place name = some v ∧ less.own? place name = some v') ∨
      ∃ place outer, more.own? place name = some v ∧ less.own? place name = none ∧
        less.parentOf? place = some outer ∧ less.Finds name outer v' := by
  induction second with
  | @own id v' owned =>
    cases first with
    | own owned' => exact .inl ⟨id, owned', owned⟩
    | outward free up further =>
      rw [shape] at up
      rw [kept id _ up free] at owned
      cases owned
  | @outward id outer v' free up further ih =>
    cases first with
    | own owned' => exact .inr ⟨id, outer, owned', free, up, further⟩
    | outward free' up' further' =>
      rw [shape, up] at up'
      cases up'
      exact ih further'

end ScopeTree

/-- Trees of the same frames have scopes at the same places. -/
theorem ScopeTree.exists_scopeAt? {tree other : ScopeTree} (same : tree.frames = other.frames)
    {id : ScopeId} {scope : Scope} (found : tree.scopeAt? id = some scope) :
    ∃ scope', other.scopeAt? id = some scope' ∧ scope'.frame = scope.frame := by
  have there : tree.frames[id.index]? = some scope.frame := by
    rw [frames, Array.getElem?_map]
    exact congrArg (Option.map Scope.frame) found
  rw [same, frames, Array.getElem?_map] at there
  exact Option.map_eq_some_iff.1 there

theorem ScopeTree.parentOf?_congr {tree other : ScopeTree} (same : tree.frames = other.frames)
    (id : ScopeId) : tree.parentOf? id = other.parentOf? id := by
  have up (t : ScopeTree) : t.parentOf? id = (t.frames[id.index]?).bind Frame.parent := by
    rw [parentOf?, scopeAt?, frames, Array.getElem?_map]
    cases t.scopes[id.index]? <;> rfl
  rw [up, up, same]

/-- What a scope declares under a name, whether or not it is the root. -/
theorem Opening.IsFilled.get_contents {arguments : Name} {o : Opening} {tree : ScopeTree}
    {scope : Scope} (filled : o.IsFilled arguments tree scope) (name : Name) :
    (tree.contents scope).get name = o.decls.filter (fun d => d.id.name = name) := by
  obtain ⟨bare, same, _⟩ := filled.contents
  rw [← o.get_contents arguments, MultiMap.get, same, List.find?_append, MultiMap.get]
  cases (o.contents arguments).entries.find? (fun entry => entry.1 = name) with
  | some entry => rfl
  | none =>
    rw [Option.none_or, List.find?_map]
    cases bare.find? _ <;> rfl

/-- Except for the root, a scope binds its own `arguments` and what it declares. -/
theorem Opening.IsFilled.own?_eq_none_iff {arguments : Name} {o : Opening} {tree : ScopeTree}
    {id : ScopeId} {scope : Scope} (filled : o.IsFilled arguments tree scope)
    (found : tree.scopeAt? id = some scope) (inside : scope.id ≠ ScopeId.root) (name : Name) :
    tree.own? id name = none ↔
      ¬ (o.hasArguments = true ∧ name = arguments) ∧ ∀ d ∈ o.decls, d.id.name ≠ name := by
  rw [ScopeTree.own?_eq_none_iff found, filled.contents_eq inside, o.keys_contents,
    List.mem_eraseDups, List.mem_append, not_or, List.mem_map]
  cases o.hasArguments <;> simp

namespace Resolution.State

/-- What a name means is a variable of the scope where it is found or of one around it. -/
theorem Coherent.scope_of_finds {s : State} (coherent : s.Coherent) {name : Name} {id : ScopeId}
    {v : VariableId} (finds : s.tree.Finds name id v) :
    ∃ a, s.tree.variableAt? v = some a ∧ (a.scope = id ∨ s.tree.IsBelow id a.scope) := by
  induction finds with
  | own owned =>
    rw [own?_tree] at owned
    obtain ⟨a, found, _, scope⟩ := coherent.owner owned
    exact ⟨a, found, .inl scope⟩
  | outward free up further ih =>
    obtain ⟨a, found, rfl | below⟩ := ih
    · exact ⟨a, found, .inr (.single up)⟩
    · exact ⟨a, found, .inr (.head up below)⟩

end Resolution.State

section Filled

open Resolution.State

variable {arguments : Name} {openings : List Opening} {s t : State} {g : Stage}

/-- A scope of a tree whose scopes are filled one by one holds what it was opened with. -/
theorem exists_opening (coherent : s.Coherent)
    (filled : List.Forall₂ (fun o scope => o.IsFilled arguments s.tree scope) openings
      s.scopes.toList)
    {id : ScopeId} {scope : Scope} (found : s.tree.scopeAt? id = some scope) :
    scope.id = id ∧ ∃ o, openings[id.index]? = some o ∧ o.IsFilled arguments s.tree scope := by
  have there : s.scopes.toList[id.index]? = some scope := (Array.getElem?_toList ..).trans found
  obtain ⟨below, rfl⟩ := List.getElem?_eq_some_iff.1 there
  have asked : id.index < openings.length := filled.length_eq ▸ below
  exact ⟨coherent.placed id.index _ found, _, List.getElem?_eq_getElem asked,
    (List.forall₂_iff_get.1 filled).2 _ asked below⟩

/-- Two walks on one stage, the second of which has opened each scope without its twins. -/
structure Resolution.State.Strips (arguments : Name) (openings : List Opening) (s t : State) :
    Prop where
  coherent : s.Coherent
  coherent' : t.Coherent
  onStage : ∃ g, s.OnStage g ∧ t.OnStage g
  uses : s.tree.uses = t.tree.uses
  filled : List.Forall₂ (fun o scope => o.IsFilled arguments s.tree scope) openings
    s.scopes.toList
  filled' : List.Forall₂ (fun o scope => o.IsFilled arguments t.tree scope)
    (openings.map Opening.withoutTwins) t.scopes.toList

namespace Resolution.State.Strips

variable (strips : Strips arguments openings s t)

include strips

theorem frames : s.tree.frames = t.tree.frames := by
  obtain ⟨g, on, on'⟩ := strips.onStage
  exact on.frames.trans on'.frames.symm

/-- Each scope of the one tree stands where one of the other does. -/
theorem exists_both {id : ScopeId} {scope : Scope} (found : s.tree.scopeAt? id = some scope) :
    ∃ (scope' : Scope) (o : Opening), t.tree.scopeAt? id = some scope' ∧
      o.IsFilled arguments s.tree scope ∧
      o.withoutTwins.IsFilled arguments t.tree scope' ∧ scope.id = id ∧ scope'.id = id := by
  obtain ⟨scope', found', _⟩ := ScopeTree.exists_scopeAt? strips.frames found
  obtain ⟨placed, o, asked, filled⟩ := exists_opening strips.coherent strips.filled found
  obtain ⟨placed', o', asked', filled'⟩ := exists_opening strips.coherent' strips.filled' found'
  rw [List.getElem?_map, asked] at asked'
  cases asked'
  exact ⟨scope', o, found', filled, filled', placed, placed'⟩

theorem ne_root {id outer : ScopeId} (up : t.tree.parentOf? id = some outer) :
    id ≠ ScopeId.root := by
  rintro rfl
  have rootless : t.tree.parentOf? ScopeId.root = none := strips.coherent'.rootless
  rw [rootless] at up
  cases up

theorem declarations (id : ScopeId) (name : Name) :
    untwinned (s.tree.declarationsIn id name) = t.tree.declarationsIn id name := by
  cases found : s.tree.scopeAt? id with
  | none =>
    have missing : t.tree.scopeAt? id = none := by
      cases found' : t.tree.scopeAt? id with
      | none => rfl
      | some scope' =>
        obtain ⟨scope, there, _⟩ := ScopeTree.exists_scopeAt? strips.frames.symm found'
        rw [found] at there
        cases there
    rw [ScopeTree.declarationsIn_of_missing found, ScopeTree.declarationsIn_of_missing missing]
    rfl
  | some scope =>
    obtain ⟨scope', o, found', filled, filled', _⟩ := strips.exists_both found
    rw [ScopeTree.declarationsIn_eq found, ScopeTree.declarationsIn_eq found',
      filled.get_contents, filled'.get_contents, untwinned, List.filter_comm]
    rfl

/-- The root apart, what a scope binds without twins it binds with them. -/
theorem own?_eq_none {id outer : ScopeId} (up : t.tree.parentOf? id = some outer) {name : Name}
    (free : s.tree.own? id name = none) : t.tree.own? id name = none := by
  cases found : t.tree.scopeAt? id with
  | none =>
    rw [ScopeTree.own?, found]
    rfl
  | some scope' =>
    obtain ⟨scope, there, _⟩ := ScopeTree.exists_scopeAt? strips.frames.symm found
    obtain ⟨_, o, found', filled, filled', placed, placed'⟩ := strips.exists_both there
    rw [found] at found'
    cases found'
    have inside := strips.ne_root up
    rw [filled.own?_eq_none_iff there (placed ▸ inside)] at free
    rw [filled'.own?_eq_none_iff found (placed' ▸ inside)]
    exact ⟨free.1, fun d member => free.2 d (List.mem_filter.1 member).1⟩

/-- The root apart, a name that a scope binds only with twins has nothing but twins there. -/
theorem exists_twins {id outer : ScopeId} (up : t.tree.parentOf? id = some outer) {name : Name}
    {v : VariableId} (owned : s.tree.own? id name = some v) (free : t.tree.own? id name = none) :
    ∃ a, s.tree.variableAt? v = some a ∧ a.scope = id ∧ a.declarations ≠ [] ∧
      ∀ d ∈ a.declarations, d.kind = .functionVarDeclaration := by
  have there : s.own name id = some v := (own?_tree s id name).symm.trans owned
  obtain ⟨a, found, _, scope⟩ := strips.coherent.owner there
  have all : s.tree.declarationsIn id name = a.declarations := by
    rw [ScopeTree.declarationsIn, owned, Option.bind_some, ScopeTree.variableAt?]
    exact congrArg (Option.elim · [] Variable.declarations) found
  refine ⟨a, found, scope, fun none => ?_, fun d member => ?_⟩
  · obtain ⟨b, existing⟩ := exists_of_mem_bindingsOf (mem_of_own there)
    have foundB : s.tree.scopeAt? id = some b := existing
    obtain ⟨b', o, foundB', filled, filled', placed, placed'⟩ := strips.exists_both foundB
    have inside := strips.ne_root up
    rw [filled'.own?_eq_none_iff foundB' (placed' ▸ inside)] at free
    rw [none, ScopeTree.declarationsIn_eq foundB, filled.get_contents] at all
    have bound : s.tree.own? id name ≠ Option.none := by simp [owned]
    refine bound ((filled.own?_eq_none_iff foundB (placed ▸ inside) name).2 ⟨free.1, ?_⟩)
    simpa using all
  · have bare := strips.declarations id name
    rw [all, ScopeTree.declarationsIn, free] at bare
    simpa [Declaration.isFirsthand] using List.filter_eq_nil_iff.1 bare d member

/-- A use stands in the same place of both trees. -/
theorem exists_site {r : ReferenceId} {use use' : Reference}
    (found : s.tree.referenceAt? r = some use) (found' : t.tree.referenceAt? r = some use') :
    ∃ site, s.tree.Finds use.id.name site use.resolved ∧
      t.tree.Finds use.id.name site use'.resolved := by
  obtain ⟨g, on, on'⟩ := strips.onStage
  have below : r.index < g.sites.size := by
    rw [on.size]
    exact (Array.getElem?_eq_some_iff.1 found).1
  have site := Array.getElem?_eq_getElem below
  have same : s.tree.uses[r.index]? = t.tree.uses[r.index]? := by rw [strips.uses]
  have there : s.references[r.index]? = some use := found
  have there' : t.references[r.index]? = some use' := found'
  simp only [ScopeTree.uses, tree, List.getElem?_map, Array.getElem?_toList, there, there',
    Option.map_some, Option.some.injEq, Prod.mk.injEq] at same
  refine ⟨_, on.found r.index use _ there site, ?_⟩
  rw [same.1]
  exact on'.found r.index use' _ there' site

theorem adds : s.tree.Adds t.tree where
  frames := strips.frames
  uses := strips.uses
  declarations := strips.declarations
  resolution r use use' found found' := by
    obtain ⟨site, finds, finds'⟩ := strips.exists_site found found'
    rcases finds.compare (ScopeTree.parentOf?_congr strips.frames)
      (fun _ _ up free => strips.own?_eq_none up free) finds' with
      ⟨place, owned, owned'⟩ | ⟨place, outer, owned, free, up, further⟩
    · rw [own?_tree] at owned owned'
      obtain ⟨v, foundV, _, scope⟩ := strips.coherent.owner owned
      obtain ⟨v', foundV', _, scope'⟩ := strips.coherent'.owner owned'
      exact ⟨v, v', foundV, foundV', .inl (scope.trans scope'.symm)⟩
    · obtain ⟨v, foundV, scope, some, twins⟩ := strips.exists_twins up owned free
      obtain ⟨v', foundV', above⟩ := strips.coherent'.scope_of_finds further
      refine ⟨v, v', foundV, foundV', .inr ⟨some, twins, ?_⟩⟩
      rw [scope]
      rcases above with rfl | above
      · exact .single up
      · exact .head up above

end Resolution.State.Strips

end Filled

/-- A layout with twins and the one without leave alike states, apart from the twins. -/
theorem Resolution.State.strips_layOut_initial (events : Array Event) (node : Node)
    (decls : List Declaration) (inner : List Layout) {arguments : Name}
    (named : ∀ name ∈ Layout.argumentNames (.scope .global node none decls inner),
      name = arguments) :
    Strips arguments (Layout.openings (.scope .global node none decls inner))
      ((State.initial events).layOut (.scope .global node none decls inner))
      ((State.initial events).layOut
        (.scope .global node none (untwinned decls) (Layout.withoutTwinsAll inner))) where
  coherent := .scope (.initial events) (fun _ => rfl) ..
  coherent' := .scope (.initial events) (fun _ => rfl) ..
  onStage := by
    refine ⟨_, (OnStage.initial events).scope (.initial events) (fun _ => rfl) .., ?_⟩
    rw [← Stage.layOut_withoutTwins]
    exact (OnStage.initial events).scope (.initial events) (fun _ => rfl) ..
  uses := by
    rw [uses_layOut, uses_layOut, Layout.uses, Layout.uses, Layout.usesAll_withoutTwins]
  filled := forall₂_isFilled_initial events .global node none decls inner named
  filled' := by
    rw [← Layout.openings_withoutTwins]
    refine forall₂_isFilled_initial events .global node none (untwinned decls) _ ?_
    rwa [← Layout.argumentNames_withoutTwins] at named

/-- Whether a program is refused does not depend on the options. -/
theorem Resolution.Course.outcome_ofProgram (options options' : Options) (arguments : Name)
    (o : ProgramOutline) : (ofProgram ⟨options, arguments⟩ o).outcome =
      (ofProgram ⟨options', arguments⟩ o).outcome := by
  have same : (ofProgram ⟨options, arguments⟩ o).withoutTwins =
      (ofProgram ⟨options', arguments⟩ o).withoutTwins := withoutTwins_ofProgram o o.strict
  exact (congrArg Course.outcome same :)

section Analyzed

variable {names names' : Interner} {p : NumberedProgram} {outline : ProgramOutline}

/-- A program without promotion has the layout that it has with promotion, without the twins. -/
theorem ofProgram_eq_withoutTwins {options options' : Options} {parts : List Layout}
    (folded : (p.outline (SpecialNames.intern names).1).run (SpecialNames.intern names).2 =
      (.ok outline, names'))
    (bare : p.owner.promotes options' (SpecialNames.intern names).1.useStrict = false)
    (completed : Course.ofProgram ⟨options, (SpecialNames.intern names).1.arguments⟩ outline =
      ⟨parts, .ok ()⟩) :
    Course.ofProgram ⟨options', (SpecialNames.intern names).1.arguments⟩ outline =
      ⟨Layout.withoutTwinsAll parts, .ok ()⟩ := by
  have same : (Course.ofProgram ⟨options, (SpecialNames.intern names).1.arguments⟩
      outline).withoutTwins = (Course.ofProgram
        ⟨options', (SpecialNames.intern names).1.arguments⟩ outline).withoutTwins :=
    Course.withoutTwins_ofProgram outline outline.strict
  have nests := Folding.returns_outline p _ outline (congrArg Prod.fst folded)
    ⟨options', (SpecialNames.intern names).1.arguments⟩
  rw [completed] at same
  generalize Course.ofProgram ⟨options', (SpecialNames.intern names).1.arguments⟩ outline = d
    at same nests ⊢
  obtain ⟨parts', outcome'⟩ := d
  simp only [Course.withoutTwins, Course.mk.injEq] at same
  obtain ⟨parts, rfl⟩ := same
  rw [parts, Layout.withoutTwinsAll_of_untwinned ((nests rfl).2 bare)]

end Analyzed

/-- With promotion a program is refused as it is without it, or its tree has what the tree without
promotion has, and twins. -/
theorem adds_of_promotion (p : NumberedProgram) (names : Interner) (alwaysStrict : Bool) :
    (∃ refusal names', p.analyze ⟨alwaysStrict, true⟩ names = (.error refusal, names') ∧
      p.analyze ⟨alwaysStrict, false⟩ names = (.error refusal, names')) ∨
    ∃ more less names', p.analyze ⟨alwaysStrict, true⟩ names = (.ok more, names') ∧
      p.analyze ⟨alwaysStrict, false⟩ names = (.ok less, names') ∧ more.tree.Adds less.tree := by
  generalize folded : (p.outline (SpecialNames.intern names).1).run
    (SpecialNames.intern names).2 = folding
  obtain ⟨answer, names'⟩ := folding
  cases answer with
  | error refusal =>
    exact .inl ⟨refusal, names', analyze_of_refused folded, analyze_of_refused folded⟩
  | ok outline =>
    generalize walked : Course.ofProgram
      ⟨⟨alwaysStrict, true⟩, (SpecialNames.intern names).1.arguments⟩ outline = c
    obtain ⟨parts, outcome⟩ := c
    cases outcome with
    | error refusal =>
      refine .inl ⟨refusal, names', ?_, ?_⟩
      · rw [analyze_of_folded folded, Course.analysis, walked]
      · rw [analyze_of_folded folded, Course.analysis,
          Course.outcome_ofProgram ⟨alwaysStrict, false⟩ ⟨alwaysStrict, true⟩, walked]
    | ok _ =>
      obtain ⟨decls, own, inner, rfl⟩ := Course.ofProgram_eq_ok walked
      have bare : p.owner.promotes ⟨alwaysStrict, false⟩
        (SpecialNames.intern names).1.useStrict = false := rfl
      have stripped := ofProgram_eq_withoutTwins folded bare walked
      obtain ⟨more, analyzed, tree⟩ := exists_analysis_of_completed folded walked
      obtain ⟨less, analyzed', tree'⟩ := exists_analysis_of_completed folded stripped
      refine .inr ⟨more, less, names', analyzed, analyzed', ?_⟩
      rw [tree, tree']
      have named := (agrees_of_folded folded walked).named
      rw [Layout.argumentNamesAll, Layout.argumentNamesAll, List.append_nil] at named
      exact (State.strips_layOut_initial _ _ _ _ named).adds

/-- `function g() { { function f() {} } f; }` -/
def caughtUse : NumberedProgram × Workbench :=
  let id (name : String) : Ident Span String := ⟨.none, name⟩
  let function (name : String) (statements : List (Stmt Span String)) : Stmt Span String :=
    .function (.mk .none (some (id name)) .none (.mk (some .none) [] none)
      (.block .none [] statements))
  Draft.number (.script .none []
    [function "g" [.block .none [function "f" []], .expr .none (.ident (id "f"))]]) .empty

/-- With promotion the use of `f` is caught by the function around it, and else it goes to the
root. -/
example :
    let owner (annexB : Bool) : Option (Option ScopeId) :=
      (caughtUse.1.analyze ⟨false, annexB⟩ caughtUse.2.names).1.toOption.map (fun a =>
        (a.tree.resolve? ⟨0⟩).map Variable.scope)
    owner true = some (some ⟨2⟩) ∧ owner false = some (some ScopeId.root) := by
  decide +kernel

end ScopeAnalysis
