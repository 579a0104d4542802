import ScopeAnalysis.Proofs.Grammar.Reading

/-!
# Layouts without twins

The twins of functions declared in blocks are the only thing in which the courses of one outline
differ between settings with the same name for `arguments`, and between strict and sloppy code.
Leaving out the twins of a course gives the same course whatever the setting, refusals included.
-/

namespace ScopeAnalysis

open Resolution

/-- Whether a declaration is other than the twin of a function. -/
def Declaration.isFirsthand (d : Declaration) : Bool := d.kind ≠ .functionVarDeclaration

/-- Declarations without the twins among them. -/
def untwinned (ds : List Declaration) : List Declaration := ds.filter Declaration.isFirsthand

@[simp]
theorem untwinned_append (ds es : List Declaration) :
    untwinned (ds ++ es) = untwinned ds ++ untwinned es :=
  List.filter_append ds es

theorem untwinned_eq_self {ds : List Declaration} :
    untwinned ds = ds ↔ ∀ d ∈ ds, d.kind ≠ .functionVarDeclaration := by
  simp [untwinned, List.filter_eq_self, Declaration.isFirsthand]

@[simp]
theorem untwinned_declareAs {kind : DeclarationKind} (ids : List Occurrence)
    (firsthand : kind ≠ .functionVarDeclaration) :
    untwinned (Outline.declareAs kind ids) = Outline.declareAs kind ids := by
  rw [untwinned_eq_self]
  intro d member
  obtain ⟨id, -, rfl⟩ := List.mem_map.1 member
  exact firsthand

namespace Hoisted

def withoutTwins (h : Hoisted) : Hoisted := ⟨untwinned h.vars, untwinned h.twins⟩

theorem withoutTwins_append (a b : Hoisted) :
    (a.append b).withoutTwins = a.withoutTwins.append b.withoutTwins := by
  simp [withoutTwins, append]

theorem withoutTwins_both {x y x' y' : Answer Hoisted} (first : withoutTwins <$> x = x')
    (second : withoutTwins <$> y = y') :
    withoutTwins <$> (do let a ← x; let b ← y; .ok (a.append b)) =
      (do let a ← x'; let b ← y'; .ok (a.append b)) := by
  subst first second
  cases x with
  | error refusal => rfl
  | ok a =>
    cases y with
    | error refusal => rfl
    | ok b => exact congrArg Except.ok (withoutTwins_append a b)

end Hoisted

namespace Outline

theorem untwinned_twin (allowed : Bool) (around : List Declaration) (id : Occurrence) :
    untwinned (twin allowed around id) = [] := by
  unfold twin
  split <;> rfl

theorem withoutTwins_hoistedVars (kind : VariableKind) (ds : List DeclaratorOutline) :
    Hoisted.withoutTwins <$> hoistedVars kind ds = hoistedVars kind ds := by
  unfold hoistedVars
  split
  · rfl
  · cases declaratorNames ds with
    | error refusal => rfl
    | ok ids =>
      have vars : untwinned (declareAs .var ids) = declareAs .var ids :=
        untwinned_declareAs ids (by decide)
      exact congrArg (fun vars => Except.ok (Hoisted.mk vars [])) vars

mutual

/-- What a body owns of a statement apart from twins does not depend on where twins are allowed or
on what is around the statement. -/
theorem withoutTwins_hoisted (allowed : Bool) (around around' : List Declaration) (top : Bool) :
    ∀ o : Outline, Hoisted.withoutTwins <$> hoisted allowed around top o =
      hoisted false around' top o
  | .decl kind ds => by
    simpa only [hoisted] using withoutTwins_hoistedVars kind ds
  | .function kind node name ps b => by
    simp only [hoisted]
    split
    · split
      · rfl
      · have twins := untwinned_twin allowed around
        exact congrArg (fun twins => Except.ok (Hoisted.mk [] twins)) (twins _)
    · rfl
  | .block _ ds os => by
    simpa only [hoisted] using withoutTwins_hoistedAll allowed _ _ false os
  | .ifElse _ _ yes _ no => by
    simpa only [hoisted] using Hoisted.withoutTwins_both
      (withoutTwins_hoisted allowed around around' false yes)
      (withoutTwins_hoisted allowed around around' false no)
  | .forLoop _ ds init _ _ body => by
    simpa only [hoisted] using Hoisted.withoutTwins_both
      (withoutTwins_hoisted allowed (around ++ ds) (around' ++ ds) false init)
      (withoutTwins_hoisted allowed (around ++ ds) (around' ++ ds) false body)
  | .forEach _ ds head _ body => by
    have inner := withoutTwins_hoisted allowed (around ++ ds) (around' ++ ds) false body
    cases head with
    | decl kind declarators =>
      simpa only [hoisted] using
        Hoisted.withoutTwins_both (withoutTwins_hoistedVars kind declarators) inner
    | _ => simpa only [hoisted] using inner
  | .switch _ ds _ cases => by
    simpa only [hoisted] using withoutTwins_hoistedCases allowed _ _ cases
  | .handler _ isPattern b _ ds os => by
    simp only [hoisted]
    cases isPattern with
    | false => exact withoutTwins_hoistedAll allowed _ _ false os
    | true =>
      cases boundNames b with
      | error refusal => rfl
      | ok bound => exact withoutTwins_hoistedAll allowed _ _ false os
  | .withObject _ _ body => by
    simpa only [hoisted] using withoutTwins_hoisted allowed around around' false body
  | .union parts => by
    simpa only [hoisted] using withoutTwins_hoistedAll allowed around around' false parts
  | .nothing | .class_ .. | .imports _ | .read _ | .directEval _ | .delete _ | .update _
  | .assign .. | .binding _ | .target _ | .evaluated _ => by
    simp only [hoisted]
    rfl

theorem withoutTwins_hoistedAll (allowed : Bool) (around around' : List Declaration) (top : Bool) :
    ∀ os : List Outline, Hoisted.withoutTwins <$> hoistedAll allowed around top os =
      hoistedAll false around' top os
  | [] => rfl
  | o :: rest => by
    simpa only [hoistedAll] using Hoisted.withoutTwins_both
      (withoutTwins_hoisted allowed around around' top o)
      (withoutTwins_hoistedAll allowed around around' top rest)

theorem withoutTwins_hoistedCases (allowed : Bool) (around around' : List Declaration) :
    ∀ cases : List CaseOutline, Hoisted.withoutTwins <$> hoistedCases allowed around cases =
      hoistedCases false around' cases
  | [] => rfl
  | .mk _ os :: rest => by
    simpa only [hoistedCases] using Hoisted.withoutTwins_both
      (withoutTwins_hoistedAll allowed around around' false os)
      (withoutTwins_hoistedCases allowed around around' rest)

end

/-- Statements are refused alike wherever twins are allowed, and owned alike apart from twins. -/
theorem hoistedAll_agree (allowed allowed' : Bool) (around : List Declaration) (top : Bool)
    (os : List Outline) :
    (∃ refusal, hoistedAll allowed around top os = .error refusal ∧
      hoistedAll allowed' around top os = .error refusal) ∨
    ∃ h h', hoistedAll allowed around top os = .ok h ∧
      hoistedAll allowed' around top os = .ok h' ∧ h.withoutTwins = h'.withoutTwins := by
  have same := (withoutTwins_hoistedAll allowed around around top os).trans
    (withoutTwins_hoistedAll allowed' around around top os).symm
  cases x : hoistedAll allowed around top os with
  | error refusal =>
    cases x' : hoistedAll allowed' around top os with
    | error refusal' =>
      rw [x, x'] at same
      cases same
      exact .inl ⟨refusal, rfl, rfl⟩
    | ok h' => rw [x, x'] at same; cases same
  | ok h =>
    cases x' : hoistedAll allowed' around top os with
    | error refusal' => rw [x, x'] at same; cases same
    | ok h' =>
      rw [x, x'] at same
      exact .inr ⟨h, h', rfl, rfl, Except.ok.inj same⟩

/-- Where twins are not allowed there are none. -/
theorem firsthand_of_hoistedAll {around : List Declaration} {top : Bool} {os : List Outline}
    {h : Hoisted} (owned : hoistedAll false around top os = .ok h) :
    ∀ d ∈ h.vars ++ h.twins, d.kind ≠ .functionVarDeclaration := by
  have same := withoutTwins_hoistedAll false around around top os
  rw [owned] at same
  obtain ⟨vars, twins⟩ := Hoisted.mk.inj (Except.ok.inj same)
  exact List.forall_mem_append.2 ⟨untwinned_eq_self.1 vars, untwinned_eq_self.1 twins⟩

theorem firsthand_nil : ∀ d ∈ ([] : List Declaration), d.kind ≠ .functionVarDeclaration := by simp

theorem firsthand_declareAs {kind : DeclarationKind} (ids : List Occurrence)
    (firsthand : kind ≠ .functionVarDeclaration) :
    ∀ d ∈ declareAs kind ids, d.kind ≠ .functionVarDeclaration :=
  untwinned_eq_self.1 (untwinned_declareAs ids firsthand)

mutual

/-- No twin is a lexical declaration. -/
theorem firsthand_lexicalDeclarations (top : Bool) : ∀ (o : Outline) {ds : List Declaration},
    lexicalDeclarations top o = .ok ds → ∀ d ∈ ds, d.kind ≠ .functionVarDeclaration
  | .decl kind declarators, ds, collected => by
    rw [lexicalDeclarations] at collected
    split at collected
    · cases named : declaratorNames declarators with
      | error refusal => rw [named] at collected; cases collected
      | ok ids =>
        rw [named] at collected
        cases collected
        exact firsthand_declareAs ids (by cases kind <;> decide)
    · cases collected; exact firsthand_nil
  | .function kind _ name _ _, ds, collected => by
    rw [lexicalDeclarations] at collected
    split at collected <;> cases collected
    · exact firsthand_declareAs name.toList (by decide)
    · exact firsthand_nil
  | .class_ _ isDeclaration name _ _, ds, collected => by
    rw [lexicalDeclarations] at collected
    split at collected <;> cases collected
    · exact firsthand_declareAs name.toList (by decide)
    · exact firsthand_nil
  | .imports ids, ds, collected => by
    rw [lexicalDeclarations] at collected
    cases collected
    exact firsthand_declareAs ids (by decide)
  | .union parts, ds, collected => by
    rw [lexicalDeclarations] at collected
    exact firsthand_lexicalDeclarationsAll false parts collected
  | .nothing, _, collected | .read _, _, collected | .directEval _, _, collected
  | .delete _, _, collected | .update _, _, collected | .assign .., _, collected
  | .block .., _, collected | .ifElse .., _, collected | .forLoop .., _, collected
  | .forEach .., _, collected | .switch .., _, collected | .handler .., _, collected
  | .withObject .., _, collected => by
    rw [lexicalDeclarations] at collected
    cases collected
    exact firsthand_nil
  | .binding _, _, collected | .target _, _, collected | .evaluated _, _, collected => by
    rw [lexicalDeclarations] at collected
    cases collected

theorem firsthand_lexicalDeclarationsAll (top : Bool) :
    ∀ (os : List Outline) {ds : List Declaration}, lexicalDeclarationsAll top os = .ok ds →
      ∀ d ∈ ds, d.kind ≠ .functionVarDeclaration
  | [], ds, collected => by
    cases collected
    exact firsthand_nil
  | o :: rest, ds, collected => by
    rw [lexicalDeclarationsAll] at collected
    cases first : lexicalDeclarations top o with
    | error refusal => rw [first] at collected; cases collected
    | ok here =>
      cases others : lexicalDeclarationsAll top rest with
      | error refusal => rw [first, others] at collected; cases collected
      | ok further =>
        rw [first, others] at collected
        cases collected
        exact List.forall_mem_append.2 ⟨firsthand_lexicalDeclarations top o first,
          firsthand_lexicalDeclarationsAll top rest others⟩

end

end Outline

/-- A scope that is opened without the twins among its declarations. -/
def Opening.withoutTwins (o : Opening) : Opening := { o with decls := untwinned o.decls }

namespace Resolution.Layout

mutual

/-- A layout without the twins among its declarations. -/
def withoutTwins : Layout → Layout
  | .use id access => .use id access
  | .directEval => .directEval
  | .withStatement => .withStatement
  | .scope kind node arguments decls inner =>
    .scope kind node arguments (untwinned decls) (withoutTwinsAll inner)

def withoutTwinsAll : List Layout → List Layout
  | [] => []
  | l :: rest => l.withoutTwins :: withoutTwinsAll rest

end

theorem withoutTwinsAll_eq_map (ls : List Layout) : withoutTwinsAll ls = ls.map withoutTwins := by
  induction ls with
  | nil => rfl
  | cons l rest ih => rw [withoutTwinsAll, ih, List.map_cons]

mutual

/-- Without twins the same scopes are opened. -/
theorem openings_withoutTwins : ∀ l : Layout,
    l.withoutTwins.openings = l.openings.map Opening.withoutTwins
  | .use .. | .directEval | .withStatement => rfl
  | .scope kind node arguments decls inner => by
    rw [withoutTwins, openings, openings, List.map_cons, openingsAll_withoutTwins inner]
    rfl

theorem openingsAll_withoutTwins : ∀ ls : List Layout,
    openingsAll (withoutTwinsAll ls) = (openingsAll ls).map Opening.withoutTwins
  | [] => rfl
  | l :: rest => by
    rw [withoutTwinsAll, openingsAll, openingsAll, List.map_append, openings_withoutTwins l,
      openingsAll_withoutTwins rest]

end

mutual

theorem uses_withoutTwins : ∀ l : Layout, l.withoutTwins.uses = l.uses
  | .use .. | .directEval | .withStatement => rfl
  | .scope _ _ _ _ inner => by rw [withoutTwins, uses, uses, usesAll_withoutTwins inner]

theorem usesAll_withoutTwins : ∀ ls : List Layout, usesAll (withoutTwinsAll ls) = usesAll ls
  | [] => rfl
  | l :: rest => by
    rw [withoutTwinsAll, usesAll, usesAll, uses_withoutTwins l, usesAll_withoutTwins rest]

end

mutual

theorem argumentNames_withoutTwins : ∀ l : Layout, l.withoutTwins.argumentNames = l.argumentNames
  | .use .. | .directEval | .withStatement => rfl
  | .scope _ _ _ _ inner => by
    rw [withoutTwins, argumentNames, argumentNames, argumentNamesAll_withoutTwins inner]

theorem argumentNamesAll_withoutTwins : ∀ ls : List Layout,
    argumentNamesAll (withoutTwinsAll ls) = argumentNamesAll ls
  | [] => rfl
  | l :: rest => by
    rw [withoutTwinsAll, argumentNamesAll, argumentNamesAll, argumentNames_withoutTwins l,
      argumentNamesAll_withoutTwins rest]

end

/-- No scope of the layouts declares a twin. -/
def Untwinned (ls : List Layout) : Prop :=
  ∀ o ∈ openingsAll ls, ∀ d ∈ o.decls, d.kind ≠ .functionVarDeclaration

theorem untwinned_nil : Untwinned [] := by simp [Untwinned, openingsAll]

theorem untwinned_append_iff {ls ms : List Layout} :
    Untwinned (ls ++ ms) ↔ Untwinned ls ∧ Untwinned ms := by
  simp only [Untwinned, openingsAll_append, List.forall_mem_append]

theorem untwinned_scope_iff {kind : ScopeKind} {node : Node} {arguments : Option Name}
    {decls : List Declaration} {inner : List Layout} :
    Untwinned [.scope kind node arguments decls inner] ↔
      (∀ d ∈ decls, d.kind ≠ .functionVarDeclaration) ∧ Untwinned inner := by
  simp only [Untwinned, openingsAll, openings, List.append_nil, List.forall_mem_cons]

mutual

theorem withoutTwins_of_untwinned : ∀ {l : Layout}, Untwinned [l] → l.withoutTwins = l
  | .use .., _ | .directEval, _ | .withStatement, _ => rfl
  | .scope kind node arguments decls inner, clean => by
    obtain ⟨here, inside⟩ := untwinned_scope_iff.1 clean
    rw [withoutTwins, untwinned_eq_self.2 here, withoutTwinsAll_of_untwinned inside]

theorem withoutTwinsAll_of_untwinned : ∀ {ls : List Layout}, Untwinned ls →
    withoutTwinsAll ls = ls
  | [], _ => rfl
  | l :: rest, clean => by
    have both : Untwinned ([l] ++ rest) := clean
    obtain ⟨first, others⟩ := untwinned_append_iff.1 both
    rw [withoutTwinsAll, withoutTwins_of_untwinned first, withoutTwinsAll_of_untwinned others]

end

end Resolution.Layout

namespace Resolution.Course

/-- A course without the twins among its declarations. -/
def withoutTwins (c : Course) : Course := ⟨Layout.withoutTwinsAll c.parts, c.outcome⟩

theorem withoutTwins_andThen (c d : Course) :
    (c.andThen d).withoutTwins = c.withoutTwins.andThen d.withoutTwins := by
  obtain ⟨parts, outcome⟩ := c
  cases outcome with
  | error refusal => rfl
  | ok _ => simp [withoutTwins, andThen, Layout.withoutTwinsAll_eq_map]

theorem withoutTwins_inScope (kind : ScopeKind) (node : Node) (arguments : Option Name)
    (decls : List Declaration) (inner : Course) :
    (inScope kind node arguments decls inner).withoutTwins =
      inScope kind node arguments (untwinned decls) inner.withoutTwins :=
  rfl

theorem withoutTwins_asking {α : Type} {answer : Answer α} {next next' : α → Course}
    (same : ∀ a, (next a).withoutTwins = (next' a).withoutTwins) :
    (asking answer next).withoutTwins = (asking answer next').withoutTwins := by
  cases answer with
  | error refusal => rfl
  | ok a => exact same a

theorem withoutTwins_aroundLone {c c' : Course} (alone : Option LoneFunction)
    (same : c.withoutTwins = c'.withoutTwins) :
    (aroundLone alone c).withoutTwins = (aroundLone alone c').withoutTwins := by
  cases alone with
  | none => exact same
  | some f => simp only [aroundLone, withoutTwins_inScope, same]

theorem withoutTwins_aroundNamed {c c' : Course} (kind : FunctionKind) (node : Node)
    (name : Option Occurrence) (same : c.withoutTwins = c'.withoutTwins) :
    (aroundNamed kind node name c).withoutTwins = (aroundNamed kind node name c').withoutTwins := by
  unfold aroundNamed
  split
  · simp only [withoutTwins_inScope, same]
  · exact same

section Settings

variable {options options' : Options} {arguments : Name}

mutual

/-- Apart from twins an outline has one course, whatever the options and whether or not the code
around it is strict. -/
theorem withoutTwins_ofOutline (strict strict' : Bool) : ∀ o : Outline,
    (ofOutline ⟨options, arguments⟩ strict o).withoutTwins =
      (ofOutline ⟨options', arguments⟩ strict' o).withoutTwins
  | .nothing | .binding _ | .target _ | .imports _ | .read _ | .delete _ | .update _ => by
    simp only [ofOutline]
  | .evaluated inner => by
    simpa only [ofOutline] using withoutTwins_ofOutline strict strict' inner
  | .union parts => by
    simpa only [ofOutline] using withoutTwins_ofAll strict strict' parts
  | .directEval call => by
    simp only [ofOutline, withoutTwins_andThen, withoutTwins_ofOutline strict strict' call]
  | .assign compound t value => by
    simp only [ofOutline, withoutTwins_andThen, withoutTwins_ofOutline strict strict' t,
      withoutTwins_ofOutline strict strict' value]
  | .decl _ ds => by
    simpa only [ofOutline] using withoutTwins_ofDeclarators strict strict' ds
  | .block node decls os => by
    simp only [ofOutline, withoutTwins_inScope, withoutTwins_ofAll strict strict' os]
  | .ifElse test yesAlone yes noAlone no => by
    simp only [ofOutline, withoutTwins_andThen, withoutTwins_ofOutline strict strict' test,
      withoutTwins_aroundLone yesAlone (withoutTwins_ofOutline strict strict' yes),
      withoutTwins_aroundLone noAlone (withoutTwins_ofOutline strict strict' no)]
  | .forLoop node decls init test update body => by
    simp only [ofOutline, withoutTwins_inScope, withoutTwins_andThen,
      withoutTwins_ofOutline strict strict' init, withoutTwins_ofOutline strict strict' test,
      withoutTwins_ofOutline strict strict' update, withoutTwins_ofOutline strict strict' body]
  | .forEach node decls head collection body => by
    simp only [ofOutline, withoutTwins_inScope, withoutTwins_andThen,
      withoutTwins_ofOutline strict strict' head,
      withoutTwins_ofOutline strict strict' collection,
      withoutTwins_ofOutline strict strict' body]
  | .switch node decls discriminant cases => by
    simp only [ofOutline, withoutTwins_inScope, withoutTwins_andThen,
      withoutTwins_ofOutline strict strict' discriminant, withoutTwins_ofCases strict strict' cases]
  | .handler node _ b block decls os => by
    simp only [ofOutline]
    split
    · rfl
    · simp only [withoutTwins_inScope, withoutTwins_andThen,
        withoutTwins_ofOutline strict strict' b, withoutTwins_ofAll strict strict' os]
  | .withObject node object body => by
    simp only [ofOutline, withoutTwins_inScope, withoutTwins_andThen,
      withoutTwins_ofOutline strict strict' object, withoutTwins_ofOutline strict strict' body]
  | .class_ node _ name heritage elements => by
    simp only [ofOutline, withoutTwins_inScope, withoutTwins_andThen,
      withoutTwins_ofOutline true true heritage, withoutTwins_ofAll true true elements]
  | .function kind node name params body => by
    simp only [ofOutline]
    refine withoutTwins_aroundNamed kind node name (withoutTwins_asking (fun bound => ?_))
    split
    · simp only [withoutTwins_inScope, withoutTwins_andThen, argumentsOf,
        withoutTwins_ofParams (strict || body.isStrict) (strict' || body.isStrict) params,
        withoutTwins_ofBody (strict || body.isStrict) (strict' || body.isStrict) kind node _ _ body]
    · exact withoutTwins_ofBody _ _ kind node _ _ body

theorem withoutTwins_ofAll (strict strict' : Bool) : ∀ os : List Outline,
    (ofAll ⟨options, arguments⟩ strict os).withoutTwins =
      (ofAll ⟨options', arguments⟩ strict' os).withoutTwins
  | [] => rfl
  | o :: rest => by
    simp only [ofAll, withoutTwins_andThen, withoutTwins_ofOutline strict strict' o,
      withoutTwins_ofAll strict strict' rest]

theorem withoutTwins_ofDeclarators (strict strict' : Bool) : ∀ ds : List DeclaratorOutline,
    (ofDeclarators ⟨options, arguments⟩ strict ds).withoutTwins =
      (ofDeclarators ⟨options', arguments⟩ strict' ds).withoutTwins
  | [] => rfl
  | .mk b _ init :: rest => by
    simp only [ofDeclarators, withoutTwins_andThen, withoutTwins_ofOutline strict strict' b,
      withoutTwins_ofOutline strict strict' init, withoutTwins_ofDeclarators strict strict' rest]

theorem withoutTwins_ofCases (strict strict' : Bool) : ∀ cases : List CaseOutline,
    (ofCases ⟨options, arguments⟩ strict cases).withoutTwins =
      (ofCases ⟨options', arguments⟩ strict' cases).withoutTwins
  | [] => rfl
  | .mk test os :: rest => by
    simp only [ofCases, withoutTwins_andThen, withoutTwins_ofOutline strict strict' test,
      withoutTwins_ofAll strict strict' os, withoutTwins_ofCases strict strict' rest]

theorem withoutTwins_ofParams (strict strict' : Bool) : ∀ ps : List ParamOutline,
    (ofParams ⟨options, arguments⟩ strict ps).withoutTwins =
      (ofParams ⟨options', arguments⟩ strict' ps).withoutTwins
  | [] => rfl
  | .mk node b :: rest => by
    simp only [ofParams]
    refine withoutTwins_asking (fun bound => ?_)
    split <;>
      simp only [withoutTwins_andThen, withoutTwins_inScope,
        withoutTwins_ofOutline strict strict' b, withoutTwins_ofParams strict strict' rest]

theorem withoutTwins_ofBody (strict strict' : Bool) (kind : FunctionKind) (node : Node)
    (params : List Declaration) (holdsParams : Bool) : ∀ b : BodyOutline,
    (ofBody ⟨options, arguments⟩ strict kind node params holdsParams b).withoutTwins =
      (ofBody ⟨options', arguments⟩ strict' kind node params holdsParams b).withoutTwins
  | .concise value => by
    simp only [ofBody, withoutTwins_inScope, withoutTwins_ofOutline strict strict' value]
  | .block _ decls os => by
    simp only [ofBody, argumentsOf]
    obtain ⟨refusal, refused, refused'⟩ | ⟨h, h', owned, owned', same⟩ :=
      Outline.hoistedAll_agree (!strict && options.annexB) (!strict' && options'.annexB)
        (params ++ decls) true os
    · simp only [refused, refused']
    · obtain ⟨vars, twins⟩ := Hoisted.mk.inj same
      simp only [owned, owned', withoutTwins_inScope, untwinned_append, vars, twins,
        withoutTwins_ofAll strict strict' os]

end

/-- Apart from twins a program has one course, whether or not it says that it is strict. -/
theorem withoutTwins_ofProgram (o : ProgramOutline) (said : Bool) :
    (ofProgram ⟨options, arguments⟩ o).withoutTwins =
      (ofProgram ⟨options', arguments⟩ { o with strict := said }).withoutTwins := by
  have inside (strict strict' : Bool) :
      (ofAll ⟨options, arguments⟩ strict o.statements).withoutTwins =
        (ofAll ⟨options', arguments⟩ strict' o.statements).withoutTwins :=
    withoutTwins_ofAll strict strict' o.statements
  unfold ofProgram
  split
  · refine withoutTwins_asking (fun owned => ?_)
    simp only [withoutTwins_inScope, inside true true]
  · obtain ⟨refusal, refused, refused'⟩ | ⟨h, h', owned, owned', same⟩ :=
      Outline.hoistedAll_agree (!(o.strict || options.alwaysStrict) && options.annexB)
        (!(said || options'.alwaysStrict) && options'.annexB) o.decls true o.statements
    · simp only [refused, refused', asking]
    · obtain ⟨vars, twins⟩ := Hoisted.mk.inj same
      simp only [owned, owned', asking, withoutTwins_inScope, untwinned_append, vars, twins,
        inside (o.strict || options.alwaysStrict) (said || options'.alwaysStrict)]

end Settings

end Resolution.Course

end ScopeAnalysis
