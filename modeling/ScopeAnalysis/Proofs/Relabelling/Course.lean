import ScopeAnalysis.Proofs.Layout
import ScopeAnalysis.Proofs.Relabelling.Outline

/-!
# Courses of relabelled outlines

A relabelled outline takes the relabelled course. Where twins are allowed, the relabelling must keep
names and nodes apart as they were.
-/

namespace ScopeAnalysis

namespace Resolution

open Outline (relabelAll relabelDeclarators relabelCases relabelParams relabelBody)

namespace Layout

variable (r : Relabelling)

mutual

def relabel : Layout → Layout
  | .use id access => .use (id.relabel r) access
  | .directEval => .directEval
  | .withStatement => .withStatement
  | .scope kind node arguments decls inner =>
    .scope kind (r.node node) (arguments.map r.text) (decls.map (Declaration.relabel r))
      (relabelList inner)

def relabelList : List Layout → List Layout
  | [] => []
  | l :: rest => relabel l :: relabelList rest

end

theorem relabelList_eq_map (ls : List Layout) : relabelList r ls = ls.map (relabel r) := by
  induction ls with
  | nil => rfl
  | cons l rest ih => rw [relabelList, ih, List.map_cons]

end Layout

/-- The same options, with the new handle of `arguments`. -/
def Walk.Setting.relabel (r : Relabelling) (setting : Walk.Setting) : Walk.Setting :=
  { setting with arguments := r.text setting.arguments }

@[simp]
theorem Walk.Setting.options_relabel (r : Relabelling) (setting : Walk.Setting) :
    (setting.relabel r).options = setting.options := rfl

namespace Course

variable (r : Relabelling)

def relabel (c : Course) : Course := ⟨Layout.relabelList r c.parts, c.outcome⟩

theorem relabel_andThen (c d : Course) :
    (c.andThen d).relabel r = (c.relabel r).andThen (d.relabel r) := by
  obtain ⟨parts, outcome⟩ := c
  cases outcome with
  | error refusal => rfl
  | ok _ => simp [relabel, andThen, Layout.relabelList_eq_map]

theorem relabel_useAll (access : Access) (ids : List Occurrence) :
    (useAll access ids).relabel r = useAll access (ids.map (Ident.relabel r)) := by
  simp [relabel, useAll, Layout.relabelList_eq_map, Layout.relabel]

theorem relabel_inScope (kind : ScopeKind) (node : Node) (arguments : Option Name)
    (decls : List Declaration) (inner : Course) :
    (inScope kind node arguments decls inner).relabel r =
      inScope kind (r.node node) (arguments.map r.text) (decls.map (Declaration.relabel r))
        (inner.relabel r) :=
  rfl

theorem relabel_asking {α β : Type} {answer : Answer α} {g : α → β} {next : α → Course}
    {next' : β → Course} (same : ∀ a, (next a).relabel r = next' (g a)) :
    (asking answer next).relabel r = asking (g <$> answer) next' := by
  cases answer with
  | error refusal => rfl
  | ok a => exact same a

theorem relabel_writes (compound : Bool) (t : Outline) :
    (writes compound t).relabel r = writes compound (t.relabel r) := by
  have written : (asking t.writtenNames (useAll .write)).relabel r =
      asking (t.relabel r).writtenNames (useAll .write) := by
    rw [Outline.writtenNames_relabel]
    exact relabel_asking r (relabel_useAll r .write)
  cases t with
  | target id => rfl
  | _ => exact written

theorem relabel_headWrites (head : Outline) :
    (headWrites head).relabel r = headWrites (head.relabel r) := by
  have written : (asking head.writtenNames (useAll .write)).relabel r =
      asking (head.relabel r).writtenNames (useAll .write) := by
    rw [Outline.writtenNames_relabel]
    exact relabel_asking r (relabel_useAll r .write)
  cases head with
  | decl kind ds =>
    simp only [headWrites, Outline.relabel, Outline.declaratorNames_relabel]
    exact relabel_asking r (relabel_useAll r .write)
  | _ => exact written

theorem relabel_aroundLone (alone : Option LoneFunction) (c : Course) :
    (aroundLone alone c).relabel r =
      aroundLone (alone.map (LoneFunction.relabel r)) (c.relabel r) := by
  cases alone <;> rfl

theorem relabel_aroundNamed (kind : FunctionKind) (node : Node) (name : Option Occurrence)
    (c : Course) : (aroundNamed kind node name c).relabel r =
      aroundNamed kind (r.node node) (name.map (Ident.relabel r)) (c.relabel r) := by
  cases kind <;> cases name <;> rfl

theorem argumentsOf_relabel (setting : Walk.Setting) (kind : FunctionKind) :
    argumentsOf (setting.relabel r) kind = (argumentsOf setting kind).map r.text := by
  cases kind <;> rfl

theorem boundByAll_relabel (ps : List ParamOutline) :
    Walk.boundByAll (relabelParams r ps) = Bound.relabel r <$> Walk.boundByAll ps := by
  induction ps with
  | nil => rfl
  | cons p rest ih =>
    obtain ⟨node, b⟩ := p
    simp only [relabelParams, Walk.boundByAll, Outline.boundNames_relabel, ih, map_bind,
      bind_map_left, ← Bound.relabel_append]
    rfl

section Outlines

variable {r} {setting : Walk.Setting}

mutual

theorem relabel_ofOutline (separate : setting.options.annexB = true → r.Separates)
    (strict : Bool) : ∀ o : Outline,
    (ofOutline setting strict o).relabel r = ofOutline (setting.relabel r) strict (o.relabel r)
  | .nothing | .binding _ | .target _ | .imports _ | .read _ | .delete _ | .update _ => by
    simp only [Outline.relabel, ofOutline]
    rfl
  | .evaluated inner => by
    simpa only [Outline.relabel, ofOutline] using relabel_ofOutline separate strict inner
  | .union parts => by
    simpa only [Outline.relabel, ofOutline] using relabel_ofAll separate strict parts
  | .directEval call => by
    simp only [Outline.relabel, ofOutline, relabel_andThen, relabel_ofOutline separate strict call]
    rfl
  | .assign compound t value => by
    simp only [Outline.relabel, ofOutline, relabel_andThen, relabel_writes,
      relabel_ofOutline separate strict t, relabel_ofOutline separate strict value]
  | .decl _ ds => by
    simpa only [Outline.relabel, ofOutline] using relabel_ofDeclarators separate strict ds
  | .block _ _ os => by
    simp only [Outline.relabel, ofOutline, relabel_inScope, Option.map_none,
      relabel_ofAll separate strict os]
  | .ifElse test _ yes _ no => by
    simp only [Outline.relabel, ofOutline, relabel_andThen, relabel_aroundLone,
      relabel_ofOutline separate strict test, relabel_ofOutline separate strict yes,
      relabel_ofOutline separate strict no]
  | .forLoop _ _ init test step body => by
    simp only [Outline.relabel, ofOutline, relabel_inScope, Option.map_none, relabel_andThen,
      relabel_ofOutline separate strict init, relabel_ofOutline separate strict test,
      relabel_ofOutline separate strict step, relabel_ofOutline separate strict body]
  | .forEach _ _ head collection body => by
    simp only [Outline.relabel, ofOutline, relabel_inScope, Option.map_none, relabel_andThen,
      relabel_headWrites,
      relabel_ofOutline separate strict head, relabel_ofOutline separate strict collection,
      relabel_ofOutline separate strict body]
  | .switch _ _ discriminant cases => by
    simp only [Outline.relabel, ofOutline, relabel_inScope, Option.map_none, relabel_andThen,
      relabel_ofOutline separate strict discriminant, relabel_ofCases separate strict cases]
  | .handler _ _ b _ _ os => by
    simp only [Outline.relabel, ofOutline, Outline.boundNames_relabel]
    cases b.boundNames with
    | error refusal => rfl
    | ok bound =>
      simp only [Functor.map, Except.map, relabel_inScope, Option.map_none, relabel_andThen,
        Outline.map_relabel_declareAs, relabel_ofOutline separate strict b,
        relabel_ofAll separate strict os]
      rfl
  | .withObject _ object body => by
    simp only [Outline.relabel, ofOutline, relabel_inScope, Option.map_none, relabel_andThen,
      relabel_ofOutline separate strict object, relabel_ofOutline separate strict body]
    rfl
  | .class_ _ _ name heritage elements => by
    have named : (Outline.declareAs .className name.toList).map (Declaration.relabel r) =
        Outline.declareAs .className (name.map (Ident.relabel r)).toList := by
      cases name <;> rfl
    simp only [Outline.relabel, ofOutline, relabel_inScope, Option.map_none, relabel_andThen, named,
      relabel_ofOutline separate true heritage, relabel_ofAll separate true elements]
  | .function kind node name ps b => by
    simp only [Outline.relabel, ofOutline, relabel_aroundNamed, boundByAll_relabel,
      Outline.isStrict_relabelBody]
    refine congrArg (aroundNamed kind (r.node node) _) (relabel_asking r (fun bound => ?_))
    have declared := Outline.map_relabel_declareAs r .parameter bound.names
    have body (params : Bool) := relabel_ofBody separate (strict || b.isStrict) kind node
      (Outline.declareAs .parameter bound.names) params b
    simp only [declared] at body
    obtain ⟨ids, evaluates⟩ := bound
    cases evaluates with
    | false => exact body true
    | true =>
      simp only [Bound.relabel, if_true, relabel_inScope, relabel_andThen, declared, body,
        argumentsOf_relabel,
        relabel_ofParams separate (strict || b.isStrict) ps]

theorem relabel_ofAll (separate : setting.options.annexB = true → r.Separates) (strict : Bool) :
    ∀ os : List Outline,
      (ofAll setting strict os).relabel r = ofAll (setting.relabel r) strict (relabelAll r os)
  | [] => rfl
  | o :: rest => by
    simp only [relabelAll, ofAll, relabel_andThen, relabel_ofOutline separate strict o,
      relabel_ofAll separate strict rest]

theorem relabel_ofDeclarators (separate : setting.options.annexB = true → r.Separates)
    (strict : Bool) : ∀ ds : List DeclaratorOutline,
      (ofDeclarators setting strict ds).relabel r =
        ofDeclarators (setting.relabel r) strict (relabelDeclarators r ds)
  | [] => rfl
  | .mk b hasInit init :: rest => by
    have written : (asking b.boundNames (fun bound => useAll .write bound.names)).relabel r =
        asking (b.relabel r).boundNames (fun bound => useAll .write bound.names) := by
      rw [Outline.boundNames_relabel]
      exact relabel_asking r (fun bound => relabel_useAll r .write bound.names)
    simp only [relabelDeclarators, ofDeclarators, relabel_andThen,
      relabel_ofOutline separate strict b, relabel_ofOutline separate strict init,
      relabel_ofDeclarators separate strict rest]
    cases hasInit with
    | false => rfl
    | true => simp only [if_true, written]

theorem relabel_ofCases (separate : setting.options.annexB = true → r.Separates) (strict : Bool) :
    ∀ cases : List CaseOutline,
      (ofCases setting strict cases).relabel r =
        ofCases (setting.relabel r) strict (relabelCases r cases)
  | [] => rfl
  | .mk test os :: rest => by
    simp only [relabelCases, ofCases, relabel_andThen, relabel_ofOutline separate strict test,
      relabel_ofAll separate strict os, relabel_ofCases separate strict rest]

theorem relabel_ofParams (separate : setting.options.annexB = true → r.Separates) (strict : Bool) :
    ∀ ps : List ParamOutline,
      (ofParams setting strict ps).relabel r =
        ofParams (setting.relabel r) strict (relabelParams r ps)
  | [] => rfl
  | .mk node b :: rest => by
    simp only [relabelParams, ofParams, Outline.boundNames_relabel]
    refine relabel_asking r (fun bound => ?_)
    obtain ⟨ids, evaluates⟩ := bound
    cases evaluates <;>
      simp only [Bound.relabel, if_true, Bool.false_eq_true, if_false, relabel_andThen,
        relabel_inScope, Option.map_none, List.map_nil, relabel_ofOutline separate strict b,
        relabel_ofParams separate strict rest]

theorem relabel_ofBody (separate : setting.options.annexB = true → r.Separates) (strict : Bool)
    (kind : FunctionKind) (node : Node) (params : List Declaration) (holdsParams : Bool) :
    ∀ b : BodyOutline, (ofBody setting strict kind node params holdsParams b).relabel r =
      ofBody (setting.relabel r) strict kind (r.node node) (params.map (Declaration.relabel r))
        holdsParams (relabelBody r b)
  | .concise value => by
    simp only [relabelBody, ofBody, relabel_inScope, Option.map_none,
      relabel_ofOutline separate strict value]
    cases holdsParams <;> rfl
  | .block _ decls os => by
    have allowed : (!strict && setting.options.annexB) = true → r.Separates :=
      fun both => separate (Bool.and_eq_true_iff.1 both).2
    have owned := Outline.hoistedAll_relabel allowed (params ++ decls) true os
    rw [List.map_append] at owned
    simp only [relabelBody, ofBody, Walk.Setting.options_relabel, owned, argumentsOf_relabel]
    cases Outline.hoistedAll (!strict && setting.options.annexB) (params ++ decls) true os with
    | error refusal => cases holdsParams <;> rfl
    | ok h =>
      simp only [Functor.map, Except.map, relabel_inScope, List.map_append,
        relabel_ofAll separate strict os, Hoisted.relabel]
      cases holdsParams <;> rfl

end

/-- The course of a relabelled program is the relabelled course. -/
theorem relabel_ofProgram (separate : setting.options.annexB = true → r.Separates)
    (o : ProgramOutline) :
    (ofProgram setting o).relabel r = ofProgram (setting.relabel r) (o.relabel r) := by
  obtain ⟨isModule, node, said, decls, os⟩ := o
  have inside (strict : Bool) := relabel_ofAll separate strict os
  cases isModule with
  | true =>
    have never : false = true → r.Separates := nofun
    simp only [ofProgram, ProgramOutline.relabel, if_true, Outline.hoistedAll_relabel never]
    refine relabel_asking r (fun owned => ?_)
    simp only [relabel_inScope, Option.map_none, List.map_append, List.map_nil, inside,
      Hoisted.relabel]
  | false =>
    have allowed : (!(said || setting.options.alwaysStrict) && setting.options.annexB) = true →
        r.Separates := fun both => separate (Bool.and_eq_true_iff.1 both).2
    simp only [ofProgram, ProgramOutline.relabel, Bool.false_eq_true, if_false,
      Walk.Setting.options_relabel, Outline.hoistedAll_relabel allowed]
    refine relabel_asking r (fun owned => ?_)
    simp only [relabel_inScope, Option.map_none, List.map_append, inside, Hoisted.relabel]

end Outlines

end Course

end Resolution

end ScopeAnalysis
