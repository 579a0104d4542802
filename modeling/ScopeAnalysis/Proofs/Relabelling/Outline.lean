import ScopeAnalysis.Outline.Hoisting
import ScopeAnalysis.Outline.OfProgram

/-!
# Relabelled outlines

A relabelling gives every node a new number, every identifier that stands for a variable a new name
and every other text a new handle. What an outline binds, writes, declares and hoists does not
depend on any of them, except for twins: whether a function has one depends on which of the
declarations around it have its name and another node.
-/

namespace ScopeAnalysis

structure Relabelling where
  number : NodeId → NodeId
  /-- The name of an identifier that stands for a variable. -/
  name : Occurrence → Name
  /-- The handle of any other text: of a key, a label, a directive or a literal. -/
  text : Name → Name

/-- The node with its new number, in its old place. -/
def Relabelling.node (r : Relabelling) (n : Node) : Node := ⟨r.number n.id, n.span⟩

def Ident.relabel (r : Relabelling) (id : Ident Node Name) : Ident Node Name :=
  ⟨r.node id.node, r.name id⟩

def Declaration.relabel (r : Relabelling) (d : Declaration) : Declaration :=
  ⟨d.id.relabel r, d.kind⟩

def LoneFunction.relabel (r : Relabelling) (alone : LoneFunction) : LoneFunction :=
  ⟨r.node alone.node, alone.name.relabel r⟩

/-- Occurrences have one name, and nodes one number, if and only if they had one before. -/
structure Relabelling.Separates (r : Relabelling) : Prop where
  names : ∀ id other, r.name id = r.name other ↔ id.name = other.name
  numbers : Function.Injective r.number

namespace Outline

variable (r : Relabelling)

mutual

def relabel : Outline → Outline
  | .nothing => .nothing
  | .binding id => .binding (id.relabel r)
  | .target id => .target (id.relabel r)
  | .read id => .read (id.relabel r)
  | .evaluated inner => .evaluated (relabel inner)
  | .union parts => .union (relabelAll parts)
  | .directEval call => .directEval (relabel call)
  | .delete id => .delete (id.relabel r)
  | .update id => .update (id.relabel r)
  | .assign compound t value => .assign compound (relabel t) (relabel value)
  | .decl kind declarators => .decl kind (relabelDeclarators declarators)
  | .block node decls statements =>
    .block (r.node node) (decls.map (Declaration.relabel r)) (relabelAll statements)
  | .ifElse test yesAlone yes noAlone no =>
    .ifElse (relabel test) (yesAlone.map (LoneFunction.relabel r)) (relabel yes)
      (noAlone.map (LoneFunction.relabel r)) (relabel no)
  | .forLoop node decls init test step body =>
    .forLoop (r.node node) (decls.map (Declaration.relabel r)) (relabel init) (relabel test)
      (relabel step) (relabel body)
  | .forEach node decls head collection body =>
    .forEach (r.node node) (decls.map (Declaration.relabel r)) (relabel head) (relabel collection)
      (relabel body)
  | .switch node decls discriminant cases =>
    .switch (r.node node) (decls.map (Declaration.relabel r)) (relabel discriminant)
      (relabelCases cases)
  | .handler node isPattern b inside decls statements =>
    .handler (r.node node) isPattern (relabel b) (r.node inside) (decls.map (Declaration.relabel r))
      (relabelAll statements)
  | .withObject node object body => .withObject (r.node node) (relabel object) (relabel body)
  | .imports ids => .imports (ids.map (Ident.relabel r))
  | .function kind node name params body =>
    .function kind (r.node node) (name.map (Ident.relabel r)) (relabelParams params)
      (relabelBody body)
  | .class_ node isDeclaration name heritage elements =>
    .class_ (r.node node) isDeclaration (name.map (Ident.relabel r)) (relabel heritage)
      (relabelAll elements)

def relabelAll : List Outline → List Outline
  | [] => []
  | o :: rest => relabel o :: relabelAll rest

def relabelDeclarators : List DeclaratorOutline → List DeclaratorOutline
  | [] => []
  | .mk b hasInit init :: rest => .mk (relabel b) hasInit (relabel init) :: relabelDeclarators rest

def relabelCases : List CaseOutline → List CaseOutline
  | [] => []
  | .mk test statements :: rest => .mk (relabel test) (relabelAll statements) :: relabelCases rest

def relabelParams : List ParamOutline → List ParamOutline
  | [] => []
  | .mk node b :: rest => .mk (r.node node) (relabel b) :: relabelParams rest

def relabelBody : BodyOutline → BodyOutline
  | .block strict decls statements =>
    .block strict (decls.map (Declaration.relabel r)) (relabelAll statements)
  | .concise value => .concise (relabel value)

end

section Texts

variable {number : NodeId → NodeId} {name : Occurrence → Name} {text other : Name → Name}

mutual

/-- No handle of a text other than a name is left in an outline, so they may become anything. -/
theorem relabel_congr : ∀ o : Outline,
    relabel ⟨number, name, text⟩ o = relabel ⟨number, name, other⟩ o
  | .nothing | .binding _ | .target _ | .read _ | .delete _ | .update _ | .imports _ => rfl
  | .evaluated inner | .directEval inner => by
    rw [relabel, relabel_congr inner]
    rfl
  | .union os | .block _ _ os => by
    rw [relabel, relabelAll_congr os]
    rfl
  | .assign _ o o' | .withObject _ o o' => by
    rw [relabel, relabel_congr o, relabel_congr o']
    rfl
  | .decl _ ds => by
    rw [relabel, relabelDeclarators_congr ds]
    rfl
  | .ifElse o _ o' _ o'' | .forEach _ _ o o' o'' => by
    rw [relabel, relabel_congr o, relabel_congr o', relabel_congr o'']
    rfl
  | .forLoop _ _ init test step body => by
    rw [relabel, relabel_congr init, relabel_congr test, relabel_congr step, relabel_congr body]
    rfl
  | .switch _ _ discriminant cases => by
    rw [relabel, relabel_congr discriminant, relabelCases_congr cases]
    rfl
  | .handler _ _ o _ _ os | .class_ _ _ _ o os => by
    rw [relabel, relabel_congr o, relabelAll_congr os]
    rfl
  | .function _ _ _ ps b => by
    rw [relabel, relabelParams_congr ps, relabelBody_congr b]
    rfl

theorem relabelAll_congr : ∀ os : List Outline,
    relabelAll ⟨number, name, text⟩ os = relabelAll ⟨number, name, other⟩ os
  | [] => rfl
  | o :: rest => by rw [relabelAll, relabelAll, relabel_congr o, relabelAll_congr rest]

theorem relabelDeclarators_congr : ∀ ds : List DeclaratorOutline,
    relabelDeclarators ⟨number, name, text⟩ ds = relabelDeclarators ⟨number, name, other⟩ ds
  | [] => rfl
  | .mk b _ init :: rest => by
    rw [relabelDeclarators, relabel_congr b, relabel_congr init, relabelDeclarators_congr rest]
    rfl

theorem relabelCases_congr : ∀ cases : List CaseOutline,
    relabelCases ⟨number, name, text⟩ cases = relabelCases ⟨number, name, other⟩ cases
  | [] => rfl
  | .mk test os :: rest => by
    rw [relabelCases, relabel_congr test, relabelAll_congr os, relabelCases_congr rest]
    rfl

theorem relabelParams_congr : ∀ ps : List ParamOutline,
    relabelParams ⟨number, name, text⟩ ps = relabelParams ⟨number, name, other⟩ ps
  | [] => rfl
  | .mk _ b :: rest => by
    rw [relabelParams, relabel_congr b, relabelParams_congr rest]
    rfl

theorem relabelBody_congr : ∀ b : BodyOutline,
    relabelBody ⟨number, name, text⟩ b = relabelBody ⟨number, name, other⟩ b
  | .block _ _ os => by
    rw [relabelBody, relabelAll_congr os]
    rfl
  | .concise value => by rw [relabelBody, relabelBody, relabel_congr value]

end

end Texts

theorem relabelAll_eq_map (os : List Outline) : relabelAll r os = os.map (relabel r) := by
  induction os with
  | nil => rfl
  | cons o rest ih => rw [relabelAll, ih, List.map_cons]

theorem relabelParams_append (ps qs : List ParamOutline) :
    relabelParams r (ps ++ qs) = relabelParams r ps ++ relabelParams r qs := by
  induction ps with
  | nil => rfl
  | cons p rest ih =>
    obtain ⟨node, b⟩ := p
    simp [relabelParams, ih]

@[simp]
theorem isNothing_relabel (o : Outline) : (relabel r o).isNothing = o.isNothing := by
  cases o <;> rfl

@[simp]
theorem isStrict_relabelBody (b : BodyOutline) : (relabelBody r b).isStrict = b.isStrict := by
  cases b <;> rfl

theorem filter_relabel (os : List Outline) :
    (os.map (relabel r)).filter (fun o => !o.isNothing) =
      (os.filter (fun o => !o.isNothing)).map (relabel r) := by
  rw [List.filter_map]
  refine congrArg (List.map (relabel r)) (List.filter_congr (fun o _ => ?_))
  exact congrArg not (isNothing_relabel r o)

theorem relabelAll_append (os rest : List Outline) :
    relabelAll r (os ++ rest) = relabelAll r os ++ relabelAll r rest := by
  simp only [relabelAll_eq_map, List.map_append]

theorem relabel_join (os : List Outline) : relabel r (join os) = join (relabelAll r os) := by
  unfold join
  rw [relabelAll_eq_map, filter_relabel]
  generalize os.filter (fun o => !o.isNothing) = kept
  match kept with
  | [] => rfl
  | [_] => rfl
  | o :: o' :: rest => simp [relabel, relabelAll_eq_map]

theorem map_relabel_declareAs (kind : DeclarationKind) (ids : List Occurrence) :
    (declareAs kind ids).map (Declaration.relabel r) =
      declareAs kind (ids.map (Ident.relabel r)) := by
  simp [declareAs, Declaration.relabel, Function.comp_def]

end Outline

def ProgramOutline.relabel (r : Relabelling) (o : ProgramOutline) : ProgramOutline :=
  { o with
    node := r.node o.node
    decls := o.decls.map (Declaration.relabel r)
    statements := Outline.relabelAll r o.statements }

theorem ProgramOutline.relabel_congr {number : NodeId → NodeId} {name : Occurrence → Name}
    {text other : Name → Name} (o : ProgramOutline) :
    o.relabel ⟨number, name, text⟩ = o.relabel ⟨number, name, other⟩ := by
  rw [relabel, Outline.relabelAll_congr]
  rfl

def Bound.relabel (r : Relabelling) (b : Bound) : Bound :=
  ⟨b.names.map (Ident.relabel r), b.evaluates⟩

theorem Bound.relabel_append (r : Relabelling) (a b : Bound) :
    (a.append b).relabel r = (a.relabel r).append (b.relabel r) := by
  simp [Bound.relabel, Bound.append]

def Hoisted.relabel (r : Relabelling) (h : Hoisted) : Hoisted :=
  ⟨h.vars.map (Declaration.relabel r), h.twins.map (Declaration.relabel r)⟩

theorem Hoisted.relabel_append (r : Relabelling) (a b : Hoisted) :
    (a.append b).relabel r = (a.relabel r).append (b.relabel r) := by
  simp [Hoisted.relabel, Hoisted.append]

namespace Outline

variable (r : Relabelling)

mutual

theorem boundNames_relabel : ∀ o : Outline,
    boundNames (relabel r o) = Bound.relabel r <$> boundNames o
  | .evaluated inner => by
    simp only [relabel, boundNames, boundNames_relabel inner]
    cases boundNames inner <;> rfl
  | .union parts => by simpa only [relabel, boundNames] using boundNamesAll_relabel parts
  | .nothing | .binding _ | .read _ | .directEval _ | .delete _ | .update _ | .assign ..
  | .function .. | .class_ .. | .target _ | .decl .. | .block .. | .ifElse .. | .forLoop ..
  | .forEach .. | .switch .. | .handler .. | .withObject .. | .imports _ => by
    simp only [relabel, boundNames]
    rfl

theorem boundNamesAll_relabel : ∀ os : List Outline,
    boundNamesAll (relabelAll r os) = Bound.relabel r <$> boundNamesAll os
  | [] => rfl
  | o :: rest => by
    simp only [relabelAll, boundNamesAll, boundNames_relabel o, boundNamesAll_relabel rest,
      map_bind, bind_map_left, ← Bound.relabel_append]
    rfl

end

mutual

theorem writtenNames_relabel : ∀ o : Outline,
    writtenNames (relabel r o) = List.map (Ident.relabel r) <$> writtenNames o
  | .evaluated inner => by simpa only [relabel, writtenNames] using writtenNames_relabel inner
  | .union parts => by simpa only [relabel, writtenNames] using writtenNamesAll_relabel parts
  | .nothing | .target _ | .read _ | .directEval _ | .delete _ | .update _ | .assign ..
  | .function .. | .class_ .. | .binding _ | .decl .. | .block .. | .ifElse .. | .forLoop ..
  | .forEach .. | .switch .. | .handler .. | .withObject .. | .imports _ => by
    simp only [relabel, writtenNames]
    rfl

theorem writtenNamesAll_relabel : ∀ os : List Outline,
    writtenNamesAll (relabelAll r os) = List.map (Ident.relabel r) <$> writtenNamesAll os
  | [] => rfl
  | o :: rest => by
    simp only [relabelAll, writtenNamesAll, writtenNames_relabel o, writtenNamesAll_relabel rest,
      map_bind, bind_map_left, ← List.map_append]
    rfl

end

theorem declaratorNames_relabel : ∀ ds : List DeclaratorOutline,
    declaratorNames (relabelDeclarators r ds) = List.map (Ident.relabel r) <$> declaratorNames ds
  | [] => rfl
  | .mk b _ _ :: rest => by
    have names (bound : Bound) : (bound.relabel r).names = bound.names.map (Ident.relabel r) := rfl
    simp only [relabelDeclarators, declaratorNames, boundNames_relabel r b,
      declaratorNames_relabel rest, map_bind, bind_map_left, names, ← List.map_append]
    rfl

mutual

theorem lexicalDeclarations_relabel (top : Bool) : ∀ o : Outline,
    lexicalDeclarations top (relabel r o) =
      List.map (Declaration.relabel r) <$> lexicalDeclarations top o
  | .decl kind ds => by
    simp only [relabel, lexicalDeclarations, declaratorNames_relabel r ds]
    split
    · cases declaratorNames ds with
      | error refusal => rfl
      | ok ids => exact congrArg Except.ok (map_relabel_declareAs r _ ids).symm
    · rfl
  | .function kind _ name _ _ => by
    simp only [relabel, lexicalDeclarations]
    split
    · cases name <;> rfl
    · rfl
  | .class_ _ isDeclaration name _ _ => by
    simp only [relabel, lexicalDeclarations]
    split
    · cases name <;> rfl
    · rfl
  | .imports ids => by
    simp only [relabel, lexicalDeclarations]
    exact congrArg Except.ok (map_relabel_declareAs r _ ids).symm
  | .union parts => by
    simpa only [relabel, lexicalDeclarations] using lexicalDeclarationsAll_relabel false parts
  | .nothing | .read _ | .directEval _ | .delete _ | .update _ | .assign .. | .block ..
  | .ifElse .. | .forLoop .. | .forEach .. | .switch .. | .handler .. | .withObject ..
  | .binding _ | .target _ | .evaluated _ => by
    simp only [relabel, lexicalDeclarations]
    rfl

theorem lexicalDeclarationsAll_relabel (top : Bool) : ∀ os : List Outline,
    lexicalDeclarationsAll top (relabelAll r os) =
      List.map (Declaration.relabel r) <$> lexicalDeclarationsAll top os
  | [] => rfl
  | o :: rest => by
    simp only [relabelAll, lexicalDeclarationsAll, lexicalDeclarations_relabel top o,
      lexicalDeclarationsAll_relabel top rest, map_bind, bind_map_left, ← List.map_append]
    rfl

end

theorem hoistedVars_relabel (kind : VariableKind) (ds : List DeclaratorOutline) :
    hoistedVars kind (relabelDeclarators r ds) = Hoisted.relabel r <$> hoistedVars kind ds := by
  simp only [hoistedVars, declaratorNames_relabel r ds]
  split
  · rfl
  · cases declaratorNames ds with
    | error refusal => rfl
    | ok ids =>
      have vars := (map_relabel_declareAs r .var ids).symm
      exact congrArg (fun vars => Except.ok (Hoisted.mk vars [])) vars

section Hoisting

variable {r} {allowed : Bool}

theorem twin_relabel (separate : allowed = true → r.Separates) (around : List Declaration)
    (id : Occurrence) :
    twin allowed (around.map (Declaration.relabel r)) (id.relabel r) =
      (twin allowed around id).map (Declaration.relabel r) := by
  cases allowed with
  | false => rfl
  | true =>
    have same (d : Declaration) : (d.relabel r).blocks (id.relabel r) = d.blocks id := by
      have names : (d.relabel r).id.name = (id.relabel r).name ↔ d.id.name = id.name :=
        (separate rfl).names d.id id
      have nodes : (d.relabel r).id.node.id = (id.relabel r).node.id ↔
          d.id.node.id = id.node.id := (separate rfl).numbers.eq_iff
      simp only [Declaration.blocks, bne, BEq.beq, names, nodes]
    have blocked : (around.map (Declaration.relabel r)).any (fun d => d.blocks (id.relabel r)) =
        around.any (fun d => d.blocks id) := by
      simp [List.any_map, Function.comp_def, same]
    simp only [twin, blocked]
    split <;> rfl

mutual

/-- Renamed statements own what they owned, renamed. -/
theorem hoisted_relabel (separate : allowed = true → r.Separates)
    (around : List Declaration) (top : Bool) : ∀ o : Outline,
    hoisted allowed (around.map (Declaration.relabel r)) top (relabel r o) =
      Hoisted.relabel r <$> hoisted allowed around top o
  | .decl kind ds => by simpa only [relabel, hoisted] using hoistedVars_relabel r kind ds
  | .function kind node name ps b => by
    simp only [relabel, hoisted]
    cases kind with
    | declaration =>
      cases name with
      | none => rfl
      | some id =>
        cases top with
        | true => rfl
        | false =>
          have twins := twin_relabel separate around id
          exact congrArg (fun twins => Except.ok (Hoisted.mk [] twins)) twins
    | _ => rfl
  | .block _ ds os => by
    simpa only [relabel, hoisted, List.map_append] using
      hoistedAll_relabel separate (around ++ ds) false os
  | .ifElse _ _ yes _ no => by
    simp only [relabel, hoisted, hoisted_relabel separate around false yes,
      hoisted_relabel separate around false no, map_bind, bind_map_left, ← Hoisted.relabel_append]
    rfl
  | .forLoop _ ds init _ _ body => by
    simp only [relabel, hoisted, ← List.map_append,
      hoisted_relabel separate (around ++ ds) false init,
      hoisted_relabel separate (around ++ ds) false body, map_bind, bind_map_left,
      ← Hoisted.relabel_append]
    rfl
  | .forEach _ ds head _ body => by
    have inner := hoisted_relabel separate (around ++ ds) false body
    cases head with
    | decl kind declarators =>
      simp only [relabel, hoisted, ← List.map_append, hoistedVars_relabel r kind declarators, inner,
        map_bind, bind_map_left, ← Hoisted.relabel_append]
      rfl
    | _ => simpa only [relabel, hoisted, ← List.map_append] using inner
  | .switch _ ds _ cases => by
    simpa only [relabel, hoisted, List.map_append] using
      hoistedCases_relabel separate (around ++ ds) cases
  | .handler _ isPattern b _ ds os => by
    have inner (ids : List Occurrence) :
        hoistedAll allowed (around.map (Declaration.relabel r) ++
          declareAs .catch_ (ids.map (Ident.relabel r)) ++ ds.map (Declaration.relabel r)) false
            (relabelAll r os) =
          Hoisted.relabel r <$>
            hoistedAll allowed (around ++ declareAs .catch_ ids ++ ds) false os := by
      simpa only [List.map_append, map_relabel_declareAs] using
        hoistedAll_relabel separate (around ++ declareAs .catch_ ids ++ ds) false os
    simp only [relabel, hoisted]
    cases isPattern with
    | false => exact inner []
    | true =>
      simp only [if_true, boundNames_relabel r b]
      cases boundNames b with
      | error refusal => rfl
      | ok bound => exact inner bound.names
  | .withObject _ _ body => by
    simpa only [relabel, hoisted] using hoisted_relabel separate around false body
  | .union parts => by
    simpa only [relabel, hoisted] using hoistedAll_relabel separate around false parts
  | .nothing | .class_ .. | .imports _ | .read _ | .directEval _ | .delete _ | .update _
  | .assign .. | .binding _ | .target _ | .evaluated _ => by
    simp only [relabel, hoisted]
    rfl

theorem hoistedAll_relabel (separate : allowed = true → r.Separates)
    (around : List Declaration) (top : Bool) : ∀ os : List Outline,
    hoistedAll allowed (around.map (Declaration.relabel r)) top (relabelAll r os) =
      Hoisted.relabel r <$> hoistedAll allowed around top os
  | [] => rfl
  | o :: rest => by
    simp only [relabelAll, hoistedAll, hoisted_relabel separate around top o,
      hoistedAll_relabel separate around top rest, map_bind, bind_map_left,
      ← Hoisted.relabel_append]
    rfl

theorem hoistedCases_relabel (separate : allowed = true → r.Separates)
    (around : List Declaration) : ∀ cases : List CaseOutline,
    hoistedCases allowed (around.map (Declaration.relabel r)) (relabelCases r cases) =
      Hoisted.relabel r <$> hoistedCases allowed around cases
  | [] => rfl
  | .mk _ os :: rest => by
    simp only [relabelCases, hoistedCases, hoistedAll_relabel separate around false os,
      hoistedCases_relabel separate around rest, map_bind, bind_map_left, ← Hoisted.relabel_append]
    rfl

end

end Hoisting

end Outline

end ScopeAnalysis
