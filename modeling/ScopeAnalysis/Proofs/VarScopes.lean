import ScopeAnalysis.Program.Numbering
import ScopeAnalysis.Proofs.Grammar.Agreement

/-!
# Where `var` names and promoted functions go

In the tree of a placed program the script or module and every function has one scope that receives
its `var` names, the functions declared at its top, and the functions in its blocks that are
promoted. No other scope has a `var` or a promoted function.
-/

namespace ScopeAnalysis

/-- Whether declarations of this kind stand only in scopes that receive `var` names. -/
def DeclarationKind.isReceived : DeclarationKind → Bool
  | .var | .functionVarDeclaration => true
  | _ => false

/-- Whether declarations of this kind stay in the list of statements they stand in, even at the top
of a script, module or function. -/
def DeclarationKind.isLexical : DeclarationKind → Bool
  | .let_ | .const | .classDeclaration | .import_ => true
  | _ => false

/-- The identifiers that are declared as a kind. -/
def idsAs (kind : DeclarationKind) (ds : List Declaration) : List Occurrence :=
  (ds.filter (fun d => d.kind = kind)).map Declaration.id

/-- The identifiers that a scope declares as a kind. -/
def ScopeTree.declaredAs (tree : ScopeTree) (kind : DeclarationKind) (scope : Scope) :
    List Occurrence :=
  idsAs kind (tree.declarationsOf scope)

section Ids

variable {kind other : DeclarationKind} {ds es : List Declaration}

theorem idsAs_append : idsAs kind (ds ++ es) = idsAs kind ds ++ idsAs kind es := by
  simp [idsAs]

theorem idsAs_perm (kind : DeclarationKind) (same : ds.Perm es) :
    (idsAs kind ds).Perm (idsAs kind es) :=
  (same.filter _).map _

theorem idsAs_eq_nil (none : ∀ d ∈ ds, d.kind ≠ kind) : idsAs kind ds = [] := by
  simpa [idsAs] using none

theorem idsAs_declareAs (ids : List Occurrence) :
    idsAs kind (Outline.declareAs other ids) = if other = kind then ids else [] := by
  split <;> simp_all [idsAs, Outline.declareAs, List.filter_map, Function.comp_def]

theorem idsAs_flatMap {α : Type} (f : α → List Declaration) (xs : List α) :
    idsAs kind (xs.flatMap f) = xs.flatMap (fun x => idsAs kind (f x)) := by
  induction xs with
  | nil => rfl
  | cons x rest ih => rw [List.flatMap_cons, idsAs_append, ih, List.flatMap_cons]

end Ids

/-! At the top of an owner a declaration that stays where it stands is lexical; in a block it may be
a function. -/

theorem DeclarationKind.unreceived_of_isLexical {kind : DeclarationKind}
    (lexical : kind.isLexical = true) : kind.isReceived = false ∧ kind ≠ .functionDeclaration := by
  cases kind <;> simp [isLexical, isReceived] at lexical ⊢

theorem lexicalNames_kind {kind : VariableKind} {ds : List (BindingElement Node Name)}
    {d : Declaration} (member : d ∈ lexicalNames kind ds) : d.kind.isLexical = true := by
  cases kind with
  | var => cases member
  | let_ | const =>
    obtain ⟨id, _, rfl⟩ := List.mem_map.1 member
    rfl

theorem declareAs_kind {kind : DeclarationKind} {ids : List Occurrence} {d : Declaration}
    (member : d ∈ Outline.declareAs kind ids) : d.kind = kind := by
  obtain ⟨id, _, rfl⟩ := List.mem_map.1 member
  rfl

theorem Stmt.lexicals_kind {top : Bool} {s : Stmt Node Name} {d : Declaration}
    (member : d ∈ s.lexicals top) :
    d.kind.isLexical = true ∨ (top = false ∧ d.kind = .functionDeclaration) := by
  fun_induction Stmt.lexicals top s with
  | case1 => exact .inl (lexicalNames_kind member)
  | case2 => cases member
  | case3 _ _ _ _ _ nested => exact .inr ⟨by simpa using nested, declareAs_kind member⟩
  | case4 =>
    rw [declareAs_kind member]
    exact .inl rfl
  | case5 _ _ s ih => exact ih member
  | case6 => cases member

theorem Stmt.lexicals_unreceived {top : Bool} {s : Stmt Node Name} {d : Declaration}
    (member : d ∈ s.lexicals top) : d.kind.isReceived = false := by
  rcases Stmt.lexicals_kind member with lexical | ⟨_, function⟩
  · exact (DeclarationKind.unreceived_of_isLexical lexical).1
  · rw [function]
    rfl

theorem Owner.lexicals_kind {o : Owner} {d : Declaration} (member : d ∈ o.lexicals) :
    d.kind.isLexical = true := by
  obtain ⟨i, _, inside⟩ := List.mem_flatMap.1 member
  rcases List.mem_append.1 inside with imported | stated
  · rw [declareAs_kind imported]
    rfl
  · cases same : i.statement? with
    | none =>
      rw [same] at stated
      cases stated
    | some s =>
      rw [same] at stated
      exact (Stmt.lexicals_kind stated).resolve_right nofun

theorem clauseLexicals_kind {cs : List (Clause Node Name)} {d : Declaration}
    (member : d ∈ clauseLexicals cs) : d.kind.isReceived = false := by
  induction cs with
  | nil => cases member
  | cons c rest ih =>
    obtain ⟨node, test, body⟩ := c
    rcases List.mem_append.1 member with here | there
    · obtain ⟨s, _, inside⟩ := List.mem_flatMap.1 here
      exact Stmt.lexicals_unreceived inside
    · exact ih there

/-- A scope that is no receiver of `var` names has none. -/
theorem InnerScope.opening_kind {inner : InnerScope} {d : Declaration}
    (member : d ∈ inner.opening.decls) : d.kind.isReceived = false := by
  cases inner with
  | block node statements =>
    obtain ⟨s, _, inside⟩ := List.mem_flatMap.1 member
    exact Stmt.lexicals_unreceived inside
  | declLoop node kind ds =>
    exact (DeclarationKind.unreceived_of_isLexical (lexicalNames_kind member)).1
  | switch node clauses => exact clauseLexicals_kind member
  | lone f =>
    cases List.mem_singleton.1 member
    rfl
  | functionName node id =>
    cases List.mem_singleton.1 member
    rfl
  | catch_ node b =>
    rw [declareAs_kind member]
    rfl
  | className node name =>
    rw [declareAs_kind member]
    rfl
  | parameters kind node ps =>
    rw [declareAs_kind member]
    rfl
  | loop node => cases member
  | with_ node => cases member
  | parameterExpression node => cases member

namespace Owner

/-- What the receiving scope of an owner has besides what is hoisted to it. -/
def front (o : Owner) : List Declaration :=
  match o.form with
  | .script => []
  | .module => o.lexicals
  | .function _ params apart =>
    (if apart then [] else Outline.declareAs .parameter params) ++ o.lexicals

theorem decls_eq (options : Options) (useStrict : Name) (o : Owner) :
    o.decls options useStrict = o.front ++ o.hoisted ++
      Outline.declareAs .functionVarDeclaration (o.promoted options useStrict) := rfl

theorem front_kind {o : Owner} {d : Declaration} (member : d ∈ o.front) :
    d.kind.isReceived = false ∧ d.kind ≠ .functionDeclaration := by
  unfold front at member
  split at member
  · cases member
  · exact DeclarationKind.unreceived_of_isLexical (lexicals_kind member)
  · rcases List.mem_append.1 member with param | lexical
    · split at param
      · cases param
      · rw [declareAs_kind param]
        exact ⟨rfl, nofun⟩
    · exact DeclarationKind.unreceived_of_isLexical (lexicals_kind lexical)

variable (options : Options) (useStrict : Name) (o : Owner)

/-- Of the kinds of declarations that are hoisted, only what is hoisted is declared. -/
theorem idsAs_decls {kind : DeclarationKind}
    (hoists : kind.isReceived = true ∨ kind = .functionDeclaration) :
    idsAs kind (o.decls options useStrict) =
      idsAs kind o.hoisted ++ idsAs kind
        (Outline.declareAs .functionVarDeclaration (o.promoted options useStrict)) := by
  have none : idsAs kind o.front = [] := by
    refine idsAs_eq_nil (fun d member same => ?_)
    obtain ⟨unreceived, other⟩ := front_kind member
    rcases hoists with received | function
    · rw [same, received] at unreceived
      cases unreceived
    · exact other (same.trans function)
  rw [decls_eq, idsAs_append, idsAs_append, none, List.nil_append]

theorem idsAs_var_decls : idsAs .var (o.decls options useStrict) = o.vars := by
  rw [idsAs_decls options useStrict o (.inl rfl), hoisted, idsAs_flatMap]
  simp [idsAs_append, idsAs_declareAs, vars]

theorem idsAs_function_decls :
    idsAs .functionDeclaration (o.decls options useStrict) = o.functions := by
  rw [idsAs_decls options useStrict o (.inr rfl), hoisted, idsAs_flatMap]
  simp [idsAs_append, idsAs_declareAs, functions]

theorem idsAs_promoted_decls :
    idsAs .functionVarDeclaration (o.decls options useStrict) = o.promoted options useStrict := by
  rw [idsAs_decls options useStrict o (.inl rfl), hoisted, idsAs_flatMap]
  simp [idsAs_append, idsAs_declareAs]

end Owner

/-- Whether scopes of a kind receive `var` names in a program. -/
def NumberedProgram.receives (p : NumberedProgram) : ScopeKind → Bool
  | .function | .arrowFunction => true
  | .global => !p.isModule
  | .module => p.isModule
  | _ => false

/-- The scopes of the tree of a program that receive `var` names. -/
def ScopeTree.receivers (tree : ScopeTree) (p : NumberedProgram) : List Scope :=
  tree.scopes.toList.filter (fun scope => p.receives scope.kind)

/-- The scopes of the owners among some pieces, told apart from the others by their kind. -/
theorem Piece.filter_openings_owners {options : Options} {useStrict : Name}
    {keep : ScopeKind → Bool} (functions : ∀ kind : FunctionKind, keep kind.scopeKind = true)
    (others : ∀ inner : InnerScope, keep inner.opening.kind = false) {pieces : List Piece} :
    (pieces.flatMap (Piece.openings options useStrict)).filter (fun o => keep o.kind) =
      (pieces.filterMap Piece.owner?).map (Owner.opening options useStrict) := by
  induction pieces with
  | nil => rfl
  | cons piece rest ih =>
    rw [List.flatMap_cons, List.filter_append, ih]
    cases piece with
    | scope inner =>
      rw [List.filterMap_cons_none (f := Piece.owner?) rfl]
      simp [Piece.openings, others]
    | function around kind node ps b =>
      have kept : keep ((Owner.ofFunction around kind node ps b).opening options useStrict).kind =
        true := functions kind
      rw [List.filterMap_cons_some (f := Piece.owner?) rfl]
      simp [Piece.openings, kept]
    | _ => rfl

namespace NumberedProgram

variable (options : Options) (useStrict : Name) (p : NumberedProgram)

theorem receives_function (kind : FunctionKind) : p.receives kind.scopeKind = true := by
  cases kind <;> rfl

theorem receives_inner (inner : InnerScope) : p.receives inner.opening.kind = false := by
  cases inner <;> rfl

/-- The receiving scopes of a program are those of its owners. -/
theorem filter_openings : (p.openings options useStrict).filter (fun o => p.receives o.kind) =
    p.owners.map (Owner.opening options useStrict) := by
  rw [openings, List.filter_append, Piece.filter_openings_owners (receives_function p)
    (receives_inner p), owners, List.map_cons]
  cases p <;> rfl

/-- A scope of a program that is no receiver declares no `var` and no promoted function. -/
theorem openings_kind {o : Opening} (member : o ∈ p.openings options useStrict)
    (other : p.receives o.kind = false) : ∀ d ∈ o.decls, d.kind.isReceived = false := by
  intro d declared
  rcases mem_openings.1 member with outside | ⟨inner, _, rfl⟩ | ⟨around, kind, node, ps, b, _, rfl⟩
  · cases p with
    | script node directives statements =>
      rcases List.mem_pair.1 outside with rfl | rfl
      · cases other
      · exact (DeclarationKind.unreceived_of_isLexical (Owner.lexicals_kind declared)).1
    | module node directives items =>
      rcases List.mem_pair.1 outside with rfl | rfl
      · cases declared
      · cases other
  · exact InnerScope.opening_kind declared
  · have receives : p.receives kind.scopeKind = true := receives_function p kind
    exact absurd (receives.symm.trans other) nofun

end NumberedProgram

theorem rel_filter {α β : Type} {r : α → β → Prop} {f : α → Bool} {g : β → Bool}
    (same : ∀ a b, r a b → f a = g b) {as : Multiset α} {bs : Multiset β}
    (rel : Multiset.Rel r as bs) :
    Multiset.Rel r (as.filter (fun a => f a = true)) (bs.filter (fun b => g b = true)) := by
  induction rel with
  | zero => exact .zero
  | @cons a b _ _ first _ ih =>
    cases kept : f a with
    | true =>
      rw [Multiset.filter_cons_of_pos (p := fun a => f a = true) _ kept,
        Multiset.filter_cons_of_pos (p := fun b => g b = true) _ ((same a b first).symm.trans kept)]
      exact .cons first ih
    | false =>
      rw [Multiset.filter_cons_of_neg _ (by simp [kept]),
        Multiset.filter_cons_of_neg _ (by simp [← same a b first, kept])]
      exact ih

section Receivers

variable {options : Options} {p : NumberedProgram} {names names' : Interner} {a : Analysis}

/-- The receiving scopes of the tree of a placed program belong to its owners, one to each. -/
theorem rel_receivers (placed : p.isPlaced = true)
    (analyzed : p.analyze options names = (.ok a, names')) :
    Multiset.Rel (fun (o : Owner) scope =>
        (o.opening options (SpecialNames.intern names).1.useStrict).IsScope a.tree scope)
      p.owners (a.tree.receivers p) := by
  have all := rel_isScope_of_isPlaced placed analyzed
  have received := rel_filter (f := fun o : Opening => p.receives o.kind)
    (g := fun scope : Scope => p.receives scope.kind)
    (fun o scope opened => congrArg p.receives opened.kind.symm) all
  simp only [Multiset.filter_coe, Bool.decide_eq_true, NumberedProgram.filter_openings,
    ← Multiset.map_coe, Multiset.rel_map_left] at received
  exact received

/-- The other scopes of the tree of a placed program have no `var` and no promoted function. -/
theorem declared_of_not_receives (placed : p.isPlaced = true)
    (analyzed : p.analyze options names = (.ok a, names')) {scope : Scope}
    (member : scope ∈ a.tree.scopes.toList) (other : p.receives scope.kind = false) :
    ∀ d ∈ a.tree.declarationsOf scope, d.kind.isReceived = false := by
  have all := rel_isScope_of_isPlaced placed analyzed
  obtain ⟨o, asked, opened⟩ :=
    Multiset.exists_mem_of_rel_of_mem (Multiset.rel_flip.2 all) (Multiset.mem_coe.2 member)
  intro d declared
  rw [opened.kind] at other
  exact p.openings_kind _ _ (Multiset.mem_coe.1 asked) other d (opened.declares.mem_iff.1 declared)

theorem declaredAs_of_not_receives (placed : p.isPlaced = true)
    (analyzed : p.analyze options names = (.ok a, names')) {scope : Scope}
    (member : scope ∈ a.tree.scopes.toList) (other : p.receives scope.kind = false)
    {kind : DeclarationKind} (received : kind.isReceived = true) :
    a.tree.declaredAs kind scope = [] := by
  refine idsAs_eq_nil (fun d declared same => ?_)
  have none := declared_of_not_receives placed analyzed member other d declared
  rw [same, received] at none
  cases none

end Receivers

/-! Hoisting of `var` names. -/

/-- The scope of an owner declares as `var` exactly the names that `var` binds inside the owner,
and as functions exactly those at its top. -/
structure Owner.HoistsTo (o : Owner) (tree : ScopeTree) (scope : Scope) : Prop where
  kind : scope.kind = o.scopeKind
  node : scope.node = o.node
  vars : (tree.declaredAs .var scope).Perm o.vars
  functions : (tree.declaredAs .functionDeclaration scope).Perm o.functions

/-- Every owner has a scope of its own that its `var` names are hoisted to, and no other scope
declares a `var`. -/
structure NumberedProgram.HoistsVars (p : NumberedProgram) (tree : ScopeTree) : Prop where
  owned : Multiset.Rel (fun (o : Owner) scope => o.HoistsTo tree scope) p.owners (tree.receivers p)
  others : ∀ scope ∈ tree.scopes.toList, p.receives scope.kind = false →
    tree.declaredAs .var scope = []

/-- In every placed program that is analyzed, `var` names are hoisted to the scope of their owner
and nowhere else. -/
theorem hoistsVars_of_isPlaced {options : Options} {p : NumberedProgram} {names names' : Interner}
    {a : Analysis} (placed : p.isPlaced = true)
    (analyzed : p.analyze options names = (.ok a, names')) : p.HoistsVars a.tree where
  owned := by
    refine (rel_receivers placed analyzed).mono (fun o _ scope _ opened => ?_)
    refine ⟨opened.kind, opened.node, ?_, ?_⟩
    · have same := idsAs_perm .var opened.declares
      rwa [Owner.opening, Owner.idsAs_var_decls] at same
    · have same := idsAs_perm .functionDeclaration opened.declares
      rwa [Owner.opening, Owner.idsAs_function_decls] at same
  others scope member other := declaredAs_of_not_receives placed analyzed member other rfl

/-- `if (x) { var a; } else for (var [b, {c: d}] of e) var f; function g(h = null) { var i; }` -/
def scatteredVars : NumberedProgram × Workbench :=
  let id (name : String) : Ident Span String := ⟨.none, name⟩
  let bare (name : String) : BindingElement Span String :=
    .mk .none .nameFirst (.ident (id name)) none
  Draft.number (.script .none []
    [.ifElse .none (.ident (id "x"))
      (.block .none [.decl .none .none .var [bare "a"]])
      (.forEachDecl .none .values .none .var
        [.mk .none .nameFirst (.array .none [.element (bare "b"), .element
          (.mk .none .nameFirst
            (.object .none [.keyed .none (.ident (id "c")) (bare "d")] none) none)] none) none]
        (.ident (id "e")) (.decl .none .none .var [bare "f"])),
    .function (.mk .none (some (id "g")) .none
      (.mk (some .none) [.mk .none .nameFirst (.ident (id "h"))
        (some (.literal .none .null))] none)
      (.block .none [] [.decl .none .none .var [bare "i"]]))]) .empty

theorem scatteredVars_hoistsVars :
    scatteredVars.1.owners.map (fun o => (o.vars.map (fun id => id.node.id.val),
        o.functions.map (fun id => id.node.id.val))) = [([1, 6, 9, 18], [34]), ([28], [])] ∧
      ∃ a names', scatteredVars.1.analyze .default scatteredVars.2.names = (.ok a, names') ∧
        scatteredVars.1.HoistsVars a.tree := by
  have completed : (scatteredVars.1.analyze .default scatteredVars.2.names).1.isOk = true := by
    decide +kernel
  obtain ⟨a, names', analyzed⟩ := Resolution.exists_of_isOk completed
  exact ⟨by decide +kernel, a, names', analyzed,
    hoistsVars_of_isPlaced (by decide +kernel) analyzed⟩

end ScopeAnalysis
