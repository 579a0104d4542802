import ScopeAnalysis.Proofs.Lookup
import ScopeAnalysis.Proofs.VarScopes

/-!
# Where lexical declarations go

In the tree of a placed program every block, switch, head of a loop, lone function of an `if`, catch
clause, class and parameter list has a scope that declares exactly what stands directly in it, in
the order of the source. The same holds of the lexical declarations at the top of the script, the
module and every function, and the global scope has none.
-/

namespace ScopeAnalysis

namespace ScopeKind

/-- Whether scopes of this kind have the lexical declarations at the top of an owner. -/
def isTop : ScopeKind → Bool
  | .script | .module | .function | .arrowFunction => true
  | _ => false

/-- Whether scopes of this kind belong to a construct inside an owner. -/
def isInner (kind : ScopeKind) : Bool := kind != .global && !kind.isTop

end ScopeKind

/-- The scopes of a tree whose kind passes a test. -/
def ScopeTree.scopesOf (tree : ScopeTree) (keep : ScopeKind → Bool) : List Scope :=
  tree.scopes.toList.filter (fun scope => keep scope.kind)

/-- A scope that declares exactly what it was opened with. Its names stand in the order in which
they first come up, its own `arguments` before all others, and each name has its declarations in
their order. -/
structure Opening.IsExact (arguments : Name) (o : Opening) (tree : ScopeTree) (scope : Scope) :
    Prop where
  kind : scope.kind = o.kind
  node : scope.node = o.node
  names : scope.bindings.map Prod.fst =
    ((if o.hasArguments then [arguments] else []) ++ o.decls.map (fun d => d.id.name)).eraseDups
  declarations : ∀ name,
    (tree.contents scope).get name = o.decls.filter (fun d => d.id.name = name)

namespace MultiMap

variable {κ ν : Type} [DecidableEq κ]

theorem keys_insert (map : MultiMap κ ν) (key : κ) (value : ν) :
    (map.insert key value).keys = if key ∈ map.keys then map.keys else map.keys ++ [key] := by
  obtain ⟨entries⟩ := map
  simp only [keys, insert]
  induction entries with
  | nil => rfl
  | cons entry rest ih =>
    obtain ⟨first, values⟩ := entry
    by_cases here : first = key
    · simp [insertEntry, here]
    · have other : key ≠ first := Ne.symm here
      simp only [insertEntry, if_neg here, List.map_cons, ih, List.mem_cons, other, false_or,
        List.cons_append]
      exact apply_ite (List.cons first) _ _ _

/-- Keys stand in the order in which they first come up. -/
theorem keys_insertAll {map : MultiMap κ ν} {earlier : List κ}
    (start : map.keys = earlier.eraseDups) (added : List (κ × ν)) :
    (map.insertAll added).keys = (earlier ++ added.map Prod.fst).eraseDups := by
  induction added generalizing map earlier with
  | nil => simpa [insertAll] using start
  | cons first rest ih =>
    have next : (map.insert first.1 first.2).keys = (earlier ++ [first.1]).eraseDups := by
      rw [keys_insert, start, List.eraseDups_append]
      by_cases known : first.1 ∈ earlier <;> simp [known, List.removeAll, List.eraseDups_cons]
    have later := ih next
    rw [List.append_assoc] at later
    exact later

/-- The values of a key stand in the order in which they were added. -/
theorem get_insertAll (map : MultiMap κ ν) (added : List (κ × ν)) (key : κ) :
    (map.insertAll added).get key =
      map.get key ++ (added.filter (fun pair => pair.1 = key)).map Prod.snd := by
  induction added generalizing map with
  | nil => exact (List.append_nil _).symm
  | cons first rest ih =>
    have later : (map.insertAll (first :: rest)).get key =
        (map.insert first.1 first.2).get key ++
          (rest.filter (fun pair => pair.1 = key)).map Prod.snd := ih _
    by_cases here : first.1 = key
    · rw [later, here, get_insert_self, List.filter_cons_of_pos (by simp [here])]
      simp
    · rw [later, get_insert_of_ne _ _ (Ne.symm here), List.filter_cons_of_neg (by simp [here])]

end MultiMap

/-- What a scope is to hold under a name are its declarations of that name. -/
theorem Opening.get_contents (arguments : Name) (o : Opening) (name : Name) :
    (o.contents arguments).get name = o.decls.filter (fun d => d.id.name = name) := by
  have start : (⟨if o.hasArguments then [(arguments, [])] else []⟩ :
      MultiMap Name Declaration).get name = [] := by
    cases o.hasArguments with
    | false => rfl
    | true => by_cases same : arguments = name <;> simp [MultiMap.get, same]
  rw [Opening.contents, MultiMap.get_insertAll, start, List.nil_append]
  simp [List.filter_map, Function.comp_def]

/-- The names that a scope is to hold, its own `arguments` before all others. -/
theorem Opening.keys_contents (arguments : Name) (o : Opening) : (o.contents arguments).keys =
    ((if o.hasArguments then [arguments] else []) ++ o.decls.map (fun d => d.id.name)).eraseDups
    := by
  have start : (⟨if o.hasArguments then [(arguments, [])] else []⟩ :
      MultiMap Name Declaration).keys =
        (if o.hasArguments then [arguments] else []).eraseDups := by
    cases o.hasArguments <;> rfl
  have keys := MultiMap.keys_insertAll start (o.decls.map (fun d => (d.id.name, d)))
  rw [List.map_map] at keys
  exact keys

theorem ScopeTree.keys_contents (tree : ScopeTree) (scope : Scope) :
    (tree.contents scope).keys = scope.bindings.map Prod.fst := by
  simp [MultiMap.keys, ScopeTree.contents, Function.comp_def]

/-- Except for the root, a scope that holds what it was opened with holds nothing else. -/
theorem Opening.IsFilled.contents_eq {arguments : Name} {o : Opening} {tree : ScopeTree}
    {scope : Scope} (filled : o.IsFilled arguments tree scope)
    (inside : scope.id ≠ ScopeId.root) : tree.contents scope = o.contents arguments := by
  obtain ⟨bare, same, root⟩ := filled.contents
  have none : bare = [] := by
    by_contra some
    exact inside (root some)
  rw [none, List.map_nil, List.append_nil] at same
  exact congrArg MultiMap.mk same

/-- Except for the root, a scope that holds what it was opened with declares exactly that. -/
theorem Opening.IsFilled.isExact {arguments : Name} {o : Opening} {tree : ScopeTree} {scope : Scope}
    (filled : o.IsFilled arguments tree scope) (inside : scope.id ≠ ScopeId.root) :
    o.IsExact arguments tree scope where
  kind := filled.kind
  node := filled.node
  names := by rw [← tree.keys_contents, filled.contents_eq inside, o.keys_contents]
  declarations name := by rw [filled.contents_eq inside, o.get_contents]

namespace Owner

variable (options : Options) (useStrict : Name)

/-- What is hoisted or promoted is not lexical. -/
theorem hoisted_not_isLexical {o : Owner} {d : Declaration} (member : d ∈ o.hoisted ++
    Outline.declareAs .functionVarDeclaration (o.promoted options useStrict)) :
    d.kind.isLexical = false := by
  rcases List.mem_append.1 member with hoisted | promoted
  · obtain ⟨i, _, inside⟩ := List.mem_flatMap.1 hoisted
    rcases List.mem_append.1 inside with function | var
    · rw [declareAs_kind function]
      rfl
    · rw [declareAs_kind var]
      rfl
  · rw [declareAs_kind promoted]
    rfl

/-- The scope of an owner with the lexical declarations at its top. That of a script does not
receive its `var` names. -/
def lexicalOpening (o : Owner) : Opening :=
  match o.form with
  | .script => ⟨.script, o.node, false, o.lexicals⟩
  | .module | .function .. => o.opening options useStrict

theorem filter_lexicals (o : Owner) :
    o.lexicals.filter (fun d => d.kind.isLexical) = o.lexicals :=
  List.filter_eq_self.2 (fun _ member => lexicals_kind member)

/-- The lexical declarations of that scope are those at the top. -/
theorem filter_lexicalOpening (o : Owner) :
    (o.lexicalOpening options useStrict).decls.filter (fun d => d.kind.isLexical) =
      o.lexicals := by
  have received : (o.hoisted ++ Outline.declareAs .functionVarDeclaration
      (o.promoted options useStrict)).filter (fun d => d.kind.isLexical) = [] :=
    List.filter_eq_nil_iff.2 (fun d member => by simp [hoisted_not_isLexical _ _ member])
  have split : (o.opening options useStrict).decls.filter (fun d => d.kind.isLexical) =
      o.front.filter (fun d => d.kind.isLexical) := by
    rw [opening, decls_eq, List.append_assoc, List.filter_append, received, List.append_nil]
  unfold lexicalOpening
  cases form : o.form with
  | script => exact filter_lexicals o
  | module =>
    rw [split, front, form]
    exact filter_lexicals o
  | function kind params apart =>
    have given : (if apart then [] else Outline.declareAs .parameter params).filter
        (fun d => d.kind.isLexical) = [] := by
      cases apart with
      | true => rfl
      | false =>
        refine List.filter_eq_nil_iff.2 (fun d member => ?_)
        rw [declareAs_kind member]
        exact Bool.false_ne_true
    rw [split, front, form, List.filter_append, given, List.nil_append]
    exact filter_lexicals o

/-- A scope that has exactly what the program puts there, and of lexical declarations exactly those
at the top of an owner. -/
structure KeepsIn (o : Owner) (arguments : Name) (tree : ScopeTree) (scope : Scope) : Prop where
  whole : (o.lexicalOpening options useStrict).IsExact arguments tree scope
  lexicals : ∀ name, ((tree.contents scope).get name).filter (fun d => d.kind.isLexical) =
    o.lexicals.filter (fun d => d.id.name = name)

end Owner

/-- The scope that a piece asks for inside an owner. -/
def Piece.inner? : Piece → Option InnerScope
  | .scope inner => some inner
  | _ => none

/-- The scopes inside owners among some pieces, told apart from the others by their kind. -/
theorem Piece.filter_openings_inner {options : Options} {useStrict : Name}
    {keep : ScopeKind → Bool} (functions : ∀ kind : FunctionKind, keep kind.scopeKind = false)
    (others : ∀ inner : InnerScope, keep inner.opening.kind = true) {pieces : List Piece} :
    (pieces.flatMap (Piece.openings options useStrict)).filter (fun o => keep o.kind) =
      (pieces.filterMap Piece.inner?).map InnerScope.opening := by
  induction pieces with
  | nil => rfl
  | cons piece rest ih =>
    rw [List.flatMap_cons, List.filter_append, ih]
    cases piece with
    | scope inner =>
      rw [List.filterMap_cons_some (f := Piece.inner?) rfl]
      simp [Piece.openings, others]
    | function around kind node ps b =>
      have dropped : keep ((Owner.ofFunction around kind node ps b).opening options
        useStrict).kind = false := functions kind
      rw [List.filterMap_cons_none (f := Piece.inner?) rfl]
      simp [Piece.openings, dropped]
    | _ => rfl

namespace NumberedProgram

variable (options : Options) (useStrict : Name) (p : NumberedProgram)

/-- The scopes inside the owners of a program. -/
def innerScopes : List InnerScope := p.pieces.filterMap Piece.inner?

theorem filter_openings_isTop :
    (p.openings options useStrict).filter (fun o => o.kind.isTop) =
      p.owners.map (Owner.lexicalOpening options useStrict) := by
  have functions (kind : FunctionKind) : kind.scopeKind.isTop = true := by cases kind <;> rfl
  have others (inner : InnerScope) : inner.opening.kind.isTop = false := by cases inner <;> rfl
  have same : (p.pieces.filterMap Piece.owner?).map (Owner.opening options useStrict) =
      (p.pieces.filterMap Piece.owner?).map (Owner.lexicalOpening options useStrict) := by
    refine List.map_congr_left (fun o member => ?_)
    obtain ⟨piece, _, isOwner⟩ := List.mem_filterMap.1 member
    cases piece <;> cases isOwner
    rfl
  rw [openings, List.filter_append, Piece.filter_openings_owners functions others, same, owners,
    List.map_cons]
  cases p <;> rfl

theorem filter_openings_isInner :
    (p.openings options useStrict).filter (fun o => o.kind.isInner) =
      p.innerScopes.map InnerScope.opening := by
  have functions (kind : FunctionKind) : kind.scopeKind.isInner = false := by cases kind <;> rfl
  have others (inner : InnerScope) : inner.opening.kind.isInner = true := by cases inner <;> rfl
  rw [openings, List.filter_append, Piece.filter_openings_inner functions others]
  cases p <;> rfl

/-- What the global scope of a program declares is not lexical. -/
theorem openings_isLexical {o : Opening} (member : o ∈ p.openings options useStrict)
    (global : o.kind = .global) : ∀ d ∈ o.decls, d.kind.isLexical = false := by
  intro d declared
  rcases mem_openings.1 member with outside | ⟨inner, _, rfl⟩ | ⟨around, kind, node, ps, b, _, rfl⟩
  · cases p with
    | script node directives statements =>
      rcases List.mem_pair.1 outside with rfl | rfl
      · exact Owner.hoisted_not_isLexical options useStrict declared
      · cases global
    | module node directives items =>
      rcases List.mem_pair.1 outside with rfl | rfl
      · cases declared
      · cases global
  · cases inner <;> cases global
  · cases kind <;> cases global

/-- Every construct that has a scope has one in the tree that declares exactly what stands directly
in it, and every owner has one for the lexical declarations at its top. There are no others but the
global scope, and it declares nothing lexical. -/
structure KeepsLexicals (p : NumberedProgram) (options : Options) (special : SpecialNames)
    (tree : ScopeTree) : Prop where
  inner : Multiset.Rel
    (fun (i : InnerScope) scope => i.opening.IsExact special.arguments tree scope)
    p.innerScopes (tree.scopesOf ScopeKind.isInner)
  top : Multiset.Rel
    (fun (o : Owner) scope => o.KeepsIn options special.useStrict special.arguments tree scope)
    p.owners (tree.scopesOf ScopeKind.isTop)
  global : ∀ scope ∈ tree.scopes.toList, scope.kind = .global →
    ∀ d ∈ tree.declarationsOf scope, d.kind.isLexical = false

end NumberedProgram

section Analyzed

open Resolution

variable {options : Options} {p : NumberedProgram} {names names' : Interner} {a : Analysis}

/-- A scope that is not global is not the root. -/
theorem id_ne_root_of_analyze (analyzed : p.analyze options names = (.ok a, names'))
    {scope : Scope} (member : scope ∈ a.tree.scopes.toList) (other : scope.kind ≠ .global) :
    scope.id ≠ ScopeId.root := by
  obtain ⟨outline, decls, inner, _, _, tree⟩ := analyze_layOut analyzed
  obtain ⟨root, _, found, kind, _⟩ := State.root_layOut_initial
    #[.start p.isModule p.node.id] .global outline.node none decls inner
  have coherent := State.coherent_layOut_initial #[.start p.isModule p.node.id] .global outline.node
    none decls inner
  rw [tree] at member
  obtain ⟨i, there⟩ := List.getElem?_of_mem member
  rw [Array.getElem?_toList] at there
  intro isRoot
  have first : i = 0 := congrArg ScopeId.index ((coherent.placed i scope there).symm.trans isRoot)
  have same : some root = some scope := by
    rw [← found, ← first]
    exact there
  cases same
  exact other kind

/-- The root apart, the scopes of the tree of a placed program are those of the program, each with
exactly its declarations. -/
theorem rel_isExact_of_isPlaced (placed : p.isPlaced = true)
    (analyzed : p.analyze options names = (.ok a, names')) (keep : ScopeKind → Bool)
    (outer : keep .global = false) :
    Multiset.Rel (fun (o : Opening) scope =>
        o.IsExact (SpecialNames.intern names).1.arguments a.tree scope)
      ((p.openings options (SpecialNames.intern names).1.useStrict).filter (fun o => keep o.kind))
      (a.tree.scopesOf keep) := by
  have kept := rel_filter (f := fun o : Opening => keep o.kind)
    (g := fun scope : Scope => keep scope.kind)
    (fun o scope filled => congrArg keep filled.kind.symm)
    (rel_isFilled_of_isPlaced placed analyzed)
  simp only [Multiset.filter_coe, Bool.decide_eq_true] at kept
  refine kept.mono (fun o _ scope member filled => filled.isExact ?_)
  obtain ⟨inTree, passes⟩ := List.mem_filter.1 (Multiset.mem_coe.1 member)
  refine id_ne_root_of_analyze analyzed inTree (fun global => ?_)
  rw [global, outer] at passes
  cases passes

/-- In every placed program that is analyzed, lexical declarations go to the scope of the list they
stand in and nowhere else. -/
theorem keepsLexicals_of_isPlaced (placed : p.isPlaced = true)
    (analyzed : p.analyze options names = (.ok a, names')) :
    p.KeepsLexicals options (SpecialNames.intern names).1 a.tree where
  inner := by
    have kept := rel_isExact_of_isPlaced placed analyzed ScopeKind.isInner rfl
    rw [NumberedProgram.filter_openings_isInner, ← Multiset.map_coe, Multiset.rel_map_left] at kept
    exact kept
  top := by
    have kept := rel_isExact_of_isPlaced placed analyzed ScopeKind.isTop rfl
    rw [NumberedProgram.filter_openings_isTop, ← Multiset.map_coe, Multiset.rel_map_left] at kept
    refine kept.mono (fun o _ scope _ whole => ⟨whole, fun name => ?_⟩)
    rw [whole.declarations, List.filter_comm, Owner.filter_lexicalOpening]
  global scope member global := by
    obtain ⟨o, asked, opened⟩ := Multiset.exists_mem_of_rel_of_mem
      (Multiset.rel_flip.2 (rel_isScope_of_isPlaced placed analyzed)) (Multiset.mem_coe.2 member)
    intro d declared
    exact p.openings_isLexical _ _ (Multiset.mem_coe.1 asked) (opened.kind.symm.trans global) d
      (opened.declares.mem_iff.1 declared)

end Analyzed

/-- `let a; { const [b, c] = a; class d {} l: function e() {} }`, followed by
`switch (a) { case a: let f; default: class g {} } for (const h of a) ; if (a) function i() {}` and
`try {} catch ([j]) { let k; } function m(n) { let o; }`. -/
def lexicalLists : NumberedProgram × Workbench :=
  let id (name : String) : Ident Span String := ⟨.none, name⟩
  let bare (name : String) : BindingElement Span String :=
    .mk .none .nameFirst (.ident (id name)) none
  let list (kind : VariableKind) (name : String) : Stmt Span String :=
    .decl .none .none kind [bare name]
  let function (name : String) (params : List (BindingElement Span String))
      (statements : List (Stmt Span String)) : Stmt Span String :=
    .function (.mk .none (some (id name)) .none (.mk (some .none) params none)
      (.block .none [] statements))
  let class_ (name : String) : Stmt Span String := .class_ (.mk .none (some (id name)) none [])
  Draft.number (.script .none []
    [list .let_ "a",
      .block .none
        [.decl .none .none .const [.mk .none .nameFirst
          (.array .none [.element (bare "b"), .element (bare "c")] none) (some (.ident (id "a")))],
          class_ "d", .labeled .none "l" (function "e" [] [])],
      .switch .none (.ident (id "a")) .none
        [.mk .none (some (.ident (id "a"))) [list .let_ "f"], .mk .none none [class_ "g"]],
      .forEachDecl .none .values .none .const [bare "h"] (.ident (id "a")) (.empty .none),
      .ifThen .none (.ident (id "a")) (function "i" [] []),
      .tryCatch .none .none []
        (.mk .none (some (.array .none [.element (bare "j")] none)) .none [list .let_ "k"]),
      function "m" [bare "n"] [list .let_ "o"]]) .empty

theorem lexicalLists_keepsLexicals :
    lexicalLists.1.innerScopes.map (fun i => i.opening.decls.map (fun d => d.id.node.id.val)) =
        [[4, 6, 14, 18], [14], [23, 29], [29], [33], [43], [], [45], [48]] ∧
      lexicalLists.1.owners.map (fun o => o.lexicals.map (fun d => d.id.node.id.val)) =
        [[0], [], [], [59]] ∧
      ∃ a names', lexicalLists.1.analyze .default lexicalLists.2.names = (.ok a, names') ∧
        lexicalLists.1.KeepsLexicals .default (SpecialNames.intern lexicalLists.2.names).1
          a.tree := by
  have completed : (lexicalLists.1.analyze .default lexicalLists.2.names).1.isOk = true := by
    decide +kernel
  obtain ⟨a, names', analyzed⟩ := Resolution.exists_of_isOk completed
  exact ⟨by decide +kernel, by decide +kernel, a, names', analyzed,
    keepsLexicals_of_isPlaced (by decide +kernel) analyzed⟩

end ScopeAnalysis
