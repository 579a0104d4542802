import ScopeAnalysis.Proofs.Grammar.FoldNesting

/-!
# What a body declares

The scope of a function declares its parameters and what its body declares. The names of the latter
are those of the declarations among the statements of the body, wherever the grammar admits them or
not, and no name is declared as a parameter there.
-/

namespace ScopeAnalysis

namespace Stmt

mutual

/-- The names of the declarations in a statement, however deeply they are nested in it. What is
inside a function or class is left out. -/
def declared : Stmt Node Name → List Occurrence
  | .decl _ _ _ ds => declaredNames ds
  | .block _ body => declaredAll body
  | .labeled _ _ s => s.declared
  | .ifThen _ _ yes => yes.declared
  | .ifElse _ _ yes no => yes.declared ++ no.declared
  | .forLoop _ _ _ _ s => s.declared
  | .forDecl _ _ _ ds _ _ s => declaredNames ds ++ s.declared
  | .forEach _ _ _ _ s => s.declared
  | .forEachDecl _ _ _ _ ds _ s => declaredNames ds ++ s.declared
  | .whileLoop _ _ s => s.declared
  | .doLoop _ s _ => s.declared
  | .withObject _ _ s => s.declared
  | .switch _ _ _ cs => declaredByClauses cs
  | .tryCatch _ _ body h => declaredAll body ++ declaredByHandler h
  | .tryFinally _ _ body _ finalizer => declaredAll body ++ declaredAll finalizer
  | .tryCatchFinally _ _ body h _ finalizer =>
    declaredAll body ++ (declaredByHandler h ++ declaredAll finalizer)
  | .function (.mk _ name _ _ _) => name.toList
  | .class_ (.mk _ name _ _) => name.toList
  | .expr .. | .empty _ | .debugger _ | .jump .. | .ret .. | .throw .. => []

def declaredAll : List (Stmt Node Name) → List Occurrence
  | [] => []
  | s :: rest => s.declared ++ declaredAll rest

def declaredByClauses : List (Clause Node Name) → List Occurrence
  | [] => []
  | .mk _ _ body :: rest => declaredAll body ++ declaredByClauses rest

def declaredByHandler : Handler Node Name → List Occurrence
  | .mk _ _ _ body => declaredAll body

end

end Stmt

/-- The names of the declarations in a body. -/
def Body.declared : Body Node Name → List Occurrence
  | .block _ _ statements => Stmt.declaredAll statements
  | .concise _ => []

/-- A declaration of one of the given names that is not that of a parameter. -/
def Declaration.IsFrom (ids : List Occurrence) (d : Declaration) : Prop :=
  d.id ∈ ids ∧ d.kind ≠ .parameter

def Hoisted.IsFrom (ids : List Occurrence) (h : Hoisted) : Prop :=
  ∀ d ∈ h.vars ++ h.twins, d.IsFrom ids

theorem Hoisted.isFrom_none (ids : List Occurrence) : Hoisted.none.IsFrom ids := nofun

theorem isFrom_append {ids more : List Occurrence} {ds es : List Declaration}
    (first : ∀ d ∈ ds, d.IsFrom ids) (second : ∀ d ∈ es, d.IsFrom more) :
    ∀ d ∈ ds ++ es, d.IsFrom (ids ++ more) := by
  intro d member
  obtain here | there := List.mem_append.1 member
  · exact ⟨List.mem_append_left more (first d here).1, (first d here).2⟩
  · exact ⟨List.mem_append_right ids (second d there).1, (second d there).2⟩

theorem Hoisted.IsFrom.append {ids more : List Occurrence} {h h' : Hoisted} (first : h.IsFrom ids)
    (second : h'.IsFrom more) : (h.append h').IsFrom (ids ++ more) := by
  obtain ⟨vars, twins⟩ := List.forall_mem_append.1 first
  obtain ⟨vars', twins'⟩ := List.forall_mem_append.1 second
  exact List.forall_mem_append.2 ⟨isFrom_append vars vars', isFrom_append twins twins'⟩

namespace Outline

theorem isFrom_declareAs {kind : DeclarationKind} (other : kind ≠ .parameter)
    (ids : List Occurrence) : ∀ d ∈ declareAs kind ids, d.IsFrom ids := by
  intro d member
  obtain ⟨id, inside, rfl⟩ := List.mem_map.1 member
  exact ⟨inside, other⟩

/-- What is declared where an answer is given has the given names. -/
def From {α : Type} (P : α → Prop) (answer : Answer α) : Prop := ∀ a, answer = .ok a → P a

theorem From.bind {α β : Type} {P : α → Prop} {Q : β → Prop} {answer : Answer α}
    {next : α → Answer β} (first : From P answer) (second : ∀ a, P a → From Q (next a)) :
    From Q (answer >>= next) := by
  intro b answered
  cases answer with
  | error refusal => cases answered
  | ok a => exact second a (first a rfl) b answered

theorem From.ok {α : Type} {P : α → Prop} {a : α} (holds : P a) : From P (.ok a) := by
  intro b answered
  cases answered
  exact holds

theorem From.append {ids more : List Occurrence} {answer answer' : Answer Hoisted}
    (first : From (Hoisted.IsFrom ids) answer) (second : From (Hoisted.IsFrom more) answer') :
    From (Hoisted.IsFrom (ids ++ more)) (do
      let a ← answer
      let b ← answer'
      .ok (a.append b)) :=
  first.bind (fun _ here => second.bind (fun _ there => .ok (here.append there)))

/-- What a statement declares in the list it stands in, and what it leaves to the body around it,
has the given names. -/
structure DeclaresOnly (ids : List Occurrence) (o : Outline) : Prop where
  lexical : ∀ top, From (fun ds => ∀ d ∈ ds, d.IsFrom ids) (o.lexicalDeclarations top)
  hoists : ∀ allowed around top, From (Hoisted.IsFrom ids) (o.hoisted allowed around top)

structure DeclareOnly (ids : List Occurrence) (os : List Outline) : Prop where
  lexical : ∀ top, From (fun ds => ∀ d ∈ ds, d.IsFrom ids) (lexicalDeclarationsAll top os)
  hoists : ∀ allowed around top, From (Hoisted.IsFrom ids) (hoistedAll allowed around top os)

/-- What the clauses of a switch leave to the body around it has the given names. -/
def CasesDeclareOnly (ids : List Occurrence) (cases : List CaseOutline) : Prop :=
  ∀ allowed around, From (Hoisted.IsFrom ids) (hoistedCases allowed around cases)

variable {ids more : List Occurrence} {o o' o'' : Outline} {os : List Outline}

theorem DeclareOnly.nil : DeclareOnly ids [] :=
  ⟨fun _ => .ok nofun, fun _ _ _ => .ok (Hoisted.isFrom_none ids)⟩

theorem DeclaresOnly.cons (first : DeclaresOnly ids o) (rest : DeclareOnly more os) :
    DeclareOnly (ids ++ more) (o :: os) where
  lexical top :=
    (first.lexical top).bind (fun _ here => (rest.lexical top).bind (fun _ there =>
      .ok (isFrom_append here there)))
  hoists allowed around top := (first.hoists allowed around top).append
    (rest.hoists allowed around top)

theorem DeclaresOnly.keep (first : DeclaresOnly ids o) (rest : DeclareOnly more os) :
    DeclareOnly (ids ++ more) (Folding.keep o os) where
  lexical top := by
    rw [lexicalDeclarationsAll_keep]
    exact (first.cons rest).lexical top
  hoists allowed around top := by
    rw [hoistedAll_keep]
    exact (first.cons rest).hoists allowed around top

theorem DeclareOnly.join (all : DeclareOnly ids os) : DeclaresOnly ids (.join os) where
  lexical top := by
    obtain ⟨top', same⟩ := lexicalDeclarations_join top os
    rw [same]
    exact all.lexical top'
  hoists allowed around top := by
    obtain ⟨top', same⟩ := hoisted_join allowed around top os
    rw [same]
    exact all.hoists allowed around top'

theorem DeclaresOnly.join₂ (first : DeclaresOnly ids o) (second : DeclaresOnly more o') :
    DeclaresOnly (ids ++ more) (.join [o, o']) := by
  have none : DeclareOnly [] [] := .nil
  have both := (first.cons (second.cons none)).join
  rwa [List.append_nil] at both

theorem DeclaresOnly.join₃ {others : List Occurrence} (first : DeclaresOnly ids o)
    (second : DeclaresOnly more o') (third : DeclaresOnly others o'') :
    DeclaresOnly (ids ++ (more ++ others)) (.join [o, o', o'']) := by
  have none : DeclareOnly [] [] := .nil
  have all := (first.cons (second.cons (third.cons none))).join
  rwa [List.append_nil] at all

/-- What declares and hoists nothing declares only what it is said to. -/
theorem declaresOnly_of_silent (silent : Silent False o) : DeclaresOnly [] o where
  lexical top ds answered := by
    have none := silent.undeclared top
    rw [answered] at none
    cases none
    exact nofun
  hoists allowed around top h answered := by
    have none := silent.unhoisted allowed around top
    rw [answered] at none
    cases none
    exact Hoisted.isFrom_none []

/-- Statements that declare nothing in the list they stand in. -/
theorem DeclaresOnly.of_hoists (hidden : ∀ top, o.lexicalDeclarations top = .ok [])
    (hoists : ∀ allowed around top, From (Hoisted.IsFrom ids) (o.hoisted allowed around top)) :
    DeclaresOnly ids o :=
  ⟨fun top => hidden top ▸ .ok nofun, hoists⟩

theorem DeclareOnly.block (all : DeclareOnly ids os) (node : Node) (decls : List Declaration) :
    DeclaresOnly ids (.block node decls os) :=
  .of_hoists (fun _ => rfl) (fun allowed around _ => all.hoists allowed (around ++ decls) false)

theorem DeclaresOnly.ifElse (first : DeclaresOnly ids o) (second : DeclaresOnly more o')
    (test : Outline) (yes no : Option LoneFunction) :
    DeclaresOnly (ids ++ more) (.ifElse test yes o no o') :=
  .of_hoists (fun _ => rfl) (fun allowed around _ =>
    (first.hoists allowed around false).append (second.hoists allowed around false))

theorem DeclaresOnly.forLoop {init : Outline} (head : DeclaresOnly ids init)
    (body : DeclaresOnly more o) (node : Node) (decls : List Declaration) (test update : Outline) :
    DeclaresOnly (ids ++ more) (.forLoop node decls init test update o) :=
  .of_hoists (fun _ => rfl) (fun allowed around _ =>
    (head.hoists allowed (around ++ decls) false).append
      (body.hoists allowed (around ++ decls) false))

theorem DeclaresOnly.forEachTarget {head : Outline} (body : DeclaresOnly ids o)
    (target : ∀ kind declarators, head ≠ .decl kind declarators) (node : Node)
    (decls : List Declaration) (collection : Outline) :
    DeclaresOnly ids (.forEach node decls head collection o) := by
  refine .of_hoists (fun _ => rfl) (fun allowed around _ => ?_)
  cases head with
  | decl kind declarators => exact absurd rfl (target kind declarators)
  | _ => exact body.hoists allowed (around ++ decls) false

theorem DeclaresOnly.forEachDecl {kind : VariableKind} {declarators : List DeclaratorOutline}
    (head : DeclaresOnly ids (.decl kind declarators)) (body : DeclaresOnly more o) (node : Node)
    (decls : List Declaration) (collection : Outline) :
    DeclaresOnly (ids ++ more) (.forEach node decls (.decl kind declarators) collection o) :=
  .of_hoists (fun _ => rfl) (fun allowed around _ =>
    (head.hoists allowed around false).append (body.hoists allowed (around ++ decls) false))

theorem DeclaresOnly.withObject (body : DeclaresOnly ids o) (node : Node) (object : Outline) :
    DeclaresOnly ids (.withObject node object o) :=
  .of_hoists (fun _ => rfl) (fun allowed around _ => body.hoists allowed around false)

theorem DeclareOnly.consCase {test : Outline} {cases : List CaseOutline}
    (first : DeclareOnly ids os) (rest : CasesDeclareOnly more cases) :
    CasesDeclareOnly (ids ++ more) (.mk test os :: cases) :=
  fun allowed around => (first.hoists allowed around false).append (rest allowed around)

theorem CasesDeclareOnly.switch {cases : List CaseOutline} (all : CasesDeclareOnly ids cases)
    (node : Node) (decls : List Declaration) (discriminant : Outline) :
    DeclaresOnly ids (.switch node decls discriminant cases) :=
  .of_hoists (fun _ => rfl) (fun allowed around _ => all allowed (around ++ decls))

theorem DeclareOnly.handler (all : DeclareOnly ids os) (node block : Node) (isPattern : Bool)
    (bound : Outline) (decls : List Declaration) :
    DeclaresOnly ids (.handler node isPattern bound block decls os) := by
  refine .of_hoists (fun _ => rfl) (fun allowed around _ => ?_)
  have any (answer : Answer Bound) : From (fun _ => True) answer := fun _ _ => trivial
  rw [hoisted]
  split
  · exact (any bound.boundNames).bind (fun _ _ => all.hoists allowed _ false)
  · exact all.hoists allowed _ false

/-- A declaration declares its names, as `var` or lexically. -/
theorem declaresOnly_decl {declarators : List DeclaratorOutline}
    (names : From (fun ids' => ids' = ids) (declaratorNames declarators)) (kind : VariableKind) :
    DeclaresOnly ids (.decl kind declarators) where
  lexical top := by
    rw [lexicalDeclarations]
    split
    · refine names.bind (fun ids' same => .ok ?_)
      rw [same]
      exact isFrom_declareAs (by cases kind <;> nofun) ids
    · exact .ok nofun
  hoists allowed around top := by
    rw [hoisted, hoistedVars]
    split
    · exact .ok (Hoisted.isFrom_none ids)
    · refine names.bind (fun ids' same => .ok ?_)
      rw [same, Hoisted.IsFrom, List.append_nil]
      exact isFrom_declareAs (by decide) ids

theorem declaresOnly_function (node : Node) (name : Option Occurrence)
    (params : List ParamOutline) (body : BodyOutline) :
    DeclaresOnly name.toList (.function .declaration node name params body) where
  lexical top := by
    rw [lexicalDeclarations]
    split
    · exact .ok (isFrom_declareAs (by decide) _)
    · exact .ok nofun
  hoists allowed around top := by
    cases name with
    | none => exact .ok (Hoisted.isFrom_none _)
    | some id =>
      rw [hoisted]
      split
      · have other : DeclarationKind.functionDeclaration ≠ .parameter := by decide
        exact .ok (isFrom_declareAs other [id])
      · refine .ok (fun d member => ?_)
        rw [List.nil_append, twin] at member
        split at member
        · exact isFrom_declareAs (by decide) [id] d member
        · cases member

theorem declaresOnly_class (node : Node) (isDeclaration : Bool) (name : Option Occurrence)
    (heritage : Outline) (elements : List Outline) :
    DeclaresOnly name.toList (.class_ node isDeclaration name heritage elements) where
  lexical top := by
    rw [lexicalDeclarations]
    split
    · exact .ok (isFrom_declareAs (by decide) _)
    · exact .ok nofun
  hoists _ _ _ := .ok (Hoisted.isFrom_none _)

end Outline

/-- The reading that takes nothing for granted. -/
def Reading.cautious (special : SpecialNames) : Reading :=
  ⟨⟨.default, special.arguments⟩, special, False, False, False, id⟩

theorem Reading.cautious_given (special : SpecialNames) (pieces : List Piece) :
    (Reading.cautious special).Given pieces :=
  fun _ _ => ⟨False.elim, False.elim, False.elim⟩

namespace Folding

open Outline

theorem Returns.of_meets {α : Type} {sound : Prop} {m : Folding α} {P : α → Prop}
    (meets : Meets sound m P) : Returns m P := by
  intro names a returned
  have here := meets names
  rwa [returned] at here

variable {special : SpecialNames}

theorem silent_expr (e : Expr Node Name) : Returns (expr special e) (Silent False) :=
  (Returns.of_meets (meets_expr (R := .cautious special) [] e (Reading.cautious_given _ _))).imp
    (fun _ value => value.silent)

theorem silent_optExpr (e : Option (Expr Node Name)) :
    Returns (optExpr special e) (Silent False) := by
  cases e with
  | none => exact .pure .nothing
  | some e => exact silent_expr e

theorem silent_target (t : Target Node Name) : Returns (target special t) (Silent False) :=
  (Returns.of_meets (meets_target (R := .cautious special) [] t (Reading.cautious_given _ _))).imp
    (fun _ target => target.writes.silent)

theorem declares_declarators (kind : VariableKind) (ds : List (BindingElement Node Name)) :
    Returns (declarators special ds)
      (fun os => DeclaresOnly (declaredNames ds) (.decl kind os)) :=
  (Returns.of_meets
    (meets_declarators (R := .cautious special) [] ds (Reading.cautious_given _ _))).imp
      (fun os declares => declaresOnly_decl (fun ids answered => by
        have names := declares.names
        rwa [answered] at names) kind)

/-- An expression that stands as a statement or in one declares nothing. -/
theorem declares_value {m : Folding Outline} (silent : Returns m (Silent False)) :
    Returns m (DeclaresOnly []) :=
  silent.imp (fun _ => declaresOnly_of_silent)

theorem declares_block {ids : List Occurrence} {os : List Outline} (all : DeclareOnly ids os)
    (node : Node) : Returns (block node os) (DeclaresOnly ids) :=
  (Returns.any _).bind (fun decls _ => .pure (all.block node decls))

mutual

theorem declares_stmt : ∀ s : Stmt Node Name,
    Returns (stmt special s) (DeclaresOnly s.declared)
  | .expr _ value => declares_value (silent_expr value)
  | .decl _ _ kind ds => (declares_declarators kind ds).bind (fun _ declares => .pure declares)
  | .block node statements =>
    (declares_stmts statements).bind (fun _ all => declares_block all node)
  | .empty _ | .debugger _ | .jump _ _ _ => .pure (declaresOnly_of_silent .nothing)
  | .labeled _ _ s => declares_stmt s
  | .ifThen _ test yes =>
    (Returns.any _).bind (fun test _ =>
      (declares_stmt yes).bind (fun _ first => .pure (by
        have both := first.ifElse (declaresOnly_of_silent .nothing) test (loneFunction yes) none
        rwa [List.append_nil] at both)))
  | .ifElse _ test yes no =>
    (Returns.any _).bind (fun _ _ =>
      (declares_stmt yes).bind (fun _ first =>
        (declares_stmt no).bind (fun _ second => .pure (first.ifElse second ..))))
  | .forLoop _ init test step s =>
    (silent_optExpr init).bind (fun _ head =>
      (Returns.any _).bind (fun _ _ =>
        (Returns.any _).bind (fun _ _ =>
          (Returns.any _).bind (fun _ _ =>
            (declares_stmt s).bind (fun _ body =>
              .pure ((declaresOnly_of_silent head).forLoop body ..))))))
  | .forDecl _ _ kind ds test step s =>
    (declares_declarators kind ds).bind (fun _ head =>
      (Returns.any _).bind (fun _ _ =>
        (Returns.any _).bind (fun _ _ =>
          (Returns.any _).bind (fun _ _ =>
            (declares_stmt s).bind (fun _ body => .pure (head.forLoop body ..))))))
  | .forEach _ _ t collection s =>
    (silent_target t).bind (fun _ head =>
      (Returns.any _).bind (fun _ _ =>
        (declares_stmt s).bind (fun _ body => .pure (body.forEachTarget head.other ..))))
  | .forEachDecl _ _ _ kind ds collection s =>
    (declares_declarators kind ds).bind (fun _ head =>
      (Returns.any _).bind (fun _ _ =>
        (Returns.any _).bind (fun _ _ =>
          (declares_stmt s).bind (fun _ body => .pure (head.forEachDecl body ..)))))
  | .whileLoop _ test s =>
    (silent_expr test).bind (fun _ head =>
      (declares_stmt s).bind (fun _ body => .pure ((declaresOnly_of_silent head).join₂ body)))
  | .doLoop _ s test =>
    (declares_stmt s).bind (fun _ body =>
      (silent_expr test).bind (fun _ last => .pure (by
        have both := body.join₂ (declaresOnly_of_silent last)
        rwa [List.append_nil] at both)))
  | .ret _ value => declares_value (silent_optExpr value)
  | .throw _ value => declares_value (silent_expr value)
  | .withObject _ _ s =>
    (Returns.any _).bind (fun _ _ =>
      (declares_stmt s).bind (fun _ body => .pure (body.withObject ..)))
  | .switch _ _ _ cs =>
    (declares_clauses cs).bind (fun _ all =>
      (Returns.any _).bind (fun _ _ => .pure (all.switch ..)))
  | .tryCatch _ blockNode statements h =>
    (declares_stmts statements).bind (fun _ all =>
      (declares_block all blockNode).bind (fun _ first =>
        (declares_handler h).bind (fun _ second => .pure (first.join₂ second))))
  | .tryFinally _ blockNode statements last finalizer =>
    (declares_stmts statements).bind (fun _ all =>
      (declares_block all blockNode).bind (fun _ first =>
        (declares_stmts finalizer).bind (fun _ all' =>
          (declares_block all' last).bind (fun _ third => .pure (first.join₂ third)))))
  | .tryCatchFinally _ blockNode statements h last finalizer =>
    (declares_stmts statements).bind (fun _ all =>
      (declares_block all blockNode).bind (fun _ first =>
        (declares_handler h).bind (fun _ second =>
          (declares_stmts finalizer).bind (fun _ all' =>
            (declares_block all' last).bind (fun _ third =>
              .pure (first.join₃ second third))))))
  | .function (.mk node name _ _ _) =>
    (Returns.any _).bind (fun _ _ =>
      (Returns.any _).bind (fun _ _ => .pure (declaresOnly_function node name _ _)))
  | .class_ (.mk node name _ _) =>
    (Returns.any _).bind (fun _ _ =>
      (Returns.any _).bind (fun _ _ => .pure (declaresOnly_class node true name _ _)))

theorem declares_stmts : ∀ ss : List (Stmt Node Name),
    Returns (stmts special ss) (DeclareOnly (Stmt.declaredAll ss))
  | [] => .pure .nil
  | s :: rest =>
    (declares_stmt s).bind (fun _ first =>
      (declares_stmts rest).bind (fun _ others => .pure (first.keep others)))

theorem declares_handler : ∀ h : Handler Node Name,
    Returns (handler special h) (DeclaresOnly (Stmt.declaredByHandler h))
  | .mk _ _ _ statements =>
    (Returns.any _).bind (fun _ _ =>
      (declares_stmts statements).bind (fun _ all =>
        (Returns.any _).bind (fun _ _ => .pure (all.handler ..))))

theorem declares_clauses : ∀ cs : List (Clause Node Name), Returns (clauses special cs)
    (fun found => CasesDeclareOnly (Stmt.declaredByClauses cs) found.1)
  | [] => .pure (fun _ _ => .ok (Hoisted.isFrom_none _))
  | .mk _ _ statements :: rest =>
    (Returns.any _).bind (fun _ _ =>
      (declares_clauseStmts statements).bind (fun _ all =>
        (declares_clauses rest).bind (fun _ others => .pure (all.consCase others))))

theorem declares_clauseStmts : ∀ ss : List (Stmt Node Name), Returns (clauseStmts special ss)
    (fun found => DeclareOnly (Stmt.declaredAll ss) found.1)
  | [] => .pure .nil
  | s :: rest =>
    (declares_stmt s).bind (fun _ first =>
      (Returns.any _).bind (fun _ _ =>
        (declares_clauseStmts rest).bind (fun _ others => .pure (first.keep others))))

end

end Folding

/-- The outline of a body declares what the body does, and nothing as a parameter. -/
def BodyOutline.DeclaresOnly (ids : List Occurrence) : BodyOutline → Prop
  | .concise _ => True
  | .block _ decls statements => (∀ d ∈ decls, d.IsFrom ids) ∧ Outline.DeclareOnly ids statements

theorem Folding.declares_body {special : SpecialNames} (b : Body Node Name) :
    Returns (body special b) (BodyOutline.DeclaresOnly b.declared) := by
  cases b with
  | concise value => exact (Returns.any _).bind (fun _ _ => .pure trivial)
  | block node directives statements =>
    refine (declares_stmts statements).bind (fun os all => (Returns.answer _).bind
      (fun decls answered => .pure ⟨?_, all⟩))
    exact all.lexical true decls answered

end ScopeAnalysis
