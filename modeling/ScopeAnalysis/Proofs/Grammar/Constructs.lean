import Mathlib.Algebra.Order.Group.Multiset
import Mathlib.Tactic.Abel
import ScopeAnalysis.Proofs.Grammar.Statements

/-!
# Statements that contain others

For each construct that opens a scope or contains statements: if the outlines of its parts play
their roles, so does the outline of the whole.
-/

namespace ScopeAnalysis

open Resolution

namespace Reading

variable (R : Reading) (strict : Bool)

/-- The outlines of the declarators of one declaration. -/
structure Declares (ds : List (BindingElement Node Name)) (os : List DeclaratorOutline)
    (pieces : List Piece) : Prop where
  names : Answers R.sound (Outline.declaratorNames os) (fun ids => ids = declaredNames ds)
  course : R.Completes (.ofDeclarators R.setting strict os) pieces

/-- The outlines of the clauses of a switch, with the declarations of all of them. -/
structure Cases (cs : List (Clause Node Name)) (os : List CaseOutline) (decls : List Declaration)
    (pieces : List Piece) : Prop where
  lexical : R.placed → decls = clauseLexicals cs
  hoists : ∀ allowed around, Answers R.sound (Outline.hoistedCases allowed around os)
    (fun h => R.placed →
      h = .inner allowed (Stmt.varsOfClauses cs) (Stmt.nestedInClauses around cs))
  course : R.Completes (.ofCases R.setting strict os) pieces

variable {R strict} {o o' o'' : Outline} {os : List Outline} {pieces pieces' pieces'' : List Piece}
  {names : List Occurrence} {evaluates : Bool} {vars : List Occurrence}
  {s s' : Stmt Node Name} {ss : List (Stmt Node Name)} {decls lexicals : List Declaration}
  {ds : List (BindingElement Node Name)} {dos : List DeclaratorOutline}

namespace Declares

theorem nil : R.Declares strict [] [] [] := ⟨rfl, .done⟩

/-- A declarator writes its names if it has an initial value. -/
theorem cons {node : Node} {order : ElementOrder} {b : Binding Node Name}
    {init : Option (Expr Node Name)} (binds : R.Binds strict o b.names evaluates pieces)
    (value : R.Value strict o' pieces') (others : R.Declares strict ds dos pieces'') :
    R.Declares strict (.mk node order b init :: ds) (.mk o init.isSome o' :: dos)
      ((if init.isSome then b.names.map (fun id => .use id .write) else []) ++
        (pieces ++ (pieces' ++ pieces''))) where
  names := by
    refine binds.bound.bind (fun bound here => others.names.bind (fun ids further => ?_))
    rw [declaredNames, List.flatMap_cons, BindingElement.names, ← here.1, further]
    rfl
  course := by
    rw [Course.ofDeclarators]
    refine Completes.andThen ?_ (binds.course.andThen (value.course.andThen others.course))
    split
    · refine Completes.asking binds.bound (fun bound here => ?_)
      exact .useAll (fun _ => ⟨rfl, here.1⟩)
    · exact .done

theorem perm (declares : R.Declares strict ds dos pieces) (same : pieces.Perm pieces') :
    R.Declares strict ds dos pieces' :=
  ⟨declares.names, declares.course.perm same⟩

theorem hoistedVars (declares : R.Declares strict ds dos pieces) (kind : VariableKind)
    (allowed : Bool) : Answers R.sound (Outline.hoistedVars kind dos)
      (fun h => h = .inner allowed (varNames kind ds) []) := by
  unfold Outline.hoistedVars varNames
  split
  · exact (Hoisted.inner_nil allowed).symm
  · refine declares.names.bind (fun ids here => ?_)
    rw [here]
    cases allowed <;> rfl

theorem lexicalDeclarations (declares : R.Declares strict ds dos pieces) (kind : VariableKind)
    (top : Bool) : Answers R.sound ((Outline.decl kind dos).lexicalDeclarations top)
      (fun found => found = lexicalNames kind ds) := by
  rw [Outline.lexicalDeclarations, lexicalNames]
  split
  · refine declares.names.bind (fun ids here => ?_)
    rw [here]
    rfl
  · rfl

/-- The declaration in the head of a loop. -/
theorem head {kind : VariableKind} (declares : R.Declares strict ds dos pieces) :
    R.Stands strict (fun _ => lexicalNames kind ds)
      (fun allowed _ _ => .inner allowed (varNames kind ds) []) (.decl kind dos) pieces where
  lexical top := (declares.lexicalDeclarations kind top).imp (fun _ here _ => here)
  hoists allowed around top := by
    rw [Outline.hoisted]
    exact (declares.hoistedVars kind allowed).imp (fun _ here _ => here)
  course := by
    rw [Course.ofOutline]
    exact declares.course

theorem statement {node list : Node} {kind : VariableKind}
    (declares : R.Declares strict ds dos pieces) :
    R.Statement strict (.decl node list kind ds) (.decl kind dos) pieces := by
  refine declares.head.congr (fun _ _ => rfl) (fun _ allowed around top => ?_)
  rw [Stmt.hoisted_of_functions rfl]
  rfl

end Declares

namespace Still

/-- A block takes its own declarations out of what is around it. -/
theorem block {node : Node} (all : R.Statements strict ss os pieces)
    (same : R.placed → decls = ss.flatMap (Stmt.lexicals false)) :
    R.Still strict (Stmt.varsAll ss)
      (fun rivals => Stmt.nestedAll false (rivals ++ ss.flatMap (Stmt.lexicals false)) ss)
      (.block node decls os) (.scope (.block node ss) :: pieces) where
  lexical _ _ := rfl
  hoists allowed around top := by
    rw [Outline.hoisted]
    refine (all.hoists allowed (around ++ decls) false).imp (fun h here placed => ?_)
    rw [here placed, Stmt.hoistedAll_false, same placed]
  course := by
    rw [Course.ofOutline]
    exact .scope rfl (fun placed => (same placed).symm) all.course

/-- The clause of an `if` has a scope of its own if it is a function. -/
theorem completes_aroundLone (stands : R.Statement strict s o pieces) :
    R.Completes (.aroundLone (Folding.loneFunction s) (.ofOutline R.setting strict o))
      (.stands .clause s :: (Piece.ofClause s ++ pieces)) := by
  refine Completes.cons_mute rfl rfl ?_
  unfold Piece.ofClause
  cases Folding.loneFunction s with
  | none => exact stands.course
  | some f => exact .scope rfl (fun _ => rfl) stands.course

theorem ifElse {test : Outline} (value : R.Value strict test pieces)
    (yes : R.Statement strict s o pieces') (no : R.Statement strict s' o' pieces'') :
    R.Still strict (s.vars ++ s'.vars)
      (fun rivals => s.nested false rivals ++ s'.nested false rivals)
      (.ifElse test (Folding.loneFunction s) o (Folding.loneFunction s') o')
      (pieces ++ (.stands .clause s :: (Piece.ofClause s ++ pieces') ++
        .stands .clause s' :: (Piece.ofClause s' ++ pieces''))) where
  lexical _ _ := rfl
  hoists allowed around top := by
    rw [Outline.hoisted]
    refine (yes.hoists allowed around false).bind (fun h here =>
      (no.hoists allowed around false).bind (fun h' further placed => ?_))
    rw [here placed, further placed, Stmt.hoisted_false, Stmt.hoisted_false, Hoisted.inner_append]
  course := by
    rw [Course.ofOutline]
    exact value.course.andThen ((completes_aroundLone yes).andThen (completes_aroundLone no))

theorem ifThen {test : Outline} (value : R.Value strict test pieces)
    (yes : R.Statement strict s o pieces') :
    R.Still strict s.vars (fun rivals => s.nested false rivals)
      (.ifElse test (Folding.loneFunction s) o none .nothing)
      (pieces ++ (.stands .clause s :: (Piece.ofClause s ++ pieces'))) where
  lexical _ _ := rfl
  hoists allowed around top := by
    rw [Outline.hoisted]
    refine (yes.hoists allowed around false).bind (fun h here placed => ?_)
    rw [here placed, Stmt.hoisted_false, ← Hoisted.inner_nil allowed, Hoisted.inner_append,
      List.append_nil, List.append_nil]
  course := by
    rw [Course.ofOutline, Course.aroundLone, Course.ofOutline, Course.andThen_done]
    exact value.course.andThen (completes_aroundLone yes)

/-- A loop with a head that may declare names. -/
theorem forLoop {node : Node} {asked : InnerScope} {init test update : Outline}
    {initPieces testPieces : List Piece} (shape : asked.opening.shape = (.block, node, false))
    (head : R.Stands strict (fun _ => asked.opening.decls)
      (fun allowed _ _ => .inner allowed vars []) init initPieces)
    (same : R.placed → decls = asked.opening.decls) (condition : R.Value strict test testPieces)
    (step : R.Value strict update pieces') (stands : R.Statement strict s o pieces) :
    R.Still strict (vars ++ s.vars) (fun rivals => s.nested false (rivals ++ asked.opening.decls))
      (.forLoop node decls init test update o)
      (.scope asked :: (initPieces ++ (testPieces ++
        (pieces' ++ .stands .body s :: pieces)))) where
  lexical _ _ := rfl
  hoists allowed around top := by
    rw [Outline.hoisted]
    refine (head.hoists allowed (around ++ decls) false).bind (fun h here =>
      (stands.hoists allowed (around ++ decls) false).bind (fun h' further placed => ?_))
    rw [here placed, further placed, Stmt.hoisted_false, Hoisted.inner_append, same placed]
    rfl
  course := by
    rw [Course.ofOutline]
    refine .scope shape (fun placed => (same placed).symm) (head.course.andThen
      (condition.course.andThen (step.course.andThen ?_)))
    exact Completes.cons_mute rfl rfl stands.course

/-- A loop over a collection that writes a target. -/
theorem forEachTarget {node : Node} {head collection : Outline} {headPieces : List Piece}
    (writes : R.Writes strict head names headPieces) (value : R.Value strict collection pieces')
    (stands : R.Statement strict s o pieces) :
    R.Still strict s.vars (fun rivals => s.nested false rivals)
      (.forEach node [] head collection o)
      (.scope (.loop node) :: (names.map (fun id => .use id .write) ++ (headPieces ++
        (pieces' ++ .stands .body s :: pieces)))) where
  lexical _ _ := rfl
  hoists allowed around top := by
    have plain : (Outline.forEach node [] head collection o).hoisted allowed around top =
        o.hoisted allowed (around ++ []) false := by
      have other := writes.silent.other
      cases head <;> first | rfl | exact absurd rfl (other _ _)
    rw [plain, List.append_nil]
    exact (stands.hoists allowed around false).imp (fun h here placed => here placed)
  course := by
    have plain : Course.headWrites head = .asking head.writtenNames (.useAll .write) := by
      have other := writes.silent.other
      cases head <;> first | rfl | exact absurd rfl (other _ _)
    rw [Course.ofOutline, plain]
    refine .scope rfl (fun _ => rfl) (Completes.andThen ?_ (writes.course.andThen
      (value.course.andThen (Completes.cons_mute rfl rfl stands.course))))
    refine Completes.asking writes.written (fun ids here => ?_)
    exact .useAll (fun plain => ⟨rfl, here (R.sound_of_plain plain)⟩)

/-- A loop over a collection that declares names in its head. -/
theorem forEachDecl {node : Node} {kind : VariableKind} {collection : Outline}
    {headPieces : List Piece} (declares : R.Declares strict ds dos headPieces)
    (same : R.placed → decls = lexicalNames kind ds) (value : R.Value strict collection pieces')
    (stands : R.Statement strict s o pieces) :
    R.Still strict (varNames kind ds ++ s.vars)
      (fun rivals => s.nested false (rivals ++ lexicalNames kind ds))
      (.forEach node decls (.decl kind dos) collection o)
      (.scope (.declLoop node kind ds) :: ((declaredNames ds).map (fun id => .use id .write) ++
        (headPieces ++ (pieces' ++ .stands .body s :: pieces)))) where
  lexical _ _ := rfl
  hoists allowed around top := by
    rw [Outline.hoisted]
    refine (declares.hoistedVars kind allowed).bind (fun h here =>
      (stands.hoists allowed (around ++ decls) false).bind (fun h' further placed => ?_))
    rw [here, further placed, Stmt.hoisted_false, Hoisted.inner_append, same placed]
    rfl
  course := by
    rw [Course.ofOutline, Course.headWrites, Course.ofOutline]
    refine .scope rfl (fun placed => (same placed).symm) (Completes.andThen ?_
      (declares.course.andThen (value.course.andThen
        (Completes.cons_mute rfl rfl stands.course))))
    refine Completes.asking declares.names (fun ids here => ?_)
    exact .useAll (fun _ => ⟨rfl, here⟩)

theorem withObject {node : Node} {object : Outline} (value : R.Value strict object pieces)
    (stands : R.Statement strict s o pieces') :
    R.Still strict s.vars (fun rivals => s.nested false rivals) (.withObject node object o)
      (pieces ++ (.scope (.with_ node) :: .stands .body s :: pieces')) where
  lexical _ _ := rfl
  hoists allowed around top := by
    rw [Outline.hoisted]
    exact (stands.hoists allowed around false).imp (fun h here placed => here placed)
  course := by
    have notice : R.Completes ⟨[.withStatement], .ok ()⟩ [] :=
      ⟨rfl, fun _ => rfl, fun _ => rfl, fun _ member => absurd member List.not_mem_nil⟩
    rw [Course.ofOutline]
    refine value.course.andThen (.scope rfl (fun _ => rfl) ?_)
    exact notice.andThen (Completes.cons_mute rfl rfl stands.course)

theorem switch {node : Node} {discriminant : Outline} {cs : List (Clause Node Name)}
    {cases : List CaseOutline} (value : R.Value strict discriminant pieces)
    (all : R.Cases strict cs cases decls pieces') :
    R.Still strict (Stmt.varsOfClauses cs)
      (fun rivals => Stmt.nestedInClauses (rivals ++ clauseLexicals cs) cs)
      (.switch node decls discriminant cases)
      (pieces ++ (.scope (.switch node cs) :: pieces')) where
  lexical _ _ := rfl
  hoists allowed around top := by
    rw [Outline.hoisted]
    refine (all.hoists allowed (around ++ decls)).imp (fun h here placed => ?_)
    rw [here placed, all.lexical placed]
  course := by
    rw [Course.ofOutline]
    exact value.course.andThen (.scope rfl (fun placed => (all.lexical placed).symm) all.course)

/-- A catch clause. Only the names of a pattern stand in the way of functions in its block. -/
theorem handler {node blockNode : Node} {b : Option (Binding Node Name)}
    (binds : R.Binds strict o (Binding.optNames b) evaluates pieces)
    (all : R.Statements strict ss os pieces')
    (same : R.placed → decls = ss.flatMap (Stmt.lexicals false)) :
    R.Still strict (Stmt.varsAll ss)
      (fun rivals => Stmt.nestedAll false
        (rivals ++ Handler.patternNames b ++ ss.flatMap (Stmt.lexicals false)) ss)
      (.handler node (b.any Folding.isPattern) o blockNode decls os)
      (.scope (.catch_ node b) ::
        (pieces ++ .scope (.block blockNode ss) :: pieces')) where
  lexical _ _ := rfl
  hoists allowed around top := by
    have inside (found : List Occurrence)
        (pattern : Outline.declareAs .catch_ found = Handler.patternNames b) :
        Answers R.sound (Outline.hoistedAll allowed
            (around ++ Outline.declareAs .catch_ found ++ decls) false os)
          (fun h => R.placed → h = .inner allowed (Stmt.varsAll ss) (Stmt.nestedAll false
            (around ++ Handler.patternNames b ++ ss.flatMap (Stmt.lexicals false)) ss)) := by
      refine (all.hoists allowed _ false).imp (fun h here placed => ?_)
      rw [here placed, Stmt.hoistedAll_false, pattern, same placed]
    rw [Outline.hoisted]
    cases b with
    | none => exact inside [] rfl
    | some b =>
      cases b with
      | ident _ => exact inside [] rfl
      | array =>
        exact binds.bound.bind (fun found here => inside found.names (by rw [here.1]; rfl))
      | object =>
        exact binds.bound.bind (fun found here => inside found.names (by rw [here.1]; rfl))
  course := by
    rw [Course.ofOutline]
    have bound := binds.bound
    split
    next refusal refused =>
      rw [refused] at bound
      exact bound
    next found answered =>
      rw [answered] at bound
      refine .scope rfl (fun _ => congrArg (Outline.declareAs .catchParameter) bound.1.symm)
        (binds.course.andThen ?_)
      exact .scope rfl (fun placed => (same placed).symm) all.course

end Still

namespace Cases

theorem nil : R.Cases strict [] [] [] [] where
  lexical _ := rfl
  hoists allowed _ _ := (Hoisted.inner_nil allowed).symm
  course := .done

theorem cons {node : Node} {test : Option (Expr Node Name)} {cs : List (Clause Node Name)}
    {cases : List CaseOutline} {others : List Declaration}
    (value : R.Value strict o pieces) (all : R.Statements strict ss os pieces')
    (same : R.placed → decls = ss.flatMap (Stmt.lexicals false))
    (further : R.Cases strict cs cases others pieces'') :
    R.Cases strict (.mk node test ss :: cs) (.mk o os :: cases) (decls ++ others)
      (pieces ++ (pieces' ++ pieces'')) where
  lexical placed := by rw [same placed, further.lexical placed, clauseLexicals]
  hoists allowed around := by
    rw [Outline.hoistedCases]
    refine (all.hoists allowed around false).bind (fun h here =>
      (further.hoists allowed around).bind (fun h' more placed => ?_))
    rw [here placed, more placed, Stmt.hoistedAll_false, Hoisted.inner_append]
    rfl
  course := by
    rw [Course.ofCases]
    exact value.course.andThen (all.course.andThen further.course)

end Cases

end Reading

end ScopeAnalysis
