import ScopeAnalysis.Proofs.Grammar.Roles

/-!
# The role of statements

A statement has lexical declarations for the list it stands in, and names that the script, module
or function around it owns. Outside the top of a script, module or function only `var` names and
nested functions are left of a statement, and a statement that declares nothing where it stands
leaves the same at the top: it is still.
-/

namespace ScopeAnalysis

open Resolution

namespace Hoisted

/-- What a body owns of a statement that does not stand at its top. -/
def inner (allowed : Bool) (vars : List Occurrence) (fs : List NestedFunction) : Hoisted :=
  ⟨Outline.declareAs .var vars, promote allowed fs⟩

end Hoisted

theorem promote_append (allowed : Bool) (fs gs : List NestedFunction) :
    promote allowed (fs ++ gs) = promote allowed fs ++ promote allowed gs := by
  cases allowed <;> simp [promote, Outline.declareAs]

theorem Hoisted.inner_append (allowed : Bool) (vars vars' : List Occurrence)
    (fs fs' : List NestedFunction) :
    (Hoisted.inner allowed vars fs).append (.inner allowed vars' fs') =
      .inner allowed (vars ++ vars') (fs ++ fs') := by
  simp [Hoisted.inner, Hoisted.append, promote_append, Outline.declareAs]

theorem Hoisted.inner_nil (allowed : Bool) : Hoisted.inner allowed [] [] = .none := by
  cases allowed <;> rfl

/-- A nested function has a twin if no rival is around it. -/
theorem twin_eq_promote (allowed : Bool) (around : List Declaration) (id : Occurrence) :
    Outline.twin allowed around id = promote allowed [⟨id, around⟩] := by
  have same : around.any (fun d => d.blocks id) = NestedFunction.isRivalled ⟨id, around⟩ := by
    simp only [NestedFunction.isRivalled, Declaration.blocks]
    congr 1
    funext d
    by_cases name : d.id.name = id.name <;> by_cases node : d.id.node.id = id.node.id <;>
      simp [name, node]
  rw [Outline.twin, same]
  cases allowed with
  | false => rfl
  | true =>
    by_cases rivalled : NestedFunction.isRivalled ⟨id, around⟩ = true <;>
      simp [promote, rivalled, Outline.declareAs]

namespace Stmt

theorem hoisted_false (allowed : Bool) (rivals : List Declaration) (s : Stmt Node Name) :
    s.hoisted allowed rivals false = .inner allowed s.vars (s.nested false rivals) := rfl

theorem hoisted_of_functions {s : Stmt Node Name} (none : s.functions = []) (allowed : Bool)
    (rivals : List Declaration) (top : Bool) :
    s.hoisted allowed rivals top = .inner allowed s.vars (s.nested top rivals) := by
  rw [hoisted, none]
  cases top <;> rfl

/-- What a body owns of a list of statements. -/
def hoistedAll (allowed : Bool) (rivals : List Declaration) (top : Bool) :
    List (Stmt Node Name) → Hoisted
  | [] => .none
  | s :: rest => (s.hoisted allowed rivals top).append (hoistedAll allowed rivals top rest)

theorem hoistedAll_false (allowed : Bool) (rivals : List Declaration)
    (ss : List (Stmt Node Name)) :
    hoistedAll allowed rivals false ss =
      .inner allowed (varsAll ss) (nestedAll false rivals ss) := by
  induction ss with
  | nil => exact (Hoisted.inner_nil allowed).symm
  | cons s rest ih => rw [hoistedAll, ih, hoisted_false, Hoisted.inner_append, varsAll, nestedAll]

/-! A free statement declares nothing where it stands. -/

theorem lexicals_of_isFree (top : Bool) (s : Stmt Node Name) (free : s.isFree = true) :
    s.lexicals top = [] := by
  fun_induction Stmt.isFree s with
  | case1 => simp_all [lexicals, lexicalNames]
  | case2 => cases free
  | case3 => cases free
  | case4 _ _ s ih => exact ih free
  | case5 s decl => cases s <;> first | rfl | exact (decl _ _ _ _ rfl).elim | simp_all

theorem functions_of_isFree (s : Stmt Node Name) (free : s.isFree = true) : s.functions = [] := by
  fun_induction Stmt.isFree s with
  | case1 => rfl
  | case2 => cases free
  | case3 => cases free
  | case4 _ _ s ih => exact ih free
  | case5 s => cases s <;> first | rfl | simp_all

theorem nested_of_isFree (top : Bool) (rivals : List Declaration) (s : Stmt Node Name)
    (free : s.isFree = true) : s.nested top rivals = s.nested false rivals := by
  fun_induction Stmt.isFree s with
  | case1 => rfl
  | case2 => cases free
  | case3 => cases free
  | case4 _ _ s ih => exact ih free
  | case5 s => cases s <;> first | rfl | simp_all

end Stmt

namespace Reading

variable (R : Reading) (strict : Bool)

/-- An outline in the place of a statement. -/
structure Stands (lexicals : Bool → List Declaration)
    (hoisted : Bool → List Declaration → Bool → Hoisted) (o : Outline) (pieces : List Piece) :
    Prop where
  lexical : ∀ top, Answers R.sound (o.lexicalDeclarations top)
    (fun ds => R.placed → ds = lexicals top)
  hoists : ∀ allowed around top, Answers R.sound (o.hoisted allowed around top)
    (fun h => R.placed → h = hoisted allowed around top)
  course : R.Completes (.ofOutline R.setting strict o) pieces

structure StandsAll (lexicals : Bool → List Declaration)
    (hoisted : Bool → List Declaration → Bool → Hoisted) (os : List Outline)
    (pieces : List Piece) : Prop where
  lexical : ∀ top, Answers R.sound (Outline.lexicalDeclarationsAll top os)
    (fun ds => R.placed → ds = lexicals top)
  hoists : ∀ allowed around top, Answers R.sound (Outline.hoistedAll allowed around top os)
    (fun h => R.placed → h = hoisted allowed around top)
  course : R.Completes (.ofAll R.setting strict os) pieces

/-- The outline of a statement. -/
abbrev Statement (s : Stmt Node Name) (o : Outline) (pieces : List Piece) : Prop :=
  R.Stands strict (fun top => s.lexicals top)
    (fun allowed around top => s.hoisted allowed around top) o pieces

/-- The outlines of a list of statements. -/
abbrev Statements (ss : List (Stmt Node Name)) (os : List Outline) (pieces : List Piece) : Prop :=
  R.StandsAll strict (fun top => ss.flatMap (Stmt.lexicals top))
    (fun allowed around top => Stmt.hoistedAll allowed around top ss) os pieces

/-- An outline that leaves nothing but `var` names and nested functions, at the top as well as
elsewhere. -/
abbrev Still (vars : List Occurrence) (nested : List Declaration → List NestedFunction)
    (o : Outline) (pieces : List Piece) : Prop :=
  R.Stands strict (fun _ => []) (fun allowed around _ => .inner allowed vars (nested around)) o
    pieces

abbrev StillAll (vars : List Occurrence) (nested : List Declaration → List NestedFunction)
    (os : List Outline) (pieces : List Piece) : Prop :=
  R.StandsAll strict (fun _ => []) (fun allowed around _ => .inner allowed vars (nested around)) os
    pieces

variable {R strict} {o o' o'' : Outline} {os : List Outline} {pieces pieces' pieces'' : List Piece}
  {vars vars' vars'' : List Occurrence}
  {nested nested' nested'' : List Declaration → List NestedFunction}
  {s : Stmt Node Name} {ss : List (Stmt Node Name)}

theorem Stands.congr {lexicals lexicals' : Bool → List Declaration}
    {hoisted hoisted' : Bool → List Declaration → Bool → Hoisted}
    (stands : R.Stands strict lexicals hoisted o pieces)
    (sameLexicals : R.placed → ∀ top, lexicals top = lexicals' top)
    (sameHoisted : R.placed → ∀ allowed around top,
      hoisted allowed around top = hoisted' allowed around top) :
    R.Stands strict lexicals' hoisted' o pieces where
  lexical top := (stands.lexical top).imp
    (fun _ here placed => (here placed).trans (sameLexicals placed top))
  hoists allowed around top := (stands.hoists allowed around top).imp
    (fun _ here placed => (here placed).trans (sameHoisted placed allowed around top))
  course := stands.course

/-- A piece that only says where a statement stands. -/
theorem Stands.cons_stands {lexicals : Bool → List Declaration}
    {hoisted : Bool → List Declaration → Bool → Hoisted} (position : Position)
    (s : Stmt Node Name) (stands : R.Stands strict lexicals hoisted o pieces) :
    R.Stands strict lexicals hoisted o (.stands position s :: pieces) :=
  ⟨stands.lexical, stands.hoists, stands.course.cons_mute rfl rfl⟩

/-- An outline in front of others. If nothing is left of it, it drops out. -/
theorem Stands.keep {lexicals lexicals' : Bool → List Declaration}
    {hoisted hoisted' : Bool → List Declaration → Bool → Hoisted}
    (stands : R.Stands strict lexicals hoisted o pieces)
    (others : R.StandsAll strict lexicals' hoisted' os pieces') :
    R.StandsAll strict (fun top => lexicals top ++ lexicals' top)
      (fun allowed around top => (hoisted allowed around top).append (hoisted' allowed around top))
      (Folding.keep o os) (pieces ++ pieces') where
  lexical top := by
    rw [Outline.lexicalDeclarationsAll_keep]
    refine (stands.lexical top).bind (fun ds here => (others.lexical top).bind
      (fun more further placed => ?_))
    rw [here placed, further placed]
  hoists allowed around top := by
    rw [Outline.hoistedAll_keep]
    refine (stands.hoists allowed around top).bind (fun h here =>
      (others.hoists allowed around top).bind (fun more further placed => ?_))
    rw [here placed, further placed]
  course := by
    rw [Course.ofAll_keep]
    exact stands.course.andThen others.course

/-- A value leaves nothing where it stands. -/
theorem Value.still (value : R.Value strict o pieces) :
    R.Still strict [] (fun _ => []) o pieces where
  lexical top := (value.silent.undeclared top).imp (fun _ none _ => none)
  hoists allowed around top := (value.silent.unhoisted allowed around top).imp
    (fun _ none _ => none.trans (Hoisted.inner_nil allowed).symm)
  course := value.course

namespace Still

/-- A still outline of a free statement with the same names. -/
theorem statement (still : R.Still strict s.vars (s.nested false) o pieces)
    (free : s.isFree = true) : R.Statement strict s o pieces := by
  refine Stands.congr still (fun _ top => (Stmt.lexicals_of_isFree top s free).symm)
    (fun _ allowed around top => ?_)
  rw [Stmt.hoisted_of_functions (Stmt.functions_of_isFree s free),
    Stmt.nested_of_isFree top around s free]

/-- A free statement is still. -/
theorem of_isFree (stands : R.Statement strict s o pieces) (free : R.placed → s.isFree = true) :
    R.Still strict s.vars (s.nested false) o pieces := by
  refine Stands.congr stands (fun placed top => Stmt.lexicals_of_isFree top s (free placed))
    (fun placed allowed around top => ?_)
  rw [Stmt.hoisted_of_functions (Stmt.functions_of_isFree s (free placed)),
    Stmt.nested_of_isFree top around s (free placed)]

theorem nil : R.StillAll strict [] (fun _ => []) [] [] where
  lexical _ _ := rfl
  hoists allowed _ _ _ := (Hoisted.inner_nil allowed).symm
  course := .done

theorem cons (still : R.Still strict vars nested o pieces)
    (others : R.StillAll strict vars' nested' os pieces') :
    R.StillAll strict (vars ++ vars') (fun rivals => nested rivals ++ nested' rivals) (o :: os)
      (pieces ++ pieces') where
  lexical top := by
    refine (still.lexical top).bind (fun ds here => (others.lexical top).bind
      (fun more further placed => ?_))
    rw [here placed, further placed]
    rfl
  hoists allowed around top := by
    refine (still.hoists allowed around top).bind (fun h here =>
      (others.hoists allowed around top).bind (fun more further placed => ?_))
    rw [here placed, further placed]
    exact Hoisted.inner_append ..
  course := by
    rw [Course.ofAll]
    exact still.course.andThen others.course

/-- Still outlines side by side are still, whether or not they collapse. -/
theorem join (all : R.StillAll strict vars nested os pieces) :
    R.Still strict vars nested (.join os) pieces where
  lexical top := by
    obtain ⟨top', same⟩ := Outline.lexicalDeclarations_join top os
    rw [same]
    exact all.lexical top'
  hoists allowed around top := by
    obtain ⟨top', same⟩ := Outline.hoisted_join allowed around top os
    rw [same]
    exact all.hoists allowed around top'
  course := by
    rw [Course.ofOutline_join]
    exact all.course

theorem join₂ (first : R.Still strict vars nested o pieces)
    (second : R.Still strict vars' nested' o' pieces') :
    R.Still strict (vars ++ vars') (fun rivals => nested rivals ++ nested' rivals) (.join [o, o'])
      (pieces ++ pieces') := by
  have both := join (first.cons (second.cons nil))
  simpa only [List.append_nil] using both

theorem join₃ (first : R.Still strict vars nested o pieces)
    (second : R.Still strict vars' nested' o' pieces')
    (third : R.Still strict vars'' nested'' o'' pieces'') :
    R.Still strict (vars ++ (vars' ++ vars''))
      (fun rivals => nested rivals ++ (nested' rivals ++ nested'' rivals)) (.join [o, o', o''])
      (pieces ++ (pieces' ++ pieces'')) := by
  have all := join (first.cons (second.cons (third.cons nil)))
  simpa only [List.append_nil] using all

end Still

namespace Statement

theorem nil : R.Statements strict [] [] [] where
  lexical _ _ := rfl
  hoists _ _ _ _ := rfl
  course := .done

theorem keep (stands : R.Statement strict s o pieces)
    (others : R.Statements strict ss os pieces') :
    R.Statements strict (s :: ss) (Folding.keep o os) (.stands .list s :: (pieces ++ pieces')) :=
  Stands.keep (stands.cons_stands .list s) others

end Statement

end Reading

end ScopeAnalysis
