import ScopeAnalysis.Proofs.Grammar.Joins

/-!
# Roles of outlines

What a part of a program leaves behind plays one of four roles: a value, a binding, a target or a
statement. For each role this says what the rules answer about the outline and what walking it
yields. Outlines of a role can be put together to outlines of the same role.
-/

namespace ScopeAnalysis

open Resolution

/-- An outline that binds, declares and hoists nothing. -/
structure Silent (sound : Prop) (o : Outline) : Prop where
  unbound : Answers sound o.boundNames (fun bound => bound.names = [])
  undeclared : ∀ top, Answers sound (o.lexicalDeclarations top) (fun ds => ds = [])
  unhoisted : ∀ allowed around top,
    Answers sound (o.hoisted allowed around top) (fun h => h = .none)
  other : ∀ kind declarators, o ≠ .decl kind declarators

namespace Silent

variable {sound : Prop} {o : Outline} {os : List Outline}

theorem weaken {sound' : Prop} (silent : Silent sound o) (fewer : sound' → sound) :
    Silent sound' o where
  unbound := silent.unbound.weaken fewer
  undeclared top := (silent.undeclared top).weaken fewer
  unhoisted allowed around top := (silent.unhoisted allowed around top).weaken fewer
  other := silent.other

theorem of_not (partly : Silent False o) (unsound : ¬ sound) : Silent sound o where
  unbound := partly.unbound.of_not unsound
  undeclared top := (partly.undeclared top).of_not unsound
  unhoisted allowed around top := (partly.unhoisted allowed around top).of_not unsound
  other := partly.other

theorem nothing : Silent sound .nothing := ⟨rfl, fun _ => rfl, fun _ _ _ => rfl, nofun⟩

theorem unboundAll (silent : ∀ o ∈ os, Silent sound o) :
    Answers sound (Outline.boundNamesAll os) (fun bound => bound.names = []) := by
  induction os with
  | nil => rfl
  | cons o rest ih =>
    obtain ⟨here, further⟩ := List.forall_mem_cons.1 silent
    refine here.unbound.bind (fun first none => (ih further).bind (fun others none' => ?_))
    change first.names ++ others.names = []
    rw [none, none']
    rfl

theorem undeclaredAll (silent : ∀ o ∈ os, Silent sound o) (top : Bool) :
    Answers sound (Outline.lexicalDeclarationsAll top os) (fun ds => ds = []) := by
  induction os with
  | nil => rfl
  | cons o rest ih =>
    obtain ⟨here, further⟩ := List.forall_mem_cons.1 silent
    refine (here.undeclared top).bind (fun first none => (ih further).bind (fun others none' => ?_))
    rw [none, none']
    rfl

theorem unhoistedAll (silent : ∀ o ∈ os, Silent sound o) (allowed : Bool)
    (around : List Declaration) (top : Bool) :
    Answers sound (Outline.hoistedAll allowed around top os) (fun h => h = .none) := by
  induction os with
  | nil => rfl
  | cons o rest ih =>
    obtain ⟨here, further⟩ := List.forall_mem_cons.1 silent
    refine (here.unhoisted allowed around top).bind (fun first none =>
      (ih further).bind (fun others none' => ?_))
    rw [none, none']
    rfl

theorem union (silent : ∀ o ∈ os, Silent sound o) : Silent sound (.union os) where
  unbound := unboundAll silent
  undeclared _ := undeclaredAll silent false
  unhoisted allowed around _ := unhoistedAll silent allowed around false
  other := nofun

theorem join (silent : ∀ o ∈ os, Silent sound o) : Silent sound (.join os) := by
  obtain none | ⟨o, member, one⟩ | ⟨ps, members, several⟩ := Outline.join_cases os
  · rw [none]
    exact nothing
  · rw [one]
    exact silent o member
  · rw [several]
    exact union (fun o member => silent o (members o member))

end Silent

namespace Reading

variable (R : Reading) (strict : Bool)

/-- A value. Only where patterns are updated may it write like a target. -/
structure Value (o : Outline) (pieces : List Piece) : Prop where
  silent : Silent R.sound o
  unwritten : Answers R.sound o.writtenNames (fun ids => R.sound → ids = [])
  course : R.Completes (.ofOutline R.setting strict o) pieces

structure Values (os : List Outline) (pieces : List Piece) : Prop where
  silent : ∀ o ∈ os, Silent R.sound o
  unwritten : Answers R.sound (Outline.writtenNamesAll os) (fun ids => R.sound → ids = [])
  course : R.Completes (.ofAll R.setting strict os) pieces

/-- A binding of the given names. -/
structure Binds (o : Outline) (names : List Occurrence) (evaluates : Bool) (pieces : List Piece) :
    Prop where
  bound : Answers R.sound o.boundNames
    (fun bound => bound.names = names ∧ bound.evaluates = evaluates)
  course : R.Completes (.ofOutline R.setting strict o) pieces

structure BindsAll (os : List Outline) (names : List Occurrence) (evaluates : Bool)
    (pieces : List Piece) : Prop where
  bound : Answers R.sound (Outline.boundNamesAll os)
    (fun bound => bound.names = names ∧ bound.evaluates = evaluates)
  course : R.Completes (.ofAll R.setting strict os) pieces

/-- A target that writes the given names. -/
structure Writes (o : Outline) (names : List Occurrence) (pieces : List Piece) : Prop where
  silent : Silent False o
  written : Answers R.sound o.writtenNames (fun ids => R.sound → ids = names)
  course : R.Completes (.ofOutline R.setting strict o) pieces

structure WritesAll (os : List Outline) (names : List Occurrence) (pieces : List Piece) : Prop where
  silent : ∀ o ∈ os, Silent False o
  written : Answers R.sound (Outline.writtenNamesAll os) (fun ids => R.sound → ids = names)
  course : R.Completes (.ofAll R.setting strict os) pieces

variable {R strict} {o o' o'' : Outline} {os : List Outline} {names names' : List Occurrence}
  {evaluates evaluates' : Bool} {pieces pieces' pieces'' : List Piece}

namespace Value

theorem nothing : R.Value strict .nothing [] := ⟨.nothing, fun _ => rfl, .done⟩

theorem perm (value : R.Value strict o pieces) (same : pieces.Perm pieces') :
    R.Value strict o pieces' :=
  ⟨value.silent, value.unwritten, value.course.perm same⟩

theorem cons_mute {piece : Piece} (value : R.Value strict o pieces)
    (asks : piece.openings R.setting.options R.useStrict = []) (silent : piece.uses = []) :
    R.Value strict o (piece :: pieces) :=
  ⟨value.silent, value.unwritten, value.course.cons_mute asks silent⟩

theorem nil : R.Values strict [] [] := ⟨by simp, fun _ => rfl, .done⟩

theorem cons (value : R.Value strict o pieces) (values : R.Values strict os pieces') :
    R.Values strict (o :: os) (pieces ++ pieces') where
  silent := List.forall_mem_cons.2 ⟨value.silent, values.silent⟩
  unwritten := by
    refine value.unwritten.bind (fun ids none => values.unwritten.bind (fun others none' => ?_))
    intro sound
    rw [none sound, none' sound]
    rfl
  course := by
    rw [Course.ofAll]
    exact value.course.andThen values.course

theorem join (values : R.Values strict os pieces) : R.Value strict (.join os) pieces where
  silent := .join values.silent
  unwritten := by
    rw [Outline.writtenNames_join]
    exact values.unwritten
  course := by
    rw [Course.ofOutline_join]
    exact values.course

theorem join₂ (first : R.Value strict o pieces) (second : R.Value strict o' pieces') :
    R.Value strict (.join [o, o']) (pieces ++ pieces') := by
  have both := join (first.cons (second.cons nil))
  rwa [List.append_nil] at both

theorem join₃ (first : R.Value strict o pieces) (second : R.Value strict o' pieces')
    (third : R.Value strict o'' pieces'') :
    R.Value strict (.join [o, o', o'']) (pieces ++ (pieces' ++ pieces'')) := by
  have all := join (first.cons (second.cons (third.cons nil)))
  rwa [List.append_nil] at all

theorem read (id : Occurrence) : R.Value strict (.read id) [.use id .read] :=
  ⟨⟨rfl, fun _ => rfl, fun _ _ _ => rfl, nofun⟩, fun _ => rfl, .use id .read⟩

theorem delete (id : Occurrence) : R.Value strict (.delete id) [.use id .delete] :=
  ⟨⟨rfl, fun _ => rfl, fun _ _ _ => rfl, nofun⟩, fun _ => rfl, .use id .delete⟩

theorem update (id : Occurrence) : R.Value strict (.update id) [.use id .readWrite] :=
  ⟨⟨rfl, fun _ => rfl, fun _ _ _ => rfl, nofun⟩, fun _ => rfl, .use id .readWrite⟩

/-- A direct `eval` is noted before the call is walked. -/
theorem directEval (value : R.Value strict o pieces) : R.Value strict (.directEval o) pieces where
  silent := ⟨rfl, fun _ => rfl, fun _ _ _ => rfl, nofun⟩
  unwritten _ := rfl
  course := by
    have notice : R.Completes ⟨[.directEval], .ok ()⟩ [] :=
      ⟨rfl, fun _ => rfl, fun _ => rfl, nofun⟩
    rw [Course.ofOutline]
    exact notice.andThen value.course

theorem assign {compound : Bool} (writes : R.Completes (.writes compound o) pieces)
    (target : R.Completes (.ofOutline R.setting strict o) pieces')
    (value : R.Value strict o' pieces'') :
    R.Value strict (.assign compound o o') (pieces ++ (pieces' ++ pieces'')) where
  silent := ⟨rfl, fun _ => rfl, fun _ _ _ => rfl, nofun⟩
  unwritten _ := rfl
  course := by
    rw [Course.ofOutline]
    exact writes.andThen (target.andThen value.course)

/-- A value in a target, such as a default, writes nothing there. -/
theorem writes (value : R.Value strict o pieces) : R.Writes strict o [] pieces where
  silent := value.silent.weaken False.elim
  written := value.unwritten
  course := value.course

end Value

namespace Binds

theorem nothing : R.Binds strict .nothing [] false [] := ⟨⟨rfl, rfl⟩, .done⟩

theorem ident (id : Occurrence) : R.Binds strict (.binding id) [id] false [] := ⟨⟨rfl, rfl⟩, .done⟩

theorem nil : R.BindsAll strict [] [] false [] := ⟨⟨rfl, rfl⟩, .done⟩

theorem cons (binds : R.Binds strict o names evaluates pieces)
    (others : R.BindsAll strict os names' evaluates' pieces') :
    R.BindsAll strict (o :: os) (names ++ names') (evaluates || evaluates')
      (pieces ++ pieces') where
  bound := by
    refine binds.bound.bind (fun first here => others.bound.bind (fun more further => ?_))
    exact ⟨congrArg₂ (· ++ ·) here.1 further.1, congrArg₂ (· || ·) here.2 further.2⟩
  course := by
    rw [Course.ofAll]
    exact binds.course.andThen others.course

theorem snoc (first : R.BindsAll strict os names evaluates pieces)
    (last : R.Binds strict o names' evaluates' pieces') :
    R.BindsAll strict (os ++ [o]) (names ++ names') (evaluates || evaluates')
      (pieces ++ pieces') where
  bound := by
    rw [Outline.boundNamesAll_append, Outline.boundNamesAll_singleton]
    refine first.bound.bind (fun some here => last.bound.bind (fun more further => ?_))
    exact ⟨congrArg₂ (· ++ ·) here.1 further.1, congrArg₂ (· || ·) here.2 further.2⟩
  course := by
    rw [Course.ofAll_append, Course.ofAll, Course.ofAll, Course.andThen_done]
    exact first.course.andThen last.course

theorem join (all : R.BindsAll strict os names evaluates pieces) :
    R.Binds strict (.join os) names evaluates pieces where
  bound := by
    rw [Outline.boundNames_join]
    exact all.bound
  course := by
    rw [Course.ofOutline_join]
    exact all.course

/-- Outlines side by side that run code when their names are bound. -/
theorem evaluated
    (bound : Answers R.sound (Outline.boundNamesAll os) (fun bound => bound.names = names))
    (course : R.Completes (.ofAll R.setting strict os) pieces) :
    R.Binds strict (.evaluated (.join os)) names true pieces where
  bound := by
    rw [Outline.boundNames, Outline.boundNames_join]
    exact bound.bind (fun _ here => ⟨here, rfl⟩)
  course := by
    rw [Course.ofOutline, Course.ofOutline_join]
    exact course

theorem names_pair
    (first : Answers R.sound o.boundNames (fun bound => bound.names = names))
    (second : Answers R.sound o'.boundNames (fun bound => bound.names = names')) :
    Answers R.sound (Outline.boundNamesAll [o, o'])
      (fun bound => bound.names = names ++ names') := by
  rw [Outline.boundNamesAll, Outline.boundNamesAll_singleton]
  exact first.bind (fun _ here => second.bind (fun _ further => congrArg₂ (· ++ ·) here further))

/-- A binding with a default value. -/
theorem withDefault (binds : R.Binds strict o names evaluates pieces)
    (value : R.Value strict o' pieces') :
    R.Binds strict (.evaluated (.join [o, o'])) names true (pieces ++ pieces') := by
  refine evaluated ?_ ?_
  · have both := names_pair (binds.bound.imp (fun _ here => here.1)) value.silent.unbound
    rwa [List.append_nil] at both
  · rw [Course.ofAll, Course.ofAll, Course.ofAll, Course.andThen_done]
    exact binds.course.andThen value.course

/-- A binding behind a computed key. -/
theorem withKey (value : R.Value strict o pieces)
    (binds : R.Binds strict o' names evaluates pieces') :
    R.Binds strict (.evaluated (.join [o, o'])) names true (pieces ++ pieces') := by
  refine evaluated ?_ ?_
  · exact names_pair value.silent.unbound (binds.bound.imp (fun _ here => here.1))
  · rw [Course.ofAll, Course.ofAll, Course.ofAll, Course.andThen_done]
    exact value.course.andThen binds.course

end Binds

namespace Writes

theorem nothing : R.Writes strict .nothing [] [] := ⟨.nothing, fun _ => rfl, .done⟩

theorem ident (id : Occurrence) : R.Writes strict (.target id) [id] [] where
  silent := ⟨⟨rfl, not_false⟩, fun _ => ⟨rfl, not_false⟩, fun _ _ _ => ⟨rfl, not_false⟩, nofun⟩
  written _ := rfl
  course := .done

theorem nil : R.WritesAll strict [] [] [] := ⟨by simp, fun _ => rfl, .done⟩

theorem cons (writes : R.Writes strict o names pieces)
    (others : R.WritesAll strict os names' pieces') :
    R.WritesAll strict (o :: os) (names ++ names') (pieces ++ pieces') where
  silent := List.forall_mem_cons.2 ⟨writes.silent, others.silent⟩
  written := by
    refine writes.written.bind (fun ids here => others.written.bind (fun more further => ?_))
    exact fun sound => congrArg₂ (· ++ ·) (here sound) (further sound)
  course := by
    rw [Course.ofAll]
    exact writes.course.andThen others.course

theorem snoc (first : R.WritesAll strict os names pieces)
    (last : R.Writes strict o names' pieces') :
    R.WritesAll strict (os ++ [o]) (names ++ names') (pieces ++ pieces') where
  silent := List.forall_mem_append.2 ⟨first.silent, by simpa using last.silent⟩
  written := by
    rw [Outline.writtenNamesAll_append, Outline.writtenNamesAll_singleton]
    refine first.written.bind (fun ids here => last.written.bind (fun more further => ?_))
    exact fun sound => congrArg₂ (· ++ ·) (here sound) (further sound)
  course := by
    rw [Course.ofAll_append, Course.ofAll, Course.ofAll, Course.andThen_done]
    exact first.course.andThen last.course

theorem join (all : R.WritesAll strict os names pieces) :
    R.Writes strict (.join os) names pieces where
  silent := .join all.silent
  written := by
    rw [Outline.writtenNames_join]
    exact all.written
  course := by
    rw [Course.ofOutline_join]
    exact all.course

theorem join₂ (first : R.Writes strict o names pieces)
    (second : R.Writes strict o' names' pieces') :
    R.Writes strict (.join [o, o']) (names ++ names') (pieces ++ pieces') := by
  have both := join (first.cons (second.cons nil))
  rwa [List.append_nil, List.append_nil] at both

/-- The object of a member, which is run but not written. -/
theorem member (value : R.Value strict o pieces) :
    R.Writes strict (if o.isNothing then .nothing else .evaluated o) [] pieces := by
  split
  next is =>
    rw [← Outline.eq_nothing is]
    exact value.writes
  next =>
    refine ⟨⟨?_, fun _ => ⟨rfl, not_false⟩, fun _ _ _ => ⟨rfl, not_false⟩, nofun⟩, ?_, ?_⟩
    · rw [Outline.boundNames]
      exact (value.silent.unbound.weaken False.elim).bind (fun _ here => here)
    · rw [Outline.writtenNames]
      exact value.unwritten
    · rw [Course.ofOutline]
      exact value.course

/-- Where patterns are updated, a target stands where a value should. -/
theorem value (writes : R.Writes strict o names pieces) (unsound : ¬ R.sound) :
    R.Value strict o pieces where
  silent := writes.silent.of_not unsound
  unwritten := writes.written.imp (fun _ _ sound => absurd sound unsound)
  course := writes.course

/-- The writes of an assignment to something other than a plain identifier. -/
theorem completes_writes (writes : R.Writes strict o names pieces) (compound : Bool)
    (other : R.plain → compound = true → ∀ id, o ≠ .target id) :
    R.Completes (Course.writes compound o) (names.map (fun id => .use id .write)) := by
  by_cases lone : ∃ id, o = .target id
  · obtain ⟨id, rfl⟩ := lone
    have same : R.plain →
        (if compound then Access.readWrite else Access.write) = .write ∧ [id] = names := by
      intro plain
      refine ⟨?_, writes.written (R.sound_of_plain plain)⟩
      cases compound with
      | false => rfl
      | true => exact absurd rfl (other plain rfl id)
    have one : R.Completes (.useAll (if compound then .readWrite else .write) [id])
        (names.map (fun id => .use id .write)) := .useAll same
    exact one
  · have general : Course.writes compound o = .asking o.writtenNames (.useAll .write) := by
      cases o <;> first | rfl | exact absurd ⟨_, rfl⟩ lone
    rw [general]
    refine Completes.asking writes.written (fun ids same => ?_)
    exact Completes.useAll (fun plain => ⟨rfl, same (R.sound_of_plain plain)⟩)

end Writes

end Reading

end ScopeAnalysis
