import ScopeAnalysis.Proofs.Grammar.Reading

/-!
# Outlines side by side

Joining outlines drops those that are nothing and collapses a single one, and lists of statements
leave out those that are nothing. None of this shows in what is bound, written or walked.
-/

namespace ScopeAnalysis

namespace Outline

theorem eq_nothing {o : Outline} (is : o.isNothing = true) : o = .nothing := by
  cases o <;> first | rfl | cases is

section Binds

theorem boundNamesAll_nothing (rest : List Outline) :
    boundNamesAll (.nothing :: rest) = boundNamesAll rest := by
  simp only [boundNamesAll, boundNames]
  cases boundNamesAll rest <;> rfl

theorem boundNamesAll_singleton (o : Outline) : boundNamesAll [o] = o.boundNames := by
  simp only [boundNamesAll]
  cases o.boundNames with
  | error refusal => rfl
  | ok bound =>
    change Except.ok (bound.append .none) = Except.ok bound
    simp [Bound.append, Bound.none]

theorem boundNamesAll_filter (parts : List Outline) :
    boundNamesAll (parts.filter (fun o => !o.isNothing)) = boundNamesAll parts := by
  induction parts with
  | nil => rfl
  | cons o rest ih =>
    by_cases is : o.isNothing = true
    · rw [List.filter_cons_of_neg (by simp [is]), ih, eq_nothing is, boundNamesAll_nothing]
    · rw [List.filter_cons_of_pos (by simp [is]), boundNamesAll, boundNamesAll, ih]

theorem boundNamesAll_append (os ps : List Outline) :
    boundNamesAll (os ++ ps) = (do
      let first ← boundNamesAll os
      let second ← boundNamesAll ps
      .ok (first.append second)) := by
  induction os with
  | nil =>
    simp only [List.nil_append, boundNamesAll]
    cases boundNamesAll ps <;> rfl
  | cons o rest ih =>
    simp only [List.cons_append, boundNamesAll, ih]
    cases o.boundNames with
    | error refusal => rfl
    | ok first =>
      cases boundNamesAll rest with
      | error refusal => rfl
      | ok second =>
        cases boundNamesAll ps with
        | error refusal => rfl
        | ok third =>
          change Except.ok (first.append (second.append third)) =
            Except.ok ((first.append second).append third)
          simp [Bound.append, Bool.or_assoc]

/-- A join binds what its parts bind. -/
theorem boundNames_join (parts : List Outline) :
    (join parts).boundNames = boundNamesAll parts := by
  rw [← boundNamesAll_filter, join]
  split
  next none => rw [none]; rfl
  next part one => rw [one, boundNamesAll_singleton]
  next => rw [boundNames]

end Binds

section Writes

theorem writtenNamesAll_nothing (rest : List Outline) :
    writtenNamesAll (.nothing :: rest) = writtenNamesAll rest := by
  simp only [writtenNamesAll, writtenNames]
  cases writtenNamesAll rest <;> rfl

theorem writtenNamesAll_singleton (o : Outline) : writtenNamesAll [o] = o.writtenNames := by
  simp only [writtenNamesAll]
  cases o.writtenNames with
  | error refusal => rfl
  | ok ids =>
    change Except.ok (ids ++ []) = Except.ok ids
    rw [List.append_nil]

theorem writtenNamesAll_filter (parts : List Outline) :
    writtenNamesAll (parts.filter (fun o => !o.isNothing)) = writtenNamesAll parts := by
  induction parts with
  | nil => rfl
  | cons o rest ih =>
    by_cases is : o.isNothing = true
    · rw [List.filter_cons_of_neg (by simp [is]), ih, eq_nothing is, writtenNamesAll_nothing]
    · rw [List.filter_cons_of_pos (by simp [is]), writtenNamesAll, writtenNamesAll, ih]

theorem writtenNamesAll_append (os ps : List Outline) :
    writtenNamesAll (os ++ ps) = (do
      let first ← writtenNamesAll os
      let second ← writtenNamesAll ps
      .ok (first ++ second)) := by
  induction os with
  | nil =>
    simp only [List.nil_append, writtenNamesAll]
    cases writtenNamesAll ps <;> rfl
  | cons o rest ih =>
    simp only [List.cons_append, writtenNamesAll, ih]
    cases o.writtenNames with
    | error refusal => rfl
    | ok first =>
      cases writtenNamesAll rest with
      | error refusal => rfl
      | ok second =>
        cases writtenNamesAll ps with
        | error refusal => rfl
        | ok third =>
          change Except.ok (first ++ (second ++ third)) = Except.ok (first ++ second ++ third)
          rw [List.append_assoc]

/-- A join writes what its parts write. -/
theorem writtenNames_join (parts : List Outline) :
    (join parts).writtenNames = writtenNamesAll parts := by
  rw [← writtenNamesAll_filter, join]
  split
  next none => rw [none]; rfl
  next part one => rw [one, writtenNamesAll_singleton]
  next => rw [writtenNames]

end Writes

end Outline

namespace Resolution.Course

variable (setting : Walk.Setting) (strict : Bool)

theorem ofAll_nothing (rest : List Outline) :
    ofAll setting strict (.nothing :: rest) = ofAll setting strict rest := by
  rw [ofAll, ofOutline, done_andThen]

theorem ofAll_filter (parts : List Outline) :
    ofAll setting strict (parts.filter (fun o => !o.isNothing)) = ofAll setting strict parts := by
  induction parts with
  | nil => rfl
  | cons o rest ih =>
    by_cases is : o.isNothing = true
    · rw [List.filter_cons_of_neg (by simp [is]), ih, Outline.eq_nothing is, ofAll_nothing]
    · rw [List.filter_cons_of_pos (by simp [is]), ofAll, ofAll, ih]

/-- A join is walked as its parts are, one after another. -/
theorem ofOutline_join (parts : List Outline) :
    ofOutline setting strict (.join parts) = ofAll setting strict parts := by
  rw [← ofAll_filter, Outline.join]
  split
  next none => rw [none, ofAll, ofOutline]
  next part one => rw [one, ofAll, ofAll, andThen_done]
  next => rw [ofOutline]

theorem ofAll_keep (o : Outline) (rest : List Outline) :
    ofAll setting strict (Folding.keep o rest) =
      (ofOutline setting strict o).andThen (ofAll setting strict rest) := by
  unfold Folding.keep
  split
  next is => rw [Outline.eq_nothing is, ofOutline, done_andThen]
  next => rw [ofAll]

theorem ofAll_append (os ps : List Outline) :
    ofAll setting strict (os ++ ps) =
      (ofAll setting strict os).andThen (ofAll setting strict ps) := by
  induction os with
  | nil => rfl
  | cons o rest ih => rw [List.cons_append, ofAll, ofAll, ih, andThen_assoc]

end Resolution.Course

namespace Outline

theorem lexicalDeclarationsAll_keep (top : Bool) (o : Outline) (rest : List Outline) :
    lexicalDeclarationsAll top (Folding.keep o rest) = (do
      let first ← o.lexicalDeclarations top
      let others ← lexicalDeclarationsAll top rest
      .ok (first ++ others)) := by
  unfold Folding.keep
  split
  next is =>
    rw [eq_nothing is]
    simp only [lexicalDeclarations]
    cases lexicalDeclarationsAll top rest <;> rfl
  next => rw [lexicalDeclarationsAll]

theorem hoistedAll_keep (allowed : Bool) (around : List Declaration) (top : Bool) (o : Outline)
    (rest : List Outline) :
    hoistedAll allowed around top (Folding.keep o rest) = (do
      let first ← o.hoisted allowed around top
      let others ← hoistedAll allowed around top rest
      .ok (first.append others)) := by
  unfold Folding.keep
  split
  next is =>
    rw [eq_nothing is]
    simp only [hoisted]
    cases hoistedAll allowed around top rest <;> rfl
  next => rw [hoistedAll]

theorem lexicalDeclarationsAll_singleton (top : Bool) (o : Outline) :
    lexicalDeclarationsAll top [o] = o.lexicalDeclarations top := by
  simp only [lexicalDeclarationsAll]
  cases o.lexicalDeclarations top with
  | error refusal => rfl
  | ok ds =>
    change Except.ok (ds ++ []) = Except.ok ds
    rw [List.append_nil]

theorem lexicalDeclarationsAll_filter (top : Bool) (parts : List Outline) :
    lexicalDeclarationsAll top (parts.filter (fun o => !o.isNothing)) =
      lexicalDeclarationsAll top parts := by
  induction parts with
  | nil => rfl
  | cons o rest ih =>
    have step := lexicalDeclarationsAll_keep top o (rest.filter (fun o => !o.isNothing))
    rw [ih] at step
    rw [lexicalDeclarationsAll, ← step, Folding.keep]
    by_cases is : o.isNothing = true
    · rw [List.filter_cons_of_neg (by simp [is]), if_pos is]
    · rw [List.filter_cons_of_pos (by simp [is]), if_neg is]

theorem hoistedAll_singleton (allowed : Bool) (around : List Declaration) (top : Bool)
    (o : Outline) : hoistedAll allowed around top [o] = o.hoisted allowed around top := by
  simp only [hoistedAll]
  cases o.hoisted allowed around top with
  | error refusal => rfl
  | ok h =>
    change Except.ok (h.append .none) = Except.ok h
    simp [Hoisted.append, Hoisted.none]

theorem hoistedAll_filter (allowed : Bool) (around : List Declaration) (top : Bool)
    (parts : List Outline) :
    hoistedAll allowed around top (parts.filter (fun o => !o.isNothing)) =
      hoistedAll allowed around top parts := by
  induction parts with
  | nil => rfl
  | cons o rest ih =>
    have step := hoistedAll_keep allowed around top o (rest.filter (fun o => !o.isNothing))
    rw [ih] at step
    rw [hoistedAll, ← step, Folding.keep]
    by_cases is : o.isNothing = true
    · rw [List.filter_cons_of_neg (by simp [is]), if_pos is]
    · rw [List.filter_cons_of_pos (by simp [is]), if_neg is]

/-- A join declares what its parts declare, but these may no longer stand at the top. -/
theorem lexicalDeclarations_join (top : Bool) (parts : List Outline) :
    ∃ top', (join parts).lexicalDeclarations top = lexicalDeclarationsAll top' parts := by
  simp only [← lexicalDeclarationsAll_filter _ parts, join]
  split
  next none => exact ⟨top, by rw [none]; rfl⟩
  next part one => exact ⟨top, by rw [one, lexicalDeclarationsAll_singleton]⟩
  next => exact ⟨false, by rw [lexicalDeclarations]⟩

theorem hoisted_join (allowed : Bool) (around : List Declaration) (top : Bool)
    (parts : List Outline) :
    ∃ top', (join parts).hoisted allowed around top = hoistedAll allowed around top' parts := by
  simp only [← hoistedAll_filter _ _ _ parts, join]
  split
  next none => exact ⟨top, by rw [none]; rfl⟩
  next part one => exact ⟨top, by rw [one, hoistedAll_singleton]⟩
  next => exact ⟨false, by rw [hoisted]⟩

/-- A join adds nothing to what is declared but that of its parts. -/
theorem join_cases (parts : List Outline) :
    join parts = .nothing ∨ (∃ o ∈ parts, join parts = o) ∨
      ∃ os : List Outline, (∀ o ∈ os, o ∈ parts) ∧ join parts = .union os := by
  rw [join]
  split
  next => exact .inl rfl
  next part one =>
    refine .inr (.inl ⟨part, ?_, rfl⟩)
    have member : part ∈ parts.filter (fun o => !o.isNothing) := by rw [one]; simp
    exact List.mem_of_mem_filter member
  next => exact .inr (.inr ⟨_, fun o member => List.mem_of_mem_filter member, rfl⟩)

end Outline

end ScopeAnalysis
