import ScopeAnalysis.Proofs.Grammar.Nesting

/-!
# The order in which members are visited

Getters and setters with the same placement and static key are put together while the members of an
object or class are folded. That loses and repeats nothing: a group is visited where its first
accessor stands, every other member where it stands itself.
-/

namespace ScopeAnalysis

open Resolution

namespace Resolution.Walk

variable (setting : Setting)

theorem walkAll_append (os ps : List Outline) :
    walkAll setting (os ++ ps) = (do walkAll setting os; walkAll setting ps) := by
  induction os with
  | nil => rw [List.nil_append, walkAll, pure_bind]
  | cons o rest ih => rw [List.cons_append, walkAll, walkAll, ih, bind_assoc]

theorem walkAll_singleton (o : Outline) : walkAll setting [o] = walk setting o := by
  rw [walkAll, walkAll, bind_pure_unit]

/-- What does not concern names leaves the walk as it is. -/
theorem walkAll_filter (os : List Outline) :
    walkAll setting (os.filter (fun o => !o.isNothing)) = walkAll setting os := by
  induction os with
  | nil => rfl
  | cons o rest ih =>
    cases o
    case nothing => rw [List.filter_cons_of_neg (by simp [Outline.isNothing]), ih, walkAll, walk,
      pure_bind]
    all_goals rw [List.filter_cons_of_pos rfl, walkAll, walkAll, ih]

theorem walk_join (os : List Outline) : walk setting (.join os) = walkAll setting os := by
  rw [← walkAll_filter, Outline.join]
  split
  next none => rw [none, walkAll, walk]
  next part one => rw [one, walkAll_singleton]
  next => rw [walk]

end Resolution.Walk

namespace Folding

/-- A member once it is folded: what is visited for it, and the placement and key by which it
belongs to other accessors. -/
structure Visit where
  slot : Option (Bool × Name)
  pieces : List Outline

namespace Visit

variable (special : SpecialNames)

def ofMethod (isStatic : Bool) (kind : MethodKind) (k : Key Node Name) (f : Func Node Name) :
    Folding Visit := do
  let f ← func special (methodFunction kind) f
  let head ← key special k
  let slot ← accessorSlot isStatic kind k
  pure ⟨slot, [head, f]⟩

def ofProperty : Property Node Name → Folding Visit
  | .keyed _ k value => do
    let head ← key special k
    let value ← expr special value
    pure ⟨none, [head, value]⟩
  | .shorthand _ id => pure ⟨none, [.read id]⟩
  | .spread _ value => do
    let value ← expr special value
    pure ⟨none, [value]⟩
  | .method kind k f => ofMethod special false kind k f

def ofMember : Member Node Name → Folding Visit
  | .mk _ isStatic kind k f => ofMethod special isStatic kind k f

/-- Whether a member is one more accessor of the placement and key that another one has. -/
def joins (v : Visit) (slot : Option (Bool × Name)) : Bool :=
  slot.isSome && decide (v.slot = slot)

end Visit

/-- Members in the order in which they are visited: a group of accessors as a whole where the first
of them stands, every other member where it stands itself. -/
def visitOrder : List Visit → List Visit
  | [] => []
  | v :: rest =>
    v :: rest.filter (·.joins v.slot) ++ visitOrder (rest.filter (fun w => !w.joins v.slot))
termination_by visits => visits.length
decreasing_by
  simpa only [List.unattach_filter, List.unattach_attach, List.length_cons, Nat.lt_succ_iff] using
    List.length_filter_le _ _

/-- Every member is visited once. -/
theorem visitOrder_perm (visits : List Visit) : (visitOrder visits).Perm visits := by
  induction visits using visitOrder.induct with
  | case1 => rw [visitOrder]
  | case2 v rest ih =>
    simp only [List.unattach_filter, List.unattach_attach] at ih
    rw [visitOrder, List.cons_append]
    refine .cons v (.trans (.append_left _ ih) ?_)
    exact List.filter_append_perm (·.joins v.slot) rest

/-- The accessors of one key are visited next to each other, in source order. -/
theorem filter_joins_infix (slot : Option (Bool × Name)) (visits : List Visit) :
    visits.filter (·.joins slot) <:+: visitOrder visits := by
  induction visits using visitOrder.induct with
  | case1 => exact List.nil_infix
  | case2 v rest ih =>
    simp only [List.unattach_filter, List.unattach_attach] at ih
    rw [visitOrder]
    cases joins : v.joins slot
    · have apart : ∀ w : Visit, (w.joins slot && !w.joins v.slot) = w.joins slot := by
        simp only [Visit.joins] at joins ⊢
        grind
      rw [List.filter_filter] at ih
      simp only [apart] at ih
      rw [List.filter_cons_of_neg (by simp [joins])]
      exact ih.trans (List.suffix_append _ _).isInfix
    · have same : v.slot = slot := by
        rw [Visit.joins, Bool.and_eq_true, decide_eq_true_eq] at joins
        exact joins.2
      have first : (v :: rest).filter (·.joins slot) = v :: rest.filter (·.joins slot) :=
        List.filter_cons_of_pos joins
      rw [first, same]
      exact (List.prefix_append _ _).isInfix

/-- Members no two of which are accessors of one key are visited as they stand. -/
theorem visitOrder_eq_self {visits : List Visit}
    (apart : visits.Pairwise (fun v w => !w.joins v.slot)) : visitOrder visits = visits := by
  induction visits with
  | nil => rw [visitOrder]
  | cons v rest ih =>
    obtain ⟨others, apart⟩ := List.pairwise_cons.1 apart
    have alone : rest.filter (·.joins v.slot) = [] :=
      List.filter_eq_nil_iff.2 (fun w member => by simpa using others w member)
    have kept : rest.filter (fun w => !w.joins v.slot) = rest := List.filter_eq_self.2 others
    rw [visitOrder, alone, kept, ih apart, List.singleton_append]

section Merging

variable {v : Visit} {parts : List Part}

theorem Visit.joins_eq_false {slot : Option (Bool × Name)} :
    v.joins slot = false ↔ (slot.isSome → v.slot ≠ slot) := by
  simp [joins]

theorem addPart_of_fresh (fresh : ∀ part ∈ parts, v.joins part.slot = false) (o : Outline) :
    addPart v.slot o parts = parts ++ [⟨v.slot, o⟩] := by
  rw [addPart.eq_def]
  split
  next none => rw [none]
  next key waits =>
    rw [if_neg]
    intro found
    obtain ⟨part, member, same⟩ := List.any_eq_true.1 found
    refine Visit.joins_eq_false.1 (fresh part member) ?_ (of_decide_eq_true same).symm
    rw [of_decide_eq_true same, waits]
    rfl

theorem addPart_of_joins {before after : List Part} {part : Part}
    (apart : Apart (before ++ part :: after)) (joins : v.joins part.slot = true) (o : Outline) :
    addPart v.slot o (before ++ part :: after) =
      before ++ ⟨part.slot, .join [part.outline, o]⟩ :: after := by
  rw [Visit.joins, Bool.and_eq_true, decide_eq_true_eq] at joins
  obtain ⟨present, same⟩ := joins
  obtain ⟨key, waits⟩ := Option.isSome_iff_exists.1 present
  rw [same, waits, addPart, if_pos, apart.merge waits, waits]
  rw [List.any_append, List.any_cons, decide_eq_true waits, Bool.true_or, Bool.or_true]

/-- An accessor belongs to one group only. -/
theorem joins_others {before after : List Part} {part : Part}
    (apart : Apart (before ++ part :: after)) (joins : v.joins part.slot = true) :
    (∀ other ∈ before, v.joins other.slot = false) ∧
      ∀ other ∈ after, v.joins other.slot = false := by
  rw [Visit.joins, Bool.and_eq_true, decide_eq_true_eq] at joins
  rw [Apart, List.map_append, List.map_cons] at apart
  obtain ⟨_, apart, across⟩ := List.pairwise_append.1 apart
  refine ⟨fun other member => Visit.joins_eq_false.2 fun present same => ?_,
    fun other member => Visit.joins_eq_false.2 fun present same => ?_⟩
  · exact across _ (List.mem_map_of_mem member) _ List.mem_cons_self present
      (joins.2.symm.trans same)
  · exact (List.pairwise_cons.1 apart).1 _ (List.mem_map_of_mem member) joins.1
      (same.symm.trans joins.2)

end Merging

/-- Members folded one after the other, behind those there are. -/
def addAll (visits : List Visit) (parts : List Part) : List Part :=
  visits.foldl (fun parts v => addPart v.slot (.join v.pieces) parts) parts

/-- What is visited for parts that wait for the accessors among further members. -/
def visitedWith (visits : List Visit) (parts : List Part) : List Outline :=
  parts.flatMap (fun part =>
    part.outline :: (visits.filter (·.joins part.slot)).flatMap Visit.pieces)

/-- What is visited for the members that join none of the parts. -/
def visitedBehind (visits : List Visit) (parts : List Part) : List Outline :=
  (visitOrder (visits.filter (fun v => !parts.any (fun part => v.joins part.slot)))).flatMap
    Visit.pieces

section Merging

variable {v : Visit} {rest : List Visit} {parts : List Part}

theorem visitedWith_cons_of_fresh (fresh : ∀ part ∈ parts, v.joins part.slot = false) :
    visitedWith (v :: rest) parts = visitedWith rest parts := by
  refine List.flatMap_congr (fun part member => ?_)
  rw [List.filter_cons_of_neg (by simp [fresh part member])]

theorem visitedBehind_cons_of_fresh (fresh : ∀ part ∈ parts, v.joins part.slot = false) :
    visitedBehind (v :: rest) parts = v.pieces ++
      (rest.filter (·.joins v.slot)).flatMap Visit.pieces ++
        visitedBehind rest (parts ++ [⟨v.slot, .join v.pieces⟩]) := by
  have free : parts.any (fun part => v.joins part.slot) = false := by
    simpa only [List.any_eq_false, Bool.not_eq_true] using fresh
  have group : ∀ w : Visit, (w.joins v.slot &&
      !parts.any (fun part => w.joins part.slot)) = w.joins v.slot := by
    intro w
    cases joins : w.joins v.slot
    · rfl
    · rw [Visit.joins, Bool.and_eq_true, decide_eq_true_eq] at joins
      simpa [Visit.joins, joins.2] using free
  rw [visitedBehind, List.filter_cons_of_pos (by rw [free]; rfl), visitOrder, List.filter_filter,
    List.filter_filter, visitedBehind]
  simp only [group, List.flatMap_append, List.flatMap_cons, List.any_append, List.any_cons,
    List.any_nil, Bool.or_false, Bool.not_or, Bool.and_comm]

theorem visitedWith_cons_of_joins {before after : List Part} {part : Part}
    (apart : Apart (before ++ part :: after)) (joins : v.joins part.slot = true) :
    visitedWith (v :: rest) (before ++ part :: after) = visitedWith rest before ++
      part.outline :: v.pieces ++ (rest.filter (·.joins part.slot)).flatMap Visit.pieces ++
        visitedWith rest after := by
  obtain ⟨early, late⟩ := joins_others apart joins
  rw [visitedWith, List.flatMap_append, List.flatMap_cons, ← visitedWith, ← visitedWith,
    visitedWith_cons_of_fresh early, visitedWith_cons_of_fresh late]
  simp only [List.filter_cons, joins, if_true, List.flatMap_cons, List.cons_append,
    List.append_assoc]

theorem visitedBehind_cons_of_joins {part : Part} (member : part ∈ parts)
    (joins : v.joins part.slot = true) :
    visitedBehind (v :: rest) parts = visitedBehind rest parts := by
  have found : parts.any (fun part => v.joins part.slot) = true :=
    List.any_eq_true.2 ⟨part, member, joins⟩
  rw [visitedBehind, List.filter_cons_of_neg (by simp [found]), visitedBehind]

/-- What goes to a part does not change what joins it. -/
theorem visitedBehind_merge {before after : List Part} {part : Part} (o : Outline) :
    visitedBehind rest (before ++ ⟨part.slot, o⟩ :: after) =
      visitedBehind rest (before ++ part :: after) := by
  simp only [visitedBehind, List.any_append, List.any_cons]

end Merging

section Visiting

open Walk

variable (setting : Setting)

theorem visitedWith_nil (parts : List Part) :
    visitedWith [] parts = parts.map Part.outline :=
  List.map_eq_flatMap.symm

/-- Members that are folded are visited with the parts they join or behind all parts. -/
theorem walkAll_addAll (visits : List Visit) {parts : List Part} (apart : Apart parts) :
    walkAll setting ((addAll visits parts).map Part.outline) =
      walkAll setting (visitedWith visits parts ++ visitedBehind visits parts) := by
  induction visits generalizing parts with
  | nil =>
    rw [visitedWith_nil, visitedBehind, List.filter_nil, visitOrder, List.flatMap_nil,
      List.append_nil]
    rfl
  | cons v rest ih =>
    change walkAll setting ((addAll rest (addPart v.slot (.join v.pieces) parts)).map _) = _
    rw [ih (addPart_cases apart _ _).1]
    by_cases fresh : ∀ part ∈ parts, v.joins part.slot = false
    · rw [addPart_of_fresh fresh, visitedWith_cons_of_fresh fresh,
        visitedBehind_cons_of_fresh fresh]
      simp only [visitedWith, List.flatMap_append, List.flatMap_cons, List.flatMap_nil,
        List.nil_append, List.append_assoc, List.cons_append, walkAll_append, walkAll, walk_join]
    · simp only [not_forall, Bool.not_eq_false] at fresh
      obtain ⟨part, member, joins⟩ := fresh
      rw [visitedBehind_cons_of_joins member joins]
      obtain ⟨before, after, rfl⟩ := List.append_of_mem member
      rw [addPart_of_joins apart joins, visitedWith_cons_of_joins apart joins, visitedBehind_merge,
        visitedWith]
      simp only [visitedWith, List.flatMap_append, List.flatMap_cons, List.append_assoc,
        List.cons_append, walkAll_append, walkAll, walk_join, bind_assoc, pure_bind]

end Visiting

/-- The outlines of all members, once accessors of one key have been put together. -/
def merged (visits : List Visit) : List Outline :=
  (addAll visits []).map Part.outline

open Walk in
theorem walkAll_merged (setting : Setting) (visits : List Visit) :
    walkAll setting (merged visits) =
      walkAll setting ((visitOrder visits).flatMap Visit.pieces) := by
  have behind : visitedBehind visits [] = (visitOrder visits).flatMap Visit.pieces := by
    rw [visitedBehind]
    simp only [List.any_nil, Bool.not_false, List.filter_true]
  have none : Apart [] := .nil
  rw [merged, walkAll_addAll setting visits none, behind]
  rfl

section Members

variable (special : SpecialNames)

theorem join_singleton (o : Outline) : Outline.join [o] = o := by
  cases o <;> rfl

theorem properties_eq (parts : List Part) (ps : List (Property Node Name)) :
    properties special parts ps =
      (do
        let visits ← ps.mapM (Visit.ofProperty special)
        pure (addAll visits parts)) := by
  induction ps generalizing parts with
  | nil => rw [properties, List.mapM_nil, pure_bind]; rfl
  | cons p rest ih =>
    rw [List.mapM_cons]
    cases p <;>
      simp only [properties, Visit.ofProperty, Visit.ofMethod, ih, bind_assoc, pure_bind, addAll,
        List.foldl_cons, join_singleton]

theorem members_eq (parts : List Part) (ms : List (Member Node Name)) :
    members special parts ms =
      (do
        let visits ← ms.mapM (Visit.ofMember special)
        pure (addAll visits parts)) := by
  induction ms generalizing parts with
  | nil => rw [members, List.mapM_nil, pure_bind]; rfl
  | cons m rest ih =>
    cases m
    simp only [List.mapM_cons, members, Visit.ofMember, Visit.ofMethod, ih, bind_assoc, pure_bind,
      addAll, List.foldl_cons]

end Members

/-- Putting accessors together changes nothing but the order in which members are visited. -/
structure OnlyReorders (visits : List Visit) : Prop where
  object (setting : Walk.Setting) : Walk.walk setting (.join (merged visits)) =
    Walk.walkAll setting ((visitOrder visits).flatMap Visit.pieces)
  class_ (setting : Walk.Setting) :
    Walk.walkAll setting ((merged visits).filter (fun o => !o.isNothing)) =
      Walk.walkAll setting ((visitOrder visits).flatMap Visit.pieces)
  once : (visitOrder visits).Perm visits
  whole (slot : Option (Bool × Name)) : visits.filter (·.joins slot) <:+: visitOrder visits
  apart : visits.Pairwise (fun v w => !w.joins v.slot) → visitOrder visits = visits

/-- Objects and classes fold their members one after the other, each once, and visit them in source
order, except that an accessor is visited with the first one that has its placement and key. -/
theorem onlyReorders_members (special : SpecialNames) :
    (∀ node ps, expr special (.object node ps) = do
      let visits ← ps.mapM (Visit.ofProperty special)
      pure (.join (merged visits))) ∧
    (∀ isDeclaration node name heritage ms,
      classOutline special isDeclaration (.mk node name heritage ms) = do
        let visits ← ms.mapM (Visit.ofMember special)
        let heritage ← optExpr special heritage
        pure (.class_ node isDeclaration name heritage
          ((merged visits).filter (fun o => !o.isNothing)))) ∧
    ∀ visits, OnlyReorders visits := by
  refine ⟨fun node ps => ?_, fun isDeclaration node name heritage ms => ?_, fun visits => ?_⟩
  · change (do
      let parts ← properties special [] ps
      pure (Outline.join (parts.map Part.outline))) = _
    rw [properties_eq, bind_assoc]
    simp only [pure_bind, merged]
  · rw [classOutline, members_eq, bind_assoc]
    simp only [pure_bind, merged]
  · exact {
      object := fun setting => by rw [Walk.walk_join, walkAll_merged]
      class_ := fun setting => by rw [Walk.walkAll_filter, walkAll_merged]
      once := visitOrder_perm visits
      whole := fun slot => filter_joins_infix slot visits
      apart := visitOrder_eq_self }

/-- An instance getter, a method, a static getter and an instance setter, all but the method of one
key. -/
example : (visitOrder [⟨some (false, ⟨0⟩), []⟩, ⟨none, []⟩, ⟨some (true, ⟨0⟩), []⟩,
      ⟨some (false, ⟨0⟩), []⟩]).map Visit.slot =
    [some (false, ⟨0⟩), some (false, ⟨0⟩), none, some (true, ⟨0⟩)] := by
  cbv

end Folding

end ScopeAnalysis
