import ScopeAnalysis.Proofs.Grammar.Owners

/-!
# Members and parameters

Accessors of one key are put together while the members of an object or class are folded, so that
only the order of what they contain changes. Parameters that run no code have no pieces.
-/

namespace ScopeAnalysis

open Resolution

namespace Reading

variable (R : Reading) (strict : Bool)

/-- Members folded one after the other. No two of them wait for accessors of the same placement and
key. -/
inductive Members : List Folding.Part → List Piece → Prop
  | nil : Members [] []
  | cons {part : Folding.Part} {parts : List Folding.Part} {pieces pieces' : List Piece}
      (fresh : ∀ other ∈ parts, part.slot.isSome → other.slot ≠ part.slot)
      (value : R.Value strict part.outline pieces) (rest : Members parts pieces') :
      Members (part :: parts) (pieces ++ pieces')

/-- Folded members with the given pieces, in any order. -/
def Gathers (parts : List Folding.Part) (pieces : List Piece) : Prop :=
  ∃ found, R.Members strict parts found ∧ found.Perm pieces

variable {R strict} {parts : List Folding.Part} {pieces pieces' : List Piece} {o : Outline}

namespace Members

theorem snoc {slot : Option (Bool × Name)} (members : R.Members strict parts pieces)
    (fresh : ∀ other ∈ parts, slot.isSome → other.slot ≠ slot)
    (value : R.Value strict o pieces') :
    R.Members strict (parts ++ [⟨slot, o⟩]) (pieces ++ pieces') := by
  induction members with
  | nil =>
    have one : R.Members strict [⟨slot, o⟩] (pieces' ++ []) := .cons (by simp) value .nil
    rwa [List.append_nil] at one
  | @cons part parts pieces others apart here _ ih =>
    obtain ⟨first, rest⟩ := List.forall_mem_cons.1 fresh
    rw [List.append_assoc, List.cons_append]
    refine .cons (fun other member present => ?_) here (ih rest)
    rcases List.mem_append.1 member with old | new
    · exact apart other old present
    · rw [List.mem_singleton.1 new]
      intro (same : slot = part.slot)
      exact first (same ▸ present) same.symm

/-- An accessor joins the member that waits for it. -/
theorem merge {slot : Option (Bool × Name)} (members : R.Members strict parts pieces)
    (present : slot.isSome) (waits : ∃ part ∈ parts, part.slot = slot)
    (value : R.Value strict o pieces') :
    R.Gathers strict (parts.map (fun part =>
      if part.slot = slot then ⟨part.slot, .join [part.outline, o]⟩ else part))
      (pieces ++ pieces') := by
  induction members with
  | nil =>
    obtain ⟨part, member, _⟩ := waits
    cases member
  | @cons part parts pieces others apart here rest ih =>
    by_cases same : part.slot = slot
    · have unmoved : parts.map (fun part =>
          if part.slot = slot then ⟨part.slot, .join [part.outline, o]⟩ else part) = parts := by
        refine (List.map_congr_left (fun other member => ?_)).trans (List.map_id parts)
        rw [if_neg (same ▸ apart other member (same ▸ present))]
        rfl
      refine ⟨pieces ++ pieces' ++ others, ?_, ?_⟩
      · rw [List.map_cons, unmoved, if_pos same]
        exact .cons apart (here.join₂ value) rest
      · rw [List.append_assoc, List.append_assoc]
        exact List.perm_append_comm.append_left pieces
    · have further : ∃ part ∈ parts, part.slot = slot := by
        obtain ⟨found, member, wanted⟩ := waits
        rcases List.mem_cons.1 member with rfl | old
        · exact absurd wanted same
        · exact ⟨found, old, wanted⟩
      obtain ⟨found, members, perm⟩ := ih further
      refine ⟨pieces ++ found, ?_, ?_⟩
      · rw [List.map_cons, if_neg same]
        refine .cons (fun other member present => ?_) here members
        obtain ⟨before, old, rfl⟩ := List.mem_map.1 member
        have kept := apart before old present
        split <;> exact kept
      · rw [List.append_assoc]
        exact perm.append_left pieces

theorem values (members : R.Members strict parts pieces) :
    R.Values strict (parts.map Folding.Part.outline) pieces := by
  induction members with
  | nil => exact Value.nil
  | cons _ here _ ih => exact here.cons ih

end Members

namespace Gathers

theorem nil : R.Gathers strict [] [] := ⟨[], .nil, .refl _⟩

theorem perm (gathers : R.Gathers strict parts pieces) (same : pieces.Perm pieces') :
    R.Gathers strict parts pieces' := by
  obtain ⟨found, members, perm⟩ := gathers
  exact ⟨found, members, perm.trans same⟩

theorem assoc {pieces'' : List Piece}
    (gathers : R.Gathers strict parts (pieces ++ pieces' ++ pieces'')) :
    R.Gathers strict parts (pieces ++ (pieces' ++ pieces'')) := by
  rwa [List.append_assoc] at gathers

/-- A member is added, behind the others or to an accessor that waits for it. -/
theorem addPart (gathers : R.Gathers strict parts pieces) (slot : Option (Bool × Name))
    (value : R.Value strict o pieces') :
    R.Gathers strict (Folding.addPart slot o parts) (pieces ++ pieces') := by
  obtain ⟨found, members, perm⟩ := gathers
  have more : (found ++ pieces').Perm (pieces ++ pieces') := perm.append_right pieces'
  cases slot with
  | none => exact ⟨_, members.snoc (by simp) value, more⟩
  | some key =>
    rw [Folding.addPart]
    split
    next waits =>
      have waits : ∃ part ∈ parts, part.slot = some key := by simpa using waits
      exact (members.merge rfl waits value).perm more
    next none =>
      refine ⟨_, members.snoc (fun other member _ same => ?_) value, more⟩
      exact none (List.any_eq_true.2 ⟨other, member, decide_eq_true same⟩)

/-- The members of an object. -/
theorem value (gathers : R.Gathers strict parts pieces) :
    R.Value strict (.join (parts.map Folding.Part.outline)) pieces := by
  obtain ⟨found, members, perm⟩ := gathers
  exact (Value.join members.values).perm perm

/-- The members of a class, where those that concern no names drop out. -/
theorem completes (gathers : R.Gathers strict parts pieces) :
    R.Completes (.ofAll R.setting strict
      ((parts.map Folding.Part.outline).filter (fun o => !o.isNothing))) pieces := by
  obtain ⟨found, members, perm⟩ := gathers
  rw [Course.ofAll_filter]
  exact members.values.course.perm perm

end Gathers

end Reading

namespace Folding

/-- The key of an accessor can always be told. -/
theorem meets_accessorSlot {sound : Prop} (isStatic : Bool) (kind : MethodKind)
    (k : Key Node Name) : Meets sound (accessorSlot isStatic kind k) (fun _ => True) := by
  have told : Meets sound (staticName k) (fun _ => True) := fun _ => trivial
  cases kind with
  | method => exact .pure trivial
  | getter => exact told.bind (fun _ _ => .pure trivial)
  | setter => exact told.bind (fun _ _ => .pure trivial)

end Folding

namespace Pieces

/-! Bindings that run no code have no pieces. -/

mutual

theorem binding_of_evaluates (around : List Enclosure) :
    ∀ b : Binding Node Name, b.evaluates = false → binding around b = []
  | .ident _, _ => rfl
  | .array _ slots rest, bare => by
    obtain ⟨first, last⟩ : Binding.slotsEvaluate slots = false ∧
      Binding.optEvaluates rest = false := Bool.or_eq_false_iff.1 bare
    exact List.append_eq_nil_iff.2 ⟨bindingSlots_of_evaluate around slots first,
      optBinding_of_evaluates around rest last⟩
  | .object _ ps _, bare => bindingProperties_of_evaluate around ps bare

theorem optBinding_of_evaluates (around : List Enclosure) :
    ∀ b : Option (Binding Node Name), Binding.optEvaluates b = false → optBinding around b = []
  | none, _ => rfl
  | some b, bare => binding_of_evaluates around b bare

theorem element_of_evaluates (around : List Enclosure) :
    ∀ e : BindingElement Node Name, e.evaluates = false → element around e = []
  | .mk _ _ b none, bare => List.append_eq_nil_iff.2 ⟨binding_of_evaluates around b bare, rfl⟩
  | .mk _ _ _ (some _), bare => by cases bare

theorem bindingSlots_of_evaluate (around : List Enclosure) :
    ∀ slots : List (Slot Node (BindingElement Node Name)), Binding.slotsEvaluate slots = false →
      bindingSlots around slots = []
  | [], _ => rfl
  | .hole _ :: rest, bare => bindingSlots_of_evaluate around rest bare
  | .element e :: rest, bare => by
    obtain ⟨first, others⟩ : e.evaluates = false ∧ Binding.slotsEvaluate rest = false :=
      Bool.or_eq_false_iff.1 bare
    exact List.append_eq_nil_iff.2 ⟨element_of_evaluates around e first,
      bindingSlots_of_evaluate around rest others⟩

theorem bindingProperty_of_evaluates (around : List Enclosure) :
    ∀ p : BindingProperty Node Name, p.evaluates = false → bindingProperty around p = []
  | .shorthand _ _ none, _ => rfl
  | .shorthand _ _ (some _), bare => by cases bare
  | .keyed _ k e, bare => by
    obtain ⟨plain, inner⟩ : k.isComputed = false ∧ e.evaluates = false :=
      Bool.or_eq_false_iff.1 bare
    refine List.append_eq_nil_iff.2 ⟨?_, element_of_evaluates around e inner⟩
    cases k with
    | computed node value => cases plain
    | _ => rfl

theorem bindingProperties_of_evaluate (around : List Enclosure) :
    ∀ ps : List (BindingProperty Node Name), Binding.propertiesEvaluate ps = false →
      bindingProperties around ps = []
  | [], _ => rfl
  | p :: rest, bare => by
    obtain ⟨first, others⟩ : p.evaluates = false ∧ Binding.propertiesEvaluate rest = false :=
      Bool.or_eq_false_iff.1 bare
    exact List.append_eq_nil_iff.2 ⟨bindingProperty_of_evaluates around p first,
      bindingProperties_of_evaluate around rest others⟩

end

theorem elements_of_evaluate (around : List Enclosure) (es : List (BindingElement Node Name))
    (bare : es.any BindingElement.evaluates = false) : elements around es = [] := by
  induction es with
  | nil => rfl
  | cons e rest ih =>
    rw [List.any_cons, Bool.or_eq_false_iff] at bare
    exact List.append_eq_nil_iff.2 ⟨element_of_evaluates around e bare.1, ih bare.2⟩

theorem params_of_evaluates (around : List Enclosure) (ps : Params Node Name)
    (bare : ps.evaluates = false) : params around ps = [] := by
  obtain ⟨node, items, rest⟩ := ps
  rw [Params.evaluates, Bool.or_eq_false_iff] at bare
  exact List.append_eq_nil_iff.2 ⟨elements_of_evaluate around items bare.1,
    optBinding_of_evaluates around rest bare.2⟩

end Pieces

end ScopeAnalysis
