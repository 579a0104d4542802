import Mathlib.Data.List.Forall2
import Mathlib.Logic.Equiv.Basic
import ScopeAnalysis.Proofs.Handles
import ScopeAnalysis.Proofs.Relabelling.Run

/-!
# Trees that are alike

Two trees of different sessions are alike if they agree in everything, with names compared by their
texts and the numbers of nodes so many places apart as there were nodes before.

A tree and its relabelling are alike if the relabelling could as well have sent handles without a
counterpart elsewhere, and could as well have exchanged numbers that were not handed out: the tree
then has no such handles and no such numbers.
-/

namespace ScopeAnalysis

/-- How the results of one session are compared with those of another one: the tables that their
names belong to, where the counter of nodes stood in the second session while it was at zero in the
first, and how many nodes both have handed out since. -/
structure Comparison where
  names : Interner
  names' : Interner
  shift : BitVec 32
  made : Nat

variable (c : Comparison)

/-- Names of the two sessions that stand for the same text. -/
def Name.Alike (name name' : Name) : Prop :=
  ∃ text, c.names.text? name = some text ∧ c.names'.text? name' = some text

/-- Nodes in the same place whose numbers are as far apart as the counters were. -/
structure Node.Alike (node node' : Node) : Prop where
  span : node'.span = node.span
  bits : node'.id.bits = node.id.bits + c.shift
  /-- Unless the counter has come round to zero, the second number is the greater one by just as
  many nodes as there were before. -/
  val : c.shift.toNat + c.made < 2 ^ 32 → node'.id.val = node.id.val + c.shift.toNat

structure Ident.Alike (id id' : Occurrence) : Prop where
  node : id.node.Alike c id'.node
  name : id.name.Alike c id'.name

structure Declaration.Alike (d d' : Declaration) : Prop where
  id : d.id.Alike c d'.id
  kind : d'.kind = d.kind

structure Reference.Alike (use use' : Reference) : Prop where
  id : use.id.Alike c use'.id
  access : use'.access = use.access
  resolved : use'.resolved = use.resolved

structure Variable.Alike (v v' : Variable) : Prop where
  name : v.name.Alike c v'.name
  scope : v'.scope = v.scope
  declarations : List.Forall₂ (Declaration.Alike c) v.declarations v'.declarations
  references : v'.references = v.references

/-- Entries of tables with the same contents under names for the same text. -/
def EntriesAlike {α : Type} : List (Name × α) → List (Name × α) → Prop :=
  List.Forall₂ (fun entry entry' => entry.1.Alike c entry'.1 ∧ entry'.2 = entry.2)

structure Scope.Alike (s s' : Scope) : Prop where
  id : s'.id = s.id
  kind : s'.kind = s.kind
  node : s.node.Alike c s'.node
  parent : s'.parent = s.parent
  children : s'.children = s.children
  bindings : EntriesAlike c s.bindings s'.bindings
  dynamic : s'.dynamic = s.dynamic
  through : EntriesAlike c s.through.entries s'.through.entries

structure ScopeTree.Alike (tree tree' : ScopeTree) : Prop where
  scopes : List.Forall₂ (Scope.Alike c) tree.scopes.toList tree'.scopes.toList
  vars : List.Forall₂ (Variable.Alike c) tree.vars.toList tree'.vars.toList
  references : List.Forall₂ (Reference.Alike c) tree.references.toList tree'.references.toList

/-- The same tree, or the same refusal. -/
def AnswerAlike : Answer ScopeTree → Answer ScopeTree → Prop
  | .ok tree, .ok tree' => tree.Alike c tree'
  | .error refusal, .error refusal' => refusal' = refusal
  | _, _ => False

/-- Lists are related entry by entry to what a family of functions agrees on, if entries are. -/
theorem forall₂_map_of_eq {ι α β : Type} {R : α → β → Prop} {f : ι → α → β} {i₀ : ι}
    (alike : ∀ a, (∀ i, f i a = f i₀ a) → R a (f i₀ a)) {as : List α}
    (same : ∀ i, as.map (f i) = as.map (f i₀)) : List.Forall₂ R as (as.map (f i₀)) := by
  rw [List.forall₂_map_right_iff, List.forall₂_same]
  exact fun a member => alike a (fun i => List.map_inj_left.1 (same i) a member)

namespace Comparison

/-- What a relabelling may do with handles and numbers that do not occur. -/
structure Choice where
  /-- How far beyond the end of the table the handles go that have no counterpart. -/
  further : Nat
  /-- How the numbers are exchanged that were not handed out. -/
  exchange : Equiv.Perm NodeId
  fixes : ∀ id : NodeId, id.val < c.made → exchange id = id

namespace Choice

def near : c.Choice := ⟨0, .refl NodeId, fun _ _ => rfl⟩

def far : c.Choice := ⟨1, .refl NodeId, fun _ _ => rfl⟩

variable {c}

/-- Exchanges two numbers that were not handed out. -/
def swap (a b : NodeId) (unused : c.made ≤ a.val) (unused' : c.made ≤ b.val) : c.Choice where
  further := 0
  exchange := Equiv.swap a b
  fixes id used := by
    refine Equiv.swap_apply_of_ne_of_ne ?_ ?_
    · rintro rfl
      exact Nat.not_le_of_lt used unused
    · rintro rfl
      exact Nat.not_le_of_lt used unused'

end Choice

/-- The relabelling from one session to the other. -/
def relabelling (choice : c.Choice) : Relabelling where
  number id := ⟨(choice.exchange id).bits + c.shift⟩
  name id := c.names.carry c.names' choice.further id.name
  text := c.names.carry c.names' choice.further

theorem uniform_relabelling (choice : c.Choice) : (c.relabelling choice).Uniform :=
  ⟨fun _ => rfl, Interner.carry_injective ..⟩

theorem number_injective (choice : c.Choice) :
    Function.Injective (c.relabelling choice).number := by
  intro id id' same
  have bits := (BitVec.add_left_inj _).1 (congrArg NodeId.bits same)
  exact choice.exchange.injective (congrArg NodeId.mk bits)

theorem carries (choice : c.Choice) : c.names.Carries c.names' (c.relabelling choice).text :=
  Interner.carries_carry _ _ _

/-- If two numbers or more were not handed out, there is one besides any given one. -/
theorem exists_other (room : c.made + 1 < 2 ^ 32) (id : NodeId) :
    ∃ other : NodeId, c.made ≤ other.val ∧ other ≠ id := by
  have val {n : Nat} (below : n < 2 ^ 32) : (⟨BitVec.ofNat 32 n⟩ : NodeId).val = n := by
    rw [NodeId.val, BitVec.toNat_ofNat, Nat.mod_eq_of_lt below]
  have first := val (Nat.lt_of_succ_lt room)
  have second := val room
  by_cases same : id.val = c.made
  · refine ⟨⟨BitVec.ofNat 32 (c.made + 1)⟩, by omega, fun meets => ?_⟩
    rw [meets] at second
    omega
  · refine ⟨⟨BitVec.ofNat 32 c.made⟩, by omega, fun meets => same ?_⟩
    rw [← meets, first]

/-- What is made of a relabelling does not depend on the choice. -/
def Settles {α : Type} (f : Relabelling → α) : Prop :=
  ∀ choice, f (c.relabelling choice) = f (c.relabelling (.near c))

section

variable {c}

theorem Settles.part {α β : Type} {f : Relabelling → α} (settled : c.Settles f) (part : α → β) :
    c.Settles (fun r => part (f r)) :=
  fun choice => congrArg part (settled choice)

/-- A number that is always sent to the same place was handed out, if there are others to exchange
it with. -/
theorem val_lt_made {id : NodeId} (room : c.made + 1 < 2 ^ 32)
    (settled : c.Settles (fun r => r.number id)) : id.val < c.made := by
  by_contra unused
  obtain ⟨other, unused', apart⟩ := c.exists_other room id
  have sent := settled (.swap id other (Nat.le_of_not_lt unused) unused')
  have bits := (BitVec.add_left_inj _).1 (congrArg NodeId.bits sent)
  have exchanged : Equiv.swap id other id = id := congrArg NodeId.mk bits
  exact apart ((Equiv.swap_apply_left id other).symm.trans exchanged)

theorem name_alike {name : Name} (settled : c.Settles (fun r => r.text name)) :
    name.Alike c ((c.relabelling (.near c)).text name) :=
  Interner.exists_text_of_carry_eq rfl (settled (.far c))

theorem node_alike {node : Node} (settled : c.Settles (fun r => r.node node)) :
    node.Alike c ((c.relabelling (.near c)).node node) where
  span := rfl
  bits := rfl
  val fits := by
    have moved : ((c.relabelling (.near c)).node node).id.val =
        (node.id.val + c.shift.toNat) % 2 ^ 32 := BitVec.toNat_add ..
    rw [moved]
    refine Nat.mod_eq_of_lt ?_
    -- Where nothing is shifted, any number will do.
    rcases Nat.eq_zero_or_pos c.shift.toNat with still | shifted
    · rw [still]
      exact node.id.bits.isLt
    · have used := val_lt_made (by omega) (settled.part Node.id)
      omega

theorem ident_alike {id : Occurrence} (settled : c.Settles id.relabel) :
    id.Alike c (id.relabel (c.relabelling (.near c))) :=
  ⟨node_alike (settled.part Ident.node), name_alike (settled.part Ident.name)⟩

theorem declaration_alike {d : Declaration} (settled : c.Settles d.relabel) :
    d.Alike c (d.relabel (c.relabelling (.near c))) :=
  ⟨ident_alike (settled.part Declaration.id), rfl⟩

theorem reference_alike {use : Reference} (settled : c.Settles use.relabel) :
    use.Alike c (use.relabel (c.relabelling (.near c))) :=
  ⟨ident_alike (settled.part Reference.id), rfl, rfl⟩

theorem variable_alike {v : Variable} (settled : c.Settles v.relabel) :
    v.Alike c (v.relabel (c.relabelling (.near c))) where
  name := name_alike (settled.part Variable.name)
  scope := rfl
  declarations := forall₂_map_of_eq (fun _ => declaration_alike)
    (settled.part Variable.declarations)
  references := rfl

theorem entries_alike {α : Type} {entries : List (Name × α)}
    (settled : c.Settles (fun r => r.keys entries)) :
    EntriesAlike c entries ((c.relabelling (.near c)).keys entries) := by
  refine forall₂_map_of_eq (fun entry alike => ?_) settled
  exact ⟨name_alike (fun choice => congrArg Prod.fst (alike choice)), rfl⟩

theorem scope_alike {s : Scope} (settled : c.Settles s.relabel) :
    s.Alike c (s.relabel (c.relabelling (.near c))) where
  id := rfl
  kind := rfl
  node := node_alike (settled.part Scope.node)
  parent := rfl
  children := rfl
  bindings := entries_alike (settled.part Scope.bindings)
  dynamic := rfl
  through := entries_alike (settled.part (fun s => s.through.entries))

/-- A tree is like its relabelling if that does not depend on the choice. -/
theorem tree_alike {tree : ScopeTree} (settled : c.Settles tree.relabel) :
    tree.Alike c (tree.relabel (c.relabelling (.near c))) := by
  have scopes := settled.part (fun tree => tree.scopes.toList)
  have vars := settled.part (fun tree => tree.vars.toList)
  have references := settled.part (fun tree => tree.references.toList)
  simp only [Settles, ScopeTree.relabel, Array.toList_map] at scopes vars references
  constructor <;> simp only [ScopeTree.relabel, Array.toList_map]
  · exact forall₂_map_of_eq (fun _ => scope_alike) scopes
  · exact forall₂_map_of_eq (fun _ => variable_alike) vars
  · exact forall₂_map_of_eq (fun _ => reference_alike) references

end

end Comparison

end ScopeAnalysis
