import Mathlib.Algebra.Group.Nat.Defs
import ScopeAnalysis.Program.Build
import ScopeAnalysis.Proofs.Handles
import ScopeAnalysis.Proofs.Mapping

/-!
# What building hands out

The calls that build a program intern their texts one after the other and take consecutive numbers,
of which zero follows the greatest one. What a call hands out is what stands in the program. As long
as no more nodes are asked for than there are numbers, no two nodes of a program have the same one.
-/

namespace ScopeAnalysis

namespace Call

@[simp]
theorem spans_append (calls more : List Call) : spans (calls ++ more) = spans calls ++ spans more :=
  List.filterMap_append

@[simp]
theorem texts_append (calls more : List Call) : texts (calls ++ more) = texts calls ++ texts more :=
  List.filterMap_append

end Call

namespace Workbench

theorem after_append (bench : Workbench) (calls more : List Call) :
    bench.after (calls ++ more) = (bench.after calls).after more :=
  List.foldl_append

theorem names_after (bench : Workbench) (calls : List Call) :
    (bench.after calls).names = bench.names.internAll (Call.texts calls) := by
  induction calls generalizing bench with
  | nil => rfl
  | cons call rest ih =>
    cases call with
    | node span => exact ih _
    | name text => exact ih _

theorem next_after (bench : Workbench) (calls : List Call) :
    (bench.after calls).next = bench.next + BitVec.ofNat 32 (Call.spans calls).length := by
  induction calls generalizing bench with
  | nil => exact (BitVec.add_zero _).symm
  | cons call rest ih =>
    cases call with
    | name text => exact ih _
    | node span =>
      have later : (bench.after (.node span :: rest)).next =
          bench.next + 1 + BitVec.ofNat 32 (Call.spans rest).length := ih _
      have length : (Call.spans (.node span :: rest)).length = (Call.spans rest).length + 1 := rfl
      rw [later, length, BitVec.ofNat_add, BitVec.add_assoc,
        BitVec.add_comm (BitVec.ofNat 32 (Call.spans rest).length)]
      rfl

theorem begins_after (bench : Workbench) (calls : List Call) :
    bench.names.Begins (bench.after calls).names := by
  rw [names_after]
  exact .internAll _ _

/-- The count of nodes starts again at zero when all numbers are used up. -/
theorem nodeCount_after (bench : Workbench) (calls : List Call) :
    (bench.after calls).nodeCount =
      (bench.nodeCount + (Call.spans calls).length) % 2 ^ 32 := by
  simp [nodeCount, next_after]

end Workbench

namespace Build

variable (b : Build) (bench : Workbench)

/-- A node of the program is the one that a call handed out. -/
theorem node_of_call {before rest : List Call} {span : Span}
    (split : b.calls = before ++ .node span :: rest) :
    ∃ inside : (Call.spans before).length < b.size,
      (Numbering.node span (bench.after before)).1 =
        b.node bench.next ⟨(Call.spans before).length, inside⟩ := by
  have spans : Call.spans b.calls = Call.spans before ++ span :: Call.spans rest := by
    rw [split, Call.spans_append]
    rfl
  refine ⟨by simp [size, spans], ?_⟩
  simp [Numbering.node, node, Workbench.next_after, spans]

/-- A name in the program is the one that a call handed out. -/
theorem name_of_call {before rest : List Call} {text : String}
    (split : b.calls = before ++ .name text :: rest) :
    (Numbering.name text (bench.after before)).1 =
      ((bench.after b.calls).names.intern text).1 := by
  have later : ((bench.after before).names.intern text).2.Begins (bench.after b.calls).names := by
    rw [split, Workbench.after_append]
    exact Workbench.begins_after (Numbering.name text (bench.after before)).2 rest
  exact (congrArg Prod.fst (Interner.intern_of_begins later)).symm

theorem nodes_number :
    (b.number bench).1.nodes = b.tree.nodes.map (b.node bench.next) :=
  Program.nodes_map _ b.tree

/-- Nodes that were asked for by different calls have different numbers, unless there are too many
of them. -/
theorem node_id_injective (fits : b.size ≤ 2 ^ 32) (first : BitVec 32) :
    Function.Injective (fun position => (b.node first position).id) := by
  intro i j same
  have bits : BitVec.ofNat 32 i = BitVec.ofNat 32 j :=
    (BitVec.add_right_inj _).1 (congrArg NodeId.bits same)
  have below (k : Fin b.size) : k.val < 2 ^ 32 := Nat.lt_of_lt_of_le k.isLt fits
  have values := congrArg BitVec.toNat bits
  rw [BitVec.toNat_ofNat, BitVec.toNat_ofNat, Nat.mod_eq_of_lt (below i),
    Nat.mod_eq_of_lt (below j)] at values
  exact Fin.ext values

/-- In whatever order a program is built, no two of its nodes have the same number. -/
theorem nodup_ids_number (fits : b.size ≤ 2 ^ 32) :
    ((b.number bench).1.nodes.map Node.id).Nodup := by
  rw [nodes_number, List.map_map]
  exact b.once.map (b.node_id_injective fits bench.next)

end Build

end ScopeAnalysis
