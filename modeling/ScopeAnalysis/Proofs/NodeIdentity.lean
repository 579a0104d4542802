import Mathlib.Data.List.Count
import ScopeAnalysis.Outline.Hoisting
import ScopeAnalysis.Proofs.DraftBuilds
import ScopeAnalysis.Proofs.Grammar.Assembly

/-!
# The identity of nodes

Numbering a draft gives its nodes consecutive numbers in the order of the parts. As long as the
counter does not start again at zero, the numbers of a program are without gaps and without
repetition: each number that numbering hands out is that of one node, whatever has been numbered
before. A node has a greater number than all the nodes inside the parts that it is made of.

The number of an identifier therefore tells at which place of the program it stands. Promotion
relies on this when it asks whether a declaration is the very function that is to be promoted or
another one of its name.
-/

namespace ScopeAnalysis

section

variable (draft : Draft) (bench : Workbench)

/-- The nodes of a numbered draft have the numbers that follow the count of the workbench, and after
the greatest number they go on with zero. -/
theorem Draft.nodes_number :
    (draft.number bench).1.nodes.map (fun node => node.id.val) =
      (List.range draft.nodes.length).map (fun i => (bench.nodeCount + i) % 2 ^ 32) ∧
    (draft.number bench).2.nodeCount = (bench.nodeCount + draft.nodes.length) % 2 ^ 32 := by
  obtain ⟨b, nodes, asked, number⟩ := draft.exists_build
  have size : draft.nodes.length = b.size := by
    rw [← asked, Program.nodes_map, List.length_map, nodes, List.length_finRange]
  rw [number, size]
  refine ⟨?_, bench.nodeCount_after b.calls⟩
  rw [b.nodes_number bench, nodes]
  refine List.ext_getElem (by simp) (fun i below below' => ?_)
  simp [Build.node, NodeId.val, Workbench.nodeCount]

end

/-- Nodes that are numbered one after the other. -/
def Node.NumberedFrom (first : Nat) (nodes : List Node) : Prop :=
  nodes.map (fun node => node.id.val) = List.range' first nodes.length

theorem Draft.numberedFrom_number {draft : Draft} {bench : Workbench}
    (fits : bench.nodeCount + draft.nodes.length ≤ 2 ^ 32) :
    Node.NumberedFrom bench.nodeCount (draft.number bench).1.nodes ∧
      (draft.number bench).1.nodes.length = draft.nodes.length := by
  obtain ⟨values, _⟩ := draft.nodes_number bench
  have length : (draft.number bench).1.nodes.length = draft.nodes.length := by
    simpa using congrArg List.length values
  refine ⟨?_, length⟩
  rw [Node.NumberedFrom, values, length, List.range'_eq_map_range]
  refine List.map_congr_left (fun i inside => Nat.mod_eq_of_lt ?_)
  exact Nat.lt_of_lt_of_le (Nat.add_lt_add_left (List.mem_range.1 inside) _) fits

namespace Node.NumberedFrom

variable {first : Nat} {nodes : List Node}

theorem nodup (numbered : NumberedFrom first nodes) : (nodes.map Node.id).Nodup := by
  refine List.Nodup.of_map NodeId.val ?_
  rw [List.map_map]
  exact numbered ▸ List.nodup_range'

theorem mem_ids_iff (numbered : NumberedFrom first nodes) (id : NodeId) :
    id ∈ nodes.map Node.id ↔ first ≤ id.val ∧ id.val < first + nodes.length := by
  have values : id ∈ nodes.map Node.id ↔ id.val ∈ nodes.map (fun node => node.id.val) := by
    constructor
    · intro member
      obtain ⟨node, inside, rfl⟩ := List.mem_map.1 member
      exact List.mem_map_of_mem inside
    · intro member
      obtain ⟨node, inside, same⟩ := List.mem_map.1 member
      exact List.mem_map.2 ⟨node, inside, NodeId.eq_of_val_eq same⟩
  rw [values, numbered, List.mem_range'_1]

/-- A number is that of one node or of none. -/
theorem count_id (numbered : NumberedFrom first nodes) (id : NodeId) :
    (nodes.map Node.id).count id =
      if first ≤ id.val ∧ id.val < first + nodes.length then 1 else 0 := by
  rw [numbered.nodup.count]
  exact if_congr (numbered.mem_ids_iff id) rfl rfl

/-- Nodes have ascending numbers, and so have any of them in the same order. -/
theorem ascending (numbered : NumberedFrom first nodes) {some : List Node}
    (inside : some.Sublist nodes) : some.Pairwise (fun a b => a.id.val < b.id.val) := by
  have all : (nodes.map (fun node => node.id.val)).Pairwise (· < ·) := by
    rw [numbered]
    exact List.pairwise_lt_range'
  exact (List.pairwise_map.1 all).sublist inside

end Node.NumberedFrom

/-- The numbers of the nodes of a program are those from the first up to the last, which is left
out, and a number stands for a place. -/
structure Program.NumberedWithin (p : NumberedProgram) (first last : Nat) : Prop where
  /-- Each of these numbers is that of one node, and any other number is that of none. -/
  count_id : ∀ id : NodeId,
    (p.nodes.map Node.id).count id = if first ≤ id.val ∧ id.val < last then 1 else 0
  /-- The nodes are those that are added when the program is put together. -/
  node_atoms : p.assembly.atoms.map Atom.node = p.nodes
  /-- What a step adds is numbered after all that it takes. -/
  parts_lt_own : ∀ step ∈ p.assembly, ∀ part ∈ step.parts, ∀ new ∈ step.own,
    part.node.id.val < new.node.id.val
  /-- What a step takes is numbered from left to right, and so is what it adds. -/
  ascending : ∀ step ∈ p.assembly,
    (step.parts ++ step.own).Pairwise (fun a b => a.node.id.val < b.node.id.val)
  /-- Identifiers have the same number only where they stand at the same place. -/
  id_eq_iff : ∀ i j : Fin p.identifiers.length,
    p.identifiers[i].node.id = p.identifiers[j].node.id ↔ i = j
  /-- A declaration stands in the way of a function of its name that stands at another place. -/
  blocks_iff : ∀ (i j : Fin p.identifiers.length) (kind : DeclarationKind),
    Declaration.blocks ⟨p.identifiers[i], kind⟩ p.identifiers[j] = true ↔
      i ≠ j ∧ p.identifiers[i].name = p.identifiers[j].name

namespace Program

variable {p : NumberedProgram} {first : Nat}

theorem ascending_of_sublist (numbered : Node.NumberedFrom first p.nodes)
    {atoms : List (Atom Node Name)} (inside : atoms.Sublist p.assembly.atoms) :
    atoms.Pairwise (fun a b => a.node.id.val < b.node.id.val) := by
  have nodes := inside.map Atom.node
  rw [p.makes_assembly.node_atoms] at nodes
  have ascending := numbered.ascending nodes
  rwa [List.pairwise_map] at ascending

/-- The identifier that stands further to the front has the smaller number. -/
theorem identifiers_id_lt (numbered : Node.NumberedFrom first p.nodes)
    {i j : Fin p.identifiers.length} (before : i < j) :
    p.identifiers[i].node.id.val < p.identifiers[j].node.id.val := by
  have inside : (p.identifiers.map Ident.node).Sublist p.nodes :=
    p.makes_assembly.node_atoms ▸ Atom.node_ident?_sublist p.assembly.atoms
  have ascending := numbered.ascending inside
  rw [List.pairwise_map] at ascending
  exact List.pairwise_iff_getElem.1 ascending i j i.isLt j.isLt before

theorem identifiers_id_eq_iff (numbered : Node.NumberedFrom first p.nodes)
    (i j : Fin p.identifiers.length) :
    p.identifiers[i].node.id = p.identifiers[j].node.id ↔ i = j := by
  constructor
  · intro same
    by_contra apart
    rcases Nat.lt_or_gt_of_ne (fun same => apart (Fin.ext same)) with before | after
    · exact Nat.ne_of_lt (identifiers_id_lt numbered before) (congrArg NodeId.val same)
    · exact Nat.ne_of_gt (identifiers_id_lt numbered after) (congrArg NodeId.val same)
  · rintro rfl
    rfl

end Program

/-- Numbering hands out the numbers from the count of the workbench on, each of them to one node, if
there are enough of them left. Otherwise the counter starts again at zero
(`numberedWithin_fails_beyond_width`). -/
theorem Draft.numberedWithin_number (draft : Draft) (bench : Workbench)
    (fits : bench.nodeCount + draft.nodes.length ≤ 2 ^ 32) :
    (draft.number bench).1.NumberedWithin bench.nodeCount
        (bench.nodeCount + draft.nodes.length) ∧
      (draft.number bench).2.nodeCount = (bench.nodeCount + draft.nodes.length) % 2 ^ 32 := by
  obtain ⟨numbered, length⟩ := Draft.numberedFrom_number fits
  have makes := (draft.number bench).1.makes_assembly
  have ascending := fun step member =>
    Program.ascending_of_sublist numbered (makes.sublist step member)
  have places := Program.identifiers_id_eq_iff numbered
  refine ⟨⟨?_, makes.node_atoms, ?_, ascending, places, ?_⟩, (draft.nodes_number bench).2⟩
  · intro id
    rw [← length]
    exact numbered.count_id id
  · intro step member part taken new added
    exact (List.pairwise_append.1 (ascending step member)).2.2 part taken new added
  · intro i j kind
    unfold Declaration.blocks
    rw [Bool.and_eq_true, bne_iff_ne, beq_iff_eq, ne_eq, places]

/-- `"d"; [, x] = y; function f() {}` -/
def mixedDraft : Draft :=
  .script .none [⟨.none, "d"⟩] [.expr .none (.assign .none .assign (.array .none [.hole .none,
      .element (.mk .none (.ident ⟨.none, "x"⟩) none)] none) (.ident ⟨.none, "y"⟩)),
    .function (.mk .none (some ⟨.none, "f"⟩) .none (.mk none [] none) (.block .none [] []))]

/-- The second program of a workbench has the numbers from 12 up to 23. -/
theorem mixedDraft_numberedWithin :
    (mixedDraft.number (mixedDraft.number .empty).2).1.NumberedWithin 12 24 ∧
      (mixedDraft.number (mixedDraft.number .empty).2).2.nodeCount = 24 :=
  mixedDraft.numberedWithin_number (mixedDraft.number .empty).2 (by decide +kernel)

/-- With a single number left, the second node of `;` gets the number zero. -/
theorem numberedWithin_fails_beyond_width :
    let draft : Draft := .script .none [] [.empty .none]
    let bench : Workbench := ⟨.empty, BitVec.allOnes 32⟩
    (draft.number bench).1.nodes.map (fun node => node.id.val) = [2 ^ 32 - 1, 0] ∧
      ¬ (draft.number bench).1.NumberedWithin bench.nodeCount
        (bench.nodeCount + draft.nodes.length) := by
  refine ⟨by decide +kernel, fun within => ?_⟩
  have counted := within.count_id ⟨0⟩
  revert counted
  decide +kernel

end ScopeAnalysis
