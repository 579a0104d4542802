import Mathlib.Logic.Function.Basic
import ScopeAnalysis.Proofs.LexicalScopes
import ScopeAnalysis.Proofs.Relabelling.Run
import ScopeAnalysis.Proofs.Renaming.Run

/-!
# Renamed trees

A tree whose variables get new names: their declarations and uses get them as well, and so do the
keys under which their uses pass through scopes. All uses under one key of a scope mean the same
variable, so a key is renamed like the first of its uses. If a renaming of identifiers is faithful
to a finished walk, the tree of the renamed walk is the renamed tree.
-/

namespace ScopeAnalysis

/-- The new key of an entry of uses that pass through a scope. -/
def Reference.renameKey (new : VariableId → Name → Name) (references : Array Reference)
    (entry : Name × List ReferenceId) : Name :=
  match entry.2.head?.bind (fun r => references[r.index]?) with
  | some use => new use.resolved entry.1
  | none => entry.1

/-- A scope whose variables are renamed. Nothing changes its place. -/
def Scope.rename (new : VariableId → Name → Name) (references : Array Reference) (scope : Scope) :
    Scope :=
  { scope with
    bindings := renameBindings new scope.bindings
    through := ⟨scope.through.entries.map
      (fun entry => (Reference.renameKey new references entry, entry.2))⟩ }

/-- A tree whose variables are renamed. -/
def ScopeTree.rename (new : VariableId → Name → Name) (tree : ScopeTree) : ScopeTree where
  scopes := tree.scopes.map (Scope.rename new tree.references)
  vars := tree.vars.mapIdx (fun i v => v.rename (new ⟨i⟩))
  references := tree.references.map (Reference.rename new)

namespace MultiMap

variable {κ κ' ν : Type} [DecidableEq κ] [DecidableEq κ']

/-- Keys that are not confused may be renamed before or after adding values. -/
theorem insertAll_map {g : κ → κ'} {known : Set κ} (apart : Set.InjOn g known)
    {map : MultiMap κ ν} (old : ∀ key ∈ map.keys, key ∈ known) (added : List (κ × ν))
    (more : ∀ pair ∈ added, pair.1 ∈ known) :
    (mk (map.entries.map (fun entry => (g entry.1, entry.2)))).insertAll
        (added.map (fun pair => (g pair.1, pair.2))) =
      mk ((map.insertAll added).entries.map (fun entry => (g entry.1, entry.2))) := by
  induction added generalizing map with
  | nil => rfl
  | cons first rest ih =>
    obtain ⟨here, others⟩ := List.forall_mem_cons.1 more
    have keys : ∀ key ∈ (map.insert first.1 first.2).keys, key ∈ known := by
      intro key member
      rw [keys_insert] at member
      split at member
      · exact old key member
      · rcases List.mem_append.1 member with before | last
        · exact old key before
        · exact List.mem_singleton.1 last ▸ here
    have step : insertEntry (g first.1) first.2
        (map.entries.map (fun entry => (g entry.1, entry.2))) =
          (map.insert first.1 first.2).entries.map (fun entry => (g entry.1, entry.2)) :=
      insertEntry_map first.2
        (fun entry member same => apart (old _ (List.mem_map_of_mem member)) here same)
    refine Eq.trans ?_ (ih keys others)
    exact congrArg (fun entries => (mk entries).insertAll _) step

/-- Values that are added under other keys, of which the same ones are equal, come to the same table
up to keys. -/
theorem insertAll_rekey {α : Type} [Nonempty κ'] {k : α → κ} {k' : α → κ'} (value : α → ν)
    {added : List α} (alike : ∀ a ∈ added, ∀ b ∈ added, k' a = k' b ↔ k a = k b) :
    ∃ g : κ → κ', (∀ a ∈ added, k' a = g (k a)) ∧
      empty.insertAll (added.map (fun a => (k' a, value a))) =
        mk ((empty.insertAll (added.map (fun a => (k a, value a)))).entries.map
          (fun entry => (g entry.1, entry.2))) := by
  obtain ⟨g, factors⟩ := (Function.factorsThrough_iff
    (f := fun a : {a // a ∈ added} => k a.1) (fun a => k' a.1)).1
    (fun a b same => (alike a.1 a.2 b.1 b.2).2 same)
  have rekeyed : ∀ a ∈ added, k' a = g (k a) := fun a member => congrFun factors ⟨a, member⟩
  have apart : Set.InjOn g {key | ∃ a ∈ added, k a = key} := by
    rintro _ ⟨a, member, rfl⟩ _ ⟨b, member', rfl⟩ same
    rw [← rekeyed a member, ← rekeyed b member'] at same
    exact (alike a member b member').1 same
  have start : ∀ key ∈ (empty : MultiMap κ ν).keys, ∃ a ∈ added, k a = key :=
    fun _ inside => absurd inside List.not_mem_nil
  have pairs : added.map (fun a => (k' a, value a)) =
      (added.map (fun a => (k a, value a))).map (fun pair => (g pair.1, pair.2)) := by
    rw [List.map_map]
    exact List.map_congr_left (fun a member => congrArg (·, value a) (rekeyed a member))
  refine ⟨g, rekeyed, ?_⟩
  rw [pairs]
  exact insertAll_map apart start (added.map (fun a => (k a, value a)))
    (List.forall_mem_map.2 (fun a member => ⟨a, member, rfl⟩))

end MultiMap

namespace Resolution.State

variable {f : Occurrence → Name} {new : VariableId → Name → Name} {arguments : Name} {s t : State}

variable (new) in
/-- The first use of an entry in the table of a scope. -/
theorem exists_use_of_entry {added : List (Occurrence × ReferenceId)} {references : Array Reference}
    (recorded : ∀ pass ∈ added, ∃ use, references[pass.2.index]? = some use ∧ use.id = pass.1)
    {entry : Name × List ReferenceId}
    (member : entry ∈ ((MultiMap.empty : MultiMap Name ReferenceId).insertAll
      (added.map (fun pass => (pass.1.name, pass.2)))).entries) :
    ∃ pass ∈ added, ∃ use, references[pass.2.index]? = some use ∧ use.id = pass.1 ∧
      pass.1.name = entry.1 ∧
        Reference.renameKey new references entry = new use.resolved entry.1 := by
  obtain ⟨name, uses⟩ := entry
  cases uses with
  | nil => exact absurd (MultiMap.mem_insertAll_nil member) List.not_mem_nil
  | cons r rest =>
    have pair : (name, r) ∈ ((MultiMap.empty : MultiMap Name ReferenceId).insertAll
        (added.map (fun pass => (pass.1.name, pass.2)))).pairs :=
      List.mem_flatMap.2 ⟨_, member, List.mem_map_of_mem List.mem_cons_self⟩
    rcases (MultiMap.mem_pairs_insertAll _ _ _).1 pair with old | new
    · cases old
    · obtain ⟨pass, there, same⟩ := List.mem_map.1 new
      cases same
      obtain ⟨use, found, eq⟩ := recorded pass there
      refine ⟨pass, there, use, found, eq, rfl, ?_⟩
      simp [Reference.renameKey, found]

/-- Two uses that pass through a scope have the same new name if and only if they had the same name,
since then they mean the same variable. -/
theorem eq_iff_of_passes (coherent : s.Coherent) (routed : s.Routed)
    (faithful : s.tree.Faithful f new arguments) {id : ScopeId} {scope : Scope}
    (found : s.tree.scopeAt? id = some scope) {r r' : ReferenceId} {use use' : Reference}
    (there : s.references[r.index]? = some use) (there' : s.references[r'.index]? = some use')
    (pass : (use.id.name, r) ∈ scope.through.pairs)
    (pass' : (use'.id.name, r') ∈ scope.through.pairs) :
    f use.id = f use'.id ↔ use.id.name = use'.id.name := by
  rw [faithful.used _ use there, faithful.used _ use' there']
  constructor
  · intro same
    obtain ⟨v, foundV, name⟩ := routed.meant coherent (r := r) there
    obtain ⟨w, foundW, name'⟩ := routed.meant coherent (r := r') there'
    rw [← name, ← name'] at same ⊢
    exact faithful.apart _ _ v w foundV foundW same
  · intro same
    obtain ⟨_, again, _, finds⟩ := routed.finds_of_mem_pairs found pass
    obtain ⟨_, again', _, finds'⟩ := routed.finds_of_mem_pairs found pass'
    cases there.symm.trans again
    cases there'.symm.trans again'
    rw [← same] at finds' ⊢
    rw [finds.unique finds']

/-- A scope of the renamed state is the renamed scope. -/
theorem Renames.scope_eq (renames : Renames f new s t) (coherent : s.Coherent) (routed : s.Routed)
    (faithful : s.tree.Faithful f new arguments) {i : Nat} {a b : Scope}
    (found : s.scopes[i]? = some a) (found' : t.scopes[i]? = some b) :
    b = a.rename new s.references := by
  obtain ⟨frame, bindings, added, through, through', recorded⟩ := renames.scopes i a b found found'
  have placed : s.tree.scopeAt? ⟨i⟩ = some a := found
  have passes : ∀ pass ∈ added, (pass.1.name, pass.2) ∈ a.through.pairs := by
    intro pass member
    rw [through, MultiMap.mem_pairs_insertAll]
    exact .inr (List.mem_map_of_mem member)
  have alike : ∀ first ∈ added, ∀ second ∈ added,
      f first.1 = f second.1 ↔ first.1.name = second.1.name := by
    intro first member second member'
    obtain ⟨use, there, same⟩ := recorded first member
    obtain ⟨use', there', same'⟩ := recorded second member'
    have pass := passes first member
    have pass' := passes second member'
    rw [← same] at pass ⊢
    rw [← same'] at pass' ⊢
    exact eq_iff_of_passes coherent routed faithful placed there there' pass pass'
  have : Nonempty Name := ⟨⟨0⟩⟩
  obtain ⟨g, rekeyed, table⟩ := MultiMap.insertAll_rekey Prod.snd alike
  have keys : ∀ entry ∈ a.through.entries,
      g entry.1 = Reference.renameKey new s.references entry := by
    intro entry member
    rw [through] at member
    obtain ⟨pass, inside, use, there, same, name, key⟩ := exists_use_of_entry new recorded member
    rw [key, ← name, ← rekeyed pass inside, ← same]
    exact faithful.used _ use there
  have renamed : b.through = ⟨a.through.entries.map
      (fun entry => (Reference.renameKey new s.references entry, entry.2))⟩ := by
    rw [through', table, ← through]
    exact congrArg MultiMap.mk
      (List.map_congr_left (fun entry member => congrArg (·, entry.2) (keys entry member)))
  obtain ⟨id, kind, node, parent, children, _, dynamic, _⟩ := b
  simp only [Scope.frame, Frame.mk.injEq] at frame
  simp only [Scope.rename, Scope.mk.injEq]
  exact ⟨frame.1, frame.2.1, frame.2.2.1, frame.2.2.2.1, frame.2.2.2.2.1, bindings,
    frame.2.2.2.2.2, renamed⟩

/-- The tree of a renamed state is the renamed tree. -/
theorem Renames.tree_eq (renames : Renames f new s t) (coherent : s.Coherent) (routed : s.Routed)
    (faithful : s.tree.Faithful f new arguments) : t.tree = s.tree.rename new := by
  have scopes : t.scopes = s.scopes.map (Scope.rename new s.references) := by
    refine Array.ext (by rw [Array.size_map, renames.size]) (fun i below below' => ?_)
    rw [Array.size_map] at below'
    rw [Array.getElem_map]
    exact renames.scope_eq coherent routed faithful (Array.getElem?_eq_getElem below')
      (Array.getElem?_eq_getElem below)
  rw [tree, scopes, renames.vars, renames.references]
  rfl

end Resolution.State

end ScopeAnalysis
