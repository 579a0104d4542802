import ScopeAnalysis.Proofs.DepthFirst
import ScopeAnalysis.Proofs.KnownNames
import ScopeAnalysis.Proofs.LexicalScopes
import ScopeAnalysis.Proofs.ParameterScopes
import ScopeAnalysis.Proofs.Renaming.Run
import ScopeAnalysis.ScopeTree.Summary

/-!
# What a summary shows

The summary of a tree is built from the root down, one child at a time. In the tree of an analyzed
program this ends, and read from the top it shows every scope once, at the position of its identity.
Since every variable belongs to one scope and every use to one variable, nothing is left out of a
summary and nothing is shown twice.
-/

namespace ScopeAnalysis

namespace Summary

/-- What a summary shows of one scope. -/
structure Row where
  kind : ScopeKind
  dynamic : Bool
  vars : List VariableSummary
  through : List ThroughSummary

namespace Row

def accesses (row : Row) : List Access := row.vars.flatMap VariableSummary.references

def declarationKinds (row : Row) : List DeclarationKind :=
  row.vars.flatMap VariableSummary.declarations

end Row

mutual

/-- What a summary shows, a scope before all that is below it. -/
def rows : Summary → List Row
  | .mk kind dynamic vars through children => ⟨kind, dynamic, vars, through⟩ :: rowsAll children

def rowsAll : List Summary → List Row
  | [] => []
  | summary :: rest => rows summary ++ rowsAll rest

end

mutual

theorem scopeCount_eq_length_rows : ∀ summary : Summary, summary.scopeCount = summary.rows.length
  | .mk _ _ _ _ children => by
    rw [scopeCount, rows, List.length_cons, scopeCounts_eq_length_rowsAll children, Nat.add_comm]

theorem scopeCounts_eq_length_rowsAll :
    ∀ summaries : List Summary, scopeCounts summaries = (rowsAll summaries).length
  | [] => rfl
  | summary :: rest => by
    rw [scopeCounts, rowsAll, List.length_append, scopeCount_eq_length_rows summary,
      scopeCounts_eq_length_rowsAll rest]

end

end Summary

section Shows

variable (tree : ScopeTree) (names : Interner)

/-- A variable with its text, the kinds of its declarations and the accesses of its uses. -/
structure VariableSummary.Shows (shown : VariableSummary) (v : Variable) : Prop where
  name : names.text? v.name = some shown.name
  declarations : shown.declarations = v.declarations.map Declaration.kind
  references : List.Forall₂
    (fun access r => ∃ use, tree.referenceAt? r = some use ∧ use.access = access)
    shown.references v.references

/-- A scope with its variables in their order, and the names that pass through it with the number of
their uses. -/
structure Summary.Row.Shows (row : Summary.Row) (scope : Scope) : Prop where
  kind : row.kind = scope.kind
  dynamic : row.dynamic = scope.dynamic
  vars : List.Forall₂ (fun (shown : VariableSummary) entry =>
    ∃ v, tree.variableAt? entry.2 = some v ∧ shown.Shows tree names v) row.vars scope.bindings
  through : List.Forall₂ (fun (shown : ThroughSummary) entry =>
    names.text? entry.1 = some shown.name ∧ shown.count = entry.2.length)
    row.through scope.through.entries

/-- A summary that shows a whole tree and nothing else. -/
structure Summary.ShowsTree (summary : Summary) : Prop where
  /-- The scopes stand at the positions of their identities. -/
  rows : ∀ (i : Nat) (row : Summary.Row), summary.rows[i]? = some row →
    ∃ scope, tree.scopeAt? ⟨i⟩ = some scope ∧ scope.id = ⟨i⟩ ∧ row.Shows tree names scope
  length : summary.rows.length = tree.scopes.size
  scopeCount : summary.scopeCount = tree.scopes.size
  accesses : (summary.rows.flatMap Summary.Row.accesses).Perm
    (tree.references.toList.map Reference.access)
  declarationKinds : (summary.rows.flatMap Summary.Row.declarationKinds).Perm
    ((tree.vars.toList.flatMap Variable.declarations).map Declaration.kind)
  /-- A name is shown with as many uses as a query for it gives. -/
  through : ∀ (i : Nat) (row : Summary.Row), summary.rows[i]? = some row →
    ∀ shown ∈ row.through, ∃ uses,
      tree.through? names ⟨i⟩ shown.name = some uses ∧ uses.length = shown.count

end Shows

/-- Where every step of a traversal succeeds, so does the traversal. -/
theorem exists_mapM_of_forall {α β : Type} {f : α → Option β} {R : β → α → Prop} {as : List α}
    (each : ∀ a ∈ as, ∃ b, f a = some b ∧ R b a) :
    ∃ bs, as.mapM f = some bs ∧ List.Forall₂ R bs as := by
  induction as with
  | nil => exact ⟨[], rfl, .nil⟩
  | cons a rest ih =>
    obtain ⟨⟨b, found, here⟩, others⟩ := List.forall_mem_cons.1 each
    obtain ⟨bs, all, further⟩ := ih others
    exact ⟨b :: bs, by simp [found, all], .cons here further⟩

theorem mapM_singleton {α β : Type} (f : α → Option β) (a : α) :
    [a].mapM f = (f a).map (fun b => [b]) := by
  cases found : f a <;> simp [found]

/-- Lists without repetitions that have nothing in common make up a list in which each of their
members stands once. -/
theorem perm_flatMap_of_apart {α β : Type} {as : List α} {f : α → List β} {all : List β}
    (unique : all.Nodup) (each : ∀ a ∈ as, (f a).Nodup)
    (apart : ∀ (i j : Nat) (a a' : α) (b : β),
      as[i]? = some a → as[j]? = some a' → b ∈ f a → b ∈ f a' → i = j)
    (same : ∀ b, (∃ a ∈ as, b ∈ f a) ↔ b ∈ all) : (as.flatMap f).Perm all := by
  have disjoint : as.Pairwise (Function.onFun List.Disjoint f) := by
    refine List.pairwise_iff_getElem.2 (fun i j below below' earlier b first second => ?_)
    exact Nat.ne_of_lt earlier (apart i j _ _ b (List.getElem?_eq_getElem below)
      (List.getElem?_eq_getElem below') first second)
  refine (List.perm_ext_iff_of_nodup (List.nodup_flatMap.2 ⟨each, disjoint⟩) unique).2 (fun b => ?_)
  rw [List.mem_flatMap, same]

/-- What hangs on the members of a list hangs on their positions. -/
theorem flatMap_range_elim {α β : Type} (as : List α) (f : α → List β) :
    (List.range as.length).flatMap (fun i => as[i]?.elim [] f) = as.flatMap f := by
  induction as with
  | nil => rfl
  | cons a rest ih =>
    rw [List.length_cons, List.range_succ_eq_map, List.flatMap_cons, List.flatMap_map]
    simpa using ih

theorem flatMap_eq_of_forall₂ {α β γ : Type} {f : α → List γ} {g : β → List γ} {as : List α}
    {bs : List β} (each : List.Forall₂ (fun a b => f a = g b) as bs) :
    as.flatMap f = bs.flatMap g := by
  induction each with
  | nil => rfl
  | cons here _ ih => rw [List.flatMap_cons, List.flatMap_cons, here, ih]

namespace MultiMap

variable {κ ν : Type} [DecidableEq κ]

theorem nodup_keys_insertAll {map : MultiMap κ ν} (unique : map.keys.Nodup) (added : List (κ × ν)) :
    (map.insertAll added).keys.Nodup := by
  induction added generalizing map with
  | nil => exact unique
  | cons first rest ih =>
    refine ih ?_
    rw [keys_insert]
    split
    · exact unique
    next absent =>
      exact unique.append (List.nodup_singleton _) (List.disjoint_singleton.2 absent)

/-- The values of an entry are those under its key. -/
theorem get_of_mem_entries {map : MultiMap κ ν} (unique : map.keys.Nodup) {entry : κ × List ν}
    (member : entry ∈ map.entries) : map.get entry.1 = entry.2 := by
  obtain ⟨entries⟩ := map
  induction entries with
  | nil => cases member
  | cons first rest ih =>
    obtain ⟨absent, others⟩ := List.nodup_cons.1 unique
    rcases List.mem_cons.1 member with rfl | further
    · simp [get]
    · have other : first.1 ≠ entry.1 := fun same => absent (same ▸ List.mem_map_of_mem further)
      have later := ih others further
      simpa [get, other] using later

end MultiMap

/-- What the summary of a tree shows of one scope. -/
def ScopeTree.row? (tree : ScopeTree) (names : Interner) (id : ScopeId) : Option Summary.Row := do
  let scope ← tree.scopeAt? id
  let vars ← scope.bindings.mapM (fun entry => tree.summarizeVariable names entry.2)
  some ⟨scope.kind, scope.dynamic, vars, ScopeTree.summarizeThrough names scope⟩

namespace Resolution

variable {s : State} {names : Interner}

/-- A forest can be summarized from its roots, and its summaries show the scope at each of its
positions. -/
theorem Forest.exists_rows {parent : Option ScopeId} {lo hi : Nat} {ids : List ScopeId}
    (forest : Forest s.linksAt parent lo ids hi)
    (shown : ∀ i, lo ≤ i → i < hi → ∃ row, s.tree.row? names ⟨i⟩ = some row) :
    ∃ summaries,
      (∀ depth, hi - lo ≤ depth →
        ids.mapM (s.tree.summarizeScope names depth) = some summaries) ∧
      (Summary.rowsAll summaries).map some =
        (List.range' lo (hi - lo)).map (fun i => s.tree.row? names ⟨i⟩) := by
  induction forest with
  | nil parent lo => exact ⟨[], fun _ _ => rfl, by simp [Summary.rowsAll]⟩
  | @cons parent lo mid hi below beside found inner outer ihInner ihOuter =>
    have up := inner.le
    have further := outer.le
    obtain ⟨row, here⟩ := shown lo (Nat.le_refl _) (by omega)
    obtain ⟨children, deeper, rowsInner⟩ :=
      ihInner (fun i above under => shown i (by omega) (by omega))
    obtain ⟨others, apart, rowsOuter⟩ :=
      ihOuter (fun i above under => shown i (by omega) under)
    obtain ⟨scope, there, _, rfl⟩ := State.exists_of_linksAt found
    obtain ⟨vars, all, rfl⟩ : ∃ vars,
        scope.bindings.mapM (fun entry => s.tree.summarizeVariable names entry.2) = some vars ∧
        ⟨scope.kind, scope.dynamic, vars, ScopeTree.summarizeThrough names scope⟩ = row := by
      simpa [ScopeTree.row?, there, Option.bind_eq_some_iff] using here
    let summary : Summary :=
      .mk scope.kind scope.dynamic vars (ScopeTree.summarizeThrough names scope) children
    refine ⟨summary :: others, fun depth enough => ?_, ?_⟩
    · obtain ⟨less, rfl⟩ : ∃ less, depth = less + 1 := ⟨depth - 1, by omega⟩
      have first : s.tree.summarizeScope names (less + 1) ⟨lo⟩ = some summary := by
        simp [ScopeTree.summarizeScope, there, all, deeper less (by omega), summary]
      simp [first, apart (less + 1) (by omega)]
    · have behind : lo + 1 + (mid - (lo + 1)) = mid := by omega
      have count : hi - lo = (mid - (lo + 1) + (hi - mid)) + 1 := by omega
      rw [count, List.range'_succ, ← List.range'_append_1, behind, List.map_cons, here,
        List.map_append, ← rowsInner, ← rowsOuter]
      simp [Summary.rowsAll, Summary.rows, summary]

namespace State

/-- Every variable is bound by one scope, once. -/
theorem Coherent.perm_flatMap_bindings (coherent : s.Coherent) :
    (s.scopes.toList.flatMap (fun scope => scope.bindings.map Prod.snd)).Perm
      ((List.range s.vars.size).map VariableId.mk) := by
  have bound {i : Nat} {scope : Scope} (found : s.scopes.toList[i]? = some scope) {id : VariableId}
      (member : id ∈ scope.bindings.map Prod.snd) :
      ∃ v, s.vars[id.index]? = some v ∧ v.scope = ⟨i⟩ := by
    rw [Array.getElem?_toList] at found
    have bindings : s.bindingsOf ⟨i⟩ = scope.bindings := bindingsOf_eq found
    obtain ⟨entry, inside, rfl⟩ := List.mem_map.1 member
    obtain ⟨v, there, _, owner⟩ := coherent.bound ⟨i⟩ entry (bindings ▸ inside)
    exact ⟨v, there, owner⟩
  refine perm_flatMap_of_apart ?_ (fun scope member => ?_) ?_ (fun id => ⟨?_, fun member => ?_⟩)
  · exact List.nodup_range.map (fun _ _ same => congrArg VariableId.index same)
  · obtain ⟨i, found⟩ := List.getElem?_of_mem member
    rw [Array.getElem?_toList] at found
    have bindings : s.bindingsOf ⟨i⟩ = scope.bindings := bindingsOf_eq found
    have indices := coherent.nodup_indices ⟨i⟩
    rw [bindings] at indices
    exact List.Nodup.of_map VariableId.index (by rwa [List.map_map])
  · intro i j a a' id found found' member member'
    obtain ⟨v, there, owner⟩ := bound found member
    obtain ⟨v', there', owner'⟩ := bound found' member'
    cases there.symm.trans there'
    exact congrArg ScopeId.index (owner.symm.trans owner')
  · rintro ⟨scope, inside, member⟩
    obtain ⟨i, found⟩ := List.getElem?_of_mem inside
    obtain ⟨v, there, _⟩ := bound found member
    have below := (Array.getElem?_eq_some_iff.1 there).1
    exact List.mem_map.2 ⟨id.index, List.mem_range.2 below, rfl⟩
  · obtain ⟨i, below, rfl⟩ := List.mem_map.1 member
    have there := Array.getElem?_eq_getElem (List.mem_range.1 below)
    have held := coherent.held i _ there
    obtain ⟨scope, found⟩ := exists_of_mem_bindingsOf held
    rw [bindingsOf_eq found] at held
    exact ⟨scope, List.mem_of_getElem? ((Array.getElem?_toList ..).trans found),
      List.mem_map_of_mem held⟩

/-- Every use is listed by the variable that it means, once. -/
theorem Accounted.perm_flatMap_references (accounted : s.Accounted none) :
    (s.vars.toList.flatMap Variable.references).Perm
      ((List.range s.references.size).map ReferenceId.mk) := by
  have listed {i : Nat} {v : Variable} (found : s.vars.toList[i]? = some v) :
      v.references = s.referencesTo ⟨i⟩ :=
    accounted.listed i v ((Array.getElem?_toList ..).symm.trans found)
  have injective : Function.Injective ReferenceId.mk :=
    fun _ _ same => congrArg ReferenceId.index same
  refine perm_flatMap_of_apart (List.nodup_range.map injective) (fun v member => ?_) ?_
    (fun r => ⟨?_, fun member => ?_⟩)
  · obtain ⟨i, found⟩ := List.getElem?_of_mem member
    rw [listed found]
    exact (List.nodup_range.filter _).map injective
  · intro i j a a' r found found' member member'
    rw [listed found] at member
    rw [listed found'] at member'
    obtain ⟨use, there, meant⟩ := mem_referencesTo.1 member
    obtain ⟨use', there', meant'⟩ := mem_referencesTo.1 member'
    cases there.symm.trans there'
    exact congrArg VariableId.index (meant.symm.trans meant')
  · rintro ⟨v, inside, member⟩
    obtain ⟨i, found⟩ := List.getElem?_of_mem inside
    rw [listed found] at member
    obtain ⟨use, there, _⟩ := mem_referencesTo.1 member
    have below := (Array.getElem?_eq_some_iff.1 there).1
    exact List.mem_map.2 ⟨r.index, List.mem_range.2 below, rfl⟩
  · obtain ⟨i, below, rfl⟩ := List.mem_map.1 member
    obtain ⟨use, there⟩ : ∃ use, s.references[i]? = some use :=
      ⟨_, Array.getElem?_eq_getElem (List.mem_range.1 below)⟩
    have known := accounted.meant i use there
    have found : s.vars.toList[use.resolved.index]? = some s.vars[use.resolved.index] :=
      (Array.getElem?_toList ..).trans (Array.getElem?_eq_getElem known)
    refine ⟨_, List.mem_of_getElem? found, ?_⟩
    rw [listed found]
    exact mem_referencesTo.2 ⟨use, there, rfl⟩

/-- Every scope can be shown. -/
theorem exists_row (coherent : s.Coherent) (accounted : s.Accounted none)
    (named : s.tree.IsNamedIn names) {i : Nat} {scope : Scope}
    (found : s.tree.scopeAt? ⟨i⟩ = some scope) :
    ∃ row, s.tree.row? names ⟨i⟩ = some row ∧ row.Shows s.tree names scope := by
  have shown : ∀ entry ∈ scope.bindings,
      ∃ shown, s.tree.summarizeVariable names entry.2 = some shown ∧
        ∃ v, s.tree.variableAt? entry.2 = some v ∧ shown.Shows s.tree names v := by
    intro entry member
    have bindings : s.bindingsOf ⟨i⟩ = scope.bindings := bindingsOf_eq found
    obtain ⟨v, there, _, _⟩ := coherent.bound ⟨i⟩ entry (bindings ▸ member)
    obtain ⟨text, known⟩ := named.vars v
      (List.mem_of_getElem? ((Array.getElem?_toList ..).trans there))
    have uses : ∀ r ∈ v.references, ∃ access,
        (s.tree.referenceAt? r).map Reference.access = some access ∧
          ∃ use, s.tree.referenceAt? r = some use ∧ use.access = access := by
      intro r listed
      obtain ⟨use, there', _⟩ := (accounted.mem_references there r).1 listed
      exact ⟨use.access, by rw [there']; rfl, use, there', rfl⟩
    obtain ⟨accesses, all, each⟩ := exists_mapM_of_forall uses
    have there : s.tree.variableAt? entry.2 = some v := there
    refine ⟨⟨text, v.declarations.map Declaration.kind, accesses⟩, ?_, v, there, known, rfl, each⟩
    simp [ScopeTree.summarizeVariable, there, all, Interner.text_of_text? known]
  obtain ⟨vars, all, each⟩ := exists_mapM_of_forall shown
  refine ⟨⟨scope.kind, scope.dynamic, vars, ScopeTree.summarizeThrough names scope⟩,
    by simp [ScopeTree.row?, found, all], rfl, rfl, each, ?_⟩
  rw [ScopeTree.summarizeThrough, List.forall₂_map_left_iff, List.forall₂_same]
  intro entry member
  obtain ⟨text, known⟩ := named.through scope
    (List.mem_of_getElem? ((Array.getElem?_toList ..).trans found)) entry member
  exact ⟨by rw [known, Interner.text_of_text? known], rfl⟩

end State

/-- What summaries show of the variables of a tree, scope by scope, is what there is of them. -/
theorem State.perm_rows (coherent : s.Coherent) {rows : List Summary.Row}
    (shown : List.Forall₂ (fun (row : Summary.Row) scope => row.Shows s.tree names scope) rows
      s.scopes.toList) {β : Type} {part : VariableSummary → List β} {whole : Variable → List β}
    (same : ∀ shown v, v ∈ s.vars.toList → shown.Shows s.tree names v → part shown = whole v) :
    (rows.flatMap (fun row => row.vars.flatMap part)).Perm (s.vars.toList.flatMap whole) := by
  have each : List.Forall₂ (fun (row : Summary.Row) (scope : Scope) =>
      row.vars.flatMap part = (scope.bindings.map Prod.snd).flatMap
        (fun id => s.vars[id.index]?.elim [] whole)) rows s.scopes.toList := by
    refine shown.imp (fun row scope holds => ?_)
    rw [List.flatMap_map]
    refine flatMap_eq_of_forall₂ (holds.vars.imp ?_)
    rintro summary entry ⟨v, found, shows⟩
    have found : s.vars[entry.2.index]? = some v := found
    rw [same summary v (List.mem_of_getElem? ((Array.getElem?_toList ..).trans found)) shows, found]
    rfl
  rw [flatMap_eq_of_forall₂ each, ← List.flatMap_assoc]
  refine (coherent.perm_flatMap_bindings.flatMap_right _).trans (.of_eq ?_)
  rw [List.flatMap_map, ← flatMap_range_elim s.vars.toList]
  simp only [Array.getElem?_toList, Array.length_toList]

namespace State

/-- Where all scopes can be shown, the summary from the root shows them in the order of their
numbers. -/
theorem exists_summary (forest : Forest s.linksAt none 0 [ScopeId.root] s.scopes.size)
    (shown : ∀ i < s.scopes.size, ∃ row, s.tree.row? names ⟨i⟩ = some row) :
    ∃ summary, (∀ depth, s.scopes.size ≤ depth →
      s.tree.summarizeScope names depth ScopeId.root = some summary) ∧
        summary.rows.map some =
          (List.range s.scopes.size).map (fun i => s.tree.row? names ⟨i⟩) := by
  obtain ⟨summaries, ends, listed⟩ := forest.exists_rows (fun i _ below => shown i below)
  simp only [mapM_singleton, Option.map_eq_some_iff] at ends
  obtain ⟨summary, _, rfl⟩ := ends s.scopes.size (Nat.sub_le ..)
  refine ⟨summary, fun depth enough => ?_, ?_⟩
  · obtain ⟨other, found, same⟩ := ends depth enough
    cases same
    exact found
  · simpa [Summary.rowsAll, List.range_eq_range'] using listed

/-- What passes through a scope is shown as often as a query gives it. -/
theorem length_through? {place : ScopeId} {scope : Scope}
    (found : s.tree.scopeAt? place = some scope) (apart : scope.through.keys.Nodup)
    (there : ∀ name, ∀ r ∈ scope.through.get name, ∃ use, s.tree.referenceAt? r = some use)
    {row : Summary.Row} (shows : row.Shows s.tree names scope) {shown : ThroughSummary}
    (member : shown ∈ row.through) :
    ∃ uses, s.tree.through? names place shown.name = some uses ∧ uses.length = shown.count := by
  obtain ⟨entry, inside, known, count⟩ := exists_of_forall₂_of_mem shows.through.flip member
  have values := MultiMap.get_of_mem_entries apart inside
  obtain ⟨uses, all, each⟩ := exists_mapM_of_forall (R := fun _ _ => True)
    (fun r listed => (there entry.1 r listed).imp (fun _ found => ⟨found, trivial⟩))
  refine ⟨uses, ?_, ?_⟩
  · simp only [ScopeTree.through?, Interner.find?_of_text? known, found]
    exact all
  · rw [each.length_eq, values, count]

/-- Every use is shown once, with the variable that it means. -/
theorem perm_accesses (coherent : s.Coherent) (accounted : s.Accounted none)
    {rows : List Summary.Row}
    (shown : List.Forall₂ (fun (row : Summary.Row) scope => row.Shows s.tree names scope) rows
      s.scopes.toList) :
    (rows.flatMap Summary.Row.accesses).Perm (s.references.toList.map Reference.access) := by
  let accessOf (r : ReferenceId) : List Access :=
    s.references[r.index]?.elim [] (fun use => [use.access])
  have each (shown : VariableSummary) (v : Variable) (shows : shown.Shows s.tree names v) :
      shown.references = v.references.flatMap accessOf := by
    rw [← List.flatMap_singleton' shown.references]
    refine flatMap_eq_of_forall₂ (shows.references.imp ?_)
    rintro access r ⟨use, found, rfl⟩
    have found : s.references[r.index]? = some use := found
    simp only [accessOf, found, Option.elim_some]
  refine (perm_rows coherent shown (fun shown v _ => each shown v)).trans ?_
  rw [← List.flatMap_assoc]
  refine (accounted.perm_flatMap_references.flatMap_right accessOf).trans (.of_eq ?_)
  rw [List.flatMap_map, List.map_eq_flatMap, ← flatMap_range_elim s.references.toList]
  simp only [accessOf, Array.getElem?_toList, Array.length_toList]

/-- Rows that are those of the scopes in the order of their numbers show the scopes one by one. -/
theorem forall₂_shows {rows : List Summary.Row}
    (shown : ∀ (i : Nat) (scope : Scope), s.tree.scopeAt? ⟨i⟩ = some scope →
      ∃ row, s.tree.row? names ⟨i⟩ = some row ∧ row.Shows s.tree names scope)
    (listed : rows.map some = (List.range s.scopes.size).map (fun i => s.tree.row? names ⟨i⟩)) :
    List.Forall₂ (fun (row : Summary.Row) scope => row.Shows s.tree names scope) rows
      s.scopes.toList := by
  have length : rows.length = s.scopes.size := by simpa using congrArg List.length listed
  refine List.forall₂_iff_get.2 ⟨length, fun i below below' => ?_⟩
  have inside : i < s.scopes.size := below'
  obtain ⟨row, found, shows⟩ := shown i s.scopes[i] (Array.getElem?_eq_getElem inside)
  have same := congrArg (·[i]?) listed
  simp only [List.getElem?_map, List.getElem?_eq_getElem below, List.getElem?_range inside,
    Option.map_some, found, Option.some.injEq] at same
  simp only [List.get_eq_getElem, Array.getElem_toList, same]
  exact shows

/-- A tree of all scopes below a root has a summary, and it shows the whole tree. -/
theorem exists_showsTree (forest : Forest s.linksAt none 0 [ScopeId.root] s.scopes.size)
    (coherent : s.Coherent) (accounted : s.Accounted none) (named : s.tree.IsNamedIn names)
    (passes : ∀ place scope, s.tree.scopeAt? place = some scope → scope.through.keys.Nodup ∧
      ∀ name, ∀ r ∈ scope.through.get name, ∃ use, s.tree.referenceAt? r = some use) :
    ∃ summary, (∀ depth, s.scopes.size ≤ depth →
      s.tree.summarizeScope names depth ScopeId.root = some summary) ∧
        summary.ShowsTree s.tree names := by
  have shown (i : Nat) (scope : Scope) (found : s.tree.scopeAt? ⟨i⟩ = some scope) :=
    exists_row coherent accounted named found
  obtain ⟨summary, ends, listed⟩ := exists_summary forest (fun i below =>
    (shown i _ (Array.getElem?_eq_getElem below)).imp (fun _ => And.left))
  have inOrder := forall₂_shows shown listed
  have length : summary.rows.length = s.scopes.size := inOrder.length_eq
  have rows (i : Nat) (row : Summary.Row) (here : summary.rows[i]? = some row) :
      ∃ scope, s.tree.scopeAt? ⟨i⟩ = some scope ∧ row.Shows s.tree names scope := by
    obtain ⟨below, rfl⟩ := List.getElem?_eq_some_iff.1 here
    have inside : i < s.scopes.size := length ▸ below
    exact ⟨s.scopes[i], Array.getElem?_eq_getElem inside, inOrder.get below inside⟩
  refine ⟨summary, ends, fun i row here => ?_, length,
    summary.scopeCount_eq_length_rows.trans length, perm_accesses coherent accounted inOrder, ?_,
    fun i row here shown member => ?_⟩
  · obtain ⟨scope, found, shows⟩ := rows i row here
    exact ⟨scope, found, coherent.placed i scope found, shows⟩
  · refine (perm_rows coherent inOrder (fun _ _ _ shows => shows.declarations)).trans
      (.of_eq ?_)
    rw [List.map_flatMap]
    rfl
  · obtain ⟨scope, found, shows⟩ := rows i row here
    obtain ⟨apart, there⟩ := passes ⟨i⟩ scope found
    exact length_through? found apart there shows member

end State

end Resolution

section Analyzed

open Resolution

variable {options : Options} {p : NumberedProgram} {names names' : Interner} {a : Analysis}

/-- Uses pass through a scope under different names, and they are uses of the tree. -/
theorem through_of_analyze (analyzed : p.analyze options names = (.ok a, names'))
    {place : ScopeId} {scope : Scope} (found : a.tree.scopeAt? place = some scope) :
    scope.through.keys.Nodup ∧
      ∀ name, ∀ r ∈ scope.through.get name, ∃ use, a.tree.referenceAt? r = some use := by
  obtain ⟨node, decls, inner, agrees, tree⟩ :=
    exists_layout (given_nothing options names p.pieces) analyzed
  have named := agrees.named
  rw [Layout.argumentNamesAll, Layout.argumentNamesAll, List.append_nil] at named
  -- Every state is its own renaming, and a renaming tells how uses came to pass through a scope.
  have faithful : ((State.initial #[.start p.isModule p.node.id]).layOut
      (.scope .global node none decls inner)).tree.Faithful Ident.name (fun _ name => name)
        (SpecialNames.intern names).1.arguments :=
    ⟨fun _ _ _ _ _ => rfl, fun _ _ _ => rfl, fun _ _ _ _ _ _ same => same, fun _ _ _ same => same⟩
  have renames := State.Renames.scope #[.start p.isModule p.node.id] #[] .global node decls inner
    named faithful
  rw [tree] at found ⊢
  generalize (State.initial #[.start p.isModule p.node.id]).layOut
    (.scope .global node none decls inner) = s at renames found ⊢
  have there : place.index < s.scopes.size := (Array.getElem?_eq_some_iff.1 found).1
  rw [← renames.size] at there
  obtain ⟨added, through, _, recorded⟩ :=
    (renames.scopes place.index scope _ found (Array.getElem?_eq_getElem there)).through
  rw [through]
  have unused : (MultiMap.empty : MultiMap Name ReferenceId).keys.Nodup := List.nodup_nil
  refine ⟨MultiMap.nodup_keys_insertAll unused _, fun name r member => ?_⟩
  rw [MultiMap.get_insertAll, MultiMap.get_empty, List.nil_append] at member
  obtain ⟨pass, kept, rfl⟩ := List.mem_map.1 member
  obtain ⟨added, inside, rfl⟩ := List.mem_map.1 (List.mem_filter.1 kept).1
  obtain ⟨use, there, _⟩ := recorded added inside
  exact ⟨use, there⟩

/-- The tree of an analyzed program whose names belong to the table has a summary with any later
table. To make it ends as soon as it may go as deep as there are scopes, and it shows the whole
tree. -/
theorem exists_showsTree_of_analyze {last : Interner} (named : p.IsNamedIn names)
    (analyzed : p.analyze options names = (.ok a, names')) (later : names'.Begins last) :
    ∃ summary, a.tree.summarize? last = some summary ∧
      (∀ depth, a.tree.scopes.size ≤ depth →
        a.tree.summarizeScope last depth ScopeId.root = some summary) ∧
      summary.ShowsTree a.tree last := by
  have named := (named.tree analyzed).of_begins later
  have passes {place : ScopeId} {scope : Scope} (found : a.tree.scopeAt? place = some scope) :=
    through_of_analyze analyzed found
  obtain ⟨outline, decls, inner, folded, completed, tree⟩ := analyze_layOut analyzed
  have forest := State.forest_layOut_initial #[.start p.isModule p.node.id] .global outline.node
    none decls inner
  have initial := State.Coherent.initial #[.start p.isModule p.node.id]
  have coherent := initial.scope (fun _ => rfl) .global outline.node none decls inner
  have accounted := State.Accounted.scope (.initial _) initial (fun _ => rfl) .global outline.node
    (fun _ => rfl) decls inner
  rw [tree] at named passes ⊢
  obtain ⟨summary, ends, shows⟩ := State.exists_showsTree forest coherent accounted named
    (fun _ _ found => passes found)
  exact ⟨summary, ends _ (Nat.le_refl _), ends, shows⟩

end Analyzed

/-- `{ let a = b; } b(a);`, of which the call is built before the block. -/
def lateBlock : Build where
  calls := [.node .none, .name "b", .node .none, .name "a", .node .none, .node .none, .node .none,
    .name "b", .node .none, .name "a", .node .none, .node .none, .node .none, .node .none,
    .node .none]
  tree := .script ⟨10, by decide⟩ []
    [.block ⟨9, by decide⟩ [.decl ⟨8, by decide⟩ ⟨7, by decide⟩ .let_ [.mk ⟨6, by decide⟩ .nameFirst
        (.ident ⟨⟨5, by decide⟩, "a", by decide⟩)
        (some (.ident ⟨⟨4, by decide⟩, "b", by decide⟩))]],
      .expr ⟨3, by decide⟩ (.call ⟨2, by decide⟩ (.ident ⟨⟨0, by decide⟩, "b", by decide⟩)
        [.ident ⟨⟨1, by decide⟩, "a", by decide⟩])]
  once := by decide +kernel

/-- The summary shows the global scope with both undeclared names, the script through which their
uses pass, and the block with its own `a`. -/
theorem lateBlock_showsTree :
    ∃ a names' summary,
      (lateBlock.number .empty).1.analyze .default (lateBlock.number .empty).2.names =
        (.ok a, names') ∧
      summary.rows.map (fun row => (row.vars.map VariableSummary.name,
        row.through.map (fun shown => (shown.name, shown.count)))) =
          [(["b", "a"], []), ([], [("b", 2), ("a", 1)]), (["a"], [("b", 1)])] ∧
      a.tree.summarize? names' = some summary ∧
      (∀ depth, a.tree.scopes.size ≤ depth →
        a.tree.summarizeScope names' depth ScopeId.root = some summary) ∧
      summary.ShowsTree a.tree names' := by
  have shown : ((lateBlock.number .empty).1.analyze .default
      (lateBlock.number .empty).2.names).1.toOption.map (fun a =>
        (a.tree.summarize? ((lateBlock.number .empty).1.analyze .default
          (lateBlock.number .empty).2.names).2).map (fun summary =>
            summary.rows.map (fun row => (row.vars.map VariableSummary.name,
              row.through.map (fun shown => (shown.name, shown.count)))))) =
        some (some [(["b", "a"], []), ([], [("b", 2), ("a", 1)]), (["a"], [("b", 1)])]) := by
    decide +kernel
  have completed : ((lateBlock.number .empty).1.analyze .default
      (lateBlock.number .empty).2.names).1.isOk = true := by
    decide +kernel
  obtain ⟨a, names', analyzed⟩ := Resolution.exists_of_isOk completed
  rw [analyzed] at shown
  obtain ⟨summary, ends, deep, shows⟩ :=
    exists_showsTree_of_analyze (lateBlock.isNamedIn_number .empty) analyzed (.refl _)
  simp only [Except.toOption, Option.map_some, ends, Option.some.injEq] at shown
  exact ⟨a, names', summary, analyzed, shown, ends, deep, shows⟩

end ScopeAnalysis
