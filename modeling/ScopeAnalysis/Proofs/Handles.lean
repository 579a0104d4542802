import Mathlib.Data.List.Nodup
import Mathlib.Logic.Function.Basic
import ScopeAnalysis.Names.Interner

/-!
# Handles of one text in two tables

A table only grows, and a text keeps its handle when it does. Two tables that intern the same texts
in the same order still hand out different handles if they start out different. What the handles
have in common is their texts, and a map of handles carries one table into another if it gives the
handle of every text there.
-/

namespace ScopeAnalysis.Interner

def internAll (table : Interner) (texts : List String) : Interner :=
  texts.foldl (fun table text => (table.intern text).2) table

theorem internAll_append (table : Interner) (texts more : List String) :
    table.internAll (texts ++ more) = (table.internAll texts).internAll more :=
  List.foldl_append

/-- The second table is the first one after some more texts. -/
def Begins (table later : Interner) : Prop := table.texts <+: later.texts

namespace Begins

variable {table later last : Interner}

theorem refl (table : Interner) : table.Begins table := List.prefix_refl _

theorem trans (first : table.Begins later) (second : later.Begins last) : table.Begins last :=
  List.IsPrefix.trans first second

theorem intern (table : Interner) (text : String) : table.Begins (table.intern text).2 := by
  cases found : table.find? text with
  | some name =>
    rw [intern_of_find? found]
    exact refl table
  | none =>
    rw [intern_of_absent found]
    exact List.prefix_append ..

theorem internAll (table : Interner) (texts : List String) :
    table.Begins (table.internAll texts) := by
  induction texts generalizing table with
  | nil => exact refl table
  | cons text rest ih => exact (intern table text).trans (ih _)

/-- A text is found under the same handle later on. -/
theorem find? (begins : table.Begins later) {text : String} {name : Name}
    (found : table.find? text = some name) : later.find? text = some name := by
  obtain ⟨rest, same⟩ := begins
  obtain ⟨i, there, rfl⟩ := Option.map_eq_some_iff.1 found
  rw [Interner.find?, ← same, List.findIdx?_append, there]
  rfl

theorem text? (begins : table.Begins later) {name : Name} {text : String}
    (known : table.text? name = some text) : later.text? name = some text := by
  obtain ⟨rest, same⟩ := begins
  have inside := (List.getElem?_eq_some_iff.1 known).1
  rw [Interner.text?, ← same, List.getElem?_append_left inside]
  exact known

end Begins

theorem text_of_text? {table : Interner} {name : Name} {text : String}
    (known : table.text? name = some text) : table.text name = text := by
  rw [Interner.text, known, Option.getD_some]

/-- A handle of a table is found under its text. -/
theorem find?_of_text? {table : Interner} {name : Name} {text : String}
    (known : table.text? name = some text) : table.find? text = some name := by
  obtain ⟨inside, here⟩ := List.getElem?_eq_some_iff.1 known
  refine Option.map_eq_some_iff.2 ⟨name.index, ?_, rfl⟩
  refine List.findIdx?_eq_some_iff_getElem.2 ⟨inside, by simpa using here, fun j earlier => ?_⟩
  have apart : table.texts[j] ≠ table.texts[name.index] :=
    fun same => Nat.ne_of_lt earlier ((table.nodup.getElem_inj_iff).1 same)
  simpa [here] using apart

theorem find?_intern (table : Interner) (text : String) :
    (table.intern text).2.find? text = some (table.intern text).1 := by
  cases found : table.find? text with
  | some name => rw [intern_of_find? found, found]
  | none =>
    have missing : table.texts.findIdx? (· == text) = none := by
      simpa only [find?, Option.map_eq_none_iff] using found
    rw [intern_of_absent found]
    simp [find?, add, List.findIdx?_append, missing, size]

/-- A text that was interned keeps its handle, and interning it again does nothing. -/
theorem intern_of_begins {table later : Interner} {text : String}
    (begins : (table.intern text).2.Begins later) :
    later.intern text = ((table.intern text).1, later) := by
  rw [intern_of_find? (begins.find? (find?_intern table text))]

/-- A text that is there already has the same handle in a later table. -/
theorem Begins.intern_fst {table later : Interner} (begins : table.Begins later) {text : String}
    (member : text ∈ table.texts) : (later.intern text).1 = (table.intern text).1 := by
  cases found : table.find? text with
  | none => exact absurd member (not_mem_of_find? found)
  | some name => rw [intern_of_find? found, intern_of_find? (begins.find? found)]

/-- Interning a text that is there already does nothing. -/
theorem intern_snd_of_mem {table : Interner} {text : String} (member : text ∈ table.texts) :
    (table.intern text).2 = table := by
  cases found : table.find? text with
  | none => exact absurd member (not_mem_of_find? found)
  | some name => rw [intern_of_find? found]

theorem mem_texts_intern {table : Interner} {text other : String} :
    other ∈ (table.intern text).2.texts ↔ other ∈ table.texts ∨ other = text := by
  cases found : table.find? text with
  | some name =>
    have known : text ∈ table.texts := List.mem_of_getElem? (text?_of_find? found)
    rw [intern_of_find? found]
    exact ⟨.inl, fun either => either.elim id (fun same => same ▸ known)⟩
  | none =>
    rw [intern_of_absent found]
    simp [add]

theorem mem_texts_internAll {table : Interner} {texts : List String} {other : String} :
    other ∈ (table.internAll texts).texts ↔ other ∈ table.texts ∨ other ∈ texts := by
  induction texts generalizing table with
  | nil => simp [internAll]
  | cons text rest ih =>
    change other ∈ ((table.intern text).2.internAll rest).texts ↔ _
    rw [ih, mem_texts_intern, List.mem_cons, or_assoc]

/-- A map of handles that gives each text of the first table its handle in the second one, if it has
one there. -/
def Carries (table other : Interner) (f : Name → Name) : Prop :=
  ∀ text name name', table.find? text = some name → other.find? text = some name' → f name = name'

theorem Carries.intern {table other last last' : Interner} {f : Name → Name}
    (carries : last.Carries last' f) {text : String} (within : (table.intern text).2.Begins last)
    (within' : (other.intern text).2.Begins last') :
    f (table.intern text).1 = (other.intern text).1 :=
  carries text _ _ (within.find? (find?_intern table text))
    (within'.find? (find?_intern other text))

theorem carries_id (table : Interner) : table.Carries table id :=
  fun _ _ _ found found' => Option.some.inj (found.symm.trans found')

/-- The handle in the second table of the text that a handle of the first one stands for. -/
def counterpart? (table other : Interner) (name : Name) : Option Name :=
  (table.text? name).bind other.find?

theorem counterpart?_eq_some {table other : Interner} {name name' : Name} :
    table.counterpart? other name = some name' ↔
      ∃ text, table.find? text = some name ∧ other.find? text = some name' := by
  rw [counterpart?, Option.bind_eq_some_iff]
  constructor
  · rintro ⟨text, known, found'⟩
    exact ⟨text, find?_of_text? known, found'⟩
  · rintro ⟨text, found, found'⟩
    exact ⟨text, text?_of_find? found, found'⟩

/-- Carries one table into another. What has no counterpart goes beyond the handles of the other
table, `further` places away from its end. -/
def carry (table other : Interner) (further : Nat) (name : Name) : Name :=
  (table.counterpart? other name).getD ⟨other.size + further + name.index⟩

theorem carries_carry (table other : Interner) (further : Nat) :
    table.Carries other (table.carry other further) := by
  intro text name name' found found'
  rw [carry, counterpart?_eq_some.2 ⟨text, found, found'⟩]
  rfl

theorem index_lt_of_find? {table : Interner} {text : String} {name : Name}
    (found : table.find? text = some name) : name.index < table.size :=
  (List.getElem?_eq_some_iff.1 (text?_of_find? found)).1

theorem carry_of_counterpart? {table other : Interner} {name there : Name} (further : Nat)
    (met : table.counterpart? other name = some there) :
    table.carry other further name = there := by
  rw [carry, met, Option.getD_some]

theorem carry_of_unmet {table other : Interner} {name : Name} (further : Nat)
    (unmet : table.counterpart? other name = none) :
    table.carry other further name = ⟨other.size + further + name.index⟩ := by
  rw [carry, unmet, Option.getD_none]

/-- A handle is carried to one of the other table just if it has a counterpart there. -/
theorem carry_index_lt_iff {table other : Interner} (further : Nat) {name : Name} :
    (table.carry other further name).index < other.size ↔
      (table.counterpart? other name).isSome := by
  cases met : table.counterpart? other name with
  | some there =>
    obtain ⟨text, _, known⟩ := counterpart?_eq_some.1 met
    rw [carry_of_counterpart? further met]
    exact iff_of_true (index_lt_of_find? known) rfl
  | none =>
    rw [carry_of_unmet further met]
    exact iff_of_false (by simp only; omega) (by simp)

theorem counterpart?_injective {table other : Interner} {name name' there : Name}
    (met : table.counterpart? other name = some there)
    (met' : table.counterpart? other name' = some there) : name = name' := by
  obtain ⟨text, found, known⟩ := counterpart?_eq_some.1 met
  obtain ⟨text', found', known'⟩ := counterpart?_eq_some.1 met'
  have texts : text = text' :=
    Option.some.inj ((text?_of_find? known).symm.trans (text?_of_find? known'))
  subst texts
  exact Option.some.inj (found.symm.trans found')

theorem carry_injective (table other : Interner) (further : Nat) :
    Function.Injective (table.carry other further) := by
  intro name name' same
  have alike : (table.counterpart? other name).isSome ↔
      (table.counterpart? other name').isSome := by
    rw [← carry_index_lt_iff further, same, carry_index_lt_iff further]
  cases met : table.counterpart? other name <;> cases met' : table.counterpart? other name'
  case some.some there there' =>
    rw [carry_of_counterpart? further met, carry_of_counterpart? further met'] at same
    exact counterpart?_injective (same ▸ met) met'
  case none.none =>
    rw [carry_of_unmet further met, carry_of_unmet further met', Name.mk.injEq,
      Nat.add_left_cancel_iff] at same
    obtain ⟨i⟩ := name
    obtain ⟨j⟩ := name'
    exact congrArg Name.mk same
  all_goals simp [met, met'] at alike

/-- What is carried to one place, however far the rest goes, stands for the same text there. -/
theorem exists_text_of_carry_eq {table other : Interner} {name name' : Name}
    (near : table.carry other 0 name = name') (far : table.carry other 1 name = name') :
    ∃ text, table.text? name = some text ∧ other.text? name' = some text := by
  cases met : table.counterpart? other name with
  | some there =>
    obtain ⟨text, found, known⟩ := counterpart?_eq_some.1 met
    rw [carry_of_counterpart? 0 met] at near
    subst near
    exact ⟨text, text?_of_find? found, text?_of_find? known⟩
  | none =>
    rw [carry_of_unmet 0 met] at near
    rw [carry_of_unmet 1 met, ← near, Name.mk.injEq] at far
    exact absurd far (by omega)

end ScopeAnalysis.Interner
