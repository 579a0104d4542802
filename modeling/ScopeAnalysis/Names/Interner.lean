/-!
# Interned names

An interner keeps every distinct text once, in order of first use. A `Name` is the position of
its text in that order, so two names are equal exactly when their texts are, and a name keeps
its meaning however much is interned later.
-/

namespace ScopeAnalysis

/-- A handle on an interned text: its position in order of first use. -/
structure Name where
  index : Nat
  deriving DecidableEq, Repr

/-- The texts interned so far, in order of first use and without repetition. -/
structure Interner where
  texts : List String
  nodup : texts.Nodup
  deriving DecidableEq, Repr

namespace Interner

def empty : Interner := ⟨[], List.nodup_nil⟩

def size (table : Interner) : Nat := table.texts.length

def isEmpty (table : Interner) : Bool := table.texts.isEmpty

/-- The name of a text that was interned before; looking does not intern it. -/
def find? (table : Interner) (text : String) : Option Name :=
  (table.texts.findIdx? (· == text)).map Name.mk

/-- The text behind a name, if the name belongs to this table. -/
def text? (table : Interner) (name : Name) : Option String :=
  table.texts[name.index]?

/-- The text behind a name of this table. -/
def text (table : Interner) (name : Name) : String :=
  (table.text? name).getD ""

/-- A name that is found stands for the text that was looked for. -/
theorem text?_of_find? {table : Interner} {text : String} {name : Name}
    (found : table.find? text = some name) : table.text? name = some text := by
  simp only [find?, Option.map_eq_some_iff] at found
  obtain ⟨i, hi, rfl⟩ := found
  obtain ⟨inside, same, _⟩ := List.findIdx?_eq_some_iff_getElem.1 hi
  simp only [beq_iff_eq] at same
  simp [text?, List.getElem?_eq_getElem inside, same]

theorem not_mem_of_find? {table : Interner} {text : String} (absent : table.find? text = none) :
    text ∉ table.texts := by
  intro member
  simp only [find?, Option.map_eq_none_iff, List.findIdx?_eq_none_iff] at absent
  exact absurd (absent text member) (by simp)

/-- The table with one more text. -/
def add (table : Interner) (text : String) (absent : table.find? text = none) : Interner where
  texts := table.texts ++ [text]
  nodup := by
    refine List.nodup_append.2 ⟨table.nodup, by simp, fun old member last added same => ?_⟩
    rw [List.mem_singleton.1 added] at same
    exact not_mem_of_find? absent (same ▸ member)

/-- The name of `text`, entered at the end of the table on its first use. -/
def intern (table : Interner) (text : String) : Name × Interner :=
  match absent : table.find? text with
  | some name => (name, table)
  | none => (⟨table.size⟩, table.add text absent)

theorem intern_of_find? {table : Interner} {text : String} {name : Name}
    (found : table.find? text = some name) : table.intern text = (name, table) := by
  unfold intern
  split
  next name' found' =>
    cases found.symm.trans found'
    rfl
  next absent =>
    cases found.symm.trans absent

theorem intern_of_absent {table : Interner} {text : String} (absent : table.find? text = none) :
    table.intern text = (⟨table.size⟩, table.add text absent) := by
  unfold intern
  split
  next name found =>
    cases absent.symm.trans found
  next => rfl

/-- A one-line description of the table. -/
def describe (table : Interner) : String :=
  "StringInterner \x7b len: " ++ toString table.size ++ " \x7d"

end Interner

/-- The names that scope analysis gives a meaning of their own. -/
structure SpecialNames where
  /-- The implicit binding of every function that is not an arrow. -/
  arguments : Name
  /-- The callee that makes a call a direct eval. -/
  eval : Name
  /-- The directive that makes code strict. -/
  useStrict : Name
  deriving DecidableEq, Repr

/-- Enters the special names, in the order of the fields. -/
def SpecialNames.intern (table : Interner) : SpecialNames × Interner :=
  let (arguments, table) := table.intern "arguments"
  let (eval, table) := table.intern "eval"
  let (useStrict, table) := table.intern "use strict"
  (⟨arguments, eval, useStrict⟩, table)

end ScopeAnalysis
