/-!
# Ordered multimaps

A multimap holds a list of values under each key. Keys stand in the order in which they were
first used, and the values of a key in the order in which they came.
-/

namespace ScopeAnalysis

structure MultiMap (κ ν : Type) where
  entries : List (κ × List ν)
  deriving Repr

namespace MultiMap

variable {κ ν : Type}

def empty : MultiMap κ ν := ⟨[]⟩

/-- Adds a value at the end of its key's values; a new key goes last. -/
def insertEntry [DecidableEq κ] (key : κ) (value : ν) : List (κ × List ν) → List (κ × List ν)
  | [] => [(key, [value])]
  | (other, values) :: rest =>
    if other = key then (other, values ++ [value]) :: rest
    else (other, values) :: insertEntry key value rest

def insert [DecidableEq κ] (map : MultiMap κ ν) (key : κ) (value : ν) : MultiMap κ ν :=
  ⟨insertEntry key value map.entries⟩

/-- The values under a key, none if the key was never used. -/
def get [DecidableEq κ] (map : MultiMap κ ν) (key : κ) : List ν :=
  match map.entries.find? (fun entry => entry.1 = key) with
  | some entry => entry.2
  | none => []

def keys (map : MultiMap κ ν) : List κ := map.entries.map Prod.fst

/-- The number of distinct keys. -/
def size (map : MultiMap κ ν) : Nat := map.entries.length

/-- The number of values under all keys together. -/
def valueCount (map : MultiMap κ ν) : Nat :=
  map.entries.foldr (fun entry count => entry.2.length + count) 0

def isEmpty (map : MultiMap κ ν) : Bool := map.entries.isEmpty

@[simp]
theorem get_empty [DecidableEq κ] (key : κ) : (empty : MultiMap κ ν).get key = [] := rfl

/-- A value goes behind those already under its key. -/
@[simp]
theorem get_insert_self [DecidableEq κ] (map : MultiMap κ ν) (key : κ) (value : ν) :
    (map.insert key value).get key = map.get key ++ [value] := by
  obtain ⟨entries⟩ := map
  simp only [get, insert]
  induction entries with
  | nil => simp [insertEntry]
  | cons entry rest ih =>
    obtain ⟨other, values⟩ := entry
    by_cases h : other = key
    · simp [insertEntry, h]
    · simpa [insertEntry, h] using ih

/-- A value under one key leaves the other keys alone. -/
theorem get_insert_of_ne [DecidableEq κ] (map : MultiMap κ ν) {key other : κ} (value : ν)
    (distinct : other ≠ key) : (map.insert key value).get other = map.get other := by
  obtain ⟨entries⟩ := map
  simp only [get, insert]
  induction entries with
  | nil => simp [insertEntry, distinct.symm]
  | cons entry rest ih =>
    obtain ⟨first, values⟩ := entry
    by_cases h : first = key
    · simp [insertEntry, h, distinct.symm]
    · by_cases h' : first = other
      · simp [insertEntry, h', distinct]
      · simpa [insertEntry, h, h'] using ih

end MultiMap

end ScopeAnalysis
