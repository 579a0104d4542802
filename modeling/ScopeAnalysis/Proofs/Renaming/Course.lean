import Mathlib.Logic.Basic
import ScopeAnalysis.Proofs.Relabelling.Course
import ScopeAnalysis.Proofs.Relabelling.Program

/-!
# Courses of renamed outlines

A renaming gives every occurrence of an identifier a new name. It is a relabelling that leaves the
numbers of nodes alone, so a renamed outline takes the renamed course. Where twins are allowed, the
renaming must keep names apart as they were.
-/

namespace ScopeAnalysis

/-- An occurrence with the name that a renaming gives it. -/
def Ident.rename (f : Occurrence → Name) (id : Ident Node Name) : Ident Node Name :=
  ⟨id.node, f id⟩

def Declaration.rename (f : Occurrence → Name) (d : Declaration) : Declaration :=
  ⟨d.id.rename f, d.kind⟩

theorem Declaration.rename_congr {f g : Occurrence → Name} {d : Declaration}
    (same : f d.id = g d.id) : d.rename f = d.rename g := by
  rw [rename, rename, Ident.rename, Ident.rename, same]

/-- A renaming under which occurrences have one name if and only if they had one before. -/
def Separates (f : Occurrence → Name) : Prop := ∀ id other, f id = f other ↔ id.name = other.name

theorem Separates.renaming {f : Occurrence → Name} (separates : Separates f) :
    (Relabelling.renaming f).Separates :=
  ⟨separates, Function.injective_id⟩

namespace Resolution

namespace Layout

variable (f : Occurrence → Name)

mutual

def rename : Layout → Layout
  | .use id access => .use (id.rename f) access
  | .directEval => .directEval
  | .withStatement => .withStatement
  | .scope kind node arguments decls inner =>
    .scope kind node arguments (decls.map (Declaration.rename f)) (renameList inner)

def renameList : List Layout → List Layout
  | [] => []
  | l :: rest => rename l :: renameList rest

end

mutual

theorem rename_eq_relabel : ∀ l : Layout, rename f l = relabel (.renaming f) l
  | .use _ _ | .directEval | .withStatement => rfl
  | .scope _ _ arguments _ inner => by
    rw [rename, renameList_eq_relabelList inner]
    cases arguments <;> rfl

theorem renameList_eq_relabelList : ∀ ls : List Layout,
    renameList f ls = relabelList (.renaming f) ls
  | [] => rfl
  | l :: rest => congrArg₂ List.cons (rename_eq_relabel l) (renameList_eq_relabelList rest)

end

end Layout

namespace Course

variable (f : Occurrence → Name)

def rename (c : Course) : Course := ⟨Layout.renameList f c.parts, c.outcome⟩

variable {f}

/-- The course of a renamed program is the renamed course. -/
theorem rename_ofProgram {setting : Walk.Setting}
    (separate : setting.options.annexB = true → Separates f) (o : ProgramOutline) :
    (ofProgram setting o).rename f = ofProgram setting (o.relabel (.renaming f)) := by
  rw [rename, Layout.renameList_eq_relabelList]
  exact relabel_ofProgram (fun allowed => (separate allowed).renaming) o

end Course

end Resolution

end ScopeAnalysis
