import ScopeAnalysis.Program.Mapping
import ScopeAnalysis.Proofs.Relabelling.Outline

/-!
# Relabelled programs

A relabelling goes through a whole program. An identifier that binds, writes or uses a variable gets
its new name; all other texts get new handles. A renaming is a relabelling that leaves the numbers
of nodes and the handles of all other texts alone. Other flags of functions are a mapping of their
own.
-/

namespace ScopeAnalysis

/-- The relabelling that gives every identifier a new name and does nothing else. -/
def Relabelling.renaming (f : Occurrence → Name) : Relabelling := ⟨id, f, id⟩

/-- The relabelling as a mapping of the syntax, along with what becomes of the flags of functions. -/
def Relabelling.mapping (r : Relabelling) (flags : Node → FunctionFlags → FunctionFlags) :
    Mapping Node Name Node Name := ⟨r.node, r.name, r.text, flags⟩

namespace Program

/-- A program with new numbers, names and texts. -/
def relabel (r : Relabelling) (p : NumberedProgram) : NumberedProgram :=
  p.map (r.mapping (fun _ flags => flags))

/-- A program with a new name for every identifier that binds, writes or uses a variable. -/
def rename (f : Occurrence → Name) (p : NumberedProgram) : NumberedProgram :=
  relabel (.renaming f) p

/-- A program with other flags of functions. -/
def reflag (flags : Node → FunctionFlags) (p : NumberedProgram) : NumberedProgram :=
  p.map ⟨id, Ident.name, id, fun node _ => flags node⟩

end Program

end ScopeAnalysis
