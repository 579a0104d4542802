import ScopeAnalysis.Program.Gathering
import ScopeAnalysis.Program.Mapping
import ScopeAnalysis.Program.Numbering

/-!
# Building programs

A program is built by calls that hand out numbers for nodes and names for texts. They may come in
any order, whatever the order of the nodes in the program, and what they hand out need not be used.
A node that is part of another one is moved there, so each stands in one place.

Numbering a draft from left to right is one order of building.
-/

namespace ScopeAnalysis

/-- What is asked of a workbench while a program is built. -/
inductive Call where
  | node (span : Span)
  | name (text : String)

namespace Call

def span? : Call → Option Span
  | .node span => some span
  | .name _ => none

def text? : Call → Option String
  | .node _ => none
  | .name text => some text

/-- The spans of the nodes that are asked for, in the order of the calls. -/
def spans (calls : List Call) : List Span := calls.filterMap span?

/-- The texts whose names are asked for, in the order of the calls. -/
def texts (calls : List Call) : List String := calls.filterMap text?

end Call

namespace Workbench

def serve (bench : Workbench) : Call → Workbench
  | .node span => (Numbering.node span bench).2
  | .name text => (Numbering.name text bench).2

/-- The workbench after some calls. -/
def after (bench : Workbench) (calls : List Call) : Workbench := calls.foldl serve bench

end Workbench

/-- The calls that build a program, and the program over what they hand out: each of its nodes is
one of those that were asked for, and each name that of a text that was interned. -/
structure Build where
  calls : List Call
  tree : Program (Fin (Call.spans calls).length) {text // text ∈ Call.texts calls}
  once : tree.nodes.Nodup

namespace Build

variable (b : Build)

/-- The number of nodes that are asked for. -/
abbrev size : Nat := (Call.spans b.calls).length

/-- The node that was asked for at a position, if the first one gets the given number. -/
def node (first : BitVec 32) (position : Fin b.size) : Node :=
  ⟨⟨first + BitVec.ofNat 32 position⟩, (Call.spans b.calls)[position]⟩

/-- What a workbench makes of the calls. A text has its name when all calls are done. -/
def number : Numbering NumberedProgram := fun bench =>
  let later := bench.after b.calls
  (b.tree.map (.plain (b.node bench.next) (fun text => (later.names.intern text.1).1)), later)

end Build

end ScopeAnalysis
