import ScopeAnalysis.Text.Span
import ScopeAnalysis.Names.Interner

/-!
# Nodes and identifiers

Every node of a program has an identity of its own, and so has every occurrence of an identifier.
Programs are described over a type of node marks and a type of names, so that the same tree
serves before and after numbers are handed out.
-/

namespace ScopeAnalysis

/-- The number of a node, in 32 bits. -/
structure NodeId where
  bits : BitVec 32
  deriving DecidableEq, Repr

namespace NodeId

def val (id : NodeId) : Nat := id.bits.toNat

theorem eq_of_val_eq {id id' : NodeId} (same : id.val = id'.val) : id = id' :=
  congrArg NodeId.mk (BitVec.eq_of_toNat_eq same)

/-- The number that stands for no node. -/
def invalid : NodeId := ⟨BitVec.allOnes 32⟩

def isValid (id : NodeId) : Bool := id != invalid

def display (id : NodeId) : String := "#" ++ toString id.val

end NodeId

/-- A numbered node with its place in the text. -/
structure Node where
  id : NodeId
  span : Span
  deriving DecidableEq, Repr

/-- One occurrence of an identifier. The construct around it decides whether it binds a name,
assigns to it or reads it. -/
structure Ident (μ ν : Type) where
  node : μ
  name : ν
  deriving DecidableEq, Repr

/-- A directive at the head of a script, module or function, without its quotes. -/
structure Directive (μ ν : Type) where
  node : μ
  text : ν
  deriving DecidableEq, Repr

/-- An occurrence of an identifier in a numbered program. -/
abbrev Occurrence := Ident Node Name

end ScopeAnalysis
