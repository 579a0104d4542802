import ScopeAnalysis.ScopeTree.Basic

/-!
# Events

What an analysis reports while it runs. An event has a level, a message and named fields; the
names of variables are given by their texts.
-/

namespace ScopeAnalysis

inductive Event where
  /-- The analysis of a program begins. -/
  | start (isModule : Bool) (node : NodeId)
  | enterScope (scope : ScopeId) (kind : ScopeKind) (node : NodeId)
  | exitScope (scope : ScopeId)
  | declare (name : Name) (kind : DeclarationKind) (scope : ScopeId)
  | implicitGlobal (name : Name)
  | directEval (scope : ScopeId)
  | withStatement (scope : ScopeId)
  | complete (scopes vars references : Nat)
  deriving DecidableEq, Repr

namespace Event

inductive Level where
  | trace | debug
  deriving DecidableEq, Repr

def Level.text : Level → String
  | .trace => "TRACE"
  | .debug => "DEBUG"

def level : Event → Level
  | .enterScope .. | .exitScope _ | .declare .. => .trace
  | .start .. | .implicitGlobal _ | .directEval _ | .withStatement _ | .complete .. => .debug

def message : Event → String
  | .start .. => "span analyze"
  | .enterScope .. => "enter scope"
  | .exitScope _ => "exit scope"
  | .declare .. => "declare"
  | .implicitGlobal _ => "implicit global"
  | .directEval _ => "direct eval makes scope dynamic"
  | .withStatement _ => "with statement makes scope dynamic"
  | .complete .. => "analysis complete"

/-- The fields of an event, with names read from the given table. -/
def fields (names : Interner) : Event → List (String × String)
  | .start isModule node => [("module", toString isModule), ("node", node.display)]
  | .enterScope scope kind node =>
    [("scope", scope.display), ("kind", kind.text), ("node", node.display)]
  | .exitScope scope => [("scope", scope.display)]
  | .declare name kind scope =>
    [("name", names.text name), ("kind", kind.text), ("scope", scope.display)]
  | .implicitGlobal name => [("name", names.text name)]
  | .directEval scope => [("scope", scope.display)]
  | .withStatement scope => [("scope", scope.display)]
  | .complete scopes vars references =>
    [("scopes", toString scopes), ("variables", toString vars),
      ("references", toString references)]

end Event

end ScopeAnalysis
