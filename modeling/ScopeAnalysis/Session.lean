import ScopeAnalysis.Analysis
import ScopeAnalysis.Program.Numbering
import ScopeAnalysis.ScopeTree.Report

/-!
# Sessions

A session numbers and analyzes any number of programs with one interner and one count of nodes,
keeps the programs and the trees, and answers questions about them.
-/

namespace ScopeAnalysis

structure Session where
  bench : Workbench
  options : Options
  programs : Array NumberedProgram
  trees : Array ScopeTree

namespace Session

def new : Session := ⟨.empty, .default, #[], #[]⟩

/-- A question about one tree. -/
inductive Query where
  | dump
  | root
  | scope (id : ScopeId)
  | lookup (scope : ScopeId) (name : String)
  | variablesIn (scope : ScopeId)
  | through (scope : ScopeId) (name : String)
  | children (scope : ScopeId)
  | scopesOfKind (kind : ScopeKind)
  | scopesOpenedBy (node : NodeId)
  | var (id : VariableId)
  | name (id : VariableId)
  | reference (id : ReferenceId)
  | resolve (id : ReferenceId)
  /-- For the summary as a JSON text. -/
  | summary

inductive Request where
  /-- Loads options from a JSON text for the analyses to come. -/
  | options (json : String)
  | analyze (draft : Draft)
  | reanalyze (program : Nat)
  | program (index : Nat)
  | sameSummary (first second : Nat)
  | has (name : String)
  | ask (tree : Nat) (query : Query)

inductive Reply where
  | options (o : Options)
  | fault (f : Json.Fault)
  /-- The position of a new tree. -/
  | analyzed (tree : Nat) (result : ScopeTree)
  | refused (r : Refusal)
  | program (p : NumberedProgram)
  | flag (b : Bool)
  | tree (t : ScopeTree)
  | scope (s : Scope)
  | var (v : Option Variable)
  | texts (ts : List String)
  | text (t : String)
  | references (rs : List Reference)
  | reference (r : Reference)
  | scopes (ss : List Scope)
  | scopeIds (ids : List ScopeId)
  /-- The question was about something that is not there. -/
  | missing

/-- Makes options current. The session is then ready for an analysis, so the special names are
interned whether or not one follows. -/
def adopt (session : Session) (options : Options) : Session :=
  let (_, names) := SpecialNames.intern session.bench.names
  { session with options, bench := { session.bench with names } }

/-- Analyzes a program with the current options and keeps the tree. -/
def analyze (session : Session) (p : NumberedProgram) : Reply × Session :=
  let (result, names) := p.analyze session.options session.bench.names
  let session := { session with bench := { session.bench with names } }
  match result with
  | .error refusal => (.refused refusal, session)
  | .ok analysis =>
    (.analyzed session.trees.size analysis.tree,
      { session with trees := session.trees.push analysis.tree })

/-- A question is asked with the table of names at hand, which it hands back. -/
abbrev Asking := StateM Interner

/-- The answer to a question, if what it is about is there. -/
def answer? (tree : ScopeTree) : Query → Asking (Option Reply)
  | .dump => pure (some (.tree tree))
  | .root => pure (tree.root?.map .scope)
  | .scope id => pure ((tree.scopeAt? id).map .scope)
  | .lookup scope name => do
    let names ← get
    pure ((tree.lookup? names scope name).map .var)
  | .variablesIn scope => do
    let names ← get
    pure ((tree.variablesIn? scope).map (fun vs => .texts (vs.map (fun v => names.text v.name))))
  | .through scope name => do
    let names ← get
    pure ((tree.through? names scope name).map .references)
  | .children scope => pure ((tree.children? scope).map .scopes)
  | .scopesOfKind kind => pure (some (.scopeIds ((tree.scopesOfKind kind).map Scope.id)))
  | .scopesOpenedBy node => pure (some (.scopes (tree.scopesOpenedBy node)))
  | .var id => pure ((tree.variableAt? id).map (fun v => .var (some v)))
  | .name id => do
    let names ← get
    pure ((tree.name? names id).map .text)
  | .reference id => pure ((tree.referenceAt? id).map .reference)
  | .resolve id => pure ((tree.resolve? id).map (fun v => .var (some v)))
  | .summary => do
    let names ← get
    pure ((tree.summarize? names).map (fun summary => .text summary.toJson))

/-- Whether two trees have the same summary. -/
def sameSummary? (first second : ScopeTree) : Asking (Option Reply) := do
  let names ← get
  pure (do
    let a ← first.summarize? names
    let b ← second.summarize? names
    some (.flag (a.same b)))

/-- Asks a question and keeps the table that comes back. -/
def reply (session : Session) (question : Asking (Option Reply)) : Reply × Session :=
  let (answer, names) := question.run session.bench.names
  (answer.getD .missing, { session with bench := { session.bench with names } })

/-- Answers one request. -/
def step (session : Session) : Request → Reply × Session
  | .options json =>
    match Options.load json with
    | .ok options => (.options options, session.adopt options)
    | .error fault => (.fault fault, session)
  | .analyze draft =>
    let (p, bench) := draft.number.run session.bench
    { session with bench, programs := session.programs.push p }.analyze p
  | .reanalyze program =>
    match session.programs[program]? with
    | some p => session.analyze p
    | none => (.missing, session)
  | .program index =>
    match session.programs[index]? with
    | some p => (.program p, session)
    | none => (.missing, session)
  | .sameSummary first second =>
    match session.trees[first]?, session.trees[second]? with
    | some a, some b => session.reply (sameSummary? a b)
    | _, _ => (.missing, session)
  | .has name => (.flag (session.bench.names.find? name).isSome, session)
  | .ask tree query =>
    match session.trees[tree]? with
    | some t => session.reply (answer? t query)
    | none => (.missing, session)

end Session

end ScopeAnalysis
