import Mathlib.Data.Multiset.Basic
import Mathlib.Data.Multiset.AddSub
import ScopeAnalysis.Proofs.Grammar.Pieces
import ScopeAnalysis.Proofs.Layout

/-!
# Readings

A reading compares what is done with a part of a program, namely the layout of its outline, with
the pieces of that part. It says how much of the grammar is taken for granted: placed statements
make the declarations of the scopes agree, no pattern in an update keeps everything from being
refused, and no pattern in a compound assignment either makes the uses agree. Whatever is taken for
granted, only a few refusals are possible.
-/

namespace ScopeAnalysis

open Resolution

/-- What identifies a scope apart from its declarations. -/
def Opening.shape (o : Opening) : ScopeKind × Node × Bool := (o.kind, o.node, o.hasArguments)

namespace Resolution.Layout

mutual

/-- The scopes that a layout opens, each before those inside it. -/
def openings : Layout → List Opening
  | .scope kind node arguments decls inner =>
    ⟨kind, node, arguments.isSome, decls⟩ :: openingsAll inner
  | .use .. | .directEval | .withStatement => []

def openingsAll : List Layout → List Opening
  | [] => []
  | l :: rest => l.openings ++ openingsAll rest

end

mutual

/-- The uses of a layout, in order. -/
def uses : Layout → List (Occurrence × Access)
  | .use id access => [(id, access)]
  | .scope _ _ _ _ inner => usesAll inner
  | .directEval | .withStatement => []

def usesAll : List Layout → List (Occurrence × Access)
  | [] => []
  | l :: rest => l.uses ++ usesAll rest

end

mutual

/-- The names under which the scopes of a layout have their own `arguments`. -/
def argumentNames : Layout → List Name
  | .scope _ _ arguments _ inner => arguments.toList ++ argumentNamesAll inner
  | .use .. | .directEval | .withStatement => []

def argumentNamesAll : List Layout → List Name
  | [] => []
  | l :: rest => l.argumentNames ++ argumentNamesAll rest

end

theorem openingsAll_append (ls ms : List Layout) :
    openingsAll (ls ++ ms) = openingsAll ls ++ openingsAll ms := by
  induction ls with
  | nil => rfl
  | cons l rest ih => simp [openingsAll, ih]

theorem usesAll_append (ls ms : List Layout) :
    usesAll (ls ++ ms) = usesAll ls ++ usesAll ms := by
  induction ls with
  | nil => rfl
  | cons l rest ih => simp [usesAll, ih]

theorem argumentNamesAll_append (ls ms : List Layout) :
    argumentNamesAll (ls ++ ms) = argumentNamesAll ls ++ argumentNamesAll ms := by
  induction ls with
  | nil => rfl
  | cons l rest ih => simp [argumentNamesAll, ih]

theorem openingsAll_uses (access : Access) (ids : List Occurrence) :
    openingsAll (ids.map (fun id => .use id access)) = [] := by
  induction ids with
  | nil => rfl
  | cons id rest ih => simp [openingsAll, openings, ih]

theorem usesAll_uses (access : Access) (ids : List Occurrence) :
    usesAll (ids.map (fun id => .use id access)) = ids.map (fun id => (id, access)) := by
  induction ids with
  | nil => rfl
  | cons id rest ih => simp [usesAll, uses, ih]

theorem argumentNamesAll_uses (access : Access) (ids : List Occurrence) :
    argumentNamesAll (ids.map (fun id => .use id access)) = [] := by
  induction ids with
  | nil => rfl
  | cons id rest ih => simp [argumentNamesAll, argumentNames, ih]

end Resolution.Layout

/-- Where a pattern is updated, what it writes stands among values and statements, which are asked
what they declare and bind. -/
def Refusal.isForeseen (refusal : Refusal) : Bool :=
  match refusal.rule, refusal.shape with
  | .lexicalDeclarations, .target | .lexicalDeclarations, .evaluated | .hoisted, .target
  | .hoisted, .evaluated | .boundNames, .target => true
  | _, _ => false

/-- An answer that has a property. It is refused only if the program is not sound, and only in the
ways that are foreseen. -/
def Answers {α : Type} (sound : Prop) (answer : Answer α) (P : α → Prop) : Prop :=
  match answer with
  | .ok a => P a
  | .error refusal => refusal.isForeseen = true ∧ ¬ sound

namespace Answers

variable {α β : Type} {sound : Prop} {answer : Answer α} {P Q : α → Prop}

theorem bind {next : α → Answer β} {R : β → Prop} (first : Answers sound answer P)
    (second : ∀ a, P a → Answers sound (next a) R) : Answers sound (answer >>= next) R := by
  cases answer with
  | ok a => exact second a first
  | error refusal => exact first

theorem imp (holds : Answers sound answer P) (weaker : ∀ a, P a → Q a) :
    Answers sound answer Q := by
  cases answer with
  | ok a => exact weaker a holds
  | error refusal => exact holds

/-- Where more programs count as unsound, less is asked of an answer. -/
theorem weaken {sound' : Prop} (holds : Answers sound answer P) (fewer : sound' → sound) :
    Answers sound' answer P := by
  cases answer with
  | ok a => exact holds
  | error refusal => exact ⟨holds.1, fun given => holds.2 (fewer given)⟩

theorem of_not {sound : Prop} (partly : Answers False answer P) (unsound : ¬ sound) :
    Answers sound answer P := by
  cases answer with
  | ok a => exact partly
  | error refusal => exact ⟨partly.1, unsound⟩

end Answers

/-- A folding step whose result has a property, and that is refused only in a program that is not
sound. -/
def Folding.Meets {α : Type} (sound : Prop) (m : Folding α) (P : α → Prop) : Prop :=
  ∀ names, Answers sound (m.run names).1 P

namespace Folding.Meets

variable {α β : Type} {sound : Prop} {m : Folding α} {P Q : α → Prop}

theorem pure {a : α} (holds : P a) : Meets sound (Pure.pure a) P := fun _ => holds

theorem answer {a : Answer α} (holds : Answers sound a P) : Meets sound (Folding.answer a) P :=
  fun _ => holds

theorem bind {next : α → Folding β} {R : β → Prop} (first : Meets sound m P)
    (second : ∀ a, P a → Meets sound (next a) R) : Meets sound (m >>= next) R := by
  intro names
  have here := first names
  change Answers sound (ExceptT.bindCont next (m.run names).1 (m.run names).2).1 R
  generalize m.run names = outcome at here ⊢
  obtain ⟨result, later⟩ := outcome
  cases result with
  | ok a => exact second a here later
  | error refusal => exact here

theorem imp (holds : Meets sound m P) (weaker : ∀ a, P a → Q a) : Meets sound m Q :=
  fun names => (holds names).imp weaker

end Folding.Meets

structure Reading where
  setting : Walk.Setting
  special : SpecialNames
  placed : Prop
  sound : Prop
  plain : Prop
  sound_of_plain : plain → sound

namespace Reading

variable (R : Reading)

abbrev useStrict : Name := R.special.useStrict

/-- What the pieces of a part are taken to keep to. -/
def Given (pieces : List Piece) : Prop :=
  ∀ piece ∈ pieces, (R.placed → piece.isPlaced = true) ∧ (R.sound → piece.isSound = true) ∧
    (R.plain → piece.isPlain = true)

variable {R}

theorem given_append {ps qs : List Piece} : R.Given (ps ++ qs) ↔ R.Given ps ∧ R.Given qs :=
  List.forall_mem_append

theorem given_cons {p : Piece} {ps : List Piece} : R.Given (p :: ps) ↔
    ((R.placed → p.isPlaced = true) ∧ (R.sound → p.isSound = true) ∧
      (R.plain → p.isPlain = true)) ∧ R.Given ps :=
  List.forall_mem_cons

variable (R)

def openingsOf (pieces : List Piece) : List Opening :=
  pieces.flatMap (Piece.openings R.setting.options R.useStrict)

theorem openingsOf_uses (access : Access) (ids : List Occurrence) :
    R.openingsOf (ids.map (fun id => .use id access)) = [] := by
  simp [openingsOf, Piece.openings]

/-- The scopes and uses of a layout are the given ones, in any order. -/
structure Agrees (parts : List Layout) (openings : List Opening)
    (uses : List (Occurrence × Access)) : Prop where
  shapes : (Multiset.ofList ((Layout.openingsAll parts).map Opening.shape)) =
    Multiset.ofList (openings.map Opening.shape)
  scopes : R.placed → Multiset.ofList (Layout.openingsAll parts) = Multiset.ofList openings
  uses : R.plain → Multiset.ofList (Layout.usesAll parts) = Multiset.ofList uses
  named : ∀ name ∈ Layout.argumentNamesAll parts, name = R.setting.arguments

/-- The scopes and uses of a layout are those of the pieces. -/
abbrev Yields (parts : List Layout) (pieces : List Piece) : Prop :=
  R.Agrees parts (R.openingsOf pieces) (pieces.flatMap Piece.uses)

variable {R}

/-- A scope with the same declarations, in placed programs. -/
theorem Agrees.scope {parts : List Layout} {openings : List Opening}
    {uses : List (Occurrence × Access)} {kind : ScopeKind} {node : Node} {arguments : Option Name}
    {decls : List Declaration} {opening : Opening}
    (shape : opening.shape = (kind, node, arguments.isSome))
    (named : ∀ name ∈ arguments, name = R.setting.arguments)
    (same : R.placed → opening.decls = decls) (inner : R.Agrees parts openings uses) :
    R.Agrees [.scope kind node arguments decls parts] (opening :: openings) uses where
  shapes := by
    simp only [Layout.openingsAll, Layout.openings, List.append_nil, List.map_cons,
      ← Multiset.cons_coe, inner.shapes, shape]
    rfl
  scopes placed := by
    have whole : opening = ⟨kind, node, arguments.isSome, decls⟩ := by
      obtain ⟨k, n, a, ds⟩ := opening
      simp only [Opening.shape, Prod.mk.injEq] at shape
      obtain ⟨rfl, rfl, rfl⟩ := shape
      rw [← same placed]
    simp only [Layout.openingsAll, Layout.openings, List.append_nil, ← Multiset.cons_coe,
      inner.scopes placed, whole]
  uses plain := by
    simp only [Layout.usesAll, Layout.uses, List.append_nil]
    exact inner.uses plain
  named := by
    simp only [Layout.argumentNamesAll, Layout.argumentNames, List.append_nil]
    exact List.forall_mem_append.2
      ⟨fun name member => named name (Option.mem_toList.1 member), inner.named⟩

namespace Yields

variable {parts more : List Layout} {pieces others : List Piece}

theorem nil : R.Yields [] [] := ⟨rfl, fun _ => rfl, fun _ => rfl, nofun⟩

theorem append (first : R.Yields parts pieces) (second : R.Yields more others) :
    R.Yields (parts ++ more) (pieces ++ others) where
  shapes := by
    simp only [Layout.openingsAll_append, openingsOf, List.flatMap_append, List.map_append,
      ← Multiset.coe_add]
    exact congrArg₂ (· + ·) first.shapes second.shapes
  scopes placed := by
    simp only [Layout.openingsAll_append, openingsOf, List.flatMap_append, ← Multiset.coe_add]
    exact congrArg₂ (· + ·) (first.scopes placed) (second.scopes placed)
  uses plain := by
    simp only [Layout.usesAll_append, List.flatMap_append, ← Multiset.coe_add]
    exact congrArg₂ (· + ·) (first.uses plain) (second.uses plain)
  named := by
    rw [Layout.argumentNamesAll_append]
    exact List.forall_mem_append.2 ⟨first.named, second.named⟩

/-- The order of the pieces does not matter. -/
theorem perm (yields : R.Yields parts pieces) (same : pieces.Perm others) :
    R.Yields parts others where
  shapes := by
    rw [yields.shapes]
    exact Multiset.coe_eq_coe.2 ((same.flatMap_right _).map _)
  scopes placed := by
    rw [yields.scopes placed]
    exact Multiset.coe_eq_coe.2 (same.flatMap_right _)
  uses plain := by
    rw [yields.uses plain]
    exact Multiset.coe_eq_coe.2 (same.flatMap_right _)
  named := yields.named

/-- Uses of the same names, in plain programs. -/
theorem useAll {access access' : Access} {ids names : List Occurrence}
    (same : R.plain → access = access' ∧ ids = names) :
    R.Yields (ids.map (fun id => .use id access)) (names.map (fun id => .use id access')) where
  shapes := by rw [Layout.openingsAll_uses, openingsOf_uses]
  scopes _ := by rw [Layout.openingsAll_uses, openingsOf_uses]
  uses plain := by
    obtain ⟨rfl, rfl⟩ := same plain
    rw [Layout.usesAll_uses]
    simp [List.flatMap_map, Piece.uses, ← List.map_eq_flatMap]
  named := by
    rw [Layout.argumentNamesAll_uses]
    exact nofun

/-- A scope that a piece asks for. -/
theorem scope {kind : ScopeKind} {node : Node} {arguments : Option Name} {decls : List Declaration}
    {piece : Piece} {opening : Opening}
    (asks : piece.openings R.setting.options R.useStrict = [opening])
    (shape : opening.shape = (kind, node, arguments.isSome))
    (named : ∀ name ∈ arguments, name = R.setting.arguments)
    (same : R.placed → opening.decls = decls) (silent : piece.uses = [])
    (inner : R.Yields parts pieces) :
    R.Yields [.scope kind node arguments decls parts] (piece :: pieces) := by
  have outer := Agrees.scope shape named same inner
  simpa only [Yields, openingsOf, List.flatMap_cons, asks, silent, List.singleton_append,
    List.nil_append] using outer

/-- Pieces that ask for no scope and use no name may be left out. -/
theorem cons_mute {piece : Piece} (asks : piece.openings R.setting.options R.useStrict = [])
    (silent : piece.uses = []) (yields : R.Yields parts pieces) :
    R.Yields parts (piece :: pieces) where
  shapes := by
    rw [yields.shapes]
    simp [openingsOf, asks]
  scopes placed := by
    rw [yields.scopes placed]
    simp [openingsOf, asks]
  uses plain := by
    rw [yields.uses plain]
    simp [silent]
  named := yields.named

end Yields

variable (R)

/-- A course that is completed with the given pieces, unless it is refused, as foreseen, in a
program that is not sound. -/
def Completes (c : Course) (pieces : List Piece) : Prop :=
  match c.outcome with
  | .ok () => R.Yields c.parts pieces
  | .error refusal => refusal.isForeseen = true ∧ ¬ R.sound

variable {R}

namespace Completes

variable {c c' : Course} {pieces others : List Piece}

theorem done : R.Completes .done [] := Yields.nil

theorem useAll {access access' : Access} {ids names : List Occurrence}
    (same : R.plain → access = access' ∧ ids = names) :
    R.Completes (.useAll access ids) (names.map (fun id => .use id access')) :=
  Yields.useAll same

theorem use (id : Occurrence) (access : Access) :
    R.Completes (.use id access) [.use id access] := by
  have one : R.Completes (.useAll access [id]) ([id].map (fun id => .use id access)) :=
    useAll (fun _ => ⟨rfl, rfl⟩)
  exact one

theorem perm (completes : R.Completes c pieces) (same : pieces.Perm others) :
    R.Completes c others := by
  obtain ⟨parts, outcome⟩ := c
  cases outcome with
  | ok _ => exact Yields.perm completes same
  | error refusal => exact completes

theorem cons_mute {piece : Piece} (asks : piece.openings R.setting.options R.useStrict = [])
    (silent : piece.uses = []) (completes : R.Completes c pieces) :
    R.Completes c (piece :: pieces) := by
  obtain ⟨parts, outcome⟩ := c
  cases outcome with
  | ok _ => exact Yields.cons_mute asks silent completes
  | error refusal => exact completes

theorem andThen (first : R.Completes c pieces) (second : R.Completes c' others) :
    R.Completes (c.andThen c') (pieces ++ others) := by
  obtain ⟨parts, outcome⟩ := c
  cases outcome with
  | error refusal => exact first
  | ok _ =>
    obtain ⟨parts', outcome'⟩ := c'
    cases outcome' with
    | error refusal => exact second
    | ok _ => exact Yields.append first second

theorem asking {α : Type} {answer : Answer α} {P : α → Prop} {next : α → Course}
    (holds : Answers R.sound answer P) (further : ∀ a, P a → R.Completes (next a) pieces) :
    R.Completes (.asking answer next) pieces := by
  cases answer with
  | ok a => exact further a holds
  | error refusal => exact holds

theorem inScope {kind : ScopeKind} {node : Node} {arguments : Option Name}
    {decls : List Declaration} {piece : Piece} {opening : Opening}
    (asks : piece.openings R.setting.options R.useStrict = [opening])
    (shape : opening.shape = (kind, node, arguments.isSome))
    (named : ∀ name ∈ arguments, name = R.setting.arguments)
    (same : R.placed → opening.decls = decls) (silent : piece.uses = [])
    (inner : R.Completes c pieces) :
    R.Completes (.inScope kind node arguments decls c) (piece :: pieces) := by
  obtain ⟨parts, outcome⟩ := c
  cases outcome with
  | ok _ => exact Yields.scope asks shape named same silent inner
  | error refusal => exact inner

/-- A scope that has no `arguments`. -/
theorem scope {kind : ScopeKind} {node : Node} {decls : List Declaration} {asked : InnerScope}
    (shape : asked.opening.shape = (kind, node, false))
    (same : R.placed → asked.opening.decls = decls) (inner : R.Completes c pieces) :
    R.Completes (.inScope kind node none decls c) (.scope asked :: pieces) :=
  inScope rfl shape nofun same rfl inner

end Completes

end Reading

end ScopeAnalysis
