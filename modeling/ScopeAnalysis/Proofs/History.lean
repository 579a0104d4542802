import ScopeAnalysis.Proofs.Alike
import ScopeAnalysis.Proofs.DraftBuilds
import ScopeAnalysis.Proofs.Interning

/-!
# Sessions and their history

What happened in a session before does not matter to an analysis. The names and numbers handed out
earlier only give a new program other handles and other numbers, and an analysis looks at neither. A
program that was analyzed once interns nothing new when it is analyzed again, so it gives the same
tree every time.
-/

namespace ScopeAnalysis

namespace Build

variable (b : Build)

/-- A program that is built on another bench is relabelled there, however the comparison goes on and
whatever happens to handles and numbers that do not occur. -/
theorem number_elsewhere (names : Interner) (bench : Workbench) {c : Comparison}
    (shift : c.shift = bench.next) (made : c.made = b.size)
    (within : (names.internAll (Call.texts b.calls)).Begins c.names)
    (within' : (bench.names.internAll (Call.texts b.calls)).Begins c.names') (choice : c.Choice) :
    (b.number bench).1 = Program.relabel (c.relabelling choice) (b.number ⟨names, 0⟩).1 := by
  have nodes : b.node bench.next = (c.relabelling choice).node ∘ b.node 0 := by
    funext position
    have used : (b.node 0 position).id.val < c.made := by
      rw [made]
      refine Nat.lt_of_le_of_lt ?_ position.isLt
      simp [node, NodeId.val, Nat.mod_le]
    have fixed := choice.fixes _ used
    simp only [Function.comp_apply, Relabelling.node, Comparison.relabelling, fixed]
    simp [node, shift, BitVec.add_comm]
  have texts (text : {text // text ∈ Call.texts b.calls}) :
      ((bench.after b.calls).names.intern text.1).1 = (c.relabelling choice).text
        (((⟨names, 0⟩ : Workbench).after b.calls).names.intern text.1).1 := by
    rw [Workbench.names_after, Workbench.names_after]
    have known (table : Interner) : text.1 ∈ (table.internAll (Call.texts b.calls)).texts :=
      Interner.mem_texts_internAll.2 (.inr text.2)
    refine ((c.carries choice).intern ?_ ?_).symm
    · rwa [Interner.intern_snd_of_mem (known _)]
    · rwa [Interner.intern_snd_of_mem (known _)]
  simp only [number, Program.relabel, ← Program.map_comp]
  refine congrArg (Program.map · b.tree) ?_
  simp only [Mapping.plain, Mapping.comp, Relabelling.mapping, nodes, texts]
  rfl

/-- A program that is built on another bench and analyzed at any time after that gives a relabelled
analysis, whatever happens to handles and numbers that do not occur. -/
theorem exists_comparison (names : Interner) (bench : Workbench) {later : Interner}
    (begins : (b.number bench).2.names.Begins later) (options : Options) :
    ∃ c : Comparison, c.shift = bench.next ∧ c.made = b.size ∧
      ((b.number ⟨names, 0⟩).1.analyze options (b.number ⟨names, 0⟩).2.names).2 = c.names ∧
      ∀ choice : c.Choice, (b.number bench).1.analyze options later =
        (((b.number ⟨names, 0⟩).1.analyze options (b.number ⟨names, 0⟩).2.names).1.map
          (Analysis.relabel (c.relabelling choice)), c.names') := by
  have taken (bench : Workbench) :
      (b.number bench).2.names = bench.names.internAll (Call.texts b.calls) :=
    bench.names_after b.calls
  rw [taken] at begins
  rw [taken]
  obtain ⟨more, analyzed⟩ :=
    analyze_elsewhere (b.number ⟨names, 0⟩).1 (names.internAll (Call.texts b.calls))
  obtain ⟨interned, alike⟩ := analyzed options
  let c : Comparison := ⟨(names.internAll (Call.texts b.calls)).internAll more,
    later.internAll more, bench.next, b.size⟩
  refine ⟨c, rfl, rfl, interned, fun choice => ?_⟩
  rw [b.number_elsewhere names bench (c := c) rfl rfl (.internAll _ more)
    (begins.trans (.internAll _ more)) choice]
  exact alike _ _ _ _ _ (c.uniform_relabelling choice) (c.number_injective choice) (.refl _)
    (.refl _) (c.carries choice)

/-- The analyses are alike. -/
theorem answerAlike (names : Interner) (bench : Workbench) {later : Interner}
    (begins : (b.number bench).2.names.Begins later) (options : Options) :
    AnswerAlike
      ⟨((b.number ⟨names, 0⟩).1.analyze options (b.number ⟨names, 0⟩).2.names).2,
        ((b.number bench).1.analyze options later).2, bench.next, b.size⟩
      (((b.number ⟨names, 0⟩).1.analyze options (b.number ⟨names, 0⟩).2.names).1.map
        Analysis.tree)
      (((b.number bench).1.analyze options later).1.map Analysis.tree) := by
  obtain ⟨⟨last, last', shift, made⟩, rfl, rfl, ends, moved⟩ :=
    b.exists_comparison names bench begins options
  have near := moved (.near _)
  have others := fun choice => congrArg Prod.fst (moved choice)
  generalize (b.number ⟨names, 0⟩).1.analyze options (b.number ⟨names, 0⟩).2.names = result
    at ends near others ⊢
  obtain ⟨answer, table⟩ := result
  cases ends
  rw [near] at others ⊢
  cases answer with
  | error refusal => rfl
  | ok a =>
    exact Comparison.tree_alike
      (fun choice => (congrArg Analysis.tree (Except.ok.inj (others choice))).symm)

end Build

namespace Session

/-- What is done in a session: a request is answered, or a program is built and kept without being
analyzed. -/
inductive Work where
  | request (r : Request)
  | build (b : Build)

/-- The session with a program more. -/
def build (s : Session) (b : Build) : Session :=
  { s with
    bench := (b.number s.bench).2
    programs := s.programs.push (b.number s.bench).1 }

def run (s : Session) (works : List Work) : Session :=
  works.foldl (fun
    | s, .request r => (s.step r).2
    | s, .build b => s.build b) s

/-- What a reply says about a program: its tree, or why there is none. -/
def Reply.outcome? : Reply → Option (Answer ScopeTree)
  | .analyzed _ result => some (.ok result)
  | .refused refusal => some (.error refusal)
  | _ => none

section Steps

variable (s : Session) (p : NumberedProgram)

theorem outcome?_analyze : (s.analyze p).1.outcome? =
    some ((p.analyze s.options s.bench.names).1.map Analysis.tree) := by
  simp only [analyze]
  cases (p.analyze s.options s.bench.names).1 <;> rfl

theorem names_analyze :
    (s.analyze p).2.bench.names = (p.analyze s.options s.bench.names).2 := by
  simp only [analyze]
  cases (p.analyze s.options s.bench.names).1 <;> rfl

theorem programs_analyze : (s.analyze p).2.programs = s.programs := by
  simp only [analyze]
  cases (p.analyze s.options s.bench.names).1 <;> rfl

variable {s p} in
theorem step_reanalyze {i : Nat} (found : s.programs[i]? = some p) :
    s.step (.reanalyze i) = s.analyze p := by
  simp only [step, found]

end Steps

/-- The second session has all texts and programs of the first one where they were. -/
structure Continues (s t : Session) : Prop where
  names : s.bench.names.Begins t.bench.names
  programs : ∀ (i : Nat) (p : NumberedProgram),
    s.programs[i]? = some p → t.programs[i]? = some p

namespace Continues

variable {s t u : Session}

theorem refl (s : Session) : Continues s s := ⟨.refl _, fun _ _ found => found⟩

theorem trans (first : Continues s t) (second : Continues t u) : Continues s u :=
  ⟨first.names.trans second.names, fun i p found => second.programs i p (first.programs i p found)⟩

theorem analyze (s : Session) (p : NumberedProgram) : Continues s (s.analyze p).2 where
  names := by
    obtain ⟨done, _, interned⟩ := p.exists_interned s.bench.names
    rw [names_analyze, (interned s.options).1]
    exact .internAll _ _
  programs i q found := by rwa [programs_analyze]

theorem adopt (s : Session) (options : Options) : Continues s (s.adopt options) :=
  ⟨.internAll s.bench.names SpecialNames.texts, fun _ _ found => found⟩

theorem build (s : Session) (b : Build) : Continues s (s.build b) where
  names := s.bench.begins_after b.calls
  programs i p found := by
    have below := (Array.getElem?_eq_some_iff.1 found).1
    change (s.programs.push _)[i]? = some p
    rw [Array.getElem?_push, if_neg (Nat.ne_of_lt below)]
    exact found

theorem step (s : Session) (request : Request) : Continues s (s.step request).2 := by
  cases request with
  | options json =>
    simp only [Session.step]
    split
    · exact .adopt s _
    · exact .refl s
  | analyze draft =>
    -- Numbering the draft is building it in one order among others.
    obtain ⟨b, _, _, number⟩ := draft.exists_build
    simp only [Session.step, number]
    exact (Continues.build s b).trans (.analyze _ _)
  | reanalyze i =>
    simp only [Session.step]
    split
    · exact .analyze s _
    · exact .refl s
  | program i =>
    simp only [Session.step]
    split <;> exact .refl s
  | sameSummary i j =>
    rw [sameSummary_snd]
    exact .refl s
  | has name => exact .refl s
  | ask i query =>
    rw [ask_snd]
    exact .refl s

theorem run (s : Session) (works : List Work) : Continues s (s.run works) := by
  induction works generalizing s with
  | nil => exact .refl s
  | cons work rest ih =>
    cases work with
    | request r => exact (Continues.step s r).trans (ih _)
    | build b => exact (Continues.build s b).trans (ih _)

end Continues

/-- A session that has numbered no nodes, with any names. -/
def fresh (names : Interner) (options : Options) : Session := ⟨⟨names, 0⟩, options, #[], #[]⟩

/-- Two sessions reply alike about a program for which so many nodes were made in both, with the
counter of nodes at some place in the second one and at zero in the first. -/
def RepliesAlike (shift : BitVec 32) (made : Nat) (first second : Reply × Session) : Prop :=
  ∃ answer answer', first.1.outcome? = some answer ∧ second.1.outcome? = some answer' ∧
    AnswerAlike ⟨first.2.bench.names, second.2.bench.names, shift, made⟩ answer answer'

/-- A program that is built in one session and analyzed later is answered like in a fresh one. -/
theorem repliesAlike_of_build (s : Session) (b : Build) {t : Session}
    (continues : Continues (s.build b) t) (names : Interner) :
    RepliesAlike s.bench.next b.size (((fresh names t.options).build b).step (.reanalyze 0))
      (t.step (.reanalyze s.programs.size)) := by
  have built : (s.build b).programs[s.programs.size]? = some (b.number s.bench).1 :=
    Array.getElem?_push_size
  have found := continues.programs _ _ built
  have first : ((fresh names t.options).build b).programs[0]? = some (b.number ⟨names, 0⟩).1 := rfl
  rw [RepliesAlike, step_reanalyze first, step_reanalyze found, outcome?_analyze, outcome?_analyze,
    names_analyze, names_analyze]
  exact ⟨_, _, rfl, rfl, b.answerAlike names s.bench continues.names t.options⟩

/-- A program that is analyzed again gives the same tree, whatever was done in between. -/
theorem outcome?_reanalyze {s t : Session} {i : Nat} (inside : i < s.programs.size)
    (continues : Continues (s.step (.reanalyze i)).2 t) (options : t.options = s.options) :
    (t.step (.reanalyze i)).1.outcome? = (s.step (.reanalyze i)).1.outcome? := by
  have found : s.programs[i]? = some s.programs[i] := Array.getElem?_eq_getElem inside
  rw [step_reanalyze found] at continues ⊢
  have found' := continues.programs i _ ((congrArg (·[i]?) (programs_analyze ..)).trans found)
  have begins := continues.names
  obtain ⟨done, _, analyzed⟩ := s.programs[i].exists_interned s.bench.names
  obtain ⟨interned, _, again⟩ := analyzed s.options
  rw [names_analyze, interned] at begins
  rw [step_reanalyze found', outcome?_analyze, outcome?_analyze, options, again _ begins]

/-- Whatever was done in a session before a program is built, in whatever order, and between that
and its analysis, the reply is what it is in a fresh session: the same refusal, or a tree that is
alike, its nodes numbered higher by as many as there were before the program. Analyzing a program of
the session again later, under the same options, gives the identical tree. -/
theorem analyze_ignores_history (works : List Work) :
    (∀ b later names, RepliesAlike (new.run works).bench.next b.size
      (((fresh names (((new.run works).build b).run later).options).build b).step (.reanalyze 0))
      ((((new.run works).build b).run later).step (.reanalyze (new.run works).programs.size))) ∧
    ∀ i later, i < (new.run works).programs.size →
      (((new.run works).step (.reanalyze i)).2.run later).options = (new.run works).options →
        ((((new.run works).step (.reanalyze i)).2.run later).step (.reanalyze i)).1.outcome? =
          ((new.run works).step (.reanalyze i)).1.outcome? := by
  generalize new.run works = s
  exact ⟨fun b later => s.repliesAlike_of_build b (.run _ later),
    fun i later inside options => outcome?_reanalyze inside (.run _ later) options⟩

/-- `a(b)`, of which `b` is built first. -/
def lateCallee : Build where
  calls := [.node .none, .name "b", .node .none, .name "a", .node .none, .node .none, .node .none]
  tree := .script ⟨4, by decide⟩ [] [.expr ⟨3, by decide⟩ (.call ⟨2, by decide⟩
    (.ident ⟨⟨1, by decide⟩, "a", by decide⟩) [.ident ⟨⟨0, by decide⟩, "b", by decide⟩])]
  once := by decide +kernel

/-- A refused analysis of `[b]++`, and `a(b)` without an analysis. -/
def earlierWork : List Work :=
  [.request (.analyze (.script .none [] [.expr .none (.update .none .increment false
      (.array .none [.element (.mk .none (.ident ⟨.none, "b"⟩) none)] none))])),
    .build lateCallee]

/-- After that the names of `a(b)` have other handles and its nodes higher numbers, but the reply is
alike. The call that was only built gives one tree before and after another analysis. -/
theorem earlierWork_ignored :
    ((((fresh .empty .default).build lateCallee).step (.reanalyze 0)).1.outcome?.map (fun answer =>
      answer.toOption.map (fun tree => tree.vars.toList.map (fun v => v.name.index)))) =
        some (some [1, 0]) ∧
    ((((new.run earlierWork).build lateCallee).step (.reanalyze 2)).1.outcome?.map (fun answer =>
      answer.toOption.map (fun tree => tree.vars.toList.map (fun v => v.name.index)))) =
        some (some [4, 0]) ∧
    RepliesAlike 11 5 (((fresh .empty .default).build lateCallee).step (.reanalyze 0))
      (((new.run earlierWork).build lateCallee).step (.reanalyze 2)) ∧
    ((((new.run earlierWork).step (.reanalyze 1)).2.run
      [.build lateCallee, .request (.reanalyze 2)]).step (.reanalyze 1)).1.outcome? =
        ((new.run earlierWork).step (.reanalyze 1)).1.outcome? := by
  have next : (new.run earlierWork).bench.next = 11 := by decide +kernel
  have size : (new.run earlierWork).programs.size = 2 := by decide +kernel
  have options : (((new.run earlierWork).build lateCallee).run []).options = .default := by
    decide +kernel
  obtain ⟨alike, again⟩ := analyze_ignores_history earlierWork
  have reply := alike lateCallee [] .empty
  rw [next, size, options] at reply
  exact ⟨by decide +kernel, by decide +kernel, reply,
    again 1 [.build lateCallee, .request (.reanalyze 2)] (by decide +kernel) (by decide +kernel)⟩

end Session

end ScopeAnalysis
