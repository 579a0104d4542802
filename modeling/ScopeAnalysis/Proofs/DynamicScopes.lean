import Mathlib.Data.Set.List
import ScopeAnalysis.Proofs.Consistency
import ScopeAnalysis.Proofs.DepthFirst
import ScopeAnalysis.Proofs.Grammar.EvalCalls

/-!
# Dynamic scopes

A scope is dynamic if all scopes of its kind are, or if a direct call of `eval` stands directly in
it. The walk marks the innermost scope just before it reads the callee, so the reference of the
callee starts its way in the scope that was marked, and no other scope is marked with it.
-/

namespace ScopeAnalysis

namespace ScopeTree

/-- A use passes through a scope. -/
def Holds (tree : ScopeTree) (id : ScopeId) (r : ReferenceId) : Prop :=
  ∃ scope entry, tree.scopeAt? id = some scope ∧ entry ∈ scope.through.entries ∧ r ∈ entry.2

/-- A use stands directly in a scope: in the innermost one that it passes through, or in the owner
of its variable if it passes through none. -/
def UsedIn (tree : ScopeTree) (r : ReferenceId) (id : ScopeId) : Prop :=
  (tree.Holds id r ∧ ∀ other, tree.Holds other r → other = id ∨ tree.IsBelow id other) ∨
    ((∀ other, ¬ tree.Holds other r) ∧ ∃ v, tree.resolve? r = some v ∧ v.scope = id)

/-- The dynamic scopes are the global one, those of `with` statements, and those in which a callee
of the given ones is used directly. -/
structure MarksCalls (tree : ScopeTree) (callees : List Occurrence) (calls : List ReferenceId) :
    Prop where
  /-- Each call has a use of its own, which reads the callee. -/
  reads : ∃ ids, ids.Perm callees ∧
    List.Forall₂ (fun r id => ∃ v, tree.referenceAt? r = some ⟨id, .read, v⟩) calls ids
  distinct : calls.Nodup
  /-- If no two uses are of one occurrence, the callees are known by their occurrences. -/
  identified : (tree.references.toList.map Reference.id).Nodup →
    ∀ r use, tree.referenceAt? r = some use → (r ∈ calls ↔ use.id ∈ callees)
  /-- A callee is used directly in one scope, not in those around it or inside it. -/
  unique : ∀ r ∈ calls, ∃! id, tree.UsedIn r id
  exact : ∀ id scope, tree.scopeAt? id = some scope →
    (scope.dynamic = true ↔
      scope.kind = .global ∨ scope.kind = .with_ ∨ ∃ r ∈ calls, tree.UsedIn r id)

/-- What lies below a scope was opened later. -/
theorem IsDepthFirst.index_lt {tree : ScopeTree} (deep : tree.IsDepthFirst) {inner outer : ScopeId}
    (below : tree.IsBelow inner outer) : outer.index < inner.index := by
  induction below with
  | single up => exact deep.above _ _ up
  | tail _ up ih => exact Nat.lt_trans (deep.above _ _ up) ih

/-- A use stands directly in one scope at most. -/
theorem UsedIn.unique {tree : ScopeTree} (deep : tree.IsDepthFirst) {r : ReferenceId}
    {id id' : ScopeId} (first : tree.UsedIn r id) (second : tree.UsedIn r id') : id = id' := by
  obtain ⟨holds, inner⟩ | ⟨free, v, means, owner⟩ := first
  · obtain ⟨holds', inner'⟩ | ⟨free', _⟩ := second
    · rcases inner id' holds' with same | below
      · exact same.symm
      · rcases inner' id holds with same | above
        · exact same
        · have up := deep.index_lt below
          have down := deep.index_lt above
          omega
    · exact absurd holds (free' id)
  · obtain ⟨holds', _⟩ | ⟨_, v', means', owner'⟩ := second
    · exact absurd holds' (free id')
    · rw [means] at means'
      cases means'
      exact owner.symm.trans owner'

/-- If no two uses are of one occurrence, a reference and its occurrence determine each other. -/
theorem mem_calls_iff {tree : ScopeTree} {ids : List Occurrence} {calls : List ReferenceId}
    (reads : List.Forall₂ (fun r id => ∃ v, tree.referenceAt? r = some ⟨id, .read, v⟩) calls ids)
    (apart : (tree.references.toList.map Reference.id).Nodup) {r : ReferenceId} {use : Reference}
    (found : tree.referenceAt? r = some use) : r ∈ calls ↔ use.id ∈ ids := by
  let Names (r : ReferenceId) (id : Occurrence) : Prop :=
    (tree.references.toList.map Reference.id)[r.index]? = some id
  have named {r : ReferenceId} {use : Reference} (found : tree.referenceAt? r = some use) :
      Names r use.id := by
    have there : tree.references[r.index]? = some use := found
    change (tree.references.toList.map Reference.id)[r.index]? = some use.id
    rw [List.getElem?_map, Array.getElem?_toList, there]
    rfl
  have both : Relator.BiUnique Names := by
    refine ⟨fun r r' id first second => ?_, fun r id id' first second => ?_⟩
    · have inside := (List.getElem?_eq_some_iff.1 first).1
      have same := (List.getElem?_inj inside apart).1 (first.trans second.symm)
      exact congrArg ReferenceId.mk same
    · exact Option.some.inj (first.symm.trans second)
  refine List.rel_mem both (named found) (reads.imp (fun r id read => ?_))
  obtain ⟨v, there⟩ := read
  exact named there

end ScopeTree

namespace Resolution

/-- Which callee is read after each mark of a direct call of `eval`, if one is read there. -/
inductive Layout.Announces : List Layout → List (Option Occurrence) → Prop
  | nil : Announces [] []
  | use {ls : List Layout} {ids : List (Option Occurrence)} (id : Occurrence) (access : Access)
      (rest : Announces ls ids) : Announces (.use id access :: ls) ids
  | withStatement {ls : List Layout} {ids : List (Option Occurrence)} (rest : Announces ls ids) :
      Announces (.withStatement :: ls) ids
  | scope {inner ls : List Layout} {inside ids : List (Option Occurrence)} (kind : ScopeKind)
      (node : Node) (arguments : Option Name) (decls : List Declaration)
      (within : Announces inner inside) (rest : Announces ls ids) :
      Announces (.scope kind node arguments decls inner :: ls) (inside ++ ids)
  | call {ls : List Layout} {ids : List (Option Occurrence)} (id : Occurrence)
      (rest : Announces ls ids) : Announces (.directEval :: .use id .read :: ls) (some id :: ids)
  | loose {ls : List Layout} {ids : List (Option Occurrence)} (rest : Announces ls ids) :
      Announces (.directEval :: ls) (none :: ids)

theorem Layout.Announces.append {ls ms : List Layout} {ids more : List (Option Occurrence)}
    (first : Announces ls ids) (second : Announces ms more) :
    Announces (ls ++ ms) (ids ++ more) := by
  induction first with
  | nil => exact second
  | use id access _ ih => exact .use id access ih
  | withStatement _ ih => exact .withStatement ih
  | scope kind node arguments decls within _ _ ih =>
    rw [List.append_assoc]
    exact .scope kind node arguments decls within ih
  | call id _ ih => exact .call id ih
  | loose _ ih => exact .loose ih

namespace Course

/-- A completed course announces the callees of the direct calls of `eval`. -/
def Announces (c : Course) (ids : List (Option Occurrence)) : Prop :=
  c.outcome = .ok () → Layout.Announces c.parts ids

namespace Announces

variable {c c' : Course} {ids more : List (Option Occurrence)}

theorem done : Course.done.Announces [] := fun _ => .nil

theorem use (id : Occurrence) (access : Access) : (Course.use id access).Announces [] :=
  fun _ => .use id access .nil

theorem useAll (access : Access) (uses : List Occurrence) :
    (Course.useAll access uses).Announces [] := by
  intro completed
  induction uses with
  | nil => exact .nil
  | cons id rest ih => exact .use id access (ih completed)

theorem andThen (first : c.Announces ids) (second : c'.Announces more) :
    (c.andThen c').Announces (ids ++ more) := by
  obtain ⟨parts, outcome⟩ := c
  cases outcome with
  | error refusal => intro completed; cases completed
  | ok _ => exact fun completed => (first rfl).append (second completed)

theorem asking {α : Type} {answer : Answer α} {next : α → Course}
    (all : ∀ a, answer = .ok a → (next a).Announces ids) :
    (Course.asking answer next).Announces ids := by
  cases answer with
  | error refusal => intro completed; cases completed
  | ok a => exact all a rfl

theorem inScope {kind : ScopeKind} {node : Node} {arguments : Option Name}
    {decls : List Declaration} (inner : c.Announces ids) :
    (Course.inScope kind node arguments decls c).Announces ids := by
  intro completed
  have all := Layout.Announces.scope kind node arguments decls (inner completed) .nil
  rwa [List.append_nil] at all

theorem writes (compound : Bool) (t : Outline) : (Course.writes compound t).Announces [] := by
  unfold Course.writes
  split
  · exact .use _ _
  · exact .asking (fun ids _ => .useAll .write ids)

theorem headWrites (t : Outline) : (Course.headWrites t).Announces [] := by
  unfold Course.headWrites
  split <;> exact .asking (fun ids _ => .useAll .write ids)

theorem aroundLone (inner : c.Announces ids) (alone : Option LoneFunction) :
    (Course.aroundLone alone c).Announces ids := by
  cases alone with
  | none => exact inner
  | some f => exact inner.inScope

theorem aroundNamed (inner : c.Announces ids) (kind : FunctionKind) (node : Node)
    (name : Option Occurrence) : (Course.aroundNamed kind node name c).Announces ids := by
  unfold Course.aroundNamed
  split
  · exact inner.inScope
  · exact inner

end Announces

variable (setting : Walk.Setting)

/-- What is read first in an outline is what its course uses first. -/
theorem exists_parts_of_firstRead? (strict : Bool) {o : Outline} {id : Occurrence}
    (first : o.firstRead? = some id) :
    ∃ later, (ofOutline setting strict o).parts = .use id .read :: later := by
  unfold Outline.firstRead? at first
  split at first
  · cases first
    exact ⟨[], rfl⟩
  next os =>
    cases first
    refine ⟨(ofAll setting strict os).parts, ?_⟩
    rw [ofOutline, ofAll, ofOutline]
    rfl
  · cases first

/-- A mark announces what is read first under it. -/
theorem Announces.directEval {strict : Bool} {call : Outline} {ids : List (Option Occurrence)}
    (inner : (ofOutline setting strict call).Announces ids) :
    (Course.andThen ⟨[.directEval], .ok ()⟩ (ofOutline setting strict call)).Announces
      (call.firstRead? :: ids) := by
  intro completed
  have rest := inner completed
  change Layout.Announces (.directEval :: (ofOutline setting strict call).parts) _
  cases first : call.firstRead? with
  | none => exact .loose rest
  | some id =>
    obtain ⟨later, parts⟩ := exists_parts_of_firstRead? setting strict first
    rw [parts] at rest ⊢
    cases rest with
    | use _ _ further => exact .call id further

/-- What runs code when parameters are bound is known from each of them. -/
theorem evaluates_of_boundByAll {ps : List ParamOutline} {bound : Bound}
    (bounds : Walk.boundByAll ps = .ok bound) :
    bound.evaluates = ps.any ParamOutline.runsCode := by
  induction ps generalizing bound with
  | nil =>
    cases bounds
    rfl
  | cons p rest ih =>
    obtain ⟨node, b⟩ := p
    rw [Walk.boundByAll] at bounds
    cases first : b.boundNames with
    | error refusal => rw [first] at bounds; cases bounds
    | ok own =>
      cases others : Walk.boundByAll rest with
      | error refusal => rw [first, others] at bounds; cases bounds
      | ok more =>
        rw [first, others] at bounds
        cases bounds
        rw [List.any_cons, ← ih others, ParamOutline.runsCode, Outline.runsCode, first]
        rfl

mutual

/-- The course of an outline announces what is read first under its marks. -/
theorem announces_ofOutline (strict : Bool) : ∀ o : Outline,
    (ofOutline setting strict o).Announces o.callees
  | .nothing | .binding _ | .target _ | .imports _ => .done
  | .read id => .use id .read
  | .delete id => .use id .delete
  | .update id => .use id .readWrite
  | .evaluated inner => announces_ofOutline strict inner
  | .union parts => announces_ofAll strict parts
  | .directEval call => .directEval setting (announces_ofOutline strict call)
  | .assign compound t value =>
    (Announces.writes compound t).andThen
      ((announces_ofOutline strict t).andThen (announces_ofOutline strict value))
  | .decl _ declarators => announces_ofDeclarators strict declarators
  | .block _ _ statements => (announces_ofAll strict statements).inScope
  | .ifElse test yesAlone yes noAlone no =>
    (announces_ofOutline strict test).andThen
      (((announces_ofOutline strict yes).aroundLone yesAlone).andThen
        ((announces_ofOutline strict no).aroundLone noAlone))
  | .forLoop _ _ init test update body =>
    ((announces_ofOutline strict init).andThen ((announces_ofOutline strict test).andThen
      ((announces_ofOutline strict update).andThen (announces_ofOutline strict body)))).inScope
  | .forEach _ _ head collection body =>
    ((Announces.headWrites head).andThen ((announces_ofOutline strict head).andThen
      ((announces_ofOutline strict collection).andThen
        (announces_ofOutline strict body)))).inScope
  | .switch _ _ discriminant cases =>
    (announces_ofOutline strict discriminant).andThen ((announces_ofCases strict cases).inScope)
  | .handler node _ b block decls statements => by
    rw [ofOutline]
    split
    next => intro completed; cases completed
    next bound _ =>
      exact ((announces_ofOutline strict b).andThen
        ((announces_ofAll strict statements).inScope)).inScope
  | .withObject node object body => by
    have marked : Announces ⟨[.withStatement], .ok ()⟩ [] := fun _ => .withStatement .nil
    exact (announces_ofOutline strict object).andThen
      ((marked.andThen (announces_ofOutline strict body)).inScope)
  | .class_ _ _ _ heritage elements =>
    ((announces_ofOutline true heritage).andThen (announces_ofAll true elements)).inScope
  | .function kind node name params body => by
    refine Announces.aroundNamed (.asking (fun bound bounds => ?_)) kind node name
    rw [evaluates_of_boundByAll bounds, Outline.callees]
    split
    · exact ((announces_ofParams _ params).andThen (announces_ofBody _ kind node _ false
        body)).inScope
    · exact announces_ofBody _ kind node _ true body

theorem announces_ofAll (strict : Bool) : ∀ os : List Outline,
    (ofAll setting strict os).Announces (Outline.calleesAll os)
  | [] => .done
  | o :: rest => (announces_ofOutline strict o).andThen (announces_ofAll strict rest)

theorem announces_ofDeclarators (strict : Bool) : ∀ ds : List DeclaratorOutline,
    (ofDeclarators setting strict ds).Announces (Outline.calleesDeclarators ds)
  | [] => .done
  | .mk b hasInit init :: rest => by
    rw [ofDeclarators, Outline.calleesDeclarators, List.append_assoc]
    have initial : Announces (if hasInit then asking b.boundNames (fun bound =>
        useAll .write bound.names) else done) [] := by
      split
      · exact .asking (fun bound _ => .useAll .write bound.names)
      · exact .done
    exact initial.andThen ((announces_ofOutline strict b).andThen
      ((announces_ofOutline strict init).andThen (announces_ofDeclarators strict rest)))

theorem announces_ofCases (strict : Bool) : ∀ cs : List CaseOutline,
    (ofCases setting strict cs).Announces (Outline.calleesCases cs)
  | [] => .done
  | .mk test statements :: rest => by
    rw [ofCases, Outline.calleesCases, List.append_assoc]
    exact (announces_ofOutline strict test).andThen
      ((announces_ofAll strict statements).andThen (announces_ofCases strict rest))

theorem announces_ofParams (strict : Bool) : ∀ ps : List ParamOutline,
    (ofParams setting strict ps).Announces (Outline.calleesParams ps)
  | [] => .done
  | .mk node b :: rest => by
    rw [ofParams, Outline.calleesParams]
    refine .asking (fun bound _ => Announces.andThen ?_ (announces_ofParams strict rest))
    split
    · exact (announces_ofOutline strict b).inScope
    · exact announces_ofOutline strict b

theorem announces_ofBody (strict : Bool) (kind : FunctionKind) (node : Node)
    (params : List Declaration) (holdsParams : Bool) : ∀ body : BodyOutline,
    (ofBody setting strict kind node params holdsParams body).Announces
      (Outline.calleesBody body)
  | .concise value => (announces_ofOutline strict value).inScope
  | .block _ decls statements => by
    rw [ofBody]
    split
    next => intro completed; cases completed
    next => exact (announces_ofAll _ statements).inScope

end

theorem announces_ofProgram (outline : ProgramOutline) :
    (ofProgram setting outline).Announces (Outline.calleesAll outline.statements) := by
  unfold ofProgram
  split <;>
    exact .asking (fun owned _ => ((announces_ofAll setting _ outline.statements).inScope).inScope)

end Course

namespace State

def flagsAt (s : State) (i : Nat) : Option (ScopeKind × Bool) :=
  s.scopes[i]?.map (fun scope => (scope.kind, scope.dynamic))

/-- The way of a use starts in this scope. -/
def StartsIn (s : State) (r : ReferenceId) (id : ScopeId) : Prop :=
  ∃ use v chain, s.references[r.index]? = some use ∧ s.Route r use v chain ∧
    chain.headD v.scope = id

theorem StartsIn.index_lt {s : State} {r : ReferenceId} {id : ScopeId} (starts : s.StartsIn r id) :
    id.index < s.scopes.size := by
  obtain ⟨use, v, chain, _, route, rfl⟩ := starts
  cases chain with
  | nil => exact index_lt_of_own route.owned
  | cons first rest =>
    obtain ⟨outer, up⟩ := exists_parentOf route.climbs first List.mem_cons_self
    exact index_lt_of_parentOf up

theorem StartsIn.grow {s t : State} {r : ReferenceId} {id : ScopeId} (starts : s.StartsIn r id)
    (coherent : s.Coherent) (grows : Grows s t) : t.StartsIn r id := by
  obtain ⟨use, v, chain, found, route, first⟩ := starts
  have old : r.index < s.references.size := (Array.getElem?_eq_some_iff.1 found).1
  obtain ⟨w, kept⟩ := grows.route coherent old route
  obtain ⟨w', foundW, _, scope, _⟩ := grows.vars _ v route.found
  rw [kept.found] at foundW
  cases foundW
  exact ⟨use, w, chain, grows.references _ _ found, kept, scope ▸ first⟩

/-- The way of a use starts in the scope that was current when it was recorded. -/
theorem Routed.startsIn_record {s : State} (routed : s.Routed) (coherent : s.Coherent)
    (opened : s.openScopes ≠ []) (id : Occurrence) (access : Access) :
    (∃ v, (s.record id access).references[s.references.size]? = some ⟨id, access, v⟩) ∧
      (s.record id access).StartsIn ⟨s.references.size⟩ s.current := by
  obtain ⟨v, a, inner, outer, references, route, stack⟩ :=
    routed.route_record coherent opened id access
  have current : inner.headD a.scope = s.current := by
    rw [State.current, stack]
    cases inner <;> rfl
  have last : (s.record id access).references[s.references.size]? = some ⟨id, access, v⟩ := by
    rw [references]
    exact Array.getElem?_push_size
  exact ⟨⟨v, last⟩, _, a, inner, last, route, current⟩

theorem flagsAt_record (s : State) (id : Occurrence) (access : Access) (i : Nat) :
    (s.record id access).flagsAt i = s.flagsAt i :=
  view_record (fun _ _ => rfl) (fun _ _ => rfl) s id access i

theorem flagsAt_makeDynamic (s : State) (i : Nat) :
    s.makeDynamic.flagsAt i =
      if s.current.index = i then (s.flagsAt i).map (fun flags => (flags.1, true))
      else s.flagsAt i := by
  have changed : s.makeDynamic.scopes[i]? = if s.current.index = i then
      s.scopes[i]?.map (fun scope => { scope with dynamic := true }) else s.scopes[i]? :=
    getElem?_updateScope (s.report _) s.current _ i
  rw [flagsAt, changed]
  split
  · rw [flagsAt, Option.map_map, Option.map_map]
    rfl
  · rfl

/-- Each of the given callees has been read by a use of its own, and the scopes in which these uses
start are those that are dynamic without all of their kind being so. -/
structure Flagged (s : State) (ids : List Occurrence) (calls : List (ReferenceId × ScopeId)) :
    Prop where
  reads : List.Forall₂ (fun call id => ∃ v, s.references[call.1.index]? = some ⟨id, .read, v⟩)
    calls ids
  distinct : (calls.map Prod.fst).Nodup
  places : ∀ call ∈ calls, s.StartsIn call.1 call.2
  exact : ∀ i kind dynamic, s.flagsAt i = some (kind, dynamic) →
    (dynamic = true ↔ kind.isDynamic = true ∨ ∃ r, (r, ⟨i⟩) ∈ calls)

namespace Flagged

variable {s t : State} {ids : List Occurrence} {calls : List (ReferenceId × ScopeId)}

/-- A step that only opens scopes, as dynamic as all of their kind. -/
theorem keep (flagged : s.Flagged ids calls) (coherent : s.Coherent) (grows : Grows s t)
    (flags : ∀ i, t.flagsAt i = s.flagsAt i ∨
      s.scopes.size ≤ i ∧ ∃ kind, t.flagsAt i = some (kind, kind.isDynamic)) :
    t.Flagged ids calls where
  reads := flagged.reads.imp (fun _ _ read => by
    obtain ⟨v, found⟩ := read
    exact ⟨v, grows.references _ _ found⟩)
  distinct := flagged.distinct
  places call member := (flagged.places call member).grow coherent grows
  exact i kind dynamic found := by
    rcases flags i with same | ⟨new, kind', opened⟩
    · exact flagged.exact i kind dynamic (same ▸ found)
    · rw [opened] at found
      cases found
      -- No call was made in a scope that had not been opened.
      have none : ¬ ∃ r, (r, ⟨i⟩) ∈ calls := by
        rintro ⟨r, member⟩
        exact Nat.not_lt.2 new (flagged.places _ member).index_lt
      rw [or_iff_left none]

theorem record (flagged : s.Flagged ids calls) (coherent : s.Coherent) (id : Occurrence)
    (access : Access) : (s.record id access).Flagged ids calls :=
  flagged.keep coherent (.record coherent.nested.nodup id access)
    (fun i => .inl (flagsAt_record s id access i))

theorem leave (flagged : s.Flagged ids calls) (coherent : s.Coherent) :
    s.leave.Flagged ids calls :=
  flagged.keep coherent (.leave s) (fun i => .inl (by rw [flagsAt, flagsAt, scopes_leave]))

theorem openWith (flagged : s.Flagged ids calls) (coherent : s.Coherent) (kind : ScopeKind)
    (node : Node) (arguments : Option Name) (decls : List Declaration) :
    (s.openWith kind node arguments decls).Flagged ids calls := by
  refine flagged.keep coherent (.openWith s kind node arguments decls) (fun i => ?_)
  have seen : (s.openWith kind node arguments decls).flagsAt i = (s.enter kind node).flagsAt i :=
    view_openWith s kind node arguments decls (fun _ _ => rfl) i
  rw [seen, flagsAt, getElem?_enter]
  split
  next last => exact .inr ⟨Nat.le_of_eq last.symm, kind, rfl⟩
  next =>
    left
    unfold noteChild
    split
    · rfl
    · refine view_updateScope s _ (fun _ => ?_) i
      rfl

/-- A direct call of `eval` marks the scope in which its callee is used. -/
theorem call (flagged : s.Flagged ids calls) (coherent : s.Coherent) (routed : s.Routed)
    (opened : s.openScopes ≠ []) (id : Occurrence) :
    (s.makeDynamic.record id .read).Flagged (ids ++ [id])
      (calls ++ [(⟨s.references.size⟩, s.current)]) := by
  have marked := Grows.makeDynamic s
  have coherentM := coherent.makeDynamic
  have grows := marked.trans (.record coherentM.nested.nodup id .read)
  obtain ⟨last, starts⟩ :=
    (marked.routed_of_quiet coherent routed rfl).startsIn_record coherentM opened id .read
  have older (call : ReferenceId × ScopeId) (member : call ∈ calls) :
      call.1.index < s.references.size := by
    obtain ⟨use, _, _, found, _⟩ := flagged.places call member
    exact (Array.getElem?_eq_some_iff.1 found).1
  refine ⟨?_, ?_, ?_, ?_⟩
  · refine List.rel_append (flagged.reads.imp (fun _ _ read => ?_)) (.cons last .nil)
    obtain ⟨w, found⟩ := read
    exact ⟨w, grows.references _ _ found⟩
  · rw [List.map_append, List.map_singleton]
    refine List.nodup_append.2 ⟨flagged.distinct, List.nodup_singleton _, ?_⟩
    intro r member new isNew same
    obtain ⟨call, there, rfl⟩ := List.mem_map.1 member
    rw [List.mem_singleton.1 isNew] at same
    have before := older call there
    rw [same] at before
    exact Nat.lt_irrefl _ before
  · exact List.forall_mem_append.2 ⟨fun call member =>
      (flagged.places call member).grow coherent grows, List.forall_mem_singleton.2 starts⟩
  · intro i kind dynamic found
    rw [flagsAt_record, flagsAt_makeDynamic] at found
    split at found
    next here =>
      subst here
      obtain ⟨flags, _, same⟩ := Option.map_eq_some_iff.1 found
      cases same
      exact iff_of_true rfl (.inr ⟨⟨s.references.size⟩, by simp⟩)
    next elsewhere =>
      have others (r : ReferenceId) : (r, (⟨i⟩ : ScopeId)) ∈ calls ++
          [(⟨s.references.size⟩, s.current)] ↔ (r, ⟨i⟩) ∈ calls := by
        have other : (⟨i⟩ : ScopeId) ≠ s.current := fun same =>
          elsewhere (congrArg ScopeId.index same).symm
        simp [other]
      simp only [others]
      exact flagged.exact i kind dynamic found

/-- Laying out marks no scopes but those in which the announced callees are read. -/
theorem layOutAll {ls : List Layout} {marks : List (Option Occurrence)}
    (announces : Layout.Announces ls marks) : ∀ {s : State} {ids new : List Occurrence}
    {calls : List (ReferenceId × ScopeId)}, marks = new.map some → s.Flagged ids calls →
    s.Coherent → s.Routed → s.openScopes ≠ [] →
    ∃ more, (s.layOutAll ls).Flagged (ids ++ new) more := by
  induction announces with
  | nil =>
    intro s ids new calls all flagged coherent routed opened
    rw [List.map_eq_nil_iff.1 all.symm, List.append_nil]
    exact ⟨calls, flagged⟩
  | use id access _ ih =>
    intro s ids new calls all flagged coherent routed opened
    exact ih all (flagged.record coherent id access) (coherent.record opened id access)
      (routed.record coherent opened id access) (by simpa using opened)
  | withStatement _ ih =>
    intro s ids new calls all flagged coherent routed opened
    have reported := Grows.report s (.withStatement s.current)
    exact ih all (flagged.keep coherent reported (fun _ => .inl rfl)) (coherent.report _)
      (reported.routed_of_quiet coherent routed rfl) opened
  | @scope inner _ _ _ kind node arguments decls within _ ihWithin ih =>
    intro s ids new calls all flagged coherent routed opened
    obtain ⟨first, second, rfl, inside, outside⟩ := List.append_eq_map_iff.1 all
    have can : s.CanEnter := .of_opened opened
    have started := coherent.openWith can kind node arguments decls
    obtain ⟨more, filled⟩ := ihWithin inside.symm
      (flagged.openWith coherent kind node arguments decls) started
      (routed.openWith coherent kind node arguments decls) opened_openWith
    have left := filled.leave (started.layOutAll opened_openWith inner)
    rw [← List.append_assoc]
    exact ih outside.symm left (coherent.scope can kind node arguments decls inner)
      (routed.scope coherent can kind node arguments decls inner)
      (by simpa using opened)
  | call id _ ih =>
    intro s ids new calls all flagged coherent routed opened
    obtain ⟨first, others, rfl, same, rest⟩ := List.map_eq_cons_iff.1 all.symm
    cases same
    have marked := Grows.makeDynamic s
    have next := ih rest.symm (flagged.call coherent routed opened id)
      (coherent.makeDynamic.record opened id .read)
      ((marked.routed_of_quiet coherent routed rfl).record coherent.makeDynamic opened id .read)
      (by rw [openScopes_record]; exact opened)
    rwa [List.append_assoc] at next
  | loose _ ih =>
    intro s ids new calls all
    obtain ⟨first, others, rfl, same, rest⟩ := List.map_eq_cons_iff.1 all.symm
    cases same

end Flagged

/-- Laying out the outermost scope marks the scopes in which the announced callees are read. -/
theorem Flagged.scope {s : State} {calls : List (ReferenceId × ScopeId)} {new : List Occurrence}
    (flagged : s.Flagged [] calls) (coherent : s.Coherent) (routed : s.Routed) (can : s.CanEnter)
    {kind : ScopeKind} {node : Node} {arguments : Option Name} {decls : List Declaration}
    {inner : List Layout} (announces : Layout.Announces [.scope kind node arguments decls inner]
      (new.map some)) :
    ∃ more, (s.layOut (.scope kind node arguments decls inner)).Flagged new more := by
  have started := coherent.openWith can kind node arguments decls
  have within : Layout.Announces inner (new.map some) := by
    generalize new.map some = marks at announces
    cases announces with
    | scope _ _ _ _ within rest =>
      cases rest
      rwa [List.append_nil]
  obtain ⟨more, filled⟩ := Flagged.layOutAll within rfl
    (flagged.openWith coherent kind node arguments decls) started
    (routed.openWith coherent kind node arguments decls) opened_openWith
  exact ⟨more, filled.leave (started.layOutAll opened_openWith inner)⟩

/-- A use passes through the scopes of its way. -/
theorem Route.holds_iff {s : State} {r : ReferenceId} {use : Reference} {v : Variable}
    {chain : List ScopeId} (route : s.Route r use v chain) (id : ScopeId) :
    s.tree.Holds id r ↔ id ∈ chain := by
  constructor
  · rintro ⟨scope, entry, found, there, member⟩
    have passing : (entry.1, r) ∈ scope.passes r := List.mem_filter.2
      ⟨List.mem_flatMap.2 ⟨entry, there, List.mem_map_of_mem member⟩, by simp⟩
    rw [route.passes id.index scope found] at passing
    split at passing
    next inside => exact inside
    next => cases passing
  · intro inside
    obtain ⟨outer, up⟩ := exists_parentOf route.climbs id inside
    have below := index_lt_of_parentOf up
    have found := Array.getElem?_eq_getElem below
    have passing : (use.id.name, r) ∈ s.scopes[id.index].passes r := by
      rw [route.passes id.index _ found, if_pos inside]
      exact List.mem_singleton_self _
    obtain ⟨entry, there, member⟩ := List.mem_flatMap.1 (List.mem_filter.1 passing).1
    obtain ⟨r', member', same⟩ := List.mem_map.1 member
    rw [(Prod.mk.inj same).2] at member'
    exact ⟨_, entry, found, there, member'⟩

theorem StartsIn.usedIn {s : State} {r : ReferenceId} {id : ScopeId} (starts : s.StartsIn r id) :
    s.tree.UsedIn r id := by
  obtain ⟨use, v, chain, found, route, rfl⟩ := starts
  cases chain with
  | nil =>
    refine .inr ⟨fun other holds => ?_, v, ?_, rfl⟩
    · cases (route.holds_iff other).1 holds
    · have there : s.tree.referenceAt? r = some use := found
      simp only [ScopeTree.resolve?, there]
      exact route.found
  | cons first rest =>
    refine .inl ⟨(route.holds_iff first).2 List.mem_cons_self, fun other holds => ?_⟩
    rcases List.mem_cons.1 ((route.holds_iff other).1 holds) with same | later
    · exact .inl same
    · have climbs := route.climbs.imp (fun _ _ up => Relation.TransGen.single up)
      have all := List.isChain_iff_pairwise.1 climbs
      exact .inr ((List.pairwise_cons.1 all).1 other (List.mem_append_left _ later))

/-- The marks of a state, read off its tree. -/
theorem Flagged.marksCalls {s : State} {ids callees : List Occurrence}
    {calls : List (ReferenceId × ScopeId)} (flagged : s.Flagged ids calls)
    (deep : s.tree.IsDepthFirst) (same : ids.Perm callees) :
    s.tree.MarksCalls callees (calls.map Prod.fst) := by
  have reads : List.Forall₂ (fun r id => ∃ v, s.tree.referenceAt? r = some ⟨id, .read, v⟩)
      (calls.map Prod.fst) ids := List.forall₂_map_left_iff.2 flagged.reads
  refine ⟨⟨ids, same, reads⟩, flagged.distinct, fun apart r use found => ?_, ?_, ?_⟩
  · rw [ScopeTree.mem_calls_iff reads apart found, same.mem_iff]
  · intro r member
    obtain ⟨call, there, rfl⟩ := List.mem_map.1 member
    have used := (flagged.places call there).usedIn
    exact ⟨call.2, used, fun id other => other.unique deep used⟩
  · intro id scope found
    have flags : s.flagsAt id.index = some (scope.kind, scope.dynamic) := by
      have there : s.scopes[id.index]? = some scope := found
      rw [flagsAt, there]
      rfl
    have kinds : scope.kind.isDynamic = true ↔ scope.kind = .global ∨ scope.kind = .with_ := by
      cases scope.kind <;> decide
    rw [flagged.exact id.index _ _ flags, kinds, or_assoc]
    refine or_congr_right (or_congr_right ⟨?_, ?_⟩)
    · rintro ⟨r, member⟩
      exact ⟨r, List.mem_map_of_mem member, (flagged.places _ member).usedIn⟩
    · rintro ⟨r, member, used⟩
      obtain ⟨call, there, rfl⟩ := List.mem_map.1 member
      rw [used.unique deep (flagged.places call there).usedIn]
      exact ⟨call.1, there⟩

end State

end Resolution

section

variable {options : Options} {p : NumberedProgram} {names names' : Interner} {a : Analysis}

/-- What is made of given things up to order is made of them in some order. -/
theorem exists_of_perm_map_some {α : Type} {marks : List (Option α)} {as : List α}
    (same : marks.Perm (as.map some)) : ∃ bs : List α, marks = bs.map some ∧ bs.Perm as := by
  have all : marks ∈ Set.range (List.map (fun a : α => some a)) := by
    rw [Set.range_list_map]
    intro mark member
    obtain ⟨a, _, rfl⟩ := List.mem_map.1 (same.mem_iff.1 member)
    exact ⟨a, rfl⟩
  obtain ⟨bs, rfl⟩ := all
  exact ⟨bs, rfl, (List.map_perm_map_iff (Option.some_injective α)).1 same⟩

open Resolution in
/-- The tree of an analyzed program is that of a state in which the callees of direct calls of
`eval` have been read. -/
theorem exists_flagged_of_analyze (analyzed : p.analyze options names = (.ok a, names')) :
    ∃ (s : State) (ids : List Occurrence) (calls : List (ReferenceId × ScopeId)),
      a.tree = s.tree ∧ s.Flagged ids calls ∧
        ids.Perm (p.evalCallees (SpecialNames.intern names).1.eval) := by
  obtain ⟨outline, decls, inner, folded, completed, tree⟩ := analyze_layOut analyzed
  have marks := Folding.calls_outline p _ outline (congrArg Prod.fst folded)
  have announces := Course.announces_ofProgram
    ⟨options, (SpecialNames.intern names).1.arguments⟩ outline
  obtain ⟨ids, all, same⟩ := exists_of_perm_map_some marks
  rw [all, completed] at announces
  have initial := State.Coherent.initial #[.start p.isModule p.node.id]
  have can : (State.initial #[.start p.isModule p.node.id]).CanEnter := fun _ => rfl
  have unflagged : (State.initial #[.start p.isModule p.node.id]).Flagged [] [] :=
    ⟨.nil, .nil, nofun, by simp [State.flagsAt, State.initial]⟩
  obtain ⟨calls, flagged⟩ := unflagged.scope initial (.initial _) can (announces rfl)
  exact ⟨_, ids, calls, tree, flagged, same⟩

/-- A scope of an analyzed program is dynamic just if it is global, of a `with` statement, or the
one in which the callee of a direct call of `eval` is used. -/
theorem marksCalls_of_analyze (analyzed : p.analyze options names = (.ok a, names')) :
    ∃ calls, a.tree.MarksCalls (p.evalCallees (SpecialNames.intern names).1.eval) calls := by
  have deep := isDepthFirst_tree analyzed
  obtain ⟨s, ids, calls, tree, flagged, same⟩ := exists_flagged_of_analyze analyzed
  rw [tree] at deep ⊢
  exact ⟨_, flagged.marksCalls deep same⟩

end

/-- `function f(a = eval(b)) { { let b = eval; eval(a); } }`, where the scopes of the default value
and of the block are dynamic, but the function around them is not. -/
def nestedEvals : NumberedProgram × Workbench :=
  let id (name : String) : Ident Span String := ⟨.none, name⟩
  Draft.number (.script .none [] [.function (.mk .none (some (id "f")) .none
    (.mk (some .none) [.mk .none .nameFirst (.ident (id "a"))
      (some (.call .none (.ident (id "eval")) [.ident (id "b")]))] none)
    (.block .none [] [.block .none
      [.decl .none .none .let_ [.mk .none .nameFirst (.ident (id "b"))
          (some (.ident (id "eval")))],
        .expr .none (.call .none (.ident (id "eval")) [.ident (id "a")])]]))]) .empty

theorem nestedEvals_marksCalls :
    ∃ a names', nestedEvals.1.analyze .default nestedEvals.2.names = (.ok a, names') ∧
      ∃ calls, a.tree.MarksCalls
        (nestedEvals.1.evalCallees (SpecialNames.intern nestedEvals.2.names).1.eval) calls := by
  have completed : (nestedEvals.1.analyze .default nestedEvals.2.names).1.isOk = true := by
    decide +kernel
  obtain ⟨a, names', analyzed⟩ := Resolution.exists_of_isOk completed
  exact ⟨a, names', analyzed, marksCalls_of_analyze analyzed⟩

example : (nestedEvals.1.analyze .default nestedEvals.2.names).1.toOption.map
    (fun a => a.tree.scopes.toList.map (fun scope => (scope.kind, scope.dynamic))) =
      some [(.global, true), (.script, false), (.parameters, false), (.parameterExpression, true),
        (.function, false), (.block, true)] := by
  decide +kernel

end ScopeAnalysis
