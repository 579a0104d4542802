import ScopeAnalysis.Proofs.Grammar.Reading
import ScopeAnalysis.Proofs.Preorder

/-!
# What a layout leaves in the tree

The references of a tree are the uses of its layout, in order. Its scopes are those that the layout
opens, in order, and each holds what it was opened with: a name that is declared more than once has
one variable with several declarations, and a use that finds no variable gives the root one without
any.
-/

namespace ScopeAnalysis

/-- The uses in a tree: which identifier, and what is done with its variable. -/
def ScopeTree.uses (tree : ScopeTree) : List (Occurrence × Access) :=
  tree.references.toList.map (fun r => (r.id, r.access))

/-- The declarations of all variables that a scope binds. -/
def ScopeTree.declarationsOf (tree : ScopeTree) (scope : Scope) : List Declaration :=
  scope.bindings.flatMap (fun entry => tree.vars[entry.2.index]?.elim [] Variable.declarations)

/-- What a scope holds: its variables by name, in the order in which they came about, each with its
declarations in the order in which they were made. -/
def ScopeTree.contents (tree : ScopeTree) (scope : Scope) : MultiMap Name Declaration :=
  ⟨scope.bindings.map (fun entry =>
    (entry.1, tree.vars[entry.2.index]?.elim [] Variable.declarations))⟩

/-- A scope of a tree that was opened as said. -/
structure Opening.IsScope (o : Opening) (tree : ScopeTree) (scope : Scope) : Prop where
  kind : scope.kind = o.kind
  node : scope.node = o.node
  declares : (tree.declarationsOf scope).Perm o.decls

/-- What a scope is to hold: its own `arguments` without declarations, if it has them, and its
declarations by name. -/
def Opening.contents (arguments : Name) (o : Opening) : MultiMap Name Declaration :=
  (MultiMap.mk (if o.hasArguments then [(arguments, [])] else [])).insertAll
    (o.decls.map (fun d => (d.id.name, d)))

/-- A scope of a tree that holds what it was opened with. Only the root holds more, namely names
that are declared nowhere. -/
structure Opening.IsFilled (arguments : Name) (o : Opening) (tree : ScopeTree) (scope : Scope) :
    Prop where
  kind : scope.kind = o.kind
  node : scope.node = o.node
  contents : ∃ bare : List Name,
    (tree.contents scope).entries = (o.contents arguments).entries ++ bare.map (·, []) ∧
      (bare ≠ [] → scope.id = ScopeId.root)

namespace MultiMap

variable {κ ν : Type} [DecidableEq κ]

theorem insertEntry_of_notMem {key : κ} (value : ν) {entries : List (κ × List ν)}
    (absent : key ∉ entries.map Prod.fst) :
    insertEntry key value entries = entries ++ [(key, [value])] := by
  induction entries with
  | nil => rfl
  | cons entry rest ih =>
    rw [List.map_cons, List.mem_cons, not_or] at absent
    rw [insertEntry, if_neg (Ne.symm absent.1), ih absent.2, List.cons_append]

/-- Where a key stands once, its values are extended in their place. -/
theorem insertEntry_append {key : κ} (value : ν) (values : List ν) {before : List (κ × List ν)}
    (after : List (κ × List ν)) (absent : key ∉ before.map Prod.fst) :
    insertEntry key value (before ++ (key, values) :: after) =
      before ++ (key, values ++ [value]) :: after := by
  induction before with
  | nil => rw [List.nil_append, insertEntry, if_pos rfl, List.nil_append]
  | cons entry rest ih =>
    rw [List.map_cons, List.mem_cons, not_or] at absent
    rw [List.cons_append, insertEntry, if_neg (Ne.symm absent.1), ih absent.2, List.cons_append]

theorem pairs_insertAll_perm (map : MultiMap κ ν) (added : List (κ × ν)) :
    (map.insertAll added).pairs.Perm (map.pairs ++ added) := by
  induction added generalizing map with
  | nil => exact .of_eq (List.append_nil _).symm
  | cons first rest ih =>
    have one := (pairs_insert_perm map first.1 first.2).append_right rest
    exact (ih (map.insert first.1 first.2)).trans (one.trans List.perm_middle.symm)

end MultiMap

theorem ScopeTree.declarationsOf_eq (tree : ScopeTree) (scope : Scope) :
    tree.declarationsOf scope = (tree.contents scope).pairs.map Prod.snd := by
  simp [declarationsOf, contents, MultiMap.pairs, List.flatMap_map, List.map_flatMap,
    Function.comp_def]

/-- What a scope holds accounts for all it declares. -/
theorem Opening.IsFilled.isScope {arguments : Name} {o : Opening} {tree : ScopeTree}
    {scope : Scope} (filled : o.IsFilled arguments tree scope) : o.IsScope tree scope where
  kind := filled.kind
  node := filled.node
  declares := by
    obtain ⟨bare, same, _⟩ := filled.contents
    have silent : (tree.contents scope).pairs = (o.contents arguments).pairs := by
      simp [MultiMap.pairs, same, List.flatMap_append, List.flatMap_map]
    have start : (⟨if o.hasArguments then [(arguments, [])] else []⟩ :
        MultiMap Name Declaration).pairs = [] := by
      cases o.hasArguments <;> rfl
    have all := MultiMap.pairs_insertAll_perm ⟨if o.hasArguments then [(arguments, [])] else []⟩
      (o.decls.map (fun d => (d.id.name, d)))
    rw [start, List.nil_append] at all
    rw [ScopeTree.declarationsOf_eq, silent]
    exact (all.map Prod.snd).trans (.of_eq (by simp [Function.comp_def]))

namespace Resolution

namespace State

theorem uses_record (s : State) (id : Occurrence) (access : Access) :
    (s.record id access).tree.uses = s.tree.uses ++ [(id, access)] := by
  rw [ScopeTree.uses, tree, record_eq, references_passThrough]
  change ((s.resolve id.name).2.references.push _).toList.map _ = _
  rw [references_resolve]
  simp [ScopeTree.uses, tree]

/-- Opening a scope and leaving it records no use of its own. -/
theorem uses_scope_of_inside {s : State} (kind : ScopeKind) (node : Node)
    (arguments : Option Name) (decls : List Declaration) {inner : List Layout}
    (inside : ((s.openWith kind node arguments decls).layOutAll inner).tree.uses =
      (s.openWith kind node arguments decls).tree.uses ++ Layout.usesAll inner) :
    (s.layOut (.scope kind node arguments decls inner)).tree.uses =
      s.tree.uses ++ Layout.usesAll inner := by
  rw [ScopeTree.uses, tree, layOut, references_leave]
  refine inside.trans ?_
  rw [ScopeTree.uses, tree, references_openWith]
  rfl

mutual

/-- Laying out records the uses of a layout in their order. -/
theorem uses_layOut (s : State) : ∀ l : Layout, (s.layOut l).tree.uses = s.tree.uses ++ l.uses
  | .use id access => uses_record s id access
  | .directEval => (List.append_nil _).symm
  | .withStatement => (List.append_nil _).symm
  | .scope kind node arguments decls inner =>
    uses_scope_of_inside kind node arguments decls (uses_layOutAll _ inner)

theorem uses_layOutAll (s : State) : ∀ ls : List Layout,
    (s.layOutAll ls).tree.uses = s.tree.uses ++ Layout.usesAll ls
  | [] => (List.append_nil _).symm
  | l :: rest => by
    rw [layOutAll, uses_layOutAll (s.layOut l) rest, uses_layOut s l, Layout.usesAll,
      List.append_assoc]

end

/-! What a scope holds. -/

/-- What a scope holds so far. -/
def contentsIn (s : State) (id : ScopeId) : MultiMap Name Declaration :=
  ⟨(s.bindingsOf id).map (fun entry =>
    (entry.1, s.vars[entry.2.index]?.elim [] Variable.declarations))⟩

theorem contents_tree {s : State} {i : Nat} {scope : Scope} (found : s.scopes[i]? = some scope) :
    s.tree.contents scope = s.contentsIn ⟨i⟩ := by
  have bindings : s.bindingsOf ⟨i⟩ = scope.bindings := bindingsOf_eq found
  rw [contentsIn, bindings]
  rfl

theorem keys_contentsIn (s : State) (id : ScopeId) :
    (s.contentsIn id).entries.map Prod.fst = (s.bindingsOf id).map Prod.fst := by
  simp [contentsIn, Function.comp_def]

/-- Two entries of a scope have different variables. -/
theorem Coherent.nodup_indices {s : State} (coherent : s.Coherent) (id : ScopeId) :
    ((s.bindingsOf id).map (fun entry => entry.2.index)).Nodup := by
  have names : (s.bindingsOf id).map Prod.fst =
      ((s.bindingsOf id).map (fun entry => entry.2.index)).map
        (fun i => s.vars[i]?.elim ⟨0⟩ Variable.name) := by
    rw [List.map_map]
    refine List.map_congr_left (fun entry member => ?_)
    obtain ⟨v, found, name, _⟩ := coherent.bound id entry member
    simp [found, name]
  have unique := coherent.unique id
  rw [names] at unique
  exact unique.of_map _

theorem apart_of_nodup {α β : Type} {f : α → β} {before after : List α} {x : α}
    (unique : ((before ++ x :: after).map f).Nodup) : ∀ y ∈ before ++ after, f y ≠ f x := by
  rw [List.map_append, List.map_cons, List.nodup_middle, List.nodup_cons,
    ← List.map_append] at unique
  exact fun y inside same => unique.1 (List.mem_map.2 ⟨y, inside, same⟩)

/-- An entry of a scope shares its name and its variable with no other entry of the scope. -/
theorem Coherent.split {s : State} (coherent : s.Coherent) {id : ScopeId} {name : Name}
    {v : VariableId} (member : (name, v) ∈ s.bindingsOf id) :
    ∃ before after, s.bindingsOf id = before ++ (name, v) :: after ∧
      ∀ entry ∈ before ++ after, entry.1 ≠ name ∧ entry.2 ≠ v := by
  obtain ⟨before, after, split⟩ := List.append_of_mem member
  have names := coherent.unique id
  have indices := coherent.nodup_indices id
  rw [split] at names indices
  refine ⟨before, after, split, fun entry inside => ⟨apart_of_nodup names entry inside, ?_⟩⟩
  exact fun same => apart_of_nodup indices entry inside (congrArg VariableId.index same)

/-- A variable that is declared once more has one declaration more. -/
theorem contentsIn_updateVariable {s : State} (coherent : s.Coherent) {id : ScopeId}
    {name : Name} {v : VariableId} (owned : s.own name id = some v) (d : Declaration) :
    (s.updateVariable v (fun a => { a with declarations := a.declarations ++ [d] })).contentsIn
      id = (s.contentsIn id).insert name d := by
  obtain ⟨a, found, _, _⟩ := coherent.owner owned
  obtain ⟨before, after, split, apart⟩ := coherent.split (mem_of_own owned)
  have kept : ∀ entry ∈ before ++ after, (s.updateVariable v (fun a =>
      { a with declarations := a.declarations ++ [d] })).vars[entry.2.index]? =
        s.vars[entry.2.index]? := by
    intro entry member
    rw [getElem?_updateVariable, if_neg]
    exact fun same => (apart entry member).2 (congrArg VariableId.mk same.symm)
  have bindings : (s.updateVariable v (fun a =>
      { a with declarations := a.declarations ++ [d] })).bindingsOf id =
        before ++ (name, v) :: after := split
  have same (entries : List (Name × VariableId)) (sub : entries ⊆ before ++ after) :
      entries.map (fun entry => (entry.1, (s.updateVariable v (fun a =>
        { a with declarations := a.declarations ++ [d] })).vars[entry.2.index]?.elim []
          Variable.declarations)) =
      entries.map (fun entry => (entry.1, s.vars[entry.2.index]?.elim []
        Variable.declarations)) :=
    List.map_congr_left (fun entry member => by rw [kept entry (sub member)])
  have absent : name ∉ (before.map (fun entry =>
      (entry.1, s.vars[entry.2.index]?.elim [] Variable.declarations))).map Prod.fst := by
    simp only [List.map_map, List.mem_map, not_exists, not_and]
    exact fun entry inside => (apart entry (List.mem_append_left _ inside)).1
  rw [MultiMap.insert, contentsIn, contentsIn, bindings, split]
  simp only [List.map_append, List.map_cons]
  rw [same before (List.subset_append_left ..), same after (List.subset_append_right ..),
    MultiMap.insertEntry_append d _ _ absent, getElem?_updateVariable, if_pos rfl, found]
  rfl

theorem contentsIn_addVariable {s : State} (coherent : s.Coherent) {id : ScopeId}
    (there : id.index < s.scopes.size) (name : Name) (ds : List Declaration) :
    ((s.addVariable id name ds).2.contentsIn id).entries =
      (s.contentsIn id).entries ++ [(name, ds)] := by
  simp only [contentsIn, bindingsOf_addVariable_self s there, List.map_append, List.map_cons,
    List.map_nil, vars_addVariable, Array.getElem?_push_size]
  refine congrArg (· ++ [(name, ds)]) (List.map_congr_left (fun entry member => ?_))
  obtain ⟨v, found, _⟩ := coherent.bound id entry member
  have below := (Array.getElem?_eq_some_iff.1 found).1
  rw [Array.getElem?_push, if_neg (Nat.ne_of_lt below)]

/-- A declaration goes to the variable of its name in the innermost scope, a new one if need be. -/
theorem contentsIn_declare {s : State} (coherent : s.Coherent) {id : ScopeId}
    {rest : List ScopeId} (stack : s.openScopes = id :: rest) (d : Declaration) :
    (s.declare d).contentsIn id = (s.contentsIn id).insert d.id.name d := by
  have reported := coherent.report (.declare d.id.name d.kind s.current)
  have there : id.index < s.scopes.size := coherent.nested.index_lt id (by simp [stack])
  simp only [State.declare]
  split
  next v owned =>
    rw [ownVariable?_eq] at owned
    change s.own d.id.name s.current = some v at owned
    rw [current_eq stack] at owned
    exact contentsIn_updateVariable reported owned d
  next absent =>
    rw [ownVariable?_eq] at absent
    change s.own d.id.name s.current = none at absent
    rw [current_eq stack, own_eq_none_iff, ← keys_contentsIn] at absent
    rw [current_eq stack, MultiMap.insert, MultiMap.insertEntry_of_notMem d absent]
    exact congrArg MultiMap.mk (contentsIn_addVariable (coherent.report _) there d.id.name [d])

theorem contentsIn_declareAll {s : State} (coherent : s.Coherent) {id : ScopeId}
    {rest : List ScopeId} (stack : s.openScopes = id :: rest) (ds : List Declaration) :
    (s.declareAll ds).contentsIn id =
      (s.contentsIn id).insertAll (ds.map (fun d => (d.id.name, d))) := by
  induction ds generalizing s with
  | nil => rfl
  | cons d others ih =>
    have further := ih (coherent.declare stack d) (by simpa using stack)
    rw [contentsIn_declare coherent stack d] at further
    exact further

/-- A scope that is opened holds its `arguments` and its declarations. -/
theorem contentsIn_openWith {s : State} (coherent : s.Coherent) (can : s.CanEnter)
    (kind : ScopeKind) (node : Node) (arguments : Option Name) (decls : List Declaration) :
    (s.openWith kind node arguments decls).contentsIn ⟨s.scopes.size⟩ =
      (MultiMap.mk (arguments.toList.map (·, []))).insertAll
        (decls.map (fun d => (d.id.name, d))) := by
  have entered := coherent.enter can kind node
  have stack := openScopes_enter s kind node
  have unbound : (s.enter kind node).bindingsOf ⟨s.scopes.size⟩ = [] := by
    rw [bindingsOf_enter]
    simp [bindingsOf]
  have empty : (s.enter kind node).contentsIn ⟨s.scopes.size⟩ = ⟨[]⟩ := by
    rw [contentsIn, unbound]
    rfl
  cases arguments with
  | none =>
    have declared := contentsIn_declareAll entered stack decls
    rw [empty] at declared
    exact declared
  | some name =>
    have free : (s.enter kind node).ownVariable? name = none := by
      rw [ownVariable?_eq, current_eq stack, own_eq_none_iff, unbound]
      exact List.not_mem_nil
    have bound : (s.enter kind node).bindArguments name =
        ((s.enter kind node).addVariable ⟨s.scopes.size⟩ name []).2 := by
      rw [bindArguments, free, current_eq stack]
    have held := contentsIn_addVariable entered
      (entered.nested.index_lt _ (by rw [stack]; exact List.mem_cons_self)) name []
    rw [← bound, empty] at held
    have declared := contentsIn_declareAll (entered.bindArguments stack name)
      ((openScopes_bindArguments _ _).trans stack) decls
    have started : ((s.enter kind node).bindArguments name).contentsIn ⟨s.scopes.size⟩ =
        ⟨[(name, [])]⟩ := congrArg MultiMap.mk held
    rw [started] at declared
    exact declared

/-- Growth adds nothing to a scope that was there but names without declarations, to the root. -/
theorem Grows.contentsIn {s t : State} (grows : Grows s t) (coherent : s.Coherent) {i : Nat}
    (there : i < s.scopes.size) :
    ∃ bare : List Name, (t.contentsIn ⟨i⟩).entries =
      (s.contentsIn ⟨i⟩).entries ++ bare.map (·, []) ∧ (bare ≠ [] → i = 0) := by
  obtain ⟨b, more, _, found, _, _, _, bindings, root, bare, _⟩ :=
    grows.scopes i _ (Array.getElem?_eq_getElem there)
  have old : s.bindingsOf ⟨i⟩ = s.scopes[i].bindings :=
    bindingsOf_eq (Array.getElem?_eq_getElem there)
  have new : t.bindingsOf ⟨i⟩ = s.bindingsOf ⟨i⟩ ++ more := by
    rw [old, ← bindings]
    exact bindingsOf_eq found
  refine ⟨more.map Prod.fst, ?_, fun some => root (by simpa using some)⟩
  simp only [State.contentsIn, new, List.map_append, List.map_map]
  refine congrArg₂ (· ++ ·) (List.map_congr_left (fun entry member => ?_))
    (List.map_congr_left (fun entry member => ?_))
  · obtain ⟨v, foundV, _⟩ := coherent.bound ⟨i⟩ entry member
    obtain ⟨w, foundW, _, _, same⟩ := grows.vars _ v foundV
    rw [foundV, foundW]
    exact congrArg (Prod.mk entry.1) same
  · obtain ⟨v, foundV, none⟩ := Option.map_eq_some_iff.1 (bare entry member)
    rw [foundV]
    exact congrArg (Prod.mk entry.1) none

/-! Scopes that are opened. -/

/-- The scopes from a position on were opened as said, one after the other. -/
def Realises (arguments : Name) (t : State) (start : Nat) (openings : List Opening) : Prop :=
  ∀ (i : Nat) (o : Opening), openings[i]? = some o →
    ∃ scope, t.scopes[start + i]? = some scope ∧ o.IsFilled arguments t.tree scope

namespace Realises

variable {arguments : Name} {s t : State} {start : Nat} {openings more : List Opening}

theorem nil : Realises arguments t start [] := nofun

theorem cons {o : Opening} {scope : Scope} (found : t.scopes[start]? = some scope)
    (first : o.IsFilled arguments t.tree scope) (rest : Realises arguments t (start + 1) openings) :
    Realises arguments t start (o :: openings) := by
  intro i o' asked
  cases i with
  | zero =>
    cases asked
    exact ⟨scope, found, first⟩
  | succ i =>
    obtain ⟨scope', found', there⟩ := rest i o' asked
    exact ⟨scope', by rw [← found']; congr 1; omega, there⟩

theorem append (first : Realises arguments t start openings)
    (second : Realises arguments t (start + openings.length) more) :
    Realises arguments t start (openings ++ more) := by
  intro i o asked
  by_cases early : i < openings.length
  · rw [List.getElem?_append_left early] at asked
    exact first i o asked
  · rw [List.getElem?_append_right (by omega)] at asked
    obtain ⟨scope, found, there⟩ := second _ o asked
    exact ⟨scope, by rw [← found]; congr 1; omega, there⟩

/-- What has been opened stays as it was opened. -/
theorem grows (realises : Realises arguments s start openings) (coherent : s.Coherent)
    (after : t.Coherent) (grows : Grows s t) : Realises arguments t start openings := by
  intro i o asked
  obtain ⟨scope, found, there⟩ := realises i o asked
  obtain ⟨b, _, _, foundB, kind, node, _⟩ := grows.scopes _ _ found
  obtain ⟨bare, held, root⟩ := there.contents
  obtain ⟨bare', held', root'⟩ := grows.contentsIn coherent (Array.getElem?_eq_some_iff.1 found).1
  refine ⟨b, foundB, kind.trans there.kind, node.trans there.node, bare ++ bare', ?_, ?_⟩
  · rw [contents_tree foundB, held', ← contents_tree found, held, List.map_append,
      List.append_assoc]
  · intro some
    rw [after.placed _ b foundB]
    by_cases none : bare = []
    · exact congrArg ScopeId.mk (root' (by simpa [none] using some))
    · rw [← coherent.placed _ scope found]
      exact root none

end Realises

/-- The scope that was opened last holds what it was opened with. -/
theorem exists_openWith {s : State} (coherent : s.Coherent) (can : s.CanEnter) (kind : ScopeKind)
    (node : Node) {own : Option Name} {arguments : Name} (named : ∀ name ∈ own, name = arguments)
    (decls : List Declaration) :
    ∃ scope, (s.openWith kind node own decls).scopes[s.scopes.size]? = some scope ∧
      Opening.IsFilled arguments ⟨kind, node, own.isSome, decls⟩
        (s.openWith kind node own decls).tree scope := by
  have furnished := Furnished.openWith s kind node own decls
  have entered : (s.enter kind node).scopes[s.scopes.size]? = some (s.nextScope kind node) := by
    rw [getElem?_enter, if_pos rfl]
  obtain ⟨bindings, found⟩ := furnished.here _ entered
  refine ⟨_, found, rfl, rfl, [], ?_, by simp⟩
  have start : own.toList.map (fun name => (name, ([] : List Declaration))) =
      if own.isSome then [(arguments, [])] else [] := by
    cases own with
    | none => rfl
    | some name =>
      cases named name rfl
      rfl
  have held := (contents_tree found).trans
    (contentsIn_openWith coherent can kind node own decls)
  rw [start] at held
  rw [List.map_nil, List.append_nil]
  exact congrArg MultiMap.entries held

/-- From one state to the next exactly the given scopes were opened, one after the other. -/
structure Opens (arguments : Name) (s t : State) (openings : List Opening) : Prop where
  realised : Realises arguments t s.scopes.size openings
  size : t.scopes.size = s.scopes.size + openings.length

variable {arguments : Name}

theorem Opens.trans {s t u : State} {openings more : List Opening}
    (first : Opens arguments s t openings) (second : Opens arguments t u more)
    (coherent : t.Coherent) (after : u.Coherent) (grows : Grows t u) :
    Opens arguments s u (openings ++ more) where
  realised := by
    have rest := second.realised
    rw [first.size] at rest
    exact (first.realised.grows coherent after grows).append rest
  size := by
    rw [second.size, first.size, List.length_append, Nat.add_assoc]

theorem Opens.of_size {s t : State} (same : t.scopes.size = s.scopes.size) :
    Opens arguments s t [] := ⟨.nil, same⟩

/-- A scope is opened before those inside it. -/
theorem Opens.scope_of_inside {s : State} (coherent : s.Coherent) (can : s.CanEnter)
    (kind : ScopeKind) (node : Node) {own : Option Name} (named : ∀ name ∈ own, name = arguments)
    (decls : List Declaration) {inner : List Layout} {openings : List Opening}
    (inside : Opens arguments (s.openWith kind node own decls)
      ((s.openWith kind node own decls).layOutAll inner) openings) :
    Opens arguments s (s.layOut (.scope kind node own decls inner))
      (⟨kind, node, own.isSome, decls⟩ :: openings) := by
  have started := coherent.openWith can kind node own decls
  have there : (s.openWith kind node own decls).openScopes ≠ [] := opened_openWith
  have filled := started.layOutAll there inner
  obtain ⟨scope, found, first⟩ := exists_openWith coherent can kind node named decls
  have opened : Opens arguments s (s.openWith kind node own decls)
      [⟨kind, node, own.isSome, decls⟩] :=
    ⟨.cons found first .nil, size_openWith s kind node own decls⟩
  have left := (opened.trans inside started filled (Grows.layOutAll started there inner)).trans
    (Opens.of_size (congrArg Array.size (scopes_leave _))) filled filled.leave (.leave _)
  rw [List.append_nil] at left
  exact left

mutual

theorem Opens.layOut {s : State} (coherent : s.Coherent) (opened : s.openScopes ≠ []) :
    ∀ l : Layout, (∀ name ∈ l.argumentNames, name = arguments) →
      Opens arguments s (s.layOut l) l.openings
  | .use id access, _ => by
    refine .of_size ?_
    rw [State.layOut, record_eq, size_passThrough]
    exact size_resolve s id.name
  | .directEval, _ => .of_size (size_updateScope (s.report _) _ _)
  | .withStatement, _ => .of_size rfl
  | .scope kind node own decls inner, named => by
    have can : s.CanEnter := .of_opened opened
    rw [Layout.argumentNames, List.forall_mem_append] at named
    exact .scope_of_inside coherent can kind node
      (fun name member => named.1 name (Option.mem_toList.2 member)) decls
      (Opens.layOutAll (coherent.openWith can kind node own decls) opened_openWith inner
        named.2)

theorem Opens.layOutAll {s : State} (coherent : s.Coherent) (opened : s.openScopes ≠ []) :
    ∀ ls : List Layout, (∀ name ∈ Layout.argumentNamesAll ls, name = arguments) →
      Opens arguments s (s.layOutAll ls) (Layout.openingsAll ls)
  | [], _ => .of_size rfl
  | l :: rest, named => by
    rw [Layout.argumentNamesAll, List.forall_mem_append] at named
    have still : (s.layOut l).openScopes ≠ [] := by simpa using opened
    have after := coherent.layOut opened l
    exact (Opens.layOut coherent opened l named.1).trans
      (Opens.layOutAll after still rest named.2) after (after.layOutAll still rest)
      (Grows.layOutAll after still rest)

end

/-- The scopes of a finished tree are those that its layout opens, in order. -/
theorem forall₂_isFilled_initial (events : Array Event) (kind : ScopeKind) (node : Node)
    (own : Option Name) (decls : List Declaration) (inner : List Layout)
    (named : ∀ name ∈ Layout.argumentNames (.scope kind node own decls inner), name = arguments) :
    let t := (initial events).layOut (.scope kind node own decls inner)
    List.Forall₂ (fun o scope => o.IsFilled arguments t.tree scope)
      (Layout.openings (.scope kind node own decls inner)) t.scopes.toList := by
  have coherent := Coherent.initial events
  have can : (initial events).CanEnter := fun _ => rfl
  rw [Layout.argumentNames, List.forall_mem_append] at named
  obtain ⟨realised, size⟩ := Opens.scope_of_inside coherent can kind node
    (fun name member => named.1 name (Option.mem_toList.2 member)) decls
    (Opens.layOutAll (coherent.openWith can kind node own decls) opened_openWith inner named.2)
  refine List.forall₂_iff_get.2 ⟨?_, fun i below below' => ?_⟩
  · exact (Nat.zero_add _).symm.trans size.symm
  · obtain ⟨scope, found, there⟩ := realised i _ (List.getElem?_eq_getElem below)
    have same : (initial events).scopes.size + i = i := Nat.zero_add i
    rw [same] at found
    have got : scope = _ := (Array.getElem?_eq_some_iff.1 found).2.symm
    rw [got] at there
    simpa using there

end State

end Resolution

end ScopeAnalysis
