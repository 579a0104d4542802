import ScopeAnalysis.Proofs.Decimal.Numeral
import ScopeAnalysis.Proofs.MemberOrder
import ScopeAnalysis.Proofs.Relabelling.Fold

/-!
# Numbers as keys

The property name of a number is its shortest decimal, so that numbers have the same name exactly if
they are equal. Accessors whose keys are numbers are put together accordingly.
-/

namespace ScopeAnalysis

namespace Double

/-- What a double stands for as a number, where both zeros are the same and so is everything that is
not a number. -/
inductive Number where
  | nan
  | infinity (negative : Bool)
  | real (q : ℚ)
  deriving DecidableEq

def number (x : Double) : Number :=
  match x.value with
  | .nan => .nan
  | .infinity negative => .infinity negative
  | .finite negative mantissa exponent =>
    .real ((if negative then -1 else 1) * magnitude mantissa exponent)

section Names

variable {x : Double} {negative negative' : Bool} {m n : Nat} {e f : Int}

theorem isNormalized_of_value (finite : x.value = .finite negative m e) : IsNormalized m e := by
  have fraction : x.fractionField < hiddenBit := Nat.mod_lt _ (by decide)
  rw [value] at finite
  split at finite
  next => split at finite <;> cases finite
  next =>
    split at finite
    next =>
      cases finite
      exact ⟨⟨by omega, le_rfl⟩, .inl rfl⟩
    next =>
      cases finite
      exact ⟨⟨by omega, by omega⟩, .inr (by omega)⟩

/-- The name of a number other than zero is a literal of its shortest decimal. -/
theorem read?_propertyName (finite : x.value = .finite negative m e) (positive : m ≠ 0) :
    Numeral.read? x.propertyName.toList = some ((Decimal.shortest m e).numeral negative) := by
  have laid := (Decimal.shortest m e).numeral_laid negative
  have text : x.propertyName.toList = if negative then '-' :: (Decimal.shortest m e).layout
      else (Decimal.shortest m e).layout := by
    rw [propertyName, finite]
    simp only [if_neg positive, String.toList_ofList]
  have read := Numeral.read?_chars laid.isWellFormed
  rwa [laid.negative_eq, ← Decimal.layout_eq_chars, ← text] at read

/-- What a property name says. -/
def readName (text : String) : Number :=
  match Numeral.read? text.toList with
  | some n => .real n.value
  | none => if text = "NaN" then .nan else .infinity (text = "-Infinity")

/-- What the name of a double says: the number itself, or the decimal taken for it. -/
def spelled (x : Double) : Number :=
  match x.value with
  | .nan => .nan
  | .infinity negative => .infinity negative
  | .finite negative m e =>
    .real (if m = 0 then 0 else (if negative then -1 else 1) * (Decimal.shortest m e).value)

theorem readName_zero : readName "0" = .real 0 := by
  have read : Numeral.read? "0".toList = some ⟨false, ['0'], none, none⟩ := by decide
  have digits : Nat.ofDigitChars 10 ['0'] 0 = 0 := by decide
  rw [readName, read]
  simp [Numeral.value, Numeral.fractionDigits, digits]

theorem readName_propertyName (x : Double) : readName x.propertyName = x.spelled := by
  rw [spelled]
  split
  next nan =>
    rw [propertyName, nan]
    rfl
  next negative infinite =>
    rw [propertyName, infinite]
    cases negative <;> rfl
  next negative m e finite =>
    by_cases zero : m = 0
    · rw [propertyName, finite, if_pos zero]
      exact (congrArg readName (if_pos zero)).trans readName_zero
    · rw [readName, read?_propertyName finite zero, if_neg zero]
      exact congrArg _ ((Decimal.shortest m e).numeral_laid negative).value_eq

theorem shortest_value_pos (normalized : IsNormalized m e) (positive : m ≠ 0) :
    0 < (Decimal.shortest m e).value := by
  have shortest := Decimal.shortest_isShortest normalized positive
  exact (lowEnd_pos positive).trans_le (shortest.rounds.captures normalized positive).low

/-- A number is zero, or it has a sign and a magnitude. -/
theorem signed_inj {q r : ℚ} (first : m ≠ 0 → 0 < q) (second : n ≠ 0 → 0 < r)
    (same : (if m = 0 then 0 else (if negative then -1 else 1) * q) =
      if n = 0 then 0 else (if negative' then -1 else 1) * r) :
    m = 0 ∧ n = 0 ∨ m ≠ 0 ∧ n ≠ 0 ∧ negative = negative' ∧ q = r := by
  have apart {negative : Bool} {q : ℚ} (positive : 0 < q) :
      (if negative then -1 else 1) * q ≠ 0 := by
    cases negative <;> simp [positive.ne']
  by_cases zero : m = 0 <;> by_cases zero' : n = 0
  · exact .inl ⟨zero, zero'⟩
  · rw [if_pos zero, if_neg zero'] at same
    exact absurd same.symm (apart (second zero'))
  · rw [if_neg zero, if_pos zero'] at same
    exact absurd same (apart (first zero))
  · have := first zero
    have := second zero'
    rw [if_neg zero, if_neg zero'] at same
    refine .inr ⟨zero, zero', ?_⟩
    cases negative <;> cases negative' <;> simp at same ⊢ <;> linarith

/-- Doubles for which the same decimal is taken are the same. -/
theorem number_eq_of_spelled {a b : Double} (same : a.spelled = b.spelled) :
    a.number = b.number := by
  rw [spelled, spelled] at same
  rw [number, number]
  cases first : a.value <;> cases second : b.value
  case finite.finite negative m e negative' n f =>
    have normal := isNormalized_of_value first
    have normal' := isNormalized_of_value second
    simp only [first, second, Number.real.injEq] at same ⊢
    rcases signed_inj (shortest_value_pos normal) (shortest_value_pos normal') same with
      ⟨rfl, rfl⟩ | ⟨some_digit, some_digit', rfl, decimal⟩
    · simp only [magnitude, Nat.cast_zero, zero_mul, mul_zero]
    · have rounds := (Decimal.shortest_isShortest normal some_digit).rounds
      rw [decimal] at rounds
      obtain ⟨rfl, rfl⟩ := rounds.unique normal normal'
        (Decimal.shortest_isShortest normal' some_digit').rounds
      rfl
  all_goals simp_all

/-- Equal numbers have one name. -/
theorem propertyName_eq_of_number {a b : Double} (same : a.number = b.number) :
    a.propertyName = b.propertyName := by
  rw [number, number] at same
  rw [propertyName, propertyName]
  cases first : a.value <;> cases second : b.value
  case finite.finite negative m e negative' n f =>
    have normal := isNormalized_of_value first
    have normal' := isNormalized_of_value second
    have zeros (negative : Bool) (m : Nat) (e : Int) :
        (if negative then -1 else 1) * magnitude m e =
          if m = 0 then 0 else (if negative then -1 else 1) * magnitude m e := by
      split <;> simp_all [magnitude]
    simp only [first, second, Number.real.injEq] at same ⊢
    rw [zeros, zeros negative'] at same
    rcases signed_inj magnitude_pos magnitude_pos same with
      ⟨rfl, rfl⟩ | ⟨_, _, rfl, magnitude⟩
    · rfl
    · obtain ⟨rfl, rfl⟩ := normal.unique normal' magnitude
      rfl
  all_goals simp_all

theorem propertyName_eq_iff {a b : Double} :
    a.propertyName = b.propertyName ↔ a.number = b.number := by
  refine ⟨fun same => number_eq_of_spelled ?_, propertyName_eq_of_number⟩
  rw [← readName_propertyName, same, readName_propertyName]

end Names

end Double

namespace Key

/-- The number that a key is, as a literal by itself or in brackets. -/
def number? : Key Node Name → Option Double
  | .number _ x => some x
  | .computed _ (.literal _ (.number x)) => some x
  | _ => none

/-- The text of a static key, where identifiers and strings are handles of the table. -/
inductive Spells (names : Interner) : Key Node Name → String → Prop
  | ident {id : Occurrence} {text : String} (known : names.find? text = some id.name) :
      Spells names (.ident id) text
  | string {node : Node} {name : Name} {text : String} (known : names.find? text = some name) :
      Spells names (.string node name) text
  | computedString {node inner : Node} {name : Name} {text : String}
      (known : names.find? text = some name) :
      Spells names (.computed node (.literal inner (.string name))) text
  | number {k : Key Node Name} {x : Double} (found : k.number? = some x) :
      Spells names k x.propertyName

end Key

namespace Folding

/-- Whatever it answers, a step keeps what has been interned before. -/
def Grows {α : Type} (m : Folding α) : Prop :=
  ∀ table : Interner, table.Begins (m.run table).2

section Growing

variable {α β : Type} {m : Folding α} {next : α → Folding β}

theorem Folds.grows {special : SpecialNames} {R : Relabelling → α → α}
    {m' : Recast special → Folding α} (folds : Folds special R m m') : Grows m := by
  intro table
  obtain ⟨texts, interned, _⟩ := folds table
  rw [interned]
  exact .internAll table texts

theorem Grows.pure {a : α} : Grows (Pure.pure a) := fun table => .refl table

theorem Grows.bind (first : Grows m) (second : ∀ a, Grows (next a)) : Grows (m >>= next) := by
  intro table
  have begins := first table
  obtain ⟨⟨result, later⟩, ran⟩ : ∃ result, m.run table = result := ⟨_, rfl⟩
  rw [ran] at begins
  cases result with
  | error refusal =>
    rw [run_bind_of_error ran]
    exact begins
  | ok a =>
    rw [run_bind_of_ok ran]
    exact begins.trans (second a later)

/-- Two steps that answer do so one after the other. -/
theorem exists_of_bind_eq_ok {table last : Interner} {b : β}
    (ran : (m >>= next).run table = (.ok b, last)) :
    ∃ a later, m.run table = (.ok a, later) ∧ (next a).run later = (.ok b, last) := by
  obtain ⟨⟨result, later⟩, first⟩ : ∃ result, m.run table = result := ⟨_, rfl⟩
  cases result with
  | error refusal =>
    rw [run_bind_of_error first] at ran
    cases ran
  | ok a => exact ⟨a, later, first, (run_bind_of_ok first).symm.trans ran⟩

end Growing

/-- A member is an accessor of the given placement and text. -/
def Visit.HasKey (last : Interner) (isStatic : Bool) (text : String) (v : Visit) : Prop :=
  ∃ name, v.slot = some (isStatic, name) ∧ last.find? text = some name

theorem Visit.HasKey.later {last later : Interner} {isStatic : Bool} {text : String} {v : Visit}
    (key : v.HasKey last isStatic text) (begins : last.Begins later) :
    v.HasKey later isStatic text := by
  obtain ⟨name, slot, found⟩ := key
  exact ⟨name, slot, begins.find? found⟩

/-- Accessors belong together if they have the same placement and text. -/
theorem Visit.HasKey.joins_iff {last : Interner} {isStatic isStatic' : Bool} {text text' : String}
    {v w : Visit} (first : v.HasKey last isStatic text) (second : w.HasKey last isStatic' text') :
    w.joins v.slot = true ↔ isStatic = isStatic' ∧ text = text' := by
  obtain ⟨name, slot, found⟩ := first
  obtain ⟨name', slot', found'⟩ := second
  rw [Visit.joins, slot, slot']
  simp only [Option.isSome_some, Bool.true_and, decide_eq_true_eq, Option.some.injEq,
    Prod.mk.injEq]
  refine and_congr eq_comm ⟨?_, ?_⟩
  · rintro rfl
    exact Option.some.inj ((Interner.text?_of_find? found).symm.trans
      (Interner.text?_of_find? found'))
  · rintro rfl
    exact Option.some.inj (found'.symm.trans found)

/-- The name of a static key is the handle of its text. -/
theorem find?_of_staticName {names table : Interner} {k : Key Node Name} {text : String}
    (spells : k.Spells names text) (begins : names.Begins table) :
    ∃ name, (k.staticName table).1 = some name ∧
      (k.staticName table).2.find? text = some name := by
  cases spells with
  | ident known => exact ⟨_, rfl, begins.find? known⟩
  | string known => exact ⟨_, rfl, begins.find? known⟩
  | computedString known => exact ⟨_, rfl, begins.find? known⟩
  | @number _ x found =>
    have interned : k.staticName table =
        (some (table.intern x.propertyName).1, (table.intern x.propertyName).2) := by
      unfold Key.number? at found
      split at found <;> cases found <;> rfl
    rw [interned]
    exact ⟨_, rfl, Interner.find?_intern table _⟩

section Keys

variable {special : SpecialNames} {names table later : Interner}

theorem grows_ofMethod (isStatic : Bool) (kind : MethodKind) (k : Key Node Name)
    (f : Func Node Name) : Grows (Visit.ofMethod special isStatic kind k f) :=
  (folds_func (methodFunction kind) f).grows.bind (fun _ => (folds_key k).grows.bind (fun _ =>
    (@folds_accessorSlot special isStatic kind k).grows.bind (fun _ => .pure)))

/-- An accessor with a static key has that key. -/
theorem hasKey_of_ofMethod {isStatic : Bool} {kind : MethodKind} {k : Key Node Name}
    {f : Func Node Name} {text : String} {v : Visit} (accessor : kind ≠ .method)
    (spells : k.Spells names text) (begins : names.Begins table)
    (ran : (Visit.ofMethod special isStatic kind k f).run table = (.ok v, later)) :
    v.HasKey later isStatic text := by
  obtain ⟨_, t, first, ran⟩ := exists_of_bind_eq_ok ran
  obtain ⟨_, t', second, ran⟩ := exists_of_bind_eq_ok ran
  obtain ⟨slot, t'', third, ran⟩ := exists_of_bind_eq_ok ran
  cases ran
  have begins : names.Begins t' := by
    have func := (@folds_func special (methodFunction kind) f).grows table
    have key := (@folds_key special k).grows t
    rw [first] at func
    rw [second] at key
    exact (begins.trans func).trans key
  obtain ⟨name, static, found⟩ := find?_of_staticName spells begins
  have slots : (accessorSlot isStatic kind k).run t' =
      (.ok ((k.staticName t').1.map (isStatic, ·)), (k.staticName t').2) := by
    cases kind with
    | method => exact absurd rfl accessor
    | getter => rfl
    | setter => rfl
  rw [slots, static] at third
  cases third
  exact ⟨name, rfl, found⟩

variable {β : Type} {step : β → Folding Visit} {accessor? : β → Option (Bool × Key Node Name)}

theorem grows_mapM (grows : ∀ member, Grows (step member)) (ms : List β) :
    Grows (ms.mapM step) := by
  induction ms with
  | nil =>
    rw [List.mapM_nil]
    exact .pure
  | cons m rest ih =>
    rw [List.mapM_cons]
    exact (grows m).bind (fun _ => ih.bind (fun _ => .pure))

/-- Members one after the other. What has been interned for one of them is there for the others. -/
theorem hasKey_of_mapM (grows : ∀ member, Grows (step member))
    (hasKey : ∀ member isStatic k, accessor? member = some (isStatic, k) →
      ∀ text, k.Spells names text → ∀ table later v, names.Begins table →
        (step member).run table = (.ok v, later) → v.HasKey later isStatic text)
    {ms : List β} {vs : List Visit} (begins : names.Begins table)
    (ran : (ms.mapM step).run table = (.ok vs, later)) {isStatic : Bool} {k : Key Node Name}
    {v : Visit} {text : String} (member : (some (isStatic, k), v) ∈ (ms.map accessor?).zip vs)
    (spells : k.Spells names text) : v.HasKey later isStatic text := by
  induction ms generalizing table vs with
  | nil => cases member
  | cons m rest ih =>
    rw [List.mapM_cons] at ran
    obtain ⟨w, t, first, ran⟩ := exists_of_bind_eq_ok ran
    obtain ⟨ws, t', others, ran⟩ := exists_of_bind_eq_ok ran
    cases ran
    have after : table.Begins t := by
      have := grows m table
      rwa [first] at this
    rw [List.map_cons, List.zip_cons_cons, List.mem_cons, Prod.mk.injEq] at member
    rcases member with ⟨here, rfl⟩ | further
    · have later := grows_mapM grows rest t
      rw [others] at later
      exact (hasKey m isStatic k here.symm text spells table t v begins first).later later
    · exact ih (begins.trans after) others further

end Keys

/-- The placement and key of a member that is an accessor. -/
def accessorKey? (isStatic : Bool) (kind : MethodKind) (k : Key Node Name) :
    Option (Bool × Key Node Name) :=
  if kind = .method then none else some (isStatic, k)

def memberKey? : Member Node Name → Option (Bool × Key Node Name)
  | .mk _ isStatic kind k _ => accessorKey? isStatic kind k

def propertyKey? : Property Node Name → Option (Bool × Key Node Name)
  | .method kind k _ => accessorKey? false kind k
  | .keyed .. | .shorthand .. | .spread .. => none

/-- Accessors in one body with numbers for keys go together exactly if they are the same number, and
with an accessor whose key is a text exactly if that is the name of the number. -/
structure MergesNumbers (names : Interner) (accessors : List (Option (Bool × Key Node Name)))
    (visits : List Visit) : Prop where
  numbers : ∀ s k v s' k' w, (some (s, k), v) ∈ accessors.zip visits →
    (some (s', k'), w) ∈ accessors.zip visits → ∀ a b, k.number? = some a → k'.number? = some b →
      (w.joins v.slot = true ↔ s = s' ∧ a.number = b.number)
  texts : ∀ s k v s' k' w, (some (s, k), v) ∈ accessors.zip visits →
    (some (s', k'), w) ∈ accessors.zip visits → ∀ a text, k.number? = some a →
      k'.Spells names text → (w.joins v.slot = true ↔ s = s' ∧ a.propertyName = text)

section Merging

variable {special : SpecialNames} {names last : Interner} {visits : List Visit}

theorem mergesNumbers_of_hasKey (last : Interner)
    {accessors : List (Option (Bool × Key Node Name))}
    (hasKey : ∀ isStatic k v text, (some (isStatic, k), v) ∈ accessors.zip visits →
      k.Spells names text → v.HasKey last isStatic text) :
    MergesNumbers names accessors visits where
  numbers s k v s' k' w first second a b number number' := by
    rw [(hasKey s k v _ first (.number number)).joins_iff
      (hasKey s' k' w _ second (.number number')), Double.propertyName_eq_iff]
  texts s k v s' k' w first second a text number spells :=
    (hasKey s k v _ first (.number number)).joins_iff (hasKey s' k' w text second spells)

theorem hasKey_of_accessorKey? {isStatic isStatic' : Bool} {kind : MethodKind}
    {k k' : Key Node Name} {f : Func Node Name}
    (accessor : accessorKey? isStatic' kind k' = some (isStatic, k)) {text : String}
    (spells : k.Spells names text) {table later : Interner} {v : Visit}
    (begins : names.Begins table)
    (ran : (Visit.ofMethod special isStatic' kind k' f).run table = (.ok v, later)) :
    v.HasKey later isStatic text := by
  rw [accessorKey?] at accessor
  split at accessor
  next => cases accessor
  next other =>
    cases accessor
    exact hasKey_of_ofMethod other spells begins ran

theorem mergesNumbers_members {ms : List (Member Node Name)}
    (ran : (ms.mapM (Visit.ofMember special)).run names = (.ok visits, last)) :
    MergesNumbers names (ms.map memberKey?) visits := by
  refine mergesNumbers_of_hasKey last fun isStatic k v text member spells =>
    hasKey_of_mapM ?_ ?_ (.refl names) ran member spells
  · rintro ⟨_, s, kind, k, f⟩
    exact grows_ofMethod s kind k f
  · rintro ⟨_, s, kind, k, f⟩ isStatic k' accessor text spells table later v begins ran
    exact hasKey_of_accessorKey? accessor spells begins ran

theorem grows_ofProperty : ∀ p : Property Node Name, Grows (Visit.ofProperty special p)
  | .keyed _ k value =>
    (folds_key k).grows.bind (fun _ => (@folds_expr special value).grows.bind (fun _ => .pure))
  | .shorthand _ _ => .pure
  | .spread _ value => (folds_expr value).grows.bind (fun _ => .pure)
  | .method kind k f => grows_ofMethod false kind k f

theorem mergesNumbers_properties {ps : List (Property Node Name)}
    (ran : (ps.mapM (Visit.ofProperty special)).run names = (.ok visits, last)) :
    MergesNumbers names (ps.map propertyKey?) visits := by
  refine mergesNumbers_of_hasKey last fun isStatic k v text member spells =>
    hasKey_of_mapM grows_ofProperty ?_ (.refl names) ran member spells
  intro p isStatic k accessor text spells table later v begins ran
  cases p with
  | method kind k' f => exact hasKey_of_accessorKey? accessor spells begins ran
  | keyed | shorthand | spread => cases accessor

end Merging

end Folding

/-- The property name of a number is its shortest decimal in canonical form. Two numbers have the
same name exactly if they are equal, and accessors of objects and classes are put together
accordingly. -/
theorem propertyName_identifies_numbers (special : SpecialNames) :
    (∀ (x : Double) negative m e, x.value = .finite negative m e → m ≠ 0 →
      ∃ (d : Decimal) (n : Numeral), d.IsShortest m e ∧
        Numeral.read? x.propertyName.toList = some n ∧ d.IsWrittenBy negative n) ∧
    (∀ a b : Double, a.propertyName = b.propertyName ↔ a.number = b.number) ∧
    (∀ (ms : List (Member Node Name)) names visits last,
      (ms.mapM (Folding.Visit.ofMember special)).run names = (.ok visits, last) →
        Folding.MergesNumbers names (ms.map Folding.memberKey?) visits) ∧
    ∀ (ps : List (Property Node Name)) names visits last,
      (ps.mapM (Folding.Visit.ofProperty special)).run names = (.ok visits, last) →
        Folding.MergesNumbers names (ps.map Folding.propertyKey?) visits := by
  refine ⟨fun x negative m e finite positive => ?_, fun a b => Double.propertyName_eq_iff,
    fun _ _ _ _ => Folding.mergesNumbers_members, fun _ _ _ _ => Folding.mergesNumbers_properties⟩
  have shortest := Decimal.shortest_isShortest (Double.isNormalized_of_value finite) positive
  exact ⟨_, _, shortest, Double.read?_propertyName finite positive,
    (Decimal.numeral_laid _ negative).isWrittenBy shortest.last⟩

/-- `0.1`, whose bits are those of the double nearest to a tenth. -/
def tenth : Double := ⟨0x3FB999999999999A⟩

/-- `get 0.1() {} set "0.1"(x) {} get [0.2]() {}` -/
def tenthKeys : List (Member Node Name) :=
  let node : Node := ⟨.invalid, .none⟩
  let f : Func Node Name := .mk node none .none (.mk none [] none) (.block node [] [])
  [.mk node false .getter (.number node tenth) f,
    .mk node false .setter (.string node ⟨0⟩) f,
    .mk node false .getter (.computed node (.literal node (.number ⟨0x3FC999999999999A⟩))) f]

/-- A table with the text `0.1`. -/
def tenthTable : Interner := ⟨["0.1"], List.nodup_singleton _⟩

theorem tenth_named :
    tenth.value = .finite false 7205759403792794 (-56) ∧
    (∃ (d : Decimal) (n : Numeral), d.IsShortest 7205759403792794 (-56) ∧
      Numeral.read? tenth.propertyName.toList = some n ∧ d.IsWrittenBy false n) ∧
    ∃ visits last,
      (tenthKeys.mapM (Folding.Visit.ofMember ⟨⟨1⟩, ⟨2⟩, ⟨3⟩⟩)).run tenthTable =
        (.ok visits, last) ∧
      Folding.MergesNumbers tenthTable (tenthKeys.map Folding.memberKey?) visits := by
  have general := propertyName_identifies_numbers ⟨⟨1⟩, ⟨2⟩, ⟨3⟩⟩
  have finite : tenth.value = .finite false 7205759403792794 (-56) := by decide
  have completed : ((tenthKeys.mapM (Folding.Visit.ofMember ⟨⟨1⟩, ⟨2⟩, ⟨3⟩⟩)).run
      tenthTable).1.isOk = true := by decide +kernel
  refine ⟨finite, general.1 tenth _ _ _ finite (by decide), ?_⟩
  obtain ⟨⟨result, last⟩, ran⟩ : ∃ result, (tenthKeys.mapM (Folding.Visit.ofMember
    ⟨⟨1⟩, ⟨2⟩, ⟨3⟩⟩)).run tenthTable = result := ⟨_, rfl⟩
  rw [ran] at completed
  cases result with
  | error refusal => cases completed
  | ok visits => exact ⟨visits, last, ran, general.2.2.1 _ _ _ _ ran⟩

example : tenth.propertyName = "0.1" := by decide +kernel

/-- From `1e21` on numbers have exponents. -/
example : (⟨0x444B1AE4D6E2EF50⟩ : Double).propertyName = "1e+21" := by decide +kernel

end ScopeAnalysis
