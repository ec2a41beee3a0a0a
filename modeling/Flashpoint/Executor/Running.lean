import Flashpoint.Executor.Frame
import Flashpoint.Schema.Constructed

/-!
# The invariant of a validation run

Against an accepted schema, a validation run reads something absent exactly when one of its steps
is not safe: a name read as a value of a type that is no enumeration, a literal that does not fit a
variable of a type without a name, a field selected on what has no fields, or a fragment on what is
no object inside an interface. `Running` is the invariant of the run; a run stops as `Stopped` says,
and never for want of a larger bound.
-/

namespace Flashpoint

open Library Climb

/-- Whether the report on a type can name it: the type of a variable that is no scalar has no
name. -/
def TypeNode.isNamed (type : TypeNode) : Bool := type.name.isSome || decide (type.type ≠ .object)

namespace Step

/-- Whether `parse_value` may go on with the token for the type. -/
def valueIsSafe (token : GraphQlToken) (type : TypeNode) : Bool :=
  match token with
  | .gName => type.type = .enum
  | .openBracket => type.isNamed || type.isListType
  | .nullKeyword => type.isNamed || !(type.isNonNull || type.isNonNullList)
  | .gStringValue | .integerLiteral | .floatLiteral | .trueKeyword | .falseKeyword
  | .openBrace => type.isNamed
  | _ => true

/-- Whether what the source reads at the step is there. -/
def isSafe : Step → Bool
  | .value token _ type => valueIsSafe token type
  | .selectField parent => parent = .object || parent = .interface
  | .assignFragment fragment parent => parent ≠ .interface || fragment = .object
  | _ => true

end Step

namespace GraphQlExecutor

open ParserM GraphQlSchema

/-! ## The invariant -/

section Invariant

variable (schema : GraphQlSchema)

/-- The declaration of a symbol. -/
def IsDeclared (entry : Option DeclarationId) : Prop :=
  ∃ k symbol, schema.members.symbols.find? k = some symbol ∧ entry = some symbol.declaration

/-- The state of a run, with a bound below the number of type nodes, one above the characters left,
and one below the depth of the stack. The list flags of the schema are open: a list literal clears one
for the time of its elements. -/
structure Running (k n depth : Nat) (s : GraphQlExecutor) :
    Prop where
  declarations : s.pool.declarations = schema.pool.declarations
  query : s.members.query = schema.members.query
  mutation : s.members.mutation = schema.members.mutation
  subscription : s.members.subscription = schema.members.subscription
  symbols : s.members.symbols = schema.members.symbols
  directiveDefinitions : s.members.directiveDefinitions = schema.members.directiveDefinitions
  types : ∀ {id : TypeId} {t}, schema.pool.types[id]? = some t →
    ∃ isListType, s.pool.types[id]? = some { t with isListType }
  newTypes : VariablesFrom schema.pool.types.length s.pool.types
  bound : k ≤ s.pool.types.length
  left : s.scanner.left ≤ n
  depth : depth ≤ s.members.currentObjectTypes.length
  entries : ∀ entry ∈ s.members.currentObjectTypes, IsDeclared schema entry
  references : ∀ reference ∈ s.members.forwardFragmentReferences, IsDeclared schema reference.2
  safe : ∀ step ∈ s.steps, step.isSafe = true

/-- A state of the run with fewer than `n` characters left. -/
def Below (k n depth : Nat) (s : GraphQlExecutor) : Prop :=
  ∃ m, m < n ∧ Running schema k m depth s

/-- How a run stops: at an absent read after a step that is not safe, or with an exception while all
steps are. -/
def Stopped (e : Stop) (s : GraphQlExecutor) : Prop :=
  match e with
  | .absentRead => ∃ step ∈ s.steps, step.isSafe = false
  | .exception => ∀ step ∈ s.steps, step.isSafe = true
  | .outOfFuel => False

end Invariant

variable {schema : GraphQlSchema} {k n depth : Nat} {α β : Type}

/-- Nothing but the text moves. -/
structure Undisturbed (s s' : GraphQlExecutor) : Prop where
  scanner : s.scanner.Advances s'.scanner
  pool : s'.pool = s.pool
  members : s'.members = s.members
  steps : s'.steps = s.steps

namespace Running

variable {s s' : GraphQlExecutor}

theorem of_undisturbed (h : Running schema k n depth s) (hs : Undisturbed s s') :
    Running schema k n depth s' := by
  obtain ⟨hscanner, hpool, hmembers, hsteps⟩ := hs
  constructor
  case left => exact Nat.le_trans hscanner.left_le h.left
  case types => exact fun hid => hpool ▸ h.types hid
  case declarations => exact hpool ▸ h.declarations
  case newTypes => exact hpool ▸ h.newTypes
  case bound => exact hpool ▸ h.bound
  case query => exact hmembers ▸ h.query
  case mutation => exact hmembers ▸ h.mutation
  case subscription => exact hmembers ▸ h.subscription
  case symbols => exact hmembers ▸ h.symbols
  case directiveDefinitions => exact hmembers ▸ h.directiveDefinitions
  case depth => exact hmembers ▸ h.depth
  case entries => exact hmembers ▸ h.entries
  case references => exact hmembers ▸ h.references
  case safe => exact hsteps ▸ h.safe

theorem withLeft (h : Running schema k n depth s) {m : Nat} (hm : s.scanner.left ≤ m) :
    Running schema k m depth s := { h with left := hm }

theorem mono (h : Running schema k n depth s) {m : Nat} (hm : n ≤ m) :
    Running schema k m depth s := h.withLeft (Nat.le_trans h.left hm)

/-- A state with fewer characters left. -/
theorem below (h : Running schema k n depth s) {m : Nat} (hm : s.scanner.left < m) :
    Below schema k m depth s := ⟨s.scanner.left, hm, h.withLeft (Nat.le_refl _)⟩

theorem withDepth (h : Running schema k n depth s) {depth' : Nat} (hdepth : depth' ≤ depth) :
    Running schema k n depth' s := { h with depth := Nat.le_trans hdepth h.depth }

end Running

theorem Below.running {s : GraphQlExecutor} (h : Below schema k n depth s) :
    Running schema k n depth s := by
  obtain ⟨m, hm, hs⟩ := h
  exact hs.mono (Nat.le_of_lt hm)

/-! ## Rules -/

/-- The computation keeps the invariant, whatever its bounds, and stops as a run may. -/
def Sound (schema : GraphQlSchema) (m : ExecutorM α) : Prop :=
  ∀ {k n depth}, Triple (Running schema k n depth) m (fun _ => Running schema k n depth) Stopped

theorem sound_pure {a : α} : Sound schema (pure a : ExecutorM α) := triple_pure fun _ hs => hs

theorem sound_bind {m : ExecutorM α} {f : α → ExecutorM β} (hm : Sound schema m)
    (hf : ∀ a, Sound schema (f a)) : Sound schema (m >>= f) := triple_bind hm fun a => hf a

theorem sound_when {c : Prop} [Decidable c] {m : ExecutorM Unit} (hm : c → Sound schema m) :
    Sound schema (when c m) := triple_when (fun hc => hm hc) fun _ _ hs => hs

theorem sound_step {f : GraphQlExecutor → α × GraphQlExecutor} {h : ∀ s, s ≤ (f s).2}
    (hf : ∀ s, Undisturbed s (f s).2) : Sound schema (step f h : ExecutorM α) :=
  triple_step fun s hs => hs.of_undisturbed (hf s)

theorem sound_read {f : GraphQlExecutor → α} : Sound schema (ParserM.read f) :=
  triple_bind (Q := fun _ => Running schema _ _ _) (triple_get fun _ hs => hs) fun _ => sound_pure

theorem sound_scan {f : GraphQlScanner → α × GraphQlScanner}
    (h : ∀ s : GraphQlScanner, s.Advances (f s).2) :
    Sound schema (ParserM.scan f : ExecutorM α) := sound_step fun s => ⟨h s.scanner, rfl, rfl, rfl⟩

/-- What may throw. -/
theorem sound_exception {f : GraphQlExecutor → Option α} :
    Sound schema (Climb.require .exception f) :=
  triple_require (fun _ _ hs _ => hs) fun _ hs _ => hs.safe

/-- A read of what is there. -/
theorem triple_deref {P : GraphQlExecutor → Prop} {f : GraphQlExecutor → Option α}
    {Q : α → GraphQlExecutor → Prop} {E : Stop → GraphQlExecutor → Prop}
    (h : ∀ s, P s → ∃ a, f s = some a ∧ Q a s) : Triple P (deref f) Q E := by
  refine triple_require (fun s a hs ha => ?_) fun s hs hnone => ?_
  · obtain ⟨b, hb, hQ⟩ := h s hs
    exact Option.some.inj (hb.symm.trans ha) ▸ hQ
  · obtain ⟨b, hb, -⟩ := h s hs
    exact absurd (hnone.symm.trans hb) (by simp only [reduceCtorEq, not_false_eq_true])

theorem sound_follow {p : Option α} {a : α} (h : p = some a) :
    Sound schema (follow p : ExecutorM α) := triple_deref fun _ hs => ⟨a, h, hs⟩

/-- A pointer that is set, and what it points to. -/
theorem triple_follow {P : GraphQlExecutor → Prop} {p : Option α} {a : α} (h : p = some a) :
    Triple P (follow p : ExecutorM α) (fun b s => b = a ∧ P s) Stopped :=
  triple_deref fun _ hs => ⟨a, h, rfl, hs⟩

theorem triple_below {m : ExecutorM α} {Q : α → GraphQlExecutor → Prop}
    (h : ∀ i, i < n → Triple (Running schema k i depth) m Q Stopped) :
    Triple (Below schema k n depth) m Q Stopped :=
  triple_exists fun i => triple_fact fun hi => h i hi

/-! ## The operations of the parser -/

theorem sound_addDiagnosticAt {location : Location} {template : D} {arguments : List Ustring} :
    Sound schema (addDiagnosticAt location template arguments) :=
  sound_step fun _ => ⟨.rfl, rfl, rfl, rfl⟩

theorem sound_addDiagnostic {template : D} {arguments : List Ustring} :
    Sound schema (addDiagnostic template arguments) :=
  sound_bind sound_read fun _ => sound_addDiagnosticAt

theorem sound_getLocationFromSyntax {span : Span} : Sound schema (getLocationFromSyntax span) :=
  sound_exception

/-- A report at a node. -/
theorem sound_reportAt {span : Span} {template : D} {arguments : List Ustring} :
    Sound schema (do
      let location ← getLocationFromSyntax span
      addDiagnosticAt location template arguments : ExecutorM Unit) :=
  sound_bind sound_getLocationFromSyntax fun _ => sound_addDiagnosticAt

theorem sound_getTokenValue : Sound schema getTokenValue := sound_read

theorem sound_createSpan : Sound schema createSpan := sound_read

theorem sound_finishSpan {span : Span} : Sound schema (finishSpan span) := sound_read

theorem sound_createName {identifier : Ustring} : Sound schema (createName identifier) :=
  sound_bind sound_createSpan fun _ => sound_pure

theorem sound_skipTo {tokens : List GraphQlToken} : Sound schema (skipTo tokens) :=
  sound_scan fun s => s.advances_skipTo _

theorem sound_skipBlock : Sound schema skipBlock := sound_scan fun s => s.advances_skipBlock

theorem sound_skipToNextPrimaryToken : Sound schema skipToNextPrimaryToken :=
  sound_bind sound_skipTo fun _ => sound_pure

/-- A token that is not the end of the document takes a character. -/
theorem triple_takeNextToken {treatKeywordAsName skipWhiteSpace : Bool} :
    Triple (Running schema k n depth) (takeNextToken treatKeywordAsName skipWhiteSpace)
      (fun token s => Running schema k n depth s ∧
        (token ≠ .endOfDocument → Below schema k n depth s)) Stopped := by
  refine triple_step fun s hs => ?_
  have hadvances := (s.scanner.scans_takeNextToken treatKeywordAsName skipWhiteSpace).toAdvances
  have hrunning : Running schema k n depth { s with
      scanner := (s.scanner.takeNextToken treatKeywordAsName skipWhiteSpace).2 } :=
    hs.of_undisturbed ⟨hadvances, rfl, rfl, rfl⟩
  refine ⟨hrunning, fun htoken => hrunning.below ?_⟩
  exact Nat.lt_of_lt_of_le (GraphQlScanner.left_takeNextToken_lt htoken) hs.left

theorem sound_takeNextToken {treatKeywordAsName skipWhiteSpace : Bool} :
    Sound schema (takeNextToken treatKeywordAsName skipWhiteSpace) :=
  triple_takeNextToken.conseq (fun _ hs => hs) fun _ _ hs => hs.1

theorem sound_takeToken : Sound schema takeToken := sound_takeNextToken

theorem sound_reportExpected {text : Ustring} {result : GraphQlToken} :
    Sound schema (reportExpected text result) := by
  unfold reportExpected
  split
  · exact sound_addDiagnostic
  · exact sound_bind sound_getTokenValue fun _ => sound_addDiagnostic

theorem triple_scanExpected {token : GraphQlToken} (htoken : token ≠ .endOfDocument)
    {treatKeywordAsName : Bool} :
    Triple (Running schema k n depth) (scanExpected token treatKeywordAsName) (fun found s =>
      Running schema k n depth s ∧ (found = true → Below schema k n depth s)) Stopped := by
  refine triple_bind triple_takeNextToken fun result => ?_
  split
  · next hresult =>
    exact triple_pure fun s hs => ⟨hs.1, fun _ => hs.2 (hresult ▸ htoken)⟩
  split
  · exact triple_stop fun s hs => hs.1.safe
  · refine triple_bind (sound_reportExpected.conseq (fun _ hs => hs.1) fun _ _ hs => hs) fun _ => ?_
    exact triple_pure fun s hs => ⟨hs, fun hfalse => absurd hfalse Bool.false_ne_true⟩

theorem sound_scanExpected {token : GraphQlToken} (htoken : token ≠ .endOfDocument)
    {treatKeywordAsName : Bool} : Sound schema (scanExpected token treatKeywordAsName) :=
  (triple_scanExpected htoken).conseq (fun _ hs => hs) fun _ _ hs => hs.1

theorem triple_scanOptional {token : GraphQlToken} (htoken : token ≠ .endOfDocument)
    {treatKeywordAsName : Bool} :
    Triple (Running schema k n depth) (scanOptional token treatKeywordAsName) (fun found s =>
      Running schema k n depth s ∧ (found = true → Below schema k n depth s)) Stopped := by
  intro s hs
  have hrunning : Running schema k n depth { s with
      scanner := (s.scanner.tryScan token treatKeywordAsName).2 } :=
    hs.of_undisturbed ⟨s.scanner.advances_tryScan token treatKeywordAsName, rfl, rfl, rfl⟩
  refine ⟨hrunning, fun hfound => hrunning.below ?_⟩
  exact Nat.lt_of_lt_of_le (GraphQlScanner.left_tryScan_lt htoken (of_decide_eq_true hfound))
    hs.left

theorem sound_scanOptional {token : GraphQlToken} (htoken : token ≠ .endOfDocument)
    {treatKeywordAsName : Bool} : Sound schema (scanOptional token treatKeywordAsName) :=
  (triple_scanOptional htoken).conseq (fun _ hs => hs) fun _ _ hs => hs.1

/-! ## Types a value is read for -/

/-- The type of an argument or an input field, or that of a variable. -/
def ValueType (schema : GraphQlSchema) (k : Nat) (id : TypeId) : Prop :=
  IsTypeAt schema.pool.types true id ∨ schema.pool.types.length ≤ id ∧ id < k

/-- What a type node that a value is read for can be. -/
inductive InputCase (symbols : UstringMap Symbol) (t : TypeNode) : Prop where
  | scalar (hname : t.name = none) (htype : t.type.isScalar = true)
  | nameless (hname : t.name = none) (htype : t.type = .object)
  | enum {name : Name} {symbol : Symbol} (hname : t.name = some name)
      (hsymbol : symbols.find? name.identifier = some symbol) (hkind : symbol.kind = .enum)
      (htype : t.type = .enum)
  | input {name : Name} {symbol : Symbol} (hname : t.name = some name)
      (hsymbol : symbols.find? name.identifier = some symbol) (hkind : symbol.kind = .inputObject)
      (htype : t.type = .object)

theorem inputCase_of_variable {symbols : UstringMap Symbol} {t : TypeNode}
    (h : IsVariableType t) : InputCase symbols t := by
  obtain ⟨token, htype, hname⟩ := h
  by_cases hobject : typeOfToken token = .object
  · exact .nameless hname (htype.trans hobject)
  · refine .scalar hname ?_
    rw [htype]
    revert hobject
    cases token <;> simp [typeOfToken, TypeEnum.isScalar]

theorem inputCase_of_constructed (hschema : Constructed schema) {t : TypeNode}
    (ht : t ∈ schema.pool.types) (hinput : t.inInputLocation = true) (isListType : Bool) :
    InputCase schema.members.symbols { t with isListType } := by
  rcases Option.eq_none_or_eq_some t.name with hname | ⟨name, hname⟩
  · exact .scalar hname (hschema.scalars t ht hname)
  · obtain ⟨symbol, hsymbol, hinputKind, -, htag⟩ := hschema.resolves t ht name hname
    by_cases hkind : symbol.kind = .enum
    · exact .enum hname hsymbol hkind (htag.2 hkind)
    · refine .input hname hsymbol ?_ ?_
      · have hisInput := hinputKind hinput
        revert hisInput hkind
        cases symbol.kind <;> simp [SymbolKind.isInput]
      · rcases hschema.named t ht (by rw [hname, Option.isSome_some]) with hobject | henum
        · exact hobject
        · exact absurd (htag.1 henum) hkind

/-- The node of a type that a value is read for is there. -/
theorem Running.valueType (hschema : Constructed schema) {s : GraphQlExecutor}
    (hs : Running schema k n depth s) {id : TypeId} (hid : ValueType schema k id) :
    ∃ t, s.pool.types[id]? = some t ∧ InputCase schema.members.symbols t := by
  rcases hid with ⟨t, ht, hinput⟩ | ⟨hge, hlt⟩
  · obtain ⟨isListType, ht'⟩ := hs.types ht
    exact ⟨_, ht', inputCase_of_constructed hschema (List.mem_of_getElem? ht) hinput isListType⟩
  · have hlt' := Nat.lt_of_lt_of_le hlt hs.bound
    have ht := List.getElem?_eq_getElem hlt'
    exact ⟨_, ht, inputCase_of_variable (hs.newTypes id _ hge ht)⟩

theorem triple_typeNode (hschema : Constructed schema) {id : TypeId}
    (hid : ValueType schema k id) {P : GraphQlExecutor → Prop}
    (hP : ∀ s, P s → Running schema k n depth s) :
    Triple P (typeNode id) (fun t s => InputCase schema.members.symbols t ∧ P s) Stopped := by
  refine triple_deref fun s hs => ?_
  obtain ⟨t, ht, hcase⟩ := (hP s hs).valueType hschema hid
  exact ⟨t, ht, hcase, hs⟩

/-- The list flag of a node may be set and cleared. -/
theorem Running.setListType {s : GraphQlExecutor} (hs : Running schema k n depth s) (id : TypeId)
    (isListType : Bool) : Running schema k n depth { s with
      pool := { s.pool with types := s.pool.types.modify id fun t => { t with isListType } } } where
  __ := hs
  types {i t} hi := by
    obtain ⟨b, hb⟩ := hs.types hi
    simp only [List.getElem?_modify, hb, Option.map_eq_map, Option.map_some]
    split
    · exact ⟨isListType, rfl⟩
    · exact ⟨b, rfl⟩
  newTypes := hs.newTypes.modify id isListType
  bound := by simpa only [List.length_modify] using hs.bound

theorem sound_setListType {id : TypeId} {isListType : Bool} :
    Sound schema (modifyType id fun t => { t with isListType }) :=
  triple_step fun _ hs => hs.setListType id isListType

/-! ## Steps that are not safe -/

/-- A state after a step that is not safe. -/
structure Doomed (schema : GraphQlSchema) (s : GraphQlExecutor) : Prop where
  declarations : s.pool.declarations = schema.pool.declarations
  symbols : s.members.symbols = schema.members.symbols
  notSafe : ∃ step ∈ s.steps, step.isSafe = false

/-- The computation never gets to its end after such a step: it reads what is absent. -/
def Failing (schema : GraphQlSchema) (m : ExecutorM α) : Prop :=
  Triple (Doomed schema) m (fun _ _ => False) Stopped

/-- The computation passes such a step on. -/
def Passing (schema : GraphQlSchema) (m : ExecutorM α) : Prop :=
  Triple (Doomed schema) m (fun _ => Doomed schema) Stopped

theorem passing_step {f : GraphQlExecutor → α × GraphQlExecutor} {h : ∀ s, s ≤ (f s).2}
    (hpool : ∀ s, (f s).2.pool = s.pool) (hmembers : ∀ s, (f s).2.members = s.members)
    (hsteps : ∀ s, (f s).2.steps = s.steps) : Passing schema (step f h : ExecutorM α) :=
  triple_step fun s hs => ⟨hpool s ▸ hs.declarations, hmembers s ▸ hs.symbols,
    hsteps s ▸ hs.notSafe⟩

theorem passing_read {f : GraphQlExecutor → α} : Passing schema (ParserM.read f) :=
  triple_bind (Q := fun _ => Doomed schema) (triple_get fun _ hs => hs) fun _ =>
    triple_pure fun _ hs => hs

theorem passing_addDiagnostic {template : D} {arguments : List Ustring} :
    Passing schema (addDiagnostic template arguments) :=
  triple_bind passing_read fun _ => passing_step (fun _ => rfl) (fun _ => rfl) fun _ => rfl

theorem failing_absent : Failing schema (deref fun _ => none : ExecutorM α) :=
  triple_require (fun _ _ _ h => absurd h (by simp only [reduceCtorEq, not_false_eq_true]))
    fun _ hs _ => hs.notSafe

theorem failing_follow {p : Option α} (h : p = none) : Failing schema (follow p : ExecutorM α) := by
  subst h
  exact failing_absent

/-- Whatever is read after such a step may be absent. -/
theorem triple_doomed_deref {f : GraphQlExecutor → Option α} :
    Triple (Doomed schema) (deref f) (fun a s => f s = some a ∧ Doomed schema s) Stopped :=
  triple_require (fun _ _ hs ha => ⟨ha, hs⟩) fun _ hs _ => hs.notSafe

theorem Failing.bind {m : ExecutorM α} {f : α → ExecutorM β} (hm : Failing schema m) :
    Failing schema (m >>= f) :=
  triple_bind hm fun _ _ hs => absurd hs id

theorem Passing.bind {m : ExecutorM α} {f : α → ExecutorM β} (hm : Passing schema m)
    (hf : ∀ a, Failing schema (f a)) : Failing schema (m >>= f) :=
  triple_bind hm fun a => hf a

theorem failing_when {c : Prop} [Decidable c] {m : ExecutorM Unit} (hc : c)
    (hm : Failing schema m) : Failing schema (when c m) :=
  triple_when (fun _ => hm) fun hn => absurd hc hn

/-- A type that has no name cannot be reported. -/
theorem failing_getTypeName {t : TypeNode} (h : t.isNamed = false) :
    Failing schema (getTypeName t) := by
  simp only [TypeNode.isNamed, Bool.or_eq_false_iff, Option.isSome_eq_false_iff,
    Option.isNone_iff_eq_none, decide_eq_false_iff_not, ne_eq, Decidable.not_not] at h
  refine Failing.bind ?_
  unfold typeNameText
  rw [h.2]
  exact (failing_follow h.1).bind

theorem failing_reportMismatch {t : TypeNode} (h : t.isNamed = false) {literalType : Ustring} :
    Failing schema (reportMismatch literalType t) := (failing_getTypeName h).bind

theorem failing_reportValueMismatch {t : TypeNode} (h : t.isNamed = false) {value : Ustring} :
    Failing schema (reportValueMismatch value t) := (failing_getTypeName h).bind

theorem sound_recordStep {step : Step} (h : step.isSafe = true) :
    Sound schema (recordStep step) := by
  refine triple_step fun s hs => { hs with safe := fun step' hstep' => ?_ }
  rcases List.mem_append.1 hstep' with hold | hnew
  · exact hs.safe step' hold
  · exact List.mem_singleton.1 hnew ▸ h

theorem sound_recordValueAhead : Sound schema recordValueAhead :=
  sound_bind sound_read fun _ => sound_recordStep rfl

theorem sound_recordArguments {definitions : UstringMap InputValueDefinition}
    {supplied : Option (UstringMap Argument)} {target : Span} :
    Sound schema (recordArguments definitions supplied target) := sound_recordStep rfl

theorem sound_recordAlias {fieldAlias name : Option Name} {nested : Bool} :
    Sound schema (recordAlias fieldAlias name nested) := by
  unfold recordAlias
  split
  · exact sound_bind sound_read fun _ => sound_recordStep rfl
  · exact sound_pure

theorem triple_recordStep_of_not_safe {step : Step} (h : step.isSafe = false) :
    Triple (Running schema k n depth) (recordStep step) (fun _ => Doomed schema) Stopped :=
  triple_step fun _ hs => ⟨hs.declarations, hs.symbols, step,
    List.mem_append_right _ (List.mem_singleton_self _), h⟩

/-- A step is recorded: the rest goes on when it is safe, and fails when it is not. -/
theorem triple_recordStep {step : Step} {m : ExecutorM α} {P : GraphQlExecutor → Prop}
    {Q : α → GraphQlExecutor → Prop} (hP : ∀ s, P s → Running schema k n depth s)
    (hsafe : step.isSafe = true → Triple (Running schema k n depth) m Q Stopped)
    (hfails : step.isSafe = false → Failing schema m) :
    Triple P (recordStep step >>= fun _ => m) Q Stopped := by
  cases h : step.isSafe with
  | true =>
    exact triple_bind ((sound_recordStep h).conseq hP fun _ _ hs => hs) fun _ => hsafe h
  | false =>
    exact triple_bind ((triple_recordStep_of_not_safe h).conseq hP fun _ _ hs => hs) fun _ =>
      (hfails h).conseq (fun _ hs => hs) fun _ _ hs => absurd hs id

end GraphQlExecutor

end Flashpoint
