import Flashpoint.Executor.Execute
import Flashpoint.Scanner.Progress

/-!
# What a validation run leaves alone

`Follows settled s s'` says how two states of one run are related: the text is read forward, the
declarations, the symbols and the directive definitions stay, the references to fragments are added
to, and a type node stays as it is but for its list flag, which is set once a list literal was read
for the node. Under `settled` the stack stays too. Every function of the executor that returns keeps
the relation, so it holds from the start of a run to its end.
-/

namespace Flashpoint

open Library

/-- Whether the step reads a list literal for the type. -/
def Step.opens (id : TypeId) : Step → Bool
  | .value .openBracket i _ => i = id
  | _ => false

namespace GraphQlExecutor

open ParserM Climb

/-- A type node after the steps: a list literal leaves it a list type. -/
def marked (steps : List Step) (id : TypeId) (type : TypeNode) : TypeNode :=
  { type with isListType := type.isListType || steps.any (·.opens id) }

@[simp] theorem marked_nil (id : TypeId) (type : TypeNode) : marked [] id type = type := by
  simp only [marked, List.any_nil, Bool.or_false]

theorem marked_append (steps steps' : List Step) (id : TypeId) (type : TypeNode) :
    marked (steps ++ steps') id type = marked steps' id (marked steps id type) := by
  simp only [marked, List.any_append, Bool.or_assoc]

@[simp] theorem marked_type (steps : List Step) (id : TypeId) (type : TypeNode) :
    (marked steps id type).type = type.type := rfl

@[simp] theorem marked_name (steps : List Step) (id : TypeId) (type : TypeNode) :
    (marked steps id type).name = type.name := rfl

/-- The type nodes an executor makes: the types of variables, which have no name. -/
def IsVariableType (type : TypeNode) : Prop :=
  ∃ token, type.type = typeOfToken token ∧ type.name = none

/-- The nodes from an index on are types of variables. -/
def VariablesFrom (n : Nat) (types : List TypeNode) : Prop :=
  ∀ id type, n ≤ id → types[id]? = some type → IsVariableType type

/-- How the members of the executor change in a run. -/
structure MembersFollow (settled : Prop) (m m' : ExecutorMembers) : Prop where
  query : m'.query = m.query
  mutation : m'.mutation = m.mutation
  subscription : m'.subscription = m.subscription
  symbols : m'.symbols = m.symbols
  directiveDefinitions : m'.directiveDefinitions = m.directiveDefinitions
  references : m.forwardFragmentReferences <+: m'.forwardFragmentReferences
  stack : settled → m'.currentObjectTypes = m.currentObjectTypes

namespace MembersFollow

variable {settled : Prop} {m m' m'' : ExecutorMembers}

theorem rfl {m : ExecutorMembers} : MembersFollow settled m m :=
  ⟨Eq.refl _, Eq.refl _, Eq.refl _, Eq.refl _, Eq.refl _, List.prefix_refl _, fun _ => Eq.refl _⟩

theorem trans (h : MembersFollow settled m m') (h' : MembersFollow settled m' m'') :
    MembersFollow settled m m'' :=
  ⟨h'.query.trans h.query, h'.mutation.trans h.mutation, h'.subscription.trans h.subscription,
    h'.symbols.trans h.symbols, h'.directiveDefinitions.trans h.directiveDefinitions,
    h.references.trans h'.references,
    fun hsettled => (h'.stack hsettled).trans (h.stack hsettled)⟩

/-- A change of the stack only. -/
theorem restack {m : ExecutorMembers} (types : List (Option DeclarationId)) :
    MembersFollow False m { m with currentObjectTypes := types } :=
  ⟨Eq.refl _, Eq.refl _, Eq.refl _, Eq.refl _, Eq.refl _, List.prefix_refl _,
    fun hsettled => absurd hsettled id⟩

end MembersFollow

/-- How the type nodes change while the steps are taken. -/
structure TypesFollow (steps : List Step) (types types' : List TypeNode) : Prop where
  old : ∀ {id type}, types[id]? = some type → types'[id]? = some (marked steps id type)
  new : VariablesFrom types.length types'

theorem VariablesFrom.length (types : List TypeNode) : VariablesFrom types.length types := by
  intro id type hle hid
  exact absurd (List.getElem?_eq_some_iff.1 hid).1 (Nat.not_lt.2 hle)

/-- A change of the list flag makes no difference. -/
theorem VariablesFrom.modify {n : Nat} {types : List TypeNode} (h : VariablesFrom n types)
    (id : TypeId) (isListType : Bool) :
    VariablesFrom n (types.modify id fun t => { t with isListType }) := by
  intro i type hle hi
  rw [List.getElem?_modify] at hi
  obtain ⟨t, ht, heq⟩ := Option.map_eq_some_iff.1 hi
  obtain ⟨token, htype, hname⟩ := h i t hle ht
  subst heq
  refine ⟨token, ?_, ?_⟩
  · split <;> exact htype
  · split <;> exact hname

namespace TypesFollow

variable {steps steps' : List Step} {types types' types'' : List TypeNode}

theorem rfl {types : List TypeNode} : TypesFollow [] types types where
  old h := by rw [marked_nil]; exact h
  new := VariablesFrom.length types

theorem keepsVariables (h : TypesFollow steps types types') {n : Nat} (hn : VariablesFrom n types) :
    VariablesFrom n types' := by
  intro id type hle hid
  rcases Nat.lt_or_ge id types.length with hlt | hge
  · obtain ⟨token, htype, hname⟩ := hn id _ hle (List.getElem?_eq_getElem hlt)
    have hmarked := (h.old (List.getElem?_eq_getElem hlt)).symm.trans hid
    simp only [Option.some.injEq] at hmarked
    exact ⟨token, hmarked ▸ htype, hmarked ▸ hname⟩
  · exact h.new id type hge hid

theorem trans (h : TypesFollow steps types types') (h' : TypesFollow steps' types' types'') :
    TypesFollow (steps ++ steps') types types'' where
  old hid := by
    rw [marked_append]
    exact h'.old (h.old hid)
  new := h'.keepsVariables h.new

end TypesFollow

/-- How a later state of a run is related to an earlier one. -/
structure Follows (settled : Prop) (s s' : GraphQlExecutor) : Prop where
  scanner : s.scanner.Advances s'.scanner
  declarations : s'.pool.declarations = s.pool.declarations
  members : MembersFollow settled s.members s'.members
  types : ∃ steps, s'.steps = s.steps ++ steps ∧
    TypesFollow steps s.pool.types s'.pool.types

variable {settled : Prop}

instance : IsPreorder GraphQlExecutor (Follows settled) where
  refl _ := ⟨.rfl, rfl, .rfl, [], (List.append_nil _).symm, .rfl⟩
  trans _ _ _ h h' := by
    obtain ⟨steps, hsteps, htypes⟩ := h.types
    obtain ⟨steps', hsteps', htypes'⟩ := h'.types
    refine ⟨h.scanner.trans h'.scanner, h'.declarations.trans h.declarations,
      h.members.trans h'.members, steps ++ steps', ?_, htypes.trans htypes'⟩
    rw [hsteps', hsteps, List.append_assoc]

/-- A step that touches neither the pool nor the recorded steps. -/
theorem follows_of_quiet {s s' : GraphQlExecutor} (hscanner : s.scanner.Advances s'.scanner)
    (hpool : s'.pool = s.pool) (hmembers : MembersFollow settled s.members s'.members)
    (hsteps : s'.steps = s.steps) : Follows settled s s' :=
  ⟨hscanner, hpool ▸ rfl, hmembers, [], by rw [hsteps, List.append_nil], hpool ▸ .rfl⟩

/-! ## The operations of the parser -/

theorem keeps_quiet {α : Type} {f : GraphQlExecutor → α × GraphQlExecutor} {h : ∀ s, s ≤ (f s).2}
    (hscanner : ∀ s : GraphQlExecutor, s.scanner.Advances (f s).2.scanner) (hpool : ∀ s, (f s).2.pool = s.pool)
    (hmembers : ∀ s, (f s).2.members = s.members) (hsteps : ∀ s, (f s).2.steps = s.steps) :
    Keeps (Follows settled) (step f h : ExecutorM α) :=
  keeps_step fun s => follows_of_quiet (hscanner s) (hpool s) (hmembers s ▸ .rfl) (hsteps s)

theorem keeps_scan {α : Type} {f : GraphQlScanner → α × GraphQlScanner}
    (h : ∀ s : GraphQlScanner, s.Advances (f s).2) : Keeps (Follows settled) (ParserM.scan f : ExecutorM α) :=
  keeps_quiet (fun s => h s.scanner) (fun _ => rfl) (fun _ => rfl) fun _ => rfl

theorem keeps_read {α : Type} {f : GraphQlExecutor → α} : Keeps (Follows settled) (ParserM.read f) :=
  keeps_bind keeps_get fun _ => keeps_pure

theorem keeps_deref {α : Type} {f : GraphQlExecutor → Option α} :
    Keeps (Follows settled) (ParserM.deref f) := keeps_require

theorem keeps_follow {α : Type} {p : Option α} :
    Keeps (Follows settled) (ParserM.follow p : ExecutorM α) := keeps_deref

theorem keeps_throwException {α : Type} :
    Keeps (Follows settled) (ParserM.throwException : ExecutorM α) := keeps_stop

theorem keeps_outOfFuel {α : Type} : Keeps (Follows settled) (ParserM.outOfFuel : ExecutorM α) := keeps_stop

/-- A change of members that does not concern the schema. -/
theorem keeps_modifyMembers {f : ExecutorMembers → ExecutorMembers}
    (hmembers : ∀ m, MembersFollow settled m (f m)) : Keeps (Follows settled) (ParserM.modifyMembers f) :=
  keeps_step fun s => follows_of_quiet .rfl rfl (hmembers s.members) rfl

theorem keeps_addDiagnosticAt {location : Location} {template : D} {arguments : List Ustring} :
    Keeps (Follows settled) (ParserM.addDiagnosticAt location template arguments : ExecutorM Unit) :=
  keeps_quiet (fun _ => .rfl) (fun _ => rfl) (fun _ => rfl) fun _ => rfl

theorem keeps_addDiagnostic {template : D} {arguments : List Ustring} :
    Keeps (Follows settled) (ParserM.addDiagnostic template arguments : ExecutorM Unit) :=
  keeps_bind keeps_read fun _ => keeps_addDiagnosticAt

theorem keeps_getLocationFromSyntax {span : Span} :
    Keeps (Follows settled) (ParserM.getLocationFromSyntax span : ExecutorM Location) := keeps_require

theorem keeps_takeNextToken {treatKeywordAsName skipWhiteSpace : Bool} :
    Keeps (Follows settled) (ParserM.takeNextToken treatKeywordAsName skipWhiteSpace : ExecutorM _) :=
  keeps_scan fun s => (s.scans_takeNextToken _ _).toAdvances

theorem keeps_takeToken : Keeps (Follows settled) (ParserM.takeToken : ExecutorM _) := keeps_takeNextToken

theorem keeps_getTokenValue : Keeps (Follows settled) (ParserM.getTokenValue : ExecutorM _) := keeps_read

theorem keeps_reportExpected {text : Ustring} {result : GraphQlToken} :
    Keeps (Follows settled) (ParserM.reportExpected text result : ExecutorM Unit) := by
  unfold ParserM.reportExpected
  split
  · exact keeps_addDiagnostic
  · exact keeps_bind keeps_getTokenValue fun _ => keeps_addDiagnostic

theorem keeps_scanExpected {token : GraphQlToken} {treatKeywordAsName : Bool} :
    Keeps (Follows settled) (ParserM.scanExpected token treatKeywordAsName : ExecutorM Bool) := by
  refine keeps_bind keeps_takeNextToken fun result => ?_
  split
  · exact keeps_pure
  split
  · exact keeps_throwException
  · exact keeps_bind keeps_reportExpected fun _ => keeps_pure

theorem keeps_scanOptional {token : GraphQlToken} {treatKeywordAsName : Bool} :
    Keeps (Follows settled) (ParserM.scanOptional token treatKeywordAsName : ExecutorM Bool) :=
  keeps_bind (keeps_scan fun s => s.advances_tryScan _ _) fun _ => keeps_pure

theorem keeps_skipTo {tokens : List GraphQlToken} :
    Keeps (Follows settled) (ParserM.skipTo tokens : ExecutorM GraphQlToken) :=
  keeps_scan fun s => s.advances_skipTo _

theorem keeps_skipBlock : Keeps (Follows settled) (ParserM.skipBlock : ExecutorM Unit) :=
  keeps_scan fun s => s.advances_skipBlock

theorem keeps_createSpan : Keeps (Follows settled) (ParserM.createSpan : ExecutorM Span) := keeps_read

theorem keeps_finishSpan {span : Span} :
    Keeps (Follows settled) (ParserM.finishSpan span : ExecutorM Span) := keeps_read

theorem keeps_createName {identifier : Ustring} :
    Keeps (Follows settled) (ParserM.createName identifier : ExecutorM Name) :=
  keeps_bind keeps_createSpan fun _ => keeps_pure

theorem keeps_typeNode {id : TypeId} : Keeps (Follows settled) (ParserM.typeNode id : ExecutorM TypeNode) :=
  keeps_deref

theorem keeps_declaration {id : DeclarationId} :
    Keeps (Follows settled) (ParserM.declaration id : ExecutorM Declaration) := keeps_deref

theorem keeps_getTypeName {type : TypeNode} :
    Keeps (Follows settled) (ParserM.getTypeName type : ExecutorM Ustring) := by
  have hname : Keeps (Follows settled) (ParserM.typeNameText type : ExecutorM Ustring) := by
    unfold ParserM.typeNameText
    split
    all_goals first
      | exact keeps_pure
      | exact keeps_bind keeps_follow fun _ => keeps_pure
      | exact keeps_throwException
  exact keeps_bind hname fun _ => keeps_pure

theorem keeps_skipToNextPrimaryToken : Keeps (Follows settled) skipToNextPrimaryToken :=
  keeps_bind keeps_skipTo fun _ => keeps_pure

theorem keeps_findSymbol {name : Ustring} : Keeps (Follows settled) (findSymbol name) := keeps_deref

/-- Recording a step marks its type, so only steps that open no list may be recorded alone. -/
theorem keeps_recordStep {step : Step} (h : ∀ id, step.opens id = false) :
    Keeps (Follows settled) (recordStep step) := by
  refine keeps_step fun s => ⟨.rfl, rfl, .rfl, [step], rfl, ?_, ?_⟩
  · intro id type hid
    simp only [marked, List.any_cons, List.any_nil, h id, Bool.or_false]
    exact hid
  · exact VariablesFrom.length _

theorem keeps_topObjectType : Keeps (Follows settled) topObjectType :=
  keeps_bind keeps_read fun _ => keeps_bind (keeps_recordStep fun _ => rfl) fun _ => keeps_deref

/-- The top is read where there is one, and the read is recorded. -/
theorem run_topObjectType_eq_ok {s s' : GraphQlExecutor} {top : Option DeclarationId} :
    topObjectType.run s = .ok top s' ↔ s.members.currentObjectTypes.head? = some top ∧
      s' = { s with steps := s.steps ++ [.readStack s.members.currentObjectTypes.length] } := by
  constructor
  · intro hrun
    obtain ⟨_, _, hheight, hrun⟩ := run_bind_eq_ok.1 hrun
    obtain ⟨rfl, rfl⟩ := Outcome.ok.inj hheight
    obtain ⟨_, _, hrecord, hrun⟩ := run_bind_eq_ok.1 hrun
    obtain ⟨-, rfl⟩ := Outcome.ok.inj hrecord
    obtain ⟨htop, rfl⟩ := run_require_eq_ok.1 hrun
    exact ⟨htop, rfl⟩
  · rintro ⟨htop, rfl⟩
    refine run_bind_eq_ok.2 ⟨_, s, rfl, run_bind_eq_ok.2 ⟨(), _, rfl, ?_⟩⟩
    exact run_require_eq_ok.2 ⟨htop, rfl⟩

theorem keeps_pushObjectType {id : Option DeclarationId} :
    Keeps (Follows False) (pushObjectType id) := keeps_modifyMembers fun _ => .restack _

theorem keeps_popObjectType : Keeps (Follows False) popObjectType :=
  keeps_bind keeps_topObjectType fun _ => keeps_modifyMembers fun _ => .restack _

theorem keeps_recordValueAhead : Keeps (Follows settled) recordValueAhead :=
  keeps_bind keeps_read fun _ => keeps_recordStep fun _ => rfl

theorem keeps_recordArguments {definitions : UstringMap InputValueDefinition}
    {supplied : Option (UstringMap Argument)} {target : Span} :
    Keeps (Follows settled) (recordArguments definitions supplied target) := keeps_recordStep fun _ => rfl

/-! ## Values -/

theorem keeps_reportMismatch {literalType : Ustring} {type : TypeNode} :
    Keeps (Follows settled) (reportMismatch literalType type) :=
  keeps_bind keeps_getTypeName fun _ => keeps_addDiagnostic

theorem keeps_reportValueMismatch {value : Ustring} {type : TypeNode} :
    Keeps (Follows settled) (reportValueMismatch value type) :=
  keeps_bind keeps_getTypeName fun _ => keeps_addDiagnostic

theorem keeps_parseBooleanValue {type : TypeNode} {value : Bool} :
    Keeps (Follows settled) (parseBooleanValue type value) :=
  keeps_bind (keeps_when keeps_reportMismatch) fun _ => keeps_bind keeps_createSpan fun _ => keeps_pure

theorem keeps_parseEnumValue {type : TypeNode} : Keeps (Follows settled) (parseEnumValue type) := by
  refine keeps_bind keeps_getTokenValue fun value => ?_
  refine keeps_bind (keeps_when keeps_reportValueMismatch) fun _ => ?_
  refine keeps_bind keeps_follow fun name => keeps_bind keeps_findSymbol fun symbol => ?_
  refine keeps_bind keeps_declaration fun d => ?_
  split
  · exact keeps_bind (keeps_when keeps_addDiagnostic) fun _ => keeps_bind keeps_createSpan fun _ => keeps_pure
  · exact keeps_deref

theorem keeps_skipObjectValue {type : TypeNode} : Keeps (Follows settled) (skipObjectValue type) :=
  keeps_bind keeps_read fun _ => keeps_bind keeps_read fun _ => keeps_bind keeps_skipBlock fun _ =>
    keeps_bind keeps_read fun _ => keeps_bind keeps_getTypeName fun _ =>
      keeps_bind keeps_addDiagnosticAt fun _ => keeps_pure

theorem keeps_reportDuplicateFields {fields : List ObjectField} :
    Keeps (Follows settled) (reportDuplicateFields fields) := by
  refine keeps_bind (keeps_recordStep fun _ => rfl) fun _ => ?_
  refine keeps_bind keeps_read fun duplicates => keeps_forM fun duplicate _ => ?_
  refine keeps_forM fun field _ => keeps_when ?_
  exact keeps_bind keeps_getLocationFromSyntax fun _ => keeps_addDiagnosticAt

theorem keeps_reportMissingFields {requiredFields : List Ustring} {span : Span}
    {fields : List ObjectField} :
    Keeps (Follows settled) (reportMissingFields requiredFields span fields) := by
  refine keeps_forM fun required _ => keeps_when ?_
  exact keeps_bind keeps_getLocationFromSyntax fun _ => keeps_addDiagnosticAt

theorem keeps_expectCloseBracket : Keeps (Follows settled) expectCloseBracket :=
  keeps_bind keeps_read fun _ =>
    keeps_when (keeps_bind keeps_getTokenValue fun _ => keeps_addDiagnostic)

/-- A list literal as a whole: the flag that is cleared for the elements is set at the end, and the
step that opened the list accounts for it. -/
theorem TypesFollow.list {id : TypeId} {type : TypeNode} {steps steps' : List Step}
    {types types₁ types₂ : List TypeNode} (h : TypesFollow steps types types₁)
    (h' : TypesFollow steps' (types₁.modify id fun t => { t with isListType := false }) types₂) :
    TypesFollow (.value .openBracket id type :: (steps ++ steps')) types
      (types₂.modify id fun t => { t with isListType := true }) where
  old {i t} hi := by
    have hcleared := h'.old ((List.getElem?_modify ..).trans (congrArg _ (h.old hi)))
    rw [List.getElem?_modify, hcleared]
    by_cases hne : id = i
    · simp [marked, Step.opens, hne]
    · simp [marked, Step.opens, hne, Bool.or_assoc]
  new := (h'.keepsVariables (h.new.modify id false)).modify id true

theorem run_modifyType (id : TypeId) (f : TypeNode → TypeNode) (s : GraphQlExecutor) :
    (ParserM.modifyType id f).run s =
      .ok () { s with pool := { s.pool with types := s.pool.types.modify id f } } := rfl

theorem run_recordStep (step : Step) (s : GraphQlExecutor) :
    (recordStep step).run s =
      .ok () { s with steps := s.steps ++ [step] } := rfl

/-- A list literal with the step that records it. -/
theorem keeps_parseListLiteral {id : TypeId} {type : TypeNode} {elements : ExecutorM (List Value)}
    (h : Keeps (Follows settled) elements) :
    Keeps (Follows settled) (do
      recordStep (.value .openBracket id type)
      parseListLiteral id type elements) := by
  have hhead : Keeps (Follows settled) (do
      when (type.isListType = false) (reportValueMismatch "null".toList type)
      createSpan) :=
    keeps_bind (keeps_when keeps_reportValueMismatch) fun _ => keeps_createSpan
  have hbody : Keeps (Follows settled) (do
      let values ← elements
      expectCloseBracket
      return values) :=
    keeps_bind h fun _ => keeps_bind keeps_expectCloseBracket fun _ => keeps_pure
  intro s a s' hrun
  obtain ⟨_, s₀, hrecord, hrun⟩ := run_bind_eq_ok.1 hrun
  obtain ⟨_, s₁, hreport, hrun⟩ := run_bind_eq_ok.1 hrun
  obtain ⟨span, s₂, hspan, hrun⟩ := run_bind_eq_ok.1 hrun
  obtain ⟨_, s₃, hclear, hrun⟩ := run_bind_eq_ok.1 hrun
  obtain ⟨values, s₄, hvalues, hrun⟩ := run_bind_eq_ok.1 hrun
  obtain ⟨_, s₅, hexpect, hrun⟩ := run_bind_eq_ok.1 hrun
  obtain ⟨_, s₆, hset, hend⟩ := run_bind_eq_ok.1 hrun
  have h₂ : Follows settled s₀ s₂ := hhead s₀ span s₂ (run_bind_eq_ok.2 ⟨_, s₁, hreport, hspan⟩)
  have h₅ : Follows settled s₃ s₅ := hbody s₃ values s₅
    (run_bind_eq_ok.2 ⟨values, s₄, hvalues, run_bind_eq_ok.2 ⟨_, s₅, hexpect, rfl⟩⟩)
  obtain rfl : s₃ = _ := (Outcome.ok.inj (hclear.symm.trans (run_modifyType ..))).2
  obtain rfl : s₆ = _ := (Outcome.ok.inj (hset.symm.trans (run_modifyType ..))).2
  obtain rfl : s₀ = _ := (Outcome.ok.inj (hrecord.symm.trans (run_recordStep ..))).2
  obtain rfl : s' = _ := (Outcome.ok.inj hend).2.symm
  obtain ⟨steps, hsteps, htypes⟩ := h₂.types
  obtain ⟨steps', hsteps', htypes'⟩ := h₅.types
  refine ⟨h₂.scanner.trans h₅.scanner, h₅.declarations.trans h₂.declarations, ?_,
    .value .openBracket id type :: (steps ++ steps'), ?_, htypes.list htypes'⟩
  · have hclear : MembersFollow settled s₂.members s₅.members := h₅.members
    exact h₂.members.trans hclear
  · simp only [hsteps', hsteps, List.append_assoc, List.cons_append, List.nil_append]

theorem keeps_addDuplicateField {name : Ustring} :
    Keeps (Follows settled) (addDuplicateField name) :=
  keeps_bind (keeps_modifyMembers fun _ =>
    ⟨rfl, rfl, rfl, rfl, rfl, List.prefix_refl _, fun _ => rfl⟩) fun _ => keeps_recordStep fun _ => rfl

theorem keeps_parseObjectLiteral {type : TypeNode}
    {fields : InputObject → Ustring → ExecutorM (Option (List ObjectField))}
    (h : ∀ inputObject name, Keeps (Follows settled) (fields inputObject name)) :
    Keeps (Follows settled) (parseObjectLiteral type fields) := by
  refine keeps_bind keeps_createSpan fun span => keeps_bind keeps_follow fun name => ?_
  refine keeps_bind keeps_findSymbol fun symbol => ?_
  split
  · exact keeps_bind keeps_addDiagnostic fun _ => keeps_pure
  refine keeps_bind keeps_declaration fun d => ?_
  split
  · refine keeps_bind (h _ _) fun read => ?_
    split
    · exact keeps_pure
    · exact keeps_bind keeps_finishSpan fun _ => keeps_bind keeps_reportDuplicateFields fun _ =>
        keeps_bind keeps_reportMissingFields fun _ => keeps_pure
  · exact keeps_deref

theorem keeps_parseScalarValue {type : TypeNode} {token : GraphQlToken} :
    Keeps (Follows settled) (parseScalarValue type token) := by
  have hvalue : ∀ {value : Span → Ustring → Value}, Keeps (Follows settled) (do
      let span ← createSpan
      let text ← getTokenValue
      return some (value span text) : ExecutorM (Option Value)) := fun {_} =>
    keeps_bind keeps_createSpan fun _ => keeps_bind keeps_getTokenValue fun _ => keeps_pure
  unfold parseScalarValue
  split
  · exact keeps_bind (keeps_when keeps_reportValueMismatch) fun _ =>
      keeps_bind keeps_createSpan fun _ => keeps_pure
  · exact keeps_bind (keeps_when keeps_reportMismatch) fun _ => hvalue
  · exact keeps_bind (keeps_when keeps_reportMismatch) fun _ => hvalue
  · exact keeps_bind (keeps_when keeps_reportMismatch) fun _ => hvalue
  · exact keeps_parseBooleanValue
  · exact keeps_parseBooleanValue
  · exact keeps_parseEnumValue
  · exact keeps_bind keeps_getTokenValue fun _ => keeps_bind keeps_addDiagnostic fun _ =>
      keeps_bind keeps_skipTo fun _ => keeps_pure

/-- The values, by induction on the bound: one step down for an element or a field. -/
theorem keeps_parseValues (fuel : Nat) :
    (∀ id, Keeps (Follows settled) (parseValue fuel id)) ∧
      (∀ id, Keeps (Follows settled) (parseListValues fuel id)) ∧
      ∀ inputObject typeName parsed,
        Keeps (Follows settled) (parseObjectFields fuel inputObject typeName parsed) := by
  induction fuel with
  | zero => exact ⟨fun _ => keeps_outOfFuel, fun _ => keeps_outOfFuel, fun _ _ _ => keeps_outOfFuel⟩
  | succ fuel ih =>
    obtain ⟨ihValue, ihList, ihFields⟩ := ih
    refine ⟨fun id => ?_, fun id => ?_, fun inputObject typeName parsed => ?_⟩
    · unfold parseValue
      refine keeps_bind keeps_takeToken fun token => ?_
      refine keeps_bind (keeps_quiet (fun _ => .rfl) (fun _ => rfl) (fun _ => rfl) fun _ => rfl) fun _ => ?_
      refine keeps_bind keeps_typeNode fun type => ?_
      by_cases hlist : token = .openBracket
      · subst hlist
        exact keeps_parseListLiteral (ihList id)
      · refine keeps_bind (keeps_recordStep fun i => ?_) fun _ => ?_
        · unfold Step.opens
          split
          · next heq => exact absurd (Step.value.inj heq).1 hlist
          · rfl
        unfold parseValueAfterToken
        split
        · exact absurd rfl hlist
        · exact keeps_pure
        · split
          · exact keeps_skipObjectValue
          · exact keeps_parseObjectLiteral fun inputObject name => ihFields inputObject name []
        · exact keeps_parseScalarValue
    · unfold parseListValues
      refine keeps_bind (ihValue id) fun value => ?_
      split
      · exact keeps_pure
      · exact keeps_bind (ihList id) fun _ => keeps_pure
    · unfold parseObjectFields
      refine keeps_bind keeps_takeToken fun token => ?_
      split
      · exact keeps_pure
      split
      · refine keeps_bind keeps_addDiagnostic fun _ => keeps_bind keeps_skipTo fun t => ?_
        split
        · exact ihFields _ _ _
        · exact keeps_pure
      refine keeps_bind keeps_getTokenValue fun value => keeps_bind keeps_follow fun fields => ?_
      split
      · exact keeps_bind keeps_addDiagnostic fun _ => keeps_bind keeps_skipTo fun _ => ihFields _ _ _
      · refine keeps_bind (keeps_when keeps_addDuplicateField) fun _ => ?_
        refine keeps_bind keeps_createSpan fun _ => keeps_bind keeps_createName fun _ => ?_
        refine keeps_bind keeps_scanExpected fun colon => ?_
        split
        · refine keeps_bind keeps_recordValueAhead fun _ => ?_
          exact keeps_bind (ihValue _) fun _ => keeps_bind (ihFields _ _ _) fun _ => keeps_pure
        · exact keeps_pure

theorem keeps_parseValue {fuel : Nat} {id : TypeId} : Keeps (Follows settled) (parseValue fuel id) :=
  (keeps_parseValues fuel).1 id

/-! ## Arguments and directives -/

theorem keeps_finishArguments {definitions : UstringMap InputValueDefinition}
    {arguments : UstringMap Argument} {target : Span} :
    Keeps (Follows settled) (finishArguments definitions arguments target) := by
  refine keeps_bind keeps_finishSpan fun target => keeps_bind keeps_recordArguments fun _ => ?_
  refine keeps_bind (keeps_forM fun definition _ => ?_) fun _ => keeps_pure
  refine keeps_bind keeps_follow fun typeId => keeps_bind keeps_typeNode fun type => ?_
  exact keeps_when (keeps_when
    (keeps_bind keeps_getLocationFromSyntax fun _ => keeps_addDiagnosticAt))

theorem keeps_addDirective {directive : Directive} {directives : UstringMap Directive} :
    Keeps (Follows settled) (addDirective directive directives) := by
  refine keeps_bind (keeps_quiet (fun _ => .rfl) (fun _ => rfl) (fun _ => rfl) fun _ => rfl) fun _ => ?_
  split
  · exact keeps_pure
  · exact keeps_bind (keeps_recordStep fun _ => rfl) fun _ =>
      keeps_bind keeps_addDiagnostic fun _ => keeps_pure

theorem keeps_parseArgumentValue {fuel : Nat} {definition : Option InputValueDefinition} :
    Keeps (Follows settled) (parseArgumentValue fuel definition) := by
  unfold parseArgumentValue
  split
  · exact keeps_bind keeps_follow fun _ => keeps_bind keeps_recordValueAhead fun _ =>
      keeps_parseValue
  · exact keeps_bind keeps_skipTo fun _ => keeps_pure

theorem keeps_checkDirectiveLocation {definition : DirectiveDefinition}
    {location : DirectiveLocation} {span : Span} {name : Ustring} :
    Keeps (Follows settled) (checkDirectiveLocation definition location span name) :=
  keeps_when (keeps_bind keeps_getLocationFromSyntax fun _ =>
    keeps_bind keeps_require fun _ => keeps_addDiagnosticAt)

theorem keeps_parseArgument {fuel : Nat} {definitions : UstringMap InputValueDefinition}
    {directives : ExecutorM (UstringMap Directive)} (h : Keeps (Follows settled) directives) :
    Keeps (Follows settled) (parseArgument fuel definitions directives) := by
  refine keeps_bind keeps_getTokenValue fun value => keeps_bind keeps_createName fun name => ?_
  refine keeps_bind keeps_createSpan fun span => ?_
  refine keeps_bind (keeps_when keeps_addDiagnostic) fun _ => ?_
  refine keeps_bind keeps_scanExpected fun colon => ?_
  split
  · exact keeps_bind keeps_parseArgumentValue fun _ => keeps_bind h fun _ => keeps_pure
  · exact keeps_bind keeps_skipTo fun _ => keeps_pure

theorem keeps_parseDirective {location : DirectiveLocation}
    {arguments : UstringMap InputValueDefinition → ExecutorM (Option (UstringMap Argument))}
    (h : ∀ definitions, Keeps (Follows settled) (arguments definitions)) :
    Keeps (Follows settled) (parseDirective location arguments) := by
  have harguments : ∀ {definition name}, Keeps (Follows settled)
      (parseDirectiveArguments definition name arguments) := by
    intro definition name
    refine keeps_bind keeps_scanOptional fun paren => ?_
    split
    · refine keeps_bind (h _) fun supplied => ?_
      split
      · exact keeps_pure
      · exact keeps_bind keeps_finishArguments fun _ => keeps_pure
    · exact keeps_bind keeps_recordArguments fun _ => keeps_pure
  refine keeps_bind keeps_takeNextToken fun token => ?_
  split
  · exact keeps_bind keeps_getTokenValue fun _ => keeps_bind keeps_addDiagnostic fun _ =>
      keeps_bind keeps_skipToNextPrimaryToken fun _ => keeps_pure
  refine keeps_bind keeps_createSpan fun span => keeps_bind keeps_getTokenValue fun value => ?_
  refine keeps_bind keeps_read fun definitions => ?_
  split
  · exact keeps_bind keeps_getLocationFromSyntax fun _ => keeps_bind keeps_addDiagnosticAt fun _ =>
      keeps_bind keeps_skipTo fun _ => keeps_pure
  refine keeps_bind keeps_createName fun name => ?_
  refine keeps_bind keeps_checkDirectiveLocation fun _ => keeps_bind harguments fun supplied => ?_
  split <;> exact keeps_pure

theorem keeps_parseArgumentsAndDirectives (fuel : Nat) :
    (∀ definitions arguments, Keeps (Follows settled) (parseArgumentsLoop fuel definitions arguments)) ∧
      ∀ location directives, Keeps (Follows settled) (parseDirectives fuel location directives) := by
  induction fuel with
  | zero => exact ⟨fun _ _ => keeps_outOfFuel, fun _ _ => keeps_outOfFuel⟩
  | succ fuel ih =>
    obtain ⟨ihArguments, ihDirectives⟩ := ih
    refine ⟨fun definitions arguments => ?_, fun location directives => ?_⟩
    · unfold parseArgumentsLoop
      refine keeps_bind keeps_takeNextToken fun token => ?_
      split
      · exact keeps_bind (keeps_recordStep fun _ => rfl) fun _ => keeps_pure
      refine keeps_bind (keeps_parseArgument (ihDirectives _ _)) fun argument => ?_
      split
      · exact keeps_pure
      · exact ihArguments _ _
    · unfold parseDirectives
      refine keeps_bind keeps_scanOptional fun found => ?_
      split
      · refine keeps_bind (keeps_parseDirective fun _ => ihArguments _ _) fun directive => ?_
        split
        · exact keeps_pure
        · exact keeps_bind keeps_addDirective fun _ => ihDirectives _ _
      · exact keeps_pure

theorem keeps_parseDirectives {fuel : Nat} {location : DirectiveLocation}
    {directives : UstringMap Directive} :
    Keeps (Follows settled) (parseDirectives fuel location directives) :=
  (keeps_parseArgumentsAndDirectives fuel).2 location directives

theorem keeps_parseFieldArguments {fuel : Nat} {definition : FieldDefinition} {span : Span} :
    Keeps (Follows settled) (parseFieldArguments fuel definition span) := by
  refine keeps_bind keeps_scanOptional fun paren => ?_
  split
  · refine keeps_bind ((keeps_parseArgumentsAndDirectives fuel).1 _ _) fun arguments => ?_
    split
    · exact keeps_pure
    · exact keeps_bind keeps_finishArguments fun _ => keeps_pure
  · exact keeps_bind keeps_recordArguments fun _ => keeps_pure

/-! ## Selections -/

theorem keeps_checkFragmentAssignment {name : Name} {object parent : Declaration} :
    Keeps (Follows settled) (checkFragmentAssignment name object parent) := by
  have hreport : ∀ {template arguments}, Keeps (Follows settled) (do
      let location ← getLocationFromSyntax name.span
      addDiagnosticAt location template arguments : ExecutorM Unit) := fun {_ _} =>
    keeps_bind keeps_getLocationFromSyntax fun _ => keeps_addDiagnosticAt
  refine keeps_bind (keeps_recordStep fun _ => rfl) fun _ => ?_
  refine keeps_bind keeps_follow fun _ => keeps_bind keeps_follow fun _ => ?_
  split
  · split
    · exact keeps_when hreport
    · exact keeps_deref
  · exact keeps_when hreport
  · exact keeps_when hreport
  · exact hreport

theorem keeps_currentObjectType : Keeps (Follows settled) currentObjectType :=
  keeps_bind keeps_topObjectType fun _ => keeps_bind keeps_follow fun _ => keeps_declaration

theorem keeps_parseFieldName {name : Name} : Keeps (Follows settled) (parseFieldName name) := by
  have hexpected : Keeps (Follows settled) parseExpectedName := by
    refine keeps_bind keeps_scanExpected fun found => ?_
    split
    · exact keeps_bind keeps_getTokenValue fun _ => keeps_bind keeps_createName fun _ => keeps_pure
    · exact keeps_pure
  refine keeps_bind keeps_scanOptional fun colon => ?_
  split
  · exact keeps_bind hexpected fun _ => keeps_pure
  · exact keeps_pure

theorem keeps_recordAlias {fieldAlias name : Option Name} {nested : Bool} :
    Keeps (Follows settled) (recordAlias fieldAlias name nested) := by
  unfold recordAlias
  split
  · exact keeps_bind keeps_read fun _ => keeps_recordStep fun _ => rfl
  · exact keeps_pure

section Turns

variable {selectionSet : ExecutorM (Option SelectionSet)} (h : Keeps (Follows False) selectionSet)
include h

theorem keeps_parseInlineFragment {fuel startPosition : Nat} :
    Keeps (Follows False) (parseInlineFragment fuel startPosition selectionSet) := by
  have hskip : ∀ {template arguments turn}, Keeps (Follows False) (do
      addDiagnostic template arguments
      skipBlock
      return turn : ExecutorM SelectionTurn) := fun {_ _ _} =>
    keeps_bind keeps_addDiagnostic fun _ => keeps_bind keeps_skipBlock fun _ => keeps_pure
  refine keeps_bind keeps_scanExpected fun found => ?_
  split
  · refine keeps_bind keeps_getTokenValue fun value => keeps_bind keeps_createName fun name => ?_
    refine keeps_bind keeps_read fun symbols => ?_
    split
    · exact hskip
    refine keeps_bind keeps_createSpan fun span => keeps_bind keeps_declaration fun d => ?_
    split
    · refine keeps_bind keeps_currentObjectType fun current => ?_
      refine keeps_bind keeps_checkFragmentAssignment fun _ => ?_
      refine keeps_bind keeps_pushObjectType fun _ => keeps_bind keeps_parseDirectives fun _ => ?_
      exact keeps_bind h fun _ => keeps_bind keeps_finishSpan fun _ => keeps_pure
    · exact hskip
  · exact hskip

theorem keeps_parseFragment {fuel startPosition : Nat} :
    Keeps (Follows False) (parseFragment fuel startPosition selectionSet) := by
  refine keeps_bind keeps_takeToken fun token => ?_
  split
  · exact keeps_parseInlineFragment h
  split
  · refine keeps_bind keeps_createSpan fun _ => keeps_bind keeps_getTokenValue fun _ => ?_
    refine keeps_bind keeps_createName fun _ => keeps_bind keeps_topObjectType fun _ => ?_
    refine keeps_bind (keeps_modifyMembers fun _ =>
      ⟨rfl, rfl, rfl, rfl, rfl, List.prefix_append _ _, fun _ => rfl⟩) fun _ => ?_
    exact keeps_bind keeps_parseDirectives fun _ => keeps_pure
  · exact keeps_bind keeps_addDiagnostic fun _ => keeps_bind keeps_skipBlock fun _ => keeps_pure

theorem keeps_parseField {fuel : Nat} : Keeps (Follows False) (parseField fuel selectionSet) := by
  have hselections : ∀ {definition field},
      Keeps (Follows False) (parseFieldSelections definition selectionSet field) := by
    intro definition field
    refine keeps_bind keeps_typeNode fun type => ?_
    split
    · refine keeps_bind keeps_follow fun _ => keeps_bind keeps_findSymbol fun _ => ?_
      exact keeps_bind keeps_pushObjectType fun _ => keeps_bind h fun _ => keeps_pure
    · exact keeps_bind keeps_getTypeName fun _ => keeps_bind keeps_addDiagnostic fun _ =>
        keeps_bind keeps_skipToNextPrimaryToken fun _ => keeps_pure
  have hfields : ∀ {current}, Keeps (Follows False) (currentFields current) :=
    keeps_bind (keeps_recordStep fun _ => rfl) fun _ => keeps_follow
  refine keeps_bind keeps_getTokenValue fun value => ?_
  refine keeps_bind keeps_currentObjectType fun current => keeps_bind hfields fun fields => ?_
  split
  · exact keeps_bind keeps_follow fun _ => keeps_bind keeps_addDiagnostic fun _ =>
      keeps_bind keeps_skipTo fun _ => keeps_pure
  refine keeps_bind keeps_createSpan fun _ => keeps_bind keeps_createName fun _ => ?_
  refine keeps_bind keeps_parseFieldName fun _ => keeps_bind keeps_parseFieldArguments fun _ => ?_
  refine keeps_bind keeps_parseDirectives fun _ => keeps_bind keeps_scanOptional fun nested => ?_
  refine keeps_bind keeps_recordAlias fun _ => ?_
  split
  · exact hselections
  · exact keeps_pure

end Turns

theorem keeps_selectionSets (fuel : Nat) :
    (∀ span selections, Keeps (Follows False) (parseSelections fuel span selections)) ∧
      Keeps (Follows False) (parseSelectionSet fuel) ∧
      Keeps (Follows False) (parseSelectionSetAfterOpenBrace fuel) := by
  induction fuel with
  | zero => exact ⟨fun _ _ => keeps_outOfFuel, keeps_outOfFuel, keeps_outOfFuel⟩
  | succ fuel ih =>
    obtain ⟨ihSelections, ihSet, ihAfter⟩ := ih
    refine ⟨fun span selections => ?_, ?_, ?_⟩
    · unfold parseSelections
      refine keeps_bind keeps_read fun start => keeps_bind keeps_takeNextToken fun token => ?_
      split
      · refine keeps_bind (keeps_parseFragment ihSet) fun turn => ?_
        split
        · exact ihSelections _ _
        · exact ihSelections _ _
        · exact keeps_pure
      · refine keeps_bind (keeps_parseField ihAfter) fun turn => ?_
        split
        · exact ihSelections _ _
        · exact ihSelections _ _
        · exact keeps_pure
      · exact keeps_bind keeps_popObjectType fun _ => keeps_bind keeps_finishSpan fun _ => keeps_pure
      · refine keeps_bind ?_ fun _ => keeps_pure
        unfold reportEndOfSelections
        split <;> exact keeps_addDiagnostic
      · exact keeps_bind keeps_addDiagnostic fun _ => keeps_bind keeps_finishSpan fun _ => keeps_pure
    · unfold parseSelectionSet
      refine keeps_bind keeps_scanExpected fun brace => ?_
      split
      · exact ihAfter
      · exact keeps_pure
    · unfold parseSelectionSetAfterOpenBrace
      exact keeps_bind keeps_createSpan fun _ => ihSelections _ _

theorem keeps_parseSelectionSet {fuel : Nat} : Keeps (Follows False) (parseSelectionSet fuel) :=
  (keeps_selectionSets fuel).2.1

/-! ## Operations and fragments -/

/-- A new type node is that of a variable. -/
theorem keeps_createType {type : TypeNode} (h : IsVariableType type) :
    Keeps (Follows settled) (ParserM.createType type : ExecutorM TypeId) := by
  refine keeps_bind keeps_read fun id => keeps_bind (keeps_step fun s => ?_) fun _ => keeps_pure
  refine ⟨.rfl, rfl, .rfl, [], (List.append_nil _).symm, ?_, ?_⟩
  · intro i t hi
    rw [marked_nil]
    exact (List.getElem?_append_left (List.getElem?_eq_some_iff.1 hi).1).trans hi
  · intro i t hle hi
    rw [List.getElem?_append_right hle, List.getElem?_singleton] at hi
    split at hi
    · exact Option.some.inj hi ▸ h
    · exact absurd hi (by simp only [reduceCtorEq, not_false_eq_true])

theorem keeps_parseType : Keeps (Follows settled) parseType := by
  refine keeps_bind keeps_scanOptional fun isListType => keeps_bind keeps_takeToken fun token => ?_
  refine keeps_bind (keeps_recordStep fun _ => rfl) fun _ => ?_
  refine keeps_bind keeps_scanOptional fun isNonNull => keeps_bind ?_ fun isNonNullList => ?_
  · unfold parseListTypeEnd
    split
    · exact keeps_bind keeps_scanExpected fun _ => keeps_scanOptional
    · exact keeps_pure
  · exact keeps_bind keeps_createSpan fun _ => keeps_createType ⟨token, rfl, rfl⟩

theorem keeps_parseVariableDefinitionsLoop (fuel : Nat) (definitions : List VariableDefinition) :
    Keeps (Follows settled) (parseVariableDefinitionsLoop fuel definitions) := by
  induction fuel generalizing definitions with
  | zero => exact keeps_outOfFuel
  | succ fuel ih =>
    have hdefault : ∀ {type}, Keeps (Follows settled) (parseDefaultValue fuel type) := by
      intro type
      refine keeps_bind keeps_scanOptional fun equal => ?_
      split
      · exact keeps_bind keeps_recordValueAhead fun _ => keeps_parseValue
      · exact keeps_pure
    unfold parseVariableDefinitionsLoop
    refine keeps_bind keeps_createSpan fun _ => keeps_bind keeps_takeToken fun token => ?_
    split
    · exact keeps_bind (keeps_recordStep fun _ => rfl) fun _ => keeps_pure
    refine keeps_bind keeps_getTokenValue fun _ => keeps_bind keeps_createName fun _ => ?_
    refine keeps_bind keeps_scanExpected fun _ => keeps_bind keeps_parseType fun type => ?_
    refine keeps_bind hdefault fun _ => keeps_bind keeps_scanOptional fun comma => ?_
    split
    · exact ih _
    · exact keeps_pure

theorem keeps_parseOperationHead {fuel : Nat} : Keeps (Follows settled) (parseOperationHead fuel) := by
  refine keeps_bind keeps_scanOptional fun named => ?_
  split
  · refine keeps_bind keeps_getTokenValue fun _ => keeps_bind keeps_createName fun _ => ?_
    refine keeps_bind (keeps_bind keeps_scanOptional fun paren => ?_) fun _ => keeps_pure
    split
    · refine keeps_bind (keeps_bind keeps_createSpan fun _ => ?_) fun _ =>
        keeps_bind keeps_scanExpected fun _ => keeps_pure
      exact keeps_bind (keeps_parseVariableDefinitionsLoop fuel []) fun _ =>
        keeps_bind keeps_finishSpan fun _ => keeps_pure
    · exact keeps_pure
  · exact keeps_pure

theorem keeps_parseOperationDefinition {fuel : Nat} {operationType : OperationType} :
    Keeps (Follows False) (parseOperationDefinition fuel operationType) := by
  refine keeps_bind keeps_createSpan fun _ => keeps_bind keeps_parseOperationHead fun _ => ?_
  refine keeps_bind keeps_parseDirectives fun _ => keeps_bind keeps_parseSelectionSet fun set => ?_
  split <;> exact keeps_pure

theorem keeps_parseFragmentBody {fuel : Nat} {span : Span} {name typeName : Name}
    {symbol : Symbol} : Keeps (Follows False) (parseFragmentBody fuel span name typeName symbol) := by
  refine keeps_bind keeps_declaration fun d => keeps_bind ?_ fun _ => ?_
  · unfold checkFragmentType
    split
    · exact keeps_pure
    · exact keeps_addDiagnostic
  refine keeps_bind keeps_pushObjectType fun _ => keeps_bind keeps_parseDirectives fun _ => ?_
  refine keeps_bind keeps_parseSelectionSet fun set => ?_
  split
  · exact keeps_bind keeps_skipBlock fun _ => keeps_pure
  · exact keeps_pure

theorem keeps_reportDuplicateFragment {name : Name} {fragment : FragmentDefinition} :
    Keeps (Follows settled) (reportDuplicateFragment name fragment) := by
  refine keeps_bind (keeps_recordStep fun _ => rfl) fun _ => keeps_bind keeps_read fun fragments => ?_
  split
  · refine keeps_bind keeps_addDiagnostic fun _ => keeps_bind keeps_read fun _ => ?_
    exact keeps_when (keeps_bind keeps_getLocationFromSyntax fun _ => keeps_addDiagnosticAt)
  · exact keeps_modifyMembers fun _ =>
      ⟨rfl, rfl, rfl, rfl, rfl, List.prefix_refl _, fun _ => rfl⟩

theorem keeps_parseFragmentDefinition {fuel : Nat} :
    Keeps (Follows False) (parseFragmentDefinitionAfterFragmentKeyword fuel) := by
  refine keeps_bind keeps_createSpan fun _ => keeps_bind keeps_scanExpected fun named => ?_
  split
  · refine keeps_bind keeps_getTokenValue fun _ => keeps_bind keeps_createName fun _ => ?_
    refine keeps_bind keeps_reportDuplicateFragment fun _ => ?_
    refine keeps_bind keeps_scanExpected fun on => ?_
    split
    · refine keeps_bind keeps_scanExpected fun typed => ?_
      split
      · refine keeps_bind keeps_getTokenValue fun _ => keeps_bind keeps_read fun _ => ?_
        split
        · exact keeps_bind keeps_addDiagnostic fun _ => keeps_pure
        · exact keeps_bind keeps_createName fun _ => keeps_parseFragmentBody
      · exact keeps_pure
    · exact keeps_pure
  · exact keeps_pure

theorem keeps_parsePrimaryToken {fuel : Nat} {token : GraphQlToken} :
    Keeps (Follows False) (parsePrimaryToken fuel token) := by
  have hunsupported : ∀ {template}, Keeps (Follows False) (do
      addDiagnostic template []
      skipToNextPrimaryToken
      return none : ExecutorM (Option PrimaryDefinition)) := fun {_} =>
    keeps_bind keeps_addDiagnostic fun _ => keeps_bind keeps_skipToNextPrimaryToken fun _ =>
      keeps_pure
  unfold parsePrimaryToken
  split
  · exact keeps_bind keeps_read fun _ => keeps_bind keeps_pushObjectType fun _ =>
      keeps_parseOperationDefinition
  · refine keeps_bind keeps_read fun _ => ?_
    split
    · exact hunsupported
    · exact keeps_bind keeps_pushObjectType fun _ => keeps_parseOperationDefinition
  · refine keeps_bind keeps_read fun _ => ?_
    split
    · exact hunsupported
    · exact keeps_bind keeps_pushObjectType fun _ => keeps_parseOperationDefinition
  · refine keeps_bind keeps_read fun _ => keeps_bind keeps_pushObjectType fun _ => ?_
    refine keeps_bind keeps_createSpan fun _ =>
      keeps_bind (keeps_selectionSets fuel).2.2 fun set => ?_
    split <;> exact keeps_pure
  · exact keeps_parseFragmentDefinition
  · exact keeps_bind keeps_addDiagnostic fun _ => keeps_pure

/-! ## The document -/

theorem keeps_parseDefinitions (fuel : Nat) (token : GraphQlToken)
    (document : ExecutableDefinition) : Keeps (Follows False) (parseDefinitions fuel token document) := by
  induction fuel generalizing token document with
  | zero => exact keeps_outOfFuel
  | succ fuel ih =>
    unfold parseDefinitions
    split
    · exact keeps_pure
    refine keeps_bind keeps_parsePrimaryToken fun definition => ?_
    refine keeps_bind keeps_takeToken fun token => ?_
    split <;> exact ih _ _

theorem keeps_execute (query : Ustring) : Keeps (Follows False) (execute query) := by
  refine keeps_bind keeps_takeToken fun token => keeps_bind keeps_createSpan fun span => ?_
  refine keeps_bind (keeps_parseDefinitions _ _ _) fun document => ?_
  refine keeps_bind (keeps_bind keeps_read fun references => keeps_forM fun reference _ => ?_)
    fun _ => keeps_bind keeps_read fun _ => keeps_pure
  obtain ⟨name, current⟩ := reference
  simp only [checkForwardFragmentReference]
  split
  · exact keeps_bind keeps_getLocationFromSyntax fun _ => keeps_addDiagnosticAt
  · refine keeps_bind keeps_follow fun _ => keeps_bind keeps_findSymbol fun _ => ?_
    refine keeps_bind keeps_declaration fun _ => keeps_bind keeps_follow fun _ => ?_
    exact keeps_bind keeps_declaration fun _ => keeps_checkFragmentAssignment

/-! ## The schema after a run -/

/-- Nothing of the schema has changed: its type nodes and declarations, and what leads to them. -/
structure SchemaUnchanged (schema : GraphQlSchema) (executor : GraphQlExecutor) : Prop where
  types : ∀ {id : TypeId} {type}, schema.pool.types[id]? = some type →
    executor.pool.types[id]? = some type
  declarations : executor.pool.declarations = schema.pool.declarations
  symbols : executor.members.symbols = schema.members.symbols
  directiveDefinitions : executor.members.directiveDefinitions = schema.members.directiveDefinitions
  query : executor.members.query = schema.members.query
  mutation : executor.members.mutation = schema.members.mutation
  subscription : executor.members.subscription = schema.members.subscription

/-- Whether a step that reads a list literal for a type of the schema has a list type there. -/
def listLiteralFits (schema : GraphQlSchema) : Step → Bool
  | .value .openBracket id _ => schema.pool.types[id]?.all (·.isListType)
  | _ => true

theorem isListType_of_listLiteralFits {schema : GraphQlSchema} {step : Step} {id : TypeId}
    {type : TypeNode} (h : listLiteralFits schema step = true) (hopens : step.opens id = true)
    (htype : schema.pool.types[id]? = some type) : type.isListType = true := by
  unfold Step.opens at hopens
  split at hopens
  · obtain rfl := of_decide_eq_true hopens
    simpa only [listLiteralFits, htype, Option.all_some] using h
  · exact absurd hopens Bool.false_ne_true

/-- Every list literal among the steps was read for a type that the schema declares a list. -/
def ListLiteralsFit (schema : GraphQlSchema) (steps : List Step) : Prop :=
  ∀ step ∈ steps, listLiteralFits schema step = true

instance (schema : GraphQlSchema) (steps : List Step) : Decidable (ListLiteralsFit schema steps) :=
  inferInstanceAs (Decidable (∀ step ∈ steps, listLiteralFits schema step = true))

/-- A run from a schema to its end. -/
theorem follows_of_run {schema : GraphQlSchema} {query : Ustring} {document : ExecutableDefinition}
    {executor : GraphQlExecutor} (h : run schema query = .ok document executor) :
    Follows False (addSchema schema query) executor := keeps_execute query _ _ _ h

theorem marked_eq_self {steps : List Step} {id : TypeId} {type : TypeNode} :
    marked steps id type = type ↔ (∀ step ∈ steps, step.opens id = true → type.isListType = true) := by
  constructor
  · intro h step hstep hopens
    have hflag := congrArg TypeNode.isListType h
    simp only [marked] at hflag
    rw [← hflag, Bool.or_eq_true, List.any_eq_true]
    exact .inr ⟨step, hstep, hopens⟩
  · intro h
    have hflag : (type.isListType || steps.any (·.opens id)) = type.isListType := by
      rw [Bool.or_eq_left_iff_imp, List.any_eq_true]
      rintro ⟨step, hstep, hopens⟩
      exact h step hstep hopens
    simp only [marked, hflag]

/-- A run leaves the schema as it was exactly when no list literal in the query was read for a type
that the schema does not declare a list. -/
theorem schemaUnchanged_iff_listLiteralsFit {schema : GraphQlSchema} {query : Ustring}
    {document : ExecutableDefinition} {executor : GraphQlExecutor}
    (h : run schema query = .ok document executor) :
    SchemaUnchanged schema executor ↔ ListLiteralsFit schema executor.steps := by
  have hfollows := follows_of_run h
  obtain ⟨steps, hsteps, htypes⟩ := hfollows.types
  obtain rfl : executor.steps = steps := hsteps
  constructor
  · intro hsame step hstep
    unfold listLiteralFits
    split
    · next id type =>
      rw [Option.all_eq_true]
      intro type htype
      have hmarked := (htypes.old htype).symm.trans (hsame.types htype)
      exact marked_eq_self.1 (Option.some.inj hmarked) _ hstep (decide_eq_true rfl)
    · rfl
  · intro hfit
    have hmembers := hfollows.members
    refine ⟨?_, hfollows.declarations, hmembers.symbols, hmembers.directiveDefinitions,
      hmembers.query, hmembers.mutation, hmembers.subscription⟩
    intro id type htype
    rw [htypes.old htype, marked_eq_self.2 fun step hstep hopens =>
      isListType_of_listLiteralFits (hfit step hstep) hopens htype]

/-- A query with a list literal for a list type. -/
theorem schemaUnchanged_of_list_argument : ∃ document executor,
    run (GraphQlSchema.run "type Query{f(a:[Int]):Int}".toList).state "{f(a:[1])}".toList =
        .ok document executor ∧
      SchemaUnchanged (GraphQlSchema.run "type Query{f(a:[Int]):Int}".toList).state executor := by
  obtain ⟨document, hrun⟩ := Outcome.exists_eq_ok (o := run
    (GraphQlSchema.run "type Query{f(a:[Int]):Int}".toList).state "{f(a:[1])}".toList)
    (by decide +kernel)
  exact ⟨document, _, hrun, (schemaUnchanged_iff_listLiteralsFit hrun).2 (by decide +kernel)⟩

/-- A list literal for an argument of a type that is no list makes the argument one. -/
theorem schema_changed_by_list_literal :
    ∃ schema document executor, GraphQlSchema.Accepts "type Query{f(a:Int):Int}".toList schema ∧
      run schema "{f(a:[1])}".toList = .ok document executor ∧
      ¬ SchemaUnchanged schema executor := by
  have haccepts : GraphQlSchema.Accepts "type Query{f(a:Int):Int}".toList _ :=
    GraphQlSchema.accepts_of_run (by decide +kernel) (by decide +kernel)
  obtain ⟨document, hrun⟩ := Outcome.exists_eq_ok (o := run
    (GraphQlSchema.run "type Query{f(a:Int):Int}".toList).state "{f(a:[1])}".toList)
    (by decide +kernel)
  refine ⟨_, document, _, haccepts, hrun, fun hsame => ?_⟩
  have hbefore : (GraphQlSchema.run "type Query{f(a:Int):Int}".toList).state.pool.types[0]?.map
      (·.isListType) = some false := by decide +kernel
  obtain ⟨type, htype, hflag⟩ := Option.map_eq_some_iff.1 hbefore
  have hafter : (run (GraphQlSchema.run "type Query{f(a:Int):Int}".toList).state
      "{f(a:[1])}".toList).state.pool.types[0]?.map (·.isListType) = some true := by
    decide +kernel
  rw [hsame.types htype, Option.map_some, hflag] at hafter
  exact absurd hafter (by decide)

end GraphQlExecutor

end Flashpoint
