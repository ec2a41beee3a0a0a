import Flashpoint.Executor.Operations
import Flashpoint.Executor.Safety
import Flashpoint.Schema.Required

/-!
# Required arguments of a query

The run of an executor records every use of arguments: those declared for the field or the directive,
and those supplied between parentheses. The reports of missing arguments are exactly those of the uses
with parentheses whose required arguments are left out, where an argument counts as required by the
flags its type node has at that moment. `Tally` is the invariant that says so; every reader keeps it.
-/

namespace Flashpoint

open Library Climb

namespace GraphQlExecutor

open ParserM GraphQlSchema

/-! ## The uses of arguments in a run -/

/-- A declared argument at a place where arguments may be supplied, with the steps before it. -/
structure ArgumentUse where
  before : List Step
  supplied : Option (List Ustring)
  target : Span
  name : Ustring
  type : Option TypeId

/-- The declared arguments of one step. -/
def usesOf (before : List Step) : Step → List ArgumentUse
  | .useArguments declared supplied target =>
    declared.map fun argument => ⟨before, supplied, target, argument.1, argument.2⟩
  | _ => []

/-- The declared arguments of the steps, each with the steps before it. -/
def argumentUses (before : List Step) : List Step → List ArgumentUse
  | [] => []
  | step :: steps => usesOf before step ++ argumentUses (before ++ [step]) steps

theorem argumentUses_append (before steps steps' : List Step) :
    argumentUses before (steps ++ steps') =
      argumentUses before steps ++ argumentUses (before ++ steps) steps' := by
  induction steps generalizing before with
  | nil => rw [List.nil_append, List.append_nil]; rfl
  | cons step steps ih =>
    simp only [List.cons_append, argumentUses, ih, List.append_assoc, List.nil_append]

theorem argumentUses_eq_nil {steps : List Step} (h : ∀ step ∈ steps, step.isUse = false)
    (before : List Step) : argumentUses before steps = [] := by
  induction steps generalizing before with
  | nil => rfl
  | cons step steps ih =>
    have hstep : usesOf before step = [] := by
      cases step with
      | useArguments declared supplied target => exact absurd (h _ (List.mem_cons_self ..)) (by simp [Step.isUse])
      | _ => rfl
    rw [argumentUses, hstep, ih fun step' hstep' => h step' (List.mem_cons_of_mem _ hstep')]
    rfl

namespace ArgumentUse

variable (types : List TypeNode) (use : ArgumentUse)

/-- The argument is not among those supplied. -/
def isLeftOut : Bool := !(use.supplied.getD []).any fun name => name = use.name

/-- The argument is left out although its type is non-null as a whole. -/
def isMissing : Bool :=
  use.isLeftOut && use.type.any fun id => types[id]?.any TypeNode.isRequired

/-- The argument is left out of a list in parentheses, and its type node has the flags of a required
one after the steps so far. -/
def isReported : Bool :=
  use.supplied.isSome && (use.isLeftOut && use.type.any fun id =>
    types[id]?.any fun type => (marked use.before id type).isRequired)

end ArgumentUse

/-- A report about the use, located by a scanner of the run. -/
def IsReportOf (s : GraphQlExecutor) (d : DiagnosticMessage) (use : ArgumentUse) : Prop :=
  ∃ scanner : GraphQlScanner, scanner.Advances s.scanner ∧
    IsMissingArgument scanner use.target use.name d

theorem IsReportOf.later {s s' : GraphQlExecutor} {d : DiagnosticMessage} {use : ArgumentUse}
    (h : IsReportOf s d use) (hs : s.scanner.Advances s'.scanner) : IsReportOf s' d use := by
  obtain ⟨scanner, hscanner, hreport⟩ := h
  exact ⟨scanner, hscanner.trans hs, hreport⟩

/-! ## The invariant -/

/-- The state of a run: the schema is as it was but for the list flags, and the reports of missing
arguments are those of the uses so far. -/
structure Tally (schema : GraphQlSchema) (s : GraphQlExecutor) : Prop where
  declarations : s.pool.declarations = schema.pool.declarations
  query : s.members.query = schema.members.query
  mutation : s.members.mutation = schema.members.mutation
  subscription : s.members.subscription = schema.members.subscription
  symbols : s.members.symbols = schema.members.symbols
  directiveDefinitions : s.members.directiveDefinitions = schema.members.directiveDefinitions
  entries : ∀ entry ∈ s.members.currentObjectTypes, IsDeclared schema entry
  types : TypesFollow s.steps schema.pool.types s.pool.types
  reports : List.Forall₂ (IsReportOf s) (missingArguments s.diagnostics)
    ((argumentUses [] s.steps).filter (·.isReported schema.pool.types))

variable {schema : GraphQlSchema} {α β : Type}

/-- What is silent and leaves the stack keeps the invariant. -/
theorem Tally.follows {s s' : GraphQlExecutor} (h : Tally schema s) (hs : Follows True s s')
    (hsilent : Silent s s') : Tally schema s' := by
  obtain ⟨steps, hsteps, htypes⟩ := hs.types
  obtain ⟨steps', hsteps', hno⟩ := hsilent.steps
  obtain rfl := List.append_cancel_left (hsteps.symm.trans hsteps')
  have hmembers := hs.members
  refine ⟨hs.declarations.trans h.declarations, hmembers.query.trans h.query,
    hmembers.mutation.trans h.mutation, hmembers.subscription.trans h.subscription,
    hmembers.symbols.trans h.symbols, hmembers.directiveDefinitions.trans h.directiveDefinitions,
    hmembers.stack trivial ▸ h.entries, ?_, ?_⟩
  · rw [hsteps]
    exact h.types.trans htypes
  · rw [hsteps, argumentUses_append, argumentUses_eq_nil hno, List.append_nil, hsilent.missing]
    exact h.reports.imp fun _ _ hreport => hreport.later hs.scanner

/-- The computation keeps the invariant when it returns. -/
def Tallies (schema : GraphQlSchema) (m : ExecutorM α) : Prop :=
  Triple (Tally schema) m (fun _ => Tally schema) fun _ _ => True

theorem tallies_pure {a : α} : Tallies schema (pure a : ExecutorM α) := triple_pure fun _ hs => hs

theorem tallies_bind {m : ExecutorM α} {f : α → ExecutorM β} (hm : Tallies schema m)
    (hf : ∀ a, Tallies schema (f a)) : Tallies schema (m >>= f) := triple_bind hm hf

theorem tallies_stop {e : Stop} : Tallies schema (stop e : ExecutorM α) :=
  triple_stop fun _ _ => trivial

theorem tallies_of_silent {m : ExecutorM α} (hfollows : Keeps (Follows True) m)
    (hsilent : Keeps Silent m) : Tallies schema m := by
  intro s hs
  cases hrun : m.run s with
  | ok a s' => exact hs.follows (hfollows s a s' hrun) (hsilent s a s' hrun)
  | stop e s' => trivial

/-! ## The operations of the parser -/

theorem tallies_read {f : GraphQlExecutor → α} : Tallies schema (ParserM.read f) :=
  tallies_of_silent keeps_read silent_read

theorem tallies_addDiagnosticAt {location : Location} {template : D} {arguments : List Ustring}
    (h : template ≠ .missingRequiredArgument0) :
    Tallies schema (addDiagnosticAt location template arguments) :=
  tallies_of_silent keeps_addDiagnosticAt (silent_addDiagnosticAt h)

theorem tallies_addDiagnostic {template : D} {arguments : List Ustring}
    (h : template ≠ .missingRequiredArgument0) :
    Tallies schema (addDiagnostic template arguments) :=
  tallies_of_silent keeps_addDiagnostic (silent_addDiagnostic h)

theorem tallies_takeNextToken {treatKeywordAsName skipWhiteSpace : Bool} :
    Tallies schema (takeNextToken treatKeywordAsName skipWhiteSpace) :=
  tallies_of_silent keeps_takeNextToken silent_takeNextToken

theorem tallies_takeToken : Tallies schema takeToken := tallies_takeNextToken

theorem tallies_getTokenValue : Tallies schema getTokenValue := tallies_read

theorem tallies_scanExpected {token : GraphQlToken} {treatKeywordAsName : Bool} :
    Tallies schema (scanExpected token treatKeywordAsName) :=
  tallies_of_silent keeps_scanExpected silent_scanExpected

theorem tallies_scanOptional {token : GraphQlToken} {treatKeywordAsName : Bool} :
    Tallies schema (scanOptional token treatKeywordAsName) :=
  tallies_of_silent keeps_scanOptional silent_scanOptional

theorem tallies_skipTo {tokens : List GraphQlToken} : Tallies schema (skipTo tokens) :=
  tallies_of_silent keeps_skipTo silent_skipTo

theorem tallies_skipBlock : Tallies schema skipBlock :=
  tallies_of_silent keeps_skipBlock silent_skipBlock

theorem tallies_createSpan : Tallies schema createSpan := tallies_read

theorem tallies_finishSpan {span : Span} : Tallies schema (finishSpan span) := tallies_read

theorem tallies_createName {identifier : Ustring} : Tallies schema (createName identifier) :=
  tallies_of_silent keeps_createName silent_createName

theorem tallies_follow {p : Option α} : Tallies schema (follow p : ExecutorM α) :=
  tallies_of_silent keeps_follow silent_follow

theorem tallies_getLocationFromSyntax {span : Span} : Tallies schema (getLocationFromSyntax span) :=
  tallies_of_silent keeps_getLocationFromSyntax silent_getLocationFromSyntax

theorem tallies_skipToNextPrimaryToken : Tallies schema skipToNextPrimaryToken :=
  tallies_bind tallies_skipTo fun _ => tallies_pure

/-! ## Values -/

theorem keptByValues_silent : KeptByValues Silent fun _ _ => True where
  scan _ _ _ := silent_of_eq rfl rfl
  update _ _ _ hdiagnostics hsteps _ := silent_of_eq hdiagnostics hsteps
  report s d hd := by
    refine ⟨missingArguments_other (fun heq => ?_) _ _ _, [], (List.append_nil _).symm, by simp⟩
    rw [heq] at hd
    cases hd
  record s step hstep := by
    refine ⟨rfl, [step], rfl, fun step' hmem => ?_⟩
    rw [List.mem_singleton.1 hmem]
    cases step <;> first | rfl | cases hstep
  addDuplicateField _ := (keeps_bind silent_modifyMembers fun _ => silent_recordStep rfl).keepsOr
  reportDuplicateFields fields s _ := keepsOr_reportDuplicateFields (silent_recordStep rfl).keepsOr
    (fun _ _ => (silent_addDiagnosticAt (by decide)).keepsOr) s

theorem tallies_parseArgumentValue {fuel : Nat} {definition : Option InputValueDefinition} :
    Tallies schema (parseArgumentValue fuel definition) := by
  refine tallies_of_silent keeps_parseArgumentValue ?_
  unfold parseArgumentValue
  split
  · exact keeps_bind silent_follow fun _ =>
      keeps_bind keptByValues_silent.keeps_recordValueAhead.keeps fun _ =>
        ((keptByValues_silent.keeps_parseValues fuel).1 _).keeps
  · exact keeps_bind silent_skipTo fun _ => keeps_pure

/-! ## Uses of arguments -/

/-- The report of one declared argument. -/
def reportMissingArgument (arguments : UstringMap Argument) (target : Span)
    (definition : InputValueDefinition) : ExecutorM Unit := do
  let typeId ← follow definition.type
  let type ← typeNode typeId
  when ((type.isNonNull ∧ type.isListType = false) ∨ type.isNonNullList) do
    when (arguments.find? definition.name.identifier = none) do
      let location ← getLocationFromSyntax target
      addDiagnosticAt location .missingRequiredArgument0 [definition.name.identifier]

theorem isRequired_eq_true {type : TypeNode} : type.isRequired = true ↔
    (type.isNonNull = true ∧ type.isListType = false) ∨ type.isNonNullList = true := by
  simp only [TypeNode.isRequired, Bool.or_eq_true, Bool.and_eq_true, Bool.not_eq_true']

theorem reportMissingArguments_eq (definitions : UstringMap InputValueDefinition)
    (arguments : UstringMap Argument) (target : Span) :
    reportMissingArguments definitions arguments target =
      definitions.entries.forM fun definition =>
        reportMissingArgument arguments target definition.2 := rfl

theorem notMem_keys_iff {V : Type} {m : UstringMap V} {k : Ustring} :
    k ∉ m.entries.map Prod.fst ↔ m.find? k = none := by
  rw [SortedMap.mem_keys_iff, Option.not_isSome_iff_eq_none]

/-- Nothing but reports was added: those of the given uses. -/
structure Reported (types : List TypeNode) (uses : List ArgumentUse) (s s' : GraphQlExecutor) :
    Prop where
  scanner : s'.scanner = s.scanner
  pool : s'.pool = s.pool
  members : s'.members = s.members
  steps : s'.steps = s.steps
  missing : ∃ new, missingArguments s'.diagnostics = missingArguments s.diagnostics ++ new ∧
    List.Forall₂ (fun d (use : ArgumentUse) =>
        IsMissingArgument s.scanner use.target use.name d) new
      (uses.filter (·.isReported types))

/-- The use that a declared argument makes of those supplied. -/
def useIn (before : List Step) (arguments : UstringMap Argument) (target : Span)
    (definition : InputValueDefinition) : ArgumentUse :=
  ⟨before, some (arguments.entries.map Prod.fst), target, definition.name.identifier,
    definition.type⟩

theorem isReported_useIn {types : List TypeNode} {before : List Step}
    {arguments : UstringMap Argument} {target : Span} {definition : InputValueDefinition}
    {id : TypeId} {type : TypeNode} (hid : definition.type = some id)
    (htype : types[id]? = some type) :
    (useIn before arguments target definition).isReported types = true ↔
      ((marked before id type).isRequired = true ∧
        arguments.find? definition.name.identifier = none) := by
  have hout : (useIn before arguments target definition).isLeftOut = true ↔
      arguments.find? definition.name.identifier = none := by
    rw [ArgumentUse.isLeftOut, Bool.not_eq_true', List.any_eq_false, ← notMem_keys_iff]
    constructor
    · exact fun h hmem => h _ hmem (decide_eq_true rfl)
    · intro h name hname heq
      obtain rfl := of_decide_eq_true heq
      exact h hname
  have hany : ((useIn before arguments target definition).type.any fun id =>
      types[id]?.any fun type => (marked before id type).isRequired) =
        (marked before id type).isRequired := by
    simp only [useIn, hid, Option.any_some, htype]
  rw [ArgumentUse.isReported, Bool.and_eq_true, Bool.and_eq_true, hout]
  constructor
  · rintro ⟨-, hnone, hrequired⟩
    exact ⟨hany ▸ hrequired, hnone⟩
  · rintro ⟨hrequired, hnone⟩
    exact ⟨rfl, hnone, hany.trans hrequired⟩

theorem reported_reportMissingArgument {types : List TypeNode} {before : List Step}
    {arguments : UstringMap Argument} {target : Span} {definition : InputValueDefinition}
    {id : TypeId} {type : TypeNode} (hid : definition.type = some id)
    (htype : types[id]? = some type) {s s' : GraphQlExecutor}
    (hs : TypesFollow before types s.pool.types)
    (hrun : (reportMissingArgument arguments target definition).run s = .ok () s') :
    Reported types [useIn before arguments target definition] s s' := by
  have hiff : (useIn before arguments target definition).isReported types = true ↔ _ :=
    isReported_useIn hid htype
  obtain ⟨id', s₁, hfollow, hrun₁⟩ := run_bind_eq_ok.1 hrun
  obtain ⟨hid', hs₁⟩ := run_require_eq_ok.1 hfollow
  subst s₁
  obtain rfl := Option.some.inj (hid.symm.trans hid')
  obtain ⟨type', s₂, hnode, hrun₂⟩ := run_bind_eq_ok.1 hrun₁
  obtain ⟨htype', hs₂⟩ := run_require_eq_ok.1 hnode
  subst s₂
  obtain rfl := Option.some.inj ((hs.old htype).symm.trans htype')
  rw [isRequired_eq_true] at hiff
  have hnone : ∀ hnot : (useIn before arguments target definition).isReported types = false,
      Reported types [useIn before arguments target definition] s s := by
    intro hnot
    refine ⟨rfl, rfl, rfl, rfl, [], (List.append_nil _).symm, ?_⟩
    rw [List.filter_cons, hnot, if_neg Bool.false_ne_true]
    exact .nil
  unfold when at hrun₂
  split at hrun₂
  · next hrequired =>
    split at hrun₂
    · next hleft =>
      obtain ⟨location, s₃, hget, hadd⟩ := run_bind_eq_ok.1 hrun₂
      obtain ⟨hlocation, hs₃⟩ := run_require_eq_ok.1 hget
      subst s₃
      obtain rfl := (Outcome.ok.inj hadd).2
      refine ⟨rfl, rfl, rfl, rfl, _, missingArguments_missing _ _ _, ?_⟩
      rw [List.filter_cons, hiff.2 ⟨hrequired, hleft⟩, if_pos rfl]
      exact .cons ⟨location, hlocation, rfl⟩ .nil
    · next hleft =>
      obtain rfl := (Outcome.ok.inj hrun₂).2
      exact hnone (Bool.eq_false_iff.2 fun h => hleft (hiff.1 h).2)
  · next hrequired =>
    obtain rfl := (Outcome.ok.inj hrun₂).2
    exact hnone (Bool.eq_false_iff.2 fun h => hrequired (hiff.1 h).1)

theorem reported_forM {types : List TypeNode} {before : List Step}
    {arguments : UstringMap Argument} {target : Span} {s s' : GraphQlExecutor}
    {definitions : List (Ustring × InputValueDefinition)}
    (hdefinitions : ∀ definition ∈ definitions, ∃ id type, definition.2.type = some id ∧
      types[id]? = some type)
    (hs : TypesFollow before types s.pool.types)
    (hrun : (definitions.forM fun definition =>
      reportMissingArgument arguments target definition.2).run s = .ok () s') :
    Reported types (definitions.map fun definition => useIn before arguments target definition.2)
      s s' := by
  induction definitions generalizing s with
  | nil =>
    obtain rfl := (Outcome.ok.inj hrun).2
    exact ⟨rfl, rfl, rfl, rfl, [], (List.append_nil _).symm, .nil⟩
  | cons definition rest ih =>
    obtain ⟨_, s₁, hhead, hrest⟩ := run_bind_eq_ok.1 hrun
    obtain ⟨id, type, hid, htype⟩ := hdefinitions definition (List.mem_cons_self ..)
    have h₁ := reported_reportMissingArgument hid htype hs hhead
    have h₂ := ih (fun d hd => hdefinitions d (List.mem_cons_of_mem _ hd)) (h₁.pool ▸ hs) hrest
    obtain ⟨new, hnew, hreports⟩ := h₁.missing
    obtain ⟨new', hnew', hreports'⟩ := h₂.missing
    refine ⟨h₂.scanner.trans h₁.scanner, h₂.pool.trans h₁.pool, h₂.members.trans h₁.members,
      h₂.steps.trans h₁.steps, new ++ new', ?_, ?_⟩
    · rw [hnew', hnew, List.append_assoc]
    · rw [h₁.scanner] at hreports'
      rw [List.map_cons, ← List.singleton_append, List.filter_append]
      exact List.rel_append hreports hreports'

/-- The declared arguments have types in the schema. -/
theorem exists_type_of_wellFormed {types : List TypeNode}
    {definitions : UstringMap InputValueDefinition} (h : ArgumentsWellFormed types definitions) :
    ∀ definition ∈ definitions.entries, ∃ id type, definition.2.type = some id ∧
      types[id]? = some type := by
  intro definition hmem
  obtain ⟨-, id, hid, type, htype, -⟩ := h _ _ (SortedMap.mem_entries_iff.1 hmem)
  exact ⟨id, type, hid, htype⟩

/-- A step that records a use of arguments leaves the types. -/
theorem TypesFollow.use {steps : List Step} {types types' : List TypeNode} {step : Step}
    (h : TypesFollow steps types types') (hstep : step.isUse = true) :
    TypesFollow (steps ++ [step]) types types' where
  old {id type} hid := by
    have hopens : step.opens id = false := by
      cases step with
      | useArguments declared supplied target => rfl
      | _ => exact absurd hstep (by simp [Step.isUse])
    rw [marked_append, h.old hid]
    simp only [marked, List.any_cons, List.any_nil, hopens, Bool.or_false]
  new := h.new

/-- A use of arguments with parentheses: what is recorded is reported. -/
theorem tallies_finishArguments {definitions : UstringMap InputValueDefinition}
    (hdefinitions : ArgumentsWellFormed schema.pool.types definitions)
    {arguments : UstringMap Argument} {target : Span} :
    Tallies schema (finishArguments definitions arguments target) := by
  refine triple_bind tallies_finishSpan fun target => ?_
  intro s hs
  cases hrun : (do
      recordArguments definitions (some arguments) target
      reportMissingArguments definitions arguments target
      return target : ExecutorM Span).run s with
  | stop e s' => trivial
  | ok a s' =>
    obtain ⟨_, s₁, hrecord, hrun₁⟩ := run_bind_eq_ok.1 hrun
    obtain ⟨_, s₂, hreport, hpure⟩ := run_bind_eq_ok.1 hrun₁
    obtain rfl := (Outcome.ok.inj hpure).2
    have hs₁ := (Outcome.ok.inj (hrecord.symm.trans (run_recordStep ..))).2
    rw [reportMissingArguments_eq] at hreport
    have htypes : TypesFollow s.steps schema.pool.types s₁.pool.types := hs₁ ▸ hs.types
    have hreported := reported_forM (exists_type_of_wellFormed hdefinitions) htypes hreport
    subst hs₁
    obtain ⟨hscanner, hpool, hmembers, hsteps, new, hnew, hreports⟩ := hreported
    refine ⟨hpool ▸ hs.declarations, hmembers ▸ hs.query, hmembers ▸ hs.mutation,
      hmembers ▸ hs.subscription, hmembers ▸ hs.symbols, hmembers ▸ hs.directiveDefinitions,
      hmembers ▸ hs.entries, ?_, ?_⟩
    · rw [hsteps, hpool]
      exact hs.types.use rfl
    · rw [hsteps, argumentUses_append, List.filter_append, hnew]
      have hsame : s.scanner.Advances s₂.scanner := hscanner ▸ .rfl
      refine List.rel_append (hs.reports.imp fun _ _ hold => hold.later hsame) ?_
      simp only [argumentUses, usesOf, List.map_map, List.append_nil, List.nil_append]
      exact hreports.imp fun _ _ hnew => ⟨s.scanner, hsame, hnew⟩

/-- A use of arguments without parentheses: nothing is reported. -/
theorem tallies_recordArguments {definitions : UstringMap InputValueDefinition} {target : Span} :
    Tallies schema (recordArguments definitions none target) := by
  refine triple_step fun s hs => ⟨hs.declarations, hs.query, hs.mutation, hs.subscription,
    hs.symbols, hs.directiveDefinitions, hs.entries, hs.types.use rfl, ?_⟩
  have hnone : (argumentUses s.steps [.useArguments (definitions.entries.map fun d =>
      (d.2.name.identifier, d.2.type)) none target]).filter
        (·.isReported schema.pool.types) = [] := by
    refine List.filter_eq_nil_iff.2 fun use huse => ?_
    simp only [argumentUses, usesOf, List.append_nil, List.map_map] at huse
    obtain ⟨d, -, rfl⟩ := List.mem_map.1 huse
    simp [ArgumentUse.isReported]
  simp only [argumentUses_append, List.filter_append, List.nil_append, Option.map_none, hnone,
    List.append_nil]
  exact hs.reports.imp fun _ _ hold => hold.later .rfl

/-- A member that stays as it was, as it is read. -/
theorem triple_readMember {f : GraphQlExecutor → α} {a : α}
    (hf : ∀ s, Tally schema s → f s = a) :
    Triple (Tally schema) (ParserM.read f) (fun b s => b = a ∧ Tally schema s) fun _ _ => True :=
  fun s hs => ⟨hf s hs, hs⟩

/-- What is found in the state, with what is known of it. -/
theorem triple_found {f : GraphQlExecutor → Option α} {Q : α → Prop}
    (hf : ∀ s a, Tally schema s → f s = some a → Q a) :
    Triple (Tally schema) (deref f) (fun a s => Q a ∧ Tally schema s) fun _ _ => True :=
  triple_require (fun s a hs hfound => ⟨hf s a hs hfound, hs⟩) fun _ _ _ => trivial

theorem tallies_when {c : Prop} [Decidable c] {m : ExecutorM Unit} (hm : Tallies schema m) :
    Tallies schema (when c m) := triple_when (fun _ => hm) fun _ _ hs => hs

/-! ## Arguments and directives -/

theorem tallies_addDirective {directive : Directive} {directives : UstringMap Directive} :
    Tallies schema (addDirective directive directives) := by
  refine tallies_of_silent keeps_addDirective (keeps_bind silent_update fun _ => ?_)
  split
  · exact keeps_pure
  · exact keeps_bind (silent_recordStep rfl) fun _ =>
      keeps_bind (silent_addDiagnostic (by decide)) fun _ => keeps_pure

theorem tallies_checkDirectiveLocation {definition : DirectiveDefinition}
    {location : DirectiveLocation} {span : Span} {name : Ustring} :
    Tallies schema (checkDirectiveLocation definition location span name) :=
  tallies_of_silent keeps_checkDirectiveLocation
    (keeps_when (keeps_bind silent_getLocationFromSyntax fun _ =>
      keeps_bind keeps_require fun _ => silent_addDiagnosticAt (by decide)))

theorem tallies_parseArgument {fuel : Nat} {definitions : UstringMap InputValueDefinition}
    {directives : ExecutorM (UstringMap Directive)} (h : Tallies schema directives) :
    Tallies schema (parseArgument fuel definitions directives) := by
  refine tallies_bind tallies_getTokenValue fun value => ?_
  refine tallies_bind tallies_createName fun name => tallies_bind tallies_createSpan fun span => ?_
  refine tallies_bind (tallies_when (tallies_addDiagnostic (by decide))) fun _ => ?_
  refine tallies_bind tallies_scanExpected fun colon => ?_
  split
  · exact tallies_bind tallies_parseArgumentValue fun _ => tallies_bind h fun _ => tallies_pure
  · exact tallies_bind tallies_skipTo fun _ => tallies_pure

section Directives

variable (hschema : Constructed schema)
include hschema

theorem tallies_parseDirective {location : DirectiveLocation}
    {arguments : UstringMap InputValueDefinition → ExecutorM (Option (UstringMap Argument))}
    (h : ∀ definitions, Tallies schema (arguments definitions)) :
    Tallies schema (parseDirective location arguments) := by
  refine tallies_bind tallies_takeNextToken fun token => ?_
  split
  · exact tallies_bind tallies_getTokenValue fun _ =>
      tallies_bind (tallies_addDiagnostic (by decide)) fun _ =>
        tallies_bind tallies_skipToNextPrimaryToken fun _ => tallies_pure
  refine tallies_bind tallies_createSpan fun span => tallies_bind tallies_getTokenValue fun value => ?_
  refine triple_bind (triple_readMember fun _ hs => hs.directiveDefinitions) fun definitions =>
    triple_fact fun heq => ?_
  subst heq
  split
  · exact tallies_bind tallies_getLocationFromSyntax fun _ =>
      tallies_bind (tallies_addDiagnosticAt (by decide)) fun _ =>
        tallies_bind tallies_skipTo fun _ => tallies_pure
  next definition hdefinition =>
  have hwf := hschema.directives.arguments _ _ hdefinition
  refine tallies_bind tallies_createName fun name => ?_
  refine tallies_bind tallies_checkDirectiveLocation fun _ => tallies_bind ?_ fun supplied => ?_
  · refine tallies_bind tallies_scanOptional fun paren => ?_
    split
    · refine tallies_bind (h _) fun supplied => ?_
      split
      · exact tallies_pure
      · exact tallies_bind (tallies_finishArguments hwf) fun _ => tallies_pure
    · exact tallies_bind tallies_recordArguments fun _ => tallies_pure
  · split <;> exact tallies_pure

theorem tallies_parseArgumentsAndDirectives (fuel : Nat) :
    (∀ definitions arguments, Tallies schema (parseArgumentsLoop fuel definitions arguments)) ∧
      ∀ location directives, Tallies schema (parseDirectives fuel location directives) := by
  induction fuel with
  | zero => exact ⟨fun _ _ => tallies_stop, fun _ _ => tallies_stop⟩
  | succ fuel ih =>
    obtain ⟨ihArguments, ihDirectives⟩ := ih
    refine ⟨fun definitions arguments => ?_, fun location directives => ?_⟩
    · unfold parseArgumentsLoop
      refine tallies_bind tallies_takeNextToken fun token => ?_
      split
      · exact tallies_bind (tallies_of_silent (keeps_recordStep fun _ => rfl)
          (silent_recordStep rfl)) fun _ => tallies_pure
      refine tallies_bind (tallies_parseArgument (ihDirectives _ _)) fun argument => ?_
      split
      · exact tallies_pure
      · exact ihArguments _ _
    · unfold parseDirectives
      refine tallies_bind tallies_scanOptional fun found => ?_
      split
      · refine tallies_bind (tallies_parseDirective hschema fun _ => ihArguments _ _)
          fun directive => ?_
        split
        · exact tallies_pure
        · exact tallies_bind tallies_addDirective fun _ => ihDirectives _ _
      · exact tallies_pure

theorem tallies_parseDirectives {fuel : Nat} {location : DirectiveLocation}
    {directives : UstringMap Directive} :
    Tallies schema (parseDirectives fuel location directives) :=
  (tallies_parseArgumentsAndDirectives hschema fuel).2 location directives

theorem tallies_parseFieldArguments {fuel : Nat} {definition : FieldDefinition} {span : Span}
    (hdefinition : ArgumentsWellFormed schema.pool.types definition.arguments) :
    Tallies schema (parseFieldArguments fuel definition span) := by
  refine tallies_bind tallies_scanOptional fun paren => ?_
  split
  · refine tallies_bind ((tallies_parseArgumentsAndDirectives hschema fuel).1 _ _)
      fun arguments => ?_
    split
    · exact tallies_pure
    · exact tallies_bind (tallies_finishArguments hdefinition) fun _ => tallies_pure
  · exact tallies_bind tallies_recordArguments fun _ => tallies_pure

end Directives

/-! ## Selections -/

theorem tallies_checkFragmentAssignment {name : Name} {object parent : Declaration} :
    Tallies schema (checkFragmentAssignment name object parent) := by
  refine tallies_of_silent keeps_checkFragmentAssignment ?_
  refine keeps_bind (silent_recordStep rfl) fun _ => ?_
  refine keeps_bind silent_follow fun _ => keeps_bind silent_follow fun _ => ?_
  split
  · split
    · exact keeps_when (silent_reportAt (by decide))
    · exact silent_deref
  · exact keeps_when (silent_reportAt (by decide))
  · exact keeps_when (silent_reportAt (by decide))
  · exact silent_reportAt (by decide)

theorem tallies_parseFieldName {name : Name} : Tallies schema (parseFieldName name) := by
  refine tallies_bind tallies_scanOptional fun colon => ?_
  split
  · refine tallies_bind (tallies_bind tallies_scanExpected fun found => ?_) fun _ => tallies_pure
    split
    · exact tallies_bind tallies_getTokenValue fun _ =>
        tallies_bind tallies_createName fun _ => tallies_pure
    · exact tallies_pure
  · exact tallies_pure

theorem tallies_recordAlias {fieldAlias name : Option Name} {nested : Bool} :
    Tallies schema (recordAlias fieldAlias name nested) := by
  refine tallies_of_silent keeps_recordAlias ?_
  unfold recordAlias
  split
  · exact keeps_bind silent_read fun _ => silent_recordStep rfl
  · exact keeps_pure

theorem tallies_pushObjectType {entry : Option DeclarationId} (hentry : IsDeclared schema entry) :
    Tallies schema (pushObjectType entry) := by
  refine triple_step fun s hs => ⟨hs.declarations, hs.query, hs.mutation, hs.subscription,
    hs.symbols, hs.directiveDefinitions, ?_, hs.types, hs.reports⟩
  intro e he
  rcases List.mem_cons.1 he with rfl | he
  · exact hentry
  · exact hs.entries e he

/-- The top of the stack is declared in the schema. -/
theorem triple_topOfStack : Triple (Tally schema) topObjectType (fun top s =>
    IsDeclared schema top ∧ Tally schema s) fun _ _ => True := by
  refine triple_bind tallies_read fun _ => triple_bind ?_ fun _ => triple_found ?_
  · exact tallies_of_silent (keeps_recordStep fun _ => rfl) (silent_recordStep rfl)
  · exact fun s top hs htop => hs.entries top (List.mem_of_mem_head? htop)

theorem tallies_popObjectType : Tallies schema popObjectType := by
  refine triple_bind triple_topOfStack fun _ => triple_fact fun _ => ?_
  exact triple_step fun s hs => ⟨hs.declarations, hs.query, hs.mutation, hs.subscription,
    hs.symbols, hs.directiveDefinitions, fun e he => hs.entries e (List.mem_of_mem_tail he),
    hs.types, hs.reports⟩

/-- The declaration on top of the stack is one of the schema. -/
theorem triple_currentDeclaration (hschema : Constructed schema) :
    Triple (Tally schema) currentObjectType (fun d s => d.Complete schema.pool.types ∧
      Tally schema s) fun _ _ => True := by
  refine triple_bind triple_topOfStack fun top => triple_fact fun htop => ?_
  obtain ⟨k, symbol, hsymbol, rfl⟩ := htop
  refine triple_bind (triple_found (Q := (· = symbol.declaration)) fun _ _ _ h =>
    (Option.some.inj h).symm) fun id => triple_fact fun hid => ?_
  subst hid
  refine triple_found fun s d hs hd => ?_
  rw [hs.declarations] at hd
  exact (hschema.complete_of_declaration hsymbol hd).2

section Turns

variable (hschema : Constructed schema) {selectionSet : ExecutorM (Option SelectionSet)}
  (hset : Tallies schema selectionSet)
include hschema

include hset in
theorem tallies_parseInlineFragment {fuel startPosition : Nat} :
    Tallies schema (parseInlineFragment fuel startPosition selectionSet) := by
  have hskip : ∀ {template arguments turn}, template ≠ .missingRequiredArgument0 →
      Tallies schema (do
        addDiagnostic template arguments
        skipBlock
        return turn : ExecutorM SelectionTurn) := fun {_ _ _} h =>
    tallies_bind (tallies_addDiagnostic h) fun _ => tallies_bind tallies_skipBlock fun _ =>
      tallies_pure
  refine tallies_bind tallies_scanExpected fun found => ?_
  split
  · refine tallies_bind tallies_getTokenValue fun value => ?_
    refine tallies_bind tallies_createName fun name => ?_
    refine triple_bind (triple_readMember fun _ hs => hs.symbols) fun symbols =>
      triple_fact fun heq => ?_
    subst heq
    split
    · exact hskip (by decide)
    next symbol hsymbol =>
    refine tallies_bind tallies_createSpan fun span => ?_
    refine tallies_bind (tallies_of_silent keeps_declaration silent_declaration) fun d => ?_
    split
    · refine triple_bind (triple_currentDeclaration hschema) fun current =>
        triple_fact fun _ => ?_
      refine tallies_bind tallies_checkFragmentAssignment fun _ => ?_
      refine tallies_bind (tallies_pushObjectType ⟨value, symbol, hsymbol, rfl⟩) fun _ => ?_
      refine tallies_bind (tallies_parseDirectives hschema) fun _ => tallies_bind hset fun _ => ?_
      exact tallies_bind tallies_finishSpan fun _ => tallies_pure
    · exact hskip (by decide)
  · exact hskip (by decide)

theorem tallies_parseFragmentSpread {fuel : Nat} : Tallies schema (parseFragmentSpread fuel) := by
  have hadd : ∀ {name top}, Tallies schema (modifyMembers fun m =>
      { m with forwardFragmentReferences := m.forwardFragmentReferences ++ [(name, top)] }) :=
    fun {_ _} => tallies_of_silent (keeps_modifyMembers fun _ =>
      ⟨rfl, rfl, rfl, rfl, rfl, List.prefix_append _ _, fun _ => rfl⟩) silent_modifyMembers
  refine tallies_bind tallies_createSpan fun _ => tallies_bind tallies_getTokenValue fun _ => ?_
  refine tallies_bind tallies_createName fun name => ?_
  refine triple_bind triple_topOfStack fun top => triple_fact fun _ => ?_
  exact tallies_bind hadd fun _ => tallies_bind (tallies_parseDirectives hschema) fun _ =>
    tallies_pure

include hset in
theorem tallies_parseFragment {fuel startPosition : Nat} :
    Tallies schema (parseFragment fuel startPosition selectionSet) := by
  refine tallies_bind tallies_takeToken fun token => ?_
  split
  · exact tallies_parseInlineFragment hschema hset
  split
  · exact tallies_parseFragmentSpread hschema
  · exact tallies_bind (tallies_addDiagnostic (by decide)) fun _ =>
      tallies_bind tallies_skipBlock fun _ => tallies_pure

omit hschema in
include hset in
theorem tallies_parseFieldSelections {definition : FieldDefinition}
    {field : Option SelectionSet → Selection} :
    Tallies schema (parseFieldSelections definition selectionSet field) := by
  refine tallies_bind (tallies_of_silent keeps_typeNode silent_typeNode) fun type => ?_
  split
  · refine tallies_bind tallies_follow fun name => ?_
    refine triple_bind (triple_found (Q := fun symbol =>
      IsDeclared schema (some symbol.declaration)) fun s symbol hs hsymbol => ?_) fun symbol =>
        triple_fact fun hsymbol => ?_
    · exact ⟨_, symbol, hs.symbols ▸ hsymbol, rfl⟩
    · exact tallies_bind (tallies_pushObjectType hsymbol) fun _ => tallies_bind hset fun _ =>
        tallies_pure
  · exact tallies_bind (tallies_of_silent keeps_getTypeName silent_getTypeName) fun _ =>
      tallies_bind (tallies_addDiagnostic (by decide)) fun _ =>
        tallies_bind tallies_skipToNextPrimaryToken fun _ => tallies_pure

include hset in
theorem tallies_parseField {fuel : Nat} : Tallies schema (parseField fuel selectionSet) := by
  refine tallies_bind tallies_getTokenValue fun value => ?_
  refine triple_bind (triple_currentDeclaration hschema) fun current =>
    triple_fact fun hcomplete => ?_
  have hcurrent : Triple (Tally schema) (currentFields current) (fun fields s =>
      current.objectFields? = some fields ∧ Tally schema s) fun _ _ => True :=
    triple_bind (tallies_of_silent (keeps_recordStep fun _ => rfl) (silent_recordStep rfl))
      fun _ => triple_found fun _ _ _ h => h
  refine triple_bind hcurrent fun fields => triple_fact fun hfields => ?_
  have hwf := hcomplete.objectFields hfields
  split
  · exact tallies_bind tallies_follow fun _ =>
      tallies_bind (tallies_addDiagnostic (by decide)) fun _ =>
        tallies_bind tallies_skipTo fun _ => tallies_pure
  next definition hdefinition =>
  obtain ⟨-, -, harguments⟩ := hwf _ _ hdefinition
  refine tallies_bind tallies_createSpan fun _ => tallies_bind tallies_createName fun _ => ?_
  refine tallies_bind tallies_parseFieldName fun names => ?_
  refine tallies_bind (tallies_parseFieldArguments hschema harguments) fun arguments => ?_
  refine tallies_bind (tallies_parseDirectives hschema) fun _ => ?_
  refine tallies_bind tallies_scanOptional fun nested => tallies_bind tallies_recordAlias fun _ => ?_
  split
  · exact tallies_parseFieldSelections hset
  · exact tallies_pure

end Turns

section Documents

variable (hschema : Constructed schema)
include hschema

theorem tallies_selectionSets (fuel : Nat) :
    (∀ span selections, Tallies schema (parseSelections fuel span selections)) ∧
      Tallies schema (parseSelectionSet fuel) ∧
      Tallies schema (parseSelectionSetAfterOpenBrace fuel) := by
  induction fuel with
  | zero => exact ⟨fun _ _ => tallies_stop, tallies_stop, tallies_stop⟩
  | succ fuel ih =>
    obtain ⟨ihSelections, ihSet, ihAfter⟩ := ih
    refine ⟨fun span selections => ?_, ?_, ?_⟩
    · unfold parseSelections
      refine tallies_bind tallies_read fun start => tallies_bind tallies_takeNextToken fun token => ?_
      split
      · refine tallies_bind (tallies_parseFragment hschema ihSet) fun turn => ?_
        split
        · exact ihSelections _ _
        · exact ihSelections _ _
        · exact tallies_pure
      · refine tallies_bind (tallies_parseField hschema ihAfter) fun turn => ?_
        split
        · exact ihSelections _ _
        · exact ihSelections _ _
        · exact tallies_pure
      · exact tallies_bind tallies_popObjectType fun _ => tallies_bind tallies_finishSpan fun _ =>
          tallies_pure
      · refine tallies_bind ?_ fun _ => tallies_pure
        unfold reportEndOfSelections
        split <;> exact tallies_addDiagnostic (by decide)
      · exact tallies_bind (tallies_addDiagnostic (by decide)) fun _ =>
          tallies_bind tallies_finishSpan fun _ => tallies_pure
    · unfold parseSelectionSet
      refine tallies_bind tallies_scanExpected fun brace => ?_
      split
      · exact ihAfter
      · exact tallies_pure
    · unfold parseSelectionSetAfterOpenBrace
      exact tallies_bind tallies_createSpan fun _ => ihSelections _ _

omit hschema in
/-- The variables of an operation have no arguments. -/
theorem tallies_parseOperationHead {fuel : Nat} : Tallies schema (parseOperationHead fuel) :=
  tallies_of_silent keeps_parseOperationHead keptByValues_silent.keeps_parseOperationHead.keeps

theorem tallies_parseOperationDefinition {fuel : Nat} {operationType : OperationType} :
    Tallies schema (parseOperationDefinition fuel operationType) := by
  refine tallies_bind tallies_createSpan fun _ => tallies_bind tallies_parseOperationHead fun _ => ?_
  refine tallies_bind (tallies_parseDirectives hschema) fun _ => ?_
  refine tallies_bind (tallies_selectionSets hschema fuel).2.1 fun set => ?_
  split <;> exact tallies_pure

theorem tallies_parseFragmentDefinition {fuel : Nat} :
    Tallies schema (parseFragmentDefinitionAfterFragmentKeyword fuel) := by
  have hduplicate : ∀ {name fragment}, Tallies schema (reportDuplicateFragment name fragment) := by
    intro name fragment
    refine tallies_of_silent keeps_reportDuplicateFragment
      (keeps_bind (silent_recordStep rfl) fun _ => keeps_bind silent_read fun _ => ?_)
    split
    · refine keeps_bind (silent_addDiagnostic (by decide)) fun _ => keeps_bind silent_read fun _ => ?_
      exact keeps_when (silent_reportAt (by decide))
    · exact silent_modifyMembers
  refine tallies_bind tallies_createSpan fun _ => tallies_bind tallies_scanExpected fun named => ?_
  split
  case isFalse => exact tallies_pure
  refine tallies_bind tallies_getTokenValue fun _ => tallies_bind tallies_createName fun _ => ?_
  refine tallies_bind hduplicate fun _ => tallies_bind tallies_scanExpected fun on => ?_
  split
  case isFalse => exact tallies_pure
  refine tallies_bind tallies_scanExpected fun typed => ?_
  split
  case isFalse => exact tallies_pure
  refine tallies_bind tallies_getTokenValue fun typeValue => ?_
  refine triple_bind (triple_readMember fun _ hs => hs.symbols) fun symbols =>
    triple_fact fun heq => ?_
  subst heq
  split
  · exact tallies_bind (tallies_addDiagnostic (by decide)) fun _ => tallies_pure
  next symbol hsymbol =>
  refine tallies_bind tallies_createName fun typeName => ?_
  refine tallies_bind (tallies_of_silent keeps_declaration silent_declaration) fun d => ?_
  refine tallies_bind ?_ fun _ => ?_
  · unfold checkFragmentType
    split
    · exact tallies_pure
    · exact tallies_addDiagnostic (by decide)
  refine tallies_bind (tallies_pushObjectType ⟨typeValue, symbol, hsymbol, rfl⟩) fun _ => ?_
  refine tallies_bind (tallies_parseDirectives hschema) fun _ => ?_
  refine tallies_bind (tallies_selectionSets hschema fuel).2.1 fun set => ?_
  split
  · exact tallies_bind tallies_skipBlock fun _ => tallies_pure
  · exact tallies_pure

theorem tallies_parsePrimaryToken {fuel : Nat} {token : GraphQlToken} :
    Tallies schema (parsePrimaryToken fuel token) := by
  have hunsupported : ∀ {template}, template ≠ .missingRequiredArgument0 → Tallies schema (do
      addDiagnostic template []
      skipToNextPrimaryToken
      return none : ExecutorM (Option PrimaryDefinition)) := fun {_} h =>
    tallies_bind (tallies_addDiagnostic h) fun _ =>
      tallies_bind tallies_skipToNextPrimaryToken fun _ => tallies_pure
  obtain ⟨schema?, hroots⟩ := hschema.roots
  have hquery := isDeclared_query hschema
  unfold parsePrimaryToken
  split
  · refine triple_bind (triple_readMember fun _ hs => hs.query) fun query => triple_fact fun h => ?_
    subst h
    exact tallies_bind (tallies_pushObjectType hquery) fun _ =>
      tallies_parseOperationDefinition hschema
  · refine triple_bind (triple_readMember fun _ hs => hs.mutation) fun mutation =>
      triple_fact fun h => ?_
    subst h
    split
    · exact hunsupported (by decide)
    · next hsome =>
      exact tallies_bind (tallies_pushObjectType (isDeclared_of_root hroots.mutation hsome))
        fun _ => tallies_parseOperationDefinition hschema
  · refine triple_bind (triple_readMember fun _ hs => hs.subscription) fun subscription =>
      triple_fact fun h => ?_
    subst h
    split
    · exact hunsupported (by decide)
    · next hsome =>
      exact tallies_bind (tallies_pushObjectType (isDeclared_of_root hroots.subscription hsome))
        fun _ => tallies_parseOperationDefinition hschema
  · refine triple_bind (triple_readMember fun _ hs => hs.query) fun query => triple_fact fun h => ?_
    subst h
    refine tallies_bind (tallies_pushObjectType hquery) fun _ => ?_
    refine tallies_bind tallies_createSpan fun _ =>
      tallies_bind (tallies_selectionSets hschema fuel).2.2 fun set => ?_
    split <;> exact tallies_pure
  · exact tallies_parseFragmentDefinition hschema
  · exact tallies_bind (tallies_addDiagnostic (by decide)) fun _ => tallies_pure

theorem tallies_parseDefinitions (fuel : Nat) (token : GraphQlToken)
    (document : ExecutableDefinition) : Tallies schema (parseDefinitions fuel token document) := by
  induction fuel generalizing token document with
  | zero => exact tallies_stop
  | succ fuel ih =>
    unfold parseDefinitions
    split
    · exact tallies_pure
    refine tallies_bind (tallies_parsePrimaryToken hschema) fun definition => ?_
    refine tallies_bind tallies_takeToken fun token => ?_
    split <;> exact ih _ _

theorem tallies_execute (query : Ustring) : Tallies schema (execute query) := by
  refine tallies_bind tallies_takeToken fun token => tallies_bind tallies_createSpan fun span => ?_
  refine tallies_bind (tallies_parseDefinitions hschema _ _ _) fun document => ?_
  refine tallies_bind (tallies_bind tallies_read fun references =>
    triple_forM fun reference _ => ?_) fun _ => tallies_bind tallies_read fun _ => tallies_pure
  obtain ⟨name, current⟩ := reference
  simp only [checkForwardFragmentReference]
  split
  · exact tallies_bind tallies_getLocationFromSyntax fun _ => tallies_addDiagnosticAt (by decide)
  · refine tallies_bind tallies_follow fun _ =>
      tallies_bind (tallies_of_silent keeps_findSymbol silent_deref) fun _ => ?_
    refine tallies_bind (tallies_of_silent keeps_declaration silent_declaration) fun _ => ?_
    refine tallies_bind tallies_follow fun _ => ?_
    exact tallies_bind (tallies_of_silent keeps_declaration silent_declaration) fun _ =>
      tallies_checkFragmentAssignment

omit hschema in
theorem tally_addSchema (query : Ustring) : Tally schema (addSchema schema query) :=
  ⟨rfl, rfl, rfl, rfl, rfl, rfl, fun _ h => absurd h List.not_mem_nil, .rfl, .nil⟩

end Documents

/-! ## Required arguments are enforced -/

/-- The reports of missing arguments are those of the arguments that are left out although their type
is non-null as a whole, one for each, in the order of the uses. -/
def EnforcesRequired (schema : GraphQlSchema) (executor : GraphQlExecutor) : Prop :=
  List.Forall₂ (IsReportOf executor) (missingArguments executor.diagnostics)
    ((argumentUses [] executor.steps).filter (·.isMissing schema.pool.types))

/-- A required argument that is left out although nothing is reported: the use has no parentheses, or
a list literal was read before for a type that is no list. -/
def ArgumentUse.isOverlooked (types : List TypeNode) (use : ArgumentUse) : Bool :=
  use.isMissing types && (use.supplied.isNone || use.type.any fun id =>
    types[id]?.any fun type =>
      !type.isListType && !type.isNonNullList && use.before.any (·.opens id))

theorem isMissing_of_isReported {types : List TypeNode} {use : ArgumentUse}
    (h : use.isReported types = true) : use.isMissing types = true := by
  rw [ArgumentUse.isReported, Bool.and_eq_true, Bool.and_eq_true, Option.any_eq_true] at h
  obtain ⟨-, hout, id, hid, htype⟩ := h
  rw [Option.any_eq_true] at htype
  obtain ⟨type, htype, hrequired⟩ := htype
  rw [ArgumentUse.isMissing, Bool.and_eq_true, Option.any_eq_true]
  refine ⟨hout, id, hid, (Option.any_eq_true ..).2 ⟨type, htype, ?_⟩⟩
  rw [isRequired_eq_true] at hrequired ⊢
  rcases hrequired with ⟨hnonNull, hlist⟩ | hnonNullList
  · exact .inl ⟨hnonNull, (Bool.or_eq_false_iff.1 hlist).1⟩
  · exact .inr hnonNullList

/-- The flags of a type after the steps make no difference to a required argument, unless the type is
no list and a list literal was read for it. -/
theorem isRequired_marked_iff {steps : List Step} {id : TypeId} {type : TypeNode}
    (h : type.isRequired = true) : (marked steps id type).isRequired = true ↔
      (!type.isListType && !type.isNonNullList && steps.any (·.opens id)) = false := by
  revert h
  simp only [TypeNode.isRequired, marked]
  cases type.isNonNull <;> cases type.isListType <;> cases type.isNonNullList <;>
    cases steps.any (·.opens id) <;> decide

theorem isOverlooked_eq_false_iff {types : List TypeNode} {use : ArgumentUse} :
    use.isOverlooked types = false ↔
      (use.isMissing types = true → use.isReported types = true) := by
  rw [ArgumentUse.isOverlooked]
  cases hmissing : use.isMissing types with
  | false => simp
  | true =>
    rw [ArgumentUse.isMissing, Bool.and_eq_true, Option.any_eq_true] at hmissing
    obtain ⟨hout, id, hid, hany⟩ := hmissing
    rw [Option.any_eq_true] at hany
    obtain ⟨type, htype, hrequired⟩ := hany
    rw [ArgumentUse.isReported, hout, hid]
    simp only [Option.any_some, htype, Bool.true_and, true_implies, Bool.and_eq_true,
      Bool.or_eq_false_iff, isRequired_marked_iff hrequired]
    cases use.supplied <;> simp

theorem reports_of_run {source query : Ustring} {document : ExecutableDefinition}
    {executor : GraphQlExecutor} (haccepts : GraphQlSchema.Accepts source schema)
    (h : run schema query = .ok document executor) : Tally schema executor := by
  have hrun := tallies_execute (constructed_of_accepts haccepts) query _ (tally_addSchema query)
  rw [show (execute query).run (addSchema schema query) = .ok document executor from h] at hrun
  exact hrun

theorem enforcesRequired_iff {source query : Ustring} {document : ExecutableDefinition}
    {executor : GraphQlExecutor} (haccepts : GraphQlSchema.Accepts source schema)
    (h : run schema query = .ok document executor) :
    EnforcesRequired schema executor ↔ ∀ use ∈ argumentUses [] executor.steps,
      use.isOverlooked schema.pool.types = false := by
  have hiff := (forall₂_filter_iff fun use _ => isMissing_of_isReported).1
    (reports_of_run haccepts h).reports
  simp only [isOverlooked_eq_false_iff]
  exact hiff

/-- The state in which the directives of a schema are checked. -/
def beforeDirectives (source : Ustring) : GraphQlSchema :=
  (do
    let schema? ← GraphQlSchema.parseDocument source
    let schema ← GraphQlSchema.schemaOrEmpty schema?
    GraphQlSchema.setRootTypes schema
    GraphQlSchema.checkForwardReferences : SchemaM Unit).run
      (GraphQlSchema.initial source) |>.state

end GraphQlExecutor

end Flashpoint
