import Flashpoint.Executor.Execute
import Flashpoint.Reports
import Flashpoint.Scanner.Progress

/-!
# What the operations keep, a run keeps

A relation between the states of a run that is kept by the single operations of the executor is kept
by the readers of values (`KeptByValues`), when the reports of arguments, directives and fragments keep
it too, by the readers of arguments and directives (`KeptByParts`), and when it does not look at the
stack, by `execute` (`KeptByOperations`). A second relation is for the runs that stop. The relations
meant here do not look at the nodes; what they may look at is the scanner, the diagnostics, the recorded
steps, the duplicate fields, the fragments and the stack.
-/

namespace Flashpoint

open Library Climb

/-- The step is not about the fields of an object literal, arguments, directives, fragments or the
stack. -/
def Step.isPlain : Step → Bool
  | .repeatField _ => false
  | .objectValue _ => false
  | .useArguments _ _ _ => false
  | .repeatDirective _ => false
  | .defineFragment _ _ => false
  | .readStack _ => false
  | _ => true

/-- The template is not that of a duplicate or of missing arguments. -/
def D.isPlain : D → Bool
  | .duplicateField0 => false
  | .missingRequiredArgument0 => false
  | .duplicateArgument0 => false
  | .duplicateFragment0 => false
  | _ => true

namespace GraphQlExecutor

open ParserM

/-- Where a name stands again among the fields, after those parsed before, it was recorded. -/
def RepeatsRecorded (steps : List Step) : List Ustring → List ObjectField → Prop
  | _, [] => True
  | parsed, field :: fields =>
    (field.name.identifier ∈ parsed → .repeatField field.name.identifier ∈ steps) ∧
      RepeatsRecorded steps (parsed ++ [field.name.identifier]) fields

/-- The members that an operation changes only where it is said below. -/
structure SameMembers (m m' : ExecutorMembers) : Prop where
  duplicateFields : m'.duplicateFields = m.duplicateFields
  fragments : m'.fragments = m.fragments
  duplicateFragments : m'.duplicateFragments = m.duplicateFragments
  currentObjectTypes : m'.currentObjectTypes = m.currentObjectTypes

/-- The operations that read values keep the relation. The fields of a literal that ends were
recorded where they stand again. -/
structure KeptByValues (R E : GraphQlExecutor → GraphQlExecutor → Prop) : Prop where
  scan : ∀ (s : GraphQlExecutor) (scanner : GraphQlScanner), s.scanner.Advances scanner →
    R s { s with scanner }
  update : ∀ s s' : GraphQlExecutor, s'.scanner = s.scanner → s'.diagnostics = s.diagnostics →
    s'.steps = s.steps → SameMembers s.members s'.members → R s s'
  report : ∀ (s : GraphQlExecutor) (d : DiagnosticMessage), d.template.isPlain = true →
    R s { s with diagnostics := s.diagnostics ++ [d] }
  record : ∀ (s : GraphQlExecutor) (step : Step), step.isPlain = true →
    R s { s with steps := s.steps ++ [step] }
  addDuplicateField : ∀ name, KeepsOr R E (addDuplicateField name)
  reportDuplicateFields : ∀ (fields : List ObjectField) (s : GraphQlExecutor),
    RepeatsRecorded s.steps [] fields → Relates R E s ((reportDuplicateFields fields).run s)

/-- The operations that do not change the stack keep the relation. The name of a fragment is the token
just taken. -/
structure KeptByParts (R E : GraphQlExecutor → GraphQlExecutor → Prop) : Prop
    extends KeptByValues R E where
  recordArguments : ∀ definitions supplied target,
    KeepsOr R E (recordArguments definitions supplied target)
  reportMissingArguments : ∀ definitions arguments target,
    KeepsOr R E (reportMissingArguments definitions arguments target)
  addDirective : ∀ directive directives, KeepsOr R E (addDirective directive directives)
  reportDuplicateFragment : ∀ (name : Name) (fragment : FragmentDefinition) (s : GraphQlExecutor),
    name.span = ⟨s.scanner.startPosition, s.scanner.position⟩ → fragment.name = name →
      Relates R E s ((reportDuplicateFragment name fragment).run s)

/-- All the operations keep the relation. -/
structure KeptByOperations (R E : GraphQlExecutor → GraphQlExecutor → Prop) : Prop
    extends KeptByParts R E where
  restack : ∀ (s : GraphQlExecutor) (types : List (Option DeclarationId)),
    R s { s with members := { s.members with currentObjectTypes := types } }
  readStack : ∀ height, KeepsOr R E (recordStep (.readStack height))

/-! ## The fields of a literal -/

theorem repeatField_mem_addDuplicateField {name : Ustring} {s s' : GraphQlExecutor}
    (hrun : (addDuplicateField name).run s = .ok () s') : .repeatField name ∈ s'.steps := by
  obtain rfl := (Outcome.ok.inj hrun).2
  exact List.mem_append_right _ (List.mem_singleton.2 rfl)

/-- Steps that are recorded stay. -/
theorem steps_prefix {α : Type} {m : ExecutorM α} {s s' : GraphQlExecutor} {a : α}
    (hrun : m.run s = .ok a s') : s.steps <+: s'.steps := by
  have hle := m.le_run s
  rw [hrun] at hle
  exact hle.2

/-- The loop over the fields of a literal records each name that it parses again. -/
theorem repeatsRecorded_parseObjectFields {fuel : Nat} {inputObject : InputObject}
    {typeName : Ustring} {parsed : List Ustring} {s s' : GraphQlExecutor}
    {fields : List ObjectField}
    (hrun : (parseObjectFields fuel inputObject typeName parsed).run s = .ok (some fields) s') :
    RepeatsRecorded s'.steps parsed fields := by
  induction fuel generalizing parsed s s' fields with
  | zero => cases hrun
  | succ fuel ih =>
    have hend : ∀ {s : GraphQlExecutor},
        (pure (some []) : ExecutorM (Option (List ObjectField))).run s = .ok (some fields) s' →
        RepeatsRecorded s'.steps parsed fields := by
      intro s hpure
      obtain rfl := Option.some.inj (Outcome.ok.inj hpure).1
      trivial
    unfold parseObjectFields at hrun
    obtain ⟨token, s₁, -, hrun⟩ := run_bind_eq_ok.1 hrun
    split at hrun
    · exact hend hrun
    split at hrun
    · obtain ⟨_, s₂, -, hrun⟩ := run_bind_eq_ok.1 hrun
      obtain ⟨t, s₃, -, hrun⟩ := run_bind_eq_ok.1 hrun
      split at hrun
      · exact ih hrun
      · exact hend hrun
    obtain ⟨value, s₂, -, hrun⟩ := run_bind_eq_ok.1 hrun
    obtain ⟨definitions, s₃, -, hrun⟩ := run_bind_eq_ok.1 hrun
    split at hrun
    · obtain ⟨_, s₄, -, hrun⟩ := run_bind_eq_ok.1 hrun
      obtain ⟨_, s₅, -, hrun⟩ := run_bind_eq_ok.1 hrun
      exact ih hrun
    next definition hdefinition =>
    obtain ⟨_, s₄, hduplicate, hrun⟩ := run_bind_eq_ok.1 hrun
    have hlater := steps_prefix hrun
    obtain ⟨span, s₅, -, hrun⟩ := run_bind_eq_ok.1 hrun
    obtain ⟨name, s₆, hname, hrun⟩ := run_bind_eq_ok.1 hrun
    obtain rfl : name.identifier = value := by
      obtain ⟨_, _, -, hpure⟩ := run_bind_eq_ok.1 hname
      exact congrArg Name.identifier (Outcome.ok.inj hpure).1.symm
    obtain ⟨colon, s₇, -, hrun⟩ := run_bind_eq_ok.1 hrun
    split at hrun
    · obtain ⟨_, s₈, -, hrun⟩ := run_bind_eq_ok.1 hrun
      obtain ⟨fieldValue, s₉, -, hrun⟩ := run_bind_eq_ok.1 hrun
      obtain ⟨rest, s₁₀, hrest, hpure⟩ := run_bind_eq_ok.1 hrun
      obtain ⟨hfields, rfl⟩ := Outcome.ok.inj hpure
      cases rest with
      | none => cases hfields
      | some rest =>
        obtain rfl := Option.some.inj hfields
        refine ⟨fun (hmem : name.identifier ∈ parsed) => hlater.subset ?_, ih hrest⟩
        rw [when, if_pos hmem] at hduplicate
        exact repeatField_mem_addDuplicateField hduplicate
    · cases (Outcome.ok.inj hrun).1

/-- Where a relation is kept by what is recorded and reported of the fields of a literal. -/
theorem keepsOr_reportDuplicateFields {R E : GraphQlExecutor → GraphQlExecutor → Prop}
    [IsPreorder GraphQlExecutor R] [StopsAfter R E] {fields : List ObjectField}
    (hrecord : KeepsOr R E (recordStep (.objectValue
      (fields.map fun field => (field.name.identifier, field.name.span)))))
    (hreport : ∀ location arguments,
      KeepsOr R E (addDiagnosticAt location .duplicateField0 arguments)) :
    KeepsOr R E (reportDuplicateFields fields) := by
  refine keepsOr_bind hrecord fun _ => ?_
  refine keepsOr_bind (keepsOr_bind keepsOr_get fun _ => keepsOr_pure) fun _ => ?_
  refine keepsOr_forM fun _ _ => keepsOr_forM fun _ _ => keepsOr_when ?_
  exact keepsOr_bind keepsOr_require fun _ => hreport _ _

namespace KeptByValues

variable {R E : GraphQlExecutor → GraphQlExecutor → Prop} {α : Type}

/-! ## The operations of the parser -/

section Steps

variable (h : KeptByValues R E)
include h

theorem keeps_scan {f : GraphQlScanner → α × GraphQlScanner}
    (hf : ∀ s : GraphQlScanner, s.Advances (f s).2) : KeepsOr R E (ParserM.scan f : ExecutorM α) :=
  keepsOr_step fun s => h.scan s _ (hf s.scanner)

theorem keeps_update {f : GraphQlExecutor → GraphQlExecutor}
    (hscanner : ∀ s, (f s).scanner = s.scanner)
    (hmembers : ∀ s, SameMembers s.members (f s).members) : KeepsOr R E (ParserM.update f) :=
  keepsOr_step fun s => h.update s _ (hscanner s) rfl rfl (hmembers s)

theorem keeps_modifyMembers {f : ExecutorMembers → ExecutorMembers}
    (hf : ∀ m, SameMembers m (f m)) : KeepsOr R E (modifyMembers f) :=
  h.keeps_update (fun _ => rfl) fun s => hf s.members

theorem keeps_modifyType {id : TypeId} {f : TypeNode → TypeNode} :
    KeepsOr R E (modifyType id f : ExecutorM Unit) :=
  h.keeps_update (fun _ => rfl) fun _ => ⟨rfl, rfl, rfl, rfl⟩

theorem keeps_recordStep {step : Step} (hstep : step.isPlain = true) :
    KeepsOr R E (recordStep step : ExecutorM Unit) :=
  keepsOr_step fun s => h.record s step hstep

theorem keeps_addDiagnosticAt {location : Location} {template : D} {arguments : List Ustring}
    (htemplate : template.isPlain = true) :
    KeepsOr R E (addDiagnosticAt location template arguments : ExecutorM Unit) :=
  keepsOr_step fun s => h.report s ⟨template, arguments, location⟩ htemplate

theorem keeps_takeNextToken {treatKeywordAsName skipWhiteSpace : Bool} :
    KeepsOr R E (takeNextToken treatKeywordAsName skipWhiteSpace : ExecutorM GraphQlToken) :=
  h.keeps_scan fun s => (s.scans_takeNextToken _ _).toAdvances

theorem keeps_takeToken : KeepsOr R E (takeToken : ExecutorM GraphQlToken) := h.keeps_takeNextToken

theorem keeps_skipTo {tokens : List GraphQlToken} :
    KeepsOr R E (skipTo tokens : ExecutorM GraphQlToken) :=
  h.keeps_scan fun s => s.advances_skipTo _

theorem keeps_skipBlock : KeepsOr R E (skipBlock : ExecutorM Unit) :=
  h.keeps_scan fun s => s.advances_skipBlock

end Steps

variable [IsPreorder GraphQlExecutor R] [StopsAfter R E]

variable (h : KeptByValues R E)
include h

omit h in
theorem keeps_read (_ : KeptByValues R E) {f : GraphQlExecutor → α} : KeepsOr R E (ParserM.read f) :=
  keepsOr_bind keepsOr_get fun _ => keepsOr_pure

theorem keeps_createName {identifier : Ustring} :
    KeepsOr R E (createName identifier : ExecutorM Name) :=
  keepsOr_bind h.keeps_read fun _ => keepsOr_pure

omit h in
theorem keeps_getTypeName (_ : KeptByValues R E) {type : TypeNode} : KeepsOr R E (getTypeName type : ExecutorM Ustring) := by
  refine keepsOr_bind ?_ fun _ => keepsOr_pure
  unfold typeNameText
  split
  all_goals first
    | exact keepsOr_pure
    | exact keepsOr_bind keepsOr_require fun _ => keepsOr_pure
    | exact keepsOr_stop

theorem keeps_addDiagnostic {template : D} {arguments : List Ustring}
    (htemplate : template.isPlain = true) :
    KeepsOr R E (addDiagnostic template arguments : ExecutorM Unit) :=
  keepsOr_bind h.keeps_read fun _ => h.keeps_addDiagnosticAt htemplate

/-- Where a relation is kept by what is recorded and reported of a repeated directive. -/
theorem keeps_addDirective (hrecord : ∀ name, KeepsOr R E (recordStep (.repeatDirective name)))
    (hreport : ∀ location arguments, KeepsOr R E (addDiagnosticAt location .duplicateArgument0 arguments))
    (directive : Directive) (directives : UstringMap Directive) :
    KeepsOr R E (addDirective directive directives) := by
  refine keepsOr_bind (h.keeps_update (fun _ => rfl) fun _ => ⟨rfl, rfl, rfl, rfl⟩) fun _ => ?_
  split
  · exact keepsOr_pure
  · refine keepsOr_bind (hrecord _) fun _ => ?_
    exact keepsOr_bind (keepsOr_bind h.keeps_read fun _ => hreport _ _) fun _ => keepsOr_pure

omit h in
/-- Where a relation is kept by the report of a missing argument. -/
theorem keeps_reportMissingArguments
    (_ : KeptByValues R E) (hreport : ∀ location arguments,
      KeepsOr R E (addDiagnosticAt location .missingRequiredArgument0 arguments))
    {definitions : UstringMap InputValueDefinition} {arguments : UstringMap Argument}
    {target : Span} : KeepsOr R E (reportMissingArguments definitions arguments target) := by
  refine keepsOr_forM fun _ _ => keepsOr_bind keepsOr_require fun _ =>
    keepsOr_bind keepsOr_require fun _ => ?_
  exact keepsOr_when (keepsOr_when (keepsOr_bind keepsOr_require fun _ => hreport _ _))

/-- Where a relation does not look at the fragments. -/
theorem keeps_reportDuplicateFragment
    (hrecord : ∀ name span, KeepsOr R E (recordStep (.defineFragment name span)))
    (hreport : ∀ location arguments, KeepsOr R E (addDiagnosticAt location .duplicateFragment0 arguments))
    (hfragments : ∀ f : ExecutorMembers → ExecutorMembers,
      (∀ m, (f m).duplicateFields = m.duplicateFields) →
        (∀ m, (f m).currentObjectTypes = m.currentObjectTypes) → KeepsOr R E (modifyMembers f))
    (name : Name) (fragment : FragmentDefinition) :
    KeepsOr R E (reportDuplicateFragment name fragment) := by
  refine keepsOr_bind (hrecord _ _) fun _ => keepsOr_bind h.keeps_read fun _ => ?_
  split
  · refine keepsOr_bind (keepsOr_bind h.keeps_read fun _ => hreport _ _) fun _ => ?_
    refine keepsOr_bind h.keeps_read fun _ => keepsOr_when ?_
    exact keepsOr_bind keepsOr_require fun _ => hreport _ _
  · exact hfragments _ (fun _ => rfl) fun _ => rfl

theorem keeps_reportAt {span : Span} {template : D} {arguments : List Ustring}
    (htemplate : template.isPlain = true) :
    KeepsOr R E (do
      let location ← getLocationFromSyntax span
      addDiagnosticAt location template arguments : ExecutorM Unit) :=
  keepsOr_bind keepsOr_require fun _ => h.keeps_addDiagnosticAt htemplate

theorem keeps_scanExpected {token : GraphQlToken} {treatKeywordAsName : Bool} :
    KeepsOr R E (scanExpected token treatKeywordAsName : ExecutorM Bool) := by
  refine keepsOr_bind h.keeps_takeNextToken fun result => ?_
  split
  · exact keepsOr_pure
  split
  · exact keepsOr_stop
  refine keepsOr_bind ?_ fun _ => keepsOr_pure
  unfold reportExpected
  split
  · exact h.keeps_addDiagnostic rfl
  · exact keepsOr_bind h.keeps_read fun _ => h.keeps_addDiagnostic rfl

theorem keeps_scanOptional {token : GraphQlToken} {treatKeywordAsName : Bool} :
    KeepsOr R E (scanOptional token treatKeywordAsName : ExecutorM Bool) :=
  keepsOr_bind (h.keeps_scan fun s => s.advances_tryScan _ _) fun _ => keepsOr_pure

theorem keeps_skipToNextPrimaryToken : KeepsOr R E skipToNextPrimaryToken :=
  keepsOr_bind h.keeps_skipTo fun _ => keepsOr_pure

theorem keeps_recordValueAhead : KeepsOr R E recordValueAhead :=
  keepsOr_bind h.keeps_read fun _ => h.keeps_recordStep rfl

/-! ## Values -/

theorem keeps_reportMismatch {literalType : Ustring} {type : TypeNode} :
    KeepsOr R E (reportMismatch literalType type) :=
  keepsOr_bind h.keeps_getTypeName fun _ => h.keeps_addDiagnostic rfl

theorem keeps_reportValueMismatch {value : Ustring} {type : TypeNode} :
    KeepsOr R E (reportValueMismatch value type) :=
  keepsOr_bind h.keeps_getTypeName fun _ => h.keeps_addDiagnostic rfl

theorem keeps_parseBooleanValue {type : TypeNode} {value : Bool} :
    KeepsOr R E (parseBooleanValue type value) :=
  keepsOr_bind (keepsOr_when h.keeps_reportMismatch) fun _ =>
    keepsOr_bind h.keeps_read fun _ => keepsOr_pure

theorem keeps_parseEnumValue {type : TypeNode} : KeepsOr R E (parseEnumValue type) := by
  refine keepsOr_bind h.keeps_read fun value => ?_
  refine keepsOr_bind (keepsOr_when h.keeps_reportValueMismatch) fun _ => ?_
  refine keepsOr_bind keepsOr_require fun name => keepsOr_bind keepsOr_require fun symbol => ?_
  refine keepsOr_bind keepsOr_require fun d => ?_
  split
  · exact keepsOr_bind (keepsOr_when (h.keeps_addDiagnostic rfl)) fun _ =>
      keepsOr_bind h.keeps_read fun _ => keepsOr_pure
  · exact keepsOr_require

theorem keeps_skipObjectValue {type : TypeNode} : KeepsOr R E (skipObjectValue type) :=
  keepsOr_bind h.keeps_read fun _ => keepsOr_bind h.keeps_read fun _ => keepsOr_bind h.keeps_skipBlock fun _ =>
    keepsOr_bind h.keeps_read fun _ => keepsOr_bind h.keeps_getTypeName fun _ =>
      keepsOr_bind (h.keeps_addDiagnosticAt rfl) fun _ => keepsOr_pure

theorem keeps_parseListLiteral {id : TypeId} {type : TypeNode} {elements : ExecutorM (List Value)}
    (helements : KeepsOr R E elements) : KeepsOr R E (parseListLiteral id type elements) := by
  have hexpect : KeepsOr R E expectCloseBracket := keepsOr_bind h.keeps_read fun _ =>
    keepsOr_when (keepsOr_bind h.keeps_read fun _ => h.keeps_addDiagnostic rfl)
  refine keepsOr_bind (keepsOr_when h.keeps_reportValueMismatch) fun _ => ?_
  refine keepsOr_bind h.keeps_read fun _ => keepsOr_bind h.keeps_modifyType fun _ => ?_
  refine keepsOr_bind helements fun _ => keepsOr_bind hexpect fun _ => ?_
  exact keepsOr_bind h.keeps_modifyType fun _ => keepsOr_bind h.keeps_read fun _ => keepsOr_pure

theorem keeps_reportMissingFields {requiredFields : List Ustring} {span : Span}
    {fields : List ObjectField} : KeepsOr R E (reportMissingFields requiredFields span fields) :=
  keepsOr_forM fun _ _ => keepsOr_when (h.keeps_reportAt rfl)

theorem keeps_parseObjectLiteral {type : TypeNode}
    {fields : InputObject → Ustring → ExecutorM (Option (List ObjectField))}
    (hfields : ∀ inputObject name, KeepsOr R E (fields inputObject name))
    (hrecorded : ∀ {inputObject name s read s'},
      (fields inputObject name).run s = .ok (some read) s' → RepeatsRecorded s'.steps [] read) :
    KeepsOr R E (parseObjectLiteral type fields) := by
  refine keepsOr_bind h.keeps_read fun span => keepsOr_bind keepsOr_require fun name => ?_
  refine keepsOr_bind keepsOr_require fun symbol => ?_
  split
  · exact keepsOr_bind (h.keeps_addDiagnostic rfl) fun _ => keepsOr_pure
  refine keepsOr_bind keepsOr_require fun d => ?_
  split
  · intro s
    refine relates_bind (hfields _ _ s) fun read s₁ hread => ?_
    cases read with
    | none => exact refl_of R s₁
    | some read =>
      refine relates_bind (h.keeps_read s₁) fun _ s₂ hspan => ?_
      obtain rfl := (Outcome.ok.inj hspan).2
      refine relates_bind (h.reportDuplicateFields read _ (hrecorded hread)) fun _ s₃ _ => ?_
      exact (keepsOr_bind h.keeps_reportMissingFields fun _ => keepsOr_pure) s₃
  · exact keepsOr_require

theorem keeps_parseScalarValue {type : TypeNode} {token : GraphQlToken} :
    KeepsOr R E (parseScalarValue type token) := by
  have hvalue : ∀ {value : Span → Ustring → Value}, KeepsOr R E (do
      let span ← createSpan
      let text ← getTokenValue
      return some (value span text) : ExecutorM (Option Value)) := fun {_} =>
    keepsOr_bind h.keeps_read fun _ => keepsOr_bind h.keeps_read fun _ => keepsOr_pure
  unfold parseScalarValue
  split
  · exact keepsOr_bind (keepsOr_when h.keeps_reportValueMismatch) fun _ =>
      keepsOr_bind h.keeps_read fun _ => keepsOr_pure
  · exact keepsOr_bind (keepsOr_when h.keeps_reportMismatch) fun _ => hvalue
  · exact keepsOr_bind (keepsOr_when h.keeps_reportMismatch) fun _ => hvalue
  · exact keepsOr_bind (keepsOr_when h.keeps_reportMismatch) fun _ => hvalue
  · exact h.keeps_parseBooleanValue
  · exact h.keeps_parseBooleanValue
  · exact h.keeps_parseEnumValue
  · exact keepsOr_bind h.keeps_read fun _ => keepsOr_bind (h.keeps_addDiagnostic rfl) fun _ =>
      keepsOr_bind h.keeps_skipTo fun _ => keepsOr_pure

theorem keeps_parseValues (fuel : Nat) :
    (∀ id, KeepsOr R E (parseValue fuel id)) ∧ (∀ id, KeepsOr R E (parseListValues fuel id)) ∧
      ∀ inputObject typeName parsed, KeepsOr R E (parseObjectFields fuel inputObject typeName parsed) := by
  induction fuel with
  | zero => exact ⟨fun _ => keepsOr_stop, fun _ => keepsOr_stop, fun _ _ _ => keepsOr_stop⟩
  | succ fuel ih =>
    obtain ⟨ihValue, ihList, ihFields⟩ := ih
    refine ⟨fun id => ?_, fun id => ?_, fun inputObject typeName parsed => ?_⟩
    · unfold parseValue
      refine keepsOr_bind h.keeps_takeToken fun token => ?_
      refine keepsOr_bind (h.keeps_update (fun _ => rfl) fun _ => ⟨rfl, rfl, rfl, rfl⟩) fun _ => ?_
      refine keepsOr_bind keepsOr_require fun type => keepsOr_bind (h.keeps_recordStep rfl) fun _ => ?_
      unfold parseValueAfterToken
      split
      · exact h.keeps_parseListLiteral (ihList id)
      · exact keepsOr_pure
      · split
        · exact h.keeps_skipObjectValue
        · exact h.keeps_parseObjectLiteral (fun inputObject name => ihFields inputObject name [])
            repeatsRecorded_parseObjectFields
      · exact h.keeps_parseScalarValue
    · unfold parseListValues
      refine keepsOr_bind (ihValue id) fun value => ?_
      split
      · exact keepsOr_pure
      · exact keepsOr_bind (ihList id) fun _ => keepsOr_pure
    · unfold parseObjectFields
      refine keepsOr_bind h.keeps_takeToken fun token => ?_
      split
      · exact keepsOr_pure
      split
      · refine keepsOr_bind (h.keeps_addDiagnostic rfl) fun _ =>
          keepsOr_bind h.keeps_skipTo fun t => ?_
        split
        · exact ihFields _ _ _
        · exact keepsOr_pure
      refine keepsOr_bind h.keeps_read fun value => keepsOr_bind keepsOr_require fun fields => ?_
      split
      · exact keepsOr_bind (h.keeps_addDiagnostic rfl) fun _ =>
          keepsOr_bind h.keeps_skipTo fun _ => ihFields _ _ _
      refine keepsOr_bind (keepsOr_when (h.addDuplicateField _)) fun _ => ?_
      refine keepsOr_bind h.keeps_read fun _ => keepsOr_bind h.keeps_createName fun _ => ?_
      refine keepsOr_bind h.keeps_scanExpected fun colon => ?_
      split
      · refine keepsOr_bind h.keeps_recordValueAhead fun _ => ?_
        exact keepsOr_bind (ihValue _) fun _ => keepsOr_bind (ihFields _ _ _) fun _ => keepsOr_pure
      · exact keepsOr_pure

/-! ## Variables -/

theorem keeps_parseType : KeepsOr R E parseType := by
  refine keepsOr_bind h.keeps_scanOptional fun isListType => keepsOr_bind h.keeps_takeToken fun _ => ?_
  refine keepsOr_bind (h.keeps_recordStep rfl) fun _ => keepsOr_bind h.keeps_scanOptional fun _ => ?_
  refine keepsOr_bind ?_ fun _ => keepsOr_bind h.keeps_read fun _ => keepsOr_bind h.keeps_read fun _ =>
    keepsOr_bind (h.keeps_update (fun _ => rfl) fun _ => ⟨rfl, rfl, rfl, rfl⟩) fun _ => keepsOr_pure
  unfold parseListTypeEnd
  split
  · exact keepsOr_bind h.keeps_scanExpected fun _ => h.keeps_scanOptional
  · exact keepsOr_pure

theorem keeps_parseVariableDefinitionsLoop (fuel : Nat) (definitions : List VariableDefinition) :
    KeepsOr R E (parseVariableDefinitionsLoop fuel definitions) := by
  induction fuel generalizing definitions with
  | zero => exact keepsOr_stop
  | succ fuel ih =>
    unfold parseVariableDefinitionsLoop
    refine keepsOr_bind h.keeps_read fun _ => keepsOr_bind h.keeps_takeToken fun token => ?_
    split
    · exact keepsOr_bind (h.keeps_recordStep rfl) fun _ => keepsOr_pure
    refine keepsOr_bind h.keeps_read fun _ => keepsOr_bind h.keeps_createName fun _ => ?_
    refine keepsOr_bind h.keeps_scanExpected fun _ => keepsOr_bind h.keeps_parseType fun type => ?_
    refine keepsOr_bind (keepsOr_bind h.keeps_scanOptional fun equal => ?_) fun _ =>
      keepsOr_bind h.keeps_scanOptional fun comma => ?_
    · split
      · exact keepsOr_bind h.keeps_recordValueAhead fun _ => (h.keeps_parseValues fuel).1 _
      · exact keepsOr_pure
    · split
      · exact ih _
      · exact keepsOr_pure

theorem keeps_parseOperationHead {fuel : Nat} : KeepsOr R E (parseOperationHead fuel) := by
  refine keepsOr_bind h.keeps_scanOptional fun named => ?_
  split
  · refine keepsOr_bind h.keeps_read fun _ => keepsOr_bind h.keeps_createName fun _ => ?_
    refine keepsOr_bind (keepsOr_bind h.keeps_scanOptional fun paren => ?_) fun _ => keepsOr_pure
    split
    · refine keepsOr_bind (keepsOr_bind h.keeps_read fun _ => ?_) fun _ =>
        keepsOr_bind h.keeps_scanExpected fun _ => keepsOr_pure
      exact keepsOr_bind (h.keeps_parseVariableDefinitionsLoop fuel []) fun _ =>
        keepsOr_bind h.keeps_read fun _ => keepsOr_pure
    · exact keepsOr_pure
  · exact keepsOr_pure

end KeptByValues

namespace KeptByParts

variable {R E : GraphQlExecutor → GraphQlExecutor → Prop} [IsPreorder GraphQlExecutor R]
  [StopsAfter R E] (h : KeptByParts R E)
include h

/-! ## Arguments and directives -/

theorem keeps_parseArgumentValue {fuel : Nat} {definition : Option InputValueDefinition} :
    KeepsOr R E (parseArgumentValue fuel definition) := by
  unfold parseArgumentValue
  split
  · exact keepsOr_bind keepsOr_require fun _ => keepsOr_bind h.keeps_recordValueAhead fun _ =>
      (h.keeps_parseValues fuel).1 _
  · exact keepsOr_bind h.keeps_skipTo fun _ => keepsOr_pure

theorem keeps_finishArguments {definitions : UstringMap InputValueDefinition}
    {arguments : UstringMap Argument} {target : Span} :
    KeepsOr R E (finishArguments definitions arguments target) := by
  refine keepsOr_bind h.keeps_read fun _ => keepsOr_bind (h.recordArguments _ _ _) fun _ => ?_
  exact keepsOr_bind (h.reportMissingArguments _ _ _) fun _ => keepsOr_pure

theorem keeps_checkDirectiveLocation {definition : DirectiveDefinition}
    {location : DirectiveLocation} {span : Span} {name : Ustring} :
    KeepsOr R E (checkDirectiveLocation definition location span name) :=
  keepsOr_when (keepsOr_bind keepsOr_require fun _ => keepsOr_bind keepsOr_require fun _ =>
    h.keeps_addDiagnosticAt rfl)

theorem keeps_parseArgument {fuel : Nat} {definitions : UstringMap InputValueDefinition}
    {directives : ExecutorM (UstringMap Directive)} (hdirectives : KeepsOr R E directives) :
    KeepsOr R E (parseArgument fuel definitions directives) := by
  refine keepsOr_bind h.keeps_read fun value => keepsOr_bind h.keeps_createName fun name => ?_
  refine keepsOr_bind h.keeps_read fun span => ?_
  refine keepsOr_bind (keepsOr_when (h.keeps_addDiagnostic rfl)) fun _ => ?_
  refine keepsOr_bind h.keeps_scanExpected fun colon => ?_
  split
  · exact keepsOr_bind h.keeps_parseArgumentValue fun _ => keepsOr_bind hdirectives fun _ => keepsOr_pure
  · exact keepsOr_bind h.keeps_skipTo fun _ => keepsOr_pure

theorem keeps_parseDirective {location : DirectiveLocation}
    {arguments : UstringMap InputValueDefinition → ExecutorM (Option (UstringMap Argument))}
    (harguments : ∀ definitions, KeepsOr R E (arguments definitions)) :
    KeepsOr R E (parseDirective location arguments) := by
  refine keepsOr_bind h.keeps_takeNextToken fun token => ?_
  split
  · exact keepsOr_bind h.keeps_read fun _ => keepsOr_bind (h.keeps_addDiagnostic rfl) fun _ =>
      keepsOr_bind h.keeps_skipToNextPrimaryToken fun _ => keepsOr_pure
  refine keepsOr_bind h.keeps_read fun span => keepsOr_bind h.keeps_read fun value => ?_
  refine keepsOr_bind h.keeps_read fun definitions => ?_
  split
  · exact keepsOr_bind keepsOr_require fun _ => keepsOr_bind (h.keeps_addDiagnosticAt rfl) fun _ =>
      keepsOr_bind h.keeps_skipTo fun _ => keepsOr_pure
  refine keepsOr_bind h.keeps_createName fun name => ?_
  refine keepsOr_bind h.keeps_checkDirectiveLocation fun _ => keepsOr_bind ?_ fun supplied => ?_
  · refine keepsOr_bind h.keeps_scanOptional fun paren => ?_
    split
    · refine keepsOr_bind (harguments _) fun supplied => ?_
      split
      · exact keepsOr_pure
      · exact keepsOr_bind h.keeps_finishArguments fun _ => keepsOr_pure
    · exact keepsOr_bind (h.recordArguments _ _ _) fun _ => keepsOr_pure
  · split <;> exact keepsOr_pure

theorem keeps_parseArgumentsAndDirectives (fuel : Nat) :
    (∀ definitions arguments, KeepsOr R E (parseArgumentsLoop fuel definitions arguments)) ∧
      ∀ location directives, KeepsOr R E (parseDirectives fuel location directives) := by
  induction fuel with
  | zero => exact ⟨fun _ _ => keepsOr_stop, fun _ _ => keepsOr_stop⟩
  | succ fuel ih =>
    obtain ⟨ihArguments, ihDirectives⟩ := ih
    refine ⟨fun definitions arguments => ?_, fun location directives => ?_⟩
    · unfold parseArgumentsLoop
      refine keepsOr_bind h.keeps_takeNextToken fun token => ?_
      split
      · exact keepsOr_bind (h.keeps_recordStep rfl) fun _ => keepsOr_pure
      refine keepsOr_bind (h.keeps_parseArgument (ihDirectives _ _)) fun argument => ?_
      split
      · exact keepsOr_pure
      · exact ihArguments _ _
    · unfold parseDirectives
      refine keepsOr_bind h.keeps_scanOptional fun found => ?_
      split
      · refine keepsOr_bind (h.keeps_parseDirective fun _ => ihArguments _ _) fun directive => ?_
        split
        · exact keepsOr_pure
        · exact keepsOr_bind (h.addDirective _ _) fun _ => ihDirectives _ _
      · exact keepsOr_pure

theorem keeps_parseDirectives {fuel : Nat} {location : DirectiveLocation}
    {directives : UstringMap Directive} : KeepsOr R E (parseDirectives fuel location directives) :=
  (h.keeps_parseArgumentsAndDirectives fuel).2 location directives

theorem keeps_parseFieldArguments {fuel : Nat} {definition : FieldDefinition} {span : Span} :
    KeepsOr R E (parseFieldArguments fuel definition span) := by
  refine keepsOr_bind h.keeps_scanOptional fun paren => ?_
  split
  · refine keepsOr_bind ((h.keeps_parseArgumentsAndDirectives fuel).1 _ _) fun arguments => ?_
    split
    · exact keepsOr_pure
    · exact keepsOr_bind h.keeps_finishArguments fun _ => keepsOr_pure
  · exact keepsOr_bind (h.recordArguments _ _ _) fun _ => keepsOr_pure

/-! ## Selections -/

theorem keeps_checkFragmentAssignment {name : Name} {object parent : Declaration} :
    KeepsOr R E (checkFragmentAssignment name object parent) := by
  refine keepsOr_bind (h.keeps_recordStep rfl) fun _ => ?_
  refine keepsOr_bind keepsOr_require fun _ => keepsOr_bind keepsOr_require fun _ => ?_
  split
  · split
    · exact keepsOr_when (h.keeps_reportAt rfl)
    · exact keepsOr_require
  · exact keepsOr_when (h.keeps_reportAt rfl)
  · exact keepsOr_when (h.keeps_reportAt rfl)
  · exact h.keeps_reportAt rfl

theorem keeps_checkForwardFragmentReference {definitions : List FragmentDefinition}
    {reference : Name × Option DeclarationId} :
    KeepsOr R E (checkForwardFragmentReference definitions reference) := by
  unfold checkForwardFragmentReference
  split
  split
  · exact h.keeps_reportAt rfl
  · refine keepsOr_bind keepsOr_require fun _ => keepsOr_bind keepsOr_require fun _ => ?_
    refine keepsOr_bind keepsOr_require fun _ => keepsOr_bind keepsOr_require fun _ => ?_
    exact keepsOr_bind keepsOr_require fun _ => h.keeps_checkFragmentAssignment

theorem keeps_parseFieldName {name : Name} : KeepsOr R E (parseFieldName name) := by
  refine keepsOr_bind h.keeps_scanOptional fun colon => ?_
  split
  · refine keepsOr_bind (keepsOr_bind h.keeps_scanExpected fun found => ?_) fun _ => keepsOr_pure
    split
    · exact keepsOr_bind h.keeps_read fun _ => keepsOr_bind h.keeps_createName fun _ => keepsOr_pure
    · exact keepsOr_pure
  · exact keepsOr_pure

theorem keeps_recordAlias {fieldAlias name : Option Name} {nested : Bool} :
    KeepsOr R E (recordAlias fieldAlias name nested) := by
  unfold recordAlias
  split
  · exact keepsOr_bind h.keeps_read fun _ => h.keeps_recordStep rfl
  · exact keepsOr_pure

/-- The name of a fragment is made, and its definition noted. -/
theorem keeps_nameFragment {value : Ustring} {span : Span} {α : Type} {rest : Name → ExecutorM α}
    (hrest : ∀ name, KeepsOr R E (rest name)) :
    KeepsOr R E (do
      let name ← createName value
      GraphQlExecutor.reportDuplicateFragment name { span, name }
      rest name) := by
  intro s
  refine relates_bind (h.keeps_createName s) fun name s₁ hname => ?_
  obtain ⟨_, _, hspan, hpure⟩ := run_bind_eq_ok.1 hname
  obtain ⟨rfl, rfl⟩ := Outcome.ok.inj hspan
  obtain ⟨rfl, rfl⟩ := Outcome.ok.inj hpure
  exact relates_bind (h.reportDuplicateFragment _ _ _ rfl rfl) fun _ s₂ _ => hrest _ s₂

end KeptByParts

namespace KeptByOperations

variable {R E : GraphQlExecutor → GraphQlExecutor → Prop} [IsPreorder GraphQlExecutor R]
  [StopsAfter R E] (h : KeptByOperations R E)
include h

theorem keeps_topObjectType : KeepsOr R E topObjectType :=
  keepsOr_bind h.keeps_read fun _ => keepsOr_bind (h.readStack _) fun _ => keepsOr_require

theorem keeps_currentObjectType : KeepsOr R E currentObjectType :=
  keepsOr_bind h.keeps_topObjectType fun _ => keepsOr_bind keepsOr_require fun _ => keepsOr_require

omit [IsPreorder GraphQlExecutor R] [StopsAfter R E] in
theorem keeps_pushObjectType {id : Option DeclarationId} : KeepsOr R E (pushObjectType id) :=
  keepsOr_step fun s => h.restack s _

theorem keeps_popObjectType : KeepsOr R E popObjectType :=
  keepsOr_bind h.keeps_topObjectType fun _ => keepsOr_step fun s => h.restack s _

section Turns

variable {selectionSet : ExecutorM (Option SelectionSet)} (hset : KeepsOr R E selectionSet)

include hset in
theorem keeps_parseInlineFragment {fuel startPosition : Nat} :
    KeepsOr R E (parseInlineFragment fuel startPosition selectionSet) := by
  have hskip : ∀ {template arguments turn}, template.isPlain = true →
      KeepsOr R E (do
        addDiagnostic template arguments
        skipBlock
        return turn : ExecutorM SelectionTurn) := fun {_ _ _} htemplate =>
    keepsOr_bind (h.keeps_addDiagnostic htemplate) fun _ => keepsOr_bind h.keeps_skipBlock fun _ =>
      keepsOr_pure
  refine keepsOr_bind h.keeps_scanExpected fun found => ?_
  split
  · refine keepsOr_bind h.keeps_read fun value => keepsOr_bind h.keeps_createName fun name => ?_
    refine keepsOr_bind h.keeps_read fun symbols => ?_
    split
    · exact hskip rfl
    refine keepsOr_bind h.keeps_read fun span => keepsOr_bind keepsOr_require fun d => ?_
    split
    · refine keepsOr_bind h.keeps_currentObjectType fun current => ?_
      refine keepsOr_bind h.keeps_checkFragmentAssignment fun _ => ?_
      refine keepsOr_bind h.keeps_pushObjectType fun _ => ?_
      refine keepsOr_bind h.keeps_parseDirectives fun _ => keepsOr_bind hset fun _ => ?_
      exact keepsOr_bind h.keeps_read fun _ => keepsOr_pure
    · exact hskip rfl
  · exact hskip rfl

theorem keeps_parseFragmentSpread {fuel : Nat} : KeepsOr R E (parseFragmentSpread fuel) := by
  refine keepsOr_bind h.keeps_read fun _ => keepsOr_bind h.keeps_read fun _ => ?_
  refine keepsOr_bind h.keeps_createName fun name => ?_
  refine keepsOr_bind h.keeps_topObjectType fun top => ?_
  refine keepsOr_bind (h.keeps_modifyMembers fun _ => ⟨rfl, rfl, rfl, rfl⟩) fun _ => ?_
  exact keepsOr_bind h.keeps_parseDirectives fun _ => keepsOr_pure

include hset in
theorem keeps_parseFragment {fuel startPosition : Nat} :
    KeepsOr R E (parseFragment fuel startPosition selectionSet) := by
  refine keepsOr_bind h.keeps_takeToken fun token => ?_
  split
  · exact h.keeps_parseInlineFragment hset
  split
  · exact h.keeps_parseFragmentSpread
  · exact keepsOr_bind (h.keeps_addDiagnostic rfl) fun _ =>
      keepsOr_bind h.keeps_skipBlock fun _ => keepsOr_pure

include hset in
theorem keeps_parseFieldSelections {definition : FieldDefinition}
    {field : Option SelectionSet → Selection} :
    KeepsOr R E (parseFieldSelections definition selectionSet field) := by
  refine keepsOr_bind keepsOr_require fun type => ?_
  split
  · refine keepsOr_bind keepsOr_require fun name => keepsOr_bind keepsOr_require fun symbol => ?_
    exact keepsOr_bind h.keeps_pushObjectType fun _ => keepsOr_bind hset fun _ => keepsOr_pure
  · exact keepsOr_bind h.keeps_getTypeName fun _ =>
      keepsOr_bind (h.keeps_addDiagnostic rfl) fun _ =>
        keepsOr_bind h.keeps_skipToNextPrimaryToken fun _ => keepsOr_pure

include hset in
theorem keeps_parseField {fuel : Nat} : KeepsOr R E (parseField fuel selectionSet) := by
  refine keepsOr_bind h.keeps_read fun value => keepsOr_bind h.keeps_currentObjectType fun current => ?_
  refine keepsOr_bind (keepsOr_bind (h.keeps_recordStep rfl) fun _ => keepsOr_require) fun fields => ?_
  split
  · exact keepsOr_bind keepsOr_require fun _ => keepsOr_bind (h.keeps_addDiagnostic rfl) fun _ =>
      keepsOr_bind h.keeps_skipTo fun _ => keepsOr_pure
  refine keepsOr_bind h.keeps_read fun _ => keepsOr_bind h.keeps_createName fun _ => ?_
  refine keepsOr_bind h.keeps_parseFieldName fun names => ?_
  refine keepsOr_bind h.keeps_parseFieldArguments fun arguments => ?_
  refine keepsOr_bind h.keeps_parseDirectives fun _ => ?_
  refine keepsOr_bind h.keeps_scanOptional fun nested => keepsOr_bind h.keeps_recordAlias fun _ => ?_
  split
  · exact h.keeps_parseFieldSelections hset
  · exact keepsOr_pure

end Turns

theorem keeps_selectionSets (fuel : Nat) :
    (∀ span selections, KeepsOr R E (parseSelections fuel span selections)) ∧
      KeepsOr R E (parseSelectionSet fuel) ∧ KeepsOr R E (parseSelectionSetAfterOpenBrace fuel) := by
  induction fuel with
  | zero => exact ⟨fun _ _ => keepsOr_stop, keepsOr_stop, keepsOr_stop⟩
  | succ fuel ih =>
    obtain ⟨ihSelections, ihSet, ihAfter⟩ := ih
    refine ⟨fun span selections => ?_, ?_, ?_⟩
    · unfold parseSelections
      refine keepsOr_bind h.keeps_read fun start => keepsOr_bind h.keeps_takeNextToken fun token => ?_
      split
      · refine keepsOr_bind (h.keeps_parseFragment ihSet) fun turn => ?_
        split
        · exact ihSelections _ _
        · exact ihSelections _ _
        · exact keepsOr_pure
      · refine keepsOr_bind (h.keeps_parseField ihAfter) fun turn => ?_
        split
        · exact ihSelections _ _
        · exact ihSelections _ _
        · exact keepsOr_pure
      · exact keepsOr_bind h.keeps_popObjectType fun _ => keepsOr_bind h.keeps_read fun _ => keepsOr_pure
      · refine keepsOr_bind ?_ fun _ => keepsOr_pure
        unfold reportEndOfSelections
        split <;> exact h.keeps_addDiagnostic rfl
      · exact keepsOr_bind (h.keeps_addDiagnostic rfl) fun _ =>
          keepsOr_bind h.keeps_read fun _ => keepsOr_pure
    · unfold parseSelectionSet
      refine keepsOr_bind h.keeps_scanExpected fun brace => ?_
      split
      · exact ihAfter
      · exact keepsOr_pure
    · unfold parseSelectionSetAfterOpenBrace
      exact keepsOr_bind h.keeps_read fun _ => ihSelections _ _

/-! ## Operations and fragments -/

theorem keeps_parseOperationDefinition {fuel : Nat} {operationType : OperationType} :
    KeepsOr R E (parseOperationDefinition fuel operationType) := by
  refine keepsOr_bind h.keeps_read fun _ => keepsOr_bind h.keeps_parseOperationHead fun _ => ?_
  refine keepsOr_bind h.keeps_parseDirectives fun _ => ?_
  refine keepsOr_bind (h.keeps_selectionSets fuel).2.1 fun set => ?_
  split <;> exact keepsOr_pure

theorem keeps_parseFragmentBody {fuel : Nat} {span : Span} {name typeName : Name} {symbol : Symbol} :
    KeepsOr R E (parseFragmentBody fuel span name typeName symbol) := by
  refine keepsOr_bind keepsOr_require fun d => keepsOr_bind ?_ fun _ => ?_
  · unfold checkFragmentType
    split
    · exact keepsOr_pure
    · exact h.keeps_addDiagnostic rfl
  refine keepsOr_bind h.keeps_pushObjectType fun _ => keepsOr_bind h.keeps_parseDirectives fun _ => ?_
  refine keepsOr_bind (h.keeps_selectionSets fuel).2.1 fun set => ?_
  split
  · exact keepsOr_bind h.keeps_skipBlock fun _ => keepsOr_pure
  · exact keepsOr_pure

theorem keeps_parseFragmentDefinition {fuel : Nat} :
    KeepsOr R E (parseFragmentDefinitionAfterFragmentKeyword fuel) := by
  refine keepsOr_bind h.keeps_read fun _ => keepsOr_bind h.keeps_scanExpected fun named => ?_
  split
  case isFalse => exact keepsOr_pure
  refine keepsOr_bind h.keeps_read fun value => h.keeps_nameFragment fun name => ?_
  refine keepsOr_bind h.keeps_scanExpected fun on => ?_
  split
  case isFalse => exact keepsOr_pure
  refine keepsOr_bind h.keeps_scanExpected fun typed => ?_
  split
  case isFalse => exact keepsOr_pure
  refine keepsOr_bind h.keeps_read fun typeValue => keepsOr_bind h.keeps_read fun symbols => ?_
  split
  · exact keepsOr_bind (h.keeps_addDiagnostic rfl) fun _ => keepsOr_pure
  · exact keepsOr_bind h.keeps_createName fun _ => h.keeps_parseFragmentBody

theorem keeps_parsePrimaryToken {fuel : Nat} {token : GraphQlToken} :
    KeepsOr R E (parsePrimaryToken fuel token) := by
  have hunsupported : ∀ {template}, template.isPlain = true → KeepsOr R E (do
      addDiagnostic template []
      skipToNextPrimaryToken
      return none : ExecutorM (Option PrimaryDefinition)) := fun {_} htemplate =>
    keepsOr_bind (h.keeps_addDiagnostic htemplate) fun _ =>
      keepsOr_bind h.keeps_skipToNextPrimaryToken fun _ => keepsOr_pure
  unfold parsePrimaryToken
  split
  · exact keepsOr_bind h.keeps_read fun _ => keepsOr_bind h.keeps_pushObjectType fun _ =>
      h.keeps_parseOperationDefinition
  · refine keepsOr_bind h.keeps_read fun mutation => ?_
    split
    · exact hunsupported rfl
    · exact keepsOr_bind h.keeps_pushObjectType fun _ => h.keeps_parseOperationDefinition
  · refine keepsOr_bind h.keeps_read fun subscription => ?_
    split
    · exact hunsupported rfl
    · exact keepsOr_bind h.keeps_pushObjectType fun _ => h.keeps_parseOperationDefinition
  · refine keepsOr_bind h.keeps_read fun _ => keepsOr_bind h.keeps_pushObjectType fun _ => ?_
    refine keepsOr_bind h.keeps_read fun _ => keepsOr_bind (h.keeps_selectionSets fuel).2.2 fun set => ?_
    split <;> exact keepsOr_pure
  · exact h.keeps_parseFragmentDefinition
  · exact keepsOr_bind (h.keeps_addDiagnostic rfl) fun _ => keepsOr_pure

theorem keeps_parseDefinitions (fuel : Nat) (token : GraphQlToken)
    (document : ExecutableDefinition) : KeepsOr R E (parseDefinitions fuel token document) := by
  induction fuel generalizing token document with
  | zero => exact keepsOr_stop
  | succ fuel ih =>
    unfold parseDefinitions
    split
    · exact keepsOr_pure
    refine keepsOr_bind h.keeps_parsePrimaryToken fun definition => ?_
    refine keepsOr_bind h.keeps_takeToken fun token => ?_
    split <;> exact ih _ _

/-- **A relation that the operations keep holds between the first and the last state of a run.** -/
theorem keeps_execute (query : Ustring) : KeepsOr R E (execute query) := by
  refine keepsOr_bind h.keeps_takeToken fun token => keepsOr_bind h.keeps_read fun span => ?_
  refine keepsOr_bind (h.keeps_parseDefinitions _ _ _) fun document => ?_
  refine keepsOr_bind (keepsOr_bind h.keeps_read fun references => keepsOr_forM fun _ _ =>
    h.keeps_checkForwardFragmentReference) fun _ => keepsOr_bind h.keeps_read fun _ => keepsOr_pure

end KeptByOperations

end GraphQlExecutor

end Flashpoint
