import Flashpoint.Executor.Operations
import Flashpoint.Reports
import Flashpoint.Schema.Definitions
import Mathlib.Data.List.Perm.Basic

/-!
# Duplicate fields of a query

The run of an executor records the object literals that it reads, and every name that stands again in
its literal. The names that stand again are kept in a member of the executor, so that a literal is
reported for all the names that stood again in any literal so far. `Judged` is the invariant that
says so; every operation keeps it, and with `KeptByOperations` every run.
-/

namespace Flashpoint

open Library Climb

namespace GraphQlExecutor

open ParserM

/-! ## The fields of the literals of a run -/

/-- A field of an object literal, with the fields of the literal and the steps before its end. -/
structure LiteralField where
  before : List Step
  fields : List (Ustring × Span)
  name : Ustring
  span : Span

/-- The fields of the literal that a step records. -/
def fieldsOf (before : List Step) : Step → List LiteralField
  | .objectValue fields => fields.map fun field => ⟨before, fields, field.1, field.2⟩
  | _ => []

/-- The fields of the literals, each with the steps before the end of its literal. -/
def literalFields (before : List Step) : List Step → List LiteralField
  | [] => []
  | step :: steps => fieldsOf before step ++ literalFields (before ++ [step]) steps

theorem literalFields_append (before steps steps' : List Step) :
    literalFields before (steps ++ steps') =
      literalFields before steps ++ literalFields (before ++ steps) steps' := by
  induction steps generalizing before with
  | nil => rw [List.nil_append, List.append_nil]; rfl
  | cons step steps ih =>
    simp only [List.cons_append, literalFields, ih, List.append_assoc, List.nil_append]

/-- The step is about the fields of an object literal. -/
def isOfFields : Step → Bool
  | .repeatField _ => true
  | .objectValue _ => true
  | _ => false

theorem fieldsOf_eq_nil {before : List Step} {step : Step} (h : isOfFields step = false) :
    fieldsOf before step = [] := by
  cases step with
  | objectValue fields => cases h
  | _ => rfl

/-- Steps that record no literal add no fields. -/
theorem literalFields_append_eq {steps : List Step} (h : ∀ step ∈ steps, ∀ before,
    fieldsOf before step = []) (before steps₀ : List Step) :
    literalFields before (steps₀ ++ steps) = literalFields before steps₀ := by
  rw [literalFields_append]
  generalize before ++ steps₀ = before'
  have hnil : literalFields before' steps = [] := by
    induction steps generalizing before' with
    | nil => rfl
    | cons step steps ih =>
      rw [literalFields, h step (List.mem_cons_self ..),
        ih fun step' hstep' => h step' (List.mem_cons_of_mem _ hstep')]
      rfl
  rw [hnil, List.append_nil]

namespace LiteralField

variable (field : LiteralField)

/-- The literal has the name at least twice. -/
def isRepeated : Bool := 2 ≤ (field.fields.map Prod.fst).count field.name

/-- The name has stood again in a literal, in this one or in one that was begun before. -/
def wasRepeated : Bool := field.before.any fun step => step = .repeatField field.name

end LiteralField

/-! ## The reports -/

def duplicateReports (diagnostics : List DiagnosticMessage) : List DiagnosticMessage :=
  diagnostics.filter fun d => d.template = .duplicateField0

/-- A report that the field of the name is a duplicate, at the name. -/
def IsDuplicateField (scanner : GraphQlScanner) (field : Ustring × Span) (d : DiagnosticMessage) :
    Prop :=
  ∃ location, scanner.getTokenLocation field.2.start field.2.stop = some location ∧
    d = ⟨.duplicateField0, [field.1], location⟩

/-- A report about the field, located by a scanner of the run. -/
def IsReportOfField (s : GraphQlExecutor) (d : DiagnosticMessage) (field : LiteralField) : Prop :=
  ∃ scanner : GraphQlScanner, scanner.Advances s.scanner ∧
    IsDuplicateField scanner (field.name, field.span) d

theorem IsReportOfField.later {s s' : GraphQlExecutor} {d : DiagnosticMessage}
    {field : LiteralField} (h : IsReportOfField s d field) (hs : s.scanner.Advances s'.scanner) :
    IsReportOfField s' d field := by
  obtain ⟨scanner, hscanner, hreport⟩ := h
  exact ⟨scanner, hscanner.trans hs, hreport⟩

/-- The reports of duplicate fields are those of the given fields, one for each. -/
def ReportsFields (s : GraphQlExecutor) (fields : List LiteralField) : Prop :=
  ∃ reports, (duplicateReports s.diagnostics).Perm reports ∧
    List.Forall₂ (IsReportOfField s) reports fields

theorem ReportsFields.length_eq {s : GraphQlExecutor} {fields : List LiteralField}
    (h : ReportsFields s fields) : (duplicateReports s.diagnostics).length = fields.length := by
  obtain ⟨reports, hperm, hreports⟩ := h
  rw [hperm.length_eq, hreports.length_eq]

/-- The state of a run: the member holds the names that stood again, and the reports are those of the
fields whose names had stood again. -/
structure Judged (s : GraphQlExecutor) : Prop where
  names : ∀ name, name ∈ s.members.duplicateFields.entries.map Prod.fst ↔
    .repeatField name ∈ s.steps
  recorded : ∀ field ∈ literalFields [] s.steps, field.isRepeated = true → field.wasRepeated = true
  reports : ReportsFields s ((literalFields [] s.steps).filter (·.wasRepeated))

/-- The invariant is kept from one state to the other. -/
def KeepsJudged (s s' : GraphQlExecutor) : Prop := Judged s → Judged s'

instance : IsPreorder GraphQlExecutor KeepsJudged where
  refl _ h := h
  trans _ _ _ h h' hs := h' (h hs)

/-- Nothing about fields was reported or recorded. -/
theorem Judged.quiet {s s' : GraphQlExecutor} (h : Judged s)
    (hscanner : s.scanner.Advances s'.scanner)
    (hdiagnostics : duplicateReports s'.diagnostics = duplicateReports s.diagnostics)
    (hnames : s'.members.duplicateFields = s.members.duplicateFields)
    (hsteps : ∃ steps, s'.steps = s.steps ++ steps ∧ ∀ step ∈ steps, isOfFields step = false) :
    Judged s' := by
  obtain ⟨steps, hsteps, hno⟩ := hsteps
  have hfields : literalFields [] s'.steps = literalFields [] s.steps := by
    rw [hsteps, literalFields_append_eq fun step hstep _ => fieldsOf_eq_nil (hno step hstep)]
  refine ⟨fun name => ?_, hfields ▸ h.recorded, ?_⟩
  · rw [hnames, h.names name, hsteps, List.mem_append]
    constructor
    · exact .inl
    · rintro (hmem | hmem)
      · exact hmem
      · cases hno _ hmem
  · obtain ⟨reports, hperm, hreports⟩ := h.reports
    rw [ReportsFields, hfields, hdiagnostics]
    exact ⟨reports, hperm, hreports.imp fun _ _ hreport => hreport.later hscanner⟩

theorem Judged.report {s : GraphQlExecutor} (h : Judged s) {d : DiagnosticMessage}
    (hd : d.template ≠ .duplicateField0) :
    Judged { s with diagnostics := s.diagnostics ++ [d] } := by
  refine h.quiet .rfl ?_ rfl ⟨[], (List.append_nil _).symm, by simp⟩
  rw [duplicateReports, List.filter_append, List.filter_cons_of_neg (by simpa using hd)]
  exact List.append_nil _

theorem Judged.record {s : GraphQlExecutor} (h : Judged s) {step : Step}
    (hstep : isOfFields step = false) : Judged { s with steps := s.steps ++ [step] } :=
  h.quiet .rfl rfl rfl ⟨[step], rfl, fun _ hmem => List.mem_singleton.1 hmem ▸ hstep⟩

/-! ## The end of a literal -/

/-- The name and the span that a literal records of a field. -/
def nameOf (field : ObjectField) : Ustring × Span := (field.name.identifier, field.name.span)

/-- Nothing but reports was added: those of the given fields. -/
structure FieldsReported (fields : List (Ustring × Span)) (s s' : GraphQlExecutor) : Prop where
  scanner : s'.scanner = s.scanner
  members : s'.members = s.members
  steps : s'.steps = s.steps
  reports : ∃ new, s'.diagnostics = s.diagnostics ++ new ∧
    List.Forall₂ (fun d field => IsDuplicateField s.scanner field d) new fields

theorem FieldsReported.refl (s : GraphQlExecutor) : FieldsReported [] s s :=
  ⟨rfl, rfl, rfl, [], (List.append_nil _).symm, .nil⟩

theorem FieldsReported.trans {fields fields' : List (Ustring × Span)} {s s' s'' : GraphQlExecutor}
    (h : FieldsReported fields s s') (h' : FieldsReported fields' s' s'') :
    FieldsReported (fields ++ fields') s s'' := by
  obtain ⟨new, hnew, hreports⟩ := h.reports
  obtain ⟨new', hnew', hreports'⟩ := h'.reports
  refine ⟨h'.scanner.trans h.scanner, h'.members.trans h.members, h'.steps.trans h.steps,
    new ++ new', ?_, List.rel_append hreports (h.scanner ▸ hreports')⟩
  rw [hnew', hnew, List.append_assoc]

/-- Report the field if it has the name of the duplicate. -/
def reportDuplicateField (duplicate : Ustring) (field : ObjectField) : ExecutorM Unit :=
  when (field.name.identifier = duplicate) do
    let location ← getLocationFromSyntax field.name.span
    addDiagnosticAt location .duplicateField0 [duplicate]

theorem reported_reportDuplicateField {duplicate : Ustring} {field : ObjectField}
    {s s' : GraphQlExecutor} (hrun : (reportDuplicateField duplicate field).run s = .ok () s') :
    FieldsReported ([nameOf field].filter fun f => f.1 = duplicate) s s' := by
  unfold reportDuplicateField when at hrun
  split at hrun
  · next hname =>
    obtain ⟨location, s₁, hget, hadd⟩ := run_bind_eq_ok.1 hrun
    obtain ⟨hlocation, hs₁⟩ := run_require_eq_ok.1 hget
    subst hs₁
    obtain rfl := (Outcome.ok.inj hadd).2
    have hfilter : ([nameOf field].filter fun f => f.1 = duplicate) = [nameOf field] :=
      List.filter_cons_of_pos (decide_eq_true (show (nameOf field).1 = duplicate from hname))
    rw [hfilter]
    refine ⟨rfl, rfl, rfl, _, rfl, .cons ⟨location, hlocation, ?_⟩ .nil⟩
    rw [nameOf, hname]
  · next hname =>
    obtain rfl := (Outcome.ok.inj hrun).2
    have hfilter : ([nameOf field].filter fun f => f.1 = duplicate) = [] :=
      List.filter_cons_of_neg fun h => hname (of_decide_eq_true h)
    rw [hfilter]
    exact .refl s

theorem reported_forFields {duplicate : Ustring} {fields : List ObjectField}
    {s s' : GraphQlExecutor}
    (hrun : (fields.forM (reportDuplicateField duplicate)).run s = .ok () s') :
    FieldsReported ((fields.map nameOf).filter fun f => f.1 = duplicate) s s' := by
  induction fields generalizing s with
  | nil =>
    obtain rfl := (Outcome.ok.inj hrun).2
    exact .refl s
  | cons field fields ih =>
    obtain ⟨_, s₁, hhead, hrest⟩ := run_bind_eq_ok.1 hrun
    have h := (reported_reportDuplicateField hhead).trans (ih hrest)
    rwa [← List.filter_append] at h

theorem reported_forDuplicates {duplicates : List (Ustring × Unit)} {fields : List ObjectField}
    {s s' : GraphQlExecutor}
    (hrun : (duplicates.forM fun duplicate =>
      fields.forM (reportDuplicateField duplicate.1)).run s = .ok () s') :
    FieldsReported ((duplicates.map Prod.fst).flatMap fun duplicate =>
      (fields.map nameOf).filter fun f => f.1 = duplicate) s s' := by
  induction duplicates generalizing s with
  | nil =>
    obtain rfl := (Outcome.ok.inj hrun).2
    exact .refl s
  | cons duplicate duplicates ih =>
    obtain ⟨_, s₁, hhead, hrest⟩ := run_bind_eq_ok.1 hrun
    exact (reported_forFields hhead).trans (ih hrest)

/-- Picked out key by key, the entries are those with one of the keys, in another order. -/
theorem flatMap_filter_perm {α κ : Type} [DecidableEq κ] (f : α → κ) {keys : List κ}
    (hkeys : keys.Nodup) {p : α → Bool} (hp : ∀ x, p x = true ↔ f x ∈ keys) (xs : List α) :
    (keys.flatMap fun k => xs.filter fun x => f x = k).Perm (xs.filter p) := by
  induction keys generalizing p with
  | nil =>
    have hnone : xs.filter p = [] := List.filter_eq_nil_iff.2 fun x _ hx => by
      cases (hp x).1 hx
    rw [hnone]
    exact .nil
  | cons k keys ih =>
    obtain ⟨hk, hkeys⟩ := List.nodup_cons.1 hkeys
    rw [List.flatMap_cons]
    refine ((ih hkeys fun x => decide_eq_true_iff).append_left _).trans ?_
    clear ih
    induction xs with
    | nil => exact .nil
    | cons x xs ih =>
      have hpx := (hp x).trans List.mem_cons
      by_cases hx : f x = k
      · simp only [List.filter_cons, hx, hk, decide_true, decide_false, hpx.2 (.inl hx), if_true,
          Bool.false_eq_true, if_false, List.cons_append]
        exact ih.cons x
      · by_cases hmem : f x ∈ keys
        · simp only [List.filter_cons, hx, hmem, decide_true, decide_false, hpx.2 (.inr hmem),
            if_true, Bool.false_eq_true, if_false]
          exact List.perm_middle.trans (ih.cons x)
        · have hnot : p x = false := Bool.eq_false_iff.2 fun h => (hpx.1 h).elim hx hmem
          simp only [List.filter_cons, hx, hmem, hnot, decide_false, Bool.false_eq_true, if_false]
          exact ih

theorem count_le_of_repeatsRecorded {steps : List Step} {name : Ustring}
    (hname : .repeatField name ∉ steps) {fields : List ObjectField} {parsed : List Ustring}
    (h : RepeatsRecorded steps parsed fields) :
    (parsed ++ (fields.map nameOf).map Prod.fst).count name ≤ max 1 (parsed.count name) := by
  induction fields generalizing parsed with
  | nil => simp
  | cons field fields ih =>
    have hrest := ih h.2
    rw [List.append_assoc] at hrest
    refine hrest.trans ?_
    rw [List.count_append, List.count_singleton]
    by_cases heq : field.name.identifier = name
    · have hnot : name ∉ parsed := fun hmem => hname (heq ▸ h.1 (heq.symm ▸ hmem))
      simp [List.count_eq_zero.2 hnot, heq]
    · simp [heq]

theorem duplicateReports_eq_self {scanner : GraphQlScanner} {reports : List DiagnosticMessage}
    {fields : List (Ustring × Span)}
    (h : List.Forall₂ (fun d field => IsDuplicateField scanner field d) reports fields) :
    duplicateReports reports = reports := by
  induction h with
  | nil => rfl
  | cons hreport _ ih =>
    obtain ⟨location, -, rfl⟩ := hreport
    exact congrArg _ ih

theorem keepsJudged_reportDuplicateFields {fields : List ObjectField} {s s' : GraphQlExecutor}
    (hrecorded : RepeatsRecorded s.steps [] fields)
    (hrun : (reportDuplicateFields fields).run s = .ok () s') : KeepsJudged s s' := by
  intro h
  obtain ⟨_, s₁, hrecord, hrun⟩ := run_bind_eq_ok.1 hrun
  obtain rfl := (Outcome.ok.inj hrecord).2
  obtain ⟨duplicates, s₂, hread, hrun⟩ := run_bind_eq_ok.1 hrun
  obtain ⟨rfl, rfl⟩ := Outcome.ok.inj hread
  obtain ⟨hscanner, hmembers, hsteps, new, hnew, hreportsNew⟩ := reported_forDuplicates hrun
  have hfields : literalFields [] s'.steps = literalFields [] s.steps ++
      (fields.map nameOf).map fun field => ⟨s.steps, fields.map nameOf, field.1, field.2⟩ := by
    rw [hsteps, literalFields_append, List.nil_append]
    simp only [literalFields, fieldsOf, List.append_nil]
    rfl
  have hwas : ∀ field : Ustring × Span, (LiteralField.mk s.steps (fields.map nameOf) field.1
      field.2).wasRepeated = true ↔ field.1 ∈ s.members.duplicateFields.entries.map Prod.fst := by
    intro field
    rw [h.names, LiteralField.wasRepeated, List.any_eq_true]
    simp
  have hperm := flatMap_filter_perm Prod.fst (SortedMap.nodup_keys s.members.duplicateFields) hwas
    (fields.map nameOf)
  obtain ⟨reports, hnewPerm, hreports⟩ : Relation.Comp List.Perm (List.Forall₂ fun d field =>
      IsDuplicateField s.scanner field d) new _ := by
    rw [← List.forall₂_comp_perm_eq_perm_comp_forall₂]
    exact ⟨_, hreportsNew, hperm⟩
  refine ⟨fun name => ?_, ?_, ?_⟩
  · rw [hmembers, hsteps]
    refine (h.names name).trans ?_
    simp
  · intro field hfield
    rw [hfields, List.mem_append] at hfield
    rcases hfield with hfield | hfield
    · exact h.recorded field hfield
    · obtain ⟨f, -, rfl⟩ := List.mem_map.1 hfield
      intro hrepeated
      rw [hwas, h.names]
      by_cases hmem : .repeatField f.1 ∈ s.steps
      · exact hmem
      · have hcount := count_le_of_repeatsRecorded hmem hrecorded
        have htwo : 2 ≤ ((fields.map nameOf).map Prod.fst).count f.1 := of_decide_eq_true hrepeated
        simp at hcount htwo
        omega
  · obtain ⟨old, hold, holdReports⟩ := h.reports
    refine ⟨old ++ reports, ?_, ?_⟩
    · rw [hnew, duplicateReports, List.filter_append]
      refine hold.append ?_
      rw [show new.filter _ = duplicateReports new from rfl, duplicateReports_eq_self hreportsNew]
      exact hnewPerm
    · rw [hfields, List.filter_append, List.filter_map]
      have hsame : s.scanner.Advances s'.scanner := hscanner ▸ .rfl
      refine List.rel_append (holdReports.imp fun _ _ hreport => hreport.later hsame) ?_
      rw [List.forall₂_map_right_iff]
      exact hreports.imp fun _ _ hreport => ⟨s.scanner, hsame, hreport⟩

theorem keptByValues_judged : KeptByValues KeepsJudged fun _ _ => True where
  scan _ _ hscanner h := h.quiet hscanner rfl rfl ⟨[], (List.append_nil _).symm, by simp⟩
  update s s' hscanner hdiagnostics hsteps hmembers h :=
    h.quiet (hscanner ▸ .rfl) (by rw [hdiagnostics]) hmembers.duplicateFields
      ⟨[], by rw [hsteps, List.append_nil], by simp⟩
  report s d hd h := h.report fun heq => by simp [heq, D.isPlain] at hd
  record s step hstep h := h.record (by cases step <;> first | rfl | cases hstep)
  addDuplicateField name := by
    refine Keeps.keepsOr fun s _ s' hrun h => ?_
    obtain ⟨_, s₁, hmodify, hrecord⟩ := run_bind_eq_ok.1 hrun
    obtain rfl := (Outcome.ok.inj hmodify).2
    obtain rfl := (Outcome.ok.inj hrecord).2
    have hfields : literalFields [] (s.steps ++ [.repeatField name]) = literalFields [] s.steps :=
      literalFields_append_eq (fun step hstep _ => List.mem_singleton.1 hstep ▸ rfl) [] s.steps
    refine ⟨fun name' => ?_, fun field hfield => h.recorded field (hfields ▸ hfield), ?_⟩
    · refine SortedMap.mem_keys_emplace.trans ((or_congr_left (h.names name')).trans ?_)
      simp
    · obtain ⟨reports, hperm, hreports⟩ := h.reports
      exact ⟨reports, hperm, hfields.symm ▸ hreports⟩
  reportDuplicateFields _ _ hrecorded :=
    relates_of_ok fun _ _ => keepsJudged_reportDuplicateFields hrecorded

theorem keptByOperations_judged : KeptByOperations KeepsJudged fun _ _ => True where
  toKeptByValues := keptByValues_judged
  recordArguments _ _ _ := keepsOr_step fun _ h => h.record rfl
  reportMissingArguments _ _ _ := keptByValues_judged.keeps_reportMissingArguments
    fun _ _ => keepsOr_step fun _ h => h.report nofun
  addDirective := keptByValues_judged.keeps_addDirective
    (fun _ => keepsOr_step fun _ h => h.record rfl) fun _ _ => keepsOr_step fun _ h => h.report nofun
  reportDuplicateFragment name fragment s _ _ :=
    keptByValues_judged.keeps_reportDuplicateFragment
      (fun _ _ => keepsOr_step fun _ h => h.record rfl)
      (fun _ _ => keepsOr_step fun _ h => h.report nofun)
      (fun _ hf _ => keepsOr_step fun s h => h.quiet .rfl rfl (hf s.members)
        ⟨[], (List.append_nil _).symm, by simp⟩) name fragment s
  restack _ _ h := h.quiet .rfl rfl rfl ⟨[], (List.append_nil _).symm, by simp⟩
  readStack _ := keepsOr_step fun _ h => h.record rfl

theorem judged_addSchema (schema : GraphQlSchema) (query : Ustring) :
    Judged (addSchema schema query) where
  names name := by simp [addSchema, show (∅ : UstringSet).entries = [] from rfl]
  recorded _ hfield := by cases hfield
  reports := ⟨[], .nil, .nil⟩

theorem judged_of_run {schema : GraphQlSchema} {query : Ustring} {document : ExecutableDefinition}
    {executor : GraphQlExecutor} (h : run schema query = .ok document executor) : Judged executor :=
  (keptByOperations_judged.keeps_execute query).keeps _ _ _ h (judged_addSchema schema query)

/-! ## Duplicate fields are judged -/

/-- The reports of duplicate fields are those of the fields whose names their own literals have at
least twice, one for each, at the names. -/
def JudgesDuplicates (executor : GraphQlExecutor) : Prop :=
  ReportsFields executor ((literalFields [] executor.steps).filter (·.isRepeated))

end GraphQlExecutor

end Flashpoint
