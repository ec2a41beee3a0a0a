import Flashpoint.Clean
import Flashpoint.Scanner.Progress
import Mathlib.Data.List.Perm.Basic

/-!
# Reports

The reports of one template among the diagnostics, and what it means that they are those of given
names. `Silent` computations report no missing argument and record no use of arguments.
-/

namespace Flashpoint

open Library Climb

/-! ## Reports of a template -/

/-- The reports of a template. -/
def reportsOf (template : D) (diagnostics : List DiagnosticMessage) : List DiagnosticMessage :=
  diagnostics.filter fun d => d.template = template

theorem reportsOf_append (template : D) (ds ds' : List DiagnosticMessage) :
    reportsOf template (ds ++ ds') = reportsOf template ds ++ reportsOf template ds' :=
  List.filter_append ds ds'

theorem reportsOf_self {template : D} {arguments : List Ustring} {location : Location} :
    reportsOf template [⟨template, arguments, location⟩] = [⟨template, arguments, location⟩] :=
  List.filter_cons_of_pos (decide_eq_true rfl)

theorem reportsOf_other {template : D} {d : DiagnosticMessage} (h : d.template ≠ template) :
    reportsOf template [d] = [] := List.filter_cons_of_neg (by simpa using h)

/-- Where the source may place a report on a node: the location by the line table, or that of the
token just taken, when the node is that token. -/
def Locates (scanner : GraphQlScanner) (span : Span) (location : Location) : Prop :=
  scanner.getTokenLocation span.start span.stop = some location ∨
    span = ⟨scanner.startPosition, scanner.position⟩ ∧ location = ParserM.tokenLocation scanner

section ReportsOfNames

variable {M : Type}

/-- A report of the template on the name, located by a scanner of the run. -/
def IsReportOf (template : D) (s : GraphQlParser M) (d : DiagnosticMessage)
    (name : Ustring × Span) : Prop :=
  ∃ scanner : GraphQlScanner, scanner.Advances s.scanner ∧ ∃ location,
    Locates scanner name.2 location ∧ d = ⟨template, [name.1], location⟩

/-- The reports of the template are those of the given names, one for each. -/
def ReportsNames (template : D) (s : GraphQlParser M) (names : List (Ustring × Span)) : Prop :=
  ∃ reports, (reportsOf template s.diagnostics).Perm reports ∧
    List.Forall₂ (IsReportOf template s) reports names

variable {template : D} {s s' : GraphQlParser M}

theorem IsReportOf.later {d : DiagnosticMessage} {name : Ustring × Span}
    (h : IsReportOf template s d name) (hs : s.scanner.Advances s'.scanner) :
    IsReportOf template s' d name := by
  obtain ⟨scanner, hscanner, hreport⟩ := h
  exact ⟨scanner, hscanner.trans hs, hreport⟩

theorem arguments_eq_of_reports {reports : List DiagnosticMessage} {names : List (Ustring × Span)}
    (h : List.Forall₂ (IsReportOf template s) reports names) :
    reports.map (·.arguments) = names.map fun name => [name.1] := by
  induction h with
  | nil => rfl
  | cons hreport _ ih =>
    obtain ⟨_, -, _, -, rfl⟩ := hreport
    rw [List.map_cons, List.map_cons, ih]

theorem reportsOf_reports {reports : List DiagnosticMessage} {names : List (Ustring × Span)}
    (h : List.Forall₂ (IsReportOf template s) reports names) :
    reportsOf template reports = reports := by
  refine List.filter_eq_self.2 fun d hd => ?_
  obtain ⟨name, -, _, -, _, -, rfl⟩ := exists_of_mem h hd
  exact decide_eq_true rfl
where
  exists_of_mem {reports : List DiagnosticMessage} {names : List (Ustring × Span)}
      (h : List.Forall₂ (IsReportOf template s) reports names) {d : DiagnosticMessage}
      (hd : d ∈ reports) : ∃ name ∈ names, IsReportOf template s d name := by
    induction h with
    | nil => exact absurd hd List.not_mem_nil
    | cons hreport _ ih =>
      rcases List.mem_cons.1 hd with rfl | hd
      · exact ⟨_, List.mem_cons_self .., hreport⟩
      · obtain ⟨name, hname, hreport'⟩ := ih hd
        exact ⟨name, List.mem_cons_of_mem _ hname, hreport'⟩

/-- Reports of the same state have the same names. -/
theorem ReportsNames.perm {names names' : List (Ustring × Span)}
    (h : ReportsNames template s names) (h' : ReportsNames template s names') :
    (names.map Prod.fst).Perm (names'.map Prod.fst) := by
  obtain ⟨reports, hperm, hreports⟩ := h
  obtain ⟨reports', hperm', hreports'⟩ := h'
  have hsame := (hperm.symm.trans hperm').map (·.arguments)
  rw [arguments_eq_of_reports hreports, arguments_eq_of_reports hreports'] at hsame
  have hnames : ∀ names : List (Ustring × Span),
      (names.map fun name => [name.1]).map (·.headD []) = names.map Prod.fst := by
    intro names
    rw [List.map_map]
    rfl
  have h := hsame.map (·.headD [])
  rwa [hnames, hnames] at h

/-- The order of the names does not matter. -/
theorem ReportsNames.of_perm {names names' : List (Ustring × Span)}
    (h : ReportsNames template s names) (hperm : names.Perm names') :
    ReportsNames template s names' := by
  obtain ⟨reports, hreportsPerm, hreports⟩ := h
  obtain ⟨reports', hperm', hreports'⟩ : Relation.Comp List.Perm
      (List.Forall₂ (IsReportOf template s)) reports names' := by
    rw [← List.forall₂_comp_perm_eq_perm_comp_forall₂]
    exact ⟨names, hreports, hperm⟩
  exact ⟨reports', hreportsPerm.trans hperm', hreports'⟩

end ReportsOfNames

/-! ## Missing arguments -/

/-- Whether a step records the arguments of a field or a directive. -/
def Step.isUse : Step → Bool
  | .useArguments _ _ _ => true
  | _ => false

/-- Whether the type is non-null as a whole: `T!`, or `[T]!` whatever `T` is. -/
def TypeNode.isRequired (type : TypeNode) : Bool :=
  (type.isNonNull && !type.isListType) || type.isNonNullList

/-- The reports of missing arguments. -/
def missingArguments (diagnostics : List DiagnosticMessage) : List DiagnosticMessage :=
  diagnostics.filter fun d => d.template = .missingRequiredArgument0

theorem missingArguments_append (ds ds' : List DiagnosticMessage) :
    missingArguments (ds ++ ds') = missingArguments ds ++ missingArguments ds' :=
  List.filter_append ds ds'

/-- A report of another template. -/
theorem missingArguments_other {template : D} (h : template ≠ .missingRequiredArgument0)
    (ds : List DiagnosticMessage) (arguments : List Ustring) (location : Location) :
    missingArguments (ds ++ [⟨template, arguments, location⟩]) = missingArguments ds := by
  rw [missingArguments_append]
  have hother : missingArguments [⟨template, arguments, location⟩] = [] := by
    simp only [missingArguments, List.filter_cons, h, decide_false, Bool.false_eq_true, if_false,
      List.filter_nil]
  rw [hother, List.append_nil]

/-- A report that the argument is missing at the node. -/
def IsMissingArgument (scanner : GraphQlScanner) (span : Span) (argument : Ustring)
    (d : DiagnosticMessage) : Prop :=
  ∃ location, scanner.getTokenLocation span.start span.stop = some location ∧
    d = ⟨.missingRequiredArgument0, [argument], location⟩

theorem missingArguments_missing (ds : List DiagnosticMessage) (arguments : List Ustring)
    (location : Location) :
    missingArguments (ds ++ [⟨.missingRequiredArgument0, arguments, location⟩]) =
      missingArguments ds ++ [⟨.missingRequiredArgument0, arguments, location⟩] :=
  missingArguments_append ds _

/-- Two selections of one list, the first among the second, have as many entries only if they are
the same. -/
theorem imp_of_length_filter_eq {α : Type} {p q : α → Bool} {xs : List α}
    (hpq : ∀ x ∈ xs, p x = true → q x = true)
    (hlength : (xs.filter p).length = (xs.filter q).length) :
    ∀ x ∈ xs, q x = true → p x = true := by
  have hsublist : List.Sublist (xs.filter p) (xs.filter q) := by
    have hboth : (xs.filter q).filter p = xs.filter p := by
      rw [List.filter_filter]
      refine List.filter_congr fun x hx => ?_
      cases hpx : p x with
      | false => rfl
      | true => rw [hpq x hx hpx, Bool.and_self]
    rw [← hboth]
    exact List.filter_sublist
  have heq := hsublist.eq_of_length hlength
  intro x hx hqx
  have hmem := List.mem_filter.2 ⟨hx, hqx⟩
  rw [← heq] at hmem
  exact (List.mem_filter.1 hmem).2

/-- When one of the two selections has its reports, the other has the same exactly if no entry makes
a difference. -/
theorem forall₂_filter_iff {α β : Type} {R : β → α → Prop} {p q : α → Bool} {xs : List α}
    {ys : List β} (hpq : ∀ x ∈ xs, p x = true → q x = true) :
    (List.Forall₂ R ys (xs.filter p) →
      (List.Forall₂ R ys (xs.filter q) ↔ ∀ x ∈ xs, q x = true → p x = true)) ∧
    (List.Forall₂ R ys (xs.filter q) →
      (List.Forall₂ R ys (xs.filter p) ↔ ∀ x ∈ xs, q x = true → p x = true)) := by
  have heq : (∀ x ∈ xs, q x = true → p x = true) → xs.filter q = xs.filter p := fun hqp =>
    List.filter_congr fun x hx => Bool.eq_iff_iff.2 ⟨hqp x hx, hpq x hx⟩
  constructor
  · intro hp
    refine ⟨fun hq => ?_, fun hqp => heq hqp ▸ hp⟩
    exact imp_of_length_filter_eq hpq (hp.length_eq.symm.trans hq.length_eq)
  · intro hq
    refine ⟨fun hp => ?_, fun hqp => heq hqp ▸ hq⟩
    exact imp_of_length_filter_eq hpq (hp.length_eq.symm.trans hq.length_eq)

namespace ParserM

variable {M α : Type}

/-- No argument was reported missing, and no use of arguments recorded. -/
structure Silent (s s' : GraphQlParser M) : Prop where
  missing : missingArguments s'.diagnostics = missingArguments s.diagnostics
  steps : ∃ steps, s'.steps = s.steps ++ steps ∧ ∀ step ∈ steps, step.isUse = false

instance : IsPreorder (GraphQlParser M) Silent where
  refl _ := ⟨rfl, [], (List.append_nil _).symm, fun _ h => absurd h List.not_mem_nil⟩
  trans _ _ _ h h' := by
    obtain ⟨steps, hsteps, hno⟩ := h.steps
    obtain ⟨steps', hsteps', hno'⟩ := h'.steps
    refine ⟨h'.missing.trans h.missing, steps ++ steps', ?_, ?_⟩
    · rw [hsteps', hsteps, List.append_assoc]
    · intro step hstep
      rcases List.mem_append.1 hstep with hstep | hstep
      · exact hno step hstep
      · exact hno' step hstep

/-- A step that neither reports nor records. -/
theorem silent_of_eq {s s' : GraphQlParser M} (hdiagnostics : s'.diagnostics = s.diagnostics)
    (hsteps : s'.steps = s.steps) : Silent s s' :=
  ⟨by rw [hdiagnostics], [], by rw [hsteps, List.append_nil], fun _ h => absurd h List.not_mem_nil⟩

theorem silent_update {f : GraphQlParser M → GraphQlParser M} : Keeps Silent (update f) :=
  keeps_step fun _ => silent_of_eq rfl rfl

theorem silent_modifyMembers {f : M → M} : Keeps Silent (modifyMembers f) := silent_update

theorem silent_scan {f : GraphQlScanner → α × GraphQlScanner} :
    Keeps Silent (scan f : ParserM M α) := keeps_step fun _ => silent_of_eq rfl rfl

theorem silent_read {f : GraphQlParser M → α} : Keeps Silent (read f) :=
  keeps_bind keeps_get fun _ => keeps_pure

theorem silent_deref {f : GraphQlParser M → Option α} : Keeps Silent (deref f) := keeps_require

theorem silent_follow {p : Option α} : Keeps Silent (follow p : ParserM M α) := silent_deref

theorem silent_recordStep {step : Step} (h : step.isUse = false) :
    Keeps Silent (recordStep step : ParserM M Unit) := by
  refine keeps_step fun s => ⟨rfl, [step], rfl, fun step' hstep => ?_⟩
  exact List.mem_singleton.1 hstep ▸ h

theorem silent_addDiagnosticAt {location : Location} {template : D} {arguments : List Ustring}
    (h : template ≠ .missingRequiredArgument0) :
    Keeps Silent (addDiagnosticAt location template arguments : ParserM M Unit) :=
  keeps_step fun _ => ⟨missingArguments_other h _ _ _, [], (List.append_nil _).symm,
    fun _ h => absurd h List.not_mem_nil⟩

theorem silent_addDiagnostic {template : D} {arguments : List Ustring}
    (h : template ≠ .missingRequiredArgument0) :
    Keeps Silent (addDiagnostic template arguments : ParserM M Unit) :=
  keeps_bind silent_read fun _ => silent_addDiagnosticAt h

theorem silent_getLocationFromSyntax {span : Span} :
    Keeps Silent (getLocationFromSyntax span : ParserM M Location) := keeps_require

theorem silent_reportAt {span : Span} {template : D} {arguments : List Ustring}
    (h : template ≠ .missingRequiredArgument0) :
    Keeps Silent (do
      let location ← getLocationFromSyntax span
      addDiagnosticAt location template arguments : ParserM M Unit) :=
  keeps_bind silent_getLocationFromSyntax fun _ => silent_addDiagnosticAt h

theorem silent_takeNextToken {treatKeywordAsName skipWhiteSpace : Bool} :
    Keeps Silent (takeNextToken treatKeywordAsName skipWhiteSpace : ParserM M GraphQlToken) :=
  silent_scan

theorem silent_getTokenValue : Keeps Silent (getTokenValue : ParserM M Ustring) := silent_read

theorem silent_reportExpected {text : Ustring} {result : GraphQlToken} :
    Keeps Silent (reportExpected text result : ParserM M Unit) := by
  unfold reportExpected
  split
  · exact silent_addDiagnostic (by decide)
  · exact keeps_bind silent_getTokenValue fun _ => silent_addDiagnostic (by decide)

theorem silent_scanExpected {token : GraphQlToken} {treatKeywordAsName : Bool} :
    Keeps Silent (scanExpected token treatKeywordAsName : ParserM M Bool) := by
  refine keeps_bind silent_takeNextToken fun result => ?_
  split
  · exact keeps_pure
  split
  · exact keeps_stop
  · exact keeps_bind silent_reportExpected fun _ => keeps_pure

theorem silent_scanOptional {token : GraphQlToken} {treatKeywordAsName : Bool} :
    Keeps Silent (scanOptional token treatKeywordAsName : ParserM M Bool) :=
  keeps_bind silent_scan fun _ => keeps_pure

theorem silent_skipTo {tokens : List GraphQlToken} :
    Keeps Silent (skipTo tokens : ParserM M GraphQlToken) := silent_scan

theorem silent_skipBlock : Keeps Silent (skipBlock : ParserM M Unit) := silent_scan

theorem silent_createSpan : Keeps Silent (createSpan : ParserM M Span) := silent_read

theorem silent_createName {identifier : Ustring} :
    Keeps Silent (createName identifier : ParserM M Name) :=
  keeps_bind silent_createSpan fun _ => keeps_pure

theorem silent_typeNode {id : TypeId} : Keeps Silent (typeNode id : ParserM M TypeNode) :=
  silent_deref

theorem silent_declaration {id : DeclarationId} :
    Keeps Silent (declaration id : ParserM M Declaration) := silent_deref

theorem silent_getTypeName {type : TypeNode} :
    Keeps Silent (getTypeName type : ParserM M Ustring) := by
  have hname : Keeps Silent (typeNameText type : ParserM M Ustring) := by
    unfold typeNameText
    split
    all_goals first
      | exact keeps_pure
      | exact keeps_bind silent_follow fun _ => keeps_pure
      | exact keeps_stop
  exact keeps_bind hname fun _ => keeps_pure

end ParserM

end Flashpoint
