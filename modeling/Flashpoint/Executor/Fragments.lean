import Flashpoint.Executor.Operations
import Flashpoint.Library.Occurrences
import Flashpoint.Reports

/-!
# Duplicate fragments of a query

The run of an executor records the name of every fragment definition that it reads. The set of the
names whose first definition was reported is never added to, so that the first definition is reported
again with every later one. `FragmentsNoted` is the invariant that says so; every operation keeps it,
and with `KeptByOperations` every run.
-/

namespace Flashpoint

open Library Climb

namespace GraphQlExecutor

open ParserM

/-- The name of the fragment that a step defines. -/
def fragmentOf : Step → Option (Ustring × Span)
  | .defineFragment name span => some (name, span)
  | _ => none

/-- The names of the fragment definitions of a run, in the order of the query. -/
def fragmentsOf (steps : List Step) : List (Ustring × Span) := steps.filterMap fragmentOf

theorem fragmentsOf_append (steps steps' : List Step) :
    fragmentsOf (steps ++ steps') = fragmentsOf steps ++ fragmentsOf steps' :=
  List.filterMap_append

/-- The state of a run: the member holds the first definition of each name, no name is noted as a
duplicate, and the first definition of a name was reported with every later one. -/
structure FragmentsNoted (s : GraphQlExecutor) : Prop where
  first : ∀ name, (s.members.fragments.find? name).map (fun f => (f.name.identifier, f.name.span)) =
    (fragmentsOf s.steps).find? fun f => f.1 = name
  duplicates : s.members.duplicateFragments = ∅
  reports : List.Forall₂ (IsReportOf .duplicateFragment0 s)
    (reportsOf .duplicateFragment0 s.diagnostics)
    (along (tellEveryTime Prod.fst) [] (fragmentsOf s.steps))

/-- The invariant is kept from one state to the other. -/
def KeepsNoted (s s' : GraphQlExecutor) : Prop := FragmentsNoted s → FragmentsNoted s'

instance : IsPreorder GraphQlExecutor KeepsNoted where
  refl _ h := h
  trans _ _ _ h h' hs := h' (h hs)

/-- Nothing about fragments was reported or recorded. -/
theorem FragmentsNoted.quiet {s s' : GraphQlExecutor} (h : FragmentsNoted s)
    (hscanner : s.scanner.Advances s'.scanner)
    (hdiagnostics : reportsOf .duplicateFragment0 s'.diagnostics =
      reportsOf .duplicateFragment0 s.diagnostics)
    (hfragments : s'.members.fragments = s.members.fragments)
    (hduplicates : s'.members.duplicateFragments = s.members.duplicateFragments)
    (hsteps : fragmentsOf s'.steps = fragmentsOf s.steps) : FragmentsNoted s' where
  first name := by rw [hfragments, hsteps]; exact h.first name
  duplicates := hduplicates.trans h.duplicates
  reports := by
    rw [hdiagnostics, hsteps]
    exact h.reports.imp fun _ _ hreport => hreport.later hscanner

theorem FragmentsNoted.report {s : GraphQlExecutor} (h : FragmentsNoted s) {d : DiagnosticMessage}
    (hd : d.template ≠ .duplicateFragment0) :
    FragmentsNoted { s with diagnostics := s.diagnostics ++ [d] } := by
  refine h.quiet .rfl ?_ rfl rfl rfl
  rw [reportsOf_append, reportsOf_other hd, List.append_nil]

theorem FragmentsNoted.record {s : GraphQlExecutor} (h : FragmentsNoted s) {step : Step}
    (hstep : fragmentOf step = none) : FragmentsNoted { s with steps := s.steps ++ [step] } := by
  refine h.quiet .rfl rfl rfl rfl ?_
  rw [fragmentsOf_append, fragmentsOf, fragmentsOf, List.filterMap_cons_none hstep,
    List.filterMap_nil, List.append_nil]

/-! ## A definition -/

/-- The definition of a name that is new. -/
theorem FragmentsNoted.define {s : GraphQlExecutor} (h : FragmentsNoted s) {name : Name}
    {fragment : FragmentDefinition} (hname : fragment.name = name)
    (hnew : s.members.fragments.find? name.identifier = none) :
    FragmentsNoted { s with
      steps := s.steps ++ [.defineFragment name.identifier name.span]
      members := { s.members with
        fragments := s.members.fragments.emplace name.identifier fragment } } := by
  have hnone : ((fragmentsOf s.steps).find? fun f => f.1 = name.identifier) = none := by
    rw [← h.first, hnew]
    rfl
  refine ⟨fun other => ?_, h.duplicates, ?_⟩
  · have hother := h.first other
    simp only [fragmentsOf_append, List.find?_append]
    by_cases heq : other = name.identifier
    · subst heq
      rw [SortedMap.find?_emplace_self hnew, hnone]
      simp [fragmentsOf, fragmentOf, hname]
    · rw [SortedMap.find?_emplace, if_neg heq, hother]
      simp [fragmentsOf, fragmentOf, Ne.symm heq]
  · simp only [fragmentsOf_append]
    rw [show fragmentsOf [.defineFragment name.identifier name.span] =
      [(name.identifier, name.span)] from rfl, along_snoc, tellEveryTime, hnone, List.append_nil]
    exact h.reports

/-- The definition of a name that has one already. -/
theorem FragmentsNoted.redefine {s : GraphQlExecutor} (h : FragmentsNoted s) {name : Name}
    {first : FragmentDefinition} {location : Location}
    (hspan : name.span = ⟨s.scanner.startPosition, s.scanner.position⟩)
    (hfirst : s.members.fragments.find? name.identifier = some first)
    (hlocation : s.scanner.getTokenLocation first.name.span.start first.name.span.stop =
      some location) :
    FragmentsNoted { s with
      steps := s.steps ++ [.defineFragment name.identifier name.span]
      diagnostics := s.diagnostics ++
        [⟨.duplicateFragment0, [name.identifier], tokenLocation s.scanner⟩] ++
        [⟨.duplicateFragment0, [first.name.identifier], location⟩] } := by
  have hsome : ((fragmentsOf s.steps).find? fun f => f.1 = name.identifier) =
      some (first.name.identifier, first.name.span) := by
    rw [← h.first, hfirst]
    rfl
  refine ⟨fun other => ?_, h.duplicates, ?_⟩
  · simp only [fragmentsOf_append, List.find?_append]
    rw [h.first]
    by_cases heq : other = name.identifier
    · subst heq
      rw [hsome]
      rfl
    · simp [fragmentsOf, fragmentOf, Ne.symm heq]
  · simp only [fragmentsOf_append, reportsOf_append, reportsOf_self, List.append_assoc]
    rw [show fragmentsOf [.defineFragment name.identifier name.span] =
      [(name.identifier, name.span)] from rfl, along_snoc, tellEveryTime, hsome]
    refine List.rel_append (h.reports.imp fun _ _ hreport => hreport.later .rfl) ?_
    exact .cons ⟨s.scanner, .rfl, _, .inr ⟨hspan, rfl⟩, rfl⟩
      (.cons ⟨s.scanner, .rfl, _, .inl hlocation, rfl⟩ .nil)

theorem keepsNoted_reportDuplicateFragment {name : Name} {fragment : FragmentDefinition}
    {s s' : GraphQlExecutor} (hspan : name.span = ⟨s.scanner.startPosition, s.scanner.position⟩)
    (hname : fragment.name = name)
    (hrun : (reportDuplicateFragment name fragment).run s = .ok () s') : KeepsNoted s s' := by
  intro h
  obtain ⟨_, _, hrecord, hrun⟩ := run_bind_eq_ok.1 hrun
  obtain ⟨-, rfl⟩ := Outcome.ok.inj hrecord
  obtain ⟨_, _, hread, hrun⟩ := run_bind_eq_ok.1 hrun
  obtain ⟨rfl, rfl⟩ := Outcome.ok.inj hread
  split at hrun
  · next first hfirst =>
    obtain ⟨_, _, hreport, hrun⟩ := run_bind_eq_ok.1 hrun
    obtain ⟨_, _, hlocation, hadd⟩ := run_bind_eq_ok.1 hreport
    obtain ⟨rfl, rfl⟩ := Outcome.ok.inj hlocation
    obtain ⟨-, rfl⟩ := Outcome.ok.inj hadd
    obtain ⟨_, _, hread, hrun⟩ := run_bind_eq_ok.1 hrun
    obtain ⟨rfl, rfl⟩ := Outcome.ok.inj hread
    -- the set of the duplicates is empty, so the first definition is reported
    have hnone : (s.members.duplicateFragments.find? name.identifier).isNone = true := by
      rw [h.duplicates]
      rfl
    rw [when, if_pos hnone] at hrun
    obtain ⟨location, _, hget, hadd⟩ := run_bind_eq_ok.1 hrun
    obtain ⟨hlocation, rfl⟩ := run_require_eq_ok.1 hget
    obtain ⟨-, rfl⟩ := Outcome.ok.inj hadd
    exact h.redefine hspan hfirst hlocation
  · next hnew =>
    obtain ⟨-, rfl⟩ := Outcome.ok.inj hrun
    exact h.define hname hnew

/-! ## Runs -/

theorem keptByValues_noted : KeptByValues KeepsNoted fun _ _ => True where
  scan _ _ hscanner h := h.quiet hscanner rfl rfl rfl rfl
  update s s' hscanner hdiagnostics hsteps hmembers h :=
    h.quiet (hscanner ▸ .rfl) (by rw [hdiagnostics]) hmembers.fragments hmembers.duplicateFragments
      (by rw [hsteps])
  report s d hd h := h.report fun heq => by simp [heq, D.isPlain] at hd
  record s step hstep h := h.record (by cases step <;> first | rfl | cases hstep)
  addDuplicateField name := keepsOr_bind
    (keepsOr_step fun _ (h : FragmentsNoted _) => h.quiet .rfl rfl rfl rfl rfl)
    fun _ => keepsOr_step fun _ h => h.record rfl
  reportDuplicateFields fields s _ := keepsOr_reportDuplicateFields
    (keepsOr_step fun _ h => h.record rfl) (fun _ _ => keepsOr_step fun _ h => h.report nofun) s

theorem keptByOperations_noted : KeptByOperations KeepsNoted fun _ _ => True where
  toKeptByValues := keptByValues_noted
  recordArguments _ _ _ := keepsOr_step fun _ h => h.record rfl
  reportMissingArguments _ _ _ := keptByValues_noted.keeps_reportMissingArguments
    fun _ _ => keepsOr_step fun _ h => h.report nofun
  addDirective := keptByValues_noted.keeps_addDirective
    (fun _ => keepsOr_step fun _ h => h.record rfl) fun _ _ => keepsOr_step fun _ h => h.report nofun
  reportDuplicateFragment _ _ _ hspan hname :=
    relates_of_ok fun _ _ => keepsNoted_reportDuplicateFragment hspan hname
  restack _ _ h := h.quiet .rfl rfl rfl rfl rfl
  readStack _ := keepsOr_step fun _ h => h.record rfl

theorem noted_addSchema (schema : GraphQlSchema) (query : Ustring) :
    FragmentsNoted (addSchema schema query) := ⟨fun _ => rfl, rfl, .nil⟩

theorem noted_of_run {schema : GraphQlSchema} {query : Ustring} {document : ExecutableDefinition}
    {executor : GraphQlExecutor} (h : run schema query = .ok document executor) :
    FragmentsNoted executor :=
  (keptByOperations_noted.keeps_execute query).keeps _ _ _ h (noted_addSchema schema query)

/-! ## Duplicate fragments -/

/-- The reports of duplicate fragments are those of the definitions whose names are defined at least
twice, one for each, at the names. -/
def ReportsFragments (executor : GraphQlExecutor) : Prop :=
  ReportsNames .duplicateFragment0 executor (repeated Prod.fst (fragmentsOf executor.steps))

/-- The definitions of fragments that share a name are reported once each exactly when no name is
defined three times. -/
theorem reportsFragments_iff {schema : GraphQlSchema} {query : Ustring}
    {document : ExecutableDefinition} {executor : GraphQlExecutor}
    (hrun : run schema query = .ok document executor) :
    ReportsFragments executor ↔
      ∀ name, times Prod.fst (fragmentsOf executor.steps) name ≤ 2 := by
  have h : ReportsNames .duplicateFragment0 executor _ := ⟨_, .refl _, (noted_of_run hrun).reports⟩
  constructor
  · intro hreports
    exact times_le_two_of_perm (h.perm hreports)
  · intro htwo
    exact h.of_perm (along_tellEveryTime_perm htwo)

/-- Two fragments of one name are reported both. -/
theorem reportsFragments_of_two : ∃ schema document executor,
    GraphQlSchema.Accepts "type Query{f:Int}".toList schema ∧
      run schema "fragment A on Query{f}fragment A on Query{f}{...A}".toList =
        .ok document executor ∧
      (reportsOf .duplicateFragment0 executor.diagnostics).length = 2 ∧
      ReportsFragments executor := by
  have haccepts : GraphQlSchema.Accepts "type Query{f:Int}".toList _ :=
    GraphQlSchema.accepts_of_run (by decide +kernel) (by decide +kernel)
  obtain ⟨document, hrun⟩ := Outcome.exists_eq_ok (o := run
    (GraphQlSchema.run "type Query{f:Int}".toList).state
    "fragment A on Query{f}fragment A on Query{f}{...A}".toList)
    (by decide +kernel)
  refine ⟨_, document, _, haccepts, hrun, by decide +kernel, (reportsFragments_iff hrun).2 ?_⟩
  exact fun _ => List.countP_le_length.trans (by decide +kernel)

/-- The first of three fragments of one name is reported twice. -/
theorem not_reportsFragments_of_three : ∃ schema document executor,
    GraphQlSchema.Accepts "type Query{f:Int}".toList schema ∧
      run schema "fragment A on Query{f}fragment A on Query{f}fragment A on Query{f}".toList =
        .ok document executor ∧
      ¬ ReportsFragments executor := by
  have haccepts : GraphQlSchema.Accepts "type Query{f:Int}".toList _ :=
    GraphQlSchema.accepts_of_run (by decide +kernel) (by decide +kernel)
  obtain ⟨document, hrun⟩ := Outcome.exists_eq_ok (o := run
    (GraphQlSchema.run "type Query{f:Int}".toList).state
    "fragment A on Query{f}fragment A on Query{f}fragment A on Query{f}".toList)
    (by decide +kernel)
  refine ⟨_, document, _, haccepts, hrun, ?_⟩
  rintro ⟨reports, hperm, hreports⟩
  exact absurd (hperm.length_eq.trans hreports.length_eq) (by decide +kernel)

end GraphQlExecutor

end Flashpoint
