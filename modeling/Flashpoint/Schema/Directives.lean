import Flashpoint.Schema.Phases

/-!
# Unknown arguments of the directives in a schema

`check_directive_references` collects the declared arguments that a directive supplies. When some of
the supplied ones are left over, it reports the collected ones instead of those, and without a name.
-/

namespace Flashpoint

open Library Climb

namespace GraphQlSchema

open ParserM

/-- The names of the arguments that a directive supplies. -/
def suppliedNames (directive : Directive) : List Ustring :=
  directive.arguments.map fun argument => argument.2.name.identifier

/-- The names of the arguments that a definition declares. -/
def declaredNames (definition : DirectiveDefinition) : List Ustring :=
  definition.arguments.entries.map fun argument => argument.2.name.identifier

instance : LawfulBEq Ustring := inferInstance

/-- The arguments that a directive supplies and its definition does not declare. -/
def unknownArguments (definitions : UstringMap DirectiveDefinition) (directive : Directive) :
    List Ustring :=
  (definitions.find? directive.name.identifier).elim [] fun definition =>
    (suppliedNames directive).filter fun name => name ∉ declaredNames definition

/-- The reports of unknown arguments name the arguments that are supplied to the defined directives
and not declared, each of them once. -/
def ReportsUnknown (s : GraphQlSchema) : Prop :=
  ((reportsOf .unknownArgument0 s.diagnostics).map (·.arguments)).Perm
    ((s.directives.flatMap (unknownArguments s.members.directiveDefinitions)).map ([·]))

/-! ## What is reported -/

/-- The reports that were added name nothing. -/
def AddsUnnamed (s s' : GraphQlSchema) : Prop :=
  ∃ new, reportsOf .unknownArgument0 s'.diagnostics =
      reportsOf .unknownArgument0 s.diagnostics ++ new ∧ ∀ d ∈ new, d.arguments = []

theorem addsUnnamed_of_eq {s s' : GraphQlSchema}
    (h : reportsOf .unknownArgument0 s'.diagnostics = reportsOf .unknownArgument0 s.diagnostics) :
    AddsUnnamed s s' :=
  ⟨[], h.trans (List.append_nil _).symm, fun _ hd => absurd hd List.not_mem_nil⟩

instance : IsPreorder GraphQlSchema AddsUnnamed where
  refl _ := addsUnnamed_of_eq rfl
  trans _ _ _ h h' := by
    obtain ⟨new, hnew, hunnamed⟩ := h
    obtain ⟨new', hnew', hunnamed'⟩ := h'
    refine ⟨new ++ new', by rw [hnew', hnew, List.append_assoc], fun d hd => ?_⟩
    rcases List.mem_append.1 hd with hd | hd
    · exact hunnamed d hd
    · exact hunnamed' d hd

theorem keptByChecks_addsUnnamed : KeptByChecks AddsUnnamed where
  change _ _ _ h := addsUnnamed_of_eq (by rw [h.diagnostics])
  setFlags _ _ _ := keeps_step fun _ => addsUnnamed_of_eq rfl
  report template htemplate s d hd := by
    refine addsUnnamed_of_eq ?_
    have hother : d.template ≠ .unknownArgument0 := by
      rintro heq
      rw [← hd, heq] at htemplate
      cases htemplate
    rw [reportsOf_append, reportsOf_other hother, List.append_nil]

theorem addsUnnamed_reportUnknown {directive : Directive} {checked : UstringSet} :
    Keeps AddsUnnamed (directive.arguments.forM fun argument =>
      when ((checked.find? argument.2.name.identifier).isSome)
        (addDiagnostic .unknownArgument0 [] : SchemaM Unit)) := by
  refine keeps_forM fun _ _ => keeps_when (keeps_bind keptByChecks_addsUnnamed.keeps_read fun _ => ?_)
  refine keeps_step fun s => ⟨_, reportsOf_append _ _ _, fun d hd => ?_⟩
  rw [reportsOf_self] at hd
  rw [List.mem_singleton.1 hd]

theorem addsUnnamed_checkDirectiveReference (directive : Directive) :
    Keeps AddsUnnamed (checkDirectiveReference directive) := by
  refine keeps_bind keptByChecks_addsUnnamed.keeps_read fun definitions => ?_
  split
  · exact keptByChecks_addsUnnamed.keeps_reportAt rfl
  refine keeps_bind keptByChecks_addsUnnamed.keeps_checkSelfReference fun _ => ?_
  refine keeps_bind keptByChecks_addsUnnamed.keeps_checkLocation fun _ => ?_
  refine keeps_bind (keptByChecks_addsUnnamed.keeps_checkDirectiveArguments _ _ _) fun checked => ?_
  exact keeps_when addsUnnamed_reportUnknown

/-! ## What is not reported -/

/-- The declared arguments that are supplied are collected. -/
theorem checked_of_checkDirectiveArguments {directive : Directive}
    {definitions : List (Ustring × InputValueDefinition)} {checked result : UstringSet}
    {s s' : GraphQlSchema}
    (hrun : (checkDirectiveArguments directive definitions checked).run s = .ok result s') :
    (∀ name, (checked.find? name).isSome = true → (result.find? name).isSome = true) ∧
      ∀ definition ∈ definitions,
        (SortedMap.findEntry directive.arguments definition.2.name.identifier).isSome = true →
          (result.find? definition.2.name.identifier).isSome = true := by
  induction definitions generalizing checked s with
  | nil =>
    obtain ⟨rfl, -⟩ := Outcome.ok.inj hrun
    exact ⟨fun _ hname => hname, fun _ hdefinition => absurd hdefinition List.not_mem_nil⟩
  | cons definition rest ih =>
    obtain ⟨k, definition⟩ := definition
    simp only [checkDirectiveArguments] at hrun
    split at hrun
    · next hnone =>
      obtain ⟨_, _, -, hrest⟩ := run_bind_eq_ok.1 hrun
      obtain ⟨hkept, hcollected⟩ := ih hrest
      refine ⟨hkept, fun other hother hsupplied => ?_⟩
      rcases List.mem_cons.1 hother with rfl | hother
      · rw [hnone] at hsupplied
        cases hsupplied
      · exact hcollected other hother hsupplied
    · obtain ⟨value, _, -, hrun₁⟩ := run_bind_eq_ok.1 hrun
      obtain ⟨typeId, _, -, hrun₂⟩ := run_bind_eq_ok.1 hrun₁
      obtain ⟨_, _, -, hrest⟩ := run_bind_eq_ok.1 hrun₂
      obtain ⟨hkept, hcollected⟩ := ih hrest
      have hadded : ∀ name, name = definition.name.identifier ∨ (checked.find? name).isSome = true →
          (result.find? name).isSome = true := by
        intro name hname
        apply hkept
        rw [← SortedMap.mem_keys_iff, SortedMap.mem_keys_emplace, SortedMap.mem_keys_iff]
        exact hname.symm
      refine ⟨fun name hname => hadded name (.inr hname), fun other hother hsupplied => ?_⟩
      rcases List.mem_cons.1 hother with rfl | hother
      · exact hadded _ (.inl rfl)
      · exact hcollected other hother hsupplied

/-- When every supplied argument is declared, all of them are collected. -/
theorem length_arguments_le {directive : Directive} {definition : DirectiveDefinition}
    {result : UstringSet} {s s' : GraphQlSchema} (hkeyed : directive.Keyed)
    (hknown : ∀ name ∈ suppliedNames directive, name ∈ declaredNames definition)
    (hrun : (checkDirectiveArguments directive definition.arguments.entries ∅).run s =
      .ok result s') : directive.arguments.length ≤ result.size := by
  have hkeys : directive.arguments.map Prod.fst = suppliedNames directive :=
    List.map_congr_left hkeyed.1
  have hsubset : directive.arguments.map Prod.fst ⊆ result.entries.map Prod.fst := by
    intro name hname
    obtain ⟨declared, hdeclared, hidentifier⟩ := List.mem_map.1 (hknown name (hkeys ▸ hname))
    have hfind := SortedMap.isSome_findEntry hname
    rw [← hidentifier] at hfind
    have hcollected := (checked_of_checkDirectiveArguments hrun).2 declared hdeclared hfind
    rw [hidentifier] at hcollected
    exact SortedMap.mem_keys_iff.2 hcollected
  have hlength := (List.subperm_of_subset hkeyed.2 hsubset).length_le
  rwa [List.length_map, List.length_map] at hlength

theorem steady_checkDirectiveReference {directive : Directive} {s s' : GraphQlSchema}
    (hkeyed : directive.Keyed)
    (hknown : unknownArguments s.members.directiveDefinitions directive = [])
    (hrun : (checkDirectiveReference directive).run s = .ok () s') :
    Steady .unknownArgument0 s s' := by
  have hsteady := keptByChecks_steady .unknownArgument0 rfl
  obtain ⟨definitions, _, hread, hrun⟩ := run_bind_eq_ok.1 hrun
  obtain ⟨rfl, rfl⟩ := Outcome.ok.inj hread
  split at hrun
  · exact hsteady.keeps_reportAt rfl _ _ _ hrun
  · next definition hdefinition =>
    obtain ⟨_, s₁, hself, hrun₁⟩ := run_bind_eq_ok.1 hrun
    obtain ⟨_, s₂, hlocation, hrun₂⟩ := run_bind_eq_ok.1 hrun₁
    obtain ⟨checked, s₃, harguments, hrun₃⟩ := run_bind_eq_ok.1 hrun₂
    have hall : ∀ name ∈ suppliedNames directive, name ∈ declaredNames definition := by
      rw [unknownArguments, hdefinition] at hknown
      intro name hname
      have hnot := List.filter_eq_nil_iff.1 hknown name hname
      simpa using hnot
    have hle := length_arguments_le hkeyed hall harguments
    rw [when, if_neg (Nat.not_lt.2 hle)] at hrun₃
    obtain ⟨-, rfl⟩ := Outcome.ok.inj hrun₃
    refine trans_of _ (hsteady.keeps_checkSelfReference _ _ _ hself) ?_
    refine trans_of _ (hsteady.keeps_checkLocation _ _ _ hlocation) ?_
    exact hsteady.keeps_checkDirectiveArguments _ _ _ _ _ _ harguments

theorem steady_checkDirectiveReferences {directives : List Directive} {s s' : GraphQlSchema}
    (hkeyed : ∀ directive ∈ directives, directive.Keyed)
    (hknown : ∀ directive ∈ directives,
      unknownArguments s.members.directiveDefinitions directive = [])
    (hrun : (directives.forM checkDirectiveReference).run s = .ok () s') :
    Steady .unknownArgument0 s s' := by
  induction directives generalizing s with
  | nil =>
    obtain ⟨-, rfl⟩ := Outcome.ok.inj hrun
    exact refl_of _ _
  | cons directive directives ih =>
    obtain ⟨_, s₁, hfirst, hrest⟩ := run_bind_eq_ok.1 hrun
    have htables := keptByChecks_tables.keeps_checkDirectiveReference (keptByReport_tables _)
      directive _ _ _ hfirst
    refine trans_of _ (steady_checkDirectiveReference (hkeyed directive (List.mem_cons_self ..))
      (hknown directive (List.mem_cons_self ..)) hfirst) (ih ?_ ?_ hrest)
    · exact fun other hother => hkeyed other (List.mem_cons_of_mem _ hother)
    · rw [htables.directiveDefinitions]
      exact fun other hother => hknown other (List.mem_cons_of_mem _ hother)

/-! ## The schema -/

/-- The reports of the schema, by its tables in the end. -/
theorem reports_of_run {source : Ustring} {schema : GraphQlSchema}
    (h : run source = .ok () schema) :
    (∀ d ∈ reportsOf .unknownArgument0 schema.diagnostics, d.arguments = []) ∧
      ((∀ directive ∈ schema.directives,
          unknownArguments schema.members.directiveDefinitions directive = []) →
        reportsOf .unknownArgument0 schema.diagnostics = []) := by
  obtain ⟨p⟩ := nonempty_phases h
  obtain ⟨hparsed, hnone⟩ := p.regular_parsed .unknownArgument0 rfl rfl nofun
  obtain ⟨hrooted, hrootedReports⟩ := p.steady_rooted .unknownArgument0 rfl hparsed
  obtain ⟨hlinked, hlinkedReports⟩ := p.steady_linked .unknownArgument0 rfl nofun hrooted
  have hdirected : (p.linked.directives.forM checkDirectiveReference).run p.linked =
      .ok () p.directed := p.direct
  obtain ⟨new, hnew, hunnamed⟩ := keeps_forM (R := AddsUnnamed)
    (fun directive _ => addsUnnamed_checkDirectiveReference directive) _ _ _ hdirected
  have hregular : Regular p.directed := by
    refine ⟨?_, ?_⟩
    · rw [p.tables_directed.scanner]
      exact hlinked.errors
    · rw [p.tables_directed.directives]
      exact hlinked.keyed
  obtain ⟨himplemented, himplementedReports⟩ :=
    p.steady_implemented .unknownArgument0 rfl nofun nofun nofun hregular
  have hreports : reportsOf .unknownArgument0 schema.diagnostics =
      reportsOf .unknownArgument0 p.directed.diagnostics :=
    (p.steady_united .unknownArgument0 rfl himplemented).2.trans himplementedReports
  have hbefore : reportsOf .unknownArgument0 p.linked.diagnostics = [] :=
    hlinkedReports.trans (hrootedReports.trans hnone)
  have htables : KeepsTables p.linked schema :=
    trans_of _ p.tables_directed (trans_of _ p.tables_implemented p.tables_united)
  refine ⟨?_, fun hknown => ?_⟩
  · rw [hreports, hnew, hbefore, List.nil_append]
    exact hunnamed
  · rw [htables.directives, htables.directiveDefinitions] at hknown
    rw [hreports, (steady_checkDirectiveReferences hlinked.keyed hknown hdirected hlinked).2, hbefore]

/-- The unknown arguments are reported as they should be exactly when there are none. -/
theorem reportsUnknown_iff {source : Ustring} {schema : GraphQlSchema}
    (h : run source = .ok () schema) :
    ReportsUnknown schema ↔ ∀ directive ∈ schema.directives,
      unknownArguments schema.members.directiveDefinitions directive = [] := by
  obtain ⟨hunnamed, hnone⟩ := reports_of_run h
  constructor
  · intro hreports directive hdirective
    refine List.eq_nil_iff_forall_not_mem.2 fun name hname => ?_
    have hmem : [name] ∈ (reportsOf .unknownArgument0 schema.diagnostics).map (·.arguments) :=
      hreports.mem_iff.2 (List.mem_map_of_mem (List.mem_flatMap.2 ⟨directive, hdirective, hname⟩))
    obtain ⟨d, hd, hd'⟩ := List.mem_map.1 hmem
    rw [hunnamed d hd] at hd'
    cases hd'
  · intro hknown
    rw [ReportsUnknown, hnone hknown, List.flatMap_eq_nil_iff.2 hknown]
    exact .refl _

/-- A declared argument is not reported. -/
theorem reportsUnknown_of_declared : ∃ schema,
    run "directive @d(a:Int)on OBJECT type Query@d(a:1){f:Int}".toList = .ok () schema ∧
      schema.directives.map suppliedNames = [["a".toList]] ∧ ReportsUnknown schema := by
  obtain ⟨_, hrun⟩ := Outcome.exists_eq_ok
    (o := run "directive @d(a:Int)on OBJECT type Query@d(a:1){f:Int}".toList) (by decide +kernel)
  refine ⟨_, hrun, by decide +kernel, (reportsUnknown_iff hrun).2 ?_⟩
  decide +kernel

/-- Of a declared and an undeclared argument the declared one is reported. -/
theorem not_reportsUnknown_of_undeclared : ∃ schema,
    run "directive @d(a:Int)on OBJECT type Query@d(a:1,b:2){f:Int}".toList = .ok () schema ∧
      ¬ ReportsUnknown schema := by
  obtain ⟨_, hrun⟩ := Outcome.exists_eq_ok
    (o := run "directive @d(a:Int)on OBJECT type Query@d(a:1,b:2){f:Int}".toList) (by decide +kernel)
  refine ⟨_, hrun, fun hreports => ?_⟩
  have hmem : ["b".toList] ∈ (reportsOf .unknownArgument0
      (run "directive @d(a:Int)on OBJECT type Query@d(a:1,b:2){f:Int}".toList).state.diagnostics).map
        (·.arguments) := hreports.mem_iff.2 (by decide +kernel)
  exact absurd hmem (by decide +kernel)

end GraphQlSchema

end Flashpoint
