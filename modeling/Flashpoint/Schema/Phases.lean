import Flashpoint.Reports
import Flashpoint.Schema.Constructed
import Flashpoint.Schema.Operations

/-!
# The phases of the constructor

A run of the constructor parses the document and then makes its passes one after the other. A template
that is reported in one pass only is reported by no other phase (`Steady`), and the passes leave the
tables they read as the parser made them (`KeepsTables`), so that the reports of a pass are those of
the schema in the end.
-/

namespace Flashpoint

open Library Climb

namespace GraphQlSchema

open ParserM

/-! ## What the other phases report -/

/-- The scanner has noted nothing but lexical errors, and the arguments of the directives stand under
their names. -/
structure Regular (s : GraphQlSchema) : Prop where
  errors : ∀ e ∈ s.scanner.errors, e.template.isLexical = true
  keyed : ∀ directive ∈ s.directives, directive.Keyed

/-- Nothing was reported with the template. -/
def Steady (template : D) (s s' : GraphQlSchema) : Prop :=
  Regular s → Regular s' ∧ reportsOf template s'.diagnostics = reportsOf template s.diagnostics

instance (template : D) : IsPreorder GraphQlSchema (Steady template) where
  refl _ h := ⟨h, rfl⟩
  trans _ _ _ h h' hs := ⟨(h' (h hs).1).1, (h' (h hs).1).2.trans (h hs).2⟩

theorem regular_initial (source : Ustring) : Regular (initial source) where
  errors _ he := absurd he List.not_mem_nil
  keyed _ hdirective := absurd hdirective List.not_mem_nil

section Steady

variable {template : D}

theorem steady_of_eq {s s' : GraphQlSchema} (hscanner : s'.scanner = s.scanner)
    (hdiagnostics : s'.diagnostics = s.diagnostics) (hdirectives : s'.directives = s.directives) :
    Steady template s s' := by
  intro h
  refine ⟨⟨?_, ?_⟩, by rw [hdiagnostics]⟩
  · rw [hscanner]
    exact h.errors
  · rw [hdirectives]
    exact h.keyed

theorem steady_modifyType {id : TypeId} {f : TypeNode → TypeNode} :
    Keeps (Steady template) (modifyType id f : SchemaM Unit) :=
  keeps_step fun _ => steady_of_eq rfl rfl rfl

theorem keptByReport_steady {other : D} (h : other ≠ template) :
    KeptByReport (Steady template) other := by
  intro s d hd hs
  refine ⟨⟨hs.errors, hs.keyed⟩, ?_⟩
  rw [reportsOf_append, reportsOf_other (by rw [hd]; exact h), List.append_nil]

theorem keptByChecks_steady (template : D) (htemplate : template.isOfOnePlace = true) :
    KeptByChecks (Steady template) where
  change _ _ hscanner h := steady_of_eq hscanner h.diagnostics h.directives
  setFlags _ _ _ := steady_modifyType
  report other hother := by
    refine keptByReport_steady fun heq => ?_
    rw [heq, D.isCounted, htemplate] at hother
    cases hother

theorem reportsOf_lexical (htemplate : template.isLexical = false) {errors : List DiagnosticMessage}
    (h : ∀ e ∈ errors, e.template.isLexical = true) : reportsOf template errors = [] := by
  refine List.filter_eq_nil_iff.2 fun e he htrue => ?_
  rw [← of_decide_eq_true htrue, h e he] at htemplate
  cases htemplate

theorem keptByParts_steady (htemplate : template.isOfOnePlace = true)
    (hlexical : template.isLexical = false) : KeptByParts (Steady template) where
  toKeptByChecks := keptByChecks_steady template htemplate
  addType _ _ _ := steady_of_eq rfl rfl rfl
  reportArgument := keptByReport_steady fun heq => by
    rw [← heq] at htemplate
    cases htemplate
  scan s scanner _ hnotes hs := by
    obtain ⟨errors, hnew, hlexicalNew⟩ := hnotes
    refine ⟨⟨fun e he => ?_, hs.keyed⟩, rfl⟩
    rw [hnew] at he
    rcases List.mem_append.1 he with he | he
    · exact hlexicalNew e he
    · exact hs.errors e he
  takeErrors := by
    refine keeps_step fun s hs => ⟨⟨fun e he => absurd he List.not_mem_nil, hs.keyed⟩, ?_⟩
    rw [reportsOf_append, reportsOf_lexical hlexical hs.errors, List.append_nil]
  update _ _ hscanner h := steady_of_eq hscanner h.diagnostics h.directives
  addDirective s directive hkeyed hs := by
    refine ⟨⟨hs.errors, fun d hd => ?_⟩, rfl⟩
    rcases List.mem_append.1 hd with hd | hd
    · exact hs.keyed d hd
    · exact List.mem_singleton.1 hd ▸ hkeyed

/-- **Parsing reports nothing with a template of one pass.** -/
theorem steady_parseDocument (htemplate : template.isOfOnePlace = true)
    (hlexical : template.isLexical = false) (htype : template ≠ .duplicateType0)
    (source : Ustring) : Keeps (Steady template) (parseDocument source) :=
  (KeptByDefinitions.of_declarations (keptByParts_steady htemplate hlexical)
    (fun _ _ hscanner hdiagnostics hdirectives _ _ => steady_of_eq hscanner hdiagnostics hdirectives)
    (keptByReport_steady htype.symm)).keeps_parseDocument source

end Steady

/-! ## What a pass reports -/

/-- The report of a node, if the node can be located. -/
def reportAt (s : GraphQlSchema) (span : Span) (template : D) (arguments : List Ustring) :
    Option DiagnosticMessage :=
  (s.scanner.getTokenLocation span.start span.stop).map (⟨template, arguments, ·⟩)

/-- From the state, whatever was reported before, the computation makes the given reports and does
nothing else. -/
def Tells (s : GraphQlSchema) (m : SchemaM Unit) (reports : List (Option DiagnosticMessage)) : Prop :=
  ∀ ds u s', m.run { s with diagnostics := ds } = .ok u s' →
    ∃ new, new.map some = reports ∧ s' = { s with diagnostics := ds ++ new }

section Tells

variable {α : Type} {s : GraphQlSchema} {reports reports' : List (Option DiagnosticMessage)}

theorem tells_pure : Tells s (pure ()) [] := by
  intro ds u s' hrun
  obtain ⟨-, rfl⟩ := Outcome.ok.inj hrun
  exact ⟨[], rfl, by rw [List.append_nil]⟩

theorem tells_bind {m : SchemaM Unit} {f : Unit → SchemaM Unit} (hm : Tells s m reports)
    (hf : Tells s (f ()) reports') : Tells s (m >>= f) (reports ++ reports') := by
  intro ds u s' hrun
  obtain ⟨_, s₁, hfirst, hrest⟩ := run_bind_eq_ok.1 hrun
  obtain ⟨new, hnew, rfl⟩ := hm ds _ s₁ hfirst
  obtain ⟨new', hnew', rfl⟩ := hf _ u s' hrest
  exact ⟨new ++ new', by rw [List.map_append, hnew, hnew'], by rw [List.append_assoc]⟩

theorem tells_read {f : GraphQlSchema → α} {k : α → SchemaM Unit}
    (hf : ∀ ds, f { s with diagnostics := ds } = f s) (h : Tells s (k (f s)) reports) :
    Tells s (read f >>= k) reports := by
  intro ds u s' hrun
  obtain ⟨a, _, hread, hrest⟩ := run_bind_eq_ok.1 hrun
  obtain ⟨rfl, rfl⟩ := Outcome.ok.inj hread
  rw [hf] at hrest
  exact h ds u s' hrest

theorem tells_require {e : Stop} {f : GraphQlSchema → Option α} {k : α → SchemaM Unit}
    (hf : ∀ ds, f { s with diagnostics := ds } = f s)
    (h : ∀ a, f s = some a → Tells s (k a) reports) : Tells s (Climb.require e f >>= k) reports := by
  intro ds u s' hrun
  obtain ⟨a, _, hrequire, hrest⟩ := run_bind_eq_ok.1 hrun
  obtain ⟨ha, rfl⟩ := run_require_eq_ok.1 hrequire
  exact h a ((hf ds).symm.trans ha) ds u s' hrest

theorem tells_forM {xs : List α} {f : α → SchemaM PUnit}
    {reports : α → List (Option DiagnosticMessage)} (hf : ∀ x ∈ xs, Tells s (f x) (reports x)) :
    Tells s (xs.forM f) (xs.flatMap reports) := by
  induction xs with
  | nil => exact tells_pure
  | cons x xs ih =>
    rw [List.forall_mem_cons] at hf
    exact tells_bind hf.1 (ih hf.2)

theorem tells_addDiagnosticAt {location : Location} {template : D} {arguments : List Ustring} :
    Tells s (addDiagnosticAt location template arguments) [some ⟨template, arguments, location⟩] := by
  intro ds u s' hrun
  obtain ⟨-, rfl⟩ := Outcome.ok.inj hrun
  exact ⟨[⟨template, arguments, location⟩], rfl, rfl⟩

theorem tells_reportAt {span : Span} {template : D} {arguments : List Ustring} :
    Tells s (do
      let location ← getLocationFromSyntax span
      addDiagnosticAt location template arguments) [reportAt s span template arguments] := by
  refine tells_require (fun _ => rfl) fun location hlocation => ?_
  rw [reportAt, hlocation]
  exact tells_addDiagnosticAt

end Tells

/-! ## What the passes leave alone -/

/-- The tables that the passes read stay. -/
structure KeepsTables (s s' : GraphQlSchema) : Prop where
  scanner : s'.scanner = s.scanner
  directives : s'.directives = s.directives
  declarations : s'.pool.declarations = s.pool.declarations
  symbols : s'.members.symbols = s.members.symbols
  directiveDefinitions : s'.members.directiveDefinitions = s.members.directiveDefinitions
  interfaces : s'.members.interfaces = s.members.interfaces
  objectsWithImplementations :
    s'.members.objectsWithImplementations = s.members.objectsWithImplementations
  forwardTypeReferences : s'.members.forwardTypeReferences = s.members.forwardTypeReferences

instance : IsPreorder GraphQlSchema KeepsTables where
  refl _ := ⟨rfl, rfl, rfl, rfl, rfl, rfl, rfl, rfl⟩
  trans _ _ _ h h' :=
    ⟨h'.scanner.trans h.scanner, h'.directives.trans h.directives,
      h'.declarations.trans h.declarations, h'.symbols.trans h.symbols,
      h'.directiveDefinitions.trans h.directiveDefinitions, h'.interfaces.trans h.interfaces,
      h'.objectsWithImplementations.trans h.objectsWithImplementations,
      h'.forwardTypeReferences.trans h.forwardTypeReferences⟩

theorem tables_modifyType {id : TypeId} {f : TypeNode → TypeNode} :
    Keeps KeepsTables (modifyType id f : SchemaM Unit) :=
  keeps_step fun _ => ⟨rfl, rfl, rfl, rfl, rfl, rfl, rfl, rfl⟩

theorem keptByReport_tables (template : D) : KeptByReport KeepsTables template :=
  fun _ _ _ => ⟨rfl, rfl, rfl, rfl, rfl, rfl, rfl, rfl⟩

theorem keptByChecks_tables : KeptByChecks KeepsTables where
  change _ _ hscanner h := ⟨hscanner, h.directives, h.declarations, h.symbols,
    h.directiveDefinitions, h.interfaces, h.objectsWithImplementations, h.forwardTypeReferences⟩
  setFlags _ _ _ := tables_modifyType
  report template _ := keptByReport_tables template

/-! ## The phases -/

/-- The states between the phases of a run of the constructor that returns. -/
structure Phases (source : Ustring) (schema : GraphQlSchema) where
  schema? : Option Schema
  block : Schema
  parsed : GraphQlSchema
  rooted : GraphQlSchema
  linked : GraphQlSchema
  directed : GraphQlSchema
  implemented : GraphQlSchema
  parse : (parseDocument source).run (initial source) = .ok schema? parsed
  setRoots : (setRootTypes block).run parsed = .ok () rooted
  link : checkForwardReferences.run rooted = .ok () linked
  direct : checkDirectiveReferences.run linked = .ok () directed
  implement : checkObjectImplementations.run directed = .ok () implemented
  unite : checkUnionMembers.run implemented = .ok () schema

theorem run_schemaOrEmpty {schema? : Option Schema} {schema : Schema} {s s' : GraphQlSchema}
    (h : (schemaOrEmpty schema?).run s = .ok schema s') : s' = s := by
  unfold schemaOrEmpty at h
  split at h
  · exact (Outcome.ok.inj h).2.symm
  · exact (Outcome.ok.inj h).2.symm

theorem nonempty_phases {source : Ustring} {schema : GraphQlSchema}
    (h : run source = .ok () schema) : Nonempty (Phases source schema) := by
  obtain ⟨schema?, parsed, hparse, hcheck⟩ := run_bind_eq_ok.1 h
  obtain ⟨block, _, hblock, hpasses⟩ := run_bind_eq_ok.1 hcheck
  obtain rfl := run_schemaOrEmpty hblock
  obtain ⟨_, rooted, hroots, hpasses₁⟩ := run_bind_eq_ok.1 hpasses
  obtain ⟨_, linked, hlink, hpasses₂⟩ := run_bind_eq_ok.1 hpasses₁
  obtain ⟨_, directed, hdirect, hpasses₃⟩ := run_bind_eq_ok.1 hpasses₂
  obtain ⟨_, implemented, himplement, hunite⟩ := run_bind_eq_ok.1 hpasses₃
  exact ⟨schema?, block, _, rooted, linked, directed, implemented, hparse, hroots, hlink, hdirect,
    himplement, hunite⟩

namespace Phases

variable {source : Ustring} {schema : GraphQlSchema} (p : Phases source schema)

theorem tables_linked : KeepsTables p.rooted p.linked :=
  keptByChecks_tables.keeps_checkForwardReferences (fun _ => tables_modifyType) (keptByReport_tables _)
    _ _ _ p.link

theorem tables_directed : KeepsTables p.linked p.directed :=
  keptByChecks_tables.keeps_checkDirectiveReferences (keptByReport_tables _) _ _ _ p.direct

theorem tables_implemented : KeepsTables p.directed p.implemented :=
  keptByChecks_tables.keeps_checkObjectImplementations (keptByReport_tables _)
    (keptByReport_tables _) (keptByReport_tables _) _ _ _ p.implement

theorem tables_united : KeepsTables p.implemented schema :=
  keptByChecks_tables.keeps_checkUnionMembers _ _ _ p.unite

section Steady

variable (template : D) (htemplate : template.isOfOnePlace = true)

include htemplate in
theorem steady_rooted : Steady template p.parsed p.rooted :=
  (keptByChecks_steady template htemplate).keeps_setRootTypes _ _ _ p.setRoots

include htemplate in
theorem steady_linked
    (h : template ≠ .cannotAnnotateWithATypeThatRecursivelyReferencesTheDirective0) :
    Steady template p.rooted p.linked :=
  (keptByChecks_steady template htemplate).keeps_checkForwardReferences (fun _ => steady_modifyType)
    (keptByReport_steady h.symm) _ _ _ p.link

include htemplate in
theorem steady_directed (h : template ≠ .unknownArgument0) :
    Steady template p.linked p.directed :=
  (keptByChecks_steady template htemplate).keeps_checkDirectiveReferences (keptByReport_steady h.symm)
    _ _ _ p.direct

include htemplate in
theorem steady_implemented (hmissing : template ≠ .theField0InInterface1IsNotImplemented)
    (hmatch : template ≠ .type0DoesNotMatchType1FromTheInterface2)
    (hinterface : template ≠ .interface0IsNotDefined) :
    Steady template p.directed p.implemented :=
  (keptByChecks_steady template htemplate).keeps_checkObjectImplementations
    (keptByReport_steady hmissing.symm) (keptByReport_steady hmatch.symm)
    (keptByReport_steady hinterface.symm) _ _ _ p.implement

include htemplate in
theorem steady_united : Steady template p.implemented schema :=
  (keptByChecks_steady template htemplate).keeps_checkUnionMembers _ _ _ p.unite

include htemplate in
/-- A template of one pass was not reported before the passes. -/
theorem regular_parsed (hlexical : template.isLexical = false) (htype : template ≠ .duplicateType0) :
    Regular p.parsed ∧ reportsOf template p.parsed.diagnostics = [] :=
  steady_parseDocument htemplate hlexical htype source _ _ _ p.parse (regular_initial source)

end Steady

end Phases

end GraphQlSchema

end Flashpoint
