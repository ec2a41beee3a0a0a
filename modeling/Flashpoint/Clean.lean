import Flashpoint.Parser

/-!
# Runs that report nothing

A parser is `clean` while it has no diagnostics. As diagnostics are only added, a run that ends clean
was clean all along, and the branches of the source that report something drop out of what is proved
about it. `Quiet` computations touch neither the nodes nor the members of the parser: reading tokens,
reporting, looking things up.
-/

namespace Flashpoint

open Library Climb

namespace ParserM

variable {M α β : Type}

/-- The states in which nothing was reported. -/
def clean : LowerSet (GraphQlParser M) where
  carrier := { s | s.diagnostics = [] }
  lower' := by
    intro s t hle hs
    have hfront : t.diagnostics <+: s.diagnostics := hle.1
    rw [show s.diagnostics = [] from hs] at hfront
    exact List.prefix_nil.1 hfront

@[simp] theorem mem_clean {s : GraphQlParser M} : s ∈ clean ↔ s.diagnostics = [] := Iff.rfl

/-- The states in which nothing was reported and every step recorded meets a condition. -/
def cleanWith (p : Step → Prop) : LowerSet (GraphQlParser M) where
  carrier := { s | s.diagnostics = [] ∧ ∀ step ∈ s.steps, p step }
  lower' := by
    intro s t hle hs
    exact ⟨clean.lower hle hs.1, fun step hstep => hs.2 step (hle.2.subset hstep)⟩

theorem cleanWith_le_clean {p : Step → Prop} : (cleanWith p : LowerSet (GraphQlParser M)) ≤ clean :=
  fun _ hs => hs.1

/-! ## Reports -/

theorem never_addDiagnosticAt {location : Location} {template : D} {arguments : List Ustring} :
    Never clean (addDiagnosticAt location template arguments : ParserM M Unit) := by
  intro s a s' h
  obtain ⟨-, rfl, hclean⟩ := ends_step.1 h
  simp only [mem_clean, List.append_eq_nil_iff, List.cons_ne_self, and_false] at hclean

theorem never_addDiagnostic {template : D} {arguments : List Ustring} :
    Never clean (addDiagnostic template arguments : ParserM M Unit) :=
  never_bind fun _ => never_addDiagnosticAt

theorem never_reportExpected {text : Ustring} {result : GraphQlToken} :
    Never clean (reportExpected text result : ParserM M Unit) := by
  unfold reportExpected
  split
  · exact never_addDiagnostic
  · exact never_bind fun _ => never_addDiagnostic

/-- A report at a node: its location is looked up first. -/
theorem never_reportAt {span : Span} {template : D} {arguments : List Ustring} :
    Never clean (do
      let location ← getLocationFromSyntax span
      addDiagnosticAt location template arguments : ParserM M Unit) :=
  never_bind fun _ => never_addDiagnosticAt

/-! ## Quiet computations -/

/-- The nodes and the members stay. -/
structure Quiet (s s' : GraphQlParser M) : Prop where
  pool : s'.pool = s.pool
  members : s'.members = s.members

instance : IsPreorder (GraphQlParser M) Quiet where
  refl _ := ⟨rfl, rfl⟩
  trans _ _ _ h h' := ⟨h'.pool.trans h.pool, h'.members.trans h.members⟩

theorem quiet_scan {f : GraphQlScanner → α × GraphQlScanner} :
    Keeps Quiet (scan f : ParserM M α) := keeps_step fun _ => ⟨rfl, rfl⟩

theorem quiet_read {f : GraphQlParser M → α} : Keeps Quiet (read f) :=
  keeps_bind keeps_get fun _ => keeps_pure

theorem quiet_deref {f : GraphQlParser M → Option α} : Keeps Quiet (deref f) := keeps_require

theorem quiet_follow {p : Option α} : Keeps Quiet (follow p : ParserM M α) := quiet_deref

theorem quiet_throwException : Keeps Quiet (throwException : ParserM M α) := keeps_stop

theorem quiet_outOfFuel : Keeps Quiet (outOfFuel : ParserM M α) := keeps_stop

theorem quiet_addDiagnosticAt {location : Location} {template : D} {arguments : List Ustring} :
    Keeps Quiet (addDiagnosticAt location template arguments : ParserM M Unit) :=
  keeps_step fun _ => ⟨rfl, rfl⟩

theorem quiet_addDiagnostic {template : D} {arguments : List Ustring} :
    Keeps Quiet (addDiagnostic template arguments : ParserM M Unit) :=
  keeps_bind quiet_read fun _ => quiet_addDiagnosticAt

theorem quiet_getLocationFromSyntax {span : Span} :
    Keeps Quiet (getLocationFromSyntax span : ParserM M Location) := keeps_require

theorem quiet_reportAt {span : Span} {template : D} {arguments : List Ustring} :
    Keeps Quiet (do
      let location ← getLocationFromSyntax span
      addDiagnosticAt location template arguments : ParserM M Unit) :=
  keeps_bind quiet_getLocationFromSyntax fun _ => quiet_addDiagnosticAt

theorem quiet_hasDiagnosticInSyntax {span : Span} {template : D} :
    Keeps Quiet (hasDiagnosticInSyntax span template : ParserM M Bool) :=
  keeps_bind quiet_getLocationFromSyntax fun _ => quiet_read

theorem quiet_takeErrorsFromScanner : Keeps Quiet (takeErrorsFromScanner : ParserM M Unit) :=
  keeps_step fun _ => ⟨rfl, rfl⟩

theorem quiet_takeNextToken {treatKeywordAsName skipWhiteSpace : Bool} :
    Keeps Quiet (takeNextToken treatKeywordAsName skipWhiteSpace : ParserM M GraphQlToken) :=
  quiet_scan

theorem quiet_takeToken : Keeps Quiet (takeToken : ParserM M GraphQlToken) := quiet_takeNextToken

theorem quiet_getTokenValue : Keeps Quiet (getTokenValue : ParserM M Ustring) := quiet_read

theorem quiet_getStringValue : Keeps Quiet (getStringValue : ParserM M Ustring) := quiet_read

theorem quiet_scanExpected {token : GraphQlToken} {treatKeywordAsName : Bool} :
    Keeps Quiet (scanExpected token treatKeywordAsName : ParserM M Bool) := by
  refine keeps_bind quiet_takeNextToken fun result => ?_
  split
  · exact keeps_pure
  split
  · exact quiet_throwException
  · refine keeps_bind ?_ fun _ => keeps_pure
    unfold reportExpected
    split
    · exact quiet_addDiagnostic
    · exact keeps_bind quiet_getTokenValue fun _ => quiet_addDiagnostic

theorem quiet_scanOptional {token : GraphQlToken} {treatKeywordAsName : Bool} :
    Keeps Quiet (scanOptional token treatKeywordAsName : ParserM M Bool) :=
  keeps_bind quiet_scan fun _ => keeps_pure

theorem quiet_skipTo {tokens : List GraphQlToken} :
    Keeps Quiet (skipTo tokens : ParserM M GraphQlToken) := quiet_scan

theorem quiet_skipBlock : Keeps Quiet (skipBlock : ParserM M Unit) := quiet_scan

theorem quiet_createSpan : Keeps Quiet (createSpan : ParserM M Span) := quiet_read

theorem quiet_finishSpan {span : Span} : Keeps Quiet (finishSpan span : ParserM M Span) :=
  quiet_read

theorem quiet_createName {identifier : Ustring} :
    Keeps Quiet (createName identifier : ParserM M Name) :=
  keeps_bind quiet_createSpan fun _ => keeps_pure

theorem quiet_typeNode {id : TypeId} : Keeps Quiet (typeNode id : ParserM M TypeNode) := quiet_deref

theorem quiet_declaration {id : DeclarationId} :
    Keeps Quiet (declaration id : ParserM M Declaration) := quiet_deref

theorem quiet_getTypeName {type : TypeNode} :
    Keeps Quiet (getTypeName type : ParserM M Ustring) := by
  have hname : Keeps Quiet (typeNameText type : ParserM M Ustring) := by
    unfold typeNameText
    split
    all_goals first
      | exact keeps_pure
      | exact keeps_bind quiet_follow fun _ => keeps_pure
      | exact quiet_throwException
  exact keeps_bind hname fun _ => keeps_pure

/-! ## Clean runs of quiet computations -/

theorem ends_scan {g : LowerSet (GraphQlParser M)} {f : GraphQlScanner → α × GraphQlScanner}
    {s s' : GraphQlParser M} {a : α} (h : Ends g (scan f) s a s') :
    a = (f s.scanner).1 ∧ s' = { s with scanner := (f s.scanner).2 } :=
  ⟨(ends_step.1 h).1, (ends_step.1 h).2.1⟩

theorem ends_read {g : LowerSet (GraphQlParser M)} {f : GraphQlParser M → α}
    {s s' : GraphQlParser M} {a : α} (h : Ends g (read f) s a s') : a = f s ∧ s' = s := by
  obtain ⟨_, _, hget, hpure⟩ := ends_bind.1 h
  obtain ⟨rfl, rfl, -⟩ := ends_get.1 hget
  obtain ⟨rfl, rfl, -⟩ := ends_pure.1 hpure
  exact ⟨rfl, rfl⟩

/-- A property of the nodes and the members. -/
def On (P : Pool → M → Prop) (s : GraphQlParser M) : Prop := P s.pool s.members

variable {P : Pool → M → Prop}

/-- What holds of the nodes and the members holds after a quiet computation. -/
theorem ensures_quiet {m : ParserM M α} (h : Keeps Quiet m) :
    Ensures clean (On P) m fun _ => On P := by
  intro s a s' hs hm
  have hquiet := h s a s' hm.1
  simpa only [On, hquiet.pool, hquiet.members] using hs

/-- An expected token is there in a clean run. -/
theorem ensures_scanExpected {token : GraphQlToken} {treatKeywordAsName : Bool} :
    Ensures clean (On P) (scanExpected token treatKeywordAsName) fun found s =>
      found = true ∧ On P s := by
  refine ensures_bind (ensures_quiet quiet_takeNextToken) fun result => ?_
  split
  · exact ensures_pure fun s hs => ⟨rfl, hs⟩
  split
  · exact never_stop.ensures
  · exact (Never.bind never_reportExpected).ensures

theorem ensures_scanExpectedOr {token : GraphQlToken} {template : D} {treatKeywordAsName : Bool} :
    Ensures clean (On P) (scanExpectedOr token template treatKeywordAsName) fun found s =>
      found = true ∧ On P s := by
  refine ensures_bind (ensures_quiet quiet_takeNextToken) fun result => ?_
  split
  · exact ensures_pure fun s hs => ⟨rfl, hs⟩
  · exact (never_bind fun _ => Never.bind never_addDiagnostic).ensures

/-- The name that `createName` makes. -/
theorem ensures_createName {identifier : Ustring} :
    Ensures clean (On P) (createName identifier) fun name s =>
      name.identifier = identifier ∧ On P s :=
  ensures_bind (ensures_quiet quiet_createSpan) fun _ => ensures_pure fun _ hs => ⟨rfl, hs⟩

end ParserM

end Flashpoint
