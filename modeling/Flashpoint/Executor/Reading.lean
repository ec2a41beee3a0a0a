import Flashpoint.Executor.Grammar

/-!
# What an accepted query reads as

In a run without a report every function of the parser takes the lexemes of the node it returns
(`valueAt_parseValue`, `directivesAt_parseDirectives`, `selectionsAt_parseSelections`), so the lexemes
of an accepted query are those of its document. The end of the document passes for a brace or a
parenthesis here and there, but never in such a run: what follows could not be read.
-/

namespace Flashpoint

open Library Climb

namespace GraphQlExecutor

open ParserM

variable {s s' : GraphQlExecutor} {α : Type}

/-! ## Steps of such a run -/

theorem never_reportMismatch {literalType : Ustring} {type : TypeNode} :
    Never clean (reportMismatch literalType type) :=
  never_bind fun _ => never_addDiagnostic

theorem never_reportValueMismatch {value : Ustring} {type : TypeNode} :
    Never clean (reportValueMismatch value type) :=
  never_bind fun _ => never_addDiagnostic

/-! ## Values -/

/-- A literal of one token, which was taken before. -/
structure Literal (l : Lexeme) (s s' : GraphQlExecutor) (a : Option Value) : Prop where
  scanner : s'.scanner = s.scanner
  value : ∃ value, a = some value ∧ ∀ y, ValueAt valueReader (l :: y) value y

theorem literal_parseEnumValue {l : Lexeme} (hvalue : s.scanner.getValue = l.value)
    (htoken : l.token = .gName) {type : TypeNode} {a : Option Value}
    (h : Ends clean (parseEnumValue type) s a s') : Literal l s s' a := by
  have h := ends_after_when never_reportValueMismatch (ends_read_bind h)
  obtain ⟨name, -, h⟩ := ends_require_bind h
  obtain ⟨symbol, -, h⟩ := ends_require_bind h
  obtain ⟨d, -, h⟩ := ends_require_bind h
  split at h
  · have h := ends_read_bind (ends_after_when never_addDiagnostic h)
    obtain ⟨rfl, rfl, -⟩ := ends_pure.1 h
    exact ⟨rfl, _, rfl, fun y => hvalue ▸ .enum htoken⟩
  · obtain ⟨hnone, -⟩ := ends_require.1 h
    cases hnone

theorem literal_parseBooleanValue {l : Lexeme} {b : Bool}
    (htoken : l.token = if b then .trueKeyword else .falseKeyword) {type : TypeNode}
    {a : Option Value} (h : Ends clean (parseBooleanValue type b) s a s') : Literal l s s' a := by
  have h := ends_read_bind (ends_after_when never_reportMismatch h)
  obtain ⟨rfl, rfl, -⟩ := ends_pure.1 h
  exact ⟨rfl, _, rfl, fun y => .boolean htoken⟩

theorem literal_parseScalarValue {l : Lexeme} (hvalue : s.scanner.getValue = l.value)
    {type : TypeNode} {a : Option Value}
    (h : Ends clean (parseScalarValue type l.token) s a s') : Literal l s s' a := by
  unfold parseScalarValue at h
  split at h
  · next htoken =>
    have h := ends_read_bind (ends_after_when never_reportValueMismatch h)
    obtain ⟨rfl, rfl, -⟩ := ends_pure.1 h
    exact ⟨rfl, _, rfl, fun y => .null htoken⟩
  · next htoken =>
    have h := ends_read_bind (ends_read_bind (ends_after_when never_reportMismatch h))
    obtain ⟨rfl, rfl, -⟩ := ends_pure.1 h
    exact ⟨rfl, _, rfl, fun y => hvalue ▸ .string htoken⟩
  · next htoken =>
    have h := ends_read_bind (ends_read_bind (ends_after_when never_reportMismatch h))
    obtain ⟨rfl, rfl, -⟩ := ends_pure.1 h
    exact ⟨rfl, _, rfl, fun y => hvalue ▸ .int htoken⟩
  · next htoken =>
    have h := ends_read_bind (ends_read_bind (ends_after_when never_reportMismatch h))
    obtain ⟨rfl, rfl, -⟩ := ends_pure.1 h
    exact ⟨rfl, _, rfl, fun y => hvalue ▸ .float htoken⟩
  · next htoken => exact literal_parseBooleanValue (by rw [htoken]; rfl) h
  · next htoken => exact literal_parseBooleanValue (by rw [htoken]; rfl) h
  · next htoken => exact literal_parseEnumValue hvalue htoken h
  · exact absurd (ends_read_bind h) (Never.bind never_addDiagnostic _ _ _)

theorem still_reportDuplicateFields {fields : List ObjectField} :
    Keeps Still (reportDuplicateFields fields) :=
  keeps_bind still_recordStep fun _ => keeps_bind still_read fun _ => keeps_forM fun _ _ =>
    keeps_forM fun _ _ => keeps_when still_reportAt

theorem still_reportMissingFields {requiredFields : List Ustring} {span : Span}
    {fields : List ObjectField} : Keeps Still (reportMissingFields requiredFields span fields) :=
  keeps_forM fun _ _ => keeps_when still_reportAt

theorem still_expectCloseBracket : Keeps Still expectCloseBracket :=
  keeps_bind still_read fun _ => keeps_when (keeps_bind still_read fun _ => still_addDiagnostic)

theorem never_skipObjectValue {type : TypeNode} : Never clean (skipObjectValue type) :=
  never_bind fun _ => never_bind fun _ => never_bind fun _ => never_bind fun _ => never_bind fun _ =>
    Never.bind never_addDiagnosticAt

theorem valueAt_parseListLiteral {l : Lexeme} (htoken : l.token = .openBracket) {id : TypeId}
    {type : TypeNode} {elements : ExecutorM (List Value)} (helements : TakesAs elements (ElementsAt valueReader))
    {a : Option Value} (h : Ends clean (parseListLiteral id type elements) s a s')
    (hne : s'.scanner.rest ≠ []) :
    OptionalValueAt valueReader (l :: s.scanner.rest) a s'.scanner.rest := by
  have h := ends_read_bind (ends_after_when never_reportValueMismatch h)
  obtain ⟨_, s₁, hclear, h₁⟩ := ends_bind.1 h
  obtain ⟨values, s₂, hvalues, h₂⟩ := ends_bind.1 h₁
  obtain ⟨_, s₃, hexpect, h₃⟩ := ends_bind.1 h₂
  obtain ⟨_, s₄, hrestore, h₄⟩ := ends_bind.1 h₃
  obtain ⟨rfl, rfl, -⟩ := ends_pure.1 (ends_read_bind h₄)
  have hafter := (scanner_of_still still_modifyType hrestore).trans
    (scanner_of_still still_expectCloseBracket hexpect)
  rw [hafter] at hne ⊢
  rw [← scanner_of_still still_modifyType hclear]
  exact .value (.list htoken (helements hvalues hne))

theorem valueAt_parseObjectLiteral {l : Lexeme} (htoken : l.token = .openBrace) {type : TypeNode}
    {fields : InputObject → Ustring → ExecutorM (Option (List ObjectField))}
    (hfields : ∀ inputObject name, TakesAs (fields inputObject name) fun x a y =>
      ∃ fields, a = some fields ∧ ObjectFieldsAt valueReader x fields y)
    {a : Option Value} (h : Ends clean (parseObjectLiteral type fields) s a s')
    (hne : s'.scanner.rest ≠ []) :
    OptionalValueAt valueReader (l :: s.scanner.rest) a s'.scanner.rest := by
  obtain ⟨name, -, h⟩ := ends_require_bind (ends_read_bind h)
  obtain ⟨symbol, -, h⟩ := ends_require_bind h
  split at h
  · exact absurd h (Never.bind never_addDiagnostic _ _ _)
  obtain ⟨d, -, h⟩ := ends_require_bind h
  split at h
  · obtain ⟨result, s₁, hresult, h₁⟩ := ends_bind.1 h
    split at h₁
    · obtain ⟨rfl, rfl, -⟩ := ends_pure.1 h₁
      obtain ⟨_, hsome, -⟩ := hfields _ _ hresult hne
      cases hsome
    · obtain ⟨_, s₂, hduplicates, h₂⟩ := ends_bind.1 (ends_read_bind h₁)
      obtain ⟨_, s₃, hmissing, h₃⟩ := ends_bind.1 h₂
      obtain ⟨rfl, rfl, -⟩ := ends_pure.1 h₃
      have hscanner := (scanner_of_still still_reportMissingFields hmissing).trans
        (scanner_of_still still_reportDuplicateFields hduplicates)
      rw [hscanner] at hne ⊢
      obtain ⟨fields, hsome, hat⟩ := hfields _ _ hresult hne
      obtain rfl := Option.some.inj hsome
      exact .value (.object htoken hat)
  · obtain ⟨hnone, -⟩ := ends_require.1 h
    cases hnone

theorem never_parseValueAfterEnd {id : TypeId} {type : TypeNode} {elements : ExecutorM (List Value)}
    {fields : InputObject → Ustring → ExecutorM (Option (List ObjectField))} :
    Never clean (parseValueAfterToken id type .endOfDocument elements fields) :=
  never_bind fun _ => Never.bind never_addDiagnostic

/-- A value after its first token. -/
theorem valueAt_parseValueAfterToken {l : Lexeme} (hvalue : s.scanner.getValue = l.value)
    {id : TypeId} {type : TypeNode} {elements : ExecutorM (List Value)}
    (helements : TakesAs elements (ElementsAt valueReader))
    {fields : InputObject → Ustring → ExecutorM (Option (List ObjectField))}
    (hfields : ∀ inputObject name, TakesAs (fields inputObject name) fun x a y =>
      ∃ fields, a = some fields ∧ ObjectFieldsAt valueReader x fields y)
    {a : Option Value} (h : Ends clean (parseValueAfterToken id type l.token elements fields) s a s')
    (hne : s'.scanner.rest ≠ []) :
    OptionalValueAt valueReader (l :: s.scanner.rest) a s'.scanner.rest := by
  unfold parseValueAfterToken at h
  split at h
  · next htoken => exact valueAt_parseListLiteral htoken helements h hne
  · next htoken =>
    obtain ⟨rfl, rfl, -⟩ := ends_pure.1 h
    exact .bracket htoken
  · next htoken =>
    split at h
    · exact absurd h (never_skipObjectValue _ _ _)
    · exact valueAt_parseObjectLiteral htoken hfields h hne
  · obtain ⟨hscanner, value, rfl, hat⟩ := literal_parseScalarValue hvalue h
    rw [hscanner]
    exact .value (hat _)

theorem takes_values (fuel : Nat) :
    (∀ id, TakesAs (parseValue fuel id) (OptionalValueAt valueReader)) ∧
      (∀ id, TakesAs (parseListValues fuel id) (ElementsAt valueReader)) ∧
        ∀ inputObject name parsedFields, TakesAs (parseObjectFields fuel inputObject name parsedFields)
          fun x a y => ∃ fields, a = some fields ∧ ObjectFieldsAt valueReader x fields y := by
  induction fuel with
  | zero =>
    refine ⟨fun id => ?_, fun id => ?_, fun inputObject name parsedFields => ?_⟩
    all_goals exact fun h => absurd h ends_stop
  | succ fuel ih =>
    obtain ⟨ihvalue, ihelements, ihfields⟩ := ih
    refine ⟨fun id => ?_, fun id => ?_, fun inputObject typeName parsedFields => ?_⟩
    · intro s a s' h hne
      unfold parseValue at h
      obtain ⟨token, s₁, htoken, h₁⟩ := ends_bind.1 h
      obtain ⟨_, s₂, hupdate, h₂⟩ := ends_bind.1 h₁
      obtain ⟨type, -, h₂⟩ := ends_require_bind h₂
      obtain ⟨_, s₃, hrecord, h₃⟩ := ends_bind.1 h₂
      have hscanner := (scanner_of_still still_recordStep hrecord).trans
        (scanner_of_still (still_update fun _ => rfl) hupdate)
      rcases took_of_takeNextToken htoken with ⟨rfl, -, -⟩ | ⟨l, htook, rfl⟩
      · exact absurd h₃ (never_parseValueAfterEnd _ _ _)
      · rw [htook.rest, ← hscanner]
        exact valueAt_parseValueAfterToken (by rw [hscanner, htook.value]) (ihelements id)
          (fun inputObject name => ihfields inputObject name []) h₃ hne
    · intro s a s' h hne
      unfold parseListValues at h
      obtain ⟨value, s₁, hvalue, h₁⟩ := ends_bind.1 h
      split at h₁
      · obtain ⟨rfl, rfl, -⟩ := ends_pure.1 h₁
        exact (ihvalue id hvalue hne).elementsAt
      · obtain ⟨values, s₂, hvalues, h₂⟩ := ends_bind.1 h₁
        obtain ⟨rfl, rfl, -⟩ := ends_pure.1 h₂
        have hrest := ihelements id hvalues hne
        exact .cons (ihvalue id hvalue hrest.ne_nil).valueAt hrest
    · intro s a s' h hne
      unfold parseObjectFields at h
      obtain ⟨token, s₁, htoken, h₁⟩ := ends_bind.1 h
      rcases took_of_takeNextToken htoken with ⟨rfl, -, hend⟩ | ⟨l, htook, rfl⟩
      · rw [if_pos (.inr rfl)] at h₁
        obtain ⟨rfl, rfl, -⟩ := ends_pure.1 h₁
        exact absurd hend hne
      split at h₁
      · next hclose =>
        obtain ⟨rfl, rfl, -⟩ := ends_pure.1 h₁
        refine ⟨[], rfl, ?_⟩
        rw [htook.rest]
        exact .close (hclose.resolve_right htook.token)
      split at h₁
      · exact absurd h₁ (Never.bind never_addDiagnostic _ _ _)
      next hname =>
      obtain ⟨fields, -, h₁⟩ := ends_require_bind (ends_read_bind h₁)
      split at h₁
      · exact absurd h₁ (Never.bind never_addDiagnostic _ _ _)
      next definition _ =>
      obtain ⟨_, s₂, hduplicate, h₂⟩ := ends_bind.1 h₁
      have hs₂ : s₂.scanner = s₁.scanner :=
        scanner_of_still (keeps_when (keeps_bind still_modifyMembers fun _ => still_recordStep))
          hduplicate
      have h₃ := ends_createName_bind (ends_read_bind h₂)
      obtain ⟨found, s₄, hcolon, h₄⟩ := ends_bind.1 h₃
      obtain ⟨rfl, c, hc, htokenc⟩ := took_of_scanExpected le_rfl hcolon (by decide)
      rw [if_pos rfl] at h₄
      obtain ⟨_, s₅, hahead, h₅⟩ := ends_bind.1 h₄
      have hs₅ := scanner_of_still (keeps_bind still_read fun _ => still_recordStep) hahead
      obtain ⟨value, s₆, hvalue, h₆⟩ := ends_bind.1 h₅
      obtain ⟨rest, s₇, hrest, h₇⟩ := ends_bind.1 h₆
      obtain ⟨rfl, rfl, -⟩ := ends_pure.1 h₇
      obtain ⟨others, rfl, hothers⟩ := ihfields _ _ _ hrest hne
      have hat := ihvalue _ hvalue hothers.ne_nil
      refine ⟨_, rfl, ?_⟩
      rw [hs₅] at hat
      rw [htook.rest, ← hs₂, hc.rest]
      show ObjectFieldsAt valueReader _ (.mk _ ⟨_, s₁.scanner.getValue⟩ value :: others) _
      rw [htook.value]
      exact .cons (not_not.1 hname) htokenc hat hothers

/-! ## Arguments and directives -/

theorem ArgumentsAt.ne_nil {x y : List Lexeme} {arguments : List Argument}
    (h : ArgumentsAt x arguments y) : x ≠ [] := by
  cases h <;> exact List.cons_ne_nil _ _

theorem DirectivesAt.ne_nil {location : DirectiveLocation} {x y : List Lexeme}
    {directives : List Directive} (h : DirectivesAt location x directives y) (hne : y ≠ []) :
    x ≠ [] := by
  cases h with
  | nil => exact hne
  | cons => exact List.cons_ne_nil _ _

theorem still_recordValueAhead : Keeps Still recordValueAhead :=
  keeps_bind still_read fun _ => still_recordStep

theorem still_reportMissingArguments {definitions : UstringMap InputValueDefinition}
    {arguments : UstringMap Argument} {target : Span} :
    Keeps Still (reportMissingArguments definitions arguments target) :=
  keeps_forM fun _ _ => keeps_bind still_follow fun _ => keeps_bind still_deref fun _ =>
    keeps_when (keeps_when still_reportAt)

theorem still_finishArguments {definitions : UstringMap InputValueDefinition}
    {arguments : UstringMap Argument} {target : Span} :
    Keeps Still (finishArguments definitions arguments target) :=
  keeps_bind still_read fun _ => keeps_bind still_recordStep fun _ =>
    keeps_bind still_reportMissingArguments fun _ => keeps_pure

theorem still_checkDirectiveLocation {definition : DirectiveDefinition}
    {location : DirectiveLocation} {span : Span} {name : Ustring} :
    Keeps Still (checkDirectiveLocation definition location span name) :=
  keeps_when (keeps_bind keeps_require fun _ => keeps_bind keeps_require fun _ =>
    keeps_step fun _ => rfl)

/-- The directives at a place, in a map. -/
def MappedDirectivesAt (location : DirectiveLocation) (x : List Lexeme)
    (directives : UstringMap Directive) (y : List Lexeme) : Prop :=
  ∃ ds, directives = directivesByName ds ∧ DirectivesAt location x ds y

theorem takes_parseArgumentValue {fuel : Nat} {definition : InputValueDefinition} :
    TakesAs (parseArgumentValue fuel (some definition)) (OptionalValueAt valueReader) := by
  intro s a s' h hne
  obtain ⟨typeId, -, h⟩ := ends_require_bind h
  obtain ⟨_, s₁, hahead, h₁⟩ := ends_bind.1 h
  rw [← scanner_of_still still_recordValueAhead hahead]
  exact (takes_values fuel).1 typeId h₁ hne

/-- An argument after its name, before the others. -/
theorem argumentsAt_parseArgument {l : Lexeme} (hvalue : s.scanner.getValue = l.value)
    (hname : l.asName = .gName) {fuel : Nat} {definitions : UstringMap InputValueDefinition}
    {directives : ExecutorM (UstringMap Directive)}
    (hdirectives : TakesAs directives (MappedDirectivesAt .argumentDefinition)) {a : Option Argument}
    (h : Ends clean (parseArgument fuel definitions directives) s a s')
    (hne : s'.scanner.rest ≠ []) : ∃ argument, a = some argument ∧ ∀ {arguments y},
      ArgumentsAt s'.scanner.rest arguments y →
        ArgumentsAt (l :: s.scanner.rest) (argument :: arguments) y := by
  have h := ends_read_bind h
  have h₁ := ends_createName_bind h
  obtain ⟨_, s₂, hunknown, h₂⟩ := ends_bind.1 (ends_read_bind h₁)
  obtain ⟨hknown, rfl⟩ := never_addDiagnostic.ends_when hunknown
  obtain ⟨found, s₃, hcolon, h₃⟩ := ends_bind.1 h₂
  obtain ⟨rfl, c, hc, htoken⟩ := took_of_scanExpected le_rfl hcolon (by decide)
  rw [if_pos rfl] at h₃
  obtain ⟨value, s₄, hargument, h₄⟩ := ends_bind.1 h₃
  obtain ⟨supplied, s₅, hsupplied, h₅⟩ := ends_bind.1 h₄
  obtain ⟨rfl, rfl, -⟩ := ends_pure.1 h₅
  obtain ⟨ds, rfl, hds⟩ := hdirectives hsupplied hne
  obtain ⟨definition, hdefinition⟩ := Option.ne_none_iff_exists'.1
    fun hnone => hknown (Option.isNone_iff_eq_none.2 hnone)
  rw [hdefinition] at hargument
  have hat := takes_parseArgumentValue hargument (hds.ne_nil hne)
  refine ⟨_, rfl, fun harguments => ?_⟩
  rw [hc.rest]
  show ArgumentsAt _ (.mk _ ⟨_, s₂.scanner.getValue⟩ value _ :: _) _
  rw [hvalue]
  exact .cons hname htoken hat hds harguments

/-- The arguments after an opening parenthesis, in a map. -/
def MappedArgumentsAt (x : List Lexeme) (arguments : Option (UstringMap Argument)) (y : List Lexeme) :
    Prop :=
  ∃ args, arguments = some (argumentsByName args) ∧ ArgumentsAt x args y

theorem optionalArgumentsAt_parseDirectiveArguments {definition : DirectiveDefinition} {name : Name}
    {arguments : UstringMap InputValueDefinition → ExecutorM (Option (UstringMap Argument))}
    (harguments : ∀ definitions, TakesAs (arguments definitions) MappedArgumentsAt)
    {a : Option (UstringMap Argument × Name)}
    (h : Ends clean (parseDirectiveArguments definition name arguments) s a s')
    (hne : s'.scanner.rest ≠ []) : ∃ args span,
      a = some ((args.map argumentsByName).getD ∅, { name with span }) ∧
        OptionalArgumentsAt s.scanner.rest args s'.scanner.rest := by
  obtain ⟨found, s₁, hopen, h₁⟩ := ends_bind.1 h
  rcases took_of_scanOptional hopen (by decide) with
    ⟨rfl, l, htook, htoken⟩ | ⟨rfl, hrest, hother⟩
  · rw [if_pos rfl] at h₁
    obtain ⟨supplied, s₂, hsupplied, h₂⟩ := ends_bind.1 h₁
    split at h₂
    · obtain ⟨rfl, rfl, -⟩ := ends_pure.1 h₂
      obtain ⟨_, hsome, -⟩ := harguments _ hsupplied hne
      cases hsome
    · obtain ⟨span, s₃, hfinish, h₃⟩ := ends_bind.1 h₂
      obtain ⟨rfl, rfl, -⟩ := ends_pure.1 h₃
      rw [scanner_of_still still_finishArguments hfinish] at hne ⊢
      obtain ⟨args, hsome, hat⟩ := harguments _ hsupplied hne
      obtain rfl := Option.some.inj hsome
      refine ⟨some args, span, rfl, ?_⟩
      rw [htook.rest]
      exact .some htoken hat
  · rw [if_neg Bool.false_ne_true] at h₁
    obtain ⟨_, s₂, hrecord, h₂⟩ := ends_bind.1 h₁
    obtain ⟨rfl, rfl, -⟩ := ends_pure.1 h₂
    refine ⟨none, name.span, rfl, ?_⟩
    rw [scanner_of_still still_recordStep hrecord, hrest]
    exact .none (notAhead_of hother)

/-- A directive after the at sign, before the others. -/
theorem directivesAt_parseDirective {location : DirectiveLocation}
    {arguments : UstringMap InputValueDefinition → ExecutorM (Option (UstringMap Argument))}
    (harguments : ∀ definitions, TakesAs (arguments definitions) MappedArgumentsAt)
    {a : Option Directive} (h : Ends clean (parseDirective location arguments) s a s')
    (hne : s'.scanner.rest ≠ []) : ∃ directive, a = some directive ∧ ∀ {l directives y},
      l.token = .atSign → DirectivesAt location s'.scanner.rest directives y →
        (∀ other ∈ directives, other.name.identifier ≠ directive.name.identifier) →
          DirectivesAt location (l :: s.scanner.rest) (directive :: directives) y := by
  obtain ⟨token, s₁, htoken, h₁⟩ := ends_bind.1 h
  split at h₁
  · exact absurd (ends_read_bind h₁) (Never.bind never_addDiagnostic _ _ _)
  next hname =>
  obtain rfl : token = .gName := not_not.1 hname
  obtain ⟨n, htook, hasName, htight⟩ := took_of_takeTightName htoken
  have h₁ := ends_read_bind h₁
  have h₁ := ends_read_bind h₁
  have h₁ := ends_read_bind h₁
  split at h₁
  · obtain ⟨place, -, h₁⟩ := ends_require_bind h₁
    exact absurd h₁ (Never.bind never_addDiagnosticAt _ _ _)
  next definition _ =>
  have h₂ := ends_createName_bind h₁
  obtain ⟨_, s₃, hlocation, h₃⟩ := ends_bind.1 h₂
  have hs₃ := scanner_of_still still_checkDirectiveLocation hlocation
  obtain ⟨result, s₄, hresult, h₄⟩ := ends_bind.1 h₃
  split at h₄
  · obtain ⟨rfl, rfl, -⟩ := ends_pure.1 h₄
    obtain ⟨_, _, hsome, -⟩ := optionalArgumentsAt_parseDirectiveArguments harguments hresult hne
    cases hsome
  · obtain ⟨rfl, rfl, -⟩ := ends_pure.1 h₄
    obtain ⟨args, span, hsome, hat⟩ :=
      optionalArgumentsAt_parseDirectiveArguments harguments hresult hne
    obtain ⟨rfl, rfl⟩ := Prod.mk.inj (Option.some.inj hsome)
    refine ⟨_, rfl, fun hl hdirectives hnew => ?_⟩
    rw [hs₃] at hat
    rw [htook.rest]
    have hvalue : s₁.scanner.getValue = n.value := htook.value
    show DirectivesAt _ _ (.mk _ ⟨_, s₁.scanner.getValue⟩ _ _ _ :: _) _
    rw [hvalue]
    exact .cons hl hasName htight hat hdirectives (hvalue ▸ hnew)

theorem ends_addDirective {directive : Directive} {directives result : UstringMap Directive}
    (h : Ends clean (addDirective directive directives) s result s') :
    s'.scanner = s.scanner ∧ directives.find? directive.name.identifier = none ∧
      result = directives.emplace directive.name.identifier directive := by
  obtain ⟨_, s₁, hupdate, h₁⟩ := ends_bind.1 h
  have hs₁ := scanner_of_still (still_update fun _ => rfl) hupdate
  split at h₁
  · next hnone =>
    obtain ⟨rfl, rfl, -⟩ := ends_pure.1 h₁
    exact ⟨hs₁, hnone, rfl⟩
  · exact absurd h₁ (never_bind (fun _ => Never.bind never_addDiagnostic) _ _ _)

/-- The arguments and the directives that are added to those read so far. -/
theorem takes_argumentsAndDirectives (fuel : Nat) :
    (∀ definitions before, TakesAs (parseArgumentsLoop fuel definitions before) fun x a y =>
      ∃ args, a = some (before.emplaceAll (·.name.identifier) args) ∧
        ArgumentsAt x args y) ∧
      ∀ location before, TakesAs (parseDirectives fuel location before) fun x a y =>
        ∃ ds, a = before.emplaceAll (·.name.identifier) ds ∧
          DirectivesAt location x ds y ∧ ∀ d ∈ ds, before.find? d.name.identifier = none := by
  induction fuel with
  | zero =>
    refine ⟨fun definitions before => ?_, fun location before => ?_⟩
    all_goals exact fun h => absurd h ends_stop
  | succ fuel ih =>
    obtain ⟨iharguments, ihdirectives⟩ := ih
    refine ⟨fun definitions before => ?_, fun location before => ?_⟩
    · intro s a s' h hne
      unfold parseArgumentsLoop at h
      obtain ⟨token, s₁, htoken, h₁⟩ := ends_bind.1 h
      split at h₁
      · next hend =>
        obtain ⟨_, s₂, hrecord, h₂⟩ := ends_bind.1 h₁
        obtain ⟨rfl, rfl, -⟩ := ends_pure.1 h₂
        have hs₂ := scanner_of_still still_recordStep hrecord
        rcases took_of_takeNextToken htoken with ⟨-, -, hnil⟩ | ⟨l, htook, rfl⟩
        · exact absurd (hs₂ ▸ hnil) hne
        · refine ⟨[], rfl, ?_⟩
          rw [htook.rest, hs₂]
          exact .close hend
      · next hname =>
        obtain rfl : token = .gName := not_not.1 hname
        rcases took_of_takeNextToken htoken with ⟨hend, -, -⟩ | ⟨l, htook, hasName⟩
        · cases hend
        obtain ⟨argument, s₂, hargument, h₂⟩ := ends_bind.1 h₁
        have hmapped : TakesAs (parseDirectives fuel .argumentDefinition ∅)
            (MappedDirectivesAt .argumentDefinition) := fun hm hne =>
          (ihdirectives _ _ hm hne).imp fun ds hds => ⟨hds.1, hds.2.1⟩
        split at h₂
        · obtain ⟨rfl, rfl, -⟩ := ends_pure.1 h₂
          obtain ⟨_, hsome, -⟩ :=
            argumentsAt_parseArgument htook.value hasName hmapped hargument hne
          cases hsome
        · obtain ⟨args, rfl, hargs⟩ := iharguments _ _ h₂ hne
          obtain ⟨argument, hsome, hat⟩ :=
            argumentsAt_parseArgument htook.value hasName hmapped hargument hargs.ne_nil
          obtain rfl := (Option.some.inj hsome).symm
          refine ⟨argument :: args, rfl, ?_⟩
          rw [htook.rest]
          exact hat hargs
    · intro s a s' h hne
      unfold parseDirectives at h
      obtain ⟨found, s₁, hat, h₁⟩ := ends_bind.1 h
      rcases took_of_scanOptional hat (by decide) with ⟨rfl, l, htook, htoken⟩ | ⟨rfl, hrest, hother⟩
      · rw [if_pos rfl] at h₁
        obtain ⟨directive, s₂, hdirective, h₂⟩ := ends_bind.1 h₁
        have hmapped : ∀ definitions, TakesAs (parseArgumentsLoop fuel definitions ∅)
            MappedArgumentsAt := fun definitions _ _ _ hm hne => iharguments _ _ hm hne
        split at h₂
        · obtain ⟨rfl, rfl, -⟩ := ends_pure.1 h₂
          obtain ⟨_, hsome, -⟩ := directivesAt_parseDirective hmapped hdirective hne
          cases hsome
        · obtain ⟨directives, s₃, hadd, h₃⟩ := ends_bind.1 h₂
          obtain ⟨hs₃, hnew, rfl⟩ := ends_addDirective hadd
          obtain ⟨ds, rfl, hds, hothers⟩ := ihdirectives _ _ h₃ hne
          rw [hs₃] at hds
          obtain ⟨directive, hsome, hcons⟩ :=
            directivesAt_parseDirective hmapped hdirective (hds.ne_nil hne)
          obtain rfl := (Option.some.inj hsome).symm
          have hdistinct : ∀ d ∈ ds, d.name.identifier ≠ directive.name.identifier ∧
              before.find? d.name.identifier = none :=
            fun d hd => SortedMap.find?_emplace_eq_none.1 (hothers d hd)
          refine ⟨directive :: ds, rfl, ?_, List.forall_mem_cons.2 ⟨hnew, fun d hd =>
            (hdistinct d hd).2⟩⟩
          rw [htook.rest]
          exact hcons htoken hds fun d hd => (hdistinct d hd).1
      · rw [if_neg Bool.false_ne_true] at h₁
        obtain ⟨rfl, rfl, -⟩ := ends_pure.1 h₁
        refine ⟨[], rfl, ?_, List.forall_mem_nil _⟩
        rw [hrest]
        exact .nil (notAhead_of hother)

theorem takes_parseDirectives {fuel : Nat} {location : DirectiveLocation} :
    TakesAs (parseDirectives fuel location ∅) (MappedDirectivesAt location) :=
  fun h hne => ((takes_argumentsAndDirectives fuel).2 _ _ h hne).imp fun _ hds => ⟨hds.1, hds.2.1⟩

theorem takes_parseArgumentsLoop {fuel : Nat} {definitions : UstringMap InputValueDefinition} :
    TakesAs (parseArgumentsLoop fuel definitions ∅) MappedArgumentsAt :=
  fun h hne => (takes_argumentsAndDirectives fuel).1 _ _ h hne

/-! ## Selections -/

theorem SelectionAt.ne_nil {x y : List Lexeme} {selection : Selection}
    (h : SelectionAt x selection y) : x ≠ [] := by
  cases h with
  | field hname => cases hname <;> exact List.cons_ne_nil _ _
  | fragmentSpread => exact List.cons_ne_nil _ _
  | inlineFragment => exact List.cons_ne_nil _ _

theorem SelectionsAt.ne_nil {x y : List Lexeme} {selections : List Selection}
    (h : SelectionsAt x selections y) : x ≠ [] := by
  cases h with
  | close => exact List.cons_ne_nil _ _
  | cons hselection => exact hselection.ne_nil

/-- A computation takes the selections after an opening brace. -/
def TakesSelections (m : ExecutorM (Option SelectionSet)) : Prop :=
  ∀ {s a s'}, Ends clean m s a s' → ∃ span selections, a = some (.mk span selections) ∧
    SelectionsAt s.scanner.rest selections s'.scanner.rest

/-- A computation takes a selection set with its braces. -/
def TakesSelectionSet (m : ExecutorM (Option SelectionSet)) : Prop :=
  ∀ {s a s'}, Ends clean m s a s' → ∃ span selections b y, a = some (.mk span selections) ∧
    s.scanner.rest = b :: y ∧ b.token = .openBrace ∧ SelectionsAt y selections s'.scanner.rest

theorem fieldNameAt_parseFieldName {l : Lexeme} (hname : l.asName = .gName) {span : Span}
    {a : Option Name × Option Name} (h : Ends clean (parseFieldName ⟨span, l.value⟩) s a s') :
    ∃ fieldAlias name, a = (fieldAlias, some name) ∧
      FieldNameAt (l :: s.scanner.rest) fieldAlias name s'.scanner.rest := by
  obtain ⟨found, s₁, hcolon, h₁⟩ := ends_bind.1 h
  rcases took_of_scanOptional hcolon (by decide) with
    ⟨rfl, c, htook, htoken⟩ | ⟨rfl, hrest, hother⟩
  · rw [if_pos rfl] at h₁
    obtain ⟨fieldName, s₂, hexpected, h₂⟩ := ends_bind.1 h₁
    obtain ⟨rfl, rfl, -⟩ := ends_pure.1 h₂
    obtain ⟨found, s₃, hn, h₃⟩ := ends_bind.1 hexpected
    obtain ⟨rfl, n, htookn, htokenn⟩ := took_of_scanExpected le_rfl hn (by decide)
    rw [if_pos rfl] at h₃
    have h₃ := ends_read_bind h₃
    obtain ⟨name, s₄, hcreate, h₄⟩ := ends_bind.1 h₃
    obtain ⟨rfl, rfl, -⟩ := ends_pure.1 h₄
    obtain ⟨rfl, rfl, -⟩ := ends_pure.1 (ends_read_bind hcreate)
    refine ⟨_, _, rfl, ?_⟩
    rw [htook.rest, htookn.rest]
    show FieldNameAt _ _ ⟨_, s'.scanner.getValue⟩ _
    rw [htookn.value]
    exact .aliased hname htoken htokenn
  · rw [if_neg Bool.false_ne_true] at h₁
    obtain ⟨rfl, rfl, -⟩ := ends_pure.1 h₁
    refine ⟨_, _, rfl, ?_⟩
    rw [hrest]
    exact .plain hname (notAhead_of hother)

theorem optionalArgumentsAt_parseFieldArguments {fuel : Nat} {definition : FieldDefinition}
    {span : Span} {a : Option (UstringMap Argument) × Span}
    (h : Ends clean (parseFieldArguments fuel definition span) s a s')
    (hne : s'.scanner.rest ≠ []) : ∃ args, a.1 = args.map argumentsByName ∧
      OptionalArgumentsAt s.scanner.rest args s'.scanner.rest := by
  obtain ⟨found, s₁, hopen, h₁⟩ := ends_bind.1 h
  rcases took_of_scanOptional hopen (by decide) with
    ⟨rfl, l, htook, htoken⟩ | ⟨rfl, hrest, hother⟩
  · rw [if_pos rfl] at h₁
    obtain ⟨arguments, s₂, hloop, h₂⟩ := ends_bind.1 h₁
    split at h₂
    · obtain ⟨rfl, rfl, -⟩ := ends_pure.1 h₂
      obtain ⟨_, hsome, -⟩ := takes_parseArgumentsLoop hloop hne
      cases hsome
    · obtain ⟨target, s₃, hfinish, h₃⟩ := ends_bind.1 h₂
      obtain ⟨rfl, rfl, -⟩ := ends_pure.1 h₃
      rw [scanner_of_still still_finishArguments hfinish] at hne ⊢
      obtain ⟨args, hsome, hat⟩ := takes_parseArgumentsLoop hloop hne
      refine ⟨some args, hsome, ?_⟩
      rw [htook.rest]
      exact .some htoken hat
  · rw [if_neg Bool.false_ne_true] at h₁
    obtain ⟨_, s₂, hrecord, h₂⟩ := ends_bind.1 h₁
    obtain ⟨rfl, rfl, -⟩ := ends_pure.1 h₂
    refine ⟨none, rfl, ?_⟩
    rw [scanner_of_still still_recordStep hrecord, hrest]
    exact .none (notAhead_of hother)

theorem selectionsAt_parseFieldSelections {definition : FieldDefinition}
    {selectionSet : ExecutorM (Option SelectionSet)} (hset : TakesSelections selectionSet)
    {field : Option SelectionSet → Selection} {a : SelectionTurn}
    (h : Ends clean (parseFieldSelections definition selectionSet field) s a s') :
    ∃ span selections, a = .add (field (some (.mk span selections))) ∧
      SelectionsAt s.scanner.rest selections s'.scanner.rest := by
  obtain ⟨type, -, h⟩ := ends_require_bind h
  split at h
  · obtain ⟨typeName, -, h⟩ := ends_require_bind h
    obtain ⟨symbol, -, h⟩ := ends_require_bind h
    obtain ⟨_, s₁, hpush, h₁⟩ := ends_bind.1 h
    obtain ⟨set, s₂, hselections, h₂⟩ := ends_bind.1 h₁
    obtain ⟨rfl, rfl, -⟩ := ends_pure.1 h₂
    obtain ⟨span, selections, rfl, hat⟩ := hset hselections
    rw [scanner_of_still still_modifyMembers hpush] at hat
    exact ⟨span, selections, rfl, hat⟩
  · exact absurd h (never_bind (fun _ => Never.bind never_addDiagnostic) _ _ _)

theorem still_recordAlias {fieldAlias name : Option Name} {nested : Bool} :
    Keeps Still (recordAlias fieldAlias name nested) := by
  unfold recordAlias
  split
  · exact keeps_bind still_read fun _ => still_recordStep
  · exact keeps_pure

theorem still_currentObjectType : Keeps Still currentObjectType := by
  refine keeps_bind ?_ fun _ => keeps_bind still_follow fun _ => still_deref
  exact keeps_bind still_read fun _ => keeps_bind still_recordStep fun _ => still_deref

theorem still_currentFields {current : Declaration} : Keeps Still (currentFields current) :=
  keeps_bind still_recordStep fun _ => still_follow

theorem still_checkFragmentAssignment {name : Name} {object parent : Declaration} :
    Keeps Still (checkFragmentAssignment name object parent) := by
  refine keeps_bind still_recordStep fun _ => keeps_bind still_follow fun _ =>
    keeps_bind still_follow fun _ => ?_
  split
  · split
    · exact keeps_when still_reportAt
    · exact still_deref
  · exact keeps_when still_reportAt
  · exact keeps_when still_reportAt
  · exact still_reportAt

/-- How a turn over a selection ends that is not reported: with the selection, unless the document ends
there. -/
def AddsSelection (x : List Lexeme) (turn : SelectionTurn) (y : List Lexeme) : Prop :=
  ∃ selection, turn = .add selection ∧ (y ≠ [] → SelectionAt x selection y)

/-- A field after its first name. -/
theorem addsSelection_parseFieldOf {l : Lexeme} (hname : l.asName = .gName) {fuel : Nat}
    {definition : FieldDefinition} {selectionSet : ExecutorM (Option SelectionSet)}
    (hset : TakesSelections selectionSet) {a : SelectionTurn}
    (h : Ends clean (parseFieldOf fuel definition l.value selectionSet) s a s') :
    AddsSelection (l :: s.scanner.rest) a s'.scanner.rest := by
  have h := ends_read_bind h
  have h₁ := ends_createName_bind h
  obtain ⟨names, s₂, hnames, h₂⟩ := ends_bind.1 h₁
  obtain ⟨fieldAlias, fieldName, rfl, hnameAt⟩ := fieldNameAt_parseFieldName hname hnames
  obtain ⟨⟨arguments, span⟩, s₃, harguments, h₃⟩ := ends_bind.1 h₂
  obtain ⟨directives, s₄, hdirectives, h₄⟩ := ends_bind.1 h₃
  obtain ⟨nested, s₅, hopen, h₅⟩ := ends_bind.1 h₄
  obtain ⟨_, s₆, halias, h₆⟩ := ends_bind.1 h₅
  have hs₆ := scanner_of_still still_recordAlias halias
  rcases took_of_scanOptional hopen (by decide) with
    ⟨rfl, b, htook, htoken⟩ | ⟨rfl, hrest, hother⟩
  · rw [if_pos rfl] at h₆
    obtain ⟨setSpan, selections, rfl, hselections⟩ := selectionsAt_parseFieldSelections hset h₆
    have hne₄ : s₄.scanner.rest ≠ [] := by
      rw [htook.rest]
      exact List.cons_ne_nil _ _
    obtain ⟨ds, rfl, hds⟩ := takes_parseDirectives hdirectives hne₄
    obtain ⟨args, rfl, hargs⟩ := optionalArgumentsAt_parseFieldArguments harguments (hds.ne_nil hne₄)
    refine ⟨_, rfl, fun _ => .field hnameAt hargs hds ?_⟩
    rw [htook.rest]
    rw [hs₆] at hselections
    exact .some htoken hselections
  · rw [if_neg Bool.false_ne_true] at h₆
    obtain ⟨rfl, rfl, -⟩ := ends_pure.1 h₆
    refine ⟨_, rfl, fun hne => ?_⟩
    rw [hs₆, hrest] at hne ⊢
    obtain ⟨ds, rfl, hds⟩ := takes_parseDirectives hdirectives hne
    obtain ⟨args, rfl, hargs⟩ := optionalArgumentsAt_parseFieldArguments harguments (hds.ne_nil hne)
    exact .field hnameAt hargs hds (.none (notAhead_of hother))

theorem addsSelection_parseField {l : Lexeme} (hname : l.asName = .gName)
    (hvalue : s.scanner.getValue = l.value) {fuel : Nat}
    {selectionSet : ExecutorM (Option SelectionSet)} (hset : TakesSelections selectionSet)
    {a : SelectionTurn} (h : Ends clean (parseField fuel selectionSet) s a s') :
    AddsSelection (l :: s.scanner.rest) a s'.scanner.rest := by
  have h := ends_read_bind h
  obtain ⟨current, s₁, hcurrent, h₁⟩ := ends_bind.1 h
  obtain ⟨fields, s₂, hfields, h₂⟩ := ends_bind.1 h₁
  have hs₂ := (scanner_of_still still_currentFields hfields).trans
    (scanner_of_still still_currentObjectType hcurrent)
  split at h₂
  · obtain ⟨name, -, h₂⟩ := ends_require_bind h₂
    exact absurd h₂ (Never.bind never_addDiagnostic _ _ _)
  · rw [hvalue] at h₂
    rw [← hs₂]
    exact addsSelection_parseFieldOf hname hset h₂

/-- A fragment on a type, after `... on`. -/
theorem addsSelection_parseInlineFragment {l o : Lexeme} (hellipses : l.token = .ellipses)
    (hon : o.token = .onKeyword) {fuel startPosition : Nat}
    {selectionSet : ExecutorM (Option SelectionSet)} (hset : TakesSelectionSet selectionSet)
    {a : SelectionTurn} (h : Ends clean (parseInlineFragment fuel startPosition selectionSet) s a s') :
    AddsSelection (l :: o :: s.scanner.rest) a s'.scanner.rest := by
  obtain ⟨found, s₁, hname, h₁⟩ := ends_bind.1 h
  obtain ⟨rfl, n, htook, htoken⟩ := took_of_scanExpected le_rfl hname (by decide)
  rw [if_pos rfl] at h₁
  have h₁ := ends_read_bind h₁
  have h₂ := ends_createName_bind h₁
  have h₂ := ends_read_bind h₂
  split at h₂
  · exact absurd h₂ (Never.bind never_addDiagnostic _ _ _)
  have h₂ := ends_read_bind h₂
  obtain ⟨d, -, h₂⟩ := ends_require_bind h₂
  split at h₂
  · obtain ⟨current, s₃, hcurrent, h₃⟩ := ends_bind.1 h₂
    obtain ⟨_, s₄, hcheck, h₄⟩ := ends_bind.1 h₃
    obtain ⟨_, s₅, hpush, h₅⟩ := ends_bind.1 h₄
    obtain ⟨directives, s₆, hdirectives, h₆⟩ := ends_bind.1 h₅
    obtain ⟨set, s₇, hselections, h₇⟩ := ends_bind.1 h₆
    obtain ⟨rfl, rfl, -⟩ := ends_pure.1 (ends_read_bind h₇)
    obtain ⟨span, selections, b, y, rfl, hrest, hopen, hat⟩ := hset hselections
    have hs₅ := (scanner_of_still still_modifyMembers hpush).trans
      ((scanner_of_still still_checkFragmentAssignment hcheck).trans
        (scanner_of_still still_currentObjectType hcurrent))
    obtain ⟨ds, rfl, hds⟩ := takes_parseDirectives hdirectives (hrest ▸ List.cons_ne_nil _ _)
    rw [hrest, hs₅] at hds
    refine ⟨_, rfl, fun _ => ?_⟩
    rw [htook.rest]
    exact .inlineFragment hellipses hon htoken hds hopen hat
  · exact absurd h₂ (Never.bind never_addDiagnostic _ _ _)

theorem addsSelection_parseFragmentSpread {l n : Lexeme} (hellipses : l.token = .ellipses)
    (hname : n.token = .gName) (hvalue : s.scanner.getValue = n.value) {fuel : Nat}
    {a : SelectionTurn} (h : Ends clean (parseFragmentSpread fuel) s a s') :
    AddsSelection (l :: n :: s.scanner.rest) a s'.scanner.rest := by
  have h := ends_read_bind h
  have h := ends_read_bind h
  have h₁ := ends_createName_bind h
  obtain ⟨top, s₂, htop, h₂⟩ := ends_bind.1 h₁
  obtain ⟨_, s₃, hreference, h₃⟩ := ends_bind.1 h₂
  obtain ⟨directives, s₄, hdirectives, h₄⟩ := ends_bind.1 h₃
  obtain ⟨rfl, rfl, -⟩ := ends_pure.1 h₄
  have hs₃ := (scanner_of_still still_modifyMembers hreference).trans (scanner_of_still
    (keeps_bind still_read fun _ => keeps_bind still_recordStep fun _ => still_deref) htop)
  refine ⟨_, rfl, fun hne => ?_⟩
  obtain ⟨ds, rfl, hds⟩ := takes_parseDirectives hdirectives hne
  rw [hs₃] at hds
  show SelectionAt _ (.fragmentSpread _ ⟨_, s.scanner.getValue⟩ _) _
  rw [hvalue]
  exact .fragmentSpread hellipses hname hds

theorem addsSelection_parseFragment {l : Lexeme} (hellipses : l.token = .ellipses)
    {fuel startPosition : Nat} {selectionSet : ExecutorM (Option SelectionSet)}
    (hset : TakesSelectionSet selectionSet) {a : SelectionTurn}
    (h : Ends clean (parseFragment fuel startPosition selectionSet) s a s') :
    AddsSelection (l :: s.scanner.rest) a s'.scanner.rest := by
  obtain ⟨token, s₁, htoken, h₁⟩ := ends_bind.1 h
  split at h₁
  · next hon =>
    rcases took_of_takeNextToken htoken with ⟨hend, -, -⟩ | ⟨o, htook, ho⟩
    · cases hend.symm.trans hon
    · rw [htook.rest]
      exact addsSelection_parseInlineFragment hellipses (ho.trans hon) hset h₁
  split at h₁
  · next hname =>
    rcases took_of_takeNextToken htoken with ⟨hend, -, -⟩ | ⟨n, htook, hn⟩
    · cases hend.symm.trans hname
    · rw [htook.rest]
      exact addsSelection_parseFragmentSpread hellipses (hn.trans hname) htook.value h₁
  · exact absurd h₁ (Never.bind never_addDiagnostic _ _ _)

theorem never_reportEndOfSelections {selections : List Selection} :
    Never clean (reportEndOfSelections selections) := by
  unfold reportEndOfSelections
  split <;> exact never_addDiagnostic

theorem still_popObjectType : Keeps Still popObjectType :=
  keeps_bind (keeps_bind still_read fun _ => keeps_bind still_recordStep fun _ => still_deref)
    fun _ => still_modifyMembers

/-- A computation takes the selections that are added to those read so far. -/
def TakesMore (m : List Selection → ExecutorM (Option SelectionSet)) : Prop :=
  ∀ {s a s'} before, Ends clean (m before) s a s' → ∃ span selections,
    a = some (.mk span (before ++ selections)) ∧
      SelectionsAt s.scanner.rest selections s'.scanner.rest

/-- A turn of the loop that is not reported goes on with a selection more. -/
theorem takesMore_of_turn {x : List Lexeme} {turn : ExecutorM SelectionTurn}
    (hturn : ∀ {a s'}, Ends clean turn s a s' → AddsSelection x a s'.scanner.rest)
    {m : List Selection → ExecutorM (Option SelectionSet)} (hm : TakesMore m)
    {before : List Selection} {a : Option SelectionSet} (h : Ends clean (do
      match ← turn with
      | .add selection => m (before ++ [selection])
      | .skip => m before
      | .fail => return none) s a s') : ∃ span selections,
        a = some (.mk span (before ++ selections)) ∧ SelectionsAt x selections s'.scanner.rest := by
  obtain ⟨result, s₁, hresult, h₁⟩ := ends_bind.1 h
  obtain ⟨selection, rfl, hat⟩ := hturn hresult
  obtain ⟨span, selections, rfl, hselections⟩ := hm _ h₁
  exact ⟨span, selection :: selections, by rw [List.append_assoc]; rfl,
    .cons (hat hselections.ne_nil) hselections⟩

theorem takes_selections (fuel : Nat) :
    (∀ setSpan, TakesMore (parseSelections fuel setSpan)) ∧
      TakesSelectionSet (parseSelectionSet fuel) ∧
        TakesSelections (parseSelectionSetAfterOpenBrace fuel) := by
  induction fuel with
  | zero =>
    refine ⟨fun setSpan => ?_, ?_, ?_⟩
    · exact fun before h => absurd h ends_stop
    · exact fun h => absurd h ends_stop
    · exact fun h => absurd h ends_stop
  | succ fuel ih =>
    obtain ⟨ihmore, ihset, ihselections⟩ := ih
    refine ⟨fun setSpan => ?_, ?_, ?_⟩
    · intro s a s' before h
      unfold parseSelections at h
      have h := ends_read_bind h
      obtain ⟨token, s₁, htoken, h₁⟩ := ends_bind.1 h
      rcases took_of_takeNextToken htoken with ⟨rfl, -, -⟩ | ⟨l, htook, rfl⟩
      · exact absurd h₁ (Never.bind never_reportEndOfSelections _ _ _)
      rw [htook.rest]
      split at h₁
      · next hellipses =>
        exact takesMore_of_turn (addsSelection_parseFragment
          (htook.scanned.token_eq hellipses (by decide)) ihset) (ihmore setSpan) h₁
      · next hname =>
        exact takesMore_of_turn (addsSelection_parseField hname htook.value ihselections)
          (ihmore setSpan) h₁
      · next hclose =>
        obtain ⟨_, s₂, hpop, h₂⟩ := ends_bind.1 h₁
        obtain ⟨rfl, rfl, -⟩ := ends_pure.1 (ends_read_bind h₂)
        rw [scanner_of_still still_popObjectType hpop]
        exact ⟨_, [], by rw [List.append_nil],
          .close (htook.scanned.token_eq hclose (by decide))⟩
      · exact absurd h₁ (Never.bind never_reportEndOfSelections _ _ _)
      · exact absurd h₁ (Never.bind never_addDiagnostic _ _ _)
    · intro s a s' h
      unfold parseSelectionSet at h
      obtain ⟨found, s₁, hopen, h₁⟩ := ends_bind.1 h
      obtain ⟨rfl, b, htook, htoken⟩ := took_of_scanExpected le_rfl hopen (by decide)
      rw [if_pos rfl] at h₁
      obtain ⟨span, selections, rfl, hat⟩ := ihselections h₁
      exact ⟨span, selections, b, _, rfl, htook.rest, htoken, hat⟩
    · intro s a s' h
      unfold parseSelectionSetAfterOpenBrace at h
      exact ihmore _ [] (ends_read_bind h)

/-! ## Operations -/

theorem listEndAt_parseListTypeEnd {isListType isNonNullList : Bool}
    (h : Ends clean (parseListTypeEnd isListType) s isNonNullList s') :
    ListEndAt isListType s.scanner.rest s'.scanner.rest := by
  cases isListType with
  | false =>
    obtain ⟨rfl, rfl, -⟩ := ends_pure.1 h
    exact .element
  | true =>
    obtain ⟨found, s₁, hclose, h₁⟩ := ends_bind.1 h
    obtain ⟨rfl, l, htook, htoken⟩ := took_of_scanExpected le_rfl hclose (by decide)
    rw [htook.rest]
    exact .list htoken (markAt_scanOptional h₁ (by decide))

theorem ListEndAt.ne_nil {isListType : Bool} {x y : List Lexeme} (h : ListEndAt isListType x y)
    (hne : y ≠ []) : x ≠ [] := by
  cases h with
  | element => exact hne
  | list => exact List.cons_ne_nil _ _

theorem takes_parseType : TakesAs parseType fun x _ y => VariableTypeAt x y := by
  intro s a s' h hne
  obtain ⟨isListType, s₁, hlist, h₁⟩ := ends_bind.1 h
  obtain ⟨token, s₂, htoken, h₂⟩ := ends_bind.1 h₁
  obtain ⟨_, s₃, hrecord, h₃⟩ := ends_bind.1 h₂
  obtain ⟨isNonNull, s₄, hmark, h₄⟩ := ends_bind.1 h₃
  obtain ⟨isNonNullList, s₅, hend, h₅⟩ := ends_bind.1 h₄
  have hs' : s'.scanner = s₅.scanner :=
    scanner_of_still (keeps_bind still_createSpan fun _ => still_createType) h₅
  rw [hs'] at hne ⊢
  have hend := listEndAt_parseListTypeEnd hend
  have hmark := markAt_scanOptional hmark (by decide)
  rw [scanner_of_still still_recordStep hrecord] at hmark
  rcases took_of_takeNextToken htoken with ⟨-, -, hnil⟩ | ⟨l, htook, -⟩
  · exact absurd hnil (hmark.ne_nil (hend.ne_nil hne))
  · have hlist := markAt_scanOptional hlist (by decide)
    rw [htook.rest] at hlist
    exact .mk hlist hmark hend

/-- The loop over the variables: what it takes, if a closing parenthesis follows. -/
theorem variablesAt_parseVariableDefinitionsLoop {fuel : Nat} {definitions : List VariableDefinition}
    (h : Ends clean (parseVariableDefinitionsLoop fuel []) s definitions s') :
    definitions = [] ∧ ∀ r y, s'.scanner.rest = r :: y → r.token = .closeParen →
      VariablesAt s.scanner.rest y := by
  cases fuel with
  | zero => exact absurd h ends_stop
  | succ fuel =>
    have h := ends_read_bind h
    obtain ⟨token, s₁, htoken, h₁⟩ := ends_bind.1 h
    split at h₁
    · next hother =>
      obtain ⟨_, s₂, hrecord, h₂⟩ := ends_bind.1 h₁
      obtain ⟨rfl, rfl, -⟩ := ends_pure.1 h₂
      refine ⟨rfl, fun r y hrest hclose => ?_⟩
      rw [scanner_of_still still_recordStep hrecord] at hrest
      rcases took_of_takeNextToken htoken with ⟨-, -, hnil⟩ | ⟨l, htook, rfl⟩
      · cases hnil.symm.trans hrest
      · rw [htook.rest, hrest]
        exact .none hother hclose
    · next hname =>
      obtain rfl : token = .gName := not_not.1 hname
      rcases took_of_takeNextToken htoken with ⟨hend, -, -⟩ | ⟨l, htook, htokenl⟩
      · cases hend
      have h₁ := ends_read_bind h₁
      have h₂ := ends_createName_bind h₁
      obtain ⟨found, s₃, hcolon, h₃⟩ := ends_bind.1 h₂
      obtain ⟨rfl, c, htookc, htokenc⟩ := took_of_scanExpected le_rfl hcolon (by decide)
      obtain ⟨type, s₄, htype, h₄⟩ := ends_bind.1 h₃
      obtain ⟨value, s₅, hdefault, h₅⟩ := ends_bind.1 h₄
      obtain ⟨comma, s₆, hcomma, h₆⟩ := ends_bind.1 h₅
      rcases took_of_scanOptional hcomma (by decide) with
        ⟨-, k, htookk, htokenk⟩ | ⟨rfl, hs₆, -⟩
      · exact absurd htokenk htookk.scanned.comma
      rw [if_neg Bool.false_ne_true] at h₆
      obtain ⟨rfl, rfl, -⟩ := ends_pure.1 h₆
      refine ⟨rfl, fun r y hrest hclose => ?_⟩
      rw [hs₆] at hrest
      rw [htook.rest, htookc.rest]
      obtain ⟨found, s₇, hequal, h₇⟩ := ends_bind.1 hdefault
      rcases took_of_scanOptional hequal (by decide) with
        ⟨rfl, e, htooke, htokene⟩ | ⟨rfl, hs₇, -⟩
      · rw [if_pos rfl] at h₇
        obtain ⟨_, s₈, hahead, h₈⟩ := ends_bind.1 h₇
        have hvalue := (takes_values fuel).1 _ h₈ (hrest ▸ List.cons_ne_nil _ _)
        rw [scanner_of_still still_recordValueAhead hahead, hrest] at hvalue
        have htype := takes_parseType htype (htooke.rest ▸ List.cons_ne_nil _ _)
        rw [htooke.rest] at htype
        exact .default htokenl htokenc htype htokene hvalue hclose
      · rw [if_neg Bool.false_ne_true] at h₇
        obtain ⟨rfl, rfl, -⟩ := ends_pure.1 h₇
        rw [hs₇] at hrest
        have htype := takes_parseType htype (hrest ▸ List.cons_ne_nil _ _)
        rw [hrest] at htype
        exact .plain htokenl htokenc htype hclose

theorem variablesAt_parseVariableDefinitions {fuel : Nat} {definitions : VariableDefinitions}
    (h : Ends clean (parseVariableDefinitions fuel) s definitions s') :
    definitions.variableDefinitions = [] ∧ ∀ r y, s'.scanner.rest = r :: y → r.token = .closeParen →
      VariablesAt s.scanner.rest y := by
  have h := ends_read_bind h
  obtain ⟨variableDefinitions, s₁, hloop, h₁⟩ := ends_bind.1 h
  obtain ⟨rfl, rfl, -⟩ := ends_pure.1 (ends_read_bind h₁)
  exact variablesAt_parseVariableDefinitionsLoop hloop

/-- The head of an operation, from its keyword on. -/
theorem operationHeadAt_parseOperationHead {fuel : Nat}
    {a : Option Name × Option VariableDefinitions}
    (h : Ends clean (parseOperationHead fuel) s a s') :
    OperationHeadAt s.scanner.rest a.1 a.2 s'.scanner.rest := by
  obtain ⟨found, s₁, hname, h₁⟩ := ends_bind.1 h
  rcases took_of_scanOptional hname (by decide) with
    ⟨rfl, l, htook, htoken⟩ | ⟨rfl, hrest, hother⟩
  · rw [if_pos rfl] at h₁
    have h₁ := ends_read_bind h₁
    have h₂ := ends_createName_bind h₁
    obtain ⟨variableDefinitions, s₃, hvariables, h₃⟩ := ends_bind.1 h₂
    obtain ⟨rfl, rfl, -⟩ := ends_pure.1 h₃
    show OperationHeadAt _ (some ⟨_, s₁.scanner.getValue⟩) _ _
    rw [htook.rest, htook.value]
    obtain ⟨found, s₄, hopen, h₄⟩ := ends_bind.1 hvariables
    rcases took_of_scanOptional hopen (by decide) with
      ⟨rfl, o, htooko, htokeno⟩ | ⟨rfl, hresto, hothero⟩
    · rw [if_pos rfl] at h₄
      obtain ⟨definitions, s₅, hdefinitions, h₅⟩ := ends_bind.1 h₄
      obtain ⟨closed, s₆, hclose, h₆⟩ := ends_bind.1 h₅
      obtain ⟨rfl, rfl, -⟩ := ends_pure.1 h₆
      obtain ⟨rfl, r, htookr, htokenr⟩ := took_of_scanExpected le_rfl hclose (by decide)
      obtain ⟨hempty, hat⟩ := variablesAt_parseVariableDefinitions hdefinitions
      obtain ⟨span, variableDefinitions⟩ := definitions
      obtain rfl : variableDefinitions = [] := hempty
      rw [htooko.rest]
      exact .withVariables htoken htokeno (hat _ _ htookr.rest htokenr)
    · rw [if_neg Bool.false_ne_true] at h₄
      obtain ⟨rfl, rfl, -⟩ := ends_pure.1 h₄
      rw [hresto]
      exact .named htoken (notAhead_of hothero)
  · rw [if_neg Bool.false_ne_true] at h₁
    obtain ⟨rfl, rfl, -⟩ := ends_pure.1 h₁
    rw [hrest]
    exact .anonymous hother

/-! ## Definitions -/

theorem definitionAt_parseOperationDefinition {l : Lexeme} {operationType : OperationType}
    (hkeyword : l.token = operationKeyword operationType) {fuel : Nat}
    {a : Option PrimaryDefinition}
    (h : Ends clean (parseOperationDefinition fuel operationType) s a s') :
    ∃ definition, a = some definition ∧
      DefinitionAt (l :: s.scanner.rest) definition s'.scanner.rest := by
  have h := ends_read_bind h
  obtain ⟨head, s₁, hhead, h₁⟩ := ends_bind.1 h
  obtain ⟨directives, s₂, hdirectives, h₂⟩ := ends_bind.1 h₁
  obtain ⟨set, s₃, hset, h₃⟩ := ends_bind.1 h₂
  obtain ⟨setSpan, selections, b, z, rfl, hrest, hopen, hat⟩ := (takes_selections fuel).2.1 hset
  obtain ⟨rfl, rfl, -⟩ := ends_pure.1 h₃
  obtain ⟨ds, rfl, hds⟩ := takes_parseDirectives hdirectives (hrest ▸ List.cons_ne_nil _ _)
  rw [hrest] at hds
  exact ⟨_, rfl, .operation hkeyword (operationHeadAt_parseOperationHead hhead) hds hopen hat⟩

theorem still_reportDuplicateFragment {name : Name} {fragment : FragmentDefinition} :
    Keeps Still (reportDuplicateFragment name fragment) := by
  refine keeps_bind still_recordStep fun _ => keeps_bind still_read fun _ => ?_
  split
  · exact keeps_bind still_addDiagnostic fun _ => keeps_bind still_read fun _ =>
      keeps_when still_reportAt
  · exact still_modifyMembers

theorem still_checkFragmentType {typeName : Name} {d : Declaration} :
    Keeps Still (checkFragmentType typeName d) := by
  unfold checkFragmentType
  split
  · exact keeps_pure
  · exact still_addDiagnostic

theorem definitionAt_parseFragmentDefinition {l : Lexeme} (hkeyword : l.token = .fragmentKeyword)
    {fuel : Nat} {a : Option PrimaryDefinition}
    (h : Ends clean (parseFragmentDefinitionAfterFragmentKeyword fuel) s a s') :
    ∃ definition, a = some definition ∧
      DefinitionAt (l :: s.scanner.rest) definition s'.scanner.rest := by
  have h := ends_read_bind h
  obtain ⟨found, s₁, hname, h₁⟩ := ends_bind.1 h
  obtain ⟨rfl, n, htookn, htokenn⟩ := took_of_scanExpected le_rfl hname (by decide)
  rw [if_pos rfl] at h₁
  have h₁ := ends_read_bind h₁
  have h₂ := ends_createName_bind h₁
  obtain ⟨_, s₃, hduplicate, h₃⟩ := ends_bind.1 h₂
  have hs₃ := scanner_of_still still_reportDuplicateFragment hduplicate
  obtain ⟨found, s₄, hon, h₄⟩ := ends_bind.1 h₃
  obtain ⟨rfl, o, htooko, htokeno⟩ := took_of_scanExpected le_rfl hon (by decide)
  rw [if_pos rfl] at h₄
  obtain ⟨found, s₅, htype, h₅⟩ := ends_bind.1 h₄
  obtain ⟨rfl, t, htookt, htokent⟩ := took_of_scanExpected le_rfl htype (by decide)
  rw [if_pos rfl] at h₅
  have h₅ := ends_read_bind (ends_read_bind h₅)
  split at h₅
  · exact absurd h₅ (Never.bind never_addDiagnostic _ _ _)
  have h₆ := ends_createName_bind h₅
  obtain ⟨d, -, h₆⟩ := ends_require_bind h₆
  obtain ⟨_, s₇, hcheck, h₇⟩ := ends_bind.1 h₆
  obtain ⟨_, s₈, hpush, h₈⟩ := ends_bind.1 h₇
  have hs₈ := (scanner_of_still still_modifyMembers hpush).trans
    (scanner_of_still still_checkFragmentType hcheck)
  obtain ⟨directives, s₉, hdirectives, h₉⟩ := ends_bind.1 h₈
  obtain ⟨set, s₁₀, hset, h₁₀⟩ := ends_bind.1 h₉
  obtain ⟨setSpan, selections, b, y, rfl, hrest, hopen, hat⟩ := (takes_selections fuel).2.1 hset
  obtain ⟨rfl, rfl, -⟩ := ends_pure.1 h₁₀
  obtain ⟨ds, rfl, hds⟩ := takes_parseDirectives hdirectives (hrest ▸ List.cons_ne_nil _ _)
  rw [hrest, hs₈] at hds
  refine ⟨_, rfl, ?_⟩
  have hresto := htooko.rest
  rw [hs₃] at hresto
  rw [htookn.rest, hresto, htookt.rest]
  show DefinitionAt _ (.fragment ⟨_, ⟨_, s₁.scanner.getValue⟩, some ⟨_, s₅.scanner.getValue⟩, _, _⟩) _
  rw [htookn.value, htookt.value]
  exact .fragment hkeyword htokenn htokeno htokent hds hopen hat

theorem definitionAt_parsePrimaryToken {l : Lexeme} {fuel : Nat} {a : Option PrimaryDefinition}
    (h : Ends clean (parsePrimaryToken fuel l.token) s a s') :
    ∃ definition, a = some definition ∧
      DefinitionAt (l :: s.scanner.rest) definition s'.scanner.rest := by
  have hpushed : ∀ operationType {id}, l.token = operationKeyword operationType →
      Ends clean (pushObjectType id >>= fun _ => parseOperationDefinition fuel operationType) s a s' →
        ∃ definition, a = some definition ∧
          DefinitionAt (l :: s.scanner.rest) definition s'.scanner.rest := by
    intro operationType id hkeyword h
    obtain ⟨_, s₁, hpush, h₁⟩ := ends_bind.1 h
    rw [← scanner_of_still still_modifyMembers hpush]
    exact definitionAt_parseOperationDefinition hkeyword h₁
  unfold parsePrimaryToken at h
  split at h
  · next hkeyword => exact hpushed .query hkeyword (ends_read_bind h)
  · next hkeyword =>
    have h := ends_read_bind h
    split at h
    · exact absurd h (Never.bind never_addDiagnostic _ _ _)
    · exact hpushed .mutation hkeyword h
  · next hkeyword =>
    have h := ends_read_bind h
    split at h
    · exact absurd h (Never.bind never_addDiagnostic _ _ _)
    · exact hpushed .subscription hkeyword h
  · next hopen =>
    have h := ends_read_bind h
    obtain ⟨_, s₁, hpush, h₁⟩ := ends_bind.1 h
    have h₁ := ends_read_bind h₁
    obtain ⟨set, s₂, hset, h₂⟩ := ends_bind.1 h₁
    obtain ⟨setSpan, selections, rfl, hat⟩ := (takes_selections fuel).2.2 hset
    obtain ⟨rfl, rfl, -⟩ := ends_pure.1 h₂
    rw [scanner_of_still still_modifyMembers hpush] at hat
    exact ⟨_, rfl, .shorthand hopen hat⟩
  · next hkeyword => exact definitionAt_parseFragmentDefinition hkeyword h
  · exact absurd h (Never.bind never_addDiagnostic _ _ _)

/-- The token is that of the first lexeme, and the text goes on after it, or the text is at its end. -/
inductive Ahead (token : GraphQlToken) : List Lexeme → List Lexeme → Prop
  | nil {y} (h : token = .endOfDocument) : Ahead token [] y
  | cons {l y} (hend : token ≠ .endOfDocument) (h : l.token = token) : Ahead token (l :: y) y

theorem ahead_takeToken {token : GraphQlToken} (h : Ends clean takeToken s token s') :
    Ahead token s.scanner.rest s'.scanner.rest := by
  rcases took_of_takeNextToken h with ⟨hend, hrest, -⟩ | ⟨l, htook, htoken⟩
  · rw [hrest]
    exact .nil hend
  · rw [htook.rest]
    exact .cons (htoken ▸ htook.token) htoken

theorem definitionsAt_parseDefinitions {fuel : Nat} {token : GraphQlToken}
    {document document' : ExecutableDefinition} {x : List Lexeme}
    (h : Ends clean (parseDefinitions fuel token document) s document' s')
    (hahead : Ahead token x s.scanner.rest) : ∃ definitions, DefinitionsAt x definitions ∧
      document' = definitions.foldl addDefinition document := by
  induction fuel generalizing s token document x with
  | zero => exact absurd h ends_stop
  | succ fuel ih =>
    unfold parseDefinitions at h
    cases hahead with
    | nil hend =>
      rw [if_pos hend] at h
      obtain ⟨rfl, rfl, -⟩ := ends_pure.1 h
      exact ⟨[], .nil, rfl⟩
    | cons hend htoken =>
      rw [if_neg hend, ← htoken] at h
      obtain ⟨definition?, s₁, hdefinition, h₁⟩ := ends_bind.1 h
      obtain ⟨next, s₂, hnext, h₂⟩ := ends_bind.1 h₁
      obtain ⟨definition, rfl, hat⟩ := definitionAt_parsePrimaryToken hdefinition
      obtain ⟨definitions, hdefinitions, rfl⟩ := ih h₂ (ahead_takeToken hnext)
      exact ⟨definition :: definitions, .cons hat hdefinitions, rfl⟩

/-! ## The document -/

theorem operationDefinitions_foldl_addDefinition (definitions : List PrimaryDefinition)
    (document : ExecutableDefinition) :
    (definitions.foldl addDefinition document).operationDefinitions =
      document.operationDefinitions ++ definitions.filterMap operation? := by
  induction definitions generalizing document with
  | nil => exact (List.append_nil _).symm
  | cons definition definitions ih =>
    rw [List.foldl_cons, ih]
    cases definition with
    | operation d => exact List.append_assoc _ _ _
    | fragment d => rfl

theorem fragmentDefinitions_foldl_addDefinition (definitions : List PrimaryDefinition)
    (document : ExecutableDefinition) :
    (definitions.foldl addDefinition document).fragmentDefinitions =
      document.fragmentDefinitions ++ definitions.filterMap fragment? := by
  induction definitions generalizing document with
  | nil => exact (List.append_nil _).symm
  | cons definition definitions ih =>
    rw [List.foldl_cons, ih]
    cases definition with
    | operation d => rfl
    | fragment d => exact List.append_assoc _ _ _

theorem documentAt_execute {query : Ustring} {document : ExecutableDefinition}
    (h : Ends clean (execute query) s document s') : DocumentAt s.scanner.rest document := by
  obtain ⟨token, s₁, htoken, h₁⟩ := ends_bind.1 h
  have h₁ := ends_read_bind h₁
  obtain ⟨parsed, s₂, hdefinitions, h₂⟩ := ends_bind.1 h₁
  obtain ⟨_, s₃, hcheck, h₃⟩ := ends_bind.1 h₂
  obtain ⟨rfl, -, -⟩ := ends_pure.1 (ends_read_bind h₃)
  obtain ⟨definitions, hat, rfl⟩ :=
    definitionsAt_parseDefinitions hdefinitions (ahead_takeToken htoken)
  exact ⟨definitions, hat, operationDefinitions_foldl_addDefinition _ _,
    fragmentDefinitions_foldl_addDefinition _ _⟩

/-- The lexemes of an accepted query are those of its document: the grammar has the query as a whole,
every node has what was written for it, and no lexeme is left over. -/
theorem documentAt_of_accepts {schema : GraphQlSchema} {query : Ustring}
    {document : ExecutableDefinition} {executor : GraphQlExecutor}
    (h : Accepts schema query document executor) :
    DocumentAt ({ source := query } : GraphQlScanner).rest document :=
  documentAt_execute (s := addSchema schema query) ⟨h.1, h.2⟩

/-- A query with an alias, an argument and a fragment, over a schema that is accepted. -/
theorem documentAt_of_aliased_query : ∃ schema document executor,
    GraphQlSchema.Accepts "type Query{f(a:Int):Query b:Int}".toList schema ∧
      Accepts schema "query Q{f:f(a:1){...F}}fragment F on Query{b}".toList document executor ∧
      DocumentAt ({ source := "query Q{f:f(a:1){...F}}fragment F on Query{b}".toList } :
        GraphQlScanner).rest document := by
  have haccepts : GraphQlSchema.Accepts "type Query{f(a:Int):Query b:Int}".toList _ :=
    GraphQlSchema.accepts_of_run (by decide +kernel) (by decide +kernel)
  obtain ⟨document, hrun⟩ := Outcome.exists_eq_ok (o := run
    (GraphQlSchema.run "type Query{f(a:Int):Query b:Int}".toList).state
    "query Q{f:f(a:1){...F}}fragment F on Query{b}".toList) (by decide +kernel)
  have hdocument : Accepts _ _ document _ := ⟨hrun, by decide +kernel⟩
  exact ⟨_, document, _, haccepts, hdocument, documentAt_of_accepts hdocument⟩

end GraphQlExecutor

end Flashpoint
