import Flashpoint.Executor.Execute
import Flashpoint.Scanner.Loops
import Flashpoint.Schema.Halting

/-!
# Validating a query ends

`Execute` halts on every query, whatever the schema it was given: a selection takes a token before
the next one is looked for, and so does a selection set before those inside it.
-/

namespace Flashpoint

open Library Climb

namespace GraphQlExecutor

open ParserM

variable {n : Nat}

theorem haltsIn_skipToNextPrimaryToken : HaltsIn n skipToNextPrimaryToken :=
  haltsIn_bind haltsIn_skipTo fun _ => haltsIn_pure

theorem haltsIn_findSymbol {name : Ustring} : HaltsIn n (findSymbol name) := haltsIn_deref

theorem haltsIn_topObjectType : HaltsIn n topObjectType :=
  haltsIn_bind haltsIn_read fun _ => haltsIn_bind haltsIn_recordStep fun _ => haltsIn_deref

theorem haltsIn_pushObjectType {id : Option DeclarationId} : HaltsIn n (pushObjectType id) :=
  haltsIn_modifyMembers

theorem haltsIn_popObjectType : HaltsIn n popObjectType :=
  haltsIn_bind haltsIn_topObjectType fun _ => haltsIn_modifyMembers

theorem haltsIn_recordValueAhead : HaltsIn n recordValueAhead :=
  haltsIn_bind haltsIn_read fun _ => haltsIn_recordStep

theorem haltsIn_recordArguments {definitions : UstringMap InputValueDefinition}
    {supplied : Option (UstringMap Argument)} {target : Span} :
    HaltsIn n (recordArguments definitions supplied target) := haltsIn_recordStep

/-! ## Values -/

theorem haltsIn_reportMismatch {literalType : Ustring} {type : TypeNode} :
    HaltsIn n (reportMismatch literalType type) :=
  haltsIn_bind haltsIn_getTypeName fun _ => haltsIn_addDiagnostic

theorem haltsIn_reportValueMismatch {value : Ustring} {type : TypeNode} :
    HaltsIn n (reportValueMismatch value type) :=
  haltsIn_bind haltsIn_getTypeName fun _ => haltsIn_addDiagnostic

theorem haltsIn_parseEnumValue {type : TypeNode} : HaltsIn n (parseEnumValue type) := by
  refine haltsIn_bind haltsIn_read fun _ => ?_
  refine haltsIn_bind (haltsIn_when haltsIn_reportValueMismatch) fun _ => ?_
  refine haltsIn_bind haltsIn_follow fun _ => haltsIn_bind haltsIn_findSymbol fun _ => ?_
  refine haltsIn_bind haltsIn_deref fun _ => ?_
  split
  · refine haltsIn_bind (haltsIn_when haltsIn_addDiagnostic) fun _ => ?_
    exact haltsIn_bind haltsIn_read fun _ => haltsIn_pure
  · exact haltsIn_deref

theorem haltsIn_skipObjectValue {type : TypeNode} : HaltsIn n (skipObjectValue type) := by
  refine haltsIn_bind haltsIn_read fun _ => haltsIn_bind haltsIn_read fun _ => ?_
  refine haltsIn_bind haltsIn_skipBlock fun _ => haltsIn_bind haltsIn_read fun _ => ?_
  refine haltsIn_bind haltsIn_getTypeName fun _ => ?_
  exact haltsIn_bind haltsIn_addDiagnosticAt fun _ => haltsIn_pure

theorem haltsIn_expectCloseBracket : HaltsIn n expectCloseBracket :=
  haltsIn_bind haltsIn_read fun _ => haltsIn_when haltsIn_reportValue

theorem haltsIn_parseListLiteral {id : TypeId} {type : TypeNode}
    {elements : ExecutorM (List Value)} (helements : HaltsIn n elements) :
    HaltsIn n (parseListLiteral id type elements) := by
  refine haltsIn_bind (haltsIn_when haltsIn_reportValueMismatch) fun _ => ?_
  refine haltsIn_bind haltsIn_read fun _ => haltsIn_bind haltsIn_modifyType fun _ => ?_
  refine haltsIn_bind helements fun _ => haltsIn_bind haltsIn_expectCloseBracket fun _ => ?_
  refine haltsIn_bind haltsIn_modifyType fun _ => ?_
  exact haltsIn_bind haltsIn_read fun _ => haltsIn_pure

theorem haltsIn_addDuplicateField {name : Ustring} : HaltsIn n (addDuplicateField name) :=
  haltsIn_bind haltsIn_modifyMembers fun _ => haltsIn_recordStep

theorem haltsIn_reportDuplicateFields {fields : List ObjectField} :
    HaltsIn n (reportDuplicateFields fields) := by
  refine haltsIn_bind haltsIn_recordStep fun _ => ?_
  refine haltsIn_bind haltsIn_read fun _ => haltsIn_forM fun _ => haltsIn_forM fun _ => ?_
  exact haltsIn_when haltsIn_reportAt

theorem haltsIn_reportMissingFields {requiredFields : List Ustring} {span : Span}
    {fields : List ObjectField} : HaltsIn n (reportMissingFields requiredFields span fields) :=
  haltsIn_forM fun _ => haltsIn_when haltsIn_reportAt

theorem haltsIn_parseObjectLiteral {type : TypeNode}
    {fields : InputObject → Ustring → ExecutorM (Option (List ObjectField))}
    (hfields : ∀ inputObject name, HaltsIn n (fields inputObject name)) :
    HaltsIn n (parseObjectLiteral type fields) := by
  refine haltsIn_bind haltsIn_read fun _ => haltsIn_bind haltsIn_follow fun _ => ?_
  refine haltsIn_bind haltsIn_findSymbol fun _ => ?_
  split
  · exact haltsIn_bind haltsIn_addDiagnostic fun _ => haltsIn_pure
  · refine haltsIn_bind haltsIn_deref fun _ => ?_
    split
    · refine haltsIn_bind (hfields _ _) fun _ => ?_
      split
      · exact haltsIn_pure
      · refine haltsIn_bind haltsIn_read fun _ => ?_
        refine haltsIn_bind haltsIn_reportDuplicateFields fun _ => ?_
        exact haltsIn_bind haltsIn_reportMissingFields fun _ => haltsIn_pure
    · exact haltsIn_deref

/-- The token was taken already, and without one there is no value. -/
theorem haltsIn_parseScalarValue {type : TypeNode} {token : GraphQlToken} :
    HaltsIn n (parseScalarValue type token) := by
  have hboolean : ∀ value, HaltsIn n (parseBooleanValue type value) := fun value =>
    haltsIn_bind (haltsIn_when haltsIn_reportMismatch) fun _ =>
      haltsIn_bind haltsIn_read fun _ => haltsIn_pure
  unfold parseScalarValue
  split
  · refine haltsIn_bind (haltsIn_when haltsIn_reportValueMismatch) fun _ => ?_
    exact haltsIn_bind haltsIn_read fun _ => haltsIn_pure
  · refine haltsIn_bind (haltsIn_when haltsIn_reportMismatch) fun _ => ?_
    exact haltsIn_bind haltsIn_read fun _ => haltsIn_bind haltsIn_read fun _ => haltsIn_pure
  · refine haltsIn_bind (haltsIn_when haltsIn_reportMismatch) fun _ => ?_
    exact haltsIn_bind haltsIn_read fun _ => haltsIn_bind haltsIn_read fun _ => haltsIn_pure
  · refine haltsIn_bind (haltsIn_when haltsIn_reportMismatch) fun _ => ?_
    exact haltsIn_bind haltsIn_read fun _ => haltsIn_bind haltsIn_read fun _ => haltsIn_pure
  · exact hboolean true
  · exact hboolean false
  · exact haltsIn_parseEnumValue
  · refine haltsIn_bind haltsIn_read fun _ => haltsIn_bind haltsIn_addDiagnostic fun _ => ?_
    exact haltsIn_bind haltsIn_skipTo fun _ => haltsIn_pure

theorem haltsIn_parseValueAfterToken {id : TypeId} {type : TypeNode} {token : GraphQlToken}
    {elements : ExecutorM (List Value)}
    {fields : InputObject → Ustring → ExecutorM (Option (List ObjectField))}
    (helements : HaltsIn n elements)
    (hfields : ∀ inputObject name, HaltsIn n (fields inputObject name)) :
    HaltsIn n (parseValueAfterToken id type token elements fields) := by
  unfold parseValueAfterToken
  split
  · exact haltsIn_parseListLiteral helements
  · exact haltsIn_pure
  · split
    · exact haltsIn_skipObjectValue
    · exact haltsIn_parseObjectLiteral hfields
  · exact haltsIn_parseScalarValue

theorem haltsIn_values (fuel : Nat) :
    (∀ {n id}, 3 * n + 1 ≤ fuel →
      TakesIn n (fun value => value.isSome = true) (parseValue fuel id)) ∧
    (∀ {n id}, 3 * n + 2 ≤ fuel → HaltsIn n (parseListValues fuel id)) ∧
    (∀ {n inputObject name parsedFields}, 3 * n + 1 ≤ fuel →
      HaltsIn n (parseObjectFields fuel inputObject name parsedFields)) := by
  induction fuel with
  | zero => exact ⟨fun h => by omega, fun h => by omega, fun h => by omega⟩
  | succ fuel ih =>
    obtain ⟨ihValue, ihList, ihFields⟩ := ih
    refine ⟨fun {n id} hfuel => ?_, fun {n id} hfuel => ?_,
      fun {n inputObject name parsedFields} hfuel => ?_⟩
    · rw [parseValue]
      refine takesIn_bind takesIn_takeToken (fun token _ i hi => ?_) fun token hend => ?_
      · refine haltsIn_bind (haltsIn_update fun _ => rfl) fun _ => ?_
        refine haltsIn_bind haltsIn_deref fun _ => haltsIn_bind haltsIn_recordStep fun _ => ?_
        exact haltsIn_parseValueAfterToken (ihList (by omega)) fun _ _ => ihFields (by omega)
      · -- at the end of the document there is no value
        obtain rfl : token = .endOfDocument := Decidable.not_not.1 hend
        refine takesIn_after (haltsIn_update fun _ => rfl) fun _ => ?_
        refine takesIn_after haltsIn_deref fun _ => takesIn_after haltsIn_recordStep fun _ => ?_
        refine takesIn_after haltsIn_read fun _ => takesIn_after haltsIn_addDiagnostic fun _ => ?_
        exact takesIn_after haltsIn_skipTo fun _ => takesIn_pure Bool.false_ne_true
    · rw [parseListValues]
      refine takesIn_bind (ihValue (by omega)) (fun value hvalue i hi => ?_) fun value hvalue => ?_
      · split
        · exact haltsIn_pure
        · exact haltsIn_bind (ihList (by omega)) fun _ => haltsIn_pure
      · split
        · exact haltsIn_pure
        · exact absurd rfl hvalue
    · rw [parseObjectFields]
      refine takesIn_bind takesIn_takeToken (fun token _ i hi => ?_) fun token hend => ?_
      · split
        · exact haltsIn_pure
        split
        · refine haltsIn_bind haltsIn_addDiagnostic fun _ => haltsIn_bind haltsIn_skipTo fun _ => ?_
          split
          · exact ihFields (by omega)
          · exact haltsIn_pure
        · refine haltsIn_bind haltsIn_read fun _ => haltsIn_bind haltsIn_follow fun _ => ?_
          split
          · refine haltsIn_bind haltsIn_addDiagnostic fun _ => ?_
            exact haltsIn_bind haltsIn_skipTo fun _ => ihFields (by omega)
          · refine haltsIn_bind (haltsIn_when haltsIn_addDuplicateField) fun _ => ?_
            refine haltsIn_bind haltsIn_read fun _ => haltsIn_bind haltsIn_createName fun _ => ?_
            refine haltsIn_bind (haltsIn_scanExpected (by decide)) fun _ => ?_
            split
            · refine haltsIn_bind haltsIn_recordValueAhead fun _ => ?_
              refine haltsIn_bind (ihValue (by omega)).halts fun _ => ?_
              exact haltsIn_bind (ihFields (by omega)) fun _ => haltsIn_pure
            · exact haltsIn_pure
      · rw [if_pos (.inr (Decidable.not_not.1 hend))]
        exact haltsIn_pure

theorem haltsIn_parseValue {fuel : Nat} (hfuel : 3 * n + 1 ≤ fuel) {id : TypeId} :
    HaltsIn n (parseValue fuel id) := ((haltsIn_values fuel).1 hfuel).halts

/-! ## Arguments and directives -/

theorem haltsIn_finishArguments {definitions : UstringMap InputValueDefinition}
    {arguments : UstringMap Argument} {target : Span} :
    HaltsIn n (finishArguments definitions arguments target) := by
  refine haltsIn_bind haltsIn_read fun _ => haltsIn_bind haltsIn_recordArguments fun _ => ?_
  refine haltsIn_bind (haltsIn_forM fun _ => ?_) fun _ => haltsIn_pure
  refine haltsIn_bind haltsIn_follow fun _ => haltsIn_bind haltsIn_deref fun _ => ?_
  exact haltsIn_when (haltsIn_when haltsIn_reportAt)

theorem haltsIn_addDirective {directive : Directive} {directives : UstringMap Directive} :
    HaltsIn n (addDirective directive directives) := by
  refine haltsIn_bind (haltsIn_update fun _ => rfl) fun _ => ?_
  split
  · exact haltsIn_pure
  · exact haltsIn_bind haltsIn_recordStep fun _ => haltsIn_bind haltsIn_addDiagnostic fun _ =>
      haltsIn_pure

theorem haltsIn_parseArgumentValue {fuel : Nat} (hfuel : 3 * n + 1 ≤ fuel)
    {definition : Option InputValueDefinition} :
    HaltsIn n (parseArgumentValue fuel definition) := by
  unfold parseArgumentValue
  split
  · refine haltsIn_bind haltsIn_follow fun _ => haltsIn_bind haltsIn_recordValueAhead fun _ => ?_
    exact haltsIn_parseValue hfuel
  · exact haltsIn_bind haltsIn_skipTo fun _ => haltsIn_pure

theorem haltsIn_checkDirectiveLocation {definition : DirectiveDefinition}
    {location : DirectiveLocation} {span : Span} {name : Ustring} :
    HaltsIn n (checkDirectiveLocation definition location span name) := by
  apply haltsIn_when
  refine haltsIn_bind haltsIn_getLocationFromSyntax fun _ => ?_
  exact haltsIn_bind (haltsIn_require (by decide)) fun _ => haltsIn_addDiagnosticAt

theorem haltsIn_parseArgument {fuel : Nat} (hfuel : 3 * n + 1 ≤ fuel)
    {definitions : UstringMap InputValueDefinition}
    {directives : ExecutorM (UstringMap Directive)} (hdirectives : HaltsIn n directives) :
    HaltsIn n (parseArgument fuel definitions directives) := by
  refine haltsIn_bind haltsIn_read fun _ => haltsIn_bind haltsIn_createName fun _ => ?_
  refine haltsIn_bind haltsIn_read fun _ => ?_
  refine haltsIn_bind (haltsIn_when haltsIn_addDiagnostic) fun _ => ?_
  refine haltsIn_bind (haltsIn_scanExpected (by decide)) fun _ => ?_
  split
  · refine haltsIn_bind (haltsIn_parseArgumentValue hfuel) fun _ => ?_
    exact haltsIn_bind hdirectives fun _ => haltsIn_pure
  · exact haltsIn_bind haltsIn_skipTo fun _ => haltsIn_pure

theorem haltsIn_parseDirectiveArguments {definition : DirectiveDefinition} {name : Name}
    {arguments : UstringMap InputValueDefinition → ExecutorM (Option (UstringMap Argument))}
    (harguments : ∀ definitions, HaltsIn n (arguments definitions)) :
    HaltsIn n (parseDirectiveArguments definition name arguments) := by
  refine haltsIn_bind (haltsIn_scanOptional (by decide)) fun _ => ?_
  split
  · refine haltsIn_bind (harguments _) fun _ => ?_
    split
    · exact haltsIn_pure
    · exact haltsIn_bind haltsIn_finishArguments fun _ => haltsIn_pure
  · exact haltsIn_bind haltsIn_recordArguments fun _ => haltsIn_pure

theorem haltsIn_parseDirective {location : DirectiveLocation}
    {arguments : UstringMap InputValueDefinition → ExecutorM (Option (UstringMap Argument))}
    (harguments : ∀ definitions, HaltsIn n (arguments definitions)) :
    HaltsIn n (parseDirective location arguments) := by
  refine haltsIn_bind takesIn_takeNextToken.halts fun _ => ?_
  split
  · refine haltsIn_bind haltsIn_read fun _ => haltsIn_bind haltsIn_addDiagnostic fun _ => ?_
    exact haltsIn_bind haltsIn_skipToNextPrimaryToken fun _ => haltsIn_pure
  · refine haltsIn_bind haltsIn_read fun _ => haltsIn_bind haltsIn_read fun _ => ?_
    refine haltsIn_bind haltsIn_read fun _ => ?_
    split
    · refine haltsIn_bind haltsIn_getLocationFromSyntax fun _ => ?_
      refine haltsIn_bind haltsIn_addDiagnosticAt fun _ => ?_
      exact haltsIn_bind haltsIn_skipTo fun _ => haltsIn_pure
    · refine haltsIn_bind haltsIn_createName fun _ => ?_
      refine haltsIn_bind haltsIn_checkDirectiveLocation fun _ => ?_
      refine haltsIn_bind (haltsIn_parseDirectiveArguments harguments) fun _ => ?_
      split
      · exact haltsIn_pure
      · exact haltsIn_pure

theorem haltsIn_argumentsAndDirectives (fuel : Nat) :
    (∀ {n definitions arguments}, 3 * n + 1 ≤ fuel →
      HaltsIn n (parseArgumentsLoop fuel definitions arguments)) ∧
    ∀ {n location directives}, 3 * n + 1 ≤ fuel →
      HaltsIn n (parseDirectives fuel location directives) := by
  induction fuel with
  | zero => exact ⟨fun h => by omega, fun h => by omega⟩
  | succ fuel ih =>
    obtain ⟨ihArguments, ihDirectives⟩ := ih
    refine ⟨fun {n definitions arguments} hfuel => ?_, fun {n location directives} hfuel => ?_⟩
    · rw [parseArgumentsLoop]
      refine takesIn_bind takesIn_takeNextToken (fun token _ i hi => ?_) fun token hend => ?_
      · split
        · exact haltsIn_bind haltsIn_recordStep fun _ => haltsIn_pure
        · refine haltsIn_bind (haltsIn_parseArgument (by omega) (ihDirectives (by omega))) fun _ => ?_
          split
          · exact haltsIn_pure
          · exact ihArguments (by omega)
      · obtain rfl : token = .endOfDocument := Decidable.not_not.1 hend
        exact haltsIn_bind haltsIn_recordStep fun _ => haltsIn_pure
    · rw [parseDirectives]
      refine takesIn_bind (takesIn_scanOptional (by decide)) (fun found hfound i hi => ?_)
        fun found hfound => ?_
      · rw [if_pos hfound]
        refine haltsIn_bind (haltsIn_parseDirective fun _ => ihArguments (by omega)) fun _ => ?_
        split
        · exact haltsIn_pure
        · exact haltsIn_bind haltsIn_addDirective fun _ => ihDirectives (by omega)
      · rw [if_neg hfound]
        exact haltsIn_pure

theorem haltsIn_parseDirectives {fuel : Nat} (hfuel : 3 * n + 1 ≤ fuel)
    {location : DirectiveLocation} {directives : UstringMap Directive} :
    HaltsIn n (parseDirectives fuel location directives) :=
  (haltsIn_argumentsAndDirectives fuel).2 hfuel

theorem haltsIn_parseFieldArguments {fuel : Nat} (hfuel : 3 * n + 1 ≤ fuel)
    {definition : FieldDefinition} {span : Span} :
    HaltsIn n (parseFieldArguments fuel definition span) := by
  refine haltsIn_bind (haltsIn_scanOptional (by decide)) fun _ => ?_
  split
  · refine haltsIn_bind ((haltsIn_argumentsAndDirectives fuel).1 hfuel) fun _ => ?_
    split
    · exact haltsIn_pure
    · exact haltsIn_bind haltsIn_finishArguments fun _ => haltsIn_pure
  · exact haltsIn_bind haltsIn_recordArguments fun _ => haltsIn_pure

/-! ## Selections -/

theorem haltsIn_checkFragmentAssignment {name : Name} {object parent : Declaration} :
    HaltsIn n (checkFragmentAssignment name object parent) := by
  refine haltsIn_bind haltsIn_recordStep fun _ => haltsIn_bind haltsIn_follow fun _ => ?_
  refine haltsIn_bind haltsIn_follow fun _ => ?_
  split
  · split
    · exact haltsIn_when haltsIn_reportAt
    · exact haltsIn_deref
  · exact haltsIn_when haltsIn_reportAt
  · exact haltsIn_when haltsIn_reportAt
  · exact haltsIn_reportAt

theorem haltsIn_parseExpectedName : HaltsIn n parseExpectedName := by
  refine haltsIn_bind (haltsIn_scanExpected (by decide)) fun _ => ?_
  split
  · refine haltsIn_bind haltsIn_read fun _ => ?_
    exact haltsIn_bind haltsIn_createName fun _ => haltsIn_pure
  · exact haltsIn_pure

theorem haltsIn_currentObjectType : HaltsIn n currentObjectType :=
  haltsIn_bind haltsIn_topObjectType fun _ => haltsIn_bind haltsIn_follow fun _ => haltsIn_deref

section

variable {fuel : Nat} (hfuel : 3 * n + 1 ≤ fuel)
  {selectionSet : ExecutorM (Option SelectionSet)} (hset : HaltsIn n selectionSet)

include hfuel hset

theorem haltsIn_parseInlineFragment {startPosition : Nat} :
    HaltsIn n (parseInlineFragment fuel startPosition selectionSet) := by
  refine haltsIn_bind (haltsIn_scanExpected (by decide)) fun _ => ?_
  split
  · refine haltsIn_bind haltsIn_read fun _ => haltsIn_bind haltsIn_createName fun _ => ?_
    refine haltsIn_bind haltsIn_read fun _ => ?_
    split
    · refine haltsIn_bind haltsIn_addDiagnostic fun _ => ?_
      exact haltsIn_bind haltsIn_skipBlock fun _ => haltsIn_pure
    · refine haltsIn_bind haltsIn_read fun _ => haltsIn_bind haltsIn_deref fun _ => ?_
      split
      · refine haltsIn_bind haltsIn_currentObjectType fun _ => ?_
        refine haltsIn_bind haltsIn_checkFragmentAssignment fun _ => ?_
        refine haltsIn_bind haltsIn_pushObjectType fun _ => ?_
        refine haltsIn_bind (haltsIn_parseDirectives hfuel) fun _ => haltsIn_bind hset fun _ => ?_
        exact haltsIn_bind haltsIn_read fun _ => haltsIn_pure
      · refine haltsIn_bind haltsIn_addDiagnostic fun _ => ?_
        exact haltsIn_bind haltsIn_skipBlock fun _ => haltsIn_pure
  · refine haltsIn_bind haltsIn_addDiagnostic fun _ => ?_
    exact haltsIn_bind haltsIn_skipBlock fun _ => haltsIn_pure

omit hset in
theorem haltsIn_parseFragmentSpread : HaltsIn n (parseFragmentSpread fuel) := by
  refine haltsIn_bind haltsIn_read fun _ => haltsIn_bind haltsIn_read fun _ => ?_
  refine haltsIn_bind haltsIn_createName fun _ => haltsIn_bind haltsIn_topObjectType fun _ => ?_
  refine haltsIn_bind haltsIn_modifyMembers fun _ => ?_
  exact haltsIn_bind (haltsIn_parseDirectives hfuel) fun _ => haltsIn_pure

theorem haltsIn_parseFragment {startPosition : Nat} :
    HaltsIn n (parseFragment fuel startPosition selectionSet) := by
  refine haltsIn_bind takesIn_takeToken.halts fun _ => ?_
  split
  · exact haltsIn_parseInlineFragment hfuel hset
  split
  · exact haltsIn_parseFragmentSpread hfuel
  · refine haltsIn_bind haltsIn_addDiagnostic fun _ => ?_
    exact haltsIn_bind haltsIn_skipBlock fun _ => haltsIn_pure

omit hfuel in
theorem haltsIn_parseFieldSelections {definition : FieldDefinition}
    {field : Option SelectionSet → Selection} :
    HaltsIn n (parseFieldSelections definition selectionSet field) := by
  refine haltsIn_bind haltsIn_deref fun _ => ?_
  split
  · refine haltsIn_bind haltsIn_follow fun _ => haltsIn_bind haltsIn_findSymbol fun _ => ?_
    refine haltsIn_bind haltsIn_pushObjectType fun _ => ?_
    exact haltsIn_bind hset fun _ => haltsIn_pure
  · refine haltsIn_bind haltsIn_getTypeName fun _ => haltsIn_bind haltsIn_addDiagnostic fun _ => ?_
    exact haltsIn_bind haltsIn_skipToNextPrimaryToken fun _ => haltsIn_pure

theorem haltsIn_parseFieldOf {definition : FieldDefinition} {value : Ustring} :
    HaltsIn n (parseFieldOf fuel definition value selectionSet) := by
  refine haltsIn_bind haltsIn_read fun _ => haltsIn_bind haltsIn_createName fun _ => ?_
  have hname : ∀ name, HaltsIn n (parseFieldName name) := fun name => by
    refine haltsIn_bind (haltsIn_scanOptional (by decide)) fun _ => ?_
    split
    · exact haltsIn_bind haltsIn_parseExpectedName fun _ => haltsIn_pure
    · exact haltsIn_pure
  have halias : ∀ fieldAlias name nested, HaltsIn n (recordAlias fieldAlias name nested) := by
    intro fieldAlias name nested
    unfold recordAlias
    split
    · exact haltsIn_bind haltsIn_read fun _ => haltsIn_recordStep
    · exact haltsIn_pure
  refine haltsIn_bind (hname _) fun _ => ?_
  refine haltsIn_bind (haltsIn_parseFieldArguments hfuel) fun _ => ?_
  refine haltsIn_bind (haltsIn_parseDirectives hfuel) fun _ => ?_
  refine haltsIn_bind (haltsIn_scanOptional (by decide)) fun _ => ?_
  refine haltsIn_bind (halias _ _ _) fun _ => ?_
  split
  · exact haltsIn_parseFieldSelections hset
  · exact haltsIn_pure

theorem haltsIn_parseField : HaltsIn n (parseField fuel selectionSet) := by
  refine haltsIn_bind haltsIn_read fun _ => haltsIn_bind haltsIn_currentObjectType fun _ => ?_
  refine haltsIn_bind (haltsIn_bind haltsIn_recordStep fun _ => haltsIn_follow) fun _ => ?_
  split
  · refine haltsIn_bind haltsIn_follow fun _ => haltsIn_bind haltsIn_addDiagnostic fun _ => ?_
    exact haltsIn_bind haltsIn_skipTo fun _ => haltsIn_pure
  · exact haltsIn_parseFieldOf hfuel hset

end

theorem haltsIn_reportEndOfSelections {selections : List Selection} :
    HaltsIn n (reportEndOfSelections selections) := by
  unfold reportEndOfSelections
  split
  · exact haltsIn_addDiagnostic
  · exact haltsIn_addDiagnostic

theorem haltsIn_selectionSets (fuel : Nat) :
    (∀ {n span selections}, 3 * n + 1 ≤ fuel →
      HaltsIn n (parseSelections fuel span selections)) ∧
    (∀ {n}, 3 * n + 1 ≤ fuel → HaltsIn n (parseSelectionSet fuel)) ∧
    ∀ {n}, 3 * n + 2 ≤ fuel → HaltsIn n (parseSelectionSetAfterOpenBrace fuel) := by
  induction fuel with
  | zero => exact ⟨fun h => by omega, fun h => by omega, fun h => by omega⟩
  | succ fuel ih =>
    obtain ⟨ihSelections, ihSet, ihBrace⟩ := ih
    refine ⟨fun {n span selections} hfuel => ?_, fun {n} hfuel => ?_, fun {n} hfuel => ?_⟩
    · rw [parseSelections]
      refine haltsIn_bind haltsIn_read fun _ => ?_
      refine takesIn_bind takesIn_takeNextToken (fun token _ i hi => ?_) fun token hend => ?_
      · split
        · refine haltsIn_bind (haltsIn_parseFragment (by omega) (ihSet (by omega))) fun turn => ?_
          cases turn with
          | add selection => exact ihSelections (by omega)
          | skip => exact ihSelections (by omega)
          | fail => exact haltsIn_pure
        · refine haltsIn_bind (haltsIn_parseField (by omega) (ihBrace (by omega))) fun turn => ?_
          cases turn with
          | add selection => exact ihSelections (by omega)
          | skip => exact ihSelections (by omega)
          | fail => exact haltsIn_pure
        · refine haltsIn_bind haltsIn_popObjectType fun _ => ?_
          exact haltsIn_bind haltsIn_read fun _ => haltsIn_pure
        · exact haltsIn_bind haltsIn_reportEndOfSelections fun _ => haltsIn_pure
        · refine haltsIn_bind haltsIn_addDiagnostic fun _ => ?_
          exact haltsIn_bind haltsIn_read fun _ => haltsIn_pure
      · obtain rfl : token = .endOfDocument := Decidable.not_not.1 hend
        exact haltsIn_bind haltsIn_reportEndOfSelections fun _ => haltsIn_pure
    · rw [parseSelectionSet]
      refine takesIn_bind (takesIn_scanExpected (by decide)) (fun found hfound i hi => ?_)
        fun found hfound => ?_
      · rw [if_pos hfound]
        exact ihBrace (by omega)
      · rw [if_neg hfound]
        exact haltsIn_pure
    · rw [parseSelectionSetAfterOpenBrace]
      exact haltsIn_bind haltsIn_read fun _ => ihSelections (by omega)

/-! ## Operations -/

theorem haltsIn_parseType : HaltsIn n parseType := by
  refine haltsIn_bind (haltsIn_scanOptional (by decide)) fun isListType => ?_
  refine haltsIn_bind takesIn_takeToken.halts fun _ => haltsIn_bind haltsIn_recordStep fun _ => ?_
  refine haltsIn_bind (haltsIn_scanOptional (by decide)) fun _ => ?_
  have hlist : HaltsIn n (parseListTypeEnd isListType) := by
    unfold parseListTypeEnd
    split
    · refine haltsIn_bind (haltsIn_scanExpected (by decide)) fun _ => ?_
      exact haltsIn_scanOptional (by decide)
    · exact haltsIn_pure
  exact haltsIn_bind hlist fun _ => haltsIn_bind haltsIn_read fun _ => haltsIn_createType

theorem haltsIn_parseVariableDefinitionsLoop (fuel : Nat) : ∀ {n variableDefinitions},
    3 * n + 1 ≤ fuel → HaltsIn n (parseVariableDefinitionsLoop fuel variableDefinitions) := by
  induction fuel with
  | zero => exact fun h => by omega
  | succ fuel ih =>
    intro n variableDefinitions hfuel
    rw [parseVariableDefinitionsLoop]
    refine haltsIn_bind haltsIn_read fun _ => ?_
    refine takesIn_bind takesIn_takeToken (fun token _ i hi => ?_) fun token hend => ?_
    · split
      · exact haltsIn_bind haltsIn_recordStep fun _ => haltsIn_pure
      · refine haltsIn_bind haltsIn_read fun _ => haltsIn_bind haltsIn_createName fun _ => ?_
        refine haltsIn_bind (haltsIn_scanExpected (by decide)) fun _ => ?_
        refine haltsIn_bind haltsIn_parseType fun type => ?_
        have hdefault : HaltsIn i (parseDefaultValue fuel type) := by
          refine haltsIn_bind (haltsIn_scanOptional (by decide)) fun _ => ?_
          split
          · exact haltsIn_bind haltsIn_recordValueAhead fun _ => haltsIn_parseValue (by omega)
          · exact haltsIn_pure
        refine haltsIn_bind hdefault fun _ => ?_
        refine haltsIn_bind (haltsIn_scanOptional (by decide)) fun _ => ?_
        split
        · exact ih (by omega)
        · exact haltsIn_pure
    · obtain rfl : token = .endOfDocument := Decidable.not_not.1 hend
      exact haltsIn_bind haltsIn_recordStep fun _ => haltsIn_pure

theorem haltsIn_parseOperationHead {fuel : Nat} (hfuel : 3 * n + 1 ≤ fuel) :
    HaltsIn n (parseOperationHead fuel) := by
  have hvariables : HaltsIn n (parseOperationVariables fuel) := by
    refine haltsIn_bind (haltsIn_scanOptional (by decide)) fun _ => ?_
    split
    · refine haltsIn_bind (haltsIn_bind haltsIn_read fun _ => ?_) fun _ =>
        haltsIn_bind (haltsIn_scanExpected (by decide)) fun _ => haltsIn_pure
      refine haltsIn_bind (haltsIn_parseVariableDefinitionsLoop fuel hfuel) fun _ => ?_
      exact haltsIn_bind haltsIn_read fun _ => haltsIn_pure
    · exact haltsIn_pure
  refine haltsIn_bind (haltsIn_scanOptional (by decide)) fun _ => ?_
  split
  · refine haltsIn_bind haltsIn_read fun _ => haltsIn_bind haltsIn_createName fun _ => ?_
    exact haltsIn_bind hvariables fun _ => haltsIn_pure
  · exact haltsIn_pure

theorem haltsIn_parseOperationDefinition {fuel : Nat} (hfuel : 3 * n + 1 ≤ fuel)
    {operationType : OperationType} :
    HaltsIn n (parseOperationDefinition fuel operationType) := by
  refine haltsIn_bind haltsIn_read fun _ => ?_
  refine haltsIn_bind (haltsIn_parseOperationHead hfuel) fun _ => ?_
  refine haltsIn_bind (haltsIn_parseDirectives hfuel) fun _ => ?_
  refine haltsIn_bind ((haltsIn_selectionSets fuel).2.1 hfuel) fun _ => ?_
  split
  · exact haltsIn_pure
  · exact haltsIn_pure

theorem haltsIn_reportDuplicateFragment {name : Name} {fragment : FragmentDefinition} :
    HaltsIn n (reportDuplicateFragment name fragment) := by
  refine haltsIn_bind haltsIn_recordStep fun _ => haltsIn_bind haltsIn_read fun _ => ?_
  split
  · refine haltsIn_bind haltsIn_addDiagnostic fun _ => haltsIn_bind haltsIn_read fun _ => ?_
    exact haltsIn_when haltsIn_reportAt
  · exact haltsIn_modifyMembers

theorem haltsIn_parseFragmentBody {fuel : Nat} (hfuel : 3 * n + 1 ≤ fuel) {span : Span}
    {name typeName : Name} {symbol : Symbol} :
    HaltsIn n (parseFragmentBody fuel span name typeName symbol) := by
  have hcheck : ∀ d, HaltsIn n (checkFragmentType typeName d) := fun d => by
    unfold checkFragmentType
    split
    · exact haltsIn_pure
    · exact haltsIn_addDiagnostic
  refine haltsIn_bind haltsIn_deref fun d => haltsIn_bind (hcheck d) fun _ => ?_
  refine haltsIn_bind haltsIn_pushObjectType fun _ => ?_
  refine haltsIn_bind (haltsIn_parseDirectives hfuel) fun _ => ?_
  refine haltsIn_bind ((haltsIn_selectionSets fuel).2.1 hfuel) fun _ => ?_
  split
  · exact haltsIn_bind haltsIn_skipBlock fun _ => haltsIn_pure
  · exact haltsIn_pure

theorem haltsIn_parseFragmentDefinition {fuel : Nat} (hfuel : 3 * n + 1 ≤ fuel) :
    HaltsIn n (parseFragmentDefinitionAfterFragmentKeyword fuel) := by
  refine haltsIn_bind haltsIn_read fun _ => ?_
  refine haltsIn_bind (haltsIn_scanExpected (by decide)) fun _ => ?_
  split
  · refine haltsIn_bind haltsIn_read fun _ => haltsIn_bind haltsIn_createName fun _ => ?_
    refine haltsIn_bind haltsIn_reportDuplicateFragment fun _ => ?_
    refine haltsIn_bind (haltsIn_scanExpected (by decide)) fun _ => ?_
    split
    · refine haltsIn_bind (haltsIn_scanExpected (by decide)) fun _ => ?_
      split
      · refine haltsIn_bind haltsIn_read fun _ => haltsIn_bind haltsIn_read fun _ => ?_
        split
        · exact haltsIn_bind haltsIn_addDiagnostic fun _ => haltsIn_pure
        · exact haltsIn_bind haltsIn_createName fun _ => haltsIn_parseFragmentBody hfuel
      · exact haltsIn_pure
    · exact haltsIn_pure
  · exact haltsIn_pure

/-- A root operation that the schema does not have, or one read against its type. -/
theorem haltsIn_parseRoot {fuel : Nat} (hfuel : 3 * n + 1 ≤ fuel)
    {root : Option DeclarationId} {template : D} {operationType : OperationType} :
    HaltsIn n (if root.isNone then do
        addDiagnostic template []
        skipToNextPrimaryToken
        return none
      else do
        pushObjectType root
        parseOperationDefinition fuel operationType :
      ExecutorM (Option PrimaryDefinition)) := by
  split
  · refine haltsIn_bind haltsIn_addDiagnostic fun _ => ?_
    exact haltsIn_bind haltsIn_skipToNextPrimaryToken fun _ => haltsIn_pure
  · refine haltsIn_bind haltsIn_pushObjectType fun _ => ?_
    exact haltsIn_parseOperationDefinition hfuel

theorem haltsIn_parsePrimaryToken {fuel : Nat} (hfuel : 3 * n + 2 ≤ fuel)
    {token : GraphQlToken} : HaltsIn n (parsePrimaryToken fuel token) := by
  unfold parsePrimaryToken
  split
  · refine haltsIn_bind haltsIn_read fun _ => haltsIn_bind haltsIn_pushObjectType fun _ => ?_
    exact haltsIn_parseOperationDefinition (by omega)
  · exact haltsIn_bind haltsIn_read fun _ => haltsIn_parseRoot (by omega)
  · exact haltsIn_bind haltsIn_read fun _ => haltsIn_parseRoot (by omega)
  · refine haltsIn_bind haltsIn_read fun _ => haltsIn_bind haltsIn_pushObjectType fun _ => ?_
    refine haltsIn_bind haltsIn_read fun _ => ?_
    refine haltsIn_bind ((haltsIn_selectionSets fuel).2.2 hfuel) fun _ => ?_
    split
    · exact haltsIn_pure
    · exact haltsIn_pure
  · exact haltsIn_parseFragmentDefinition (by omega)
  · exact haltsIn_bind haltsIn_addDiagnostic fun _ => haltsIn_pure

/-! ## The document -/

theorem haltsIn_parseDefinitions (fuel : Nat) : ∀ {n token document}, 1 ≤ fuel →
    (token ≠ .endOfDocument → 3 * n + 3 ≤ fuel) →
    HaltsIn n (parseDefinitions fuel token document) := by
  induction fuel with
  | zero => exact fun h => by omega
  | succ fuel ih =>
    intro n token document _ hfuel
    rw [parseDefinitions]
    split
    · exact haltsIn_pure
    next htoken =>
    have hfuel := hfuel htoken
    refine haltsIn_bind (haltsIn_parsePrimaryToken (by omega)) fun definition? => ?_
    refine takesIn_bind takesIn_takeToken (fun token _ i hi => ?_) fun token hend => ?_
    · split
      · exact ih (by omega) fun _ => by omega
      · exact ih (by omega) fun _ => by omega
    · split
      · exact ih (by omega) fun h => absurd h hend
      · exact ih (by omega) fun h => absurd h hend

theorem haltsIn_checkForwardFragmentReferences {fragmentDefinitions : List FragmentDefinition} :
    HaltsIn n (checkForwardFragmentReferences fragmentDefinitions) := by
  refine haltsIn_bind haltsIn_read fun _ => haltsIn_forM fun reference => ?_
  obtain ⟨name, current⟩ := reference
  simp only [checkForwardFragmentReference]
  split
  · exact haltsIn_reportAt
  · refine haltsIn_bind haltsIn_follow fun _ => haltsIn_bind haltsIn_findSymbol fun _ => ?_
    refine haltsIn_bind haltsIn_deref fun _ => haltsIn_bind haltsIn_follow fun _ => ?_
    exact haltsIn_bind haltsIn_deref fun _ => haltsIn_checkFragmentAssignment

theorem haltsIn_execute {query : Ustring} : HaltsIn query.length (execute query) := by
  refine haltsIn_bind takesIn_takeToken.halts fun token => haltsIn_bind haltsIn_read fun _ => ?_
  have hdocument : ∀ document, HaltsIn query.length
      (parseDefinitions (fuelFor query) token document) := fun document =>
    haltsIn_parseDefinitions _ (by simp [fuelFor]) fun _ => by simp only [fuelFor]; omega
  refine haltsIn_bind (hdocument _) fun _ => ?_
  refine haltsIn_bind haltsIn_checkForwardFragmentReferences fun _ => ?_
  exact haltsIn_bind haltsIn_read fun _ => haltsIn_pure

/-- `Execute` does not use up its bound. -/
theorem run_stop_ne_outOfFuel (schema : GraphQlSchema) (query : Ustring) :
    (run schema query).stop? ≠ some .outOfFuel :=
  haltsIn_execute.stop_ne_outOfFuel (Nat.sub_le _ _)

/-- Parsing ends. The loops of the scanner end; a token takes a character unless the document has
ended; from any state the parsing loops of both parsers need no more than a few turns for each
character left, and so the constructor reads every source and `Execute` every query to the end. -/
theorem parsing_ends :
    GraphQlScanner.LoopsEnd ∧
    (∀ (s : GraphQlScanner) (treatKeywordAsName skipWhiteSpace : Bool),
      (s.takeNextToken treatKeywordAsName skipWhiteSpace).1 = .endOfDocument ∨
        s.position < (s.takeNextToken treatKeywordAsName skipWhiteSpace).2.position) ∧
    (∀ (s : GraphQlSchema) (more : Nat) (token : GraphQlToken) (last : Option Schema),
      ((GraphQlSchema.parseDefinitions (2 * s.scanner.left + 2 + more) token last).run s).stop? ≠
        some .outOfFuel) ∧
    (∀ (s : GraphQlExecutor) (more : Nat) (token : GraphQlToken) (document : ExecutableDefinition),
      ((parseDefinitions (3 * s.scanner.left + 3 + more) token document).run s).stop? ≠
        some .outOfFuel) ∧
    (∀ source : Ustring,
      ((GraphQlSchema.parseDocument source).run (GraphQlSchema.initial source)).stop? ≠
        some .outOfFuel) ∧
    ∀ (schema : GraphQlSchema) (query : Ustring), (run schema query).stop? ≠ some .outOfFuel := by
  refine ⟨GraphQlScanner.loopsEnd, ?_, ?_, ?_, ?_, run_stop_ne_outOfFuel⟩
  · intro s treatKeywordAsName skipWhiteSpace
    by_cases hend : (s.takeNextToken treatKeywordAsName skipWhiteSpace).1 = .endOfDocument
    · exact .inl hend
    · exact .inr (GraphQlScanner.takeNextToken_lt hend)
  · intro s more token last
    have hhalts : HaltsIn s.scanner.left
        (GraphQlSchema.parseDefinitions (2 * s.scanner.left + 2 + more) token last) :=
      GraphQlSchema.haltsIn_parseDefinitions _ (by omega) fun _ => by omega
    exact hhalts.stop_ne_outOfFuel (Nat.le_refl _)
  · intro s more token document
    have hhalts : HaltsIn s.scanner.left
        (parseDefinitions (3 * s.scanner.left + 3 + more) token document) :=
      haltsIn_parseDefinitions _ (by omega) fun _ => by omega
    exact hhalts.stop_ne_outOfFuel (Nat.le_refl _)
  · exact GraphQlSchema.parseDocument_stop_ne_outOfFuel

end GraphQlExecutor

end Flashpoint
