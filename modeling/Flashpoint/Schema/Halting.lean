import Flashpoint.Schema.Check
import Flashpoint.Halting

/-!
# Parsing a schema ends

The parsing loop of the constructor, with every function below it, halts on every source: each turn
of a loop takes a token, and a value takes one at each level.
-/

namespace Flashpoint

open Library Climb

namespace GraphQlSchema

open ParserM

theorem haltsIn_skipToNextPrimaryToken {n : Nat} : HaltsIn n skipToNextPrimaryToken :=
  haltsIn_bind haltsIn_skipTo fun _ => haltsIn_pure

/-- A computation that ends with a report and goes on to the next definition. -/
theorem haltsIn_giveUp {α : Type} {n : Nat} {a : α} :
    HaltsIn n (do
      skipToNextPrimaryToken
      return a : SchemaM α) :=
  haltsIn_bind haltsIn_skipToNextPrimaryToken fun _ => haltsIn_pure

/-! ## Values -/

theorem haltsIn_values (fuel : Nat) :
    (∀ {n}, 2 * n + 1 ≤ fuel → TakesIn n (fun value => value.isSome = true) (parseValue fuel)) ∧
    (∀ {n}, 2 * n + 2 ≤ fuel → HaltsIn n (parseListValues fuel)) ∧
    (∀ {n}, 2 * n + 1 ≤ fuel → HaltsIn n (parseObjectFields fuel)) := by
  induction fuel with
  | zero => exact ⟨fun h => by omega, fun h => by omega, fun h => by omega⟩
  | succ fuel ih =>
    obtain ⟨ihValue, ihList, ihFields⟩ := ih
    refine ⟨fun {n} hfuel => ?_, fun {n} hfuel => ?_, fun {n} hfuel => ?_⟩
    · rw [parseValue]
      refine takesIn_bind takesIn_takeToken (fun token _ i hi => ?_) fun token hend => ?_
      · refine haltsIn_bind (haltsIn_update fun _ => rfl) fun _ => ?_
        split
        · refine haltsIn_bind haltsIn_read fun _ => haltsIn_bind (ihList (by omega)) fun _ => ?_
          refine haltsIn_bind haltsIn_read fun _ => ?_
          refine haltsIn_bind (haltsIn_when haltsIn_reportValue) fun _ => ?_
          exact haltsIn_bind haltsIn_read fun _ => haltsIn_pure
        · exact haltsIn_pure
        · exact haltsIn_bind haltsIn_read fun _ => haltsIn_pure
        · exact haltsIn_bind haltsIn_read fun _ => haltsIn_bind haltsIn_read fun _ => haltsIn_pure
        · exact haltsIn_bind haltsIn_read fun _ => haltsIn_bind haltsIn_read fun _ => haltsIn_pure
        · exact haltsIn_bind haltsIn_read fun _ => haltsIn_bind haltsIn_read fun _ => haltsIn_pure
        · exact haltsIn_bind haltsIn_read fun _ => haltsIn_pure
        · exact haltsIn_bind haltsIn_read fun _ => haltsIn_pure
        · exact haltsIn_bind haltsIn_read fun _ => haltsIn_bind haltsIn_read fun _ => haltsIn_pure
        · refine haltsIn_bind haltsIn_read fun _ => haltsIn_bind (ihFields (by omega)) fun _ => ?_
          split
          · exact haltsIn_pure
          · exact haltsIn_bind haltsIn_read fun _ => haltsIn_pure
        · refine haltsIn_bind haltsIn_read fun _ => haltsIn_bind haltsIn_addDiagnostic fun _ => ?_
          exact haltsIn_bind haltsIn_skipTo fun _ => haltsIn_pure
      · -- at the end of the document there is no value
        obtain rfl : token = .endOfDocument := Decidable.not_not.1 hend
        refine takesIn_after (haltsIn_update fun _ => rfl) fun _ => ?_
        refine takesIn_after haltsIn_read fun _ => takesIn_after haltsIn_addDiagnostic fun _ => ?_
        exact takesIn_after haltsIn_skipTo fun _ => takesIn_pure Bool.false_ne_true
    · rw [parseListValues]
      refine takesIn_bind (ihValue (by omega)) (fun value hvalue i hi => ?_) fun value hvalue => ?_
      · split
        · exact haltsIn_pure
        · exact haltsIn_bind (ihList (by omega)) fun _ => haltsIn_pure
      · split
        · exact haltsIn_pure
        · exact absurd rfl hvalue
    · rw [parseObjectFields]
      refine takesIn_bind takesIn_takeNextToken (fun token _ i hi => ?_) fun token hend => ?_
      · split
        · exact haltsIn_pure
        split
        · refine haltsIn_bind haltsIn_addDiagnostic fun _ => haltsIn_bind haltsIn_skipTo fun _ => ?_
          split
          · exact ihFields (by omega)
          · exact haltsIn_pure
        · refine haltsIn_bind haltsIn_read fun _ => haltsIn_bind haltsIn_read fun _ => ?_
          refine haltsIn_bind haltsIn_createName fun _ => ?_
          refine haltsIn_bind (haltsIn_scanExpected (by decide)) fun _ => ?_
          split
          · refine haltsIn_bind (ihValue (by omega)).halts fun _ => ?_
            exact haltsIn_bind (ihFields (by omega)) fun _ => haltsIn_pure
          · exact haltsIn_pure
      · rw [if_pos (.inr (Decidable.not_not.1 hend))]
        exact haltsIn_pure

theorem haltsIn_parseValue {fuel n : Nat} (hfuel : 2 * n + 1 ≤ fuel) :
    HaltsIn n (parseValue fuel) := ((haltsIn_values fuel).1 hfuel).halts

/-! ## Directives -/

theorem haltsIn_reportDuplicateArgument {n : Nat} {first name : Name} :
    HaltsIn n (reportDuplicateArgument first name) :=
  haltsIn_bind haltsIn_hasDiagnosticInSyntax fun _ =>
    haltsIn_bind (haltsIn_when haltsIn_reportAt) fun _ => haltsIn_reportAt

theorem haltsIn_parseArgumentsAfterOpenParen (fuel : Nat) : ∀ {n arguments}, 2 * n + 2 ≤ fuel →
    HaltsIn n (parseArgumentsAfterOpenParen fuel arguments) := by
  induction fuel with
  | zero => exact fun h => by omega
  | succ fuel ih =>
    intro n arguments hfuel
    rw [parseArgumentsAfterOpenParen]
    refine haltsIn_bind takesIn_takeNextToken.halts fun token => ?_
    split
    · exact haltsIn_pure
    · refine haltsIn_bind haltsIn_read fun _ => haltsIn_bind haltsIn_createName fun _ => ?_
      refine haltsIn_bind haltsIn_read fun _ => ?_
      -- the token may be the end of the document, the colon is not
      refine takesIn_bind (takesIn_scanExpected (by decide)) (fun found hfound i hi => ?_)
        fun found hfound => ?_
      · rw [if_pos hfound]
        refine haltsIn_bind (haltsIn_parseValue (by omega)) fun _ => ?_
        split
        · exact ih (by omega)
        · exact haltsIn_bind haltsIn_reportDuplicateArgument fun _ => ih (by omega)
      · rw [if_neg hfound]
        exact haltsIn_bind haltsIn_skipTo fun _ => haltsIn_pure

theorem haltsIn_parseDirectiveArguments {fuel n : Nat} (hfuel : 2 * n + 2 ≤ fuel) :
    HaltsIn n (parseDirectiveArguments fuel) := by
  refine haltsIn_bind (haltsIn_scanOptional (by decide)) fun _ => ?_
  split
  · exact haltsIn_parseArgumentsAfterOpenParen fuel hfuel
  · exact haltsIn_pure

theorem haltsIn_parseDirectivesLoop {location : DirectiveLocation} {parent : Option Name}
    (fuel : Nat) : ∀ {n directives}, 2 * n + 1 ≤ fuel →
      HaltsIn n (parseDirectivesLoop location parent fuel directives) := by
  induction fuel with
  | zero => exact fun h => by omega
  | succ fuel ih =>
    intro n directives hfuel
    rw [parseDirectivesLoop]
    refine takesIn_bind (takesIn_scanOptional (by decide)) (fun found hfound i hi => ?_)
      fun found hfound => ?_
    · rw [if_pos hfound]
      refine haltsIn_bind takesIn_takeNextToken.halts fun token => ?_
      split
      · refine haltsIn_bind haltsIn_read fun _ => haltsIn_bind haltsIn_addDiagnostic fun _ => ?_
        exact haltsIn_giveUp
      · refine haltsIn_bind haltsIn_read fun _ => haltsIn_bind haltsIn_read fun _ => ?_
        refine haltsIn_bind haltsIn_createName fun _ => ?_
        refine haltsIn_bind (haltsIn_parseDirectiveArguments (by omega)) fun _ => ?_
        refine haltsIn_bind (haltsIn_update fun _ => rfl) fun _ => ?_
        split
        · exact ih (by omega)
        · exact haltsIn_bind haltsIn_addDiagnostic fun _ => ih (by omega)
    · rw [if_neg hfound]
      exact haltsIn_pure

theorem haltsIn_parseDirectives {fuel n : Nat} (hfuel : 2 * n + 1 ≤ fuel)
    {location : DirectiveLocation} {parent : Option Name} :
    HaltsIn n (parseDirectives fuel location parent) := haltsIn_parseDirectivesLoop fuel hfuel

/-! ## Types and arguments -/

theorem haltsIn_parseNamedType {n : Nat} {span : Span} {inInputLocation isListType : Bool}
    {parent : Option Name} {token : GraphQlToken} :
    HaltsIn n (parseNamedType span inInputLocation parent isListType token) := by
  unfold parseNamedType
  split
  · exact haltsIn_bind haltsIn_read fun _ => haltsIn_bind haltsIn_addDiagnostic fun _ => haltsIn_pure
  · refine haltsIn_bind haltsIn_read fun _ => haltsIn_bind haltsIn_createName fun _ => ?_
    refine haltsIn_bind haltsIn_createType fun _ => ?_
    refine haltsIn_bind (haltsIn_when haltsIn_modifyMembers) fun _ => ?_
    refine haltsIn_bind (haltsIn_scanOptional (by decide)) fun _ => ?_
    refine haltsIn_bind haltsIn_modifyType fun _ => ?_
    split
    · refine haltsIn_bind (haltsIn_scanExpected (by decide)) fun _ => ?_
      split
      · refine haltsIn_bind (haltsIn_scanOptional (by decide)) fun _ => ?_
        refine haltsIn_bind haltsIn_modifyType fun _ => haltsIn_bind haltsIn_read fun _ => ?_
        exact haltsIn_bind haltsIn_modifyType fun _ => haltsIn_pure
      · exact haltsIn_pure
    · refine haltsIn_bind haltsIn_read fun _ => ?_
      exact haltsIn_bind haltsIn_modifyType fun _ => haltsIn_pure

theorem haltsIn_parseTypeAnnotation {n : Nat} {inInputLocation : Bool} {parent : Option Name} :
    HaltsIn n ( parseTypeAnnotation inInputLocation parent) := by
  refine haltsIn_bind takesIn_takeToken.halts fun _ => haltsIn_bind haltsIn_read fun _ => ?_
  split
  · exact haltsIn_bind takesIn_takeToken.halts fun _ => haltsIn_parseNamedType
  · exact haltsIn_parseNamedType

theorem haltsIn_parseArgumentsDefinitionAfterOpenParen {parent : Option Name} (fuel : Nat) :
    ∀ {n arguments}, 2 * n + 1 ≤ fuel →
      HaltsIn n (parseArgumentsDefinitionAfterOpenParen parent fuel arguments) := by
  induction fuel with
  | zero => exact fun h => by omega
  | succ fuel ih =>
    intro n arguments hfuel
    rw [parseArgumentsDefinitionAfterOpenParen]
    refine takesIn_bind takesIn_takeNextToken (fun token _ i hi => ?_) fun token hend => ?_
    · split
      · refine haltsIn_bind haltsIn_read fun _ => ?_
        exact haltsIn_bind (haltsIn_update fun _ => rfl) fun _ => ih (by omega)
      · refine haltsIn_bind haltsIn_read fun _ => haltsIn_bind haltsIn_read fun _ => ?_
        refine haltsIn_bind (haltsIn_update fun _ => rfl) fun _ => ?_
        split
        · exact haltsIn_pure
        split
        · exact haltsIn_bind haltsIn_addDiagnostic fun _ => haltsIn_pure
        · refine haltsIn_bind haltsIn_read fun _ => haltsIn_bind haltsIn_createName fun _ => ?_
          refine haltsIn_bind (haltsIn_scanExpected (by decide)) fun _ => ?_
          split
          · refine haltsIn_bind haltsIn_parseTypeAnnotation fun _ => ?_
            refine haltsIn_bind (haltsIn_parseDirectives (by omega)) fun _ => ?_
            split
            · exact ih (by omega)
            · exact haltsIn_bind haltsIn_addDiagnostic fun _ => ih (by omega)
          · exact haltsIn_pure
    · obtain rfl : token = .endOfDocument := Decidable.not_not.1 hend
      refine haltsIn_bind haltsIn_read fun _ => haltsIn_bind haltsIn_read fun _ => ?_
      exact haltsIn_bind (haltsIn_update fun _ => rfl) fun _ => haltsIn_pure

theorem haltsIn_parseArgumentsDefinition {parent : Option Name} {fuel n : Nat}
    (hfuel : 2 * n + 1 ≤ fuel) : HaltsIn n (parseArgumentsDefinition parent fuel) := by
  refine haltsIn_bind (haltsIn_scanOptional (by decide)) fun _ => ?_
  split
  · exact haltsIn_parseArgumentsDefinitionAfterOpenParen fuel hfuel
  · exact haltsIn_pure

/-! ## Fields -/

theorem haltsIn_parseFieldsDefinitionAfterOpenBrace (fuel : Nat) :
    ∀ {n fields description}, 2 * n + 1 ≤ fuel →
      HaltsIn n (parseFieldsDefinitionAfterOpenBrace fuel fields description) := by
  induction fuel with
  | zero => exact fun h => by omega
  | succ fuel ih =>
    intro n fields description hfuel
    rw [parseFieldsDefinitionAfterOpenBrace]
    refine takesIn_bind takesIn_takeNextToken (fun token htoken i hi => ?_) fun token hend => ?_
    · rw [if_neg htoken]
      split
      · exact haltsIn_pure
      split
      · exact haltsIn_bind haltsIn_read fun _ => ih (by omega)
      split
      · exact haltsIn_bind haltsIn_takeErrorsFromScanner fun _ => ih (by omega)
      split
      · exact haltsIn_bind haltsIn_addDiagnostic fun _ => haltsIn_pure
      · refine haltsIn_bind haltsIn_read fun _ => haltsIn_bind haltsIn_read fun _ => ?_
        refine haltsIn_bind (haltsIn_when haltsIn_addDiagnostic) fun _ => ?_
        refine haltsIn_bind haltsIn_createName fun _ => ?_
        refine haltsIn_bind (haltsIn_parseArgumentsDefinition (by omega)) fun _ => ?_
        refine haltsIn_bind (haltsIn_scanExpected (by decide)) fun _ => ?_
        split
        · refine haltsIn_bind haltsIn_parseTypeAnnotation fun _ => ?_
          split
          · exact haltsIn_pure
          · exact haltsIn_bind (haltsIn_parseDirectives (by omega)) fun _ => ih (by omega)
        · exact haltsIn_pure
    · rw [if_pos (Decidable.not_not.1 hend)]
      exact haltsIn_bind haltsIn_addDiagnostic fun _ => haltsIn_pure

theorem haltsIn_parseFieldsDefinition {fuel n : Nat} (hfuel : 2 * n + 1 ≤ fuel) :
    HaltsIn n (parseFieldsDefinition fuel) := by
  refine haltsIn_bind (haltsIn_scanExpected (by decide)) fun _ => ?_
  split
  · exact haltsIn_parseFieldsDefinitionAfterOpenBrace fuel hfuel
  · exact haltsIn_pure

theorem haltsIn_parseInputFieldsDefinitionLoop (fuel : Nat) :
    ∀ {n fields requiredFields}, 2 * n + 1 ≤ fuel →
      HaltsIn n (parseInputFieldsDefinitionLoop fuel fields requiredFields) := by
  induction fuel with
  | zero => exact fun h => by omega
  | succ fuel ih =>
    intro n fields requiredFields hfuel
    rw [parseInputFieldsDefinitionLoop]
    refine haltsIn_bind haltsIn_read fun _ => ?_
    refine takesIn_bind takesIn_takeNextToken (fun token htoken i hi => ?_) fun token hend => ?_
    · rw [if_neg htoken]
      split
      · exact haltsIn_pure
      split
      · exact ih (by omega)
      split
      · exact haltsIn_bind haltsIn_takeErrorsFromScanner fun _ => ih (by omega)
      split
      · exact haltsIn_bind haltsIn_addDiagnostic fun _ => haltsIn_pure
      · refine haltsIn_bind haltsIn_read fun _ => haltsIn_bind haltsIn_createName fun _ => ?_
        refine haltsIn_bind (haltsIn_scanExpected (by decide)) fun _ => ?_
        split
        · refine haltsIn_bind haltsIn_parseTypeAnnotation fun _ => ?_
          split
          · exact haltsIn_pure
          · refine haltsIn_bind haltsIn_deref fun _ => ?_
            exact haltsIn_bind (haltsIn_parseDirectives (by omega)) fun _ => ih (by omega)
        · exact haltsIn_pure
    · rw [if_pos (Decidable.not_not.1 hend)]
      exact haltsIn_bind haltsIn_addDiagnostic fun _ => haltsIn_pure

theorem haltsIn_parseInputFieldsDefinition {fuel n : Nat} (hfuel : 2 * n + 1 ≤ fuel) :
    HaltsIn n (parseInputFieldsDefinition fuel) := by
  refine haltsIn_bind (haltsIn_scanExpected (by decide)) fun _ => ?_
  split
  · exact haltsIn_parseInputFieldsDefinitionLoop fuel hfuel
  · exact haltsIn_pure

/-! ## Type definitions -/

theorem haltsIn_registerSymbol {n : Nat} {name : Name} {id : DeclarationId} {kind : SymbolKind} :
    HaltsIn n (registerSymbol name id kind) := by
  refine haltsIn_bind haltsIn_recordStep fun _ => haltsIn_bind haltsIn_read fun _ => ?_
  split
  · exact haltsIn_modifyMembers
  · refine haltsIn_bind haltsIn_getLocationFromSyntax fun _ => ?_
    refine haltsIn_bind haltsIn_addDiagnosticAt fun _ => haltsIn_bind haltsIn_read fun _ => ?_
    apply haltsIn_when
    refine haltsIn_bind haltsIn_deref fun _ => haltsIn_bind haltsIn_follow fun _ => ?_
    refine haltsIn_bind haltsIn_getLocationFromSyntax fun _ => ?_
    exact haltsIn_bind haltsIn_addDiagnosticAt fun _ => haltsIn_modifyMembers

theorem haltsIn_parseDefinitionName {n : Nat} {id : DeclarationId} {kind : SymbolKind}
    {treatKeywordAsName : Bool} : HaltsIn n (parseDefinitionName id kind treatKeywordAsName) := by
  refine haltsIn_bind haltsIn_scanExpectedOr fun _ => ?_
  split
  · refine haltsIn_bind haltsIn_read fun _ => haltsIn_bind haltsIn_createName fun _ => ?_
    exact haltsIn_bind haltsIn_registerSymbol fun _ => haltsIn_pure
  · exact haltsIn_pure

theorem haltsIn_checkImplementationName {n : Nat} {name : Name} :
    HaltsIn n (checkImplementationName name) := by
  refine haltsIn_bind haltsIn_read fun _ => ?_
  split
  · exact haltsIn_pure
  · exact haltsIn_when haltsIn_addDiagnostic

theorem haltsIn_parseImplementations (fuel : Nat) : ∀ {n implementations}, 2 * n + 1 ≤ fuel →
    HaltsIn n (parseImplementations fuel implementations) := by
  induction fuel with
  | zero => exact fun h => by omega
  | succ fuel ih =>
    intro n implementations hfuel
    rw [parseImplementations]
    refine takesIn_bind takesIn_takeToken (fun token htoken i hi => ?_) fun token hend => ?_
    · rw [if_neg htoken]
      split
      · exact haltsIn_bind haltsIn_addDiagnostic fun _ => haltsIn_pure
      · refine haltsIn_bind haltsIn_read fun _ => haltsIn_bind haltsIn_createName fun _ => ?_
        refine haltsIn_bind haltsIn_checkImplementationName fun _ => ?_
        refine haltsIn_bind takesIn_takeToken.halts fun postToken => ?_
        split
        · exact haltsIn_pure
        split
        · exact ih (by omega)
        · refine haltsIn_bind haltsIn_read fun _ => haltsIn_bind haltsIn_addDiagnostic fun _ => ?_
          exact haltsIn_bind haltsIn_skipBlock fun _ => haltsIn_pure
    · rw [if_pos (Decidable.not_not.1 hend)]
      exact haltsIn_bind haltsIn_addDiagnostic fun _ => haltsIn_pure

theorem haltsIn_parseInterfaceDefinition {fuel n : Nat} (hfuel : 2 * n + 1 ≤ fuel) :
    HaltsIn n (parseInterfaceDefinition fuel) := by
  refine haltsIn_bind haltsIn_read fun _ => haltsIn_bind haltsIn_createDeclaration fun _ => ?_
  refine haltsIn_bind haltsIn_parseDefinitionName fun _ => haltsIn_bind haltsIn_read fun _ => ?_
  split
  · exact haltsIn_pure
  · refine haltsIn_bind haltsIn_setDeclaration fun _ => ?_
    refine haltsIn_bind (haltsIn_parseDirectives hfuel) fun _ => ?_
    refine haltsIn_bind (haltsIn_parseFieldsDefinition hfuel) fun _ => ?_
    refine haltsIn_bind haltsIn_setDeclaration fun _ => ?_
    exact haltsIn_bind haltsIn_modifyMembers fun _ => haltsIn_pure

theorem haltsIn_parseObjectBody {fuel n : Nat} (hfuel : 2 * n + 1 ≤ fuel) {id : DeclarationId}
    {object : Object} : HaltsIn n (parseObjectBody fuel id object) := by
  refine haltsIn_bind (haltsIn_scanOptional (by decide)) fun _ => ?_
  split
  · refine haltsIn_bind (haltsIn_parseImplementations fuel hfuel) fun _ => ?_
    split
    · exact haltsIn_pure
    · refine haltsIn_bind haltsIn_setDeclaration fun _ => ?_
      refine haltsIn_bind (haltsIn_parseFieldsDefinitionAfterOpenBrace fuel hfuel) fun _ => ?_
      refine haltsIn_bind haltsIn_setDeclaration fun _ => ?_
      exact haltsIn_bind haltsIn_modifyMembers fun _ => haltsIn_pure
  · refine haltsIn_bind (haltsIn_parseFieldsDefinition hfuel) fun _ => ?_
    exact haltsIn_bind haltsIn_setDeclaration fun _ => haltsIn_pure

theorem haltsIn_parseObject {fuel n : Nat} (hfuel : 2 * n + 1 ≤ fuel) :
    HaltsIn n (parseObject fuel) := by
  refine haltsIn_bind haltsIn_read fun _ => haltsIn_bind haltsIn_createDeclaration fun _ => ?_
  refine haltsIn_bind haltsIn_parseDefinitionName fun _ => haltsIn_bind haltsIn_read fun _ => ?_
  split
  · exact haltsIn_pure
  · refine haltsIn_bind haltsIn_setDeclaration fun _ => ?_
    refine haltsIn_bind (haltsIn_parseDirectives hfuel) fun _ => ?_
    exact haltsIn_bind haltsIn_setDeclaration fun _ => haltsIn_parseObjectBody hfuel

theorem haltsIn_parseInputObject {fuel n : Nat} (hfuel : 2 * n + 1 ≤ fuel) :
    HaltsIn n (parseInputObject fuel) := by
  refine haltsIn_bind haltsIn_read fun _ => haltsIn_bind haltsIn_createDeclaration fun _ => ?_
  refine haltsIn_bind haltsIn_parseDefinitionName fun _ => haltsIn_bind haltsIn_read fun _ => ?_
  split
  · exact haltsIn_pure
  · refine haltsIn_bind haltsIn_setDeclaration fun _ => ?_
    refine haltsIn_bind (haltsIn_parseDirectives hfuel) fun _ => ?_
    refine haltsIn_bind (haltsIn_parseInputFieldsDefinition hfuel) fun _ => ?_
    exact haltsIn_bind haltsIn_setDeclaration fun _ => haltsIn_pure

theorem haltsIn_parseEnumValues (fuel : Nat) : ∀ {n values}, 2 * n + 1 ≤ fuel →
    HaltsIn n (parseEnumValues fuel values) := by
  induction fuel with
  | zero => exact fun h => by omega
  | succ fuel ih =>
    intro n values hfuel
    rw [parseEnumValues]
    refine takesIn_bind takesIn_takeToken (fun token htoken i hi => ?_) fun token hend => ?_
    · split
      · exact haltsIn_pure
      split
      · exact ih (by omega)
      split
      · refine haltsIn_bind haltsIn_read fun _ => haltsIn_bind haltsIn_addDiagnostic fun _ => ?_
        exact haltsIn_bind haltsIn_skipTo fun _ => haltsIn_pure
      · refine haltsIn_bind haltsIn_read fun _ => haltsIn_bind haltsIn_createName fun _ => ?_
        exact haltsIn_bind (haltsIn_parseDirectives (by omega)) fun _ => ih (by omega)
    · obtain rfl : token = .endOfDocument := Decidable.not_not.1 hend
      exact haltsIn_bind haltsIn_addDiagnostic fun _ => haltsIn_pure

theorem haltsIn_parseEnum {fuel n : Nat} (hfuel : 2 * n + 1 ≤ fuel) :
    HaltsIn n (parseEnum fuel) := by
  refine haltsIn_bind (haltsIn_scanExpected (by decide)) fun _ => ?_
  split
  · refine haltsIn_bind haltsIn_read fun _ => haltsIn_bind haltsIn_read fun _ => ?_
    refine haltsIn_bind haltsIn_createName fun _ => haltsIn_bind haltsIn_createDeclaration fun _ => ?_
    refine haltsIn_bind haltsIn_registerSymbol fun _ => ?_
    refine haltsIn_bind (haltsIn_parseDirectives hfuel) fun _ => ?_
    refine haltsIn_bind haltsIn_setDeclaration fun _ => ?_
    refine haltsIn_bind (haltsIn_scanExpected (by decide)) fun _ => ?_
    split
    · refine haltsIn_bind (haltsIn_parseEnumValues fuel hfuel) fun _ => ?_
      exact haltsIn_bind haltsIn_setDeclaration fun _ => haltsIn_pure
    · exact haltsIn_pure
  · exact haltsIn_pure

/-- A token that starts a definition is taken back, so only a pipe leads to the next turn. -/
theorem haltsIn_parseUnionMembers (fuel : Nat) : ∀ {n members}, 2 * n + 1 ≤ fuel →
    HaltsIn n (parseUnionMembers fuel members) := by
  induction fuel with
  | zero => exact fun h => by omega
  | succ fuel ih =>
    intro n members hfuel
    rw [parseUnionMembers]
    refine haltsIn_lookAhead (c := fun token => tokenIsPrimary token = true)
      (fun token hprimary => ?_) rfl fun token hprimary i hi => ?_
    · have hpipe : token ≠ .pipe := fun h => by rw [h] at hprimary; exact Bool.false_ne_true hprimary
      rw [if_pos hpipe, if_pos hprimary]
      exact ⟨_, rfl, fun _ => haltsIn_pure⟩
    · split
      · exact haltsIn_giveUp
      · refine haltsIn_bind (haltsIn_scanExpected (by decide)) fun _ => ?_
        split
        · refine haltsIn_bind haltsIn_read fun _ => haltsIn_bind haltsIn_createName fun _ => ?_
          exact ih (by omega)
        · exact haltsIn_giveUp

theorem haltsIn_parseUnionAfterUnionKeyword {fuel n : Nat} (hfuel : 2 * n + 1 ≤ fuel) :
    HaltsIn n (parseUnionAfterUnionKeyword fuel) := by
  refine haltsIn_bind haltsIn_read fun _ => ?_
  refine haltsIn_bind (haltsIn_scanExpected (by decide)) fun _ => ?_
  split
  · refine haltsIn_bind haltsIn_read fun _ => haltsIn_bind haltsIn_createName fun _ => ?_
    refine haltsIn_bind (haltsIn_parseDirectives hfuel) fun _ => ?_
    refine haltsIn_bind (haltsIn_scanExpected (by decide)) fun _ => ?_
    split
    · refine haltsIn_bind (haltsIn_scanOptional (by decide)) fun _ => ?_
      refine haltsIn_bind (haltsIn_scanExpected (by decide)) fun _ => ?_
      split
      · refine haltsIn_bind haltsIn_read fun _ => haltsIn_bind haltsIn_createName fun _ => ?_
        refine haltsIn_bind (haltsIn_parseUnionMembers fuel hfuel) fun _ => ?_
        split
        · exact haltsIn_pure
        · refine haltsIn_bind haltsIn_createDeclaration fun _ => ?_
          refine haltsIn_bind haltsIn_recordStep fun _ => ?_
          exact haltsIn_bind haltsIn_modifyMembers fun _ => haltsIn_pure
      · exact haltsIn_giveUp
    · exact haltsIn_giveUp
  · exact haltsIn_giveUp

/-! ## Directive definitions and the schema block -/

theorem haltsIn_parseLocations (fuel : Nat) : ∀ {n locations}, 2 * n + 1 ≤ fuel →
    HaltsIn n (parseLocations fuel locations) := by
  induction fuel with
  | zero => exact fun h => by omega
  | succ fuel ih =>
    intro n locations hfuel
    rw [parseLocations]
    refine haltsIn_lookAhead (c := fun token => tokenIsPrimary token = true)
      (fun token hprimary => ?_) rfl fun token hprimary i hi => ?_
    · rw [if_pos hprimary]
      exact ⟨_, rfl, fun _ => haltsIn_pure⟩
    · rw [if_neg hprimary]
      split
      · refine haltsIn_bind haltsIn_read fun _ => haltsIn_bind haltsIn_addDiagnostic fun _ => ?_
        exact haltsIn_giveUp
      · refine haltsIn_bind haltsIn_scanDirectiveLocation fun _ => ?_
        split
        · exact haltsIn_bind haltsIn_addDiagnostic fun _ => haltsIn_giveUp
        split
        · exact haltsIn_bind haltsIn_addDiagnosticAt fun _ => haltsIn_pure
        · exact ih (by omega)

theorem haltsIn_parseDirectiveLocations {fuel n : Nat} (hfuel : 2 * n + 1 ≤ fuel)
    {name : Ustring} : HaltsIn n (parseDirectiveLocations fuel name) := by
  refine haltsIn_bind (haltsIn_scanOptional (by decide)) fun _ => ?_
  refine haltsIn_bind (haltsIn_update fun _ => rfl) fun _ => ?_
  refine haltsIn_bind haltsIn_scanDirectiveLocation fun _ => ?_
  split
  · exact haltsIn_bind haltsIn_addDiagnostic fun _ => haltsIn_giveUp
  · exact haltsIn_parseLocations fuel hfuel

theorem haltsIn_parseDirectiveDefinition {fuel n : Nat} (hfuel : 2 * n + 1 ≤ fuel) :
    HaltsIn n (parseDirectiveDefinitionAfterDirectiveKeyword fuel) := by
  refine haltsIn_bind (haltsIn_scanExpected (by decide)) fun _ => ?_
  split
  · refine haltsIn_bind takesIn_takeNextToken.halts fun token => ?_
    split
    · split
      · exact takesIn_throwException
      · exact haltsIn_bind haltsIn_addDiagnostic fun _ => haltsIn_giveUp
    · refine haltsIn_bind haltsIn_read fun _ => haltsIn_bind haltsIn_read fun _ => ?_
      refine haltsIn_bind haltsIn_read fun _ => haltsIn_bind haltsIn_createName fun _ => ?_
      refine haltsIn_bind (haltsIn_parseArgumentsDefinition hfuel) fun _ => ?_
      refine haltsIn_bind (haltsIn_scanExpected (by decide)) fun _ => ?_
      split
      · refine haltsIn_bind (haltsIn_parseDirectiveLocations hfuel) fun _ => ?_
        split
        · exact haltsIn_pure
        · exact haltsIn_bind haltsIn_modifyMembers fun _ => haltsIn_pure
      · exact haltsIn_bind haltsIn_skipTo fun _ => haltsIn_pure
  · exact haltsIn_giveUp

theorem haltsIn_parseSchemaFieldAfterColon {n : Nat} : HaltsIn n parseSchemaFieldAfterColon := by
  refine haltsIn_bind (haltsIn_scanExpected (by decide)) fun _ => ?_
  split
  · refine haltsIn_bind (haltsIn_scanExpected (by decide)) fun _ => ?_
    split
    · refine haltsIn_bind haltsIn_read fun _ => ?_
      exact haltsIn_bind haltsIn_createName fun _ => haltsIn_pure
    · exact haltsIn_giveUp
  · exact haltsIn_pure

theorem haltsIn_parseSchemaFields (fuel : Nat) : ∀ {n schema duplicates}, 2 * n + 1 ≤ fuel →
    HaltsIn n (parseSchemaFields fuel schema duplicates) := by
  induction fuel with
  | zero => exact fun h => by omega
  | succ fuel ih =>
    intro n schema duplicates hfuel
    rw [parseSchemaFields]
    refine takesIn_bind takesIn_takeToken (fun token _ i hi => ?_) fun token hend => ?_
    · split
      · split
        · refine haltsIn_bind haltsIn_createName fun _ => ?_
          exact haltsIn_bind haltsIn_parseSchemaFieldAfterColon fun _ => ih (by omega)
        · refine haltsIn_bind haltsIn_addDiagnostic fun _ => ?_
          refine haltsIn_bind haltsIn_parseSchemaFieldAfterColon fun _ => ?_
          split
          · exact ih (by omega)
          · refine haltsIn_bind haltsIn_getLocationFromSyntax fun _ => ?_
            exact haltsIn_bind haltsIn_addDiagnosticAt fun _ => ih (by omega)
      split
      · exact haltsIn_pure
      · refine haltsIn_bind haltsIn_addDiagnostic fun _ => ?_
        exact haltsIn_bind haltsIn_parseSchemaFieldAfterColon fun _ => ih (by omega)
    · obtain rfl : token = .endOfDocument := Decidable.not_not.1 hend
      exact haltsIn_pure

theorem haltsIn_parseSchema {fuel n : Nat} (hfuel : 2 * n + 1 ≤ fuel) :
    HaltsIn n (parseSchema fuel) := by
  refine haltsIn_bind (haltsIn_parseDirectives hfuel) fun _ => ?_
  refine haltsIn_bind (haltsIn_scanExpected (by decide)) fun _ => ?_
  split
  · refine haltsIn_bind haltsIn_read fun _ => ?_
    exact haltsIn_bind (haltsIn_parseSchemaFields fuel hfuel) fun _ => haltsIn_pure
  · exact haltsIn_bind haltsIn_skipBlock fun _ => haltsIn_pure

/-! ## The document -/

theorem haltsIn_parsePrimaryToken {fuel n : Nat} (hfuel : 2 * n + 1 ≤ fuel)
    {token : GraphQlToken} : HaltsIn n (parsePrimaryToken fuel token) := by
  unfold parsePrimaryToken
  split
  · exact haltsIn_bind (haltsIn_parseDirectiveDefinition hfuel) fun _ => haltsIn_pure
  · exact haltsIn_bind (haltsIn_parseEnum hfuel) fun _ => haltsIn_pure
  · exact haltsIn_bind (haltsIn_parseInterfaceDefinition hfuel) fun _ => haltsIn_pure
  · exact haltsIn_bind (haltsIn_parseInputObject hfuel) fun _ => haltsIn_pure
  · exact haltsIn_bind (haltsIn_parseSchema hfuel) fun _ => haltsIn_pure
  · exact haltsIn_bind (haltsIn_parseObject hfuel) fun _ => haltsIn_pure
  · exact haltsIn_bind (haltsIn_parseUnionAfterUnionKeyword hfuel) fun _ => haltsIn_pure
  · exact haltsIn_bind haltsIn_addDiagnostic fun _ => haltsIn_pure

/-- The parsing loop from a token on: the end of the document is met with any bound, and every
other token was taken before the turn it starts. -/
theorem haltsIn_parseDefinitions (fuel : Nat) : ∀ {n token schema}, 1 ≤ fuel →
    (token ≠ .endOfDocument → 2 * n + 2 ≤ fuel) →
    HaltsIn n (parseDefinitions fuel token schema) := by
  induction fuel with
  | zero => exact fun h => by omega
  | succ fuel ih =>
    intro n token schema _ hfuel
    have hnext : ∀ schema, token ≠ .endOfDocument →
        HaltsIn n (takeToken >>= fun token => parseDefinitions fuel token schema) := by
      intro schema htoken
      have hfuel := hfuel htoken
      refine takesIn_bind takesIn_takeToken (fun token _ i hi => ?_) fun token hend => ?_
      · exact ih (by omega) fun _ => by omega
      · exact ih (by omega) fun h => absurd h hend
    rw [parseDefinitions]
    split
    · exact haltsIn_pure
    next htoken =>
    split
    · refine haltsIn_bind haltsIn_read fun _ => ?_
      exact haltsIn_bind (haltsIn_update fun _ => rfl) fun _ => hnext _ htoken
    · have hfuel := hfuel htoken
      refine haltsIn_bind (haltsIn_parsePrimaryToken (by omega)) fun _ => ?_
      refine haltsIn_bind (haltsIn_update fun _ => rfl) fun _ => ?_
      split
      · exact haltsIn_bind haltsIn_modifyMembers fun _ => hnext _ htoken
      · exact haltsIn_bind haltsIn_skipBlock fun _ => hnext _ htoken

theorem haltsIn_parseDocument {source : Ustring} :
    HaltsIn source.length (parseDocument source) := by
  refine haltsIn_bind takesIn_takeToken.halts fun token => ?_
  exact haltsIn_parseDefinitions _ (by simp [fuelFor]) fun _ => by simp only [fuelFor]; omega

/-- The parsing loop of the constructor does not use up its bound. -/
theorem parseDocument_stop_ne_outOfFuel (source : Ustring) :
    ((parseDocument source).run (initial source)).stop? ≠ some .outOfFuel :=
  haltsIn_parseDocument.stop_ne_outOfFuel (Nat.sub_le _ _)

end GraphQlSchema

end Flashpoint
