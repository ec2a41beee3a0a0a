import Mathlib.Logic.Basic

/-!
# Diagnostics

The texts a parser can report (`D`), and a report (`DiagnosticMessage`): a template, its arguments
and the place in the source it is about.
-/

namespace Flashpoint

/-- A Unicode text, by its code points. -/
abbrev Ustring := List Char

/-- A place in a source: a line and a column counted from one, and a length, or the end of the
source. -/
structure Location where
  line : Nat
  column : Nat
  length : Nat
  endOfSource : Bool := false
deriving DecidableEq, Repr

/-- The diagnostic templates. -/
inductive D where
  | aSchemaDefinitionCanOnlyContainQueryMutationAndSubscriptionFields
  | cannotAddAnOutputTypeToAnInputLocation
  | cannotAddAnInputTypeToAnOutputLocation
  | cannotAnnotateWithATypeThatRecursivelyReferencesTheDirective0
  | cannotSelectFieldsOnAScalarField0
  | directiveCannotReferenceItself
  | duplicateArgument0
  | duplicateField0
  | duplicateFragment0
  | duplicateType0
  | expected0ButGot1
  | expected0ButInsteadReachedTheEndOfDocument
  | expectedAtLeastAFieldInlineFragmentOrFragmentSpread
  | expectedDirectiveLocationButInsteadReachedTheEndOfDocument
  | expectedDirectiveLocation
  | expectedEnumValueButInsteadGot0
  | expectedFieldDefinition
  | expectedFieldInlineFragmentOrFragmentSpread
  | expectedFragmentSpreadOrInlineFragment
  | expectedNameOfArgument
  | expectedNameOfInterface
  | expectedNameOfObject
  | expectedNameButInsteadGot0
  | expectedObjectFieldName
  | expectedOperationDefinitionOrFragmentDefinition
  | expectedTypeAnnotationInsteadGot0
  | expectedTypeDefinition
  | expectedTypeNameInsteadGot0
  | expectedValueInsteadGot0
  | field0DoesNotExistOnType1
  | fragment0IsNotDefined
  | interface0IsNotDefined
  | invalidUnicodeEscapeSequence
  | missingRequiredArgument0
  | missingRequiredField0
  | mutationsAreNotSupported
  | noQueryRootOperationTypeDefined
  | onlyObjectsAreAllowedAsMembersInAUnion
  | subscriptionsAreNotSupported
  | theDirective0DoesNotSupportTheLocation1
  | theField0InInterface1IsNotImplemented
  | theObject0DoesNotImplementTheInterface1
  | theObject0DoesNotMatchTheObject1
  | theType0IsNotAnObject
  | theType0IsNotMemberOfTheUnion1
  | theValue0IsNotAssignableToType1
  | type0DoesNotMatchType1FromTheInterface2
  | type0IsNotAssignableToType1
  | type0IsNotDefined
  | typeConditionsAreOnlyApplicableInsideObjectInterfacesAndUnions
  | undefinedDirective0
  | undefinedEnumValue0
  | unexpectedEndOfImplementations
  | unknownArgument0
  | unterminatedStringValue
deriving DecidableEq, Repr

/-- The text of a template, with its holes. -/
def D.messageTemplate : D → String
  | .aSchemaDefinitionCanOnlyContainQueryMutationAndSubscriptionFields =>
    "A schema definition can only contain 'query', 'mutation' and 'subscription' fields."
  | .cannotAddAnOutputTypeToAnInputLocation =>
    "Cannot add an (output) type to an input location."
  | .cannotAddAnInputTypeToAnOutputLocation => "Cannot add an input type to an output location."
  | .cannotAnnotateWithATypeThatRecursivelyReferencesTheDirective0 =>
    "Cannot annotate with a type that recursively references the directive '{0}'."
  | .cannotSelectFieldsOnAScalarField0 => "Cannot select fields on a scalar field '{0}'."
  | .directiveCannotReferenceItself => "Directive cannot reference itself."
  | .duplicateArgument0 => "Duplicate argument '{0}'."
  | .duplicateField0 => "Duplicate field '{0}'."
  | .duplicateFragment0 => "Duplicate fragment '{0}'."
  | .duplicateType0 => "Duplicate type '{0}'."
  | .expected0ButGot1 => "Expected '{0}', but got '{1}'."
  | .expected0ButInsteadReachedTheEndOfDocument =>
    "Expected '{0}', but instead reached the end of document."
  | .expectedAtLeastAFieldInlineFragmentOrFragmentSpread =>
    "Expected at least a field, inline fragment or fragment spread."
  | .expectedDirectiveLocationButInsteadReachedTheEndOfDocument =>
    "Expected directive location, but instead reached the end of document."
  | .expectedDirectiveLocation => "Expected directive location."
  | .expectedEnumValueButInsteadGot0 => "Expected enum value, but instead got '{0}'."
  | .expectedFieldDefinition => "Expected field definition."
  | .expectedFieldInlineFragmentOrFragmentSpread =>
    "Expected field, inline fragment or fragment spread."
  | .expectedFragmentSpreadOrInlineFragment => "Expected fragment spread or inline fragment."
  | .expectedNameOfArgument => "Expected name of argument."
  | .expectedNameOfInterface => "Expected name of interface."
  | .expectedNameOfObject => "Expected name of object"
  | .expectedNameButInsteadGot0 => "Expected name, but instead got '{0}'."
  | .expectedObjectFieldName => "Expected object field name."
  | .expectedOperationDefinitionOrFragmentDefinition =>
    "Expected operation definition or fragment definition."
  | .expectedTypeAnnotationInsteadGot0 => "Expected type annotation, instead got '{0}'."
  | .expectedTypeDefinition => "Expected type definition."
  | .expectedTypeNameInsteadGot0 => "Expected type name, instead got '{0}'."
  | .expectedValueInsteadGot0 => "Expected value, instead got '{0}'."
  | .field0DoesNotExistOnType1 => "Field '{0}' does not exist on type '{1}'."
  | .fragment0IsNotDefined => "Fragment '{0}' is not defined."
  | .interface0IsNotDefined => "Interface '{0}' is not defined."
  | .invalidUnicodeEscapeSequence => "Invalid Unicode escape sequence."
  | .missingRequiredArgument0 => "Missing required argument '{0}'."
  | .missingRequiredField0 => "Missing required field '{0}'."
  | .mutationsAreNotSupported => "Mutations are not supported."
  | .noQueryRootOperationTypeDefined => "No query root operation type defined."
  | .onlyObjectsAreAllowedAsMembersInAUnion => "Only objects are allowed as members in a union."
  | .subscriptionsAreNotSupported => "Subscriptions are not supported."
  | .theDirective0DoesNotSupportTheLocation1 =>
    "The directive '{0}' does not support the location '{1}'."
  | .theField0InInterface1IsNotImplemented =>
    "The field '{0}' in interface '{1}' is not implemented."
  | .theObject0DoesNotImplementTheInterface1 =>
    "The object '{0}' does not implement the interface '{1}'."
  | .theObject0DoesNotMatchTheObject1 => "The object '{0}' does not match the object '{1}'."
  | .theType0IsNotAnObject => "The type '{0}' is not an object."
  | .theType0IsNotMemberOfTheUnion1 => "The type '{0}' is not member of the union '{1}'."
  | .theValue0IsNotAssignableToType1 => "The value '{0}' is not assignable to type '{1}'."
  | .type0DoesNotMatchType1FromTheInterface2 =>
    "Type '{0}' does not match type '{1}' from the interface '{2}'."
  | .type0IsNotAssignableToType1 => "Type '{0}' is not assignable to type '{1}'."
  | .type0IsNotDefined => "Type '{0}' is not defined."
  | .typeConditionsAreOnlyApplicableInsideObjectInterfacesAndUnions =>
    "Type conditions are only applicable inside object, interfaces and unions."
  | .undefinedDirective0 => "Undefined directive '{0}'."
  | .undefinedEnumValue0 => "Undefined enum value '{0}'."
  | .unexpectedEndOfImplementations => "Unexpected end of implementations."
  | .unknownArgument0 => "Unknown argument '{0}'."
  | .unterminatedStringValue => "Unterminated string value."

/-- A report: the template, what fills its holes, and where. -/
structure DiagnosticMessage where
  template : D
  arguments : List Ustring
  location : Location
deriving DecidableEq, Repr

end Flashpoint
