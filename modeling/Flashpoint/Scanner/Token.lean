import Flashpoint.Diagnostics

/-!
# Tokens and directive locations

The two alphabets the scanner answers in, and the tables by which it recognises a keyword or a
directive location from the text of a name.
-/

namespace Flashpoint

/-- The tokens of the scanner, in the order of the source's enumeration: the keywords that may
stand as enum values lie between `startKeyword` and `endKeyword`. -/
inductive GraphQlToken where
  | unknown | gName | gDirective
  | whiteSpace | lineTerminator | comment | gDescription
  | ampersand | onKeyword | pipe
  | startKeyword
  | mutationKeyword | queryKeyword | subscriptionKeyword
  | directiveKeyword | enumKeyword | fragmentKeyword | inputKeyword | interfaceKeyword
  | schemaKeyword | typeKeyword | unionKeyword
  | idKeyword | intKeyword | floatKeyword | stringKeyword | booleanKeyword
  | nullKeyword | trueKeyword | falseKeyword
  | implementsKeyword
  | endKeyword
  | integerLiteral | floatLiteral | booleanLiteral | enumLiteral
  | gStringValue | invalidString | truncatedString
  | objectLiteral
  | atSign | colon | comma | closeBrace | closeParen | closeBracket | dollar | ellipses
  | exclamation | equal | hash | openBrace | openBracket | openParen
  | endOfDocument
deriving DecidableEq, Repr

/-- The place of a token in the enumeration. -/
def GraphQlToken.ordinal : GraphQlToken → Nat := GraphQlToken.ctorIdx

/-- How a token is shown in a message; the other tokens have no text. -/
def graphQlTokenToString : GraphQlToken → Option Ustring
  | .atSign => some ['@']
  | .colon => some [':']
  | .directiveKeyword => some "directive".toList
  | .equal => some ['=']
  | .ellipses => some ['.', '.', '.']
  | .openBracket => some ['[']
  | .closeBracket => some [']']
  | .openBrace => some ['\x7b']
  | .closeBrace => some ['\x7d']
  | .openParen => some ['(']
  | .closeParen => some [')']
  | .exclamation => some ['!']
  | .onKeyword => some ['o', 'n']
  | .pipe => some ['|']
  | .gName => some "name".toList
  | .gDirective => some "@directive".toList
  | .unknown => some "unknown".toList
  | .whiteSpace => some "whitespace".toList
  | _ => none

/-- Where a directive may be used, with the two answers of the scanner that are no place:
a name that is none, and the end of the document. -/
inductive DirectiveLocation where
  | unknown | endOfDocument
  | query | mutation | subscription | field | fragmentDefinition | fragmentSpread | inlineFragment
  | schema | scalar | object | fieldDefinition | argumentDefinition | interface | union | enum
  | enumValue | inputObject | inputFieldDefinition
deriving DecidableEq, Repr

/-- The text of a location; the two answers that are no place have none. -/
def directiveLocationToString : DirectiveLocation → Option Ustring
  | .unknown => none
  | .endOfDocument => none
  | .query => some "QUERY".toList
  | .mutation => some "MUTATION".toList
  | .subscription => some "SUBSCRIPTION".toList
  | .field => some "FIELD".toList
  | .fragmentDefinition => some "FRAGMENT_DEFINITION".toList
  | .fragmentSpread => some "FRAGMENT_SPREAD".toList
  | .inlineFragment => some "INLINE_FRAGMENT".toList
  | .schema => some "SCHEMA".toList
  | .scalar => some "SCALAR".toList
  | .object => some "OBJECT".toList
  | .fieldDefinition => some "FIELD_DEFINITION".toList
  | .argumentDefinition => some "ARGUMENT_DEFINITION".toList
  | .interface => some "INTERFACE".toList
  | .union => some "UNION".toList
  | .enum => some "ENUM".toList
  | .enumValue => some "ENUM_VALUE".toList
  | .inputObject => some "INPUT_OBJECT".toList
  | .inputFieldDefinition => some "INPUT_FIELD_DEFINITION".toList

/-- Whether the text from its `k`-th character on is `t` (`strcmp(value + k, t) == 0`). -/
def tailIs (value : Ustring) (k : Nat) (t : Ustring) : Bool := value.drop k = t

/-- The character at `k`; past the end it is the terminator. -/
def charAt (value : Ustring) (k : Nat) : Char := value.getD k '\x00'

/-- The keyword a name of `size` characters is, or `gName`. -/
def getTokenFromValue (size : Nat) (value : Ustring) : GraphQlToken :=
  match size with
  | 2 =>
    if charAt value 0 = 'I' then
      if tailIs value 1 ['D'] then .idKeyword else .gName
    else if charAt value 0 = 'o' then
      if tailIs value 1 ['n'] then .onKeyword else .gName
    else .gName
  | 3 => if tailIs value 0 ['I', 'n', 't'] then .intKeyword else .gName
  | 4 =>
    if charAt value 0 = 'e' then
      if tailIs value 1 ['n', 'u', 'm'] then .enumKeyword else .gName
    else if charAt value 0 = 't' then
      if charAt value 1 = 'r' then
        if tailIs value 2 ['u', 'e'] then .trueKeyword else .gName
      else if charAt value 1 = 'y' then
        if tailIs value 2 ['p', 'e'] then .typeKeyword else .gName
      else .gName
    else if charAt value 0 = 'n' then
      if tailIs value 1 ['u', 'l', 'l'] then .nullKeyword else .gName
    else .gName
  | 5 =>
    if charAt value 0 = 'q' then
      if tailIs value 1 ['u', 'e', 'r', 'y'] then .queryKeyword else .gName
    else if charAt value 0 = 'f' then
      if tailIs value 1 ['a', 'l', 's', 'e'] then .falseKeyword else .gName
    else if charAt value 0 = 'F' then
      if tailIs value 1 ['l', 'o', 'a', 't'] then .floatKeyword else .gName
    else if charAt value 0 = 'i' then
      if tailIs value 1 ['n', 'p', 'u', 't'] then .inputKeyword else .gName
    else if charAt value 0 = 'u' then
      if tailIs value 1 ['n', 'i', 'o', 'n'] then .unionKeyword else .gName
    else .gName
  | 6 =>
    if charAt value 0 = 'S' then
      if tailIs value 1 ['t', 'r', 'i', 'n', 'g'] then .stringKeyword else .gName
    else if charAt value 0 = 's' then
      if tailIs value 1 ['c', 'h', 'e', 'm', 'a'] then .schemaKeyword else .gName
    else .gName
  | 7 => if tailIs value 0 ['B', 'o', 'o', 'l', 'e', 'a', 'n'] then .booleanKeyword else .gName
  | 8 =>
    if charAt value 0 = 'm' then
      if tailIs value 1 ['u', 't', 'a', 't', 'i', 'o', 'n'] then .mutationKeyword else .gName
    else if charAt value 0 = 'f' then
      if tailIs value 1 ['r', 'a', 'g', 'm', 'e', 'n', 't'] then .fragmentKeyword else .gName
    else .gName
  | 9 =>
    if charAt value 0 = 'i' then
      if tailIs value 1 ['n', 't', 'e', 'r', 'f', 'a', 'c', 'e'] then .interfaceKeyword else .gName
    else if charAt value 0 = 'd' then
      if tailIs value 1 ['i', 'r', 'e', 'c', 't', 'i', 'v', 'e'] then .directiveKeyword else .gName
    else .gName
  | 10 =>
    if tailIs value 0 ['i', 'm', 'p', 'l', 'e', 'm', 'e', 'n', 't', 's'] then .implementsKeyword
    else .gName
  | 12 =>
    if tailIs value 0 ['s', 'u', 'b', 's', 'c', 'r', 'i', 'p', 't', 'i', 'o', 'n'] then
      .subscriptionKeyword
    else .gName
  | _ => .gName

/-- The directive location a name of `size` characters is, or `unknown`. -/
def getDirectiveFromValue (size : Nat) (value : Ustring) : DirectiveLocation :=
  match size with
  | 4 => if tailIs value 0 "ENUM".toList then .enum else .unknown
  | 5 =>
    if charAt value 0 = 'Q' then
      if tailIs value 1 "UERY".toList then .query else .unknown
    else if charAt value 0 = 'F' then
      if tailIs value 1 "IELD".toList then .field else .unknown
    else if charAt value 0 = 'U' then
      if tailIs value 1 "NION".toList then .union else .unknown
    else .unknown
  | 6 =>
    if charAt value 0 = 'S' then
      -- the second character is not compared
      if charAt value 2 = 'H' then
        if tailIs value 3 "EMA".toList then .schema else .unknown
      else if charAt value 2 = 'A' then
        if tailIs value 3 "LAR".toList then .scalar else .unknown
      else .unknown
    else if charAt value 0 = 'O' then
      if tailIs value 1 "BJECT".toList then .object else .unknown
    else .unknown
  | 8 => if tailIs value 0 "MUTATION".toList then .mutation else .unknown
  | 9 => if tailIs value 0 "INTERFACE".toList then .interface else .unknown
  | 10 => if tailIs value 0 "ENUM_VALUE".toList then .enumValue else .unknown
  | 12 =>
    if charAt value 0 = 'I' then
      if tailIs value 1 "NPUT_OBJECT".toList then .inputObject else .unknown
    else if charAt value 0 = 'S' then
      if tailIs value 1 "UBSCRIPTION".toList then .subscription else .unknown
    else .unknown
  | 15 =>
    if charAt value 0 = 'F' then
      if tailIs value 1 "RAGMENT_SPREAD".toList then .fragmentSpread else .unknown
    else if charAt value 0 = 'I' then
      if tailIs value 1 "NLINE_FRAGMENT".toList then .inlineFragment else .unknown
    else .unknown
  | 16 => if tailIs value 0 "FIELD_DEFINITION".toList then .fieldDefinition else .unknown
  | 19 =>
    if charAt value 0 = 'A' then
      if tailIs value 1 "RGUMENT_DEFINITION".toList then .argumentDefinition else .unknown
    else if charAt value 0 = 'F' then
      if tailIs value 1 "RAGMENT_DEFINITION".toList then .fragmentDefinition else .unknown
    else .unknown
  | 22 => if tailIs value 0 "INPUT_FIELD_DEFINITION".toList then .inputFieldDefinition else .unknown
  | _ => .unknown

end Flashpoint
