import Flashpoint.Schema.Check

/-!
# Validating a query

The members of `GraphQlExecutor` and `Execute`, which parses a query and checks it against the
schema as it goes. The loops run on a bound, as those of the schema do.
-/

namespace Flashpoint

open Library

/-- The members of `GraphQlExecutor`. The top of a stack is the head of its list. -/
structure ExecutorMembers where
  query : Option DeclarationId := none
  mutation : Option DeclarationId := none
  subscription : Option DeclarationId := none
  symbols : UstringMap Symbol := ∅
  directiveDefinitions : UstringMap DirectiveDefinition := ∅
  currentObjectTypes : List (Option DeclarationId) := []
  forwardFragmentReferences : List (Name × Option DeclarationId) := []
  fragments : UstringMap FragmentDefinition := ∅
  duplicateFragments : UstringSet := ∅
  duplicateFields : UstringSet := ∅

abbrev GraphQlExecutor := GraphQlParser ExecutorMembers

abbrev ExecutorM := ParserM ExecutorMembers

namespace GraphQlExecutor

open ParserM Library.Climb

def skipToNextPrimaryToken : ExecutorM Unit := do
  let _ ← skipTo [.queryKeyword, .mutationKeyword, .subscriptionKeyword, .fragmentKeyword]

/-- The symbol under a name; the source does not check that there is one. -/
def findSymbol (name : Ustring) : ExecutorM Symbol := deref fun s => s.members.symbols.find? name

/-- The top of the stack of object types. -/
def topObjectType : ExecutorM (Option DeclarationId) := do
  let height ← read fun s => s.members.currentObjectTypes.length
  recordStep (.readStack height)
  deref fun s => s.members.currentObjectTypes.head?

def pushObjectType (id : Option DeclarationId) : ExecutorM Unit :=
  modifyMembers fun m => { m with currentObjectTypes := id :: m.currentObjectTypes }

def popObjectType : ExecutorM Unit := do
  let _ ← topObjectType
  modifyMembers fun m => { m with currentObjectTypes := m.currentObjectTypes.tail }

/-- Record the token at which a value is expected. -/
def recordValueAhead : ExecutorM Unit := do
  let token ← read fun s => (s.scanner.takeNextToken false true).1
  recordStep (.valueAhead token)

/-- Record the arguments that are declared and those that are supplied. -/
def recordArguments (definitions : UstringMap InputValueDefinition)
    (supplied : Option (UstringMap Argument)) (target : Span) : ExecutorM Unit :=
  recordStep (.useArguments (definitions.entries.map fun d => (d.2.name.identifier, d.2.type))
    (supplied.map fun arguments => arguments.entries.map Prod.fst) target)

/-! ## Values -/

/-- Report that a literal of a scalar type does not fit the type. -/
def reportMismatch (literalType : Ustring) (type : TypeNode) : ExecutorM Unit := do
  let typeName ← getTypeName type
  addDiagnostic .type0IsNotAssignableToType1 [literalType, typeName]

def reportValueMismatch (value : Ustring) (type : TypeNode) : ExecutorM Unit := do
  let typeName ← getTypeName type
  addDiagnostic .theValue0IsNotAssignableToType1 [value, typeName]

def parseBooleanValue (type : TypeNode) (value : Bool) : ExecutorM (Option Value) := do
  when (type.type ≠ .boolean ∨ type.isListType) (reportMismatch "Boolean".toList type)
  let span ← createSpan
  return some (.boolean span value)

/-- A name read for a type: it is looked up in the enumeration the type names, whatever that is. -/
def parseEnumValue (type : TypeNode) : ExecutorM (Option Value) := do
  let value ← getTokenValue
  when (type.type ≠ .enum ∨ type.isListType) (reportValueMismatch value type)
  let name ← follow type.name
  let symbol ← findSymbol name.identifier
  match ← declaration symbol.declaration with
  | .enum enumTypeDefinition =>
    when (enumTypeDefinition.values.find? value = none) do
      addDiagnostic .undefinedEnumValue0 [value]
    let span ← createSpan
    return some (.enum span value)
  | _ => deref fun _ => none

/-- An object literal where the type takes none: it is passed over and reported whole. -/
def skipObjectValue (type : TypeNode) : ExecutorM (Option Value) := do
  let startPosition ← read fun s => s.scanner.startPosition
  let location ← getTokenLocation
  skipBlock
  let scanner ← read fun s => s.scanner
  let typeName ← getTypeName type
  addDiagnosticAt
    { location with length := location.length + (scanner.position - startPosition - 1) }
    .theValue0IsNotAssignableToType1
    [scanner.getTextFromLocation startPosition scanner.position, typeName]
  return none

def addDuplicateField (name : Ustring) : ExecutorM Unit := do
  modifyMembers fun m => { m with duplicateFields := m.duplicateFields.emplace name () }
  recordStep (.repeatField name)

/-- The fields of a literal that were given twice. The set is a member of the parser: it keeps the
names of earlier literals. -/
def reportDuplicateFields (fields : List ObjectField) : ExecutorM Unit := do
  recordStep (.objectValue (fields.map fun field => (field.name.identifier, field.name.span)))
  let duplicates ← read fun s => s.members.duplicateFields
  duplicates.entries.forM fun duplicate =>
    fields.forM fun field => do
      when (field.name.identifier = duplicate.1) do
        let location ← getLocationFromSyntax field.name.span
        addDiagnosticAt location .duplicateField0 [duplicate.1]

def reportMissingFields (requiredFields : List Ustring) (span : Span)
    (fields : List ObjectField) : ExecutorM Unit :=
  requiredFields.forM fun required => do
    when (required ∉ fields.map (·.name.identifier)) do
      let location ← getLocationFromSyntax span
      addDiagnosticAt location .missingRequiredField0 [required]

/-- At the end of a list: the value that ended it was to be a closing bracket. -/
def expectCloseBracket : ExecutorM Unit := do
  let current ← read fun s => s.currentValueToken
  when (current ≠ .closeBracket) do
    let value ← getTokenValue
    addDiagnostic .expected0ButGot1 [[']'], value]

/-- A list literal. Its elements are checked against the type node itself, which is no list type
meanwhile and is left a list type. -/
def parseListLiteral (id : TypeId) (type : TypeNode) (elements : ExecutorM (List Value)) :
    ExecutorM (Option Value) := do
  when (type.isListType = false) (reportValueMismatch "null".toList type)
  let span ← createSpan
  modifyType id fun t => { t with isListType := false }
  let values ← elements
  expectCloseBracket
  modifyType id fun t => { t with isListType := true }
  let span ← finishSpan span
  return some (.list span .objectValue values)

/-- An object literal where the type is an object type; `fields` reads those of an input object. -/
def parseObjectLiteral (type : TypeNode)
    (fields : InputObject → Ustring → ExecutorM (Option (List ObjectField))) :
    ExecutorM (Option Value) := do
  let span ← createSpan
  let name ← follow type.name
  let symbol ← findSymbol name.identifier
  if symbol.kind ≠ .inputObject then
    addDiagnostic .theType0IsNotAnObject [name.identifier]
    return none
  else
    match ← declaration symbol.declaration with
    | .inputObject inputObject =>
      match ← fields inputObject name.identifier with
      | none => return none
      | some fields =>
        let span ← finishSpan span
        reportDuplicateFields fields
        reportMissingFields inputObject.requiredFields span fields
        return some (.object span fields)
    | _ => deref fun _ => none

/-- The literals of one token, and the tokens that start none. -/
def parseScalarValue (type : TypeNode) (token : GraphQlToken) : ExecutorM (Option Value) := do
  match token with
  | .nullKeyword =>
    when (type.isNonNull ∨ type.isNonNullList) (reportValueMismatch "null".toList type)
    let span ← createSpan
    return some (.null span)
  | .gStringValue =>
    when (type.type.isStringType = false ∨ type.isListType) (reportMismatch "String".toList type)
    let span ← createSpan
    let value ← getTokenValue
    return some (.string span value)
  | .integerLiteral =>
    when (type.type.isIntegerType = false ∨ type.isListType) (reportMismatch "Int".toList type)
    let span ← createSpan
    let value ← getTokenValue
    return some (.int span (GraphQlSchema.atoi value))
  | .floatLiteral =>
    when (type.type ≠ .float ∨ type.isListType) (reportMismatch "Float".toList type)
    let span ← createSpan
    let value ← getTokenValue
    return some (.float span value)
  | .trueKeyword => parseBooleanValue type true
  | .falseKeyword => parseBooleanValue type false
  | .gName => parseEnumValue type
  | _ =>
    let value ← getTokenValue
    addDiagnostic .expectedValueInsteadGot0 [value]
    let _ ← skipTo [.gName, .closeParen]
    return none

/-- The switch of `parse_value`; `elements` and `fields` read the parts of a literal. -/
def parseValueAfterToken (id : TypeId) (type : TypeNode) (token : GraphQlToken)
    (elements : ExecutorM (List Value))
    (fields : InputObject → Ustring → ExecutorM (Option (List ObjectField))) :
    ExecutorM (Option Value) := do
  match token with
  | .openBracket => parseListLiteral id type elements
  | .closeBracket => return none
  | .openBrace =>
    if type.type ≠ .object ∨ type.isListType then skipObjectValue type
    else parseObjectLiteral type fields
  | _ => parseScalarValue type token

mutual

/-- `parse_value`: a literal, checked against a type as it is read. -/
def parseValue : Nat → TypeId → ExecutorM (Option Value)
  | 0, _ => outOfFuel
  | fuel + 1, id => do
    let token ← takeToken
    update fun s => { s with currentValueToken := token }
    let type ← typeNode id
    recordStep (.value token id type)
    parseValueAfterToken id type token (parseListValues fuel id) fun inputObject name =>
      parseObjectFields fuel inputObject name []

/-- The elements of a list, up to the first call that gives no value. -/
def parseListValues : Nat → TypeId → ExecutorM (List Value)
  | 0, _ => outOfFuel
  | fuel + 1, id => do
    match ← parseValue fuel id with
    | none => return []
    | some value =>
      let values ← parseListValues fuel id
      return value :: values

/-- The fields of an object literal, with the names read so far; none when a colon is missing. A
keyword is no field name here. -/
def parseObjectFields :
    Nat → InputObject → Ustring → List Ustring → ExecutorM (Option (List ObjectField))
  | 0, _, _, _ => outOfFuel
  | fuel + 1, inputObject, typeName, parsedFields => do
    let token ← takeToken
    if token = .closeBrace ∨ token = .endOfDocument then return some []
    else if token ≠ .gName then
      addDiagnostic .expectedObjectFieldName []
      let t ← skipTo [.closeBrace, .gName]
      if t = .gName then parseObjectFields fuel inputObject typeName parsedFields
      else return some []
    else
      let value ← getTokenValue
      let fields ← follow inputObject.fields
      match fields.find? value with
      | none =>
        addDiagnostic .field0DoesNotExistOnType1 [value, typeName]
        let _ ← skipTo [.gName, .closeBrace]
        parseObjectFields fuel inputObject typeName parsedFields
      | some definition =>
        when (value ∈ parsedFields) (addDuplicateField value)
        let span ← createSpan
        let name ← createName value
        if ← scanExpected .colon false then
          recordValueAhead
          let fieldValue ← parseValue fuel definition.type
          let rest ← parseObjectFields fuel inputObject typeName (parsedFields ++ [value])
          return rest.map (.mk span name fieldValue :: ·)
        else return none

end

/-! ## Arguments and directives -/

/-- Report the required arguments that are not supplied. -/
def reportMissingArguments (definitions : UstringMap InputValueDefinition)
    (arguments : UstringMap Argument) (target : Span) : ExecutorM Unit :=
  definitions.entries.forM fun definition => do
    let typeId ← follow definition.2.type
    let type ← typeNode typeId
    when ((type.isNonNull ∧ type.isListType = false) ∨ type.isNonNullList) do
      when (arguments.find? definition.2.name.identifier = none) do
        let location ← getLocationFromSyntax target
        addDiagnosticAt location .missingRequiredArgument0 [definition.2.name.identifier]

/-- The end of `parse_arguments`: the target is finished, and the missing arguments reported. -/
def finishArguments (definitions : UstringMap InputValueDefinition)
    (arguments : UstringMap Argument) (target : Span) : ExecutorM Span := do
  let target ← finishSpan target
  recordArguments definitions (some arguments) target
  reportMissingArguments definitions arguments target
  return target

/-- Enter a directive among those of its place. -/
def addDirective (directive : Directive) (directives : UstringMap Directive) :
    ExecutorM (UstringMap Directive) := do
  update fun s => { s with directives := s.directives ++ [directive] }
  match directives.find? directive.name.identifier with
  | none => return directives.emplace directive.name.identifier directive
  | some _ =>
    recordStep (.repeatDirective directive.name.identifier)
    addDiagnostic .duplicateArgument0 [directive.name.identifier]
    return directives

/-- The value of an argument; that of an unknown argument is passed over. -/
def parseArgumentValue (fuel : Nat) (definition : Option InputValueDefinition) :
    ExecutorM (Option Value) := do
  match definition with
  | some definition =>
    let typeId ← follow definition.type
    recordValueAhead
    parseValue fuel typeId
  | none =>
    let _ ← skipTo [.gName, .closeParen]
    return none

/-- Report a directive that its definition does not allow at the location. -/
def checkDirectiveLocation (definition : DirectiveDefinition) (location : DirectiveLocation)
    (span : Span) (name : Ustring) : ExecutorM Unit := do
  when (location ∉ definition.locations) do
    let l ← getLocationFromSyntax span
    let text ← Climb.require .exception fun _ => directiveLocationToString location
    addDiagnosticAt l .theDirective0DoesNotSupportTheLocation1 ['@' :: name, text]

/-- An argument after its name; none when the colon is missing. -/
def parseArgument (fuel : Nat) (definitions : UstringMap InputValueDefinition)
    (directives : ExecutorM (UstringMap Directive)) : ExecutorM (Option Argument) := do
  let value ← getTokenValue
  let name ← createName value
  let span ← createSpan
  when ((definitions.find? value).isNone) (addDiagnostic .unknownArgument0 [value])
  if ← scanExpected .colon false then
    let argumentValue ← parseArgumentValue fuel (definitions.find? value)
    let directives ← directives
    return some (.mk span name argumentValue directives.entries)
  else
    let _ ← skipTo [.closeBrace]
    return none

/-- The arguments of a directive and its name as they leave it; `arguments` reads the list. -/
def parseDirectiveArguments (definition : DirectiveDefinition) (name : Name)
    (arguments : UstringMap InputValueDefinition → ExecutorM (Option (UstringMap Argument))) :
    ExecutorM (Option (UstringMap Argument × Name)) := do
  if ← scanOptional .openParen false then
    match ← arguments definition.arguments with
    | none => return none
    | some supplied =>
      let span ← finishArguments definition.arguments supplied name.span
      return some (supplied, { name with span })
  else
    recordArguments definition.arguments none name.span
    return some (∅, name)

/-- A directive after the at sign; none where the loop over the directives ends. -/
def parseDirective (location : DirectiveLocation)
    (arguments : UstringMap InputValueDefinition → ExecutorM (Option (UstringMap Argument))) :
    ExecutorM (Option Directive) := do
  let token ← takeNextToken true false
  if token ≠ .gName then
    let value ← getTokenValue
    addDiagnostic .expectedNameButInsteadGot0 [value]
    skipToNextPrimaryToken
    return none
  else
    let tokenSpan ← createSpan
    let span := { tokenSpan with start := tokenSpan.start - 1 }
    let value ← getTokenValue
    let definitions ← read fun s => s.members.directiveDefinitions
    match definitions.find? value with
    | none =>
      let l ← getLocationFromSyntax span
      addDiagnosticAt l .undefinedDirective0 [value]
      let _ ← skipTo [.closeParen]
      return none
    | some definition =>
      let name ← createName value
      checkDirectiveLocation definition location span value
      match ← parseDirectiveArguments definition name arguments with
      | none => return none
      | some (supplied, name) => return some (.mk span name location none supplied.entries)

mutual

/-- The loop of `parse_arguments`: it ends at whatever is no name, and gives none when a colon is
missing. -/
def parseArgumentsLoop : Nat → UstringMap InputValueDefinition → UstringMap Argument →
    ExecutorM (Option (UstringMap Argument))
  | 0, _, _ => outOfFuel
  | fuel + 1, definitions, arguments => do
    let token ← takeNextToken true true
    if token ≠ .gName then
      recordStep (.argumentsEnd token)
      return some arguments
    else
      match ← parseArgument fuel definitions (parseDirectives fuel .argumentDefinition ∅) with
      | none => return none
      | some argument =>
        parseArgumentsLoop fuel definitions (arguments.emplace argument.name.identifier argument)

/-- `parse_directives`, with the directives read so far. -/
def parseDirectives : Nat → DirectiveLocation → UstringMap Directive →
    ExecutorM (UstringMap Directive)
  | 0, _, _ => outOfFuel
  | fuel + 1, location, directives => do
    if ← scanOptional .atSign false then
      match ← parseDirective location fun definitions => parseArgumentsLoop fuel definitions ∅ with
      | none => return directives
      | some directive =>
        let directives ← addDirective directive directives
        parseDirectives fuel location directives
    else return directives

end

/-- `parse_arguments`, with the target as it leaves it. -/
def parseArguments (fuel : Nat) (definitions : UstringMap InputValueDefinition) (target : Span) :
    ExecutorM (Option (UstringMap Argument) × Span) := do
  match ← parseArgumentsLoop fuel definitions ∅ with
  | none => return (none, target)
  | some arguments =>
    let target ← finishArguments definitions arguments target
    return (some arguments, target)

/-! ## Fragments -/

/-- `check_fragment_assignment`: an object used inside a declaration. -/
def checkFragmentAssignment (name : Name) (object parent : Declaration) : ExecutorM Unit := do
  recordStep (.assignFragment object.kind parent.kind)
  let objectName ← follow object.name
  let parentName ← follow parent.name
  match parent with
  | .interface _ =>
    match object with
    | .object o =>
      when ((o.implementations.bind fun is => is.find? parentName.identifier).isNone) do
        let location ← getLocationFromSyntax name.span
        addDiagnosticAt location .theObject0DoesNotImplementTheInterface1
          [objectName.identifier, parentName.identifier]
    | _ => deref fun _ => none
  | .object _ =>
    when (parentName.identifier ≠ objectName.identifier) do
      let location ← getLocationFromSyntax name.span
      addDiagnosticAt location .theObject0DoesNotMatchTheObject1
        [objectName.identifier, parentName.identifier]
  | .union u =>
    when ((u.members.find? objectName.identifier).isNone) do
      let location ← getLocationFromSyntax name.span
      addDiagnosticAt location .theType0IsNotMemberOfTheUnion1
        [objectName.identifier, parentName.identifier]
  | _ =>
    let location ← getLocationFromSyntax name.span
    addDiagnosticAt location .typeConditionsAreOnlyApplicableInsideObjectInterfacesAndUnions []

/-! ## Selections -/

def parseExpectedName : ExecutorM (Option Name) := do
  if ← scanExpected .gName false then
    let value ← getTokenValue
    let name ← createName value
    return some name
  else return none

/-- The declaration on top of the stack. -/
def currentObjectType : ExecutorM Declaration := do
  let top ← topObjectType
  let id ← follow top
  declaration id

/-- The fields of the declaration on top of the stack, read as those of an `ObjectLike`. -/
def currentFields (current : Declaration) : ExecutorM (UstringMap FieldDefinition) := do
  recordStep (.selectField current.kind)
  follow current.objectFields?

/-- The alias and the name of a field whose first name was read. -/
def parseFieldName (name : Name) : ExecutorM (Option Name × Option Name) := do
  if ← scanOptional .colon false then
    let fieldName ← parseExpectedName
    return (some name, fieldName)
  else return (none, some name)

/-- The arguments of a field, if it has a list of them. -/
def parseFieldArguments (fuel : Nat) (definition : FieldDefinition) (span : Span) :
    ExecutorM (Option (UstringMap Argument) × Span) := do
  if ← scanOptional .openParen false then parseArguments fuel definition.arguments span
  else
    recordArguments definition.arguments none span
    return (none, span)

/-- How a turn of the loop over the selections ends: with a selection, with nothing to add, or with
the loop and no selection set. -/
inductive SelectionTurn where
  | add (selection : Selection)
  | skip
  | fail

/-- After `... on`. The `selectionSet` of the fragment is read against its object. -/
def parseInlineFragment (fuel : Nat) (startPosition : Nat)
    (selectionSet : ExecutorM (Option SelectionSet)) : ExecutorM SelectionTurn := do
  if ← scanExpected .gName false then
    let value ← getTokenValue
    let name ← createName value
    let symbols ← read fun s => s.members.symbols
    match symbols.find? value with
    | none =>
      addDiagnostic .type0IsNotDefined [value]
      skipBlock
      return .skip
    | some symbol =>
      let tokenSpan ← createSpan
      match ← declaration symbol.declaration with
      | .object object =>
        let current ← currentObjectType
        checkFragmentAssignment name (.object object) current
        pushObjectType (some symbol.declaration)
        let directives ← parseDirectives fuel .inlineFragment ∅
        let selectionSet ← selectionSet
        let span ← finishSpan { tokenSpan with start := startPosition }
        return .add (.inlineFragment span directives selectionSet)
      | _ =>
        addDiagnostic .theType0IsNotAnObject [value]
        skipBlock
        return .skip
  else
    addDiagnostic .expectedNameOfObject []
    skipBlock
    return .fail

/-- After `...` and a name: the fragment is looked up when the document was read. -/
def parseFragmentSpread (fuel : Nat) : ExecutorM SelectionTurn := do
  let span ← createSpan
  let value ← getTokenValue
  let name ← createName value
  let top ← topObjectType
  modifyMembers fun m =>
    { m with forwardFragmentReferences := m.forwardFragmentReferences ++ [(name, top)] }
  let directives ← parseDirectives fuel .fragmentSpread ∅
  return .add (.fragmentSpread span name directives)

/-- After `...`. -/
def parseFragment (fuel : Nat) (startPosition : Nat)
    (selectionSet : ExecutorM (Option SelectionSet)) : ExecutorM SelectionTurn := do
  let targetToken ← takeToken
  if targetToken = .onKeyword then parseInlineFragment fuel startPosition selectionSet
  else if targetToken = .gName then parseFragmentSpread fuel
  else
    addDiagnostic .expectedFragmentSpreadOrInlineFragment []
    skipBlock
    return .skip

/-- The selections of a field, which its type must allow; `selectionSet` reads them. -/
def parseFieldSelections (definition : FieldDefinition)
    (selectionSet : ExecutorM (Option SelectionSet))
    (field : Option SelectionSet → Selection) : ExecutorM SelectionTurn := do
  let type ← typeNode definition.type
  if type.type.isObjectType then
    let typeName ← follow type.name
    let symbol ← findSymbol typeName.identifier
    pushObjectType (some symbol.declaration)
    let selectionSet ← selectionSet
    return .add (field selectionSet)
  else
    let typeName ← getTypeName type
    addDiagnostic .cannotSelectFieldsOnAScalarField0 [typeName]
    skipToNextPrimaryToken
    return .fail

/-- Record a field that has an alias. -/
def recordAlias (fieldAlias name : Option Name) (nested : Bool) : ExecutorM Unit := do
  match fieldAlias, name with
  | some fieldAlias, some name =>
    let parent ← read fun s => s.members.currentObjectTypes.head?.join
    recordStep (.selectAlias parent fieldAlias.identifier name.identifier nested)
  | _, _ => return

/-- A field whose first name was found in the declaration on top of the stack. -/
def parseFieldOf (fuel : Nat) (definition : FieldDefinition) (value : Ustring)
    (selectionSet : ExecutorM (Option SelectionSet)) : ExecutorM SelectionTurn := do
  let span ← createSpan
  let name ← createName value
  let (fieldAlias, fieldName) ← parseFieldName name
  let (arguments, span) ← parseFieldArguments fuel definition span
  let directives ← parseDirectives fuel .field ∅
  let nested ← scanOptional .openBrace false
  recordAlias fieldAlias fieldName nested
  if nested then
    parseFieldSelections definition selectionSet
      (.field span fieldAlias fieldName arguments directives)
  else return .add (.field span fieldAlias fieldName arguments directives none)

/-- A field after its first name, which is looked up before it is known to be an alias. -/
def parseField (fuel : Nat) (selectionSet : ExecutorM (Option SelectionSet)) :
    ExecutorM SelectionTurn := do
  let value ← getTokenValue
  let current ← currentObjectType
  let fields ← currentFields current
  match fields.find? value with
  | none =>
    let currentName ← follow current.name
    addDiagnostic .field0DoesNotExistOnType1 [value, currentName.identifier]
    let _ ← skipTo [.gName, .closeBrace, .ellipses]
    return .skip
  | some definition => parseFieldOf fuel definition value selectionSet

/-- The end of the document inside a selection set. -/
def reportEndOfSelections (selections : List Selection) : ExecutorM Unit := do
  if selections.isEmpty then
    addDiagnostic .expectedAtLeastAFieldInlineFragmentOrFragmentSpread []
  else addDiagnostic .expected0ButInsteadReachedTheEndOfDocument [['\x7d']]

mutual

/-- The loop of `parse_selection_set_after_open_brace`. -/
def parseSelections : Nat → Span → List Selection → ExecutorM (Option SelectionSet)
  | 0, _, _ => outOfFuel
  | fuel + 1, setSpan, selections => do
    let startPosition ← read fun s => s.scanner.position
    let token ← takeNextToken true true
    match token with
    | .ellipses =>
      match ← parseFragment fuel startPosition (parseSelectionSet fuel) with
      | .add selection => parseSelections fuel setSpan (selections ++ [selection])
      | .skip => parseSelections fuel setSpan selections
      | .fail => return none
    | .gName =>
      match ← parseField fuel (parseSelectionSetAfterOpenBrace fuel) with
      | .add selection => parseSelections fuel setSpan (selections ++ [selection])
      | .skip => parseSelections fuel setSpan selections
      | .fail => return none
    | .closeBrace =>
      popObjectType
      let span ← finishSpan setSpan
      return some (.mk span selections)
    | .endOfDocument =>
      reportEndOfSelections selections
      return none
    | _ =>
      addDiagnostic .expectedFieldInlineFragmentOrFragmentSpread []
      let span ← finishSpan setSpan
      return some (.mk span selections)

def parseSelectionSet : Nat → ExecutorM (Option SelectionSet)
  | 0 => outOfFuel
  | fuel + 1 => do
    if ← scanExpected .openBrace false then parseSelectionSetAfterOpenBrace fuel
    else return none

def parseSelectionSetAfterOpenBrace : Nat → ExecutorM (Option SelectionSet)
  | 0 => outOfFuel
  | fuel + 1 => do
    let span ← createSpan
    parseSelections fuel span []

end

/-! ## Operations -/

/-- The tag of a variable type: what is no scalar keyword is an object type. -/
def typeOfToken : GraphQlToken → TypeEnum
  | .booleanKeyword => .boolean
  | .intKeyword => .int
  | .floatKeyword => .float
  | .stringKeyword => .string
  | .idKeyword => .id
  | _ => .object

/-- The end of a list type, and whether the list is non-null. -/
def parseListTypeEnd (isListType : Bool) : ExecutorM Bool := do
  if isListType then
    let _ ← scanExpected .closeBracket false
    scanOptional .exclamation false
  else return false

/-- `parse_type`, the type of a variable. Its name is not kept. -/
def parseType : ExecutorM TypeId := do
  let isListType ← scanOptional .openBracket false
  let token ← takeToken
  recordStep (.variableType token)
  let isNonNull ← scanOptional .exclamation false
  let isNonNullList ← parseListTypeEnd isListType
  let span ← createSpan
  createType { span, type := typeOfToken token, isNonNull, isListType, isNonNullList }

/-- The default value of a variable, if it has one. -/
def parseDefaultValue (fuel : Nat) (type : TypeId) : ExecutorM (Option Value) := do
  if ← scanOptional .equal false then
    recordValueAhead
    parseValue fuel type
  else return none

/-- The loop of `parse_variable_definitions`: a definition is kept when a comma token follows. -/
def parseVariableDefinitionsLoop :
    Nat → List VariableDefinition → ExecutorM (List VariableDefinition)
  | 0, _ => outOfFuel
  | fuel + 1, variableDefinitions => do
    let span ← createSpan
    let token ← takeToken
    if token ≠ .gName then
      recordStep (.variablesEnd token)
      return variableDefinitions
    else
      let value ← getTokenValue
      let name ← createName value
      let _ ← scanExpected .colon false
      let type ← parseType
      let defaultValue ← parseDefaultValue fuel type
      if ← scanOptional .comma false then
        parseVariableDefinitionsLoop fuel
          (variableDefinitions ++ [{ span, name, type, defaultValue }])
      else return variableDefinitions

def parseVariableDefinitions (fuel : Nat) : ExecutorM VariableDefinitions := do
  let span ← createSpan
  let variableDefinitions ← parseVariableDefinitionsLoop fuel []
  let span ← finishSpan span
  return { span, variableDefinitions }

/-- A definition of an executable document. -/
inductive PrimaryDefinition where
  | operation (d : OperationDefinition)
  | fragment (d : FragmentDefinition)

def operationLocation : OperationType → DirectiveLocation
  | .query => .query
  | .mutation => .mutation
  | .subscription => .subscription

/-- The variables of a named operation. -/
def parseOperationVariables (fuel : Nat) : ExecutorM (Option VariableDefinitions) := do
  if ← scanOptional .openParen false then
    let variableDefinitions ← parseVariableDefinitions fuel
    let _ ← scanExpected .closeParen false
    return some variableDefinitions
  else return none

/-- The name of an operation and, after a name, its variables. -/
def parseOperationHead (fuel : Nat) : ExecutorM (Option Name × Option VariableDefinitions) := do
  if ← scanOptional .gName true then
    let value ← getTokenValue
    let name ← createName value
    let variableDefinitions ← parseOperationVariables fuel
    return (some name, variableDefinitions)
  else return (none, none)

def parseOperationDefinition (fuel : Nat) (operationType : OperationType) :
    ExecutorM (Option PrimaryDefinition) := do
  let span ← createSpan
  let (name, variableDefinitions) ← parseOperationHead fuel
  let directives ← parseDirectives fuel (operationLocation operationType) ∅
  match ← parseSelectionSet fuel with
  | none => return none
  | some selectionSet =>
    return some (.operation
      { span, operationType, name, variableDefinitions, directives, selectionSet })

/-- Report a fragment name that was defined before, at this definition and at the first. -/
def reportDuplicateFragment (name : Name) (fragment : FragmentDefinition) : ExecutorM Unit := do
  recordStep (.defineFragment name.identifier name.span)
  let fragments ← read fun s => s.members.fragments
  match fragments.find? name.identifier with
  | some first =>
    addDiagnostic .duplicateFragment0 [name.identifier]
    let duplicateFragments ← read fun s => s.members.duplicateFragments
    when ((duplicateFragments.find? name.identifier).isNone) do
      let location ← getLocationFromSyntax first.name.span
      addDiagnosticAt location .duplicateFragment0 [first.name.identifier]
  | none =>
    modifyMembers fun m => { m with fragments := m.fragments.emplace name.identifier fragment }

/-- Report a fragment on what is no object. -/
def checkFragmentType (typeName : Name) (d : Declaration) : ExecutorM Unit := do
  match d with
  | .object _ => return
  | _ => addDiagnostic .theType0IsNotAnObject [typeName.identifier]

/-- After the type condition of a fragment definition. A type that is no object is reported, and
the selections are read against it all the same. -/
def parseFragmentBody (fuel : Nat) (span : Span) (name : Name) (typeName : Name) (symbol : Symbol) :
    ExecutorM (Option PrimaryDefinition) := do
  let d ← declaration symbol.declaration
  checkFragmentType typeName d
  pushObjectType (some symbol.declaration)
  let directives ← parseDirectives fuel .fragmentDefinition ∅
  match ← parseSelectionSet fuel with
  | none =>
    skipBlock
    return none
  | some selectionSet =>
    return some (.fragment { span, name, type := typeName, directives, selectionSet })

def parseFragmentDefinitionAfterFragmentKeyword (fuel : Nat) :
    ExecutorM (Option PrimaryDefinition) := do
  let span ← createSpan
  if ← scanExpected .gName false then
    let value ← getTokenValue
    let name ← createName value
    reportDuplicateFragment name { span, name }
    if ← scanExpected .onKeyword false then
      if ← scanExpected .gName false then
        let typeValue ← getTokenValue
        let symbols ← read fun s => s.members.symbols
        match symbols.find? typeValue with
        | none =>
          addDiagnostic .type0IsNotDefined [typeValue]
          return none
        | some symbol =>
          let typeName ← createName typeValue
          parseFragmentBody fuel span name typeName symbol
      else return none
    else return none
  else return none

def parsePrimaryToken (fuel : Nat) (token : GraphQlToken) :
    ExecutorM (Option PrimaryDefinition) := do
  match token with
  | .queryKeyword => do
    let query ← read fun s => s.members.query
    pushObjectType query
    parseOperationDefinition fuel .query
  | .mutationKeyword => do
    let mutation ← read fun s => s.members.mutation
    if mutation.isNone then
      addDiagnostic .mutationsAreNotSupported []
      skipToNextPrimaryToken
      return none
    else
      pushObjectType mutation
      parseOperationDefinition fuel .mutation
  | .subscriptionKeyword => do
    let subscription ← read fun s => s.members.subscription
    if subscription.isNone then
      addDiagnostic .subscriptionsAreNotSupported []
      skipToNextPrimaryToken
      return none
    else
      pushObjectType subscription
      parseOperationDefinition fuel .subscription
  | .openBrace => do
    let query ← read fun s => s.members.query
    pushObjectType query
    let span ← createSpan
    match ← parseSelectionSetAfterOpenBrace fuel with
    | none => return none
    | some selectionSet =>
      return some (.operation { span, operationType := .query, selectionSet })
  | .fragmentKeyword => parseFragmentDefinitionAfterFragmentKeyword fuel
  | _ => do
    addDiagnostic .expectedOperationDefinitionOrFragmentDefinition []
    return none

/-! ## The document -/

/-- Enter a definition into the document. -/
def addDefinition (document : ExecutableDefinition) : PrimaryDefinition → ExecutableDefinition
  | .operation d => { document with operationDefinitions := document.operationDefinitions ++ [d] }
  | .fragment d => { document with fragmentDefinitions := document.fragmentDefinitions ++ [d] }

/-- The loop of `Execute`, from the token just taken on. -/
def parseDefinitions : Nat → GraphQlToken → ExecutableDefinition → ExecutorM ExecutableDefinition
  | 0, _, _ => outOfFuel
  | fuel + 1, token, document => do
    if token = .endOfDocument then return document
    else
      let definition? ← parsePrimaryToken fuel token
      let token ← takeToken
      match definition? with
      | none => parseDefinitions fuel token document
      | some definition => parseDefinitions fuel token (addDefinition document definition)

/-- One turn of `check_forward_fragment_references`. -/
def checkForwardFragmentReference (fragmentDefinitions : List FragmentDefinition)
    (reference : Name × Option DeclarationId) : ExecutorM Unit := do
  let (name, current) := reference
  match fragmentDefinitions.find? fun f => name.identifier = f.name.identifier with
  | none =>
    let location ← getLocationFromSyntax name.span
    addDiagnosticAt location .fragment0IsNotDefined [name.identifier]
  | some fragment =>
    let typeName ← follow fragment.type
    let symbol ← findSymbol typeName.identifier
    let object ← declaration symbol.declaration
    let id ← follow current
    let parent ← declaration id
    checkFragmentAssignment name object parent

def checkForwardFragmentReferences (fragmentDefinitions : List FragmentDefinition) :
    ExecutorM Unit := do
  let references ← read fun s => s.members.forwardFragmentReferences
  references.forM (checkForwardFragmentReference fragmentDefinitions)

/-- The bound for a query: a turn of a loop, or a step down in a selection or a value, takes a
character. -/
def fuelFor (query : Ustring) : Nat := 3 * query.length + 6

/-- `GraphQlExecutor::Execute` -/
def execute (query : Ustring) : ExecutorM ExecutableDefinition := do
  let token ← takeToken
  let span ← createSpan
  let document ← parseDefinitions (fuelFor query) token { span }
  checkForwardFragmentReferences document.fragmentDefinitions
  let diagnostics ← read fun s => s.diagnostics
  return { document with diagnostics }

/-- An executor with a schema added, and the scanner of a query. The nodes of the schema stay where
they are. -/
def addSchema (schema : GraphQlSchema) (query : Ustring) : GraphQlExecutor where
  scanner := { source := query }
  pool := schema.pool
  members :=
    { query := schema.members.query
      mutation := schema.members.mutation
      subscription := schema.members.subscription
      symbols := schema.members.symbols
      directiveDefinitions := schema.members.directiveDefinitions }

/-- A fresh executor with a schema validates a query. -/
def run (schema : GraphQlSchema) (query : Ustring) :
    Outcome Stop GraphQlExecutor ExecutableDefinition :=
  (execute query).run (addSchema schema query)

/-- The executor returns a document and has reported nothing. -/
def Accepts (schema : GraphQlSchema) (query : Ustring) (document : ExecutableDefinition)
    (executor : GraphQlExecutor) : Prop :=
  run schema query = .ok document executor ∧ executor.diagnostics = []

end GraphQlExecutor

end Flashpoint
