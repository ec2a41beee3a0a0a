import Flashpoint.Parser
import Mathlib.Algebra.Group.Int.Defs
import Mathlib.Algebra.Group.Nat.Defs

/-!
# Parsing a schema

The members of `GraphQlSchema` and its `parse_*` functions. A `while (true)` loop of the source is
a function on a bound, `fuel`, that gives it one unit a turn; the constructor passes a bound that
no document exhausts.

The member `locationSteps` is not in the source: it records, for the reasoning about runs, where the
source reads a location without looking for the end of the document.
-/

namespace Flashpoint

open Library

/-- The first location of a directive definition is read: whether the directive is new, and the
scanner before. -/
structure LocationStep where
  isNew : Bool
  scanner : GraphQlScanner

/-- The members of `GraphQlSchema`. -/
structure SchemaMembers where
  definitions : List Definition := []
  query : Option DeclarationId := none
  mutation : Option DeclarationId := none
  subscription : Option DeclarationId := none
  symbols : UstringMap Symbol := ∅
  forwardTypeReferences : List TypeId := []
  interfaces : UstringMap DeclarationId := ∅
  objectsWithImplementations : List DeclarationId := []
  unions : List DeclarationId := []
  duplicateSymbols : UstringSet := ∅
  directiveDefinitions : UstringMap DirectiveDefinition := ∅
  locationSteps : List LocationStep := []

abbrev GraphQlSchema := GraphQlParser SchemaMembers

abbrev SchemaM := ParserM SchemaMembers

namespace GraphQlSchema

open ParserM Library.Climb

def tokenIsPrimary : GraphQlToken → Bool
  | .directiveKeyword | .enumKeyword | .inputKeyword | .interfaceKeyword | .schemaKeyword
  | .typeKeyword | .unionKeyword | .endOfDocument => true
  | _ => false

def skipToNextPrimaryToken : SchemaM Unit := do
  let _ ← skipTo [.directiveKeyword, .enumKeyword, .inputKeyword, .interfaceKeyword,
    .schemaKeyword, .typeKeyword, .unionKeyword]

/-! ## Values -/

/-- What `std::isspace` takes for white space. -/
def isSpace (ch : Char) : Bool := ch = ' ' || ('\t' ≤ ch && ch ≤ '\r')

/-- `std::atoi`: white space, a sign and decimal digits. The language defines it where the number fits
an `int`; as in glibc, a number that does not is that of `strtol`, cut to 32 bits. -/
def atoi (text : Ustring) : Int :=
  match text.dropWhile isSpace with
  | '-' :: digits => cut (-(digitsValue digits : Int))
  | '+' :: digits => cut (digitsValue digits)
  | digits => cut (digitsValue digits)
where
  digitsValue (digits : Ustring) : Nat :=
    (digits.takeWhile GraphQlScanner.isDigit).foldl
      (fun n d => 10 * n + (d.toNat - '0'.toNat)) 0
  cut (n : Int) : Int := (max (-2 ^ 63) (min (2 ^ 63 - 1) n)).bmod (2 ^ 32)

mutual

/-- A value, or none at a closing bracket and after an error. -/
def parseValue : Nat → SchemaM (Option Value)
  | 0 => outOfFuel
  | fuel + 1 => do
    let token ← takeToken
    update fun s => { s with currentValueToken := token }
    match token with
    | .openBracket => do
      let span ← createSpan
      let values ← parseListValues fuel
      let current ← read fun s => s.currentValueToken
      when (current ≠ .closeBracket) do
        let value ← getTokenValue
        addDiagnostic .expected0ButGot1 [[']'], value]
      let span ← finishSpan span
      return some (.list span .listValue values)
    | .closeBracket => return none
    | .nullKeyword => do
      let span ← createSpan
      return some (.null span)
    | .gStringValue => do
      let span ← createSpan
      let value ← getTokenValue
      return some (.string span value)
    | .integerLiteral => do
      let span ← createSpan
      let value ← getTokenValue
      return some (.int span (atoi value))
    | .floatLiteral => do
      let span ← createSpan
      let value ← getTokenValue
      return some (.float span value)
    | .trueKeyword => do
      let span ← createSpan
      return some (.boolean span true)
    | .falseKeyword => do
      let span ← createSpan
      return some (.boolean span false)
    | .gName => do
      let span ← createSpan
      let value ← getTokenValue
      return some (.enum span value)
    | .openBrace => do
      let span ← createSpan
      match ← parseObjectFields fuel with
      | none => return none
      | some fields =>
        let span ← finishSpan span
        return some (.object span fields)
    | _ => do
      let value ← getTokenValue
      addDiagnostic .expectedValueInsteadGot0 [value]
      let _ ← skipTo [.gName, .closeParen]
      return none

/-- The elements of a list, up to the first call that gives no value. -/
def parseListValues : Nat → SchemaM (List Value)
  | 0 => outOfFuel
  | fuel + 1 => do
    match ← parseValue fuel with
    | none => return []
    | some value =>
      let values ← parseListValues fuel
      return value :: values

/-- The fields of an object literal; none when a colon is missing. -/
def parseObjectFields : Nat → SchemaM (Option (List ObjectField))
  | 0 => outOfFuel
  | fuel + 1 => do
    let token ← takeNextToken true true
    if token = .closeBrace ∨ token = .endOfDocument then return some []
    else if token ≠ .gName then
      addDiagnostic .expectedObjectFieldName []
      let t ← skipTo [.closeBrace, .gName]
      if t = .gName then parseObjectFields fuel else return some []
    else
      let value ← getTokenValue
      let span ← createSpan
      let name ← createName value
      if ← scanExpected .colon false then
        let value ← parseValue fuel
        let fields ← parseObjectFields fuel
        return fields.map (.mk span name value :: ·)
      else return none

end

/-! ## Directives -/

/-- Report an argument that was given before, at both places; at the first one once. -/
def reportDuplicateArgument (first name : Name) : SchemaM Unit := do
  let reported ← hasDiagnosticInSyntax first.span .duplicateArgument0
  when (reported = false) do
    let location ← getLocationFromSyntax first.span
    addDiagnosticAt location .duplicateArgument0 [name.identifier]
  let location ← getLocationFromSyntax name.span
  addDiagnosticAt location .duplicateArgument0 [name.identifier]

/-- The loop of `parse_arguments_after_open_paren`. The name is not checked to be one. -/
def parseArgumentsAfterOpenParen : Nat → UstringMap Argument → SchemaM (UstringMap Argument)
  | 0, _ => outOfFuel
  | fuel + 1, arguments => do
    let token ← takeNextToken true true
    if token = .closeParen then return arguments
    else
      let tokenValue ← getTokenValue
      let name ← createName tokenValue
      let span ← createSpan
      if ← scanExpected .colon false then
        let value ← parseValue fuel
        match arguments.find? tokenValue with
        | none =>
          parseArgumentsAfterOpenParen fuel
            (arguments.emplace tokenValue (.mk span name value []))
        | some first =>
          reportDuplicateArgument first.name name
          parseArgumentsAfterOpenParen fuel arguments
      else
        let _ ← skipTo [.closeBrace]
        return arguments

/-- The arguments of a directive, if it has a list of them. -/
def parseDirectiveArguments (fuel : Nat) : SchemaM (UstringMap Argument) := do
  if ← scanOptional .openParen false then parseArgumentsAfterOpenParen fuel ∅ else return ∅

/-- The loop of `parse_directives`. -/
def parseDirectivesLoop (location : DirectiveLocation) (parentDirectiveDefinition : Option Name) :
    Nat → UstringMap Directive → SchemaM (UstringMap Directive)
  | 0, _ => outOfFuel
  | fuel + 1, directives => do
    if ← scanOptional .atSign false then
      let token ← takeNextToken true false
      if token ≠ .gName then
        let value ← getTokenValue
        addDiagnostic .expectedNameButInsteadGot0 [value]
        skipToNextPrimaryToken
        return directives
      else
        let span ← createSpan
        let value ← getTokenValue
        let name ← createName value
        let arguments ← parseDirectiveArguments fuel
        let directive :=
          Directive.mk { span with start := span.start - 1 } name location
            parentDirectiveDefinition arguments.entries
        update fun s => { s with directives := s.directives ++ [directive] }
        match directives.find? value with
        | none =>
          parseDirectivesLoop location parentDirectiveDefinition fuel
            (directives.emplace value directive)
        | some _ =>
          addDiagnostic .duplicateArgument0 [value]
          parseDirectivesLoop location parentDirectiveDefinition fuel directives
    else return directives

def parseDirectives (fuel : Nat) (location : DirectiveLocation)
    (parentDirectiveDefinition : Option Name) : SchemaM (UstringMap Directive) :=
  parseDirectivesLoop location parentDirectiveDefinition fuel ∅

/-! ## Types and arguments -/

/-- The tag and the name of the type a token names. -/
def typeOfToken (token : GraphQlToken) : Option TypeEnum :=
  match token with
  | .intKeyword => some .int
  | .floatKeyword => some .float
  | .stringKeyword => some .string
  | .booleanKeyword => some .boolean
  | .idKeyword => some .id
  | .gName => some .object
  | _ => none

/-- The part of `parse_type_annotation` from the token that names the type on. -/
def parseNamedType (span : Span) (inInputLocation : Bool)
    (parentDirectiveDefinition : Option Name) (isListType : Bool) (token : GraphQlToken) :
    SchemaM (Option TypeId) := do
  match typeOfToken token with
  | none =>
    let value ← getTokenValue
    addDiagnostic .expectedTypeAnnotationInsteadGot0 [value]
    return none
  | some type =>
    let value ← getTokenValue
    let name ← createName value
    let id ← createType
      { span, inInputLocation, parentDirectiveDefinition, isListType, type
        name := if token = .gName then some name else none }
    when (token = .gName) do
      modifyMembers fun m => { m with forwardTypeReferences := m.forwardTypeReferences ++ [id] }
    let isNonNull ← scanOptional .exclamation false
    modifyType id fun t => { t with isNonNull }
    if isListType then
      if ← scanExpected .closeBracket false then
        let isNonNullList ← scanOptional .exclamation false
        modifyType id fun t => { t with isNonNullList }
        let span ← finishSpan span
        modifyType id fun t => { t with span }
        return some id
      else return none
    else
      let span ← finishSpan span
      modifyType id fun t => { t with span }
      return some id

def parseTypeAnnotation (inInputLocation : Bool) (parentDirectiveDefinition : Option Name) :
    SchemaM (Option TypeId) := do
  let token ← takeToken
  let span ← createSpan
  if token = .openBracket then
    let token ← takeToken
    parseNamedType span inInputLocation parentDirectiveDefinition true token
  else parseNamedType span inInputLocation parentDirectiveDefinition false token

/-- The loop of `parse_arguments_definition_after_open_paren`. -/
def parseArgumentsDefinitionAfterOpenParen (parentDirectiveDefinition : Option Name) :
    Nat → UstringMap InputValueDefinition → SchemaM (UstringMap InputValueDefinition)
  | 0, _ => outOfFuel
  | fuel + 1, arguments => do
    let token ← takeNextToken true true
    if token = .gStringValue then
      let description ← getStringValue
      update fun s => { s with currentDescription := description, hasDescription := true }
      parseArgumentsDefinitionAfterOpenParen parentDirectiveDefinition fuel arguments
    else
      let span ← createSpan
      let description ← read fun s => if s.hasDescription then s.currentDescription else []
      update fun s => { s with hasDescription := false }
      if token = .closeParen ∨ token = .endOfDocument then return arguments
      else if token ≠ .gName then
        addDiagnostic .expectedNameOfArgument []
        return arguments
      else
        let value ← getTokenValue
        let name ← createName value
        if ← scanExpected .colon false then
          let type ← parseTypeAnnotation true parentDirectiveDefinition
          let directives ← parseDirectives fuel .argumentDefinition parentDirectiveDefinition
          match arguments.find? value with
          | none =>
            parseArgumentsDefinitionAfterOpenParen parentDirectiveDefinition fuel
              (arguments.emplace value { span, name, description, type, directives })
          | some _ =>
            addDiagnostic .duplicateArgument0 [value]
            parseArgumentsDefinitionAfterOpenParen parentDirectiveDefinition fuel arguments
        else return arguments

/-- The declared arguments, if there is a list of them. -/
def parseArgumentsDefinition (parentDirectiveDefinition : Option Name) (fuel : Nat) :
    SchemaM (UstringMap InputValueDefinition) := do
  if ← scanOptional .openParen false then
    parseArgumentsDefinitionAfterOpenParen parentDirectiveDefinition fuel ∅
  else return ∅

/-! ## Fields -/

/-- The loop of `parse_fields_definition_after_open_brace`. The names read so far are the keys of
`fields`, and there is a field once the map has an entry. -/
def parseFieldsDefinitionAfterOpenBrace :
    Nat → UstringMap FieldDefinition → Ustring → SchemaM (Option (UstringMap FieldDefinition))
  | 0, _, _ => outOfFuel
  | fuel + 1, fields, description => do
    let token ← takeNextToken true true
    if token = .endOfDocument then
      addDiagnostic .expected0ButInsteadReachedTheEndOfDocument [['\x7d']]
      return none
    else if token = .closeBrace ∧ fields.entries ≠ [] then return some fields
    else if token = .gStringValue then
      let description ← getStringValue
      parseFieldsDefinitionAfterOpenBrace fuel fields description
    else if token = .invalidString then
      takeErrorsFromScanner
      parseFieldsDefinitionAfterOpenBrace fuel fields description
    else if token ≠ .gName then
      addDiagnostic .expectedFieldDefinition []
      return none
    else
      let span ← createSpan
      let value ← getTokenValue
      when ((fields.find? value).isSome) (addDiagnostic .duplicateField0 [value])
      let name ← createName value
      let arguments ← parseArgumentsDefinition none fuel
      if ← scanExpected .colon false then
        match ← parseTypeAnnotation false none with
        | none => return none
        | some type =>
          let directives ← parseDirectives fuel .fieldDefinition none
          parseFieldsDefinitionAfterOpenBrace fuel
            (fields.emplace value { span, name, description, type, arguments, directives }) []
      else return none

def parseFieldsDefinition (fuel : Nat) : SchemaM (Option (UstringMap FieldDefinition)) := do
  if ← scanExpected .openBrace false then parseFieldsDefinitionAfterOpenBrace fuel ∅ []
  else return none

/-- The loop of `parse_input_fields_definition`, with the fields and the names of the required
ones. The description is read and not kept. -/
def parseInputFieldsDefinitionLoop :
    Nat → UstringMap InputFieldDefinition → List Ustring →
      SchemaM (Option (UstringMap InputFieldDefinition) × List Ustring)
  | 0, _, _ => outOfFuel
  | fuel + 1, fields, requiredFields => do
    let span ← createSpan
    let token ← takeNextToken true true
    if token = .endOfDocument then
      addDiagnostic .expected0ButInsteadReachedTheEndOfDocument [['\x7d']]
      return (none, requiredFields)
    else if token = .closeBrace ∧ fields.entries ≠ [] then return (some fields, requiredFields)
    else if token = .gStringValue then parseInputFieldsDefinitionLoop fuel fields requiredFields
    else if token = .invalidString then
      takeErrorsFromScanner
      parseInputFieldsDefinitionLoop fuel fields requiredFields
    else if token ≠ .gName then
      addDiagnostic .expectedFieldDefinition []
      return (none, requiredFields)
    else
      let value ← getTokenValue
      let name ← createName value
      if ← scanExpected .colon false then
        match ← parseTypeAnnotation true none with
        | none => return (none, requiredFields)
        | some type =>
          let node ← typeNode type
          let requiredFields :=
            if node.isNonNull ∨ node.isNonNullList then requiredFields ++ [value]
            else requiredFields
          let directives ← parseDirectives fuel .inputFieldDefinition none
          parseInputFieldsDefinitionLoop fuel
            (fields.emplace value { span, name, type, directives }) requiredFields
      else return (none, requiredFields)

def parseInputFieldsDefinition (fuel : Nat) :
    SchemaM (Option (UstringMap InputFieldDefinition) × List Ustring) := do
  if ← scanExpected .openBrace false then parseInputFieldsDefinitionLoop fuel ∅ []
  else return (none, [])

/-! ## Type definitions -/

/-- Register the name of a definition, or report the name twice: at this definition, and once at
the first. -/
def registerSymbol (name : Name) (id : DeclarationId) (kind : SymbolKind) : SchemaM Unit := do
  recordStep (.defineType name.identifier name.span id kind)
  let symbols ← read fun s => s.members.symbols
  match symbols.find? name.identifier with
  | none =>
    modifyMembers fun m =>
      { m with symbols := m.symbols.emplace name.identifier ⟨name.identifier, id, kind⟩ }
  | some result =>
    let location ← getLocationFromSyntax name.span
    addDiagnosticAt location .duplicateType0 [name.identifier]
    let duplicateSymbols ← read fun s => s.members.duplicateSymbols
    when (duplicateSymbols.find? name.identifier = none) do
      let first ← declaration result.declaration
      let firstName ← follow first.name
      let location ← getLocationFromSyntax firstName.span
      addDiagnosticAt location .duplicateType0 [result.name]
      modifyMembers fun m =>
        { m with duplicateSymbols := m.duplicateSymbols.emplace name.identifier () }

/-- The name of a definition, read and registered. -/
def parseDefinitionName (id : DeclarationId) (kind : SymbolKind) (treatKeywordAsName : Bool) :
    SchemaM (Option Name) := do
  if ← scanExpectedOr .gName .expectedTypeNameInsteadGot0 treatKeywordAsName then
    let value ← getTokenValue
    let name ← createName value
    registerSymbol name id kind
    return some name
  else return none

def parseObjectName (id : DeclarationId) (kind : SymbolKind) : SchemaM (Option Name) :=
  parseDefinitionName id kind true

def parseInputObjectName (id : DeclarationId) : SchemaM (Option Name) :=
  parseDefinitionName id .inputObject false

/-- The description read before the definition. -/
def definitionDescription : SchemaM Ustring :=
  read fun s => if s.hasDescription then s.currentDescription else []

/-- Report the name of an interface that is registered as something else by now. -/
def checkImplementationName (name : Name) : SchemaM Unit := do
  let symbols ← read fun s => s.members.symbols
  match symbols.find? name.identifier with
  | none => return
  | some symbol => when (symbol.kind ≠ .interface) (addDiagnostic .expectedNameOfInterface [])

/-- The loop of `parse_implementations`, up to the opening brace. -/
def parseImplementations : Nat → UstringMap Name → SchemaM (Option (UstringMap Name))
  | 0, _ => outOfFuel
  | fuel + 1, implementations => do
    let token ← takeToken
    if token = .endOfDocument then
      addDiagnostic .unexpectedEndOfImplementations []
      return none
    else if token ≠ .gName then
      addDiagnostic .expectedNameOfInterface []
      return none
    else
      let value ← getTokenValue
      let name ← createName value
      checkImplementationName name
      let postToken ← takeToken
      if postToken = .openBrace then return some (implementations.emplace value name)
      else if postToken = .ampersand then
        parseImplementations fuel (implementations.emplace value name)
      else
        let value ← getTokenValue
        addDiagnostic .expected0ButGot1 [['\x7b'], value]
        skipBlock
        return none

def parseInterfaceDefinition (fuel : Nat) : SchemaM (Option DeclarationId) := do
  let span ← createSpan
  let id ← createDeclaration (.interface { span })
  let name? ← parseObjectName id .interface
  let description ← definitionDescription
  match name? with
  | none => return none
  | some name =>
    setDeclaration id (.interface { span, name, description })
    let directives ← parseDirectives fuel .interface none
    let fields ← parseFieldsDefinition fuel
    setDeclaration id (.interface { span, name, description, directives, fields })
    modifyMembers fun m => { m with interfaces := m.interfaces.emplace name.identifier id }
    return some id

/-- After the name and the directives of an object: its interfaces and fields. -/
def parseObjectBody (fuel : Nat) (id : DeclarationId) (object : Object) :
    SchemaM (Option DeclarationId) := do
  if ← scanOptional .implementsKeyword false then
    match ← parseImplementations fuel ∅ with
    | none => return none
    | some implementations =>
      setDeclaration id (.object { object with implementations })
      let fields ← parseFieldsDefinitionAfterOpenBrace fuel ∅ []
      setDeclaration id (.object { object with implementations, fields })
      modifyMembers fun m =>
        { m with objectsWithImplementations := m.objectsWithImplementations ++ [id] }
      return if fields.isSome then some id else none
  else
    let fields ← parseFieldsDefinition fuel
    setDeclaration id (.object { object with fields })
    return if fields.isSome then some id else none

def parseObject (fuel : Nat) : SchemaM (Option DeclarationId) := do
  let span ← createSpan
  let id ← createDeclaration (.object { span })
  let name? ← parseObjectName id .object
  let description ← definitionDescription
  match name? with
  | none => return none
  | some name =>
    setDeclaration id (.object { span, name, description })
    let directives ← parseDirectives fuel .object none
    setDeclaration id (.object { span, name, description, directives })
    parseObjectBody fuel id { span, name, description, directives }

def parseInputObject (fuel : Nat) : SchemaM (Option DeclarationId) := do
  let span ← createSpan
  let id ← createDeclaration (.inputObject { span })
  let name? ← parseInputObjectName id
  let description ← definitionDescription
  match name? with
  | none => return none
  | some name =>
    setDeclaration id (.inputObject { span, name, description })
    let directives ← parseDirectives fuel .inputObject none
    let (fields, requiredFields) ← parseInputFieldsDefinition fuel
    setDeclaration id
      (.inputObject { span, name, description, directives, fields, requiredFields })
    return if fields.isSome then some id else none

def isValidEnumValue (token : GraphQlToken) : Bool :=
  if token = .gName then true
  else
    match token with
    | .trueKeyword | .falseKeyword | .nullKeyword | .unknown => false
    | _ => GraphQlToken.startKeyword.ordinal < token.ordinal &&
        token.ordinal < GraphQlToken.endKeyword.ordinal

/-- The loop of `parse_enum`. The description is a variable of the loop body, so none reaches a
value. `false` stands for the exits that return no definition. -/
def parseEnumValues : Nat → UstringMap EnumValueDefinition →
    SchemaM (Bool × UstringMap EnumValueDefinition)
  | 0, _ => outOfFuel
  | fuel + 1, values => do
    let token ← takeToken
    if token = .closeBrace ∧ values.entries ≠ [] then return (true, values)
    else if token = .gStringValue then parseEnumValues fuel values
    else if token = .endOfDocument then
      addDiagnostic .expected0ButInsteadReachedTheEndOfDocument ["enum value".toList]
      return (false, values)
    else if isValidEnumValue token = false then
      let value ← getTokenValue
      addDiagnostic .expectedEnumValueButInsteadGot0 [value]
      let _ ← skipTo [.closeBrace]
      return (true, values)
    else
      let value ← getTokenValue
      let name ← createName value
      let directives ← parseDirectives fuel .enumValue none
      parseEnumValues fuel (values.emplace value { name, directives })

def parseEnum (fuel : Nat) : SchemaM (Option DeclarationId) := do
  if ← scanExpected .gName false then
    let span ← createSpan
    let value ← getTokenValue
    let name ← createName value
    let id ← createDeclaration (.enum { span, name })
    registerSymbol name id .enum
    let directives ← parseDirectives fuel .enum none
    setDeclaration id (.enum { span, name, directives })
    if ← scanExpected .openBrace false then
      let (complete, values) ← parseEnumValues fuel ∅
      setDeclaration id (.enum { span, name, directives, values })
      return if complete then some id else none
    else return none
  else return none

/-- The members of a union after the first. A token that neither continues the members nor starts
a definition ends the union without a report. -/
def parseUnionMembers : Nat → UstringMap Name → SchemaM (Option (UstringMap Name))
  | 0, _ => outOfFuel
  | fuel + 1, members => do
    scan fun s => ((), s.save)
    let token ← takeToken
    if token ≠ .pipe then
      if tokenIsPrimary token then
        scan fun s => ((), s.revert)
        return some members
      else
        skipToNextPrimaryToken
        return none
    else
      if ← scanExpected .gName false then
        let value ← getTokenValue
        let name ← createName value
        parseUnionMembers fuel (members.emplace value name)
      else
        skipToNextPrimaryToken
        return none

def parseUnionAfterUnionKeyword (fuel : Nat) : SchemaM (Option DeclarationId) := do
  let span ← createSpan
  if ← scanExpected .gName false then
    let value ← getTokenValue
    let name ← createName value
    let directives ← parseDirectives fuel .union none
    if ← scanExpected .equal false then
      let _ ← scanOptional .pipe false
      if ← scanExpected .gName false then
        let memberValue ← getTokenValue
        let memberName ← createName memberValue
        match ← parseUnionMembers fuel ((∅ : UstringMap Name).emplace memberValue memberName) with
        | none => return none
        | some members =>
          let id ← createDeclaration (.union { span, name, directives, members })
          recordStep (.defineType value name.span id .union)
          modifyMembers fun m =>
            { m with
              symbols := m.symbols.emplace value ⟨value, id, .union⟩
              unions := m.unions ++ [id] }
          return some id
      else
        skipToNextPrimaryToken
        return none
    else
      skipToNextPrimaryToken
      return none
  else
    skipToNextPrimaryToken
    return none

/-! ## Directive definitions and the schema block -/

/-- The locations of a directive definition after the first. -/
def parseLocations : Nat → Finset DirectiveLocation → SchemaM (Option (Finset DirectiveLocation))
  | 0, _ => outOfFuel
  | fuel + 1, locations => do
    scan fun s => ((), s.save)
    let token ← takeToken
    if tokenIsPrimary token then
      scan fun s => ((), s.revert)
      return some locations
    else if token ≠ .pipe then
      let value ← getTokenValue
      addDiagnostic .expected0ButGot1 [['|'], value]
      skipToNextPrimaryToken
      return none
    else
      let l ← scan fun s => s.scanDirectiveLocation
      if l = .unknown then
        addDiagnostic .expectedDirectiveLocation []
        skipToNextPrimaryToken
        return none
      else if l = .endOfDocument then
        addDiagnosticAt { line := 0, column := 0, length := 0, endOfSource := true }
          .expectedDirectiveLocationButInsteadReachedTheEndOfDocument []
        return none
      else parseLocations fuel (insert l locations)

def recordLocationStep (name : Ustring) : SchemaM Unit :=
  update fun s => { s with
    members := { s.members with
      locationSteps := s.members.locationSteps ++
        [⟨(s.members.directiveDefinitions.find? name).isNone, s.scanner⟩] } }

/-- After `on` in the definition of a directive. The first location is not compared with the end of
the document. -/
def parseDirectiveLocations (fuel : Nat) (name : Ustring) :
    SchemaM (Option (Finset DirectiveLocation)) := do
  let _ ← scanOptional .pipe false
  recordLocationStep name
  let location ← scan fun s => s.scanDirectiveLocation
  if location = .unknown then
    addDiagnostic .expectedDirectiveLocation []
    skipToNextPrimaryToken
    return none
  else parseLocations fuel {location}

def parseDirectiveDefinitionAfterDirectiveKeyword (fuel : Nat) :
    SchemaM (Option DirectiveDefinition) := do
  if ← scanExpected .atSign false then
    let token ← takeNextToken true false
    if token ≠ .gName then
      match graphQlTokenToString token with
      | none => throwException
      | some text =>
        addDiagnostic .expectedNameButInsteadGot0 [text]
        skipToNextPrimaryToken
        return none
    else
      let span ← createSpan
      let description ← definitionDescription
      let value ← getTokenValue
      let name ← createName value
      let arguments ← parseArgumentsDefinition (some name) fuel
      if ← scanExpected .onKeyword false then
        match ← parseDirectiveLocations fuel name.identifier with
        | none => return none
        | some locations =>
          let definition := { span, name, description, arguments, locations }
          modifyMembers fun m =>
            { m with
              directiveDefinitions := m.directiveDefinitions.emplace name.identifier definition }
          return some definition
      else
        let _ ← skipTo [.closeBrace]
        return none
  else
    skipToNextPrimaryToken
    return none

def parseSchemaFieldAfterColon : SchemaM (Option Name) := do
  if ← scanExpected .colon false then
    if ← scanExpected .gName false then
      let value ← getTokenValue
      let name ← createName value
      return some name
    else
      skipToNextPrimaryToken
      return none
  else return none

/-- The keyword of a root type, as a field of the schema block. -/
def rootText : OperationType → Ustring
  | .query => "query".toList
  | .mutation => "mutation".toList
  | .subscription => "subscription".toList

def rootOfToken : GraphQlToken → Option OperationType
  | .queryKeyword => some .query
  | .mutationKeyword => some .mutation
  | .subscriptionKeyword => some .subscription
  | _ => none

/-- The key of a root type in a schema block. -/
def schemaKey (schema : Schema) : OperationType → Option Name
  | .query => schema.queryKey
  | .mutation => schema.mutationKey
  | .subscription => schema.subscriptionKey

/-- Give a root type its key and its name. -/
def setSchemaRoot (schema : Schema) (root : OperationType) (key : Name) (name : Option Name) :
    Schema :=
  match root with
  | .query => { schema with queryKey := key, query := name }
  | .mutation => { schema with mutationKey := key, mutation := name }
  | .subscription => { schema with subscriptionKey := key, subscription := name }

/-- The loop of `parse_schema`: a root type is added when its key is new; `duplicates` are the root
types whose first key was reported. The end of the document closes the block like a brace. -/
def parseSchemaFields : Nat → Schema → List OperationType → SchemaM Schema
  | 0, _, _ => outOfFuel
  | fuel + 1, schema, duplicates => do
    let token ← takeToken
    match rootOfToken token with
    | some root =>
      match schemaKey schema root with
      | none =>
        let key ← createName (rootText root)
        let name ← parseSchemaFieldAfterColon
        parseSchemaFields fuel (setSchemaRoot schema root key name) duplicates
      | some key =>
        addDiagnostic .duplicateField0 [rootText root]
        let _ ← parseSchemaFieldAfterColon
        if root ∈ duplicates then parseSchemaFields fuel schema duplicates
        else
          let location ← getLocationFromSyntax key.span
          addDiagnosticAt location .duplicateField0 [rootText root]
          parseSchemaFields fuel schema (root :: duplicates)
    | none =>
      if token = .endOfDocument ∨ token = .closeBrace then return schema
      else
        addDiagnostic .aSchemaDefinitionCanOnlyContainQueryMutationAndSubscriptionFields []
        let _ ← parseSchemaFieldAfterColon
        parseSchemaFields fuel schema duplicates

def parseSchema (fuel : Nat) : SchemaM (Option Schema) := do
  let directives ← parseDirectives fuel .schema none
  if ← scanExpected .openBrace false then
    let span ← createSpan
    let schema ← parseSchemaFields fuel { span, directives } []
    return some schema
  else
    skipBlock
    return none

/-! ## The document -/

def parsePrimaryToken (fuel : Nat) (token : GraphQlToken) : SchemaM (Option Definition) := do
  match token with
  | .directiveKeyword =>
    let d ← parseDirectiveDefinitionAfterDirectiveKeyword fuel
    return d.map .directiveDefinition
  | .enumKeyword =>
    let d ← parseEnum fuel
    return d.map .declaration
  | .interfaceKeyword =>
    let d ← parseInterfaceDefinition fuel
    return d.map .declaration
  | .inputKeyword =>
    let d ← parseInputObject fuel
    return d.map .declaration
  | .schemaKeyword =>
    let d ← parseSchema fuel
    return d.map .schema
  | .typeKeyword =>
    let d ← parseObject fuel
    return d.map .declaration
  | .unionKeyword =>
    let d ← parseUnionAfterUnionKeyword fuel
    return d.map .declaration
  | _ =>
    addDiagnostic .expectedTypeDefinition []
    return none

/-- The schema block a definition is, or the one before it. -/
def schemaOf (schema : Option Schema) : Definition → Option Schema
  | .schema s => some s
  | _ => schema

/-- The parsing loop of the constructor, from the token just taken on. It gives the last schema
block. -/
def parseDefinitions : Nat → GraphQlToken → Option Schema → SchemaM (Option Schema)
  | 0, _, _ => outOfFuel
  | fuel + 1, token, schema => do
    if token = .endOfDocument then return schema
    else if token = .gStringValue then
      let description ← getStringValue
      update fun s => { s with hasDescription := true, currentDescription := description }
      let token ← takeToken
      parseDefinitions fuel token schema
    else
      let definition? ← parsePrimaryToken fuel token
      update fun s => { s with hasDescription := false }
      match definition? with
      | some definition =>
        modifyMembers fun m => { m with definitions := m.definitions ++ [definition] }
        let token ← takeToken
        parseDefinitions fuel token (schemaOf schema definition)
      | none =>
        skipBlock
        let token ← takeToken
        parseDefinitions fuel token schema

end GraphQlSchema

end Flashpoint
