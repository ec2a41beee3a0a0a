import Flashpoint.Schema.Parse

/-!
# Checking a schema

The passes the constructor of `GraphQlSchema` runs after parsing, in its order: the root types, the
type references, the directives with their arguments, the interfaces and the unions; and the
constructor itself.
-/

namespace Flashpoint

open Library

namespace GraphQlSchema

open ParserM Library.Climb

/-! ## Root types -/

/-- The declaration a root type is taken to be: whatever carries the name the schema block gives,
or else the default name. -/
def setRootType (given : Option Name) (default : Ustring)
    (set : SchemaMembers → Option DeclarationId → SchemaMembers) (whenMissing : SchemaM Unit) :
    SchemaM Unit := do
  let symbols ← read fun s => s.members.symbols
  match given with
  | some name =>
    match symbols.find? name.identifier with
    | some symbol => modifyMembers fun m => set m (some symbol.declaration)
    | none => addDiagnostic .type0IsNotDefined [name.identifier]
  | none =>
    match symbols.find? default with
    | some symbol => modifyMembers fun m => set m (some symbol.declaration)
    | none => whenMissing

def setRootTypes (schema : Schema) : SchemaM Unit := do
  setRootType schema.query "Query".toList (fun m d => { m with query := d })
    (addDiagnosticAt { line := 0, column := 0, length := 0, endOfSource := true }
      .noQueryRootOperationTypeDefined [])
  setRootType schema.mutation "Mutation".toList (fun m d => { m with mutation := d })
    (modifyMembers fun m => { m with mutation := none })
  setRootType schema.subscription "Subscription".toList (fun m d => { m with subscription := d })
    (modifyMembers fun m => { m with subscription := none })

/-! ## Type references -/

/-- Report the location when the directive is among the given ones. -/
def reportRecursion (parent : Ustring) (location : Span) (directives : UstringMap Directive) :
    SchemaM Unit := do
  when ((directives.find? parent).isSome) do
    let l ← getLocationFromSyntax location
    addDiagnosticAt l .cannotAnnotateWithATypeThatRecursivelyReferencesTheDirective0
      ['@' :: parent]

/-- `check_recursive_directives`. The guard at its head compares the kind of the type node with a
mask it always meets. A declaration that is no input type is read as one. A type that contains
itself makes it recurse without end: the bound is the depth a type without cycles can have. -/
def checkRecursiveDirectives (parent : Ustring) (location : Span) : Nat → TypeNode → SchemaM Unit
  | 0, _ => outOfFuel
  | fuel + 1, type => do
    let name ← follow type.name
    let symbol ← deref fun s => s.members.symbols.find? name.identifier
    match ← declaration symbol.declaration with
    | .inputObject inputObject =>
      reportRecursion parent location inputObject.directives
      let fields ← follow inputObject.fields
      fields.entries.forM fun f => do
        reportRecursion parent location f.2.directives
        let fieldType ← typeNode f.2.type
        when (fieldType.type = .object) do
          checkRecursiveDirectives parent location fuel fieldType
    | .enum enumTypeDefinition =>
      reportRecursion parent location enumTypeDefinition.directives
      enumTypeDefinition.values.entries.forM fun v =>
        reportRecursion parent location v.2.directives
    | _ => deref fun _ => none

/-- The directive check of a type that annotates an argument of a directive definition. -/
def checkTypeOfDirective (type : TypeNode) : SchemaM Unit := do
  match type.parentDirectiveDefinition with
  | none => pure ()
  | some parent =>
    let depth ← read fun s => s.pool.declarations.length
    checkRecursiveDirectives parent.identifier type.span (depth + 1) type

/-- Report a type that may not stand at its location. -/
def reportLocation (wrong : Prop) [Decidable wrong] (name : Name) (template : D) :
    SchemaM Unit := do
  when (wrong) do
    let location ← getLocationFromSyntax name.span
    addDiagnosticAt location template [name.identifier]

/-- The checks of a type that names an input type. -/
def checkInputType (type : TypeNode) (name : Name) : SchemaM Unit := do
  reportLocation (type.inInputLocation = false) name .cannotAddAnInputTypeToAnOutputLocation
  checkTypeOfDirective type

/-- One turn of `check_forward_references`. -/
def checkForwardReference (id : TypeId) : SchemaM Unit := do
  let type ← typeNode id
  let name ← follow type.name
  let symbols ← read fun s => s.members.symbols
  match symbols.find? name.identifier with
  | none =>
    let location ← getLocationFromSyntax name.span
    addDiagnosticAt location .type0IsNotDefined [name.identifier]
  | some symbol =>
    if symbol.kind = .enum then
      modifyType id fun t => { t with type := .enum }
      checkTypeOfDirective { type with type := .enum }
    else
      when (symbol.kind.isInput) (checkInputType type name)
      reportLocation (symbol.kind.isOutput ∧ type.inInputLocation) name
        .cannotAddAnOutputTypeToAnInputLocation

def checkForwardReferences : SchemaM Unit := do
  let references ← read fun s => s.members.forwardTypeReferences
  references.forM checkForwardReference

/-! ## Values against types -/

/-- The report that a value does not fit a type; the text of the value may throw. -/
def reportNotAssignable (value : Value) (type : TypeNode) : SchemaM Unit := do
  let location ← getLocationFromSyntax value.span
  let text ← Climb.require .exception fun _ => getValueString value
  let typeName ← getTypeName type
  addDiagnosticAt location .theValue0IsNotAssignableToType1 [text, typeName]

/-- The required fields of an input object that a literal leaves out. -/
def reportMissingFields (span : Span) (checked : UstringMap ObjectField)
    (fields : UstringMap InputFieldDefinition) : SchemaM Unit :=
  fields.entries.forM fun f => do
    let type ← typeNode f.2.type
    when ((type.isNonNull ∨ type.isNonNullList) ∧ checked.find? f.1 = none) do
      let location ← getLocationFromSyntax span
      addDiagnosticAt location .missingRequiredField0 [f.2.name.identifier]

/-- Report a field of a literal that was given before, at both places; at the first one once. -/
def reportDuplicateField (span : Span) (first : Span) (name : Ustring) : SchemaM Unit := do
  let location ← getLocationFromSyntax span
  addDiagnosticAt location .duplicateField0 [name]
  let reported ← hasDiagnosticInSyntax first .duplicateField0
  when (reported = false) do
    let location ← getLocationFromSyntax first
    addDiagnosticAt location .duplicateField0 [name]

mutual

/-- `check_value`. The elements of a list are checked against the type node itself, its list flags
cleared for the time. -/
def checkValue : Value → TypeId → SchemaM Unit
  | .null span, id => do
    let type ← typeNode id
    when ((type.isListType = false ∧ type.isNonNull) ∨ type.isNonNullList) do
      let location ← getLocationFromSyntax span
      let typeName ← getTypeName type
      addDiagnosticAt location .theValue0IsNotAssignableToType1 ["null".toList, typeName]
  | .list span kind values, id => do
    let type ← typeNode id
    if type.isListType = false then reportNotAssignable (.list span kind values) type
    else
      modifyType id fun t => { t with isListType := false, isNonNullList := false }
      checkValues values id
      modifyType id fun t =>
        { t with isListType := true, isNonNullList := type.isNonNullList }
  | .string span text, id => do
    let type ← typeNode id
    when (type.type.isStringType = false ∨ type.isListType) do
      reportNotAssignable (.string span text) type
  | .int span n, id => do
    let type ← typeNode id
    when (type.type.isIntegerType = false ∨ type.isListType) do
      reportNotAssignable (.int span n) type
  | .float span text, id => do
    let type ← typeNode id
    when (type.type ≠ .float ∨ type.isListType) (reportNotAssignable (.float span text) type)
  | .boolean span b, id => do
    let type ← typeNode id
    when (type.type ≠ .boolean ∨ type.isListType) (reportNotAssignable (.boolean span b) type)
  | .object span objectFields, id => do
    let type ← typeNode id
    when (type.type ≠ .object ∨ type.isListType) do
      reportNotAssignable (.object span objectFields) type
    -- `check_input_object`
    let name ← follow type.name
    let symbols ← read fun s => s.members.symbols
    match symbols.find? name.identifier with
    | none => addDiagnostic .type0IsNotDefined [name.identifier]
    | some symbol =>
      if symbol.kind ≠ .inputObject then return
      else
        match ← declaration symbol.declaration with
        | .inputObject inputObject =>
          let fields ← follow inputObject.fields
          let inputName ← follow inputObject.name
          let checked ← checkObjectFields fields inputName.identifier span objectFields ∅
          when (checked.size < fields.size) (reportMissingFields span checked fields)
        | _ => deref fun _ => none
  | .enum span text, id => do
    let type ← typeNode id
    when (type.type ≠ .enum ∨ type.isListType) (reportNotAssignable (.enum span text) type)

/-- The elements of a list. -/
def checkValues : List Value → TypeId → SchemaM Unit
  | [], _ => pure ()
  | value :: values, id => do
    checkValue value id
    checkValues values id

/-- The loop of `check_input_object` over the fields of the literal, with those checked so far. -/
def checkObjectFields (fields : UstringMap InputFieldDefinition) (inputName : Ustring)
    (span : Span) : List ObjectField → UstringMap ObjectField → SchemaM (UstringMap ObjectField)
  | [], checked => return checked
  | .mk fieldSpan name value :: rest, checked => do
    match fields.find? name.identifier with
    | none =>
      let location ← getLocationFromSyntax span
      addDiagnosticAt location .field0DoesNotExistOnType1 [name.identifier, inputName]
      checkObjectFields fields inputName span rest checked
    | some definition =>
      match checked.find? name.identifier with
      | some first =>
        reportDuplicateField fieldSpan first.span name.identifier
        checkObjectFields fields inputName span rest checked
      | none =>
        match value with
        | none => deref fun _ => none
        | some v =>
          checkValue v definition.type
          checkObjectFields fields inputName span rest
            (checked.emplace name.identifier (.mk fieldSpan name value))

end

/-! ## Directives -/

/-- Report an argument that is required and not supplied. -/
def reportMissingArgument (directive : Directive) (definition : InputValueDefinition) :
    SchemaM Unit := do
  let typeId ← follow definition.type
  let type ← typeNode typeId
  when (type.isNonNull ∨ type.isNonNullList) do
    let location ← getLocationFromSyntax directive.span
    addDiagnosticAt location .missingRequiredArgument0 [definition.name.identifier]

/-- The check of the supplied arguments against one declared argument; `checked` are the declared
arguments that were supplied. -/
def checkDirectiveArguments (directive : Directive) :
    List (Ustring × InputValueDefinition) → UstringSet → SchemaM UstringSet
  | [], checked => return checked
  | (_, definition) :: rest, checked => do
    let argument := definition.name.identifier
    match SortedMap.findEntry directive.arguments argument with
    | none =>
      reportMissingArgument directive definition
      checkDirectiveArguments directive rest checked
    | some supplied =>
      let value ← follow supplied.value
      let typeId ← follow definition.type
      checkValue value typeId
      checkDirectiveArguments directive rest (checked.emplace argument ())

/-- Report a directive that annotates an argument of its own definition. -/
def checkSelfReference (directive : Directive) : SchemaM Unit := do
  when (directive.parentDirectiveDefinition.map (·.identifier) = some directive.name.identifier) do
    let location ← getLocationFromSyntax directive.span
    addDiagnosticAt location .directiveCannotReferenceItself []

/-- Report a directive that its definition does not allow at its location. -/
def checkLocation (directive : Directive) (definition : DirectiveDefinition) : SchemaM Unit := do
  when (directive.location ∉ definition.locations) do
    let location ← getLocationFromSyntax directive.span
    let text ← Climb.require .exception fun _ => directiveLocationToString directive.location
    addDiagnosticAt location .theDirective0DoesNotSupportTheLocation1
      ['@' :: directive.name.identifier, text]

/-- One turn of `check_directive_references`. The arguments reported as unknown are the ones that
were found. -/
def checkDirectiveReference (directive : Directive) : SchemaM Unit := do
  let definitions ← read fun s => s.members.directiveDefinitions
  match definitions.find? directive.name.identifier with
  | none =>
    let location ← getLocationFromSyntax directive.span
    addDiagnosticAt location .undefinedDirective0 [directive.name.identifier]
  | some definition =>
    checkSelfReference directive
    checkLocation directive definition
    let checked ← checkDirectiveArguments directive definition.arguments.entries ∅
    when (checked.size < directive.arguments.length) do
      directive.arguments.forM fun argument => do
        when ((checked.find? argument.2.name.identifier).isSome) do
          addDiagnostic .unknownArgument0 []

def checkDirectiveReferences : SchemaM Unit := do
  let directives ← read fun s => s.directives
  directives.forM checkDirectiveReference

/-! ## Interfaces and unions -/

/-- The report that a field does not have the type its interface gives it. -/
def reportTypeMismatch (objectType interfaceType : TypeNode) (interfaceName : Ustring) :
    SchemaM Unit := do
  let location ← getLocationFromSyntax objectType.span
  let objectTypeName ← getTypeName objectType
  let interfaceTypeName ← getTypeName interfaceType
  addDiagnosticAt location .type0DoesNotMatchType1FromTheInterface2
    [objectTypeName, interfaceTypeName, interfaceName]

/-- The fields of an interface against those of an object: the first mismatch ends the check. -/
def checkInterfaceFields (objectName : Name) (fields : UstringMap FieldDefinition)
    (implementation : Ustring) (interfaceName : Option Name) :
    List (Ustring × FieldDefinition) → SchemaM Unit
  | [] => pure ()
  | (_, interfaceField) :: rest => do
    match fields.find? interfaceField.name.identifier with
    | none =>
      let location ← getLocationFromSyntax objectName.span
      addDiagnosticAt location .theField0InInterface1IsNotImplemented
        [interfaceField.name.identifier, implementation]
      checkInterfaceFields objectName fields implementation interfaceName rest
    | some objectField =>
      let objectType ← typeNode objectField.type
      let interfaceType ← typeNode interfaceField.type
      if objectType.type ≠ interfaceType.type then
        let name ← follow interfaceName
        reportTypeMismatch objectType interfaceType name.identifier
      else if objectType.type.isSymbolicType then
        let objectTypeName ← follow objectType.name
        let interfaceTypeName ← follow interfaceType.name
        if objectTypeName.identifier ≠ interfaceTypeName.identifier then
          let name ← follow interfaceName
          reportTypeMismatch objectType interfaceType name.identifier
        else checkInterfaceFields objectName fields implementation interfaceName rest
      else checkInterfaceFields objectName fields implementation interfaceName rest

/-- One interface an object claims to implement. -/
def checkImplementation (object : Object) (implementation : Ustring × Name) : SchemaM Unit := do
  let interfaces ← read fun s => s.members.interfaces
  match interfaces.find? implementation.1 with
  | none =>
    let location ← getLocationFromSyntax implementation.2.span
    addDiagnosticAt location .interface0IsNotDefined [implementation.1]
  | some id =>
    match object.fields with
    | none => pure ()
    | some fields =>
      match ← declaration id with
      | .interface i =>
        let interfaceFields ← follow i.fields
        let objectName ← follow object.name
        checkInterfaceFields objectName fields implementation.1 i.name interfaceFields.entries
      | _ => deref fun _ => none

/-- One turn of `check_object_implementations`. -/
def checkObjectImplementation (id : DeclarationId) : SchemaM Unit := do
  match ← declaration id with
  | .object object =>
    let implementations ← follow object.implementations
    implementations.entries.forM (checkImplementation object)
  | _ => deref fun _ => none

def checkObjectImplementations : SchemaM Unit := do
  let objects ← read fun s => s.members.objectsWithImplementations
  objects.forM checkObjectImplementation

/-- One member of a union. -/
def checkUnionMember (name : Name) : SchemaM Unit := do
  let symbols ← read fun s => s.members.symbols
  match symbols.find? name.identifier with
  | none =>
    let location ← getLocationFromSyntax name.span
    addDiagnosticAt location .type0IsNotDefined [name.identifier]
  | some symbol =>
    when (symbol.kind ≠ .object) do
      let location ← getLocationFromSyntax name.span
      addDiagnosticAt location .onlyObjectsAreAllowedAsMembersInAUnion []

/-- One turn of `check_union_members`. -/
def checkUnion (id : DeclarationId) : SchemaM Unit := do
  match ← declaration id with
  | .union u => u.members.entries.forM fun member => checkUnionMember member.2
  | _ => deref fun _ => none

def checkUnionMembers : SchemaM Unit := do
  let unions ← read fun s => s.members.unions
  unions.forM checkUnion

/-! ## The constructor -/

/-- The bound for a source: a turn of a loop, or a step down in a value, takes a character. -/
def fuelFor (source : Ustring) : Nat := 2 * source.length + 4

/-- The parser before its first token. -/
def initial (source : Ustring) : GraphQlSchema := { scanner := { source }, members := {} }

/-- The schema block of the document, or an empty one. -/
def schemaOrEmpty (schema? : Option Schema) : SchemaM Schema := do
  match schema? with
  | some schema => return schema
  | none =>
    let span ← createSpan
    return { span }

/-- The passes after parsing, with the last schema block if there is one. -/
def checkSchema (schema? : Option Schema) : SchemaM Unit := do
  let schema ← schemaOrEmpty schema?
  setRootTypes schema
  checkForwardReferences
  checkDirectiveReferences
  checkObjectImplementations
  checkUnionMembers

/-- The parsing loop. -/
def parseDocument (source : Ustring) : SchemaM (Option Schema) := do
  let token ← takeToken
  parseDefinitions (fuelFor source) token none

/-- The body of the constructor. -/
def construct (source : Ustring) : SchemaM Unit := do
  let schema ← parseDocument source
  checkSchema schema

/-- `GraphQlSchema::GraphQlSchema` -/
def run (source : Ustring) : Outcome Stop GraphQlSchema Unit :=
  (construct source).run (initial source)

/-- The schema the constructor leaves behind when it returns and has reported nothing. -/
def Accepts (source : Ustring) (schema : GraphQlSchema) : Prop :=
  run source = .ok () schema ∧ schema.diagnostics = []

theorem accepts_of_run {source : Ustring} (hstop : (run source).stop? = none)
    (hempty : (run source).state.diagnostics = []) : Accepts source (run source).state := by
  obtain ⟨_, h⟩ := Outcome.exists_eq_ok hstop
  exact ⟨h, hempty⟩

end GraphQlSchema

end Flashpoint
