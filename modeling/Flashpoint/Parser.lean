import Flashpoint.Library.Climb
import Flashpoint.Scanner.Scan
import Flashpoint.Syntaxes

/-!
# The parser both parsers derive from

`GraphQlParser` is the state of the class template of that name, with the members of the deriving
class as a parameter. `ParserM` are the computations on it: they may stop at a read the source does
not guard, or with an exception, and they only ever add diagnostics and steps, which the type
records.
-/

namespace Flashpoint

open Library

/-- A step of a run at which the source relies on what it finds, with what that is. -/
inductive Step where
  /-- `parse_value` has read a token for a type. -/
  | value (token : GraphQlToken) (id : TypeId) (type : TypeNode)
  /-- A field is looked up in the declaration on top of the stack. -/
  | selectField (parent : SymbolKind)
  /-- A fragment on one declaration is used inside another. -/
  | assignFragment (fragment parent : SymbolKind)
  /-- A field was looked up by its alias; whether selections follow. -/
  | selectAlias (parent : Option DeclarationId) (fieldAlias name : Ustring) (nested : Bool)
  /-- The arguments of a field or a directive: those declared, and those supplied in parentheses. -/
  | useArguments (declared : List (Ustring × Option TypeId)) (supplied : Option (List Ustring))
      (target : Span)
  /-- The token at which a value is expected. -/
  | valueAhead (token : GraphQlToken)
  /-- The token that ends a list of arguments. -/
  | argumentsEnd (token : GraphQlToken)
  /-- The token that ends the definitions of variables. -/
  | variablesEnd (token : GraphQlToken)
  /-- The token read as the type of a variable. -/
  | variableType (token : GraphQlToken)
  /-- A field of an object literal has the name of one that was read in it before. -/
  | repeatField (name : Ustring)
  /-- An object literal was read: the names of its fields. -/
  | objectValue (fields : List (Ustring × Span))
  /-- A directive has the name of one that stands before it at the same place. -/
  | repeatDirective (name : Ustring)
  /-- The name of a fragment definition was read. -/
  | defineFragment (name : Ustring) (span : Span)
  /-- The name of a type definition is registered. -/
  | defineType (name : Ustring) (span : Span) (id : DeclarationId) (kind : SymbolKind)
  /-- The top of the stack of object types is read or popped, at this height of the stack. -/
  | readStack (height : Nat)
deriving DecidableEq, Repr

/-- The state of a parser. The member `steps` is not in the source: it records, for the reasoning
about runs, the steps at which the source reads something it does not check. -/
structure GraphQlParser (Members : Type) where
  scanner : GraphQlScanner
  diagnostics : List DiagnosticMessage := []
  pool : Pool := {}
  currentDescription : Ustring := []
  currentValueToken : GraphQlToken := .unknown
  hasDescription : Bool := false
  directives : List Directive := []
  members : Members
  steps : List Step := []

instance {M : Type} : Preorder (GraphQlParser M) where
  le s t := s.diagnostics <+: t.diagnostics ∧ s.steps <+: t.steps
  le_refl s := ⟨List.prefix_refl s.diagnostics, List.prefix_refl s.steps⟩
  le_trans _ _ _ h h' := ⟨h.1.trans h'.1, h.2.trans h'.2⟩

/-- Why a run ends without a result: it read what is not there, an exception left it, or the bound
of the model was too small. -/
inductive Stop where
  | absentRead
  | exception
  | outOfFuel
deriving DecidableEq, Repr

abbrev ParserM (M : Type) := Climb Stop (GraphQlParser M)

namespace ParserM

variable {M α : Type}

/-! ## Access to the state -/

/-- Change the state, the diagnostics and the recorded steps apart. -/
def update (f : GraphQlParser M → GraphQlParser M) : ParserM M Unit :=
  Climb.step (fun s => ((), { f s with diagnostics := s.diagnostics, steps := s.steps }))
    fun s => ⟨List.prefix_refl s.diagnostics, List.prefix_refl s.steps⟩

def recordStep (step : Step) : ParserM M Unit :=
  Climb.step (fun s => ((), { s with steps := s.steps ++ [step] }))
    fun s => ⟨List.prefix_refl s.diagnostics, List.prefix_append s.steps _⟩

/-- Run an operation of the scanner. -/
def scan (f : GraphQlScanner → α × GraphQlScanner) : ParserM M α :=
  Climb.step (fun s => ((f s.scanner).1, { s with scanner := (f s.scanner).2 }))
    fun s => ⟨List.prefix_refl s.diagnostics, List.prefix_refl s.steps⟩

/-- Read the state. -/
def read (f : GraphQlParser M → α) : ParserM M α := do
  let s ← Climb.get
  return f s

/-- Read what the source takes to be there. -/
def deref (f : GraphQlParser M → Option α) : ParserM M α := Climb.require .absentRead f

/-- Follow a pointer. -/
def follow (p : Option α) : ParserM M α := deref fun _ => p

/-- Throw. -/
def throwException : ParserM M α := Climb.stop .exception

/-- The bound of the model is used up. -/
def outOfFuel : ParserM M α := Climb.stop .outOfFuel

def modifyMembers (f : M → M) : ParserM M Unit := update fun s => { s with members := f s.members }

/-! ## Diagnostics -/

def addDiagnosticAt (location : Location) (template : D) (arguments : List Ustring) :
    ParserM M Unit :=
  Climb.step
    (fun s => ((), { s with diagnostics := s.diagnostics ++ [⟨template, arguments, location⟩] }))
    fun s => ⟨List.prefix_append s.diagnostics _, List.prefix_refl s.steps⟩

/-- The location of the token just taken. -/
def tokenLocation (s : GraphQlScanner) : Location :=
  { line := s.line, column := s.startColumn, length := s.position - s.startPosition }

def getTokenLocation : ParserM M Location := read fun s => tokenLocation s.scanner

def addDiagnostic (template : D) (arguments : List Ustring) : ParserM M Unit := do
  let location ← getTokenLocation
  addDiagnosticAt location template arguments

/-- The location of a node; the line lookup may throw. -/
def getLocationFromSyntax (span : Span) : ParserM M Location :=
  Climb.require .exception fun s => s.scanner.getTokenLocation span.start span.stop

/-- Whether the node has a diagnostic of the template already. -/
def hasDiagnosticInSyntax (span : Span) (template : D) : ParserM M Bool := do
  let nameLocation ← getLocationFromSyntax span
  read fun s => s.diagnostics.any fun d =>
    d.template = template && d.location.line = nameLocation.line &&
      d.location.column = nameLocation.column && d.location.length = nameLocation.length

def takeErrorsFromScanner : ParserM M Unit :=
  Climb.step
    (fun s => ((), { s with
      diagnostics := s.diagnostics ++ s.scanner.errors
      scanner := { s.scanner with errors := [] } }))
    fun s => ⟨List.prefix_append s.diagnostics _, List.prefix_refl s.steps⟩

/-! ## Tokens -/

def takeNextToken (treatKeywordAsName skipWhiteSpace : Bool) : ParserM M GraphQlToken :=
  scan fun s => s.takeNextToken treatKeywordAsName skipWhiteSpace

/-- `TakeNextToken()` -/
def takeToken : ParserM M GraphQlToken := takeNextToken false true

def getTokenValue : ParserM M Ustring := read fun s => s.scanner.getValue

def getStringValue : ParserM M Ustring := read fun s => s.scanner.getStringValue

/-- Report that `result` was read where a token of the text was expected. -/
def reportExpected (text : Ustring) (result : GraphQlToken) : ParserM M Unit := do
  if result = .endOfDocument then
    addDiagnostic .expected0ButInsteadReachedTheEndOfDocument [text]
  else
    let value ← getTokenValue
    addDiagnostic .expected0ButGot1 [text, value]

def scanExpected (token : GraphQlToken) (treatKeywordAsName : Bool) : ParserM M Bool := do
  let result ← takeNextToken treatKeywordAsName true
  if result = token then return true
  else
    match graphQlTokenToString token with
    | none => throwException
    | some text =>
      reportExpected text result
      return false

/-- `scan_expected` with a template of its own. -/
def scanExpectedOr (token : GraphQlToken) (template : D) (treatKeywordAsName : Bool) :
    ParserM M Bool := do
  let result ← takeNextToken treatKeywordAsName true
  if result = token then return true
  else
    let value ← getTokenValue
    addDiagnostic template [value]
    return false

def scanOptional (token : GraphQlToken) (treatKeywordAsName : Bool) : ParserM M Bool := do
  let result ← scan fun s => s.tryScan token treatKeywordAsName
  return result = token

def skipTo (tokens : List GraphQlToken) : ParserM M GraphQlToken := scan fun s => s.skipTo tokens

def skipBlock : ParserM M Unit := scan fun s => ((), s.skipBlock)

/-! ## Nodes -/

/-- The span `CreateSyntax` gives a node: the token just taken. -/
def createSpan : ParserM M Span := read fun s => ⟨s.scanner.startPosition, s.scanner.position⟩

/-- The span after `FinishSyntax`: up to the end of the token just taken. -/
def finishSpan (span : Span) : ParserM M Span :=
  read fun s => ⟨span.start, s.scanner.startPosition + s.scanner.length⟩

def createName (identifier : Ustring) : ParserM M Name := do
  let span ← createSpan
  return { span, identifier }

def typeNode (id : TypeId) : ParserM M TypeNode := deref fun s => s.pool.types[id]?

def modifyType (id : TypeId) (f : TypeNode → TypeNode) : ParserM M Unit :=
  update fun s => { s with pool := { s.pool with types := s.pool.types.modify id f } }

def createType (node : TypeNode) : ParserM M TypeId := do
  let id ← read fun s => s.pool.types.length
  update fun s => { s with pool := { s.pool with types := s.pool.types ++ [node] } }
  return id

def declaration (id : DeclarationId) : ParserM M Declaration :=
  deref fun s => s.pool.declarations[id]?

def createDeclaration (d : Declaration) : ParserM M DeclarationId := do
  let id ← read fun s => s.pool.declarations.length
  update fun s => { s with pool := { s.pool with declarations := s.pool.declarations ++ [d] } }
  return id

def setDeclaration (id : DeclarationId) (d : Declaration) : ParserM M Unit :=
  update fun s => { s with pool := { s.pool with declarations := s.pool.declarations.set id d } }

/-! ## Texts of types and values -/

/-- The name in `get_type_name`; that of a named type is read without a check. -/
def typeNameText (type : TypeNode) : ParserM M Ustring := do
  match type.type with
  | .boolean => return "Boolean".toList
  | .int => return "Int".toList
  | .float => return "Float".toList
  | .string => return "String".toList
  | .id => return "ID".toList
  | .object | .enum =>
    let name ← follow type.name
    return name.identifier
  | .none | .interface | .union => throwException

def getTypeName (type : TypeNode) : ParserM M Ustring := do
  let name ← typeNameText type
  return (if type.isListType then ['['] else []) ++ name ++
    (if type.isNonNull then ['!'] else []) ++ (if type.isListType then [']'] else []) ++
    (if type.isNonNullList then ['!'] else [])

end ParserM

/-- The text of an integer. -/
def intString (n : Int) : Ustring := (toString n).toList

mutual

/-- `get_value_string`. The text after the last element is taken back by `restore`, which throws
when nothing was saved; the object case runs on into the exception of the default case. -/
def getValueString : Value → Option Ustring
  | .null _ => some "null".toList
  | .boolean _ b => some (if b then "true".toList else "false".toList)
  | .int _ n => some (intString n)
  | .float _ t => some t
  | .enum _ t => some t
  | .string _ t => some t
  | .list _ .listValue vs =>
    match getValueStrings vs with
    | some t => if vs.isEmpty then none else some (['['] ++ t ++ [']'])
    | none => none
  | .list _ _ _ => none
  | .object _ _ => none

/-- The texts of the elements of a list, separated by commas. -/
def getValueStrings : List Value → Option Ustring
  | [] => some []
  | v :: vs =>
    match getValueString v, getValueStrings vs with
    | some t, some ts => some (if vs.isEmpty then t else t ++ [',', ' '] ++ ts)
    | _, _ => none

end

end Flashpoint
