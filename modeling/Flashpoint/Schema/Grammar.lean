import Flashpoint.Grammar
import Flashpoint.Schema.Tables
import Flashpoint.Scanner.Blocks
import Flashpoint.Scanner.DirectiveLocations

/-!
# The grammar of schemas

What a schema reads as. The nodes that the pool holds are looked up there: the relations of types have the
type nodes as a parameter, those of definitions the pool. The grammar is the one the parser has, which is
laxer than that of the language in places: whatever is no closing parenthesis passes for the name of an
argument, the end of the document closes a schema block, the first location may be missing at the end of the text,
and a union whose members end in something else than a definition is dropped with the block after it.
-/

namespace Flashpoint

open Library

namespace GraphQlSchema

def valueReader : ValueReader := ⟨.listValue, true⟩

/-! ## Arguments and directives -/

/-- The arguments after an opening parenthesis and the closing one; no two have the same name. -/
inductive ArgumentsAt : List Lexeme → List Argument → List Lexeme → Prop
  | close {l y} (h : l.token = .closeParen) : ArgumentsAt (l :: y) [] y
  | cons {l c x y z span nameSpan value arguments} (hother : l.token ≠ .closeParen)
      (hcolon : c.token = .colon) (hvalue : OptionalValueAt valueReader x value y)
      (harguments : ArgumentsAt y arguments z)
      (hnew : ∀ argument ∈ arguments, argument.name.identifier ≠ l.value) :
      ArgumentsAt (l :: c :: x) (.mk span ⟨nameSpan, l.value⟩ value [] :: arguments) z

/-- A list of arguments in parentheses, or none. -/
inductive OptionalArgumentsAt : List Lexeme → List Argument → List Lexeme → Prop
  | none {x} (h : NotAhead .openParen x) : OptionalArgumentsAt x [] x
  | some {l x y arguments} (hopen : l.token = .openParen) (harguments : ArgumentsAt x arguments y) :
      OptionalArgumentsAt (l :: x) arguments y

/-- The directives at a place, all that there are; no two have the same name. -/
inductive DirectivesAt (location : DirectiveLocation) (parent : Option Name) :
    List Lexeme → List Directive → List Lexeme → Prop
  | nil {x} (h : NotAhead .atSign x) : DirectivesAt location parent x [] x
  | cons {l n x y z span nameSpan arguments directives} (hat : l.token = .atSign)
      (hname : n.asName = .gName) (htight : n.tight = true)
      (harguments : OptionalArgumentsAt x arguments y)
      (hdirectives : DirectivesAt location parent y directives z)
      (hnew : ∀ directive ∈ directives, directive.name.identifier ≠ n.value) :
      DirectivesAt location parent (l :: n :: x) (.mk span ⟨nameSpan, n.value⟩ location parent
        (argumentsByName arguments).entries :: directives) z

/-! ## Types and declared arguments -/

/-- The node has the type that a lexeme names. What is named is an object or, once it was looked up, an
enum. -/
structure NamesType (l : Lexeme) (t : TypeNode) : Prop where
  type : ∃ type, typeOfToken l.token = some type ∧ (t.type = type ∨ type = .object ∧ t.type = .enum)
  name : t.name.map (·.identifier) = if l.token = .gName then some l.value else none

section Types

variable (types : List TypeNode)

/-- A type: what it names, and whether that and the list of it are non-null. -/
inductive TypeAt (inInputLocation : Bool) (parent : Option Name) :
    List Lexeme → TypeId → List Lexeme → Prop
  | element {l x y id t} (hnode : types[id]? = some t) (hname : NamesType l t)
      (hmark : MarkAt .exclamation x t.isNonNull y) (hlist : t.isListType = false)
      (hnonNullList : t.isNonNullList = false) (hlocation : t.inInputLocation = inInputLocation)
      (hparent : t.parentDirectiveDefinition = parent) : TypeAt inInputLocation parent (l :: x) id y
  | list {o l x c y z id t} (hopen : o.token = .openBracket) (hnode : types[id]? = some t)
      (hname : NamesType l t) (hmark : MarkAt .exclamation x t.isNonNull (c :: y))
      (hclose : c.token = .closeBracket) (hmarkList : MarkAt .exclamation y t.isNonNullList z)
      (hlist : t.isListType = true) (hlocation : t.inInputLocation = inInputLocation)
      (hparent : t.parentDirectiveDefinition = parent) :
      TypeAt inInputLocation parent (o :: l :: x) id z

/-- The declared arguments after an opening parenthesis and the closing one. The descriptions are left
open: one that is not given may be that of the definition around. -/
inductive ArgumentsDefinitionAt (parent : Option Name) :
    List Lexeme → List InputValueDefinition → List Lexeme → Prop
  | close {l y} (h : l.token = .closeParen) : ArgumentsDefinitionAt parent (l :: y) [] y
  | description {l x y arguments} (h : l.token = .gStringValue)
      (harguments : ArgumentsDefinitionAt parent x arguments y) :
      ArgumentsDefinitionAt parent (l :: x) arguments y
  | cons {l c x y z w span nameSpan description type directives arguments} (hname : l.asName = .gName)
      (hcolon : c.token = .colon) (htype : TypeAt types true parent x type y)
      (hdirectives : DirectivesAt .argumentDefinition parent y directives z)
      (harguments : ArgumentsDefinitionAt parent z arguments w)
      (hnew : ∀ argument ∈ arguments, argument.name.identifier ≠ l.value) :
      ArgumentsDefinitionAt parent (l :: c :: x)
        ({ span, name := ⟨nameSpan, l.value⟩, description, type := some type,
           directives := directivesByName directives } :: arguments) w

/-- A list of declared arguments in parentheses, or none. -/
inductive OptionalArgumentsDefinitionAt (parent : Option Name) :
    List Lexeme → List InputValueDefinition → List Lexeme → Prop
  | none {x} (h : NotAhead .openParen x) : OptionalArgumentsDefinitionAt parent x [] x
  | some {l x y arguments} (hopen : l.token = .openParen)
      (harguments : ArgumentsDefinitionAt types parent x arguments y) :
      OptionalArgumentsDefinitionAt parent (l :: x) arguments y

/-! ## Fields -/

/-- The declared arguments that are kept: the first one of each name. -/
def declaredByName (arguments : List InputValueDefinition) : UstringMap InputValueDefinition :=
  SortedMap.byKey (·.name.identifier) arguments

/-- The fields after an opening brace and the closing one, with the description that stands before. -/
inductive FieldsAt : Ustring → List Lexeme → List FieldDefinition → List Lexeme → Prop
  | close {description l y} (h : l.token = .closeBrace) : FieldsAt description (l :: y) [] y
  | description {description l x y fields} (h : l.token = .gStringValue)
      (hfields : FieldsAt l.string x fields y) : FieldsAt description (l :: x) fields y
  | cons {description l x c y z w v span nameSpan arguments type directives fields}
      (hname : l.asName = .gName)
      (harguments : OptionalArgumentsDefinitionAt types none x arguments (c :: y))
      (hcolon : c.token = .colon) (htype : TypeAt types false none y type z)
      (hdirectives : DirectivesAt .fieldDefinition none z directives w)
      (hfields : FieldsAt [] w fields v)
      (hnew : ∀ field ∈ fields, field.name.identifier ≠ l.value) :
      FieldsAt description (l :: x)
        ({ span, name := ⟨nameSpan, l.value⟩, description, type, arguments := declaredByName arguments,
           directives := directivesByName directives } :: fields) v

/-- The fields of an input object. A description is passed over, and a name may come again. -/
inductive InputFieldsAt : List Lexeme → List InputFieldDefinition → List Lexeme → Prop
  | close {l y} (h : l.token = .closeBrace) : InputFieldsAt (l :: y) [] y
  | description {l x y fields} (h : l.token = .gStringValue) (hfields : InputFieldsAt x fields y) :
      InputFieldsAt (l :: x) fields y
  | cons {l c x y z w span nameSpan type directives fields} (hname : l.asName = .gName)
      (hcolon : c.token = .colon) (htype : TypeAt types true none x type y)
      (hdirectives : DirectivesAt .inputFieldDefinition none y directives z)
      (hfields : InputFieldsAt z fields w) :
      InputFieldsAt (l :: c :: x)
        ({ span, name := ⟨nameSpan, l.value⟩, type, directives := directivesByName directives } :: fields) w

/-- The names of the fields whose type is non-null, or a list that is. -/
def requiredNames (fields : List InputFieldDefinition) : List Ustring :=
  (fields.filter fun field =>
    types[field.type]?.any fun t => t.isNonNull || t.isNonNullList).map (·.name.identifier)

end Types

def fieldsByName (fields : List FieldDefinition) : UstringMap FieldDefinition :=
  SortedMap.byKey (·.name.identifier) fields

def inputFieldsByName (fields : List InputFieldDefinition) : UstringMap InputFieldDefinition :=
  SortedMap.byKey (·.name.identifier) fields

/-! ## The parts of definitions -/

/-- The interfaces of an object and the opening brace. -/
inductive ImplementationsAt : List Lexeme → List Name → List Lexeme → Prop
  | last {l b y span} (hname : l.token = .gName) (hopen : b.token = .openBrace) :
      ImplementationsAt (l :: b :: y) [⟨span, l.value⟩] y
  | cons {l a x y span names} (hname : l.token = .gName) (hampersand : a.token = .ampersand)
      (hnames : ImplementationsAt x names y) :
      ImplementationsAt (l :: a :: x) (⟨span, l.value⟩ :: names) y

def namesByName (names : List Name) : UstringMap Name := SortedMap.byKey (·.identifier) names

/-- The values of an enum and the closing brace. A description is passed over, and a value may come
again. -/
inductive EnumValuesAt : List Lexeme → List EnumValueDefinition → List Lexeme → Prop
  | close {l y} (h : l.token = .closeBrace) : EnumValuesAt (l :: y) [] y
  | description {l x y values} (h : l.token = .gStringValue) (hvalues : EnumValuesAt x values y) :
      EnumValuesAt (l :: x) values y
  | cons {l x y z span directives values} (hvalue : isValidEnumValue l.token = true)
      (hdirectives : DirectivesAt .enumValue none x directives y) (hvalues : EnumValuesAt y values z) :
      EnumValuesAt (l :: x)
        ({ name := ⟨span, l.value⟩, directives := directivesByName directives } :: values) z

def valuesByName (values : List EnumValueDefinition) : UstringMap EnumValueDefinition :=
  SortedMap.byKey (·.name.identifier) values

/-- The members of a union after the first. -/
inductive MembersAt : List Lexeme → List Name → List Lexeme → Prop
  | nil {x} (h : NotAhead .pipe x) : MembersAt x [] x
  | cons {p n x y span names} (hpipe : p.token = .pipe) (hname : n.token = .gName)
      (hnames : MembersAt x names y) : MembersAt (p :: n :: x) (⟨span, n.value⟩ :: names) y

/-- A union after its keyword. -/
inductive UnionAt : List Lexeme → Name → List Directive → List Name → List Lexeme → Prop
  | mk {l e n x y z w span memberSpan directives names isPiped} (hname : l.token = .gName)
      (hdirectives : DirectivesAt .union none x directives (e :: y)) (hequal : e.token = .equal)
      (hpipe : MarkAt .pipe y isPiped (n :: z)) (hmember : n.token = .gName)
      (hnames : MembersAt z names w) :
      UnionAt (l :: x) ⟨span, l.value⟩ directives (⟨memberSpan, n.value⟩ :: names) w

/-- A location: the one that a word spells, or, where no name starts in all that is left, the end of the
document. -/
inductive LocationAt : List Lexeme → DirectiveLocation → List Lexeme → Prop
  | word {l y} (hword : GraphQlScanner.isWord l.token = true) :
      LocationAt (l :: y) (getDirectiveFromValue l.value.length l.value) y
  | none {x} : LocationAt x .endOfDocument []

/-- The text goes on with a definition, or is at its end. -/
def StartsDefinition : List Lexeme → Prop
  | [] => True
  | l :: _ => tokenIsPrimary l.token = true

/-- The locations of a directive after the first. -/
inductive LocationsAt : List Lexeme → List DirectiveLocation → List Lexeme → Prop
  | nil {x} (h : StartsDefinition x) : LocationsAt x [] x
  | cons {p x location y locations z} (hpipe : p.token = .pipe) (hlocation : LocationAt x location y)
      (hunknown : location ≠ .unknown) (hend : location ≠ .endOfDocument)
      (hlocations : LocationsAt y locations z) : LocationsAt (p :: x) (location :: locations) z

/-- A root type of a schema block: which it is, its keyword, and its name. -/
abbrev RootField := OperationType × Name × Name

/-- The root types of a schema block and the closing brace, or the end of the document. -/
inductive RootFieldsAt : List Lexeme → List RootField → List Lexeme → Prop
  | close {l y} (h : l.token = .closeBrace) : RootFieldsAt (l :: y) [] y
  | nil : RootFieldsAt [] [] []
  | cons {l c n x y root span nameSpan fields} (hroot : rootOfToken l.token = some root)
      (hcolon : c.token = .colon) (hname : n.token = .gName) (hfields : RootFieldsAt x fields y)
      (hnew : ∀ field ∈ fields, field.1 ≠ root) :
      RootFieldsAt (l :: c :: n :: x)
        ((root, ⟨span, rootText root⟩, ⟨nameSpan, n.value⟩) :: fields) y

def addRootField (schema : Schema) (field : RootField) : Schema :=
  setSchemaRoot schema field.1 field.2.1 (some field.2.2)

/-! ## Definitions -/

section Definitions

variable (pool : Pool)

/-- A definition from its keyword on, after the description that stands before. The node of a
declaration is the one in the pool. -/
inductive DefinitionAt (description : Ustring) : List Lexeme → Definition → List Lexeme → Prop
  | object {k n x directives b y fields z span nameSpan id} (hkeyword : k.token = .typeKeyword)
      (hname : n.asName = .gName) (hdirectives : DirectivesAt .object none x directives (b :: y))
      (hopen : b.token = .openBrace) (hfields : FieldsAt pool.types [] y fields z) (hne : fields ≠ [])
      (hnode : pool.declarations[id]? = some (.object
        { span, name := some ⟨nameSpan, n.value⟩, description, fields := some (fieldsByName fields),
          directives := directivesByName directives })) :
      DefinitionAt description (k :: n :: x) (.declaration id) z
  | implementing {k n x directives i y names z fields w span nameSpan id}
      (hkeyword : k.token = .typeKeyword) (hname : n.asName = .gName)
      (hdirectives : DirectivesAt .object none x directives (i :: y))
      (himplements : i.token = .implementsKeyword) (hnames : ImplementationsAt y names z)
      (hfields : FieldsAt pool.types [] z fields w) (hne : fields ≠ [])
      (hnode : pool.declarations[id]? = some (.object
        { span, name := some ⟨nameSpan, n.value⟩, description, fields := some (fieldsByName fields),
          directives := directivesByName directives, implementations := some (namesByName names) })) :
      DefinitionAt description (k :: n :: x) (.declaration id) w
  | interface {k n x directives b y fields z span nameSpan id} (hkeyword : k.token = .interfaceKeyword)
      (hname : n.asName = .gName) (hdirectives : DirectivesAt .interface none x directives (b :: y))
      (hopen : b.token = .openBrace) (hfields : FieldsAt pool.types [] y fields z) (hne : fields ≠ [])
      (hnode : pool.declarations[id]? = some (.interface
        { span, name := some ⟨nameSpan, n.value⟩, description, fields := some (fieldsByName fields),
          directives := directivesByName directives })) :
      DefinitionAt description (k :: n :: x) (.declaration id) z
  | inputObject {k n x directives b y fields z span nameSpan id} (hkeyword : k.token = .inputKeyword)
      (hname : n.token = .gName) (hdirectives : DirectivesAt .inputObject none x directives (b :: y))
      (hopen : b.token = .openBrace) (hfields : InputFieldsAt pool.types y fields z) (hne : fields ≠ [])
      (hnode : pool.declarations[id]? = some (.inputObject
        { span, name := some ⟨nameSpan, n.value⟩, description, fields := some (inputFieldsByName fields),
          requiredFields := requiredNames pool.types fields,
          directives := directivesByName directives })) :
      DefinitionAt description (k :: n :: x) (.declaration id) z
  | enum {k n x directives b y values z span nameSpan id} (hkeyword : k.token = .enumKeyword)
      (hname : n.token = .gName) (hdirectives : DirectivesAt .enum none x directives (b :: y))
      (hopen : b.token = .openBrace) (hvalues : EnumValuesAt y values z) (hne : values ≠ [])
      (hnode : pool.declarations[id]? = some (.enum
        { span, name := ⟨nameSpan, n.value⟩, values := valuesByName values,
          directives := directivesByName directives })) :
      DefinitionAt description (k :: n :: x) (.declaration id) z
  | union {k x name directives names y span id} (hkeyword : k.token = .unionKeyword)
      (hunion : UnionAt x name directives names y) (hend : StartsDefinition y)
      (hnode : pool.declarations[id]? = some (.union
        { span, name, members := namesByName names, directives := directivesByName directives })) :
      DefinitionAt description (k :: x) (.declaration id) y
  | directive {k a n x arguments o y isPiped z location w locations v span nameSpan}
      (hkeyword : k.token = .directiveKeyword) (hat : a.token = .atSign) (hname : n.asName = .gName)
      (htight : n.tight = true)
      (harguments :
        OptionalArgumentsDefinitionAt pool.types (some ⟨nameSpan, n.value⟩) x arguments (o :: y))
      (hon : o.token = .onKeyword) (hpipe : MarkAt .pipe y isPiped z)
      (hlocation : LocationAt z location w) (hunknown : location ≠ .unknown)
      (hlocations : LocationsAt w locations v) :
      DefinitionAt description (k :: a :: n :: x) (.directiveDefinition
        { span, name := ⟨nameSpan, n.value⟩, description, arguments := declaredByName arguments,
          locations := (location :: locations).toFinset }) v
  | schema {k x directives b y fields z span} (hkeyword : k.token = .schemaKeyword)
      (hdirectives : DirectivesAt .schema none x directives (b :: y)) (hopen : b.token = .openBrace)
      (hfields : RootFieldsAt y fields z) :
      DefinitionAt description (k :: x) (.schema
        (fields.foldl addRootField { span, directives := directivesByName directives })) z

/-- The keywords that definitions start with. -/
def definitionKeywords : List GraphQlToken :=
  [.directiveKeyword, .enumKeyword, .inputKeyword, .interfaceKeyword, .schemaKeyword, .typeKeyword,
    .unionKeyword]

/-- The definitions of a text, all of it, with the description that stands before. A union that runs into
something else than a definition is dropped, with all that follows up to the next keyword and with the
block after that. -/
inductive DefinitionsAt : Ustring → List Lexeme → List Definition → Prop
  | nil {description} : DefinitionsAt description [] []
  | description {description l x definitions} (h : l.token = .gStringValue)
      (hdefinitions : DefinitionsAt l.string x definitions) :
      DefinitionsAt description (l :: x) definitions
  | definition {description x definition y definitions}
      (hdefinition : DefinitionAt pool description x definition y)
      (hdefinitions : DefinitionsAt [] y definitions) :
      DefinitionsAt description x (definition :: definitions)
  | dropped {description k x name directives names l y definitions} (hkeyword : k.token = .unionKeyword)
      (hunion : UnionAt x name directives names (l :: y)) (hother : tokenIsPrimary l.token = false)
      (hdefinitions : DefinitionsAt []
        (GraphQlScanner.afterBlock (y.dropWhile fun l => l.token ∉ definitionKeywords)) definitions) :
      DefinitionsAt description (k :: x) definitions

/-! ## Tables -/

/-- A declaration that was defined: its name, its index and its node. -/
structure Entry where
  name : Name
  id : DeclarationId
  declaration : Declaration

/-- The declaration of a definition, if it is one. -/
def entry? : Definition → Option Entry
  | .declaration id => do
    let declaration ← pool.declarations[id]?
    let name ← declaration.name
    return { name, id, declaration }
  | _ => none

def directiveDefinition? : Definition → Option DirectiveDefinition
  | .directiveDefinition d => some d
  | _ => none

/-- The symbol of a declaration. -/
def Entry.symbol (entry : Entry) : Symbol :=
  ⟨entry.name.identifier, entry.id, entry.declaration.kind⟩

def entries (definitions : List Definition) : List Entry := definitions.filterMap ( entry? pool)

/-- The tables have what was defined, the first one of each name. -/
structure Tabulates (members : SchemaMembers) : Prop where
  symbols : members.symbols =
    SortedMap.byKey (·.name) ((entries pool members.definitions).map Entry.symbol)
  interfaces : members.interfaces =
    ((entries pool members.definitions).filter (·.declaration.kind = .interface)).foldl
      (fun m entry => m.emplace entry.name.identifier entry.id) ∅
  unions : members.unions =
    ((entries pool members.definitions).filter (·.declaration.kind = .union)).map (·.id)
  objectsWithImplementations : members.objectsWithImplementations =
    ((entries pool members.definitions).filter (·.declaration.implements)).map (·.id)
  directiveDefinitions : members.directiveDefinitions =
    SortedMap.byKey (·.name.identifier) (members.definitions.filterMap directiveDefinition?)

end Definitions

/-- The last schema block. -/
def lastSchema (definitions : List Definition) : Option Schema :=
  definitions.foldl schemaOf none

/-- The schema is what the text reads as: its definitions and their nodes, its tables, and its root
types. -/
structure ReadsAs (x : List Lexeme) (schema : GraphQlSchema) : Prop where
  definitions : DefinitionsAt schema.pool [] x schema.members.definitions
  tables : Tabulates schema.pool schema.members
  roots : RootsFrom schema.members.symbols (lastSchema schema.members.definitions) schema.members

end GraphQlSchema

end Flashpoint
