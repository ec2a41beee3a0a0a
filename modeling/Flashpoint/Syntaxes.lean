import Mathlib.Data.Finset.Insert
import Mathlib.Data.List.Lex
import Mathlib.Data.Char
import Flashpoint.Library.SortedMap
import Flashpoint.Scanner.Token

/-!
# Syntax nodes

The nodes the parsers build. A node that is reached through several pointers and changed after it
was built (`TypeNode`, the declarations behind the symbols) lives in the `Pool` and is named by its
index there; every other node is a value. A pointer that the constructor of its node leaves unset
is `none` until it is assigned.
-/

namespace Flashpoint

open Library

/-- `std::map<Glib::ustring, V>`. -/
abbrev UstringMap (V : Type) := SortedMap Ustring V

/-- `std::set<Glib::ustring>`. -/
abbrev UstringSet := SortedMap Ustring Unit

/-- The part of the source a node covers. -/
structure Span where
  start : Nat
  stop : Nat
deriving DecidableEq, Repr

structure Name where
  span : Span
  identifier : Ustring
deriving DecidableEq, Repr

/-! ## Values and directives -/

/-- The kinds a value node may carry. -/
inductive ValueKind where
  | nullValue | booleanValue | intValue | floatValue | enumValue | stringValue | objectValue
  | listValue
deriving DecidableEq, Repr

mutual

/-- A value literal. A float keeps the text `atof` reads. A list carries its kind: the two parsers
do not give it the same one. -/
inductive Value where
  | null (span : Span)
  | boolean (span : Span) (value : Bool)
  | int (span : Span) (value : Int)
  | float (span : Span) (string : Ustring)
  | enum (span : Span) (value : Ustring)
  | string (span : Span) (value : Ustring)
  | list (span : Span) (kind : ValueKind) (values : List Value)
  | object (span : Span) (objectFields : List ObjectField)

/-- A field of an object literal; its value is missing where `parse_value` gave none. -/
inductive ObjectField where
  | mk (span : Span) (name : Name) (value : Option Value)

end

namespace Value

def span : Value → Span
  | .null sp | .boolean sp _ | .int sp _ | .float sp _ | .enum sp _ | .string sp _
  | .list sp _ _ | .object sp _ => sp

def kind : Value → ValueKind
  | .null _ => .nullValue
  | .boolean _ _ => .booleanValue
  | .int _ _ => .intValue
  | .float _ _ => .floatValue
  | .enum _ _ => .enumValue
  | .string _ _ => .stringValue
  | .list _ kind _ => kind
  | .object _ _ => .objectValue

end Value

namespace ObjectField

def span : ObjectField → Span
  | .mk sp _ _ => sp

def name : ObjectField → Name
  | .mk _ n _ => n

def value : ObjectField → Option Value
  | .mk _ _ v => v

end ObjectField

mutual

/-- An argument of a field or a directive. -/
inductive Argument where
  | mk (span : Span) (name : Name) (value : Option Value)
    (directives : List (Ustring × Directive))

/-- A directive as it is used: where, with which arguments (the entries of a map), and the name of
the directive definition whose own arguments it annotates, if any. -/
inductive Directive where
  | mk (span : Span) (name : Name) (location : DirectiveLocation)
    (parentDirectiveDefinition : Option Name) (arguments : List (Ustring × Argument))

end

namespace Argument

def name : Argument → Name
  | .mk _ n _ _ => n

def value : Argument → Option Value
  | .mk _ _ v _ => v

def directives : Argument → List (Ustring × Directive)
  | .mk _ _ _ ds => ds

end Argument

namespace Directive

def span : Directive → Span
  | .mk sp _ _ _ _ => sp

def name : Directive → Name
  | .mk _ n _ _ _ => n

def location : Directive → DirectiveLocation
  | .mk _ _ l _ _ => l

def parentDirectiveDefinition : Directive → Option Name
  | .mk _ _ _ p _ => p

def arguments : Directive → List (Ustring × Argument)
  | .mk _ _ _ _ as => as

end Directive

/-! ## Types -/

inductive TypeEnum where
  | none | int | string | float | boolean | id | enum | object | interface | union
deriving DecidableEq, Repr

namespace TypeEnum

/-- `T_StringType` -/
def isStringType (t : TypeEnum) : Bool := t = .string || t = .id

/-- `T_IntegerType` -/
def isIntegerType (t : TypeEnum) : Bool := t = .int || t = .id

/-- `T_ObjectType` -/
def isObjectType (t : TypeEnum) : Bool := t = .object || t = .union || t = .interface

/-- `T_SymbolicType` -/
def isSymbolicType (t : TypeEnum) : Bool := t = .enum || t = .object

end TypeEnum

/-- A use of a type. The members the constructor leaves unset start at zero. -/
structure TypeNode where
  span : Span
  type : TypeEnum := .none
  isNonNull : Bool := false
  isListType : Bool := false
  isNonNullList : Bool := false
  inInputLocation : Bool := false
  name : Option Name := none
  parentDirectiveDefinition : Option Name := none
deriving DecidableEq, Repr

/-- The index of a `TypeNode` in the pool. -/
abbrev TypeId := Nat

/-- The index of a `Declaration` in the pool. -/
abbrev DeclarationId := Nat

/-! ## Declarations -/

structure InputValueDefinition where
  span : Span
  name : Name
  description : Ustring := []
  type : Option TypeId := none
  directives : UstringMap Directive := ∅

structure FieldDefinition where
  span : Span
  name : Name
  description : Ustring := []
  type : TypeId
  arguments : UstringMap InputValueDefinition := ∅
  directives : UstringMap Directive := ∅

structure InputFieldDefinition where
  span : Span
  name : Name
  description : Ustring := []
  type : TypeId
  directives : UstringMap Directive := ∅

structure EnumValueDefinition where
  name : Name
  description : Ustring := []
  directives : UstringMap Directive := ∅

structure Object where
  span : Span
  name : Option Name := none
  description : Ustring := []
  fields : Option (UstringMap FieldDefinition) := none
  directives : UstringMap Directive := ∅
  implementations : Option (UstringMap Name) := none

structure Interface where
  span : Span
  name : Option Name := none
  description : Ustring := []
  fields : Option (UstringMap FieldDefinition) := none
  directives : UstringMap Directive := ∅

structure InputObject where
  span : Span
  name : Option Name := none
  description : Ustring := []
  fields : Option (UstringMap InputFieldDefinition) := none
  requiredFields : List Ustring := []
  directives : UstringMap Directive := ∅

structure EnumTypeDefinition where
  span : Span
  name : Name
  description : Ustring := []
  values : UstringMap EnumValueDefinition := ∅
  directives : UstringMap Directive := ∅

structure UnionTypeDefinition where
  span : Span
  name : Name
  description : Ustring := []
  members : UstringMap Name := ∅
  directives : UstringMap Directive := ∅

/-- The declarations a symbol may stand for. -/
inductive Declaration where
  | object (o : Object)
  | interface (i : Interface)
  | inputObject (o : InputObject)
  | enum (e : EnumTypeDefinition)
  | union (u : UnionTypeDefinition)

inductive SymbolKind where
  | inputObject | object | interface | enum | union
deriving DecidableEq, Repr

namespace SymbolKind

/-- `SymbolKind::Input` -/
def isInput (k : SymbolKind) : Bool := k = .enum || k = .inputObject

/-- `SymbolKind::Output` -/
def isOutput (k : SymbolKind) : Bool := k = .object || k = .interface || k = .enum || k = .union

end SymbolKind

namespace Declaration

def name : Declaration → Option Name
  | .object o => o.name
  | .interface i => i.name
  | .inputObject o => o.name
  | .enum e => some e.name
  | .union u => some u.name

/-- The kind of symbol the declaration is registered as. -/
def kind : Declaration → SymbolKind
  | .object _ => .object
  | .interface _ => .interface
  | .inputObject _ => .inputObject
  | .enum _ => .enum
  | .union _ => .union

/-- The field map an `ObjectLike` carries; the other declarations have none to read. -/
def objectFields? : Declaration → Option (UstringMap FieldDefinition)
  | .object o => o.fields
  | .interface i => i.fields
  | _ => none

end Declaration

structure Symbol where
  name : Ustring
  declaration : DeclarationId
  kind : SymbolKind
deriving DecidableEq, Repr

structure DirectiveDefinition where
  span : Span
  name : Name
  description : Ustring := []
  arguments : UstringMap InputValueDefinition := ∅
  locations : Finset DirectiveLocation := ∅

/-- A `schema` block. The keys are kept to report a root type that is given twice. -/
structure Schema where
  span : Span
  directives : UstringMap Directive := ∅
  query : Option Name := none
  mutation : Option Name := none
  subscription : Option Name := none
  queryKey : Option Name := none
  mutationKey : Option Name := none
  subscriptionKey : Option Name := none

/-- A top-level definition of a schema document. -/
inductive Definition where
  | declaration (id : DeclarationId)
  | directiveDefinition (d : DirectiveDefinition)
  | schema (s : Schema)

/-! ## Executable documents -/

mutual

inductive Selection where
  | field (span : Span) (fieldAlias name : Option Name) (arguments : Option (UstringMap Argument))
    (directives : UstringMap Directive) (selectionSet : Option SelectionSet)
  | fragmentSpread (span : Span) (name : Name) (directives : UstringMap Directive)
  | inlineFragment (span : Span) (directives : UstringMap Directive)
    (selectionSet : Option SelectionSet)

inductive SelectionSet where
  | mk (span : Span) (selections : List Selection)

end

def SelectionSet.selections : SelectionSet → List Selection
  | .mk _ ss => ss

structure VariableDefinition where
  span : Span
  name : Name
  type : TypeId
  defaultValue : Option Value := none

structure VariableDefinitions where
  span : Span
  variableDefinitions : List VariableDefinition := []

inductive OperationType where
  | query | mutation | subscription
deriving DecidableEq, Repr

structure OperationDefinition where
  span : Span
  operationType : OperationType
  name : Option Name := none
  variableDefinitions : Option VariableDefinitions := none
  selectionSet : Option SelectionSet := none
  directives : UstringMap Directive := ∅

structure FragmentDefinition where
  span : Span
  name : Name
  type : Option Name := none
  directives : UstringMap Directive := ∅
  selectionSet : Option SelectionSet := none

structure ExecutableDefinition where
  span : Span
  operationDefinitions : List OperationDefinition := []
  fragmentDefinitions : List FragmentDefinition := []
  diagnostics : List DiagnosticMessage := []

/-! ## The pool -/

/-- The nodes that are shared and changed in place. -/
structure Pool where
  types : List TypeNode := []
  declarations : List Declaration := []

end Flashpoint
