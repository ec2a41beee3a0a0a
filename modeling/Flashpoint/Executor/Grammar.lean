import Flashpoint.Executor.Execute
import Flashpoint.Grammar

/-!
# The grammar of queries

What a query reads as, said of its lexemes alone: each relation holds of the lexemes that are left, the
node they start with, and the lexemes after it. The places of nodes are left open. The grammar is the one
the parser has, which is laxer than that of the language in places: a closing bracket may stand for the
value of an argument or a field, an argument list ends with whatever is no name, and of the variables of
an operation only one is read.
-/

namespace Flashpoint

open Library

namespace GraphQlExecutor

def valueReader : ValueReader := ⟨.objectValue, false⟩

/-! ## Arguments and directives -/

mutual

/-- The arguments after an opening parenthesis and their end, which is whatever is no name. -/
inductive ArgumentsAt : List Lexeme → List Argument → List Lexeme → Prop
  | close {l y} (h : l.asName ≠ .gName) : ArgumentsAt (l :: y) [] y
  | cons {l c x y z w span nameSpan value directives arguments} (hname : l.asName = .gName)
      (hcolon : c.token = .colon) (hvalue : OptionalValueAt valueReader x value y)
      (hdirectives : DirectivesAt .argumentDefinition y directives z)
      (harguments : ArgumentsAt z arguments w) :
      ArgumentsAt (l :: c :: x) (.mk span ⟨nameSpan, l.value⟩ value
        (directivesByName directives).entries :: arguments) w

/-- The directives at a place, all that there are; no two have the same name. -/
inductive DirectivesAt : DirectiveLocation → List Lexeme → List Directive → List Lexeme → Prop
  | nil {location x} (h : NotAhead .atSign x) : DirectivesAt location x [] x
  | cons {location l n x y z span nameSpan arguments directives} (hat : l.token = .atSign)
      (hname : n.asName = .gName) (htight : n.tight = true)
      (harguments : OptionalArgumentsAt x arguments y)
      (hdirectives : DirectivesAt location y directives z)
      (hnew : ∀ directive ∈ directives, directive.name.identifier ≠ n.value) :
      DirectivesAt location (l :: n :: x) (.mk span ⟨nameSpan, n.value⟩ location none
        ((arguments.map argumentsByName).getD ∅).entries :: directives) z

/-- A list of arguments in parentheses, or none. -/
inductive OptionalArgumentsAt : List Lexeme → Option (List Argument) → List Lexeme → Prop
  | none {x} (h : NotAhead .openParen x) : OptionalArgumentsAt x none x
  | some {l x y arguments} (hopen : l.token = .openParen) (harguments : ArgumentsAt x arguments y) :
      OptionalArgumentsAt (l :: x) (some arguments) y

end

/-! ## Selections -/

/-- The name of a field, which may have an alias. The second name is no keyword. -/
inductive FieldNameAt : List Lexeme → Option Name → Name → List Lexeme → Prop
  | plain {l y span} (hname : l.asName = .gName) (hcolon : NotAhead .colon y) :
      FieldNameAt (l :: y) none ⟨span, l.value⟩ y
  | aliased {l c n y span aliasSpan} (halias : l.asName = .gName) (hcolon : c.token = .colon)
      (hname : n.token = .gName) :
      FieldNameAt (l :: c :: n :: y) (some ⟨aliasSpan, l.value⟩) ⟨span, n.value⟩ y

mutual

inductive SelectionAt : List Lexeme → Selection → List Lexeme → Prop
  | field {x y z w v span fieldAlias name arguments directives selectionSet}
      (hname : FieldNameAt x fieldAlias name y) (harguments : OptionalArgumentsAt y arguments z)
      (hdirectives : DirectivesAt .field z directives w)
      (hselections : OptionalSelectionSetAt w selectionSet v) :
      SelectionAt x (.field span fieldAlias (some name) (arguments.map argumentsByName)
        (directivesByName directives) selectionSet) v
  | fragmentSpread {l n x y span nameSpan directives} (hellipses : l.token = .ellipses)
      (hname : n.token = .gName) (hdirectives : DirectivesAt .fragmentSpread x directives y) :
      SelectionAt (l :: n :: x) (.fragmentSpread span ⟨nameSpan, n.value⟩
        (directivesByName directives)) y
  | inlineFragment {l o n x b y z span setSpan directives selections} (hellipses : l.token = .ellipses)
      (hon : o.token = .onKeyword) (hname : n.token = .gName)
      (hdirectives : DirectivesAt .inlineFragment x directives (b :: y)) (hopen : b.token = .openBrace)
      (hselections : SelectionsAt y selections z) :
      SelectionAt (l :: o :: n :: x) (.inlineFragment span (directivesByName directives)
        (some (.mk setSpan selections))) z

/-- The selections after an opening brace and the closing brace. -/
inductive SelectionsAt : List Lexeme → List Selection → List Lexeme → Prop
  | close {l y} (h : l.token = .closeBrace) : SelectionsAt (l :: y) [] y
  | cons {x y z selection selections} (hselection : SelectionAt x selection y)
      (hselections : SelectionsAt y selections z) : SelectionsAt x (selection :: selections) z

/-- A selection set, or none. -/
inductive OptionalSelectionSetAt : List Lexeme → Option SelectionSet → List Lexeme → Prop
  | none {x} (h : NotAhead .openBrace x) : OptionalSelectionSetAt x none x
  | some {l x y span selections} (hopen : l.token = .openBrace)
      (hselections : SelectionsAt x selections y) :
      OptionalSelectionSetAt (l :: x) (some (.mk span selections)) y

end

/-! ## Definitions -/

/-- The end of the type of a variable: a closing bracket for a list. -/
inductive ListEndAt : Bool → List Lexeme → List Lexeme → Prop
  | element {x} : ListEndAt false x x
  | list {l x y isNonNullList} (hclose : l.token = .closeBracket)
      (hmark : MarkAt .exclamation x isNonNullList y) : ListEndAt true (l :: x) y

/-- The type of a variable. Any token may stand for its name. -/
inductive VariableTypeAt : List Lexeme → List Lexeme → Prop
  | mk {x l y z w isListType isNonNull} (hlist : MarkAt .openBracket x isListType (l :: y))
      (hmark : MarkAt .exclamation y isNonNull z) (hend : ListEndAt isListType z w) :
      VariableTypeAt x w

/-- The variables after an opening parenthesis: none, with a token for the first name, or one. -/
inductive VariablesAt : List Lexeme → List Lexeme → Prop
  | none {l r y} (h : l.token ≠ .gName) (hclose : r.token = .closeParen) : VariablesAt (l :: r :: y) y
  | plain {l c x r y} (hname : l.token = .gName) (hcolon : c.token = .colon)
      (htype : VariableTypeAt x (r :: y)) (hclose : r.token = .closeParen) :
      VariablesAt (l :: c :: x) y
  | default {l c x e y value r z} (hname : l.token = .gName) (hcolon : c.token = .colon)
      (htype : VariableTypeAt x (e :: y)) (hequal : e.token = .equal)
      (hvalue : OptionalValueAt valueReader y value (r :: z)) (hclose : r.token = .closeParen) :
      VariablesAt (l :: c :: x) z

/-- The name of an operation and its variables. What is read of these is not kept. -/
inductive OperationHeadAt :
    List Lexeme → Option Name → Option VariableDefinitions → List Lexeme → Prop
  | anonymous {x} (h : ∀ l y, x = l :: y → l.asName ≠ .gName) : OperationHeadAt x none none x
  | named {l y span} (hname : l.asName = .gName) (hopen : NotAhead .openParen y) :
      OperationHeadAt (l :: y) (some ⟨span, l.value⟩) none y
  | withVariables {l o x y span variableSpan} (hname : l.asName = .gName) (hopen : o.token = .openParen)
      (hvariables : VariablesAt x y) :
      OperationHeadAt (l :: o :: x) (some ⟨span, l.value⟩)
        (some { span := variableSpan, variableDefinitions := [] }) y

def operationKeyword : OperationType → GraphQlToken
  | .query => .queryKeyword
  | .mutation => .mutationKeyword
  | .subscription => .subscriptionKeyword

inductive DefinitionAt : List Lexeme → PrimaryDefinition → List Lexeme → Prop
  | shorthand {l x y span setSpan selections} (hopen : l.token = .openBrace)
      (hselections : SelectionsAt x selections y) :
      DefinitionAt (l :: x) (.operation
        { span, operationType := .query, selectionSet := some (.mk setSpan selections) }) y
  | operation {operationType l x name variableDefinitions y directives b z w span setSpan selections}
      (hkeyword : l.token = operationKeyword operationType)
      (hhead : OperationHeadAt x name variableDefinitions y)
      (hdirectives : DirectivesAt (operationLocation operationType) y directives (b :: z))
      (hopen : b.token = .openBrace) (hselections : SelectionsAt z selections w) :
      DefinitionAt (l :: x) (.operation
        { span, operationType, name, variableDefinitions, directives := directivesByName directives,
          selectionSet := some (.mk setSpan selections) }) w
  | fragment {l n o t x directives b y z span nameSpan typeSpan setSpan selections}
      (hkeyword : l.token = .fragmentKeyword) (hname : n.token = .gName) (hon : o.token = .onKeyword)
      (htype : t.token = .gName) (hdirectives : DirectivesAt .fragmentDefinition x directives (b :: y))
      (hopen : b.token = .openBrace) (hselections : SelectionsAt y selections z) :
      DefinitionAt (l :: n :: o :: t :: x) (.fragment
        { span, name := ⟨nameSpan, n.value⟩, type := some ⟨typeSpan, t.value⟩,
          directives := directivesByName directives,
          selectionSet := some (.mk setSpan selections) }) z

/-- The definitions of a text, all of it. -/
inductive DefinitionsAt : List Lexeme → List PrimaryDefinition → Prop
  | nil : DefinitionsAt [] []
  | cons {x y definition definitions} (hdefinition : DefinitionAt x definition y)
      (hdefinitions : DefinitionsAt y definitions) : DefinitionsAt x (definition :: definitions)

def operation? : PrimaryDefinition → Option OperationDefinition
  | .operation d => some d
  | .fragment _ => none

def fragment? : PrimaryDefinition → Option FragmentDefinition
  | .operation _ => none
  | .fragment d => some d

/-- The document that a text reads as. -/
def DocumentAt (x : List Lexeme) (document : ExecutableDefinition) : Prop :=
  ∃ definitions, DefinitionsAt x definitions ∧
    document.operationDefinitions = definitions.filterMap operation? ∧
    document.fragmentDefinitions = definitions.filterMap fragment?

end GraphQlExecutor

end Flashpoint
