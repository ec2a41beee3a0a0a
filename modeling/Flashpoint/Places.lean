import Flashpoint.Syntaxes

/-!
# Nodes without their places

The part of the source that a node covers says where something is written, not what: `unplaced` leaves
it out of a node and of all nodes below it.
-/

namespace Flashpoint

open Library

/-- The place of a node that has none. -/
def Span.nowhere : Span := ⟨0, 0⟩

def Name.unplaced (n : Name) : Name := ⟨.nowhere, n.identifier⟩

/-! ## Values and directives -/

mutual

def Value.unplaced : Value → Value
  | .null _ => .null .nowhere
  | .boolean _ b => .boolean .nowhere b
  | .int _ n => .int .nowhere n
  | .float _ t => .float .nowhere t
  | .enum _ t => .enum .nowhere t
  | .string _ t => .string .nowhere t
  | .list _ kind values => .list .nowhere kind (unplacedValues values)
  | .object _ fields => .object .nowhere (unplacedFields fields)

def ObjectField.unplaced : ObjectField → ObjectField
  | .mk _ name value => .mk .nowhere name.unplaced (unplacedValue? value)

def unplacedValue? : Option Value → Option Value
  | none => none
  | some value => some value.unplaced

def unplacedValues : List Value → List Value
  | [] => []
  | value :: values => value.unplaced :: unplacedValues values

def unplacedFields : List ObjectField → List ObjectField
  | [] => []
  | field :: fields => field.unplaced :: unplacedFields fields

end

theorem unplacedValue?_eq_map (value : Option Value) : unplacedValue? value = value.map Value.unplaced := by
  cases value <;> rfl

theorem unplacedValues_eq_map (values : List Value) :
    unplacedValues values = values.map Value.unplaced := by
  induction values with
  | nil => rfl
  | cons value values ih => rw [unplacedValues, ih, List.map_cons]

theorem unplacedFields_eq_map (fields : List ObjectField) :
    unplacedFields fields = fields.map ObjectField.unplaced := by
  induction fields with
  | nil => rfl
  | cons field fields ih => rw [unplacedFields, ih, List.map_cons]

theorem ObjectField.name_unplaced (field : ObjectField) : field.unplaced.name = field.name.unplaced := by
  cases field
  rfl

mutual

def Argument.unplaced : Argument → Argument
  | .mk _ name value directives =>
    .mk .nowhere name.unplaced (value.map Value.unplaced) (unplacedDirectives directives)

def Directive.unplaced : Directive → Directive
  | .mk _ name location parent arguments =>
    .mk .nowhere name.unplaced location (parent.map Name.unplaced) (unplacedArguments arguments)

def unplacedDirectives : List (Ustring × Directive) → List (Ustring × Directive)
  | [] => []
  | (key, directive) :: entries => (key, directive.unplaced) :: unplacedDirectives entries

def unplacedArguments : List (Ustring × Argument) → List (Ustring × Argument)
  | [] => []
  | (key, argument) :: entries => (key, argument.unplaced) :: unplacedArguments entries

end

theorem unplacedDirectives_eq_map (entries : List (Ustring × Directive)) :
    unplacedDirectives entries = entries.map (Prod.map id Directive.unplaced) := by
  induction entries with
  | nil => rfl
  | cons entry entries ih => rw [unplacedDirectives, ih, List.map_cons, Prod.map, id_eq]

theorem unplacedArguments_eq_map (entries : List (Ustring × Argument)) :
    unplacedArguments entries = entries.map (Prod.map id Argument.unplaced) := by
  induction entries with
  | nil => rfl
  | cons entry entries ih => rw [unplacedArguments, ih, List.map_cons, Prod.map, id_eq]

theorem Argument.name_unplaced (argument : Argument) :
    argument.unplaced.name = argument.name.unplaced := by
  cases argument
  rfl

theorem Directive.name_unplaced (directive : Directive) :
    directive.unplaced.name = directive.name.unplaced := by
  cases directive
  rfl

/-! ## Types -/

def TypeNode.unplaced (t : TypeNode) : TypeNode :=
  { t with
    span := .nowhere
    name := t.name.map Name.unplaced
    parentDirectiveDefinition := t.parentDirectiveDefinition.map Name.unplaced }

/-! ## Executable documents -/

mutual

def Selection.unplaced : Selection → Selection
  | .field _ fieldAlias name arguments directives selectionSet =>
    .field .nowhere (fieldAlias.map Name.unplaced) (name.map Name.unplaced)
      (arguments.map (SortedMap.map Argument.unplaced)) (directives.map Directive.unplaced)
      (unplacedSelectionSet? selectionSet)
  | .fragmentSpread _ name directives =>
    .fragmentSpread .nowhere name.unplaced (directives.map Directive.unplaced)
  | .inlineFragment _ directives selectionSet =>
    .inlineFragment .nowhere (directives.map Directive.unplaced) (unplacedSelectionSet? selectionSet)

def SelectionSet.unplaced : SelectionSet → SelectionSet
  | .mk _ selections => .mk .nowhere (unplacedSelections selections)

def unplacedSelectionSet? : Option SelectionSet → Option SelectionSet
  | none => none
  | some set => some set.unplaced

def unplacedSelections : List Selection → List Selection
  | [] => []
  | selection :: selections => selection.unplaced :: unplacedSelections selections

end

theorem unplacedSelectionSet?_eq_map (set : Option SelectionSet) :
    unplacedSelectionSet? set = set.map SelectionSet.unplaced := by
  cases set <;> rfl

theorem unplacedSelections_eq_map (selections : List Selection) :
    unplacedSelections selections = selections.map Selection.unplaced := by
  induction selections with
  | nil => rfl
  | cons selection selections ih => rw [unplacedSelections, ih, List.map_cons]

def VariableDefinition.unplaced (d : VariableDefinition) : VariableDefinition where
  span := .nowhere
  name := d.name.unplaced
  type := d.type
  defaultValue := d.defaultValue.map Value.unplaced

def VariableDefinitions.unplaced (d : VariableDefinitions) : VariableDefinitions where
  span := .nowhere
  variableDefinitions := d.variableDefinitions.map VariableDefinition.unplaced

def OperationDefinition.unplaced (d : OperationDefinition) : OperationDefinition where
  span := .nowhere
  operationType := d.operationType
  name := d.name.map Name.unplaced
  variableDefinitions := d.variableDefinitions.map VariableDefinitions.unplaced
  selectionSet := d.selectionSet.map SelectionSet.unplaced
  directives := d.directives.map Directive.unplaced

def FragmentDefinition.unplaced (d : FragmentDefinition) : FragmentDefinition where
  span := .nowhere
  name := d.name.unplaced
  type := d.type.map Name.unplaced
  directives := d.directives.map Directive.unplaced
  selectionSet := d.selectionSet.map SelectionSet.unplaced

/-- A document without places. Its diagnostics stay. -/
def ExecutableDefinition.unplaced (d : ExecutableDefinition) : ExecutableDefinition where
  span := .nowhere
  operationDefinitions := d.operationDefinitions.map OperationDefinition.unplaced
  fragmentDefinitions := d.fragmentDefinitions.map FragmentDefinition.unplaced
  diagnostics := d.diagnostics

end Flashpoint
