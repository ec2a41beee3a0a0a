import Flashpoint.Executor.Safety
import Flashpoint.Tokens

/-!
# Accepted queries are typed

A document is typed when every field is one of the declaration its selections are read against, a
field with selections is of an object, interface or union type, and a fragment is on an object that
fits where it is used. The executor looks a field up by its first name, which is the alias when there
is one. Where every alias that was looked up stands for a field of the same type as the name after
it, an accepted document is typed.
-/

namespace Flashpoint

open Library Climb

namespace GraphQlExecutor

open ParserM GraphQlSchema

/-! ## Typed documents -/

/-- The types whose fields can be selected. -/
def isComposite : Declaration → Bool
  | .object _ | .interface _ | .union _ => true
  | .inputObject _ | .enum _ => false

/-- The field of a declaration under a name. -/
def fieldNamed (d : Declaration) (name : Ustring) : Option FieldDefinition :=
  d.objectFields?.bind fun fields => fields.find? name

/-- An object may be used inside a declaration: it is the declaration, implements it or is a member
of it. -/
inductive FitsIn (o : Object) : Declaration → Prop where
  | same : FitsIn o (.object o)
  | implements {i : Interface} {name : Name} {names : UstringMap Name} (hname : i.name = some name)
      (himplementations : o.implementations = some names)
      (hmem : (names.find? name.identifier).isSome = true) : FitsIn o (.interface i)
  | member {u : UnionTypeDefinition} {name : Name} (hname : o.name = some name)
      (hmem : (u.members.find? name.identifier).isSome = true) : FitsIn o (.union u)

/-- The type condition of the inline fragment that is written from a position on. -/
def typeConditionAt (query : Ustring) (start : Nat) : Option Ustring :=
  let s : GraphQlScanner := { source := query, position := start }
  if s.lexeme.token = .ellipses ∧ s.afterLexeme.lexeme.token = .onKeyword ∧
      s.afterLexeme.afterLexeme.lexeme.token = .gName then
    some s.afterLexeme.afterLexeme.lexeme.value
  else none

section Typing

variable (schema : GraphQlSchema)

/-- The declaration a name stands for. -/
def declarationNamed (name : Ustring) : Option Declaration :=
  (schema.members.symbols.find? name).bind fun symbol =>
    schema.pool.declarations[symbol.declaration]?

/-- The name of the type of a field; a scalar type has none. -/
def typeNameOf (definition : FieldDefinition) : Option Ustring :=
  schema.pool.types[definition.type]?.bind fun type => type.name.map (·.identifier)

/-- The declaration that the type of a field names. -/
def typeOf (definition : FieldDefinition) : Option Declaration :=
  (typeNameOf schema definition).bind (declarationNamed schema)

/-- The object of a type condition, where it fits. -/
def ConditionFits (typeName : Ustring) (o : Object) (parent : Declaration) : Prop :=
  declarationNamed schema typeName = some (.object o) ∧ FitsIn o parent

variable (query : Ustring) (spread : Declaration → Name → Prop)

mutual

/-- A selection is typed inside a declaration; `spread` says which fragments may be spread there. -/
inductive SelectionTyped : Declaration → Selection → Prop where
  | leaf {parent : Declaration} {definition : FieldDefinition} {span fieldAlias arguments directives}
      {name : Name} (hfield : fieldNamed parent name.identifier = some definition) :
      SelectionTyped parent (.field span fieldAlias (some name) arguments directives none)
  | nested {parent type : Declaration} {definition : FieldDefinition}
      {span fieldAlias arguments directives} {name : Name} {set : SelectionSet}
      (hfield : fieldNamed parent name.identifier = some definition)
      (htype : typeOf schema definition = some type) (hcomposite : isComposite type = true)
      (hset : SetTyped type set) :
      SelectionTyped parent (.field span fieldAlias (some name) arguments directives (some set))
  | fragmentSpread {parent : Declaration} {span directives} {name : Name}
      (hspread : spread parent name) : SelectionTyped parent (.fragmentSpread span name directives)
  | inlineFragment {parent : Declaration} {span directives} {typeName : Ustring} {o : Object}
      {set : SelectionSet} (hcondition : typeConditionAt query span.start = some typeName)
      (hfits : ConditionFits schema typeName o parent) (hset : SetTyped (.object o) set) :
      SelectionTyped parent (.inlineFragment span directives (some set))

inductive SetTyped : Declaration → SelectionSet → Prop where
  | mk {parent : Declaration} {span : Span} {selections : List Selection}
      (h : ∀ selection ∈ selections, SelectionTyped parent selection) :
      SetTyped parent (.mk span selections)

end

/-- A fragment of the document may be spread inside a declaration. -/
def SpreadFits (fragments : List FragmentDefinition) (parent : Declaration) (name : Name) : Prop :=
  ∃ fragment typeName o,
    fragments.find? (fun f => name.identifier = f.name.identifier) = some fragment ∧
      fragment.type = some typeName ∧ ConditionFits schema typeName.identifier o parent

/-- The declaration the selections of an operation are read against. -/
def rootOf : OperationType → Option Declaration
  | .query => schema.members.query.bind (schema.pool.declarations[·]?)
  | .mutation => schema.members.mutation.bind (schema.pool.declarations[·]?)
  | .subscription => schema.members.subscription.bind (schema.pool.declarations[·]?)

/-- The definition is typed. -/
def DefinitionTyped : PrimaryDefinition → Prop
  | .operation d => ∃ root set, rootOf schema d.operationType = some root ∧
      d.selectionSet = some set ∧ SetTyped schema query spread root set
  | .fragment d => ∃ typeName o set, d.type = some typeName ∧
      declarationNamed schema typeName.identifier = some (.object o) ∧
      d.selectionSet = some set ∧ SetTyped schema query spread (.object o) set

/-- Every definition of the document is typed, with the fragments of the document. -/
structure TypeCorrect (document : ExecutableDefinition) : Prop where
  operations : ∀ d ∈ document.operationDefinitions, DefinitionTyped schema query
    (SpreadFits schema document.fragmentDefinitions) (.operation d)
  fragments : ∀ d ∈ document.fragmentDefinitions, DefinitionTyped schema query
    (SpreadFits schema document.fragmentDefinitions) (.fragment d)

/-- The field that a name stands for in the declaration on top of the stack. -/
def fieldAt (parent : Option DeclarationId) (name : Ustring) : Option FieldDefinition :=
  (parent.bind (schema.pool.declarations[·]?)).bind fun d => fieldNamed d name

/-- Whether a field that was looked up by its alias is there under its name, and of the same type
where selections follow. -/
def aliasFits : Step → Bool
  | .selectAlias parent fieldAlias name nested =>
    match fieldAt schema parent name with
    | none => false
    | some definition => !nested ||
        typeNameOf schema definition = (fieldAt schema parent fieldAlias).bind (typeNameOf schema)
  | _ => true

end Typing

mutual

theorem SelectionTyped.mono {schema : GraphQlSchema} {query : Ustring}
    {spread spread' : Declaration → Name → Prop} (hspread : ∀ d name, spread d name → spread' d name)
    {parent : Declaration} {selection : Selection} :
    SelectionTyped schema query spread parent selection →
      SelectionTyped schema query spread' parent selection
  | .leaf hfield => .leaf hfield
  | .nested hfield htype hcomposite hset => .nested hfield htype hcomposite (hset.mono hspread)
  | .fragmentSpread h => .fragmentSpread (hspread _ _ h)
  | .inlineFragment hcondition hfits hset => .inlineFragment hcondition hfits (hset.mono hspread)

theorem SetTyped.mono {schema : GraphQlSchema} {query : Ustring}
    {spread spread' : Declaration → Name → Prop} (hspread : ∀ d name, spread d name → spread' d name)
    {parent : Declaration} {set : SelectionSet} :
    SetTyped schema query spread parent set → SetTyped schema query spread' parent set
  | .mk h => .mk fun selection hmem => (h selection hmem).mono hspread

end

/-! ## States of a run -/

/-- A state of a run on the query, with the stack of its declarations. -/
structure Within (schema : GraphQlSchema) (query : Ustring) (stack : List (Option DeclarationId))
    (s : GraphQlExecutor) : Prop where
  follows : Follows False (addSchema schema query) s
  stack : s.members.currentObjectTypes = stack

/-- The declaration of a symbol. -/
def Declared (schema : GraphQlSchema) (id : DeclarationId) (d : Declaration) : Prop :=
  ∃ name symbol, schema.members.symbols.find? name = some symbol ∧ symbol.declaration = id ∧
    schema.pool.declarations[id]? = some d

/-- The spreads that are noted, to be checked when the document was read. -/
def Noted (schema : GraphQlSchema) (references : List (Name × Option DeclarationId))
    (d : Declaration) (name : Name) : Prop :=
  ∃ id, Declared schema id d ∧ (name, some id) ∈ references

section Runs

variable {schema : GraphQlSchema} {query : Ustring} {stack : List (Option DeclarationId)}
  {g : LowerSet GraphQlExecutor} {α β : Type}

theorem Follows.weaken {settled : Prop} {s s' : GraphQlExecutor} (h : Follows settled s s') :
    Follows False s s' :=
  { h with members := { h.members with stack := fun hfalse => absurd hfalse id } }

/-- What leaves the stack alone. -/
theorem ensures_settled {m : ExecutorM α} (h : Keeps (Follows True) m) :
    Ensures g (Within schema query stack) m fun _ => Within schema query stack := by
  intro s a s' hs hm
  have hfollows := h s a s' hm.1
  refine ⟨trans_of (Follows False) hs.follows hfollows.weaken, ?_⟩
  exact (hfollows.members.stack trivial).trans hs.stack

theorem ensures_pushObjectType {id : Option DeclarationId} :
    Ensures g (Within schema query stack) (pushObjectType id) fun _ =>
      Within schema query (id :: stack) := by
  intro s a s' hs hm
  refine ⟨trans_of (Follows False) hs.follows (keeps_pushObjectType s a s' hm.1), ?_⟩
  obtain ⟨-, rfl, -⟩ := ends_step.1 hm
  exact congrArg (id :: ·) hs.stack

theorem ensures_popObjectType {id : Option DeclarationId} :
    Ensures g (Within schema query (id :: stack)) popObjectType fun _ =>
      Within schema query stack := by
  intro s a s' hs hm
  refine ⟨trans_of (Follows False) hs.follows (keeps_popObjectType s a s' hm.1), ?_⟩
  obtain ⟨top, s₁, htop, hpop⟩ := ends_bind.1 hm
  obtain ⟨-, rfl⟩ := run_topObjectType_eq_ok.1 htop.1
  obtain ⟨-, rfl, -⟩ := ends_step.1 hpop
  exact congrArg List.tail hs.stack

/-- What is read from the state. -/
theorem ensures_read {P : GraphQlExecutor → Prop} {f : GraphQlExecutor → α} :
    Ensures g P (ParserM.read f) fun a s => a = f s ∧ P s := by
  intro s a s' hs hm
  obtain ⟨rfl, rfl⟩ := ends_read hm
  exact ⟨rfl, hs⟩

theorem ensures_deref {P : GraphQlExecutor → Prop} {f : GraphQlExecutor → Option α} :
    Ensures g P (deref f) fun a s => f s = some a ∧ P s := by
  intro s a s' hs hm
  obtain ⟨ha, rfl, -⟩ := ends_require.1 hm
  exact ⟨ha, hs⟩

theorem ensures_follow {P : GraphQlExecutor → Prop} {p : Option α} :
    Ensures g P (follow p : ExecutorM α) fun a s => p = some a ∧ P s := ensures_deref

namespace Within

variable {s : GraphQlExecutor} (h : Within schema query stack s)
include h

theorem declarations : s.pool.declarations = schema.pool.declarations := h.follows.declarations

theorem symbols : s.members.symbols = schema.members.symbols := h.follows.members.symbols

theorem source : s.scanner.source = query := h.follows.scanner.source

theorem type {id : TypeId} {t : TypeNode} (ht : schema.pool.types[id]? = some t) :
    ∃ isListType, s.pool.types[id]? = some { t with isListType } := by
  obtain ⟨steps, -, htypes⟩ := h.follows.types
  exact ⟨_, htypes.old ht⟩

end Within

/-- The declaration on top of the stack. -/
theorem ensures_topObjectType {id : Option DeclarationId} :
    Ensures g (Within schema query (id :: stack)) topObjectType fun top s =>
      top = id ∧ Within schema query (id :: stack) s := by
  intro s top s' hs hm
  have hfollows : Follows False s s' := keeps_topObjectType s top s' hm.1
  obtain ⟨htop, rfl⟩ := run_topObjectType_eq_ok.1 hm.1
  rw [hs.stack] at htop
  exact ⟨(Option.some.inj htop).symm, trans_of (Follows False) hs.follows hfollows, hs.stack⟩

theorem ensures_declaration {id : DeclarationId} {d : Declaration}
    (hd : schema.pool.declarations[id]? = some d) :
    Ensures g (Within schema query stack) (declaration id) fun d' s =>
      d' = d ∧ Within schema query stack s := by
  intro s d' s' hs hm
  obtain ⟨hd', rfl, -⟩ := ends_require.1 hm
  rw [hs.declarations, hd] at hd'
  exact ⟨(Option.some.inj hd').symm, hs⟩

theorem ensures_currentObjectType {id : DeclarationId} {d : Declaration}
    (hd : schema.pool.declarations[id]? = some d) :
    Ensures g (Within schema query (some id :: stack)) currentObjectType fun d' s =>
      d' = d ∧ Within schema query (some id :: stack) s := by
  refine ensures_bind ensures_topObjectType fun top => ensures_fact fun htop => ?_
  subst htop
  refine ensures_bind ensures_follow fun id' => ensures_fact fun hid => ?_
  obtain rfl := Option.some.inj hid
  exact ensures_declaration hd

/-! ## Fragments that fit -/

/-- A declared name stands for a declaration of that name. -/
theorem declared_of_symbol (hschema : Constructed schema) {name : Ustring} {symbol : Symbol}
    (hsymbol : schema.members.symbols.find? name = some symbol) :
    ∃ d, schema.pool.declarations[symbol.declaration]? = some d ∧
      declarationNamed schema name = some d ∧ d.kind = symbol.kind ∧
      d.Complete schema.pool.types ∧ d.name.map (·.identifier) = some name := by
  obtain ⟨d, hd, hkind, hcomplete, hname⟩ := hschema.complete hsymbol
  refine ⟨d, hd, ?_, hkind, hcomplete, hname⟩
  rw [declarationNamed, hsymbol, Option.bind_some, hd]

/-- A declaration is what its name stands for. -/
theorem Declared.named (hschema : Constructed schema) {id : DeclarationId} {d : Declaration}
    (h : Declared schema id d) : d.Complete schema.pool.types ∧
      ∃ name, d.name = some name ∧ declarationNamed schema name.identifier = some d := by
  obtain ⟨key, symbol, hsymbol, rfl, hd⟩ := h
  obtain ⟨d', hd', hnamed, -, hcomplete, hname⟩ := declared_of_symbol hschema hsymbol
  obtain rfl := Option.some.inj (hd.symm.trans hd')
  obtain ⟨name, hname, hkey⟩ := Option.map_eq_some_iff.1 hname
  exact ⟨hcomplete, name, hname, hkey ▸ hnamed⟩

variable (hg : g ≤ clean)

include hg in
/-- The check of a fragment reports nothing when its object fits. -/
theorem ensures_checkFragmentAssignment (hschema : Constructed schema) {name : Name}
    {id id' : DeclarationId} {o : Object} {parent : Declaration}
    (ho : Declared schema id (.object o)) (hparent : Declared schema id' parent) :
    Ensures g (Within schema query stack) (checkFragmentAssignment name (.object o) parent)
      fun _ s => FitsIn o parent ∧ Within schema query stack s := by
  obtain ⟨-, objectName, hobjectName, honamed⟩ := ho.named hschema
  obtain ⟨-, parentName, hparentName, hpnamed⟩ := hparent.named hschema
  intro s u s' hs hm
  have hwithin := ensures_settled (g := g) keeps_checkFragmentAssignment s u s' hs hm
  refine ⟨?_, hwithin⟩
  obtain ⟨_, s₁, -, hm⟩ := ends_bind.1 hm
  obtain ⟨objectName', s₂, hfollow, hm⟩ := ends_bind.1 hm
  obtain ⟨hobject, rfl, -⟩ := ends_require.1 hfollow
  obtain rfl := Option.some.inj (hobjectName.symm.trans hobject)
  obtain ⟨parentName', s₃, hfollow, hm⟩ := ends_bind.1 hm
  obtain ⟨hname, rfl, -⟩ := ends_require.1 hfollow
  obtain rfl := Option.some.inj (hparentName.symm.trans hname)
  cases parent with
  | interface i =>
    obtain ⟨hnot, -⟩ := (never_reportAt.anti hg).ends_when hm
    rcases Option.eq_none_or_eq_some o.implementations with himpl | ⟨names, himpl⟩
    · exact absurd (by rw [himpl]; rfl) hnot
    · refine .implements hparentName himpl ?_
      rwa [himpl, Option.bind_some, Bool.not_eq_true, Option.isNone_eq_false_iff] at hnot
  | object p =>
    obtain ⟨hnot, -⟩ := (never_reportAt.anti hg).ends_when hm
    rw [ne_eq, Decidable.not_not] at hnot
    rw [hnot] at hpnamed
    have heq := hpnamed.symm.trans honamed
    simp only [Option.some.injEq, Declaration.object.injEq] at heq
    subst heq
    exact .same
  | union u =>
    obtain ⟨hnot, -⟩ := (never_reportAt.anti hg).ends_when hm
    refine .member hobjectName ?_
    rwa [Bool.not_eq_true, Option.isNone_eq_false_iff] at hnot
  | inputObject _ => exact absurd hm (never_reportAt.anti hg _ _ _)
  | enum _ => exact absurd hm (never_reportAt.anti hg _ _ _)

/-! ## Fields -/

omit hg in
theorem Noted.mono {s s' : GraphQlExecutor} {settled : Prop} (h : Follows settled s s')
    {d : Declaration} {name : Name}
    (hnoted : Noted schema s.members.forwardFragmentReferences d name) :
    Noted schema s'.members.forwardFragmentReferences d name := by
  obtain ⟨id, hid, hmem⟩ := hnoted
  exact ⟨id, hid, h.members.references.subset hmem⟩

include hg in
theorem ensures_parseFieldName {name : Name} :
    Ensures g (Within schema query stack) (parseFieldName name) fun names s =>
      (names = (none, some name) ∨ ∃ fieldName, names = (some name, some fieldName)) ∧
        Within schema query stack s := by
  intro s names s' hs hm
  refine ⟨?_, ensures_settled (g := g) keeps_parseFieldName s names s' hs hm⟩
  obtain ⟨colon, s₁, -, hm⟩ := ends_bind.1 hm
  split at hm
  · obtain ⟨fieldName, s₂, hname, hm⟩ := ends_bind.1 hm
    obtain ⟨rfl, -, -⟩ := ends_pure.1 hm
    obtain ⟨found, s₃, hfound, hname⟩ := ends_bind.1 hname
    obtain ⟨rfl, -, -⟩ := ends_scanExpected hg hfound
    obtain ⟨value, s₄, -, hname⟩ := ends_bind.1 hname
    obtain ⟨created, s₅, -, hname⟩ := ends_bind.1 hname
    obtain ⟨rfl, -, -⟩ := ends_pure.1 hname
    exact .inr ⟨created, rfl⟩
  · obtain ⟨rfl, -, -⟩ := ends_pure.1 hm
    exact .inl rfl

/-- What a turn of the loop adds to the selections of a declaration. -/
def TurnTyped (schema : GraphQlSchema) (query : Ustring) (parent : Declaration)
    (turn : SelectionTurn) (s : GraphQlExecutor) : Prop :=
  ∃ selection, turn = .add selection ∧
    SelectionTyped schema query (Noted schema s.members.forwardFragmentReferences) parent selection

/-- A reader of selections, run with a declaration on top of the stack, takes it away and gives
selections that are typed inside it. -/
def ReadsTyped (g : LowerSet GraphQlExecutor) (schema : GraphQlSchema) (query : Ustring)
    (selectionSet : ExecutorM (Option SelectionSet)) : Prop :=
  ∀ {id d stack}, Declared schema id d →
    Ensures g (Within schema query (some id :: stack)) selectionSet fun set s =>
      ∃ set', set = some set' ∧ SetTyped schema query
        (Noted schema s.members.forwardFragmentReferences) d set' ∧ Within schema query stack s

section Turns

variable (hschema : Constructed schema) {selectionSet : ExecutorM (Option SelectionSet)}
  (hset : ReadsTyped g schema query selectionSet)
include hg hschema hset

/-- The selections of a field are typed inside the declaration that its type names. -/
theorem ensures_parseFieldSelections {definition : FieldDefinition}
    (hdefinition : IsTypeAt schema.pool.types false definition.type)
    {field : Option SelectionSet → Selection} :
    Ensures g (Within schema query stack) (parseFieldSelections definition selectionSet field)
      fun turn s => ∃ type set, turn = .add (field (some set)) ∧
        typeOf schema definition = some type ∧ isComposite type = true ∧
        SetTyped schema query (Noted schema s.members.forwardFragmentReferences) type set ∧
        Within schema query stack s := by
  obtain ⟨t, ht, houtput⟩ := hdefinition
  have hmem := List.mem_of_getElem? ht
  refine ensures_bind (Q := fun t' s => (∃ isListType, t' = { t with isListType }) ∧
    Within schema query stack s) ?_ fun t' => ensures_fact fun ht' => ?_
  · intro s t' s' hs hm
    obtain ⟨ht', rfl, -⟩ := ends_require.1 hm
    obtain ⟨isListType, hmarked⟩ := hs.type ht
    exact ⟨⟨isListType, Option.some.inj (ht'.symm.trans hmarked)⟩, hs⟩
  obtain ⟨isListType, rfl⟩ := ht'
  split
  · next hobject =>
    have hobject : t.type.isObjectType = true := hobject
    refine ensures_bind ensures_follow fun typeName => ensures_fact fun hname => ?_
    have htypeName : t.name = some typeName := hname
    obtain ⟨symbol, hsymbol, -, hkindOutput, htag⟩ := hschema.resolves t hmem typeName htypeName
    obtain ⟨type, htype, hnamed, hkind, -, -⟩ := declared_of_symbol hschema hsymbol
    refine ensures_bind (Q := fun symbol' s => symbol' = symbol ∧ Within schema query stack s)
      ?_ fun symbol' => ensures_fact fun hsymbol' => ?_
    · intro s symbol' s' hs hm
      obtain ⟨hfind, rfl, -⟩ := ends_require.1 hm
      rw [hs.symbols, hsymbol] at hfind
      exact ⟨(Option.some.inj hfind).symm, hs⟩
    subst hsymbol'
    refine ensures_bind ensures_pushObjectType fun _ => ?_
    refine ensures_bind (hset ⟨_, symbol', hsymbol, rfl, htype⟩) fun set => ?_
    refine ensures_pure fun s hs => ?_
    obtain ⟨set', rfl, htyped, hwithin⟩ := hs
    refine ⟨type, set', rfl, ?_, ?_, htyped, hwithin⟩
    · simp only [typeOf, typeNameOf, ht, htypeName, Option.bind_some, Option.map_some, hnamed]
    · have hnotEnum : symbol'.kind ≠ .enum := by
        intro henum
        rw [htag.2 henum] at hobject
        exact absurd hobject (by decide)
      have hout := hkindOutput houtput
      rw [← hkind] at hnotEnum hout
      revert hnotEnum hout
      cases type <;> simp [isComposite, Declaration.kind, SymbolKind.isOutput]
  · exact (never_bind fun _ => Never.bind (never_addDiagnostic.anti hg)).ensures

end Turns

end Runs

/-! ## Selections of a run that fits -/

section Fitting

variable {schema : GraphQlSchema} {query : Ustring} {stack : List (Option DeclarationId)}

/-- The states of the runs that report nothing and look up no alias that does not fit. -/
def fitting (schema : GraphQlSchema) : LowerSet GraphQlExecutor :=
  cleanWith fun step => aliasFits schema step = true

theorem fitting_le_clean : fitting schema ≤ clean := cleanWith_le_clean

/-- An alias that was looked up fits. -/
theorem ensures_recordAlias {id : DeclarationId} {fieldAlias name : Name} {nested : Bool} :
    Ensures (fitting schema) (Within schema query (some id :: stack))
      (recordAlias (some fieldAlias) (some name) nested) fun _ s =>
        aliasFits schema (.selectAlias (some id) fieldAlias.identifier name.identifier nested) = true ∧
          Within schema query (some id :: stack) s := by
  intro s u s' hs hm
  refine ⟨?_, ensures_settled keeps_recordAlias s u s' hs hm⟩
  obtain ⟨parent, s₁, hread, hrecord⟩ := ends_bind.1 hm
  obtain ⟨rfl, rfl⟩ := ends_read hread
  obtain ⟨-, rfl, hfits⟩ := ends_step.1 hrecord
  have hparent : s₁.members.currentObjectTypes.head?.join = some id := by
    rw [hs.stack]
    rfl
  rw [hparent] at hfits
  exact hfits.2 _ (List.mem_append_right _ (List.mem_singleton_self _))

variable (hschema : Constructed schema) {selectionSet : ExecutorM (Option SelectionSet)}
  (hset : ReadsTyped (fitting schema) schema query selectionSet) {id : DeclarationId}
  {d : Declaration} (hd : Declared schema id d)
include hschema hset hd

/-- A field that was found under its first name is one under its name. -/
theorem ensures_parseFieldOf {fuel : Nat} {definition : FieldDefinition}
    (htype : IsTypeAt schema.pool.types false definition.type) {value : Ustring}
    (hdefinition : fieldNamed d value = some definition) :
    Ensures (fitting schema) (Within schema query (some id :: stack))
      (parseFieldOf fuel definition value selectionSet) fun turn s =>
        TurnTyped schema query d turn s ∧ Within schema query (some id :: stack) s := by
  refine ensures_bind (ensures_settled keeps_createSpan) fun span => ?_
  refine ensures_bind (Q := fun name s => name.identifier = value ∧
    Within schema query (some id :: stack) s) ?_ fun name => ensures_fact fun hname => ?_
  · refine ensures_bind (ensures_settled keeps_createSpan) fun _ => ?_
    exact ensures_pure fun s hs => ⟨rfl, hs⟩
  refine ensures_bind (ensures_parseFieldName fitting_le_clean) fun names =>
    ensures_fact fun hnames => ?_
  refine ensures_bind (ensures_settled keeps_parseFieldArguments) fun arguments => ?_
  refine ensures_bind (ensures_settled keeps_parseDirectives) fun directives => ?_
  refine ensures_bind (ensures_settled keeps_scanOptional) fun nested => ?_
  -- the field that the selection is typed by: the one found, or the one under the name
  refine ensures_bind (Q := fun _ s => (∃ fieldName definition', names.2 = some fieldName ∧
    fieldNamed d fieldName.identifier = some definition' ∧
      (nested = true → typeOf schema definition' = typeOf schema definition)) ∧
        Within schema query (some id :: stack) s) ?_ fun _ => ensures_fact fun hfield => ?_
  · rcases hnames with rfl | ⟨fieldName, rfl⟩
    · refine ensures_pure fun s hs => ⟨⟨name, definition, rfl, ?_, fun _ => rfl⟩, hs⟩
      rw [hname, hdefinition]
    · intro s u s' hs hm
      obtain ⟨hfits, hwithin⟩ := ensures_recordAlias s u s' hs hm
      obtain ⟨-, -, -, -, hpool⟩ := hd
      simp only [aliasFits, fieldAt, Option.bind_some, hpool, hname, hdefinition] at hfits
      cases hfind : fieldNamed d fieldName.identifier with
      | none => simp [hfind] at hfits
      | some definition' =>
        refine ⟨⟨fieldName, definition', rfl, hfind, fun hnested => ?_⟩, hwithin⟩
        subst hnested
        simp only [hfind, Bool.not_true, Bool.false_or, decide_eq_true_eq] at hfits
        rw [typeOf, hfits, typeOf]
  obtain ⟨fieldName, definition', hfieldName, hfield, hsame⟩ := hfield
  split
  · next hnested =>
    refine (ensures_parseFieldSelections fitting_le_clean hschema hset htype).conseq
      (fun _ hs => hs) fun turn s hs => ?_
    obtain ⟨type, set, rfl, htypeOf, hcomposite, htyped, hwithin⟩ := hs
    refine ⟨⟨_, rfl, ?_⟩, hwithin⟩
    rw [hfieldName]
    exact .nested hfield ((hsame hnested).trans htypeOf) hcomposite htyped
  · refine ensures_pure fun s hs => ⟨⟨_, rfl, ?_⟩, hs⟩
    rw [hfieldName]
    exact .leaf hfield

theorem ensures_parseField {fuel : Nat} :
    Ensures (fitting schema) (Within schema query (some id :: stack)) (parseField fuel selectionSet)
      fun turn s => TurnTyped schema query d turn s ∧ Within schema query (some id :: stack) s := by
  obtain ⟨hcomplete, -⟩ := hd.named hschema
  have hpool : schema.pool.declarations[id]? = some d := by
    obtain ⟨-, -, -, -, hpool⟩ := hd
    exact hpool
  refine ensures_bind (ensures_settled keeps_getTokenValue) fun value => ?_
  refine ensures_bind (ensures_currentObjectType hpool) fun current => ensures_fact fun hcurrent => ?_
  subst hcurrent
  refine ensures_bind (Q := fun fields s => current.objectFields? = some fields ∧
    Within schema query (some id :: stack) s) ?_ fun fields => ensures_fact fun hfields => ?_
  · exact ensures_bind (ensures_settled (keeps_recordStep fun _ => rfl)) fun _ => ensures_follow
  split
  · exact (never_bind fun _ => Never.bind (never_addDiagnostic.anti fitting_le_clean)).ensures
  next definition hdefinition =>
  have hwf : IsTypeAt schema.pool.types false definition.type := by
    cases current with
    | object o =>
      obtain ⟨fields', hfields', -, hwf⟩ := hcomplete
      obtain rfl := Option.some.inj (hfields.symm.trans hfields')
      exact (hwf _ _ hdefinition).2.1
    | interface i =>
      obtain ⟨fields', hfields', -, hwf⟩ := hcomplete
      obtain rfl := Option.some.inj (hfields.symm.trans hfields')
      exact (hwf _ _ hdefinition).2.1
    | inputObject _ => exact absurd hfields (by simp [Declaration.objectFields?])
    | enum _ => exact absurd hfields (by simp [Declaration.objectFields?])
    | union _ => exact absurd hfields (by simp [Declaration.objectFields?])
  refine ensures_parseFieldOf hschema hset hd hwf ?_
  rw [fieldNamed, hfields, Option.bind_some, hdefinition]

omit hschema hset hd in
/-- The place after `... on`, read from a position on. -/
def AtCondition (query : Ustring) (start : Nat) (s : GraphQlScanner) : Prop :=
  ∃ s₀ : GraphQlScanner, s₀.source = query ∧ s₀.position = start ∧
    s₀.lexeme.token = .ellipses ∧ s₀.afterLexeme.lexeme.token = .onKeyword ∧
    s = s₀.afterLexeme.afterLexeme

omit hschema hset hd in
theorem AtCondition.typeConditionAt {start : Nat} {s : GraphQlScanner}
    (h : AtCondition query start s) (hname : s.lexeme.token = .gName) :
    typeConditionAt query start = some s.afterLexeme.getValue := by
  obtain ⟨s₀, rfl, rfl, hellipses, hon, rfl⟩ := h
  have hplace : GraphQlScanner.SamePlace { source := s₀.source, position := s₀.position } s₀ :=
    ⟨rfl, rfl⟩
  have hplace' := hplace.afterLexeme
  simp only [GraphQlExecutor.typeConditionAt, hplace.lexeme, hplace'.lexeme,
    hplace'.afterLexeme.lexeme, hellipses, hon, hname, and_self, if_true]
  rfl

/-- An inline fragment is on an object that fits, and its selections are typed inside it. -/
theorem ensures_parseInlineFragment {fuel start : Nat} :
    Ensures (fitting schema)
      (fun s => AtCondition query start s.scanner ∧ Within schema query (some id :: stack) s)
      (parseInlineFragment fuel start selectionSet) fun turn s =>
        TurnTyped schema query d turn s ∧ Within schema query (some id :: stack) s := by
  have hpool : schema.pool.declarations[id]? = some d := by
    obtain ⟨-, -, -, -, hpool⟩ := hd
    exact hpool
  have hskip : ∀ {template arguments turn P Q}, Ensures (fitting schema) P (do
      addDiagnostic template arguments
      skipBlock
      return turn : ExecutorM SelectionTurn) Q := fun {_ _ _ _ _} =>
    (Never.bind (never_addDiagnostic.anti fitting_le_clean)).ensures
  refine ensures_bind (Q := fun found s => found = true ∧
    typeConditionAt query start = some s.scanner.getValue ∧
      Within schema query (some id :: stack) s) ?_ fun found => ensures_fact fun hfound => ?_
  · intro s found s' hs hm
    have hwithin := ensures_settled keeps_scanExpected s found s' hs.2 hm
    obtain ⟨rfl, hname, rfl⟩ := ends_scanExpected fitting_le_clean hm
    exact ⟨rfl, hs.1.typeConditionAt hname, hwithin⟩
  subst hfound
  rw [if_pos rfl]
  refine ensures_bind (Q := fun value s => typeConditionAt query start = some value ∧
    Within schema query (some id :: stack) s) ?_ fun value => ensures_fact fun hcondition => ?_
  · refine ensures_read.conseq (fun _ hs => hs) fun value s hs => ?_
    obtain ⟨rfl, hcondition, hwithin⟩ := hs
    exact ⟨hcondition, hwithin⟩
  refine ensures_bind (ensures_settled keeps_createName) fun name => ?_
  refine ensures_bind (Q := fun symbols s => symbols = schema.members.symbols ∧
    Within schema query (some id :: stack) s) ?_ fun symbols => ensures_fact fun hsymbols => ?_
  · refine ensures_read.conseq (fun _ hs => hs) fun symbols s hs => ?_
    exact ⟨hs.1.trans hs.2.symbols, hs.2⟩
  subst hsymbols
  split
  · exact hskip
  next symbol hsymbol =>
  obtain ⟨object, hobject, hnamed, -, -, -⟩ := declared_of_symbol hschema hsymbol
  refine ensures_bind (ensures_settled keeps_createSpan) fun span => ?_
  refine ensures_bind (ensures_declaration hobject) fun object' => ensures_fact fun h => ?_
  subst h
  cases object' with
  | interface _ => exact hskip
  | inputObject _ => exact hskip
  | enum _ => exact hskip
  | union _ => exact hskip
  | object o =>
    have ho : Declared schema symbol.declaration (.object o) := ⟨_, symbol, hsymbol, rfl, hobject⟩
    refine ensures_bind (ensures_currentObjectType hpool) fun current => ensures_fact fun h => ?_
    subst h
    refine ensures_bind (ensures_checkFragmentAssignment fitting_le_clean hschema ho hd) fun _ =>
      ensures_fact fun hfits => ?_
    refine ensures_bind ensures_pushObjectType fun _ => ?_
    refine ensures_bind (ensures_settled keeps_parseDirectives) fun directives => ?_
    refine ensures_bind (hset ho) fun set => ?_
    intro s turn s' hs hm
    obtain ⟨set', rfl, htyped, hwithin⟩ := hs
    obtain ⟨span', s₁, hspan, hm⟩ := ends_bind.1 hm
    obtain ⟨rfl, rfl⟩ := ends_read hspan
    obtain ⟨rfl, rfl, -⟩ := ends_pure.1 hm
    exact ⟨⟨_, rfl, .inlineFragment hcondition ⟨hnamed, hfits⟩ htyped⟩, hwithin⟩

omit hschema hset in
/-- A spread is noted with the declaration it stands in. -/
theorem ensures_parseFragmentSpread {fuel : Nat} :
    Ensures (fitting schema) (Within schema query (some id :: stack)) (parseFragmentSpread fuel)
      fun turn s => TurnTyped schema query d turn s ∧ Within schema query (some id :: stack) s := by
  refine ensures_bind (ensures_settled keeps_createSpan) fun span => ?_
  refine ensures_bind (ensures_settled keeps_getTokenValue) fun value => ?_
  refine ensures_bind (ensures_settled keeps_createName) fun name => ?_
  refine ensures_bind ensures_topObjectType fun top => ensures_fact fun htop => ?_
  subst htop
  refine ensures_bind (Q := fun _ s => Within schema query (some id :: stack) s ∧
    Noted schema s.members.forwardFragmentReferences d name) ?_ fun _ => ?_
  · intro s u s' hs hm
    have hfollows : Keeps (Follows True) (modifyMembers fun m => { m with
        forwardFragmentReferences := m.forwardFragmentReferences ++ [(name, some id)] }) :=
      keeps_modifyMembers fun _ =>
        ⟨rfl, rfl, rfl, rfl, rfl, List.prefix_append _ _, fun _ => rfl⟩
    refine ⟨ensures_settled hfollows s u s' hs hm, id, hd, ?_⟩
    obtain ⟨-, rfl, -⟩ := ends_step.1 hm
    exact List.mem_append_right _ (List.mem_singleton_self _)
  refine ensures_bind ((ensures_settled keeps_parseDirectives).frame (R := Follows True)
    keeps_parseDirectives fun _ _ h => Noted.mono h) fun directives => ?_
  exact ensures_pure fun s hs => ⟨⟨_, rfl, .fragmentSpread hs.2⟩, hs.1⟩

theorem ensures_parseFragment {fuel start : Nat} :
    Ensures (fitting schema) (fun s => (∃ s₀ : GraphQlScanner, s₀.source = query ∧
        s₀.position = start ∧ s₀.lexeme.token = .ellipses ∧ s.scanner = s₀.afterLexeme) ∧
        Within schema query (some id :: stack) s)
      (parseFragment fuel start selectionSet) fun turn s =>
        TurnTyped schema query d turn s ∧ Within schema query (some id :: stack) s := by
  refine ensures_bind (Q := fun token s => (token = .onKeyword → AtCondition query start s.scanner) ∧
    Within schema query (some id :: stack) s) ?_ fun token => ?_
  · intro s token s' hs hm
    have hwithin := ensures_settled keeps_takeToken s token s' hs.2 hm
    obtain ⟨⟨s₀, hsource, hposition, hellipses, hscanner⟩, -⟩ := hs
    obtain ⟨rfl, rfl⟩ := ends_takeToken hm
    refine ⟨fun hon => ⟨s₀, hsource, hposition, hellipses, ?_, ?_⟩, hwithin⟩
    · rwa [hscanner] at hon
    · rw [← hscanner]
  split
  · next htoken =>
    exact (ensures_parseInlineFragment hschema hset hd).conseq
      (fun s hs => ⟨hs.1 htoken, hs.2⟩) fun _ _ hs => hs
  split
  · exact (ensures_parseFragmentSpread hd).conseq (fun s hs => hs.2) fun _ _ hs => hs
  · exact (Never.bind (never_addDiagnostic.anti fitting_le_clean)).ensures

end Fitting

section Documents

variable {schema : GraphQlSchema} {query : Ustring} (hschema : Constructed schema)

/-- The selections are typed inside the declaration, with the spreads noted so far. -/
def SelectionsTyped (schema : GraphQlSchema) (query : Ustring) (d : Declaration)
    (selections : List Selection) (s : GraphQlExecutor) : Prop :=
  ∀ selection ∈ selections, SelectionTyped schema query
    (Noted schema s.members.forwardFragmentReferences) d selection

theorem SelectionsTyped.follows {d : Declaration} {selections : List Selection} {settled : Prop}
    {s s' : GraphQlExecutor} (h : Follows settled s s')
    (hs : SelectionsTyped schema query d selections s) :
    SelectionsTyped schema query d selections s' :=
  fun selection hmem => (hs selection hmem).mono fun _ _ => Noted.mono h

theorem SelectionsTyped.add {d : Declaration} {selections : List Selection} {selection : Selection}
    {s : GraphQlExecutor} (hs : SelectionsTyped schema query d selections s)
    (h : TurnTyped schema query d (.add selection) s) :
    SelectionsTyped schema query d (selections ++ [selection]) s := by
  obtain ⟨selection', heq, htyped⟩ := h
  obtain rfl := SelectionTurn.add.inj heq
  intro selection' hmem
  rcases List.mem_append.1 hmem with hold | hnew
  · exact hs selection' hold
  · exact List.mem_singleton.1 hnew ▸ htyped

include hschema in
/-- The selection sets, by induction on the bound: the selections read so far stay typed while the
spreads noted grow. -/
theorem readsTyped_selectionSets (fuel : Nat) :
    (∀ {id d stack span selections}, Declared schema id d →
      Ensures (fitting schema) (fun s => Within schema query (some id :: stack) s ∧
          SelectionsTyped schema query d selections s)
        (parseSelections fuel span selections) fun set s =>
          ∃ set', set = some set' ∧ SetTyped schema query
            (Noted schema s.members.forwardFragmentReferences) d set' ∧
            Within schema query stack s) ∧
      ReadsTyped (fitting schema) schema query (parseSelectionSet fuel) ∧
      ReadsTyped (fitting schema) schema query (parseSelectionSetAfterOpenBrace fuel) := by
  induction fuel with
  | zero =>
    exact ⟨fun _ => never_stop.ensures, fun _ => never_stop.ensures, fun _ => never_stop.ensures⟩
  | succ fuel ih =>
    obtain ⟨ihSelections, ihSet, ihAfter⟩ := ih
    refine ⟨fun {id d stack span selections} hd => ?_, fun {id d stack} hd => ?_,
      fun {id d stack} hd => ?_⟩
    · -- a turn adds a typed selection, and the rest is the induction hypothesis
      have hadd : ∀ {m : ExecutorM SelectionTurn} {P : GraphQlExecutor → Prop}
          {next : SelectionTurn → ExecutorM (Option SelectionSet)},
          (∀ selection, next (.add selection) =
            parseSelections fuel span (selections ++ [selection])) → Keeps (Follows False) m →
          Ensures (fitting schema) P m (fun turn s => TurnTyped schema query d turn s ∧
            Within schema query (some id :: stack) s) →
          Ensures (fitting schema) (fun s => P s ∧ SelectionsTyped schema query d selections s)
            (m >>= next) fun set s =>
                ∃ set', set = some set' ∧ SetTyped schema query
                  (Noted schema s.members.forwardFragmentReferences) d set' ∧
                  Within schema query stack s := by
        intro m P next hnext hkeeps hm
        refine ensures_bind (hm.frame hkeeps fun _ _ h => SelectionsTyped.follows h) fun turn => ?_
        cases turn with
        | add selection =>
          rw [hnext]
          exact (ihSelections hd).conseq (fun s hs => ⟨hs.1.2, hs.2.add hs.1.1⟩) fun _ _ hs => hs
        | skip =>
          intro s a s' hs hm
          obtain ⟨⟨⟨_, heq, -⟩, -⟩, -⟩ := hs
          exact absurd heq (by simp)
        | fail =>
          intro s a s' hs hm
          obtain ⟨⟨⟨_, heq, -⟩, -⟩, -⟩ := hs
          exact absurd heq (by simp)
      unfold parseSelections
      refine ensures_bind (Q := fun start s => start = s.scanner.position ∧
        (Within schema query (some id :: stack) s ∧ SelectionsTyped schema query d selections s))
        ensures_read fun start => ?_
      refine ensures_bind (Q := fun token s => ((token = .ellipses → ∃ s₀ : GraphQlScanner,
        s₀.source = query ∧ s₀.position = start ∧ s₀.lexeme.token = .ellipses ∧
          s.scanner = s₀.afterLexeme) ∧ Within schema query (some id :: stack) s) ∧
            SelectionsTyped schema query d selections s) ?_ fun token => ?_
      · intro s token s' hs hm
        obtain ⟨hstart, hwithin, htyped⟩ := hs
        have hfollows : Follows True s s' := keeps_takeNextToken s token s' hm.1
        refine ⟨⟨fun hellipses => ?_, ensures_settled keeps_takeNextToken s token s' hwithin hm⟩,
          htyped.follows hfollows⟩
        obtain ⟨rfl, rfl⟩ := ends_takeNextToken hm
        refine ⟨s.scanner, hwithin.source, hstart.symm, ?_, rfl⟩
        rcases s.scanner.lexeme_modes.1 with heq | ⟨heq, -⟩
        · exact heq.symm.trans hellipses
        · exact absurd (heq.symm.trans hellipses) (by decide)
      split
      · refine (hadd (fun _ => rfl) (keeps_parseFragment (keeps_selectionSets fuel).2.1)
          (ensures_parseFragment hschema ihSet hd)).conseq (fun s hs => ?_) fun _ _ hs => hs
        exact ⟨⟨hs.1.1 rfl, hs.1.2⟩, hs.2⟩
      · exact (hadd (fun _ => rfl) (keeps_parseField (keeps_selectionSets fuel).2.2)
          (ensures_parseField hschema ihAfter hd)).conseq
            (fun s hs => ⟨hs.1.2, hs.2⟩) fun _ _ hs => hs
      · refine ensures_bind ((ensures_popObjectType.frame keeps_popObjectType
          fun _ _ h => SelectionsTyped.follows h).conseq (fun s hs => ⟨hs.1.2, hs.2⟩)
            fun _ _ hs => hs) fun _ => ?_
        refine ensures_bind ensures_read fun span' => ?_
        exact ensures_pure fun s hs => ⟨_, rfl, .mk hs.2.2, hs.2.1⟩
      · refine Never.ensures (Never.bind ?_)
        unfold reportEndOfSelections
        split <;> exact never_addDiagnostic.anti fitting_le_clean
      · exact (Never.bind (never_addDiagnostic.anti fitting_le_clean)).ensures
    · unfold parseSelectionSet
      refine ensures_bind (Q := fun found s => found = true ∧
        Within schema query (some id :: stack) s) ?_ fun found => ensures_fact fun hfound => ?_
      · intro s found s' hs hm
        exact ⟨(ends_scanExpected fitting_le_clean hm).1,
          ensures_settled keeps_scanExpected s found s' hs hm⟩
      subst hfound
      exact ihAfter hd
    · unfold parseSelectionSetAfterOpenBrace
      refine ensures_bind (ensures_settled keeps_createSpan) fun span => ?_
      refine (ihSelections hd).conseq (fun s hs => ⟨hs, ?_⟩) fun _ _ hs => hs
      exact fun selection hmem => absurd hmem List.not_mem_nil

/-! ## Operations and fragments -/

/-- A definition that is typed with the spreads noted so far. -/
def ReadsDefinitionTyped (schema : GraphQlSchema) (query : Ustring)
    (stack : List (Option DeclarationId)) (definition? : Option PrimaryDefinition)
    (s : GraphQlExecutor) : Prop :=
  ∃ definition, definition? = some definition ∧ DefinitionTyped schema query
    (Noted schema s.members.forwardFragmentReferences) definition ∧ Within schema query stack s

variable {stack : List (Option DeclarationId)}

include hschema in
theorem ensures_parseOperationDefinition {fuel : Nat} {operationType : OperationType}
    {id : DeclarationId} {d : Declaration} (hd : Declared schema id d)
    (hroot : rootOf schema operationType = some d) :
    Ensures (fitting schema) (Within schema query (some id :: stack))
      (parseOperationDefinition fuel operationType) (ReadsDefinitionTyped schema query stack) := by
  refine ensures_bind (ensures_settled keeps_createSpan) fun span => ?_
  refine ensures_bind (ensures_settled keeps_parseOperationHead) fun head => ?_
  refine ensures_bind (ensures_settled keeps_parseDirectives) fun directives => ?_
  refine ensures_bind ((readsTyped_selectionSets hschema fuel).2.1 hd) fun set => ?_
  intro s a s' hs hm
  obtain ⟨set', rfl, htyped, hwithin⟩ := hs
  obtain ⟨rfl, rfl, -⟩ := ends_pure.1 hm
  exact ⟨_, rfl, ⟨d, set', hroot, rfl, htyped⟩, hwithin⟩

include hschema in
/-- A fragment is on an object, and its selections are typed inside it. -/
theorem ensures_parseFragmentBody {fuel : Nat} {span : Span} {name typeName : Name}
    {symbol : Symbol} (hsymbol : schema.members.symbols.find? typeName.identifier = some symbol) :
    Ensures (fitting schema) (Within schema query stack)
      (parseFragmentBody fuel span name typeName symbol)
      (ReadsDefinitionTyped schema query stack) := by
  obtain ⟨d, hd, hnamed, -, -, -⟩ := declared_of_symbol hschema hsymbol
  refine ensures_bind (ensures_declaration hd) fun d' => ensures_fact fun h => ?_
  subst h
  have hreport : ∀ {P Q}, Ensures (fitting schema) P (addDiagnostic .theType0IsNotAnObject
      [typeName.identifier] : ExecutorM Unit) Q := fun {_ _} =>
    (never_addDiagnostic.anti fitting_le_clean).ensures
  refine ensures_bind (Q := fun _ s => (∃ o, d' = .object o) ∧ Within schema query stack s) ?_
    fun _ => ensures_fact fun hobject => ?_
  · cases d' with
    | object o => exact ensures_pure fun s hs => ⟨⟨o, rfl⟩, hs⟩
    | interface _ => exact hreport
    | inputObject _ => exact hreport
    | enum _ => exact hreport
    | union _ => exact hreport
  obtain ⟨o, rfl⟩ := hobject
  refine ensures_bind ensures_pushObjectType fun _ => ?_
  refine ensures_bind (ensures_settled keeps_parseDirectives) fun directives => ?_
  refine ensures_bind ((readsTyped_selectionSets hschema fuel).2.1
    ⟨_, symbol, hsymbol, rfl, hd⟩) fun set => ?_
  intro s a s' hs hm
  obtain ⟨set', rfl, htyped, hwithin⟩ := hs
  obtain ⟨rfl, rfl, -⟩ := ends_pure.1 hm
  exact ⟨_, rfl, ⟨typeName, o, set', rfl, hnamed, rfl, htyped⟩, hwithin⟩

/-- An expected token is there. -/
theorem ensures_expected {token : GraphQlToken} {asName : Bool} :
    Ensures (fitting schema) (Within schema query stack) (scanExpected token asName) fun found s =>
      found = true ∧ Within schema query stack s :=
  fun s found s' hs hm => ⟨(ends_scanExpected fitting_le_clean hm).1,
    ensures_settled keeps_scanExpected s found s' hs hm⟩

include hschema in
theorem ensures_parseFragmentDefinition {fuel : Nat} :
    Ensures (fitting schema) (Within schema query stack)
      (parseFragmentDefinitionAfterFragmentKeyword fuel)
      (ReadsDefinitionTyped schema query stack) := by
  refine ensures_bind (ensures_settled keeps_createSpan) fun span => ?_
  refine ensures_bind ensures_expected fun named => ensures_fact fun hnamed => ?_
  subst hnamed
  refine ensures_bind (ensures_settled keeps_getTokenValue) fun value => ?_
  refine ensures_bind (ensures_settled keeps_createName) fun name => ?_
  refine ensures_bind (ensures_settled keeps_reportDuplicateFragment) fun _ => ?_
  refine ensures_bind ensures_expected fun on => ensures_fact fun hon => ?_
  subst hon
  refine ensures_bind ensures_expected fun typed => ensures_fact fun htyped => ?_
  subst htyped
  refine ensures_bind (ensures_settled keeps_getTokenValue) fun typeValue => ?_
  refine ensures_bind (Q := fun symbols s => symbols = schema.members.symbols ∧
    Within schema query stack s) ?_ fun symbols => ensures_fact fun hsymbols => ?_
  · refine ensures_read.conseq (fun _ hs => hs) fun symbols s hs => ?_
    exact ⟨hs.1.trans hs.2.symbols, hs.2⟩
  subst hsymbols
  split
  · exact (Never.bind (never_addDiagnostic.anti fitting_le_clean)).ensures
  next symbol hsymbol =>
  refine ensures_bind (Q := fun typeName s => typeName.identifier = typeValue ∧
    Within schema query stack s) ?_ fun typeName => ensures_fact fun htypeName => ?_
  · refine ensures_bind (ensures_settled keeps_createSpan) fun _ => ?_
    exact ensures_pure fun s hs => ⟨rfl, hs⟩
  refine ensures_parseFragmentBody hschema ?_
  rw [htypeName, hsymbol]

include hschema in
/-- The declaration of an entry that is declared. -/
theorem exists_declared {entry : Option DeclarationId} (h : IsDeclared schema entry) :
    ∃ id d, entry = some id ∧ Declared schema id d := by
  obtain ⟨name, symbol, hsymbol, rfl⟩ := h
  obtain ⟨d, hd, -⟩ := declared_of_symbol hschema hsymbol
  exact ⟨_, d, rfl, name, symbol, hsymbol, rfl, hd⟩

/-- The root type that is read is that of the schema. -/
theorem ensures_readRoot {root : ExecutorMembers → Option DeclarationId}
    {declared : Option DeclarationId}
    (hroot : ∀ {m}, MembersFollow False (addSchema schema query).members m → root m = declared) :
    Ensures (fitting schema) (Within schema query stack) (ParserM.read fun s => root s.members)
      fun r s => r = declared ∧ Within schema query stack s :=
  ensures_read.conseq (fun _ hs => hs) fun _ _ hs => ⟨hs.1.trans (hroot hs.2.follows.members), hs.2⟩

include hschema in
theorem ensures_parsePrimaryToken {fuel : Nat} {token : GraphQlToken} :
    Ensures (fitting schema) (Within schema query stack) (parsePrimaryToken fuel token)
      (ReadsDefinitionTyped schema query stack) := by
  have hunsupported : ∀ {template P Q}, Ensures (fitting schema) P (do
      addDiagnostic template []
      skipToNextPrimaryToken
      return none : ExecutorM (Option PrimaryDefinition)) Q := fun {_ _ _} =>
    (Never.bind (never_addDiagnostic.anti fitting_le_clean)).ensures
  obtain ⟨schema?, hroots⟩ := hschema.roots
  obtain ⟨queryId, query', hqueryId, hquery⟩ := exists_declared hschema (isDeclared_query hschema)
  have hpool : ∀ {id d}, Declared schema id d → schema.pool.declarations[id]? = some d := by
    rintro id d ⟨-, -, -, -, hd⟩
    exact hd
  have hqueryRoot : rootOf schema .query = some query' := by
    rw [rootOf, hqueryId, Option.bind_some, hpool hquery]
  unfold parsePrimaryToken
  split
  · refine ensures_bind (ensures_readRoot fun hm => hm.query) fun r => ensures_fact fun h => ?_
    obtain rfl : r = some queryId := h.trans hqueryId
    exact ensures_bind ensures_pushObjectType fun _ =>
      ensures_parseOperationDefinition hschema hquery hqueryRoot
  · refine ensures_bind (ensures_readRoot fun hm => hm.mutation) fun r => ensures_fact fun h => ?_
    obtain rfl : r = schema.members.mutation := h
    split
    · exact hunsupported
    · next hsome =>
      obtain ⟨id, d, hid, hd⟩ := exists_declared hschema (isDeclared_of_root hroots.mutation hsome)
      rw [hid]
      refine ensures_bind ensures_pushObjectType fun _ =>
        ensures_parseOperationDefinition hschema hd ?_
      rw [rootOf, hid, Option.bind_some, hpool hd]
  · refine ensures_bind (ensures_readRoot fun hm => hm.subscription) fun r =>
      ensures_fact fun h => ?_
    obtain rfl : r = schema.members.subscription := h
    split
    · exact hunsupported
    · next hsome =>
      obtain ⟨id, d, hid, hd⟩ :=
        exists_declared hschema (isDeclared_of_root hroots.subscription hsome)
      rw [hid]
      refine ensures_bind ensures_pushObjectType fun _ =>
        ensures_parseOperationDefinition hschema hd ?_
      rw [rootOf, hid, Option.bind_some, hpool hd]
  · refine ensures_bind (ensures_readRoot fun hm => hm.query) fun r => ensures_fact fun h => ?_
    obtain rfl : r = some queryId := h.trans hqueryId
    refine ensures_bind ensures_pushObjectType fun _ => ?_
    refine ensures_bind (ensures_settled keeps_createSpan) fun span => ?_
    refine ensures_bind ((readsTyped_selectionSets hschema fuel).2.2 hquery) fun set => ?_
    intro s a s' hs hm
    obtain ⟨set', rfl, htyped, hwithin⟩ := hs
    obtain ⟨rfl, rfl, -⟩ := ends_pure.1 hm
    exact ⟨_, rfl, ⟨query', set', hqueryRoot, rfl, htyped⟩, hwithin⟩
  · exact ensures_parseFragmentDefinition hschema
  · exact (Never.bind (never_addDiagnostic.anti fitting_le_clean)).ensures

/-! ## The document -/

/-- Every definition read so far is typed, with the spreads noted so far. -/
def DocumentTyped (schema : GraphQlSchema) (query : Ustring) (document : ExecutableDefinition)
    (s : GraphQlExecutor) : Prop :=
  (∀ d ∈ document.operationDefinitions, DefinitionTyped schema query
      (Noted schema s.members.forwardFragmentReferences) (.operation d)) ∧
    ∀ d ∈ document.fragmentDefinitions, DefinitionTyped schema query
      (Noted schema s.members.forwardFragmentReferences) (.fragment d)

theorem DefinitionTyped.mono {spread spread' : Declaration → Name → Prop}
    (hspread : ∀ d name, spread d name → spread' d name) {definition : PrimaryDefinition}
    (h : DefinitionTyped schema query spread definition) :
    DefinitionTyped schema query spread' definition := by
  cases definition with
  | operation d =>
    obtain ⟨root, set, hroot, hset, htyped⟩ := h
    exact ⟨root, set, hroot, hset, htyped.mono hspread⟩
  | fragment d =>
    obtain ⟨typeName, o, set, htype, hobject, hset, htyped⟩ := h
    exact ⟨typeName, o, set, htype, hobject, hset, htyped.mono hspread⟩

theorem DocumentTyped.follows {document : ExecutableDefinition} {settled : Prop}
    {s s' : GraphQlExecutor} (h : Follows settled s s')
    (hs : DocumentTyped schema query document s) : DocumentTyped schema query document s' :=
  ⟨fun d hd => (hs.1 d hd).mono fun _ _ => Noted.mono h,
    fun d hd => (hs.2 d hd).mono fun _ _ => Noted.mono h⟩

theorem DocumentTyped.add {document : ExecutableDefinition} {s : GraphQlExecutor}
    (hs : DocumentTyped schema query document s) {definition : PrimaryDefinition}
    (h : DefinitionTyped schema query (Noted schema s.members.forwardFragmentReferences)
      definition) : DocumentTyped schema query (addDefinition document definition) s := by
  have happend : ∀ {δ : Type} {ds : List δ} {d : δ} {P : δ → Prop}, (∀ x ∈ ds, P x) → P d →
      ∀ x ∈ ds ++ [d], P x := by
    intro δ ds d P hds hd x hx
    rcases List.mem_append.1 hx with hold | hnew
    · exact hds x hold
    · exact List.mem_singleton.1 hnew ▸ hd
  cases definition with
  | operation d => exact ⟨happend hs.1 h, hs.2⟩
  | fragment d => exact ⟨hs.1, happend hs.2 h⟩

include hschema in
theorem ensures_parseDefinitions (fuel : Nat) : ∀ {token document},
    Ensures (fitting schema) (fun s => Within schema query stack s ∧
        DocumentTyped schema query document s) (parseDefinitions fuel token document)
      fun document' s => Within schema query stack s ∧ DocumentTyped schema query document' s := by
  induction fuel with
  | zero => exact never_stop.ensures
  | succ fuel ih =>
    intro token document
    unfold parseDefinitions
    split
    · exact ensures_pure fun s hs => hs
    refine ensures_bind ((ensures_parsePrimaryToken hschema).frame keeps_parsePrimaryToken
      fun _ _ h => DocumentTyped.follows h) fun definition? => ?_
    intro s document' s' hs hm
    obtain ⟨⟨definition, rfl, htyped, hwithin⟩, hdocument⟩ := hs
    have htake : Ensures (fitting schema) (fun s => Within schema query stack s ∧
        DocumentTyped schema query (addDefinition document definition) s) takeToken fun _ s =>
          Within schema query stack s ∧
            DocumentTyped schema query (addDefinition document definition) s :=
      (ensures_settled keeps_takeToken).frame (R := Follows True) keeps_takeToken
        fun _ _ h => DocumentTyped.follows h
    exact ensures_bind htake (fun token => ih) s document' s' ⟨hwithin, hdocument.add htyped⟩ hm

include hschema in
/-- A reference that is reported not to fit nowhere fits. -/
theorem ensures_checkForwardFragmentReference {fragments : List FragmentDefinition}
    (hfragments : ∀ f ∈ fragments, ∃ typeName o, f.type = some typeName ∧
      declarationNamed schema typeName.identifier = some (.object o))
    {reference : Name × Option DeclarationId} :
    Ensures (fitting schema) (Within schema query stack)
      (checkForwardFragmentReference fragments reference) fun _ s =>
        Within schema query stack s ∧ ∀ id d, reference.2 = some id → Declared schema id d →
          SpreadFits schema fragments d reference.1 := by
  obtain ⟨name, current⟩ := reference
  simp only [checkForwardFragmentReference]
  split
  · exact (never_reportAt.anti fitting_le_clean).ensures
  next fragment hfragment =>
  obtain ⟨typeName, o, htype, hobject⟩ := hfragments fragment (List.mem_of_find?_eq_some hfragment)
  refine ensures_bind ensures_follow fun typeName' => ensures_fact fun h => ?_
  obtain rfl := Option.some.inj (htype.symm.trans h)
  obtain ⟨symbol, hsymbol, hpool⟩ := Option.bind_eq_some_iff.1 hobject
  refine ensures_bind (Q := fun symbol' s => symbol' = symbol ∧ Within schema query stack s)
    ?_ fun symbol' => ensures_fact fun hsymbol' => ?_
  · intro s symbol' s' hs hm
    obtain ⟨hfind, rfl, -⟩ := ends_require.1 hm
    rw [hs.symbols, hsymbol] at hfind
    exact ⟨(Option.some.inj hfind).symm, hs⟩
  subst hsymbol'
  refine ensures_bind (ensures_declaration hpool) fun object => ensures_fact fun h => ?_
  subst h
  refine ensures_bind ensures_follow fun id => ensures_fact fun hid => ?_
  intro s u s' hs hm
  refine ⟨?_, fun id' d hid' hd => ?_⟩
  · exact ensures_bind (ensures_settled keeps_declaration) (fun _ =>
      ensures_settled keeps_checkFragmentAssignment) s u s' hs hm
  obtain rfl := Option.some.inj (hid.symm.trans hid')
  have hpool' : schema.pool.declarations[id]? = some d := by
    obtain ⟨-, -, -, -, hpool'⟩ := hd
    exact hpool'
  obtain ⟨parent, s₁, hparent, hm⟩ := ends_bind.1 hm
  obtain ⟨rfl, hs⟩ := ensures_declaration hpool' s parent s₁ hs hparent
  have hfits := (ensures_checkFragmentAssignment fitting_le_clean hschema
    ⟨_, symbol', hsymbol, rfl, hpool⟩ hd s₁ u s' hs hm).1
  exact ⟨fragment, typeName, o, hfragment, htype, hobject, hfits⟩

include hschema in
theorem ensures_checkForwardFragmentReferences {document : ExecutableDefinition} :
    Ensures (fitting schema) (fun s => Within schema query stack s ∧
        DocumentTyped schema query document s)
      (checkForwardFragmentReferences document.fragmentDefinitions) fun _ _ =>
        TypeCorrect schema query document := by
  intro s u s' hs hm
  obtain ⟨hwithin, hdocument⟩ := hs
  obtain ⟨references, s₁, hread, hm⟩ := ends_bind.1 hm
  obtain ⟨rfl, rfl⟩ := ends_read hread
  have hfragments : ∀ f ∈ document.fragmentDefinitions, ∃ typeName o, f.type = some typeName ∧
      declarationNamed schema typeName.identifier = some (.object o) := by
    intro f hf
    obtain ⟨typeName, o, set, htype, hobject, -, -⟩ := hdocument.2 f hf
    exact ⟨typeName, o, htype, hobject⟩
  have hall := ensures_forM (P := Within schema query stack)
    (S := fun (reference : Name × Option DeclarationId) _ => ∀ id d, reference.2 = some id →
      Declared schema id d → SpreadFits schema document.fragmentDefinitions d reference.1)
    (fun reference _ => ensures_checkForwardFragmentReference hschema hfragments)
    (fun _ _ _ _ _ _ _ hs _ => hs.2) s₁ u s' hwithin hm
  have hspread : ∀ d name, Noted schema s₁.members.forwardFragmentReferences d name →
      SpreadFits schema document.fragmentDefinitions d name := by
    rintro d name ⟨id, hd, hmem⟩
    exact hall.2 _ hmem id d rfl hd
  exact ⟨fun d hd => (hdocument.1 d hd).mono hspread, fun d hd => (hdocument.2 d hd).mono hspread⟩

end Documents

/-- An accepted document is typed when every field that was looked up by its alias is there under its
name, with the same type where selections follow. -/
theorem typeCorrect_of_aliasesFit {source : Ustring} {schema : GraphQlSchema}
    (hschema : GraphQlSchema.Accepts source schema) {query : Ustring}
    {document : ExecutableDefinition} {executor : GraphQlExecutor}
    (h : Accepts schema query document executor)
    (hfit : ∀ step ∈ executor.steps, aliasFits schema step = true) :
    TypeCorrect schema query document := by
  have hconstructed := constructed_of_accepts hschema
  have hends : Ends (fitting schema) (execute query) (addSchema schema query) document executor :=
    ⟨h.1, h.2, hfit⟩
  obtain ⟨token, s₁, htoken, hends⟩ := ends_bind.1 hends
  obtain ⟨span, s₂, hspan, hends⟩ := ends_bind.1 hends
  obtain ⟨document', s₃, hparse, hends⟩ := ends_bind.1 hends
  obtain ⟨_, s₄, hcheck, hends⟩ := ends_bind.1 hends
  obtain ⟨diagnostics, s₅, -, hends⟩ := ends_bind.1 hends
  obtain ⟨rfl, -, -⟩ := ends_pure.1 hends
  have hwithin : Within schema query [] s₂ := by
    refine ensures_bind (ensures_settled keeps_takeToken) (fun _ => ensures_settled keeps_createSpan)
      _ span s₂ ⟨refl_of (Follows False) _, rfl⟩ (ends_bind.2 ⟨token, s₁, htoken, hspan⟩)
  have hempty : DocumentTyped schema query { span } s₂ :=
    ⟨fun d hd => absurd hd List.not_mem_nil, fun d hd => absurd hd List.not_mem_nil⟩
  have hdocument := ensures_parseDefinitions hconstructed _ _ _ _ ⟨hwithin, hempty⟩ hparse
  have hcorrect := ensures_checkForwardFragmentReferences hconstructed _ _ _ hdocument hcheck
  exact ⟨hcorrect.operations, hcorrect.fragments⟩

theorem accepts_of_run (schema : GraphQlSchema) (query : Ustring)
    (hstop : (run schema query).stop? = none)
    (hempty : (run schema query).state.diagnostics = []) : ∃ document,
      Accepts schema query document (run schema query).state ∧
        (run schema query).value? = some document := by
  obtain ⟨document, h⟩ := Outcome.exists_eq_ok hstop
  exact ⟨document, ⟨h, hempty⟩, congrArg Outcome.value? h⟩

/-- An alias for a field of the same type, with an inline fragment and a spread. -/
theorem typeCorrect_of_alias_and_fragments : ∃ schema document executor,
    GraphQlSchema.Accepts
        "interface I{x:Int} type A implements I{x:Int} type Query{i:I j:I}".toList schema ∧
      Accepts schema "{i:j{x ...on A{x} ...F}} fragment F on A{x}".toList document executor ∧
      TypeCorrect schema "{i:j{x ...on A{x} ...F}} fragment F on A{x}".toList document := by
  have hschema : GraphQlSchema.Accepts
      "interface I{x:Int} type A implements I{x:Int} type Query{i:I j:I}".toList _ :=
    GraphQlSchema.accepts_of_run (by decide +kernel) (by decide +kernel)
  obtain ⟨document, haccepts, -⟩ := accepts_of_run (GraphQlSchema.run
    "interface I{x:Int} type A implements I{x:Int} type Query{i:I j:I}".toList).state
    "{i:j{x ...on A{x} ...F}} fragment F on A{x}".toList
    (by decide +kernel) (by decide +kernel)
  exact ⟨_, document, _, hschema, haccepts,
    typeCorrect_of_aliasesFit hschema haccepts (by decide +kernel)⟩

/-- The names of the fields that the operations of a document select. -/
def fieldNames (document : ExecutableDefinition) : List (Option Ustring) :=
  document.operationDefinitions.flatMap fun d =>
    (d.selectionSet.map (·.selections)).getD [] |>.map fun selection =>
      match selection with
      | .field _ _ name _ _ _ => name.map (·.identifier)
      | _ => none

theorem exists_field_of_typeCorrect {schema : GraphQlSchema} {query : Ustring}
    {document : ExecutableDefinition} (h : TypeCorrect schema query document) {name : Ustring}
    (hname : some name ∈ fieldNames document) :
    ∃ operationType root definition, rootOf schema operationType = some root ∧
      fieldNamed root name = some definition := by
  obtain ⟨d, hd, hname⟩ := List.mem_flatMap.1 hname
  obtain ⟨root, set, hroot, hset, htyped⟩ := h.operations d hd
  obtain ⟨selection, hselection, hname⟩ := List.mem_map.1 hname
  cases htyped with
  | mk hselections =>
    rw [hset, Option.map_some, Option.getD_some] at hselection
    have htyped := hselections selection hselection
    cases htyped with
    | leaf hfield =>
      obtain rfl := Option.some.inj hname
      exact ⟨_, root, _, hroot, hfield⟩
    | nested hfield _ _ _ =>
      obtain rfl := Option.some.inj hname
      exact ⟨_, root, _, hroot, hfield⟩
    | fragmentSpread _ => exact absurd hname (by simp)
    | inlineFragment _ _ _ => exact absurd hname (by simp)

/-- The alias is a field, and the name after it is not. -/
theorem not_typeCorrect_of_alias : ∃ schema document executor,
    GraphQlSchema.Accepts "type Query{a:Int}".toList schema ∧
      Accepts schema "{a:b}".toList document executor ∧
      ¬ TypeCorrect schema "{a:b}".toList document := by
  have hschema : GraphQlSchema.Accepts "type Query{a:Int}".toList _ :=
    GraphQlSchema.accepts_of_run (by decide +kernel) (by decide +kernel)
  obtain ⟨document, haccepts, hvalue⟩ := accepts_of_run
    (GraphQlSchema.run "type Query{a:Int}".toList).state "{a:b}".toList
    (by decide +kernel) (by decide +kernel)
  refine ⟨_, document, _, hschema, haccepts, fun hcorrect => ?_⟩
  have hnames : (run (GraphQlSchema.run "type Query{a:Int}".toList).state
      "{a:b}".toList).value?.map fieldNames = some [some "b".toList] := by decide +kernel
  rw [hvalue, Option.map_some, Option.some.injEq] at hnames
  have hname : some "b".toList ∈ fieldNames document := by simp [hnames]
  obtain ⟨operationType, root, definition, hroot, hfield⟩ :=
    exists_field_of_typeCorrect hcorrect hname
  have hnone : ((rootOf (GraphQlSchema.run "type Query{a:Int}".toList).state operationType).bind
      (fieldNamed · "b".toList)).isNone = true := by
    clear hroot
    cases operationType <;> decide +kernel
  rw [hroot, Option.bind_some, hfield, Option.isNone_some] at hnone
  exact absurd hnone Bool.false_ne_true

end GraphQlExecutor

end Flashpoint
