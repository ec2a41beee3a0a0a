import Flashpoint.Clean
import Flashpoint.Schema.Check

/-!
# What a clean construction leaves behind

`WellFormed` is the invariant of the parsing loop over clean runs: the type references are exactly
the named type nodes, every symbol stands for a declaration of its kind, and every declaration but
the one being read is complete.  Symbols are registered before their bodies are read, so the invariant
carries the open declaration; every exit of a body that leaves it incomplete has reported something.
-/

namespace Flashpoint

open Library Climb

/-! ## Well-formed nodes -/

namespace TypeEnum

/-- The tags of the built-in scalar types. -/
def isScalar : TypeEnum → Bool
  | .int | .float | .string | .boolean | .id => true
  | _ => false

end TypeEnum

namespace TypeNode

/-- How `parse_type_annotation` leaves a node: a scalar, or a named object type. -/
def IsParsed (t : TypeNode) : Prop :=
  (t.name = none ∧ t.type.isScalar = true) ∨ (t.name.isSome = true ∧ t.type = .object)

end TypeNode

/-- The node under an index lies in an input location or not. -/
def IsTypeAt (types : List TypeNode) (inInputLocation : Bool) (id : TypeId) : Prop :=
  ∃ t, types[id]? = some t ∧ t.inInputLocation = inInputLocation

/-- The declared arguments are named by their keys and have types in input locations. -/
def ArgumentsWellFormed (types : List TypeNode) (arguments : UstringMap InputValueDefinition) :
    Prop :=
  ∀ k d, arguments.find? k = some d → d.name.identifier = k ∧
    ∃ id, d.type = some id ∧ IsTypeAt types true id

/-- The fields of an object or an interface. -/
def FieldsWellFormed (types : List TypeNode) (fields : UstringMap FieldDefinition) : Prop :=
  ∀ k d, fields.find? k = some d → d.name.identifier = k ∧ IsTypeAt types false d.type ∧
    ArgumentsWellFormed types d.arguments

/-- The fields of an input object. -/
def InputFieldsWellFormed (types : List TypeNode) (fields : UstringMap InputFieldDefinition) :
    Prop :=
  ∀ k d, fields.find? k = some d → d.name.identifier = k ∧ IsTypeAt types true d.type

/-- A declaration whose body was read: it has fields, or values. -/
def Declaration.Complete (types : List TypeNode) : Declaration → Prop
  | .object o => ∃ fields, o.fields = some fields ∧ fields.entries ≠ [] ∧
      FieldsWellFormed types fields
  | .interface i => ∃ fields, i.fields = some fields ∧ fields.entries ≠ [] ∧
      FieldsWellFormed types fields
  | .inputObject o => ∃ fields, o.fields = some fields ∧ fields.entries ≠ [] ∧
      InputFieldsWellFormed types fields
  | .enum e => e.values.entries ≠ []
  | .union _ => True

namespace Declaration

/-- The declaration has fields, or values, where its kind has any. -/
def HasBody : Declaration → Prop
  | .object o => ∃ fields, o.fields = some fields ∧ fields.entries ≠ []
  | .interface i => ∃ fields, i.fields = some fields ∧ fields.entries ≠ []
  | .inputObject o => ∃ fields, o.fields = some fields ∧ fields.entries ≠ []
  | .enum e => e.values.entries ≠ []
  | .union _ => True

theorem Complete.hasBody {types : List TypeNode} {d : Declaration}
    (h : d.Complete types) : d.HasBody := by
  cases d with
  | object o =>
    obtain ⟨fields, hfields, hne, -⟩ := h
    exact ⟨fields, hfields, hne⟩
  | interface i =>
    obtain ⟨fields, hfields, hne, -⟩ := h
    exact ⟨fields, hfields, hne⟩
  | inputObject o =>
    obtain ⟨fields, hfields, hne, -⟩ := h
    exact ⟨fields, hfields, hne⟩
  | enum e => exact h
  | union u => trivial

theorem Complete.objectFields {types : List TypeNode} {d : Declaration}
    (h : d.Complete types) {fields : UstringMap FieldDefinition}
    (hfields : d.objectFields? = some fields) : FieldsWellFormed types fields := by
  cases d with
  | object o =>
    obtain ⟨fields', hfields', -, hwf⟩ := h
    obtain rfl := Option.some.inj (hfields'.symm.trans hfields)
    exact hwf
  | interface i =>
    obtain ⟨fields', hfields', -, hwf⟩ := h
    obtain rfl := Option.some.inj (hfields'.symm.trans hfields)
    exact hwf
  | inputObject o => cases hfields
  | enum e => cases hfields
  | union u => cases hfields

end Declaration

/-- The locations of a directive definition: there are some, and none is unknown. -/
def LocationsWellFormed (locations : Finset DirectiveLocation) : Prop :=
  locations.Nonempty ∧ DirectiveLocation.unknown ∉ locations

section Prefix

variable {types types' : List TypeNode} (h : types <+: types')
include h

theorem getElem?_of_prefix {id : TypeId} {t : TypeNode} (ht : types[id]? = some t) :
    types'[id]? = some t := by
  obtain ⟨rest, rfl⟩ := h
  exact (List.getElem?_append_left (List.getElem?_eq_some_iff.1 ht).1).trans ht

theorem IsTypeAt.mono {b : Bool} {id : TypeId} (ht : IsTypeAt types b id) :
    IsTypeAt types' b id := by
  obtain ⟨t, hid, hb⟩ := ht
  exact ⟨t, getElem?_of_prefix h hid, hb⟩

theorem ArgumentsWellFormed.mono {arguments : UstringMap InputValueDefinition}
    (ha : ArgumentsWellFormed types arguments) : ArgumentsWellFormed types' arguments := by
  intro k d hd
  obtain ⟨hname, id, hid, ht⟩ := ha k d hd
  exact ⟨hname, id, hid, ht.mono h⟩

theorem FieldsWellFormed.mono {fields : UstringMap FieldDefinition}
    (hf : FieldsWellFormed types fields) : FieldsWellFormed types' fields := by
  intro k d hd
  obtain ⟨hname, ht, ha⟩ := hf k d hd
  exact ⟨hname, ht.mono h, ha.mono h⟩

theorem InputFieldsWellFormed.mono {fields : UstringMap InputFieldDefinition}
    (hf : InputFieldsWellFormed types fields) : InputFieldsWellFormed types' fields := by
  intro k d hd
  obtain ⟨hname, ht⟩ := hf k d hd
  exact ⟨hname, ht.mono h⟩

theorem Declaration.Complete.mono {d : Declaration} (hd : d.Complete types) :
    d.Complete types' := by
  cases d with
  | object o =>
    obtain ⟨fields, hfields, hne, hwf⟩ := hd
    exact ⟨fields, hfields, hne, hwf.mono h⟩
  | interface i =>
    obtain ⟨fields, hfields, hne, hwf⟩ := hd
    exact ⟨fields, hfields, hne, hwf.mono h⟩
  | inputObject o =>
    obtain ⟨fields, hfields, hne, hwf⟩ := hd
    exact ⟨fields, hfields, hne, hwf.mono h⟩
  | enum e => exact hd
  | union u => exact hd

end Prefix

/-! ## Maps that grow -/

/-- What holds of the entries of a map and of a new one holds after an `emplace`. -/
theorem forall_find?_emplace {V : Type} {m : UstringMap V} {k : Ustring} {v : V}
    {p : Ustring → V → Prop} (hm : ∀ k' v', m.find? k' = some v' → p k' v') (hv : p k v) :
    ∀ k' v', (m.emplace k v).find? k' = some v' → p k' v' := by
  intro k' v' h
  rcases SortedMap.find?_emplace_cases h with h | ⟨rfl, rfl, -⟩
  · exact hm k' v' h
  · exact hv

/-! ## The invariant of the parsing loop -/

namespace GraphQlSchema

open ParserM

/-- The type references are the indices of the named nodes. -/
structure TypesWellFormed (types : List TypeNode) (references : List TypeId) : Prop where
  parsed : ∀ t ∈ types, t.IsParsed
  references : ∀ id, id ∈ references ↔ ∃ t, types[id]? = some t ∧ t.name.isSome = true

/-- A symbol and the declaration it stands for; that one is complete unless it is open. -/
def SymbolWellFormed (isOpen : DeclarationId → Ustring → Prop) (pool : Pool) (k : Ustring)
    (symbol : Symbol) : Prop :=
  ∃ d, pool.declarations[symbol.declaration]? = some d ∧ d.kind = symbol.kind ∧
    (¬ isOpen symbol.declaration k → d.Complete pool.types ∧ d.name.map (·.identifier) = some k)

/-- The directive definitions, and how the steps at which the first locations were read account for
an end of the document among the locations. -/
structure DirectivesWellFormed (types : List TypeNode)
    (definitions : UstringMap DirectiveDefinition) (steps : List LocationStep) : Prop where
  arguments : ∀ k d, definitions.find? k = some d → ArgumentsWellFormed types d.arguments
  locations : ∀ k d, definitions.find? k = some d → LocationsWellFormed d.locations
  endOfDocument : (∃ k d, definitions.find? k = some d ∧ .endOfDocument ∈ d.locations) ↔
    ∃ step ∈ steps, step.isNew = true ∧ step.scanner.scanDirectiveLocation.1 = .endOfDocument

/-- The invariant of the parsing loop, with the declarations that are open under a name. -/
structure WellFormed (isOpen : DeclarationId → Ustring → Prop) (pool : Pool)
    (members : SchemaMembers) : Prop where
  types : TypesWellFormed pool.types members.forwardTypeReferences
  symbols : ∀ k symbol, members.symbols.find? k = some symbol →
    SymbolWellFormed isOpen pool k symbol
  directives : DirectivesWellFormed pool.types members.directiveDefinitions members.locationSteps
  interfaces : ∀ k id, members.interfaces.find? k = some id →
    ∃ i, pool.declarations[id]? = some (.interface i)


/-! ## Values and directives touch no node -/

theorem quiet_skipToNextPrimaryToken : Keeps Quiet skipToNextPrimaryToken :=
  keeps_bind quiet_skipTo fun _ => keeps_pure

theorem quiet_update {f : GraphQlSchema → GraphQlSchema} (hpool : ∀ s, (f s).pool = s.pool)
    (hmembers : ∀ s, (f s).members = s.members) : Keeps Quiet (update f) :=
  keeps_step fun s => ⟨hpool s, hmembers s⟩

theorem quiet_parseValues (fuel : Nat) :
    Keeps Quiet (parseValue fuel) ∧ Keeps Quiet (parseListValues fuel) ∧
      Keeps Quiet (parseObjectFields fuel) := by
  induction fuel with
  | zero => exact ⟨quiet_outOfFuel, quiet_outOfFuel, quiet_outOfFuel⟩
  | succ fuel ih =>
    obtain ⟨ihValue, ihList, ihFields⟩ := ih
    refine ⟨?_, ?_, ?_⟩
    · have hspan : ∀ {value : Span → Value}, Keeps Quiet (do
          let span ← createSpan
          return some (value span) : SchemaM (Option Value)) := fun {_} =>
        keeps_bind quiet_createSpan fun _ => keeps_pure
      have hvalue : ∀ {value : Span → Ustring → Value}, Keeps Quiet (do
          let span ← createSpan
          let text ← getTokenValue
          return some (value span text) : SchemaM (Option Value)) := fun {_} =>
        keeps_bind quiet_createSpan fun _ => keeps_bind quiet_getTokenValue fun _ => keeps_pure
      unfold parseValue
      refine keeps_bind quiet_takeToken fun token => ?_
      refine keeps_bind (quiet_update (fun _ => rfl) fun _ => rfl) fun _ => ?_
      split
      · refine keeps_bind quiet_createSpan fun _ => keeps_bind ihList fun _ => ?_
        refine keeps_bind quiet_read fun _ => keeps_bind (keeps_when ?_) fun _ =>
          keeps_bind quiet_finishSpan fun _ => keeps_pure
        exact keeps_bind quiet_getTokenValue fun _ => quiet_addDiagnostic
      · exact keeps_pure
      · exact hspan
      · exact hvalue
      · exact hvalue
      · exact hvalue
      · exact hspan
      · exact hspan
      · exact hvalue
      · refine keeps_bind quiet_createSpan fun _ => keeps_bind ihFields fun fields => ?_
        split
        · exact keeps_pure
        · exact keeps_bind quiet_finishSpan fun _ => keeps_pure
      · exact keeps_bind quiet_getTokenValue fun _ => keeps_bind quiet_addDiagnostic fun _ =>
          keeps_bind quiet_skipTo fun _ => keeps_pure
    · unfold parseListValues
      refine keeps_bind ihValue fun value => ?_
      split
      · exact keeps_pure
      · exact keeps_bind ihList fun _ => keeps_pure
    · unfold parseObjectFields
      refine keeps_bind quiet_takeNextToken fun token => ?_
      split
      · exact keeps_pure
      split
      · refine keeps_bind quiet_addDiagnostic fun _ => keeps_bind quiet_skipTo fun t => ?_
        split
        · exact ihFields
        · exact keeps_pure
      refine keeps_bind quiet_getTokenValue fun _ => keeps_bind quiet_createSpan fun _ => ?_
      refine keeps_bind quiet_createName fun _ => keeps_bind quiet_scanExpected fun colon => ?_
      split
      · exact keeps_bind ihValue fun _ => keeps_bind ihFields fun _ => keeps_pure
      · exact keeps_pure

theorem quiet_parseArgumentsAfterOpenParen (fuel : Nat) (arguments : UstringMap Argument) :
    Keeps Quiet (parseArgumentsAfterOpenParen fuel arguments) := by
  induction fuel generalizing arguments with
  | zero => exact quiet_outOfFuel
  | succ fuel ih =>
    unfold parseArgumentsAfterOpenParen
    refine keeps_bind quiet_takeNextToken fun token => ?_
    split
    · exact keeps_pure
    refine keeps_bind quiet_getTokenValue fun _ => keeps_bind quiet_createName fun _ => ?_
    refine keeps_bind quiet_createSpan fun _ => keeps_bind quiet_scanExpected fun colon => ?_
    split
    · refine keeps_bind (quiet_parseValues fuel).1 fun value => ?_
      split
      · exact ih _
      · refine keeps_bind ?_ fun _ => ih _
        exact keeps_bind quiet_hasDiagnosticInSyntax fun _ =>
          keeps_bind (keeps_when quiet_reportAt) fun _ => quiet_reportAt
    · exact keeps_bind quiet_skipTo fun _ => keeps_pure

theorem quiet_parseDirectivesLoop (location : DirectiveLocation) (parent : Option Name) (fuel : Nat)
    (directives : UstringMap Directive) :
    Keeps Quiet (parseDirectivesLoop location parent fuel directives) := by
  induction fuel generalizing directives with
  | zero => exact quiet_outOfFuel
  | succ fuel ih =>
    have harguments : Keeps Quiet (parseDirectiveArguments fuel) := by
      refine keeps_bind quiet_scanOptional fun paren => ?_
      split
      · exact quiet_parseArgumentsAfterOpenParen _ _
      · exact keeps_pure
    unfold parseDirectivesLoop
    refine keeps_bind quiet_scanOptional fun found => ?_
    split
    · refine keeps_bind quiet_takeNextToken fun token => ?_
      split
      · exact keeps_bind quiet_getTokenValue fun _ => keeps_bind quiet_addDiagnostic fun _ =>
          keeps_bind quiet_skipToNextPrimaryToken fun _ => keeps_pure
      refine keeps_bind quiet_createSpan fun _ => keeps_bind quiet_getTokenValue fun _ => ?_
      refine keeps_bind quiet_createName fun _ => keeps_bind harguments fun _ => ?_
      refine keeps_bind (quiet_update (fun _ => rfl) fun _ => rfl) fun _ => ?_
      split
      · exact ih _
      · exact keeps_bind quiet_addDiagnostic fun _ => ih _
    · exact keeps_pure

theorem quiet_parseDirectives {fuel : Nat} {location : DirectiveLocation} {parent : Option Name} :
    Keeps Quiet (parseDirectives fuel location parent) := quiet_parseDirectivesLoop _ _ _ _

/-! ## Types -/

theorem modify_append_last (types : List TypeNode) (t : TypeNode) (f : TypeNode → TypeNode) :
    (types ++ [t]).modify types.length f = types ++ [f t] := by
  induction types with
  | nil => rfl
  | cons u types ih => simp only [List.cons_append, List.length_cons, List.modify_succ_cons, ih]

/-- The members after the type reference of a node was noted. -/
def noteReference (members : SchemaMembers) (id : TypeId) (t : TypeNode) : SchemaMembers :=
  { members with
    forwardTypeReferences :=
      members.forwardTypeReferences ++ if t.name.isSome then [id] else [] }

/-- The nodes and members of a state with a type node added to those given. -/
def TypeAdded (pool₀ : Pool) (members₀ : SchemaMembers) (inInputLocation : Bool)
    (parent : Option Name) (pool : Pool) (members : SchemaMembers) : Prop :=
  ∃ t : TypeNode, t.inInputLocation = inInputLocation ∧ t.parentDirectiveDefinition = parent ∧
    t.IsParsed ∧ pool = { pool₀ with types := pool₀.types ++ [t] } ∧
    members = noteReference members₀ pool₀.types.length t

/-- A token that names a type: a scalar keyword, or a name. -/
theorem isParsed_of_typeOfToken {token : GraphQlToken} {type : TypeEnum}
    (h : typeOfToken token = some type) :
    (token ≠ .gName ∧ type.isScalar = true) ∨ (token = .gName ∧ type = .object) := by
  unfold typeOfToken at h
  split at h
  all_goals first
    | exact absurd h (by simp only [reduceCtorEq, not_false_eq_true])
    | exact .inr ⟨rfl, (Option.some.inj h).symm⟩
    | exact .inl ⟨by simp only [ne_eq, reduceCtorEq, not_false_eq_true], Option.some.inj h ▸ rfl⟩

section TypeAnnotation

variable {pool₀ : Pool} {members₀ : SchemaMembers} {b : Bool} {p : Option Name}

/-- Changing the node that was added, its name, tag and location apart. -/
theorem ensures_modifyType {f : TypeNode → TypeNode} (hname : ∀ t, (f t).name = t.name)
    (htype : ∀ t, (f t).type = t.type) (hinput : ∀ t, (f t).inInputLocation = t.inInputLocation)
    (hparent : ∀ t, (f t).parentDirectiveDefinition = t.parentDirectiveDefinition) :
    Ensures clean (On (TypeAdded pool₀ members₀ b p))
      (ParserM.modifyType pool₀.types.length f : SchemaM Unit)
      fun _ => On (TypeAdded pool₀ members₀ b p) := by
  refine ensures_step fun s hs => ?_
  obtain ⟨t, hb, hp, hparsed, hpool, hmembers⟩ := hs
  refine ⟨f t, (hinput t).trans hb, (hparent t).trans hp, ?_, ?_, ?_⟩
  · simpa only [TypeNode.IsParsed, hname, htype] using hparsed
  · simp only [hpool, modify_append_last]
  · simp only [hmembers, noteReference, hname]

theorem ensures_createType {node : TypeNode} :
    Ensures clean (On fun pool members => pool = pool₀ ∧ members = members₀)
      (createType node : SchemaM TypeId)
      fun id s => id = pool₀.types.length ∧ On (fun pool members =>
        pool = { pool₀ with types := pool₀.types ++ [node] } ∧ members = members₀) s := by
  intro s id s' hs hends
  obtain ⟨rfl, rfl⟩ := hs
  obtain ⟨_, s₁, hread, hends⟩ := ends_bind.1 hends
  obtain ⟨_, s₂, hupdate, hends⟩ := ends_bind.1 hends
  obtain ⟨_, _, hget, hread⟩ := ends_bind.1 hread
  obtain ⟨rfl, rfl, -⟩ := ends_get.1 hget
  obtain ⟨rfl, rfl, -⟩ := ends_pure.1 hread
  obtain ⟨-, rfl, -⟩ := ends_step.1 hupdate
  obtain ⟨rfl, rfl, -⟩ := ends_pure.1 hends
  exact ⟨rfl, rfl, rfl⟩

/-- A clean run of `parse_type_annotation` from the token that names the type on adds one node. -/
theorem ensures_parseNamedType {span : Span} {isListType : Bool} {token : GraphQlToken} :
    Ensures clean (On fun pool members => pool = pool₀ ∧ members = members₀)
      (parseNamedType span b p isListType token)
      fun r s => r = some pool₀.types.length ∧ On (TypeAdded pool₀ members₀ b p) s := by
  have hfinish : ∀ {span}, Ensures clean (On (TypeAdded pool₀ members₀ b p))
      (do
        let span ← finishSpan span
        modifyType pool₀.types.length fun t => { t with span }
        return some pool₀.types.length : SchemaM (Option TypeId))
      fun r s => r = some pool₀.types.length ∧ On (TypeAdded pool₀ members₀ b p) s := by
    intro span
    refine ensures_bind (ensures_quiet quiet_finishSpan) fun span => ?_
    exact ensures_bind (ensures_modifyType (fun _ => rfl) (fun _ => rfl) (fun _ => rfl) fun _ => rfl)
      fun _ => ensures_pure fun s hs => ⟨rfl, hs⟩
  unfold parseNamedType
  split
  · exact (never_bind fun _ => Never.bind never_addDiagnostic).ensures
  · next type htype =>
    refine ensures_bind (ensures_quiet quiet_getTokenValue) fun value => ?_
    refine ensures_bind (ensures_quiet quiet_createName) fun name => ?_
    refine ensures_bind ensures_createType fun id => ensures_fact fun hid => ?_
    subst hid
    have hreference : Ensures clean
        (On fun pool members => pool = { pool₀ with types := pool₀.types ++
          [{ span, inInputLocation := b, parentDirectiveDefinition := p, isListType, type
             name := if token = .gName then some name else none }] } ∧ members = members₀)
        (when (token = .gName) do
          modifyMembers fun m =>
            { m with forwardTypeReferences := m.forwardTypeReferences ++ [pool₀.types.length] })
        fun _ => On (TypeAdded pool₀ members₀ b p) := by
      have hparsed := isParsed_of_typeOfToken htype
      refine ensures_when (fun htoken => ensures_step fun s hs => ?_) fun htoken s hs => ?_
      · refine ⟨_, rfl, rfl, .inr ?_, hs.1, ?_⟩
        · simpa only [htoken, ne_eq, not_true_eq_false, false_and, true_and, false_or, if_true,
            Option.isSome_some] using hparsed
        · simp only [noteReference, htoken, if_true, Option.isSome_some, hs.2]
      · refine ⟨_, rfl, rfl, .inl ?_, hs.1, ?_⟩
        · simpa only [htoken, ne_eq, not_false_eq_true, true_and, false_and, or_false,
            if_false] using hparsed
        · simp only [noteReference, htoken, if_false, Option.isSome_none, Bool.false_eq_true,
            List.append_nil, hs.2]
    refine ensures_bind hreference fun _ => ?_
    refine ensures_bind (ensures_quiet quiet_scanOptional) fun isNonNull => ?_
    refine ensures_bind (ensures_modifyType (fun _ => rfl) (fun _ => rfl) (fun _ => rfl) fun _ => rfl)
      fun _ => ?_
    split
    · refine ensures_bind ensures_scanExpected fun found => ensures_fact fun hfound => ?_
      subst hfound
      refine ensures_bind (ensures_quiet quiet_scanOptional) fun isNonNullList => ?_
      refine ensures_bind (ensures_modifyType (fun _ => rfl) (fun _ => rfl) (fun _ => rfl)
        fun _ => rfl) fun _ => hfinish
    · exact hfinish

end TypeAnnotation

theorem ensures_parseTypeAnnotation {pool₀ : Pool} {members₀ : SchemaMembers} {b : Bool}
    {p : Option Name} :
    Ensures clean (On fun pool members => pool = pool₀ ∧ members = members₀)
      ( parseTypeAnnotation b p)
      fun r s => r = some pool₀.types.length ∧ On (TypeAdded pool₀ members₀ b p) s := by
  refine ensures_bind (ensures_quiet quiet_takeToken) fun token => ?_
  refine ensures_bind (ensures_quiet quiet_createSpan) fun span => ?_
  split
  · exact ensures_bind (ensures_quiet quiet_takeToken) fun _ => ensures_parseNamedType
  · exact ensures_parseNamedType

/-! ## Nodes that grow -/

/-- Type nodes are added and the declarations stay. -/
structure PoolGrows (pool pool' : Pool) : Prop where
  types : pool.types <+: pool'.types
  declarations : pool'.declarations = pool.declarations

/-- What is not lost when type nodes are added. -/
def Stable (J : Pool → Prop) : Prop := ∀ pool pool', PoolGrows pool pool' → J pool → J pool'

/-- The invariant of the loop with a stable property of the nodes. -/
def Frame (isOpen : DeclarationId → Ustring → Prop)
    (J : Pool → Prop) (pool : Pool) (members : SchemaMembers) : Prop :=
  WellFormed isOpen pool members ∧ J pool

theorem stable_and {J K : Pool → Prop} (hJ : Stable J) (hK : Stable K) :
    Stable fun pool => J pool ∧ K pool :=
  fun pool pool' h hpool => ⟨hJ pool pool' h hpool.1, hK pool pool' h hpool.2⟩

theorem stable_arguments {arguments : UstringMap InputValueDefinition} :
    Stable fun pool => ArgumentsWellFormed pool.types arguments :=
  fun _ _ h ha => ha.mono h.types

theorem stable_fields {fields : UstringMap FieldDefinition} :
    Stable fun pool => FieldsWellFormed pool.types fields :=
  fun _ _ h hf => hf.mono h.types

theorem stable_inputFields {fields : UstringMap InputFieldDefinition} :
    Stable fun pool => InputFieldsWellFormed pool.types fields :=
  fun _ _ h hf => hf.mono h.types

theorem TypesWellFormed.add {types : List TypeNode} {members : SchemaMembers} {t : TypeNode}
    (h : TypesWellFormed types members.forwardTypeReferences) (ht : t.IsParsed) :
    TypesWellFormed (types ++ [t]) (noteReference members types.length t).forwardTypeReferences := by
  refine ⟨?_, fun id => ?_⟩
  · intro u hu
    rcases List.mem_append.1 hu with hu | hu
    · exact h.parsed u hu
    · exact List.mem_singleton.1 hu ▸ ht
  · have hnew : id ∈ (if t.name.isSome then [types.length] else []) ↔
        id = types.length ∧ t.name.isSome = true := by
      by_cases hname : t.name.isSome = true
      · simp only [hname, if_true, List.mem_singleton, and_true]
      · simp only [hname, Bool.false_eq_true, if_false, List.not_mem_nil, and_false]
    rw [noteReference, List.mem_append, h.references id, hnew]
    rcases Nat.lt_trichotomy id types.length with hlt | rfl | hgt
    · rw [List.getElem?_append_left hlt]
      simp only [Nat.ne_of_lt hlt, false_and, or_false]
    · simp only [List.getElem?_concat_length, List.getElem?_eq_none (Nat.le_refl _), reduceCtorEq,
        false_and, exists_false, true_and, false_or, Option.some.injEq, exists_eq_left']
    · have hnone : (types ++ [t])[id]? = none :=
        List.getElem?_eq_none (by rw [List.length_append]; exact hgt)
      simp only [hnone, List.getElem?_eq_none (Nat.le_of_lt hgt), reduceCtorEq, false_and,
        exists_false, Nat.ne_of_gt hgt, or_false]

theorem SymbolWellFormed.grows {isOpen : DeclarationId → Ustring → Prop} {pool pool' : Pool} {k : Ustring}
    {symbol : Symbol} (h : SymbolWellFormed isOpen pool k symbol) (hgrows : PoolGrows pool pool') :
    SymbolWellFormed isOpen pool' k symbol := by
  obtain ⟨d, hd, hkind, hcomplete⟩ := h
  refine ⟨d, hgrows.declarations ▸ hd, hkind, fun hopen => ?_⟩
  exact ⟨(hcomplete hopen).1.mono hgrows.types, (hcomplete hopen).2⟩

theorem DirectivesWellFormed.grows {types types' : List TypeNode}
    {definitions : UstringMap DirectiveDefinition} {steps : List LocationStep}
    (h : DirectivesWellFormed types definitions steps) (hgrows : types <+: types') :
    DirectivesWellFormed types' definitions steps :=
  ⟨fun k d hd => (h.arguments k d hd).mono hgrows, h.locations, h.endOfDocument⟩

/-- A type node is added to a well-formed state. -/
theorem WellFormed.addType {isOpen : DeclarationId → Ustring → Prop} {pool : Pool} {members : SchemaMembers}
    {t : TypeNode} (h : WellFormed isOpen pool members) (ht : t.IsParsed) :
    WellFormed isOpen { pool with types := pool.types ++ [t] }
      (noteReference members pool.types.length t) := by
  have hgrows : PoolGrows pool { pool with types := pool.types ++ [t] } :=
    ⟨List.prefix_append .., rfl⟩
  exact ⟨h.types.add ht, fun k symbol hfind => (h.symbols k symbol hfind).grows hgrows,
    h.directives.grows hgrows.types, h.interfaces⟩

section Parsing

variable {isOpen : DeclarationId → Ustring → Prop} {J : Pool → Prop} (hJ : Stable J)
include hJ

/-- A type annotation gives a node in the location asked for. -/
theorem frame_parseTypeAnnotation {b : Bool} {p : Option Name} :
    Ensures clean (On (Frame isOpen J)) ( parseTypeAnnotation b p) fun r s => ∃ id, r = some id ∧
      On (Frame isOpen fun pool => J pool ∧ IsTypeAt pool.types b id) s := by
  intro s r s' ⟨hwf, hj⟩ hends
  obtain ⟨rfl, t, hb, -, hparsed, hpool, hmembers⟩ :=
    ensures_parseTypeAnnotation s r s' ⟨rfl, rfl⟩ hends
  refine ⟨_, rfl, ?_⟩
  simp only [On, Frame, hpool, hmembers]
  refine ⟨hwf.addType hparsed, hJ _ _ ⟨List.prefix_append .., rfl⟩ hj, t, ?_, hb⟩
  exact List.getElem?_concat_length

end Parsing

section Fields

variable {isOpen : DeclarationId → Ustring → Prop} {J : Pool → Prop}

theorem frame_mono {J J' : Pool → Prop} (h : ∀ pool, J pool → J' pool) (s : GraphQlSchema)
    (hs : On (Frame isOpen J) s) : On (Frame isOpen J') s :=
  ⟨hs.1, h _ hs.2⟩

/-- The declared arguments that were read. -/
theorem frame_parseArgumentsDefinitionAfterOpenParen (hJ : Stable J) (parent : Option Name)
    (fuel : Nat) (arguments : UstringMap InputValueDefinition) :
    Ensures clean
      (On (Frame isOpen fun pool => J pool ∧ ArgumentsWellFormed pool.types arguments))
      (parseArgumentsDefinitionAfterOpenParen parent fuel arguments) fun r =>
        On (Frame isOpen fun pool => J pool ∧ ArgumentsWellFormed pool.types r) := by
  induction fuel generalizing arguments with
  | zero => exact never_stop.ensures
  | succ fuel ih =>
    unfold parseArgumentsDefinitionAfterOpenParen
    refine ensures_bind (ensures_quiet quiet_takeNextToken) fun token => ?_
    split
    · refine ensures_bind (ensures_quiet quiet_getStringValue) fun description => ?_
      exact ensures_bind (ensures_quiet (quiet_update (fun _ => rfl) fun _ => rfl)) fun _ => ih _
    refine ensures_bind (ensures_quiet quiet_createSpan) fun span => ?_
    refine ensures_bind (ensures_quiet quiet_read) fun description => ?_
    refine ensures_bind (ensures_quiet (quiet_update (fun _ => rfl) fun _ => rfl)) fun _ => ?_
    split
    · exact ensures_pure fun _ hs => hs
    split
    · exact (Never.bind never_addDiagnostic).ensures
    refine ensures_bind (ensures_quiet quiet_getTokenValue) fun value => ?_
    refine ensures_bind ensures_createName fun name => ensures_fact fun hname => ?_
    refine ensures_bind ensures_scanExpected fun colon => ensures_fact fun hcolon => ?_
    subst hcolon
    refine ensures_bind ( frame_parseTypeAnnotation (stable_and hJ stable_arguments)) fun type => ?_
    refine ensures_exists fun id => ensures_fact fun hid => ?_
    subst hid
    refine ensures_bind (ensures_quiet quiet_parseDirectives) fun directives => ?_
    split
    · refine (ih _).conseq (frame_mono fun pool hpool => ?_) fun _ _ h => h
      obtain ⟨⟨hj, harguments⟩, ht⟩ := hpool
      exact ⟨hj, forall_find?_emplace harguments ⟨hname, id, rfl, ht⟩⟩
    · exact (Never.bind never_addDiagnostic).ensures

theorem frame_parseArgumentsDefinition (hJ : Stable J) {parent : Option Name} {fuel : Nat} :
    Ensures clean (On (Frame isOpen J)) (parseArgumentsDefinition parent fuel) fun r =>
      On (Frame isOpen fun pool => J pool ∧ ArgumentsWellFormed pool.types r) := by
  have hempty : ∀ s, On (Frame isOpen J) s →
      On (Frame isOpen fun pool => J pool ∧ ArgumentsWellFormed pool.types ∅) s :=
    frame_mono fun pool hj => ⟨hj, fun k d hd => by simp only [SortedMap.find?_empty, reduceCtorEq] at hd⟩
  refine ensures_bind (ensures_quiet quiet_scanOptional) fun paren => ?_
  split
  · exact (frame_parseArgumentsDefinitionAfterOpenParen hJ _ _ _).conseq hempty fun _ _ h => h
  · exact ensures_pure hempty

/-- A clean run over the fields of an object or an interface ends with some. -/
theorem frame_parseFieldsDefinitionAfterOpenBrace (hJ : Stable J) (fuel : Nat)
    (fields : UstringMap FieldDefinition) (description : Ustring) :
    Ensures clean (On (Frame isOpen fun pool => J pool ∧ FieldsWellFormed pool.types fields))
      (parseFieldsDefinitionAfterOpenBrace fuel fields description) fun r s => ∃ fields',
        (r = some fields' ∧ fields'.entries ≠ []) ∧
        On (Frame isOpen fun pool => J pool ∧ FieldsWellFormed pool.types fields') s := by
  induction fuel generalizing fields description with
  | zero => exact never_stop.ensures
  | succ fuel ih =>
    unfold parseFieldsDefinitionAfterOpenBrace
    refine ensures_bind (ensures_quiet quiet_takeNextToken) fun token => ?_
    split
    · exact (Never.bind never_addDiagnostic).ensures
    split
    · next hclose => exact ensures_pure fun s hs => ⟨fields, ⟨rfl, hclose.2⟩, hs⟩
    split
    · exact ensures_bind (ensures_quiet quiet_getStringValue) fun _ => ih _ _
    split
    · exact ensures_bind (ensures_quiet quiet_takeErrorsFromScanner) fun _ => ih _ _
    split
    · exact (Never.bind never_addDiagnostic).ensures
    refine ensures_bind (ensures_quiet quiet_createSpan) fun span => ?_
    refine ensures_bind (ensures_quiet quiet_getTokenValue) fun value => ?_
    refine ensures_bind (ensures_quiet (keeps_when quiet_addDiagnostic)) fun _ => ?_
    refine ensures_bind ensures_createName fun name => ensures_fact fun hname => ?_
    refine ensures_bind (frame_parseArgumentsDefinition (stable_and hJ stable_fields))
      fun arguments => ?_
    refine ensures_bind ensures_scanExpected fun colon => ensures_fact fun hcolon => ?_
    subst hcolon
    refine ensures_bind ( frame_parseTypeAnnotation
      (stable_and (stable_and hJ stable_fields) stable_arguments)) fun type => ?_
    refine ensures_exists fun id => ensures_fact fun hid => ?_
    subst hid
    refine ensures_bind (ensures_quiet quiet_parseDirectives) fun directives => ?_
    refine (ih _ _).conseq (frame_mono fun pool hpool => ?_) fun _ _ h => h
    obtain ⟨⟨⟨hj, hfields⟩, harguments⟩, ht⟩ := hpool
    exact ⟨hj, forall_find?_emplace hfields ⟨hname, ht, harguments⟩⟩

theorem frame_parseFieldsEmpty (hJ : Stable J) {fuel : Nat} :
    Ensures clean (On (Frame isOpen J)) (parseFieldsDefinitionAfterOpenBrace fuel ∅ [])
      fun r s => ∃ fields, (r = some fields ∧ fields.entries ≠ []) ∧
        On (Frame isOpen fun pool => J pool ∧ FieldsWellFormed pool.types fields) s :=
  (frame_parseFieldsDefinitionAfterOpenBrace hJ fuel ∅ []).conseq
    (frame_mono fun pool hj => ⟨hj, fun k d hd => by
      simp only [SortedMap.find?_empty, reduceCtorEq] at hd⟩) fun _ _ h => h

theorem frame_parseFieldsDefinition (hJ : Stable J) {fuel : Nat} :
    Ensures clean (On (Frame isOpen J)) (parseFieldsDefinition fuel) fun r s => ∃ fields,
      (r = some fields ∧ fields.entries ≠ []) ∧
      On (Frame isOpen fun pool => J pool ∧ FieldsWellFormed pool.types fields) s := by
  refine ensures_bind ensures_scanExpected fun brace => ensures_fact fun hbrace => ?_
  subst hbrace
  exact frame_parseFieldsEmpty hJ

/-- A clean run over the fields of an input object ends with some. -/
theorem frame_parseInputFieldsDefinitionLoop (hJ : Stable J) (fuel : Nat)
    (fields : UstringMap InputFieldDefinition) (requiredFields : List Ustring) :
    Ensures clean (On (Frame isOpen fun pool => J pool ∧ InputFieldsWellFormed pool.types fields))
      (parseInputFieldsDefinitionLoop fuel fields requiredFields) fun r s => ∃ fields',
        (r.1 = some fields' ∧ fields'.entries ≠ []) ∧
        On (Frame isOpen fun pool => J pool ∧ InputFieldsWellFormed pool.types fields') s := by
  induction fuel generalizing fields requiredFields with
  | zero => exact never_stop.ensures
  | succ fuel ih =>
    unfold parseInputFieldsDefinitionLoop
    refine ensures_bind (ensures_quiet quiet_createSpan) fun span => ?_
    refine ensures_bind (ensures_quiet quiet_takeNextToken) fun token => ?_
    split
    · exact (Never.bind never_addDiagnostic).ensures
    split
    · next hclose => exact ensures_pure fun s hs => ⟨fields, ⟨rfl, hclose.2⟩, hs⟩
    split
    · exact ih _ _
    split
    · exact ensures_bind (ensures_quiet quiet_takeErrorsFromScanner) fun _ => ih _ _
    split
    · exact (Never.bind never_addDiagnostic).ensures
    refine ensures_bind (ensures_quiet quiet_getTokenValue) fun value => ?_
    refine ensures_bind ensures_createName fun name => ensures_fact fun hname => ?_
    refine ensures_bind ensures_scanExpected fun colon => ensures_fact fun hcolon => ?_
    subst hcolon
    refine ensures_bind ( frame_parseTypeAnnotation (stable_and hJ stable_inputFields))
      fun type => ?_
    refine ensures_exists fun id => ensures_fact fun hid => ?_
    subst hid
    refine ensures_bind (ensures_quiet quiet_typeNode) fun node => ?_
    refine ensures_bind (ensures_quiet quiet_parseDirectives) fun directives => ?_
    refine (ih _ _).conseq (frame_mono fun pool hpool => ?_) fun _ _ h => h
    obtain ⟨⟨hj, hfields⟩, ht⟩ := hpool
    exact ⟨hj, forall_find?_emplace hfields ⟨hname, ht⟩⟩

theorem frame_parseInputFieldsDefinition (hJ : Stable J) {fuel : Nat} :
    Ensures clean (On (Frame isOpen J)) (parseInputFieldsDefinition fuel) fun r s => ∃ fields,
      (r.1 = some fields ∧ fields.entries ≠ []) ∧
      On (Frame isOpen fun pool => J pool ∧ InputFieldsWellFormed pool.types fields) s := by
  refine ensures_bind ensures_scanExpected fun brace => ensures_fact fun hbrace => ?_
  subst hbrace
  exact (frame_parseInputFieldsDefinitionLoop hJ fuel ∅ []).conseq
    (frame_mono fun pool hj => ⟨hj, fun k d hd => by
      simp only [SortedMap.find?_empty, reduceCtorEq] at hd⟩) fun _ _ h => h

end Fields

/-! ## Declarations -/

/-- No declaration is open. -/
def NoneOpen (_ : DeclarationId) (_ : Ustring) : Prop := False

/-- The declaration that is open, and the name it is registered under. -/
def OpenAs (id : DeclarationId) (name : Ustring) (i : DeclarationId) (k : Ustring) : Prop :=
  i = id ∧ k = name

/-- The node of an open declaration: it has its kind, and no other name than its own. -/
def IsOpenNode (id : DeclarationId) (kind : SymbolKind) (name : Ustring) (pool : Pool) : Prop :=
  ∃ d, pool.declarations[id]? = some d ∧ d.kind = kind ∧
    ∀ n, d.name = some n → n.identifier = name

theorem stable_isOpenNode {id : DeclarationId} {kind : SymbolKind} {name : Ustring} :
    Stable (IsOpenNode id kind name) := by
  intro pool pool' hgrows ⟨d, hd, h⟩
  exact ⟨d, hgrows.declarations ▸ hd, h⟩

theorem stable_true : Stable fun _ => True := fun _ _ _ h => h

/-- A new declaration, open from the start. -/
theorem WellFormed.create {pool : Pool} {members : SchemaMembers} (h : WellFormed NoneOpen pool members)
    (d : Declaration) (name : Ustring) :
    WellFormed (OpenAs pool.declarations.length name)
      { pool with declarations := pool.declarations ++ [d] } members := by
  have hold : ∀ {i d'}, pool.declarations[i]? = some d' →
      (pool.declarations ++ [d])[i]? = some d' := fun hi =>
    (List.getElem?_append_left (List.getElem?_eq_some_iff.1 hi).1).trans hi
  refine ⟨h.types, fun k symbol hfind => ?_, h.directives, fun k id hfind => ?_⟩
  · obtain ⟨d', hd', hkind, hcomplete⟩ := h.symbols k symbol hfind
    exact ⟨d', hold hd', hkind, fun _ => hcomplete fun hopen => hopen⟩
  · obtain ⟨i, hi⟩ := h.interfaces k id hfind
    exact ⟨i, hold hi⟩

/-- The open declaration is registered. -/
theorem WellFormed.register {pool : Pool} {members : SchemaMembers} {id : DeclarationId}
    {kind : SymbolKind} {name : Ustring} (h : WellFormed (OpenAs id name) pool members)
    (hnode : IsOpenNode id kind name pool) :
    WellFormed (OpenAs id name) pool
      { members with symbols := members.symbols.emplace name ⟨name, id, kind⟩ } := by
  refine ⟨h.types, forall_find?_emplace h.symbols ?_, h.directives, h.interfaces⟩
  obtain ⟨d, hd, hkind, -⟩ := hnode
  exact ⟨d, hd, hkind, fun hopen => absurd ⟨rfl, rfl⟩ hopen⟩

/-- The open declaration is assigned. -/
theorem WellFormed.assign {pool : Pool} {members : SchemaMembers} {id : DeclarationId}
    {kind : SymbolKind} {name : Ustring} (h : WellFormed (OpenAs id name) pool members)
    (hnode : IsOpenNode id kind name pool) {d : Declaration} (hkind : d.kind = kind) :
    WellFormed (OpenAs id name) { pool with declarations := pool.declarations.set id d } members := by
  obtain ⟨d₀, hd₀, hkind₀, hname₀⟩ := hnode
  have hlt := (List.getElem?_eq_some_iff.1 hd₀).1
  refine ⟨h.types, fun k symbol hfind => ?_, h.directives, fun k i hfind => ?_⟩
  · obtain ⟨d', hd', hkind', hcomplete⟩ := h.symbols k symbol hfind
    by_cases hid : symbol.declaration = id
    · rw [hid] at hd'
      obtain rfl : d₀ = d' := Option.some.inj (hd₀.symm.trans hd')
      refine ⟨d, ?_, hkind.trans (hkind₀.symm.trans hkind'), fun hopen => ?_⟩
      · rw [hid, List.getElem?_set_self hlt]
      · -- under another name the node would have that name already
        obtain ⟨n, hn, hk⟩ := Option.map_eq_some_iff.1 (hcomplete hopen).2
        exact absurd ⟨hid, hk.symm.trans (hname₀ n hn)⟩ hopen
    · exact ⟨d', (List.getElem?_set_ne (Ne.symm hid)).trans hd', hkind', hcomplete⟩
  · obtain ⟨i', hi'⟩ := h.interfaces k i hfind
    by_cases hid : i = id
    · subst hid
      obtain rfl := Option.some.inj (hd₀.symm.trans hi')
      cases d with
      | interface i'' => exact ⟨i'', List.getElem?_set_self hlt⟩
      | object o => exact absurd (hkind.trans hkind₀.symm) (by simp [Declaration.kind])
      | inputObject o => exact absurd (hkind.trans hkind₀.symm) (by simp [Declaration.kind])
      | enum e => exact absurd (hkind.trans hkind₀.symm) (by simp [Declaration.kind])
      | union u => exact absurd (hkind.trans hkind₀.symm) (by simp [Declaration.kind])
    · exact ⟨i', (List.getElem?_set_ne (Ne.symm hid)).trans hi'⟩

/-- The open declaration is complete. -/
theorem WellFormed.close {pool : Pool} {members : SchemaMembers} {id : DeclarationId}
    {name : Ustring} (h : WellFormed (OpenAs id name) pool members) {d : Declaration}
    (hd : pool.declarations[id]? = some d) (hcomplete : d.Complete pool.types)
    (hname : d.name.map (·.identifier) = some name) : WellFormed NoneOpen pool members := by
  refine ⟨h.types, fun k symbol hfind => ?_, h.directives, h.interfaces⟩
  obtain ⟨d', hd', hkind, hcomplete'⟩ := h.symbols k symbol hfind
  refine ⟨d', hd', hkind, fun _ => ?_⟩
  by_cases hopen : OpenAs id name symbol.declaration k
  · obtain ⟨hid, rfl⟩ := hopen
    rw [hid] at hd'
    obtain rfl := Option.some.inj (hd.symm.trans hd')
    exact ⟨hcomplete, hname⟩
  · exact hcomplete' hopen

end GraphQlSchema

end Flashpoint
