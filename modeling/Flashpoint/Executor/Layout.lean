import Flashpoint.Executor.Halting
import Flashpoint.Executor.Reading
import Flashpoint.Layout

/-!
# The layout of a query

An accepted query is accepted in every layout: a text of the same lexemes is accepted too, and its
document is the same up to the places of its nodes. The two runs go through the same functions side by
side, each on its own bound.
-/

namespace Flashpoint

open Library Climb ParserM

namespace GraphQlExecutor

/-! ## Runs abreast -/

/-- The same declarations, and members that are the same up to places. A fragment that was defined
twice is reported, so those found twice do not count. -/
structure SameNodes (d : List Declaration) (m : ExecutorMembers) (d' : List Declaration)
    (m' : ExecutorMembers) : Prop where
  declarations : d = d'
  query : m.query = m'.query
  mutation : m.mutation = m'.mutation
  subscription : m.subscription = m'.subscription
  symbols : m.symbols = m'.symbols
  directiveDefinitions : m.directiveDefinitions = m'.directiveDefinitions
  currentObjectTypes : m.currentObjectTypes = m'.currentObjectTypes
  forwardFragmentReferences : m.forwardFragmentReferences.map (Prod.map Name.unplaced id) =
    m'.forwardFragmentReferences.map (Prod.map Name.unplaced id)
  fragments : m.fragments.map FragmentDefinition.unplaced = m'.fragments.map FragmentDefinition.unplaced
  duplicateFields : m.duplicateFields = m'.duplicateFields

/-- The two runs are abreast; under `read` they have just read the same token. -/
abbrev Abreast (read : Prop) : GraphQlExecutor → GraphQlExecutor → Prop := Alike SameNodes false read

/-- From states abreast, a run that ends clean is followed by one with a result that is the same under
`f`. -/
abbrev Agree {α β : Type} (read : Prop) (f : α → β) (m m' : ExecutorM α) : Prop :=
  Coupled clean .outOfFuel (Abreast read) m m' fun a a' s s' => f a = f a' ∧ Abreast False s s'

section Rules

variable {α β γ : Type} {afterAt : Bool} {read : Prop} {f : α → β}

theorem Agree.weaken {m m' : ExecutorM α} (h : Agree False f m m') : Agree read f m m' :=
  h.pre fun _ _ hs => hs.weaken False.elim

theorem agree_pure {a a' : α} (h : f a = f a') : Agree read f (pure a) (pure a') :=
  coupled_pure fun _ _ hs => ⟨h, hs.weaken False.elim⟩

theorem agree_zero_left {m' : ExecutorM α} : Agree read f outOfFuel m' := never_stop.coupled

theorem agree_zero_right {m : ExecutorM α} : Agree read f m outOfFuel := coupled_stop

/-- What is read from the state is the same. -/
theorem agree_read_bind {g : GraphQlExecutor → γ} {k k' : γ → ExecutorM α}
    (hg : ∀ s s', Abreast read s s' → g s = g s') (hk : ∀ c, Agree read f (k c) (k' c)) :
    Agree read f (ParserM.read g >>= k) (ParserM.read g >>= k') := by
  refine coupled_bind (coupled_read (Q := fun c c' s s' => c = c' ∧ Abreast read s s') fun s s' hs =>
    ⟨hg s s' hs, hs⟩) fun c c' => coupled_fact fun h => ?_
  exact h ▸ hk c

theorem agree_deref_bind {g : GraphQlExecutor → Option γ} {k k' : γ → ExecutorM α}
    (hg : ∀ s s', Abreast read s s' → g s = g s') (hk : ∀ c, Agree read f (k c) (k' c)) :
    Agree read f (deref g >>= k) (deref g >>= k') := by
  refine coupled_bind (coupled_deref (S := Eq) fun s s' c hs hc => ⟨c, (hg s s' hs) ▸ hc, rfl⟩)
    fun c c' => coupled_fact fun h => ?_
  exact h ▸ hk c

theorem agree_findSymbol_bind {name : Ustring} {k k' : Symbol → ExecutorM α}
    (hk : ∀ symbol, Agree read f (k symbol) (k' symbol)) :
    Agree read f (findSymbol name >>= k) (findSymbol name >>= k') :=
  agree_deref_bind (fun _ _ hs => congrArg (·.find? name) hs.nodes.symbols) hk

theorem agree_declaration_bind {id : DeclarationId} {k k' : Declaration → ExecutorM α}
    (hk : ∀ d, Agree read f (k d) (k' d)) :
    Agree read f (declaration id >>= k) (declaration id >>= k') :=
  agree_deref_bind (fun _ _ hs => congrArg (·[id]?) hs.nodes.declarations) hk

/-- A pointer that both follow. -/
theorem agree_follow_bind {p : Option γ} {k k' : γ → ExecutorM α} (hk : ∀ c, Agree read f (k c) (k' c)) :
    Agree read f (follow p >>= k) (follow p >>= k') :=
  agree_deref_bind (fun _ _ _ => rfl) hk

theorem agree_after {m m' : ExecutorM Unit} {k k' : ExecutorM α}
    (hm : Coupled clean .outOfFuel (Abreast read) m m' fun _ _ => Abreast read)
    (hk : Agree read f k k') : Agree read f (m >>= fun _ => k) (m' >>= fun _ => k') :=
  coupled_bind hm fun _ _ => hk

theorem agree_createSpan_bind {k k' : Span → ExecutorM α}
    (hk : ∀ span span', Agree read f (k span) (k' span')) :
    Agree read f (createSpan >>= k) (createSpan >>= k') :=
  coupled_bind coupled_createSpan hk

theorem agree_createName_bind {identifier : Ustring} {k k' : Name → ExecutorM α}
    (hk : ∀ span span', Agree read f (k ⟨span, identifier⟩) (k' ⟨span', identifier⟩)) :
    Agree read f (createName identifier >>= k) (createName identifier >>= k') := by
  refine coupled_bind coupled_createName fun name name' => coupled_fact fun h => coupled_fact fun h' => ?_
  obtain ⟨span, _⟩ := name
  obtain ⟨span', _⟩ := name'
  obtain rfl : _ = identifier := h
  obtain rfl := h'
  exact hk span span'

theorem agree_getTokenValue_bind {k k' : Ustring → ExecutorM α}
    (hk : ∀ value, Agree True f (k value) (k' value)) :
    Agree True f (getTokenValue >>= k) (getTokenValue >>= k') :=
  agree_read_bind (fun _ _ hs => hs.value trivial) hk

/-- An optional token decides how it goes on. -/
theorem agree_scanOptional_bind {token : GraphQlToken} {asName : Bool} (hne : token ≠ .endOfDocument)
    {k k' : Bool → ExecutorM α} (hfound : Agree True f (k true) (k' true))
    (hmissing : Agree False f (k false) (k' false)) :
    Agree read f (scanOptional token asName >>= k) (scanOptional token asName >>= k') := by
  refine coupled_bind (coupled_scanOptional hne) fun found found' => coupled_fact fun h => ?_
  subst h
  cases found with
  | true => exact hfound.pre fun _ _ hs => hs.weaken fun _ => rfl
  | false => exact hmissing.pre fun _ _ hs => hs.weaken False.elim

/-- An expected token is there. -/
theorem agree_scanExpected_bind {token : GraphQlToken} {asName : Bool} (hne : token ≠ .endOfDocument)
    {k k' : Bool → ExecutorM α} (hfound : Agree True f (k true) (k' true)) :
    Agree read f (scanExpected token asName >>= k) (scanExpected token asName >>= k') := by
  refine coupled_bind (coupled_scanExpected hne) fun found found' => coupled_fact fun h =>
    coupled_fact fun h' => ?_
  subst h h'
  exact hfound

/-- An optional token chooses the branch. -/
theorem agree_ite_scanOptional {token : GraphQlToken} {asName : Bool} (hne : token ≠ .endOfDocument)
    {k k' l l' : ExecutorM α} (hfound : Agree True f k k') (hmissing : Agree False f l l') :
    Agree read f (scanOptional token asName >>= fun found => if found = true then k else l)
      (scanOptional token asName >>= fun found => if found = true then k' else l') := by
  refine agree_scanOptional_bind hne ?_ ?_
  · rwa [if_pos rfl, if_pos rfl]
  · rwa [if_neg Bool.false_ne_true, if_neg Bool.false_ne_true]

/-- The branch of an expected token is the one in which it is there. -/
theorem agree_ite_scanExpected {token : GraphQlToken} {asName : Bool} (hne : token ≠ .endOfDocument)
    {k k' l l' : ExecutorM α} (hfound : Agree True f k k') :
    Agree read f (scanExpected token asName >>= fun found => if found = true then k else l)
      (scanExpected token asName >>= fun found => if found = true then k' else l') := by
  refine agree_scanExpected_bind hne ?_
  rwa [if_pos rfl, if_pos rfl]

/-- A value that may be missing is missing in both runs or in neither. -/
theorem agree_option_bind {δ : Type} {g : γ → δ} {P : GraphQlExecutor → GraphQlExecutor → Prop}
    {m m' : ExecutorM (Option γ)} (hm : Coupled clean .outOfFuel P m m' fun a a' s s' =>
      a.map g = a'.map g ∧ Abreast False s s') {k k' : Option γ → ExecutorM α}
    (hnone : Agree False f (k none) (k' none))
    (hsome : ∀ c c', g c = g c' → Agree False f (k (some c)) (k' (some c'))) :
    Coupled clean .outOfFuel P (m >>= k) (m' >>= k') fun a a' s s' => f a = f a' ∧ Abreast False s s' := by
  refine coupled_bind hm fun a a' => coupled_fact fun ha => ?_
  cases a with
  | none =>
    obtain rfl : a' = none := Option.map_eq_none_iff.1 ha.symm
    exact hnone
  | some c =>
    obtain ⟨c', rfl, hc⟩ := Option.map_eq_some_iff.1 ha.symm
    exact hsome c c' hc.symm

theorem coupled_pushObjectType {id : Option DeclarationId} :
    Coupled clean .outOfFuel (Abreast read) (pushObjectType id) (pushObjectType id) fun _ _ =>
      Abreast read :=
  coupled_modifyMembers fun _ _ _ _ h =>
    { h with currentObjectTypes := congrArg (id :: ·) h.currentObjectTypes }

theorem agree_topObjectType_bind {k k' : Option DeclarationId → ExecutorM α}
    (hk : ∀ top, Agree read f (k top) (k' top)) :
    Agree read f (topObjectType >>= k) (topObjectType >>= k') := by
  have htop : Coupled clean .outOfFuel (Abreast read) topObjectType topObjectType
      fun top top' s s' => top = top' ∧ Abreast read s s' := by
    refine coupled_bind (coupled_read (Q := fun _ _ => Abreast read) fun _ _ hs => hs) fun _ _ =>
      coupled_bind coupled_recordStep fun _ _ => ?_
    refine coupled_deref fun s s' top hs htop => ⟨top, ?_, rfl⟩
    rw [← hs.nodes.currentObjectTypes]
    exact htop
  refine coupled_bind htop fun top top' => coupled_fact fun h => ?_
  exact h ▸ hk top

end Rules

/-! ## Values -/

section Values

variable {read : Prop}

/-- Types that are the same up to places are the same but for these. -/
theorem exists_of_unplaced_eq {t t' : TypeNode} (h : t.unplaced = t'.unplaced) :
    ∃ span name parent, t' = { t with span, name, parentDirectiveDefinition := parent } ∧
      t.name.map Name.unplaced = name.map Name.unplaced := by
  obtain ⟨span, type, isNonNull, isListType, isNonNullList, inInputLocation, name, parent⟩ := t
  obtain ⟨span', type', isNonNull', isListType', isNonNullList', inInputLocation', name', parent'⟩ := t'
  simp only [TypeNode.unplaced, TypeNode.mk.injEq] at h
  obtain ⟨-, rfl, rfl, rfl, rfl, rfl, hname, -⟩ := h
  exact ⟨span', name', parent', rfl, hname⟩

theorem never_absent {α : Type} : Never clean (deref fun _ => none : ExecutorM α) := by
  intro s a s' h
  cases (ends_require.1 h).1

abbrev value? : Option Value → Option Value := Option.map Value.unplaced

/-- What is reported of a type is not reported of either. -/
theorem agree_typeNode_bind {α β : Type} {f : α → β} {id : TypeId} {k k' : TypeNode → ExecutorM α}
    (hk : ∀ t t', t.unplaced = t'.unplaced → Agree read f (k t) (k' t')) :
    Agree read f (typeNode id >>= k) (typeNode id >>= k') :=
  coupled_bind coupled_typeNode fun t t' => coupled_fact (hk t t')

theorem agree_parseBooleanValue {type type' : TypeNode} (h : type.unplaced = type'.unplaced)
    {b : Bool} : Agree read value? (parseBooleanValue type b) (parseBooleanValue type' b) := by
  obtain ⟨span, name, parent, rfl, -⟩ := exists_of_unplaced_eq h
  exact agree_after (never_reportMismatch.coupled_when id) (agree_createSpan_bind fun _ _ => agree_pure rfl)

theorem agree_follow_name_bind {α β : Type} {f : α → β} {p p' : Option Name}
    (h : p.map Name.unplaced = p'.map Name.unplaced) {k k' : Name → ExecutorM α}
    (hk : ∀ name name', name.identifier = name'.identifier → Agree read f (k name) (k' name')) :
    Agree read f (follow p >>= k) (follow p' >>= k') :=
  coupled_bind (coupled_follow h) fun name name' => coupled_fact fun hname =>
    hk name name' (congrArg Name.identifier hname :)

theorem agree_parseEnumValue {type type' : TypeNode} (h : type.unplaced = type'.unplaced) :
    Agree True value? (parseEnumValue type) (parseEnumValue type') := by
  obtain ⟨span, name, parent, rfl, hname⟩ := exists_of_unplaced_eq h
  refine agree_getTokenValue_bind fun value => agree_after (never_reportValueMismatch.coupled_when id) ?_
  refine agree_follow_name_bind hname fun n n' hn => ?_
  rw [hn]
  refine agree_findSymbol_bind fun symbol => agree_declaration_bind fun d => ?_
  cases d with
  | enum e =>
    exact agree_after (never_addDiagnostic.coupled_when id)
      (agree_createSpan_bind fun _ _ => agree_pure rfl)
  | object _ | interface _ | inputObject _ | union _ => exact never_absent.coupled

theorem agree_parseScalarValue {type type' : TypeNode} (h : type.unplaced = type'.unplaced)
    {token : GraphQlToken} :
    Agree True value? (parseScalarValue type token) (parseScalarValue type' token) := by
  obtain ⟨span, name, parent, rfl, -⟩ := exists_of_unplaced_eq h
  unfold parseScalarValue
  split
  · exact agree_after (never_reportValueMismatch.coupled_when id)
      (agree_createSpan_bind fun _ _ => agree_pure rfl)
  · exact agree_after (never_reportMismatch.coupled_when id)
      (agree_createSpan_bind fun _ _ => agree_getTokenValue_bind fun _ => agree_pure rfl)
  · exact agree_after (never_reportMismatch.coupled_when id)
      (agree_createSpan_bind fun _ _ => agree_getTokenValue_bind fun _ => agree_pure rfl)
  · exact agree_after (never_reportMismatch.coupled_when id)
      (agree_createSpan_bind fun _ _ => agree_getTokenValue_bind fun _ => agree_pure rfl)
  · exact agree_parseBooleanValue h
  · exact agree_parseBooleanValue h
  · exact agree_parseEnumValue h
  · exact (never_bind fun _ => Never.bind never_addDiagnostic).coupled

theorem coupled_addDuplicateField {name : Ustring} : Coupled clean .outOfFuel (Abreast read)
    (addDuplicateField name) (addDuplicateField name) fun _ _ => Abreast read :=
  coupled_bind (coupled_modifyMembers fun _ _ _ _ h =>
    { h with duplicateFields := congrArg (·.emplace name ()) h.duplicateFields }) fun _ _ =>
      coupled_recordStep

/-- The names of the fields are the same. -/
theorem names_of_unplaced {fields fields' : List ObjectField}
    (h : fields.map ObjectField.unplaced = fields'.map ObjectField.unplaced) :
    fields.map (·.name.identifier) = fields'.map (·.name.identifier) := by
  have hnames := congrArg (List.map (·.name.identifier)) h
  simp only [List.map_map] at hnames
  have hname : ((fun field : ObjectField => field.name.identifier) ∘ ObjectField.unplaced) =
      fun field => field.name.identifier :=
    funext fun field => (congrArg Name.identifier field.name_unplaced :)
  rwa [hname] at hnames

theorem coupled_reportDuplicateFields {fields fields' : List ObjectField}
    (h : fields.map ObjectField.unplaced = fields'.map ObjectField.unplaced) :
    Coupled clean .outOfFuel (Abreast read) (reportDuplicateFields fields)
      (reportDuplicateFields fields') fun _ _ => Abreast read := by
  refine coupled_bind coupled_recordStep fun _ _ => ?_
  refine coupled_bind (coupled_read (Q := fun d d' s s' => d = d' ∧ Abreast read s s')
    fun s s' hs => ⟨hs.nodes.duplicateFields, hs⟩) fun d d' => coupled_fact fun hd => ?_
  subst hd
  refine coupled_forM (List.forall₂_same.2 fun _ _ => rfl) fun duplicate duplicate' hduplicate => ?_
  subst hduplicate
  refine coupled_forM (forall₂_of_map_eq (names_of_unplaced h)) fun field field' hfield => ?_
  exact never_reportAt.coupled_when fun hc => hfield.trans hc

theorem coupled_reportMissingFields {requiredFields : List Ustring} {span span' : Span}
    {fields fields' : List ObjectField}
    (h : fields.map ObjectField.unplaced = fields'.map ObjectField.unplaced) :
    Coupled clean .outOfFuel (Abreast read) (reportMissingFields requiredFields span fields)
      (reportMissingFields requiredFields span' fields') fun _ _ => Abreast read := by
  refine coupled_forM (List.forall₂_same.2 fun _ _ => rfl) fun required required' hrequired => ?_
  subst hrequired
  refine never_reportAt.coupled_when fun hc => ?_
  rwa [names_of_unplaced h]

theorem coupled_expectCloseBracket : Coupled clean .outOfFuel (Abreast read) expectCloseBracket
    expectCloseBracket fun _ _ => Abreast read := by
  refine coupled_bind (coupled_read (Q := fun c c' s s' => c = c' ∧ Abreast read s s')
    fun s s' hs => ⟨hs.currentValueToken, hs⟩) fun c c' => coupled_fact fun hc => ?_
  subst hc
  exact (never_bind fun _ => never_addDiagnostic).coupled_when id

/-- The list type of a list literal is marked while its elements are read. -/
theorem coupled_markListType {id : TypeId} {b : Bool} : Coupled clean .outOfFuel (Abreast read)
    (modifyType id fun t => { t with isListType := b }) (modifyType id fun t => { t with isListType := b })
      fun _ _ => Abreast read := by
  refine coupled_modifyType fun t t' h => ?_
  obtain ⟨span, name, parent, rfl, -⟩ := exists_of_unplaced_eq h
  simp only [TypeNode.unplaced, TypeNode.mk.injEq, true_and] at h ⊢
  exact h

theorem agree_parseListLiteral {id : TypeId} {type type' : TypeNode}
    (h : type.unplaced = type'.unplaced) {elements elements' : ExecutorM (List Value)}
    (helements : Agree False (List.map Value.unplaced) elements elements') :
    Agree read value? (parseListLiteral id type elements) (parseListLiteral id type' elements') := by
  obtain ⟨span, name, parent, rfl, -⟩ := exists_of_unplaced_eq h
  refine agree_after (never_reportValueMismatch.coupled_when fun hc => hc) ?_
  refine agree_createSpan_bind fun sp sp' => agree_after coupled_markListType ?_
  refine coupled_bind helements.weaken fun values values' => coupled_fact fun hvalues => ?_
  refine agree_after coupled_expectCloseBracket (agree_after coupled_markListType ?_)
  refine coupled_bind coupled_finishSpan fun _ _ => agree_pure ?_
  simp only [Option.map_some, Value.unplaced, unplacedValues_eq_map, hvalues]

abbrev fields? : Option (List ObjectField) → Option (List ObjectField) :=
  Option.map (List.map ObjectField.unplaced)

theorem agree_parseObjectLiteral {type type' : TypeNode} (h : type.unplaced = type'.unplaced)
    {fields fields' : InputObject → Ustring → ExecutorM (Option (List ObjectField))}
    (hfields : ∀ inputObject name, Agree False fields? (fields inputObject name) (fields' inputObject name)) :
    Agree read value? (parseObjectLiteral type fields) (parseObjectLiteral type' fields') := by
  obtain ⟨span, name, parent, rfl, hname⟩ := exists_of_unplaced_eq h
  refine agree_createSpan_bind fun sp sp' => agree_follow_name_bind hname fun n n' hn => ?_
  rw [hn]
  refine agree_findSymbol_bind fun symbol => ?_
  split
  · exact (Never.bind never_addDiagnostic).coupled
  refine agree_declaration_bind fun d => ?_
  cases d with
  | inputObject inputObject =>
    refine agree_option_bind (hfields inputObject n'.identifier).weaken (agree_pure rfl)
      fun fields fields' hfields => ?_
    refine coupled_bind coupled_finishSpan fun _ _ => ?_
    refine agree_after (coupled_reportDuplicateFields hfields) ?_
    refine agree_after (coupled_reportMissingFields hfields) (agree_pure ?_)
    simp only [Option.map_some, Value.unplaced, unplacedFields_eq_map, hfields]
  | object _ | interface _ | enum _ | union _ => exact never_absent.coupled

theorem agree_parseValueAfterToken {id : TypeId} {type type' : TypeNode}
    (h : type.unplaced = type'.unplaced) {token : GraphQlToken} {elements elements' : ExecutorM (List Value)}
    (helements : Agree False (List.map Value.unplaced) elements elements')
    {fields fields' : InputObject → Ustring → ExecutorM (Option (List ObjectField))}
    (hfields : ∀ inputObject name, Agree False fields? (fields inputObject name) (fields' inputObject name)) :
    Agree True value? (parseValueAfterToken id type token elements fields)
      (parseValueAfterToken id type' token elements' fields') := by
  unfold parseValueAfterToken
  split
  · exact agree_parseListLiteral h helements
  · exact agree_pure rfl
  · split
    · exact never_skipObjectValue.coupled
    · next hobject =>
      obtain ⟨span, name, parent, rfl, -⟩ := exists_of_unplaced_eq h
      rw [if_neg hobject]
      exact agree_parseObjectLiteral h hfields
  · exact agree_parseScalarValue h

theorem agree_recordValueAhead_bind {α β : Type} {f : α → β} {k k' : ExecutorM α} (hk : Agree read f k k') :
    Agree read f (recordValueAhead >>= fun _ => k) (recordValueAhead >>= fun _ => k') :=
  agree_after (coupled_bind (coupled_read (Q := fun _ _ => Abreast read) fun _ _ hs => hs) fun _ _ =>
    coupled_recordStep) hk

theorem agree_values (fuel : Nat) : ∀ fuel',
    (∀ id, Agree False value? (parseValue fuel id) (parseValue fuel' id)) ∧
      (∀ id, Agree False (List.map Value.unplaced) (parseListValues fuel id) (parseListValues fuel' id)) ∧
        ∀ inputObject name parsedFields, Agree False fields?
          (parseObjectFields fuel inputObject name parsedFields)
            (parseObjectFields fuel' inputObject name parsedFields) := by
  induction fuel with
  | zero => exact fun fuel' => ⟨fun _ => agree_zero_left, fun _ => agree_zero_left, fun _ _ _ => agree_zero_left⟩
  | succ fuel ih =>
    intro fuel'
    cases fuel' with
    | zero => exact ⟨fun _ => agree_zero_right, fun _ => agree_zero_right, fun _ _ _ => agree_zero_right⟩
    | succ fuel' =>
    obtain ⟨ihvalue, ihelements, ihfields⟩ := ih fuel'
    refine ⟨fun id => ?_, fun id => ?_, fun inputObject typeName parsedFields => ?_⟩
    · unfold parseValue
      refine coupled_bind coupled_takeToken fun token token' => coupled_fact fun htoken => ?_
      subst htoken
      refine coupled_bind (coupled_update (Q := Abreast (token ≠ .endOfDocument)) fun s s' hs =>
        { hs with currentValueToken := rfl }) fun _ _ => agree_typeNode_bind fun t t' ht => ?_
      refine agree_after coupled_recordStep ?_
      by_cases hend : token = .endOfDocument
      · subst hend
        exact never_parseValueAfterEnd.coupled
      · exact (agree_parseValueAfterToken ht (ihelements id) fun inputObject name =>
          ihfields inputObject name []).pre fun _ _ hs => hs.weaken fun _ => hend
    · unfold parseListValues
      refine agree_option_bind (ihvalue id) (agree_pure rfl) fun value value' hvalue => ?_
      refine coupled_bind (ihelements id) fun values values' => coupled_fact fun hvalues => agree_pure ?_
      rw [List.map_cons, List.map_cons, hvalue, hvalues]
    · unfold parseObjectFields
      refine coupled_bind coupled_takeToken fun token token' => coupled_fact fun htoken => ?_
      subst htoken
      split
      · exact agree_pure rfl
      next hclose =>
      split
      · exact (Never.bind never_addDiagnostic).coupled
      refine Coupled.pre (P := Abreast True) ?_ fun _ _ hs => hs.weaken fun _ hend => hclose (.inr hend)
      refine agree_getTokenValue_bind fun value => agree_follow_bind fun fields => ?_
      split
      · exact (Never.bind never_addDiagnostic).coupled
      next definition _ =>
      refine agree_after (coupled_when Iff.rfl fun _ => coupled_addDuplicateField) ?_
      refine agree_createSpan_bind fun sp sp' => agree_createName_bind fun nameSpan nameSpan' => ?_
      refine agree_ite_scanExpected (by decide) (agree_recordValueAhead_bind ?_)
      refine coupled_bind (ihvalue _).weaken fun a a' => coupled_fact fun ha => ?_
      refine coupled_bind (ihfields _ _ _) fun rest rest' => coupled_fact fun hrest => agree_pure ?_
      have hfield : ObjectField.unplaced (.mk sp ⟨nameSpan, value⟩ a) =
          ObjectField.unplaced (.mk sp' ⟨nameSpan', value⟩ a') := by
        simp only [ObjectField.unplaced, unplacedValue?_eq_map, ObjectField.mk.injEq, true_and]
        exact ⟨rfl, ha⟩
      cases rest with
      | none =>
        obtain rfl : rest' = none := Option.map_eq_none_iff.1 hrest.symm
        rfl
      | some fields =>
        obtain ⟨fields', rfl, hfields⟩ := Option.map_eq_some_iff.1 hrest.symm
        simp only [Option.map_some, List.map_cons, hfield, hfields]

end Values

/-! ## Arguments and directives -/

section Arguments

variable {read : Prop}

/-- Arguments without places, under their names. -/
abbrev arguments : UstringMap Argument → UstringMap Argument := SortedMap.map Argument.unplaced

abbrev directives : UstringMap Directive → UstringMap Directive := SortedMap.map Directive.unplaced

/-- The same keys are taken in maps that are the same up to places. -/
theorem find?_eq_none_of {V : Type} {f : V → V} {m m' : UstringMap V} (h : m.map f = m'.map f)
    {key : Ustring} : m.find? key = none ↔ m'.find? key = none := by
  have hfind := congrArg (·.find? key) h
  simp only [SortedMap.find?_map] at hfind
  rw [← Option.map_eq_none_iff (f := f), hfind, Option.map_eq_none_iff]

theorem coupled_reportMissingArguments {definitions : UstringMap InputValueDefinition}
    {supplied supplied' : UstringMap Argument} (h : arguments supplied = arguments supplied')
    {target target' : Span} : Coupled clean .outOfFuel (Abreast False)
      (reportMissingArguments definitions supplied target)
        (reportMissingArguments definitions supplied' target') fun _ _ => Abreast False := by
  refine coupled_forM (List.forall₂_same.2 fun _ _ => rfl) fun definition definition' hdefinition => ?_
  subst hdefinition
  refine Coupled.post (Q := fun _ _ s s' => () = () ∧ Abreast False s s') ?_ fun _ _ _ _ hs => hs.2
  refine agree_follow_bind (f := fun _ => ()) fun id => agree_typeNode_bind fun t t' ht => ?_
  obtain ⟨span, name, parent, rfl, -⟩ := exists_of_unplaced_eq ht
  refine Coupled.post (Q := fun _ _ => Abreast False) ?_ fun _ _ _ _ hs => ⟨rfl, hs⟩
  exact coupled_when Iff.rfl fun _ => never_reportAt.coupled_when (find?_eq_none_of h).2

theorem coupled_finishArguments {definitions : UstringMap InputValueDefinition}
    {supplied supplied' : UstringMap Argument} (h : arguments supplied = arguments supplied')
    {target target' : Span} : Coupled clean .outOfFuel (Abreast False)
      (finishArguments definitions supplied target) (finishArguments definitions supplied' target')
        fun _ _ => Abreast False :=
  coupled_bind coupled_finishSpan fun _ _ => coupled_bind coupled_recordStep fun _ _ =>
    coupled_bind (coupled_reportMissingArguments h) fun _ _ => coupled_pure fun _ _ hs => hs

theorem agree_addDirective {directive directive' : Directive}
    (hdirective : directive.unplaced = directive'.unplaced) {others others' : UstringMap Directive}
    (hothers : directives others = directives others') :
    Agree False directives (addDirective directive others) (addDirective directive' others') := by
  refine coupled_bind (coupled_update (Q := Abreast False) fun s s' hs =>
    { hs with directives := ?_ }) fun _ _ => ?_
  · simp only [List.map_append, hs.directives, List.map_cons, List.map_nil, hdirective]
  have hname : directive.name.identifier = directive'.name.identifier := by
    have hnames := congrArg (·.name.identifier) hdirective
    simp only [Directive.name_unplaced] at hnames
    exact hnames
  rw [hname]
  cases hfind : others.find? directive'.name.identifier with
  | none =>
    rw [(find?_eq_none_of hothers).1 hfind]
    refine agree_pure ?_
    rw [directives, SortedMap.map_emplace, SortedMap.map_emplace, hdirective]
    exact congrArg (fun m : UstringMap Directive =>
      m.emplace directive'.name.identifier directive'.unplaced) hothers
  | some _ => exact (never_bind fun _ => Never.bind never_addDiagnostic).coupled

theorem agree_parseArgumentValue {fuel fuel' : Nat} {definition : InputValueDefinition} :
    Agree read value? (parseArgumentValue fuel (some definition))
      (parseArgumentValue fuel' (some definition)) :=
  agree_follow_bind fun id => agree_recordValueAhead_bind ((agree_values fuel fuel').1 id).weaken

theorem agree_parseArgument {fuel fuel' : Nat} {definitions : UstringMap InputValueDefinition}
    {supplied supplied' : ExecutorM (UstringMap Directive)} (h : Agree False directives supplied supplied') :
    Agree True (Option.map Argument.unplaced) (parseArgument fuel definitions supplied)
      (parseArgument fuel' definitions supplied') := by
  refine agree_getTokenValue_bind fun value => agree_createName_bind fun nameSpan nameSpan' =>
    agree_createSpan_bind fun span span' => ?_
  cases hdefinition : definitions.find? value with
  | none => exact (Never.bind never_addDiagnostic).coupled
  | some definition =>
    refine agree_after (never_addDiagnostic.coupled_when fun hc => hc) ?_
    refine agree_ite_scanExpected (by decide) ?_
    refine coupled_bind agree_parseArgumentValue fun a a' => coupled_fact fun ha => ?_
    refine coupled_bind h fun ds ds' => coupled_fact fun hds => agree_pure ?_
    simp only [Option.map_some, Argument.unplaced, unplacedDirectives_eq_map, Option.some.injEq,
      Argument.mk.injEq, true_and]
    exact ⟨rfl, ha, congrArg SortedMap.entries hds⟩

theorem never_checkDirectiveLocation {location : DirectiveLocation} {span : Span} {name : Ustring} :
    Never clean (do
      let l ← getLocationFromSyntax span
      let text ← Climb.require .exception fun _ => directiveLocationToString location
      addDiagnosticAt l .theDirective0DoesNotSupportTheLocation1 ['@' :: name, text] : ExecutorM Unit) :=
  never_bind fun _ => never_bind fun _ => never_addDiagnosticAt

theorem agree_parseDirectiveArguments {definition : DirectiveDefinition} {name name' : Name}
    (hname : name.unplaced = name'.unplaced)
    {list list' : UstringMap InputValueDefinition → ExecutorM (Option (UstringMap Argument))}
    (h : ∀ definitions, Agree False (Option.map arguments) (list definitions) (list' definitions)) :
    Agree read (Option.map (Prod.map arguments Name.unplaced)) (parseDirectiveArguments definition name list)
      (parseDirectiveArguments definition name' list') := by
  refine agree_ite_scanOptional (by decide) ?_ ?_
  · refine agree_option_bind (h definition.arguments).weaken (agree_pure rfl)
      fun supplied supplied' hsupplied => ?_
    refine coupled_bind (coupled_finishArguments hsupplied) fun span span' => agree_pure ?_
    exact congrArg some (Prod.ext hsupplied hname)
  · exact agree_after coupled_recordStep (agree_pure (congrArg some (Prod.ext rfl hname)))

theorem agree_parseDirective {location : DirectiveLocation}
    {list list' : UstringMap InputValueDefinition → ExecutorM (Option (UstringMap Argument))}
    (h : ∀ definitions, Agree False (Option.map arguments) (list definitions) (list' definitions)) :
    Coupled clean .outOfFuel (Alike SameNodes true read) (parseDirective location list)
      (parseDirective location list') fun a a' s s' =>
        a.map Directive.unplaced = a'.map Directive.unplaced ∧ Abreast False s s' := by
  refine coupled_takeTightName (fun token htoken => ?_) ?_
  · rw [if_pos htoken]
    exact never_bind fun _ => Never.bind never_addDiagnostic
  rw [if_neg (not_not.2 rfl), if_neg (not_not.2 rfl)]
  refine agree_createSpan_bind fun span span' => agree_getTokenValue_bind fun value => ?_
  refine agree_read_bind (fun _ _ hs => hs.nodes.directiveDefinitions) fun definitions => ?_
  split
  · exact (never_bind fun _ => Never.bind never_addDiagnosticAt).coupled
  next definition _ =>
  refine agree_createName_bind fun nameSpan nameSpan' => ?_
  refine agree_after (never_checkDirectiveLocation.coupled_when fun hc => hc) ?_
  have hname : Name.unplaced ⟨nameSpan, value⟩ = Name.unplaced ⟨nameSpan', value⟩ := rfl
  refine agree_option_bind (agree_parseDirectiveArguments hname h) (agree_pure rfl)
    fun supplied supplied' heq => agree_pure ?_
  obtain ⟨hsupplied, hname⟩ := Prod.ext_iff.1 heq
  simp only [Option.map_some, Directive.unplaced, unplacedArguments_eq_map, Option.some.injEq,
    Directive.mk.injEq, true_and]
  exact ⟨hname, congrArg SortedMap.entries hsupplied⟩

theorem agree_directives (fuel : Nat) : ∀ fuel',
    (∀ definitions supplied supplied', arguments supplied = arguments supplied' →
      Agree False (Option.map arguments) (parseArgumentsLoop fuel definitions supplied)
        (parseArgumentsLoop fuel' definitions supplied')) ∧
      ∀ location others others', directives others = directives others' →
        Agree False directives (parseDirectives fuel location others)
          (parseDirectives fuel' location others') := by
  induction fuel with
  | zero => exact fun fuel' => ⟨fun _ _ _ _ => agree_zero_left, fun _ _ _ _ => agree_zero_left⟩
  | succ fuel ih =>
    intro fuel'
    cases fuel' with
    | zero => exact ⟨fun _ _ _ _ => agree_zero_right, fun _ _ _ _ => agree_zero_right⟩
    | succ fuel' =>
    obtain ⟨iharguments, ihdirectives⟩ := ih fuel'
    refine ⟨fun definitions supplied supplied' hsupplied => ?_, fun location others others' hothers => ?_⟩
    · unfold parseArgumentsLoop
      refine coupled_bind coupled_takeNextToken fun token token' => coupled_fact fun htoken => ?_
      subst htoken
      by_cases hname : token ≠ .gName
      · rw [if_pos hname, if_pos hname]
        refine coupled_bind coupled_recordStep fun _ _ => coupled_pure fun _ _ hs => ⟨?_, hs.weaken False.elim⟩
        exact congrArg some hsupplied
      rw [if_neg hname, if_neg hname]
      refine Coupled.pre (P := Abreast True) ?_ fun _ _ hs => hs.weaken fun _ hend => hname fun h => by
        cases hend.symm.trans h
      refine agree_option_bind (agree_parseArgument (ihdirectives _ _ _ rfl)) (agree_pure rfl)
        fun argument argument' hargument => iharguments definitions _ _ ?_
      have hnames := congrArg (·.name.identifier) hargument
      simp only [Argument.name_unplaced] at hnames
      rw [arguments, SortedMap.map_emplace, SortedMap.map_emplace, hargument,
        show argument.name.identifier = argument'.name.identifier from hnames]
      exact congrArg (fun m : UstringMap Argument =>
        m.emplace argument'.name.identifier argument'.unplaced) hsupplied
    · unfold parseDirectives
      refine coupled_bind (coupled_scanOptional (by decide)) fun found found' => coupled_fact fun h => ?_
      subst h
      cases found with
      | false =>
        rw [if_neg Bool.false_ne_true, if_neg Bool.false_ne_true]
        exact coupled_pure fun _ _ hs => ⟨hothers, hs.weaken False.elim⟩
      | true =>
        rw [if_pos rfl, if_pos rfl]
        refine agree_option_bind (agree_parseDirective fun definitions => iharguments definitions _ _ rfl)
          (agree_pure hothers) fun directive directive' hdirective => ?_
        refine coupled_bind (agree_addDirective hdirective hothers) fun ds ds' => coupled_fact fun hds => ?_
        exact ihdirectives location ds ds' hds

theorem agree_parseDirectives {fuel fuel' : Nat} {location : DirectiveLocation} :
    Agree read directives (parseDirectives fuel location ∅) (parseDirectives fuel' location ∅) :=
  ((agree_directives fuel fuel').2 location ∅ ∅ rfl).weaken

theorem agree_parseArguments {fuel fuel' : Nat} {definitions : UstringMap InputValueDefinition}
    {target target' : Span} : Agree read (fun a => a.1.map arguments)
      (parseArguments fuel definitions target) (parseArguments fuel' definitions target') := by
  refine agree_option_bind ((agree_directives fuel fuel').1 definitions ∅ ∅ rfl).weaken (agree_pure rfl)
    fun supplied supplied' hsupplied => ?_
  exact coupled_bind (coupled_finishArguments hsupplied) fun _ _ => agree_pure (congrArg some hsupplied)

end Arguments

/-! ## Selections -/

section Selections

variable {read : Prop}

abbrev name? : Option Name → Option Name := Option.map Name.unplaced

abbrev set? : Option SelectionSet → Option SelectionSet := Option.map SelectionSet.unplaced

/-- A turn of the loop over the selections, without places. -/
def SelectionTurn.unplaced : SelectionTurn → SelectionTurn
  | .add selection => .add selection.unplaced
  | .skip => .skip
  | .fail => .fail

theorem agree_parseFieldName {name name' : Name} (h : name.unplaced = name'.unplaced) :
    Agree read (Prod.map name? name?) (parseFieldName name) (parseFieldName name') := by
  refine agree_ite_scanOptional (by decide) ?_ ?_
  · have hsecond : Agree True name? parseExpectedName parseExpectedName := by
      refine agree_ite_scanExpected (by decide) ?_
      exact agree_getTokenValue_bind fun value => agree_createName_bind fun _ _ => agree_pure rfl
    refine coupled_bind hsecond fun a a' => coupled_fact fun ha => agree_pure ?_
    exact Prod.ext (congrArg some h) ha
  · exact agree_pure (Prod.ext rfl (congrArg some h))

theorem agree_parseFieldArguments {fuel fuel' : Nat} {definition : FieldDefinition} {span span' : Span} :
    Agree read (fun a => a.1.map arguments) (parseFieldArguments fuel definition span)
      (parseFieldArguments fuel' definition span') := by
  exact agree_ite_scanOptional (by decide) agree_parseArguments
    (agree_after coupled_recordStep (agree_pure rfl))

theorem agree_checkFragmentAssignment {name name' : Name} {object parent : Declaration} :
    Agree False (fun _ => ()) (checkFragmentAssignment name object parent)
      (checkFragmentAssignment name' object parent) := by
  have hreport {c : Prop} [Decidable c] {template : D} {texts : List Ustring} :
      Agree False (fun _ => ()) (when c do
        let location ← getLocationFromSyntax name.span
        addDiagnosticAt location template texts) (when c do
        let location ← getLocationFromSyntax name'.span
        addDiagnosticAt location template texts) :=
    (never_reportAt.coupled_when fun hc => hc).post fun _ _ _ _ hs => ⟨rfl, hs⟩
  refine agree_after coupled_recordStep (agree_follow_bind fun objectName =>
    agree_follow_bind fun parentName => ?_)
  cases parent with
  | object _ => exact hreport
  | interface _ =>
    cases object with
    | object _ => exact hreport
    | interface _ | inputObject _ | enum _ | union _ => exact never_absent.coupled
  | union _ => exact hreport
  | inputObject _ | enum _ => exact never_reportAt.coupled

theorem agree_currentObjectType_bind {α β : Type} {f : α → β} {k k' : Declaration → ExecutorM α}
    (hk : ∀ d, Agree read f (k d) (k' d)) :
    Agree read f (currentObjectType >>= k) (currentObjectType >>= k') := by
  simp only [currentObjectType, bind_assoc]
  exact agree_topObjectType_bind fun top => agree_follow_bind fun id => agree_declaration_bind hk

theorem agree_parseInlineFragment {fuel fuel' startPosition startPosition' : Nat}
    {set set' : ExecutorM (Option SelectionSet)} (h : Agree False set? set set') :
    Agree read SelectionTurn.unplaced (parseInlineFragment fuel startPosition set)
      (parseInlineFragment fuel' startPosition' set') := by
  refine agree_ite_scanExpected (by decide) ?_
  refine agree_getTokenValue_bind fun value => agree_createName_bind fun nameSpan nameSpan' => ?_
  refine agree_read_bind (fun _ _ hs => hs.nodes.symbols) fun symbols => ?_
  split
  · exact (Never.bind never_addDiagnostic).coupled
  refine agree_createSpan_bind fun span span' => agree_declaration_bind fun d => ?_
  cases d with
  | object o =>
    refine agree_currentObjectType_bind fun current => ?_
    refine coupled_bind agree_checkFragmentAssignment.weaken fun _ _ => coupled_fact fun _ => ?_
    refine agree_after coupled_pushObjectType ?_
    refine coupled_bind agree_parseDirectives fun ds ds' => coupled_fact fun hds => ?_
    refine coupled_bind h fun a a' => coupled_fact fun ha => ?_
    refine coupled_bind coupled_finishSpan fun _ _ => agree_pure ?_
    simp only [SelectionTurn.unplaced, Selection.unplaced, unplacedSelectionSet?_eq_map,
      SelectionTurn.add.injEq, Selection.inlineFragment.injEq, true_and]
    exact ⟨hds, ha⟩
  | interface _ | inputObject _ | enum _ | union _ => exact (Never.bind never_addDiagnostic).coupled

theorem agree_parseFragmentSpread {fuel fuel' : Nat} :
    Agree True SelectionTurn.unplaced (parseFragmentSpread fuel) (parseFragmentSpread fuel') := by
  refine agree_createSpan_bind fun span span' => agree_getTokenValue_bind fun value =>
    agree_createName_bind fun nameSpan nameSpan' => agree_topObjectType_bind fun top => ?_
  refine agree_after (coupled_modifyMembers fun _ _ _ _ h =>
    { h with forwardFragmentReferences := ?_ }) ?_
  · simp only [List.map_append, h.forwardFragmentReferences]
    rfl
  refine coupled_bind agree_parseDirectives fun ds ds' => coupled_fact fun hds => agree_pure ?_
  simp only [SelectionTurn.unplaced, Selection.unplaced, SelectionTurn.add.injEq,
    Selection.fragmentSpread.injEq, true_and]
  exact ⟨rfl, hds⟩

theorem agree_parseFragment {fuel fuel' startPosition startPosition' : Nat}
    {set set' : ExecutorM (Option SelectionSet)} (h : Agree False set? set set') :
    Agree False SelectionTurn.unplaced (parseFragment fuel startPosition set)
      (parseFragment fuel' startPosition' set') := by
  refine coupled_bind coupled_takeToken fun token token' => coupled_fact fun htoken => ?_
  subst htoken
  by_cases hon : token = .onKeyword
  · rw [if_pos hon, if_pos hon]
    exact agree_parseInlineFragment h
  rw [if_neg hon, if_neg hon]
  by_cases hname : token = .gName
  · rw [if_pos hname, if_pos hname]
    exact agree_parseFragmentSpread.pre fun _ _ hs => hs.weaken fun _ hend => by
      cases hname.symm.trans hend
  · rw [if_neg hname]
    exact (Never.bind never_addDiagnostic).coupled

theorem agree_parseFieldSelections {definition : FieldDefinition}
    {set set' : ExecutorM (Option SelectionSet)} (h : Agree False set? set set')
    {field field' : Option SelectionSet → Selection}
    (hfield : ∀ a a', set? a = set? a' → (field a).unplaced = (field' a').unplaced) :
    Agree read SelectionTurn.unplaced (parseFieldSelections definition set field)
      (parseFieldSelections definition set' field') := by
  refine agree_typeNode_bind fun t t' ht => ?_
  obtain ⟨span, name, parent, rfl, hname⟩ := exists_of_unplaced_eq ht
  by_cases hobject : t.type.isObjectType = true
  · rw [if_pos hobject, if_pos hobject]
    refine agree_follow_name_bind hname fun n n' hn => ?_
    rw [hn]
    refine agree_findSymbol_bind fun symbol => agree_after coupled_pushObjectType ?_
    refine coupled_bind h.weaken fun a a' => coupled_fact fun ha => agree_pure ?_
    exact congrArg SelectionTurn.add (hfield a a' ha)
  · rw [if_neg hobject]
    exact (never_bind fun _ => Never.bind never_addDiagnostic).coupled

theorem coupled_recordAlias {fieldAlias fieldAlias' name name' : Option Name} {nested : Bool}
    (halias : name? fieldAlias = name? fieldAlias') (hname : name? name = name? name') :
    Coupled clean .outOfFuel (Abreast read) (recordAlias fieldAlias name nested)
      (recordAlias fieldAlias' name' nested) fun _ _ => Abreast read := by
  cases fieldAlias with
  | none =>
    obtain rfl : fieldAlias' = none := Option.map_eq_none_iff.1 halias.symm
    exact coupled_pure fun _ _ hs => hs
  | some a =>
    obtain ⟨a', rfl, -⟩ := Option.map_eq_some_iff.1 halias.symm
    cases name with
    | none =>
      obtain rfl : name' = none := Option.map_eq_none_iff.1 hname.symm
      exact coupled_pure fun _ _ hs => hs
    | some n =>
      obtain ⟨n', rfl, -⟩ := Option.map_eq_some_iff.1 hname.symm
      exact coupled_bind (coupled_read (Q := fun _ _ => Abreast read) fun _ _ hs => hs) fun _ _ =>
        coupled_recordStep

theorem agree_parseFieldOf {fuel fuel' : Nat} {definition : FieldDefinition} {value : Ustring}
    {set set' : ExecutorM (Option SelectionSet)} (h : Agree False set? set set') :
    Agree read SelectionTurn.unplaced (parseFieldOf fuel definition value set)
      (parseFieldOf fuel' definition value set') := by
  refine agree_createSpan_bind fun span span' => agree_createName_bind fun nameSpan nameSpan' => ?_
  have hfirst : Name.unplaced ⟨nameSpan, value⟩ = Name.unplaced ⟨nameSpan', value⟩ := rfl
  refine coupled_bind (agree_parseFieldName hfirst) fun names names' => coupled_fact fun hnames => ?_
  obtain ⟨fieldAlias, name⟩ := names
  obtain ⟨fieldAlias', name'⟩ := names'
  obtain ⟨halias, hname⟩ := Prod.ext_iff.1 hnames
  refine coupled_bind agree_parseFieldArguments fun supplied supplied' => coupled_fact fun hsupplied => ?_
  obtain ⟨supplied, sp⟩ := supplied
  obtain ⟨supplied', sp'⟩ := supplied'
  refine coupled_bind agree_parseDirectives fun ds ds' => coupled_fact fun hds => ?_
  have hfield : ∀ a a', set? a = set? a' →
      (Selection.field sp fieldAlias name supplied ds a).unplaced =
        (Selection.field sp' fieldAlias' name' supplied' ds' a').unplaced := by
    intro a a' ha
    simp only [Selection.unplaced, unplacedSelectionSet?_eq_map, Selection.field.injEq, true_and]
    exact ⟨halias, hname, hsupplied, hds, ha⟩
  refine agree_scanOptional_bind (by decide) ?_ ?_
  · refine agree_after (coupled_recordAlias halias hname) ?_
    rw [if_pos rfl, if_pos rfl]
    exact agree_parseFieldSelections h hfield
  · refine agree_after (coupled_recordAlias halias hname) ?_
    rw [if_neg Bool.false_ne_true, if_neg Bool.false_ne_true]
    exact agree_pure (congrArg SelectionTurn.add (hfield none none rfl))

theorem agree_parseField {fuel fuel' : Nat} {set set' : ExecutorM (Option SelectionSet)}
    (h : Agree False set? set set') :
    Agree True SelectionTurn.unplaced (parseField fuel set) (parseField fuel' set') := by
  refine agree_getTokenValue_bind fun value => agree_currentObjectType_bind fun current => ?_
  simp only [currentFields, bind_assoc]
  refine agree_after coupled_recordStep (agree_follow_bind fun fields => ?_)
  split
  · exact (never_bind fun _ => Never.bind never_addDiagnostic).coupled
  · exact agree_parseFieldOf h

theorem coupled_popObjectType : Coupled clean .outOfFuel (Abreast False) popObjectType popObjectType
    fun _ _ => Abreast False := by
  refine Coupled.post (Q := fun _ _ s s' => () = () ∧ Abreast False s s') ?_ fun _ _ _ _ hs => hs.2
  refine agree_topObjectType_bind (f := fun _ => ()) fun top => ?_
  refine Coupled.post (Q := fun _ _ => Abreast False) ?_ fun _ _ _ _ hs => ⟨rfl, hs⟩
  exact coupled_modifyMembers fun _ _ _ _ h =>
    { h with currentObjectTypes := congrArg List.tail h.currentObjectTypes }

/-- What the loop over the selections keeps: those read so far are the same, and with a turn more. -/
theorem selections_append {selections selections' : List Selection} {turn turn' : Selection}
    (h : selections.map Selection.unplaced = selections'.map Selection.unplaced)
    (hturn : turn.unplaced = turn'.unplaced) : (selections ++ [turn]).map Selection.unplaced =
      (selections' ++ [turn']).map Selection.unplaced := by
  rw [List.map_append, List.map_append, h, List.map_cons, List.map_cons, hturn]

theorem set?_mk {span span' : Span} {selections selections' : List Selection}
    (h : selections.map Selection.unplaced = selections'.map Selection.unplaced) :
    set? (some (.mk span selections)) = set? (some (.mk span' selections')) := by
  simp only [Option.map_some, SelectionSet.unplaced, unplacedSelections_eq_map, h]

theorem agree_selections (fuel : Nat) : ∀ fuel',
    (∀ span span' selections selections',
      selections.map Selection.unplaced = selections'.map Selection.unplaced →
        Agree False set? (parseSelections fuel span selections)
          (parseSelections fuel' span' selections')) ∧
      Agree False set? (parseSelectionSet fuel) (parseSelectionSet fuel') ∧
        Agree False set? (parseSelectionSetAfterOpenBrace fuel)
          (parseSelectionSetAfterOpenBrace fuel') := by
  induction fuel with
  | zero => exact fun fuel' => ⟨fun _ _ _ _ _ => agree_zero_left, agree_zero_left, agree_zero_left⟩
  | succ fuel ih =>
    intro fuel'
    cases fuel' with
    | zero => exact ⟨fun _ _ _ _ _ => agree_zero_right, agree_zero_right, agree_zero_right⟩
    | succ fuel' =>
    obtain ⟨ihloop, ihset, ihafter⟩ := ih fuel'
    refine ⟨fun span span' selections selections' hselections => ?_, ?_, ?_⟩
    · -- after a turn the loop goes on with one selection more, or as before, or ends
      have hturn : ∀ {turn turn' : ExecutorM SelectionTurn}, Agree True SelectionTurn.unplaced turn turn' →
          Agree True set?
            (do match ← turn with
                | .add selection => parseSelections fuel span (selections ++ [selection])
                | .skip => parseSelections fuel span selections
                | .fail => return none)
            (do match ← turn' with
                | .add selection => parseSelections fuel' span' (selections' ++ [selection])
                | .skip => parseSelections fuel' span' selections'
                | .fail => return none) := by
        intro turn turn' hturn
        refine coupled_bind hturn fun a a' => coupled_fact fun ha => ?_
        cases a <;> cases a' <;> simp only [SelectionTurn.unplaced, reduceCtorEq] at ha
        · exact ihloop _ _ _ _ (selections_append hselections (SelectionTurn.add.inj ha))
        · exact ihloop _ _ _ _ hselections
        · exact agree_pure rfl
      unfold parseSelections
      refine coupled_bind (coupled_read (Q := fun _ _ => Abreast False) fun _ _ hs => hs)
        fun start start' => ?_
      refine coupled_bind coupled_takeNextToken fun token token' => coupled_fact fun htoken => ?_
      subst htoken
      split
      · exact (hturn (agree_parseFragment ihset).weaken).pre fun _ _ hs => hs.weaken fun _ h => by cases h
      · exact (hturn (agree_parseField ihafter)).pre fun _ _ hs => hs.weaken fun _ h => by cases h
      · refine Coupled.pre (P := Abreast False) ?_ fun _ _ hs => hs.weaken False.elim
        exact agree_after coupled_popObjectType (coupled_bind coupled_finishSpan fun _ _ =>
          agree_pure (set?_mk hselections))
      · exact (Never.bind never_reportEndOfSelections).coupled
      · exact (Never.bind never_addDiagnostic).coupled
    · unfold parseSelectionSet
      exact agree_ite_scanExpected (by decide) ihafter.weaken
    · unfold parseSelectionSetAfterOpenBrace
      exact agree_createSpan_bind fun span span' => ihloop span span' [] [] rfl

end Selections

/-! ## Operations and fragments -/

section Definitions

variable {read : Prop}

theorem agree_parseListTypeEnd {isListType : Bool} :
    Agree read id (parseListTypeEnd isListType) (parseListTypeEnd isListType) := by
  unfold parseListTypeEnd
  split
  · refine agree_scanExpected_bind (by decide) ?_
    exact (coupled_scanOptional (by decide)).post fun _ _ _ _ hs => ⟨hs.1, hs.2.weaken False.elim⟩
  · exact agree_pure rfl

theorem agree_parseType : Agree read id parseType parseType := by
  have hmark : ∀ {token : GraphQlToken} {read : Prop} {k k' : Bool → ExecutorM TypeId},
      token ≠ .endOfDocument → (∀ found, Agree False id (k found) (k' found)) →
        Agree read id (scanOptional token false >>= k) (scanOptional token false >>= k') :=
    fun hne hk => agree_scanOptional_bind hne (hk true).weaken (hk false)
  refine hmark (by decide) fun isListType => ?_
  refine coupled_bind coupled_takeToken fun token token' => coupled_fact fun htoken => ?_
  subst htoken
  refine Coupled.pre (P := Abreast False) ?_ fun _ _ hs => hs.weaken False.elim
  refine agree_after coupled_recordStep (hmark (by decide) fun isNonNull => ?_)
  refine coupled_bind agree_parseListTypeEnd fun isNonNullList isNonNullList' => coupled_fact fun h => ?_
  obtain rfl : isNonNullList = isNonNullList' := h
  exact agree_createSpan_bind fun _ _ => coupled_createType rfl

theorem agree_parseDefaultValue {fuel fuel' : Nat} {type : TypeId} :
    Agree read value? (parseDefaultValue fuel type) (parseDefaultValue fuel' type) := by
  exact agree_ite_scanOptional (by decide)
    (agree_recordValueAhead_bind ((agree_values fuel fuel').1 type).weaken) (agree_pure rfl)

theorem agree_parseVariableDefinitionsLoop (fuel : Nat) : ∀ fuel' {definitions definitions'},
    definitions.map VariableDefinition.unplaced = definitions'.map VariableDefinition.unplaced →
      Agree False (List.map VariableDefinition.unplaced) (parseVariableDefinitionsLoop fuel definitions)
        (parseVariableDefinitionsLoop fuel' definitions') := by
  induction fuel with
  | zero => exact fun fuel' _ _ _ => agree_zero_left
  | succ fuel ih =>
    intro fuel' definitions definitions' h
    cases fuel' with
    | zero => exact agree_zero_right
    | succ fuel' =>
    unfold parseVariableDefinitionsLoop
    refine agree_createSpan_bind fun span span' => ?_
    refine coupled_bind coupled_takeToken fun token token' => coupled_fact fun htoken => ?_
    subst htoken
    by_cases hname : token ≠ .gName
    · rw [if_pos hname, if_pos hname]
      exact coupled_bind coupled_recordStep fun _ _ => agree_pure h
    rw [if_neg hname, if_neg hname]
    refine Coupled.pre (P := Abreast True) ?_ fun _ _ hs => hs.weaken fun _ hend => hname fun h => by
      cases hend.symm.trans h
    refine agree_getTokenValue_bind fun value => agree_createName_bind fun nameSpan nameSpan' => ?_
    refine agree_scanExpected_bind (by decide) ?_
    refine coupled_bind agree_parseType fun type type' => coupled_fact fun htype => ?_
    obtain rfl : type = type' := htype
    refine coupled_bind agree_parseDefaultValue fun a a' => coupled_fact fun ha => ?_
    refine agree_ite_scanOptional (by decide) (ih fuel' ?_).weaken (agree_pure h)
    rw [List.map_append, List.map_append, h]
    refine congrArg (_ ++ ·) (congrArg (· :: []) ?_)
    simp only [VariableDefinition.unplaced, VariableDefinition.mk.injEq, true_and]
    exact ⟨rfl, ha⟩

theorem agree_parseVariableDefinitions {fuel fuel' : Nat} : Agree read VariableDefinitions.unplaced
    (parseVariableDefinitions fuel) (parseVariableDefinitions fuel') := by
  refine agree_createSpan_bind fun span span' => ?_
  refine coupled_bind (agree_parseVariableDefinitionsLoop fuel fuel' rfl).weaken fun definitions definitions' =>
    coupled_fact fun h => ?_
  refine coupled_bind coupled_finishSpan fun _ _ => agree_pure ?_
  simp only [VariableDefinitions.unplaced, h]

theorem agree_parseOperationVariables {fuel fuel' : Nat} :
    Agree read (Option.map VariableDefinitions.unplaced) (parseOperationVariables fuel)
      (parseOperationVariables fuel') := by
  refine agree_ite_scanOptional (by decide) ?_ (agree_pure rfl)
  refine coupled_bind agree_parseVariableDefinitions fun a a' => coupled_fact fun ha => ?_
  exact agree_scanExpected_bind (by decide) (agree_pure (congrArg some ha))

theorem agree_parseOperationHead {fuel fuel' : Nat} :
    Agree read (Prod.map name? (Option.map VariableDefinitions.unplaced)) (parseOperationHead fuel)
      (parseOperationHead fuel') := by
  refine agree_ite_scanOptional (by decide) ?_ (agree_pure rfl)
  refine agree_getTokenValue_bind fun value => agree_createName_bind fun nameSpan nameSpan' => ?_
  refine coupled_bind agree_parseOperationVariables fun a a' => coupled_fact fun ha => agree_pure ?_
  exact Prod.ext rfl ha

/-- A definition without places. -/
def PrimaryDefinition.unplaced : PrimaryDefinition → PrimaryDefinition
  | .operation d => .operation d.unplaced
  | .fragment d => .fragment d.unplaced

abbrev definition? : Option PrimaryDefinition → Option PrimaryDefinition :=
  Option.map PrimaryDefinition.unplaced

theorem agree_parseOperationDefinition {fuel fuel' : Nat} {operationType : OperationType} :
    Agree read definition? (parseOperationDefinition fuel operationType)
      (parseOperationDefinition fuel' operationType) := by
  refine agree_createSpan_bind fun span span' => ?_
  refine coupled_bind agree_parseOperationHead fun head head' => coupled_fact fun hhead => ?_
  obtain ⟨name, definitions⟩ := head
  obtain ⟨name', definitions'⟩ := head'
  obtain ⟨hname, hdefinitions⟩ := Prod.ext_iff.1 hhead
  refine coupled_bind agree_parseDirectives fun ds ds' => coupled_fact fun hds => ?_
  refine agree_option_bind (agree_selections fuel fuel').2.1 (agree_pure rfl) fun set set' hset => ?_
  refine agree_pure (congrArg (fun d => some (PrimaryDefinition.operation d)) ?_)
  simp only [OperationDefinition.unplaced, OperationDefinition.mk.injEq, true_and]
  exact ⟨hname, hdefinitions, congrArg some hset, hds⟩

theorem coupled_reportDuplicateFragment {name name' : Name} (hname : name.identifier = name'.identifier)
    {fragment fragment' : FragmentDefinition} (h : fragment.unplaced = fragment'.unplaced) :
    Coupled clean .outOfFuel (Abreast read) (reportDuplicateFragment name fragment)
      (reportDuplicateFragment name' fragment') fun _ _ => Abreast read := by
  refine coupled_bind coupled_recordStep fun _ _ => ?_
  refine coupled_bind (coupled_read (Q := fun a a' s s' =>
    a.map FragmentDefinition.unplaced = a'.map FragmentDefinition.unplaced ∧ Abreast read s s')
      fun s s' hs => ⟨hs.nodes.fragments, hs⟩) fun fragments fragments' => coupled_fact fun hfragments => ?_
  rw [← hname]
  cases hfind : fragments.find? name.identifier with
  | some _ => exact (Never.bind never_addDiagnostic).coupled
  | none =>
    rw [(find?_eq_none_of hfragments).1 hfind]
    refine coupled_modifyMembers fun _ _ _ _ hm => { hm with fragments := ?_ }
    rw [SortedMap.map_emplace, SortedMap.map_emplace, hm.fragments, h]

theorem agree_parseFragmentBody {fuel fuel' : Nat} {span span' : Span} {name name' typeName typeName' : Name}
    (hname : name.unplaced = name'.unplaced) (htype : typeName.unplaced = typeName'.unplaced)
    {symbol : Symbol} : Agree read definition? (parseFragmentBody fuel span name typeName symbol)
      (parseFragmentBody fuel' span' name' typeName' symbol) := by
  refine agree_declaration_bind fun d => ?_
  have hcheck : Coupled clean .outOfFuel (Abreast read) (checkFragmentType typeName d)
      (checkFragmentType typeName' d) fun _ _ => Abreast read := by
    cases d with
    | object _ => exact coupled_pure fun _ _ hs => hs
    | interface _ | inputObject _ | enum _ | union _ => exact never_addDiagnostic.coupled
  refine agree_after hcheck (agree_after coupled_pushObjectType ?_)
  refine coupled_bind agree_parseDirectives fun ds ds' => coupled_fact fun hds => ?_
  -- a block is passed over only where the selections were reported
  have hread : ∀ s a t, Ends clean (parseSelectionSet fuel) s a t → a ≠ none := by
    intro s a t h hnone
    obtain ⟨_, _, _, _, hsome, -⟩ := (takes_selections fuel).2.1 h
    cases hnone.symm.trans hsome
  refine coupled_bind ((agree_selections fuel fuel').2.1.knowing hread) fun a a' =>
    coupled_fact fun hne => coupled_fact fun ha => ?_
  cases a with
  | none => exact absurd rfl hne
  | some set =>
    obtain ⟨set', rfl, hset⟩ := Option.map_eq_some_iff.1 ha.symm
    refine agree_pure (congrArg (fun d => some (PrimaryDefinition.fragment d)) ?_)
    simp only [FragmentDefinition.unplaced, FragmentDefinition.mk.injEq, true_and]
    exact ⟨hname, congrArg some htype, hds, congrArg some hset.symm⟩

theorem agree_parseFragmentDefinition {fuel fuel' : Nat} : Agree read definition?
    (parseFragmentDefinitionAfterFragmentKeyword fuel)
      (parseFragmentDefinitionAfterFragmentKeyword fuel') := by
  refine agree_createSpan_bind fun span span' => agree_ite_scanExpected (by decide) ?_
  refine agree_getTokenValue_bind fun value => agree_createName_bind fun nameSpan nameSpan' => ?_
  refine agree_after (coupled_reportDuplicateFragment (by rfl) (by rfl)) ?_
  refine agree_ite_scanExpected (by decide) (agree_ite_scanExpected (by decide) ?_)
  refine agree_getTokenValue_bind fun typeValue => ?_
  refine agree_read_bind (fun _ _ hs => hs.nodes.symbols) fun symbols => ?_
  split
  · exact (Never.bind never_addDiagnostic).coupled
  · exact agree_createName_bind fun _ _ => agree_parseFragmentBody (by rfl) (by rfl)

theorem agree_parsePrimaryToken {fuel fuel' : Nat} {token : GraphQlToken} :
    Agree read definition? (parsePrimaryToken fuel token) (parsePrimaryToken fuel' token) := by
  unfold parsePrimaryToken
  split
  · exact agree_read_bind (fun _ _ hs => hs.nodes.query) fun _ =>
      agree_after coupled_pushObjectType agree_parseOperationDefinition
  · refine agree_read_bind (fun _ _ hs => hs.nodes.mutation) fun mutation => ?_
    split
    · exact (Never.bind never_addDiagnostic).coupled
    · exact agree_after coupled_pushObjectType agree_parseOperationDefinition
  · refine agree_read_bind (fun _ _ hs => hs.nodes.subscription) fun subscription => ?_
    split
    · exact (Never.bind never_addDiagnostic).coupled
    · exact agree_after coupled_pushObjectType agree_parseOperationDefinition
  · refine agree_read_bind (fun _ _ hs => hs.nodes.query) fun _ => agree_after coupled_pushObjectType ?_
    refine agree_createSpan_bind fun span span' => ?_
    refine agree_option_bind (agree_selections fuel fuel').2.2.weaken (agree_pure rfl)
      fun set set' hset => ?_
    refine agree_pure (congrArg (fun d => some (PrimaryDefinition.operation d)) ?_)
    simp only [OperationDefinition.unplaced, OperationDefinition.mk.injEq, true_and]
    exact ⟨congrArg some hset, trivial⟩
  · exact agree_parseFragmentDefinition
  · exact (Never.bind never_addDiagnostic).coupled

end Definitions

/-! ## The document -/

theorem unplaced_addDefinition {document document' : ExecutableDefinition}
    (h : document.unplaced = document'.unplaced) {definition definition' : PrimaryDefinition}
    (hdefinition : definition.unplaced = definition'.unplaced) :
    (addDefinition document definition).unplaced = (addDefinition document' definition').unplaced := by
  simp only [ExecutableDefinition.unplaced, ExecutableDefinition.mk.injEq, true_and] at h
  obtain ⟨hoperations, hfragments, hdiagnostics⟩ := h
  cases definition <;> cases definition' <;>
    simp only [PrimaryDefinition.unplaced, PrimaryDefinition.operation.injEq,
      PrimaryDefinition.fragment.injEq, reduceCtorEq] at hdefinition
  · simp only [addDefinition, ExecutableDefinition.unplaced, List.map_append, List.map_cons, List.map_nil,
      hoperations, hfragments, hdiagnostics, hdefinition]
  · simp only [addDefinition, ExecutableDefinition.unplaced, List.map_append, List.map_cons, List.map_nil,
      hoperations, hfragments, hdiagnostics, hdefinition]

theorem agree_parseDefinitions (fuel : Nat) : ∀ fuel' {token document document'},
    document.unplaced = document'.unplaced → Agree False ExecutableDefinition.unplaced
      (parseDefinitions fuel token document) (parseDefinitions fuel' token document') := by
  induction fuel with
  | zero => exact fun fuel' _ _ _ _ => agree_zero_left
  | succ fuel ih =>
    intro fuel' token document document' h
    cases fuel' with
    | zero => exact agree_zero_right
    | succ fuel' =>
    unfold parseDefinitions
    by_cases hend : token = .endOfDocument
    · rw [if_pos hend, if_pos hend]
      exact agree_pure h
    rw [if_neg hend, if_neg hend]
    refine coupled_bind agree_parsePrimaryToken fun a a' => coupled_fact fun ha => ?_
    refine coupled_bind coupled_takeToken fun next next' => coupled_fact fun hnext => ?_
    subst hnext
    refine Coupled.pre (P := Abreast False) ?_ fun _ _ hs => hs.weaken False.elim
    cases a with
    | none =>
      obtain rfl : a' = none := Option.map_eq_none_iff.1 ha.symm
      exact ih fuel' h
    | some definition =>
      obtain ⟨definition', rfl, hdefinition⟩ := Option.map_eq_some_iff.1 ha.symm
      exact ih fuel' (unplaced_addDefinition h hdefinition.symm)

/-- Fragments that are the same up to places are found under the same names. -/
theorem find?_fragment {definitions definitions' : List FragmentDefinition}
    (h : definitions.map FragmentDefinition.unplaced = definitions'.map FragmentDefinition.unplaced)
    (identifier : Ustring) :
    (definitions.find? fun f => identifier = f.name.identifier).map FragmentDefinition.unplaced =
      (definitions'.find? fun f => identifier = f.name.identifier).map FragmentDefinition.unplaced := by
  have hfind := congrArg (List.find? fun f => decide (identifier = f.name.identifier)) h
  rwa [List.find?_map, List.find?_map] at hfind

theorem agree_checkForwardFragmentReference {definitions definitions' : List FragmentDefinition}
    (h : definitions.map FragmentDefinition.unplaced = definitions'.map FragmentDefinition.unplaced)
    {reference reference' : Name × Option DeclarationId}
    (hreference : Prod.map Name.unplaced id reference = Prod.map Name.unplaced id reference') :
    Agree False (fun _ => ()) (checkForwardFragmentReference definitions reference)
      (checkForwardFragmentReference definitions' reference') := by
  obtain ⟨name, current⟩ := reference
  obtain ⟨name', current'⟩ := reference'
  obtain ⟨hname, hcurrent⟩ := Prod.ext_iff.1 hreference
  obtain rfl : current = current' := hcurrent
  have hfind := find?_fragment h name.identifier
  simp only [checkForwardFragmentReference]
  rw [show name'.identifier = name.identifier from (congrArg Name.identifier hname :).symm]
  cases hfragment : definitions.find? fun f => name.identifier = f.name.identifier with
  | none => exact never_reportAt.coupled
  | some fragment =>
    rw [hfragment, Option.map_some, eq_comm, Option.map_eq_some_iff] at hfind
    obtain ⟨fragment', hfragment', heq⟩ := hfind
    rw [hfragment']
    refine agree_follow_name_bind (congrArg FragmentDefinition.type heq).symm fun n n' hn => ?_
    rw [hn]
    exact agree_findSymbol_bind fun symbol => agree_declaration_bind fun object =>
      agree_follow_bind fun id => agree_declaration_bind fun parent => agree_checkFragmentAssignment

theorem coupled_checkForwardFragmentReferences {definitions definitions' : List FragmentDefinition}
    (h : definitions.map FragmentDefinition.unplaced = definitions'.map FragmentDefinition.unplaced) :
    Coupled clean .outOfFuel (Abreast False) (checkForwardFragmentReferences definitions)
      (checkForwardFragmentReferences definitions') fun _ _ => Abreast False := by
  refine coupled_bind (coupled_read (Q := fun references references' s s' =>
    references.map (Prod.map Name.unplaced id) = references'.map (Prod.map Name.unplaced id) ∧
      Abreast False s s') fun s s' hs => ⟨hs.nodes.forwardFragmentReferences, hs⟩)
        fun references references' => coupled_fact fun hreferences => ?_
  refine coupled_forM (forall₂_of_map_eq hreferences) fun reference reference' hreference => ?_
  exact (agree_checkForwardFragmentReference h hreference).post fun _ _ _ _ hs => hs.2

theorem agree_execute {query query' : Ustring} :
    Agree False ExecutableDefinition.unplaced (execute query) (execute query') := by
  refine coupled_bind coupled_takeToken fun token token' => coupled_fact fun htoken => ?_
  subst htoken
  refine Coupled.pre (P := Abreast False) ?_ fun _ _ hs => hs.weaken False.elim
  refine agree_createSpan_bind fun span span' => ?_
  refine coupled_bind (agree_parseDefinitions _ _ rfl) fun document document' => coupled_fact fun h => ?_
  refine agree_after (coupled_checkForwardFragmentReferences
    (congrArg ExecutableDefinition.fragmentDefinitions h)) (coupled_good ?_)
  refine coupled_bind (coupled_read (Q := fun d d' s s' => d = d' ∧ Abreast False s s')
    fun s s' hs => ⟨hs.1.trans hs.2.1.symm, hs.2.2⟩) fun d d' => coupled_fact fun hd => agree_pure ?_
  exact congrArg₂ (fun u d => { u with diagnostics := d }) h hd

/-- An accepted query is accepted in every layout, and reads as the same document but for the places of
its nodes. -/
theorem accepts_of_sameLexemes {schema : GraphQlSchema} {query query' : Ustring}
    (hsame : SameLexemes ({ source := query } : GraphQlScanner).rest
      ({ source := query' } : GraphQlScanner).rest)
    {document : ExecutableDefinition} {executor : GraphQlExecutor}
    (h : Accepts schema query document executor) : ∃ document' executor',
      Accepts schema query' document' executor' ∧ document'.unplaced = document.unplaced := by
  have habreast : Abreast False (addSchema schema query) (addSchema schema query') :=
    ⟨hsame, False.elim, rfl, ⟨rfl, rfl, rfl, rfl, rfl, rfl, rfl, rfl, rfl, rfl⟩, rfl, rfl, rfl, rfl⟩
  rcases agree_execute _ _ _ _ habreast rfl ⟨h.1, h.2⟩ with ⟨u, hstop⟩ | ⟨document', executor', hends, heq, -⟩
  · exact absurd (congrArg Outcome.stop? hstop) (run_stop_ne_outOfFuel schema query')
  · exact ⟨document', executor', hends, heq.symm⟩

/-- A query that is laid out over several lines, with commas and a comment. -/
theorem accepts_of_sameLexemes_spread : ∃ schema document executor document' executor',
    GraphQlSchema.Accepts "type Query{f(a:Int):Query b:Int}".toList schema ∧
      Accepts schema "{f(a:1){b}b}".toList document executor ∧
      Accepts schema "\x7b f(a: 1) \x7b\n  b,\n\x7d # more\n  b \x7d\n".toList document' executor' ∧
      document'.unplaced = document.unplaced := by
  have haccepts : GraphQlSchema.Accepts "type Query{f(a:Int):Query b:Int}".toList _ :=
    GraphQlSchema.accepts_of_run (by decide +kernel) (by decide +kernel)
  obtain ⟨document, hrun⟩ := Outcome.exists_eq_ok (o := run
    (GraphQlSchema.run "type Query{f(a:Int):Query b:Int}".toList).state "{f(a:1){b}b}".toList)
      (by decide +kernel)
  have hdocument : Accepts _ _ document _ := ⟨hrun, by decide +kernel⟩
  have hsame : SameLexemes ({ source := "{f(a:1){b}b}".toList } : GraphQlScanner).rest
      ({ source := "\x7b f(a: 1) \x7b\n  b,\n\x7d # more\n  b \x7d\n".toList } : GraphQlScanner).rest := by
    decide +kernel
  obtain ⟨document', executor', hdocument', heq⟩ := accepts_of_sameLexemes hsame hdocument
  exact ⟨_, document, _, document', executor', haccepts, hdocument, hdocument', heq⟩

end GraphQlExecutor

end Flashpoint
