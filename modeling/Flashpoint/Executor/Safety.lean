import Flashpoint.Executor.SafeValues

/-!
# Reads that are not guarded

The readers of selections, operations and fragments keep the invariant `Running` too, and so does
`Execute`: against an accepted schema, a validation run reads something absent exactly when one of
its steps is not safe.
-/

namespace Flashpoint

open Library Climb

namespace GraphQlExecutor

open ParserM GraphQlSchema

variable {schema : GraphQlSchema} {k n depth : Nat} {α β : Type}

/-! ## Selections -/

section Selections

variable (hschema : Constructed schema)

/-- A declaration of the schema that was read to its end. -/
def IsDeclaration (schema : GraphQlSchema) (d : Declaration) : Prop :=
  d.Complete schema.pool.types ∧ ∃ name, d.name = some name

include hschema in
theorem triple_declarationOf {entry : Option DeclarationId} (hentry : IsDeclared schema entry)
    {P : GraphQlExecutor → Prop} (hP : ∀ s, P s → s.pool.declarations = schema.pool.declarations) :
    Triple P (follow entry >>= declaration) (fun d s => IsDeclaration schema d ∧ P s) Stopped := by
  obtain ⟨name, symbol, hsymbol, rfl⟩ := hentry
  refine triple_bind (triple_follow rfl) fun id => triple_fact fun hid => ?_
  subst hid
  refine (triple_declaration hschema hsymbol hP).conseq (fun _ hs => hs) fun d s hs => ⟨?_, hs.2⟩
  obtain ⟨⟨-, hcomplete, hname⟩, -⟩ := hs
  obtain ⟨name', hname', -⟩ := Option.map_eq_some_iff.1 hname
  exact ⟨hcomplete, name', hname'⟩

/-- The stack is not empty, and its top is a declaration of the schema. -/
theorem triple_topObjectType :
    Triple (Running schema k n (depth + 1)) topObjectType (fun top s => IsDeclared schema top ∧
      Running schema k n (depth + 1) s) Stopped := by
  refine triple_bind sound_read fun _ => triple_bind (sound_recordStep rfl) fun _ => ?_
  refine triple_deref fun s hs => ?_
  have hdepth := hs.depth
  cases hstack : s.members.currentObjectTypes with
  | nil => simp [hstack] at hdepth
  | cons top rest =>
    have htop : top ∈ s.members.currentObjectTypes := hstack ▸ List.mem_cons_self ..
    exact ⟨top, rfl, hs.entries top htop, hs⟩

include hschema in
theorem triple_currentObjectType :
    Triple (Running schema k n (depth + 1)) currentObjectType (fun d s => IsDeclaration schema d ∧
      Running schema k n (depth + 1) s) Stopped :=
  triple_bind triple_topObjectType fun _ => triple_fact fun htop =>
    triple_declarationOf hschema htop fun _ hs => hs.declarations

theorem triple_pushObjectType {entry : Option DeclarationId} (hentry : IsDeclared schema entry) :
    Triple (Running schema k n depth) (pushObjectType entry)
      (fun _ => Running schema k n (depth + 1)) Stopped := by
  refine triple_step fun s hs => { hs with depth := Nat.succ_le_succ hs.depth, entries := ?_ }
  intro e he
  rcases List.mem_cons.1 he with rfl | he
  · exact hentry
  · exact hs.entries e he

theorem triple_popObjectType :
    Triple (Running schema k n (depth + 1)) popObjectType (fun _ => Running schema k n depth)
      Stopped := by
  refine triple_bind triple_topObjectType fun _ => triple_fact fun _ => ?_
  refine triple_step fun s hs => { hs with depth := ?_, entries := ?_ }
  · have hdepth := hs.depth
    simp only [List.length_tail]
    omega
  · exact fun e he => hs.entries e (List.mem_of_mem_tail he)

/-- The check of a fragment: it is safe unless it is no object inside an interface. -/
theorem sound_checkFragmentAssignment {name : Name} {object parent : Declaration}
    (hobject : ∃ n, object.name = some n) (hparent : ∃ n, parent.name = some n) :
    Sound schema (checkFragmentAssignment name object parent) := by
  obtain ⟨objectName, hobject⟩ := hobject
  obtain ⟨parentName, hparent⟩ := hparent
  intro k n depth
  refine triple_recordStep (fun _ hs => hs) (fun hsafe => ?_) fun hnot => ?_
  · refine triple_bind (sound_follow hobject) fun _ => triple_bind (sound_follow hparent) fun _ => ?_
    cases parent with
    | interface i =>
      cases object with
      | object o => exact sound_when fun _ => sound_reportAt
      | interface _ => exact absurd hsafe (by simp [Step.isSafe, Declaration.kind])
      | inputObject _ => exact absurd hsafe (by simp [Step.isSafe, Declaration.kind])
      | enum _ => exact absurd hsafe (by simp [Step.isSafe, Declaration.kind])
      | union _ => exact absurd hsafe (by simp [Step.isSafe, Declaration.kind])
    | object o => exact sound_when fun _ => sound_reportAt
    | union u => exact sound_when fun _ => sound_reportAt
    | inputObject o => exact sound_reportAt
    | enum e => exact sound_reportAt
  · have hpass : ∀ {p : Option Name}, Passing schema (follow p : ExecutorM Name) :=
      triple_doomed_deref.conseq (fun _ hs => hs) fun _ _ hs => hs.2
    simp only [Step.isSafe, Bool.or_eq_false_iff, decide_eq_false_iff_not, ne_eq,
      Decidable.not_not] at hnot
    refine Passing.bind hpass fun _ => Passing.bind hpass fun _ => ?_
    cases parent with
    | interface i =>
      cases object with
      | object o => exact absurd rfl hnot.2
      | interface _ => exact failing_absent
      | inputObject _ => exact failing_absent
      | enum _ => exact failing_absent
      | union _ => exact failing_absent
    | object o => exact absurd hnot.1 (by simp [Declaration.kind])
    | union u => exact absurd hnot.1 (by simp [Declaration.kind])
    | inputObject o => exact absurd hnot.1 (by simp [Declaration.kind])
    | enum e => exact absurd hnot.1 (by simp [Declaration.kind])

theorem sound_parseFieldName {name : Name} : Sound schema (parseFieldName name) := by
  intro k n depth
  refine triple_bind (sound_scanOptional (by decide)) fun colon => ?_
  split
  · refine triple_bind (Q := fun _ => Running schema k n depth) ?_ fun _ => sound_pure
    refine triple_bind (sound_scanExpected (by decide)) fun found => ?_
    split
    · exact triple_bind sound_getTokenValue fun _ => triple_bind sound_createName fun _ => sound_pure
    · exact sound_pure
  · exact sound_pure

/-- The symbols, as they are read. -/
theorem triple_readSymbols : Triple (Running schema k n depth)
    (ParserM.read fun s => s.members.symbols) (fun symbols s =>
      symbols = schema.members.symbols ∧ Running schema k n depth s) Stopped :=
  triple_bind (triple_get (Q := fun a s => a = s ∧ Running schema k n depth s)
    fun _ hs => ⟨rfl, hs⟩) fun _ => triple_pure fun _ hs => ⟨hs.1 ▸ hs.2.symbols, hs.2⟩

/-- The declarations that have no fields to read. -/
theorem objectFields?_eq_none {d : Declaration} (h : (Step.selectField d.kind).isSafe = false) :
    d.objectFields? = none := by
  cases d with
  | object o => exact absurd h (by simp [Step.isSafe, Declaration.kind])
  | interface i => exact absurd h (by simp [Step.isSafe, Declaration.kind])
  | inputObject o => rfl
  | enum e => rfl
  | union u => rfl

/-- The declarations that have fields, and were read to their end. -/
theorem exists_objectFields? {d : Declaration} {types : List TypeNode} (hd : d.Complete types)
    (h : (Step.selectField d.kind).isSafe = true) :
    ∃ fields, d.objectFields? = some fields ∧ FieldsWellFormed types fields := by
  cases d with
  | object o =>
    obtain ⟨fields, hfields, -, hwf⟩ := hd
    exact ⟨fields, hfields, hwf⟩
  | interface i =>
    obtain ⟨fields, hfields, -, hwf⟩ := hd
    exact ⟨fields, hfields, hwf⟩
  | inputObject o => exact absurd h (by simp [Step.isSafe, Declaration.kind])
  | enum e => exact absurd h (by simp [Step.isSafe, Declaration.kind])
  | union u => exact absurd h (by simp [Step.isSafe, Declaration.kind])

section Turns

variable {fuel : Nat} (hfuel : 3 * n + 1 ≤ fuel) {selectionSet : ExecutorM (Option SelectionSet)}
  (hset : ∀ {depth}, Triple (Running schema k n (depth + 1)) selectionSet
    (fun _ => Running schema k n depth) Stopped)
include hschema hfuel

include hset in
theorem triple_parseInlineFragment {startPosition : Nat} :
    Triple (Running schema k n (depth + 1)) (parseInlineFragment fuel startPosition selectionSet)
      (fun _ => Running schema k n (depth + 1)) Stopped := by
  have hskip : ∀ {template arguments turn}, Sound schema (do
      addDiagnostic template arguments
      skipBlock
      return turn : ExecutorM SelectionTurn) := fun {_ _ _} =>
    sound_bind sound_addDiagnostic fun _ => sound_bind sound_skipBlock fun _ => sound_pure
  refine triple_bind (sound_scanExpected (by decide)) fun found => ?_
  split
  · refine triple_bind sound_getTokenValue fun value => triple_bind sound_createName fun name => ?_
    refine triple_bind triple_readSymbols fun symbols => triple_fact fun hsymbols => ?_
    subst hsymbols
    split
    · exact hskip
    next symbol hsymbol =>
    refine triple_bind sound_createSpan fun span => ?_
    refine triple_bind (triple_declaration hschema hsymbol fun _ hs => hs.declarations) fun d =>
      triple_fact fun hd => ?_
    obtain ⟨-, -, hname⟩ := hd
    obtain ⟨objectName, hobject, -⟩ := Option.map_eq_some_iff.1 hname
    split
    · refine triple_bind (triple_currentObjectType hschema) fun current =>
        triple_fact fun hcurrent => ?_
      refine triple_bind (sound_checkFragmentAssignment ⟨objectName, hobject⟩ hcurrent.2)
        fun _ => ?_
      refine triple_bind (triple_pushObjectType ⟨value, symbol, hsymbol, rfl⟩) fun _ => ?_
      refine triple_bind (triple_parseDirectives hschema hfuel) fun _ => triple_bind hset fun _ => ?_
      exact triple_bind sound_finishSpan fun _ => sound_pure
    · exact hskip
  · exact hskip

theorem triple_parseFragmentSpread :
    Triple (Running schema k n (depth + 1)) (parseFragmentSpread fuel)
      (fun _ => Running schema k n (depth + 1)) Stopped := by
  refine triple_bind sound_createSpan fun _ => triple_bind sound_getTokenValue fun _ => ?_
  refine triple_bind sound_createName fun name => ?_
  refine triple_bind triple_topObjectType fun top => triple_fact fun htop => ?_
  refine triple_bind (Q := fun _ => Running schema k n (depth + 1)) ?_ fun _ =>
    triple_bind (triple_parseDirectives hschema hfuel) fun _ => sound_pure
  refine triple_step fun s hs => { hs with references := fun reference hmem => ?_ }
  rcases List.mem_append.1 hmem with hold | hnew
  · exact hs.references reference hold
  · exact List.mem_singleton.1 hnew ▸ htop

include hset in
theorem triple_parseFragment {startPosition : Nat} :
    Triple (Running schema k n (depth + 1)) (parseFragment fuel startPosition selectionSet)
      (fun _ => Running schema k n (depth + 1)) Stopped := by
  refine triple_bind sound_takeToken fun token => ?_
  split
  · exact triple_parseInlineFragment hschema hfuel hset
  split
  · exact triple_parseFragmentSpread hschema hfuel
  · exact triple_bind sound_addDiagnostic fun _ => triple_bind sound_skipBlock fun _ => sound_pure

omit hfuel in
include hset in
/-- A selection set is read against the declaration that the type of the field names. -/
theorem triple_parseFieldSelections {definition : FieldDefinition}
    (hdefinition : IsTypeAt schema.pool.types false definition.type)
    {field : Option SelectionSet → Selection} :
    Triple (Running schema k n (depth + 1)) (parseFieldSelections definition selectionSet field)
      (fun _ => Running schema k n (depth + 1)) Stopped := by
  obtain ⟨t₀, ht₀, -⟩ := hdefinition
  have hmem := List.mem_of_getElem? ht₀
  refine triple_bind (Q := fun t s => (∃ isListType, t = { t₀ with isListType }) ∧
    Running schema k n (depth + 1) s) ?_ fun t => triple_fact fun ht => ?_
  · refine triple_deref fun s hs => ?_
    obtain ⟨isListType, ht⟩ := hs.types ht₀
    exact ⟨_, ht, ⟨isListType, rfl⟩, hs⟩
  obtain ⟨isListType, rfl⟩ := ht
  split
  · next hobject =>
    rcases Option.eq_none_or_eq_some t₀.name with hname | ⟨name, hname⟩
    · have hscalar := hschema.scalars t₀ hmem hname
      revert hobject hscalar
      cases t₀.type <;> simp [TypeEnum.isObjectType, TypeEnum.isScalar]
    obtain ⟨symbol, hsymbol, -⟩ := hschema.resolves t₀ hmem name hname
    refine triple_bind (triple_follow hname) fun name' => triple_fact fun hname' => ?_
    subst hname'
    refine triple_bind (triple_findSymbol hsymbol fun _ hs => hs.symbols) fun symbol' =>
      triple_fact fun hsymbol' => ?_
    subst hsymbol'
    refine triple_bind (triple_pushObjectType ⟨_, _, hsymbol, rfl⟩) fun _ => ?_
    exact triple_bind hset fun _ => sound_pure
  · refine triple_bind (sound_getTypeName (t := { t₀ with isListType })
      (hschema.scalars t₀ hmem) (hschema.named t₀ hmem)) fun _ => ?_
    exact triple_bind sound_addDiagnostic fun _ =>
      triple_bind sound_skipToNextPrimaryToken fun _ => sound_pure

include hset in
theorem triple_parseFieldOf {definition : FieldDefinition}
    (htype : IsTypeAt schema.pool.types false definition.type)
    (harguments : ArgumentsWellFormed schema.pool.types definition.arguments) {value : Ustring} :
    Triple (Running schema k n (depth + 1)) (parseFieldOf fuel definition value selectionSet)
      (fun _ => Running schema k n (depth + 1)) Stopped := by
  refine triple_bind sound_createSpan fun _ => triple_bind sound_createName fun _ => ?_
  refine triple_bind sound_parseFieldName fun names => ?_
  refine triple_bind (triple_parseFieldArguments hschema hfuel harguments) fun arguments => ?_
  refine triple_bind (triple_parseDirectives hschema hfuel) fun _ => ?_
  refine triple_bind (sound_scanOptional (by decide)) fun nested => ?_
  refine triple_bind sound_recordAlias fun _ => ?_
  split
  · exact triple_parseFieldSelections hschema hset htype
  · exact sound_pure

include hset in
theorem triple_parseField :
    Triple (Running schema k n (depth + 1)) (parseField fuel selectionSet)
      (fun _ => Running schema k n (depth + 1)) Stopped := by
  refine triple_bind sound_getTokenValue fun value => ?_
  refine triple_bind (triple_currentObjectType hschema) fun current =>
    triple_fact fun hcurrent => ?_
  obtain ⟨hcomplete, currentName, hname⟩ := hcurrent
  have hfields : Triple (Running schema k n (depth + 1)) (currentFields current)
      (fun fields s => FieldsWellFormed schema.pool.types fields ∧
        Running schema k n (depth + 1) s) Stopped := by
    refine triple_recordStep (fun _ hs => hs) (fun hsafe => ?_) fun hnot => ?_
    · obtain ⟨fields, hfields, hwf⟩ := exists_objectFields? hcomplete hsafe
      exact triple_deref fun s hs => ⟨fields, hfields, hwf, hs⟩
    · exact failing_follow (objectFields?_eq_none hnot)
  refine triple_bind hfields fun fields => triple_fact fun hwf => ?_
  split
  · refine triple_bind (sound_follow hname) fun _ => triple_bind sound_addDiagnostic fun _ => ?_
    exact triple_bind sound_skipTo fun _ => sound_pure
  · next definition hdefinition =>
    obtain ⟨-, htype, harguments⟩ := hwf _ _ hdefinition
    exact triple_parseFieldOf hschema hfuel hset htype harguments

end Turns

end Selections

section Documents

variable (hschema : Constructed schema)

theorem sound_reportEndOfSelections {selections : List Selection} :
    Sound schema (reportEndOfSelections selections) := by
  unfold reportEndOfSelections
  split <;> exact sound_addDiagnostic

include hschema in
/-- The selection sets, by induction on the bound. Each of them is read with an entry on the stack
that it takes away, or leaves there when it ends early. -/
theorem triple_selectionSets (fuel : Nat) :
    (∀ {n depth span selections}, 3 * n + 1 ≤ fuel →
      Triple (Running schema k n (depth + 1)) (parseSelections fuel span selections)
        (fun _ => Running schema k n depth) Stopped) ∧
    (∀ {n depth}, 3 * n + 1 ≤ fuel →
      Triple (Running schema k n (depth + 1)) (parseSelectionSet fuel)
        (fun _ => Running schema k n depth) Stopped) ∧
    ∀ {n depth}, 3 * n + 2 ≤ fuel →
      Triple (Running schema k n (depth + 1)) (parseSelectionSetAfterOpenBrace fuel)
        (fun _ => Running schema k n depth) Stopped := by
  induction fuel with
  | zero => refine ⟨fun h => ?_, fun h => ?_, fun h => ?_⟩ <;> omega
  | succ fuel ih =>
    obtain ⟨ihSelections, ihSet, ihAfter⟩ := ih
    refine ⟨fun {n depth span selections} hfuel => ?_, fun {n depth} hfuel => ?_,
      fun {n depth} hfuel => ?_⟩
    · unfold parseSelections
      refine triple_bind sound_read fun start => triple_bind triple_takeNextToken fun token => ?_
      by_cases htoken : token = .endOfDocument
      · subst htoken
        refine triple_bind (sound_reportEndOfSelections.conseq (fun _ hs => hs.1)
          fun _ _ hs => hs) fun _ => ?_
        exact triple_pure fun s hs => hs.withDepth (Nat.le_succ _)
      refine Triple.conseq (triple_below (Q := fun _ => Running schema k n depth) fun m hm => ?_)
        (fun s hs => hs.2 htoken) fun _ _ hs => hs
      have hagain : ∀ {selections}, Triple (Running schema k m (depth + 1))
          (parseSelections fuel span selections) (fun _ => Running schema k n depth) Stopped :=
        (ihSelections (by omega)).conseq (fun _ hs => hs) fun _ _ hs => hs.mono (Nat.le_of_lt hm)
      have hstop : ∀ {r : Option SelectionSet}, Triple (Running schema k m (depth + 1))
          (pure r : ExecutorM _) (fun _ => Running schema k n depth) Stopped :=
        triple_pure fun _ hs => (hs.mono (Nat.le_of_lt hm)).withDepth (Nat.le_succ _)
      split
      · refine triple_bind (triple_parseFragment hschema (by omega)
          (ihSet (by omega))) fun turn => ?_
        cases turn with
        | add selection => exact hagain
        | skip => exact hagain
        | fail => exact hstop
      · refine triple_bind (triple_parseField hschema (by omega)
          (ihAfter (by omega))) fun turn => ?_
        cases turn with
        | add selection => exact hagain
        | skip => exact hagain
        | fail => exact hstop
      · refine triple_bind triple_popObjectType fun _ => triple_bind sound_finishSpan fun _ => ?_
        exact triple_pure fun _ hs => hs.mono (Nat.le_of_lt hm)
      · exact absurd rfl htoken
      · exact triple_bind sound_addDiagnostic fun _ => triple_bind sound_finishSpan fun _ => hstop
    · unfold parseSelectionSet
      refine triple_bind (triple_scanExpected (by decide)) fun brace => ?_
      split
      · next hbrace =>
        refine Triple.conseq (triple_below (Q := fun _ => Running schema k n depth)
          fun m hm => ?_) (fun s hs => hs.2 hbrace) fun _ _ hs => hs
        exact (ihAfter (by omega)).conseq (fun _ hs => hs) fun _ _ hs => hs.mono (Nat.le_of_lt hm)
      · exact triple_pure fun _ hs => hs.1.withDepth (Nat.le_succ _)
    · unfold parseSelectionSetAfterOpenBrace
      exact triple_bind sound_createSpan fun _ => ihSelections (by omega)

/-! ## Operations -/

theorem Running.length_le {s : GraphQlExecutor} (hs : Running schema k n depth s) :
    schema.pool.types.length ≤ s.pool.types.length := by
  refine Nat.le_of_not_lt fun hlt => ?_
  obtain ⟨b, hb⟩ := hs.types (List.getElem?_eq_getElem hlt)
  rw [List.getElem?_eq_none_iff.2 (Nat.le_refl _)] at hb
  exact absurd hb (by simp only [reduceCtorEq, not_false_eq_true])

/-- The type of a variable is a type a value may be read for, from then on. -/
theorem triple_createType {type : TypeNode} (h : IsVariableType type) :
    Triple (Running schema k n depth) (createType type) (fun id s => ∃ k',
      (k ≤ k' ∧ ValueType schema k' id) ∧ Running schema k' n depth s) Stopped := by
  intro s hs
  have hbound := hs.bound
  refine ⟨s.pool.types.length + 1, ⟨by omega, .inr ⟨hs.length_le, Nat.lt_succ_self _⟩⟩,
    { hs with types := ?_, newTypes := ?_, bound := ?_ }⟩
  · intro i t hi
    obtain ⟨b, hb⟩ := hs.types hi
    exact ⟨b, (List.getElem?_append_left (List.getElem?_eq_some_iff.1 hb).1).trans hb⟩
  · intro i t hle hi
    rcases Nat.lt_or_ge i s.pool.types.length with hlt | hge
    · rw [List.getElem?_append_left hlt] at hi
      exact hs.newTypes i t hle hi
    · rw [List.getElem?_append_right hge, List.getElem?_singleton] at hi
      split at hi
      · exact Option.some.inj hi ▸ h
      · exact absurd hi (by simp only [reduceCtorEq, not_false_eq_true])
  · have hlength : (s.pool.types ++ [type]).length = s.pool.types.length + 1 :=
      List.length_append
    exact Nat.le_of_eq hlength.symm

theorem triple_parseType :
    Triple (Running schema k n depth) parseType (fun id s => ∃ k',
      (k ≤ k' ∧ ValueType schema k' id) ∧ Running schema k' n depth s) Stopped := by
  refine triple_bind (sound_scanOptional (by decide)) fun isListType => ?_
  refine triple_bind sound_takeToken fun token => ?_
  refine triple_bind (sound_recordStep rfl) fun _ => ?_
  refine triple_bind (sound_scanOptional (by decide)) fun isNonNull => ?_
  refine triple_bind (Q := fun _ => Running schema k n depth) ?_ fun isNonNullList => ?_
  · unfold parseListTypeEnd
    split
    · exact triple_bind (sound_scanExpected (by decide)) fun _ => sound_scanOptional (by decide)
    · exact sound_pure
  · exact triple_bind sound_createSpan fun _ => triple_createType ⟨token, rfl, rfl⟩

theorem Running.withBound {s : GraphQlExecutor} (hs : Running schema k n depth s) {k' : Nat}
    (hk : k' ≤ k) : Running schema k' n depth s := { hs with bound := Nat.le_trans hk hs.bound }

include hschema in
theorem triple_parseVariableDefinitionsLoop (fuel : Nat) :
    ∀ {k n definitions}, 3 * n + 1 ≤ fuel →
      Triple (Running schema k n depth) (parseVariableDefinitionsLoop fuel definitions)
        (fun _ => Running schema k n depth) Stopped := by
  induction fuel with
  | zero =>
    intro k n definitions h
    omega
  | succ fuel ih =>
    intro k n definitions hfuel
    unfold parseVariableDefinitionsLoop
    refine triple_bind sound_createSpan fun _ => triple_bind triple_takeNextToken fun token => ?_
    split
    · exact triple_bind ((sound_recordStep rfl).conseq (fun _ hs => hs.1) fun _ _ hs => hs)
        fun _ => sound_pure
    next htoken =>
    rw [ne_eq, Decidable.not_not] at htoken
    refine Triple.conseq (triple_below (Q := fun _ => Running schema k n depth) fun m hm => ?_)
      (fun s hs => hs.2 (by rw [htoken]; decide)) fun _ _ hs => hs
    refine triple_bind sound_getTokenValue fun _ => triple_bind sound_createName fun _ => ?_
    refine triple_bind (sound_scanExpected (by decide)) fun _ => ?_
    refine triple_bind triple_parseType fun id => triple_exists fun k' => triple_fact fun hk => ?_
    have hdefault : Triple (Running schema k' m depth) (parseDefaultValue fuel id)
        (fun _ => Running schema k' m depth) Stopped := by
      refine triple_bind (sound_scanOptional (by decide)) fun equal => ?_
      split
      · exact triple_bind sound_recordValueAhead fun _ => triple_parseValue hschema (by omega) hk.2
      · exact sound_pure
    refine triple_bind hdefault fun _ => triple_bind (sound_scanOptional (by decide)) fun comma => ?_
    split
    · exact (ih (by omega)).conseq (fun _ hs => hs)
        fun _ _ hs => (hs.mono (Nat.le_of_lt hm)).withBound hk.1
    · exact triple_pure fun _ hs => (hs.mono (Nat.le_of_lt hm)).withBound hk.1

include hschema in
theorem triple_parseOperationHead {fuel : Nat} (hfuel : 3 * n + 1 ≤ fuel) :
    Triple (Running schema k n depth) (parseOperationHead fuel)
      (fun _ => Running schema k n depth) Stopped := by
  refine triple_bind (sound_scanOptional (by decide)) fun named => ?_
  split
  · refine triple_bind sound_getTokenValue fun _ => triple_bind sound_createName fun _ => ?_
    refine triple_bind (Q := fun _ => Running schema k n depth) ?_ fun _ => sound_pure
    refine triple_bind (sound_scanOptional (by decide)) fun paren => ?_
    split
    · refine triple_bind (Q := fun _ => Running schema k n depth) ?_ fun _ =>
        triple_bind (sound_scanExpected (by decide)) fun _ => sound_pure
      refine triple_bind sound_createSpan fun _ => ?_
      exact triple_bind (triple_parseVariableDefinitionsLoop hschema fuel hfuel) fun _ =>
        triple_bind sound_finishSpan fun _ => sound_pure
    · exact sound_pure
  · exact sound_pure

/-- A definition that was read: a fragment has a type, which the schema has too. -/
def IsTyped (schema : GraphQlSchema) : PrimaryDefinition → Prop
  | .operation _ => True
  | .fragment f => ∃ name, f.type = some name ∧
      (schema.members.symbols.find? name.identifier).isSome = true

/-- What a definition reader keeps. -/
def ReadsDefinition (schema : GraphQlSchema) (k n depth : Nat)
    (definition? : Option PrimaryDefinition) (s : GraphQlExecutor) : Prop :=
  (∀ definition, definition? = some definition → IsTyped schema definition) ∧
    Running schema k n depth s

theorem triple_noDefinition : Triple (Running schema k n depth)
    (pure none : ExecutorM (Option PrimaryDefinition)) (ReadsDefinition schema k n depth) Stopped :=
  triple_pure fun _ hs => ⟨fun _ h => absurd h (by simp only [reduceCtorEq, not_false_eq_true]), hs⟩

theorem triple_operation {d : OperationDefinition} : Triple (Running schema k n depth)
    (pure (some (.operation d)) : ExecutorM _) (ReadsDefinition schema k n depth) Stopped :=
  triple_pure fun _ hs => ⟨fun _ h => Option.some.inj h ▸ trivial, hs⟩

include hschema in
theorem triple_parseOperationDefinition {fuel : Nat} (hfuel : 3 * n + 1 ≤ fuel)
    {operationType : OperationType} :
    Triple (Running schema k n (depth + 1)) (parseOperationDefinition fuel operationType)
      (ReadsDefinition schema k n depth) Stopped := by
  refine triple_bind sound_createSpan fun _ => ?_
  refine triple_bind (triple_parseOperationHead hschema hfuel) fun head => ?_
  refine triple_bind (triple_parseDirectives hschema hfuel) fun _ => ?_
  refine triple_bind ((triple_selectionSets hschema fuel).2.1 hfuel) fun set => ?_
  cases set with
  | none => exact triple_noDefinition
  | some set => exact triple_operation

theorem sound_reportDuplicateFragment {name : Name} {fragment : FragmentDefinition} :
    Sound schema (reportDuplicateFragment name fragment) := by
  intro k n depth
  refine triple_bind (sound_recordStep rfl) fun _ => triple_bind sound_read fun fragments => ?_
  split
  · refine triple_bind sound_addDiagnostic fun _ => triple_bind sound_read fun _ => ?_
    exact sound_when fun _ => sound_reportAt
  · exact triple_step fun s hs => { hs with }

include hschema in
theorem triple_parseFragmentDefinition {fuel : Nat} (hfuel : 3 * n + 1 ≤ fuel) :
    Triple (Running schema k n depth) (parseFragmentDefinitionAfterFragmentKeyword fuel)
      (ReadsDefinition schema k n depth) Stopped := by
  refine triple_bind sound_createSpan fun span => ?_
  refine triple_bind (sound_scanExpected (by decide)) fun named => ?_
  split
  case isFalse => exact triple_noDefinition
  refine triple_bind sound_getTokenValue fun value => triple_bind sound_createName fun name => ?_
  refine triple_bind sound_reportDuplicateFragment fun _ => ?_
  refine triple_bind (sound_scanExpected (by decide)) fun on => ?_
  split
  case isFalse => exact triple_noDefinition
  refine triple_bind (sound_scanExpected (by decide)) fun typed => ?_
  split
  case isFalse => exact triple_noDefinition
  refine triple_bind sound_getTokenValue fun typeValue => ?_
  refine triple_bind triple_readSymbols fun symbols => triple_fact fun hsymbols => ?_
  subst hsymbols
  split
  · exact triple_bind sound_addDiagnostic fun _ => triple_noDefinition
  next symbol hsymbol =>
  refine triple_bind (Q := fun typeName s => typeName.identifier = typeValue ∧
    Running schema k n depth s) ?_ fun typeName => triple_fact fun htypeName => ?_
  · exact triple_bind sound_createSpan fun _ => triple_pure fun _ hs => ⟨rfl, hs⟩
  refine triple_bind (triple_declaration hschema hsymbol fun _ hs => hs.declarations) fun d =>
    triple_fact fun _ => triple_bind (Q := fun _ => Running schema k n depth) ?_ fun _ => ?_
  · unfold checkFragmentType
    split
    · exact sound_pure
    · exact sound_addDiagnostic
  refine triple_bind (triple_pushObjectType ⟨typeValue, symbol, hsymbol, rfl⟩) fun _ => ?_
  refine triple_bind (triple_parseDirectives hschema hfuel) fun _ => ?_
  refine triple_bind ((triple_selectionSets hschema fuel).2.1 hfuel) fun set => ?_
  cases set with
  | none => exact triple_bind sound_skipBlock fun _ => triple_noDefinition
  | some set =>
    refine triple_pure fun _ hs => ⟨fun _ h => Option.some.inj h ▸ ⟨typeName, rfl, ?_⟩, hs⟩
    rw [htypeName, hsymbol, Option.isSome_some]

/-- A root type, as it is read: the declaration of a symbol when it is there. -/
theorem triple_readRoot {root : ExecutorMembers → Option DeclarationId}
    {declared : Option DeclarationId}
    (hroot : ∀ {k n depth s}, Running schema k n depth s → root s.members = declared) :
    Triple (Running schema k n depth) (ParserM.read fun s => root s.members) (fun r s =>
      r = declared ∧ Running schema k n depth s) Stopped :=
  triple_bind (triple_get (Q := fun a s => a = s ∧ Running schema k n depth s)
    fun _ hs => ⟨rfl, hs⟩) fun _ => triple_pure fun _ hs => ⟨hs.1 ▸ hroot hs.2, hs.2⟩

include hschema in
theorem isDeclared_query : IsDeclared schema schema.members.query := by
  obtain ⟨schema?, hroots⟩ := hschema.roots
  obtain ⟨symbol, hsymbol⟩ := Option.isSome_iff_exists.1 hroots.hasQuery
  refine ⟨_, symbol, hsymbol, ?_⟩
  rw [hroots.query, hsymbol, Option.map_some]

theorem isDeclared_of_root {given : Option Name} {default : Ustring}
    {root : Option DeclarationId} (hroot : root =
      (rootSymbol schema.members.symbols given default).map (·.declaration))
    (hsome : ¬ root.isNone = true) : IsDeclared schema root := by
  subst hroot
  obtain ⟨id, hid⟩ := Option.ne_none_iff_exists'.1 (mt Option.isNone_iff_eq_none.2 hsome)
  obtain ⟨symbol, hsymbol, rfl⟩ := Option.map_eq_some_iff.1 hid
  exact ⟨_, symbol, hsymbol, hid⟩

include hschema in
theorem triple_parsePrimaryToken {fuel : Nat} (hfuel : 3 * n + 2 ≤ fuel) {token : GraphQlToken} :
    Triple (Running schema k n depth) (parsePrimaryToken fuel token)
      (ReadsDefinition schema k n depth) Stopped := by
  have hunsupported : ∀ {template}, Triple (Running schema k n depth) (do
      addDiagnostic template []
      skipToNextPrimaryToken
      return none : ExecutorM (Option PrimaryDefinition)) (ReadsDefinition schema k n depth)
        Stopped := fun {_} =>
    triple_bind sound_addDiagnostic fun _ => triple_bind sound_skipToNextPrimaryToken fun _ =>
      triple_noDefinition
  obtain ⟨schema?, hroots⟩ := hschema.roots
  have hquery := isDeclared_query hschema
  unfold parsePrimaryToken
  split
  · refine triple_bind (triple_readRoot Running.query) fun query => triple_fact fun h => ?_
    subst h
    exact triple_bind (triple_pushObjectType hquery) fun _ =>
      triple_parseOperationDefinition hschema (by omega)
  · refine triple_bind (triple_readRoot Running.mutation) fun mutation => triple_fact fun h => ?_
    subst h
    split
    · exact hunsupported
    · next hsome =>
      exact triple_bind (triple_pushObjectType (isDeclared_of_root hroots.mutation hsome)) fun _ =>
        triple_parseOperationDefinition hschema (by omega)
  · refine triple_bind (triple_readRoot Running.subscription) fun subscription =>
      triple_fact fun h => ?_
    subst h
    split
    · exact hunsupported
    · next hsome =>
      exact triple_bind (triple_pushObjectType (isDeclared_of_root hroots.subscription hsome))
        fun _ => triple_parseOperationDefinition hschema (by omega)
  · refine triple_bind (triple_readRoot Running.query) fun query => triple_fact fun h => ?_
    subst h
    refine triple_bind (triple_pushObjectType hquery) fun _ => triple_bind sound_createSpan fun _ => ?_
    refine triple_bind ((triple_selectionSets hschema fuel).2.2 hfuel) fun set => ?_
    cases set with
    | none => exact triple_noDefinition
    | some set => exact triple_operation
  · exact triple_parseFragmentDefinition hschema (by omega)
  · exact triple_bind sound_addDiagnostic fun _ => triple_noDefinition

/-! ## The document -/

/-- The fragments of a document have types. -/
def FragmentsTyped (schema : GraphQlSchema) (document : ExecutableDefinition) : Prop :=
  ∀ f ∈ document.fragmentDefinitions, IsTyped schema (.fragment f)

theorem fragmentsTyped_add {document : ExecutableDefinition} (h : FragmentsTyped schema document)
    {definition : PrimaryDefinition} (hdefinition : IsTyped schema definition) :
    FragmentsTyped schema (addDefinition document definition) := by
  cases definition with
  | operation d => exact h
  | fragment d =>
    intro f hf
    rcases List.mem_append.1 hf with hold | hnew
    · exact h f hold
    · exact List.mem_singleton.1 hnew ▸ hdefinition

include hschema in
theorem triple_parseDefinitions (fuel : Nat) : ∀ {n token document}, 1 ≤ fuel →
    (token ≠ .endOfDocument → 3 * n + 3 ≤ fuel) → FragmentsTyped schema document →
      Triple (Running schema k n depth) (parseDefinitions fuel token document)
        (fun document s => FragmentsTyped schema document ∧ Running schema k n depth s)
        Stopped := by
  induction fuel with
  | zero =>
    intro n token document h
    omega
  | succ fuel ih =>
    intro n token document _ hfuel hdocument
    unfold parseDefinitions
    split
    · exact triple_pure fun _ hs => ⟨hdocument, hs⟩
    next htoken =>
    have hfuel := hfuel htoken
    refine triple_bind (triple_parsePrimaryToken hschema (by omega)) fun definition? =>
      triple_fact fun htyped => ?_
    refine triple_bind triple_takeNextToken fun next => ?_
    have hnext : ∀ {document'}, FragmentsTyped schema document' →
        Triple (fun s => Running schema k n depth s ∧
          (next ≠ .endOfDocument → Below schema k n depth s)) (parseDefinitions fuel next document')
          (fun document s => FragmentsTyped schema document ∧ Running schema k n depth s)
          Stopped := by
      intro document' hdocument'
      by_cases hend : next = .endOfDocument
      · exact (ih (n := n) (by omega) (fun h => absurd hend h) hdocument').conseq
          (fun _ hs => hs.1) fun _ _ hs => hs
      · refine Triple.conseq (triple_below (Q := fun document s =>
          FragmentsTyped schema document ∧ Running schema k n depth s) fun m hm => ?_)
          (fun s hs => hs.2 hend) fun _ _ hs => hs
        exact (ih (n := m) (by omega) (fun _ => by omega) hdocument').conseq (fun _ hs => hs)
          fun _ _ hs => ⟨hs.1, hs.2.mono (Nat.le_of_lt hm)⟩
    cases definition? with
    | none => exact hnext hdocument
    | some definition => exact hnext (fragmentsTyped_add hdocument (htyped definition rfl))

include hschema in
theorem triple_checkForwardFragmentReferences {document : ExecutableDefinition}
    (hdocument : FragmentsTyped schema document) :
    Triple (Running schema k n depth) (checkForwardFragmentReferences document.fragmentDefinitions)
      (fun _ => Running schema k n depth) Stopped := by
  refine triple_bind (Q := fun references s => (∀ reference ∈ references,
    IsDeclared schema reference.2) ∧ Running schema k n depth s) ?_ fun references =>
      triple_fact fun hreferences => triple_forM fun reference hmem => ?_
  · exact triple_bind (triple_get (Q := fun a s => a = s ∧ Running schema k n depth s)
      fun _ hs => ⟨rfl, hs⟩) fun _ => triple_pure fun _ hs => ⟨hs.1 ▸ hs.2.references, hs.2⟩
  obtain ⟨name, current⟩ := reference
  have hcurrent := hreferences _ hmem
  simp only [checkForwardFragmentReference]
  split
  · exact sound_reportAt
  next fragment hfragment =>
  obtain ⟨typeName, htype, hsome⟩ := hdocument fragment (List.mem_of_find?_eq_some hfragment)
  obtain ⟨symbol, hsymbol⟩ := Option.isSome_iff_exists.1 hsome
  refine triple_bind (triple_follow htype) fun typeName' => triple_fact fun h => ?_
  subst h
  refine triple_bind (triple_findSymbol hsymbol fun _ hs => hs.symbols) fun symbol' =>
    triple_fact fun h => ?_
  subst h
  refine triple_bind (triple_declaration hschema hsymbol fun _ hs => hs.declarations) fun object =>
    triple_fact fun hobject => ?_
  obtain ⟨-, -, hname⟩ := hobject
  obtain ⟨objectName, hobjectName, -⟩ := Option.map_eq_some_iff.1 hname
  obtain ⟨parentName, parentSymbol, hparentSymbol, rfl⟩ := hcurrent
  refine triple_bind (triple_follow rfl) fun id => triple_fact fun hid => ?_
  subst hid
  refine triple_bind (triple_declaration hschema hparentSymbol fun _ hs => hs.declarations)
    fun parent => triple_fact fun hparent => ?_
  obtain ⟨n', hn', -⟩ := Option.map_eq_some_iff.1 hparent.2.2
  exact sound_checkFragmentAssignment ⟨objectName, hobjectName⟩ ⟨n', hn'⟩

/-- An executor that starts on a query. -/
theorem running_addSchema (query : Ustring) :
    Running schema 0 query.length 0 (addSchema schema query) where
  declarations := rfl
  query := rfl
  mutation := rfl
  subscription := rfl
  symbols := rfl
  directiveDefinitions := rfl
  types {_ t} h := ⟨t.isListType, h⟩
  newTypes := VariablesFrom.length _
  bound := Nat.zero_le _
  left := Nat.sub_le _ _
  depth := Nat.zero_le _
  entries _ h := absurd h List.not_mem_nil
  references _ h := absurd h List.not_mem_nil
  safe _ h := absurd h List.not_mem_nil

include hschema in
theorem triple_execute (query : Ustring) :
    Triple (Running schema 0 query.length 0) (execute query)
      (fun _ => Running schema 0 query.length 0) Stopped := by
  refine triple_bind sound_takeToken fun token => triple_bind sound_createSpan fun span => ?_
  refine triple_bind (triple_parseDefinitions hschema _ (by simp [fuelFor])
    (fun _ => by simp only [fuelFor]; omega) fun f hf => absurd hf List.not_mem_nil) fun document =>
      triple_fact fun hdocument => ?_
  refine triple_bind (triple_checkForwardFragmentReferences hschema hdocument) fun _ => ?_
  exact triple_bind sound_read fun _ => sound_pure

end Documents

/-- Against an accepted schema, a validation run never runs out of its bound, and it reads something
absent exactly when one of its steps is not safe. -/
theorem absentRead_iff_not_safe {source : Ustring} {schema : GraphQlSchema}
    (h : GraphQlSchema.Accepts source schema) (query : Ustring) :
    (run schema query).stop? ≠ some .outOfFuel ∧
      ((run schema query).stop? ≠ some .absentRead ↔
        ∀ step ∈ (run schema query).state.steps, step.isSafe = true) := by
  have hrun := triple_execute (constructed_of_accepts h) query _ (running_addSchema query)
  rw [run]
  cases hm : (execute query).run (addSchema schema query) with
  | ok document executor =>
    simp only [hm] at hrun
    simpa [Outcome.stop?] using hrun.safe
  | stop e executor =>
    simp only [hm] at hrun
    cases e with
    | absentRead =>
      obtain ⟨step, hstep, hnot⟩ := hrun
      simp only [Outcome.stop?, Outcome.state_stop]
      refine ⟨by simp, iff_of_false (by simp) fun hall => ?_⟩
      exact absurd (hall step hstep) (by simp [hnot])
    | exception => exact ⟨by simp [Outcome.stop?], iff_of_true (by simp [Outcome.stop?]) hrun⟩
    | outOfFuel => exact absurd hrun id

/-- A query with an enumeration value, a list, a fragment and a variable. -/
theorem no_absentRead_of_enum_value : ∃ schema,
    GraphQlSchema.Accepts "enum E{A} type Query{f(e:[E]):Query}".toList schema ∧
      (run schema "query q(v:Int=1){f(e:[A]){...on Query{f}}}".toList).stop? ≠
        some .absentRead := by
  have haccepts : GraphQlSchema.Accepts "enum E{A} type Query{f(e:[E]):Query}".toList _ :=
    GraphQlSchema.accepts_of_run (by decide +kernel) (by decide +kernel)
  exact ⟨_, haccepts, (absentRead_iff_not_safe haccepts _).2.2 (by decide +kernel)⟩

/-- A name for an argument of a scalar type, and a field selected on a union. -/
theorem absentRead_of_accepts :
    (∃ schema, GraphQlSchema.Accepts "type Query{f(a:Int):Int}".toList schema ∧
      (run schema "{f(a:x)}".toList).stop? = some .absentRead) ∧
    ∃ schema, GraphQlSchema.Accepts "type A{a:Int} union U=A type Query{u:U}".toList schema ∧
      (run schema "{u{a}}".toList).stop? = some .absentRead := by
  have hscalar : GraphQlSchema.Accepts "type Query{f(a:Int):Int}".toList _ :=
    GraphQlSchema.accepts_of_run (by decide +kernel) (by decide +kernel)
  have hunion : GraphQlSchema.Accepts "type A{a:Int} union U=A type Query{u:U}".toList _ :=
    GraphQlSchema.accepts_of_run (by decide +kernel) (by decide +kernel)
  exact ⟨⟨_, hscalar, by decide +kernel⟩, _, hunion, by decide +kernel⟩

end GraphQlExecutor

end Flashpoint
