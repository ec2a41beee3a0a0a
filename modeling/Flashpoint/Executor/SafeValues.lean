import Flashpoint.Executor.Running

/-!
# Values and arguments in a run

The readers of values, arguments and directives keep the invariant `Running`. Each of them takes a
character before it goes one step down, so the bound is never used up.
-/

namespace Flashpoint

open Library Climb

namespace GraphQlExecutor

open ParserM GraphQlSchema

variable {schema : GraphQlSchema} {k n depth : Nat} {α β : Type}

/-! ## Values -/

section Values

variable (hschema : Constructed schema) {t : TypeNode} (ht : InputCase schema.members.symbols t)

theorem InputCase.not_named (h : t.isNamed = false) : t.name = none ∧ t.type = .object := by
  simpa only [TypeNode.isNamed, Bool.or_eq_false_iff, Option.isSome_eq_false_iff,
    Option.isNone_iff_eq_none, decide_eq_false_iff_not, ne_eq, Decidable.not_not] using h

/-- The text of a type: a scalar has one, and so has a type with a name. -/
theorem sound_getTypeName (hscalar : t.name = none → t.type.isScalar = true)
    (hnamed : t.name.isSome = true → t.type = .object ∨ t.type = .enum) :
    Sound schema (getTypeName t) := by
  intro k n depth
  refine triple_bind (Q := fun _ => Running schema k n depth) ?_ fun _ => sound_pure
  unfold typeNameText
  rcases Option.eq_none_or_eq_some t.name with hname | ⟨name, hname⟩
  · have htype := hscalar hname
    split
    case h_6 heq => exact absurd htype (by rw [heq]; decide)
    case h_7 heq => exact absurd htype (by rw [heq]; decide)
    case h_8 heq => exact absurd htype (by rw [heq]; decide)
    case h_9 heq => exact absurd htype (by rw [heq]; decide)
    case h_10 heq => exact absurd htype (by rw [heq]; decide)
    all_goals exact sound_pure
  · rcases hnamed (by rw [hname, Option.isSome_some]) with htype | htype
    · rw [htype]
      exact triple_bind (sound_follow hname) fun _ => sound_pure
    · rw [htype]
      exact triple_bind (sound_follow hname) fun _ => sound_pure

include ht in
theorem InputCase.sound_getTypeName (h : t.isNamed = true) : Sound schema (getTypeName t) := by
  cases ht with
  | scalar hname htype =>
    exact GraphQlExecutor.sound_getTypeName (fun _ => htype) fun hsome => by simp [hname] at hsome
  | nameless hname htype => exact absurd h (by simp [TypeNode.isNamed, hname, htype])
  | enum hname hsymbol hkind htype =>
    exact GraphQlExecutor.sound_getTypeName (fun hnone => by simp [hname] at hnone)
      fun _ => .inr htype
  | input hname hsymbol hkind htype =>
    exact GraphQlExecutor.sound_getTypeName (fun hnone => by simp [hname] at hnone)
      fun _ => .inl htype

include ht in
theorem sound_reportMismatch (h : t.isNamed = true) {literalType : Ustring} :
    Sound schema (reportMismatch literalType t) :=
  sound_bind (ht.sound_getTypeName h) fun _ => sound_addDiagnostic

include ht in
theorem sound_reportValueMismatch (h : t.isNamed = true) {value : Ustring} :
    Sound schema (reportValueMismatch value t) :=
  sound_bind (ht.sound_getTypeName h) fun _ => sound_addDiagnostic

/-- A literal of a scalar type: the report when it does not fit, and the node. -/
theorem sound_literal {c : Prop} [Decidable c] {report : ExecutorM Unit} (h : c → Sound schema report)
    {value : Span → Ustring → Value} : Sound schema (do
      when c report
      let span ← createSpan
      let text ← getTokenValue
      return some (value span text) : ExecutorM (Option Value)) :=
  sound_bind (sound_when h) fun _ => sound_bind sound_createSpan fun _ =>
    sound_bind sound_getTokenValue fun _ => sound_pure

include hschema in
/-- The declaration of a symbol, with its kind. -/
theorem triple_declaration {name : Ustring} {symbol : Symbol}
    (hsymbol : schema.members.symbols.find? name = some symbol) {P : GraphQlExecutor → Prop}
    (hP : ∀ s, P s → s.pool.declarations = schema.pool.declarations) :
    Triple P (declaration symbol.declaration) (fun d s => (d.kind = symbol.kind ∧
      d.Complete schema.pool.types ∧ d.name.map (·.identifier) = some name) ∧ P s) Stopped := by
  obtain ⟨d, hd, hfacts⟩ := hschema.complete hsymbol
  exact triple_deref fun s hs => ⟨d, (congrArg (·[symbol.declaration]?) (hP s hs)).trans hd,
    hfacts, hs⟩

theorem triple_findSymbol {name : Ustring} {symbol : Symbol}
    (hsymbol : schema.members.symbols.find? name = some symbol) {P : GraphQlExecutor → Prop}
    (hP : ∀ s, P s → s.members.symbols = schema.members.symbols) :
    Triple P (findSymbol name) (fun a s => a = symbol ∧ P s) Stopped :=
  triple_deref fun s hs => ⟨symbol, (congrArg (·.find? name) (hP s hs)).trans hsymbol, rfl, hs⟩

include hschema ht in
theorem sound_parseEnumValue (h : t.type = .enum) : Sound schema (parseEnumValue t) := by
  cases ht with
  | scalar hname htype => exact absurd htype (by rw [h]; decide)
  | nameless hname htype => exact absurd (h.symm.trans htype) (by decide)
  | input hname hsymbol hkind htype => exact absurd (h.symm.trans htype) (by decide)
  | enum hname hsymbol hkind htype =>
    have hnamed : t.isNamed = true := by simp [TypeNode.isNamed, hname]
    intro k n depth
    refine triple_bind sound_getTokenValue fun value => ?_
    refine triple_bind (sound_when fun _ => sound_reportValueMismatch
      (.enum hname hsymbol hkind htype) hnamed) fun _ => ?_
    refine triple_bind (triple_follow hname) fun name => triple_fact fun hname' => ?_
    subst hname'
    refine triple_bind (triple_findSymbol hsymbol fun _ hs => hs.symbols) fun symbol =>
      triple_fact fun hsymbol' => ?_
    subst hsymbol'
    refine triple_bind (triple_declaration hschema hsymbol fun _ hs => hs.declarations) fun d =>
      triple_fact fun hd => ?_
    cases d with
    | enum e =>
      exact triple_bind (sound_when fun _ => sound_addDiagnostic) fun _ =>
        triple_bind sound_createSpan fun _ => sound_pure
    | object o => exact absurd (hd.1.trans hkind) (by simp [Declaration.kind])
    | interface i => exact absurd (hd.1.trans hkind) (by simp [Declaration.kind])
    | inputObject o => exact absurd (hd.1.trans hkind) (by simp [Declaration.kind])
    | union u => exact absurd (hd.1.trans hkind) (by simp [Declaration.kind])

include hschema ht in
/-- A name for a type that is no enumeration: there is no enumeration to look it up in. -/
theorem failing_parseEnumValue (h : t.type ≠ .enum) : Failing schema (parseEnumValue t) := by
  have hreport : ∀ {value}, t.isNamed = true →
      Passing schema (when (t.type ≠ .enum ∨ t.isListType) (reportValueMismatch value t)) := by
    intro value hnamed
    refine triple_when (fun _ => triple_bind ?_ fun _ => passing_addDiagnostic) fun _ _ hs => hs
    refine triple_bind (Q := fun _ => Doomed schema) ?_ fun _ => triple_pure fun _ hs => hs
    unfold typeNameText
    cases ht with
    | scalar hname htype =>
      split
      case h_8 heq => exact absurd htype (by rw [heq]; decide)
      case h_9 heq => exact absurd htype (by rw [heq]; decide)
      case h_10 heq => exact absurd htype (by rw [heq]; decide)
      all_goals first
        | exact triple_pure fun _ hs => hs
        | exact triple_bind triple_doomed_deref fun _ => triple_pure fun _ hs => hs.2
    | nameless hname htype => exact absurd hnamed (by simp [TypeNode.isNamed, hname, htype])
    | enum hname hsymbol hkind htype => exact absurd htype h
    | input hname hsymbol hkind htype =>
      rw [htype]
      exact triple_bind triple_doomed_deref fun _ => triple_pure fun _ hs => hs.2
  refine Passing.bind passing_read fun value => ?_
  cases hnamed : t.isNamed with
  | false => exact (failing_when (.inl h) (failing_reportValueMismatch hnamed)).bind
  | true =>
    refine Passing.bind (hreport hnamed) fun _ => ?_
    cases ht with
    | scalar hname htype => exact (failing_follow hname).bind
    | nameless hname htype => exact (failing_follow hname).bind
    | enum hname hsymbol hkind htype => exact absurd htype h
    | input hname hsymbol hkind htype =>
      refine triple_bind (triple_follow hname) fun name => triple_fact fun hname' => ?_
      subst hname'
      refine triple_bind (triple_findSymbol hsymbol fun _ hs => hs.symbols) fun symbol =>
        triple_fact fun hsymbol' => ?_
      subst hsymbol'
      refine triple_bind (triple_declaration hschema hsymbol fun _ hs => hs.declarations) fun d =>
        triple_fact fun hd => ?_
      split
      · exact absurd (hd.1.trans hkind) (by simp [Declaration.kind])
      · exact failing_absent

include hschema ht in
theorem sound_parseScalarValue {token : GraphQlToken} (h : Step.valueIsSafe token t = true) :
    Sound schema (parseScalarValue t token) := by
  unfold parseScalarValue
  split
  · refine sound_bind (sound_when fun hnonNull => sound_reportValueMismatch ht ?_) fun _ =>
      sound_bind sound_createSpan fun _ => sound_pure
    simp only [Step.valueIsSafe, Bool.or_eq_true, Bool.not_eq_true', Bool.or_eq_false_iff] at h
    rcases h with h | ⟨h₁, h₂⟩
    · exact h
    · simp [h₁, h₂] at hnonNull
  · exact sound_literal fun _ => sound_reportMismatch ht h
  · exact sound_literal fun _ => sound_reportMismatch ht h
  · exact sound_literal fun _ => sound_reportMismatch ht h
  · exact sound_bind (sound_when fun _ => sound_reportMismatch ht h) fun _ =>
      sound_bind sound_createSpan fun _ => sound_pure
  · exact sound_bind (sound_when fun _ => sound_reportMismatch ht h) fun _ =>
      sound_bind sound_createSpan fun _ => sound_pure
  · exact sound_parseEnumValue hschema ht (of_decide_eq_true h)
  · exact sound_bind sound_getTokenValue fun _ => sound_bind sound_addDiagnostic fun _ =>
      sound_bind sound_skipTo fun _ => sound_pure

include hschema ht in
theorem failing_parseScalarValue {token : GraphQlToken} (h : Step.valueIsSafe token t = false)
    (hbracket : token ≠ .openBracket) (hbrace : token ≠ .openBrace) :
    Failing schema (parseScalarValue t token) := by
  unfold parseScalarValue
  split
  · simp only [Step.valueIsSafe, Bool.or_eq_false_iff, Bool.not_eq_false', Bool.or_eq_true] at h
    exact (failing_when h.2 (failing_reportValueMismatch h.1)).bind
  · refine (failing_when (.inl ?_) (failing_reportMismatch h)).bind
    rw [(InputCase.not_named h).2]
    rfl
  · refine (failing_when (.inl ?_) (failing_reportMismatch h)).bind
    rw [(InputCase.not_named h).2]
    rfl
  · refine (failing_when (.inl ?_) (failing_reportMismatch h)).bind
    rw [(InputCase.not_named h).2]
    decide
  · refine (failing_when (.inl ?_) (failing_reportMismatch h)).bind
    rw [(InputCase.not_named h).2]
    decide
  · refine (failing_when (.inl ?_) (failing_reportMismatch h)).bind
    rw [(InputCase.not_named h).2]
    decide
  · exact failing_parseEnumValue hschema ht (of_decide_eq_false h)
  · exact absurd h (by cases token <;> simp_all [Step.valueIsSafe])

end Values

/-! ### Literals with parts -/

section Literals

variable (hschema : Constructed schema) {t : TypeNode} (ht : InputCase schema.members.symbols t)

/-- An input object whose fields were read. -/
def IsInputObject (schema : GraphQlSchema) (inputObject : InputObject) : Prop :=
  ∃ fields, inputObject.fields = some fields ∧ InputFieldsWellFormed schema.pool.types fields

theorem sound_forM {γ : Type} {xs : List γ} {f : γ → ExecutorM Unit}
    (hf : ∀ x ∈ xs, Sound schema (f x)) : Sound schema (xs.forM f) :=
  triple_forM fun x hx => hf x hx

theorem sound_addDuplicateField {name : Ustring} : Sound schema (addDuplicateField name) :=
  sound_bind (triple_step fun _ hs => { hs with }) fun _ => sound_recordStep rfl

theorem sound_reportDuplicateFields {fields : List ObjectField} :
    Sound schema (reportDuplicateFields fields) :=
  sound_bind (sound_recordStep rfl) fun _ => sound_bind sound_read fun _ =>
    sound_forM fun _ _ => sound_forM fun _ _ => sound_when fun _ => sound_reportAt

theorem sound_reportMissingFields {requiredFields : List Ustring} {span : Span}
    {fields : List ObjectField} : Sound schema (reportMissingFields requiredFields span fields) :=
  sound_forM fun _ _ => sound_when fun _ => sound_reportAt

include ht in
theorem sound_skipObjectValue (h : t.isNamed = true) : Sound schema (skipObjectValue t) :=
  sound_bind sound_read fun _ => sound_bind sound_read fun _ => sound_bind sound_skipBlock fun _ =>
    sound_bind sound_read fun _ => sound_bind (ht.sound_getTypeName h) fun _ =>
      sound_bind sound_addDiagnosticAt fun _ => sound_pure

theorem failing_skipObjectValue (h : t.isNamed = false) : Failing schema (skipObjectValue t) :=
  Passing.bind passing_read fun _ => Passing.bind passing_read fun _ =>
    Passing.bind (passing_step (fun _ => rfl) (fun _ => rfl) fun _ => rfl) fun _ =>
      Passing.bind passing_read fun _ => (failing_getTypeName h).bind

theorem failing_parseObjectLiteral (h : t.isNamed = false)
    {fields : InputObject → Ustring → ExecutorM (Option (List ObjectField))} :
    Failing schema (parseObjectLiteral t fields) :=
  Passing.bind passing_read fun _ => (failing_follow (InputCase.not_named h).1).bind

theorem failing_parseListLiteral (h : t.isNamed = false) (hlist : t.isListType = false)
    {id : TypeId} {elements : ExecutorM (List Value)} :
    Failing schema (parseListLiteral id t elements) :=
  (failing_when hlist (failing_reportValueMismatch h)).bind

theorem sound_expectCloseBracket : Sound schema expectCloseBracket :=
  sound_bind sound_read fun _ => sound_when fun _ =>
    sound_bind sound_getTokenValue fun _ => sound_addDiagnostic

include ht in
theorem triple_parseListLiteral (h : Step.valueIsSafe .openBracket t = true) {id : TypeId}
    {elements : ExecutorM (List Value)}
    (helements : Triple (Running schema k n depth) elements
      (fun _ => Running schema k n depth) Stopped) :
    Triple (Running schema k n depth) (parseListLiteral id t elements)
      (fun _ => Running schema k n depth) Stopped := by
  refine triple_bind (sound_when fun hlist => sound_reportValueMismatch ht ?_) fun _ => ?_
  · simpa [Step.valueIsSafe, hlist] using h
  refine triple_bind sound_createSpan fun _ => triple_bind sound_setListType fun _ => ?_
  refine triple_bind helements fun values => triple_bind sound_expectCloseBracket fun _ => ?_
  exact triple_bind sound_setListType fun _ => triple_bind sound_finishSpan fun _ => sound_pure

include hschema ht in
theorem triple_parseObjectLiteral (h : t.isNamed = true) (htype : t.type = .object)
    {fields : InputObject → Ustring → ExecutorM (Option (List ObjectField))}
    (hfields : ∀ inputObject name, IsInputObject schema inputObject →
      Triple (Running schema k n depth) (fields inputObject name)
        (fun _ => Running schema k n depth) Stopped) :
    Triple (Running schema k n depth) (parseObjectLiteral t fields)
      (fun _ => Running schema k n depth) Stopped := by
  cases ht with
  | scalar hname hscalar => exact absurd hscalar (by rw [htype]; decide)
  | nameless hname _ => exact absurd h (by simp [TypeNode.isNamed, hname, htype])
  | enum hname hsymbol hkind henum => exact absurd (htype.symm.trans henum) (by decide)
  | input hname hsymbol hkind _ =>
    refine triple_bind sound_createSpan fun _ => ?_
    refine triple_bind (triple_follow hname) fun name => triple_fact fun hname' => ?_
    subst hname'
    refine triple_bind (triple_findSymbol hsymbol fun _ hs => hs.symbols) fun symbol =>
      triple_fact fun hsymbol' => ?_
    subst hsymbol'
    simp only [hkind, ne_eq, not_true_eq_false, if_false]
    refine triple_bind (triple_declaration hschema hsymbol fun _ hs => hs.declarations) fun d =>
      triple_fact fun hd => ?_
    obtain ⟨hdkind, hcomplete, -⟩ := hd
    rw [hkind] at hdkind
    cases d with
    | inputObject o =>
      obtain ⟨fields', hfields', -, hwf⟩ := hcomplete
      refine triple_bind (hfields o _ ⟨fields', hfields', hwf⟩) fun read => ?_
      cases read with
      | none => exact sound_pure
      | some read =>
        exact triple_bind sound_finishSpan fun _ => triple_bind sound_reportDuplicateFields fun _ =>
          triple_bind sound_reportMissingFields fun _ => sound_pure
    | object o => exact absurd hdkind (by simp [Declaration.kind])
    | interface i => exact absurd hdkind (by simp [Declaration.kind])
    | enum e => exact absurd hdkind (by simp [Declaration.kind])
    | union u => exact absurd hdkind (by simp [Declaration.kind])

end Literals

/-- What a value reader keeps: a value that is there has taken a character. -/
def ReadsValue (schema : GraphQlSchema) (k n depth : Nat)
    (value : Option Value) (s : GraphQlExecutor) : Prop :=
  Running schema k n depth s ∧ (value.isSome = true → Below schema k n depth s)

section ValueReaders

variable (hschema : Constructed schema)
include hschema

theorem triple_parseValueAfterToken {id : TypeId} {t : TypeNode}
    (ht : InputCase schema.members.symbols t) {token : GraphQlToken}
    (h : Step.valueIsSafe token t = true) {elements : ExecutorM (List Value)}
    (helements : Triple (Running schema k n depth) elements (fun _ => Running schema k n depth)
      Stopped)
    {fields : InputObject → Ustring → ExecutorM (Option (List ObjectField))}
    (hfields : ∀ inputObject name, IsInputObject schema inputObject →
      Triple (Running schema k n depth) (fields inputObject name)
        (fun _ => Running schema k n depth) Stopped) :
    Triple (Running schema k n depth) (parseValueAfterToken id t token elements fields)
      (fun _ => Running schema k n depth) Stopped := by
  revert h
  unfold parseValueAfterToken
  split <;> intro h
  · exact triple_parseListLiteral ht h helements
  · exact sound_pure
  · split
    · exact sound_skipObjectValue ht h
    · next hobject =>
      push Not at hobject
      exact triple_parseObjectLiteral hschema ht h hobject.1 hfields
  · exact sound_parseScalarValue hschema ht h

theorem failing_parseValueAfterToken {id : TypeId} {t : TypeNode}
    (ht : InputCase schema.members.symbols t) {token : GraphQlToken}
    (h : Step.valueIsSafe token t = false) {elements : ExecutorM (List Value)}
    {fields : InputObject → Ustring → ExecutorM (Option (List ObjectField))} :
    Failing schema (parseValueAfterToken id t token elements fields) := by
  revert h
  unfold parseValueAfterToken
  split <;> intro h
  · simp only [Step.valueIsSafe, Bool.or_eq_false_iff] at h
    exact failing_parseListLiteral h.1 h.2
  · exact absurd h (by simp [Step.valueIsSafe])
  · split
    · exact failing_skipObjectValue h
    · exact failing_parseObjectLiteral h
  · next hbracket _ hbrace => exact failing_parseScalarValue hschema ht h hbracket hbrace

/-- The values, by induction on the bound: a step down takes a character. -/
theorem triple_parseValues (fuel : Nat) :
    (∀ {n id}, 3 * n + 1 ≤ fuel → ValueType schema k id →
      Triple (Running schema k n depth) (parseValue fuel id) (ReadsValue schema k n depth)
        Stopped) ∧
    (∀ {n id}, 3 * n + 2 ≤ fuel → ValueType schema k id →
      Triple (Running schema k n depth) (parseListValues fuel id)
        (fun _ => Running schema k n depth) Stopped) ∧
    ∀ {n inputObject name parsed}, 3 * n + 1 ≤ fuel → IsInputObject schema inputObject →
      Triple (Running schema k n depth) (parseObjectFields fuel inputObject name parsed)
        (fun _ => Running schema k n depth) Stopped := by
  induction fuel with
  | zero =>
    refine ⟨fun h => ?_, fun h => ?_, fun h => ?_⟩ <;> omega
  | succ fuel ih =>
    obtain ⟨ihValue, ihList, ihFields⟩ := ih
    refine ⟨fun {n id} hfuel hid => ?_, fun {n id} hfuel hid => ?_,
      fun {n inputObject name parsed} hfuel hinput => ?_⟩
    · unfold parseValue
      refine triple_bind triple_takeNextToken fun token => ?_
      refine triple_bind (Q := fun _ s => Running schema k n depth s ∧
        (token ≠ .endOfDocument → Below schema k n depth s)) ?_ fun _ => ?_
      · refine triple_step fun s hs => ⟨hs.1.of_undisturbed ⟨.rfl, rfl, rfl, rfl⟩, fun htoken => ?_⟩
        obtain ⟨m, hm, hs⟩ := hs.2 htoken
        exact ⟨m, hm, hs.of_undisturbed ⟨.rfl, rfl, rfl, rfl⟩⟩
      refine triple_bind (triple_typeNode hschema hid fun _ hs => hs.1) fun t =>
        triple_fact fun ht => ?_
      by_cases htoken : token = .endOfDocument
      · -- no literal starts here, so the scalar reader reports and gives none
        subst htoken
        refine triple_recordStep (fun _ hs => hs.1) (fun _ => ?_) fun hnot =>
          absurd hnot (by simp [Step.isSafe, Step.valueIsSafe])
        refine triple_bind sound_getTokenValue fun _ => triple_bind sound_addDiagnostic fun _ => ?_
        refine triple_bind sound_skipTo fun _ => triple_pure fun s hs => ⟨hs, fun hsome => ?_⟩
        exact absurd hsome Bool.false_ne_true
      · refine Triple.conseq (triple_below fun m hm => ?_) (fun s hs => hs.2 htoken)
          fun value s hs => ⟨Below.running hs, fun _ => hs⟩
        refine triple_recordStep (fun _ hs => hs) (fun hsafe => ?_) fun hnot =>
          failing_parseValueAfterToken hschema ht hnot
        have hlist := ihList (n := m) (by omega) hid
        have hfields : ∀ inputObject name, IsInputObject schema inputObject →
            Triple (Running schema k m depth) (parseObjectFields fuel inputObject name [])
              (fun _ => Running schema k m depth) Stopped :=
          fun _ _ hinput => ihFields (by omega) hinput
        exact (triple_parseValueAfterToken hschema ht hsafe hlist hfields).conseq
          (fun _ hs => hs) fun _ s hs => ⟨m, hm, hs⟩
    · unfold parseListValues
      refine triple_bind (ihValue (by omega) hid) fun value => ?_
      cases value with
      | none => exact triple_pure fun _ hs => hs.1
      | some value =>
        refine Triple.conseq (triple_below fun m hm => ?_) (fun s hs => hs.2 rfl)
          fun _ _ hs => Running.mono hs (Nat.le_refl _)
        refine triple_bind (ihList (by omega) hid) fun _ => triple_pure fun s hs => ?_
        exact hs.mono (Nat.le_of_lt hm)
    · unfold parseObjectFields
      refine triple_bind triple_takeNextToken fun token => ?_
      split
      · exact triple_pure fun _ hs => hs.1
      next hend =>
      push Not at hend
      refine Triple.conseq (triple_below (Q := fun _ => Running schema k n depth) fun m hm => ?_)
        (fun s hs => hs.2 hend.2) fun _ _ hs => hs
      have hagain : ∀ {parsed}, Triple (Running schema k m depth)
          (parseObjectFields fuel inputObject name parsed) (fun _ => Running schema k n depth)
            Stopped := (ihFields (by omega) hinput).conseq (fun _ hs => hs)
              fun _ _ hs => hs.mono (Nat.le_of_lt hm)
      have hend' : ∀ {r : Option (List ObjectField)}, Triple (Running schema k m depth)
          (pure r : ExecutorM _) (fun _ => Running schema k n depth) Stopped :=
        triple_pure fun _ hs => hs.mono (Nat.le_of_lt hm)
      split
      · refine triple_bind sound_addDiagnostic fun _ => triple_bind sound_skipTo fun t => ?_
        split
        · exact hagain
        · exact hend'
      obtain ⟨fields, hfields, hwf⟩ := hinput
      refine triple_bind sound_getTokenValue fun value => ?_
      refine triple_bind (triple_follow hfields) fun fields' => triple_fact fun hfields' => ?_
      subst hfields'
      split
      · exact triple_bind sound_addDiagnostic fun _ => triple_bind sound_skipTo fun _ => hagain
      next definition hdefinition =>
      refine triple_bind (sound_when fun _ => sound_addDuplicateField) fun _ => ?_
      refine triple_bind sound_createSpan fun _ => triple_bind sound_createName fun _ => ?_
      refine triple_bind (sound_scanExpected (by decide)) fun colon => ?_
      split
      · refine triple_bind (sound_recordValueAhead (n := m)) fun _ => ?_
        refine triple_bind (ihValue (by omega) (.inl (hwf _ _ hdefinition).2)) fun _ => ?_
        refine triple_bind (hagain.conseq (fun _ hs => hs.1) fun _ _ hs => hs) fun _ => ?_
        exact triple_pure fun _ hs => hs
      · exact hend'

theorem triple_parseValue {fuel : Nat} {id : TypeId} (hfuel : 3 * n + 1 ≤ fuel)
    (hid : ValueType schema k id) :
    Triple (Running schema k n depth) (parseValue fuel id) (fun _ => Running schema k n depth)
      Stopped :=
  ((triple_parseValues hschema fuel).1 hfuel hid).conseq (fun _ hs => hs) fun _ _ hs => hs.1

end ValueReaders

/-! ## Arguments and directives -/

section Arguments

variable (hschema : Constructed schema)
include hschema

theorem sound_finishArguments {definitions : UstringMap InputValueDefinition}
    (hdefinitions : ArgumentsWellFormed schema.pool.types definitions)
    {arguments : UstringMap Argument} {target : Span} :
    Sound schema (finishArguments definitions arguments target) := by
  refine sound_bind sound_finishSpan fun target => sound_bind sound_recordArguments fun _ => ?_
  refine sound_bind (sound_forM fun definition hmem => ?_) fun _ => sound_pure
  obtain ⟨-, id, hid, ht⟩ := hdefinitions _ _ (SortedMap.mem_entries_iff.1 hmem)
  intro k n depth
  refine triple_bind (triple_follow hid) fun id' => triple_fact fun hid' => ?_
  subst hid'
  refine triple_bind (triple_typeNode hschema (.inl ht) fun _ hs => hs) fun t =>
    triple_fact fun _ => ?_
  exact sound_when fun _ => sound_when fun _ => sound_reportAt

theorem triple_parseArgumentValue {fuel : Nat} (hfuel : 3 * n + 1 ≤ fuel)
    {definition : Option InputValueDefinition}
    (hdefinition : ∀ d, definition = some d → ∃ id, d.type = some id ∧
      IsTypeAt schema.pool.types true id) :
    Triple (Running schema k n depth) (parseArgumentValue fuel definition)
      (fun _ => Running schema k n depth) Stopped := by
  cases definition with
  | none => exact triple_bind sound_skipTo fun _ => sound_pure
  | some definition =>
    obtain ⟨id, hid, ht⟩ := hdefinition definition rfl
    refine triple_bind (triple_follow hid) fun id' => triple_fact fun hid' => ?_
    subst hid'
    exact triple_bind sound_recordValueAhead fun _ => triple_parseValue hschema hfuel (.inl ht)

omit hschema in
theorem sound_checkDirectiveLocation {definition : DirectiveDefinition}
    {location : DirectiveLocation} {span : Span} {name : Ustring} :
    Sound schema (checkDirectiveLocation definition location span name) :=
  sound_when fun _ => sound_bind sound_getLocationFromSyntax fun _ =>
    sound_bind sound_exception fun _ => sound_addDiagnosticAt

omit hschema in
theorem sound_addDirective {directive : Directive} {directives : UstringMap Directive} :
    Sound schema (addDirective directive directives) := by
  refine sound_bind (sound_step fun _ => ⟨.rfl, rfl, rfl, rfl⟩) fun _ => ?_
  split
  · exact sound_pure
  · exact sound_bind (sound_recordStep rfl) fun _ => sound_bind sound_addDiagnostic fun _ =>
      sound_pure

theorem triple_parseArgument {fuel : Nat} (hfuel : 3 * n + 1 ≤ fuel)
    {definitions : UstringMap InputValueDefinition}
    (hdefinitions : ArgumentsWellFormed schema.pool.types definitions)
    {directives : ExecutorM (UstringMap Directive)}
    (hdirectives : Triple (Running schema k n depth) directives
      (fun _ => Running schema k n depth) Stopped) :
    Triple (Running schema k n depth) (parseArgument fuel definitions directives)
      (fun _ => Running schema k n depth) Stopped := by
  refine triple_bind sound_getTokenValue fun value => triple_bind sound_createName fun name => ?_
  refine triple_bind sound_createSpan fun span => ?_
  refine triple_bind (sound_when fun _ => sound_addDiagnostic) fun _ => ?_
  refine triple_bind (sound_scanExpected (by decide)) fun colon => ?_
  split
  · refine triple_bind (triple_parseArgumentValue hschema hfuel fun d hd =>
      (hdefinitions _ d hd).2) fun _ => ?_
    exact triple_bind hdirectives fun _ => sound_pure
  · exact triple_bind sound_skipTo fun _ => sound_pure

theorem triple_parseDirective {location : DirectiveLocation}
    {arguments : UstringMap InputValueDefinition → ExecutorM (Option (UstringMap Argument))}
    (harguments : ∀ definitions, ArgumentsWellFormed schema.pool.types definitions →
      Triple (Running schema k n depth) (arguments definitions)
        (fun _ => Running schema k n depth) Stopped) :
    Triple (Running schema k n depth) (parseDirective location arguments)
      (fun _ => Running schema k n depth) Stopped := by
  refine triple_bind sound_takeNextToken fun token => ?_
  split
  · exact triple_bind sound_getTokenValue fun _ => triple_bind sound_addDiagnostic fun _ =>
      triple_bind sound_skipToNextPrimaryToken fun _ => sound_pure
  refine triple_bind sound_createSpan fun span => triple_bind sound_getTokenValue fun value => ?_
  refine triple_bind (Q := fun definitions s =>
    definitions = schema.members.directiveDefinitions ∧ Running schema k n depth s) ?_
    fun definitions => triple_fact fun hdefinitions => ?_
  · exact triple_bind (triple_get (Q := fun a s => a = s ∧ Running schema k n depth s)
      fun s hs => ⟨rfl, hs⟩) fun s => triple_pure fun s' hs =>
        ⟨hs.1 ▸ hs.2.directiveDefinitions, hs.2⟩
  subst hdefinitions
  split
  · exact triple_bind sound_getLocationFromSyntax fun _ => triple_bind sound_addDiagnosticAt fun _ =>
      triple_bind sound_skipTo fun _ => sound_pure
  next definition hdefinition =>
  have hwf := hschema.directives.arguments _ _ hdefinition
  refine triple_bind sound_createName fun name => ?_
  refine triple_bind sound_checkDirectiveLocation fun _ =>
    triple_bind (Q := fun _ => Running schema k n depth) ?_ fun supplied => ?_
  · refine triple_bind (sound_scanOptional (by decide)) fun paren => ?_
    split
    · refine triple_bind (harguments _ hwf) fun supplied => ?_
      split
      · exact sound_pure
      · exact triple_bind (sound_finishArguments hschema hwf) fun _ => sound_pure
    · exact triple_bind sound_recordArguments fun _ => sound_pure
  · split <;> exact sound_pure

/-- Arguments and directives contain each other; a step down takes a character. -/
theorem triple_parseArgumentsAndDirectives (fuel : Nat) :
    (∀ {n definitions arguments}, 3 * n + 1 ≤ fuel →
      ArgumentsWellFormed schema.pool.types definitions →
      Triple (Running schema k n depth) (parseArgumentsLoop fuel definitions arguments)
        (fun _ => Running schema k n depth) Stopped) ∧
    ∀ {n location directives}, 3 * n + 1 ≤ fuel →
      Triple (Running schema k n depth) (parseDirectives fuel location directives)
        (fun _ => Running schema k n depth) Stopped := by
  induction fuel with
  | zero => refine ⟨fun h => ?_, fun h => ?_⟩ <;> omega
  | succ fuel ih =>
    obtain ⟨ihArguments, ihDirectives⟩ := ih
    refine ⟨fun {n definitions arguments} hfuel hdefinitions => ?_,
      fun {n location directives} hfuel => ?_⟩
    · unfold parseArgumentsLoop
      refine triple_bind triple_takeNextToken fun token => ?_
      split
      · exact triple_bind ((sound_recordStep rfl).conseq (fun _ hs => hs.1) fun _ _ hs => hs)
          fun _ => sound_pure
      next htoken =>
      rw [ne_eq, Decidable.not_not] at htoken
      refine Triple.conseq (triple_below (Q := fun _ => Running schema k n depth) fun m hm => ?_)
        (fun s hs => hs.2 (by rw [htoken]; decide)) fun _ _ hs => hs
      refine triple_bind (triple_parseArgument hschema (by omega) hdefinitions
        (ihDirectives (by omega))) fun argument => ?_
      split
      · exact triple_pure fun _ hs => hs.mono (Nat.le_of_lt hm)
      · exact (ihArguments (by omega) hdefinitions).conseq (fun _ hs => hs)
          fun _ _ hs => hs.mono (Nat.le_of_lt hm)
    · unfold parseDirectives
      refine triple_bind (triple_scanOptional (by decide)) fun found => ?_
      split
      · next hfound =>
        refine Triple.conseq (triple_below (Q := fun _ => Running schema k n depth)
          fun m hm => ?_) (fun s hs => hs.2 hfound) fun _ _ hs => hs
        refine triple_bind (triple_parseDirective hschema fun definitions hdefinitions =>
          ihArguments (by omega) hdefinitions) fun directive => ?_
        split
        · exact triple_pure fun _ hs => hs.mono (Nat.le_of_lt hm)
        · refine triple_bind sound_addDirective fun _ => ?_
          exact (ihDirectives (by omega)).conseq (fun _ hs => hs)
            fun _ _ hs => hs.mono (Nat.le_of_lt hm)
      · exact triple_pure fun _ hs => hs.1

theorem triple_parseDirectives {fuel : Nat} (hfuel : 3 * n + 1 ≤ fuel)
    {location : DirectiveLocation} {directives : UstringMap Directive} :
    Triple (Running schema k n depth) (parseDirectives fuel location directives)
      (fun _ => Running schema k n depth) Stopped :=
  (triple_parseArgumentsAndDirectives hschema fuel).2 hfuel

theorem triple_parseFieldArguments {fuel : Nat} (hfuel : 3 * n + 1 ≤ fuel)
    {definition : FieldDefinition}
    (hdefinition : ArgumentsWellFormed schema.pool.types definition.arguments) {span : Span} :
    Triple (Running schema k n depth) (parseFieldArguments fuel definition span)
      (fun _ => Running schema k n depth) Stopped := by
  refine triple_bind (sound_scanOptional (by decide)) fun paren => ?_
  split
  · refine triple_bind ((triple_parseArgumentsAndDirectives hschema fuel).1 hfuel hdefinition)
      fun arguments => ?_
    split
    · exact sound_pure
    · exact triple_bind (sound_finishArguments hschema hdefinition) fun _ => sound_pure
  · exact triple_bind sound_recordArguments fun _ => sound_pure

end Arguments

end GraphQlExecutor

end Flashpoint
