import Flashpoint.Reports
import Flashpoint.Schema.Constructed

/-!
# Required arguments of the directives in a schema

`check_directive_references` compares the arguments of every directive with those its definition
declares. The arguments it reports missing are those that are left out and have a type with an
exclamation mark anywhere, so the elements of a list count too.
-/

namespace Flashpoint

open Library Climb

namespace GraphQlSchema

open ParserM

/-- The arguments that are declared for the directives, with the directives. -/
def declaredArguments (definitions : UstringMap DirectiveDefinition) (directives : List Directive) :
    List (Directive × InputValueDefinition) :=
  directives.flatMap fun directive =>
    (definitions.find? directive.name.identifier).elim [] fun definition =>
      definition.arguments.entries.map fun argument => (directive, argument.2)

/-- The directive does not supply the argument. -/
def isLeftOut (use : Directive × InputValueDefinition) : Bool :=
  (SortedMap.findEntry use.1.arguments use.2.name.identifier).isNone

/-- The argument is left out, and its type meets a criterion. -/
def isLeftOutWith (criterion : TypeNode → Bool) (types : List TypeNode)
    (use : Directive × InputValueDefinition) : Bool :=
  isLeftOut use && (use.2.type.bind (types[·]?)).any criterion

/-- What `check_directive_references` takes to be required. -/
def hasExclamation (type : TypeNode) : Bool := type.isNonNull || type.isNonNullList

/-! ## Checking values reports no missing argument -/

/-- The scanner stays, and no argument was reported missing. -/
structure Unreported (s s' : GraphQlSchema) : Prop where
  scanner : s'.scanner = s.scanner
  missing : missingArguments s'.diagnostics = missingArguments s.diagnostics

instance : IsPreorder GraphQlSchema Unreported where
  refl _ := ⟨rfl, rfl⟩
  trans _ _ _ h h' := ⟨h'.scanner.trans h.scanner, h'.missing.trans h.missing⟩

theorem unreported_read {α : Type} {f : GraphQlSchema → α} : Keeps Unreported (read f) :=
  keeps_bind keeps_get fun _ => keeps_pure

theorem unreported_deref {α : Type} {f : GraphQlSchema → Option α} : Keeps Unreported (deref f) :=
  keeps_require

theorem unreported_follow {α : Type} {p : Option α} :
    Keeps Unreported (follow p : SchemaM α) := unreported_deref

theorem unreported_modifyType {id : TypeId} {f : TypeNode → TypeNode} :
    Keeps Unreported (modifyType id f) := keeps_step fun _ => ⟨rfl, rfl⟩

theorem unreported_addDiagnosticAt {location : Location} {template : D} {arguments : List Ustring}
    (h : template ≠ .missingRequiredArgument0) :
    Keeps Unreported (addDiagnosticAt location template arguments : SchemaM Unit) :=
  keeps_step fun _ => ⟨rfl, missingArguments_other h _ _ _⟩

theorem unreported_addDiagnostic {template : D} {arguments : List Ustring}
    (h : template ≠ .missingRequiredArgument0) :
    Keeps Unreported (addDiagnostic template arguments : SchemaM Unit) :=
  keeps_bind unreported_read fun _ => unreported_addDiagnosticAt h

theorem unreported_reportAt {span : Span} {template : D} {arguments : List Ustring}
    (h : template ≠ .missingRequiredArgument0) :
    Keeps Unreported (do
      let location ← getLocationFromSyntax span
      addDiagnosticAt location template arguments : SchemaM Unit) :=
  keeps_bind keeps_require fun _ => unreported_addDiagnosticAt h

theorem unreported_getTypeName {type : TypeNode} :
    Keeps Unreported (getTypeName type : SchemaM Ustring) := by
  have hname : Keeps Unreported (typeNameText type : SchemaM Ustring) := by
    unfold typeNameText
    split
    all_goals first
      | exact keeps_pure
      | exact keeps_bind unreported_follow fun _ => keeps_pure
      | exact keeps_stop
  exact keeps_bind hname fun _ => keeps_pure

theorem unreported_reportNotAssignable {value : Value} {type : TypeNode} :
    Keeps Unreported (reportNotAssignable value type) :=
  keeps_bind keeps_require fun _ => keeps_bind keeps_require fun _ =>
    keeps_bind unreported_getTypeName fun _ => unreported_addDiagnosticAt (by decide)

theorem unreported_reportMissingFields {span : Span} {checked : UstringMap ObjectField}
    {fields : UstringMap InputFieldDefinition} :
    Keeps Unreported (reportMissingFields span checked fields) :=
  keeps_forM fun _ _ => keeps_bind unreported_deref fun _ =>
    keeps_when (unreported_reportAt (by decide))

theorem unreported_reportDuplicateField {span first : Span} {name : Ustring} :
    Keeps Unreported (reportDuplicateField span first name) := by
  refine keeps_bind keeps_require fun _ =>
    keeps_bind (unreported_addDiagnosticAt (by decide)) fun _ => ?_
  refine keeps_bind (keeps_bind keeps_require fun _ => unreported_read) fun _ => ?_
  exact keeps_when (unreported_reportAt (by decide))

mutual

theorem unreported_checkValue : ∀ (value : Value) (id : TypeId),
    Keeps Unreported (checkValue value id)
  | .null _, _ => by
    unfold checkValue
    exact keeps_bind unreported_deref fun _ => keeps_when (keeps_bind keeps_require
      fun _ => keeps_bind unreported_getTypeName fun _ => unreported_addDiagnosticAt (by decide))
  | .list _ _ values, id => by
    unfold checkValue
    refine keeps_bind unreported_deref fun _ => ?_
    split
    · exact unreported_reportNotAssignable
    · exact keeps_bind unreported_modifyType fun _ =>
        keeps_bind (unreported_checkValues values id) fun _ => unreported_modifyType
  | .string _ _, _ => by
    unfold checkValue
    exact keeps_bind unreported_deref fun _ => keeps_when unreported_reportNotAssignable
  | .int _ _, _ => by
    unfold checkValue
    exact keeps_bind unreported_deref fun _ => keeps_when unreported_reportNotAssignable
  | .float _ _, _ => by
    unfold checkValue
    exact keeps_bind unreported_deref fun _ => keeps_when unreported_reportNotAssignable
  | .boolean _ _, _ => by
    unfold checkValue
    exact keeps_bind unreported_deref fun _ => keeps_when unreported_reportNotAssignable
  | .enum _ _, _ => by
    unfold checkValue
    exact keeps_bind unreported_deref fun _ => keeps_when unreported_reportNotAssignable
  | .object span objectFields, id => by
    unfold checkValue
    refine keeps_bind unreported_deref fun type => ?_
    refine keeps_bind (keeps_when unreported_reportNotAssignable) fun _ => ?_
    refine keeps_bind unreported_follow fun name => keeps_bind unreported_read fun symbols => ?_
    split
    · exact unreported_addDiagnostic (by decide)
    split
    · exact keeps_pure
    refine keeps_bind unreported_deref fun d => ?_
    split
    · refine keeps_bind unreported_follow fun fields => keeps_bind unreported_follow fun _ => ?_
      refine keeps_bind (unreported_checkObjectFields fields _ span objectFields ∅) fun _ => ?_
      exact keeps_when unreported_reportMissingFields
    · exact unreported_deref

theorem unreported_checkValues : ∀ (values : List Value) (id : TypeId),
    Keeps Unreported (checkValues values id)
  | [], _ => by
    unfold checkValues
    exact keeps_pure
  | value :: values, id => by
    unfold checkValues
    exact keeps_bind (unreported_checkValue value id) fun _ => unreported_checkValues values id

theorem unreported_checkObjectFields (fields : UstringMap InputFieldDefinition)
    (inputName : Ustring) (span : Span) :
    ∀ (objectFields : List ObjectField) (checked : UstringMap ObjectField),
      Keeps Unreported (checkObjectFields fields inputName span objectFields checked)
  | [], _ => by
    unfold checkObjectFields
    exact keeps_pure
  | .mk fieldSpan name value :: rest, checked => by
    unfold checkObjectFields
    split
    · exact keeps_bind keeps_require fun _ =>
        keeps_bind (unreported_addDiagnosticAt (by decide)) fun _ =>
          unreported_checkObjectFields fields inputName span rest _
    split
    · exact keeps_bind unreported_reportDuplicateField fun _ =>
        unreported_checkObjectFields fields inputName span rest _
    match value with
    | none => exact unreported_deref
    | some v =>
      exact keeps_bind (unreported_checkValue v _) fun _ =>
        unreported_checkObjectFields fields inputName span rest _

end

/-! ## The reports of a check -/

/-- The computation leaves the nodes and the members, and the arguments it reports missing are those
of the given uses whose type has an exclamation mark. -/
def Adds {α : Type} (uses : SchemaMembers → List (Directive × InputValueDefinition))
    (m : SchemaM α) : Prop :=
  ∀ s a s', m.run s = .ok a s' → Quiet s s' ∧ s'.scanner = s.scanner ∧
    ∃ new, missingArguments s'.diagnostics = missingArguments s.diagnostics ++ new ∧
      List.Forall₂ (fun d use =>
          IsMissingArgument s.scanner use.1.span use.2.name.identifier d) new
        ((uses s.members).filter (isLeftOutWith hasExclamation s.pool.types))

theorem adds_nil {α : Type} {m : SchemaM α} (hquiet : Keeps Quiet m) (h : Keeps Unreported m) :
    Adds (fun _ => []) m := by
  intro s a s' hrun
  have hs := h s a s' hrun
  exact ⟨hquiet s a s' hrun, hs.scanner, [], by rw [hs.missing, List.append_nil], .nil⟩

theorem adds_bind {α β : Type} {m : SchemaM α} {f : α → SchemaM β}
    {U V : SchemaMembers → List (Directive × InputValueDefinition)} (hm : Adds U m)
    (hf : ∀ a, Adds V (f a)) : Adds (fun members => U members ++ V members) (m >>= f) := by
  intro s b s'' hrun
  obtain ⟨a, s', hrun, hrun'⟩ := run_bind_eq_ok.1 hrun
  obtain ⟨hquiet, hscanner, new, hnew, hreports⟩ := hm s a s' hrun
  obtain ⟨hquiet', hscanner', new', hnew', hreports'⟩ := hf a s' b s'' hrun'
  refine ⟨trans_of Quiet hquiet hquiet', hscanner'.trans hscanner, new ++ new', ?_, ?_⟩
  · rw [hnew', hnew, List.append_assoc]
  · rw [hscanner, hquiet.pool, hquiet.members] at hreports'
    rw [List.filter_append]
    exact List.rel_append hreports hreports'

/-- The uses may depend on the members. -/
theorem adds_readMembers {α β : Type} {f : SchemaMembers → α} {k : α → SchemaM β}
    {U : α → SchemaMembers → List (Directive × InputValueDefinition)}
    (hk : ∀ a, Adds (U a) (k a)) :
    Adds (fun members => U (f members) members) (read (fun s => f s.members) >>= k) := by
  intro s b s' hrun
  exact hk (f s.members) s b s' hrun

theorem adds_forM {α : Type} {xs : List α} {f : α → SchemaM PUnit}
    {U : α → SchemaMembers → List (Directive × InputValueDefinition)}
    (hf : ∀ x ∈ xs, Adds (U x) (f x)) :
    Adds (fun members => xs.flatMap (U · members)) (xs.forM f) := by
  induction xs with
  | nil => exact adds_nil keeps_pure keeps_pure
  | cons x xs ih =>
    exact adds_bind (hf x (List.mem_cons_self ..)) fun _ =>
      ih fun y hy => hf y (List.mem_cons_of_mem _ hy)

theorem adds_reportMissingArgument {directive : Directive} {definition : InputValueDefinition}
    (h : SortedMap.findEntry directive.arguments definition.name.identifier = none) :
    Adds (fun _ => [(directive, definition)]) (reportMissingArgument directive definition) := by
  intro s a s' hrun
  have hout : isLeftOut (directive, definition) = true := by
    simp only [isLeftOut, h, Option.isNone_none]
  obtain ⟨typeId, s₁, hfollow, hrun₁⟩ := run_bind_eq_ok.1 hrun
  obtain ⟨htypeId, hs₁⟩ := run_require_eq_ok.1 hfollow
  subst s₁
  obtain ⟨type, s₂, hnode, hrun₂⟩ := run_bind_eq_ok.1 hrun₁
  obtain ⟨htype, hs₂⟩ := run_require_eq_ok.1 hnode
  subst s₂
  have hcriterion : isLeftOutWith hasExclamation s.pool.types (directive, definition) =
      hasExclamation type := by
    simp only [isLeftOutWith, hout, htypeId, Option.bind_some, htype, Option.any_some,
      Bool.true_and]
  rw [List.filter_cons, hcriterion, List.filter_nil]
  unfold when at hrun₂
  split at hrun₂
  · next hc =>
    obtain ⟨location, s₃, hget, hadd⟩ := run_bind_eq_ok.1 hrun₂
    obtain ⟨hlocation, hs₃⟩ := run_require_eq_ok.1 hget
    subst s₃
    obtain rfl := (Outcome.ok.inj hadd).2
    have hpos : hasExclamation type = true := by
      rw [hasExclamation, Bool.or_eq_true]
      exact hc
    rw [hpos, if_pos rfl]
    refine ⟨⟨rfl, rfl⟩, rfl, _, missingArguments_missing _ _ _, .cons ?_ .nil⟩
    exact ⟨location, hlocation, rfl⟩
  · next hc =>
    obtain rfl := (Outcome.ok.inj hrun₂).2
    have hnot : hasExclamation type = false := by
      rw [Bool.eq_false_iff, hasExclamation, ne_eq, Bool.or_eq_true]
      exact hc
    rw [hnot, if_neg Bool.false_ne_true]
    exact ⟨⟨rfl, rfl⟩, rfl, [], (List.append_nil _).symm, .nil⟩

/-- An argument that is supplied is none of those reported. -/
theorem Adds.supplied {α : Type} {uses : List (Directive × InputValueDefinition)} {m : SchemaM α}
    {use : Directive × InputValueDefinition} (hm : Adds (fun _ => uses) m)
    (h : isLeftOut use = false) : Adds (fun _ => use :: uses) m := by
  intro s a s' hrun
  have hnot : isLeftOutWith hasExclamation s.pool.types use = false := by
    rw [isLeftOutWith, h, Bool.false_and]
  rw [List.filter_cons, hnot, if_neg Bool.false_ne_true]
  exact hm s a s' hrun

theorem adds_checkDirectiveArguments (directive : Directive)
    (definitions : List (Ustring × InputValueDefinition)) (checked : UstringSet) :
    Adds (fun _ => definitions.map fun argument => (directive, argument.2))
      (checkDirectiveArguments directive definitions checked) := by
  induction definitions generalizing checked with
  | nil => exact adds_nil keeps_pure keeps_pure
  | cons definition rest ih =>
    obtain ⟨k, definition⟩ := definition
    simp only [checkDirectiveArguments, List.map_cons]
    split
    · next hnone => exact adds_bind (adds_reportMissingArgument hnone) fun _ => ih _
    · next supplied hsome =>
      refine Adds.supplied ?_ (by simp only [isLeftOut, hsome, Option.isNone_some])
      refine adds_bind (adds_nil quiet_follow unreported_follow) fun value => ?_
      refine adds_bind (adds_nil quiet_follow unreported_follow) fun typeId => ?_
      exact adds_bind (adds_nil (quiet_checkValue _ _) (unreported_checkValue _ _)) fun _ => ih _

theorem adds_checkDirectiveReference (directive : Directive) :
    Adds (fun members => declaredArguments members.directiveDefinitions [directive])
      (checkDirectiveReference directive) := by
  have hlocation : ∀ {definition}, Keeps Unreported (checkLocation directive definition) :=
    keeps_when (keeps_bind keeps_require fun _ => keeps_bind keeps_require fun _ =>
      unreported_addDiagnosticAt (by decide))
  have hlocationQuiet : ∀ {definition}, Keeps Quiet (checkLocation directive definition) :=
    keeps_when (keeps_bind quiet_getLocationFromSyntax fun _ => keeps_bind keeps_require fun _ =>
      quiet_addDiagnosticAt)
  refine adds_readMembers (U := fun definitions _ => declaredArguments definitions [directive])
    fun definitions => ?_
  simp only [declaredArguments, List.flatMap_cons, List.flatMap_nil, List.append_nil]
  split
  · next hnone =>
    rw [hnone]
    exact adds_nil quiet_reportAt (unreported_reportAt (by decide))
  · next definition hsome =>
    rw [hsome]
    refine adds_bind (U := fun _ => []) (adds_nil (keeps_when quiet_reportAt)
      (keeps_when (unreported_reportAt (by decide)))) fun _ => ?_
    refine adds_bind (U := fun _ => []) (adds_nil hlocationQuiet hlocation) fun _ => ?_
    have hrest : ∀ checked : UstringSet, Adds (fun _ => []) (when
        (checked.size < directive.arguments.length) (directive.arguments.forM fun argument =>
          when ((checked.find? argument.2.name.identifier).isSome)
            (addDiagnostic .unknownArgument0 []))) := fun checked =>
      adds_nil (keeps_when (keeps_forM fun _ _ => keeps_when quiet_addDiagnostic))
        (keeps_when (keeps_forM fun _ _ => keeps_when (unreported_addDiagnostic (by decide))))
    have hall := adds_bind (adds_checkDirectiveArguments directive definition.arguments.entries ∅)
      hrest
    simpa only [List.append_nil] using hall

/-- The reports are those of the directives in the state before, whatever led to it. -/
theorem reports_of_checkDirectiveReferences {s s' : GraphQlSchema}
    (h : checkDirectiveReferences.run s = .ok () s') :
    ∃ new, missingArguments s'.diagnostics = missingArguments s.diagnostics ++ new ∧
      List.Forall₂ (fun d use =>
          IsMissingArgument s.scanner use.1.span use.2.name.identifier d) new
        ((declaredArguments s.members.directiveDefinitions s.directives).filter
          (isLeftOutWith hasExclamation s.pool.types)) := by
  have hrun : (s.directives.forM checkDirectiveReference).run s = .ok () s' := h
  obtain ⟨-, -, hnew⟩ := adds_forM (fun directive _ => adds_checkDirectiveReference directive)
    s () s' hrun
  simpa only [declaredArguments, List.flatMap_cons, List.flatMap_nil, List.append_nil] using hnew

/-- The arguments that the check newly reports missing are those that are left out and have a type
that is non-null as a whole. -/
def ChecksRequired (s s' : GraphQlSchema) : Prop :=
  ∃ new, missingArguments s'.diagnostics = missingArguments s.diagnostics ++ new ∧
    List.Forall₂ (fun d use =>
        IsMissingArgument s.scanner use.1.span use.2.name.identifier d) new
      ((declaredArguments s.members.directiveDefinitions s.directives).filter
        (isLeftOutWith TypeNode.isRequired s.pool.types))

/-- `[T!]`: a list that may be null, of elements that may not. -/
def isListOfNonNull (type : TypeNode) : Bool :=
  type.isListType && type.isNonNull && !type.isNonNullList

theorem hasExclamation_of_isRequired {type : TypeNode} (h : type.isRequired = true) :
    hasExclamation type = true := by
  revert h
  simp only [TypeNode.isRequired, hasExclamation]
  cases type.isNonNull <;> simp

theorem isListOfNonNull_eq_false_iff {type : TypeNode} :
    isListOfNonNull type = false ↔ (hasExclamation type = true → type.isRequired = true) := by
  simp only [isListOfNonNull, TypeNode.isRequired, hasExclamation]
  cases type.isNonNull <;> cases type.isListType <;> cases type.isNonNullList <;> decide

theorem isLeftOutWith_mono {p q : TypeNode → Bool} {types : List TypeNode}
    {use : Directive × InputValueDefinition} (hpq : ∀ t, p t = true → q t = true)
    (h : isLeftOutWith p types use = true) : isLeftOutWith q types use = true := by
  rw [isLeftOutWith, Bool.and_eq_true, Option.any_eq_true] at h ⊢
  obtain ⟨hout, t, ht, hp⟩ := h
  exact ⟨hout, t, ht, hpq t hp⟩

theorem isLeftOutWith_isListOfNonNull {types : List TypeNode}
    {use : Directive × InputValueDefinition} :
    isLeftOutWith isListOfNonNull types use = false ↔
      (isLeftOutWith hasExclamation types use = true →
        isLeftOutWith TypeNode.isRequired types use = true) := by
  simp only [isLeftOutWith]
  cases isLeftOut use with
  | false => simp
  | true =>
    cases use.2.type.bind (types[·]?) with
    | none => simp
    | some t => simpa only [Option.any_some, Bool.true_and] using isListOfNonNull_eq_false_iff

/-- The check of the directives takes a type for required exactly if it is non-null as a whole, unless
an argument that is left out has the type of a list of non-null elements. -/
theorem checksRequired_iff {s s' : GraphQlSchema} (h : checkDirectiveReferences.run s = .ok () s') :
    ChecksRequired s s' ↔
      ∀ use ∈ declaredArguments s.members.directiveDefinitions s.directives,
        isLeftOutWith isListOfNonNull s.pool.types use = false := by
  obtain ⟨new, hnew, hreports⟩ := reports_of_checkDirectiveReferences h
  have hmono : ∀ use ∈ declaredArguments s.members.directiveDefinitions s.directives,
      isLeftOutWith TypeNode.isRequired s.pool.types use = true →
        isLeftOutWith hasExclamation s.pool.types use = true :=
    fun use _ hrequired => isLeftOutWith_mono (fun _ => hasExclamation_of_isRequired) hrequired
  have hiff := (forall₂_filter_iff hmono).2 hreports
  simp only [isLeftOutWith_isListOfNonNull]
  rw [← hiff]
  constructor
  · rintro ⟨new', hnew', hreports'⟩
    obtain rfl := List.append_cancel_left (hnew'.symm.trans hnew)
    exact hreports'
  · exact fun hreports' => ⟨new, hnew, hreports'⟩

end GraphQlSchema

end Flashpoint
