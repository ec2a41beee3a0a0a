import Flashpoint.Library.Occurrences
import Flashpoint.Schema.Tables

/-!
# Objects and the interfaces they implement

`check_object_implementations` compares every field of an interface with the field of the object. It
leaves the fields of the interface at the first one whose type has another name, and it does not look at
the list and non-null marks of the types. What it reports is all there is to report exactly where
neither makes a difference.
-/

namespace Flashpoint

open Library Climb

/-- The templates that `check_object_implementations` reports. -/
def D.isConformance : D → Bool
  | .theField0InInterface1IsNotImplemented => true
  | .type0DoesNotMatchType1FromTheInterface2 => true
  | .interface0IsNotDefined => true
  | _ => false

/-- The object was read to the end of its fields. -/
def Declaration.hasFields : Declaration → Bool
  | .object o => o.fields.isSome
  | _ => true

namespace TypeNode

/-- The name of the type without its marks: that of a definition, or the tag of a scalar. -/
def base (t : TypeNode) : TypeEnum ⊕ Ustring :=
  match t.name with
  | none => .inl t.type
  | some name => .inr name.identifier

/-- The type as it is written: its name and its list and non-null marks. -/
def shape (t : TypeNode) : (TypeEnum ⊕ Ustring) × Bool × Bool × Bool :=
  (t.base, t.isListType, t.isNonNull, t.isNonNullList)

/-- The name in `get_type_name`. -/
def nameText (t : TypeNode) : Option Ustring :=
  match t.type with
  | .boolean => some "Boolean".toList
  | .int => some "Int".toList
  | .float => some "Float".toList
  | .string => some "String".toList
  | .id => some "ID".toList
  | .object | .enum => t.name.map (·.identifier)
  | .none | .interface | .union => none

/-- The text of `get_type_name`. -/
def text (t : TypeNode) : Option Ustring :=
  t.nameText.map fun name =>
    (if t.isListType then ['['] else []) ++ name ++ (if t.isNonNull then ['!'] else []) ++
      (if t.isListType then [']'] else []) ++ (if t.isNonNullList then ['!'] else [])

end TypeNode

namespace GraphQlSchema

open ParserM

/-! ## What there is to report -/

/-- The field of the object that implements a field of an interface. -/
def implementingField (object : Object) (field : FieldDefinition) : Option FieldDefinition :=
  object.fields.bind (·.find? field.name.identifier)

/-- The object does not have the field. -/
def isMissing (object : Object) (field : FieldDefinition) : Bool :=
  (implementingField object field).isNone

/-- The object has the field, with a type of another name. -/
def isRenamed (types : List TypeNode) (object : Object) (field : FieldDefinition) : Bool :=
  (implementingField object field).any fun own =>
    types[own.type]?.map TypeNode.base ≠ types[field.type]?.map TypeNode.base

/-- The object has the field, with a type of another name or other list or non-null marks. -/
def isRetyped (types : List TypeNode) (object : Object) (field : FieldDefinition) : Bool :=
  (implementingField object field).any fun own =>
    types[own.type]?.map TypeNode.shape ≠ types[field.type]?.map TypeNode.shape

/-- The object does not implement the field as the interface has it. -/
def isUnfit (types : List TypeNode) (object : Object) (field : FieldDefinition) : Bool :=
  isMissing object field || isRetyped types object field

/-- The check sees that the object does not implement the field as the interface has it. -/
def isSeen (types : List TypeNode) (object : Object) (field : FieldDefinition) : Bool :=
  isMissing object field || isRenamed types object field

/-- The report on a field of an interface that the object does not implement as it should. -/
def fieldReport (s : GraphQlSchema) (object : Object) (implementation : Ustring) (i : Interface)
    (field : FieldDefinition) : Option DiagnosticMessage :=
  match implementingField object field with
  | none => object.name.bind fun name =>
    reportAt s name.span .theField0InInterface1IsNotImplemented
      [field.name.identifier, implementation]
  | some own => do
    let objectType ← s.pool.types[own.type]?
    let interfaceType ← s.pool.types[field.type]?
    let objectText ← objectType.text
    let interfaceText ← interfaceType.text
    let name ← i.name
    reportAt s objectType.span .type0DoesNotMatchType1FromTheInterface2
      [objectText, interfaceText, name.identifier]

/-- The interface under a name, with its fields. -/
def interfaceFields (s : GraphQlSchema) (id : DeclarationId) : Option (Interface × List FieldDefinition) :=
  match s.pool.declarations[id]? with
  | some (.interface i) => i.fields.map fun fields => (i, fields.entries.map Prod.snd)
  | _ => none

/-- The reports on an interface that the object names: those of the fields that are picked out, or that
the interface is not defined. -/
def implementationReports (s : GraphQlSchema)
    (pick : Object → List FieldDefinition → List FieldDefinition) (object : Object)
    (implementation : Ustring × Name) : List (Option DiagnosticMessage) :=
  match s.members.interfaces.find? implementation.1 with
  | none => [reportAt s implementation.2.span .interface0IsNotDefined [implementation.1]]
  | some id => (interfaceFields s id).elim [] fun i =>
    (pick object i.2).map (fieldReport s object implementation.1 i.1)

/-- The reports on a declaration. -/
def declarationReports (s : GraphQlSchema)
    (pick : Object → List FieldDefinition → List FieldDefinition) :
    Declaration → List (Option DiagnosticMessage)
  | .object object => (object.implementations.elim [] (·.entries)).flatMap
      (implementationReports s pick object)
  | _ => []

/-- The fields that the object does not implement as it should. -/
def unfitFields (types : List TypeNode) (object : Object) (fields : List FieldDefinition) :
    List FieldDefinition := fields.filter (isUnfit types object)

/-- Those of them that are seen, up to the first one that is renamed. -/
def seenFields (types : List TypeNode) (object : Object) (fields : List FieldDefinition) :
    List FieldDefinition := tellUntil (isSeen types object) (isRenamed types object) fields

/-- The reports there are to make: for every object, every interface it names and every field of the
interface that the object does not implement as it should, one. -/
def expectedReports (s : GraphQlSchema) : List (Option DiagnosticMessage) :=
  s.pool.declarations.flatMap (declarationReports s (unfitFields s.pool.types))

/-- What was reported with the templates of the check is what there is to report. -/
def ReportsConformance (s : GraphQlSchema) : Prop :=
  ((s.diagnostics.filter fun d => d.template.isConformance).map some).Perm (expectedReports s)

/-! ## What the check reports -/

theorem isUnfit_of_isSeen {types : List TypeNode} {object : Object} {field : FieldDefinition}
    (h : isSeen types object field = true) : isUnfit types object field = true := by
  rw [isSeen, Bool.or_eq_true] at h
  rw [isUnfit, Bool.or_eq_true]
  refine h.imp_right fun hrenamed => ?_
  rw [isRenamed, Option.any_eq_true] at hrenamed
  rw [isRetyped, Option.any_eq_true]
  obtain ⟨own, hown, hbase⟩ := hrenamed
  refine ⟨own, hown, decide_eq_true fun hshape => of_decide_eq_true hbase ?_⟩
  have hfirst := congrArg (Option.map Prod.fst) hshape
  rwa [Option.map_map, Option.map_map] at hfirst

theorem isSeen_of_isRenamed {types : List TypeNode} {object : Object} {field : FieldDefinition}
    (h : isRenamed types object field = true) : isSeen types object field = true := by
  rw [isSeen, h, Bool.or_true]

theorem run_getTypeName {t : TypeNode} {text : Ustring} {s s' : GraphQlSchema}
    (hrun : (getTypeName t : SchemaM Ustring).run s = .ok text s') : t.text = some text ∧ s' = s := by
  obtain ⟨name, s₁, hname, hpure⟩ := run_bind_eq_ok.1 hrun
  obtain ⟨rfl, rfl⟩ := Outcome.ok.inj hpure
  suffices h : t.nameText = some name ∧ s₁ = s by
    rw [TypeNode.text, h.1]
    exact ⟨rfl, h.2⟩
  have hfollow : ∀ {s₁}, (follow t.name >>= fun n => pure n.identifier : SchemaM Ustring).run s =
      .ok name s₁ → t.name.map (·.identifier) = some name ∧ s₁ = s := by
    intro s₁ hrun
    obtain ⟨n, _, hread, hidentifier⟩ := run_bind_eq_ok.1 hrun
    obtain ⟨hn, rfl⟩ := run_require_eq_ok.1 hread
    obtain ⟨rfl, rfl⟩ := Outcome.ok.inj hidentifier
    rw [hn]
    exact ⟨rfl, rfl⟩
  unfold typeNameText at hname
  unfold TypeNode.nameText
  cases htype : t.type
  all_goals rw [htype] at hname
  all_goals first
    | exact hfollow hname
    | cases hname; exact ⟨rfl, rfl⟩
    | cases hname

/-- Two types have the same tag, and the same name if they have one, exactly if they are named the
same. -/
theorem Tagged.base_eq_iff {symbols : UstringMap Symbol} {references : List TypeId}
    {types : List TypeNode} (h : Tagged symbols references types)
    (hall : ∀ i t, types[i]? = some t → t.name.isSome = true → i ∈ references) {i j : TypeId}
    {t t' : TypeNode} (ht : types[i]? = some t) (ht' : types[j]? = some t') :
    t.base = t'.base ↔ t.type = t'.type ∧
      (t.type.isSymbolicType = true → t.name.map (·.identifier) = t'.name.map (·.identifier)) := by
  have hscalar : ∀ {i : TypeId} {t : TypeNode}, types[i]? = some t → t.name = none → t.type.isSymbolicType = false := by
    intro i t ht hname
    have hscalar := h.unnamed t (List.mem_of_getElem? ht) hname
    revert hscalar
    cases t.type <;> decide
  have htag : ∀ {i : TypeId} {t : TypeNode} {n : Name}, types[i]? = some t → t.name = some n →
      t.type = (if namesEnum symbols n.identifier = true then .enum else .object) := by
    intro i t n ht hname
    rw [h.named i t n ht hname]
    simp only [hall i t ht (by rw [hname]; rfl), true_and]
  have hsymbolic : ∀ {i : TypeId} {t : TypeNode} {n : Name}, types[i]? = some t → t.name = some n →
      t.type.isSymbolicType = true := by
    intro i t n ht hname
    rw [htag ht hname]
    split <;> rfl
  cases hname : t.name with
  | none =>
    cases hname' : t'.name with
    | none =>
      simp only [TypeNode.base, hname, hname', hscalar ht hname, Sum.inl.injEq, Bool.false_eq_true,
        false_implies, and_true]
    | some n' =>
      refine iff_of_false (by simp only [TypeNode.base, hname, hname', reduceCtorEq,
        not_false_eq_true]) fun hboth => ?_
      have hfalse := hscalar ht hname
      rw [hboth.1, hsymbolic ht' hname'] at hfalse
      cases hfalse
  | some n =>
    cases hname' : t'.name with
    | none =>
      refine iff_of_false (by simp only [TypeNode.base, hname, hname', reduceCtorEq,
        not_false_eq_true]) fun hboth => ?_
      have hfalse := hscalar ht' hname'
      rw [← hboth.1, hsymbolic ht hname] at hfalse
      cases hfalse
    | some n' =>
      simp only [TypeNode.base, hname, hname', hsymbolic ht hname, Sum.inr.injEq, true_implies,
        Option.map_some, Option.some.injEq]
      refine ⟨fun hidentifier => ⟨?_, hidentifier⟩, fun hboth => hboth.2⟩
      rw [htag ht hname, htag ht' hname', hidentifier]

section Check

variable {s : GraphQlSchema} {object : Object}

theorem tells_getTypeName {t : TypeNode} {k : Ustring → SchemaM Unit}
    {reports : List (Option DiagnosticMessage)}
    (h : ∀ text, t.text = some text → Tells s (k text) reports) :
    Tells s (getTypeName t >>= k) reports := by
  intro ds u s' hrun
  obtain ⟨text, s₁, hname, hrest⟩ := run_bind_eq_ok.1 hrun
  obtain ⟨htext, rfl⟩ := run_getTypeName hname
  exact h text htext ds u s' hrest

theorem tells_reportTypeMismatch {implementation : Ustring} {i : Interface}
    {field own : FieldDefinition} {objectType interfaceType : TypeNode}
    (hown : implementingField object field = some own)
    (hobject : s.pool.types[own.type]? = some objectType)
    (hinterface : s.pool.types[field.type]? = some interfaceType) :
    Tells s (do
      let name ← follow i.name
      reportTypeMismatch objectType interfaceType name.identifier)
      [fieldReport s object implementation i field] := by
  refine tells_require (fun _ => rfl) fun name hname => ?_
  refine tells_require (fun _ => rfl) fun location hlocation => ?_
  refine tells_getTypeName fun objectText hobjectText => ?_
  refine tells_getTypeName fun interfaceText hinterfaceText => ?_
  have hreport : fieldReport s object implementation i field =
      some ⟨.type0DoesNotMatchType1FromTheInterface2,
        [objectText, interfaceText, name.identifier], location⟩ := by
    simp only [fieldReport, hown, hobject, hinterface, hobjectText, hinterfaceText, hname, reportAt,
      hlocation, Option.bind_eq_bind, Option.bind_some, Option.map_some]
  rw [hreport]
  exact tells_addDiagnosticAt

/-- The fields of an interface: those that are seen are reported, up to the first one that is
renamed. -/
theorem tells_checkInterfaceFields {references : List TypeId}
    (htagged : Tagged s.members.symbols references s.pool.types)
    (hall : ∀ i t, s.pool.types[i]? = some t → t.name.isSome = true → i ∈ references)
    {fields : UstringMap FieldDefinition} {objectName : Name} {implementation : Ustring}
    {i : Interface} (hfields : object.fields = some fields) (hname : object.name = some objectName)
    (entries : List (Ustring × FieldDefinition)) :
    Tells s (checkInterfaceFields objectName fields implementation i.name entries)
      ((seenFields s.pool.types object (entries.map Prod.snd)).map
        (fieldReport s object implementation i)) := by
  unfold seenFields
  induction entries with
  | nil => exact tells_pure
  | cons entry entries ih =>
    obtain ⟨k, field⟩ := entry
    have hlookup : implementingField object field = fields.find? field.name.identifier := by
      rw [implementingField, hfields]
      rfl
    rw [List.map_cons]
    unfold checkInterfaceFields
    split
    · next hnone =>
      rw [hnone] at hlookup
      have hrenamed : isRenamed s.pool.types object field = false := by
        rw [isRenamed, hlookup]
        rfl
      have hseen : isSeen s.pool.types object field = true := by
        rw [isSeen, isMissing, hlookup]
        rfl
      rw [tellUntil_of_seen hrenamed hseen, List.map_cons]
      refine tells_require (fun _ => rfl) fun location hlocation => ?_
      have hreport : fieldReport s object implementation i field =
          some ⟨.theField0InInterface1IsNotImplemented,
            [field.name.identifier, implementation], location⟩ := by
        simp only [fieldReport, hlookup, hname, Option.bind_some, reportAt, hlocation,
          Option.map_some]
      rw [hreport]
      exact tells_bind tells_addDiagnosticAt ih
    · next own hown =>
      rw [hown] at hlookup
      have hpresent : isMissing object field = false := by
        rw [isMissing, hlookup]
        rfl
      refine tells_require (fun _ => rfl) fun objectType hobject => ?_
      refine tells_require (fun _ => rfl) fun interfaceType hinterface => ?_
      have hrenamed : isRenamed s.pool.types object field = true ↔
          objectType.base ≠ interfaceType.base := by
        rw [isRenamed, hlookup, Option.any_some, decide_eq_true_eq, hinterface,
          show s.pool.types[own.type]? = some objectType from hobject, Option.map_some,
          Option.map_some, ne_eq, Option.some.injEq]
      have hbase := htagged.base_eq_iff hall hobject hinterface
      have hrest : objectType.base = interfaceType.base →
          tellUntil (isSeen s.pool.types object) (isRenamed s.pool.types object)
            (field :: entries.map Prod.snd) =
          tellUntil (isSeen s.pool.types object) (isRenamed s.pool.types object)
            (entries.map Prod.snd) := by
        intro heq
        have hnot : isRenamed s.pool.types object field = false :=
          Bool.of_not_eq_true fun h => hrenamed.1 h heq
        refine tellUntil_of_unseen hnot ?_ _
        rw [isSeen, hpresent, hnot]
        rfl
      split
      · next htype =>
        rw [tellUntil_of_fatal (hrenamed.2 fun heq => htype (hbase.1 heq).1)]
        exact tells_reportTypeMismatch hlookup hobject hinterface
      next htype =>
      split
      · next hsymbolic =>
        refine tells_require (fun _ => rfl) fun objectTypeName hobjectName => ?_
        refine tells_require (fun _ => rfl) fun interfaceTypeName hinterfaceName => ?_
        rw [show objectType.name = some objectTypeName from hobjectName,
          show interfaceType.name = some interfaceTypeName from hinterfaceName] at hbase
        split
        · next hidentifier =>
          rw [tellUntil_of_fatal (hrenamed.2 fun heq =>
            hidentifier (Option.some.inj ((hbase.1 heq).2 hsymbolic)))]
          exact tells_reportTypeMismatch hlookup hobject hinterface
        · next hidentifier =>
          rw [hrest (hbase.2 ⟨not_not.1 htype, fun _ => congrArg some (not_not.1 hidentifier)⟩)]
          exact ih
      · next hsymbolic =>
        rw [hrest (hbase.2 ⟨not_not.1 htype, fun h => absurd h hsymbolic⟩)]
        exact ih

theorem tells_absent {e : Stop} {reports : List (Option DiagnosticMessage)} :
    Tells s (Climb.require e fun _ => none) reports := by
  intro ds u s' hrun
  cases (run_require_eq_ok.1 hrun).1

section Interfaces

variable {references : List TypeId} (htagged : Tagged s.members.symbols references s.pool.types)
  (hall : ∀ i t, s.pool.types[i]? = some t → t.name.isSome = true → i ∈ references)
include htagged hall

theorem tells_checkImplementation {fields : UstringMap FieldDefinition}
    (hfields : object.fields = some fields) (implementation : Ustring × Name) :
    Tells s (checkImplementation object implementation)
      (implementationReports s (seenFields s.pool.types) object implementation) := by
  refine tells_read (fun _ => rfl) ?_
  unfold implementationReports
  cases hid : s.members.interfaces.find? implementation.1 with
  | none => exact tells_reportAt
  | some id =>
    simp only [hfields]
    refine tells_require (fun _ => rfl) fun d hd => ?_
    have hd : s.pool.declarations[id]? = some d := hd
    unfold interfaceFields
    cases d with
    | interface i =>
      refine tells_require (fun _ => rfl) fun fields hinterface => ?_
      refine tells_require (fun _ => rfl) fun objectName hname => ?_
      have hinterface : i.fields = some fields := hinterface
      simp only [hd, hinterface, Option.map_some, Option.elim_some]
      exact tells_checkInterfaceFields htagged hall hfields hname _
    | _ => exact tells_absent

theorem tells_checkObjectImplementation (id : DeclarationId)
    (hparsed : ∀ d ∈ s.pool.declarations, d.hasFields = true) :
    Tells s (checkObjectImplementation id)
      (s.pool.declarations[id]?.elim [] (declarationReports s (seenFields s.pool.types))) := by
  refine tells_require (fun _ => rfl) fun d hd => ?_
  rw [show s.pool.declarations[id]? = some d from hd]
  cases d with
  | object object =>
    refine tells_require (fun _ => rfl) fun implementations himplementations => ?_
    have hmem := List.mem_of_getElem? (show s.pool.declarations[id]? = some (.object object) from hd)
    obtain ⟨fields, hfields⟩ := Option.isSome_iff_exists.1 (hparsed _ hmem)
    simp only [Option.elim_some, declarationReports,
      show object.implementations = some implementations from himplementations]
    exact tells_forM fun implementation _ => tells_checkImplementation htagged hall hfields implementation
  | _ => exact tells_absent

end Interfaces

end Check

/-! ## The schema -/

/-- No field has the type of the interface in all but the list and non-null marks, and behind a field
with a type of another name all fields are implemented as they should. -/
def SeesAll (types : List TypeNode) (object : Object) (fields : List FieldDefinition) : Prop :=
  (∀ field ∈ fields, isRetyped types object field = true → isRenamed types object field = true) ∧
    fields.Pairwise fun field later =>
      isRenamed types object field = true → isUnfit types object later = false

instance (types : List TypeNode) (object : Object) (fields : List FieldDefinition) :
    Decidable (SeesAll types object fields) :=
  @instDecidableAnd _ _ (List.decidableBAll _ _) (List.instDecidablePairwise _)

/-- Nothing is missed in the interfaces that the declaration implements. -/
def ChecksAll (s : GraphQlSchema) : Declaration → Prop
  | .object object => ∀ implementation ∈ object.implementations.elim [] (·.entries),
      ∀ id ∈ s.members.interfaces.find? implementation.1, ∀ i ∈ interfaceFields s id,
        SeesAll s.pool.types object i.2
  | _ => True

instance (s : GraphQlSchema) : DecidablePred (ChecksAll s)
  | .object object => inferInstanceAs (Decidable (∀ implementation ∈
      object.implementations.elim [] (·.entries), _))
  | .interface _ => .isTrue trivial
  | .inputObject _ => .isTrue trivial
  | .enum _ => .isTrue trivial
  | .union _ => .isTrue trivial

theorem seenFields_eq_iff {types : List TypeNode} {object : Object} {fields : List FieldDefinition} :
    seenFields types object fields = unfitFields types object fields ↔ SeesAll types object fields := by
  refine (tellUntil_eq_filter_iff (fun _ => isUnfit_of_isSeen) (fun _ => isSeen_of_isRenamed)
    fields).trans (and_congr_left' (forall₂_congr fun field _ => ?_))
  rw [isUnfit, isSeen, isMissing, isRetyped, isRenamed]
  cases implementingField object field with
  | none => exact iff_of_true (fun _ => rfl) fun h => h
  | some own => exact Iff.rfl

theorem sublist_implementationReports (s : GraphQlSchema) (object : Object)
    (implementation : Ustring × Name) :
    List.Sublist (implementationReports s (seenFields s.pool.types) object implementation)
      (implementationReports s (unfitFields s.pool.types) object implementation) := by
  unfold implementationReports
  split
  · exact List.Sublist.refl _
  next id _ =>
  cases interfaceFields s id with
  | none => exact List.Sublist.refl _
  | some i =>
    exact (tellUntil_sublist (fun _ => isUnfit_of_isSeen) (fun _ => isSeen_of_isRenamed) i.2).map _

theorem implementationReports_eq_iff {s : GraphQlSchema} {object : Object}
    {implementation : Ustring × Name} :
    implementationReports s (seenFields s.pool.types) object implementation =
        implementationReports s (unfitFields s.pool.types) object implementation ↔
      ∀ id ∈ s.members.interfaces.find? implementation.1, ∀ i ∈ interfaceFields s id,
        SeesAll s.pool.types object i.2 := by
  unfold implementationReports
  cases s.members.interfaces.find? implementation.1 with
  | none => exact iff_of_true rfl nofun
  | some id =>
    simp only [Option.mem_def, Option.some.injEq, forall_eq']
    cases interfaceFields s id with
    | none => exact iff_of_true rfl nofun
    | some i =>
      simp only [Option.elim_some, Option.some.injEq, forall_eq', ← seenFields_eq_iff]
      refine ⟨fun heq => ?_, fun heq => by rw [heq]⟩
      have hlength := congrArg List.length heq
      rw [List.length_map, List.length_map] at hlength
      exact (tellUntil_sublist (fun _ => isUnfit_of_isSeen) (fun _ => isSeen_of_isRenamed) i.2).eq_of_length
        hlength

theorem sublist_declarationReports (s : GraphQlSchema) (d : Declaration) :
    List.Sublist (declarationReports s (seenFields s.pool.types) d)
      (declarationReports s (unfitFields s.pool.types) d) := by
  cases d with
  | object object =>
    exact flatMap_sublist_of_forall fun _ _ => sublist_implementationReports s object _
  | _ => exact List.Sublist.refl _

theorem declarationReports_eq_iff {s : GraphQlSchema} {d : Declaration} :
    declarationReports s (seenFields s.pool.types) d =
      declarationReports s (unfitFields s.pool.types) d ↔ ChecksAll s d := by
  cases d with
  | object object =>
    refine (flatMap_eq_iff_of_sublist fun _ _ => sublist_implementationReports s object _).trans ?_
    exact forall₂_congr fun _ _ => implementationReports_eq_iff
  | _ => exact iff_of_true rfl trivial

/-- The reports of the check are those there are to make exactly if it misses nothing. -/
theorem seenReports_perm_iff (s : GraphQlSchema) :
    (s.pool.declarations.flatMap (declarationReports s (seenFields s.pool.types))).Perm
      (expectedReports s) ↔ ∀ d ∈ s.pool.declarations, ChecksAll s d := by
  have hsublist : ∀ d ∈ s.pool.declarations,
      List.Sublist (declarationReports s (seenFields s.pool.types) d)
        (declarationReports s (unfitFields s.pool.types) d) :=
    fun d _ => sublist_declarationReports s d
  have heq := flatMap_eq_iff_of_sublist hsublist
  constructor
  · intro hperm d hd
    have hsame := (flatMap_sublist_of_forall hsublist).eq_of_length hperm.length_eq
    exact declarationReports_eq_iff.1 (heq.1 hsame d hd)
  · intro hall
    rw [expectedReports, heq.2 fun d hd => declarationReports_eq_iff.2 (hall d hd)]

/-! ## What the passes leave of it -/

theorem isConformance_of_reports {s : GraphQlSchema}
    {pick : Object → List FieldDefinition → List FieldDefinition} {d : Declaration}
    {report : DiagnosticMessage} (h : some report ∈ declarationReports s pick d) :
    report.template.isConformance = true := by
  have hreportAt : ∀ {span template arguments}, reportAt s span template arguments = some report →
      report.template = template := by
    intro span template arguments hreport
    obtain ⟨location, -, rfl⟩ := Option.map_eq_some_iff.1 hreport
    rfl
  cases d with
  | object object =>
    obtain ⟨implementation, -, h⟩ := List.mem_flatMap.1 h
    unfold implementationReports at h
    split at h
    · rw [hreportAt (List.mem_singleton.1 h).symm]
      rfl
    next id _ =>
    cases hfields : interfaceFields s id with
    | none =>
      rw [hfields] at h
      exact absurd h List.not_mem_nil
    | some i =>
      rw [hfields] at h
      obtain ⟨field, -, hreport⟩ := List.mem_map.1 h
      unfold fieldReport at hreport
      split at hreport
      · obtain ⟨name, -, hreport⟩ := Option.bind_eq_some_iff.1 hreport
        rw [hreportAt hreport]
        rfl
      · simp only [Option.bind_eq_bind, Option.bind_eq_some_iff] at hreport
        obtain ⟨_, -, _, -, _, -, _, -, _, -, hreport⟩ := hreport
        rw [hreportAt hreport]
        rfl
  | _ => exact absurd h List.not_mem_nil

/-- The reports with the templates of the check stay. -/
def KeepsConformance (s s' : GraphQlSchema) : Prop :=
  s'.diagnostics.filter (fun d => d.template.isConformance) =
    s.diagnostics.filter fun d => d.template.isConformance

instance : IsPreorder GraphQlSchema KeepsConformance where
  refl _ := rfl
  trans _ _ _ h h' := h'.trans h

theorem keptByChecks_conformance : KeptByChecks KeepsConformance where
  change _ _ _ h := congrArg _ h.diagnostics
  setFlags _ _ _ := keeps_step fun _ => rfl
  report template htemplate s d hd := by
    have hother : d.template.isConformance ≠ true := by
      intro hconformance
      rw [hd] at hconformance
      revert hconformance htemplate
      cases template <;> decide
    have hnone : [d].filter (fun d => d.template.isConformance) = [] :=
      List.filter_cons_of_neg hother
    rw [KeepsConformance, List.filter_append, hnone, List.append_nil]

theorem expectedReports_congr {s s' : GraphQlSchema} (hscanner : s'.scanner = s.scanner)
    (hpool : s'.pool = s.pool) (hmembers : s'.members = s.members) :
    expectedReports s' = expectedReports s ∧
      ((∀ d ∈ s'.pool.declarations, ChecksAll s' d) ↔ ∀ d ∈ s.pool.declarations, ChecksAll s d) := by
  obtain ⟨_, _, _, _, _, _, _, _, _⟩ := s
  obtain ⟨_, _, _, _, _, _, _, _, _⟩ := s'
  obtain rfl := hscanner
  obtain rfl := hpool
  obtain rfl := hmembers
  exact ⟨rfl, Iff.rfl⟩

/-- Before the check nothing was reported with its templates. -/
theorem Phases.conformance_directed {source : Ustring} {schema : GraphQlSchema}
    (p : Phases source schema) :
    p.directed.diagnostics.filter (fun d => d.template.isConformance) = [] := by
  have hnone : ∀ template : D, template.isConformance = true →
      reportsOf template p.directed.diagnostics = [] := by
    intro template htemplate
    have hplace : template.isOfOnePlace = true := by
      revert htemplate
      cases template <;> decide
    have hlexical : template.isLexical = false := by
      revert htemplate
      cases template <;> decide
    have hother : ∀ {other : D}, other.isConformance = false → template ≠ other := by
      rintro other hother rfl
      rw [htemplate] at hother
      cases hother
    obtain ⟨hparsed, hnone⟩ := p.regular_parsed template hplace hlexical (hother rfl)
    obtain ⟨hrooted, hrootedReports⟩ := p.steady_rooted template hplace hparsed
    obtain ⟨hlinked, hlinkedReports⟩ := p.steady_linked template hplace (hother rfl) hrooted
    rw [(p.steady_directed template hplace (hother rfl) hlinked).2, hlinkedReports, hrootedReports,
      hnone]
  refine List.filter_eq_nil_iff.2 fun d hd hconformance => ?_
  exact List.filter_eq_nil_iff.1 (hnone d.template hconformance) d hd (decide_eq_true rfl)

/-- What the check reports, in a schema whose objects have fields. -/
theorem Phases.conformance_reports {source : Ustring} {schema : GraphQlSchema}
    (p : Phases source schema) (hparsed : ∀ d ∈ p.directed.pool.declarations, d.hasFields = true) :
    ((schema.diagnostics.filter fun d => d.template.isConformance).map some).Perm
      (p.directed.pool.declarations.flatMap
        (declarationReports p.directed (seenFields p.directed.pool.types))) := by
  have hquiet := quiet_checkDirectiveReferences _ _ _ p.direct
  have hsymbols : p.directed.members.symbols = p.rooted.members.symbols := by
    rw [hquiet.members, p.nodes_linked.members]
  have htagged := p.tagged_linked
  rw [← hsymbols, ← show p.directed.pool.types = p.linked.pool.types by rw [hquiet.pool]] at htagged
  have hall : ∀ i t, p.directed.pool.types[i]? = some t → t.name.isSome = true →
      i ∈ p.rooted.members.forwardTypeReferences := by
    rw [hquiet.pool]
    exact fun i t => p.mem_references
  have htells := tells_forM (f := checkObjectImplementation)
    fun id (_ : id ∈ p.directed.members.objectsWithImplementations) =>
      tells_checkObjectImplementation htagged hall id hparsed
  obtain ⟨new, hnew, himplemented⟩ := htells _ _ _ p.implement
  have hconformance : ∀ d ∈ new, d.template.isConformance = true := by
    intro d hd
    have hmem := hnew ▸ List.mem_map_of_mem (f := some) hd
    obtain ⟨id, -, hmem⟩ := List.mem_flatMap.1 hmem
    cases hdeclaration : p.directed.pool.declarations[id]? with
    | none =>
      rw [hdeclaration] at hmem
      exact absurd hmem List.not_mem_nil
    | some declaration =>
      rw [hdeclaration] at hmem
      exact isConformance_of_reports hmem
  have hfinal : schema.diagnostics.filter (fun d => d.template.isConformance) = new := by
    rw [show _ = _ from keptByChecks_conformance.keeps_checkUnionMembers _ _ _ p.unite,
      himplemented, List.filter_append, p.conformance_directed, List.nil_append]
    exact List.filter_eq_self.2 hconformance
  rw [hfinal, hnew]
  -- the objects to check are the declarations that have something to check
  have htabled : Tabled (fun _ => False) p.directed := p.tabled_rooted.same
    ⟨by rw [hquiet.pool, p.nodes_linked.declarations], hsymbols,
      by rw [hquiet.members, p.nodes_linked.members]⟩
  refine flatMap_getElem?_perm htabled.nodup fun i d hd hunlisted => ?_
  cases d with
  | object object =>
    cases himplementations : object.implementations with
    | none => simp only [declarationReports, himplementations, Option.elim_none, List.flatMap_nil]
    | some implementations =>
      refine absurd (htabled.listed i _ id hd ?_) hunlisted
      rw [Declaration.implements, himplementations]
      rfl
  | _ => rfl

/-- **The reports of the check are those there are to make exactly if no field has the type of the
interface in all but its marks and all fields behind one with a type of another name are as they
should be.** -/
theorem reportsConformance_iff {source : Ustring} {schema : GraphQlSchema}
    (h : run source = .ok () schema) (hparsed : ∀ d ∈ schema.pool.declarations, d.hasFields = true) :
    ReportsConformance schema ↔ ∀ d ∈ schema.pool.declarations, ChecksAll schema d := by
  obtain ⟨p⟩ := nonempty_phases h
  have hquiet : Quiet p.directed schema := trans_of _
    (quiet_checkObjectImplementations _ _ _ p.implement) (quiet_checkUnionMembers _ _ _ p.unite)
  have hscanner : schema.scanner = p.directed.scanner :=
    p.tables_united.scanner.trans p.tables_implemented.scanner
  obtain ⟨hexpected, hchecks⟩ := expectedReports_congr hscanner hquiet.pool hquiet.members
  rw [hquiet.pool] at hparsed
  rw [hchecks, ← seenReports_perm_iff, ReportsConformance, hexpected]
  exact ⟨(p.conformance_reports hparsed).symm.trans, (p.conformance_reports hparsed).trans⟩

/-- A field that is missing and one with a type of another name behind it are both reported. -/
theorem reportsConformance_of_missing : ∃ schema,
    run "interface I{a:Int b:Int}type Query implements I{b:ID}".toList =
        .ok () schema ∧ (expectedReports schema).length = 2 ∧ ReportsConformance schema := by
  obtain ⟨_, hrun⟩ := Outcome.exists_eq_ok
    (o := run "interface I{a:Int b:Int}type Query implements I{b:ID}".toList)
    (by decide +kernel)
  refine ⟨_, hrun, by decide +kernel, (reportsConformance_iff hrun ?_).2 ?_⟩
  · decide +kernel
  · decide +kernel

/-- Of two fields with types of other names the second is not reported. -/
theorem not_reportsConformance_of_mismatches : ∃ schema,
    run "interface I{a:Int b:Int}type Query implements I{a:ID b:ID}".toList =
        .ok () schema ∧ (∀ d ∈ schema.pool.declarations, d.hasFields = true) ∧
      ¬ ReportsConformance schema := by
  obtain ⟨_, hrun⟩ := Outcome.exists_eq_ok
    (o := run "interface I{a:Int b:Int}type Query implements I{a:ID b:ID}".toList)
    (by decide +kernel)
  refine ⟨_, hrun, by decide +kernel, fun hreports => ?_⟩
  exact absurd hreports.length_eq (by decide +kernel)

end GraphQlSchema

end Flashpoint
