import Flashpoint.Schema.Constructed

/-!
# Values that fit a type

What it means that a literal is assignable to a type (`fits`), and what `check_value` makes of it
(`inspect`). The two differ in places: a name is not looked up in its enum, a field of a type `[T!]` is
taken for required, and while the elements of a list are checked the type of the list is that of its
elements, for a field inside of an element too. Each place of a literal is rightly reported, reported
without need, or passed over wrongly, or the report cannot be made (`Finding`).
-/

namespace Flashpoint

open Library

/-- The type of the elements. -/
def TypeNode.element (t : TypeNode) : TypeNode := { t with isListType := false, isNonNullList := false }

/-- Whether null belongs to the type as a whole. -/
def TypeNode.isNullable (t : TypeNode) : Bool := if t.isListType then !t.isNonNullList else !t.isNonNull

namespace GraphQlSchema

/-! ## Assignable values -/

/-- The declaration that a type names. -/
def named (s : GraphQlSchema) (t : TypeNode) : Option Declaration := do
  let name ← t.name
  let symbol ← s.members.symbols.find? name.identifier
  s.pool.declarations[symbol.declaration]?

/-- The fields of the input object that a type names. -/
def inputFields (s : GraphQlSchema) (t : TypeNode) : Option (UstringMap InputFieldDefinition) :=
  match s.named t with
  | some (.inputObject o) => o.fields
  | _ => none

/-- Whether a type names an enum with the value. -/
def hasEnumValue (s : GraphQlSchema) (t : TypeNode) (value : Ustring) : Bool :=
  match s.named t with
  | some (.enum e) => (e.values.find? value).isSome
  | _ => false

/-- A type that the pool holds. -/
def typeIs (s : GraphQlSchema) (id : TypeId) (p : TypeNode → Bool) : Bool := s.pool.types[id]?.any p

def fieldNames (fields : List ObjectField) : List Ustring := fields.map (·.name.identifier)

/-- Whether no field is repeated, and the required ones are there. -/
def namesComplete (s : GraphQlSchema) (declared : UstringMap InputFieldDefinition)
    (names : List Ustring) : Bool :=
  names.Nodup && declared.entries.all fun f =>
    s.typeIs f.2.type TypeNode.isNullable || names.contains f.1

mutual

/-- Whether a value is assignable to a type. -/
def fits (s : GraphQlSchema) : Value → TypeNode → Bool
  | .null _, t => t.isNullable
  | .list _ _ values, t => t.isListType && allFit s values t.element
  | .string _ _, t => !t.isListType && t.type.isStringType
  | .int _ _, t => !t.isListType && t.type.isIntegerType
  | .float _ _, t => !t.isListType && t.type = .float
  | .boolean _ _, t => !t.isListType && t.type = .boolean
  | .enum _ text, t => !t.isListType && t.type = .enum && s.hasEnumValue t text
  | .object _ fields, t => !t.isListType && t.type = .object &&
      match s.inputFields t with
      | none => false
      | some declared => fieldsFit s declared fields && s.namesComplete declared (fieldNames fields)

def allFit (s : GraphQlSchema) : List Value → TypeNode → Bool
  | [], _ => true
  | value :: values, t => fits s value t && allFit s values t

/-- Whether the fields of a literal exist and fit their types. -/
def fieldsFit (s : GraphQlSchema) (declared : UstringMap InputFieldDefinition) :
    List ObjectField → Bool
  | [] => true
  | .mk _ name value :: rest =>
    (match declared.find? name.identifier with
      | none => false
      | some definition =>
        match value with
        | none => false
        | some v =>
          match s.pool.types[definition.type]? with
          | none => false
          | some t => fits s v t) && fieldsFit s declared rest

end

/-! ## Findings -/

/-- What `check_value` makes of a place in a literal where it reports or should report. -/
inductive Finding where
  | detected
  | falseAlarm
  | overlooked
  /-- The report is not made: an exception or a null pointer ends the check. -/
  | stops
deriving DecidableEq, Repr

def finding (reported misfit reportable : Bool) : List Finding :=
  if reported then
    if reportable then [if misfit then .detected else .falseAlarm] else [.stops]
  else if misfit then [.overlooked] else []

/-- Whether the place of a node is found for a report. -/
def located (s : GraphQlSchema) (span : Span) : Bool :=
  (s.scanner.getTokenLocation span.start span.stop).isSome

/-- A type while the elements of lists are checked: a type that one of the lists is for is that of its
elements. -/
def whileReading (reading : List TypeId) (id : TypeId) (t : TypeNode) : TypeNode :=
  if id ∈ reading then t.element else t

/-- The fields that are taken up as checked. -/
def checkedFields (declared : UstringMap InputFieldDefinition) :
    List ObjectField → UstringMap ObjectField → UstringMap ObjectField
  | [], checked => checked
  | field :: rest, checked =>
    match declared.find? field.name.identifier, checked.find? field.name.identifier with
    | some _, none => checkedFields declared rest (checked.emplace field.name.identifier field)
    | _, _ => checkedFields declared rest checked

/-- What is found of the fields that a literal leaves out. -/
def inspectMissing (s : GraphQlSchema) (reading : List TypeId) (span : Span)
    (checked : UstringMap ObjectField) (declared : List (Ustring × InputFieldDefinition)) :
    List Finding :=
  declared.flatMap fun f =>
    if (checked.find? f.1).isSome then []
    else
      match s.pool.types[f.2.type]? with
      | none => [.stops]
      | some t =>
        let current := whileReading reading f.2.type t
        finding (current.isNonNull || current.isNonNullList) (!t.isNullable) (s.located span)

mutual

/-- What is found of a value that is checked for a type `current`, where it should fit the type `t`. -/
def inspect (s : GraphQlSchema) (reading : List TypeId) :
    Value → TypeId → TypeNode → TypeNode → List Finding
  | .null span, _, current, t =>
    finding ((!current.isListType && current.isNonNull) || current.isNonNullList)
      (!fits s (.null span) t) (s.located span)
  | .list span kind values, id, current, t =>
    if current.isListType then inspectAll s (id :: reading) values id current.element t.element
    else finding true (!fits s (.list span kind values) t)
      (s.located span && (getValueString (.list span kind values)).isSome)
  | .string span text, _, current, t =>
    finding (!current.type.isStringType || current.isListType) (!fits s (.string span text) t)
      (s.located span)
  | .int span n, _, current, t =>
    finding (!current.type.isIntegerType || current.isListType) (!fits s (.int span n) t)
      (s.located span)
  | .float span text, _, current, t =>
    finding (current.type ≠ .float || current.isListType) (!fits s (.float span text) t)
      (s.located span)
  | .boolean span b, _, current, t =>
    finding (current.type ≠ .boolean || current.isListType) (!fits s (.boolean span b) t)
      (s.located span)
  | .enum span text, _, current, t =>
    finding (current.type ≠ .enum || current.isListType) (!fits s (.enum span text) t)
      (s.located span)
  | .object span fields, _, current, t =>
    -- an object has no text for a report
    if current.type ≠ .object ∨ current.isListType then [.stops]
    else
      match s.inputFields current with
      | none => [.stops]
      | some declared =>
        finding false t.isListType true ++
          (inspectFields s reading declared span fields ∅ ++
            inspectMissing s reading span (checkedFields declared fields ∅) declared.entries)

def inspectAll (s : GraphQlSchema) (reading : List TypeId) :
    List Value → TypeId → TypeNode → TypeNode → List Finding
  | [], _, _, _ => []
  | value :: values, id, current, t =>
    inspect s reading value id current t ++ inspectAll s reading values id current t

def inspectFields (s : GraphQlSchema) (reading : List TypeId)
    (declared : UstringMap InputFieldDefinition) (span : Span) :
    List ObjectField → UstringMap ObjectField → List Finding
  | [], _ => []
  | .mk fieldSpan name value :: rest, checked =>
    match declared.find? name.identifier with
    | none =>
      finding true true (s.located span) ++ inspectFields s reading declared span rest checked
    | some definition =>
      match checked.find? name.identifier with
      | some first =>
        finding true true (s.located fieldSpan && s.located first.span) ++
          inspectFields s reading declared span rest checked
      | none =>
        match value with
        | none => [.stops]
        | some v =>
          match s.pool.types[definition.type]? with
          | none => [.stops]
          | some t =>
            inspect s reading v definition.type (whileReading reading definition.type t) t ++
              inspectFields s reading declared span rest
                (checked.emplace name.identifier (.mk fieldSpan name value))

end

/-! ## Which findings say that a value does not fit -/

/-- Nothing stops the check, and no misfit is found, reported or not. -/
def Faultless (findings : List Finding) : Prop := .detected ∉ findings ∧ .overlooked ∉ findings

theorem faultless_nil : Faultless [] := ⟨List.not_mem_nil, List.not_mem_nil⟩

theorem faultless_append {xs ys : List Finding} :
    Faultless (xs ++ ys) ↔ Faultless xs ∧ Faultless ys := by
  simp only [Faultless, List.mem_append, not_or]
  exact and_and_and_comm

theorem faultless_finding {reported misfit reportable : Bool}
    (h : .stops ∉ finding reported misfit reportable) :
    misfit = false ↔ Faultless (finding reported misfit reportable) := by
  revert h
  cases reported <;> cases misfit <;> cases reportable <;> simp [finding, Faultless]

/-- Where a place is judged by itself, a value fits exactly if the finding is no misfit. -/
theorem fits_iff_faultless_finding {reported fit reportable : Bool}
    (h : .stops ∉ finding reported (!fit) reportable) :
    fit = true ↔ Faultless (finding reported (!fit) reportable) := by
  rw [← faultless_finding h, Bool.not_eq_false']

theorem inputFields_congr (s : GraphQlSchema) {t t' : TypeNode} (h : t.name = t'.name) :
    s.inputFields t = s.inputFields t' := by
  unfold inputFields named
  rw [h]

/-- A type is checked as it is or, inside of a list for it, as that of its elements. -/
def Current (current t : TypeNode) : Prop := current = t ∨ current = t.element

theorem current_whileReading (reading : List TypeId) (id : TypeId) (t : TypeNode) :
    Current (whileReading reading id t) t := by
  unfold whileReading
  split
  · exact .inr rfl
  · exact .inl rfl

theorem Current.eq_of_isListType {current t : TypeNode} (h : Current current t)
    (hlist : current.isListType = true) : current = t := by
  rcases h with rfl | rfl
  · rfl
  · cases hlist

theorem Current.name {current t : TypeNode} (h : Current current t) : current.name = t.name := by
  rcases h with rfl | rfl <;> rfl

theorem Current.type {current t : TypeNode} (h : Current current t) : current.type = t.type := by
  rcases h with rfl | rfl <;> rfl

/-- The names that stay unchecked. -/
theorem find?_checkedFields {declared : UstringMap InputFieldDefinition} {key : Ustring}
    (hkey : (declared.find? key).isSome) (fields : List ObjectField)
    (checked : UstringMap ObjectField) :
    (checkedFields declared fields checked).find? key = none ↔
      checked.find? key = none ∧ key ∉ fieldNames fields := by
  induction fields generalizing checked with
  | nil => simp [checkedFields, fieldNames]
  | cons field rest ih =>
    have hnames : key ∉ fieldNames (field :: rest) ↔
        key ≠ field.name.identifier ∧ key ∉ fieldNames rest := by
      simp [fieldNames]
    rw [hnames, checkedFields]
    split
    · next hdeclared hchecked =>
      rw [ih, SortedMap.find?_emplace_eq_none, and_assoc, and_left_comm]
    · next hother =>
      rw [ih]
      refine and_congr_right fun hnone => (and_iff_right ?_).symm
      -- a declared name that was unchecked would have been taken up
      rintro rfl
      obtain ⟨definition, hdefinition⟩ := Option.isSome_iff_exists.1 hkey
      exact hother definition hdefinition hnone

theorem faultless_inspectMissing {s : GraphQlSchema} {reading : List TypeId} {span : Span}
    {checked : UstringMap ObjectField} {declared : List (Ustring × InputFieldDefinition)}
    (h : .stops ∉ inspectMissing s reading span checked declared) :
    (∀ f ∈ declared, checked.find? f.1 = none → s.typeIs f.2.type TypeNode.isNullable = true) ↔
      Faultless (inspectMissing s reading span checked declared) := by
  induction declared with
  | nil => simp [inspectMissing, Faultless]
  | cons f declared ih =>
    rw [inspectMissing, List.flatMap_cons, ← inspectMissing] at h ⊢
    rw [List.mem_append, not_or] at h
    rw [faultless_append, List.forall_mem_cons, ih h.2]
    refine and_congr_left fun _ => ?_
    have hfirst := h.1
    by_cases hchecked : (checked.find? f.1).isSome
    · have hsome : checked.find? f.1 ≠ none := Option.isSome_iff_ne_none.1 hchecked
      simp [hsome, hchecked, faultless_nil]
    · have hnone : checked.find? f.1 = none := Option.not_isSome_iff_eq_none.1 hchecked
      rw [if_neg hchecked] at hfirst ⊢
      cases htype : s.pool.types[f.2.type]? with
      | none =>
        rw [htype] at hfirst
        exact absurd (List.mem_singleton.2 rfl) hfirst
      | some t =>
        rw [htype] at hfirst
        have hnullable : s.typeIs f.2.type TypeNode.isNullable = t.isNullable := by
          rw [typeIs, htype]
          rfl
        rw [hnullable]
        exact (forall_prop_of_true hnone).trans (fits_iff_faultless_finding hfirst)

theorem fits_object (s : GraphQlSchema) (span : Span) (fields : List ObjectField) (t : TypeNode)
    {declared : UstringMap InputFieldDefinition} (hdeclared : s.inputFields t = some declared)
    (htype : t.type = .object) : fits s (.object span fields) t = true ↔
      t.isListType = false ∧ (fieldsFit s declared fields = true ∧ (fieldNames fields).Nodup) ∧
        ∀ f ∈ declared.entries, f.1 ∉ fieldNames fields →
          s.typeIs f.2.type TypeNode.isNullable = true := by
  simp only [fits, hdeclared, htype, namesComplete, decide_true, Bool.and_true, Bool.and_eq_true,
    Bool.not_eq_true', decide_eq_true_eq, List.all_eq_true, Bool.or_eq_true, List.contains_iff_mem,
    and_assoc]
  refine and_congr_right fun _ => and_congr_right fun _ => and_congr_right fun _ =>
    forall₂_congr fun f _ => ?_
  rw [or_iff_not_imp_right]

mutual

/-- A value fits exactly if no misfit is found in it, unless the check stops. -/
theorem fits_iff_faultless (s : GraphQlSchema) (value : Value) {reading : List TypeId} {id : TypeId}
    {current t : TypeNode} (hcurrent : Current current t)
    (hstops : .stops ∉ inspect s reading value id current t) :
    fits s value t = true ↔ Faultless (inspect s reading value id current t) := by
  cases value with
  | null => exact fits_iff_faultless_finding hstops
  | string => exact fits_iff_faultless_finding hstops
  | int => exact fits_iff_faultless_finding hstops
  | float => exact fits_iff_faultless_finding hstops
  | boolean => exact fits_iff_faultless_finding hstops
  | enum => exact fits_iff_faultless_finding hstops
  | list span kind values =>
    rw [inspect] at hstops ⊢
    split at hstops
    · next hlist =>
      obtain rfl := hcurrent.eq_of_isListType hlist
      rw [if_pos hlist, fits, hlist, Bool.true_and]
      exact allFit_iff_faultless s values (.inl rfl) hstops
    · next hlist =>
      rw [if_neg hlist]
      exact fits_iff_faultless_finding hstops
  | object span fields =>
    rw [inspect] at hstops ⊢
    split at hstops
    · exact absurd (List.mem_singleton.2 rfl) hstops
    next htype =>
    rw [if_neg htype]
    split at hstops
    · exact absurd (List.mem_singleton.2 rfl) hstops
    next declared hdeclared =>
    simp only [List.mem_append, not_or] at hstops
    obtain ⟨hself, hfields, hmissing⟩ := hstops
    simp only [not_or, ne_eq, not_not] at htype
    rw [inputFields_congr s hcurrent.name] at hdeclared
    rw [fits_object s span fields t hdeclared (hcurrent.type.symm.trans htype.1), faultless_append,
      faultless_append, ← faultless_finding hself,
      ← fieldsFit_iff_faultless s declared fields hfields, ← faultless_inspectMissing hmissing]
    simp only [SortedMap.find?_empty, implies_true, and_true]
    refine and_congr_right fun _ => and_congr_right fun _ => forall₂_congr fun f hf => ?_
    have hkey : (declared.find? f.1).isSome := by
      rw [SortedMap.mem_entries_iff.1 hf]
      rfl
    rw [find?_checkedFields hkey, SortedMap.find?_empty]
    simp

theorem allFit_iff_faultless (s : GraphQlSchema) (values : List Value) {reading : List TypeId}
    {id : TypeId} {current t : TypeNode} (hcurrent : Current current t)
    (hstops : .stops ∉ inspectAll s reading values id current t) :
    allFit s values t = true ↔ Faultless (inspectAll s reading values id current t) := by
  cases values with
  | nil => exact iff_of_true rfl faultless_nil
  | cons value values =>
    rw [inspectAll] at hstops ⊢
    rw [List.mem_append, not_or] at hstops
    rw [allFit, Bool.and_eq_true, faultless_append, fits_iff_faultless s value hcurrent hstops.1,
      allFit_iff_faultless s values hcurrent hstops.2]

theorem fieldsFit_iff_faultless (s : GraphQlSchema) (declared : UstringMap InputFieldDefinition)
    (fields : List ObjectField) {reading : List TypeId} {span : Span}
    {checked : UstringMap ObjectField}
    (hstops : .stops ∉ inspectFields s reading declared span fields checked) :
    ((fieldsFit s declared fields = true ∧ (fieldNames fields).Nodup) ∧
        ∀ name ∈ fieldNames fields, checked.find? name = none) ↔
      Faultless (inspectFields s reading declared span fields checked) := by
  cases fields with
  | nil => exact iff_of_true ⟨⟨rfl, List.nodup_nil⟩, List.forall_mem_nil _⟩ faultless_nil
  | cons field rest =>
    obtain ⟨fieldSpan, name, value⟩ := field
    have hnames : fieldNames (.mk fieldSpan name value :: rest) =
        name.identifier :: fieldNames rest := rfl
    rw [inspectFields] at hstops ⊢
    rw [fieldsFit, hnames, List.nodup_cons, List.forall_mem_cons, Bool.and_eq_true]
    cases hdeclared : declared.find? name.identifier with
    | none =>
      rw [hdeclared] at hstops
      simp only [List.mem_append, not_or] at hstops
      simp only [faultless_append, ← faultless_finding hstops.1]
      simp
    | some definition =>
      rw [hdeclared] at hstops
      cases hchecked : checked.find? name.identifier with
      | some first =>
        simp only [hchecked, List.mem_append, not_or] at hstops
        simp only [faultless_append, ← faultless_finding hstops.1]
        simp
      | none =>
        cases value with
        | none =>
          simp only [hchecked] at hstops
          exact absurd (List.mem_singleton.2 rfl) hstops
        | some v =>
          cases htype : s.pool.types[definition.type]? with
          | none =>
            simp only [hchecked, htype] at hstops
            exact absurd (List.mem_singleton.2 rfl) hstops
          | some t =>
            simp only [hchecked, htype, List.mem_append, not_or] at hstops
            have hfirst := fits_iff_faultless s v (current_whileReading reading definition.type t)
              hstops.1
            have hrest := fieldsFit_iff_faultless s declared rest hstops.2
            simp only [htype, faultless_append, ← hfirst, ← hrest, SortedMap.find?_emplace_eq_none]
            constructor
            · rintro ⟨⟨⟨hfits, hall⟩, hnotin, hnodup⟩, hfree, hothers⟩
              refine ⟨hfits, ⟨hall, hnodup⟩, fun key hkey => ⟨?_, hothers key hkey⟩⟩
              rintro rfl
              exact hnotin hkey
            · rintro ⟨hfits, ⟨hall, hnodup⟩, hothers⟩
              exact ⟨⟨⟨hfits, hall⟩, fun hkey => (hothers _ hkey).1 rfl, hnodup⟩, trivial,
                fun key hkey => (hothers key hkey).2⟩

end

end GraphQlSchema

end Flashpoint
