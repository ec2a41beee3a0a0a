import Flashpoint.Schema.Assignable

/-!
# Checking values

A run of `check_value` reports exactly what is found of the value (`yields_checkValue`), and leaves the
types as they were. So it is right about a value (`Judges`) exactly if nothing stops it and a misfit is
detected, or false alarms and misfits that are overlooked occur both or neither.
-/

namespace Flashpoint

open Library Climb

namespace GraphQlSchema

open ParserM

def withTypes (s : GraphQlSchema) (types : List TypeNode) (diagnostics : List DiagnosticMessage) :
    GraphQlSchema :=
  { s with pool := { s.pool with types }, diagnostics }

/-- The schema while the elements of lists for the given types are checked, with the diagnostics so
far. -/
def during (s : GraphQlSchema) (reading : List TypeId) (diagnostics : List DiagnosticMessage) :
    GraphQlSchema :=
  s.withTypes (s.pool.types.mapIdx (whileReading reading)) diagnostics

/-- What a type that is used for values names: a scalar, an enum or an input object, where the fields of
that one have such types too if its body was read. -/
inductive NamesInput (s : GraphQlSchema) (t : TypeNode) : Prop where
  | scalar (htype : t.type ∈ [.int, .float, .string, .boolean, .id])
  | enum (htype : t.type = .enum) {name : Name} (hname : t.name = some name)
  | inputObject (htype : t.type = .object) {name : Name} (hname : t.name = some name)
      {symbol : Symbol} (hsymbol : s.members.symbols.find? name.identifier = some symbol)
      (hkind : symbol.kind = .inputObject) {o : InputObject}
      (hdeclaration : s.pool.declarations[symbol.declaration]? = some (.inputObject o))
      (hbody : ∀ fields, o.fields = some fields → o.name.isSome = true ∧
        ∀ f ∈ fields.entries, ∃ t', s.pool.types[f.2.type]? = some t' ∧ t'.inInputLocation = true)

/-- The types of a schema that stand in an input location name what they may name. -/
def TypesResolve (s : GraphQlSchema) : Prop :=
  ∀ t ∈ s.pool.types, t.inInputLocation = true → s.NamesInput t

/-! ## Runs with findings -/

section Yields

variable {s : GraphQlSchema} {reading : List TypeId} {α β : Type}

/-- A run ends with a value, and has reported something if that was found; or it stops. -/
def Yields (s : GraphQlSchema) (reading : List TypeId) (m : SchemaM α) (a : α)
    (findings : List Finding) : Prop :=
  ∀ d, (.stops ∈ findings → ∃ e s', m.run (s.during reading d) = .stop e s') ∧
    (.stops ∉ findings → ∃ new, m.run (s.during reading d) = .ok a (s.during reading (d ++ new)) ∧
      (new = [] ↔ .detected ∉ findings ∧ .falseAlarm ∉ findings))

theorem yields_pure (a : α) : Yields s reading (pure a) a [] := by
  intro d
  refine ⟨fun h => absurd h List.not_mem_nil, fun _ => ⟨[], ?_, ?_⟩⟩
  · rw [List.append_nil]
    rfl
  · exact iff_of_true rfl ⟨List.not_mem_nil, List.not_mem_nil⟩

theorem yields_bind {m : SchemaM α} {k : α → SchemaM β} {a : α} {b : β} {xs ys : List Finding}
    (hm : Yields s reading m a xs) (hk : Yields s reading (k a) b ys) :
    Yields s reading (m >>= k) b (xs ++ ys) := by
  intro d
  by_cases hfirst : .stops ∈ xs
  · refine ⟨fun _ => ?_, fun hnone => absurd (List.mem_append_left ys hfirst) hnone⟩
    obtain ⟨e, s', hrun⟩ := (hm d).1 hfirst
    exact ⟨e, s', run_bind_stop hrun⟩
  · obtain ⟨new, hrun, hnew⟩ := (hm d).2 hfirst
    rw [List.mem_append, or_iff_right hfirst, run_bind_ok hrun]
    refine ⟨(hk (d ++ new)).1, fun hnone => ?_⟩
    obtain ⟨more, hrun', hmore⟩ := (hk (d ++ new)).2 hnone
    refine ⟨new ++ more, by rw [hrun', List.append_assoc], ?_⟩
    rw [List.append_eq_nil_iff, hnew, hmore]
    simp only [List.mem_append, not_or]
    exact and_and_and_comm

/-- A step that only reads. -/
theorem yields_reads {m : SchemaM α} {k : α → SchemaM β} {a : α} {b : β} {ys : List Finding}
    (hm : ∀ d, m.run (s.during reading d) = .ok a (s.during reading d))
    (hk : Yields s reading (k a) b ys) : Yields s reading (m >>= k) b ys := by
  intro d
  rw [run_bind_ok (hm d)]
  exact hk d

/-- A report that is made, or an end of the check. -/
def Reports (s : GraphQlSchema) (reading : List TypeId) (m : SchemaM Unit) (reportable : Bool) : Prop :=
  ∀ d, (reportable = true → ∃ new, new ≠ [] ∧
      m.run (s.during reading d) = .ok () (s.during reading (d ++ new))) ∧
    (reportable = false → ∃ e s', m.run (s.during reading d) = .stop e s')

theorem Reports.yields {m : SchemaM Unit} {reportable : Bool} (h : Reports s reading m reportable)
    (misfit : Bool) : Yields s reading m () (finding true misfit reportable) := by
  intro d
  cases reportable with
  | false =>
    refine ⟨fun _ => (h d).2 rfl, fun hnone => ?_⟩
    exact absurd (List.mem_singleton.2 rfl) hnone
  | true =>
    obtain ⟨new, hne, hrun⟩ := (h d).1 rfl
    refine ⟨fun hstops => ?_, fun _ => ⟨new, hrun, ?_⟩⟩
    · cases misfit <;> simp [finding] at hstops
    · refine iff_of_false hne ?_
      cases misfit <;> simp [finding]

theorem yields_when {c : Prop} [Decidable c] {m : SchemaM Unit} {reported reportable : Bool}
    (hc : c ↔ reported = true) (h : Reports s reading m reportable) (misfit : Bool) :
    Yields s reading (when c m) () (finding reported misfit reportable) := by
  cases reported with
  | true =>
    rw [when, if_pos (hc.2 rfl)]
    exact h.yields misfit
  | false =>
    rw [when, if_neg (fun hcond => Bool.false_ne_true (hc.1 hcond))]
    intro d
    refine ⟨fun hstops => ?_, fun _ => ⟨[], ?_, ?_⟩⟩
    · cases misfit <;> simp [finding] at hstops
    · rw [List.append_nil]
      rfl
    · cases misfit <;> simp [finding]

/-- What would follow on a stop is not run. -/
theorem yields_bind_stops {m : SchemaM α} {k : α → SchemaM β} {a : α} {b : β}
    (h : Yields s reading m a [.stops]) : Yields s reading (m >>= k) b [.stops] := by
  refine fun d => ⟨fun hstops => ?_, fun hnone => absurd (List.mem_singleton.2 rfl) hnone⟩
  obtain ⟨e, s', hrun⟩ := (h d).1 hstops
  exact ⟨e, s', run_bind_stop hrun⟩

theorem yields_stops {m : SchemaM α} {a : α}
    (h : ∀ d, ∃ e s', m.run (s.during reading d) = .stop e s') :
    Yields s reading m a [.stops] :=
  fun d => ⟨fun _ => h d, fun hnone => absurd (List.mem_singleton.2 rfl) hnone⟩

/-- A misfit of which nothing is reported. -/
theorem Yields.overlooking {m : SchemaM α} {a : α} {findings : List Finding} (misfit reportable : Bool)
    (h : Yields s reading m a findings) :
    Yields s reading m a (finding false misfit reportable ++ findings) := by
  intro d
  have hsame : ∀ x, x ≠ .overlooked →
      (x ∈ finding false misfit reportable ++ findings ↔ x ∈ findings) := by
    intro x hx
    cases misfit <;> simp [finding, hx]
  simp only [hsame .stops (by decide), hsame .detected (by decide), hsame .falseAlarm (by decide)]
  exact h d

/-! ## Reports -/

theorem reports_addDiagnosticAt {location : Location} {template : D} {arguments : List Ustring} :
    Reports s reading (addDiagnosticAt location template arguments) true :=
  fun _ => ⟨fun _ => ⟨[⟨template, arguments, location⟩], List.cons_ne_nil _ _, rfl⟩, nofun⟩

theorem reports_reads {m : SchemaM α} {k : α → SchemaM Unit} {a : α} {reportable : Bool}
    (hm : ∀ d, m.run (s.during reading d) = .ok a (s.during reading d))
    (hk : Reports s reading (k a) reportable) : Reports s reading (m >>= k) reportable := by
  intro d
  rw [run_bind_ok (hm d)]
  exact hk d

/-- What a report needs may be missing. -/
theorem reports_require {e : Stop} {f : GraphQlSchema → Option α} {found : Option α}
    {k : α → SchemaM Unit} {reportable : Bool} (hf : ∀ d, f (s.during reading d) = found)
    (hk : ∀ a, Reports s reading (k a) reportable) :
    Reports s reading (Climb.require e f >>= k) (found.isSome && reportable) := by
  cases found with
  | none =>
    rw [Option.isSome_none, Bool.false_and]
    exact fun d => ⟨nofun, fun _ => ⟨_, _, run_bind_stop (run_require_none (hf d))⟩⟩
  | some a =>
    rw [Option.isSome_some, Bool.true_and]
    exact reports_reads (fun d => run_require_some (hf d)) (hk a)

/-- A report at a node, whose place may not be found. -/
theorem reports_getLocationFromSyntax {span : Span} {k : Location → SchemaM Unit} {reportable : Bool}
    (hk : ∀ location, Reports s reading (k location) reportable) :
    Reports s reading (getLocationFromSyntax span >>= k) (s.located span && reportable) :=
  reports_require (fun _ => rfl) hk

/-- The name of a type that names what it may name can be read. -/
theorem NamesInput.run_getTypeName {t current : TypeNode} (h : s.NamesInput t)
    (hcurrent : Current current t) :
    ∃ text, ∀ s', (getTypeName current : SchemaM Ustring).run s' = .ok text s' := by
  suffices hname : ∃ text, ∀ s', (typeNameText current : SchemaM Ustring).run s' = .ok text s' by
    obtain ⟨text, htext⟩ := hname
    exact ⟨_, fun s' => run_bind_ok (htext s')⟩
  have hnamed : ∀ name : Name, t.name = some name → ∀ s' : GraphQlSchema,
      (follow current.name >>= fun n => pure n.identifier : SchemaM Ustring).run s' =
        .ok name.identifier s' := by
    intro name hname s'
    have hfollow : (follow current.name : SchemaM Name).run s' = .ok name s' :=
      run_require_some (hcurrent.name.trans hname)
    rw [run_bind_ok hfollow]
    rfl
  unfold typeNameText
  rw [hcurrent.type]
  cases h with
  | scalar htype =>
    simp only [List.mem_cons, List.not_mem_nil, or_false] at htype
    rcases htype with htype | htype | htype | htype | htype <;> rw [htype] <;>
      exact ⟨_, fun s' => rfl⟩
  | enum htype hname =>
    rw [htype]
    exact ⟨_, hnamed _ hname⟩
  | inputObject htype hname =>
    rw [htype]
    exact ⟨_, hnamed _ hname⟩

theorem NamesInput.reports_getTypeName {t current : TypeNode} (h : s.NamesInput t)
    (hcurrent : Current current t) {k : Ustring → SchemaM Unit}
    (hk : ∀ text, Reports s reading (k text) true) :
    Reports s reading (getTypeName current >>= k) true := by
  obtain ⟨text, htext⟩ := h.run_getTypeName hcurrent
  exact reports_reads (fun _ => htext _) (hk text)

theorem NamesInput.reports_reportNotAssignable {t current : TypeNode} (h : s.NamesInput t)
    (hcurrent : Current current t) (value : Value) :
    Reports s reading (reportNotAssignable value current)
      (s.located value.span && (getValueString value).isSome) :=
  reports_getLocationFromSyntax fun _ => by
    rw [← Bool.and_true (getValueString value).isSome]
    exact reports_require (fun _ => rfl) fun _ =>
      h.reports_getTypeName hcurrent fun _ => reports_addDiagnosticAt

/-- More may follow on a report that is always made, or stop. -/
theorem Reports.and_then {m k : SchemaM Unit} {reportable : Bool} (h : Reports s reading m true)
    (hk : ∀ d, (reportable = true → ∃ more, k.run (s.during reading d) =
        .ok () (s.during reading (d ++ more))) ∧
      (reportable = false → ∃ e s', k.run (s.during reading d) = .stop e s')) :
    Reports s reading (m >>= fun _ => k) reportable := by
  intro d
  obtain ⟨new, hne, hrun⟩ := (h d).1 rfl
  rw [run_bind_ok hrun]
  refine ⟨fun hreportable => ?_, (hk (d ++ new)).2⟩
  obtain ⟨more, hmore⟩ := (hk (d ++ new)).1 hreportable
  rw [hmore, List.append_assoc]
  exact ⟨new ++ more, List.append_ne_nil_of_left_ne_nil hne more, rfl⟩

theorem reports_reportDuplicateField {span first : Span} {name : Ustring} :
    Reports s reading (reportDuplicateField span first name) (s.located span && s.located first) := by
  refine reports_getLocationFromSyntax fun location => ?_
  refine reports_addDiagnosticAt.and_then fun d => ?_
  unfold located
  cases hfirst : s.scanner.getTokenLocation first.start first.stop with
  | none =>
    have hplace : (getLocationFromSyntax first).run (s.during reading d) =
        .stop .exception (s.during reading d) := run_require_none hfirst
    exact ⟨nofun, fun _ => ⟨_, _, run_bind_stop (run_bind_stop hplace)⟩⟩
  | some place =>
    refine ⟨fun _ => ?_, nofun⟩
    have hplace : (getLocationFromSyntax first).run (s.during reading d) =
        .ok place (s.during reading d) := run_require_some hfirst
    have hreported : ∃ reported, (hasDiagnosticInSyntax first .duplicateField0).run
        (s.during reading d) = .ok reported (s.during reading d) := ⟨_, run_bind_ok hplace⟩
    obtain ⟨reported, hreported⟩ := hreported
    rw [run_bind_ok hreported, when]
    split
    · rw [run_bind_ok hplace]
      exact ⟨_, rfl⟩
    · exact ⟨[], by rw [List.append_nil]; rfl⟩

/-! ## Types while the elements of lists are checked -/

theorem during_nil (diagnostics : List DiagnosticMessage) :
    s.during [] diagnostics = { s with diagnostics } := by
  have htypes : s.pool.types.mapIdx (whileReading []) = s.pool.types := by
    refine List.ext_getElem? fun i => ?_
    rw [List.getElem?_mapIdx]
    exact Option.map_id_apply
  rw [during, htypes]
  rfl

theorem getElem?_mapIdx_whileReading {types : List TypeNode} {id : TypeId} {t : TypeNode}
    (ht : types[id]? = some t) :
    (types.mapIdx (whileReading reading))[id]? = some (whileReading reading id t) := by
  rw [List.getElem?_mapIdx, ht, Option.map_some]

theorem run_typeNode_during {id : TypeId} {t : TypeNode} (ht : s.pool.types[id]? = some t)
    (d : List DiagnosticMessage) : (typeNode id).run (s.during reading d) =
      .ok (whileReading reading id t) (s.during reading d) :=
  run_require_some (getElem?_mapIdx_whileReading ht)

/-- The types while the elements of one more list are checked. -/
theorem modify_whileReading (types : List TypeNode) (reading : List TypeId) (id : TypeId) :
    (types.mapIdx (whileReading reading)).modify id
        (fun t => { t with isListType := false, isNonNullList := false }) =
      types.mapIdx (whileReading (id :: reading)) := by
  refine List.ext_getElem? fun i => ?_
  rw [List.getElem?_modify, List.getElem?_mapIdx, List.getElem?_mapIdx]
  cases types[i]? with
  | none => rfl
  | some t =>
    simp only [Option.map_some, Option.map_eq_map, Option.some.injEq]
    by_cases hi : id = i
    · subst hi
      simp only [if_true, whileReading, List.mem_cons, true_or]
      split <;> rfl
    · simp only [hi, if_false, whileReading, List.mem_cons, Ne.symm hi, false_or]

theorem whileReading_cons_self (reading : List TypeId) (id : TypeId) (t : TypeNode) :
    whileReading (id :: reading) id t = (whileReading reading id t).element := by
  rw [whileReading, if_pos List.mem_cons_self, whileReading]
  split <;> rfl

/-- The elements of a list are checked with the flags of its type cleared, which are restored. -/
theorem yields_elements {m : SchemaM Unit} {findings : List Finding} {id : TypeId} {t : TypeNode}
    (ht : s.pool.types[id]? = some t) (hlist : (whileReading reading id t).isListType = true)
    (hm : Yields s (id :: reading) m () findings) :
    Yields s reading (do
      modifyType id fun t => { t with isListType := false, isNonNullList := false }
      m
      modifyType id fun u =>
        { u with isListType := true, isNonNullList := (whileReading reading id t).isNonNullList })
      () findings := by
  have hmodify : ∀ f types d, (modifyType id f).run (s.withTypes types d) =
      .ok () (s.withTypes (types.modify id f) d) := fun _ _ _ => rfl
  have hclear : ∀ d, (modifyType id fun t =>
      { t with isListType := false, isNonNullList := false }).run (s.during reading d) =
        .ok () (s.during (id :: reading) d) := by
    intro d
    rw [during, hmodify, modify_whileReading]
    rfl
  have hrestore : ∀ d, (modifyType id fun u => { u with
      isListType := true, isNonNullList := (whileReading reading id t).isNonNullList }).run
        (s.during (id :: reading) d) = .ok () (s.during reading d) := by
    intro d
    rw [during, hmodify, ← modify_whileReading,
      modify_restore (getElem?_mapIdx_whileReading ht) hlist]
    rfl
  intro d
  rw [run_bind_ok (hclear d)]
  refine ⟨fun hstops => ?_, fun hnone => ?_⟩
  · obtain ⟨e, s', hrun⟩ := (hm d).1 hstops
    exact ⟨e, s', run_bind_stop hrun⟩
  · obtain ⟨new, hrun, hnew⟩ := (hm d).2 hnone
    rw [run_bind_ok hrun]
    exact ⟨new, hrestore _, hnew⟩

/-! ## Fields that a literal leaves out -/

theorem yields_forM {xs : List α} {f : α → SchemaM Unit} {found : α → List Finding}
    (hf : ∀ x ∈ xs, Yields s reading (f x) () (found x)) :
    Yields s reading (xs.forM f) () (xs.flatMap found) := by
  induction xs with
  | nil => exact yields_pure ()
  | cons x xs ih =>
    rw [List.flatMap_cons]
    exact yields_bind (hf x List.mem_cons_self) (ih fun y hy => hf y (List.mem_cons_of_mem x hy))

theorem yields_reportMissingFields {span : Span} {checked : UstringMap ObjectField}
    {fields : UstringMap InputFieldDefinition}
    (htypes : ∀ f ∈ fields.entries, ∃ t, s.pool.types[f.2.type]? = some t) :
    Yields s reading (reportMissingFields span checked fields) ()
      (inspectMissing s reading span checked fields.entries) := by
  refine yields_forM fun f hf => ?_
  obtain ⟨t, ht⟩ := htypes f hf
  refine yields_reads (run_typeNode_during ht) ?_
  have hreport : Reports s reading (do
      let location ← getLocationFromSyntax span
      addDiagnosticAt location .missingRequiredField0 [f.2.name.identifier]) (s.located span) := by
    rw [← Bool.and_true (s.located span)]
    exact reports_getLocationFromSyntax fun _ => reports_addDiagnosticAt
  by_cases hchecked : (checked.find? f.1).isSome
  · rw [if_pos hchecked, when, if_neg fun hmissing =>
      Option.isSome_iff_ne_none.1 hchecked hmissing.2]
    exact yields_pure ()
  · rw [if_neg hchecked, ht]
    refine yields_when ?_ hreport _
    rw [and_iff_left (Option.not_isSome_iff_eq_none.1 hchecked), Bool.or_eq_true]

/-- The fields that are taken up are declared. -/
theorem keys_checkedFields_subset {declared : UstringMap InputFieldDefinition}
    {fields : List ObjectField} {checked : UstringMap ObjectField}
    (h : checked.entries.map Prod.fst ⊆ declared.entries.map Prod.fst) :
    (checkedFields declared fields checked).entries.map Prod.fst ⊆
      declared.entries.map Prod.fst := by
  induction fields generalizing checked with
  | nil => exact h
  | cons field rest ih =>
    rw [checkedFields]
    split
    · next hdeclared _ =>
      refine ih fun key hkey => ?_
      rcases SortedMap.mem_keys_emplace.1 hkey with hkey | rfl
      · exact h hkey
      · rw [SortedMap.mem_keys_iff, hdeclared]
        rfl
    · exact ih h

/-- Unless fewer fields are taken up than are declared, none is missing. -/
theorem inspectMissing_eq_nil {span : Span} {checked : UstringMap ObjectField}
    {declared : UstringMap InputFieldDefinition}
    (hkeys : checked.entries.map Prod.fst ⊆ declared.entries.map Prod.fst)
    (hsize : ¬ checked.size < declared.size) :
    inspectMissing s reading span checked declared.entries = [] := by
  refine List.flatMap_eq_nil_iff.2 fun f hf => ?_
  have hkey := SortedMap.keys_subset_of_size_le hkeys (Nat.le_of_not_lt hsize)
    (List.mem_map_of_mem hf)
  rw [if_pos (SortedMap.mem_keys_iff.1 hkey)]

theorem yields_missingFields {span : Span} {checked : UstringMap ObjectField}
    {declared : UstringMap InputFieldDefinition}
    (hkeys : checked.entries.map Prod.fst ⊆ declared.entries.map Prod.fst)
    (htypes : ∀ f ∈ declared.entries, ∃ t, s.pool.types[f.2.type]? = some t) :
    Yields s reading
      (when (checked.size < declared.size) (reportMissingFields span checked declared)) ()
      (inspectMissing s reading span checked declared.entries) := by
  by_cases hsize : checked.size < declared.size
  · rw [when, if_pos hsize]
    exact yields_reportMissingFields htypes
  · rw [when, if_neg hsize, inspectMissing_eq_nil hkeys hsize]
    exact yields_pure ()

end Yields

theorem inputFields_eq {s : GraphQlSchema} {t : TypeNode} {name : Name} {symbol : Symbol}
    {o : InputObject} (hname : t.name = some name)
    (hsymbol : s.members.symbols.find? name.identifier = some symbol)
    (hdeclaration : s.pool.declarations[symbol.declaration]? = some (.inputObject o)) :
    s.inputFields t = o.fields := by
  have hnamed : s.named t = some (.inputObject o) := by
    simp only [named, hname, hsymbol, hdeclaration, Option.bind_eq_bind, Option.bind_some]
  rw [inputFields, hnamed]

/-! ## What a run reports -/

section Runs

variable {s : GraphQlSchema} {reading : List TypeId} {id : TypeId} {t : TypeNode}

theorem TypesResolve.namesInput (hs : s.TypesResolve) (ht : s.pool.types[id]? = some t)
    (hin : t.inInputLocation = true) : s.NamesInput t :=
  hs t (List.mem_of_getElem? ht) hin

/-- A literal that is judged by the tag of the type alone. -/
theorem yields_scalar (hs : s.TypesResolve) (ht : s.pool.types[id]? = some t)
    (hin : t.inInputLocation = true) {value : Value} {text : Ustring}
    (hvalue : getValueString value = some text) {c : TypeNode → Prop} [DecidablePred c]
    {reported misfit : Bool}
    (hc : c (whileReading reading id t) ↔ reported = true) :
    Yields s reading (do
      let type ← typeNode id
      when (c type) (reportNotAssignable value type)) ()
      (finding reported misfit (s.located value.span)) := by
  refine yields_reads (run_typeNode_during ht) (yields_when hc ?_ misfit)
  rw [← Bool.and_true (s.located value.span), ← Option.isSome_some (a := text), ← hvalue]
  exact (hs.namesInput ht hin).reports_reportNotAssignable (current_whileReading reading id t) value

mutual

theorem yields_checkValue (hs : s.TypesResolve) (value : Value) {reading : List TypeId}
    {id : TypeId} {t : TypeNode} (ht : s.pool.types[id]? = some t) (hin : t.inInputLocation = true) (fit : TypeNode) :
    Yields s reading (checkValue value id) ()
      (inspect s reading value id (whileReading reading id t) fit) := by
  have hnames := hs.namesInput ht hin
  have hcurrent := current_whileReading reading id t
  cases value with
  | null span =>
    unfold checkValue inspect
    refine yields_reads (run_typeNode_during ht) (yields_when ?_ ?_ _)
    · simp
    · rw [← Bool.and_true (s.located span)]
      exact reports_getLocationFromSyntax fun _ =>
        hnames.reports_getTypeName hcurrent fun _ => reports_addDiagnosticAt
  | string span text =>
    unfold checkValue inspect
    exact yields_scalar hs ht hin rfl (by simp)
  | int span n =>
    unfold checkValue inspect
    exact yields_scalar hs ht hin rfl (by simp)
  | float span text =>
    unfold checkValue inspect
    exact yields_scalar hs ht hin rfl (by simp)
  | boolean span b =>
    unfold checkValue inspect
    exact yields_scalar hs ht hin rfl (by simp)
  | enum span text =>
    unfold checkValue inspect
    exact yields_scalar hs ht hin rfl (by simp)
  | list span kind values =>
    unfold checkValue inspect
    refine yields_reads (run_typeNode_during ht) ?_
    split
    · next hlist =>
      rw [if_neg (by rw [hlist]; exact Bool.false_ne_true)]
      exact (hnames.reports_reportNotAssignable hcurrent _).yields _
    · next hlist =>
      have hislist := Bool.of_not_eq_false hlist
      rw [if_pos hislist, ← whileReading_cons_self]
      exact yields_elements ht hislist (yields_checkValues hs values ht hin fit.element)
  | object span fields =>
    unfold checkValue inspect
    refine yields_reads (run_typeNode_during ht) ?_
    split
    · next hother =>
      -- an object has no text, so that the report throws
      have hreport : Yields s reading
          (reportNotAssignable (.object span fields) (whileReading reading id t)) () [.stops] := by
        refine yields_stops fun d => ?_
        exact (hnames.reports_reportNotAssignable hcurrent (.object span fields) d).2
          (Bool.and_false _)
      rw [when, if_pos hother]
      exact yields_bind_stops hreport
    next hobject =>
    rw [when, if_neg hobject]
    refine yields_reads (fun _ => rfl) ?_
    have htype : t.type = .object := by
      rw [← hcurrent.type]
      exact not_not.1 fun hother => hobject (.inl hother)
    cases hnames with
    | scalar hscalar =>
      rw [htype] at hscalar
      exact absurd hscalar (by decide)
    | enum henum => cases htype.symm.trans henum
    | @inputObject _ name hname symbol hsymbol hkind o hdeclaration hbody =>
      refine yields_reads (fun _ => run_require_some (hcurrent.name.trans hname)) ?_
      refine yields_reads (a := s.members.symbols) (fun _ => rfl) ?_
      rw [inputFields_eq (hcurrent.name.trans hname) hsymbol hdeclaration]
      simp only [hsymbol, hkind, ne_eq, not_true_eq_false, if_false]
      refine yields_reads (fun _ => run_require_some hdeclaration) ?_
      cases hfields : o.fields with
      | none => exact yields_stops fun _ => ⟨_, _, run_bind_stop (run_require_none hfields)⟩
      | some declared =>
      obtain ⟨hinputName, htypes⟩ := hbody declared hfields
      obtain ⟨inputName, hinputName⟩ := Option.isSome_iff_exists.1 hinputName
      refine yields_reads (fun _ => run_require_some hfields) ?_
      refine yields_reads (fun _ => run_require_some hinputName) ?_
      refine Yields.overlooking _ _ (yields_bind
        (yields_checkObjectFields hs htypes _ span fields ∅) (yields_missingFields ?_ ?_))
      · exact keys_checkedFields_subset (List.nil_subset _)
      · intro f hf
        obtain ⟨t', ht', -⟩ := htypes f hf
        exact ⟨t', ht'⟩

theorem yields_checkValues (hs : s.TypesResolve) (values : List Value) {reading : List TypeId}
    {id : TypeId} {t : TypeNode} (ht : s.pool.types[id]? = some t) (hin : t.inInputLocation = true)
    (fit : TypeNode) : Yields s reading (checkValues values id) ()
      (inspectAll s reading values id (whileReading reading id t) fit) := by
  cases values with
  | nil =>
    unfold checkValues inspectAll
    exact yields_pure ()
  | cons value values =>
    unfold checkValues inspectAll
    exact yields_bind (yields_checkValue hs value ht hin fit) (yields_checkValues hs values ht hin fit)

theorem yields_checkObjectFields (hs : s.TypesResolve) {declared : UstringMap InputFieldDefinition}
    (htypes : ∀ f ∈ declared.entries, ∃ t, s.pool.types[f.2.type]? = some t ∧
      t.inInputLocation = true) (inputName : Ustring) (span : Span) (fields : List ObjectField)
    {reading : List TypeId} (checked : UstringMap ObjectField) :
    Yields s reading (checkObjectFields declared inputName span fields checked)
      (checkedFields declared fields checked)
      (inspectFields s reading declared span fields checked) := by
  cases fields with
  | nil =>
    unfold checkObjectFields inspectFields checkedFields
    exact yields_pure checked
  | cons field rest =>
    obtain ⟨fieldSpan, name, value⟩ := field
    unfold checkObjectFields inspectFields checkedFields
    cases hdeclared : declared.find? name.identifier with
    | none =>
      simp only [ObjectField.name, hdeclared]
      have hreport : Reports s reading (do
          let location ← getLocationFromSyntax span
          addDiagnosticAt location .field0DoesNotExistOnType1 [name.identifier, inputName])
          (s.located span) := by
        rw [← Bool.and_true (s.located span)]
        exact reports_getLocationFromSyntax fun _ => reports_addDiagnosticAt
      rw [← bind_assoc]
      exact yields_bind (hreport.yields true)
        (yields_checkObjectFields hs htypes inputName span rest checked)
    | some definition =>
      obtain ⟨t, ht, hin⟩ := htypes (name.identifier, definition)
        (SortedMap.mem_entries_iff.2 hdeclared)
      cases hchecked : checked.find? name.identifier with
      | some first =>
        simp only [ObjectField.name, hdeclared, hchecked]
        exact yields_bind (reports_reportDuplicateField.yields true)
          (yields_checkObjectFields hs htypes inputName span rest checked)
      | none =>
        cases value with
        | none =>
          simp only [ObjectField.name, hdeclared, hchecked]
          exact yields_stops fun d => ⟨_, _, run_require_none rfl⟩
        | some v =>
          simp only [ObjectField.name, hdeclared, hchecked, ht]
          exact yields_bind (yields_checkValue hs v ht hin t)
            (yields_checkObjectFields hs htypes inputName span rest _)

end

end Runs

/-! ## Judgement of values -/

/-- The types of an accepted schema name what they may name. -/
theorem Constructed.typesResolve {s : GraphQlSchema} (h : Constructed s) : s.TypesResolve := by
  intro t ht hin
  cases hname : t.name with
  | none =>
    refine .scalar ?_
    have hscalar := h.scalars t ht hname
    revert hscalar
    cases t.type <;> decide
  | some name =>
    rcases h.named t ht (Option.isSome_of_eq_some hname) with htype | htype
    · obtain ⟨symbol, hsymbol, hinput, -, htag⟩ := h.resolves t ht name hname
      have hkind : symbol.kind = .inputObject := by
        have hnotEnum : symbol.kind ≠ .enum := fun henum => by
          cases htype.symm.trans (htag.2 henum)
        simpa [SymbolKind.isInput, hnotEnum] using hinput hin
      obtain ⟨d, hdeclaration, hsame, hclosed⟩ := h.symbols _ symbol hsymbol
      obtain ⟨⟩ | ⟨⟩ | ⟨o⟩ | ⟨⟩ | ⟨⟩ := d <;> cases hsame.trans hkind
      obtain ⟨⟨fields, hfields, -, hwf⟩, hidentifier⟩ := hclosed id
      refine .inputObject htype hname hsymbol hkind hdeclaration fun fields' hfields' => ?_
      obtain rfl := Option.some.inj (hfields.symm.trans hfields')
      refine ⟨?_, fun f hf => (hwf _ _ (SortedMap.mem_entries_iff.1 hf)).2⟩
      cases hoName : o.name with
      | none =>
        rw [Declaration.name, hoName] at hidentifier
        cases hidentifier
      | some _ => rfl
    · exact .enum htype hname

/-- The check of a value for a type returns, leaves all but the diagnostics as it was, and reports
something exactly if the value is not assignable to the type. -/
def Judges (s : GraphQlSchema) (value : Value) (id : TypeId) (t : TypeNode) : Prop :=
  ∃ new, (checkValue value id).run s = .ok () { s with diagnostics := s.diagnostics ++ new } ∧
    (new ≠ [] ↔ ¬ fits s value t = true)

/-- The check is right about a value exactly if no report stops it, and it detects a misfit, or there are
false alarms in the value and misfits that are overlooked, both or neither. -/
theorem judges_iff {s : GraphQlSchema} (hs : s.TypesResolve) {value : Value} {id : TypeId}
    {t : TypeNode} (ht : s.pool.types[id]? = some t) (hin : t.inInputLocation = true) :
    s.Judges value id t ↔ .stops ∉ inspect s [] value id t t ∧
      (.detected ∈ inspect s [] value id t t ∨
        (.falseAlarm ∈ inspect s [] value id t t ↔ .overlooked ∈ inspect s [] value id t t)) := by
  have hyields : Yields s [] (checkValue value id) () (inspect s [] value id t t) := by
    have hcurrent : whileReading [] id t = t := if_neg List.not_mem_nil
    rw [← hcurrent]
    exact yields_checkValue hs value ht hin (whileReading [] id t)
  have hstart : s.during [] s.diagnostics = s := during_nil s.diagnostics
  by_cases hstops : .stops ∈ inspect s [] value id t t
  · obtain ⟨e, s', hrun⟩ := (hyields s.diagnostics).1 hstops
    rw [hstart] at hrun
    refine iff_of_false ?_ fun h => h.1 hstops
    rintro ⟨new, hreturns, -⟩
    cases hreturns.symm.trans hrun
  · obtain ⟨new, hrun, hnew⟩ := (hyields s.diagnostics).2 hstops
    rw [hstart, during_nil] at hrun
    have hjudges : s.Judges value id t ↔ (new ≠ [] ↔ ¬ fits s value t = true) := by
      refine ⟨?_, fun h => ⟨new, hrun, h⟩⟩
      rintro ⟨other, hother, h⟩
      have hsame : s.diagnostics ++ other = s.diagnostics ++ new :=
        congrArg GraphQlParser.diagnostics (Outcome.ok.inj (hother.symm.trans hrun)).2
      rwa [List.append_cancel_left hsame] at h
    rw [hjudges, and_iff_right hstops, ne_eq, hnew, fits_iff_faultless s value (.inl rfl) hstops]
    unfold Faultless
    tauto

theorem typeIs_iff {s : GraphQlSchema} {id : TypeId} {p : TypeNode → Bool} :
    s.typeIs id p = true ↔ ∃ t, s.pool.types[id]? = some t ∧ p t = true :=
  Option.any_eq_true _ _

/-- A name that the enum declares is rightly passed. -/
theorem judges_of_declared_name : ∃ schema id t,
    Accepts "enum C{A}directive@d(a:[C!])on OBJECT type Query@d(a:[A]){q:Int}".toList schema ∧
      schema.pool.types[id]? = some t ∧ t.inInputLocation = true ∧
      schema.Judges (.list ⟨53, 56⟩ .listValue [.enum ⟨54, 55⟩ "A".toList]) id t := by
  have haccepts : Accepts
      "enum C{A}directive@d(a:[C!])on OBJECT type Query@d(a:[A]){q:Int}".toList _ :=
    accepts_of_run (by decide +kernel) (by decide +kernel)
  have htype : typeIs (run
      "enum C{A}directive@d(a:[C!])on OBJECT type Query@d(a:[A]){q:Int}".toList).state 0 (fun t =>
        t.inInputLocation && decide (inspect (run
          "enum C{A}directive@d(a:[C!])on OBJECT type Query@d(a:[A]){q:Int}".toList).state []
            (.list ⟨53, 56⟩ .listValue [.enum ⟨54, 55⟩ "A".toList]) 0 t t = [])) = true := by
    decide +kernel
  obtain ⟨t, ht, hboth⟩ := typeIs_iff.1 htype
  obtain ⟨hin, hempty⟩ := Bool.and_eq_true_iff.1 hboth
  refine ⟨_, 0, t, haccepts, ht, hin, ?_⟩
  refine (judges_iff (constructed_of_accepts haccepts).typesResolve ht hin).2 ?_
  rw [of_decide_eq_true hempty]
  decide

/-- A name that the enum does not declare is passed too. -/
theorem not_judges_of_undeclared_name : ∃ schema id t,
    Accepts "enum C{A}directive@d(a:C)on OBJECT type Query@d(a:B){q:Int}".toList schema ∧
      schema.pool.types[id]? = some t ∧ t.inInputLocation = true ∧
      ¬ schema.Judges (.enum ⟨50, 51⟩ "B".toList) id t := by
  have haccepts : Accepts "enum C{A}directive@d(a:C)on OBJECT type Query@d(a:B){q:Int}".toList _ :=
    accepts_of_run (by decide +kernel) (by decide +kernel)
  have htype : typeIs (run
      "enum C{A}directive@d(a:C)on OBJECT type Query@d(a:B){q:Int}".toList).state 0 (fun t =>
        t.inInputLocation && !fits (run
          "enum C{A}directive@d(a:C)on OBJECT type Query@d(a:B){q:Int}".toList).state
            (.enum ⟨50, 51⟩ "B".toList) t) = true := by
    decide +kernel
  obtain ⟨t, ht, hboth⟩ := typeIs_iff.1 htype
  obtain ⟨hin, hmisfit⟩ := Bool.and_eq_true_iff.1 hboth
  refine ⟨_, 0, t, haccepts, ht, hin, ?_⟩
  rintro ⟨new, hrun, hreports⟩
  have hsilent : ((checkValue (.enum ⟨50, 51⟩ "B".toList) 0).run (run
      "enum C{A}directive@d(a:C)on OBJECT type Query@d(a:B){q:Int}".toList).state).state.diagnostics =
        [] := by
    decide +kernel
  rw [hrun] at hsilent
  exact hreports.2 (by simpa using hmisfit) (List.append_eq_nil_iff.1 hsilent).2

end GraphQlSchema

end Flashpoint
