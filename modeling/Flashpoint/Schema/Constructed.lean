import Flashpoint.Schema.Definitions

/-!
# The schema a clean construction leaves behind

The passes after parsing change nothing but the root types and the tags of the types that name an
enumeration, so what the parsing loop kept is still there when the constructor returns; and every
pass that ends without a report has found what it looks for.
-/

namespace Flashpoint

open Library Climb

namespace GraphQlSchema

open ParserM

/-! ## The checks -/

theorem quiet_reportRecursion {parent : Ustring} {location : Span}
    {directives : UstringMap Directive} : Keeps Quiet (reportRecursion parent location directives) :=
  keeps_when quiet_reportAt

theorem quiet_checkRecursiveDirectives (parent : Ustring) (location : Span) (fuel : Nat)
    (type : TypeNode) : Keeps Quiet (checkRecursiveDirectives parent location fuel type) := by
  induction fuel generalizing type with
  | zero => exact quiet_outOfFuel
  | succ fuel ih =>
    unfold checkRecursiveDirectives
    refine keeps_bind quiet_follow fun name => keeps_bind quiet_deref fun symbol => ?_
    refine keeps_bind quiet_declaration fun d => ?_
    split
    · refine keeps_bind quiet_reportRecursion fun _ => keeps_bind quiet_follow fun fields => ?_
      refine keeps_forM fun f _ => keeps_bind quiet_reportRecursion fun _ => ?_
      exact keeps_bind quiet_typeNode fun _ => keeps_when (ih _)
    · exact keeps_bind quiet_reportRecursion fun _ => keeps_forM fun v _ => quiet_reportRecursion
    · exact quiet_deref

theorem quiet_checkTypeOfDirective {type : TypeNode} : Keeps Quiet (checkTypeOfDirective type) := by
  unfold checkTypeOfDirective
  split
  · exact keeps_pure
  · exact keeps_bind quiet_read fun _ => quiet_checkRecursiveDirectives _ _ _ _

theorem quiet_reportNotAssignable {value : Value} {type : TypeNode} :
    Keeps Quiet (reportNotAssignable value type) :=
  keeps_bind quiet_getLocationFromSyntax fun _ => keeps_bind keeps_require fun _ =>
    keeps_bind quiet_getTypeName fun _ => quiet_addDiagnosticAt

theorem quiet_reportMissingFields {span : Span} {checked : UstringMap ObjectField}
    {fields : UstringMap InputFieldDefinition} :
    Keeps Quiet (reportMissingFields span checked fields) :=
  keeps_forM fun _ _ => keeps_bind quiet_typeNode fun _ => keeps_when quiet_reportAt

theorem quiet_reportDuplicateField {span first : Span} {name : Ustring} :
    Keeps Quiet (reportDuplicateField span first name) :=
  keeps_bind quiet_getLocationFromSyntax fun _ => keeps_bind quiet_addDiagnosticAt fun _ =>
    keeps_bind quiet_hasDiagnosticInSyntax fun _ => keeps_when quiet_reportAt

/-- A list literal: the flags that are cleared for the elements are restored. -/
theorem modify_restore {types : List TypeNode} {id : TypeId} {t : TypeNode}
    (h : types[id]? = some t) (hlist : t.isListType = true) :
    (types.modify id fun t => { t with isListType := false, isNonNullList := false }).modify id
      (fun u => { u with isListType := true, isNonNullList := t.isNonNullList }) = types := by
  refine List.ext_getElem? fun i => ?_
  rw [List.getElem?_modify, List.getElem?_modify]
  by_cases hi : id = i
  · subst hi
    simp only [h, if_true, Option.map_eq_map, Option.map_some, ← hlist]
  · simp only [hi, if_false, Option.map_eq_map, Option.map_id']

theorem quiet_checkList {id : TypeId} {span : Span} {kind : ValueKind} {values : List Value}
    (h : Keeps Quiet (checkValues values id)) : Keeps Quiet (checkValue (.list span kind values) id) := by
  unfold checkValue
  intro s u s' hrun
  obtain ⟨type, s₁, htype, hbody⟩ := run_bind_eq_ok.1 hrun
  obtain ⟨hfind, rfl⟩ := run_require_eq_ok.1 htype
  split at hbody
  · exact quiet_reportNotAssignable _ _ _ hbody
  · next hlist =>
    obtain ⟨_, s₂, hclear, hbody⟩ := run_bind_eq_ok.1 hbody
    obtain ⟨_, s₃, hvalues, hset⟩ := run_bind_eq_ok.1 hbody
    have hquiet := h _ _ _ hvalues
    obtain rfl := (Outcome.ok.inj hclear).2
    obtain rfl := (Outcome.ok.inj hset).2
    refine ⟨?_, hquiet.members⟩
    have hrestore := modify_restore hfind (Bool.of_not_eq_false hlist)
    simp only [hquiet.pool, hrestore]

mutual

theorem quiet_checkValue : ∀ (value : Value) (id : TypeId), Keeps Quiet (checkValue value id)
  | .null _, _ => by
    unfold checkValue
    exact keeps_bind quiet_typeNode fun _ => keeps_when (keeps_bind quiet_getLocationFromSyntax
      fun _ => keeps_bind quiet_getTypeName fun _ => quiet_addDiagnosticAt)
  | .list _ _ values, id => quiet_checkList (quiet_checkValues values id)
  | .string _ _, _ => by
    unfold checkValue
    exact keeps_bind quiet_typeNode fun _ => keeps_when quiet_reportNotAssignable
  | .int _ _, _ => by
    unfold checkValue
    exact keeps_bind quiet_typeNode fun _ => keeps_when quiet_reportNotAssignable
  | .float _ _, _ => by
    unfold checkValue
    exact keeps_bind quiet_typeNode fun _ => keeps_when quiet_reportNotAssignable
  | .boolean _ _, _ => by
    unfold checkValue
    exact keeps_bind quiet_typeNode fun _ => keeps_when quiet_reportNotAssignable
  | .enum _ _, _ => by
    unfold checkValue
    exact keeps_bind quiet_typeNode fun _ => keeps_when quiet_reportNotAssignable
  | .object span objectFields, id => by
    unfold checkValue
    refine keeps_bind quiet_typeNode fun type => ?_
    refine keeps_bind (keeps_when quiet_reportNotAssignable) fun _ => ?_
    refine keeps_bind quiet_follow fun name => keeps_bind quiet_read fun symbols => ?_
    split
    · exact quiet_addDiagnostic
    split
    · exact keeps_pure
    refine keeps_bind quiet_declaration fun d => ?_
    split
    · refine keeps_bind quiet_follow fun fields => keeps_bind quiet_follow fun inputName => ?_
      refine keeps_bind (quiet_checkObjectFields fields _ span objectFields ∅) fun checked => ?_
      exact keeps_when quiet_reportMissingFields
    · exact quiet_deref

theorem quiet_checkValues : ∀ (values : List Value) (id : TypeId), Keeps Quiet (checkValues values id)
  | [], _ => by
    unfold checkValues
    exact keeps_pure
  | value :: values, id => by
    unfold checkValues
    exact keeps_bind (quiet_checkValue value id) fun _ => quiet_checkValues values id

theorem quiet_checkObjectFields (fields : UstringMap InputFieldDefinition) (inputName : Ustring)
    (span : Span) : ∀ (objectFields : List ObjectField) (checked : UstringMap ObjectField),
      Keeps Quiet (checkObjectFields fields inputName span objectFields checked)
  | [], _ => by
    unfold checkObjectFields
    exact keeps_pure
  | .mk fieldSpan name value :: rest, checked => by
    unfold checkObjectFields
    split
    · exact keeps_bind quiet_getLocationFromSyntax fun _ => keeps_bind quiet_addDiagnosticAt fun _ =>
        quiet_checkObjectFields fields inputName span rest _
    split
    · exact keeps_bind quiet_reportDuplicateField fun _ =>
        quiet_checkObjectFields fields inputName span rest _
    match value with
    | none => exact quiet_deref
    | some v =>
      exact keeps_bind (quiet_checkValue v _) fun _ =>
        quiet_checkObjectFields fields inputName span rest _

end

theorem quiet_checkDirectiveArguments (directive : Directive)
    (definitions : List (Ustring × InputValueDefinition)) (checked : UstringSet) :
    Keeps Quiet (checkDirectiveArguments directive definitions checked) := by
  induction definitions generalizing checked with
  | nil => exact keeps_pure
  | cons definition rest ih =>
    obtain ⟨k, definition⟩ := definition
    simp only [checkDirectiveArguments]
    split
    · refine keeps_bind ?_ fun _ => ih _
      exact keeps_bind quiet_follow fun _ => keeps_bind quiet_typeNode fun _ =>
        keeps_when quiet_reportAt
    · exact keeps_bind quiet_follow fun _ => keeps_bind quiet_follow fun _ =>
        keeps_bind (quiet_checkValue _ _) fun _ => ih _

theorem quiet_checkDirectiveReferences : Keeps Quiet checkDirectiveReferences := by
  refine keeps_bind quiet_read fun directives => keeps_forM fun directive _ => ?_
  refine keeps_bind quiet_read fun definitions => ?_
  split
  · exact quiet_reportAt
  refine keeps_bind (keeps_when quiet_reportAt) fun _ => ?_
  refine keeps_bind (keeps_when (keeps_bind quiet_getLocationFromSyntax fun _ =>
    keeps_bind keeps_require fun _ => quiet_addDiagnosticAt)) fun _ => ?_
  refine keeps_bind (quiet_checkDirectiveArguments _ _ _) fun checked => keeps_when ?_
  exact keeps_forM fun _ _ => keeps_when quiet_addDiagnostic

theorem quiet_checkInterfaceFields (objectName : Name) (fields : UstringMap FieldDefinition)
    (implementation : Ustring) (interfaceName : Option Name)
    (interfaceFields : List (Ustring × FieldDefinition)) :
    Keeps Quiet (checkInterfaceFields objectName fields implementation interfaceName
      interfaceFields) := by
  have hmismatch : ∀ {objectType interfaceType : TypeNode}, Keeps Quiet (do
      let name ← follow interfaceName
      reportTypeMismatch objectType interfaceType name.identifier) := fun {_ _} =>
    keeps_bind quiet_follow fun _ => keeps_bind quiet_getLocationFromSyntax fun _ =>
      keeps_bind quiet_getTypeName fun _ => keeps_bind quiet_getTypeName fun _ =>
        quiet_addDiagnosticAt
  induction interfaceFields with
  | nil => exact keeps_pure
  | cons interfaceField rest ih =>
    obtain ⟨k, interfaceField⟩ := interfaceField
    unfold checkInterfaceFields
    split
    · exact keeps_bind quiet_getLocationFromSyntax fun _ =>
        keeps_bind quiet_addDiagnosticAt fun _ => ih
    refine keeps_bind quiet_typeNode fun _ => keeps_bind quiet_typeNode fun _ => ?_
    split
    · exact hmismatch
    split
    · refine keeps_bind quiet_follow fun _ => keeps_bind quiet_follow fun _ => ?_
      split
      · exact hmismatch
      · exact ih
    · exact ih

theorem quiet_checkObjectImplementations : Keeps Quiet checkObjectImplementations := by
  refine keeps_bind quiet_read fun objects => keeps_forM fun id _ => ?_
  refine keeps_bind quiet_declaration fun d => ?_
  split
  · refine keeps_bind quiet_follow fun implementations => keeps_forM fun implementation _ => ?_
    refine keeps_bind quiet_read fun interfaces => ?_
    split
    · exact quiet_reportAt
    split
    · exact keeps_pure
    refine keeps_bind quiet_declaration fun d => ?_
    split
    · exact keeps_bind quiet_follow fun _ => keeps_bind quiet_follow fun _ =>
        quiet_checkInterfaceFields _ _ _ _ _
    · exact quiet_deref
  · exact quiet_deref

theorem quiet_checkUnionMembers : Keeps Quiet checkUnionMembers := by
  refine keeps_bind quiet_read fun unions => keeps_forM fun id _ => ?_
  refine keeps_bind quiet_declaration fun d => ?_
  split
  · refine keeps_forM fun member _ => keeps_bind quiet_read fun symbols => ?_
    split
    · exact quiet_reportAt
    · exact keeps_when quiet_reportAt
  · exact quiet_deref

/-! ### Root types -/

/-- The symbol a root type is taken from. -/
def rootSymbol (symbols : UstringMap Symbol) (given : Option Name) (default : Ustring) :
    Option Symbol :=
  symbols.find? (given.elim default (·.identifier))

theorem ensures_setRootType {pool₀ : Pool} {members₀ : SchemaMembers} {given : Option Name}
    {default : Ustring} {set : SchemaMembers → Option DeclarationId → SchemaMembers}
    {whenMissing : SchemaM Unit} {c : Prop}
    (hmissing : rootSymbol members₀.symbols given default = none →
      Ensures clean (On fun pool members => pool = pool₀ ∧ members = members₀) whenMissing fun _ s =>
        c ∧ On (fun pool members => pool = pool₀ ∧ members = set members₀ none) s)
    (hfound : (rootSymbol members₀.symbols given default).isSome = true → c) :
    Ensures clean (On fun pool members => pool = pool₀ ∧ members = members₀)
      (setRootType given default set whenMissing) fun _ s => c ∧ On (fun pool members =>
        pool = pool₀ ∧ members = set members₀
          ((rootSymbol members₀.symbols given default).map (·.declaration))) s := by
  have hset : ∀ {symbol}, rootSymbol members₀.symbols given default = some symbol →
      Ensures clean (On fun pool members => pool = pool₀ ∧ members = members₀)
        (modifyMembers fun m => set m (some symbol.declaration)) fun _ s =>
          c ∧ On (fun pool members => pool = pool₀ ∧ members = set members₀
            ((rootSymbol members₀.symbols given default).map (·.declaration))) s := by
    intro symbol hsymbol
    refine ensures_step fun s hs => ⟨hfound (by rw [hsymbol]; rfl), hs.1, ?_⟩
    simp only [hs.2, hsymbol, Option.map_some]
  intro s u s' hs hends
  obtain ⟨symbols, s₁, hread, hends⟩ := ends_bind.1 hends
  obtain ⟨rfl, rfl⟩ := ends_read hread
  have hsymbols := congrArg SchemaMembers.symbols hs.2
  cases given with
  | some name =>
    simp only [hsymbols] at hends
    split at hends
    · next symbol hsymbol => exact hset hsymbol _ _ _ hs hends
    · exact absurd hends (never_addDiagnostic _ _ _)
  | none =>
    simp only [hsymbols] at hends
    split at hends
    · next symbol hsymbol => exact hset hsymbol _ _ _ hs hends
    · next hnone =>
      have hroot : rootSymbol members₀.symbols none default = none := hnone
      simp only [hroot, Option.map_none]
      exact hmissing hroot _ _ _ hs hends

/-- The members after the root types were set. -/
def setRoots (members : SchemaMembers) (schema : Schema) : SchemaMembers :=
  { members with
    query := (rootSymbol members.symbols schema.query "Query".toList).map (·.declaration)
    mutation := (rootSymbol members.symbols schema.mutation "Mutation".toList).map (·.declaration)
    subscription :=
      (rootSymbol members.symbols schema.subscription "Subscription".toList).map (·.declaration) }

theorem ensures_setRootTypes {pool₀ : Pool} {members₀ : SchemaMembers} {schema : Schema} :
    Ensures clean (On fun pool members => pool = pool₀ ∧ members = members₀) (setRootTypes schema)
      fun _ s => (rootSymbol members₀.symbols schema.query "Query".toList).isSome = true ∧
        On (fun pool members => pool = pool₀ ∧ members = setRoots members₀ schema) s := by
  refine ensures_bind (ensures_setRootType (fun _ => never_addDiagnosticAt.ensures) id) fun _ =>
    ensures_fact fun hquery => ?_
  refine ensures_bind (ensures_setRootType (c := True) (fun _ => ?_) fun _ => trivial) fun _ =>
    ensures_fact fun _ => ?_
  · exact ensures_step fun s hs => ⟨trivial, hs.1, by simp only [hs.2]⟩
  refine (ensures_setRootType (c := True) (fun _ => ?_) fun _ => trivial).conseq (fun _ h => h)
    fun _ s hs => ⟨hquery, hs.2⟩
  exact ensures_step fun s hs => ⟨trivial, hs.1, by simp only [hs.2]⟩

/-! ### Type references -/

/-- The name of the node resolves, to a symbol that may stand at its location and has its tag. -/
def Resolves (symbols : UstringMap Symbol) (t : TypeNode) : Prop :=
  ∀ n, t.name = some n → ∃ symbol, symbols.find? n.identifier = some symbol ∧
    (t.inInputLocation = true → symbol.kind.isInput = true) ∧
    (t.inInputLocation = false → symbol.kind.isOutput = true) ∧
    (t.type = .enum ↔ symbol.kind = .enum)

/-- A node as it was parsed, or with the tag of an enumeration, which its name resolves to. -/
def Retag (symbols : UstringMap Symbol) (t₀ t : TypeNode) : Prop :=
  t = t₀ ∨ t = { t₀ with type := .enum } ∧ ∃ n symbol, t₀.name = some n ∧
    symbols.find? n.identifier = some symbol ∧ symbol.kind = .enum

theorem Retag.name {symbols : UstringMap Symbol} {t₀ t : TypeNode} (h : Retag symbols t₀ t) :
    t.name = t₀.name := by
  rcases h with rfl | ⟨rfl, -⟩ <;> rfl

theorem Retag.inInputLocation {symbols : UstringMap Symbol} {t₀ t : TypeNode}
    (h : Retag symbols t₀ t) : t.inInputLocation = t₀.inInputLocation := by
  rcases h with rfl | ⟨rfl, -⟩ <;> rfl

/-- The nodes while the references are resolved. -/
def Linking (symbols : UstringMap Symbol) (types₀ types : List TypeNode) : Prop :=
  types.length = types₀.length ∧
    ∀ {id : TypeId} {t₀}, types₀[id]? = some t₀ → ∃ t, types[id]? = some t ∧ Retag symbols t₀ t

theorem Linking.refl (symbols : UstringMap Symbol) (types : List TypeNode) :
    Linking symbols types types :=
  ⟨rfl, fun {_ t₀} h => ⟨t₀, h, .inl rfl⟩⟩

theorem Linking.old {symbols : UstringMap Symbol} {types₀ types : List TypeNode}
    (h : Linking symbols types₀ types) {id : TypeId} {t : TypeNode} (ht : types[id]? = some t) :
    ∃ t₀, types₀[id]? = some t₀ ∧ Retag symbols t₀ t := by
  have hlt := (List.getElem?_eq_some_iff.1 ht).1
  rw [h.1] at hlt
  obtain ⟨t', ht', hretag⟩ := h.2 (List.getElem?_eq_getElem hlt)
  obtain rfl := Option.some.inj (ht.symm.trans ht')
  exact ⟨_, List.getElem?_eq_getElem hlt, hretag⟩

/-- A node is tagged as an enumeration. -/
theorem Linking.tag {symbols : UstringMap Symbol} {types₀ types : List TypeNode}
    (h : Linking symbols types₀ types) {id : TypeId} {t : TypeNode} (ht : types[id]? = some t)
    {n : Name} {symbol : Symbol} (hn : t.name = some n)
    (hsymbol : symbols.find? n.identifier = some symbol) (hkind : symbol.kind = .enum) :
    Linking symbols types₀ (types.modify id fun t => { t with type := .enum }) := by
  refine ⟨(List.length_modify ..).trans h.1, fun {i t₀} ht₀ => ?_⟩
  obtain ⟨t', ht', hretag⟩ := h.2 ht₀
  rw [List.getElem?_modify, ht']
  by_cases hi : id = i
  · subst hi
    obtain rfl := Option.some.inj (ht.symm.trans ht')
    refine ⟨_, rfl, .inr ⟨?_, n, symbol, hretag.name ▸ hn, hsymbol, hkind⟩⟩
    rcases hretag with rfl | ⟨rfl, -⟩ <;> simp only [if_true]
  · exact ⟨t', by simp only [hi, if_false, Option.map_eq_map, Option.map_some], hretag⟩

theorem quiet_checkInputType {type : TypeNode} {name : Name} :
    Keeps Quiet (checkInputType type name) :=
  keeps_bind (keeps_when quiet_reportAt) fun _ => quiet_checkTypeOfDirective

section References

variable {pool₀ : Pool} {members₀ : SchemaMembers}

/-- The states while the references are resolved. -/
def LinkingState (pool₀ : Pool) (members₀ : SchemaMembers) (pool : Pool) (members : SchemaMembers) :
    Prop :=
  members = members₀ ∧ pool.declarations = pool₀.declarations ∧
    Linking members₀.symbols pool₀.types pool.types

/-- The node under the index is resolved. -/
def ResolvedAt (symbols : UstringMap Symbol) (id : TypeId) (s : GraphQlSchema) : Prop :=
  ∃ t, s.pool.types[id]? = some t ∧ Resolves symbols t

/-- What a clean turn does: nothing, or it tags the node; the node is resolved in the end. -/
theorem ends_checkForwardReference
    (hparsed : ∀ t ∈ pool₀.types, t.IsParsed) {id : TypeId} {s s' : GraphQlSchema} {u : Unit}
    (hs : On (LinkingState pool₀ members₀) s) (h : Ends clean (checkForwardReference id) s u s') :
    On (LinkingState pool₀ members₀) s' ∧ ResolvedAt members₀.symbols id s' ∧
      ∀ i, i ≠ id → s'.pool.types[i]? = s.pool.types[i]? := by
  obtain ⟨hmembers, hdeclarations, hlinking⟩ := hs
  obtain ⟨type, s₁, hnode, h₁⟩ := ends_bind.1 h
  obtain ⟨htype, rfl, -⟩ := ends_require.1 hnode
  obtain ⟨name, s₂, hfollow, h₂⟩ := ends_bind.1 h₁
  obtain ⟨hname, rfl, -⟩ := ends_require.1 hfollow
  obtain ⟨symbols, s₃, hread, h₃⟩ := ends_bind.1 h₂
  obtain ⟨rfl, rfl⟩ := ends_read hread
  rw [hmembers] at h₃
  split at h₃
  · exact absurd h₃ (never_reportAt _ _ _)
  · next symbol hsymbol =>
    split at h₃
    · next hkind =>
      obtain ⟨_, s₄, hmodify, hcheck⟩ := ends_bind.1 h₃
      have hquiet := quiet_checkTypeOfDirective _ _ _ hcheck.1
      obtain rfl : s₄ = _ := (ends_step.1 hmodify).2.1
      refine ⟨⟨hquiet.members.trans hmembers, ?_, ?_⟩, ⟨{ type with type := .enum }, ?_, ?_⟩, ?_⟩
      · rw [hquiet.pool]
        exact hdeclarations
      · rw [hquiet.pool]
        exact hlinking.tag htype hname hsymbol hkind
      · simp [hquiet.pool, htype]
      · intro n hn
        obtain rfl := Option.some.inj (hname.symm.trans hn)
        refine ⟨symbol, hsymbol, fun _ => ?_, fun _ => ?_, iff_of_true rfl hkind⟩
        · simp [SymbolKind.isInput, hkind]
        · simp [SymbolKind.isOutput, hkind]
      · intro i hi
        simp [hquiet.pool, Ne.symm hi]
    · next hkind =>
      obtain ⟨_, s₄, hinput, houtput⟩ := ends_bind.1 h₃
      obtain ⟨hnotOutput, rfl⟩ := never_reportAt.ends_when houtput
      have hquiet := keeps_when quiet_checkInputType _ _ _ hinput.1
      have hinInput : symbol.kind.isInput = true → type.inInputLocation = true := by
        intro hisInput
        rcases ends_when.1 hinput with ⟨-, hcheck⟩ | ⟨hnot, -⟩
        · obtain ⟨_, _, hreport, -⟩ := ends_bind.1 hcheck
          exact Bool.of_not_eq_false (never_reportAt.ends_when hreport).1
        · exact absurd hisInput hnot
      refine ⟨⟨hquiet.members.trans hmembers, hquiet.pool ▸ hdeclarations, hquiet.pool ▸ hlinking⟩,
        ⟨type, hquiet.pool ▸ htype, ?_⟩, fun _ _ => by rw [hquiet.pool]⟩
      intro n hn
      obtain rfl := Option.some.inj (hname.symm.trans hn)
      refine ⟨symbol, hsymbol, fun hin => ?_, fun hout => ?_, iff_of_false (fun htag => ?_) hkind⟩
      · have hnot := fun ho => hnotOutput ⟨ho, hin⟩
        revert hnot hkind
        cases symbol.kind <;> simp [SymbolKind.isOutput, SymbolKind.isInput]
      · have hnot : symbol.kind.isInput ≠ true := fun hi => by simp [hinInput hi] at hout
        revert hnot
        cases symbol.kind <;> simp [SymbolKind.isOutput, SymbolKind.isInput]
      · -- the tag of an enumeration is there only when the name resolves to one
        obtain ⟨t₀, ht₀, hretag⟩ := hlinking.old htype
        have hname₀ := hretag.name.symm.trans hname
        rcases hretag with rfl | ⟨-, n, symbol', hn', hsymbol', hkind'⟩
        · rcases hparsed _ (List.mem_of_getElem? ht₀) with ⟨hnone, -⟩ | ⟨-, hobject⟩
          · exact absurd (hnone.symm.trans hname) (by simp only [reduceCtorEq, not_false_eq_true])
          · exact absurd (hobject.symm.trans htag) (by simp only [reduceCtorEq, not_false_eq_true])
        · obtain rfl := Option.some.inj (hname₀.symm.trans hn')
          exact hkind (Option.some.inj (hsymbol.symm.trans hsymbol') ▸ hkind')

/-- Resolving the references: every one of them resolves in the end. -/
theorem ensures_checkForwardReferences (hparsed : ∀ t ∈ pool₀.types, t.IsParsed) :
    Ensures clean (On fun pool members => pool = pool₀ ∧ members = members₀)
      checkForwardReferences fun _ s => On (LinkingState pool₀ members₀) s ∧
        ∀ id ∈ members₀.forwardTypeReferences, ResolvedAt members₀.symbols id s := by
  intro s u s' hs hends
  obtain ⟨references, s₁, hread, hloop⟩ := ends_bind.1 hends
  obtain ⟨rfl, rfl⟩ := ends_read hread
  have hstart : On (LinkingState pool₀ members₀) s₁ :=
    ⟨hs.2, congrArg _ hs.1, hs.1 ▸ Linking.refl _ _⟩
  have hreferences : s₁.members.forwardTypeReferences = members₀.forwardTypeReferences :=
    congrArg _ hs.2
  rw [hreferences] at hloop
  refine ensures_forM (S := ResolvedAt members₀.symbols) (fun id _ => ?_) (fun id _ i _ => ?_)
    s₁ u s' hstart hloop
  · intro s u s' hs hends
    have hturn := ends_checkForwardReference hparsed hs hends
    exact ⟨hturn.1, hturn.2.1⟩
  · intro s u s' hs hends
    have hturn := ends_checkForwardReference hparsed hs.1 hends
    by_cases hi : i = id
    · exact hi ▸ hturn.2.1
    · obtain ⟨t, ht, hresolves⟩ := hs.2
      exact ⟨t, (hturn.2.2 i hi).trans ht, hresolves⟩

end References

/-! ## The constructed schema -/

/-- The root types are whatever the symbol under the name of the schema block, or else under the
default name, stands for; there is one for queries. -/
structure RootsFrom (symbols : UstringMap Symbol) (schema? : Option Schema)
    (members : SchemaMembers) : Prop where
  hasQuery : (rootSymbol symbols (schema?.bind (·.query)) "Query".toList).isSome = true
  query : members.query =
    (rootSymbol symbols (schema?.bind (·.query)) "Query".toList).map (·.declaration)
  mutation : members.mutation =
    (rootSymbol symbols (schema?.bind (·.mutation)) "Mutation".toList).map (·.declaration)
  subscription : members.subscription =
    (rootSymbol symbols (schema?.bind (·.subscription)) "Subscription".toList).map (·.declaration)

/-- What a clean construction leaves behind. -/
structure Constructed (schema : GraphQlSchema) : Prop where
  scalars : ∀ t ∈ schema.pool.types, t.name = none → t.type.isScalar = true
  named : ∀ t ∈ schema.pool.types, t.name.isSome = true → t.type = .object ∨ t.type = .enum
  resolves : ∀ t ∈ schema.pool.types, Resolves schema.members.symbols t
  symbols : ∀ k symbol, schema.members.symbols.find? k = some symbol →
    SymbolWellFormed NoneOpen schema.pool k symbol
  directives : DirectivesWellFormed schema.pool.types schema.members.directiveDefinitions
    schema.members.locationSteps
  roots : ∃ schema?, RootsFrom schema.members.symbols schema? schema.members

section Relink

variable {symbols : UstringMap Symbol} {types₀ types : List TypeNode}

theorem IsTypeAt.relink (h : Linking symbols types₀ types) {b : Bool} {id : TypeId}
    (ht : IsTypeAt types₀ b id) : IsTypeAt types b id := by
  obtain ⟨t₀, ht₀, hb⟩ := ht
  obtain ⟨t, ht, hretag⟩ := h.2 ht₀
  exact ⟨t, ht, hretag.inInputLocation.trans hb⟩

theorem ArgumentsWellFormed.relink (h : Linking symbols types₀ types)
    {arguments : UstringMap InputValueDefinition} (ha : ArgumentsWellFormed types₀ arguments) :
    ArgumentsWellFormed types arguments := by
  intro k d hd
  obtain ⟨hname, id, hid, ht⟩ := ha k d hd
  exact ⟨hname, id, hid, IsTypeAt.relink h ht⟩

theorem FieldsWellFormed.relink (h : Linking symbols types₀ types)
    {fields : UstringMap FieldDefinition} (hf : FieldsWellFormed types₀ fields) :
    FieldsWellFormed types fields := by
  intro k d hd
  obtain ⟨hname, ht, ha⟩ := hf k d hd
  exact ⟨hname, IsTypeAt.relink h ht, ArgumentsWellFormed.relink h ha⟩

theorem InputFieldsWellFormed.relink (h : Linking symbols types₀ types)
    {fields : UstringMap InputFieldDefinition} (hf : InputFieldsWellFormed types₀ fields) :
    InputFieldsWellFormed types fields := by
  intro k d hd
  obtain ⟨hname, ht⟩ := hf k d hd
  exact ⟨hname, IsTypeAt.relink h ht⟩

theorem Declaration.Complete.relink (h : Linking symbols types₀ types) {d : Declaration}
    (hd : d.Complete types₀) : d.Complete types := by
  cases d with
  | object o =>
    obtain ⟨fields, hfields, hne, hwf⟩ := hd
    exact ⟨fields, hfields, hne, FieldsWellFormed.relink h hwf⟩
  | interface i =>
    obtain ⟨fields, hfields, hne, hwf⟩ := hd
    exact ⟨fields, hfields, hne, FieldsWellFormed.relink h hwf⟩
  | inputObject o =>
    obtain ⟨fields, hfields, hne, hwf⟩ := hd
    exact ⟨fields, hfields, hne, InputFieldsWellFormed.relink h hwf⟩
  | enum e => exact hd
  | union u => exact hd

theorem DirectivesWellFormed.relink (h : Linking symbols types₀ types)
    {definitions : UstringMap DirectiveDefinition} {steps : List LocationStep}
    (hd : DirectivesWellFormed types₀ definitions steps) :
    DirectivesWellFormed types definitions steps :=
  ⟨fun k d hk => ArgumentsWellFormed.relink h (hd.arguments k d hk), hd.locations,
    hd.endOfDocument⟩

theorem SymbolWellFormed.relink {pool₀ pool : Pool} (h : Linking symbols pool₀.types pool.types)
    (hdeclarations : pool.declarations = pool₀.declarations)
    {isOpen : DeclarationId → Ustring → Prop} {k : Ustring} {symbol : Symbol}
    (hs : SymbolWellFormed isOpen pool₀ k symbol) : SymbolWellFormed isOpen pool k symbol := by
  obtain ⟨d, hd, hkind, hcomplete⟩ := hs
  refine ⟨d, hdeclarations ▸ hd, hkind, fun hopen => ?_⟩
  exact (hcomplete hopen).imp_left (Declaration.Complete.relink h)

end Relink

theorem Retag.isParsed {symbols : UstringMap Symbol} {t₀ t : TypeNode} (h : Retag symbols t₀ t)
    (ht₀ : t₀.IsParsed) : (t.name = none → t.type.isScalar = true) ∧
      (t.name.isSome = true → t.type = .object ∨ t.type = .enum) := by
  rcases h with rfl | ⟨rfl, n, symbol, hn, -⟩
  · rcases ht₀ with ⟨hnone, hscalar⟩ | ⟨hsome, hobject⟩
    · exact ⟨fun _ => hscalar, fun hsome => by simp [hnone] at hsome⟩
    · exact ⟨fun hnone => by simp [hnone] at hsome, fun _ => .inl hobject⟩
  · exact ⟨fun hnone => by simp [hn] at hnone, fun _ => .inr rfl⟩

/-- Setting the root types and resolving the references of well-formed members. -/
theorem constructed_of_linking {pool₀ : Pool} {members₀ members : SchemaMembers}
    (hwf : WellFormed NoneOpen pool₀ members₀) {schema? : Option Schema}
    (hroots : RootsFrom members₀.symbols schema? members)
    (hmembers : members = { members₀ with
      query := members.query, mutation := members.mutation, subscription := members.subscription })
    {s : GraphQlSchema} (hlink : On (LinkingState pool₀ members) s)
    (hresolved : ∀ id ∈ members₀.forwardTypeReferences, ResolvedAt members₀.symbols id s) :
    Constructed s := by
  obtain ⟨rfl, hdeclarations, hlinking⟩ := hlink
  have hsymbols : s.members.symbols = members₀.symbols := by rw [hmembers]
  rw [hsymbols] at hlinking
  have hparsed : ∀ t ∈ s.pool.types, (t.name = none → t.type.isScalar = true) ∧
      (t.name.isSome = true → t.type = .object ∨ t.type = .enum) := by
    intro t ht
    obtain ⟨id, hid⟩ := List.mem_iff_getElem?.1 ht
    obtain ⟨t₀, ht₀, hretag⟩ := hlinking.old hid
    exact hretag.isParsed (hwf.types.parsed t₀ (List.mem_of_getElem? ht₀))
  constructor
  case scalars => exact fun t ht => (hparsed t ht).1
  case named => exact fun t ht => (hparsed t ht).2
  case resolves =>
    intro t ht n hn
    obtain ⟨id, hid⟩ := List.mem_iff_getElem?.1 ht
    obtain ⟨t₀, ht₀, hretag⟩ := hlinking.old hid
    have hreference : id ∈ members₀.forwardTypeReferences :=
      (hwf.types.references id).2 ⟨t₀, ht₀, by rw [← hretag.name, hn, Option.isSome_some]⟩
    obtain ⟨t', ht', hresolves⟩ := hresolved id hreference
    obtain rfl := Option.some.inj (hid.symm.trans ht')
    rw [hsymbols]
    exact hresolves n hn
  case symbols =>
    rw [hsymbols]
    exact fun k symbol hk => SymbolWellFormed.relink hlinking hdeclarations (hwf.symbols k symbol hk)
  case directives =>
    have hdirectives := DirectivesWellFormed.relink hlinking hwf.directives
    rw [hmembers]
    exact hdirectives
  case roots => exact ⟨schema?, hsymbols ▸ hroots⟩

theorem Constructed.of_quiet {s s' : GraphQlSchema} (h : Constructed s) (hquiet : Quiet s s') :
    Constructed s' := by
  obtain ⟨hscalars, hnamed, hresolves, hsymbols, hdirectives, hroots⟩ := h
  obtain ⟨hpool, hmembers⟩ := hquiet
  constructor <;> simp only [hpool, hmembers] <;> assumption

/-- The block the passes are given has the root types of the one in the document. -/
theorem ensures_schemaOrEmpty {schema? : Option Schema} {P : Pool → SchemaMembers → Prop} :
    Ensures clean (On P) (schemaOrEmpty schema?) fun schema s =>
      (schema.query = schema?.bind (·.query) ∧ schema.mutation = schema?.bind (·.mutation) ∧
        schema.subscription = schema?.bind (·.subscription)) ∧ On P s := by
  unfold schemaOrEmpty
  split
  · exact ensures_pure fun s hs => ⟨⟨rfl, rfl, rfl⟩, hs⟩
  · refine ensures_bind (ensures_quiet quiet_createSpan) fun span => ?_
    exact ensures_pure fun s hs => ⟨⟨rfl, rfl, rfl⟩, hs⟩

/-- The passes set the root types and keep the other members. -/
def Checked (members₀ : SchemaMembers) (schema? : Option Schema) (members : SchemaMembers) : Prop :=
  RootsFrom members₀.symbols schema? members ∧ members = { members₀ with
    query := members.query, mutation := members.mutation, subscription := members.subscription }

theorem constructed_checkSchema {pool₀ : Pool} {members₀ : SchemaMembers}
    (hwf : WellFormed NoneOpen pool₀ members₀) {schema? : Option Schema} :
    Ensures clean (On fun pool members => pool = pool₀ ∧ members = members₀) (checkSchema schema?)
      fun _ s => Constructed s ∧ Checked members₀ schema? s.members := by
  refine ensures_bind ensures_schemaOrEmpty fun schema => ensures_fact fun hschema => ?_
  obtain ⟨hquery, hmutation, hsubscription⟩ := hschema
  refine ensures_bind ensures_setRootTypes fun _ => ensures_fact fun hroot => ?_
  refine ensures_bind (ensures_checkForwardReferences hwf.types.parsed) fun _ => ?_
  intro s u s' hs hends
  have hchecked : Checked members₀ schema? (setRoots members₀ schema) := by
    refine ⟨⟨hquery ▸ hroot, ?_, ?_, ?_⟩, rfl⟩
    · rw [← hquery, setRoots]
    · rw [← hmutation, setRoots]
    · rw [← hsubscription, setRoots]
  have hconstructed := constructed_of_linking hwf hchecked.1 hchecked.2 hs.1 hs.2
  have hquiet : Quiet s s' :=
    keeps_bind quiet_checkDirectiveReferences (fun _ =>
      keeps_bind quiet_checkObjectImplementations fun _ => quiet_checkUnionMembers) _ _ _ hends.1
  refine ⟨hconstructed.of_quiet hquiet, ?_⟩
  rw [hquiet.members, hs.1.1]
  exact hchecked

/-- A schema that is accepted: what the parsing loop left, and what the passes made of it. -/
theorem checked_of_accepts {source : Ustring} {schema : GraphQlSchema} (h : Accepts source schema) :
    ∃ schema? parsed, (parseDocument source).run (initial source) = .ok schema? parsed ∧
      Constructed schema ∧ Checked parsed.members schema? schema.members := by
  have hends : Ends clean (construct source) (initial source) () schema := ⟨h.1, h.2⟩
  obtain ⟨schema?, parsed, hparse, hcheck⟩ := ends_bind.1 hends
  obtain ⟨token, s₂, htoken, hloop⟩ := ends_bind.1 hparse
  have hinitial := ensures_quiet quiet_takeToken _ _ _ (wellFormed_initial source) htoken
  have hwf := wellFormed_parseDefinitions _ _ _ _ _ _ hinitial hloop
  have hschema := constructed_checkSchema hwf _ _ _ ⟨rfl, rfl⟩ hcheck
  exact ⟨schema?, parsed, hparse.1, hschema⟩

theorem constructed_of_accepts {source : Ustring} {schema : GraphQlSchema}
    (h : Accepts source schema) : Constructed schema := by
  obtain ⟨-, -, -, hconstructed, -⟩ := checked_of_accepts h
  exact hconstructed

/-! ## Accepted schemas are closed and complete -/

/-- The types that the fields, the input fields and the arguments of a schema are declared with, and
whether they stand in an input location. -/
inductive DeclaredType (schema : GraphQlSchema) : TypeId → Bool → Prop where
  | field {k : Ustring} {symbol : Symbol} {d : Declaration} {fields : UstringMap FieldDefinition}
      {f : Ustring} {definition : FieldDefinition}
      (hsymbol : schema.members.symbols.find? k = some symbol)
      (hd : schema.pool.declarations[symbol.declaration]? = some d)
      (hfields : d.objectFields? = some fields) (hf : fields.find? f = some definition) :
      DeclaredType schema definition.type false
  | argument {k : Ustring} {symbol : Symbol} {d : Declaration}
      {fields : UstringMap FieldDefinition} {f : Ustring} {definition : FieldDefinition}
      {a : Ustring} {argument : InputValueDefinition} {id : TypeId}
      (hsymbol : schema.members.symbols.find? k = some symbol)
      (hd : schema.pool.declarations[symbol.declaration]? = some d)
      (hfields : d.objectFields? = some fields) (hf : fields.find? f = some definition)
      (ha : definition.arguments.find? a = some argument) (hid : argument.type = some id) :
      DeclaredType schema id true
  | inputField {k : Ustring} {symbol : Symbol} {o : InputObject}
      {fields : UstringMap InputFieldDefinition} {f : Ustring} {definition : InputFieldDefinition}
      (hsymbol : schema.members.symbols.find? k = some symbol)
      (hd : schema.pool.declarations[symbol.declaration]? = some (.inputObject o))
      (hfields : o.fields = some fields) (hf : fields.find? f = some definition) :
      DeclaredType schema definition.type true
  | directiveArgument {k : Ustring} {directive : DirectiveDefinition} {a : Ustring}
      {argument : InputValueDefinition} {id : TypeId}
      (hdirective : schema.members.directiveDefinitions.find? k = some directive)
      (ha : directive.arguments.find? a = some argument) (hid : argument.type = some id) :
      DeclaredType schema id true

namespace Constructed

variable {schema : GraphQlSchema} (h : Constructed schema)
include h

/-- The declaration of a symbol has its kind, and was read to its end. -/
theorem complete {k : Ustring} {symbol : Symbol}
    (hsymbol : schema.members.symbols.find? k = some symbol) :
    ∃ d, schema.pool.declarations[symbol.declaration]? = some d ∧ d.kind = symbol.kind ∧
      d.Complete schema.pool.types ∧ d.name.map (·.identifier) = some k := by
  obtain ⟨d, hd, hkind, hcomplete⟩ := h.symbols k symbol hsymbol
  exact ⟨d, hd, hkind, hcomplete id⟩

theorem complete_of_declaration {k : Ustring} {symbol : Symbol} {d : Declaration}
    (hsymbol : schema.members.symbols.find? k = some symbol)
    (hd : schema.pool.declarations[symbol.declaration]? = some d) :
    d.kind = symbol.kind ∧ d.Complete schema.pool.types := by
  obtain ⟨d', hd', hkind, hcomplete, -⟩ := h.complete hsymbol
  obtain rfl := Option.some.inj (hd.symm.trans hd')
  exact ⟨hkind, hcomplete⟩

theorem isTypeAt {id : TypeId} {b : Bool} (hid : DeclaredType schema id b) :
    IsTypeAt schema.pool.types b id := by
  cases hid with
  | field hsymbol hd hfields hf =>
    have hwf := (h.complete_of_declaration hsymbol hd).2.objectFields hfields
    exact (hwf _ _ hf).2.1
  | argument hsymbol hd hfields hf ha hid =>
    have hwf := (h.complete_of_declaration hsymbol hd).2.objectFields hfields
    obtain ⟨-, id', hid', ht⟩ := (hwf _ _ hf).2.2 _ _ ha
    obtain rfl := Option.some.inj (hid.symm.trans hid')
    exact ht
  | inputField hsymbol hd hfields hf =>
    obtain ⟨fields', hfields', -, hwf⟩ := (h.complete_of_declaration hsymbol hd).2
    obtain rfl := Option.some.inj (hfields.symm.trans hfields')
    exact (hwf _ _ hf).2
  | directiveArgument hdirective ha hid =>
    obtain ⟨-, id', hid', ht⟩ := h.directives.arguments _ _ hdirective _ _ ha
    obtain rfl := Option.some.inj (hid.symm.trans hid')
    exact ht

end Constructed

/-- An accepted schema is closed and complete: the types of its fields, input fields and arguments
resolve to symbols that may stand there and have their tag, and every declaration behind a symbol
has a body. -/
theorem closed_and_complete_of_accepts {source : Ustring} {schema : GraphQlSchema}
    (h : Accepts source schema) :
    (∀ id inInputLocation, DeclaredType schema id inInputLocation →
      ∃ t, schema.pool.types[id]? = some t ∧ t.inInputLocation = inInputLocation ∧
        ∀ name, t.name = some name → ∃ symbol,
          schema.members.symbols.find? name.identifier = some symbol ∧
          (t.inInputLocation = true → symbol.kind ∈ [.inputObject, .enum]) ∧
          (t.inInputLocation = false → symbol.kind ∈ [.object, .interface, .union, .enum]) ∧
          (t.type = .enum ↔ symbol.kind = .enum)) ∧
    ∀ k symbol, schema.members.symbols.find? k = some symbol →
      ∃ d, schema.pool.declarations[symbol.declaration]? = some d ∧ d.kind = symbol.kind ∧
        d.HasBody := by
  have hschema := constructed_of_accepts h
  constructor
  · intro id inInputLocation hid
    obtain ⟨t, ht, hlocation⟩ := hschema.isTypeAt hid
    refine ⟨t, ht, hlocation, fun name hname => ?_⟩
    obtain ⟨symbol, hsymbol, hinput, houtput, htag⟩ :=
      hschema.resolves t (List.mem_of_getElem? ht) name hname
    refine ⟨symbol, hsymbol, fun hin => ?_, fun hout => ?_, htag⟩
    · have hkind := hinput hin
      revert hkind
      cases symbol.kind <;> simp [SymbolKind.isInput]
    · have hkind := houtput hout
      revert hkind
      cases symbol.kind <;> simp [SymbolKind.isOutput]
  · intro k symbol hsymbol
    obtain ⟨d, hd, hkind, hcomplete, -⟩ := hschema.complete hsymbol
    exact ⟨d, hd, hkind, hcomplete.hasBody⟩

/-- A schema with an input object, an enumeration and a field that takes and gives them. -/
theorem closed_and_complete_of_enum_argument : ∃ schema,
    Accepts "enum E{A} input I{e:E} type Query{f(i:I):E}".toList schema ∧
      ∀ k symbol, schema.members.symbols.find? k = some symbol →
        ∃ d, schema.pool.declarations[symbol.declaration]? = some d ∧ d.kind = symbol.kind ∧
          d.HasBody :=
  have haccepts : Accepts "enum E{A} input I{e:E} type Query{f(i:I):E}".toList _ :=
    accepts_of_run (by decide +kernel) (by decide +kernel)
  ⟨_, haccepts, (closed_and_complete_of_accepts haccepts).2⟩

/-! ## Root types and directive locations -/

/-- The declaration is that of an object symbol. -/
def IsObjectDeclaration (schema : GraphQlSchema) (id : DeclarationId) : Prop :=
  ∃ k symbol, schema.members.symbols.find? k = some symbol ∧ symbol.declaration = id ∧
    symbol.kind = .object

/-- The root types are objects, there is one for queries, and every directive definition has
locations, all of them real. -/
structure Meaningful (schema : GraphQlSchema) : Prop where
  query : ∃ id, schema.members.query = some id ∧ IsObjectDeclaration schema id
  mutation : ∀ id, schema.members.mutation = some id → IsObjectDeclaration schema id
  subscription : ∀ id, schema.members.subscription = some id → IsObjectDeclaration schema id
  locations : ∀ k d, schema.members.directiveDefinitions.find? k = some d →
    d.locations.Nonempty ∧ ∀ l ∈ d.locations, l ≠ .unknown ∧ l ≠ .endOfDocument

/-- What the symbols at the end of the parsing loop have under the root names: objects, if
anything. -/
structure RootNamesAreObjects (symbols : UstringMap Symbol) (schema? : Option Schema) : Prop where
  query : ∀ symbol, rootSymbol symbols (schema?.bind (·.query)) "Query".toList = some symbol →
    symbol.kind = .object
  mutation : ∀ symbol,
    rootSymbol symbols (schema?.bind (·.mutation)) "Mutation".toList = some symbol →
      symbol.kind = .object
  subscription : ∀ symbol,
    rootSymbol symbols (schema?.bind (·.subscription)) "Subscription".toList = some symbol →
      symbol.kind = .object

/-- Two symbols of one declaration have one kind. -/
theorem Constructed.isObjectDeclaration {schema : GraphQlSchema} (h : Constructed schema)
    {k : Ustring} {symbol : Symbol} (hsymbol : schema.members.symbols.find? k = some symbol) :
    IsObjectDeclaration schema symbol.declaration ↔ symbol.kind = .object := by
  constructor
  · rintro ⟨k', symbol', hsymbol', hid, hkind⟩
    obtain ⟨d, hd, hdkind, -⟩ := h.complete hsymbol
    have hsame := (h.complete_of_declaration hsymbol' (hid ▸ hd)).1
    rw [← hdkind, hsame, hkind]
  · exact fun hkind => ⟨k, symbol, hsymbol, rfl, hkind⟩

theorem Constructed.forall_root_iff {schema : GraphQlSchema} (h : Constructed schema)
    {given : Option Name} {default : Ustring} {root : Option DeclarationId}
    (hroot : root = (rootSymbol schema.members.symbols given default).map (·.declaration)) :
    (∀ id, root = some id → IsObjectDeclaration schema id) ↔
      ∀ symbol, rootSymbol schema.members.symbols given default = some symbol →
        symbol.kind = .object := by
  subst hroot
  constructor
  · intro hobject symbol hsymbol
    refine (h.isObjectDeclaration hsymbol).1 (hobject _ ?_)
    rw [hsymbol, Option.map_some]
  · intro hkind id hid
    obtain ⟨symbol, hsymbol, rfl⟩ := Option.map_eq_some_iff.1 hid
    exact (h.isObjectDeclaration hsymbol).2 (hkind symbol hsymbol)

theorem Constructed.locations_iff {schema : GraphQlSchema} (h : Constructed schema) :
    (∀ k d, schema.members.directiveDefinitions.find? k = some d →
      d.locations.Nonempty ∧ ∀ l ∈ d.locations, l ≠ .unknown ∧ l ≠ .endOfDocument) ↔
    ∀ step ∈ schema.members.locationSteps, step.isNew = true →
      step.scanner.scanDirectiveLocation.1 ≠ .endOfDocument := by
  have hend := not_congr h.directives.endOfDocument
  push Not at hend
  rw [← hend]
  constructor
  · exact fun hreal k d hd hmem => (((hreal k d hd).2 _ hmem).2) rfl
  · intro hnone k d hd
    obtain ⟨hnonempty, hunknown⟩ := h.directives.locations k d hd
    refine ⟨hnonempty, fun l hl => ⟨?_, ?_⟩⟩
    · rintro rfl
      exact hunknown hl
    · rintro rfl
      exact hnone k d hd hl

/-- The root types and the directive definitions of an accepted schema are meaningful exactly when
the root names stand for objects at the end of the parsing loop, and no definition of a new
directive met the end of the document where its first location was scanned. -/
theorem meaningful_iff {source : Ustring} {schema parsed : GraphQlSchema} {schema? : Option Schema}
    (haccepts : Accepts source schema)
    (hparsed : (parseDocument source).run (initial source) = .ok schema? parsed) :
    Meaningful schema ↔ RootNamesAreObjects parsed.members.symbols schema? ∧
      ∀ step ∈ parsed.members.locationSteps, step.isNew = true →
        step.scanner.scanDirectiveLocation.1 ≠ .endOfDocument := by
  obtain ⟨schema?', parsed', hparsed', hschema, hroots, hmembers⟩ := checked_of_accepts haccepts
  obtain ⟨rfl, rfl⟩ := Outcome.ok.inj (hparsed.symm.trans hparsed')
  have hsymbols : parsed.members.symbols = schema.members.symbols := by rw [hmembers]
  have hsteps : parsed.members.locationSteps = schema.members.locationSteps := by rw [hmembers]
  rw [hsymbols] at hroots
  rw [hsymbols, hsteps, ← hschema.locations_iff]
  constructor
  · rintro ⟨⟨id, hid, hquery⟩, hmutation, hsubscription, hlocations⟩
    refine ⟨⟨?_, ?_, ?_⟩, hlocations⟩
    · refine (hschema.forall_root_iff hroots.query).1 fun id' hid' => ?_
      exact Option.some.inj (hid.symm.trans hid') ▸ hquery
    · exact (hschema.forall_root_iff hroots.mutation).1 hmutation
    · exact (hschema.forall_root_iff hroots.subscription).1 hsubscription
  · rintro ⟨⟨hquery, hmutation, hsubscription⟩, hlocations⟩
    obtain ⟨symbol, hsymbol⟩ := Option.isSome_iff_exists.1 hroots.hasQuery
    have hsome : schema.members.query = some symbol.declaration := by
      rw [hroots.query, hsymbol, Option.map_some]
    exact ⟨⟨_, hsome, (hschema.forall_root_iff hroots.query).2 hquery _ hsome⟩,
      (hschema.forall_root_iff hroots.mutation).2 hmutation,
      (hschema.forall_root_iff hroots.subscription).2 hsubscription, hlocations⟩

/-- A schema whose roots are objects and whose directive has its locations. -/
theorem meaningful_of_directive_with_locations : ∃ schema,
    Accepts "type Query{a:Int} directive @d on FIELD | QUERY".toList schema ∧ Meaningful schema := by
  have haccepts : Accepts "type Query{a:Int} directive @d on FIELD | QUERY".toList _ :=
    accepts_of_run (by decide +kernel) (by decide +kernel)
  obtain ⟨schema?, hparsed⟩ := Outcome.exists_eq_ok (o := (parseDocument
    "type Query{a:Int} directive @d on FIELD | QUERY".toList).run
      (initial "type Query{a:Int} directive @d on FIELD | QUERY".toList)) (by decide +kernel)
  obtain rfl : schema? = none := by
    have hvalue : (((parseDocument "type Query{a:Int} directive @d on FIELD | QUERY".toList).run
        (initial "type Query{a:Int} directive @d on FIELD | QUERY".toList)).value?.map
          Option.isNone) = some true := by decide +kernel
    rw [hparsed] at hvalue
    exact Option.isNone_iff_eq_none.1 (Option.some.inj hvalue)
  have hobjects : ∀ name ∈ ["Query".toList, "Mutation".toList, "Subscription".toList],
      (rootSymbol ((parseDocument "type Query{a:Int} directive @d on FIELD | QUERY".toList).run
        (initial "type Query{a:Int} directive @d on FIELD | QUERY".toList)).state.members.symbols
          none name).all (fun symbol => symbol.kind = .object) = true := by decide +kernel
  simp only [List.forall_mem_cons, Option.all_eq_true, decide_eq_true_eq] at hobjects
  obtain ⟨hquery, hmutation, hsubscription, -⟩ := hobjects
  exact ⟨_, haccepts, (meaningful_iff haccepts hparsed).2
    ⟨⟨hquery, hmutation, hsubscription⟩, by decide +kernel⟩⟩

/-- A union may be the query root, and the end of the document the location of a directive. -/
theorem not_meaningful_of_accepts :
    (∃ schema, Accepts "type A{a:Int} union Query=A".toList schema ∧ ¬ Meaningful schema) ∧
      ∃ schema, Accepts "type Query{a:Int} directive @d on".toList schema ∧
        ¬ Meaningful schema := by
  constructor
  · have haccepts : Accepts "type A{a:Int} union Query=A".toList _ :=
      accepts_of_run (by decide +kernel) (by decide +kernel)
    refine ⟨_, haccepts, fun h => ?_⟩
    obtain ⟨id, hid, k, symbol, hsymbol, rfl, hkind⟩ := h.query
    have hnone : ∀ e ∈ (run "type A{a:Int} union Query=A".toList).state.members.symbols.entries,
        e.2.kind = .object → (run "type A{a:Int} union Query=A".toList).state.members.query ≠
          some e.2.declaration := by decide +kernel
    exact hnone _ (SortedMap.mem_entries_iff.2 hsymbol) hkind hid
  · have haccepts : Accepts "type Query{a:Int} directive @d on".toList _ :=
      accepts_of_run (by decide +kernel) (by decide +kernel)
    refine ⟨_, haccepts, fun h => ?_⟩
    have hlocations : ((run "type Query{a:Int} directive @d on".toList).state.members
        |>.directiveDefinitions.find? "d".toList).map (·.locations) =
          some {DirectiveLocation.endOfDocument} := by decide +kernel
    obtain ⟨d, hd, hlocations⟩ := Option.map_eq_some_iff.1 hlocations
    have hreal := (h.locations _ d hd).2 .endOfDocument
      (hlocations ▸ Finset.mem_singleton_self _)
    exact hreal.2 rfl

end GraphQlSchema

end Flashpoint
