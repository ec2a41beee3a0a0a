import Flashpoint.Schema.Wellformed

/-!
# The definitions of a clean document

Every parse function of a definition keeps `WellFormed` over clean runs, and so does the loop over
the document.
-/

namespace Flashpoint

open Library Climb

namespace GraphQlSchema

open ParserM


section Declarations

theorem ends_createDeclaration {d : Declaration} {s s' : GraphQlSchema} {id : DeclarationId}
    (h : Ends clean (createDeclaration d) s id s') : id = s.pool.declarations.length ∧
      s'.pool = { s.pool with declarations := s.pool.declarations ++ [d] } ∧
      s'.members = s.members := by
  obtain ⟨_, s₁, hread, h⟩ := ends_bind.1 h
  obtain ⟨_, s₂, hupdate, h⟩ := ends_bind.1 h
  obtain ⟨_, _, hget, hread⟩ := ends_bind.1 hread
  obtain ⟨rfl, rfl, -⟩ := ends_get.1 hget
  obtain ⟨rfl, rfl, -⟩ := ends_pure.1 hread
  obtain ⟨-, rfl, -⟩ := ends_step.1 hupdate
  obtain ⟨rfl, rfl, -⟩ := ends_pure.1 h
  exact ⟨rfl, rfl, rfl⟩

/-- A declaration is created: it is open, whatever its name will be. -/
theorem ensures_createDeclaration {d : Declaration} (hname : d.name = none) :
    Ensures clean (On (WellFormed NoneOpen)) (createDeclaration d : SchemaM DeclarationId)
      fun id => On fun pool members =>
        ∀ name, Frame (OpenAs id name) (IsOpenNode id d.kind name) pool members := by
  intro s id s' hs hends
  obtain ⟨rfl, hpool, hmembers⟩ := ends_createDeclaration hends
  simp only [On, hpool, hmembers]
  intro name
  refine ⟨WellFormed.create hs d name, d, List.getElem?_concat_length, rfl, fun n hn => ?_⟩
  exact absurd (hname.symm.trans hn) (by simp only [reduceCtorEq, not_false_eq_true])

/-- A declaration is created with its name. -/
theorem ensures_createNamedDeclaration {d : Declaration} {name : Name} (hname : d.name = some name) :
    Ensures clean (On (WellFormed NoneOpen)) (createDeclaration d : SchemaM DeclarationId)
      fun id => On (Frame (OpenAs id name.identifier) (IsOpenNode id d.kind name.identifier)) := by
  intro s id s' hs hends
  obtain ⟨rfl, hpool, hmembers⟩ := ends_createDeclaration hends
  simp only [On, hpool, hmembers]
  refine ⟨WellFormed.create hs d _, d, List.getElem?_concat_length, rfl, fun n hn => ?_⟩
  exact congrArg _ (Option.some.inj (hn.symm.trans hname))

/-- A clean registration enters a new name. -/
theorem ensures_registerSymbol {name : Name} {id : DeclarationId} {kind : SymbolKind} :
    Ensures clean (On (Frame (OpenAs id name.identifier) (IsOpenNode id kind name.identifier)))
      (registerSymbol name id kind) fun _ =>
        On (Frame (OpenAs id name.identifier) (IsOpenNode id kind name.identifier)) := by
  refine ensures_bind (ensures_quiet (keeps_step fun _ => ⟨rfl, rfl⟩)) fun _ => ?_
  refine ensures_bind (ensures_quiet quiet_read) fun symbols => ?_
  split
  · exact ensures_step fun s hs => ⟨hs.1.register hs.2, hs.2⟩
  · refine Never.ensures ?_
    exact never_bind fun _ => Never.bind never_addDiagnosticAt

/-- The name of a definition: in a clean run there is one, and it is registered. -/
theorem ensures_parseDefinitionName {id : DeclarationId} {kind : SymbolKind}
    {treatKeywordAsName : Bool} :
    Ensures clean
      (On fun pool members => ∀ name, Frame (OpenAs id name) (IsOpenNode id kind name) pool members)
      (parseDefinitionName id kind treatKeywordAsName) fun r s => ∃ name : Name, r = some name ∧
        On (Frame (OpenAs id name.identifier) (IsOpenNode id kind name.identifier)) s := by
  refine ensures_bind ensures_scanExpectedOr fun found => ensures_fact fun hfound => ?_
  subst hfound
  refine ensures_bind (ensures_quiet quiet_getTokenValue) fun value => ?_
  refine ensures_bind (ensures_quiet quiet_createName) fun name => ?_
  refine ensures_bind (ensures_registerSymbol.conseq (fun s hs => hs name.identifier) fun _ _ h => h)
    fun _ => ?_
  exact ensures_pure fun s hs => ⟨name, rfl, hs⟩

variable {id : DeclarationId} {kind : SymbolKind} {name : Ustring}

/-- The open declaration is assigned. -/
theorem ensures_setDeclaration {d : Declaration} {K : List TypeNode → Prop} (hkind : d.kind = kind)
    (hname : ∀ n, d.name = some n → n.identifier = name) :
    Ensures clean
      (On (Frame (OpenAs id name) fun pool => IsOpenNode id kind name pool ∧ K pool.types))
      (setDeclaration id d : SchemaM Unit) fun _ =>
        On (Frame (OpenAs id name) fun pool =>
          IsOpenNode id kind name pool ∧ K pool.types ∧ pool.declarations[id]? = some d) := by
  refine ensures_step fun s hs => ?_
  obtain ⟨hwf, hnode, hk⟩ := hs
  have hassigned : (s.pool.declarations.set id d)[id]? = some d := by
    obtain ⟨d₀, hd₀, -⟩ := hnode
    exact List.getElem?_set_self (List.getElem?_eq_some_iff.1 hd₀).1
  exact ⟨hwf.assign hnode hkind, ⟨d, hassigned, hkind, hname⟩, hk, hassigned⟩

/-- The open declaration is assigned, its parts not yet read. -/
theorem ensures_setOpenDeclaration {d : Declaration} (hkind : d.kind = kind)
    (hname : ∀ n, d.name = some n → n.identifier = name) :
    Ensures clean (On (Frame (OpenAs id name) (IsOpenNode id kind name)))
      (setDeclaration id d : SchemaM Unit) fun _ =>
        On (Frame (OpenAs id name) (IsOpenNode id kind name)) :=
  (ensures_setDeclaration (K := fun _ => True) hkind hname).conseq
    (frame_mono fun _ h => ⟨h, trivial⟩) fun _ => frame_mono fun _ h => h.1

/-- The open declaration is assigned for the last time. -/
theorem ensures_closeDeclaration {d : Declaration} {K : List TypeNode → Prop} (hkind : d.kind = kind)
    {n : Name} (hname : d.name = some n) (hn : n.identifier = name)
    (hcomplete : ∀ types, K types → d.Complete types) :
    Ensures clean
      (On (Frame (OpenAs id name) fun pool => IsOpenNode id kind name pool ∧ K pool.types))
      (setDeclaration id d : SchemaM Unit) fun _ => On fun pool members =>
        WellFormed NoneOpen pool members ∧ pool.declarations[id]? = some d := by
  refine (ensures_setDeclaration hkind fun n' hn' => ?_).conseq (fun _ h => h) fun _ s hs => ?_
  · exact Option.some.inj (hname.symm.trans hn') ▸ hn
  · obtain ⟨hwf, -, hk, hd⟩ := hs
    exact ⟨hwf.close hd (hcomplete _ hk) (by rw [hname, Option.map_some, hn]), hd⟩

end Declarations

/-! ## Definitions -/

theorem wellFormed_parseInterfaceDefinition (fuel : Nat) :
    Ensures clean (On (WellFormed NoneOpen)) (parseInterfaceDefinition fuel) fun _ =>
      On (WellFormed NoneOpen) := by
  refine ensures_bind (ensures_quiet quiet_createSpan) fun span => ?_
  refine ensures_bind (ensures_createDeclaration rfl) fun id => ?_
  refine ensures_bind ensures_parseDefinitionName fun name? => ?_
  refine ensures_exists fun name => ensures_fact fun hname? => ?_
  subst hname?
  refine ensures_bind (ensures_quiet quiet_read) fun description => ?_
  refine ensures_bind (ensures_setOpenDeclaration rfl fun n hn => ?_) fun _ => ?_
  · exact congrArg _ (Option.some.inj hn).symm
  refine ensures_bind (ensures_quiet quiet_parseDirectives) fun directives => ?_
  refine ensures_bind (frame_parseFieldsDefinition stable_isOpenNode) fun fields? => ?_
  refine ensures_exists fun fields => ensures_fact fun hfields? => ?_
  obtain ⟨rfl, hne⟩ := hfields?
  refine ensures_bind (ensures_closeDeclaration (K := (FieldsWellFormed · fields)) ?_ ?_ rfl ?_) fun _ => ?_
  · rfl
  · rfl
  · exact fun types htypes => ⟨fields, rfl, hne, htypes⟩
  refine ensures_bind (ensures_step fun s hs => ?_) fun _ => ensures_pure fun s hs => hs
  obtain ⟨hwf, hd⟩ := hs
  exact ⟨hwf.types, hwf.symbols, hwf.directives, forall_find?_emplace hwf.interfaces ⟨_, hd⟩⟩

theorem quiet_parseImplementations (fuel : Nat) (implementations : UstringMap Name) :
    Keeps Quiet (parseImplementations fuel implementations) := by
  induction fuel generalizing implementations with
  | zero => exact quiet_outOfFuel
  | succ fuel ih =>
    have hcheck : ∀ {name}, Keeps Quiet (checkImplementationName name) := by
      intro name
      refine keeps_bind quiet_read fun symbols => ?_
      split
      · exact keeps_pure
      · exact keeps_when quiet_addDiagnostic
    unfold parseImplementations
    refine keeps_bind quiet_takeToken fun token => ?_
    split
    · exact keeps_bind quiet_addDiagnostic fun _ => keeps_pure
    split
    · exact keeps_bind quiet_addDiagnostic fun _ => keeps_pure
    refine keeps_bind quiet_getTokenValue fun _ => keeps_bind quiet_createName fun _ => ?_
    refine keeps_bind hcheck fun _ => keeps_bind quiet_takeToken fun postToken => ?_
    split
    · exact keeps_pure
    split
    · exact ih _
    · exact keeps_bind quiet_getTokenValue fun _ => keeps_bind quiet_addDiagnostic fun _ =>
        keeps_bind quiet_skipBlock fun _ => keeps_pure

/-- In a clean run the list of interfaces ends with the opening brace. -/
theorem ensures_parseImplementations {P : Pool → SchemaMembers → Prop} (fuel : Nat)
    (implementations : UstringMap Name) :
    Ensures clean (On P) (parseImplementations fuel implementations) fun r s =>
      r.isSome = true ∧ On P s := by
  have hsome : Ensures clean (fun _ => True) (parseImplementations fuel implementations)
      fun r _ => r.isSome = true := by
    induction fuel generalizing implementations with
    | zero => exact never_stop.ensures
    | succ fuel ih =>
      unfold parseImplementations
      refine ensures_bind (Q := fun _ _ => True) (fun _ _ _ _ _ => trivial) fun token => ?_
      split
      · exact (Never.bind never_addDiagnostic).ensures
      split
      · exact (Never.bind never_addDiagnostic).ensures
      refine ensures_bind (Q := fun _ _ => True) (fun _ _ _ _ _ => trivial) fun value => ?_
      refine ensures_bind (Q := fun _ _ => True) (fun _ _ _ _ _ => trivial) fun name => ?_
      refine ensures_bind (Q := fun _ _ => True) (fun _ _ _ _ _ => trivial) fun _ => ?_
      refine ensures_bind (Q := fun _ _ => True) (fun _ _ _ _ _ => trivial) fun postToken => ?_
      split
      · exact ensures_pure fun _ _ => rfl
      split
      · exact ih _
      · exact (never_bind fun _ => Never.bind never_addDiagnostic).ensures
  intro s r s' hs hends
  exact ⟨hsome s r s' trivial hends,
    ensures_quiet (quiet_parseImplementations fuel implementations) s r s' hs hends⟩

theorem wellFormed_parseObjectBody {fuel : Nat} {id : DeclarationId} {object : Object} {n : Name}
    (hname : object.name = some n) :
    Ensures clean (On (Frame (OpenAs id n.identifier) (IsOpenNode id .object n.identifier)))
      (parseObjectBody fuel id object) fun _ => On (WellFormed NoneOpen) := by
  have hset : ∀ n', object.name = some n' → n'.identifier = n.identifier := fun n' hn' =>
    congrArg _ (Option.some.inj (hname.symm.trans hn')).symm
  refine ensures_bind (ensures_quiet quiet_scanOptional) fun implements => ?_
  split
  · refine ensures_bind (ensures_parseImplementations fuel ∅) fun implementations? =>
      ensures_fact fun hsome => ?_
    obtain ⟨implementations, rfl⟩ := Option.isSome_iff_exists.1 hsome
    refine ensures_bind (ensures_setOpenDeclaration rfl hset) fun _ => ?_
    refine ensures_bind (frame_parseFieldsEmpty stable_isOpenNode) fun fields? => ?_
    refine ensures_exists fun fields => ensures_fact fun hfields? => ?_
    obtain ⟨rfl, hne⟩ := hfields?
    refine ensures_bind (ensures_closeDeclaration (K := (FieldsWellFormed · fields)) ?_ ?_ rfl ?_) fun _ => ?_
    · rfl
    · exact hname
    · exact fun types htypes => ⟨fields, rfl, hne, htypes⟩
    refine ensures_bind (ensures_step fun s hs => ?_) fun _ => ensures_pure fun s hs => hs
    exact ⟨hs.1.types, hs.1.symbols, hs.1.directives, hs.1.interfaces⟩
  · refine ensures_bind (frame_parseFieldsDefinition stable_isOpenNode) fun fields? => ?_
    refine ensures_exists fun fields => ensures_fact fun hfields? => ?_
    obtain ⟨rfl, hne⟩ := hfields?
    refine ensures_bind (ensures_closeDeclaration (K := (FieldsWellFormed · fields)) ?_ ?_ rfl ?_) fun _ => ?_
    · rfl
    · exact hname
    · exact fun types htypes => ⟨fields, rfl, hne, htypes⟩
    · exact ensures_pure fun s hs => hs.1

theorem wellFormed_parseObject (fuel : Nat) :
    Ensures clean (On (WellFormed NoneOpen)) (parseObject fuel) fun _ =>
      On (WellFormed NoneOpen) := by
  refine ensures_bind (ensures_quiet quiet_createSpan) fun span => ?_
  refine ensures_bind (ensures_createDeclaration rfl) fun id => ?_
  refine ensures_bind ensures_parseDefinitionName fun name? => ?_
  refine ensures_exists fun name => ensures_fact fun hname? => ?_
  subst hname?
  refine ensures_bind (ensures_quiet quiet_read) fun description => ?_
  refine ensures_bind (ensures_setOpenDeclaration rfl fun n hn => ?_) fun _ => ?_
  · exact congrArg _ (Option.some.inj hn).symm
  refine ensures_bind (ensures_quiet quiet_parseDirectives) fun directives => ?_
  refine ensures_bind (ensures_setOpenDeclaration rfl fun n hn => ?_) fun _ => ?_
  · exact congrArg _ (Option.some.inj hn).symm
  exact wellFormed_parseObjectBody rfl

theorem wellFormed_parseInputObject (fuel : Nat) :
    Ensures clean (On (WellFormed NoneOpen)) (parseInputObject fuel) fun _ =>
      On (WellFormed NoneOpen) := by
  refine ensures_bind (ensures_quiet quiet_createSpan) fun span => ?_
  refine ensures_bind (ensures_createDeclaration rfl) fun id => ?_
  refine ensures_bind ensures_parseDefinitionName fun name? => ?_
  refine ensures_exists fun name => ensures_fact fun hname? => ?_
  subst hname?
  refine ensures_bind (ensures_quiet quiet_read) fun description => ?_
  refine ensures_bind (ensures_setOpenDeclaration rfl fun n hn => ?_) fun _ => ?_
  · exact congrArg _ (Option.some.inj hn).symm
  refine ensures_bind (ensures_quiet quiet_parseDirectives) fun directives => ?_
  refine ensures_bind (frame_parseInputFieldsDefinition stable_isOpenNode) fun result => ?_
  refine ensures_exists fun fields => ensures_fact fun hresult => ?_
  obtain ⟨fields?, requiredFields⟩ := result
  obtain ⟨rfl, hne⟩ := hresult
  refine ensures_bind (ensures_closeDeclaration (K := (InputFieldsWellFormed · fields)) ?_ ?_ rfl ?_) fun _ => ?_
  · rfl
  · rfl
  · exact fun types htypes => ⟨fields, rfl, hne, htypes⟩
  · exact ensures_pure fun s hs => hs.1

/-- A clean run over the values of an enumeration ends with some. -/
theorem ensures_parseEnumValues {P : Pool → SchemaMembers → Prop} (fuel : Nat)
    (values : UstringMap EnumValueDefinition) :
    Ensures clean (On P) (parseEnumValues fuel values) fun r s => r.2.entries ≠ [] ∧ On P s := by
  induction fuel generalizing values with
  | zero => exact never_stop.ensures
  | succ fuel ih =>
    unfold parseEnumValues
    refine ensures_bind (ensures_quiet quiet_takeToken) fun token => ?_
    split
    · next hclose => exact ensures_pure fun s hs => ⟨hclose.2, hs⟩
    split
    · exact ih _
    split
    · exact (Never.bind never_addDiagnostic).ensures
    split
    · exact (never_bind fun _ => Never.bind never_addDiagnostic).ensures
    refine ensures_bind (ensures_quiet quiet_getTokenValue) fun value => ?_
    refine ensures_bind (ensures_quiet quiet_createName) fun name => ?_
    exact ensures_bind (ensures_quiet quiet_parseDirectives) fun directives => ih _

theorem wellFormed_parseEnum (fuel : Nat) :
    Ensures clean (On (WellFormed NoneOpen)) (parseEnum fuel) fun _ =>
      On (WellFormed NoneOpen) := by
  refine ensures_bind ensures_scanExpected fun found => ensures_fact fun hfound => ?_
  subst hfound
  refine ensures_bind (ensures_quiet quiet_createSpan) fun span => ?_
  refine ensures_bind (ensures_quiet quiet_getTokenValue) fun value => ?_
  refine ensures_bind (ensures_quiet quiet_createName) fun name => ?_
  refine ensures_bind (ensures_createNamedDeclaration rfl) fun id => ?_
  refine ensures_bind ensures_registerSymbol fun _ => ?_
  refine ensures_bind (ensures_quiet quiet_parseDirectives) fun directives => ?_
  refine ensures_bind (ensures_setOpenDeclaration rfl fun n hn => ?_) fun _ => ?_
  · exact congrArg _ (Option.some.inj hn).symm
  refine ensures_bind ensures_scanExpected fun brace => ensures_fact fun hbrace => ?_
  subst hbrace
  refine ensures_bind (ensures_parseEnumValues fuel ∅) fun result => ensures_fact fun hne => ?_
  obtain ⟨complete, values⟩ := result
  refine ensures_bind ((ensures_closeDeclaration (K := fun _ => True) ?_ ?_ rfl ?_).conseq
    (frame_mono fun _ h => ⟨h, trivial⟩) fun _ _ h => h) fun _ => ?_
  · rfl
  · rfl
  · exact fun _ _ => hne
  · exact ensures_pure fun s hs => hs.1

theorem quiet_parseUnionMembers (fuel : Nat) (members : UstringMap Name) :
    Keeps Quiet (parseUnionMembers fuel members) := by
  induction fuel generalizing members with
  | zero => exact quiet_outOfFuel
  | succ fuel ih =>
    unfold parseUnionMembers
    refine keeps_bind quiet_scan fun _ => keeps_bind quiet_takeToken fun token => ?_
    split
    · split
      · exact keeps_bind quiet_scan fun _ => keeps_pure
      · exact keeps_bind quiet_skipToNextPrimaryToken fun _ => keeps_pure
    refine keeps_bind quiet_scanExpected fun found => ?_
    split
    · exact keeps_bind quiet_getTokenValue fun _ => keeps_bind quiet_createName fun _ => ih _
    · exact keeps_bind quiet_skipToNextPrimaryToken fun _ => keeps_pure

/-- A union is entered once its members were read; a name that is taken stays what it was. -/
theorem WellFormed.addUnion {pool : Pool} {members : SchemaMembers}
    (h : WellFormed NoneOpen pool members) {u : UnionTypeDefinition} {k : Ustring}
    (hname : u.name.identifier = k) :
    WellFormed NoneOpen { pool with declarations := pool.declarations ++ [.union u] }
      { members with
        symbols := members.symbols.emplace k ⟨k, pool.declarations.length, .union⟩
        unions := members.unions ++ [pool.declarations.length] } := by
  have hnode : IsOpenNode pool.declarations.length .union k
      { pool with declarations := pool.declarations ++ [.union u] } :=
    ⟨.union u, List.getElem?_concat_length, rfl, fun n hn => Option.some.inj hn ▸ hname⟩
  have hcreated := (h.create (.union u) k).register hnode
  have hclosed := hcreated.close List.getElem?_concat_length trivial
    (by simp only [Declaration.name, Option.map_some, hname])
  exact ⟨hclosed.types, hclosed.symbols, hclosed.directives, hclosed.interfaces⟩

theorem wellFormed_parseUnion (fuel : Nat) :
    Ensures clean (On (WellFormed NoneOpen)) (parseUnionAfterUnionKeyword fuel) fun _ =>
      On (WellFormed NoneOpen) := by
  refine ensures_bind (ensures_quiet quiet_createSpan) fun span => ?_
  refine ensures_bind ensures_scanExpected fun found => ensures_fact fun hfound => ?_
  subst hfound
  refine ensures_bind (ensures_quiet quiet_getTokenValue) fun value => ?_
  refine ensures_bind ensures_createName fun name => ensures_fact fun hname => ?_
  refine ensures_bind (ensures_quiet quiet_parseDirectives) fun directives => ?_
  refine ensures_bind ensures_scanExpected fun equal => ensures_fact fun hequal => ?_
  subst hequal
  refine ensures_bind (ensures_quiet quiet_scanOptional) fun _ => ?_
  refine ensures_bind ensures_scanExpected fun found => ensures_fact fun hfound => ?_
  subst hfound
  refine ensures_bind (ensures_quiet quiet_getTokenValue) fun memberValue => ?_
  refine ensures_bind (ensures_quiet quiet_createName) fun memberName => ?_
  refine ensures_bind (ensures_quiet (quiet_parseUnionMembers _ _)) fun members? => ?_
  split
  · exact ensures_pure fun s hs => hs
  · next members =>
    intro s r s' hs hends
    obtain ⟨id, s₁, hcreate, hends⟩ := ends_bind.1 hends
    obtain ⟨_, s₂, hrecord, hends⟩ := ends_bind.1 hends
    obtain ⟨_, s₃, hmodify, hends⟩ := ends_bind.1 hends
    obtain ⟨hid, hpool, hmembers⟩ := ends_createDeclaration hcreate
    obtain ⟨-, rfl, -⟩ := ends_step.1 hrecord
    obtain ⟨-, rfl, -⟩ := ends_step.1 hmodify
    obtain ⟨-, rfl, -⟩ := ends_pure.1 hends
    subst hid
    simp only [On, hpool, hmembers]
    exact hs.addUnion hname

/-! ## Directive definitions -/

theorem quiet_parseLocations (fuel : Nat) (locations : Finset DirectiveLocation) :
    Keeps Quiet (parseLocations fuel locations) := by
  induction fuel generalizing locations with
  | zero => exact quiet_outOfFuel
  | succ fuel ih =>
    unfold parseLocations
    refine keeps_bind quiet_scan fun _ => keeps_bind quiet_takeToken fun token => ?_
    split
    · exact keeps_bind quiet_scan fun _ => keeps_pure
    split
    · exact keeps_bind quiet_getTokenValue fun _ => keeps_bind quiet_addDiagnostic fun _ =>
        keeps_bind quiet_skipToNextPrimaryToken fun _ => keeps_pure
    refine keeps_bind quiet_scan fun l => ?_
    split
    · exact keeps_bind quiet_addDiagnostic fun _ =>
        keeps_bind quiet_skipToNextPrimaryToken fun _ => keeps_pure
    split
    · exact keeps_bind quiet_addDiagnosticAt fun _ => keeps_pure
    · exact ih _

/-- The locations after the first are real ones. -/
theorem ensures_parseLocations {P : Pool → SchemaMembers → Prop} (fuel : Nat)
    (locations : Finset DirectiveLocation) :
    Ensures clean (On P) (parseLocations fuel locations) fun r s => ∃ locations',
      (r = some locations' ∧ locations ⊆ locations' ∧
        ∀ l ∈ locations', l ∈ locations ∨ l ≠ .unknown ∧ l ≠ .endOfDocument) ∧ On P s := by
  induction fuel generalizing locations with
  | zero => exact never_stop.ensures
  | succ fuel ih =>
    unfold parseLocations
    refine ensures_bind (ensures_quiet quiet_scan) fun _ => ?_
    refine ensures_bind (ensures_quiet quiet_takeToken) fun token => ?_
    split
    · refine ensures_bind (ensures_quiet quiet_scan) fun _ => ?_
      exact ensures_pure fun s hs => ⟨locations, ⟨rfl, subset_rfl, fun l hl => .inl hl⟩, hs⟩
    split
    · exact (never_bind fun _ => Never.bind never_addDiagnostic).ensures
    refine ensures_bind (ensures_quiet quiet_scan) fun l => ?_
    split
    · exact (Never.bind never_addDiagnostic).ensures
    · next hunknown =>
      split
      · exact (Never.bind never_addDiagnosticAt).ensures
      · next hend =>
        refine (ih _).conseq (fun _ h => h) ?_
        rintro r s ⟨locations', ⟨rfl, hsub, hreal⟩, hs⟩
        refine ⟨locations', ⟨rfl, (Finset.subset_insert ..).trans hsub, fun l' hl' => ?_⟩, hs⟩
        rcases hreal l' hl' with hl' | hl'
        · rcases Finset.mem_insert.1 hl' with rfl | hl'
          · exact .inr ⟨hunknown, hend⟩
          · exact .inl hl'
        · exact .inr hl'

/-- The locations that are read from a scanner on: what is found there, and real ones. -/
structure LocationsFrom (scanner : GraphQlScanner) (locations : Finset DirectiveLocation) : Prop where
  known : scanner.scanDirectiveLocation.1 ≠ .unknown
  first : scanner.scanDirectiveLocation.1 ∈ locations
  real : ∀ l ∈ locations, l = scanner.scanDirectiveLocation.1 ∨ l ≠ .unknown ∧ l ≠ .endOfDocument

namespace LocationsFrom

variable {scanner : GraphQlScanner} {locations : Finset DirectiveLocation}

theorem wellFormed (h : LocationsFrom scanner locations) : LocationsWellFormed locations := by
  refine ⟨⟨_, h.first⟩, fun hunknown => ?_⟩
  rcases h.real _ hunknown with hfirst | hreal
  · exact h.known hfirst.symm
  · exact hreal.1 rfl

theorem endOfDocument_mem (h : LocationsFrom scanner locations) :
    .endOfDocument ∈ locations ↔ scanner.scanDirectiveLocation.1 = .endOfDocument := by
  constructor
  · intro hmem
    rcases h.real _ hmem with hfirst | hreal
    · exact hfirst.symm
    · exact absurd rfl hreal.2
  · intro hfirst
    exact hfirst ▸ h.first

end LocationsFrom

/-- The members after the first location of a directive was read. -/
def noteLocation (members : SchemaMembers) (name : Ustring) (scanner : GraphQlScanner) :
    SchemaMembers :=
  { members with
    locationSteps := members.locationSteps ++
      [⟨(members.directiveDefinitions.find? name).isNone, scanner⟩] }

theorem ends_recordLocationStep {name : Ustring} {s s' : GraphQlSchema} {u : Unit}
    (h : Ends clean (recordLocationStep name) s u s') :
    s' = { s with members := noteLocation s.members name s.scanner } := (ends_step.1 h).2.1

theorem ensures_parseDirectiveLocations {pool₀ : Pool} {members₀ : SchemaMembers} {fuel : Nat}
    {name : Ustring} :
    Ensures clean (On fun pool members => pool = pool₀ ∧ members = members₀)
      (parseDirectiveLocations fuel name) fun r s => ∃ scanner locations,
        (r = some locations ∧ LocationsFrom scanner locations) ∧
        On (fun pool members => pool = pool₀ ∧ members = noteLocation members₀ name scanner) s := by
  refine ensures_bind (ensures_quiet quiet_scanOptional) fun _ => ?_
  intro s r s' hs hends
  obtain ⟨_, s₁, hrecord, hends⟩ := ends_bind.1 hends
  obtain ⟨location, s₂, hscan, hends⟩ := ends_bind.1 hends
  obtain rfl := ends_recordLocationStep hrecord
  obtain ⟨rfl, hs₂⟩ := ends_scan hscan
  obtain ⟨rfl, rfl⟩ := hs
  have hnoted : On (fun pool members => pool = s.pool ∧
      members = noteLocation s.members name s.scanner) s₂ := hs₂ ▸ ⟨rfl, rfl⟩
  split at hends
  · exact absurd hends (Never.bind never_addDiagnostic _ _ _)
  · next hunknown =>
    obtain ⟨locations, ⟨rfl, hsub, hreal⟩, hs'⟩ :=
      ensures_parseLocations fuel _ _ _ _ hnoted hends
    refine ⟨s.scanner, locations, ⟨rfl, hunknown, hsub (Finset.mem_singleton_self _), ?_⟩, hs'⟩
    exact fun l hl => (hreal l hl).imp_left Finset.mem_singleton.1

/-- A directive definition is entered; one under the same name stays. -/
theorem WellFormed.addDirective {pool : Pool} {members : SchemaMembers}
    (h : WellFormed NoneOpen pool members) {d : DirectiveDefinition} {scanner : GraphQlScanner}
    (harguments : ArgumentsWellFormed pool.types d.arguments)
    (hlocations : LocationsFrom scanner d.locations) (k : Ustring) :
    WellFormed NoneOpen pool
      { noteLocation members k scanner with
        directiveDefinitions := members.directiveDefinitions.emplace k d } := by
  refine ⟨h.types, h.symbols, ⟨?_, ?_, ?_⟩, h.interfaces⟩
  · exact forall_find?_emplace h.directives.arguments harguments
  · exact forall_find?_emplace h.directives.locations hlocations.wellFormed
  · simp only [noteLocation, List.mem_append, List.mem_singleton, or_and_right, exists_or,
      exists_eq_left, ← h.directives.endOfDocument]
    cases hfind : members.directiveDefinitions.find? k with
    | none =>
      simp only [Option.isNone_none, true_and, ← hlocations.endOfDocument_mem]
      constructor
      · rintro ⟨k', d', hd', hmem⟩
        rcases SortedMap.find?_emplace_cases hd' with hd' | ⟨rfl, rfl, -⟩
        · exact .inl ⟨k', d', hd', hmem⟩
        · exact .inr hmem
      · rintro (⟨k', d', hd', hmem⟩ | hmem)
        · exact ⟨k', d', SortedMap.find?_emplace_of_some hd', hmem⟩
        · exact ⟨k, d, SortedMap.find?_emplace_self hfind, hmem⟩
    | some d₀ =>
      simp only [Option.isNone_some, Bool.false_eq_true, false_and, or_false]
      constructor
      · rintro ⟨k', d', hd', hmem⟩
        rcases SortedMap.find?_emplace_cases hd' with hd' | ⟨-, -, hnone⟩
        · exact ⟨k', d', hd', hmem⟩
        · exact absurd (hfind.symm.trans hnone) (by simp only [reduceCtorEq, not_false_eq_true])
      · rintro ⟨k', d', hd', hmem⟩
        exact ⟨k', d', SortedMap.find?_emplace_of_some hd', hmem⟩

theorem wellFormed_parseDirectiveDefinition (fuel : Nat) :
    Ensures clean (On (WellFormed NoneOpen)) (parseDirectiveDefinitionAfterDirectiveKeyword fuel)
      fun _ => On (WellFormed NoneOpen) := by
  refine ensures_bind ensures_scanExpected fun found => ensures_fact fun hfound => ?_
  subst hfound
  refine ensures_bind (ensures_quiet quiet_takeNextToken) fun token => ?_
  split
  · split
    · exact never_stop.ensures
    · exact (Never.bind never_addDiagnostic).ensures
  refine ensures_bind (ensures_quiet quiet_createSpan) fun span => ?_
  refine ensures_bind (ensures_quiet quiet_read) fun description => ?_
  refine ensures_bind (ensures_quiet quiet_getTokenValue) fun value => ?_
  refine ensures_bind (ensures_quiet quiet_createName) fun name => ?_
  refine ensures_bind ((frame_parseArgumentsDefinition stable_true).conseq
    (fun s hs => ⟨hs, trivial⟩) fun _ _ h => h) fun arguments => ?_
  refine ensures_bind ensures_scanExpected fun on => ensures_fact fun hon => ?_
  subst hon
  intro s r s' hs hends
  obtain ⟨locations?, s₁, hlocations, hends⟩ := ends_bind.1 hends
  obtain ⟨scanner, locations, ⟨rfl, hfrom⟩, hpool, hmembers⟩ :=
    ensures_parseDirectiveLocations _ _ _ ⟨rfl, rfl⟩ hlocations
  obtain ⟨_, s₂, hmodify, hends⟩ := ends_bind.1 hends
  obtain ⟨-, rfl, -⟩ := ends_step.1 hmodify
  obtain ⟨-, rfl, -⟩ := ends_pure.1 hends
  simp only [On, hpool, hmembers]
  exact hs.1.addDirective hs.2.2 hfrom name.identifier

/-! ## The document -/

theorem quiet_parseSchemaFieldAfterColon : Keeps Quiet parseSchemaFieldAfterColon := by
  refine keeps_bind quiet_scanExpected fun colon => ?_
  split
  · refine keeps_bind quiet_scanExpected fun found => ?_
    split
    · exact keeps_bind quiet_getTokenValue fun _ => keeps_bind quiet_createName fun _ => keeps_pure
    · exact keeps_bind quiet_skipToNextPrimaryToken fun _ => keeps_pure
  · exact keeps_pure

theorem quiet_parseSchemaFields (fuel : Nat) (schema : Schema) (duplicates : List OperationType) :
    Keeps Quiet (parseSchemaFields fuel schema duplicates) := by
  induction fuel generalizing schema duplicates with
  | zero => exact quiet_outOfFuel
  | succ fuel ih =>
    unfold parseSchemaFields
    refine keeps_bind quiet_takeToken fun token => ?_
    split
    · split
      · exact keeps_bind quiet_createName fun _ =>
          keeps_bind quiet_parseSchemaFieldAfterColon fun _ => ih _ _
      · refine keeps_bind quiet_addDiagnostic fun _ =>
          keeps_bind quiet_parseSchemaFieldAfterColon fun _ => ?_
        split
        · exact ih _ _
        · exact keeps_bind quiet_getLocationFromSyntax fun _ =>
            keeps_bind quiet_addDiagnosticAt fun _ => ih _ _
    · split
      · exact keeps_pure
      · exact keeps_bind quiet_addDiagnostic fun _ =>
          keeps_bind quiet_parseSchemaFieldAfterColon fun _ => ih _ _

theorem quiet_parseSchema {fuel : Nat} : Keeps Quiet (parseSchema fuel) := by
  refine keeps_bind quiet_parseDirectives fun _ => keeps_bind quiet_scanExpected fun brace => ?_
  split
  · exact keeps_bind quiet_createSpan fun _ =>
      keeps_bind (quiet_parseSchemaFields _ _ _) fun _ => keeps_pure
  · exact keeps_bind quiet_skipBlock fun _ => keeps_pure

theorem wellFormed_parsePrimaryToken (fuel : Nat) (token : GraphQlToken) :
    Ensures clean (On (WellFormed NoneOpen)) (parsePrimaryToken fuel token) fun _ =>
      On (WellFormed NoneOpen) := by
  have hreturn : ∀ {α : Type} {r : α} {f : α → Option Definition},
      Ensures clean (On (WellFormed NoneOpen))
        (pure (f r) : SchemaM (Option Definition)) fun _ => On (WellFormed NoneOpen) :=
    ensures_pure fun _ hs => hs
  unfold parsePrimaryToken
  split
  · exact ensures_bind (wellFormed_parseDirectiveDefinition fuel) fun _ => hreturn
  · exact ensures_bind (wellFormed_parseEnum fuel) fun _ => hreturn
  · exact ensures_bind (wellFormed_parseInterfaceDefinition fuel) fun _ => hreturn
  · exact ensures_bind (wellFormed_parseInputObject fuel) fun _ => hreturn
  · exact ensures_bind (ensures_quiet quiet_parseSchema) fun _ => hreturn
  · exact ensures_bind (wellFormed_parseObject fuel) fun _ => hreturn
  · exact ensures_bind (wellFormed_parseUnion fuel) fun _ => hreturn
  · exact (Never.bind never_addDiagnostic).ensures

/-- The parsing loop: the invariant holds in the end. -/
theorem wellFormed_parseDefinitions (fuel : Nat) (token : GraphQlToken) (schema? : Option Schema) :
    Ensures clean (On (WellFormed NoneOpen)) (parseDefinitions fuel token schema?) fun _ =>
      On (WellFormed NoneOpen) := by
  induction fuel generalizing token schema? with
  | zero => exact never_stop.ensures
  | succ fuel ih =>
    unfold parseDefinitions
    split
    · exact ensures_pure fun s hs => hs
    split
    · refine ensures_bind (ensures_quiet quiet_getStringValue) fun description => ?_
      refine ensures_bind (ensures_quiet (quiet_update (fun _ => rfl) fun _ => rfl)) fun _ => ?_
      exact ensures_bind (ensures_quiet quiet_takeToken) fun token => ih _ _
    refine ensures_bind (wellFormed_parsePrimaryToken fuel token) fun definition? => ?_
    refine ensures_bind (ensures_quiet (quiet_update (fun _ => rfl) fun _ => rfl)) fun _ => ?_
    split
    · refine ensures_bind (Q := fun _ => On (WellFormed NoneOpen)) ?_ fun _ =>
        ensures_bind (ensures_quiet quiet_takeToken) fun token => ih _ _
      exact ensures_step fun s hs => ⟨hs.types, hs.symbols, hs.directives, hs.interfaces⟩
    · refine ensures_bind (ensures_quiet quiet_skipBlock) fun _ => ?_
      exact ensures_bind (ensures_quiet quiet_takeToken) fun token => ih _ _

theorem wellFormed_initial (source : Ustring) :
    On (WellFormed NoneOpen) (initial source) := by
  have hnone : ∀ {V : Type} {p : Ustring → V → Prop} (k : Ustring) (v : V),
      (∅ : UstringMap V).find? k = some v → p k v := by
    intro V p k v h
    simp only [SortedMap.find?_empty, reduceCtorEq] at h
  refine ⟨⟨fun t ht => absurd ht List.not_mem_nil, fun id => ?_⟩, hnone, ⟨hnone, hnone, ?_⟩, hnone⟩
  · simp [initial]
  · simp [initial]

end GraphQlSchema

end Flashpoint
