import Flashpoint.Schema.Phases

/-!
# What parsing leaves in the tables

Whatever is reported, after parsing every type node is a scalar or a named object type, every symbol
stands for a declaration of its kind, and the objects to check against their interfaces are the
declarations of objects that name some. The declaration that is being read is known to the symbols and
may name its interfaces before it is among the objects to check, so the invariant leaves one
declaration open.
-/

namespace Flashpoint

open Library Climb

/-- The declaration is an object with a list of interfaces. -/
def Declaration.implements : Declaration → Bool
  | .object o => o.implementations.isSome
  | _ => false

/-- The node without its tag. -/
def TypeNode.untagged (t : TypeNode) : TypeNode := { t with type := .none }

theorem Declaration.implements_eq_false {d : Declaration} (h : d.kind ≠ .object) :
    d.implements = false := by
  cases d with
  | object object => exact absurd rfl h
  | _ => rfl

namespace GraphQlSchema

open ParserM

/-! ## Type nodes -/

/-- The type nodes are as `parse_type_annotation` leaves them, and the references are the named ones. -/
def KeepsTyped (s s' : GraphQlSchema) : Prop :=
  TypesWellFormed s.pool.types s.members.forwardTypeReferences →
    TypesWellFormed s'.pool.types s'.members.forwardTypeReferences

instance : IsPreorder GraphQlSchema KeepsTyped where
  refl _ h := h
  trans _ _ _ h h' hs := h' (h hs)

theorem keepsTyped_of_eq {s s' : GraphQlSchema} (htypes : s'.pool.types = s.pool.types)
    (hreferences : s'.members.forwardTypeReferences = s.members.forwardTypeReferences) :
    KeepsTyped s s' := by
  intro hs
  rw [htypes, hreferences]
  exact hs

/-- The flags of a node do not matter. -/
theorem TypesWellFormed.setFlags {types : List TypeNode} {references : List TypeId}
    (h : TypesWellFormed types references) (id : TypeId) {f : TypeNode → TypeNode}
    (hf : SetsFlags f) : TypesWellFormed (types.modify id f) references := by
  have hget : ∀ {i : TypeId} {t}, (types.modify id f)[i]? = some t →
      ∃ t₀, types[i]? = some t₀ ∧ t.type = t₀.type ∧ t.name = t₀.name := by
    intro i t ht
    rw [List.getElem?_modify] at ht
    obtain ⟨t₀, ht₀, rfl⟩ := Option.map_eq_some_iff.1 ht
    refine ⟨t₀, ht₀, ?_⟩
    split
    · exact ⟨hf.type t₀, hf.name t₀⟩
    · exact ⟨rfl, rfl⟩
  refine ⟨fun t ht => ?_, fun i => ?_⟩
  · obtain ⟨i, hi⟩ := List.mem_iff_getElem?.1 ht
    obtain ⟨t₀, ht₀, htype, hname⟩ := hget hi
    simpa only [TypeNode.IsParsed, htype, hname] using h.parsed t₀ (List.mem_of_getElem? ht₀)
  · rw [h.references i]
    constructor
    · rintro ⟨t, ht, hname⟩
      refine ⟨if id = i then f t else t, by rw [List.getElem?_modify, ht]; rfl, ?_⟩
      split
      · rw [hf.name]
        exact hname
      · exact hname
    · rintro ⟨t, ht, hname⟩
      obtain ⟨t₀, ht₀, -, hsame⟩ := hget ht
      exact ⟨t₀, ht₀, hsame ▸ hname⟩

theorem keptByParts_typed : KeptByParts KeepsTyped where
  change _ _ _ h := keepsTyped_of_eq h.types h.forwardTypeReferences
  setFlags id _ hf := keeps_step fun _ hs => hs.setFlags id hf
  addType _ _ hnode hs := hs.add hnode
  report _ _ _ _ _ := keepsTyped_of_eq rfl rfl
  scan _ _ _ _ := keepsTyped_of_eq rfl rfl
  update _ _ _ h := keepsTyped_of_eq h.types h.forwardTypeReferences
  takeErrors := keeps_step fun _ => keepsTyped_of_eq rfl rfl
  reportArgument _ _ _ := keepsTyped_of_eq rfl rfl
  addDirective _ _ _ := keepsTyped_of_eq rfl rfl

/-- **After parsing every type node is a scalar or a named object type, and the named ones are the
references.** -/
theorem typesWellFormed_parseDocument {source : Ustring} {schema? : Option Schema}
    {parsed : GraphQlSchema}
    (h : (parseDocument source).run (initial source) = .ok schema? parsed) :
    TypesWellFormed parsed.pool.types parsed.members.forwardTypeReferences := by
  have hkept := KeptByDefinitions.of_declarations keptByParts_typed
    (fun _ _ _ _ _ htypes hreferences => keepsTyped_of_eq htypes hreferences)
    fun _ _ _ => keepsTyped_of_eq rfl rfl
  refine hkept.keeps_parseDocument source _ _ _ h ⟨fun t ht => absurd ht List.not_mem_nil, ?_⟩
  exact fun _ => ⟨fun hid => absurd hid List.not_mem_nil, nofun⟩

/-! ## Symbols and the objects that implement interfaces -/

/-- The symbols have the kinds of their declarations, and the objects that implement interfaces are
listed, unless they are open. -/
structure Tabled (isOpen : DeclarationId → Prop) (s : GraphQlSchema) : Prop where
  kinds : ∀ name symbol, s.members.symbols.find? name = some symbol →
    ∃ d, s.pool.declarations[symbol.declaration]? = some d ∧ d.kind = symbol.kind
  nodup : s.members.objectsWithImplementations.Nodup
  objects : ∀ id ∈ s.members.objectsWithImplementations, ∃ d,
    s.pool.declarations[id]? = some d ∧ d.implements = true
  listed : ∀ id d, ¬ isOpen id → s.pool.declarations[id]? = some d → d.implements = true →
    id ∈ s.members.objectsWithImplementations

/-- The declaration `d` under the index is being read. -/
structure Opened (id : DeclarationId) (d : Declaration) (s : GraphQlSchema) : Prop
    extends Tabled (· = id) s where
  node : s.pool.declarations[id]? = some d
  unlisted : id ∉ s.members.objectsWithImplementations

theorem Opened.close {id : DeclarationId} {d : Declaration} {s : GraphQlSchema} (h : Opened id d s)
    (hd : d.implements = false) : Tabled (fun _ => False) s where
  kinds := h.kinds
  nodup := h.nodup
  objects := h.objects
  listed id' d' _ hd' himplements := by
    refine h.listed id' d' (fun hid => ?_) hd' himplements
    rw [hid, h.node] at hd'
    rw [← Option.some.inj hd', hd] at himplements
    cases himplements

/-- The declarations, the symbols and the objects to check stay. -/
structure SameDeclared (s s' : GraphQlSchema) : Prop where
  declarations : s'.pool.declarations = s.pool.declarations
  symbols : s'.members.symbols = s.members.symbols
  objectsWithImplementations :
    s'.members.objectsWithImplementations = s.members.objectsWithImplementations

instance : IsPreorder GraphQlSchema SameDeclared where
  refl _ := ⟨rfl, rfl, rfl⟩
  trans _ _ _ h h' := ⟨h'.declarations.trans h.declarations, h'.symbols.trans h.symbols,
    h'.objectsWithImplementations.trans h.objectsWithImplementations⟩

theorem keptByParts_same : KeptByParts SameDeclared where
  change _ _ _ h := ⟨h.declarations, h.symbols, h.objectsWithImplementations⟩
  setFlags _ _ _ := keeps_step fun _ => ⟨rfl, rfl, rfl⟩
  addType _ _ _ := ⟨rfl, rfl, rfl⟩
  report _ _ _ _ _ := ⟨rfl, rfl, rfl⟩
  scan _ _ _ _ := ⟨rfl, rfl, rfl⟩
  update _ _ _ h := ⟨h.declarations, h.symbols, h.objectsWithImplementations⟩
  takeErrors := keeps_step fun _ => ⟨rfl, rfl, rfl⟩
  reportArgument _ _ _ := ⟨rfl, rfl, rfl⟩
  addDirective _ _ _ := ⟨rfl, rfl, rfl⟩

namespace Tabled

variable {isOpen : DeclarationId → Prop} {s s' : GraphQlSchema}

theorem same (h : Tabled isOpen s) (hs : SameDeclared s s') : Tabled isOpen s' where
  kinds := by rw [hs.declarations, hs.symbols]; exact h.kinds
  nodup := by rw [hs.objectsWithImplementations]; exact h.nodup
  objects := by rw [hs.declarations, hs.objectsWithImplementations]; exact h.objects
  listed := by rw [hs.declarations, hs.objectsWithImplementations]; exact h.listed

/-- A symbol is registered unless its name is taken. -/
theorem emplace (h : Tabled isOpen s) {name : Ustring} {symbol : Symbol} {d : Declaration}
    (hd : s.pool.declarations[symbol.declaration]? = some d) (hkind : d.kind = symbol.kind)
    (hdeclarations : s'.pool.declarations = s.pool.declarations)
    (hsymbols : s'.members.symbols = s.members.symbols.emplace name symbol)
    (hobjects : s'.members.objectsWithImplementations = s.members.objectsWithImplementations) :
    Tabled isOpen s' where
  kinds name' symbol' hfind := by
    rw [hsymbols] at hfind
    rw [hdeclarations]
    rcases SortedMap.find?_emplace_cases hfind with hold | ⟨-, rfl, -⟩
    · exact h.kinds name' symbol' hold
    · exact ⟨d, hd, hkind⟩
  nodup := by rw [hobjects]; exact h.nodup
  objects := by rw [hdeclarations, hobjects]; exact h.objects
  listed := by rw [hdeclarations, hobjects]; exact h.listed

end Tabled

theorem Opened.same {id : DeclarationId} {d : Declaration} {s s' : GraphQlSchema}
    (h : Opened id d s) (hs : SameDeclared s s') : Opened id d s' where
  toTabled := h.toTabled.same hs
  node := by rw [hs.declarations]; exact h.node
  unlisted := by rw [hs.objectsWithImplementations]; exact h.unlisted

/-! ## The readers of the definitions -/

theorem opened_createDeclaration {d : Declaration} {s s' : GraphQlSchema} {id : DeclarationId}
    (h : Tabled (fun _ => False) s)
    (hrun : (createDeclaration d : SchemaM DeclarationId).run s = .ok id s') : Opened id d s' := by
  obtain ⟨rfl, rfl⟩ := Outcome.ok.inj hrun
  have hold : ∀ {i : DeclarationId} {d'}, s.pool.declarations[i]? = some d' →
      (s.pool.declarations ++ [d])[i]? = some d' := by
    intro i d' hi
    rw [List.getElem?_append_left (List.getElem?_eq_some_iff.1 hi).1]
    exact hi
  refine ⟨⟨fun name symbol hfind => ?_, h.nodup, fun i hi => ?_, fun i d' hi hd' himplements => ?_⟩,
    List.getElem?_concat_length, fun hmem => ?_⟩
  · obtain ⟨d', hd', hkind⟩ := h.kinds name symbol hfind
    exact ⟨d', hold hd', hkind⟩
  · obtain ⟨d', hd', himplements⟩ := h.objects i hi
    exact ⟨d', hold hd', himplements⟩
  · refine h.listed i d' id ?_ himplements
    rw [← hd']
    refine (List.getElem?_append_left (Nat.lt_of_le_of_ne ?_ hi)).symm
    have hlt : i < (s.pool.declarations ++ [d]).length := (List.getElem?_eq_some_iff.1 hd').1
    rw [List.length_append] at hlt
    exact Nat.lt_succ_iff.1 hlt
  · obtain ⟨d', hd', -⟩ := h.objects _ hmem
    exact absurd (List.getElem?_eq_some_iff.1 hd').1 (Nat.lt_irrefl _)

theorem opened_setDeclaration {id : DeclarationId} {d d' : Declaration} {s s' : GraphQlSchema}
    (h : Opened id d s) (hrun : (setDeclaration id d' : SchemaM Unit).run s = .ok () s')
    (hkind : d'.kind = d.kind) : Opened id d' s' := by
  obtain ⟨-, rfl⟩ := Outcome.ok.inj hrun
  have hother : ∀ {i : DeclarationId}, i ≠ id →
      (s.pool.declarations.set id d')[i]? = s.pool.declarations[i]? := fun hi =>
    List.getElem?_set_ne (Ne.symm hi)
  have hlt := (List.getElem?_eq_some_iff.1 h.node).1
  have hself : (s.pool.declarations.set id d')[id]? = some d' := List.getElem?_set_self hlt
  refine ⟨⟨fun name symbol hfind => ?_, h.nodup, fun i hi => ?_, fun i e hi he himplements => ?_⟩,
    hself, h.unlisted⟩
  · obtain ⟨e, he, hsymbol⟩ := h.kinds name symbol hfind
    by_cases hid : symbol.declaration = id
    · rw [hid, h.node] at he
      obtain rfl := Option.some.inj he
      exact ⟨d', hid ▸ hself, hkind.trans hsymbol⟩
    · exact ⟨e, (hother hid).trans he, hsymbol⟩
  · obtain ⟨e, he, himplements⟩ := h.objects i hi
    have hid : i ≠ id := fun hid => h.unlisted (hid ▸ hi)
    exact ⟨e, (hother hid).trans he, himplements⟩
  · exact h.listed i e hi ((hother hi).symm.trans he) himplements

/-- The declaration that is read stays of its kind. -/
def KeepsOpened (id : DeclarationId) (kind : SymbolKind) (s s' : GraphQlSchema) : Prop :=
  (∃ d, d.kind = kind ∧ Opened id d s) → ∃ d, d.kind = kind ∧ Opened id d s'

section Opened

variable {id : DeclarationId} {kind : SymbolKind}

instance : IsPreorder GraphQlSchema (KeepsOpened id kind) where
  refl _ h := h
  trans _ _ _ h h' hs := h' (h hs)

variable (id kind) in
theorem keptByParts_opened : KeptByParts (KeepsOpened id kind) :=
  keptByParts_same.mono fun _ _ h hs => by
    obtain ⟨d, hkind, hopened⟩ := hs
    exact ⟨d, hkind, hopened.same h⟩

theorem keepsOpened_setDeclaration {d : Declaration} (hd : d.kind = kind) :
    Keeps (KeepsOpened id kind) (setDeclaration id d : SchemaM Unit) := by
  rintro s _ s' hrun ⟨d₀, rfl, h⟩
  exact ⟨d, hd, opened_setDeclaration h hrun hd⟩

theorem keepsOpened_modifyMembers {f : SchemaMembers → SchemaMembers}
    (hsymbols : ∀ m, (f m).symbols = m.symbols)
    (hobjects : ∀ m, (f m).objectsWithImplementations = m.objectsWithImplementations) :
    Keeps (KeepsOpened id kind) (modifyMembers f) := by
  refine keeps_step fun s hs => ?_
  obtain ⟨d, hkind, h⟩ := hs
  exact ⟨d, hkind, h.same ⟨rfl, hsymbols _, hobjects _⟩⟩

end Opened

theorem same_registerSymbol {name : Name} {id : DeclarationId} {kind : SymbolKind}
    {s s' : GraphQlSchema} (hrun : (registerSymbol name id kind).run s = .ok () s') :
    s'.pool.declarations = s.pool.declarations ∧
      s'.members.objectsWithImplementations = s.members.objectsWithImplementations ∧
      (s'.members.symbols = s.members.symbols ∨
        s'.members.symbols = s.members.symbols.emplace name.identifier ⟨name.identifier, id, kind⟩) := by
  obtain ⟨_, _, hrecord, hrun₁⟩ := run_bind_eq_ok.1 hrun
  obtain ⟨-, rfl⟩ := Outcome.ok.inj hrecord
  obtain ⟨symbols, _, hread, hrun₂⟩ := run_bind_eq_ok.1 hrun₁
  obtain ⟨rfl, rfl⟩ := Outcome.ok.inj hread
  split at hrun₂
  · obtain ⟨-, rfl⟩ := Outcome.ok.inj hrun₂
    exact ⟨rfl, rfl, .inr rfl⟩
  · refine (fun (h : SameDeclared _ s') =>
      ⟨h.declarations, h.objectsWithImplementations, .inl h.symbols⟩)
      ((?_ : Keeps SameDeclared _) _ _ _ hrun₂)
    refine keeps_bind keeps_require fun _ => keeps_bind (keeps_step fun _ => ⟨rfl, rfl, rfl⟩)
      fun _ => keeps_bind keptByParts_same.keeps_read fun _ => keeps_when ?_
    refine keeps_bind keeps_require fun _ => keeps_bind keeps_require fun _ => ?_
    refine keeps_bind keeps_require fun _ => ?_
    exact keeps_bind (keeps_step fun _ => ⟨rfl, rfl, rfl⟩) fun _ =>
      keeps_step fun _ => ⟨rfl, rfl, rfl⟩

theorem opened_registerSymbol {name : Name} {id : DeclarationId} {d : Declaration}
    {s s' : GraphQlSchema} (h : Opened id d s)
    (hrun : (registerSymbol name id d.kind).run s = .ok () s') : Opened id d s' := by
  obtain ⟨hdeclarations, hobjects, hsymbols⟩ := same_registerSymbol hrun
  rcases hsymbols with hsymbols | hsymbols
  · exact h.same ⟨hdeclarations, hsymbols, hobjects⟩
  · exact ⟨h.toTabled.emplace h.node rfl hdeclarations hsymbols hobjects, hdeclarations ▸ h.node,
      hobjects ▸ h.unlisted⟩

theorem opened_parseDefinitionName {id : DeclarationId} {d : Declaration} {kind : SymbolKind}
    (hkind : d.kind = kind) {treatKeywordAsName : Bool} {name? : Option Name} {s s' : GraphQlSchema}
    (h : Opened id d s)
    (hrun : (parseDefinitionName id kind treatKeywordAsName).run s = .ok name? s') :
    Opened id d s' := by
  subst hkind
  obtain ⟨found, s₁, hscan, hrun₁⟩ := run_bind_eq_ok.1 hrun
  have hs₁ := h.same (keptByParts_same.keeps_scanExpectedOr rfl _ _ _ hscan)
  split at hrun₁
  · obtain ⟨value, _, hvalue, hrun₂⟩ := run_bind_eq_ok.1 hrun₁
    obtain ⟨-, rfl⟩ := Outcome.ok.inj hvalue
    obtain ⟨name, s₂, hname, hrun₃⟩ := run_bind_eq_ok.1 hrun₂
    have hs₂ := hs₁.same (keptByParts_same.keeps_createName _ _ _ hname)
    obtain ⟨_, _, hregister, hpure⟩ := run_bind_eq_ok.1 hrun₃
    obtain ⟨-, rfl⟩ := Outcome.ok.inj hpure
    exact opened_registerSymbol hs₂ hregister
  · obtain ⟨-, rfl⟩ := Outcome.ok.inj hrun₁
    exact hs₁

/-- No declaration is open. -/
def KeepsTabled (s s' : GraphQlSchema) : Prop :=
  Tabled (fun _ => False) s → Tabled (fun _ => False) s'

instance : IsPreorder GraphQlSchema KeepsTabled where
  refl _ h := h
  trans _ _ _ h h' hs := h' (h hs)

theorem keptByParts_tabled : KeptByParts KeepsTabled :=
  keptByParts_same.mono fun _ _ h hs => hs.same h

/-- The readers that create a node, read its name and then the rest. -/
theorem tabled_definition {d : Span → Declaration} {kind : SymbolKind} {treatKeywordAsName : Bool}
    {rest : Span → DeclarationId → Option Name → Ustring → SchemaM (Option DeclarationId)}
    (hkind : ∀ span, (d span).kind = kind)
    (hrest : ∀ span id name? description s a s',
      (rest span id name? description).run s = .ok a s' → Opened id (d span) s →
        Tabled (fun _ => False) s') :
    Keeps KeepsTabled (do
      let span ← createSpan
      let id ← createDeclaration (d span)
      let name? ← parseDefinitionName id kind treatKeywordAsName
      let description ← definitionDescription
      rest span id name? description) := by
  intro s a s' hrun h
  obtain ⟨span, _, hspan, hrun₁⟩ := run_bind_eq_ok.1 hrun
  obtain ⟨-, rfl⟩ := Outcome.ok.inj hspan
  obtain ⟨id, s₁, hcreate, hrun₂⟩ := run_bind_eq_ok.1 hrun₁
  have hopened := opened_createDeclaration h hcreate
  obtain ⟨name?, s₂, hname, hrun₃⟩ := run_bind_eq_ok.1 hrun₂
  have hnamed := opened_parseDefinitionName (hkind span) hopened hname
  obtain ⟨description, _, hdescription, hrun₄⟩ := run_bind_eq_ok.1 hrun₃
  obtain ⟨-, rfl⟩ := Outcome.ok.inj hdescription
  exact hrest span id name? description _ _ _ hrun₄ hnamed

/-- A declaration that is no object is closed at any time. -/
theorem tabled_of_keepsOpened {α : Type} {m : SchemaM α} {id : DeclarationId} {d : Declaration}
    (kind : SymbolKind) (hd : d.kind = kind) (hkind : kind ≠ .object)
    (hm : Keeps (KeepsOpened id kind) m) {s s' : GraphQlSchema} {a : α}
    (hrun : m.run s = .ok a s') (h : Opened id d s) : Tabled (fun _ => False) s' := by
  obtain ⟨d', hd', hopened⟩ := hm s a s' hrun ⟨d, hd, h⟩
  exact hopened.close (Declaration.implements_eq_false (hd' ▸ hkind))

theorem tabled_parseInterfaceDefinition (fuel : Nat) :
    Keeps KeepsTabled (parseInterfaceDefinition fuel) := by
  refine tabled_definition (fun _ => rfl) fun span id name? _ s a s' hrun h => ?_
  refine tabled_of_keepsOpened .interface rfl (by decide) ?_ hrun h
  have hkept := keptByParts_opened id .interface
  cases name? with
  | none => exact keeps_pure
  | some name =>
    refine keeps_bind (keepsOpened_setDeclaration rfl) fun _ => ?_
    refine keeps_bind hkept.keeps_parseDirectives fun _ => ?_
    refine keeps_bind hkept.keeps_parseFieldsDefinition fun _ => ?_
    refine keeps_bind (keepsOpened_setDeclaration rfl) fun _ => ?_
    exact keeps_bind (keepsOpened_modifyMembers (fun _ => rfl) fun _ => rfl) fun _ => keeps_pure

theorem tabled_parseInputObject (fuel : Nat) : Keeps KeepsTabled (parseInputObject fuel) := by
  refine tabled_definition (fun _ => rfl) fun span id name? _ s a s' hrun h => ?_
  refine tabled_of_keepsOpened .inputObject rfl (by decide) ?_ hrun h
  have hkept := keptByParts_opened id .inputObject
  cases name? with
  | none => exact keeps_pure
  | some name =>
    refine keeps_bind (keepsOpened_setDeclaration rfl) fun _ => ?_
    refine keeps_bind hkept.keeps_parseDirectives fun _ => ?_
    refine keeps_bind hkept.keeps_parseInputFieldsDefinition fun _ => ?_
    exact keeps_bind (keepsOpened_setDeclaration rfl) fun _ => keeps_pure

theorem tabled_parseEnum (fuel : Nat) : Keeps KeepsTabled (parseEnum fuel) := by
  have hkept := keptByParts_tabled
  refine keeps_bind hkept.keeps_scanExpected fun found => ?_
  split
  · refine keeps_bind hkept.keeps_read fun span => keeps_bind hkept.keeps_read fun value => ?_
    refine keeps_bind hkept.keeps_createName fun name s a s' hrun h => ?_
    obtain ⟨id, s₁, hcreate, hrun₁⟩ := run_bind_eq_ok.1 hrun
    have hopened := opened_createDeclaration h hcreate
    obtain ⟨_, s₂, hregister, hrun₂⟩ := run_bind_eq_ok.1 hrun₁
    refine tabled_of_keepsOpened .enum rfl (by decide) ?_ hrun₂ (opened_registerSymbol hopened hregister)
    have hparts := keptByParts_opened id .enum
    refine keeps_bind hparts.keeps_parseDirectives fun directives => ?_
    refine keeps_bind (keepsOpened_setDeclaration rfl) fun _ => ?_
    refine keeps_bind hparts.keeps_scanExpected fun brace => ?_
    split
    · refine keeps_bind (hparts.keeps_parseEnumValues _ _) fun _ => ?_
      exact keeps_bind (keepsOpened_setDeclaration rfl) fun _ => keeps_pure
    · exact keeps_pure
  · exact keeps_pure

theorem tabled_parseUnion (fuel : Nat) : Keeps KeepsTabled (parseUnionAfterUnionKeyword fuel) := by
  have hkept := keptByParts_tabled
  refine keeps_bind hkept.keeps_read fun span => keeps_bind hkept.keeps_scanExpected fun found => ?_
  split
  · refine keeps_bind hkept.keeps_read fun value => keeps_bind hkept.keeps_createName fun name => ?_
    refine keeps_bind hkept.keeps_parseDirectives fun directives => ?_
    refine keeps_bind hkept.keeps_scanExpected fun equal => ?_
    split
    · refine keeps_bind hkept.keeps_scanOptional fun _ => ?_
      refine keeps_bind hkept.keeps_scanExpected fun first => ?_
      split
      · refine keeps_bind hkept.keeps_read fun _ => keeps_bind hkept.keeps_createName fun _ => ?_
        refine keeps_bind (hkept.keeps_parseUnionMembers _ _) fun members? => ?_
        split
        · exact keeps_pure
        intro s a s' hrun h
        obtain ⟨id, s₁, hcreate, hrun₁⟩ := run_bind_eq_ok.1 hrun
        have hopened := opened_createDeclaration h hcreate
        obtain ⟨-, rfl⟩ := Outcome.ok.inj hrun₁
        have htabled := hopened.close rfl
        refine @Tabled.emplace _ _ _ htabled value ⟨value, id, .union⟩ _ hopened.node rfl rfl rfl rfl
      · exact hkept.keeps_giveUp
    · exact hkept.keeps_giveUp
  · exact hkept.keeps_giveUp

/-- The rest of an object: it is among the objects to check as soon as its fields are read. -/
theorem tabled_parseObjectBody {fuel : Nat} {id : DeclarationId} {object : Object}
    (hobject : object.implementations = none) {a : Option DeclarationId} {s s' : GraphQlSchema}
    (h : Opened id (.object object) s)
    (hrun : (parseObjectBody fuel id object).run s = .ok a s') : Tabled (fun _ => False) s' := by
  have hkept := keptByParts_same
  have hunimplemented : ∀ {o : Object}, o.implementations = none →
      (Declaration.object o).implements = false := fun ho => by rw [Declaration.implements, ho]; rfl
  obtain ⟨implements, s₁, hscan, hrun₁⟩ := run_bind_eq_ok.1 hrun
  have hs₁ := h.same (hkept.keeps_scanOptional _ _ _ hscan)
  split at hrun₁
  · obtain ⟨implementations?, s₂, hparse, hrun₂⟩ := run_bind_eq_ok.1 hrun₁
    have hs₂ := hs₁.same (hkept.keeps_parseImplementations _ _ _ _ _ hparse)
    split at hrun₂
    · obtain ⟨-, rfl⟩ := Outcome.ok.inj hrun₂
      exact hs₂.close (hunimplemented hobject)
    obtain ⟨_, s₃, hset, hrun₃⟩ := run_bind_eq_ok.1 hrun₂
    have hs₃ := opened_setDeclaration hs₂ hset rfl
    obtain ⟨fields, s₄, hfields, hrun₄⟩ := run_bind_eq_ok.1 hrun₃
    have hs₄ := hs₃.same (hkept.keeps_parseFieldsDefinitionAfterOpenBrace _ _ _ _ _ _ hfields)
    obtain ⟨_, s₅, hset', hrun₅⟩ := run_bind_eq_ok.1 hrun₄
    have hs₅ := opened_setDeclaration hs₄ hset' rfl
    obtain ⟨-, rfl⟩ := Outcome.ok.inj hrun₅
    refine ⟨hs₅.kinds, ?_, fun i hi => ?_, fun i d hi hd himplements => ?_⟩
    · refine List.nodup_append.2 ⟨hs₅.nodup, List.nodup_singleton _, fun i hi j hj hij => ?_⟩
      obtain rfl := List.mem_singleton.1 hj
      exact hs₅.unlisted (hij ▸ hi)
    · rcases List.mem_append.1 hi with hi | hi
      · exact hs₅.objects i hi
      · exact ⟨_, List.mem_singleton.1 hi ▸ hs₅.node, rfl⟩
    · by_cases hid : i = id
      · exact List.mem_append_right _ (List.mem_singleton.2 hid)
      · exact List.mem_append_left _ (hs₅.listed i d hid hd himplements)
  · obtain ⟨fields, s₂, hfields, hrun₂⟩ := run_bind_eq_ok.1 hrun₁
    have hs₂ := hs₁.same (hkept.keeps_parseFieldsDefinition _ _ _ hfields)
    obtain ⟨_, s₃, hset, hrun₃⟩ := run_bind_eq_ok.1 hrun₂
    obtain ⟨-, rfl⟩ := Outcome.ok.inj hrun₃
    exact (opened_setDeclaration hs₂ hset rfl).close (hunimplemented hobject)

theorem tabled_parseObject (fuel : Nat) : Keeps KeepsTabled (parseObject fuel) := by
  refine tabled_definition (fun _ => rfl) fun span id name? _ s a s' hrun h => ?_
  cases name? with
  | none =>
    obtain ⟨-, rfl⟩ := Outcome.ok.inj hrun
    exact h.close rfl
  | some name =>
    obtain ⟨_, s₁, hset, hrun₁⟩ := run_bind_eq_ok.1 hrun
    have hs₁ := opened_setDeclaration h hset rfl
    obtain ⟨directives, s₂, hdirectives, hrun₂⟩ := run_bind_eq_ok.1 hrun₁
    have hs₂ := hs₁.same (keptByParts_same.keeps_parseDirectives _ _ _ hdirectives)
    obtain ⟨_, s₃, hset', hrun₃⟩ := run_bind_eq_ok.1 hrun₂
    exact tabled_parseObjectBody rfl (opened_setDeclaration hs₂ hset' rfl) hrun₃

/-- **The invariant holds after parsing.** -/
theorem tabled_parseDocument {source : Ustring} {schema? : Option Schema} {parsed : GraphQlSchema}
    (h : (parseDocument source).run (initial source) = .ok schema? parsed) :
    Tabled (fun _ => False) parsed := by
  have hkept : KeptByDefinitions KeepsTabled :=
    { keptByParts_tabled with
      parseEnum := tabled_parseEnum
      parseInterfaceDefinition := tabled_parseInterfaceDefinition
      parseInputObject := tabled_parseInputObject
      parseObject := tabled_parseObject
      parseUnion := tabled_parseUnion }
  refine hkept.keeps_parseDocument source _ _ _ h ⟨nofun, List.nodup_nil, nofun, nofun⟩

/-! ## The tags after the references are resolved -/

/-- The name is that of an enumeration. -/
def namesEnum (symbols : UstringMap Symbol) (name : Ustring) : Bool :=
  (symbols.find? name).any fun symbol => symbol.kind = .enum

/-- What a turn of `check_forward_references` does to the nodes. -/
theorem types_checkForwardReference {id : TypeId} {s s' : GraphQlSchema}
    (hrun : (checkForwardReference id).run s = .ok () s') :
    s'.members = s.members ∧ ∃ t n, s.pool.types[id]? = some t ∧ t.name = some n ∧
      s'.pool = if namesEnum s.members.symbols n.identifier
        then { s.pool with types := s.pool.types.modify id fun t => { t with type := .enum } }
        else s.pool := by
  obtain ⟨t, s, hnode, hrun₁⟩ := run_bind_eq_ok.1 hrun
  obtain ⟨ht, rfl⟩ := run_require_eq_ok.1 hnode
  obtain ⟨n, s, hfollow, hrun₂⟩ := run_bind_eq_ok.1 hrun₁
  obtain ⟨hn, rfl⟩ := run_require_eq_ok.1 hfollow
  obtain ⟨symbols, _, hread, hrun₃⟩ := run_bind_eq_ok.1 hrun₂
  obtain ⟨rfl, rfl⟩ := Outcome.ok.inj hread
  suffices h : s'.members = s.members ∧ s'.pool = if namesEnum s.members.symbols n.identifier
      then { s.pool with types := s.pool.types.modify id fun t => { t with type := .enum } }
      else s.pool from ⟨h.1, t, n, ht, hn, h.2⟩
  split at hrun₃
  · next hsymbol =>
    have hquiet := quiet_reportAt _ _ _ hrun₃
    refine ⟨hquiet.members, hquiet.pool.trans (if_neg ?_).symm⟩
    rw [namesEnum, hsymbol]
    exact Bool.false_ne_true
  · next symbol hsymbol =>
    split at hrun₃
    · next hkind =>
      obtain ⟨_, _, hmodify, hcheck⟩ := run_bind_eq_ok.1 hrun₃
      obtain ⟨-, rfl⟩ := Outcome.ok.inj hmodify
      have hquiet := quiet_checkTypeOfDirective _ _ _ hcheck
      refine ⟨hquiet.members, hquiet.pool.trans (if_pos ?_).symm⟩
      rw [namesEnum, hsymbol]
      exact decide_eq_true hkind
    · next hkind =>
      have hquiet : Quiet s s' := keeps_bind (keeps_when quiet_checkInputType)
        (fun _ => keeps_when quiet_reportAt) _ _ _ hrun₃
      refine ⟨hquiet.members, hquiet.pool.trans (if_neg ?_).symm⟩
      rw [namesEnum, hsymbol]
      exact fun htrue => hkind (of_decide_eq_true htrue)

/-- The nodes are tagged by their names, when those under the given indices were visited. -/
structure Tagged (symbols : UstringMap Symbol) (visited : List TypeId) (types : List TypeNode) :
    Prop where
  unnamed : ∀ t ∈ types, t.name = none → t.type.isScalar = true
  named : ∀ i t n, types[i]? = some t → t.name = some n →
    t.type = if i ∈ visited ∧ namesEnum symbols n.identifier = true then .enum else .object

theorem tagged_of_wellFormed {types : List TypeNode} {references : List TypeId}
    (h : TypesWellFormed types references) (symbols : UstringMap Symbol) :
    Tagged symbols [] types := by
  refine ⟨fun t ht hname => ?_, fun i t n ht hname => ?_⟩
  · rcases h.parsed t ht with ⟨-, hscalar⟩ | ⟨hsome, -⟩
    · exact hscalar
    · rw [hname] at hsome
      cases hsome
  · rw [if_neg fun hvisited => absurd hvisited.1 List.not_mem_nil]
    rcases h.parsed t (List.mem_of_getElem? ht) with ⟨hnone, -⟩ | ⟨-, hobject⟩
    · rw [hnone] at hname
      cases hname
    · exact hobject

theorem Tagged.visit {symbols : UstringMap Symbol} {visited : List TypeId} {types : List TypeNode}
    (h : Tagged symbols visited types) {id : TypeId} {t : TypeNode} {n : Name}
    (ht : types[id]? = some t) (hn : t.name = some n) :
    Tagged symbols (visited ++ [id]) (if namesEnum symbols n.identifier
      then types.modify id fun t => { t with type := .enum } else types) := by
  have hvisited : ∀ {i : TypeId}, i ≠ id → (i ∈ visited ++ [id] ↔ i ∈ visited) := by
    intro i hi
    rw [List.mem_append, List.mem_singleton]
    exact or_iff_left hi
  split
  · next henum =>
    refine ⟨fun u hu hname => ?_, fun i u m hu hm => ?_⟩
    · obtain ⟨i, hi⟩ := List.mem_iff_getElem?.1 hu
      rw [List.getElem?_modify] at hi
      obtain ⟨u₀, hu₀, rfl⟩ := Option.map_eq_some_iff.1 hi
      by_cases hid : id = i
      · rw [if_pos hid] at hname
        obtain rfl := Option.some.inj (ht.symm.trans (hid ▸ hu₀))
        cases hn.symm.trans hname
      · rw [if_neg hid] at hname ⊢
        exact h.unnamed u₀ (List.mem_of_getElem? hu₀) hname
    · rw [List.getElem?_modify] at hu
      obtain ⟨u₀, hu₀, rfl⟩ := Option.map_eq_some_iff.1 hu
      by_cases hid : id = i
      · rw [if_pos hid] at hm ⊢
        obtain rfl := Option.some.inj (ht.symm.trans (hid ▸ hu₀))
        obtain rfl := Option.some.inj (hn.symm.trans hm)
        rw [if_pos ⟨List.mem_append_right _ (List.mem_singleton.2 hid.symm), henum⟩]
      · rw [if_neg hid] at hm ⊢
        rw [h.named i u₀ m hu₀ hm]
        simp only [hvisited (Ne.symm hid)]
  · next henum =>
    refine ⟨h.unnamed, fun i u m hu hm => ?_⟩
    rw [h.named i u m hu hm]
    by_cases hid : i = id
    · obtain rfl := Option.some.inj (ht.symm.trans (hid ▸ hu))
      obtain rfl := Option.some.inj (hn.symm.trans hm)
      rw [if_neg fun hboth => henum hboth.2, if_neg fun hboth => henum hboth.2]
    · simp only [hvisited hid]

/-- The tags after a part of the references. -/
theorem tagged_forM {references visited : List TypeId} {s s' : GraphQlSchema}
    (h : Tagged s.members.symbols visited s.pool.types)
    (hrun : (references.forM checkForwardReference).run s = .ok () s') :
    Tagged s.members.symbols (visited ++ references) s'.pool.types := by
  induction references generalizing visited s with
  | nil =>
    obtain ⟨-, rfl⟩ := Outcome.ok.inj hrun
    rw [List.append_nil]
    exact h
  | cons id references ih =>
    obtain ⟨_, s₁, hfirst, hrest⟩ := run_bind_eq_ok.1 hrun
    obtain ⟨hmembers, t, n, ht, hn, hpool⟩ := types_checkForwardReference hfirst
    have htagged : Tagged s₁.members.symbols (visited ++ [id]) s₁.pool.types := by
      have hvisit := h.visit ht hn
      rw [hmembers, hpool]
      split
      · next henum => rwa [if_pos henum] at hvisit
      · next henum => rwa [if_neg henum] at hvisit
    have hfinal := ih htagged hrest
    rwa [hmembers, List.append_assoc, List.singleton_append] at hfinal

theorem map_modify_of_eq {α β : Type} {g : α → β} {f : α → α} (h : ∀ x, g (f x) = g x) {xs : List α}
    {i : Nat} : (xs.modify i f).map g = xs.map g := by
  refine List.ext_getElem? fun j => ?_
  rw [List.getElem?_map, List.getElem?_map, List.getElem?_modify]
  cases xs[j]? with
  | none => rfl
  | some x =>
    by_cases hij : i = j
    · simp only [hij, if_true, Option.map_eq_map, Option.map_some, h]
    · simp only [hij, if_false, Option.map_eq_map, Option.map_some]

/-- Nothing but the tags of the nodes changes. -/
structure KeepsNodes (s s' : GraphQlSchema) : Prop where
  members : s'.members = s.members
  declarations : s'.pool.declarations = s.pool.declarations
  types : s'.pool.types.map TypeNode.untagged = s.pool.types.map TypeNode.untagged

instance : IsPreorder GraphQlSchema KeepsNodes where
  refl _ := ⟨rfl, rfl, rfl⟩
  trans _ _ _ h h' := ⟨h'.members.trans h.members, h'.declarations.trans h.declarations,
    h'.types.trans h.types⟩

theorem keepsNodes_checkForwardReference {id : TypeId} :
    Keeps KeepsNodes (checkForwardReference id) := by
  intro s _ s' hrun
  obtain ⟨hmembers, t, n, -, -, hpool⟩ := types_checkForwardReference hrun
  refine ⟨hmembers, ?_, ?_⟩
  · rw [hpool]
    split <;> rfl
  · rw [hpool]
    split
    · have htag : ∀ t : TypeNode, TypeNode.untagged { t with type := .enum } = t.untagged :=
        fun _ => rfl
      exact map_modify_of_eq htag
    · rfl

/-- A node of the one state is one of the other, its tag apart. -/
theorem KeepsNodes.node {s s' : GraphQlSchema} (h : KeepsNodes s s') {i : TypeId} {t : TypeNode}
    (ht : s'.pool.types[i]? = some t) :
    ∃ t₀, s.pool.types[i]? = some t₀ ∧ t₀.untagged = t.untagged := by
  have hmap := congrArg (·[i]?) h.types
  simp only [List.getElem?_map, ht, Option.map_some] at hmap
  exact Option.map_eq_some_iff.1 hmap.symm

namespace Phases

variable {source : Ustring} {schema : GraphQlSchema} (p : Phases source schema)

theorem types_rooted :
    TypesWellFormed p.rooted.pool.types p.rooted.members.forwardTypeReferences := by
  have hkeeps := keptByParts_typed.keeps_setRootTypes _ _ _ p.setRoots
  exact hkeeps (typesWellFormed_parseDocument p.parse)

/-- The tags of the nodes in the end. -/
theorem tagged_linked :
    Tagged p.rooted.members.symbols p.rooted.members.forwardTypeReferences p.linked.pool.types :=
  tagged_forM (tagged_of_wellFormed p.types_rooted _) p.link

theorem nodes_linked : KeepsNodes p.rooted p.linked :=
  keeps_forM (fun _ _ => keepsNodes_checkForwardReference) _ _ _ p.link

/-- The named nodes are the references in the end too. -/
theorem mem_references {i : TypeId} {t : TypeNode} (ht : p.linked.pool.types[i]? = some t)
    (hname : t.name.isSome = true) : i ∈ p.rooted.members.forwardTypeReferences := by
  obtain ⟨t₀, ht₀, huntagged⟩ := p.nodes_linked.node ht
  have hsame : t₀.untagged.name = t.untagged.name := congrArg TypeNode.name huntagged
  exact (p.types_rooted.references i).2 ⟨t₀, ht₀, by rwa [show t₀.name = t.name from hsame]⟩

theorem tabled_rooted : Tabled (fun _ => False) p.rooted :=
  (tabled_parseDocument p.parse).same (keptByParts_same.keeps_setRootTypes _ _ _ p.setRoots)

end Phases

end GraphQlSchema

end Flashpoint
