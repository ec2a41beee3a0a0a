import Flashpoint.Library.Occurrences
import Flashpoint.Schema.Phases

/-!
# Duplicate types of a schema

The run of the constructor records the name of every type definition that it registers. A definition
whose name is taken is reported, and the first of the name with the first such report; a union is
registered without a look at the names before it. `TypesNoted` is the invariant that says so.
-/

namespace Flashpoint

open Library Climb

namespace GraphQlSchema

open ParserM

/-- A definition of a type: its name, the place of the name, its node and its kind. -/
structure DefinedType where
  name : Ustring
  span : Span
  id : DeclarationId
  kind : SymbolKind
deriving DecidableEq

/-- The definition that a step registers. -/
def typeOf : Step → Option DefinedType
  | .defineType name span id kind => some ⟨name, span, id, kind⟩
  | _ => none

/-- The type definitions of a run, in the order of the source. -/
def typesOf (steps : List Step) : List DefinedType := steps.filterMap typeOf

theorem typesOf_append (steps steps' : List Step) :
    typesOf (steps ++ steps') = typesOf steps ++ typesOf steps' := List.filterMap_append

namespace DefinedType

/-- The name with its place. -/
def named (t : DefinedType) : Ustring × Span := (t.name, t.span)

def symbol (t : DefinedType) : Symbol := ⟨t.name, t.id, t.kind⟩

/-- Whether the names before are looked at: they are not for a union. -/
def isCompared (_ : List DefinedType) (t : DefinedType) : Bool := !decide (t.kind = .union)

end DefinedType

/-- What is told of a definition after those before it. -/
def tellType : List DefinedType → DefinedType → List DefinedType :=
  tellIf DefinedType.name DefinedType.isCompared
    (firstTime DefinedType.name DefinedType.isCompared)

/-- The state of a run: every name stands for its first definition, the names noted as duplicates are
those with a later definition that is compared, the nodes have the names they were registered with,
and the reports are those told. -/
structure TypesNoted (s : GraphQlSchema) : Prop where
  errors : ∀ e ∈ s.scanner.errors, e.template.isLexical = true
  first : ∀ name, s.members.symbols.find? name =
    ((typesOf s.steps).find? fun t => t.name = name).map DefinedType.symbol
  noted : ∀ name, (s.members.duplicateSymbols.find? name).isSome = true ↔
    times DefinedType.name (again DefinedType.name DefinedType.isCompared (typesOf s.steps)) name ≠ 0
  known : ∀ t ∈ typesOf s.steps, t.id < s.pool.declarations.length
  named : ∀ t ∈ typesOf s.steps, ∀ d, s.pool.declarations[t.id]? = some d →
    ∀ name, d.name = some name → name = ⟨t.span, t.name⟩
  reports : List.Forall₂ (IsReportOf .duplicateType0 s) (reportsOf .duplicateType0 s.diagnostics)
    ((along tellType [] (typesOf s.steps)).map DefinedType.named)

theorem typesNoted_initial (source : Ustring) : TypesNoted (initial source) where
  errors _ he := absurd he List.not_mem_nil
  first _ := rfl
  noted name := by
    rw [show (initial source).members.duplicateSymbols.find? name = none from rfl]
    exact ⟨nofun, fun h => absurd rfl h⟩
  known _ ht := absurd ht List.not_mem_nil
  named _ ht := absurd ht List.not_mem_nil
  reports := .nil

/-- Every definition with the node has the name. -/
def Owns (id : DeclarationId) (name : Name) (s : GraphQlSchema) : Prop :=
  ∀ t ∈ typesOf s.steps, t.id = id → name = ⟨t.span, t.name⟩

/-- Nothing about types was reported or recorded, and only nodes with the names they had changed. -/
theorem TypesNoted.quiet {s s' : GraphQlSchema} (h : TypesNoted s)
    (hscanner : s.scanner.Advances s'.scanner)
    (herrors : ∀ e ∈ s'.scanner.errors, e.template.isLexical = true)
    (hdiagnostics : reportsOf .duplicateType0 s'.diagnostics =
      reportsOf .duplicateType0 s.diagnostics)
    (hsteps : typesOf s'.steps = typesOf s.steps)
    (hsymbols : s'.members.symbols = s.members.symbols)
    (hduplicates : s'.members.duplicateSymbols = s.members.duplicateSymbols)
    (hlength : s.pool.declarations.length ≤ s'.pool.declarations.length)
    (hnamed : ∀ t ∈ typesOf s.steps, ∀ d, s'.pool.declarations[t.id]? = some d →
      ∀ name, d.name = some name → name = ⟨t.span, t.name⟩) : TypesNoted s' where
  errors := herrors
  first name := by rw [hsymbols, hsteps]; exact h.first name
  noted name := by rw [hduplicates, hsteps]; exact h.noted name
  known t ht := by
    rw [hsteps] at ht
    exact Nat.lt_of_lt_of_le (h.known t ht) hlength
  named t ht := by
    rw [hsteps] at ht
    exact hnamed t ht
  reports := by
    rw [hdiagnostics, hsteps]
    exact h.reports.imp fun _ _ hreport => hreport.later hscanner

/-! ## The parts of a definition -/

/-- The invariant is kept, and the types and the nodes stay. -/
structure KeepsTypes (s s' : GraphQlSchema) : Prop where
  noted : TypesNoted s → TypesNoted s'
  types : typesOf s'.steps = typesOf s.steps
  declarations : s'.pool.declarations = s.pool.declarations

instance : IsPreorder GraphQlSchema KeepsTypes where
  refl _ := ⟨id, rfl, rfl⟩
  trans _ _ _ h h' := ⟨fun hs => h'.noted (h.noted hs), h'.types.trans h.types,
    h'.declarations.trans h.declarations⟩

theorem keepsTypes_of_eq {s s' : GraphQlSchema} (hscanner : s'.scanner = s.scanner)
    (hdiagnostics : s'.diagnostics = s.diagnostics) (hsteps : s'.steps = s.steps)
    (hdeclarations : s'.pool.declarations = s.pool.declarations)
    (hsymbols : s'.members.symbols = s.members.symbols)
    (hduplicates : s'.members.duplicateSymbols = s.members.duplicateSymbols) : KeepsTypes s s' where
  noted hs := by
    refine hs.quiet (hscanner ▸ .rfl) (hscanner ▸ hs.errors) (by rw [hdiagnostics])
      (by rw [hsteps]) hsymbols hduplicates (by rw [hdeclarations]) ?_
    rw [hdeclarations]
    exact hs.named
  types := by rw [hsteps]
  declarations := hdeclarations

theorem keepsTypes_of_same {s s' : GraphQlSchema} (hscanner : s'.scanner = s.scanner)
    (h : SameSymbols s s') : KeepsTypes s s' :=
  keepsTypes_of_eq hscanner h.diagnostics h.steps h.declarations h.symbols h.duplicateSymbols

theorem keepsTypes_modifyType {id : TypeId} {f : TypeNode → TypeNode} :
    Keeps KeepsTypes (modifyType id f : SchemaM Unit) :=
  keeps_step fun _ => keepsTypes_of_eq rfl rfl rfl rfl rfl rfl

theorem keepsTypes_modifyMembers {f : SchemaMembers → SchemaMembers}
    (hsymbols : ∀ m, (f m).symbols = m.symbols)
    (hduplicates : ∀ m, (f m).duplicateSymbols = m.duplicateSymbols) :
    Keeps KeepsTypes (modifyMembers f) :=
  keeps_step fun s => keepsTypes_of_eq rfl rfl rfl rfl (hsymbols s.members) (hduplicates s.members)

theorem keptByReport_types {template : D} (h : template ≠ .duplicateType0) :
    KeptByReport KeepsTypes template := by
  intro s d hd
  refine ⟨fun hs => hs.quiet .rfl hs.errors ?_ rfl rfl rfl (Nat.le_refl _) hs.named, rfl, rfl⟩
  rw [reportsOf_append, reportsOf_other (by rw [hd]; exact h), List.append_nil]

theorem keptByParts_types : KeptByParts KeepsTypes where
  change _ _ hscanner h := keepsTypes_of_same hscanner h.toSameSymbols
  setFlags _ _ _ := keepsTypes_modifyType
  addType _ _ _ := keepsTypes_of_eq rfl rfl rfl rfl rfl rfl
  report template htemplate := by
    refine keptByReport_types fun heq => ?_
    rw [heq] at htemplate
    cases htemplate
  scan s scanner hadvances hnotes := by
    obtain ⟨errors, hnew, hlexical⟩ := hnotes
    refine ⟨fun hs => hs.quiet hadvances (fun e he => ?_) rfl rfl rfl rfl (Nat.le_refl _) hs.named,
      rfl, rfl⟩
    rw [hnew] at he
    rcases List.mem_append.1 he with he | he
    · exact hlexical e he
    · exact hs.errors e he
  takeErrors := by
    refine keeps_step fun s => ⟨fun hs => ?_, rfl, rfl⟩
    refine hs.quiet ⟨rfl, Nat.le_refl _⟩ (fun e he => absurd he List.not_mem_nil) ?_ rfl rfl rfl
      (Nat.le_refl _) hs.named
    rw [reportsOf_append, reportsOf_lexical rfl hs.errors, List.append_nil]
  update _ _ hscanner h := keepsTypes_of_same hscanner h
  reportArgument := keptByReport_types nofun
  addDirective s directive _ :=
    ⟨fun hs => hs.quiet .rfl hs.errors rfl rfl rfl rfl (Nat.le_refl _) hs.named, rfl, rfl⟩

/-! ## A definition -/

section Register

variable {s : GraphQlSchema} {t : DefinedType}

theorem typesOf_snoc (steps : List Step) (t : DefinedType) :
    typesOf (steps ++ [.defineType t.name t.span t.id t.kind]) = typesOf steps ++ [t] :=
  typesOf_append _ _

/-- The symbols after the definition: it is the first of its name, or there is one already. -/
theorem TypesNoted.symbol (h : TypesNoted s) (name : Ustring) :
    (s.members.symbols.emplace t.name t.symbol).find? name =
      ((typesOf s.steps ++ [t]).find? fun t' => t'.name = name).map DefinedType.symbol := by
  rw [SortedMap.find?_emplace, List.find?_append, h.first t.name, h.first name]
  by_cases hname : name = t.name
  · subst hname
    rw [if_pos rfl]
    cases (typesOf s.steps).find? fun t' => t'.name = t.name with
    | none => simp
    | some first => rfl
  · rw [if_neg hname]
    cases (typesOf s.steps).find? fun t' => t'.name = name with
    | none => simp [Ne.symm hname]
    | some first => rfl

theorem TypesNoted.known_snoc (h : TypesNoted s) (hid : t.id < s.pool.declarations.length) :
    ∀ t' ∈ typesOf s.steps ++ [t], t'.id < s.pool.declarations.length := by
  intro t' ht'
  rcases List.mem_append.1 ht' with ht' | ht'
  · exact h.known t' ht'
  · exact List.mem_singleton.1 ht' ▸ hid

theorem TypesNoted.named_snoc (h : TypesNoted s)
    (hnode : ∀ d, s.pool.declarations[t.id]? = some d → ∀ name, d.name = some name →
      name = ⟨t.span, t.name⟩) :
    ∀ t' ∈ typesOf s.steps ++ [t], ∀ d, s.pool.declarations[t'.id]? = some d →
      ∀ name, d.name = some name → name = ⟨t'.span, t'.name⟩ := by
  intro t' ht'
  rcases List.mem_append.1 ht' with ht' | ht'
  · exact h.named t' ht'
  · exact List.mem_singleton.1 ht' ▸ hnode

/-- A definition of a new name, or a union: nothing is told. -/
theorem TypesNoted.register (h : TypesNoted s) (hid : t.id < s.pool.declarations.length)
    (hnode : ∀ d, s.pool.declarations[t.id]? = some d → ∀ name, d.name = some name →
      name = ⟨t.span, t.name⟩)
    (hsilent : s.members.symbols.find? t.name = none ∨ t.kind = .union) {members : SchemaMembers}
    (hsymbols : members.symbols = s.members.symbols.emplace t.name t.symbol)
    (hduplicates : members.duplicateSymbols = s.members.duplicateSymbols) :
    TypesNoted { s with
      steps := s.steps ++ [.defineType t.name t.span t.id t.kind]
      members } := by
  have hnone : ¬ (times DefinedType.name (typesOf s.steps) t.name ≠ 0 ∧
      DefinedType.isCompared (typesOf s.steps) t = true) := by
    rintro ⟨htaken, hcompared⟩
    rcases hsilent with hnew | hunion
    · rw [h.first, Option.map_eq_none_iff, find?_key_eq_none] at hnew
      exact htaken hnew
    · simp [DefinedType.isCompared, hunion] at hcompared
  have htell : tellType (typesOf s.steps) t = [] := by
    unfold tellType tellIf
    split
    · rfl
    · next first hfirst =>
      have htaken : times DefinedType.name (typesOf s.steps) t.name ≠ 0 := fun hzero => by
        rw [find?_key_eq_none.2 hzero] at hfirst
        cases hfirst
      have hnot : DefinedType.isCompared (typesOf s.steps) t = false :=
        Bool.eq_false_iff.2 fun hcompared => hnone ⟨htaken, hcompared⟩
      simp [firstTime, hnot]
  refine ⟨h.errors, ?_, ?_, ?_, ?_, ?_⟩
  · simp only [typesOf_snoc, hsymbols]
    exact h.symbol
  · simp only [typesOf_snoc, hduplicates, again_snoc, if_neg hnone, List.append_nil]
    exact h.noted
  · simp only [typesOf_snoc]
    exact h.known_snoc hid
  · simp only [typesOf_snoc]
    exact h.named_snoc hnode
  · simp only [typesOf_snoc, along_snoc, htell, List.append_nil]
    exact h.reports

/-- A definition that is compared and whose name is taken. -/
theorem TypesNoted.redefine {s' : GraphQlSchema} (h : TypesNoted s)
    (hid : t.id < s.pool.declarations.length)
    (hnode : ∀ d, s.pool.declarations[t.id]? = some d → ∀ name, d.name = some name →
      name = ⟨t.span, t.name⟩)
    (hcompared : t.kind ≠ .union) (htaken : s.members.symbols.find? t.name ≠ none)
    (hscanner : s'.scanner = s.scanner) (hpool : s'.pool = s.pool)
    (hsteps : s'.steps = s.steps ++ [.defineType t.name t.span t.id t.kind])
    (hsymbols : s'.members.symbols = s.members.symbols)
    (hduplicates : ∀ name, (s'.members.duplicateSymbols.find? name).isSome = true ↔
      (s.members.duplicateSymbols.find? name).isSome = true ∨ name = t.name)
    {new : List DiagnosticMessage} (hdiagnostics : s'.diagnostics = s.diagnostics ++ new)
    (hnew : List.Forall₂ (IsReportOf .duplicateType0 s) new
      ((tellType (typesOf s.steps) t).map DefinedType.named)) :
    TypesNoted s' := by
  have htimes : times DefinedType.name (typesOf s.steps) t.name ≠ 0 := fun hzero => by
    rw [← find?_key_eq_none, ← Option.map_eq_none_iff (f := DefinedType.symbol), ← h.first] at hzero
    exact htaken hzero
  have hcond : times DefinedType.name (typesOf s.steps) t.name ≠ 0 ∧
      DefinedType.isCompared (typesOf s.steps) t = true :=
    ⟨htimes, by simp [DefinedType.isCompared, hcompared]⟩
  have hadvances : s.scanner.Advances s'.scanner := hscanner ▸ .rfl
  refine ⟨hscanner ▸ h.errors, fun name => ?_, fun name => ?_, ?_, ?_, ?_⟩
  · rw [hsteps, typesOf_snoc, hsymbols, ← h.symbol, SortedMap.find?_emplace]
    split
    · next hname =>
      subst hname
      obtain ⟨first, hfirst⟩ := Option.ne_none_iff_exists'.1 htaken
      rw [hfirst]
      rfl
    · rfl
  · rw [hsteps, typesOf_snoc, again_snoc, if_pos hcond, hduplicates, h.noted, times_snoc]
    by_cases hname : t.name = name
    · simp [hname]
    · simp only [Ne.symm hname, or_false, hname, if_false, Nat.add_zero]
  · rw [hsteps, typesOf_snoc, hpool]
    exact h.known_snoc hid
  · rw [hsteps, typesOf_snoc, hpool]
    exact h.named_snoc hnode
  · rw [hsteps, typesOf_snoc, along_snoc, List.map_append, hdiagnostics, reportsOf_append,
      reportsOf_reports hnew]
    exact List.rel_append (h.reports.imp fun _ _ hreport => hreport.later hadvances)
      (hnew.imp fun _ _ hreport => hreport.later hadvances)

/-- What is told of it: the definition, and the first one when it was not told yet. -/
theorem TypesNoted.tellType_eq (h : TypesNoted s) (hcompared : t.kind ≠ .union)
    {first : DefinedType} (hfirst : (typesOf s.steps).find? (fun t' => t'.name = t.name) = some first) :
    tellType (typesOf s.steps) t =
      if (s.members.duplicateSymbols.find? t.name).isSome then [t] else [t, first] := by
  have hnoted := h.noted t.name
  simp only [tellType, tellIf, hfirst, DefinedType.isCompared, hcompared, decide_false,
    Bool.not_false, if_true, firstTime, Bool.true_and, decide_eq_true_eq]
  by_cases hzero : times DefinedType.name
      (again DefinedType.name DefinedType.isCompared (typesOf s.steps)) t.name = 0
  · rw [if_pos hzero, if_neg fun hsome => hnoted.1 hsome hzero]
    rfl
  · rw [if_neg hzero, if_pos (hnoted.2 hzero), List.append_nil]

end Register

/-- The state after a definition was registered. -/
structure Registered (t : DefinedType) (s s' : GraphQlSchema) : Prop where
  noted : TypesNoted s'
  types : typesOf s'.steps = typesOf s.steps ++ [t]
  pool : s'.pool = s.pool

theorem registered_registerSymbol {name : Name} {id : DeclarationId} {kind : SymbolKind}
    {s s' : GraphQlSchema} (h : TypesNoted s) (hid : id < s.pool.declarations.length)
    (hnode : ∀ d, s.pool.declarations[id]? = some d → ∀ n, d.name = some n → n = name)
    (hkind : kind ≠ .union) (hrun : (registerSymbol name id kind).run s = .ok () s') :
    Registered ⟨name.identifier, name.span, id, kind⟩ s s' := by
  obtain ⟨_, _, hrecord, hrun₁⟩ := run_bind_eq_ok.1 hrun
  obtain ⟨-, rfl⟩ := Outcome.ok.inj hrecord
  obtain ⟨_, _, hread, hrun₂⟩ := run_bind_eq_ok.1 hrun₁
  obtain ⟨rfl, rfl⟩ := Outcome.ok.inj hread
  split at hrun₂
  · next hnew =>
    obtain ⟨-, rfl⟩ := Outcome.ok.inj hrun₂
    refine ⟨?_, typesOf_append _ _, rfl⟩
    exact h.register (t := ⟨name.identifier, name.span, id, kind⟩) hid hnode (.inl hnew) rfl rfl
  next result hresult =>
  obtain ⟨location, _, hget, hrun₃⟩ := run_bind_eq_ok.1 hrun₂
  obtain ⟨hlocation, rfl⟩ := run_require_eq_ok.1 hget
  obtain ⟨_, _, hadd, hrun₄⟩ := run_bind_eq_ok.1 hrun₃
  obtain ⟨-, rfl⟩ := Outcome.ok.inj hadd
  obtain ⟨_, _, hread', hrun₅⟩ := run_bind_eq_ok.1 hrun₄
  obtain ⟨rfl, rfl⟩ := Outcome.ok.inj hread'
  have htaken : s.members.symbols.find? name.identifier = some result := hresult
  obtain ⟨first, hfirst, rfl⟩ : ∃ first, (typesOf s.steps).find?
      (fun t => t.name = name.identifier) = some first ∧ first.symbol = result := by
    rw [h.first] at htaken
    exact Option.map_eq_some_iff.1 htaken
  have htell := h.tellType_eq (t := ⟨name.identifier, name.span, id, kind⟩) hkind hfirst
  have hreport : IsReportOf .duplicateType0 s ⟨.duplicateType0, [name.identifier], location⟩
      (name.identifier, name.span) := ⟨s.scanner, .rfl, location, .inl hlocation, rfl⟩
  by_cases hnoted : s.members.duplicateSymbols.find? name.identifier = none
  · rw [show when _ _ = _ from if_pos hnoted] at hrun₅
    obtain ⟨d, _, hdeclaration, hrun₆⟩ := run_bind_eq_ok.1 hrun₅
    obtain ⟨hd, rfl⟩ := run_require_eq_ok.1 hdeclaration
    obtain ⟨firstName, _, hfollow, hrun₇⟩ := run_bind_eq_ok.1 hrun₆
    obtain ⟨hname, rfl⟩ := run_require_eq_ok.1 hfollow
    obtain ⟨location', _, hget', hrun₈⟩ := run_bind_eq_ok.1 hrun₇
    obtain ⟨hlocation', rfl⟩ := run_require_eq_ok.1 hget'
    obtain ⟨_, _, hadd', hmodify⟩ := run_bind_eq_ok.1 hrun₈
    obtain ⟨-, rfl⟩ := Outcome.ok.inj hadd'
    obtain ⟨-, rfl⟩ := Outcome.ok.inj hmodify
    obtain rfl := h.named first (List.mem_of_find?_eq_some hfirst) d hd firstName hname
    have hreport' : IsReportOf .duplicateType0 s ⟨.duplicateType0, [first.name], location'⟩
        (first.name, first.span) := ⟨s.scanner, .rfl, location', .inl hlocation', rfl⟩
    rw [if_neg (by simp [hnoted])] at htell
    refine ⟨?_, typesOf_append _ _, rfl⟩
    refine h.redefine (t := ⟨name.identifier, name.span, id, kind⟩) hid hnode hkind
      (by simp [htaken]) rfl rfl rfl rfl (fun other => ?_) (List.append_assoc _ _ _)
      (by rw [htell]; exact .cons hreport (.cons hreport' .nil))
    rw [← SortedMap.mem_keys_iff, ← SortedMap.mem_keys_iff]
    exact SortedMap.mem_keys_emplace
  · rw [show when _ _ = _ from if_neg hnoted] at hrun₅
    obtain ⟨-, rfl⟩ := Outcome.ok.inj hrun₅
    have hsome : (s.members.duplicateSymbols.find? name.identifier).isSome = true :=
      Option.isSome_iff_ne_none.2 hnoted
    rw [if_pos hsome] at htell
    refine ⟨?_, typesOf_append _ _, rfl⟩
    refine h.redefine (t := ⟨name.identifier, name.span, id, kind⟩) hid hnode hkind
      (by simp [htaken]) rfl rfl rfl rfl (fun other => ⟨.inl, ?_⟩) rfl
      (by rw [htell]; exact .cons hreport .nil)
    rintro (hother | rfl)
    · exact hother
    · exact hsome

/-! ## The readers of the definitions -/

/-- A node that no definition has yet. -/
structure IsFresh (id : DeclarationId) (d : Declaration) (s : GraphQlSchema) : Prop where
  node : s.pool.declarations[id]? = some d
  new : ∀ t ∈ typesOf s.steps, t.id ≠ id

theorem IsFresh.lt {id : DeclarationId} {d : Declaration} {s : GraphQlSchema} (h : IsFresh id d s) :
    id < s.pool.declarations.length := by
  obtain ⟨hlt, -⟩ := List.getElem?_eq_some_iff.1 h.node
  exact hlt

theorem IsFresh.keep {id : DeclarationId} {d : Declaration} {s s' : GraphQlSchema}
    (h : IsFresh id d s) (hs : KeepsTypes s s') : IsFresh id d s' where
  node := by rw [hs.declarations]; exact h.node
  new := by rw [hs.types]; exact h.new

theorem noted_createDeclaration {d : Declaration} {s s' : GraphQlSchema} {id : DeclarationId}
    (h : TypesNoted s) (hrun : (createDeclaration d : SchemaM DeclarationId).run s = .ok id s') :
    TypesNoted s' ∧ IsFresh id d s' := by
  obtain ⟨rfl, rfl⟩ := Outcome.ok.inj hrun
  refine ⟨?_, ?_, fun t ht hid => ?_⟩
  · refine h.quiet .rfl h.errors rfl rfl rfl rfl ?_ fun t ht d' hd' => ?_
    · exact List.length_append ▸ Nat.le_add_right _ _
    · rw [show (s.pool.declarations ++ [d])[t.id]? = s.pool.declarations[t.id]? from
        List.getElem?_append_left (h.known t ht)] at hd'
      exact h.named t ht d' hd'
  · exact List.getElem?_concat_length
  · exact absurd (h.known t ht) (hid ▸ Nat.lt_irrefl _)

/-- The invariant is kept while the node is the one of the name. -/
def KeepsOwned (id : DeclarationId) (name : Name) (s s' : GraphQlSchema) : Prop :=
  TypesNoted s ∧ Owns id name s → TypesNoted s' ∧ Owns id name s'

section Owned

variable {id : DeclarationId} {name : Name}

instance : IsPreorder GraphQlSchema (KeepsOwned id name) where
  refl _ h := h
  trans _ _ _ h h' hs := h' (h hs)

variable (id name) in
theorem keptByParts_owned : KeptByParts (KeepsOwned id name) :=
  keptByParts_types.mono fun _ _ h hs =>
    ⟨h.noted hs.1, fun t ht => hs.2 t (h.types ▸ ht)⟩

/-- The tables of the interfaces and of the objects to check are not looked at. -/
theorem keepsOwned_modifyMembers {f : SchemaMembers → SchemaMembers}
    (hsymbols : ∀ m, (f m).symbols = m.symbols)
    (hduplicates : ∀ m, (f m).duplicateSymbols = m.duplicateSymbols) :
    Keeps (KeepsOwned id name) (modifyMembers f) := by
  intro s a s' hrun hs
  have h := keepsTypes_modifyMembers hsymbols hduplicates s a s' hrun
  exact ⟨h.noted hs.1, fun t ht => hs.2 t (h.types ▸ ht)⟩

theorem keepsOwned_setDeclaration {d : Declaration} (hd : d.name = some name) :
    Keeps (KeepsOwned id name) (setDeclaration id d : SchemaM Unit) := by
  refine keeps_step fun s hs => ⟨?_, hs.2⟩
  refine hs.1.quiet .rfl hs.1.errors rfl rfl rfl rfl ?_ fun t ht d' hd' n hn => ?_
  · exact Nat.le_of_eq (List.length_set).symm
  · rw [List.getElem?_set] at hd'
    split at hd'
    · next hid =>
      split at hd'
      · obtain rfl := Option.some.inj hd'
        obtain rfl := Option.some.inj (hd.symm.trans hn)
        exact hs.2 t ht hid.symm
      · cases hd'
    · exact hs.1.named t ht d' hd' n hn

end Owned

theorem owned_registerSymbol {name : Name} {id : DeclarationId} {kind : SymbolKind} {d : Declaration}
    {s s' : GraphQlSchema} (h : TypesNoted s) (hfresh : IsFresh id d s)
    (hnode : ∀ n, d.name = some n → n = name) (hkind : kind ≠ .union)
    (hrun : (registerSymbol name id kind).run s = .ok () s') : TypesNoted s' ∧ Owns id name s' := by
  have hregistered := registered_registerSymbol h hfresh.lt
    (fun d' hd' => Option.some.inj (hfresh.node.symm.trans hd') ▸ hnode) hkind hrun
  refine ⟨hregistered.noted, fun t ht hid => ?_⟩
  rw [hregistered.types] at ht
  rcases List.mem_append.1 ht with ht | ht
  · exact absurd hid (hfresh.new t ht)
  · rw [List.mem_singleton.1 ht]

theorem noted_parseDefinitionName {id : DeclarationId} {kind : SymbolKind} {d : Declaration}
    {treatKeywordAsName : Bool} {name? : Option Name} {s s' : GraphQlSchema} (h : TypesNoted s)
    (hfresh : IsFresh id d s) (hnone : d.name = none) (hkind : kind ≠ .union)
    (hrun : (parseDefinitionName id kind treatKeywordAsName).run s = .ok name? s') :
    TypesNoted s' ∧ ∀ name, name? = some name → Owns id name s' := by
  obtain ⟨found, s₁, hscan, hrun₁⟩ := run_bind_eq_ok.1 hrun
  have hkeeps := keptByParts_types.keeps_scanExpectedOr rfl _ _ _ hscan
  split at hrun₁
  · obtain ⟨value, _, hvalue, hrun₂⟩ := run_bind_eq_ok.1 hrun₁
    obtain ⟨-, rfl⟩ := Outcome.ok.inj hvalue
    obtain ⟨name, s₂, hname, hrun₃⟩ := run_bind_eq_ok.1 hrun₂
    have hkeeps' := keptByParts_types.keeps_createName _ _ _ hname
    obtain ⟨_, _, hregister, hpure⟩ := run_bind_eq_ok.1 hrun₃
    obtain ⟨rfl, rfl⟩ := Outcome.ok.inj hpure
    obtain ⟨hnoted, howns⟩ := owned_registerSymbol (hkeeps'.noted (hkeeps.noted h))
      ((hfresh.keep hkeeps).keep hkeeps') (by rw [hnone]; exact nofun) hkind hregister
    exact ⟨hnoted, fun other hother => Option.some.inj hother ▸ howns⟩
  · obtain ⟨rfl, rfl⟩ := Outcome.ok.inj hrun₁
    exact ⟨hkeeps.noted h, nofun⟩

/-- The invariant is kept from one state to the other. -/
def KeepsNoted (s s' : GraphQlSchema) : Prop := TypesNoted s → TypesNoted s'

instance : IsPreorder GraphQlSchema KeepsNoted where
  refl _ h := h
  trans _ _ _ h h' hs := h' (h hs)

/-- The readers that create a node, read and register its name, and then the rest. -/
theorem keepsNoted_definition {d : Span → Declaration} {kind : SymbolKind} {treatKeywordAsName : Bool}
    {rest : Span → DeclarationId → Option Name → Ustring → SchemaM (Option DeclarationId)}
    (hd : ∀ span, (d span).name = none) (hkind : kind ≠ .union)
    (hnone : ∀ span id description, rest span id none description = pure none)
    (hsome : ∀ span id name description,
      Keeps (KeepsOwned id name) (rest span id (some name) description)) :
    Keeps KeepsNoted (do
      let span ← createSpan
      let id ← createDeclaration (d span)
      let name? ← parseDefinitionName id kind treatKeywordAsName
      let description ← definitionDescription
      rest span id name? description) := by
  intro s a s' hrun h
  obtain ⟨span, _, hspan, hrun₁⟩ := run_bind_eq_ok.1 hrun
  obtain ⟨-, rfl⟩ := Outcome.ok.inj hspan
  obtain ⟨id, s₁, hcreate, hrun₂⟩ := run_bind_eq_ok.1 hrun₁
  obtain ⟨hnoted, hfresh⟩ := noted_createDeclaration h hcreate
  obtain ⟨name?, s₂, hname, hrun₃⟩ := run_bind_eq_ok.1 hrun₂
  obtain ⟨hnamed, howns⟩ := noted_parseDefinitionName hnoted hfresh (hd span) hkind hname
  obtain ⟨description, _, hdescription, hrun₄⟩ := run_bind_eq_ok.1 hrun₃
  obtain ⟨-, rfl⟩ := Outcome.ok.inj hdescription
  cases name? with
  | none =>
    rw [hnone] at hrun₄
    obtain ⟨-, rfl⟩ := Outcome.ok.inj hrun₄
    exact hnamed
  | some name => exact (hsome _ _ _ _ _ _ _ hrun₄ ⟨hnamed, howns name rfl⟩).1

theorem keepsNoted_parseInterfaceDefinition (fuel : Nat) :
    Keeps KeepsNoted (parseInterfaceDefinition fuel) := by
  refine keepsNoted_definition (fun _ => rfl) nofun (fun _ _ _ => rfl) fun span id name _ => ?_
  have h := keptByParts_owned id name
  refine keeps_bind (keepsOwned_setDeclaration rfl) fun _ => ?_
  refine keeps_bind h.keeps_parseDirectives fun _ => keeps_bind h.keeps_parseFieldsDefinition fun _ => ?_
  exact keeps_bind (keepsOwned_setDeclaration rfl) fun _ =>
    keeps_bind (keepsOwned_modifyMembers (fun _ => rfl) fun _ => rfl) fun _ => keeps_pure

theorem keepsNoted_parseInputObject (fuel : Nat) : Keeps KeepsNoted (parseInputObject fuel) := by
  refine keepsNoted_definition (fun _ => rfl) nofun (fun _ _ _ => rfl) fun span id name _ => ?_
  have h := keptByParts_owned id name
  refine keeps_bind (keepsOwned_setDeclaration rfl) fun _ => ?_
  refine keeps_bind h.keeps_parseDirectives fun _ => ?_
  refine keeps_bind h.keeps_parseInputFieldsDefinition fun _ => ?_
  exact keeps_bind (keepsOwned_setDeclaration rfl) fun _ => keeps_pure

theorem keepsOwned_parseObjectBody {fuel : Nat} {id : DeclarationId} {object : Object} {name : Name}
    (hname : object.name = some name) :
    Keeps (KeepsOwned id name) (parseObjectBody fuel id object) := by
  have h := keptByParts_owned id name
  refine keeps_bind h.keeps_scanOptional fun implements => ?_
  split
  · refine keeps_bind (h.keeps_parseImplementations _ _) fun implementations? => ?_
    split
    · exact keeps_pure
    refine keeps_bind (keepsOwned_setDeclaration hname) fun _ => ?_
    refine keeps_bind (h.keeps_parseFieldsDefinitionAfterOpenBrace _ _ _) fun _ => ?_
    refine keeps_bind (keepsOwned_setDeclaration hname) fun _ => ?_
    exact keeps_bind (keepsOwned_modifyMembers (fun _ => rfl) fun _ => rfl) fun _ => keeps_pure
  · refine keeps_bind h.keeps_parseFieldsDefinition fun _ => ?_
    exact keeps_bind (keepsOwned_setDeclaration hname) fun _ => keeps_pure

theorem keepsNoted_parseObject (fuel : Nat) : Keeps KeepsNoted (parseObject fuel) := by
  refine keepsNoted_definition (fun _ => rfl) nofun (fun _ _ _ => rfl) fun span id name _ => ?_
  have h := keptByParts_owned id name
  refine keeps_bind (keepsOwned_setDeclaration rfl) fun _ => ?_
  refine keeps_bind h.keeps_parseDirectives fun _ => ?_
  exact keeps_bind (keepsOwned_setDeclaration rfl) fun _ => keepsOwned_parseObjectBody rfl

theorem keepsNoted_parseEnum (fuel : Nat) : Keeps KeepsNoted (parseEnum fuel) := by
  intro s a s' hrun h
  obtain ⟨found, s₁, hscan, hrun₁⟩ := run_bind_eq_ok.1 hrun
  have hs₁ := keptByParts_types.keeps_scanExpected _ _ _ hscan
  split at hrun₁
  · obtain ⟨span, _, hspan, hrun₂⟩ := run_bind_eq_ok.1 hrun₁
    obtain ⟨-, rfl⟩ := Outcome.ok.inj hspan
    obtain ⟨value, _, hvalue, hrun₃⟩ := run_bind_eq_ok.1 hrun₂
    obtain ⟨-, rfl⟩ := Outcome.ok.inj hvalue
    obtain ⟨name, s₂, hname, hrun₄⟩ := run_bind_eq_ok.1 hrun₃
    have hs₂ := keptByParts_types.keeps_createName _ _ _ hname
    obtain ⟨id, s₃, hcreate, hrun₅⟩ := run_bind_eq_ok.1 hrun₄
    obtain ⟨hnoted, hfresh⟩ := noted_createDeclaration (hs₂.noted (hs₁.noted h)) hcreate
    obtain ⟨_, s₄, hregister, hrun₆⟩ := run_bind_eq_ok.1 hrun₅
    have howned := owned_registerSymbol hnoted hfresh (fun n hn => (Option.some.inj hn).symm)
      (by decide) hregister
    have hkept := keptByParts_owned id name
    refine ((?_ : Keeps (KeepsOwned id name) _) _ _ _ hrun₆ howned).1
    refine keeps_bind hkept.keeps_parseDirectives fun directives => ?_
    refine keeps_bind (keepsOwned_setDeclaration rfl) fun _ => ?_
    refine keeps_bind hkept.keeps_scanExpected fun brace => ?_
    split
    · refine keeps_bind (hkept.keeps_parseEnumValues _ _) fun _ => ?_
      exact keeps_bind (keepsOwned_setDeclaration rfl) fun _ => keeps_pure
    · exact keeps_pure
  · obtain ⟨-, rfl⟩ := Outcome.ok.inj hrun₁
    exact hs₁.noted h

theorem keepsNoted_parseUnion (fuel : Nat) :
    Keeps KeepsNoted (parseUnionAfterUnionKeyword fuel) := by
  have hkept : KeptByParts KeepsNoted := keptByParts_types.mono fun _ _ h => h.noted
  refine keeps_bind hkept.keeps_read fun span => keeps_bind hkept.keeps_scanExpected fun found => ?_
  split
  · refine keeps_bind hkept.keeps_read fun value => ?_
    intro s a s' hrun
    obtain ⟨name, _, hname, hrun₁⟩ := run_bind_eq_ok.1 hrun
    obtain ⟨rfl, rfl⟩ := Outcome.ok.inj hname
    refine (?_ : Keeps KeepsNoted _) _ _ _ hrun₁
    refine keeps_bind hkept.keeps_parseDirectives fun directives => ?_
    refine keeps_bind hkept.keeps_scanExpected fun equal => ?_
    split
    · refine keeps_bind hkept.keeps_scanOptional fun _ => ?_
      refine keeps_bind hkept.keeps_scanExpected fun first => ?_
      split
      · refine keeps_bind hkept.keeps_read fun _ => keeps_bind hkept.keeps_createName fun _ => ?_
        refine keeps_bind (hkept.keeps_parseUnionMembers _ _) fun members? => ?_
        split
        · exact keeps_pure
        intro s₁ b s₂ hrun₂ h
        obtain ⟨id, s₃, hcreate, hrun₃⟩ := run_bind_eq_ok.1 hrun₂
        obtain ⟨hnoted, hfresh⟩ := noted_createDeclaration h hcreate
        obtain ⟨-, rfl⟩ := Outcome.ok.inj hrun₃
        refine hnoted.register (t := ⟨value, _, id, .union⟩) hfresh.lt ?_ (.inr rfl) rfl rfl
        intro d hd n hn
        obtain rfl := Option.some.inj (hfresh.node.symm.trans hd)
        exact (Option.some.inj hn).symm
      · exact hkept.keeps_giveUp
    · exact hkept.keeps_giveUp
  · exact hkept.keeps_giveUp

theorem keptByDefinitions_noted : KeptByDefinitions KeepsNoted where
  toKeptByParts := keptByParts_types.mono fun _ _ h => h.noted
  parseEnum := keepsNoted_parseEnum
  parseInterfaceDefinition := keepsNoted_parseInterfaceDefinition
  parseInputObject := keepsNoted_parseInputObject
  parseObject := keepsNoted_parseObject
  parseUnion := keepsNoted_parseUnion

/-- **The invariant holds of every schema that is constructed.** -/
theorem typesNoted_of_run {source : Ustring} {schema : GraphQlSchema}
    (h : run source = .ok () schema) : TypesNoted schema := by
  obtain ⟨p⟩ := nonempty_phases h
  have hchecks := keptByParts_types.toKeptByChecks
  have hreport : ∀ {template : D}, template ≠ .duplicateType0 → KeptByReport KeepsTypes template :=
    keptByReport_types
  have hparsed : TypesNoted p.parsed :=
    keptByDefinitions_noted.keeps_parseDocument source _ _ _ p.parse (typesNoted_initial source)
  have hrooted := (hchecks.keeps_setRootTypes _ _ _ p.setRoots).noted hparsed
  have hlinked := (hchecks.keeps_checkForwardReferences (fun _ => keepsTypes_modifyType)
    (hreport nofun) _ _ _ p.link).noted hrooted
  have hdirected :=
    (hchecks.keeps_checkDirectiveReferences (hreport nofun) _ _ _ p.direct).noted hlinked
  have himplemented := (hchecks.keeps_checkObjectImplementations (hreport nofun) (hreport nofun)
    (hreport nofun) _ _ _ p.implement).noted hdirected
  exact (hchecks.keeps_checkUnionMembers _ _ _ p.unite).noted himplemented

/-! ## Duplicate types -/

/-- The reports of duplicate types are those of the definitions whose names are defined at least
twice, one for each, at the names; and every name stands for its first definition. -/
structure ReportsTypes (schema : GraphQlSchema) : Prop where
  reports : ReportsNames .duplicateType0 schema
    ((repeated DefinedType.name (typesOf schema.steps)).map DefinedType.named)
  symbols : ∀ name, schema.members.symbols.find? name =
    ((typesOf schema.steps).find? fun t => t.name = name).map DefinedType.symbol

/-- The unions that have the name of a definition before them. -/
def laterUnions (schema : GraphQlSchema) : List DefinedType :=
  again DefinedType.name (fun _ t => decide (t.kind = .union)) (typesOf schema.steps)

theorem laterUnions_eq (schema : GraphQlSchema) :
    laterUnions schema = again DefinedType.name
      (fun before t => !DefinedType.isCompared before t) (typesOf schema.steps) := by
  simp only [laterUnions, DefinedType.isCompared, Bool.not_not]

end GraphQlSchema

end Flashpoint
