import Flashpoint.Schema.Grammar
import Mathlib.Data.Finset.Lattice.Lemmas

/-!
# What an accepted schema reads as

In a run without a report every function of the parser takes the lexemes of the node it returns, and the
node, with the nodes of the types in it, stays in the pool to the end (`Builds`). So the lexemes of an
accepted schema are those of its definitions, and its tables have what was defined.
-/

namespace Flashpoint

open Library Climb

namespace GraphQlSchema

open ParserM

variable {s s' : GraphQlSchema} {α : Type}

/-! ## Values -/

theorem takes_values (fuel : Nat) :
    TakesAs (parseValue fuel) (OptionalValueAt valueReader) ∧
      TakesAs (parseListValues fuel) (ElementsAt valueReader) ∧
        TakesAs (parseObjectFields fuel) fun x a y =>
          ∃ fields, a = some fields ∧ ObjectFieldsAt valueReader x fields y := by
  induction fuel with
  | zero =>
    refine ⟨?_, ?_, ?_⟩
    all_goals exact fun h => absurd h ends_stop
  | succ fuel ih =>
    obtain ⟨ihvalue, ihelements, ihfields⟩ := ih
    refine ⟨?_, ?_, ?_⟩
    · intro s a s' h hne
      unfold parseValue at h
      obtain ⟨token, s₁, htoken, h₁⟩ := ends_bind.1 h
      obtain ⟨_, s₂, hupdate, h₂⟩ := ends_bind.1 h₁
      have hs₂ := scanner_of_still (still_update fun _ => rfl) hupdate
      rcases took_of_takeNextToken htoken with ⟨rfl, -, -⟩ | ⟨l, htook, rfl⟩
      · exact absurd (ends_read_bind h₂) (Never.bind never_addDiagnostic _ _ _)
      rw [htook.rest, ← hs₂]
      split at h₂
      · next hopen =>
        have h₂ := ends_read_bind h₂
        obtain ⟨values, s₃, hvalues, h₃⟩ := ends_bind.1 h₂
        have h₃ := ends_read_bind h₃
        have h₃ := ends_after_when (never_bind fun _ => never_addDiagnostic) h₃
        obtain ⟨rfl, rfl, -⟩ := ends_pure.1 (ends_read_bind h₃)
        exact .value (.list hopen (ihelements hvalues hne))
      · next hclose =>
        obtain ⟨rfl, rfl, -⟩ := ends_pure.1 h₂
        exact .bracket hclose
      · next hnull =>
        obtain ⟨rfl, rfl, -⟩ := ends_pure.1 (ends_read_bind h₂)
        exact .value (.null hnull)
      · next hstring =>
        obtain ⟨rfl, rfl, -⟩ := ends_pure.1 (ends_read_bind (ends_read_bind h₂))
        show OptionalValueAt _ _ (some (.string _ s'.scanner.getValue)) _
        rw [hs₂, htook.value]
        exact .value (.string hstring)
      · next hint =>
        obtain ⟨rfl, rfl, -⟩ := ends_pure.1 (ends_read_bind (ends_read_bind h₂))
        show OptionalValueAt _ _ (some (.int _ (atoi s'.scanner.getValue))) _
        rw [hs₂, htook.value]
        exact .value (.int hint)
      · next hfloat =>
        obtain ⟨rfl, rfl, -⟩ := ends_pure.1 (ends_read_bind (ends_read_bind h₂))
        show OptionalValueAt _ _ (some (.float _ s'.scanner.getValue)) _
        rw [hs₂, htook.value]
        exact .value (.float hfloat)
      · next htrue =>
        obtain ⟨rfl, rfl, -⟩ := ends_pure.1 (ends_read_bind h₂)
        exact .value (.boolean htrue)
      · next hfalse =>
        obtain ⟨rfl, rfl, -⟩ := ends_pure.1 (ends_read_bind h₂)
        exact .value (.boolean hfalse)
      · next hname =>
        obtain ⟨rfl, rfl, -⟩ := ends_pure.1 (ends_read_bind (ends_read_bind h₂))
        show OptionalValueAt _ _ (some (.enum _ s'.scanner.getValue)) _
        rw [hs₂, htook.value]
        exact .value (.enum hname)
      · next hopen =>
        have h₂ := ends_read_bind h₂
        obtain ⟨fields?, s₃, hfields, h₃⟩ := ends_bind.1 h₂
        split at h₃
        · obtain ⟨rfl, rfl, -⟩ := ends_pure.1 h₃
          obtain ⟨_, hsome, -⟩ := ihfields hfields hne
          cases hsome
        · obtain ⟨rfl, rfl, -⟩ := ends_pure.1 (ends_read_bind h₃)
          obtain ⟨fields, hsome, hat⟩ := ihfields hfields hne
          obtain rfl := Option.some.inj hsome
          exact .value (.object hopen hat)
      · exact absurd (ends_read_bind h₂) (Never.bind never_addDiagnostic _ _ _)
    · intro s a s' h hne
      unfold parseListValues at h
      obtain ⟨value, s₁, hvalue, h₁⟩ := ends_bind.1 h
      split at h₁
      · obtain ⟨rfl, rfl, -⟩ := ends_pure.1 h₁
        exact (ihvalue hvalue hne).elementsAt
      · obtain ⟨values, s₂, hvalues, h₂⟩ := ends_bind.1 h₁
        obtain ⟨rfl, rfl, -⟩ := ends_pure.1 h₂
        have hrest := ihelements hvalues hne
        exact .cons (ihvalue hvalue hrest.ne_nil).valueAt hrest
    · intro s a s' h hne
      unfold parseObjectFields at h
      obtain ⟨token, s₁, htoken, h₁⟩ := ends_bind.1 h
      rcases took_of_takeNextToken htoken with ⟨rfl, -, hend⟩ | ⟨l, htook, rfl⟩
      · rw [if_pos (.inr rfl)] at h₁
        obtain ⟨rfl, rfl, -⟩ := ends_pure.1 h₁
        exact absurd hend hne
      split at h₁
      · next hclose =>
        obtain ⟨rfl, rfl, -⟩ := ends_pure.1 h₁
        refine ⟨[], rfl, ?_⟩
        rw [htook.rest]
        refine .close (htook.scanned.token_eq (hclose.resolve_right fun hend => ?_) (by decide))
        exact htook.token (htook.scanned.token_eq hend (by decide))
      split at h₁
      · exact absurd h₁ (Never.bind never_addDiagnostic _ _ _)
      next hname =>
      have h₁ := ends_read_bind (ends_read_bind h₁)
      have h₂ := ends_createName_bind h₁
      obtain ⟨found, s₃, hcolon, h₃⟩ := ends_bind.1 h₂
      obtain ⟨rfl, c, htookc, htokenc⟩ := took_of_scanExpected le_rfl hcolon (by decide)
      rw [if_pos rfl] at h₃
      obtain ⟨value, s₄, hvalue, h₄⟩ := ends_bind.1 h₃
      obtain ⟨others?, s₅, hothers, h₅⟩ := ends_bind.1 h₄
      obtain ⟨rfl, rfl, -⟩ := ends_pure.1 h₅
      obtain ⟨others, rfl, hat⟩ := ihfields hothers hne
      refine ⟨_, rfl, ?_⟩
      rw [htook.rest, htookc.rest]
      show ObjectFieldsAt valueReader _ (.mk _ ⟨_, s₁.scanner.getValue⟩ value :: others) _
      rw [htook.value]
      exact .cons (not_not.1 hname) htokenc (ihvalue hvalue hat.ne_nil) hat

/-! ## Arguments and directives -/

theorem ArgumentsAt.ne_nil {x y : List Lexeme} {arguments : List Argument}
    (h : ArgumentsAt x arguments y) : x ≠ [] := by
  cases h <;> exact List.cons_ne_nil _ _

theorem never_reportDuplicateArgument {first name : Name} :
    Never clean (reportDuplicateArgument first name) :=
  never_bind fun _ => never_bind fun _ => never_reportAt

theorem takes_parseArgumentsAfterOpenParen (fuel : Nat) (before : UstringMap Argument) :
    ∀ {s a s'}, Ends clean (parseArgumentsAfterOpenParen fuel before) s a s' → ∃ args,
      a = before.emplaceAll (·.name.identifier) args ∧
        ArgumentsAt s.scanner.rest args s'.scanner.rest ∧
          ∀ arg ∈ args, before.find? arg.name.identifier = none := by
  induction fuel generalizing before with
  | zero => exact fun h => absurd h ends_stop
  | succ fuel ih =>
    intro s a s' h
    unfold parseArgumentsAfterOpenParen at h
    obtain ⟨token, s₁, htoken, h₁⟩ := ends_bind.1 h
    split at h₁
    · next hclose =>
      obtain ⟨rfl, rfl, -⟩ := ends_pure.1 h₁
      rcases took_of_takeNextToken htoken with ⟨hend, -, -⟩ | ⟨l, htook, hl⟩
      · cases hend.symm.trans hclose
      · refine ⟨[], rfl, ?_, List.forall_mem_nil _⟩
        rw [htook.rest]
        exact .close (htook.scanned.token_eq (hl.trans hclose) (by decide))
    next hother =>
    have h₁ := ends_read_bind h₁
    have h₂ := ends_createName_bind h₁
    have h₂ := ends_read_bind h₂
    obtain ⟨found, s₃, hcolon, h₃⟩ := ends_bind.1 h₂
    obtain ⟨rfl, c, htookc, htokenc⟩ := took_of_scanExpected le_rfl hcolon (by decide)
    rw [if_pos rfl] at h₃
    obtain ⟨value, s₄, hvalue, h₄⟩ := ends_bind.1 h₃
    split at h₄
    · next hnew =>
      obtain ⟨args, rfl, hat, hothers⟩ := ih _ h₄
      have hvalueAt := (takes_values fuel).1 hvalue hat.ne_nil
      rcases took_of_takeNextToken htoken with ⟨-, -, hend⟩ | ⟨l, htook, hl⟩
      · exact absurd (hend.symm.trans htookc.rest) (List.cons_ne_nil _ _).symm
      have hdistinct : ∀ arg ∈ args, arg.name.identifier ≠ l.value ∧
          before.find? arg.name.identifier = none := fun arg harg => by
        have hfind := SortedMap.find?_emplace_eq_none.1 (hothers arg harg)
        exact ⟨htook.value ▸ hfind.1, hfind.2⟩
      refine ⟨.mk _ ⟨_, s₁.scanner.getValue⟩ value [] :: args, rfl, ?_,
        List.forall_mem_cons.2 ⟨hnew, fun arg harg => (hdistinct arg harg).2⟩⟩
      rw [htook.rest, htookc.rest, htook.value]
      refine .cons (fun hclose => hother ?_) htokenc hvalueAt hat fun arg harg => (hdistinct arg harg).1
      exact hl.symm.trans (htook.scanned.tokenIn_eq hclose (by decide))
    · exact absurd h₄ (Never.bind never_reportDuplicateArgument _ _ _)

theorem optionalArgumentsAt_parseDirectiveArguments {fuel : Nat} {a : UstringMap Argument}
    (h : Ends clean (parseDirectiveArguments fuel) s a s') :
    ∃ args, a = argumentsByName args ∧ OptionalArgumentsAt s.scanner.rest args s'.scanner.rest := by
  obtain ⟨found, s₁, hopen, h₁⟩ := ends_bind.1 h
  rcases took_of_scanOptional hopen (by decide) with
    ⟨rfl, l, htook, htoken⟩ | ⟨rfl, hrest, hother⟩
  · rw [if_pos rfl] at h₁
    obtain ⟨args, rfl, hat, -⟩ := takes_parseArgumentsAfterOpenParen fuel ∅ h₁
    refine ⟨args, rfl, ?_⟩
    rw [htook.rest]
    exact .some htoken hat
  · rw [if_neg Bool.false_ne_true] at h₁
    obtain ⟨rfl, rfl, -⟩ := ends_pure.1 h₁
    refine ⟨[], rfl, ?_⟩
    rw [hrest]
    exact .none (notAhead_of hother)

theorem takes_parseDirectivesLoop (location : DirectiveLocation) (parent : Option Name) (fuel : Nat)
    (before : UstringMap Directive) :
    ∀ {s a s'}, Ends clean (parseDirectivesLoop location parent fuel before) s a s' → ∃ ds,
      a = before.emplaceAll (·.name.identifier) ds ∧
        DirectivesAt location parent s.scanner.rest ds s'.scanner.rest ∧
          ∀ d ∈ ds, before.find? d.name.identifier = none := by
  induction fuel generalizing before with
  | zero => exact fun h => absurd h ends_stop
  | succ fuel ih =>
    intro s a s' h
    unfold parseDirectivesLoop at h
    obtain ⟨found, s₁, hopen, h₁⟩ := ends_bind.1 h
    rcases took_of_scanOptional hopen (by decide) with
      ⟨rfl, l, htook, htoken⟩ | ⟨rfl, hrest, hother⟩
    · rw [if_pos rfl] at h₁
      obtain ⟨token, s₂, hname, h₂⟩ := ends_bind.1 h₁
      split at h₂
      · exact absurd (ends_read_bind h₂) (Never.bind never_addDiagnostic _ _ _)
      next hnot =>
      obtain rfl : token = .gName := not_not.1 hnot
      obtain ⟨n, htookn, hasName, htight⟩ := took_of_takeTightName hname
      have h₂ := ends_read_bind (ends_read_bind h₂)
      have h₃ := ends_createName_bind h₂
      obtain ⟨arguments, s₄, harguments, h₄⟩ := ends_bind.1 h₃
      obtain ⟨args, rfl, hargs⟩ := optionalArgumentsAt_parseDirectiveArguments harguments
      obtain ⟨_, s₅, hupdate, h₅⟩ := ends_bind.1 h₄
      have hs₅ := scanner_of_still (still_update fun _ => rfl) hupdate
      split at h₅
      · next hnew =>
        obtain ⟨ds, rfl, hds, hothers⟩ := ih _ h₅
        have hdistinct : ∀ d ∈ ds, d.name.identifier ≠ n.value ∧
            before.find? d.name.identifier = none := fun d hd => by
          have hfind := SortedMap.find?_emplace_eq_none.1 (hothers d hd)
          exact ⟨htookn.value ▸ hfind.1, hfind.2⟩
        refine ⟨.mk _ ⟨_, s₂.scanner.getValue⟩ location parent (argumentsByName args).entries :: ds,
          rfl, ?_, List.forall_mem_cons.2 ⟨hnew, fun d hd => (hdistinct d hd).2⟩⟩
        rw [hs₅] at hds
        rw [htook.rest, htookn.rest, htookn.value]
        exact .cons htoken hasName htight hargs hds fun d hd => (hdistinct d hd).1
      · exact absurd h₅ (Never.bind never_addDiagnostic _ _ _)
    · rw [if_neg Bool.false_ne_true] at h₁
      obtain ⟨rfl, rfl, -⟩ := ends_pure.1 h₁
      refine ⟨[], rfl, ?_, List.forall_mem_nil _⟩
      rw [hrest]
      exact .nil (notAhead_of hother)

theorem directivesAt_parseDirectives {fuel : Nat} {location : DirectiveLocation} {parent : Option Name}
    {a : UstringMap Directive} (h : Ends clean (parseDirectives fuel location parent) s a s') :
    ∃ ds, a = directivesByName ds ∧
      DirectivesAt location parent s.scanner.rest ds s'.scanner.rest := by
  obtain ⟨ds, rfl, hds, -⟩ := takes_parseDirectivesLoop location parent fuel ∅ h
  exact ⟨ds, rfl, hds⟩

/-! ## Nodes that stay -/

/-- The same use of a type; what names an object may be known for an enum by now. -/
structure SameUse (t t' : TypeNode) : Prop where
  untagged : t'.untagged = t.untagged
  type : t'.type = t.type ∨ t.type = .object ∧ t'.type = .enum

/-- The nodes of the types stay where they are. -/
def Leads (types types' : List TypeNode) : Prop :=
  ∀ (id : TypeId) t, types[id]? = some t → ∃ t', types'[id]? = some t' ∧ SameUse t t'

theorem SameUse.refl (t : TypeNode) : SameUse t t := ⟨rfl, .inl rfl⟩

theorem SameUse.field {t t' : TypeNode} (h : SameUse t t') {β : Type} (f : TypeNode → β) :
    f t'.untagged = f t.untagged := congrArg f h.untagged

theorem SameUse.trans {t t' t'' : TypeNode} (h : SameUse t t') (h' : SameUse t' t'') :
    SameUse t t'' where
  untagged := h'.untagged.trans h.untagged
  type := by
    rcases h'.type with heq | ⟨hobject, henum⟩
    · rcases h.type with heq' | ⟨hobject, henum⟩
      · exact .inl (heq.trans heq')
      · exact .inr ⟨hobject, heq.trans henum⟩
    · rcases h.type with heq' | ⟨-, henum'⟩
      · exact .inr ⟨heq'.symm.trans hobject, henum⟩
      · cases hobject.symm.trans henum'

theorem Leads.trans {types types' types'' : List TypeNode} (h : Leads types types')
    (h' : Leads types' types'') : Leads types types'' := by
  intro id t ht
  obtain ⟨t', ht', hsame⟩ := h id t ht
  obtain ⟨t'', ht'', hsame'⟩ := h' id t' ht'
  exact ⟨t'', ht'', hsame.trans hsame'⟩

theorem leads_of_isPrefix {types types' : List TypeNode} (h : types <+: types') : Leads types types' :=
  fun _ t ht => ⟨t, getElem?_of_prefix h ht, .refl t⟩

theorem leads_of_linking {symbols : UstringMap Symbol} {types types' : List TypeNode}
    (hparsed : ∀ t ∈ types, t.IsParsed) (h : Linking symbols types types') : Leads types types' := by
  intro id t ht
  obtain ⟨t', ht', hretag⟩ := h.2 ht
  refine ⟨t', ht', ?_⟩
  rcases hretag with rfl | ⟨rfl, name, -, hname, -⟩
  · exact .refl t'
  · rcases hparsed t (List.mem_of_getElem? ht) with ⟨hnone, -⟩ | ⟨-, hobject⟩
    · cases hnone.symm.trans hname
    · exact ⟨rfl, .inr ⟨hobject, rfl⟩⟩

/-- Type nodes are added, and their references are noted. -/
structure Grown (s s' : GraphQlSchema) : Prop where
  types : s.pool.types <+: s'.pool.types
  declarations : s'.pool.declarations = s.pool.declarations
  members : ∃ references steps, s'.members = { s.members with
    forwardTypeReferences := references, locationSteps := steps }

theorem Grown.refl (s : GraphQlSchema) : Grown s s := ⟨List.prefix_rfl, rfl, _, _, rfl⟩

theorem Grown.trans {s s' s'' : GraphQlSchema} (h : Grown s s') (h' : Grown s' s'') : Grown s s'' := by
  obtain ⟨references, steps, hmembers⟩ := h.members
  obtain ⟨references', steps', hmembers'⟩ := h'.members
  refine ⟨h.types.trans h'.types, h'.declarations.trans h.declarations, references', steps', ?_⟩
  rw [hmembers', hmembers]

theorem Quiet.grown (h : Quiet s s') : Grown s s' :=
  ⟨h.pool ▸ List.prefix_rfl, congrArg _ h.pool, _, _, h.members⟩

theorem grown_of_quiet {m : SchemaM α} (hm : Keeps Quiet m) {a : α} (h : Ends clean m s a s') :
    Grown s s' := Quiet.grown (hm _ _ _ h.1)

/-- A computation reads what the relation says, with the type nodes that it adds: these stay. -/
def Builds (m : SchemaM α) (R : List TypeNode → List Lexeme → α → List Lexeme → Prop) : Prop :=
  ∀ {s a s'}, Ends clean m s a s' → Grown s s' ∧
    ∀ {types}, Leads s'.pool.types types → R types s.scanner.rest a s'.scanner.rest

/-- The relation need not hold where the document ends. -/
def BuildsInside (m : SchemaM α) (R : List TypeNode → List Lexeme → α → List Lexeme → Prop) : Prop :=
  Builds m fun types x a y => y ≠ [] → R types x a y

/-! ## Types -/

theorem ends_createType {node : TypeNode} {id : TypeId}
    (h : Ends clean (createType node : SchemaM TypeId) s id s') :
    id = s.pool.types.length ∧ s'.pool.types = s.pool.types ++ [node] ∧ s'.scanner = s.scanner := by
  have h := ends_read_bind h
  obtain ⟨_, s₁, hupdate, h₁⟩ := ends_bind.1 h
  obtain ⟨rfl, rfl, -⟩ := ends_pure.1 h₁
  obtain ⟨-, rfl, -⟩ := ends_step.1 hupdate
  exact ⟨rfl, rfl, rfl⟩

/-- The last node is changed. -/
theorem ends_modifyLast {types : List TypeNode} {t : TypeNode} {f : TypeNode → TypeNode}
    (hs : s.pool.types = types ++ [t]) {u : Unit}
    (h : Ends clean (modifyType types.length f : SchemaM Unit) s u s') :
    s'.pool.types = types ++ [f t] ∧ s'.scanner = s.scanner := by
  obtain ⟨-, rfl, -⟩ := ends_step.1 h
  exact ⟨by simp only [hs, modify_append_last], rfl⟩

/-- The span of the last node is set, and the node is returned. -/
theorem ends_finishType {types : List TypeNode} {t : TypeNode} {span : Span} {a : Option TypeId}
    (hs : s.pool.types = types ++ [t]) (h : Ends clean (do
      let span ← finishSpan span
      modifyType types.length fun t => { t with span }
      return some types.length : SchemaM (Option TypeId)) s a s') :
    a = some types.length ∧ s'.scanner = s.scanner ∧
      ∃ span, s'.pool.types = types ++ [{ t with span }] := by
  have h := ends_read_bind h
  obtain ⟨_, s₁, hspan, h₁⟩ := ends_bind.1 h
  obtain ⟨rfl, rfl, -⟩ := ends_pure.1 h₁
  obtain ⟨htypes, hscanner⟩ := ends_modifyLast hs hspan
  exact ⟨rfl, hscanner, _, htypes⟩

/-- The flags of a type and the lexemes after its name. -/
def FlagsAt (t : TypeNode) (isListType : Bool) (x y : List Lexeme) : Prop :=
  t.isListType = isListType ∧
    if isListType then ∃ c z, MarkAt .exclamation x t.isNonNull (c :: z) ∧ c.token = .closeBracket ∧
      MarkAt .exclamation z t.isNonNullList y
    else MarkAt .exclamation x t.isNonNull y ∧ t.isNonNullList = false

theorem map_nameOfToken {token : GraphQlToken} {name : Name} {value : Ustring}
    (h : name.identifier = value) :
    (if token = .gName then some name else none : Option Name).map (·.identifier) =
      if token = .gName then some value else none := by
  rw [← h]
  split <;> rfl

/-- The node of a type from the token on that names it. -/
theorem typeAt_parseNamedType {l : Lexeme} (hvalue : s.scanner.getValue = l.value) {span : Span}
    {inInputLocation isListType : Bool} {parent : Option Name} {a : Option TypeId}
    (h : Ends clean (parseNamedType span inInputLocation parent isListType l.token) s a s') :
    ∃ t, a = some s.pool.types.length ∧ s'.pool.types = s.pool.types ++ [t] ∧ NamesType l t ∧
      t.inInputLocation = inInputLocation ∧ t.parentDirectiveDefinition = parent ∧
      FlagsAt t isListType s.scanner.rest s'.scanner.rest := by
  unfold parseNamedType at h
  split at h
  · exact absurd (ends_read_bind h) (Never.bind never_addDiagnostic _ _ _)
  next type htype =>
  have h := ends_read_bind h
  have h₁ := ends_createName_bind h
  obtain ⟨id, s₂, hnode, h₂⟩ := ends_bind.1 h₁
  obtain ⟨rfl, htypes₂, hs₂⟩ := ends_createType hnode
  obtain ⟨_, s₃, hreference, h₃⟩ := ends_bind.1 h₂
  have hs₃ : s₃.scanner = s₂.scanner ∧ s₃.pool = s₂.pool := by
    rcases Climb.ends_when.1 hreference with ⟨-, hmodify⟩ | ⟨-, rfl, -⟩
    · obtain ⟨-, rfl, -⟩ := ends_step.1 hmodify
      exact ⟨rfl, rfl⟩
    · exact ⟨rfl, rfl⟩
  obtain ⟨isNonNull, s₄, hmark, h₄⟩ := ends_bind.1 h₃
  have hmarkAt := markAt_scanOptional hmark (by decide)
  rw [hs₃.1, hs₂] at hmarkAt
  have htypes₄ := (congrArg Pool.types (quiet_scanOptional _ _ _ hmark.1).pool).trans
    ((congrArg Pool.types hs₃.2).trans htypes₂)
  obtain ⟨_, s₅, hnonNull, h₅⟩ := ends_bind.1 h₄
  obtain ⟨htypes₅, hs₅⟩ := ends_modifyLast htypes₄ hnonNull
  cases isListType with
  | false =>
    rw [if_neg Bool.false_ne_true] at h₅
    obtain ⟨rfl, hs', span, htypes⟩ := ends_finishType htypes₅ h₅
    refine ⟨_, rfl, htypes, ⟨⟨type, htype, .inl rfl⟩, map_nameOfToken hvalue⟩, rfl, rfl, rfl, ?_⟩
    rw [if_neg Bool.false_ne_true, hs', hs₅]
    exact ⟨hmarkAt, rfl⟩
  | true =>
    rw [if_pos rfl] at h₅
    obtain ⟨found, s₆, hclose, h₆⟩ := ends_bind.1 h₅
    obtain ⟨rfl, c, htookc, htokenc⟩ := took_of_scanExpected le_rfl hclose (by decide)
    rw [if_pos rfl] at h₆
    have htypes₆ := (congrArg Pool.types (quiet_scanExpected _ _ _ hclose.1).pool).trans htypes₅
    obtain ⟨isNonNullList, s₇, hmarkList, h₇⟩ := ends_bind.1 h₆
    have hmarkListAt := markAt_scanOptional hmarkList (by decide)
    have htypes₇ := (congrArg Pool.types (quiet_scanOptional _ _ _ hmarkList.1).pool).trans htypes₆
    obtain ⟨_, s₈, hnonNullList, h₈⟩ := ends_bind.1 h₇
    obtain ⟨htypes₈, hs₈⟩ := ends_modifyLast htypes₇ hnonNullList
    obtain ⟨rfl, hs', span, htypes⟩ := ends_finishType htypes₈ h₈
    refine ⟨_, rfl, htypes, ⟨⟨type, htype, .inl rfl⟩, map_nameOfToken hvalue⟩, rfl, rfl, rfl, ?_⟩
    rw [if_pos rfl, hs', hs₈]
    refine ⟨c, s₆.scanner.rest, ?_, htokenc, hmarkListAt⟩
    rw [← htookc.rest, hs₅]
    exact hmarkAt

theorem SameUse.namesType {l : Lexeme} {t t' : TypeNode} (h : SameUse t t') (ht : NamesType l t) :
    NamesType l t' where
  type := by
    obtain ⟨type, htype, htag⟩ := ht.type
    refine ⟨type, htype, ?_⟩
    rcases h.type with heq | ⟨hobject, henum⟩
    · rwa [heq]
    · rcases htag with htag | ⟨-, htag⟩
      · exact .inr ⟨htag.symm.trans hobject, henum⟩
      · cases hobject.symm.trans htag
  name := (congrArg (fun t : TypeNode => t.name.map (·.identifier)) h.untagged).trans ht.name

/-- The node is there, whatever is made of it later. -/
theorem typeAt_of_leads {types types' : List TypeNode} {t : TypeNode}
    (hleads : Leads (types ++ [t]) types') {l : Lexeme} (hname : NamesType l t)
    {inInputLocation isListType : Bool} {parent : Option Name}
    (hlocation : t.inInputLocation = inInputLocation) (hparent : t.parentDirectiveDefinition = parent)
    {x y : List Lexeme} (hflags : FlagsAt t isListType x y) {z : List Lexeme}
    (hz : if isListType then ∃ o, o.token = .openBracket ∧ z = o :: l :: x else z = l :: x) :
    TypeAt types' inInputLocation parent z types.length y := by
  obtain ⟨t', ht', hsame⟩ := hleads _ t List.getElem?_concat_length
  obtain ⟨hlist, hmarks⟩ := hflags
  have hnonNull : t'.isNonNull = t.isNonNull := hsame.field (·.isNonNull)
  have hnonNullList : t'.isNonNullList = t.isNonNullList := hsame.field (·.isNonNullList)
  have hlist' : t'.isListType = isListType := (hsame.field (·.isListType)).trans hlist
  have hlocation' : t'.inInputLocation = inInputLocation :=
    (hsame.field (·.inInputLocation)).trans hlocation
  have hparent' : t'.parentDirectiveDefinition = parent :=
    (hsame.field (·.parentDirectiveDefinition)).trans hparent
  cases isListType with
  | false =>
    obtain rfl : z = l :: x := hz
    obtain ⟨hmark, hnone⟩ := hmarks
    exact .element ht' (hsame.namesType hname) (hnonNull ▸ hmark) hlist' (hnonNullList.trans hnone)
      hlocation' hparent'
  | true =>
    obtain ⟨o, hopen, rfl⟩ := hz
    obtain ⟨c, w, hmark, hclose, hmarkList⟩ := hmarks
    exact .list hopen ht' (hsame.namesType hname) (hnonNull ▸ hmark) hclose
      (hnonNullList ▸ hmarkList) hlist' hlocation' hparent'

theorem never_parseNamedTypeAtEnd {span : Span} {inInputLocation isListType : Bool}
    {parent : Option Name} :
    Never clean (parseNamedType span inInputLocation parent isListType .endOfDocument) :=
  never_bind fun _ => Never.bind never_addDiagnostic

theorem grown_parseTypeAnnotation {inInputLocation : Bool} {parent : Option Name} {a : Option TypeId}
    (h : Ends clean ( parseTypeAnnotation inInputLocation parent) s a s') :
    a = some s.pool.types.length ∧ Grown s s' := by
  obtain ⟨rfl, t, -, -, -, hpool, hmembers⟩ := ensures_parseTypeAnnotation s a s' ⟨rfl, rfl⟩ h
  refine ⟨rfl, ?_, ?_, _, _, hmembers⟩
  · rw [hpool]
    exact List.prefix_append _ _
  · rw [hpool]

theorem builds_parseTypeAnnotation {inInputLocation : Bool} {parent : Option Name} :
    Builds ( parseTypeAnnotation inInputLocation parent) fun types x a y =>
      ∃ id, a = some id ∧ TypeAt types inInputLocation parent x id y := by
  intro s a s' h
  obtain ⟨rfl, hgrown⟩ := grown_parseTypeAnnotation h
  refine ⟨hgrown, fun {types} hleads => ⟨_, rfl, ?_⟩⟩
  obtain ⟨token, s₁, htoken, h₁⟩ := ends_bind.1 h
  have h₁ := ends_read_bind h₁
  have htypes₁ : s₁.pool.types = s.pool.types :=
    congrArg Pool.types (quiet_takeToken _ _ _ htoken.1).pool
  split at h₁
  · next hopen =>
    obtain ⟨named, s₂, hnamed, h₂⟩ := ends_bind.1 h₁
    have htypes₂ : s₂.pool.types = s.pool.types :=
      (congrArg Pool.types (quiet_takeToken _ _ _ hnamed.1).pool).trans htypes₁
    rcases took_of_takeNextToken hnamed with ⟨rfl, -, -⟩ | ⟨l, htook, rfl⟩
    · exact absurd h₂ (never_parseNamedTypeAtEnd _ _ _)
    rcases took_of_takeNextToken htoken with ⟨hend, -, -⟩ | ⟨o, htooko, ho⟩
    · cases hend.symm.trans hopen
    obtain ⟨t, -, htypes, hnames, hlocation, hparent, hflags⟩ := typeAt_parseNamedType htook.value h₂
    rw [htypes, htypes₂] at hleads
    exact typeAt_of_leads hleads hnames hlocation hparent hflags
      (if_pos rfl ▸ ⟨o, ho.trans hopen, by rw [htooko.rest, htook.rest]⟩)
  · rcases took_of_takeNextToken htoken with ⟨rfl, -, -⟩ | ⟨l, htook, rfl⟩
    · exact absurd h₁ (never_parseNamedTypeAtEnd _ _ _)
    obtain ⟨t, -, htypes, hnames, hlocation, hparent, hflags⟩ := typeAt_parseNamedType htook.value h₁
    rw [htypes, htypes₁] at hleads
    exact typeAt_of_leads hleads hnames hlocation hparent hflags htook.rest

/-! ## Declared arguments -/

theorem quiet_recordDescription {description : Ustring} : Keeps Quiet (update fun s =>
    { s with currentDescription := description, hasDescription := true } : SchemaM Unit) :=
  keeps_step fun _ => ⟨rfl, rfl⟩

theorem quiet_forgetDescription :
    Keeps Quiet (update fun s => { s with hasDescription := false } : SchemaM Unit) :=
  keeps_step fun _ => ⟨rfl, rfl⟩

theorem builds_parseArgumentsDefinitionAfterOpenParen (parent : Option Name) (fuel : Nat)
    (before : UstringMap InputValueDefinition) :
    BuildsInside (parseArgumentsDefinitionAfterOpenParen parent fuel before) fun types x a y => ∃ args,
      a = before.emplaceAll (·.name.identifier) args ∧ ArgumentsDefinitionAt types parent x args y ∧
        ∀ arg ∈ args, before.find? arg.name.identifier = none := by
  induction fuel generalizing before with
  | zero => exact fun h => absurd h ends_stop
  | succ fuel ih =>
    intro s a s' h
    unfold parseArgumentsDefinitionAfterOpenParen at h
    obtain ⟨token, s₁, htoken, h₁⟩ := ends_bind.1 h
    have hgrown₁ : Grown s s₁ := grown_of_quiet quiet_takeNextToken htoken
    split at h₁
    · next hstring =>
      have h₁ := ends_read_bind h₁
      obtain ⟨_, s₂, hupdate, h₂⟩ := ends_bind.1 h₁
      have hs₂ := scanner_of_still (still_update fun _ => rfl) hupdate
      obtain ⟨hgrown, hbuilds⟩ := ih before h₂
      refine ⟨hgrown₁.trans ((grown_of_quiet quiet_recordDescription hupdate).trans hgrown), ?_⟩
      intro types hleads hne
      obtain ⟨args, rfl, hat, hothers⟩ := hbuilds hleads hne
      rcases took_of_takeNextToken htoken with ⟨hend, -, -⟩ | ⟨l, htook, hl⟩
      · cases hend.symm.trans hstring
      refine ⟨args, rfl, ?_, hothers⟩
      rw [hs₂] at hat
      rw [htook.rest]
      exact .description (htook.scanned.token_eq (hl.trans hstring) (by decide)) hat
    have h₁ := ends_read_bind (ends_read_bind h₁)
    obtain ⟨_, s₂, hupdate, h₂⟩ := ends_bind.1 h₁
    have hs₂ := scanner_of_still (still_update fun _ => rfl) hupdate
    have hgrown₂ := hgrown₁.trans (grown_of_quiet quiet_forgetDescription hupdate)
    split at h₂
    · next hclose =>
      obtain ⟨rfl, rfl, -⟩ := ends_pure.1 h₂
      refine ⟨hgrown₂, fun _ hne => ⟨[], rfl, ?_, List.forall_mem_nil _⟩⟩
      rcases took_of_takeNextToken htoken with ⟨-, -, hend⟩ | ⟨l, htook, hl⟩
      · exact absurd hend (hs₂ ▸ hne)
      rw [htook.rest, ← hs₂]
      refine .close (htook.scanned.token_eq (hl.trans (hclose.resolve_right fun hend => ?_)) (by decide))
      exact htook.token (htook.scanned.token_eq (hl.trans hend) (by decide))
    split at h₂
    · exact absurd h₂ (Never.bind never_addDiagnostic _ _ _)
    next hname =>
    rcases took_of_takeNextToken htoken with ⟨rfl, -, -⟩ | ⟨l, htook, rfl⟩
    · exact absurd (not_not.1 hname) (by decide)
    have h₂ := ends_read_bind h₂
    have h₃ := ends_createName_bind h₂
    obtain ⟨found, s₄, hcolon, h₄⟩ := ends_bind.1 h₃
    obtain ⟨rfl, c, htookc, htokenc⟩ := took_of_scanExpected le_rfl hcolon (by decide)
    rw [if_pos rfl] at h₄
    obtain ⟨type, s₅, htype, h₅⟩ := ends_bind.1 h₄
    obtain ⟨directives, s₆, hdirectives, h₆⟩ := ends_bind.1 h₅
    have hgrown₄ := hgrown₂.trans (grown_of_quiet quiet_scanExpected hcolon)
    obtain ⟨hgrown₅, hbuildsType⟩ := builds_parseTypeAnnotation htype
    have hgrown₆ := grown_of_quiet quiet_parseDirectives hdirectives
    split at h₆
    · next hnew =>
      obtain ⟨hgrown, hbuilds⟩ := ih _ h₆
      refine ⟨hgrown₄.trans (hgrown₅.trans (hgrown₆.trans hgrown)), fun {types} hleads hne => ?_⟩
      obtain ⟨args, rfl, hat, hothers⟩ := hbuilds hleads hne
      obtain ⟨ds, rfl, hds⟩ := directivesAt_parseDirectives hdirectives
      obtain ⟨id, rfl, htypeAt⟩ := hbuildsType
        (Leads.trans (leads_of_isPrefix (hgrown₆.trans hgrown).types) hleads)
      have hdistinct : ∀ arg ∈ args, arg.name.identifier ≠ l.value ∧
          before.find? arg.name.identifier = none := fun arg harg => by
        have hfind := SortedMap.find?_emplace_eq_none.1 (hothers arg harg)
        exact ⟨htook.value ▸ hs₂ ▸ hfind.1, hfind.2⟩
      refine ⟨{ span := _, name := ⟨_, s₂.scanner.getValue⟩, description := _, type := some id,
                directives := directivesByName ds } :: args, rfl, ?_,
        List.forall_mem_cons.2 ⟨hnew, fun arg harg => (hdistinct arg harg).2⟩⟩
      have hrestc := htookc.rest
      rw [hs₂] at hrestc
      have hvalue : s₂.scanner.getValue = l.value := hs₂ ▸ htook.value
      rw [htook.rest, hrestc, hvalue]
      exact .cons (not_not.1 hname) htokenc htypeAt hds hat fun arg harg => (hdistinct arg harg).1
    · exact absurd h₆ (Never.bind never_addDiagnostic _ _ _)

theorem builds_parseArgumentsDefinition {parent : Option Name} {fuel : Nat} :
    BuildsInside (parseArgumentsDefinition parent fuel) fun types x a y => ∃ args,
      a = declaredByName args ∧ OptionalArgumentsDefinitionAt types parent x args y := by
  intro s a s' h
  obtain ⟨found, s₁, hopen, h₁⟩ := ends_bind.1 h
  have hgrown₁ := grown_of_quiet quiet_scanOptional hopen
  rcases took_of_scanOptional hopen (by decide) with
    ⟨rfl, l, htook, htoken⟩ | ⟨rfl, hrest, hother⟩
  · rw [if_pos rfl] at h₁
    obtain ⟨hgrown, hbuilds⟩ := builds_parseArgumentsDefinitionAfterOpenParen parent fuel ∅ h₁
    refine ⟨hgrown₁.trans hgrown, fun {types} hleads hne => ?_⟩
    obtain ⟨args, rfl, hat, -⟩ := hbuilds hleads hne
    refine ⟨args, rfl, ?_⟩
    rw [htook.rest]
    exact .some htoken hat
  · rw [if_neg Bool.false_ne_true] at h₁
    obtain ⟨rfl, rfl, -⟩ := ends_pure.1 h₁
    refine ⟨hgrown₁, fun _ _ => ⟨[], rfl, ?_⟩⟩
    rw [hrest]
    exact .none (notAhead_of hother)

/-! ## Fields -/

theorem builds_parseFieldsDefinitionAfterOpenBrace (fuel : Nat) (before : UstringMap FieldDefinition)
    (description : Ustring) :
    Builds (parseFieldsDefinitionAfterOpenBrace fuel before description) fun types x a y => ∃ fields,
      a = some (before.emplaceAll (·.name.identifier) fields) ∧ FieldsAt types description x fields y ∧
        (∀ field ∈ fields, before.find? field.name.identifier = none) ∧
          (before.entries = [] → fields ≠ []) := by
  induction fuel generalizing before description with
  | zero => exact fun h => absurd h ends_stop
  | succ fuel ih =>
    intro s a s' h
    unfold parseFieldsDefinitionAfterOpenBrace at h
    obtain ⟨token, s₁, htoken, h₁⟩ := ends_bind.1 h
    have hgrown₁ : Grown s s₁ := grown_of_quiet quiet_takeNextToken htoken
    split at h₁
    · exact absurd h₁ (Never.bind never_addDiagnostic _ _ _)
    next hend =>
    rcases took_of_takeNextToken htoken with ⟨rfl, -, -⟩ | ⟨l, htook, rfl⟩
    · exact absurd rfl hend
    split at h₁
    · next hclose =>
      obtain ⟨rfl, rfl, -⟩ := ends_pure.1 h₁
      refine ⟨hgrown₁, fun _ => ⟨[], rfl, ?_, List.forall_mem_nil _, fun hnil => absurd hnil hclose.2⟩⟩
      rw [htook.rest]
      exact .close (htook.scanned.token_eq hclose.1 (by decide))
    split at h₁
    · next hstring =>
      have htokenl := htook.scanned.token_eq hstring (by decide)
      have h₁ := ends_read_bind h₁
      rw [htook.string htokenl] at h₁
      obtain ⟨hgrown, hbuilds⟩ := ih before l.string h₁
      refine ⟨hgrown₁.trans hgrown, fun {types} hleads => ?_⟩
      obtain ⟨fields, rfl, hat, hothers⟩ := hbuilds hleads
      refine ⟨fields, rfl, ?_, hothers⟩
      rw [htook.rest]
      exact .description htokenl hat
    split at h₁
    · next hinvalid =>
      obtain ⟨_, s₂, htake, -⟩ := ends_bind.1 h₁
      exact absurd htake (never_takeErrors_of_invalidString (hinvalid ▸ htoken))
    split at h₁
    · exact absurd h₁ (Never.bind never_addDiagnostic _ _ _)
    next hname =>
    have h₁ := ends_read_bind (ends_read_bind h₁)
    obtain ⟨_, s₁, hwhen, h₂⟩ := ends_bind.1 h₁
    obtain ⟨hnew, rfl⟩ := never_addDiagnostic.ends_when hwhen
    have h₃ := ends_createName_bind h₂
    obtain ⟨arguments, s₃, harguments, h₄⟩ := ends_bind.1 h₃
    obtain ⟨hgrown₃, hbuildsArguments⟩ := builds_parseArgumentsDefinition harguments
    obtain ⟨found, s₄, hcolon, h₅⟩ := ends_bind.1 h₄
    obtain ⟨rfl, c, htookc, htokenc⟩ := took_of_scanExpected le_rfl hcolon (by decide)
    have hgrown₄ := grown_of_quiet quiet_scanExpected hcolon
    rw [if_pos rfl] at h₅
    obtain ⟨type?, s₅, htype, h₆⟩ := ends_bind.1 h₅
    obtain ⟨hsome, hgrown₅⟩ := grown_parseTypeAnnotation htype
    obtain ⟨-, hbuildsType⟩ := builds_parseTypeAnnotation htype
    subst hsome
    obtain ⟨directives, s₆, hdirectives, h₇⟩ := ends_bind.1 h₆
    have hgrown₆ := grown_of_quiet quiet_parseDirectives hdirectives
    obtain ⟨hgrown, hbuilds⟩ := ih _ _ h₇
    have hgrown₄₇ := hgrown₄.trans (hgrown₅.trans (hgrown₆.trans hgrown))
    refine ⟨hgrown₁.trans (hgrown₃.trans hgrown₄₇), fun {types} hleads => ?_⟩
    obtain ⟨fields, rfl, hat, hothers, -⟩ := hbuilds hleads
    obtain ⟨ds, rfl, hds⟩ := directivesAt_parseDirectives hdirectives
    obtain ⟨id, hid, htypeAt⟩ := hbuildsType
      (Leads.trans (leads_of_isPrefix (hgrown₆.trans hgrown).types) hleads)
    obtain ⟨args, rfl, hargs⟩ := hbuildsArguments
      (Leads.trans (leads_of_isPrefix hgrown₄₇.types) hleads) (htookc.rest ▸ List.cons_ne_nil _ _)
    have hdistinct : ∀ field ∈ fields, field.name.identifier ≠ l.value ∧
        before.find? field.name.identifier = none := fun field hfield => by
      have hfind := SortedMap.find?_emplace_eq_none.1 (hothers field hfield)
      exact ⟨htook.value ▸ hfind.1, hfind.2⟩
    refine ⟨{ span := _, name := ⟨_, s₁.scanner.getValue⟩, description, type := s₄.pool.types.length,
              arguments := declaredByName args, directives := directivesByName ds } :: fields, rfl, ?_,
      List.forall_mem_cons.2 ⟨Option.not_isSome_iff_eq_none.1 hnew,
        fun field hfield => (hdistinct field hfield).2⟩, fun _ => List.cons_ne_nil _ _⟩
    rw [htookc.rest] at hargs
    rw [htook.rest, htook.value]
    obtain rfl := Option.some.inj hid
    exact .cons (not_not.1 hname) hargs htokenc htypeAt hds hat fun field hfield =>
      (hdistinct field hfield).1

theorem builds_parseFieldsDefinition {fuel : Nat} :
    Builds (parseFieldsDefinition fuel) fun types x a y => ∃ fields, a = some (fieldsByName fields) ∧
      fields ≠ [] ∧ ∃ b z, x = b :: z ∧ b.token = .openBrace ∧ FieldsAt types [] z fields y := by
  intro s a s' h
  obtain ⟨found, s₁, hopen, h₁⟩ := ends_bind.1 h
  obtain ⟨rfl, b, htook, htoken⟩ := took_of_scanExpected le_rfl hopen (by decide)
  rw [if_pos rfl] at h₁
  obtain ⟨hgrown, hbuilds⟩ := builds_parseFieldsDefinitionAfterOpenBrace fuel ∅ [] h₁
  refine ⟨(grown_of_quiet quiet_scanExpected hopen).trans hgrown, fun {types} hleads => ?_⟩
  obtain ⟨fields, rfl, hat, -, hne⟩ := hbuilds hleads
  exact ⟨fields, rfl, hne rfl, b, _, htook.rest, htoken, hat⟩

/-! ## The fields of input objects -/

theorem requiredNames_cons {types : List TypeNode} {field : InputFieldDefinition}
    {fields : List InputFieldDefinition} {t : TypeNode} (h : types[field.type]? = some t) :
    requiredNames types (field :: fields) =
      (if t.isNonNull ∨ t.isNonNullList then [field.name.identifier] else []) ++
        requiredNames types fields := by
  simp only [requiredNames, List.filter_cons, h, Option.any_some, Bool.or_eq_true]
  split <;> rfl

theorem builds_parseInputFieldsDefinitionLoop (fuel : Nat) (before : UstringMap InputFieldDefinition)
    (required : List Ustring) :
    Builds (parseInputFieldsDefinitionLoop fuel before required) fun types x a y => ∃ fields,
      a = (some (before.emplaceAll (·.name.identifier) fields),
          required ++ requiredNames types fields) ∧
        InputFieldsAt types x fields y ∧ (before.entries = [] → fields ≠ []) := by
  induction fuel generalizing before required with
  | zero => exact fun h => absurd h ends_stop
  | succ fuel ih =>
    intro s a s' h
    unfold parseInputFieldsDefinitionLoop at h
    have h := ends_read_bind h
    obtain ⟨token, s₁, htoken, h₁⟩ := ends_bind.1 h
    have hgrown₁ : Grown s s₁ := grown_of_quiet quiet_takeNextToken htoken
    split at h₁
    · exact absurd h₁ (Never.bind never_addDiagnostic _ _ _)
    next hend =>
    rcases took_of_takeNextToken htoken with ⟨rfl, -, -⟩ | ⟨l, htook, rfl⟩
    · exact absurd rfl hend
    split at h₁
    · next hclose =>
      obtain ⟨rfl, rfl, -⟩ := ends_pure.1 h₁
      refine ⟨hgrown₁, fun _ => ⟨[], ?_, ?_, fun hnil => absurd hnil hclose.2⟩⟩
      · rw [show requiredNames _ [] = [] from rfl, List.append_nil]
        rfl
      rw [htook.rest]
      exact .close (htook.scanned.token_eq hclose.1 (by decide))
    split at h₁
    · next hstring =>
      obtain ⟨hgrown, hbuilds⟩ := ih before required h₁
      refine ⟨hgrown₁.trans hgrown, fun {types} hleads => ?_⟩
      obtain ⟨fields, rfl, hat⟩ := hbuilds hleads
      refine ⟨fields, rfl, ?_⟩
      rw [htook.rest]
      exact ⟨.description (htook.scanned.token_eq hstring (by decide)) hat.1, hat.2⟩
    split at h₁
    · next hinvalid =>
      obtain ⟨_, s₂, htake, -⟩ := ends_bind.1 h₁
      exact absurd htake (never_takeErrors_of_invalidString (hinvalid ▸ htoken))
    split at h₁
    · exact absurd h₁ (Never.bind never_addDiagnostic _ _ _)
    next hname =>
    have h₁ := ends_read_bind h₁
    have h₃ := ends_createName_bind h₁
    obtain ⟨found, s₄, hcolon, h₅⟩ := ends_bind.1 h₃
    obtain ⟨rfl, c, htookc, htokenc⟩ := took_of_scanExpected le_rfl hcolon (by decide)
    have hgrown₄ := grown_of_quiet quiet_scanExpected hcolon
    rw [if_pos rfl] at h₅
    obtain ⟨type?, s₅, htype, h₆⟩ := ends_bind.1 h₅
    obtain ⟨hsome, hgrown₅⟩ := grown_parseTypeAnnotation htype
    obtain ⟨-, hbuildsType⟩ := builds_parseTypeAnnotation htype
    subst hsome
    obtain ⟨node, hnode, h₇⟩ := ends_require_bind h₆
    obtain ⟨directives, s₆, hdirectives, h₈⟩ := ends_bind.1 h₇
    have hgrown₆ := grown_of_quiet quiet_parseDirectives hdirectives
    obtain ⟨hgrown, hbuilds⟩ := ih _ _ h₈
    have hgrown₄₇ := hgrown₄.trans (hgrown₅.trans (hgrown₆.trans hgrown))
    refine ⟨hgrown₁.trans hgrown₄₇, fun {types} hleads => ?_⟩
    obtain ⟨fields, rfl, hat, -⟩ := hbuilds hleads
    obtain ⟨ds, rfl, hds⟩ := directivesAt_parseDirectives hdirectives
    have hleads₅ := Leads.trans (leads_of_isPrefix (hgrown₆.trans hgrown).types) hleads
    obtain ⟨id, hid, htypeAt⟩ := hbuildsType hleads₅
    obtain rfl := Option.some.inj hid
    obtain ⟨node', hnode', hsame⟩ := hleads₅ _ node hnode
    refine ⟨{ span := _, name := ⟨_, s₁.scanner.getValue⟩, type := s₄.pool.types.length,
              directives := directivesByName ds } :: fields, Prod.ext rfl ?_, ?_,
      fun _ => List.cons_ne_nil _ _⟩
    · have hnonNull : node'.isNonNull = node.isNonNull :=
        hsame.field (·.isNonNull)
      have hnonNullList : node'.isNonNullList = node.isNonNullList :=
        hsame.field (·.isNonNullList)
      rw [requiredNames_cons hnode', ← List.append_assoc, hnonNull, hnonNullList]
      split
      · rfl
      · rw [List.append_nil]
    rw [htook.rest, htookc.rest, htook.value]
    exact .cons (not_not.1 hname) htokenc htypeAt hds hat

theorem builds_parseInputFieldsDefinition {fuel : Nat} :
    Builds (parseInputFieldsDefinition fuel) fun types x a y => ∃ fields,
      a = (some (inputFieldsByName fields), requiredNames types fields) ∧ fields ≠ [] ∧
        ∃ b z, x = b :: z ∧ b.token = .openBrace ∧ InputFieldsAt types z fields y := by
  intro s a s' h
  obtain ⟨found, s₁, hopen, h₁⟩ := ends_bind.1 h
  obtain ⟨rfl, b, htook, htoken⟩ := took_of_scanExpected le_rfl hopen (by decide)
  rw [if_pos rfl] at h₁
  obtain ⟨hgrown, hbuilds⟩ := builds_parseInputFieldsDefinitionLoop fuel ∅ [] h₁
  refine ⟨(grown_of_quiet quiet_scanExpected hopen).trans hgrown, fun {types} hleads => ?_⟩
  obtain ⟨fields, rfl, hat, hne⟩ := hbuilds hleads
  exact ⟨fields, rfl, hne rfl, b, _, htook.rest, htoken, hat⟩

/-! ## The parts of definitions -/

theorem still_checkImplementationName {name : Name} : Keeps Still (checkImplementationName name) := by
  refine keeps_bind still_read fun symbols => ?_
  split
  · exact keeps_pure
  · exact keeps_when still_addDiagnostic

theorem takes_parseImplementations (fuel : Nat) (before : UstringMap Name) :
    ∀ {s a s'}, Ends clean (parseImplementations fuel before) s a s' → ∃ names,
      a = some (before.emplaceAll (·.identifier) names) ∧
        ImplementationsAt s.scanner.rest names s'.scanner.rest := by
  induction fuel generalizing before with
  | zero => exact fun h => absurd h ends_stop
  | succ fuel ih =>
    intro s a s' h
    unfold parseImplementations at h
    obtain ⟨token, s₁, htoken, h₁⟩ := ends_bind.1 h
    split at h₁
    · exact absurd h₁ (Never.bind never_addDiagnostic _ _ _)
    next hend =>
    split at h₁
    · exact absurd h₁ (Never.bind never_addDiagnostic _ _ _)
    next hname =>
    rcases took_of_takeNextToken htoken with ⟨rfl, -, -⟩ | ⟨l, htook, rfl⟩
    · exact absurd rfl hend
    have h₁ := ends_read_bind h₁
    have h₂ := ends_createName_bind h₁
    obtain ⟨_, s₃, hcheck, h₃⟩ := ends_bind.1 h₂
    have hs₃ := scanner_of_still still_checkImplementationName hcheck
    obtain ⟨postToken, s₄, hpost, h₄⟩ := ends_bind.1 h₃
    have hrest : s₁.scanner.rest = s₃.scanner.rest := congrArg _ hs₃.symm
    split at h₄
    · next hopen =>
      obtain ⟨rfl, rfl, -⟩ := ends_pure.1 h₄
      rcases took_of_takeNextToken hpost with ⟨hnot, -, -⟩ | ⟨b, htookb, hb⟩
      · cases hnot.symm.trans hopen
      refine ⟨[⟨_, s₁.scanner.getValue⟩], rfl, ?_⟩
      rw [htook.rest, hrest, htookb.rest, htook.value]
      exact .last (not_not.1 hname) (hb.trans hopen)
    split at h₄
    · next hampersand =>
      obtain ⟨names, rfl, hnames⟩ := ih _ h₄
      rcases took_of_takeNextToken hpost with ⟨hnot, -, -⟩ | ⟨b, htookb, hb⟩
      · cases hnot.symm.trans hampersand
      refine ⟨⟨_, s₁.scanner.getValue⟩ :: names, rfl, ?_⟩
      rw [htook.rest, hrest, htookb.rest, htook.value]
      exact .cons (not_not.1 hname) (hb.trans hampersand) hnames
    · exact absurd (ends_read_bind h₄) (Never.bind never_addDiagnostic _ _ _)

theorem takes_parseEnumValues (fuel : Nat) (before : UstringMap EnumValueDefinition) :
    ∀ {s a s'}, Ends clean (parseEnumValues fuel before) s a s' → ∃ values,
      a = (true, before.emplaceAll (·.name.identifier) values) ∧
        EnumValuesAt s.scanner.rest values s'.scanner.rest ∧ (before.entries = [] → values ≠ []) := by
  induction fuel generalizing before with
  | zero => exact fun h => absurd h ends_stop
  | succ fuel ih =>
    intro s a s' h
    unfold parseEnumValues at h
    obtain ⟨token, s₁, htoken, h₁⟩ := ends_bind.1 h
    split at h₁
    · next hclose =>
      obtain ⟨rfl, rfl, -⟩ := ends_pure.1 h₁
      rcases took_of_takeNextToken htoken with ⟨hend, -, -⟩ | ⟨l, htook, hl⟩
      · cases hend.symm.trans hclose.1
      refine ⟨[], rfl, ?_, fun hnil => absurd hnil hclose.2⟩
      rw [htook.rest]
      exact .close (hl.trans hclose.1)
    split at h₁
    · next hstring =>
      obtain ⟨values, rfl, hat, hne⟩ := ih before h₁
      rcases took_of_takeNextToken htoken with ⟨hend, -, -⟩ | ⟨l, htook, hl⟩
      · cases hend.symm.trans hstring
      refine ⟨values, rfl, ?_, hne⟩
      rw [htook.rest]
      exact .description (hl.trans hstring) hat
    split at h₁
    · exact absurd h₁ (Never.bind never_addDiagnostic _ _ _)
    next hend =>
    split at h₁
    · exact absurd (ends_read_bind h₁) (Never.bind never_addDiagnostic _ _ _)
    next hvalid =>
    rcases took_of_takeNextToken htoken with ⟨rfl, -, -⟩ | ⟨l, htook, rfl⟩
    · exact absurd rfl hend
    have h₁ := ends_read_bind h₁
    have h₂ := ends_createName_bind h₁
    obtain ⟨directives, s₃, hdirectives, h₃⟩ := ends_bind.1 h₂
    obtain ⟨ds, rfl, hds⟩ := directivesAt_parseDirectives hdirectives
    obtain ⟨values, rfl, hat, -⟩ := ih _ h₃
    refine ⟨{ name := ⟨_, s₁.scanner.getValue⟩, directives := directivesByName ds } :: values, rfl, ?_,
      fun _ => List.cons_ne_nil _ _⟩
    rw [htook.rest, htook.value]
    exact .cons (Bool.of_not_eq_false hvalid) hds hat

theorem grown_parseEnumValues {fuel : Nat} {before : UstringMap EnumValueDefinition}
    {a : Bool × UstringMap EnumValueDefinition} (h : Ends clean (parseEnumValues fuel before) s a s') :
    Grown s s' := by
  obtain ⟨-, hpool, hmembers⟩ := ensures_parseEnumValues
    (P := fun pool members => pool = s.pool ∧ members = s.members) fuel before s a s' ⟨rfl, rfl⟩ h
  exact Quiet.grown ⟨hpool, hmembers⟩

/-- A token that a definition may start with is no pipe. -/
theorem ne_pipe_of_isPrimary {token : GraphQlToken} (h : tokenIsPrimary token = true) :
    token ≠ .pipe := by
  rintro rfl
  cases h

/-- What follows a list that ends at a definition. -/
theorem startsDefinition_of_saved {s₁ s₂ : GraphQlSchema} {u : Unit} {token : GraphQlToken}
    (hsave : Ends clean (scan fun scanner => ((), scanner.save)) s u s₁)
    (htoken : Ends clean takeToken s₁ token s₂) (hprimary : tokenIsPrimary token = true) :
    StartsDefinition s.scanner.rest ∧ NotAhead .pipe s.scanner.rest := by
  rcases took_of_saved hsave htoken with ⟨-, hnil⟩ | ⟨l, htook, rfl⟩
  · rw [hnil]
    exact ⟨trivial, trivial⟩
  · rw [htook.rest]
    exact ⟨hprimary, ne_pipe_of_isPrimary hprimary⟩

theorem rest_skipToNextPrimaryToken {u : Unit} (h : Ends clean skipToNextPrimaryToken s u s') :
    s'.scanner.rest = s.scanner.rest.dropWhile fun l => l.token ∉ definitionKeywords := by
  obtain ⟨token, s₁, hskip, h₁⟩ := ends_bind.1 h
  obtain ⟨-, rfl⟩ := ends_scan hskip
  obtain ⟨-, rfl, -⟩ := ends_pure.1 h₁
  exact GraphQlScanner.rest_skipTo _ _

/-- The members of a union end at a definition, or the union is dropped. -/
theorem takes_parseUnionMembers (fuel : Nat) (before : UstringMap Name) :
    ∀ {s a s'}, Ends clean (parseUnionMembers fuel before) s a s' → ∃ names,
      (a = some (before.emplaceAll (·.identifier) names) ∧
        MembersAt s.scanner.rest names s'.scanner.rest ∧ StartsDefinition s'.scanner.rest) ∨
      (a = none ∧ ∃ l y, MembersAt s.scanner.rest names (l :: y) ∧ tokenIsPrimary l.token = false ∧
        s'.scanner.rest = y.dropWhile fun l => l.token ∉ definitionKeywords) := by
  induction fuel generalizing before with
  | zero => exact fun h => absurd h ends_stop
  | succ fuel ih =>
    intro s a s' h
    unfold parseUnionMembers at h
    obtain ⟨_, s₁, hsave, h₁⟩ := ends_bind.1 h
    obtain ⟨token, s₂, htoken, h₂⟩ := ends_bind.1 h₁
    split at h₂
    · next hnot =>
      split at h₂
      · next hprimary =>
        obtain ⟨_, s₃, hrevert, h₃⟩ := ends_bind.1 h₂
        obtain ⟨rfl, rfl, -⟩ := ends_pure.1 h₃
        obtain ⟨hstarts, hahead⟩ := startsDefinition_of_saved hsave htoken hprimary
        refine ⟨[], .inl ⟨rfl, ?_⟩⟩
        rw [rest_of_reverted hsave htoken hrevert]
        exact ⟨.nil hahead, hstarts⟩
      · next hprimary =>
        obtain ⟨_, s₃, hskip, h₃⟩ := ends_bind.1 h₂
        obtain ⟨rfl, rfl, -⟩ := ends_pure.1 h₃
        rcases took_of_saved hsave htoken with ⟨rfl, -⟩ | ⟨l, htook, rfl⟩
        · exact absurd rfl hprimary
        refine ⟨[], .inr ⟨rfl, l, s₂.scanner.rest, ?_, Bool.of_not_eq_true hprimary,
          rest_skipToNextPrimaryToken hskip⟩⟩
        rw [htook.rest]
        exact .nil hnot
    · next hpipe =>
      obtain ⟨found, s₃, hname, h₃⟩ := ends_bind.1 h₂
      obtain ⟨rfl, n, htookn, htokenn⟩ := took_of_scanExpected le_rfl hname (by decide)
      rw [if_pos rfl] at h₃
      have h₃ := ends_read_bind h₃
      have h₄ := ends_createName_bind h₃
      rcases took_of_saved hsave htoken with ⟨rfl, -⟩ | ⟨p, htook, rfl⟩
      · exact absurd (not_not.1 hpipe) (by decide)
      have hcons : ∀ {names y}, MembersAt s₃.scanner.rest names y → MembersAt s.scanner.rest
          (⟨⟨s₃.scanner.startPosition, s₃.scanner.position⟩, s₃.scanner.getValue⟩ :: names) y := by
        intro names y hnames
        rw [htook.rest, htookn.rest, htookn.value]
        exact .cons (not_not.1 hpipe) htokenn hnames
      obtain ⟨names, ⟨rfl, hnames, hstarts⟩ | ⟨rfl, l, y, hnames, hother, hrest⟩⟩ := ih _ h₄
      · exact ⟨_ :: names, .inl ⟨rfl, hcons hnames, hstarts⟩⟩
      · exact ⟨_ :: names, .inr ⟨rfl, l, y, hcons hnames, hother, hrest⟩⟩

/-! ## The locations of directives -/

theorem locationAt_scanDirectiveLocation {scanner : GraphQlScanner}
    (h : scanner.scanDirectiveLocation.1 ≠ .unknown) :
    LocationAt scanner.rest scanner.scanDirectiveLocation.1 scanner.scanDirectiveLocation.2.rest := by
  by_cases hend : scanner.scanDirectiveLocation.1 = .endOfDocument
  · rw [GraphQlScanner.rest_of_scanDirectiveLocation_end hend, hend]
    exact .none
  · obtain ⟨l, hrest, hword, hspelled⟩ :=
      GraphQlScanner.rest_of_scanDirectiveLocation (s := scanner) (not_or.2 ⟨h, hend⟩)
    rw [hrest, ← hspelled]
    exact .word hword

theorem takes_parseLocations (fuel : Nat) (before : Finset DirectiveLocation) :
    ∀ {s a s'}, Ends clean (parseLocations fuel before) s a s' → ∃ locations,
      a = some (before ∪ locations.toFinset) ∧
        LocationsAt s.scanner.rest locations s'.scanner.rest := by
  induction fuel generalizing before with
  | zero => exact fun h => absurd h ends_stop
  | succ fuel ih =>
    intro s a s' h
    unfold parseLocations at h
    obtain ⟨_, s₁, hsave, h₁⟩ := ends_bind.1 h
    obtain ⟨token, s₂, htoken, h₂⟩ := ends_bind.1 h₁
    split at h₂
    · next hprimary =>
      obtain ⟨_, s₃, hrevert, h₃⟩ := ends_bind.1 h₂
      obtain ⟨rfl, rfl, -⟩ := ends_pure.1 h₃
      refine ⟨[], by rw [List.toFinset_nil, Finset.union_empty], ?_⟩
      rw [rest_of_reverted hsave htoken hrevert]
      exact .nil (startsDefinition_of_saved hsave htoken hprimary).1
    next hprimary =>
    split at h₂
    · exact absurd (ends_read_bind h₂) (Never.bind never_addDiagnostic _ _ _)
    next hpipe =>
    obtain ⟨location, s₃, hscan, h₃⟩ := ends_bind.1 h₂
    obtain ⟨rfl, rfl⟩ := ends_scan hscan
    split at h₃
    · exact absurd h₃ (Never.bind never_addDiagnostic _ _ _)
    next hunknown =>
    split at h₃
    · exact absurd h₃ (Never.bind never_addDiagnosticAt _ _ _)
    next hend =>
    obtain ⟨locations, rfl, hat⟩ := ih _ h₃
    rcases took_of_saved hsave htoken with ⟨rfl, -⟩ | ⟨p, htook, rfl⟩
    · exact absurd rfl hprimary
    refine ⟨s₂.scanner.scanDirectiveLocation.1 :: locations, ?_, ?_⟩
    · rw [List.toFinset_cons, Finset.union_insert, Finset.insert_union]
    · rw [htook.rest]
      exact .cons (not_not.1 hpipe) (locationAt_scanDirectiveLocation hunknown) hunknown hend hat

theorem builds_parseDirectiveLocations {fuel : Nat} {name : Ustring} :
    Builds (parseDirectiveLocations fuel name) fun _ x a y => ∃ location locations,
      a = some (location :: locations).toFinset ∧ ∃ isPiped z w, MarkAt .pipe x isPiped z ∧
        LocationAt z location w ∧ location ≠ .unknown ∧ LocationsAt w locations y := by
  intro s a s' h
  obtain ⟨isPiped, s₁, hpipe, h₁⟩ := ends_bind.1 h
  obtain ⟨_, s₂, hrecord, h₂⟩ := ends_bind.1 h₁
  obtain rfl := ends_recordLocationStep hrecord
  obtain ⟨location, s₃, hscan, h₃⟩ := ends_bind.1 h₂
  obtain ⟨rfl, rfl⟩ := ends_scan hscan
  split at h₃
  · exact absurd h₃ (Never.bind never_addDiagnostic _ _ _)
  next hunknown =>
  have hgrown₁ := grown_of_quiet quiet_scanOptional hpipe
  have hgrown₃ := grown_of_quiet (quiet_parseLocations _ _) h₃
  refine ⟨hgrown₁.trans (Grown.trans ?_ hgrown₃), fun _ => ?_⟩
  · exact ⟨List.prefix_rfl, rfl, _, _, rfl⟩
  obtain ⟨locations, rfl, hat⟩ := takes_parseLocations _ _ h₃
  refine ⟨_, locations, ?_, isPiped, _, _, markAt_scanOptional hpipe (by decide),
    locationAt_scanDirectiveLocation hunknown, hunknown, hat⟩
  rw [List.toFinset_cons, Finset.singleton_union]

/-! ## The schema block -/

theorem takes_parseSchemaFieldAfterColon {a : Option Name}
    (h : Ends clean parseSchemaFieldAfterColon s a s') :
    ∃ c n span, s.scanner.rest = c :: n :: s'.scanner.rest ∧ c.token = .colon ∧ n.token = .gName ∧
      a = some ⟨span, n.value⟩ := by
  obtain ⟨found, s₁, hcolon, h₁⟩ := ends_bind.1 h
  obtain ⟨rfl, c, htookc, htokenc⟩ := took_of_scanExpected le_rfl hcolon (by decide)
  rw [if_pos rfl] at h₁
  obtain ⟨found, s₂, hname, h₂⟩ := ends_bind.1 h₁
  obtain ⟨rfl, n, htookn, htokenn⟩ := took_of_scanExpected le_rfl hname (by decide)
  rw [if_pos rfl] at h₂
  have h₂ := ends_read_bind h₂
  have h₃ := ends_createName_bind h₂
  obtain ⟨rfl, rfl, -⟩ := ends_pure.1 h₃
  refine ⟨c, n, ⟨s'.scanner.startPosition, s'.scanner.position⟩, ?_, htokenc, htokenn, ?_⟩
  · rw [htookc.rest, htookn.rest]
  · rw [htookn.value]

theorem schemaKey_setSchemaRoot_eq_none {schema : Schema} {root root' : OperationType} {key : Name}
    {name : Option Name} (h : schemaKey (setSchemaRoot schema root key name) root' = none) :
    root' ≠ root ∧ schemaKey schema root' = none := by
  cases root <;> cases root' <;> first | exact ⟨nofun, h⟩ | cases h

theorem takes_parseSchemaFields (fuel : Nat) (schema : Schema) (duplicates : List OperationType) :
    ∀ {s a s'}, Ends clean (parseSchemaFields fuel schema duplicates) s a s' → ∃ fields,
      a = fields.foldl addRootField schema ∧ RootFieldsAt s.scanner.rest fields s'.scanner.rest ∧
        ∀ field ∈ fields, schemaKey schema field.1 = none := by
  induction fuel generalizing schema duplicates with
  | zero => exact fun h => absurd h ends_stop
  | succ fuel ih =>
    intro s a s' h
    unfold parseSchemaFields at h
    obtain ⟨token, s₁, htoken, h₁⟩ := ends_bind.1 h
    split at h₁
    · next root hroot =>
      rcases took_of_takeNextToken htoken with ⟨rfl, -, -⟩ | ⟨l, htook, rfl⟩
      · cases hroot
      split at h₁
      · next hnew =>
        have h₂ := ends_createName_bind h₁
        obtain ⟨name, s₃, hname, h₃⟩ := ends_bind.1 h₂
        obtain ⟨c, n, span, hrest, hcolon, hgName, rfl⟩ := takes_parseSchemaFieldAfterColon hname
        obtain ⟨fields, rfl, hat, hothers⟩ := ih _ _ h₃
        have hdistinct := fun field hfield => schemaKey_setSchemaRoot_eq_none (hothers field hfield)
        refine ⟨(root, ⟨_, rootText root⟩, ⟨span, n.value⟩) :: fields, rfl, ?_,
          List.forall_mem_cons.2 ⟨hnew, fun field hfield => (hdistinct field hfield).2⟩⟩
        rw [htook.rest, hrest]
        exact .cons hroot hcolon hgName hat fun field hfield => (hdistinct field hfield).1
      · exact absurd h₁ (Never.bind never_addDiagnostic _ _ _)
    · split at h₁
      · next hclose =>
        obtain ⟨rfl, rfl, -⟩ := ends_pure.1 h₁
        refine ⟨[], rfl, ?_, List.forall_mem_nil _⟩
        rcases took_of_takeNextToken htoken with ⟨-, hnil, hend⟩ | ⟨l, htook, rfl⟩
        · rw [hnil, hend]
          exact .nil
        · rw [htook.rest]
          exact .close (hclose.resolve_left htook.token)
      · exact absurd h₁ (Never.bind never_addDiagnostic _ _ _)

theorem takes_parseSchema {fuel : Nat} {a : Option Schema} (h : Ends clean (parseSchema fuel) s a s') :
    ∃ ds b y span fields, DirectivesAt .schema none s.scanner.rest ds (b :: y) ∧ b.token = .openBrace ∧
      RootFieldsAt y fields s'.scanner.rest ∧
      a = some (fields.foldl addRootField { span, directives := directivesByName ds }) := by
  obtain ⟨directives, s₁, hdirectives, h₁⟩ := ends_bind.1 h
  obtain ⟨ds, rfl, hds⟩ := directivesAt_parseDirectives hdirectives
  obtain ⟨found, s₂, hopen, h₂⟩ := ends_bind.1 h₁
  obtain ⟨rfl, b, htook, htoken⟩ := took_of_scanExpected le_rfl hopen (by decide)
  rw [if_pos rfl] at h₂
  have h₂ := ends_read_bind h₂
  obtain ⟨schema, s₃, hfields, h₃⟩ := ends_bind.1 h₂
  obtain ⟨rfl, rfl, -⟩ := ends_pure.1 h₃
  obtain ⟨fields, rfl, hat, -⟩ := takes_parseSchemaFields _ _ _ hfields
  rw [htook.rest] at hds
  exact ⟨ds, b, _, _, fields, hds, htoken, hat, rfl⟩

/-! ## Declarations -/

/-- The tables that definitions are entered in. -/
structure Tables where
  symbols : UstringMap Symbol
  interfaces : UstringMap DeclarationId
  unions : List DeclarationId
  objectsWithImplementations : List DeclarationId
  directiveDefinitions : UstringMap DirectiveDefinition

/-- The tables of the members. -/
def tablesOf (members : SchemaMembers) : Tables :=
  ⟨members.symbols, members.interfaces, members.unions, members.objectsWithImplementations,
    members.directiveDefinitions⟩

/-- A declaration is entered, a symbol unless its name is taken. -/
def Tables.enter (t : Tables) (entry : Entry) : Tables where
  symbols := t.symbols.emplace entry.name.identifier entry.symbol
  interfaces := if entry.declaration.kind = .interface
    then t.interfaces.emplace entry.name.identifier entry.id else t.interfaces
  unions := if entry.declaration.kind = .union then t.unions ++ [entry.id] else t.unions
  objectsWithImplementations := if entry.declaration.implements
    then t.objectsWithImplementations ++ [entry.id] else t.objectsWithImplementations
  directiveDefinitions := t.directiveDefinitions

def Tables.register (t : Tables) (name : Ustring) (id : DeclarationId) (kind : SymbolKind) : Tables :=
  { t with symbols := t.symbols.emplace name ⟨name, id, kind⟩ }

/-- A definition is entered; the node of a declaration is in the pool. -/
def Tables.define (t : Tables) (pool : Pool) : Definition → Tables
  | .declaration id => ( entry? pool (.declaration id)).elim t t.enter
  | .directiveDefinition d =>
    { t with directiveDefinitions := t.directiveDefinitions.emplace d.name.identifier d }
  | .schema _ => t

theorem Grown.tables (h : Grown s s') : tablesOf s'.members = tablesOf s.members := by
  obtain ⟨_, _, hmembers⟩ := h.members
  rw [hmembers]
  rfl

theorem Grown.definitions (h : Grown s s') : s'.members.definitions = s.members.definitions := by
  obtain ⟨_, _, hmembers⟩ := h.members
  rw [hmembers]

/-- What may become of a pool. -/
structure Later (pool pool' : Pool) : Prop where
  types : Leads pool.types pool'.types
  declarations : pool.declarations <+: pool'.declarations

theorem Later.trans {pool pool' pool'' : Pool} (h : Later pool pool') (h' : Later pool' pool'') :
    Later pool pool'' :=
  ⟨h.types.trans h'.types, h.declarations.trans h'.declarations⟩

theorem Grown.later (h : Grown s s') : Later s.pool s'.pool :=
  ⟨leads_of_isPrefix h.types, h.declarations ▸ List.prefix_rfl⟩

/-- One declaration is added, and the tables are the given ones. -/
structure Declares (s s' : GraphQlSchema) (d : Declaration) (t : Tables) : Prop where
  types : s.pool.types <+: s'.pool.types
  declarations : s'.pool.declarations = s.pool.declarations ++ [d]
  tables : tablesOf s'.members = t
  definitions : s'.members.definitions = s.members.definitions

/-- The scanner and the type nodes stay. -/
structure Aside (s s' : GraphQlSchema) : Prop where
  scanner : s'.scanner = s.scanner
  types : s'.pool.types = s.pool.types

/-- The description that was read last, if there is one for the definition. -/
def descriptionOf (s : GraphQlSchema) : Ustring := if s.hasDescription then s.currentDescription else []

/-- A computation that leaves the description. -/
def KeepsDescription (s s' : GraphQlSchema) : Prop := descriptionOf s' = descriptionOf s

instance : IsPreorder GraphQlSchema KeepsDescription where
  refl _ := rfl
  trans _ _ _ h h' := Eq.trans h' h

namespace Declares

variable {s'' : GraphQlSchema} {d d' : Declaration} {t : Tables}

theorem grown (h : Declares s s' d t) (hgrown : Grown s' s'') : Declares s s'' d t :=
  ⟨h.types.trans hgrown.types, hgrown.declarations.trans h.declarations,
    hgrown.tables.trans h.tables, hgrown.definitions.trans h.definitions⟩

theorem set (h : Declares s s' d t) {u : Unit}
    (hset : Ends clean (setDeclaration s.pool.declarations.length d') s' u s'') :
    Declares s s'' d' t ∧ Aside s' s'' := by
  obtain ⟨-, rfl, -⟩ := ends_step.1 hset
  refine ⟨⟨h.types, ?_, h.tables, h.definitions⟩, rfl, rfl⟩
  show s'.pool.declarations.set _ d' = _
  rw [h.declarations, List.set_append_right _ _ le_rfl, Nat.sub_self]
  rfl

theorem update (h : Declares s s' d t) {f : SchemaMembers → SchemaMembers} (g : Tables → Tables)
    {u : Unit} (hmodify : Ends clean (modifyMembers f) s' u s'')
    (hf : ∀ m, tablesOf (f m) = g (tablesOf m)) (hdefinitions : ∀ m, (f m).definitions = m.definitions) :
    Declares s s'' d (g t) ∧ Aside s' s'' := by
  obtain ⟨-, rfl, -⟩ := ends_step.1 hmodify
  refine ⟨⟨h.types, h.declarations, ?_, (hdefinitions _).trans h.definitions⟩, rfl, rfl⟩
  rw [← h.tables]
  exact hf _

/-- The name is entered: it is new. -/
theorem register (h : Declares s s' d t) {name : Name} {id : DeclarationId} {kind : SymbolKind} {u : Unit}
    (hregister : Ends clean (registerSymbol name id kind) s' u s'') :
    Declares s s'' d (t.register name.identifier id kind) ∧
      s''.scanner = s'.scanner ∧ KeepsDescription s' s'' := by
  obtain ⟨_, s₁, hrecord, h₁⟩ := ends_bind.1 hregister
  obtain ⟨-, rfl, -⟩ := ends_step.1 hrecord
  have h₁ := ends_read_bind h₁
  split at h₁
  · obtain ⟨-, rfl, -⟩ := ends_step.1 h₁
    refine ⟨⟨h.types, h.declarations, ?_, h.definitions⟩, rfl, rfl⟩
    rw [← h.tables]
    rfl
  · exact absurd h₁ (never_bind (fun _ => Never.bind never_addDiagnosticAt) _ _ _)

/-- The name of the declaration is read and entered. -/
theorem parseName (h : Declares s s' d t) {id : DeclarationId} {kind : SymbolKind} {asName : Bool}
    {a : Option Name} (hname : Ends clean (parseDefinitionName id kind asName) s' a s'') :
    ∃ n span, a = some ⟨span, n.value⟩ ∧ n.tokenIn asName = .gName ∧
      s'.scanner.rest = n :: s''.scanner.rest ∧ KeepsDescription s' s'' ∧
      Declares s s'' d (t.register n.value id kind) := by
  obtain ⟨found, s₁, hscan, h₁⟩ := ends_bind.1 hname
  obtain ⟨rfl, htoken, rfl⟩ := ends_scanExpectedOr le_rfl hscan
  have hne : s'.scanner.lexeme.tokenIn asName ≠ .endOfDocument := htoken ▸ by decide
  rw [if_pos rfl] at h₁
  have h₁ := ends_read_bind h₁
  have h₂ := ends_createName_bind h₁
  obtain ⟨_, s₃, hregister, h₃⟩ := ends_bind.1 h₂
  obtain ⟨rfl, rfl, -⟩ := ends_pure.1 h₃
  have h' : Declares s { s' with scanner := s'.scanner.afterLexeme } d t :=
    ⟨h.types, h.declarations, h.tables, h.definitions⟩
  obtain ⟨hdeclares, hscanner, hdescription⟩ := h'.register hregister
  refine ⟨s'.scanner.lexeme, _, rfl, htoken, ?_, hdescription, hdeclares⟩
  rw [hscanner]
  exact (took_afterLexeme hne).rest

end Declares

theorem declares_createDeclaration {s₁ : GraphQlSchema} (hgrown : Grown s s₁) {d : Declaration}
    {id : DeclarationId} (h : Ends clean (createDeclaration d) s₁ id s') :
    id = s.pool.declarations.length ∧ Declares s s' d (tablesOf s.members) ∧ Aside s₁ s' ∧
      KeepsDescription s₁ s' := by
  have h := ends_read_bind h
  obtain ⟨_, s₂, hupdate, h₁⟩ := ends_bind.1 h
  obtain ⟨rfl, rfl, -⟩ := ends_pure.1 h₁
  obtain ⟨-, rfl, -⟩ := ends_step.1 hupdate
  refine ⟨congrArg _ hgrown.declarations, ⟨hgrown.types, ?_, hgrown.tables, hgrown.definitions⟩,
    ⟨rfl, rfl⟩, rfl⟩
  exact congrArg (· ++ [d]) hgrown.declarations

/-- The readers that create a node, read its name and then the rest. -/
theorem ends_namedDefinition {d : Span → Declaration} {kind : SymbolKind} {asName : Bool}
    {rest : Span → DeclarationId → Option Name → Ustring → SchemaM (Option DeclarationId)}
    {a : Option DeclarationId} (h : Ends clean (do
      let span ← createSpan
      let id ← createDeclaration (d span)
      let name? ← parseDefinitionName id kind asName
      let description ← definitionDescription
      rest span id name? description) s a s') :
    ∃ span n nameSpan s₁, n.tokenIn asName = .gName ∧ s.scanner.rest = n :: s₁.scanner.rest ∧
      Declares s s₁ (d span)
        ((tablesOf s.members).register n.value s.pool.declarations.length kind) ∧
      Ends clean (rest span s.pool.declarations.length (some ⟨nameSpan, n.value⟩) (descriptionOf s))
        s₁ a s' := by
  have h := ends_read_bind h
  obtain ⟨id, s₁, hcreate, h₁⟩ := ends_bind.1 h
  obtain ⟨rfl, hdeclares, hs₁, hdescription⟩ := declares_createDeclaration (.refl s) hcreate
  obtain ⟨name?, s₂, hname, h₂⟩ := ends_bind.1 h₁
  obtain ⟨n, nameSpan, rfl, htoken, hrest, hdescription₂, hdeclares₂⟩ := hdeclares.parseName hname
  have h₂ := ends_read_bind h₂
  refine ⟨_, n, nameSpan, s₂, htoken, ?_, hdeclares₂, ?_⟩
  · rw [← hs₁.scanner]
    exact hrest
  · rw [← show descriptionOf s₂ = descriptionOf s from hdescription₂.trans hdescription]
    exact h₂

/-- The definition was read: the nodes are there, whatever is made of the pool later. -/
structure DefinitionRead (k : Lexeme) (s : GraphQlSchema) (definition : Definition)
    (s' : GraphQlSchema) : Prop where
  later : Later s.pool s'.pool
  definitions : s'.members.definitions = s.members.definitions
  tables : ∀ pool, Later s'.pool pool →
    tablesOf s'.members = (tablesOf s.members).define pool definition
  reads : ∀ pool, Later s'.pool pool →
    DefinitionAt pool (descriptionOf s) (k :: s.scanner.rest) definition s'.scanner.rest

theorem Declares.definitionRead {d : Declaration} {t : Tables} (h : Declares s s' d t) {name : Name}
    (hname : d.name = some name)
    (ht : t = (tablesOf s.members).enter ⟨name, s.pool.declarations.length, d⟩) {k : Lexeme}
    (hreads : ∀ pool, Later s'.pool pool → pool.declarations[s.pool.declarations.length]? = some d →
      DefinitionAt pool (descriptionOf s) (k :: s.scanner.rest) (.declaration s.pool.declarations.length)
        s'.scanner.rest) :
    DefinitionRead k s (.declaration s.pool.declarations.length) s' := by
  have hnode : ∀ pool, Later s'.pool pool →
      pool.declarations[s.pool.declarations.length]? = some d := by
    rintro pool ⟨-, rest, hrest⟩
    rw [← hrest, h.declarations, List.append_assoc, List.getElem?_append_right le_rfl, Nat.sub_self]
    rfl
  refine ⟨⟨leads_of_isPrefix h.types, h.declarations ▸ List.prefix_append _ _⟩, h.definitions, ?_, ?_⟩
  · intro pool hlater
    rw [h.tables, ht, Tables.define]
    simp only [ entry?, hnode pool hlater, hname, Option.bind_eq_bind, Option.bind_some, Option.pure_def,
      Option.elim_some]
  · exact fun pool hlater => hreads pool hlater (hnode pool hlater)

/-! ## Definitions -/

variable {k : Lexeme}

theorem read_parseInterfaceDefinition {fuel : Nat} (hk : k.token = .interfaceKeyword)
    {a : Option DeclarationId} (h : Ends clean (parseInterfaceDefinition fuel) s a s') :
    ∃ id, a = some id ∧ DefinitionRead k s (.declaration id) s' := by
  obtain ⟨span, n, nameSpan, s₁, hname, hrest, hdeclares, h₁⟩ := ends_namedDefinition h
  obtain ⟨_, s₂, hset, h₂⟩ := ends_bind.1 h₁
  obtain ⟨hdeclares, hs₂⟩ := hdeclares.set hset
  obtain ⟨directives, s₃, hdirectives, h₃⟩ := ends_bind.1 h₂
  obtain ⟨ds, rfl, hds⟩ := directivesAt_parseDirectives hdirectives
  obtain ⟨fields?, s₄, hfields, h₄⟩ := ends_bind.1 h₃
  obtain ⟨hgrown, hbuilds⟩ := builds_parseFieldsDefinition hfields
  have hdeclares := (hdeclares.grown (grown_of_quiet quiet_parseDirectives hdirectives)).grown hgrown
  obtain ⟨_, s₅, hset', h₅⟩ := ends_bind.1 h₄
  obtain ⟨hdeclares, hs₅⟩ := hdeclares.set hset'
  obtain ⟨_, s₆, hmodify, h₆⟩ := ends_bind.1 h₅
  obtain ⟨hdeclares, hs₆⟩ := hdeclares.update (fun t =>
    { t with interfaces := t.interfaces.emplace n.value s.pool.declarations.length }) hmodify
      (fun _ => rfl) fun _ => rfl
  obtain ⟨rfl, rfl, -⟩ := ends_pure.1 h₆
  refine ⟨_, rfl, hdeclares.definitionRead rfl rfl fun pool hlater hnode => ?_⟩
  obtain ⟨fields, rfl, hne, b, y, hopen, htoken, hat⟩ :=
    hbuilds (hs₅.types ▸ hs₆.types ▸ hlater.types)
  rw [hs₂.scanner, hopen] at hds
  rw [hrest, hs₆.scanner, hs₅.scanner]
  exact .interface hk hname hds htoken hat hne hnode

theorem read_parseInputObject {fuel : Nat} (hk : k.token = .inputKeyword)
    {a : Option DeclarationId} (h : Ends clean (parseInputObject fuel) s a s') :
    ∃ id, a = some id ∧ DefinitionRead k s (.declaration id) s' := by
  obtain ⟨span, n, nameSpan, s₁, hname, hrest, hdeclares, h₁⟩ := ends_namedDefinition h
  obtain ⟨_, s₂, hset, h₂⟩ := ends_bind.1 h₁
  obtain ⟨hdeclares, hs₂⟩ := hdeclares.set hset
  obtain ⟨directives, s₃, hdirectives, h₃⟩ := ends_bind.1 h₂
  obtain ⟨ds, rfl, hds⟩ := directivesAt_parseDirectives hdirectives
  obtain ⟨⟨fields?, required⟩, s₄, hfields, h₄⟩ := ends_bind.1 h₃
  obtain ⟨hgrown, hbuilds⟩ := builds_parseInputFieldsDefinition hfields
  have hdeclares := (hdeclares.grown (grown_of_quiet quiet_parseDirectives hdirectives)).grown hgrown
  obtain ⟨_, s₅, hset', h₅⟩ := ends_bind.1 h₄
  obtain ⟨hdeclares, hs₅⟩ := hdeclares.set hset'
  obtain ⟨rfl, rfl, -⟩ := ends_pure.1 h₅
  obtain ⟨_, hsome, -⟩ := hbuilds (leads_of_isPrefix List.prefix_rfl)
  obtain rfl : fields? = some _ := congrArg Prod.fst hsome
  refine ⟨_, rfl, hdeclares.definitionRead rfl rfl fun pool hlater hnode => ?_⟩
  obtain ⟨fields, heq, hne, b, y, hopen, htoken, hat⟩ := hbuilds (hs₅.types ▸ hlater.types)
  obtain ⟨hfields?, rfl⟩ := Prod.mk.inj heq
  rw [hfields?] at hnode
  rw [hs₂.scanner, hopen] at hds
  rw [hrest, hs₅.scanner]
  exact .inputObject hk hname hds htoken hat hne hnode

/-- The rest of an object, after its directives. -/
theorem read_parseObjectBody {fuel : Nat} (hk : k.token = .typeKeyword) {n : Lexeme} {x : List Lexeme}
    (hname : n.asName = .gName) (hrest : s.scanner.rest = n :: x) {s₁ : GraphQlSchema}
    {ds : List Directive} (hds : DirectivesAt .object none x ds s₁.scanner.rest) {span nameSpan : Span}
    {object : Object} (hobject : object =
      { span, name := some ⟨nameSpan, n.value⟩, description := descriptionOf s
        directives := directivesByName ds })
    (h₁ : Declares s s₁ (.object object)
      ((tablesOf s.members).register n.value s.pool.declarations.length .object))
    {a : Option DeclarationId}
    (h : Ends clean (parseObjectBody fuel s.pool.declarations.length object) s₁ a s') :
    ∃ id, a = some id ∧ DefinitionRead k s (.declaration id) s' := by
  subst hobject
  obtain ⟨implements, s₂, hscan, h₂⟩ := ends_bind.1 h
  have hdeclares := h₁.grown (grown_of_quiet quiet_scanOptional hscan)
  rcases took_of_scanOptional hscan (by decide) with
    ⟨rfl, i, htook, htoken⟩ | ⟨rfl, hsame, -⟩
  · rw [if_pos rfl] at h₂
    obtain ⟨implementations?, s₃, hparse, h₃⟩ := ends_bind.1 h₂
    obtain ⟨names, rfl, hnames⟩ := takes_parseImplementations _ _ hparse
    have hdeclares := hdeclares.grown (grown_of_quiet (quiet_parseImplementations _ _) hparse)
    obtain ⟨_, s₄, hset, h₄⟩ := ends_bind.1 h₃
    obtain ⟨hdeclares, hs₄⟩ := hdeclares.set hset
    obtain ⟨fields?, s₅, hfields, h₅⟩ := ends_bind.1 h₄
    obtain ⟨hgrown, hbuilds⟩ := builds_parseFieldsDefinitionAfterOpenBrace _ _ _ hfields
    have hdeclares := hdeclares.grown hgrown
    obtain ⟨_, s₆, hset', h₆⟩ := ends_bind.1 h₅
    obtain ⟨hdeclares, hs₆⟩ := hdeclares.set hset'
    obtain ⟨_, s₇, hmodify, h₇⟩ := ends_bind.1 h₆
    obtain ⟨hdeclares, hs₇⟩ := hdeclares.update (fun t =>
      { t with objectsWithImplementations :=
          t.objectsWithImplementations ++ [s.pool.declarations.length] }) hmodify
        (fun _ => rfl) fun _ => rfl
    obtain ⟨rfl, rfl, -⟩ := ends_pure.1 h₇
    obtain ⟨_, rfl, -⟩ := hbuilds (leads_of_isPrefix List.prefix_rfl)
    refine ⟨_, rfl, hdeclares.definitionRead rfl rfl fun pool hlater hnode => ?_⟩
    obtain ⟨fields, hfields?, hat, -, hne⟩ := hbuilds (hs₆.types ▸ hs₇.types ▸ hlater.types)
    rw [hfields?] at hnode
    rw [hs₄.scanner] at hat
    rw [htook.rest] at hds
    rw [hrest, hs₇.scanner, hs₆.scanner]
    exact .implementing hk hname hds htoken hnames hat (hne rfl) hnode
  · rw [if_neg Bool.false_ne_true] at h₂
    obtain ⟨fields?, s₃, hfields, h₃⟩ := ends_bind.1 h₂
    obtain ⟨hgrown, hbuilds⟩ := builds_parseFieldsDefinition hfields
    have hdeclares := hdeclares.grown hgrown
    obtain ⟨_, s₄, hset, h₄⟩ := ends_bind.1 h₃
    obtain ⟨hdeclares, hs₄⟩ := hdeclares.set hset
    obtain ⟨rfl, rfl, -⟩ := ends_pure.1 h₄
    obtain ⟨_, rfl, -⟩ := hbuilds (leads_of_isPrefix List.prefix_rfl)
    refine ⟨_, rfl, hdeclares.definitionRead rfl rfl fun pool hlater hnode => ?_⟩
    obtain ⟨fields, hfields?, hne, b, y, hopen, htoken, hat⟩ := hbuilds (hs₄.types ▸ hlater.types)
    rw [hfields?] at hnode
    rw [← hsame, hopen] at hds
    rw [hrest, hs₄.scanner]
    exact .object hk hname hds htoken hat hne hnode

theorem read_parseObject {fuel : Nat} (hk : k.token = .typeKeyword) {a : Option DeclarationId}
    (h : Ends clean (parseObject fuel) s a s') :
    ∃ id, a = some id ∧ DefinitionRead k s (.declaration id) s' := by
  obtain ⟨span, n, nameSpan, s₁, hname, hrest, hdeclares, h₁⟩ := ends_namedDefinition h
  obtain ⟨_, s₂, hset, h₂⟩ := ends_bind.1 h₁
  obtain ⟨hdeclares, hs₂⟩ := hdeclares.set hset
  obtain ⟨directives, s₃, hdirectives, h₃⟩ := ends_bind.1 h₂
  obtain ⟨ds, rfl, hds⟩ := directivesAt_parseDirectives hdirectives
  obtain ⟨_, s₄, hset', h₄⟩ := ends_bind.1 h₃
  obtain ⟨hdeclares, hs₄⟩ :=
    (hdeclares.grown (grown_of_quiet quiet_parseDirectives hdirectives)).set hset'
  rw [hs₂.scanner, ← hs₄.scanner] at hds
  exact read_parseObjectBody hk hname hrest hds rfl hdeclares h₄

theorem read_parseEnum {fuel : Nat} (hk : k.token = .enumKeyword) {a : Option DeclarationId}
    (h : Ends clean (parseEnum fuel) s a s') :
    ∃ id, a = some id ∧ DefinitionRead k s (.declaration id) s' := by
  obtain ⟨found, s₁, hname, h₁⟩ := ends_bind.1 h
  have hgrown₁ := grown_of_quiet quiet_scanExpected hname
  obtain ⟨rfl, n, htook, htoken⟩ := took_of_scanExpected le_rfl hname (by decide)
  rw [if_pos rfl] at h₁
  have h₁ := ends_read_bind (ends_read_bind h₁)
  obtain ⟨name, s₂, hcreateName, h₂⟩ := ends_bind.1 h₁
  obtain ⟨rfl, rfl, -⟩ := ends_pure.1 (ends_read_bind hcreateName)
  obtain ⟨id, s₃, hcreate, h₃⟩ := ends_bind.1 h₂
  obtain ⟨rfl, hdeclares, hs₃, -⟩ := declares_createDeclaration hgrown₁ hcreate
  obtain ⟨_, s₄, hregister, h₄⟩ := ends_bind.1 h₃
  obtain ⟨hdeclares, hs₄, -⟩ := hdeclares.register hregister
  obtain ⟨directives, s₅, hdirectives, h₅⟩ := ends_bind.1 h₄
  obtain ⟨ds, rfl, hds⟩ := directivesAt_parseDirectives hdirectives
  obtain ⟨_, s₆, hset, h₆⟩ := ends_bind.1 h₅
  obtain ⟨hdeclares, hs₆⟩ :=
    (hdeclares.grown (grown_of_quiet quiet_parseDirectives hdirectives)).set hset
  obtain ⟨found, s₇, hopen, h₇⟩ := ends_bind.1 h₆
  have hdeclares := hdeclares.grown (grown_of_quiet quiet_scanExpected hopen)
  obtain ⟨rfl, b, htookb, hb⟩ := took_of_scanExpected le_rfl hopen (by decide)
  rw [if_pos rfl] at h₇
  obtain ⟨values?, s₈, hvalues, h₈⟩ := ends_bind.1 h₇
  obtain ⟨values, rfl, hat, hne⟩ := takes_parseEnumValues _ _ hvalues
  have hdeclares := hdeclares.grown (grown_parseEnumValues hvalues)
  obtain ⟨_, s₉, hset', h₉⟩ := ends_bind.1 h₈
  obtain ⟨hdeclares, hs₉⟩ := hdeclares.set hset'
  obtain ⟨rfl, rfl, -⟩ := ends_pure.1 h₉
  have hvalue : s₂.scanner.getValue = n.value := htook.value
  refine ⟨_, rfl, hdeclares.definitionRead rfl rfl fun pool hlater hnode => ?_⟩
  rw [hvalue] at hnode
  rw [hs₄, hs₃.scanner, ← hs₆.scanner, htookb.rest] at hds
  rw [htook.rest, hs₉.scanner]
  exact .enum hk htoken hds hb hat (hne rfl) hnode

theorem quiet_recordStep {step : Step} : Keeps Quiet (recordStep step : SchemaM Unit) :=
  keeps_step fun _ => ⟨rfl, rfl⟩

/-- A union that runs into something else than a definition; nothing of it is kept. -/
structure Dropped (k : Lexeme) (s s' : GraphQlSchema) : Prop where
  keyword : k.token = .unionKeyword
  grown : Grown s s'
  rest : ∃ name directives names l y, UnionAt s.scanner.rest name directives names (l :: y) ∧
    tokenIsPrimary l.token = false ∧
      s'.scanner.rest = y.dropWhile fun l => l.token ∉ definitionKeywords

theorem read_parseUnion {fuel : Nat} (hk : k.token = .unionKeyword) {a : Option DeclarationId}
    (h : Ends clean (parseUnionAfterUnionKeyword fuel) s a s') :
    (∃ id, a = some id ∧ DefinitionRead k s (.declaration id) s') ∨ a = none ∧ Dropped k s s' := by
  have h := ends_read_bind h
  obtain ⟨found, s₁, hname, h₁⟩ := ends_bind.1 h
  have hgrown := grown_of_quiet quiet_scanExpected hname
  obtain ⟨rfl, l, htook, htoken⟩ := took_of_scanExpected le_rfl hname (by decide)
  rw [if_pos rfl] at h₁
  have h₁ := ends_read_bind h₁
  obtain ⟨name, s₂, hcreateName, h₂⟩ := ends_bind.1 h₁
  obtain ⟨rfl, rfl, -⟩ := ends_pure.1 (ends_read_bind hcreateName)
  obtain ⟨directives, s₃, hdirectives, h₃⟩ := ends_bind.1 h₂
  have hgrown := hgrown.trans (grown_of_quiet quiet_parseDirectives hdirectives)
  obtain ⟨ds, rfl, hds⟩ := directivesAt_parseDirectives hdirectives
  obtain ⟨found, s₄, hequal, h₄⟩ := ends_bind.1 h₃
  have hgrown := hgrown.trans (grown_of_quiet quiet_scanExpected hequal)
  obtain ⟨rfl, e, htooke, htokene⟩ := took_of_scanExpected le_rfl hequal (by decide)
  rw [if_pos rfl] at h₄
  obtain ⟨isPiped, s₅, hpipe, h₅⟩ := ends_bind.1 h₄
  have hgrown := hgrown.trans (grown_of_quiet quiet_scanOptional hpipe)
  have hpipeAt := markAt_scanOptional hpipe (by decide)
  obtain ⟨found, s₆, hmember, h₆⟩ := ends_bind.1 h₅
  have hgrown := hgrown.trans (grown_of_quiet quiet_scanExpected hmember)
  obtain ⟨rfl, n, htookn, htokenn⟩ := took_of_scanExpected le_rfl hmember (by decide)
  rw [if_pos rfl] at h₆
  have h₆ := ends_read_bind h₆
  obtain ⟨memberName, s₇, hcreateMember, h₇⟩ := ends_bind.1 h₆
  obtain ⟨rfl, rfl, -⟩ := ends_pure.1 (ends_read_bind hcreateMember)
  obtain ⟨members?, s₈, hmembers, h₈⟩ := ends_bind.1 h₇
  have hgrown := hgrown.trans (grown_of_quiet (quiet_parseUnionMembers _ _) hmembers)
  have hunion : ∀ {names y}, MembersAt s₇.scanner.rest names y → ∀ span memberSpan,
      UnionAt s.scanner.rest ⟨span, l.value⟩ ds (⟨memberSpan, n.value⟩ :: names) y := by
    intro names y hnames span memberSpan
    rw [htooke.rest] at hds
    rw [htookn.rest] at hpipeAt
    rw [htook.rest]
    exact .mk htoken hds htokene hpipeAt htokenn hnames
  obtain ⟨names, ⟨rfl, hnames, hstarts⟩ | ⟨rfl, o, y, hnames, hother, hrest⟩⟩ :=
    takes_parseUnionMembers _ _ hmembers
  · obtain ⟨id, s₉, hcreate, h₉⟩ := ends_bind.1 h₈
    obtain ⟨rfl, hdeclares, hs₉, -⟩ := declares_createDeclaration hgrown hcreate
    obtain ⟨_, s₁₀, hrecord, h₁₀⟩ := ends_bind.1 h₉
    have hs₁₀ := scanner_of_still still_recordStep hrecord
    have hdeclares := hdeclares.grown (grown_of_quiet quiet_recordStep hrecord)
    obtain ⟨_, s₁₁, hmodify, h₁₁⟩ := ends_bind.1 h₁₀
    obtain ⟨hdeclares, hs₁₁⟩ := hdeclares.update (fun t => { t with
      symbols := t.symbols.emplace s₂.scanner.getValue
        ⟨s₂.scanner.getValue, s.pool.declarations.length, .union⟩
      unions := t.unions ++ [s.pool.declarations.length] }) hmodify (fun _ => rfl) fun _ => rfl
    obtain ⟨rfl, rfl, -⟩ := ends_pure.1 h₁₁
    refine .inl ⟨_, rfl, hdeclares.definitionRead rfl rfl fun pool hlater hnode => ?_⟩
    have hrest : s'.scanner.rest = s₈.scanner.rest :=
      congrArg GraphQlScanner.rest (hs₁₁.scanner.trans (hs₁₀.trans hs₉.scanner))
    rw [hrest]
    have hvalue : s₂.scanner.getValue = l.value := htook.value
    rw [htookn.value, hvalue] at hnode
    exact .union hk (hunion hnames _ _) hstarts hnode
  · obtain ⟨rfl, rfl, -⟩ := ends_pure.1 h₈
    exact .inr ⟨rfl, hk, hgrown, _, ds, _, o, y, hunion hnames ⟨0, 0⟩ ⟨0, 0⟩, hother, hrest⟩

theorem keepsDescription_takeNextToken {treatKeywordAsName skipWhiteSpace : Bool} :
    Keeps KeepsDescription
      (takeNextToken treatKeywordAsName skipWhiteSpace : SchemaM GraphQlToken) :=
  keeps_step fun _ => rfl

theorem read_parseDirectiveDefinition {fuel : Nat} (hk : k.token = .directiveKeyword)
    {a : Option DirectiveDefinition}
    (h : Ends clean (parseDirectiveDefinitionAfterDirectiveKeyword fuel) s a s') :
    ∃ d, a = some d ∧ DefinitionRead k s (.directiveDefinition d) s' := by
  obtain ⟨found, s₁, hat, h₁⟩ := ends_bind.1 h
  have hgrown := grown_of_quiet quiet_scanExpected hat
  obtain ⟨rfl, sign, htookat, htokenat⟩ := took_of_scanExpected le_rfl hat (by decide)
  obtain ⟨-, -, hs₁⟩ := ends_scanExpected le_rfl hat
  rw [if_pos rfl] at h₁
  obtain ⟨token, s₂, hname, h₂⟩ := ends_bind.1 h₁
  have hgrown := hgrown.trans (grown_of_quiet quiet_takeNextToken hname)
  have hdescription : descriptionOf s₂ = descriptionOf s := by
    rw [show descriptionOf s₂ = descriptionOf s₁ from keepsDescription_takeNextToken _ _ _ hname.1, hs₁]
    rfl
  split at h₂
  · split at h₂
    · exact absurd h₂ ends_stop
    · exact absurd h₂ (Never.bind never_addDiagnostic _ _ _)
  next htoken =>
  obtain rfl : token = .gName := not_not.1 htoken
  obtain ⟨n, htook, hasName, htight⟩ := took_of_takeTightName hname
  have h₂ := ends_read_bind h₂
  have h₂ := ends_read_bind h₂
  have h₂ := ends_read_bind h₂
  have h₃ := ends_createName_bind h₂
  obtain ⟨arguments, s₄, harguments, h₄⟩ := ends_bind.1 h₃
  obtain ⟨hgrown₄, hbuilds⟩ := builds_parseArgumentsDefinition harguments
  obtain ⟨found, s₅, hon, h₅⟩ := ends_bind.1 h₄
  have hgrown₅ := grown_of_quiet quiet_scanExpected hon
  obtain ⟨rfl, o, htooko, htokeno⟩ := took_of_scanExpected le_rfl hon (by decide)
  rw [if_pos rfl] at h₅
  obtain ⟨locations?, s₆, hlocations, h₆⟩ := ends_bind.1 h₅
  obtain ⟨hgrown₆, hlocationsAt⟩ := builds_parseDirectiveLocations hlocations
  obtain ⟨location, locations, rfl, isPiped, z, w, hpipe, hlocation, hunknown, hrestAt⟩ :=
    hlocationsAt (leads_of_isPrefix List.prefix_rfl)
  obtain ⟨_, s₇, hmodify, h₇⟩ := ends_bind.1 h₆
  obtain ⟨-, rfl, -⟩ := ends_step.1 hmodify
  obtain ⟨rfl, rfl, -⟩ := ends_pure.1 h₇
  have hgrown₅₆ := hgrown₅.trans hgrown₆
  have hgrown₆' := hgrown.trans (hgrown₄.trans hgrown₅₆)
  refine ⟨_, rfl, hgrown₆'.later, hgrown₆'.definitions, fun pool _ => ?_, fun pool hlater => ?_⟩
  · rw [← hgrown₆'.tables]
    rfl
  · obtain ⟨args, rfl, hargs⟩ := hbuilds
      (Leads.trans (leads_of_isPrefix hgrown₅₆.types) hlater.types) (htooko.rest ▸ List.cons_ne_nil _ _)
    rw [htooko.rest] at hargs
    rw [htookat.rest, htook.rest, ← hdescription]
    rw [htook.value] at hargs ⊢
    exact .directive hk htokenat hasName htight hargs htokeno hpipe hlocation hunknown hrestAt

theorem read_parseSchema {fuel : Nat} (hk : k.token = .schemaKeyword) {a : Option Schema}
    (h : Ends clean (parseSchema fuel) s a s') :
    ∃ schema, a = some schema ∧ DefinitionRead k s (.schema schema) s' := by
  have hgrown := grown_of_quiet quiet_parseSchema h
  obtain ⟨ds, b, y, span, fields, hds, hopen, hfields, rfl⟩ := takes_parseSchema h
  refine ⟨_, rfl, hgrown.later, hgrown.definitions, fun pool _ => hgrown.tables, fun pool _ => ?_⟩
  exact .schema hk hds hopen hfields

/-- Every keyword has its reader. -/
theorem read_parsePrimaryToken {fuel : Nat} {a : Option Definition}
    (h : Ends clean (parsePrimaryToken fuel k.token) s a s') :
    (∃ definition, a = some definition ∧ DefinitionRead k s definition s') ∨
      a = none ∧ Dropped k s s' := by
  unfold parsePrimaryToken at h
  split at h
  · next hk =>
    obtain ⟨d?, s₁, hread, h₁⟩ := ends_bind.1 h
    obtain ⟨rfl, rfl, -⟩ := ends_pure.1 h₁
    obtain ⟨d, rfl, hd⟩ := read_parseDirectiveDefinition hk hread
    exact .inl ⟨_, rfl, hd⟩
  · next hk =>
    obtain ⟨id?, s₁, hread, h₁⟩ := ends_bind.1 h
    obtain ⟨rfl, rfl, -⟩ := ends_pure.1 h₁
    obtain ⟨id, rfl, hid⟩ := read_parseEnum hk hread
    exact .inl ⟨_, rfl, hid⟩
  · next hk =>
    obtain ⟨id?, s₁, hread, h₁⟩ := ends_bind.1 h
    obtain ⟨rfl, rfl, -⟩ := ends_pure.1 h₁
    obtain ⟨id, rfl, hid⟩ := read_parseInterfaceDefinition hk hread
    exact .inl ⟨_, rfl, hid⟩
  · next hk =>
    obtain ⟨id?, s₁, hread, h₁⟩ := ends_bind.1 h
    obtain ⟨rfl, rfl, -⟩ := ends_pure.1 h₁
    obtain ⟨id, rfl, hid⟩ := read_parseInputObject hk hread
    exact .inl ⟨_, rfl, hid⟩
  · next hk =>
    obtain ⟨schema?, s₁, hread, h₁⟩ := ends_bind.1 h
    obtain ⟨rfl, rfl, -⟩ := ends_pure.1 h₁
    obtain ⟨schema, rfl, hschema⟩ := read_parseSchema hk hread
    exact .inl ⟨_, rfl, hschema⟩
  · next hk =>
    obtain ⟨id?, s₁, hread, h₁⟩ := ends_bind.1 h
    obtain ⟨rfl, rfl, -⟩ := ends_pure.1 h₁
    obtain ⟨id, rfl, hid⟩ := read_parseObject hk hread
    exact .inl ⟨_, rfl, hid⟩
  · next hk =>
    obtain ⟨id?, s₁, hread, h₁⟩ := ends_bind.1 h
    obtain ⟨rfl, rfl, -⟩ := ends_pure.1 h₁
    rcases read_parseUnion hk hread with ⟨id, rfl, hid⟩ | ⟨rfl, hdropped⟩
    · exact .inl ⟨_, rfl, hid⟩
    · exact .inr ⟨rfl, hdropped⟩
  · exact absurd h (Never.bind never_addDiagnostic _ _ _)

/-! ## The document -/

/-- Definitions were read, up to the end of the document. -/
structure DefinitionsRead (s : GraphQlSchema) (definitions : List Definition) (s' : GraphQlSchema) :
    Prop where
  later : Later s.pool s'.pool
  added : s'.members.definitions = s.members.definitions ++ definitions
  tables : ∀ pool, Later s'.pool pool →
    tablesOf s'.members = definitions.foldl (·.define pool) (tablesOf s.members)
  reads : ∀ pool, Later s'.pool pool →
    DefinitionsAt pool (descriptionOf s) s.scanner.rest definitions

theorem DefinitionRead.cons {s₁ s₂ : GraphQlSchema} {definition : Definition}
    (h : DefinitionRead k s₁ definition s₂) (hgrown : Grown s s₁)
    (hdescription : descriptionOf s₁ = descriptionOf s)
    (hrest : s.scanner.rest = k :: s₁.scanner.rest) {definitions : List Definition}
    (h' : DefinitionsRead { s₂ with
      hasDescription := false
      members := { s₂.members with definitions := s₂.members.definitions ++ [definition] } }
        definitions s') :
    DefinitionsRead s (definition :: definitions) s' where
  later := (hgrown.later.trans h.later).trans h'.later
  added := by
    rw [h'.added, h.definitions, hgrown.definitions, List.append_assoc]
    rfl
  tables pool hlater := by
    rw [h'.tables pool hlater, List.foldl_cons, ← hgrown.tables, ← h.tables pool (h'.later.trans hlater)]
    rfl
  reads pool hlater := by
    rw [← hdescription, hrest]
    exact .definition (h.reads pool (h'.later.trans hlater)) (h'.reads pool hlater)

theorem read_parseDefinitions (fuel : Nat) : ∀ {s₀ s s' : GraphQlSchema} {token : GraphQlToken}
    {schema? a : Option Schema}, Ends clean takeToken s₀ token s →
      Ends clean (parseDefinitions fuel token schema?) s a s' → ∃ definitions,
        a = definitions.foldl schemaOf schema? ∧ DefinitionsRead s₀ definitions s' := by
  induction fuel with
  | zero => exact fun _ h => absurd h ends_stop
  | succ fuel ih =>
    intro s₀ s s' token schema? a htoken h
    have hgrown := grown_of_quiet quiet_takeToken htoken
    have hdescription : descriptionOf s = descriptionOf s₀ := keepsDescription_takeNextToken _ _ _ htoken.1
    unfold parseDefinitions at h
    split at h
    · next hend =>
      obtain ⟨rfl, rfl, -⟩ := ends_pure.1 h
      refine ⟨[], rfl, hgrown.later, hgrown.definitions.trans (List.append_nil _).symm,
        fun _ _ => hgrown.tables, fun _ _ => ?_⟩
      rcases took_of_takeNextToken htoken with ⟨-, hnil, -⟩ | ⟨l, htook, hl⟩
      · rw [hnil]
        exact .nil
      · exact absurd (hl.trans hend) htook.token
    next hend =>
    rcases took_of_takeNextToken htoken with ⟨rfl, -, -⟩ | ⟨l, htook, rfl⟩
    · exact absurd rfl hend
    split at h
    · next hstring =>
      have h := ends_read_bind h
      obtain ⟨_, s₁, hupdate, h₁⟩ := ends_bind.1 h
      obtain ⟨-, rfl, -⟩ := ends_step.1 hupdate
      obtain ⟨token, s₂, htoken', h₂⟩ := ends_bind.1 h₁
      obtain ⟨definitions, rfl, hread⟩ := ih htoken' h₂
      refine ⟨definitions, rfl, hgrown.later.trans hread.later, ?_, fun pool hlater => ?_,
        fun pool hlater => ?_⟩
      · exact hread.added.trans (congrArg (· ++ definitions) hgrown.definitions)
      · rw [← hgrown.tables]
        exact hread.tables pool hlater
      · rw [htook.rest]
        have hat := hread.reads pool hlater
        rw [show descriptionOf _ = s.scanner.getStringValue from rfl, htook.string hstring] at hat
        exact .description hstring hat
    · obtain ⟨definition?, s₁, hprimary, h₁⟩ := ends_bind.1 h
      obtain ⟨_, s₂, hupdate, h₂⟩ := ends_bind.1 h₁
      obtain ⟨-, rfl, -⟩ := ends_step.1 hupdate
      rcases read_parsePrimaryToken hprimary with ⟨definition, rfl, hread⟩ | ⟨rfl, hdropped⟩
      · obtain ⟨_, s₃, hmodify, h₃⟩ := ends_bind.1 h₂
        obtain ⟨-, rfl, -⟩ := ends_step.1 hmodify
        obtain ⟨token, s₄, htoken', h₄⟩ := ends_bind.1 h₃
        obtain ⟨definitions, rfl, hreads⟩ := ih htoken' h₄
        exact ⟨definition :: definitions, rfl, hread.cons hgrown hdescription htook.rest hreads⟩
      · obtain ⟨_, s₃, hskip, h₃⟩ := ends_bind.1 h₂
        obtain ⟨-, rfl⟩ := ends_scan hskip
        obtain ⟨token, s₄, htoken', h₄⟩ := ends_bind.1 h₃
        obtain ⟨definitions, rfl, hreads⟩ := ih htoken' h₄
        obtain ⟨name, directives, names, o, y, hunion, hother, hrest⟩ := hdropped.rest
        have hgrown' := hgrown.trans hdropped.grown
        refine ⟨definitions, rfl, hgrown'.later.trans hreads.later, ?_, fun pool hlater => ?_,
          fun pool hlater => ?_⟩
        · exact hreads.added.trans (congrArg (· ++ definitions) hgrown'.definitions)
        · rw [← hgrown'.tables]
          exact hreads.tables pool hlater
        · rw [htook.rest]
          refine .dropped hdropped.keyword hunion hother ?_
          rw [← hrest, ← GraphQlScanner.rest_skipBlock]
          exact hreads.reads pool hlater

/-- Definitions are entered one after the other: in each table those that belong there. -/
theorem foldl_define (pool : Pool) (definitions : List Definition) (t : Tables) :
    definitions.foldl (·.define pool) t =
      { symbols := t.symbols.emplaceAll (·.name) ((entries pool definitions).map Entry.symbol)
        interfaces := ((entries pool definitions).filter (·.declaration.kind = .interface)).foldl
          (fun m entry => m.emplace entry.name.identifier entry.id) t.interfaces
        unions := t.unions ++
          ((entries pool definitions).filter (·.declaration.kind = .union)).map (·.id)
        objectsWithImplementations := t.objectsWithImplementations ++
          ((entries pool definitions).filter (·.declaration.implements)).map (·.id)
        directiveDefinitions := t.directiveDefinitions.emplaceAll (·.name.identifier)
          (definitions.filterMap directiveDefinition?) } := by
  induction definitions generalizing t with
  | nil => simp only [List.foldl_nil, entries, List.filterMap_nil, List.filter_nil, List.map_nil,
      List.append_nil, SortedMap.emplaceAll]
  | cons definition definitions ih =>
    rw [List.foldl_cons, ih]
    cases definition with
    | declaration id =>
      have hdirectives : (Definition.declaration id :: definitions).filterMap directiveDefinition? =
          definitions.filterMap directiveDefinition? := rfl
      cases hentry : entry? pool (.declaration id) with
      | none =>
        have hentries : entries pool (.declaration id :: definitions) = entries pool definitions :=
          List.filterMap_cons_none hentry
        rw [Tables.define, hentry, hentries, hdirectives]
        rfl
      | some entry =>
        have hentries :
            entries pool (.declaration id :: definitions) = entry :: entries pool definitions :=
          List.filterMap_cons_some hentry
        rw [Tables.define, hentry, hentries, hdirectives]
        simp only [Option.elim_some, Tables.enter, List.filter_cons, List.map_cons]
        congr 1
        · simp only [decide_eq_true_eq]
          split <;> rfl
        · simp only [decide_eq_true_eq]
          split
          · rw [List.append_assoc]
            rfl
          · rfl
        · split
          · rw [List.append_assoc]
            rfl
          · rfl
    | directiveDefinition d => rfl
    | schema schema => rfl

theorem later_checkSchema {pool₀ : Pool} {members₀ : SchemaMembers}
    (hparsed : ∀ t ∈ pool₀.types, t.IsParsed) {schema? : Option Schema} :
    Ensures clean (On fun pool members => pool = pool₀ ∧ members = members₀) (checkSchema schema?)
      fun _ s => Later pool₀ s.pool := by
  refine ensures_bind ensures_schemaOrEmpty fun schema => ensures_fact fun _ => ?_
  refine ensures_bind ensures_setRootTypes fun _ => ensures_fact fun _ => ?_
  refine ensures_bind (ensures_checkForwardReferences hparsed) fun _ => ?_
  intro s u s' hs hends
  obtain ⟨⟨-, hdeclarations, hlinking⟩, -⟩ := hs
  have hquiet : Quiet s s' :=
    keeps_bind quiet_checkDirectiveReferences (fun _ =>
      keeps_bind quiet_checkObjectImplementations fun _ => quiet_checkUnionMembers) _ _ _ hends.1
  rw [hquiet.pool]
  exact ⟨leads_of_linking hparsed hlinking, hdeclarations ▸ List.prefix_rfl⟩

end GraphQlSchema

end Flashpoint
