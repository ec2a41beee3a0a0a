import Flashpoint.Executor.Operations

/-!
# The stack of object types

A selection set is read with an entry on the stack that was pushed for it. What it leaves there is at
least what lay under the entry, and exactly that when nothing is reported meanwhile (`Takes`); a turn of
its loop leaves at least what it found, and exactly that when nothing is reported (`Holds`). So the
top is never read from an empty stack, and while nothing is reported, the selections of a set are
checked against the entry that was pushed for it.
-/

namespace Flashpoint

open Library Climb

namespace GraphQlExecutor

open ParserM

/-- The heights of the stack when its top was read. -/
def stackReads (steps : List Step) : List Nat :=
  steps.filterMap fun
    | .readStack height => some height
    | _ => none

/-- The reads between two states found at least `n` entries. -/
def ReadsAbove (n : Nat) (s s' : GraphQlExecutor) : Prop :=
  ∃ heights, stackReads s'.steps = stackReads s.steps ++ heights ∧ ∀ height ∈ heights, n ≤ height

/-- From `s` on, the entries that are on the stack were not read past, and `types` is what is left of
the stack, with more on top of it only where something was reported. -/
structure Leaves (types : List (Option DeclarationId)) (s s' : GraphQlExecutor) : Prop where
  under : types <:+ s'.members.currentObjectTypes
  reads : ReadsAbove s.members.currentObjectTypes.length s s'
  grows : s.diagnostics.length ≤ s'.diagnostics.length
  exact : s'.diagnostics.length = s.diagnostics.length → s'.members.currentObjectTypes = types

/-- The stack is left as it was found. -/
def Holds (s s' : GraphQlExecutor) : Prop := Leaves s.members.currentObjectTypes s s'

/-- The entry on top of the stack is taken away. -/
def Takes (s s' : GraphQlExecutor) : Prop := Leaves s.members.currentObjectTypes.tail s s'

/-- The reads up to a stop. -/
def StopsAbove (s s' : GraphQlExecutor) : Prop :=
  ReadsAbove s.members.currentObjectTypes.length s s'

namespace ReadsAbove

variable {n : Nat} {s s' s'' : GraphQlExecutor}

theorem of_eq (h : stackReads s'.steps = stackReads s.steps) : ReadsAbove n s s' :=
  ⟨[], by rw [h, List.append_nil], fun _ hmem => absurd hmem List.not_mem_nil⟩

theorem trans (h : ReadsAbove n s s') (h' : ReadsAbove n s' s'') : ReadsAbove n s s'' := by
  obtain ⟨heights, hreads, hle⟩ := h
  obtain ⟨heights', hreads', hle'⟩ := h'
  refine ⟨heights ++ heights', by rw [hreads', hreads, List.append_assoc], fun height hmem => ?_⟩
  rcases List.mem_append.1 hmem with hmem | hmem
  · exact hle height hmem
  · exact hle' height hmem

theorem mono {k : Nat} (hk : k ≤ n) (h : ReadsAbove n s s') : ReadsAbove k s s' := by
  obtain ⟨heights, hreads, hle⟩ := h
  exact ⟨heights, hreads, fun height hmem => Nat.le_trans hk (hle height hmem)⟩

/-- The top is read at the height of the stack. -/
theorem readStack {s : GraphQlExecutor} : ReadsAbove s.members.currentObjectTypes.length s
    { s with steps := s.steps ++ [.readStack s.members.currentObjectTypes.length] } :=
  ⟨[s.members.currentObjectTypes.length], List.filterMap_append,
    fun _ hmem => Nat.le_of_eq (List.mem_singleton.1 hmem).symm⟩

instance : IsPreorder GraphQlExecutor (ReadsAbove n) where
  refl _ := of_eq rfl
  trans _ _ _ := trans

end ReadsAbove

theorem Leaves.reported {types : List (Option DeclarationId)} {s s' : GraphQlExecutor}
    (hs : Holds s s') (htypes : types <:+ s.members.currentObjectTypes)
    (hreported : s.diagnostics.length < s'.diagnostics.length) : Leaves types s s' :=
  ⟨htypes.trans hs.under, hs.reads, hs.grows, fun h => absurd h (Nat.ne_of_gt hreported)⟩

theorem tail_suffix_tail {α : Type} {xs ys : List α} (h : xs <:+ ys) : xs.tail <:+ ys.tail := by
  obtain ⟨zs, rfl⟩ := h
  cases zs with
  | nil => exact List.suffix_rfl
  | cons z zs => exact (List.tail_suffix xs).trans (List.suffix_append zs xs)

namespace Holds

variable {s s' s'' : GraphQlExecutor}

/-- What comes after a state that has the stack of `s` and perhaps more. -/
theorem leaves {f : List (Option DeclarationId) → List (Option DeclarationId)}
    (hf : ∀ {xs ys}, xs <:+ ys → f xs <:+ f ys) (h : Holds s s')
    (h' : Leaves (f s'.members.currentObjectTypes) s' s'') :
    Leaves (f s.members.currentObjectTypes) s s'' where
  under := (hf h.under).trans h'.under
  reads := h.reads.trans (h'.reads.mono h.under.length_le)
  grows := Nat.le_trans h.grows h'.grows
  exact hsame := by
    have hfirst : s'.diagnostics.length = s.diagnostics.length :=
      Nat.le_antisymm (hsame ▸ h'.grows) h.grows
    rw [h'.exact (hsame.trans hfirst.symm), h.exact hfirst]

theorem takes (h : Holds s s') (h' : Takes s' s'') : Takes s s'' := h.leaves tail_suffix_tail h'

theorem of_same (hstack : s'.members.currentObjectTypes = s.members.currentObjectTypes)
    (hreads : stackReads s'.steps = stackReads s.steps)
    (hgrows : s.diagnostics.length ≤ s'.diagnostics.length) : Holds s s' :=
  ⟨hstack ▸ List.suffix_rfl, .of_eq hreads, hgrows, fun _ => hstack⟩

instance : IsPreorder GraphQlExecutor Holds where
  refl _ := of_same rfl rfl (Nat.le_refl _)
  trans _ _ _ h h' := h.leaves (f := id) (fun hsuffix => hsuffix) h'

instance : StopsAfter Holds StopsAbove where
  refl _ := .of_eq rfl
  trans h h' := h.reads.trans (h'.mono h.under.length_le)

end Holds

/-! ## What does not touch the stack -/

section Parts

variable {R E : GraphQlExecutor → GraphQlExecutor → Prop} [IsPreorder GraphQlExecutor R]
  [StopsAfter R E]

theorem stackReads_record {s : GraphQlExecutor} {step : Step}
    (hstep : ∀ height, step ≠ .readStack height) :
    stackReads (s.steps ++ [step]) = stackReads s.steps := by
  refine List.filterMap_append.trans ?_
  cases step with
  | readStack height => exact absurd rfl (hstep height)
  | _ => exact List.append_nil _

/-- A relation that looks at nothing but the stack, its reads and the number of the reports is kept by
the readers that do not use the stack. -/
theorem keptByParts_of_same
    (hsame : ∀ s s' : GraphQlExecutor,
      s'.members.currentObjectTypes = s.members.currentObjectTypes →
      stackReads s'.steps = stackReads s.steps →
      s.diagnostics.length ≤ s'.diagnostics.length → R s s') : KeptByParts R E := by
  have hplain : ∀ {step : Step}, step.isPlain = true → ∀ height, step ≠ .readStack height := by
    rintro _ hstep height rfl
    cases hstep
  have hrecord : ∀ {step}, (∀ height, step ≠ .readStack height) →
      KeepsOr R E (recordStep step : ExecutorM Unit) := fun hstep =>
    keepsOr_step fun s => hsame _ _ rfl (stackReads_record hstep) (Nat.le_refl _)
  have hreport : ∀ template location arguments,
      KeepsOr R E (addDiagnosticAt location template arguments : ExecutorM Unit) := fun _ _ _ =>
    keepsOr_step fun s => hsame _ _ rfl rfl (by simp)
  have hmembers : ∀ f : ExecutorMembers → ExecutorMembers,
      (∀ m, (f m).currentObjectTypes = m.currentObjectTypes) → KeepsOr R E (modifyMembers f) :=
    fun _ hf => keepsOr_step fun s => hsame _ _ (hf s.members) rfl (Nat.le_refl _)
  have hvalues : KeptByValues R E := by
    constructor
    case scan => exact fun s _ _ => hsame _ _ rfl rfl (Nat.le_refl _)
    case update =>
      intro s s' _ hdiagnostics hsteps hm
      exact hsame s s' hm.currentObjectTypes (by rw [hsteps]) (by rw [hdiagnostics])
    case report => exact fun s d _ => hreport d.template d.location d.arguments s
    case record => exact fun s step hstep => hrecord (hplain hstep) s
    case addDuplicateField =>
      exact fun _ => keepsOr_bind (hmembers _ fun _ => rfl) fun _ => hrecord nofun
    case reportDuplicateFields =>
      intro fields s _
      exact keepsOr_reportDuplicateFields (hrecord nofun) (hreport _) s
  refine ⟨hvalues, fun _ _ _ => hrecord nofun, ?_, ?_, ?_⟩
  · exact fun _ _ _ => hvalues.keeps_reportMissingArguments (hreport _)
  · exact hvalues.keeps_addDirective (fun _ => hrecord nofun) (hreport _)
  · exact fun name fragment s _ _ => hvalues.keeps_reportDuplicateFragment
      (fun _ _ => hrecord nofun) (hreport _) (fun f _ hf => hmembers f hf) name fragment s

end Parts

theorem keptByParts_holds : KeptByParts Holds StopsAbove :=
  keptByParts_of_same fun _ _ => Holds.of_same

/-- A report has been added. -/
theorem length_lt_addDiagnostic {template : D} {arguments : List Ustring}
    {s s' : GraphQlExecutor} (hrun : (addDiagnostic template arguments).run s = .ok () s') :
    s.diagnostics.length < s'.diagnostics.length := by
  obtain ⟨_, _, hread, hadd⟩ := run_bind_eq_ok.1 hrun
  obtain ⟨rfl, rfl⟩ := Outcome.ok.inj hread
  obtain ⟨-, rfl⟩ := Outcome.ok.inj hadd
  simp

/-- Nothing that was reported is taken back. -/
theorem length_le_of_run {α : Type} {m : ExecutorM α} {s s' : GraphQlExecutor} {a : α}
    (hrun : m.run s = .ok a s') : s.diagnostics.length ≤ s'.diagnostics.length := by
  have hle := m.le_run s
  rw [hrun] at hle
  exact hle.1.length_le

/-- What is expected is there, or its absence is reported. -/
theorem length_lt_scanExpected {token : GraphQlToken} {treatKeywordAsName : Bool}
    {s s' : GraphQlExecutor}
    (hrun : (scanExpected token treatKeywordAsName : ExecutorM Bool).run s = .ok false s') :
    s.diagnostics.length < s'.diagnostics.length := by
  obtain ⟨result, s₁, htake, hrun⟩ := run_bind_eq_ok.1 hrun
  have hfirst := length_le_of_run htake
  split at hrun
  · cases (Outcome.ok.inj hrun).1
  split at hrun
  · cases hrun
  obtain ⟨_, s₂, hreport, hrun⟩ := run_bind_eq_ok.1 hrun
  obtain ⟨-, rfl⟩ := Outcome.ok.inj hrun
  refine Nat.lt_of_le_of_lt hfirst ?_
  unfold reportExpected at hreport
  split at hreport
  · exact length_lt_addDiagnostic hreport
  · obtain ⟨_, _, hvalue, hreport⟩ := run_bind_eq_ok.1 hreport
    obtain ⟨rfl, rfl⟩ := Outcome.ok.inj hvalue
    exact length_lt_addDiagnostic hreport

/-! ## Reads, pushes and pops -/

theorem keepsOr_topObjectType : KeepsOr Holds StopsAbove topObjectType := by
  have hread : ∀ s : GraphQlExecutor, Holds s
      { s with steps := s.steps ++ [.readStack s.members.currentObjectTypes.length] } := fun s =>
    ⟨List.suffix_rfl, .readStack, Nat.le_refl _, fun _ => rfl⟩
  intro s
  refine relates_bind (keptByParts_holds.keeps_read s) fun height s₁ hheight => ?_
  obtain ⟨rfl, rfl⟩ := Outcome.ok.inj hheight
  exact relates_bind (m := recordStep _) (hread s) fun _ s₁ _ => keepsOr_require s₁

theorem keepsOr_currentObjectType : KeepsOr Holds StopsAbove currentObjectType :=
  keepsOr_bind keepsOr_topObjectType fun _ => keepsOr_bind keepsOr_require fun _ => keepsOr_require

theorem keepsOr_popObjectType : KeepsOr Takes StopsAbove popObjectType := by
  intro s
  refine Relates.bind (keepsOr_topObjectType s) fun top s₁ _ hs => ?_
  exact ⟨tail_suffix_tail hs.under, hs.reads, hs.grows, fun h => congrArg List.tail (hs.exact h)⟩

/-- An entry is pushed and taken away again. -/
theorem keepsOr_pushObjectType {α : Type} {id : Option DeclarationId} {rest : ExecutorM α}
    (hrest : KeepsOr Takes StopsAbove rest) :
    KeepsOr Holds StopsAbove (do pushObjectType id; rest) := by
  intro s
  let pushed : GraphQlExecutor := { s with members :=
    { s.members with currentObjectTypes := id :: s.members.currentObjectTypes } }
  have hs : Relates Takes StopsAbove pushed (rest.run pushed) := hrest pushed
  have hpush : (do pushObjectType id; rest : ExecutorM α).run s = rest.run pushed := rfl
  rw [hpush]
  cases hrun : rest.run pushed with
  | ok a s' =>
    rw [hrun] at hs
    exact ⟨hs.under, hs.reads.mono (Nat.le_succ _), hs.grows, hs.exact⟩
  | stop e s' =>
    rw [hrun] at hs
    exact ReadsAbove.mono (Nat.le_succ _) hs

/-- What comes before the entry is taken away. -/
theorem takes_bind {α β : Type} {m : ExecutorM α} {f : α → ExecutorM β}
    (hm : KeepsOr Holds StopsAbove m) (hf : ∀ a, KeepsOr Takes StopsAbove (f a)) :
    KeepsOr Takes StopsAbove (m >>= f) := fun s =>
  Relates.bind (hm s) fun a s' _ hs => Relates.after (T := Takes) Holds.takes hs (hf a s')

/-! ## Turns of the loop -/

/-- The loop goes on after the turn. -/
def SelectionTurn.goesOn : SelectionTurn → Bool
  | .fail => false
  | _ => true

section Turns

variable {selectionSet : ExecutorM (Option SelectionSet)}
  (hset : KeepsOr Takes StopsAbove selectionSet)

include hset in
theorem keepsOr_parseInlineFragment {fuel startPosition : Nat} :
    KeepsOr Holds StopsAbove (parseInlineFragment fuel startPosition selectionSet) := by
  have h := keptByParts_holds
  have hskip : ∀ {template arguments turn}, template.isPlain = true →
      KeepsOr Holds StopsAbove (do
        addDiagnostic template arguments
        skipBlock
        return turn : ExecutorM SelectionTurn) := fun {_ _ _} htemplate =>
    keepsOr_bind (h.keeps_addDiagnostic htemplate) fun _ => keepsOr_bind h.keeps_skipBlock fun _ =>
      keepsOr_pure
  refine keepsOr_bind h.keeps_scanExpected fun found => ?_
  split
  · refine keepsOr_bind h.keeps_read fun value => keepsOr_bind h.keeps_createName fun name => ?_
    refine keepsOr_bind h.keeps_read fun symbols => ?_
    split
    · exact hskip rfl
    refine keepsOr_bind h.keeps_read fun span => keepsOr_bind keepsOr_require fun d => ?_
    split
    · refine keepsOr_bind keepsOr_currentObjectType fun current => ?_
      refine keepsOr_bind h.keeps_checkFragmentAssignment fun _ => keepsOr_pushObjectType ?_
      exact takes_bind h.keeps_parseDirectives fun _ => hset.reads fun set s => ⟨_, rfl⟩
    · exact hskip rfl
  · exact hskip rfl

theorem keepsOr_parseFragmentSpread {fuel : Nat} :
    KeepsOr Holds StopsAbove (parseFragmentSpread fuel) := by
  have h := keptByParts_holds
  refine keepsOr_bind h.keeps_read fun _ => keepsOr_bind h.keeps_read fun _ => ?_
  refine keepsOr_bind h.keeps_createName fun name => keepsOr_bind keepsOr_topObjectType fun top => ?_
  refine keepsOr_bind (h.keeps_modifyMembers fun _ => ⟨rfl, rfl, rfl, rfl⟩) fun _ => ?_
  exact keepsOr_bind h.keeps_parseDirectives fun _ => keepsOr_pure

include hset in
theorem keepsOr_parseFragment {fuel startPosition : Nat} :
    KeepsOr Holds StopsAbove (parseFragment fuel startPosition selectionSet) := by
  have h := keptByParts_holds
  refine keepsOr_bind h.keeps_takeToken fun token => ?_
  split
  · exact keepsOr_parseInlineFragment hset
  split
  · exact keepsOr_parseFragmentSpread
  · exact keepsOr_bind (h.keeps_addDiagnostic rfl) fun _ =>
      keepsOr_bind h.keeps_skipBlock fun _ => keepsOr_pure

include hset in
theorem keepsOr_parseField {fuel : Nat} :
    KeepsOr Holds StopsAbove (parseField fuel selectionSet) := by
  have h := keptByParts_holds
  refine keepsOr_bind h.keeps_read fun value => keepsOr_bind keepsOr_currentObjectType fun current => ?_
  refine keepsOr_bind (keepsOr_bind (h.keeps_recordStep rfl) fun _ => keepsOr_require) fun fields => ?_
  split
  · exact keepsOr_bind keepsOr_require fun _ => keepsOr_bind (h.keeps_addDiagnostic rfl) fun _ =>
      keepsOr_bind h.keeps_skipTo fun _ => keepsOr_pure
  refine keepsOr_bind h.keeps_read fun _ => keepsOr_bind h.keeps_createName fun _ => ?_
  refine keepsOr_bind h.keeps_parseFieldName fun names => ?_
  refine keepsOr_bind h.keeps_parseFieldArguments fun arguments => ?_
  refine keepsOr_bind h.keeps_parseDirectives fun _ => ?_
  refine keepsOr_bind h.keeps_scanOptional fun nested => keepsOr_bind h.keeps_recordAlias fun _ => ?_
  split
  case isFalse => exact keepsOr_pure
  refine keepsOr_bind keepsOr_require fun type => ?_
  split
  · refine keepsOr_bind keepsOr_require fun name => keepsOr_bind keepsOr_require fun symbol => ?_
    exact keepsOr_pushObjectType (hset.reads fun set s => ⟨_, rfl⟩)
  · exact keepsOr_bind h.keeps_getTypeName fun _ =>
      keepsOr_bind (h.keeps_addDiagnostic rfl) fun _ =>
        keepsOr_bind h.keeps_skipToNextPrimaryToken fun _ => keepsOr_pure

/-- A turn that ends the loop has reported something. -/
def FailsReported (m : ExecutorM SelectionTurn) : Prop :=
  ∀ s s', m.run s = .ok .fail s' → s.diagnostics.length < s'.diagnostics.length

theorem failsReported_pure {turn : SelectionTurn} (h : turn.goesOn = true) :
    FailsReported (pure turn) := by
  intro s s' hrun
  obtain ⟨rfl, -⟩ := Outcome.ok.inj hrun
  cases h

theorem failsReported_bind {α : Type} {m : ExecutorM α} {f : α → ExecutorM SelectionTurn}
    (hf : ∀ a, FailsReported (f a)) : FailsReported (m >>= f) := by
  intro s s' hrun
  obtain ⟨a, s₁, hm, hrest⟩ := run_bind_eq_ok.1 hrun
  exact Nat.lt_of_le_of_lt (length_le_of_run hm) (hf a s₁ s' hrest)

theorem failsReported_addDiagnostic {template : D} {arguments : List Ustring}
    {rest : Unit → ExecutorM SelectionTurn} :
    FailsReported (addDiagnostic template arguments >>= rest) := by
  intro s s' hrun
  obtain ⟨_, s₁, hadd, hrest⟩ := run_bind_eq_ok.1 hrun
  exact Nat.lt_of_lt_of_le (length_lt_addDiagnostic hadd) (length_le_of_run hrest)

theorem failsReported_parseFragment {fuel startPosition : Nat} :
    FailsReported (parseFragment fuel startPosition selectionSet) := by
  refine failsReported_bind fun token => ?_
  split
  · refine failsReported_bind fun found => ?_
    split
    · refine failsReported_bind fun _ => failsReported_bind fun _ => failsReported_bind fun _ => ?_
      split
      · exact failsReported_addDiagnostic
      refine failsReported_bind fun _ => failsReported_bind fun d => ?_
      split
      · refine failsReported_bind fun _ => failsReported_bind fun _ => failsReported_bind fun _ => ?_
        refine failsReported_bind fun _ => failsReported_bind fun _ => failsReported_bind fun _ => ?_
        exact failsReported_pure rfl
      · exact failsReported_addDiagnostic
    · exact failsReported_addDiagnostic
  split
  · refine failsReported_bind fun _ => failsReported_bind fun _ => failsReported_bind fun _ => ?_
    refine failsReported_bind fun _ => failsReported_bind fun _ => failsReported_bind fun _ => ?_
    exact failsReported_pure rfl
  · exact failsReported_addDiagnostic

theorem failsReported_parseField {fuel : Nat} : FailsReported (parseField fuel selectionSet) := by
  refine failsReported_bind fun _ => failsReported_bind fun _ => failsReported_bind fun _ => ?_
  split
  · exact failsReported_bind fun _ => failsReported_addDiagnostic
  refine failsReported_bind fun _ => failsReported_bind fun _ => failsReported_bind fun _ => ?_
  refine failsReported_bind fun _ => failsReported_bind fun _ => failsReported_bind fun _ => ?_
  refine failsReported_bind fun _ => ?_
  split
  case isFalse => exact failsReported_pure rfl
  refine failsReported_bind fun _ => ?_
  split
  · refine failsReported_bind fun _ => failsReported_bind fun _ => failsReported_bind fun _ => ?_
    exact failsReported_bind fun _ => failsReported_pure rfl
  · exact failsReported_bind fun _ => failsReported_addDiagnostic

end Turns

/-! ## Selection sets -/

/-- What is reported excuses what is left on the stack. -/
theorem takes_addDiagnostic {template : D} {arguments : List Ustring} :
    KeepsOr Takes StopsAbove (addDiagnostic template arguments) := by
  intro s
  refine .reported ?_ (List.tail_suffix _) (length_lt_addDiagnostic rfl)
  exact Holds.of_same rfl rfl (length_le_of_run (m := addDiagnostic template arguments) rfl)

/-- A turn of the loop, and the rest of it. -/
theorem takes_turn {turn : ExecutorM SelectionTurn} (hturn : KeepsOr Holds StopsAbove turn)
    (hfails : FailsReported turn) {rest : SelectionTurn → ExecutorM (Option SelectionSet)}
    (hrest : ∀ t, t.goesOn = true → KeepsOr Takes StopsAbove (rest t))
    (hfail : rest .fail = pure none) : KeepsOr Takes StopsAbove (turn >>= rest) := by
  refine fun s => Relates.bind (hturn s) fun t s₁ ht hs => ?_
  cases t with
  | add selection => exact Relates.after (T := Takes) Holds.takes hs (hrest _ rfl s₁)
  | skip => exact Relates.after (T := Takes) Holds.takes hs (hrest _ rfl s₁)
  | fail =>
    rw [hfail]
    exact .reported hs (List.tail_suffix _) (hfails s s₁ ht)

/-- The selection sets, by induction on the bound. -/
theorem keepsOr_selectionSets (fuel : Nat) :
    (∀ span selections, KeepsOr Takes StopsAbove (parseSelections fuel span selections)) ∧
      KeepsOr Takes StopsAbove (parseSelectionSet fuel) ∧
      KeepsOr Takes StopsAbove (parseSelectionSetAfterOpenBrace fuel) := by
  have h := keptByParts_holds
  induction fuel with
  | zero =>
    have hstop : ∀ s : GraphQlExecutor, StopsAbove s s := fun _ => .of_eq rfl
    exact ⟨fun _ _ => hstop, hstop, hstop⟩
  | succ fuel ih =>
    obtain ⟨ihSelections, ihSet, ihAfter⟩ := ih
    refine ⟨fun span selections => ?_, ?_, ?_⟩
    · unfold parseSelections
      refine takes_bind h.keeps_read fun start => takes_bind h.keeps_takeNextToken fun token => ?_
      split
      · refine takes_turn (keepsOr_parseFragment ihSet) failsReported_parseFragment ?_ rfl
        rintro (selection | _ | _) hturn
        · exact ihSelections _ _
        · exact ihSelections _ _
        · cases hturn
      · refine takes_turn (keepsOr_parseField ihAfter) failsReported_parseField ?_ rfl
        rintro (selection | _ | _) hturn
        · exact ihSelections _ _
        · exact ihSelections _ _
        · cases hturn
      · exact keepsOr_popObjectType.reads fun _ s => ⟨_, rfl⟩
      · refine KeepsOr.reads ?_ fun _ s => ⟨_, rfl⟩
        unfold reportEndOfSelections
        split <;> exact takes_addDiagnostic
      · exact takes_addDiagnostic.reads fun _ s => ⟨_, rfl⟩
    · unfold parseSelectionSet
      refine fun s => Relates.bind (h.keeps_scanExpected s) fun brace s₁ hbrace hs => ?_
      cases brace with
      | true => exact Relates.after (T := Takes) Holds.takes hs (ihAfter s₁)
      | false => exact .reported hs (List.tail_suffix _) (length_lt_scanExpected hbrace)
    · unfold parseSelectionSetAfterOpenBrace
      exact takes_bind h.keeps_read fun span => ihSelections _ _

/-! ## Runs -/

theorem keptByParts_reads : KeptByParts (ReadsAbove 1) (ReadsAbove 1) :=
  keptByParts_of_same fun _ _ _ hreads _ => .of_eq hreads

/-- A selection set for which an entry was pushed reads no empty stack. -/
theorem reads_pushObjectType {α : Type} {id : Option DeclarationId} {rest : ExecutorM α}
    (hrest : KeepsOr Takes StopsAbove rest) :
    KeepsOr (ReadsAbove 1) (ReadsAbove 1) (do pushObjectType id; rest) := by
  intro s
  let pushed : GraphQlExecutor := { s with members :=
    { s.members with currentObjectTypes := id :: s.members.currentObjectTypes } }
  have hs : Relates Takes StopsAbove pushed (rest.run pushed) := hrest pushed
  have hpush : (do pushObjectType id; rest : ExecutorM α).run s = rest.run pushed := rfl
  have hheight : 1 ≤ pushed.members.currentObjectTypes.length := Nat.le_add_left _ _
  rw [hpush]
  cases hrun : rest.run pushed with
  | ok a s' =>
    rw [hrun] at hs
    exact hs.reads.mono hheight
  | stop e s' =>
    rw [hrun] at hs
    exact ReadsAbove.mono hheight hs

theorem takes_parseOperationDefinition {fuel : Nat} {operationType : OperationType} :
    KeepsOr Takes StopsAbove (parseOperationDefinition fuel operationType) := by
  have h := keptByParts_holds
  refine takes_bind h.keeps_read fun _ => takes_bind h.keeps_parseOperationHead fun _ => ?_
  refine takes_bind h.keeps_parseDirectives fun _ => ?_
  refine (keepsOr_selectionSets fuel).2.1.reads fun set s => ?_
  cases set <;> exact ⟨_, rfl⟩

theorem reads_parseFragmentBody {fuel : Nat} {span : Span} {name typeName : Name}
    {symbol : Symbol} : KeepsOr (ReadsAbove 1) (ReadsAbove 1)
      (parseFragmentBody fuel span name typeName symbol) := by
  have h := keptByParts_reads
  refine keepsOr_bind keepsOr_require fun d => keepsOr_bind ?_ fun _ => reads_pushObjectType ?_
  · unfold checkFragmentType
    split
    · exact keepsOr_pure
    · exact h.keeps_addDiagnostic rfl
  refine takes_bind keptByParts_holds.keeps_parseDirectives fun _ s => ?_
  refine Relates.bind ((keepsOr_selectionSets fuel).2.1 s) fun set s' _ hs => ?_
  cases set with
  | none => exact ⟨hs.under, hs.reads, hs.grows, hs.exact⟩
  | some set => exact hs

theorem reads_parseFragmentDefinition {fuel : Nat} : KeepsOr (ReadsAbove 1) (ReadsAbove 1)
    (parseFragmentDefinitionAfterFragmentKeyword fuel) := by
  have h := keptByParts_reads
  refine keepsOr_bind h.keeps_read fun _ => keepsOr_bind h.keeps_scanExpected fun named => ?_
  split
  case isFalse => exact keepsOr_pure
  refine keepsOr_bind h.keeps_read fun value => h.keeps_nameFragment fun name => ?_
  refine keepsOr_bind h.keeps_scanExpected fun on => ?_
  split
  case isFalse => exact keepsOr_pure
  refine keepsOr_bind h.keeps_scanExpected fun typed => ?_
  split
  case isFalse => exact keepsOr_pure
  refine keepsOr_bind h.keeps_read fun typeValue => keepsOr_bind h.keeps_read fun symbols => ?_
  split
  · exact keepsOr_bind (h.keeps_addDiagnostic rfl) fun _ => keepsOr_pure
  · exact keepsOr_bind h.keeps_createName fun _ => reads_parseFragmentBody

theorem reads_parsePrimaryToken {fuel : Nat} {token : GraphQlToken} :
    KeepsOr (ReadsAbove 1) (ReadsAbove 1) (parsePrimaryToken fuel token) := by
  have h := keptByParts_reads
  have hunsupported : ∀ {template}, template.isPlain = true →
      KeepsOr (ReadsAbove 1) (ReadsAbove 1) (do
        addDiagnostic template []
        skipToNextPrimaryToken
        return none : ExecutorM (Option PrimaryDefinition)) := fun {_} htemplate =>
    keepsOr_bind (h.keeps_addDiagnostic htemplate) fun _ =>
      keepsOr_bind h.keeps_skipToNextPrimaryToken fun _ => keepsOr_pure
  have hoperation : ∀ {id operationType}, KeepsOr (ReadsAbove 1) (ReadsAbove 1) (do
      pushObjectType id
      parseOperationDefinition fuel operationType) := fun {_ _} =>
    reads_pushObjectType takes_parseOperationDefinition
  unfold parsePrimaryToken
  split
  · exact keepsOr_bind h.keeps_read fun _ => hoperation
  · refine keepsOr_bind h.keeps_read fun mutation => ?_
    split
    · exact hunsupported rfl
    · exact hoperation
  · refine keepsOr_bind h.keeps_read fun subscription => ?_
    split
    · exact hunsupported rfl
    · exact hoperation
  · refine keepsOr_bind h.keeps_read fun _ => reads_pushObjectType ?_
    refine takes_bind keptByParts_holds.keeps_read fun _ => ?_
    refine (keepsOr_selectionSets fuel).2.2.reads fun set s => ?_
    cases set <;> exact ⟨_, rfl⟩
  · exact reads_parseFragmentDefinition
  · exact keepsOr_bind (h.keeps_addDiagnostic rfl) fun _ => keepsOr_pure

theorem reads_parseDefinitions (fuel : Nat) (token : GraphQlToken)
    (document : ExecutableDefinition) :
    KeepsOr (ReadsAbove 1) (ReadsAbove 1) (parseDefinitions fuel token document) := by
  induction fuel generalizing token document with
  | zero => exact keepsOr_stop
  | succ fuel ih =>
    unfold parseDefinitions
    split
    · exact keepsOr_pure
    refine keepsOr_bind reads_parsePrimaryToken fun definition => ?_
    refine keepsOr_bind keptByParts_reads.keeps_takeToken fun token => ?_
    split <;> exact ih _ _

theorem reads_execute (query : Ustring) :
    KeepsOr (ReadsAbove 1) (ReadsAbove 1) (execute query) := by
  have h := keptByParts_reads
  refine keepsOr_bind h.keeps_takeToken fun token => keepsOr_bind h.keeps_read fun span => ?_
  refine keepsOr_bind (reads_parseDefinitions _ _ _) fun document => ?_
  refine keepsOr_bind (keepsOr_bind h.keeps_read fun references => keepsOr_forM fun _ _ =>
    h.keeps_checkForwardFragmentReference) fun _ => keepsOr_bind h.keeps_read fun _ => keepsOr_pure

/-! ## The reads of a selection set -/

/-- The loop of a selection set, with `fuel` left, comes from a turn that begins in the first state to
one that begins in the second. -/
inductive Turns (fuel : Nat) (s : GraphQlExecutor) : Nat → GraphQlExecutor → Prop
  | refl : Turns fuel s fuel s
  | fragment {n : Nat} {s₁ s₂ s₃ : GraphQlExecutor} {turn : SelectionTurn}
      (h : Turns fuel s (n + 1) s₁) (htoken : (takeNextToken true true).run s₁ = .ok .ellipses s₂)
      (hturn : (parseFragment n s₁.scanner.position (parseSelectionSet n)).run s₂ = .ok turn s₃)
      (hgoesOn : turn.goesOn = true) : Turns fuel s n s₃
  | field {n : Nat} {s₁ s₂ s₃ : GraphQlExecutor} {turn : SelectionTurn}
      (h : Turns fuel s (n + 1) s₁) (htoken : (takeNextToken true true).run s₁ = .ok .gName s₂)
      (hturn : (parseField n (parseSelectionSetAfterOpenBrace n)).run s₂ = .ok turn s₃)
      (hgoesOn : turn.goesOn = true) : Turns fuel s n s₃

/-- A turn that begins in the first state reads the top of the stack in the second: for the name of a
field, for a spread, for an inline fragment, or to pop it at the closing brace. -/
inductive Looks (s : GraphQlExecutor) : GraphQlExecutor → Prop
  | field {s₁ : GraphQlExecutor} (htoken : (takeNextToken true true).run s = .ok .gName s₁) :
      Looks s s₁
  | closeBrace {s₁ : GraphQlExecutor}
      (htoken : (takeNextToken true true).run s = .ok .closeBrace s₁) : Looks s s₁
  | fragmentSpread {s₁ s₂ : GraphQlExecutor}
      (htoken : (takeNextToken true true).run s = .ok .ellipses s₁)
      (hname : takeToken.run s₁ = .ok .gName s₂) : Looks s s₂
  | inlineFragment {s₁ s₂ s₃ : GraphQlExecutor} {symbol : Symbol} {object : Object}
      (htoken : (takeNextToken true true).run s = .ok .ellipses s₁)
      (hon : takeToken.run s₁ = .ok .onKeyword s₂)
      (hname : (scanExpected .gName false).run s₂ = .ok true s₃)
      (hsymbol : s₃.members.symbols.find? s₃.scanner.getValue = some symbol)
      (hobject : s₃.pool.declarations[symbol.declaration]? = some (.object object)) : Looks s s₃

theorem holds_of_turns {fuel n : Nat} {s s' : GraphQlExecutor} (h : Turns fuel s n s') :
    Holds s s' := by
  induction h with
  | refl => exact refl_of Holds s
  | fragment h htoken hturn hgoesOn ih =>
    refine trans_of Holds ih ?_
    refine trans_of Holds (keptByParts_holds.keeps_takeNextToken.keeps _ _ _ htoken) ?_
    exact (keepsOr_parseFragment (keepsOr_selectionSets _).2.1).keeps _ _ _ hturn
  | field h htoken hturn hgoesOn ih =>
    refine trans_of Holds ih ?_
    refine trans_of Holds (keptByParts_holds.keeps_takeNextToken.keeps _ _ _ htoken) ?_
    exact (keepsOr_parseField (keepsOr_selectionSets _).2.2).keeps _ _ _ hturn

theorem holds_of_looks {s s' : GraphQlExecutor} (h : Looks s s') : Holds s s' := by
  have htake : KeepsOr Holds StopsAbove (takeNextToken true true) :=
    keptByParts_holds.keeps_takeNextToken
  cases h with
  | field htoken => exact htake.keeps _ _ _ htoken
  | closeBrace htoken => exact htake.keeps _ _ _ htoken
  | fragmentSpread htoken hname =>
    refine trans_of Holds (htake.keeps _ _ _ htoken) ?_
    exact keptByParts_holds.keeps_takeToken.keeps _ _ _ hname
  | inlineFragment htoken hon hname hsymbol hobject =>
    refine trans_of Holds (htake.keeps _ _ _ htoken) ?_
    refine trans_of Holds (keptByParts_holds.keeps_takeToken.keeps _ _ _ hon) ?_
    exact keptByParts_holds.keeps_scanExpected.keeps _ _ _ hname

/-- The run of the loop goes on from the turns it has come to. -/
theorem run_of_turns {fuel n : Nat} {s s' : GraphQlExecutor} (h : Turns fuel s n s') (span : Span)
    (selections : List Selection) : ∃ selections',
      (parseSelections fuel span selections).run s = (parseSelections n span selections').run s' := by
  induction h with
  | refl => exact ⟨selections, rfl⟩
  | @fragment n s₁ s₂ s₃ turn h htoken hturn hgoesOn ih =>
    obtain ⟨selections', hrun⟩ := ih
    rw [hrun, parseSelections, run_bind_ok (a := s₁.scanner.position) rfl, run_bind_ok htoken,
      run_bind_ok hturn]
    cases turn with
    | add selection => exact ⟨_, rfl⟩
    | skip => exact ⟨_, rfl⟩
    | fail => cases hgoesOn
  | @field n s₁ s₂ s₃ turn h htoken hturn hgoesOn ih =>
    obtain ⟨selections', hrun⟩ := ih
    rw [hrun, parseSelections, run_bind_ok (a := s₁.scanner.position) rfl, run_bind_ok htoken,
      run_bind_ok hturn]
    cases turn with
    | add selection => exact ⟨_, rfl⟩
    | skip => exact ⟨_, rfl⟩
    | fail => cases hgoesOn

/-- Where a turn looks, the run reads the top of the stack. -/
theorem run_of_looks {n : Nat} {s s' : GraphQlExecutor} (h : Looks s s') (span : Span)
    (selections : List Selection) : ∃ rest : Option DeclarationId → ExecutorM (Option SelectionSet),
      (parseSelections (n + 1) span selections).run s = (topObjectType >>= rest).run s' := by
  rw [parseSelections, run_bind_ok (a := s.scanner.position) rfl]
  cases h with
  | field htoken =>
    rw [run_bind_ok htoken]
    simp only [parseField, currentObjectType, bind_assoc]
    exact ⟨_, run_bind_ok rfl⟩
  | closeBrace htoken =>
    rw [run_bind_ok htoken]
    simp only [popObjectType, bind_assoc]
    exact ⟨_, rfl⟩
  | @fragmentSpread s₁ _ htoken hname =>
    rw [run_bind_ok htoken]
    simp only [parseFragment, bind_assoc]
    rw [run_bind_ok hname]
    simp only [reduceCtorEq, if_false, if_true, parseFragmentSpread, bind_assoc]
    rw [run_bind_ok rfl, run_bind_ok rfl, run_bind_ok rfl]
    exact ⟨_, rfl⟩
  | @inlineFragment s₁ s₂ _ symbol object htoken hon hname hsymbol hobject =>
    rw [run_bind_ok htoken]
    simp only [parseFragment, bind_assoc]
    rw [run_bind_ok hon]
    simp only [if_true, parseInlineFragment, bind_assoc]
    rw [run_bind_ok hname]
    simp only [if_true, bind_assoc]
    rw [run_bind_ok rfl, run_bind_ok rfl, run_bind_ok rfl, hsymbol]
    simp only [bind_assoc]
    have hdeclaration : (declaration symbol.declaration : ExecutorM _).run s' =
        .ok (.object object) s' := run_require_some hobject
    rw [run_bind_ok rfl, run_bind_ok hdeclaration]
    simp only [currentObjectType, bind_assoc]
    exact ⟨_, rfl⟩

/-! ## The discipline -/

/-- **The top of the stack is never read from an empty stack.** A selection set finds the entry that
was pushed for it, and those under it, whenever the top is read while it is read; when nothing is
reported, it leaves the stack as it was before the push, and its selections are checked against the
entry. -/
theorem stack_disciplined (schema : GraphQlSchema) (query : Ustring) :
    (∀ height, .readStack height ∈ (run schema query).state.steps → 0 < height) ∧
    ∀ (fuel : Nat) (s : GraphQlExecutor) (id : Option DeclarationId)
      (rest : List (Option DeclarationId)), s.members.currentObjectTypes = id :: rest →
      ReadsAbove (rest.length + 1) s ((parseSelectionSetAfterOpenBrace (fuel + 1)).run s).state ∧
      (∀ set s', (parseSelectionSetAfterOpenBrace (fuel + 1)).run s = .ok set s' →
        s'.diagnostics = s.diagnostics → s'.members.currentObjectTypes = rest) ∧
      ∀ n s₁ s₂, Turns fuel s (n + 1) s₁ → Looks s₁ s₂ →
        (∃ selections : Option DeclarationId → ExecutorM (Option SelectionSet),
          (parseSelectionSetAfterOpenBrace (fuel + 1)).run s =
            (topObjectType >>= selections).run s₂) ∧
        (s₂.diagnostics = s.diagnostics → s₂.members.currentObjectTypes = id :: rest) := by
  constructor
  · intro height hmem
    obtain ⟨heights, hreads, hpositive⟩ := (reads_execute query (addSchema schema query)).state
    have hread : height ∈ stackReads (run schema query).state.steps :=
      List.mem_filterMap.2 ⟨_, hmem, rfl⟩
    have hnew : stackReads (run schema query).state.steps = heights := hreads
    exact hpositive height (hnew ▸ hread)
  · intro fuel s id rest hstack
    have hcall := (keepsOr_selectionSets (fuel + 1)).2.2
    refine ⟨?_, fun set s' hrun hsame => ?_, fun n s₁ s₂ hturns hlooks => ⟨?_, fun hsame => ?_⟩⟩
    · have hreads : ReadsAbove s.members.currentObjectTypes.length s
          ((parseSelectionSetAfterOpenBrace (fuel + 1)).run s).state := by
        have hs := hcall s
        cases hrun : (parseSelectionSetAfterOpenBrace (fuel + 1)).run s with
        | ok set s' =>
          rw [hrun] at hs
          exact hs.reads
        | stop e s' =>
          rw [hrun] at hs
          exact hs
      rw [hstack] at hreads
      exact hreads
    · rw [(hcall.keeps _ _ _ hrun).exact (by rw [hsame]), hstack]
      rfl
    · obtain ⟨selections, hrun⟩ := run_of_turns hturns
        ⟨s.scanner.startPosition, s.scanner.position⟩ []
      obtain ⟨continued, hlook⟩ := run_of_looks hlooks
        ⟨s.scanner.startPosition, s.scanner.position⟩ selections
      refine ⟨continued, ?_⟩
      rw [parseSelectionSetAfterOpenBrace, run_bind_ok rfl]
      exact hrun.trans hlook
    · have hholds := trans_of Holds (holds_of_turns hturns) (holds_of_looks hlooks)
      rw [hholds.exact (by rw [hsame]), hstack]

/-- A query with a nested selection set and a fragment reads the stack seven times. -/
theorem stack_disciplined_nested : ∃ schema document executor,
    GraphQlSchema.Accepts "type Query{f:Int q:Query}".toList schema ∧
      run schema "{q{f}...A}fragment A on Query{f}".toList = .ok document executor ∧
      stackReads executor.steps = [1, 2, 2, 1, 1, 1, 1] ∧
      ∀ height, .readStack height ∈ executor.steps → 0 < height := by
  have haccepts : GraphQlSchema.Accepts "type Query{f:Int q:Query}".toList _ :=
    GraphQlSchema.accepts_of_run (by decide +kernel) (by decide +kernel)
  obtain ⟨document, hrun⟩ := Outcome.exists_eq_ok (o := run
    (GraphQlSchema.run "type Query{f:Int q:Query}".toList).state
    "{q{f}...A}fragment A on Query{f}".toList) (by decide +kernel)
  exact ⟨_, document, _, haccepts, hrun, by decide +kernel, (stack_disciplined _ _).1⟩

end GraphQlExecutor

end Flashpoint
