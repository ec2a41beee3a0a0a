import Flashpoint.Library.Coupled
import Flashpoint.Places
import Flashpoint.Tokens

/-!
# Texts that differ in their layout

Two texts have the same lexemes when they differ only in what stands between these: white space, commas,
line breaks, comments. Spacing counts at one place, between an at sign and the name after it. The second
half runs the parser on two such texts side by side: `Alike` states have the same lexemes left and the
same nodes, up to the places that the nodes cover.
-/

namespace Flashpoint

open Library Climb GraphQlScanner

/-! ## Lexemes -/

/-- The lexemes of a text with their spacing left out, but for the one that follows an at sign. -/
def spaced : Bool → List Lexeme → List Lexeme
  | _, [] => []
  | afterAt, l :: x => { l with tight := afterAt && l.tight } :: spaced (l.token = .atSign) x

/-- The texts differ in their layout at most. -/
def SameLexemes (x y : List Lexeme) : Prop := spaced false x = spaced false y

instance : DecidableRel SameLexemes := fun x y => decEq (spaced false x) (spaced false y)

theorem spaced_false_of {afterAt : Bool} {x y : List Lexeme} (h : spaced afterAt x = spaced afterAt y) :
    spaced false x = spaced false y := by
  cases x with
  | nil =>
    cases y with
    | nil => rfl
    | cons l y => cases h
  | cons l x =>
    cases y with
    | nil => cases h
    | cons l' y =>
      obtain ⟨hl, hrest⟩ := List.cons.inj h
      rw [spaced, spaced, hrest]
      refine congrArg (· :: _) ?_
      simp only [Lexeme.mk.injEq, Bool.false_and, and_true] at hl ⊢
      exact ⟨hl.1, hl.2.1, hl.2.2.1, hl.2.2.2.1⟩

/-- The first lexemes of two such texts, and what follows them. -/
structure SameFirst (afterAt : Bool) (l l' : Lexeme) (x y : List Lexeme) : Prop where
  token : l.token = l'.token
  asName : l.asName = l'.asName
  value : l.value = l'.value
  string : l.string = l'.string
  tight : afterAt = true → l.tight = l'.tight
  rest : spaced (l.token = .atSign) x = spaced (l.token = .atSign) y

theorem SameFirst.tokenIn {afterAt : Bool} {l l' : Lexeme} {x y : List Lexeme}
    (h : SameFirst afterAt l l' x y) (asName : Bool) : l.tokenIn asName = l'.tokenIn asName := by
  cases asName
  · exact h.token
  · exact h.asName

theorem spaced_cons_iff {afterAt : Bool} {l l' : Lexeme} {x y : List Lexeme} :
    spaced afterAt (l :: x) = spaced afterAt (l' :: y) ↔ SameFirst afterAt l l' x y := by
  simp only [spaced, List.cons.injEq, Lexeme.mk.injEq]
  constructor
  · rintro ⟨⟨htoken, hasName, hvalue, hstring, htight⟩, hrest⟩
    refine ⟨htoken, hasName, hvalue, hstring, fun hat => ?_, ?_⟩
    · rwa [hat, Bool.true_and, Bool.true_and] at htight
    · rwa [← htoken] at hrest
  · rintro ⟨htoken, hasName, hvalue, hstring, htight, hrest⟩
    refine ⟨⟨htoken, hasName, hvalue, hstring, ?_⟩, ?_⟩
    · cases afterAt with
      | false => rfl
      | true => rw [htight rfl]
    · rwa [← htoken]

theorem spaced_eq_nil {afterAt : Bool} {x y : List Lexeme} (h : spaced afterAt x = spaced afterAt y) :
    x = [] ↔ y = [] := by
  cases x <;> cases y
  · exact iff_of_true rfl rfl
  · cases h
  · cases h
  · exact iff_of_false (List.cons_ne_nil _ _) (List.cons_ne_nil _ _)

/-! ## Parsers side by side -/

namespace ParserM

variable {M α α' β : Type} (R : List Declaration → M → List Declaration → M → Prop)

/-- The same lexemes are left, spaced alike behind an at sign, and the nodes are the same up to their
places; under `read` the last token has the same text. The relation `R` compares the declarations and
the members. -/
structure Alike (afterAt : Bool) (read : Prop) (s s' : GraphQlParser M) : Prop where
  rest : spaced afterAt s.scanner.rest = spaced afterAt s'.scanner.rest
  value : read → s.scanner.getValue = s'.scanner.getValue
  types : s.pool.types.map TypeNode.unplaced = s'.pool.types.map TypeNode.unplaced
  nodes : R s.pool.declarations s.members s'.pool.declarations s'.members
  directives : s.directives.map Directive.unplaced = s'.directives.map Directive.unplaced
  currentValueToken : s.currentValueToken = s'.currentValueToken
  description : s.currentDescription = s'.currentDescription
  hasDescription : s.hasDescription = s'.hasDescription

variable {R} {afterAt : Bool} {read : Prop} {P : GraphQlParser M → GraphQlParser M → Prop}

theorem Alike.weaken {s s' : GraphQlParser M} (h : Alike R afterAt read s s') {read' : Prop}
    (hread : read' → read) : Alike R false read' s s' :=
  { h with
    rest := spaced_false_of h.rest
    value := fun hr => h.value (hread hr) }

theorem Alike.first {s s' : GraphQlParser M} (h : Alike R afterAt read s s') {l l' : Lexeme}
    {x y : List Lexeme} (hrest : s.scanner.rest = l :: x) (hrest' : s'.scanner.rest = l' :: y) :
    SameFirst afterAt l l' x y := by
  rw [← spaced_cons_iff, ← hrest, ← hrest']
  exact h.rest

theorem Alike.nil_iff {s s' : GraphQlParser M} (h : Alike R afterAt read s s') :
    s.scanner.rest = [] ↔ s'.scanner.rest = [] := spaced_eq_nil h.rest

/-- The texts go on alike after a lexeme was taken from each. -/
theorem Alike.take {s s' : GraphQlParser M} (h : Alike R afterAt read s s') {sc sc' : GraphQlScanner}
    {l l' : Lexeme} (hl : Took l s { s with scanner := sc }) (hl' : Took l' s' { s' with scanner := sc' }) :
    SameFirst afterAt l l' sc.rest sc'.rest ∧
      Alike R (l.token = .atSign) True { s with scanner := sc } { s' with scanner := sc' } := by
  have hfirst := h.first hl.rest hl'.rest
  refine ⟨hfirst, { h with rest := hfirst.rest, value := fun _ => ?_ }⟩
  exact hl.value.trans (hfirst.value.trans hl'.value.symm)

/-- The lexeme that the second text starts with. -/
theorem Alike.took {s s' : GraphQlParser M} (h : Alike R afterAt read s s') {l : Lexeme}
    {sc : GraphQlScanner} (hl : Took l s { s with scanner := sc }) :
    SameFirst afterAt l s'.scanner.lexeme sc.rest s'.scanner.afterLexeme.rest ∧
      Alike R (l.token = .atSign) True { s with scanner := sc }
        { s' with scanner := s'.scanner.afterLexeme } := by
  have hne : s'.scanner.lexeme.tokenIn false ≠ .endOfDocument := by
    intro hend
    cases hl.rest.symm.trans (h.nil_iff.2 (rest_of_end hend))
  exact h.take hl (took_afterLexeme hne)

/-! ### Steps -/

theorem coupled_read {f : GraphQlParser M → α} {f' : GraphQlParser M → α'}
    {Q : α → α' → GraphQlParser M → GraphQlParser M → Prop} (h : ∀ s s', P s s' → Q (f s) (f' s') s s') :
    Coupled clean .outOfFuel P (ParserM.read f) (ParserM.read f') Q := by
  intro s s' a t hs hg hm
  obtain ⟨rfl, rfl⟩ := ends_read hm
  exact .inr ⟨f' s', s', ⟨rfl, hg⟩, h t s' hs⟩

theorem coupled_createSpan : Coupled clean .outOfFuel P createSpan createSpan fun _ _ => P :=
  coupled_read fun _ _ hs => hs

theorem coupled_finishSpan {span span' : Span} :
    Coupled clean .outOfFuel P (finishSpan span) (finishSpan span') fun _ _ => P :=
  coupled_read fun _ _ hs => hs

theorem coupled_createName {identifier : Ustring} :
    Coupled clean .outOfFuel P (createName identifier) (createName identifier) fun name name' s s' =>
      name.identifier = identifier ∧ name'.identifier = identifier ∧ P s s' :=
  coupled_bind coupled_createSpan fun _ _ => coupled_pure fun _ _ hs => ⟨rfl, rfl, hs⟩

theorem coupled_update {f f' : GraphQlParser M → GraphQlParser M}
    {Q : GraphQlParser M → GraphQlParser M → Prop}
    (h : ∀ s s', P s s' → Q { f s with diagnostics := s.diagnostics, steps := s.steps }
      { f' s' with diagnostics := s'.diagnostics, steps := s'.steps }) :
    Coupled clean .outOfFuel P (update f) (update f') fun _ _ => Q :=
  coupled_step (fun _ hs => hs) h

theorem coupled_recordStep {step step' : Step} : Coupled clean .outOfFuel (Alike R afterAt read)
    (recordStep step) (recordStep step') fun _ _ => Alike R afterAt read :=
  coupled_step (fun _ hs => hs) fun _ _ hs => { hs with }

/-- The members are changed in a way that keeps them related. -/
theorem coupled_modifyMembers {f f' : M → M}
    (h : ∀ d m d' m', R d m d' m' → R d (f m) d' (f' m')) :
    Coupled clean .outOfFuel (Alike R afterAt read) (modifyMembers f) (modifyMembers f') fun _ _ =>
      Alike R afterAt read :=
  coupled_update fun _ _ hs => { hs with nodes := h _ _ _ _ hs.nodes }

/-- Something is read from the nodes. -/
theorem coupled_deref {f : GraphQlParser M → Option α} {f' : GraphQlParser M → Option α'}
    {S : α → α' → Prop} (h : ∀ s s' a, P s s' → f s = some a → ∃ a', f' s' = some a' ∧ S a a') :
    Coupled clean .outOfFuel P (deref f) (deref f') fun a a' s s' => S a a' ∧ P s s' := by
  refine coupled_require fun s s' a hs ha => ?_
  obtain ⟨a', ha', hS⟩ := h s s' a hs ha
  exact ⟨a', ha', hS, hs⟩

/-- Pointers to nodes that are the same, up to their places. -/
theorem coupled_follow {p p' : Option α} {f : α → β} (h : p.map f = p'.map f) :
    Coupled clean .outOfFuel P (follow p) (follow p') fun a a' s s' => f a = f a' ∧ P s s' := by
  refine coupled_deref fun s s' a hs ha => ?_
  rw [show p = some a from ha, Option.map_some, eq_comm, Option.map_eq_some_iff] at h
  obtain ⟨a', ha', heq⟩ := h
  exact ⟨a', ha', heq.symm⟩

/-! ### Types -/

theorem coupled_typeNode {id : TypeId} : Coupled clean .outOfFuel (Alike R afterAt read) (typeNode id)
    (typeNode id) fun t t' s s' => t.unplaced = t'.unplaced ∧ Alike R afterAt read s s' := by
  refine coupled_deref fun s s' t hs ht => ?_
  have hget := congrArg (·[id]?) hs.types
  simp only [List.getElem?_map, ht, Option.map_some] at hget
  obtain ⟨t', ht', heq⟩ := Option.map_eq_some_iff.1 hget.symm
  exact ⟨t', ht', heq.symm⟩

theorem coupled_modifyType {id : TypeId} {f f' : TypeNode → TypeNode}
    (h : ∀ t t', t.unplaced = t'.unplaced → (f t).unplaced = (f' t').unplaced) :
    Coupled clean .outOfFuel (Alike R afterAt read) (modifyType id f) (modifyType id f') fun _ _ =>
      Alike R afterAt read := by
  refine coupled_update fun s s' hs => { hs with types := List.ext_getElem? fun i => ?_ }
  have hget := congrArg (·[i]?) hs.types
  simp only [List.getElem?_map, List.getElem?_modify] at hget ⊢
  cases ht : s.pool.types[i]? with
  | none =>
    rw [ht, Option.map_none, eq_comm, Option.map_eq_none_iff] at hget
    simp only [hget, Option.map_eq_map, Option.map_none]
  | some t =>
    rw [ht, Option.map_some, eq_comm, Option.map_eq_some_iff] at hget
    obtain ⟨t', ht', heq⟩ := hget
    simp only [ht', Option.map_eq_map, Option.map_some, Option.some.injEq]
    split
    · exact h t t' heq.symm
    · exact heq.symm

theorem coupled_createType {node node' : TypeNode} (h : node.unplaced = node'.unplaced) :
    Coupled clean .outOfFuel (Alike R afterAt read) (createType node) (createType node')
      fun id id' s s' => id = id' ∧ Alike R afterAt read s s' := by
  refine coupled_bind (coupled_read (Q := fun id id' s s' => id = id' ∧ Alike R afterAt read s s')
    fun s s' hs => ⟨?_, hs⟩) fun id id' => coupled_fact fun hid => ?_
  · have hlength := congrArg List.length hs.types
    rwa [List.length_map, List.length_map] at hlength
  · refine coupled_bind (coupled_update (Q := Alike R afterAt read) fun s s' hs => { hs with types := ?_ })
      fun _ _ => coupled_pure fun _ _ hs => ⟨hid, hs⟩
    simp only [List.map_append, hs.types, List.map_cons, List.map_nil, h]

/-! ### Tokens -/

/-- The first lexeme is taken from both texts, or both are at their end. -/
theorem coupled_takeNextToken {asName : Bool} : Coupled clean .outOfFuel (Alike R afterAt read)
    (takeNextToken asName true) (takeNextToken asName true) fun token token' s s' =>
      token = token' ∧ Alike R false (token ≠ .endOfDocument) s s' := by
  intro s s' token t hs hg hm
  have hm' : Ends clean (takeNextToken asName true) s' _ _ := ⟨rfl, hg⟩
  refine .inr ⟨_, _, hm', ?_⟩
  have htook := took_of_takeNextToken hm
  have htook' := took_of_takeNextToken hm'
  obtain ⟨-, rfl⟩ := ends_takeNextToken hm
  obtain ⟨-, hs'⟩ := ends_takeNextToken hm'
  rw [hs'] at htook' ⊢
  rcases htook with ⟨hend, hnil, hnil₁⟩ | ⟨l, htook, htoken⟩
  · rcases htook' with ⟨hend', -, hnil₁'⟩ | ⟨l', htook', -⟩
    · refine ⟨hend.trans hend'.symm, { hs with rest := ?_, value := fun h => absurd hend h }⟩
      exact congrArg (spaced false) (hnil₁.trans hnil₁'.symm)
    · cases htook'.rest.symm.trans (hs.nil_iff.1 hnil)
  · rcases htook' with ⟨-, hnil, -⟩ | ⟨l', htook', htoken'⟩
    · cases htook.rest.symm.trans (hs.nil_iff.2 hnil)
    · obtain ⟨hfirst, halike⟩ := hs.take htook htook'
      exact ⟨htoken.symm.trans ((hfirst.tokenIn asName).trans htoken'), halike.weaken fun _ => trivial⟩

theorem coupled_takeToken : Coupled clean .outOfFuel (Alike R afterAt read) takeToken takeToken
    fun token token' s s' => token = token' ∧ Alike R false (token ≠ .endOfDocument) s s' :=
  coupled_takeNextToken

theorem ends_scan_of {s : GraphQlParser M} {f : GraphQlScanner → α × GraphQlScanner} {a : α}
    {sc : GraphQlScanner} (hg : s ∈ clean) (h : f s.scanner = (a, sc)) :
    Ends clean (scan f) s a { s with scanner := sc } := by
  refine ends_step.2 ⟨(congrArg Prod.fst h).symm, ?_, hg⟩
  exact congrArg (fun sc => { s with scanner := sc }) (congrArg Prod.snd h).symm

/-- The name behind an at sign. -/
theorem coupled_takeTightName {k : GraphQlToken → ParserM M α} {k' : GraphQlToken → ParserM M α'}
    {Q : α → α' → GraphQlParser M → GraphQlParser M → Prop}
    (hother : ∀ token, token ≠ .gName → Never clean (k token))
    (hname : Coupled clean .outOfFuel (Alike R false True) (k .gName) (k' .gName) Q) :
    Coupled clean .outOfFuel (Alike R true read) (takeNextToken true false >>= k)
      (takeNextToken true false >>= k') Q := by
  intro s s' a u hs hg hends
  obtain ⟨token, t, hm, hrest⟩ := ends_bind.1 hends
  by_cases htoken : token = .gName
  · subst htoken
    obtain ⟨l, htook, hasName, htight⟩ := took_of_takeTightName hm
    obtain ⟨-, -, rfl⟩ := ends_takeTightName hm
    obtain ⟨hfirst, halike⟩ := hs.took htook
    have htight' : (s'.scanner.takeNextToken true false).1 ≠ .whiteSpace := by
      rw [Ne, whiteSpace_iff_not_tight, ← hfirst.tight rfl, htight]
      decide
    have hm' : Ends clean (takeNextToken true false) s' .gName
        { s' with scanner := s'.scanner.afterLexeme } := by
      refine ends_scan_of hg ?_
      rw [takeNextToken_of_tight htight']
      exact Prod.ext (hfirst.asName.symm.trans hasName) rfl
    rcases hname _ _ a u (halike.weaken id) hg hrest with ⟨v, hstop⟩ | ⟨a', u', hrest', hQ⟩
    · exact .inl ⟨v, (run_bind_ok hm'.1).trans hstop⟩
    · exact .inr ⟨a', u', ends_bind.2 ⟨_, _, hm', hrest'⟩, hQ⟩
  · exact absurd hrest (hother token htoken _ _ _)

theorem coupled_scanExpected {token : GraphQlToken} {asName : Bool} (hne : token ≠ .endOfDocument) :
    Coupled clean .outOfFuel (Alike R afterAt read) (scanExpected token asName)
      (scanExpected token asName) fun found found' s s' =>
        found = true ∧ found' = true ∧ Alike R false True s s' := by
  intro s s' found t hs hg hm
  obtain ⟨rfl, l, htook, htoken⟩ := took_of_scanExpected le_rfl hm hne
  obtain ⟨-, -, rfl⟩ := ends_scanExpected le_rfl hm
  obtain ⟨hfirst, halike⟩ := hs.took htook
  refine .inr ⟨true, { s' with scanner := s'.scanner.afterLexeme }, ?_, rfl, rfl, halike.weaken id⟩
  have hm' : Ends clean (takeNextToken asName true) s' token
      { s' with scanner := s'.scanner.afterLexeme } := by
    refine ends_scan_of hg ?_
    rw [takeNextToken_eq]
    exact Prod.ext ((hfirst.tokenIn asName).symm.trans htoken) rfl
  refine ends_bind.2 ⟨token, _, hm', ?_⟩
  rw [if_pos rfl]
  exact ends_pure.2 ⟨rfl, rfl, hg⟩

theorem coupled_scanOptional {token : GraphQlToken} {asName : Bool} (hne : token ≠ .endOfDocument) :
    Coupled clean .outOfFuel (Alike R afterAt read) (scanOptional token asName)
      (scanOptional token asName) fun found found' s s' =>
        found = found' ∧ Alike R (found && !asName && token = .atSign) (found = true) s s' := by
  intro s s' found t hs hg hm
  have hm' : Ends clean (scanOptional token asName) s' _ _ := ⟨rfl, hg⟩
  refine .inr ⟨_, _, hm', ?_⟩
  have htook := took_of_scanOptional hm hne
  have htook' := took_of_scanOptional hm' hne
  obtain ⟨sc, rfl, -⟩ := ends_scanOptional hm
  obtain ⟨sc', hs', -⟩ := ends_scanOptional hm'
  rw [hs'] at htook' ⊢
  rcases htook with ⟨rfl, l, htook, htoken⟩ | ⟨rfl, hrest, hother⟩
  · rcases htook' with ⟨hfound', l', htook', -⟩ | ⟨-, -, hother'⟩
    · obtain ⟨-, halike⟩ := hs.take htook htook'
      refine ⟨hfound'.symm, ?_⟩
      cases asName with
      | false =>
        rw [show l.token = token from htoken] at halike
        exact { halike with value := fun _ => halike.value trivial }
      | true => exact halike.weaken fun _ => trivial
    · obtain ⟨l', x, hrest'⟩ := List.exists_cons_of_ne_nil fun hnil =>
        List.cons_ne_nil _ _ (htook.rest.symm.trans (hs.nil_iff.2 hnil))
      exact absurd (((hs.first htook.rest hrest').tokenIn asName).symm.trans htoken) (hother' l' x hrest')
  · rcases htook' with ⟨-, l', htook', htoken'⟩ | ⟨hmissing', hrest', -⟩
    · obtain ⟨l, x, hrest⟩ := List.exists_cons_of_ne_nil fun hnil =>
        List.cons_ne_nil _ _ (htook'.rest.symm.trans (hs.nil_iff.1 hnil))
      exact absurd (((hs.first hrest htook'.rest).tokenIn asName).trans htoken') (hother l x hrest)
    · refine ⟨hmissing'.symm, { hs with rest := ?_, value := fun h => absurd h Bool.false_ne_true }⟩
      exact (congrArg (spaced false) hrest).trans ((spaced_false_of hs.rest).trans
        (congrArg (spaced false) hrest').symm)

end ParserM

end Flashpoint
