import Flashpoint.Clean
import Flashpoint.Scanner.Lexeme

/-!
# Taking tokens

What the token operations of the parser do to the lexemes that are left. A token other than the end
of the document is the first lexeme, read in the mode of the caller; an expected token is there in a
clean run; an optional token is taken when it is there, and otherwise the scanner goes back.
-/

namespace Flashpoint

open Library Climb GraphQlScanner

namespace ParserM

variable {M : Type} {g : LowerSet (GraphQlParser M)} {s s' : GraphQlParser M}

theorem ends_takeNextToken {asName : Bool} {token : GraphQlToken}
    (h : Ends g (takeNextToken asName true) s token s') :
    token = s.scanner.lexeme.tokenIn asName ∧ s' = { s with scanner := s.scanner.afterLexeme } := by
  obtain ⟨htoken, hs⟩ := ends_scan h
  rw [takeNextToken_eq] at htoken hs
  exact ⟨htoken, hs⟩

theorem ends_takeToken {token : GraphQlToken} (h : Ends g takeToken s token s') :
    token = s.scanner.lexeme.token ∧ s' = { s with scanner := s.scanner.afterLexeme } :=
  ends_takeNextToken h

/-- A name that must follow at once. -/
theorem ends_takeTightName (h : Ends g (takeNextToken true false) s .gName s') :
    s.scanner.lexeme.asName = .gName ∧ s.scanner.lexeme.tight = true ∧
      s' = { s with scanner := s.scanner.afterLexeme } := by
  obtain ⟨htoken, hs⟩ := ends_scan h
  have hne : (s.scanner.takeNextToken true false).1 ≠ .whiteSpace := by
    rw [← htoken]
    decide
  have htight : s.scanner.lexeme.tight = true := by
    rw [← Bool.not_eq_false, ← whiteSpace_iff_not_tight s.scanner true]
    exact hne
  rw [takeNextToken_of_tight hne] at htoken hs
  exact ⟨htoken.symm, htight, hs⟩

theorem ends_scanExpected (hg : g ≤ clean) {token : GraphQlToken} {asName found : Bool}
    (h : Ends g (scanExpected token asName) s found s') :
    found = true ∧ s.scanner.lexeme.tokenIn asName = token ∧
      s' = { s with scanner := s.scanner.afterLexeme } := by
  obtain ⟨result, s₁, htake, h⟩ := ends_bind.1 h
  obtain ⟨rfl, rfl⟩ := ends_takeNextToken htake
  split at h
  · next hresult =>
    obtain ⟨rfl, rfl, -⟩ := ends_pure.1 h
    exact ⟨rfl, hresult, rfl⟩
  split at h
  · exact absurd h ends_stop
  · exact absurd (h.mono hg) ((Never.bind never_reportExpected) _ _ _)

theorem ends_scanExpectedOr (hg : g ≤ clean) {token : GraphQlToken} {template : D}
    {asName found : Bool} (h : Ends g (scanExpectedOr token template asName) s found s') :
    found = true ∧ s.scanner.lexeme.tokenIn asName = token ∧
      s' = { s with scanner := s.scanner.afterLexeme } := by
  obtain ⟨result, s₁, htake, h⟩ := ends_bind.1 h
  obtain ⟨rfl, rfl⟩ := ends_takeNextToken htake
  split at h
  · next hresult =>
    obtain ⟨rfl, rfl, -⟩ := ends_pure.1 h
    exact ⟨rfl, hresult, rfl⟩
  · exact absurd (h.mono hg) (never_bind (fun _ => Never.bind never_addDiagnostic) _ _ _)

/-- The outcome of looking for a token: the scanner is past it, or back at its place. -/
inductive Looked (asName : Bool) (token : GraphQlToken) (sc sc' : GraphQlScanner) :
    Bool → Prop where
  | found (htoken : sc.lexeme.tokenIn asName = token)
      (htext : SameText (sc.lexeme.token = .gStringValue) sc' sc.afterLexeme) :
      Looked asName token sc sc' true
  | missing (htoken : sc.lexeme.tokenIn asName ≠ token) (hplace : SamePlace sc sc') :
      Looked asName token sc sc' false

theorem ends_scanOptional {token : GraphQlToken} {asName found : Bool}
    (h : Ends g (scanOptional token asName) s found s') :
    ∃ sc, s' = { s with scanner := sc } ∧ Looked asName token s.scanner sc found := by
  obtain ⟨result, s₁, hscan, h⟩ := ends_bind.1 h
  obtain ⟨rfl, rfl⟩ := ends_scan hscan
  obtain ⟨rfl, rfl, -⟩ := ends_pure.1 h
  refine ⟨_, rfl, ?_⟩
  by_cases htoken : s.scanner.lexeme.tokenIn asName = token
  · have hfound : decide ((s.scanner.tryScan token asName).1 = token) = true := by
      rw [tryScan_eq, if_pos htoken, decide_eq_true rfl]
    rw [hfound]
    exact .found htoken (sameText_tryScan htoken)
  · have hmissing : decide ((s.scanner.tryScan token asName).1 = token) = false := by
      rw [tryScan_eq, if_neg htoken]
      exact decide_eq_false htoken
    rw [hmissing]
    exact .missing htoken (samePlace_tryScan htoken)

/-! ## The lexemes that are left -/

/-- What is known of a lexeme that the scanner gives. -/
structure Scanned (l : Lexeme) : Prop where
  modes : l.asName = l.token ∨ l.asName = .gName ∧ isWord l.token = true
  name : l.token = .gName → l.asName = .gName
  comma : l.token ≠ .comma

theorem scanned_lexeme (sc : GraphQlScanner) : Scanned sc.lexeme :=
  ⟨sc.lexeme_modes.1, sc.lexeme_modes.2, takeNextTokenLoop_ne_comma _ _⟩

/-- A token that is no word is the same in both modes. -/
theorem Scanned.token_eq {l : Lexeme} (h : Scanned l) {asName : Bool} {token : GraphQlToken}
    (htoken : l.tokenIn asName = token) (hne : token ≠ .gName) : l.token = token := by
  cases asName with
  | false => exact htoken
  | true =>
    rcases h.modes with heq | ⟨hname, -⟩
    · exact heq.symm.trans htoken
    · exact absurd (htoken.symm.trans hname) hne

theorem Scanned.tokenIn_eq {l : Lexeme} (h : Scanned l) {asName : Bool} {token : GraphQlToken}
    (htoken : l.token = token) (hword : GraphQlScanner.isWord token = false) :
    l.tokenIn asName = token := by
  cases asName with
  | false => exact htoken
  | true =>
    rcases h.modes with heq | ⟨-, hisWord⟩
    · exact heq.trans htoken
    · rw [htoken, hword] at hisWord
      cases hisWord

variable {α : Type} {m : ParserM M α}

/-- A computation that leaves the scanner. -/
def Still (s s' : GraphQlParser M) : Prop := s'.scanner = s.scanner

instance : IsPreorder (GraphQlParser M) Still where
  refl _ := rfl
  trans _ _ _ h h' := Eq.trans h' h

theorem still_update {f : GraphQlParser M → GraphQlParser M}
    (h : ∀ s, (f s).scanner = s.scanner) : Keeps Still (update f) := keeps_step fun s => h s

theorem still_modifyMembers {f : M → M} : Keeps Still (modifyMembers f) := still_update fun _ => rfl

theorem still_read {f : GraphQlParser M → α} : Keeps Still (read f) :=
  keeps_bind keeps_get fun _ => keeps_pure

theorem still_deref {f : GraphQlParser M → Option α} : Keeps Still (deref f) := keeps_require

theorem still_follow {p : Option α} : Keeps Still (follow p : ParserM M α) := still_deref

theorem still_recordStep {step : Step} : Keeps Still (recordStep step : ParserM M Unit) :=
  keeps_step fun _ => rfl

theorem still_createSpan : Keeps Still (createSpan : ParserM M Span) := still_read

/-! ## One lexeme after the other -/

/-- A lexeme was taken: it came first, and its text is the last one read. -/
structure Took (l : Lexeme) (s s' : GraphQlParser M) : Prop where
  rest : s.scanner.rest = l :: s'.scanner.rest
  token : l.token ≠ .endOfDocument
  scanned : Scanned l
  value : s'.scanner.getValue = l.value
  string : l.token = .gStringValue → s'.scanner.getStringValue = l.string

theorem took_afterLexeme {asName : Bool} (h : s.scanner.lexeme.tokenIn asName ≠ .endOfDocument) :
    Took s.scanner.lexeme s { s with scanner := s.scanner.afterLexeme } :=
  ⟨rest_of_tokenIn_ne h, fun hend => h (tokenIn_eq_end.2 hend), scanned_lexeme _, rfl,
    fun hstring => (if_pos hstring).symm⟩

/-- A token is that of the first lexeme, or the end of the document is met. -/
theorem took_of_takeNextToken {asName : Bool} {token : GraphQlToken}
    (h : Ends g (takeNextToken asName true) s token s') :
    (token = .endOfDocument ∧ s.scanner.rest = [] ∧ s'.scanner.rest = []) ∨
      ∃ l, Took l s s' ∧ l.tokenIn asName = token := by
  obtain ⟨rfl, rfl⟩ := ends_takeNextToken h
  by_cases hend : s.scanner.lexeme.tokenIn asName = .endOfDocument
  · obtain ⟨hbefore, hafter⟩ := rest_of_tokenIn_end hend
    exact .inl ⟨hend, hbefore, hafter⟩
  · exact .inr ⟨_, took_afterLexeme hend, rfl⟩

theorem took_of_takeTightName (h : Ends g (takeNextToken true false) s .gName s') :
    ∃ l, Took l s s' ∧ l.asName = .gName ∧ l.tight = true := by
  obtain ⟨hname, htight, rfl⟩ := ends_takeTightName h
  have hne : s.scanner.lexeme.tokenIn true ≠ .endOfDocument := by
    rw [show s.scanner.lexeme.tokenIn true = .gName from hname]
    decide
  exact ⟨_, took_afterLexeme hne, hname, htight⟩

theorem took_of_scanExpected (hg : g ≤ clean) {token : GraphQlToken} {asName found : Bool}
    (h : Ends g (scanExpected token asName) s found s') (hne : token ≠ .endOfDocument) :
    found = true ∧ ∃ l, Took l s s' ∧ l.tokenIn asName = token := by
  obtain ⟨rfl, htoken, rfl⟩ := ends_scanExpected hg h
  exact ⟨rfl, _, took_afterLexeme (htoken ▸ hne), htoken⟩

/-- An optional token is taken, or the next lexeme has another one and is left. -/
theorem took_of_scanOptional {token : GraphQlToken} {asName found : Bool}
    (h : Ends g (scanOptional token asName) s found s') (hne : token ≠ .endOfDocument) :
    (found = true ∧ ∃ l, Took l s s' ∧ l.tokenIn asName = token) ∨
      (found = false ∧ s'.scanner.rest = s.scanner.rest ∧
        ∀ l y, s.scanner.rest = l :: y → l.tokenIn asName ≠ token) := by
  obtain ⟨sc, rfl, hlooked⟩ := ends_scanOptional h
  cases hlooked with
  | found htoken htext =>
    have htook := took_afterLexeme (s := s) (htoken ▸ hne)
    refine .inl ⟨rfl, s.scanner.lexeme, ⟨?_, htook.token, htook.scanned, htext.getValue,
      fun hstring => (htext.string hstring).trans (htook.string hstring)⟩, htoken⟩
    exact htook.rest.trans (congrArg _ htext.samePlace.rest.symm)
  | missing htoken hplace =>
    refine .inr ⟨rfl, hplace.rest.symm, fun l y hrest => ?_⟩
    by_cases hend : s.scanner.lexeme.tokenIn asName = .endOfDocument
    · rw [(rest_of_tokenIn_end hend).1] at hrest
      cases hrest
    · rw [rest_of_tokenIn_ne hend] at hrest
      obtain ⟨rfl, -⟩ := List.cons.inj hrest
      exact htoken

theorem scanner_of_still (hm : Keeps Still m) {a : α} (h : Ends g m s a s') :
    s'.scanner = s.scanner :=
  hm s a s' h.1

end ParserM

end Flashpoint
