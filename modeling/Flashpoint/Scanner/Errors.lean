import Flashpoint.Scanner.Progress

/-!
# The errors of the scanner

The scanner notes an error for every ill-formed string that it reads, and nothing else: a token adds
one error exactly if it is an invalid string. Taking a token back leaves its error.
-/

namespace Flashpoint

/-- The templates of the errors that the scanner notes. -/
def D.isLexical : D → Bool
  | .unterminatedStringValue => true
  | .invalidUnicodeEscapeSequence => true
  | _ => false

namespace GraphQlScanner

/-- The errors noted between two states, those noted last first. -/
def Notes (errors : List DiagnosticMessage) (s s' : GraphQlScanner) : Prop :=
  s'.errors = errors ++ s.errors ∧ ∀ e ∈ errors, e.template.isLexical = true

/-- Some errors were noted. -/
def NotesSome (s s' : GraphQlScanner) : Prop := ∃ errors, Notes errors s s'

theorem notes_of_eq {s s' : GraphQlScanner} (h : s'.errors = s.errors) : Notes [] s s' :=
  ⟨h, fun _ he => absurd he List.not_mem_nil⟩

theorem Notes.trans {errors errors' : List DiagnosticMessage} {s s' s'' : GraphQlScanner}
    (h : Notes errors s s') (h' : Notes errors' s' s'') : Notes (errors' ++ errors) s s'' := by
  refine ⟨by rw [h'.1, h.1, List.append_assoc], fun e he => ?_⟩
  rcases List.mem_append.1 he with he | he
  · exact h'.2 e he
  · exact h.2 e he

theorem NotesSome.refl (s : GraphQlScanner) : NotesSome s s := ⟨[], notes_of_eq rfl⟩

theorem NotesSome.trans {s s' s'' : GraphQlScanner} (h : NotesSome s s') (h' : NotesSome s' s'') :
    NotesSome s s'' := by
  obtain ⟨_, h⟩ := h
  obtain ⟨_, h'⟩ := h'
  exact ⟨_, h.trans h'⟩

/-- A token was read: one error was noted if it is an invalid string, and otherwise none. -/
def NotesToken (token : GraphQlToken) (s s' : GraphQlScanner) : Prop :=
  ∃ errors, Notes errors s s' ∧ errors.length = if token = .invalidString then 1 else 0

theorem NotesToken.notesSome {token : GraphQlToken} {s s' : GraphQlScanner}
    (h : NotesToken token s s') : NotesSome s s' := by
  obtain ⟨errors, h, -⟩ := h
  exact ⟨errors, h⟩

/-- The start of a token adds nothing. -/
theorem NotesToken.after {token : GraphQlToken} {s s' s'' : GraphQlScanner}
    (hs : s'.errors = s.errors) (h : NotesToken token s' s'') : NotesToken token s s'' := by
  obtain ⟨errors, h, hlength⟩ := h
  refine ⟨errors, ?_, hlength⟩
  simpa using (notes_of_eq hs).trans h

theorem notesToken_of_eq {token : GraphQlToken} {s s' : GraphQlScanner}
    (htoken : decide (token = .invalidString) = false) (h : s'.errors = s.errors) :
    NotesToken token s s' :=
  ⟨[], notes_of_eq h, by rw [if_neg (of_decide_eq_false htoken)]; rfl⟩

/-! ## Trivia, names and numbers -/

theorem errors_skipLineFeed (s : GraphQlScanner) : s.skipLineFeed.errors = s.errors := by
  unfold skipLineFeed
  split <;> rfl

theorem errors_skipComment (fuel : Nat) (s : GraphQlScanner) :
    (skipComment fuel s).errors = s.errors := by
  induction fuel generalizing s with
  | zero => rfl
  | succ fuel ih =>
    unfold skipComment
    split
    · exact ih _
    · rfl

theorem errors_scanNameParts (fuel count : Nat) (s : GraphQlScanner) :
    (scanNameParts fuel count s).2.errors = s.errors := by
  induction fuel generalizing s count with
  | zero => rfl
  | succ fuel ih =>
    unfold scanNameParts
    split
    · exact ih _ _
    · rfl

theorem errors_scanDigitListLoop (fuel : Nat) (s : GraphQlScanner) :
    (scanDigitListLoop fuel s).errors = s.errors := by
  induction fuel generalizing s with
  | zero => rfl
  | succ fuel ih =>
    unfold scanDigitListLoop
    split
    · exact ih _
    · rfl

theorem errors_scanIntegerPart (s : GraphQlScanner) : s.scanIntegerPart.2.errors = s.errors := by
  simp only [scanIntegerPart]
  split
  · split <;> rfl
  split
  · rfl
  · exact errors_scanDigitListLoop _ _

theorem notesToken_scanExponent (s : GraphQlScanner) :
    NotesToken s.scanExponent.1 s s.scanExponent.2 := by
  have hdigits : ∀ s' : GraphQlScanner, s'.errors = s.errors →
      NotesToken (if isDigit s'.currentChar = false then (GraphQlToken.unknown, s')
        else (.floatLiteral, s'.incrementPosition.scanDigitList)).1 s
        (if isDigit s'.currentChar = false then (GraphQlToken.unknown, s')
        else (.floatLiteral, s'.incrementPosition.scanDigitList)).2 := by
    intro s' hs'
    split
    · exact notesToken_of_eq rfl hs'
    · exact notesToken_of_eq rfl ((errors_scanDigitListLoop _ _).trans hs')
  unfold scanExponent
  dsimp only
  refine hdigits _ ?_
  split <;> rfl

theorem notesToken_scanNumber (s : GraphQlScanner) :
    NotesToken s.scanNumber.1 s s.scanNumber.2 := by
  have hinteger := s.errors_scanIntegerPart
  simp only [scanNumber]
  split
  · split
    · exact notesToken_of_eq rfl hinteger
    have hdigits := (errors_scanDigitListLoop (s.scanIntegerPart.2.incrementPosition.incrementPosition.size -
      s.scanIntegerPart.2.incrementPosition.incrementPosition.position)
      s.scanIntegerPart.2.incrementPosition.incrementPosition).trans hinteger
    split
    · exact notesToken_of_eq rfl hdigits
    · exact .after hdigits (notesToken_scanExponent _)
  split
  · exact .after hinteger (notesToken_scanExponent _)
  · exact notesToken_of_eq rfl hinteger

/-! ## Strings -/

theorem notes_pushError {template : D} (h : template.isLexical = true) (p l c : Nat)
    (s : GraphQlScanner) : ∃ e, Notes [e] s (s.pushError template p l c) :=
  ⟨_, rfl, fun _ he => List.mem_singleton.1 he ▸ h⟩

/-- The digits of an escape: where one is missing, an error is noted. -/
theorem notesToken_scanHexadecimalEscape (p l c n : Nat) (s : GraphQlScanner) :
    NotesToken (if (scanHexadecimalEscape p l c n s).1 then .gStringValue else .invalidString) s
      (scanHexadecimalEscape p l c n s).2 := by
  induction n generalizing s with
  | zero => exact notesToken_of_eq rfl rfl
  | succ n ih =>
    unfold scanHexadecimalEscape
    split
    · exact .after rfl (ih _)
    · obtain ⟨e, he⟩ := notes_pushError (show D.isLexical .invalidUnicodeEscapeSequence = true from rfl) p l c s
      exact ⟨[e], he, rfl⟩

theorem notesToken_scanEscapeSequence (s : GraphQlScanner) :
    NotesToken (if s.scanEscapeSequence.1 then .gStringValue else .invalidString) s
      s.scanEscapeSequence.2 := by
  simp only [scanEscapeSequence]
  split
  · exact notesToken_of_eq rfl rfl
  split
  · exact .after rfl (notesToken_scanHexadecimalEscape _ _ _ _ _)
  · exact notesToken_of_eq rfl rfl

theorem notesToken_finish (p l c : Nat) (truncated : Bool) (s : GraphQlScanner) :
    NotesToken (scanStringLiteralLoop.finish p l c truncated s).1 s
      (scanStringLiteralLoop.finish p l c truncated s).2 := by
  unfold scanStringLiteralLoop.finish
  split
  · obtain ⟨e, he⟩ := notes_pushError (show D.isLexical .unterminatedStringValue = true from rfl) p l c s
    exact ⟨[e], he, rfl⟩
  · exact notesToken_of_eq rfl rfl

theorem notesToken_scanStringLiteralLoop (p l c fuel : Nat) (truncated : Bool)
    (s : GraphQlScanner) :
    NotesToken (scanStringLiteralLoop p l c fuel truncated s).1 s
      (scanStringLiteralLoop p l c fuel truncated s).2 := by
  induction fuel generalizing s truncated with
  | zero => exact notesToken_finish _ _ _ _ _
  | succ fuel ih =>
    unfold scanStringLiteralLoop
    split
    · exact notesToken_finish _ _ _ _ _
    split
    · have hescape := s.notesToken_scanEscapeSequence
      rcases h : s.scanEscapeSequence with ⟨_ | _, s'⟩
      · rw [h] at hescape
        exact hescape
      · rw [h] at hescape
        obtain ⟨errors, hnotes, hlength⟩ := hescape
        obtain rfl := List.eq_nil_of_length_eq_zero hlength
        exact .after hnotes.1 (ih _ _)
    split
    · exact .after rfl (ih _ _)
    split
    · exact .after rfl (notesToken_finish _ _ _ _ _)
    · exact .after rfl (ih _ _)

theorem notesToken_scanStringBlockLoop (fuel : Nat) (s : GraphQlScanner) :
    NotesToken (scanStringBlockLoop fuel s).1 s (scanStringBlockLoop fuel s).2 := by
  induction fuel generalizing s with
  | zero => exact notesToken_of_eq rfl rfl
  | succ fuel ih =>
    unfold scanStringBlockLoop
    split
    · exact notesToken_of_eq rfl rfl
    split
    · exact notesToken_of_eq rfl rfl
    split
    · exact notesToken_of_eq rfl rfl
    split
    · exact .after rfl (ih _)
    · exact .after rfl (ih _)

theorem notesToken_scanStringValue (s : GraphQlScanner) :
    NotesToken s.scanStringValue.1 s s.scanStringValue.2 := by
  unfold scanStringValue
  split
  · exact .after rfl (notesToken_scanStringBlockLoop _ _)
  · exact .after rfl (notesToken_scanStringLiteralLoop _ _ _ _ _ _)

/-! ## Tokens -/

theorem punctuation_ne_invalidString {ch : Char} {token : GraphQlToken}
    (h : punctuation ch = some token) : token ≠ .invalidString := by
  rintro rfl
  unfold punctuation at h
  split at h <;> cases h

theorem getTokenFromValue_ne_invalidString (size : Nat) (value : Ustring) :
    getTokenFromValue size value ≠ .invalidString := by
  unfold getTokenFromValue
  repeat' split
  all_goals decide

theorem notesToken_scanToken (s : GraphQlScanner) (treatKeywordAsName : Bool) (ch : Char) :
    NotesToken (s.scanToken treatKeywordAsName ch).1 s (s.scanToken treatKeywordAsName ch).2 := by
  unfold scanToken
  split
  · next token htoken =>
    exact notesToken_of_eq (decide_eq_false (punctuation_ne_invalidString htoken)) rfl
  split
  · exact s.notesToken_scanStringValue
  split
  · unfold scanEllipsesAfterFirstDot
    split
    · exact notesToken_of_eq rfl rfl
    dsimp only
    split <;> exact notesToken_of_eq rfl rfl
  split
  · exact s.notesToken_scanNumber
  split
  · dsimp only
    split
    · exact notesToken_of_eq rfl (errors_scanNameParts _ _ _)
    · refine notesToken_of_eq ?_ (errors_scanNameParts _ _ _)
      exact decide_eq_false (getTokenFromValue_ne_invalidString _ _)
  · exact notesToken_of_eq rfl rfl

theorem notesToken_takeNextTokenLoop (treatKeywordAsName skipWhiteSpace : Bool) (fuel : Nat)
    (s : GraphQlScanner) :
    NotesToken (takeNextTokenLoop treatKeywordAsName skipWhiteSpace fuel s).1 s
      (takeNextTokenLoop treatKeywordAsName skipWhiteSpace fuel s).2 := by
  induction fuel generalizing s with
  | zero => exact notesToken_of_eq rfl rfl
  | succ fuel ih =>
    unfold takeNextTokenLoop
    split
    case isFalse => exact notesToken_of_eq rfl rfl
    dsimp only
    split
    · split
      · exact notesToken_of_eq rfl rfl
      · exact .after rfl (ih _)
    split
    · split
      · exact notesToken_of_eq rfl (errors_skipLineFeed s.incrementPosition)
      · exact .after (errors_skipLineFeed s.incrementPosition) (ih _)
    split
    · split
      · exact notesToken_of_eq rfl rfl
      · exact .after rfl (ih _)
    split
    · exact .after (errors_skipComment _ s.incrementPosition.startAfterSeparator) (ih _)
    · exact .after rfl (notesToken_scanToken s.incrementPosition _ _)

/-- **A token adds one error exactly if it is an invalid string.** -/
theorem notesToken_takeNextToken (s : GraphQlScanner) (treatKeywordAsName skipWhiteSpace : Bool) :
    NotesToken (s.takeNextToken treatKeywordAsName skipWhiteSpace).1 s
      (s.takeNextToken treatKeywordAsName skipWhiteSpace).2 :=
  .after rfl (notesToken_takeNextTokenLoop _ _ _ s.setTokenStartPosition)

theorem errors_scanDirectiveLocationLoop (fuel : Nat) (s : GraphQlScanner) :
    (scanDirectiveLocationLoop fuel s).2.errors = s.errors := by
  induction fuel generalizing s with
  | zero => rfl
  | succ fuel ih =>
    unfold scanDirectiveLocationLoop
    split
    case isFalse => rfl
    dsimp only
    split
    · exact ih _
    split
    · exact (ih _).trans (errors_skipLineFeed s.incrementPosition)
    split
    · exact ih _
    split
    · exact errors_scanNameParts _ _ _
    · exact ih _

theorem errors_scanDirectiveLocation (s : GraphQlScanner) :
    s.scanDirectiveLocation.2.errors = s.errors :=
  errors_scanDirectiveLocationLoop _ s.setTokenStartPosition

/-! ## Looking ahead and skipping -/

theorem errors_revert (s : GraphQlScanner) : s.revert.errors = s.errors := by
  unfold revert
  split <;> rfl

/-- A look ahead notes the error of the token, whether it is taken or not. -/
theorem notesToken_tryScan (s : GraphQlScanner) (token : GraphQlToken) (treatKeywordAsName : Bool) :
    NotesToken (s.tryScan token treatKeywordAsName).1 s (s.tryScan token treatKeywordAsName).2 := by
  have htake := notesToken_takeNextToken s.save treatKeywordAsName true
  simp only [tryScan]
  split
  · next h =>
    rw [h] at htake
    exact .after rfl htake
  · obtain ⟨errors, hnotes, hlength⟩ := htake
    exact ⟨errors, ⟨(errors_revert _).trans hnotes.1, hnotes.2⟩, hlength⟩

theorem notesSome_skipBlockLoop (fuel : Nat) (braces : Int) (encountered : Bool)
    (s : GraphQlScanner) : NotesSome s (skipBlockLoop fuel braces encountered s) := by
  induction fuel generalizing s braces encountered with
  | zero => exact .refl s
  | succ fuel ih =>
    have htake := (s.notesToken_takeNextToken false true).notesSome
    have hnext : ∀ p : Int × Bool, NotesSome s
        (if p.2 = true ∧ p.1 ≤ 0 then (s.takeNextToken false true).2
          else skipBlockLoop fuel p.1 p.2 (s.takeNextToken false true).2) := by
      intro p
      split
      · exact htake
      · exact htake.trans (ih _ _ _)
    simp only [skipBlockLoop]
    split
    · exact htake
    · exact hnext _

theorem notesSome_skipBlock (s : GraphQlScanner) : NotesSome s s.skipBlock :=
  notesSome_skipBlockLoop _ _ _ _

theorem notesSome_skipToLoop (tokens : List GraphQlToken) (fuel : Nat) (s : GraphQlScanner) :
    NotesSome s (skipToLoop tokens fuel s).2 := by
  induction fuel generalizing s with
  | zero => exact .refl s
  | succ fuel ih =>
    have htake : NotesSome s (s.save.takeNextToken false true).2 :=
      ((s.save.notesToken_takeNextToken false true).after rfl).notesSome
    simp only [skipToLoop]
    split
    · exact htake
    split
    · exact htake.trans ⟨[], notes_of_eq (errors_revert _)⟩
    · exact htake.trans (ih _)

theorem notesSome_skipTo (s : GraphQlScanner) (tokens : List GraphQlToken) :
    NotesSome s (s.skipTo tokens).2 := notesSome_skipToLoop _ _ _

end GraphQlScanner

end Flashpoint
