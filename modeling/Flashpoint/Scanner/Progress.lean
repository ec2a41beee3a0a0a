import Flashpoint.Scanner.Scan

/-!
# The scanner moves forward

Every operation of the scanner leaves the source as it is and the position where it was or further
on, and a token other than the end of the document takes a character. That bounds every loop of the
two parsers by the characters left.
-/

namespace Flashpoint

namespace GraphQlScanner

/-- The source stays, and the position moves forward. -/
structure Advances (s s' : GraphQlScanner) : Prop where
  source : s'.source = s.source
  position : s.position ≤ s'.position

/-- What reading characters does: it advances, and no cursor is saved or taken back. -/
structure Scans (s s' : GraphQlScanner) : Prop extends Advances s s' where
  saved : s'.savedTextCursors = s.savedTextCursors

/-- What reading the characters of a token does: the cursor moves along its line, and the start of the
token and the line table stay. -/
structure Along (s s' : GraphQlScanner) : Prop extends Scans s s' where
  line : s'.line = s.line
  lines : s'.positionToLineList = s.positionToLineList
  column : s'.column + s.position = s.column + s'.position
  startPosition : s'.startPosition = s.startPosition
  startColumn : s'.startColumn = s.startColumn

/-- The characters that are left. -/
def left (s : GraphQlScanner) : Nat := s.size - s.position

namespace Advances

variable {s s' s'' : GraphQlScanner}

theorem rfl {s : GraphQlScanner} : Advances s s := ⟨Eq.refl _, Nat.le_refl _⟩

theorem trans (h : Advances s s') (h' : Advances s' s'') : Advances s s'' :=
  ⟨h'.source.trans h.source, Nat.le_trans h.position h'.position⟩

theorem size (h : Advances s s') : s'.size = s.size := by
  simp only [GraphQlScanner.size, h.source]

/-- The characters left do not grow. -/
theorem left_le (h : Advances s s') : s'.left ≤ s.left := by
  rw [left, left, h.size]
  exact Nat.sub_le_sub_left h.position _

end Advances

namespace Scans

variable {s s' s'' : GraphQlScanner}

theorem rfl {s : GraphQlScanner} : Scans s s := ⟨.rfl, Eq.refl _⟩

theorem trans (h : Scans s s') (h' : Scans s' s'') : Scans s s'' :=
  ⟨h.toAdvances.trans h'.toAdvances, h'.saved.trans h.saved⟩

end Scans

namespace Along

variable {s s' s'' : GraphQlScanner}

theorem rfl {s : GraphQlScanner} : Along s s :=
  ⟨.rfl, Eq.refl _, Eq.refl _, Eq.refl _, Eq.refl _, Eq.refl _⟩

theorem trans (h : Along s s') (h' : Along s' s'') : Along s s'' where
  toScans := h.toScans.trans h'.toScans
  line := h'.line.trans h.line
  lines := h'.lines.trans h.lines
  column := by
    have hcolumn := h.column
    have hcolumn' := h'.column
    omega
  startPosition := h'.startPosition.trans h.startPosition
  startColumn := h'.startColumn.trans h.startColumn

end Along

/-! ## The steps of the cursor -/

theorem along_incrementPosition (s : GraphQlScanner) : Along s s.incrementPosition where
  source := rfl
  position := Nat.le_succ _
  saved := rfl
  line := rfl
  lines := rfl
  column := by
    simp only [incrementPosition]
    omega
  startPosition := rfl
  startColumn := rfl

theorem scans_incrementPosition (s : GraphQlScanner) : Scans s s.incrementPosition :=
  s.along_incrementPosition.toScans

theorem scans_setTokenStartPosition (s : GraphQlScanner) :
    Scans s s.setTokenStartPosition := ⟨⟨rfl, Nat.le_refl _⟩, rfl⟩

theorem scans_recordLine (s : GraphQlScanner) : Scans s s.recordLine := ⟨⟨rfl, Nat.le_refl _⟩, rfl⟩

theorem scans_startAfterLineBreak (s : GraphQlScanner) : Scans s s.startAfterLineBreak :=
  ⟨⟨rfl, Nat.le_refl _⟩, rfl⟩

theorem scans_startAfterSeparator (s : GraphQlScanner) : Scans s s.startAfterSeparator :=
  ⟨⟨rfl, Nat.le_refl _⟩, rfl⟩

theorem scans_skipLineFeed (s : GraphQlScanner) : Scans s s.skipLineFeed := by
  simp only [skipLineFeed]
  split
  · exact s.scans_incrementPosition
  · exact .rfl

theorem scans_skipComment (fuel : Nat) (s : GraphQlScanner) :
    Scans s (skipComment fuel s) := by
  induction fuel generalizing s with
  | zero => exact .rfl
  | succ fuel ih =>
    simp only [skipComment]
    split
    · exact (s.scans_incrementPosition.trans (scans_startAfterSeparator _)).trans (ih _)
    · exact .rfl

/-! ## Names, numbers and strings -/

theorem along_scanNameParts (fuel count : Nat) (s : GraphQlScanner) :
    Along s (scanNameParts fuel count s).2 := by
  induction fuel generalizing s count with
  | zero => exact .rfl
  | succ fuel ih =>
    simp only [scanNameParts]
    split
    · exact s.along_incrementPosition.trans (ih _ _)
    · exact .rfl

theorem along_scanDigitListLoop (fuel : Nat) (s : GraphQlScanner) :
    Along s (scanDigitListLoop fuel s) := by
  induction fuel generalizing s with
  | zero => exact .rfl
  | succ fuel ih =>
    simp only [scanDigitListLoop]
    split
    · exact s.along_incrementPosition.trans (ih _)
    · exact .rfl

theorem along_scanDigitList (s : GraphQlScanner) : Along s s.scanDigitList :=
  along_scanDigitListLoop _ s

theorem along_scanIntegerPart (s : GraphQlScanner) : Along s s.scanIntegerPart.2 := by
  simp only [scanIntegerPart]
  split
  · split <;> exact s.along_incrementPosition
  · split
    · exact .rfl
    · exact s.along_scanDigitList

theorem along_scanExponent (s : GraphQlScanner) : Along s s.scanExponent.2 := by
  simp only [scanExponent]
  have hsign : Along s (if s.incrementPosition.currentChar = '-' ∨
      s.incrementPosition.currentChar = '+' then s.incrementPosition.incrementPosition
      else s.incrementPosition) := by
    split
    · exact s.along_incrementPosition.trans (along_incrementPosition _)
    · exact s.along_incrementPosition
  generalize (if s.incrementPosition.currentChar = '-' ∨
    s.incrementPosition.currentChar = '+' then s.incrementPosition.incrementPosition
    else s.incrementPosition) = signed at hsign ⊢
  split
  · exact hsign
  · exact (hsign.trans (along_incrementPosition _)).trans (along_scanDigitList _)

theorem along_scanNumber (s : GraphQlScanner) : Along s s.scanNumber.2 := by
  have hint := s.along_scanIntegerPart
  have hdot := hint.trans (along_incrementPosition _)
  have hdigits := (hdot.trans (along_incrementPosition _)).trans (along_scanDigitList _)
  simp only [scanNumber]
  split
  · split
    · exact hdot
    · split
      · exact hdigits
      · exact hdigits.trans (along_scanExponent _)
  · split
    · exact hint.trans (along_scanExponent _)
    · exact hint

theorem along_pushError (s : GraphQlScanner) (template : D) (p l c : Nat) :
    Along s (s.pushError template p l c) :=
  ⟨⟨⟨rfl, Nat.le_refl _⟩, rfl⟩, rfl, rfl, rfl, rfl, rfl⟩

/-- The text of a string is kept beside the cursor. -/
theorem along_setString (s : GraphQlScanner) (literal : Ustring) :
    Along s { s with stringLiteral := literal } :=
  ⟨⟨⟨rfl, Nat.le_refl _⟩, rfl⟩, rfl, rfl, rfl, rfl, rfl⟩

theorem along_scanHexadecimalEscape (p l c n : Nat) (s : GraphQlScanner) :
    Along s (scanHexadecimalEscape p l c n s).2 := by
  induction n generalizing s with
  | zero => exact .rfl
  | succ n ih =>
    simp only [scanHexadecimalEscape]
    split
    · exact s.along_incrementPosition.trans (ih _)
    · exact (s.along_pushError _ _ _ _).trans (along_incrementPosition _)

theorem along_scanEscapeSequence (s : GraphQlScanner) : Along s s.scanEscapeSequence.2 := by
  simp only [scanEscapeSequence]
  split
  · exact s.along_incrementPosition.trans (along_incrementPosition _)
  · split
    · exact (s.along_incrementPosition.trans (along_incrementPosition _)).trans
        (along_scanHexadecimalEscape _ _ _ _ _)
    · exact s.along_incrementPosition

theorem along_finish (p l c : Nat) (truncated : Bool) (s : GraphQlScanner) :
    Along s (scanStringLiteralLoop.finish p l c truncated s).2 := by
  simp only [scanStringLiteralLoop.finish]
  split
  · exact s.along_pushError _ _ _ _
  · exact .rfl

theorem along_scanStringLiteralLoop (p l c fuel : Nat) (truncated : Bool)
    (s : GraphQlScanner) :
    Along s (scanStringLiteralLoop p l c fuel truncated s).2 := by
  induction fuel generalizing s truncated with
  | zero => exact along_finish _ _ _ _ _
  | succ fuel ih =>
    simp only [scanStringLiteralLoop]
    split
    · exact along_finish _ _ _ _ _
    split
    · have hescape := s.along_scanEscapeSequence
      rcases h : s.scanEscapeSequence with ⟨_ | _, s'⟩
      · rw [h] at hescape
        exact hescape
      · rw [h] at hescape
        exact hescape.trans (ih _ _)
    split
    · exact s.along_incrementPosition.trans (ih _ _)
    split
    · have hquote := (s.along_setString (s.stringLiteral ++ s.getTextFromLocation p s.position)).trans
        (along_incrementPosition _)
      exact hquote.trans (along_finish _ _ _ _ _)
    · exact s.along_incrementPosition.trans (ih _ _)

theorem along_scanStringLiteral (s : GraphQlScanner) : Along s s.scanStringLiteral.2 :=
  (s.along_setString []).trans (along_scanStringLiteralLoop _ _ _ _ _ _)

theorem along_scanStringBlockLoop (fuel : Nat) (s : GraphQlScanner) :
    Along s (scanStringBlockLoop fuel s).2 := by
  induction fuel generalizing s with
  | zero => exact .rfl
  | succ fuel ih =>
    simp only [scanStringBlockLoop]
    split
    · exact .rfl
    split
    · exact .rfl
    split
    · exact (s.along_incrementPosition.trans (along_incrementPosition _)).trans
        (along_incrementPosition _)
    split
    · have hkept := (s.along_setString (s.stringLiteral ++ [s.currentChar])).trans
        (along_incrementPosition _)
      exact hkept.trans (ih _)
    · exact s.along_incrementPosition.trans (ih _)

theorem along_scanStringValue (s : GraphQlScanner) : Along s s.scanStringValue.2 := by
  simp only [scanStringValue]
  split
  · refine (s.along_incrementPosition.trans (along_incrementPosition _)).trans ?_
    exact (along_setString _ _).trans (along_scanStringBlockLoop _ _)
  · exact s.along_scanStringLiteral

theorem along_scanEllipses (s : GraphQlScanner) :
    Along s s.scanEllipsesAfterFirstDot.2 := by
  simp only [scanEllipsesAfterFirstDot]
  split
  · exact .rfl
  split
  · exact s.along_incrementPosition
  · exact s.along_incrementPosition.trans (along_incrementPosition _)

/-! ## Tokens -/

theorem along_scanToken (s : GraphQlScanner) (treatKeywordAsName : Bool) (ch : Char) :
    Along s (s.scanToken treatKeywordAsName ch).2 := by
  simp only [scanToken]
  split
  · exact .rfl
  split
  · exact s.along_scanStringValue
  split
  · exact s.along_scanEllipses
  split
  · exact s.along_scanNumber
  split
  · split <;> exact along_scanNameParts _ _ _
  · exact .rfl

/-- The trivia before a token and the token: a character is taken where there is one. -/
theorem takeNextTokenLoop_scans (treatKeywordAsName skipWhiteSpace : Bool) (fuel : Nat)
    (s : GraphQlScanner) :
    Scans s (takeNextTokenLoop treatKeywordAsName skipWhiteSpace fuel s).2 ∧
      ((takeNextTokenLoop treatKeywordAsName skipWhiteSpace fuel s).1 ≠ .endOfDocument →
        s.position < (takeNextTokenLoop treatKeywordAsName skipWhiteSpace fuel s).2.position) := by
  induction fuel generalizing s with
  | zero => exact ⟨.rfl, fun h => absurd rfl h⟩
  | succ fuel ih =>
    have hinc := s.scans_incrementPosition
    have hlt : s.position < s.incrementPosition.position := Nat.lt_succ_self _
    have hstep : ∀ {s' : GraphQlScanner}, Scans s.incrementPosition s' →
        Scans s s' ∧ s.position < s'.position :=
      fun h => ⟨hinc.trans h, Nat.lt_of_lt_of_le hlt h.position⟩
    by_cases hend : s.position < s.size
    case neg =>
      simp only [takeNextTokenLoop, hend, if_false]
      exact ⟨.rfl, fun h => absurd rfl h⟩
    simp only [takeNextTokenLoop, hend, if_true]
    split
    · have hline := hstep (scans_recordLine _)
      split
      · exact ⟨hline.1, fun _ => hline.2⟩
      · have hnext := hstep ((scans_recordLine _).trans (scans_startAfterLineBreak _))
        exact ⟨hnext.1.trans (ih _).1, fun _ => Nat.lt_of_lt_of_le hnext.2 (ih _).1.position⟩
    split
    · have hline := hstep ((scans_skipLineFeed _).trans (scans_recordLine _))
      split
      · exact ⟨hline.1, fun _ => hline.2⟩
      · have hnext := hstep (((scans_skipLineFeed _).trans (scans_recordLine _)).trans
          (scans_startAfterLineBreak _))
        exact ⟨hnext.1.trans (ih _).1, fun _ => Nat.lt_of_lt_of_le hnext.2 (ih _).1.position⟩
    split
    · split
      · exact ⟨hinc, fun _ => hlt⟩
      · have hnext := hstep (scans_startAfterSeparator _)
        exact ⟨hnext.1.trans (ih _).1, fun _ => Nat.lt_of_lt_of_le hnext.2 (ih _).1.position⟩
    split
    · have hnext := hstep ((scans_startAfterSeparator _).trans
        (scans_skipComment (s.incrementPosition.startAfterSeparator.size -
          s.incrementPosition.startAfterSeparator.position) _))
      exact ⟨hnext.1.trans (ih _).1, fun _ => Nat.lt_of_lt_of_le hnext.2 (ih _).1.position⟩
    · have hnext := hstep (along_scanToken _ treatKeywordAsName s.currentChar).toScans
      exact ⟨hnext.1, fun _ => hnext.2⟩

theorem scans_takeNextToken (s : GraphQlScanner) (treatKeywordAsName skipWhiteSpace : Bool) :
    Scans s (s.takeNextToken treatKeywordAsName skipWhiteSpace).2 :=
  s.scans_setTokenStartPosition.trans (takeNextTokenLoop_scans _ _ _ _).1

theorem scans_scanDirectiveLocationLoop (fuel : Nat) (s : GraphQlScanner) :
    Scans s (scanDirectiveLocationLoop fuel s).2 := by
  induction fuel generalizing s with
  | zero => exact .rfl
  | succ fuel ih =>
    have hinc := s.scans_incrementPosition
    have hline : ∀ s : GraphQlScanner, Scans s s.recordLine.startAfterLineBreak :=
      fun s => s.scans_recordLine.trans (scans_startAfterLineBreak _)
    simp only [scanDirectiveLocationLoop]
    split
    · split
      · exact (hinc.trans (hline _)).trans (ih _)
      split
      · exact ((hinc.trans (scans_skipLineFeed _)).trans (hline _)).trans (ih _)
      split
      · exact (hinc.trans (scans_startAfterSeparator _)).trans (ih _)
      split
      · exact hinc.trans (along_scanNameParts _ _ _).toScans
      · exact hinc.trans (ih _)
    · exact .rfl

theorem scans_scanDirectiveLocation (s : GraphQlScanner) : Scans s s.scanDirectiveLocation.2 :=
  s.scans_setTokenStartPosition.trans (scans_scanDirectiveLocationLoop _ _)

/-- A token that is not the end of the document takes a character. -/
theorem takeNextToken_lt {s : GraphQlScanner} {treatKeywordAsName skipWhiteSpace : Bool}
    (h : (s.takeNextToken treatKeywordAsName skipWhiteSpace).1 ≠ .endOfDocument) :
    s.position < (s.takeNextToken treatKeywordAsName skipWhiteSpace).2.position :=
  (takeNextTokenLoop_scans _ _ _ s.setTokenStartPosition).2 h

theorem left_takeNextToken_lt {s : GraphQlScanner} {treatKeywordAsName skipWhiteSpace : Bool}
    (h : (s.takeNextToken treatKeywordAsName skipWhiteSpace).1 ≠ .endOfDocument) :
    (s.takeNextToken treatKeywordAsName skipWhiteSpace).2.left < s.left := by
  have hlt := takeNextToken_lt h
  have hsize := (s.scans_takeNextToken treatKeywordAsName skipWhiteSpace).size
  have hleft : 0 < s.left := by
    refine Nat.pos_of_ne_zero fun hzero => h ?_
    have hloop : s.size - s.position = 0 := hzero
    simp only [takeNextToken, hloop, takeNextTokenLoop]
  simp only [left, hsize] at hleft ⊢
  omega

/-! ## Looking ahead and skipping -/

theorem advances_save (s : GraphQlScanner) : Advances s s.save := ⟨rfl, Nat.le_refl _⟩

/-- Taking back what was read since `save` restores the position. -/
theorem revert_of_scans {s s' : GraphQlScanner} (h : Scans s.save s') :
    s'.revert.source = s.source ∧ s'.revert.position = s.position := by
  have hsaved := h.saved
  simp only [save] at hsaved
  simp only [revert, hsaved, and_true]
  exact h.source

theorem advances_revert {s s' : GraphQlScanner} (h : Scans s.save s') : Advances s s'.revert :=
  ⟨(revert_of_scans h).1, Nat.le_of_eq (revert_of_scans h).2.symm⟩

theorem advances_tryScan (s : GraphQlScanner) (token : GraphQlToken) (treatKeywordAsName : Bool) :
    Advances s (s.tryScan token treatKeywordAsName).2 := by
  have htake := scans_takeNextToken s.save treatKeywordAsName true
  simp only [tryScan]
  split
  · exact s.advances_save.trans htake.toAdvances
  · exact advances_revert htake

/-- A token that is looked for and found takes a character. -/
theorem left_tryScan_lt {s : GraphQlScanner} {token : GraphQlToken} {treatKeywordAsName : Bool}
    (htoken : token ≠ .endOfDocument) (h : (s.tryScan token treatKeywordAsName).1 = token) :
    (s.tryScan token treatKeywordAsName).2.left < s.left := by
  simp only [tryScan] at h ⊢
  split
  · next hresult =>
    have hlt := left_takeNextToken_lt (s := s.save) (hresult ▸ htoken)
    exact hlt
  · next hresult =>
    simp only [hresult, if_false] at h

theorem advances_skipBlockLoop (fuel : Nat) (braces : Int) (encountered : Bool)
    (s : GraphQlScanner) : Advances s (skipBlockLoop fuel braces encountered s) := by
  induction fuel generalizing s braces encountered with
  | zero => exact .rfl
  | succ fuel ih =>
    have htake := (scans_takeNextToken s false true).toAdvances
    have hnext : ∀ p : Int × Bool, Advances s
        (if p.2 = true ∧ p.1 ≤ 0 then (s.takeNextToken false true).2
          else skipBlockLoop fuel p.1 p.2 (s.takeNextToken false true).2) := by
      intro p
      split
      · exact htake
      · exact htake.trans (ih _ _ _)
    simp only [skipBlockLoop]
    split
    · exact htake
    · exact hnext _

theorem advances_skipBlock (s : GraphQlScanner) : Advances s s.skipBlock :=
  advances_skipBlockLoop _ _ _ _

theorem advances_skipToLoop (tokens : List GraphQlToken) (fuel : Nat) (s : GraphQlScanner) :
    Advances s (skipToLoop tokens fuel s).2 := by
  induction fuel generalizing s with
  | zero => exact .rfl
  | succ fuel ih =>
    have htake := scans_takeNextToken s.save false true
    simp only [skipToLoop]
    split
    · exact s.advances_save.trans htake.toAdvances
    split
    · exact advances_revert htake
    · exact (s.advances_save.trans htake.toAdvances).trans (ih _)

theorem advances_skipTo (s : GraphQlScanner) (tokens : List GraphQlToken) :
    Advances s (s.skipTo tokens).2 := advances_skipToLoop _ _ _

end GraphQlScanner

end Flashpoint
