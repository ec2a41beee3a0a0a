import Flashpoint.Scanner.Lines
import Flashpoint.Scanner.Lossless

/-!
# Locations are right

The line counter, the columns and the line table follow the text as long as no call reads a line
break in one of the ways that the scanner does not keep count of: a carriage return before a line
feed, a line break inside of a string, a line break that is answered as white space, and characters
that `scan_directive_location` passes over. `Placed` is the invariant; `Reading` relates a state in
the trivia of a call to the start of the call.
-/

namespace Flashpoint

namespace GraphQlScanner

/-! ## What a call may read -/

/-- The offset of the token ahead. -/
def tokenStart (s : GraphQlScanner) : Nat := s.position + triviaLength false s.textLeft

/-- What a string takes after its first quote: all that is left if the text does not hold its end. -/
def stringText (text : Ustring) : Ustring :=
  match stringAt text with
  | some (_, n) => text.take n
  | none => text

/-- No carriage return of the trivia ahead stands one or two characters before a line feed. -/
def PlainTrivia (s : GraphQlScanner) : Prop :=
  ∀ i < s.tokenStart, s.position ≤ i → charAt s.source i = '\r' →
    charAt s.source (i + 1) ≠ '\n' ∧ charAt s.source (i + 2) ≠ '\n'

/-- The string that starts at an offset, if one does, stays on its line. -/
def PlainString (s : GraphQlScanner) (p : Nat) : Prop :=
  charAt s.source p = '"' → ∀ ch ∈ stringText (s.source.drop (p + 1)), isLineBreak ch = false

/-- What `take_next_token` may read: without skipping white space, no line break that it would
answer. -/
def Plain (s : GraphQlScanner) : Bool → Prop
  | true => s.PlainTrivia ∧ s.PlainString s.tokenStart
  | false => isLineBreak s.currentChar = false ∧
      (s.currentChar = '#' → ∀ ch ∈ s.textLeft, isLineBreak ch = false) ∧ s.PlainString s.position

/-- What `scan_directive_location` may read: a name after trivia that holds no comment, or nothing. -/
def PlainLocation (s : GraphQlScanner) : Prop :=
  s.PlainTrivia ∧ (∀ i < s.tokenStart, s.position ≤ i → charAt s.source i ≠ '#') ∧
    (s.tokenStart < s.size → isNameStart (charAt s.source s.tokenStart) = true)

instance (s : GraphQlScanner) : Decidable s.PlainTrivia :=
  inferInstanceAs (Decidable (∀ i < s.tokenStart, s.position ≤ i → charAt s.source i = '\r' →
    charAt s.source (i + 1) ≠ '\n' ∧ charAt s.source (i + 2) ≠ '\n'))

instance (s : GraphQlScanner) (p : Nat) : Decidable (s.PlainString p) :=
  inferInstanceAs (Decidable (charAt s.source p = '"' →
    ∀ ch ∈ stringText (s.source.drop (p + 1)), isLineBreak ch = false))

instance (s : GraphQlScanner) : ∀ skipWhiteSpace, Decidable (s.Plain skipWhiteSpace)
  | true => inferInstanceAs (Decidable (s.PlainTrivia ∧ s.PlainString s.tokenStart))
  | false => inferInstanceAs (Decidable (isLineBreak s.currentChar = false ∧
      (s.currentChar = '#' → ∀ ch ∈ s.textLeft, isLineBreak ch = false) ∧
      s.PlainString s.position))

instance (s : GraphQlScanner) : Decidable s.PlainLocation :=
  inferInstanceAs (Decidable (s.PlainTrivia ∧
    (∀ i < s.tokenStart, s.position ≤ i → charAt s.source i ≠ '#') ∧
    (s.tokenStart < s.size → isNameStart (charAt s.source s.tokenStart) = true)))

/-! ## Tokens on a line -/

theorem charAt_position {s : GraphQlScanner} {ch : Char} {text : Ustring}
    (h : s.textLeft = ch :: text) : charAt s.source s.position = ch := currentChar_of_cons h

theorem endsLine_eq_false {source : Ustring} {i : Nat} (h : isLineBreak (charAt source i) = false) :
    endsLine source i = false := by
  simp only [isLineBreak, Bool.or_eq_false_iff, decide_eq_false_iff_not] at h
  simp [endsLine, h.1, h.2]

/-- The cursor moves along its line and passes over no line break. -/
structure Inline (s s' : GraphQlScanner) : Prop extends Along s s' where
  plain : ∀ i, s.position ≤ i → i < s'.position → isLineBreak (charAt s.source i) = false

namespace Inline

variable {s s' s'' : GraphQlScanner}

theorem rfl {s : GraphQlScanner} : Inline s s := ⟨.rfl, fun i h h' => by omega⟩

theorem trans (h : Inline s s') (h' : Inline s' s'') : Inline s s'' where
  toAlong := h.toAlong.trans h'.toAlong
  plain i hle hlt := by
    by_cases hi : i < s'.position
    · exact h.plain i hle hi
    · rw [← h.source]
      exact h'.plain i (by omega) hlt

end Inline

theorem inline_incrementPosition {s : GraphQlScanner} (h : isLineBreak s.currentChar = false) :
    Inline s s.incrementPosition where
  toAlong := s.along_incrementPosition
  plain i hle hlt := by
    have hlt : i < s.position + 1 := hlt
    obtain rfl : i = s.position := by omega
    exact h

theorem isLineBreak_of_isDigit {ch : Char} (h : isDigit ch = true) : isLineBreak ch = false := by
  refine Bool.eq_false_iff.2 fun hbreak => ?_
  simp only [isLineBreak, Bool.or_eq_true, decide_eq_true_eq] at hbreak
  rcases hbreak with rfl | rfl
  · exact absurd h (by decide)
  · exact absurd h (by decide)

theorem isLineBreak_of_isNamePart {ch : Char} (h : isNamePart ch = true) :
    isLineBreak ch = false := by
  refine Bool.eq_false_iff.2 fun hbreak => ?_
  simp only [isLineBreak, Bool.or_eq_true, decide_eq_true_eq] at hbreak
  rcases hbreak with rfl | rfl
  · exact absurd h (by decide)
  · exact absurd h (by decide)

theorem inline_scanDigitListLoop (fuel : Nat) (s : GraphQlScanner) :
    Inline s (scanDigitListLoop fuel s) := by
  induction fuel generalizing s with
  | zero => exact .rfl
  | succ fuel ih =>
    simp only [scanDigitListLoop]
    split
    · next hdigit => exact (inline_incrementPosition (isLineBreak_of_isDigit hdigit)).trans (ih _)
    · exact .rfl

theorem inline_scanDigitList (s : GraphQlScanner) : Inline s s.scanDigitList :=
  inline_scanDigitListLoop _ s

theorem inline_scanIntegerPart (s : GraphQlScanner) : Inline s s.scanIntegerPart.2 := by
  simp only [scanIntegerPart]
  split
  · next hzero =>
    have hstep := inline_incrementPosition (s := s) (by rw [hzero]; decide)
    split <;> exact hstep
  · split
    · exact .rfl
    · exact s.inline_scanDigitList

theorem inline_scanExponent {s : GraphQlScanner} (h : s.currentChar = 'e' ∨ s.currentChar = 'E') :
    Inline s s.scanExponent.2 := by
  have hstep : Inline s s.incrementPosition := by
    refine inline_incrementPosition ?_
    rcases h with h | h
    · rw [h]; decide
    · rw [h]; decide
  have hsign : Inline s (if s.incrementPosition.currentChar = '-' ∨
      s.incrementPosition.currentChar = '+' then s.incrementPosition.incrementPosition
      else s.incrementPosition) := by
    split
    · next hsign =>
      refine hstep.trans (inline_incrementPosition ?_)
      rcases hsign with hsign | hsign
      · rw [hsign]; decide
      · rw [hsign]; decide
    · exact hstep
  simp only [scanExponent]
  generalize (if s.incrementPosition.currentChar = '-' ∨
    s.incrementPosition.currentChar = '+' then s.incrementPosition.incrementPosition
    else s.incrementPosition) = signed at hsign ⊢
  split
  · exact hsign
  · next hdigit =>
    have hdigit := isLineBreak_of_isDigit (Bool.of_not_eq_false hdigit)
    exact (hsign.trans (inline_incrementPosition hdigit)).trans (inline_scanDigitList _)

theorem inline_scanNumber (s : GraphQlScanner) : Inline s s.scanNumber.2 := by
  have hint := s.inline_scanIntegerPart
  simp only [scanNumber]
  split
  · next hpoint =>
    have hdot := hint.trans (inline_incrementPosition (by rw [hpoint]; decide))
    split
    · exact hdot
    · next hdigit =>
      have hdigit := isLineBreak_of_isDigit (Bool.of_not_eq_false hdigit)
      have hdigits := (hdot.trans (inline_incrementPosition hdigit)).trans
        (inline_scanDigitList _)
      split
      · exact hdigits
      · next hexponent =>
        refine hdigits.trans (inline_scanExponent ?_)
        exact Decidable.or_iff_not_not_and_not.2 hexponent
  · split
    · next hexponent => exact hint.trans (inline_scanExponent hexponent)
    · exact hint

theorem inline_scanEllipses (s : GraphQlScanner) : Inline s s.scanEllipsesAfterFirstDot.2 := by
  have hdot : ∀ s : GraphQlScanner, ¬ s.currentChar ≠ '.' → Inline s s.incrementPosition := by
    intro s hchar
    refine inline_incrementPosition ?_
    rw [Decidable.not_not.1 hchar]
    decide
  simp only [scanEllipsesAfterFirstDot]
  split
  · exact .rfl
  next hfirst =>
  split
  · exact hdot s hfirst
  · next hsecond => exact (hdot s hfirst).trans (hdot _ hsecond)

theorem inline_scanNameParts (fuel count : Nat) (s : GraphQlScanner) :
    Inline s (scanNameParts fuel count s).2 := by
  induction fuel generalizing s count with
  | zero => exact .rfl
  | succ fuel ih =>
    simp only [scanNameParts]
    split
    · next hpart =>
      exact (inline_incrementPosition (isLineBreak_of_isNamePart hpart.2)).trans (ih _ _)
    · exact .rfl

/-- A character from the position on is one of the text that is left, or the terminator. -/
theorem charAt_eq_or_mem {s : GraphQlScanner} {i : Nat} (h : s.position ≤ i) :
    charAt s.source i = '\x00' ∨ charAt s.source i ∈ s.textLeft := by
  rw [charAt, List.getD_eq_getElem?_getD]
  cases hget : s.source[i]? with
  | none => exact .inl rfl
  | some ch =>
    refine .inr (List.mem_of_getElem? (i := i - s.position) ?_)
    rw [textLeft, List.getElem?_drop, Nat.add_sub_cancel' h]
    exact hget

theorem inline_scanStringValue {s : GraphQlScanner}
    (h : ∀ ch ∈ stringText s.textLeft, isLineBreak ch = false) : Inline s s.scanStringValue.2 where
  toAlong := s.along_scanStringValue
  plain i hle hlt := by
    rw [stringText] at h
    cases hstring : stringAt s.textLeft with
    | none =>
      rw [hstring] at h
      rcases charAt_eq_or_mem hle with hend | hmem
      · rw [hend]
        decide
      · exact h _ hmem
    | some result =>
      rw [hstring] at h
      have hmoved := (scanStringValue_spec hstring).2.position
      have hget : (s.textLeft.take result.2)[i - s.position]? = s.source[i]? := by
        rw [List.getElem?_take_of_lt (by omega), textLeft, List.getElem?_drop,
          Nat.add_sub_cancel' hle]
      rw [charAt, List.getD_eq_getElem?_getD]
      cases hchar : s.source[i]? with
      | none => decide
      | some ch => exact h ch (List.mem_of_getElem? (hget.trans hchar))

/-- A token ahead, with its first character. -/
theorem inline_scanToken {s : GraphQlScanner} {ch : Char} {text : Ustring}
    (htext : s.textLeft = ch :: text) (hbreak : isLineBreak ch = false)
    (hstring : s.PlainString s.position) (treatKeywordAsName : Bool) :
    Inline s (s.incrementPosition.scanToken treatKeywordAsName ch).2 := by
  have hstep : Inline s s.incrementPosition :=
    inline_incrementPosition (by rw [currentChar_of_cons htext]; exact hbreak)
  simp only [scanToken]
  split
  · exact hstep
  split
  · next hquote =>
    refine hstep.trans (inline_scanStringValue ?_)
    exact hstring (by rw [charAt_position htext, hquote])
  split
  · exact hstep.trans (inline_scanEllipses _)
  split
  · exact hstep.trans (inline_scanNumber _)
  split
  · split <;> exact hstep.trans (inline_scanNameParts _ _ _)
  · exact hstep

/-! ## Trivia -/

/-- A state of a call in the trivia before its token: the cursor and the start of the token stand
together, their place is right, and `new` are the lines recorded since the call began. -/
structure Reading (s₀ s : GraphQlScanner) (new : List PositionToLine) : Prop where
  scans : Scans s₀ s
  startPosition : s.startPosition = s.position
  line : s.line = lineOf s.source s.position
  column : s.column = columnOf s.source s.position
  startColumn : s.startColumn = s.column
  lines : s.positionToLineList = s₀.positionToLineList ++ new
  within : ∀ e ∈ new, s₀.position < e.position ∧ e.position ≤ s.position ∧
    endsLine s.source (e.position - 1) = true
  last : (new = [] ∧ lineEntry s.source s.position = lineEntry s.source s₀.position) ∨
    ∃ earlier, new = earlier ++ [lineEntry s.source s.position]
  ahead : s.tokenStart = s₀.tokenStart

theorem tokenStart_incrementPosition {s : GraphQlScanner} {ch : Char} {text : Ustring}
    (htext : s.textLeft = ch :: text) (hskip : isLineBreak ch = true ∨ isSeparator ch = true) :
    s.incrementPosition.tokenStart = s.tokenStart := by
  have hlength : triviaLength false s.textLeft = 1 + triviaLength false text := by
    rw [htext, triviaLength, if_pos hskip]
  rw [tokenStart, tokenStart, textLeft_incrementPosition htext, hlength]
  show s.position + 1 + _ = _
  omega

theorem columnOf_of_sameLine {source : Ustring} {p q : Nat} (hpq : p ≤ q)
    (h : lineStart source q = lineStart source p) :
    columnOf source q = columnOf source p + (q - p) := by
  have hle : lineStart source p ≤ p := lineStart_le p
  simp only [columnOf, h]
  omega

namespace Reading

variable {s₀ s : GraphQlScanner} {new : List PositionToLine} {ch : Char} {text : Ustring}

/-- A line break that is one line terminator. -/
theorem lineBreak (h : Reading s₀ s new) (htext : s.textLeft = ch :: text)
    (hbreak : isLineBreak ch = true) (hends : endsLine s.source s.position = true) :
    Reading s₀ s.incrementPosition.recordLine.startAfterLineBreak
      (new ++ [lineEntry s.source (s.position + 1)]) := by
  have hstart : lineStart s.source (s.position + 1) = s.position + 1 := by
    rw [lineStart, if_pos hends]
  have hline : lineOf s.source (s.position + 1) = s.line + 1 := by
    rw [lineOf_succ, if_pos hends, h.line]
  exact
    { scans := h.scans.trans ((s.scans_incrementPosition.trans (scans_recordLine _)).trans
        (scans_startAfterLineBreak _))
      startPosition := congrArg (· + 1) h.startPosition
      line := hline.symm
      column := by
        show 1 = columnOf s.source (s.position + 1)
        rw [columnOf, hstart, Nat.sub_self]
      startColumn := rfl
      lines := by
        have hentry : lineEntry s.source (s.position + 1) = ⟨s.position + 1, s.line + 1⟩ := by
          rw [lineEntry, hstart, hline]
        rw [hentry, ← List.append_assoc, ← h.lines]
        rfl
      within := fun e he => by
        rcases List.mem_append.1 he with he | he
        · obtain ⟨hlt, hle, hend⟩ := h.within e he
          exact ⟨hlt, Nat.le_succ_of_le hle, hend⟩
        · rw [List.mem_singleton.1 he]
          have hposition : (lineEntry s.source (s.position + 1)).position = s.position + 1 := hstart
          rw [hposition]
          exact ⟨Nat.lt_succ_of_le h.scans.position, Nat.le_refl _, hends⟩
      last := .inr ⟨new, rfl⟩
      ahead := (tokenStart_incrementPosition htext (.inl hbreak)).trans h.ahead }

/-- Characters that end no line, passed over by the cursor and the start of the token together. -/
theorem skip (h : Reading s₀ s new) {s' : GraphQlScanner} (hscans : Scans s s')
    (hposition : s'.startPosition = s'.position) (hline : s'.line = s.line)
    (hlines : s'.positionToLineList = s.positionToLineList)
    (hcolumn : s'.column = s.column + (s'.position - s.position))
    (hstartColumn : s'.startColumn = s.startColumn + (s'.position - s.position))
    (hplain : ∀ i, s.position ≤ i → i < s'.position → endsLine s.source i = false)
    (htokenStart : s'.tokenStart = s.tokenStart) : Reading s₀ s' new := by
  obtain ⟨hsame, hstart⟩ := sameLine hscans.position hplain
  have hentry : lineEntry s'.source s'.position = lineEntry s.source s.position := by
    rw [hscans.source, lineEntry, hsame, hstart, lineEntry]
  exact
    { scans := h.scans.trans hscans
      startPosition := hposition
      line := by rw [hline, h.line, hscans.source, hsame]
      column := by
        rw [hcolumn, h.column, hscans.source, columnOf_of_sameLine hscans.position hstart]
      startColumn := by rw [hstartColumn, hcolumn, h.startColumn]
      lines := hlines.trans h.lines
      within := fun e he => by
        obtain ⟨hlt, hle, hend⟩ := h.within e he
        rw [hscans.source]
        exact ⟨hlt, Nat.le_trans hle hscans.position, hend⟩
      last := by
        rw [hentry, hscans.source]
        exact h.last
      ahead := htokenStart.trans h.ahead }

theorem separator (h : Reading s₀ s new) (htext : s.textLeft = ch :: text)
    (hseparator : isSeparator ch = true) :
    Reading s₀ s.incrementPosition.startAfterSeparator new := by
  refine h.skip (s.scans_incrementPosition.trans (scans_startAfterSeparator _))
    (congrArg (· + 1) h.startPosition) rfl rfl ?_ ?_ (fun i hle hlt => ?_) ?_
  · show s.column + 1 = s.column + (s.position + 1 - s.position)
    omega
  · show s.startColumn + 1 = s.startColumn + (s.position + 1 - s.position)
    omega
  · have hlt : i < s.position + 1 := hlt
    obtain rfl : i = s.position := by omega
    refine endsLine_eq_false ?_
    rw [charAt_position htext]
    simp only [isSeparator, Bool.or_eq_true, decide_eq_true_eq] at hseparator
    rcases hseparator with (rfl | rfl) | rfl
    · decide
    · decide
    · decide
  · exact tokenStart_incrementPosition htext (.inr hseparator)

end Reading

/-- The rest of a comment: four counters move together, over no line break. -/
theorem skipComment_counts (fuel : Nat) (s : GraphQlScanner) :
    ∃ n, (skipComment fuel s).position = s.position + n ∧
      (skipComment fuel s).startPosition = s.startPosition + n ∧
      (skipComment fuel s).column = s.column + n ∧
      (skipComment fuel s).startColumn = s.startColumn + n ∧
      (skipComment fuel s).line = s.line ∧
      (skipComment fuel s).positionToLineList = s.positionToLineList ∧
      ∀ i, s.position ≤ i → i < s.position + n → isLineBreak (charAt s.source i) = false := by
  induction fuel generalizing s with
  | zero => exact ⟨0, rfl, rfl, rfl, rfl, rfl, rfl, fun i h h' => by omega⟩
  | succ fuel ih =>
    simp only [skipComment]
    split
    · next hgo =>
      obtain ⟨n, hposition, hstart, hcolumn, hstartColumn, hline, hlines, hplain⟩ :=
        ih s.incrementPosition.startAfterSeparator
      refine ⟨1 + n, ?_, ?_, ?_, ?_, hline, hlines, fun i hle hlt => ?_⟩
      · rw [hposition, ← Nat.add_assoc]
        rfl
      · rw [hstart, ← Nat.add_assoc]
        rfl
      · rw [hcolumn, ← Nat.add_assoc]
        rfl
      · rw [hstartColumn, ← Nat.add_assoc]
        rfl
      · by_cases hi : i = s.position
        · rw [hi]
          exact hgo.2
        · refine hplain i ?_ ?_
          · show s.position + 1 ≤ i
            omega
          · show i < s.position + 1 + n
            omega
    · exact ⟨0, rfl, rfl, rfl, rfl, rfl, rfl, fun i h h' => by omega⟩

theorem Reading.comment {s₀ s : GraphQlScanner} {new : List PositionToLine} {text : Ustring}
    (h : Reading s₀ s new) (htext : s.textLeft = '#' :: text) :
    Reading s₀ (skipComment (s.incrementPosition.startAfterSeparator.size -
      s.incrementPosition.startAfterSeparator.position)
      s.incrementPosition.startAfterSeparator) new := by
  generalize hs₁ : s.incrementPosition.startAfterSeparator = s₁
  obtain ⟨n, hposition, hstart, hcolumn, hstartColumn, hline, hlines, hplain⟩ :=
    skipComment_counts (s₁.size - s₁.position) s₁
  have hscans : Scans s s₁ := by
    rw [← hs₁]
    exact s.scans_incrementPosition.trans (scans_startAfterSeparator _)
  have hs₁position : s₁.position = s.position + 1 := by rw [← hs₁]; rfl
  have hs₁start : s₁.startPosition = s.startPosition + 1 := by rw [← hs₁]; rfl
  have hs₁column : s₁.column = s.column + 1 := by rw [← hs₁]; rfl
  have hs₁startColumn : s₁.startColumn = s.startColumn + 1 := by rw [← hs₁]; rfl
  refine h.skip (hscans.trans (scans_skipComment _ _)) ?_ ?_ ?_ ?_ ?_ (fun i hle hlt => ?_) ?_
  · rw [hstart, hposition, hs₁start, hs₁position, h.startPosition]
  · rw [hline, ← hs₁]
    rfl
  · rw [hlines, ← hs₁]
    rfl
  · rw [hcolumn, hposition, hs₁column, hs₁position]
    omega
  · rw [hstartColumn, hposition, hs₁startColumn, hs₁position]
    omega
  · refine endsLine_eq_false ?_
    by_cases hi : i = s.position
    · rw [hi, charAt_position htext]
      decide
    · rw [← hscans.source]
      exact hplain i (by omega) (by omega)
  · have hleft : s₁.textLeft = text := by
      rw [← hs₁]
      exact textLeft_incrementPosition htext
    obtain ⟨m, hskipped, hlength⟩ := skipComment_spec (s := s₁) (s₁.size - s₁.position)
      (Nat.le_refl _)
    have hskip : ¬ (isLineBreak '#' = true ∨ isSeparator '#' = true) := by decide
    rw [tokenStart, tokenStart, hskipped.position, hskipped.textLeft, htext, triviaLength,
      if_neg hskip, if_pos rfl, ← hleft, hlength, hs₁position]
    omega

/-! ## One call -/

/-- How a call ends: the trivia is read, then a token on one line; or nothing, where the call answers
the end of the document. -/
def Finishes (s₀ : GraphQlScanner) (atEnd : Prop) (s' : GraphQlScanner) : Prop :=
  ∃ s new, Reading s₀ s new ∧ triviaLength false s.textLeft = 0 ∧ Inline s s' ∧
    (s.textLeft = [] → atEnd)

theorem Reading.lt_tokenStart {s₀ s : GraphQlScanner} {new : List PositionToLine} {ch : Char}
    {text : Ustring} (h : Reading s₀ s new) (htext : s.textLeft = ch :: text)
    (hskip : isLineBreak ch = true ∨ isSeparator ch = true) : s.position < s₀.tokenStart := by
  rw [← h.ahead, tokenStart, htext, triviaLength, if_pos hskip]
  omega

/-- A carriage return that is read as the source means it. -/
theorem Reading.carriageReturn {s₀ s : GraphQlScanner} {new : List PositionToLine}
    {text : Ustring} (h : Reading s₀ s new) (htrivia : s₀.PlainTrivia)
    (htext : s.textLeft = '\r' :: text) :
    s.incrementPosition.skipLineFeed = s.incrementPosition ∧
      Reading s₀ s.incrementPosition.recordLine.startAfterLineBreak
        (new ++ [lineEntry s.source (s.position + 1)]) := by
  have hreturn := htrivia s.position (h.lt_tokenStart htext (.inl rfl)) h.scans.position
  rw [← h.scans.source] at hreturn
  obtain ⟨hone, htwo⟩ := hreturn (charAt_position htext)
  constructor
  · have hchar : s.incrementPosition.charAtPosition (s.incrementPosition.position + 1) ≠ '\n' := htwo
    rw [skipLineFeed, if_neg hchar]
  · refine h.lineBreak htext rfl ?_
    simp [endsLine, charAt_position htext, hone]

theorem Reading.lineFeed {s₀ s : GraphQlScanner} {new : List PositionToLine} {text : Ustring}
    (h : Reading s₀ s new) (htext : s.textLeft = '\n' :: text) :
    Reading s₀ s.incrementPosition.recordLine.startAfterLineBreak
      (new ++ [lineEntry s.source (s.position + 1)]) := by
  refine h.lineBreak htext rfl ?_
  simp [endsLine, charAt_position htext]

/-- At the end of the source the call is over. -/
theorem Reading.finishes_nil {s₀ s : GraphQlScanner} {new : List PositionToLine} {atEnd : Prop}
    (h : Reading s₀ s new) (htext : s.textLeft = []) (hend : atEnd) : Finishes s₀ atEnd s :=
  ⟨s, new, h, by rw [htext]; rfl, .rfl, fun _ => hend⟩

theorem takeNextTokenLoop_finishes {treatKeywordAsName : Bool} (fuel : Nat)
    {s₀ s : GraphQlScanner} {new : List PositionToLine} (hfuel : s.left ≤ fuel)
    (h : Reading s₀ s new) (hplain : s₀.Plain true) :
    Finishes s₀ ((takeNextTokenLoop treatKeywordAsName true fuel s).1 = .endOfDocument)
      (takeNextTokenLoop treatKeywordAsName true fuel s).2 := by
  induction fuel generalizing s new with
  | zero => exact h.finishes_nil (textLeft_eq_nil (Nat.le_zero.1 hfuel)) rfl
  | succ fuel ih =>
    cases htext : s.textLeft with
    | nil =>
      have hend : ¬ s.position < s.size := by
        rw [position_lt_size_iff, htext]
        simp
      rw [takeNextTokenLoop, if_neg hend]
      exact h.finishes_nil htext rfl
    | cons ch text =>
      have hleft := left_eq_succ htext
      have hlt := position_lt_size_of_cons htext
      have hnext : ∀ {s₁ : GraphQlScanner} {new₁ : List PositionToLine},
          Scans s.incrementPosition s₁ → Reading s₀ s₁ new₁ →
          Finishes s₀ ((takeNextTokenLoop treatKeywordAsName true fuel s₁).1 = .endOfDocument)
            (takeNextTokenLoop treatKeywordAsName true fuel s₁).2 := by
        intro s₁ new₁ hscans hreading
        have hle := hscans.left_le
        exact ih (by omega) hreading
      simp only [takeNextTokenLoop, hlt, if_true, currentChar_of_cons htext, Bool.true_eq_false,
        if_false]
      split
      · next hfeed =>
        subst hfeed
        exact hnext ((scans_recordLine _).trans (scans_startAfterLineBreak _)) (h.lineFeed htext)
      split
      · next hreturn =>
        subst hreturn
        obtain ⟨hskip, hreading⟩ := h.carriageReturn hplain.1 htext
        rw [hskip]
        exact hnext ((scans_recordLine _).trans (scans_startAfterLineBreak _)) hreading
      split
      · next hseparator =>
        exact hnext (scans_startAfterSeparator _) (h.separator htext hseparator)
      split
      · next hhash =>
        subst hhash
        exact hnext ((scans_startAfterSeparator _).trans (scans_skipComment _ _)) (h.comment htext)
      · next hfeed hreturn hseparator hhash =>
        have hbreak : isLineBreak ch = false := by simp [isLineBreak, hfeed, hreturn]
        have hzero : triviaLength false s.textLeft = 0 := by
          rw [htext, triviaLength, hbreak, if_neg (by simp [hseparator]), if_neg hhash]
        have hposition : s.position = s₀.tokenStart := by rw [← h.ahead, tokenStart, hzero]; rfl
        have hstring : s.PlainString s.position := by
          rw [PlainString, hposition, h.scans.source]
          exact hplain.2
        refine ⟨s, new, h, hzero, inline_scanToken htext hbreak hstring treatKeywordAsName, ?_⟩
        exact fun hnil => absurd (htext.symm.trans hnil) (List.cons_ne_nil ch text)

theorem scanDirectiveLocationLoop_finishes (fuel : Nat) {s₀ s : GraphQlScanner}
    {new : List PositionToLine} (hfuel : s.left ≤ fuel) (h : Reading s₀ s new)
    (hplain : s₀.PlainLocation) :
    Finishes s₀ ((scanDirectiveLocationLoop fuel s).1 = .endOfDocument)
      (scanDirectiveLocationLoop fuel s).2 := by
  induction fuel generalizing s new with
  | zero => exact h.finishes_nil (textLeft_eq_nil (Nat.le_zero.1 hfuel)) rfl
  | succ fuel ih =>
    cases htext : s.textLeft with
    | nil =>
      have hend : ¬ s.position < s.size := by
        rw [position_lt_size_iff, htext]
        simp
      rw [scanDirectiveLocationLoop, if_neg hend]
      exact h.finishes_nil htext rfl
    | cons ch text =>
      have hleft := left_eq_succ htext
      have hlt := position_lt_size_of_cons htext
      have hnext : ∀ {s₁ : GraphQlScanner} {new₁ : List PositionToLine},
          Scans s.incrementPosition s₁ → Reading s₀ s₁ new₁ →
          Finishes s₀ ((scanDirectiveLocationLoop fuel s₁).1 = .endOfDocument)
            (scanDirectiveLocationLoop fuel s₁).2 := by
        intro s₁ new₁ hscans hreading
        have hle := hscans.left_le
        exact ih (by omega) hreading
      simp only [scanDirectiveLocationLoop, hlt, if_true, currentChar_of_cons htext]
      split
      · next hfeed =>
        subst hfeed
        exact hnext ((scans_recordLine _).trans (scans_startAfterLineBreak _)) (h.lineFeed htext)
      split
      · next hreturn =>
        subst hreturn
        obtain ⟨hskip, hreading⟩ := h.carriageReturn hplain.1 htext
        rw [hskip]
        exact hnext ((scans_recordLine _).trans (scans_startAfterLineBreak _)) hreading
      split
      · next hseparator =>
        exact hnext (scans_startAfterSeparator _) (h.separator htext hseparator)
      -- what is no trivia is a name: a comment and other characters are left out
      next hfeed hreturn hseparator =>
      have hbreak : isLineBreak ch = false := by simp [isLineBreak, hfeed, hreturn]
      have hhash : ch ≠ '#' := by
        rintro rfl
        have hin : s.position < s₀.tokenStart := by
          rw [← h.ahead, tokenStart, htext]
          have hskip : ¬ (isLineBreak '#' = true ∨ isSeparator '#' = true) := by decide
          rw [triviaLength, if_neg hskip, if_pos rfl]
          omega
        refine hplain.2.1 s.position hin h.scans.position ?_
        rw [← h.scans.source]
        exact charAt_position htext
      have hzero : triviaLength false s.textLeft = 0 := by
        rw [htext, triviaLength, hbreak, if_neg (by simp [hseparator]), if_neg hhash]
      have hposition : s₀.tokenStart = s.position := by rw [← h.ahead, tokenStart, hzero]; rfl
      have hname : isNameStart ch = true := by
        have hsize : s₀.tokenStart < s₀.size := by
          rw [hposition, ← h.scans.size]
          exact hlt
        have hstart := hplain.2.2 hsize
        rw [hposition, ← h.scans.source, charAt_position htext] at hstart
        exact hstart
      rw [if_pos hname]
      have hstep : Inline s s.incrementPosition :=
        inline_incrementPosition (by rw [currentChar_of_cons htext]; exact hbreak)
      refine ⟨s, new, h, hzero, hstep.trans (inline_scanNameParts _ _ _), ?_⟩
      exact fun hnil => absurd (htext.symm.trans hnil) (List.cons_ne_nil ch text)

/-! ## The invariant -/

/-- The counters and the table agree with the text. The entries behind the position are left over from
looking ahead; they are line starts in the trivia ahead, where they will be recorded again. -/
structure Placed (s : GraphQlScanner) : Prop where
  line : s.line = lineOf s.source s.position
  column : s.column = columnOf s.source s.position
  startLe : s.startPosition ≤ s.position
  start : s.startPosition < s.size → s.line = lineOf s.source s.startPosition ∧
    s.startColumn = columnOf s.source s.startPosition ∧
    Marked s.source s.positionToLineList s.startPosition
  here : ∃ before after, s.positionToLineList = before ++ lineEntry s.source s.position :: after ∧
    (∀ e ∈ before, e.position ≤ s.position) ∧
    ∀ e ∈ after, s.position < e.position ∧ e.position ≤ s.tokenStart ∧
      endsLine s.source (e.position - 1) = true

/-- What a call does to the table: it records line starts in the trivia ahead. -/
def Records (s s' : GraphQlScanner) : Prop :=
  ∃ new, s'.positionToLineList = s.positionToLineList ++ new ∧
    ∀ e ∈ new, s.position < e.position ∧ e.position ≤ s.tokenStart ∧
      endsLine s.source (e.position - 1) = true

theorem Placed.marked {s : GraphQlScanner} (h : Placed s) :
    Marked s.source s.positionToLineList s.position := by
  obtain ⟨before, after, htable, hbefore, hafter⟩ := h.here
  exact ⟨before, after, htable, hbefore, fun e he => (hafter e he).1⟩

theorem placed_initial (source : Ustring) : Placed { source } where
  line := rfl
  column := rfl
  startLe := Nat.le_refl 0
  start _ := ⟨rfl, rfl, [], [], rfl, fun _ he => absurd he List.not_mem_nil,
    fun _ he => absurd he List.not_mem_nil⟩
  here := ⟨[], [], rfl, fun _ he => absurd he List.not_mem_nil,
    fun _ he => absurd he List.not_mem_nil⟩

theorem Placed.reading {s : GraphQlScanner} (h : Placed s) :
    Reading s s.setTokenStartPosition [] where
  scans := s.scans_setTokenStartPosition
  startPosition := rfl
  line := h.line
  column := h.column
  startColumn := rfl
  lines := (List.append_nil _).symm
  within _ he := absurd he List.not_mem_nil
  last := .inl ⟨rfl, rfl⟩
  ahead := rfl

/-- When the trivia is read, the table ends with the line of the token. -/
theorem Reading.table {s₀ s : GraphQlScanner} {new : List PositionToLine} (h₀ : Placed s₀)
    (h : Reading s₀ s new) (hzero : triviaLength false s.textLeft = 0) :
    ∃ before, s.positionToLineList = before ++ [lineEntry s.source s.position] ∧
      ∀ e ∈ before, e.position ≤ s.position := by
  obtain ⟨before, after, htable, hbefore, hafter⟩ := h₀.here
  have hle := h.scans.position
  have hahead : s.position = s₀.tokenStart := by rw [← h.ahead, GraphQlScanner.tokenStart, hzero]; rfl
  have hentry : (lineEntry s₀.source s₀.position).position ≤ s.position :=
    Nat.le_trans (lineStart_le _) hle
  have hearlier : ∀ e ∈ before ++ lineEntry s₀.source s₀.position :: after,
      e.position ≤ s.position := by
    intro e he
    rcases List.mem_append.1 he with he | he
    · exact Nat.le_trans (hbefore e he) hle
    · rcases List.mem_cons.1 he with rfl | he
      · exact hentry
      · rw [hahead]
        exact (hafter e he).2.1
  rcases h.last with ⟨rfl, hsame⟩ | ⟨earlier, rfl⟩
  · -- no line was recorded, so none lies ahead and nothing is left over
    have hnil : after = [] := by
      refine List.eq_nil_iff_forall_not_mem.2 fun e he => ?_
      obtain ⟨hlt, hend, hends⟩ := hafter e he
      have hends' : endsLine s.source (e.position - 1) = true := by
        rw [h.scans.source]
        exact hends
      have hstart : e.position - 1 + 1 ≤ lineStart s.source s.position :=
        le_lineStart (by omega) hends'
      have hback : lineStart s.source s.position = lineStart s.source s₀.position :=
        congrArg PositionToLine.position hsame
      have hup : lineStart s.source s₀.position ≤ s₀.position := lineStart_le _
      omega
    refine ⟨before, ?_, fun e he => Nat.le_trans (hbefore e he) hle⟩
    rw [h.lines, htable, hnil, hsame, h.scans.source, List.append_nil]
  · refine ⟨before ++ lineEntry s₀.source s₀.position :: after ++ earlier, ?_, fun e he => ?_⟩
    · rw [h.lines, htable, ← List.append_assoc]
    · rcases List.mem_append.1 he with he | he
      · exact hearlier e he
      · exact (h.within e (List.mem_append_left _ he)).2.1

theorem Finishes.placed {s s' : GraphQlScanner} {atEnd : Prop} (h : Placed s)
    (hfinishes : Finishes s atEnd s') :
    Placed s' ∧ s'.startPosition = s.tokenStart ∧ (¬ atEnd → s.tokenStart < s.size) ∧
      Records s s' := by
  obtain ⟨s₁, new, hreading, hzero, hinline, hend⟩ := hfinishes
  obtain ⟨before, htable, hbefore⟩ := hreading.table h hzero
  have hahead : s₁.position = s.tokenStart := by
    rw [← hreading.ahead, tokenStart, hzero]
    rfl
  have hstart : s'.startPosition = s₁.position :=
    hinline.startPosition.trans hreading.startPosition
  have hplain : ∀ i, s₁.position ≤ i → i < s'.position → endsLine s₁.source i = false :=
    fun i hle hlt => endsLine_eq_false (hinline.plain i hle hlt)
  obtain ⟨hline, hlineStart⟩ := sameLine hinline.position hplain
  have hentry : lineEntry s'.source s'.position = lineEntry s₁.source s₁.position := by
    rw [hinline.source, lineEntry, hline, hlineStart, lineEntry]
  have hlines : s'.positionToLineList = before ++ lineEntry s₁.source s₁.position :: [] :=
    hinline.lines.trans htable
  refine ⟨?_, hstart.trans hahead, fun hnot => ?_, new, ?_, fun e he => ?_⟩
  · exact
      { line := by rw [hinline.line, hreading.line, hinline.source, hline]
        column := by
          have hcolumn := hinline.column
          have hmove := columnOf_of_sameLine hinline.position hlineStart
          have hle := hinline.position
          rw [hreading.column] at hcolumn
          rw [hinline.source, hmove]
          omega
        startLe := by
          rw [hstart]
          exact hinline.position
        start := fun _ => by
          rw [hstart, hinline.source, hinline.line, hinline.startColumn, hreading.startColumn]
          exact ⟨hreading.line, hreading.column, before, [], hlines, hbefore,
            fun _ he => absurd he List.not_mem_nil⟩
        here := by
          rw [hentry]
          exact ⟨before, [], hlines, fun e he => Nat.le_trans (hbefore e he) hinline.position,
            fun _ he => absurd he List.not_mem_nil⟩ }
  · rw [← hahead, ← hreading.scans.size, position_lt_size_iff]
    exact fun hnil => hnot (hend hnil)
  · exact hinline.lines.trans hreading.lines
  · obtain ⟨hlt, hle, hends⟩ := hreading.within e he
    rw [hreading.scans.source] at hends
    exact ⟨hlt, hahead ▸ hle, hends⟩

/-! ## Calls -/

/-- A separator answered as white space. What was left over stays ahead. -/
theorem Placed.whiteSpace {s : GraphQlScanner} {ch : Char} {text : Ustring} (h : Placed s)
    (htext : s.textLeft = ch :: text) (hseparator : isSeparator ch = true) :
    Placed s.setTokenStartPosition.incrementPosition := by
  have hstart : s.setTokenStartPosition.textLeft = ch :: text := htext
  have hreading := h.reading.separator hstart hseparator
  have hbreak : isLineBreak ch = false := by
    simp only [isSeparator, Bool.or_eq_true, decide_eq_true_eq] at hseparator
    rcases hseparator with (rfl | rfl) | rfl
    · decide
    · decide
    · decide
  have hends : endsLine s.source s.position = false :=
    endsLine_eq_false (by rw [charAt_position htext]; exact hbreak)
  have hentry : lineEntry s.source (s.position + 1) = lineEntry s.source s.position := by
    simp only [lineEntry, lineStart, lineOf_succ, hends, Bool.false_eq_true, if_false, Nat.add_zero]
  obtain ⟨before, after, htable, hbefore, hafter⟩ := h.here
  exact
    { line := hreading.line
      column := hreading.column
      startLe := Nat.le_succ _
      start := fun _ => ⟨h.line, h.column, h.marked⟩
      here := by
        refine ⟨before, after, ?_, fun e he => Nat.le_succ_of_le (hbefore e he), fun e he => ?_⟩
        · show s.positionToLineList = before ++ lineEntry s.source (s.position + 1) :: after
          rw [hentry]
          exact htable
        · obtain ⟨hlt, hle, hend⟩ := hafter e he
          refine ⟨?_, ?_, hend⟩
          · show s.position + 1 < e.position
            refine Nat.lt_of_le_of_ne hlt fun heq => ?_
            rw [← heq, Nat.add_sub_cancel, hends] at hend
            exact Bool.false_ne_true hend
          · have hahead := tokenStart_incrementPosition htext (.inr hseparator)
            have hsame : s.setTokenStartPosition.incrementPosition.tokenStart = s.tokenStart := hahead
            rw [hsame]
            exact hle }

/-- A comment without a line break goes on to the end. -/
theorem skipComment_textLeft (fuel : Nat) {s : GraphQlScanner} (hfuel : s.left ≤ fuel)
    (h : ∀ ch ∈ s.textLeft, isLineBreak ch = false) : (skipComment fuel s).textLeft = [] := by
  induction fuel generalizing s with
  | zero => exact textLeft_eq_nil (Nat.le_zero.1 hfuel)
  | succ fuel ih =>
    cases htext : s.textLeft with
    | nil =>
      have hend : ¬ s.position < s.size := by
        rw [position_lt_size_iff, htext]
        simp
      rw [skipComment, if_neg fun hgo => hend hgo.1]
      exact htext
    | cons ch text =>
      rw [htext] at h
      have hgo : s.position < s.size ∧ isLineBreak s.currentChar = false := by
        refine ⟨position_lt_size_of_cons htext, ?_⟩
        rw [currentChar_of_cons htext]
        exact h ch (List.mem_cons_self ..)
      have hleft := left_eq_succ htext
      have hrest : s.incrementPosition.startAfterSeparator.textLeft = text :=
        textLeft_incrementPosition htext
      have hless : s.incrementPosition.startAfterSeparator.left = s.incrementPosition.left := rfl
      rw [skipComment, if_pos hgo]
      refine ih (by omega) fun c hc => h c (List.mem_cons_of_mem ch ?_)
      rw [← hrest]
      exact hc

/-- A call that does not skip white space, where no separator is ahead. -/
theorem takeNextToken_finishes_false {s : GraphQlScanner} (h : Placed s) (hplain : s.Plain false)
    (hseparator : isSeparator s.currentChar = false) (treatKeywordAsName : Bool) :
    Finishes s ((s.takeNextToken treatKeywordAsName false).1 = .endOfDocument)
      (s.takeNextToken treatKeywordAsName false).2 := by
  obtain ⟨hbreak, hcomment, hstring⟩ := hplain
  cases htext : s.textLeft with
  | nil =>
    have hleft : s.size - s.position = 0 := by
      have hlength := s.length_textLeft
      rw [htext] at hlength
      exact hlength.symm
    rw [takeNextToken, hleft]
    exact h.reading.finishes_nil htext rfl
  | cons ch text =>
    have hlt := position_lt_size_of_cons htext
    have hleft : s.size - s.position = s.incrementPosition.left + 1 := left_eq_succ htext
    rw [currentChar_of_cons htext] at hbreak hcomment hseparator
    have hstart : s.setTokenStartPosition.textLeft = ch :: text := htext
    have hlt' : s.setTokenStartPosition.position < s.setTokenStartPosition.size := hlt
    have hfeed : ch ≠ '\n' := by
      rintro rfl
      exact absurd hbreak (by decide)
    have hreturn : ch ≠ '\r' := by
      rintro rfl
      exact absurd hbreak (by decide)
    rw [takeNextToken, hleft]
    simp only [takeNextTokenLoop, hlt', if_true, currentChar_of_cons hstart, hfeed, hreturn,
      hseparator, Bool.false_eq_true, if_false]
    split
    · next hhash =>
      subst hhash
      rw [htext] at hcomment
      have hreading := h.reading.comment hstart
      generalize hs₁ : s.setTokenStartPosition.incrementPosition.startAfterSeparator = s₁
        at hreading ⊢
      have htext₁ : s₁.textLeft = text := by
        rw [← hs₁]
        exact textLeft_incrementPosition hstart
      have hend := skipComment_textLeft (s := s₁) (s₁.size - s₁.position) (Nat.le_refl _) fun c hc =>
        hcomment rfl c (List.mem_cons_of_mem _ (htext₁ ▸ hc))
      generalize skipComment (s₁.size - s₁.position) s₁ = s₂ at hreading hend ⊢
      have hover : ¬ s₂.position < s₂.size := by
        rw [position_lt_size_iff, hend]
        simp
      have hloop : takeNextTokenLoop treatKeywordAsName false s.incrementPosition.left s₂ =
          (.endOfDocument, s₂) := by
        cases s.incrementPosition.left with
        | zero => rfl
        | succ fuel => rw [takeNextTokenLoop, if_neg hover]
      rw [hloop]
      exact hreading.finishes_nil hend rfl
    · next hhash =>
      have hzero : triviaLength false s.setTokenStartPosition.textLeft = 0 := by
        rw [hstart, triviaLength, hbreak, if_neg (by simp [hseparator]), if_neg hhash]
      refine ⟨_, _, h.reading, hzero, inline_scanToken hstart hbreak hstring treatKeywordAsName, ?_⟩
      exact fun hnil => absurd (hstart.symm.trans hnil) (List.cons_ne_nil ch text)

theorem takeNextToken_finishes_true {s : GraphQlScanner} (h : Placed s) (hplain : s.Plain true)
    (treatKeywordAsName : Bool) :
    Finishes s ((s.takeNextToken treatKeywordAsName true).1 = .endOfDocument)
      (s.takeNextToken treatKeywordAsName true).2 :=
  takeNextTokenLoop_finishes _ (Nat.le_refl _) h.reading hplain

/-- The offset at which a call of `take_next_token` starts its token. -/
def startFor (s : GraphQlScanner) : Bool → Nat
  | true => s.tokenStart
  | false => if isSeparator s.currentChar then s.position else s.tokenStart

theorem Placed.takeNextToken {s : GraphQlScanner} (h : Placed s) {skipWhiteSpace : Bool}
    (hplain : s.Plain skipWhiteSpace) (treatKeywordAsName : Bool) :
    Placed (s.takeNextToken treatKeywordAsName skipWhiteSpace).2 ∧
      (s.takeNextToken treatKeywordAsName skipWhiteSpace).2.startPosition =
        s.startFor skipWhiteSpace ∧
      ((s.takeNextToken treatKeywordAsName skipWhiteSpace).1 ≠ .endOfDocument →
        s.startFor skipWhiteSpace < s.size) ∧
      Records s (s.takeNextToken treatKeywordAsName skipWhiteSpace).2 := by
  cases skipWhiteSpace with
  | true => exact (takeNextToken_finishes_true h hplain treatKeywordAsName).placed h
  | false =>
    rw [startFor]
    by_cases hseparator : isSeparator s.currentChar = true
    · rw [if_pos hseparator]
      cases htext : s.textLeft with
      | nil =>
        rw [currentChar_eq, htext] at hseparator
        exact absurd hseparator (by decide)
      | cons ch text =>
        rw [currentChar_of_cons htext] at hseparator
        have hbreak := hplain.1
        rw [currentChar_of_cons htext] at hbreak
        have hlt : s.setTokenStartPosition.position < s.setTokenStartPosition.size :=
          position_lt_size_of_cons htext
        have hstart : s.setTokenStartPosition.textLeft = ch :: text := htext
        have hleft : s.size - s.position = s.incrementPosition.left + 1 := left_eq_succ htext
        have hfeed : ch ≠ '\n' := by
          rintro rfl
          exact absurd hbreak (by decide)
        have hreturn : ch ≠ '\r' := by
          rintro rfl
          exact absurd hbreak (by decide)
        have htake : s.takeNextToken treatKeywordAsName false =
            (.whiteSpace, s.setTokenStartPosition.incrementPosition) := by
          rw [GraphQlScanner.takeNextToken, hleft]
          simp only [takeNextTokenLoop, hlt, if_true, currentChar_of_cons hstart, hfeed, hreturn,
            hseparator, if_false]
        rw [htake]
        exact ⟨h.whiteSpace htext hseparator, rfl, fun _ => hlt, [], (List.append_nil _).symm,
          fun _ he => absurd he List.not_mem_nil⟩
    · rw [if_neg hseparator]
      have hfinishes := takeNextToken_finishes_false h hplain (Bool.eq_false_iff.2 hseparator)
        treatKeywordAsName
      exact hfinishes.placed h

theorem Placed.scanDirectiveLocation {s : GraphQlScanner} (h : Placed s)
    (hplain : s.PlainLocation) :
    Placed s.scanDirectiveLocation.2 ∧ s.scanDirectiveLocation.2.startPosition = s.tokenStart ∧
      (s.scanDirectiveLocation.1 ≠ .endOfDocument → s.tokenStart < s.size) ∧
      Records s s.scanDirectiveLocation.2 :=
  (scanDirectiveLocationLoop_finishes _ (Nat.le_refl _) h.reading hplain).placed h

/-- Saving the cursor changes no place. -/
theorem Placed.save {s : GraphQlScanner} (h : Placed s) : Placed s.save :=
  ⟨h.line, h.column, h.startLe, h.start, h.here⟩

/-- What was looked at is taken back: the lines it recorded are left over. -/
theorem Placed.revert {s s' : GraphQlScanner} (h : Placed s) (hscans : Scans s.save s')
    (hrecords : Records s.save s') : Placed s'.revert ∧ Records s s'.revert := by
  obtain ⟨new, hlines, hnew⟩ := hrecords
  have hrevert : s'.revert = { s' with
      position := s.position, line := s.line, column := s.column
      startPosition := s.startPosition, startLine := s.startLine, startColumn := s.startColumn
      savedTextCursors := s.savedTextCursors } := by
    rw [GraphQlScanner.revert, hscans.saved]
    rfl
  have hsource : s'.source = s.source := hscans.source
  have htable : s'.positionToLineList = s.positionToLineList ++ new := hlines
  have htokenStart : s'.revert.tokenStart = s.tokenStart := by
    rw [hrevert, tokenStart, tokenStart, textLeft, textLeft]
    simp only [hsource]
  obtain ⟨before, after, hhere, hbefore, hafter⟩ := h.here
  refine ⟨?_, new, ?_, hnew⟩
  · rw [hrevert] at htokenStart ⊢
    exact
      { line := by rw [hsource]; exact h.line
        column := by rw [hsource]; exact h.column
        startLe := h.startLe
        start := fun hsize => by
          have hsize : s.startPosition < s.size := by
            rw [size, ← hsource]
            exact hsize
          obtain ⟨hline, hcolumn, hmarked⟩ := h.start hsize
          rw [hsource]
          refine ⟨hline, hcolumn, ?_⟩
          rw [htable]
          exact hmarked.append fun e he => Nat.lt_of_le_of_lt h.startLe (hnew e he).1
        here := by
          refine ⟨before, after ++ new, ?_, hbefore, fun e he => ?_⟩
          · rw [hsource, htable, hhere, List.append_assoc, List.cons_append]
          · rw [htokenStart, hsource]
            rcases List.mem_append.1 he with he | he
            · exact hafter e he
            · exact hnew e he }
  · rw [hrevert]
    exact htable

end GraphQlScanner

end Flashpoint
