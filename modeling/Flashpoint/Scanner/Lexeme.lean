import Flashpoint.Scanner.Progress

/-!
# The text that is left, as lexemes

What the scanner answers depends on the text and the position only: `SameText` is kept by every
operation, and equal tokens come out. So the text from a position on reads as a list of lexemes,
`rest`, and taking a token takes the first of them, whichever way the caller has it read: a word
counts as a name or as a keyword, and `tight` tells whether trivia stands before it.
-/

namespace Flashpoint

namespace GraphQlScanner

/-! ## Reading the same text -/

/-- The two scanners stand at the same place of the same text, with the token started at the same
place; under `literal` they have read the same string. -/
structure SameText (literal : Prop) (s s' : GraphQlScanner) : Prop where
  source : s.source = s'.source
  position : s.position = s'.position
  start : s.startPosition = s'.startPosition
  string : literal → s.stringLiteral = s'.stringLiteral

/-- Two answers that are the same, with scanners that read the same text. -/
def SameAnswer {α : Type} (literal : Prop) (r r' : α × GraphQlScanner) : Prop :=
  r.1 = r'.1 ∧ SameText literal r.2 r'.2

namespace SameText

variable {literal : Prop} {s s' : GraphQlScanner} (h : SameText literal s s')
include h

theorem size : s.size = s'.size := by
  simp only [GraphQlScanner.size, h.source]

theorem charAtPosition (p : Nat) : s.charAtPosition p = s'.charAtPosition p := by
  simp only [GraphQlScanner.charAtPosition, h.source]

theorem currentChar : s.currentChar = s'.currentChar := by
  simp only [GraphQlScanner.currentChar, h.position, h.charAtPosition]

theorem getValue : s.getValue = s'.getValue := by
  simp only [GraphQlScanner.getValue, GraphQlScanner.length, h.source, h.position, h.start]

theorem getTextFromLocation (p q : Nat) :
    s.getTextFromLocation p q = s'.getTextFromLocation p q := by
  simp only [GraphQlScanner.getTextFromLocation, h.source]

theorem incrementPosition : SameText literal s.incrementPosition s'.incrementPosition :=
  ⟨h.source, congrArg (· + 1) h.position, h.start, h.string⟩

theorem recordLine : SameText literal s.recordLine s'.recordLine :=
  ⟨h.source, h.position, h.start, h.string⟩

theorem startAfterLineBreak : SameText literal s.startAfterLineBreak s'.startAfterLineBreak :=
  ⟨h.source, h.position, congrArg (· + 1) h.start, h.string⟩

theorem startAfterSeparator : SameText literal s.startAfterSeparator s'.startAfterSeparator :=
  ⟨h.source, h.position, congrArg (· + 1) h.start, h.string⟩

theorem skipLineFeed : SameText literal s.skipLineFeed s'.skipLineFeed := by
  simp only [GraphQlScanner.skipLineFeed, h.charAtPosition, h.position]
  split
  · exact h.incrementPosition
  · exact h

omit h in
theorem skipComment (fuel : Nat) {s s' : GraphQlScanner} (h : SameText literal s s') :
    SameText literal (GraphQlScanner.skipComment fuel s) (GraphQlScanner.skipComment fuel s') := by
  induction fuel generalizing s s' with
  | zero => exact h
  | succ fuel ih =>
    simp only [GraphQlScanner.skipComment, h.position, h.size, h.currentChar]
    split
    · exact ih h.incrementPosition.startAfterSeparator
    · exact h

/-! ### Names and numbers -/

omit h in
theorem scanNameParts (fuel count : Nat) {s s' : GraphQlScanner} (h : SameText literal s s') :
    SameAnswer literal (GraphQlScanner.scanNameParts fuel count s)
      (GraphQlScanner.scanNameParts fuel count s') := by
  induction fuel generalizing s s' count with
  | zero => exact ⟨rfl, h⟩
  | succ fuel ih =>
    simp only [GraphQlScanner.scanNameParts, h.position, h.size, h.currentChar]
    split
    · exact ih (count + 1) h.incrementPosition
    · exact ⟨rfl, h⟩

omit h in
theorem scanDigitListLoop (fuel : Nat) {s s' : GraphQlScanner} (h : SameText literal s s') :
    SameText literal (GraphQlScanner.scanDigitListLoop fuel s)
      (GraphQlScanner.scanDigitListLoop fuel s') := by
  induction fuel generalizing s s' with
  | zero => exact h
  | succ fuel ih =>
    simp only [GraphQlScanner.scanDigitListLoop, h.currentChar]
    split
    · exact ih h.incrementPosition
    · exact h

theorem scanDigitList : SameText literal s.scanDigitList s'.scanDigitList := by
  unfold GraphQlScanner.scanDigitList
  rw [h.size, h.position]
  exact scanDigitListLoop _ h

theorem scanIntegerPart : SameText literal s.scanIntegerPart.2 s'.scanIntegerPart.2 := by
  simp only [GraphQlScanner.scanIntegerPart, h.currentChar, h.incrementPosition.currentChar]
  split
  · split <;> exact h.incrementPosition
  · split
    · exact h
    · exact h.scanDigitList

theorem scanExponent : SameAnswer literal s.scanExponent s'.scanExponent := by
  have hsign : SameText literal
      (if s.incrementPosition.currentChar = '-' ∨ s.incrementPosition.currentChar = '+' then
        s.incrementPosition.incrementPosition else s.incrementPosition)
      (if s'.incrementPosition.currentChar = '-' ∨ s'.incrementPosition.currentChar = '+' then
        s'.incrementPosition.incrementPosition else s'.incrementPosition) := by
    rw [h.incrementPosition.currentChar]
    split
    · exact h.incrementPosition.incrementPosition
    · exact h.incrementPosition
  simp only [GraphQlScanner.scanExponent]
  revert hsign
  generalize (if s.incrementPosition.currentChar = '-' ∨ s.incrementPosition.currentChar = '+' then
    s.incrementPosition.incrementPosition else s.incrementPosition) = t
  generalize (if s'.incrementPosition.currentChar = '-' ∨ s'.incrementPosition.currentChar = '+'
    then s'.incrementPosition.incrementPosition else s'.incrementPosition) = t'
  intro hsign
  rw [hsign.currentChar]
  split
  · exact ⟨rfl, hsign⟩
  · exact ⟨rfl, hsign.incrementPosition.scanDigitList⟩

theorem scanNumber : SameAnswer literal s.scanNumber s'.scanNumber := by
  have hint := h.scanIntegerPart
  have hdot := hint.incrementPosition
  have hfraction := hdot.incrementPosition.scanDigitList
  simp only [GraphQlScanner.scanNumber, hint.currentChar, hdot.currentChar, hfraction.currentChar]
  split
  · split
    · exact ⟨rfl, hdot⟩
    split
    · exact ⟨rfl, hfraction⟩
    · exact hfraction.scanExponent
  split
  · exact hint.scanExponent
  · exact ⟨rfl, hint⟩

/-! ### Strings -/

omit h in
theorem pushError (h : SameText literal s s') (template : D) (p p' l l' c c' : Nat) :
    SameText literal (s.pushError template p l c) (s'.pushError template p' l' c') :=
  ⟨h.source, h.position, h.start, h.string⟩

omit h in
theorem scanHexadecimalEscape (p p' l l' c c' n : Nat) {s s' : GraphQlScanner}
    (h : SameText literal s s') :
    SameAnswer literal (GraphQlScanner.scanHexadecimalEscape p l c n s)
      (GraphQlScanner.scanHexadecimalEscape p' l' c' n s') := by
  induction n generalizing s s' with
  | zero => exact ⟨rfl, h⟩
  | succ n ih =>
    simp only [GraphQlScanner.scanHexadecimalEscape, h.currentChar]
    split
    · exact ih h.incrementPosition
    · exact ⟨rfl, (h.pushError _ _ _ _ _ _ _).incrementPosition⟩

theorem scanEscapeSequence : SameAnswer literal s.scanEscapeSequence s'.scanEscapeSequence := by
  simp only [GraphQlScanner.scanEscapeSequence, h.incrementPosition.currentChar]
  split
  · exact ⟨rfl, h.incrementPosition.incrementPosition⟩
  split
  · exact scanHexadecimalEscape _ _ _ _ _ _ _ h.incrementPosition.incrementPosition
  · exact ⟨rfl, h.incrementPosition⟩

omit h in
theorem finish (h : SameText literal s s') (truncated : Bool) (p l l' c c' : Nat) :
    SameAnswer literal (scanStringLiteralLoop.finish p l c truncated s)
      (scanStringLiteralLoop.finish p l' c' truncated s') := by
  simp only [scanStringLiteralLoop.finish]
  split
  · exact ⟨rfl, h.pushError _ _ _ _ _ _ _⟩
  · exact ⟨rfl, h⟩

omit h in
theorem scanStringLiteralLoop (p l l' c c' fuel : Nat) (truncated : Bool) {s s' : GraphQlScanner}
    (h : SameText literal s s') :
    SameAnswer literal (GraphQlScanner.scanStringLiteralLoop p l c fuel truncated s)
      (GraphQlScanner.scanStringLiteralLoop p l' c' fuel truncated s') := by
  induction fuel generalizing s s' truncated with
  | zero => exact h.finish _ _ _ _ _ _
  | succ fuel ih =>
    simp only [GraphQlScanner.scanStringLiteralLoop, h.position, h.size, h.currentChar]
    split
    · exact h.finish _ _ _ _ _ _
    split
    · have hescape := h.scanEscapeSequence
      revert hescape
      rcases s.scanEscapeSequence with ⟨b, t⟩
      rcases s'.scanEscapeSequence with ⟨b', t'⟩
      rintro ⟨hb, ht⟩
      obtain rfl : b = b' := hb
      cases b with
      | true => exact ih truncated ht
      | false => exact ⟨rfl, ht⟩
    split
    · exact ih true h.incrementPosition
    split
    · have htext : SameText literal
          { s with
            position := s'.position
            stringLiteral := s.stringLiteral ++ s.getTextFromLocation p s'.position }
          { s' with stringLiteral := s'.stringLiteral ++ s'.getTextFromLocation p s'.position } :=
        ⟨h.source, rfl, h.start, fun hliteral => by
          simp only [h.string hliteral, h.getTextFromLocation]⟩
      exact htext.incrementPosition.finish _ _ _ _ _ _
    · exact ih truncated h.incrementPosition

/-- A string starts empty, whatever was read before. -/
theorem scanStringLiteral : SameAnswer True s.scanStringLiteral s'.scanStringLiteral := by
  unfold GraphQlScanner.scanStringLiteral
  rw [h.position, h.size]
  exact scanStringLiteralLoop _ _ _ _ _ _ _ ⟨h.source, rfl, h.start, fun _ => rfl⟩

omit h in
theorem scanStringBlockLoop (fuel : Nat) {s s' : GraphQlScanner} (h : SameText literal s s') :
    SameAnswer literal (GraphQlScanner.scanStringBlockLoop fuel s)
      (GraphQlScanner.scanStringBlockLoop fuel s') := by
  induction fuel generalizing s s' with
  | zero => exact ⟨rfl, h⟩
  | succ fuel ih =>
    simp only [GraphQlScanner.scanStringBlockLoop, h.position, h.size, h.currentChar,
      h.charAtPosition]
    split
    · exact ⟨rfl, h⟩
    split
    · exact ⟨rfl, h⟩
    split
    · exact ⟨rfl, h.incrementPosition.incrementPosition.incrementPosition⟩
    split
    · have htext : SameText literal
          { s with
            position := s'.position
            stringLiteral := s.stringLiteral ++ [s'.currentChar] }
          { s' with stringLiteral := s'.stringLiteral ++ [s'.currentChar] } :=
        ⟨h.source, rfl, h.start, fun hliteral => by simp only [h.string hliteral]⟩
      exact ih htext.incrementPosition
    · exact ih h.incrementPosition

theorem scanStringValue : SameAnswer True s.scanStringValue s'.scanStringValue := by
  simp only [GraphQlScanner.scanStringValue, h.currentChar, h.charAtPosition, h.position]
  split
  · have hquotes := h.incrementPosition.incrementPosition
    unfold GraphQlScanner.scanStringBlockAfterDoubleQuotes
    rw [hquotes.position, hquotes.size]
    exact scanStringBlockLoop _ ⟨hquotes.source, rfl, hquotes.start, fun _ => rfl⟩
  · exact h.scanStringLiteral

/-! ### Tokens -/

theorem scanEllipses :
    SameAnswer literal s.scanEllipsesAfterFirstDot s'.scanEllipsesAfterFirstDot := by
  simp only [scanEllipsesAfterFirstDot, h.currentChar, h.incrementPosition.currentChar]
  split
  · exact ⟨rfl, h⟩
  split
  · exact ⟨rfl, h.incrementPosition⟩
  · exact ⟨rfl, h.incrementPosition.incrementPosition⟩

end SameText

/-! ## Which tokens come out where -/

/-- A token that is neither a string, nor trivia, nor the end of the document. -/
def IsOrdinary (token : GraphQlToken) : Prop :=
  token ≠ .gStringValue ∧ token ≠ .endOfDocument ∧ token ≠ .whiteSpace

instance (token : GraphQlToken) : Decidable (IsOrdinary token) :=
  inferInstanceAs (Decidable (token ≠ .gStringValue ∧ token ≠ .endOfDocument ∧ token ≠ .whiteSpace))

theorem isOrdinary_punctuation {ch : Char} {token : GraphQlToken}
    (h : punctuation ch = some token) : IsOrdinary token := by
  unfold punctuation at h
  split at h
  all_goals first
    | (obtain rfl := Option.some.inj h; decide)
    | cases h

/-- The tokens of words: a name, or a keyword. -/
def isWord (token : GraphQlToken) : Bool :=
  token ∈ [.gName, .onKeyword, .mutationKeyword, .queryKeyword, .subscriptionKeyword,
    .directiveKeyword, .enumKeyword, .fragmentKeyword, .inputKeyword, .interfaceKeyword,
    .schemaKeyword, .typeKeyword, .unionKeyword, .idKeyword, .intKeyword, .floatKeyword,
    .stringKeyword, .booleanKeyword, .nullKeyword, .trueKeyword, .falseKeyword, .implementsKeyword]

theorem isWord_getTokenFromValue (size : Nat) (value : Ustring) :
    isWord (getTokenFromValue size value) = true := by
  unfold getTokenFromValue
  repeat' split
  all_goals decide

theorem isOrdinary_of_isWord {token : GraphQlToken} (h : isWord token = true) :
    IsOrdinary token := by
  cases token with
  | gStringValue => exact absurd h (by decide)
  | endOfDocument => exact absurd h (by decide)
  | whiteSpace => exact absurd h (by decide)
  | _ => decide

theorem isOrdinary_getTokenFromValue (size : Nat) (value : Ustring) :
    IsOrdinary (getTokenFromValue size value) :=
  isOrdinary_of_isWord (isWord_getTokenFromValue size value)

theorem isOrdinary_scanExponent (s : GraphQlScanner) : IsOrdinary s.scanExponent.1 := by
  simp only [scanExponent]
  repeat' split
  all_goals simp [IsOrdinary]

theorem isOrdinary_scanNumber (s : GraphQlScanner) : IsOrdinary s.scanNumber.1 := by
  simp only [scanNumber]
  split
  · split
    · simp [IsOrdinary]
    split
    · simp [IsOrdinary]
    · exact isOrdinary_scanExponent _
  split
  · exact isOrdinary_scanExponent _
  · simp [IsOrdinary]

theorem isOrdinary_scanEllipses (s : GraphQlScanner) :
    IsOrdinary s.scanEllipsesAfterFirstDot.1 := by
  simp only [scanEllipsesAfterFirstDot]
  repeat' split
  all_goals simp [IsOrdinary]

/-- The tokens of strings, and what else comes out where one is read. -/
def stringTokens : List GraphQlToken := [.gStringValue, .invalidString, .unknown]

theorem finish_mem (p l c : Nat) (truncated : Bool) (s : GraphQlScanner) :
    (scanStringLiteralLoop.finish p l c truncated s).1 ∈ stringTokens := by
  simp only [scanStringLiteralLoop.finish]
  split <;> simp [stringTokens]

theorem scanStringLiteralLoop_mem (p l c fuel : Nat) (truncated : Bool) (s : GraphQlScanner) :
    (scanStringLiteralLoop p l c fuel truncated s).1 ∈ stringTokens := by
  induction fuel generalizing s truncated with
  | zero => exact finish_mem _ _ _ _ _
  | succ fuel ih =>
    simp only [scanStringLiteralLoop]
    split
    · exact finish_mem _ _ _ _ _
    split
    · rcases s.scanEscapeSequence with ⟨b, t⟩
      cases b with
      | true => exact ih truncated t
      | false => simp [stringTokens]
    split
    · exact ih true _
    split
    · exact finish_mem _ _ _ _ _
    · exact ih truncated _

theorem scanStringBlockLoop_mem (fuel : Nat) (s : GraphQlScanner) :
    (scanStringBlockLoop fuel s).1 ∈ stringTokens := by
  induction fuel generalizing s with
  | zero => simp [scanStringBlockLoop, stringTokens]
  | succ fuel ih =>
    simp only [scanStringBlockLoop]
    split
    · simp [stringTokens]
    split
    · simp [stringTokens]
    split
    · simp [stringTokens]
    split
    · exact ih _
    · exact ih _

theorem scanStringValue_mem (s : GraphQlScanner) : s.scanStringValue.1 ∈ stringTokens := by
  simp only [scanStringValue]
  split
  · exact scanStringBlockLoop_mem _ _
  · exact scanStringLiteralLoop_mem _ _ _ _ _ _

/-! ## One token in the two modes -/

/-- A token read in the two modes: the same scanner, and a name where words count as names. -/
structure TwoModes (plain asName : GraphQlToken × GraphQlScanner) : Prop where
  scanner : asName.2 = plain.2
  token : asName.1 = plain.1 ∨ asName.1 = .gName ∧ isWord plain.1 = true
  name : plain.1 = .gName → asName.1 = .gName

theorem twoModes_scanToken (s : GraphQlScanner) (ch : Char) :
    TwoModes (s.scanToken false ch) (s.scanToken true ch) := by
  have hsame : ∀ r : GraphQlToken × GraphQlScanner, TwoModes r r :=
    fun r => ⟨rfl, .inl rfl, id⟩
  simp only [scanToken]
  split
  · exact hsame _
  split
  · exact hsame _
  split
  · exact hsame _
  split
  · exact hsame _
  split
  · exact ⟨rfl, .inr ⟨rfl, isWord_getTokenFromValue _ _⟩, fun _ => rfl⟩
  · exact hsame _

theorem scanToken_ne_endOfDocument (s : GraphQlScanner) (treatKeywordAsName : Bool) (ch : Char) :
    (s.scanToken treatKeywordAsName ch).1 ≠ .endOfDocument := by
  simp only [scanToken]
  split
  · next token htoken => exact (isOrdinary_punctuation htoken).2.1
  split
  · intro hend
    have hmem := scanStringValue_mem s
    rw [hend] at hmem
    exact absurd hmem (by decide)
  split
  · exact (isOrdinary_scanEllipses s).2.1
  split
  · exact (isOrdinary_scanNumber s).2.1
  split
  · split
    · simp
    · exact (isOrdinary_getTokenFromValue _ _).2.1
  · simp

/-- A comma separates tokens and is none. -/
theorem scanToken_ne_comma (s : GraphQlScanner) (ch : Char) : (s.scanToken false ch).1 ≠ .comma := by
  have hexponent : ∀ t : GraphQlScanner, t.scanExponent.1 ≠ .comma := by
    intro t
    simp only [scanExponent]
    repeat' split
    all_goals simp
  simp only [scanToken]
  split
  · next token htoken =>
    have hne : token ≠ .comma := by
      unfold punctuation at htoken
      split at htoken
      all_goals first
        | (obtain rfl := Option.some.inj htoken; decide)
        | cases htoken
    exact hne
  split
  · intro hcomma
    have hmem := scanStringValue_mem s
    rw [hcomma] at hmem
    exact absurd hmem (by decide)
  split
  · simp only [scanEllipsesAfterFirstDot]
    repeat' split
    all_goals simp
  split
  · simp only [scanNumber]
    repeat' split
    all_goals first
      | exact hexponent _
      | simp
  split
  · intro hcomma
    have hword := isWord_getTokenFromValue (scanNameParts (s.size - s.position) 1 s).1
      (scanNameParts (s.size - s.position) 1 s).2.getValue
    rw [show getTokenFromValue _ _ = GraphQlToken.comma from hcomma] at hword
    exact absurd hword (by decide)
  · simp

theorem takeNextTokenLoop_ne_comma (fuel : Nat) (s : GraphQlScanner) :
    (takeNextTokenLoop false true fuel s).1 ≠ .comma := by
  induction fuel generalizing s with
  | zero => simp [takeNextTokenLoop]
  | succ fuel ih =>
    simp only [takeNextTokenLoop, Bool.true_eq_false, if_false]
    repeat' split
    all_goals first
      | exact ih _
      | exact scanToken_ne_comma _ _
      | simp

theorem twoModes_takeNextTokenLoop (skipWhiteSpace : Bool) (fuel : Nat) (s : GraphQlScanner) :
    TwoModes (takeNextTokenLoop false skipWhiteSpace fuel s)
      (takeNextTokenLoop true skipWhiteSpace fuel s) := by
  have hsame : ∀ r : GraphQlToken × GraphQlScanner, TwoModes r r :=
    fun r => ⟨rfl, .inl rfl, id⟩
  induction fuel generalizing s with
  | zero => exact hsame _
  | succ fuel ih =>
    simp only [takeNextTokenLoop]
    split
    · split
      · split
        · exact hsame _
        · exact ih _
      split
      · split
        · exact hsame _
        · exact ih _
      split
      · split
        · exact hsame _
        · exact ih _
      split
      · exact ih _
      · exact twoModes_scanToken _ _
    · exact hsame _

theorem twoModes_takeNextToken (s : GraphQlScanner) (skipWhiteSpace : Bool) :
    TwoModes (s.takeNextToken false skipWhiteSpace) (s.takeNextToken true skipWhiteSpace) :=
  twoModes_takeNextTokenLoop _ _ _

/-! ## The same text gives the same token -/

namespace SameText

variable {literal : Prop} {s s' : GraphQlScanner}

theorem weaken (h : SameText literal s s') {literal' : Prop} (hl : literal' → literal) :
    SameText literal' s s' := ⟨h.source, h.position, h.start, fun hl' => h.string (hl hl')⟩

theorem scanToken (h : SameText literal s s') (asName : Bool) (ch : Char) :
    (s.scanToken asName ch).1 = (s'.scanToken asName ch).1 ∧
      SameText ((s.scanToken asName ch).1 = .gStringValue) (s.scanToken asName ch).2
        (s'.scanToken asName ch).2 := by
  have hplain : ∀ {r r' : GraphQlToken × GraphQlScanner}, SameAnswer literal r r' →
      IsOrdinary r.1 → r.1 = r'.1 ∧ SameText (r.1 = .gStringValue) r.2 r'.2 :=
    fun hr hordinary => ⟨hr.1, hr.2.weaken fun heq => absurd heq hordinary.1⟩
  simp only [GraphQlScanner.scanToken]
  split
  · next token htoken => exact hplain ⟨rfl, h⟩ (isOrdinary_punctuation htoken)
  split
  · have hstring := h.scanStringValue
    exact ⟨hstring.1, hstring.2.weaken fun _ => trivial⟩
  split
  · exact hplain h.scanEllipses (isOrdinary_scanEllipses s)
  split
  · exact hplain h.scanNumber (isOrdinary_scanNumber s)
  split
  · rw [h.size, h.position]
    have hname := scanNameParts (s'.size - s'.position) 1 h
    cases asName with
    | true =>
      have hordinary : IsOrdinary .gName := by decide
      exact ⟨rfl, hname.2.weaken fun heq => absurd heq hordinary.1⟩
    | false =>
      have hordinary := isOrdinary_getTokenFromValue (GraphQlScanner.scanNameParts
        (s'.size - s'.position) 1 s').1 (GraphQlScanner.scanNameParts
          (s'.size - s'.position) 1 s').2.getValue
      simp only [Bool.false_eq_true, if_false]
      rw [hname.1, hname.2.getValue]
      exact ⟨rfl, hname.2.weaken fun heq => absurd heq hordinary.1⟩
  · exact hplain ⟨rfl, h⟩ (by simp [IsOrdinary])

theorem takeNextTokenLoop (asName skipWhiteSpace : Bool) (fuel : Nat) {s s' : GraphQlScanner}
    (h : SameText literal s s') :
    (GraphQlScanner.takeNextTokenLoop asName skipWhiteSpace fuel s).1 =
        (GraphQlScanner.takeNextTokenLoop asName skipWhiteSpace fuel s').1 ∧
      SameText ((GraphQlScanner.takeNextTokenLoop asName skipWhiteSpace fuel s).1 = .gStringValue)
        (GraphQlScanner.takeNextTokenLoop asName skipWhiteSpace fuel s).2
        (GraphQlScanner.takeNextTokenLoop asName skipWhiteSpace fuel s').2 := by
  induction fuel generalizing s s' with
  | zero => exact ⟨rfl, h.weaken fun heq => absurd heq (by simp [GraphQlScanner.takeNextTokenLoop])⟩
  | succ fuel ih =>
    have hnext := h.incrementPosition
    have hwhite : ∀ {t t' : GraphQlScanner}, SameText literal t t' →
        (GraphQlToken.whiteSpace, t).1 = (GraphQlToken.whiteSpace, t').1 ∧
          SameText ((GraphQlToken.whiteSpace, t).1 = .gStringValue) t t' :=
      fun ht => ⟨rfl, ht.weaken fun heq => absurd heq (by simp)⟩
    simp only [GraphQlScanner.takeNextTokenLoop, h.position, h.size, h.currentChar]
    split
    · split
      · split
        · exact hwhite hnext.recordLine
        · exact ih hnext.recordLine.startAfterLineBreak
      split
      · split
        · exact hwhite hnext.skipLineFeed.recordLine
        · exact ih hnext.skipLineFeed.recordLine.startAfterLineBreak
      split
      · split
        · exact hwhite hnext
        · exact ih hnext.startAfterSeparator
      split
      · have hcomment := hnext.startAfterSeparator
        rw [hcomment.size, hcomment.position]
        exact ih (skipComment _ hcomment)
      · exact hnext.scanToken asName s'.currentChar
    · exact ⟨rfl, h.weaken fun heq => absurd heq (by simp)⟩

end SameText

/-- The two scanners stand at the same place of the same text. -/
def SamePlace (s s' : GraphQlScanner) : Prop := s.source = s'.source ∧ s.position = s'.position

theorem SamePlace.takeNextToken {s s' : GraphQlScanner} (h : SamePlace s s')
    (asName skipWhiteSpace : Bool) :
    (s.takeNextToken asName skipWhiteSpace).1 = (s'.takeNextToken asName skipWhiteSpace).1 ∧
      SameText ((s.takeNextToken asName skipWhiteSpace).1 = .gStringValue)
        (s.takeNextToken asName skipWhiteSpace).2 (s'.takeNextToken asName skipWhiteSpace).2 := by
  have hstart : SameText False s.setTokenStartPosition s'.setTokenStartPosition :=
    ⟨h.1, h.2, h.2, fun hfalse => absurd hfalse id⟩
  have hleft : s.size - s.position = s'.size - s'.position := by
    simp only [GraphQlScanner.size, h.1, h.2]
  unfold GraphQlScanner.takeNextToken
  rw [hleft]
  exact hstart.takeNextTokenLoop asName skipWhiteSpace _

/-! ## Lexemes -/

end GraphQlScanner

/-- A token of the text as every caller may read it: as a keyword or as a name, with its text, the
string it stands for, and whether it follows what was read without trivia between. -/
structure Lexeme where
  token : GraphQlToken
  asName : GraphQlToken
  value : Ustring
  string : Ustring := []
  tight : Bool := true
deriving DecidableEq, Repr

/-- The token a caller gets that treats keywords as names, or not. -/
def Lexeme.tokenIn (treatKeywordAsName : Bool) (l : Lexeme) : GraphQlToken :=
  if treatKeywordAsName then l.asName else l.token

namespace GraphQlScanner

/-- The next lexeme. -/
def lexeme (s : GraphQlScanner) : Lexeme where
  token := (s.takeNextToken false true).1
  asName := (s.takeNextToken true true).1
  value := (s.takeNextToken false true).2.getValue
  string :=
    if (s.takeNextToken false true).1 = .gStringValue then
      (s.takeNextToken false true).2.getStringValue
    else []
  tight := (s.takeNextToken false false).1 ≠ .whiteSpace

/-- The scanner after the next lexeme. -/
def afterLexeme (s : GraphQlScanner) : GraphQlScanner := (s.takeNextToken false true).2

def lexemesFrom : Nat → GraphQlScanner → List Lexeme
  | 0, _ => []
  | fuel + 1, s =>
    if s.lexeme.token = .endOfDocument then [] else s.lexeme :: lexemesFrom fuel s.afterLexeme

/-- The lexemes that are left: each takes a character. -/
def rest (s : GraphQlScanner) : List Lexeme := lexemesFrom s.left s

theorem lexeme_token_eq_end {s : GraphQlScanner} (h : s.left = 0) :
    s.lexeme.token = .endOfDocument := by
  by_cases hend : s.lexeme.token = .endOfDocument
  · exact hend
  · have hlt := left_takeNextToken_lt hend
    omega

theorem lexemesFrom_eq {fuel fuel' : Nat} {s : GraphQlScanner} (h : s.left ≤ fuel)
    (h' : s.left ≤ fuel') : lexemesFrom fuel s = lexemesFrom fuel' s := by
  induction fuel generalizing fuel' s with
  | zero =>
    have hend := lexeme_token_eq_end (Nat.le_zero.1 h)
    cases fuel' with
    | zero => rfl
    | succ fuel' => simp only [lexemesFrom, hend, if_true]
  | succ fuel ih =>
    by_cases hend : s.lexeme.token = .endOfDocument
    · cases fuel' with
      | zero => simp only [lexemesFrom, hend, if_true]
      | succ fuel' => simp only [lexemesFrom, hend, if_true]
    · have hlt : s.afterLexeme.left < s.left := left_takeNextToken_lt hend
      cases fuel' with
      | zero => omega
      | succ fuel' =>
        simp only [lexemesFrom, hend, if_false]
        rw [ih (by omega) (by omega : s.afterLexeme.left ≤ fuel')]

theorem rest_of_end {s : GraphQlScanner} (h : s.lexeme.token = .endOfDocument) : s.rest = [] := by
  unfold rest
  cases s.left with
  | zero => rfl
  | succ n => simp only [lexemesFrom, h, if_true]

theorem rest_of_ne_end {s : GraphQlScanner} (h : s.lexeme.token ≠ .endOfDocument) :
    s.rest = s.lexeme :: s.afterLexeme.rest := by
  have hlt : s.afterLexeme.left < s.left := left_takeNextToken_lt h
  unfold rest
  obtain ⟨n, hn⟩ := Nat.exists_eq_succ_of_ne_zero (Nat.ne_of_gt (Nat.zero_lt_of_lt hlt))
  rw [hn]
  simp only [lexemesFrom, h, if_false]
  rw [lexemesFrom_eq (by omega) (Nat.le_refl s.afterLexeme.left)]

/-- The end of the document is met where nothing is left. -/
theorem takeNextTokenLoop_left {treatKeywordAsName : Bool} (fuel : Nat) (s : GraphQlScanner)
    (hfuel : s.left ≤ fuel)
    (h : (takeNextTokenLoop treatKeywordAsName true fuel s).1 = .endOfDocument) :
    (takeNextTokenLoop treatKeywordAsName true fuel s).2.left = 0 := by
  induction fuel generalizing s with
  | zero => exact Nat.le_zero.1 hfuel
  | succ fuel ih =>
    by_cases hlt : s.position < s.size
    case neg =>
      simp only [takeNextTokenLoop, hlt, if_false]
      simp only [left]
      omega
    have hadvance : ∀ {t : GraphQlScanner}, Advances s.incrementPosition t → t.left ≤ fuel := by
      intro t ht
      have hle := ht.left_le
      have hinc : s.incrementPosition.left + 1 = s.left := by
        simp only [left, incrementPosition, GraphQlScanner.size] at hlt ⊢
        omega
      omega
    simp only [takeNextTokenLoop, hlt, if_true, Bool.true_eq_false, if_false] at h ⊢
    revert h
    split
    · exact ih _ (hadvance ((scans_recordLine _).trans (scans_startAfterLineBreak _)).toAdvances)
    split
    · exact ih _ (hadvance (((scans_skipLineFeed _).trans (scans_recordLine _)).trans
        (scans_startAfterLineBreak _)).toAdvances)
    split
    · exact ih _ (hadvance (scans_startAfterSeparator _).toAdvances)
    split
    · exact ih _ (hadvance ((scans_startAfterSeparator _).trans (scans_skipComment _ _)).toAdvances)
    · exact fun h => absurd h (scanToken_ne_endOfDocument _ _ _)

theorem rest_of_left {s : GraphQlScanner} (h : s.left = 0) : s.rest = [] :=
  rest_of_end (lexeme_token_eq_end h)

theorem left_takeNextToken_of_end {treatKeywordAsName : Bool} {s : GraphQlScanner}
    (h : (s.takeNextToken treatKeywordAsName true).1 = .endOfDocument) :
    (s.takeNextToken treatKeywordAsName true).2.left = 0 :=
  takeNextTokenLoop_left _ _ (Nat.le_refl _) h

/-! ## The lexemes depend on the place only -/

theorem SameText.samePlace {literal : Prop} {s s' : GraphQlScanner} (h : SameText literal s s') :
    SamePlace s s' := ⟨h.source, h.position⟩

namespace SamePlace

variable {s s' : GraphQlScanner} (h : SamePlace s s')
include h

theorem left : s.left = s'.left := by
  simp only [GraphQlScanner.left, GraphQlScanner.size, h.1, h.2]

theorem afterLexeme : SamePlace s.afterLexeme s'.afterLexeme := (h.takeNextToken false true).2.samePlace

theorem lexeme : s.lexeme = s'.lexeme := by
  obtain ⟨htoken, htext⟩ := h.takeNextToken false true
  have htight := (h.takeNextToken false false).1
  have hname := (h.takeNextToken true true).1
  simp only [GraphQlScanner.lexeme, Lexeme.mk.injEq, htoken, hname, htight, htext.getValue, true_and,
    and_true]
  split
  · next hstring => exact htext.string (htoken.trans hstring)
  · rfl

theorem rest : s.rest = s'.rest := by
  unfold GraphQlScanner.rest
  rw [h.left]
  generalize s'.left = fuel
  induction fuel generalizing s s' with
  | zero => rfl
  | succ fuel ih =>
    simp only [lexemesFrom, h.lexeme]
    split
    · rfl
    · rw [ih h.afterLexeme]

end SamePlace

/-! ## Taking a lexeme -/

/-- The answer of a reader: the first lexeme in the mode of the reader, or the end. -/
theorem takeNextToken_eq (s : GraphQlScanner) (asName : Bool) :
    s.takeNextToken asName true = (s.lexeme.tokenIn asName, s.afterLexeme) := by
  cases asName with
  | false => rfl
  | true => exact Prod.ext rfl (s.twoModes_takeNextToken true).scanner

/-- The two readings of the first lexeme. -/
theorem lexeme_modes (s : GraphQlScanner) :
    (s.lexeme.asName = s.lexeme.token ∨ s.lexeme.asName = .gName ∧ isWord s.lexeme.token = true) ∧
      (s.lexeme.token = .gName → s.lexeme.asName = .gName) :=
  ⟨(s.twoModes_takeNextToken true).token, (s.twoModes_takeNextToken true).name⟩

/-- A reader meets the end of the document in both modes. -/
theorem tokenIn_eq_end {s : GraphQlScanner} {asName : Bool} :
    s.lexeme.tokenIn asName = .endOfDocument ↔ s.lexeme.token = .endOfDocument := by
  cases asName with
  | false => rfl
  | true =>
    obtain ⟨hmodes, -⟩ := s.lexeme_modes
    rcases hmodes with heq | ⟨heq, hword⟩
    · exact heq ▸ Iff.rfl
    · constructor
      · intro hend
        exact absurd (heq.symm.trans hend) (by decide)
      · exact fun hend => absurd hend (isOrdinary_of_isWord hword).2.1

/-- A token other than the end of the document is the first lexeme, and the others are left. -/
theorem rest_of_tokenIn_ne {s : GraphQlScanner} {asName : Bool}
    (h : s.lexeme.tokenIn asName ≠ .endOfDocument) : s.rest = s.lexeme :: s.afterLexeme.rest :=
  rest_of_ne_end fun hend => h (tokenIn_eq_end.2 hend)

/-- At the end of the document nothing is left, before and after. -/
theorem rest_of_tokenIn_end {s : GraphQlScanner} {asName : Bool}
    (h : s.lexeme.tokenIn asName = .endOfDocument) : s.rest = [] ∧ s.afterLexeme.rest = [] := by
  have hend := tokenIn_eq_end.1 h
  exact ⟨rest_of_end hend, rest_of_left (left_takeNextToken_of_end (s := s) hend)⟩

theorem takeNextTokenLoop_of_tight {asName : Bool} (fuel : Nat) (s : GraphQlScanner)
    (h : (takeNextTokenLoop asName false fuel s).1 ≠ .whiteSpace) :
    takeNextTokenLoop asName false fuel s = takeNextTokenLoop asName true fuel s := by
  induction fuel generalizing s with
  | zero => rfl
  | succ fuel ih =>
    simp only [takeNextTokenLoop, if_true] at h ⊢
    revert h
    split
    · split
      · exact fun h => absurd rfl h
      split
      · exact fun h => absurd rfl h
      split
      · exact fun h => absurd rfl h
      split
      · exact ih _
      · exact fun _ => rfl
    · exact fun _ => rfl

/-- A reader that does not pass over trivia gets the first lexeme where none stands before it. -/
theorem takeNextToken_of_tight {s : GraphQlScanner} {asName : Bool}
    (h : (s.takeNextToken asName false).1 ≠ .whiteSpace) :
    s.takeNextToken asName false = (s.lexeme.tokenIn asName, s.afterLexeme) := by
  rw [← takeNextToken_eq]
  exact takeNextTokenLoop_of_tight _ _ h

theorem whiteSpace_iff_not_tight (s : GraphQlScanner) (asName : Bool) :
    (s.takeNextToken asName false).1 = .whiteSpace ↔ s.lexeme.tight = false := by
  have hplain : s.lexeme.tight = false ↔ (s.takeNextToken false false).1 = .whiteSpace := by
    simp only [lexeme, decide_eq_false_iff_not, ne_eq, Decidable.not_not]
  rw [hplain]
  cases asName with
  | false => rfl
  | true =>
    rcases (s.twoModes_takeNextToken false).token with heq | ⟨heq, hword⟩
    · exact heq ▸ Iff.rfl
    · constructor
      · intro hwhite
        exact absurd (heq.symm.trans hwhite) (by decide)
      · exact fun hwhite => absurd hwhite (isOrdinary_of_isWord hword).2.2

/-! ## Taking a token that may be there -/

theorem samePlace_save (s : GraphQlScanner) : SamePlace s s.save := ⟨rfl, rfl⟩

/-- What `try_scan` answers, and where the scanner stands then. -/
theorem tryScan_eq (s : GraphQlScanner) (token : GraphQlToken) (asName : Bool) :
    s.tryScan token asName =
      if s.lexeme.tokenIn asName = token then (token, s.save.afterLexeme)
      else (s.lexeme.tokenIn asName, s.save.afterLexeme.revert) := by
  simp only [tryScan, takeNextToken_eq]
  rw [← (samePlace_save s).lexeme]

/-- A token that is found is the first lexeme. -/
theorem sameText_tryScan {s : GraphQlScanner} {token : GraphQlToken} {asName : Bool}
    (h : s.lexeme.tokenIn asName = token) :
    SameText (s.lexeme.token = .gStringValue) (s.tryScan token asName).2 s.afterLexeme := by
  rw [tryScan_eq, if_pos h]
  have hplace : SamePlace s.save s := ⟨rfl, rfl⟩
  have htext := (hplace.takeNextToken false true).2
  have hlexeme : s.save.lexeme = s.lexeme := hplace.lexeme
  exact htext.weaken fun hstring => (congrArg Lexeme.token hlexeme).trans hstring

/-- After a token that is not found the scanner stands where it stood. -/
theorem samePlace_tryScan {s : GraphQlScanner} {token : GraphQlToken} {asName : Bool}
    (h : s.lexeme.tokenIn asName ≠ token) : SamePlace s (s.tryScan token asName).2 := by
  rw [tryScan_eq, if_neg h]
  have hrevert := revert_of_scans (s.save.scans_takeNextToken false true)
  exact ⟨hrevert.1.symm, hrevert.2.symm⟩

end GraphQlScanner

end Flashpoint
