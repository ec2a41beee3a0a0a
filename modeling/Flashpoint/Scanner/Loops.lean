import Flashpoint.Library.Loop
import Flashpoint.Scanner.Progress

/-!
# The loops of the scanner end

Each loop with one turn of it as the source writes it. The measure is the number of characters
left, or one more where the loop also runs at the end of the source.
-/

namespace Flashpoint

open Library

namespace GraphQlScanner

/-! ## Turns -/

def skipCommentTurn (again : GraphQlScanner → GraphQlScanner) (s : GraphQlScanner) :
    GraphQlScanner :=
  if s.position < s.size ∧ isLineBreak s.currentChar = false then
    again s.incrementPosition.startAfterSeparator
  else s

def scanNamePartsTurn (again : Nat × GraphQlScanner → Nat × GraphQlScanner)
    (p : Nat × GraphQlScanner) : Nat × GraphQlScanner :=
  if p.2.position < p.2.size ∧ isNamePart p.2.currentChar then
    again (p.1 + 1, p.2.incrementPosition)
  else p

def scanDigitListTurn (again : GraphQlScanner → GraphQlScanner) (s : GraphQlScanner) :
    GraphQlScanner :=
  if isDigit s.currentChar then again s.incrementPosition else s

def scanStringLiteralTurn (start startLine startColumn : Nat)
    (again : Bool × GraphQlScanner → GraphQlToken × GraphQlScanner)
    (p : Bool × GraphQlScanner) : GraphQlToken × GraphQlScanner :=
  if p.2.position > p.2.size then
    scanStringLiteralLoop.finish start startLine startColumn p.1 p.2
  else if p.2.currentChar = '\\' then
    if p.2.scanEscapeSequence.1 then again (p.1, p.2.scanEscapeSequence.2)
    else (.invalidString, p.2.scanEscapeSequence.2)
  else if p.2.currentChar = '\n' ∨ p.2.currentChar = '\r' then again (true, p.2.incrementPosition)
  else if p.2.currentChar = '"' then
    scanStringLiteralLoop.finish start startLine startColumn p.1
      { p.2 with
        stringLiteral := p.2.stringLiteral ++ p.2.getTextFromLocation start p.2.position
        }.incrementPosition
  else again (p.1, p.2.incrementPosition)

def scanStringBlockTurn (again : GraphQlScanner → GraphQlToken × GraphQlScanner)
    (s : GraphQlScanner) : GraphQlToken × GraphQlScanner :=
  if s.position > s.size then (.unknown, s)
  else if s.currentChar = '"' ∧ s.position + 2 ≥ s.size then (.unknown, s)
  else if s.currentChar = '"' ∧ s.charAtPosition (s.position + 1) = '"' ∧
      s.charAtPosition (s.position + 2) = '"' then
    (.gStringValue, s.incrementPosition.incrementPosition.incrementPosition)
  else if isSourceCharacter s.currentChar then
    again { s with stringLiteral := s.stringLiteral ++ [s.currentChar] }.incrementPosition
  else again s.incrementPosition

def takeNextTokenTurn (treatKeywordAsName skipWhiteSpace : Bool)
    (again : GraphQlScanner → GraphQlToken × GraphQlScanner) (s : GraphQlScanner) :
    GraphQlToken × GraphQlScanner :=
  if s.position < s.size then
    let ch := s.currentChar
    let s := s.incrementPosition
    if ch = '\n' then
      let s := s.recordLine
      if skipWhiteSpace = false then (.whiteSpace, s) else again s.startAfterLineBreak
    else if ch = '\r' then
      let s := s.skipLineFeed.recordLine
      if skipWhiteSpace = false then (.whiteSpace, s) else again s.startAfterLineBreak
    else if isSeparator ch then
      if skipWhiteSpace = false then (.whiteSpace, s) else again s.startAfterSeparator
    else if ch = '#' then
      let s := s.startAfterSeparator
      again (skipComment (s.size - s.position) s)
    else s.scanToken treatKeywordAsName ch
  else (.endOfDocument, s)

def skipBlockTurn (again : Int × Bool × GraphQlScanner → GraphQlScanner)
    (p : Int × Bool × GraphQlScanner) : GraphQlScanner :=
  let (token, s) := p.2.2.takeNextToken false true
  if token = .endOfDocument then s
  else
    let (matchedBraces, encounteredBrace) :=
      if token = .openBrace then (p.1 + 1, true)
      else if token = .closeBrace then (p.1 - 1, true)
      else (p.1, p.2.1)
    if encounteredBrace ∧ matchedBraces ≤ 0 then s
    else again (matchedBraces, encounteredBrace, s)

def skipToTurn (tokens : List GraphQlToken)
    (again : GraphQlScanner → GraphQlToken × GraphQlScanner) (s : GraphQlScanner) :
    GraphQlToken × GraphQlScanner :=
  let (token, s) := s.save.takeNextToken false true
  if token = .endOfDocument then (token, s)
  else if token ∈ tokens then (token, s.revert)
  else again s

def scanDirectiveLocationTurn (again : GraphQlScanner → DirectiveLocation × GraphQlScanner)
    (s : GraphQlScanner) : DirectiveLocation × GraphQlScanner :=
  if s.position < s.size then
    let ch := s.currentChar
    let s := s.incrementPosition
    if ch = '\n' then again s.recordLine.startAfterLineBreak
    else if ch = '\r' then again s.skipLineFeed.recordLine.startAfterLineBreak
    else if isSeparator ch then again s.startAfterSeparator
    else if isNameStart ch then
      let (nameSize, s) := scanNameParts (s.size - s.position) 1 s
      (getDirectiveFromValue nameSize s.getValue, s)
    else again s
  else (.endOfDocument, s)

/-- A call of `search_for_line`, between two entries of the line table. -/
def searchForLineTurn (s : GraphQlScanner) (position : Nat)
    (again : Nat × Nat → Option Location) (p : Nat × Nat) : Option Location :=
  if p.2 > p.1 then
    let mid := p.1 + (p.2 - p.1) / 2
    match s.positionToLineList[mid]?, s.positionToLineList[mid + 1]? with
    | some entry, some next =>
      if position ≥ entry.position ∧ position < next.position then
        some { line := entry.line, column := position - entry.position + 1, length := 0 }
      else if position < entry.position then
        if mid = 0 then none else again (p.1, mid - 1)
      else again (mid + 1, p.2)
    | _, _ => none
  else if p.2 = p.1 then searchForLineLoop.atEntry s position p.2
  else none

/-! ## The loops end -/

/-- The characters left, and the terminator. -/
def leftWithEnd (s : GraphQlScanner) : Nat := s.size + 1 - s.position

/-- After one character the rest has less to go. -/
theorem left_lt_of_scans {s s' : GraphQlScanner} (h : Scans s.incrementPosition s')
    (hend : s.position < s.size) : s'.left < s.left := by
  have hsize : s'.size = s.size := h.size
  have hposition : s.position + 1 ≤ s'.position := h.position
  simp only [left, hsize]
  omega

theorem leftWithEnd_lt_of_scans {s s' : GraphQlScanner} (h : Scans s.incrementPosition s')
    (hend : ¬ s.position > s.size) : s'.leftWithEnd < s.leftWithEnd := by
  have hsize : s'.size = s.size := h.size
  have hposition : s.position + 1 ≤ s'.position := h.position
  simp only [leftWithEnd, hsize]
  omega

theorem not_lt_of_left_eq_zero {s : GraphQlScanner} (h : s.left = 0) : ¬ s.position < s.size := by
  simp only [left] at h
  omega

theorem ends_skipComment : Ends left skipCommentTurn fun s => skipComment s.left s := by
  refine .of_bounded (fun _ _ => rfl) (fun s f g h => ?_) fun s hs f => ?_
  · unfold skipCommentTurn
    split
    · next hgo => exact h _ (left_lt_of_scans (scans_startAfterSeparator _) hgo.1)
    · rfl
  · rw [skipCommentTurn, if_neg fun hgo => not_lt_of_left_eq_zero hs hgo.1, skipComment]

theorem ends_scanNameParts :
    Ends (fun p => p.2.left) scanNamePartsTurn fun p => scanNameParts p.2.left p.1 p.2 := by
  refine .of_bounded (F := fun n (p : Nat × GraphQlScanner) => scanNameParts n p.1 p.2)
    (fun _ _ => rfl) (fun p f g h => ?_) fun p hp f => ?_
  · unfold scanNamePartsTurn
    split
    · next hgo => exact h _ (left_lt_of_scans .rfl hgo.1)
    · rfl
  · rw [scanNamePartsTurn, if_neg fun hgo => not_lt_of_left_eq_zero hp hgo.1]
    rfl

theorem isDigit_currentChar_lt {s : GraphQlScanner} (h : isDigit s.currentChar = true) :
    s.position < s.size := by
  refine Nat.lt_of_not_le fun hle => ?_
  have hend : s.currentChar = '\x00' := by
    rw [currentChar, charAtPosition, charAt, List.getD_eq_getElem?_getD,
      List.getElem?_eq_none hle, Option.getD_none]
  rw [hend] at h
  exact absurd h (by decide)

theorem ends_scanDigitList : Ends left scanDigitListTurn scanDigitList := by
  refine .of_bounded (F := scanDigitListLoop) (fun _ _ => rfl) (fun s f g h => ?_) fun s hs f => ?_
  · unfold scanDigitListTurn
    split
    · next hgo => exact h _ (left_lt_of_scans .rfl (isDigit_currentChar_lt hgo))
    · rfl
  · rw [scanDigitListTurn, if_neg fun hgo => not_lt_of_left_eq_zero hs (isDigit_currentChar_lt hgo)]
    rfl

/-- An escape takes the backslash at least. -/
theorem scans_scanEscapeSequence_rest (s : GraphQlScanner) :
    Scans s.incrementPosition s.scanEscapeSequence.2 := by
  simp only [scanEscapeSequence]
  split
  · exact scans_incrementPosition _
  split
  · exact (scans_incrementPosition _).trans (along_scanHexadecimalEscape _ _ _ _ _).toScans
  · exact .rfl

theorem scanStringLiteralLoop_succ (start startLine startColumn fuel : Nat)
    (p : Bool × GraphQlScanner) :
    scanStringLiteralLoop start startLine startColumn (fuel + 1) p.1 p.2 =
      scanStringLiteralTurn start startLine startColumn
        (fun p => scanStringLiteralLoop start startLine startColumn fuel p.1 p.2) p := by
  rw [scanStringLiteralLoop, scanStringLiteralTurn]
  rcases h : p.2.scanEscapeSequence with ⟨_ | _, s'⟩
  · rfl
  · rfl

theorem ends_scanStringLiteral (start startLine startColumn : Nat) :
    Ends (fun p => p.2.leftWithEnd) (scanStringLiteralTurn start startLine startColumn)
      fun p => scanStringLiteralLoop start startLine startColumn p.2.leftWithEnd p.1 p.2 := by
  refine .of_bounded (F := fun n (p : Bool × GraphQlScanner) =>
      scanStringLiteralLoop start startLine startColumn n p.1 p.2)
    (scanStringLiteralLoop_succ _ _ _) (fun p f g h => ?_) fun p hp f => ?_
  · unfold scanStringLiteralTurn
    split
    · rfl
    next hend =>
    split
    · split
      · exact h _ (leftWithEnd_lt_of_scans (scans_scanEscapeSequence_rest _) hend)
      · rfl
    split
    · exact h _ (leftWithEnd_lt_of_scans .rfl hend)
    split
    · rfl
    · exact h _ (leftWithEnd_lt_of_scans .rfl hend)
  · have hend : p.2.position > p.2.size := by
      simp only [leftWithEnd] at hp
      omega
    rw [scanStringLiteralTurn, if_pos hend]
    rfl

theorem ends_scanStringBlock :
    Ends leftWithEnd scanStringBlockTurn fun s => scanStringBlockLoop s.leftWithEnd s := by
  refine .of_bounded (fun _ _ => rfl) (fun s f g h => ?_) fun s hs f => ?_
  · unfold scanStringBlockTurn
    split
    · rfl
    next hend =>
    split
    · rfl
    split
    · rfl
    split
    · refine h _ (leftWithEnd_lt_of_scans ?_ hend)
      exact ⟨⟨rfl, Nat.le_refl _⟩, rfl⟩
    · exact h _ (leftWithEnd_lt_of_scans .rfl hend)
  · have hend : s.position > s.size := by
      simp only [leftWithEnd] at hs
      omega
    rw [scanStringBlockTurn, if_pos hend]
    rfl

theorem scans_recordLine_startAfterLineBreak (s : GraphQlScanner) :
    Scans s s.recordLine.startAfterLineBreak :=
  s.scans_recordLine.trans (scans_startAfterLineBreak _)

theorem ends_takeNextToken (treatKeywordAsName skipWhiteSpace : Bool) :
    Ends left (takeNextTokenTurn treatKeywordAsName skipWhiteSpace)
      fun s => takeNextTokenLoop treatKeywordAsName skipWhiteSpace s.left s := by
  refine .of_bounded (fun _ _ => rfl) (fun s f g h => ?_) fun s hs f => ?_
  · unfold takeNextTokenTurn
    split
    · next hend =>
      simp only
      split
      · split
        · rfl
        · exact h _ (left_lt_of_scans (scans_recordLine_startAfterLineBreak _) hend)
      split
      · split
        · rfl
        · refine h _ (left_lt_of_scans ?_ hend)
          exact (scans_skipLineFeed _).trans (scans_recordLine_startAfterLineBreak _)
      split
      · split
        · rfl
        · exact h _ (left_lt_of_scans (scans_startAfterSeparator _) hend)
      split
      · refine h _ (left_lt_of_scans ?_ hend)
        exact (scans_startAfterSeparator _).trans (scans_skipComment _ _)
      · rfl
    · rfl
  · rw [takeNextTokenTurn, if_neg (not_lt_of_left_eq_zero hs)]
    rfl

theorem ends_scanDirectiveLocation :
    Ends left scanDirectiveLocationTurn fun s => scanDirectiveLocationLoop s.left s := by
  refine .of_bounded (fun _ _ => rfl) (fun s f g h => ?_) fun s hs f => ?_
  · unfold scanDirectiveLocationTurn
    split
    · next hend =>
      simp only
      split
      · exact h _ (left_lt_of_scans (scans_recordLine_startAfterLineBreak _) hend)
      split
      · refine h _ (left_lt_of_scans ?_ hend)
        exact (scans_skipLineFeed _).trans (scans_recordLine_startAfterLineBreak _)
      split
      · exact h _ (left_lt_of_scans (scans_startAfterSeparator _) hend)
      split
      · rfl
      · exact h _ (left_lt_of_scans .rfl hend)
    · rfl
  · rw [scanDirectiveLocationTurn, if_neg (not_lt_of_left_eq_zero hs)]
    rfl

/-- The brace a turn of `skip_block` takes is not given back. -/
theorem ends_skipBlock : Ends (fun p => p.2.2.left + 1) skipBlockTurn
    fun p => skipBlockLoop (p.2.2.left + 1) p.1 p.2.1 p.2.2 := by
  refine .of_bounded (F := fun n (p : Int × Bool × GraphQlScanner) =>
      skipBlockLoop n p.1 p.2.1 p.2.2) (fun _ _ => rfl) (fun p f g h => ?_)
    fun p hp => absurd hp (Nat.succ_ne_zero _)
  simp only [skipBlockTurn]
  split
  · rfl
  next htoken =>
  have hnext : ∀ q : Int × Bool,
      (if q.2 = true ∧ q.1 ≤ 0 then (p.2.2.takeNextToken false true).2
        else f (q.1, q.2, (p.2.2.takeNextToken false true).2)) =
      if q.2 = true ∧ q.1 ≤ 0 then (p.2.2.takeNextToken false true).2
        else g (q.1, q.2, (p.2.2.takeNextToken false true).2) := by
    intro q
    split
    · rfl
    · exact h _ (Nat.succ_lt_succ (left_takeNextToken_lt htoken))
  exact hnext _

/-- A token that `skip_to` looks for is given back, and the loop is left; every other is taken. -/
theorem ends_skipTo (tokens : List GraphQlToken) :
    Ends (fun s => s.left + 1) (skipToTurn tokens) fun s => s.skipTo tokens := by
  refine .of_bounded (F := skipToLoop tokens) (fun _ _ => rfl) (fun s f g h => ?_)
    fun s hs => absurd hs (Nat.succ_ne_zero _)
  simp only [skipToTurn]
  split
  · rfl
  next htoken =>
  split
  · rfl
  · exact h _ (Nat.succ_lt_succ (left_takeNextToken_lt (s := s.save) htoken))

theorem ends_searchForLine (s : GraphQlScanner) (position : Nat) :
    Ends (fun p => p.2 - p.1) (s.searchForLineTurn position)
      fun p => s.searchForLine p.1 p.2 position := by
  refine .of_bounded (F := fun n (p : Nat × Nat) => s.searchForLineLoop position n p.1 p.2)
    (fun _ _ => rfl) (fun p f g h => ?_) fun p hp f => ?_
  · unfold searchForLineTurn
    split
    · next hlt =>
      simp only
      split
      · split
        · rfl
        split
        · split
          · rfl
          · exact h _ (by simp only; omega)
        · exact h _ (by simp only; omega)
      · rfl
    · rfl
  · have hle : ¬ p.2 > p.1 := Nat.not_lt.2 (Nat.sub_eq_zero_iff_le.1 hp)
    rw [searchForLineTurn, if_neg hle]
    rfl

/-- Every loop of the scanner ends. -/
structure LoopsEnd : Prop where
  comment : Ends left skipCommentTurn fun s => skipComment s.left s
  nameParts : Ends (fun p => p.2.left) scanNamePartsTurn fun p => scanNameParts p.2.left p.1 p.2
  digits : Ends left scanDigitListTurn scanDigitList
  stringLiteral : ∀ start startLine startColumn,
    Ends (fun p => p.2.leftWithEnd) (scanStringLiteralTurn start startLine startColumn)
      fun p => scanStringLiteralLoop start startLine startColumn p.2.leftWithEnd p.1 p.2
  stringBlock : Ends leftWithEnd scanStringBlockTurn fun s => scanStringBlockLoop s.leftWithEnd s
  token : ∀ treatKeywordAsName skipWhiteSpace,
    Ends left (takeNextTokenTurn treatKeywordAsName skipWhiteSpace)
      fun s => takeNextTokenLoop treatKeywordAsName skipWhiteSpace s.left s
  directiveLocation :
    Ends left scanDirectiveLocationTurn fun s => scanDirectiveLocationLoop s.left s
  block : Ends (fun p => p.2.2.left + 1) skipBlockTurn
    fun p => skipBlockLoop (p.2.2.left + 1) p.1 p.2.1 p.2.2
  skip : ∀ tokens, Ends (fun s => s.left + 1) (skipToTurn tokens) fun s => s.skipTo tokens
  line : ∀ (s : GraphQlScanner) (position : Nat),
    Ends (fun p => p.2 - p.1) (s.searchForLineTurn position)
      fun p => s.searchForLine p.1 p.2 position

theorem loopsEnd : LoopsEnd where
  comment := ends_skipComment
  nameParts := ends_scanNameParts
  digits := ends_scanDigitList
  stringLiteral := ends_scanStringLiteral
  stringBlock := ends_scanStringBlock
  token := ends_takeNextToken
  directiveLocation := ends_scanDirectiveLocation
  block := ends_skipBlock
  skip := ends_skipTo
  line := ends_searchForLine

/-! ## Where a token starts -/

/-- Whether a character is passed over between tokens, or starts a comment. -/
def startsTrivia (ch : Char) : Bool := isLineBreak ch || isSeparator ch || ch = '#'

/-- The loop of `take_next_token`, from `s` on, meets the first character of a token at the second
state, each turn before it being one over trivia. -/
inductive Meets (skipWhiteSpace : Bool) : GraphQlScanner → GraphQlScanner → Prop where
  | here {s : GraphQlScanner} (hposition : s.position < s.size)
      (hch : startsTrivia s.currentChar = false) : Meets skipWhiteSpace s s
  | lineFeed {s s' : GraphQlScanner} (hskip : skipWhiteSpace = true) (hposition : s.position < s.size)
      (hch : s.currentChar = '\n')
      (h : Meets skipWhiteSpace s.incrementPosition.recordLine.startAfterLineBreak s') :
      Meets skipWhiteSpace s s'
  | carriageReturn {s s' : GraphQlScanner} (hskip : skipWhiteSpace = true)
      (hposition : s.position < s.size) (hch : s.currentChar = '\r')
      (h : Meets skipWhiteSpace s.incrementPosition.skipLineFeed.recordLine.startAfterLineBreak s') :
      Meets skipWhiteSpace s s'
  | separator {s s' : GraphQlScanner} (hskip : skipWhiteSpace = true)
      (hposition : s.position < s.size) (hch : isSeparator s.currentChar = true)
      (h : Meets skipWhiteSpace s.incrementPosition.startAfterSeparator s') :
      Meets skipWhiteSpace s s'
  | comment {s s' : GraphQlScanner} (hposition : s.position < s.size) (hch : s.currentChar = '#')
      (h : Meets skipWhiteSpace (skipComment (s.incrementPosition.startAfterSeparator.size -
        s.incrementPosition.startAfterSeparator.position)
        s.incrementPosition.startAfterSeparator) s') : Meets skipWhiteSpace s s'

theorem takeNextTokenLoop_of_meets {treatKeywordAsName skipWhiteSpace : Bool}
    {s s' : GraphQlScanner} (h : Meets skipWhiteSpace s s') :
    takeNextTokenLoop treatKeywordAsName skipWhiteSpace s.left s =
      s'.incrementPosition.scanToken treatKeywordAsName s'.currentChar := by
  have hturn := (ends_takeNextToken treatKeywordAsName skipWhiteSpace).turns
  induction h with
  | here hposition hch =>
    simp only [startsTrivia, isLineBreak, Bool.or_eq_false_iff, decide_eq_false_iff_not] at hch
    obtain ⟨⟨⟨hfeed, hreturn⟩, hseparator⟩, hhash⟩ := hch
    rw [hturn, takeNextTokenTurn]
    simp only [hposition, if_true, hfeed, hreturn, hseparator, hhash, if_false, Bool.false_eq_true]
  | lineFeed hskip hposition hch _ ih =>
    rw [hturn, takeNextTokenTurn, ← ih]
    simp only [hposition, hch, if_true, hskip, Bool.true_eq_false, if_false]
  | carriageReturn hskip hposition hch _ ih =>
    have hfeed : '\r' ≠ '\n' := by decide
    rw [hturn, takeNextTokenTurn, ← ih]
    simp only [hposition, hch, if_true, hskip, Bool.true_eq_false, if_false, hfeed]
  | separator hskip hposition hch _ ih =>
    have hbreak : ∀ ch, isSeparator ch = true → ch ≠ '\n' ∧ ch ≠ '\r' := by
      intro ch hseparator
      constructor <;> rintro rfl <;> exact absurd hseparator (by decide)
    obtain ⟨hfeed, hreturn⟩ := hbreak _ hch
    rw [hturn, takeNextTokenTurn, ← ih]
    simp only [hposition, hch, if_true, hskip, Bool.true_eq_false, if_false, hfeed, hreturn]
  | comment hposition hch _ ih =>
    have hother : '#' ≠ '\n' ∧ '#' ≠ '\r' ∧ isSeparator '#' = false := by decide
    rw [hturn, takeNextTokenTurn, ← ih]
    simp only [hposition, hch, if_true, hother.1, hother.2.1, hother.2.2, if_false,
      Bool.false_eq_true]

/-- A call of `take_next_token` gives the token that starts where it meets one. -/
theorem takeNextToken_of_meets {treatKeywordAsName skipWhiteSpace : Bool} {s s' : GraphQlScanner}
    (h : Meets skipWhiteSpace s.setTokenStartPosition s') :
    s.takeNextToken treatKeywordAsName skipWhiteSpace =
      s'.incrementPosition.scanToken treatKeywordAsName s'.currentChar :=
  takeNextTokenLoop_of_meets h

theorem position_lt_size_of_meets {skipWhiteSpace : Bool} {s s' : GraphQlScanner}
    (h : Meets skipWhiteSpace s s') : s'.position < s'.size := by
  induction h with
  | here hposition _ => exact hposition
  | lineFeed _ _ _ _ ih => exact ih
  | carriageReturn _ _ _ _ ih => exact ih
  | separator _ _ _ _ ih => exact ih
  | comment _ _ _ ih => exact ih

end GraphQlScanner

end Flashpoint
