import Flashpoint.Library.Traced
import Flashpoint.Scanner.Locations
import Flashpoint.Scanner.Loops

/-!
# The indices the scanner reads

The operations of the scanner with every index at which they read `source`, in the order of the source
code: a character that is read twice is there twice, and a comparison that is not reached reads nothing.
They do what the scanner does (`answer_runs`). Only the character after a carriage return can lie behind
the terminator: it is looked at one further on than the character that follows, so a source that ends
with a carriage return is read beyond its end (`indicesRead_le_iff`). The texts of tokens are taken by
`substr`, which goes no further than the source.
-/

namespace Flashpoint

open Library Traced

namespace GraphQlScanner

/-- What an operation answers and does, with the indices at which it reads the source. -/
abbrev SourceReads (α : Type) : Type := Traced GraphQlScanner Nat α

namespace SourceReads

/-! ## Characters -/

def readChar (p : Nat) : SourceReads Char := do
  touch p
  let s ← get
  return s.charAtPosition p

def currentChar : SourceReads Char := do
  let s ← get
  readChar s.position

def increment : SourceReads Unit := modify incrementPosition

def skipLineFeed : SourceReads Unit := do
  let s ← get
  let ch ← readChar (s.position + 1)
  if ch = '\n' then increment else pure ()

def skipComment : Nat → SourceReads Unit
  | 0 => pure ()
  | fuel + 1 => do
    let s ← get
    if s.position < s.size then do
      let ch ← currentChar
      if isLineBreak ch = false then do
        modify fun s => s.incrementPosition.startAfterSeparator
        skipComment fuel
      else pure ()
    else pure ()

/-! ## Names and numbers -/

def scanNameParts : Nat → Nat → SourceReads Nat
  | 0, count => pure count
  | fuel + 1, count => do
    let s ← get
    if s.position < s.size then do
      let ch ← currentChar
      if isNamePart ch then do
        increment
        scanNameParts fuel (count + 1)
      else pure count
    else pure count

def scanDigitListLoop : Nat → SourceReads Unit
  | 0 => do
    -- the terminator is read and is no digit
    let _ ← currentChar
    pure ()
  | fuel + 1 => do
    let ch ← currentChar
    if isDigit ch then do
      increment
      scanDigitListLoop fuel
    else pure ()

def scanDigitList : SourceReads Unit := do
  let s ← get
  scanDigitListLoop (s.size - s.position)

/-- A minus sign is read again. -/
def rereadMinus (ch : Char) : SourceReads Char := if ch = '-' then currentChar else pure ch

def scanIntegerPart : SourceReads GraphQlToken := do
  let ch ← currentChar
  let ch ← rereadMinus ch
  if ch = '0' then do
    increment
    let ch ← currentChar
    if isDigit ch then pure .unknown else pure .integerLiteral
  else if isDigit ch = false then pure .unknown
  else do
    scanDigitList
    pure .integerLiteral

/-- A sign is passed, and the character behind it read. -/
def passSign (ch : Char) : SourceReads Char :=
  if ch = '-' ∨ ch = '+' then do
    increment
    currentChar
  else pure ch

def scanExponent : SourceReads GraphQlToken := do
  increment
  let ch ← currentChar
  let ch ← passSign ch
  if isDigit ch = false then pure .unknown
  else do
    increment
    scanDigitList
    pure .floatLiteral

def scanNumber : SourceReads GraphQlToken := do
  let _ ← scanIntegerPart
  let ch ← currentChar
  if ch = '.' then do
    increment
    let ch ← currentChar
    if isDigit ch = false then pure .unknown
    else do
      increment
      scanDigitList
      let ch ← currentChar
      if ch ≠ 'e' ∧ ch ≠ 'E' then pure .floatLiteral else scanExponent
  else if ch = 'e' ∨ ch = 'E' then scanExponent
  else pure .integerLiteral

/-! ## Strings and ellipses -/

def scanHexadecimalEscape (startPosition startLine startColumn : Nat) : Nat → SourceReads Bool
  | 0 => do
    -- the character after the fourth digit is read before the digits are counted
    let _ ← currentChar
    pure true
  | n + 1 => do
    let ch ← currentChar
    if isHexadecimal ch then do
      increment
      scanHexadecimalEscape startPosition startLine startColumn n
    else do
      modify fun s => s.pushError .invalidUnicodeEscapeSequence startPosition startLine startColumn
      increment
      pure false

def scanEscapeSequence : SourceReads Bool := do
  let s ← get
  increment
  let ch ← currentChar
  if ch ∈ ['"', '\\', '/', 'b', 'f', 'n', 'r', 't'] then do
    increment
    pure true
  else if ch = 'u' then do
    increment
    scanHexadecimalEscape s.position s.line s.column 4
  else pure true

def scanStringLiteralLoop (start startLine startColumn : Nat) : Nat → Bool → SourceReads GraphQlToken
  | 0, isTruncated =>
    silently (GraphQlScanner.scanStringLiteralLoop.finish start startLine startColumn isTruncated)
  | fuel + 1, isTruncated => do
    let s ← get
    if s.position > s.size then
      silently (GraphQlScanner.scanStringLiteralLoop.finish start startLine startColumn isTruncated)
    else do
      let ch ← currentChar
      if ch = '\\' then do
        let valid ← scanEscapeSequence
        if valid then scanStringLiteralLoop start startLine startColumn fuel isTruncated
        else pure .invalidString
      else if ch = '\n' ∨ ch = '\r' then do
        increment
        scanStringLiteralLoop start startLine startColumn fuel true
      else if ch = '"' then do
        modify fun s =>
          { s with stringLiteral := s.stringLiteral ++ s.getTextFromLocation start s.position }
        increment
        silently (GraphQlScanner.scanStringLiteralLoop.finish start startLine startColumn isTruncated)
      else do
        increment
        scanStringLiteralLoop start startLine startColumn fuel isTruncated

def scanStringLiteral : SourceReads GraphQlToken := do
  let s ← get
  modify fun s => { s with stringLiteral := [] }
  scanStringLiteralLoop s.position s.line s.column (s.size + 1 - s.position) false

/-- The character is kept if it may stand in a source, and passed. -/
def passBlockCharacter (ch : Char) : SourceReads Unit :=
  if isSourceCharacter ch then
    modify fun s => { s with stringLiteral := s.stringLiteral ++ [ch] }.incrementPosition
  else increment

def scanStringBlockLoop : Nat → SourceReads GraphQlToken
  | 0 => pure .unknown
  | fuel + 1 => do
    let s ← get
    if s.position > s.size then pure .unknown
    else do
      let ch ← currentChar
      if ch = '"' then
        if s.position + 2 ≥ s.size then pure .unknown
        else do
          let second ← readChar (s.position + 1)
          if second = '"' then do
            let third ← readChar (s.position + 2)
            if third = '"' then do
              increment
              increment
              increment
              pure .gStringValue
            else do
              passBlockCharacter ch
              scanStringBlockLoop fuel
          else do
            passBlockCharacter ch
            scanStringBlockLoop fuel
      else do
        passBlockCharacter ch
        scanStringBlockLoop fuel

def scanStringBlockAfterDoubleQuotes : SourceReads GraphQlToken := do
  let s ← get
  modify fun s => { s with stringLiteral := [] }
  scanStringBlockLoop (s.size + 1 - s.position)

def scanStringValue : SourceReads GraphQlToken := do
  let s ← get
  let ch ← currentChar
  if ch = '"' then do
    let next ← readChar (s.position + 1)
    if next = '"' then do
      increment
      increment
      scanStringBlockAfterDoubleQuotes
    else scanStringLiteral
  else scanStringLiteral

def scanEllipsesAfterFirstDot : SourceReads GraphQlToken := do
  let ch ← currentChar
  if ch ≠ '.' then pure .unknown
  else do
    increment
    let ch ← currentChar
    if ch ≠ '.' then pure .unknown
    else do
      increment
      pure .ellipses

/-! ## Tokens -/

def scanToken (treatKeywordAsName : Bool) (ch : Char) : SourceReads GraphQlToken :=
  match punctuation ch with
  | some token => pure token
  | none =>
    if ch = '"' then scanStringValue
    else if ch = '.' then scanEllipsesAfterFirstDot
    else if ch = '-' ∨ isDigit ch then scanNumber
    else if isNameStart ch then do
      let s ← get
      let nameSize ← scanNameParts (s.size - s.position) 1
      let s ← get
      if treatKeywordAsName then pure .gName else pure (getTokenFromValue nameSize s.getValue)
    else pure .unknown

def takeNextTokenLoop (treatKeywordAsName skipWhiteSpace : Bool) : Nat → SourceReads GraphQlToken
  | 0 => pure .endOfDocument
  | fuel + 1 => do
    let s ← get
    if s.position < s.size then do
      let ch ← currentChar
      increment
      if ch = '\n' then do
        modify recordLine
        if skipWhiteSpace = false then pure .whiteSpace
        else do
          modify startAfterLineBreak
          takeNextTokenLoop treatKeywordAsName skipWhiteSpace fuel
      else if ch = '\r' then do
        skipLineFeed
        modify recordLine
        if skipWhiteSpace = false then pure .whiteSpace
        else do
          modify startAfterLineBreak
          takeNextTokenLoop treatKeywordAsName skipWhiteSpace fuel
      else if isSeparator ch then
        if skipWhiteSpace = false then pure .whiteSpace
        else do
          modify startAfterSeparator
          takeNextTokenLoop treatKeywordAsName skipWhiteSpace fuel
      else if ch = '#' then do
        modify startAfterSeparator
        let s ← get
        skipComment (s.size - s.position)
        takeNextTokenLoop treatKeywordAsName skipWhiteSpace fuel
      else scanToken treatKeywordAsName ch
    else pure .endOfDocument

def takeNextToken (treatKeywordAsName skipWhiteSpace : Bool) : SourceReads GraphQlToken := do
  let s ← get
  modify setTokenStartPosition
  takeNextTokenLoop treatKeywordAsName skipWhiteSpace (s.size - s.position)

def tryScan (token : GraphQlToken) (treatKeywordAsName : Bool) : SourceReads GraphQlToken := do
  modify save
  let result ← takeNextToken treatKeywordAsName true
  if result = token then pure token
  else do
    modify revert
    pure result

def peekNextToken : SourceReads GraphQlToken := do
  modify save
  let token ← takeNextToken false true
  modify revert
  pure token

def skipBlockLoop : Nat → Int → Bool → SourceReads Unit
  | 0, _, _ => pure ()
  | fuel + 1, matchedBraces, encounteredBrace => do
    let token ← takeNextToken false true
    if token = .endOfDocument then pure ()
    else
      let (matchedBraces, encounteredBrace) :=
        if token = .openBrace then (matchedBraces + 1, true)
        else if token = .closeBrace then (matchedBraces - 1, true)
        else (matchedBraces, encounteredBrace)
      if encounteredBrace ∧ matchedBraces ≤ 0 then pure ()
      else skipBlockLoop fuel matchedBraces encounteredBrace

def skipBlock : SourceReads Unit := do
  let s ← get
  skipBlockLoop (s.size - s.position + 1) 0 false

def skipToLoop (tokens : List GraphQlToken) : Nat → SourceReads GraphQlToken
  | 0 => pure .endOfDocument
  | fuel + 1 => do
    modify save
    let token ← takeNextToken false true
    if token = .endOfDocument then pure token
    else if token ∈ tokens then do
      modify revert
      pure token
    else skipToLoop tokens fuel

def skipTo (tokens : List GraphQlToken) : SourceReads GraphQlToken := do
  let s ← get
  skipToLoop tokens (s.size - s.position + 1)

def scanDirectiveLocationLoop : Nat → SourceReads DirectiveLocation
  | 0 => pure .endOfDocument
  | fuel + 1 => do
    let s ← get
    if s.position < s.size then do
      let ch ← currentChar
      increment
      if ch = '\n' then do
        modify fun s => s.recordLine.startAfterLineBreak
        scanDirectiveLocationLoop fuel
      else if ch = '\r' then do
        skipLineFeed
        modify fun s => s.recordLine.startAfterLineBreak
        scanDirectiveLocationLoop fuel
      else if isSeparator ch then do
        modify startAfterSeparator
        scanDirectiveLocationLoop fuel
      else if isNameStart ch then do
        let s ← get
        let nameSize ← scanNameParts (s.size - s.position) 1
        let s ← get
        pure (getDirectiveFromValue nameSize s.getValue)
      else scanDirectiveLocationLoop fuel
    else pure .endOfDocument

def scanDirectiveLocation : SourceReads DirectiveLocation := do
  let s ← get
  modify setTokenStartPosition
  scanDirectiveLocationLoop (s.size - s.position)

end SourceReads

/-! ## Operations -/

/-- A call of a scanner, or its cursor saved or taken back. -/
inductive ScannerOperation where
  | call (c : ScannerCall)
  | save
  | revert
deriving DecidableEq, Repr

namespace ScannerOperation

def apply (s : GraphQlScanner) : ScannerOperation → GraphQlScanner
  | call c => c.apply s
  | save => s.save
  | revert => s.revert

def reads : ScannerOperation → SourceReads Unit
  | call (.takeNextToken treatKeywordAsName skipWhiteSpace) => do
    let _ ← SourceReads.takeNextToken treatKeywordAsName skipWhiteSpace
    pure ()
  | call (.tryScan token treatKeywordAsName) => do
    let _ ← SourceReads.tryScan token treatKeywordAsName
    pure ()
  | call .peekNextToken => do
    let _ ← SourceReads.peekNextToken
    pure ()
  | call (.skipTo tokens) => do
    let _ ← SourceReads.skipTo tokens
    pure ()
  | call .skipBlock => SourceReads.skipBlock
  | call .scanDirectiveLocation => do
    let _ ← SourceReads.scanDirectiveLocation
    pure ()
  | save => modify GraphQlScanner.save
  | revert => modify GraphQlScanner.revert

end ScannerOperation

/-- The scanner after a sequence of operations. -/
def afterOperations (s : GraphQlScanner) (operations : List ScannerOperation) : GraphQlScanner :=
  operations.foldl (fun s operation => operation.apply s) s

def runs : List ScannerOperation → SourceReads Unit
  | [] => pure ()
  | operation :: operations => do
    operation.reads
    runs operations

/-- Every index at which a sequence of operations reads a source. -/
def indicesRead (source : Ustring) (operations : List ScannerOperation) : List Nat :=
  (runs operations { source }).2

theorem ScannerOperation.source_apply (s : GraphQlScanner) (operation : ScannerOperation) :
    (operation.apply s).source = s.source := by
  cases operation with
  | call c =>
    cases c with
    | takeNextToken => exact (s.scans_takeNextToken _ _).source
    | tryScan => exact (s.advances_tryScan _ _).source
    | peekNextToken => exact (advances_revert (s.save.scans_takeNextToken false true)).source
    | skipTo => exact (s.advances_skipTo _).source
    | skipBlock => exact s.advances_skipBlock.source
    | scanDirectiveLocation => exact s.scans_scanDirectiveLocation.source
  | save => rfl
  | revert =>
    show s.revert.source = s.source
    rw [GraphQlScanner.revert]
    split <;> rfl

/-! ## Inside the source -/

/-- A character other than the terminator stands before the end. -/
theorem position_lt_of_ne {s : GraphQlScanner} (h : s.currentChar ≠ '\x00') : s.position < s.size := by
  refine Nat.lt_of_not_le fun hle => h ?_
  rw [GraphQlScanner.currentChar, charAtPosition, charAt, List.getD_eq_getElem?_getD,
    List.getElem?_eq_none hle, Option.getD_none]

theorem position_lt_of_eq {s : GraphQlScanner} {ch : Char} (h : s.currentChar = ch)
    (hch : ch ≠ '\x00') : s.position < s.size := position_lt_of_ne (h ▸ hch)

theorem position_lt_of_isDigit {s : GraphQlScanner} (h : isDigit s.currentChar = true) :
    s.position < s.size := by
  apply position_lt_of_ne
  intro hend
  rw [hend] at h
  exact absurd h (by decide)

theorem position_scanDigitListLoop (fuel : Nat) {s : GraphQlScanner} (h : s.position ≤ s.size) :
    (scanDigitListLoop fuel s).position ≤ s.size := by
  induction fuel generalizing s with
  | zero => exact h
  | succ fuel ih =>
    rw [scanDigitListLoop]
    split
    · next hdigit => exact ih (s := s.incrementPosition) (position_lt_of_isDigit hdigit)
    · exact h

theorem position_scanDigitList {s : GraphQlScanner} (h : s.position ≤ s.size) :
    s.scanDigitList.position ≤ s.size := position_scanDigitListLoop _ h

theorem position_scanIntegerPart {s : GraphQlScanner} (h : s.position ≤ s.size) :
    s.scanIntegerPart.2.position ≤ s.size := by
  rw [scanIntegerPart]
  split
  · next hzero =>
    have hlt := position_lt_of_eq hzero (by decide)
    simp only
    split <;> exact hlt
  split
  · exact h
  · exact position_scanDigitList h

namespace SourceReads

section Computes

variable {ok : Nat → Prop} {n : Nat} (hok : ∀ i, i ≤ n → ok i) {s : GraphQlScanner}

theorem computes_readChar {p : Nat} (h : ok p) :
    Computes ok (readChar p) s (s.charAtPosition p, s) := .bind (.touch h) (.bind .get (.pure _))

theorem computes_currentChar (h : ok s.position) :
    Computes ok currentChar s (s.currentChar, s) := .bind .get (computes_readChar h)

theorem computes_increment : Computes ok increment s ((), s.incrementPosition) := .modify _

theorem computes_skipLineFeed (h : ok (s.position + 1)) :
    Computes ok skipLineFeed s ((), s.skipLineFeed) :=
  .bind .get (.bind (computes_readChar h)
    (.iteUnit (fun _ => computes_increment) fun _ => .pure _))

include hok

theorem computes_skipComment (fuel : Nat) {s : GraphQlScanner} (hn : s.size = n) :
    Computes ok (skipComment fuel) s ((), GraphQlScanner.skipComment fuel s) := by
  induction fuel generalizing s with
  | zero => exact .pure _
  | succ fuel ih =>
    rw [GraphQlScanner.skipComment, ite_and]
    refine .bind .get (.iteUnit (fun hlt => ?_) fun _ => .pure _)
    have hread : ok s.position := hok _ (hn ▸ Nat.le_of_lt hlt)
    refine .bind (computes_currentChar hread) (.iteUnit (fun _ => ?_) fun _ => .pure _)
    exact .bind (.modify _) (ih hn)

theorem computes_scanNameParts (fuel count : Nat) {s : GraphQlScanner} (hn : s.size = n) :
    Computes ok (scanNameParts fuel count) s (GraphQlScanner.scanNameParts fuel count s) := by
  induction fuel generalizing s count with
  | zero => exact .pure _
  | succ fuel ih =>
    rw [GraphQlScanner.scanNameParts, ite_and]
    refine .bind .get (.ite (fun hlt => ?_) fun _ => .pure _)
    have hread : ok s.position := hok _ (hn ▸ Nat.le_of_lt hlt)
    refine .bind (computes_currentChar hread) (.ite (fun _ => ?_) fun _ => .pure _)
    exact .bind computes_increment (ih _ hn)

/-! ### Numbers -/

theorem computes_scanDigitListLoop (fuel : Nat) {s : GraphQlScanner} (hn : s.size = n)
    (h : s.position ≤ n) :
    Computes ok (scanDigitListLoop fuel) s ((), GraphQlScanner.scanDigitListLoop fuel s) := by
  induction fuel generalizing s with
  | zero => exact .bind (computes_currentChar (hok _ h)) (.pure _)
  | succ fuel ih =>
    rw [GraphQlScanner.scanDigitListLoop]
    refine .bind (computes_currentChar (hok _ h)) (.iteUnit (fun hdigit => ?_) fun _ => .pure _)
    exact .bind computes_increment (ih hn (hn ▸ position_lt_of_isDigit hdigit))

theorem computes_scanDigitList (hn : s.size = n) (h : s.position ≤ n) :
    Computes ok scanDigitList s ((), s.scanDigitList) :=
  .bind .get (computes_scanDigitListLoop hok _ hn h)

theorem computes_scanIntegerPart (hn : s.size = n) (h : s.position ≤ n) :
    Computes ok scanIntegerPart s s.scanIntegerPart := by
  have hread := computes_currentChar (hok _ h)
  have hagain : Computes ok (rereadMinus s.currentChar) s (s.currentChar, s) := by
    rw [rereadMinus]
    split
    · exact hread
    · exact .pure _
  rw [GraphQlScanner.scanIntegerPart]
  refine .bind hread (.bind hagain (.ite (fun hzero => ?_) fun _ => .ite (fun _ => .pure _) fun _ => ?_))
  · have hnext : s.incrementPosition.position ≤ n := hn ▸ position_lt_of_eq hzero (by decide)
    refine .bind computes_increment (.bind (computes_currentChar (hok _ hnext)) ?_)
    exact .ite (fun _ => .pure _) fun _ => .pure _
  · exact .bind (computes_scanDigitList hok hn h) (.pure _)

theorem computes_scanExponent (hn : s.size = n) (h : s.position < n) :
    Computes ok scanExponent s s.scanExponent := by
  have hread := computes_currentChar (s := s.incrementPosition) (hok _ h)
  have hsign : ∃ t : GraphQlScanner, t = (if s.incrementPosition.currentChar = '-' ∨
        s.incrementPosition.currentChar = '+' then s.incrementPosition.incrementPosition
      else s.incrementPosition) ∧ t.size = n ∧
      Computes ok (passSign s.incrementPosition.currentChar) s.incrementPosition (t.currentChar, t) := by
    rw [passSign]
    split
    · next hsign =>
      have hlt : s.incrementPosition.position < n := by
        rw [← hn]
        rcases hsign with heq | heq
        · exact position_lt_of_eq heq (by decide)
        · exact position_lt_of_eq heq (by decide)
      exact ⟨_, rfl, hn, .bind computes_increment (computes_currentChar (hok _ hlt))⟩
    · exact ⟨_, rfl, hn, .pure _⟩
  obtain ⟨t, ht, htn, hcomputes⟩ := hsign
  simp only [GraphQlScanner.scanExponent, ← ht]
  refine .bind computes_increment (.bind hread (.bind hcomputes (.ite (fun _ => .pure _) fun hdigit => ?_)))
  have hlt : t.position < n := htn ▸ position_lt_of_isDigit (by simpa using hdigit)
  exact .bind computes_increment (.bind (computes_scanDigitList hok htn hlt) (.pure _))

theorem computes_scanNumber (hn : s.size = n) (h : s.position ≤ n) :
    Computes ok scanNumber s s.scanNumber := by
  have hint := along_scanIntegerPart s
  have hintn : s.scanIntegerPart.2.size = n := hint.size.trans hn
  have hintp : s.scanIntegerPart.2.position ≤ n := hn ▸ position_scanIntegerPart (hn ▸ h)
  simp only [GraphQlScanner.scanNumber]
  refine .bind (computes_scanIntegerPart hok hn h) (.bind (computes_currentChar (hok _ hintp)) ?_)
  refine .ite (fun hdot => ?_) fun _ => .ite (fun hexponent => ?_) fun _ => .pure _
  · have hdotp : s.scanIntegerPart.2.incrementPosition.position ≤ n :=
      hintn ▸ position_lt_of_eq hdot (by decide)
    refine .bind computes_increment (.bind (computes_currentChar (hok _ hdotp)) ?_)
    refine .ite (fun _ => .pure _) fun hdigit => ?_
    have hlt : s.scanIntegerPart.2.incrementPosition.position < n :=
      hintn ▸ position_lt_of_isDigit (s := s.scanIntegerPart.2.incrementPosition) (by simpa using hdigit)
    have hfractionp := position_scanDigitList
      (s := s.scanIntegerPart.2.incrementPosition.incrementPosition) (hintn.symm ▸ hlt)
    have hfractionn := (along_scanDigitList
      s.scanIntegerPart.2.incrementPosition.incrementPosition).size.trans hintn
    refine .bind computes_increment (.bind (computes_scanDigitList hok hintn hlt) ?_)
    refine .bind (computes_currentChar (hok _ (hintn ▸ hfractionp))) (.ite (fun _ => .pure _) fun he => ?_)
    refine computes_scanExponent hok hfractionn (hfractionn ▸ position_lt_of_ne fun hend => he ?_)
    simp [hend]
  · refine computes_scanExponent hok hintn (hintn ▸ position_lt_of_ne fun hend => ?_)
    simp [hend] at hexponent

/-! ### Strings and ellipses -/

theorem computes_scanHexadecimalEscape (p l c digits : Nat) {s : GraphQlScanner} (hn : s.size = n)
    (h : s.position ≤ n) :
    Computes ok (scanHexadecimalEscape p l c digits) s
      (GraphQlScanner.scanHexadecimalEscape p l c digits s) := by
  induction digits generalizing s with
  | zero => exact .bind (computes_currentChar (hok _ h)) (.pure _)
  | succ digits ih =>
    rw [GraphQlScanner.scanHexadecimalEscape]
    refine .bind (computes_currentChar (hok _ h)) (.ite (fun hdigit => ?_) fun _ => ?_)
    · have hlt : s.position < n := by
        refine hn ▸ position_lt_of_ne fun hend => ?_
        simp only [hend] at hdigit
        exact absurd hdigit (by decide)
      exact .bind computes_increment (ih hn hlt)
    · exact .bind (.modify _) (.bind computes_increment (.pure _))

theorem computes_scanEscapeSequence (hn : s.size = n) (h : s.position < n) :
    Computes ok scanEscapeSequence s s.scanEscapeSequence := by
  simp only [GraphQlScanner.scanEscapeSequence]
  refine .bind .get (.bind computes_increment (.bind (computes_currentChar (hok _ h)) ?_))
  refine .ite (fun _ => .bind computes_increment (.pure _)) fun _ => .ite (fun hu => ?_) fun _ => .pure _
  have hlt : s.incrementPosition.position < n :=
    hn ▸ position_lt_of_eq (s := s.incrementPosition) hu (by decide)
  exact .bind computes_increment (computes_scanHexadecimalEscape hok _ _ _ _ hn hlt)

theorem computes_scanStringLiteralLoop (start startLine startColumn fuel : Nat) (isTruncated : Bool)
    {s : GraphQlScanner} (hn : s.size = n) :
    Computes ok (scanStringLiteralLoop start startLine startColumn fuel isTruncated) s
      (GraphQlScanner.scanStringLiteralLoop start startLine startColumn fuel isTruncated s) := by
  induction fuel generalizing s isTruncated with
  | zero => exact .silently _
  | succ fuel ih =>
    rw [GraphQlScanner.scanStringLiteralLoop]
    refine .bind .get (.ite (fun _ => .silently _) fun hinside => ?_)
    have hread : ok s.position := hok _ (hn ▸ Nat.le_of_not_lt hinside)
    refine .bind (computes_currentChar hread) (.ite (fun hslash => ?_) fun _ =>
      .ite (fun _ => .bind computes_increment (ih _ hn)) fun _ =>
        .ite (fun _ => ?_) fun _ => .bind computes_increment (ih _ hn))
    · have hescape := computes_scanEscapeSequence hok hn (hn ▸ position_lt_of_eq hslash (by decide))
      have hsize := (along_scanEscapeSequence s).size.trans hn
      revert hescape hsize
      rcases s.scanEscapeSequence with ⟨valid, t⟩
      intro hescape hsize
      cases valid with
      | true => exact .bind hescape (ih _ hsize)
      | false => exact .bind hescape (.pure _)
    · exact .bind (.modify _) (.bind computes_increment (.silently _))

theorem computes_scanStringLiteral (hn : s.size = n) :
    Computes ok scanStringLiteral s s.scanStringLiteral :=
  .bind .get (.bind (.modify _) (computes_scanStringLiteralLoop hok _ _ _ _ _ hn))

theorem computes_scanStringBlockLoop (fuel : Nat) {s : GraphQlScanner} (hn : s.size = n) :
    Computes ok (scanStringBlockLoop fuel) s (GraphQlScanner.scanStringBlockLoop fuel s) := by
  induction fuel generalizing s with
  | zero => exact .pure _
  | succ fuel ih =>
    have hnext : Computes ok (do passBlockCharacter s.currentChar; scanStringBlockLoop fuel) s
        (if isSourceCharacter s.currentChar then GraphQlScanner.scanStringBlockLoop fuel
            { s with stringLiteral := s.stringLiteral ++ [s.currentChar] }.incrementPosition
          else GraphQlScanner.scanStringBlockLoop fuel s.incrementPosition) := by
      unfold passBlockCharacter
      split
      · exact .bind (.modify _) (ih hn)
      · exact .bind computes_increment (ih hn)
    rw [GraphQlScanner.scanStringBlockLoop]
    refine .bind .get (.ite (fun _ => .pure _) fun hinside => ?_)
    have hread : ok s.position := hok _ (hn ▸ Nat.le_of_not_lt hinside)
    refine .bind (computes_currentChar hread) ?_
    by_cases hquote : s.currentChar = '"'
    case neg =>
      simp only [hquote, false_and, if_false]
      exact hnext
    simp only [hquote, true_and, if_true]
    rw [hquote] at hnext
    refine .ite (fun _ => .pure _) fun hfar => ?_
    -- two characters follow the quote
    have hsecond : ok (s.position + 1) := hok _ (by omega)
    have hthird : ok (s.position + 2) := hok _ (by omega)
    refine .bind (computes_readChar hsecond) ?_
    rw [ite_and]
    refine .ite (fun _ => ?_) fun _ => hnext
    refine .bind (computes_readChar hthird) (.ite (fun _ => ?_) fun _ => hnext)
    exact .bind computes_increment (.bind computes_increment (.bind computes_increment (.pure _)))

theorem computes_scanStringValue (hn : s.size = n) (h : s.position ≤ n) :
    Computes ok scanStringValue s s.scanStringValue := by
  rw [GraphQlScanner.scanStringValue, ite_and]
  refine .bind .get (.bind (computes_currentChar (hok _ h)) ?_)
  refine .ite (fun hquote => ?_) fun _ => computes_scanStringLiteral hok hn
  have hlt : s.position < n := hn ▸ position_lt_of_eq hquote (by decide)
  refine .bind (computes_readChar (hok _ hlt)) (.ite (fun _ => ?_) fun _ => computes_scanStringLiteral hok hn)
  refine .bind computes_increment (.bind computes_increment ?_)
  exact .bind .get (.bind (.modify _) (computes_scanStringBlockLoop hok _ hn))

theorem computes_scanEllipses (hn : s.size = n) (h : s.position ≤ n) :
    Computes ok scanEllipsesAfterFirstDot s s.scanEllipsesAfterFirstDot := by
  rw [GraphQlScanner.scanEllipsesAfterFirstDot]
  refine .bind (computes_currentChar (hok _ h)) (.ite (fun _ => .pure _) fun hdot => ?_)
  have hlt : s.position < n := hn ▸ position_lt_of_eq (Decidable.not_not.1 hdot) (by decide)
  refine .bind computes_increment (.bind (computes_currentChar (hok _ hlt)) ?_)
  exact .ite (fun _ => .pure _) fun _ => .bind computes_increment (.pure _)

/-! ### Tokens -/

theorem computes_scanToken (hn : s.size = n) (h : s.position ≤ n) (treatKeywordAsName : Bool)
    (ch : Char) : Computes ok (scanToken treatKeywordAsName ch) s (s.scanToken treatKeywordAsName ch) := by
  rw [scanToken, GraphQlScanner.scanToken]
  cases punctuation ch with
  | some token => exact .pure _
  | none =>
    simp only
    refine .ite (fun _ => computes_scanStringValue hok hn h) fun _ => ?_
    refine .ite (fun _ => computes_scanEllipses hok hn h) fun _ => ?_
    refine .ite (fun _ => computes_scanNumber hok hn h) fun _ => ?_
    refine .ite (fun _ => ?_) fun _ => .pure _
    refine .bind .get (.bind (computes_scanNameParts hok _ _ hn) (.bind .get ?_))
    exact .ite (fun _ => .pure _) fun _ => .pure _

end Computes

section Tokens

variable {ok : Nat → Prop} {n : Nat} (hok : ∀ i, i ≤ n → ok i) {source : Ustring}
  (hlength : source.length = n) (hreturn : ok (n + 1) ∨ source.getLast? ≠ some '\r')
include hok hlength hreturn

/-- The character one further on than the one that follows a carriage return. -/
theorem ok_after_carriageReturn {s : GraphQlScanner} (hs : s.source = source)
    (hlt : s.position < s.size) (hch : s.currentChar = '\r') : ok (s.position + 2) := by
  have hn : s.size = n := by rw [← hlength, ← hs]; rfl
  by_cases hend : s.position + 1 = n
  · -- the carriage return is the last character
    have hfar : s.position + 2 = n + 1 := by omega
    refine hreturn.elim (fun h => hfar ▸ h) fun hlast => absurd ?_ hlast
    have hget : source[s.position]? = some '\r' := by
      have hlt' : s.position < source.length := by omega
      rw [GraphQlScanner.currentChar, charAtPosition, charAt, hs, List.getD_eq_getElem?_getD,
        List.getElem?_eq_getElem hlt', Option.getD_some] at hch
      rw [List.getElem?_eq_getElem hlt', hch]
    rw [List.getLast?_eq_getElem?, hlength, ← hend]
    exact hget
  · exact hok _ (by omega)

theorem computes_takeNextTokenLoop (treatKeywordAsName skipWhiteSpace : Bool) (fuel : Nat)
    {s : GraphQlScanner} (hs : s.source = source) :
    Computes ok (takeNextTokenLoop treatKeywordAsName skipWhiteSpace fuel) s
      (GraphQlScanner.takeNextTokenLoop treatKeywordAsName skipWhiteSpace fuel s) := by
  induction fuel generalizing s with
  | zero => exact .pure _
  | succ fuel ih =>
    have hn : s.size = n := by rw [← hlength, ← hs]; rfl
    simp only [GraphQlScanner.takeNextTokenLoop]
    refine .bind .get (.ite (fun hlt => ?_) fun _ => .pure _)
    have hread : ok s.position := hok _ (hn ▸ Nat.le_of_lt hlt)
    refine .bind (computes_currentChar hread) (.bind computes_increment ?_)
    refine .ite (fun _ => ?_) fun _ => .ite (fun hch => ?_) fun _ => .ite (fun _ => ?_) fun _ =>
      .ite (fun _ => ?_) fun _ => ?_
    · refine .bind (.modify _) (.ite (fun _ => .pure _) fun _ => ?_)
      exact .bind (.modify _) (ih hs)
    · have hfar := ok_after_carriageReturn hok hlength hreturn hs hlt hch
      refine .bind (computes_skipLineFeed hfar) (.bind (.modify _) (.ite (fun _ => .pure _) fun _ => ?_))
      exact .bind (.modify _) (ih ((scans_skipLineFeed _).source.trans hs))
    · exact .ite (fun _ => .pure _) fun _ => .bind (.modify _) (ih hs)
    · refine .bind (.modify _) (.bind .get (.bind (computes_skipComment hok _ hn) ?_))
      exact ih ((scans_skipComment _ _).source.trans hs)
    · exact computes_scanToken hok (s := s.incrementPosition) hn (hn ▸ hlt) _ _

theorem computes_takeNextToken (treatKeywordAsName skipWhiteSpace : Bool) {s : GraphQlScanner}
    (hs : s.source = source) :
    Computes ok (takeNextToken treatKeywordAsName skipWhiteSpace) s
      (s.takeNextToken treatKeywordAsName skipWhiteSpace) :=
  .bind .get (.bind (.modify _) (computes_takeNextTokenLoop hok hlength hreturn _ _ _ hs))

theorem computes_tryScan (token : GraphQlToken) (treatKeywordAsName : Bool) {s : GraphQlScanner}
    (hs : s.source = source) :
    Computes ok (tryScan token treatKeywordAsName) s (s.tryScan token treatKeywordAsName) := by
  simp only [GraphQlScanner.tryScan]
  refine .bind (.modify _) (.bind (computes_takeNextToken hok hlength hreturn _ _ (s := s.save) hs) ?_)
  exact .ite (fun _ => .pure _) fun _ => .bind (.modify _) (.pure _)

theorem computes_peekNextToken {s : GraphQlScanner} (hs : s.source = source) :
    Computes ok peekNextToken s s.peekNextToken :=
  .bind (.modify _) (.bind (computes_takeNextToken hok hlength hreturn _ _ (s := s.save) hs)
    (.bind (.modify _) (.pure _)))

theorem computes_skipBlockLoop (fuel : Nat) (matchedBraces : Int) (encounteredBrace : Bool)
    {s : GraphQlScanner} (hs : s.source = source) :
    Computes ok (skipBlockLoop fuel matchedBraces encounteredBrace) s
      ((), GraphQlScanner.skipBlockLoop fuel matchedBraces encounteredBrace s) := by
  induction fuel generalizing s matchedBraces encounteredBrace with
  | zero => exact .pure _
  | succ fuel ih =>
    have htake := computes_takeNextToken hok hlength hreturn false true hs
    simp only [GraphQlScanner.skipBlockLoop]
    refine .bind htake (.iteUnit (fun _ => .pure _) fun _ => .iteUnit (fun _ => .pure _) fun _ => ?_)
    exact ih _ _ ((s.scans_takeNextToken false true).source.trans hs)

theorem computes_skipToLoop (tokens : List GraphQlToken) (fuel : Nat) {s : GraphQlScanner}
    (hs : s.source = source) :
    Computes ok (skipToLoop tokens fuel) s (GraphQlScanner.skipToLoop tokens fuel s) := by
  induction fuel generalizing s with
  | zero => exact .pure _
  | succ fuel ih =>
    have htake := computes_takeNextToken hok hlength hreturn false true (s := s.save) hs
    simp only [GraphQlScanner.skipToLoop]
    refine .bind (.modify _) (.bind htake (.ite (fun _ => .pure _) fun _ => .ite (fun _ => ?_) fun _ => ?_))
    · exact .bind (.modify _) (.pure _)
    · exact ih ((s.save.scans_takeNextToken false true).source.trans hs)

theorem computes_scanDirectiveLocationLoop (fuel : Nat) {s : GraphQlScanner} (hs : s.source = source) :
    Computes ok (scanDirectiveLocationLoop fuel) s (GraphQlScanner.scanDirectiveLocationLoop fuel s) := by
  induction fuel generalizing s with
  | zero => exact .pure _
  | succ fuel ih =>
    have hn : s.size = n := by rw [← hlength, ← hs]; rfl
    simp only [GraphQlScanner.scanDirectiveLocationLoop]
    refine .bind .get (.ite (fun hlt => ?_) fun _ => .pure _)
    have hread : ok s.position := hok _ (hn ▸ Nat.le_of_lt hlt)
    refine .bind (computes_currentChar hread) (.bind computes_increment ?_)
    refine .ite (fun _ => .bind (.modify _) (ih hs)) fun _ => .ite (fun hch => ?_) fun _ =>
      .ite (fun _ => .bind (.modify _) (ih hs)) fun _ => .ite (fun _ => ?_) fun _ => ih hs
    · have hfar := ok_after_carriageReturn hok hlength hreturn hs hlt hch
      refine .bind (computes_skipLineFeed hfar) (.bind (.modify _) ?_)
      exact ih ((scans_skipLineFeed _).source.trans hs)
    · exact .bind .get (.bind (computes_scanNameParts hok _ _ hn) (.bind .get (.pure _)))

theorem computes_operation (operation : ScannerOperation) {s : GraphQlScanner} (hs : s.source = source) :
    Computes ok operation.reads s ((), operation.apply s) := by
  cases operation with
  | call c =>
    cases c with
    | takeNextToken => exact .bind (computes_takeNextToken hok hlength hreturn _ _ hs) (.pure _)
    | tryScan => exact .bind (computes_tryScan hok hlength hreturn _ _ hs) (.pure _)
    | peekNextToken => exact .bind (computes_peekNextToken hok hlength hreturn hs) (.pure _)
    | skipTo =>
      exact .bind (.bind .get (computes_skipToLoop hok hlength hreturn _ _ hs)) (.pure _)
    | skipBlock => exact .bind .get (computes_skipBlockLoop hok hlength hreturn _ _ _ hs)
    | scanDirectiveLocation =>
      refine .bind (.bind .get (.bind (.modify _) ?_)) (.pure _)
      exact computes_scanDirectiveLocationLoop hok hlength hreturn _ (s := s.setTokenStartPosition) hs
  | save => exact .modify _
  | revert => exact .modify _

theorem computes_runs (operations : List ScannerOperation) {s : GraphQlScanner}
    (hs : s.source = source) :
    Computes ok (runs operations) s ((), s.afterOperations operations) := by
  induction operations generalizing s with
  | nil => exact .pure _
  | cons operation operations ih =>
    exact .bind (computes_operation hok hlength hreturn operation hs)
      (ih ((operation.source_apply s).trans hs))

end Tokens

/-- **The traced operations do what the scanner does.** -/
theorem answer_runs (operations : List ScannerOperation) (s : GraphQlScanner) :
    (runs operations s).1 = ((), s.afterOperations operations) := by
  have hruns : Computes (fun _ => True) (runs operations) s ((), s.afterOperations operations) :=
    computes_runs (fun _ _ => trivial) rfl (.inl trivial) operations rfl
  exact hruns.answer

theorem answer_operation (operation : ScannerOperation) (s : GraphQlScanner) :
    (operation.reads s).1 = ((), operation.apply s) := by
  have hreads : Computes (fun _ => True) operation.reads s ((), operation.apply s) :=
    computes_operation (fun _ _ => trivial) rfl (.inl trivial) operation rfl
  exact hreads.answer

/-! ## A carriage return at the end -/

section Beyond

variable {source : Ustring} (hlast : source.getLast? = some '\r')
include hlast

/-- A character other than a carriage return is not the last one. -/
theorem succ_lt_of_ne {s : GraphQlScanner} (hs : s.source = source) (hlt : s.position < s.size)
    (hch : s.currentChar ≠ '\r') : s.position + 1 < s.size := by
  have hlength : s.size = source.length := by rw [← hs]; rfl
  refine Nat.lt_of_le_of_ne hlt fun hend => hch ?_
  have hget : source[s.position]? = some '\r' := by
    rw [List.getLast?_eq_getElem?, ← hlength, ← hend] at hlast
    exact hlast
  rw [GraphQlScanner.currentChar, charAtPosition, charAt, hs, List.getD_eq_getElem?_getD, hget,
    Option.getD_some]

theorem position_scanNameParts (fuel count : Nat) {s : GraphQlScanner} (hs : s.source = source)
    (hlt : s.position < s.size) : (GraphQlScanner.scanNameParts fuel count s).2.position < s.size := by
  induction fuel generalizing s count with
  | zero => exact hlt
  | succ fuel ih =>
    rw [GraphQlScanner.scanNameParts]
    split
    · next hpart =>
      have hnext : s.position + 1 < s.size := by
        apply succ_lt_of_ne hlast hs hlt
        intro hreturn
        rw [hreturn] at hpart
        exact absurd hpart.2 (by decide)
      exact ih (count + 1) (s := s.incrementPosition) hs hnext
    · exact hlt

omit hlast in
theorem position_skipLineFeed {s : GraphQlScanner} (hlt : s.position < s.size) :
    s.skipLineFeed.position < s.size := by
  rw [GraphQlScanner.skipLineFeed]
  split
  · next hfeed =>
    exact position_lt_of_eq (s := s.incrementPosition) hfeed (by decide)
  · exact hlt

/-- The loop meets the last character, or leaves it ahead and takes a token. -/
theorem beyond_scanDirectiveLocationLoop (fuel : Nat) {s : GraphQlScanner} (hs : s.source = source)
    (hfuel : s.left ≤ fuel) (hlt : s.position < s.size) :
    source.length + 1 ∈ (scanDirectiveLocationLoop fuel s).2 ∨
      s.position < (GraphQlScanner.scanDirectiveLocationLoop fuel s).2.position ∧
      (GraphQlScanner.scanDirectiveLocationLoop fuel s).2.position < s.size := by
  induction fuel generalizing s with
  | zero =>
    have hleft : s.left = 0 := Nat.le_zero.1 hfuel
    exact absurd hlt (not_lt_of_left_eq_zero hleft)
  | succ fuel ih =>
    have hlength : s.size = source.length := by rw [← hs]; rfl
    -- going round again from a state that has passed the character
    have hagain : ∀ {t : GraphQlScanner}, t.source = source → s.position < t.position →
        t.position < s.size → source.length + 1 ∈ (scanDirectiveLocationLoop fuel t).2 ∨
          s.position < (GraphQlScanner.scanDirectiveLocationLoop fuel t).2.position ∧
          (GraphQlScanner.scanDirectiveLocationLoop fuel t).2.position < s.size := by
      intro t ht hst htlt
      have hsize : t.size = s.size := by rw [hlength, ← ht]; rfl
      have hleft : t.left ≤ fuel := by
        simp only [left, hsize] at hfuel ⊢
        omega
      refine (ih ht hleft (hsize ▸ htlt)).imp id fun hpassed => ?_
      exact ⟨Nat.lt_trans hst hpassed.1, hsize ▸ hpassed.2⟩
    -- what is read behind the character is read
    have hfirst : ∀ {k : Char → SourceReads DirectiveLocation},
        (scanDirectiveLocationLoop (fuel + 1) = do
          let s ← get
          if s.position < s.size then do
            let ch ← currentChar
            increment
            k ch
          else Pure.pure .endOfDocument) →
        ∀ {i}, i ∈ (k s.currentChar s.incrementPosition).2 → i ∈ (scanDirectiveLocationLoop (fuel + 1) s).2 := by
      intro k heq i hi
      rw [heq]
      refine mem_bind_right (r := (s, s)) rfl ?_
      rw [if_pos hlt]
      refine mem_bind_right (r := (s.currentChar, s)) rfl ?_
      exact mem_bind_right (r := ((), s.incrementPosition)) rfl hi
    have hfirst := fun {i} => hfirst rfl (i := i)
    have hnext : s.currentChar ≠ '\r' → s.position + 1 < s.size := succ_lt_of_ne hlast hs hlt
    simp only [GraphQlScanner.scanDirectiveLocationLoop, hlt, if_true]
    by_cases hfeed : s.currentChar = '\n'
    · have hgo := hagain (t := s.incrementPosition.recordLine.startAfterLineBreak) hs
        (Nat.lt_succ_self _) (hnext (by rw [hfeed]; decide))
      rw [if_pos hfeed]
      refine hgo.imp (fun hread => hfirst ?_) id
      rw [if_pos hfeed]
      exact mem_bind_right (r := ((), _)) rfl hread
    by_cases hreturn : s.currentChar = '\r'
    · rw [if_neg hfeed, if_pos hreturn]
      by_cases hend : s.position + 1 = s.size
      · -- the carriage return is the last character
        refine .inl (hfirst ?_)
        rw [if_neg hfeed, if_pos hreturn, ← hlength, ← hend]
        apply mem_bind_left
        apply mem_bind_right (r := (s.incrementPosition, s.incrementPosition)) rfl
        apply mem_bind_left
        exact mem_bind_left _ (List.mem_singleton_self _)
      · have hlt' : s.incrementPosition.position < s.incrementPosition.size :=
          Nat.lt_of_le_of_ne hlt hend
        have hskip : Computes (fun _ => True) skipLineFeed s.incrementPosition
            ((), s.incrementPosition.skipLineFeed) := computes_skipLineFeed trivial
        have hgo := hagain (t := s.incrementPosition.skipLineFeed.recordLine.startAfterLineBreak)
          ((scans_skipLineFeed _).source.trans hs)
          (Nat.lt_of_succ_le (scans_skipLineFeed s.incrementPosition).position)
          (position_skipLineFeed hlt')
        refine hgo.imp (fun hread => hfirst ?_) id
        rw [if_neg hfeed, if_pos hreturn]
        refine mem_bind_right hskip.answer ?_
        exact mem_bind_right (r := ((), _)) rfl hread
    by_cases hseparator : isSeparator s.currentChar = true
    · have hgo := hagain (t := s.incrementPosition.startAfterSeparator) hs (Nat.lt_succ_self _)
        (hnext hreturn)
      rw [if_neg hfeed, if_neg hreturn, if_pos hseparator]
      refine hgo.imp (fun hread => hfirst ?_) id
      rw [if_neg hfeed, if_neg hreturn, if_pos hseparator]
      exact mem_bind_right (r := ((), _)) rfl hread
    by_cases hname : isNameStart s.currentChar = true
    · rw [if_neg hfeed, if_neg hreturn, if_neg hseparator, if_pos hname]
      refine .inr ⟨?_, position_scanNameParts hlast _ _ (s := s.incrementPosition) hs (hnext hreturn)⟩
      exact (along_scanNameParts _ 1 s.incrementPosition).position
    · have hgo := hagain (t := s.incrementPosition) hs (Nat.lt_succ_self _) (hnext hreturn)
      rw [if_neg hfeed, if_neg hreturn, if_neg hseparator, if_neg hname]
      refine hgo.imp (fun hread => hfirst ?_) id
      rw [if_neg hfeed, if_neg hreturn, if_neg hseparator, if_neg hname]
      exact hread

theorem exists_beyond {s : GraphQlScanner} (hs : s.source = source) (hlt : s.position < s.size) :
    ∃ operations, source.length + 1 ∈ (runs operations s).2 := by
  induction hn : s.left using Nat.strongRecOn generalizing s with
  | ind n ih =>
    subst hn
    have hcall := answer_operation (.call .scanDirectiveLocation) s
    rcases beyond_scanDirectiveLocationLoop hlast s.left (s := s.setTokenStartPosition) hs
      (Nat.le_refl _) hlt with hread | ⟨hfirst, hsecond⟩
    · refine ⟨[.call .scanDirectiveLocation], mem_bind_left _ (mem_bind_left _ ?_)⟩
      apply mem_bind_right (r := (s, s)) rfl
      exact mem_bind_right (r := ((), _)) rfl hread
    · -- the call leaves less of the source
      have hfirst : s.position < s.scanDirectiveLocation.2.position := hfirst
      have hsource := s.scans_scanDirectiveLocation.source
      have hsize := s.scans_scanDirectiveLocation.size
      have hsecond : s.scanDirectiveLocation.2.position < s.scanDirectiveLocation.2.size := by
        rw [hsize]
        exact hsecond
      have hless : s.scanDirectiveLocation.2.left < s.left := by
        simp only [left, hsize]
        omega
      obtain ⟨operations, hread⟩ := ih _ hless (hsource.trans hs) hsecond rfl
      exact ⟨.call .scanDirectiveLocation :: operations, mem_bind_right hcall hread⟩

end Beyond

end SourceReads

open SourceReads in
/-- **The scanner reads beyond the terminator of the sources that end with a carriage return, and of no
others.** -/
theorem indicesRead_le_iff (source : Ustring) :
    (∀ operations, ∀ i ∈ indicesRead source operations, i ≤ source.length) ↔
      source.getLast? ≠ some '\r' := by
  constructor
  · intro hinside hlast
    have hlt : ({ source } : GraphQlScanner).position < ({ source } : GraphQlScanner).size := by
      apply List.length_pos_iff.2
      rintro rfl
      cases hlast
    obtain ⟨operations, hread⟩ := exists_beyond hlast (s := { source }) rfl hlt
    exact absurd (hinside operations _ hread) (Nat.not_succ_le_self _)
  · intro hlast operations
    have hruns : Computes (· ≤ source.length) (runs operations) { source }
        ((), ({ source } : GraphQlScanner).afterOperations operations) :=
      computes_runs (fun _ hi => hi) rfl (.inr hlast) operations rfl
    exact hruns.inside

/-- A carriage return, and nothing else. -/
theorem not_indicesRead_le_of_carriageReturn :
    ¬ ∀ operations, ∀ i ∈ indicesRead ['\r'] operations, i ≤ ['\r'].length := by
  intro h
  have hread : 2 ∈ indicesRead ['\r'] [.call (.takeNextToken false true)] := by decide
  exact absurd (h _ 2 hread) (by decide)

end GraphQlScanner

end Flashpoint
