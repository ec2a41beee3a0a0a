import Flashpoint.Scanner.Token

/-!
# The scanner

The state of `GraphQlScanner` and its operations. Positions index the code points of the source;
the character read at `size` is the terminator. The loops of the source run until the text is
used up: each takes the number of characters left as its bound, so the bound is reached exactly
when the loop of the source ends by itself.
-/

namespace Flashpoint

/-- What `save` keeps of the scanner. -/
structure SavedTextCursor where
  position : Nat
  line : Nat
  column : Nat
  startPosition : Nat
  startLine : Nat
  startColumn : Nat
deriving DecidableEq, Repr

/-- The position after a line break, and the line that starts there. -/
structure PositionToLine where
  position : Nat
  line : Nat
deriving DecidableEq, Repr

/-- The state of the scanner. -/
structure GraphQlScanner where
  source : Ustring
  startPosition : Nat := 0
  position : Nat := 0
  line : Nat := 1
  startLine : Nat := 1
  startColumn : Nat := 1
  column : Nat := 1
  positionToLineList : List PositionToLine := [⟨0, 1⟩]
  errors : List DiagnosticMessage := []
  stringLiteral : Ustring := []
  savedTextCursors : List SavedTextCursor := []
deriving DecidableEq, Repr

namespace GraphQlScanner

/-! ## Characters -/

def isLineBreak (ch : Char) : Bool := ch = '\n' || ch = '\r'

def isDigit (ch : Char) : Bool := '0' ≤ ch && ch ≤ '9'

def isNameStart (ch : Char) : Bool :=
  ('A' ≤ ch && ch ≤ 'Z') || ('a' ≤ ch && ch ≤ 'z') || ch = '_'

def isNamePart (ch : Char) : Bool :=
  ('a' ≤ ch && ch ≤ 'z') || ('A' ≤ ch && ch ≤ 'Z') || ('0' ≤ ch && ch ≤ '9') || ch = '_'

def isHexadecimal (ch : Char) : Bool :=
  ('0' ≤ ch && ch ≤ '9') || ('a' ≤ ch && ch ≤ 'f') || ('A' ≤ ch && ch ≤ 'F')

/-- The characters a block string keeps: line breaks, tabs, and `Space` up to `End`. -/
def isSourceCharacter (ch : Char) : Bool :=
  ch = '\n' || ch = '\r' || ch = '\t' || (' ' ≤ ch && ch.toNat ≤ 0xFFFF)

/-- Byte-order mark, space and comma separate tokens. -/
def isSeparator (ch : Char) : Bool := ch = '\ufeff' || ch = ' ' || ch = ','

/-- The tokens that are one character. -/
def punctuation : Char → Option GraphQlToken
  | '&' => some .ampersand
  | '(' => some .openParen
  | ')' => some .closeParen
  | '[' => some .openBracket
  | ']' => some .closeBracket
  | '\x7b' => some .openBrace
  | '\x7d' => some .closeBrace
  | ':' => some .colon
  | '!' => some .exclamation
  | '@' => some .atSign
  | '|' => some .pipe
  | '=' => some .equal
  | _ => none

/-! ## The cursor -/

variable (s : GraphQlScanner)

def size : Nat := s.source.length

def charAtPosition (p : Nat) : Char := charAt s.source p

def currentChar : Char := s.charAtPosition s.position

def incrementPosition : GraphQlScanner :=
  { s with column := s.column + 1, position := s.position + 1 }

def setTokenStartPosition : GraphQlScanner :=
  { s with startPosition := s.position, startColumn := s.column }

def length : Nat := s.position - s.startPosition

/-- The text of the token. -/
def getValue : Ustring := (s.source.drop s.startPosition).take s.length

def getStringValue : Ustring := s.stringLiteral

def getTextFromLocation (start stop : Nat) : Ustring := (s.source.drop start).take (stop - start)

def save : GraphQlScanner :=
  { s with savedTextCursors :=
      { position := s.position, line := s.line, column := s.column,
        startPosition := s.startPosition, startLine := s.startLine,
        startColumn := s.startColumn } :: s.savedTextCursors }

/-- Go back to the cursor saved last. The line table, the errors and the string stay. -/
def revert : GraphQlScanner :=
  match s.savedTextCursors with
  | [] => s
  | c :: cs =>
    { s with
      position := c.position, line := c.line, column := c.column
      startPosition := c.startPosition, startLine := c.startLine, startColumn := c.startColumn
      savedTextCursors := cs }

/-! ## Trivia -/

/-- Note the line that starts at the position. -/
def recordLine : GraphQlScanner :=
  { s with
    line := s.line + 1
    positionToLineList := s.positionToLineList ++ [⟨s.position, s.line + 1⟩] }

/-- The start of the token moves past a line break. -/
def startAfterLineBreak : GraphQlScanner :=
  { s with
    column := 1, startColumn := 1, startLine := s.startLine + 1
    startPosition := s.startPosition + 1 }

/-- The start of the token moves past a character of trivia. -/
def startAfterSeparator : GraphQlScanner :=
  { s with startPosition := s.startPosition + 1, startColumn := s.startColumn + 1 }

/-- After a carriage return: the character after the next is compared with a line feed. -/
def skipLineFeed : GraphQlScanner :=
  if s.charAtPosition (s.position + 1) = '\n' then s.incrementPosition else s

/-- The rest of a comment. -/
def skipComment : Nat → GraphQlScanner → GraphQlScanner
  | 0, s => s
  | fuel + 1, s =>
    if s.position < s.size ∧ isLineBreak s.currentChar = false then
      skipComment fuel s.incrementPosition.startAfterSeparator
    else s

/-! ## Names and numbers -/

/-- The rest of a name, with the number of its characters. -/
def scanNameParts : Nat → Nat → GraphQlScanner → Nat × GraphQlScanner
  | 0, count, s => (count, s)
  | fuel + 1, count, s =>
    if s.position < s.size ∧ isNamePart s.currentChar then
      scanNameParts fuel (count + 1) s.incrementPosition
    else (count, s)

def scanDigitListLoop : Nat → GraphQlScanner → GraphQlScanner
  | 0, s => s
  | fuel + 1, s =>
    if isDigit s.currentChar then scanDigitListLoop fuel s.incrementPosition else s

def scanDigitList : GraphQlScanner := scanDigitListLoop (s.size - s.position) s

/-- The digits after the first character of a number. A minus sign is looked at twice: the source
reads the character again without moving on. -/
def scanIntegerPart : GraphQlToken × GraphQlScanner :=
  if s.currentChar = '0' then
    let s := s.incrementPosition
    if isDigit s.currentChar then (.unknown, s) else (.integerLiteral, s)
  else if isDigit s.currentChar = false then (.unknown, s)
  else (.integerLiteral, s.scanDigitList)

/-- From the `e` of an exponent on. -/
def scanExponent : GraphQlToken × GraphQlScanner :=
  let s := s.incrementPosition
  let s := if s.currentChar = '-' ∨ s.currentChar = '+' then s.incrementPosition else s
  if isDigit s.currentChar = false then (.unknown, s)
  else (.floatLiteral, s.incrementPosition.scanDigitList)

/-- After the first character of a number. What `scanIntegerPart` answers is not looked at. -/
def scanNumber : GraphQlToken × GraphQlScanner :=
  let s := s.scanIntegerPart.2
  if s.currentChar = '.' then
    let s := s.incrementPosition
    if isDigit s.currentChar = false then (.unknown, s)
    else
      let s := s.incrementPosition.scanDigitList
      if s.currentChar ≠ 'e' ∧ s.currentChar ≠ 'E' then (.floatLiteral, s)
      else s.scanExponent
  else if s.currentChar = 'e' ∨ s.currentChar = 'E' then s.scanExponent
  else (.integerLiteral, s)

/-! ## Strings and ellipses -/

/-- The location of an error in a string that starts at a position, with the line and the column
there. -/
def pushError (template : D) (startPosition startLine startColumn : Nat) : GraphQlScanner :=
  { s with errors :=
      { template, arguments := []
        location := { line := startLine, column := startColumn
                      length := s.position - startPosition } } :: s.errors }

/-- Four hexadecimal digits; `false` is the exception of the source. -/
def scanHexadecimalEscape (startPosition startLine startColumn : Nat) :
    Nat → GraphQlScanner → Bool × GraphQlScanner
  | 0, s => (true, s)
  | n + 1, s =>
    if isHexadecimal s.currentChar then
      scanHexadecimalEscape startPosition startLine startColumn n s.incrementPosition
    else
      (false, (s.pushError .invalidUnicodeEscapeSequence startPosition startLine
        startColumn).incrementPosition)

/-- A backslash and what it escapes. A character that nothing escapes is left to the string. -/
def scanEscapeSequence : Bool × GraphQlScanner :=
  let startPosition := s.position
  let startLine := s.line
  let startColumn := s.column
  let s := s.incrementPosition
  if s.currentChar ∈ ['"', '\\', '/', 'b', 'f', 'n', 'r', 't'] then (true, s.incrementPosition)
  else if s.currentChar = 'u' then
    scanHexadecimalEscape startPosition startLine startColumn 4 s.incrementPosition
  else (true, s)

/-- A one-line string up to its closing quote, or past the end of the source. -/
def scanStringLiteralLoop (start startLine startColumn : Nat) :
    Nat → Bool → GraphQlScanner → GraphQlToken × GraphQlScanner
  | 0, isTruncated, s => finish isTruncated s
  | fuel + 1, isTruncated, s =>
    if s.position > s.size then finish isTruncated s
    else if s.currentChar = '\\' then
      match s.scanEscapeSequence with
      | (true, s) => scanStringLiteralLoop start startLine startColumn fuel isTruncated s
      | (false, s) => (.invalidString, s)
    else if s.currentChar = '\n' ∨ s.currentChar = '\r' then
      scanStringLiteralLoop start startLine startColumn fuel true s.incrementPosition
    else if s.currentChar = '"' then
      finish isTruncated
        { s with stringLiteral := s.stringLiteral ++ s.getTextFromLocation start s.position
          }.incrementPosition
    else scanStringLiteralLoop start startLine startColumn fuel isTruncated s.incrementPosition
where
  finish (isTruncated : Bool) (s : GraphQlScanner) : GraphQlToken × GraphQlScanner :=
    if isTruncated then
      (.invalidString, s.pushError .unterminatedStringValue start startLine startColumn)
    else (.gStringValue, s)

def scanStringLiteral : GraphQlToken × GraphQlScanner :=
  scanStringLiteralLoop s.position s.line s.column (s.size + 1 - s.position) false
    { s with stringLiteral := [] }

/-- A block string up to its three quotes. -/
def scanStringBlockLoop : Nat → GraphQlScanner → GraphQlToken × GraphQlScanner
  | 0, s => (.unknown, s)
  | fuel + 1, s =>
    if s.position > s.size then (.unknown, s)
    else if s.currentChar = '"' ∧ s.position + 2 ≥ s.size then (.unknown, s)
    else if s.currentChar = '"' ∧ s.charAtPosition (s.position + 1) = '"' ∧
        s.charAtPosition (s.position + 2) = '"' then
      (.gStringValue, s.incrementPosition.incrementPosition.incrementPosition)
    else if isSourceCharacter s.currentChar then
      scanStringBlockLoop fuel
        { s with stringLiteral := s.stringLiteral ++ [s.currentChar] }.incrementPosition
    else scanStringBlockLoop fuel s.incrementPosition

def scanStringBlockAfterDoubleQuotes : GraphQlToken × GraphQlScanner :=
  scanStringBlockLoop (s.size + 1 - s.position) { s with stringLiteral := [] }

def scanStringValue : GraphQlToken × GraphQlScanner :=
  if s.currentChar = '"' ∧ s.charAtPosition (s.position + 1) = '"' then
    s.incrementPosition.incrementPosition.scanStringBlockAfterDoubleQuotes
  else s.scanStringLiteral

def scanEllipsesAfterFirstDot : GraphQlToken × GraphQlScanner :=
  if s.currentChar ≠ '.' then (.unknown, s)
  else
    let s := s.incrementPosition
    if s.currentChar ≠ '.' then (.unknown, s) else (.ellipses, s.incrementPosition)

/-! ## Tokens -/

/-- The token that starts with `ch`, the character just passed. -/
def scanToken (treatKeywordAsName : Bool) (ch : Char) : GraphQlToken × GraphQlScanner :=
  match punctuation ch with
  | some token => (token, s)
  | none =>
    if ch = '"' then s.scanStringValue
    else if ch = '.' then s.scanEllipsesAfterFirstDot
    else if ch = '-' ∨ isDigit ch then s.scanNumber
    else if isNameStart ch then
      let (nameSize, s) := scanNameParts (s.size - s.position) 1 s
      if treatKeywordAsName then (.gName, s) else (getTokenFromValue nameSize s.getValue, s)
    else (.unknown, s)

/-- The loop of `take_next_token`: trivia is passed over, or answered when `skipWhiteSpace` is
off. -/
def takeNextTokenLoop (treatKeywordAsName skipWhiteSpace : Bool) :
    Nat → GraphQlScanner → GraphQlToken × GraphQlScanner
  | 0, s => (.endOfDocument, s)
  | fuel + 1, s =>
    if s.position < s.size then
      let ch := s.currentChar
      let s := s.incrementPosition
      if ch = '\n' then
        let s := s.recordLine
        if skipWhiteSpace = false then (.whiteSpace, s)
        else takeNextTokenLoop treatKeywordAsName skipWhiteSpace fuel s.startAfterLineBreak
      else if ch = '\r' then
        let s := s.skipLineFeed.recordLine
        if skipWhiteSpace = false then (.whiteSpace, s)
        else takeNextTokenLoop treatKeywordAsName skipWhiteSpace fuel s.startAfterLineBreak
      else if isSeparator ch then
        if skipWhiteSpace = false then (.whiteSpace, s)
        else takeNextTokenLoop treatKeywordAsName skipWhiteSpace fuel s.startAfterSeparator
      else if ch = '#' then
        let s := s.startAfterSeparator
        takeNextTokenLoop treatKeywordAsName skipWhiteSpace fuel
          (skipComment (s.size - s.position) s)
      else s.scanToken treatKeywordAsName ch
    else (.endOfDocument, s)

def takeNextToken (treatKeywordAsName skipWhiteSpace : Bool) : GraphQlToken × GraphQlScanner :=
  takeNextTokenLoop treatKeywordAsName skipWhiteSpace (s.size - s.position)
    s.setTokenStartPosition

/-- Take the token if it is the given one. -/
def tryScan (token : GraphQlToken) (treatKeywordAsName : Bool) : GraphQlToken × GraphQlScanner :=
  let (result, s) := s.save.takeNextToken treatKeywordAsName true
  if result = token then (token, s) else (result, s.revert)

/-- Look at the next token. -/
def peekNextToken : GraphQlToken × GraphQlScanner :=
  let (token, s) := s.save.takeNextToken false true
  (token, s.revert)

/-- Pass over a block: up to the brace that closes the first one met, or to the end. -/
def skipBlockLoop : Nat → Int → Bool → GraphQlScanner → GraphQlScanner
  | 0, _, _, s => s
  | fuel + 1, matchedBraces, encounteredBrace, s =>
    let (token, s) := s.takeNextToken false true
    if token = .endOfDocument then s
    else
      let (matchedBraces, encounteredBrace) :=
        if token = .openBrace then (matchedBraces + 1, true)
        else if token = .closeBrace then (matchedBraces - 1, true)
        else (matchedBraces, encounteredBrace)
      if encounteredBrace ∧ matchedBraces ≤ 0 then s
      else skipBlockLoop fuel matchedBraces encounteredBrace s

def skipBlock : GraphQlScanner := skipBlockLoop (s.size - s.position + 1) 0 false s

/-- Go on to just before the first of the given tokens, or to the end. -/
def skipToLoop (tokens : List GraphQlToken) : Nat → GraphQlScanner → GraphQlToken × GraphQlScanner
  | 0, s => (.endOfDocument, s)
  | fuel + 1, s =>
    let (token, s) := s.save.takeNextToken false true
    if token = .endOfDocument then (token, s)
    else if token ∈ tokens then (token, s.revert)
    else skipToLoop tokens fuel s

def skipTo (tokens : List GraphQlToken) : GraphQlToken × GraphQlScanner :=
  skipToLoop tokens (s.size - s.position + 1) s

/-- The scanner entry for directive locations: it knows no comments, and passes over every
character that starts no name. -/
def scanDirectiveLocationLoop : Nat → GraphQlScanner → DirectiveLocation × GraphQlScanner
  | 0, s => (.endOfDocument, s)
  | fuel + 1, s =>
    if s.position < s.size then
      let ch := s.currentChar
      let s := s.incrementPosition
      if ch = '\n' then scanDirectiveLocationLoop fuel s.recordLine.startAfterLineBreak
      else if ch = '\r' then
        scanDirectiveLocationLoop fuel s.skipLineFeed.recordLine.startAfterLineBreak
      else if isSeparator ch then scanDirectiveLocationLoop fuel s.startAfterSeparator
      else if isNameStart ch then
        let (nameSize, s) := scanNameParts (s.size - s.position) 1 s
        (getDirectiveFromValue nameSize s.getValue, s)
      else scanDirectiveLocationLoop fuel s
    else (.endOfDocument, s)

def scanDirectiveLocation : DirectiveLocation × GraphQlScanner :=
  scanDirectiveLocationLoop (s.size - s.position) s.setTokenStartPosition

/-! ## Lines -/

/-- The line a position lies on, by bisection of the line table between `start` and `stop`; `none`
is the exception of the source. The bound is the length of the interval. -/
def searchForLineLoop (position : Nat) : Nat → Nat → Nat → Option Location
  | 0, start, stop =>
    if stop = start then atEntry stop else none
  | fuel + 1, start, stop =>
    if stop > start then
      let mid := start + (stop - start) / 2
      match s.positionToLineList[mid]?, s.positionToLineList[mid + 1]? with
      | some entry, some next =>
        if position ≥ entry.position ∧ position < next.position then
          some { line := entry.line, column := position - entry.position + 1, length := 0 }
        else if position < entry.position then
          if mid = 0 then none else searchForLineLoop position fuel start (mid - 1)
        else searchForLineLoop position fuel (mid + 1) stop
      | _, _ => none
    else if stop = start then atEntry stop
    else none
where
  atEntry (stop : Nat) : Option Location :=
    match s.positionToLineList[stop]? with
    | some entry =>
      if position ≥ entry.position ∧ position < s.size then
        some { line := entry.line, column := position - entry.position + 1, length := 0 }
      else none
    | none => none

def searchForLine (start stop position : Nat) : Option Location :=
  s.searchForLineLoop position (stop - start) start stop

/-- The location of a node. -/
def getTokenLocation (start stop : Nat) : Option Location :=
  (s.searchForLine 0 (s.positionToLineList.length - 1) start).map
    fun location => { location with length := stop - start }

end GraphQlScanner

end Flashpoint
