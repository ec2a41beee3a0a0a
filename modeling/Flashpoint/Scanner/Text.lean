import Flashpoint.Scanner.Progress

/-!
# The lexical grammar on texts

What trivia and tokens are, said of a text alone: `triviaLength` is the trivia a text starts with,
and `tokenAt` the token it starts with and the number of its characters. No cursor, line or column is
involved. The second half relates the loops of the scanner to these functions.
-/

namespace Flashpoint

namespace GraphQlScanner

/-! ## Texts -/

/-- The number of characters of trivia a text starts with, outside and inside of a comment. -/
def triviaLength : Bool → Ustring → Nat
  | _, [] => 0
  | true, ch :: text => 1 + triviaLength (!isLineBreak ch) text
  | false, ch :: text =>
    if isLineBreak ch ∨ isSeparator ch then 1 + triviaLength false text
    else if ch = '#' then 1 + triviaLength true text
    else 0

/-- The first character, or the terminator. -/
def firstChar (text : Ustring) : Char := text.headD '\x00'

def digits (text : Ustring) : Nat := (text.takeWhile isDigit).length

/-- The digits after the first character of a number: a zero stands alone. -/
def integerLength (text : Ustring) : Nat := if firstChar text = '0' then 1 else digits text

/-- What follows the `e` of an exponent. -/
def exponentAt (text : Ustring) : GraphQlToken × Nat :=
  let sign := if firstChar text = '-' ∨ firstChar text = '+' then 1 else 0
  if isDigit (firstChar (text.drop sign)) = false then (.unknown, sign)
  else (.floatLiteral, sign + digits (text.drop sign))

/-- What follows the first character of a number. -/
def numberAt (text : Ustring) : GraphQlToken × Nat :=
  let n := integerLength text
  let next := firstChar (text.drop n)
  if next = '.' then
    if isDigit (firstChar (text.drop (n + 1))) = false then (.unknown, n + 1)
    else
      let m := n + 1 + digits (text.drop (n + 1))
      let next := firstChar (text.drop m)
      if next ≠ 'e' ∧ next ≠ 'E' then (.floatLiteral, m)
      else
        let (token, k) := exponentAt (text.drop (m + 1))
        (token, m + 1 + k)
  else if next = 'e' ∨ next = 'E' then
    let (token, k) := exponentAt (text.drop (n + 1))
    (token, n + 1 + k)
  else (.integerLiteral, n)

/-- Where the reader of a one-line string stands: after a backslash, or before so many hexadecimal
digits. -/
inductive LiteralState where
  | plain
  | escape
  | hexadecimal (n : Nat)
deriving DecidableEq, Repr

/-- What follows the opening quote of a one-line string, unless the text ends before it does. A string
ends at its quote, or after a character that should be a hexadecimal digit. -/
def literalAt : LiteralState → Bool → Ustring → Option (GraphQlToken × Nat)
  | _, _, [] => none
  | .hexadecimal (n + 1), isTruncated, ch :: text =>
    if isHexadecimal ch then (literalAt (.hexadecimal n) isTruncated text).map (Prod.map id (· + 1))
    else some (.invalidString, 1)
  | .escape, isTruncated, ch :: text =>
    let state :=
      if ch = 'u' then .hexadecimal 4
      else .plain
    let isTruncated := isTruncated || isLineBreak ch
    (literalAt state isTruncated text).map (Prod.map id (· + 1))
  | _, isTruncated, ch :: text =>
    if ch = '\\' then (literalAt .escape isTruncated text).map (Prod.map id (· + 1))
    else if ch = '"' then some (if isTruncated then .invalidString else .gStringValue, 1)
    else (literalAt .plain (isTruncated || isLineBreak ch) text).map (Prod.map id (· + 1))

/-- What follows the three quotes of a block string, unless the text ends before it does. Near the end
of the text a quote ends it. -/
def blockAt : Ustring → Option (GraphQlToken × Nat)
  | [] => none
  | ch :: text =>
    if ch = '"' ∧ text.length < 2 then some (.unknown, 0)
    else if ch = '"' ∧ text.take 2 = ['"', '"'] then some (.gStringValue, 3)
    else (blockAt text).map (Prod.map id (· + 1))

/-- What follows the first quote of a string. -/
def stringAt (text : Ustring) : Option (GraphQlToken × Nat) :=
  if text.take 2 = ['"', '"'] then (blockAt (text.drop 2)).map (Prod.map id (· + 2))
  else literalAt .plain false text

/-- What follows the first dot of an ellipsis. -/
def ellipsesAt (text : Ustring) : GraphQlToken × Nat :=
  if firstChar text ≠ '.' then (.unknown, 0)
  else if firstChar (text.drop 1) ≠ '.' then (.unknown, 1)
  else (.ellipses, 2)

/-- A name: its token and its length. -/
def nameAt (treatKeywordAsName : Bool) (text : Ustring) : GraphQlToken × Nat :=
  let name := text.takeWhile isNamePart
  (if treatKeywordAsName then .gName else getTokenFromValue name.length name, name.length)

/-- The token a text starts with, and its length; none where the text starts with trivia or with a
string that it does not hold as a whole. -/
def tokenAt (treatKeywordAsName : Bool) : Ustring → Option (GraphQlToken × Nat)
  | [] => none
  | ch :: text =>
    if isLineBreak ch ∨ isSeparator ch ∨ ch = '#' then none
    else
      match punctuation ch with
      | some token => some (token, 1)
      | none =>
        if ch = '"' then (stringAt text).map (Prod.map id (· + 1))
        else if ch = '.' then some (Prod.map id (· + 1) (ellipsesAt text))
        else if ch = '-' ∨ isDigit ch then some (Prod.map id (· + 1) (numberAt text))
        else if isNameStart ch then some (nameAt treatKeywordAsName (ch :: text))
        else some (.unknown, 1)

/-! ## The text that is left -/

/-- The characters from the position on. -/
def textLeft (s : GraphQlScanner) : Ustring := s.source.drop s.position

theorem length_textLeft (s : GraphQlScanner) : s.textLeft.length = s.left := by
  simp [textLeft, left, size]

theorem currentChar_eq (s : GraphQlScanner) : s.currentChar = firstChar s.textLeft := by
  simp only [currentChar, charAtPosition, charAt, firstChar, textLeft]
  rw [List.headD_eq_head?_getD, List.head?_drop, List.getD_eq_getElem?_getD]

theorem charAtPosition_add (s : GraphQlScanner) (k : Nat) :
    s.charAtPosition (s.position + k) = firstChar (s.textLeft.drop k) := by
  simp only [charAtPosition, charAt, firstChar, textLeft, List.drop_drop]
  rw [List.headD_eq_head?_getD, List.head?_drop, List.getD_eq_getElem?_getD]

/-- The cursor has moved on by `n` characters; the start of the token has not moved. -/
structure Moved (n : Nat) (s s' : GraphQlScanner) : Prop where
  source : s'.source = s.source
  position : s'.position = s.position + n
  startPosition : s'.startPosition = s.startPosition

namespace Moved

variable {s s' s'' : GraphQlScanner} {n m : Nat}

theorem zero (s : GraphQlScanner) : Moved 0 s s := ⟨rfl, rfl, rfl⟩

theorem trans (h : Moved n s s') (h' : Moved m s' s'') : Moved (n + m) s s'' where
  source := h'.source.trans h.source
  position := by rw [h'.position, h.position, Nat.add_assoc]
  startPosition := h'.startPosition.trans h.startPosition

theorem textLeft (h : Moved n s s') : s'.textLeft = s.textLeft.drop n := by
  simp only [GraphQlScanner.textLeft, h.source, h.position, List.drop_drop]

theorem left (h : Moved n s s') : s'.left = s.left - n := by
  simp only [GraphQlScanner.left, size, h.source, h.position]
  omega

theorem currentChar (h : Moved n s s') : s'.currentChar = firstChar (s.textLeft.drop n) := by
  rw [currentChar_eq, h.textLeft]

theorem getValue (h : Moved n s s') :
    s'.getValue = (s.source.drop s.startPosition).take (s.position + n - s.startPosition) := by
  simp only [GraphQlScanner.getValue, length, h.source, h.position, h.startPosition]

end Moved

theorem moved_incrementPosition (s : GraphQlScanner) : Moved 1 s s.incrementPosition :=
  ⟨rfl, rfl, rfl⟩

theorem position_lt_size_iff (s : GraphQlScanner) : s.position < s.size ↔ s.textLeft ≠ [] := by
  rw [← List.length_pos_iff, length_textLeft]
  simp only [left]
  omega

theorem textLeft_incrementPosition {s : GraphQlScanner} {ch : Char} {text : Ustring}
    (h : s.textLeft = ch :: text) : s.incrementPosition.textLeft = text := by
  rw [s.moved_incrementPosition.textLeft, h]
  rfl

theorem currentChar_of_cons {s : GraphQlScanner} {ch : Char} {text : Ustring}
    (h : s.textLeft = ch :: text) : s.currentChar = ch := by
  rw [currentChar_eq, h]
  rfl

theorem position_lt_size_of_cons {s : GraphQlScanner} {ch : Char} {text : Ustring}
    (h : s.textLeft = ch :: text) : s.position < s.size := by
  rw [position_lt_size_iff, h]
  exact List.cons_ne_nil ch text

theorem left_eq_succ {s : GraphQlScanner} {ch : Char} {text : Ustring}
    (h : s.textLeft = ch :: text) : s.left = s.incrementPosition.left + 1 := by
  rw [← length_textLeft, ← length_textLeft, textLeft_incrementPosition h, h]
  rfl

theorem textLeft_eq_nil {s : GraphQlScanner} (h : s.left = 0) : s.textLeft = [] := by
  rw [← List.length_eq_zero_iff, length_textLeft]
  exact h

/-! ## Names and numbers -/

theorem moved_scanDigitListLoop (fuel : Nat) (s : GraphQlScanner) (hfuel : s.left ≤ fuel) :
    Moved (digits s.textLeft) s (scanDigitListLoop fuel s) := by
  induction fuel generalizing s with
  | zero =>
    rw [textLeft_eq_nil (Nat.le_zero.1 hfuel)]
    exact .zero s
  | succ fuel ih =>
    simp only [scanDigitListLoop, currentChar_eq]
    cases htext : s.textLeft with
    | nil => exact .zero s
    | cons ch text =>
      by_cases hdigit : isDigit ch = true
      · have hleft := left_eq_succ htext
        have hrest := ih s.incrementPosition (by omega)
        rw [textLeft_incrementPosition htext] at hrest
        have hmoved := s.moved_incrementPosition.trans hrest
        simp only [firstChar, List.headD_cons, hdigit, if_true, digits, List.takeWhile_cons,
          List.length_cons]
        rw [Nat.add_comm]
        exact hmoved
      · simp only [firstChar, List.headD_cons, hdigit, digits, List.takeWhile_cons]
        exact .zero s

theorem moved_scanDigitList (s : GraphQlScanner) : Moved (digits s.textLeft) s s.scanDigitList :=
  moved_scanDigitListLoop _ s (Nat.le_refl _)

/-- Digits whose first one was passed already. -/
theorem moved_scanDigitList_rest {s : GraphQlScanner} (h : isDigit (firstChar s.textLeft) = true) :
    Moved (digits s.textLeft) s s.incrementPosition.scanDigitList := by
  cases htext : s.textLeft with
  | nil =>
    rw [htext] at h
    exact absurd h (by decide)
  | cons ch text =>
    rw [htext] at h
    have hrest := s.incrementPosition.moved_scanDigitList
    rw [textLeft_incrementPosition htext] at hrest
    have hdigits : digits (ch :: text) = 1 + digits text := by
      simp only [firstChar, List.headD_cons] at h
      simp only [digits, List.takeWhile_cons, h, if_true, List.length_cons, Nat.add_comm]
    rw [hdigits]
    exact s.moved_incrementPosition.trans hrest

theorem moved_scanIntegerPart (s : GraphQlScanner) :
    Moved (integerLength s.textLeft) s s.scanIntegerPart.2 := by
  simp only [scanIntegerPart, integerLength, currentChar_eq]
  by_cases hzero : firstChar s.textLeft = '0'
  · simp only [hzero, if_true]
    split <;> exact s.moved_incrementPosition
  · simp only [hzero, if_false]
    split
    · next hdigit =>
      have hnone : digits s.textLeft = 0 := by
        cases htext : s.textLeft with
        | nil => rfl
        | cons ch text =>
          rw [htext] at hdigit
          simp only [firstChar, List.headD_cons] at hdigit
          simp [digits, hdigit]
      rw [hnone]
      exact .zero s
    · exact s.moved_scanDigitList

theorem scanExponent_spec {s s' : GraphQlScanner} {n : Nat} (h : Moved n s s') :
    s'.scanExponent.1 = (exponentAt (s.textLeft.drop (n + 1))).1 ∧
      Moved (n + 1 + (exponentAt (s.textLeft.drop (n + 1))).2) s s'.scanExponent.2 := by
  have hinc := h.trans s'.moved_incrementPosition
  have hsigned : Moved (n + 1 + (if firstChar (s.textLeft.drop (n + 1)) = '-' ∨
      firstChar (s.textLeft.drop (n + 1)) = '+' then 1 else 0)) s
      (if s'.incrementPosition.currentChar = '-' ∨ s'.incrementPosition.currentChar = '+' then
        s'.incrementPosition.incrementPosition else s'.incrementPosition) := by
    rw [hinc.currentChar]
    split
    · exact hinc.trans (moved_incrementPosition _)
    · exact hinc
  simp only [scanExponent, exponentAt]
  generalize (if s'.incrementPosition.currentChar = '-' ∨
    s'.incrementPosition.currentChar = '+' then s'.incrementPosition.incrementPosition
    else s'.incrementPosition) = signed at hsigned ⊢
  generalize (if firstChar (s.textLeft.drop (n + 1)) = '-' ∨
    firstChar (s.textLeft.drop (n + 1)) = '+' then 1 else 0) = sign at hsigned ⊢
  rw [hsigned.currentChar, List.drop_drop]
  by_cases hdigit : isDigit (firstChar (s.textLeft.drop (n + 1 + sign))) = false
  · rw [if_pos hdigit, if_pos hdigit]
    exact ⟨rfl, hsigned⟩
  · rw [if_neg hdigit, if_neg hdigit]
    have hfirst : isDigit (firstChar signed.textLeft) = true := by
      rw [hsigned.textLeft]
      exact Bool.of_not_eq_false hdigit
    have hdigits := moved_scanDigitList_rest hfirst
    rw [hsigned.textLeft] at hdigits
    refine ⟨rfl, ?_⟩
    rw [← Nat.add_assoc]
    exact hsigned.trans hdigits

theorem scanNumber_spec (s : GraphQlScanner) :
    s.scanNumber.1 = (numberAt s.textLeft).1 ∧ Moved (numberAt s.textLeft).2 s s.scanNumber.2 := by
  have hint := s.moved_scanIntegerPart
  have hdot := hint.trans (moved_incrementPosition _)
  simp only [scanNumber, numberAt]
  generalize s.scanIntegerPart.2 = s₁ at hint hdot ⊢
  generalize integerLength s.textLeft = n at hint hdot ⊢
  rw [hint.currentChar]
  by_cases hpoint : firstChar (s.textLeft.drop n) = '.'
  · simp only [hpoint, if_true]
    rw [hdot.currentChar]
    by_cases hdigit : isDigit (firstChar (s.textLeft.drop (n + 1))) = false
    · rw [if_pos hdigit, if_pos hdigit]
      exact ⟨rfl, hdot⟩
    · rw [if_neg hdigit, if_neg hdigit]
      have hfirst : isDigit (firstChar s₁.incrementPosition.textLeft) = true := by
        rw [hdot.textLeft]
        exact Bool.of_not_eq_false hdigit
      have hdigits := moved_scanDigitList_rest hfirst
      rw [hdot.textLeft] at hdigits
      have hfraction := hdot.trans hdigits
      rw [hfraction.currentChar]
      split
      · exact ⟨rfl, hfraction⟩
      · exact scanExponent_spec hfraction
  · simp only [hpoint, if_false]
    split
    · exact scanExponent_spec hint
    · exact ⟨rfl, hint⟩

theorem scanNameParts_spec (fuel count : Nat) (s : GraphQlScanner) (hfuel : s.left ≤ fuel) :
    (scanNameParts fuel count s).1 = count + (s.textLeft.takeWhile isNamePart).length ∧
      Moved (s.textLeft.takeWhile isNamePart).length s (scanNameParts fuel count s).2 := by
  induction fuel generalizing s count with
  | zero =>
    rw [textLeft_eq_nil (Nat.le_zero.1 hfuel)]
    exact ⟨rfl, .zero s⟩
  | succ fuel ih =>
    simp only [scanNameParts, currentChar_eq, position_lt_size_iff]
    cases htext : s.textLeft with
    | nil =>
      simp only [ne_eq, not_true_eq_false, false_and, if_false]
      exact ⟨rfl, .zero s⟩
    | cons ch text =>
      by_cases hpart : isNamePart ch = true
      · have hleft := left_eq_succ htext
        obtain ⟨hcount, hrest⟩ := ih (count + 1) s.incrementPosition (by omega)
        rw [textLeft_incrementPosition htext] at hcount hrest
        have hmoved := s.moved_incrementPosition.trans hrest
        simp only [ne_eq, reduceCtorEq, not_false_eq_true, firstChar, List.headD_cons, hpart,
          and_self, if_true, List.takeWhile_cons, List.length_cons]
        refine ⟨by rw [hcount]; omega, ?_⟩
        rw [Nat.add_comm]
        exact hmoved
      · simp only [firstChar, List.headD_cons, hpart, Bool.false_eq_true, and_false, if_false,
          List.takeWhile_cons]
        exact ⟨rfl, .zero s⟩

/-! ## Strings and ellipses -/

theorem literalAt_plain_cons (isTruncated : Bool) (ch : Char) (text : Ustring) :
    literalAt .plain isTruncated (ch :: text) =
      if ch = '\\' then (literalAt .escape isTruncated text).map (Prod.map id (· + 1))
      else if ch = '"' then some (if isTruncated then .invalidString else .gStringValue, 1)
      else (literalAt .plain (isTruncated || isLineBreak ch) text).map (Prod.map id (· + 1)) := rfl

theorem literalAt_zero (isTruncated : Bool) (text : Ustring) :
    literalAt (.hexadecimal 0) isTruncated text = literalAt .plain isTruncated text := by
  cases text <;> rfl

theorem exists_of_map_add {α : Type} {x : Option (α × Nat)} {k : Nat} {token : α} {n : Nat}
    (h : x.map (Prod.map id (· + k)) = some (token, n)) :
    ∃ m, n = k + m ∧ x = some (token, m) := by
  obtain ⟨⟨token', m⟩, hx, heq⟩ := Option.map_eq_some_iff.1 h
  cases heq
  exact ⟨m, Nat.add_comm m k, hx⟩

/-- What a scan does of a part of a string that its text holds: the string ends there, or the rest of
it is still to come. -/
def ScansLiteral (isTruncated : Bool) (s : GraphQlScanner) (token : GraphQlToken) (n : Nat)
    (result : Bool × GraphQlScanner) : Prop :=
  (result.1 = false ∧ token = .invalidString ∧ Moved n s result.2) ∨
    ∃ k m, result.1 = true ∧ n = k + m ∧ Moved k s result.2 ∧
      literalAt .plain isTruncated result.2.textLeft = some (token, m)

theorem ScansLiteral.after {isTruncated : Bool} {s s' : GraphQlScanner} {token : GraphQlToken}
    {k n : Nat} {result : Bool × GraphQlScanner} (hmoved : Moved k s s')
    (h : ScansLiteral isTruncated s' token n result) :
    ScansLiteral isTruncated s token (k + n) result := by
  rcases h with ⟨hfalse, htoken, hend⟩ | ⟨j, m, htrue, rfl, hpart, hrest⟩
  · exact .inl ⟨hfalse, htoken, hmoved.trans hend⟩
  · exact .inr ⟨k + j, m, htrue, by omega, hmoved.trans hpart, hrest⟩

theorem scansLiteral_hexadecimal (p l c digits : Nat) {isTruncated : Bool} {s : GraphQlScanner}
    {token : GraphQlToken} {n : Nat}
    (h : literalAt (.hexadecimal digits) isTruncated s.textLeft = some (token, n)) :
    ScansLiteral isTruncated s token n (scanHexadecimalEscape p l c digits s) := by
  induction digits generalizing s n with
  | zero =>
    rw [literalAt_zero] at h
    exact .inr ⟨0, n, rfl, by omega, .zero s, h⟩
  | succ digits ih =>
    cases htext : s.textLeft with
    | nil =>
      rw [htext] at h
      cases h
    | cons ch text =>
      rw [htext, literalAt] at h
      simp only [scanHexadecimalEscape, currentChar_of_cons htext]
      by_cases hhex : isHexadecimal ch = true
      · rw [if_pos hhex] at h ⊢
        obtain ⟨m, rfl, hrest⟩ := exists_of_map_add h
        rw [← textLeft_incrementPosition htext] at hrest
        exact (ih hrest).after s.moved_incrementPosition
      · rw [if_neg hhex] at h ⊢
        cases h
        exact .inl ⟨rfl, rfl, rfl, rfl, rfl⟩

theorem scansLiteral_escape {isTruncated : Bool} {s : GraphQlScanner} {token : GraphQlToken} {n : Nat}
    (h : literalAt .escape isTruncated s.incrementPosition.textLeft = some (token, n)) :
    ScansLiteral isTruncated s token (1 + n) s.scanEscapeSequence := by
  apply ScansLiteral.after s.moved_incrementPosition
  simp only [scanEscapeSequence]
  generalize s.incrementPosition = s₁ at h ⊢
  cases htext : s₁.textLeft with
  | nil =>
    rw [htext] at h
    cases h
  | cons ch text =>
    rw [htext, literalAt] at h
    rw [currentChar_of_cons htext]
    obtain ⟨m, rfl, hrest⟩ := exists_of_map_add h
    by_cases hsimple : ch ∈ ['"', '\\', '/', 'b', 'f', 'n', 'r', 't']
    · have hplain : ch ≠ 'u' ∧ isLineBreak ch = false := by
        simp only [List.mem_cons, List.not_mem_nil, or_false] at hsimple
        rcases hsimple with rfl | rfl | rfl | rfl | rfl | rfl | rfl | rfl <;> decide
      rw [if_pos hsimple]
      rw [if_neg hplain.1, hplain.2, Bool.or_false, ← textLeft_incrementPosition htext] at hrest
      exact .inr ⟨1, m, rfl, rfl, s₁.moved_incrementPosition, hrest⟩
    · rw [if_neg hsimple]
      by_cases hu : ch = 'u'
      · have hbreak : isLineBreak ch = false := by rw [hu]; decide
        rw [if_pos hu]
        rw [if_pos hu, hbreak, Bool.or_false, ← textLeft_incrementPosition htext] at hrest
        exact (scansLiteral_hexadecimal _ _ _ 4 hrest).after s₁.moved_incrementPosition
      · -- the character is left to the loop of the string
        rw [if_neg hu]
        rw [if_neg hu] at hrest
        refine .inr ⟨0, 1 + m, rfl, by omega, .zero s₁, ?_⟩
        have hbackslash : ch ≠ '\\' := by
          rintro rfl
          exact hsimple (by decide)
        have hquote : ch ≠ '"' := by
          rintro rfl
          exact hsimple (by decide)
        rw [htext, literalAt_plain_cons, if_neg hbackslash, if_neg hquote, hrest]
        simp [Nat.add_comm]

/-- An escape sequence takes its backslash. -/
theorem scanEscapeSequence_position (s : GraphQlScanner) :
    s.position + 1 ≤ s.scanEscapeSequence.2.position := by
  simp only [scanEscapeSequence]
  split
  · exact Nat.le_succ _
  split
  · have hhex := along_scanHexadecimalEscape s.position s.line s.column 4
      s.incrementPosition.incrementPosition
    exact Nat.le_trans (Nat.le_succ _) hhex.position
  · exact Nat.le_refl _

theorem scanStringLiteralLoop_spec (p l c fuel : Nat) {isTruncated : Bool} {s : GraphQlScanner}
    (hfuel : s.left ≤ fuel) {token : GraphQlToken} {n : Nat}
    (h : literalAt .plain isTruncated s.textLeft = some (token, n)) :
    (scanStringLiteralLoop p l c fuel isTruncated s).1 = token ∧
      Moved n s (scanStringLiteralLoop p l c fuel isTruncated s).2 := by
  induction fuel generalizing s isTruncated n with
  | zero =>
    rw [textLeft_eq_nil (Nat.le_zero.1 hfuel)] at h
    cases h
  | succ fuel ih =>
    cases htext : s.textLeft with
    | nil =>
      rw [htext] at h
      cases h
    | cons ch text =>
      have hleft := left_eq_succ htext
      have hinside : ¬ s.position > s.size := by
        have hlt := position_lt_size_of_cons htext
        omega
      rw [htext, literalAt_plain_cons] at h
      simp only [scanStringLiteralLoop, if_neg hinside, currentChar_of_cons htext]
      by_cases hbackslash : ch = '\\'
      · rw [if_pos hbackslash] at h ⊢
        obtain ⟨m, rfl, hrest⟩ := exists_of_map_add h
        rw [← textLeft_incrementPosition htext] at hrest
        rcases scansLiteral_escape hrest with ⟨hfalse, rfl, hmoved⟩ | ⟨k, j, htrue, hsum, hmoved, hnext⟩
        · rcases hescape : s.scanEscapeSequence with ⟨result, s'⟩
          rw [hescape] at hfalse hmoved
          simp only at hfalse
          subst hfalse
          exact ⟨rfl, hmoved⟩
        · rcases hescape : s.scanEscapeSequence with ⟨result, s'⟩
          rw [hescape] at htrue hmoved hnext
          simp only at htrue
          subst htrue
          have hmoved : Moved k s s' := hmoved
          have htakes := s.scanEscapeSequence_position
          rw [hescape] at htakes
          have hfewer : s'.left ≤ fuel := by
            have hposition : s'.position = s.position + k := hmoved.position
            rw [hmoved.left]
            simp only at htakes
            omega
          obtain ⟨htoken, hend⟩ := ih hfewer hnext
          exact ⟨htoken, hsum ▸ hmoved.trans hend⟩
      · rw [if_neg hbackslash] at h ⊢
        have hfewer : s.incrementPosition.left ≤ fuel := by omega
        by_cases hquote : ch = '"'
        · have hbreak : ¬ (ch = '\n' ∨ ch = '\r') := by
            rw [hquote]
            decide
          rw [if_pos hquote] at h
          rw [if_neg hbreak, if_pos hquote]
          cases h
          simp only [scanStringLiteralLoop.finish]
          split
          · exact ⟨rfl, rfl, rfl, rfl⟩
          · exact ⟨rfl, rfl, rfl, rfl⟩
        · rw [if_neg hquote] at h
          obtain ⟨m, rfl, hrest⟩ := exists_of_map_add h
          rw [← textLeft_incrementPosition htext] at hrest
          by_cases hbreak : ch = '\n' ∨ ch = '\r'
          · have htruncated : (isTruncated || isLineBreak ch) = true := by
              simp [isLineBreak, hbreak]
            rw [if_pos hbreak]
            rw [htruncated] at hrest
            obtain ⟨htoken, hend⟩ := ih hfewer hrest
            exact ⟨htoken, s.moved_incrementPosition.trans hend⟩
          · have hsame : (isTruncated || isLineBreak ch) = isTruncated := by
              simp only [isLineBreak, not_or] at hbreak ⊢
              simp [hbreak.1, hbreak.2]
            rw [if_neg hbreak, if_neg hquote]
            rw [hsame] at hrest
            obtain ⟨htoken, hend⟩ := ih hfewer hrest
            exact ⟨htoken, s.moved_incrementPosition.trans hend⟩

theorem take_two_eq_iff {text : Ustring} :
    text.take 2 = ['"', '"'] ↔ firstChar text = '"' ∧ firstChar (text.drop 1) = '"' := by
  cases text with
  | nil => decide
  | cons ch text =>
    cases text with
    | nil =>
      simp only [firstChar, List.take_succ_cons, List.take_nil, List.headD_cons, List.drop_one,
        List.tail_cons, List.headD_nil]
      constructor
      · intro h
        cases h
      · rintro ⟨-, h⟩
        cases h
    | cons ch' text => simp [firstChar]

theorem scanStringBlockLoop_spec (fuel : Nat) {s : GraphQlScanner} (hfuel : s.left ≤ fuel)
    {token : GraphQlToken} {n : Nat} (h : blockAt s.textLeft = some (token, n)) :
    (scanStringBlockLoop fuel s).1 = token ∧ Moved n s (scanStringBlockLoop fuel s).2 := by
  induction fuel generalizing s n with
  | zero =>
    rw [textLeft_eq_nil (Nat.le_zero.1 hfuel)] at h
    cases h
  | succ fuel ih =>
    cases htext : s.textLeft with
    | nil =>
      rw [htext] at h
      cases h
    | cons ch text =>
      have hleft := left_eq_succ htext
      have hlength : text.length = s.incrementPosition.left := by
        rw [← textLeft_incrementPosition htext, length_textLeft]
      have hinside : ¬ s.position > s.size := by
        have hlt := position_lt_size_of_cons htext
        omega
      have hnear : s.position + 2 ≥ s.size ↔ text.length < 2 := by
        have hlt := position_lt_size_of_cons htext
        simp only [left, size, incrementPosition] at hlength hlt ⊢
        omega
      have hquotes : (s.charAtPosition (s.position + 1) = '"' ∧
          s.charAtPosition (s.position + 2) = '"') ↔ text.take 2 = ['"', '"'] := by
        rw [charAtPosition_add, charAtPosition_add, htext, take_two_eq_iff]
        rfl
      rw [htext, blockAt] at h
      simp only [scanStringBlockLoop, if_neg hinside, currentChar_of_cons htext, hnear, hquotes]
      by_cases hend : ch = '"' ∧ text.length < 2
      · rw [if_pos hend] at h ⊢
        cases h
        exact ⟨rfl, .zero s⟩
      · rw [if_neg hend] at h ⊢
        by_cases hclose : ch = '"' ∧ text.take 2 = ['"', '"']
        · rw [if_pos hclose] at h ⊢
          cases h
          exact ⟨rfl, rfl, rfl, rfl⟩
        · rw [if_neg hclose] at h ⊢
          obtain ⟨m, rfl, hrest⟩ := exists_of_map_add h
          split
          · have hnext : Moved 1 s
                { s with stringLiteral := s.stringLiteral ++ [ch] }.incrementPosition :=
              ⟨rfl, rfl, rfl⟩
            have hrest : blockAt { s with stringLiteral := s.stringLiteral ++ [ch]
                }.incrementPosition.textLeft = some (token, m) := by
              rw [hnext.textLeft, htext]
              exact hrest
            obtain ⟨htoken, hmoved⟩ := ih (by rw [hnext.left]; omega) hrest
            exact ⟨htoken, hnext.trans hmoved⟩
          · rw [← textLeft_incrementPosition htext] at hrest
            obtain ⟨htoken, hmoved⟩ := ih (by omega) hrest
            exact ⟨htoken, s.moved_incrementPosition.trans hmoved⟩

theorem scanStringValue_spec {s : GraphQlScanner} {token : GraphQlToken} {n : Nat}
    (h : stringAt s.textLeft = some (token, n)) :
    s.scanStringValue.1 = token ∧ Moved n s s.scanStringValue.2 := by
  have hquotes : (s.currentChar = '"' ∧ s.charAtPosition (s.position + 1) = '"') ↔
      s.textLeft.take 2 = ['"', '"'] := by
    rw [currentChar_eq, charAtPosition_add, take_two_eq_iff]
  simp only [scanStringValue, hquotes]
  unfold stringAt at h
  by_cases hblock : s.textLeft.take 2 = ['"', '"']
  · rw [if_pos hblock] at h ⊢
    obtain ⟨m, rfl, hblock⟩ := exists_of_map_add h
    have hopen : Moved 2 s
        { s.incrementPosition.incrementPosition with stringLiteral := [] } := ⟨rfl, rfl, rfl⟩
    rw [← hopen.textLeft] at hblock
    have hfuel : ({ s.incrementPosition.incrementPosition with
        stringLiteral := [] } : GraphQlScanner).left ≤ s.incrementPosition.incrementPosition.size + 1 -
          s.incrementPosition.incrementPosition.position := by
      simp only [left, size]
      omega
    obtain ⟨htoken, hmoved⟩ := scanStringBlockLoop_spec _ hfuel hblock
    exact ⟨htoken, hopen.trans hmoved⟩
  · rw [if_neg hblock] at h ⊢
    have hclear : Moved 0 s { s with stringLiteral := [] } := ⟨rfl, rfl, rfl⟩
    have htext : literalAt .plain false { s with stringLiteral := [] }.textLeft = some (token, n) := h
    have hfuel : ({ s with stringLiteral := [] } : GraphQlScanner).left ≤ s.size + 1 - s.position := by
      simp only [left, size]
      omega
    obtain ⟨htoken, hmoved⟩ := scanStringLiteralLoop_spec s.position s.line s.column _ hfuel htext
    refine ⟨htoken, ?_⟩
    have hall := hclear.trans hmoved
    rw [Nat.zero_add] at hall
    exact hall

theorem scanEllipses_spec (s : GraphQlScanner) :
    s.scanEllipsesAfterFirstDot.1 = (ellipsesAt s.textLeft).1 ∧
      Moved (ellipsesAt s.textLeft).2 s s.scanEllipsesAfterFirstDot.2 := by
  have hinc := s.moved_incrementPosition
  simp only [scanEllipsesAfterFirstDot, ellipsesAt, hinc.currentChar, currentChar_eq]
  split
  · exact ⟨rfl, .zero s⟩
  split
  · exact ⟨rfl, hinc⟩
  · exact ⟨rfl, hinc.trans (moved_incrementPosition _)⟩

/-! ## Tokens -/

theorem isNamePart_of_isNameStart {ch : Char} (h : isNameStart ch = true) :
    isNamePart ch = true := by
  simp only [isNameStart, isNamePart, Bool.or_eq_true] at h ⊢
  grind

/-- The token that starts with the character just passed, when the start of the token is set to that
character. -/
theorem scanToken_spec {s : GraphQlScanner} {treatKeywordAsName : Bool} {ch : Char} {text : Ustring}
    (htext : s.textLeft = text) (hvalue : s.source.drop s.startPosition = ch :: text)
    (hstart : s.startPosition + 1 = s.position) {token : GraphQlToken} {n : Nat}
    (h : tokenAt treatKeywordAsName (ch :: text) = some (token, n)) :
    (s.scanToken treatKeywordAsName ch).1 = token ∧
      Moved (n - 1) s (s.scanToken treatKeywordAsName ch).2 ∧ 1 ≤ n := by
  rw [tokenAt] at h
  by_cases htrivia : isLineBreak ch ∨ isSeparator ch ∨ ch = '#'
  · rw [if_pos htrivia] at h
    cases h
  · rw [if_neg htrivia] at h
    unfold scanToken
    cases hpunctuation : punctuation ch with
    | some token' =>
      simp only [hpunctuation] at h ⊢
      cases h
      exact ⟨rfl, .zero s, Nat.le_refl 1⟩
    | none =>
      simp only [hpunctuation] at h ⊢
      by_cases hquote : ch = '"'
      · rw [if_pos hquote] at h ⊢
        obtain ⟨m, rfl, hstring⟩ := exists_of_map_add h
        rw [← htext] at hstring
        obtain ⟨htoken, hmoved⟩ := scanStringValue_spec hstring
        exact ⟨htoken, by rw [Nat.add_sub_cancel_left]; exact hmoved, by omega⟩
      · rw [if_neg hquote] at h ⊢
        by_cases hdot : ch = '.'
        · rw [if_pos hdot] at h ⊢
          cases h
          rw [← htext]
          exact ⟨s.scanEllipses_spec.1, s.scanEllipses_spec.2, Nat.succ_le_succ (Nat.zero_le _)⟩
        · rw [if_neg hdot] at h ⊢
          by_cases hnumber : ch = '-' ∨ isDigit ch = true
          · rw [if_pos hnumber] at h ⊢
            cases h
            rw [← htext]
            exact ⟨s.scanNumber_spec.1, s.scanNumber_spec.2, Nat.succ_le_succ (Nat.zero_le _)⟩
          · rw [if_neg hnumber] at h ⊢
            by_cases hname : isNameStart ch = true
            · rw [if_pos hname] at h ⊢
              obtain ⟨hsize, hmoved⟩ :=
                scanNameParts_spec (s.size - s.position) 1 s (Nat.le_refl _)
              rcases hparts : scanNameParts (s.size - s.position) 1 s with ⟨nameSize, s'⟩
              rw [hparts, htext] at hsize hmoved
              have hwhole : (ch :: text).takeWhile isNamePart = ch :: text.takeWhile isNamePart := by
                rw [List.takeWhile_cons, if_pos (isNamePart_of_isNameStart hname)]
              have hname : s'.getValue = ch :: text.takeWhile isNamePart := by
                have hlength : s.position + (text.takeWhile isNamePart).length - s.startPosition =
                    (text.takeWhile isNamePart).length + 1 := by
                  omega
                have hfront : text.take (text.takeWhile isNamePart).length =
                    text.takeWhile isNamePart :=
                  (List.prefix_iff_eq_take.1 (List.takeWhile_prefix isNamePart)).symm
                have hvalue' := hmoved.getValue
                rw [hvalue, hlength, List.take_succ_cons, hfront] at hvalue'
                exact hvalue'
              simp only [nameAt, hwhole, List.length_cons, Option.some.injEq, Prod.mk.injEq] at h
              obtain ⟨rfl, rfl⟩ := h
              simp only at hsize
              rw [Nat.add_sub_cancel, hsize, hname, Nat.add_comm 1]
              split
              · exact ⟨rfl, hmoved, Nat.succ_le_succ (Nat.zero_le _)⟩
              · exact ⟨rfl, hmoved, Nat.succ_le_succ (Nat.zero_le _)⟩
            · rw [if_neg hname] at h ⊢
              cases h
              exact ⟨rfl, .zero s, Nat.le_refl 1⟩

/-! ## Lengths -/

theorem lt_length_of_firstChar {text : Ustring} {k : Nat} (h : firstChar (text.drop k) ≠ '\x00') :
    k < text.length := by
  refine Nat.lt_of_not_le fun hle => h ?_
  rw [List.drop_eq_nil_of_le hle]
  rfl

theorem digits_le (text : Ustring) (k : Nat) : digits (text.drop k) ≤ text.length - k := by
  rw [← List.length_drop]
  exact (List.takeWhile_prefix isDigit).length_le

theorem exponentAt_le {text : Ustring} {k : Nat} (h : k ≤ text.length) :
    k + (exponentAt (text.drop k)).2 ≤ text.length := by
  have hsign : k + (if firstChar (text.drop k) = '-' ∨ firstChar (text.drop k) = '+' then 1 else 0) ≤
      text.length := by
    split
    · next hsign =>
      have hlt : k < text.length := by
        refine lt_length_of_firstChar fun hend => ?_
        rw [hend] at hsign
        exact absurd hsign (by decide)
      omega
    · exact h
  simp only [exponentAt]
  generalize (if firstChar (text.drop k) = '-' ∨ firstChar (text.drop k) = '+' then 1 else 0) = sign
    at hsign ⊢
  split
  · exact hsign
  · have hdigits := digits_le text (k + sign)
    rw [List.drop_drop]
    show k + (sign + digits (text.drop (k + sign))) ≤ text.length
    omega

theorem integerLength_le (text : Ustring) : integerLength text ≤ text.length := by
  unfold integerLength
  split
  · next hzero =>
    have hlt : 0 < text.length := by
      refine lt_length_of_firstChar fun hend => ?_
      rw [List.drop_zero, hzero] at hend
      exact absurd hend (by decide)
    exact hlt
  · have hdigits := digits_le text 0
    rw [List.drop_zero] at hdigits
    exact hdigits

theorem numberAt_le (text : Ustring) : (numberAt text).2 ≤ text.length := by
  have hint := integerLength_le text
  simp only [numberAt]
  generalize integerLength text = n at hint ⊢
  split
  · next hpoint =>
    have hlt : n < text.length := by
      refine lt_length_of_firstChar fun hend => ?_
      rw [hpoint] at hend
      exact absurd hend (by decide)
    split
    · exact hlt
    · have hdigits := digits_le text (n + 1)
      split
      · show n + 1 + digits (text.drop (n + 1)) ≤ text.length
        omega
      · next hexponent =>
        have hlt : n + 1 + digits (text.drop (n + 1)) < text.length := by
          refine lt_length_of_firstChar fun hend => hexponent ?_
          rw [hend]
          decide
        exact exponentAt_le hlt
  · split
    · next hexponent =>
      have hlt : n < text.length := by
        refine lt_length_of_firstChar fun hend => ?_
        rw [hend] at hexponent
        exact absurd hexponent (by decide)
      exact exponentAt_le hlt
    · exact hint

theorem literalAt_le {state : LiteralState} {isTruncated : Bool} {text : Ustring}
    {token : GraphQlToken} {n : Nat} (h : literalAt state isTruncated text = some (token, n)) :
    n ≤ text.length := by
  induction text generalizing state isTruncated n with
  | nil => cases state <;> cases h
  | cons ch text ih =>
    have hrest : ∀ {state isTruncated}, (literalAt state isTruncated text).map
        (Prod.map id (· + 1)) = some (token, n) → n ≤ (ch :: text).length := by
      intro state isTruncated h
      obtain ⟨m, rfl, hrest⟩ := exists_of_map_add h
      have hle := ih hrest
      rw [List.length_cons]
      omega
    have hone : ∀ {token'}, some (token', 1) = some (token, n) → n ≤ (ch :: text).length := by
      intro token' h
      cases h
      exact Nat.succ_le_succ (Nat.zero_le _)
    have hplain : literalAt .plain isTruncated (ch :: text) = some (token, n) →
        n ≤ (ch :: text).length := by
      intro h
      rw [literalAt_plain_cons] at h
      split at h
      · exact hrest h
      split at h
      · exact hone h
      · exact hrest h
    cases state with
    | plain => exact hplain h
    | escape =>
      rw [literalAt] at h
      exact hrest h
    | hexadecimal digits =>
      cases digits with
      | zero => exact hplain (literalAt_zero isTruncated _ ▸ h)
      | succ digits =>
        rw [literalAt] at h
        split at h
        · exact hrest h
        · exact hone h

theorem blockAt_le {text : Ustring} {token : GraphQlToken} {n : Nat}
    (h : blockAt text = some (token, n)) : n ≤ text.length := by
  induction text generalizing n with
  | nil => cases h
  | cons ch text ih =>
    rw [blockAt] at h
    split at h
    · cases h
      exact Nat.zero_le _
    split at h
    · next hclose =>
      cases h
      have hlength := congrArg List.length hclose.2
      simp only [List.length_take, List.length_cons, List.length_nil] at hlength ⊢
      omega
    · obtain ⟨m, rfl, hrest⟩ := exists_of_map_add h
      have hle := ih hrest
      rw [List.length_cons]
      omega

theorem stringAt_le {text : Ustring} {token : GraphQlToken} {n : Nat}
    (h : stringAt text = some (token, n)) : n ≤ text.length := by
  unfold stringAt at h
  split at h
  · next hopen =>
    obtain ⟨m, rfl, hblock⟩ := exists_of_map_add h
    have hle := blockAt_le hblock
    have hlength := congrArg List.length hopen
    simp only [List.length_take, List.length_drop, List.length_cons, List.length_nil] at hlength hle
    omega
  · exact literalAt_le h

theorem ellipsesAt_le (text : Ustring) : (ellipsesAt text).2 ≤ text.length := by
  unfold ellipsesAt
  split
  · exact Nat.zero_le _
  · next hfirst =>
    have hlt : 0 < text.length := by
      refine lt_length_of_firstChar fun hend => hfirst ?_
      rw [List.drop_zero] at hend
      rw [hend]
      decide
    split
    · exact hlt
    · next hsecond =>
      have hlt : 1 < text.length := by
        refine lt_length_of_firstChar fun hend => hsecond ?_
        rw [hend]
        decide
      exact hlt

theorem tokenAt_le {treatKeywordAsName : Bool} {text : Ustring} {token : GraphQlToken} {n : Nat}
    (h : tokenAt treatKeywordAsName text = some (token, n)) : n ≤ text.length := by
  cases text with
  | nil => cases h
  | cons ch text =>
    have hone : ∀ {token'}, some (token', 1) = some (token, n) → n ≤ (ch :: text).length := by
      intro token' h
      cases h
      exact Nat.succ_le_succ (Nat.zero_le _)
    have hnext : ∀ {p : GraphQlToken × Nat}, p.2 ≤ text.length →
        some (Prod.map id (· + 1) p) = some (token, n) → n ≤ (ch :: text).length := by
      intro p hle h
      cases h
      exact Nat.succ_le_succ hle
    rw [tokenAt] at h
    split at h
    · cases h
    split at h
    · exact hone h
    split at h
    · obtain ⟨m, rfl, hstring⟩ := exists_of_map_add h
      have hle := stringAt_le hstring
      rw [List.length_cons]
      omega
    split at h
    · exact hnext (ellipsesAt_le text) h
    split at h
    · exact hnext (numberAt_le text) h
    split at h
    · cases h
      exact (List.takeWhile_prefix isNamePart).length_le
    · exact hone h

end GraphQlScanner

end Flashpoint
