import Flashpoint.Scanner.Delimited

/-!
# Texts that are read again

A text is read back if the scanner takes it, where it stands, for a token that has it as its value. In
front of a comma or a bracket that is so exactly for the texts that are one token (`IsToken`). At the end
of the source there is one kind of text more: a one-line string without its closing quote
(`IsOpenString`), which the scanner takes for a string.
-/

namespace Flashpoint

namespace GraphQlScanner

/-- A text that is one token as a whole. -/
def IsToken (token : GraphQlToken) (text : Ustring) : Prop :=
  tokenAt false text = some (token, text.length)

instance (token : GraphQlToken) (text : Ustring) : Decidable (IsToken token text) :=
  inferInstanceAs (Decidable (_ = _))

/-- Whether a text can be the beginning of a one-line string, without line breaks and without its
closing quote. A backslash at its end is no obstacle, a `\\u` with too few digits is one. -/
def opens : LiteralState → Ustring → Bool
  | .hexadecimal (_ + 1), [] => false
  | _, [] => true
  | .hexadecimal (n + 1), ch :: text => isHexadecimal ch && opens (.hexadecimal n) text
  | .escape, ch :: text =>
    !isLineBreak ch && opens (if ch = 'u' then .hexadecimal 4 else .plain) text
  | _, ch :: text =>
    if ch = '\\' then opens .escape text
    else ch ≠ '"' && !isLineBreak ch && opens .plain text

/-- A one-line string without its closing quote. -/
def IsOpenString (text : Ustring) : Prop := ∃ body, text = '"' :: body ∧ opens .plain body = true

/-- The next token is looked for at the beginning of a text. -/
def StandsAt (s : GraphQlScanner) (text : Ustring) : Prop :=
  ∃ s₁, s.takeNextToken false true = takeNextTokenLoop false true s₁.left s₁ ∧
    s₁.startPosition = s₁.position ∧ s₁.textLeft = text

theorem standsAt_textLeft (s : GraphQlScanner) : s.StandsAt s.textLeft :=
  ⟨s.setTokenStartPosition, rfl, rfl, rfl⟩

/-- The comma and the blank between two elements of a list are passed over. -/
theorem standsAt_of_separated {s : GraphQlScanner} {text : Ustring}
    (h : s.textLeft = ',' :: ' ' :: text) : s.StandsAt text := by
  have hpass : ∀ {s₁ : GraphQlScanner} {ch : Char} {text : Ustring}, s₁.textLeft = ch :: text →
      isSeparator ch = true → ch ≠ '\n' → ch ≠ '\r' →
      takeNextTokenLoop false true s₁.left s₁ = takeNextTokenLoop false true
        s₁.incrementPosition.startAfterSeparator.left s₁.incrementPosition.startAfterSeparator := by
    intro s₁ ch text htext hseparator hfeed hreturn
    rw [left_eq_succ htext, takeNextTokenLoop, if_pos (position_lt_size_of_cons htext)]
    simp only [currentChar_of_cons htext, if_neg hfeed, if_neg hreturn, if_pos hseparator,
      Bool.true_eq_false, if_false]
    rfl
  have hcomma : s.setTokenStartPosition.textLeft = ',' :: ' ' :: text := h
  have hblank : s.setTokenStartPosition.incrementPosition.startAfterSeparator.textLeft =
      ' ' :: text := textLeft_incrementPosition hcomma
  exact ⟨_, (hpass hcomma rfl (by decide) (by decide)).trans
    (hpass hblank rfl (by decide) (by decide)), rfl, textLeft_incrementPosition hblank⟩

/-- A character that no trivia starts with. -/
theorem triviaLength_of_not_isSkipped {ch : Char} {text : Ustring} (h : ¬ IsSkipped ch) :
    triviaLength false (ch :: text) = 0 := by
  simp only [IsSkipped, not_or] at h
  rw [triviaLength, if_neg (not_or.2 ⟨h.1, h.2.1⟩), if_neg h.2.2]

theorem not_isSkipped_of_tokenAt {treatKeywordAsName : Bool} {ch : Char} {text : Ustring}
    {result : GraphQlToken × Nat} (h : tokenAt treatKeywordAsName (ch :: text) = some result) :
    ¬ IsSkipped ch := by
  intro hskipped
  unfold IsSkipped at hskipped
  rw [tokenAt, if_pos hskipped] at h
  cases h

/-- A token that is looked for at its own first character. -/
theorem StandsAt.take {s : GraphQlScanner} {text : Ustring} (h : s.StandsAt text)
    {token : GraphQlToken} {n : Nat} (htoken : tokenAt false text = some (token, n)) :
    (s.takeNextToken false true).1 = token ∧
      (s.takeNextToken false true).2.getValue = text.take n ∧
      (s.takeNextToken false true).2.textLeft = text.drop n := by
  obtain ⟨s₁, htake, hstart, rfl⟩ := h
  have hzero : triviaLength false s₁.textLeft = 0 := by
    cases htext : s₁.textLeft with
    | nil => rfl
    | cons ch text =>
      rw [htext] at htoken
      exact triviaLength_of_not_isSkipped (not_isSkipped_of_tokenAt htoken)
  obtain ⟨hresult, hsource, hbegin, hposition, -⟩ := takeNextTokenLoop_spec s₁.left (Nat.le_refl _)
    hstart (by rw [hzero]; exact fun i hi => absurd hi (Nat.not_lt_zero i))
    (by rw [hzero, List.drop_zero]; exact htoken)
  rw [hzero, Nat.add_zero] at hbegin hposition
  rw [htake]
  refine ⟨hresult, ?_, ?_⟩
  · rw [getValue, length, hsource, hbegin, hposition, Nat.add_sub_cancel_left]
    rfl
  · rw [textLeft, hsource, hposition, textLeft, List.drop_drop]

section Delimits

variable {rest : Ustring} (hrest : Delimits rest)

include hrest

/-- A text that is one token is taken as it stands. -/
theorem StandsAt.take_isToken {s : GraphQlScanner} {text : Ustring} (h : s.StandsAt (text ++ rest))
    {token : GraphQlToken} (hknown : token ≠ .unknown) (htoken : IsToken token text) :
    (s.takeNextToken false true).1 = token ∧ (s.takeNextToken false true).2.getValue = text ∧
      (s.takeNextToken false true).2.textLeft = rest := by
  cases text with
  | nil => cases htoken
  | cons ch text =>
    have hwhole := h.take ((tokenAt_append_iff hrest hknown (Nat.le_refl _)).2 htoken)
    rw [List.take_left, List.drop_left] at hwhole
    exact hwhole

end Delimits

/-! ## Strings without their closing quote -/

theorem opens_zero (text : Ustring) : opens (.hexadecimal 0) text = opens .plain text := by
  cases text <;> rfl

theorem opens_plain_cons (ch : Char) (text : Ustring) : opens .plain (ch :: text) =
    if ch = '\\' then opens .escape text else ch ≠ '"' && !isLineBreak ch && opens .plain text := rfl

/-- The text that is left after a part of a string can be what the text before it can be. -/
def KeepsOpen (isOpen : Bool) (result : Bool × GraphQlScanner) : Prop :=
  (result.1 = false ∧ isOpen = false) ∨ (result.1 = true ∧ opens .plain result.2.textLeft = isOpen)

theorem keepsOpen_hexadecimal (p l c digits : Nat) (s : GraphQlScanner) :
    KeepsOpen (opens (.hexadecimal digits) s.textLeft) (scanHexadecimalEscape p l c digits s) := by
  induction digits generalizing s with
  | zero =>
    rw [opens_zero]
    exact .inr ⟨rfl, rfl⟩
  | succ digits ih =>
    rw [scanHexadecimalEscape]
    cases htext : s.textLeft with
    | nil =>
      rw [if_neg (by rw [currentChar_of_nil htext]; decide)]
      exact .inl ⟨rfl, rfl⟩
    | cons ch text =>
      rw [currentChar_of_cons htext, opens]
      by_cases hhex : isHexadecimal ch = true
      · rw [if_pos hhex, hhex, Bool.true_and, ← textLeft_incrementPosition htext]
        exact ih s.incrementPosition
      · rw [if_neg hhex, Bool.of_not_eq_true hhex, Bool.false_and]
        exact .inl ⟨rfl, rfl⟩

theorem keepsOpen_escape (s : GraphQlScanner) :
    KeepsOpen (opens .escape s.incrementPosition.textLeft) s.scanEscapeSequence := by
  simp only [scanEscapeSequence]
  generalize s.incrementPosition = s₁
  cases htext : s₁.textLeft with
  | nil =>
    have hother : ¬ '\x00' ∈ ['"', '\\', '/', 'b', 'f', 'n', 'r', 't'] := by decide
    rw [currentChar_of_nil htext, if_neg hother, if_neg (by decide)]
    refine .inr ⟨rfl, ?_⟩
    rw [htext]
    rfl
  | cons ch text =>
    rw [currentChar_of_cons htext, opens]
    by_cases hsimple : ch ∈ ['"', '\\', '/', 'b', 'f', 'n', 'r', 't']
    · have hplain : ch ≠ 'u' ∧ isLineBreak ch = false := by
        simp only [List.mem_cons, List.not_mem_nil, or_false] at hsimple
        rcases hsimple with rfl | rfl | rfl | rfl | rfl | rfl | rfl | rfl <;> decide
      rw [if_pos hsimple, if_neg hplain.1, hplain.2, ← textLeft_incrementPosition htext]
      exact .inr ⟨rfl, rfl⟩
    · rw [if_neg hsimple]
      by_cases hu : ch = 'u'
      · have hbreak : isLineBreak ch = false := by rw [hu]; decide
        rw [if_pos hu, if_pos hu, hbreak, ← textLeft_incrementPosition htext]
        exact keepsOpen_hexadecimal _ _ _ 4 _
      · -- the character is left to the loop of the string
        have hbackslash : ch ≠ '\\' := by
          rintro rfl
          exact hsimple (by decide)
        have hquote : ch ≠ '"' := by
          rintro rfl
          exact hsimple (by decide)
        rw [if_neg hu, if_neg hu]
        refine .inr ⟨rfl, ?_⟩
        rw [htext, opens_plain_cons, if_neg hbackslash, decide_eq_true hquote, Bool.true_and]

theorem finish_fst (p l c : Nat) (isTruncated : Bool) (s : GraphQlScanner) :
    (scanStringLiteralLoop.finish p l c isTruncated s).1 = .gStringValue ↔ isTruncated = false := by
  cases isTruncated
  · exact ⟨fun _ => rfl, fun _ => rfl⟩
  · exact ⟨fun h => (by cases h), fun h => (by cases h)⟩

/-- What the loop makes of a string that the text does not hold. -/
theorem scanStringLiteralLoop_open (p l c fuel : Nat) {isTruncated : Bool} {s : GraphQlScanner}
    (hfuel : s.leftWithEnd ≤ fuel) (h : literalAt .plain isTruncated s.textLeft = none) :
    (scanStringLiteralLoop p l c fuel isTruncated s).1 = .gStringValue ↔
      isTruncated = false ∧ opens .plain s.textLeft = true := by
  have hatEnd : s.position > s.size → opens .plain s.textLeft = true := by
    intro hpast
    have hnil : s.textLeft = [] := List.drop_eq_nil_of_le (Nat.le_of_lt hpast)
    rw [hnil]
    rfl
  induction fuel generalizing isTruncated s with
  | zero =>
    have hpast : s.position > s.size := by
      simp only [leftWithEnd] at hfuel
      omega
    rw [scanStringLiteralLoop, finish_fst, and_iff_left (hatEnd hpast)]
  | succ fuel ih =>
    rw [scanStringLiteralLoop]
    by_cases hpast : s.position > s.size
    · rw [if_pos hpast, finish_fst, and_iff_left (hatEnd hpast)]
    rw [if_neg hpast]
    have hrest : ∀ {isTruncated : Bool} {s₁ : GraphQlScanner}, Scans s.incrementPosition s₁ →
        literalAt .plain isTruncated s₁.textLeft = none →
        ((scanStringLiteralLoop p l c fuel isTruncated s₁).1 = .gStringValue ↔
          isTruncated = false ∧ opens .plain s₁.textLeft = true) := by
      intro isTruncated s₁ hscans hnone
      have hless := leftWithEnd_lt_of_scans hscans hpast
      refine ih (by omega) hnone fun hpast₁ => ?_
      have hnil : s₁.textLeft = [] := List.drop_eq_nil_of_le (Nat.le_of_lt hpast₁)
      rw [hnil]
      rfl
    cases htext : s.textLeft with
    | nil =>
      have hnil : s.incrementPosition.textLeft = [] := by
        rw [s.moved_incrementPosition.textLeft, htext]
        rfl
      rw [currentChar_of_nil htext, if_neg (by decide), if_neg (by decide), if_neg (by decide),
        hrest .rfl (by rw [hnil]; rfl), hnil]
    | cons ch text =>
      rw [htext, literalAt_plain_cons] at h
      rw [currentChar_of_cons htext, opens_plain_cons]
      by_cases hbackslash : ch = '\\'
      · rw [if_pos hbackslash] at h ⊢
        rw [if_pos hbackslash]
        rw [Option.map_eq_none_iff, ← textLeft_incrementPosition htext] at h
        have hscans := scans_scanEscapeSequence_rest s
        have hout := runsOut_escape h
        have hkeeps := keepsOpen_escape s
        rw [textLeft_incrementPosition htext] at hkeeps
        rcases hescape : s.scanEscapeSequence with ⟨result, s₁⟩
        rw [hescape] at hscans hout hkeeps
        cases result with
        | false =>
          have hclosed : opens .escape text = false := by
            rcases hkeeps with ⟨-, hclosed⟩ | ⟨htrue, -⟩
            · exact hclosed
            · cases htrue
          rw [hclosed]
          exact ⟨fun htoken => (by cases htoken), fun hopen => absurd hopen.2 Bool.false_ne_true⟩
        | true =>
          have hnone : literalAt .plain isTruncated s₁.textLeft = none := by
            rcases hout with ⟨hfalse, -⟩ | ⟨-, hnone⟩
            · cases hfalse
            · exact hnone
          have hsame : opens .plain s₁.textLeft = opens .escape text := by
            rcases hkeeps with ⟨hfalse, -⟩ | ⟨-, hsame⟩
            · cases hfalse
            · exact hsame
          rw [← hsame]
          exact hrest hscans hnone
      · rw [if_neg hbackslash] at h ⊢
        rw [if_neg hbackslash]
        split at h
        · cases h
        next hquote =>
        rw [Option.map_eq_none_iff, ← textLeft_incrementPosition htext] at h
        rw [decide_eq_true hquote, Bool.true_and, if_neg hquote]
        split
        · next hbreak =>
          have hline : isLineBreak ch = true := by simp [isLineBreak, hbreak]
          rw [hline, Bool.or_true] at h
          rw [hrest .rfl h, hline]
          simp
        · next hbreak =>
          have hline : isLineBreak ch = false := by
            simp only [isLineBreak, not_or] at hbreak ⊢
            simp [hbreak.1, hbreak.2]
          rw [hline, Bool.or_false] at h
          rw [hrest .rfl h, hline, textLeft_incrementPosition htext]
          rfl

/-- A block string that the text does not hold is no string. -/
theorem scanStringBlockLoop_open (fuel : Nat) {s : GraphQlScanner} (h : blockAt s.textLeft = none) :
    (scanStringBlockLoop fuel s).1 = .unknown := by
  induction fuel generalizing s with
  | zero => rfl
  | succ fuel ih =>
    cases htext : s.textLeft with
    | nil =>
      have hrest : blockAt s.incrementPosition.textLeft = none := by
        rw [s.moved_incrementPosition.textLeft, htext]
        rfl
      have hquote : ¬ '\x00' = '"' := by decide
      have hsource : isSourceCharacter '\x00' = false := by decide
      rw [scanStringBlockLoop]
      split
      · rfl
      · simp only [currentChar_of_nil htext, hquote, false_and, if_false, hsource,
          Bool.false_eq_true]
        exact ih hrest
    | cons ch text =>
      rw [htext, blockAt] at h
      rw [scanStringBlockLoop_cons htext]
      split
      · rfl
      next hnear =>
      rw [if_neg hnear] at h
      split
      · next hclose =>
        rw [if_pos hclose] at h
        cases h
      · next hclose =>
        rw [if_neg hclose, Option.map_eq_none_iff, ← textLeft_passBlockCharacter htext] at h
        exact ih h

/-- A string that the text does not hold takes all of it, and is a string if it is on one line. -/
theorem scanStringValue_open {s : GraphQlScanner} (h : stringAt s.textLeft = none) :
    s.size < s.scanStringValue.2.position ∧
      (s.scanStringValue.1 = .gStringValue ↔ opens .plain s.textLeft = true) := by
  have hquotes : (s.currentChar = '"' ∧ s.charAtPosition (s.position + 1) = '"') ↔
      s.textLeft.take 2 = ['"', '"'] := by
    rw [currentChar_eq, charAtPosition_add, take_two_eq_iff]
  simp only [scanStringValue, hquotes]
  unfold stringAt at h
  split at h
  · next hblock =>
    rw [if_pos hblock]
    have hopen : Moved 2 s { s.incrementPosition.incrementPosition with stringLiteral := [] } :=
      ⟨rfl, rfl, rfl⟩
    rw [Option.map_eq_none_iff, ← hopen.textLeft] at h
    have hunknown : s.incrementPosition.incrementPosition.scanStringBlockAfterDoubleQuotes.1 =
        .unknown := scanStringBlockLoop_open _ h
    refine ⟨scanStringBlockLoop_past _ (Nat.le_refl _) h, ?_⟩
    rw [hunknown]
    cases htext : s.textLeft with
    | nil =>
      rw [htext] at hblock
      cases hblock
    | cons ch text =>
      rw [htext, List.take_succ_cons] at hblock
      obtain rfl := (List.cons.inj hblock).1
      simp [opens_plain_cons]
  · next hblock =>
    rw [if_neg hblock]
    have htoken : s.scanStringLiteral.1 = .gStringValue ↔
        false = false ∧ opens .plain s.textLeft = true :=
      scanStringLiteralLoop_open s.position s.line s.column (s.size + 1 - s.position)
        (s := { s with stringLiteral := [] }) (Nat.le_refl _) h
    have hpast : s.size < s.scanStringLiteral.2.position :=
      scanStringLiteralLoop_past s.position s.line s.column (s.size + 1 - s.position)
        (s := { s with stringLiteral := [] }) (Nat.le_refl _) h
    exact ⟨hpast, htoken.trans (and_iff_right rfl)⟩

theorem literalAt_of_opens {state : LiteralState} {text : Ustring} (isTruncated : Bool)
    (h : opens state text = true) : literalAt state isTruncated text = none := by
  induction text generalizing state isTruncated with
  | nil => cases state <;> rfl
  | cons ch text ih =>
    have hplain : opens .plain (ch :: text) = true →
        literalAt .plain isTruncated (ch :: text) = none := by
      intro h
      rw [opens_plain_cons] at h
      rw [literalAt_plain_cons]
      split
      · next hbackslash =>
        rw [if_pos hbackslash] at h
        rw [Option.map_eq_none_iff]
        exact ih _ h
      · next hbackslash =>
        simp only [if_neg hbackslash, Bool.and_eq_true, decide_eq_true_eq] at h
        rw [if_neg h.1.1, Option.map_eq_none_iff]
        exact ih _ h.2
    cases state with
    | plain => exact hplain h
    | escape =>
      rw [opens, Bool.and_eq_true] at h
      rw [literalAt, Option.map_eq_none_iff]
      exact ih _ h.2
    | hexadecimal digits =>
      cases digits with
      | zero =>
        rw [opens_zero] at h
        rw [literalAt_zero]
        exact hplain h
      | succ digits =>
        rw [opens, Bool.and_eq_true] at h
        rw [literalAt, if_pos h.1, Option.map_eq_none_iff]
        exact ih _ h.2

theorem stringAt_of_opens {text : Ustring} (h : opens .plain text = true) : stringAt text = none := by
  have hline : text.take 2 ≠ ['"', '"'] := by
    intro hblock
    cases text with
    | nil => cases hblock
    | cons ch text =>
      rw [List.take_succ_cons] at hblock
      obtain rfl := (List.cons.inj hblock).1
      simp [opens_plain_cons] at h
  rw [stringAt, if_neg hline]
  exact literalAt_of_opens _ h

/-! ## Texts that are the value of a token -/

/-- A string is read behind its first quote. -/
theorem StandsAt.take_string {s : GraphQlScanner} {text : Ustring} (h : s.StandsAt ('"' :: text)) :
    ∃ s₁ : GraphQlScanner, s.takeNextToken false true = s₁.incrementPosition.scanStringValue ∧
      s₁.startPosition = s₁.position ∧ s₁.textLeft = '"' :: text := by
  obtain ⟨s₁, htake, hstart, htext⟩ := h
  refine ⟨s₁, htake.trans ?_, hstart, htext⟩
  rw [left_eq_succ htext, takeNextTokenLoop, if_pos (position_lt_size_of_cons htext)]
  rw [currentChar_of_cons htext]
  rfl

/-- Where no token is, behind trivia, a string is left open. -/
theorem open_of_tokenAt_none {treatKeywordAsName : Bool} {ch : Char} {text : Ustring}
    (hskipped : ¬ IsSkipped ch) (h : tokenAt treatKeywordAsName (ch :: text) = none) :
    ch = '"' ∧ stringAt text = none := by
  unfold IsSkipped at hskipped
  rw [tokenAt, if_neg hskipped] at h
  split at h
  · cases h
  split at h
  · next hquote => exact ⟨hquote, Option.map_eq_none_iff.1 h⟩
  split at h
  · cases h
  split at h
  · cases h
  split at h
  · cases h
  · cases h

/-- A string that does not end where it is looked for takes the whole text. -/
theorem StandsAt.take_open {s : GraphQlScanner} {text : Ustring} (h : s.StandsAt ('"' :: text))
    (hnone : stringAt text = none) :
    (s.takeNextToken false true).2.getValue = '"' :: text ∧
      ((s.takeNextToken false true).1 = .gStringValue ↔ opens .plain text = true) ∧
      (s.takeNextToken false true).2.textLeft = [] := by
  obtain ⟨s₁, htake, hstart, htext⟩ := h.take_string
  rw [← textLeft_incrementPosition htext] at hnone
  obtain ⟨hpast, htoken⟩ := scanStringValue_open hnone
  have halong := s₁.incrementPosition.along_scanStringValue
  rw [textLeft_incrementPosition htext] at htoken
  rw [htake]
  have hsize : s₁.incrementPosition.size = s₁.size := rfl
  have hsource : s₁.incrementPosition.scanStringValue.2.source = s₁.source := halong.source
  refine ⟨?_, htoken, ?_⟩
  · have hbegin : s₁.incrementPosition.scanStringValue.2.startPosition = s₁.position :=
      halong.startPosition.trans hstart
    rw [getValue, length, hbegin, hsource, ← htext, textLeft]
    refine List.take_of_length_le ?_
    rw [List.length_drop]
    show s₁.size - s₁.position ≤ _
    omega
  · rw [textLeft, hsource]
    exact List.drop_eq_nil_of_le (Nat.le_of_lt hpast)

section Delimits

variable {rest : Ustring} (hrest : Delimits rest)

include hrest

/-- A text that is the value of the token taken at its place is one token, or a string without its
closing quote at the end of the source. -/
theorem StandsAt.isToken_of_value {s : GraphQlScanner} {text : Ustring}
    (h : s.StandsAt (text ++ rest)) {token : GraphQlToken} (hend : token ≠ .endOfDocument)
    (hknown : token ≠ .unknown) (hvalid : token ≠ .invalidString)
    (htoken : (s.takeNextToken false true).1 = token)
    (hvalue : (s.takeNextToken false true).2.getValue = text) :
    IsToken token text ∨ rest = [] ∧ token = .gStringValue ∧ IsOpenString text := by
  obtain ⟨s₁, htake, hstart, htext⟩ := id h
  have hloop : (takeNextTokenLoop false true s₁.left s₁).1 ≠ .endOfDocument := by
    rw [← htake, htoken]
    exact hend
  have hread : (takeNextTokenLoop false true s₁.left s₁).2.getValue = text := by
    rw [← htake]
    exact hvalue
  have hfeed : rest.head? ≠ some '\n' := hrest.head_ne (by decide) (by decide)
  cases text with
  | nil =>
    -- a token is not empty
    obtain ⟨d, k, n, ch, -, hch, -, -, hn, htaken⟩ := value_of_takeNextTokenLoop _ hstart hloop
    rw [hread] at htaken
    have hsome : ((s₁.textLeft.drop d).take n)[k]? = some ch := by
      rw [List.getElem?_take_of_lt hn, List.getElem?_drop, Nat.add_comm]
      exact hch
    rw [← htaken] at hsome
    cases hsome
  | cons ch text =>
    by_cases hskipped : IsSkipped ch
    · have hhead : ∀ c ∈ s₁.textLeft.head?, IsSkipped c := by
        intro c hc
        rw [htext] at hc
        cases hc
        exact hskipped
      exact absurd hread (value_ne_of_trivia _ hstart htext hfeed hhead hloop)
    cases hat : tokenAt false (ch :: text ++ rest) with
    | none =>
      -- the text holds no token only where a string does not end in it
      obtain ⟨hquote, hnone⟩ := open_of_tokenAt_none hskipped hat
      subst hquote
      have hstands : s.StandsAt ('"' :: (text ++ rest)) := h
      obtain ⟨hall, hopens, -⟩ := hstands.take_open hnone
      have hempty : rest = [] := by
        rw [hvalue] at hall
        have hlength := congrArg List.length hall
        simp only [List.length_cons, List.length_append] at hlength
        exact List.eq_nil_of_length_eq_zero (by omega)
      subst hempty
      rw [List.append_nil] at hopens
      have hstring : token = .gStringValue := by
        have hmem : token ∈ stringTokens := by
          obtain ⟨s₂, hscan, -, -⟩ := h.take_string
          rw [← htoken, hscan]
          exact scanStringValue_mem _
        simp only [stringTokens, List.mem_cons, List.not_mem_nil, or_false] at hmem
        rcases hmem with hmem | hmem | hmem
        · exact hmem
        · exact absurd hmem hvalid
        · exact absurd hmem hknown
      exact .inr ⟨rfl, hstring, text, rfl, hopens.1 (htoken.trans hstring)⟩
    | some result =>
      obtain ⟨token', n⟩ := result
      obtain ⟨hsame, hprefix, -⟩ := h.take hat
      obtain rfl : token' = token := hsame.symm.trans htoken
      have hn : n = (ch :: text).length := by
        have hle := tokenAt_le hat
        have hlength := congrArg List.length (hvalue.symm.trans hprefix)
        rw [List.length_take] at hlength
        omega
      rw [hn] at hat
      exact .inl ((tokenAt_append_iff hrest hknown (Nat.le_refl _)).1 hat)

end Delimits

end GraphQlScanner

end Flashpoint
