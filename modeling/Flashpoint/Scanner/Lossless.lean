import Flashpoint.Scanner.Lexeme
import Flashpoint.Scanner.Text

/-!
# Nothing of the source is lost

A call of `take_next_token` divides the text before it into trivia and a lexeme, as long as two things
do not happen. A carriage return in the trivia must not stand two characters before a line feed: the
scanner compares the wrong character, passes over the one between, and moves the start of the token
once only. And a string must end inside of the source: otherwise the scanner ends behind it.
-/

namespace Flashpoint

namespace GraphQlScanner

/-- A text that is trivia as a whole. -/
def IsTrivia (text : Ustring) : Prop := triviaLength false text = text.length

/-- The text between two positions. -/
def between (s : GraphQlScanner) (start stop : Nat) : Ustring :=
  (s.source.drop start).take (stop - start)

/-- A call that divides the text into trivia and the lexeme of its token, or meets the end after
trivia. -/
structure Lossless (treatKeywordAsName : Bool) (s : GraphQlScanner) : Prop where
  token : ∀ token s', s.takeNextToken treatKeywordAsName true = (token, s') →
    token ≠ .endOfDocument →
      s.position ≤ s'.startPosition ∧ s'.startPosition < s'.position ∧ s'.position ≤ s.size ∧
        IsTrivia (s.between s.position s'.startPosition) ∧
        s'.getValue = s.between s'.startPosition s'.position ∧
        tokenAt treatKeywordAsName (s.source.drop s'.startPosition) =
          some (token, s'.position - s'.startPosition)
  atEnd : (s.takeNextToken treatKeywordAsName true).1 = .endOfDocument → IsTrivia s.textLeft

/-- Where a token follows: no carriage return of the trivia before it stands two characters before a
line feed, and the token, if it is a string, ends inside of the source. -/
def Readable (s : GraphQlScanner) : Prop :=
  let n := triviaLength false s.textLeft
  n < s.textLeft.length →
    (∀ i < n, s.textLeft[i]? = some '\r' → s.textLeft[i + 2]? ≠ some '\n') ∧
      (s.textLeft[n]? = some '"' → (stringAt (s.textLeft.drop (n + 1))).isSome)

instance (s : GraphQlScanner) : Decidable (Readable s) :=
  inferInstanceAs (Decidable (triviaLength false s.textLeft < s.textLeft.length →
    (∀ i < triviaLength false s.textLeft,
      s.textLeft[i]? = some '\r' → s.textLeft[i + 2]? ≠ some '\n') ∧
    (s.textLeft[triviaLength false s.textLeft]? = some '"' →
      (stringAt (s.textLeft.drop (triviaLength false s.textLeft + 1))).isSome = true)))

/-- The calls of a run, one after the other. -/
def EachCall (p : Bool → GraphQlScanner → Prop) : List Bool → GraphQlScanner → Prop
  | [], _ => True
  | treatKeywordAsName :: modes, s =>
    p treatKeywordAsName s ∧ EachCall p modes (s.takeNextToken treatKeywordAsName true).2

/-- The trivia and the lexemes of the calls of a run, up to the end of the document. -/
def pieces : List Bool → GraphQlScanner → List (Ustring × Ustring)
  | [], _ => []
  | treatKeywordAsName :: modes, s =>
    let (token, s') := s.takeNextToken treatKeywordAsName true
    if token = .endOfDocument then [(s.textLeft, [])]
    else (s.between s.position s'.startPosition, s'.getValue) :: pieces modes s'

/-- What a run leaves of the text. -/
def unread : List Bool → GraphQlScanner → Ustring
  | [], s => s.textLeft
  | treatKeywordAsName :: modes, s =>
    let (token, s') := s.takeNextToken treatKeywordAsName true
    if token = .endOfDocument then [] else unread modes s'

/-! ## Trivia -/

theorem triviaLength_take (comment : Bool) (text : Ustring) :
    triviaLength comment (text.take (triviaLength comment text)) = triviaLength comment text := by
  induction text generalizing comment with
  | nil => cases comment <;> rfl
  | cons ch text ih =>
    cases comment with
    | true =>
      simp only [triviaLength, Nat.add_comm 1, List.take_succ_cons]
      rw [ih]
    | false =>
      simp only [triviaLength]
      by_cases hskip : isLineBreak ch ∨ isSeparator ch
      · rw [if_pos hskip, Nat.add_comm 1, List.take_succ_cons]
        simp only [triviaLength, if_pos hskip]
        rw [ih, Nat.add_comm]
      · rw [if_neg hskip]
        by_cases hhash : ch = '#'
        · rw [if_pos hhash, Nat.add_comm 1, List.take_succ_cons]
          simp only [triviaLength, if_neg hskip, if_pos hhash]
          rw [ih, Nat.add_comm]
        · rw [if_neg hhash]
          rfl

theorem triviaLength_le (comment : Bool) (text : Ustring) :
    triviaLength comment text ≤ text.length := by
  induction text generalizing comment with
  | nil => cases comment <;> exact Nat.le_refl 0
  | cons ch text ih =>
    cases comment with
    | true =>
      have hle := ih (!isLineBreak ch)
      simp only [triviaLength, List.length_cons]
      omega
    | false =>
      have hfalse := ih false
      have htrue := ih true
      simp only [triviaLength, List.length_cons]
      split
      · omega
      split
      · omega
      · omega

theorem isTrivia_take (text : Ustring) : IsTrivia (text.take (triviaLength false text)) := by
  have hle := triviaLength_le false text
  rw [IsTrivia, triviaLength_take, List.length_take]
  omega

/-- The cursor and the start of the token have moved on together. -/
structure Skipped (n : Nat) (s s' : GraphQlScanner) : Prop where
  source : s'.source = s.source
  position : s'.position = s.position + n
  startPosition : s'.startPosition = s.startPosition + n

namespace Skipped

variable {s s' s'' : GraphQlScanner} {n m : Nat}

theorem zero (s : GraphQlScanner) : Skipped 0 s s := ⟨rfl, rfl, rfl⟩

theorem trans (h : Skipped n s s') (h' : Skipped m s' s'') : Skipped (n + m) s s'' where
  source := h'.source.trans h.source
  position := by rw [h'.position, h.position, Nat.add_assoc]
  startPosition := by rw [h'.startPosition, h.startPosition, Nat.add_assoc]

theorem textLeft (h : Skipped n s s') : s'.textLeft = s.textLeft.drop n := by
  simp only [GraphQlScanner.textLeft, h.source, h.position, List.drop_drop]

theorem left (h : Skipped n s s') : s'.left = s.left - n := by
  simp only [GraphQlScanner.left, size, h.source, h.position]
  omega

end Skipped

/-- A comment goes on to the line break after it, or to the end. -/
theorem skipComment_spec (fuel : Nat) {s : GraphQlScanner} (hfuel : s.left ≤ fuel) :
    ∃ n, Skipped n s (skipComment fuel s) ∧
      triviaLength true s.textLeft = n + triviaLength false (s.textLeft.drop n) := by
  induction fuel generalizing s with
  | zero =>
    refine ⟨0, .zero s, ?_⟩
    rw [textLeft_eq_nil (Nat.le_zero.1 hfuel)]
    rfl
  | succ fuel ih =>
    cases htext : s.textLeft with
    | nil =>
      have hend : ¬ s.position < s.size := by
        rw [position_lt_size_iff, htext]
        simp
      simp only [skipComment, hend, false_and, if_false]
      exact ⟨0, .zero s, rfl⟩
    | cons ch text =>
      have hlt := position_lt_size_of_cons htext
      simp only [skipComment, hlt, true_and, currentChar_of_cons htext]
      by_cases hbreak : isLineBreak ch = false
      · have hstep : Skipped 1 s s.incrementPosition.startAfterSeparator := ⟨rfl, rfl, rfl⟩
        have hleft := left_eq_succ htext
        obtain ⟨n, hrest, hlength⟩ := ih (s := s.incrementPosition.startAfterSeparator)
          (by rw [hstep.left]; omega)
        rw [hstep.textLeft, htext] at hlength
        rw [if_pos hbreak]
        refine ⟨1 + n, hstep.trans hrest, ?_⟩
        simp only [triviaLength, hbreak, Bool.not_false, Nat.add_comm 1, List.drop_succ_cons]
        simp only [List.drop_one, List.tail_cons] at hlength
        rw [hlength]
        omega
      · rw [if_neg hbreak]
        refine ⟨0, .zero s, ?_⟩
        have hbreak : isLineBreak ch = true := Bool.of_not_eq_false hbreak
        simp [triviaLength, hbreak]

/-! ## One call -/

/-- The result of a call that starts at `s`: trivia, then a token of `n` characters. -/
def Reads (s : GraphQlScanner) (token : GraphQlToken) (n : Nat)
    (result : GraphQlToken × GraphQlScanner) : Prop :=
  result.1 = token ∧ result.2.source = s.source ∧
    result.2.startPosition = s.position + triviaLength false s.textLeft ∧
    result.2.position = s.position + triviaLength false s.textLeft + n ∧ 1 ≤ n

theorem takeNextTokenLoop_spec {treatKeywordAsName : Bool} (fuel : Nat) {s : GraphQlScanner}
    (hfuel : s.left ≤ fuel) (hstart : s.startPosition = s.position)
    (hreturns : ∀ i < triviaLength false s.textLeft,
      s.textLeft[i]? = some '\r' → s.textLeft[i + 2]? ≠ some '\n')
    {token : GraphQlToken} {n : Nat}
    (h : tokenAt treatKeywordAsName (s.textLeft.drop (triviaLength false s.textLeft)) =
      some (token, n)) :
    Reads s token n (takeNextTokenLoop treatKeywordAsName true fuel s) := by
  induction fuel generalizing s with
  | zero =>
    rw [textLeft_eq_nil (Nat.le_zero.1 hfuel)] at h
    cases h
  | succ fuel ih =>
    cases htext : s.textLeft with
    | nil =>
      rw [htext] at h
      cases h
    | cons ch text =>
      have hlt := position_lt_size_of_cons htext
      have hleft := left_eq_succ htext
      -- after some of the trivia, the rest of it and the token are left to the next turn
      have hnext : ∀ {k : Nat} {s₁ : GraphQlScanner}, Skipped k s s₁ → 1 ≤ k →
          triviaLength false s.textLeft = k + triviaLength false (s.textLeft.drop k) →
          Reads s token n (takeNextTokenLoop treatKeywordAsName true fuel s₁) := by
        intro k s₁ hskip hk hlength
        have hreads := ih (s := s₁) (by rw [hskip.left]; omega)
          (by rw [hskip.startPosition, hskip.position, hstart])
          (by
            rw [hskip.textLeft]
            intro i hi
            rw [List.getElem?_drop, List.getElem?_drop]
            exact hreturns (k + i) (by omega))
          (by rw [hskip.textLeft, List.drop_drop, ← hlength]; exact h)
        obtain ⟨htoken, hsource, hbegin, hposition, hn⟩ := hreads
        rw [hskip.textLeft, hskip.position] at hbegin hposition
        exact ⟨htoken, hsource.trans hskip.source, by rw [hbegin, hlength]; omega,
          by rw [hposition, hlength]; omega, hn⟩
      simp only [takeNextTokenLoop, hlt, if_true, currentChar_of_cons htext, Bool.true_eq_false,
        if_false]
      rw [htext] at hnext hreturns h
      by_cases hbreak : isLineBreak ch = true
      · have hlength : triviaLength false (ch :: text) = 1 + triviaLength false text := by
          rw [triviaLength, if_pos (.inl hbreak)]
        by_cases hfeed : ch = '\n'
        · rw [if_pos hfeed]
          exact hnext (k := 1) ⟨rfl, rfl, rfl⟩ (Nat.le_refl 1) hlength
        · have hreturn : ch = '\r' := by
            simpa [isLineBreak, hfeed] using hbreak
          rw [if_neg hfeed, if_pos hreturn]
          have hnofeed : s.incrementPosition.skipLineFeed = s.incrementPosition := by
            have hchar : s.incrementPosition.charAtPosition (s.incrementPosition.position + 1) ≠
                '\n' := by
              rw [charAtPosition_add, textLeft_incrementPosition htext]
              have hlookup := hreturns 0 (by omega) (by rw [hreturn]; rfl)
              intro hfirst
              apply hlookup
              simp only [firstChar, List.headD_eq_head?_getD, List.head?_drop] at hfirst
              simp only [Nat.zero_add, List.getElem?_cons_succ]
              cases hget : text[1]? with
              | none =>
                rw [hget] at hfirst
                exact absurd hfirst (by decide)
              | some c =>
                rw [hget] at hfirst
                exact congrArg some hfirst
            rw [skipLineFeed, if_neg hchar]
          rw [hnofeed]
          exact hnext (k := 1) ⟨rfl, rfl, rfl⟩ (Nat.le_refl 1) hlength
      · have hfeed : ¬ ch = '\n' := by
          rintro rfl
          exact hbreak (by decide)
        have hreturn : ¬ ch = '\r' := by
          rintro rfl
          exact hbreak (by decide)
        rw [if_neg hfeed, if_neg hreturn]
        by_cases hseparator : isSeparator ch = true
        · rw [if_pos hseparator]
          have hlength : triviaLength false (ch :: text) = 1 + triviaLength false text := by
            rw [triviaLength, if_pos (.inr hseparator)]
          exact hnext (k := 1) ⟨rfl, rfl, rfl⟩ (Nat.le_refl 1) hlength
        · rw [if_neg hseparator]
          have hskip : ¬ (isLineBreak ch = true ∨ isSeparator ch = true) := by
            rintro (hb | hs)
            · exact hbreak hb
            · exact hseparator hs
          by_cases hhash : ch = '#'
          · rw [if_pos hhash]
            have hstep : Skipped 1 s s.incrementPosition.startAfterSeparator := ⟨rfl, rfl, rfl⟩
            obtain ⟨k, hcomment, hlength⟩ := skipComment_spec
              (s.incrementPosition.startAfterSeparator.size -
                s.incrementPosition.startAfterSeparator.position)
              (s := s.incrementPosition.startAfterSeparator) (Nat.le_refl _)
            rw [hstep.textLeft, htext] at hlength
            refine hnext (hstep.trans hcomment) (by omega) ?_
            rw [triviaLength, if_neg hskip, if_pos hhash, Nat.add_assoc, Nat.add_comm 1 k,
              List.drop_succ_cons]
            simp only [List.drop_one, List.tail_cons] at hlength
            rw [hlength]
          · rw [if_neg hhash]
            have hzero : triviaLength false (ch :: text) = 0 := by
              rw [triviaLength, if_neg hskip, if_neg hhash]
            rw [hzero, List.drop_zero] at h
            have hvalue : s.incrementPosition.source.drop s.incrementPosition.startPosition =
                ch :: text := by
              show s.source.drop s.startPosition = ch :: text
              rw [hstart]
              exact htext
            obtain ⟨htoken, hmoved, hn⟩ := scanToken_spec (textLeft_incrementPosition htext) hvalue
              (congrArg (· + 1) hstart) h
            refine ⟨htoken, hmoved.source, ?_, ?_, hn⟩
            · rw [htext, hzero, hmoved.startPosition]
              exact hstart
            · rw [htext, hzero, hmoved.position]
              show s.position + 1 + (n - 1) = s.position + 0 + n
              omega

theorem isSome_tokenAt {treatKeywordAsName : Bool} {text : Ustring} (hne : text ≠ [])
    (htrivia : triviaLength false text = 0)
    (hstring : text[0]? = some '"' → (stringAt (text.drop 1)).isSome) :
    (tokenAt treatKeywordAsName text).isSome := by
  cases text with
  | nil => exact absurd rfl hne
  | cons ch text =>
    have hskip : ¬ (isLineBreak ch = true ∨ isSeparator ch = true ∨ ch = '#') := by
      intro h
      rw [triviaLength] at htrivia
      split at htrivia
      · omega
      · next hno =>
        split at htrivia
        · omega
        · next hhash =>
          rcases h with hb | hs | hh
          · exact hno (.inl hb)
          · exact hno (.inr hs)
          · exact hhash hh
    rw [tokenAt, if_neg hskip]
    split
    · rfl
    split
    · next hquote =>
      rw [Option.isSome_map]
      exact hstring (congrArg some hquote)
    split
    · rfl
    split
    · rfl
    split
    · rfl
    · rfl

theorem triviaLength_drop (comment : Bool) (text : Ustring) :
    triviaLength false (text.drop (triviaLength comment text)) = 0 := by
  induction text generalizing comment with
  | nil => cases comment <;> rfl
  | cons ch text ih =>
    cases comment with
    | true =>
      rw [triviaLength, Nat.add_comm, List.drop_succ_cons]
      exact ih _
    | false =>
      by_cases hskip : isLineBreak ch ∨ isSeparator ch
      · rw [triviaLength, if_pos hskip, Nat.add_comm, List.drop_succ_cons]
        exact ih _
      · by_cases hhash : ch = '#'
        · rw [triviaLength, if_neg hskip, if_pos hhash, Nat.add_comm, List.drop_succ_cons]
          exact ih _
        · have hzero : triviaLength false (ch :: text) = 0 := by
            rw [triviaLength, if_neg hskip, if_neg hhash]
          rw [hzero, List.drop_zero, hzero]

theorem isTrivia_cons {ch : Char} {text : Ustring} (h : IsTrivia (ch :: text)) :
    (isLineBreak ch ∨ isSeparator ch) ∧ IsTrivia text ∨
      ch = '#' ∧ triviaLength true text = text.length := by
  rw [IsTrivia, triviaLength, List.length_cons] at h
  split at h
  · next hskip => exact .inl ⟨hskip, by unfold IsTrivia; omega⟩
  split at h
  · next hhash => exact .inr ⟨hhash, by omega⟩
  · omega

/-- Trivia before a line feed leaves trivia after it. -/
theorem isTrivia_of_lineFeed {ch : Char} {text : Ustring} (h : IsTrivia (ch :: '\n' :: text)) :
    IsTrivia ('\n' :: text) := by
  have hfeed : isLineBreak '\n' = true := by decide
  rcases isTrivia_cons h with ⟨-, hrest⟩ | ⟨-, hcomment⟩
  · exact hrest
  · rw [triviaLength, hfeed, List.length_cons] at hcomment
    rw [IsTrivia, triviaLength, if_pos (.inl hfeed), List.length_cons]
    exact hcomment

theorem takeNextTokenLoop_of_isTrivia {treatKeywordAsName : Bool} (fuel : Nat) {s : GraphQlScanner}
    (h : IsTrivia s.textLeft) :
    (takeNextTokenLoop treatKeywordAsName true fuel s).1 = .endOfDocument := by
  induction fuel generalizing s with
  | zero => rfl
  | succ fuel ih =>
    cases htext : s.textLeft with
    | nil =>
      have hend : ¬ s.position < s.size := by
        rw [position_lt_size_iff, htext]
        simp
      simp only [takeNextTokenLoop, hend, if_false]
    | cons ch text =>
      have hlt := position_lt_size_of_cons htext
      rw [htext] at h
      simp only [takeNextTokenLoop, hlt, if_true, currentChar_of_cons htext, Bool.true_eq_false,
        if_false]
      have hrest : IsTrivia text → IsTrivia s.incrementPosition.textLeft := by
        rw [textLeft_incrementPosition htext]
        exact fun hrest => hrest
      rcases isTrivia_cons h with ⟨hskip, htrivia⟩ | ⟨hhash, hcomment⟩
      · split
        · exact ih (hrest htrivia)
        split
        · apply ih
          show IsTrivia s.incrementPosition.skipLineFeed.textLeft
          unfold skipLineFeed
          split
          · next hfeed =>
            -- the character after the carriage return is passed over
            rw [charAtPosition_add, textLeft_incrementPosition htext] at hfeed
            have hsecond : s.incrementPosition.incrementPosition.textLeft = text.drop 1 := by
              rw [(moved_incrementPosition _).textLeft, textLeft_incrementPosition htext]
            rw [hsecond]
            cases text with
            | nil => exact absurd hfeed (by decide)
            | cons ch' text =>
              cases text with
              | nil =>
                have hterminator : firstChar (List.drop 1 [ch']) = '\x00' := rfl
                rw [hterminator] at hfeed
                exact absurd hfeed (by decide)
              | cons ch'' text =>
                obtain rfl : ch'' = '\n' := hfeed
                exact isTrivia_of_lineFeed htrivia
          · exact hrest htrivia
        split
        · exact ih (hrest htrivia)
        · next hfeed hreturn hseparator =>
          rcases hskip with hbreak | hsep
          · simp [isLineBreak, hfeed, hreturn] at hbreak
          · exact absurd hsep hseparator
      · have hplain : ¬ ch = '\n' ∧ ¬ ch = '\r' ∧ ¬ isSeparator ch = true := by
          rw [hhash]
          decide
        rw [if_neg hplain.1, if_neg hplain.2.1, if_neg hplain.2.2, if_pos hhash]
        have hstep : Skipped 1 s s.incrementPosition.startAfterSeparator := ⟨rfl, rfl, rfl⟩
        obtain ⟨k, hcomment', hlength⟩ := skipComment_spec
          (s.incrementPosition.startAfterSeparator.size -
            s.incrementPosition.startAfterSeparator.position)
          (s := s.incrementPosition.startAfterSeparator) (Nat.le_refl _)
        apply ih
        rw [IsTrivia, hcomment'.textLeft, List.length_drop]
        rw [hstep.textLeft, htext, List.drop_one, List.tail_cons] at hlength ⊢
        omega

theorem tokenAt_ne_endOfDocument {treatKeywordAsName : Bool} {text : Ustring} {token : GraphQlToken}
    {n : Nat} (h : tokenAt treatKeywordAsName text = some (token, n)) : token ≠ .endOfDocument := by
  cases text with
  | nil => cases h
  | cons ch text =>
    have hscan := scanToken_spec (s := { source := ch :: text, position := 1 }) rfl rfl rfl h
    rw [← hscan.1]
    exact scanToken_ne_endOfDocument _ _ _

theorem lossless_of_readable_call {treatKeywordAsName : Bool} {s : GraphQlScanner}
    (h : Readable s) : Lossless treatKeywordAsName s := by
  by_cases htrivia : triviaLength false s.textLeft < s.textLeft.length
  · obtain ⟨hreturns, hstring⟩ := h htrivia
    have hne : s.textLeft.drop (triviaLength false s.textLeft) ≠ [] := by
      intro hnil
      have hlength := congrArg List.length hnil
      rw [List.length_drop, List.length_nil] at hlength
      omega
    have hsome : (tokenAt treatKeywordAsName
        (s.textLeft.drop (triviaLength false s.textLeft))).isSome := by
      apply isSome_tokenAt hne (triviaLength_drop false _)
      rw [List.getElem?_drop, List.drop_drop]
      exact hstring
    obtain ⟨⟨token, n⟩, htoken⟩ := Option.isSome_iff_exists.1 hsome
    have hreads : Reads s.setTokenStartPosition token n
        (s.takeNextToken treatKeywordAsName true) :=
      takeNextTokenLoop_spec (s := s.setTokenStartPosition) _ (Nat.le_refl _) rfl hreturns htoken
    obtain ⟨hresult, hsource, hbegin, hposition, hn⟩ := hreads
    have hle := tokenAt_le htoken
    rw [List.length_drop, length_textLeft] at hle
    rw [length_textLeft] at htrivia
    constructor
    case atEnd =>
      intro hend
      rw [hresult] at hend
      subst hend
      exact absurd rfl (tokenAt_ne_endOfDocument htoken)
    case token =>
      intro token' s' hs' hne'
      rw [hs'] at hresult hsource hbegin hposition
      have hsource : s'.source = s.source := hsource
      have hbegin : s'.startPosition = s.position + triviaLength false s.textLeft := hbegin
      have hposition : s'.position = s.position + triviaLength false s.textLeft + n := hposition
      obtain rfl : token' = token := hresult
      have hsize : s.size - s.position = s.left := rfl
      refine ⟨by omega, by omega, by omega, ?_, ?_, ?_⟩
      · rw [hbegin, between, Nat.add_sub_cancel_left]
        exact isTrivia_take s.textLeft
      · simp only [getValue, length, between, hsource]
      · have hlength : s'.position - s'.startPosition = n := by omega
        rw [hlength, hbegin, ← List.drop_drop]
        exact htoken
  · have hall : IsTrivia s.textLeft := by
      have hle := triviaLength_le false s.textLeft
      unfold IsTrivia
      omega
    have hend : (s.takeNextToken treatKeywordAsName true).1 = .endOfDocument :=
      takeNextTokenLoop_of_isTrivia _ hall
    refine ⟨fun token s' hresult htoken => ?_, fun _ => hall⟩
    rw [hresult] at hend
    exact absurd hend htoken

/-! ## Runs -/

theorem eachCall_lossless {modes : List Bool} {s : GraphQlScanner}
    (h : EachCall (fun _ s => Readable s) modes s) : EachCall Lossless modes s := by
  induction modes generalizing s with
  | nil => trivial
  | cons treatKeywordAsName modes ih =>
    obtain ⟨hfirst, hrest⟩ := h
    exact ⟨lossless_of_readable_call hfirst, ih hrest⟩

/-- A call without loss divides the text into its trivia, its lexeme and what is left. -/
theorem Lossless.textLeft_eq {treatKeywordAsName : Bool} {s s' : GraphQlScanner}
    {token : GraphQlToken} (h : Lossless treatKeywordAsName s)
    (hs' : s.takeNextToken treatKeywordAsName true = (token, s')) (hne : token ≠ .endOfDocument) :
    s.between s.position s'.startPosition ++ s'.getValue ++ s'.textLeft = s.textLeft := by
  obtain ⟨hbegin, hvalue, -, -, hgetValue, -⟩ := h.token token s' hs' hne
  have hsource : s'.source = s.source := by
    have hscans := (s.scans_takeNextToken treatKeywordAsName true).source
    rw [hs'] at hscans
    exact hscans
  rw [hgetValue, textLeft, textLeft, hsource]
  have hsplit : ∀ {i j : Nat}, i ≤ j → s.between i j ++ s.source.drop j = s.source.drop i := by
    intro i j hij
    have hdrop : s.source.drop j = (s.source.drop i).drop (j - i) := by
      rw [List.drop_drop, Nat.add_sub_cancel' hij]
    rw [between, hdrop, List.take_append_drop]
  rw [List.append_assoc, hsplit (Nat.le_of_lt hvalue), hsplit hbegin]

theorem pieces_append_unread {modes : List Bool} {s : GraphQlScanner}
    (h : EachCall Lossless modes s) :
    (pieces modes s).flatMap (fun piece => piece.1 ++ piece.2) ++ unread modes s = s.textLeft := by
  induction modes generalizing s with
  | nil => rfl
  | cons treatKeywordAsName modes ih =>
    obtain ⟨hfirst, hrest⟩ := h
    rcases htake : s.takeNextToken treatKeywordAsName true with ⟨token, s'⟩
    rw [htake] at hrest
    simp only [pieces, unread, htake]
    split
    · simp
    · next hne =>
      rw [List.flatMap_cons, List.append_assoc, ih hrest]
      exact hfirst.textLeft_eq htake hne

/-- Every call of a run whose calls are all readable divides the text into trivia and a lexeme, and
these make up the source again. -/
theorem lossless_of_readable (source : Ustring) (modes : List Bool)
    (h : EachCall (fun _ s => Readable s) modes { source }) :
    EachCall Lossless modes { source } ∧
      (pieces modes { source }).flatMap (fun piece => piece.1 ++ piece.2) ++
        unread modes { source } = source :=
  ⟨eachCall_lossless h, pieces_append_unread (eachCall_lossless h)⟩

theorem lossless_of_comment_and_string :
    EachCall Lossless [false, false, true, false, false]
      { source := "a \r\n#b\n\"c\" on 1.5e2".toList } ∧
      (pieces [false, false, true, false, false]
        { source := "a \r\n#b\n\"c\" on 1.5e2".toList }).flatMap (fun piece => piece.1 ++ piece.2) ++
        unread [false, false, true, false, false]
          { source := "a \r\n#b\n\"c\" on 1.5e2".toList } = "a \r\n#b\n\"c\" on 1.5e2".toList := by
  refine lossless_of_readable _ _ ?_
  exact ⟨by decide, by decide, by decide, by decide, by decide, trivial⟩

/-- A line feed is taken into the name after it, and a string that is not closed ends behind the
source. -/
theorem not_lossless_of_carriage_return :
    ¬ EachCall Lossless [true] { source := "\r\n\na".toList } ∧
      ¬ EachCall Lossless [true] { source := "\"a".toList } := by
  constructor
  · rintro ⟨hlossless, -⟩
    obtain ⟨-, -, -, -, -, htoken⟩ := hlossless.token .gName _ rfl (by decide)
    revert htoken
    decide
  · rintro ⟨hlossless, -⟩
    obtain ⟨-, -, hsize, -⟩ := hlossless.token .gStringValue _ rfl (by decide)
    revert hsize
    decide

end GraphQlScanner

end Flashpoint
