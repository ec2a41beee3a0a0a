import Flashpoint.Scanner.Lossless

/-!
# The start of a token

`take_next_token` moves the start of the token with every character of trivia but one: the character
between a carriage return and a line feed two places on. So the text of a token may start with trivia,
the last characters before the token (`value_of_takeNextTokenLoop`). What a scan reads from a text that
starts with trivia is still never the whole of that text (`value_ne_of_trivia`): the scan of the trivia
would go through the same states once more, and pass over the token.
-/

namespace Flashpoint

namespace GraphQlScanner

/-- How a character of trivia is passed: by a turn of the loop, in a comment, or behind a carriage
return, where the start of the token stays. -/
inductive TriviaState where
  | plain
  | comment
  | passed
deriving DecidableEq, Repr

/-- A comment ends before a line break. -/
def inComment (text : Ustring) (i : Nat) : TriviaState :=
  if text[i]?.any isLineBreak then .plain else .comment

/-- The state after the character at an offset. -/
def TriviaState.next (text : Ustring) (i : Nat) : TriviaState → TriviaState
  | .plain =>
    if text[i]? = some '\r' ∧ text[i + 2]? = some '\n' then .passed
    else if text[i]? = some '#' then inComment text (i + 1)
    else .plain
  | .comment => inComment text (i + 1)
  | .passed => .plain

/-- The state at an offset of a text whose trivia is scanned from its beginning. -/
def stateAt (text : Ustring) : Nat → TriviaState
  | 0 => .plain
  | i + 1 => (stateAt text i).next text i

/-- The number of characters before an offset that the start of the token was not moved for. -/
def passedBefore (text : Ustring) : Nat → Nat
  | 0 => 0
  | i + 1 => passedBefore text i + if stateAt text i = .passed then 1 else 0

/-- A character that `take_next_token` passes over. -/
def IsSkipped (ch : Char) : Prop := isLineBreak ch = true ∨ isSeparator ch = true ∨ ch = '#'

/-- Up to an offset, every character that a turn of the loop reads is passed over. -/
def SkipsTo (text : Ustring) (i : Nat) : Prop :=
  stateAt text i = .plain ∧ ∀ j < i, stateAt text j = .plain → ∀ ch ∈ text[j]?, IsSkipped ch

/-! ## No text is read again behind its own trivia -/

theorem next_congr {text : Ustring} {i j : Nat} {state : TriviaState} (hhere : text[i]? = text[j]?)
    (hnext : text[i + 1]? = text[j + 1]?)
    (hafter : state = .plain → text[i]? = some '\r' →
      (text[i + 2]? = some '\n' ↔ text[j + 2]? = some '\n')) :
    state.next text i = state.next text j := by
  cases state with
  | plain =>
    have hboth : text[i]? = some '\r' ∧ text[i + 2]? = some '\n' ↔
        text[j]? = some '\r' ∧ text[j + 2]? = some '\n' := by
      rw [← hhere]
      exact and_congr_right (hafter rfl)
    simp only [TriviaState.next, inComment, hboth, ← hhere, hnext]
  | comment => simp only [TriviaState.next, inComment, hnext]
  | passed => rfl

theorem inComment_ne_passed (text : Ustring) (i : Nat) : inComment text i ≠ .passed := by
  unfold inComment
  split <;> simp

/-- Behind a character that was passed with a carriage return stands the line feed. -/
theorem lineFeed_of_passed {text : Ustring} {i : Nat} (h : stateAt text i = .passed) :
    text[i + 1]? = some '\n' := by
  cases i with
  | zero => cases h
  | succ i =>
    simp only [stateAt] at h
    cases hstate : stateAt text i with
    | plain =>
      rw [hstate] at h
      simp only [TriviaState.next] at h
      split at h
      · next hreturn => exact hreturn.2
      split at h
      · exact absurd h (inComment_ne_passed text _)
      · cases h
    | comment =>
      rw [hstate] at h
      exact absurd h (inComment_ne_passed text _)
    | passed =>
      rw [hstate] at h
      cases h

/-- In a comment no line break stands. -/
theorem not_isLineBreak_of_comment {text : Ustring} {i : Nat} (h : stateAt text i = .comment) :
    text[i]?.any isLineBreak = false := by
  have hcomment : ∀ j, inComment text j = .comment → text[j]?.any isLineBreak = false := by
    intro j hj
    unfold inComment at hj
    split at hj
    · cases hj
    · next hany => exact Bool.of_not_eq_true hany
  cases i with
  | zero => cases h
  | succ i =>
    simp only [stateAt] at h
    cases hstate : stateAt text i with
    | plain =>
      rw [hstate] at h
      simp only [TriviaState.next] at h
      split at h
      · cases h
      split at h
      · exact hcomment _ h
      · cases h
    | comment =>
      rw [hstate] at h
      exact hcomment _ h
    | passed =>
      rw [hstate] at h
      cases h

/-- A line feed is followed by a turn of the loop. -/
theorem stateAt_succ_of_lineFeed {text : Ustring} {i : Nat} (h : text[i]? = some '\n') :
    stateAt text (i + 1) = .plain := by
  rw [stateAt]
  cases hstate : stateAt text i with
  | plain => simp [TriviaState.next, h]
  | comment =>
    have hbreak := not_isLineBreak_of_comment hstate
    rw [h] at hbreak
    cases hbreak
  | passed => rfl

/-- The states at two offsets of a text that repeats itself: they are the same, or will be. -/
def Rejoins (text : Ustring) (d i : Nat) : Prop :=
  stateAt text i = stateAt text (i + d) ∨
    (stateAt text i = .plain ∧ stateAt text (i + d) = .comment) ∨
    (text[i]? = some '\n' ∧ stateAt text (i + d) = .plain) ∨
    (i = 0 ∧ stateAt text d = .passed)

theorem rejoins_zero (text : Ustring) (d : Nat) : Rejoins text d 0 := by
  rw [Rejoins, Nat.zero_add]
  cases h : stateAt text d with
  | plain => exact .inl rfl
  | comment => exact .inr (.inl ⟨rfl, rfl⟩)
  | passed => exact .inr (.inr (.inr ⟨rfl, rfl⟩))

/-- One character more of the two. -/
theorem Rejoins.succ {text : Ustring} {d i : Nat} (h : Rejoins text d i)
    (hskipped : stateAt text i = .plain → ∀ ch ∈ text[i]?, IsSkipped ch)
    (hhere : text[i]? = text[i + d]?) (hnext : text[i + 1]? = text[i + d + 1]?)
    (hafter : stateAt text i = .plain → text[i]? = some '\r' →
      (text[i + 2]? = some '\n' ↔ text[i + d + 2]? = some '\n')) : Rejoins text d (i + 1) := by
  have hsucc : stateAt text (i + 1 + d) = (stateAt text (i + d)).next text (i + d) := by
    rw [Nat.add_right_comm]
    rfl
  rcases h with hsame | ⟨hplain, hcomment⟩ | ⟨hfeed, hplain⟩ | ⟨rfl, hpassed⟩
  · refine .inl ?_
    rw [hsucc, ← hsame, ← next_congr hhere hnext hafter]
    rfl
  · have hbreak := not_isLineBreak_of_comment hcomment
    rw [← hhere] at hbreak
    rw [Rejoins, hsucc, hcomment, stateAt, hplain]
    have hreturn : text[i]? ≠ some '\r' := by
      intro hreturn
      rw [hreturn] at hbreak
      cases hbreak
    simp only [TriviaState.next, hreturn, false_and, if_false, inComment, ← hnext]
    -- the first one enters the comment as well, or stays before it
    split
    · exact .inl rfl
    · split
      · exact .inl rfl
      · exact .inr (.inl ⟨rfl, rfl⟩)
  · refine .inl ?_
    rw [stateAt_succ_of_lineFeed hfeed, Nat.add_right_comm,
      stateAt_succ_of_lineFeed (hhere ▸ hfeed)]
  · refine .inr (.inr (.inl ⟨?_, ?_⟩))
    · rw [hnext, Nat.zero_add]
      exact lineFeed_of_passed hpassed
    · rw [hsucc, Nat.zero_add, hpassed]
      rfl

/-- A text that starts with trivia is not found again behind trivia that ends in it. -/
theorem not_repeats {text : Ustring} {d k : Nat} {ch : Char} (hd : 1 ≤ d)
    (hskips : SkipsTo text (k + d)) (hch : text[k + d]? = some ch) (htoken : ¬ IsSkipped ch)
    (hrepeats : ∀ i ≤ k, text[i]? = text[i + d]?)
    (hnext : text[k + 1]? = text[k + d + 1]? ∨ text[k + 1]? ≠ some '\n') : False := by
  have hk : stateAt text k ≠ .plain := by
    intro hplain
    exact htoken (hskips.2 k (by omega) hplain ch (by rw [hrepeats k (Nat.le_refl k)]; exact hch))
  have hrejoins : ∀ i ≤ k, Rejoins text d i := by
    intro i hi
    induction i with
    | zero => exact rejoins_zero text d
    | succ i ih =>
      have hnear : text[i + 1]? = text[i + d + 1]? := by
        rw [hrepeats (i + 1) hi, Nat.add_right_comm]
      apply (ih (by omega)).succ (hskips.2 i (by omega)) (hrepeats i (by omega)) hnear
      intro hplain hreturn
      by_cases hlast : i + 1 = k
      · subst hlast
        rcases hnext with hsame | hother
        · rw [hsame, Nat.add_right_comm i 1 d]
        · -- with no line feed behind it, the return is followed by a turn of the loop
          apply absurd _ hk
          simp [stateAt, hplain, TriviaState.next, hreturn, hother]
      · rw [hrepeats (i + 2) (by omega), Nat.add_right_comm i 2 d]
  rcases hrejoins k (Nat.le_refl k) with hsame | ⟨hplain, -⟩ | ⟨hfeed, -⟩ | ⟨rfl, hpassed⟩
  · exact hk (hsame.trans hskips.1)
  · exact hk hplain
  · rw [← hrepeats k (Nat.le_refl k), hfeed] at hch
    cases hch
    exact htoken (.inl rfl)
  · rw [Nat.zero_add] at hskips
    rw [hskips.1] at hpassed
    cases hpassed

/-! ## The loop of the scanner -/

/-- The scanner after a number of characters of the text that `s` has left, all of them trivia. -/
structure AtOffset (s : GraphQlScanner) (i : Nat) (s' : GraphQlScanner) : Prop where
  source : s'.source = s.source
  position : s'.position = s.position + i
  startPosition : s'.startPosition + passedBefore s.textLeft i = s.startPosition + i

namespace AtOffset

variable {s s₁ : GraphQlScanner} {i : Nat}

theorem zero (s : GraphQlScanner) : AtOffset s 0 s := ⟨rfl, rfl, rfl⟩

theorem textLeft (h : AtOffset s i s₁) : s₁.textLeft = s.textLeft.drop i := by
  simp only [GraphQlScanner.textLeft, h.source, h.position, List.drop_drop]

theorem getElem? (h : AtOffset s i s₁) : s.textLeft[i]? = s₁.textLeft.head? := by
  rw [h.textLeft, List.head?_drop]

/-- A character that the start of the token passes with the cursor. -/
theorem skip (h : AtOffset s i s₁) (hstate : stateAt s.textLeft i ≠ .passed) {s₂ : GraphQlScanner}
    (hsource : s₂.source = s₁.source) (hposition : s₂.position = s₁.position + 1)
    (hstart : s₂.startPosition = s₁.startPosition + 1) : AtOffset s (i + 1) s₂ where
  source := hsource.trans h.source
  position := by rw [hposition, h.position, Nat.add_assoc]
  startPosition := by
    have hbefore := h.startPosition
    rw [hstart, passedBefore, if_neg hstate]
    omega

end AtOffset

theorem SkipsTo.zero (text : Ustring) : SkipsTo text 0 :=
  ⟨rfl, fun _ hj => absurd hj (Nat.not_lt_zero _)⟩

/-- Behind a character that is skipped, the next turn of the loop. -/
theorem SkipsTo.next {text : Ustring} {i j : Nat} (h : SkipsTo text i) {ch : Char}
    (hch : text[i]? = some ch) (hskipped : IsSkipped ch) (hstate : stateAt text j = .plain)
    (hbetween : ∀ m, i < m → m < j → stateAt text m ≠ .plain) : SkipsTo text j := by
  refine ⟨hstate, fun m hm hplain c hc => ?_⟩
  rcases Nat.lt_trichotomy m i with hlt | rfl | hgt
  · exact h.2 m hlt hplain c hc
  · rw [hch] at hc
    cases hc
    exact hskipped
  · exact absurd hplain (hbetween m hgt hm)

/-- A comment, up to the line break behind it or to the end of the text. -/
theorem skipComment_atOffset (fuel : Nat) {s s₁ : GraphQlScanner} {i : Nat} (hat : AtOffset s i s₁)
    (hstate : stateAt s.textLeft i = inComment s.textLeft i) (hfuel : s₁.left ≤ fuel) :
    ∃ j, AtOffset s j (skipComment fuel s₁) ∧ i ≤ j ∧
      (∀ m, i ≤ m → m < j → stateAt s.textLeft m = .comment) ∧
      ((skipComment fuel s₁).textLeft = [] ∨ stateAt s.textLeft j = .plain) := by
  induction fuel generalizing s₁ i with
  | zero =>
    exact ⟨i, hat, Nat.le_refl i, fun m hle hlt => absurd hlt (Nat.not_lt_of_le hle),
      .inl (textLeft_eq_nil (Nat.le_zero.1 hfuel))⟩
  | succ fuel ih =>
    cases htext : s₁.textLeft with
    | nil =>
      have hend : ¬ s₁.position < s₁.size := by
        rw [position_lt_size_iff, htext]
        simp
      simp only [skipComment, hend, false_and, if_false]
      exact ⟨i, hat, Nat.le_refl i, fun m hle hlt => absurd hlt (Nat.not_lt_of_le hle), .inl htext⟩
    | cons ch text =>
      have hhere : s.textLeft[i]? = some ch := by
        rw [hat.getElem?, htext]
        rfl
      have hlt := position_lt_size_of_cons htext
      simp only [skipComment, hlt, true_and, currentChar_of_cons htext]
      by_cases hbreak : isLineBreak ch = false
      · have hcomment : stateAt s.textLeft i = .comment := by
          simp [hstate, inComment, hhere, hbreak]
        have hleft := left_eq_succ htext
        have hskip : AtOffset s (i + 1) s₁.incrementPosition.startAfterSeparator :=
          hat.skip (by simp [hcomment]) rfl rfl rfl
        have hless : s₁.incrementPosition.startAfterSeparator.left ≤ fuel := by
          show s₁.incrementPosition.left ≤ fuel
          omega
        obtain ⟨j, hend, hle, hbetween, hlast⟩ :=
          ih hskip (by rw [stateAt, hcomment]; rfl) hless
        rw [if_pos hbreak]
        refine ⟨j, hend, by omega, fun m hm hlt => ?_, hlast⟩
        rcases Nat.lt_or_eq_of_le hm with hgt | rfl
        · exact hbetween m hgt hlt
        · exact hcomment
      · rw [if_neg hbreak]
        refine ⟨i, hat, Nat.le_refl i, fun m hle hlt => absurd hlt (Nat.not_lt_of_le hle), .inr ?_⟩
        rw [Bool.not_eq_false] at hbreak
        simp [hstate, inComment, hhere, hbreak]

theorem firstChar_eq_iff {text : Ustring} {ch : Char} (h : ch ≠ '\x00') :
    firstChar text = ch ↔ text.head? = some ch := by
  cases text with
  | nil => simp [firstChar, h.symm]
  | cons c text => simp [firstChar]

theorem takeNextTokenLoop_of_nil {treatKeywordAsName skipWhiteSpace : Bool} (fuel : Nat)
    {s : GraphQlScanner} (h : s.textLeft = []) :
    (takeNextTokenLoop treatKeywordAsName skipWhiteSpace fuel s).1 = .endOfDocument := by
  cases fuel with
  | zero => rfl
  | succ fuel =>
    have hend : ¬ s.position < s.size := by
      rw [position_lt_size_iff, h]
      simp
    rw [takeNextTokenLoop, if_neg hend]

/-- The loop ends at the first character that is not skipped, and scans a token there. -/
theorem takeNextTokenLoop_skips {treatKeywordAsName : Bool} (fuel : Nat) {s s₁ : GraphQlScanner}
    {i : Nat} (hat : AtOffset s i s₁) (hskips : SkipsTo s.textLeft i) :
    (takeNextTokenLoop treatKeywordAsName true fuel s₁).1 = .endOfDocument ∨
      ∃ j s₂ ch, AtOffset s j s₂ ∧ SkipsTo s.textLeft j ∧ s.textLeft[j]? = some ch ∧
        ¬ IsSkipped ch ∧ takeNextTokenLoop treatKeywordAsName true fuel s₁ =
          s₂.incrementPosition.scanToken treatKeywordAsName ch := by
  induction fuel generalizing s₁ i with
  | zero => exact .inl rfl
  | succ fuel ih =>
    cases htext : s₁.textLeft with
    | nil => exact .inl (takeNextTokenLoop_of_nil _ htext)
    | cons ch text =>
      have hhere : s.textLeft[i]? = some ch := by
        rw [hat.getElem?, htext]
        rfl
      have hstate : stateAt s.textLeft i ≠ .passed := by simp [hskips.1]
      have hlt := position_lt_size_of_cons htext
      simp only [takeNextTokenLoop, hlt, if_true, currentChar_of_cons htext, Bool.true_eq_false,
        if_false]
      by_cases hfeed : ch = '\n'
      · subst hfeed
        rw [if_pos rfl]
        exact ih (hat.skip hstate rfl rfl rfl)
          (hskips.next hhere (.inl rfl) (stateAt_succ_of_lineFeed hhere) (by omega))
      rw [if_neg hfeed]
      by_cases hreturn : ch = '\r'
      · subst hreturn
        rw [if_pos rfl]
        have hsecond : s₁.incrementPosition.charAtPosition (s₁.incrementPosition.position + 1) = '\n' ↔
            s.textLeft[i + 2]? = some '\n' := by
          have htwo : s.textLeft[i + 2]? = (text.drop 1).head? := by
            rw [← List.getElem?_drop, ← hat.textLeft, htext, List.head?_drop]
            rfl
          rw [htwo, charAtPosition_add, textLeft_incrementPosition htext,
            firstChar_eq_iff (by decide)]
        by_cases hpassed : s.textLeft[i + 2]? = some '\n'
        · -- the character between is passed with the carriage return
          have hnext : stateAt s.textLeft (i + 1) = .passed := by
            simp [stateAt, hskips.1, TriviaState.next, hhere, hpassed]
          have hafter : stateAt s.textLeft (i + 2) = .plain := by
            rw [stateAt, hnext]
            rfl
          rw [skipLineFeed, if_pos (hsecond.2 hpassed)]
          refine ih (i := i + 2) ⟨hat.source, congrArg (· + 2) hat.position, ?_⟩
            (hskips.next hhere (.inl rfl) hafter fun m hgt hlt => ?_)
          · have hbefore := hat.startPosition
            simp only [passedBefore, hnext, hskips.1, reduceCtorEq, if_true, if_false]
            show s₁.startPosition + 1 + _ = _
            omega
          · have hm : m = i + 1 := by omega
            simp [hm, hnext]
        · have hnext : stateAt s.textLeft (i + 1) = .plain := by
            simp [stateAt, hskips.1, TriviaState.next, hhere, hpassed]
          rw [skipLineFeed, if_neg (hsecond.not.2 hpassed)]
          exact ih (hat.skip hstate rfl rfl rfl) (hskips.next hhere (.inl rfl) hnext (by omega))
      rw [if_neg hreturn]
      have hnext : stateAt s.textLeft (i + 1) =
          if ch = '#' then inComment s.textLeft (i + 1) else .plain := by
        simp [stateAt, hskips.1, TriviaState.next, hhere, hreturn]
      by_cases hseparator : isSeparator ch = true
      · rw [if_pos hseparator]
        have hhash : ch ≠ '#' := by
          rintro rfl
          cases hseparator
        rw [if_neg hhash] at hnext
        exact ih (hat.skip hstate rfl rfl rfl)
          (hskips.next hhere (.inr (.inl hseparator)) hnext (by omega))
      rw [if_neg hseparator]
      by_cases hhash : ch = '#'
      · rw [if_pos hhash]
        rw [if_pos hhash] at hnext
        have hskip : AtOffset s (i + 1) s₁.incrementPosition.startAfterSeparator :=
          hat.skip hstate rfl rfl rfl
        obtain ⟨j, hend, hle, hbetween, hlast⟩ := skipComment_atOffset
          (s₁.incrementPosition.startAfterSeparator.size -
            s₁.incrementPosition.startAfterSeparator.position) hskip hnext (Nat.le_refl _)
        rcases hlast with hnil | hplain
        · exact .inl (takeNextTokenLoop_of_nil _ hnil)
        · refine ih hend (hskips.next hhere (.inr (.inr hhash)) hplain fun m hgt hlt => ?_)
          simp [hbetween m hgt hlt]
      · rw [if_neg hhash]
        refine .inr ⟨i, s₁, ch, hat, hskips, hhere, ?_, rfl⟩
        rintro (hbreak | hsep | hcomment)
        · simp [isLineBreak, hfeed, hreturn] at hbreak
        · exact hseparator hsep
        · exact hhash hcomment

theorem passedBefore_succ_le (text : Ustring) (i : Nat) : passedBefore text (i + 1) ≤ i := by
  induction i with
  | zero => exact Nat.le_refl 0
  | succ i ih =>
    rw [passedBefore]
    split <;> omega

/-- The text of a token: the last characters of the trivia that the start of the token did not pass,
and the token. -/
theorem value_of_takeNextTokenLoop {treatKeywordAsName : Bool} (fuel : Nat) {s : GraphQlScanner}
    (hstart : s.startPosition = s.position)
    (h : (takeNextTokenLoop treatKeywordAsName true fuel s).1 ≠ .endOfDocument) :
    ∃ d k n ch, SkipsTo s.textLeft (k + d) ∧ s.textLeft[k + d]? = some ch ∧ ¬ IsSkipped ch ∧
      (0 < k + d → 1 ≤ d) ∧ k < n ∧
      (takeNextTokenLoop treatKeywordAsName true fuel s).2.getValue = (s.textLeft.drop d).take n := by
  rcases takeNextTokenLoop_skips fuel (.zero s) (.zero s.textLeft) with hend | hscan
  · exact absurd hend h
  obtain ⟨q, s₂, ch, hat, hskips, hch, htoken, hloop⟩ := hscan
  have halong := (s₂.along_incrementPosition).trans
    (s₂.incrementPosition.along_scanToken treatKeywordAsName ch)
  have hpast := (s₂.incrementPosition.along_scanToken treatKeywordAsName ch).position
  have hbefore := hat.startPosition
  have hle : passedBefore s.textLeft q ≤ q := by
    cases q with
    | zero => exact Nat.le_refl 0
    | succ i => exact Nat.le_succ_of_le (passedBefore_succ_le s.textLeft i)
  have hsum : passedBefore s.textLeft q + (q - passedBefore s.textLeft q) = q := by omega
  have hposition : s₂.incrementPosition.position = s.position + q + 1 := congrArg (· + 1) hat.position
  refine ⟨q - passedBefore s.textLeft q, passedBefore s.textLeft q,
    (s₂.incrementPosition.scanToken treatKeywordAsName ch).2.position -
      (s.position + (q - passedBefore s.textLeft q)), ch, by rw [hsum]; exact hskips,
    by rw [hsum]; exact hch, htoken, ?_, by omega, ?_⟩
  · rw [hsum]
    intro hq
    cases q with
    | zero => exact absurd hq (Nat.lt_irrefl 0)
    | succ i =>
      have hless := passedBefore_succ_le s.textLeft i
      omega
  · have hbegin : s₂.startPosition = s.position + (q - passedBefore s.textLeft q) := by omega
    rw [hloop, getValue, GraphQlScanner.length, halong.source, halong.startPosition, hat.source, hbegin,
      GraphQlScanner.textLeft, List.drop_drop]

/-- A text that starts with trivia is not what a scan reads there. -/
theorem value_ne_of_trivia {treatKeywordAsName : Bool} (fuel : Nat) {s : GraphQlScanner}
    (hstart : s.startPosition = s.position) {text rest : Ustring} (htext : s.textLeft = text ++ rest)
    (hrest : rest.head? ≠ some '\n') (htrivia : ∀ ch ∈ s.textLeft.head?, IsSkipped ch)
    (h : (takeNextTokenLoop treatKeywordAsName true fuel s).1 ≠ .endOfDocument) :
    (takeNextTokenLoop treatKeywordAsName true fuel s).2.getValue ≠ text := by
  intro hvalue
  obtain ⟨d, k, n, ch, hskips, hch, htoken, hpos, hn, hread⟩ := value_of_takeNextTokenLoop fuel hstart h
  rw [hvalue] at hread
  have hd : 1 ≤ d := by
    refine hpos (Nat.pos_of_ne_zero fun hzero => htoken (htrivia ch ?_))
    rw [List.head?_eq_getElem?, ← hzero]
    exact hch
  -- what was read is the text, and the text is what stands at the beginning
  have hsame : ∀ i < n, text[i]? = s.textLeft[i + d]? := by
    intro i hi
    rw [hread, List.getElem?_take_of_lt hi, List.getElem?_drop, Nat.add_comm]
  have hlength : k < text.length := by
    have hk := hsame k hn
    rw [hch] at hk
    exact (List.getElem?_eq_some_iff.1 hk).1
  have hfront : ∀ i < text.length, s.textLeft[i]? = text[i]? := by
    intro i hi
    rw [htext, List.getElem?_append_left hi]
  refine not_repeats hd hskips hch htoken
    (fun i hi => (hfront i (by omega)).trans (hsame i (by omega))) ?_
  by_cases hlast : k + 1 < text.length
  · have hless : text.length ≤ n := by
      rw [hread, List.length_take]
      exact Nat.min_le_left ..
    refine .inl ((hfront _ hlast).trans ?_)
    rw [hsame (k + 1) (by omega), Nat.add_right_comm]
  · have heq : k + 1 = text.length := by omega
    refine .inr ?_
    rw [heq, htext, List.getElem?_append_right (Nat.le_refl _), Nat.sub_self, ← List.head?_eq_getElem?]
    exact hrest

end GraphQlScanner

end Flashpoint
