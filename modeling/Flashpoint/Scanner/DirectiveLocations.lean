import Flashpoint.Scanner.Keywords
import Flashpoint.Scanner.Lexeme
import Flashpoint.Scanner.Text

/-!
# What is taken for a directive location

`scan_directive_location` passes over every character that starts no name, but the text it compares
starts where the trivia ended. So a name is found only where nothing but trivia was passed over, and
then it is the lexeme that `take_next_token` finds there.
-/

namespace Flashpoint

theorem length_of_tailIs {s t : Ustring} {k : Nat} (h : tailIs s k t = true) (ht : 0 < t.length) :
    s.length = k + t.length := by
  have hlength := congrArg List.length (show s.drop k = t from by simpa [tailIs] using h)
  rw [List.length_drop] at hlength
  omega

/-- A location is found only when all of the text was counted. -/
theorem length_of_getDirectiveFromValue {size : Nat} {value : Ustring}
    (h : getDirectiveFromValue size value ≠ .unknown) : value.length = size := by
  unfold getDirectiveFromValue at h
  revert h
  repeat' split
  all_goals
    intro h
    first
      | exact absurd rfl h
      | exact length_of_tailIs ‹_› (by decide)

theorem getDirectiveFromValue_ne_endOfDocument (size : Nat) (value : Ustring) :
    getDirectiveFromValue size value ≠ .endOfDocument := by
  unfold getDirectiveFromValue
  repeat' split
  all_goals exact nofun

namespace GraphQlScanner

/-- No location is found. -/
def Misses (location : DirectiveLocation) : Prop := location = .unknown ∨ location = .endOfDocument

theorem startPosition_skipLineFeed (s : GraphQlScanner) :
    s.skipLineFeed.startPosition = s.startPosition := by
  unfold skipLineFeed
  split <;> rfl

theorem position_le_skipLineFeed (s : GraphQlScanner) : s.position ≤ s.skipLineFeed.position := by
  unfold skipLineFeed
  split
  · exact Nat.le_succ _
  · exact Nat.le_refl _

/-- The name at the position, after its first character was taken. -/
theorem scanNameParts_value {s : GraphQlScanner} (hlt : s.position < s.size)
    (hstart : s.startPosition ≤ s.position) :
    let r := scanNameParts (s.incrementPosition.size - s.incrementPosition.position) 1 s.incrementPosition
    r.2.getValue.length = s.position - s.startPosition + r.1 := by
  intro r
  obtain ⟨hcount, hmoved⟩ := scanNameParts_spec (s.incrementPosition.size - s.incrementPosition.position)
    1 s.incrementPosition (Nat.le_refl _)
  have hcount : r.1 = _ := hcount
  have hmoved : Moved _ s.incrementPosition r.2 := hmoved
  have hle : (s.incrementPosition.textLeft.takeWhile isNamePart).length ≤ s.size - (s.position + 1) := by
    have hprefix := (List.takeWhile_prefix isNamePart (l := s.incrementPosition.textLeft)).length_le
    rwa [length_textLeft] at hprefix
  rw [hmoved.getValue, List.length_take, List.length_drop, hcount]
  simp only [incrementPosition, size] at hle hlt ⊢
  omega

/-- Nothing is found once the text that is compared starts too early. -/
theorem misses_of_lt (fuel : Nat) {s : GraphQlScanner} (h : s.startPosition < s.position) :
    Misses (scanDirectiveLocationLoop fuel s).1 := by
  induction fuel generalizing s with
  | zero => exact .inr rfl
  | succ fuel ih =>
    unfold scanDirectiveLocationLoop
    split
    · next hlt =>
      simp only
      split
      · exact ih (s := s.incrementPosition.recordLine.startAfterLineBreak) (Nat.succ_lt_succ h)
      split
      · refine ih (s := s.incrementPosition.skipLineFeed.recordLine.startAfterLineBreak) ?_
        have hle := position_le_skipLineFeed s.incrementPosition
        have hstart := startPosition_skipLineFeed s.incrementPosition
        show s.incrementPosition.skipLineFeed.startPosition + 1 < s.incrementPosition.skipLineFeed.position
        rw [hstart]
        exact Nat.lt_of_lt_of_le (Nat.succ_lt_succ h) hle
      split
      · exact ih (s := s.incrementPosition.startAfterSeparator) (Nat.succ_lt_succ h)
      split
      · have hlength := scanNameParts_value hlt (Nat.le_of_lt h)
        refine .inl (not_not.1 fun hfound => ?_)
        have hsize := length_of_getDirectiveFromValue hfound
        omega
      · exact ih (s := s.incrementPosition) (Nat.lt_succ_of_lt h)
    · exact .inr rfl

theorem punctuation_of_isNameStart {ch : Char} (h : isNameStart ch = true) : punctuation ch = none := by
  unfold punctuation
  split
  all_goals first | rfl | exact absurd h (by decide)

/-- A character that starts a name starts nothing else. -/
theorem scanToken_of_isNameStart (s : GraphQlScanner) {ch : Char} (h : isNameStart ch = true) :
    s.scanToken false ch =
      (getTokenFromValue (scanNameParts (s.size - s.position) 1 s).1
          (scanNameParts (s.size - s.position) 1 s).2.getValue,
        (scanNameParts (s.size - s.position) 1 s).2) := by
  have hquote : ch ≠ '"' := by
    rintro rfl
    cases h
  have hdot : ch ≠ '.' := by
    rintro rfl
    cases h
  have hnumber : ¬ (ch = '-' ∨ isDigit ch = true) := by
    rintro (rfl | hdigit)
    · cases h
    · simp only [isNameStart, isDigit, Bool.or_eq_true, Bool.and_eq_true, decide_eq_true_eq] at h hdigit
      obtain ⟨hlow, hhigh⟩ := hdigit
      rcases h with (h | h) | rfl
      · exact absurd (Nat.le_trans h.1 hhigh) (by decide)
      · exact absurd (Nat.le_trans h.1 hhigh) (by decide)
      · exact absurd hhigh (by decide)
  simp only [scanToken, punctuation_of_isNameStart h, hquote, hdot, hnumber, h, if_true, if_false,
    Bool.false_eq_true]

/-- A location that is found is the text of the word that `take_next_token` finds. -/
theorem takes_of_scanDirectiveLocationLoop (fuel : Nat) {s : GraphQlScanner}
    (hstart : s.startPosition ≤ s.position)
    (hfound : ¬ Misses (scanDirectiveLocationLoop fuel s).1) :
    ∃ token, isWord token = true ∧
      takeNextTokenLoop false true fuel s = (token, (scanDirectiveLocationLoop fuel s).2) ∧
        let value := (scanDirectiveLocationLoop fuel s).2.getValue
        getDirectiveFromValue value.length value = (scanDirectiveLocationLoop fuel s).1 := by
  induction fuel generalizing s with
  | zero => exact absurd (.inr rfl) hfound
  | succ fuel ih =>
    unfold scanDirectiveLocationLoop at hfound ⊢
    unfold takeNextTokenLoop
    split at hfound
    · next hlt =>
      simp only [if_pos hlt, Bool.true_eq_false, if_false] at hfound ⊢
      split at hfound
      · next hfeed =>
        simp only [if_pos hfeed]
        exact ih (Nat.succ_le_succ hstart) hfound
      next hfeed =>
      split at hfound
      · next hreturn =>
        simp only [if_neg hfeed, if_pos hreturn]
        refine ih ?_ hfound
        show s.incrementPosition.skipLineFeed.startPosition + 1 ≤ s.incrementPosition.skipLineFeed.position
        rw [startPosition_skipLineFeed]
        exact Nat.le_trans (Nat.succ_le_succ hstart) (position_le_skipLineFeed s.incrementPosition)
      next hreturn =>
      split at hfound
      · next hseparator =>
        simp only [if_neg hfeed, if_neg hreturn, if_pos hseparator]
        exact ih (Nat.succ_le_succ hstart) hfound
      next hseparator =>
      split at hfound
      · next hname =>
        have hhash : s.currentChar ≠ '#' := by
          intro hhash
          rw [hhash] at hname
          cases hname
        simp only [if_neg hfeed, if_neg hreturn, if_neg hseparator, if_neg hhash, if_pos hname,
          scanToken_of_isNameStart _ hname]
        have hlength := length_of_getDirectiveFromValue fun hunknown => hfound (.inl hunknown)
        exact ⟨_, isWord_getTokenFromValue _ _, rfl, by rw [hlength]⟩
      · refine absurd (misses_of_lt fuel (s := s.incrementPosition) ?_) hfound
        exact Nat.lt_succ_of_le hstart
    · exact absurd (.inr rfl) hfound

/-- **A location that is found is spelled by the next lexeme, a word, and that is taken.** -/
theorem rest_of_scanDirectiveLocation {s : GraphQlScanner}
    (hfound : ¬ Misses s.scanDirectiveLocation.1) :
    ∃ l, s.rest = l :: s.scanDirectiveLocation.2.rest ∧ isWord l.token = true ∧
      getDirectiveFromValue l.value.length l.value = s.scanDirectiveLocation.1 := by
  obtain ⟨token, hword, htake, hlocation⟩ :=
    takes_of_scanDirectiveLocationLoop (s.size - s.position) (s := s.setTokenStartPosition)
      (Nat.le_refl _) hfound
  have htoken : s.takeNextToken false true = (token, s.scanDirectiveLocation.2) := htake
  have hlexeme : s.lexeme.token = token := congrArg Prod.fst htoken
  have hafter : s.afterLexeme = s.scanDirectiveLocation.2 := congrArg Prod.snd htoken
  have hne : s.lexeme.token ≠ .endOfDocument := by
    intro hend
    rw [hlexeme.symm.trans hend] at hword
    cases hword
  refine ⟨s.lexeme, ?_, hlexeme ▸ hword, ?_⟩
  · rw [rest_of_ne_end hne, hafter]
  · have hvalue : s.lexeme.value = s.scanDirectiveLocation.2.getValue := congrArg getValue hafter
    rw [hvalue]
    exact hlocation

/-- The end of the document is met where nothing is left. -/
theorem left_scanDirectiveLocationLoop (fuel : Nat) (s : GraphQlScanner) (hfuel : s.left ≤ fuel)
    (hend : (scanDirectiveLocationLoop fuel s).1 = .endOfDocument) :
    (scanDirectiveLocationLoop fuel s).2.left = 0 := by
  induction fuel generalizing s with
  | zero => exact Nat.le_zero.1 hfuel
  | succ fuel ih =>
    by_cases hlt : s.position < s.size
    case neg =>
      simp only [scanDirectiveLocationLoop, hlt, if_false]
      simp only [left]
      omega
    have hadvance : ∀ {t : GraphQlScanner}, Advances s.incrementPosition t → t.left ≤ fuel := by
      intro t ht
      have hle := ht.left_le
      have hinc : s.incrementPosition.left + 1 = s.left := by
        simp only [left, incrementPosition, GraphQlScanner.size] at hlt ⊢
        omega
      omega
    simp only [scanDirectiveLocationLoop, hlt, if_true] at hend ⊢
    revert hend
    split
    · exact ih _ (hadvance ((scans_recordLine _).trans (scans_startAfterLineBreak _)).toAdvances)
    split
    · exact ih _ (hadvance (((scans_skipLineFeed _).trans (scans_recordLine _)).trans
        (scans_startAfterLineBreak _)).toAdvances)
    split
    · exact ih _ (hadvance (scans_startAfterSeparator _).toAdvances)
    split
    · exact fun hend => absurd hend (getDirectiveFromValue_ne_endOfDocument _ _)
    · exact ih _ (hadvance .rfl)

theorem rest_of_scanDirectiveLocation_end {s : GraphQlScanner}
    (hend : s.scanDirectiveLocation.1 = .endOfDocument) : s.scanDirectiveLocation.2.rest = [] :=
  rest_of_left (left_scanDirectiveLocationLoop _ _ (Nat.le_refl _) hend)

end GraphQlScanner

end Flashpoint
