import Flashpoint.Library.Crossings
import Flashpoint.Scanner.Reads

/-!
# Looking up a line

The line table grows with every line break that is passed, also by a look-ahead that is taken back, so it
repeats runs of entries. The bisection of `search_for_line` never leaves it (`findsLine_of_first`), and it
stops at the greatest position as long as the runs repeat whole. They do unless `scan_directive_location`
or a call that does not pass white space stops before a line break that a look-ahead has recorded
(`findsLines_afterOperations`).
-/

namespace Flashpoint

open Library

namespace GraphQlScanner

/-! ## The lines ahead -/

/-- The position of the line that starts behind a carriage return. -/
def afterReturn (source : Ustring) (p : Nat) : Nat :=
  if charAt source (p + 2) = '\n' then p + 2 else p + 1

/-- The lines that start in the trivia from a position on, in or outside a comment. -/
def linesFrom (source : Ustring) : Nat → Bool → Nat → Nat → List PositionToLine
  | 0, _, _, _ => []
  | fuel + 1, inComment, p, line =>
    if p < source.length then
      if charAt source p = '\n' then
        ⟨p + 1, line + 1⟩ :: linesFrom source fuel false (p + 1) (line + 1)
      else if charAt source p = '\r' then
        ⟨afterReturn source p, line + 1⟩ ::
          linesFrom source fuel false (afterReturn source p) (line + 1)
      else if inComment || isSeparator (charAt source p) then
        linesFrom source fuel inComment (p + 1) line
      else if charAt source p = '#' then linesFrom source fuel true (p + 1) line
      else []
    else []

/-- The lines ahead of a position. -/
def ahead (source : Ustring) (inComment : Bool) (p line : Nat) : List PositionToLine :=
  linesFrom source (source.length - p) inComment p line

/-- The lines that a look-ahead records. -/
def linesAhead (s : GraphQlScanner) : List PositionToLine := ahead s.source false s.position s.line

theorem lt_afterReturn (source : Ustring) (p : Nat) : p < afterReturn source p := by
  rw [afterReturn]
  split <;> omega

theorem linesFrom_eq {source : Ustring} {fuel fuel' p : Nat} (inComment : Bool) (line : Nat)
    (h : source.length - p ≤ fuel) (h' : source.length - p ≤ fuel') :
    linesFrom source fuel inComment p line = linesFrom source fuel' inComment p line := by
  induction fuel generalizing fuel' inComment p line with
  | zero =>
    cases fuel' with
    | zero => rfl
    | succ fuel' => rw [linesFrom, linesFrom, if_neg (by omega)]
  | succ fuel ih =>
    cases fuel' with
    | zero => rw [linesFrom, linesFrom, if_neg (by omega)]
    | succ fuel' =>
      have hreturn := lt_afterReturn source p
      rw [linesFrom, linesFrom, ih false _ (p := p + 1) (by omega) (by omega : _ ≤ fuel'),
        ih false _ (p := afterReturn source p) (by omega) (by omega : _ ≤ fuel'),
        ih inComment _ (p := p + 1) (by omega) (by omega : _ ≤ fuel'),
        ih true _ (p := p + 1) (by omega) (by omega : _ ≤ fuel')]

section Ahead

variable {source : Ustring} {p : Nat} (inComment : Bool) (line : Nat)

theorem ahead_of_le (h : source.length ≤ p) : ahead source inComment p line = [] := by
  rw [ahead, Nat.sub_eq_zero_of_le h, linesFrom]

theorem ahead_eq (h : p < source.length) : ahead source inComment p line =
    if charAt source p = '\n' then ⟨p + 1, line + 1⟩ :: ahead source false (p + 1) (line + 1)
    else if charAt source p = '\r' then
      ⟨afterReturn source p, line + 1⟩ :: ahead source false (afterReturn source p) (line + 1)
    else if inComment || isSeparator (charAt source p) then ahead source inComment (p + 1) line
    else if charAt source p = '#' then ahead source true (p + 1) line
    else [] := by
  have hreturn := lt_afterReturn source p
  obtain ⟨fuel, hfuel⟩ : ∃ fuel, source.length - p = fuel + 1 := ⟨source.length - p - 1, by omega⟩
  have hnext : ∀ c q l, p < q → linesFrom source fuel c q l = ahead source c q l :=
    fun c q l hq => linesFrom_eq c l (by omega) (Nat.le_refl _)
  rw [ahead, hfuel, linesFrom, if_pos h, hnext _ _ _ (Nat.lt_succ_self p), hnext _ _ _ hreturn,
    hnext _ _ _ (Nat.lt_succ_self p), hnext _ _ _ (Nat.lt_succ_self p)]

theorem ahead_lineFeed (h : p < source.length) (hch : charAt source p = '\n') :
    ahead source inComment p line = ⟨p + 1, line + 1⟩ :: ahead source false (p + 1) (line + 1) := by
  rw [ahead_eq inComment line h, if_pos hch]

theorem ahead_return (h : p < source.length) (hch : charAt source p = '\r') :
    ahead source inComment p line =
      ⟨afterReturn source p, line + 1⟩ :: ahead source false (afterReturn source p) (line + 1) := by
  have hne : charAt source p ≠ '\n' := by rw [hch]; decide
  rw [ahead_eq inComment line h, if_neg hne, if_pos hch]

/-- A character of a comment, and a separator. -/
theorem ahead_passed (h : p < source.length) (hbreak : isLineBreak (charAt source p) = false)
    (hpass : (inComment || isSeparator (charAt source p)) = true) :
    ahead source inComment p line = ahead source inComment (p + 1) line := by
  simp only [isLineBreak, Bool.or_eq_false_iff, decide_eq_false_iff_not] at hbreak
  rw [ahead_eq inComment line h, if_neg hbreak.1, if_neg hbreak.2, if_pos hpass]

theorem ahead_hash (h : p < source.length) (hch : charAt source p = '#') :
    ahead source inComment p line = ahead source true (p + 1) line := by
  have hne : charAt source p ≠ '\n' ∧ charAt source p ≠ '\r' := by rw [hch]; decide
  have hseparator : isSeparator (charAt source p) = false := by rw [hch]; decide
  rw [ahead_eq inComment line h, if_neg hne.1, if_neg hne.2, hseparator, Bool.or_false]
  cases inComment with
  | true => rfl
  | false =>
    rw [if_neg Bool.false_ne_true, if_pos hch]

/-- Where a token starts. -/
theorem ahead_token (h : p < source.length) (hch : startsTrivia (charAt source p) = false) :
    ahead source false p line = [] := by
  simp only [startsTrivia, isLineBreak, Bool.or_eq_false_iff, decide_eq_false_iff_not] at hch
  obtain ⟨⟨⟨hfeed, hreturn⟩, hseparator⟩, hhash⟩ := hch
  rw [ahead_eq false line h, if_neg hfeed, if_neg hreturn, hseparator, Bool.or_false,
    if_neg Bool.false_ne_true, if_neg hhash]

end Ahead

/-- The lines ahead lie behind the position, in ascending order. -/
theorem ahead_ascending (source : Ustring) (inComment : Bool) (p line : Nat) :
    (ahead source inComment p line).Pairwise (·.position < ·.position) ∧
      ∀ e ∈ ahead source inComment p line, p < e.position := by
  induction hn : source.length - p using Nat.strongRecOn generalizing inComment p line with
  | ind n ih =>
    subst hn
    by_cases h : p < source.length
    case neg =>
      rw [ahead_of_le _ _ (Nat.le_of_not_lt h)]
      exact ⟨.nil, fun _ he => absurd he List.not_mem_nil⟩
    -- a line that starts at `q`, and the lines behind it
    have hline : ∀ q, p < q → (⟨q, line + 1⟩ :: ahead source false q (line + 1)).Pairwise
          (·.position < ·.position) ∧
        ∀ e ∈ ⟨q, line + 1⟩ :: ahead source false q (line + 1), p < e.position := by
      intro q hq
      obtain ⟨hascending, hbehind⟩ := ih _ (by omega) false q (line + 1) rfl
      refine ⟨List.pairwise_cons.2 ⟨hbehind, hascending⟩, fun e he => ?_⟩
      rcases List.mem_cons.1 he with rfl | he
      · exact hq
      · exact Nat.lt_trans hq (hbehind e he)
    have hpass : ∀ c, (ahead source c (p + 1) line).Pairwise (·.position < ·.position) ∧
        ∀ e ∈ ahead source c (p + 1) line, p < e.position := by
      intro c
      obtain ⟨hascending, hbehind⟩ := ih _ (by omega) c (p + 1) line rfl
      exact ⟨hascending, fun e he => Nat.lt_trans (Nat.lt_succ_self p) (hbehind e he)⟩
    rw [ahead_eq inComment line h]
    split
    · exact hline _ (Nat.lt_succ_self p)
    split
    · exact hline _ (lt_afterReturn source p)
    split
    · exact hpass _
    split
    · exact hpass _
    · exact ⟨.nil, fun _ he => absurd he List.not_mem_nil⟩

/-! ## What the loops record -/

/-- The lines that are recorded on the way from one state to another. -/
structure Recorded (s s' : GraphQlScanner) (new : List PositionToLine) : Prop where
  lines : s'.positionToLineList = s.positionToLineList ++ new
  ascending : new.Pairwise (·.position < ·.position)
  within : ∀ e ∈ new, s.position < e.position ∧ e.position ≤ s'.position

namespace Recorded

variable {s t s' : GraphQlScanner} {new : List PositionToLine}

theorem none (h : s'.positionToLineList = s.positionToLineList) : Recorded s s' [] :=
  ⟨h.trans (List.append_nil _).symm, .nil, fun _ he => absurd he List.not_mem_nil⟩

/-- From a state further on that has the same table. -/
theorem of_later (h : Recorded t s' new) (hlines : t.positionToLineList = s.positionToLineList)
    (hposition : s.position ≤ t.position) : Recorded s s' new where
  lines := h.lines.trans (congrArg (· ++ new) hlines)
  ascending := h.ascending
  within e he := ⟨Nat.lt_of_le_of_lt hposition (h.within e he).1, (h.within e he).2⟩

/-- A line that starts at `t`, and those behind it. -/
theorem cons {line : Nat} (h : Recorded t s' new) (hlt : s.position < t.position)
    (hlines : t.positionToLineList = s.positionToLineList ++ [⟨t.position, line⟩])
    (hposition : t.position ≤ s'.position) : Recorded s s' (⟨t.position, line⟩ :: new) where
  lines := by rw [h.lines, hlines, List.append_assoc, List.singleton_append]
  ascending := List.pairwise_cons.2 ⟨fun e he => (h.within e he).1, h.ascending⟩
  within e he := by
    rcases List.mem_cons.1 he with rfl | he
    · exact ⟨hlt, hposition⟩
    · exact ⟨Nat.lt_trans hlt (h.within e he).1, (h.within e he).2⟩

end Recorded

/-- The scanner behind a line feed or a carriage return. -/
structure AtLine (s t : GraphQlScanner) : Prop where
  source : t.source = s.source
  lt : s.position < t.position
  line : t.line = s.line + 1
  lines : t.positionToLineList = s.positionToLineList ++ [⟨t.position, s.line + 1⟩]
  ahead : ∀ inComment, ahead s.source inComment s.position s.line =
    ⟨t.position, s.line + 1⟩ :: ahead t.source false t.position t.line

theorem atLine_lineFeed {s : GraphQlScanner} (hlt : s.position < s.size) (hch : s.currentChar = '\n') :
    AtLine s s.incrementPosition.recordLine where
  source := rfl
  lt := Nat.lt_succ_self _
  line := rfl
  lines := rfl
  ahead inComment := ahead_lineFeed inComment s.line hlt hch

theorem skipLineFeed_eq (s : GraphQlScanner) : s.skipLineFeed.source = s.source ∧
    s.skipLineFeed.line = s.line ∧ s.skipLineFeed.positionToLineList = s.positionToLineList := by
  rw [skipLineFeed]
  split
  · exact ⟨rfl, rfl, rfl⟩
  · exact ⟨rfl, rfl, rfl⟩

theorem position_afterReturn (s : GraphQlScanner) :
    s.incrementPosition.skipLineFeed.position = afterReturn s.source s.position := by
  rw [skipLineFeed, afterReturn]
  have hread : s.incrementPosition.charAtPosition (s.incrementPosition.position + 1) =
      charAt s.source (s.position + 2) := rfl
  rw [hread]
  split
  · rfl
  · rfl

theorem atLine_return {s : GraphQlScanner} (hlt : s.position < s.size) (hch : s.currentChar = '\r') :
    AtLine s s.incrementPosition.skipLineFeed.recordLine := by
  obtain ⟨hsource, hline, hlines⟩ := skipLineFeed_eq s.incrementPosition
  have hposition := position_afterReturn s
  have hrecord : s.incrementPosition.skipLineFeed.recordLine.position = afterReturn s.source s.position :=
    hposition
  have hnumber : s.incrementPosition.skipLineFeed.recordLine.line = s.line + 1 := congrArg (· + 1) hline
  refine ⟨hsource, hrecord ▸ lt_afterReturn _ _, hnumber, ?_, fun inComment => ?_⟩
  · show s.incrementPosition.skipLineFeed.positionToLineList ++
      [⟨s.incrementPosition.skipLineFeed.position, s.incrementPosition.skipLineFeed.line + 1⟩] = _
    rw [hlines, hline]
    rfl
  · have hsource : s.incrementPosition.skipLineFeed.recordLine.source = s.source := hsource
    rw [hrecord, hsource, hnumber]
    exact ahead_return inComment s.line hlt hch

theorem skipComment_ahead (fuel : Nat) {s : GraphQlScanner} (hfuel : s.left ≤ fuel) :
    (skipComment fuel s).positionToLineList = s.positionToLineList ∧
      (skipComment fuel s).line = s.line ∧
      ahead s.source true s.position s.line =
        ahead s.source false (skipComment fuel s).position s.line := by
  induction fuel generalizing s with
  | zero =>
    have hend : s.source.length ≤ s.position := Nat.sub_eq_zero_iff_le.1 (Nat.le_zero.1 hfuel)
    refine ⟨rfl, rfl, ?_⟩
    rw [skipComment, ahead_of_le _ _ hend, ahead_of_le _ _ hend]
  | succ fuel ih =>
    rw [skipComment]
    split
    · next hgo =>
      have hless : s.incrementPosition.startAfterSeparator.left ≤ fuel := by
        have hlt := left_lt_of_scans (scans_startAfterSeparator s.incrementPosition) hgo.1
        omega
      obtain ⟨hlines, hline, hahead⟩ := ih hless
      refine ⟨hlines, hline, ?_⟩
      rw [ahead_passed true s.line hgo.1 hgo.2 rfl]
      exact hahead
    · next hstop =>
      refine ⟨rfl, rfl, ?_⟩
      by_cases hlt : s.position < s.source.length
      · have hbreak : isLineBreak (charAt s.source s.position) = true := by
          rw [← Bool.not_eq_false]
          exact fun hfalse => hstop ⟨hlt, hfalse⟩
        simp only [isLineBreak, Bool.or_eq_true, decide_eq_true_eq] at hbreak
        rcases hbreak with hch | hch
        · rw [ahead_lineFeed _ _ hlt hch, ahead_lineFeed _ _ hlt hch]
        · rw [ahead_return _ _ hlt hch, ahead_return _ _ hlt hch]
      · rw [ahead_of_le _ _ (Nat.le_of_not_lt hlt), ahead_of_le _ _ (Nat.le_of_not_lt hlt)]

/-- A comment is passed up to the line break that ends it. -/
theorem linesAhead_comment {s : GraphQlScanner} (hlt : s.position < s.size) (hch : s.currentChar = '#') :
    (skipComment s.incrementPosition.startAfterSeparator.left
        s.incrementPosition.startAfterSeparator).positionToLineList = s.positionToLineList ∧
      s.linesAhead = (skipComment s.incrementPosition.startAfterSeparator.left
        s.incrementPosition.startAfterSeparator).linesAhead := by
  obtain ⟨hlines, hline, hahead⟩ := skipComment_ahead s.incrementPosition.startAfterSeparator.left
    (Nat.le_refl s.incrementPosition.startAfterSeparator.left)
  have hsource := (scans_skipComment s.incrementPosition.startAfterSeparator.left
    s.incrementPosition.startAfterSeparator).source
  refine ⟨hlines, ?_⟩
  rw [linesAhead, linesAhead, ahead_hash false s.line hlt hch, hsource, hline]
  exact hahead

theorem isLineBreak_eq_false {ch : Char} (hfeed : ch ≠ '\n') (hreturn : ch ≠ '\r') :
    isLineBreak ch = false := by
  simp [isLineBreak, hfeed, hreturn]

theorem startsTrivia_eq_false {ch : Char} (hbreak : isLineBreak ch = false)
    (hseparator : ¬ isSeparator ch = true) (hhash : ch ≠ '#') : startsTrivia ch = false := by
  simp [startsTrivia, hbreak, hseparator, hhash]

/-- Passing trivia and a token records the lines ahead. -/
theorem takeNextTokenLoop_records (treatKeywordAsName : Bool) (fuel : Nat) {s : GraphQlScanner}
    (hfuel : s.left ≤ fuel) :
    Recorded s (takeNextTokenLoop treatKeywordAsName true fuel s).2 s.linesAhead := by
  induction fuel generalizing s with
  | zero =>
    have hend : s.source.length ≤ s.position := Nat.sub_eq_zero_iff_le.1 (Nat.le_zero.1 hfuel)
    rw [linesAhead, ahead_of_le _ _ hend]
    exact .none rfl
  | succ fuel ih =>
    by_cases hlt : s.position < s.size
    case neg =>
      rw [linesAhead, ahead_of_le _ _ (Nat.le_of_not_lt hlt), takeNextTokenLoop, if_neg hlt]
      exact .none rfl
    have hless : ∀ {t : GraphQlScanner}, Scans s.incrementPosition t → t.left ≤ fuel := by
      intro t ht
      have hleft := left_lt_of_scans ht hlt
      omega
    -- going round again behind a line break
    have hline : ∀ {t : GraphQlScanner}, AtLine s t → Scans s.incrementPosition t.startAfterLineBreak →
        Recorded s (takeNextTokenLoop treatKeywordAsName true fuel t.startAfterLineBreak).2
          s.linesAhead := by
      intro t ht hscans
      rw [linesAhead, ht.ahead false]
      refine (ih (hless hscans)).cons ht.lt ht.lines ?_
      exact (takeNextTokenLoop_scans _ _ _ t.startAfterLineBreak).1.position
    simp only [takeNextTokenLoop, hlt, if_true, Bool.true_eq_false, if_false]
    split
    · next hch =>
      exact hline (atLine_lineFeed hlt hch) (scans_recordLine_startAfterLineBreak _)
    split
    · next hch =>
      exact hline (atLine_return hlt hch)
        ((scans_skipLineFeed _).trans (scans_recordLine_startAfterLineBreak _))
    next hfeed hreturn =>
    have hbreak : isLineBreak (charAt s.source s.position) = false := isLineBreak_eq_false hfeed hreturn
    split
    · next hseparator =>
      have hnext := ih (hless (scans_startAfterSeparator _))
      rw [linesAhead, ahead_passed false s.line hlt hbreak hseparator]
      exact hnext.of_later rfl (Nat.le_succ _)
    next hseparator =>
    split
    · next hhash =>
      obtain ⟨hlines, hahead⟩ := linesAhead_comment hlt hhash
      have hscans := (scans_startAfterSeparator s.incrementPosition).trans
        (scans_skipComment s.incrementPosition.startAfterSeparator.left _)
      have hnext := ih (hless hscans)
      rw [hahead]
      exact hnext.of_later hlines (Nat.le_trans (Nat.le_succ _) hscans.position)
    · next hhash =>
      have htrivia : startsTrivia (charAt s.source s.position) = false :=
        startsTrivia_eq_false hbreak hseparator hhash
      rw [linesAhead, ahead_token s.line hlt htrivia]
      exact .none (along_scanToken s.incrementPosition _ _).lines

/-- A call that stops at white space records the first of the lines ahead, if it comes to one. -/
theorem takeNextTokenLoop_records_one (treatKeywordAsName : Bool) (fuel : Nat) {s : GraphQlScanner}
    (hfuel : s.left ≤ fuel) :
    ∃ new, Recorded s (takeNextTokenLoop treatKeywordAsName false fuel s).2 new ∧
      (new = s.linesAhead ∨
        s.linesAhead = new ++ (takeNextTokenLoop treatKeywordAsName false fuel s).2.linesAhead) := by
  induction fuel generalizing s with
  | zero =>
    have hend : s.source.length ≤ s.position := Nat.sub_eq_zero_iff_le.1 (Nat.le_zero.1 hfuel)
    exact ⟨[], .none rfl, .inl (by rw [linesAhead, ahead_of_le _ _ hend])⟩
  | succ fuel ih =>
    by_cases hlt : s.position < s.size
    case neg =>
      rw [takeNextTokenLoop, if_neg hlt]
      exact ⟨[], .none rfl, .inl (by rw [linesAhead, ahead_of_le _ _ (Nat.le_of_not_lt hlt)])⟩
    have hline : ∀ {t : GraphQlScanner}, AtLine s t → ∃ new, Recorded s t new ∧
        (new = s.linesAhead ∨ s.linesAhead = new ++ t.linesAhead) := by
      intro t ht
      have hnone : Recorded t t [] := .none rfl
      refine ⟨_, hnone.cons ht.lt ht.lines (Nat.le_refl _), .inr ?_⟩
      rw [linesAhead, ht.ahead false]
      rfl
    simp only [takeNextTokenLoop, hlt, if_true]
    split
    · next hch => exact hline (atLine_lineFeed hlt hch)
    split
    · next hch => exact hline (atLine_return hlt hch)
    next hfeed hreturn =>
    have hbreak : isLineBreak (charAt s.source s.position) = false := isLineBreak_eq_false hfeed hreturn
    split
    · next hseparator =>
      refine ⟨[], .none rfl, .inr ?_⟩
      rw [linesAhead, ahead_passed false s.line hlt hbreak hseparator]
      rfl
    next hseparator =>
    split
    · next hhash =>
      obtain ⟨hlines, hahead⟩ := linesAhead_comment hlt hhash
      have hscans := (scans_startAfterSeparator s.incrementPosition).trans
        (scans_skipComment s.incrementPosition.startAfterSeparator.left _)
      have hless := left_lt_of_scans hscans hlt
      obtain ⟨new, hrecorded, hnew⟩ := ih (Nat.le_of_lt_succ (Nat.lt_of_lt_of_le hless hfuel))
      refine ⟨new, hrecorded.of_later hlines (Nat.le_trans (Nat.le_succ _) hscans.position), ?_⟩
      rw [hahead]
      exact hnew
    · next hhash =>
      have htrivia : startsTrivia (charAt s.source s.position) = false :=
        startsTrivia_eq_false hbreak hseparator hhash
      refine ⟨[], .none (along_scanToken s.incrementPosition _ _).lines, .inl ?_⟩
      rw [linesAhead, ahead_token s.line hlt htrivia]

/-- A name in a comment ends before the line does. -/
theorem scanNameParts_ahead (fuel count : Nat) (s : GraphQlScanner) :
    ∀ e ∈ ahead s.source true s.position s.line, (scanNameParts fuel count s).2.position < e.position := by
  induction fuel generalizing s count with
  | zero => exact (ahead_ascending _ _ _ _).2
  | succ fuel ih =>
    rw [scanNameParts]
    split
    · next hgo =>
      rw [ahead_passed true s.line hgo.1 (isLineBreak_of_isNamePart hgo.2) rfl]
      exact ih (count + 1) s.incrementPosition
    · exact (ahead_ascending _ _ _ _).2

/-- `scan_directive_location` records the lines ahead and maybe more, or stops before the next of them. -/
theorem scanDirectiveLocationLoop_records (fuel : Nat) (inComment : Bool) {s : GraphQlScanner}
    (hfuel : s.left ≤ fuel) :
    ∃ new, Recorded s (scanDirectiveLocationLoop fuel s).2 new ∧
      ((∃ extra, new = ahead s.source inComment s.position s.line ++ extra) ∨
        ∃ rest, ahead s.source inComment s.position s.line = new ++ rest ∧
          ∀ e ∈ rest, (scanDirectiveLocationLoop fuel s).2.position < e.position) := by
  induction fuel generalizing s inComment with
  | zero =>
    have hend : s.source.length ≤ s.position := Nat.sub_eq_zero_iff_le.1 (Nat.le_zero.1 hfuel)
    exact ⟨[], .none rfl, .inl ⟨[], by rw [ahead_of_le _ _ hend]; rfl⟩⟩
  | succ fuel ih =>
    by_cases hlt : s.position < s.size
    case neg =>
      rw [scanDirectiveLocationLoop, if_neg hlt]
      exact ⟨[], .none rfl, .inl ⟨[], by rw [ahead_of_le _ _ (Nat.le_of_not_lt hlt)]; rfl⟩⟩
    have hless : ∀ {t : GraphQlScanner}, Scans s.incrementPosition t → t.left ≤ fuel := by
      intro t ht
      have hleft := left_lt_of_scans ht hlt
      omega
    have hline : ∀ {t : GraphQlScanner}, AtLine s t → Scans s.incrementPosition t.startAfterLineBreak →
        ∃ new, Recorded s (scanDirectiveLocationLoop fuel t.startAfterLineBreak).2 new ∧
          ((∃ extra, new = ahead s.source inComment s.position s.line ++ extra) ∨
            ∃ rest, ahead s.source inComment s.position s.line = new ++ rest ∧
              ∀ e ∈ rest, (scanDirectiveLocationLoop fuel t.startAfterLineBreak).2.position <
                e.position) := by
      intro t ht hscans
      obtain ⟨new, hrecorded, hnew⟩ := ih false (hless hscans)
      have hposition := (scans_scanDirectiveLocationLoop fuel t.startAfterLineBreak).position
      refine ⟨_, hrecorded.cons ht.lt ht.lines hposition, ?_⟩
      rw [ht.ahead inComment]
      rcases hnew with ⟨extra, rfl⟩ | ⟨rest, hrest, hbehind⟩
      · exact .inl ⟨extra, rfl⟩
      · exact .inr ⟨rest, congrArg (_ :: ·) hrest, hbehind⟩
    simp only [scanDirectiveLocationLoop, hlt, if_true]
    split
    · next hch => exact hline (atLine_lineFeed hlt hch) (scans_recordLine_startAfterLineBreak _)
    split
    · next hch =>
      exact hline (atLine_return hlt hch)
        ((scans_skipLineFeed _).trans (scans_recordLine_startAfterLineBreak _))
    next hfeed hreturn =>
    have hbreak : isLineBreak (charAt s.source s.position) = false := isLineBreak_eq_false hfeed hreturn
    split
    · next hseparator =>
      have hpass : (inComment || isSeparator (charAt s.source s.position)) = true := by
        rw [show isSeparator (charAt s.source s.position) = true from hseparator, Bool.or_true]
      obtain ⟨new, hrecorded, hnew⟩ := ih inComment (hless (scans_startAfterSeparator _))
      rw [ahead_passed inComment s.line hlt hbreak hpass]
      exact ⟨new, hrecorded.of_later rfl (Nat.le_succ _), hnew⟩
    next hseparator =>
    split
    · next hname =>
      refine ⟨[], .none (along_scanNameParts _ 1 s.incrementPosition).lines, ?_⟩
      cases inComment with
      | true =>
        rw [ahead_passed true s.line hlt hbreak rfl]
        exact .inr ⟨_, rfl, scanNameParts_ahead _ 1 s.incrementPosition⟩
      | false =>
        have hhash : charAt s.source s.position ≠ '#' := by
          intro hhash
          have hname : isNameStart (charAt s.source s.position) = true := hname
          rw [hhash] at hname
          exact absurd hname (by decide)
        have htrivia : startsTrivia (charAt s.source s.position) = false :=
          startsTrivia_eq_false hbreak hseparator hhash
        rw [ahead_token s.line hlt htrivia]
        exact .inl ⟨[], rfl⟩
    · by_cases hcomment : inComment = true ∨ charAt s.source s.position = '#'
      · obtain ⟨new, hrecorded, hnew⟩ := ih true (hless (.rfl))
        have hahead : ahead s.source inComment s.position s.line =
            ahead s.source true (s.position + 1) s.line := by
          rcases hcomment with rfl | hhash
          · exact ahead_passed true s.line hlt hbreak rfl
          · exact ahead_hash inComment s.line hlt hhash
        rw [hahead]
        exact ⟨new, hrecorded.of_later rfl (Nat.le_succ _), hnew⟩
      · -- a character that starts no name, where a token starts
        have hcomment := not_or.1 hcomment
        obtain rfl : inComment = false := Bool.not_eq_true _ ▸ hcomment.1
        have htrivia : startsTrivia (charAt s.source s.position) = false :=
          startsTrivia_eq_false hbreak hseparator hcomment.2
        obtain ⟨new, hrecorded, -⟩ := ih false (hless .rfl)
        rw [ahead_token s.line hlt htrivia]
        exact ⟨new, hrecorded.of_later rfl (Nat.le_succ _), .inl ⟨new, rfl⟩⟩

/-! ## The table over calls -/

/-- The table repeats its runs: a position has one entry, a search stops where it should, and what is
recorded ahead of the scanner is what a look-ahead records. -/
structure Repeats (s : GraphQlScanner) : Prop where
  searchable : Searchable PositionToLine.position s.size s.positionToLineList
  unique : ∀ e ∈ s.positionToLineList, ∀ e' ∈ s.positionToLineList, e.position = e'.position → e = e'
  ahead : (∀ e ∈ s.positionToLineList, e.position ≤ s.position) ∨
    ∀ e, e ∈ s.positionToLineList ∧ s.position < e.position ↔ e ∈ s.linesAhead

theorem ascending_unique {lines : List PositionToLine}
    (h : lines.Pairwise (·.position < ·.position)) {e e' : PositionToLine} (he : e ∈ lines)
    (he' : e' ∈ lines) (heq : e.position = e'.position) : e = e' := by
  induction h with
  | nil => cases he
  | cons hfirst _ ih =>
    rcases List.mem_cons.1 he with rfl | hmem <;> rcases List.mem_cons.1 he' with rfl | hmem'
    · rfl
    · exact absurd heq (Nat.ne_of_lt (hfirst e' hmem'))
    · exact absurd heq.symm (Nat.ne_of_lt (hfirst e hmem))
    · exact ih hmem hmem'

namespace Repeats

variable {s s' : GraphQlScanner} {new : List PositionToLine}

/-- What is recorded ahead of the scanner is among the lines ahead. -/
theorem mem_linesAhead (h : Repeats s) {e : PositionToLine} (he : e ∈ s.positionToLineList)
    (hlt : s.position < e.position) : e ∈ s.linesAhead := by
  rcases h.ahead with hnone | hahead
  · exact absurd hlt (Nat.not_lt.2 (hnone e he))
  · exact (hahead e).1 ⟨he, hlt⟩

/-- Where one of the lines ahead is recorded all of them are. -/
theorem mem_table (h : Repeats s) {e e' : PositionToLine} (he : e ∈ s.positionToLineList)
    (hlt : s.position < e.position) (he' : e' ∈ s.linesAhead) : e' ∈ s.positionToLineList := by
  rcases h.ahead with hnone | hahead
  · exact absurd hlt (Nat.not_lt.2 (hnone e he))
  · exact ((hahead e').2 he').1

/-- **A run that holds all lines recorded ahead, and between them nothing but lines ahead, is repeated.** -/
theorem step (h : Repeats s) (hsource : s'.source = s.source) (hnew : Recorded s s' new)
    (hagain : new ≠ [] → ∀ e ∈ s.positionToLineList, s.position < e.position → e.position < s.size →
      e ∈ new)
    (hwithin : ∀ n ∈ new, ∀ e ∈ s.positionToLineList, s.position < e.position →
      n.position ≤ e.position → n ∈ s.linesAhead)
    (hahead : (∀ e ∈ s'.positionToLineList, e.position ≤ s'.position) ∨
      ∀ e, e ∈ s'.positionToLineList ∧ s'.position < e.position ↔ e ∈ s'.linesAhead) :
    Repeats s' := by
  have hsize : s'.size = s.size := by simp only [size, hsource]
  have hsame : ∀ n ∈ new, ∀ e ∈ s.positionToLineList, n.position = e.position → n = e := by
    intro n hn e he heq
    have hlt : s.position < e.position := heq ▸ (hnew.within n hn).1
    exact ascending_unique (ahead_ascending _ _ _ _).1 (hwithin n hn e he hlt (Nat.le_of_eq heq))
      (h.mem_linesAhead he hlt) heq
  refine ⟨?_, ?_, hahead⟩
  · rw [hsize, hnew.lines]
    refine h.searchable.append hnew.ascending (fun n hn => (hnew.within n hn).1) ?_ ?_
    · exact fun hne e he hlt hinside => ⟨e, hagain hne e he hlt hinside, rfl⟩
    · intro n hn e he hlt hle
      exact ⟨n, h.mem_table he hlt (hwithin n hn e he hlt (Nat.le_of_lt hle)), rfl⟩
  · rw [hnew.lines]
    intro e he e' he' heq
    rcases List.mem_append.1 he with he | he <;> rcases List.mem_append.1 he' with he' | he'
    · exact h.unique e he e' he' heq
    · exact (hsame e' he' e he heq.symm).symm
    · exact hsame e he e' he' heq
    · exact ascending_unique hnew.ascending he he' heq

/-- All lines ahead are recorded, and maybe more. -/
theorem step_all (h : Repeats s) (hsource : s'.source = s.source) (hposition : s.position ≤ s'.position)
    {extra : List PositionToLine} (hnew : Recorded s s' (s.linesAhead ++ extra)) : Repeats s' := by
  refine h.step hsource hnew ?_ ?_ (.inl fun e he => ?_)
  · exact fun _ e he hlt _ => List.mem_append_left _ (h.mem_linesAhead he hlt)
  · intro n hn e he hlt hle
    rcases List.mem_append.1 hn with hn | hn
    · exact hn
    · have habove := (List.pairwise_append.1 hnew.ascending).2.2 e (h.mem_linesAhead he hlt) n hn
      omega
  · rw [hnew.lines] at he
    rcases List.mem_append.1 he with he | he
    · by_cases hlt : s.position < e.position
      · exact (hnew.within e (List.mem_append_left _ (h.mem_linesAhead he hlt))).2
      · omega
    · exact (hnew.within e he).2

/-- Some of the lines ahead are recorded: none, or all up to the last that was recorded before. -/
theorem step_some (h : Repeats s) (hsource : s'.source = s.source) (hposition : s.position ≤ s'.position)
    {rest : List PositionToLine} (hnew : Recorded s s' new) (hlines : s.linesAhead = new ++ rest)
    (hrest : ∀ e ∈ rest, s'.position < e.position)
    (hpasses : new = [] ∨ ∀ e ∈ s.positionToLineList, e.position < s.size → e.position ≤ s'.position)
    (hahead : (∀ e ∈ s.positionToLineList, e.position ≤ s'.position) ∨ rest = s'.linesAhead) :
    Repeats s' := by
  have hlow : ∀ e ∈ new, e.position ≤ s'.position := fun e he => (hnew.within e he).2
  refine h.step hsource hnew ?_ ?_ ?_
  · intro hne e he hlt hinside
    have hle := hpasses.resolve_left hne e he hinside
    have hmem := h.mem_linesAhead he hlt
    rw [hlines] at hmem
    exact (List.mem_append.1 hmem).resolve_right fun hmem => Nat.not_lt.2 hle (hrest e hmem)
  · intro n hn _ _ _ _
    rw [hlines]
    exact List.mem_append_left _ hn
  · rcases hahead with hall | rfl
    · refine .inl fun e he => ?_
      rw [hnew.lines] at he
      exact (List.mem_append.1 he).elim (hall e) (hlow e)
    · rcases h.ahead with hnone | hahead
      · refine .inl fun e he => ?_
        rw [hnew.lines] at he
        exact (List.mem_append.1 he).elim (fun he => Nat.le_trans (hnone e he) hposition) (hlow e)
      · refine .inr fun e => ⟨fun he => ?_, fun he => ⟨?_, hrest e he⟩⟩
        · rw [hnew.lines] at he
          have hnot : e ∉ new := fun hmem => Nat.not_lt.2 (hlow e hmem) he.2
          have hold := (List.mem_append.1 he.1).resolve_right hnot
          have hmem := (hahead e).1 ⟨hold, Nat.lt_of_le_of_lt hposition he.2⟩
          rw [hlines] at hmem
          exact (List.mem_append.1 hmem).resolve_left hnot
        · rw [hnew.lines]
          refine List.mem_append_left _ ((hahead e).2 ?_).1
          rw [hlines]
          exact List.mem_append_right _ he

/-- A look-ahead that is taken back. -/
theorem step_back (h : Repeats s) (hsource : s'.source = s.source) (hposition : s'.position = s.position)
    (hline : s'.line = s.line)
    (hlines : s'.positionToLineList = s.positionToLineList ++ s.linesAhead) : Repeats s' := by
  have hsame : s'.linesAhead = s.linesAhead := by rw [linesAhead, linesAhead, hsource, hposition, hline]
  obtain ⟨hascending, hbehind⟩ := ahead_ascending s.source false s.position s.line
  have hsize : s'.size = s.size := by simp only [size, hsource]
  refine ⟨?_, ?_, .inr fun e => ?_⟩
  · rw [hsize, hlines]
    refine h.searchable.append hascending hbehind ?_ ?_
    · exact fun _ e he hlt _ => ⟨e, h.mem_linesAhead he hlt, rfl⟩
    · exact fun n hn e he hlt _ => ⟨n, h.mem_table he hlt hn, rfl⟩
  · rw [hlines]
    have hmem : ∀ e ∈ s.positionToLineList, ∀ e' ∈ s.linesAhead, e.position = e'.position → e = e' := by
      intro e he e' he' heq
      have hlt : s.position < e.position := heq ▸ hbehind e' he'
      exact ascending_unique hascending (h.mem_linesAhead he hlt) he' heq
    intro e he e' he' heq
    rcases List.mem_append.1 he with he | he <;> rcases List.mem_append.1 he' with he' | he'
    · exact h.unique e he e' he' heq
    · exact hmem e he e' he' heq
    · exact (hmem e' he' e he heq.symm).symm
    · exact ascending_unique hascending he he' heq
  · rw [hlines, hposition, hsame, List.mem_append]
    constructor
    · rintro ⟨he | he, hlt⟩
      · exact h.mem_linesAhead he hlt
      · exact he
    · exact fun he => ⟨.inr he, hbehind e he⟩

end Repeats

/-! ## Calls -/

theorem takeNextToken_records (s : GraphQlScanner) (treatKeywordAsName : Bool) :
    Recorded s (s.takeNextToken treatKeywordAsName true).2 s.linesAhead :=
  (takeNextTokenLoop_records treatKeywordAsName _ (Nat.le_refl s.setTokenStartPosition.left)).of_later
    rfl (Nat.le_refl _)

theorem takeNextToken_records_one (s : GraphQlScanner) (treatKeywordAsName : Bool) :
    ∃ new, Recorded s (s.takeNextToken treatKeywordAsName false).2 new ∧ (new = s.linesAhead ∨
      s.linesAhead = new ++ (s.takeNextToken treatKeywordAsName false).2.linesAhead) := by
  obtain ⟨new, hnew, hlines⟩ := takeNextTokenLoop_records_one treatKeywordAsName _
    (Nat.le_refl s.setTokenStartPosition.left)
  exact ⟨new, hnew.of_later rfl (Nat.le_refl _), hlines⟩

theorem scanDirectiveLocation_records (s : GraphQlScanner) :
    ∃ new, Recorded s s.scanDirectiveLocation.2 new ∧ ((∃ extra, new = s.linesAhead ++ extra) ∨
      ∃ rest, s.linesAhead = new ++ rest ∧
        ∀ e ∈ rest, s.scanDirectiveLocation.2.position < e.position) := by
  obtain ⟨new, hnew, hlines⟩ := scanDirectiveLocationLoop_records _ false
    (Nat.le_refl s.setTokenStartPosition.left)
  exact ⟨new, hnew.of_later rfl (Nat.le_refl _), hlines⟩

/-- What a look-ahead that is taken back leaves. -/
theorem revert_lines {s t : GraphQlScanner} (h : Scans s.save t) :
    t.revert.line = s.line ∧ t.revert.positionToLineList = t.positionToLineList := by
  have hsaved := h.saved
  simp only [save] at hsaved
  simp only [revert, hsaved, and_self]

/-- A call does not stop before a line that a look-ahead has recorded. A call that stops at white space may
record none, and a line behind the last character does not count. -/
def ScannerOperation.PassesAhead (s : GraphQlScanner) : ScannerOperation → Prop
  | .call (.takeNextToken treatKeywordAsName false) =>
    (s.takeNextToken treatKeywordAsName false).2.positionToLineList = s.positionToLineList ∨
      ∀ e ∈ s.positionToLineList, e.position < s.size →
        e.position ≤ (s.takeNextToken treatKeywordAsName false).2.position
  | .call .scanDirectiveLocation =>
    ∀ e ∈ s.positionToLineList, e.position ≤ s.scanDirectiveLocation.2.position
  | _ => True

instance (s : GraphQlScanner) : ∀ operation, Decidable (ScannerOperation.PassesAhead s operation)
  | .call (.takeNextToken _ false) => inferInstanceAs (Decidable (_ ∨ _))
  | .call .scanDirectiveLocation => inferInstanceAs (Decidable (∀ e ∈ s.positionToLineList, _))
  | .call (.takeNextToken _ true) | .call (.tryScan ..) | .call .peekNextToken | .call (.skipTo _)
  | .call .skipBlock | .save | .revert => inferInstanceAs (Decidable True)

def PassesAheadIn : GraphQlScanner → List ScannerOperation → Prop
  | _, [] => True
  | s, operation :: operations => operation.PassesAhead s ∧ PassesAheadIn (operation.apply s) operations

instance decidablePassesAheadIn : ∀ (s : GraphQlScanner) (operations : List ScannerOperation),
    Decidable (PassesAheadIn s operations)
  | _, [] => inferInstanceAs (Decidable True)
  | s, operation :: operations =>
    have := decidablePassesAheadIn (operation.apply s) operations
    inferInstanceAs (Decidable (operation.PassesAhead s ∧ PassesAheadIn (operation.apply s) operations))

/-- The sequences that the parsers make: a cursor is taken back behind one call of `take_next_token`. -/
inductive ParserRun : List ScannerOperation → Prop where
  | nil : ParserRun []
  | call (c : ScannerCall) {operations : List ScannerOperation} (h : ParserRun operations) :
    ParserRun (.call c :: operations)
  | save {operations : List ScannerOperation} (h : ParserRun operations) :
    ParserRun (.save :: operations)
  | lookAhead (treatKeywordAsName : Bool) {operations : List ScannerOperation}
    (h : ParserRun operations) :
    ParserRun (.save :: .call (.takeNextToken treatKeywordAsName true) :: .revert :: operations)

namespace Repeats

variable {s : GraphQlScanner}

theorem initial (source : Ustring) : Repeats { source } where
  searchable := searchable_singleton _ _
  unique e he e' he' _ := by
    rw [List.mem_singleton.1 he, List.mem_singleton.1 he']
  ahead := .inl fun _ he =>
    Nat.le_of_eq (congrArg PositionToLine.position (List.mem_singleton.1 he))

theorem save (h : Repeats s) : Repeats s.save := ⟨h.searchable, h.unique, h.ahead⟩

theorem takeNextToken (h : Repeats s) (treatKeywordAsName : Bool) :
    Repeats (s.takeNextToken treatKeywordAsName true).2 := by
  have hscans := s.scans_takeNextToken treatKeywordAsName true
  have hnew : Recorded s (s.takeNextToken treatKeywordAsName true).2 (s.linesAhead ++ []) := by
    rw [List.append_nil]
    exact s.takeNextToken_records treatKeywordAsName
  exact h.step_all hscans.source hscans.position hnew

theorem takeNextToken_one (h : Repeats s) (treatKeywordAsName : Bool)
    (hpasses : ScannerOperation.PassesAhead s (.call (.takeNextToken treatKeywordAsName false))) :
    Repeats (s.takeNextToken treatKeywordAsName false).2 := by
  have hscans := s.scans_takeNextToken treatKeywordAsName false
  obtain ⟨new, hnew, hlines⟩ := s.takeNextToken_records_one treatKeywordAsName
  rcases hlines with rfl | hlines
  · rw [← List.append_nil s.linesAhead] at hnew
    exact h.step_all hscans.source hscans.position hnew
  · refine h.step_some hscans.source hscans.position hnew hlines (ahead_ascending _ _ _ _).2
      (hpasses.imp_left fun hsame => ?_) (.inr rfl)
    rw [hnew.lines] at hsame
    exact List.append_right_eq_self.1 hsame

theorem scanDirectiveLocation (h : Repeats s)
    (hpasses : ScannerOperation.PassesAhead s (.call .scanDirectiveLocation)) :
    Repeats s.scanDirectiveLocation.2 := by
  have hscans := s.scans_scanDirectiveLocation
  obtain ⟨new, hnew, ⟨extra, rfl⟩ | ⟨rest, hlines, hrest⟩⟩ := s.scanDirectiveLocation_records
  · exact h.step_all hscans.source hscans.position hnew
  · exact h.step_some hscans.source hscans.position hnew hlines hrest
      (.inr fun e he _ => hpasses e he) (.inl hpasses)

theorem lookAhead (h : Repeats s) (treatKeywordAsName : Bool) :
    Repeats (s.save.takeNextToken treatKeywordAsName true).2.revert := by
  have hscans := s.save.scans_takeNextToken treatKeywordAsName true
  obtain ⟨hsource, hposition⟩ := revert_of_scans hscans
  obtain ⟨hline, hlines⟩ := revert_lines hscans
  refine h.step_back hsource hposition hline ?_
  rw [hlines, (s.save.takeNextToken_records treatKeywordAsName).lines]
  rfl

theorem tryScan (h : Repeats s) (token : GraphQlToken) (treatKeywordAsName : Bool) :
    Repeats (s.tryScan token treatKeywordAsName).2 := by
  simp only [GraphQlScanner.tryScan]
  split
  · exact h.save.takeNextToken treatKeywordAsName
  · exact h.lookAhead treatKeywordAsName

theorem skipToLoop (tokens : List GraphQlToken) (fuel : Nat) {s : GraphQlScanner} (h : Repeats s) :
    Repeats (GraphQlScanner.skipToLoop tokens fuel s).2 := by
  induction fuel generalizing s with
  | zero => exact h
  | succ fuel ih =>
    simp only [GraphQlScanner.skipToLoop]
    split
    · exact h.save.takeNextToken false
    split
    · exact h.lookAhead false
    · exact ih (h.save.takeNextToken false)

theorem skipBlockLoop (fuel : Nat) (matchedBraces : Int) (encounteredBrace : Bool) {s : GraphQlScanner}
    (h : Repeats s) : Repeats (GraphQlScanner.skipBlockLoop fuel matchedBraces encounteredBrace s) := by
  induction fuel generalizing s matchedBraces encounteredBrace with
  | zero => exact h
  | succ fuel ih =>
    have htake := h.takeNextToken false
    have hnext : ∀ p : Int × Bool, Repeats (if p.2 = true ∧ p.1 ≤ 0 then (s.takeNextToken false true).2
        else GraphQlScanner.skipBlockLoop fuel p.1 p.2 (s.takeNextToken false true).2) := by
      intro p
      split
      · exact htake
      · exact ih _ _ htake
    simp only [GraphQlScanner.skipBlockLoop]
    split
    · exact htake
    · exact hnext _

theorem call (h : Repeats s) (c : ScannerCall) (hpasses : ScannerOperation.PassesAhead s (.call c)) :
    Repeats (c.apply s) := by
  cases c with
  | takeNextToken treatKeywordAsName skipWhiteSpace =>
    cases skipWhiteSpace with
    | true => exact h.takeNextToken treatKeywordAsName
    | false => exact h.takeNextToken_one treatKeywordAsName hpasses
  | tryScan token treatKeywordAsName => exact h.tryScan token treatKeywordAsName
  | peekNextToken => exact h.lookAhead false
  | skipTo tokens => exact h.skipToLoop tokens _
  | skipBlock => exact h.skipBlockLoop _ _ _
  | scanDirectiveLocation => exact h.scanDirectiveLocation hpasses

/-- **The runs of the table are repeated whole over a run of the parsers.** -/
theorem run {operations : List ScannerOperation} (hrun : ParserRun operations) {s : GraphQlScanner}
    (h : Repeats s) (hpasses : PassesAheadIn s operations) : Repeats (s.afterOperations operations) := by
  induction hrun generalizing s with
  | nil => exact h
  | call c _ ih => exact ih (h.call c hpasses.1) hpasses.2
  | save _ ih => exact ih h.save hpasses.2
  | lookAhead treatKeywordAsName _ ih => exact ih (h.lookAhead treatKeywordAsName) hpasses.2.2.2

end Repeats

/-! ## The table only grows -/

/-- Entries are only appended. -/
def Grows (s s' : GraphQlScanner) : Prop := s.positionToLineList <+: s'.positionToLineList

namespace Grows

theorem rfl {s : GraphQlScanner} : Grows s s := List.prefix_rfl

theorem trans {s s' s'' : GraphQlScanner} (h : Grows s s') (h' : Grows s' s'') : Grows s s'' :=
  List.IsPrefix.trans h h'

theorem takeNextToken (s : GraphQlScanner) (treatKeywordAsName skipWhiteSpace : Bool) :
    Grows s (s.takeNextToken treatKeywordAsName skipWhiteSpace).2 := by
  cases skipWhiteSpace with
  | true => exact ⟨_, (s.takeNextToken_records treatKeywordAsName).lines.symm⟩
  | false =>
    obtain ⟨new, hnew, -⟩ := s.takeNextToken_records_one treatKeywordAsName
    exact ⟨new, hnew.lines.symm⟩

theorem revert (s : GraphQlScanner) : Grows s s.revert := by
  have hlines : s.revert.positionToLineList = s.positionToLineList := by
    rw [GraphQlScanner.revert]
    split <;> rfl
  exact ⟨[], (List.append_nil _).trans hlines.symm⟩

theorem lookAhead (s : GraphQlScanner) (treatKeywordAsName : Bool) :
    Grows s (s.save.takeNextToken treatKeywordAsName true).2.revert :=
  (takeNextToken s.save treatKeywordAsName true).trans (revert _)

theorem skipToLoop (tokens : List GraphQlToken) (fuel : Nat) (s : GraphQlScanner) :
    Grows s (GraphQlScanner.skipToLoop tokens fuel s).2 := by
  induction fuel generalizing s with
  | zero => exact .rfl
  | succ fuel ih =>
    simp only [GraphQlScanner.skipToLoop]
    split
    · exact takeNextToken s.save false true
    split
    · exact lookAhead s false
    · exact (takeNextToken s.save false true).trans (ih _)

theorem skipBlockLoop (fuel : Nat) (matchedBraces : Int) (encounteredBrace : Bool)
    (s : GraphQlScanner) :
    Grows s (GraphQlScanner.skipBlockLoop fuel matchedBraces encounteredBrace s) := by
  induction fuel generalizing s matchedBraces encounteredBrace with
  | zero => exact .rfl
  | succ fuel ih =>
    have htake := takeNextToken s false true
    have hnext : ∀ p : Int × Bool, Grows s (if p.2 = true ∧ p.1 ≤ 0 then (s.takeNextToken false true).2
        else GraphQlScanner.skipBlockLoop fuel p.1 p.2 (s.takeNextToken false true).2) := by
      intro p
      split
      · exact htake
      · exact htake.trans (ih _ _ _)
    simp only [GraphQlScanner.skipBlockLoop]
    split
    · exact htake
    · exact hnext _

theorem apply (s : GraphQlScanner) (operation : ScannerOperation) : Grows s (operation.apply s) := by
  cases operation with
  | call c =>
    cases c with
    | takeNextToken => exact takeNextToken s _ _
    | tryScan token treatKeywordAsName =>
      simp only [ScannerOperation.apply, ScannerCall.apply, tryScan]
      split
      · exact takeNextToken s.save treatKeywordAsName true
      · exact lookAhead s treatKeywordAsName
    | peekNextToken => exact lookAhead s false
    | skipTo tokens => exact skipToLoop tokens _ s
    | skipBlock => exact skipBlockLoop _ _ _ s
    | scanDirectiveLocation =>
      obtain ⟨new, hnew, -⟩ := s.scanDirectiveLocation_records
      exact ⟨new, hnew.lines.symm⟩
  | save => exact .rfl
  | revert => exact revert s

theorem afterOperations (operations : List ScannerOperation) (s : GraphQlScanner) :
    Grows s (s.afterOperations operations) := by
  induction operations generalizing s with
  | nil => exact .rfl
  | cons operation operations ih => exact (apply s operation).trans (ih _)

end Grows

/-! ## The search -/

/-- The location of a position on the line of an entry. -/
def locationAt (p : Nat) (e : PositionToLine) : Location :=
  { line := e.line, column := p - e.position + 1, length := 0 }

/-- The search over the whole table. -/
def lookUp (s : GraphQlScanner) (p : Nat) : Option Location :=
  s.searchForLine 0 (s.positionToLineList.length - 1) p

/-- The search ends, stays in the table and answers with an entry of at most the position. -/
def FindsLine (s : GraphQlScanner) : Prop :=
  ∀ p < s.size, ∃ e ∈ s.positionToLineList, e.position ≤ p ∧ s.lookUp p = some (locationAt p e)

/-- It answers with the entry of the greatest position of at most `p`. -/
def FindsGreatest (s : GraphQlScanner) : Prop :=
  ∀ p < s.size, ∀ e ∈ s.positionToLineList, e.position ≤ p →
    (∀ e' ∈ s.positionToLineList, e'.position ≤ p → e'.position ≤ e.position) →
    s.lookUp p = some (locationAt p e)

instance (s : GraphQlScanner) : Decidable (FindsGreatest s) :=
  inferInstanceAs (Decidable (∀ p < s.size, ∀ e ∈ s.positionToLineList, e.position ≤ p →
    (∀ e' ∈ s.positionToLineList, e'.position ≤ p → e'.position ≤ e.position) →
    s.lookUp p = some (locationAt p e)))

/-- An interval of one entry. -/
theorem atEntry_crosses {s : GraphQlScanner} {p i : Nat} (hp : p < s.size)
    (hlength : i < s.positionToLineList.length)
    (hbelow : ∀ e, s.positionToLineList[i]? = some e → e.position ≤ p)
    (habove : ∀ e, s.positionToLineList[i + 1]? = some e → p < e.position) :
    ∃ i' e, Crosses PositionToLine.position s.positionToLineList p i' e ∧
      searchForLineLoop.atEntry s p i = some (locationAt p e) := by
  have hget := List.getElem?_eq_getElem hlength
  refine ⟨i, _, ⟨hget, hbelow _ hget, habove⟩, ?_⟩
  simp only [searchForLineLoop.atEntry, hget]
  rw [if_pos ⟨hbelow _ hget, hp⟩]
  rfl

/-- The interval closes in on a crossing of the table. -/
theorem searchForLineLoop_crosses {s : GraphQlScanner} {p : Nat} (hp : p < s.size) (fuel : Nat)
    {start stop : Nat} (hfuel : stop - start ≤ fuel) (hle : start ≤ stop)
    (hlength : stop < s.positionToLineList.length)
    (hbelow : ∀ e, s.positionToLineList[start]? = some e → e.position ≤ p)
    (habove : ∀ e, s.positionToLineList[stop + 1]? = some e → p < e.position) :
    ∃ i e, Crosses PositionToLine.position s.positionToLineList p i e ∧
      s.searchForLineLoop p fuel start stop = some (locationAt p e) := by
  induction fuel generalizing start stop with
  | zero =>
    obtain rfl : stop = start := by omega
    rw [searchForLineLoop, if_pos rfl]
    exact atEntry_crosses hp hlength hbelow habove
  | succ fuel ih =>
    rw [searchForLineLoop]
    by_cases hlt : stop > start
    case neg =>
      obtain rfl : stop = start := by omega
      rw [if_neg hlt, if_pos rfl]
      exact atEntry_crosses hp hlength hbelow habove
    rw [if_pos hlt]
    obtain ⟨mid, hmid⟩ : ∃ mid, mid = start + (stop - start) / 2 := ⟨_, rfl⟩
    have hentry := List.getElem?_eq_getElem (l := s.positionToLineList) (i := mid) (by omega)
    have hnext := List.getElem?_eq_getElem (l := s.positionToLineList) (i := mid + 1) (by omega)
    simp only [← hmid, hentry, hnext]
    split
    · next hfound =>
      refine ⟨mid, _, ⟨hentry, hfound.1, fun e he => ?_⟩, rfl⟩
      obtain rfl := Option.some.inj (hnext.symm.trans he)
      exact hfound.2
    next hfound =>
    split
    · next hmore =>
      -- the entry at `start` is not above `p`, so `mid` lies behind it
      have hne : mid ≠ start := by
        intro heq
        rw [← heq] at hbelow
        exact Nat.not_lt.2 (hbelow _ hentry) hmore
      rw [if_neg (by omega)]
      refine ih (by omega) (by omega) (by omega) hbelow fun e he => ?_
      rw [Nat.sub_add_cancel (by omega), hentry] at he
      obtain rfl := Option.some.inj he
      exact hmore
    · next hmore =>
      refine ih (by omega) (by omega) hlength (fun e he => ?_) habove
      obtain rfl := Option.some.inj (hnext.symm.trans he)
      exact Nat.le_of_not_lt fun hfar => hfound ⟨Nat.le_of_not_lt hmore, hfar⟩

/-- The search stops at a crossing of a table that begins with the first line. -/
theorem lookUp_crosses {s : GraphQlScanner} (hfirst : s.positionToLineList[0]? = some ⟨0, 1⟩) {p : Nat}
    (hp : p < s.size) : ∃ i e, Crosses PositionToLine.position s.positionToLineList p i e ∧
      s.lookUp p = some (locationAt p e) := by
  have hlength : 0 < s.positionToLineList.length := (List.getElem?_eq_some_iff.1 hfirst).1
  refine searchForLineLoop_crosses hp _ (Nat.le_refl _) (Nat.zero_le _) (by omega) ?_ ?_
  · intro e he
    obtain rfl := Option.some.inj (hfirst.symm.trans he)
    exact Nat.zero_le _
  · intro e he
    rw [List.getElem?_eq_none (by omega)] at he
    cases he

theorem findsLine_of_first {s : GraphQlScanner} (hfirst : s.positionToLineList[0]? = some ⟨0, 1⟩) :
    FindsLine s := by
  intro p hp
  obtain ⟨i, e, hcross, hfound⟩ := lookUp_crosses hfirst hp
  exact ⟨e, List.mem_of_getElem? hcross.get, hcross.le, hfound⟩

theorem findsGreatest_of_repeats {s : GraphQlScanner} (h : Repeats s)
    (hfirst : s.positionToLineList[0]? = some ⟨0, 1⟩) : FindsGreatest s := by
  intro p hp e he hle hgreatest
  obtain ⟨i, e', hcross, hfound⟩ := lookUp_crosses hfirst hp
  have hmem := List.mem_of_getElem? hcross.get
  have hup := h.searchable p i e' hp hcross e he hle
  have hdown := hgreatest e' hmem hcross.le
  rw [hfound, h.unique e' hmem e he (Nat.le_antisymm hdown hup)]

/-- **A search never leaves the table, and it answers with the greatest position in every run of the
parsers that does not stop before a line that a look-ahead has recorded.** -/
theorem findsLines_afterOperations (source : Ustring) {operations : List ScannerOperation}
    (hrun : ParserRun operations) :
    FindsLine (({ source } : GraphQlScanner).afterOperations operations) ∧
      (PassesAheadIn { source } operations →
        FindsGreatest (({ source } : GraphQlScanner).afterOperations operations)) := by
  have hfirst : (({ source } : GraphQlScanner).afterOperations operations).positionToLineList[0]? =
      some ⟨0, 1⟩ := by
    obtain ⟨new, hlines⟩ := Grows.afterOperations operations { source }
    rw [← hlines]
    rfl
  exact ⟨findsLine_of_first hfirst, fun hpasses =>
    findsGreatest_of_repeats ((Repeats.initial source).run hrun hpasses) hfirst⟩

/-- A look-ahead over two line breaks, and the locations behind them. -/
theorem findsLines_of_locations :
    FindsLine (({ source := "\n\n FIELD\n| ENUM".toList } : GraphQlScanner).afterOperations
        [.call (.tryScan .pipe false), .call .scanDirectiveLocation, .save,
          .call (.takeNextToken false true), .call .scanDirectiveLocation]) ∧
      FindsGreatest (({ source := "\n\n FIELD\n| ENUM".toList } : GraphQlScanner).afterOperations
        [.call (.tryScan .pipe false), .call .scanDirectiveLocation, .save,
          .call (.takeNextToken false true), .call .scanDirectiveLocation]) := by
  have hrun : ParserRun [.call (.tryScan .pipe false), .call .scanDirectiveLocation, .save,
      .call (.takeNextToken false true), .call .scanDirectiveLocation] :=
    .call _ (.call _ (.save (.call _ (.call _ .nil))))
  have hfinds := findsLines_afterOperations "\n\n FIELD\n| ENUM".toList hrun
  exact ⟨hfinds.1, hfinds.2 (by decide +kernel)⟩

/-- A location that is looked for in a comment. -/
theorem not_findsGreatest_of_comment :
    ¬ ∀ operations, ParserRun operations →
      FindsGreatest (({ source := ['\n', '#', 'a', '\n', 'b'] } : GraphQlScanner).afterOperations
        operations) := by
  intro h
  have hfinds := h [.call (.tryScan .pipe false), .call .scanDirectiveLocation]
    (.call _ (.call _ .nil))
  exact absurd hfinds (by decide)

end GraphQlScanner

end Flashpoint
