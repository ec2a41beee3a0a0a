import Flashpoint.Scanner.Located

/-!
# Locations over runs of calls

Any sequence of the calls that the parsers make of the scanner. Where every call reads plain text,
the token taken last has the line and the column that the text gives it, and so has every node that
starts where a token was taken, also when it is looked up later.
-/

namespace Flashpoint

namespace GraphQlScanner

/-! ## Calls -/

/-- The calls of a scanner. -/
inductive ScannerCall where
  | takeNextToken (treatKeywordAsName skipWhiteSpace : Bool)
  | tryScan (token : GraphQlToken) (treatKeywordAsName : Bool)
  | peekNextToken
  | skipTo (tokens : List GraphQlToken)
  | skipBlock
  | scanDirectiveLocation
deriving DecidableEq, Repr

/-- The scanner after a call. -/
def ScannerCall.apply (s : GraphQlScanner) : ScannerCall → GraphQlScanner
  | takeNextToken treatKeywordAsName skipWhiteSpace =>
    (s.takeNextToken treatKeywordAsName skipWhiteSpace).2
  | tryScan token treatKeywordAsName => (s.tryScan token treatKeywordAsName).2
  | peekNextToken => s.peekNextToken.2
  | skipTo tokens => (s.skipTo tokens).2
  | skipBlock => s.skipBlock
  | scanDirectiveLocation => s.scanDirectiveLocation.2

/-- The offset of the token that a call takes, if it takes one: the first character that is no trivia,
or the separator that is answered as white space. -/
def ScannerCall.start (s : GraphQlScanner) : ScannerCall → Option Nat
  | takeNextToken treatKeywordAsName skipWhiteSpace =>
    if (s.takeNextToken treatKeywordAsName skipWhiteSpace).1 = .endOfDocument then none
    else some (s.startFor skipWhiteSpace)
  | tryScan token treatKeywordAsName =>
    if (s.tryScan token treatKeywordAsName).1 = token ∧ token ≠ .endOfDocument then
      some s.tokenStart
    else none
  | scanDirectiveLocation =>
    if s.scanDirectiveLocation.1 = .endOfDocument then none else some s.tokenStart
  | peekNextToken | skipTo _ | skipBlock => none

/-- The scanners before the tokens that `skip_to` takes. -/
def skipToTakes (tokens : List GraphQlToken) : Nat → GraphQlScanner → List GraphQlScanner
  | 0, _ => []
  | fuel + 1, s =>
    if (s.save.takeNextToken false true).1 = .endOfDocument ∨
        (s.save.takeNextToken false true).1 ∈ tokens then [s]
    else s :: skipToTakes tokens fuel (s.save.takeNextToken false true).2

/-- The scanners before the tokens that `skip_block` takes. -/
def skipBlockTakes : Nat → Int → Bool → GraphQlScanner → List GraphQlScanner
  | 0, _, _, _ => []
  | fuel + 1, matchedBraces, encounteredBrace, s =>
    let (token, s') := s.takeNextToken false true
    if token = .endOfDocument then [s]
    else
      let (matchedBraces, encounteredBrace) :=
        if token = .openBrace then (matchedBraces + 1, true)
        else if token = .closeBrace then (matchedBraces - 1, true)
        else (matchedBraces, encounteredBrace)
      if encounteredBrace ∧ matchedBraces ≤ 0 then [s]
      else s :: skipBlockTakes fuel matchedBraces encounteredBrace s'

/-- Every token that a call takes or looks at is ahead in plain text. -/
def ScannerCall.Plain (s : GraphQlScanner) : ScannerCall → Prop
  | takeNextToken _ skipWhiteSpace => s.Plain skipWhiteSpace
  | tryScan _ _ | peekNextToken => s.Plain true
  | skipTo tokens => ∀ s' ∈ skipToTakes tokens (s.size - s.position + 1) s, s'.Plain true
  | skipBlock => ∀ s' ∈ skipBlockTakes (s.size - s.position + 1) 0 false s, s'.Plain true
  | scanDirectiveLocation => s.PlainLocation

instance (s : GraphQlScanner) : ∀ call, Decidable (ScannerCall.Plain s call)
  | .takeNextToken _ skipWhiteSpace => inferInstanceAs (Decidable (s.Plain skipWhiteSpace))
  | .tryScan _ _ | .peekNextToken => inferInstanceAs (Decidable (s.Plain true))
  | .skipTo tokens => inferInstanceAs (Decidable
      (∀ s' ∈ skipToTakes tokens (s.size - s.position + 1) s, s'.Plain true))
  | .skipBlock => inferInstanceAs (Decidable
      (∀ s' ∈ skipBlockTakes (s.size - s.position + 1) 0 false s, s'.Plain true))
  | .scanDirectiveLocation => inferInstanceAs (Decidable s.PlainLocation)

/-- The scanner after a sequence of calls. -/
def afterCalls (s : GraphQlScanner) (calls : List ScannerCall) : GraphQlScanner :=
  calls.foldl (fun s call => call.apply s) s

/-- Every call of a sequence reads plain text. -/
def PlainCalls : GraphQlScanner → List ScannerCall → Prop
  | _, [] => True
  | s, call :: calls => call.Plain s ∧ PlainCalls (call.apply s) calls

instance decidablePlainCalls : ∀ (s : GraphQlScanner) (calls : List ScannerCall),
    Decidable (PlainCalls s calls)
  | _, [] => inferInstanceAs (Decidable True)
  | s, call :: calls =>
    have := decidablePlainCalls (call.apply s) calls
    inferInstanceAs (Decidable (call.Plain s ∧ PlainCalls (call.apply s) calls))

/-- The location of the last token, as the parser gives it in one state and as the line table of a
later state does for a node that starts there. -/
def Located (s later : GraphQlScanner) : Prop :=
  s.startPosition < s.size →
    s.line = lineOf s.source s.startPosition ∧
    s.startColumn = columnOf s.source s.startPosition ∧
    ∀ stop, later.getTokenLocation s.startPosition stop =
      some (locationOf s.source s.startPosition (stop - s.startPosition))

/-! ## The invariant over calls -/

/-- The invariant is kept, the position does not move back, and new lines lie behind it. -/
structure Keeps (s s' : GraphQlScanner) : Prop where
  advances : Advances s s'
  placed : Placed s'
  lines : ∃ new, s'.positionToLineList = s.positionToLineList ++ new ∧
    ∀ e ∈ new, s.position < e.position

namespace Keeps

variable {s s' s'' : GraphQlScanner}

theorem trans (h : Keeps s s') (h' : Keeps s' s'') : Keeps s s'' where
  advances := h.advances.trans h'.advances
  placed := h'.placed
  lines := by
    obtain ⟨new, hlines, hnew⟩ := h.lines
    obtain ⟨new', hlines', hnew'⟩ := h'.lines
    refine ⟨new ++ new', by rw [hlines', hlines, List.append_assoc], fun e he => ?_⟩
    rcases List.mem_append.1 he with he | he
    · exact hnew e he
    · exact Nat.lt_of_le_of_lt h.advances.position (hnew' e he)

theorem of_records (hadvances : Advances s s') (hplaced : Placed s') (hrecords : Records s s') :
    Keeps s s' := by
  obtain ⟨new, hlines, hnew⟩ := hrecords
  exact ⟨hadvances, hplaced, new, hlines, fun e he => (hnew e he).1⟩

/-- An offset that was marked stays marked. -/
theorem marked (h : Keeps s s') {p : Nat} (hp : p ≤ s.position)
    (hmarked : Marked s.source s.positionToLineList p) :
    Marked s'.source s'.positionToLineList p := by
  obtain ⟨new, hlines, hnew⟩ := h.lines
  rw [h.advances.source, hlines]
  exact hmarked.append fun e he => Nat.lt_of_le_of_lt hp (hnew e he)

end Keeps

theorem keeps_save {s : GraphQlScanner} (h : Placed s) : Keeps s s.save :=
  ⟨s.advances_save, h.save, [], (List.append_nil _).symm, fun _ he => absurd he List.not_mem_nil⟩

theorem keeps_takeNextToken {s : GraphQlScanner} (h : Placed s) {skipWhiteSpace : Bool}
    (hplain : s.Plain skipWhiteSpace) (treatKeywordAsName : Bool) :
    Keeps s (s.takeNextToken treatKeywordAsName skipWhiteSpace).2 := by
  obtain ⟨hplaced, -, -, hrecords⟩ := h.takeNextToken hplain treatKeywordAsName
  exact .of_records (s.scans_takeNextToken _ _).toAdvances hplaced hrecords

/-- A token that was looked at is taken back. -/
theorem keeps_revert {s : GraphQlScanner} (h : Placed s) (hplain : s.Plain true)
    (treatKeywordAsName : Bool) :
    Keeps s (s.save.takeNextToken treatKeywordAsName true).2.revert := by
  have hscans := s.save.scans_takeNextToken treatKeywordAsName true
  have hsaved : s.save.Plain true := hplain
  obtain ⟨-, -, -, hrecords⟩ := h.save.takeNextToken hsaved treatKeywordAsName
  obtain ⟨hplaced, hrecords⟩ := h.revert hscans hrecords
  exact .of_records (advances_revert hscans) hplaced hrecords

theorem keeps_takeAfterSave {s : GraphQlScanner} (h : Placed s) (hplain : s.Plain true)
    (treatKeywordAsName : Bool) : Keeps s (s.save.takeNextToken treatKeywordAsName true).2 := by
  have hsaved : s.save.Plain true := hplain
  exact (keeps_save h).trans (keeps_takeNextToken h.save hsaved treatKeywordAsName)

theorem keeps_tryScan {s : GraphQlScanner} (h : Placed s) (hplain : s.Plain true)
    (token : GraphQlToken) (treatKeywordAsName : Bool) :
    Keeps s (s.tryScan token treatKeywordAsName).2 := by
  simp only [tryScan]
  split
  · exact keeps_takeAfterSave h hplain treatKeywordAsName
  · exact keeps_revert h hplain treatKeywordAsName

theorem keeps_skipToLoop (tokens : List GraphQlToken) (fuel : Nat) {s : GraphQlScanner}
    (h : Placed s) (hplain : ∀ s' ∈ skipToTakes tokens fuel s, s'.Plain true) :
    Keeps s (skipToLoop tokens fuel s).2 := by
  induction fuel generalizing s with
  | zero =>
    exact ⟨.rfl, h, [], (List.append_nil _).symm, fun _ he => absurd he List.not_mem_nil⟩
  | succ fuel ih =>
    have hhere : s.Plain true := by
      refine hplain s ?_
      rw [skipToTakes]
      split
      · exact List.mem_singleton_self s
      · exact List.mem_cons_self ..
    have htake := keeps_takeAfterSave h hhere false
    simp only [skipToLoop]
    split
    · exact htake
    next hend =>
    split
    · exact keeps_revert h hhere false
    · next hin =>
      refine htake.trans (ih htake.placed fun s' hs' => hplain s' ?_)
      rw [skipToTakes, if_neg fun h => h.elim hend hin]
      exact List.mem_cons_of_mem s hs'

theorem keeps_skipBlockLoop (fuel : Nat) (braces : Int) (encountered : Bool) {s : GraphQlScanner}
    (h : Placed s) (hplain : ∀ s' ∈ skipBlockTakes fuel braces encountered s, s'.Plain true) :
    Keeps s (skipBlockLoop fuel braces encountered s) := by
  induction fuel generalizing s braces encountered with
  | zero =>
    exact ⟨.rfl, h, [], (List.append_nil _).symm, fun _ he => absurd he List.not_mem_nil⟩
  | succ fuel ih =>
    simp only [skipBlockLoop]
    simp only [skipBlockTakes] at hplain
    by_cases hend : (s.takeNextToken false true).1 = .endOfDocument
    · rw [if_pos hend] at hplain ⊢
      exact keeps_takeNextToken h (hplain s (List.mem_singleton_self s)) false
    · rw [if_neg hend] at hplain ⊢
      generalize (if (s.takeNextToken false true).1 = .openBrace then (braces + 1, true)
        else if (s.takeNextToken false true).1 = .closeBrace then (braces - 1, true)
        else (braces, encountered) : Int × Bool) = next at hplain ⊢
      by_cases hdone : next.2 = true ∧ next.1 ≤ 0
      · rw [if_pos hdone] at hplain ⊢
        exact keeps_takeNextToken h (hplain s (List.mem_singleton_self s)) false
      · rw [if_neg hdone] at hplain ⊢
        have htake := keeps_takeNextToken h (hplain s (List.mem_cons_self ..)) false
        exact htake.trans (ih _ _ htake.placed fun s' hs' =>
          hplain s' (List.mem_cons_of_mem s hs'))

/-- A call in plain text keeps the invariant. -/
theorem keeps_apply {s : GraphQlScanner} (h : Placed s) {call : ScannerCall}
    (hplain : call.Plain s) : Keeps s (call.apply s) := by
  cases call with
  | takeNextToken treatKeywordAsName skipWhiteSpace =>
    exact keeps_takeNextToken h hplain treatKeywordAsName
  | tryScan token treatKeywordAsName => exact keeps_tryScan h hplain token treatKeywordAsName
  | peekNextToken => exact keeps_revert h hplain false
  | skipTo tokens => exact keeps_skipToLoop tokens _ h hplain
  | skipBlock => exact keeps_skipBlockLoop _ _ _ h hplain
  | scanDirectiveLocation =>
    obtain ⟨hplaced, -, -, hrecords⟩ := h.scanDirectiveLocation hplain
    exact .of_records s.scans_scanDirectiveLocation.toAdvances hplaced hrecords

/-- A call in plain text starts its token where the text does. -/
theorem startPosition_apply {s : GraphQlScanner} (h : Placed s) {call : ScannerCall}
    (hplain : call.Plain s) {p : Nat} (hstart : call.start s = some p) :
    (call.apply s).startPosition = p ∧ p < s.size := by
  cases call with
  | takeNextToken treatKeywordAsName skipWhiteSpace =>
    simp only [ScannerCall.start] at hstart
    split at hstart
    · cases hstart
    next hend =>
    cases hstart
    obtain ⟨-, hposition, hsize, -⟩ := h.takeNextToken hplain treatKeywordAsName
    exact ⟨hposition, hsize hend⟩
  | tryScan token treatKeywordAsName =>
    simp only [ScannerCall.start] at hstart
    split at hstart
    · next hfound =>
      cases hstart
      have hsaved : s.save.Plain true := hplain
      obtain ⟨-, hposition, hsize, -⟩ := h.save.takeNextToken hsaved treatKeywordAsName
      obtain ⟨hfound, hend⟩ := hfound
      simp only [tryScan] at hfound
      simp only [ScannerCall.apply, tryScan]
      split at hfound
      · next htoken =>
        rw [if_pos htoken]
        exact ⟨hposition, hsize (htoken ▸ hend)⟩
      · next htoken => exact absurd hfound htoken
    · cases hstart
  | scanDirectiveLocation =>
    simp only [ScannerCall.start] at hstart
    split at hstart
    · cases hstart
    next hend =>
    cases hstart
    obtain ⟨-, hposition, hsize, -⟩ := h.scanDirectiveLocation hplain
    exact ⟨hposition, hsize hend⟩
  | peekNextToken => cases hstart
  | skipTo tokens => cases hstart
  | skipBlock => cases hstart

theorem plainCalls_append {s : GraphQlScanner} {earlier later : List ScannerCall}
    (h : PlainCalls s (earlier ++ later)) :
    PlainCalls s earlier ∧ PlainCalls (s.afterCalls earlier) later := by
  induction earlier generalizing s with
  | nil => exact ⟨trivial, h⟩
  | cons call earlier ih =>
    obtain ⟨hcall, hrest⟩ := h
    obtain ⟨hearlier, hlater⟩ := ih hrest
    exact ⟨⟨hcall, hearlier⟩, hlater⟩

/-- A run in plain text keeps the invariant. -/
theorem keeps_afterCalls {s : GraphQlScanner} (h : Placed s) {calls : List ScannerCall}
    (hplain : PlainCalls s calls) : Keeps s (s.afterCalls calls) := by
  induction calls generalizing s with
  | nil => exact ⟨.rfl, h, [], (List.append_nil _).symm, fun _ he => absurd he List.not_mem_nil⟩
  | cons call calls ih =>
    obtain ⟨hcall, hrest⟩ := hplain
    have hstep := keeps_apply h hcall
    exact hstep.trans (ih hstep.placed hrest)

theorem Placed.located {s later : GraphQlScanner} (h : Placed s) (hkeeps : Keeps s later) :
    Located s later := by
  intro hsize
  obtain ⟨hline, hcolumn, hmarked⟩ := h.start hsize
  refine ⟨hline, hcolumn, fun stop => ?_⟩
  have hlater := hkeeps.marked h.startLe hmarked
  have hsize' : s.startPosition < later.size := by
    rw [hkeeps.advances.size]
    exact hsize
  rw [getTokenLocation_of_marked stop hlater hsize', hkeeps.advances.source]

/-! ## Line endings -/

/-- A text with a carriage return before every line feed. -/
def withReturns (source : Ustring) : Ustring :=
  source.flatMap fun ch => if ch = '\n' then ['\r', '\n'] else [ch]

/-- Where an offset lies after `withReturns`. -/
def offsetWithReturns (source : Ustring) (p : Nat) : Nat := (withReturns (source.take p)).length

theorem withReturns_append (text rest : Ustring) :
    withReturns (text ++ rest) = withReturns text ++ withReturns rest := List.flatMap_append

theorem charAt_append_length (text rest : Ustring) (k : Nat) :
    charAt (text ++ rest) (text.length + k) = charAt rest k := by
  rw [charAt, charAt, List.getD_eq_getElem?_getD, List.getD_eq_getElem?_getD,
    List.getElem?_append_right (Nat.le_add_right _ _), Nat.add_sub_cancel_left]

/-- Where every line feed has got a carriage return, the lines are the same. -/
theorem lineOf_withReturns {source : Ustring} (hreturn : '\r' ∉ source) {p : Nat}
    (hp : p ≤ source.length) :
    lineOf (withReturns source) (offsetWithReturns source p) = lineOf source p := by
  induction p with
  | zero => rfl
  | succ p ih =>
    have hlt : p < source.length := hp
    have hbefore := ih (Nat.le_of_lt hlt)
    obtain ⟨ch, hget⟩ : ∃ ch, source[p]? = some ch := ⟨_, List.getElem?_eq_getElem hlt⟩
    have hdrop : source.drop p = ch :: source.drop (p + 1) := by
      rw [List.drop_eq_getElem_cons hlt]
      rw [List.getElem?_eq_getElem hlt] at hget
      rw [Option.some.inj hget]
    have hchar : charAt source p = ch := by
      rw [charAt, List.getD_eq_getElem?_getD, hget]
      rfl
    have hne : ch ≠ '\r' := by
      rintro rfl
      exact hreturn (List.mem_of_getElem? hget)
    have hsplit : withReturns source =
        withReturns (source.take p) ++ (withReturns [ch] ++ withReturns (source.drop (p + 1))) := by
      rw [← withReturns_append, List.singleton_append, ← hdrop, ← withReturns_append,
        List.take_append_drop]
    have hoffset : offsetWithReturns source (p + 1) =
        offsetWithReturns source p + (withReturns [ch]).length := by
      have htake : source.take (p + 1) = source.take p ++ [ch] := by
        rw [List.take_add_one, hget]
        rfl
      rw [offsetWithReturns, htake, withReturns_append, List.length_append]
      rfl
    have hat : ∀ k, charAt (withReturns source) (offsetWithReturns source p + k) =
        charAt (withReturns [ch] ++ withReturns (source.drop (p + 1))) k := by
      intro k
      rw [hsplit]
      exact charAt_append_length _ _ k
    rw [hoffset, lineOf_succ, ← hbefore]
    by_cases hfeed : ch = '\n'
    · subst hfeed
      have hzero := hat 0
      have hone := hat 1
      have hends : endsLine source p = true := by simp [endsLine, hchar]
      have hlength : (withReturns ['\n']).length = 2 := rfl
      have hfirst : charAt (withReturns source) (offsetWithReturns source p) = '\r' := hzero
      have hsecond : charAt (withReturns source) (offsetWithReturns source p + 1) = '\n' := hone
      have hno : endsLine (withReturns source) (offsetWithReturns source p) = false := by
        simp [endsLine, hfirst, hsecond]
      have hyes : endsLine (withReturns source) (offsetWithReturns source p + 1) = true := by
        simp [endsLine, hsecond]
      rw [hlength, lineOf_succ, lineOf_succ, hno, hyes, hends]
      rfl
    · have hlength : (withReturns [ch]).length = 1 := by simp [withReturns, hfeed]
      have hfirst : charAt (withReturns source) (offsetWithReturns source p) = ch := by
        have hzero := hat 0
        have hsingle : withReturns [ch] = [ch] := by simp [withReturns, hfeed]
        rw [hsingle] at hzero
        exact hzero
      have hends : endsLine source p = false := by simp [endsLine, hchar, hfeed, hne]
      have hno : endsLine (withReturns source) (offsetWithReturns source p) = false := by
        simp [endsLine, hfirst, hfeed, hne]
      rw [hlength, lineOf_succ, hno, hends]

/-! ## Runs -/

/-- In every run whose calls all read plain text: the last token of every state is located there and
in every later state, a call that takes a token starts it where the text does, and the line that the
text gives does not depend on whether its lines end with a line feed or with both characters. -/
theorem located_of_plain (source : Ustring) (earlier later : List ScannerCall)
    (h : PlainCalls { source } (earlier ++ later)) :
    Located (afterCalls { source } earlier) (afterCalls { source } (earlier ++ later)) ∧
    (∀ call rest p, later = call :: rest →
      call.start (afterCalls { source } earlier) = some p →
      (call.apply (afterCalls { source } earlier)).startPosition = p ∧ p < source.length) ∧
    ('\r' ∉ source → ∀ p ≤ source.length,
      lineOf (withReturns source) (offsetWithReturns source p) = lineOf source p) := by
  obtain ⟨hearlier, hlater⟩ := plainCalls_append h
  have hkeeps := keeps_afterCalls (placed_initial source) hearlier
  have hrest := keeps_afterCalls hkeeps.placed hlater
  refine ⟨?_, ?_, fun hreturn p hp => lineOf_withReturns hreturn hp⟩
  · have happend : afterCalls { source } (earlier ++ later) =
        afterCalls (afterCalls { source } earlier) later := List.foldl_append
    rw [happend]
    exact hkeeps.placed.located hrest
  · rintro call rest p rfl hstart
    have hfound := startPosition_apply hkeeps.placed hlater.1 hstart
    have hsize : (afterCalls { source } earlier).size = source.length := hkeeps.advances.size
    rw [hsize] at hfound
    exact hfound

/-- Two lines and a comment are looked at twice before the name behind them is taken. -/
theorem located_of_lookAhead :
    PlainCalls { source := "a\n#\n b".toList }
      [.takeNextToken false true, .tryScan .openBrace false, .peekNextToken,
        .takeNextToken true true] ∧
    (afterCalls { source := "a\n#\n b".toList }
      [.takeNextToken false true, .tryScan .openBrace false, .peekNextToken,
        .takeNextToken true true]).line = 3 ∧
    Located
      (afterCalls { source := "a\n#\n b".toList }
        [.takeNextToken false true, .tryScan .openBrace false, .peekNextToken,
          .takeNextToken true true])
      (afterCalls { source := "a\n#\n b".toList }
        [.takeNextToken false true, .tryScan .openBrace false, .peekNextToken,
          .takeNextToken true true]) :=
  ⟨by decide, by decide, (located_of_plain "a\n#\n b".toList
    [.takeNextToken false true, .tryScan .openBrace false, .peekNextToken,
      .takeNextToken true true] [] (by decide)).1⟩

/-- A carriage return before a line feed counts as a line of its own, a line break in a block string
is not counted, and one that is answered as white space is counted too early. -/
theorem not_located_of_lineBreaks :
    ¬ Located (afterCalls { source := "\r\na".toList } [.takeNextToken false true])
      (afterCalls { source := "\r\na".toList } [.takeNextToken false true]) ∧
    ¬ Located
      (afterCalls { source := "\"\"\"\n\"\"\"a".toList }
        [.takeNextToken false true, .takeNextToken false true])
      (afterCalls { source := "\"\"\"\n\"\"\"a".toList }
        [.takeNextToken false true, .takeNextToken false true]) ∧
    ¬ Located (afterCalls { source := "\na".toList } [.takeNextToken true false])
      (afterCalls { source := "\na".toList } [.takeNextToken true false]) := by
  refine ⟨fun h => ?_, fun h => ?_, fun h => ?_⟩
  · exact absurd (h (by decide)).1 (by decide)
  · exact absurd (h (by decide)).1 (by decide)
  · exact absurd (h (by decide)).1 (by decide)

end GraphQlScanner

end Flashpoint
