import Flashpoint.Library.Brackets
import Flashpoint.Scanner.Lexeme
import Flashpoint.Scanner.Loops

/-!
# Passing over a block

`skip_block` counts the braces among the lexemes that are left, as `afterClosing` does: it stands behind
the brace that closes the first one met, or at the end of the document (`skipsBlock`).
-/

namespace Flashpoint

open Library

/-- The token as a brace. Those in strings and comments are no tokens. -/
def Lexeme.brace (l : Lexeme) : Bracket :=
  match l.token with
  | .openBrace => .opening
  | .closeBrace => .closing
  | _ => .other

namespace GraphQlScanner

/-- The scanner after a number of lexemes. -/
def afterLexemes : Nat → GraphQlScanner → GraphQlScanner
  | 0, s => s
  | n + 1, s => afterLexemes n s.afterLexeme

/-- The scanner has met the end of the document, behind all lexemes that were left. -/
def IsAtEndOf (s s' : GraphQlScanner) : Prop :=
  s' = s.afterLexemes (s.rest.length + 1) ∧ s'.left = 0 ∧ s'.rest = []

/-- Where `skip_block` stands. -/
structure SkipsBlock (s : GraphQlScanner) : Prop where
  /-- Behind the brace that closes the first one. -/
  closed : ∀ before first block last after,
    s.rest = before ++ first :: (block ++ last :: after) →
    (∀ l ∈ before, l.brace = .other) → first.brace = .opening → Balanced Lexeme.brace block →
    last.brace = .closing →
    s.skipBlock = s.afterLexemes (before.length + block.length + 2) ∧ s.skipBlock.rest = after
  /-- At the end of the document, where none closes the first one. -/
  unclosed : ∀ before first after, s.rest = before ++ first :: after →
    (∀ l ∈ before, l.brace = .other) → first.brace = .opening →
    (∀ block last after', after = block ++ last :: after' → Balanced Lexeme.brace block →
      last.brace ≠ .closing) → IsAtEndOf s s.skipBlock
  /-- At the end of the document, where there is no brace. -/
  without : (∀ l ∈ s.rest, l.brace = .other) → IsAtEndOf s s.skipBlock

/-! ## The lexemes that are left -/

theorem cons_of_rest {s : GraphQlScanner} {l : Lexeme} {ls : List Lexeme} (h : s.rest = l :: ls) :
    s.lexeme = l ∧ s.afterLexeme.rest = ls ∧ l.token ≠ .endOfDocument := by
  by_cases hend : s.lexeme.token = .endOfDocument
  · rw [rest_of_end hend] at h
    cases h
  · rw [rest_of_ne_end hend] at h
    obtain ⟨rfl, rfl⟩ := List.cons.inj h
    exact ⟨rfl, rfl, hend⟩

theorem nil_of_rest {s : GraphQlScanner} (h : s.rest = []) :
    s.lexeme.token = .endOfDocument ∧ s.afterLexeme.left = 0 := by
  by_cases hend : s.lexeme.token = .endOfDocument
  · exact ⟨hend, left_takeNextToken_of_end (s := s) hend⟩
  · rw [rest_of_ne_end hend] at h
    cases h

theorem rest_afterLexemes {s : GraphQlScanner} {before after : List Lexeme}
    (h : s.rest = before ++ after) : (s.afterLexemes before.length).rest = after := by
  induction before generalizing s with
  | nil => exact h
  | cons l before ih =>
    obtain ⟨-, hrest, -⟩ := cons_of_rest h
    exact ih hrest

theorem afterLexemes_add (m n : Nat) (s : GraphQlScanner) :
    s.afterLexemes (m + n) = (s.afterLexemes m).afterLexemes n := by
  induction m generalizing s with
  | zero => rw [Nat.zero_add]; rfl
  | succ m ih => rw [Nat.succ_add]; exact ih s.afterLexeme

/-! ## Turns of the loop -/

/-- The loop with as many turns as it can take. -/
def skipBlockFrom (matchedBraces : Int) (encounteredBrace : Bool) (s : GraphQlScanner) :
    GraphQlScanner :=
  skipBlockLoop (s.left + 1) matchedBraces encounteredBrace s

theorem skipBlock_eq (s : GraphQlScanner) : s.skipBlock = skipBlockFrom 0 false s := rfl

section Turns

variable {s : GraphQlScanner} {l : Lexeme} {ls : List Lexeme}

theorem skipBlockFrom_nil (h : s.rest = []) (matchedBraces : Int) (encounteredBrace : Bool) :
    skipBlockFrom matchedBraces encounteredBrace s = s.afterLexeme := by
  have hend : (s.takeNextToken false true).1 = .endOfDocument := (nil_of_rest h).1
  have hturn := ends_skipBlock.turns (matchedBraces, encounteredBrace, s)
  simp only [skipBlockTurn, hend, if_true] at hturn
  exact hturn

theorem skipBlockFrom_opening (h : s.rest = l :: ls) (hl : l.brace = .opening) (depth : Nat)
    (encounteredBrace : Bool) :
    skipBlockFrom depth encounteredBrace s = skipBlockFrom (depth + 1 : Nat) true s.afterLexeme := by
  obtain ⟨rfl, -, -⟩ := cons_of_rest h
  have htoken : (s.takeNextToken false true).1 = .openBrace := by
    unfold Lexeme.brace at hl
    split at hl
    · next htoken => exact htoken
    · cases hl
    · cases hl
  have hturn := ends_skipBlock.turns (depth, encounteredBrace, s)
  have hpos : ¬ ((depth : Int) + 1 ≤ 0) := by omega
  simp only [skipBlockTurn, htoken, if_true, hpos, and_false, if_false, reduceCtorEq] at hturn
  exact hturn

theorem skipBlockFrom_closing (h : s.rest = l :: ls) (hl : l.brace = .closing) (depth : Nat) :
    skipBlockFrom (depth + 1 : Nat) true s =
      if depth = 0 then s.afterLexeme else skipBlockFrom depth true s.afterLexeme := by
  obtain ⟨rfl, -, -⟩ := cons_of_rest h
  have htoken : (s.takeNextToken false true).1 = .closeBrace := by
    unfold Lexeme.brace at hl
    split at hl
    · cases hl
    · next htoken => exact htoken
    · cases hl
  have hturn := ends_skipBlock.turns ((depth + 1 : Nat), true, s)
  have hsub : ((depth + 1 : Nat) : Int) - 1 = depth := by omega
  simp only [skipBlockTurn, htoken, if_true, if_false, reduceCtorEq, hsub, true_and] at hturn
  have hzero : ((depth : Int) ≤ 0) ↔ depth = 0 := by omega
  simp only [hzero] at hturn
  exact hturn

theorem skipBlockFrom_other (h : s.rest = l :: ls) (hl : l.brace = .other) (depth : Nat)
    {encounteredBrace : Bool} (hdepth : encounteredBrace = true → 0 < depth) :
    skipBlockFrom depth encounteredBrace s = skipBlockFrom depth encounteredBrace s.afterLexeme := by
  obtain ⟨rfl, -, hend⟩ := cons_of_rest h
  have hend : (s.takeNextToken false true).1 ≠ .endOfDocument := hend
  have hne : (s.takeNextToken false true).1 ≠ .openBrace ∧
      (s.takeNextToken false true).1 ≠ .closeBrace := by
    unfold Lexeme.brace at hl
    split at hl
    · cases hl
    · cases hl
    · next hopen hclose => exact ⟨hopen, hclose⟩
  have hturn := ends_skipBlock.turns (depth, encounteredBrace, s)
  have hpos : ¬ (encounteredBrace = true ∧ (depth : Int) ≤ 0) := by
    rintro ⟨henc, hle⟩
    have := hdepth henc
    omega
  simp only [skipBlockTurn, hend, hne.1, hne.2, if_false, hpos] at hturn
  exact hturn

end Turns

/-! ## The block -/

/-- Lexemes without a brace are passed over. -/
theorem skipBlockFrom_append {s : GraphQlScanner} {before after : List Lexeme}
    (h : s.rest = before ++ after) (hbefore : ∀ l ∈ before, l.brace = .other) :
    skipBlockFrom 0 false s = skipBlockFrom 0 false (s.afterLexemes before.length) := by
  induction before generalizing s with
  | nil => rfl
  | cons l before ih =>
    obtain ⟨-, hrest, -⟩ := cons_of_rest h
    have hturn : skipBlockFrom 0 false s = skipBlockFrom 0 false s.afterLexeme :=
      skipBlockFrom_other h (hbefore l List.mem_cons_self) 0
        fun hfalse => absurd hfalse Bool.false_ne_true
    rw [hturn, ih hrest fun l' hl' => hbefore l' (List.mem_cons_of_mem _ hl')]
    rfl

/-- **In a block the loop goes as far as counting the braces does.** -/
theorem skipBlockFrom_spec (ls : List Lexeme) {s : GraphQlScanner} (h : s.rest = ls) (depth : Nat) :
    (∀ after, afterClosing Lexeme.brace depth ls = some after →
      ∃ n, ls.length = n + after.length ∧
        skipBlockFrom (depth + 1 : Nat) true s = s.afterLexemes n) ∧
    (afterClosing Lexeme.brace depth ls = none →
      skipBlockFrom (depth + 1 : Nat) true s = s.afterLexemes (ls.length + 1)) := by
  induction ls generalizing s depth with
  | nil =>
    refine ⟨fun after hafter => ?_, fun _ => skipBlockFrom_nil h _ _⟩
    cases hafter
  | cons l ls ih =>
    have hrest := (cons_of_rest h).2.1
    -- a turn that leaves the loop going, with the number of open braces after it
    have hagain : ∀ depth', skipBlockFrom (depth + 1 : Nat) true s =
        skipBlockFrom (depth' + 1 : Nat) true s.afterLexeme →
        afterClosing Lexeme.brace depth (l :: ls) = afterClosing Lexeme.brace depth' ls →
        (∀ after, afterClosing Lexeme.brace depth (l :: ls) = some after →
          ∃ n, (l :: ls).length = n + after.length ∧
            skipBlockFrom (depth + 1 : Nat) true s = s.afterLexemes n) ∧
        (afterClosing Lexeme.brace depth (l :: ls) = none →
          skipBlockFrom (depth + 1 : Nat) true s = s.afterLexemes ((l :: ls).length + 1)) := by
      intro depth' hturn hcount
      obtain ⟨hsome, hnone⟩ := ih hrest depth'
      rw [hturn, hcount]
      refine ⟨fun after hafter => ?_, fun hafter => hnone hafter⟩
      obtain ⟨n, hn, hloop⟩ := hsome after hafter
      exact ⟨n + 1, by rw [List.length_cons, hn, Nat.succ_add], hloop⟩
    cases hl : l.brace with
    | opening =>
      exact hagain (depth + 1) (skipBlockFrom_opening h hl _ _) (afterClosing_opening hl _ _)
    | other =>
      exact hagain depth (skipBlockFrom_other h hl _ fun _ => Nat.succ_pos _)
        (afterClosing_other hl _ _)
    | closing =>
      have hturn := skipBlockFrom_closing h hl depth
      cases depth with
      | zero =>
        rw [afterClosing_closing_zero hl]
        refine ⟨fun after hafter => ?_, fun hnone => ?_⟩
        · obtain rfl := Option.some.inj hafter
          exact ⟨1, Nat.add_comm _ _, hturn⟩
        · cases hnone
      | succ depth =>
        rw [if_neg (Nat.succ_ne_zero _)] at hturn
        exact hagain depth hturn (afterClosing_closing_succ hl _ _)

theorem isAtEndOf_afterLexemes (s : GraphQlScanner) :
    IsAtEndOf s (s.afterLexemes (s.rest.length + 1)) := by
  have hrest := rest_afterLexemes (List.append_nil s.rest).symm
  have hleft : (s.afterLexemes (s.rest.length + 1)).left = 0 := by
    rw [afterLexemes_add]
    exact (nil_of_rest hrest).2
  exact ⟨rfl, hleft, rest_of_left hleft⟩

/-- **`skip_block` stands behind the brace that closes the first one met, or at the end of the
document.** -/
theorem skipsBlock (s : GraphQlScanner) : SkipsBlock s where
  closed := by
    intro before first block last after hrest hbefore hfirst hblock hlast
    have hstart := rest_afterLexemes hrest
    have hbody := (cons_of_rest hstart).2.1
    have hclosing : afterClosing Lexeme.brace 0 (block ++ last :: after) = some after :=
      afterClosing_iff.2 ⟨block, last, rfl, hblock, hlast⟩
    obtain ⟨n, hn, hloop⟩ := (skipBlockFrom_spec _ hbody 0).1 after hclosing
    have hlength : n = block.length + 1 := by
      simp only [List.length_append, List.length_cons] at hn
      omega
    have hskip : s.skipBlock = s.afterLexemes (before.length + block.length + 2) := by
      calc s.skipBlock
          = skipBlockFrom 0 false (s.afterLexemes before.length) := by
            rw [skipBlock_eq, skipBlockFrom_append hrest hbefore]
        _ = skipBlockFrom (0 + 1 : Nat) true (s.afterLexemes before.length).afterLexeme :=
            skipBlockFrom_opening hstart hfirst 0 false
        _ = (s.afterLexemes before.length).afterLexemes (block.length + 1 + 1) := by
            rw [hloop, hlength]; rfl
        _ = s.afterLexemes (before.length + block.length + 2) := by
            rw [← afterLexemes_add, ← Nat.add_assoc, ← Nat.add_assoc]
    refine ⟨hskip, ?_⟩
    rw [hskip]
    have hall : s.rest = (before ++ first :: (block ++ [last])) ++ after := by
      rw [hrest]
      simp
    have hafter := rest_afterLexemes hall
    simp only [List.length_append, List.length_cons, List.length_nil] at hafter
    exact hafter
  unclosed := by
    intro before first after hrest hbefore hfirst hopen
    have hstart := rest_afterLexemes hrest
    have hbody := (cons_of_rest hstart).2.1
    have hnone : afterClosing Lexeme.brace 0 after = none := by
      rw [Option.eq_none_iff_forall_ne_some]
      intro after' hafter
      obtain ⟨block, last, heq, hblock, hlast⟩ := afterClosing_iff.1 hafter
      exact hopen block last after' heq hblock hlast
    have hskip : s.skipBlock = s.afterLexemes (s.rest.length + 1) := by
      calc s.skipBlock
          = skipBlockFrom 0 false (s.afterLexemes before.length) := by
            rw [skipBlock_eq, skipBlockFrom_append hrest hbefore]
        _ = skipBlockFrom (0 + 1 : Nat) true (s.afterLexemes before.length).afterLexeme :=
            skipBlockFrom_opening hstart hfirst 0 false
        _ = (s.afterLexemes before.length).afterLexemes (after.length + 1 + 1) :=
            (skipBlockFrom_spec _ hbody 0).2 hnone
        _ = s.afterLexemes (s.rest.length + 1) := by
            rw [← afterLexemes_add, hrest, List.length_append, List.length_cons]
            rfl
    rw [hskip]
    exact isAtEndOf_afterLexemes s
  without := by
    intro hother
    have hrest : s.rest = s.rest ++ [] := (List.append_nil _).symm
    have hend := rest_afterLexemes hrest
    have hskip : s.skipBlock = s.afterLexemes (s.rest.length + 1) := by
      rw [skipBlock_eq, skipBlockFrom_append hrest hother, skipBlockFrom_nil hend, afterLexemes_add]
      rfl
    rw [hskip]
    exact isAtEndOf_afterLexemes s

/-- A brace in a comment and one in a string close nothing. -/
example : ({ source := "a \x7b\"\x7d\" \x7bb\x7d #\x7d\n\x7d c".toList } : GraphQlScanner).skipBlock.position = 15 := by
  decide +kernel

/-! ## What is left after a skip -/

/-- What is left behind the first block, or behind a brace that closes none. -/
def afterBlock : List Lexeme → List Lexeme
  | [] => []
  | l :: ls =>
    match l.brace with
    | .opening => (afterClosing Lexeme.brace 0 ls).getD []
    | .closing => ls
    | .other => afterBlock ls

/-- The loop is left at a brace that closes nothing. -/
theorem skipBlockFrom_unopened {s : GraphQlScanner} {l : Lexeme} {ls : List Lexeme}
    (h : s.rest = l :: ls) (hl : l.brace = .closing) : skipBlockFrom 0 false s = s.afterLexeme := by
  obtain ⟨rfl, -, -⟩ := cons_of_rest h
  have htoken : (s.takeNextToken false true).1 = .closeBrace := by
    unfold Lexeme.brace at hl
    split at hl
    · cases hl
    · next htoken => exact htoken
    · cases hl
  have hturn := ends_skipBlock.turns (0, false, s)
  have hle : (0 : Int) - 1 ≤ 0 := by omega
  simp only [skipBlockTurn, htoken, if_true, if_false, reduceCtorEq, hle, and_self] at hturn
  exact hturn

theorem rest_skipBlock (s : GraphQlScanner) : s.skipBlock.rest = afterBlock s.rest := by
  rw [skipBlock_eq]
  generalize hls : s.rest = ls
  induction ls generalizing s with
  | nil =>
    rw [skipBlockFrom_nil hls]
    exact rest_of_left (nil_of_rest hls).2
  | cons l ls ih =>
    have hrest := (cons_of_rest hls).2.1
    unfold afterBlock
    cases hl : l.brace with
    | other =>
      have hturn : skipBlockFrom 0 false s = skipBlockFrom 0 false s.afterLexeme :=
        skipBlockFrom_other hls hl 0 fun hfalse => absurd hfalse Bool.false_ne_true
      rw [hturn]
      exact ih _ hrest
    | closing =>
      rw [skipBlockFrom_unopened hls hl]
      exact hrest
    | opening =>
      have hturn : skipBlockFrom 0 false s = skipBlockFrom (0 + 1 : Nat) true s.afterLexeme :=
        skipBlockFrom_opening hls hl 0 false
      rw [hturn]
      cases hclosing : afterClosing Lexeme.brace 0 ls with
      | none =>
        rw [(skipBlockFrom_spec ls hrest 0).2 hclosing, ← hrest]
        exact (isAtEndOf_afterLexemes s.afterLexeme).2.2
      | some after =>
        obtain ⟨block, last, hblock, -, -⟩ := afterClosing_iff.1 hclosing
        obtain ⟨n, hn, hloop⟩ := (skipBlockFrom_spec ls hrest 0).1 after hclosing
        have hsplit : s.afterLexeme.rest = (block ++ [last]) ++ after := by
          rw [hrest, hblock, List.append_assoc]
          rfl
        have hlength : n = (block ++ [last]).length := by
          rw [hblock] at hn
          simp only [List.length_append, List.length_cons, List.length_nil] at hn ⊢
          omega
        rw [hloop, hlength]
        exact rest_afterLexemes hsplit

/-- `skip_to` passes over the lexemes before the first of the given tokens. -/
theorem rest_skipTo (s : GraphQlScanner) (tokens : List GraphQlToken) :
    (s.skipTo tokens).2.rest = s.rest.dropWhile fun l => l.token ∉ tokens := by
  generalize hls : s.rest = ls
  induction ls generalizing s with
  | nil =>
    have hsave : s.save.rest = [] := (samePlace_save s).rest.symm.trans hls
    have hend : (s.save.takeNextToken false true).1 = .endOfDocument := (nil_of_rest hsave).1
    have hturn := (ends_skipTo tokens).turns s
    simp only [skipToTurn, hend, if_true] at hturn
    rw [hturn]
    exact rest_of_left (nil_of_rest hsave).2
  | cons l ls ih =>
    have hsave : s.save.rest = l :: ls := (samePlace_save s).rest.symm.trans hls
    obtain ⟨rfl, hrest, hend⟩ := cons_of_rest hsave
    have hturn := (ends_skipTo tokens).turns s
    have hend : (s.save.takeNextToken false true).1 ≠ .endOfDocument := hend
    simp only [skipToTurn, hend, if_false] at hturn
    rw [hturn]
    by_cases hmem : (s.save.takeNextToken false true).1 ∈ tokens
    · have hreverted := revert_of_scans (s.save.scans_takeNextToken false true)
      have hplace : SamePlace s (s.save.takeNextToken false true).2.revert :=
        ⟨hreverted.1.symm, hreverted.2.symm⟩
      have hstops : (s.save.lexeme :: ls).dropWhile (fun l => l.token ∉ tokens) =
          s.save.lexeme :: ls :=
        List.dropWhile_cons_of_neg fun h => absurd hmem (of_decide_eq_true h)
      rw [if_pos hmem, hstops]
      exact hplace.rest.symm.trans hls
    · have hpasses : (s.save.lexeme :: ls).dropWhile (fun l => l.token ∉ tokens) =
          ls.dropWhile fun l => l.token ∉ tokens :=
        List.dropWhile_cons_of_pos (decide_eq_true hmem)
      rw [if_neg hmem, hpasses]
      exact ih _ hrest

end GraphQlScanner

end Flashpoint
