import Flashpoint.Scanner.Text

/-!
# Lines and columns of a text

The line and the column of an offset, said of the text alone, and the bisection of the line table.
The table may hold entries twice and out of order, since what a look-ahead recorded stays. It still
leads to the line of an offset if the entries up to that offset come first and the last of them is
the start of its line.
-/

namespace Flashpoint

namespace GraphQlScanner

/-! ## Offsets -/

/-- A line terminator ends with the character at an offset: a line feed, or a carriage return that no
line feed follows. -/
def endsLine (source : Ustring) (i : Nat) : Bool :=
  charAt source i = '\n' || (charAt source i = '\r' && charAt source (i + 1) ≠ '\n')

/-- The line of an offset: one more than the line terminators before it. -/
def lineOf (source : Ustring) (p : Nat) : Nat := 1 + (List.range p).countP (endsLine source)

/-- The offset after the last line terminator before an offset. -/
def lineStart (source : Ustring) : Nat → Nat
  | 0 => 0
  | p + 1 => if endsLine source p then p + 1 else lineStart source p

/-- The column of an offset: one more than its distance from the last line terminator. -/
def columnOf (source : Ustring) (p : Nat) : Nat := 1 + (p - lineStart source p)

section

variable {source : Ustring}

theorem lineOf_succ (p : Nat) :
    lineOf source (p + 1) = lineOf source p + if endsLine source p then 1 else 0 := by
  simp only [lineOf, List.range_succ, List.countP_append, List.countP_singleton, Nat.add_assoc]

theorem lineStart_le (p : Nat) : lineStart source p ≤ p := by
  induction p with
  | zero => exact Nat.le_refl 0
  | succ p ih =>
    rw [lineStart]
    split
    · exact Nat.le_refl _
    · exact Nat.le_succ_of_le ih

/-- The start of the line lies behind every line terminator up to the offset. -/
theorem le_lineStart {p i : Nat} (hi : i < p) (hends : endsLine source i = true) :
    i + 1 ≤ lineStart source p := by
  induction p with
  | zero => exact absurd hi (Nat.not_lt_zero i)
  | succ p ih =>
    rw [lineStart]
    split
    · exact hi
    · next hnot =>
      refine ih (Nat.lt_of_le_of_ne (Nat.le_of_lt_succ hi) fun heq => hnot ?_)
      rw [← heq]
      exact hends

/-- Along a line nothing but the column changes. -/
theorem sameLine {p q : Nat} (hpq : p ≤ q) (h : ∀ i, p ≤ i → i < q → endsLine source i = false) :
    lineOf source q = lineOf source p ∧ lineStart source q = lineStart source p := by
  induction q with
  | zero =>
    obtain rfl : p = 0 := Nat.le_zero.1 hpq
    exact ⟨rfl, rfl⟩
  | succ q ih =>
    by_cases heq : p = q + 1
    · subst heq
      exact ⟨rfl, rfl⟩
    · have hle : p ≤ q := by omega
      obtain ⟨hline, hstart⟩ := ih hle fun i hp hq => h i hp (by omega)
      have hnot := h q hle (Nat.lt_succ_self q)
      rw [lineOf_succ, lineStart, hnot, hline, hstart]
      exact ⟨rfl, rfl⟩

end

/-! ## The line table -/

/-- The entry of the line of an offset. -/
def lineEntry (source : Ustring) (p : Nat) : PositionToLine :=
  ⟨lineStart source p, lineOf source p⟩

/-- The entries up to an offset come first, and the last of them is that of its line. -/
def Marked (source : Ustring) (table : List PositionToLine) (p : Nat) : Prop :=
  ∃ before after, table = before ++ lineEntry source p :: after ∧
    (∀ e ∈ before, e.position ≤ p) ∧ ∀ e ∈ after, p < e.position

theorem Marked.append {source : Ustring} {table new : List PositionToLine} {p : Nat}
    (h : Marked source table p) (hnew : ∀ e ∈ new, p < e.position) :
    Marked source (table ++ new) p := by
  obtain ⟨before, after, rfl, hbefore, hafter⟩ := h
  refine ⟨before, after ++ new, ?_, hbefore, fun e he => ?_⟩
  · rw [List.append_assoc, List.cons_append]
  · rcases List.mem_append.1 he with he | he
    · exact hafter e he
    · exact hnew e he

/-- The location of an offset in a text. -/
def locationOf (source : Ustring) (p length : Nat) : Location :=
  { line := lineOf source p, column := columnOf source p, length }

section

variable {s : GraphQlScanner} {p m : Nat}
  (hm : s.positionToLineList[m]? = some (lineEntry s.source p))
  (hbefore : ∀ i e, i ≤ m → s.positionToLineList[i]? = some e → e.position ≤ p)
  (hafter : ∀ i e, m < i → s.positionToLineList[i]? = some e → p < e.position)
  (hsize : p < s.size)

include hm hsize in
theorem atEntry_eq : searchForLineLoop.atEntry s p m = some (locationOf s.source p 0) := by
  have hle : p ≥ (lineEntry s.source p).position := lineStart_le p
  simp only [searchForLineLoop.atEntry, hm]
  rw [if_pos ⟨hle, hsize⟩, Nat.add_comm]
  rfl

include hm hbefore hafter hsize

/-- The interval closes in on the entry. -/
theorem searchForLineLoop_eq (fuel : Nat) : ∀ {start stop : Nat}, stop - start ≤ fuel →
    start ≤ m → m ≤ stop → stop < s.positionToLineList.length →
    s.searchForLineLoop p fuel start stop = some (locationOf s.source p 0) := by
  induction fuel with
  | zero =>
    intro start stop hfuel hstart hstop _
    have heq : stop = start := by omega
    have hmid : stop = m := by omega
    rw [searchForLineLoop, if_pos heq, hmid]
    exact atEntry_eq hm hsize
  | succ fuel ih =>
    intro start stop hfuel hstart hstop hlength
    rw [searchForLineLoop]
    by_cases hlt : stop > start
    · rw [if_pos hlt]
      obtain ⟨mid, hmid⟩ : ∃ mid, mid = start + (stop - start) / 2 := ⟨_, rfl⟩
      have hentry := List.getElem?_eq_getElem (l := s.positionToLineList) (i := mid) (by omega)
      have hnext := List.getElem?_eq_getElem (l := s.positionToLineList) (i := mid + 1) (by omega)
      simp only [← hmid, hentry, hnext]
      rcases Nat.lt_trichotomy mid m with hless | heq | hmore
      · have hnextLe := hbefore _ _ hless hnext
        have hentryLe := hbefore _ _ (Nat.le_of_lt hless) hentry
        rw [if_neg fun h => Nat.not_lt.2 hnextLe h.2, if_neg (Nat.not_lt.2 hentryLe)]
        exact ih (by omega) (by omega) hstop hlength
      · subst heq
        have hnextLt := hafter _ _ (Nat.lt_succ_self mid) hnext
        have hentryEq := Option.some.inj (hentry.symm.trans hm)
        have hle : p ≥ (lineEntry s.source p).position := lineStart_le p
        rw [hentryEq, if_pos ⟨hle, hnextLt⟩, Nat.add_comm]
        rfl
      · have hentryLt := hafter _ _ hmore hentry
        rw [if_neg fun h => Nat.not_le.2 hentryLt h.1, if_pos hentryLt, if_neg (by omega)]
        exact ih (by omega) hstart (by omega) (by omega)
    · have heq : stop = start := by omega
      have hmid : stop = m := by omega
      rw [if_neg hlt, if_pos heq, hmid]
      exact atEntry_eq hm hsize

end

/-- The bisection finds the line of a marked offset. -/
theorem getTokenLocation_of_marked {s : GraphQlScanner} {p : Nat} (stop : Nat)
    (h : Marked s.source s.positionToLineList p) (hsize : p < s.size) :
    s.getTokenLocation p stop = some (locationOf s.source p (stop - p)) := by
  obtain ⟨before, after, htable, hbefore, hafter⟩ := h
  have hm : s.positionToLineList[before.length]? = some (lineEntry s.source p) := by
    rw [htable, List.getElem?_append_right (Nat.le_refl _), Nat.sub_self]
    rfl
  have hearlier : ∀ i e, i ≤ before.length → s.positionToLineList[i]? = some e →
      e.position ≤ p := by
    intro i e hi he
    rcases Nat.lt_or_eq_of_le hi with hlt | rfl
    · rw [htable, List.getElem?_append_left hlt] at he
      exact hbefore e (List.mem_of_getElem? he)
    · rw [hm] at he
      rw [← Option.some.inj he]
      exact lineStart_le p
  have hlater : ∀ i e, before.length < i → s.positionToLineList[i]? = some e →
      p < e.position := by
    intro i e hi he
    rw [htable, List.getElem?_append_right (Nat.le_of_lt hi)] at he
    obtain ⟨k, hk⟩ : ∃ k, i - before.length = k + 1 := ⟨i - before.length - 1, by omega⟩
    rw [hk, List.getElem?_cons_succ] at he
    exact hafter e (List.mem_of_getElem? he)
  have hlength : before.length < s.positionToLineList.length := (List.getElem?_eq_some_iff.1 hm).1
  have hsearch := searchForLineLoop_eq hm hearlier hlater hsize _
    (Nat.le_refl (s.positionToLineList.length - 1 - 0)) (Nat.zero_le _) (by omega) (by omega)
  rw [getTokenLocation, searchForLine, hsearch]
  rfl

end GraphQlScanner

end Flashpoint
