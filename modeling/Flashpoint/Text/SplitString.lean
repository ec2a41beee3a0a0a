import Flashpoint.Text.TextWriter
import Mathlib.Data.List.Infix

/-!
# Splitting and joining

`split_string` in its two overloads, and `join_vector`. The one with a character goes through the text
with `getline`, which gives no piece behind a delimiter at the end; the one with a string looks for the
delimiter again where it has just found it. So the pieces join to the text again exactly where the text
does not end with the character, and where it does not hold the string at all (`splitsBack_iff`).
-/

namespace Flashpoint

/-! ## Streams -/

/-- A `std::stringstream` that is read: the text that is left, and whether an earlier read met its
end. -/
structure StringStream (α : Type) where
  left : List α
  eof : Bool := false

namespace StringStream

variable {α : Type} [DecidableEq α]

/-- `std::getline`: whether it has read something, with the text it leaves in the string. A stream that
has met its end leaves the string alone. -/
def getline (delimiter : α) (stream : StringStream α) (item : List α) :
    Bool × List α × StringStream α :=
  if stream.eof then (false, item, stream)
  else if stream.left = [] then (false, [], { stream with eof := true })
  else if delimiter ∈ stream.left then
    (true, stream.left.takeWhile (· ≠ delimiter),
      { left := (stream.left.dropWhile (· ≠ delimiter)).tail })
  else (true, stream.left, { left := [], eof := true })

/-- The loop over `getline`: the pieces, and the text that the last call leaves. -/
def readPieces (delimiter : α) : Nat → StringStream α → List α → Option (List (List α) × List α)
  | 0, _, _ => none
  | fuel + 1, stream, item =>
    match stream.getline delimiter item with
    | (false, item, _) => some ([], item)
    | (true, item, stream) =>
      (readPieces delimiter fuel stream item).map (Prod.map (item :: ·) id)

end StringStream

namespace Utils

variable {α : Type} [DecidableEq α]

/-! ## The functions -/

/-- `split_string` for a character; `none` where the loop goes on. -/
def splitStringAtChar (s : List α) (delimiter : α) (fuel : Nat) : Option (List (List α)) :=
  (StringStream.readPieces delimiter fuel { left := s } []).map Prod.fst

/-- `find`: the first position from `pos` on at which the delimiter stands. -/
def find (s delimiter : List α) (pos : Nat) : Option Nat :=
  ((List.range (s.length + 1 - pos)).map (pos + ·)).find? fun i => delimiter.isPrefixOf (s.drop i)

/-- `substr`, up to the end where no count is given. It throws where `pos` lies behind the end, which
`prev_pos` never does. -/
def substr (s : List α) (pos : Nat) : Option Nat → List α
  | some count => (s.drop pos).take count
  | none => s.drop pos

/-- The loop of `split_string` for a string. It leaves `pos` where the delimiter was found, so that
`pos - prev_pos` wraps around in the next turn; `npos - prev_pos` is more than any text has left. -/
def splitStringLoop (s delimiter : List α) : Nat → Nat → Nat → Option (List (List α))
  | 0, _, _ => none
  | fuel + 1, prevPos, pos =>
    match find s delimiter pos with
    | some pos =>
      (splitStringLoop s delimiter fuel (pos + delimiter.length) pos).map
        (substr s prevPos (some ((pos + 2 ^ 64 - prevPos) % 2 ^ 64)) :: ·)
    | none => some [substr s prevPos none]

/-- `split_string` for a string; `none` where the loop goes on. -/
def splitString (s delimiter : List α) (fuel : Nat) : Option (List (List α)) :=
  splitStringLoop s delimiter fuel 0 0

/-- `join_vector` -/
def joinVector (vec : List (List α)) (delimiter : List α) : List α :=
  vec.zipIdx.flatMap fun (piece, i) => (if i ≠ 0 then delimiter else []) ++ piece

/-- The split ends, no piece holds the delimiter, and the pieces join to the text again. -/
def SplitsBack (split : Nat → Option (List (List α))) (s delimiter : List α) : Prop :=
  ∃ fuel pieces, split fuel = some pieces ∧ (∀ piece ∈ pieces, ¬ delimiter <:+: piece) ∧
    joinVector pieces delimiter = s

/-! ## Joining -/

omit [DecidableEq α] in
theorem joinVector_eq_intercalate (vec : List (List α)) (delimiter : List α) :
    joinVector vec delimiter = delimiter.intercalate vec := by
  have hlater : ∀ (vec : List (List α)) n, (vec.zipIdx (n + 1)).flatMap
      (fun (piece, i) => (if i ≠ 0 then delimiter else []) ++ piece) =
        vec.flatMap (delimiter ++ ·) := by
    intro vec
    induction vec with
    | nil => intro n; rfl
    | cons piece vec ih =>
      intro n
      simp only [List.zipIdx_cons, List.flatMap_cons, ih (n + 1)]
      simp
  cases vec with
  | nil => rfl
  | cons piece vec =>
    have hrest : delimiter.intercalate (piece :: vec) = piece ++ vec.flatMap (delimiter ++ ·) := by
      induction vec generalizing piece with
      | nil => simp
      | cons next vec ih =>
        rw [List.intercalate_cons_cons, ih next, List.flatMap_cons, List.append_assoc,
          List.append_assoc]
    rw [hrest, joinVector, List.zipIdx_cons, List.flatMap_cons, hlater]
    rfl

/-! ## A character -/

theorem not_mem_of_mem_splitOn {s piece : List α} {delimiter : α} (h : piece ∈ s.splitOn delimiter) :
    delimiter ∉ piece := by
  induction hlength : s.length using Nat.strong_induction_on generalizing s with
  | _ n ih =>
    by_cases hmem : delimiter ∈ s
    · obtain ⟨before, after, rfl, hbefore⟩ := List.eq_append_cons_of_mem hmem
      rw [List.splitOn_append_cons_self_of_not_mem hbefore, List.mem_cons] at h
      rcases h with rfl | h
      · exact hbefore
      · refine ih after.length ?_ h rfl
        rw [← hlength]
        simp
        omega
    · rw [List.splitOn_eq_singleton hmem, List.mem_singleton] at h
      rw [h]
      exact hmem

omit [DecidableEq α] in
theorem getLast?_append_cons {before after : List α} {ch : α} :
    (before ++ ch :: after).getLast? = some ch ↔ after = [] ∨ after.getLast? = some ch := by
  cases after with
  | nil => simp
  | cons next after => simp [List.getLast?_append, List.getLast?_cons]

/-- The pieces are those between the delimiters, but for an empty one at the end: then the last call
leaves an empty text. -/
theorem readPieces_spec (delimiter : α) (fuel : Nat) {s : List α} (item : List α)
    (hfuel : s.length + 2 ≤ fuel) :
    ∃ pieces last, StringStream.readPieces delimiter fuel { left := s } item = some (pieces, last) ∧
      pieces ++ (if last = [] then [[]] else []) = s.splitOn delimiter ∧
      (last = [] ↔ s = [] ∨ s.getLast? = some delimiter) := by
  induction fuel generalizing s item with
  | zero => omega
  | succ fuel ih =>
    rw [StringStream.readPieces, StringStream.getline, if_neg Bool.false_ne_true]
    by_cases hempty : s = []
    · subst hempty
      exact ⟨[], [], rfl, by simp, by simp⟩
    rw [if_neg hempty]
    by_cases hmem : delimiter ∈ s
    · obtain ⟨before, after, rfl, hbefore⟩ := List.eq_append_cons_of_mem hmem
      rw [if_pos hmem]
      have hfront : ∀ ch ∈ before, decide (ch ≠ delimiter) = true := by
        intro ch hch
        simp only [ne_eq, decide_not, Bool.not_eq_true', decide_eq_false_iff_not]
        rintro rfl
        exact hbefore hch
      have htake : (before ++ delimiter :: after).takeWhile (· ≠ delimiter) = before := by
        rw [List.takeWhile_append_of_pos hfront]
        simp
      have hdrop : ((before ++ delimiter :: after).dropWhile (· ≠ delimiter)).tail = after := by
        rw [List.dropWhile_append_of_pos hfront]
        simp
      have hless : after.length + 2 ≤ fuel := by
        simp only [List.length_append, List.length_cons] at hfuel
        omega
      obtain ⟨pieces, last, hread, hsplit, hlast⟩ := ih before hless
      rw [htake, hdrop]
      simp only [hread, Option.map_some]
      refine ⟨before :: pieces, last, rfl, ?_, ?_⟩
      · rw [List.splitOn_append_cons_self_of_not_mem hbefore, ← hsplit, List.cons_append]
      · rw [hlast, getLast?_append_cons]
        simp
    · rw [if_neg hmem]
      obtain ⟨n, rfl⟩ : ∃ n, fuel = n + 1 := ⟨fuel - 1, by omega⟩
      refine ⟨[s], s, rfl, ?_, ?_⟩
      · rw [if_neg hempty, List.append_nil, List.splitOn_eq_singleton hmem]
      · refine iff_of_false hempty fun h => ?_
        rcases h with hnil | hlast
        · exact hempty hnil
        · exact hmem (List.mem_of_getLast? hlast)

omit [DecidableEq α] in
theorem singleton_infix_iff {ch : α} {s : List α} : [ch] <:+: s ↔ ch ∈ s := by
  rw [List.mem_iff_append, List.IsInfix]
  simp [eq_comm]

/-- More turns change nothing. -/
theorem readPieces_mono {delimiter : α} {fuel : Nat} {stream : StringStream α} {item : List α}
    {result : List (List α) × List α}
    (h : StringStream.readPieces delimiter fuel stream item = some result) (more : Nat) :
    StringStream.readPieces delimiter (fuel + more) stream item = some result := by
  induction fuel generalizing stream item result with
  | zero => cases h
  | succ fuel ih =>
    rw [Nat.add_right_comm, StringStream.readPieces]
    rw [StringStream.readPieces] at h
    generalize stream.getline delimiter item = answer at h ⊢
    obtain ⟨found, item', stream'⟩ := answer
    cases found with
    | false => exact h
    | true =>
      obtain ⟨rest, hrest, rfl⟩ := Option.map_eq_some_iff.1 h
      simp only [ih hrest, Option.map_some]

omit [DecidableEq α] in
theorem intercalate_append_singleton {sep last : List α} {pieces : List (List α)} (h : pieces ≠ []) :
    sep.intercalate (pieces ++ [last]) = sep.intercalate pieces ++ sep ++ last := by
  induction pieces with
  | nil => exact absurd rfl h
  | cons piece pieces ih =>
    cases pieces with
    | nil => simp [List.intercalate_cons_cons]
    | cons next pieces =>
      rw [List.cons_append, List.cons_append, List.intercalate_cons_cons, ← List.cons_append,
        ih (List.cons_ne_nil _ _), List.intercalate_cons_cons]
      simp [List.append_assoc]

/-- With the character the pieces join to the text again exactly if it does not end with it. -/
theorem splitsBack_char_iff (s : List α) (delimiter : α) :
    SplitsBack (splitStringAtChar s delimiter) s [delimiter] ↔ s.getLast? ≠ some delimiter := by
  obtain ⟨pieces, last, hread, hsplit, hlast⟩ :=
    readPieces_spec delimiter (s.length + 2) (s := s) [] (Nat.le_refl _)
  have hjoin : [delimiter].intercalate (s.splitOn delimiter) = s := List.intercalate_splitOn delimiter
  constructor
  · rintro ⟨fuel, pieces', hpieces, -, hback⟩ hends
    -- the two numbers of turns give the same pieces
    obtain ⟨⟨_, last'⟩, hread', rfl⟩ := Option.map_eq_some_iff.1 hpieces
    have hmore := readPieces_mono hread fuel
    rw [Nat.add_comm, readPieces_mono hread' (s.length + 2)] at hmore
    cases hmore
    rw [if_pos (hlast.2 (.inr hends))] at hsplit
    rw [joinVector_eq_intercalate] at hback
    rw [← hsplit] at hjoin
    by_cases hnone : pieces = []
    · subst hnone
      rw [List.nil_append, List.intercalate_singleton] at hjoin
      rw [← hjoin] at hends
      cases hends
    · rw [intercalate_append_singleton hnone, hback, List.append_nil] at hjoin
      exact absurd hjoin (by simp)
  · intro hends
    refine ⟨s.length + 2, pieces, by rw [splitStringAtChar, hread]; rfl, ?_, ?_⟩
    · intro piece hpiece hinfix
      have hmem : piece ∈ s.splitOn delimiter := by
        rw [← hsplit]
        exact List.mem_append_left _ hpiece
      exact not_mem_of_mem_splitOn hmem (singleton_infix_iff.1 hinfix)
    · rw [joinVector_eq_intercalate]
      by_cases hempty : s = []
      · subst hempty
        rw [if_pos (hlast.2 (.inl rfl)), List.splitOn_nil] at hsplit
        have hnone : pieces = [] := List.append_eq_singleton_iff.1 hsplit |>.elim
          (fun h => h.1) fun h => absurd h.2 (by simp)
        rw [hnone]
        rfl
      · rw [if_neg fun h => (hlast.1 h).elim hempty hends, List.append_nil] at hsplit
        rw [hsplit]
        exact hjoin

/-! ## A string -/

theorem find_eq_none {s delimiter : List α} (h : ¬ delimiter <:+: s) (pos : Nat) :
    find s delimiter pos = none := by
  rw [find, List.find?_eq_none]
  intro i _ hprefix
  apply h
  exact (List.isPrefixOf_iff_prefix.1 hprefix).isInfix.trans (List.drop_suffix i s).isInfix

/-- Where the delimiter was found it is found again. -/
theorem find_of_find {s delimiter : List α} {pos i : Nat} (h : find s delimiter pos = some i) :
    find s delimiter i = some i := by
  have hmem := List.mem_of_find?_eq_some h
  have hprefix := List.find?_some h
  simp only [List.mem_map, List.mem_range] at hmem
  obtain ⟨k, hk, rfl⟩ := hmem
  obtain ⟨n, hn⟩ : ∃ n, s.length + 1 - (pos + k) = n + 1 := ⟨s.length - (pos + k), by omega⟩
  rw [find, hn, List.range_succ_eq_map, List.map_cons, List.find?_cons, Nat.add_zero, hprefix]

theorem exists_find {s delimiter : List α} (h : delimiter <:+: s) :
    ∃ i, find s delimiter 0 = some i := by
  obtain ⟨before, after, rfl⟩ := h
  rw [← Option.isSome_iff_exists, find, List.find?_isSome]
  refine ⟨before.length, List.mem_map.2 ⟨before.length, List.mem_range.2 ?_, Nat.zero_add _⟩, ?_⟩
  · rw [List.length_append, List.length_append]
    omega
  · rw [List.isPrefixOf_iff_prefix, List.append_assoc, List.drop_left]
    exact List.prefix_append ..

/-- From where the delimiter stands the loop does not end. -/
theorem splitStringLoop_eq_none {s delimiter : List α} {i : Nat}
    (h : find s delimiter i = some i) (fuel prevPos : Nat) :
    splitStringLoop s delimiter fuel prevPos i = none := by
  induction fuel generalizing prevPos with
  | zero => rfl
  | succ fuel ih =>
    rw [splitStringLoop, h]
    simp only [ih, Option.map_none]

/-- With the string the split ends exactly if the text does not hold it. -/
theorem splitsBack_string_iff (s delimiter : List α) :
    SplitsBack (splitString s delimiter) s delimiter ↔ ¬ delimiter <:+: s := by
  constructor
  · rintro ⟨fuel, pieces, hsplit, -, -⟩ hinfix
    obtain ⟨i, hfind⟩ := exists_find hinfix
    cases fuel with
    | zero => cases hsplit
    | succ fuel =>
      rw [splitString, splitStringLoop, hfind] at hsplit
      simp only [splitStringLoop_eq_none (find_of_find hfind), Option.map_none, reduceCtorEq] at hsplit
  · intro hnot
    refine ⟨1, [s], ?_, ?_, ?_⟩
    · rw [splitString, splitStringLoop, find_eq_none hnot]
      rfl
    · intro piece hpiece
      rw [List.mem_singleton.1 hpiece]
      exact hnot
    · rw [joinVector_eq_intercalate, List.intercalate_singleton]

/-! ## Both -/

/-- **A split with a string is undone by joining exactly if the text does not hold the string, and a
split with a character exactly if the text does not end with it.** -/
theorem splitsBack_iff (s delimiter : List α) (ch : α) :
    (SplitsBack (splitString s delimiter) s delimiter ↔ ¬ delimiter <:+: s) ∧
      (SplitsBack (splitStringAtChar s ch) s [ch] ↔ s.getLast? ≠ some ch) :=
  ⟨splitsBack_string_iff s delimiter, splitsBack_char_iff s ch⟩

/-- The loop goes on where the delimiter stands, and the piece behind a comma at the end is lost. -/
theorem not_splitsBack_of_delimiter :
    ¬ SplitsBack (splitString (TextWriter.ascii "a, b") (TextWriter.ascii ", "))
        (TextWriter.ascii "a, b") (TextWriter.ascii ", ") ∧
      ¬ SplitsBack (splitStringAtChar (TextWriter.ascii "a,") 0x2C) (TextWriter.ascii "a,") [0x2C] := by
  constructor
  · rw [splitsBack_string_iff, not_not]
    exact ⟨TextWriter.ascii "a", TextWriter.ascii "b", by decide⟩
  · rw [splitsBack_char_iff, not_not]
    rfl

end Utils

end Flashpoint
