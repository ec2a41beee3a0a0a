import Flashpoint.Scanner.Strings
import Flashpoint.Scanner.Trivia

/-!
# Tokens before a comma or a bracket

A token that a text ends with is the same token when a comma or a closing bracket follows the text, and
no other (`tokenAt_append_iff`): a name or a number does not go on there, and a string does not look at
what follows it.
-/

namespace Flashpoint

namespace GraphQlScanner

/-- What may follow an element of a list. -/
def Delimits (rest : Ustring) : Prop := ∀ ch ∈ rest.head?, ch = ',' ∨ ch = ']'

theorem delimits_nil : Delimits [] := fun _ h => by cases h

theorem Delimits.head_ne {rest : Ustring} (h : Delimits rest) {ch : Char} (hcomma : ch ≠ ',')
    (hbracket : ch ≠ ']') : rest.head? ≠ some ch := by
  intro hhead
  rcases h ch hhead with rfl | rfl
  · exact hcomma rfl
  · exact hbracket rfl

section Delimits

variable {rest : Ustring} (hrest : Delimits rest)

include hrest

/-! ## Names and numbers -/

theorem takeWhile_append_delimits {p : Char → Bool} (hcomma : p ',' = false)
    (hbracket : p ']' = false) (text : Ustring) :
    (text ++ rest).takeWhile p = text.takeWhile p := by
  induction text with
  | nil =>
    cases rest with
    | nil => rfl
    | cons ch rest =>
      have hstop : p ch = false := by
        rcases hrest ch rfl with rfl | rfl
        · exact hcomma
        · exact hbracket
      simp [hstop]
  | cons ch text ih =>
    rw [List.cons_append, List.takeWhile_cons, List.takeWhile_cons, ih]

/-- To a test that a comma, a bracket and the terminator answer alike, the first character is that of
the text. -/
theorem apply_firstChar_append {α : Type} {f : Char → α} (hcomma : f ',' = f '\x00')
    (hbracket : f ']' = f '\x00') (text : Ustring) :
    f (firstChar (text ++ rest)) = f (firstChar text) := by
  cases text with
  | cons ch text => rfl
  | nil =>
    cases rest with
    | nil => rfl
    | cons ch rest =>
      rcases hrest ch rfl with rfl | rfl
      · exact hcomma
      · exact hbracket

theorem firstChar_append_eq_iff (ch : Char) (hcomma : ch ≠ ',') (hbracket : ch ≠ ']')
    (hend : ch ≠ '\x00') (text : Ustring) : firstChar (text ++ rest) = ch ↔ firstChar text = ch := by
  have hsame := apply_firstChar_append hrest (f := fun c => decide (c = ch))
    (by simp [hcomma.symm, hend.symm]) (by simp [hbracket.symm, hend.symm]) text
  simpa using hsame

theorem isDigit_firstChar_append (text : Ustring) :
    isDigit (firstChar (text ++ rest)) = isDigit (firstChar text) :=
  apply_firstChar_append hrest rfl rfl text

theorem digits_append (text : Ustring) : digits (text ++ rest) = digits text := by
  rw [digits, takeWhile_append_delimits hrest rfl rfl, digits]

theorem exponentAt_append (text : Ustring) : exponentAt (text ++ rest) = exponentAt text := by
  have hminus := firstChar_append_eq_iff hrest '-' (by decide) (by decide) (by decide) text
  have hplus := firstChar_append_eq_iff hrest '+' (by decide) (by decide) (by decide) text
  simp only [exponentAt, hminus, hplus]
  have hsign : (if firstChar text = '-' ∨ firstChar text = '+' then 1 else 0) ≤ text.length := by
    split
    · next hsign =>
      refine lt_length_of_firstChar (k := 0) fun hend => ?_
      rw [List.drop_zero] at hend
      rw [hend] at hsign
      exact absurd hsign (by decide)
    · exact Nat.zero_le _
  rw [List.drop_append_of_le_length hsign, isDigit_firstChar_append hrest, digits_append hrest]

theorem numberAt_append (text : Ustring) : numberAt (text ++ rest) = numberAt text := by
  have hlength : integerLength (text ++ rest) = integerLength text := by
    have hzero := firstChar_append_eq_iff hrest '0' (by decide) (by decide) (by decide) text
    simp only [integerLength, hzero, digits_append hrest]
  have hle := integerLength_le text
  simp only [numberAt, hlength]
  generalize integerLength text = n at hle ⊢
  have hdrop : ∀ {k}, k ≤ text.length → (text ++ rest).drop k = text.drop k ++ rest :=
    fun hk => List.drop_append_of_le_length hk
  have hsame : ∀ ch : Char, ch ≠ ',' → ch ≠ ']' → ch ≠ '\x00' → ∀ k ≤ text.length,
      (firstChar ((text ++ rest).drop k) = ch ↔ firstChar (text.drop k) = ch) := by
    intro ch hcomma hbracket hend k hk
    rw [hdrop hk]
    exact firstChar_append_eq_iff hrest ch hcomma hbracket hend _
  have hexponent : ∀ k ≤ text.length,
      exponentAt ((text ++ rest).drop k) = exponentAt (text.drop k) := by
    intro k hk
    rw [hdrop hk, exponentAt_append hrest]
  -- an exponent mark or a dot is a character of the text, so that what follows it is its rest
  have hmark : ∀ {k}, firstChar (text.drop k) ≠ '\x00' → k + 1 ≤ text.length :=
    fun h => lt_length_of_firstChar h
  by_cases hdot : firstChar (text.drop n) = '.'
  · have hpast : n + 1 ≤ text.length := hmark (by rw [hdot]; decide)
    rw [if_pos hdot, if_pos ((hsame '.' (by decide) (by decide) (by decide) n hle).2 hdot), hdrop hpast,
      isDigit_firstChar_append hrest, digits_append hrest]
    have hm : n + 1 + digits (text.drop (n + 1)) ≤ text.length := by
      have hdigits := digits_le text (n + 1)
      omega
    generalize n + 1 + digits (text.drop (n + 1)) = m at hm ⊢
    simp only [ne_eq, hsame 'e' (by decide) (by decide) (by decide) m hm,
      hsame 'E' (by decide) (by decide) (by decide) m hm]
    by_cases hplain : ¬ firstChar (text.drop m) = 'e' ∧ ¬ firstChar (text.drop m) = 'E'
    · rw [if_pos hplain, if_pos hplain]
    · have hpast : m + 1 ≤ text.length := by
        refine hmark fun hend => hplain ?_
        rw [hend]
        decide
      rw [if_neg hplain, if_neg hplain, hexponent _ hpast]
  · rw [if_neg hdot, if_neg ((hsame '.' (by decide) (by decide) (by decide) n hle).not.2 hdot)]
    simp only [hsame 'e' (by decide) (by decide) (by decide) n hle,
      hsame 'E' (by decide) (by decide) (by decide) n hle]
    by_cases hexp : firstChar (text.drop n) = 'e' ∨ firstChar (text.drop n) = 'E'
    · have hpast : n + 1 ≤ text.length := by
        refine hmark fun hend => ?_
        rw [hend] at hexp
        exact absurd hexp (by decide)
      rw [if_pos hexp, if_pos hexp, hexponent _ hpast]
    · rw [if_neg hexp, if_neg hexp]

theorem nameAt_append (treatKeywordAsName : Bool) (text : Ustring) :
    nameAt treatKeywordAsName (text ++ rest) = nameAt treatKeywordAsName text := by
  rw [nameAt, nameAt, takeWhile_append_delimits hrest rfl rfl]

theorem ellipsesAt_append (text : Ustring) : ellipsesAt (text ++ rest) = ellipsesAt text := by
  have hdot := firstChar_append_eq_iff hrest '.' (by decide) (by decide) (by decide)
  cases text with
  | nil =>
    have hfirst : firstChar ([] ++ rest) ≠ '.' := (hdot []).not.2 (by decide)
    rw [ellipsesAt, if_pos hfirst]
    rfl
  | cons ch text =>
    simp only [ellipsesAt, ne_eq, hdot, List.cons_append, List.drop_one, List.tail_cons]
    rfl

theorem take_two_append (text : Ustring) :
    (text ++ rest).take 2 = ['"', '"'] ↔ text.take 2 = ['"', '"'] := by
  have hquote := firstChar_append_eq_iff hrest '"' (by decide) (by decide) (by decide)
  rw [take_two_eq_iff, take_two_eq_iff, hquote]
  refine and_congr_right fun hfirst => ?_
  have hlong : 1 ≤ text.length := by
    refine lt_length_of_firstChar (k := 0) ?_
    rw [List.drop_zero, hfirst]
    decide
  rw [List.drop_append_of_le_length hlong, hquote]

end Delimits

/-! ## Strings -/

theorem map_add_congr {α : Type} {x y : Option (α × Nat)} {token : α} {k n : Nat}
    (h : ∀ m, n = k + m → (x = some (token, m) ↔ y = some (token, m))) :
    x.map (Prod.map id (· + k)) = some (token, n) ↔ y.map (Prod.map id (· + k)) = some (token, n) := by
  constructor
  · intro hx
    obtain ⟨m, rfl, hm⟩ := exists_of_map_add hx
    rw [(h m rfl).1 hm, Nat.add_comm]
    rfl
  · intro hy
    obtain ⟨m, rfl, hm⟩ := exists_of_map_add hy
    rw [(h m rfl).2 hm, Nat.add_comm]
    rfl

theorem literalAt_pos {state : LiteralState} {isTruncated : Bool} {text : Ustring}
    {token : GraphQlToken} {n : Nat} (h : literalAt state isTruncated text = some (token, n)) :
    1 ≤ n := by
  have hlater : ∀ {x : Option (GraphQlToken × Nat)},
      x.map (Prod.map id (· + 1)) = some (token, n) → 1 ≤ n := by
    intro x hx
    obtain ⟨m, rfl, -⟩ := exists_of_map_add hx
    exact Nat.le_add_right 1 m
  have hplain : ∀ ch text, literalAt .plain isTruncated (ch :: text) = some (token, n) → 1 ≤ n := by
    intro ch text h
    rw [literalAt_plain_cons] at h
    split at h
    · exact hlater h
    split at h
    · cases h
      exact Nat.le_refl 1
    · exact hlater h
  cases text with
  | nil => cases state <;> cases h
  | cons ch text =>
    cases state with
    | plain => exact hplain ch text h
    | escape => exact hlater h
    | hexadecimal digits =>
      cases digits with
      | zero =>
        rw [literalAt_zero] at h
        exact hplain ch text h
      | succ digits =>
        rw [literalAt] at h
        split at h
        · exact hlater h
        · cases h
          exact Nat.le_refl 1

/-- A literal that ends inside of a text ends there whatever follows the text. -/
theorem literalAt_append_iff {state : LiteralState} {isTruncated : Bool} {text : Ustring}
    (rest : Ustring) {token : GraphQlToken} {n : Nat} (hle : n ≤ text.length) :
    literalAt state isTruncated (text ++ rest) = some (token, n) ↔
      literalAt state isTruncated text = some (token, n) := by
  induction text generalizing state isTruncated n with
  | nil =>
    have hzero : n = 0 := Nat.le_zero.1 hle
    constructor
    · intro h
      have hpos := literalAt_pos h
      omega
    · intro h
      have hpos := literalAt_pos h
      omega
  | cons ch text ih =>
    have hplain : literalAt .plain isTruncated (ch :: (text ++ rest)) = some (token, n) ↔
        literalAt .plain isTruncated (ch :: text) = some (token, n) := by
      rw [literalAt_plain_cons, literalAt_plain_cons]
      split
      · exact map_add_congr fun m hm => ih (by rw [List.length_cons] at hle; omega)
      split
      · exact Iff.rfl
      · exact map_add_congr fun m hm => ih (by rw [List.length_cons] at hle; omega)
    rw [List.cons_append]
    cases state with
    | plain => exact hplain
    | escape => exact map_add_congr fun m hm => ih (by rw [List.length_cons] at hle; omega)
    | hexadecimal digits =>
      cases digits with
      | zero =>
        rw [literalAt_zero, literalAt_zero]
        exact hplain
      | succ digits =>
        rw [literalAt, literalAt]
        split
        · exact map_add_congr fun m hm => ih (by rw [List.length_cons] at hle; omega)
        · exact Iff.rfl

theorem blockAt_three {text : Ustring} {n : Nat} (h : blockAt text = some (.gStringValue, n)) :
    3 ≤ n := by
  obtain ⟨body, rest, -, rfl, -⟩ := first_of_blockAt h
  exact Nat.le_add_left 3 _

/-- A block string that ends inside of a text ends there whatever follows the text. -/
theorem blockAt_append_iff {text : Ustring} (rest : Ustring) {n : Nat} (hle : n ≤ text.length) :
    blockAt (text ++ rest) = some (.gStringValue, n) ↔ blockAt text = some (.gStringValue, n) := by
  induction text generalizing n with
  | nil =>
    have hzero : n = 0 := Nat.le_zero.1 hle
    constructor
    · intro h
      have hthree := blockAt_three h
      omega
    · intro h
      cases h
  | cons ch text ih =>
    rw [List.length_cons] at hle
    have hlater : (blockAt (text ++ rest)).map (Prod.map id (· + 1)) = some (.gStringValue, n) ↔
        (blockAt text).map (Prod.map id (· + 1)) = some (.gStringValue, n) :=
      map_add_congr fun m hm => ih (by omega)
    by_cases hnear : text.length < 2
    · -- there is no room for three quotes
      constructor
      · intro h
        have hthree := blockAt_three h
        omega
      · intro h
        have hthree := blockAt_three h
        omega
    · have hfar : ¬ (text ++ rest).length < 2 := by
        rw [List.length_append]
        omega
      have htake : (text ++ rest).take 2 = text.take 2 :=
        List.take_append_of_le_length (by omega)
      rw [List.cons_append, blockAt, blockAt]
      simp only [hfar, hnear, and_false, if_false, htake]
      split
      · exact Iff.rfl
      · exact hlater

/-! ## Tokens -/

section Delimits

variable {rest : Ustring} (hrest : Delimits rest)

include hrest

theorem stringAt_append_iff {text : Ustring} {token : GraphQlToken} {n : Nat}
    (hknown : token ≠ .unknown) (hle : n ≤ text.length) :
    stringAt (text ++ rest) = some (token, n) ↔ stringAt text = some (token, n) := by
  unfold stringAt
  by_cases hblock : text.take 2 = ['"', '"']
  · have hlong : 2 ≤ text.length := by
      have hlength := congrArg List.length hblock
      rw [List.length_take] at hlength
      simp only [List.length_cons, List.length_nil] at hlength
      omega
    rw [if_pos hblock, if_pos ((take_two_append hrest text).2 hblock),
      List.drop_append_of_le_length hlong]
    refine map_add_congr fun m hm => ?_
    have hinside : m ≤ (text.drop 2).length := by
      rw [List.length_drop]
      omega
    constructor
    · intro h
      obtain rfl := (blockAt_token h).resolve_right hknown
      exact (blockAt_append_iff rest hinside).1 h
    · intro h
      obtain rfl := (blockAt_token h).resolve_right hknown
      exact (blockAt_append_iff rest hinside).2 h
  · rw [if_neg hblock, if_neg ((take_two_append hrest text).not.2 hblock)]
    exact literalAt_append_iff rest hle

/-- A token inside of a text is the same whether a comma or a bracket follows the text or nothing. -/
theorem tokenAt_append_iff {treatKeywordAsName : Bool} {ch : Char} {text : Ustring}
    {token : GraphQlToken} {n : Nat} (hknown : token ≠ .unknown) (hle : n ≤ (ch :: text).length) :
    tokenAt treatKeywordAsName (ch :: text ++ rest) = some (token, n) ↔
      tokenAt treatKeywordAsName (ch :: text) = some (token, n) := by
  rw [List.length_cons] at hle
  rw [List.cons_append, tokenAt, tokenAt]
  split
  · exact Iff.rfl
  split
  · exact Iff.rfl
  split
  · exact map_add_congr fun m hm => stringAt_append_iff hrest hknown (by omega)
  split
  · rw [ellipsesAt_append hrest]
  split
  · rw [numberAt_append hrest]
  split
  · rw [← List.cons_append, nameAt_append hrest]
  · exact Iff.rfl

end Delimits

end GraphQlScanner

end Flashpoint
