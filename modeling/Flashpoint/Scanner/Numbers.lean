import Flashpoint.Scanner.Loops
import Flashpoint.Scanner.Text
import Mathlib.Data.List.TakeWhile

/-!
# Numbers

The lexical grammar of numbers, and what the scanner makes of a text that starts with a minus sign or
a digit. The two agree unless the digits are cut: the scanner has passed the first character when it
looks for a zero that stands alone, so it takes the second digit for the first one.
-/

namespace Flashpoint

namespace GraphQlScanner

/-! ## The grammar -/

/-- The longest of the words of a language that a text starts with. -/
structure Longest (P : Ustring → Prop) (word text : Ustring) : Prop where
  mem : P word
  starts : word <+: text
  longest : ∀ other, P other → other <+: text → other.length ≤ word.length

/-- `[0-9]+` -/
def IsDigits (word : Ustring) : Prop := word ≠ [] ∧ ∀ ch ∈ word, isDigit ch = true

/-- `0|[1-9][0-9]*` -/
inductive IsNatural : Ustring → Prop where
  | zero : IsNatural ['0']
  | digits {ch : Char} {word : Ustring} (hfirst : isDigit ch = true) (hne : ch ≠ '0')
      (h : ∀ ch ∈ word, isDigit ch = true) : IsNatural (ch :: word)

/-- `-?(0|[1-9][0-9]*)` -/
inductive IsInteger : Ustring → Prop where
  | natural {word : Ustring} (h : IsNatural word) : IsInteger word
  | negative {word : Ustring} (h : IsNatural word) : IsInteger ('-' :: word)

/-- `\.[0-9]+` -/
inductive IsFraction : Ustring → Prop where
  | mk {word : Ustring} (h : IsDigits word) : IsFraction ('.' :: word)

/-- `[eE][+-]?[0-9]+` -/
inductive IsExponent : Ustring → Prop where
  | plain {e : Char} {word : Ustring} (he : e = 'e' ∨ e = 'E') (h : IsDigits word) :
      IsExponent (e :: word)
  | signed {e sign : Char} {word : Ustring} (he : e = 'e' ∨ e = 'E')
      (hsign : sign = '-' ∨ sign = '+') (h : IsDigits word) : IsExponent (e :: sign :: word)

/-- What follows the integer part of a float: a fraction, an exponent, or both. -/
inductive IsFloatTail : Ustring → Prop where
  | fraction {word : Ustring} (h : IsFraction word) : IsFloatTail word
  | exponent {word : Ustring} (h : IsExponent word) : IsFloatTail word
  | both {word word' : Ustring} (h : IsFraction word) (h' : IsExponent word') :
      IsFloatTail (word ++ word')

inductive IsFloat : Ustring → Prop where
  | mk {word tail : Ustring} (h : IsInteger word) (htail : IsFloatTail tail) : IsFloat (word ++ tail)

/-- Where the exponent of a number starts. -/
def isExponentMark (ch : Char) : Bool := ch = 'e' || ch = 'E'

/-- The number a text starts with. An integer is followed by no digit, and neither by a dot nor by the
mark of an exponent; a float without an exponent is not followed by the mark of one. -/
inductive IsNumber (text : Ustring) : GraphQlToken → Ustring → Prop where
  | integer {word : Ustring} (h : Longest IsInteger word text)
      (hdigit : isDigit (firstChar (text.drop word.length)) = false)
      (hdot : firstChar (text.drop word.length) ≠ '.')
      (hmark : isExponentMark (firstChar (text.drop word.length)) = false) :
      IsNumber text .integerLiteral word
  | float {word : Ustring} (h : Longest IsFloat word text)
      (hmark : isExponentMark (firstChar (text.drop word.length)) = true →
        word.any isExponentMark = true) : IsNumber text .floatLiteral word

/-! ## Digits -/

theorem isDigit_minus : isDigit '-' = false := by decide

theorem digits_pos {text : Ustring} (h : isDigit (firstChar text) = true) : 0 < digits text := by
  cases text with
  | nil => exact absurd h (by decide)
  | cons ch text =>
    simp only [firstChar, List.headD_cons] at h
    simp [digits, h]

theorem digits_eq_zero {text : Ustring} (h : isDigit (firstChar text) = false) :
    digits text = 0 := by
  cases text with
  | nil => rfl
  | cons ch text =>
    simp only [firstChar, List.headD_cons] at h
    simp [digits, h]

theorem isDigit_of_mem_take {text : Ustring} {ch : Char} (h : ch ∈ text.take (digits text)) :
    isDigit ch = true := by
  rw [digits, ← List.prefix_iff_eq_take.1 (List.takeWhile_prefix isDigit)] at h
  exact List.mem_takeWhile_imp h

/-- No digit follows the digits. -/
theorem isDigit_after_digits (text : Ustring) :
    isDigit (firstChar (text.drop (digits text))) = false := by
  induction text with
  | nil => decide
  | cons ch text ih =>
    by_cases hdigit : isDigit ch = true
    · simp only [digits, List.takeWhile_cons, hdigit, if_true, List.length_cons,
        List.drop_succ_cons]
      exact ih
    · simp only [digits, List.takeWhile_cons, hdigit, Bool.false_eq_true, if_false, List.length_nil,
        List.drop_zero, firstChar, List.headD_cons]

/-- Digits that a text starts with are some of its digits, and a digit follows when they are not
all. -/
theorem digits_of_startsWith {word text : Ustring} (h : ∀ ch ∈ word, isDigit ch = true)
    (hstart : word <+: text) : word.length = digits text ∨
      word.length < digits text ∧ isDigit (firstChar (text.drop word.length)) = true := by
  induction word generalizing text with
  | nil =>
    by_cases hdigit : isDigit (firstChar text) = true
    · exact .inr ⟨digits_pos hdigit, hdigit⟩
    · exact .inl (digits_eq_zero (Bool.of_not_eq_true hdigit)).symm
  | cons ch word ih =>
    obtain ⟨rest, rfl⟩ := hstart
    have hfirst : isDigit ch = true := h ch List.mem_cons_self
    have hrest := ih (fun c hc => h c (List.mem_cons_of_mem ch hc)) (List.prefix_append word rest)
    simp only [List.cons_append, digits, List.takeWhile_cons, hfirst, if_true, List.length_cons,
      List.drop_succ_cons, Nat.add_right_cancel_iff, Nat.add_lt_add_iff_right] at hrest ⊢
    exact hrest

theorem isDigits_take {text : Ustring} (h : isDigit (firstChar text) = true) :
    IsDigits (text.take (digits text)) := by
  refine ⟨?_, fun ch => isDigit_of_mem_take⟩
  intro hnil
  have hlength := congrArg List.length hnil
  have hle := digits_le text 0
  rw [List.drop_zero] at hle
  rw [List.length_take, List.length_nil] at hlength
  have hpos := digits_pos h
  omega

theorem firstChar_of_startsWith {ch : Char} {word text : Ustring} (h : ch :: word <+: text) :
    firstChar text = ch ∧ word <+: text.drop 1 := by
  obtain ⟨rest, rfl⟩ := h
  exact ⟨rfl, List.prefix_append word rest⟩

/-! ## Integers -/

/-- The length of the natural number a text starts with. -/
def naturalAt (text : Ustring) : Option Nat :=
  if isDigit (firstChar text) then some (integerLength text) else none

/-- The length of the integer a text starts with. -/
def integerAt (text : Ustring) : Option Nat :=
  if firstChar text = '-' then (naturalAt (text.drop 1)).map (1 + ·) else naturalAt text

/-- A word that a text starts with is as long as it can be, or a digit follows it. -/
def IsUpTo (n : Nat) (word text : Ustring) : Prop :=
  word.length = n ∨ word.length < n ∧ isDigit (firstChar (text.drop word.length)) = true

theorem IsUpTo.le {n : Nat} {word text : Ustring} (h : IsUpTo n word text) : word.length ≤ n := by
  rcases h with heq | ⟨hlt, -⟩
  · exact Nat.le_of_eq heq
  · exact Nat.le_of_lt hlt

theorem naturalAt_of_startsWith {word text : Ustring} (h : IsNatural word) (hstart : word <+: text) :
    ∃ n, naturalAt text = some n ∧ IsUpTo n word text := by
  cases h with
  | zero =>
    obtain ⟨hfirst, -⟩ := firstChar_of_startsWith hstart
    refine ⟨1, ?_, .inl rfl⟩
    simp [naturalAt, integerLength, hfirst, isDigit]
  | digits hdigit hne hword =>
    obtain ⟨hfirst, -⟩ := firstChar_of_startsWith hstart
    refine ⟨digits text, ?_, digits_of_startsWith ?_ hstart⟩
    · simp [naturalAt, integerLength, hfirst, hdigit, hne]
    · intro c hc
      rcases List.mem_cons.1 hc with rfl | hc
      · exact hdigit
      · exact hword c hc

theorem isNatural_take {text : Ustring} {n : Nat} (h : naturalAt text = some n) :
    IsNatural (text.take n) ∧ n ≤ text.length := by
  unfold naturalAt at h
  split at h
  · next hdigit =>
    cases h
    refine ⟨?_, integerLength_le text⟩
    cases text with
    | nil => exact absurd hdigit (by decide)
    | cons ch text =>
      simp only [firstChar, List.headD_cons] at hdigit
      by_cases hzero : ch = '0'
      · subst hzero
        exact .zero
      · have hlength : integerLength (ch :: text) = digits text + 1 := by
          simp [integerLength, firstChar, hzero, digits, hdigit]
        rw [hlength, List.take_succ_cons]
        exact .digits hdigit hzero fun c => isDigit_of_mem_take
  · cases h

theorem integerAt_of_startsWith {word text : Ustring} (h : IsInteger word) (hstart : word <+: text) :
    ∃ n, integerAt text = some n ∧ IsUpTo n word text := by
  cases h with
  | natural h =>
    obtain ⟨n, hn, hupTo⟩ := naturalAt_of_startsWith h hstart
    have hsign : firstChar text ≠ '-' := by
      intro hsign
      rw [naturalAt, hsign, isDigit_minus] at hn
      cases hn
    exact ⟨n, by rw [integerAt, if_neg hsign, hn], hupTo⟩
  | negative h =>
    obtain ⟨hfirst, hrest⟩ := firstChar_of_startsWith hstart
    obtain ⟨n, hn, hupTo⟩ := naturalAt_of_startsWith h hrest
    refine ⟨1 + n, by rw [integerAt, if_pos hfirst, hn]; rfl, ?_⟩
    rw [IsUpTo, List.length_cons, Nat.add_comm]
    rw [IsUpTo, List.drop_drop] at hupTo
    rcases hupTo with heq | ⟨hlt, hdigit⟩
    · exact .inl (by omega)
    · exact .inr ⟨by omega, hdigit⟩

theorem isInteger_take {text : Ustring} {n : Nat} (h : integerAt text = some n) :
    IsInteger (text.take n) ∧ n ≤ text.length := by
  unfold integerAt at h
  split at h
  · next hsign =>
    obtain ⟨m, hm, rfl⟩ := Option.map_eq_some_iff.1 h
    obtain ⟨hnatural, hle⟩ := isNatural_take hm
    cases text with
    | nil => exact absurd hsign (by decide)
    | cons ch text =>
      simp only [firstChar, List.headD_cons] at hsign
      subst hsign
      rw [Nat.add_comm, List.take_succ_cons]
      exact ⟨.negative hnatural, Nat.succ_le_succ hle⟩
  · exact ⟨.natural (isNatural_take h).1, (isNatural_take h).2⟩

theorem isMarked_of_isInteger {word : Ustring} (h : IsInteger word) :
    word.any isExponentMark = false := by
  have hmark : ∀ ch, isDigit ch = true → isExponentMark ch = false := by
    intro ch hdigit
    simp only [isExponentMark, Bool.or_eq_false_iff, decide_eq_false_iff_not]
    constructor <;> rintro rfl <;> exact absurd hdigit (by decide)
  have hnatural : ∀ {word}, IsNatural word → word.any isExponentMark = false := by
    intro word h
    cases h with
    | zero => decide
    | digits hfirst hne hword =>
      rw [List.any_eq_false]
      intro c hc
      rcases List.mem_cons.1 hc with rfl | hc
      · simp [hmark _ hfirst]
      · simp [hmark _ (hword c hc)]
  cases h with
  | natural h => exact hnatural h
  | negative h =>
    rw [List.any_cons, hnatural h]
    decide

/-! ## Fractions and exponents -/

/-- What follows the integer part of a number: nothing, a fraction or an exponent, or the start of one
that has no digits. -/
def tailAt (text : Ustring) : GraphQlToken × Nat :=
  if firstChar text = '.' then
    if isDigit (firstChar (text.drop 1)) = false then (.unknown, 1)
    else
      let n := 1 + digits (text.drop 1)
      if isExponentMark (firstChar (text.drop n)) = false then (.floatLiteral, n)
      else
        let (token, k) := exponentAt (text.drop (n + 1))
        (token, n + 1 + k)
  else if isExponentMark (firstChar text) then
    let (token, k) := exponentAt (text.drop 1)
    (token, 1 + k)
  else (.integerLiteral, 0)

theorem isExponentMark_iff {ch : Char} : isExponentMark ch = true ↔ ch = 'e' ∨ ch = 'E' := by
  simp [isExponentMark]

theorem isDigit_of_isExponentMark {ch : Char} (h : isExponentMark ch = true) :
    isDigit ch = false := by
  rcases isExponentMark_iff.1 h with rfl | rfl <;> decide

theorem numberAt_eq (text : Ustring) : numberAt text =
    ((tailAt (text.drop (integerLength text))).1,
      integerLength text + (tailAt (text.drop (integerLength text))).2) := by
  simp only [numberAt, tailAt, List.drop_drop]
  generalize integerLength text = n
  by_cases hdot : firstChar (text.drop n) = '.'
  · rw [if_pos hdot, if_pos hdot]
    split
    · rfl
    · simp only [isExponentMark, Bool.or_eq_false_iff, decide_eq_false_iff_not, Nat.add_assoc]
      split
      · rfl
      · rfl
  · rw [if_neg hdot, if_neg hdot]
    simp only [isExponentMark_iff]
    split
    · rw [Nat.add_assoc]
    · rfl

theorem isExponent_take {text : Ustring} {k : Nat} (hmark : isExponentMark (firstChar text) = true)
    (h : exponentAt (text.drop 1) = (.floatLiteral, k)) :
    IsExponent (text.take (1 + k)) ∧ 1 + k ≤ text.length := by
  cases text with
  | nil => exact absurd hmark (by decide)
  | cons e text =>
    have he := isExponentMark_iff.1 hmark
    rw [List.drop_one, List.tail_cons] at h
    have hle := exponentAt_le (Nat.zero_le text.length)
    rw [List.drop_zero, h, Nat.zero_add] at hle
    rw [Nat.add_comm, List.take_succ_cons]
    refine ⟨?_, Nat.succ_le_succ hle⟩
    unfold exponentAt at h
    by_cases hsign : firstChar text = '-' ∨ firstChar text = '+'
    · simp only [hsign, if_true] at h
      split at h
      · cases h
      · next hdigit =>
        cases h
        cases text with
        | nil => exact absurd hsign (by decide)
        | cons sign text =>
          rw [Nat.add_comm, List.take_succ_cons]
          exact .signed he hsign (isDigits_take (Bool.of_not_eq_false hdigit))
    · simp only [hsign, if_false, List.drop_zero] at h
      split at h
      · cases h
      · next hdigit =>
        cases h
        rw [Nat.zero_add]
        exact .plain he (isDigits_take (Bool.of_not_eq_false hdigit))

/-- The exponent that a text starts with has the mark, and is no longer than what is read of it. -/
theorem exponentAt_of_startsWith {word text : Ustring} (h : IsExponent word) (hstart : word <+: text) :
    isExponentMark (firstChar text) = true ∧
      ∃ k, exponentAt (text.drop 1) = (.floatLiteral, k) ∧ word.length ≤ 1 + k := by
  have hdigits : ∀ {word text : Ustring}, IsDigits word → word <+: text →
      isDigit (firstChar text) = true ∧ word.length ≤ digits text := by
    intro word text hword hstart
    constructor
    · cases word with
      | nil => exact absurd rfl hword.1
      | cons ch word =>
        rw [(firstChar_of_startsWith hstart).1]
        exact hword.2 ch List.mem_cons_self
    · rcases digits_of_startsWith hword.2 hstart with heq | ⟨hlt, -⟩
      · exact Nat.le_of_eq heq
      · exact Nat.le_of_lt hlt
  cases h with
  | plain he hword =>
    obtain ⟨hfirst, hrest⟩ := firstChar_of_startsWith hstart
    obtain ⟨hdigit, hle⟩ := hdigits hword hrest
    refine ⟨by rw [hfirst]; exact isExponentMark_iff.2 he, digits (text.drop 1), ?_, ?_⟩
    · have hsign : ¬ (firstChar (text.drop 1) = '-' ∨ firstChar (text.drop 1) = '+') := by
        rintro (hminus | hplus)
        · rw [hminus] at hdigit
          exact absurd hdigit (by decide)
        · rw [hplus] at hdigit
          exact absurd hdigit (by decide)
      simp only [exponentAt, hsign, if_false, List.drop_zero, hdigit, Bool.true_eq_false,
        Nat.zero_add]
    · rw [List.length_cons]
      omega
  | signed he hsign hword =>
    obtain ⟨hfirst, hrest⟩ := firstChar_of_startsWith hstart
    obtain ⟨hsecond, hrest⟩ := firstChar_of_startsWith hrest
    obtain ⟨hdigit, hle⟩ := hdigits hword hrest
    refine ⟨by rw [hfirst]; exact isExponentMark_iff.2 he, 1 + digits ((text.drop 1).drop 1), ?_, ?_⟩
    · simp only [exponentAt, hsecond, hsign, if_true, hdigit, Bool.true_eq_false, if_false]
    · rw [List.length_cons, List.length_cons]
      omega

/-- A fraction that a text starts with: all its digits, or some before another one. -/
theorem fraction_of_startsWith {word text : Ustring} (h : IsFraction word) (hstart : word <+: text) :
    firstChar text = '.' ∧ isDigit (firstChar (text.drop 1)) = true ∧
      IsUpTo (1 + digits (text.drop 1)) word text := by
  obtain ⟨hword⟩ := h
  next word =>
  obtain ⟨hfirst, hrest⟩ := firstChar_of_startsWith hstart
  refine ⟨hfirst, ?_, ?_⟩
  · cases word with
    | nil => exact absurd rfl hword.1
    | cons ch word =>
      rw [(firstChar_of_startsWith hrest).1]
      exact hword.2 ch List.mem_cons_self
  · have hupTo := digits_of_startsWith hword.2 hrest
    rw [IsUpTo, List.length_cons, Nat.add_comm word.length]
    rw [List.drop_drop] at hupTo
    rcases hupTo with heq | ⟨hlt, hdigit⟩
    · exact .inl (by omega)
    · exact .inr ⟨by omega, hdigit⟩

theorem isFraction_take {text : Ustring} (hdot : firstChar text = '.')
    (hdigit : isDigit (firstChar (text.drop 1)) = true) :
    IsFraction (text.take (1 + digits (text.drop 1))) := by
  cases text with
  | nil => exact absurd hdot (by decide)
  | cons ch text =>
    simp only [firstChar, List.headD_cons] at hdot
    subst hdot
    rw [Nat.add_comm, List.take_succ_cons]
    exact .mk (isDigits_take hdigit)

/-- The words that a text may start with after an integer. -/
inductive TailOf (text : Ustring) (word : Ustring) : Prop where
  | fraction (hdot : firstChar text = '.') (hdigit : isDigit (firstChar (text.drop 1)) = true)
      (hle : word.length ≤ 1 + digits (text.drop 1)) (hword : IsFraction word)
  | exponent (hmark : isExponentMark (firstChar text) = true) {k : Nat}
      (hexponent : exponentAt (text.drop 1) = (.floatLiteral, k)) (hle : word.length ≤ 1 + k)
  | both (hdot : firstChar text = '.') (hdigit : isDigit (firstChar (text.drop 1)) = true)
      (hmark : isExponentMark (firstChar (text.drop (1 + digits (text.drop 1)))) = true) {k : Nat}
      (hexponent : exponentAt (text.drop (1 + digits (text.drop 1) + 1)) = (.floatLiteral, k))
      (hle : word.length ≤ 1 + digits (text.drop 1) + 1 + k)

theorem tailOf_of_startsWith {word text : Ustring} (h : IsFloatTail word) (hstart : word <+: text) :
    TailOf text word := by
  cases h with
  | fraction h =>
    obtain ⟨hdot, hdigit, hupTo⟩ := fraction_of_startsWith h hstart
    exact .fraction hdot hdigit hupTo.le h
  | exponent h =>
    obtain ⟨hmark, k, hexponent, hle⟩ := exponentAt_of_startsWith h hstart
    exact .exponent hmark hexponent hle
  | both h h' =>
    next word word' =>
    obtain ⟨hdot, hdigit, hupTo⟩ :=
      fraction_of_startsWith h (List.IsPrefix.trans (List.prefix_append word word') hstart)
    have hrest : word' <+: text.drop word.length := by
      obtain ⟨rest, rfl⟩ := hstart
      rw [List.append_assoc, List.drop_left]
      exact List.prefix_append word' rest
    obtain ⟨hmark, k, hexponent, hle⟩ := exponentAt_of_startsWith h' hrest
    have hlength : word.length = 1 + digits (text.drop 1) := by
      rcases hupTo with heq | ⟨-, hnext⟩
      · exact heq
      · rw [isDigit_of_isExponentMark hmark] at hnext
        cases hnext
    rw [hlength] at hmark hexponent
    rw [List.drop_drop] at hexponent
    refine .both hdot hdigit hmark hexponent ?_
    rw [List.length_append, hlength]
    omega

/-- A float whose exponent has digits, if it has one. -/
structure FloatTail (text word : Ustring) : Prop extends Longest IsFloatTail word text where
  marked : isExponentMark (firstChar (text.drop word.length)) = true → word.any isExponentMark = true

theorem any_isExponentMark {word : Ustring} (h : IsExponent word) :
    word.any isExponentMark = true := by
  cases h with
  | plain he _ => rw [List.any_cons, isExponentMark_iff.2 he, Bool.true_or]
  | signed he _ _ => rw [List.any_cons, isExponentMark_iff.2 he, Bool.true_or]

theorem floatTail_of_tailAt {text : Ustring} {k : Nat} (h : tailAt text = (.floatLiteral, k)) :
    FloatTail text (text.take k) ∧ k ≤ text.length := by
  unfold tailAt at h
  by_cases hdot : firstChar text = '.'
  · have hnoMark : isExponentMark (firstChar text) = false := by rw [hdot]; decide
    rw [if_pos hdot] at h
    split at h
    · cases h
    next hdigit =>
    have hdigit : isDigit (firstChar (text.drop 1)) = true := Bool.of_not_eq_false hdigit
    have hfraction := isFraction_take hdot hdigit
    have hle : 1 + digits (text.drop 1) ≤ text.length := by
      have hdigits := digits_le text 1
      have hpos := digits_pos hdigit
      omega
    generalize hn : 1 + digits (text.drop 1) = n at h hfraction hle
    by_cases hmark : isExponentMark (firstChar (text.drop n)) = false
    · simp only [hmark, if_true, Prod.mk.injEq, true_and] at h
      subst h
      have hlength : (text.take n).length = n := List.length_take_of_le hle
      refine ⟨⟨⟨.fraction hfraction, List.take_prefix _ _, ?_⟩, ?_⟩, hle⟩
      · intro other hother hstart
        rw [hlength, ← hn]
        cases tailOf_of_startsWith hother hstart with
        | fraction _ _ hother => exact hother
        | exponent hother => rw [hnoMark] at hother; cases hother
        | both _ _ hother => rw [hn, hmark] at hother; cases hother
      · rw [hlength, hmark]
        intro hfalse
        cases hfalse
    · simp only [hmark] at h
      have hmark := Bool.of_not_eq_false hmark
      rcases hexponent : exponentAt (text.drop (n + 1)) with ⟨token, j⟩
      rw [hexponent] at h
      obtain ⟨rfl, rfl⟩ := Prod.mk.inj h
      obtain ⟨hword, hj⟩ := isExponent_take hmark (by rw [List.drop_drop]; exact hexponent)
      rw [List.length_drop] at hj
      rw [Nat.add_assoc, List.take_add]
      have hlength : (text.take n ++ (text.drop n).take (1 + j)).length = n + (1 + j) := by
        rw [← List.take_add]
        exact List.length_take_of_le (by omega)
      refine ⟨⟨⟨.both hfraction hword, ?_, ?_⟩, fun _ => ?_⟩, by omega⟩
      · rw [← List.take_add]
        exact List.take_prefix _ _
      · intro other hother hstart
        rw [hlength]
        cases tailOf_of_startsWith hother hstart with
        | fraction _ _ hother => omega
        | exponent hother => rw [hnoMark] at hother; cases hother
        | both _ _ _ hsame hother =>
          rw [hn] at hsame hother
          cases hexponent.symm.trans hsame
          omega
      · rw [List.any_append, any_isExponentMark hword, Bool.or_true]
  · rw [if_neg hdot] at h
    split at h
    · next hmark =>
      rcases hexponent : exponentAt (text.drop 1) with ⟨token, j⟩
      rw [hexponent] at h
      obtain ⟨rfl, rfl⟩ := Prod.mk.inj h
      obtain ⟨hword, hj⟩ := isExponent_take hmark hexponent
      refine ⟨⟨⟨.exponent hword, List.take_prefix _ _, ?_⟩, fun _ => any_isExponentMark hword⟩, hj⟩
      intro other hother hstart
      rw [List.length_take_of_le hj]
      cases tailOf_of_startsWith hother hstart with
      | fraction hother => exact absurd hother hdot
      | exponent _ hsame hother =>
        cases hexponent.symm.trans hsame
        exact hother
      | both hother => exact absurd hother hdot
    · cases h

theorem not_any_isExponentMark {word : Ustring} (h : IsFraction word) :
    word.any isExponentMark = false := by
  obtain ⟨hword⟩ := h
  rw [List.any_eq_false]
  intro ch hch
  rcases List.mem_cons.1 hch with rfl | hch
  · decide
  · intro hmark
    have hdigit := hword.2 ch hch
    rw [isDigit_of_isExponentMark hmark] at hdigit
    cases hdigit

theorem tailAt_of_floatTail {text word : Ustring} (h : FloatTail text word) :
    tailAt text = (.floatLiteral, word.length) := by
  -- a tail is read, and it is the longest one
  have hread : (tailAt text).1 = .floatLiteral → tailAt text = (.floatLiteral, word.length) := by
    intro htoken
    have hk : tailAt text = (.floatLiteral, (tailAt text).2) := Prod.ext htoken rfl
    obtain ⟨hlongest, hle⟩ := floatTail_of_tailAt hk
    have hthis := hlongest.longest word h.mem h.starts
    have hother := h.longest _ hlongest.mem hlongest.starts
    rw [List.length_take_of_le hle] at hthis hother
    exact Prod.ext htoken (Nat.le_antisymm hother hthis)
  cases tailOf_of_startsWith h.mem h.starts with
  | fraction hdot hdigit hle hword =>
    by_cases hmark : isExponentMark (firstChar (text.drop (1 + digits (text.drop 1)))) = false
    · apply hread
      simp only [tailAt, hdot, if_true, hdigit, Bool.true_eq_false, if_false, hmark]
    · -- all the digits are there, so the mark follows
      have hdigits := digits_le text 1
      have hpos := digits_pos hdigit
      have hall := h.longest _ (.fraction (isFraction_take hdot hdigit)) (List.take_prefix _ _)
      rw [List.length_take_of_le (by omega)] at hall
      have hlength : word.length = 1 + digits (text.drop 1) := Nat.le_antisymm hle hall
      have hmarked := h.marked (by rw [hlength]; exact Bool.of_not_eq_false hmark)
      rw [not_any_isExponentMark hword] at hmarked
      cases hmarked
  | exponent hmark hexponent hle =>
    have hdot : firstChar text ≠ '.' := by
      intro hdot
      rw [hdot] at hmark
      exact absurd hmark (by decide)
    apply hread
    simp only [tailAt, hdot, if_false, hmark, if_true, hexponent]
  | both hdot hdigit hmark hexponent hle =>
    apply hread
    simp only [tailAt, hdot, if_true, hdigit, Bool.true_eq_false, if_false, hmark, hexponent]

/-! ## Whole numbers -/

/-- The number a text starts with, and its length. -/
def numeralAt (text : Ustring) : Option (GraphQlToken × Nat) :=
  match integerAt text with
  | none => none
  | some n =>
    if isDigit (firstChar (text.drop n)) ∨ (tailAt (text.drop n)).1 = .unknown then none
    else some ((tailAt (text.drop n)).1, n + (tailAt (text.drop n)).2)

theorem exponentAt_cases (text : Ustring) :
    (exponentAt text).1 = .unknown ∨ (exponentAt text).1 = .floatLiteral := by
  simp only [exponentAt]
  generalize (if firstChar text = '-' ∨ firstChar text = '+' then 1 else 0) = sign
  split
  · exact .inl rfl
  · exact .inr rfl

theorem tailAt_eq_integer_iff {text : Ustring} : (tailAt text).1 = .integerLiteral ↔
    firstChar text ≠ '.' ∧ isExponentMark (firstChar text) = false := by
  have hexponent : ∀ text, (exponentAt text).1 ≠ .integerLiteral := by
    intro text h
    rcases exponentAt_cases text with hunknown | hfloat
    · cases hunknown.symm.trans h
    · cases hfloat.symm.trans h
  unfold tailAt
  by_cases hdot : firstChar text = '.'
  · rw [if_pos hdot]
    refine ⟨fun h => ?_, fun h => absurd hdot h.1⟩
    exfalso
    split at h
    · cases h
    simp only at h
    split at h
    · cases h
    · exact hexponent _ h
  · rw [if_neg hdot]
    by_cases hmark : isExponentMark (firstChar text) = true
    · rw [if_pos hmark]
      refine ⟨fun h => absurd h (hexponent _), fun h => ?_⟩
      rw [h.2] at hmark
      cases hmark
    · rw [if_neg hmark]
      exact ⟨fun _ => ⟨hdot, Bool.of_not_eq_true hmark⟩, fun _ => rfl⟩

theorem tailAt_of_integer {text : Ustring} (h : (tailAt text).1 = .integerLiteral) :
    tailAt text = (.integerLiteral, 0) := by
  obtain ⟨hdot, hmark⟩ := tailAt_eq_integer_iff.1 h
  simp only [tailAt, hdot, if_false, hmark, Bool.false_eq_true]

theorem tailAt_cases (text : Ustring) : (tailAt text).1 = .unknown ∨
    (tailAt text).1 = .integerLiteral ∨ (tailAt text).1 = .floatLiteral := by
  unfold tailAt
  split
  · split
    · exact .inl rfl
    simp only
    split
    · exact .inr (.inr rfl)
    · exact (exponentAt_cases _).imp id .inr
  split
  · exact (exponentAt_cases _).imp id .inr
  · exact .inr (.inl rfl)

/-- After a digit there is no fraction and no exponent. -/
theorem tailAt_of_isDigit {text : Ustring} (h : isDigit (firstChar text) = true) :
    (tailAt text).1 = .integerLiteral := by
  refine tailAt_eq_integer_iff.2 ⟨?_, ?_⟩
  · intro hdot
    rw [hdot] at h
    exact absurd h (by decide)
  · refine Bool.eq_false_iff.2 fun hmark => ?_
    rw [isDigit_of_isExponentMark hmark] at h
    cases h

theorem longest_isInteger_take {text : Ustring} {n : Nat} (h : integerAt text = some n) :
    Longest IsInteger (text.take n) text := by
  obtain ⟨hinteger, hle⟩ := isInteger_take h
  refine ⟨hinteger, List.take_prefix _ _, fun other hother hstart => ?_⟩
  obtain ⟨m, hm, hupTo⟩ := integerAt_of_startsWith hother hstart
  cases h.symm.trans hm
  rw [List.length_take_of_le hle]
  exact hupTo.le

/-- A float that a text starts with has the longest integer part. -/
theorem isFloat_of_startsWith {word text : Ustring} (h : IsFloat word) (hstart : word <+: text) :
    ∃ n tail, integerAt text = some n ∧ isDigit (firstChar (text.drop n)) = false ∧
      word = text.take n ++ tail ∧ IsFloatTail tail ∧ tail <+: text.drop n := by
  obtain ⟨hword, htail⟩ := h
  next word tail =>
  have hstarts : word <+: text := List.IsPrefix.trans (List.prefix_append word tail) hstart
  have hrest : tail <+: text.drop word.length := by
    obtain ⟨rest, rfl⟩ := hstart
    rw [List.append_assoc, List.drop_left]
    exact List.prefix_append tail rest
  obtain ⟨n, hn, hupTo⟩ := integerAt_of_startsWith hword hstarts
  have hnext : isDigit (firstChar (text.drop word.length)) = false := by
    cases tailOf_of_startsWith htail hrest with
    | fraction hdot => rw [hdot]; decide
    | exponent hmark => exact isDigit_of_isExponentMark hmark
    | both hdot => rw [hdot]; decide
  have hlength : word.length = n := by
    rcases hupTo with heq | ⟨-, hdigit⟩
    · exact heq
    · rw [hnext] at hdigit
      cases hdigit
  subst hlength
  exact ⟨word.length, tail, hn, hnext, by rw [← List.prefix_iff_eq_take.1 hstarts], htail, hrest⟩

theorem numeralAt_of_isNumber {text word : Ustring} {token : GraphQlToken}
    (h : IsNumber text token word) : numeralAt text = some (token, word.length) := by
  cases h with
  | integer h hdigit hdot hmark =>
    obtain ⟨n, hn, hupTo⟩ := integerAt_of_startsWith h.mem h.starts
    have hlength : word.length = n := by
      rcases hupTo with heq | ⟨-, hnext⟩
      · exact heq
      · rw [hdigit] at hnext
        cases hnext
    rw [hlength] at hdigit hdot hmark
    have htail := tailAt_of_integer (tailAt_eq_integer_iff.2 ⟨hdot, hmark⟩)
    simp [numeralAt, hn, hdigit, htail, hlength]
  | float h hmark =>
    obtain ⟨n, tail, hn, hdigit, hword, htail, hrest⟩ := isFloat_of_startsWith h.mem h.starts
    have hlength : word.length = n + tail.length := by
      rw [hword, List.length_append, List.length_take_of_le (isInteger_take hn).2]
    have hfloat : FloatTail (text.drop n) tail := by
      refine ⟨⟨htail, hrest, fun other hother hstart => ?_⟩, fun hfollows => ?_⟩
      · have hwhole : text.take n ++ other <+: text := by
          obtain ⟨rest, hrest⟩ := hstart
          exact ⟨rest, by rw [List.append_assoc, hrest, List.take_append_drop]⟩
        have hle := h.longest _ (.mk (isInteger_take hn).1 hother) hwhole
        rw [List.length_append, List.length_take_of_le (isInteger_take hn).2] at hle
        omega
      · rw [List.drop_drop, ← hlength] at hfollows
        have hany := hmark hfollows
        rw [hword, List.any_append, isMarked_of_isInteger (isInteger_take hn).1,
          Bool.false_or] at hany
        exact hany
    have hread := tailAt_of_floatTail hfloat
    simp [numeralAt, hn, hdigit, hread, hlength]

theorem isNumber_of_numeralAt {text : Ustring} {token : GraphQlToken} {k : Nat}
    (h : numeralAt text = some (token, k)) : IsNumber text token (text.take k) ∧ k ≤ text.length := by
  unfold numeralAt at h
  split at h
  · cases h
  next n hn =>
  split at h
  · cases h
  next hwhole =>
  rw [not_or] at hwhole
  have hdigit := Bool.of_not_eq_true hwhole.1
  obtain ⟨rfl, rfl⟩ := Prod.mk.inj (Option.some.inj h)
  have hinteger := longest_isInteger_take hn
  have hle := (isInteger_take hn).2
  rcases tailAt_cases (text.drop n) with hunknown | htoken | htoken
  · exact absurd hunknown hwhole.2
  · rw [tailAt_of_integer htoken, Nat.add_zero]
    obtain ⟨hdot, hmark⟩ := tailAt_eq_integer_iff.1 htoken
    have hlength : (text.take n).length = n := List.length_take_of_le hle
    refine ⟨.integer hinteger ?_ ?_ ?_, hle⟩
    · rw [hlength]
      exact hdigit
    · rw [hlength]
      exact hdot
    · rw [hlength]
      exact hmark
  · have hread : tailAt (text.drop n) = (.floatLiteral, (tailAt (text.drop n)).2) :=
      Prod.ext htoken rfl
    obtain ⟨htail, hk⟩ := floatTail_of_tailAt hread
    rw [List.length_drop] at hk
    rw [htoken]
    generalize (tailAt (text.drop n)).2 = j at htail hk ⊢
    have hlength : (text.take (n + j)).length = n + j := List.length_take_of_le (by omega)
    have htailLength : ((text.drop n).take j).length = j :=
      List.length_take_of_le (by rw [List.length_drop]; omega)
    refine ⟨.float ⟨?_, List.take_prefix _ _, fun other hother hstart => ?_⟩ ?_, by omega⟩
    · rw [List.take_add]
      exact .mk hinteger.mem htail.mem
    · obtain ⟨m, tail, hm, -, rfl, hmem, hrest⟩ := isFloat_of_startsWith hother hstart
      cases hn.symm.trans hm
      have hshorter := htail.longest tail hmem hrest
      rw [htailLength] at hshorter
      rw [hlength, List.length_append, List.length_take_of_le hle]
      omega
    · intro hfollows
      rw [hlength, ← List.drop_drop] at hfollows
      rw [List.take_add, List.any_append]
      rw [htail.marked (by rw [htailLength]; exact hfollows), Bool.or_true]

theorem isDigit_after_exponent {text : Ustring} (h : (exponentAt text).1 = .floatLiteral) :
    isDigit (firstChar (text.drop (exponentAt text).2)) = false := by
  simp only [exponentAt] at h ⊢
  generalize (if firstChar text = '-' ∨ firstChar text = '+' then 1 else 0) = sign at h ⊢
  split at h
  · cases h
  · next hdigit =>
    rw [if_neg hdigit]
    simp only
    rw [← List.drop_drop]
    exact isDigit_after_digits _

theorem isDigit_after_tail {text : Ustring} (h : (tailAt text).1 = .floatLiteral) :
    isDigit (firstChar (text.drop (tailAt text).2)) = false := by
  unfold tailAt at h ⊢
  by_cases hdot : firstChar text = '.'
  · simp only [if_pos hdot] at h ⊢
    split at h
    · cases h
    next hdigit =>
    rw [if_neg hdigit]
    by_cases hmark : isExponentMark (firstChar (text.drop (1 + digits (text.drop 1)))) = false
    · rw [if_pos hmark]
      simp only
      rw [← List.drop_drop]
      exact isDigit_after_digits _
    · simp only [if_neg hmark] at h ⊢
      rw [← List.drop_drop]
      exact isDigit_after_exponent h
  · simp only [if_neg hdot] at h ⊢
    split at h
    · next hmark =>
      rw [if_pos hmark]
      simp only
      rw [← List.drop_drop]
      exact isDigit_after_exponent h
    · cases h

/-- A token of a text that should start with a number: the number it starts with, as a whole, or
`Unknown` where there is none. -/
def NumberTaken (text : Ustring) (token : GraphQlToken) (n : Nat) : Prop :=
  (n ≤ text.length ∧ IsNumber text token (text.take n) ∧
    isDigit (firstChar (text.drop n)) = false) ∨
    (token = .unknown ∧ ∀ token' word, ¬ IsNumber text token' word)

theorem numberTaken_iff {text : Ustring} {token : GraphQlToken} {n : Nat} :
    NumberTaken text token n ↔
      numeralAt text = some (token, n) ∨ token = .unknown ∧ numeralAt text = none := by
  have hnone : numeralAt text = none ↔ ∀ token word, ¬ IsNumber text token word := by
    constructor
    · intro hnone token word hnumber
      cases hnone.symm.trans (numeralAt_of_isNumber hnumber)
    · intro hno
      cases hnumeral : numeralAt text with
      | none => rfl
      | some numeral => exact absurd (isNumber_of_numeralAt hnumeral).1 (hno _ _)
  rw [NumberTaken, hnone]
  constructor
  · rintro (⟨hle, hnumber, -⟩ | hunknown)
    · have hnumeral := numeralAt_of_isNumber hnumber
      rw [List.length_take_of_le hle] at hnumeral
      exact .inl hnumeral
    · exact .inr hunknown
  · rintro (hnumeral | hunknown)
    · obtain ⟨hnumber, hle⟩ := isNumber_of_numeralAt hnumeral
      refine .inl ⟨hle, hnumber, ?_⟩
      unfold numeralAt at hnumeral
      split at hnumeral
      · cases hnumeral
      split at hnumeral
      · cases hnumeral
      next m _ hwhole =>
      rw [not_or] at hwhole
      obtain ⟨rfl, rfl⟩ := Prod.mk.inj (Option.some.inj hnumeral)
      rcases tailAt_cases (text.drop m) with htail | htail | htail
      · exact absurd htail hwhole.2
      · rw [tailAt_of_integer htail, Nat.add_zero]
        exact Bool.of_not_eq_true hwhole.1
      · rw [← List.drop_drop]
        exact isDigit_after_tail htail
    · exact .inr hunknown

/-- Whether a fraction or an exponent starts here that has no digits. -/
def brokenTail (text : Ustring) : Bool := (tailAt text).1 = .unknown

/-- The texts of which the scanner takes a number as a whole. After a minus sign and after a zero
there must be the right thing, or the scanner gives up later; and a zero is not the second of three
digits. -/
def isWhole : Ustring → Bool
  | [] => true
  | ch :: text =>
    if ch = '-' then
      if isDigit (firstChar text) then
        !(firstChar text = '0' && isDigit (firstChar (text.drop 1)))
      else brokenTail text
    else if ch = '0' then
      isDigit (firstChar text) = false || brokenTail (text.drop (integerLength text))
    else !(firstChar text = '0' && isDigit (firstChar (text.drop 1)))

theorem integerLength_of_not_isDigit {text : Ustring} (h : isDigit (firstChar text) = false) :
    integerLength text = 0 := by
  have hzero : firstChar text ≠ '0' := by
    intro hzero
    rw [hzero] at h
    exact absurd h (by decide)
  rw [integerLength, if_neg hzero]
  exact digits_eq_zero h

/-- No digit follows what is read of the digits, unless a zero comes first. -/
theorem isDigit_after_integer {text : Ustring}
    (h : ¬ (firstChar text = '0' ∧ isDigit (firstChar (text.drop 1)) = true)) :
    isDigit (firstChar (text.drop (integerLength text))) = false := by
  unfold integerLength
  split
  · next hzero =>
    rw [not_and] at h
    exact Bool.of_not_eq_true (h hzero)
  · exact isDigit_after_digits text

section

variable {ch : Char} {text : Ustring}

theorem numberTaken_of_integerAt (h : integerAt (ch :: text) = some (1 + integerLength text))
    (hnext : isDigit (firstChar (text.drop (integerLength text))) = false) :
    NumberTaken (ch :: text) (numberAt text).1 (1 + (numberAt text).2) := by
  have hdrop : (ch :: text).drop (1 + integerLength text) = text.drop (integerLength text) := by
    rw [Nat.add_comm, List.drop_succ_cons]
  rw [numberTaken_iff, numeralAt, h, numberAt_eq]
  simp only [hdrop, hnext, Bool.false_eq_true, false_or]
  by_cases hbroken : (tailAt (text.drop (integerLength text))).1 = .unknown
  · exact .inr ⟨hbroken, by rw [if_pos hbroken]⟩
  · exact .inl (by rw [if_neg hbroken, Nat.add_assoc])

theorem numberTaken_of_none (h : numeralAt (ch :: text) = none) :
    NumberTaken (ch :: text) (numberAt text).1 (1 + (numberAt text).2) ↔
      brokenTail (text.drop (integerLength text)) = true := by
  rw [numberTaken_iff, h, numberAt_eq, brokenTail, decide_eq_true_iff]
  constructor
  · rintro (hnone | ⟨hbroken, -⟩)
    · cases hnone
    · exact hbroken
  · intro hbroken
    exact .inr ⟨hbroken, rfl⟩

theorem numeralAt_of_isDigit {n : Nat} (h : integerAt (ch :: text) = some (1 + n))
    (hdigit : isDigit (firstChar (text.drop n)) = true) : numeralAt (ch :: text) = none := by
  have hdrop : (ch :: text).drop (1 + n) = text.drop n := by rw [Nat.add_comm, List.drop_succ_cons]
  rw [numeralAt, h]
  simp only [hdrop, hdigit, true_or, if_true]

theorem numberTaken_minus_iff :
    NumberTaken ('-' :: text) (numberAt text).1 (1 + (numberAt text).2) ↔
      isWhole ('-' :: text) = true := by
  have hinteger : integerAt ('-' :: text) = (naturalAt text).map (1 + ·) := rfl
  rw [isWhole, if_pos rfl]
  by_cases hdigit : isDigit (firstChar text) = true
  · rw [naturalAt, if_pos hdigit, Option.map_some] at hinteger
    rw [if_pos hdigit, Bool.not_eq_true', Bool.and_eq_false_iff, decide_eq_false_iff_not]
    by_cases hcut : firstChar text = '0' ∧ isDigit (firstChar (text.drop 1)) = true
    · -- the digits after the zero are left for another number
      have hlength : integerLength text = 1 := by rw [integerLength, if_pos hcut.1]
      rw [hlength] at hinteger
      rw [numberTaken_of_none (numeralAt_of_isDigit hinteger hcut.2), hlength, brokenTail,
        tailAt_of_isDigit hcut.2, hcut.1, hcut.2]
      simp
    · refine ⟨fun _ => ?_, fun _ => numberTaken_of_integerAt hinteger (isDigit_after_integer hcut)⟩
      rw [not_and] at hcut
      by_cases hzero : firstChar text = '0'
      · exact .inr (Bool.of_not_eq_true (hcut hzero))
      · exact .inl hzero
  · have hnone : numeralAt ('-' :: text) = none := by
      rw [naturalAt, if_neg hdigit, Option.map_none] at hinteger
      rw [numeralAt, hinteger]
    rw [if_neg hdigit, numberTaken_of_none hnone,
      integerLength_of_not_isDigit (Bool.of_not_eq_true hdigit), List.drop_zero]

theorem numberTaken_zero_iff :
    NumberTaken ('0' :: text) (numberAt text).1 (1 + (numberAt text).2) ↔
      isWhole ('0' :: text) = true := by
  have hinteger : integerAt ('0' :: text) = some 1 := rfl
  rw [isWhole, if_neg (by decide), if_pos rfl, Bool.or_eq_true, decide_eq_true_iff]
  by_cases hdigit : isDigit (firstChar text) = true
  · rw [numberTaken_of_none (numeralAt_of_isDigit (n := 0) hinteger hdigit), hdigit]
    simp
  · have hdigit := Bool.of_not_eq_true hdigit
    have hlength := integerLength_of_not_isDigit hdigit
    refine ⟨fun _ => .inl hdigit, fun _ => numberTaken_of_integerAt ?_ ?_⟩
    · rw [hlength]
      exact hinteger
    · rw [hlength]
      exact hdigit

theorem digits_cons (hdigit : isDigit ch = true) : digits (ch :: text) = 1 + digits text := by
  simp only [digits, List.takeWhile_cons, hdigit, if_true, List.length_cons, Nat.add_comm]

theorem numberTaken_digit_iff (hdigit : isDigit ch = true) (hne : ch ≠ '0') :
    NumberTaken (ch :: text) (numberAt text).1 (1 + (numberAt text).2) ↔
      isWhole (ch :: text) = true := by
  have hminus : ch ≠ '-' := by
    rintro rfl
    exact absurd hdigit (by decide)
  have hinteger : integerAt (ch :: text) = some (1 + digits text) := by
    simp [integerAt, naturalAt, integerLength, firstChar, hminus, hdigit, hne, digits_cons hdigit]
  rw [isWhole, if_neg hminus, if_neg hne, Bool.not_eq_true', Bool.and_eq_false_iff,
    decide_eq_false_iff_not]
  by_cases hcut : firstChar text = '0' ∧ isDigit (firstChar (text.drop 1)) = true
  · -- the scanner takes two digits, and there are more
    have hlength : integerLength text = 1 := by rw [integerLength, if_pos hcut.1]
    have hmore : 1 < digits text := by
      cases text with
      | nil => exact absurd hcut.1 (by decide)
      | cons second text =>
        have hsecond : second = '0' := hcut.1
        rw [hsecond, digits_cons (by decide)]
        have hpos := digits_pos hcut.2
        simp only [List.drop_one, List.tail_cons] at hpos
        omega
    refine ⟨fun h => ?_, fun h => ?_⟩
    · exfalso
      rw [numberTaken_iff, numberAt_eq, hlength, tailAt_of_integer (tailAt_of_isDigit hcut.2)] at h
      rcases h with hsome | ⟨hunknown, -⟩
      · rw [numeralAt, hinteger] at hsome
        simp only at hsome
        split at hsome
        · cases hsome
        · have hcount := (Prod.mk.inj (Option.some.inj hsome)).2
          omega
      · cases hunknown
    · rcases h with hzero | hnext
      · exact absurd hcut.1 hzero
      · rw [hcut.2] at hnext
        cases hnext
  · have hlength : integerLength text = digits text := by
      unfold integerLength
      split
      · next hzero =>
        rw [not_and] at hcut
        cases text with
        | nil => exact absurd hzero (by decide)
        | cons second text =>
          have hsecond : second = '0' := hzero
          have hrest : digits text = 0 := digits_eq_zero (Bool.of_not_eq_true (hcut hzero))
          rw [hsecond, digits_cons (by decide), hrest]
      · rfl
    refine ⟨fun _ => ?_, fun _ => numberTaken_of_integerAt ?_ (isDigit_after_integer hcut)⟩
    · rw [not_and] at hcut
      by_cases hzero : firstChar text = '0'
      · exact .inr (Bool.of_not_eq_true (hcut hzero))
      · exact .inl hzero
    · rw [hlength]
      exact hinteger

/-- What the scanner takes of a text that starts with a minus sign or a digit is a number as a whole
exactly where `isWhole` says so. -/
theorem numberTaken_iff_isWhole (h : ch = '-' ∨ isDigit ch = true) :
    NumberTaken (ch :: text) (numberAt text).1 (1 + (numberAt text).2) ↔
      isWhole (ch :: text) = true := by
  by_cases hminus : ch = '-'
  · subst hminus
    exact numberTaken_minus_iff
  · have hdigit := h.resolve_left hminus
    by_cases hzero : ch = '0'
    · subst hzero
      exact numberTaken_zero_iff
    · exact numberTaken_digit_iff hdigit hzero

end

/-! ## The scanner -/

theorem scanToken_other_of_isDigit {ch : Char} (h : isDigit ch = true) :
    punctuation ch = none ∧ ch ≠ '"' ∧ ch ≠ '.' := by
  refine ⟨?_, ?_, ?_⟩
  · unfold punctuation
    split <;> first | rfl | exact absurd h (by decide)
  · rintro rfl
    exact absurd h (by decide)
  · rintro rfl
    exact absurd h (by decide)

/-- The result of a call that meets a number at `s`. -/
def TakesNumber (s : GraphQlScanner) (result : GraphQlToken × GraphQlScanner) : Prop :=
  NumberTaken s.textLeft result.1 (result.2.position - s.position)

/-- A call that meets a minus sign or a digit takes a number as a whole exactly if the text there is
one of which the scanner cuts no digits. -/
theorem takesNumber_iff_isWhole {treatKeywordAsName skipWhiteSpace : Bool} {s s' : GraphQlScanner}
    (hmeets : Meets skipWhiteSpace s.setTokenStartPosition s')
    (h : s'.currentChar = '-' ∨ isDigit s'.currentChar = true) :
    TakesNumber s' (s.takeNextToken treatKeywordAsName skipWhiteSpace) ↔
      isWhole s'.textLeft = true := by
  rw [takeNextToken_of_meets hmeets]
  cases htext : s'.textLeft with
  | nil => exact absurd htext ((position_lt_size_iff s').1 (position_lt_size_of_meets hmeets))
  | cons ch text =>
    have hch : s'.currentChar = ch := currentChar_of_cons htext
    rw [hch] at h ⊢
    have hnumber : s'.incrementPosition.scanToken treatKeywordAsName ch =
        s'.incrementPosition.scanNumber := by
      have hpunctuation : punctuation ch = none ∧ ch ≠ '"' ∧ ch ≠ '.' := by
        rcases h with rfl | hdigit
        · decide
        · exact scanToken_other_of_isDigit hdigit
      unfold scanToken
      rw [hpunctuation.1]
      simp only [hpunctuation.2.1, hpunctuation.2.2, if_false, h, if_true]
    obtain ⟨htoken, hmoved⟩ := s'.incrementPosition.scanNumber_spec
    rw [textLeft_incrementPosition htext] at htoken hmoved
    have hlength : s'.incrementPosition.scanNumber.2.position - s'.position =
        1 + (numberAt text).2 := by
      rw [hmoved.position]
      simp only [incrementPosition]
      omega
    rw [TakesNumber, hnumber, hlength, htext, htoken]
    exact numberTaken_iff_isWhole h

theorem takesNumber_of_negative_float :
    TakesNumber { source := "-12.50e+3)".toList }
      (({ source := "-12.50e+3)".toList } : GraphQlScanner).takeNextToken false true) :=
  (takesNumber_iff_isWhole (.here (by decide) (by decide)) (by decide)).2 (by decide)

/-- The last digit of `100` is left for another token, `00` and a minus sign alone are integers. -/
theorem not_takesNumber_of_cut_digits :
    ¬ TakesNumber { source := "100".toList }
        (({ source := "100".toList } : GraphQlScanner).takeNextToken false true) ∧
      ¬ TakesNumber { source := "00".toList }
        (({ source := "00".toList } : GraphQlScanner).takeNextToken false true) ∧
      ¬ TakesNumber { source := "-".toList }
        (({ source := "-".toList } : GraphQlScanner).takeNextToken false true) := by
  refine ⟨fun h => ?_, fun h => ?_, fun h => ?_⟩
  · exact absurd (numberTaken_iff.1 h) (by decide)
  · exact absurd (numberTaken_iff.1 h) (by decide)
  · exact absurd (numberTaken_iff.1 h) (by decide)

end GraphQlScanner

end Flashpoint
