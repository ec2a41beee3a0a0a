import Flashpoint.Executor.Integers
import Flashpoint.Scanner.Numbers

/-!
# Decimals of an integer

The decimals that `std::to_string` gives are read by `std::atoi` as the integer. The scanner takes them for
an integer, but it may take only the first of them (a zero behind the first digit ends it), and then the
integer it takes is another one.
-/

namespace Flashpoint

open GraphQlScanner GraphQlSchema

/-! ## Values of decimals -/

theorem intString_natCast (n : Nat) : intString (n : Int) = Nat.toDigits 10 n := by
  show (Nat.repr n).toList = _
  exact Nat.toList_repr

theorem intString_negSucc (n : Nat) : intString (.negSucc n) = '-' :: Nat.toDigits 10 (n + 1) := by
  show ("-" ++ Nat.repr (n + 1)).toList = _
  rw [String.toList_append, Nat.toList_repr]
  rfl

theorem isDigit_of_mem_toDigits {n : Nat} {ch : Char} (h : ch ∈ Nat.toDigits 10 n) :
    isDigit ch = true := by
  have hdigit := Nat.isDigit_of_mem_toDigits (by decide) (Nat.le_refl 10) h
  simpa [isDigit, Char.isDigit, Char.le_def] using hdigit

theorem numeralValue_toDigits (n : Nat) : numeralValue (Nat.toDigits 10 n) = n :=
  Nat.ofDigitChars_ten_toDigits

theorem numeralValue_take_le (digits : Ustring) (k : Nat) :
    10 ^ (digits.length - k) * numeralValue (digits.take k) ≤ numeralValue digits := by
  have hsplit : numeralValue digits = 10 ^ (digits.drop k).length * numeralValue (digits.take k) +
      numeralValue (digits.drop k) := by
    have happend := Nat.ofDigitChars_append (b := 10) (l := digits.take k) (m := digits.drop k) 0
    rw [List.take_append_drop] at happend
    exact happend.trans Nat.ofDigitChars_eq_ofDigitChars_zero
  rw [hsplit, List.length_drop]
  exact Nat.le_add_right _ _

/-- No decimals of a number but all of them denote it. -/
theorem length_le_of_numeralValue {n k : Nat} (hk : 1 ≤ k)
    (h : numeralValue ((Nat.toDigits 10 n).take k) = n) : (Nat.toDigits 10 n).length ≤ k := by
  by_contra hshort
  have hle := numeralValue_take_le (Nat.toDigits 10 n) k
  rw [h, numeralValue_toDigits] at hle
  have hten : 10 ≤ 10 ^ ((Nat.toDigits 10 n).length - k) := by
    have hpow := Nat.pow_le_pow_right (n := 10) (by decide)
      (show 1 ≤ (Nat.toDigits 10 n).length - k by omega)
    exact hpow
  have hzero : n = 0 := by
    have hmul := Nat.mul_le_mul_right n hten
    omega
  subst hzero
  simp only [Nat.toDigits_zero, List.length_singleton] at hshort
  omega

theorem numeralValue_take_le_self (digits : Ustring) (k : Nat) :
    numeralValue (digits.take k) ≤ numeralValue digits := by
  have hle := numeralValue_take_le digits k
  have hpos : 1 ≤ 10 ^ (digits.length - k) := Nat.one_le_pow _ _ (by decide)
  have hmul := Nat.mul_le_mul_right (numeralValue (digits.take k)) hpos
  omega

theorem isNumeral_take_toDigits {n k : Nat} (hk : 1 ≤ k) :
    isNumeral ((Nat.toDigits 10 n).take k) = true := by
  have hpos := Nat.length_toDigits_pos (b := 10) (n := n)
  simp only [isNumeral, Bool.and_eq_true, Bool.not_eq_true', List.isEmpty_eq_false_iff, List.all_eq_true]
  refine ⟨?_, fun ch hch => isDigit_of_mem_toDigits (List.mem_of_mem_take hch)⟩
  rw [← List.length_pos_iff, List.length_take]
  omega

theorem integerOf_of_isNumeral {digits : Ustring} (h : isNumeral digits = true) :
    integerOf digits = some (numeralValue digits : Int) := by
  unfold integerOf
  split
  · next digits =>
    simp [isNumeral] at h
    exact absurd h.1 (by decide)
  · rw [if_pos h]

/-- The first character of the decimals and some of the digits behind it denote the number only if no
digit is left. -/
theorem length_le_of_atoi {n : Int} {k : Nat} (hk : 1 ≤ k) (hsign : n < 0 → 2 ≤ k)
    (h : atoi ((intString n).take k) = n) : (intString n).length ≤ k := by
  have hfits : FitsInt n := by
    rw [← h]
    exact fitsInt_atoi _
  cases n with
  | ofNat n =>
    change atoi ((intString (n : Int)).take k) = (n : Int) at h
    change (intString (n : Int)).length ≤ k
    change FitsInt (n : Int) at hfits
    rw [intString_natCast] at h ⊢
    have hle := numeralValue_take_le_self (Nat.toDigits 10 n) k
    rw [numeralValue_toDigits] at hle
    have hvalue := atoi_of_integerOf
      (integerOf_of_isNumeral (isNumeral_take_toDigits (n := n) hk)) (by unfold FitsInt at *; omega)
    rw [h] at hvalue
    exact length_le_of_numeralValue hk (by omega)
  | negSucc n =>
    have hk := hsign (Int.negSucc_lt_zero n)
    obtain ⟨k, rfl⟩ : ∃ j, k = j + 1 := ⟨k - 1, by omega⟩
    rw [intString_negSucc, List.take_succ_cons] at h
    rw [intString_negSucc, List.length_cons]
    have hle := numeralValue_take_le_self (Nat.toDigits 10 (n + 1)) k
    rw [numeralValue_toDigits] at hle
    have hnumeral : integerOf ('-' :: (Nat.toDigits 10 (n + 1)).take k) =
        some (-(numeralValue ((Nat.toDigits 10 (n + 1)).take k) : Int)) :=
      if_pos (isNumeral_take_toDigits (by omega))
    have hvalue := atoi_of_integerOf hnumeral (by unfold FitsInt at *; omega)
    rw [h] at hvalue
    have hlength := length_le_of_numeralValue (n := n + 1) (k := k) (by omega) (by omega)
    omega

theorem atoi_intString {n : Int} (h : FitsInt n) : atoi (intString n) = n := by
  refine atoi_of_integerOf ?_ h
  have hnumeral : ∀ n, isNumeral (Nat.toDigits 10 n) = true := by
    intro n
    have hall := isNumeral_take_toDigits (n := n) (k := (Nat.toDigits 10 n).length)
      Nat.length_toDigits_pos
    rwa [List.take_length] at hall
  cases n with
  | ofNat n =>
    change integerOf (intString (n : Int)) = some (n : Int)
    rw [intString_natCast, integerOf_of_isNumeral (hnumeral n), numeralValue_toDigits]
  | negSucc n =>
    rw [intString_negSucc, integerOf, if_pos (hnumeral (n + 1)), numeralValue_toDigits]
    rfl

/-! ## The token -/

/-- Behind digits alone a number is an integer. -/
theorem numberAt_of_digits {text : Ustring} (h : ∀ ch ∈ text, isDigit ch = true) :
    numberAt text = (.integerLiteral, integerLength text) := by
  have hnext : ∀ ch, isDigit ch = false → ch ≠ '\x00' →
      firstChar (text.drop (integerLength text)) ≠ ch := by
    intro ch hdigit hend hfirst
    cases hdrop : text.drop (integerLength text) with
    | nil =>
      rw [hdrop] at hfirst
      exact hend hfirst.symm
    | cons c rest =>
      rw [hdrop] at hfirst
      have hmem : c ∈ text.drop (integerLength text) := by
        rw [hdrop]
        exact List.mem_cons_self
      have hc := h c (List.mem_of_mem_drop hmem)
      obtain rfl : c = ch := hfirst
      rw [hdigit] at hc
      cases hc
  have hdot := hnext '.' (by decide) (by decide)
  have hlower := hnext 'e' (by decide) (by decide)
  have hupper := hnext 'E' (by decide) (by decide)
  simp only [numberAt, hdot, hlower, hupper, or_self, if_false]

theorem one_le_integerLength {text : Ustring} (hne : text ≠ [])
    (h : ∀ ch ∈ text, isDigit ch = true) : 1 ≤ integerLength text := by
  unfold integerLength
  split
  · exact Nat.le_refl 1
  · rw [digits, List.takeWhile_eq_self_iff.2 h]
    exact List.length_pos_iff.2 hne

theorem exists_tokenAt_intString (n : Int) : ∃ k,
    tokenAt false (intString n) = some (.integerLiteral, k) ∧ 1 ≤ k ∧
      (n < 0 → 2 ≤ k) := by
  cases n with
  | ofNat n =>
    change ∃ k, tokenAt false (intString (n : Int)) = _ ∧ _
    rw [intString_natCast]
    cases htext : Nat.toDigits 10 n with
    | nil => exact absurd htext Nat.toDigits_ne_nil
    | cons ch text =>
      have hdigits : ∀ c ∈ ch :: text, isDigit c = true := by
        rw [← htext]
        exact fun c hc => isDigit_of_mem_toDigits hc
      have hch := hdigits ch List.mem_cons_self
      obtain ⟨hpunctuation, hquote, hdot⟩ := scanToken_other_of_isDigit hch
      have hskipped : ¬ (isLineBreak ch = true ∨
          isSeparator ch = true ∨ ch = '#') := by
        rintro (hbreak | hseparator | rfl)
        · simp only [isLineBreak, Bool.or_eq_true, decide_eq_true_eq] at hbreak
          rcases hbreak with rfl | rfl <;> exact absurd hch (by decide)
        · simp only [isSeparator, Bool.or_eq_true, decide_eq_true_eq] at hseparator
          rcases hseparator with (rfl | rfl) | rfl <;> exact absurd hch (by decide)
        · exact absurd hch (by decide)
      rw [tokenAt, if_neg hskipped]
      simp only [hpunctuation, if_neg hquote, if_neg hdot, if_pos (Or.inr hch),
        numberAt_of_digits fun c hc => hdigits c (List.mem_cons_of_mem ch hc)]
      exact ⟨_, rfl, Nat.le_add_left 1 _, fun hneg => absurd hneg (Int.not_lt_of_ge (Int.natCast_nonneg n))⟩
  | negSucc n =>
    have hdigits : ∀ c ∈ Nat.toDigits 10 (n + 1), isDigit c = true :=
      fun c hc => isDigit_of_mem_toDigits hc
    rw [intString_negSucc]
    refine ⟨integerLength (Nat.toDigits 10 (n + 1)) + 1, ?_, Nat.le_add_left 1 _,
      fun _ => Nat.succ_le_succ (one_le_integerLength Nat.toDigits_ne_nil hdigits)⟩
    show some (Prod.map id (· + 1) (numberAt (Nat.toDigits 10 (n + 1)))) = _
    rw [numberAt_of_digits hdigits]
    rfl

end Flashpoint
