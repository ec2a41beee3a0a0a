import Flashpoint.Executor.Execute
import Mathlib.Data.List.TakeWhile

/-!
# Integer literals

Both parsers turn an integer token into an `int` by `std::atoi` and report nothing about it. The value
is that of the numeral if the token has digits and their number fits 32 bits; the query parser reports
the literal if it is read for a type that takes no integers, whatever its value.
-/

namespace Flashpoint

open Library Climb

/-- The number that decimal digits denote. -/
def numeralValue (digits : Ustring) : Nat :=
  digits.foldl (fun n d => 10 * n + (d.toNat - '0'.toNat)) 0

/-- Whether a text is made of digits, with one at least. -/
def isNumeral (digits : Ustring) : Bool := !digits.isEmpty && digits.all GraphQlScanner.isDigit

/-- The integer that a lexeme denotes: an optional minus sign and digits. -/
def integerOf : Ustring → Option Int
  | '-' :: digits => if isNumeral digits then some (-(numeralValue digits : Int)) else none
  | digits => if isNumeral digits then some (numeralValue digits) else none

def FitsInt (n : Int) : Prop := -2 ^ 31 ≤ n ∧ n < 2 ^ 31

instance (n : Int) : Decidable (FitsInt n) := inferInstanceAs (Decidable (_ ∧ _))

/-- A lexeme that denotes a number of 32 bits. -/
def IsIntLiteral (lexeme : Ustring) : Prop := ∃ n, integerOf lexeme = some n ∧ FitsInt n

namespace GraphQlSchema

theorem cut_of_fitsInt {n : Int} (h : FitsInt n) : atoi.cut n = n := by
  obtain ⟨hlow, hhigh⟩ := h
  unfold atoi.cut
  rw [Int.bmod_def]
  omega

theorem fitsInt_cut (n : Int) : FitsInt (atoi.cut n) := by
  unfold atoi.cut FitsInt
  rw [Int.bmod_def]
  omega

theorem fitsInt_atoi (text : Ustring) : FitsInt (atoi text) := by
  unfold atoi
  split <;> exact fitsInt_cut _

theorem digitsValue_of_isNumeral {digits : Ustring} (h : isNumeral digits = true) :
    atoi.digitsValue digits = numeralValue digits := by
  simp only [isNumeral, Bool.and_eq_true, List.all_eq_true] at h
  rw [atoi.digitsValue, numeralValue, List.takeWhile_eq_self_iff.2 h.2]

/-- `atoi` is right about the numbers of 32 bits. -/
theorem atoi_of_integerOf {text : Ustring} {n : Int} (h : integerOf text = some n)
    (hfits : FitsInt n) : atoi text = n := by
  unfold integerOf at h
  split at h
  · next digits =>
    split at h
    · next hnumeral =>
      cases h
      have hsign : ('-' :: digits).dropWhile isSpace = '-' :: digits := rfl
      rw [atoi, hsign]
      simp only
      rw [digitsValue_of_isNumeral hnumeral]
      exact cut_of_fitsInt hfits
    · cases h
  · next hminus =>
    split at h
    · next hnumeral =>
      cases h
      cases text with
      | nil => cases hnumeral
      | cons ch text =>
        have hdigit : GraphQlScanner.isDigit ch = true := by
          simp only [isNumeral, Bool.and_eq_true, List.all_cons] at hnumeral
          exact hnumeral.2.1
        have hspace : isSpace ch = false := by
          simp only [GraphQlScanner.isDigit, Bool.and_eq_true, decide_eq_true_eq] at hdigit
          simp only [isSpace, Bool.or_eq_false_iff, Bool.and_eq_false_iff, decide_eq_false_iff_not]
          refine ⟨?_, .inr fun hle => ?_⟩
          · rintro rfl
            exact absurd hdigit.1 (by decide)
          · exact absurd (Char.le_trans hdigit.1 hle) (by decide)
        have hplus : ch ≠ '+' := by
          rintro rfl
          exact absurd hdigit (by decide)
        have hsign : (ch :: text).dropWhile isSpace = ch :: text := by
          rw [List.dropWhile_cons, if_neg (by rw [hspace]; decide)]
        unfold atoi
        rw [hsign]
        split
        · next heq => exact absurd heq (hminus _)
        · next heq => exact absurd (List.cons.inj heq).1 hplus
        · rw [digitsValue_of_isNumeral hnumeral]
          exact cut_of_fitsInt hfits
    · cases h

end GraphQlSchema

/-- What a value read from an integer token is: the number that its lexeme denotes, unless something
was reported. -/
def KeepsInteger {M : Type} (lexeme : Ustring) (s : GraphQlParser M)
    (outcome : Outcome Stop (GraphQlParser M) (Option Value)) : Prop :=
  ∀ value s', outcome = .ok value s' →
    (∃ span n, value = some (.int span n) ∧ integerOf lexeme = some n) ∨
      s.diagnostics.length < s'.diagnostics.length

/-- A value made by `atoi`, with nothing reported. -/
theorem keepsInteger_ok_iff {M : Type} {lexeme : Ustring} {s s' : GraphQlParser M} {span : Span}
    (hsame : s'.diagnostics = s.diagnostics) :
    KeepsInteger lexeme s (.ok (some (.int span (GraphQlSchema.atoi lexeme))) s') ↔
      IsIntLiteral lexeme := by
  constructor
  · intro hkeeps
    rcases hkeeps _ _ rfl with ⟨span', n, hvalue, hn⟩ | hreported
    · cases hvalue
      exact ⟨_, hn, GraphQlSchema.fitsInt_atoi lexeme⟩
    · rw [hsame] at hreported
      exact absurd hreported (Nat.lt_irrefl _)
  · rintro ⟨n, hn, hfits⟩ value s₁ hok
    cases hok
    refine .inl ⟨span, n, ?_, hn⟩
    rw [GraphQlSchema.atoi_of_integerOf hn hfits]

namespace GraphQlSchema

open ParserM

/-- The text of the token that is read next. -/
def lexemeAhead (scanner : GraphQlScanner) : Ustring := (scanner.takeNextToken false true).2.getValue

/-- The run after a token, for a token that is known. -/
theorem run_takeToken_bind {M α : Type} {s : GraphQlParser M} {token : GraphQlToken}
    (h : (s.scanner.takeNextToken false true).1 = token) (f : GraphQlToken → ParserM M α) :
    (takeToken >>= f).run s =
      (f token).run { s with scanner := (s.scanner.takeNextToken false true).2 } := by
  subst h
  exact run_bind_ok rfl

theorem run_parseValue_integer {fuel : Nat} {s : GraphQlSchema}
    (h : (s.scanner.takeNextToken false true).1 = .integerLiteral) : ∃ span s',
      (parseValue (fuel + 1)).run s =
        .ok (some (.int span (atoi (lexemeAhead s.scanner)))) s' ∧ s'.diagnostics = s.diagnostics := by
  rw [parseValue, run_takeToken_bind h]
  exact ⟨_, _, rfl, rfl⟩

end GraphQlSchema

namespace GraphQlExecutor

open ParserM GraphQlSchema

/-- Whether a type takes integers. -/
def takesIntegers (type : TypeNode) : Bool := type.type.isIntegerType && !type.isListType

/-- The executor when an integer token was taken to be read for a type. -/
def afterInteger (s : GraphQlExecutor) (id : TypeId) (type : TypeNode) : GraphQlExecutor :=
  { s with
    scanner := (s.scanner.takeNextToken false true).2
    currentValueToken := .integerLiteral
    steps := s.steps ++ [.value .integerLiteral id type] }

theorem run_parseValue_integer {fuel : Nat} {id : TypeId} {type : TypeNode} {s : GraphQlExecutor}
    (h : (s.scanner.takeNextToken false true).1 = .integerLiteral)
    (htype : s.pool.types[id]? = some type) :
    (parseValue (fuel + 1) id).run s =
      (parseScalarValue type .integerLiteral).run (afterInteger s id type) := by
  have hnode : ∀ s₁ : GraphQlExecutor, s₁.pool = s.pool → (typeNode id).run s₁ = .ok type s₁ := by
    intro s₁ hpool
    rw [← hpool] at htype
    exact run_require_some htype
  rw [parseValue, run_takeToken_bind h, run_bind_ok rfl]
  refine (run_bind_ok (hnode _ ?_)).trans ?_
  · rfl
  · rfl

theorem keepsInteger_of_takesIntegers {lexeme : Ustring} {type : TypeNode} {s s₁ : GraphQlExecutor}
    (htakes : takesIntegers type = true) (hlexeme : s₁.scanner.getValue = lexeme)
    (hsame : s₁.diagnostics = s.diagnostics) :
    KeepsInteger lexeme s ((parseScalarValue type .integerLiteral).run s₁) ↔
      IsIntLiteral lexeme := by
  have hfits : ¬ (type.type.isIntegerType = false ∨ type.isListType = true) := by
    simp only [takesIntegers, Bool.and_eq_true, Bool.not_eq_true'] at htakes
    simp [htakes.1, htakes.2]
  have hrun : (parseScalarValue type .integerLiteral).run s₁ = .ok (some (.int
      ⟨s₁.scanner.startPosition, s₁.scanner.position⟩ (atoi s₁.scanner.getValue))) s₁ := by
    simp only [parseScalarValue, when, if_neg hfits]
    rfl
  rw [hrun, hlexeme]
  exact keepsInteger_ok_iff hsame

/-- For another type the literal is reported, unless the name of the type cannot be read. -/
theorem keepsInteger_of_not_takesIntegers {lexeme : Ustring} {type : TypeNode}
    {s s₁ : GraphQlExecutor} (htakes : takesIntegers type = false)
    (hsame : s₁.diagnostics = s.diagnostics) :
    KeepsInteger lexeme s ((parseScalarValue type .integerLiteral).run s₁) := by
  intro value s' hok
  have hmisfits : type.type.isIntegerType = false ∨ type.isListType = true := by
    simp only [takesIntegers, Bool.and_eq_false_iff, Bool.not_eq_false'] at htakes
    exact htakes
  simp only [parseScalarValue, when, if_pos hmisfits] at hok
  obtain ⟨u, s₂, hreport, hrest⟩ := run_bind_eq_ok.1 hok
  obtain ⟨name, s₃, hname, hadd⟩ := run_bind_eq_ok.1 hreport
  have hle := (getTypeName type).le_run s₁
  rw [hname] at hle
  have hkept : s₁.diagnostics <+: s₃.diagnostics := hle.1
  cases hadd
  cases hrest
  right
  rw [← hsame]
  simp only [List.length_append, List.length_singleton]
  exact Nat.lt_succ_of_le hkept.length_le

/-- An integer token gives its number exactly if it denotes one of 32 bits, in both parsers, apart
from those that the query parser reports because the type takes no integers. -/
theorem keepsInteger_iff (fuel : Nat) :
    (∀ s : GraphQlSchema, (s.scanner.takeNextToken false true).1 = .integerLiteral →
      (KeepsInteger (lexemeAhead s.scanner) s ((GraphQlSchema.parseValue (fuel + 1)).run s) ↔
        IsIntLiteral (lexemeAhead s.scanner))) ∧
    (∀ (id : TypeId) (type : TypeNode) (s : GraphQlExecutor),
      (s.scanner.takeNextToken false true).1 = .integerLiteral →
      s.pool.types[id]? = some type →
      (KeepsInteger (lexemeAhead s.scanner) s ((parseValue (fuel + 1) id).run s) ↔
        IsIntLiteral (lexemeAhead s.scanner) ∨ takesIntegers type = false)) := by
  constructor
  · intro s htoken
    obtain ⟨span, s', hrun, hsame⟩ := GraphQlSchema.run_parseValue_integer htoken
    rw [hrun]
    exact keepsInteger_ok_iff hsame
  · intro id type s htoken htype
    rw [run_parseValue_integer htoken htype]
    cases htakes : takesIntegers type with
    | true =>
      simp only [Bool.true_eq_false, or_false]
      exact keepsInteger_of_takesIntegers htakes rfl rfl
    | false =>
      simp only [or_true, iff_true]
      exact keepsInteger_of_not_takesIntegers htakes rfl

/-- A parser in front of a literal, with a type that takes integers. -/
def beforeLiteral {M : Type} (text : String) (members : M) : GraphQlParser M where
  scanner := { source := text.toList }
  pool := { types := [{ span := ⟨0, 0⟩, type := .int }] }
  members := members

theorem keepsInteger_of_smallest_int :
    KeepsInteger "-2147483648".toList (beforeLiteral "-2147483648)" ({} : SchemaMembers))
        ((GraphQlSchema.parseValue 1).run (beforeLiteral "-2147483648)" {})) ∧
      KeepsInteger "-2147483648".toList (beforeLiteral "-2147483648)" ({} : ExecutorMembers))
        ((parseValue 1 0).run (beforeLiteral "-2147483648)" {})) := by
  have hliteral : IsIntLiteral "-2147483648".toList := ⟨-2147483648, by decide, by decide⟩
  exact ⟨((keepsInteger_iff 0).1 (beforeLiteral "-2147483648)" {}) (by decide)).2 hliteral,
    ((keepsInteger_iff 0).2 0 _ (beforeLiteral "-2147483648)" {}) (by decide) rfl).2 (.inl hliteral)⟩

/-- Both parsers take `2147483648` for another number, and a minus sign for zero. -/
theorem not_keepsInteger_of_large_literal :
    (¬ KeepsInteger "2147483648".toList (beforeLiteral "2147483648)" ({} : SchemaMembers))
        ((GraphQlSchema.parseValue 1).run (beforeLiteral "2147483648)" {}))) ∧
      (¬ KeepsInteger "2147483648".toList (beforeLiteral "2147483648)" ({} : ExecutorMembers))
        ((parseValue 1 0).run (beforeLiteral "2147483648)" {}))) ∧
      ¬ KeepsInteger "-".toList (beforeLiteral "-)" ({} : ExecutorMembers))
        ((parseValue 1 0).run (beforeLiteral "-)" {})) := by
  refine ⟨fun h => ?_, fun h => ?_, fun h => ?_⟩
  · rcases h _ _ rfl with ⟨span, n, hvalue, hn⟩ | hreported
    · cases hvalue
      revert hn
      decide
    · exact absurd hreported (by decide)
  · rcases h _ _ rfl with ⟨span, n, hvalue, hn⟩ | hreported
    · cases hvalue
      revert hn
      decide
    · exact absurd hreported (by decide)
  · rcases h _ _ rfl with ⟨span, n, hvalue, hn⟩ | hreported
    · cases hn
    · exact absurd hreported (by decide)

end GraphQlExecutor

end Flashpoint
