import Flashpoint.Scanner.Reread
import Flashpoint.Schema.Decimals

/-!
# Texts of values

`get_value_string` writes a value for a message, and `parse_value` reads it. The text is read as the same
value (`RoundTrips`) only where there is neither an object nor an empty list, on which the printer throws,
and where the text of every scalar is one token (`IsReadable`). The decimals of an `int` are such a text
unless there are three or more and the second is a zero.
-/

namespace Flashpoint

open Library Climb

/-! ## Values -/

mutual

/-- A value without the places of its nodes. -/
def Value.content : Value → Value
  | .null _ => .null ⟨0, 0⟩
  | .boolean _ b => .boolean ⟨0, 0⟩ b
  | .int _ n => .int ⟨0, 0⟩ n
  | .float _ text => .float ⟨0, 0⟩ text
  | .enum _ text => .enum ⟨0, 0⟩ text
  | .string _ text => .string ⟨0, 0⟩ text
  | .list _ kind values => .list ⟨0, 0⟩ kind (contents values)
  | .object _ fields => .object ⟨0, 0⟩ (fieldContents fields)

def contents : List Value → List Value
  | [] => []
  | value :: values => value.content :: contents values

def fieldContent : ObjectField → ObjectField
  | .mk _ name value => .mk ⟨0, 0⟩ ⟨⟨0, 0⟩, name.identifier⟩ (optionContent value)

def optionContent : Option Value → Option Value
  | none => none
  | some value => some value.content

def fieldContents : List ObjectField → List ObjectField
  | [] => []
  | field :: fields => fieldContent field :: fieldContents fields

end

open GraphQlScanner (IsToken IsOpenString)

mutual

/-- Neither objects nor empty lists, and every scalar is written as one token. -/
def Value.IsReadable : Value → Prop
  | .null _ | .boolean _ _ => True
  | .int _ n => FitsInt n ∧ IsToken .integerLiteral (intString n)
  | .float _ text => IsToken .floatLiteral text
  | .enum _ text => IsToken .gName text
  | .string _ text => IsToken .gStringValue text
  | .list _ kind values => kind = .listValue ∧ values ≠ [] ∧ AreReadable values
  | .object _ _ => False

def AreReadable : List Value → Prop
  | [] => True
  | value :: values => value.IsReadable ∧ AreReadable values

end

/-- A string without its closing quote, as a value. -/
def Value.IsOpen (value : Value) : Prop := ∃ span text, value = .string span text ∧ IsOpenString text

/-- A value is written, and a parser that has nothing but the text of it left reads the value again. -/
def Value.RoundTrips (value : Value) : Prop :=
  ∃ text, getValueString value = some text ∧
    ∀ s : GraphQlSchema, s.scanner.textLeft = text → ∃ bound, ∀ fuel ≥ bound, ∃ value' s',
      (GraphQlSchema.parseValue fuel).run s = .ok (some value') s' ∧ value'.content = value.content

/-! ## One value -/

namespace GraphQlSchema

open ParserM GraphQlScanner

/-- The value of a token, if one token is a value. -/
def scalarOf (span : Span) (text : Ustring) : GraphQlToken → Option Value
  | .nullKeyword => some (.null span)
  | .gStringValue => some (.string span text)
  | .integerLiteral => some (.int span (atoi text))
  | .floatLiteral => some (.float span text)
  | .trueKeyword => some (.boolean span true)
  | .falseKeyword => some (.boolean span false)
  | .gName => some (.enum span text)
  | _ => none

/-- The parser when a token is taken for a value. -/
def afterToken (s : GraphQlSchema) : GraphQlSchema :=
  { s with
    scanner := (s.scanner.takeNextToken false true).2
    currentValueToken := (s.scanner.takeNextToken false true).1 }

def spanAhead (s : GraphQlSchema) : Span :=
  ⟨(s.scanner.takeNextToken false true).2.startPosition, (s.scanner.takeNextToken false true).2.position⟩

theorem run_parseValue_scalar {fuel : Nat} {s : GraphQlSchema} {value : Value}
    (h : scalarOf (spanAhead s) (lexemeAhead s.scanner) (s.scanner.takeNextToken false true).1 =
      some value) : (parseValue (fuel + 1)).run s = .ok (some value) (afterToken s) := by
  rw [parseValue, run_takeToken_bind rfl]
  unfold afterToken
  generalize htoken : (s.scanner.takeNextToken false true).1 = token at h
  cases token <;> cases h <;> rfl

theorem run_parseValue_closeBracket {fuel : Nat} {s : GraphQlSchema}
    (h : (s.scanner.takeNextToken false true).1 = .closeBracket) :
    (parseValue (fuel + 1)).run s = .ok none (afterToken s) := by
  rw [parseValue, run_takeToken_bind rfl]
  unfold afterToken
  rw [h]
  rfl

/-- What `parse_value` does of a list behind its elements. -/
def closeList (span : Span) (values : List Value) : SchemaM (Option Value) := do
  let current ← read fun s => s.currentValueToken
  when (current ≠ .closeBracket) do
    let value ← getTokenValue
    addDiagnostic .expected0ButGot1 [[']'], value]
  let span ← finishSpan span
  return some (.list span .listValue values)

theorem run_closeList (span : Span) (values : List Value) (s : GraphQlSchema) : ∃ span' s',
    (closeList span values).run s = .ok (some (.list span' .listValue values)) s' ∧
      s'.scanner = s.scanner := by
  by_cases hclose : s.currentValueToken = .closeBracket
  · rw [closeList, run_bind_ok rfl, when, if_neg (not_not_intro hclose)]
    exact ⟨_, _, rfl, rfl⟩
  · rw [closeList, run_bind_ok rfl, when, if_pos hclose]
    exact ⟨_, _, rfl, rfl⟩

theorem run_parseValue_openBracket {fuel : Nat} {s : GraphQlSchema}
    (h : (s.scanner.takeNextToken false true).1 = .openBracket) :
    (parseValue (fuel + 1)).run s =
      (parseListValues fuel >>= closeList (spanAhead s)).run (afterToken s) := by
  rw [parseValue, run_takeToken_bind rfl]
  unfold afterToken
  rw [h]
  rfl

/-- A value is that of one token, or a list or an object. -/
theorem run_parseValue_cases {fuel : Nat} {s s' : GraphQlSchema} {value : Value}
    (h : (parseValue (fuel + 1)).run s = .ok (some value) s') :
    (scalarOf (spanAhead s) (lexemeAhead s.scanner) (s.scanner.takeNextToken false true).1 =
        some value ∧ s' = afterToken s) ∨
      ((s.scanner.takeNextToken false true).1 = .openBracket ∧ ∃ span values s₁,
        (parseListValues fuel).run (afterToken s) = .ok values s₁ ∧
          value = .list span .listValue values ∧ s'.scanner = s₁.scanner) ∨
      ∃ span fields, value = .object span fields := by
  cases hscalar : scalarOf (spanAhead s) (lexemeAhead s.scanner)
      (s.scanner.takeNextToken false true).1 with
  | some value' =>
    rw [run_parseValue_scalar hscalar] at h
    cases h
    exact .inl ⟨rfl, rfl⟩
  | none =>
    by_cases hbracket : (s.scanner.takeNextToken false true).1 = .openBracket
    · rw [run_parseValue_openBracket hbracket, run_bind_eq_ok] at h
      obtain ⟨values, s₁, hvalues, hclose⟩ := h
      obtain ⟨span, s₂, hrun, hscanner⟩ := run_closeList (spanAhead s) values s₁
      rw [hrun] at hclose
      cases hclose
      exact .inr (.inl ⟨hbracket, span, values, s₁, hvalues, rfl, hscanner⟩)
    · refine .inr (.inr ?_)
      rw [parseValue, run_takeToken_bind rfl] at h
      generalize (s.scanner.takeNextToken false true).1 = token at hscalar hbracket h
      rw [run_bind_ok rfl] at h
      split at h
      case h_1 => exact absurd rfl hbracket
      case h_2 => cases h
      case h_10 =>
        rw [run_bind_ok rfl, run_bind_eq_ok] at h
        obtain ⟨fields, s₁, -, h⟩ := h
        cases fields with
        | none => cases h
        | some fields =>
          cases h
          exact ⟨_, _, rfl⟩
      case h_11 =>
        cases h
      all_goals cases hscalar

/-! ## Scalars -/

/-- What a token and its text are for a scalar. -/
def Denotes (token : GraphQlToken) (text : Ustring) : Value → Prop
  | .null _ => token = .nullKeyword
  | .boolean _ b => token = if b then .trueKeyword else .falseKeyword
  | .int _ n => token = .integerLiteral ∧ atoi text = n
  | .float _ float => token = .floatLiteral ∧ text = float
  | .enum _ name => token = .gName ∧ text = name
  | .string _ string => token = .gStringValue ∧ text = string
  | .list _ _ _ => False
  | .object _ _ => False

theorem scalarOf_iff (span : Span) {token : GraphQlToken} {text : Ustring} {value : Value} :
    (∃ value', scalarOf span text token = some value' ∧ value'.content = value.content) ↔
      Denotes token text value := by
  constructor
  · rintro ⟨value', hscalar, hsame⟩
    cases token <;> cases hscalar <;> cases value <;>
      simp only [Value.content, reduceCtorEq, Value.boolean.injEq, Value.int.injEq, Value.float.injEq,
        Value.enum.injEq, Value.string.injEq, true_and] at hsame <;>
      simp [Denotes, hsame]
  · intro h
    cases value <;> simp only [Denotes] at h
    case null =>
      subst h
      exact ⟨_, rfl, rfl⟩
    case boolean _ b =>
      subst h
      cases b <;> exact ⟨_, rfl, rfl⟩
    all_goals
      obtain ⟨rfl, rfl⟩ := h
      exact ⟨_, rfl, rfl⟩

theorem isToken_null : IsToken .nullKeyword "null".toList := by decide

theorem isToken_boolean (b : Bool) : IsToken (if b then .trueKeyword else .falseKeyword)
    (if b then "true".toList else "false".toList) := by
  cases b <;> decide

section Scalars

variable {s : GraphQlScanner} {rest : Ustring} (hrest : Delimits rest)

include hrest

/-- A scalar that is written as one token is what that token denotes. -/
theorem denotes_of_isReadable {value : Value} {text : Ustring} (hread : value.IsReadable)
    (hscalar : value.kind ≠ .listValue) (htext : getValueString value = some text)
    (hstands : s.StandsAt (text ++ rest)) :
    Denotes (s.takeNextToken false true).1 (lexemeAhead s) value ∧
      (s.takeNextToken false true).2.textLeft = rest := by
  have htake : ∀ {token : GraphQlToken}, token ≠ .unknown → IsToken token text →
      (s.takeNextToken false true).1 = token ∧ lexemeAhead s = text ∧
        (s.takeNextToken false true).2.textLeft = rest :=
    fun hknown htoken => hstands.take_isToken hrest hknown htoken
  cases value with
  | null =>
    cases htext
    obtain ⟨htoken, -, hleft⟩ := htake (by decide) isToken_null
    exact ⟨htoken, hleft⟩
  | boolean _ b =>
    cases htext
    obtain ⟨htoken, -, hleft⟩ := htake (by cases b <;> decide) (isToken_boolean b)
    exact ⟨htoken, hleft⟩
  | int _ n =>
    cases htext
    obtain ⟨htoken, hlexeme, hleft⟩ := htake (by decide) hread.2
    rw [hlexeme]
    exact ⟨⟨htoken, atoi_intString hread.1⟩, hleft⟩
  | float =>
    cases htext
    obtain ⟨htoken, hlexeme, hleft⟩ := htake (by decide) hread
    exact ⟨⟨htoken, hlexeme⟩, hleft⟩
  | enum =>
    cases htext
    obtain ⟨htoken, hlexeme, hleft⟩ := htake (by decide) hread
    exact ⟨⟨htoken, hlexeme⟩, hleft⟩
  | string =>
    cases htext
    obtain ⟨htoken, hlexeme, hleft⟩ := htake (by decide) hread
    exact ⟨⟨htoken, hlexeme⟩, hleft⟩
  | list => exact absurd hread.1 hscalar
  | object => exact hread.elim

/-- A scalar whose text is read as the scalar is written as one token, or as a string without its
closing quote at the end of the source. -/
theorem isReadable_of_denotes {value : Value} {text : Ustring}
    (hdenotes : Denotes (s.takeNextToken false true).1 (lexemeAhead s) value)
    (htext : getValueString value = some text) (hstands : s.StandsAt (text ++ rest)) :
    value.IsReadable ∧ (s.takeNextToken false true).2.textLeft = rest ∨ rest = [] ∧ value.IsOpen := by
  have hwhole : ∀ {token : GraphQlToken}, token ∈ [.floatLiteral, .gName, .gStringValue] →
      (s.takeNextToken false true).1 = token → lexemeAhead s = text →
      (IsToken token text ∧ (s.takeNextToken false true).2.textLeft = rest) ∨
        rest = [] ∧ token = .gStringValue ∧ IsOpenString text := by
    intro token hmem htoken hlexeme
    have hknown : token ≠ .endOfDocument ∧ token ≠ .unknown ∧ token ≠ .invalidString := by
      simp only [List.mem_cons, List.not_mem_nil, or_false] at hmem
      rcases hmem with rfl | rfl | rfl <;> decide
    refine (hstands.isToken_of_value hrest hknown.1 hknown.2.1 hknown.2.2 htoken hlexeme).imp_left ?_
    exact fun hone => ⟨hone, (hstands.take_isToken hrest hknown.2.1 hone).2.2⟩
  cases value with
  | null =>
    cases htext
    exact .inl ⟨trivial, (hstands.take_isToken hrest (by decide) isToken_null).2.2⟩
  | boolean _ b =>
    cases htext
    have htake := hstands.take_isToken hrest (by cases b <;> decide) (isToken_boolean b)
    exact .inl ⟨trivial, htake.2.2⟩
  | int _ n =>
    cases htext
    obtain ⟨k, htoken, hk, hsign⟩ := exists_tokenAt_intString n
    have hle := tokenAt_le htoken
    have happend : tokenAt false (intString n ++ rest) = some (.integerLiteral, k) := by
      cases hcons : intString n with
      | nil =>
        rw [hcons] at htoken
        cases htoken
      | cons ch text =>
        rw [hcons] at htoken hle
        exact (tokenAt_append_iff hrest (by decide) hle).2 htoken
    obtain ⟨-, hvalue, -⟩ := hstands.take happend
    rw [List.take_append_of_le_length hle] at hvalue
    have hn : atoi ((intString n).take k) = n := by
      rw [← hvalue]
      exact hdenotes.2
    obtain rfl : k = (intString n).length := Nat.le_antisymm hle (length_le_of_atoi hk hsign hn)
    have hfits : FitsInt n := by
      rw [← hn]
      exact fitsInt_atoi _
    exact .inl ⟨⟨hfits, htoken⟩, (hstands.take_isToken hrest (by decide) htoken).2.2⟩
  | float =>
    cases htext
    rcases hwhole (by decide) hdenotes.1 hdenotes.2 with hone | ⟨-, hstring, -⟩
    · exact .inl hone
    · cases hstring
  | enum =>
    cases htext
    rcases hwhole (by decide) hdenotes.1 hdenotes.2 with hone | ⟨-, hstring, -⟩
    · exact .inl hone
    · cases hstring
  | string =>
    cases htext
    rcases hwhole (by decide) hdenotes.1 hdenotes.2 with hone | ⟨hnil, -, hopen⟩
    · exact .inl hone
    · exact .inr ⟨hnil, _, _, rfl, hopen⟩
  | list => exact hdenotes.elim
  | object => exact hdenotes.elim

end Scalars

/-! ## Lists -/

/-- What stands behind an element: the bracket, or the next element. -/
theorem getValueStrings_cons {value : Value} {values : List Value} {texts : Ustring}
    (h : getValueStrings (value :: values) = some texts) (rest : Ustring) : ∃ text texts' rest',
      getValueString value = some text ∧ getValueStrings values = some texts' ∧
        texts ++ ']' :: rest = text ++ rest' ∧ Delimits rest' ∧ rest' ≠ [] ∧
        ∀ s : GraphQlScanner, s.textLeft = rest' → s.StandsAt (texts' ++ ']' :: rest) := by
  rw [getValueStrings] at h
  split at h
  · next text texts' hvalue hvalues =>
    cases values with
    | nil =>
      cases hvalues
      cases h
      refine ⟨text, [], ']' :: rest, hvalue, rfl, rfl, ?_, List.cons_ne_nil _ _, ?_⟩
      · rintro ch ⟨⟩
        exact .inr rfl
      · intro s hleft
        rw [List.nil_append, ← hleft]
        exact s.standsAt_textLeft
    | cons next values =>
      cases h
      refine ⟨text, texts', ',' :: ' ' :: (texts' ++ ']' :: rest), hvalue, hvalues, ?_, ?_,
        List.cons_ne_nil _ _, fun s hleft => standsAt_of_separated hleft⟩
      · simp
      · rintro ch ⟨⟩
        exact .inl rfl
  · cases h

/-- A run that reads a value and leaves the text behind it. -/
def Reads (fuel : Nat) (s : GraphQlSchema) (value : Value) (rest : Ustring) : Prop :=
  ∃ value' s', (parseValue fuel).run s = .ok (some value') s' ∧ value'.content = value.content ∧
    s'.scanner.textLeft = rest

/-- A run that reads the elements of a list and leaves the text behind its bracket. -/
def ReadsAll (fuel : Nat) (s : GraphQlSchema) (values : List Value) (rest : Ustring) : Prop :=
  ∃ values' s', (parseListValues fuel).run s = .ok values' s' ∧ contents values' = contents values ∧
    s'.scanner.textLeft = rest

theorem reads_scalar {fuel : Nat} {s : GraphQlSchema} {value : Value} {rest : Ustring}
    (h : Denotes (s.scanner.takeNextToken false true).1 (lexemeAhead s.scanner) value)
    (hleft : (s.scanner.takeNextToken false true).2.textLeft = rest) :
    Reads (fuel + 1) s value rest := by
  obtain ⟨value', hscalar, hsame⟩ := (scalarOf_iff (spanAhead s)).2 h
  exact ⟨value', afterToken s, run_parseValue_scalar hscalar, hsame, hleft⟩

theorem reads_list {fuel : Nat} {s : GraphQlSchema} {span : Span} {values : List Value}
    {rest : Ustring} (h : (s.scanner.takeNextToken false true).1 = .openBracket)
    (hvalues : ReadsAll fuel (afterToken s) values rest) :
    Reads (fuel + 1) s (.list span .listValue values) rest := by
  obtain ⟨values', s₁, hrun, hsame, hleft⟩ := hvalues
  obtain ⟨span', s', hclose, hscanner⟩ := run_closeList (spanAhead s) values' s₁
  refine ⟨.list span' .listValue values', s', ?_, ?_, ?_⟩
  · rw [run_parseValue_openBracket h, run_bind_ok hrun, hclose]
  · rw [Value.content, Value.content, hsame]
  · rw [hscanner, hleft]

theorem getValueString_list {span : Span} {kind : ValueKind} {values : List Value} {text : Ustring}
    (h : getValueString (.list span kind values) = some text) : kind = .listValue ∧ values ≠ [] ∧
      ∃ texts, getValueStrings values = some texts ∧ text = '[' :: (texts ++ [']']) := by
  cases kind <;> try cases h
  rw [getValueString] at h
  split at h
  · next texts htexts =>
    split at h
    · cases h
    · next hne =>
      cases h
      exact ⟨rfl, fun hnil => hne (by rw [hnil]; rfl), texts, htexts, rfl⟩
  · cases h

theorem take_openBracket {s : GraphQlSchema} {text : Ustring}
    (h : s.scanner.StandsAt ('[' :: text)) :
    (s.scanner.takeNextToken false true).1 = .openBracket ∧
      (afterToken s).scanner.StandsAt text := by
  have hat : tokenAt false ('[' :: text) = some (.openBracket, 1) := rfl
  obtain ⟨htoken, -, hleft⟩ := h.take hat
  refine ⟨htoken, ?_⟩
  have hstands := (afterToken s).scanner.standsAt_textLeft
  have htext : (afterToken s).scanner.textLeft = text := hleft
  rwa [htext] at hstands

theorem reads_of_scalar {value : Value} (hscalar : value.kind ≠ .listValue) {text : Ustring}
    (hread : value.IsReadable) (htext : getValueString value = some text) : ∃ bound,
      ∀ fuel ≥ bound, ∀ s : GraphQlSchema, ∀ rest, Delimits rest →
        s.scanner.StandsAt (text ++ rest) → Reads fuel s value rest := by
  refine ⟨1, fun fuel hfuel s rest hrest hstands => ?_⟩
  obtain ⟨fuel, rfl⟩ : ∃ n, fuel = n + 1 := ⟨fuel - 1, by omega⟩
  obtain ⟨hdenotes, hleft⟩ := denotes_of_isReadable hrest hread hscalar htext hstands
  exact reads_scalar hdenotes hleft

mutual

/-- A readable value is read wherever its text stands before a comma or a bracket. -/
theorem reads_of_isReadable (value : Value) {text : Ustring} (hread : value.IsReadable)
    (htext : getValueString value = some text) : ∃ bound, ∀ fuel ≥ bound, ∀ s : GraphQlSchema,
      ∀ rest, Delimits rest → s.scanner.StandsAt (text ++ rest) → Reads fuel s value rest := by
  cases value with
  | list span kind values =>
    obtain ⟨rfl, -, texts, htexts, rfl⟩ := getValueString_list htext
    obtain ⟨bound, hreads⟩ := readsAll_of_areReadable values hread.2.2 htexts
    refine ⟨bound + 1, fun fuel hfuel s rest _ hstands => ?_⟩
    obtain ⟨fuel, rfl⟩ : ∃ n, fuel = n + 1 := ⟨fuel - 1, by omega⟩
    rw [List.cons_append, List.append_assoc] at hstands
    obtain ⟨htoken, hbehind⟩ := take_openBracket hstands
    exact reads_list htoken (hreads fuel (by omega) _ rest hbehind)
  | null => exact reads_of_scalar (by rintro ⟨⟩) hread htext
  | boolean => exact reads_of_scalar (by rintro ⟨⟩) hread htext
  | int => exact reads_of_scalar (by rintro ⟨⟩) hread htext
  | float => exact reads_of_scalar (by rintro ⟨⟩) hread htext
  | enum => exact reads_of_scalar (by rintro ⟨⟩) hread htext
  | string => exact reads_of_scalar (by rintro ⟨⟩) hread htext
  | object => exact reads_of_scalar (by rintro ⟨⟩) hread htext

theorem readsAll_of_areReadable (values : List Value) {texts : Ustring} (hread : AreReadable values)
    (htexts : getValueStrings values = some texts) : ∃ bound, ∀ fuel ≥ bound, ∀ s : GraphQlSchema,
      ∀ rest, s.scanner.StandsAt (texts ++ ']' :: rest) → ReadsAll fuel s values rest := by
  cases values with
  | nil =>
    cases htexts
    refine ⟨2, fun fuel hfuel s rest hstands => ?_⟩
    obtain ⟨fuel, rfl⟩ : ∃ n, fuel = n + 2 := ⟨fuel - 2, by omega⟩
    have hat : tokenAt false (']' :: rest) = some (.closeBracket, 1) := rfl
    obtain ⟨htoken, -, hleft⟩ := hstands.take hat
    exact ⟨[], afterToken s, run_bind_ok (run_parseValue_closeBracket htoken), rfl, hleft⟩
  | cons value values =>
    obtain ⟨text, texts', -, hvalue, hvalues, -⟩ := getValueStrings_cons htexts []
    obtain ⟨bound, hfirst⟩ := reads_of_isReadable value hread.1 hvalue
    obtain ⟨bound', hothers⟩ := readsAll_of_areReadable values hread.2 hvalues
    refine ⟨max bound bound' + 1, fun fuel hfuel s rest hstands => ?_⟩
    obtain ⟨fuel, rfl⟩ : ∃ n, fuel = n + 1 := ⟨fuel - 1, by omega⟩
    obtain ⟨text₁, texts₁, rest', hvalue₁, hvalues₁, happend, hrest', -, hnext⟩ :=
      getValueStrings_cons htexts rest
    obtain rfl : text₁ = text := Option.some.inj (hvalue₁.symm.trans hvalue)
    obtain rfl : texts₁ = texts' := Option.some.inj (hvalues₁.symm.trans hvalues)
    rw [happend] at hstands
    obtain ⟨value', s₁, hrun, hsame, hleft⟩ := hfirst fuel (by omega) s rest' hrest' hstands
    obtain ⟨values', s', hrun', hsame', hleft'⟩ :=
      hothers fuel (by omega) s₁ rest (hnext s₁.scanner hleft)
    refine ⟨value' :: values', s', ?_, ?_, hleft'⟩
    · rw [parseListValues, run_bind_ok hrun, run_bind_ok hrun']
      rfl
    · rw [contents, contents, hsame, hsame']

end

mutual

/-- A value that is read where its text stands is readable, or a string without its closing quote at the
end of the source. -/
theorem isReadable_of_run (value : Value) {text : Ustring}
    (htext : getValueString value = some text) {fuel : Nat} {s s' : GraphQlSchema} {value' : Value}
    {rest : Ustring} (hrest : Delimits rest) (hstands : s.scanner.StandsAt (text ++ rest))
    (hrun : (parseValue fuel).run s = .ok (some value') s') (hsame : value'.content = value.content) :
    value.IsReadable ∧ s'.scanner.textLeft = rest ∨ rest = [] ∧ value.IsOpen := by
  cases fuel with
  | zero => cases hrun
  | succ fuel =>
    rcases run_parseValue_cases hrun with ⟨hscalar, rfl⟩ | ⟨-, span', values', s₁, hvalues, rfl, hscanner⟩ |
      ⟨span', fields, rfl⟩
    · have hdenotes := (scalarOf_iff (spanAhead s)).1 ⟨value', hscalar, hsame⟩
      exact isReadable_of_denotes hrest hdenotes htext hstands
    · cases value with
      | list span kind values =>
        obtain ⟨rfl, hne, texts, htexts, rfl⟩ := getValueString_list htext
        rw [List.cons_append, List.append_assoc] at hstands
        obtain ⟨-, hbehind⟩ := take_openBracket hstands
        simp only [Value.content, Value.list.injEq, true_and] at hsame
        obtain ⟨hread, hleft⟩ := areReadable_of_run values htexts hbehind hvalues hsame
        rw [hscanner]
        exact .inl ⟨⟨rfl, hne, hread⟩, hleft⟩
      | _ => cases hsame
    · cases value with
      | object => cases htext
      | _ => cases hsame

theorem areReadable_of_run (values : List Value) {texts : Ustring}
    (htexts : getValueStrings values = some texts) {fuel : Nat} {s s' : GraphQlSchema}
    {values' : List Value} {rest : Ustring} (hstands : s.scanner.StandsAt (texts ++ ']' :: rest))
    (hrun : (parseListValues fuel).run s = .ok values' s')
    (hsame : contents values' = contents values) :
    AreReadable values ∧ s'.scanner.textLeft = rest := by
  cases fuel with
  | zero => cases hrun
  | succ fuel =>
    rw [parseListValues, run_bind_eq_ok] at hrun
    obtain ⟨first, s₁, hfirst, hothers⟩ := hrun
    cases values with
    | nil =>
      cases htexts
      have hat : tokenAt false (']' :: rest) = some (.closeBracket, 1) := rfl
      obtain ⟨htoken, -, hleft⟩ := hstands.take hat
      cases fuel with
      | zero => cases hfirst
      | succ fuel =>
        rw [run_parseValue_closeBracket htoken] at hfirst
        cases hfirst
        cases hothers
        exact ⟨trivial, hleft⟩
    | cons value values =>
      cases first with
      | none =>
        cases hothers
        cases hsame
      | some value' =>
        obtain ⟨others, s₂, hothers, hlast⟩ := run_bind_eq_ok.1 hothers
        cases hlast
        simp only [contents, List.cons.injEq] at hsame
        obtain ⟨text, texts', rest', hvalue, hvalues, happend, hrest', hne, hnext⟩ :=
          getValueStrings_cons htexts rest
        rw [happend] at hstands
        rcases isReadable_of_run value hvalue hrest' hstands hfirst hsame.1 with
          ⟨hread, hleft⟩ | ⟨hnil, -⟩
        · obtain ⟨hreads, hend⟩ := areReadable_of_run values hvalues (hnext s₁.scanner hleft)
            hothers hsame.2
          exact ⟨⟨hread, hreads⟩, hend⟩
        · exact absurd hnil hne

end

end GraphQlSchema

/-! ## Round trips -/

open GraphQlScanner GraphQlSchema

mutual

theorem exists_getValueString (value : Value) (hread : value.IsReadable) :
    ∃ text, getValueString value = some text := by
  cases value with
  | list span kind values =>
    obtain ⟨rfl, hne, hreads⟩ := hread
    obtain ⟨texts, htexts⟩ := exists_getValueStrings values hreads
    cases values with
    | nil => exact absurd rfl hne
    | cons value values => exact ⟨_, by rw [getValueString, htexts]; rfl⟩
  | object => exact hread.elim
  | _ => exact ⟨_, rfl⟩

theorem exists_getValueStrings (values : List Value) (hread : AreReadable values) :
    ∃ texts, getValueStrings values = some texts := by
  cases values with
  | nil => exact ⟨_, rfl⟩
  | cons value values =>
    obtain ⟨text, htext⟩ := exists_getValueString value hread.1
    obtain ⟨texts, htexts⟩ := exists_getValueStrings values hread.2
    exact ⟨_, by rw [getValueStrings, htext, htexts]⟩

end

theorem standsAt_of_textLeft {s : GraphQlSchema} {text : Ustring} (h : s.scanner.textLeft = text) :
    s.scanner.StandsAt (text ++ []) := by
  rw [List.append_nil, ← h]
  exact s.scanner.standsAt_textLeft

theorem Value.IsReadable.roundTrips {value : Value} (h : value.IsReadable) : value.RoundTrips := by
  obtain ⟨text, htext⟩ := exists_getValueString value h
  obtain ⟨bound, hreads⟩ := reads_of_isReadable value h htext
  refine ⟨text, htext, fun s hleft => ⟨bound, fun fuel hfuel => ?_⟩⟩
  obtain ⟨value', s', hrun, hsame, -⟩ :=
    hreads fuel hfuel s [] delimits_nil (standsAt_of_textLeft hleft)
  exact ⟨value', s', hrun, hsame⟩

theorem Value.IsOpen.roundTrips {value : Value} (h : value.IsOpen) : value.RoundTrips := by
  obtain ⟨span, text, rfl, body, rfl, hopens⟩ := h
  refine ⟨_, rfl, fun s hleft => ⟨1, fun fuel hfuel => ?_⟩⟩
  obtain ⟨fuel, rfl⟩ : ∃ n, fuel = n + 1 := ⟨fuel - 1, by omega⟩
  have hstands := s.scanner.standsAt_textLeft
  rw [hleft] at hstands
  obtain ⟨hlexeme, htoken, hempty⟩ := hstands.take_open (stringAt_of_opens hopens)
  have hdenotes : Denotes (s.scanner.takeNextToken false true).1 (lexemeAhead s.scanner)
      (.string span ('"' :: body)) := ⟨htoken.2 hopens, hlexeme⟩
  have hreads : Reads (fuel + 1) s (.string span ('"' :: body)) [] := reads_scalar hdenotes hempty
  obtain ⟨value', s', hrun, hsame, -⟩ := hreads
  exact ⟨value', s', hrun, hsame⟩

theorem Value.RoundTrips.isReadable {value : Value} (h : value.RoundTrips) :
    value.IsReadable ∨ value.IsOpen := by
  obtain ⟨text, htext, hparses⟩ := h
  obtain ⟨bound, hruns⟩ := hparses (initial text) rfl
  obtain ⟨value', s', hrun, hsame⟩ := hruns bound (Nat.le_refl bound)
  have hstands := standsAt_of_textLeft (s := initial text) rfl
  rcases isReadable_of_run value htext delimits_nil hstands hrun hsame with
    ⟨hread, -⟩ | ⟨-, hopen⟩
  · exact .inl hread
  · exact .inr hopen

/-- The text of a value is read as the value exactly if there is neither an object nor an empty list in
it and every scalar is written as one token, or if the value is a string that the end of the source left
without its closing quote. -/
theorem value_roundTrips_iff (value : Value) : value.RoundTrips ↔ value.IsReadable ∨ value.IsOpen := by
  constructor
  · exact Value.RoundTrips.isReadable
  · rintro (hread | hopen)
    · exact hread.roundTrips
    · exact hopen.roundTrips

/-- A list with an object has no text, and `0100` is written as decimals that are two tokens. -/
theorem not_roundTrips_of_parsed :
    (∃ value s', (parseValue 8).run (initial "[1, \x7ba: 2\x7d]".toList) = .ok (some value) s' ∧
      ¬ value.RoundTrips) ∧
    ∃ value s', (parseValue 8).run (initial "0100".toList) = .ok (some value) s' ∧
      ¬ value.RoundTrips := by
  constructor
  · refine ⟨_, _, rfl, fun h => ?_⟩
    rcases h.isReadable with hread | ⟨_, _, hstring, -⟩
    · exact hread.2.2.2.1
    · cases hstring
  · refine ⟨_, _, rfl, fun h => ?_⟩
    rcases h.isReadable with hread | ⟨_, _, hstring, -⟩
    · exact absurd hread.2 (by decide)
    · cases hstring

end Flashpoint
