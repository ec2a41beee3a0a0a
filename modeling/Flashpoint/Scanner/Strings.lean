import Flashpoint.Scanner.Loops
import Flashpoint.Scanner.Text

/-!
# Strings

The strings of the language, and what the scanner makes of a text after a quote. The loops of the
scanner run until they are behind the source, so a string that is not closed is taken for one, or ends
where the source has no characters any more; and a block string leaves out the characters that are no
source characters.
-/

namespace Flashpoint

namespace GraphQlScanner

/-! ## The grammar -/

/-- What may stand between the quotes of a one-line string. -/
inductive IsLineBody : Ustring → Prop where
  | nil : IsLineBody []
  | char {ch : Char} {body : Ustring} (hquote : ch ≠ '"') (hbackslash : ch ≠ '\\')
      (hbreak : isLineBreak ch = false) (h : IsLineBody body) : IsLineBody (ch :: body)
  | escape {ch : Char} {body : Ustring} (hunicode : ch ≠ 'u') (hbreak : isLineBreak ch = false)
      (h : IsLineBody body) : IsLineBody ('\\' :: ch :: body)
  | unicode {digits body : Ustring} (hlength : digits.length = 4)
      (hdigits : ∀ ch ∈ digits, isHexadecimal ch = true) (h : IsLineBody body) :
      IsLineBody ('\\' :: 'u' :: (digits ++ body))

def threeQuotes : Ustring := ['"', '"', '"']

/-- The string that a text holds after its first quote: the text between the delimiters, and the
number of characters up to the end of the string. -/
inductive IsString : Ustring → Ustring → Nat → Prop where
  | line {body rest : Ustring} (h : IsLineBody body)
      (hline : (body ++ '"' :: rest).take 2 ≠ ['"', '"']) :
      IsString (body ++ '"' :: rest) body (body.length + 1)
  | block {body rest : Ustring}
      (hfirst : ∀ i < body.length, ¬ threeQuotes <+: (body ++ threeQuotes ++ rest).drop i) :
      IsString ('"' :: '"' :: (body ++ threeQuotes ++ rest)) body (2 + body.length + 3)

/-! ## One-line strings -/

/-- After a line break a string is no string any more. -/
theorem literalAt_token {state : LiteralState} {isTruncated : Bool} {text : Ustring}
    {token : GraphQlToken} {n : Nat} (h : literalAt state isTruncated text = some (token, n)) :
    token = .invalidString ∨ isTruncated = false ∧ token = .gStringValue := by
  induction text generalizing state isTruncated n with
  | nil => cases state <;> cases h
  | cons ch text ih =>
    have hlater : ∀ {isLater : Bool}, (isLater = false → isTruncated = false) →
        token = .invalidString ∨ isLater = false ∧ token = .gStringValue →
        token = .invalidString ∨ isTruncated = false ∧ token = .gStringValue := by
      intro isLater hlater htoken
      exact htoken.imp id fun hvalue => ⟨hlater hvalue.1, hvalue.2⟩
    have hplain : literalAt .plain isTruncated (ch :: text) = some (token, n) →
        token = .invalidString ∨ isTruncated = false ∧ token = .gStringValue := by
      intro h
      rw [literalAt_plain_cons] at h
      split at h
      · obtain ⟨m, -, hrest⟩ := exists_of_map_add h
        exact ih hrest
      split at h
      · cases isTruncated with
        | false => exact .inr ⟨rfl, (Prod.mk.inj (Option.some.inj h)).1.symm⟩
        | true => exact .inl (Prod.mk.inj (Option.some.inj h)).1.symm
      · obtain ⟨m, -, hrest⟩ := exists_of_map_add h
        exact hlater (fun hfalse => (Bool.or_eq_false_iff.1 hfalse).1) (ih hrest)
    cases state with
    | plain => exact hplain h
    | escape =>
      obtain ⟨m, -, hrest⟩ := exists_of_map_add h
      exact hlater (fun hfalse => (Bool.or_eq_false_iff.1 hfalse).1) (ih hrest)
    | hexadecimal digits =>
      cases digits with
      | zero =>
        rw [literalAt_zero] at h
        exact hplain h
      | succ digits =>
        rw [literalAt] at h
        split at h
        · obtain ⟨m, -, hrest⟩ := exists_of_map_add h
          exact ih hrest
        · exact .inl (Prod.mk.inj (Option.some.inj h)).1.symm

theorem literalAt_of_hexadecimal {digits text : Ustring} (isTruncated : Bool)
    (h : ∀ ch ∈ digits, isHexadecimal ch = true) :
    literalAt (.hexadecimal digits.length) isTruncated (digits ++ text) =
      (literalAt .plain isTruncated text).map (Prod.map id (· + digits.length)) := by
  induction digits with
  | nil =>
    rw [List.nil_append, List.length_nil, literalAt_zero]
    cases literalAt .plain isTruncated text <;> rfl
  | cons ch digits ih =>
    have hch := h ch List.mem_cons_self
    have hrest := ih fun c hc => h c (List.mem_cons_of_mem ch hc)
    rw [List.cons_append, List.length_cons, literalAt, if_pos hch, hrest, Option.map_map]
    rfl

theorem literalAt_of_isLineBody {body rest : Ustring} (h : IsLineBody body) :
    literalAt .plain false (body ++ '"' :: rest) = some (.gStringValue, body.length + 1) := by
  induction h with
  | nil => rfl
  | char hquote hbackslash hbreak _ ih =>
    rw [List.cons_append, literalAt_plain_cons, if_neg hbackslash, if_neg hquote, hbreak,
      Bool.or_false, ih]
    rfl
  | escape hunicode hbreak _ ih =>
    rw [List.cons_append, List.cons_append, literalAt_plain_cons, if_pos rfl, literalAt]
    simp only [if_neg hunicode, hbreak, Bool.or_false, ih]
    rfl
  | unicode hlength hdigits _ ih =>
    rw [List.cons_append, List.cons_append, literalAt_plain_cons, if_pos rfl, literalAt,
      List.append_assoc]
    simp only [if_true, ← hlength, literalAt_of_hexadecimal _ hdigits]
    rw [show (false || isLineBreak 'u') = false from rfl, ih]
    simp only [Option.map_some, Prod.map_apply, id_eq, List.length_cons, List.length_append]
    congr 2
    omega

/-- What may stand before the closing quote, after a backslash or before some hexadecimal digits. -/
def BodyIn : LiteralState → Ustring → Prop
  | .plain, body => IsLineBody body
  | .escape, body => IsLineBody ('\\' :: body)
  | .hexadecimal n, body => ∃ digits body', body = digits ++ body' ∧ digits.length = n ∧
      (∀ ch ∈ digits, isHexadecimal ch = true) ∧ IsLineBody body'

theorem bodyIn_of_literalAt {state : LiteralState} {text : Ustring} {n : Nat}
    (h : literalAt state false text = some (.gStringValue, n)) :
    ∃ body rest, BodyIn state body ∧ text = body ++ '"' :: rest ∧ n = body.length + 1 := by
  induction text generalizing state n with
  | nil => cases state <;> cases h
  | cons ch text ih =>
    have hunbroken : ∀ {state : LiteralState} {m : Nat},
        literalAt state (isLineBreak ch) text = some (.gStringValue, m) → isLineBreak ch = false := by
      intro state m hrest
      rcases literalAt_token hrest with htoken | ⟨hbreak, -⟩
      · cases htoken
      · exact hbreak
    have hplain : ∀ {n : Nat}, literalAt .plain false (ch :: text) = some (.gStringValue, n) →
        ∃ body rest, IsLineBody body ∧ ch :: text = body ++ '"' :: rest ∧ n = body.length + 1 := by
      intro n h
      rw [literalAt_plain_cons] at h
      split at h
      · next hbackslash =>
        obtain ⟨m, rfl, hrest⟩ := exists_of_map_add h
        obtain ⟨body, rest, hbody, rfl, rfl⟩ := ih hrest
        refine ⟨'\\' :: body, rest, hbody, ?_, Nat.add_comm _ _⟩
        rw [hbackslash, List.cons_append]
      split at h
      · next hquote =>
        cases h
        exact ⟨[], text, .nil, by rw [hquote, List.nil_append], rfl⟩
      · next hbackslash hquote =>
        obtain ⟨m, rfl, hrest⟩ := exists_of_map_add h
        rw [Bool.false_or] at hrest
        have hbreak := hunbroken hrest
        rw [hbreak] at hrest
        obtain ⟨body, rest, hbody, rfl, rfl⟩ := ih hrest
        exact ⟨ch :: body, rest, .char hquote hbackslash hbreak hbody, rfl, Nat.add_comm _ _⟩
    cases state with
    | plain => exact hplain h
    | escape =>
      obtain ⟨m, rfl, hrest⟩ := exists_of_map_add h
      rw [Bool.false_or] at hrest
      have hbreak := hunbroken hrest
      rw [hbreak] at hrest
      obtain ⟨body, rest, hbody, rfl, rfl⟩ := ih hrest
      refine ⟨ch :: body, rest, ?_, rfl, Nat.add_comm _ _⟩
      by_cases hunicode : ch = 'u'
      · rw [if_pos hunicode] at hbody
        obtain ⟨digits, body', rfl, hlength, hdigits, hbody⟩ := hbody
        rw [hunicode]
        exact .unicode hlength hdigits hbody
      · rw [if_neg hunicode] at hbody
        exact .escape hunicode hbreak hbody
    | hexadecimal digits =>
      cases digits with
      | zero =>
        rw [literalAt_zero] at h
        obtain ⟨body, rest, hbody, htext, hn⟩ := hplain h
        exact ⟨body, rest, ⟨[], body, rfl, rfl, by simp, hbody⟩, htext, hn⟩
      | succ digits =>
        rw [literalAt] at h
        split at h
        · next hhex =>
          obtain ⟨m, rfl, hrest⟩ := exists_of_map_add h
          obtain ⟨body, rest, ⟨word, body', rfl, rfl, hword, hbody⟩, rfl, rfl⟩ := ih hrest
          refine ⟨ch :: (word ++ body'), rest, ⟨ch :: word, body', rfl, rfl, ?_, hbody⟩, rfl,
            Nat.add_comm _ _⟩
          intro c hc
          rcases List.mem_cons.1 hc with rfl | hc
          · exact hhex
          · exact hword c hc
        · cases h

/-! ## Block strings -/

theorem threeQuotes_prefix_iff {ch : Char} {text : Ustring} :
    threeQuotes <+: ch :: text ↔ ch = '"' ∧ text.take 2 = ['"', '"'] := by
  unfold threeQuotes
  rw [List.cons_prefix_cons, eq_comm (a := '"'), List.prefix_iff_eq_take,
    eq_comm (a := ['"', '"'])]
  rfl

theorem blockAt_of_first {body rest : Ustring}
    (h : ∀ i < body.length, ¬ threeQuotes <+: (body ++ threeQuotes ++ rest).drop i) :
    blockAt (body ++ threeQuotes ++ rest) = some (.gStringValue, body.length + 3) := by
  induction body with
  | nil =>
    rw [List.nil_append, threeQuotes, List.cons_append, blockAt]
    simp
  | cons ch body ih =>
    have hhead : ¬ threeQuotes <+: ch :: (body ++ threeQuotes ++ rest) := by
      have hzero := h 0 (Nat.succ_pos _)
      simpa using hzero
    rw [threeQuotes_prefix_iff] at hhead
    have hlong : ¬ (ch = '"' ∧ (body ++ threeQuotes ++ rest).length < 2) := by
      rintro ⟨-, hlt⟩
      simp only [threeQuotes, List.length_append, List.length_cons] at hlt
      omega
    have hrest := ih fun i hi => by
      have hlater := h (i + 1) (Nat.succ_lt_succ hi)
      simpa using hlater
    rw [List.cons_append, List.cons_append, blockAt, if_neg hlong, if_neg hhead, hrest]
    simp only [Option.map_some, Prod.map_apply, id_eq, List.length_cons, Nat.add_right_comm]

theorem first_of_blockAt {text : Ustring} {n : Nat} (h : blockAt text = some (.gStringValue, n)) :
    ∃ body rest, text = body ++ threeQuotes ++ rest ∧ n = body.length + 3 ∧
      ∀ i < body.length, ¬ threeQuotes <+: text.drop i := by
  induction text generalizing n with
  | nil => cases h
  | cons ch text ih =>
    rw [blockAt] at h
    split at h
    · cases h
    split at h
    · next hquotes =>
      cases h
      obtain ⟨rest, hrest⟩ := threeQuotes_prefix_iff.2 hquotes
      exact ⟨[], rest, hrest.symm, rfl, fun i hi => absurd hi (Nat.not_lt_zero i)⟩
    · next hhead =>
      obtain ⟨m, rfl, htext⟩ := exists_of_map_add h
      obtain ⟨body, rest, hbody, rfl, hfirst⟩ := ih htext
      refine ⟨ch :: body, rest, by rw [hbody]; rfl, ?_, fun i hi => ?_⟩
      · rw [List.length_cons]
        omega
      · cases i with
        | zero =>
          rw [List.drop_zero, threeQuotes_prefix_iff]
          exact hhead
        | succ i =>
          rw [List.drop_succ_cons]
          exact hfirst i (Nat.lt_of_succ_lt_succ hi)

theorem blockAt_token {text : Ustring} {token : GraphQlToken} {n : Nat}
    (h : blockAt text = some (token, n)) : token = .gStringValue ∨ token = .unknown := by
  induction text generalizing n with
  | nil => cases h
  | cons ch text ih =>
    rw [blockAt] at h
    split at h
    · exact .inr (Prod.mk.inj (Option.some.inj h)).1.symm
    split at h
    · exact .inl (Prod.mk.inj (Option.some.inj h)).1.symm
    · obtain ⟨m, -, hrest⟩ := exists_of_map_add h
      exact ih hrest

/-! ## The text between the delimiters -/

theorem stringLiteral_scanHexadecimalEscape (p l c n : Nat) (s : GraphQlScanner) :
    (scanHexadecimalEscape p l c n s).2.stringLiteral = s.stringLiteral := by
  induction n generalizing s with
  | zero => rfl
  | succ n ih =>
    rw [scanHexadecimalEscape]
    split
    · exact ih _
    · rfl

theorem stringLiteral_scanEscapeSequence (s : GraphQlScanner) :
    s.scanEscapeSequence.2.stringLiteral = s.stringLiteral := by
  simp only [scanEscapeSequence]
  split
  · rfl
  split
  · exact stringLiteral_scanHexadecimalEscape _ _ _ _ _
  · rfl

theorem position_finish (p l c : Nat) (isTruncated : Bool) (s : GraphQlScanner) :
    (scanStringLiteralLoop.finish p l c isTruncated s).2.position = s.position := by
  unfold scanStringLiteralLoop.finish
  split <;> rfl

/-- A string that ends inside of the source keeps the text up to its closing quote. -/
theorem scanStringLiteralLoop_value (p l c fuel : Nat) {isTruncated : Bool} {s : GraphQlScanner}
    (hfuel : s.leftWithEnd ≤ fuel)
    (htoken : (scanStringLiteralLoop p l c fuel isTruncated s).1 = .gStringValue)
    (hend : (scanStringLiteralLoop p l c fuel isTruncated s).2.position ≤ s.size) :
    (scanStringLiteralLoop p l c fuel isTruncated s).2.stringLiteral = s.stringLiteral ++
      s.getTextFromLocation p ((scanStringLiteralLoop p l c fuel isTruncated s).2.position - 1) := by
  induction fuel generalizing isTruncated s with
  | zero =>
    simp only [scanStringLiteralLoop, position_finish] at hend
    simp only [leftWithEnd] at hfuel
    omega
  | succ fuel ih =>
    rw [scanStringLiteralLoop] at htoken hend ⊢
    by_cases hpast : s.position > s.size
    · simp only [if_pos hpast, position_finish] at hend
      omega
    simp only [if_neg hpast] at htoken hend ⊢
    -- the rest of the string, after a scan that leaves the literal
    have hrest : ∀ {isTruncated : Bool} {s₁ : GraphQlScanner}, Scans s.incrementPosition s₁ →
        s₁.stringLiteral = s.stringLiteral →
        (scanStringLiteralLoop p l c fuel isTruncated s₁).1 = .gStringValue →
        (scanStringLiteralLoop p l c fuel isTruncated s₁).2.position ≤ s.size →
        (scanStringLiteralLoop p l c fuel isTruncated s₁).2.stringLiteral = s.stringLiteral ++
          s.getTextFromLocation p
            ((scanStringLiteralLoop p l c fuel isTruncated s₁).2.position - 1) := by
      intro isTruncated s₁ hscans hliteral htoken hend
      have hless := leftWithEnd_lt_of_scans hscans hpast
      have hsize : s₁.size = s.size := hscans.size
      have hvalue := ih (by omega) htoken (by rw [hsize]; exact hend)
      have hsource : s₁.source = s.source := hscans.source
      rw [hliteral] at hvalue
      simpa only [getTextFromLocation, hsource] using hvalue
    by_cases hbackslash : s.currentChar = '\\'
    · simp only [if_pos hbackslash] at htoken hend ⊢
      have hscans := scans_scanEscapeSequence_rest s
      have hliteral := stringLiteral_scanEscapeSequence s
      rcases hescape : s.scanEscapeSequence with ⟨result, s₁⟩
      rw [hescape] at htoken hend hscans hliteral
      cases result with
      | true => exact hrest hscans hliteral htoken hend
      | false => cases htoken
    simp only [if_neg hbackslash] at htoken hend ⊢
    by_cases hbreak : s.currentChar = '\n' ∨ s.currentChar = '\r'
    · simp only [if_pos hbreak] at htoken hend ⊢
      exact hrest .rfl rfl htoken hend
    simp only [if_neg hbreak] at htoken hend ⊢
    by_cases hquote : s.currentChar = '"'
    · simp only [if_pos hquote, position_finish] at htoken hend ⊢
      cases isTruncated with
      | true => cases htoken
      | false => rfl
    · simp only [if_neg hquote] at htoken hend ⊢
      exact hrest .rfl rfl htoken hend

/-- The scanner behind a character of a block string. -/
def passBlockCharacter (s : GraphQlScanner) (ch : Char) : GraphQlScanner :=
  { s with stringLiteral := s.stringLiteral ++ [ch].filter isSourceCharacter }.incrementPosition

theorem moved_passBlockCharacter (s : GraphQlScanner) (ch : Char) :
    Moved 1 s (s.passBlockCharacter ch) := ⟨rfl, rfl, rfl⟩

theorem textLeft_passBlockCharacter {s : GraphQlScanner} {ch : Char} {text : Ustring}
    (h : s.textLeft = ch :: text) : (s.passBlockCharacter ch).textLeft = text := by
  rw [(s.moved_passBlockCharacter ch).textLeft, h]
  rfl

/-- One turn of the loop over a block string, inside of the source. -/
theorem scanStringBlockLoop_cons {fuel : Nat} {s : GraphQlScanner} {ch : Char} {text : Ustring}
    (htext : s.textLeft = ch :: text) : scanStringBlockLoop (fuel + 1) s =
      if ch = '"' ∧ text.length < 2 then (.unknown, s)
      else if ch = '"' ∧ text.take 2 = ['"', '"'] then
        (.gStringValue, s.incrementPosition.incrementPosition.incrementPosition)
      else scanStringBlockLoop fuel (s.passBlockCharacter ch) := by
  have hlt := position_lt_size_of_cons htext
  have hlength : text.length = s.incrementPosition.left := by
    rw [← textLeft_incrementPosition htext, length_textLeft]
  have hnear : s.position + 2 ≥ s.size ↔ text.length < 2 := by
    simp only [left, size, incrementPosition] at hlength hlt ⊢
    omega
  have hquotes : (s.charAtPosition (s.position + 1) = '"' ∧
      s.charAtPosition (s.position + 2) = '"') ↔ text.take 2 = ['"', '"'] := by
    rw [charAtPosition_add, charAtPosition_add, htext, take_two_eq_iff]
    rfl
  have hinside : ¬ s.position > s.size := by omega
  simp only [scanStringBlockLoop, if_neg hinside, currentChar_of_cons htext, hnear, hquotes]
  have hpass : (if isSourceCharacter ch = true then scanStringBlockLoop fuel
      { s with stringLiteral := s.stringLiteral ++ [ch] }.incrementPosition
      else scanStringBlockLoop fuel s.incrementPosition) =
      scanStringBlockLoop fuel (s.passBlockCharacter ch) := by
    unfold passBlockCharacter
    by_cases hsource : isSourceCharacter ch = true
    · rw [if_pos hsource, List.filter_cons_of_pos hsource, List.filter_nil]
    · rw [if_neg hsource, List.filter_cons_of_neg hsource, List.filter_nil, List.append_nil]
  rw [hpass]

/-- A block string keeps the source characters up to its closing quotes. -/
theorem scanStringBlockLoop_value (fuel : Nat) {s : GraphQlScanner} (hfuel : s.left ≤ fuel)
    {n : Nat} (h : blockAt s.textLeft = some (.gStringValue, n + 3)) :
    (scanStringBlockLoop fuel s).2.stringLiteral =
      s.stringLiteral ++ (s.textLeft.take n).filter isSourceCharacter := by
  induction fuel generalizing s n with
  | zero =>
    rw [textLeft_eq_nil (Nat.le_zero.1 hfuel)] at h
    cases h
  | succ fuel ih =>
    cases htext : s.textLeft with
    | nil =>
      rw [htext] at h
      cases h
    | cons ch text =>
      rw [htext, blockAt] at h
      rw [scanStringBlockLoop_cons htext]
      by_cases hnear : ch = '"' ∧ text.length < 2
      · rw [if_pos hnear] at h
        cases h
      rw [if_neg hnear] at h ⊢
      by_cases hclose : ch = '"' ∧ text.take 2 = ['"', '"']
      · rw [if_pos hclose] at h ⊢
        obtain rfl : n = 0 := by
          have hlength := (Prod.mk.inj (Option.some.inj h)).2
          omega
        exact (List.append_nil _).symm
      · rw [if_neg hclose] at h ⊢
        obtain ⟨m, hm, hrest⟩ := exists_of_map_add h
        obtain ⟨body, -, -, rfl, -⟩ := first_of_blockAt hrest
        obtain rfl : n = body.length + 1 := by omega
        have hleft := left_eq_succ htext
        have hfewer : (s.passBlockCharacter ch).left ≤ fuel := by
          rw [(s.moved_passBlockCharacter ch).left]
          omega
        have hvalue := ih hfewer (by rw [textLeft_passBlockCharacter htext]; exact hrest)
        rw [textLeft_passBlockCharacter htext] at hvalue
        rw [hvalue, List.take_succ_cons, List.filter_cons]
        simp only [passBlockCharacter, incrementPosition, List.filter_cons, List.filter_nil,
          List.append_assoc]
        split <;> rfl

/-! ## Behind the end of the source -/

theorem size_le_position_of_textLeft {s : GraphQlScanner} (h : s.textLeft = []) :
    s.size ≤ s.position := by
  have hleft := length_textLeft s
  rw [h, List.length_nil, left] at hleft
  omega

theorem currentChar_of_nil {s : GraphQlScanner} (h : s.textLeft = []) : s.currentChar = '\x00' := by
  rw [currentChar_eq, h]
  rfl

/-- What a scan does of a part of a string that the text does not hold: the scanner is behind the
source, or the rest of the string is still to come. -/
def RunsOut (isTruncated : Bool) (s : GraphQlScanner) (result : Bool × GraphQlScanner) : Prop :=
  (result.1 = false ∧ s.size < result.2.position) ∨
    (result.1 = true ∧ literalAt .plain isTruncated result.2.textLeft = none)

theorem runsOut_hexadecimal (p l c digits : Nat) {isTruncated : Bool} {s : GraphQlScanner}
    (h : literalAt (.hexadecimal digits) isTruncated s.textLeft = none) :
    RunsOut isTruncated s (scanHexadecimalEscape p l c digits s) := by
  induction digits generalizing s with
  | zero =>
    rw [literalAt_zero] at h
    exact .inr ⟨rfl, h⟩
  | succ digits ih =>
    rw [scanHexadecimalEscape]
    cases htext : s.textLeft with
    | nil =>
      have hend := size_le_position_of_textLeft htext
      rw [if_neg (by rw [currentChar_of_nil htext]; decide)]
      exact .inl ⟨rfl, Nat.lt_succ_of_le hend⟩
    | cons ch text =>
      rw [htext, literalAt] at h
      rw [currentChar_of_cons htext]
      split at h
      · next hhex =>
        rw [if_pos hhex]
        rw [Option.map_eq_none_iff, ← textLeft_incrementPosition htext] at h
        exact ih h
      · cases h

theorem runsOut_escape {isTruncated : Bool} {s : GraphQlScanner}
    (h : literalAt .escape isTruncated s.incrementPosition.textLeft = none) :
    RunsOut isTruncated s s.scanEscapeSequence := by
  simp only [scanEscapeSequence]
  have hsize : s.size = s.incrementPosition.size := rfl
  rw [RunsOut, hsize]
  generalize s.incrementPosition = s₁ at h ⊢
  cases htext : s₁.textLeft with
  | nil =>
    have hother : ¬ '\x00' ∈ ['"', '\\', '/', 'b', 'f', 'n', 'r', 't'] := by decide
    rw [currentChar_of_nil htext, if_neg hother, if_neg (by decide)]
    refine .inr ⟨rfl, ?_⟩
    rw [htext]
    rfl
  | cons ch text =>
    rw [htext, literalAt] at h
    simp only [Option.map_eq_none_iff] at h
    rw [currentChar_of_cons htext]
    by_cases hsimple : ch ∈ ['"', '\\', '/', 'b', 'f', 'n', 'r', 't']
    · have hplain : ch ≠ 'u' ∧ isLineBreak ch = false := by
        simp only [List.mem_cons, List.not_mem_nil, or_false] at hsimple
        rcases hsimple with rfl | rfl | rfl | rfl | rfl | rfl | rfl | rfl <;> decide
      rw [if_pos hsimple]
      rw [if_neg hplain.1, hplain.2, Bool.or_false, ← textLeft_incrementPosition htext] at h
      exact .inr ⟨rfl, h⟩
    · rw [if_neg hsimple]
      by_cases hu : ch = 'u'
      · have hbreak : isLineBreak ch = false := by rw [hu]; decide
        rw [if_pos hu]
        rw [if_pos hu, hbreak, Bool.or_false, ← textLeft_incrementPosition htext] at h
        exact runsOut_hexadecimal _ _ _ 4 h
      · -- the character is left to the loop of the string
        rw [if_neg hu]
        rw [if_neg hu] at h
        have hbackslash : ch ≠ '\\' := by
          rintro rfl
          exact hsimple (by decide)
        have hquote : ch ≠ '"' := by
          rintro rfl
          exact hsimple (by decide)
        refine .inr ⟨rfl, ?_⟩
        rw [htext, literalAt_plain_cons, if_neg hbackslash, if_neg hquote, h]
        rfl

/-- The loop over a string that the text does not hold ends behind the source. -/
theorem scanStringLiteralLoop_past (p l c fuel : Nat) {isTruncated : Bool} {s : GraphQlScanner}
    (hfuel : s.leftWithEnd ≤ fuel) (h : literalAt .plain isTruncated s.textLeft = none) :
    s.size < (scanStringLiteralLoop p l c fuel isTruncated s).2.position := by
  induction fuel generalizing isTruncated s with
  | zero =>
    simp only [scanStringLiteralLoop, position_finish]
    simp only [leftWithEnd] at hfuel
    omega
  | succ fuel ih =>
    rw [scanStringLiteralLoop]
    by_cases hpast : s.position > s.size
    · simp only [if_pos hpast, position_finish]
      exact hpast
    simp only [if_neg hpast]
    have hrest : ∀ {isTruncated : Bool} {s₁ : GraphQlScanner}, Scans s.incrementPosition s₁ →
        literalAt .plain isTruncated s₁.textLeft = none →
        s.size < (scanStringLiteralLoop p l c fuel isTruncated s₁).2.position := by
      intro isTruncated s₁ hscans hnone
      have hless := leftWithEnd_lt_of_scans hscans hpast
      have hsize : s₁.size = s.size := hscans.size
      rw [← hsize]
      exact ih (by omega) hnone
    cases htext : s.textLeft with
    | nil =>
      rw [currentChar_of_nil htext, if_neg (by decide), if_neg (by decide), if_neg (by decide)]
      refine hrest .rfl ?_
      rw [s.moved_incrementPosition.textLeft, htext]
      rfl
    | cons ch text =>
      rw [htext, literalAt_plain_cons] at h
      rw [currentChar_of_cons htext]
      by_cases hbackslash : ch = '\\'
      · rw [if_pos hbackslash] at h ⊢
        rw [Option.map_eq_none_iff, ← textLeft_incrementPosition htext] at h
        have hscans := scans_scanEscapeSequence_rest s
        have hout := runsOut_escape h
        rcases hescape : s.scanEscapeSequence with ⟨result, s₁⟩
        rw [hescape] at hscans hout
        rcases hout with ⟨hfalse, hposition⟩ | ⟨htrue, hnone⟩
        · simp only at hfalse
          subst hfalse
          exact hposition
        · simp only at htrue
          subst htrue
          exact hrest hscans hnone
      · rw [if_neg hbackslash] at h ⊢
        split at h
        · cases h
        next hquote =>
        rw [Option.map_eq_none_iff, ← textLeft_incrementPosition htext] at h
        split
        · next hbreak =>
          have htruncated : (isTruncated || isLineBreak ch) = true := by
            simp [isLineBreak, hbreak]
          rw [htruncated] at h
          exact hrest .rfl h
        · next hbreak =>
          have hsame : (isTruncated || isLineBreak ch) = isTruncated := by
            simp only [isLineBreak, not_or] at hbreak ⊢
            simp [hbreak.1, hbreak.2]
          rw [hsame] at h
          exact hrest .rfl h

/-- The loop over a block string that the text does not hold ends behind the source. -/
theorem scanStringBlockLoop_past (fuel : Nat) {s : GraphQlScanner} (hfuel : s.leftWithEnd ≤ fuel)
    (h : blockAt s.textLeft = none) : s.size < (scanStringBlockLoop fuel s).2.position := by
  induction fuel generalizing s with
  | zero =>
    simp only [leftWithEnd] at hfuel
    simp only [scanStringBlockLoop]
    omega
  | succ fuel ih =>
    by_cases hpast : s.position > s.size
    · rw [scanStringBlockLoop, if_pos hpast]
      exact hpast
    have hless := leftWithEnd_lt_of_scans (s := s) .rfl hpast
    cases htext : s.textLeft with
    | nil =>
      have hrest : blockAt s.incrementPosition.textLeft = none := by
        rw [s.moved_incrementPosition.textLeft, htext]
        rfl
      have hquote : ¬ '\x00' = '"' := by decide
      have hsource : isSourceCharacter '\x00' = false := by decide
      simp only [scanStringBlockLoop, if_neg hpast, currentChar_of_nil htext, hquote, false_and,
        if_false, hsource, Bool.false_eq_true]
      exact ih (by omega) hrest
    | cons ch text =>
      rw [htext, blockAt] at h
      rw [scanStringBlockLoop_cons htext]
      by_cases hnear : ch = '"' ∧ text.length < 2
      · rw [if_pos hnear] at h
        cases h
      rw [if_neg hnear] at h ⊢
      by_cases hclose : ch = '"' ∧ text.take 2 = ['"', '"']
      · rw [if_pos hclose] at h
        cases h
      · rw [if_neg hclose] at h ⊢
        rw [Option.map_eq_none_iff, ← textLeft_passBlockCharacter htext] at h
        exact ih (s := s.passBlockCharacter ch) (Nat.le_of_lt_succ (Nat.lt_of_lt_of_le hless hfuel)) h

/-! ## The scanner -/

/-- What a scan of the text after a quote should give: a string exactly where there is one, with the
text between its delimiters and the position behind it, and otherwise no string and a position inside
of the source. -/
structure StringTaken (s : GraphQlScanner) (result : GraphQlToken × GraphQlScanner) : Prop where
  token : result.1 = .gStringValue ↔ ∃ value n, IsString s.textLeft value n
  value : ∀ value n, IsString s.textLeft value n →
    result.2.getStringValue = value ∧ result.2.position = s.position + n
  other : (∀ value n, ¬ IsString s.textLeft value n) →
    (result.1 = .invalidString ∨ result.1 = .unknown) ∧ result.2.position ≤ s.size

/-- The strings that end inside of the source. A one-line string does so at a quote, be it behind a
line break, or at a character that should be a hexadecimal digit; a block string at its three quotes,
where all its characters are source characters, or at a quote among the last two characters. -/
def endsInside (text : Ustring) : Bool :=
  if text.take 2 = ['"', '"'] then
    match blockAt (text.drop 2) with
    | none => false
    | some (token, n) =>
      token ≠ .gStringValue || ((text.drop 2).take (n - 3)).all isSourceCharacter
  else (literalAt .plain false text).isSome

theorem isString_line_iff {text value : Ustring} {n : Nat} (h : text.take 2 ≠ ['"', '"']) :
    IsString text value n ↔ literalAt .plain false text = some (.gStringValue, n) ∧
      value = text.take (n - 1) := by
  constructor
  · intro hstring
    cases hstring with
    | line hbody _ =>
      refine ⟨literalAt_of_isLineBody hbody, ?_⟩
      rw [Nat.add_sub_cancel, List.take_left]
    | block _ => exact absurd rfl h
  · rintro ⟨hliteral, rfl⟩
    obtain ⟨body, rest, hbody, rfl, rfl⟩ := bodyIn_of_literalAt hliteral
    rw [Nat.add_sub_cancel, List.take_left]
    exact .line hbody h

theorem isString_block_iff {text value : Ustring} {n : Nat} (h : text.take 2 = ['"', '"']) :
    IsString text value n ↔ ∃ m, n = 2 + m ∧ blockAt (text.drop 2) = some (.gStringValue, m) ∧
      value = (text.drop 2).take (m - 3) := by
  constructor
  · intro hstring
    cases hstring with
    | line _ hline => exact absurd h hline
    | block hfirst =>
      refine ⟨_, Nat.add_assoc _ _ _, blockAt_of_first hfirst, ?_⟩
      rw [Nat.add_sub_cancel, List.append_assoc]
      exact (List.take_left ..).symm
  · rintro ⟨m, rfl, hblock, rfl⟩
    obtain ⟨body, rest, hbody, rfl, hfirst⟩ := first_of_blockAt hblock
    have htext : text = '"' :: '"' :: (body ++ threeQuotes ++ rest) := by
      rw [← hbody, ← List.take_append_drop 2 text, h]
      rfl
    have hvalue : (text.drop 2).take (body.length + 3 - 3) = body := by
      rw [hbody, Nat.add_sub_cancel, List.append_assoc, List.take_left]
    rw [hvalue, htext, ← Nat.add_assoc]
    exact .block (by rw [← hbody]; exact hfirst)

/-- A string that the text holds. -/
theorem stringTaken_of_isString {s s' : GraphQlScanner} (value : Ustring) {n : Nat}
    (h : ∀ value' m, IsString s.textLeft value' m ↔ value' = value ∧ m = n)
    (hvalue : s'.getStringValue = value) (hposition : s'.position = s.position + n) :
    StringTaken s (.gStringValue, s') where
  token := ⟨fun _ => ⟨value, n, (h value n).2 ⟨rfl, rfl⟩⟩, fun _ => rfl⟩
  value value' m hstring := by
    obtain ⟨rfl, rfl⟩ := (h value' m).1 hstring
    exact ⟨hvalue, hposition⟩
  other hnone := absurd ((h value n).2 ⟨rfl, rfl⟩) (hnone value n)

/-- A string that is not closed. -/
theorem stringTaken_of_not_isString {s s' : GraphQlScanner} {token : GraphQlToken}
    (h : ∀ value n, ¬ IsString s.textLeft value n)
    (htoken : token = .invalidString ∨ token = .unknown) (hposition : s'.position ≤ s.size) :
    StringTaken s (token, s') where
  token := by
    constructor
    · rintro rfl
      rcases htoken with htoken | htoken <;> cases htoken
    · rintro ⟨value, n, hstring⟩
      exact absurd hstring (h value n)
  value value n hstring := absurd hstring (h value n)
  other _ := ⟨htoken, hposition⟩

theorem stringTaken_line_iff {s : GraphQlScanner} (h : s.textLeft.take 2 ≠ ['"', '"']) :
    StringTaken s s.scanStringLiteral ↔ (literalAt .plain false s.textLeft).isSome = true := by
  have hfuel : ({ s with stringLiteral := [] } : GraphQlScanner).leftWithEnd ≤
      s.size + 1 - s.position := Nat.le_refl _
  cases hliteral : literalAt .plain false s.textLeft with
  | none =>
    have hnone : ∀ value n, ¬ IsString s.textLeft value n := by
      intro value n hstring
      cases hliteral.symm.trans ((isString_line_iff h).1 hstring).1
    have hpast : s.size < s.scanStringLiteral.2.position :=
      scanStringLiteralLoop_past s.position s.line s.column _ hfuel hliteral
    refine ⟨fun htaken => ?_, fun hfalse => by cases hfalse⟩
    exact absurd (htaken.other hnone).2 (Nat.not_le_of_lt hpast)
  | some result =>
    obtain ⟨token, n⟩ := result
    refine ⟨fun _ => rfl, fun _ => ?_⟩
    have hleft : ({ s with stringLiteral := [] } : GraphQlScanner).left ≤
        s.size + 1 - s.position := by
      simp only [left, size]
      omega
    obtain ⟨htoken, hmoved⟩ :=
      scanStringLiteralLoop_spec s.position s.line s.column _ hleft hliteral
    have hinside : s.position + n ≤ s.size := by
      have hle := literalAt_le hliteral
      have hlt : s.position < s.size := by
        refine (position_lt_size_iff s).2 fun hnil => ?_
        rw [hnil] at hliteral
        cases hliteral
      rw [length_textLeft, left] at hle
      omega
    have hposition : s.scanStringLiteral.2.position = s.position + n := hmoved.position
    have hresult : s.scanStringLiteral = (token, s.scanStringLiteral.2) := Prod.ext htoken rfl
    rcases literalAt_token hliteral with rfl | ⟨-, rfl⟩
    · rw [hresult]
      refine stringTaken_of_not_isString (fun value m hstring => ?_) (.inl rfl) ?_
      · cases hliteral.symm.trans ((isString_line_iff h).1 hstring).1
      · rw [hposition]
        exact hinside
    · have hvalue := scanStringLiteralLoop_value s.position s.line s.column _ hfuel htoken
        (by rw [hmoved.position]; exact hinside)
      rw [hmoved.position, List.nil_append] at hvalue
      rw [hresult]
      refine stringTaken_of_isString (s.textLeft.take (n - 1)) (fun value m => ?_) ?_ hposition
      · rw [isString_line_iff h, hliteral]
        constructor
        · rintro ⟨hsame, rfl⟩
          cases hsame
          exact ⟨rfl, rfl⟩
        · rintro ⟨rfl, rfl⟩
          exact ⟨rfl, rfl⟩
      · refine Eq.trans hvalue ?_
        simp only [getTextFromLocation, textLeft]
        congr 1
        show s.position + n - 1 - s.position = n - 1
        omega

theorem stringTaken_block_iff {s : GraphQlScanner} (h : s.textLeft.take 2 = ['"', '"']) :
    StringTaken s s.incrementPosition.incrementPosition.scanStringBlockAfterDoubleQuotes ↔
      endsInside s.textLeft = true := by
  have hopen : Moved 2 s
      { s.incrementPosition.incrementPosition with stringLiteral := [] } := ⟨rfl, rfl, rfl⟩
  have hfuel : ({ s.incrementPosition.incrementPosition with stringLiteral := [] } :
      GraphQlScanner).leftWithEnd ≤ s.incrementPosition.incrementPosition.size + 1 -
        s.incrementPosition.incrementPosition.position := Nat.le_refl _
  have hleft : ({ s.incrementPosition.incrementPosition with stringLiteral := [] } :
      GraphQlScanner).left ≤ s.incrementPosition.incrementPosition.size + 1 -
        s.incrementPosition.incrementPosition.position := by
    simp only [left, size]
    omega
  have hsize : s.position + 2 ≤ s.size := by
    have hlength := congrArg List.length h
    rw [List.length_take, length_textLeft, left] at hlength
    simp only [List.length_cons, List.length_nil] at hlength
    omega
  rw [endsInside, if_pos h, ← hopen.textLeft]
  cases hblock : blockAt ({ s.incrementPosition.incrementPosition with stringLiteral := [] } :
      GraphQlScanner).textLeft with
  | none =>
    have hnone : ∀ value n, ¬ IsString s.textLeft value n := by
      intro value n hstring
      obtain ⟨m, -, hsome, -⟩ := (isString_block_iff h).1 hstring
      rw [← hopen.textLeft, hblock] at hsome
      cases hsome
    refine ⟨fun htaken => ?_, fun hfalse => by cases hfalse⟩
    exact absurd (htaken.other hnone).2
      (Nat.not_le_of_lt (scanStringBlockLoop_past _ hfuel hblock))
  | some result =>
    obtain ⟨token, n⟩ := result
    obtain ⟨htoken, hmoved⟩ := scanStringBlockLoop_spec _ hleft hblock
    have hposition := (hopen.trans hmoved).position
    have hinside : s.position + (2 + n) ≤ s.size := by
      have hle := blockAt_le hblock
      rw [hopen.textLeft, List.length_drop, length_textLeft, left] at hle
      omega
    have hresult : s.incrementPosition.incrementPosition.scanStringBlockAfterDoubleQuotes =
        (token, s.incrementPosition.incrementPosition.scanStringBlockAfterDoubleQuotes.2) :=
      Prod.ext htoken rfl
    rcases blockAt_token hblock with rfl | rfl
    · obtain ⟨body, rest, hbody, rfl, -⟩ := first_of_blockAt hblock
      have hvalue := scanStringBlockLoop_value _ hleft hblock
      have hisString : ∀ value m, IsString s.textLeft value m ↔
          value = body ∧ m = 2 + (body.length + 3) := by
        intro value m
        rw [isString_block_iff h, ← hopen.textLeft, hblock]
        constructor
        · rintro ⟨k, rfl, hsame, rfl⟩
          cases hsame
          refine ⟨?_, rfl⟩
          rw [hbody, Nat.add_sub_cancel, List.append_assoc, List.take_left]
        · rintro ⟨rfl, rfl⟩
          refine ⟨_, rfl, rfl, ?_⟩
          rw [hbody, Nat.add_sub_cancel, List.append_assoc, List.take_left]
      have htake : ({ s.incrementPosition.incrementPosition with stringLiteral := [] } :
          GraphQlScanner).textLeft.take body.length = body := by
        rw [hbody, List.append_assoc, List.take_left]
      rw [htake, List.nil_append] at hvalue
      simp only [ne_eq, not_true_eq_false, decide_false, Bool.false_or, Nat.add_sub_cancel, htake]
      rw [hresult, List.all_eq_true]
      constructor
      · intro htaken
        have hgot := (htaken.value body _ ((hisString _ _).2 ⟨rfl, rfl⟩)).1
        exact List.filter_eq_self.1 (hvalue.symm.trans hgot)
      · intro hall
        exact stringTaken_of_isString body hisString
          (hvalue.trans (List.filter_eq_self.2 hall)) hposition
    · refine ⟨fun _ => rfl, fun _ => ?_⟩
      rw [hresult]
      refine stringTaken_of_not_isString (fun value m hstring => ?_) (.inr rfl) ?_
      · obtain ⟨k, -, hsome, -⟩ := (isString_block_iff h).1 hstring
        rw [← hopen.textLeft, hblock] at hsome
        cases hsome
      · exact Nat.le_trans (Nat.le_of_eq hposition) hinside

/-- A call that meets a quote takes a string as it should exactly if the string ends inside of the
source and, where it is a closed block string, holds source characters only. -/
theorem stringTaken_iff_endsInside {treatKeywordAsName skipWhiteSpace : Bool}
    {s s' : GraphQlScanner} (hmeets : Meets skipWhiteSpace s.setTokenStartPosition s')
    (h : s'.currentChar = '"') :
    StringTaken s'.incrementPosition (s.takeNextToken treatKeywordAsName skipWhiteSpace) ↔
      endsInside (s'.textLeft.drop 1) = true := by
  rw [takeNextToken_of_meets hmeets, h, ← s'.moved_incrementPosition.textLeft]
  generalize s'.incrementPosition = s₁
  have hquotes : (s₁.currentChar = '"' ∧ s₁.charAtPosition (s₁.position + 1) = '"') ↔
      s₁.textLeft.take 2 = ['"', '"'] := by
    rw [currentChar_eq, charAtPosition_add, take_two_eq_iff]
  have hscan : s₁.scanToken treatKeywordAsName '"' = s₁.scanStringValue := rfl
  rw [hscan]
  simp only [scanStringValue, hquotes]
  by_cases hblock : s₁.textLeft.take 2 = ['"', '"']
  · rw [if_pos hblock]
    exact stringTaken_block_iff hblock
  · rw [if_neg hblock, stringTaken_line_iff hblock, endsInside, if_neg hblock]

theorem stringTaken_of_two_strings :
    StringTaken ({ source := "\"a\\u00e9\" ".toList } : GraphQlScanner).incrementPosition
        (({ source := "\"a\\u00e9\" ".toList } : GraphQlScanner).takeNextToken false true) ∧
      StringTaken ({ source := "\"\"\"\na\"\"\"".toList } : GraphQlScanner).incrementPosition
        (({ source := "\"\"\"\na\"\"\"".toList } : GraphQlScanner).takeNextToken false true) := by
  have hline : Meets true ({ source := "\"a\\u00e9\" ".toList } :
      GraphQlScanner).setTokenStartPosition { source := "\"a\\u00e9\" ".toList } :=
    .here (by decide) (by decide)
  have hblock : Meets true ({ source := "\"\"\"\na\"\"\"".toList } :
      GraphQlScanner).setTokenStartPosition { source := "\"\"\"\na\"\"\"".toList } :=
    .here (by decide) (by decide)
  exact ⟨(stringTaken_iff_endsInside hline (by decide)).2 (by decide),
    (stringTaken_iff_endsInside hblock (by decide)).2 (by decide)⟩

/-- A string without its closing quote is taken for a string, a character of a block string is lost,
and the scanner ends behind the source. -/
theorem not_stringTaken_of_open_string :
    ¬ StringTaken ({ source := "\"a".toList } : GraphQlScanner).incrementPosition
        (({ source := "\"a".toList } : GraphQlScanner).takeNextToken false true) ∧
      ¬ StringTaken ({ source := "\"\"\"\x07\"\"\"".toList } : GraphQlScanner).incrementPosition
        (({ source := "\"\"\"\x07\"\"\"".toList } : GraphQlScanner).takeNextToken false true) ∧
      ¬ StringTaken ({ source := "\"\"\"a".toList } : GraphQlScanner).incrementPosition
        (({ source := "\"\"\"a".toList } : GraphQlScanner).takeNextToken false true) := by
  refine ⟨fun h => ?_, fun h => ?_, fun h => ?_⟩
  · have hends := (stringTaken_line_iff (by decide)).1 h
    exact absurd hends (by decide)
  · have hends := (stringTaken_block_iff (by decide)).1 h
    exact absurd hends (by decide)
  · have hends := (stringTaken_block_iff (by decide)).1 h
    exact absurd hends (by decide)

end GraphQlScanner

end Flashpoint
