import Mathlib.Data.List.Find
import Flashpoint.Server.HttpGrammar

/-!
# Header lines

What `scan_header` makes of a header line that a client may send: which header it takes the name for
(`recognises_iff`), and which value it extracts (`extracts_iff`). The names in its table are those of
the headers, but for some that have a capital letter or a digit in them, which no name that was scanned
and lower-cased has. Of the values it takes those without a word of a single character between two
blanks.
-/

namespace Flashpoint

namespace HttpReading

open Library HttpScanner HttpParser

/-! ## Values -/

/-- Visible characters with blanks between them, or nothing. -/
structure IsHeaderValue (value : Bytes) : Prop where
  chars : ∀ ch ∈ value, isVchar ch || isBlank ch
  first : ∀ ch ∈ value.head?, isVchar ch
  last : ∀ ch ∈ value.getLast?, isVchar ch

instance (value : Bytes) : Decidable (IsHeaderValue value) :=
  decidable_of_iff (value.all (fun ch => isVchar ch || isBlank ch) ∧ value.head?.all isVchar ∧
    value.getLast?.all isVchar) (by
      simp only [List.all_eq_true, Option.all_eq_true]
      exact ⟨fun h => ⟨h.1, h.2.1, h.2.2⟩, fun h => ⟨h.1, h.2, h.3⟩⟩)

/-- A word of a single character stands between two blanks. -/
def hasSingleWord : Bytes → Bool
  | a :: b :: c :: rest =>
    (isBlank a && !isBlank b && isBlank c) || hasSingleWord (b :: c :: rest)
  | _ => false

/-- The last word is a single character, and not the only word. -/
def endsWithSingleWord : Bytes → Bool
  | [a, _] => isBlank a
  | _ :: rest => endsWithSingleWord rest
  | [] => false

theorem hasSingleWord_cons {ch : UInt8} (hch : isBlank ch = false) (rest : Bytes) :
    hasSingleWord (ch :: rest) = hasSingleWord rest := by
  match rest with
  | [] => rfl
  | [_] => rfl
  | b :: c :: rest => simp [hasSingleWord, hch]

theorem hasSingleWord_blanks {blanks : Bytes} (hne : blanks ≠ []) (hblanks : ∀ ch ∈ blanks, isBlank ch)
    {second : UInt8} (hsecond : isBlank second = false) (rest : Bytes) :
    hasSingleWord (blanks ++ second :: rest) = (rest.head?.any isBlank || hasSingleWord rest) := by
  induction blanks with
  | nil => exact absurd rfl hne
  | cons blank blanks ih =>
    have hblank : isBlank blank = true := hblanks blank (List.mem_cons_self ..)
    cases blanks with
    | nil =>
      cases rest with
      | nil => rfl
      | cons next rest =>
        rw [List.singleton_append, hasSingleWord, hasSingleWord_cons hsecond]
        simp [hblank, hsecond]
    | cons next blanks =>
      have hnext : isBlank next = true :=
        hblanks next (List.mem_cons_of_mem _ (List.mem_cons_self ..))
      rw [← ih (List.cons_ne_nil _ _) fun ch hch => hblanks ch (List.mem_cons_of_mem _ hch)]
      cases blanks with
      | nil => simp [hasSingleWord, hnext]
      | cons third blanks => simp [hasSingleWord, hnext]

theorem endsWithSingleWord_cons {ch : UInt8} (hch : isBlank ch = false) (rest : Bytes) :
    endsWithSingleWord (ch :: rest) = endsWithSingleWord rest := by
  match rest with
  | [] => rfl
  | [_] => simp [endsWithSingleWord, hch]
  | _ :: _ :: _ => rfl

theorem endsWithSingleWord_blanks {blanks : Bytes} (hne : blanks ≠ [])
    (hblanks : ∀ ch ∈ blanks, isBlank ch) {second : UInt8} (hsecond : isBlank second = false)
    (rest : Bytes) :
    endsWithSingleWord (blanks ++ second :: rest) = (rest.isEmpty || endsWithSingleWord rest) := by
  induction blanks with
  | nil => exact absurd rfl hne
  | cons blank blanks ih =>
    cases blanks with
    | nil =>
      cases rest with
      | nil => simp [endsWithSingleWord, hblanks]
      | cons next rest =>
        rw [List.singleton_append, endsWithSingleWord, endsWithSingleWord_cons hsecond]
        · rfl
        · simp
    | cons next blanks =>
      rw [← ih (List.cons_ne_nil _ _) fun ch hch => hblanks ch (List.mem_cons_of_mem _ hch)]
      cases blanks <;> rfl

theorem not_isFieldValue_of_blank {trailing : Bool} {ch : UInt8} {rest : Bytes}
    (hch : isBlank ch = true) : ¬ IsFieldValue trailing (ch :: rest) := by
  intro h
  have hvisible : isVchar ch = true := by
    cases h with
    | single hch => exact hch
    | pair hfirst => exact hfirst
  rw [isBlank_eq_false_of_isVchar hvisible] at hch
  cases hch

/-- A character that no blank follows stands alone. -/
theorem isFieldValue_single {trailing : Bool} {ch : UInt8} {rest : Bytes} (hch : isVchar ch)
    (hrest : rest.head?.any isBlank = false) :
    IsFieldValue trailing (ch :: rest) ↔
      (rest = [] → trailing = false) ∧ IsFieldValue trailing rest := by
  constructor
  · intro h
    cases h with
    | single _ hlast h => exact ⟨hlast, h⟩
    | @pair _ second blanks rest _ _ hne hblanks _ =>
      obtain ⟨blank, blanks, rfl⟩ := List.exists_cons_of_ne_nil hne
      rw [List.cons_append, List.head?_cons, Option.any_some,
        hblanks blank (List.mem_cons_self ..)] at hrest
      cases hrest
  · rintro ⟨hlast, h⟩
    exact .single hch hlast h

/-- A character that blanks follow is the first of a pair. -/
theorem isFieldValue_pair {trailing : Bool} {first second : UInt8} {blanks rest : Bytes}
    (hfirst : isVchar first) (hsecond : isVchar second) (hne : blanks ≠ [])
    (hblanks : ∀ ch ∈ blanks, isBlank ch) :
    IsFieldValue trailing (first :: (blanks ++ second :: rest)) ↔ IsFieldValue trailing rest := by
  have hdrop : ∀ {blanks rest : Bytes} {second : UInt8}, (∀ ch ∈ blanks, isBlank ch) →
      isVchar second → (blanks ++ second :: rest).dropWhile isBlank = second :: rest := by
    intro blanks rest second hblanks hsecond
    rw [List.dropWhile_append_of_pos hblanks, List.dropWhile_cons_of_neg]
    simp [isBlank_eq_false_of_isVchar hsecond]
  constructor
  · intro h
    generalize hall : blanks ++ second :: rest = all at h
    cases h with
    | single _ _ h =>
      obtain ⟨blank, blanks, rfl⟩ := List.exists_cons_of_ne_nil hne
      rw [← hall] at h
      exact absurd h (not_isFieldValue_of_blank (hblanks blank (List.mem_cons_self ..)))
    | pair _ hsecond' _ hblanks' h =>
      have heq := congrArg (List.dropWhile isBlank) hall
      rw [hdrop hblanks hsecond, hdrop hblanks' hsecond'] at heq
      cases heq
      exact h
  · exact .pair hfirst hsecond hne hblanks

theorem IsHeaderValue.visible {value : Bytes} (h : IsHeaderValue value) {ch : UInt8}
    (hmem : ch ∈ value) (hch : isBlank ch = false) : isVchar ch = true := by
  have hchar := h.chars ch hmem
  rwa [hch, Bool.or_false] at hchar

/-- What is left of a value that does not start with a blank. -/
theorem IsHeaderValue.suffix {b rest : Bytes} (h : IsHeaderValue (b ++ rest))
    (hrest : rest.head?.any isBlank = false) : IsHeaderValue rest where
  chars ch hch := h.chars ch (List.mem_append_right _ hch)
  first := by
    intro ch hch
    have hmem : ch ∈ b ++ rest := List.mem_append_right _ (List.mem_of_mem_head? hch)
    rw [Option.mem_def] at hch
    rw [hch] at hrest
    exact h.visible hmem hrest
  last := by
    intro ch hch
    apply h.last
    rw [Option.mem_def] at hch ⊢
    rw [List.getLast?_append, hch, Option.some_or]

/-- The blanks behind a character end at another one. -/
theorem IsHeaderValue.split {ch : UInt8} {rest : Bytes} (h : IsHeaderValue (ch :: rest))
    (hrest : rest.head?.any isBlank = true) :
    ∃ blanks second rest', rest = blanks ++ second :: rest' ∧ blanks ≠ [] ∧
      (∀ ch ∈ blanks, isBlank ch) ∧ isVchar second = true := by
  have hsplit := List.takeWhile_append_dropWhile (p := isBlank) (l := rest)
  have hblanks : ∀ ch ∈ rest.takeWhile isBlank, isBlank ch = true :=
    fun ch hch => List.mem_takeWhile_imp hch
  have hne : rest.takeWhile isBlank ≠ [] := by
    cases rest with
    | nil => cases hrest
    | cons blank rest =>
      rw [List.head?_cons, Option.any_some] at hrest
      rw [List.takeWhile_cons_of_pos hrest]
      exact List.cons_ne_nil _ _
  have hdrop := List.head?_dropWhile_not isBlank rest
  cases hcases : rest.dropWhile isBlank with
  | nil =>
    -- the last character of the value is a blank
    rw [hcases, List.append_nil] at hsplit
    obtain ⟨last, hlast⟩ := Option.isSome_iff_exists.1 (List.getLast?_isSome.2 hne)
    have hblank : isBlank last = true := hblanks last (List.mem_of_getLast? hlast)
    have hvisible : isVchar last = true := by
      apply h.last
      rw [hsplit] at hlast
      rw [Option.mem_def, List.getLast?_cons, hlast]
      rfl
    rw [isBlank_eq_false_of_isVchar hvisible] at hblank
    cases hblank
  | cons second rest' =>
    rw [hcases] at hsplit hdrop
    refine ⟨_, second, rest', hsplit.symm, hne, hblanks, ?_⟩
    apply h.visible
    · rw [← hsplit]
      simp
    · simpa using hdrop

/-- **The values that are read are those without a single character between two blanks; a space
behind the value is passed over only behind a last word of one character.** -/
theorem isFieldValue_iff {trailing : Bool} {value : Bytes} (h : IsHeaderValue value) :
    IsFieldValue trailing value ↔ hasSingleWord value = false ∧
      (trailing = true → value = [] ∨ endsWithSingleWord value = true) := by
  match value with
  | [] => exact iff_of_true .nil ⟨rfl, fun _ => .inl rfl⟩
  | ch :: rest =>
    have hch : isVchar ch = true := h.first ch rfl
    have hblank := isBlank_eq_false_of_isVchar hch
    rw [hasSingleWord_cons hblank, endsWithSingleWord_cons hblank]
    by_cases hrest : rest.head?.any isBlank = true
    · obtain ⟨blanks, second, rest, rfl, hne, hblanks, hsecond⟩ := h.split hrest
      have hsecond' := isBlank_eq_false_of_isVchar hsecond
      rw [isFieldValue_pair hch hsecond hne hblanks, hasSingleWord_blanks hne hblanks hsecond',
        endsWithSingleWord_blanks hne hblanks hsecond']
      cases hnext : rest.head?.any isBlank with
      | true =>
        obtain ⟨next, rest, rfl⟩ : ∃ next rest', rest = next :: rest' := by
          cases rest with
          | nil => cases hnext
          | cons next rest => exact ⟨next, rest, rfl⟩
        refine iff_of_false (not_isFieldValue_of_blank hnext) fun h => ?_
        rw [Bool.true_or] at h
        cases h.1
      | false =>
        have hvalue : IsHeaderValue rest := by
          apply IsHeaderValue.suffix (b := ch :: (blanks ++ [second])) _ hnext
          simpa using h
        rw [isFieldValue_iff hvalue]
        simp [List.isEmpty_iff]
    · rw [Bool.not_eq_true] at hrest
      rw [isFieldValue_single hch hrest, isFieldValue_iff (h.suffix (b := [ch]) hrest)]
      cases trailing with
      | false => simp
      | true => cases rest <;> simp [endsWithSingleWord]
termination_by value.length

/-! ## A line -/

/-- The line of a header, with the space behind the colon and the one behind the value or without. -/
def lineOf (name : Bytes) (leading : Bool) (value : Bytes) (trailing : Bool) : Bytes :=
  name ++ colon :: (spaceIf leading ++ (value ++ (spaceIf trailing ++ crlf)))

/-- A name that `scan_header` reads to its end, and that can be copied. -/
structure IsScannedName (name : Bytes) : Prop where
  start : ∀ ch ∈ name.head?, isHeaderFieldStart ch
  part : ∀ ch ∈ name, isHeaderFieldPart ch
  fits : name.length + 1 < 2 ^ 31

instance (name : Bytes) : Decidable (IsScannedName name) :=
  decidable_of_iff (name.head?.all isHeaderFieldStart ∧ name.all isHeaderFieldPart ∧
    name.length + 1 < 2 ^ 31) (by
      simp only [List.all_eq_true, Option.all_eq_true]
      exact ⟨fun h => ⟨h.1, h.2.1, h.2.2⟩, fun h => ⟨h.1, h.2, h.3⟩⟩)

theorem IsFieldValue.last {trailing : Bool} {value : Bytes} (h : IsFieldValue trailing value) :
    ∀ ch ∈ value.getLast?, isVchar ch := by
  induction h with
  | nil => simp
  | @single ch rest hch _ _ ih =>
    intro last hlast
    rw [Option.mem_def, List.getLast?_cons] at hlast
    cases hrest : rest.getLast? with
    | none =>
      rw [hrest] at hlast
      cases hlast
      exact hch
    | some c =>
      rw [hrest] at hlast
      cases hlast
      exact ih _ hrest
  | @pair first second blanks rest _ hsecond _ _ _ ih =>
    intro last hlast
    rw [← List.cons_append, Option.mem_def, List.getLast?_append, List.getLast?_cons] at hlast
    cases hrest : rest.getLast? with
    | none =>
      rw [hrest] at hlast
      cases hlast
      exact hsecond
    | some c =>
      rw [hrest] at hlast
      cases hlast
      exact ih _ hrest

/-- Where a text does not end with a blank, a space behind it is not part of it. -/
theorem append_spaceIf_inj {value value' : Bytes} {trailing trailing' : Bool}
    (h : ∀ ch ∈ value.getLast?, isVchar ch) (h' : ∀ ch ∈ value'.getLast?, isVchar ch)
    (heq : value ++ spaceIf trailing = value' ++ spaceIf trailing') :
    value = value' ∧ trailing = trailing' := by
  have hends : ∀ {v v' : Bytes}, (∀ ch ∈ v.getLast?, isVchar ch) → v ≠ v' ++ [space] := by
    rintro _ v' hv rfl
    have hspace := hv space (by simp)
    exact absurd hspace (by decide)
  cases trailing <;> cases trailing' <;> simp only [spaceIf, if_true, Bool.false_eq_true, if_false,
    List.append_nil, List.append_cancel_right_eq] at heq
  · exact ⟨heq, rfl⟩
  · exact absurd heq (hends h)
  · exact absurd heq.symm (hends h')
  · exact ⟨heq, rfl⟩

/-- A text starts with a space if the space behind the colon is there, and only then. -/
theorem spaceIf_append_inj {leading leading' : Bool} {rest rest' : Bytes}
    (h : leading = false → rest.head? ≠ some space)
    (h' : leading' = false → rest'.head? ≠ some space)
    (heq : spaceIf leading ++ rest = spaceIf leading' ++ rest') : leading = leading' ∧ rest = rest' := by
  cases leading <;> cases leading' <;> simp only [spaceIf, if_true, Bool.false_eq_true, if_false,
    List.nil_append, List.singleton_append] at heq
  · exact ⟨rfl, heq⟩
  · exact absurd (by rw [heq, List.head?_cons]) (h rfl)
  · exact absurd (by rw [← heq, List.head?_cons]) (h' rfl)
  · exact ⟨rfl, (List.cons.inj heq).2⟩

theorem head?_ne_space {value : Bytes} {leading trailing : Bool}
    (h : ∀ ch ∈ value.head?, isVchar ch) (hleading : leading = false → value = [] → trailing = false) :
    leading = false → (value ++ spaceIf trailing).head? ≠ some space := by
  intro hfalse
  cases value with
  | nil =>
    rw [hleading hfalse rfl]
    exact nofun
  | cons ch rest =>
    intro hspace
    cases hspace
    exact absurd (h space rfl) (by decide)

theorem IsFieldValue.first {trailing : Bool} {value : Bytes} (h : IsFieldValue trailing value) :
    ∀ ch ∈ value.head?, isVchar ch := by
  intro ch hch
  cases h with
  | nil => cases hch
  | single hfirst =>
    cases hch
    exact hfirst
  | pair hfirst =>
    cases hch
    exact hfirst

/-- What is read of the rest of a line. -/
theorem readHeaderRest_value {leading trailing : Bool} {value : Bytes} (more : Bytes)
    (hvalue : IsHeaderValue value) (hleading : leading = false → value = [] → trailing = false) :
    Fits value ∧ IsFieldValue trailing value ∧
        readHeaderRest (colon :: (spaceIf leading ++ (value ++ spaceIf trailing) ++ (crlf ++ more))) =
          .done (copied value) more ∨
      ¬ (Fits value ∧ IsFieldValue trailing value) ∧
        readHeaderRest (colon :: (spaceIf leading ++ (value ++ spaceIf trailing) ++ (crlf ++ more))) =
          .rejected := by
  have htext : ∀ ch ∈ spaceIf leading ++ (value ++ spaceIf trailing), isFieldChar ch = true := by
    have hspace : ∀ b, ∀ ch ∈ spaceIf b, isFieldChar ch = true := by
      intro b
      cases b <;> exact List.all_eq_true.1 rfl
    intro ch hmem
    simp only [List.mem_append] at hmem
    rcases hmem with hmem | hmem | hmem
    · exact hspace _ ch hmem
    · simp [isFieldChar, hvalue.chars ch hmem]
    · exact hspace _ ch hmem
  rcases readHeaderRest_line htext more with hrejected | ⟨leading', value', trailing', heq, hfield, hfits,
    hfirst, hread⟩
  · refine .inr ⟨?_, hrejected⟩
    rintro ⟨hfits, hfield⟩
    have hread := (HeaderLine.mk [0x61] leading value trailing ⟨_, _, rfl, rfl⟩
      (List.all_eq_true.1 rfl) (by decide) hfield hfits hleading).readHeaderRest_append more
    rw [HeaderLine.text, hrejected] at hread
    cases hread
  · obtain ⟨rfl, hrest⟩ := spaceIf_append_inj (head?_ne_space hvalue.first hleading)
      (head?_ne_space hfield.first hfirst) heq
    obtain ⟨rfl, rfl⟩ := append_spaceIf_inj hvalue.last hfield.last hrest
    exact .inl ⟨hfits, hfield, hread⟩

/-- What is read of a line. -/
theorem readHeader_lineOf {name : Bytes} (hne : name ≠ []) (hname : ∀ ch ∈ name, isTchar ch)
    {leading trailing : Bool} {value : Bytes} (more : Bytes) (hvalue : IsHeaderValue value)
    (hleading : leading = false → value = [] → trailing = false) :
    IsScannedName name ∧ Fits value ∧ IsFieldValue trailing value ∧
        readHeader (lineOf name leading value trailing ++ more) =
          .done (some (getHeader (name.map toLower), copied value)) more ∨
      ¬ (IsScannedName name ∧ Fits value ∧ IsFieldValue trailing value) ∧
        readHeader (lineOf name leading value trailing ++ more) = .rejected := by
  have hassoc : lineOf name leading value trailing ++ more =
      name ++ colon :: (spaceIf leading ++ (value ++ spaceIf trailing) ++ (crlf ++ more)) := by
    simp [lineOf]
  obtain ⟨ch, rest, hcons⟩ := List.exists_cons_of_ne_nil hne
  have hstart : (∃ ch rest, name = ch :: rest ∧ isHeaderFieldStart ch) ↔
      ∀ ch ∈ name.head?, isHeaderFieldStart ch := by
    subst hcons
    simp
  rw [hassoc]
  by_cases hgood : (∃ ch rest, name = ch :: rest ∧ isHeaderFieldStart ch) ∧
      ∀ ch ∈ name, isHeaderFieldPart ch
  swap
  · refine .inr ⟨fun h => hgood ⟨hstart.2 h.1.start, h.1.part⟩, ?_⟩
    exact readHeader_eq_rejected hne hname hgood
  rw [readHeader_name hgood.1 hgood.2]
  by_cases hlt : name.length + 1 < 2 ^ 31
  swap
  · exact .inr ⟨fun h => hlt h.1.fits, if_neg hlt⟩
  have hscanned : IsScannedName name := ⟨hstart.1 hgood.1, hgood.2, hlt⟩
  rw [if_pos hlt]
  rcases readHeaderRest_value more hvalue hleading with ⟨hfits, hfield, hread⟩ | ⟨hnot, hread⟩
  · rw [hread]
    exact .inl ⟨hscanned, hfits, hfield, rfl⟩
  · rw [hread]
    exact .inr ⟨fun h => hnot h.2, rfl⟩

section

variable {text : Text} {start : Nat} {s : HttpScanner} {name value more : Bytes}
  {leading trailing : Bool}

/-- What `scan_header` does at a line: it takes the line with its name and value, or it throws. -/
theorem scanHeader_lineOf (hne : name ≠ []) (hname : ∀ ch ∈ name, isTchar ch)
    (hvalue : IsHeaderValue value) (h : At text start (lineOf name leading value trailing ++ more) s)
    (hleading : leading = false → value = [] → trailing = false) :
    IsScannedName name ∧ Fits value ∧ IsFieldValue trailing value ∧
        (∃ s', (scanHeader text).run s = .ok (getHeader (name.map toLower)) s' ∧
          s'.currentHeader = copied value ∧
          s'.position = s.position + (lineOf name leading value trailing).length) ∨
      ¬ (IsScannedName name ∧ Fits value ∧ IsFieldValue trailing value) ∧
        ∀ header s', (scanHeader text).run s ≠ .ok header s' := by
  have hmatches := matches_scanHeader h
  rcases readHeader_lineOf hne hname more hvalue hleading with ⟨hscanned, hfits, hfield, hread⟩ |
    ⟨hnot, hread⟩
  · rw [hread] at hmatches
    refine .inl ⟨hscanned, hfits, hfield, ?_⟩
    cases hmatches with
    | done ho hs' =>
      obtain ⟨⟨rfl, -, hcurrent⟩, start', h'⟩ := hs'
      refine ⟨_, ho, hcurrent, ?_⟩
      have hlength := h.length
      have hlength' := h'.length
      rw [List.length_append] at hlength
      omega
  · rw [hread] at hmatches
    refine .inr ⟨hnot, fun header s' hrun => ?_⟩
    cases hmatches with
    | rejected hvalue =>
      rw [hrun] at hvalue
      cases hvalue

/-! ## Which header -/

/-- The header of a name, in whatever case it is written. -/
def headerNamed (name : Bytes) : HttpHeader :=
  (stringToToken.find? fun entry =>
    (HttpServer.bytesOf entry.1).map toLower = name.map toLower).elim .unknown Prod.snd

/-- The names in lower case of the headers that have a capital letter in the table. -/
def capitalNames : List Bytes :=
  ["sec-websocket-accept", "sec-websocket-extensions", "sec-websocket-key",
    "sec-websocket-protocol", "sec-websocket-version"].map HttpServer.bytesOf

theorem toLower_toLower (ch : UInt8) : toLower (toLower ch) = toLower ch := by
  by_cases hupper : 0x41 ≤ ch ∧ ch ≤ 0x5A
  · have hlower : toLower ch = ch + 0x20 := if_pos hupper
    rw [hlower]
    refine if_neg fun hagain => ?_
    have hlow := UInt8.le_iff_toNat_le.1 hupper.1
    have hhigh := UInt8.le_iff_toNat_le.1 hupper.2
    have hagain := UInt8.le_iff_toNat_le.1 hagain.2
    rw [UInt8.toNat_add] at hagain
    simp at hlow hhigh hagain
    omega
  · have hsame : toLower ch = ch := if_neg hupper
    rw [hsame, hsame]

/-- A name in the table is in lower case, or one of those with a capital letter. -/
theorem key_cases : ∀ entry ∈ stringToToken,
    (HttpServer.bytesOf entry.1).map toLower = HttpServer.bytesOf entry.1 ∨
      (HttpServer.bytesOf entry.1).map toLower ∈ capitalNames := by
  decide +kernel

/-- The names with a capital letter are in the table, and not in lower case. -/
theorem capitalNames_spec : ∀ lower ∈ capitalNames, getHeader lower = .unknown ∧
    (stringToToken.find? fun entry => (HttpServer.bytesOf entry.1).map toLower = lower).any
      (·.2 ≠ .unknown) = true := by
  decide +kernel

theorem getHeader_eq_elim (name : Bytes) : getHeader name =
    (stringToToken.find? fun entry => HttpServer.bytesOf entry.1 = name).elim .unknown Prod.snd := by
  unfold getHeader
  cases stringToToken.find? fun entry => HttpServer.bytesOf entry.1 = name with
  | none => rfl
  | some entry => rfl

/-- The table has a lower-cased name as it is, or it is one of the names with a capital letter. -/
theorem getHeader_eq_headerNamed_iff (name : Bytes) :
    getHeader (name.map toLower) = headerNamed name ↔ name.map toLower ∉ capitalNames := by
  have hlower : (name.map toLower).map toLower = name.map toLower := by
    simp [Function.comp_def, toLower_toLower]
  unfold headerNamed
  generalize name.map toLower = lower at *
  constructor
  · intro heq hmem
    obtain ⟨hunknown, hany⟩ := capitalNames_spec lower hmem
    rw [hunknown] at heq
    revert heq hany
    cases stringToToken.find? fun entry => (HttpServer.bytesOf entry.1).map toLower = lower with
    | none => exact fun _ hany => absurd hany (by decide)
    | some entry =>
      intro heq hany
      rw [Option.any_some, decide_eq_true_eq] at hany
      exact hany heq.symm
  · intro hmem
    rw [getHeader_eq_elim]
    refine congrArg (Option.elim · HttpHeader.unknown Prod.snd) (List.find?_congr fun entry hentry => ?_)
    apply decide_eq_decide.2
    rcases key_cases entry hentry with hsame | hcapital
    · rw [hsame]
    · refine iff_of_false ?_ ?_
      · rintro rfl
        rw [hlower] at hcapital
        exact hmem hcapital
      · rintro rfl
        exact hmem hcapital

/-- The line is taken for the header of its name. -/
def Recognises (text : Text) (s : HttpScanner) (name : Bytes) : Prop :=
  ∃ s', (scanHeader text).run s = .ok (headerNamed name) s'

/-- **A line with a visible value is taken for the header of its name exactly if the name consists of
letters and dashes, is not one of those with a capital letter in the table, and name and value can be
copied.** -/
theorem recognises_iff (hne : name ≠ []) (hname : ∀ ch ∈ name, isTchar ch)
    (hvalue : ∀ ch ∈ value, isVchar ch) (h : At text start (lineOf name true value false ++ more) s) :
    Recognises text s name ↔
      IsScannedName name ∧ name.map toLower ∉ capitalNames ∧ Fits value := by
  have hfield : IsFieldValue false value := by
    clear h
    induction value with
    | nil => exact .nil
    | cons ch rest ih =>
      rw [List.forall_mem_cons] at hvalue
      exact .single hvalue.1 (fun _ => rfl) (ih hvalue.2)
  have hheader : IsHeaderValue value := {
    chars ch hch := by rw [hvalue ch hch, Bool.true_or]
    first ch hch := hvalue ch (List.mem_of_mem_head? hch)
    last ch hch := hvalue ch (List.mem_of_mem_getLast? hch) }
  rw [← getHeader_eq_headerNamed_iff]
  rcases scanHeader_lineOf hne hname hheader h nofun with
    ⟨hscanned, hfits, -, s', hrun, -⟩ | ⟨hnot, hrun⟩
  · constructor
    · rintro ⟨s'', hrun'⟩
      rw [hrun] at hrun'
      exact ⟨hscanned, (Outcome.ok.inj hrun').1, hfits⟩
    · rintro ⟨-, heq, -⟩
      exact ⟨s', by rw [hrun, heq]⟩
  · constructor
    · rintro ⟨s', hrun'⟩
      exact absurd hrun' (hrun _ _)
    · rintro ⟨hscanned, -, hfits⟩
      exact absurd ⟨hscanned, hfits, hfield⟩ hnot

/-! ## Which value -/

/-- The line is taken, with the value in the scanner and the position right behind the line. -/
def Extracts (text : Text) (s : HttpScanner) (line value : Bytes) : Prop :=
  ∃ header s', (scanHeader text).run s = .ok header s' ∧ s'.currentHeader = value ∧
    s'.position = s.position + line.length

theorem extracts_iff_isFieldValue (hne : name ≠ []) (hname : ∀ ch ∈ name, isTchar ch)
    (hvalue : IsHeaderValue value)
    (h : At text start (lineOf name leading value trailing ++ more) s)
    (hleading : leading = false → value = [] → trailing = false) :
    Extracts text s (lineOf name leading value trailing) value ↔
      IsScannedName name ∧ value.length + 1 < 2 ^ 31 ∧ IsFieldValue trailing value := by
  rcases scanHeader_lineOf hne hname hvalue h hleading with
    ⟨hscanned, hfits, hfield, s', hrun, hcurrent, hposition⟩ | ⟨hnot, hrun⟩
  · constructor
    · rintro ⟨header, s'', hrun', hcurrent', -⟩
      rw [hrun] at hrun'
      obtain ⟨-, rfl⟩ := Outcome.ok.inj hrun'
      exact ⟨hscanned, lt_of_copied_eq hfits (hcurrent.symm.trans hcurrent'), hfield⟩
    · rintro ⟨-, hlt, -⟩
      exact ⟨_, s', hrun, by rw [hcurrent, (fits_of_lt hlt).2], hposition⟩
  · constructor
    · rintro ⟨header, s', hrun', -⟩
      exact absurd hrun' (hrun _ _)
    · rintro ⟨hscanned, hlt, hfield⟩
      exact absurd ⟨hscanned, (fits_of_lt hlt).1, hfield⟩ hnot

/-- **The value of a line is extracted exactly if the name consists of letters and dashes, no word of
the value is a single character between two blanks, a space behind the value stands only behind a last
word of one character, and name and value can be copied.** -/
theorem extracts_iff (hne : name ≠ []) (hname : ∀ ch ∈ name, isTchar ch)
    (hvalue : IsHeaderValue value)
    (h : At text start (lineOf name leading value trailing ++ more) s) :
    Extracts text s (lineOf name leading value trailing) value ↔
      IsScannedName name ∧ value.length + 1 < 2 ^ 31 ∧ hasSingleWord value = false ∧
        (trailing = true → value = [] ∨ endsWithSingleWord value = true) := by
  rw [← isFieldValue_iff hvalue]
  by_cases hleading : leading = false → value = [] → trailing = false
  · exact extracts_iff_isFieldValue hne hname hvalue h hleading
  · -- an empty value with one space beside it has that space behind the colon
    obtain ⟨rfl, rfl, rfl⟩ : leading = false ∧ value = [] ∧ trailing = true := by
      simpa [Classical.not_imp] using hleading
    have hline : lineOf name false [] true = lineOf name true [] false := rfl
    rw [hline] at h ⊢
    rw [extracts_iff_isFieldValue hne hname hvalue h fun _ _ => rfl]
    refine and_congr_right' (and_congr_right' (iff_of_true .nil .nil))

end

/-- A name in capital and small letters. -/
theorem recognises_of_letters :
    Recognises ⟨HttpServer.bytesOf "CONTENT-length: 12\r\n", fun _ => 0⟩ {}
      (HttpServer.bytesOf "CONTENT-length") := by
  have h : At ⟨HttpServer.bytesOf "CONTENT-length: 12\r\n", fun _ => 0⟩ 0
      (lineOf (HttpServer.bytesOf "CONTENT-length") true (HttpServer.bytesOf "12") false ++ []) {} :=
    at_start _
  exact (recognises_iff (by decide) (by decide +kernel) (by decide +kernel) h).2 (by decide +kernel)

/-- The table has a capital letter in the first name, and the digit in the second ends the scan of the
name. -/
theorem not_recognises_of_capital :
    ¬ Recognises ⟨HttpServer.bytesOf "Sec-WebSocket-Key: x\r\n", fun _ => 0⟩ {}
        (HttpServer.bytesOf "Sec-WebSocket-Key") ∧
      ¬ Recognises ⟨HttpServer.bytesOf "HTTP2-Settings: x\r\n", fun _ => 0⟩ {}
        (HttpServer.bytesOf "HTTP2-Settings") := by
  constructor
  · rintro ⟨s', hrun⟩
    exact absurd (show _ = some (headerNamed _) from congrArg Outcome.value? hrun)
      (by decide +kernel)
  · rintro ⟨s', hrun⟩
    exact absurd (show _ = some (headerNamed _) from congrArg Outcome.value? hrun)
      (by decide +kernel)

/-- A word of two characters between two of one, and a space behind the last. -/
theorem extracts_of_words :
    Extracts ⟨HttpServer.bytesOf "Via: a bc  d \r\n\r\n", fun _ => 0⟩ {}
      (HttpServer.bytesOf "Via: a bc  d \r\n") (HttpServer.bytesOf "a bc  d") := by
  have h : At ⟨HttpServer.bytesOf "Via: a bc  d \r\n\r\n", fun _ => 0⟩ 0
      (lineOf (HttpServer.bytesOf "Via") true (HttpServer.bytesOf "a bc  d") true ++ crlf) {} :=
    at_start _
  exact (extracts_iff (by decide) (by decide +kernel) (by decide +kernel) h).2 (by decide +kernel)

/-- A word of one character between two others, and a space behind a word of two. -/
theorem not_extracts_of_single_word :
    ¬ Extracts ⟨HttpServer.bytesOf "Via: a b c\r\n", fun _ => 0⟩ {}
        (HttpServer.bytesOf "Via: a b c\r\n") (HttpServer.bytesOf "a b c") ∧
      ¬ Extracts ⟨HttpServer.bytesOf "Via: ab \r\n", fun _ => 0⟩ {}
        (HttpServer.bytesOf "Via: ab \r\n") (HttpServer.bytesOf "ab") := by
  constructor
  · rintro ⟨header, s', hrun, -⟩
    exact absurd (show _ = true from congrArg (Option.isSome ∘ Outcome.value?) hrun)
      (by decide +kernel)
  · rintro ⟨header, s', hrun, -⟩
    exact absurd (show _ = true from congrArg (Option.isSome ∘ Outcome.value?) hrun)
      (by decide +kernel)

end HttpReading

end Flashpoint
