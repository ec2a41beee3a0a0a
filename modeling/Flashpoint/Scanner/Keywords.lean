import Flashpoint.Scanner.Token

/-!
# Keywords and directive locations are recognised by their spelling

The two recognisers are decision trees over the length and single characters of a name. The tree
of the keywords compares every character. The tree of the locations does not look at the second
character of `SCHEMA` and of `SCALAR`, so it also takes a name that differs from them there.
-/

namespace Flashpoint

/-- The keywords the scanner knows and how each is spelled. -/
def keywordToString : GraphQlToken → Option Ustring
  | .queryKeyword => some "query".toList
  | .mutationKeyword => some "mutation".toList
  | .subscriptionKeyword => some "subscription".toList
  | .fragmentKeyword => some "fragment".toList
  | .onKeyword => some "on".toList
  | .typeKeyword => some "type".toList
  | .inputKeyword => some "input".toList
  | .interfaceKeyword => some "interface".toList
  | .enumKeyword => some "enum".toList
  | .unionKeyword => some "union".toList
  | .schemaKeyword => some "schema".toList
  | .directiveKeyword => some "directive".toList
  | .implementsKeyword => some "implements".toList
  | .trueKeyword => some "true".toList
  | .falseKeyword => some "false".toList
  | .nullKeyword => some "null".toList
  | .intKeyword => some "Int".toList
  | .floatKeyword => some "Float".toList
  | .stringKeyword => some "String".toList
  | .booleanKeyword => some "Boolean".toList
  | .idKeyword => some "ID".toList
  | _ => none

/-! ## Spelling out what a branch has compared -/

theorem eq_of_tailIs_zero {s t : Ustring} (h : tailIs s 0 t = true) : s = t := by
  simpa [tailIs] using h

theorem eq_cons_of_tailIs {s t : Ustring} {a : Char} (hs : s.length = t.length + 1)
    (ha : charAt s 0 = a) (h : tailIs s 1 t = true) : s = a :: t := by
  cases s with
  | nil => cases hs
  | cons b s =>
    have hb : b = a := ha
    have ht : s = t := eq_of_tailIs_zero h
    rw [hb, ht]

theorem eq_cons_cons_of_tailIs {s t : Ustring} {a b : Char} (hs : s.length = t.length + 2)
    (ha : charAt s 0 = a) (hb : charAt s 1 = b) (h : tailIs s 2 t = true) : s = a :: b :: t := by
  cases s with
  | nil => cases hs
  | cons c s =>
    have hc : c = a := ha
    have ht : s = b :: t := eq_cons_of_tailIs (by simpa using hs) hb h
    rw [hc, ht]

/-- A branch that leaves the second character out says everything but that character. -/
theorem eq_cons_any_of_tailIs {s t : Ustring} {a b : Char} (hs : s.length = t.length + 3)
    (ha : charAt s 0 = a) (hb : charAt s 2 = b) (h : tailIs s 3 t = true) :
    ∃ c, s = a :: c :: b :: t := by
  cases s with
  | nil => cases hs
  | cons d s =>
    cases s with
    | nil => cases hs
    | cons c s =>
      have hd : d = a := ha
      have ht : s = b :: t := eq_cons_of_tailIs (by simpa using hs) hb h
      exact ⟨c, by rw [hd, ht]⟩

/-! ## Keywords -/

/-- The token is no keyword, or the keyword spelled so. -/
def IsKeywordOf (token : GraphQlToken) (s : Ustring) : Prop :=
  token = .gName ∨ keywordToString token = some s

theorem isKeywordOf_getTokenFromValue {size : Nat} {s : Ustring} (hs : s.length = size) :
    IsKeywordOf (getTokenFromValue size s) s := by
  unfold getTokenFromValue
  -- each leaf of the tree is a keyword whose characters have all been compared, or `gName`
  repeat' split
  all_goals
    first
      | exact .inl rfl
      | exact .inr (congrArg some (eq_of_tailIs_zero ‹_›).symm)
      | exact .inr (congrArg some (eq_cons_of_tailIs hs ‹_› ‹_›).symm)
      | exact .inr (congrArg some (eq_cons_cons_of_tailIs hs ‹_› ‹_› ‹_›).symm)

theorem getTokenFromValue_of_spelled {token : GraphQlToken} {s : Ustring}
    (h : keywordToString token = some s) : getTokenFromValue s.length s = token := by
  cases token <;> cases h <;> rfl

theorem getTokenFromValue_eq_iff {token : GraphQlToken} (ht : token ≠ .gName) (s : Ustring) :
    getTokenFromValue s.length s = token ↔ keywordToString token = some s := by
  constructor
  · intro h
    rcases isKeywordOf_getTokenFromValue (s := s) rfl with hn | hk
    · exact absurd (h.symm.trans hn) ht
    · rwa [h] at hk
  · exact getTokenFromValue_of_spelled

theorem getTokenFromValue_eq_gName {s : Ustring} (h : ∀ token, keywordToString token ≠ some s) :
    getTokenFromValue s.length s = .gName := by
  rcases isKeywordOf_getTokenFromValue (s := s) rfl with hn | hk
  · exact hn
  · exact absurd hk (h _)

/-! ## Directive locations -/

/-- The names that the tree of the locations takes for `SCHEMA` or `SCALAR` and are neither. -/
def IsMistaken (s : Ustring) : Prop :=
  ∃ c, c ≠ 'C' ∧ (s = 'S' :: c :: "HEMA".toList ∨ s = 'S' :: c :: "ALAR".toList)

/-- The location is no place, the one spelled so, or one taken by mistake. -/
def IsLocationOf (location : DirectiveLocation) (s : Ustring) : Prop :=
  location = .unknown ∨ directiveLocationToString location = some s ∨ IsMistaken s

theorem isLocationOf_schema {s : Ustring} (h : ∃ c, s = 'S' :: c :: 'H' :: "EMA".toList) :
    IsLocationOf .schema s := by
  obtain ⟨c, rfl⟩ := h
  by_cases hc : c = 'C'
  · exact .inr (.inl (by rw [hc]; rfl))
  · exact .inr (.inr ⟨c, hc, .inl rfl⟩)

theorem isLocationOf_scalar {s : Ustring} (h : ∃ c, s = 'S' :: c :: 'A' :: "LAR".toList) :
    IsLocationOf .scalar s := by
  obtain ⟨c, rfl⟩ := h
  by_cases hc : c = 'C'
  · exact .inr (.inl (by rw [hc]; rfl))
  · exact .inr (.inr ⟨c, hc, .inr rfl⟩)

theorem isLocationOf_getDirectiveFromValue {size : Nat} {s : Ustring} (hs : s.length = size) :
    IsLocationOf (getDirectiveFromValue size s) s := by
  unfold getDirectiveFromValue
  repeat' split
  all_goals
    first
      | exact .inl rfl
      | exact .inr (.inl (congrArg some (eq_of_tailIs_zero ‹_›).symm))
      | exact .inr (.inl (congrArg some (eq_cons_of_tailIs hs ‹_› ‹_›).symm))
      | exact isLocationOf_schema (eq_cons_any_of_tailIs hs ‹_› ‹_› ‹_›)
      | exact isLocationOf_scalar (eq_cons_any_of_tailIs hs ‹_› ‹_› ‹_›)

theorem getDirectiveFromValue_of_spelled {location : DirectiveLocation} {s : Ustring}
    (h : directiveLocationToString location = some s) :
    getDirectiveFromValue s.length s = location := by
  cases location <;> cases h <;> rfl

/-- A mistaken name is answered by a location and is no location's text. -/
theorem getDirectiveFromValue_ne_of_isMistaken {s : Ustring} (h : IsMistaken s) :
    getDirectiveFromValue s.length s ≠ .unknown ∧
      ∀ location, directiveLocationToString location ≠ some s := by
  obtain ⟨c, hc, rfl | rfl⟩ := h
  · refine ⟨?_, ?_⟩
    · have hschema : getDirectiveFromValue 6 ('S' :: c :: "HEMA".toList) = .schema := rfl
      intro h
      exact absurd (hschema.symm.trans h) (by decide)
    · intro location h
      cases location <;> cases h
      exact hc rfl
  · refine ⟨?_, ?_⟩
    · have hscalar : getDirectiveFromValue 6 ('S' :: c :: "ALAR".toList) = .scalar := rfl
      intro h
      exact absurd (hscalar.symm.trans h) (by decide)
    · intro location h
      cases location <;> cases h
      exact hc rfl

/-! ## Exactness -/

/-- Both recognisers answer by the spelling of `s` and by nothing else. -/
structure RecognisedExactly (s : Ustring) : Prop where
  location : ∀ location, location ≠ .unknown →
    (getDirectiveFromValue s.length s = location ↔ directiveLocationToString location = some s)
  noLocation : (∀ location, directiveLocationToString location ≠ some s) →
    getDirectiveFromValue s.length s = .unknown
  keyword : ∀ token, token ≠ .gName →
    (getTokenFromValue s.length s = token ↔ keywordToString token = some s)
  noKeyword : (∀ token, keywordToString token ≠ some s) →
    getTokenFromValue s.length s = .gName

/-- A name is recognised exactly unless it is one of those the location tree mistakes. -/
theorem recognisedExactly_iff (s : Ustring) : RecognisedExactly s ↔ ¬ IsMistaken s := by
  constructor
  · intro h hm
    obtain ⟨hl, hn⟩ := getDirectiveFromValue_ne_of_isMistaken hm
    exact hl (h.noLocation hn)
  · intro hm
    have hl : getDirectiveFromValue s.length s = .unknown ∨
        directiveLocationToString (getDirectiveFromValue s.length s) = some s := by
      rcases isLocationOf_getDirectiveFromValue (s := s) rfl with h | h | h
      · exact .inl h
      · exact .inr h
      · exact absurd h hm
    constructor
    · intro location hne
      constructor
      · rintro rfl
        exact hl.resolve_left hne
      · exact getDirectiveFromValue_of_spelled
    · intro hn
      exact hl.resolve_right (hn _)
    · intro token ht
      exact getTokenFromValue_eq_iff ht s
    · exact getTokenFromValue_eq_gName

/-- `SXHEMA` is taken for the location `SCHEMA`. -/
theorem sxhema_not_recognisedExactly : ¬ RecognisedExactly "SXHEMA".toList := by
  intro h
  have hs := (h.location .schema (by decide)).1 (by decide)
  exact absurd hs (by decide)

end Flashpoint
