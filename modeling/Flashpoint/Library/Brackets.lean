/-!
# Bracket words

Words with letters that open and letters that close a bracket. A word is balanced if its brackets match;
what stands behind the letter that closes a bracket left open before the word is found by counting
(`afterClosing_iff`).
-/

namespace Flashpoint.Library

/-- What a letter does. -/
inductive Bracket where
  | opening
  | closing
  | other
deriving DecidableEq, Repr

variable {α : Type} (kind : α → Bracket)

/-- The brackets of a word match. -/
inductive Balanced : List α → Prop where
  | nil : Balanced []
  | other {x : α} {w : List α} (hx : kind x = .other) (hw : Balanced w) : Balanced (x :: w)
  | block {x y : α} {v w : List α} (hx : kind x = .opening) (hv : Balanced v)
      (hy : kind y = .closing) (hw : Balanced w) : Balanced (x :: (v ++ y :: w))

/-- What is left of a word behind the letter that closes the outermost of `depth + 1` brackets open
before it. -/
def afterClosing : Nat → List α → Option (List α)
  | _, [] => none
  | depth, x :: w =>
    match kind x, depth with
    | .opening, depth => afterClosing (depth + 1) w
    | .closing, 0 => some w
    | .closing, depth + 1 => afterClosing depth w
    | .other, depth => afterClosing depth w

variable {kind}

theorem afterClosing_opening {x : α} (h : kind x = .opening) (depth : Nat) (w : List α) :
    afterClosing kind depth (x :: w) = afterClosing kind (depth + 1) w := by
  simp only [afterClosing, h]

theorem afterClosing_closing_zero {x : α} (h : kind x = .closing) (w : List α) :
    afterClosing kind 0 (x :: w) = some w := by
  simp only [afterClosing, h]

theorem afterClosing_closing_succ {x : α} (h : kind x = .closing) (depth : Nat) (w : List α) :
    afterClosing kind (depth + 1) (x :: w) = afterClosing kind depth w := by
  simp only [afterClosing, h]

theorem afterClosing_other {x : α} (h : kind x = .other) (depth : Nat) (w : List α) :
    afterClosing kind depth (x :: w) = afterClosing kind depth w := by
  simp only [afterClosing, h]

/-- A balanced word is passed over. -/
theorem Balanced.afterClosing_append {v : List α} (h : Balanced kind v) (depth : Nat) (w : List α) :
    afterClosing kind depth (v ++ w) = afterClosing kind depth w := by
  induction h generalizing depth w with
  | nil => rfl
  | other hx _ ih => rw [List.cons_append, afterClosing_other hx, ih]
  | block hx _ hy _ ihv ihw =>
    rw [List.cons_append, afterClosing_opening hx, List.append_assoc, ihv, List.cons_append,
      afterClosing_closing_succ hy, ihw]

/-- Up to the letter that closes the innermost open bracket the word is balanced. -/
theorem exists_balanced_of_afterClosing (w : List α) {depth : Nat} {after : List α}
    (h : afterClosing kind depth w = some after) :
    ∃ block y rest, w = block ++ y :: rest ∧ Balanced kind block ∧ kind y = .closing ∧
      (depth = 0 → rest = after) ∧ ∀ d, depth = d + 1 → afterClosing kind d rest = some after := by
  induction hn : w.length using Nat.strongRecOn generalizing w depth with
  | ind n ih =>
    subst hn
    cases w with
    | nil => cases h
    | cons x w =>
      cases hx : kind x with
      | other =>
        rw [afterClosing_other hx] at h
        obtain ⟨block, y, rest, rfl, hblock, hy, hrest⟩ := ih _ (Nat.lt_succ_self _) w h rfl
        exact ⟨x :: block, y, rest, rfl, hblock.other hx, hy, hrest⟩
      | closing =>
        refine ⟨[], x, w, rfl, .nil, hx, ?_, ?_⟩
        · rintro rfl
          exact Option.some.inj ((afterClosing_closing_zero hx w).symm.trans h)
        · rintro d rfl
          exact (afterClosing_closing_succ hx d w).symm.trans h
      | opening =>
        -- the bracket that `x` opens is closed first
        rw [afterClosing_opening hx] at h
        obtain ⟨inner, z, w', rfl, hinner, hz, -, hw'⟩ := ih _ (Nat.lt_succ_self _) w h rfl
        have hlt : w'.length < (x :: (inner ++ z :: w')).length := by
          simp only [List.length_cons, List.length_append]
          omega
        obtain ⟨block, y, rest, rfl, hblock, hy, hrest⟩ := ih _ hlt w' (hw' depth rfl) rfl
        refine ⟨x :: (inner ++ z :: block), y, rest, ?_, .block hx hinner hz hblock, hy, hrest⟩
        simp

/-- The letter that closes a bracket left open stands behind a balanced word. -/
theorem afterClosing_iff {w after : List α} :
    afterClosing kind 0 w = some after ↔
      ∃ block y, w = block ++ y :: after ∧ Balanced kind block ∧ kind y = .closing := by
  constructor
  · intro h
    obtain ⟨block, y, rest, hw, hblock, hy, hrest, -⟩ := exists_balanced_of_afterClosing w h
    exact ⟨block, y, hrest rfl ▸ hw, hblock, hy⟩
  · rintro ⟨block, y, rfl, hblock, hy⟩
    rw [hblock.afterClosing_append, afterClosing_closing_zero hy]

end Flashpoint.Library
