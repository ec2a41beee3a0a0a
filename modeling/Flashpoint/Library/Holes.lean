import Mathlib.Data.List.Basic

/-!
# Texts with holes

A hole is a letter between an opening and a closing bracket. Holes with letters that are no brackets do
not overlap, so that they are filled in one pass. Filled in another pass what was filled in before is
filled too: the two passes do what one would do exactly if the first brings no hole for the second, or
the second puts in the hole itself (`fillHoles_only_eq_iff`).
-/

namespace Flashpoint.Library

variable {α : Type}

def hole (o c d : α) : List α := [o, d, c]

theorem hole_prefix_iff {o c d a : α} {rest : List α} :
    hole o c d <+: a :: rest ↔ a = o ∧ ∃ rest', rest = d :: c :: rest' := by
  unfold hole
  rw [List.cons_prefix_cons]
  constructor
  · rintro ⟨rfl, rest', h⟩
    exact ⟨rfl, rest', h.symm⟩
  · rintro ⟨rfl, rest', rfl⟩
    exact ⟨rfl, rest', rfl⟩

variable [DecidableEq α] (o c : α)

/-- The holes are filled at once. -/
def fillHoles (f : α → Option (List α)) : List α → List α
  | a :: d :: b :: rest =>
    if a = o ∧ b = c then
      match f d with
      | some text => text ++ fillHoles f rest
      | none => a :: fillHoles f (d :: b :: rest)
    else a :: fillHoles f (d :: b :: rest)
  | rest => rest

def countHoles (d : α) : List α → Nat
  | [] => 0
  | a :: rest => (if hole o c d <+: a :: rest then 1 else 0) + countHoles d rest

/-- One letter is filled. -/
def only (d : α) (text : List α) (e : α) : Option (List α) := if e = d then some text else none

/-- One letter more is filled. -/
def extend (f : α → Option (List α)) (d : α) (text : List α) (e : α) : Option (List α) :=
  if e = d then some text else f e

variable {o c} {d : α} {f g : α → Option (List α)}

/-- A character that begins no hole that is filled. -/
theorem fillHoles_cons {a : α} {rest : List α}
    (h : ∀ d rest', a = o → rest = d :: c :: rest' → f d = none) :
    fillHoles o c f (a :: rest) = a :: fillHoles o c f rest := by
  match rest, h with
  | [], _ => rfl
  | [_], _ => rfl
  | e :: b :: rest, h =>
    rw [fillHoles]
    split
    next hopen =>
      obtain ⟨rfl, rfl⟩ := hopen
      rw [h e rest rfl rfl]
    next => rfl

theorem fillHoles_hole (rest : List α) {text : List α} (h : f d = some text) :
    fillHoles o c f (hole o c d ++ rest) = text ++ fillHoles o c f rest := by
  rw [hole, List.cons_append, List.cons_append, List.cons_append, List.nil_append, fillHoles,
    if_pos ⟨rfl, rfl⟩, h]

theorem fillHoles_none (xs : List α) : fillHoles o c (fun _ => none) xs = xs := by
  induction xs with
  | nil => rfl
  | cons a xs ih => rw [fillHoles_cons fun _ _ _ _ => rfl, ih]

theorem exists_eq_append_hole {xs : List α} (h : countHoles o c d xs ≠ 0) :
    ∃ ys zs, xs = ys ++ (hole o c d ++ zs) ∧ countHoles o c d ys = 0 := by
  induction xs with
  | nil => exact absurd rfl h
  | cons a xs ih =>
    by_cases hfront : hole o c d <+: a :: xs
    · obtain ⟨zs, hzs⟩ := hfront
      exact ⟨[], zs, hzs.symm, rfl⟩
    · rw [countHoles, if_neg hfront, Nat.zero_add] at h
      obtain ⟨ys, zs, rfl, hys⟩ := ih h
      refine ⟨a :: ys, zs, rfl, ?_⟩
      have hnot : ¬ hole o c d <+: a :: ys := fun h => hfront (h.trans (List.prefix_append _ _))
      rw [countHoles, if_neg hnot, hys]

theorem countHoles_tail {a : α} {xs : List α} (h : countHoles o c d (a :: xs) = 0) :
    ¬ hole o c d <+: a :: xs ∧ countHoles o c d xs = 0 := by
  rw [countHoles] at h
  by_cases hfront : hole o c d <+: a :: xs
  · rw [if_pos hfront] at h
    omega
  · rw [if_neg hfront, Nat.zero_add] at h
    exact ⟨hfront, h⟩

/-- What a letter without a hole is filled with does not matter. -/
theorem fillHoles_congr {xs : List α} (h : ∀ e, e ≠ d → f e = g e)
    (hzero : countHoles o c d xs = 0) : fillHoles o c f xs = fillHoles o c g xs := by
  fun_induction fillHoles o c f xs with
  | case1 a e b rest hopen text hf ih =>
    obtain ⟨rfl, rfl⟩ := hopen
    obtain ⟨hfront, hzero⟩ := countHoles_tail hzero
    have hne : e ≠ d := by
      rintro rfl
      exact hfront (hole_prefix_iff.2 ⟨rfl, rest, rfl⟩)
    rw [h e hne] at hf
    have hright := fillHoles_hole (o := a) (c := b) rest hf
    rw [ih (countHoles_tail (countHoles_tail hzero).2).2]
    exact hright.symm
  | case2 a e b rest hopen hf ih =>
    obtain ⟨rfl, rfl⟩ := hopen
    obtain ⟨hfront, hzero⟩ := countHoles_tail hzero
    have hne : e ≠ d := by
      rintro rfl
      exact hfront (hole_prefix_iff.2 ⟨rfl, rest, rfl⟩)
    have hright : fillHoles a b g (a :: e :: b :: rest) = a :: fillHoles a b g (e :: b :: rest) := by
      apply fillHoles_cons
      rintro e' rest' - heq
      cases heq
      rw [← h e hne, hf]
    rw [ih hzero, hright]
  | case3 a e b rest hopen ih =>
    have hright : fillHoles o c g (a :: e :: b :: rest) = a :: fillHoles o c g (e :: b :: rest) := by
      apply fillHoles_cons
      rintro e' rest' ha heq
      cases heq
      exact absurd ⟨ha, rfl⟩ hopen
    rw [ih (countHoles_tail hzero).2, hright]
  | case4 xs hshort =>
    match xs, hshort with
    | [], _ => rfl
    | [_], _ => rfl
    | [_, _], _ => rfl
    | a :: e :: b :: rest, hshort => exact absurd rfl (hshort a e b rest)

/-- Induction on the holes of a letter. -/
theorem hole_induction {P : List α → Prop} (hnone : ∀ xs, countHoles o c d xs = 0 → P xs)
    (hsome : ∀ xs ys, countHoles o c d xs = 0 → P ys → P (xs ++ (hole o c d ++ ys))) (xs : List α) :
    P xs := by
  induction hn : xs.length using Nat.strongRecOn generalizing xs with
  | ind n ih =>
  by_cases hzero : countHoles o c d xs = 0
  · exact hnone xs hzero
  · obtain ⟨ys, zs, rfl, hys⟩ := exists_eq_append_hole hzero
    apply hsome ys zs hys
    apply ih zs.length _ zs rfl
    subst hn
    simp only [List.length_append, hole, List.length_cons]
    omega

/-- One letter is filled where nothing is. -/
theorem fillHoles_only_of_countHoles {xs : List α} (text : List α) (h : countHoles o c d xs = 0) :
    fillHoles o c (only d text) xs = xs := by
  have hother : ∀ e, e ≠ d → only d text e = (fun _ => none) e := fun e he => if_neg he
  rw [fillHoles_congr hother h, fillHoles_none]

section

variable (hoc : o ≠ c) (hdo : d ≠ o) (hdc : d ≠ c)

include hdc hoc hdo

omit [DecidableEq α] in
/-- A hole begins in another one only at its start. -/
theorem not_prefix_append_hole {e a : α} {xs ys : List α} (h : ¬ hole o c e <+: a :: xs)
    (he : xs = [] → e ≠ o) : ¬ hole o c e <+: a :: (xs ++ (hole o c d ++ ys)) := by
  rw [hole_prefix_iff] at h ⊢
  rintro ⟨rfl, rest, hrest⟩
  match xs with
  | [] =>
    cases hrest
    exact he rfl rfl
  | [b] =>
    cases hrest
    exact hoc rfl
  | b :: b' :: xs =>
    cases hrest
    exact h ⟨rfl, xs, rfl⟩

theorem countHoles_append_hole (xs ys : List α) :
    countHoles o c d (xs ++ (hole o c d ++ ys)) =
      countHoles o c d xs + (1 + countHoles o c d ys) := by
  induction xs with
  | nil =>
    have hself : hole o c d <+: o :: d :: c :: ys := hole_prefix_iff.2 ⟨rfl, ys, rfl⟩
    have hsecond : ¬ hole o c d <+: d :: c :: ys := fun h => hdo (hole_prefix_iff.1 h).1
    have hthird : ¬ hole o c d <+: c :: ys := fun h => hoc (hole_prefix_iff.1 h).1.symm
    show countHoles o c d (o :: d :: c :: ys) = _
    simp only [countHoles, if_pos hself, if_neg hsecond, if_neg hthird, Nat.zero_add]
  | cons a xs ih =>
    rw [List.cons_append, countHoles, countHoles, ih, ← Nat.add_assoc]
    congr 2
    by_cases h : hole o c d <+: a :: xs
    · rw [if_pos h, if_pos]
      exact h.trans (List.prefix_append (a :: xs) _)
    · rw [if_neg h, if_neg]
      exact not_prefix_append_hole hoc hdo hdc h fun _ => hdo

theorem fillHoles_append_hole (xs ys : List α) :
    fillHoles o c f (xs ++ (hole o c d ++ ys)) =
      fillHoles o c f xs ++ ((f d).getD (hole o c d) ++ fillHoles o c f ys) := by
  -- what is left behind a hole that is filled is shorter by three
  induction hn : xs.length using Nat.strongRecOn generalizing xs with
  | ind n ih =>
  subst hn
  match xs, ih with
  | [], _ =>
    cases hf : f d with
    | some text => exact fillHoles_hole ys hf
    | none =>
      have hthird : fillHoles o c f (c :: ys) = c :: fillHoles o c f ys :=
        fillHoles_cons fun _ _ h _ => absurd h.symm hoc
      have hsecond : fillHoles o c f (d :: c :: ys) = d :: fillHoles o c f (c :: ys) :=
        fillHoles_cons fun _ _ h _ => absurd h hdo
      have hfirst : fillHoles o c f (o :: d :: c :: ys) = o :: fillHoles o c f (d :: c :: ys) := by
        apply fillHoles_cons
        rintro e rest - heq
        cases heq
        exact hf
      show fillHoles o c f (o :: d :: c :: ys) = o :: d :: c :: fillHoles o c f ys
      rw [hfirst, hsecond, hthird]
  | a :: xs, ih =>
    by_cases hfilled : ∃ e rest text, a = o ∧ xs = e :: c :: rest ∧ f e = some text
    · obtain ⟨e, rest, text, rfl, rfl, he⟩ := hfilled
      have hleft := fillHoles_hole (o := a) (c := c) (rest ++ (hole a c d ++ ys)) he
      have hright := fillHoles_hole (o := a) (c := c) rest he
      rw [hole, List.cons_append, List.cons_append, List.cons_append, List.nil_append] at hleft hright
      rw [List.cons_append, List.cons_append, List.cons_append, hleft, hright,
        ih rest.length (by simp; omega) rest rfl, List.append_assoc]
    · have hnone : ∀ e rest, a = o → xs = e :: c :: rest → f e = none := by
        intro e rest ha hxs
        cases hf : f e with
        | none => rfl
        | some text => exact absurd ⟨e, rest, text, ha, hxs, hf⟩ hfilled
      rw [List.cons_append, fillHoles_cons hnone, fillHoles_cons, ih xs.length (Nat.lt_succ_self _) xs rfl]
      · rfl
      · intro e rest ha hrest
        match xs, hnone with
        | [], _ =>
          cases hrest
          exact absurd rfl hdc
        | [b], _ =>
          cases hrest
          exact absurd rfl hoc
        | b :: b' :: xs, hnone =>
          cases hrest
          exact hnone e xs ha rfl

/-- A hole is filled with itself. -/
theorem fillHoles_extend_hole (hd : f d = none) (xs : List α) :
    fillHoles o c (extend f d (hole o c d)) xs = fillHoles o c f xs := by
  have hother : ∀ e, e ≠ d → extend f d (hole o c d) e = f e := fun e he => if_neg he
  have hself : extend f d (hole o c d) d = some (hole o c d) := if_pos rfl
  induction xs using hole_induction (o := o) (c := c) (d := d) with
  | hnone xs hxs => exact fillHoles_congr hother hxs
  | hsome xs ys hxs ih =>
    rw [fillHoles_append_hole hoc hdo hdc, fillHoles_append_hole hoc hdo hdc, ih, hself, hd,
      fillHoles_congr hother hxs]
    rfl

theorem countHoles_le_fillHoles (hd : f d = none) (xs : List α) :
    countHoles o c d xs ≤ countHoles o c d (fillHoles o c f xs) := by
  induction xs using hole_induction (o := o) (c := c) (d := d) with
  | hnone xs hxs => rw [hxs]; exact Nat.zero_le _
  | hsome xs ys hxs ih =>
    rw [fillHoles_append_hole hoc hdo hdc, hd, Option.getD_none, countHoles_append_hole hoc hdo hdc,
      countHoles_append_hole hoc hdo hdc, hxs]
    omega

/-- A second pass does what the first one would have done, if it finds no other holes. -/
theorem fillHoles_only_of_eq (hd : f d = none) (text : List α) {xs : List α}
    (h : countHoles o c d (fillHoles o c f xs) = countHoles o c d xs) :
    fillHoles o c (only d text) (fillHoles o c f xs) = fillHoles o c (extend f d text) xs := by
  have hother : ∀ e, e ≠ d → extend f d text e = f e := fun e he => if_neg he
  have hself : extend f d text d = some text := if_pos rfl
  have honly : only d text d = some text := if_pos rfl
  induction xs using hole_induction (o := o) (c := c) (d := d) with
  | hnone xs hxs =>
    rw [hxs] at h
    rw [fillHoles_only_of_countHoles text h, fillHoles_congr hother hxs]
  | hsome xs ys hxs ih =>
    have hle := countHoles_le_fillHoles (o := o) (c := c) hoc hdo hdc hd ys
    rw [fillHoles_append_hole hoc hdo hdc, hd, Option.getD_none, countHoles_append_hole hoc hdo hdc,
      countHoles_append_hole hoc hdo hdc, hxs] at h
    have hleft : countHoles o c d (fillHoles o c f xs) = 0 := by omega
    have hright : countHoles o c d (fillHoles o c f ys) = countHoles o c d ys := by omega
    rw [fillHoles_append_hole hoc hdo hdc, fillHoles_append_hole hoc hdo hdc, hd, hself,
      Option.getD_none, Option.getD_some, fillHoles_append_hole hoc hdo hdc, honly, Option.getD_some,
      fillHoles_only_of_countHoles text hleft, ih hright, fillHoles_congr hother hxs]

/-! ## A pass that finds other holes -/

theorem length_fillHoles_only (text xs : List α) :
    (fillHoles o c (only d text) xs).length + 3 * countHoles o c d xs =
      xs.length + text.length * countHoles o c d xs := by
  have honly : only d text d = some text := if_pos rfl
  induction xs using hole_induction (o := o) (c := c) (d := d) with
  | hnone xs hxs => rw [hxs, fillHoles_only_of_countHoles text hxs, Nat.mul_zero, Nat.mul_zero]
  | hsome xs ys hxs ih =>
    have hlength : (hole o c d).length = 3 := rfl
    rw [fillHoles_append_hole hoc hdo hdc, honly, Option.getD_some, countHoles_append_hole hoc hdo hdc,
      hxs, fillHoles_only_of_countHoles text hxs]
    simp only [List.length_append, hlength, Nat.zero_add, Nat.mul_add, Nat.mul_one]
    omega

theorem length_fillHoles_extend (hd : f d = none) (text xs : List α) :
    (fillHoles o c (extend f d text) xs).length + 3 * countHoles o c d xs =
      (fillHoles o c f xs).length + text.length * countHoles o c d xs := by
  have hother : ∀ e, e ≠ d → extend f d text e = f e := fun e he => if_neg he
  have hself : extend f d text d = some text := if_pos rfl
  induction xs using hole_induction (o := o) (c := c) (d := d) with
  | hnone xs hxs => rw [hxs, fillHoles_congr hother hxs, Nat.mul_zero, Nat.mul_zero]
  | hsome xs ys hxs ih =>
    have hlength : (hole o c d).length = 3 := rfl
    rw [fillHoles_append_hole hoc hdo hdc, fillHoles_append_hole hoc hdo hdc, hself, hd,
      Option.getD_some, Option.getD_none, countHoles_append_hole hoc hdo hdc, hxs,
      fillHoles_congr hother hxs]
    simp only [List.length_append, hlength, Nat.zero_add, Nat.mul_add, Nat.mul_one]
    omega

/-- Where something of the length of a hole is put into a hole, it is seen. -/
theorem countHoles_eq_zero_of_only {text : List α} (hlength : text.length = 3)
    (hne : text ≠ hole o c d) {xs : List α} (h : fillHoles o c (only d text) xs = xs) :
    countHoles o c d xs = 0 := by
  by_contra hzero
  obtain ⟨ys, zs, rfl, hys⟩ := exists_eq_append_hole hzero
  have honly : only d text d = some text := if_pos rfl
  rw [fillHoles_append_hole hoc hdo hdc, honly, Option.getD_some,
    fillHoles_only_of_countHoles text hys, List.append_cancel_left_eq] at h
  exact hne (List.append_inj_left h hlength)

theorem eq_of_fillHoles_only (hd : f d = none) {text : List α} (hlength : text.length = 3)
    (hne : text ≠ hole o c d) {xs : List α}
    (h : fillHoles o c (only d text) (fillHoles o c f xs) = fillHoles o c (extend f d text) xs) :
    countHoles o c d (fillHoles o c f xs) = countHoles o c d xs := by
  have hother : ∀ e, e ≠ d → extend f d text e = f e := fun e he => if_neg he
  have hself : extend f d text d = some text := if_pos rfl
  have honly : only d text d = some text := if_pos rfl
  induction xs using hole_induction (o := o) (c := c) (d := d) with
  | hnone xs hxs =>
    rw [fillHoles_congr hother hxs] at h
    rw [hxs, countHoles_eq_zero_of_only hoc hdo hdc hlength hne h]
  | hsome xs ys hxs ih =>
    rw [fillHoles_append_hole hoc hdo hdc, fillHoles_append_hole hoc hdo hdc, hd, hself,
      Option.getD_none, Option.getD_some, fillHoles_append_hole hoc hdo hdc, honly, Option.getD_some,
      fillHoles_congr hother hxs] at h
    have hsame := length_fillHoles_only hoc hdo hdc text (fillHoles o c f xs)
    rw [hlength] at hsame
    obtain ⟨hleft, hright⟩ := List.append_inj h (by omega)
    have hzero := countHoles_eq_zero_of_only hoc hdo hdc hlength hne hleft
    rw [fillHoles_append_hole hoc hdo hdc, hd, Option.getD_none, countHoles_append_hole hoc hdo hdc,
      countHoles_append_hole hoc hdo hdc, hxs, hzero, ih (List.append_cancel_left hright)]

/-- **A second pass does what the first one would have done exactly if it finds no other holes, or puts
the hole itself into them.** -/
theorem fillHoles_only_eq_iff (hd : f d = none) (text xs : List α) :
    fillHoles o c (only d text) (fillHoles o c f xs) = fillHoles o c (extend f d text) xs ↔
      countHoles o c d (fillHoles o c f xs) = countHoles o c d xs ∨ text = hole o c d := by
  constructor
  · intro h
    by_cases htext : text = hole o c d
    · exact .inr htext
    left
    by_cases hlength : text.length = 3
    · exact eq_of_fillHoles_only hoc hdo hdc hd hlength htext h
    · -- the lengths tell how many holes were filled
      have honly := length_fillHoles_only hoc hdo hdc text (fillHoles o c f xs)
      have hextend := length_fillHoles_extend hoc hdo hdc hd text xs
      obtain ⟨k, hk⟩ :=
        Nat.exists_eq_add_of_le (countHoles_le_fillHoles (o := o) (c := c) hoc hdo hdc hd xs)
      rw [h, hk, Nat.mul_add, Nat.mul_add] at honly
      have hmul : 3 * k = text.length * k := by omega
      rcases Nat.eq_zero_or_pos k with rfl | hpos
      · exact hk
      · exact absurd (Nat.eq_of_mul_eq_mul_right hpos hmul).symm hlength
  · rintro (h | rfl)
    · exact fillHoles_only_of_eq hoc hdo hdc hd text h
    · have honly : only d (hole o c d) = extend (fun _ => none) d (hole o c d) := rfl
      rw [honly, fillHoles_extend_hole hoc hdo hdc rfl, fillHoles_extend_hole hoc hdo hdc hd,
        fillHoles_none]

end

end Flashpoint.Library
