import Mathlib.Data.List.Nodup

/-!
# Insertions at offsets

Pieces of a list have places between them, and something is put into every place. Done one after the
other, each at the offset its place had before anything was put in, this fills the places in whatever
is put into them exactly if the places are taken from the last to the first (`insertEach_of_reverse`,
`exists_insertEach_ne`).
-/

namespace Flashpoint.Library

variable {α ι : Type}

def insertAt (xs : List α) (offset : Nat) (ys : List α) : List α :=
  xs.take offset ++ (ys ++ xs.drop offset)

/-- Put in one after the other, each at its offset in what is there by then. -/
def insertEach (offset : ι → Nat) (ys : ι → List α) (order : List ι) (xs : List α) : List α :=
  order.foldl (fun xs i => insertAt xs (offset i) (ys i)) xs

/-- Pieces with a place behind each, with what is put into the places. -/
def filled (ys : ι → List α) : List (List α × ι) → List α → List α
  | [], last => last
  | (piece, i) :: pieces, last => piece ++ (ys i ++ filled ys pieces last)

/-- The offsets of the places while nothing is put in. -/
def PlacedFrom (offset : ι → Nat) : Nat → List (List α × ι) → Prop
  | _, [] => True
  | n, (piece, i) :: pieces => offset i = n + piece.length ∧ PlacedFrom offset (n + piece.length) pieces

variable {offset : ι → Nat} {ys : ι → List α}

theorem insertAt_nil (xs : List α) (p : Nat) : insertAt xs p [] = xs := List.take_append_drop p xs

theorem insertAt_append (pre ys post : List α) :
    insertAt (pre ++ post) pre.length ys = pre ++ (ys ++ post) := by
  rw [insertAt, List.take_left, List.drop_left]

/-- An insertion at or behind another one. -/
theorem insertAt_insertAt {xs : List α} {p q : Nat} (hpq : p ≤ q) (hq : q ≤ xs.length)
    (us zs : List α) :
    insertAt (insertAt xs q zs) p us = insertAt (insertAt xs p us) (q + us.length) zs := by
  obtain ⟨pre, mid, post, rfl, rfl, rfl⟩ : ∃ pre mid post : List α,
      xs = pre ++ (mid ++ post) ∧ p = pre.length ∧ q = pre.length + mid.length := by
    refine ⟨xs.take p, (xs.drop p).take (q - p), (xs.drop p).drop (q - p), ?_, ?_, ?_⟩
    · rw [List.take_append_drop, List.take_append_drop]
    · rw [List.length_take]
      omega
    · rw [List.length_take, List.length_take, List.length_drop]
      omega
  have hq : insertAt (pre ++ (mid ++ post)) (pre.length + mid.length) zs =
      pre ++ (mid ++ (zs ++ post)) := by
    have h := insertAt_append (pre ++ mid) zs post
    simpa using h
  have hlength : pre.length + mid.length + us.length = (pre ++ (us ++ mid)).length := by
    simp only [List.length_append]
    omega
  have hassoc : pre ++ (us ++ (mid ++ post)) = (pre ++ (us ++ mid)) ++ post := by simp
  rw [hq, insertAt_append, insertAt_append, hassoc, hlength, insertAt_append]
  simp

/-- What is put in at the old offset of the later place, after something was put into the earlier one,
is not where it should be if it ends otherwise than what it is put before. -/
theorem exists_insertAt_ne {xs us : List α} {p q : Nat} (hpq : p ≤ q) (hq : q ≤ xs.length)
    (hus : us ≠ []) :
    ∃ y, ∀ zs, (∃ z, zs.getLast? = some z ∧ z ≠ y) →
      insertAt (insertAt xs p us) q zs ≠ insertAt (insertAt xs q zs) p us := by
  have hlength : (insertAt xs p us).length = xs.length + us.length := by
    simp only [insertAt, List.length_append, List.length_take, List.length_drop]
    omega
  have hpos : 0 < us.length := List.length_pos_iff.2 hus
  -- what stands between the offset that is used and the right one
  obtain ⟨pre, mid, post, heq, hpre, hmid⟩ : ∃ pre mid post : List α,
      insertAt xs p us = pre ++ (mid ++ post) ∧ pre.length = q ∧ mid.length = us.length := by
    generalize insertAt xs p us = zs at hlength
    refine ⟨zs.take q, (zs.drop q).take us.length, (zs.drop q).drop us.length, ?_, ?_, ?_⟩
    · rw [List.take_append_drop, List.take_append_drop]
    · rw [List.length_take]
      omega
    · rw [List.length_take, List.length_drop]
      omega
  have hne : mid ≠ [] := List.length_pos_iff.1 (hmid ▸ hpos)
  refine ⟨mid.getLast hne, fun zs hzs h => ?_⟩
  obtain ⟨z, hz, hzne⟩ := hzs
  have hright : insertAt (pre ++ (mid ++ post)) (q + us.length) zs = pre ++ (mid ++ (zs ++ post)) := by
    have h := insertAt_append (pre ++ mid) zs post
    rw [List.length_append, hpre, hmid] at h
    simpa using h
  rw [insertAt_insertAt hpq hq, heq, hright, ← hpre, insertAt_append, List.append_cancel_left_eq,
    ← List.append_assoc, ← List.append_assoc, List.append_cancel_right_eq] at h
  have hlast := congrArg List.getLast? h
  rw [List.getLast?_append, List.getLast?_append, hz, List.getLast?_eq_getLast_of_ne_nil hne] at hlast
  exact hzne (Option.some.inj hlast).symm

theorem insertEach_append (order order' : List ι) (xs : List α) :
    insertEach offset ys (order ++ order') xs =
      insertEach offset ys order' (insertEach offset ys order xs) :=
  List.foldl_append

/-- From the last place to the first, the offsets stay right. -/
theorem insertEach_reverse {pieces : List (List α × ι)} {pre : List α}
    (h : PlacedFrom offset pre.length pieces) (last : List α) :
    insertEach offset ys (pieces.map Prod.snd).reverse (pre ++ filled (fun _ => []) pieces last) =
      pre ++ filled ys pieces last := by
  induction pieces generalizing pre with
  | nil => rfl
  | cons entry pieces ih =>
    obtain ⟨piece, i⟩ := entry
    obtain ⟨hoffset, h⟩ := h
    rw [← List.length_append] at hoffset h
    have hrest := ih h
    rw [List.map_cons, List.reverse_cons, insertEach_append, filled, filled, List.nil_append,
      ← List.append_assoc, hrest, insertEach, List.foldl_cons, List.foldl_nil, hoffset,
      insertAt_append, List.append_assoc]

theorem insertEach_of_reverse {pieces : List (List α × ι)} (h : PlacedFrom offset 0 pieces)
    (last : List α) :
    insertEach offset ys (pieces.map Prod.snd).reverse (filled (fun _ => []) pieces last) =
      filled ys pieces last := by
  have hnil : PlacedFrom offset ([] : List α).length pieces := h
  exact insertEach_reverse hnil last

/-! ## Two places that are taken in the other order -/

theorem insertEach_of_nil {order : List ι} (h : ∀ k ∈ order, ys k = []) (xs : List α) :
    insertEach offset ys order xs = xs := by
  induction order with
  | nil => rfl
  | cons k order ih =>
    rw [List.forall_mem_cons] at h
    rw [insertEach, List.foldl_cons, h.1, insertAt_nil]
    exact ih h.2

theorem insertEach_of_one {order : List ι} (hnodup : order.Nodup) {j : ι} (hj : j ∈ order)
    (h : ∀ k ∈ order, k ≠ j → ys k = []) (xs : List α) :
    insertEach offset ys order xs = insertAt xs (offset j) (ys j) := by
  induction order with
  | nil => cases hj
  | cons k order ih =>
    rw [List.nodup_cons] at hnodup
    rw [List.forall_mem_cons] at h
    rw [insertEach, List.foldl_cons]
    rcases List.mem_cons.1 hj with rfl | hj
    · refine insertEach_of_nil (fun k hk => h.2 k hk ?_) _
      rintro rfl
      exact hnodup.1 hk
    · have hkj : k ≠ j := by
        rintro rfl
        exact hnodup.1 hj
      rw [h.1 hkj, insertAt_nil]
      exact ih hnodup.2 hj h.2

theorem insertEach_of_two {order : List ι} (hnodup : order.Nodup) {i j : ι}
    (hij : List.Sublist [i, j] order) (h : ∀ k ∈ order, k ≠ i → k ≠ j → ys k = []) (xs : List α) :
    insertEach offset ys order xs =
      insertAt (insertAt xs (offset i) (ys i)) (offset j) (ys j) := by
  induction order with
  | nil => cases hij
  | cons k order ih =>
    rw [List.nodup_cons] at hnodup
    rw [List.forall_mem_cons] at h
    rw [insertEach, List.foldl_cons]
    cases hij with
    | cons _ hij =>
      have hi : i ∈ order := hij.subset (List.mem_cons_self ..)
      have hj : j ∈ order := hij.subset (List.mem_cons_of_mem _ (List.mem_cons_self ..))
      have hki : k ≠ i := by
        rintro rfl
        exact hnodup.1 hi
      have hkj : k ≠ j := by
        rintro rfl
        exact hnodup.1 hj
      rw [h.1 hki hkj, insertAt_nil]
      exact ih hnodup.2 hij h.2
    | cons_cons _ hj =>
      refine insertEach_of_one hnodup.2 (List.singleton_sublist.1 hj) (fun k hk => h.2 k hk ?_) _
      rintro rfl
      exact hnodup.1 hk

/-- Two elements of a list stand in one order or the other. -/
theorem sublist_pair {xs : List ι} {i j : ι} (hi : i ∈ xs) (hj : j ∈ xs) (hne : i ≠ j) :
    List.Sublist [i, j] xs ∨ List.Sublist [j, i] xs := by
  induction xs with
  | nil => cases hi
  | cons k xs ih =>
    rw [List.mem_cons] at hi hj
    rcases hi with rfl | hi
    · exact .inl (.cons_cons i (List.singleton_sublist.2 (hj.resolve_left hne.symm)))
    rcases hj with rfl | hj
    · exact .inr (.cons_cons j (List.singleton_sublist.2 hi))
    · exact (ih hi hj).imp (.cons k) (.cons k)

theorem not_sublist_pair {xs : List ι} (hnodup : xs.Nodup) {i j : ι} (h : List.Sublist [i, j] xs) :
    ¬ List.Sublist [j, i] xs := by
  induction xs with
  | nil => cases h
  | cons k xs ih =>
    rw [List.nodup_cons] at hnodup
    intro h'
    cases h with
    | cons _ h =>
      cases h' with
      | cons _ h' => exact ih hnodup.2 h h'
      | cons_cons _ h' => exact hnodup.1 (h.subset (List.mem_cons_of_mem _ (List.mem_cons_self ..)))
    | cons_cons _ h =>
      cases h' with
      | cons _ h' => exact hnodup.1 (h'.subset (List.mem_cons_of_mem _ (List.mem_cons_self ..)))
      | cons_cons _ h' => exact hnodup.1 (List.singleton_sublist.1 h)

/-- Another order than the reverse one has two elements as they were. -/
theorem exists_sublist_pair {xs order : List ι} (hnodup : xs.Nodup) (hperm : order.Perm xs)
    (hne : order ≠ xs.reverse) : ∃ i j, List.Sublist [i, j] order ∧ List.Sublist [i, j] xs := by
  by_contra hnone
  apply hne
  have hnodup' : order.Nodup := hperm.nodup_iff.2 hnodup
  have hmem : ∀ {i j : ι} {zs : List ι}, List.Sublist [i, j] zs → i ∈ zs ∧ j ∈ zs := by
    intro i j zs h
    exact ⟨h.subset (List.mem_cons_self ..), h.subset (List.mem_cons_of_mem _ (List.mem_cons_self ..))⟩
  have hpair : order.Pairwise fun i j => List.Sublist [j, i] xs := by
    rw [List.pairwise_iff_forall_sublist]
    intro i j hij
    have hijne : i ≠ j := by
      rintro rfl
      exact not_sublist_pair hnodup' hij hij
    obtain ⟨hi, hj⟩ := hmem hij
    refine (sublist_pair (hperm.subset hi) (hperm.subset hj) hijne).resolve_left fun h => ?_
    exact hnone ⟨i, j, hij, h⟩
  have hpair' : xs.reverse.Pairwise fun i j => List.Sublist [j, i] xs := by
    rw [List.pairwise_iff_forall_sublist]
    intro i j hij
    rwa [← List.reverse_sublist, List.reverse_reverse] at hij
  refine List.Perm.eq_of_pairwise ?_ hpair hpair' (hperm.trans (List.reverse_perm xs).symm)
  intro i j _ _ hij hji
  exact absurd hji (not_sublist_pair hnodup hij)

theorem PlacedFrom.le {pieces : List (List α × ι)} {n : Nat} (h : PlacedFrom offset n pieces)
    (last : List α) {i : ι} (hi : i ∈ pieces.map Prod.snd) :
    n ≤ offset i ∧ offset i ≤ n + (filled (fun _ => []) pieces last).length := by
  induction pieces generalizing n with
  | nil => cases hi
  | cons entry pieces ih =>
    obtain ⟨piece, k⟩ := entry
    obtain ⟨hoffset, h⟩ := h
    rw [filled, List.nil_append, List.length_append]
    rcases List.mem_cons.1 hi with rfl | hi
    · omega
    · have hle := ih h hi
      omega

theorem PlacedFrom.mono {pieces : List (List α × ι)} {n : Nat} (h : PlacedFrom offset n pieces)
    {i j : ι} (hij : List.Sublist [i, j] (pieces.map Prod.snd)) : offset i ≤ offset j := by
  induction pieces generalizing n with
  | nil => cases hij
  | cons entry pieces ih =>
    obtain ⟨piece, k⟩ := entry
    obtain ⟨hoffset, h⟩ := h
    cases hij with
    | cons _ hij => exact ih h hij
    | cons_cons _ hj =>
      have hle := h.le [] (List.singleton_sublist.1 hj)
      dsimp only at hoffset ⊢
      omega

/-- **In any other order there are two places such that what is put into them ends up somewhere else:
something into the one, and into the other something that does not end with a certain element.** -/
theorem exists_insertEach_ne {pieces : List (List α × ι)} {order : List ι} (last : List α)
    (h : PlacedFrom offset 0 pieces) (hnodup : (pieces.map Prod.snd).Nodup)
    (hperm : order.Perm (pieces.map Prod.snd)) (hne : order ≠ (pieces.map Prod.snd).reverse) :
    ∃ i j, i ≠ j ∧ ∀ us, us ≠ [] → ∃ y, ∀ ys : ι → List α, ys i = us →
      (∃ z, (ys j).getLast? = some z ∧ z ≠ y) → (∀ k, k ≠ i → k ≠ j → ys k = []) →
      insertEach offset ys order (filled (fun _ => []) pieces last) ≠ filled ys pieces last := by
  obtain ⟨i, j, horder, hpieces⟩ := exists_sublist_pair hnodup hperm hne
  have hnodup' : order.Nodup := hperm.nodup_iff.2 hnodup
  have hij : i ≠ j := by
    rintro rfl
    exact not_sublist_pair hnodup hpieces hpieces
  refine ⟨i, j, hij, fun us hus => ?_⟩
  have hq := (h.le last (hpieces.subset (List.mem_cons_of_mem _ (List.mem_cons_self ..)))).2
  rw [Nat.zero_add] at hq
  obtain ⟨y, hy⟩ := exists_insertAt_ne (h.mono hpieces) hq hus
  refine ⟨y, fun ys hi hlast hother heq => hy (ys j) hlast ?_⟩
  have hreverse : insertEach offset ys (pieces.map Prod.snd).reverse
      (filled (fun _ => []) pieces last) = filled ys pieces last := insertEach_of_reverse h last
  have hpieces' : List.Sublist [j, i] (pieces.map Prod.snd).reverse := by
    rw [← List.reverse_sublist, List.reverse_reverse]
    exact hpieces
  rw [← hreverse, insertEach_of_two hnodup' horder fun k _ => hother k,
    insertEach_of_two (List.nodup_reverse.2 hnodup) hpieces' fun k _ hj hi => hother k hi hj, hi] at heq
  exact heq

end Flashpoint.Library
