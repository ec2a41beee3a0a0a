/-!
# Bisection in tables that are not sorted

A bisection that keeps a key of at most `p` at one end of its interval and a key above `p` behind the
other stops at a crossing: an element of at most `p` with one above `p` behind it. In a sorted table there
is one crossing, at the greatest key of at most `p`. `Searchable` says so of tables that runs of keys are
appended to again, and `Searchable.append` when it stays true.
-/

namespace Flashpoint.Library

variable {α : Type} (key : α → Nat)

/-- A bisection for `p` can stop at the element: the table ends behind it, or goes on above `p`. -/
structure Crosses (xs : List α) (p i : Nat) (x : α) : Prop where
  get : xs[i]? = some x
  le : key x ≤ p
  next : ∀ y, xs[i + 1]? = some y → p < key y

/-- Wherever a bisection for a `p` below the bound stops, no key of at most `p` is greater. -/
def Searchable (bound : Nat) (xs : List α) : Prop :=
  ∀ p i x, p < bound → Crosses key xs p i x → ∀ y ∈ xs, key y ≤ p → key y ≤ key x

variable {key}

theorem searchable_singleton (bound : Nat) (x : α) : Searchable key bound [x] := by
  intro p i y _ hcross z hz _
  obtain rfl : y = x := List.mem_singleton.1 (List.mem_of_getElem? hcross.get)
  obtain rfl : z = y := List.mem_singleton.1 hz
  exact Nat.le_refl _

/-- In an ascending run a key of at most `p` is at most that of the crossing. -/
theorem Crosses.le_of_ascending {xs : List α} {p i : Nat} {x : α} (h : Crosses key xs p i x)
    (hxs : xs.Pairwise (key · < key ·)) {y : α} (hy : y ∈ xs) (hle : key y ≤ p) : key y ≤ key x := by
  obtain ⟨k, hk, hget⟩ := List.mem_iff_getElem.1 hy
  obtain ⟨hi, hx⟩ := List.getElem?_eq_some_iff.1 h.get
  rw [List.pairwise_iff_getElem] at hxs
  rcases Nat.lt_trichotomy k i with hlt | heq | hgt
  · rw [← hget, ← hx]
    exact Nat.le_of_lt (hxs k i hk hi hlt)
  · subst heq
    exact Nat.le_of_eq (by rw [← hget, hx])
  · -- behind the crossing the keys are above `p`
    have hi' : i + 1 < xs.length := by omega
    have hnext := h.next _ (List.getElem?_eq_getElem hi')
    have habove : key xs[i + 1] ≤ key y := by
      rw [← hget]
      rcases Nat.lt_or_eq_of_le hgt with hlt | heq
      · exact Nat.le_of_lt (hxs (i + 1) k hi' hk hlt)
      · simp only [← heq, Nat.succ_eq_add_one, Nat.le_refl]
    omega

/-- **An ascending run of keys above `start` is appended**: the run holds every key that the table has
above `start`, and none between those that the table lacks. -/
theorem Searchable.append {bound start : Nat} {xs ys : List α} (h : Searchable key bound xs)
    (hys : ys.Pairwise (key · < key ·)) (hstart : ∀ y ∈ ys, start < key y)
    (hagain : ys ≠ [] → ∀ x ∈ xs, start < key x → key x < bound → ∃ y ∈ ys, key y = key x)
    (hwithin : ∀ y ∈ ys, ∀ x ∈ xs, start < key x → key y < key x → ∃ x' ∈ xs, key x' = key y) :
    Searchable key bound (xs ++ ys) := by
  intro p i x hp hcross z hz hle
  have hget : i < xs.length → xs[i]? = some x := by
    intro hlt
    have hsame : (xs ++ ys)[i]? = xs[i]? := List.getElem?_append_left hlt
    exact hsame.symm.trans hcross.get
  rcases Nat.lt_trichotomy (i + 1) xs.length with hlt | heq | hgt
  · -- both sides of the crossing lie in the table
    have hnext : xs[i + 1]? = some xs[i + 1] := List.getElem?_eq_getElem hlt
    have habove : p < key xs[i + 1] :=
      hcross.next _ ((List.getElem?_append_left hlt).trans hnext)
    have hold : Crosses key xs p i x := by
      refine ⟨hget (by omega), hcross.le, fun y hy => ?_⟩
      obtain rfl := Option.some.inj (hnext.symm.trans hy)
      exact habove
    rcases List.mem_append.1 hz with hz | hz
    · exact h p i x hp hold z hz hle
    · have hmem : xs[i + 1] ∈ xs := List.getElem_mem hlt
      have hfar : start < key xs[i + 1] := by
        have hlow := hstart z hz
        omega
      obtain ⟨x', hx', heq⟩ := hwithin z hz _ hmem hfar (Nat.lt_of_le_of_lt hle habove)
      rw [← heq] at hle ⊢
      exact h p i x hp hold x' hx' hle
  · -- the crossing is the end of the table
    have hold : Crosses key xs p i x := by
      refine ⟨hget (by omega), hcross.le, fun y hy => ?_⟩
      rw [List.getElem?_eq_none (Nat.le_of_eq heq.symm)] at hy
      cases hy
    rcases List.mem_append.1 hz with hz | hz
    · exact h p i x hp hold z hz hle
    · -- the run begins above `p`
      obtain ⟨y, rest, rfl⟩ := List.exists_cons_of_ne_nil (List.ne_nil_of_mem hz)
      have hfirst : p < key y := by
        apply hcross.next
        rw [List.getElem?_append_right (Nat.le_of_eq heq.symm), heq, Nat.sub_self]
        rfl
      have habove : key y ≤ key z := by
        rcases List.mem_cons.1 hz with rfl | hz
        · exact Nat.le_refl _
        · exact Nat.le_of_lt (List.rel_of_pairwise_cons hys hz)
      omega
  · -- the crossing lies in the run
    have hrun : Crosses key ys p (i - xs.length) x := by
      refine ⟨?_, hcross.le, fun y hy => hcross.next y ?_⟩
      · rw [← List.getElem?_append_right (by omega)]
        exact hcross.get
      · rw [List.getElem?_append_right (by omega), ← hy]
        congr 1
        omega
    rcases List.mem_append.1 hz with hz | hz
    · by_cases hfar : start < key z
      · have hne : ys ≠ [] := List.ne_nil_of_mem (List.mem_of_getElem? hrun.get)
        obtain ⟨y, hy, heq⟩ := hagain hne z hz hfar (Nat.lt_of_le_of_lt hle hp)
        rw [← heq] at hle ⊢
        exact hrun.le_of_ascending hys hy hle
      · have hlow := hstart x (List.mem_of_getElem? hrun.get)
        omega
    · exact hrun.le_of_ascending hys hz hle

end Flashpoint.Library
