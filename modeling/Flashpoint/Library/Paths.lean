import Mathlib.Data.List.Perm.Subperm
import Mathlib.Logic.Relation

/-!
# Walks along a relation

A recursion that follows a relation ends within a bound when no path is longer than the bound. Where
the points with successors are told apart by finitely many keys, that is so for one more than the keys
exactly if no point that can be reached lies on a cycle; on a cycle no bound will do.
-/

namespace Flashpoint.Library

open Relation

variable {α : Type} {r q : α → α → Prop} {a b : α}

/-- The paths from the point have fewer steps than the bound says. -/
def Bounded (r : α → α → Prop) : Nat → α → Prop
  | 0, _ => False
  | n + 1, a => ∀ b, r a b → Bounded r n b

/-- No point that can be reached lies on a cycle. -/
def AcyclicFrom (r : α → α → Prop) (a : α) : Prop :=
  ∀ b, ReflTransGen r a b → ¬ TransGen r b b

theorem Bounded.of_imp (h : ∀ x y, q x y → r x y) {n : Nat} (hbounded : Bounded r n a) :
    Bounded q n a := by
  induction n generalizing a with
  | zero => exact hbounded
  | succ n ih => exact fun b hab => ih (hbounded b (h a b hab))

theorem AcyclicFrom.head (h : AcyclicFrom r a) (hab : r a b) : AcyclicFrom r b :=
  fun c hbc => h c (.head hab hbc)

theorem acyclicFrom_of_end (h : ∀ b, ¬ r a b) : AcyclicFrom r a := by
  intro b hab hcycle
  rcases hab.cases_head with rfl | ⟨c, hac, -⟩
  · obtain ⟨c, hac, -⟩ := TransGen.head'_iff.1 hcycle
    exact h c hac
  · exact h c hac

/-- The steps to points with successors are enough to run round a cycle. -/
theorem Bounded.acyclicFrom (hq : ∀ x y z, r x y → r y z → q x y) {n : Nat}
    (h : Bounded q n a) : AcyclicFrom r a := by
  intro b hab hcycle
  obtain ⟨c, hbc, hcb⟩ := TransGen.head'_iff.1 hcycle
  induction n generalizing a with
  | zero => exact h
  | succ n ih =>
    obtain ⟨x, hax, hxb⟩ : ∃ x, r a x ∧ ReflTransGen r x b := by
      rcases hab.cases_head with rfl | hstep
      · exact ⟨c, hbc, hcb⟩
      · exact hstep
    obtain ⟨y, hxy⟩ : ∃ y, r x y := by
      rcases hxb.cases_head with rfl | ⟨y, hxy, -⟩
      · exact ⟨c, hbc⟩
      · exact ⟨y, hxy⟩
    exact ih (h x (hq a x y hax hxy)) hxb

/-- Keys below a bound that are told apart are no more than the bound. -/
theorem length_le_of_nodup {n : Nat} {keys : List Nat} (hnodup : keys.Nodup)
    (h : ∀ k ∈ keys, k < n) : keys.length ≤ n := by
  have hsubset : keys ⊆ List.range n := fun k hk => List.mem_range.2 (h k hk)
  have hlength := (List.subperm_of_subset hnodup hsubset).length_le
  rwa [List.length_range] at hlength

section Keys

variable (key : α → Option Nat) {n : Nat} (hkey : ∀ x y, r x y → ∃ k, key x = some k ∧ k < n)
  (hsame : ∀ x x' y, key x = key x' → r x y → r x' y)
include hkey hsame

/-- The keys of the points passed so far are all different, since a key that comes back closes a
cycle. -/
theorem bounded_of_passed (fuel : Nat) (passed : List Nat) (hnodup : passed.Nodup)
    (hpassed : ∀ k ∈ passed, k < n ∧ ∃ x, key x = some k ∧ TransGen r x a)
    (hfuel : n + 1 ≤ fuel + passed.length) (h : AcyclicFrom r a) : Bounded r fuel a := by
  induction fuel generalizing a passed with
  | zero =>
    have hlength := length_le_of_nodup hnodup fun k hk => (hpassed k hk).1
    omega
  | succ fuel ih =>
    intro b hab
    obtain ⟨k, hk, hlt⟩ := hkey a b hab
    have hnew : k ∉ passed := by
      intro hmem
      obtain ⟨-, x, hx, hxa⟩ := hpassed k hmem
      obtain ⟨c, hxc, hca⟩ := TransGen.head'_iff.1 hxa
      exact h a .refl (.head' (hsame x a c (hx.trans hk.symm) hxc) hca)
    refine ih (k :: passed) (List.nodup_cons.2 ⟨hnew, hnodup⟩) (fun k' hk' => ?_) ?_ (h.head hab)
    · rcases List.mem_cons.1 hk' with rfl | hk'
      · exact ⟨hlt, a, hk, .single hab⟩
      · obtain ⟨hlt', x, hx, hxa⟩ := hpassed k' hk'
        exact ⟨hlt', x, hx, .tail hxa hab⟩
    · rw [List.length_cons]
      omega

theorem AcyclicFrom.bounded (h : AcyclicFrom r a) : Bounded r (n + 1) a :=
  bounded_of_passed key hkey hsame (n + 1) [] .nil (fun _ hk => absurd hk List.not_mem_nil)
    (Nat.le_refl _) h

end Keys

end Flashpoint.Library
