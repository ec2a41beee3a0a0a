/-!
# Loops that end

A loop is given by one turn of it, a function of what going round again does. It ends when a turn
goes round again only with a smaller measure. A loop that runs on a bound, and is given the measure
as that bound, does what its turn says.
-/

namespace Flashpoint.Library

variable {σ α : Type}

/-- A loop that ends, with its turn and a measure. -/
structure Ends (μ : σ → Nat) (turn : (σ → α) → σ → α) (loop : σ → α) : Prop where
  /-- A turn depends on the loop only where the measure is smaller. -/
  again : ∀ (s : σ) (f g : σ → α), (∀ s', μ s' < μ s → f s' = g s') → turn f s = turn g s
  /-- The loop does what its turn says. -/
  turns : ∀ s, loop s = turn loop s

namespace Ends

variable {μ : σ → Nat} {turn : (σ → α) → σ → α} {F : Nat → σ → α}

/-- A larger bound than the measure changes nothing. -/
theorem bounded_eq (hF : ∀ n s, F (n + 1) s = turn (F n) s)
    (hagain : ∀ s (f g : σ → α), (∀ s', μ s' < μ s → f s' = g s') → turn f s = turn g s)
    (hzero : ∀ s, μ s = 0 → ∀ f, F 0 s = turn f s) (n : Nat) :
    ∀ s, μ s ≤ n → F n s = F (μ s) s := by
  induction n using Nat.strongRecOn with
  | ind n ih =>
    intro s hn
    cases n with
    | zero => rw [Nat.le_zero.1 hn]
    | succ n =>
      rw [hF]
      cases hm : μ s with
      | zero => exact (hzero s hm _).symm
      | succ m =>
        rw [hF]
        refine hagain s _ _ fun s' hs' => ?_
        have hmn : m ≤ n := by omega
        have hle : μ s' ≤ m := by omega
        rw [ih n (Nat.lt_succ_self n) s' (by omega), ih m (by omega) s' hle]

/-- A loop on a bound ends if its turn goes round again only with a smaller bound. -/
theorem of_bounded (hF : ∀ n s, F (n + 1) s = turn (F n) s)
    (hagain : ∀ s (f g : σ → α), (∀ s', μ s' < μ s → f s' = g s') → turn f s = turn g s)
    (hzero : ∀ s, μ s = 0 → ∀ f, F 0 s = turn f s) : Ends μ turn fun s => F (μ s) s where
  again := hagain
  turns s := by
    cases hm : μ s with
    | zero => exact hzero s hm _
    | succ m =>
      rw [hF]
      refine hagain s _ _ fun s' hs' => ?_
      exact bounded_eq hF hagain hzero m s' (by omega)

end Ends

end Flashpoint.Library
