import Mathlib.Data.List.Forall2
import Flashpoint.Library.Climb

/-!
# Two runs side by side

Two computations start in related states. `Coupled g e P m m' Q`: where a run of `m` ends in `g`, the
run of `m'` from a related state ends in `g` too, with a related value in a related state, unless it
stops with `e` (its bound was too small). The rules take the two computations apart together. As the
first run ends in `g`, its branches that leave `g` need not be followed.

* `coupled_bind`, `coupled_pure`, `coupled_step`, `coupled_require`: the steps.
* `coupled_fact`: what the relation says of the values alone.
* `Never.coupled`, `Never.coupled_when`: branches that the first run does not take.
* `coupled_stop`: the bound of the second run is used up.
* `coupled_forM`: loops over related lists.
-/

namespace Flashpoint.Library

namespace Climb

variable {ε σ : Type} [Preorder σ] {α α' β β' : Type}

/-- A run of `m` that ends in `g` is followed by the run of `m'` from a related state. -/
def Coupled (g : LowerSet σ) (e : ε) (P : σ → σ → Prop) (m : Climb ε σ α) (m' : Climb ε σ α')
    (Q : α → α' → σ → σ → Prop) : Prop :=
  ∀ s s' a t, P s s' → s' ∈ g → Ends g m s a t →
    (∃ u, m'.run s' = .stop e u) ∨ ∃ a' t', Ends g m' s' a' t' ∧ Q a a' t t'

variable {g : LowerSet σ} {e : ε} {P P' : σ → σ → Prop} {m : Climb ε σ α} {m' : Climb ε σ α'}
  {Q Q' : α → α' → σ → σ → Prop}

theorem Coupled.conseq (h : Coupled g e P m m' Q) (hP : ∀ s s', P' s s' → P s s')
    (hQ : ∀ a a' s s', Q a a' s s' → Q' a a' s s') : Coupled g e P' m m' Q' := by
  intro s s' a t hs hg hm
  rcases h s s' a t (hP s s' hs) hg hm with hstop | ⟨a', t', hm', hend⟩
  · exact .inl hstop
  · exact .inr ⟨a', t', hm', hQ a a' t t' hend⟩

theorem Coupled.pre (h : Coupled g e P m m' Q) (hP : ∀ s s', P' s s' → P s s') :
    Coupled g e P' m m' Q :=
  h.conseq hP fun _ _ _ _ hend => hend

theorem Coupled.post (h : Coupled g e P m m' Q) (hQ : ∀ a a' s s', Q a a' s s' → Q' a a' s s') :
    Coupled g e P m m' Q' :=
  h.conseq (fun _ _ hs => hs) hQ

/-- The states that are run from may be taken to lie in `g`. -/
theorem coupled_good (h : Coupled g e (fun s s' => s ∈ g ∧ s' ∈ g ∧ P s s') m m' Q) :
    Coupled g e P m m' Q :=
  fun s s' a t hs hg hm => h s s' a t ⟨hm.start, hg, hs⟩ hg hm

/-- What is known of the values of the first run. -/
theorem Coupled.knowing (h : Coupled g e P m m' Q) {K : α → Prop}
    (hm : ∀ s a t, Ends g m s a t → K a) :
    Coupled g e P m m' fun a a' s s' => K a ∧ Q a a' s s' := by
  intro s s' a t hs hg hends
  rcases h s s' a t hs hg hends with hstop | ⟨a', t', hends', hQ⟩
  · exact .inl hstop
  · exact .inr ⟨a', t', hends', hm s a t hends, hQ⟩

/-- A fact that does not depend on the states. -/
theorem coupled_fact {c : Prop} (h : c → Coupled g e P m m' Q) :
    Coupled g e (fun s s' => c ∧ P s s') m m' Q :=
  fun s s' a t hs => h hs.1 s s' a t hs.2

theorem Never.coupled (h : Never g m) : Coupled g e P m m' Q :=
  fun s _ a t _ _ hm => absurd hm (h s a t)

theorem coupled_stop : Coupled g e P m (stop e) Q :=
  fun _ s' _ _ _ _ _ => .inl ⟨s', rfl⟩

theorem coupled_pure {a : α} {a' : α'} (h : ∀ s s', P s s' → Q a a' s s') :
    Coupled g e P (pure a) (pure a') Q := by
  intro s s' b t hs hg hm
  obtain ⟨rfl, rfl, -⟩ := ends_pure.1 hm
  exact .inr ⟨a', s', ends_pure.2 ⟨rfl, rfl, hg⟩, h t s' hs⟩

theorem coupled_bind {k : α → Climb ε σ β} {k' : α' → Climb ε σ β'} {S : β → β' → σ → σ → Prop}
    (hm : Coupled g e P m m' Q) (hk : ∀ a a', Coupled g e (Q a a') (k a) (k' a') S) :
    Coupled g e P (m >>= k) (m' >>= k') S := by
  intro s s' b t hs hg hends
  obtain ⟨a, s₁, hfirst, hrest⟩ := ends_bind.1 hends
  rcases hm s s' a s₁ hs hg hfirst with ⟨u, hstop⟩ | ⟨a', s₁', hfirst', hQ⟩
  · exact .inl ⟨u, run_bind_stop hstop⟩
  · rcases hk a a' s₁ s₁' b t hQ hfirst'.2 hrest with ⟨u, hstop⟩ | ⟨b', t', hrest', hS⟩
    · exact .inl ⟨u, (run_bind_ok hfirst'.1).trans hstop⟩
    · exact .inr ⟨b', t', ends_bind.2 ⟨a', s₁', hfirst', hrest'⟩, hS⟩

theorem coupled_step {f : σ → α × σ} {f' : σ → α' × σ} {hf : ∀ s, s ≤ (f s).2}
    {hf' : ∀ s, s ≤ (f' s).2} (hstays : ∀ s', s' ∈ g → (f' s').2 ∈ g)
    (h : ∀ s s', P s s' → Q (f s).1 (f' s').1 (f s).2 (f' s').2) :
    Coupled g e P (step f hf) (step f' hf') Q := by
  intro s s' a t hs hg hm
  obtain ⟨rfl, rfl, -⟩ := ends_step.1 hm
  exact .inr ⟨_, _, ends_step.2 ⟨rfl, rfl, hstays s' hg⟩, h s s' hs⟩

theorem coupled_require {d d' : ε} {f : σ → Option α} {f' : σ → Option α'}
    (h : ∀ s s' a, P s s' → f s = some a → ∃ a', f' s' = some a' ∧ Q a a' s s') :
    Coupled g e P (require d f) (require d' f') Q := by
  intro s s' a t hs hg hm
  obtain ⟨ha, rfl, -⟩ := ends_require.1 hm
  obtain ⟨a', ha', hQ⟩ := h t s' a hs ha
  exact .inr ⟨a', s', ends_require.2 ⟨ha', rfl, hg⟩, hQ⟩

/-- What the first run does not do, the second does not do either. -/
theorem Never.coupled_when {c c' : Prop} [Decidable c] [Decidable c'] {m m' : Climb ε σ Unit}
    (hm : Never g m) (hc : c' → c) : Coupled g e P (when c m) (when c' m') fun _ _ => P := by
  intro s s' a t hs hg hends
  obtain ⟨hnot, rfl⟩ := hm.ends_when hends
  refine .inr ⟨(), s', ?_, hs⟩
  exact Climb.ends_when.2 (.inr ⟨fun h => hnot (hc h), rfl, hg⟩)

theorem coupled_when {c c' : Prop} [Decidable c] [Decidable c'] {m m' : Climb ε σ Unit}
    (hc : c ↔ c') (hm : c → Coupled g e P m m' fun _ _ => P) :
    Coupled g e P (when c m) (when c' m') fun _ _ => P := by
  by_cases h : c
  · rw [when, when, if_pos h, if_pos (hc.1 h)]
    exact hm h
  · rw [when, when, if_neg h, if_neg (mt hc.2 h)]
    exact coupled_pure fun _ _ hs => hs

theorem forall₂_of_map_eq {γ : Type} {f : β → γ} {f' : β' → γ} {xs : List β} {xs' : List β'}
    (h : xs.map f = xs'.map f') : List.Forall₂ (fun x x' => f x = f' x') xs xs' := by
  rw [← List.forall₂_eq_eq_eq, List.forall₂_map_left_iff, List.forall₂_map_right_iff] at h
  exact h

/-- A loop over lists whose elements are related. -/
theorem coupled_forM {xs : List β} {xs' : List β'} {f : β → Climb ε σ PUnit}
    {f' : β' → Climb ε σ PUnit} {R : β → β' → Prop} (hxs : List.Forall₂ R xs xs')
    (hf : ∀ x x', R x x' → Coupled g e P (f x) (f' x') fun _ _ => P) :
    Coupled g e P (xs.forM f) (xs'.forM f') fun _ _ => P := by
  induction hxs with
  | nil => exact coupled_pure fun _ _ hs => hs
  | cons hx _ ih => exact coupled_bind (hf _ _ hx) fun _ _ => ih

end Climb

end Flashpoint.Library
