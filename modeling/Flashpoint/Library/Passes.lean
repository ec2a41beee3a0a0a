import Flashpoint.Library.Climb

/-!
# Computations that pass under a condition

A validator goes through a state, and stops or leaves the good states where something is wrong with it.
`Passes g m s a t P`: from `s` the computation ends in `g` exactly if `P` holds, and then with the value
`a` in the state `t`. Where it only tests the state, that is `s` again. The rules collect the condition
along the computation.
-/

namespace Flashpoint.Library

namespace Climb

variable {ε σ : Type} [Preorder σ] {α β : Type}

/-- From `s` the computation ends in `g` exactly under the condition, with the value `a` in `t`. -/
def Passes (g : LowerSet σ) (m : Climb ε σ α) (s : σ) (a : α) (t : σ) (P : Prop) : Prop :=
  ∀ b s', Ends g m s b s' ↔ P ∧ b = a ∧ s' = t

variable {g : LowerSet σ} {s t u : σ} {a : α} {b : β} {P Q : Prop}

theorem Passes.congr {m : Climb ε σ α} (h : Passes g m s a t P) (hPQ : P ↔ Q) :
    Passes g m s a t Q :=
  fun b s' => (h b s').trans (and_congr_left fun _ => hPQ)

theorem Never.passes {m : Climb ε σ α} (h : Never g m) : Passes g m s a t False :=
  fun b s' => iff_of_false (h s b s') fun hfalse => hfalse.1

/-- What comes second may rely on what the first part checked. -/
theorem passes_bind_of {m : Climb ε σ α} {k : α → Climb ε σ β} (hm : Passes g m s a t P)
    (hk : P → Passes g (k a) t b u Q) : Passes g (m >>= k) s b u (P ∧ Q) := by
  intro b' s'
  rw [ends_bind, and_assoc]
  constructor
  · rintro ⟨a', s₁, hends, hrest⟩
    obtain ⟨hP, rfl, rfl⟩ := (hm a' s₁).1 hends
    exact ⟨hP, (hk hP b' s').1 hrest⟩
  · rintro ⟨hP, hrest⟩
    exact ⟨a, t, (hm a t).2 ⟨hP, rfl, rfl⟩, (hk hP b' s').2 hrest⟩

theorem passes_bind {m : Climb ε σ α} {k : α → Climb ε σ β} (hm : Passes g m s a t P)
    (hk : Passes g (k a) t b u Q) : Passes g (m >>= k) s b u (P ∧ Q) :=
  passes_bind_of hm fun _ => hk

/-- A step that is always taken. -/
theorem passes_after {m : Climb ε σ α} {k : α → Climb ε σ β} (hm : Passes g m s a t True)
    (hk : Passes g (k a) t b u P) : Passes g (m >>= k) s b u P :=
  (passes_bind hm hk).congr (iff_of_eq (true_and P))

theorem passes_absent {e : ε} {f : σ → Option α} (hf : f s = none) :
    Passes g (require e f) s a t False := by
  refine fun b s' => iff_of_false (fun hends => ?_) fun hfalse => hfalse.1
  cases hf.symm.trans (ends_require.1 hends).1

/-- Something is looked up. -/
theorem passes_require {e : ε} {f : σ → Option α} {k : α → Climb ε σ β} {Q : α → Prop} (hs : s ∈ g)
    (hk : ∀ a, f s = some a → Passes g (k a) s b t (Q a)) :
    Passes g (require e f >>= k) s b t (∃ a, f s = some a ∧ Q a) := by
  intro b' s'
  rw [ends_bind]
  constructor
  · rintro ⟨a, s₁, hrequire, hends⟩
    obtain ⟨ha, rfl, -⟩ := ends_require.1 hrequire
    obtain ⟨hQ, hresult⟩ := (hk a ha b' s').1 hends
    exact ⟨⟨a, ha, hQ⟩, hresult⟩
  · rintro ⟨⟨a, ha, hQ⟩, hresult⟩
    exact ⟨a, s, ends_require.2 ⟨ha, rfl, hs⟩, (hk a ha b' s').2 ⟨hQ, hresult⟩⟩

/-- Something that is there is looked up. -/
theorem passes_found {e : ε} {f : σ → Option α} {k : α → Climb ε σ β} (hs : s ∈ g) (hf : f s = some a)
    (hk : Passes g (k a) s b t P) : Passes g (require e f >>= k) s b t P := by
  refine passes_after (fun a' s' => ?_) hk
  rw [ends_require, hf]
  exact ⟨fun h => ⟨trivial, (Option.some.inj h.1).symm, h.2.1⟩,
    fun h => ⟨congrArg some h.2.1.symm, h.2.2, hs⟩⟩

section Good

variable (hs : s ∈ g)
include hs

theorem passes_pure : Passes g (pure a : Climb ε σ α) s a s True := by
  intro b s'
  rw [ends_pure]
  exact ⟨fun h => ⟨trivial, h.1, h.2.1⟩, fun h => ⟨h.2.1, h.2.2, hs⟩⟩

theorem passes_get : Passes g (get : Climb ε σ σ) s s s True := by
  intro b s'
  rw [ends_get]
  exact ⟨fun h => ⟨trivial, h.1, h.2.1⟩, fun h => ⟨h.2.1, h.2.2, hs⟩⟩

theorem passes_when {c : Prop} [Decidable c] {m : Climb ε σ Unit} (hm : c → Passes g m s () s P) :
    Passes g (when c m) s () s (c → P) := by
  by_cases hc : c
  · rw [when, if_pos hc]
    exact (hm hc).congr ⟨fun hP _ => hP, fun hP => hP hc⟩
  · rw [when, if_neg hc]
    exact (passes_pure hs).congr (iff_of_true trivial fun h => absurd h hc)

/-- A report under a condition. -/
theorem Never.passes_when {c : Prop} [Decidable c] {m : Climb ε σ Unit} (hm : Never g m) :
    Passes g (when c m) s () s (¬ c) :=
  Climb.passes_when hs fun _ => hm.passes

/-- A loop whose turns test the state. -/
theorem passes_forM {xs : List β} {f : β → Climb ε σ PUnit} {P : β → Prop}
    (hf : ∀ x ∈ xs, Passes g (f x) s ⟨⟩ s (P x)) : Passes g (xs.forM f) s ⟨⟩ s (∀ x ∈ xs, P x) := by
  induction xs with
  | nil => exact (passes_pure hs).congr (iff_of_true trivial fun _ hx => absurd hx List.not_mem_nil)
  | cons x xs ih =>
    rw [List.forall_mem_cons] at hf
    refine (passes_bind hf.1 (ih hf.2)).congr ?_
    rw [List.forall_mem_cons]

end Good

end Climb

end Flashpoint.Library
