import Mathlib.Order.UpperLower.CompleteLattice

/-!
# Computations that only climb

A state monad with early stops in which every computation carries the proof that it moves the
state up a preorder. A log that is only appended to, a heap that only grows, a counter that only
rises are of this kind. What the proof buys is `ends_bind`: for a set of states that is closed
downwards (`LowerSet`), a run that ends inside the set was inside it after every step, so the
runs that end well compose like relations.

* `Outcome`: a value, or a stop; the state is kept in both.
* `Climb`: the computations, a lawful monad.
* `Ends g m s a s'`: `m` runs from `s` to the value `a` in `s'`, and `s'` lies in `g`.
* `Ensures g P m Q`: the runs of `m` that start in `P` and end in `g` have `Q`.
* `Keeps R m`: every run of `m` to a value is related by `R` from its first state to its last.
* `KeepsOr R E m`: so is every run to a value, and every run that stops is related by `E`.
* `Triple P m Q E`: a run of `m` from `P` has a value and ends in `Q`, or stops and ends in `E`.
-/

namespace Flashpoint.Library

/-- How a computation ends. -/
inductive Outcome (ε σ α : Type) where
  | ok (a : α) (s : σ)
  | stop (e : ε) (s : σ)

namespace Outcome

variable {ε σ α : Type}

/-- The last state of the run. -/
def state : Outcome ε σ α → σ
  | .ok _ s => s
  | .stop _ s => s

/-- The value of the run, when it has one. -/
def value? : Outcome ε σ α → Option α
  | .ok a _ => some a
  | .stop _ _ => none

/-- Why the run stopped, when it did. -/
def stop? : Outcome ε σ α → Option ε
  | .ok _ _ => none
  | .stop e _ => some e

theorem exists_eq_ok {o : Outcome ε σ α} (h : o.stop? = none) : ∃ a, o = .ok a o.state := by
  cases o with
  | ok a s => exact ⟨a, rfl⟩
  | stop e s => exact absurd h (by simp only [stop?, reduceCtorEq, not_false_eq_true])

@[simp] theorem state_ok (a : α) (s : σ) : (Outcome.ok a s : Outcome ε σ α).state = s := rfl

@[simp] theorem state_stop (e : ε) (s : σ) : (Outcome.stop e s : Outcome ε σ α).state = s := rfl

end Outcome

/-- A computation that never moves the state down. -/
structure Climb (ε σ : Type) [Preorder σ] (α : Type) where
  run : σ → Outcome ε σ α
  le_run : ∀ s, s ≤ (run s).state

namespace Climb

variable {ε σ : Type} [Preorder σ] {α β : Type}

@[ext] theorem ext {m m' : Climb ε σ α} (h : ∀ s, m.run s = m'.run s) : m = m' := by
  cases m
  cases m'
  simp only [mk.injEq]
  exact funext h

/-- The computation that only returns. -/
protected def pure (a : α) : Climb ε σ α where
  run s := .ok a s
  le_run _ := le_rfl

/-- Sequencing: a stop skips the rest. -/
protected def bind (m : Climb ε σ α) (f : α → Climb ε σ β) : Climb ε σ β where
  run s :=
    match m.run s with
    | .ok a s' => (f a).run s'
    | .stop e s' => .stop e s'
  le_run s := by
    have h := m.le_run s
    revert h
    cases m.run s with
    | ok a s' => exact fun h => le_trans h ((f a).le_run s')
    | stop e s' => exact fun h => h

instance : Monad (Climb ε σ) where
  pure := Climb.pure
  bind := Climb.bind

@[simp] theorem run_pure (a : α) (s : σ) : (pure a : Climb ε σ α).run s = .ok a s := rfl

theorem run_bind (m : Climb ε σ α) (f : α → Climb ε σ β) (s : σ) :
    (m >>= f).run s =
      match m.run s with
      | .ok a s' => (f a).run s'
      | .stop e s' => .stop e s' := rfl

theorem run_bind_ok {m : Climb ε σ α} {f : α → Climb ε σ β} {s s' : σ} {a : α}
    (h : m.run s = .ok a s') : (m >>= f).run s = (f a).run s' := by
  rw [run_bind, h]

theorem run_bind_stop {m : Climb ε σ α} {f : α → Climb ε σ β} {s s' : σ} {e : ε}
    (h : m.run s = .stop e s') : (m >>= f).run s = .stop e s' := by
  rw [run_bind, h]

theorem run_bind_eq_ok {m : Climb ε σ α} {f : α → Climb ε σ β} {s s'' : σ} {b : β} :
    (m >>= f).run s = .ok b s'' ↔ ∃ a s', m.run s = .ok a s' ∧ (f a).run s' = .ok b s'' := by
  rw [run_bind]
  cases m.run s with
  | stop e s' => simp only [reduceCtorEq, false_and, exists_false]
  | ok a s' => simp only [Outcome.ok.injEq, and_assoc, exists_eq_left', exists_and_left]

theorem bind_pure_eq (m : Climb ε σ α) : m >>= pure = m := by
  refine Climb.ext fun s => ?_
  rw [run_bind]
  cases m.run s <;> rfl

theorem bind_bind_eq {γ : Type} (m : Climb ε σ α) (f : α → Climb ε σ β) (k : β → Climb ε σ γ) :
    m >>= f >>= k = m >>= fun a => f a >>= k := by
  refine Climb.ext fun s => ?_
  simp only [run_bind]
  cases m.run s <;> rfl

instance : LawfulMonad (Climb ε σ) :=
  LawfulMonad.mk' (Climb ε σ) bind_pure_eq (fun _ _ => rfl) bind_bind_eq

/-- Read the state. -/
def get : Climb ε σ σ where
  run s := .ok s s
  le_run _ := le_rfl

/-- Stop. -/
def stop (e : ε) : Climb ε σ α where
  run s := .stop e s
  le_run _ := le_rfl

/-- A step that always has a value. -/
def step (f : σ → α × σ) (h : ∀ s, s ≤ (f s).2) : Climb ε σ α where
  run s := .ok (f s).1 (f s).2
  le_run := h

/-- Read something that may be absent; the run stops when it is. -/
def require (e : ε) (f : σ → Option α) : Climb ε σ α where
  run s :=
    match f s with
    | some a => .ok a s
    | none => .stop e s
  le_run s := by cases f s <;> exact le_rfl

/-- Run the computation only under a condition. -/
def when (c : Prop) [Decidable c] (m : Climb ε σ Unit) : Climb ε σ Unit :=
  if c then m else pure ()

@[simp] theorem run_get (s : σ) : (get : Climb ε σ σ).run s = .ok s s := rfl

@[simp] theorem run_stop (e : ε) (s : σ) : (stop e : Climb ε σ α).run s = .stop e s := rfl

@[simp] theorem run_step (f : σ → α × σ) (h : ∀ s, s ≤ (f s).2) (s : σ) :
    (step f h : Climb ε σ α).run s = .ok (f s).1 (f s).2 := rfl

theorem run_require_some {e : ε} {f : σ → Option α} {s : σ} {a : α} (h : f s = some a) :
    (require e f).run s = .ok a s := by
  simp only [require, h]

theorem run_require_none {e : ε} {f : σ → Option α} {s : σ} (h : f s = none) :
    (require e f).run s = .stop e s := by
  simp only [require, h]

theorem run_require_eq_ok {e : ε} {f : σ → Option α} {s s' : σ} {a : α} :
    (require e f).run s = .ok a s' ↔ f s = some a ∧ s' = s := by
  cases h : f s with
  | none => simp only [run_require_none h, reduceCtorEq, false_and]
  | some b => simp only [run_require_some h, Outcome.ok.injEq, Option.some.injEq, eq_comm]

/-! ## Runs that end in a lower set -/

section Ends

variable (g : LowerSet σ)

/-- `m` runs from `s` to `a` in `s'`, and `s'` lies in `g`. -/
def Ends (m : Climb ε σ α) (s : σ) (a : α) (s' : σ) : Prop :=
  m.run s = .ok a s' ∧ s' ∈ g

variable {g}

/-- A run that ends in `g` started in `g`. -/
theorem Ends.start {m : Climb ε σ α} {s s' : σ} {a : α} (h : Ends g m s a s') : s ∈ g := by
  refine g.lower ?_ h.2
  have hle := m.le_run s
  rw [h.1] at hle
  exact hle

theorem Ends.stays {m : Climb ε σ α} {s s' : σ} {a : α} (h : Ends g m s a s') : s' ∈ g := h.2

theorem Ends.mono {g' : LowerSet σ} (hg : g ≤ g') {m : Climb ε σ α} {s s' : σ} {a : α}
    (h : Ends g m s a s') : Ends g' m s a s' := ⟨h.1, hg h.2⟩

theorem ends_pure {a b : α} {s s' : σ} :
    Ends g (pure a : Climb ε σ α) s b s' ↔ b = a ∧ s' = s ∧ s ∈ g := by
  simp only [Ends, run_pure, Outcome.ok.injEq]
  constructor
  · rintro ⟨⟨rfl, rfl⟩, hg⟩
    exact ⟨rfl, rfl, hg⟩
  · rintro ⟨rfl, rfl, hg⟩
    exact ⟨⟨rfl, rfl⟩, hg⟩

/-- Runs that end in `g` compose: the state between the two parts lies in `g` too. -/
theorem ends_bind {m : Climb ε σ α} {f : α → Climb ε σ β} {s s'' : σ} {b : β} :
    Ends g (m >>= f) s b s'' ↔ ∃ a s', Ends g m s a s' ∧ Ends g (f a) s' b s'' := by
  constructor
  · rintro ⟨hrun, hg⟩
    rw [run_bind] at hrun
    cases hm : m.run s with
    | stop e s' => simp only [hm, reduceCtorEq] at hrun
    | ok a s' =>
      simp only [hm] at hrun
      have hf : Ends g (f a) s' b s'' := ⟨hrun, hg⟩
      exact ⟨a, s', ⟨hm, hf.start⟩, hf⟩
  · rintro ⟨a, s', hm, hf⟩
    exact ⟨(run_bind_ok hm.1).trans hf.1, hf.2⟩

theorem ends_get {a s s' : σ} :
    Ends g (get : Climb ε σ σ) s a s' ↔ a = s ∧ s' = s ∧ s ∈ g := by
  simp only [Ends, run_get, Outcome.ok.injEq]
  constructor
  · rintro ⟨⟨rfl, rfl⟩, hg⟩
    exact ⟨rfl, rfl, hg⟩
  · rintro ⟨rfl, rfl, hg⟩
    exact ⟨⟨rfl, rfl⟩, hg⟩

theorem ends_stop {e : ε} {s s' : σ} {a : α} : ¬ Ends g (stop e : Climb ε σ α) s a s' := by
  simp only [Ends, run_stop, reduceCtorEq, false_and, not_false_eq_true]

theorem ends_step {f : σ → α × σ} {h : ∀ s, s ≤ (f s).2} {s s' : σ} {a : α} :
    Ends g (step f h : Climb ε σ α) s a s' ↔ a = (f s).1 ∧ s' = (f s).2 ∧ s' ∈ g := by
  simp only [Ends, run_step, Outcome.ok.injEq]
  constructor
  · rintro ⟨⟨rfl, rfl⟩, hg⟩
    exact ⟨rfl, rfl, hg⟩
  · rintro ⟨rfl, rfl, hg⟩
    exact ⟨⟨rfl, rfl⟩, hg⟩

theorem ends_require {e : ε} {f : σ → Option α} {s s' : σ} {a : α} :
    Ends g (require e f) s a s' ↔ f s = some a ∧ s' = s ∧ s ∈ g := by
  cases h : f s with
  | none => simp only [Ends, run_require_none h, reduceCtorEq, false_and]
  | some b =>
    simp only [Ends, run_require_some h, Outcome.ok.injEq, Option.some.injEq]
    constructor
    · rintro ⟨⟨rfl, rfl⟩, hg⟩
      exact ⟨rfl, rfl, hg⟩
    · rintro ⟨rfl, rfl, hg⟩
      exact ⟨⟨rfl, rfl⟩, hg⟩

theorem ends_when {c : Prop} [Decidable c] {m : Climb ε σ Unit} {s s' : σ} {u : Unit} :
    Ends g (when c m) s u s' ↔ (c ∧ Ends g m s u s') ∨ (¬ c ∧ s' = s ∧ s ∈ g) := by
  by_cases hc : c
  · simp only [when, hc, if_true, true_and, not_true_eq_false, false_and, or_false]
  · simp only [when, hc, if_false, false_and, not_false_eq_true, true_and, false_or, ends_pure]

/-! ### Pre- and postconditions of such runs -/

variable (g) in
/-- The runs of `m` that start in `P` and end in `g` have `Q`. -/
def Ensures (P : σ → Prop) (m : Climb ε σ α) (Q : α → σ → Prop) : Prop :=
  ∀ s a s', P s → Ends g m s a s' → Q a s'

variable (g) in
/-- No run of `m` ends in `g`. -/
def Never (m : Climb ε σ α) : Prop := ∀ s a s', ¬ Ends g m s a s'

variable {P P' : σ → Prop} {Q Q' : α → σ → Prop}

theorem Never.ensures {m : Climb ε σ α} (h : Never g m) : Ensures g P m Q :=
  fun s a s' _ hm => absurd hm (h s a s')

theorem Never.anti {g' : LowerSet σ} (hg : g ≤ g') {m : Climb ε σ α} (h : Never g' m) :
    Never g m := fun s a s' hm => h s a s' (hm.mono hg)

/-- What every run keeps may be carried along. -/
theorem Ensures.frame {R : σ → σ → Prop} {m : Climb ε σ α} (h : Ensures g P m Q)
    (hR : ∀ s a s', m.run s = .ok a s' → R s s') {F : σ → Prop} (hF : ∀ s s', R s s' → F s → F s') :
    Ensures g (fun s => P s ∧ F s) m fun a s => Q a s ∧ F s :=
  fun s a s' hs hm => ⟨h s a s' hs.1 hm, hF s s' (hR s a s' hm.1) hs.2⟩

theorem never_stop {e : ε} : Never g (stop e : Climb ε σ α) := fun _ _ _ => ends_stop

theorem Never.bind {m : Climb ε σ α} (h : Never g m) {f : α → Climb ε σ β} :
    Never g (m >>= f) := by
  intro s b s'' hends
  obtain ⟨a, s', hm, -⟩ := ends_bind.1 hends
  exact h s a s' hm

theorem never_bind {m : Climb ε σ α} {f : α → Climb ε σ β} (h : ∀ a, Never g (f a)) :
    Never g (m >>= f) := by
  intro s b s'' hends
  obtain ⟨a, s', -, hf⟩ := ends_bind.1 hends
  exact h a s' b s'' hf

theorem Ensures.conseq {m : Climb ε σ α} (h : Ensures g P m Q) (hP : ∀ s, P' s → P s)
    (hQ : ∀ a s, Q a s → Q' a s) : Ensures g P' m Q' :=
  fun s a s' hs hm => hQ a s' (h s a s' (hP s hs) hm)

/-- A fact that does not depend on the state. -/
theorem ensures_fact {c : Prop} {m : Climb ε σ α} (h : c → Ensures g P m Q) :
    Ensures g (fun s => c ∧ P s) m Q :=
  fun s a s' hs hm => h hs.1 s a s' hs.2 hm

theorem ensures_exists {ι : Type} {P : ι → σ → Prop} {m : Climb ε σ α}
    (h : ∀ i, Ensures g (P i) m Q) : Ensures g (fun s => ∃ i, P i s) m Q := by
  intro s a s' hs hm
  obtain ⟨i, hs⟩ := hs
  exact h i s a s' hs hm

/-- The condition of what never ends in `g` does not hold. -/
theorem Never.ends_when {c : Prop} [Decidable c] {m : Climb ε σ Unit} {s s' : σ} {u : Unit}
    (hm : Never g m) (h : Ends g (when c m) s u s') : ¬ c ∧ s' = s := by
  rcases Climb.ends_when.1 h with ⟨-, h⟩ | ⟨hc, hs, -⟩
  · exact absurd h (hm s u s')
  · exact ⟨hc, hs⟩

theorem ensures_pure {a : α} (h : ∀ s, P s → Q a s) : Ensures g P (pure a : Climb ε σ α) Q := by
  intro s b s' hs hm
  obtain ⟨rfl, rfl, -⟩ := ends_pure.1 hm
  exact h _ hs

theorem ensures_bind {m : Climb ε σ α} {f : α → Climb ε σ β} {S : β → σ → Prop}
    (hm : Ensures g P m Q) (hf : ∀ a, Ensures g (Q a) (f a) S) : Ensures g P (m >>= f) S := by
  intro s b s'' hs hends
  obtain ⟨a, s', hm', hf'⟩ := ends_bind.1 hends
  exact hf a s' b s'' (hm s a s' hs hm') hf'

theorem ensures_step {f : σ → α × σ} {h : ∀ s, s ≤ (f s).2} (hQ : ∀ s, P s → Q (f s).1 (f s).2) :
    Ensures g P (step f h : Climb ε σ α) Q := by
  intro s a s' hs hm
  obtain ⟨rfl, rfl, -⟩ := ends_step.1 hm
  exact hQ s hs

theorem ensures_when {c : Prop} [Decidable c] {m : Climb ε σ Unit} {Q : Unit → σ → Prop}
    (hm : c → Ensures g P m Q) (hskip : ¬ c → ∀ s, P s → Q () s) : Ensures g P (when c m) Q := by
  by_cases hc : c
  · simpa only [when, hc, if_true] using hm hc
  · simpa only [when, hc, if_false] using ensures_pure (hskip hc)

/-- A loop over a list: what each turn ensures of its element holds of all of them in the end, when
the later turns keep it. -/
theorem ensures_forM {xs : List β} {f : β → Climb ε σ PUnit} {S : β → σ → Prop}
    (hf : ∀ x ∈ xs, Ensures g P (f x) fun _ s => P s ∧ S x s)
    (hkeep : ∀ x ∈ xs, ∀ y ∈ xs, Ensures g (fun s => P s ∧ S y s) (f x) fun _ => S y) :
    Ensures g P (xs.forM f) fun _ s => P s ∧ ∀ x ∈ xs, S x s := by
  induction xs with
  | nil => exact ensures_pure fun s hs => ⟨hs, fun x hx => absurd hx List.not_mem_nil⟩
  | cons x xs ih =>
    have hx := List.mem_cons_self (a := x) (l := xs)
    have hrest := ih (fun y hy => hf y (List.mem_cons_of_mem _ hy)) fun y hy z hz =>
      hkeep y (List.mem_cons_of_mem _ hy) z (List.mem_cons_of_mem _ hz)
    have hkept : Ensures g (fun s => P s ∧ S x s) (xs.forM f) fun _ => S x := by
      clear ih hrest
      induction xs with
      | nil => exact ensures_pure fun s hs => hs.2
      | cons y ys ihy =>
        have hy : y ∈ x :: y :: ys := List.mem_cons_of_mem _ (List.mem_cons_self ..)
        have hsub : ∀ z ∈ x :: ys, z ∈ x :: y :: ys := by
          intro z hz
          rcases List.mem_cons.1 hz with rfl | hz
          · exact List.mem_cons_self ..
          · exact List.mem_cons_of_mem _ (List.mem_cons_of_mem _ hz)
        refine ensures_bind (Q := fun _ s => P s ∧ S x s) ?_ fun _ =>
          ihy (fun z hz => hf z (hsub z hz))
            (fun z hz w hw => hkeep z (hsub z hz) w (hsub w hw)) (List.mem_cons_self ..)
        intro s a s' hs hm
        exact ⟨(hf y hy s a s' hs.1 hm).1, hkeep y hy x hx s a s' hs hm⟩
    refine ensures_bind (hf x hx) fun _ => ?_
    intro s a s' hs hm
    obtain ⟨hP, hall⟩ := hrest s a s' hs.1 hm
    refine ⟨hP, fun y hy => ?_⟩
    rcases List.mem_cons.1 hy with rfl | hy
    · exact hkept s a s' hs hm
    · exact hall y hy

end Ends

/-! ## Relations between the first and the last state -/

section Keeps

variable (R : σ → σ → Prop)

/-- Every run of `m` to a value is related by `R` from its first state to its last. -/
def Keeps (m : Climb ε σ α) : Prop := ∀ s a s', m.run s = .ok a s' → R s s'

variable {R}

theorem keeps_stop {e : ε} : Keeps R (stop e : Climb ε σ α) := by
  intro s a s' h
  simp only [run_stop, reduceCtorEq] at h

theorem keeps_step {f : σ → α × σ} {h : ∀ s, s ≤ (f s).2} (hR : ∀ s, R s (f s).2) :
    Keeps R (step f h : Climb ε σ α) := by
  intro s a s' hrun
  simp only [run_step, Outcome.ok.injEq] at hrun
  exact hrun.2 ▸ hR s

variable [IsPreorder σ R]

theorem keeps_pure {a : α} : Keeps R (pure a : Climb ε σ α) := by
  intro s b s' h
  simp only [run_pure, Outcome.ok.injEq] at h
  exact h.2 ▸ refl_of R s

theorem keeps_bind {m : Climb ε σ α} {f : α → Climb ε σ β} (hm : Keeps R m)
    (hf : ∀ a, Keeps R (f a)) : Keeps R (m >>= f) := by
  intro s b s'' hrun
  rw [run_bind] at hrun
  cases h : m.run s with
  | stop e s' => simp only [h, reduceCtorEq] at hrun
  | ok a s' =>
    simp only [h] at hrun
    exact trans_of R (hm s a s' h) (hf a s' b s'' hrun)

theorem keeps_get : Keeps R (get : Climb ε σ σ) := by
  intro s a s' h
  simp only [run_get, Outcome.ok.injEq] at h
  exact h.2 ▸ refl_of R s

theorem keeps_require {e : ε} {f : σ → Option α} : Keeps R (require e f) := by
  intro s a s' hrun
  cases h : f s with
  | none => simp only [run_require_none h, reduceCtorEq] at hrun
  | some b =>
    simp only [run_require_some h, Outcome.ok.injEq] at hrun
    exact hrun.2 ▸ refl_of R s

theorem keeps_when {c : Prop} [Decidable c] {m : Climb ε σ Unit} (hm : Keeps R m) :
    Keeps R (when c m) := by
  unfold when
  split
  · exact hm
  · exact keeps_pure

theorem keeps_forM {xs : List β} {f : β → Climb ε σ PUnit} (hf : ∀ x ∈ xs, Keeps R (f x)) :
    Keeps R (xs.forM f) := by
  induction xs with
  | nil => exact keeps_pure
  | cons x xs ih =>
    refine keeps_bind (hf x (List.mem_cons_self ..)) fun _ => ?_
    exact ih fun y hy => hf y (List.mem_cons_of_mem _ hy)

end Keeps

/-! ## Relations that hold of stops too -/

section KeepsOr

/-- The end of a run is related to its first state: by `R` where it has a value, by `E` where it
stopped. -/
def Relates (R E : σ → σ → Prop) (s : σ) : Outcome ε σ α → Prop
  | .ok _ s' => R s s'
  | .stop _ s' => E s s'

/-- Every run of `m` to a value is related by `R`, and every run that stops by `E`. -/
def KeepsOr (R E : σ → σ → Prop) (m : Climb ε σ α) : Prop := ∀ s, Relates R E s (m.run s)

/-- What `E` relates may follow what `R` relates. -/
class StopsAfter (R E : σ → σ → Prop) : Prop where
  refl : ∀ s, E s s
  trans : ∀ {s s' s''}, R s s' → E s' s'' → E s s''

variable {R E : σ → σ → Prop}

instance : StopsAfter R fun _ _ => True := ⟨fun _ => trivial, fun _ _ => trivial⟩

instance [IsPreorder σ R] : StopsAfter R R := ⟨refl_of R, trans_of R⟩

omit [Preorder σ] in
theorem relates_of_ok {s : σ} {o : Outcome ε σ α} (h : ∀ a s', o = .ok a s' → R s s') :
    Relates R (fun _ _ => True) s o := by
  cases o with
  | ok a s' => exact h a s' rfl
  | stop e s' => trivial

theorem Relates.of_ok {m : Climb ε σ α} {s s' : σ} {a : α} (h : Relates R E s (m.run s))
    (hrun : m.run s = .ok a s') : R s s' := by
  rw [hrun] at h
  exact h

omit [Preorder σ] in
theorem Relates.state {s : σ} {o : Outcome ε σ α} (h : Relates R R s o) : R s o.state := by
  cases o <;> exact h

theorem Keeps.keepsOr {m : Climb ε σ α} (h : Keeps R m) : KeepsOr R (fun _ _ => True) m :=
  fun s => relates_of_ok (h s)

theorem KeepsOr.keeps {m : Climb ε σ α} (h : KeepsOr R E m) : Keeps R m :=
  fun s _ _ hrun => (h s).of_ok hrun

theorem keepsOr_step {f : σ → α × σ} {h : ∀ s, s ≤ (f s).2} (hR : ∀ s, R s (f s).2) :
    KeepsOr R E (step f h : Climb ε σ α) := hR

theorem keepsOr_stop [StopsAfter R E] {e : ε} : KeepsOr R E (stop e : Climb ε σ α) :=
  StopsAfter.refl R

omit [Preorder σ] in
/-- What is related after a step that `R` relates. -/
theorem Relates.after [StopsAfter R E] {T : σ → σ → Prop}
    (hT : ∀ {s s' s''}, R s s' → T s' s'' → T s s'') {s s' : σ} {o : Outcome ε σ α} (h : R s s')
    (ho : Relates T E s' o) : Relates T E s o := by
  cases o with
  | ok a s'' => exact hT h ho
  | stop e s'' => exact StopsAfter.trans h ho

/-- What comes first has stopped, or the rest is related to the first state. -/
theorem Relates.bind {T : σ → σ → Prop} {m : Climb ε σ α} {f : α → Climb ε σ β} {s : σ}
    (hm : Relates R E s (m.run s))
    (hf : ∀ a s', m.run s = .ok a s' → R s s' → Relates T E s ((f a).run s')) :
    Relates T E s ((m >>= f).run s) := by
  cases h : m.run s with
  | stop e s' =>
    rw [run_bind_stop h]
    rw [h] at hm
    exact hm
  | ok a s' =>
    rw [run_bind_ok h]
    rw [h] at hm
    exact hf a s' h hm

/-- What comes first is related by `R`, or the run has stopped. -/
theorem relates_bind [IsPreorder σ R] [StopsAfter R E] {m : Climb ε σ α} {f : α → Climb ε σ β}
    {s : σ} (hm : Relates R E s (m.run s))
    (hf : ∀ a s', m.run s = .ok a s' → Relates R E s' ((f a).run s')) :
    Relates R E s ((m >>= f).run s) :=
  hm.bind fun a s' h hR => Relates.after (T := R) (trans_of R) hR (hf a s' h)

/-- What only reads may follow. -/
theorem KeepsOr.reads {m : Climb ε σ α} {f : α → Climb ε σ β} (hm : KeepsOr R E m)
    (hf : ∀ a s, ∃ b, (f a).run s = .ok b s) : KeepsOr R E (m >>= f) := by
  refine fun s => (hm s).bind fun a s' _ hR => ?_
  obtain ⟨b, hb⟩ := hf a s'
  rw [hb]
  exact hR

variable [IsPreorder σ R]

theorem keepsOr_pure {a : α} : KeepsOr R E (pure a : Climb ε σ α) := refl_of R

theorem keepsOr_get : KeepsOr R E (get : Climb ε σ σ) := refl_of R

variable [StopsAfter R E]

theorem keepsOr_bind {m : Climb ε σ α} {f : α → Climb ε σ β} (hm : KeepsOr R E m)
    (hf : ∀ a, KeepsOr R E (f a)) : KeepsOr R E (m >>= f) :=
  fun s => relates_bind (hm s) fun a s' _ => hf a s'

theorem keepsOr_require {e : ε} {f : σ → Option α} : KeepsOr R E (require e f) := by
  intro s
  cases h : f s with
  | none =>
    rw [run_require_none h]
    exact StopsAfter.refl R s
  | some b =>
    rw [run_require_some h]
    exact refl_of R s

omit [StopsAfter R E] in
theorem keepsOr_when {c : Prop} [Decidable c] {m : Climb ε σ Unit} (hm : KeepsOr R E m) :
    KeepsOr R E (when c m) := by
  unfold when
  split
  · exact hm
  · exact keepsOr_pure

theorem keepsOr_forM {xs : List β} {f : β → Climb ε σ PUnit} (hf : ∀ x ∈ xs, KeepsOr R E (f x)) :
    KeepsOr R E (xs.forM f) := by
  induction xs with
  | nil => exact keepsOr_pure
  | cons x xs ih =>
    refine keepsOr_bind (hf x (List.mem_cons_self ..)) fun _ => ?_
    exact ih fun y hy => hf y (List.mem_cons_of_mem _ hy)

end KeepsOr

/-! ## Triples -/

section Triple

/-- A run of `m` from `P` has a value and ends in `Q`, or stops and ends in `E`. -/
def Triple (P : σ → Prop) (m : Climb ε σ α) (Q : α → σ → Prop) (E : ε → σ → Prop) : Prop :=
  ∀ s, P s →
    match m.run s with
    | .ok a s' => Q a s'
    | .stop e s' => E e s'

variable {P P' : σ → Prop} {Q Q' : α → σ → Prop} {E : ε → σ → Prop}

theorem Triple.conseq {m : Climb ε σ α} (h : Triple P m Q E) (hP : ∀ s, P' s → P s)
    (hQ : ∀ a s, Q a s → Q' a s) : Triple P' m Q' E := by
  intro s hs
  have hrun := h s (hP s hs)
  cases hm : m.run s with
  | ok a s' =>
    simp only [hm] at hrun ⊢
    exact hQ a s' hrun
  | stop e s' =>
    simp only [hm] at hrun ⊢
    exact hrun

/-- A fact that does not depend on the state. -/
theorem triple_fact {c : Prop} {m : Climb ε σ α} (h : c → Triple P m Q E) :
    Triple (fun s => c ∧ P s) m Q E := fun s hs => h hs.1 s hs.2

theorem triple_exists {ι : Type} {P : ι → σ → Prop} {m : Climb ε σ α}
    (h : ∀ i, Triple (P i) m Q E) : Triple (fun s => ∃ i, P i s) m Q E := by
  intro s hs
  obtain ⟨i, hs⟩ := hs
  exact h i s hs

theorem triple_pure {a : α} (h : ∀ s, P s → Q a s) : Triple P (pure a : Climb ε σ α) Q E := h

theorem triple_bind {m : Climb ε σ α} {f : α → Climb ε σ β} {S : β → σ → Prop}
    (hm : Triple P m Q E) (hf : ∀ a, Triple (Q a) (f a) S E) : Triple P (m >>= f) S E := by
  intro s hs
  have hrun := hm s hs
  rw [run_bind]
  cases h : m.run s with
  | ok a s' =>
    simp only [h] at hrun
    exact hf a s' hrun
  | stop e s' =>
    simp only [h] at hrun
    exact hrun

theorem triple_when {c : Prop} [Decidable c] {m : Climb ε σ Unit} {Q : Unit → σ → Prop}
    (hm : c → Triple P m Q E) (hskip : ¬ c → ∀ s, P s → Q () s) : Triple P (when c m) Q E := by
  by_cases hc : c
  · simpa only [when, hc, if_true] using hm hc
  · simpa only [when, hc, if_false] using triple_pure (hskip hc)

theorem triple_get {Q : σ → σ → Prop} (h : ∀ s, P s → Q s s) :
    Triple P (get : Climb ε σ σ) Q E := h

theorem triple_stop {e : ε} (h : ∀ s, P s → E e s) : Triple P (stop e : Climb ε σ α) Q E := h

theorem triple_step {f : σ → α × σ} {h : ∀ s, s ≤ (f s).2} (hQ : ∀ s, P s → Q (f s).1 (f s).2) :
    Triple P (step f h : Climb ε σ α) Q E := hQ

theorem triple_require {e : ε} {f : σ → Option α} (hsome : ∀ s a, P s → f s = some a → Q a s)
    (hnone : ∀ s, P s → f s = none → E e s) : Triple P (require e f) Q E := by
  intro s hs
  cases h : f s with
  | none =>
    rw [run_require_none h]
    exact hnone s hs h
  | some a =>
    rw [run_require_some h]
    exact hsome s a hs h

/-- A loop over a list: what every turn keeps holds in the end. -/
theorem triple_forM {xs : List β} {f : β → Climb ε σ PUnit}
    (hf : ∀ x ∈ xs, Triple P (f x) (fun _ => P) E) : Triple P (xs.forM f) (fun _ => P) E := by
  induction xs with
  | nil => exact triple_pure fun _ hs => hs
  | cons x xs ih =>
    refine triple_bind (hf x (List.mem_cons_self ..)) fun _ => ?_
    exact ih fun y hy => hf y (List.mem_cons_of_mem _ hy)

end Triple

end Climb

end Flashpoint.Library
