/-!
# Traced programs

A program over a state that also says which cells it touches. `Computes` gives the answer of a run and a
property of every cell touched, and is proved along the program.
-/

namespace Flashpoint.Library

/-- A run from a state: the answer, the state after it and the cells touched on the way. -/
def Traced (σ ι α : Type) : Type := σ → (α × σ) × List ι

namespace Traced

variable {σ ι α β : Type}

instance : Monad (Traced σ ι) where
  pure a := fun s => ((a, s), [])
  bind m k := fun s => ((k (m s).1.1 (m s).1.2).1, (m s).2 ++ (k (m s).1.1 (m s).1.2).2)

def get : Traced σ ι σ := fun s => ((s, s), [])

/-- A step that touches nothing. -/
def silently (f : σ → α × σ) : Traced σ ι α := fun s => (f s, [])

def modify (f : σ → σ) : Traced σ ι Unit := silently fun s => ((), f s)

def touch (i : ι) : Traced σ ι Unit := fun s => (((), s), [i])

/-- The run answers `r`, and all cells it touches are as they should be. -/
structure Computes (ok : ι → Prop) (m : Traced σ ι α) (s : σ) (r : α × σ) : Prop where
  answer : (m s).1 = r
  inside : ∀ i ∈ (m s).2, ok i

namespace Computes

variable {ok : ι → Prop} {s : σ}

theorem pure (a : α) : Computes ok (Pure.pure a) s (a, s) :=
  ⟨rfl, fun _ hi => absurd hi List.not_mem_nil⟩

theorem get : Computes ok Traced.get s (s, s) := ⟨rfl, fun _ hi => absurd hi List.not_mem_nil⟩

theorem silently (f : σ → α × σ) : Computes ok (Traced.silently f) s (f s) :=
  ⟨rfl, fun _ hi => absurd hi List.not_mem_nil⟩

theorem modify (f : σ → σ) : Computes ok (Traced.modify f) s ((), f s) :=
  .silently fun s => ((), f s)

theorem touch {i : ι} (h : ok i) : Computes ok (Traced.touch i) s ((), s) :=
  ⟨rfl, fun _ hi => List.mem_singleton.1 hi ▸ h⟩

theorem bind {m : Traced σ ι α} {k : α → Traced σ ι β} {r : α × σ} {r' : β × σ}
    (hm : Computes ok m s r) (hk : Computes ok (k r.1) r.2 r') : Computes ok (m >>= k) s r' := by
  have hanswer := hm.answer
  refine ⟨?_, fun i hi => ?_⟩
  · show (k (m s).1.1 (m s).1.2).1 = r'
    rw [hanswer, hk.answer]
  · have hi : i ∈ (m s).2 ++ (k (m s).1.1 (m s).1.2).2 := hi
    rw [hanswer, List.mem_append] at hi
    exact hi.elim (hm.inside i) (hk.inside i)

theorem ite {c : Prop} [Decidable c] {m m' : Traced σ ι α} {r r' : α × σ}
    (hm : c → Computes ok m s r) (hm' : ¬ c → Computes ok m' s r') :
    Computes ok (if c then m else m') s (if c then r else r') := by
  split
  · next h => exact hm h
  · next h => exact hm' h

theorem iteUnit {c : Prop} [Decidable c] {m m' : Traced σ ι Unit} {t t' : σ}
    (hm : c → Computes ok m s ((), t)) (hm' : ¬ c → Computes ok m' s ((), t')) :
    Computes ok (if c then m else m') s ((), if c then t else t') := by
  split
  · next h => exact hm h
  · next h => exact hm' h

end Computes

/-! ## Cells that are touched -/

/-- A cell that the first part touches. -/
theorem mem_bind_left {m : Traced σ ι α} (k : α → Traced σ ι β) {s : σ} {i : ι} (h : i ∈ (m s).2) :
    i ∈ ((m >>= k) s).2 := List.mem_append_left _ h

/-- A cell that the second part touches. -/
theorem mem_bind_right {m : Traced σ ι α} {k : α → Traced σ ι β} {s : σ} {i : ι} {r : α × σ}
    (hm : (m s).1 = r) (h : i ∈ (k r.1 r.2).2) : i ∈ ((m >>= k) s).2 := by
  show i ∈ (m s).2 ++ (k (m s).1.1 (m s).1.2).2
  rw [hm]
  exact List.mem_append_right _ h

end Traced

end Flashpoint.Library
