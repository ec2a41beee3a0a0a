import Mathlib.Order.Lattice
import Mathlib.Data.List.Basic
import Mathlib.Data.List.Pairwise
import Mathlib.Data.List.Perm.Subperm

/-!
# Sorted maps

An ordered map with the interface of a balanced-tree container: `find?`, an `emplace` that keeps
the entry that is already there, and iteration in the order of the keys (`entries`). The order of
the entries, and with it that no key occurs twice, is part of the type.
-/

namespace Flashpoint.Library

/-- A finite map, its entries strictly sorted by key. -/
structure SortedMap (κ V : Type) [LinearOrder κ] where
  entries : List (κ × V)
  sorted : entries.Pairwise fun a b => a.1 < b.1

namespace SortedMap

variable {κ V : Type} [LinearOrder κ]

/-- Put an entry in its place; an entry with the same key stays. -/
def insertEntry (k : κ) (v : V) : List (κ × V) → List (κ × V)
  | [] => [(k, v)]
  | e :: es =>
    if k < e.1 then (k, v) :: e :: es
    else if e.1 < k then e :: insertEntry k v es
    else e :: es

theorem mem_insertEntry_key {k : κ} {v : V} {x : κ × V} : ∀ {es : List (κ × V)},
    x ∈ insertEntry k v es → x.1 = k ∨ x ∈ es := by
  intro es
  induction es with
  | nil =>
    intro h
    simp only [insertEntry, List.mem_singleton] at h
    exact .inl (h ▸ rfl)
  | cons e es ih =>
    intro h
    simp only [insertEntry] at h
    split at h
    · rcases List.mem_cons.1 h with rfl | h
      · exact .inl rfl
      · exact .inr h
    · split at h
      · rcases List.mem_cons.1 h with rfl | h
        · exact .inr (List.mem_cons_self ..)
        · exact (ih h).imp_right (List.mem_cons_of_mem _)
      · exact .inr h

theorem sorted_insertEntry (k : κ) (v : V) {es : List (κ × V)}
    (h : es.Pairwise fun a b => a.1 < b.1) :
    (insertEntry k v es).Pairwise fun a b => a.1 < b.1 := by
  induction es with
  | nil => simp [insertEntry]
  | cons e es ih =>
    obtain ⟨he, hes⟩ := List.pairwise_cons.1 h
    simp only [insertEntry]
    split
    · next hk =>
      refine List.pairwise_cons.2 ⟨?_, h⟩
      intro x hx
      rcases List.mem_cons.1 hx with rfl | hx
      · exact hk
      · exact lt_trans hk (he x hx)
    · split
      · next hk =>
        refine List.pairwise_cons.2 ⟨?_, ih hes⟩
        intro x hx
        rcases mem_insertEntry_key hx with hx | hx
        · exact hx ▸ hk
        · exact he x hx
      · exact h

/-- The map without entries. -/
def empty : SortedMap κ V := ⟨[], List.Pairwise.nil⟩

instance : EmptyCollection (SortedMap κ V) := ⟨empty⟩

/-- The value under a key in a list of entries. -/
def findEntry (es : List (κ × V)) (k : κ) : Option V :=
  (es.find? fun e => e.1 = k).map (·.2)

/-- The value under a key. -/
def find? (m : SortedMap κ V) (k : κ) : Option V := findEntry m.entries k

/-- Add an entry, unless the key is taken. -/
def emplace (m : SortedMap κ V) (k : κ) (v : V) : SortedMap κ V :=
  ⟨insertEntry k v m.entries, sorted_insertEntry k v m.sorted⟩

/-- Add values under their keys, one after the other. -/
def emplaceAll (key : V → κ) (m : SortedMap κ V) (vs : List V) : SortedMap κ V :=
  vs.foldl (fun m v => m.emplace (key v) v) m

/-- The map of values under their keys: the first one of each key. -/
def byKey (key : V → κ) (vs : List V) : SortedMap κ V := emplaceAll key ∅ vs

/-- The number of entries. -/
def size (m : SortedMap κ V) : Nat := m.entries.length

theorem isSome_findEntry {es : List (κ × V)} {k : κ} (h : k ∈ es.map Prod.fst) :
    (findEntry es k).isSome = true := by
  obtain ⟨e, he, hk⟩ := List.mem_map.1 h
  rw [findEntry, Option.isSome_map, List.find?_isSome]
  exact ⟨e, he, decide_eq_true hk⟩

@[ext] theorem ext {m m' : SortedMap κ V} (h : m.entries = m'.entries) : m = m' := by
  cases m
  cases m'
  simpa only [mk.injEq] using h

instance [DecidableEq V] : DecidableEq (SortedMap κ V) := fun m m' =>
  decidable_of_iff (m.entries = m'.entries) ⟨ext, fun h => h ▸ rfl⟩

@[simp] theorem find?_empty (k : κ) : (∅ : SortedMap κ V).find? k = none := rfl

/-- Iterating meets a value exactly where looking it up finds it. -/
theorem mem_entries_iff {m : SortedMap κ V} {k : κ} {v : V} :
    (k, v) ∈ m.entries ↔ m.find? k = some v := by
  obtain ⟨es, h⟩ := m
  simp only [find?, findEntry]
  induction es with
  | nil => simp
  | cons e es ih =>
    obtain ⟨he, hes⟩ := List.pairwise_cons.1 h
    simp only [List.mem_cons, List.find?_cons]
    by_cases hk : e.1 = k
    · have hnot : (k, v) ∉ es := fun hx => absurd (he _ hx) (by simp [hk])
      simp only [hk, decide_true, hnot, or_false, Option.map_some, Option.some.injEq]
      constructor
      · rintro rfl
        rfl
      · rintro rfl
        simp [← hk]
    · have hne : (k, v) ≠ e := fun hx => hk (hx ▸ rfl)
      simp only [hk, decide_false, hne, false_or]
      exact ih hes

theorem find?_eq_none_of_lt {k : κ} {es : List (κ × V)} (h : ∀ x ∈ es, k < x.1) :
    es.find? (fun e => e.1 = k) = none := by
  refine List.find?_eq_none.2 fun x hx => ?_
  simpa using ne_of_gt (h x hx)

theorem findEntry_insertEntry (k k' : κ) (v : V) {es : List (κ × V)}
    (h : es.Pairwise fun a b => a.1 < b.1) :
    findEntry (insertEntry k v es) k' =
      if k' = k then some ((findEntry es k).getD v) else findEntry es k' := by
  simp only [findEntry]
  induction es with
  | nil =>
    by_cases hk : k' = k
    · simp [insertEntry, hk]
    · simp [insertEntry, hk, Ne.symm hk]
  | cons e es ih =>
    obtain ⟨he, hes⟩ := List.pairwise_cons.1 h
    simp only [insertEntry]
    split
    · next hlt =>
      -- the key goes to the front, so it was not below
      have hnone : (e :: es).find? (fun e => e.1 = k) = none := by
        refine find?_eq_none_of_lt fun x hx => ?_
        rcases List.mem_cons.1 hx with rfl | hx
        · exact hlt
        · exact lt_trans hlt (he x hx)
      by_cases hk : k' = k
      · subst hk
        simp only [hnone, List.find?_cons, decide_true, if_true, Option.map_some, Option.map_none,
          Option.getD_none]
      · simp only [hk, if_false, List.find?_cons, Ne.symm hk, decide_false]
    · split
      · next hgt =>
        have hne : e.1 ≠ k := ne_of_lt hgt
        by_cases hk : k' = e.1
        · subst hk
          simp [hne]
        · simp only [List.find?_cons, Ne.symm hk, hne, decide_false]
          exact ih hes
      · next hle hge =>
        have heq : e.1 = k := le_antisymm (not_lt.1 hle) (not_lt.1 hge)
        by_cases hk : k' = k
        · subst hk
          simp [heq]
        · simp [hk]

/-- Looking up after an `emplace`: the first value under a key is kept. -/
theorem find?_emplace (m : SortedMap κ V) (k k' : κ) (v : V) :
    (m.emplace k v).find? k' = if k' = k then some ((m.find? k).getD v) else m.find? k' :=
  findEntry_insertEntry k k' v m.sorted

theorem find?_emplace_self {m : SortedMap κ V} {k : κ} {v : V} (h : m.find? k = none) :
    (m.emplace k v).find? k = some v := by
  simp [find?_emplace, h]

theorem find?_emplace_eq_none {m : SortedMap κ V} {k k' : κ} {v : V} :
    (m.emplace k v).find? k' = none ↔ k' ≠ k ∧ m.find? k' = none := by
  rw [find?_emplace]
  by_cases hk : k' = k
  · simp [hk]
  · simp [hk]

/-- An `emplace` never loses an entry. -/
theorem find?_emplace_of_some {m : SortedMap κ V} {k k' : κ} {v w : V} (h : m.find? k' = some w) :
    (m.emplace k v).find? k' = some w := by
  rw [find?_emplace]
  split
  · next hk => simp [← hk, h]
  · exact h

/-- What an `emplace` finds was there before, or is the new entry under a free key. -/
theorem find?_emplace_cases {m : SortedMap κ V} {k k' : κ} {v w : V}
    (h : (m.emplace k v).find? k' = some w) :
    m.find? k' = some w ∨ (k' = k ∧ w = v ∧ m.find? k = none) := by
  rw [find?_emplace] at h
  split at h
  · next hk =>
    subst hk
    cases hm : m.find? k' with
    | none =>
      simp only [hm, Option.getD_none, Option.some.injEq] at h
      exact .inr ⟨rfl, h.symm, rfl⟩
    | some u =>
      simp only [hm, Option.getD_some, Option.some.injEq] at h
      exact .inl (h ▸ rfl)
  · exact .inl h

theorem nodup_keys (m : SortedMap κ V) : (m.entries.map Prod.fst).Nodup := by
  rw [List.Nodup, List.pairwise_map]
  exact m.sorted.imp fun h => ne_of_lt h

/-- The keys of the entries are the keys under which something is found. -/
theorem mem_keys_iff {m : SortedMap κ V} {k : κ} :
    k ∈ m.entries.map Prod.fst ↔ (m.find? k).isSome = true := by
  rw [Option.isSome_iff_exists]
  constructor
  · intro hmem
    obtain ⟨⟨k', v⟩, hentry, rfl⟩ := List.mem_map.1 hmem
    exact ⟨v, mem_entries_iff.1 hentry⟩
  · rintro ⟨v, hv⟩
    exact List.mem_map.2 ⟨(k, v), mem_entries_iff.2 hv, rfl⟩

theorem mem_keys_emplace {m : SortedMap κ V} {k k' : κ} {v : V} :
    k' ∈ (m.emplace k v).entries.map Prod.fst ↔ k' ∈ m.entries.map Prod.fst ∨ k' = k := by
  rw [mem_keys_iff, mem_keys_iff, find?_emplace]
  by_cases hk : k' = k
  · simp [hk]
  · simp [hk]

/-- A map on some keys of another one that is not smaller has all of its keys. -/
theorem keys_subset_of_size_le {W : Type} {m : SortedMap κ V} {m' : SortedMap κ W}
    (hkeys : m.entries.map Prod.fst ⊆ m'.entries.map Prod.fst) (hsize : m'.size ≤ m.size) :
    m'.entries.map Prod.fst ⊆ m.entries.map Prod.fst := by
  refine ((m.nodup_keys.subperm hkeys).perm_of_length_le ?_).symm.subset
  rwa [List.length_map, List.length_map]

/-! ## Mapping the values -/

section Map

variable {W : Type}

/-- The map with a function applied to its values. -/
def map (f : V → W) (m : SortedMap κ V) : SortedMap κ W :=
  ⟨m.entries.map (Prod.map id f), List.pairwise_map.2 m.sorted⟩

@[simp] theorem entries_map (f : V → W) (m : SortedMap κ V) :
    (m.map f).entries = m.entries.map (Prod.map id f) := rfl

@[simp] theorem map_empty (f : V → W) : (∅ : SortedMap κ V).map f = ∅ := rfl

theorem findEntry_map (f : V → W) (es : List (κ × V)) (k : κ) :
    findEntry (es.map (Prod.map id f)) k = (findEntry es k).map f := by
  have hkey : ((fun e : κ × W => decide (e.1 = k)) ∘ Prod.map id f) = fun e => decide (e.1 = k) := rfl
  rw [findEntry, findEntry, List.find?_map, hkey, Option.map_map, Option.map_map]
  rfl

theorem find?_map (f : V → W) (m : SortedMap κ V) (k : κ) : (m.map f).find? k = (m.find? k).map f :=
  findEntry_map f m.entries k

theorem insertEntry_map (f : V → W) (k : κ) (v : V) (es : List (κ × V)) :
    (insertEntry k v es).map (Prod.map id f) = insertEntry k (f v) (es.map (Prod.map id f)) := by
  induction es with
  | nil => rfl
  | cons e es ih =>
    simp only [insertEntry, List.map_cons, Prod.map_fst, id_eq]
    split
    · rfl
    · split
      · rw [List.map_cons, ih]
      · rfl

theorem map_emplace (f : V → W) (m : SortedMap κ V) (k : κ) (v : V) :
    (m.emplace k v).map f = (m.map f).emplace k (f v) :=
  ext (insertEntry_map f k v m.entries)

end Map

end SortedMap

end Flashpoint.Library
