import Mathlib.Data.List.Perm.Basic
import Mathlib.Data.List.Induction

/-!
# Occurrences of keys that occur again

A list is read from the front, and an entry whose key was read before is told, together with the
first entry of the key: once, when the key is met for the second time, or every time. Told once,
the entries are those of the keys that occur at least twice. Told every time, they are so exactly if
no key occurs three times. In general (`tellIf`) the entry and the first of its key are told on
conditions of their own, and what counts is how often each of them is met.
-/

namespace Flashpoint.Library

variable {α κ : Type} [DecidableEq κ] (f : α → κ)

/-- How often a key occurs. -/
def times (xs : List α) (k : κ) : Nat := xs.countP fun x => f x = k

/-- The entries whose keys occur at least twice. -/
def repeated (xs : List α) : List α := xs.filter fun x => 2 ≤ times f xs (f x)

/-- What is told of the entries of a list, each after those before it. -/
def along (tell : List α → α → List α) (before : List α) : List α → List α
  | [] => []
  | x :: xs => tell before x ++ along tell (before ++ [x]) xs

/-- An entry whose key was read before, with the first of the key every time. -/
def tellEveryTime (before : List α) (x : α) : List α :=
  match before.find? fun y => f y = f x with
  | none => []
  | some first => [x, first]

/-- An entry whose key was read before, with the first of the key at the second. -/
def tellOnce (before : List α) (x : α) : List α :=
  match before.find? fun y => f y = f x with
  | none => []
  | some first => if times f before (f x) = 1 then [x, first] else [x]

variable {f}

theorem along_append (tell : List α → α → List α) (before xs ys : List α) :
    along tell before (xs ++ ys) = along tell before xs ++ along tell (before ++ xs) ys := by
  induction xs generalizing before with
  | nil => rw [List.append_nil]; rfl
  | cons x xs ih => simp only [List.cons_append, along, ih, List.append_assoc, List.nil_append]

theorem along_snoc (tell : List α → α → List α) (xs : List α) (x : α) :
    along tell [] (xs ++ [x]) = along tell [] xs ++ tell xs x := by
  rw [along_append, List.nil_append, along, along, List.append_nil]

theorem find?_key_eq_none {xs : List α} {k : κ} :
    (xs.find? fun y => f y = k) = none ↔ times f xs k = 0 := by
  rw [List.find?_eq_none, times, List.countP_eq_zero]

theorem times_snoc (xs : List α) (x : α) (k : κ) :
    times f (xs ++ [x]) k = times f xs k + if f x = k then 1 else 0 := by
  rw [times, List.countP_append, List.countP_singleton]
  simp only [times, decide_eq_true_eq]

theorem times_pos {xs : List α} {x : α} (hx : x ∈ xs) : 0 < times f xs (f x) :=
  List.countP_pos_iff.2 ⟨x, hx, decide_eq_true rfl⟩

/-- The same keys occur as often in another order. -/
theorem times_eq_of_perm {xs ys : List α} (h : (xs.map f).Perm (ys.map f)) (k : κ) :
    times f xs k = times f ys k := by
  have hcount := h.countP_eq fun k' => decide (k' = k)
  rwa [List.countP_map, List.countP_map] at hcount

/-- The entries of a key that occurs once. -/
theorem filter_key_eq_singleton {xs : List α} {k : κ} {first : α}
    (hfirst : (xs.find? fun y => f y = k) = some first) (hcount : times f xs k = 1) :
    (xs.filter fun y => f y = k) = [first] := by
  have hlength : (xs.filter fun y => f y = k).length = 1 := by
    rw [← hcount, ← List.countP_eq_length_filter]
    rfl
  obtain ⟨y, hy⟩ := List.length_eq_one_iff.1 hlength
  have hhead : (xs.filter fun y => f y = k).head? = some first := List.head?_filter.trans hfirst
  rw [hy] at hhead ⊢
  rw [Option.some.inj hhead]

/-- The entries of one of two kinds that exclude each other. -/
theorem filter_perm_append {xs : List α} {p q r : α → Bool}
    (hr : ∀ x ∈ xs, r x = true ↔ p x = true ∨ q x = true)
    (hnot : ∀ x ∈ xs, p x = true → q x = false) :
    (xs.filter r).Perm (xs.filter p ++ xs.filter q) := by
  have hp : (xs.filter r).filter p = xs.filter p := by
    rw [List.filter_filter]
    refine List.filter_congr fun x hx => ?_
    cases hpx : p x with
    | false => rfl
    | true => rw [(hr x hx).2 (.inl hpx), Bool.and_self]
  have hq : (xs.filter r).filter (fun x => !p x) = xs.filter q := by
    rw [List.filter_filter]
    refine List.filter_congr fun x hx => ?_
    cases hpx : p x with
    | true => rw [hnot x hx hpx]; rfl
    | false =>
      have hrq : r x = q x := Bool.eq_iff_iff.2 (by rw [hr x hx, hpx]; simp)
      rw [hrq]
      rfl
  have hperm := List.filter_append_perm p (xs.filter r)
  rw [hp, hq] at hperm
  exact hperm.symm

theorem repeated_snoc (xs : List α) (x : α) :
    (repeated f (xs ++ [x])).Perm (repeated f xs ++ tellOnce f xs x) := by
  have hsplit : repeated f (xs ++ [x]) =
      (xs.filter fun y => 2 ≤ times f xs (f y) + if f x = f y then 1 else 0) ++
        if 1 ≤ times f xs (f x) then [x] else [] := by
    simp only [repeated, times_snoc, List.filter_append, List.filter_cons, List.filter_nil,
      if_true, Nat.reduceLeDiff, decide_eq_true_eq]
  have hmem : ∀ y ∈ xs, 0 < times f xs (f y) := fun y hy => times_pos hy
  have hsame : times f xs (f x) ≠ 1 →
      (xs.filter fun y => 2 ≤ times f xs (f y) + if f x = f y then 1 else 0) =
        repeated f xs := by
    intro hne
    refine List.filter_congr fun y hy => decide_eq_decide.2 ?_
    by_cases hkey : f x = f y
    · have hpos := hmem y hy
      rw [hkey] at hne
      rw [if_pos hkey]
      omega
    · rw [if_neg hkey, Nat.add_zero]
  rw [hsplit]
  cases hfind : xs.find? fun y => f y = f x with
  | none =>
    have hzero := find?_key_eq_none.1 hfind
    have htell : tellOnce f xs x = [] := by rw [tellOnce, hfind]
    rw [hsame (by omega), if_neg (by omega), htell]
  | some first =>
    have hpos : times f xs (f x) ≠ 0 := fun hzero => by
      rw [find?_key_eq_none.2 hzero] at hfind
      cases hfind
    have htell : tellOnce f xs x = if times f xs (f x) = 1 then [x, first] else [x] := by
      rw [tellOnce, hfind]
    rw [if_pos (Nat.one_le_iff_ne_zero.2 hpos), htell]
    by_cases hone : times f xs (f x) = 1
    · -- the first entry of the key becomes one of those that occur again
      have hperm : (xs.filter fun y =>
          2 ≤ times f xs (f y) + if f x = f y then 1 else 0).Perm
          (repeated f xs ++ xs.filter fun y => f y = f x) := by
        refine filter_perm_append (fun y hy => ?_) fun y hy hp => ?_
        · have hy := hmem y hy
          simp only [decide_eq_true_eq]
          by_cases hkey : f x = f y
          · simp only [hkey, if_true, or_true, iff_true]
            omega
          · simp only [if_neg hkey, Nat.add_zero, Ne.symm hkey, or_false]
        · refine decide_eq_false fun hkey => ?_
          rw [hkey, hone] at hp
          cases hp
      rw [filter_key_eq_singleton hfind hone] at hperm
      rw [if_pos hone]
      refine (hperm.append_right [x]).trans ?_
      rw [List.append_assoc]
      exact (List.Perm.swap x first []).append_left _
    · rw [hsame hone, if_neg hone]

/-- **Told once, the entries are those of the keys that occur at least twice.** -/
theorem along_tellOnce_perm (xs : List α) : (along (tellOnce f) [] xs).Perm (repeated f xs) := by
  induction xs using List.reverseRecOn with
  | nil => exact .nil
  | append_singleton xs x ih =>
    rw [along_snoc]
    exact (ih.append_right _).trans (repeated_snoc xs x).symm

theorem times_repeated (xs : List α) (k : κ) :
    times f (repeated f xs) k = if 2 ≤ times f xs k then times f xs k else 0 := by
  rw [times, repeated, List.countP_filter]
  split
  · next htwo =>
    refine List.countP_congr fun x _ => ?_
    simp only [Bool.and_eq_true, decide_eq_true_eq]
    exact ⟨And.left, fun h => ⟨h, h ▸ htwo⟩⟩
  · next hone =>
    refine List.countP_eq_zero.2 fun x _ => ?_
    simp only [Bool.and_eq_true, decide_eq_true_eq]
    rintro ⟨rfl, h⟩
    exact hone h

/-- No key occurs twice. -/
theorem repeated_eq_nil_iff {xs : List α} : repeated f xs = [] ↔ (xs.map f).Nodup := by
  have hcount : ∀ k, (xs.map f).count k = times f xs k := fun k => by
    rw [List.count, List.countP_map]
    rfl
  rw [List.nodup_iff_count]
  simp only [hcount]
  constructor
  · intro hnil k
    have htimes := times_repeated (f := f) xs k
    rw [hnil, show times f [] k = 0 from rfl] at htimes
    split at htimes <;> omega
  · intro hone
    refine List.filter_eq_nil_iff.2 fun x _ htwo => ?_
    have htimes := hone (f x)
    have hle := of_decide_eq_true htwo
    omega

/-! ## Told on conditions -/

section TellIf

variable (f) (p q : List α → α → Bool)

/-- The entries whose keys were read before and that meet a condition. -/
def again (p : List α → α → Bool) (xs : List α) : List α :=
  along (fun before x => if times f before (f x) ≠ 0 ∧ p before x then [x] else []) [] xs

/-- An entry whose key was read before, on the first condition, and the first of the key, on the
second. -/
def tellIf (before : List α) (x : α) : List α :=
  match before.find? fun y => f y = f x with
  | none => []
  | some first => (if p before x then [x] else []) ++ if q before x then [first] else []

variable {f p q}

theorem again_snoc (xs : List α) (x : α) :
    again f p (xs ++ [x]) =
      again f p xs ++ if times f xs (f x) ≠ 0 ∧ p xs x then [x] else [] :=
  along_snoc _ _ _

theorem times_append (xs ys : List α) (k : κ) :
    times f (xs ++ ys) k = times f xs k + times f ys k := List.countP_append

theorem times_if (c : Prop) [Decidable c] (x : α) (k : κ) :
    times f (if c then [x] else []) k = if c ∧ f x = k then 1 else 0 := by
  by_cases hc : c
  · simp only [hc, if_true, true_and, times, List.countP_singleton, decide_eq_true_eq]
  · simp only [hc, if_false, false_and]
    rfl

/-- A key occurs again one time less than it occurs. -/
theorem times_again (xs : List α) (k : κ) :
    times f (again f (fun _ _ => true) xs) k = times f xs k - 1 := by
  induction xs using List.reverseRecOn with
  | nil => rfl
  | append_singleton xs x ih =>
    rw [again_snoc, times_append, ih, times_snoc, times_if]
    by_cases hkey : f x = k
    · subst hkey
      by_cases hzero : times f xs (f x) = 0
      · simp only [hzero, ne_eq, not_true_eq_false, false_and, if_false, if_true]
      · simp only [hzero, ne_eq, not_false_eq_true, and_self, if_true]
        omega
    · simp only [hkey, and_false, if_false, Nat.add_zero]

theorem mem_of_mem_again {xs : List α} {x : α} (hx : x ∈ again f q xs) : x ∈ xs := by
  induction xs using List.reverseRecOn with
  | nil => exact hx
  | append_singleton xs y ih =>
    rw [again_snoc] at hx
    rcases List.mem_append.1 hx with hx | hx
    · exact List.mem_append_left _ (ih hx)
    · split at hx
      · exact List.mem_append_right _ hx
      · exact absurd hx List.not_mem_nil

/-- An entry that is read has a first of its key. -/
theorem exists_find?_key {xs : List α} {x : α} (hx : x ∈ xs) :
    ∃ first, (xs.find? fun y => f y = f x) = some first ∧ f first = f x := by
  cases hfind : xs.find? fun y => f y = f x with
  | none => exact absurd (find?_key_eq_none.1 hfind) (Nat.ne_of_gt (times_pos hx))
  | some first => exact ⟨first, rfl, by simpa using List.find?_some hfind⟩

/-- The entries that are told, up to their order: those that are read again on the first condition,
and the firsts of those that are read again on the second. -/
theorem along_tellIf_perm (xs : List α) :
    (along (tellIf f p q) [] xs).Perm
      (again f p xs ++ (again f q xs).filterMap fun x => xs.find? fun y => f y = f x) := by
  induction xs using List.reverseRecOn with
  | nil => exact .nil
  | append_singleton xs x ih =>
    have hstable : (again f q xs).filterMap (fun z => (xs ++ [x]).find? fun y => f y = f z) =
        (again f q xs).filterMap fun z => xs.find? fun y => f y = f z := by
      refine List.filterMap_congr fun z hz => ?_
      obtain ⟨first, hfirst, -⟩ := exists_find?_key (f := f) (mem_of_mem_again hz)
      rw [List.find?_append, hfirst]
      rfl
    rw [along_snoc, again_snoc, again_snoc, List.filterMap_append, hstable]
    cases hfind : xs.find? fun y => f y = f x with
    | none =>
      have hzero := find?_key_eq_none.1 hfind
      simpa [tellIf, hfind, hzero] using ih
    | some first =>
      have hpos : times f xs (f x) ≠ 0 := fun hzero => by
        rw [find?_key_eq_none.2 hzero] at hfind
        cases hfind
      have hfirst : (xs ++ [x]).find? (fun y => f y = f x) = some first := by
        rw [List.find?_append, hfind]
        rfl
      have hlast : (if times f xs (f x) ≠ 0 ∧ q xs x = true then [x] else []).filterMap
          (fun z => (xs ++ [x]).find? fun y => f y = f z) = if q xs x then [first] else [] := by
        cases q xs x with
        | false => rw [if_neg fun h => Bool.false_ne_true h.2]; rfl
        | true =>
          rw [if_pos ⟨hpos, rfl⟩]
          simp only [List.filterMap_cons, hfirst, if_true, List.filterMap_nil]
      rw [hlast]
      simp only [tellIf, hfind, ne_eq, hpos, not_false_eq_true, true_and]
      refine (ih.append_right _).trans ?_
      simp only [List.append_assoc]
      refine List.Perm.append_left _ ?_
      rw [← List.append_assoc, ← List.append_assoc]
      exact List.perm_append_comm.append_right _

theorem map_firsts {xs ys : List α} (h : ∀ y ∈ ys, y ∈ xs) :
    (ys.filterMap fun x => xs.find? fun y => f y = f x).map f = ys.map f := by
  induction ys with
  | nil => rfl
  | cons y ys ih =>
    obtain ⟨first, hfirst, hkey⟩ := exists_find?_key (f := f) (h y (List.mem_cons_self ..))
    simp only [List.filterMap_cons, hfirst, List.map_cons, hkey,
      ih fun z hz => h z (List.mem_cons_of_mem _ hz)]

/-- How often a key is told. -/
theorem times_along_tellIf (xs : List α) (k : κ) :
    times f (along (tellIf f p q) [] xs) k =
      times f (again f p xs) k + times f (again f q xs) k := by
  have hfirsts : times f ((again f q xs).filterMap fun x => xs.find? fun y => f y = f x) k =
      times f (again f q xs) k :=
    times_eq_of_perm (.of_eq (map_firsts fun _ => mem_of_mem_again)) k
  rw [times_eq_of_perm ((along_tellIf_perm xs).map f) k, times_append, hfirsts]

/-- The firsts of the same keys are the same. -/
theorem firsts_perm {xs ys zs : List α} (h : ∀ k, times f ys k = times f zs k) :
    (ys.filterMap fun x => xs.find? fun y => f y = f x).Perm
      (zs.filterMap fun x => xs.find? fun y => f y = f x) := by
  have hkeys : (ys.map f).Perm (zs.map f) := by
    refine List.perm_iff_count.2 fun k => ?_
    have hcount : ∀ ws : List α, (ws.map f).count k = times f ws k := fun ws => by
      rw [List.count, List.countP_map]
      rfl
    rw [hcount, hcount, h]
  have hmap : ∀ ws : List α, (ws.filterMap fun x => xs.find? fun y => f y = f x) =
      (ws.map f).filterMap fun k => xs.find? fun y => f y = k := fun ws => by
    rw [List.filterMap_map]
    rfl
  rw [hmap, hmap]
  exact hkeys.filterMap _

theorem tellOnce_eq_tellIf :
    tellOnce f = tellIf f (fun _ _ => true) fun before x => times f before (f x) = 1 := by
  funext before x
  unfold tellOnce tellIf
  split
  · rfl
  · split
    · next hone => simp only [hone, decide_true, if_true, List.singleton_append]
    · next hone => simp only [hone, decide_false, Bool.false_eq_true, if_true, if_false,
        List.append_nil]

/-- A key is told right where all its later entries are told, and the first of it once. -/
theorem along_tellIf_perm_repeated {xs : List α} (hp : again f p xs = again f (fun _ _ => true) xs)
    (hq : ∀ k, times f (again f q xs) k = if 2 ≤ times f xs k then 1 else 0) :
    (along (tellIf f p q) [] xs).Perm (repeated f xs) := by
  have honce := along_tellOnce_perm (f := f) xs
  rw [tellOnce_eq_tellIf] at honce
  have hsecond : ∀ k, times f (again f q xs) k =
      times f (again f (fun before x => times f before (f x) = 1) xs) k := by
    intro k
    have htimes := times_eq_of_perm (honce.map f) k
    rw [times_along_tellIf, times_again, times_repeated] at htimes
    rw [hq k]
    by_cases htwo : 2 ≤ times f xs k
    · rw [if_pos htwo] at htimes ⊢
      omega
    · rw [if_neg htwo] at htimes ⊢
      omega
  refine (along_tellIf_perm xs).trans ?_
  rw [hp]
  refine ((firsts_perm hsecond).append_left _).trans ?_
  exact (along_tellIf_perm xs).symm.trans honce

/-! ### Entries that are passed over -/

variable (f p) in
/-- The entry meets the condition, and none of its key that was read again did. -/
def firstTime (before : List α) (x : α) : Bool :=
  p before x && decide (times f (again f p before) (f x) = 0)

theorem times_again_firstTime (xs : List α) (k : κ) :
    times f (again f (firstTime f p) xs) k = if times f (again f p xs) k = 0 then 0 else 1 := by
  induction xs using List.reverseRecOn with
  | nil => rfl
  | append_singleton xs x ih =>
    rw [again_snoc, again_snoc, times_append, times_append, ih, times_if, times_if]
    by_cases hkey : f x = k
    · subst hkey
      by_cases hnew : times f xs (f x) ≠ 0 ∧ p xs x = true
      · by_cases hzero : times f (again f p xs) (f x) = 0
        · simp [firstTime, hnew, hzero]
        · simp [firstTime, hnew, hzero]
      · have hnot : ¬ (times f xs (f x) ≠ 0 ∧ firstTime f p xs x = true) := fun h =>
          hnew ⟨h.1, (Bool.and_eq_true _ _ ▸ h.2).1⟩
        simp only [hnew, hnot, false_and, if_false, Nat.add_zero]
    · simp only [hkey, and_false, if_false, Nat.add_zero]

theorem times_again_add_not (xs : List α) (k : κ) :
    times f (again f p xs) k + times f (again f (fun before x => !p before x) xs) k =
      times f xs k - 1 := by
  rw [← times_again]
  induction xs using List.reverseRecOn with
  | nil => rfl
  | append_singleton xs x ih =>
    simp only [again_snoc, times_append, times_if, ← ih]
    cases p xs x <;> simp <;> omega

theorem again_eq_of_not_eq_nil {xs : List α} (h : again f (fun before x => !p before x) xs = []) :
    again f p xs = again f (fun _ _ => true) xs := by
  induction xs using List.reverseRecOn with
  | nil => rfl
  | append_singleton xs x ih =>
    rw [again_snoc] at h
    obtain ⟨hxs, hx⟩ := List.append_eq_nil_iff.1 h
    rw [again_snoc, again_snoc, ih hxs]
    congr 1
    by_cases hzero : times f xs (f x) = 0
    · simp [hzero]
    · cases hp : p xs x with
      | true => rfl
      | false => simp [hzero, hp] at hx

/-- **Where some entries are passed over, and the first of a key is told with the next entry of it
that is not, the entries told are those of the keys that occur at least twice exactly if every entry
that is passed over is the first of its key.** -/
theorem along_tellIf_firstTime_perm_iff (xs : List α) :
    (((along (tellIf f p (firstTime f p)) [] xs).map f).Perm ((repeated f xs).map f) →
      again f (fun before x => !p before x) xs = []) ∧
    (again f (fun before x => !p before x) xs = [] →
      (along (tellIf f p (firstTime f p)) [] xs).Perm (repeated f xs)) := by
  refine ⟨fun h => List.eq_nil_iff_forall_not_mem.2 fun x hx => ?_, fun h => ?_⟩
  · have htimes := times_eq_of_perm h (f x)
    rw [times_along_tellIf, times_again_firstTime, times_repeated] at htimes
    have hsplit := times_again_add_not (f := f) (p := p) xs (f x)
    have hpos := times_pos (f := f) hx
    split at htimes <;> split at htimes <;> omega
  · refine along_tellIf_perm_repeated (again_eq_of_not_eq_nil h) fun k => ?_
    rw [times_again_firstTime, again_eq_of_not_eq_nil h, times_again]
    split <;> split <;> omega

end TellIf

/-! ## Told every time -/

theorem tellEveryTime_eq_tellIf :
    tellEveryTime f = tellIf f (fun _ _ => true) fun _ _ => true := by
  funext before x
  unfold tellEveryTime tellIf
  split
  · rfl
  · rfl

/-- Told every time, no key is told right that occurs three times. -/
theorem times_le_two_of_perm {xs : List α}
    (h : ((along (tellEveryTime f) [] xs).map f).Perm ((repeated f xs).map f)) (k : κ) :
    times f xs k ≤ 2 := by
  have htimes := times_eq_of_perm h k
  rw [tellEveryTime_eq_tellIf, times_along_tellIf, times_again, times_repeated] at htimes
  split at htimes <;> omega

/-- **Told every time, the entries are those of the keys that occur at least twice where no key
occurs three times.** -/
theorem along_tellEveryTime_perm {xs : List α} (h : ∀ k, times f xs k ≤ 2) :
    (along (tellEveryTime f) [] xs).Perm (repeated f xs) := by
  rw [tellEveryTime_eq_tellIf]
  refine along_tellIf_perm_repeated rfl fun k => ?_
  have hk := h k
  rw [times_again]
  split <;> omega

/-! ## Faults that are told up to one that ends the reading -/

section Faults

variable {α : Type} {faulty seen fatal : α → Bool}

variable (seen fatal) in
/-- The entries that are seen, up to the first fatal one. -/
def tellUntil : List α → List α
  | [] => []
  | x :: xs => if fatal x then [x] else if seen x then x :: tellUntil xs else tellUntil xs

theorem tellUntil_of_fatal {x : α} (h : fatal x = true) (xs : List α) :
    tellUntil seen fatal (x :: xs) = [x] := by
  rw [tellUntil, if_pos h]

theorem tellUntil_of_seen {x : α} (hfatal : fatal x = false) (hseen : seen x = true) (xs : List α) :
    tellUntil seen fatal (x :: xs) = x :: tellUntil seen fatal xs := by
  rw [tellUntil, if_neg (Bool.eq_false_iff.1 hfatal), if_pos hseen]

theorem tellUntil_of_unseen {x : α} (hfatal : fatal x = false) (hseen : seen x = false)
    (xs : List α) : tellUntil seen fatal (x :: xs) = tellUntil seen fatal xs := by
  rw [tellUntil, if_neg (Bool.eq_false_iff.1 hfatal), if_neg (Bool.eq_false_iff.1 hseen)]

theorem tellUntil_sublist (hseen : ∀ x, seen x = true → faulty x = true)
    (hfatal : ∀ x, fatal x = true → seen x = true) (xs : List α) :
    List.Sublist (tellUntil seen fatal xs) (xs.filter faulty) := by
  induction xs with
  | nil => exact .slnil
  | cons x xs ih =>
    rw [tellUntil]
    split
    · next hx =>
      rw [List.filter_cons_of_pos (hseen x (hfatal x hx))]
      exact .cons_cons x (List.nil_sublist _)
    split
    · next hx =>
      rw [List.filter_cons_of_pos (hseen x hx)]
      exact .cons_cons x ih
    · rw [List.filter_cons]
      split
      · exact .cons x ih
      · exact ih

/-- All faults are told exactly if all of them are seen and none stands behind a fatal one. -/
theorem tellUntil_eq_filter_iff (hseen : ∀ x, seen x = true → faulty x = true)
    (hfatal : ∀ x, fatal x = true → seen x = true) (xs : List α) :
    tellUntil seen fatal xs = xs.filter faulty ↔
      (∀ x ∈ xs, faulty x = true → seen x = true) ∧
        xs.Pairwise fun x y => fatal x = true → faulty y = false := by
  induction xs with
  | nil => exact iff_of_true rfl ⟨fun x hx => absurd hx List.not_mem_nil, .nil⟩
  | cons x xs ih =>
    rw [tellUntil, List.forall_mem_cons, List.pairwise_cons]
    split
    · next hx =>
      rw [List.filter_cons_of_pos (hseen x (hfatal x hx))]
      have hnone : [x] = x :: xs.filter faulty ↔ ∀ y ∈ xs, faulty y = false := by
        rw [List.cons_inj_right, eq_comm, List.filter_eq_nil_iff]
        simp only [Bool.not_eq_true]
      rw [hnone]
      refine ⟨fun h => ⟨⟨fun _ => hfatal x hx, fun y hy hfaulty => ?_⟩, fun y hy _ => h y hy, ?_⟩,
        fun h y hy => h.2.1 y hy hx⟩
      · rw [h y hy] at hfaulty
        cases hfaulty
      · exact List.pairwise_of_forall_mem_list fun _ _ y hy _ => h y hy
    next hx =>
    have hfirst : ∀ y ∈ xs, fatal x = true → faulty y = false := fun _ _ h => absurd h hx
    split
    · next hsees =>
      rw [List.filter_cons_of_pos (hseen x hsees), List.cons_inj_right, ih]
      exact ⟨fun h => ⟨⟨fun _ => hsees, h.1⟩, hfirst, h.2⟩, fun h => ⟨h.1.2, h.2.2⟩⟩
    · next hsees =>
      by_cases hfaulty : faulty x = true
      · -- a fault that is not seen: fewer are told than there are
        rw [List.filter_cons_of_pos hfaulty]
        refine iff_of_false (fun heq => ?_) fun h => hsees (h.1.1 hfaulty)
        have hlength := (tellUntil_sublist hseen hfatal xs).length_le
        rw [heq, List.length_cons] at hlength
        exact absurd hlength (Nat.not_succ_le_self _)
      · rw [List.filter_cons_of_neg hfaulty, ih]
        exact ⟨fun h => ⟨⟨fun h' => absurd h' hfaulty, h.1⟩, hfirst, h.2⟩, fun h => ⟨h.1.2, h.2.2⟩⟩

end Faults

/-! ## Lists put together -/

section FlatMap

variable {α β : Type}

theorem flatMap_sublist_of_forall {xs : List α} {f g : α → List β}
    (h : ∀ x ∈ xs, List.Sublist (f x) (g x)) : List.Sublist (xs.flatMap f) (xs.flatMap g) := by
  induction xs with
  | nil => exact .slnil
  | cons x xs ih =>
    rw [List.forall_mem_cons] at h
    exact h.1.append (ih h.2)

/-- Sublists that are put together make the same exactly if each of them is all of its list. -/
theorem flatMap_eq_iff_of_sublist {xs : List α} {f g : α → List β}
    (h : ∀ x ∈ xs, List.Sublist (f x) (g x)) :
    xs.flatMap f = xs.flatMap g ↔ ∀ x ∈ xs, f x = g x := by
  induction xs with
  | nil => exact iff_of_true rfl fun x hx => absurd hx List.not_mem_nil
  | cons x xs ih =>
    rw [List.forall_mem_cons] at h ⊢
    rw [List.flatMap_cons, List.flatMap_cons, ← ih h.2]
    refine ⟨fun heq => ?_, fun ⟨hx, hxs⟩ => by rw [hx, hxs]⟩
    have hlength := congrArg List.length heq
    rw [List.length_append, List.length_append] at hlength
    have hrest := (flatMap_sublist_of_forall h.2).length_le
    have hx : f x = g x := h.1.eq_of_length_le (by omega)
    rw [hx] at heq
    exact ⟨hx, List.append_cancel_left heq⟩

theorem flatMap_filter_of_nil {xs : List α} {f : α → List β} {p : α → Bool}
    (h : ∀ x ∈ xs, p x = false → f x = []) : (xs.filter p).flatMap f = xs.flatMap f := by
  induction xs with
  | nil => rfl
  | cons x xs ih =>
    rw [List.forall_mem_cons] at h
    rw [List.filter_cons, List.flatMap_cons, ← ih h.2]
    split
    · rfl
    · next hx => rw [h.1 (Bool.of_not_eq_true hx), List.nil_append]

theorem flatMap_range_getElem? (xs : List α) (f : α → List β) :
    (List.range xs.length).flatMap (fun i => xs[i]?.elim [] f) = xs.flatMap f := by
  induction xs with
  | nil => rfl
  | cons x xs ih =>
    rw [List.length_cons, List.range_succ_eq_map, List.flatMap_cons, List.flatMap_map,
      List.flatMap_cons, ← ih]
    rfl

/-- The entries under some of the indices, when the others give nothing. -/
theorem flatMap_getElem?_perm {xs : List α} {f : α → List β} {indices : List Nat}
    (hnodup : indices.Nodup) (h : ∀ i x, xs[i]? = some x → i ∉ indices → f x = []) :
    (indices.flatMap fun i => xs[i]?.elim [] f).Perm (xs.flatMap f) := by
  have hindices : (indices.filter fun i => i < xs.length).flatMap (fun i => xs[i]?.elim [] f) =
      indices.flatMap fun i => xs[i]?.elim [] f := by
    refine flatMap_filter_of_nil fun i _ hi => ?_
    rw [List.getElem?_eq_none (Nat.not_lt.1 (of_decide_eq_false hi))]
    rfl
  have hrange : ((List.range xs.length).filter fun i => i ∈ indices).flatMap
      (fun i => xs[i]?.elim [] f) = xs.flatMap f := by
    rw [← flatMap_range_getElem? xs f]
    refine flatMap_filter_of_nil fun i _ hi => ?_
    cases hx : xs[i]? with
    | none => rfl
    | some x => exact h i x hx (of_decide_eq_false hi)
  rw [← hindices, ← hrange]
  refine List.Perm.flatMap_right _ ((List.perm_ext_iff_of_nodup (hnodup.filter _)
    (List.nodup_range.filter _)).2 fun i => ?_)
  simp only [List.mem_filter, List.mem_range, decide_eq_true_eq, and_comm]

end FlatMap

end Flashpoint.Library
