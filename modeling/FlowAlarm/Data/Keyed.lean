import Mathlib.Data.List.Induction
import Mathlib.Data.List.Nodup
import Mathlib.Data.List.Perm.Basic

/-!
# Maps as keyed lists

A finite map is a list whose items carry their own key, each key once. The
order of the list means nothing: everything is stated through `lookup`.
`selectBest` is the usual pass over the items for the best one.
-/

namespace FlowAlarm.Keyed

section

variable {κ α : Type} [DecidableEq κ] (key : α → κ)

def lookup (k : κ) (xs : List α) : Option α := xs.find? fun x => key x = k

def erase (k : κ) (xs : List α) : List α := xs.filter fun x => key x ≠ k

def insert (x : α) (xs : List α) : List α := x :: erase key (key x) xs

/-- Each key stands once. -/
def Unique (xs : List α) : Prop := (xs.map key).Nodup

end

section

variable {κ α : Type} [DecidableEq κ] {key : α → κ} {k k' : κ} {x y : α} {xs ys : List α}

theorem lookup_nil : lookup key k [] = none := rfl

theorem lookup_cons : lookup key k (x :: xs) = if key x = k then some x else lookup key k xs := by
  by_cases h : key x = k <;> simp [lookup, h]

theorem lookup_key (h : lookup key k xs = some x) : key x = k := by
  simpa using List.find?_some h

theorem lookup_mem (h : lookup key k xs = some x) : x ∈ xs := List.mem_of_find?_eq_some h

theorem lookup_eq_none : lookup key k xs = none ↔ ∀ x ∈ xs, key x ≠ k := by
  simp [lookup]

theorem lookup_of_mem (hu : Unique key xs) (h : x ∈ xs) : lookup key (key x) xs = some x := by
  induction xs with
  | nil => cases h
  | cons y xs ih =>
    rw [Unique, List.map_cons, List.nodup_cons] at hu
    rcases List.mem_cons.mp h with rfl | h
    · rw [lookup_cons, if_pos rfl]
    · have hne : key y ≠ key x := fun he => hu.1 (he ▸ List.mem_map_of_mem h)
      rw [lookup_cons, if_neg hne, ih hu.2 h]

theorem lookup_erase : lookup key k (erase key k' xs) = if k = k' then none else lookup key k xs := by
  induction xs with
  | nil => simp [erase, lookup]
  | cons x xs ih =>
    by_cases hx : key x = k'
    · have : erase key k' (x :: xs) = erase key k' xs := by simp [erase, hx]
      rw [this, ih, lookup_cons]
      by_cases hk : k = k'
      · simp [hk]
      · simp [hk, hx, Ne.symm hk]
    · have : erase key k' (x :: xs) = x :: erase key k' xs := by simp [erase, hx]
      rw [this, lookup_cons, ih, lookup_cons]
      by_cases hk : key x = k
      · have : k ≠ k' := fun he => hx (hk.trans he)
        simp [hk, this]
      · simp [hk]

theorem lookup_insert : lookup key k (insert key x xs) = if key x = k then some x
    else lookup key k xs := by
  rw [insert, lookup_cons, lookup_erase]
  by_cases h : key x = k
  · simp [h]
  · simp [h, Ne.symm h]

/-- A filter that keeps everything under the key. -/
theorem lookup_filter {p : α → Bool} (h : ∀ x, key x = k → p x = true) :
    lookup key k (xs.filter p) = lookup key k xs := by
  induction xs with
  | nil => rfl
  | cons x xs ih =>
    by_cases hp : p x = true
    · rw [List.filter_cons_of_pos hp, lookup_cons, lookup_cons, ih]
    · have hx : key x ≠ k := fun he => hp (h x he)
      rw [List.filter_cons_of_neg hp, lookup_cons, if_neg hx, ih]

theorem mem_erase : x ∈ erase key k xs ↔ x ∈ xs ∧ key x ≠ k := by
  simp [erase]

theorem mem_insert (h : x ∈ insert key y xs) : x = y ∨ x ∈ xs := by
  rcases List.mem_cons.mp h with h | h
  · exact .inl h
  · exact .inr (mem_erase.mp h).1

omit [DecidableEq κ] in
theorem unique_nil : Unique key [] := List.nodup_nil

theorem Unique.erase (h : Unique key xs) (k : κ) : Unique key (erase key k xs) :=
  h.sublist (List.filter_sublist.map key)

theorem Unique.insert (h : Unique key xs) (x : α) : Unique key (insert key x xs) := by
  rw [Unique, Keyed.insert, List.map_cons, List.nodup_cons]
  refine ⟨fun hm => ?_, h.erase _⟩
  obtain ⟨y, hy, he⟩ := List.mem_map.mp hm
  exact (mem_erase.mp hy).2 he

theorem keys_erase (hu : Unique key xs) : (erase key k xs).map key = (xs.map key).erase k := by
  rw [hu.erase_eq_filter, List.filter_map]
  congr 1
  refine List.filter_congr fun x _ => ?_
  by_cases h : key x = k <;> simp [h]

theorem length_erase_lt (h : x ∈ xs) : (erase key (key x) xs).length < xs.length :=
  List.length_filter_lt_length_iff_exists.mpr ⟨x, h, by simp⟩

theorem erase_of_lookup_eq_none (h : lookup key k xs = none) : erase key k xs = xs := by
  refine List.filter_eq_self.mpr fun x hx => ?_
  simpa using lookup_eq_none.mp h x hx

/-- The item under a key, beside the items under the other keys. -/
theorem perm_cons_erase (hu : Unique key xs) (h : lookup key k xs = some x) :
    xs.Perm (x :: erase key k xs) := by
  induction xs with
  | nil => cases h
  | cons y xs ih =>
    rw [lookup_cons] at h
    rw [Unique, List.map_cons, List.nodup_cons] at hu
    by_cases hy : key y = k
    · rw [if_pos hy] at h
      obtain rfl := Option.some.inj h
      have hnone : lookup key k xs = none := lookup_eq_none.mpr fun z hz he =>
        hu.1 (hy.trans he.symm ▸ List.mem_map_of_mem hz)
      have herase : erase key k (y :: xs) = erase key k xs := by simp [erase, hy]
      rw [herase, erase_of_lookup_eq_none hnone]
    · rw [if_neg hy] at h
      have herase : erase key k (y :: xs) = y :: erase key k xs := by simp [erase, hy]
      rw [herase]
      exact ((ih hu.2 h).cons y).trans (.swap x y _)

/-- The order of the items does not matter. -/
theorem lookup_perm (hp : xs.Perm ys) (hu : Unique key xs) : lookup key k xs = lookup key k ys := by
  have huy : Unique key ys := (hp.map key).nodup_iff.mp hu
  cases hx : lookup key k xs with
  | some x =>
    have := lookup_of_mem huy (hp.subset (lookup_mem hx))
    rw [lookup_key hx] at this
    rw [this]
  | none =>
    rw [eq_comm, lookup_eq_none]
    exact fun y hy => lookup_eq_none.mp hx y (hp.symm.subset hy)

theorem lookup_map {f : α → α} (hf : ∀ x, key (f x) = key x) :
    lookup key k (xs.map f) = (lookup key k xs).map f := by
  induction xs with
  | nil => rfl
  | cons x xs ih =>
    rw [List.map_cons, lookup_cons, lookup_cons, hf, ih]
    split <;> rfl

theorem lookup_filterMap {f : α → Option α} (hf : ∀ x y, f x = some y → key y = key x)
    (hu : Unique key xs) : lookup key k (xs.filterMap f) = (lookup key k xs).bind f := by
  induction xs with
  | nil => rfl
  | cons x xs ih =>
    rw [Unique, List.map_cons, List.nodup_cons] at hu
    rw [lookup_cons]
    cases hx : f x with
    | none =>
      rw [List.filterMap_cons_none hx, ih hu.2]
      split
      · next hk =>
        have hnone : lookup key k xs = none := lookup_eq_none.mpr fun y hy he =>
          hu.1 (hk.trans he.symm ▸ List.mem_map_of_mem hy)
        rw [hnone, Option.bind_none, Option.bind_some, hx]
      · rfl
    | some y =>
      rw [List.filterMap_cons_some hx, lookup_cons, ih hu.2, hf x y hx]
      split
      · rw [Option.bind_some, hx]
      · rfl

omit [DecidableEq κ] in
theorem Unique.filterMap {f : α → Option α} (hf : ∀ x y, f x = some y → key y = key x)
    (hu : Unique key xs) : Unique key (xs.filterMap f) := by
  refine List.Nodup.sublist ?_ hu
  induction xs with
  | nil => exact .slnil
  | cons x xs ih =>
    rw [Unique, List.map_cons, List.nodup_cons] at hu
    cases hx : f x with
    | none =>
      rw [List.filterMap_cons_none hx]
      exact (ih hu.2).cons _
    | some y =>
      rw [List.filterMap_cons_some hx, List.map_cons, List.map_cons, hf x y hx]
      exact (ih hu.2).cons_cons _

theorem lookup_append : lookup key k (xs ++ ys) = (lookup key k xs).or (lookup key k ys) := by
  simp [lookup, List.find?_append]

end

/-! ## Selecting an item -/

section

variable {α : Type}

/-- The best of the items with the property, found in one pass. -/
def selectBest (p : α → Bool) (better : α → α → Bool) (xs : List α) : Option α :=
  xs.foldl (fun candidate x =>
    if p x then
      match candidate with
      | none => some x
      | some c => if better x c then some x else some c
    else candidate) none

variable {p : α → Bool} {better : α → α → Bool} {xs : List α} {c : α}

theorem selectBest_append (x : α) :
    selectBest p better (xs ++ [x]) =
      if p x then
        match selectBest p better xs with
        | none => some x
        | some c => if better x c then some x else some c
      else selectBest p better xs := by
  rw [selectBest, List.foldl_append]
  rfl

theorem selectBest_mem (h : selectBest p better xs = some c) : c ∈ xs ∧ p c = true := by
  induction xs using List.reverseRecOn generalizing c with
  | nil => cases h
  | append_singleton xs x ih =>
    rw [selectBest_append] at h
    rw [List.mem_append, List.mem_singleton]
    split at h
    next hx =>
      split at h
      · cases h
        exact ⟨.inr rfl, hx⟩
      next c' hc =>
        split at h
        · cases h
          exact ⟨.inr rfl, hx⟩
        · cases h
          exact ⟨.inl (ih hc).1, (ih hc).2⟩
    next => exact ⟨.inl (ih h).1, (ih h).2⟩

theorem selectBest_none (h : selectBest p better xs = none) : ∀ x ∈ xs, p x = false := by
  induction xs using List.reverseRecOn with
  | nil => simp
  | append_singleton xs x ih =>
    rw [selectBest_append] at h
    split at h
    next hx =>
      split at h
      · cases h
      · split at h <;> cases h
    next hx =>
      intro y hy
      rcases List.mem_append.mp hy with hy | hy
      · exact ih h y hy
      · rw [List.mem_singleton.mp hy]
        simpa using hx

/-- Nothing is better than the best. -/
theorem selectBest_least (hirr : ∀ x, better x x = false)
    (htrans : ∀ x y z, better x y = true → better y z = true → better x z = true)
    (h : selectBest p better xs = some c) : ∀ x ∈ xs, p x = true → better x c = false := by
  induction xs using List.reverseRecOn generalizing c with
  | nil => cases h
  | append_singleton xs x ih =>
    rw [selectBest_append] at h
    intro y hy hpy
    rw [List.mem_append, List.mem_singleton] at hy
    split at h
    next hx =>
      split at h
      next hc =>
        cases h
        rcases hy with hy | rfl
        · rw [selectBest_none hc y hy] at hpy
          cases hpy
        · exact hirr y
      next c' hc =>
        split at h
        next hb =>
          cases h
          rcases hy with hy | rfl
          · by_contra hne
            have := htrans y x c' (by simpa using hne) hb
            rw [ih hc y hy hpy] at this
            cases this
          · exact hirr y
        next hb =>
          cases h
          rcases hy with hy | rfl
          · exact ih hc y hy hpy
          · simpa using hb
    next hx =>
      rcases hy with hy | rfl
      · exact ih h y hy hpy
      · exact absurd hpy hx

end

end FlowAlarm.Keyed
