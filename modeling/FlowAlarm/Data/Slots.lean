import Mathlib.Data.List.Nodup
import Mathlib.Data.List.Perm.Basic

/-!
# Slot tables

A table has a fixed number of slots; a slot that is in use has a key. Items are
found by the first slot with their key and placed in the first free one. As long
as the keys are `Distinct` the table is a map: what stands where does not
matter, and everything is stated through `lookup`.
-/

namespace FlowAlarm.Slots

section

variable {κ α : Type} [DecidableEq κ] (key : α → Option κ)

def keys (xs : List α) : List κ := xs.filterMap key

/-- The item in the first slot with the key. -/
def lookup (k : κ) (xs : List α) : Option α := xs.find? fun x => key x = some k

/-- No key stands in two slots. -/
def Distinct (xs : List α) : Prop := (keys key xs).Nodup

end

section

variable {κ α : Type} [DecidableEq κ] {key : α → Option κ} {k : κ} {x a : α}
  {xs pre post : List α}

omit [DecidableEq κ] in
theorem mem_keys : k ∈ keys key xs ↔ ∃ x ∈ xs, key x = some k := by
  simp [keys]

omit [DecidableEq κ] in
theorem keys_append : keys key (pre ++ post) = keys key pre ++ keys key post :=
  List.filterMap_append

omit [DecidableEq κ] in
theorem keys_cons : keys key (x :: xs) = (key x).toList ++ keys key xs := by
  unfold keys
  cases h : key x with
  | none => rw [List.filterMap_cons_none h]; rfl
  | some k => rw [List.filterMap_cons_some h]; rfl

theorem lookup_key (h : lookup key k xs = some x) : key x = some k := by
  simpa using List.find?_some h

theorem lookup_mem (h : lookup key k xs = some x) : x ∈ xs := List.mem_of_find?_eq_some h

theorem lookup_eq_none : lookup key k xs = none ↔ k ∉ keys key xs := by
  simp [lookup, mem_keys]

theorem lookup_isSome : (lookup key k xs).isSome = true ↔ k ∈ keys key xs := by
  rw [Option.isSome_iff_ne_none, ne_eq, lookup_eq_none, not_not]

theorem lookup_append : lookup key k (pre ++ post) = (lookup key k pre).or (lookup key k post) := by
  simp [lookup, List.find?_append]

theorem lookup_cons :
    lookup key k (x :: xs) = if key x = some k then some x else lookup key k xs := by
  by_cases h : key x = some k <;> simp [lookup, h]

theorem lookup_of_mem (hd : Distinct key xs) (hx : x ∈ xs) (hk : key x = some k) :
    lookup key k xs = some x := by
  induction xs with
  | nil => cases hx
  | cons y xs ih =>
    rw [Distinct, keys_cons, List.nodup_append] at hd
    obtain ⟨-, hrest, hne⟩ := hd
    rw [lookup_cons]
    rcases List.mem_cons.mp hx with rfl | hx
    · rw [if_pos hk]
    · have hy : key y ≠ some k := fun hy =>
        hne k (by simp [hy]) k (mem_keys.mpr ⟨x, hx, hk⟩) rfl
      rw [if_neg hy, ih hrest hx]

/-! ## One slot -/

/-- The first slot with a property, and what stands before and behind it. -/
theorem findIdx?_split {p : α → Bool} {i : ℕ} (h : xs.findIdx? p = some i) :
    ∃ pre x post, xs = pre ++ x :: post ∧ pre.length = i ∧ p x = true ∧
      ∀ y ∈ pre, p y = false := by
  obtain ⟨hi, hp, hbefore⟩ := List.findIdx?_eq_some_iff_getElem.mp h
  refine ⟨xs.take i, xs[i], xs.drop (i + 1), ?_, ?_, hp, fun y hy => ?_⟩
  · rw [List.getElem_cons_drop, List.take_append_drop]
  · rw [List.length_take, Nat.min_eq_left (Nat.le_of_lt hi)]
  · obtain ⟨j, hj, rfl⟩ := List.getElem_of_mem hy
    rw [List.length_take] at hj
    simpa using hbefore j (by omega)

theorem set_split {i : ℕ} (hi : pre.length = i) :
    (pre ++ x :: post).set i a = pre ++ a :: post := by
  rw [← hi, List.set_append_right _ _ (Nat.le_refl _), Nat.sub_self, List.set_cons_zero]

theorem modify_split {i : ℕ} (hi : pre.length = i) (f : α → α) :
    (pre ++ x :: post).modify i f = pre ++ f x :: post := by
  rw [List.modify_eq_set_getElem?, ← hi]
  simp

/-- Another item in a slot: the old key is gone and the new one is found there. -/
theorem lookup_replace (hd : Distinct key (pre ++ x :: post))
    (hnew : ∀ k, key a = some k → key x = some k ∨ k ∉ keys key (pre ++ x :: post)) :
    lookup key k (pre ++ a :: post) =
      if key a = some k then some a
      else if key x = some k then none
      else lookup key k (pre ++ x :: post) := by
  rw [Distinct, keys_append, keys_cons] at hd
  simp only [List.nodup_append, List.mem_append] at hd
  obtain ⟨-, ⟨-, -, hpost⟩, hpre⟩ := hd
  have hout (j : κ) (hx : key x = some j) : j ∉ keys key pre ∧ j ∉ keys key post :=
    ⟨fun h => hpre j h j (.inl (by simp [hx])) rfl, fun h => hpost j (by simp [hx]) j h rfl⟩
  have hpre_none {j : κ} (h : j ∉ keys key pre) : lookup key j pre = none := lookup_eq_none.mpr h
  simp only [lookup_append, lookup_cons]
  split
  · next hak =>
    rcases hnew k hak with hx | hno
    · rw [hpre_none (hout k hx).1, Option.none_or]
    · rw [keys_append, List.mem_append, not_or] at hno
      rw [hpre_none hno.1, Option.none_or]
  · split
    · next hx =>
      rw [hpre_none (hout k hx).1, lookup_eq_none.mpr (hout k hx).2, Option.none_or]
    · rfl

omit [DecidableEq κ] in
theorem Distinct.replace (hd : Distinct key (pre ++ x :: post))
    (hnew : ∀ k, key a = some k → key x = some k ∨ k ∉ keys key (pre ++ x :: post)) :
    Distinct key (pre ++ a :: post) := by
  rw [Distinct, keys_append, keys_cons] at hd ⊢
  rw [keys_append, keys_cons] at hnew
  cases ha : key a with
  | none => exact hd.sublist (by simp)
  | some k =>
    rcases hnew k ha with hx | hno
    · rwa [hx] at hd
    · have hsub : (keys key pre ++ keys key post).Sublist
          (keys key pre ++ ((key x).toList ++ keys key post)) := by simp
      have hperm : (keys key pre ++ ((some k).toList ++ keys key post)).Perm
          (k :: (keys key pre ++ keys key post)) := List.perm_middle
      simp only [List.mem_append, not_or] at hno
      rw [hperm.nodup_iff, List.nodup_cons, List.mem_append, not_or]
      exact ⟨⟨hno.1, hno.2.2⟩, hd.sublist hsub⟩

/-! ## The whole table -/

omit [DecidableEq κ] in
theorem keys_map_sublist {f : α → α} (hf : ∀ x, key (f x) = key x ∨ key (f x) = none) :
    (keys key (xs.map f)).Sublist (keys key xs) := by
  induction xs with
  | nil => exact .slnil
  | cons x xs ih =>
    rw [List.map_cons, keys_cons, keys_cons]
    rcases hf x with h | h
    · rw [h]
      exact ih.append_left _
    · rw [h]
      exact ih.trans (List.sublist_append_right _ _)

omit [DecidableEq κ] in
/-- `f` keeps the key of a slot or empties it. -/
theorem Distinct.map (hd : Distinct key xs) {f : α → α}
    (hf : ∀ x, key (f x) = key x ∨ key (f x) = none) : Distinct key (xs.map f) :=
  hd.sublist (keys_map_sublist hf)

theorem lookup_map (hd : Distinct key xs) {f : α → α}
    (hf : ∀ x, key (f x) = key x ∨ key (f x) = none) :
    lookup key k (xs.map f) =
      (lookup key k xs).bind fun x => if key (f x) = some k then some (f x) else none := by
  induction xs with
  | nil => rfl
  | cons x xs ih =>
    rw [Distinct, keys_cons, List.nodup_append] at hd
    obtain ⟨-, hrest, hne⟩ := hd
    rw [List.map_cons, lookup_cons, lookup_cons, ih hrest]
    by_cases hx : key x = some k
    · have hnone : lookup key k xs = none :=
        lookup_eq_none.mpr fun h => hne k (by simp [hx]) k h rfl
      rw [if_pos hx, hnone]
      simp
    · have hfx : key (f x) ≠ some k := by
        rcases hf x with h | h <;> simp [h, hx]
      rw [if_neg hx, if_neg hfx]

/-- Items in use are counted by their keys. -/
theorem countP_eq (hd : Distinct key xs) {p : α → Bool} (hp : ∀ x, p x = true → key x ≠ none)
    {ks : List κ} (hks : ks.Nodup) (hall : ∀ k, (lookup key k xs).any p = true → k ∈ ks) :
    xs.countP p = ks.countP fun k => (lookup key k xs).any p := by
  have hlen : xs.countP p = (keys key (xs.filter p)).length := by
    clear hd hall
    induction xs with
    | nil => rfl
    | cons x xs ih =>
      cases hx : p x with
      | false =>
        rw [List.countP_cons_of_neg (by simp [hx]), List.filter_cons_of_neg (by simp [hx]), ih]
      | true =>
        obtain ⟨k, hk⟩ := Option.ne_none_iff_exists'.mp (hp x hx)
        rw [List.countP_cons_of_pos hx, List.filter_cons_of_pos hx, keys_cons, hk, ih]
        simp [Nat.add_comm]
  have hperm : (keys key (xs.filter p)).Perm (ks.filter fun k => (lookup key k xs).any p) := by
    rw [List.perm_ext_iff_of_nodup]
    · intro k
      rw [mem_keys, List.mem_filter]
      constructor
      · rintro ⟨x, hx, hk⟩
        obtain ⟨hx, hpx⟩ := List.mem_filter.mp hx
        have hany : (lookup key k xs).any p = true := by rw [lookup_of_mem hd hx hk]; exact hpx
        exact ⟨hall k hany, hany⟩
      · rintro ⟨-, hany⟩
        obtain ⟨x, hx, hpx⟩ := (Option.any_eq_true p _).mp hany
        exact ⟨x, List.mem_filter.mpr ⟨lookup_mem hx, hpx⟩, lookup_key hx⟩
    · exact hd.sublist (List.filter_sublist.filterMap key)
    · exact hks.filter _
  rw [hlen, hperm.length_eq, List.countP_eq_length_filter]

end

end FlowAlarm.Slots
