import Mathlib.Data.List.Basic
import Mathlib.Data.List.Induction
import Mathlib.Data.List.Infix
import Mathlib.Data.List.Nodup
import Mathlib.Data.List.Perm.Subperm
import Mathlib.Data.Nat.Basic

/-!
# Gathering distinct names

`gather n` collects the names of a list in order of occurrence, each once and at
most `n`. It can be done in stages (`gather_gather`), and names gathered before
do not show exactly when the new ones begin with them (`gather_append_eq_iff`).
-/

namespace FlowAlarm.Data

variable {α : Type} [DecidableEq α] {n : ℕ}

def addName (n : ℕ) (names : List α) (x : α) : List α :=
  if x ∈ names ∨ n ≤ names.length then names else names ++ [x]

def gather (n : ℕ) (names xs : List α) : List α := xs.foldl (addName n) names

theorem gather_append (names xs ys : List α) :
    gather n names (xs ++ ys) = gather n (gather n names xs) ys := List.foldl_append

theorem gather_snoc (names xs : List α) (x : α) :
    gather n names (xs ++ [x]) = addName n (gather n names xs) x := gather_append _ _ _

theorem length_gather_le {names : List α} (h : names.length ≤ n) (xs : List α) :
    (gather n names xs).length ≤ n := by
  induction xs using List.reverseRecOn with
  | nil => exact h
  | append_singleton xs x ih =>
    rw [gather_snoc, addName]
    split
    · exact ih
    · rw [List.length_append, List.length_singleton]
      omega

theorem eraseDups_snoc (xs : List α) (x : α) :
    (xs ++ [x]).eraseDups = if x ∈ xs then xs.eraseDups else xs.eraseDups ++ [x] := by
  rw [List.eraseDups_append]
  by_cases hx : x ∈ xs <;> simp [List.removeAll, hx, List.eraseDups_cons]

theorem nodup_eraseDups (xs : List α) : xs.eraseDups.Nodup := by
  induction xs using List.reverseRecOn with
  | nil => exact .nil
  | append_singleton xs x ih =>
    rw [eraseDups_snoc]
    split
    · exact ih
    · next hx => exact List.nodup_append.mpr ⟨ih, List.nodup_singleton x, by
        rintro a ha b hb rfl
        rw [List.mem_singleton] at hb
        exact hx (hb ▸ List.mem_eraseDups.mp ha)⟩

theorem eraseDups_filter (p : α → Bool) (xs : List α) :
    (xs.filter p).eraseDups = xs.eraseDups.filter p := by
  induction xs using List.reverseRecOn with
  | nil => rfl
  | append_singleton xs x ih =>
    rw [List.filter_append, eraseDups_snoc]
    by_cases hp : p x = true
    · rw [List.filter_singleton, hp, cond_true, eraseDups_snoc, ih]
      by_cases hx : x ∈ xs <;> simp [hx, hp]
    · have hp : p x = false := by simpa using hp
      rw [List.filter_singleton, hp, cond_false, List.append_nil, ih]
      by_cases hx : x ∈ xs <;> simp [hx, hp]

/-- What is gathered from nothing. -/
theorem gather_eq (xs : List α) : gather n [] xs = xs.eraseDups.take n := by
  induction xs using List.reverseRecOn with
  | nil => exact List.take_nil.symm
  | append_singleton xs x ih =>
    rw [gather_snoc, ih, addName, eraseDups_snoc]
    by_cases hx : x ∈ xs
    · rw [if_pos hx, if_pos]
      rcases Nat.lt_or_ge xs.eraseDups.length n with hlt | hge
      · left
        rw [List.take_of_length_le hlt.le]
        exact List.mem_eraseDups.mpr hx
      · exact .inr (by rw [List.length_take]; omega)
    · rw [if_neg hx]
      rcases Nat.lt_or_ge xs.eraseDups.length n with hlt | hge
      · rw [List.take_of_length_le hlt.le, if_neg, List.take_of_length_le
          (by rw [List.length_append]; exact hlt)]
        rintro (hmem | hfull)
        · exact hx (List.mem_eraseDups.mp hmem)
        · omega
      · rw [if_pos (.inr (by rw [List.length_take]; omega)), List.take_append_of_le_length hge]

theorem gather_nodup (xs : List α) : (gather n [] xs).Nodup := by
  rw [gather_eq]
  exact (nodup_eraseDups xs).sublist (List.take_sublist _ _)

/-- A gathered name is there, or there is no room. -/
theorem mem_gather (names : List α) {xs : List α} {x : α} (hx : x ∈ xs) :
    x ∈ gather n names xs ∨ n ≤ (gather n names xs).length := by
  induction xs using List.reverseRecOn with
  | nil => cases hx
  | append_singleton xs y ih =>
    rw [gather_snoc, addName]
    split
    · next h =>
      rcases List.mem_append.mp hx with hx | hx
      · exact ih hx
      · exact List.mem_singleton.mp hx ▸ h
    · rcases List.mem_append.mp hx with hx | hx
      · rcases ih hx with hmem | hfull
        · exact .inl (List.mem_append_left _ hmem)
        · exact .inr (by rw [List.length_append]; omega)
      · exact .inl (List.mem_append_right _ hx)

/-- **Names may be gathered in stages.** -/
theorem gather_gather (names xs : List α) : gather n names (gather n [] xs) = gather n names xs := by
  induction xs using List.reverseRecOn with
  | nil => rfl
  | append_singleton xs x ih =>
    rw [gather_snoc, gather_snoc, ← ih]
    by_cases hold : x ∈ gather n [] xs ∨ n ≤ (gather n [] xs).length
    · rw [addName, if_pos hold, addName, if_pos]
      rcases hold with hmem | hfull
      · exact mem_gather names hmem
      · -- as many distinct names are gathered behind any others
        by_contra hroom
        push Not at hroom
        have hsub : gather n [] xs ⊆ gather n names (gather n [] xs) := fun y hy =>
          (mem_gather names hy).resolve_right (by omega)
        have hle := (List.subperm_of_subset (gather_nodup xs) hsub).length_le
        omega
    · rw [addName, if_neg hold, gather_snoc]

/-- **What was gathered before does not show** exactly when the new names begin with it. -/
theorem gather_append_eq_iff (xs ys : List α) :
    gather n [] (xs ++ ys) = gather n [] ys ↔ gather n [] xs <+: ys.eraseDups := by
  simp only [gather_eq, List.eraseDups_append]
  constructor
  · intro h
    have hpre : xs.eraseDups.take n <+: (xs.eraseDups ++ (ys.removeAll xs).eraseDups).take n :=
      (List.prefix_append _ _).take n
    rw [h] at hpre
    exact hpre.trans (List.take_prefix _ _)
  · intro h
    rcases Nat.lt_or_ge xs.eraseDups.length n with hlt | hge
    · rw [List.take_of_length_le hlt.le] at h
      obtain ⟨new, hnew⟩ := h
      have hdisj : ∀ y ∈ new, y ∉ xs := by
        have hnd := nodup_eraseDups ys
        rw [← hnew] at hnd
        intro y hy hx
        exact (List.nodup_append.mp hnd).2.2 y (List.mem_eraseDups.mpr hx) y hy rfl
      have hrest : (ys.removeAll xs).eraseDups = new := by
        rw [List.removeAll, eraseDups_filter, ← hnew, List.filter_append]
        have hall : new.filter (fun y => !xs.elem y) = new :=
          List.filter_eq_self.mpr fun y hy => by simp [hdisj y hy]
        have hnone : xs.eraseDups.filter (fun y => !xs.elem y) = [] :=
          List.filter_eq_nil_iff.mpr fun y hy => by simp [List.mem_eraseDups.mp hy]
        rw [hall, hnone, List.nil_append]
      rw [hrest, hnew]
    · have hlen : (xs.eraseDups.take n).length = n := by rw [List.length_take]; omega
      have htake := List.prefix_iff_eq_take.mp h
      rw [hlen] at htake
      rw [List.take_append_of_le_length hge, htake]

end FlowAlarm.Data
