import FlowAlarm.Data.Keyed
import FlowAlarm.Text.Bytes

/-!
# A directory and its atomic steps

A directory is the list of its files, name and content. A call is a list of
steps, a crash leaves a prefix of it. What no step touches is as it was,
wherever the crash falls (`lookup_perform`). `writeAtomic` writes a file under a
temporary name and renames it.
-/

namespace FlowAlarm.Directory

open FlowAlarm.Text

abbrev Files := List (Bytes × Bytes)

def find (name : Bytes) (files : Files) : Option Bytes :=
  (Keyed.lookup Prod.fst name files).map Prod.snd

inductive Step where
  | create (name : Bytes)
  | append (name data : Bytes)
  | rename (old new : Bytes)
  | unlink (name : Bytes)

def Step.apply (files : Files) : Step → Files
  | .create name => Keyed.insert Prod.fst (name, []) files
  | .append name data =>
    match Keyed.lookup Prod.fst name files with
    | some f => Keyed.insert Prod.fst (name, f.2 ++ data) files
    | none => files
  | .rename old new =>
    match Keyed.lookup Prod.fst old files with
    | some f => Keyed.insert Prod.fst (new, f.2) (Keyed.erase Prod.fst old files)
    | none => files
  | .unlink name => Keyed.erase Prod.fst name files

def perform (files : Files) (steps : List Step) : Files := steps.foldl Step.apply files

def Step.touches : Step → Bytes → Prop
  | .create name, n | .append name _, n | .unlink name, n => n = name
  | .rename old new, n => n = old ∨ n = new

/-- The name a step may add to the directory. -/
def Step.adds : Step → Option Bytes
  | .create name | .append name _ | .rename _ name => some name
  | .unlink _ => none

theorem perform_append (files : Files) (xs ys : List Step) :
    perform files (xs ++ ys) = perform (perform files xs) ys := List.foldl_append

theorem Step.lookup_apply {s : Step} {name : Bytes} (h : ¬ s.touches name) (files : Files) :
    Keyed.lookup Prod.fst name (s.apply files) = Keyed.lookup Prod.fst name files := by
  cases s with
  | create n => exact Keyed.lookup_insert.trans (if_neg fun he => h he.symm)
  | append n data =>
    rw [Step.apply]
    split
    · exact Keyed.lookup_insert.trans (if_neg fun he => h he.symm)
    · rfl
  | rename old new =>
    rw [Step.apply]
    split
    · refine (Keyed.lookup_insert.trans (if_neg fun he => h (.inr he.symm))).trans ?_
      exact Keyed.lookup_erase.trans (if_neg fun he => h (.inl he))
    · rfl
  | unlink n => exact Keyed.lookup_erase.trans (if_neg h)

/-- **What no step touches stays.** -/
theorem lookup_perform {steps : List Step} {name : Bytes} (h : ∀ s ∈ steps, ¬ s.touches name)
    (files : Files) :
    Keyed.lookup Prod.fst name (perform files steps) = Keyed.lookup Prod.fst name files := by
  induction steps generalizing files with
  | nil => rfl
  | cons s steps ih =>
    obtain ⟨hs, hrest⟩ := List.forall_mem_cons.mp h
    exact (ih hrest (s.apply files)).trans (s.lookup_apply hs files)

theorem Step.mem_apply {s : Step} {files : Files} {f : Bytes × Bytes} (h : f ∈ s.apply files) :
    f ∈ files ∨ s.adds = some f.1 := by
  cases s with
  | create n =>
    rcases Keyed.mem_insert h with rfl | h
    · exact .inr rfl
    · exact .inl h
  | append n data =>
    rw [Step.apply] at h
    split at h
    · rcases Keyed.mem_insert h with rfl | h
      · exact .inr rfl
      · exact .inl h
    · exact .inl h
  | rename old new =>
    rw [Step.apply] at h
    split at h
    · rcases Keyed.mem_insert h with rfl | h
      · exact .inr rfl
      · exact .inl (Keyed.mem_erase.mp h).1
    · exact .inl h
  | unlink n => exact .inl (Keyed.mem_erase.mp h).1

/-- A file of the directory was there, or a step added its name. -/
theorem mem_perform {steps : List Step} {files : Files} {f : Bytes × Bytes}
    (h : f ∈ perform files steps) : f ∈ files ∨ ∃ s ∈ steps, s.adds = some f.1 := by
  induction steps generalizing files with
  | nil => exact .inl h
  | cons s steps ih =>
    rcases ih h with h | ⟨t, ht, ha⟩
    · exact (s.mem_apply h).imp_right fun ha => ⟨s, List.mem_cons_self, ha⟩
    · exact .inr ⟨t, List.mem_cons_of_mem _ ht, ha⟩

theorem Step.unique_apply {files : Files} (h : Keyed.Unique Prod.fst files) (s : Step) :
    Keyed.Unique Prod.fst (s.apply files) := by
  cases s with
  | create n => exact h.insert _
  | append n data =>
    rw [Step.apply]
    split
    · exact h.insert _
    · exact h
  | rename old new =>
    rw [Step.apply]
    split
    · exact (h.erase old).insert _
    · exact h
  | unlink n => exact h.erase n

/-- A name stands once in a directory. -/
theorem unique_perform {files : Files} (h : Keyed.Unique Prod.fst files) (steps : List Step) :
    Keyed.Unique Prod.fst (perform files steps) := by
  induction steps generalizing files with
  | nil => exact h
  | cons s steps ih => exact ih (s.unique_apply h)

/-! ## Writing a file -/

/-- The pieces single writes take of a text. -/
def pieces : List ℕ → Bytes → List Bytes
  | [], data => [data]
  | n :: cuts, data => data.take n :: pieces cuts (data.drop n)

theorem flatten_pieces (cuts : List ℕ) (data : Bytes) : (pieces cuts data).flatten = data := by
  induction cuts generalizing data with
  | nil => exact List.append_nil _
  | cons n cuts ih => rw [pieces, List.flatten_cons, ih, List.take_append_drop]

/-- How writing a file goes: it is done, or where it fails. -/
inductive Fate where
  | done
  | uncreated
  | unwritten (pieces : ℕ)
  | unsynced
  deriving DecidableEq

/-- The steps of writing `data` to `path` by way of `tmp`, which is removed on failure. -/
def writeAtomic (tmp path data : Bytes) (cuts : List ℕ) : Fate → List Step
  | .done => .create tmp :: ((pieces cuts data).map (.append tmp) ++ [.rename tmp path])
  | .uncreated => []
  | .unwritten k => .create tmp :: (((pieces cuts data).take k).map (.append tmp) ++ [.unlink tmp])
  | .unsynced =>
    .create tmp :: ((pieces cuts data).map (.append tmp) ++ [.rename tmp path, .unlink tmp])

variable {tmp path data : Bytes} {files : Files}

theorem erase_fresh (h : Keyed.lookup Prod.fst tmp files = none) :
    Keyed.erase Prod.fst tmp files = files := Keyed.erase_of_lookup_eq_none h

/-- The temporary file while it is written. -/
theorem perform_pieces (h : Keyed.lookup Prod.fst tmp files = none) (ps : List Bytes)
    (written : Bytes) :
    perform ((tmp, written) :: files) (ps.map (.append tmp)) =
      (tmp, written ++ ps.flatten) :: files := by
  induction ps generalizing written with
  | nil =>
    rw [List.flatten_nil, List.append_nil]
    rfl
  | cons p ps ih =>
    have hfind : Keyed.lookup Prod.fst tmp ((tmp, written) :: files) = some (tmp, written) :=
      Keyed.lookup_cons.trans (if_pos rfl)
    have herase : Keyed.erase Prod.fst tmp ((tmp, written) :: files) = files := by
      have := erase_fresh h
      simpa [Keyed.erase] using this
    have hstep : Step.apply ((tmp, written) :: files) (.append tmp p) =
        (tmp, written ++ p) :: files := by
      simp only [Step.apply, hfind, Keyed.insert, herase]
    have hrest := ih (written ++ p)
    rw [List.append_assoc, ← List.flatten_cons] at hrest
    rw [← hrest, List.map_cons]
    exact congrArg (fun fs => perform fs (ps.map (.append tmp))) hstep

theorem perform_create (h : Keyed.lookup Prod.fst tmp files = none) (ps : List Bytes) :
    perform files (.create tmp :: ps.map (.append tmp)) = (tmp, ps.flatten) :: files := by
  have hstep : Step.apply files (.create tmp) = (tmp, []) :: files := by
    rw [Step.apply, Keyed.insert, erase_fresh h]
  have hrest := perform_pieces h ps []
  rw [List.nil_append, ← hstep] at hrest
  exact hrest

/-- **Writing is all or nothing**: the file is there in full, or the directory is as it was. -/
theorem perform_writeAtomic (h : Keyed.lookup Prod.fst tmp files = none) (hne : tmp ≠ path)
    (cuts : List ℕ) (fate : Fate) :
    perform files (writeAtomic tmp path data cuts fate) =
      match fate with
      | .done | .unsynced => Keyed.insert Prod.fst (path, data) files
      | .uncreated | .unwritten _ => files := by
  have herase : ∀ written, Keyed.erase Prod.fst tmp ((tmp, written) :: files) = files := by
    intro written
    have := erase_fresh h
    simpa [Keyed.erase] using this
  have hrename : Step.apply ((tmp, data) :: files) (.rename tmp path) =
      Keyed.insert Prod.fst (path, data) files := by
    rw [Step.apply, Keyed.lookup_cons, if_pos rfl, herase]
  have hcreate := perform_create h (pieces cuts data)
  rw [flatten_pieces] at hcreate
  cases fate with
  | done =>
    rw [writeAtomic, ← List.cons_append, perform_append, hcreate]
    exact hrename
  | uncreated => rfl
  | unwritten k =>
    rw [writeAtomic, ← List.cons_append, perform_append, perform_create h]
    exact herase _
  | unsynced =>
    have hgone : Keyed.lookup Prod.fst tmp (Keyed.insert Prod.fst (path, data) files) = none :=
      (Keyed.lookup_insert.trans (if_neg fun he => hne he.symm)).trans h
    rw [writeAtomic, ← List.cons_append, perform_append, hcreate]
    exact (congrArg (Keyed.erase Prod.fst tmp) hrename).trans (erase_fresh hgone)

/-- The only names it touches are those two. -/
theorem touches_writeAtomic {cuts : List ℕ} {fate : Fate} {s : Step}
    (hs : s ∈ writeAtomic tmp path data cuts fate) {name : Bytes} (h : s.touches name) :
    name = tmp ∨ name = path := by
  have piece : ∀ ps : List Bytes, s ∈ ps.map (.append tmp) → name = tmp := fun ps hm => by
    obtain ⟨p, -, rfl⟩ := List.mem_map.mp hm
    exact h
  cases fate with
  | uncreated => cases hs
  | done =>
    simp only [writeAtomic, List.mem_cons, List.mem_append, List.not_mem_nil, or_false] at hs
    rcases hs with rfl | hs | rfl
    · exact .inl h
    · exact .inl (piece _ hs)
    · exact h
  | unwritten k =>
    simp only [writeAtomic, List.mem_cons, List.mem_append, List.not_mem_nil, or_false] at hs
    rcases hs with rfl | hs | rfl
    · exact .inl h
    · exact .inl (piece _ hs)
    · exact .inl h
  | unsynced =>
    simp only [writeAtomic, List.mem_cons, List.mem_append, List.not_mem_nil, or_false] at hs
    rcases hs with rfl | hs | rfl | rfl
    · exact .inl h
    · exact .inl (piece _ hs)
    · exact h
    · exact .inl h

theorem adds_writeAtomic {cuts : List ℕ} {fate : Fate} {s : Step}
    (hs : s ∈ writeAtomic tmp path data cuts fate) {name : Bytes} (h : s.adds = some name) :
    name = tmp ∨ name = path := by
  refine touches_writeAtomic hs ?_
  cases s with
  | create | append => exact (Option.some.inj h).symm
  | rename => exact .inr (Option.some.inj h).symm
  | unlink => cases h

end FlowAlarm.Directory
