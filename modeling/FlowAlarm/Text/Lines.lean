import FlowAlarm.Text.Bytes

/-!
# Lines of a file

A file is its complete lines (ended by a newline, which is not part of the
line) and an unterminated rest. `joinLines` writes lines; `splitLines` reads
them back and leaves a torn tail as the rest.
-/

namespace FlowAlarm.Text

def newline : UInt8 := 0x0A

/-- The complete lines and the unterminated rest. -/
def splitLines : Bytes → List Bytes × Bytes
  | [] => ([], [])
  | b :: s =>
    match splitLines s with
    | (ls, r) =>
      if b = newline then ([] :: ls, r)
      else match ls with
        | [] => ([], b :: r)
        | l :: ls => ((b :: l) :: ls, r)

def joinLines (ls : List Bytes) : Bytes := ls.flatMap fun l => l ++ [newline]

theorem joinLines_append (ls ms : List Bytes) : joinLines (ls ++ ms) = joinLines ls ++ joinLines ms := by
  simp [joinLines]

theorem splitLines_line {l : Bytes} (h : newline ∉ l) (s : Bytes) :
    splitLines (l ++ newline :: s) = (l :: (splitLines s).1, (splitLines s).2) := by
  induction l with
  | nil => simp [splitLines]
  | cons b l ih =>
    rw [List.mem_cons, not_or] at h
    rw [List.cons_append, splitLines, ih h.2]
    simp [Ne.symm h.1]

theorem splitLines_rest {r : Bytes} (h : newline ∉ r) : splitLines r = ([], r) := by
  induction r with
  | nil => rfl
  | cons b r ih =>
    rw [List.mem_cons, not_or] at h
    rw [splitLines, ih h.2]
    simp [Ne.symm h.1]

/-- **Written lines and a torn tail split back.** -/
theorem splitLines_joinLines {ls : List Bytes} {r : Bytes} (h : ∀ l ∈ ls, newline ∉ l)
    (hr : newline ∉ r) : splitLines (joinLines ls ++ r) = (ls, r) := by
  induction ls with
  | nil => exact splitLines_rest hr
  | cons l ls ih =>
    have htext : joinLines (l :: ls) ++ r = l ++ newline :: (joinLines ls ++ r) := by
      simp [joinLines]
    rw [htext, splitLines_line (h l List.mem_cons_self),
      ih fun m hm => h m (List.mem_cons_of_mem _ hm)]

/-- The lines as a reader gets them: each with its newline, then an unterminated rest. -/
def rawLines (s : Bytes) : List Bytes :=
  (splitLines s).1.map (· ++ [newline]) ++ if (splitLines s).2 = [] then [] else [(splitLines s).2]

theorem rawLines_joinLines {ls : List Bytes} {r : Bytes} (h : ∀ l ∈ ls, newline ∉ l)
    (hr : newline ∉ r) :
    rawLines (joinLines ls ++ r) = ls.map (· ++ [newline]) ++ if r = [] then [] else [r] := by
  rw [rawLines, splitLines_joinLines h hr]

theorem splitLines_eq (s : Bytes) : joinLines (splitLines s).1 ++ (splitLines s).2 = s := by
  induction s with
  | nil => rfl
  | cons b s ih =>
    rw [splitLines]
    cases h : splitLines s with
    | mk ls r =>
      rw [h] at ih
      dsimp only at ih ⊢
      split
      next hb => rw [← ih, hb]; rfl
      · cases ls with
        | nil => rw [← ih]; rfl
        | cons l ls => rw [← ih]; rfl

/-- No line is longer than the text. -/
theorem length_of_mem_rawLines {s line : Bytes} (h : line ∈ rawLines s) :
    line.length ≤ s.length := by
  have hs := congrArg List.length (splitLines_eq s)
  rw [List.length_append] at hs
  rw [rawLines, List.mem_append] at h
  rcases h with h | h
  · have hsub : line.Sublist (joinLines (splitLines s).1) := by
      rw [joinLines, List.flatMap_def]
      exact List.sublist_flatten_of_mem h
    have := hsub.length_le
    omega
  · split at h
    · cases h
    · rw [List.mem_singleton.mp h]
      omega

end FlowAlarm.Text
