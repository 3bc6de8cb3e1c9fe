import FlowAlarm.Text.Lines

/-!
# Framing of requests

`ipc_client_io` reads what the kernel gives it and lets
`ipc_client_process_input` take the lines out of the buffer. The length of a
line is checked only when a read leaves no newline behind, and what is then
discarded is forgotten: the rest of the line is taken for a line of its own.
`framing_iff` says for which streams the lines do not depend on the reads.
-/

namespace FlowAlarm.Ipc

open FlowAlarm.Text

def meIpcMaxLine : ℕ := 64 * 1024

def meIpcReadChunk : ℕ := 8192

/-! ## Reading -/

/-- What the client's input leads to. -/
inductive Taken where
  /-- A line handed to `ipc_handle_line`. -/
  | line (text : Bytes)
  /-- The parse error `message too long`. -/
  | tooLong
  deriving DecidableEq

/-- `ipc_client_process_input` on a connection that stays open; the first argument bounds the
iterations. -/
def processLoop : ℕ → Bytes → List Taken × Bytes
  | fuel, input =>
    if newline ∉ input then
      if meIpcMaxLine < input.length then ([.tooLong], []) else ([], input)
    else
      match fuel with
      | 0 => ([], input)
      | fuel + 1 =>
        let pos := input.idxOf newline
        let (taken, rest) := processLoop fuel (input.drop (pos + 1))
        (.line (input.take pos) :: taken, rest)

def ipcClientProcessInput (input : Bytes) : List Taken × Bytes := processLoop input.length input

/-- `ipc_client_io`: every read is appended and processed. -/
def ipcClientReads : Bytes → List Bytes → List Taken × Bytes
  | input, [] => ([], input)
  | input, chunk :: chunks =>
    let (taken, input) := ipcClientProcessInput (input ++ chunk)
    let (later, input) := ipcClientReads input chunks
    (taken ++ later, input)

/-- What `read` gives: something, and at most the buffer. -/
def Chunk (chunk : Bytes) : Prop := chunk ≠ [] ∧ chunk.length ≤ meIpcReadChunk

instance (chunk : Bytes) : Decidable (Chunk chunk) := inferInstanceAs (Decidable (_ ∧ _))

/-- The lines handed over. -/
def handed (taken : List Taken) : List Bytes :=
  taken.filterMap fun
    | .line text => some text
    | .tooLong => none

/-- The newline-terminated segments of a stream. -/
def segments (stream : Bytes) : List Bytes := (splitLines stream).1

/-- The lines handed over are the segments that are not too long, and each longer one is answered
by a parse error. -/
def Framed (chunks : List Bytes) : Prop :=
  handed (ipcClientReads [] chunks).1 =
      (segments chunks.flatten).filter (·.length ≤ meIpcMaxLine) ∧
    ((segments chunks.flatten).filter (meIpcMaxLine < ·.length)).length ≤
      (ipcClientReads [] chunks).1.count .tooLong

/-! ## What one read takes out of the buffer -/

theorem splitLines_clean (s : Bytes) :
    (∀ l ∈ (splitLines s).1, newline ∉ l) ∧ newline ∉ (splitLines s).2 := by
  induction s with
  | nil => simp [splitLines]
  | cons b s ih =>
    rw [splitLines]
    obtain ⟨hls, hr⟩ := ih
    generalize splitLines s = out at hls hr
    obtain ⟨ls, r⟩ := out
    dsimp only at hls hr ⊢
    split
    · exact ⟨List.forall_mem_cons.mpr ⟨by simp, hls⟩, hr⟩
    · next hb =>
      cases ls with
      | nil =>
        refine ⟨by simp, ?_⟩
        rw [List.mem_cons, not_or]
        exact ⟨Ne.symm hb, hr⟩
      | cons l ls =>
        obtain ⟨hl, hls⟩ := List.forall_mem_cons.mp hls
        refine ⟨List.forall_mem_cons.mpr ⟨?_, hls⟩, hr⟩
        rw [List.mem_cons, not_or]
        exact ⟨Ne.symm hb, hl⟩

/-- A stream is split where its first part left off. -/
theorem splitLines_append (a b : Bytes) :
    splitLines (a ++ b) = ((splitLines a).1 ++ (splitLines ((splitLines a).2 ++ b)).1,
      (splitLines ((splitLines a).2 ++ b)).2) := by
  obtain ⟨hls, -⟩ := splitLines_clean a
  obtain ⟨hms, hr⟩ := splitLines_clean ((splitLines a).2 ++ b)
  have htext : a ++ b = joinLines ((splitLines a).1 ++ (splitLines ((splitLines a).2 ++ b)).1) ++
      (splitLines ((splitLines a).2 ++ b)).2 := by
    rw [joinLines_append, List.append_assoc, splitLines_eq, ← List.append_assoc, splitLines_eq]
  rw [htext, splitLines_joinLines _ hr]
  intro l hl
  rcases List.mem_append.mp hl with hl | hl
  · exact hls l hl
  · exact hms l hl

/-- What `memchr` finds. -/
theorem idxOf_newline {input : Bytes} (h : newline ∈ input) :
    newline ∉ input.take (input.idxOf newline) ∧
      input = input.take (input.idxOf newline) ++
        newline :: input.drop (input.idxOf newline + 1) := by
  induction input with
  | nil => cases h
  | cons b input ih =>
    by_cases hb : b = newline
    · subst hb
      simp
    · have hmem : newline ∈ input := (List.mem_cons.mp h).resolve_left (Ne.symm hb)
      obtain ⟨hnot, heq⟩ := ih hmem
      rw [List.idxOf_cons_ne _ hb, List.take_succ_cons, List.drop_succ_cons, List.cons_append, ← heq]
      refine ⟨?_, rfl⟩
      rw [List.mem_cons, not_or]
      exact ⟨Ne.symm hb, hnot⟩

theorem processLoop_eq {fuel : ℕ} {input : Bytes} (h : input.length ≤ fuel) :
    processLoop fuel input = ((splitLines input).1.map .line ++
        (if meIpcMaxLine < (splitLines input).2.length then [.tooLong] else []),
      if meIpcMaxLine < (splitLines input).2.length then [] else (splitLines input).2) := by
  induction fuel generalizing input with
  | zero =>
    rw [List.length_eq_zero_iff.mp (Nat.le_zero.mp h)]
    rfl
  | succ fuel ih =>
    by_cases hmem : newline ∈ input
    · obtain ⟨hnot, heq⟩ := idxOf_newline hmem
      have hlen := congrArg List.length heq
      simp only [List.length_append, List.length_cons] at hlen
      have hsplit : splitLines input = (input.take (input.idxOf newline) ::
          (splitLines (input.drop (input.idxOf newline + 1))).1,
          (splitLines (input.drop (input.idxOf newline + 1))).2) := by
        conv_lhs => rw [heq]
        exact splitLines_line hnot _
      rw [processLoop, if_neg (not_not.mpr hmem), hsplit]
      simp only
      rw [ih (by omega)]
      simp
    · rw [processLoop, if_pos hmem, splitLines_rest hmem]
      split <;> simp [*]

/-- One read: the complete lines of buffer and chunk, and the rest if it is not too long. -/
theorem ipcClientProcessInput_eq (input : Bytes) :
    ipcClientProcessInput input = ((splitLines input).1.map .line ++
        (if meIpcMaxLine < (splitLines input).2.length then [.tooLong] else []),
      if meIpcMaxLine < (splitLines input).2.length then [] else (splitLines input).2) :=
  processLoop_eq le_rfl

theorem handed_append (xs ys : List Taken) : handed (xs ++ ys) = handed xs ++ handed ys :=
  List.filterMap_append

theorem handed_lines (ls : List Bytes) : handed (ls.map .line) = ls := by
  induction ls with
  | nil => rfl
  | cons l ls ih => exact congrArg (l :: ·) ih

theorem handed_processInput (input : Bytes) :
    handed (ipcClientProcessInput input).1 = (splitLines input).1 := by
  rw [ipcClientProcessInput_eq, handed_append, handed_lines]
  split <;> simp [handed]

/-! ## Runs of reads -/

theorem length_segments (s : Bytes) : (segments s).length = s.count newline := by
  induction s with
  | nil => rfl
  | cons b s ih =>
    rw [segments, splitLines]
    rw [segments] at ih
    generalize splitLines s = out at ih
    obtain ⟨ls, r⟩ := out
    dsimp only at ih ⊢
    by_cases hb : b = newline
    · rw [if_pos hb, hb, List.count_cons_self, List.length_cons, ih]
    · rw [if_neg hb, List.count_cons_of_ne hb, ← ih]
      cases ls <;> rfl

/-- Every newline of the stream ends one line that is handed over. -/
theorem length_handed (input : Bytes) (chunks : List Bytes) :
    (handed (ipcClientReads input chunks).1).length =
      if chunks = [] then 0 else (input ++ chunks.flatten).count newline := by
  induction chunks generalizing input with
  | nil => rfl
  | cons chunk chunks ih =>
    have hleft : (ipcClientProcessInput (input ++ chunk)).2.count newline = 0 := by
      rw [ipcClientProcessInput_eq, List.count_eq_zero]
      dsimp only
      split
      · simp
      · exact (splitLines_clean _).2
    rw [if_neg (by simp), ipcClientReads, handed_append, List.length_append,
      handed_processInput, ← segments, length_segments, ih]
    simp only [List.flatten_cons, List.count_append, hleft]
    cases chunks with
    | nil => simp
    | cons c cs =>
      rw [if_neg (by simp)]
      omega

/-- The run lemma: `p` is the segment the stream is in, of which the buffer holds everything or, once
it got too long, anything. -/
theorem reads_segments {input p : Bytes} {chunks : List Bytes} (hp : newline ∉ p)
    (hin : input = p ∨ (meIpcMaxLine < p.length ∧ newline ∉ input))
    (hshort : ∀ l ∈ segments (p ++ chunks.flatten), l.length ≤ meIpcMaxLine) :
    handed (ipcClientReads input chunks).1 = segments (p ++ chunks.flatten) := by
  induction chunks generalizing input p with
  | nil => simp [ipcClientReads, handed, segments, splitLines_rest hp]
  | cons chunk chunks ih =>
    have hsplit : segments (p ++ (chunk :: chunks).flatten) = segments (p ++ chunk) ++
        segments ((splitLines (p ++ chunk)).2 ++ chunks.flatten) := by
      rw [List.flatten_cons, ← List.append_assoc, segments, splitLines_append]
      rfl
    rw [hsplit] at hshort ⊢
    obtain ⟨-, hclean⟩ := splitLines_clean (p ++ chunk)
    rw [ipcClientReads, handed_append, handed_processInput]
    rcases hin with rfl | ⟨hlong, hin⟩
    · -- nothing was discarded: the lines are those of the stream
      refine congrArg (segments (input ++ chunk) ++ ·) (ih hclean ?_ fun l hl =>
        hshort l (List.mem_append_right _ hl))
      rw [ipcClientProcessInput_eq]
      dsimp only
      split
      · next hrest => exact .inr ⟨hrest, by simp⟩
      · exact .inl rfl
    · -- the segment is too long, so it cannot end in this read
      have hnone : newline ∉ chunk := by
        intro hmem
        obtain ⟨hnot, heq⟩ := idxOf_newline hmem
        refine absurd (hshort (p ++ chunk.take (chunk.idxOf newline)) ?_) ?_
        · refine List.mem_append_left _ ?_
          have htext : p ++ chunk = (p ++ chunk.take (chunk.idxOf newline)) ++
              newline :: chunk.drop (chunk.idxOf newline + 1) := by
            rw [List.append_assoc, ← heq]
          rw [segments, htext, splitLines_line]
          · exact List.mem_cons_self
          · rw [List.mem_append, not_or]
            exact ⟨hp, hnot⟩
        · rw [List.length_append]
          omega
      have hpc : newline ∉ p ++ chunk := by
        rw [List.mem_append, not_or]
        exact ⟨hp, hnone⟩
      have hic : newline ∉ input ++ chunk := by
        rw [List.mem_append, not_or]
        exact ⟨hin, hnone⟩
      have hrest : (splitLines (p ++ chunk)).2 = p ++ chunk := by rw [splitLines_rest hpc]
      have hsegs : segments (p ++ chunk) = [] := by rw [segments, splitLines_rest hpc]
      rw [splitLines_rest hic, hsegs]
      refine ih hclean (.inr ⟨?_, ?_⟩) fun l hl => hshort l (List.mem_append_right _ hl)
      · rw [hrest, List.length_append]
        omega
      · rw [ipcClientProcessInput_eq, splitLines_rest hic]
        dsimp only
        split
        · simp
        · exact hic

/-- **When the lines do not depend on the reads**: exactly when the stream holds no complete segment
over the limit, however it is split. -/
theorem framing_iff (chunks : List Bytes) :
    Framed chunks ↔ ∀ l ∈ segments chunks.flatten, l.length ≤ meIpcMaxLine := by
  constructor
  · rintro ⟨hlines, -⟩
    have hlen := congrArg List.length hlines
    rw [length_handed, List.nil_append, ← length_segments] at hlen
    have hall : ((segments chunks.flatten).filter (·.length ≤ meIpcMaxLine)).length =
        (segments chunks.flatten).length := by
      rw [← hlen]
      by_cases hc : chunks = []
      · simp [hc, segments, splitLines]
      · rw [if_neg hc]
    intro l hl
    simpa using List.length_filter_eq_length_iff.mp hall l hl
  · intro hshort
    have hrun := @reads_segments [] [] chunks (by simp) (.inl rfl) (by simpa using hshort)
    rw [List.nil_append] at hrun
    refine ⟨?_, ?_⟩
    · rw [hrun, List.filter_eq_self.mpr]
      simpa using hshort
    · rw [List.filter_eq_nil_iff.mpr]
      · simp
      · intro l hl
        simpa using hshort l hl

/-! ### The tail of a long line taken for a request -/

theorem reads_unfinished {input chunk : Bytes} (h : newline ∉ input ++ chunk)
    (chunks : List Bytes) :
    ipcClientReads input (chunk :: chunks) =
      if meIpcMaxLine < (input ++ chunk).length then
        (.tooLong :: (ipcClientReads [] chunks).1, (ipcClientReads [] chunks).2)
      else ipcClientReads (input ++ chunk) chunks := by
  rw [ipcClientReads, ipcClientProcessInput_eq, splitLines_rest h]
  dsimp only
  split <;> rfl

/-- `n` bytes of a line. -/
def filler (n : ℕ) : Bytes := List.replicate n 0x61

theorem newline_not_mem_filler (n : ℕ) : newline ∉ filler n := by
  intro h
  have := List.eq_of_mem_replicate h
  revert this
  decide

theorem filler_append (m n : ℕ) : filler m ++ filler n = filler (m + n) :=
  List.replicate_append_replicate

/-- Full reads of a line fill the buffer up to its limit. -/
theorem reads_filler (k m : ℕ) (h : m + k * meIpcReadChunk ≤ meIpcMaxLine) (chunks : List Bytes) :
    ipcClientReads (filler m) (List.replicate k (filler meIpcReadChunk) ++ chunks) =
      ipcClientReads (filler (m + k * meIpcReadChunk)) chunks := by
  induction k generalizing m with
  | zero => simp
  | succ k ih =>
    rw [Nat.succ_mul] at h
    rw [List.replicate_succ, List.cons_append, reads_unfinished, if_neg, filler_append, ih]
    · congr 2
      rw [Nat.succ_mul]
      omega
    · omega
    · rw [filler_append, filler, List.length_replicate]
      omega
    · rw [filler_append]
      exact newline_not_mem_filler _

theorem chunk_filler : Chunk (filler meIpcReadChunk) := by
  have hlen : (filler meIpcReadChunk).length = meIpcReadChunk := List.length_replicate
  exact ⟨List.ne_nil_of_length_pos (by rw [hlen]; decide), hlen.le⟩

def pingRequest : Bytes :=
  ascii "\x7b\"v\":1,\"id\":1,\"method\":\"media.ping\"\x7d"

/-- A line over the limit that ends in a request, as nine full reads and a last one. -/
def longLine : List Bytes :=
  List.replicate 8 (filler meIpcReadChunk) ++ [filler meIpcReadChunk, pingRequest ++ [newline]]

/-- The end of the long line is handed over as a request, though no segment of the stream is one. -/
theorem long_line_tail_handled :
    (∀ chunk ∈ longLine, Chunk chunk) ∧
    handed (ipcClientReads [] longLine).1 = [pingRequest] ∧
    segments longLine.flatten = [filler (9 * meIpcReadChunk) ++ pingRequest] ∧
    ¬ Framed longLine := by
  have hping : newline ∉ pingRequest := by decide +kernel
  have hreads : (ipcClientReads [] longLine).1 = [.tooLong, .line pingRequest] := by
    have hlast : (ipcClientReads [] [pingRequest ++ [newline]]).1 = [.line pingRequest] := by
      decide +kernel
    have hfull := reads_filler 8 0 (by decide)
      [filler meIpcReadChunk, pingRequest ++ [newline]]
    rw [show filler 0 = [] from rfl] at hfull
    rw [longLine, hfull, reads_unfinished, if_pos, hlast]
    · rw [filler_append, filler, List.length_replicate]
      decide
    · rw [filler_append]
      exact newline_not_mem_filler _
  have hflat : longLine.flatten = (filler (9 * meIpcReadChunk) ++ pingRequest) ++ [newline] := by
    have hrep : ∀ k, (List.replicate k (filler meIpcReadChunk)).flatten =
        filler (k * meIpcReadChunk) := by
      intro k
      rw [filler, filler, List.flatten_replicate_replicate]
    rw [longLine, List.flatten_append, hrep, List.flatten_cons, List.flatten_cons, List.flatten_nil,
      List.append_nil, ← List.append_assoc, filler_append, ← List.append_assoc]
    congr 2
  have hsegs : segments longLine.flatten = [filler (9 * meIpcReadChunk) ++ pingRequest] := by
    rw [hflat, segments, splitLines_line]
    · rfl
    · rw [List.mem_append, not_or]
      exact ⟨newline_not_mem_filler _, hping⟩
  have hlines : handed (ipcClientReads [] longLine).1 = [pingRequest] := by
    rw [hreads]
    rfl
  refine ⟨?_, hlines, hsegs, fun h => ?_⟩
  · intro chunk hc
    rcases List.mem_append.mp hc with hc | hc
    · rw [List.eq_of_mem_replicate hc]
      exact chunk_filler
    · rcases List.mem_cons.mp hc with rfl | hc
      · exact chunk_filler
      · rw [List.mem_singleton.mp hc]
        decide +kernel
  · have hnone := h.1
    rw [hlines, hsegs, List.filter_cons_of_neg] at hnone
    · cases hnone
    · simp only [filler, List.length_append, List.length_replicate, decide_eq_true_eq, not_le]
      exact Nat.lt_add_right _ (by decide)

end FlowAlarm.Ipc
