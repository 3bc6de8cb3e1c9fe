import FlowAlarm.Rockiva.RockivaRunner
import Mathlib.Data.List.Range
import Mathlib.Data.List.Perm.Subperm

/-!
# Buffers of frames in the table

`new_sample_callback` takes a reference to the buffer of every frame it enters
in the table; it is given back by whoever takes the frame out again, the release
callback or the push that failed. `Owner` adds `frame->buffer` to the runner and
counts the references: the `n`-th reference taken is the number `n`.
`ownership` says that the references not given back are those of the frames in
the table.
-/

namespace FlowAlarm.Rockiva

open FlowAlarm.Text FlowAlarm.Engine

/-! ## The runner with its buffers -/

structure Owner where
  runner : MeRockivaRunner
  /-- `frame->buffer` of the frames in the table. -/
  buffers : List (ℕ × ℕ)
  /-- The references taken by `gst_buffer_ref`. -/
  taken : ℕ
  /-- The references given back by `gst_buffer_unref`. -/
  released : List ℕ
  deriving DecidableEq

def Owner.fresh (config : MeAnalyticsConfig) (version : CStr) : Owner :=
  ⟨meRockivaRunnerNew config version, [], 0, []⟩

/-- The frame is stolen from the table, and its buffer given back unless it is `NULL`. -/
def Owner.drop (o : Owner) (frameId : ℕ) : Owner where
  runner := o.runner.steal frameId
  buffers := Keyed.erase Prod.fst frameId o.buffers
  taken := o.taken
  released := match Keyed.lookup Prod.fst frameId o.buffers with
    | none => o.released
    | some (_, buffer) => o.released ++ [buffer]

/-- `new_sample_callback` up to `ROCKIVA_PushFrame`. -/
def Owner.newSample (o : Owner) (layout : Option MeRockivaLayout) (pts : ℕ) : Owner :=
  match Rockiva.newSample o.runner layout pts with
  | (r, none) => { o with runner := r }
  | (r, some frameId) =>
    { o with
      runner := r
      buffers := Keyed.insert Prod.fst (frameId, o.taken) o.buffers
      taken := o.taken + 1 }

/-- The rest of `new_sample_callback`. -/
def Owner.pushReturned (o : Owner) (frameId : ℕ) (success : Bool) : Owner :=
  match o.runner.lookup frameId with
  | none => o
  | some frame => if success ∨ frame.detectionSeen ∨ frame.releaseSeen then o else o.drop frameId

/-- One image of `release_callback`. -/
def Owner.releaseImage (o : Owner) (released : RockIvaImage) : Owner :=
  match o.runner.lookup released.frameId with
  | none => o
  | some frame =>
    if frame.fd ≠ released.dataFd ∨ released.channelId ≠ meRockivaChannelId ∨
        released.dataAddr ≠ 0 ∨ released.dataPhyAddr ≠ 0 then o
    else o.drop released.frameId

variable (maxObjNum : ℕ)

/-- One callback under the lock. -/
def Owner.step (o : Owner) : Input → Owner
  | .sample layout pts => o.newSample layout pts
  | .pushed frameId success => o.pushReturned frameId success
  | .setStream channelId epoch =>
    { o with runner := meRockivaRunnerSetStream o.runner channelId epoch }
  | .release released => o.releaseImage released
  | .detect success result =>
    { o with runner := (detectCallback maxObjNum o.runner success result).1 }
  | .stop => { o with runner := { o.runner with stopping := true } }

/-- The runner behind any interleaving of callbacks. -/
def Owner.run (o : Owner) (inputs : List Input) : Owner := inputs.foldl (Owner.step maxObjNum) o

/-! ## The invariant -/

/-- Every frame in the table has one buffer, and the references are those given back and those in
the table. -/
structure Owned (o : Owner) : Prop where
  unique : Keyed.Unique Prod.fst o.runner.frames
  ids : ∀ x ∈ o.runner.frames, x.1 ≠ 0 ∧ x.1 < 2 ^ 32
  pending : o.runner.pendingFrames = o.runner.frames.length
  keys : (o.buffers.map Prod.fst).Perm (o.runner.frames.map Prod.fst)
  ledger : (o.released ++ o.buffers.map Prod.snd).Perm (List.range o.taken)

theorem owned_fresh (config : MeAnalyticsConfig) (version : CStr) :
    Owned (.fresh config version) where
  unique := Keyed.unique_nil
  ids := by simp [Owner.fresh, meRockivaRunnerNew]
  pending := rfl
  keys := .refl _
  ledger := .refl _

theorem Owned.buffers_unique {o : Owner} (h : Owned o) : Keyed.Unique Prod.fst o.buffers :=
  h.keys.symm.nodup h.unique

/-- A callback that leaves the table as it is. -/
theorem Owned.of_frames {o : Owner} (h : Owned o) {r : MeRockivaRunner}
    (hf : r.frames = o.runner.frames) (hp : r.pendingFrames = o.runner.pendingFrames) :
    Owned { o with runner := r } where
  unique := hf ▸ h.unique
  ids := hf ▸ h.ids
  pending := hp.trans (hf ▸ h.pending)
  keys := hf ▸ h.keys
  ledger := h.ledger

theorem lookup_frames {r : MeRockivaRunner} {id : ℕ} {frame : MeRockivaFrame}
    (h : r.lookup id = some frame) : Keyed.lookup Prod.fst id r.frames = some (id, frame) := by
  obtain ⟨⟨k, f⟩, hx, hf⟩ := Option.map_eq_some_iff.mp h
  obtain rfl : k = id := Keyed.lookup_key hx
  exact hx.trans (congrArg (fun f => some (k, f)) hf)

/-- A frame in the table has its buffer. -/
theorem Owned.lookup_buffer {o : Owner} (h : Owned o) {id : ℕ} {frame : MeRockivaFrame}
    (hl : o.runner.lookup id = some frame) :
    ∃ buffer, Keyed.lookup Prod.fst id o.buffers = some (id, buffer) := by
  have hmem := h.keys.symm.subset (List.mem_map_of_mem (Keyed.lookup_mem (lookup_frames hl)))
  obtain ⟨⟨k, buffer⟩, hx, rfl⟩ := List.mem_map.mp hmem
  exact ⟨buffer, Keyed.lookup_of_mem h.buffers_unique hx⟩

theorem perm_erase_map {α : Type} {xs : List (ℕ × α)} (hu : Keyed.Unique Prod.fst xs) {id : ℕ}
    {x : α} (h : Keyed.lookup Prod.fst id xs = some (id, x)) :
    (xs.map Prod.fst).Perm (id :: (Keyed.erase Prod.fst id xs).map Prod.fst) :=
  (Keyed.perm_cons_erase hu h).map Prod.fst

/-- **A frame that leaves the table gives its buffer back.** -/
theorem Owned.drop {o : Owner} (h : Owned o) {id : ℕ} {frame : MeRockivaFrame}
    (hl : o.runner.lookup id = some frame) : Owned (o.drop id) := by
  obtain ⟨buffer, hb⟩ := h.lookup_buffer hl
  have hframes := Keyed.perm_cons_erase h.unique (lookup_frames hl)
  have hlen := hframes.length_eq
  refine ⟨h.unique.erase id, fun x hx => h.ids x (Keyed.mem_erase.mp hx).1, ?_, ?_, ?_⟩
  · show o.runner.pendingFrames - 1 = (Keyed.erase Prod.fst id o.runner.frames).length
    rw [h.pending, hlen, List.length_cons, Nat.add_sub_cancel]
  · exact List.perm_cons id |>.mp <| (perm_erase_map h.buffers_unique hb).symm.trans <|
      h.keys.trans (perm_erase_map h.unique (lookup_frames hl))
  · have hbuffers := (Keyed.perm_cons_erase h.buffers_unique hb).map Prod.snd
    simp only [Owner.drop, hb, List.append_assoc, List.singleton_append]
    exact (hbuffers.symm.append_left o.released).trans h.ledger

theorem Owned.pushReturned {o : Owner} (h : Owned o) (id : ℕ) (success : Bool) :
    Owned (o.pushReturned id success) := by
  unfold Owner.pushReturned
  split
  · exact h
  next frame hl =>
  split
  · exact h
  · exact h.drop hl

theorem Owned.releaseImage {o : Owner} (h : Owned o) (released : RockIvaImage) :
    Owned (o.releaseImage released) := by
  unfold Owner.releaseImage
  split
  · exact h
  next frame hl =>
  split
  · exact h
  · exact h.drop hl

/-- The id found is free and a `uint32_t`. -/
theorem nextFrameId_free {r : MeRockivaRunner} {attempts last id last' : ℕ}
    (h : nextFrameId r attempts last = (some id, last')) :
    r.lookup id = none ∧ id < 2 ^ 32 := by
  induction attempts generalizing last with
  | zero => cases h
  | succ attempts ih =>
    rw [nextFrameId] at h
    split at h
    · next hc =>
      cases h
      exact ⟨hc.2, Nat.mod_lt _ (by norm_num)⟩
    · exact ih h

theorem lookup_frames_none {r : MeRockivaRunner} {id : ℕ} (h : r.lookup id = none) :
    Keyed.lookup Prod.fst id r.frames = none := Option.map_eq_none_iff.mp h

theorem Owned.lookup_buffer_none {o : Owner} (h : Owned o) {id : ℕ}
    (hl : Keyed.lookup Prod.fst id o.runner.frames = none) :
    Keyed.lookup Prod.fst id o.buffers = none := by
  refine Keyed.lookup_eq_none.mpr fun x hx hk => ?_
  obtain ⟨y, hy, hyk⟩ := List.mem_map.mp (h.keys.subset (List.mem_map_of_mem hx))
  exact Keyed.lookup_eq_none.mp hl y hy (hyk.trans hk)

/-- A new frame enters the table with the reference just taken. -/
theorem Owned.newSample {o : Owner} (h : Owned o) (layout : Option MeRockivaLayout) (pts : ℕ) :
    Owned (o.newSample layout pts) := by
  unfold Owner.newSample Rockiva.newSample
  split
  · next heq =>
    split at heq
    · cases heq
      exact h
    split at heq
    · cases heq
      exact h.of_frames rfl rfl
    split at heq
    · cases heq
      exact h.of_frames rfl rfl
    · cases heq
  · next heq =>
    split at heq
    · cases heq
    split at heq
    · cases heq
    split at heq
    · cases heq
    next hnext =>
    cases heq
    obtain ⟨hfree, hlt⟩ := nextFrameId_free hnext
    have hnone := lookup_frames_none hfree
    have hbnone := h.lookup_buffer_none hnone
    refine ⟨h.unique.insert _, fun x hx => ?_, ?_, ?_, ?_⟩
    · rcases Keyed.mem_insert hx with rfl | hx
      · exact ⟨nextFrameId_ne_zero hnext, hlt⟩
      · exact h.ids x hx
    · show o.runner.pendingFrames + 1 = (Keyed.insert _ _ o.runner.frames).length
      rw [Keyed.insert, Keyed.erase_of_lookup_eq_none hnone, List.length_cons, h.pending]
    · simp only [Keyed.insert, Keyed.erase_of_lookup_eq_none hnone,
        Keyed.erase_of_lookup_eq_none hbnone, List.map_cons]
      exact h.keys.cons _
    · simp only [Keyed.insert, Keyed.erase_of_lookup_eq_none hbnone, List.map_cons]
      rw [List.range_succ]
      exact List.perm_middle.trans ((h.ledger.cons _).trans (List.perm_append_singleton _ _).symm)

theorem Owned.seeDetection {o : Owner} (h : Owned o) (id : ℕ) :
    Owned { o with runner := o.runner.seeDetection id } := by
  unfold MeRockivaRunner.seeDetection
  split
  · exact h
  next frame hl =>
  have hperm := Keyed.perm_cons_erase h.unique (lookup_frames hl)
  refine ⟨h.unique.insert _, fun x hx => ?_, ?_, ?_, h.ledger⟩
  · rcases Keyed.mem_insert hx with rfl | hx
    · exact h.ids (id, frame) (Keyed.lookup_mem (lookup_frames hl))
    · exact h.ids x hx
  · show o.runner.pendingFrames = (Keyed.insert _ _ o.runner.frames).length
    rw [h.pending, hperm.length_eq, Keyed.insert, List.length_cons, List.length_cons]
  · exact h.keys.trans (hperm.map Prod.fst)

/-- What one callback preserves. -/
theorem Owned.step {o : Owner} (h : Owned o) (i : Input) : Owned (o.step maxObjNum i) := by
  cases i with
  | sample layout pts => exact h.newSample layout pts
  | pushed id success => exact h.pushReturned id success
  | setStream channelId epoch => exact h.of_frames rfl rfl
  | release released => exact h.releaseImage released
  | detect success result =>
    cases success <;> cases result
    case true.some => exact h.seeDetection _
    all_goals exact h
  | stop => exact h.of_frames rfl rfl

theorem Owned.run {o : Owner} (h : Owned o) (inputs : List Input) :
    Owned (o.run maxObjNum inputs) := by
  induction inputs generalizing o with
  | nil => exact h
  | cons i inputs ih => exact ih (h.step maxObjNum i)

/-! ## Ownership -/

/-- There are fewer than 2^32 ids, so `pending_frames` does not wrap. -/
theorem Owned.pending_lt {o : Owner} (h : Owned o) : o.runner.pendingFrames < 2 ^ 32 := by
  have hsub : 0 :: o.runner.frames.map Prod.fst ⊆ List.range (2 ^ 32) := by
    refine List.cons_subset.mpr ⟨List.mem_range.mpr (by norm_num), fun id hid => ?_⟩
    obtain ⟨x, hx, rfl⟩ := List.mem_map.mp hid
    exact List.mem_range.mpr (h.ids x hx).2
  have hnodup : (0 :: o.runner.frames.map Prod.fst).Nodup := by
    refine List.nodup_cons.mpr ⟨fun hid => ?_, h.unique⟩
    obtain ⟨x, hx, h0⟩ := List.mem_map.mp hid
    exact (h.ids x hx).1 h0
  have hle := (List.subperm_of_subset hnodup hsub).length_le
  rw [List.length_cons, List.length_map, List.length_range] at hle
  rw [h.pending]
  omega

/-- A reference taken is in the table, or it has been given back once. -/
theorem Owned.count_released {o : Owner} (h : Owned o) {buffer : ℕ} (hb : buffer < o.taken) :
    o.released.count buffer = if buffer ∈ o.buffers.map Prod.snd then 0 else 1 := by
  have hcount := h.ledger.count_eq buffer
  have hnodup := h.ledger.symm.nodup List.nodup_range
  rw [List.count_append, List.count_eq_one_of_mem List.nodup_range (List.mem_range.mpr hb)] at hcount
  split
  · next hm =>
    rw [List.count_eq_one_of_mem (List.nodup_append.mp hnodup).2.1 hm] at hcount
    omega
  · next hm =>
    rw [List.count_eq_zero_of_not_mem hm] at hcount
    omega

/-- **Frames are counted, and their buffers given back exactly once.** In every state of every
interleaving, `pending_frames` (which does not wrap) is the number of frames in the table, their
ids differ, each has a buffer of its own, and a reference that was taken is given back exactly once
if its frame has left the table and not at all before. -/
theorem ownership (config : MeAnalyticsConfig) (version : CStr) (inputs : List Input) :
    let o := (Owner.fresh config version).run maxObjNum inputs
    o.runner.pendingFrames = o.runner.frames.length ∧ o.runner.pendingFrames < 2 ^ 32 ∧
      (o.runner.frames.map Prod.fst).Nodup ∧
      (o.buffers.map Prod.fst).Perm (o.runner.frames.map Prod.fst) ∧
      (o.buffers.map Prod.snd).Nodup ∧ (∀ buffer ∈ o.buffers.map Prod.snd, buffer < o.taken) ∧
      ∀ buffer < o.taken,
        o.released.count buffer = if buffer ∈ o.buffers.map Prod.snd then 0 else 1 := by
  have h := (owned_fresh config version).run maxObjNum inputs
  refine ⟨h.pending, h.pending_lt, h.unique, h.keys, ?_, fun b hb => ?_, fun _ hb =>
    h.count_released hb⟩
  · exact (List.nodup_append.mp (h.ledger.symm.nodup List.nodup_range)).2.1
  · exact List.mem_range.mp (h.ledger.subset (List.mem_append_right _ hb))

end FlowAlarm.Rockiva
