import FlowAlarm.Evidence.Durable
import FlowAlarm.Evidence.HandOver

/-!
# Calls on one evidence directory

A `World` is the directory, the open cache and the records that captures have
handed out; a `Turn` is a call to its end or a crash after some of its file
steps. `Live` is what holds of an open cache: its records are durable, counted
and those handed out among them. No call breaks it (`Live.cacheOn`), nor touches
a file of a record that is kept (`Live.spare`).
-/

namespace FlowAlarm.Evidence

open FlowAlarm.Text FlowAlarm.Engine FlowAlarm.CJson FlowAlarm.Directory

/-! ## Runs -/

/-- The directory, the open cache if there is one, and the records captures have returned that no
call has seen expired. -/
structure World where
  files : Files
  live : Option MeEvidenceCache
  kept : List MeEvidenceRecord

inductive Op where
  | start (maxBytes retentionS : ℕ) (now : ℤ)
  | note (note : FrameNote)
  | push (jpeg : Bytes) (sourcePtsValid : Bool) (sourcePts : ℤ)
  | capture (event : MeAnalyticsEvent) (now : ℤ) (wj wm : Writing)
  | prune (now : ℤ)

def Op.clock : Op → Option ℤ
  | .start _ _ now | .capture _ now _ _ | .prune now => some now
  | .note _ | .push _ _ _ => none

/-- The call does not see the record expired. -/
def Op.sees (op : Op) (k : MeEvidenceRecord) : Bool := op.clock.all fun now => !expired now k

section

variable (sha : Sha256)

/-- The file steps of a call on an open cache. -/
def Op.stepsOn (cache : MeEvidenceCache) : Op → List Step
  | .capture event now wj wm => (captureSteps sha cache event now wj wm).1
  | .prune now => pruneSteps cache now
  | .start _ _ _ | .note _ | .push _ _ _ => []

/-- What `me_evidence_cache_capture` returns, its writes being those of its steps. -/
def captured (cache : MeEvidenceCache) (event : MeAnalyticsEvent) (now : ℤ) (wj wm : Writing) :
    Capture :=
  meEvidenceCacheCapture sha cache event now (captureSteps sha cache event now wj wm).2

def Op.cacheOn (cache : MeEvidenceCache) : Op → MeEvidenceCache
  | .note n => (meEvidenceCacheNoteFrame cache n).2
  | .push jpeg valid pts => (meEvidenceCachePushJpeg cache jpeg valid pts).2
  | .capture event now wj wm => (captured sha cache event now wj wm).cache
  | .prune now => pruneExpiredLocked cache now
  | .start _ _ _ => cache

/-- The record a capture that returns 0 has handed out. -/
def Op.returnsOn (cache : MeEvidenceCache) : Op → List MeEvidenceRecord
  | .capture event now wj wm =>
    let c := captured sha cache event now wj wm
    if c.rc = 0 then (Keyed.lookup recordId c.event.evidenceId.bytes c.cache.records).toList else []
  | .start _ _ _ | .note _ | .push _ _ _ | .prune _ => []

variable (directory : Bytes)

def Op.steps (w : World) (op : Op) : List Step :=
  match op with
  | .start maxBytes retentionS now =>
    openSteps sha directory maxBytes retentionS w.files (fun _ => true) now
  | .note _ | .push _ _ _ | .capture _ _ _ _ | .prune _ =>
    (w.live.map fun cache => op.stepsOn sha cache).getD []

def Op.leaves (w : World) (op : Op) : Option MeEvidenceCache :=
  match op with
  | .start maxBytes retentionS now =>
    meEvidenceCacheOpen sha directory maxBytes retentionS w.files (fun _ => true) true now
  | .note _ | .push _ _ _ | .capture _ _ _ _ | .prune _ =>
    w.live.map fun cache => op.cacheOn sha cache

def Op.returns (w : World) (op : Op) : List MeEvidenceRecord :=
  (w.live.map fun cache => op.returnsOn sha cache).getD []

/-- A call to its end, or a crash after some of its steps. -/
inductive Turn where
  | done (op : Op)
  | crash (op : Op) (steps : ℕ)

def Turn.op : Turn → Op
  | .done op | .crash op _ => op

def World.turn (w : World) : Turn → World
  | .done op =>
    { files := perform w.files (op.steps sha directory w)
      live := op.leaves sha directory w
      kept := op.returns sha w ++ w.kept.filter op.sees }
  | .crash op n =>
    { files := perform w.files ((op.steps sha directory w).take n)
      live := none
      kept := w.kept.filter op.sees }

end

/-! ## Arguments -/

def Int64 (z : ℤ) : Prop := -2 ^ 63 ≤ z ∧ z < 2 ^ 63

instance (z : ℤ) : Decidable (Int64 z) := inferInstanceAs (Decidable (_ ∧ _))

/-- An event in its C types. -/
structure Sized (event : MeAnalyticsEvent) : Prop where
  eventId : event.eventId.bytes.length < meAnalyticsEventIdMax
  channelId : event.channelId.bytes.length < meAnalyticsChannelIdMax
  evidenceId : event.evidenceId.bytes.length < Codec.meAnalyticsEvidenceIdMax
  streamEpoch : event.streamEpoch < 2 ^ 64
  frameId : event.frameId < 2 ^ 64
  sourcePts : Int64 event.sourcePts
  eventTimeUs : Int64 event.eventTimeUs

/-- The numbers of a note in their C types. -/
def FrameNote.Sized (n : FrameNote) : Prop := n.frameId < 2 ^ 64 ∧ Int64 n.sourcePts

instance (n : FrameNote) : Decidable n.Sized := inferInstanceAs (Decidable (_ ∧ _))

def Op.Typed : Op → Prop
  | .note n => (Input.noteFrame n).Fits ∧ n.Sized
  | .push _ _ pts => Int64 pts
  | .capture event now _ _ => Evidence.Sized event ∧ Int64 now
  | .start _ _ _ | .prune _ => True

/-- **When a call keeps its promise.** The evidence id has no mark of a temporary file, the time
stamp of the frame has a time base if it is valid, and the expiry comes back unchanged from its
printed number, as it does below `2 ^ 52`. -/
def Op.Safe (sha : Sha256) (w : World) : Op → Prop
  | .capture event now _ _ => ∀ cache, w.live = some cache →
    Unmarked (evidenceIdOf sha event).bytes ∧
    (∀ sel, selectFrameLocked cache (referring sha event) = some sel →
      sel.frame.note.sourcePtsValid = true →
        sel.frame.note.sourceTimebase.num ≠ 0 ∧ sel.frame.note.sourceTimebase.den ≠ 0) ∧
    backI64 (expiresAt cache.retentionS now) = expiresAt cache.retentionS now
  | .start _ _ _ | .note _ | .push _ _ _ | .prune _ => True

/-- The worlds of a run. -/
inductive Reach (sha : Sha256) (directory : Bytes) (files : Files) : World → Prop where
  | start : Reach sha directory files ⟨files, none, []⟩
  | turn {w : World} (h : Reach sha directory files w) (t : Turn) (htyped : t.op.Typed)
      (hsafe : t.op.Safe sha w) : Reach sha directory files (w.turn sha directory t)

/-! ## The window of frames -/

/-- The frame window of a cache, within its C types. -/
structure Noted (cache : MeEvidenceCache) : Prop where
  window : cache.Fits
  notes : ∀ n ∈ cache.notes, n.Sized
  frames : ∀ f ∈ cache.frames, f.note.Sized

theorem SameWindow.noted {cache cache' : MeEvidenceCache} (h : SameWindow cache cache')
    (hn : Noted cache) : Noted cache' :=
  ⟨h.fits hn.window, h.notes ▸ hn.notes, h.frames ▸ hn.frames⟩

theorem noteFrame_noted {cache : MeEvidenceCache} (h : Noted cache) {n : FrameNote}
    (hfits : (Input.noteFrame n).Fits) (hn : n.Sized) :
    Noted (meEvidenceCacheNoteFrame cache n).2 := by
  refine ⟨noteFrame_fits h.window hfits, ?_, ?_⟩
  · unfold meEvidenceCacheNoteFrame
    split
    · exact h.notes
    · intro m hm
      dsimp only at hm
      rcases mem_drop_append hm with hm | rfl
      · exact h.notes m hm
      · exact hn
  · unfold meEvidenceCacheNoteFrame
    split
    · exact h.frames
    · intro f hf
      obtain ⟨f₀, hf₀, rfl⟩ := List.mem_map.mp hf
      split
      · exact hn
      · exact h.frames f₀ hf₀

theorem pushJpeg_noted {cache : MeEvidenceCache} (h : Noted cache) (jpeg : Bytes) (valid : Bool)
    {pts : ℤ} (hpts : Int64 pts) : Noted (meEvidenceCachePushJpeg cache jpeg valid pts).2 := by
  refine ⟨pushJpeg_fits h.window jpeg valid pts, ?_, ?_⟩
  · unfold meEvidenceCachePushJpeg
    split <;> exact h.notes
  · unfold meEvidenceCachePushJpeg
    split
    · exact h.frames
    · have hnote : ((latestNoteForPts cache valid pts).getD
          ⟨.empty, 0, 0, valid, pts, ⟨0, 0⟩, 0, 0⟩).Sized := by
        cases hn : latestNoteForPts cache valid pts with
        | none => exact ⟨Nat.two_pow_pos 64, hpts⟩
        | some n => exact h.notes n (List.mem_reverse.mp (List.mem_of_find?_eq_some hn))
      generalize (latestNoteForPts cache valid pts).getD
        ⟨.empty, 0, 0, valid, pts, ⟨0, 0⟩, 0, 0⟩ = note at hnote
      obtain ⟨-, -, hsub⟩ := evictFrames_spec cache.frameCacheMaxBytes
        (cache.frameCacheBytes + jpeg.length) (cache.frames ++ [⟨jpeg, note⟩])
        (by rw [List.map_append, List.sum_append, ← h.window.total]; simp)
      intro f hf
      rcases List.mem_append.mp (hsub f hf) with hf | hf
      · exact h.frames f hf
      · rw [List.mem_singleton.mp hf]
        exact hnote

/-! ## The record of a capture -/

theorem expiresAt_int64 {retentionS : ℕ} {now : ℤ} (h : Int64 now) :
    (expiresAt retentionS now).natAbs < 2 ^ 64 := by
  obtain ⟨hlo, hhi⟩ := h
  unfold expiresAt
  split <;> omega

theorem length_evidenceIdOf {sha : Sha256} {event : MeAnalyticsEvent}
    (h : event.evidenceId.bytes.length < Codec.meAnalyticsEvidenceIdMax) :
    (evidenceIdOf sha event).bytes.length < Codec.meAnalyticsEvidenceIdMax := by
  unfold evidenceIdOf
  split
  · exact h
  · have hpre : (ascii "ev-").length = 3 := by decide
    show (ascii "ev-" ++ sha.hex event.eventId.bytes).length < _
    rw [List.length_append, sha.length_hex, hpre]
    decide

variable {sha : Sha256} {cache : MeEvidenceCache}

theorem selected_deltas {event : MeAnalyticsEvent} {sel : Selected}
    (h : selectFrameLocked cache event = some sel) :
    (sel.frameDelta ≤ event.frameId ∨ sel.frameDelta ≤ sel.frame.note.frameId) ∧
      (sel.ptsDelta = 0 ∨ sel.ptsDelta = sel.frame.note.sourcePts - event.sourcePts) := by
  unfold selectFrameLocked at h
  split at h
  · cases h
  · cases h
    dsimp only
    constructor
    · split
      · split <;> omega
      · exact .inl (Nat.zero_le _)
    · split
      · exact .inr rfl
      · exact .inl rfl
  · cases h
    exact ⟨.inl (Nat.zero_le _), .inl rfl⟩

/-- The record of a selected frame is within its C types. -/
theorem candidate_fits (hn : Noted cache) {event : MeAnalyticsEvent} (he : Sized event)
    (hevent : event.eventId.bytes ≠ []) (hchannel : event.channelId.bytes ≠ [])
    (hid : validComponent (evidenceIdOf sha event).bytes = true) {now : ℤ} (hnow : Int64 now)
    {sel : Selected} (hsel : selectFrameLocked cache (referring sha event) = some sel) :
    (candidate sha cache (referring sha event) sel now).Fits := by
  obtain ⟨hacc, hmem, -⟩ := selectFrameLocked_spec hsel
  obtain ⟨hframe, hpts⟩ := hn.frames _ hmem
  have hfits := hn.window.frames _ hmem
  have hjpeg := hn.window.jpeg hmem
  obtain ⟨hfd, hpd⟩ := selected_deltas hsel
  have hint : ∀ {z : ℤ}, Int64 z → z.natAbs < 2 ^ 64 := fun h => by
    unfold Int64 at h
    omega
  have hevpts := he.sourcePts
  have hevframe := he.frameId
  unfold Int64 at hpts hevpts
  simp only [referring] at hfd hpd
  refine ⟨⟨hid, length_evidenceIdOf he.evidenceId⟩, ⟨hevent, he.eventId⟩,
    ⟨hchannel, he.channelId⟩, he.streamEpoch, ?_, hint (hn.frames _ hmem).2, hfits.timebase,
    hint he.eventTimeUs, hfits.width, hfits.height, lt_of_le_of_lt hjpeg (by decide),
    ⟨sha.length_hex _, sha.lowerHex_hex _⟩, hacc, ?_, ?_, hint hnow, expiresAt_int64 hnow, rfl, rfl⟩
  · show (if 0 < sel.frame.note.frameId then sel.frame.note.frameId
      else if sel.accuracy = .exact then event.frameId else 0) < 2 ^ 64
    split
    · exact hframe
    split
    · exact hevframe
    · exact Nat.two_pow_pos 64
  · show sel.frameDelta < 2 ^ 64
    omega
  · show sel.ptsDelta.natAbs < 2 ^ 64
    omega

/-- What a capture did: nothing, pruning, pruning and a failed publication, or its record is
published. -/
inductive CaptureCase (sha : Sha256) (cache : MeEvidenceCache) (event : MeAnalyticsEvent) (now : ℤ) :
    List Step → MeEvidenceCache → Prop where
  | same : CaptureCase sha cache event now [] cache
  | pruned (steps : List Step) (files : Files) :
      CaptureCase sha cache event now steps { pruneExpiredLocked cache now with files := files }
  | published (steps : List Step) (sel : Selected)
      (hevent : event.eventId.bytes ≠ []) (hchannel : event.channelId.bytes ≠ [])
      (hid : validComponent (evidenceIdOf sha event).bytes = true)
      (hnew : Keyed.lookup recordId (evidenceIdOf sha event).bytes cache.records = none)
      (hsel : selectFrameLocked cache (referring sha event) = some sel)
      (hroom : (pruneExpiredLocked cache now).storedBytes + sel.frame.jpeg.length ≤
        cache.maxBytes) :
      CaptureCase sha cache event now steps (published sha cache (referring sha event) sel now)

theorem selected_case (sha : Sha256) (cache : MeEvidenceCache) (event : MeAnalyticsEvent)
    (sel : Selected) (now : ℤ) (wj wm : Writing) :
    let made := selectedSteps sha cache event sel now wj wm
    let cache' := (captureSelected sha cache event sel now made.2).cache
    (made.1 = [] ∧ cache' = cache) ∨
    (∃ files, cache' = { pruneExpiredLocked cache now with files := files }) ∨
    ((pruneExpiredLocked cache now).storedBytes + sel.frame.jpeg.length ≤ cache.maxBytes ∧
      cache' = published sha cache event sel now) := by
  unfold selectedSteps captureSelected
  dsimp only
  by_cases hcap : cache.maxBytes < (candidate sha cache event sel now).bytes
  · rw [if_pos hcap, if_pos hcap]
    exact .inl ⟨rfl, rfl⟩
  rw [if_neg hcap, if_neg hcap]
  by_cases hfull : (pruneExpiredLocked cache now).maxBytes <
      (pruneExpiredLocked cache now).storedBytes + (candidate sha cache event sel now).bytes
  · rw [if_pos hfull, if_pos hfull]
    exact .inr (.inl ⟨(pruneExpiredLocked cache now).files, rfl⟩)
  rw [if_neg hfull, if_neg hfull]
  dsimp only
  generalize publishSteps (pruneExpiredLocked cache now).files _ sel.frame.jpeg _ wj wm = made
  obtain ⟨steps, ⟨jpeg, metadata⟩⟩ := made
  have hmax : (pruneExpiredLocked cache now).maxBytes = cache.maxBytes :=
    maxBytes_removeRecords _ cache
  cases jpeg with
  | some err => exact .inr (.inl ⟨_, rfl⟩)
  | none =>
    cases metadata with
    | some err => exact .inr (.inl ⟨_, rfl⟩)
    | none => exact .inr (.inr ⟨by rw [← hmax]; exact not_lt.mp hfull, rfl⟩)

theorem capture_case (sha : Sha256) (cache : MeEvidenceCache) (event : MeAnalyticsEvent) (now : ℤ)
    (wj wm : Writing) : CaptureCase sha cache event now (captureSteps sha cache event now wj wm).1
      (captured sha cache event now wj wm).cache := by
  unfold captured captureSteps meEvidenceCacheCapture
  dsimp only
  by_cases hident : event.eventId.bytes = [] ∨ event.channelId.bytes = [] ∨ event.streamEpoch = 0
  · rw [if_pos hident, if_pos hident]
    exact .same
  rw [if_neg hident, if_neg hident]
  by_cases hid : (!validComponent (evidenceIdOf sha event).bytes) = true
  · rw [if_pos hid, if_pos hid]
    exact .same
  rw [if_neg hid, if_neg hid]
  by_cases hold : (Keyed.lookup recordId (evidenceIdOf sha event).bytes
      cache.records).isSome = true
  · rw [if_pos hold, if_pos hold]
    exact .same
  rw [if_neg hold, if_neg hold]
  by_cases hphase : event.phase ≠ .start
  · rw [if_pos hphase, if_pos hphase]
    exact .same
  rw [if_neg hphase, if_neg hphase]
  cases hsel : selectFrameLocked cache { event with evidenceId := evidenceIdOf sha event } with
  | none => exact .same
  | some sel =>
    have hnone := Option.not_isSome_iff_eq_none.mp hold
    rw [not_or, not_or] at hident
    rw [Bool.not_eq_true', Bool.not_eq_false] at hid
    show CaptureCase _ _ _ _ (selectedSteps sha cache (referring sha event) sel now wj wm).1
      (captureSelected sha cache (referring sha event) sel now
        (selectedSteps sha cache (referring sha event) sel now wj wm).2).cache
    rcases selected_case sha cache (referring sha event) sel now wj wm with
      ⟨hsteps, hc⟩ | ⟨files, hc⟩ | ⟨hroom, hc⟩
    · rw [hc, hsteps]
      exact .same
    · rw [hc]
      exact .pruned _ files
    · rw [hc]
      exact .published _ sel hident.1 hident.2.1 hid hnone hsel hroom

/-! ## Calls on an open cache -/

/-- An open cache, its directory and the records it has to keep. -/
structure Live (sha : Sha256) (directory : Bytes) (files : Files) (kept : List MeEvidenceRecord)
    (cache : MeEvidenceCache) : Prop where
  same : cache.files = files
  place : cache.directory = directory
  accounted : Accounted cache
  durable : ∀ r ∈ cache.records, Durable sha files r
  noted : Noted cache
  kept : ∀ k ∈ kept, ∃ r ∈ cache.records, Agrees k r

variable {directory : Bytes} {files : Files} {kept : List MeEvidenceRecord}

theorem Live.sees {op : Op} {now : ℤ} (hclock : op.clock = some now)
    (h : Live sha directory files kept cache) {k : MeEvidenceRecord} (hk : k ∈ kept.filter op.sees) :
    ∃ r ∈ cache.records, expired now r = false ∧ Agrees k r := by
  obtain ⟨hk, hsees⟩ := List.mem_filter.mp hk
  obtain ⟨r, hr, ha⟩ := h.kept k hk
  refine ⟨r, hr, ?_, ha⟩
  rw [Op.sees, hclock, Option.all_some, Bool.not_eq_true'] at hsees
  rw [ha.expired, hsees]

/-- **No step of a call touches a record that is kept.** -/
theorem Live.spare (h : Live sha directory files kept cache) (op : Op) {k : MeEvidenceRecord}
    (hk : k ∈ kept.filter op.sees) : ∀ s ∈ op.stepsOn sha cache, Spares (recordId k) s := by
  cases op with
  | start | note | push => exact fun s hs => absurd hs List.not_mem_nil
  | capture event now wj wm =>
    obtain ⟨r, hr, hexp, ha⟩ := h.sees rfl hk
    exact ha.id ▸ captureSteps_spare h.accounted.unique hr hexp
  | prune now =>
    obtain ⟨r, hr, hexp, ha⟩ := h.sees rfl hk
    exact ha.id ▸ pruneSteps_spare h.accounted.unique hr hexp

theorem pruned_kept (h : Live sha directory files kept cache) {op : Op} {now : ℤ}
    (hclock : op.clock = some now) :
    ∀ k ∈ kept.filter op.sees, ∃ r ∈ (pruneExpiredLocked cache now).records, Agrees k r :=
  fun _ hk =>
    have ⟨r, hr, hexp, ha⟩ := h.sees hclock hk
    ⟨r, (mem_prune h.accounted.unique).mpr ⟨hr, hexp⟩, ha⟩

/-- The record of a capture, its files just written. -/
theorem candidate_durable {event : MeAnalyticsEvent} {sel : Selected} {now : ℤ}
    (hfits : (candidate sha cache (referring sha event) sel now).Fits)
    (hstamped : (candidate sha cache (referring sha event) sel now).Stamped)
    (hexpires : backI64 (expiresAt cache.retentionS now) = expiresAt cache.retentionS now)
    (hfiles : (published sha cache (referring sha event) sel now).files = files) :
    Durable sha files (candidate sha cache (referring sha event) sel now) := by
  obtain ⟨hjson, hjpeg⟩ := lookup_published sha cache (referring sha event) sel now
  rw [hfiles] at hjson hjpeg
  refine ⟨⟨_, _, hjson, readBack_record hfits hstamped, ⟨?_, ?_, ?_, ?_⟩⟩, _, hjpeg, rfl,
    strcasecmpEq_self _⟩
  · simp only [recordId, MeEvidenceRecord.back]
  · simp only [MeEvidenceRecord.back]
  · simp only [MeEvidenceRecord.back]
  · simp only [MeEvidenceRecord.back]
    exact hexpires

theorem Accounted.published (h : Accounted cache) {event : MeAnalyticsEvent} {sel : Selected}
    {now : ℤ} (hnew : Keyed.lookup recordId event.evidenceId.bytes cache.records = none) :
    Accounted (published sha cache event sel now) := by
  have hpruned := h.prune now
  have hfresh : Keyed.lookup recordId (recordId (candidate sha cache event sel now))
      (pruneExpiredLocked cache now).records = none := by
    rw [lookup_prune h.unique]
    exact congrArg (Option.filter _) hnew
  refine ⟨hpruned.unique.insert _, ?_⟩
  show (pruneExpiredLocked cache now).storedBytes + sel.frame.jpeg.length = _
  rw [Evidence.published, total_insert hfresh, hpruned.stored, Nat.add_comm]
  rfl

theorem Live.capture (h : Live sha directory files kept cache) {event : MeAnalyticsEvent} {now : ℤ}
    {wj wm : Writing} (htyped : (Op.capture event now wj wm).Typed)
    (hsafe : ∀ sel, selectFrameLocked cache (referring sha event) = some sel →
      sel.frame.note.sourcePtsValid = true →
        sel.frame.note.sourceTimebase.num ≠ 0 ∧ sel.frame.note.sourceTimebase.den ≠ 0)
    (hexpires : backI64 (expiresAt cache.retentionS now) = expiresAt cache.retentionS now) :
    Live sha directory (perform files (captureSteps sha cache event now wj wm).1)
      (kept.filter (Op.capture event now wj wm).sees) (captured sha cache event now wj wm).cache := by
  have hu := h.accounted.unique
  have hcase := capture_case sha cache event now wj wm
  have hfiles : perform files (captureSteps sha cache event now wj wm).1 =
      (captured sha cache event now wj wm).cache.files := by
    rw [← h.same]
    exact perform_captureSteps sha cache event now wj wm
  have hnoted : Noted (captured sha cache event now wj wm).cache :=
    (capture_window cache event now _).noted h.noted
  have hdurable : ∀ r ∈ cache.records, expired now r = false →
      Durable sha (perform files (captureSteps sha cache event now wj wm).1) r :=
    fun r hr hexp => (h.durable r hr).perform (captureSteps_spare hu hr hexp)
  have hpruned : ∀ r ∈ (pruneExpiredLocked cache now).records,
      Durable sha (perform files (captureSteps sha cache event now wj wm).1) r := fun r hr =>
    have ⟨hr, hexp⟩ := (mem_prune hu).mp hr
    hdurable r hr hexp
  have hkept : ∀ k ∈ kept.filter (Op.capture event now wj wm).sees, _ := pruned_kept h rfl
  have hdir := prune_directory cache now
  generalize (captureSteps sha cache event now wj wm).1 = steps at hcase hfiles hpruned ⊢
  generalize (captured sha cache event now wj wm).cache = cache' at hcase hfiles hnoted ⊢
  cases hcase with
  | same =>
    exact ⟨hfiles.symm, h.place, h.accounted, h.durable, hnoted, fun k hk =>
      h.kept k (List.mem_of_mem_filter hk)⟩
  | pruned steps fs =>
    have haccounted := h.accounted.prune now
    exact ⟨hfiles.symm, hdir.trans h.place, ⟨haccounted.unique, haccounted.stored⟩, hpruned, hnoted,
      hkept⟩
  | published steps sel hevent hchannel hid hnew hsel hroom =>
    have hfits := candidate_fits h.noted htyped.1 hevent hchannel hid htyped.2 hsel
    refine ⟨hfiles.symm, hdir.trans h.place, h.accounted.published hnew, fun r hr => ?_, hnoted,
      fun k hk => ?_⟩
    · rcases Keyed.mem_insert hr with rfl | hr
      · exact candidate_durable hfits (hsafe sel hsel) hexpires hfiles.symm
      · exact hpruned r hr
    · obtain ⟨r, hr, ha⟩ := hkept k hk
      refine ⟨r, List.mem_cons_of_mem _ (Keyed.mem_erase.mpr ⟨hr, fun he => ?_⟩), ha⟩
      exact Keyed.lookup_eq_none.mp hnew r ((mem_prune hu).mp hr).1 he

/-- A call leaves the open cache with all it has to keep. -/
theorem Live.cacheOn (h : Live sha directory files kept cache) {w : World}
    (hlive : w.live = some cache) {op : Op} (htyped : op.Typed) (hsafe : op.Safe sha w) :
    Live sha directory (perform files (op.stepsOn sha cache)) (kept.filter op.sees)
      (op.cacheOn sha cache) := by
  have hsub : ∀ k ∈ kept.filter op.sees, ∃ r ∈ cache.records, Agrees k r := fun k hk =>
    h.kept k (List.mem_of_mem_filter hk)
  cases op with
  | start => exact ⟨h.same, h.place, h.accounted, h.durable, h.noted, hsub⟩
  | note n =>
    have hnoted := noteFrame_noted h.noted htyped.1 htyped.2
    show Live sha directory files _ (meEvidenceCacheNoteFrame cache n).2
    generalize hc : (meEvidenceCacheNoteFrame cache n).2 = cache' at hnoted
    unfold meEvidenceCacheNoteFrame at hc
    split at hc <;> subst hc <;>
      exact ⟨h.same, h.place, ⟨h.accounted.unique, h.accounted.stored⟩, h.durable, hnoted, hsub⟩
  | push jpeg valid pts =>
    have hnoted := pushJpeg_noted h.noted jpeg valid htyped
    show Live sha directory files _ (meEvidenceCachePushJpeg cache jpeg valid pts).2
    generalize hc : (meEvidenceCachePushJpeg cache jpeg valid pts).2 = cache' at hnoted
    unfold meEvidenceCachePushJpeg at hc
    split at hc <;> subst hc <;>
      exact ⟨h.same, h.place, ⟨h.accounted.unique, h.accounted.stored⟩, h.durable, hnoted, hsub⟩
  | capture event now wj wm =>
    obtain ⟨-, hstamped, hexpires⟩ := hsafe cache hlive
    exact h.capture htyped hstamped hexpires
  | prune now =>
    refine ⟨?_, (prune_directory cache now).trans h.place, h.accounted.prune now, fun r hr => ?_,
      (pruneExpiredLocked_window cache now).noted h.noted, pruned_kept h rfl⟩
    · exact h.same ▸ (perform_pruneSteps cache now).symm
    · obtain ⟨hr, hexp⟩ := (mem_prune h.accounted.unique).mp hr
      exact (h.durable r hr).perform (pruneSteps_spare h.accounted.unique hr hexp)

/-- What a capture returns is in the table it leaves. -/
theorem mem_returnsOn {op : Op} {k : MeEvidenceRecord} (h : k ∈ op.returnsOn sha cache) :
    k ∈ (op.cacheOn sha cache).records := by
  cases op with
  | start | note | push | prune => exact absurd h List.not_mem_nil
  | capture event now wj wm =>
    unfold Op.returnsOn at h
    dsimp only at h
    split at h
    · exact Keyed.lookup_mem (Option.mem_toList.mp h)
    · cases h

end FlowAlarm.Evidence
