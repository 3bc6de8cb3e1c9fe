import FlowAlarm.Evidence.Reopening

/-!
# The evidence store across crashes

Runs of calls on one directory, with a crash after any file step of any call.
A crash and a call both leave `Inv` (`inv_crash`, `inv_done`).

* `crash_recovery`: what the next opening finds, in every run of calls that are `Safe`.
* `marked_id_lost`: records that opening loses after calls that are not.
-/

namespace FlowAlarm.Evidence

open FlowAlarm.Text FlowAlarm.Engine FlowAlarm.CJson FlowAlarm.Directory FlowAlarm.Wire

variable {sha : Sha256} {cache : MeEvidenceCache} {directory : Bytes} {files : Files}
  {kept : List MeEvidenceRecord}

/-! ## Runs -/

/-- Between the calls, and after a crash. -/
structure Inv (sha : Sha256) (directory : Bytes) (w : World) : Prop where
  names : Keyed.Unique Prod.fst w.files
  plain : Plain w.files
  kept : ∀ k ∈ w.kept, Durable sha w.files k
  live : ∀ cache, w.live = some cache → Live sha directory w.files w.kept cache

theorem publishSteps_adds {id jpeg text : Bytes} {wj wm : Writing} :
    ∀ s ∈ (publishSteps files id jpeg text wj wm).1, ∀ name, s.adds = some name → Owned id name := by
  have himage : ∀ s ∈ wj.steps files (jpegName id) jpeg, ∀ name, s.adds = some name →
      Owned id name := fun s hs name hadds => by
    rcases adds_writeAtomic hs hadds with rfl | rfl
    · exact ⟨_, .inl rfl, .inr ⟨wj, rfl⟩⟩
    · exact ⟨_, .inl rfl, .inl rfl⟩
  have hmeta : ∀ fs, ∀ s ∈ wm.steps fs (jsonName id) text, ∀ name, s.adds = some name →
      Owned id name := fun fs s hs name hadds => by
    rcases adds_writeAtomic hs hadds with rfl | rfl
    · exact ⟨_, .inr rfl, .inr ⟨wm, rfl⟩⟩
    · exact ⟨_, .inr rfl, .inl rfl⟩
  have hfailed : ∀ s ∈ publishFailed id, ∀ name, s.adds = some name → Owned id name := by
    intro s hs name hadds
    simp only [publishFailed, List.mem_cons, List.not_mem_nil, or_false] at hs
    rcases hs with rfl | rfl <;> cases hadds
  intro s hs
  unfold publishSteps at hs
  dsimp only at hs
  split at hs
  · exact (List.mem_append.mp hs).elim (himage s) (hfailed s)
  · split at hs
    · simp only [List.mem_append, or_self] at hs
      rcases hs with hs | hs | hs
      · exact himage s hs
      · exact hmeta _ s hs
      · exact hfailed s hs
    · exact (List.mem_append.mp hs).elim (himage s) (hmeta _ s)

/-- A capture only adds files of its own id. -/
theorem captureSteps_adds {event : MeAnalyticsEvent} {now : ℤ} {wj wm : Writing} :
    ∀ s ∈ (captureSteps sha cache event now wj wm).1, ∀ name, s.adds = some name →
      Owned (evidenceIdOf sha event).bytes name := by
  intro s hs name hadds
  have hprune : s ∉ pruneSteps cache now := fun hs => by
    rw [pruneSteps_adds s hs] at hadds
    cases hadds
  unfold captureSteps at hs
  dsimp only at hs
  split at hs
  · cases hs
  split at hs
  · cases hs
  split at hs
  · cases hs
  split at hs
  · cases hs
  split at hs
  · cases hs
  unfold selectedSteps at hs
  dsimp only at hs
  split at hs
  · cases hs
  split at hs
  · exact absurd hs hprune
  · exact publishSteps_adds s ((List.mem_append.mp hs).resolve_left hprune) name hadds

/-- The files a call adds are of an unmarked id. -/
theorem Op.adds_unmarked {op : Op} {w : World} (hsafe : op.Safe sha w) :
    ∀ s ∈ op.steps sha directory w, ∀ name, s.adds = some name →
      ∃ id, Owned id name ∧ Unmarked id := by
  intro s hs name hadds
  cases op with
  | start =>
    rw [openSteps_adds s hs] at hadds
    cases hadds
  | note | push =>
    unfold Op.steps at hs
    dsimp only [Op.stepsOn] at hs
    cases hl : w.live <;> rw [hl] at hs <;> cases hs
  | capture event now wj wm =>
    unfold Op.steps at hs
    dsimp only at hs
    cases hl : w.live with
    | none =>
      rw [hl] at hs
      cases hs
    | some cache =>
      rw [hl] at hs
      exact ⟨_, captureSteps_adds s hs name hadds, (hsafe cache hl).1⟩
  | prune now =>
    unfold Op.steps at hs
    dsimp only at hs
    cases hl : w.live with
    | none =>
      rw [hl] at hs
      cases hs
    | some cache =>
      rw [hl] at hs
      rw [pruneSteps_adds s hs] at hadds
      cases hadds

theorem Plain.perform {steps : List Step} (h : Plain files)
    (hs : ∀ s ∈ steps, ∀ name, s.adds = some name → ∃ id, Owned id name ∧ Unmarked id) :
    Plain (perform files steps) := by
  intro f hf id hid
  rcases mem_perform hf with hf | ⟨s, hmem, hadds⟩
  · exact h f hf id hid
  · obtain ⟨id', hid', hm⟩ := hs s hmem f.1 hadds
    exact hid'.inj hid ▸ hm

/-- **No step of a call touches a record that is kept.** -/
theorem Inv.spare {w : World} (h : Inv sha directory w) (hshort : ShortPaths directory) (op : Op)
    {k : MeEvidenceRecord} (hk : k ∈ w.kept.filter op.sees) :
    ∀ s ∈ op.steps sha directory w, Spares (recordId k) s := by
  have hlive : ∀ {steps : List Step}, (∀ cache, w.live = some cache → steps = op.stepsOn sha cache) →
      (w.live = none → steps = []) → ∀ s ∈ steps, Spares (recordId k) s := by
    intro steps hsome hnone s hs
    cases hl : w.live with
    | none =>
      rw [hnone hl] at hs
      cases hs
    | some cache =>
      rw [hsome cache hl] at hs
      exact (h.live cache hl).spare op hk s hs
  cases op with
  | start maxBytes retentionS now =>
    obtain ⟨hmem, hsees⟩ := List.mem_filter.mp hk
    exact open_spare hshort h.names h.plain (h.kept k hmem) (by simpa [Op.sees, Op.clock] using hsees)
  | note | push | capture | prune =>
    refine hlive (fun cache hl => ?_) fun hl => ?_ <;> rw [Op.steps, hl] <;> rfl

theorem inv_crash {w : World} (h : Inv sha directory w) (hshort : ShortPaths directory) {op : Op}
    (hsafe : op.Safe sha w) (n : ℕ) : Inv sha directory (w.turn sha directory (.crash op n)) where
  names := unique_perform h.names _
  plain := h.plain.perform fun s hs => op.adds_unmarked hsafe s (List.mem_of_mem_take hs)
  kept k hk := (h.kept k (List.mem_of_mem_filter hk)).perform fun s hs =>
    h.spare hshort op hk s (List.mem_of_mem_take hs)
  live _ hc := nomatch hc

theorem Live.returned (h : Live sha directory files kept cache) {rs : List MeEvidenceRecord}
    (hrs : ∀ k ∈ rs, k ∈ cache.records) : Live sha directory files (rs ++ kept) cache where
  same := h.same
  place := h.place
  accounted := h.accounted
  durable := h.durable
  noted := h.noted
  kept k hk := (List.mem_append.mp hk).elim (fun hk => ⟨k, hrs k hk, .refl k⟩) (h.kept k)

theorem inv_done {w : World} (h : Inv sha directory w) (hshort : ShortPaths directory) {op : Op}
    (htyped : op.Typed) (hsafe : op.Safe sha w) : Inv sha directory (w.turn sha directory (.done op)) := by
  -- the records a call returns are those of a cache it leaves
  have hcalled : op.leaves sha directory w = w.live.map (op.cacheOn sha) →
      op.steps sha directory w = (w.live.map (op.stepsOn sha)).getD [] →
      (∀ cache, op.leaves sha directory w = some cache →
        Live sha directory (perform w.files (op.steps sha directory w))
          (op.returns sha w ++ w.kept.filter op.sees) cache) ∧
      ∀ k ∈ op.returns sha w, ∃ cache, op.leaves sha directory w = some cache ∧
        k ∈ cache.records := by
    intro hleaves hsteps
    rw [hleaves, hsteps, Op.returns]
    cases hl : w.live with
    | none => exact ⟨(fun _ hc => nomatch hc), fun k hk => absurd hk List.not_mem_nil⟩
    | some cache =>
      refine ⟨fun cache' hc => ?_, fun k hk => ⟨_, rfl, mem_returnsOn hk⟩⟩
      cases hc
      exact ((h.live cache hl).cacheOn hl htyped hsafe).returned fun k hk => mem_returnsOn hk
  have hboth : (∀ cache, op.leaves sha directory w = some cache →
        Live sha directory (perform w.files (op.steps sha directory w))
          (op.returns sha w ++ w.kept.filter op.sees) cache) ∧
      ∀ k ∈ op.returns sha w, ∃ cache, op.leaves sha directory w = some cache ∧
        k ∈ cache.records := by
    cases op with
    | start maxBytes retentionS now =>
      have hnone : (Op.start maxBytes retentionS now).returns sha w = [] := by
        rw [Op.returns]
        cases w.live <;> rfl
      rw [hnone]
      refine ⟨fun cache hc => open_live hshort h.names h.plain (fun k hk => ?_) hc,
        fun k hk => absurd hk List.not_mem_nil⟩
      obtain ⟨hmem, hsees⟩ := List.mem_filter.mp hk
      exact ⟨h.kept k hmem, by simpa [Op.sees, Op.clock] using hsees⟩
    | note | push | capture | prune => exact hcalled rfl rfl
  obtain ⟨hlive, hreturns⟩ := hboth
  refine ⟨unique_perform h.names _, h.plain.perform (op.adds_unmarked hsafe), fun k hk => ?_, hlive⟩
  rcases List.mem_append.mp hk with hk | hk
  · obtain ⟨cache, hc, hmem⟩ := hreturns k hk
    exact (hlive cache hc).durable k hmem
  · exact (h.kept k (List.mem_of_mem_filter hk)).perform (h.spare hshort op hk)

/-- Every world of a run keeps what it has to. -/
theorem Reach.inv {w : World} (h : Reach sha directory files w) (hshort : ShortPaths directory)
    (hu : Keyed.Unique Prod.fst files) (hp : Plain files) : Inv sha directory w := by
  induction h with
  | start => exact ⟨hu, hp, fun k hk => absurd hk List.not_mem_nil, fun _ hc => nomatch hc⟩
  | turn _ t htyped hsafe ih =>
    cases t with
    | done op => exact inv_done ih hshort htyped hsafe
    | crash op n => exact inv_crash ih hshort hsafe n

theorem stored_captured (event : MeAnalyticsEvent) (now : ℤ) (wj wm : Writing) :
    (captured sha cache event now wj wm).cache.storedBytes ≤ max cache.storedBytes cache.maxBytes := by
  have hcase := capture_case sha cache event now wj wm
  have hprune := storedBytes_prune cache now
  generalize (captureSteps sha cache event now wj wm).1 = steps at hcase
  generalize (captured sha cache event now wj wm).cache = cache' at hcase ⊢
  cases hcase with
  | same => exact le_max_left _ _
  | pruned => exact hprune.trans (le_max_left _ _)
  | published steps sel _ _ _ _ _ hroom => exact hroom.trans (le_max_right _ _)

/-- **The store across crashes.** In every run of calls within their C types that are `Safe`, with a
crash allowed after any file step of any call: an open cache counts the bytes of its records, and
no capture raises the count above the limit; and whatever opening comes next finds what it has to:
complete JPEGs, the records that were returned and have not expired, no file beside theirs. -/
theorem crash_recovery (hshort : ShortPaths directory) (hu : Keyed.Unique Prod.fst files)
    (hp : Plain files) {w : World} (h : Reach sha directory files w) :
    (∀ cache, w.live = some cache → cache.storedBytes = total cache.records ∧
      ∀ event now wj wm, (captured sha cache event now wj wm).cache.storedBytes ≤
        max cache.storedBytes cache.maxBytes) ∧
    ∀ maxBytes retentionS now cache,
      meEvidenceCacheOpen sha directory maxBytes retentionS w.files (fun _ => true) true now =
        some cache → Recovered sha w.kept now cache := by
  have hinv := h.inv hshort hu hp
  refine ⟨fun cache hc => ⟨(hinv.live cache hc).accounted.stored, fun event now wj wm =>
    stored_captured event now wj wm⟩, fun maxBytes retentionS now cache ho => ?_⟩
  exact open_recovered hshort hinv.names hinv.plain hinv.kept ho

/-! ## A run, and records that are lost -/

def demoWriting : Writing := ⟨ascii "Zk3f0A", by decide, List.all_eq_true.mp (by decide), [], .done, []⟩

/-- A run that opens an empty directory, takes a frame and captures it. -/
def demoTurns (note : FrameNote) (event : MeAnalyticsEvent) (now : ℤ) : List Turn :=
  [.done (.start 1048576 3600 now), .done (.note note), .done (.push demoJpeg true 40000000),
    .done (.capture event now demoWriting demoWriting)]

def demoDirectory : Bytes := ascii "/data/snapshots"

def demoRun (turns : List Turn) : World :=
  turns.foldl (World.turn demoSha demoDirectory) ⟨[], none, []⟩

def demoWorld (note : FrameNote) (event : MeAnalyticsEvent) (now : ℤ) : World :=
  demoRun (demoTurns note event now)

def demoReopened (w : World) (now : ℤ) : Option MeEvidenceCache :=
  meEvidenceCacheOpen demoSha demoDirectory 1048576 3600 w.files (fun _ => true) true now

theorem demoDirectory_short : ShortPaths demoDirectory := by
  intro id hid
  have hpre : demoDirectory.rdropWhile (· = 0x2F) = demoDirectory := by decide +kernel
  have hdir : demoDirectory.length = 15 := by decide
  have hjpg : (ascii ".jpg").length = 4 := by decide
  rw [buildFilename, hpre, jpegName, List.length_append, List.length_cons, List.length_append, hdir,
    hjpg]
  simp only [Codec.meAnalyticsEvidenceIdMax, meEvidencePathMax] at hid ⊢
  omega

/-- The capture of the run is safe. -/
theorem demo_safe : (Op.capture (startedAt 1700000000000001) 1700000000123457 demoWriting
    demoWriting).Safe demoSha (demoRun ((demoTurns demoNote (startedAt 1700000000000001)
      1700000000123457).take 3)) := by
  intro cache hc
  have hall : ((demoRun ((demoTurns demoNote (startedAt 1700000000000001)
      1700000000123457).take 3)).live.all fun cache =>
    (selectFrameLocked cache (referring demoSha (startedAt 1700000000000001))).all (fun sel =>
      sel.frame.note.sourceTimebase.num != 0 && sel.frame.note.sourceTimebase.den != 0) &&
    decide (backI64 (expiresAt cache.retentionS 1700000000123457) =
      expiresAt cache.retentionS 1700000000123457)) = true := by decide +kernel
  rw [hc, Option.all_some, Bool.and_eq_true, decide_eq_true_eq] at hall
  refine ⟨by decide +kernel, fun sel hsel _ => ?_, hall.2⟩
  have hsel := hsel ▸ hall.1
  rw [Option.all_some, Bool.and_eq_true, bne_iff_ne, bne_iff_ne] at hsel
  exact hsel

theorem demoTurns_typed {note : FrameNote} {event : MeAnalyticsEvent} {now : ℤ}
    (hfits : (Input.noteFrame note).Fits) (hnote : note.Sized) (hevent : Sized event)
    (hnow : Int64 now) : ∀ t ∈ demoTurns note event now, t.op.Typed :=
  List.forall_mem_cons.mpr ⟨trivial, List.forall_mem_cons.mpr ⟨⟨hfits, hnote⟩,
    List.forall_mem_cons.mpr ⟨(by decide : Int64 40000000),
      List.forall_mem_singleton.mpr ⟨hevent, hnow⟩⟩⟩⟩

theorem startedAt_sized : Sized (startedAt 1700000000000001) :=
  ⟨by decide, by decide, by decide, by decide, by decide, by decide, by decide⟩

theorem demo_reach : Reach demoSha demoDirectory [] (demoWorld demoNote
    (startedAt 1700000000000001) 1700000000123457) :=
  have typed := demoTurns_typed
    (show (Input.noteFrame demoNote).Fits from ⟨by decide, by decide, by decide, by decide⟩)
    (show demoNote.Sized by decide) startedAt_sized (show Int64 1700000000123457 by decide)
  have hopened := (Reach.start : Reach demoSha demoDirectory [] _).turn
    (.done (.start 1048576 3600 1700000000123457)) trivial trivial
  have hnoted := hopened.turn (.done (.note demoNote)) (typed _ (by simp [demoTurns])) trivial
  have hpushed := hnoted.turn (.done (.push demoJpeg true 40000000)) (typed _ (by simp [demoTurns]))
    trivial
  hpushed.turn (.done (.capture (startedAt 1700000000000001) 1700000000123457 demoWriting
    demoWriting)) (typed _ (by simp [demoTurns])) demo_safe

theorem crash_recovery_demo : ((demoWorld demoNote (startedAt 1700000000000001)
      1700000000123457).kept.length = 1) ∧
    ∀ cache, demoReopened (demoWorld demoNote (startedAt 1700000000000001) 1700000000123457)
      1700000000123457 = some cache → Recovered demoSha (demoWorld demoNote
        (startedAt 1700000000000001) 1700000000123457).kept 1700000000123457 cache :=
  ⟨by decide +kernel, fun cache h => (crash_recovery demoDirectory_short Keyed.unique_nil
    (fun f hf => absurd hf List.not_mem_nil) demo_reach).2 _ _ _ _ h⟩

/-- A record that was returned and has not expired is not there. -/
def demoLost (w : World) (now : ℤ) : Bool :=
  (demoReopened w now).any fun cache => w.kept.any fun k =>
    !expired now k && cache.records.all fun r => recordId r != recordId k

/-- A record is there without its JPEG. -/
def demoTorn (w : World) (now : ℤ) : Bool :=
  (demoReopened w now).any fun cache => cache.records.any fun r =>
    (Keyed.lookup Prod.fst (jpegName (recordId r)) cache.files).isNone

theorem not_recovered_of_lost {w : World} {now : ℤ} (h : demoLost w now = true) :
    ∃ cache, demoReopened w now = some cache ∧ ¬ Recovered demoSha w.kept now cache := by
  obtain ⟨cache, hc, h⟩ := (Option.any_eq_true _ _).mp h
  refine ⟨cache, hc, fun hr => ?_⟩
  obtain ⟨k, hk, h⟩ := List.any_eq_true.mp h
  rw [Bool.and_eq_true, Bool.not_eq_true'] at h
  obtain ⟨r, hmem, ha⟩ := hr.present k hk h.1
  exact absurd ha.id (by simpa using List.all_eq_true.mp h.2 r hmem)

theorem not_recovered_of_torn {w : World} {now : ℤ} (h : demoTorn w now = true) :
    ∃ cache, demoReopened w now = some cache ∧ ¬ Recovered demoSha w.kept now cache := by
  obtain ⟨cache, hc, h⟩ := (Option.any_eq_true _ _).mp h
  refine ⟨cache, hc, fun hr => ?_⟩
  obtain ⟨r, hmem, h⟩ := List.any_eq_true.mp h
  obtain ⟨jpeg, hjpeg, -⟩ := hr.complete r hmem
  rw [hjpeg] at h
  cases h

/-- An event whose evidence id has the mark of a temporary file. -/
def demoMarked : MeAnalyticsEvent :=
  { startedAt 1700000000000001 with evidenceId := CStr.ofBytes (ascii "a.jpg.tmp-b") (by decide) }

def demoUnstamped : FrameNote := { demoNote with sourceTimebase := ⟨0, 0⟩ }

/-- **Three captures that opening undoes.** An evidence id with the mark of a temporary file: the
record is read and its JPEG removed. A valid time stamp without a time base: the metadata is
refused. An expiry that does not come back unchanged from its printed number: it is earlier. -/
theorem marked_id_lost :
    ((∀ t ∈ demoTurns demoNote demoMarked 1700000000123457, t.op.Typed) ∧
      ∃ cache, demoReopened (demoWorld demoNote demoMarked 1700000000123457) 1700000000123457 =
        some cache ∧ ¬ Recovered demoSha (demoWorld demoNote demoMarked 1700000000123457).kept
          1700000000123457 cache) ∧
    ((∀ t ∈ demoTurns demoUnstamped (startedAt 1700000000000001) 1700000000123457, t.op.Typed) ∧
      ∃ cache, demoReopened (demoWorld demoUnstamped (startedAt 1700000000000001) 1700000000123457)
        1700000000123457 = some cache ∧ ¬ Recovered demoSha (demoWorld demoUnstamped
          (startedAt 1700000000000001) 1700000000123457).kept 1700000000123457 cache) ∧
    ((∀ t ∈ demoTurns demoNote (startedAt 1700000000000001) 9007195654740993, t.op.Typed) ∧
      ∃ cache, demoReopened (demoWorld demoNote (startedAt 1700000000000001) 9007195654740993)
        9007199254740992 = some cache ∧ ¬ Recovered demoSha (demoWorld demoNote
          (startedAt 1700000000000001) 9007195654740993).kept 9007199254740992 cache) := by
  have hnote : ∀ n : FrameNote, n = demoNote ∨ n = demoUnstamped →
      (Input.noteFrame n).Fits ∧ n.Sized := by
    rintro n (rfl | rfl) <;> exact ⟨⟨by decide, by decide, by decide, by decide⟩, by decide⟩
  have hevent := startedAt_sized
  have hmarked : Sized demoMarked := ⟨hevent.eventId, hevent.channelId, by decide,
    hevent.streamEpoch, hevent.frameId, hevent.sourcePts, hevent.eventTimeUs⟩
  obtain ⟨hfits, hsized⟩ := hnote _ (.inl rfl)
  obtain ⟨hfits', hsized'⟩ := hnote _ (.inr rfl)
  refine ⟨⟨demoTurns_typed hfits hsized hmarked (by decide), not_recovered_of_torn ?_⟩,
    ⟨demoTurns_typed hfits' hsized' hevent (by decide), not_recovered_of_lost ?_⟩,
    demoTurns_typed hfits hsized hevent (by decide), not_recovered_of_lost ?_⟩
  · decide +kernel
  · decide +kernel
  · decide +kernel

end FlowAlarm.Evidence
