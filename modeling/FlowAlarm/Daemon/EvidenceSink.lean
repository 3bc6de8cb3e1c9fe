import FlowAlarm.Daemon.AlarmSink

/-!
# The evidence sink of the delivery service

`evidence_sink` says which evidence a run uploads, and when delivered evidence
is not delivered again; `waiting_kept` that the outbox keeps what a sink waits
for, whatever the loops do.
-/

namespace FlowAlarm.Delivery

open FlowAlarm.Text FlowAlarm.Media FlowAlarm.Evidence FlowAlarm.Outbox FlowAlarm.GbXml
open FlowAlarm.Wire (EventNotification)

variable {sha : Sha256} {cfg : Config} {zone : Zone} {smooth : Prop} {w w' : World}
  {outs : List Output} {n : ℕ} {k : Bytes} {r r' : Record}

/-! ## Uploads -/

/-- The outbox directory of a reachable world held this evidence of the event. -/
def Loadable (sha : Sha256) (cfg : Config) (zone : Zone) (smooth : Prop) (event : AnalyticsEvent)
    (metadata image : Bytes) : Prop :=
  ∃ v : World, Reachable sha cfg zone smooth v ∧
    loadEvidence sha cfg.evidenceOutboxDir v.staged event = .ok (metadata, image)

/-- Evidence on its way was loaded from the outbox directory. -/
def EvidenceLoop.Checked (sha : Sha256) (cfg : Config) (zone : Zone) (smooth : Prop) :
    EvidenceLoop → Prop
  | .loaded _ r metadata image _ => Loadable sha cfg zone smooth r.event metadata image
  | .idle | .pass _ _ | .sent .. | .removing .. => True

theorem stepEvidence_checked (hreach : Reachable sha cfg zone smooth w)
    (h : w.evidence.Checked sha cfg zone smooth) (t : Turn) (answer : Option Bytes) :
    (stepEvidence sha cfg t answer w).1.evidence.Checked sha cfg zone smooth := by
  cases hpc : w.evidence with
  | idle =>
    simp only [stepEvidence, hpc]
    split
    · trivial
    · rwa [hpc] at h ⊢
  | pass now rest =>
    cases rest with
    | nil => simp only [stepEvidence, hpc]; trivial
    | cons r rest =>
      simp only [stepEvidence, hpc]
      split
      · trivial
      · split
        next hload => exact ⟨w, hreach, hload⟩
        · trivial
  | loaded => simp only [stepEvidence, hpc]; trivial
  | sent now r answer rest => cases answer <;> simp only [stepEvidence, hpc] <;> trivial
  | removing now names rest => cases names <;> simp only [stepEvidence, hpc] <;> trivial

theorem step_checked (hreach : Reachable sha cfg zone smooth w)
    (h : w.evidence.Checked sha cfg zone smooth) (i : Input) :
    (step sha cfg zone w i).1.evidence.Checked sha cfg zone smooth := by
  cases i with
  | engine => exact h
  | ingest t =>
    show (stepIngest sha cfg t w).1.evidence.Checked sha cfg zone smooth
    rwa [(stepIngest_cases sha cfg t w).loops.2]
  | alarm t answer =>
    show (stepAlarm cfg zone t answer w).1.evidence.Checked sha cfg zone smooth
    rwa [(stepAlarm_loops t answer w).2]
  | evidence t answer => exact stepEvidence_checked hreach h t answer
  | notify n =>
    dsimp only [step]
    split <;> exact h
  | cancelAlarm =>
    dsimp only [step]
    split <;> exact h
  | cancelEvidence =>
    dsimp only [step]
    split
    · trivial
    · exact h

theorem reachable_checked (h : Reachable sha cfg zone smooth w) :
    w.evidence.Checked sha cfg zone smooth := by
  induction h with
  | opened | restarted => trivial
  | stepped h _ _ ih => exact step_checked h ih _

/-- An upload is evidence that the loop has loaded. -/
theorem step_upload {i : Input} {x : Record} {metadata image : Bytes} {answer : Option Bytes}
    (ho : .upload x metadata image answer ∈ (step sha cfg zone w i).2) :
    ∃ now rest, w.evidence = .loaded now x metadata image rest := by
  cases i with
  | evidence t a =>
    obtain ⟨now, r, m, im, rest, hpc, heq⟩ := @stepEvidence_shows sha cfg t a w _ ho
    cases heq
    exact ⟨now, rest, hpc⟩
  | ingest t =>
    rcases (stepIngest_cases sha cfg t w).shows _ ho with ⟨_, _, heq⟩ | ⟨_, heq⟩ <;> cases heq
  | alarm t a =>
    obtain ⟨_, _, _, _, -, heq⟩ := @stepAlarm_shows cfg zone t a w _ ho
    cases heq
  | engine | notify | cancelAlarm | cancelEvidence =>
    dsimp only [step] at ho
    first
      | cases ho
      | split at ho <;> cases ho

/-! ## Delivered evidence -/

/-- `ingest` is at work on a notification of the record, having looked the record up while its
evidence was not delivered. -/
def Stale (cfg : Config) (k : Bytes) (w : World) : Prop :=
  ∃ job ∈ w.ingest.job, keyOf cfg.deviceID job.event = k ∧ job.stageRequired cfg = true

theorem begin_stale {n : EventNotification} {r : Record}
    (hr : lookup k w.store.records = some r) (hsent : r.evidenceState = .sent) :
    ¬ Stale cfg k (beginIngest cfg n w) := by
  rintro ⟨job, hjob, hkey, hreq⟩
  obtain rfl := begin_job n w job hjob
  have hkey' : keyOf cfg.deviceID n.event = k := hkey
  simp only [Job.stageRequired, hkey', hr, hsent, Bool.and_eq_true] at hreq
  exact absurd hreq.2.1 (by decide)

/-- The record whose evidence `ingest` is about to put back. -/
def Ingest.marking : Ingest → Option Record
  | .requeue _ _ r | .failed _ r _ => some r
  | .idle | .staging _ _ | .enqueue _ _ | .ack _ _ | .giveUp _ _ => none

/-- `ingest` puts evidence back only for a notification that required its staging. -/
theorem marking_stale (h : Inv sha cfg w) {x : Record} (hx : x ∈ w.ingest.marking)
    (hk : x.key = k) : Stale cfg k w := by
  have hknown := h.ingest
  cases hpc : w.ingest with
  | idle | staging | enqueue | ack | giveUp =>
    rw [hpc] at hx
    cases hx
  | requeue job staged r₀ =>
    rw [hpc] at hx hknown
    cases hx
    obtain ⟨hof, ⟨pair, hpair⟩, hkey, -⟩ := hknown
    refine ⟨job, by rw [hpc]; rfl, hkey.symm.trans hk, ?_⟩
    cases hreq : job.stageRequired cfg with
    | true => rfl
    | false =>
      rw [hof.1.mpr hreq] at hpair
      cases hpair
  | failed job r₀ e =>
    rw [hpc] at hx hknown
    cases hx
    exact ⟨job, by rw [hpc]; rfl, hknown.2.1.symm.trans hk, hknown.1⟩

/-- What a call of the service does to delivered evidence: nothing, unless `ingest` puts it back. -/
theorem call_delivered (h : Inv sha cfg w) (hno : ∀ x ∈ w.ingest.marking, x.key ≠ k)
    (hr : lookup k w.store.records = some r) (hsent : r.evidenceState = .sent) {i : Input} {t : Turn}
    {c : Call} (hc : i.call cfg w = some (t, c)) {update : Record → Record}
    (hch : c.changes = some (k, update)) : (update r).evidenceState = .sent := by
  cases i with
  | engine | notify | cancelAlarm | cancelEvidence => cases hc
  | ingest t =>
    obtain ⟨c', hc', he⟩ := Option.map_eq_some_iff.mp hc
    cases he
    cases hpc : w.ingest with
    | idle | staging => rw [hpc] at hc'; cases hc'
    | enqueue | ack | giveUp =>
      rw [hpc] at hc'
      cases hc'
      cases hch
    | requeue job staged r₀ =>
      rw [hpc] at hc' hno
      cases hc'
      cases hch
      exact absurd rfl (hno r₀ rfl)
    | failed job r₀ e =>
      rw [hpc] at hc' hno
      cases hc'
      cases hch
      exact absurd rfl (hno r₀ rfl)
  | alarm t answer =>
    obtain ⟨c', hc', he⟩ := Option.map_eq_some_iff.mp hc
    cases he
    obtain ⟨⟨r₀, rest, -, hcase⟩, -, -⟩ := alarm_calls hc'
    rcases hcase with rfl | ⟨cause, final, retryAt, rfl⟩
    · cases hch
      exact hsent
    · cases hch
      exact hsent
  | evidence t answer =>
    obtain ⟨c', hc', he⟩ := Option.map_eq_some_iff.mp hc
    cases he
    obtain ⟨⟨r₀, rest, update₀, hrecords, hch₀⟩, -, -⟩ := evidence_calls hc'
    rw [hch] at hch₀
    cases hch₀
    exact absurd hsent (h.evidence.held r₀ (by rw [hrecords]; exact List.mem_cons_self) r hr)

theorem delivered_step (h : Inv sha cfg w) (hns : ¬ Stale cfg k w) (i : Input)
    (hr : lookup k w.store.records = some r) (hsent : r.evidenceState = .sent)
    (hr' : lookup k (step sha cfg zone w i).1.store.records = some r') :
    r'.evidenceState = .sent ∧ ¬ Stale cfg k (step sha cfg zone w i).1 := by
  constructor
  · rcases step_held h i hr hr' with rfl | ⟨t, c, update, hc, hch, -, rfl⟩
    · exact hsent
    · exact call_delivered h (fun x hx hk => hns (marking_stale h hx hk)) hr hsent hc hch
  · cases i with
    | engine => exact hns
    | notify n =>
      dsimp only [step]
      split
      · exact begin_stale hr hsent
      · exact hns
    | ingest t =>
      rintro ⟨job, hjob, hstale⟩
      exact hns ⟨job, (stepIngest_cases sha cfg t w).job rfl job hjob, hstale⟩
    | alarm t answer =>
      rintro ⟨job, hjob, hstale⟩
      have hjob' : job ∈ (stepAlarm cfg zone t answer w).1.ingest.job := hjob
      rw [(stepAlarm_loops t answer w).1] at hjob'
      exact hns ⟨job, hjob', hstale⟩
    | evidence t answer =>
      rintro ⟨job, hjob, hstale⟩
      have hjob' : job ∈ (stepEvidence sha cfg t answer w).1.ingest.job := hjob
      rw [(stepEvidence_loops t answer w).1] at hjob'
      exact hns ⟨job, hjob', hstale⟩
    | cancelAlarm =>
      dsimp only [step]
      split <;> exact hns
    | cancelEvidence =>
      dsimp only [step]
      split <;> exact hns

theorem delivered_run (hu : Usable cfg.options) (h : Reachable sha cfg zone smooth w)
    (hr : lookup k w.store.records = some r) (hsent : r.evidenceState = .sent)
    (hns : ¬ Stale cfg k w) (hrun : Run sha cfg zone smooth (Holds k) w outs n w') :
    (∃ r', lookup k w'.store.records = some r' ∧ r'.evidenceState = .sent) ∧ ¬ Stale cfg k w' ∧
      ∀ x metadata image answer, .upload x metadata image answer ∈ outs → x.key ≠ k := by
  induction hrun with
  | refl => exact ⟨⟨r, hr, hsent⟩, hns, by simp⟩
  | @step u outs n i hrun hi hs hstays ih =>
    obtain ⟨⟨x, hx, hxsent⟩, hxns, hnone⟩ := ih
    obtain ⟨x', hx'⟩ := hstays
    have hinv := (reachable_inv hu (hrun.reachable h)).1
    obtain ⟨hsent', hns'⟩ := delivered_step hinv hxns i hx hxsent hx'
    refine ⟨⟨x', hx', hsent'⟩, hns', fun y metadata image answer ho hy => ?_⟩
    rcases List.mem_append.mp ho with ho | ho
    · exact hnone y metadata image answer ho hy
    · obtain ⟨now, rest, hpc⟩ := step_upload ho
      have hheld := hinv.evidence.held y (by rw [hpc]; exact List.mem_cons_self)
      exact hheld x (hy ▸ hx) hxsent
  | @restart u outs n s io disk staged source hs hrun ho hstays ih =>
    obtain ⟨⟨x, hx, hxsent⟩, -, hnone⟩ := ih
    obtain ⟨x', hx'⟩ := hstays
    have hstrip := restart_held hu hs (hrun.reachable h) ho hx hx'
    have hstate : x'.strip.evidenceState = x.strip.evidenceState := by rw [hstrip]
    refine ⟨⟨x', hx', hstate.trans hxsent⟩, ?_, hnone⟩
    rintro ⟨job, hjob, -⟩
    cases hjob

/-- What a run uploads was loaded from the outbox directory. -/
theorem run_uploads {stays : World → Prop} (h : Reachable sha cfg zone smooth w)
    (hrun : Run sha cfg zone smooth stays w outs n w') {x : Record} {metadata image : Bytes}
    {answer : Option Bytes} (ho : .upload x metadata image answer ∈ outs) :
    Loadable sha cfg zone smooth x.event metadata image := by
  induction hrun with
  | refl => cases ho
  | step hrun _ _ _ ih =>
    rcases List.mem_append.mp ho with ho | ho
    · exact ih ho
    · obtain ⟨now, rest, hpc⟩ := step_upload ho
      have hchecked := reachable_checked (hrun.reachable h)
      rwa [hpc] at hchecked
  | restart _ _ _ _ ih => exact ih ho

/-- **The uploads of a run**: each is evidence that passed every check for its event. Once the
evidence of a record is delivered, and no notification is being ingested that looked the record up
before, it stays delivered and is not uploaded again while the record stays in the outbox. -/
theorem evidence_sink (hu : Usable cfg.options) (h : Reachable sha cfg zone smooth w) :
    (∀ (stays : World → Prop) outs n w', Run sha cfg zone smooth stays w outs n w' →
      ∀ x metadata image answer, .upload x metadata image answer ∈ outs →
        Loadable sha cfg zone smooth x.event metadata image) ∧
    ∀ k r, lookup k w.store.records = some r → r.evidenceState = .sent → ¬ Stale cfg k w →
      ∀ outs n w', Run sha cfg zone smooth (Holds k) w outs n w' →
        (∃ r', lookup k w'.store.records = some r' ∧ r'.evidenceState = .sent) ∧
        ∀ x metadata image answer, .upload x metadata image answer ∈ outs → x.key ≠ k := by
  refine ⟨fun _ _ _ _ hrun _ _ _ _ ho => run_uploads h hrun ho,
    fun k r hr hsent hns outs n w' hrun => ?_⟩
  obtain ⟨hkept, -, hnone⟩ := delivered_run hu h hr hsent hns hrun
  exact ⟨hkept, hnone⟩

/-! ### Evidence that is uploaded once -/

def uploadConfig : Config :=
  { demoFilled with
    evidenceDir := ascii "/e"
    evidenceOutboxDir := ascii "/o"
    evidenceEnabled := true }

def uploadEvent : AnalyticsEvent := { demoEvent with streamEpoch := 1 }

theorem uploadEvent_portable : Portable uploadEvent := by
  refine ⟨?_, by decide +kernel⟩
  constructor <;> decide +kernel

/-- The metadata of an image of no bytes. -/
def uploadMetadata : Bytes :=
  ascii "\x7b\"v\":2,\"evidence_id\":\"ev\",\"event_id\":\"c-1-1\"," ++
    ascii "\"channel_id\":\"34020000001310000001\",\"stream_epoch\":1," ++
    ascii "\"frame_id\":1,\"source_pts\":0,\"source_pts_valid\":false," ++
    ascii "\"source_timebase_num\":0,\"source_timebase_den\":0," ++
    ascii "\"capture_time_us\":1,\"width\":1,\"height\":1,\"bytes\":0,\"sha256\":\"" ++
    List.replicate 64 0x30 ++ ascii "\",\"accuracy\":\"exact\",\"frame_delta\":0," ++
    ascii "\"pts_delta\":0,\"created_at_us\":1,\"expires_at_us\":1," ++
    ascii "\"object_key\":\"ev.jpg\",\"storage_state\":\"ready\"," ++
    ascii "\"delivery_state\":\"staged\"\x7d"

def uploadFiles : Directory.Files :=
  [(jsonName (ascii "ev"), uploadMetadata), (jpegName (ascii "ev"), [])]

def uploadKey : Bytes := keyOf uploadConfig.deviceID uploadEvent

def uploadOpened : World := World.start (newStore demoOptions) uploadFiles []

/-- The notification, its staging, the enqueue and the acknowledgement. -/
def uploadIngest : List Input :=
  [.notify ⟨7, uploadEvent⟩, .ingest demoTurn, .ingest demoTurn, .ingest demoTurn]

def uploadAcked : World := demoAfter uploadConfig uploadIngest uploadOpened

/-- The evidence loop begins a pass, loads the evidence, uploads it, and marks it. -/
def uploadPass : List Input :=
  [.evidence demoTurn none, .evidence demoTurn none, .evidence demoTurn none,
    .evidence demoTurn none]

def uploaded : World := demoAfter uploadConfig uploadPass uploadAcked

/-- The notification comes again, and the evidence loop makes another pass. -/
def uploadReplay : List Input :=
  [.notify ⟨7, uploadEvent⟩, .ingest demoTurn, .ingest demoTurn, .evidence demoTurn none,
    .evidence demoTurn none]

def uploadedAgain : World := demoAfter uploadConfig uploadReplay uploaded

def uploadSent (w : World) : Bool :=
  (lookup uploadKey w.store.records).any fun r => r.evidenceState == .sent

def Output.isUpload : Output → Bool
  | .upload .. => true
  | _ => false

theorem upload_facts :
    demoPasses uploadConfig (fun _ => true) uploadIngest uploadOpened = true ∧
    demoPasses uploadConfig (fun _ => true) uploadPass uploadAcked = true ∧
    (demoOutputs uploadConfig uploadPass uploadAcked).any Output.isUpload = true ∧
    uploaded.ingest.job.isNone = true ∧
    demoPasses uploadConfig uploadSent uploadReplay uploaded = true ∧
    defaultMaximum uploadConfig.retryBase uploadConfig.retryMax < 2 ^ 63 := by
  decide +kernel

theorem uploadSent_iff {w : World} : uploadSent w = true ↔
    ∃ r, lookup uploadKey w.store.records = some r ∧ r.evidenceState = .sent := by
  rw [uploadSent, Option.any_eq_true_iff_get]
  constructor
  · rintro ⟨hs, hp⟩
    exact ⟨_, (Option.some_get hs).symm, eq_of_beq hp⟩
  · rintro ⟨r, hr, hp⟩
    refine ⟨by rw [hr]; rfl, ?_⟩
    simp only [hr, Option.get_some, hp, beq_self_eq_true]

theorem upload_calm : ∀ i ∈ uploadIngest ++ uploadPass ++ uploadReplay, i.Calm uploadConfig := by
  have hturn := fun i => @calm_turn uploadConfig upload_facts.2.2.2.2.2 i
  have hnotify : (Input.notify ⟨7, uploadEvent⟩).Calm uploadConfig :=
    calm_notify uploadEvent_portable (show 7 < 2 ^ 64 by decide)
  intro i hi
  have hcase : i = .notify ⟨7, uploadEvent⟩ ∨ i = .ingest demoTurn ∨
      i = .evidence demoTurn none := by
    simp only [uploadIngest, uploadPass, uploadReplay, List.mem_append, List.mem_cons,
      List.not_mem_nil, or_false] at hi
    tauto
  rcases hcase with rfl | rfl | rfl
  · exact hnotify
  · exact hturn _ (.inl rfl)
  · exact hturn _ (.inr ⟨none, .inr rfl⟩)

theorem uploadAcked_reachable :
    Reachable zeroSha uploadConfig (fun _ => 0) smooth uploadAcked :=
  (@demoPasses_run smooth (fun _ => True) uploadConfig _ _ _ (fun _ _ => trivial)
    (fun i hi => upload_calm i (List.mem_append_left _ (List.mem_append_left _ hi)))
    upload_facts.1).reachable (demo_opened uploadConfig rfl uploadFiles)

theorem evidence_sink_demo :
    (∃ x metadata image answer,
      .upload x metadata image answer ∈ demoOutputs uploadConfig uploadPass uploadAcked ∧
        Loadable zeroSha uploadConfig (fun _ => 0) True x.event metadata image) ∧
    (∃ r, lookup uploadKey uploadedAgain.store.records = some r ∧ r.evidenceState = .sent) ∧
    ∀ x metadata image answer, .upload x metadata image answer ∈
      demoOutputs uploadConfig uploadReplay uploaded → x.key ≠ uploadKey := by
  obtain ⟨-, hpass, hany, hidle, hreplay, -⟩ := upload_facts
  have hu : Usable uploadConfig.options := demoOptions_usable
  have hacked := @uploadAcked_reachable True
  have hrun := @demoPasses_run True (fun _ => True) uploadConfig _ _ _ (fun _ _ => trivial)
    (fun i hi => upload_calm i (List.mem_append_left _ (List.mem_append_right _ hi))) hpass
  have hagain := @demoPasses_run True (Holds uploadKey) uploadConfig _ _ _
    (fun u h => (uploadSent_iff.mp h).imp fun r hr => hr.1)
    (fun i hi => upload_calm i (List.mem_append_right _ hi)) hreplay
  obtain ⟨r, hr, hsent⟩ := uploadSent_iff.mp (demoPasses_first hreplay)
  have hns : ¬ Stale uploadConfig uploadKey uploaded := by
    rintro ⟨job, hjob, -⟩
    rw [Option.isNone_iff_eq_none] at hidle
    rw [hidle] at hjob
    cases hjob
  obtain ⟨o, ho, hup⟩ := List.any_eq_true.mp hany
  refine ⟨?_, (evidence_sink hu (hrun.reachable hacked)).2 _ _ hr hsent hns _ _ _ hagain⟩
  cases o with
  | upload x metadata image answer =>
    exact ⟨x, metadata, image, answer, ho, (evidence_sink hu hacked).1 _ _ _ _ hrun _ _ _ _ ho⟩
  | message | returned | gaveUp => cases hup

/-! ## Waiting records -/

/-- The outbox has no record under the key that no sink waits for. -/
def Wanted (k : Bytes) (w : World) : Prop :=
  ∀ r, lookup k w.store.records = some r → Waiting r

theorem wanted_step (h : Inv sha cfg w) (hw : Wanted k w) (i : Input)
    (hr : lookup k w.store.records = some r) :
    ∃ r', lookup k (step sha cfg zone w i).1.store.records = some r' := by
  rw [step_store]
  refine callStore_cases (fun s => ∃ r', lookup k s.records = some r') ⟨r, hr⟩ fun t c hc => ?_
  cases @call_record t.env c w.store h.sound.wf k with
  | same heq => exact ⟨r, heq.trans hr⟩
  | changed _ _ _ hnew => exact ⟨_, hnew⟩
  | added _ _ _ _ hnew => exact ⟨_, hnew⟩
  | removed _ _ hx hnot _ => exact absurd (hw _ hx) hnot

/-- **The outbox keeps what a sink waits for**: a record stays as long as its alarm is pending, or
its evidence is pending or being staged, whatever the loops do and whatever fails. -/
theorem waiting_kept (hu : Usable cfg.options) (h : Reachable sha cfg zone smooth w)
    (hr : lookup k w.store.records = some r)
    (hrun : Run sha cfg zone smooth (Wanted k) w outs n w') :
    ∃ r', lookup k w'.store.records = some r' ∧ Waiting r' ∧ r'.event = r.event ∧
      r'.alarmSN = r.alarmSN := by
  suffices hkept : ∃ r', lookup k w'.store.records = some r' ∧ r'.event = r.event ∧
      r'.alarmSN = r.alarmSN by
    obtain ⟨r', hr', hsame⟩ := hkept
    exact ⟨r', hr', hrun.stays_last r' hr', hsame⟩
  induction hrun with
  | refl => exact ⟨r, hr, rfl, rfl⟩
  | @step u outs n i hrun hi hs hstays ih =>
    obtain ⟨x, hx, hev, hsn⟩ := ih
    have hinv := (reachable_inv hu (hrun.reachable h)).1
    obtain ⟨x', hx'⟩ := @wanted_step sha cfg zone u k x hinv hrun.stays_last i hx
    refine ⟨x', hx', ?_⟩
    rcases step_held hinv i hx hx' with rfl | ⟨t, c, update, -, hch, -, rfl⟩
    · exact ⟨hev, hsn⟩
    · obtain ⟨hev', hsn', -⟩ := changes_keeps hch x
      exact ⟨hev'.trans hev, hsn'.trans hsn⟩
  | @restart u outs n s io disk staged source hs hrun ho hstays ih =>
    obtain ⟨x, hx, hev, hsn⟩ := ih
    have hm := (restart_mirrors hu hs (hrun.reachable h) ho).2 k
    rw [hx, Option.map_some] at hm
    obtain ⟨x', hx', hstrip⟩ := Option.map_eq_some_iff.mp hm
    have hpart := strip_alarmPart hstrip
    have hev' : x'.event = x.event := congrArg (fun p => p.1) hpart
    have hsn' : x'.alarmSN = x.alarmSN := congrArg (fun p => p.2.2.1) hpart
    exact ⟨x', hx', hev'.trans hev, hsn'.trans hsn⟩

theorem waiting_kept_demo :
    ∃ r', lookup demoKey demoMarked.store.records = some r' ∧ Waiting r' ∧
      r'.event = demoHeld.event ∧ r'.alarmSN = demoHeld.alarmSN := by
  have hrun := @demo_run False (Wanted demoKey) fun u hp => by
    obtain ⟨r, hr, hstate⟩ := demoPending_iff.mp hp
    intro r' hr'
    rw [hr] at hr'
    cases hr'
    exact .inl hstate
  have hu : Usable demoFilled.options := demoOptions_usable
  exact waiting_kept hu demoIngested_reachable demoHeld_lookup.1 hrun

end FlowAlarm.Delivery
