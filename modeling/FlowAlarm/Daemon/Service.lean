import FlowAlarm.Daemon.Delivery
import FlowAlarm.Daemon.Decoding
import FlowAlarm.Daemon.Records

/-!
# Runs of the delivery service

The worlds a service reaches when its loops take their steps in any order, with
any answers and, within one life of the process, any faults. `reachable_inv` is
the invariant that ties each loop to the outbox; with it comes that the outbox
only ever sees the calls its own runs are made of.
-/

namespace FlowAlarm.Delivery

open FlowAlarm.Text FlowAlarm.Media FlowAlarm.Evidence FlowAlarm.Outbox FlowAlarm.GbXml
open FlowAlarm.Wire (EventNotification)

variable {sha : Sha256} {cfg : Config} {zone : Zone}

/-! ## The call of a step -/

def Ingest.call (cfg : Config) (t : Turn) : Ingest → Option Call
  | .idle | .staging _ _ => none
  | .enqueue job _ => some (.enqueue job.event job.notification.cursor
      (alarmEnabled cfg job.event.phase) cfg.evidenceEnabled)
  | .requeue _ _ r => some (.evidenceState r.key .pending none)
  | .failed _ r _ => some (.stagingFailure r.key (some t.cause)
      (decide (cfg.maxAttempts ≤ r.evidenceAttempts + 1)))
  | .ack job _ | .giveUp job _ => some (.ack job.notification.cursor)

def AlarmLoop.call (cfg : Config) (t : Turn) : AlarmLoop → Option Call
  | .idle | .pass _ [] => none
  | .pass now (r :: _) =>
    if 0 < r.alarmNextRetryAtUnixNano ∧ now < r.alarmNextRetryAtUnixNano then none
    else if r.alarmSN = 0 ∨ trimSpace r.event.channelID = [] then
      some (.alarmAttempt r.key (some invalidAlarm) true none)
    else none
  | .sent _ r none _ => some (.alarmSent r.key)
  | .sent _ r (some cause) _ =>
    some (attemptCall .alarmAttempt cfg t r.alarmAttempts r.key cause)

def EvidenceLoop.call (cfg : Config) (t : Turn) : EvidenceLoop → Option Call
  | .sent _ r none _ => some (.evidenceSent r.key)
  | .sent _ r (some cause) _ =>
    some (attemptCall .evidenceAttempt cfg t r.evidenceAttempts r.key cause)
  | .idle | .pass _ _ | .loaded .. | .removing .. => none

/-- The call of the outbox that an input makes, if any. -/
def Input.call (cfg : Config) (w : World) : Input → Option (Turn × Call)
  | .ingest t => (w.ingest.call cfg t).map (t, ·)
  | .alarm t _ => (w.alarm.call cfg t).map (t, ·)
  | .evidence t _ => (w.evidence.call cfg t).map (t, ·)
  | .engine _ | .notify _ | .cancelAlarm | .cancelEvidence => none

/-- The store after a call, if there is one. -/
def callStore (s : Store) : Option (Turn × Call) → Store
  | none => s
  | some (t, c) => (c.run t.env s).2

/-- What a step of `ingest` can do, by what it was about to do. -/
inductive IngestStep (sha : Sha256) (cfg : Config) (t : Turn) (w : World) :
    Ingest → World → List Output → Prop where
  | idle : IngestStep sha cfg t w .idle w []
  | stagingOn {job : Job} {st st' : Staging} {files : Directory.Files} :
      stageStep sha cfg.toEvidenceConfig w.source t.io job.event w.staged st = (st', files) →
      (∀ r, st' ≠ .finished r) → IngestStep sha cfg t w (.staging job st)
        { w with staged := files, ingest := .staging job st' } []
  | staged {job : Job} {st : Staging} {result : Except StageErr (Bytes × Bytes)}
      {files : Directory.Files} :
      stageStep sha cfg.toEvidenceConfig w.source t.io job.event w.staged st =
        (.finished result, files) → IngestStep sha cfg t w (.staging job st)
        { w with staged := files, ingest := .enqueue job (some result) } []
  | enqueued {job : Job} {staged : Staged} {result : Except Err (Record × Bool)} {s : Store} :
      enqueueWithEvidence t.env job.event job.notification.cursor
        (alarmEnabled cfg job.event.phase) cfg.evidenceEnabled w.store = (result, s) →
      IngestStep sha cfg t w (.enqueue job staged)
        { w with store := s, ingest := (Delivery.enqueued job staged result).1 }
        (Delivery.enqueued job staged result).2
  | requeued {job : Job} {staged : Staged} {r : Record} {s : Store} :
      (Call.evidenceState r.key .pending none).run t.env w.store = (none, s) →
      IngestStep sha cfg t w (.requeue job staged r)
        { w with store := s, ingest := .ack job staged } []
  | requeueFailed {job : Job} {staged : Staged} {r : Record} {s : Store} {e : Err} :
      (Call.evidenceState r.key .pending none).run t.env w.store = (some e, s) →
      IngestStep sha cfg t w (.requeue job staged r) { w with store := s, ingest := .idle }
        [.returned job.notification (some (.outbox e))]
  | stagingFailed {job : Job} {r updated : Record} {e : StageErr} {s : Store} :
      ¬ cfg.maxAttempts ≤ r.evidenceAttempts + 1 →
      markEvidenceStagingFailure t.env r.key (some t.cause) false w.store = (.ok updated, s) →
      IngestStep sha cfg t w (.failed job r e) { w with store := s, ingest := .idle }
        [.returned job.notification (some (.staging e))]
  | stagingOver {job : Job} {r updated : Record} {e : StageErr} {s : Store} :
      cfg.maxAttempts ≤ r.evidenceAttempts + 1 →
      markEvidenceStagingFailure t.env r.key (some t.cause) true w.store = (.ok updated, s) →
      IngestStep sha cfg t w (.failed job r e) { w with store := s, ingest := .giveUp job updated }
        []
  | markFailed {job : Job} {r : Record} {e : StageErr} {err : Err} {s : Store} :
      markEvidenceStagingFailure t.env r.key (some t.cause)
        (decide (cfg.maxAttempts ≤ r.evidenceAttempts + 1)) w.store = (.error err, s) →
      IngestStep sha cfg t w (.failed job r e) { w with store := s, ingest := .idle }
        [.returned job.notification (some (.outbox err))]
  | acked {job : Job} {staged : Staged} {result : Option Err} {s : Store} :
      (Call.ack job.notification.cursor).run t.env w.store = (result, s) →
      IngestStep sha cfg t w (.ack job staged) { w with store := s, ingest := .idle }
        [.returned job.notification (result.map .outbox)]
  | gaveUp {job : Job} {updated : Record} {s : Store} :
      (Call.ack job.notification.cursor).run t.env w.store = (none, s) →
      IngestStep sha cfg t w (.giveUp job updated) { w with store := s, ingest := .idle }
        [.gaveUp updated, .returned job.notification none]
  | giveUpFailed {job : Job} {updated : Record} {s : Store} {e : Err} :
      (Call.ack job.notification.cursor).run t.env w.store = (some e, s) →
      IngestStep sha cfg t w (.giveUp job updated) { w with store := s, ingest := .idle }
        [.returned job.notification (some (.outbox e))]

theorem stepIngest_cases (sha : Sha256) (cfg : Config) (t : Turn) (w : World) :
    IngestStep sha cfg t w w.ingest (stepIngest sha cfg t w).1 (stepIngest sha cfg t w).2 := by
  cases hpc : w.ingest with
  | idle =>
    simp only [stepIngest, hpc]
    exact .idle
  | staging job st =>
    simp only [stepIngest, hpc]
    split
    next result hres => exact .staged (Prod.ext hres rfl)
    next hne => exact .stagingOn rfl fun r hr => hne r hr
  | enqueue job staged =>
    simp only [stepIngest, hpc]
    exact .enqueued rfl
  | requeue job staged r =>
    simp only [stepIngest, hpc]
    split
    next hres => exact .requeued (Prod.ext hres rfl)
    next e hres => exact .requeueFailed (Prod.ext hres rfl)
  | failed job r e =>
    simp only [stepIngest, hpc]
    split
    next err hres => exact .markFailed (Prod.ext hres rfl)
    next updated hres =>
      split
      next hfinal =>
        rw [hfinal] at hres ⊢
        exact .stagingOver (of_decide_eq_true hfinal) (Prod.ext hres rfl)
      next hfinal =>
        rw [Bool.not_eq_true] at hfinal
        rw [hfinal] at hres ⊢
        exact .stagingFailed (of_decide_eq_false hfinal) (Prod.ext hres rfl)
  | ack job staged =>
    simp only [stepIngest, hpc]
    exact .acked rfl
  | giveUp job updated =>
    simp only [stepIngest, hpc]
    split
    next e hres => exact .giveUpFailed (Prod.ext hres rfl)
    next hres => exact .gaveUp (Prod.ext hres rfl)

theorem IngestStep.store {t : Turn} {w w' : World} {pc : Ingest} {out : List Output}
    (h : IngestStep sha cfg t w pc w' out) :
    w'.store = callStore w.store ((pc.call cfg t).map (t, ·)) := by
  cases h with
  | idle | stagingOn | staged => rfl
  | enqueued h => exact (congrArg Prod.snd h).symm
  | requeued h => exact (congrArg Prod.snd h).symm
  | requeueFailed h => exact (congrArg Prod.snd h).symm
  | stagingFailed hf h =>
    rw [Ingest.call, decide_eq_false hf]
    exact (congrArg Prod.snd h).symm
  | stagingOver hf h =>
    rw [Ingest.call, decide_eq_true hf]
    exact (congrArg Prod.snd h).symm
  | markFailed h => exact (congrArg Prod.snd h).symm
  | acked h => exact (congrArg Prod.snd h).symm
  | gaveUp h => exact (congrArg Prod.snd h).symm
  | giveUpFailed h => exact (congrArg Prod.snd h).symm

theorem IngestStep.loops {t : Turn} {w w' : World} {pc : Ingest} {out : List Output}
    (h : IngestStep sha cfg t w pc w' out) : w'.alarm = w.alarm ∧ w'.evidence = w.evidence := by
  cases h <;> exact ⟨rfl, rfl⟩

theorem stepAlarm_store (t : Turn) (answer : Option Bytes) (w : World) :
    (stepAlarm cfg zone t answer w).1.store =
      callStore w.store ((w.alarm.call cfg t).map (t, ·)) := by
  unfold stepAlarm
  cases w.alarm with
  | idle => rfl
  | pass now rest =>
    cases rest with
    | nil => rfl
    | cons r rest =>
      dsimp only [AlarmLoop.call]
      split
      · rfl
      · split <;> rfl
  | sent now r answer rest => cases answer <;> rfl

theorem stepEvidence_store (t : Turn) (answer : Option Bytes) (w : World) :
    (stepEvidence sha cfg t answer w).1.store =
      callStore w.store ((w.evidence.call cfg t).map (t, ·)) := by
  unfold stepEvidence
  cases w.evidence with
  | idle =>
    dsimp only
    split <;> rfl
  | pass now rest =>
    cases rest with
    | nil => rfl
    | cons r rest =>
      dsimp only
      split
      · rfl
      · split <;> rfl
  | loaded => rfl
  | sent now r answer rest => cases answer <;> rfl
  | removing now names rest => cases names <;> rfl

/-- **A step changes the outbox by its call.** -/
theorem step_store (w : World) (i : Input) :
    (step sha cfg zone w i).1.store = callStore w.store (i.call cfg w) := by
  cases i with
  | engine => rfl
  | notify n =>
    dsimp only [step]
    split <;> rfl
  | ingest t => exact (stepIngest_cases sha cfg t w).store
  | alarm t answer => exact stepAlarm_store t answer w
  | evidence t answer => exact stepEvidence_store t answer w
  | cancelAlarm =>
    dsimp only [step]
    split <;> rfl
  | cancelEvidence =>
    dsimp only [step]
    split <;> rfl

/-! ## What a step leaves to the other loops -/

theorem stepAlarm_loops (t : Turn) (answer : Option Bytes) (w : World) :
    (stepAlarm cfg zone t answer w).1.ingest = w.ingest ∧
      (stepAlarm cfg zone t answer w).1.evidence = w.evidence := by
  unfold stepAlarm
  cases w.alarm with
  | idle => exact ⟨rfl, rfl⟩
  | pass now rest =>
    cases rest with
    | nil => exact ⟨rfl, rfl⟩
    | cons r rest =>
      dsimp only
      split
      · exact ⟨rfl, rfl⟩
      · split <;> exact ⟨rfl, rfl⟩
  | sent now r answer rest => cases answer <;> exact ⟨rfl, rfl⟩

theorem stepEvidence_loops (t : Turn) (answer : Option Bytes) (w : World) :
    (stepEvidence sha cfg t answer w).1.ingest = w.ingest ∧
      (stepEvidence sha cfg t answer w).1.alarm = w.alarm := by
  unfold stepEvidence
  cases w.evidence with
  | idle =>
    dsimp only
    split <;> exact ⟨rfl, rfl⟩
  | pass now rest =>
    cases rest with
    | nil => exact ⟨rfl, rfl⟩
    | cons r rest =>
      dsimp only
      split
      · exact ⟨rfl, rfl⟩
      · split <;> exact ⟨rfl, rfl⟩
  | loaded => exact ⟨rfl, rfl⟩
  | sent now r answer rest => cases answer <;> exact ⟨rfl, rfl⟩
  | removing now names rest => cases names <;> exact ⟨rfl, rfl⟩

/-! ## The alarm side -/

/-- The part of a record that belongs to the alarm sink. -/
def alarmPart (r : Record) : AnalyticsEvent × SinkState × Nat × Int :=
  (r.event, r.alarmState, r.alarmSN, r.alarmAttempts)

/-- The records the alarm loop has yet to deal with. -/
def AlarmLoop.records : AlarmLoop → List Record
  | .idle => []
  | .pass _ rest => rest
  | .sent _ r _ rest => r :: rest

/-- The records of the alarm loop are pending, as they are in the outbox. -/
structure Pending (s : Store) (rs : List Record) : Prop where
  nodup : (rs.map Record.key).Nodup
  held : ∀ r ∈ rs, r.alarmState = .pending ∧
    ∃ x, lookup r.key s.records = some x ∧ alarmPart x = alarmPart r

/-- A call that leaves the alarm part of every record as it is. -/
def SparesAlarms (c : Call) : Prop :=
  ∀ k update, c.changes = some (k, update) → ∀ r, alarmPart (update r) = alarmPart r

theorem pending_alarmState {x r : Record} (h : alarmPart x = alarmPart r)
    (hr : r.alarmState = .pending) : x.alarmState = .pending := by
  have := congrArg (fun p => p.2.1) h
  exact this.trans hr

theorem Pending.spared {s : Store} {rs : List Record} (h : Pending s rs)
    (hw : WF s.deviceID s.toMemory) {c : Call} (hc : SparesAlarms c) (env : Env) :
    Pending (c.run env s).2 rs := by
  refine ⟨h.nodup, fun r hr => ?_⟩
  obtain ⟨hp, x, hx, hpart⟩ := h.held r hr
  refine ⟨hp, ?_⟩
  cases @call_record env c s hw r.key with
  | same heq => exact ⟨x, heq.trans hx, hpart⟩
  | changed hch _ hx' hnew =>
    rw [hx] at hx'
    cases hx'
    exact ⟨_, hnew, (hc _ _ hch _).trans hpart⟩
  | added _ _ _ hnone _ =>
    rw [hx] at hnone
    cases hnone
  | removed _ _ hx' hnot _ =>
    rw [hx] at hx'
    cases hx'
    exact absurd (.inl (pending_alarmState hpart hp)) hnot

/-- A call about the record at the front leaves the others pending. -/
theorem Pending.tail {s : Store} {r : Record} {rs : List Record} (h : Pending s (r :: rs))
    (hw : WF s.deviceID s.toMemory) {c : Call} {update : Record → Record}
    (hc : c.changes = some (r.key, update)) (env : Env) : Pending (c.run env s).2 rs := by
  obtain ⟨hnot, hnodup⟩ := List.nodup_cons.mp h.nodup
  refine ⟨hnodup, fun r' hr' => ?_⟩
  obtain ⟨hp, x, hx, hpart⟩ := h.held r' (List.mem_cons_of_mem _ hr')
  refine ⟨hp, ?_⟩
  have hne : r.key ≠ r'.key := fun he => hnot (List.mem_map.mpr ⟨r', hr', he.symm⟩)
  cases @call_record env c s hw r'.key with
  | same heq => exact ⟨x, heq.trans hx, hpart⟩
  | changed hch =>
    exact absurd (congrArg Prod.fst (Option.some.inj (hc.symm.trans hch))) hne
  | added _ _ _ hnone _ =>
    rw [hx] at hnone
    cases hnone
  | removed he => rw [he] at hc; cases hc

theorem Pending.cons_tail {s : Store} {r : Record} {rs : List Record} (h : Pending s (r :: rs)) :
    Pending s rs :=
  ⟨(List.nodup_cons.mp h.nodup).2, fun r' hr' => h.held r' (List.mem_cons_of_mem _ hr')⟩

theorem pending_nil (s : Store) : Pending s [] := ⟨List.nodup_nil, by simp⟩

theorem nodup_sortRecords {rs : List Record} {p : Record → Bool}
    (hu : Keyed.Unique Record.key rs) : ((sortRecords (rs.filter p)).map Record.key).Nodup := by
  have hperm : (sortRecords (rs.filter p)).Perm (rs.filter p) := List.perm_insertionSort _ _
  exact (hperm.map Record.key).nodup_iff.mpr (hu.sublist (List.filter_sublist.map _))

/-- A pass begins with the pending records. -/
theorem pending_pendingAlarms {s : Store} (hw : WF s.deviceID s.toMemory) :
    Pending s (pendingAlarms s) := by
  refine ⟨nodup_sortRecords hw.unique, fun r hr => ?_⟩
  rw [pendingAlarms, mem_sortRecords, List.mem_filter, beq_iff_eq] at hr
  exact ⟨hr.2, r, Keyed.lookup_of_mem hw.unique hr.1, rfl⟩

/-! ## The evidence side -/

/-- The records the evidence loop may yet mark. -/
def EvidenceLoop.records : EvidenceLoop → List Record
  | .idle => []
  | .pass _ rest | .removing _ _ rest => rest
  | .loaded _ r _ _ rest | .sent _ r _ rest => r :: rest

/-- No evidence of the records is recorded as delivered. -/
structure Undelivered (s : Store) (rs : List Record) : Prop where
  nodup : (rs.map Record.key).Nodup
  held : ∀ r ∈ rs, ∀ x, lookup r.key s.records = some x → x.evidenceState ≠ .sent

/-- A call that delivers no evidence. -/
def DeliversNone (c : Call) : Prop :=
  ∀ k update, c.changes = some (k, update) →
    ∀ r, r.evidenceState ≠ .sent → (update r).evidenceState ≠ .sent

theorem newEvidence_ne_sent (event : AnalyticsEvent) (enabled : Bool) :
    (newEvidence event enabled).1 ≠ .sent := by
  unfold newEvidence
  split
  · split
    · simp
    · split <;> simp
  · simp

theorem Undelivered.spared {s : Store} {rs : List Record} (h : Undelivered s rs)
    (hw : WF s.deviceID s.toMemory) {c : Call} (hc : DeliversNone c) (env : Env) :
    Undelivered (c.run env s).2 rs := by
  refine ⟨h.nodup, fun r hr x hx => ?_⟩
  cases @call_record env c s hw r.key with
  | same heq => exact h.held r hr x (heq.symm.trans hx)
  | changed hch _ hold hnew =>
    rw [hnew] at hx
    cases hx
    exact hc _ _ hch _ (h.held r hr _ hold)
  | added _ _ _ _ hnew =>
    rw [hnew] at hx
    cases hx
    exact newEvidence_ne_sent _ _
  | removed _ _ _ _ hnone =>
    rw [hnone] at hx
    cases hx

/-- A call about the record at the front delivers none of the others. -/
theorem Undelivered.tail {s : Store} {r : Record} {rs : List Record} (h : Undelivered s (r :: rs))
    (hw : WF s.deviceID s.toMemory) {c : Call} {update : Record → Record}
    (hc : c.changes = some (r.key, update)) (env : Env) : Undelivered (c.run env s).2 rs := by
  obtain ⟨hnot, hnodup⟩ := List.nodup_cons.mp h.nodup
  refine ⟨hnodup, fun r' hr' x hx => ?_⟩
  have hne : r.key ≠ r'.key := fun he => hnot (List.mem_map.mpr ⟨r', hr', he.symm⟩)
  cases @call_record env c s hw r'.key with
  | same heq => exact h.held r' (List.mem_cons_of_mem _ hr') x (heq.symm.trans hx)
  | changed hch => exact absurd (congrArg Prod.fst (Option.some.inj (hc.symm.trans hch))) hne
  | added he => rw [he] at hc; cases hc
  | removed he => rw [he] at hc; cases hc

theorem Undelivered.cons_tail {s : Store} {r : Record} {rs : List Record}
    (h : Undelivered s (r :: rs)) : Undelivered s rs :=
  ⟨(List.nodup_cons.mp h.nodup).2, fun r' hr' => h.held r' (List.mem_cons_of_mem _ hr')⟩

theorem undelivered_nil (s : Store) : Undelivered s [] := ⟨List.nodup_nil, by simp⟩

theorem undelivered_pendingEvidence {s : Store} (hw : WF s.deviceID s.toMemory) :
    Undelivered s (pendingEvidence s) := by
  refine ⟨nodup_sortRecords hw.unique, fun r hr x hx => ?_⟩
  rw [pendingEvidence, mem_sortRecords, List.mem_filter, beq_iff_eq] at hr
  rw [lookup, Keyed.lookup_of_mem hw.unique hr.1] at hx
  cases hx
  rw [hr.2]
  exact SinkState.noConfusion

/-! ## The ingesting side -/

/-- What came of staging the evidence of a job: nothing, where it was not required; an error; or
evidence that was there. -/
def Staged.Of (sha : Sha256) (cfg : Config) (job : Job) (staged : Staged) : Prop :=
  (staged = none ↔ job.stageRequired cfg = false) ∧
    ∀ pair, staged = some (.ok pair) →
      ∃ files, loadEvidence sha cfg.evidenceOutboxDir files job.event = .ok pair

/-- The outbox has a record of the event. -/
def Recorded (cfg : Config) (s : Store) (event : AnalyticsEvent) : Prop :=
  ∃ r, lookup (keyOf cfg.deviceID event) s.records = some r

/-- What `ingest` knows of its job. -/
def Ingest.Known (sha : Sha256) (cfg : Config) (s : Store) : Ingest → Prop
  | .idle => True
  | .staging job st => job.stageRequired cfg = true ∧ ∀ r, st ≠ .finished r
  | .enqueue job staged => staged.Of sha cfg job
  | .requeue job staged r => staged.Of sha cfg job ∧ (∃ pair, staged = some (.ok pair)) ∧
    r.key = keyOf cfg.deviceID job.event ∧ Recorded cfg s job.event
  | .failed job r _ => job.stageRequired cfg = true ∧ r.key = keyOf cfg.deviceID job.event ∧
    Recorded cfg s job.event
  | .ack job staged => staged.Of sha cfg job ∧ (∀ e, staged ≠ some (.error e)) ∧
    (Recorded cfg s job.event ∨ job.event.phase = eventPhaseUpdate)
  | .giveUp job updated => job.stageRequired cfg = true ∧ Recorded cfg s job.event ∧
    updated.key = keyOf cfg.deviceID job.event ∧ updated.evidenceState = .dead

/-- A record stays through every call but an enqueue of another event. -/
theorem recorded_call {s : Store} (hw : WF s.deviceID s.toMemory) {event : AnalyticsEvent}
    (h : Recorded cfg s event) {c : Call} (hc : ∀ e n a b, c ≠ .enqueue e n a b) (env : Env) :
    Recorded cfg (c.run env s).2 event := by
  obtain ⟨r, hr⟩ := h
  cases @call_record env c s hw (keyOf cfg.deviceID event) with
  | same heq => exact ⟨r, heq.trans hr⟩
  | changed _ _ _ hnew => exact ⟨_, hnew⟩
  | added he => exact absurd he (hc _ _ _ _)
  | removed he => exact absurd he (hc _ _ _ _)

def Ingest.job : Ingest → Option Job
  | .idle => none
  | .staging job _ | .enqueue job _ | .requeue job _ _ | .failed job _ _ | .ack job _
  | .giveUp job _ => some job

/-! ## The calls of each loop -/

theorem ingest_spares {t : Turn} {pc : Ingest} {c : Call} (h : pc.call cfg t = some c) :
    SparesAlarms c ∧ DeliversNone c := by
  cases pc with
  | idle | staging => cases h
  | enqueue | ack | giveUp =>
    cases h
    exact ⟨fun _ _ h => (by cases h), fun _ _ h => (by cases h)⟩
  | requeue job staged r =>
    cases h
    constructor
    · rintro k update ⟨⟩ x
      rfl
    · rintro k update ⟨⟩ x -
      exact SinkState.noConfusion
  | failed job r e =>
    cases h
    constructor
    · rintro k update ⟨⟩ x
      rfl
    · rintro k update ⟨⟩ x -
      cases decide (cfg.maxAttempts ≤ r.evidenceAttempts + 1) <;> exact SinkState.noConfusion

theorem alarm_calls {t : Turn} {pc : AlarmLoop} {c : Call} (h : pc.call cfg t = some c) :
    (∃ r rest, pc.records = r :: rest ∧ ((c = .alarmSent r.key) ∨
      ∃ cause final retryAt, c = .alarmAttempt r.key cause final retryAt)) ∧
    DeliversNone c ∧ ∀ e n a b, c ≠ .enqueue e n a b := by
  have spares : ∀ {key : Bytes}, DeliversNone (.alarmSent key) ∧
      ∀ cause final retryAt, DeliversNone (.alarmAttempt key cause final retryAt) := by
    intro key
    constructor
    · rintro k update ⟨⟩ x hx
      exact hx
    · rintro cause final retryAt k update ⟨⟩ x hx
      exact hx
  cases pc with
  | idle => cases h
  | pass now rest =>
    cases rest with
    | nil => cases h
    | cons r rest =>
      dsimp only [AlarmLoop.call] at h
      split at h
      · cases h
      split at h
      · cases h
        exact ⟨⟨r, rest, rfl, .inr ⟨_, _, _, rfl⟩⟩, spares.2 _ _ _, fun _ _ _ _ => Call.noConfusion⟩
      · cases h
  | sent now r answer rest =>
    cases answer with
    | none =>
      cases h
      exact ⟨⟨r, rest, rfl, .inl rfl⟩, spares.1, fun _ _ _ _ => Call.noConfusion⟩
    | some cause =>
      cases h
      exact ⟨⟨r, rest, rfl, .inr ⟨_, _, _, rfl⟩⟩, spares.2 _ _ _, fun _ _ _ _ => Call.noConfusion⟩

theorem evidence_calls {t : Turn} {pc : EvidenceLoop} {c : Call} (h : pc.call cfg t = some c) :
    (∃ r rest update, pc.records = r :: rest ∧ c.changes = some (r.key, update)) ∧
    SparesAlarms c ∧ ∀ e n a b, c ≠ .enqueue e n a b := by
  cases pc with
  | idle | pass | loaded | removing => cases h
  | sent now r answer rest =>
    cases answer with
    | none =>
      cases h
      refine ⟨⟨r, rest, _, rfl, rfl⟩, ?_, fun _ _ _ _ => Call.noConfusion⟩
      rintro k update ⟨⟩ x
      rfl
    | some cause =>
      cases h
      refine ⟨⟨r, rest, _, rfl, rfl⟩, ?_, fun _ _ _ _ => Call.noConfusion⟩
      rintro k update ⟨⟩ x
      rfl

/-! ## Runs -/

/-- Inputs the service can get: events that came out of a JSON decoder, and times within the range
of `UnixNano`. -/
def Input.Typed (cfg : Config) : Input → Prop
  | .notify n => Portable n.event ∧ n.cursor < 2 ^ 64
  | .ingest t | .alarm t _ | .evidence t _ => ∀ attempt, InTime (retryAt cfg t attempt)
  | .engine _ | .cancelAlarm | .cancelEvidence => True

/-- What the connection hands on to the service is such an input, whatever came over the wire. -/
theorem typed_of_consumed {line : Bytes} {n : EventNotification}
    (h : Wire.consumeEvent line = some n) : (Input.notify n).Typed cfg := by
  obtain ⟨hportable, hcursor, -⟩ := Wire.consumeEvent_portable h
  exact ⟨hportable, hcursor⟩

/-- The call that an input makes meets no fault and succeeds, or drops an UPDATE. -/
def Input.Smooth (cfg : Config) (w : World) (i : Input) : Prop :=
  ∀ t c, i.call cfg w = some (t, c) → Outbox.Smooth t.env (c.run t.env w.store).1 w.store

/-- The worlds a service reaches. Its process restarts only in `smooth` runs, with an evidence
directory that may have been cleaned up in any way. -/
inductive Reachable (sha : Sha256) (cfg : Config) (zone : Zone) (smooth : Prop) : World → Prop where
  | opened {s : Store} {disk : Bytes} {staged source : Directory.Files} :
      openStore cfg.options .done [] = (.ok s, disk) →
      Reachable sha cfg zone smooth (World.start s staged source)
  | stepped {w : World} {i : Input} : Reachable sha cfg zone smooth w → i.Typed cfg →
      (smooth → i.Smooth cfg w) → Reachable sha cfg zone smooth (step sha cfg zone w i).1
  | restarted {w : World} {s : Store} {io : CompactIo} {disk : Bytes}
      {staged source : Directory.Files} : smooth → Reachable sha cfg zone smooth w →
      openStore cfg.options io w.store.disk = (.ok s, disk) →
      Reachable sha cfg zone smooth (World.start s staged source)

/-- What ties the loops to the outbox. -/
structure Inv (sha : Sha256) (cfg : Config) (w : World) : Prop where
  sound : Sound w.store
  under : Under cfg.options w.store
  alarm : Pending w.store w.alarm.records
  evidence : Undelivered w.store w.evidence.records
  ingest : w.ingest.Known sha cfg w.store
  typed : ∀ job ∈ w.ingest.job, Portable job.event ∧ job.notification.cursor < 2 ^ 64

theorem inTime_ite {t : Turn} (h : ∀ attempt, InTime (retryAt cfg t attempt)) (final : Bool)
    (attempt : Int) : InTime (if final then none else retryAt cfg t attempt) := by
  cases final with
  | true => rintro n ⟨⟩
  | false => exact h attempt

/-- **The service issues its calls as the outbox expects them.** -/
theorem issued_call {w : World} (h : Inv sha cfg w) {i : Input} (hi : i.Typed cfg) {t : Turn}
    {c : Call} (hc : i.call cfg w = some (t, c)) : c.Issued w.store := by
  cases i with
  | engine | notify | cancelAlarm | cancelEvidence => cases hc
  | ingest t =>
    obtain ⟨c', hc', he⟩ := Option.map_eq_some_iff.mp hc
    cases he
    have htyped := h.typed
    generalize w.ingest = pc at hc' htyped
    cases pc with
    | idle | staging => cases hc'
    | enqueue job staged =>
      cases hc'
      exact htyped job rfl
    | requeue job staged r =>
      cases hc'
      exact rfl
    | failed job r e =>
      cases hc'
      trivial
    | ack job staged =>
      cases hc'
      exact (htyped job rfl).2
    | giveUp job updated =>
      cases hc'
      exact (htyped job rfl).2
  | alarm t answer =>
    obtain ⟨c', hc', he⟩ := Option.map_eq_some_iff.mp hc
    cases he
    have hpending := h.alarm
    generalize w.alarm = pc at hc' hpending
    have held : ∀ {r : Record}, r ∈ pc.records → ∀ x, lookup r.key w.store.records = some x →
        x.alarmState = .pending := by
      intro r hr x hx
      obtain ⟨hp, x', hx', hpart⟩ := hpending.held r hr
      rw [hx] at hx'
      cases hx'
      exact pending_alarmState hpart hp
    cases pc with
    | idle => cases hc'
    | pass now rest =>
      cases rest with
      | nil => cases hc'
      | cons r rest =>
        dsimp only [AlarmLoop.call] at hc'
        split at hc'
        · cases hc'
        split at hc'
        · cases hc'
          exact ⟨fun n hn => (by cases hn), held List.mem_cons_self⟩
        · cases hc'
    | sent now r answer rest =>
      cases answer with
      | none =>
        cases hc'
        trivial
      | some cause =>
        cases hc'
        exact ⟨inTime_ite hi _ _, held List.mem_cons_self⟩
  | evidence t answer =>
    obtain ⟨c', hc', he⟩ := Option.map_eq_some_iff.mp hc
    cases he
    generalize w.evidence = pc at hc'
    cases pc with
    | idle | pass | loaded | removing => cases hc'
    | sent now r answer rest =>
      cases answer with
      | none =>
        cases hc'
        trivial
      | some cause =>
        cases hc'
        exact inTime_ite hi _ _

/-! ## The invariant over a step -/

theorem call_kept {s : Store} (hs : Sound s) (hu : Under cfg.options s) {c : Call}
    (hi : c.Issued s) (env : Env) :
    Sound (c.run env s).2 ∧ Under cfg.options (c.run env s).2 :=
  ⟨(call_does hs.wf hi (stages_any s c)).sound hs, (call_does hs.wf hi (stages_any s c)).under hu⟩

theorem known_call {s : Store} (hw : WF s.deviceID s.toMemory) {pc : Ingest}
    (h : pc.Known sha cfg s) {c : Call} (hc : ∀ e n a b, c ≠ .enqueue e n a b) (env : Env) :
    pc.Known sha cfg (c.run env s).2 := by
  cases pc with
  | idle | staging | enqueue => exact h
  | requeue job staged r => exact ⟨h.1, h.2.1, h.2.2.1, recorded_call hw h.2.2.2 hc env⟩
  | failed job r e => exact ⟨h.1, h.2.1, recorded_call hw h.2.2 hc env⟩
  | ack job staged => exact ⟨h.1, h.2.1, h.2.2.imp_left fun hr => recorded_call hw hr hc env⟩
  | giveUp job updated => exact ⟨h.1, recorded_call hw h.2.1 hc env, h.2.2⟩

/-! ### Ingesting -/

theorem stageRequired_start {job : Job} (h : job.stageRequired cfg = true) :
    job.event.phase = eventPhaseStart := by
  simp only [Job.stageRequired, Bool.and_eq_true, beq_iff_eq] at h
  exact h.1.1.2

theorem staged_of_finished {job : Job} (hreq : job.stageRequired cfg = true)
    {source files : Directory.Files} {io : FileIo} {st : Staging} (hst : ∀ r, st ≠ .finished r)
    {result : Except StageErr (Bytes × Bytes)}
    (h : (stageStep sha cfg.toEvidenceConfig source io job.event files st).1 = .finished result) :
    Staged.Of sha cfg job (some result) := by
  refine ⟨by simp [hreq], fun pair hpair => ⟨files, ?_⟩⟩
  cases hpair
  exact (stageStep_ok sha cfg.toEvidenceConfig hst (Prod.ext h rfl)).2

theorem enqueued_known {s s' : Store} (hd : s.deviceID = cfg.deviceID) {env : Env} {job : Job}
    {staged : Staged} (h : staged.Of sha cfg job) {cursor : Nat} {alarm evidence : Bool}
    {result : Except Err (Record × Bool)}
    (he : enqueueWithEvidence env job.event cursor alarm evidence s = (result, s')) :
    (enqueued job staged result).1.Known sha cfg s' := by
  cases result with
  | error e =>
    by_cases hdrop : e = .updateDropped
    · subst hdrop
      have hphase := enqueue_dropped he
      refine ⟨h, fun e' hs => ?_, .inr hphase⟩
      have hreq : job.stageRequired cfg = true := by
        cases hr : job.stageRequired cfg with
        | true => rfl
        | false => rw [h.1.mpr hr] at hs; cases hs
      have hstart := stageRequired_start hreq
      rw [hphase] at hstart
      exact absurd hstart (by decide)
    · have hidle : (enqueued job staged (.error e)).1 = .idle := by
        unfold enqueued
        split
        next heq =>
          cases heq
          exact absurd rfl hdrop
        · rfl
        next heq => cases heq
      rw [hidle]
      trivial
  | ok pair =>
    obtain ⟨r, added⟩ := pair
    obtain ⟨hkey, hlook⟩ := enqueue_ok he
    rw [hd] at hkey hlook
    have hrec : Recorded cfg s' job.event := ⟨r, hlook⟩
    cases staged with
    | none => exact ⟨h, (fun e hs => by cases hs), .inl hrec⟩
    | some result =>
      have hreq : job.stageRequired cfg = true := by
        cases hr : job.stageRequired cfg with
        | true => rfl
        | false => cases h.1.mpr hr
      cases result with
      | error e => exact ⟨hreq, hkey, hrec⟩
      | ok files =>
        dsimp only [enqueued]
        split
        · exact ⟨h, ⟨files, rfl⟩, hkey, hrec⟩
        · exact ⟨h, (fun e hs => by cases hs), .inl hrec⟩

theorem failed_known {s s' : Store} {env : Env} {job : Job} {r updated : Record} {e : StageErr}
    {cause : Option Bytes} (h : (Ingest.failed job r e).Known sha cfg s)
    (hm : markEvidenceStagingFailure env r.key cause true s = (.ok updated, s')) :
    (Ingest.giveUp job updated).Known sha cfg s' := by
  obtain ⟨hkey, hlook, old, hold⟩ :=
    @mark_ok env r.key evidenceEntry (stagingFailure cause true) (fun _ => rfl) s s' updated hm
  refine ⟨h.1, ⟨updated, ?_⟩, hkey.trans h.2.1, ?_⟩
  · rw [← h.2.1]
    exact hlook
  · rw [hold]
    rfl

theorem IngestStep.known {t : Turn} {w w' : World} {pc : Ingest} {out : List Output}
    (h : IngestStep sha cfg t w pc w' out) (hs : Sound w.store)
    (hd : w.store.deviceID = cfg.deviceID) (hidle : pc = .idle → w.ingest = .idle)
    (hpc : pc.Known sha cfg w.store) : w'.ingest.Known sha cfg w'.store := by
  have hw := hs.wf
  cases h with
  | idle =>
    rw [hidle rfl]
    trivial
  | stagingOn _ hne => exact ⟨hpc.1, hne⟩
  | staged hst => exact staged_of_finished hpc.1 hpc.2 (congrArg Prod.fst hst)
  | enqueued he => exact enqueued_known hd hpc he
  | @requeued job staged r s hr =>
    obtain ⟨pair, hpair⟩ := hpc.2.1
    have hmark : ∀ e n a b, Call.evidenceState r.key .pending none ≠ .enqueue e n a b :=
      fun _ _ _ _ => Call.noConfusion
    have hrec := recorded_call hw hpc.2.2.2 hmark t.env
    rw [hr] at hrec
    exact ⟨hpc.1, (fun e he => by rw [hpair] at he; cases he), .inl hrec⟩
  | stagingOver _ hm => exact failed_known hpc hm
  | requeueFailed | stagingFailed | markFailed | acked | gaveUp | giveUpFailed => trivial

theorem IngestStep.job {t : Turn} {w w' : World} {pc : Ingest} {out : List Output}
    (h : IngestStep sha cfg t w pc w' out) (hpc : w.ingest = pc) :
    ∀ job ∈ w'.ingest.job, job ∈ pc.job := by
  cases h with
  | idle =>
    rw [hpc]
    exact fun _ hj => hj
  | stagingOn | staged | requeued | stagingOver => exact fun _ hj => hj
  | @enqueued job staged result s he =>
    intro job' hj
    unfold Delivery.enqueued at hj
    split at hj
    · exact hj
    · cases hj
    · split at hj
      · exact hj
      · split at hj <;> exact hj
      · exact hj
  | requeueFailed | stagingFailed | markFailed | acked | gaveUp | giveUpFailed =>
    exact fun _ hj => by cases hj

/-! ### The loops -/

theorem stepAlarm_pending {w : World} (hs : Sound w.store)
    (h : Pending w.store w.alarm.records) (t : Turn) (answer : Option Bytes) :
    Pending (stepAlarm cfg zone t answer w).1.store (stepAlarm cfg zone t answer w).1.alarm.records := by
  have hw := hs.wf
  cases hpc : w.alarm with
  | idle =>
    simp only [stepAlarm, hpc]
    exact pending_pendingAlarms hw
  | pass now rest =>
    rw [hpc] at h
    cases rest with
    | nil =>
      simp only [stepAlarm, hpc]
      exact pending_nil _
    | cons r rest =>
      simp only [stepAlarm, hpc]
      split
      · exact h.cons_tail
      split
      · exact h.tail hw rfl t.env
      · exact h
  | sent now r answer rest =>
    rw [hpc] at h
    cases answer with
    | none =>
      simp only [stepAlarm, hpc]
      exact h.tail hw rfl t.env
    | some cause =>
      simp only [stepAlarm, hpc]
      exact h.tail hw rfl t.env

theorem stepEvidence_undelivered {w : World} (hs : Sound w.store)
    (h : Undelivered w.store w.evidence.records) (t : Turn) (answer : Option Bytes) :
    Undelivered (stepEvidence sha cfg t answer w).1.store
      (stepEvidence sha cfg t answer w).1.evidence.records := by
  have hw := hs.wf
  cases hpc : w.evidence with
  | idle =>
    simp only [stepEvidence, hpc]
    split
    · exact undelivered_pendingEvidence hw
    · rw [hpc]
      exact undelivered_nil _
  | pass now rest =>
    rw [hpc] at h
    cases rest with
    | nil =>
      simp only [stepEvidence, hpc]
      exact undelivered_nil _
    | cons r rest =>
      simp only [stepEvidence, hpc]
      split
      · exact h.cons_tail
      split
      · exact h
      · exact h
  | loaded now r metadata image rest =>
    rw [hpc] at h
    simp only [stepEvidence, hpc]
    exact h
  | sent now r answer rest =>
    rw [hpc] at h
    cases answer with
    | none =>
      simp only [stepEvidence, hpc]
      exact h.tail hw rfl t.env
    | some cause =>
      simp only [stepEvidence, hpc]
      exact h.tail hw rfl t.env
  | removing now names rest =>
    rw [hpc] at h
    cases names with
    | nil =>
      simp only [stepEvidence, hpc]
      exact h
    | cons name names =>
      simp only [stepEvidence, hpc]
      exact h

theorem callStore_cases {s : Store} {o : Option (Turn × Call)} (P : Store → Prop) (hs : P s)
    (h : ∀ t c, o = some (t, c) → P (c.run t.env s).2) : P (callStore s o) := by
  cases o with
  | none => exact hs
  | some p => exact h p.1 p.2 rfl

theorem begin_known (n : EventNotification) (w : World) :
    (beginIngest cfg n w).ingest.Known sha cfg w.store := by
  unfold beginIngest
  dsimp only
  split
  next hreq => exact ⟨hreq, fun r hr => by cases hr⟩
  next hreq =>
    rw [Bool.not_eq_true] at hreq
    exact ⟨⟨fun _ => hreq, fun _ => rfl⟩, fun pair hp => by cases hp⟩

theorem begin_job (n : EventNotification) (w : World) : ∀ job ∈ (beginIngest cfg n w).ingest.job,
    job = ⟨n, lookup (keyOf cfg.deviceID n.event) w.store.records⟩ := by
  unfold beginIngest
  dsimp only
  split
  · rintro job ⟨⟩
    rfl
  · rintro job ⟨⟩
    rfl

/-- **Every step keeps the loops and the outbox in step.** -/
theorem inv_step {w : World} (h : Inv sha cfg w) {i : Input} (hi : i.Typed cfg) :
    Inv sha cfg (step sha cfg zone w i).1 := by
  have hw := h.sound.wf
  have hstore := @step_store sha cfg zone w i
  have hissued := fun t c => @issued_call sha cfg w h i hi t c
  have hkept : Sound (step sha cfg zone w i).1.store ∧
      Under cfg.options (step sha cfg zone w i).1.store := by
    rw [hstore]
    exact callStore_cases (fun s => Sound s ∧ Under cfg.options s) ⟨h.sound, h.under⟩
      fun t c hc => call_kept h.sound h.under (hissued t c hc) t.env
  cases i with
  | engine files => exact ⟨h.sound, h.under, h.alarm, h.evidence, h.ingest, h.typed⟩
  | notify n =>
    dsimp only [step]
    split
    · refine ⟨h.sound, h.under, h.alarm, h.evidence, begin_known n w, fun job hj => ?_⟩
      rw [begin_job n w job hj]
      exact hi
    · exact h
  | ingest t =>
    have hstep := stepIngest_cases sha cfg t w
    obtain ⟨hal, hev⟩ := hstep.loops
    refine ⟨hkept.1, hkept.2, ?_, ?_, ?_, fun job hj => h.typed job (hstep.job rfl job hj)⟩
    · show Pending _ (stepIngest sha cfg t w).1.alarm.records
      rw [hal, hstore]
      refine callStore_cases (Pending · w.alarm.records) h.alarm fun t' c hc => ?_
      obtain ⟨c', hc', he⟩ := Option.map_eq_some_iff.mp hc
      cases he
      exact h.alarm.spared hw (ingest_spares hc').1 _
    · show Undelivered _ (stepIngest sha cfg t w).1.evidence.records
      rw [hev, hstore]
      refine callStore_cases (Undelivered · w.evidence.records) h.evidence fun t' c hc => ?_
      obtain ⟨c', hc', he⟩ := Option.map_eq_some_iff.mp hc
      cases he
      exact h.evidence.spared hw (ingest_spares hc').2 _
    · exact hstep.known h.sound h.under.deviceID (fun he => he) h.ingest
  | alarm t answer =>
    obtain ⟨hin, hev⟩ := @stepAlarm_loops cfg zone t answer w
    refine ⟨hkept.1, hkept.2, stepAlarm_pending h.sound h.alarm t answer, ?_, ?_, ?_⟩
    · show Undelivered _ (stepAlarm cfg zone t answer w).1.evidence.records
      rw [hev, hstore]
      refine callStore_cases (Undelivered · w.evidence.records) h.evidence fun t' c hc => ?_
      obtain ⟨c', hc', he⟩ := Option.map_eq_some_iff.mp hc
      cases he
      exact h.evidence.spared hw (alarm_calls hc').2.1 _
    · show (stepAlarm cfg zone t answer w).1.ingest.Known sha cfg _
      rw [hin, hstore]
      refine callStore_cases (w.ingest.Known sha cfg ·) h.ingest fun t' c hc => ?_
      obtain ⟨c', hc', he⟩ := Option.map_eq_some_iff.mp hc
      cases he
      exact known_call hw h.ingest (alarm_calls hc').2.2 _
    · show ∀ job ∈ (stepAlarm cfg zone t answer w).1.ingest.job, _
      rw [hin]
      exact h.typed
  | evidence t answer =>
    obtain ⟨hin, hal⟩ := @stepEvidence_loops sha cfg t answer w
    refine ⟨hkept.1, hkept.2, ?_, stepEvidence_undelivered h.sound h.evidence t answer, ?_, ?_⟩
    · show Pending _ (stepEvidence sha cfg t answer w).1.alarm.records
      rw [hal, hstore]
      refine callStore_cases (Pending · w.alarm.records) h.alarm fun t' c hc => ?_
      obtain ⟨c', hc', he⟩ := Option.map_eq_some_iff.mp hc
      cases he
      exact h.alarm.spared hw (evidence_calls hc').2.1 _
    · show (stepEvidence sha cfg t answer w).1.ingest.Known sha cfg _
      rw [hin, hstore]
      refine callStore_cases (w.ingest.Known sha cfg ·) h.ingest fun t' c hc => ?_
      obtain ⟨c', hc', he⟩ := Option.map_eq_some_iff.mp hc
      cases he
      exact known_call hw h.ingest (evidence_calls hc').2.2 _
    · show ∀ job ∈ (stepEvidence sha cfg t answer w).1.ingest.job, _
      rw [hin]
      exact h.typed
  | cancelAlarm =>
    dsimp only [step]
    split
    · exact ⟨h.sound, h.under, pending_nil _, h.evidence, h.ingest, h.typed⟩
    · exact h
  | cancelEvidence =>
    dsimp only [step]
    split
    · exact ⟨h.sound, h.under, h.alarm, undelivered_nil _, h.ingest, h.typed⟩
    · exact h

theorem inv_start {s : Store} (hs : Sound s) (hu : Under cfg.options s)
    (staged source : Directory.Files) : Inv sha cfg (World.start s staged source) where
  sound := hs
  under := hu
  alarm := pending_nil s
  evidence := undelivered_nil s
  ingest := trivial
  typed := fun _ hj => by cases hj

/-- What a run lets the file system and the outbox do. -/
def Allowed (smooth : Prop) (env : Env) (result : Option Err) (s : Store) : Prop :=
  smooth → Outbox.Smooth env result s

theorem allowed_inv {smooth : Prop} (hsmooth : smooth) {s : Store} (hu : Usable cfg.options)
    (h : Reached cfg.options (Allowed smooth) s) : Outbox.Inv cfg.options True True True s :=
  h.inv hu (fun _ _ _ _ hok => (hok hsmooth).1) (fun _ _ _ _ hok => (hok hsmooth).2)
    (fun hnot => absurd trivial hnot)

/-- **The invariant of every run**, and that its outbox is one of the outbox's own runs. -/
theorem reachable_inv {smooth : Prop} (hu : Usable cfg.options) {w : World}
    (h : Reachable sha cfg zone smooth w) :
    Inv sha cfg w ∧ Reached cfg.options (Allowed smooth) w.store := by
  induction h with
  | @opened s disk staged source ho =>
    have hreached : Reached cfg.options (Allowed smooth) s := .opened ho
    have hinv : Outbox.Inv cfg.options True True True s := by
      have hfirst : Reached cfg.options (Allowed True) s := .opened ho
      exact allowed_inv trivial hu hfirst
    exact ⟨inv_start hinv.sound hinv.under staged source, hreached⟩
  | @stepped w i _ hi hsm ih =>
    refine ⟨inv_step ih.1 hi, ?_⟩
    rw [step_store]
    exact callStore_cases (Reached cfg.options (Allowed smooth)) ih.2 fun t c hc =>
      .called ih.2 (issued_call ih.1 hi hc) fun hs => hsm hs t c hc
  | @restarted w s io disk staged source hs _ ho ih =>
    have hreached : Reached cfg.options (Allowed smooth) s := .reopened ih.2 ho
    have hinv := allowed_inv hs hu hreached
    exact ⟨inv_start hinv.sound hinv.under staged source, hreached⟩

end FlowAlarm.Delivery
