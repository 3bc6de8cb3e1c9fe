import FlowAlarm.Daemon.EvidenceSink
import FlowAlarm.Daemon.Loading

/-!
# Acknowledged notifications

What holds when `ingest` returns nil, and with that the producer may forget the
event: `ack_safe` for the step that returns, `nothing_skipped` for every cursor
that a run acknowledges.
-/

namespace FlowAlarm.Outbox

open FlowAlarm.Text FlowAlarm.Media Relation

/-! ## The acknowledged cursor -/

theorem mark_lastAck (env : Env) (key : Bytes) (entry : Record → JournalEntry)
    (update : Record → Record) (s : Store) : (mark env key entry update s).2.lastAck = s.lastAck := by
  unfold mark
  cases lookup key s.records with
  | none => rfl
  | some r =>
    have hmem := appendLocked_memory (env.io 1) (entry (update r)) s
    dsimp only
    split
    next heq =>
      rw [heq] at hmem
      exact congrArg Memory.lastAck hmem
    next heq =>
      rw [heq] at hmem
      have hack := congrArg Memory.lastAck hmem
      exact hack

theorem appendRecord_lastAck (env : Env) (r : Record) (s : Store) :
    (appendRecord env r s).2.lastAck = s.lastAck := by
  have h := @appendRecord_append False True env r s (fun _ _ => trivial) fun _ _ h => h
  generalize (appendRecord env r s).1 = res at h
  generalize (appendRecord env r s).2 = s' at h
  cases h with
  | wrote hp => exact hp.kept.lastAck
  | failed hp => exact hp.kept.lastAck
  | torn hp => exact hp.kept.lastAck

theorem enqueue_lastAck {env : Env} {event : AnalyticsEvent} {cursor : Nat} {alarm evidence : Bool}
    {s : Store} (hw : WF s.deviceID s.toMemory) :
    (enqueueWithEvidence env event cursor alarm evidence s).2.lastAck = s.lastAck := by
  unfold enqueueWithEvidence
  split
  · rfl
  split
  · rfl
  split
  · rfl
  have hroom : (makeRoom env event s).2.lastAck = s.lastAck :=
    (@makeRoom_prepared False True env event s (fun _ => trivial) hw.nextAlarmSN).kept.lastAck
  cases hmr : makeRoom env event s with
  | mk res s₁ =>
    rw [hmr] at hroom
    cases res with
    | some e => exact hroom
    | none =>
      dsimp only
      have hsched : (scheduleAlarm alarm s₁).2.2.lastAck = s₁.lastAck := by cases alarm <;> rfl
      generalize scheduleAlarm alarm s₁ = sched at *
      obtain ⟨state, sn, s₂⟩ := sched
      dsimp only at hsched ⊢
      have happ := appendRecord_lastAck env (newRecord s.deviceID event cursor state sn evidence) s₂
      split
      next heq =>
        rw [heq] at happ
        exact happ.trans (hsched.trans hroom)
      next heq =>
        rw [heq] at happ
        split
        · exact happ.trans (hsched.trans hroom)
        · exact happ.trans (hsched.trans hroom)

/-- Only an acknowledgement moves the cursor. -/
theorem call_lastAck {env : Env} {c : Call} {s : Store} (hw : WF s.deviceID s.toMemory)
    (hc : ∀ cursor, c ≠ .ack cursor) : (c.run env s).2.lastAck = s.lastAck := by
  cases c with
  | enqueue => exact enqueue_lastAck hw
  | ack cursor => exact absurd rfl (hc cursor)
  | alarmSent | alarmAttempt | evidenceSent | evidenceAttempt | stagingFailure =>
    exact mark_lastAck _ _ _ _ _
  | evidenceState key state cause =>
    show (markEvidenceState env key state cause s).2.lastAck = _
    unfold markEvidenceState
    split
    · rfl
    · exact mark_lastAck _ _ _ _ _

/-- An acknowledgement that returns nil leaves the cursor at the greater of the two. -/
theorem ack_lastAck {env : Env} {cursor : Nat} {s : Store} :
    ((ack env cursor s).1 = none → (ack env cursor s).2.lastAck = max s.lastAck cursor) ∧
      ((ack env cursor s).1 ≠ none → (ack env cursor s).2.lastAck = s.lastAck) := by
  unfold ack
  split
  · exact ⟨(fun h => by cases h), fun _ => rfl⟩
  split
  next hle => exact ⟨fun _ => (max_eq_left hle).symm, fun h => absurd rfl h⟩
  next hlt =>
    have hmem := appendLocked_memory (env.io 1) (ackEntry cursor) s
    split
    next heq =>
      rw [heq] at hmem
      exact ⟨(fun h => by cases h), fun _ => congrArg Memory.lastAck hmem⟩
    next heq =>
      rw [heq] at hmem
      have hlt' : s.lastAck ≤ cursor := by omega
      exact ⟨fun _ => (max_eq_right hlt').symm, fun h => absurd rfl h⟩

end FlowAlarm.Outbox

namespace FlowAlarm.Delivery

open FlowAlarm.Text FlowAlarm.Media FlowAlarm.Evidence FlowAlarm.Outbox FlowAlarm.GbXml
open FlowAlarm.Wire (EventNotification)

variable {sha : Sha256} {cfg : Config} {zone : Zone} {smooth : Prop} {stays : World → Prop}
  {w w' : World} {outs : List Output} {n : ℕ} {m : EventNotification}

/-! ## A step that returns nil -/

/-- What `ingest` did before it returned nil. -/
inductive Returns (sha : Sha256) (cfg : Config) (w w' : World) (m : EventNotification)
    (out : List Output) : Prop where
  | acked {job : Job} {staged : Staged} : w.ingest = .ack job staged → job.notification = m →
      w'.store.lastAck = max w.store.lastAck m.cursor → w'.store.records = w.store.records →
      Returns sha cfg w w' m out
  | gaveUp {job : Job} {updated : Record} : w.ingest = .giveUp job updated →
      job.notification = m → .gaveUp updated ∈ out →
      w'.store.lastAck = max w.store.lastAck m.cursor → w'.store.records = w.store.records →
      Returns sha cfg w w' m out

theorem IngestStep.returns {t : Turn} {pc : Ingest} {out : List Output}
    (h : IngestStep sha cfg t w pc w' out) (hpc : w.ingest = pc) (ho : .returned m none ∈ out) :
    Returns sha cfg w w' m out := by
  have acked : ∀ {cursor : ℕ} {s : Store},
      (Call.ack cursor).run t.env w.store = (none, s) →
      s.lastAck = max w.store.lastAck cursor ∧ s.records = w.store.records := by
    intro cursor s hs
    have hl := (@ack_lastAck t.env cursor w.store).1 (congrArg Prod.fst hs)
    have hr := ack_records t.env cursor w.store
    rw [show ack t.env cursor w.store = (none, s) from hs] at hl hr
    exact ⟨hl, hr⟩
  cases h with
  | idle | stagingOn | staged | requeued | stagingOver => cases ho
  | @enqueued job staged result s =>
    obtain ⟨e, he⟩ := enqueued_shows job staged result _ ho
    cases he
  | requeueFailed | stagingFailed | markFailed | giveUpFailed =>
    rw [List.mem_singleton] at ho
    cases ho
  | @acked job staged result s hs =>
    rw [List.mem_singleton] at ho
    cases result with
    | some e => cases ho
    | none =>
      cases ho
      obtain ⟨hl, hr⟩ := acked hs
      exact .acked hpc rfl hl hr
  | @gaveUp job updated s hs =>
    simp only [List.mem_cons, List.not_mem_nil, or_false, reduceCtorEq, false_or] at ho
    cases ho
    obtain ⟨hl, hr⟩ := acked hs
    exact .gaveUp hpc rfl List.mem_cons_self hl hr

theorem step_returns {i : Input} (ho : .returned m none ∈ (step sha cfg zone w i).2) :
    Returns sha cfg w (step sha cfg zone w i).1 m (step sha cfg zone w i).2 := by
  cases i with
  | ingest t => exact (stepIngest_cases sha cfg t w).returns rfl ho
  | alarm t a =>
    obtain ⟨_, _, _, _, -, heq⟩ := @stepAlarm_shows cfg zone t a w _ ho
    cases heq
  | evidence t a =>
    obtain ⟨_, _, _, _, _, _, heq⟩ := @stepEvidence_shows sha cfg t a w _ ho
    cases heq
  | engine | notify | cancelAlarm | cancelEvidence =>
    dsimp only [step] at ho
    first
      | cases ho
      | split at ho <;> cases ho

/-! ## The ingest of a notification -/

/-- `ingest` is at work on the job from `v` to `w`. -/
def During (sha : Sha256) (cfg : Config) (zone : Zone) (smooth : Prop) (job : Job) (v w : World) :
    Prop :=
  ∃ outs n, Run sha cfg zone smooth (fun u => job ∈ u.ingest.job) v outs n w

theorem During.step {job : Job} {v : World} (h : During sha cfg zone smooth job v w) {i : Input}
    (hi : i.Typed cfg) (hs : smooth → i.Smooth cfg w)
    (hjob : job ∈ (step sha cfg zone w i).1.ingest.job) :
    During sha cfg zone smooth job v (step sha cfg zone w i).1 := by
  obtain ⟨outs, n, hrun⟩ := h
  exact ⟨_, _, hrun.step hi hs hjob⟩

theorem during_refl {job : Job} (hjob : job ∈ w.ingest.job) :
    During sha cfg zone smooth job w w := ⟨[], 0, .refl hjob⟩

/-- What came of staging, once it is over. -/
def Ingest.staged : Ingest → Staged
  | .enqueue _ staged | .requeue _ staged _ | .ack _ staged => staged
  | .idle | .staging _ _ | .failed .. | .giveUp .. => none

/-- A job goes on, or is new. -/
theorem step_job {i : Input} {job : Job} (hjob : job ∈ (step sha cfg zone w i).1.ingest.job) :
    job ∈ w.ingest.job ∨ ∃ n, i = .notify n ∧ (step sha cfg zone w i).1 = beginIngest cfg n w ∧
      job = ⟨n, lookup (keyOf cfg.deviceID n.event) w.store.records⟩ := by
  cases i with
  | engine => exact .inl hjob
  | notify n =>
    cases hpc : w.ingest with
    | idle =>
      have hstep : (step sha cfg zone w (.notify n)).1 = beginIngest cfg n w := by
        dsimp only [step]
        rw [hpc]
      rw [hstep] at hjob
      exact .inr ⟨n, rfl, hstep, begin_job n w job hjob⟩
    | _ =>
      dsimp only [step] at hjob
      rw [hpc] at hjob
      rw [← hpc]
      exact .inl hjob
  | ingest t => exact .inl ((stepIngest_cases sha cfg t w).job rfl job hjob)
  | alarm t answer =>
    have hjob' : job ∈ (stepAlarm cfg zone t answer w).1.ingest.job := hjob
    rw [(stepAlarm_loops t answer w).1] at hjob'
    exact .inl hjob'
  | evidence t answer =>
    have hjob' : job ∈ (stepEvidence sha cfg t answer w).1.ingest.job := hjob
    rw [(stepEvidence_loops t answer w).1] at hjob'
    exact .inl hjob'
  | cancelAlarm =>
    dsimp only [step] at hjob
    split at hjob <;> exact .inl hjob
  | cancelEvidence =>
    dsimp only [step] at hjob
    split at hjob <;> exact .inl hjob

/-- Evidence comes out of staging when it is complete in the directory. -/
theorem IngestStep.verified {t : Turn} {pc : Ingest} {out : List Output}
    (h : IngestStep sha cfg t w pc w' out) (hpc : w.ingest = pc) (hknown : pc.Known sha cfg w.store)
    {job : Job} (hjob : job ∈ pc.job) {pair : Bytes × Bytes}
    (hs : w'.ingest.staged = some (.ok pair)) :
    w.ingest.staged = some (.ok pair) ∨
      loadEvidence sha cfg.evidenceOutboxDir w.staged job.event = .ok pair := by
  cases h with
  | idle => exact .inl hs
  | stagingOn | requeueFailed | stagingFailed | stagingOver | markFailed | acked | gaveUp
  | giveUpFailed => cases hs
  | @staged job' st result files hst =>
    cases hs
    cases hjob
    exact .inr (stageStep_ok sha cfg.toEvidenceConfig hknown.2 hst).2
  | @enqueued job' staged result s =>
    refine .inl ?_
    rw [hpc]
    have hs' : (Delivery.enqueued job' staged result).1.staged = some (.ok pair) := hs
    unfold Delivery.enqueued at hs'
    split at hs'
    · exact hs'
    · cases hs'
    · split at hs'
      · cases hs'
      · split at hs' <;> exact hs'
      · exact hs'
  | @requeued job' staged r s hr =>
    rw [hpc]
    exact .inl hs

theorem step_verified (h : Inv sha cfg w) {i : Input} {job : Job} (hjob : job ∈ w.ingest.job)
    {pair : Bytes × Bytes} (hs : (step sha cfg zone w i).1.ingest.staged = some (.ok pair)) :
    w.ingest.staged = some (.ok pair) ∨
      loadEvidence sha cfg.evidenceOutboxDir w.staged job.event = .ok pair := by
  cases i with
  | engine => exact .inl hs
  | notify n =>
    dsimp only [step] at hs
    split at hs
    next hpc =>
      rw [hpc] at hjob
      cases hjob
    · exact .inl hs
  | ingest t => exact (stepIngest_cases sha cfg t w).verified rfl h.ingest hjob hs
  | alarm t answer =>
    have hs' : (stepAlarm cfg zone t answer w).1.ingest.staged = some (.ok pair) := hs
    rw [(stepAlarm_loops t answer w).1] at hs'
    exact .inl hs'
  | evidence t answer =>
    have hs' : (stepEvidence sha cfg t answer w).1.ingest.staged = some (.ok pair) := hs
    rw [(stepEvidence_loops t answer w).1] at hs'
    exact .inl hs'
  | cancelAlarm =>
    dsimp only [step] at hs
    split at hs <;> exact .inl hs
  | cancelEvidence =>
    dsimp only [step] at hs
    split at hs <;> exact .inl hs

theorem begin_staged (n : EventNotification) (w : World) :
    (beginIngest cfg n w).ingest.staged = none := by
  unfold beginIngest
  dsimp only
  split <;> rfl

/-- How the ingest of a job came about: its lookup, and what it found of the evidence. `Within` is
the ingest of a job from one world to another. -/
structure Traced (sha : Sha256) (cfg : Config) (Reach : World → Prop)
    (Within : Job → World → World → Prop) (w : World) (job : Job) : Prop where
  looked : ∃ u, Reach u ∧ lookup (keyOf cfg.deviceID job.event) u.store.records = job.existing ∧
    Within job (beginIngest cfg job.notification u) w
  verified : ∀ pair, w.ingest.staged = some (.ok pair) → ∃ v, Reach v ∧ Within job v w ∧
    loadEvidence sha cfg.evidenceOutboxDir v.staged job.event = .ok pair

theorem traced_step {Reach : World → Prop} {Within : Job → World → World → Prop} {i : Input}
    (hrefl : ∀ {job v}, job ∈ v.ingest.job → Within job v v)
    (hgo : ∀ {job v}, Within job v w → job ∈ w.ingest.job →
      job ∈ (step sha cfg zone w i).1.ingest.job → Within job v (step sha cfg zone w i).1)
    (hinv : Inv sha cfg w) (hw : Reach w)
    (h : ∀ job ∈ w.ingest.job, Traced sha cfg Reach Within w job) :
    ∀ job ∈ (step sha cfg zone w i).1.ingest.job,
      Traced sha cfg Reach Within (step sha cfg zone w i).1 job := by
  intro job hjob
  rcases step_job hjob with hold | ⟨n, rfl, hstep, rfl⟩
  · obtain ⟨⟨u, hru, hlook, hsince⟩, hverified⟩ := h job hold
    refine ⟨⟨u, hru, hlook, hgo hsince hold hjob⟩, fun pair hpair => ?_⟩
    rcases step_verified hinv hold hpair with hpair | hload
    · obtain ⟨v, hrv, hd, hload⟩ := hverified pair hpair
      exact ⟨v, hrv, hgo hd hold hjob, hload⟩
    · exact ⟨w, hw, hgo (hrefl hold) hold hjob, hload⟩
  · refine ⟨⟨w, hw, rfl, ?_⟩, fun pair hpair => ?_⟩
    · rw [hstep] at hjob ⊢
      exact hrefl hjob
    · rw [hstep, begin_staged] at hpair
      cases hpair

theorem reachable_traced (hu : Usable cfg.options) (h : Reachable sha cfg zone smooth w) :
    ∀ job ∈ w.ingest.job,
      Traced sha cfg (Reachable sha cfg zone smooth) (During sha cfg zone smooth) w job := by
  induction h with
  | opened | restarted => exact fun job hjob => by cases hjob
  | stepped hw hi hs ih =>
    exact traced_step during_refl (fun hd _ hjob => hd.step hi hs hjob) (reachable_inv hu hw).1 hw ih

/-- The cursor moves when `ingest` returns nil. -/
theorem step_lastAck (h : Inv sha cfg w) (i : Input) :
    (step sha cfg zone w i).1.store.lastAck = w.store.lastAck ∨
      ∃ job ∈ w.ingest.job, .returned job.notification none ∈ (step sha cfg zone w i).2 ∧
        (step sha cfg zone w i).1.store.lastAck = max w.store.lastAck job.notification.cursor := by
  have hw := h.sound.wf
  cases hc : i.call cfg w with
  | none =>
    refine .inl ?_
    rw [step_store, hc]
    rfl
  | some p =>
    obtain ⟨t, c⟩ := p
    by_cases hack : ∃ cursor, c = .ack cursor
    · obtain ⟨cursor, rfl⟩ := hack
      have hstore : (step sha cfg zone w i).1.store = ((Call.ack cursor).run t.env w.store).2 := by
        rw [step_store, hc]
        rfl
      cases i with
      | engine | notify | cancelAlarm | cancelEvidence => cases hc
      | alarm t' answer =>
        obtain ⟨c', hc', he⟩ := Option.map_eq_some_iff.mp hc
        cases he
        obtain ⟨⟨r, rest, -, hcase⟩, -, -⟩ := alarm_calls hc'
        rcases hcase with hcase | ⟨_, _, _, hcase⟩ <;> cases hcase
      | evidence t' answer =>
        obtain ⟨c', hc', he⟩ := Option.map_eq_some_iff.mp hc
        cases he
        obtain ⟨⟨r, rest, update, -, hch⟩, -, -⟩ := evidence_calls hc'
        cases hch
      | ingest t' =>
        obtain ⟨c', hc', he⟩ := Option.map_eq_some_iff.mp hc
        cases he
        rw [hstore]
        by_cases hres : ((Call.ack cursor).run t.env w.store).1 = none
        · refine .inr ?_
          have hl := (@ack_lastAck t.env cursor w.store).1 hres
          cases hpc : w.ingest with
          | idle | staging | enqueue | requeue | failed => rw [hpc] at hc'; cases hc'
          | ack job staged =>
            rw [hpc] at hc'
            cases hc'
            refine ⟨job, rfl, ?_, hl⟩
            simp only [step, stepIngest, hpc, hres, Option.map_none, List.mem_singleton]
          | giveUp job updated =>
            rw [hpc] at hc'
            cases hc'
            refine ⟨job, rfl, ?_, hl⟩
            simp only [step, stepIngest, hpc, hres]
            exact List.mem_cons_of_mem _ (List.mem_singleton.mpr rfl)
        · exact .inl ((@ack_lastAck t.env cursor w.store).2 hres)
    · refine .inl ?_
      rw [step_store, hc]
      exact call_lastAck hw fun cursor he => hack ⟨cursor, he⟩

/-! ## Acknowledged is safe -/

/-- During the ingest of `m` the evidence of its event was complete in the outbox directory. -/
def Verified (sha : Sha256) (cfg : Config) (zone : Zone) (smooth : Prop) (w : World)
    (m : EventNotification) : Prop :=
  ∃ job v pair, job.notification = m ∧ Reachable sha cfg zone smooth v ∧
    During sha cfg zone smooth job v w ∧
    loadEvidence sha cfg.evidenceOutboxDir v.staged m.event = .ok pair

/-- The ingest of `m` began when the evidence of its record was delivered or given up. -/
def FoundSettled (sha : Sha256) (cfg : Config) (zone : Zone) (smooth : Prop) (w : World)
    (m : EventNotification) : Prop :=
  ∃ job u r, job.notification = m ∧ Reachable sha cfg zone smooth u ∧
    lookup (keyOf cfg.deviceID m.event) u.store.records = some r ∧
    (r.evidenceState = .sent ∨ r.evidenceState = .dead) ∧
    During sha cfg zone smooth job (beginIngest cfg m u) w

/-- The outbox answers for the event of `m`. -/
def Answered (cfg : Config) (s : Store) (m : EventNotification) : Prop :=
  m.cursor ≤ s.lastAck ∧ (Recorded cfg s m.event ∨ m.event.phase = eventPhaseUpdate)

theorem stageRequired_of {job : Job} (he : cfg.evidenceEnabled = true)
    (hp : job.event.phase = eventPhaseStart) (hid : job.event.evidenceID ≠ [])
    (hreq : job.stageRequired cfg = false) :
    ∃ r, job.existing = some r ∧ (r.evidenceState = .sent ∨ r.evidenceState = .dead) := by
  have hid' : (job.event.evidenceID != []) = true := bne_iff_ne.mpr hid
  simp only [Job.stageRequired, he, hp, hid', beq_self_eq_true, Bool.true_and] at hreq
  cases hx : job.existing with
  | none =>
    rw [hx] at hreq
    cases hreq
  | some r =>
    rw [hx] at hreq
    simp only [Bool.and_eq_false_iff, bne_eq_false_iff_eq] at hreq
    exact ⟨r, rfl, hreq⟩

theorem recorded_congr {s s' : Store} (h : s'.records = s.records) {event : AnalyticsEvent}
    (hr : Recorded cfg s event) : Recorded cfg s' event := by
  unfold Recorded
  rwa [h]

/-- What a step that returns nil leaves behind. -/
structure AckSafe (sha : Sha256) (cfg : Config) (zone : Zone) (smooth : Prop) (w w' : World)
    (m : EventNotification) (out : List Output) : Prop where
  answered : Answered cfg w'.store m
  durable : smooth → ShortLines w'.store.disk → ∀ io, ∃ s disk,
    openStore cfg.options io w'.store.disk = (.ok s, disk) ∧ Answered cfg s m
  evidence : cfg.evidenceEnabled = true → m.event.phase = eventPhaseStart →
    m.event.evidenceID ≠ [] → Verified sha cfg zone smooth w m ∨ FoundSettled sha cfg zone smooth w m ∨
      ∃ r, .gaveUp r ∈ out ∧ r.key = keyOf cfg.deviceID m.event ∧ r.evidenceState = .dead

theorem answered_reopened (hu : Usable cfg.options) (hsm : smooth)
    (h : Reachable sha cfg zone smooth w) (hshort : ShortLines w.store.disk)
    (ha : Answered cfg w.store m) (io : CompactIo) :
    ∃ s disk, openStore cfg.options io w.store.disk = (.ok s, disk) ∧ Answered cfg s m := by
  have hreached : Reached cfg.options Outbox.Smooth w.store :=
    reached_mono (reachable_inv hu h).2 fun _ _ _ hok => hok hsm
  obtain ⟨s, disk, ho, hack, hlook⟩ := reopen_mirrors io hu hreached hshort
  refine ⟨s, disk, ho, hack ▸ ha.1, ha.2.imp_left fun ⟨r, hr⟩ => ?_⟩
  have hm := hlook (keyOf cfg.deviceID m.event)
  rw [hr, Option.map_some] at hm
  obtain ⟨r', hr', -⟩ := Option.map_eq_some_iff.mp hm
  exact ⟨r', hr'⟩

/-- **An acknowledged event is safe.** Whatever the other loops did meanwhile, when `ingest` returns
nil the outbox holds the event, or the event is an UPDATE; a restart finds the same; and the
evidence of a START was verified, was settled before, or is reported as given up. -/
theorem ack_safe (hu : Usable cfg.options) (h : Reachable sha cfg zone smooth w) {i : Input}
    (hi : i.Typed cfg) (hs : smooth → i.Smooth cfg w)
    (ho : .returned m none ∈ (step sha cfg zone w i).2) :
    AckSafe sha cfg zone smooth w (step sha cfg zone w i).1 m (step sha cfg zone w i).2 := by
  have hinv := (reachable_inv hu h).1
  have hnext := Reachable.stepped h hi hs
  have hknown := hinv.ingest
  suffices hsafe : Answered cfg (step sha cfg zone w i).1.store m ∧
      (cfg.evidenceEnabled = true → m.event.phase = eventPhaseStart → m.event.evidenceID ≠ [] →
        Verified sha cfg zone smooth w m ∨ FoundSettled sha cfg zone smooth w m ∨
          ∃ r, .gaveUp r ∈ (step sha cfg zone w i).2 ∧ r.key = keyOf cfg.deviceID m.event ∧
            r.evidenceState = .dead) from
    ⟨hsafe.1, fun hsm hshort io => answered_reopened hu hsm hnext hshort hsafe.1 io, hsafe.2⟩
  cases step_returns ho with
  | @acked job staged hpc hm hack hrecords =>
    subst hm
    rw [hpc] at hknown
    obtain ⟨hof, hfine, hrec⟩ := hknown
    have hjob : job ∈ w.ingest.job := by rw [hpc]; rfl
    obtain ⟨⟨u, hru, hlook, hsince⟩, hverified⟩ := reachable_traced hu h job hjob
    refine ⟨⟨hack ▸ le_max_right _ _, hrec.imp_left (recorded_congr hrecords)⟩,
      fun he hp hid => ?_⟩
    cases staged with
    | none =>
      obtain ⟨r, hr, hstate⟩ := stageRequired_of he hp hid (hof.1.mp rfl)
      exact .inr (.inl ⟨job, u, r, rfl, hru, hlook.trans hr, hstate, hsince⟩)
    | some result =>
      cases result with
      | error e => exact absurd rfl (hfine e)
      | ok pair =>
        obtain ⟨v, hrv, hd, hload⟩ := hverified pair (by rw [hpc]; rfl)
        exact .inl ⟨job, v, pair, rfl, hrv, hd, hload⟩
  | @gaveUp job updated hpc hm hout hack hrecords =>
    subst hm
    rw [hpc] at hknown
    obtain ⟨-, hrec, hkey, hdead⟩ := hknown
    exact ⟨⟨hack ▸ le_max_right _ _, .inl (recorded_congr hrecords hrec)⟩,
      fun _ _ _ => .inr (.inr ⟨updated, hout, hkey, hdead⟩)⟩

/-- The service before the acknowledgement: the evidence is staged and the record enqueued. -/
def uploadEnqueued : World :=
  demoAfter uploadConfig [.notify ⟨7, uploadEvent⟩, .ingest demoTurn, .ingest demoTurn] uploadOpened

def Output.isReturned (m : EventNotification) : Output → Bool
  | .returned m' none => m' == m
  | _ => false

theorem mem_of_isReturned {m : EventNotification} {outs : List Output}
    (h : outs.any (Output.isReturned m) = true) : .returned m none ∈ outs := by
  obtain ⟨o, ho, hr⟩ := List.any_eq_true.mp h
  cases o with
  | returned m' result =>
    cases result with
    | none => exact eq_of_beq hr ▸ ho
    | some e => cases hr
  | message | upload | gaveUp => cases hr

theorem upload_ack_facts :
    demoPasses uploadConfig (fun _ => true)
      [.notify ⟨7, uploadEvent⟩, .ingest demoTurn, .ingest demoTurn] uploadOpened = true ∧
    (demoStep uploadConfig uploadEnqueued (.ingest demoTurn)).2.any
      (Output.isReturned ⟨7, uploadEvent⟩) = true ∧
    (Input.ingest demoTurn).isFine uploadConfig uploadEnqueued = true ∧
    uploadAcked.store.disk.length ≤ maxLine := by
  decide +kernel

theorem ack_safe_demo :
    Answered uploadConfig uploadAcked.store ⟨7, uploadEvent⟩ ∧
    (∀ io, ∃ s disk, openStore uploadConfig.options io uploadAcked.store.disk = (.ok s, disk) ∧
      Answered uploadConfig s ⟨7, uploadEvent⟩) ∧
    (Verified zeroSha uploadConfig (fun _ => 0) True uploadEnqueued ⟨7, uploadEvent⟩ ∨
      FoundSettled zeroSha uploadConfig (fun _ => 0) True uploadEnqueued ⟨7, uploadEvent⟩ ∨
      ∃ r, .gaveUp r ∈ (demoStep uploadConfig uploadEnqueued (.ingest demoTurn)).2 ∧
        r.key = uploadKey ∧ r.evidenceState = .dead) := by
  obtain ⟨hpass, hret, hfine, hshort⟩ := upload_ack_facts
  have hu : Usable uploadConfig.options := demoOptions_usable
  have hcalm : (Input.ingest demoTurn).Calm uploadConfig :=
    upload_calm _ (by simp [uploadIngest])
  have hreach : Reachable zeroSha uploadConfig (fun _ => 0) True uploadEnqueued := by
    refine (@demoPasses_run True (fun _ => True) uploadConfig _ _ _ (fun _ _ => trivial)
      (fun i hi => upload_calm i (List.mem_append_left _ (List.mem_append_left _ ?_)))
      hpass).reachable (demo_opened uploadConfig rfl uploadFiles)
    exact List.mem_append_left [.ingest demoTurn] hi
  have hsame : uploadAcked = (demoStep uploadConfig uploadEnqueued (.ingest demoTurn)).1 :=
    demoAfter_concat uploadConfig [.notify ⟨7, uploadEvent⟩, .ingest demoTurn, .ingest demoTurn]
      (.ingest demoTurn) uploadOpened
  rw [hsame] at hshort ⊢
  unfold demoStep at *
  obtain ⟨hanswered, hdurable, hevidence⟩ := ack_safe hu hreach hcalm.typed
    (fun _ => hcalm.smooth_of hfine) (mem_of_isReturned hret)
  exact ⟨hanswered, hdurable trivial (shortLines_of_length hshort),
    hevidence rfl rfl (by decide)⟩

/-! ## No cursor is skipped -/

/-- The notification being ingested is one of the producer's, and none of those that are not
acknowledged comes before it. -/
def Follows (log : Set EventNotification) (w : World) : Prop :=
  ∀ job ∈ w.ingest.job, job.notification ∈ log ∧
    ∀ m ∈ log, w.store.lastAck < m.cursor → job.notification.cursor ≤ m.cursor

/-- **No event is skipped.** In a run that is handed the producer's events in order, each one after
the acknowledged cursor, every event with a cursor that was acknowledged in the run was ingested in
it, and the outbox answered for it at that moment. -/
theorem nothing_skipped {log : Set EventNotification}
    (hlog : ∀ a ∈ log, ∀ b ∈ log, a.cursor = b.cursor → a = b) (hu : Usable cfg.options)
    (h : Reachable sha cfg zone smooth w)
    (hrun : Run sha cfg zone smooth (Follows log) w outs n w') :
    w.store.lastAck ≤ w'.store.lastAck ∧
    ∀ m ∈ log, w.store.lastAck < m.cursor → m.cursor ≤ w'.store.lastAck →
      ∃ u outs₁ n₁, Run sha cfg zone smooth (Follows log) w outs₁ n₁ u ∧ outs₁ <+: outs ∧
        .returned m none ∈ outs₁ ∧ Answered cfg u.store m := by
  induction hrun with
  | refl => exact ⟨le_rfl, fun m _ hlt hle => by omega⟩
  | @step u outs n i hrun hi hs hstays ih =>
    obtain ⟨hmono, hall⟩ := ih
    have hreach := hrun.reachable h
    have earlier : ∀ m ∈ log, w.store.lastAck < m.cursor → m.cursor ≤ u.store.lastAck →
        ∃ v outs₁ n₁, Run sha cfg zone smooth (Follows log) w outs₁ n₁ v ∧
          outs₁ <+: outs ++ (step sha cfg zone u i).2 ∧ .returned m none ∈ outs₁ ∧
          Answered cfg v.store m := by
      intro m hm hlt hle
      obtain ⟨v, outs₁, n₁, hrun₁, hpre, hret, hans⟩ := hall m hm hlt hle
      exact ⟨v, outs₁, n₁, hrun₁, hpre.trans (List.prefix_append _ _), hret, hans⟩
    rcases @step_lastAck sha cfg zone u (reachable_inv hu hreach).1 i with
      hsame | ⟨job, hjob, hret, hmax⟩
    · rw [hsame]
      exact ⟨hmono, earlier⟩
    · refine ⟨by omega, fun m hm hlt hle => ?_⟩
      by_cases hold : m.cursor ≤ u.store.lastAck
      · exact earlier m hm hlt hold
      · obtain ⟨hin, hnext⟩ := hrun.stays_last job hjob
        have hfirst := hnext m hm (by omega)
        have hcursor : m.cursor = job.notification.cursor := by omega
        obtain rfl := hlog m hm _ hin hcursor
        exact ⟨_, _, _, hrun.step hi hs hstays, List.prefix_rfl, List.mem_append_right _ hret,
          (ack_safe hu hreach hi hs hret).answered⟩
  | @restart u outs n s io disk staged source hs hrun ho hstays ih =>
    have hack := (restart_mirrors hu hs (hrun.reachable h) ho).1
    show w.store.lastAck ≤ s.lastAck ∧ ∀ m ∈ log, w.store.lastAck < m.cursor →
      m.cursor ≤ s.lastAck → _
    rw [hack]
    exact ih

/-! The service restarts between an event and its END. -/

/-- The service after a restart that finds the same directories. -/
@[irreducible] def demoReopened (cfg : Config) (w : World) : Option World :=
  match (openStore cfg.options .done w.store.disk).1 with
  | .ok s => some (World.start s w.staged w.source)
  | .error _ => none

theorem demoReopened_run {cfg : Config} {u : World} (hs : smooth)
    (ho : (demoReopened cfg u).isSome = true) (hstays : stays ((demoReopened cfg u).getD u))
    (h : Run zeroSha cfg (fun _ => 0) smooth stays w outs n u) :
    Run zeroSha cfg (fun _ => 0) smooth stays w outs (n + 1) ((demoReopened cfg u).getD u) := by
  unfold demoReopened at *
  cases hopen : openStore cfg.options .done u.store.disk with
  | mk result disk =>
    rw [hopen] at ho hstays
    cases result with
    | error e => cases ho
    | ok s => exact h.restart hs hopen hstays

def uploadEnd : AnalyticsEvent :=
  { uploadEvent with phase := eventPhaseEnd, eventSeq := 2 }

theorem uploadEnd_portable : Portable uploadEnd := by
  refine ⟨?_, by decide +kernel⟩
  constructor <;> decide +kernel

def uploadLog : List EventNotification := [⟨7, uploadEvent⟩, ⟨9, uploadEnd⟩]

def uploadRestarted : World := (demoReopened uploadConfig uploadAcked).getD uploadAcked

def uploadNext : List Input := [.notify ⟨9, uploadEnd⟩, .ingest demoTurn, .ingest demoTurn]

/-- `Follows`, for the log of the two notifications. -/
def followsLog (w : World) : Bool :=
  w.ingest.job.all fun job => uploadLog.contains job.notification &&
    uploadLog.all fun m => decide (w.store.lastAck < m.cursor → job.notification.cursor ≤ m.cursor)

theorem follows_of_followsLog {w : World} (h : followsLog w = true) :
    Follows { m | m ∈ uploadLog } w := by
  intro job hjob
  rw [followsLog, Option.mem_def.mp hjob, Option.all_some, Bool.and_eq_true, List.all_eq_true] at h
  exact ⟨List.contains_iff_mem.mp h.1, fun m hm => of_decide_eq_true (h.2 m hm)⟩

theorem upload_next_facts :
    demoPasses uploadConfig followsLog uploadIngest uploadOpened = true ∧
    (demoReopened uploadConfig uploadAcked).isSome = true ∧
    demoPasses uploadConfig followsLog uploadNext uploadRestarted = true ∧
    uploadOpened.store.lastAck = 0 ∧
    (demoAfter uploadConfig uploadNext uploadRestarted).store.lastAck = 9 := by
  decide +kernel

theorem nothing_skipped_demo : ∃ outs,
    Run zeroSha uploadConfig (fun _ => 0) True (Follows { m | m ∈ uploadLog }) uploadOpened outs 1
      (demoAfter uploadConfig uploadNext uploadRestarted) ∧
    ∀ m ∈ uploadLog, ∃ u outs₁ n₁, Run zeroSha uploadConfig (fun _ => 0) True
      (Follows { m | m ∈ uploadLog }) uploadOpened outs₁ n₁ u ∧ outs₁ <+: outs ∧
      .returned m none ∈ outs₁ ∧ Answered uploadConfig u.store m := by
  obtain ⟨hfirst, hopen, hnext, hbefore, hafter⟩ := upload_next_facts
  have hu : Usable uploadConfig.options := demoOptions_usable
  have hrun := @demoPasses_run True _ uploadConfig _ _ _ (fun _ => follows_of_followsLog)
    (fun i hi => upload_calm i (List.mem_append_left _ (List.mem_append_left _ hi))) hfirst
  have hrun := demoReopened_run trivial hopen
    (follows_of_followsLog (demoPasses_first hnext)) hrun
  have hrun := demoPasses_extend (fun _ => follows_of_followsLog) (fun i hi => ?_) hnext hrun
  · refine ⟨_, hrun, fun m hm => ?_⟩
    have hcursor : 0 < m.cursor ∧ m.cursor ≤ 9 := by
      simp only [uploadLog, List.mem_cons, List.not_mem_nil, or_false] at hm
      rcases hm with rfl | rfl <;> decide
    have hlog : ∀ a ∈ { m | m ∈ uploadLog }, ∀ b ∈ { m | m ∈ uploadLog },
        a.cursor = b.cursor → a = b := by
      intro a (ha : a ∈ uploadLog) b (hb : b ∈ uploadLog) he
      simp only [uploadLog, List.mem_cons, List.not_mem_nil, or_false] at ha hb
      rcases ha with rfl | rfl <;> rcases hb with rfl | rfl
      · rfl
      · cases he
      · cases he
      · rfl
    exact (nothing_skipped hlog hu (demo_opened uploadConfig rfl uploadFiles) hrun).2 m hm
      (hbefore ▸ hcursor.1) (hafter ▸ hcursor.2)
  · rcases List.mem_cons.mp hi with rfl | hi
    · exact calm_notify uploadEnd_portable (show 9 < 2 ^ 64 by decide)
    · refine upload_calm i ?_
      simp only [List.mem_cons, List.not_mem_nil, or_false, or_self] at hi
      rw [hi]
      simp [uploadIngest]

end FlowAlarm.Delivery
