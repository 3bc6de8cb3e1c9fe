import FlowAlarm.Daemon.Steps

/-!
# The calls of the delivery service

`Call` lists the operations of the store that change it, as the delivery
service issues them (`Issued`), and `call_does` describes all of them by the
steps of `Daemon.Steps`. `Sound` is what every store keeps.
-/

namespace FlowAlarm.Outbox

open FlowAlarm.Text FlowAlarm.Media Relation

inductive Call where
  | enqueue (event : AnalyticsEvent) (cursor : Nat) (alarmEnabled evidenceEnabled : Bool)
  | ack (cursor : Nat)
  | alarmSent (key : Bytes)
  | alarmAttempt (key : Bytes) (cause : Option Bytes) (final : Bool) (retryAt : Option Nat)
  | evidenceSent (key : Bytes)
  | evidenceAttempt (key : Bytes) (cause : Option Bytes) (final : Bool) (retryAt : Option Nat)
  | stagingFailure (key : Bytes) (cause : Option Bytes) (final : Bool)
  | evidenceState (key : Bytes) (state : SinkState) (cause : Option Bytes)

def outcome {α : Type} (x : Except Err α × Store) : Option Err × Store := (failure x.1, x.2)

def Call.run (env : Env) : Call → Store → Option Err × Store
  | .enqueue event cursor alarm evidence, s =>
    outcome (enqueueWithEvidence env event cursor alarm evidence s)
  | .ack cursor, s => Outbox.ack env cursor s
  | .alarmSent key, s => outcome (markAlarmSent env key s)
  | .alarmAttempt key cause final retryAt, s =>
    outcome (markAlarmAttempt env key cause final retryAt s)
  | .evidenceSent key, s => outcome (markEvidenceSent env key s)
  | .evidenceAttempt key cause final retryAt, s =>
    outcome (markEvidenceAttempt env key cause final retryAt s)
  | .stagingFailure key cause final, s =>
    outcome (markEvidenceStagingFailure env key cause final s)
  | .evidenceState key state cause, s => outcome (markEvidenceState env key state cause s)

/-- A retry time within the range of `UnixNano`. -/
def InTime (retryAt : Option Nat) : Prop := ∀ t ∈ retryAt, t < 2 ^ 63

/-- How the delivery service issues a call: events come out of a JSON decoder, alarms are retried
while they are pending, and the evidence states are the outbox's own. -/
def Call.Issued (s : Store) : Call → Prop
  | .enqueue event cursor _ _ => Portable event ∧ cursor < 2 ^ 64
  | .ack cursor => cursor < 2 ^ 64
  | .alarmAttempt key _ _ retryAt =>
    InTime retryAt ∧ ∀ r, lookup key s.records = some r → r.alarmState = .pending
  | .evidenceAttempt _ _ _ retryAt => InTime retryAt
  | .evidenceState _ state _ => validateEvidence state = none
  | _ => True

/-! ## Records after a call -/

theorem InTime.range {retryAt : Option Nat} (h : InTime retryAt) (final : Bool) :
    TimeRange (if final then 0 else retryTime retryAt) ∧
      0 ≤ (if final then 0 else retryTime retryAt) := by
  cases final with
  | true => exact ⟨timeRange_zero, le_rfl⟩
  | false =>
    have ht : retryAt.getD 0 < 2 ^ 63 := by
      cases retryAt with
      | none => decide
      | some t => exact h t rfl
    simp only [Bool.false_eq_true, if_false, retryTime, TimeRange]
    omega

/-- The alarm part of a record may change to any valid one. -/
theorem Good.withAlarm {deviceID : Bytes} {r : Record} {e : JournalEntry} (h : Good deviceID r)
    (hown : e.alarmState.Own) (hv : validateAlarm e.alarmState r.alarmSN = none)
    (ha : 0 ≤ e.alarmAttempts) (ht : TimeRange e.alarmNextRetryAtUnixNano)
    (hr : 0 ≤ e.alarmNextRetryAtUnixNano) : Good deviceID (withAlarm e r) :=
  ⟨{ h.portable with alarmState := hown, alarmRetry := ht },
    { h.valid with alarm := hv, alarmAttempts := ha, alarmRetry := hr }, h.key⟩

theorem own_of_validateEvidence {state : SinkState} (h : validateEvidence state = none) :
    state.Own := by
  cases state with
  | other text => cases h
  | _ => trivial

theorem Good.withEvidence {deviceID : Bytes} {r : Record} {e : JournalEntry} (h : Good deviceID r)
    (hv : validateEvidence e.evidenceState = none) (ha : 0 ≤ e.evidenceAttempts)
    (ht : TimeRange e.evidenceNextRetryAtUnixNano) (hr : 0 ≤ e.evidenceNextRetryAtUnixNano) :
    Good deviceID (withEvidence e r) :=
  ⟨{ h.portable with evidenceState := own_of_validateEvidence hv, evidenceRetry := ht },
    { h.valid with evidence := hv, evidenceAttempts := ha, evidenceRetry := hr }, h.key⟩

theorem alarmSN_of_pending {r : Record} (h : Valid r) (hp : r.alarmState = .pending) :
    r.alarmSN ≠ 0 := by
  intro hz
  have := h.alarm
  rw [hp, hz] at this
  cases this

theorem alarmSent_good {deviceID : Bytes} {r : Record} (h : Good deviceID r) :
    Good deviceID (alarmSent r) :=
  show Good deviceID (withAlarm (alarmEntry (alarmSent r)) r) from
    h.withAlarm trivial rfl h.valid.alarmAttempts timeRange_zero le_rfl

theorem alarmAttempt_good {deviceID : Bytes} {r : Record} {cause : Option Bytes} {final : Bool}
    {retryAt : Option Nat} (h : Good deviceID r) (hp : r.alarmState = .pending)
    (ht : InTime retryAt) : Good deviceID (alarmAttempt cause final retryAt r) := by
  obtain ⟨hrange, hnonneg⟩ := ht.range final
  have hn := h.valid.alarmAttempts
  refine show Good deviceID (withAlarm (alarmEntry (alarmAttempt cause final retryAt r)) r) from
    h.withAlarm ?_ ?_ (show 0 ≤ r.alarmAttempts + 1 by omega) hrange hnonneg
  · cases final <;> exact trivial
  · cases final with
    | true => rfl
    | false => exact if_neg (alarmSN_of_pending h.valid hp)

theorem evidenceSent_good {deviceID : Bytes} {r : Record} (h : Good deviceID r) :
    Good deviceID (evidenceSent r) :=
  show Good deviceID (withEvidence (evidenceEntry (evidenceSent r)) r) from
    h.withEvidence rfl h.valid.evidenceAttempts timeRange_zero le_rfl

theorem evidenceAttempt_good {deviceID : Bytes} {r : Record} {cause : Option Bytes} {final : Bool}
    {retryAt : Option Nat} (h : Good deviceID r) (ht : InTime retryAt) :
    Good deviceID (evidenceAttempt cause final retryAt r) := by
  obtain ⟨hrange, hnonneg⟩ := ht.range final
  have hn := h.valid.evidenceAttempts
  refine show Good deviceID
      (withEvidence (evidenceEntry (evidenceAttempt cause final retryAt r)) r) from
    h.withEvidence ?_ (show 0 ≤ r.evidenceAttempts + 1 by omega) hrange hnonneg
  cases final <;> rfl

theorem stagingFailure_good {deviceID : Bytes} {r : Record} {cause : Option Bytes} {final : Bool}
    (h : Good deviceID r) : Good deviceID (stagingFailure cause final r) := by
  have hn := h.valid.evidenceAttempts
  refine show Good deviceID (withEvidence (evidenceEntry (stagingFailure cause final r)) r) from
    h.withEvidence ?_ (show 0 ≤ r.evidenceAttempts + 1 by omega) timeRange_zero le_rfl
  cases final <;> rfl

theorem evidenceStateSet_good {deviceID : Bytes} {r : Record} {state : SinkState}
    {cause : Option Bytes} (h : Good deviceID r) (hv : validateEvidence state = none) :
    Good deviceID (evidenceStateSet state cause r) :=
  show Good deviceID (withEvidence (evidenceEntry (evidenceStateSet state cause r)) r) from
    h.withEvidence hv h.valid.evidenceAttempts h.portable.evidenceRetry h.valid.evidenceRetry

/-! ## What a call does -/

/-- The call puts the evidence of no UPDATE in staging, or `anyPhase`. -/
def Call.Stages (anyPhase : Prop) (s : Store) : Call → Prop
  | .stagingFailure key _ _ =>
    ∀ r, lookup key s.records = some r → r.event.phase = eventPhaseUpdate → anyPhase
  | .evidenceState _ state _ => state = .staging → anyPhase
  | _ => True

theorem stages_any (s : Store) (c : Call) : c.Stages True s := by
  cases c with
  | stagingFailure => exact fun _ _ _ => trivial
  | evidenceState => exact fun _ => trivial
  | _ => trivial

/-- What a call is: an enqueue, an acknowledgement, or an entry for one record that commits. -/
inductive Shape (anyPhase : Prop) (s : Store) : Call → Prop where
  | enqueue {event : AnalyticsEvent} {cursor : Nat} {alarm evidence : Bool} : Portable event →
      cursor < 2 ^ 64 → Shape anyPhase s (.enqueue event cursor alarm evidence)
  | ack {cursor : Nat} : cursor < 2 ^ 64 → Shape anyPhase s (.ack cursor)
  | mark {c : Call} {key : Bytes} {entry : Record → JournalEntry} {update : Record → Record} :
      (∀ env, c.run env s = outcome (Outbox.mark env key entry update s)) →
      (∀ r, lookup key s.records = some r →
        Commits anyPhase s.deviceID s.toMemory (entry (update r))
          { s.toMemory with records := Keyed.insert Record.key (update r) s.records }) →
      Shape anyPhase s c

variable {anyPhase : Prop}

theorem Call.Issued.shape {c : Call} {s : Store} (hi : c.Issued s)
    (hst : c.Stages anyPhase s) (hw : WF s.deviceID s.toMemory) : Shape anyPhase s c := by
  have alarm : ∀ {c : Call} {key : Bytes} {update : Record → Record},
      (∀ env, c.run env s = outcome (mark env key alarmEntry update s)) →
      (∀ r, withAlarm (alarmEntry (update r)) r = update r) →
      (∀ r, lookup key s.records = some r → Good s.deviceID (update r)) → Shape anyPhase s c :=
    fun hrun hu hg => .mark hrun fun r hr =>
      .alarm (by rw [Keyed.lookup_key hr]; exact hr) (hg r hr) (hu r)
  have evidence : ∀ {c : Call} {key : Bytes} {update : Record → Record},
      (∀ env, c.run env s = outcome (mark env key evidenceEntry update s)) →
      (∀ r, withEvidence (evidenceEntry (update r)) r = update r) →
      (∀ r, lookup key s.records = some r → Good s.deviceID (update r)) →
      (∀ r, lookup key s.records = some r → Stageable anyPhase (update r)) → Shape anyPhase s c :=
    fun hrun hu hg hst => .mark hrun fun r hr =>
      .evidence (by rw [Keyed.lookup_key hr]; exact hr) (hg r hr) (hu r) (hst r hr)
  cases c with
  | enqueue event cursor a e => exact .enqueue hi.1 hi.2
  | ack cursor => exact .ack hi
  | alarmSent key =>
    exact alarm (fun _ => rfl) (fun _ => rfl) fun r hr => alarmSent_good (hw.lookup_good hr)
  | alarmAttempt key cause final retryAt =>
    exact alarm (fun _ => rfl) (fun _ => rfl) fun r hr =>
      alarmAttempt_good (hw.lookup_good hr) (hi.2 r hr) hi.1
  | evidenceSent key =>
    exact evidence (fun _ => rfl) (fun _ => rfl) (fun r hr => evidenceSent_good (hw.lookup_good hr))
      fun r _ hs => by cases hs
  | evidenceAttempt key cause final retryAt =>
    refine evidence (fun _ => rfl) (fun _ => rfl)
      (fun r hr => evidenceAttempt_good (hw.lookup_good hr) hi) fun r _ hs => ?_
    cases final <;> cases hs
  | stagingFailure key cause final =>
    exact evidence (fun _ => rfl) (fun _ => rfl)
      (fun r hr => stagingFailure_good (hw.lookup_good hr)) fun r hr _ hp => hst r hr hp
  | evidenceState key state cause =>
    have hne : state ≠ .other [] := by
      rintro rfl
      cases hi
    have hrun : ∀ env, Call.run env (.evidenceState key state cause) s =
        outcome (mark env key evidenceEntry (evidenceStateSet state cause) s) := fun env => by
      rw [Call.run, markEvidenceState, if_neg hne]
    exact evidence hrun (fun _ => rfl) (fun r hr => evidenceStateSet_good (hw.lookup_good hr) hi)
      fun r _ hs _ => hst hs

/-- **Every call prepares and finishes.** -/
theorem call_does {env : Env} {c : Call} {s : Store} (hw : WF s.deviceID s.toMemory)
    (hi : c.Issued s) (hst : c.Stages anyPhase s) :
    Does (Fine (c.run env s).1) (¬ Faultless env) anyPhase s (c.run env s).2 := by
  cases hi.shape hst hw with
  | enqueue he hc => exact enqueue_does hw he hc
  | ack hc => exact ack_does hc
  | mark hrun hc =>
    rw [hrun]
    exact mark_does hc

end FlowAlarm.Outbox
