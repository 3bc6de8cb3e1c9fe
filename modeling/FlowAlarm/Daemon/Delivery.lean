import FlowAlarm.Daemon.AlarmBody
import FlowAlarm.Daemon.Backoff
import FlowAlarm.Daemon.Runs
import FlowAlarm.Daemon.Staging
import FlowAlarm.Daemon.Wire

/-!
# The delivery service

`delivery.go`: the event stream (`ingest`), the alarm loop and the evidence loop
of one service, which share the outbox and the evidence directory. Each loop is
what it does next, and `step` lets one of them take its next step: one call of
the outbox, one step on the directory, or one message or upload with its answer.
-/

namespace FlowAlarm.Delivery

open FlowAlarm.Text FlowAlarm.Media FlowAlarm.Evidence FlowAlarm.Outbox FlowAlarm.GbXml
open FlowAlarm.Wire (EventNotification)

/-! ## Settings -/

structure Config extends AlarmConfig, EvidenceConfig where
  deviceID : Bytes
  maxRecords : Int
  maxBytes : Int
  sendUpdates : Bool
  sendEnds : Bool
  maxAttempts : Int
  retryBase : Int
  retryMax : Int
  evidenceEnabled : Bool

/-- The settings that `New` goes on with; `outboxDir` is the directory of the outbox file. -/
def Config.filled (outboxDir : Bytes) (cfg : Config) : Config :=
  { cfg with
    toAlarmConfig := cfg.toAlarmConfig.filled
    maxAttempts := if cfg.maxAttempts ≤ 0 then 10 else cfg.maxAttempts
    retryBase := if cfg.retryBase ≤ 0 then second else cfg.retryBase
    retryMax := if cfg.retryMax ≤ 0 then 5 * minute else cfg.retryMax
    evidenceOutboxDir :=
      if cfg.evidenceEnabled ∧ trimSpace cfg.evidenceOutboxDir = [] then outboxDir ++ ascii "/evidence"
      else cfg.evidenceOutboxDir
    evidenceMaxBytes :=
      if cfg.evidenceEnabled ∧ cfg.evidenceMaxBytes ≤ 0 then 64 * 2 ^ 20 else cfg.evidenceMaxBytes }

def Config.options (cfg : Config) : Options := ⟨cfg.deviceID, cfg.maxRecords, cfg.maxBytes⟩

def alarmEnabled (cfg : Config) (phase : Bytes) : Bool :=
  if phase = eventPhaseStart then true
  else if phase = eventPhaseUpdate then cfg.sendUpdates
  else if phase = eventPhaseEnd then cfg.sendEnds
  else false

/-! ## The loops -/

/-- A notification and what `Lookup` found under its key. -/
structure Job where
  notification : EventNotification
  existing : Option Record

def Job.event (job : Job) : AnalyticsEvent := job.notification.event

def Job.stageRequired (cfg : Config) (job : Job) : Bool :=
  cfg.evidenceEnabled && job.event.phase == eventPhaseStart && job.event.evidenceID != [] &&
    match job.existing with
    | none => true
    | some r => r.evidenceState != .sent && r.evidenceState != .dead

/-- What came of staging: nothing was to be staged, an error, or evidence that was verified. -/
abbrev Staged := Option (Except StageErr (Bytes × Bytes))

/-- What `ingest` does next. -/
inductive Ingest where
  | idle
  | staging (job : Job) (st : Staging)
  | enqueue (job : Job) (staged : Staged)
  | requeue (job : Job) (staged : Staged) (record : Record)
  | failed (job : Job) (record : Record) (e : StageErr)
  | ack (job : Job) (staged : Staged)
  | giveUp (job : Job) (updated : Record)

/-- What the alarm loop does next; `sent` has an answer to record. -/
inductive AlarmLoop where
  | idle
  | pass (now : Int) (rest : List Record)
  | sent (now : Int) (record : Record) (answer : Option Bytes) (rest : List Record)

/-- What the evidence loop does next. -/
inductive EvidenceLoop where
  | idle
  | pass (now : Int) (rest : List Record)
  | loaded (now : Int) (record : Record) (metadata image : Bytes) (rest : List Record)
  | sent (now : Int) (record : Record) (answer : Option Bytes) (rest : List Record)
  | removing (now : Int) (names : List Bytes) (rest : List Record)

structure World where
  store : Store
  /-- The evidence outbox directory. -/
  staged : Directory.Files
  /-- The directory of the engine. -/
  source : Directory.Files
  ingest : Ingest
  alarm : AlarmLoop
  evidence : EvidenceLoop

/-- The surroundings of a step: the outbox file, the file system, the clock, the text of an error,
and the random source of a delay with the largest `int`. -/
structure Turn where
  env : Env
  io : FileIo
  now : Int
  cause : Bytes
  draw : ℤ → Option ℤ
  maxInt : ℤ

inductive IngestErr where
  | outbox (e : Err)
  | staging (e : StageErr)
  deriving DecidableEq

/-- What the service shows: a message with its answer, an upload with its answer, the log line of
evidence that is not staged any more, and what `ingest` returns. -/
inductive Output where
  | message (record : Record) (body : Bytes) (answer : Option Bytes)
  | upload (record : Record) (metadata image : Bytes) (answer : Option Bytes)
  | gaveUp (updated : Record)
  | returned (notification : EventNotification) (result : Option IngestErr)

def retryAt (cfg : Config) (t : Turn) (attempt : Int) : Option Nat :=
  (boundedBackoff t.draw t.maxInt cfg.retryBase cfg.retryMax attempt).map fun d => (t.now + d).toNat

/-- The call that records a failed attempt. -/
def attemptCall (call : Bytes → Option Bytes → Bool → Option Nat → Call) (cfg : Config) (t : Turn)
    (attempts : Int) (key cause : Bytes) : Call :=
  let final := decide (cfg.maxAttempts ≤ attempts + 1)
  call key (some cause) final (if final then none else retryAt cfg t (attempts + 1))

/-! ## Ingesting -/

/-- The start of `ingest`, up to `Lookup`. -/
def beginIngest (cfg : Config) (n : EventNotification) (w : World) : World :=
  let job : Job := ⟨n, lookup (keyOf cfg.deviceID n.event) w.store.records⟩
  { w with ingest := if job.stageRequired cfg then .staging job .check else .enqueue job none }

/-- What follows `EnqueueWithEvidence`. -/
def enqueued (job : Job) (staged : Staged) : Except Err (Record × Bool) → Ingest × List Output
  | .error .updateDropped => (.ack job staged, [])
  | .error e => (.idle, [.returned job.notification (some (.outbox e))])
  | .ok (r, added) =>
    match staged with
    | some (.error e) => (.failed job r e, [])
    | some (.ok _) =>
      if !added && (r.evidenceState == .dead || r.evidenceState == .staging ||
          r.evidenceState == .ignored) then (.requeue job staged r, [])
      else (.ack job staged, [])
    | none => (.ack job staged, [])

/-- The next step of `ingest`. -/
def stepIngest (sha : Sha256) (cfg : Config) (t : Turn) (w : World) : World × List Output :=
  match w.ingest with
  | .idle => (w, [])
  | .staging job st =>
    let r := stageStep sha cfg.toEvidenceConfig w.source t.io job.event w.staged st
    match r.1 with
    | .finished result => ({ w with staged := r.2, ingest := .enqueue job (some result) }, [])
    | st' => ({ w with staged := r.2, ingest := .staging job st' }, [])
  | .enqueue job staged =>
    let r := enqueueWithEvidence t.env job.event job.notification.cursor
      (alarmEnabled cfg job.event.phase) cfg.evidenceEnabled w.store
    let next := enqueued job staged r.1
    ({ w with store := r.2, ingest := next.1 }, next.2)
  | .requeue job staged r =>
    let x := (Call.evidenceState r.key .pending none).run t.env w.store
    match x.1 with
    | none => ({ w with store := x.2, ingest := .ack job staged }, [])
    | some e => ({ w with store := x.2, ingest := .idle },
        [.returned job.notification (some (.outbox e))])
  | .failed job r e =>
    let final := decide (cfg.maxAttempts ≤ r.evidenceAttempts + 1)
    let x := markEvidenceStagingFailure t.env r.key (some t.cause) final w.store
    match x.1 with
    | .error err => ({ w with store := x.2, ingest := .idle },
        [.returned job.notification (some (.outbox err))])
    | .ok updated =>
      if final then ({ w with store := x.2, ingest := .giveUp job updated }, [])
      else ({ w with store := x.2, ingest := .idle },
        [.returned job.notification (some (.staging e))])
  | .ack job _ =>
    let x := (Call.ack job.notification.cursor).run t.env w.store
    ({ w with store := x.2, ingest := .idle },
      [.returned job.notification (x.1.map .outbox)])
  | .giveUp job updated =>
    let x := (Call.ack job.notification.cursor).run t.env w.store
    ({ w with store := x.2, ingest := .idle },
      match x.1 with
      | some err => [.returned job.notification (some (.outbox err))]
      | none => [.gaveUp updated, .returned job.notification none])

/-! ## The alarm loop -/

/-- The error of a record that no message can be made of. -/
def invalidAlarm : Bytes := ascii "alarm record is missing SN or channel_id"

/-- The next step of the alarm loop: the start of a pass, one record, or the record of an answer. -/
def stepAlarm (cfg : Config) (zone : Zone) (t : Turn) (answer : Option Bytes) (w : World) :
    World × List Output :=
  match w.alarm with
  | .idle => ({ w with alarm := .pass t.now (pendingAlarms w.store) }, [])
  | .pass _ [] => ({ w with alarm := .idle }, [])
  | .pass now (r :: rest) =>
    if 0 < r.alarmNextRetryAtUnixNano ∧ now < r.alarmNextRetryAtUnixNano then
      ({ w with alarm := .pass now rest }, [])
    else if r.alarmSN = 0 ∨ trimSpace r.event.channelID = [] then
      let x := (Call.alarmAttempt r.key (some invalidAlarm) true none).run t.env w.store
      ({ w with store := x.2, alarm := .pass now rest }, [])
    else
      ({ w with alarm := .sent now r answer rest },
        [.message r (alarmBody cfg.toAlarmConfig zone r) answer])
  | .sent now r none rest =>
    let x := (Call.alarmSent r.key).run t.env w.store
    ({ w with store := x.2, alarm := .pass now rest }, [])
  | .sent now r (some cause) rest =>
    let x := (attemptCall .alarmAttempt cfg t r.alarmAttempts r.key cause).run t.env w.store
    ({ w with store := x.2, alarm := .pass now rest }, [])

/-! ## The evidence loop -/

/-- The files that `removeStagedEvidence` removes. -/
def stagedNames (cfg : Config) (event : AnalyticsEvent) : List Bytes :=
  if trimSpace cfg.evidenceOutboxDir = [] ∨ !validEvidenceComponent event.evidenceID then []
  else [jsonName event.evidenceID, jpegName event.evidenceID]

def stepEvidence (sha : Sha256) (cfg : Config) (t : Turn) (answer : Option Bytes) (w : World) :
    World × List Output :=
  match w.evidence with
  | .idle =>
    if cfg.evidenceEnabled then
      ({ w with evidence := .pass t.now (pendingEvidence w.store) }, [])
    else (w, [])
  | .pass _ [] => ({ w with evidence := .idle }, [])
  | .pass now (r :: rest) =>
    if 0 < r.evidenceNextRetryAtUnixNano ∧ now < r.evidenceNextRetryAtUnixNano then
      ({ w with evidence := .pass now rest }, [])
    else
      match loadEvidence sha cfg.evidenceOutboxDir w.staged r.event with
      | .ok (metadata, image) => ({ w with evidence := .loaded now r metadata image rest }, [])
      | .error _ => ({ w with evidence := .sent now r (some t.cause) rest }, [])
  | .loaded now r metadata image rest =>
    ({ w with evidence := .sent now r answer rest }, [.upload r metadata image answer])
  | .sent now r none rest =>
    let x := (Call.evidenceSent r.key).run t.env w.store
    let names := if x.1 = none then stagedNames cfg r.event else []
    ({ w with store := x.2, evidence := .removing now names rest }, [])
  | .sent now r (some cause) rest =>
    let x := (attemptCall .evidenceAttempt cfg t r.evidenceAttempts r.key cause).run t.env w.store
    let final := decide (cfg.maxAttempts ≤ r.evidenceAttempts + 1)
    let names := if x.1 = none ∧ final then stagedNames cfg r.event else []
    ({ w with store := x.2, evidence := .removing now names rest }, [])
  | .removing now [] rest => ({ w with evidence := .pass now rest }, [])
  | .removing now (name :: names) rest =>
    ({ w with
        staged := if t.io = .done then Keyed.erase Prod.fst name w.staged else w.staged
        evidence := .removing now names rest }, [])

/-! ## The service -/

/-- What comes next in a run: the engine writes to its directory, the stream hands over a
notification, a loop takes a step or is cancelled between records. -/
inductive Input where
  | engine (files : Directory.Files)
  | notify (n : EventNotification)
  | ingest (t : Turn)
  | alarm (t : Turn) (answer : Option Bytes)
  | evidence (t : Turn) (answer : Option Bytes)
  | cancelAlarm
  | cancelEvidence

def step (sha : Sha256) (cfg : Config) (zone : Zone) (w : World) : Input → World × List Output
  | .engine files => ({ w with source := files }, [])
  | .notify n =>
    match w.ingest with
    | .idle => (beginIngest cfg n w, [])
    | _ => (w, [])
  | .ingest t => stepIngest sha cfg t w
  | .alarm t answer => stepAlarm cfg zone t answer w
  | .evidence t answer => stepEvidence sha cfg t answer w
  | .cancelAlarm =>
    match w.alarm with
    | .pass _ _ => ({ w with alarm := .idle }, [])
    | _ => (w, [])
  | .cancelEvidence =>
    match w.evidence with
    | .pass _ _ => ({ w with evidence := .idle }, [])
    | _ => (w, [])

/-- A service at its start. -/
def World.start (s : Store) (staged source : Directory.Files) : World :=
  ⟨s, staged, source, .idle, .idle, .idle⟩

end FlowAlarm.Delivery
