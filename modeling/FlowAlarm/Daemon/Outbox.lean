import FlowAlarm.Daemon.Entry
import FlowAlarm.Data.Keyed
import FlowAlarm.Text.Base64
import Mathlib.Data.List.Sort

/-!
# The outbox

`outbox/outbox.go`: the store of received events and their sink states, kept
in memory and in an append-only journal file. The file is part of the store as
its bytes. A map of records is a keyed list; where the source iterates over the
map and the order shows, the order is an argument.

The file system may fail in every append and compaction: `Io` says where, and
how many bytes of a line were written.
-/

namespace FlowAlarm.Outbox

open FlowAlarm.Text FlowAlarm.Media

def defaultMaxRecords : Nat := 4096
def defaultMaxBytes : Nat := 16 * 2 ^ 20
def maxAlarmSN : Nat := 999999
def maxLine : Nat := 8 * 2 ^ 20

/-! ## Keys and checks -/

/-- `Key`: the idempotency key of an event phase. -/
def keyOf (deviceID : Bytes) (event : AnalyticsEvent) : Bytes :=
  encode64 deviceID ++ 0x7C :: (encode64 event.channelID ++ 0x7C :: (encode64 event.eventID ++
    0x7C :: (encode64 event.phase ++ 0x7C :: dec event.eventSeq)))

def knownPhase (phase : Bytes) : Bool :=
  phase == eventPhaseStart || phase == eventPhaseUpdate || phase == eventPhaseEnd

inductive EventErr where
  | deviceID
  | eventID
  | channelID
  | eventSeq
  | phase (text : Bytes)
  deriving DecidableEq

def validateEvent (deviceID : Bytes) (event : AnalyticsEvent) : Option EventErr :=
  if trimSpace deviceID = [] then some .deviceID
  else if trimSpace event.eventID = [] then some .eventID
  else if trimSpace event.channelID = [] then some .channelID
  else if event.eventSeq = 0 then some .eventSeq
  else if knownPhase event.phase then none
  else some (.phase event.phase)

inductive RecordErr where
  | identity
  | eventSeq
  | phase (text : Bytes)
  | alarmSN
  | alarmState (state : SinkState)
  | evidenceState (state : SinkState)
  | retry
  deriving DecidableEq

/-- The check of the alarm state; a pending alarm needs its number. -/
def validateAlarm (state : SinkState) (alarmSN : Nat) : Option RecordErr :=
  match state with
  | .pending => if alarmSN = 0 then some .alarmSN else none
  | .sent | .ignored | .dead => none
  | state => some (.alarmState state)

def validateEvidence (state : SinkState) : Option RecordErr :=
  match state with
  | .other text => some (.evidenceState (.other text))
  | _ => none

def validateRecord (r : Record) : Option RecordErr :=
  if r.key = [] ∨ r.event.eventID = [] ∨ r.event.channelID = [] then some .identity
  else if r.event.eventSeq = 0 then some .eventSeq
  else if knownPhase r.event.phase = false then some (.phase r.event.phase)
  else
    match validateAlarm r.alarmState r.alarmSN with
    | some e => some e
    | none =>
      match validateEvidence r.evidenceState with
      | some e => some e
      | none =>
        if r.alarmAttempts < 0 ∨ r.alarmNextRetryAtUnixNano < 0 ∨ r.evidenceAttempts < 0 ∨
          r.evidenceNextRetryAtUnixNano < 0 then some .retry
        else none

/-! ## Replaying the journal -/

/-- What the journal determines. -/
structure Memory where
  records : List Record
  lastAck : Nat
  nextAlarmSN : Nat
  droppedUpdates : Nat
  deriving DecidableEq

def Memory.init : Memory := ⟨[], 0, 1, 0⟩

abbrev lookup (key : Bytes) (records : List Record) : Option Record :=
  Keyed.lookup Record.key key records

inductive ApplyErr where
  | version (v : Int)
  | device (got want : Bytes)
  | nextAlarmSN (n : Nat)
  | record (e : RecordErr)
  | key (key : Bytes)
  | duplicate (key : Bytes)
  | missing
  | unknownKey (key : Bytes)
  | unknownOp (text : Bytes)
  deriving DecidableEq

/-- The records of a snapshot, each checked, added to those before. -/
def applySnapshot (deviceID : Bytes) : List Record → List Record → Except ApplyErr (List Record)
  | records, [] => .ok records
  | records, r :: rs =>
    match validateRecord r with
    | some e => .error (.record e)
    | none =>
      if deviceID ≠ [] ∧ r.key ≠ keyOf deviceID r.event then .error (.key r.key)
      else if (lookup r.key records).isSome then .error (.duplicate r.key)
      else applySnapshot deviceID (Keyed.insert Record.key r records) rs

def entryRecord (e : JournalEntry) (event : AnalyticsEvent) : Record where
  key := e.key
  cursor := e.cursor
  event := event
  alarmState := e.alarmState
  evidenceState := e.evidenceState
  alarmSN := e.alarmSN
  alarmAttempts := e.alarmAttempts
  alarmLastError := e.alarmLastError
  alarmNextRetryAtUnixNano := e.alarmNextRetryAtUnixNano
  evidenceAttempts := e.evidenceAttempts
  evidenceNextRetryAtUnixNano := e.evidenceNextRetryAtUnixNano
  evidenceError := e.evidenceError

def withAlarm (e : JournalEntry) (r : Record) : Record :=
  { r with
    alarmState := e.alarmState
    alarmAttempts := e.alarmAttempts
    alarmLastError := e.alarmLastError
    alarmNextRetryAtUnixNano := e.alarmNextRetryAtUnixNano }

def withEvidence (e : JournalEntry) (r : Record) : Record :=
  { r with
    evidenceState := e.evidenceState
    evidenceAttempts := e.evidenceAttempts
    evidenceNextRetryAtUnixNano := e.evidenceNextRetryAtUnixNano
    evidenceError := e.evidenceError }

/-- A state entry updates the record it names. -/
def applyState (update : Record → Record) (key : Bytes) (m : Memory) : Except ApplyErr Memory :=
  match lookup key m.records with
  | none => .error (.unknownKey key)
  | some r =>
    match validateRecord (update r) with
    | some e => .error (.record e)
    | none => .ok { m with records := Keyed.insert Record.key (update r) m.records }

def badAlarmSN (n : Nat) : Bool := n == 0 || maxAlarmSN < n

def applyEntry (deviceID : Bytes) (m : Memory) (e : JournalEntry) : Except ApplyErr Memory :=
  if e.version ≠ journalVersion then .error (.version e.version)
  else if e.deviceID ≠ [] ∧ deviceID ≠ [] ∧ e.deviceID ≠ deviceID then
    .error (.device e.deviceID deviceID)
  else
    match e.op with
    | .snapshot =>
      if badAlarmSN e.nextAlarmSN then .error (.nextAlarmSN e.nextAlarmSN)
      else
        match applySnapshot deviceID [] e.records with
        | .error err => .error err
        | .ok records => .ok ⟨records, e.lastAck, e.nextAlarmSN, e.droppedUpdates⟩
    | .event =>
      match e.event with
      | none => .error .missing
      | some event =>
        if e.key = [] then .error .missing
        else if badAlarmSN e.nextAlarmSN then .error (.nextAlarmSN e.nextAlarmSN)
        else
          match validateRecord (entryRecord e event) with
          | some err => .error (.record err)
          | none =>
            if deviceID ≠ [] ∧ e.key ≠ keyOf deviceID event then .error (.key e.key)
            else .ok { m with
              records := Keyed.insert Record.key (entryRecord e event) m.records
              nextAlarmSN := e.nextAlarmSN }
    | .ack => .ok (if m.lastAck < e.cursor then { m with lastAck := e.cursor } else m)
    | .alarmState => applyState (withAlarm e) e.key m
    | .evidenceState => applyState (withEvidence e) e.key m
    | .other text => .error (.unknownOp text)

inductive LoadErr where
  | tooLong (line : Nat)
  | empty (line : Nat)
  | decode (line : Nat)
  | apply (line : Nat) (e : ApplyErr)
  deriving DecidableEq

/-- What loading leaves: the replayed memory, the file, and whether a tail was cut off. -/
structure Loaded where
  memory : Memory
  disk : Bytes
  recoveredTail : Bool
  deriving DecidableEq

/-- The loop of `load`; `before` is the file up to the line, `n` the lines before it. -/
def loadLines (deviceID : Bytes) : Nat → Memory → Bytes → List Bytes → Except LoadErr Loaded
  | _, m, before, [] => .ok ⟨m, before, false⟩
  | n, m, before, line :: rest =>
    if maxLine < line.length then .error (.tooLong (n + 1))
    else if trimSpace line = [] then
      if rest = [] then .ok ⟨m, before, true⟩ else .error (.empty (n + 1))
    else
      match decodeEntry (trimSpace line) with
      | none => if rest = [] then .ok ⟨m, before, true⟩ else .error (.decode (n + 1))
      | some e =>
        match applyEntry deviceID m e with
        | .error err => .error (.apply (n + 1) err)
        | .ok m' => loadLines deviceID (n + 1) m' (before ++ line) rest

def load (deviceID disk : Bytes) : Except LoadErr Loaded :=
  loadLines deviceID 0 .init [] (rawLines disk)

/-! ## The store -/

structure Store extends Memory where
  /-- The journal file is open for appending. -/
  isOpen : Bool
  deviceID : Bytes
  maxRecords : Nat
  maxBytes : Nat
  recoveredTail : Bool
  /-- The bytes of the journal file. -/
  disk : Bytes
  deriving DecidableEq

inductive IoStep where
  | stat
  | compact
  | reopen
  | write
  deriving DecidableEq

/-- An error of an operation; `exhausted` is the plain `ErrCapacity`. -/
inductive Err where
  | closed
  | capacity (need limit : Nat)
  | exhausted
  | boundaryCapacity
  | updateDropped
  | invalidEvent (e : EventErr)
  | unknownKey (key : Bytes)
  | stateRequired
  | io (step : IoStep)
  deriving DecidableEq

/-- `errors.Is(err, ErrCapacity)`. -/
def Err.isCapacity : Err → Bool
  | .capacity _ _ | .exhausted | .boundaryCapacity => true
  | _ => false

/-- What the file system does to a compaction: it may fail before the rename, or after it. -/
inductive CompactIo where
  | done
  | failed
  | renamed
  deriving DecidableEq

/-- What the file system does to an append. A failed write or sync leaves the given number of
bytes of the line. -/
structure Io where
  statFails : Bool
  compact : CompactIo
  restatFails : Bool
  write : Option Nat
  deriving DecidableEq

def Io.good : Io := ⟨false, .done, false, none⟩

/-- An iteration order of a map. -/
structure MapOrder where
  order : List Record → List Record
  perm : ∀ rs, (order rs).Perm rs

def MapOrder.id : MapOrder := ⟨fun rs => rs, fun _ => .refl _⟩

/-- The surroundings of one operation: the iteration order and the file system at each of its
compactions and appends. -/
structure Env where
  order : MapOrder
  io : Nat → Io

def Env.good : Env := ⟨.id, fun _ => .good⟩

/-! ## Appending and compacting -/

/-- The order of the snapshot and of the listings. -/
def less (a b : Record) : Bool :=
  if a.cursor = b.cursor then decide (a.key < b.key) else decide (a.cursor < b.cursor)

def sortRecords (rs : List Record) : List Record :=
  rs.insertionSort fun a b => less b a = false

def snapshotEntry (s : Store) : JournalEntry :=
  { JournalEntry.zero with
    op := .snapshot
    deviceID := s.deviceID
    lastAck := s.lastAck
    nextAlarmSN := s.nextAlarmSN
    droppedUpdates := s.droppedUpdates
    records := sortRecords s.records }

def compactLocked (io : CompactIo) (s : Store) : Option Err × Store :=
  if s.isOpen = false then (some .closed, s)
  else
    let data := encodeEntry (snapshotEntry s)
    if s.maxBytes < data.length then (some (.capacity data.length s.maxBytes), s)
    else
      match io with
      | .done => (none, { s with disk := data })
      | .failed => (some (.io .compact), s)
      | .renamed => (some (.io .reopen), { s with disk := data, isOpen := false })

/-- The write and sync of a line. -/
def writeAll (write : Option Nat) (data : Bytes) (s : Store) : Option Err × Store :=
  match write with
  | none => (none, { s with disk := s.disk ++ data })
  | some n => (some (.io .write), { s with disk := s.disk ++ data.take n })

def appendLocked (io : Io) (entry : JournalEntry) (s : Store) : Option Err × Store :=
  if s.isOpen = false then (some .closed, s)
  else
    let data := encodeEntry entry
    if io.statFails then (some (.io .stat), s)
    else if s.maxBytes < s.disk.length + data.length then
      match compactLocked io.compact s with
      | (some e, s') => (some e, s')
      | (none, s') =>
        if io.restatFails then (some (.io .stat), s')
        else if s'.maxBytes < s'.disk.length + data.length then
          (some (.capacity data.length s'.disk.length), s')
        else writeAll io.write data s'
    else writeAll io.write data s

/-! ## Making room -/

def terminal (r : Record) : Bool :=
  r.alarmState != .pending && r.evidenceState != .pending && r.evidenceState != .staging

def oldestTerminal (records : List Record) : Option Record :=
  Keyed.selectBest terminal less records

/-- The loop of `makeRoomForBoundaryLocked`; `none` if no terminal record is left to evict. -/
def evictTerminals (maxRecords : Nat) : Nat → List Record → Option (List Record)
  | 0, records => if records.length < maxRecords then some records else none
  | n + 1, records =>
    if records.length < maxRecords then some records
    else
      match oldestTerminal records with
      | none => none
      | some c => evictTerminals maxRecords n (Keyed.erase Record.key c.key records)

/-- Compaction with `records` in place of the store's, which come back if it fails. -/
def compactTo (io : CompactIo) (records : List Record) (s : Store) : Option Err × Store :=
  match compactLocked io { s with records := records } with
  | (some e, s') => (some e, { s' with records := s.records })
  | (none, s') => (none, s')

def makeRoomForBoundaryLocked (io : CompactIo) (s : Store) : Option Err × Store :=
  match evictTerminals s.maxRecords s.records.length s.records with
  | none => (some .boundaryCapacity, s)
  | some records => compactTo io records s

/-- An UPDATE of the same event that no sink waits for. -/
def coalescible (event : AnalyticsEvent) (r : Record) : Bool :=
  r.event.channelID == event.channelID && r.event.eventID == event.eventID &&
    r.event.phase == eventPhaseUpdate && r.alarmState != .pending && r.evidenceState != .pending

def coalesceCandidate (event : AnalyticsEvent) (records : List Record) : Option Record :=
  Keyed.selectBest (coalescible event) (fun r c => c.cursor < r.cursor) records

/-- Whether an UPDATE was coalesced, or an error. -/
def coalesceUpdateLocked (env : Env) (event : AnalyticsEvent) (s : Store) :
    Except Err Bool × Store :=
  match coalesceCandidate event (env.order.order s.records) with
  | none => (.ok false, s)
  | some c =>
    match compactTo (env.io 0).compact (Keyed.erase Record.key c.key s.records) s with
    | (some e, s') => (.error e, s')
    | (none, s') => (.ok true, s')

def dropUpdate (s : Store) : Store := { s with droppedUpdates := (s.droppedUpdates + 1) % 2 ^ 64 }

/-- The branch of `EnqueueWithEvidence` for a full store. -/
def makeRoom (env : Env) (event : AnalyticsEvent) (s : Store) : Option Err × Store :=
  if s.maxRecords ≤ s.records.length then
    if event.phase = eventPhaseUpdate then
      match coalesceUpdateLocked env event s with
      | (.error e, s') => (some e, s')
      | (.ok true, s') => (none, s')
      | (.ok false, s') => (some .updateDropped, dropUpdate s')
    else makeRoomForBoundaryLocked (env.io 0).compact s
  else (none, s)

/-- The loop of `appendBoundaryAfterBytePressureLocked`, with the error to return and the number
of file-system steps before. -/
def appendUnderPressure (env : Env) (entry : JournalEntry) :
    Nat → Nat → Err → Store → Option Err × Store
  | 0, _, lastErr, s => (some lastErr, s)
  | fuel + 1, n, lastErr, s =>
    match oldestTerminal s.records with
    | none => (some lastErr, s)
    | some c =>
      match compactLocked (env.io n).compact
          { s with records := Keyed.erase Record.key c.key s.records } with
      | (some e, s') => (some e, s')
      | (none, s') =>
        match appendLocked (env.io (n + 1)) entry s' with
        | (none, s'') => (none, s'')
        | (some e, s'') =>
          if e.isCapacity then appendUnderPressure env entry fuel (n + 2) e s'' else (some e, s'')

def appendBoundaryAfterBytePressureLocked (env : Env) (entry : JournalEntry) (s : Store) :
    Option Err × Store :=
  appendUnderPressure env entry s.records.length 2 .exhausted s

/-! ## Operations -/

def allocateAlarmSNLocked (s : Store) : Nat × Store :=
  let sn := if badAlarmSN s.nextAlarmSN then 1 else s.nextAlarmSN
  (sn, { s with nextAlarmSN := if maxAlarmSN < sn + 1 then 1 else sn + 1 })

/-- The evidence state of a new record and its error text. -/
def newEvidence (event : AnalyticsEvent) (evidenceEnabled : Bool) : SinkState × Bytes :=
  if evidenceEnabled then
    if event.phase ≠ eventPhaseStart then (.ignored, ascii "only START events upload evidence")
    else if event.evidenceID = [] then (.dead, ascii "event has no evidence_id")
    else (.pending, [])
  else (.disabled, [])

def newRecord (deviceID : Bytes) (event : AnalyticsEvent) (cursor : Nat) (alarm : SinkState)
    (alarmSN : Nat) (evidenceEnabled : Bool) : Record :=
  { Record.zero with
    key := keyOf deviceID event
    cursor := cursor
    event := event
    alarmState := alarm
    evidenceState := (newEvidence event evidenceEnabled).1
    alarmSN := alarmSN
    evidenceError := (newEvidence event evidenceEnabled).2 }

def eventEntry (r : Record) (deviceID : Bytes) (nextAlarmSN : Nat) : JournalEntry :=
  { JournalEntry.zero with
    op := .event
    deviceID := deviceID
    key := r.key
    cursor := r.cursor
    event := some r.event
    alarmState := r.alarmState
    evidenceState := r.evidenceState
    alarmSN := r.alarmSN
    evidenceError := r.evidenceError
    nextAlarmSN := nextAlarmSN }

/-- The durable append of a new record, evicting terminal records for a START or END. -/
def appendRecord (env : Env) (r : Record) (s : Store) : Option Err × Store :=
  match appendLocked (env.io 1) (eventEntry r s.deviceID s.nextAlarmSN) s with
  | (none, s') => (none, s')
  | (some e, s') =>
    if e.isCapacity ∧ r.event.phase ≠ eventPhaseUpdate then
      appendBoundaryAfterBytePressureLocked env (eventEntry r s.deviceID s.nextAlarmSN) s'
    else (some e, s')

/-- The alarm state and number of a new record. -/
def scheduleAlarm (alarmEnabled : Bool) (s : Store) : SinkState × Nat × Store :=
  if alarmEnabled then (.pending, allocateAlarmSNLocked s) else (.ignored, 0, s)

def insertRecord (r : Record) (s : Store) : Store :=
  { s with records := Keyed.insert Record.key r s.records }

def enqueueWithEvidence (env : Env) (event : AnalyticsEvent) (cursor : Nat)
    (alarmEnabled evidenceEnabled : Bool) (s : Store) : Except Err (Record × Bool) × Store :=
  if s.isOpen = false then (.error .closed, s)
  else
    match validateEvent s.deviceID event with
    | some e => (.error (.invalidEvent e), s)
    | none =>
      match lookup (keyOf s.deviceID event) s.records with
      | some r => (.ok (r, false), s)
      | none =>
        match makeRoom env event s with
        | (some e, s₁) => (.error e, s₁)
        | (none, s₁) =>
          let (alarm, alarmSN, s₂) := scheduleAlarm alarmEnabled s₁
          let r := newRecord s.deviceID event cursor alarm alarmSN evidenceEnabled
          match appendRecord env r s₂ with
          | (none, s₃) => (.ok (r, true), insertRecord r s₃)
          | (some e, s₃) =>
            let s₄ := { s₃ with nextAlarmSN := s₂.nextAlarmSN }
            if event.phase = eventPhaseUpdate ∧ e.isCapacity then
              (.error .updateDropped, dropUpdate s₄)
            else (.error e, s₄)

def ackEntry (cursor : Nat) : JournalEntry := { JournalEntry.zero with op := .ack, cursor := cursor }

def ack (env : Env) (cursor : Nat) (s : Store) : Option Err × Store :=
  if s.isOpen = false then (some .closed, s)
  else if cursor ≤ s.lastAck then (none, s)
  else
    match appendLocked (env.io 1) (ackEntry cursor) s with
    | (some e, s') => (some e, s')
    | (none, s') => (none, { s' with lastAck := cursor })

def alarmEntry (r : Record) : JournalEntry :=
  { JournalEntry.zero with
    op := .alarmState
    key := r.key
    alarmState := r.alarmState
    alarmAttempts := r.alarmAttempts
    alarmLastError := r.alarmLastError
    alarmNextRetryAtUnixNano := r.alarmNextRetryAtUnixNano }

def evidenceEntry (r : Record) : JournalEntry :=
  { JournalEntry.zero with
    op := .evidenceState
    key := r.key
    evidenceState := r.evidenceState
    evidenceAttempts := r.evidenceAttempts
    evidenceNextRetryAtUnixNano := r.evidenceNextRetryAtUnixNano
    evidenceError := r.evidenceError }

/-- The body of the operations that change the state of one record. -/
def mark (env : Env) (key : Bytes) (entry : Record → JournalEntry) (update : Record → Record)
    (s : Store) : Except Err Record × Store :=
  match lookup key s.records with
  | none => (.error (.unknownKey key), s)
  | some r =>
    match appendLocked (env.io 1) (entry (update r)) s with
    | (some e, s') => (.error e, s')
    | (none, s') => (.ok (update r), insertRecord (update r) s')

/-- `trimError`; `none` is a nil error. -/
def trimError (cause : Option Bytes) : Bytes := (cause.getD []).take 512

/-- The retry time of an attempt; `none` is the zero time. -/
def retryTime (retryAt : Option Nat) : Int := (retryAt.getD 0 : Nat)

def alarmSent (r : Record) : Record :=
  { r with alarmState := .sent, alarmLastError := [], alarmNextRetryAtUnixNano := 0 }

def alarmAttempt (cause : Option Bytes) (final : Bool) (retryAt : Option Nat) (r : Record) : Record :=
  { r with
    alarmAttempts := r.alarmAttempts + 1
    alarmLastError := trimError cause
    alarmNextRetryAtUnixNano := if final then 0 else retryTime retryAt
    alarmState := if final then .dead else .pending }

def evidenceSent (r : Record) : Record :=
  { r with evidenceState := .sent, evidenceError := [], evidenceNextRetryAtUnixNano := 0 }

def evidenceAttempt (cause : Option Bytes) (final : Bool) (retryAt : Option Nat) (r : Record) :
    Record :=
  { r with
    evidenceAttempts := r.evidenceAttempts + 1
    evidenceError := trimError cause
    evidenceNextRetryAtUnixNano := if final then 0 else retryTime retryAt
    evidenceState := if final then .dead else .pending }

def stagingFailure (cause : Option Bytes) (final : Bool) (r : Record) : Record :=
  { r with
    evidenceAttempts := r.evidenceAttempts + 1
    evidenceError := trimError cause
    evidenceNextRetryAtUnixNano := 0
    evidenceState := if final then .dead else .staging }

def evidenceStateSet (state : SinkState) (cause : Option Bytes) (r : Record) : Record :=
  { r with evidenceState := state, evidenceError := trimError cause }

def markAlarmSent (env : Env) (key : Bytes) : Store → Except Err Record × Store :=
  mark env key alarmEntry alarmSent

def markAlarmAttempt (env : Env) (key : Bytes) (cause : Option Bytes) (final : Bool)
    (retryAt : Option Nat) : Store → Except Err Record × Store :=
  mark env key alarmEntry (alarmAttempt cause final retryAt)

def markEvidenceSent (env : Env) (key : Bytes) : Store → Except Err Record × Store :=
  mark env key evidenceEntry evidenceSent

def markEvidenceAttempt (env : Env) (key : Bytes) (cause : Option Bytes) (final : Bool)
    (retryAt : Option Nat) : Store → Except Err Record × Store :=
  mark env key evidenceEntry (evidenceAttempt cause final retryAt)

def markEvidenceStagingFailure (env : Env) (key : Bytes) (cause : Option Bytes) (final : Bool) :
    Store → Except Err Record × Store :=
  mark env key evidenceEntry (stagingFailure cause final)

def markEvidenceState (env : Env) (key : Bytes) (state : SinkState) (cause : Option Bytes)
    (s : Store) : Except Err Record × Store :=
  if state = .other [] then (.error .stateRequired, s)
  else mark env key evidenceEntry (evidenceStateSet state cause) s

def pendingAlarms (s : Store) : List Record :=
  sortRecords (s.records.filter fun r => r.alarmState == .pending)

def pendingEvidence (s : Store) : List Record :=
  sortRecords (s.records.filter fun r => r.evidenceState == .pending)

/-! ## Opening -/

structure Options where
  deviceID : Bytes
  maxRecords : Int
  maxBytes : Int
  deriving DecidableEq

inductive OpenErr where
  | limits
  | load (e : LoadErr)
  | compact (e : Err)
  deriving DecidableEq

def freshStore (opts : Options) (l : Loaded) : Store where
  toMemory := l.memory
  isOpen := true
  deviceID := opts.deviceID
  maxRecords := if opts.maxRecords = 0 then defaultMaxRecords else opts.maxRecords.toNat
  maxBytes := if opts.maxBytes = 0 then defaultMaxBytes else opts.maxBytes.toNat
  recoveredTail := l.recoveredTail
  disk := l.disk

/-- `Open` on a file, and the file it leaves. -/
def openStore (opts : Options) (io : CompactIo) (disk : Bytes) : Except OpenErr Store × Bytes :=
  if opts.maxRecords < 0 ∨ opts.maxBytes < 0 then (.error .limits, disk)
  else
    match load opts.deviceID disk with
    | .error e => (.error (.load e), disk)
    | .ok l =>
      let s := freshStore opts l
      if s.maxBytes < s.disk.length then
        match compactLocked io s with
        | (some e, s') => (.error (.compact e), s'.disk)
        | (none, s') => (.ok s', s'.disk)
      else (.ok s, s.disk)

end FlowAlarm.Outbox
