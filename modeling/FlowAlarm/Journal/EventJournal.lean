import FlowAlarm.Codec.RoundTrips

/-!
# The event journal

`event_journal.c`: a bounded queue of records mirrored in a file of JSON
lines. `meEventJournalOpen` reads the file up to the first line it cannot
accept and cuts the rest off, `meEventJournalAppend` makes room by evicting
the oldest UPDATE records (a rewrite through a temporary file and a rename)
and appends one line. The file is its bytes; every operation returns the next
content beside its result.
-/

namespace FlowAlarm.Journal

open FlowAlarm.Text FlowAlarm.CJson FlowAlarm.Engine FlowAlarm.Codec

def meEventJournalVersion : ℕ := 1

structure JournalRecord where
  cursor : ℕ
  event : MeAnalyticsEvent
  bytes : ℕ
  deriving DecidableEq

structure MeEventJournal where
  records : List JournalRecord
  maxRecords : ℕ
  maxBytes : ℕ
  bytes : ℕ
  nextCursor : ℕ
  droppedUpdates : ℕ
  deriving DecidableEq

/-! ## Lines -/

def recordMembers (cursor : ℕ) (event : Json) : List (Bytes × Json) :=
  [(ascii "v", natItem meEventJournalVersion), (ascii "cursor", natItem cursor),
    (ascii "event", event)]

/-- The line of a record, without its newline. -/
def recordText (cursor : ℕ) (event : MeAnalyticsEvent) : Option Bytes :=
  (meAnalyticsEventToJson event).map fun j => printUnformatted (.obj (recordMembers cursor j))

def recordToLine (cursor : ℕ) (event : MeAnalyticsEvent) : Option Bytes :=
  (recordText cursor event).map (· ++ [newline])

def recordFromLine (line : Bytes) : Except Bytes JournalRecord :=
  match parseWithLength line with
  | some (.obj ms) =>
    match jsonU64 (.obj ms) (ascii "v"), jsonU64 (.obj ms) (ascii "cursor") with
    | some version, some cursor =>
      if version ≠ meEventJournalVersion ∨ cursor = 0 then
        .error (ascii "event journal line has invalid version/cursor")
      else
        match getObjectItem (.obj ms) (ascii "event") with
        | none => .error []
        | some object =>
          match meAnalyticsEventFromJson object with
          | .error err => .error err
          | .ok event => .ok ⟨cursor, event, line.length⟩
    | _, _ => .error (ascii "event journal line has invalid version/cursor")
  | _ => .error (ascii "event journal line is not an object")

/-! ## Eviction and rewriting -/

/-- The records without the oldest UPDATE, if there is one. -/
def removeOldestUpdate : List JournalRecord → Option (List JournalRecord)
  | [] => none
  | r :: rs => if r.event.phase = .update then some rs else (removeOldestUpdate rs).map (r :: ·)

def totalBytes (rs : List JournalRecord) : ℕ := (rs.map (·.bytes)).sum

/-- Removes oldest UPDATEs while `full` holds; the first argument bounds the removals. -/
def evictWhile (full : List JournalRecord → Bool) :
    ℕ → List JournalRecord → Option (List JournalRecord)
  | fuel, rs =>
    if !full rs then some rs
    else match removeOldestUpdate rs with
      | none => none
      | some rs' =>
        match fuel with
        | 0 => none
        | fuel + 1 => evictWhile full fuel rs'

/-- `write_records`: the text of the records, with their byte counts renewed. -/
def writeRecords : List JournalRecord → Option (List JournalRecord × Bytes)
  | [] => some ([], [])
  | r :: rs =>
    match recordToLine r.cursor r.event, writeRecords rs with
    | some line, some (rs, text) => some ({ r with bytes := line.length } :: rs, line ++ text)
    | _, _ => none

/-- What `compact_to_fit_locked` decides. -/
inductive Compaction where
  | fits
  | rewrite (keep : List JournalRecord)
  | dropped
  | failed (err : Bytes)

def compactToFit (j : MeEventJournal) (incoming : ℕ) (phase : MeEventPhase) : Compaction :=
  if j.records.length + 1 ≤ j.maxRecords ∧ j.bytes ≤ j.maxBytes ∧
      incoming ≤ j.maxBytes - j.bytes then .fits
  else if j.maxBytes < incoming then
    if phase = .update then .dropped
    else .failed (ascii "event journal lifecycle record exceeds byte limit")
  else
    match evictWhile (fun keep => j.maxRecords < keep.length + 1 || j.maxBytes < totalBytes keep ||
        j.maxBytes - totalBytes keep < incoming) j.records.length j.records with
    | some keep => .rewrite keep
    | none =>
      if phase = .update then .dropped
      else .failed (ascii "event journal full: lifecycle boundary protected")

/-! ## Opening -/

/-- The accepted lines from the front, and whether a line was refused. -/
def readLines (last : ℕ) : List Bytes → List JournalRecord × Bool
  | [] => ([], false)
  | l :: ls =>
    match recordFromLine (l ++ [newline]) with
    | .error _ => ([], true)
    | .ok r =>
      if r.cursor ≤ last then ([], true)
      else
        let (rs, corrupt) := readLines r.cursor ls
        (r :: rs, corrupt)

def lastCursor (rs : List JournalRecord) : ℕ := (rs.getLast?.map (·.cursor)).getD 0

/-- What the read loop leaves: the accepted records and the file cut behind them. -/
def recover (disk : Bytes) : List JournalRecord × Bytes :=
  let (lines, rest) := splitLines disk
  let (rs, corrupt) := readLines 0 lines
  (rs, if corrupt || rest != [] then disk.take (totalBytes rs) else disk)

/-- The journal and the file after `open`; no journal when recovery has to refuse. -/
def meEventJournalOpen (disk : Bytes) (maxRecords maxBytes : ℕ) : Option MeEventJournal × Bytes :=
  if maxRecords = 0 ∨ maxBytes = 0 then (none, disk)
  else
    let (rs, disk) := recover disk
    let j : MeEventJournal :=
      { records := rs, maxRecords := maxRecords, maxBytes := maxBytes, bytes := totalBytes rs
        nextCursor := lastCursor rs, droppedUpdates := 0 }
    if maxRecords < rs.length ∨ maxBytes < totalBytes rs then
      match evictWhile (fun all => maxRecords < all.length ||
          (maxBytes < totalBytes all && 0 < all.length)) rs.length rs with
      | none => (none, disk)
      | some all =>
        match writeRecords all with
        | none => (none, disk)
        | some (all, text) => (some { j with records := all, bytes := text.length }, text)
    else (some j, disk)

/-! ## Appending -/

inductive AppendResult where
  | ok (cursor : ℕ)
  | dropped
  | failed (err : Bytes)
  deriving DecidableEq

def validPhase : MeEventPhase → Bool
  | .start | .update | .end_ => true
  | .other _ => false

/-- The journal and the file once there is room for `line`. -/
def makeRoom (j : MeEventJournal) (disk : Bytes) (line : Bytes) (phase : MeEventPhase) :
    Except AppendResult (MeEventJournal × Bytes) :=
  match compactToFit j line.length phase with
  | .fits => .ok (j, disk)
  | .dropped => .error .dropped
  | .failed err => .error (.failed err)
  | .rewrite keep =>
    match writeRecords keep with
    | none => .error (.failed (ascii "write event journal compaction failed"))
    | some (keep, text) => .ok ({ j with records := keep, bytes := text.length }, text)

def pushRecord (j : MeEventJournal) (event : MeAnalyticsEvent) (line : Bytes) : MeEventJournal :=
  { j with
    records := j.records ++ [⟨j.nextCursor + 1, event, line.length⟩]
    bytes := j.bytes + line.length
    nextCursor := j.nextCursor + 1 }

def meEventJournalAppend (j : MeEventJournal) (disk : Bytes) (event : MeAnalyticsEvent) :
    AppendResult × MeEventJournal × Bytes :=
  if !validPhase event.phase then
    (.failed (ascii "event journal received invalid phase"), j, disk)
  else if j.nextCursor = uint64Max then
    (.failed (ascii "event journal cursor exhausted"), j, disk)
  else
    match recordToLine (j.nextCursor + 1) event with
    | none => (.failed (ascii "serialize event journal record failed"), j, disk)
    | some line =>
      match makeRoom j disk line event.phase with
      | .error .dropped => (.dropped, { j with droppedUpdates := j.droppedUpdates + 1 }, disk)
      | .error r => (r, j, disk)
      | .ok (j, disk) => (.ok (j.nextCursor + 1), pushRecord j event line, disk ++ line)

/-! ## Reading -/

structure Snapshot where
  records : List (ℕ × MeAnalyticsEvent)
  replayGap : Bool
  oldestCursor : ℕ
  latestCursor : ℕ

/-- Whether a cursor is missing between `previous` and the records, or between two records. -/
def hasGap (previous : ℕ) : List JournalRecord → Bool
  | [] => false
  | r :: rs => (previous < r.cursor && 1 < r.cursor - previous) || hasGap r.cursor rs

def meEventJournalSnapshotAfter (j : MeEventJournal) (afterCursor : ℕ) : Snapshot :=
  let rs := j.records.filter fun r => afterCursor < r.cursor
  { records := rs.map fun r => (r.cursor, r.event)
    replayGap := hasGap afterCursor rs
    oldestCursor := (j.records.head?.map (·.cursor)).getD 0
    latestCursor := lastCursor j.records }

end FlowAlarm.Journal
