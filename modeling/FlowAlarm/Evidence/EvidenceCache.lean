import FlowAlarm.Codec.EventCodec
import FlowAlarm.Data.Keyed

/-!
# The evidence cache

`evidence_cache.c`: the window of recent JPEG frames with the frame notes of the
analytics path, and the records published from it. The directory is the list of
its files, name and content. SHA-256 is a parameter (`Sha256`), the wall clock
and the outcome of each file write are arguments.
-/

namespace FlowAlarm.Evidence

open FlowAlarm.Text FlowAlarm.Engine FlowAlarm.Codec

/-! ## Data -/

def lowerHex (b : UInt8) : Bool := isDigit b || (0x61 ≤ b && b ≤ 0x66)

/-- The digest GLib and Go compute, in lower-case hexadecimal. -/
structure Sha256 where
  hex : Bytes → Bytes
  length_hex : ∀ s, (hex s).length = 64
  lowerHex_hex : ∀ s, ∀ b ∈ hex s, lowerHex b = true

def meEvidenceMetadataVersion : ℕ := 2
def meEvidenceFrameCacheMaxBytes : ℕ := 8 * 1024 * 1024
def meEvidenceNoteLimit : ℕ := 256
def meEvidencePathMax : ℕ := 256

structure FrameNote where
  channelId : CStr
  streamEpoch : ℕ
  frameId : ℕ
  sourcePtsValid : Bool
  sourcePts : ℤ
  sourceTimebase : MeTimebase
  width : ℕ
  height : ℕ
  deriving DecidableEq

structure JpegFrame where
  jpeg : Bytes
  note : FrameNote
  deriving DecidableEq

inductive MeEvidenceAccuracy where
  | none
  | exact
  | approximate
  deriving DecidableEq

def meEvidenceAccuracyName : MeEvidenceAccuracy → Bytes
  | .exact => ascii "exact"
  | .approximate => ascii "approximate"
  | .none => ascii "none"

structure MeEvidenceRecord where
  evidenceId : CStr
  eventId : CStr
  channelId : CStr
  streamEpoch : ℕ
  frameId : ℕ
  sourcePtsValid : Bool
  sourcePts : ℤ
  sourceTimebase : MeTimebase
  captureTimeUs : ℤ
  width : ℕ
  height : ℕ
  bytes : ℕ
  sha256 : Bytes
  accuracy : MeEvidenceAccuracy
  frameDelta : ℕ
  ptsDelta : ℤ
  createdAtUs : ℤ
  expiresAtUs : ℤ
  storageState : Bytes
  deliveryState : Bytes

/-- Queues have their oldest element first; `records` is the table by evidence id. -/
structure MeEvidenceCache where
  directory : Bytes
  maxBytes : ℕ
  retentionS : ℕ
  frameCacheMaxBytes : ℕ
  frameCacheBytes : ℕ
  storedBytes : ℕ
  records : List MeEvidenceRecord
  notes : List FrameNote
  frames : List JpegFrame
  files : List (Bytes × Bytes)

def recordId (r : MeEvidenceRecord) : Bytes := r.evidenceId.bytes

def componentByte (b : UInt8) : Bool :=
  isDigit b || (0x41 ≤ b && b ≤ 0x5A) || (0x61 ≤ b && b ≤ 0x7A) || b == 0x2D || b == 0x5F ||
    b == 0x2E

def validComponent (value : Bytes) : Bool :=
  value != [] && value != ascii "." && value != ascii ".." && value.all componentByte

def jpegName (evidenceId : Bytes) : Bytes := evidenceId ++ ascii ".jpg"

def jsonName (evidenceId : Bytes) : Bytes := evidenceId ++ ascii ".json"

theorem jsonName_ne_jpegName (a b : Bytes) : jsonName a ≠ jpegName b := by
  intro h
  have hjson : (ascii ".json").getLast? = some 0x6E := by decide
  have hjpeg : (ascii ".jpg").getLast? = some 0x67 := by decide
  have hlast := congrArg List.getLast? h
  rw [jsonName, jpegName, List.getLast?_append, List.getLast?_append, hjson, hjpeg] at hlast
  exact absurd (Option.some.inj hlast) (by decide)

theorem jsonName_inj {a b : Bytes} (h : jsonName a = jsonName b) : a = b :=
  List.append_cancel_right h

theorem jpegName_inj {a b : Bytes} (h : jpegName a = jpegName b) : a = b :=
  List.append_cancel_right h

/-- `g_build_filename` of the directory and a name. -/
def buildFilename (directory name : Bytes) : Bytes :=
  directory.rdropWhile (· = 0x2F) ++ 0x2F :: name

/-! ## Metadata -/

/-- The members `record_to_json` adds. -/
def recordMembers (r : MeEvidenceRecord) : List (Bytes × Json) :=
  [(ascii "v", natItem meEvidenceMetadataVersion),
    (ascii "evidence_id", stringItem r.evidenceId),
    (ascii "event_id", stringItem r.eventId),
    (ascii "channel_id", stringItem r.channelId),
    (ascii "stream_epoch", natItem r.streamEpoch),
    (ascii "frame_id", natItem r.frameId),
    (ascii "source_pts_valid", .bool r.sourcePtsValid),
    (ascii "source_pts", intItem r.sourcePts),
    (ascii "source_timebase_num", natItem r.sourceTimebase.num),
    (ascii "source_timebase_den", natItem r.sourceTimebase.den),
    (ascii "capture_time_us", intItem r.captureTimeUs),
    (ascii "width", natItem r.width),
    (ascii "height", natItem r.height),
    (ascii "bytes", natItem r.bytes),
    (ascii "sha256", .str r.sha256),
    (ascii "accuracy", .str (meEvidenceAccuracyName r.accuracy)),
    (ascii "frame_delta", natItem r.frameDelta),
    (ascii "pts_delta", intItem r.ptsDelta),
    (ascii "created_at_us", intItem r.createdAtUs),
    (ascii "expires_at_us", intItem r.expiresAtUs),
    (ascii "storage_state", .str r.storageState),
    (ascii "delivery_state", .str r.deliveryState),
    (ascii "object_key", .str (jpegName r.evidenceId.bytes))]

def recordToJson (r : MeEvidenceRecord) : Json := .obj (recordMembers r)

/-! ## Frames -/

def samePts (left : FrameNote) (valid : Bool) (pts : ℤ) : Bool :=
  valid && left.sourcePtsValid && left.sourcePts == pts

def sameTimebase (left right : MeTimebase) : Bool :=
  left.num != 0 && left.den != 0 && left.num == right.num && left.den == right.den

/-- The newest note with that time stamp. -/
def latestNoteForPts (cache : MeEvidenceCache) (valid : Bool) (pts : ℤ) : Option FrameNote :=
  cache.notes.reverse.find? fun note => samePts note valid pts

/-- `me_evidence_cache_note_frame`: the return code and the cache. -/
def meEvidenceCacheNoteFrame (cache : MeEvidenceCache) (note : FrameNote) : ℤ × MeEvidenceCache :=
  if note.channelId.bytes = [] ∨ note.streamEpoch = 0 ∨ note.frameId = 0 then (-1, cache)
  else
    let note := { note with channelId := note.channelId.snprintf meAnalyticsChannelIdMax }
    let notes := cache.notes ++ [note]
    (0, { cache with
      notes := notes.drop (notes.length - meEvidenceNoteLimit)
      frames := cache.frames.map fun frame =>
        if frame.note.channelId.bytes = [] ∧
            samePts note frame.note.sourcePtsValid frame.note.sourcePts then
          { frame with note := note }
        else frame })

/-- The loop that drops the oldest frames until the window fits. -/
def evictFrames (limit : ℕ) : ℕ → List JpegFrame → ℕ × List JpegFrame
  | total, [] => (total, [])
  | total, frame :: frames =>
    if limit < total then evictFrames limit (total - frame.jpeg.length) frames
    else (total, frame :: frames)

def isJpeg (jpeg : Bytes) : Bool :=
  decide (4 ≤ jpeg.length) && jpeg.take 2 == [0xFF, 0xD8] &&
    jpeg.drop (jpeg.length - 2) == [0xFF, 0xD9]

/-- `me_evidence_cache_push_jpeg`: the return code and the cache. -/
def meEvidenceCachePushJpeg (cache : MeEvidenceCache) (jpeg : Bytes) (sourcePtsValid : Bool)
    (sourcePts : ℤ) : ℤ × MeEvidenceCache :=
  if !isJpeg jpeg then (-1, cache)
  else
    let note := (latestNoteForPts cache sourcePtsValid sourcePts).getD
      ⟨.empty, 0, 0, sourcePtsValid, sourcePts, ⟨0, 0⟩, 0, 0⟩
    match evictFrames cache.frameCacheMaxBytes (cache.frameCacheBytes + jpeg.length)
      (cache.frames ++ [⟨jpeg, note⟩]) with
    | (total, frames) => (0, { cache with frameCacheBytes := total, frames := frames })

def frameMatchesEvent (frame : JpegFrame) (event : MeAnalyticsEvent) : Bool :=
  frame.note.channelId.bytes != [] && frame.note.streamEpoch != 0 &&
    frame.note.channelId.bytes == event.channelId.bytes &&
    frame.note.streamEpoch == event.streamEpoch

/-- Both time stamps are valid and count in the same units. -/
def comparablePts (frame : JpegFrame) (event : MeAnalyticsEvent) : Bool :=
  event.sourcePtsValid && frame.note.sourcePtsValid &&
    sameTimebase frame.note.sourceTimebase event.sourceTimebase

def frameIsExact (frame : JpegFrame) (event : MeAnalyticsEvent) : Bool :=
  frameMatchesEvent frame event &&
    if comparablePts frame event then frame.note.sourcePts == event.sourcePts
    else decide (0 < event.frameId) && frame.note.frameId == event.frameId

/-- The search from the newest frame on: an exact one at once, else the nearest. The differences
are those of `abs_i64_delta` as long as the time stamps are non-negative; for time stamps of
opposite sign the C subtraction may overflow. -/
def searchFrames (event : MeAnalyticsEvent) :
    Option JpegFrame → ℤ → List JpegFrame → Option (MeEvidenceAccuracy × JpegFrame)
  | nearest, _, [] => nearest.map fun frame => (.approximate, frame)
  | nearest, nearestDelta, frame :: frames =>
    if frameIsExact frame event then some (.exact, frame)
    else if !frameMatchesEvent frame event then searchFrames event nearest nearestDelta frames
    else if comparablePts frame event then
      let delta := |frame.note.sourcePts - event.sourcePts|
      if delta < nearestDelta then searchFrames event (some frame) delta frames
      else searchFrames event nearest nearestDelta frames
    else if (!event.sourcePtsValid || !frame.note.sourcePtsValid) && nearest.isNone then
      searchFrames event (some frame) nearestDelta frames
    else searchFrames event nearest nearestDelta frames

structure Selected where
  accuracy : MeEvidenceAccuracy
  frame : JpegFrame
  frameDelta : ℕ
  ptsDelta : ℤ

/-- `select_frame_locked`, with `*pts_delta` exact for non-negative time stamps. -/
def selectFrameLocked (cache : MeEvidenceCache) (event : MeAnalyticsEvent) : Option Selected :=
  match searchFrames event none (2 ^ 63 - 1) cache.frames.reverse with
  | none => none
  | some (.approximate, frame) =>
    some { accuracy := .approximate, frame := frame
           frameDelta :=
             if 0 < event.frameId ∧ 0 < frame.note.frameId then
               if event.frameId < frame.note.frameId then frame.note.frameId - event.frameId
               else event.frameId - frame.note.frameId
             else 0
           ptsDelta :=
             if comparablePts frame event then frame.note.sourcePts - event.sourcePts else 0 }
  | some (accuracy, frame) => some ⟨accuracy, frame, 0, 0⟩

/-! ## Records -/

/-- `remove_record_locked`; a path cut to its field names no file. -/
def removeRecordLocked (cache : MeEvidenceCache) (r : MeEvidenceRecord) : MeEvidenceCache :=
  let id := recordId r
  let files :=
    if (buildFilename cache.directory (jpegName id)).length < meEvidencePathMax then
      Keyed.erase Prod.fst (jpegName id) cache.files
    else cache.files
  { cache with
    files := Keyed.erase Prod.fst (jsonName id) files
    storedBytes := cache.storedBytes - r.bytes
    records := Keyed.erase recordId id cache.records }

def expired (now : ℤ) (r : MeEvidenceRecord) : Bool :=
  decide (0 < r.expiresAtUs ∧ r.expiresAtUs ≤ now)

def pruneExpiredLocked (cache : MeEvidenceCache) (now : ℤ) : MeEvidenceCache :=
  (cache.records.filter (expired now)).foldl removeRecordLocked cache

variable (sha : Sha256)

theorem nonul_evidenceId (s : Bytes) : 0 ∉ ascii "ev-" ++ sha.hex s := by
  intro h
  rcases List.mem_append.mp h with h | h
  · exact absurd h (by decide)
  · exact absurd (sha.lowerHex_hex s 0 h) (by decide)

/-- `make_evidence_id`, for an event without one. -/
def evidenceIdOf (event : MeAnalyticsEvent) : CStr :=
  if event.evidenceId.bytes ≠ [] then event.evidenceId
  else ⟨ascii "ev-" ++ sha.hex event.eventId.bytes, nonul_evidenceId sha _⟩

/-- When a record made now expires. -/
def expiresAt (retentionS : ℕ) (now : ℤ) : ℤ :=
  if (2 ^ 63 - 1 - now) / 1000000 < retentionS then 2 ^ 63 - 1 else now + retentionS * 1000000

/-- The record of a selected frame. -/
def candidate (cache : MeEvidenceCache) (event : MeAnalyticsEvent) (sel : Selected) (now : ℤ) :
    MeEvidenceRecord where
  evidenceId := event.evidenceId
  eventId := event.eventId
  channelId := event.channelId
  streamEpoch := event.streamEpoch
  frameId :=
    if 0 < sel.frame.note.frameId then sel.frame.note.frameId
    else if sel.accuracy = .exact then event.frameId else 0
  sourcePtsValid := sel.frame.note.sourcePtsValid
  sourcePts := sel.frame.note.sourcePts
  sourceTimebase := sel.frame.note.sourceTimebase
  captureTimeUs := event.eventTimeUs
  width := sel.frame.note.width
  height := sel.frame.note.height
  bytes := sel.frame.jpeg.length
  sha256 := sha.hex sel.frame.jpeg
  accuracy := sel.accuracy
  frameDelta := sel.frameDelta
  ptsDelta := sel.ptsDelta
  createdAtUs := now
  expiresAtUs := expiresAt cache.retentionS now
  storageState := ascii "ready"
  deliveryState := ascii "awaiting_consumer"

/-- What the two calls of `write_atomic` return: nothing, or an error. -/
structure Writes where
  jpeg : Option Bytes
  metadata : Option Bytes

structure Capture where
  rc : ℤ
  err : Bytes
  event : MeAnalyticsEvent
  cache : MeEvidenceCache

/-- The two files of a record are written, or neither is left behind. -/
def publish (cache : MeEvidenceCache) (event : MeAnalyticsEvent) (r : MeEvidenceRecord)
    (jpeg : Bytes) (writes : Writes) : Capture :=
  let id := recordId r
  let unlinked := Keyed.erase Prod.fst (jsonName id) (Keyed.erase Prod.fst (jpegName id) cache.files)
  match writes.jpeg, writes.metadata with
  | some err, _ => ⟨-1, err, event, { cache with files := unlinked }⟩
  | none, some err => ⟨-1, err, event, { cache with files := unlinked }⟩
  | none, none =>
    let text := CJson.printUnformatted (recordToJson r)
    ⟨0, [], event,
      { cache with
        files := Keyed.insert Prod.fst (jsonName id, text)
          (Keyed.insert Prod.fst (jpegName id, jpeg) cache.files)
        records := Keyed.insert recordId r cache.records
        storedBytes := cache.storedBytes + jpeg.length }⟩

/-- A frame is selected and its record made; it has to fit. -/
def captureSelected (cache : MeEvidenceCache) (event : MeAnalyticsEvent) (sel : Selected) (now : ℤ)
    (writes : Writes) : Capture :=
  let r := candidate sha cache event sel now
  if cache.maxBytes < r.bytes then
    ⟨1, ascii "evidence JPEG exceeds cache capacity", event, cache⟩
  else
    let cache := pruneExpiredLocked cache now
    if cache.maxBytes < cache.storedBytes + r.bytes then
      ⟨1, ascii "evidence cache is full", event, cache⟩
    else publish cache event r sel.frame.jpeg writes

def meEvidenceCacheCapture (cache : MeEvidenceCache) (event : MeAnalyticsEvent) (now : ℤ)
    (writes : Writes) : Capture :=
  if event.eventId.bytes = [] ∨ event.channelId.bytes = [] ∨ event.streamEpoch = 0 then
    ⟨-1, ascii "event is missing evidence identity", event, cache⟩
  else
    let event := { event with evidenceId := evidenceIdOf sha event }
    if !validComponent event.evidenceId.bytes then
      ⟨-1, ascii "evidence id contains unsafe path characters", event, cache⟩
    else if (Keyed.lookup recordId event.evidenceId.bytes cache.records).isSome then
      ⟨0, [], event, cache⟩
    else if event.phase ≠ .start then
      ⟨1, ascii "evidence for event " ++ event.eventId.bytes ++ ascii " has not been published",
        event, cache⟩
    else
      match selectFrameLocked cache event with
      | none => ⟨1, ascii "no recent JPEG matches event " ++ event.eventId.bytes, event, cache⟩
      | some sel => captureSelected sha cache event sel now writes

/-! ## Reachable caches -/

/-- `me_evidence_cache_open`, whatever `load_records` recovered. -/
def opened (directory : Bytes) (maxBytes retentionS : ℕ) (records : List MeEvidenceRecord)
    (files : List (Bytes × Bytes)) : MeEvidenceCache where
  directory := directory
  maxBytes := maxBytes
  retentionS := retentionS
  frameCacheMaxBytes := min maxBytes meEvidenceFrameCacheMaxBytes
  frameCacheBytes := 0
  storedBytes := (records.map (·.bytes)).sum
  records := records
  notes := []
  frames := []
  files := files

inductive Input where
  | noteFrame (note : FrameNote)
  | pushJpeg (jpeg : Bytes) (sourcePtsValid : Bool) (sourcePts : ℤ)
  | capture (event : MeAnalyticsEvent) (now : ℤ) (writes : Writes)
  | prune (now : ℤ)

def step (cache : MeEvidenceCache) : Input → MeEvidenceCache
  | .noteFrame note => (meEvidenceCacheNoteFrame cache note).2
  | .pushJpeg jpeg valid pts => (meEvidenceCachePushJpeg cache jpeg valid pts).2
  | .capture event now writes => (meEvidenceCacheCapture sha cache event now writes).cache
  | .prune now => pruneExpiredLocked cache now

def run (cache : MeEvidenceCache) (inputs : List Input) : MeEvidenceCache :=
  inputs.foldl (step sha) cache

end FlowAlarm.Evidence
