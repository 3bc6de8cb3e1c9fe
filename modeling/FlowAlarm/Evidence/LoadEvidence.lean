import FlowAlarm.Daemon.Media
import FlowAlarm.Evidence.EvidenceCache
import FlowAlarm.Text.GoStruct

/-!
# The daemon's evidence reader

`delivery/evidence.go`: `loadEvidence` reads the metadata and the JPEG of an
event from a directory and checks one against the other.
-/

namespace FlowAlarm.Evidence

open FlowAlarm.Text FlowAlarm.GoJson

/-! ## Metadata -/

structure EvidenceMetadata where
  version : ℕ
  evidenceID : Bytes
  eventID : Bytes
  channelID : Bytes
  streamEpoch : ℕ
  frameID : ℕ
  sourcePTS : ℤ
  bytes : ℕ
  sha256 : Bytes
  sourcePTSValid : Bool
  sourceTimebaseNum : ℕ
  sourceTimebaseDen : ℕ
  captureTimeUS : ℤ
  width : ℕ
  height : ℕ
  accuracy : Bytes
  frameDelta : ℕ
  ptsDelta : ℤ
  createdAtUS : ℤ
  expiresAtUS : ℤ
  objectKey : Bytes
  storageState : Bytes
  deliveryState : Bytes
  deriving DecidableEq

def EvidenceMetadata.zero : EvidenceMetadata where
  version := 0
  evidenceID := []
  eventID := []
  channelID := []
  streamEpoch := 0
  frameID := 0
  sourcePTS := 0
  bytes := 0
  sha256 := []
  sourcePTSValid := false
  sourceTimebaseNum := 0
  sourceTimebaseDen := 0
  captureTimeUS := 0
  width := 0
  height := 0
  accuracy := []
  frameDelta := 0
  ptsDelta := 0
  createdAtUS := 0
  expiresAtUS := 0
  objectKey := []
  storageState := []
  deliveryState := []

def metadataFields : List (Slot EvidenceMetadata) :=
  [scalarField (readUint 32) (ascii "v") fun v m => { m with version := v },
    scalarField readString (ascii "evidence_id") fun v m => { m with evidenceID := v },
    scalarField readString (ascii "event_id") fun v m => { m with eventID := v },
    scalarField readString (ascii "channel_id") fun v m => { m with channelID := v },
    scalarField (readUint 64) (ascii "stream_epoch") fun v m => { m with streamEpoch := v },
    scalarField (readUint 64) (ascii "frame_id") fun v m => { m with frameID := v },
    scalarField (readInt 64) (ascii "source_pts") fun v m => { m with sourcePTS := v },
    scalarField (readUint 64) (ascii "bytes") fun v m => { m with bytes := v },
    scalarField readString (ascii "sha256") fun v m => { m with sha256 := v },
    scalarField readBool (ascii "source_pts_valid") fun v m => { m with sourcePTSValid := v },
    scalarField (readUint 32) (ascii "source_timebase_num")
      fun v m => { m with sourceTimebaseNum := v },
    scalarField (readUint 32) (ascii "source_timebase_den")
      fun v m => { m with sourceTimebaseDen := v },
    scalarField (readInt 64) (ascii "capture_time_us") fun v m => { m with captureTimeUS := v },
    scalarField (readUint 32) (ascii "width") fun v m => { m with width := v },
    scalarField (readUint 32) (ascii "height") fun v m => { m with height := v },
    scalarField readString (ascii "accuracy") fun v m => { m with accuracy := v },
    scalarField (readUint 64) (ascii "frame_delta") fun v m => { m with frameDelta := v },
    scalarField (readInt 64) (ascii "pts_delta") fun v m => { m with ptsDelta := v },
    scalarField (readInt 64) (ascii "created_at_us") fun v m => { m with createdAtUS := v },
    scalarField (readInt 64) (ascii "expires_at_us") fun v m => { m with expiresAtUS := v },
    scalarField readString (ascii "object_key") fun v m => { m with objectKey := v },
    scalarField readString (ascii "storage_state") fun v m => { m with storageState := v },
    scalarField readString (ascii "delivery_state") fun v m => { m with deliveryState := v }]

def metadataNames : List Bytes :=
  [ascii "v", ascii "evidence_id", ascii "event_id", ascii "channel_id", ascii "stream_epoch",
    ascii "frame_id", ascii "source_pts", ascii "source_pts_valid", ascii "source_timebase_num",
    ascii "source_timebase_den", ascii "capture_time_us", ascii "width", ascii "height",
    ascii "bytes", ascii "sha256", ascii "accuracy", ascii "frame_delta", ascii "pts_delta",
    ascii "created_at_us", ascii "expires_at_us", ascii "object_key", ascii "storage_state",
    ascii "delivery_state"]

/-- `hasEvidenceMetadataFields`: `none` if the text is not an object, or null. -/
def hasEvidenceMetadataFields : Json → Option Bool
  | .obj ms => some (metadataNames.all fun name => (ms.map (·.1)).contains name)
  | .null => some false
  | _ => none

/-! ## Loading -/

inductive LoadErr where
  | notConfigured
  | unsafeID
  | readMetadata
  | parseMetadata
  | parseFields
  | incomplete
  | identity
  | dimensionsOrTimestamps
  | timebase
  | accuracy (value : Bytes)
  | objectKey
  | storageState (value : Bytes)
  | deliveryState (value : Bytes)
  | readImage
  | size (image metadata : ℕ)
  | checksum
  deriving DecidableEq

/-- `validEvidenceComponent`: the bytes it admits leave no path separator. -/
def validEvidenceComponent (value : Bytes) : Bool := validComponent value

/-- The checks on metadata that need no image. -/
def checkMetadata (info : EvidenceMetadata) (event : Media.AnalyticsEvent) : Option LoadErr :=
  if info.version ≠ 2 ∨ info.evidenceID ≠ event.evidenceID ∨ info.eventID ≠ event.eventID ∨
      info.channelID ≠ event.channelID ∨ info.streamEpoch ≠ event.streamEpoch then some .identity
  else if info.streamEpoch = 0 ∨ info.captureTimeUS ≤ 0 ∨ info.width = 0 ∨ info.height = 0 ∨
      info.createdAtUS ≤ 0 ∨ info.expiresAtUS ≤ 0 then some .dimensionsOrTimestamps
  else if info.sourcePTSValid ∧ (info.sourceTimebaseNum = 0 ∨ info.sourceTimebaseDen = 0) then
    some .timebase
  else if info.accuracy ≠ ascii "exact" ∧ info.accuracy ≠ ascii "approximate" then
    some (.accuracy info.accuracy)
  else if info.objectKey ≠ event.evidenceID ++ ascii ".jpg" then some .objectKey
  else if info.storageState ≠ ascii "ready" then some (.storageState info.storageState)
  else if info.deliveryState ≠ ascii "awaiting_consumer" ∧ info.deliveryState ≠ ascii "staged" then
    some (.deliveryState info.deliveryState)
  else none

/-- The checks of the image; only ASCII letters fold to a hexadecimal digit. -/
def checkImage (sha : Sha256) (info : EvidenceMetadata) (image : Bytes) : Option LoadErr :=
  if info.bytes ≠ image.length then some (.size image.length info.bytes)
  else if !strcasecmpEq info.sha256 (sha.hex image) then some .checksum
  else none

/-- `loadEvidence` over the files of the directory: metadata and image. -/
def loadEvidence (sha : Sha256) (directory : Bytes) (files : List (Bytes × Bytes))
    (event : Media.AnalyticsEvent) : Except LoadErr (Bytes × Bytes) :=
  if trimSpace directory = [] then .error .notConfigured
  else if !validEvidenceComponent event.evidenceID then .error .unsafeID
  else
    match Keyed.lookup Prod.fst (jsonName event.evidenceID) files with
    | none => .error .readMetadata
    | some (_, metadata) =>
      match readValue metadata with
      | none => .error .parseMetadata
      | some j =>
        match decodeStruct metadataFields .zero j, hasEvidenceMetadataFields j with
        | none, _ => .error .parseMetadata
        | _, none => .error .parseFields
        | _, some false => .error .incomplete
        | some info, some true =>
          match checkMetadata info event with
          | some err => .error err
          | none =>
            match Keyed.lookup Prod.fst (jpegName event.evidenceID) files with
            | none => .error .readImage
            | some (_, image) =>
              match checkImage sha info image with
              | some err => .error err
              | none => .ok (metadata, image)

end FlowAlarm.Evidence
