import FlowAlarm.Text.Bytes

/-!
# Observations and the analytics configuration

The backend-neutral observation of one frame (`observation.c`) and the rule
configuration (`config.c`), with their validators and the ordering of
observations inside a stream. An enumeration carries `other` for the values a
C `enum` object can hold outside its enumerators; validators reject them.

Counts beside fixed arrays are list lengths: `tracks` is the first
`track_count` entries, and an overlong list is a count above the array size.
-/

namespace FlowAlarm.Engine

open FlowAlarm.Text

def meAnalyticsContractVersion : Nat := 2
def meAnalyticsCoordScale : Nat := 10000
def meAnalyticsChannelIdMax : Nat := 64
def meAnalyticsBackendNameMax : Nat := 32
def meAnalyticsVersionMax : Nat := 64
def meAnalyticsModelVersionMax : Nat := 64
def meAnalyticsRuleIdMax : Nat := 64
def meAnalyticsMaxTracks : Nat := 64
def meAnalyticsMaxRuleFacts : Nat := 16

def uint32Max : Nat := 2 ^ 32 - 1
def uint64Max : Nat := 2 ^ 64 - 1
def int64Max : Nat := 2 ^ 63 - 1

inductive MeClockState where
  | unavailable | synced | estimated | invalid
  | other (code : Nat)
  deriving DecidableEq, Repr

inductive MeTrackClass where
  | unknown | person | other (code : Nat)
  deriving DecidableEq, Repr

inductive MeTrackState where
  | unknown | new | active | lost | removed
  | other (code : Nat)
  deriving DecidableEq, Repr

inductive MeRuleType where
  | unknown | occupancy | lineCross | intrusion
  | other (code : Nat)
  deriving DecidableEq, Repr

inductive MeRuleDirection where
  | none | in | out
  | other (code : Nat)
  deriving DecidableEq, Repr

structure MeTimebase where
  num : Nat
  den : Nat
  deriving DecidableEq, Repr

structure MeNormalizedBBox where
  left : Nat
  top : Nat
  right : Nat
  bottom : Nat
  deriving DecidableEq, Repr

structure MeTrackObservation where
  trackId : Nat
  classId : MeTrackClass
  state : MeTrackState
  bbox : MeNormalizedBBox
  scoreQ : Nat
  deriving DecidableEq

/-- A rule fact; track zero denotes a rule-level fact. -/
structure MeRuleFact where
  ruleId : CStr
  ruleType : MeRuleType
  direction : MeRuleDirection
  scoreQ : Nat
  trackId : Nat
  deriving DecidableEq

/-- Backend-neutral result for exactly one source frame. -/
structure MeNormalizedObservation where
  contractVersion : Nat
  channelId : CStr
  streamEpoch : Nat
  frameId : Nat
  sourcePts : Int
  sourcePtsValid : Bool
  sourceTimebase : MeTimebase
  captureTimeUs : Int
  clockState : MeClockState
  frameWidth : Nat
  frameHeight : Nat
  backendName : CStr
  backendVersion : CStr
  modelVersion : CStr
  tracks : List MeTrackObservation
  rules : List MeRuleFact
  deriving DecidableEq

/-- All bytes zero, as `memset` leaves it. -/
def MeNormalizedObservation.zero : MeNormalizedObservation where
  contractVersion := 0
  channelId := .empty
  streamEpoch := 0
  frameId := 0
  sourcePts := 0
  sourcePtsValid := false
  sourceTimebase := ⟨0, 0⟩
  captureTimeUs := 0
  clockState := .unavailable
  frameWidth := 0
  frameHeight := 0
  backendName := .empty
  backendVersion := .empty
  modelVersion := .empty
  tracks := []
  rules := []

def meObservationInit : MeNormalizedObservation :=
  { MeNormalizedObservation.zero with
    contractVersion := meAnalyticsContractVersion
    sourceTimebase := ⟨1, 1000000000⟩
    clockState := .unavailable }

/-! ## Validation -/

def validTrackState : MeTrackState → Bool
  | .new | .active | .lost | .removed => true
  | _ => false

def validRuleType : MeRuleType → Bool
  | .occupancy | .lineCross | .intrusion => true
  | _ => false

def validDirection : MeRuleDirection → Bool
  | .none | .in | .out => true
  | _ => false

/-- The track loop at index `i`; `seen` are the tracks before it. -/
def validateTracks (i : Nat) (seen : List MeTrackObservation) :
    List MeTrackObservation → Except Bytes Unit
  | [] => .ok ()
  | track :: rest =>
    if track.trackId == 0 || track.classId == .unknown || !validTrackState track.state then
      .error (ascii "track " ++ dec i ++ ascii " has invalid identity/state")
    else if track.bbox.right ≤ track.bbox.left || track.bbox.bottom ≤ track.bbox.top ||
        meAnalyticsCoordScale < track.bbox.right || meAnalyticsCoordScale < track.bbox.bottom then
      .error (ascii "track " ++ dec i ++ ascii " bbox is invalid")
    else if meAnalyticsCoordScale < track.scoreQ then
      .error (ascii "track " ++ dec i ++ ascii " score is invalid")
    else if seen.any fun t => t.trackId == track.trackId then
      .error (ascii "duplicate track_id " ++ dec track.trackId)
    else validateTracks (i + 1) (seen ++ [track]) rest

/-- The rule loop at index `i`; `seen` are the facts before it. -/
def validateRules (i : Nat) (seen : List MeRuleFact) : List MeRuleFact → Except Bytes Unit
  | [] => .ok ()
  | rule :: rest =>
    if !rule.ruleId.bounded meAnalyticsRuleIdMax || !validRuleType rule.ruleType ||
        !validDirection rule.direction || meAnalyticsCoordScale < rule.scoreQ then
      .error (ascii "rule " ++ dec i ++ ascii " is invalid")
    else if seen.any fun r => r.ruleId == rule.ruleId &&
        (rule.trackId == 0 || r.trackId == 0 || r.trackId == rule.trackId) then
      .error (ascii "duplicate rule fact " ++ rule.ruleId.bytes)
    else validateRules (i + 1) (seen ++ [rule]) rest

/-- The clock check: only a synchronised or estimated clock carries a time. -/
def validateClock (o : MeNormalizedObservation) : Except Bytes Unit :=
  match o.clockState with
  | .unavailable | .invalid =>
    if o.captureTimeUs ≠ 0 then
      .error (ascii "unavailable or invalid clock cannot carry time")
    else .ok ()
  | .synced | .estimated =>
    if o.captureTimeUs ≤ 0 then .error (ascii "synchronized or estimated clock needs time")
    else .ok ()
  | .other _ => .error (ascii "clock_state is invalid")

def meObservationValidate (o : MeNormalizedObservation) : Except Bytes Unit :=
  if o.contractVersion ≠ meAnalyticsContractVersion then
    .error (ascii "unsupported observation version " ++ dec o.contractVersion)
  else if !o.channelId.bounded meAnalyticsChannelIdMax then
    .error (ascii "channel_id is missing or overlong")
  else if o.streamEpoch == 0 || o.frameId == 0 then
    .error (ascii "stream_epoch and frame_id must be positive")
  else if o.sourceTimebase.num == 0 || o.sourceTimebase.den == 0 then
    .error (ascii "source PTS timebase is invalid")
  else if !o.sourcePtsValid && o.sourcePts ≠ 0 then
    .error (ascii "invalid source PTS must use zero value")
  else if o.sourcePtsValid && o.sourcePts < 0 then
    .error (ascii "source PTS must not be negative")
  else if o.frameWidth == 0 || o.frameHeight == 0 then
    .error (ascii "frame dimensions must be positive")
  else do
    validateClock o
    if !o.backendName.bounded meAnalyticsBackendNameMax ||
        !o.backendVersion.bounded meAnalyticsVersionMax ||
        !o.modelVersion.bounded meAnalyticsModelVersionMax then
      .error (ascii "backend and model version fields are required")
    else if meAnalyticsMaxTracks < o.tracks.length then
      .error (ascii "too many tracks: " ++ dec o.tracks.length)
    else do
      validateTracks 0 [] o.tracks
      if meAnalyticsMaxRuleFacts < o.rules.length then
        .error (ascii "too many rule facts: " ++ dec o.rules.length)
      else validateRules 0 [] o.rules

/-! ## Ordering inside a stream -/

inductive MeObservationOrderResult where
  | invalid | first | accepted | duplicate | outOfOrder | epochAdvance
  deriving DecidableEq, Repr

/-- The ordering keys of the latest accepted observation. -/
structure MeObservationOrder where
  initialized : Bool
  streamEpoch : Nat
  frameId : Nat
  sourcePts : Int
  sourcePtsValid : Bool
  deriving DecidableEq

def meObservationOrderInit : MeObservationOrder := ⟨false, 0, 0, 0, false⟩

def orderCommit (o : MeNormalizedObservation) : MeObservationOrder where
  initialized := true
  streamEpoch := o.streamEpoch
  frameId := o.frameId
  sourcePts := o.sourcePts
  sourcePtsValid := o.sourcePtsValid

def meObservationOrderClassify (order : MeObservationOrder) (o : MeNormalizedObservation) :
    MeObservationOrder × MeObservationOrderResult :=
  match meObservationValidate o with
  | .error _ => (order, .invalid)
  | .ok () =>
    if !order.initialized then (orderCommit o, .first)
    else if o.streamEpoch < order.streamEpoch then (order, .outOfOrder)
    else if order.streamEpoch < o.streamEpoch then (orderCommit o, .epochAdvance)
    else if o.frameId == order.frameId then (order, .duplicate)
    else if o.frameId < order.frameId then (order, .outOfOrder)
    else if o.sourcePtsValid && order.sourcePtsValid && o.sourcePts < order.sourcePts then
      (order, .outOfOrder)
    else (orderCommit o, .accepted)

/-! ## Configuration -/

def meAnalyticsBackendMax : Nat := 32
def meAnalyticsModelMax : Nat := 96
def meAnalyticsEventLogPathMax : Nat := 256

structure MeAnalyticsConfig where
  enabled : Bool
  backend : CStr
  model : CStr
  width : Int
  height : Int
  fps : Int
  scoreThresholdQ : Nat
  confirmFrames : Nat
  confirmMs : Nat
  debounceMs : Nat
  disappearGraceMs : Nat
  cooldownMs : Nat
  updateIntervalMs : Nat
  roiEnabled : Bool
  roi : MeNormalizedBBox
  lineEnabled : Bool
  lineX1 : Nat
  lineY1 : Nat
  lineX2 : Nat
  lineY2 : Nat
  ruleId : CStr
  ruleType : MeRuleType
  evidenceMode : CStr
  evidenceMaxBytes : Nat
  evidenceRetentionS : Nat
  evidenceJpegQuality : Nat
  eventLogMaxRecords : Nat
  eventLogMaxBytes : Nat
  eventLogPath : CStr
  deriving DecidableEq

def meAnalyticsConfigDefaults : MeAnalyticsConfig where
  enabled := false
  backend := .ofBytes (ascii "rockiva") (by decide)
  model := .empty
  width := 0
  height := 0
  fps := 0
  scoreThresholdQ := 0
  confirmFrames := 3
  confirmMs := 300
  debounceMs := 300
  disappearGraceMs := 1000
  cooldownMs := 5000
  updateIntervalMs := 5000
  roiEnabled := false
  roi := ⟨0, 0, 0, 0⟩
  lineEnabled := false
  lineX1 := 0
  lineY1 := 0
  lineX2 := 0
  lineY2 := 0
  ruleId := .ofBytes (ascii "people-flow") (by decide)
  ruleType := .occupancy
  evidenceMode := .ofBytes (ascii "stock_wvp_pull") (by decide)
  evidenceMaxBytes := 512 * 1024 * 1024
  evidenceRetentionS := 72 * 60 * 60
  evidenceJpegQuality := 85
  eventLogMaxRecords := 4096
  eventLogMaxBytes := 64 * 1024 * 1024
  eventLogPath := .ofBytes (ascii "/data/media_engine/analytics-events.jsonl") (by decide)

def validRect (r : MeNormalizedBBox) : Bool :=
  r.left < r.right && r.top < r.bottom && r.right ≤ meAnalyticsCoordScale &&
    r.bottom ≤ meAnalyticsCoordScale

def meAnalyticsEvidenceModeValid (value : CStr) : Bool :=
  strcasecmpEq value.bytes (ascii "stock_wvp_pull") ||
    strcasecmpEq value.bytes (ascii "exact_evidence")

def meAnalyticsConfigValidate (c : MeAnalyticsConfig) : Except Bytes Unit :=
  if !c.backend.bounded meAnalyticsBackendMax then
    .error (ascii "analytics backend is missing or overlong")
  else if c.enabled && !strcasecmpEq c.backend.bytes (ascii "rockiva") then
    .error (ascii "unsupported enabled analytics backend: " ++ c.backend.bytes)
  else if c.width < 0 || c.height < 0 || c.fps < 0 then
    .error (ascii "analytics dimensions and fps cannot be negative")
  else if c.enabled && (c.width < 2 || c.height < 2 || c.width % 2 == 1 || c.height % 2 == 1 ||
      c.fps ≤ 0) then
    .error (ascii "enabled analytics needs positive even width/height and fps")
  else if c.width == 1 || c.height == 1 || (0 < c.width && c.width % 2 == 1) ||
      (0 < c.height && c.height % 2 == 1) then
    .error (ascii "analytics dimensions must be even when configured")
  else if meAnalyticsCoordScale < c.scoreThresholdQ then
    .error (ascii "analytics score threshold must be 0.." ++ dec meAnalyticsCoordScale)
  else if c.confirmFrames == 0 || c.confirmMs == 0 || c.updateIntervalMs == 0 then
    .error (ascii "analytics confirmation and update intervals must be positive")
  else if c.roiEnabled && !validRect c.roi then .error (ascii "analytics ROI is invalid")
  else if c.lineEnabled && (meAnalyticsCoordScale < c.lineX1 || meAnalyticsCoordScale < c.lineY1 ||
      meAnalyticsCoordScale < c.lineX2 || meAnalyticsCoordScale < c.lineY2 ||
      (c.lineX1 == c.lineX2 && c.lineY1 == c.lineY2)) then
    .error (ascii "analytics line is invalid")
  else if !c.ruleId.bounded meAnalyticsRuleIdMax || !validRuleType c.ruleType then
    .error (ascii "analytics rule is invalid")
  else if !meAnalyticsEvidenceModeValid c.evidenceMode then
    .error (ascii "analytics evidence mode must be stock_wvp_pull or exact_evidence")
  else if c.evidenceMaxBytes == 0 || c.evidenceRetentionS == 0 || c.evidenceJpegQuality < 1 ||
      100 < c.evidenceJpegQuality || c.eventLogMaxRecords == 0 || c.eventLogMaxBytes == 0 then
    .error (ascii "analytics evidence and event log limits are invalid")
  else if !c.eventLogPath.bounded meAnalyticsEventLogPathMax then
    .error (ascii "analytics event log path is missing or overlong")
  else if c.enabled && !c.model.bounded meAnalyticsModelMax then
    .error (ascii "enabled analytics needs a model selected by board validation")
  else .ok ()

example : meAnalyticsConfigValidate meAnalyticsConfigDefaults = .ok () := by rfl

/-! ## What a validated observation satisfies -/

theorem validateRules_ok {i : Nat} {seen rules : List MeRuleFact}
    (h : validateRules i seen rules = .ok ()) :
    ∀ r ∈ rules,
      r.ruleId.bounded meAnalyticsRuleIdMax = true ∧ validDirection r.direction = true := by
  induction rules generalizing i seen with
  | nil => simp
  | cons rule rest ih =>
    simp only [validateRules] at h
    split at h
    · cases h
    · next h1 =>
      split at h
      · cases h
      · simp only [Bool.or_eq_true, Bool.not_eq_true', decide_eq_true_eq, not_or,
          Bool.not_eq_false] at h1
        intro r hr
        rcases List.mem_cons.mp hr with rfl | hr
        · exact ⟨h1.1.1.1, h1.1.2⟩
        · exact ih h r hr

/-- The facts about a validated observation that later stages rely on. -/
structure ObservationValid (o : MeNormalizedObservation) : Prop where
  channel : o.channelId.bounded meAnalyticsChannelIdMax = true
  epoch_pos : 0 < o.streamEpoch
  pts : if o.sourcePtsValid then 0 ≤ o.sourcePts else o.sourcePts = 0
  timebase : 0 < o.sourceTimebase.num ∧ 0 < o.sourceTimebase.den
  frame_pos : 0 < o.frameId
  clock : validateClock o = .ok ()
  tracks_le : o.tracks.length ≤ meAnalyticsMaxTracks
  rules_le : o.rules.length ≤ meAnalyticsMaxRuleFacts
  rules : ∀ r ∈ o.rules,
    r.ruleId.bounded meAnalyticsRuleIdMax = true ∧ validDirection r.direction = true

theorem observationValid_of_validate {o : MeNormalizedObservation}
    (h : meObservationValidate o = .ok ()) : ObservationValid o := by
  unfold meObservationValidate at h
  split at h
  · cases h
  split at h
  · cases h
  next hch =>
  split at h
  · cases h
  next hef =>
  split at h
  · cases h
  next htb =>
  split at h
  · cases h
  next hp1 =>
  split at h
  · cases h
  next hp2 =>
  split at h
  · cases h
  cases hcl : validateClock o with
  | error e => simp only [hcl, bind, Except.bind, reduceCtorEq] at h
  | ok u =>
    simp only [hcl, bind, Except.bind] at h
    split at h
    · cases h
    split at h
    · cases h
    next htr =>
    cases hvt : validateTracks 0 [] o.tracks with
    | error e => simp only [hvt, reduceCtorEq] at h
    | ok u =>
      simp only [hvt] at h
      split at h
      · cases h
      next hru =>
      simp only [Bool.or_eq_true, beq_iff_eq, not_or] at hef htb
      refine ⟨by simpa using hch, by omega, ?_, ⟨by omega, by omega⟩, by omega, hcl, by omega,
        by omega, validateRules_ok h⟩
      split
      · next hv => simpa [hv] using hp2
      · next hv => simpa [hv] using hp1

end FlowAlarm.Engine
