import FlowAlarm.Engine.Observation

/-!
# The event engine

The rule engine of `event_engine.c`: one state record, and the calls
`init`, `process`, `close`, `reconfigure` and `deinit` over it. A call returns
its `Outcome`: the next state, the records handed to the sink during the call
and the returned value (an error text for -1). Slot arrays are lists of
`meAnalyticsMaxTracks` entries; an event carries the first
`responsible_track_count` entries of its array.
-/

namespace FlowAlarm.Engine

open FlowAlarm.Text

def meAnalyticsEventContractVersion : Nat := 1
def meAnalyticsEventIdMax : Nat := 96
def meAnalyticsEventMaxTracks : Nat := meAnalyticsMaxRuleFacts

inductive MeEventPhase where
  | start | update | end_
  | other (code : Nat)
  deriving DecidableEq, Repr

inductive MeEventReason where
  | none | confirmed | countChanged | direction | disappeared | streamReset | reconfigured
  | analyticsDisabled | processRestart
  | other (code : Nat)
  deriving DecidableEq, Repr

structure MeAnalyticsEvent where
  contractVersion : Nat
  eventId : CStr
  channelId : CStr
  streamEpoch : Nat
  eventType : MeRuleType
  ruleId : CStr
  phase : MeEventPhase
  eventSeq : Nat
  reason : MeEventReason
  eventTimeUs : Int
  clockState : MeClockState
  sourcePts : Int
  sourcePtsValid : Bool
  sourceTimebase : MeTimebase
  frameId : Nat
  personCount : Nat
  deltaIn : Nat
  deltaOut : Nat
  responsibleTrackIds : List Nat
  configVersion : Nat
  evidenceId : CStr
  deriving DecidableEq

def MeAnalyticsEvent.zero : MeAnalyticsEvent where
  contractVersion := 0
  eventId := .empty
  channelId := .empty
  streamEpoch := 0
  eventType := .unknown
  ruleId := .empty
  phase := .other 0
  eventSeq := 0
  reason := .none
  eventTimeUs := 0
  clockState := .unavailable
  sourcePts := 0
  sourcePtsValid := false
  sourceTimebase := ⟨0, 0⟩
  frameId := 0
  personCount := 0
  deltaIn := 0
  deltaOut := 0
  responsibleTrackIds := []
  configVersion := 0
  evidenceId := .empty

structure MeEventTrackState where
  inUse : Bool := false
  present : Bool := false
  confirmed : Bool := false
  trackId : Nat := 0
  seenFrames : Nat := 0
  firstFrameId : Nat := 0
  firstTimelineUs : Int := 0
  firstTimelineValid : Bool := false
  lastSeenFrameId : Nat := 0
  lastTimelineUs : Int := 0
  lastTimelineValid : Bool := false
  inside : Bool := false
  insideInitialized : Bool := false
  insideCandidate : Bool := false
  insideCandidateValid : Bool := false
  insideCandidateSinceUs : Int := 0
  deriving DecidableEq

/-- A remembered fact; `directionPresent` lists the set entries of the C array. -/
structure MeEventRuleFactState where
  inUse : Bool := false
  trackId : Nat := 0
  directionPresent : List MeRuleDirection := []
  deriving DecidableEq

structure MeEventEngine where
  config : MeAnalyticsConfig
  configVersion : Nat
  order : MeObservationOrder := meObservationOrderInit
  haveStream : Bool := false
  channelId : CStr := .empty
  streamEpoch : Nat := 0
  lastObservation : MeNormalizedObservation := .zero
  haveLastObservation : Bool := false
  tracks : List MeEventTrackState := List.replicate meAnalyticsMaxTracks {}
  ruleFactStates : List MeEventRuleFactState := List.replicate meAnalyticsMaxTracks {}
  active : Bool := false
  activeEvent : MeAnalyticsEvent := .zero
  activePersonCount : Nat := 0
  latestPersonCount : Nat := 0
  latestPersonCountValid : Bool := false
  triggerPending : Bool := false
  triggerFrames : Nat := 0
  triggerSinceUs : Int := 0
  triggerSinceValid : Bool := false
  absentSinceUs : Int := 0
  absentSinceValid : Bool := false
  updatePending : Bool := false
  pendingPersonCount : Nat := 0
  pendingDeltaIn : Nat := 0
  pendingDeltaOut : Nat := 0
  pendingTrackIds : List Nat := []
  pendingReason : MeEventReason := .none
  lastEmitTimelineUs : Int := 0
  lastEmitTimelineValid : Bool := false
  cooldownUntilUs : Int := 0
  cooldownUntilValid : Bool := false
  nextEventSerial : Nat := 0

/-- What a call leaves behind, hands to the sink and returns. -/
structure Outcome where
  engine : MeEventEngine
  emitted : List MeAnalyticsEvent
  ret : Except Bytes Nat

def validEventReason : MeEventReason → Bool
  | .none | .other _ => false
  | _ => true

def channelHash (channelId : Bytes) : Nat :=
  channelId.foldl (fun h b => (h ^^^ b.toNat) * 1099511628211 % 2 ^ 64) 1469598103934665603

/-! ## The local timeline -/

structure MeTimeline where
  us : Int
  valid : Bool

def scaleToUs (value numerator denominator : Nat) : Option Int :=
  if denominator = 0 then none
  else
    let result := value * numerator * 1000000 / denominator
    if int64Max < result then none else some result

def ptsToUs (o : MeNormalizedObservation) : Option Int :=
  if !o.sourcePtsValid || o.sourcePts < 0 || o.sourceTimebase.num == 0 ||
      o.sourceTimebase.den == 0 then none
  else scaleToUs o.sourcePts.toNat o.sourceTimebase.num o.sourceTimebase.den

/-- Only for local durations: PTS, then the capture clock, then the frame number. -/
def observationTimeline (config : MeAnalyticsConfig) (o : MeNormalizedObservation) : MeTimeline :=
  match ptsToUs o with
  | some us => ⟨us, true⟩
  | none =>
    if (o.clockState == .synced || o.clockState == .estimated) && 0 < o.captureTimeUs then
      ⟨o.captureTimeUs, true⟩
    else if 0 < config.fps && 0 < o.frameId then
      match scaleToUs (o.frameId - 1) 1 config.fps.toNat with
      | some us => ⟨us, true⟩
      | none => ⟨0, false⟩
    else ⟨0, false⟩

def elapsedAtLeast (now : MeTimeline) (thenUs : Int) (thenValid : Bool) (durationUs : Nat) : Bool :=
  now.valid && thenValid && thenUs ≤ now.us && durationUs ≤ (now.us - thenUs).toNat

def timeAddMs (startUs : Int) (durationMs : Nat) : Option Int :=
  if startUs < 0 then none
  else some (min (startUs + durationMs * 1000) int64Max)

def saturatingAddU32 (value addend : Nat) : Nat :=
  if uint32Max - value < addend then uint32Max else value + addend

/-! ## Event records -/

def incrementEventSeq (event : MeAnalyticsEvent) : Option MeAnalyticsEvent :=
  if event.eventSeq = uint64Max then none
  else some { event with eventSeq := event.eventSeq + 1 }

def eventCopyObservationContext (event : MeAnalyticsEvent) (o : MeNormalizedObservation)
    (personCount deltaIn deltaOut : Nat) : MeAnalyticsEvent :=
  { event with
    channelId := o.channelId.snprintf meAnalyticsChannelIdMax
    streamEpoch := o.streamEpoch
    eventTimeUs :=
      if o.clockState == .synced || o.clockState == .estimated then o.captureTimeUs else 0
    clockState := o.clockState
    sourcePts := o.sourcePts
    sourcePtsValid := o.sourcePtsValid
    sourceTimebase := o.sourceTimebase
    frameId := o.frameId
    personCount := personCount
    deltaIn := deltaIn
    deltaOut := deltaOut }

def eventCopyResponsibleTracks (event : MeAnalyticsEvent) (trackIds : List Nat) :
    MeAnalyticsEvent :=
  { event with responsibleTrackIds := trackIds.take meAnalyticsEventMaxTracks }

/-! ## Clearing -/

def clearTriggerCandidate (e : MeEventEngine) : MeEventEngine :=
  { e with triggerPending := false, triggerFrames := 0, triggerSinceUs := 0
           triggerSinceValid := false }

def clearPending (e : MeEventEngine) : MeEventEngine :=
  { clearTriggerCandidate e with
    absentSinceUs := 0
    absentSinceValid := false
    updatePending := false
    pendingPersonCount := 0
    pendingDeltaIn := 0
    pendingDeltaOut := 0
    pendingTrackIds := []
    pendingReason := .none
    lastEmitTimelineUs := 0
    lastEmitTimelineValid := false }

def clearTracks (e : MeEventEngine) : MeEventEngine :=
  { e with tracks := List.replicate meAnalyticsMaxTracks {} }

def clearRuleFactStates (e : MeEventEngine) : MeEventEngine :=
  { e with ruleFactStates := List.replicate meAnalyticsMaxTracks {} }

def clearRuntime (e : MeEventEngine) : MeEventEngine :=
  clearRuleFactStates (clearTracks (clearPending
    { e with
      active := false
      activeEvent := .zero
      activePersonCount := 0
      latestPersonCount := 0
      latestPersonCountValid := false
      cooldownUntilUs := 0
      cooldownUntilValid := false }))

def latestPersonCount (e : MeEventEngine) : Nat :=
  if e.latestPersonCountValid then e.latestPersonCount else e.activePersonCount

/-! ## Rule facts -/

structure MeRuleSummary where
  first : Option MeRuleFact := none
  matchCount : Nat := 0
  newMatchCount : Nat := 0
  deltaIn : Nat := 0
  deltaOut : Nat := 0
  trackIds : List Nat := []
  facts : List MeRuleFact := []

def findRuleFactState (states : List MeEventRuleFactState) (trackId : Nat) : Option Nat :=
  states.findIdx? fun s => s.inUse && s.trackId == trackId

def allocateRuleFactState (states : List MeEventRuleFactState) (trackId : Nat) :
    Option (List MeEventRuleFactState × Nat) :=
  match states.findIdx? fun s => !s.inUse with
  | none => none
  | some slot => some (states.set slot { inUse := true, trackId := trackId }, slot)

def ruleFactSeen (states : List MeEventRuleFactState) (fact : MeRuleFact) : Bool :=
  validDirection fact.direction &&
    match findRuleFactState states fact.trackId with
    | none => false
    | some slot => (states.getD slot {}).directionPresent.contains fact.direction

def setDirection (direction : MeRuleDirection) (s : MeEventRuleFactState) : MeEventRuleFactState :=
  { s with directionPresent := direction :: s.directionPresent }

def rememberRuleFact (states : List MeEventRuleFactState) (fact : MeRuleFact) :
    Option (List MeEventRuleFactState) :=
  if !validDirection fact.direction then none
  else match findRuleFactState states fact.trackId with
    | some slot => some (states.modify slot (setDirection fact.direction))
    | none =>
      match allocateRuleFactState states fact.trackId with
      | none => none
      | some (states, slot) => some (states.modify slot (setDirection fact.direction))

/-- Replaces the previous observation's facts, so a later reappearance is a new occurrence. The
states are those reached, also when a fact does not fit. -/
def rememberRuleFacts (e : MeEventEngine) (facts : List MeRuleFact) : MeEventEngine × Bool :=
  go (clearRuleFactStates e) facts
where
  go (e : MeEventEngine) : List MeRuleFact → MeEventEngine × Bool
  | [] => (e, true)
  | fact :: rest =>
    match rememberRuleFact e.ruleFactStates fact with
    | none => (e, false)
    | some states => go { e with ruleFactStates := states } rest

def summaryHasTrack (summary : MeRuleSummary) (trackId : Nat) : Bool :=
  trackId == 0 || summary.trackIds.contains trackId

def summaryAddTrack (summary : MeRuleSummary) (trackId : Nat) : MeRuleSummary :=
  if trackId == 0 || summaryHasTrack summary trackId ||
      summary.trackIds.length == meAnalyticsEventMaxTracks then summary
  else { summary with trackIds := summary.trackIds ++ [trackId] }

def summaryHasFact (summary : MeRuleSummary) (fact : MeRuleFact) : Bool :=
  summary.facts.any fun previous =>
    previous.ruleType == fact.ruleType && previous.direction == fact.direction &&
      previous.trackId == fact.trackId && previous.ruleId == fact.ruleId

/-- The part of the loop body of `matching_rules` for a fact not seen in the previous
observation. -/
def summaryNewMatch (summary : MeRuleSummary) (rule : MeRuleFact) : MeRuleSummary :=
  let summary := { summary with newMatchCount := min (summary.newMatchCount + 1) uint32Max }
  let summary :=
    match rule.direction with
    | .in => { summary with deltaIn := saturatingAddU32 summary.deltaIn 1 }
    | .out => { summary with deltaOut := saturatingAddU32 summary.deltaOut 1 }
    | _ => summary
  summaryAddTrack summary rule.trackId

def summaryMatch (e : MeEventEngine) (summary : MeRuleSummary) (rule : MeRuleFact) :
    MeRuleSummary :=
  if rule.ruleType == e.config.ruleType && rule.ruleId == e.config.ruleId &&
      e.config.scoreThresholdQ ≤ rule.scoreQ then
    if summaryHasFact summary rule then summary
    else
      let summary := { summary with
        facts := if summary.facts.length < meAnalyticsMaxRuleFacts then summary.facts ++ [rule]
          else summary.facts
        first := summary.first.or (some rule)
        matchCount := min (summary.matchCount + 1) uint32Max }
      if ruleFactSeen e.ruleFactStates rule then summary else summaryNewMatch summary rule
  else summary

def matchingRules (e : MeEventEngine) (o : MeNormalizedObservation) : MeRuleSummary :=
  if e.config.ruleType == .occupancy then {}
  else o.rules.foldl (summaryMatch e) {}

/-! ## Tracks -/

def findTrack (tracks : List MeEventTrackState) (trackId : Nat) : Option Nat :=
  tracks.findIdx? fun t => t.inUse && t.trackId == trackId

def allocateTrack (tracks : List MeEventTrackState) (trackId : Nat) :
    Option (List MeEventTrackState × Nat) :=
  match tracks.findIdx? fun t => !t.inUse with
  | none => none
  | some slot => some (tracks.set slot { inUse := true, trackId := trackId }, slot)

def trackInside (config : MeAnalyticsConfig) (bbox : MeNormalizedBBox) : Bool :=
  if !config.roiEnabled then true
  else
    let centerX := (bbox.left + bbox.right) / 2
    let centerY := (bbox.top + bbox.bottom) / 2
    config.roi.left ≤ centerX && centerX ≤ config.roi.right && config.roi.top ≤ centerY &&
      centerY ≤ config.roi.bottom

def clearInsideCandidate (t : MeEventTrackState) : MeEventTrackState :=
  { t with insideCandidate := false, insideCandidateValid := false, insideCandidateSinceUs := 0 }

def updateTrackInside (config : MeAnalyticsConfig) (t : MeEventTrackState) (rawInside : Bool)
    (now : MeTimeline) : MeEventTrackState :=
  let debounceUs := config.debounceMs * 1000
  if !t.insideInitialized then
    clearInsideCandidate { t with inside := rawInside, insideInitialized := true }
  else if rawInside == t.inside then clearInsideCandidate t
  else if debounceUs == 0 || !now.valid then clearInsideCandidate { t with inside := rawInside }
  else if !t.insideCandidateValid || t.insideCandidate != rawInside then
    { t with
      insideCandidate := rawInside, insideCandidateValid := true
      insideCandidateSinceUs := now.us }
  else if elapsedAtLeast now t.insideCandidateSinceUs true debounceUs then
    clearInsideCandidate { t with inside := rawInside }
  else t

def trackConfirmed (config : MeAnalyticsConfig) (t : MeEventTrackState) (now : MeTimeline) : Bool :=
  (0 < config.confirmFrames && config.confirmFrames ≤ t.seenFrames) ||
    elapsedAtLeast now t.firstTimelineUs t.firstTimelineValid (config.confirmMs * 1000)

/-- The loop body of `update_tracks` for a track that is present in the frame. -/
def seeTrack (config : MeAnalyticsConfig) (frameId : Nat) (now : MeTimeline)
    (input : MeTrackObservation) (t : MeEventTrackState) : MeEventTrackState :=
  let t := updateTrackInside config { t with present := true } (trackInside config input.bbox) now
  let t :=
    if t.confirmed then t
    else
      let t := { t with seenFrames := min (t.seenFrames + 1) uint32Max }
      let t :=
        if t.seenFrames == 1 then
          { t with
            firstFrameId := frameId, firstTimelineUs := now.us, firstTimelineValid := now.valid }
        else t
      if trackConfirmed config t now then { t with confirmed := true } else t
  { t with lastSeenFrameId := frameId, lastTimelineUs := now.us, lastTimelineValid := now.valid }

def updateTrack (config : MeAnalyticsConfig) (frameId : Nat) (now : MeTimeline)
    (tracks : List MeEventTrackState) (input : MeTrackObservation) : List MeEventTrackState :=
  if input.classId != .person then tracks
  else if input.state == .removed then
    match findTrack tracks input.trackId with
    | some slot => tracks.set slot {}
    | none => tracks
  else if (input.state != .new && input.state != .active) ||
      input.scoreQ < config.scoreThresholdQ then tracks
  else
    match findTrack tracks input.trackId with
    | some slot => tracks.modify slot (seeTrack config frameId now input)
    | none =>
      match allocateTrack tracks input.trackId with
      | some (tracks, slot) => tracks.modify slot (seeTrack config frameId now input)
      | none => tracks

/-- The second loop of `update_tracks`: forgets what is gone. -/
def expireTrack (config : MeAnalyticsConfig) (now : MeTimeline) (t : MeEventTrackState) :
    MeEventTrackState :=
  let graceUs := config.disappearGraceMs * 1000
  if !t.inUse then t
  else if !t.confirmed && !t.present then {}
  else if !t.present && (graceUs == 0 ||
      elapsedAtLeast now t.lastTimelineUs t.lastTimelineValid graceUs) then {}
  else t

def updateTracks (e : MeEventEngine) (o : MeNormalizedObservation) (now : MeTimeline) :
    MeEventEngine × Nat :=
  let tracks := e.tracks.map fun t => { t with present := false }
  let tracks := o.tracks.foldl (updateTrack e.config o.frameId now) tracks
  let tracks := tracks.map (expireTrack e.config now)
  ({ e with tracks := tracks },
    tracks.countP fun t => t.inUse && t.present && t.confirmed && t.inside)

/-! ## Event identity and the lifecycle -/

/-- The bytes of `"me-%016llx-%016llx-%016llx"`. -/
def eventIdText (channelId : CStr) (streamEpoch serial : Nat) : Bytes :=
  ascii "me-" ++ hexPad 16 (channelHash channelId.bytes) ++ 0x2D :: (hexPad 16 streamEpoch ++
    0x2D :: hexPad 16 serial)

theorem eventIdText_nonul (channelId : CStr) (streamEpoch serial : Nat) :
    0 ∉ eventIdText channelId streamEpoch serial := by
  intro h
  simp only [eventIdText, List.mem_append, List.mem_cons] at h
  rcases h with (h | h) | h | h | h | h
  · revert h; decide
  · exact (mem_hexPad h).2 rfl
  · cases h
  · exact (mem_hexPad h).2 rfl
  · cases h
  · exact (mem_hexPad h).2 rfl

def newEventId (e : MeEventEngine) (channelId : CStr) (streamEpoch : Nat) :
    Option (MeEventEngine × CStr) :=
  if e.nextEventSerial = uint64Max then none
  else
    let serial := e.nextEventSerial + 1
    let written := eventIdText channelId streamEpoch serial
    if meAnalyticsEventIdMax ≤ written.length then none
    else some ({ e with nextEventSerial := serial },
      ⟨written, eventIdText_nonul channelId streamEpoch serial⟩)

def cooldownElapsed (e : MeEventEngine) (now : MeTimeline) : Bool :=
  if !e.cooldownUntilValid then true
  else now.valid && e.cooldownUntilUs ≤ now.us

/-- The START record, built in a cleared `active_event`. -/
def startEvent (e : MeEventEngine) (eventId : CStr) (o : MeNormalizedObservation)
    (summary : MeRuleSummary) (personCount : Nat) : MeAnalyticsEvent :=
  let event := { MeAnalyticsEvent.zero with
    contractVersion := meAnalyticsEventContractVersion
    eventId := eventId
    eventType := e.config.ruleType
    ruleId :=
      match summary.first with
      | none => e.config.ruleId.snprintf meAnalyticsRuleIdMax
      | some fact => fact.ruleId.snprintf meAnalyticsRuleIdMax
    phase := .start
    eventSeq := 1
    reason := .confirmed
    configVersion := e.configVersion }
  eventCopyResponsibleTracks
    (eventCopyObservationContext event o personCount summary.deltaIn summary.deltaOut)
    summary.trackIds

def emitStart (e : MeEventEngine) (o : MeNormalizedObservation) (summary : MeRuleSummary)
    (personCount : Nat) (now : MeTimeline) : Outcome :=
  match newEventId e o.channelId o.streamEpoch with
  | none =>
    ⟨{ e with activeEvent :=
        { MeAnalyticsEvent.zero with contractVersion := meAnalyticsEventContractVersion } }, [],
      .error (ascii "analytics event id serial is exhausted")⟩
  | some (e, eventId) =>
    let event := startEvent e eventId o summary personCount
    let e := { e with activeEvent := event }
    match rememberRuleFacts e summary.facts with
    | (e, false) => ⟨e, [], .error (ascii "analytics rule fact state is exhausted")⟩
    | (e, true) =>
      ⟨{ e with
          active := true
          activePersonCount := personCount
          lastEmitTimelineUs := now.us
          lastEmitTimelineValid := now.valid }, [event], .ok 1⟩

/-- Adds the tracks not pending yet, up to the array's size. -/
def addPendingTracks (pending trackIds : List Nat) : List Nat :=
  trackIds.foldl (fun pending id =>
    if !pending.contains id && pending.length < meAnalyticsEventMaxTracks then pending ++ [id]
    else pending) pending

def markUpdate (e : MeEventEngine) (personCount deltaIn deltaOut : Nat) (trackIds : List Nat)
    (reason : MeEventReason) : MeEventEngine :=
  { e with
    updatePending := true
    pendingPersonCount := personCount
    pendingDeltaIn :=
      if 0 < deltaIn then saturatingAddU32 e.pendingDeltaIn deltaIn else e.pendingDeltaIn
    pendingDeltaOut :=
      if 0 < deltaOut then saturatingAddU32 e.pendingDeltaOut deltaOut else e.pendingDeltaOut
    pendingTrackIds := addPendingTracks e.pendingTrackIds trackIds
    pendingReason := reason }

def maybeEmitUpdate (e : MeEventEngine) (o : MeNormalizedObservation) (personCount : Nat)
    (now : MeTimeline) : Outcome :=
  if !e.updatePending then ⟨e, [], .ok 0⟩
  else if e.lastEmitTimelineValid && now.valid &&
      !elapsedAtLeast now e.lastEmitTimelineUs true (e.config.updateIntervalMs * 1000) then
    ⟨e, [], .ok 0⟩
  else match incrementEventSeq e.activeEvent with
    | none => ⟨e, [], .error (ascii "analytics event sequence is exhausted")⟩
    | some event =>
      let event := eventCopyResponsibleTracks
        (eventCopyObservationContext { event with phase := .update, reason := e.pendingReason } o
          personCount e.pendingDeltaIn e.pendingDeltaOut) e.pendingTrackIds
      ⟨{ e with
          activeEvent := event
          activePersonCount := personCount
          lastEmitTimelineUs := now.us
          lastEmitTimelineValid := now.valid
          updatePending := false
          pendingPersonCount := 0
          pendingDeltaIn := 0
          pendingDeltaOut := 0
          pendingReason := .none }, [event], .ok 1⟩

/-- The END record over the active event with its sequence already advanced. -/
def endEvent (e : MeEventEngine) (event : MeAnalyticsEvent) (o : MeNormalizedObservation)
    (reason : MeEventReason) (personCount : Nat) : MeAnalyticsEvent :=
  let event := eventCopyObservationContext { event with phase := .end_, reason := reason } o
    personCount e.pendingDeltaIn e.pendingDeltaOut
  if e.pendingTrackIds.length = 0 then event else eventCopyResponsibleTracks event e.pendingTrackIds

def applyCooldown (e : MeEventEngine) (now : MeTimeline) : MeEventEngine :=
  match timeAddMs now.us e.config.cooldownMs with
  | none => { e with cooldownUntilValid := false }
  | some us => { e with cooldownUntilUs := us, cooldownUntilValid := true }

def emitEnd (e : MeEventEngine) (o : MeNormalizedObservation) (reason : MeEventReason)
    (personCount : Nat) (now : MeTimeline) (cooldown : Bool) : Outcome :=
  if !e.active then ⟨e, [], .ok 0⟩
  else match incrementEventSeq e.activeEvent with
    | none => ⟨e, [], .error (ascii "analytics event sequence is exhausted")⟩
    | some event =>
      let event := endEvent e event o reason personCount
      let e := { e with activeEvent := event }
      let e := if cooldown && now.valid && 0 < e.config.cooldownMs then applyCooldown e now else e
      ⟨clearRuleFactStates (clearPending { e with active := false, activePersonCount := 0 }),
        [event], .ok 1⟩

def updateTriggerCandidate (e : MeEventEngine) (condition : Bool) (now : MeTimeline) :
    MeEventEngine :=
  if !condition then clearTriggerCandidate e
  else if !e.triggerPending then
    { e with triggerPending := true, triggerFrames := 1, triggerSinceUs := now.us
             triggerSinceValid := now.valid }
  else { e with triggerFrames := min (e.triggerFrames + 1) uint32Max }

def triggerQualified (e : MeEventEngine) (now : MeTimeline) : Bool :=
  let debounceUs := e.config.debounceMs * 1000
  if !e.triggerPending then false
  else
    let confirmed := (0 < e.config.confirmFrames && e.config.confirmFrames ≤ e.triggerFrames) ||
      elapsedAtLeast now e.triggerSinceUs e.triggerSinceValid (e.config.confirmMs * 1000)
    if !confirmed || !cooldownElapsed e now then false
    else debounceUs == 0 || elapsedAtLeast now e.triggerSinceUs e.triggerSinceValid debounceUs ||
      !now.valid

/-- `process_accepted` while no event is active. -/
def processIdle (e : MeEventEngine) (o : MeNormalizedObservation) (summary : MeRuleSummary)
    (personCount : Nat) (condition : Bool) (now : MeTimeline) : Outcome :=
  let e := updateTriggerCandidate e condition now
  if triggerQualified e now then
    match emitStart e o summary personCount now with
    | ⟨e, emitted, .error err⟩ => ⟨e, emitted, .error err⟩
    | ⟨e, emitted, .ok started⟩ =>
      ⟨{ clearTriggerCandidate e with absentSinceValid := false }, emitted, .ok started⟩
  else ⟨e, [], .ok 0⟩

/-- `process_accepted` while an event is active and its condition does not hold. -/
def processAbsent (e : MeEventEngine) (o : MeNormalizedObservation) (personCount : Nat)
    (now : MeTimeline) : Outcome :=
  let absenceUs := e.config.disappearGraceMs * 1000
  let e := if e.absentSinceValid then e
    else { e with absentSinceUs := now.us, absentSinceValid := now.valid }
  if absenceUs == 0 || elapsedAtLeast now e.absentSinceUs e.absentSinceValid absenceUs then
    emitEnd e o .disappeared personCount now true
  else ⟨e, [], .ok 0⟩

/-- `process_accepted` while an event is active and its condition holds. -/
def processPresent (e : MeEventEngine) (o : MeNormalizedObservation) (summary : MeRuleSummary)
    (personCount : Nat) (now : MeTimeline) : Outcome :=
  let e := { e with absentSinceValid := false }
  let e :=
    if e.config.ruleType == .occupancy then
      if personCount != e.activePersonCount then markUpdate e personCount 0 0 [] .countChanged
      else e
    else if 0 < summary.newMatchCount then
      markUpdate e personCount summary.deltaIn summary.deltaOut summary.trackIds .direction
    else e
  maybeEmitUpdate e o personCount now

/-- Whether the observation satisfies the configured rule. -/
def ruleCondition (e : MeEventEngine) (summary : MeRuleSummary) (personCount : Nat) : Bool :=
  if e.config.ruleType == .occupancy then 0 < personCount else 0 < summary.matchCount

/-- `process_accepted` behind the person count. -/
def processCounted (e : MeEventEngine) (o : MeNormalizedObservation) (personCount : Nat)
    (now : MeTimeline) : Outcome :=
  let summary := matchingRules e o
  let condition := ruleCondition e summary personCount
  if !e.active then processIdle e o summary personCount condition now
  else
    match if e.config.ruleType == .occupancy then (e, true)
      else rememberRuleFacts e summary.facts with
    | (e, false) => ⟨e, [], .error (ascii "analytics rule fact state is exhausted")⟩
    | (e, true) =>
      if !condition then processAbsent e o personCount now
      else processPresent e o summary personCount now

def processAccepted (e : MeEventEngine) (o : MeNormalizedObservation) : Outcome :=
  let now := observationTimeline e.config o
  if !e.config.enabled then
    ⟨clearPending (clearTracks { e with latestPersonCount := 0, latestPersonCountValid := true }),
      [], .ok 0⟩
  else
    let (e, personCount) := updateTracks e o now
    processCounted { e with latestPersonCount := personCount, latestPersonCountValid := true } o
      personCount now

/-! ## The calls -/

def meEventEngineInit (config : Option MeAnalyticsConfig) (configVersion : Nat) :
    Except Bytes MeEventEngine :=
  match config with
  | none => .error (ascii "event engine and config are required")
  | some config =>
    match meAnalyticsConfigValidate config with
    | .error err => .error err
    | .ok () => .ok
        { config := config, configVersion := if configVersion = 0 then 1 else configVersion }

/-- The END of an active event at the latest observation, without cooldown. -/
def endAtLast (e : MeEventEngine) (reason : MeEventReason) : Outcome :=
  if e.active && e.haveLastObservation then
    emitEnd e e.lastObservation reason (latestPersonCount e)
      (observationTimeline e.config e.lastObservation) false
  else ⟨e, [], .ok 0⟩

/-- The zeroed configuration `deinit` leaves behind. -/
def zeroConfig : MeAnalyticsConfig :=
  { meAnalyticsConfigDefaults with
    backend := .empty, confirmFrames := 0, confirmMs := 0, debounceMs := 0, disappearGraceMs := 0
    cooldownMs := 0, updateIntervalMs := 0, ruleId := .empty, ruleType := .unknown
    evidenceMode := .empty, evidenceMaxBytes := 0, evidenceRetentionS := 0
    evidenceJpegQuality := 0, eventLogMaxRecords := 0, eventLogMaxBytes := 0
    eventLogPath := .empty }

def meEventEngineDeinit (e : MeEventEngine) : Outcome :=
  match endAtLast e .processRestart with
  | ⟨e, emitted, .error err⟩ => ⟨e, emitted, .error err⟩
  | ⟨_, emitted, .ok n⟩ => ⟨{ config := zeroConfig, configVersion := 0 }, emitted, .ok n⟩

/-- The tail of `process`: installs the accepted observation and runs it; `before` and `emitted`
are what the call has handed out and counted so far. -/
def acceptObservation (e : MeEventEngine) (o : MeNormalizedObservation)
    (nextOrder : MeObservationOrder) (before : List MeAnalyticsEvent) (emitted : Nat) : Outcome :=
  let r := processAccepted
    { e with
      order := nextOrder
      haveStream := true
      channelId := o.channelId.snprintf meAnalyticsChannelIdMax
      streamEpoch := o.streamEpoch
      lastObservation := o
      haveLastObservation := true } o
  ⟨r.engine, before ++ r.emitted, r.ret.map (emitted + ·)⟩

/-- The part of `process` behind the channel check. -/
def processOrdered (e : MeEventEngine) (o : MeNormalizedObservation)
    (before : List MeAnalyticsEvent) (emitted : Nat) : Outcome :=
  match meObservationOrderClassify e.order o with
  | (_, .invalid) => ⟨e, before, .error (ascii "observation ordering input is invalid")⟩
  | (_, .duplicate) | (_, .outOfOrder) => ⟨e, before, .ok emitted⟩
  | (nextOrder, .epochAdvance) =>
    match endAtLast e .streamReset with
    | ⟨e, ends, .error err⟩ => ⟨e, before ++ ends, .error err⟩
    | ⟨e, ends, .ok ended⟩ =>
      acceptObservation (clearRuntime e) o nextOrder (before ++ ends) (emitted + ended)
  | (nextOrder, _) => acceptObservation e o nextOrder before emitted

def meEventEngineProcess (e : MeEventEngine) (observation : Option MeNormalizedObservation) :
    Outcome :=
  match observation with
  | none => ⟨e, [], .error (ascii "event engine and observation are required")⟩
  | some o =>
    match meObservationValidate o with
    | .error err => ⟨e, [], .error err⟩
    | .ok () =>
      if e.haveStream && e.channelId != o.channelId then
        match endAtLast e .streamReset with
        | ⟨e, ends, .error err⟩ => ⟨e, ends, .error err⟩
        | ⟨e, ends, .ok ended⟩ =>
          processOrdered
            { clearRuntime e with haveStream := false, order := meObservationOrderInit } o ends ended
      else processOrdered e o [] 0

def meEventEngineClose (e : MeEventEngine) (reason : MeEventReason) : Outcome :=
  if !validEventReason reason then ⟨e, [], .error (ascii "invalid event engine close reason")⟩
  else
    match endAtLast e reason with
    | ⟨e, emitted, .error err⟩ => ⟨e, emitted, .error err⟩
    | ⟨e, emitted, .ok n⟩ => ⟨clearRuntime e, emitted, .ok n⟩

/-- The version a reconfiguration installs. -/
def nextConfigVersion (current configVersion : Nat) : Except Bytes Nat :=
  if configVersion ≠ 0 then
    if configVersion ≤ current then .error (ascii "analytics config version must increase")
    else .ok configVersion
  else if current = uint64Max then .error (ascii "analytics config version is exhausted")
  else .ok (current + 1)

def meEventEngineReconfigure (e : MeEventEngine) (config : Option MeAnalyticsConfig)
    (configVersion : Nat) : Outcome :=
  match config with
  | none => ⟨e, [], .error (ascii "event engine and config are required")⟩
  | some config =>
    match meAnalyticsConfigValidate config with
    | .error err => ⟨e, [], .error err⟩
    | .ok () =>
      match nextConfigVersion e.configVersion configVersion with
      | .error err => ⟨e, [], .error err⟩
      | .ok nextVersion =>
        let reason := if config.enabled then MeEventReason.reconfigured else .analyticsDisabled
        match endAtLast e reason with
        | ⟨e, emitted, .error err⟩ => ⟨e, emitted, .error err⟩
        | ⟨e, emitted, .ok n⟩ =>
          ⟨{ clearRuntime e with config := config, configVersion := nextVersion }, emitted, .ok n⟩

def meEventEngineIsActive (e : MeEventEngine) : Bool := e.active

end FlowAlarm.Engine
