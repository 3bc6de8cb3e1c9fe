import FlowAlarm.Engine.Rejection

/-!
# What an emitted record carries

Every record the engine emits takes its stream context from an observation it
accepted and its responsible tracks from the rule facts of such observations;
the rest are counters within their C types and constants. A `Source` says what
holds of the observations and configuration versions given to the engine, so one
invariant (`Sourced`) serves every bound on the inputs.
-/

namespace FlowAlarm.Engine

open FlowAlarm.Text FlowAlarm.Trace

/-- What holds of the arguments of the calls, and of the numbers a record takes from them. -/
structure Source where
  observation : MeNormalizedObservation → Prop
  trackId : Nat → Prop
  version : Nat → Prop
  trackIds : ∀ o, observation o → ∀ f ∈ o.rules, trackId f.trackId

/-- The stream context of the record is that of `o`. -/
structure InContext (r : MeAnalyticsEvent) (o : MeNormalizedObservation) : Prop where
  channel : r.channelId = o.channelId
  epoch : r.streamEpoch = o.streamEpoch
  time : r.eventTimeUs =
    if o.clockState == .synced || o.clockState == .estimated then o.captureTimeUs else 0
  clock : r.clockState = o.clockState
  pts : r.sourcePts = o.sourcePts
  ptsValid : r.sourcePtsValid = o.sourcePtsValid
  timebase : r.sourceTimebase = o.sourceTimebase
  frame : r.frameId = o.frameId

/-- What a record has of its event, whatever the observation. -/
structure Genuine (S : Source) (r : MeAnalyticsEvent) : Prop where
  contract : r.contractVersion = meAnalyticsEventContractVersion
  eventId : r.eventId.bounded meAnalyticsEventIdMax = true
  eventType : validRuleType r.eventType = true
  ruleId : r.ruleId.bytes.length < meAnalyticsRuleIdMax
  seq : 0 < r.eventSeq ∧ r.eventSeq ≤ uint64Max
  version : S.version r.configVersion
  tracks : r.responsibleTrackIds.length ≤ meAnalyticsEventMaxTracks
  trackIds : ∀ id ∈ r.responsibleTrackIds, S.trackId id
  evidence : r.evidenceId = .empty

/-- What a record handed to the sink satisfies. -/
structure Reported (S : Source) (r : MeAnalyticsEvent) : Prop where
  genuine : Genuine S r
  context : ∃ o, S.observation o ∧ ObservationValid o ∧ InContext r o
  phase : r.phase = .start ∨ r.phase = .update ∨ r.phase = .end_
  reason : ∀ code, r.reason ≠ .other code
  person : r.personCount ≤ meAnalyticsMaxTracks
  deltaIn : r.deltaIn ≤ uint32Max
  deltaOut : r.deltaOut ≤ uint32Max

/-- The invariant: everything a later record may draw on is in range. -/
structure Sourced (S : Source) (e : MeEventEngine) : Prop where
  ruleType : validRuleType e.config.ruleType = true
  version : S.version e.configVersion
  last : e.haveLastObservation = true →
    S.observation e.lastObservation ∧ ObservationValid e.lastObservation
  slots : e.tracks.length = meAnalyticsMaxTracks
  activeCount : e.activePersonCount ≤ meAnalyticsMaxTracks
  latestCount : e.latestPersonCount ≤ meAnalyticsMaxTracks
  deltaIn : e.pendingDeltaIn ≤ uint32Max
  deltaOut : e.pendingDeltaOut ≤ uint32Max
  pendingIds : ∀ id ∈ e.pendingTrackIds, S.trackId id
  pendingReason : ∀ code, e.pendingReason ≠ .other code
  event : e.active = true → Genuine S e.activeEvent

/-- A call keeps the invariant and emits such records. -/
structure Makes (S : Source) (r : Outcome) : Prop where
  sourced : Sourced S r.engine
  reported : ∀ x ∈ r.emitted, Reported S x

section Runtime

variable {S : Source} {e : MeEventEngine}
  {o : MeNormalizedObservation}

theorem Makes.nothing (h : Sourced S e) (ret : Except Bytes Nat) : Makes S ⟨e, [], ret⟩ :=
  ⟨h, by simp⟩

theorem bounded_snprintf (s : CStr) {n : Nat} (hn : 0 < n) :
    (s.snprintf n).bytes.length < n := by
  simp only [CStr.snprintf, List.length_take]
  omega

theorem inContext_copy (ho : ObservationValid o) (event : MeAnalyticsEvent)
    (personCount deltaIn deltaOut : Nat) :
    InContext (eventCopyObservationContext event o personCount deltaIn deltaOut) o :=
  ⟨snprintf_channel ho, rfl, rfl, rfl, rfl, rfl, rfl, rfl⟩

theorem saturatingAddU32_le {a : Nat} (h : a ≤ uint32Max) (b : Nat) :
    saturatingAddU32 a b ≤ uint32Max := by
  unfold saturatingAddU32
  split <;> omega

/-! ### Summaries -/

/-- The deltas of a summary are capped and its tracks are tracks of facts. -/
structure SummarySound (S : Source) (s : MeRuleSummary) : Prop where
  deltaIn : s.deltaIn ≤ uint32Max
  deltaOut : s.deltaOut ≤ uint32Max
  trackIds : ∀ id ∈ s.trackIds, S.trackId id

theorem summaryAddTrack_sound {s : MeRuleSummary} (h : SummarySound S s) {id : Nat} (hid : S.trackId id) :
    SummarySound S (summaryAddTrack s id) := by
  unfold summaryAddTrack
  split
  · exact h
  · refine ⟨h.deltaIn, h.deltaOut, fun x hx => ?_⟩
    rcases List.mem_append.mp hx with hx | hx
    · exact h.trackIds x hx
    · exact List.mem_singleton.mp hx ▸ hid

theorem summaryMatch_sound {s : MeRuleSummary} (h : SummarySound S s) {rule : MeRuleFact}
    (hid : S.trackId rule.trackId) : SummarySound S (summaryMatch e s rule) := by
  unfold summaryMatch
  split
  · split
    · exact h
    · simp only
      split
      · exact ⟨h.deltaIn, h.deltaOut, h.trackIds⟩
      · refine summaryAddTrack_sound ?_ hid
        split
        · exact ⟨saturatingAddU32_le h.deltaIn 1, h.deltaOut, h.trackIds⟩
        · exact ⟨h.deltaIn, saturatingAddU32_le h.deltaOut 1, h.trackIds⟩
        · exact ⟨h.deltaIn, h.deltaOut, h.trackIds⟩
  · exact h

theorem matchingRules_sound (hids : ∀ f ∈ o.rules, S.trackId f.trackId) :
    SummarySound S (matchingRules e o) := by
  have hempty : SummarySound S {} := ⟨Nat.zero_le _, Nat.zero_le _, by simp⟩
  have go : ∀ (rules : List MeRuleFact) (s : MeRuleSummary), (∀ f ∈ rules, S.trackId f.trackId) →
      SummarySound S s → SummarySound S (rules.foldl (summaryMatch e) s) := by
    intro rules
    induction rules with
    | nil => exact fun _ _ hs => hs
    | cons f rules ih =>
      intro s hr hs
      exact ih _ (fun x hx => hr x (List.mem_cons_of_mem _ hx))
        (summaryMatch_sound hs (hr f List.mem_cons_self))
  unfold matchingRules
  split
  · exact hempty
  · exact go o.rules {} hids hempty

/-! ### Tracks -/

theorem length_updateTrack (config : MeAnalyticsConfig) (frameId : Nat) (now : MeTimeline)
    (tracks : List MeEventTrackState) (input : MeTrackObservation) :
    (updateTrack config frameId now tracks input).length = tracks.length := by
  unfold updateTrack allocateTrack
  split
  · rfl
  split
  · split
    · exact List.length_set
    · rfl
  split
  · rfl
  split
  · exact List.length_modify _ _ _
  · split
    · next h =>
      split at h
      · cases h
      · cases h
        rw [List.length_modify, List.length_set]
    · rfl

theorem updateTracks_slots (now : MeTimeline) :
    (updateTracks e o now).1.tracks.length = e.tracks.length ∧
      (updateTracks e o now).2 ≤ e.tracks.length := by
  have hfold : ∀ (inputs : List MeTrackObservation) (tracks : List MeEventTrackState),
      (inputs.foldl (updateTrack e.config o.frameId now) tracks).length = tracks.length := by
    intro inputs
    induction inputs with
    | nil => exact fun _ => rfl
    | cons i inputs ih =>
      intro tracks
      rw [List.foldl_cons, ih, length_updateTrack]
  have hlen : (updateTracks e o now).1.tracks.length = e.tracks.length := by
    simp only [updateTracks, List.length_map, hfold]
  exact ⟨hlen, hlen ▸ List.countP_le_length⟩

/-! ### Bookkeeping -/

/-- The fields the invariant reads. -/
def sourcePart (e : MeEventEngine) :=
  ((e.config, e.configVersion, e.haveLastObservation, e.lastObservation, e.tracks),
    (e.activePersonCount, e.latestPersonCount, e.pendingDeltaIn, e.pendingDeltaOut),
    (e.pendingTrackIds, e.pendingReason, e.active, e.activeEvent))

theorem Sourced.congr {e' : MeEventEngine} (h : Sourced S e)
    (he : sourcePart e' = sourcePart e) : Sourced S e' := by
  simp only [sourcePart, Prod.mk.injEq] at he
  obtain ⟨⟨h1, h2, h3, h4, h5⟩, ⟨h6, h7, h8, h9⟩, h10, h11, h12, h13⟩ := he
  constructor
  · rw [h1]; exact h.ruleType
  · rw [h2]; exact h.version
  · rw [h3, h4]; exact h.last
  · rw [h5]; exact h.slots
  · rw [h6]; exact h.activeCount
  · rw [h7]; exact h.latestCount
  · rw [h8]; exact h.deltaIn
  · rw [h9]; exact h.deltaOut
  · rw [h10]; exact h.pendingIds
  · rw [h11]; exact h.pendingReason
  · rw [h12, h13]; exact h.event

/-- Without an open event the event record does not matter. -/
theorem Sourced.congr' {e' : MeAnalyticsEvent} (h : Sourced S e) (ha : e.active = false) :
    Sourced S { e with activeEvent := e' } :=
  ⟨h.ruleType, h.version, h.last, h.slots, h.activeCount, h.latestCount, h.deltaIn, h.deltaOut,
    h.pendingIds, h.pendingReason, fun hx => absurd (ha ▸ hx) (by simp)⟩

theorem Sourced.clearPending (h : Sourced S e) : Sourced S (clearPending e) :=
  ⟨h.ruleType, h.version, h.last, h.slots, h.activeCount, h.latestCount, Nat.zero_le _,
    Nat.zero_le _, fun _ hid => absurd hid List.not_mem_nil, (fun _ hc => nomatch hc), h.event⟩

theorem Sourced.clearRuntime (h : Sourced S e) : Sourced S (clearRuntime e) :=
  ⟨h.ruleType, h.version, h.last, List.length_replicate, Nat.zero_le _, Nat.zero_le _,
    Nat.zero_le _, Nat.zero_le _, fun _ hid => absurd hid List.not_mem_nil,
    (fun _ hc => nomatch hc), (fun hc => nomatch hc)⟩

theorem Sourced.latestPersonCount (h : Sourced S e) :
    latestPersonCount e ≤ meAnalyticsMaxTracks := by
  unfold Engine.latestPersonCount
  split
  · exact h.latestCount
  · exact h.activeCount

/-! ### Emitting -/

/-- A later record of a genuine event in the context of `o`. -/
theorem Genuine.next {event : MeAnalyticsEvent} (h : Genuine S event)
    (hseq : event.eventSeq ≠ uint64Max) {phase : MeEventPhase} {reason : MeEventReason}
    (hphase : phase = .start ∨ phase = .update ∨ phase = .end_) (ho : ObservationValid o) (hV : S.observation o)
    (hr : ∀ code, reason ≠ .other code) {personCount deltaIn deltaOut : Nat}
    (hp : personCount ≤ meAnalyticsMaxTracks) (hin : deltaIn ≤ uint32Max)
    (hout : deltaOut ≤ uint32Max) :
    Reported S (eventCopyObservationContext
      { event with eventSeq := event.eventSeq + 1, phase := phase, reason := reason } o personCount
      deltaIn deltaOut) where
  genuine :=
    ⟨h.contract, h.eventId, h.eventType, h.ruleId,
      ⟨Nat.succ_pos _, Nat.lt_of_le_of_ne h.seq.2 hseq⟩, h.version, h.tracks, h.trackIds, h.evidence⟩
  context := ⟨o, hV, ho, inContext_copy ho _ _ _ _⟩
  phase := hphase
  reason := hr
  person := hp
  deltaIn := hin
  deltaOut := hout

theorem Reported.tracks {r : MeAnalyticsEvent} (h : Reported S r) {ids : List Nat}
    (hids : ∀ id ∈ ids, S.trackId id) : Reported S (eventCopyResponsibleTracks r ids) where
  genuine :=
    ⟨h.genuine.contract, h.genuine.eventId, h.genuine.eventType, h.genuine.ruleId, h.genuine.seq,
      h.genuine.version, List.length_take_le _ _, fun id hid => hids id (List.mem_of_mem_take hid),
      h.genuine.evidence⟩
  context := by
    obtain ⟨o, hV, ho, hc⟩ := h.context
    exact ⟨o, hV, ho, hc.channel, hc.epoch, hc.time, hc.clock, hc.pts, hc.ptsValid, hc.timebase,
      hc.frame⟩
  phase := h.phase
  reason := h.reason
  person := h.person
  deltaIn := h.deltaIn
  deltaOut := h.deltaOut

theorem emitEnd_makes (h : Sourced S e) (ho : ObservationValid o) (hV : S.observation o)
    {reason : MeEventReason} (hr : ∀ code, reason ≠ .other code) {personCount : Nat}
    (hp : personCount ≤ meAnalyticsMaxTracks) (now : MeTimeline) (cooldown : Bool) :
    Makes S (emitEnd e o reason personCount now cooldown) := by
  unfold emitEnd
  split
  · exact .nothing h _
  next hact =>
  have hev := h.event (by simpa using hact)
  unfold incrementEventSeq
  by_cases hseq : e.activeEvent.eventSeq = uint64Max
  · rw [if_pos hseq]
    exact .nothing h _
  · rw [if_neg hseq]
    simp only
    have hphase : MeEventPhase.end_ = .start ∨ MeEventPhase.end_ = .update ∨
        MeEventPhase.end_ = .end_ := .inr (.inr rfl)
    have hrec := hev.next hseq hphase ho hV hr hp h.deltaIn h.deltaOut
    constructor
    · -- the event is closed, so only the counters matter
      have hclosed : ∀ e₁ : MeEventEngine, fixedPart e₁ = fixedPart e → e₁.tracks = e.tracks →
          e₁.latestPersonCount = e.latestPersonCount →
          Sourced S (clearRuleFactStates (Engine.clearPending
            { e₁ with active := false, activePersonCount := 0 })) := by
        intro e₁ hf ht hl
        simp only [fixedPart, Prod.mk.injEq] at hf
        obtain ⟨hc, hv, -, -, -, -, hlast, hhave⟩ := hf
        exact ⟨hc ▸ h.ruleType, hv ▸ h.version, fun hx => by
            have := h.last (hhave ▸ hx)
            rw [← hlast] at this
            exact this, ht ▸ h.slots, Nat.zero_le _, hl ▸ h.latestCount, Nat.zero_le _,
          Nat.zero_le _, fun _ hid => absurd hid List.not_mem_nil, (fun _ hx => by cases hx),
          (fun hx => by cases hx)⟩
      refine hclosed _ ?_ ?_ ?_ <;>
        (split
         · unfold applyCooldown
           split <;> rfl
         · rfl)
    · intro x hx
      rw [List.mem_singleton.mp hx, endEvent]
      split
      · exact hrec
      · exact hrec.tracks h.pendingIds

theorem maybeEmitUpdate_makes (h : Sourced S e) (ho : ObservationValid o) (hV : S.observation o)
    (ha : e.active = true) {personCount : Nat} (hp : personCount ≤ meAnalyticsMaxTracks)
    (now : MeTimeline) : Makes S (maybeEmitUpdate e o personCount now) := by
  unfold maybeEmitUpdate
  split
  · exact .nothing h _
  split
  · exact .nothing h _
  unfold incrementEventSeq
  by_cases hseq : e.activeEvent.eventSeq = uint64Max
  · rw [if_pos hseq]
    exact .nothing h _
  · rw [if_neg hseq]
    simp only
    have hphase : MeEventPhase.update = .start ∨ MeEventPhase.update = .update ∨
        MeEventPhase.update = .end_ := .inr (.inl rfl)
    have hrec := ((h.event ha).next hseq hphase ho hV h.pendingReason hp
      h.deltaIn h.deltaOut).tracks h.pendingIds
    refine ⟨⟨h.ruleType, h.version, h.last, h.slots, hp, h.latestCount, Nat.zero_le _,
      Nat.zero_le _, h.pendingIds, (fun _ hx => nomatch hx), fun _ => hrec.genuine⟩, ?_⟩
    intro x hx
    rw [List.mem_singleton.mp hx]
    exact hrec

theorem emitStart_makes (e₀ : MeEventEngine) (h : Sourced S e) (ho : ObservationValid o)
    (hV : S.observation o) (hids : ∀ f ∈ o.rules, S.trackId f.trackId) {personCount : Nat}
    (hp : personCount ≤ meAnalyticsMaxTracks) (ha : e.active = false) (now : MeTimeline) :
    Makes S (emitStart e o (matchingRules e₀ o) personCount now) := by
  have hsum := matchingRules_sound (e := e₀) hids
  unfold emitStart
  cases hn : newEventId e o.channelId o.streamEpoch with
  | none => exact .nothing (h.congr' ha) _
  | some ei =>
    obtain ⟨e', eventId⟩ := ei
    have hid : eventId.bounded meAnalyticsEventIdMax = true := by
      unfold newEventId at hn
      split at hn
      · cases hn
      · simp only at hn
        split at hn
        · cases hn
        · next hlen =>
          cases hn
          simp only [CStr.bounded, Bool.and_eq_true, decide_eq_true_eq, bne_iff_ne]
          refine ⟨by omega, ?_⟩
          simp [eventIdText]
    obtain ⟨rfl, -⟩ := newEventId_eq hn
    simp only
    generalize hstart : startEvent _ eventId o (matchingRules e₀ o) personCount = event
    obtain ⟨states, hst⟩ := rememberRuleFacts_matching (e := e₀) (o := o)
      { e with nextEventSerial := e.nextEventSerial + 1, activeEvent := event } ho
    rw [hst]
    have hrec : Reported S event := by
      rw [← hstart]
      have hone : 1 ≤ uint64Max := by decide
      refine Reported.tracks ⟨⟨rfl, hid, h.ruleType, ?_, ⟨Nat.one_pos, hone⟩, h.version,
        Nat.zero_le _, fun _ hx => absurd hx List.not_mem_nil, rfl⟩,
        ⟨o, hV, ho, inContext_copy ho _ _ _ _⟩, .inl rfl, fun _ hx => ?_, hp, hsum.deltaIn,
        hsum.deltaOut⟩ hsum.trackIds
      · simp only [eventCopyObservationContext]
        split <;> exact bounded_snprintf _ (by decide)
      · cases hx
    refine ⟨⟨h.ruleType, h.version, h.last, h.slots, hp, h.latestCount, h.deltaIn, h.deltaOut,
      h.pendingIds, h.pendingReason, fun _ => hrec.genuine⟩, ?_⟩
    intro x hx
    rw [List.mem_singleton.mp hx]
    exact hrec

/-! ### One accepted observation -/

theorem processIdle_makes (e₀ : MeEventEngine) (h : Sourced S e) (ho : ObservationValid o)
    (hV : S.observation o) (hids : ∀ f ∈ o.rules, S.trackId f.trackId) {personCount : Nat}
    (hp : personCount ≤ meAnalyticsMaxTracks) (ha : e.active = false) (condition : Bool)
    (now : MeTimeline) :
    Makes S (processIdle e o (matchingRules e₀ o) personCount condition now) := by
  have hpart : sourcePart (updateTriggerCandidate e condition now) = sourcePart e := by
    unfold updateTriggerCandidate
    split
    · rfl
    · split <;> rfl
  have ha' := (updateTriggerCandidate_same (e := e) condition now).active.trans ha
  unfold processIdle
  simp only
  split
  · have hstart := emitStart_makes e₀ (h.congr hpart) ho hV hids hp ha' now
    revert hstart
    cases emitStart (updateTriggerCandidate e condition now) o (matchingRules e₀ o) personCount now
      with
    | mk e' emitted ret =>
      intro hstart
      cases ret with
      | error err => exact hstart
      | ok n => exact ⟨hstart.sourced.congr rfl, hstart.reported⟩
  · exact .nothing (h.congr hpart) _

theorem processAbsent_makes (h : Sourced S e) (ho : ObservationValid o) (hV : S.observation o)
    {personCount : Nat} (hp : personCount ≤ meAnalyticsMaxTracks) (now : MeTimeline) :
    Makes S (processAbsent e o personCount now) := by
  unfold processAbsent
  simp only
  generalize he' : (if e.absentSinceValid then e
    else { e with absentSinceUs := now.us, absentSinceValid := now.valid }) = e'
  have h' : Sourced S e' := h.congr (by rw [← he']; split <;> rfl)
  split
  · exact emitEnd_makes h' ho hV (by simp) hp now true
  · exact .nothing h' _

theorem addPendingTracks_sound {pending trackIds : List Nat} (hp : ∀ id ∈ pending, S.trackId id)
    (ht : ∀ id ∈ trackIds, S.trackId id) : ∀ id ∈ addPendingTracks pending trackIds, S.trackId id := by
  unfold addPendingTracks
  induction trackIds generalizing pending with
  | nil => exact hp
  | cons t ts ih =>
    rw [List.foldl_cons]
    refine ih ?_ fun id hid => ht id (List.mem_cons_of_mem _ hid)
    split
    · intro id hid
      rcases List.mem_append.mp hid with hid | hid
      · exact hp id hid
      · exact List.mem_singleton.mp hid ▸ ht t List.mem_cons_self
    · exact hp

theorem markUpdate_sourced (h : Sourced S e) (personCount deltaIn deltaOut : Nat)
    {trackIds : List Nat} (ht : ∀ id ∈ trackIds, S.trackId id) {reason : MeEventReason}
    (hr : ∀ code, reason ≠ .other code) :
    Sourced S (markUpdate e personCount deltaIn deltaOut trackIds reason) := by
  refine ⟨h.ruleType, h.version, h.last, h.slots, h.activeCount, h.latestCount, ?_, ?_,
    addPendingTracks_sound h.pendingIds ht, hr, h.event⟩
  · simp only [markUpdate]
    split
    · exact saturatingAddU32_le h.deltaIn _
    · exact h.deltaIn
  · simp only [markUpdate]
    split
    · exact saturatingAddU32_le h.deltaOut _
    · exact h.deltaOut

theorem processPresent_makes (h : Sourced S e) (ho : ObservationValid o) (hV : S.observation o)
    (ha : e.active = true) {summary : MeRuleSummary} (hs : SummarySound S summary)
    {personCount : Nat} (hp : personCount ≤ meAnalyticsMaxTracks) (now : MeTimeline) :
    Makes S (processPresent e o summary personCount now) := by
  have h' : Sourced S { e with absentSinceValid := false } := h.congr rfl
  unfold processPresent
  simp only
  split
  · split
    · exact maybeEmitUpdate_makes (markUpdate_sourced h' _ _ _ (by simp) (by simp)) ho hV ha hp now
    · exact maybeEmitUpdate_makes h' ho hV ha hp now
  · split
    · exact maybeEmitUpdate_makes (markUpdate_sourced h' _ _ _ hs.trackIds (by simp)) ho hV ha hp now
    · exact maybeEmitUpdate_makes h' ho hV ha hp now

theorem processCounted_makes (h : Sourced S e) (ho : ObservationValid o) (hV : S.observation o)
    (hids : ∀ f ∈ o.rules, S.trackId f.trackId) {personCount : Nat}
    (hp : personCount ≤ meAnalyticsMaxTracks) (now : MeTimeline) :
    Makes S (processCounted e o personCount now) := by
  unfold processCounted
  simp only
  split
  · next hact => exact processIdle_makes e h ho hV hids hp (by simpa using hact) _ now
  · next hact =>
    have ha : e.active = true := by simpa using hact
    obtain ⟨e', h', hs⟩ : ∃ e', (if e.config.ruleType == .occupancy then (e, true)
        else rememberRuleFacts e (matchingRules e o).facts) = (e', true) ∧
        sourcePart e' = sourcePart e := by
      split
      · exact ⟨e, rfl, rfl⟩
      · obtain ⟨states, hst⟩ := rememberRuleFacts_matching (e := e) e ho
        exact ⟨_, hst, rfl⟩
    have ha' : e'.active = true := (congrArg (fun p => p.2.2.2.2.1) hs).trans ha
    rw [h']
    simp only
    split
    · exact processAbsent_makes (h.congr hs) ho hV hp now
    · exact processPresent_makes (h.congr hs) ho hV ha' (matchingRules_sound hids) hp now

theorem processAccepted_makes (h : Sourced S e) (ho : ObservationValid o) (hV : S.observation o)
    (hids : ∀ f ∈ o.rules, S.trackId f.trackId) : Makes S (processAccepted e o) := by
  unfold processAccepted
  simp only
  split
  · refine .nothing (Sourced.clearPending (e := clearTracks { e with
        latestPersonCount := 0, latestPersonCountValid := true }) ?_) _
    exact ⟨h.ruleType, h.version, h.last, List.length_replicate, h.activeCount, Nat.zero_le _,
      h.deltaIn, h.deltaOut, h.pendingIds, h.pendingReason, h.event⟩
  · obtain ⟨hslots, hcount⟩ := updateTracks_slots (e := e) (o := o) (observationTimeline e.config o)
    rw [h.slots] at hslots hcount
    exact processCounted_makes
      (e := { (updateTracks e o (observationTimeline e.config o)).1 with
        latestPersonCount := (updateTracks e o (observationTimeline e.config o)).2
        latestPersonCountValid := true })
      ⟨h.ruleType, h.version, h.last, hslots, h.activeCount, hcount, h.deltaIn, h.deltaOut,
        h.pendingIds, h.pendingReason, h.event⟩ ho hV hids hcount _

end Runtime

/-! ## The calls -/

section Calls

variable {S : Source} {e : MeEventEngine}

theorem endAtLast_makes (h : Sourced S e) {reason : MeEventReason}
    (hr : ∀ code, reason ≠ .other code) : Makes S (endAtLast e reason) := by
  unfold endAtLast
  split
  · next hact =>
    obtain ⟨hV, ho⟩ := h.last (Bool.and_eq_true_iff.mp hact).2
    exact emitEnd_makes h ho hV hr h.latestPersonCount _ false
  · exact .nothing h _

/-- What is asked of a call's arguments. -/
def Call.Given (S : Source) : Call → Prop
  | .process (some o) => S.observation o
  | .reconfigure _ configVersion => ∀ current next, S.version current →
      nextConfigVersion current configVersion = .ok next → S.version next
  | _ => True

theorem process_makes (hw : Wf e)
    (h : Sourced S e) {observation : Option MeNormalizedObservation}
    (hg : (Call.process observation).Given S) : Makes S (meEventEngineProcess e observation) := by
  cases observation with
  | none => exact .nothing h _
  | some o =>
    rcases process_cases hw o with ⟨-, ret, hp⟩ | ⟨-, hv, e₁, ends, n, hp, hbefore⟩
    · rw [hp]
      exact .nothing h ret
    · have ho := observationValid_of_validate hv
      obtain ⟨h₁, hends⟩ : Sourced S e₁ ∧ ∀ x ∈ ends, Reported S x := by
        rcases hbefore with ⟨-, rfl, rfl⟩ | ⟨-, e', heq, -, -, he₁⟩
        · exact ⟨h, by simp⟩
        · have hend : Makes S (endAtLast e .streamReset) := endAtLast_makes h (by simp)
          rw [heq] at hend
          refine ⟨?_, hend.reported⟩
          rcases he₁ with rfl | rfl
          · exact hend.sourced.clearRuntime
          · exact hend.sourced.clearRuntime.congr rfl
      have hacc := processAccepted_makes (e := { e₁ with
          order := orderCommit o
          haveStream := true
          channelId := o.channelId.snprintf meAnalyticsChannelIdMax
          streamEpoch := o.streamEpoch
          lastObservation := o
          haveLastObservation := true })
        ⟨h₁.ruleType, h₁.version, fun _ => ⟨hg, ho⟩, h₁.slots, h₁.activeCount, h₁.latestCount,
          h₁.deltaIn, h₁.deltaOut, h₁.pendingIds, h₁.pendingReason, h₁.event⟩ ho hg (S.trackIds o hg)
      rw [hp]
      refine ⟨hacc.sourced, fun x hx => ?_⟩
      rcases List.mem_append.mp hx with hx | hx
      · exact hends x hx
      · exact hacc.reported x hx

theorem close_makes (h : Sourced S e) (reason : MeEventReason) :
    Makes S (meEventEngineClose e reason) := by
  unfold meEventEngineClose
  split
  · exact .nothing h _
  · next hvalid =>
    have hend : Makes S (endAtLast e reason) :=
      endAtLast_makes h (by rintro code rfl; exact hvalid rfl)
    split
    · next heq => rwa [heq] at hend
    · next heq =>
      rw [heq] at hend
      exact ⟨hend.sourced.clearRuntime, hend.reported⟩

/-- A check that passed: its condition is false and the checks after it passed. -/
theorem check_passed {c : Prop} [Decidable c] {message : Bytes} {rest : Except Bytes Unit}
    (h : (if c then .error message else rest) = .ok ()) : ¬ c ∧ rest = .ok () := by
  by_cases hc : c
  · rw [if_pos hc] at h
    cases h
  · rw [if_neg hc] at h
    exact ⟨hc, h⟩

theorem config_ruleType {config : MeAnalyticsConfig}
    (h : meAnalyticsConfigValidate config = .ok ()) : validRuleType config.ruleType = true := by
  unfold meAnalyticsConfigValidate at h
  obtain ⟨-, h⟩ := check_passed h
  obtain ⟨-, h⟩ := check_passed h
  obtain ⟨-, h⟩ := check_passed h
  obtain ⟨-, h⟩ := check_passed h
  obtain ⟨-, h⟩ := check_passed h
  obtain ⟨-, h⟩ := check_passed h
  obtain ⟨-, h⟩ := check_passed h
  obtain ⟨-, h⟩ := check_passed h
  obtain ⟨-, h⟩ := check_passed h
  obtain ⟨hrule, -⟩ := check_passed h
  by_contra hinvalid
  exact hrule (by simp [hinvalid])

/-- A validated configuration gives the journal room for something. -/
theorem config_limits {config : MeAnalyticsConfig}
    (h : meAnalyticsConfigValidate config = .ok ()) :
    ¬ (config.eventLogMaxRecords = 0 ∨ config.eventLogMaxBytes = 0) := by
  unfold meAnalyticsConfigValidate at h
  obtain ⟨-, h⟩ := check_passed h
  obtain ⟨-, h⟩ := check_passed h
  obtain ⟨-, h⟩ := check_passed h
  obtain ⟨-, h⟩ := check_passed h
  obtain ⟨-, h⟩ := check_passed h
  obtain ⟨-, h⟩ := check_passed h
  obtain ⟨-, h⟩ := check_passed h
  obtain ⟨-, h⟩ := check_passed h
  obtain ⟨-, h⟩ := check_passed h
  obtain ⟨-, h⟩ := check_passed h
  obtain ⟨-, h⟩ := check_passed h
  obtain ⟨hlimits, -⟩ := check_passed h
  rintro (h0 | h0)
  · exact hlimits (by simp [h0])
  · exact hlimits (by simp [h0])

theorem reconfigure_makes (h : Sourced S e) (config : Option MeAnalyticsConfig)
    {configVersion : Nat} (hg : (Call.reconfigure config configVersion).Given S) :
    Makes S (meEventEngineReconfigure e config configVersion) := by
  unfold meEventEngineReconfigure
  cases config with
  | none => exact .nothing h _
  | some config =>
    simp only
    split
    · exact .nothing h _
    next hconf =>
    split
    · exact .nothing h _
    next version hver =>
    have hend : Makes S
        (endAtLast e (if config.enabled then .reconfigured else .analyticsDisabled)) :=
      endAtLast_makes h (by intro code; split <;> simp)
    split
    · next heq => rwa [heq] at hend
    · next heq =>
      rw [heq] at hend
      have hclear := hend.sourced.clearRuntime
      exact ⟨⟨config_ruleType hconf, hg _ _ h.version hver, hclear.last,
        hclear.slots, hclear.activeCount, hclear.latestCount, hclear.deltaIn, hclear.deltaOut,
        hclear.pendingIds, hclear.pendingReason, hclear.event⟩, hend.reported⟩

theorem Call.apply_makes (hw : Wf e) (h : Sourced S e) {c : Call} (hg : c.Given S) : Makes S (c.apply e) := by
  cases c with
  | process observation => exact process_makes hw h hg
  | close reason => exact close_makes h reason
  | reconfigure config configVersion => exact reconfigure_makes h config hg

theorem runCalls_makes (hw : Wf e) (h : Sourced S e) {calls : List Call} (hg : ∀ c ∈ calls, c.Given S) :
    Sourced S (runCalls e calls).1 ∧ ∀ x ∈ records (runCalls e calls).2, Reported S x := by
  induction calls generalizing e with
  | nil => exact ⟨h, by simp [runCalls, records]⟩
  | cons c cs ih =>
    have hm := Call.apply_makes hw h (hg c List.mem_cons_self)
    obtain ⟨hs, hr⟩ := ih (Call.apply_good hw c).wf hm.sourced
      fun d hd => hg d (List.mem_cons_of_mem _ hd)
    refine ⟨hs, fun x hx => ?_⟩
    rcases List.mem_append.mp hx with hx | hx
    · exact hm.reported x hx
    · exact hr x hx

theorem sourced_init {config : Option MeAnalyticsConfig} {configVersion : Nat}
    (h : meEventEngineInit config configVersion = .ok e) (hver : S.version e.configVersion) :
    Sourced S e := by
  unfold meEventEngineInit at h
  split at h
  · cases h
  · next config =>
    split at h
    · cases h
    · next hconf =>
      cases h
      exact ⟨config_ruleType hconf, hver, fun hx => (nomatch hx), List.length_replicate,
        Nat.zero_le _, Nat.zero_le _, Nat.zero_le _, Nat.zero_le _,
        fun _ hx => absurd hx List.not_mem_nil, (fun _ hx => nomatch hx), fun hx => (nomatch hx)⟩

/-- **Where the records of a session come from.** -/
theorem session_reported {config : Option MeAnalyticsConfig} {configVersion : Nat}
    (h : meEventEngineInit config configVersion = .ok e) (hver : S.version e.configVersion)
    {calls : List Call} (hg : ∀ c ∈ calls, c.Given S) (deinit : Bool) :
    ∀ x ∈ records (session e calls deinit).2, Reported S x := by
  obtain ⟨hw, -⟩ := meEventEngineInit_wf h
  obtain ⟨hs, hr⟩ := runCalls_makes hw (sourced_init h hver) hg
  unfold session
  cases deinit with
  | false => exact hr
  | true =>
    intro x hx
    simp only [if_true, records, List.flatMap_append, List.flatMap_singleton, List.mem_append] at hx
    rcases hx with hx | hx
    · exact hr x hx
    · have hend : Makes S (endAtLast (runCalls e calls).1 .processRestart) :=
        endAtLast_makes hs (by simp)
      unfold meEventEngineDeinit at hx
      split at hx
      · next heq =>
        rw [heq] at hend
        exact hend.reported x hx
      · next heq =>
        rw [heq] at hend
        exact hend.reported x hx

end Calls

end FlowAlarm.Engine
