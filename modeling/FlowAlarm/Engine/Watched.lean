import FlowAlarm.Engine.History
import FlowAlarm.Trace.Watch

/-!
# The engine watches its condition

`watchState` maps an engine to a state of the watch of `Trace.Watch`, and a turn
to a sighting: one accepted observation is one step of it (`Ran.watch`). So the
turns of a run since the last cut are a history of the watch (`Watched`), and
its rules say when an event starts, changes and ends.
-/

namespace FlowAlarm.Engine

open FlowAlarm.Text FlowAlarm.Trace

/-! ## Engines and turns as states and sightings -/

def known (us : Int) (valid : Bool) : Option Int := if valid then some us else none

def MeTimeline.known (now : MeTimeline) : Option Int := Engine.known now.us now.valid

def watchRates (config : MeAnalyticsConfig) : Watch.Rates where
  confirmCount := config.confirmFrames
  confirm := config.confirmMs * 1000
  debounce := config.debounceMs * 1000
  rest := config.cooldownMs * 1000
  grace := config.disappearGraceMs * 1000
  interval := config.updateIntervalMs * 1000
  countLimit := uint32Max
  timeLimit := int64Max

def watchState (e : MeEventEngine) : Watch.State Nat where
  candidate :=
    if e.triggerPending then some (e.triggerFrames, known e.triggerSinceUs e.triggerSinceValid)
    else none
  restUntil := known e.cooldownUntilUs e.cooldownUntilValid
  live :=
    if e.active then some
      { absentSince := known e.absentSinceUs e.absentSinceValid
        lastTold := known e.lastEmitTimelineUs e.lastEmitTimelineValid
        content := e.activePersonCount
        pending := e.updatePending }
    else none

/-- What the records of one observation say. -/
def toldOf (emitted : List MeAnalyticsEvent) : Option Kind :=
  emitted.head?.bind fun r => phaseKind r.phase

namespace Turn

/-- Whether an open event whose last record has `count` has a change to tell. -/
def changes (t : Turn) (count : Nat) : Bool :=
  if t.config.ruleType == .occupancy then t.personCount != count else t.fresh != []

def sight (t : Turn) : Watch.Sight Nat where
  holds := t.condition
  time := t.time.known
  content := t.personCount
  differs := t.changes

def watch (t : Turn) : Watch.Turn Nat := ⟨t.sight, t.active, !t.failed, toldOf t.emitted⟩

end Turn

/-! ## The clock -/

theorem elapsedAtLeast_eq (now : MeTimeline) (us : Int) (valid : Bool) (d : Nat) :
    elapsedAtLeast now us valid d = Watch.elapsed (known us valid) now.known d := by
  obtain ⟨n, v⟩ := now
  cases v with
  | false => cases valid <;> rfl
  | true =>
    cases valid with
    | false => rfl
    | true =>
      have hsub : us ≤ n ∧ d ≤ (n - us).toNat ↔ us ≤ n ∧ (d : Int) ≤ n - us := by omega
      simp only [elapsedAtLeast, Watch.elapsed, known, MeTimeline.known, if_true, Bool.true_and,
        ← Bool.decide_and, hsub]

theorem scaleToUs_nonneg {value numerator denominator : Nat} {us : Int}
    (h : scaleToUs value numerator denominator = some us) : 0 ≤ us := by
  unfold scaleToUs at h
  split at h
  · cases h
  dsimp only at h
  split at h
  · cases h
  · cases h
    exact Int.natCast_nonneg _

theorem observationTimeline_nonneg (config : MeAnalyticsConfig) (o : MeNormalizedObservation) :
    0 ≤ (observationTimeline config o).us := by
  unfold observationTimeline
  split
  · next us hpts =>
    unfold ptsToUs at hpts
    split at hpts
    · cases hpts
    · exact scaleToUs_nonneg hpts
  split
  · next hclock =>
    simp only [Bool.and_eq_true, decide_eq_true_eq] at hclock
    exact hclock.2.le
  split
  · split
    · next us hframe => exact scaleToUs_nonneg hframe
    · exact le_rfl
  · exact le_rfl

section

variable {e : MeEventEngine} {o : MeNormalizedObservation}

theorem watchState_candidate (condition : Bool) (now : MeTimeline) (s : Watch.Sight Nat)
    (hs : s.holds = condition) (ht : s.time = now.known) :
    watchState (updateTriggerCandidate e condition now) = { watchState e with
      candidate := Watch.nextCandidate (watchRates e.config) (watchState e).candidate s } := by
  unfold updateTriggerCandidate Watch.nextCandidate
  rw [hs, ht]
  cases condition with
  | false => rfl
  | true =>
    cases hp : e.triggerPending with
    | false =>
      simp only [watchState, hp]
      rfl
    | true =>
      simp only [watchState, hp]
      rfl

theorem triggerQualified_eq (now : MeTimeline) :
    triggerQualified e now = Watch.ready (watchRates e.config) (watchState e).candidate
      (watchState e).restUntil now.known := by
  have hrested : cooldownElapsed e now =
      Watch.rested (known e.cooldownUntilUs e.cooldownUntilValid) now.known := by
    obtain ⟨n, v⟩ := now
    unfold cooldownElapsed known
    cases e.cooldownUntilValid <;> cases v <;> simp [Watch.rested, MeTimeline.known, known]
  have hnone : now.known.isNone = !now.valid := by
    obtain ⟨n, v⟩ := now
    cases v <;> rfl
  have hzero : (e.config.debounceMs * 1000 == 0) = ((watchRates e.config).debounce == 0) := rfl
  unfold triggerQualified
  cases hp : e.triggerPending with
  | false => simp [watchState, hp, Watch.ready]
  | true =>
    have hguard : ∀ a b c : Bool, (if (!a || !b) = true then false else c) = (a && b && c) := by
      decide
    simp only [watchState, hp, if_true, Watch.ready, elapsedAtLeast_eq, hrested, hnone,
      Bool.not_true, Bool.false_eq_true, if_false, hzero, Bool.decide_and, hguard]
    rfl

/-! ## What an accepted observation does -/

/-- The record `r` reports `count` at `o`. -/
structure Reports (r : MeAnalyticsEvent) (phase : MeEventPhase) (o : MeNormalizedObservation)
    (count : Nat) : Prop where
  phase : r.phase = phase
  frameId : r.frameId = o.frameId
  personCount : r.personCount = count

/-- The engine in which an absence is timed. -/
def absentFrom (e : MeEventEngine) (now : MeTimeline) : MeEventEngine :=
  if e.absentSinceValid then e else { e with absentSinceUs := now.us, absentSinceValid := now.valid }

/-- The engine behind `mark_update`. -/
def marked (e : MeEventEngine) (summary : MeRuleSummary) (personCount : Nat) : MeEventEngine :=
  let e := { e with absentSinceValid := false }
  if e.config.ruleType == .occupancy then
    if personCount != e.activePersonCount then markUpdate e personCount 0 0 [] .countChanged else e
  else if 0 < summary.newMatchCount then
    markUpdate e personCount summary.deltaIn summary.deltaOut summary.trackIds .direction
  else e

/-- Everything `process_accepted` can do behind the person count. -/
inductive Ran (e : MeEventEngine) (o : MeNormalizedObservation) (summary : MeRuleSummary)
    (personCount : Nat) (condition : Bool) (now : MeTimeline) : Outcome → Prop where
  | waits (ha : e.active = false)
      (hq : triggerQualified (updateTriggerCandidate e condition now) now = false) :
      Ran e o summary personCount condition now ⟨updateTriggerCandidate e condition now, [], .ok 0⟩
  | unstarted (ha : e.active = false)
      (hq : triggerQualified (updateTriggerCandidate e condition now) now = true)
      (event : MeAnalyticsEvent) (err : Bytes) :
      Ran e o summary personCount condition now
        ⟨{ updateTriggerCandidate e condition now with activeEvent := event }, [], .error err⟩
  | starts (ha : e.active = false)
      (hq : triggerQualified (updateTriggerCandidate e condition now) now = true)
      (event : MeAnalyticsEvent) (hevent : Reports event .start o personCount)
      (hseq : event.eventSeq = 1) (serial : Nat) (states : List MeEventRuleFactState)
      (hr : Remembers states summary.facts) :
      Ran e o summary personCount condition now
        ⟨{ clearTriggerCandidate { updateTriggerCandidate e condition now with
            nextEventSerial := serial
            activeEvent := event
            ruleFactStates := states
            active := true
            activePersonCount := personCount
            lastEmitTimelineUs := now.us
            lastEmitTimelineValid := now.valid } with absentSinceValid := false }, [event], .ok 1⟩
  | absent (ha : e.active = true) (hc : condition = false) (states : List MeEventRuleFactState)
      (hr : Remembers states summary.facts)
      (hg : Watch.gone (watchRates e.config)
        ((known e.absentSinceUs e.absentSinceValid).or now.known) now.known = false) :
      Ran e o summary personCount condition now
        ⟨{ absentFrom e now with ruleFactStates := states }, [], .ok 0⟩
  | unended (ha : e.active = true) (hc : condition = false) (states : List MeEventRuleFactState)
      (hr : Remembers states summary.facts) (hfull : e.activeEvent.eventSeq = uint64Max)
      (err : Bytes) :
      Ran e o summary personCount condition now
        ⟨{ absentFrom e now with ruleFactStates := states }, [], .error err⟩
  | ends (ha : e.active = true) (hc : condition = false)
      (hg : Watch.gone (watchRates e.config)
        ((known e.absentSinceUs e.absentSinceValid).or now.known) now.known = true)
      (e' : MeEventEngine) (event : MeAnalyticsEvent)
      (hevent : Reports event .end_ o personCount) (hreason : event.reason = .disappeared)
      (hidle : e'.active = false ∧ e'.updatePending = false ∧ e'.pendingTrackIds = [])
      (hstate : watchState e' =
        ⟨none, Watch.afterClosing (watchRates e.config) (watchState e).restUntil now.known, none⟩) :
      Ran e o summary personCount condition now ⟨e', [event], .ok 1⟩
  | quiet (ha : e.active = true) (hc : condition = true) (states : List MeEventRuleFactState)
      (hr : Remembers states summary.facts)
      (hq : ((marked e summary personCount).updatePending && !Watch.tooSoon (watchRates e.config)
        (known e.lastEmitTimelineUs e.lastEmitTimelineValid) now.known) = false) :
      Ran e o summary personCount condition now
        ⟨{ marked e summary personCount with ruleFactStates := states }, [], .ok 0⟩
  | untold (ha : e.active = true) (hc : condition = true) (states : List MeEventRuleFactState)
      (hr : Remembers states summary.facts) (hfull : e.activeEvent.eventSeq = uint64Max)
      (err : Bytes) :
      Ran e o summary personCount condition now
        ⟨{ marked e summary personCount with ruleFactStates := states }, [], .error err⟩
  | updates (ha : e.active = true) (hc : condition = true) (states : List MeEventRuleFactState)
      (hr : Remembers states summary.facts)
      (hpending : (marked e summary personCount).updatePending = true)
      (hsoon : Watch.tooSoon (watchRates e.config)
        (known e.lastEmitTimelineUs e.lastEmitTimelineValid) now.known = false)
      (event : MeAnalyticsEvent) (hevent : Reports event .update o personCount)
      (hseq : event.eventSeq = e.activeEvent.eventSeq + 1)
      (hreason : event.reason = (marked e summary personCount).pendingReason)
      (htracks : event.responsibleTrackIds = (marked e summary personCount).pendingTrackIds.take
        meAnalyticsEventMaxTracks) :
      Ran e o summary personCount condition now
        ⟨{ marked e summary personCount with
            ruleFactStates := states
            activeEvent := event
            activePersonCount := personCount
            lastEmitTimelineUs := now.us
            lastEmitTimelineValid := now.valid
            updatePending := false
            pendingPersonCount := 0
            pendingDeltaIn := 0
            pendingDeltaOut := 0
            pendingReason := .none }, [event], .ok 1⟩

variable {summary : MeRuleSummary} {personCount : Nat} {condition : Bool} {now : MeTimeline}

theorem emitStart_cases (e e₀ : MeEventEngine) (personCount : Nat) (now : MeTimeline)
    (ho : ObservationValid o) :
    (∃ event err, emitStart e o (matchingRules e₀ o) personCount now =
      ⟨{ e with activeEvent := event }, [], .error err⟩) ∨
    ∃ event serial states, emitStart e o (matchingRules e₀ o) personCount now =
        ⟨{ e with
            nextEventSerial := serial
            activeEvent := event
            ruleFactStates := states
            active := true
            activePersonCount := personCount
            lastEmitTimelineUs := now.us
            lastEmitTimelineValid := now.valid }, [event], .ok 1⟩ ∧
      Reports event .start o personCount ∧ event.eventSeq = 1 ∧
      Remembers states (matchingRules e₀ o).facts := by
  unfold emitStart
  cases hn : newEventId e o.channelId o.streamEpoch with
  | none => exact .inl ⟨_, _, rfl⟩
  | some ei =>
    obtain ⟨e', eventId⟩ := ei
    obtain ⟨rfl, hid⟩ := newEventId_eq hn
    simp only
    obtain ⟨states, hs⟩ := rememberRuleFacts_matching (e := e₀) (o := o)
      { e with
        nextEventSerial := e.nextEventSerial + 1
        activeEvent := startEvent { e with nextEventSerial := e.nextEventSerial + 1 } eventId o
          (matchingRules e₀ o) personCount } ho
    rw [hs]
    exact .inr ⟨_, _, states, rfl, ⟨rfl, rfl, rfl⟩, rfl, rememberRuleFacts_remembers hs⟩

theorem processIdle_ran (e₀ : MeEventEngine) (ho : ObservationValid o) (ha : e.active = false) :
    Ran e o (matchingRules e₀ o) personCount condition now
      (processIdle e o (matchingRules e₀ o) personCount condition now) := by
  unfold processIdle
  dsimp only
  split
  · next hq =>
    rcases emitStart_cases (updateTriggerCandidate e condition now) e₀ personCount now ho with
      ⟨event, err, heq⟩ | ⟨event, serial, states, heq, hevent, hseq, hr⟩
    · rw [heq]
      exact .unstarted ha hq event err
    · rw [heq]
      exact .starts ha hq event hevent hseq serial states hr
  · next hq => exact .waits ha (by simpa using hq)

theorem reports_endEvent (e : MeEventEngine) (event : MeAnalyticsEvent)
    (o : MeNormalizedObservation) (reason : MeEventReason) (personCount : Nat) :
    Reports (endEvent e event o reason personCount) .end_ o personCount ∧
      (endEvent e event o reason personCount).reason = reason := by
  unfold endEvent
  dsimp only
  split <;> exact ⟨⟨rfl, rfl, rfl⟩, rfl⟩

theorem watchState_ended (ha : e.active = false) :
    watchState (clearRuleFactStates (clearPending e)) =
      ⟨none, known e.cooldownUntilUs e.cooldownUntilValid, none⟩ := by
  show (⟨none, known e.cooldownUntilUs e.cooldownUntilValid,
    if e.active = true then _ else none⟩ : Watch.State Nat) = _
  rw [ha]
  rfl

theorem applyCooldown_known (hpos : 0 ≤ now.us) (hrest : 0 < e.config.cooldownMs)
    (hv : now.valid = true) : known (applyCooldown e now).cooldownUntilUs
      (applyCooldown e now).cooldownUntilValid =
      Watch.afterClosing (watchRates e.config) (watchState e).restUntil now.known := by
  have hknown : now.known = some now.us := by rw [MeTimeline.known, known, if_pos hv]
  have hadd : timeAddMs now.us e.config.cooldownMs =
      some (min (now.us + e.config.cooldownMs * 1000) int64Max) := if_neg (by omega)
  have hpos' : 0 < (watchRates e.config).rest := Nat.mul_pos hrest (by decide)
  unfold applyCooldown Watch.afterClosing
  rw [hadd, hknown]
  simp only [if_pos hpos', known, if_true, min_comm]
  rfl

theorem emitEnd_ended (personCount : Nat) (hpos : 0 ≤ now.us) (ha : e.active = true)
    (reason : MeEventReason) :
    (e.activeEvent.eventSeq = uint64Max ∧ ∃ err,
      emitEnd e o reason personCount now true = ⟨e, [], .error err⟩) ∨
    ∃ e' event, emitEnd e o reason personCount now true = ⟨e', [event], .ok 1⟩ ∧
      Reports event .end_ o personCount ∧ event.reason = reason ∧
      (e'.active = false ∧ e'.updatePending = false ∧ e'.pendingTrackIds = []) ∧
      watchState e' =
        ⟨none, Watch.afterClosing (watchRates e.config) (watchState e).restUntil now.known, none⟩ := by
  unfold emitEnd
  rw [if_neg (by rw [ha]; exact Bool.false_ne_true)]
  cases hi : incrementEventSeq e.activeEvent with
  | none =>
    refine .inl ⟨?_, _, rfl⟩
    unfold incrementEventSeq at hi
    split at hi
    · assumption
    · cases hi
  | some event =>
    right
    obtain ⟨hreports, hreason⟩ := reports_endEvent e event o reason personCount
    refine ⟨_, _, rfl, hreports, hreason, ⟨rfl, rfl, rfl⟩, ?_⟩
    rw [watchState_ended rfl]
    congr 1
    dsimp only
    split
    · next hcool =>
      simp only [Bool.and_eq_true, decide_eq_true_eq, Bool.true_and] at hcool
      exact applyCooldown_known (e := { e with activeEvent := endEvent e event o reason personCount })
        hpos hcool.2 hcool.1
    · next hcool =>
      simp only [Bool.and_eq_true, decide_eq_true_eq, Bool.true_and, not_and, Nat.not_lt] at hcool
      unfold Watch.afterClosing MeTimeline.known known
      cases hv : now.valid with
      | false => rfl
      | true =>
        have hzero : e.config.cooldownMs = 0 := by have := hcool hv; omega
        simp [watchRates, hzero, watchState, known]

theorem absentFrom_state (now : MeTimeline) (ha : e.active = true) :
    watchState (absentFrom e now) = { watchState e with
      live := some
        { absentSince := (known e.absentSinceUs e.absentSinceValid).or now.known
          lastTold := known e.lastEmitTimelineUs e.lastEmitTimelineValid
          content := e.activePersonCount
          pending := e.updatePending } } := by
  unfold absentFrom
  cases hv : e.absentSinceValid <;> simp [watchState, ha, hv, known, MeTimeline.known]

theorem absentFrom_same (e : MeEventEngine) (now : MeTimeline) : Same e (absentFrom e now) := by
  unfold absentFrom
  split <;> exact ⟨rfl, rfl, rfl, rfl⟩

theorem gone_eq (e : MeEventEngine) (now : MeTimeline) :
    ((e.config.disappearGraceMs * 1000 == 0) || elapsedAtLeast now (absentFrom e now).absentSinceUs
        (absentFrom e now).absentSinceValid (e.config.disappearGraceMs * 1000)) =
      Watch.gone (watchRates e.config) ((known e.absentSinceUs e.absentSinceValid).or now.known)
        now.known := by
  rw [elapsedAtLeast_eq, Watch.gone]
  unfold absentFrom
  cases hv : e.absentSinceValid <;> simp [watchRates, known, MeTimeline.known, hv]

theorem processAbsent_ran (hpos : 0 ≤ now.us) (ha : e.active = true) (hc : condition = false)
    {states : List MeEventRuleFactState} (hr : Remembers states summary.facts) :
    Ran e o summary personCount condition now
      (processAbsent { e with ruleFactStates := states } o personCount now) := by
  have hfrom : absentFrom { e with ruleFactStates := states } now =
      { absentFrom e now with ruleFactStates := states } := by
    unfold absentFrom
    dsimp only
    split <;> rfl
  have hgone := gone_eq { e with ruleFactStates := states } now
  show Ran e o summary personCount condition now
    (if (_ || elapsedAtLeast now (absentFrom _ now).absentSinceUs
      (absentFrom { e with ruleFactStates := states } now).absentSinceValid _) = true
    then emitEnd (absentFrom { e with ruleFactStates := states } now) o .disappeared personCount now
      true
    else ⟨absentFrom { e with ruleFactStates := states } now, [], .ok 0⟩)
  rw [hgone, hfrom]
  split
  · next hg =>
    have hs := absentFrom_same e now
    rcases emitEnd_ended (e := { absentFrom e now with ruleFactStates := states }) (o := o)
      personCount hpos (hs.active.trans ha) .disappeared with
      ⟨hfull, err, heq⟩ | ⟨e', event, heq, hevent, hreason, hidle, hstate⟩
    · rw [heq]
      exact .unended ha hc states hr ((congrArg (·.eventSeq) hs.event).symm.trans hfull) err
    · rw [heq]
      refine .ends ha hc hg e' event hevent hreason hidle ?_
      rw [hstate]
      have hconfig : (absentFrom e now).config = e.config := congrArg Prod.fst hs.fixed
      have hrest : (watchState { absentFrom e now with ruleFactStates := states }).restUntil =
          (watchState e).restUntil := congrArg (·.restUntil) (absentFrom_state now ha)
      rw [hrest]
      exact congrArg (fun c => (⟨none, Watch.afterClosing (watchRates c) _ _, none⟩ :
        Watch.State Nat)) hconfig
  · next hg => exact .absent ha hc states hr (by simpa using hg)

theorem maybeEmitUpdate_cases (personCount : Nat) (hs : e.updatePending = true)
    (hsoon : (e.lastEmitTimelineValid && now.valid && !elapsedAtLeast now e.lastEmitTimelineUs true
      (e.config.updateIntervalMs * 1000)) = false) :
    (e.activeEvent.eventSeq = uint64Max ∧ ∃ err,
      maybeEmitUpdate e o personCount now = ⟨e, [], .error err⟩) ∨
    ∃ event, maybeEmitUpdate e o personCount now =
        ⟨{ e with
            activeEvent := event
            activePersonCount := personCount
            lastEmitTimelineUs := now.us
            lastEmitTimelineValid := now.valid
            updatePending := false
            pendingPersonCount := 0
            pendingDeltaIn := 0
            pendingDeltaOut := 0
            pendingReason := .none }, [event], .ok 1⟩ ∧
      Reports event .update o personCount ∧ event.eventSeq = e.activeEvent.eventSeq + 1 ∧
      event.reason = e.pendingReason ∧
      event.responsibleTrackIds = e.pendingTrackIds.take meAnalyticsEventMaxTracks := by
  unfold maybeEmitUpdate
  rw [if_neg (by rw [hs]; exact Bool.false_ne_true), if_neg (by rw [hsoon]; exact Bool.false_ne_true)]
  cases hi : incrementEventSeq e.activeEvent with
  | none =>
    refine .inl ⟨?_, _, rfl⟩
    unfold incrementEventSeq at hi
    split at hi
    · assumption
    · cases hi
  | some event =>
    refine .inr ⟨_, rfl, ⟨rfl, rfl, rfl⟩, ?_, rfl, rfl⟩
    simp only [eventCopyResponsibleTracks, eventCopyObservationContext, incrementEventSeq_eq hi]

theorem tooSoon_eq (e : MeEventEngine) (now : MeTimeline) (us : Int) (valid : Bool) :
    (valid && now.valid && !elapsedAtLeast now us true (e.config.updateIntervalMs * 1000)) =
      Watch.tooSoon (watchRates e.config) (known us valid) now.known := by
  rw [elapsedAtLeast_eq]
  obtain ⟨n, v⟩ := now
  cases valid <;> cases v <;> rfl

theorem marked_same (e : MeEventEngine) (summary : MeRuleSummary) (personCount : Nat) :
    Same e (marked e summary personCount) := by
  unfold marked
  dsimp only
  split <;> split <;> exact ⟨rfl, rfl, rfl, rfl⟩

theorem marked_state (e : MeEventEngine) (summary : MeRuleSummary) (personCount : Nat) :
    (marked e summary personCount).lastEmitTimelineUs = e.lastEmitTimelineUs ∧
    (marked e summary personCount).lastEmitTimelineValid = e.lastEmitTimelineValid ∧
    (marked e summary personCount).absentSinceValid = false ∧
    (marked e summary personCount).activePersonCount = e.activePersonCount ∧
    (marked e summary personCount).triggerPending = e.triggerPending ∧
    (marked e summary personCount).triggerFrames = e.triggerFrames ∧
    (marked e summary personCount).triggerSinceUs = e.triggerSinceUs ∧
    (marked e summary personCount).triggerSinceValid = e.triggerSinceValid ∧
    (marked e summary personCount).cooldownUntilUs = e.cooldownUntilUs ∧
    (marked e summary personCount).cooldownUntilValid = e.cooldownUntilValid := by
  unfold marked
  dsimp only
  split <;> split <;> exact ⟨rfl, rfl, rfl, rfl, rfl, rfl, rfl, rfl, rfl, rfl⟩

theorem processPresent_ran (ha : e.active = true) (hc : condition = true)
    {states : List MeEventRuleFactState} (hr : Remembers states summary.facts) :
    Ran e o summary personCount condition now
      (processPresent { e with ruleFactStates := states } o summary personCount now) := by
  have hmark : marked { e with ruleFactStates := states } summary personCount =
      { marked e summary personCount with ruleFactStates := states } := by
    unfold marked
    dsimp only
    split <;> split <;> rfl
  have hs := marked_same e summary personCount
  have hconfig : (marked e summary personCount).config = e.config := congrArg Prod.fst hs.fixed
  obtain ⟨hus, hvalid, -⟩ := marked_state e summary personCount
  have hsoon := tooSoon_eq e now e.lastEmitTimelineUs e.lastEmitTimelineValid
  show Ran e o summary personCount condition now
    (maybeEmitUpdate (marked { e with ruleFactStates := states } summary personCount) o personCount
      now)
  rw [hmark]
  have hopen : ((marked e summary personCount).lastEmitTimelineValid && now.valid &&
      !elapsedAtLeast now (marked e summary personCount).lastEmitTimelineUs true
        ((marked e summary personCount).config.updateIntervalMs * 1000)) =
      Watch.tooSoon (watchRates e.config) (known e.lastEmitTimelineUs e.lastEmitTimelineValid)
        now.known := by rw [hus, hvalid, hconfig, hsoon]
  by_cases hpending : (marked e summary personCount).updatePending = true
  · cases hso : Watch.tooSoon (watchRates e.config)
      (known e.lastEmitTimelineUs e.lastEmitTimelineValid) now.known with
    | true =>
      have heq : maybeEmitUpdate { marked e summary personCount with ruleFactStates := states } o
          personCount now =
          ⟨{ marked e summary personCount with ruleFactStates := states }, [], .ok 0⟩ := by
        unfold maybeEmitUpdate
        rw [if_neg (by simp [hpending]), if_pos (hopen.trans hso)]
      rw [heq]
      exact .quiet ha hc states hr (by rw [hso]; simp)
    | false =>
      rcases maybeEmitUpdate_cases (o := o)
        (e := { marked e summary personCount with ruleFactStates := states }) personCount hpending
        (hopen.trans hso) with ⟨hfull, err, heq⟩ | ⟨event, heq, hevent, hseq, hreason, htracks⟩
      · rw [heq]
        exact .untold ha hc states hr ((congrArg (·.eventSeq) hs.event).symm.trans hfull) err
      · rw [heq]
        exact .updates ha hc states hr hpending hso event hevent
          (hseq.trans (congrArg (·.eventSeq + 1) hs.event)) hreason htracks
  · have hpending : (marked e summary personCount).updatePending = false := by simpa using hpending
    have heq : maybeEmitUpdate { marked e summary personCount with ruleFactStates := states } o
        personCount now =
        ⟨{ marked e summary personCount with ruleFactStates := states }, [], .ok 0⟩ := by
      unfold maybeEmitUpdate
      rw [if_pos (by simp [hpending])]
    rw [heq]
    exact .quiet ha hc states hr (by rw [hpending]; rfl)

/-- One accepted observation runs as `Ran` says, if occupancy has nothing to remember. -/
theorem processCounted_ran (ho : ObservationValid o) (hpos : 0 ≤ now.us)
    (hocc : e.active = true → e.config.ruleType = .occupancy → Remembers e.ruleFactStates []) :
    Ran e o (matchingRules e o) personCount (ruleCondition e (matchingRules e o) personCount) now
      (processCounted e o personCount now) := by
  unfold processCounted
  dsimp only
  cases ha : e.active with
  | false =>
    rw [if_pos (by rfl)]
    exact processIdle_ran e ho ha
  | true =>
    rw [if_neg (by simp)]
    obtain ⟨states, heq, hr⟩ : ∃ states, (if e.config.ruleType == .occupancy then (e, true)
        else rememberRuleFacts e (matchingRules e o).facts) =
          ({ e with ruleFactStates := states }, true) ∧
        Remembers states (matchingRules e o).facts := by
      split
      · next hrule =>
        have hnone : (matchingRules e o).facts = [] := by rw [matchingRules, if_pos hrule]
        exact ⟨e.ruleFactStates, rfl, hnone ▸ hocc ha (by simpa using hrule)⟩
      · obtain ⟨states, hst⟩ := rememberRuleFacts_matching (e := e) e ho
        exact ⟨states, hst, rememberRuleFacts_remembers hst⟩
    rw [heq]
    dsimp only
    split
    · next hc => exact processAbsent_ran hpos ha (by simpa using hc) hr
    · next hc => exact processPresent_ran ha (by simpa using hc) hr

/-! ## One step -/

theorem toldOf_one {r : MeAnalyticsEvent} {phase : MeEventPhase} (h : r.phase = phase) :
    toldOf [r] = phaseKind phase := by rw [← h]; rfl

theorem watchState_idle (ha : e.active = false) : (watchState e).live = none :=
  if_neg (by rw [ha]; exact Bool.false_ne_true)

theorem watchState_open (ha : e.active = true) : (watchState e).live = some
    { absentSince := known e.absentSinceUs e.absentSinceValid
      lastTold := known e.lastEmitTimelineUs e.lastEmitTimelineValid
      content := e.activePersonCount
      pending := e.updatePending } :=
  if_pos ha

theorem qualified_eq {i : Watch.Sight Nat} (hholds : i.holds = condition)
    (htime : i.time = now.known) :
    triggerQualified (updateTriggerCandidate e condition now) now =
      Watch.ready (watchRates e.config)
        (Watch.nextCandidate (watchRates e.config) (watchState e).candidate i)
        (watchState e).restUntil i.time := by
  have hs := updateTriggerCandidate_same (e := e) condition now
  have hconfig : (updateTriggerCandidate e condition now).config = e.config :=
    congrArg Prod.fst hs.fixed
  rw [triggerQualified_eq, watchState_candidate condition now i hholds htime, hconfig, htime]

/-- A sighting that says what the engine sees of an observation. -/
structure Sees (e : MeEventEngine) (summary : MeRuleSummary) (personCount : Nat) (condition : Bool)
    (now : MeTimeline) (i : Watch.Sight Nat) : Prop where
  holds : i.holds = condition
  time : i.time = now.known
  content : i.content = personCount
  idle : e.active = false → e.updatePending = false
  differs : e.active = true → condition = true →
    (marked e summary personCount).updatePending =
      (e.updatePending || i.differs e.activePersonCount)

theorem Ran.watch {r : Outcome} {i : Watch.Sight Nat}
    (hr : Ran e o summary personCount condition now r)
    (hi : Sees e summary personCount condition now i) :
    Watch.step (watchRates e.config) (!r.failed) (watchState e) i =
      (watchState r.engine, toldOf r.emitted) := by
  have hqual := qualified_eq (e := e) hi.holds hi.time
  have hcand := watchState_candidate (e := e) condition now i hi.holds hi.time
  have hmarked : e.active = true → watchState (marked e summary personCount) =
      { watchState e with
        live := some
          { absentSince := none
            lastTold := known e.lastEmitTimelineUs e.lastEmitTimelineValid
            content := e.activePersonCount
            pending := e.updatePending || i.differs e.activePersonCount } } ∨ condition = false := by
    intro ha
    cases hc : condition with
    | false => exact .inr rfl
    | true =>
      left
      obtain ⟨h1, h2, h3, h4, h5, h6, h7, h8, h9, h10⟩ :=
        marked_state e summary personCount
      have hact := (marked_same e summary personCount).active
      simp only [watchState, h1, h2, h3, h4, h5, h6, h7, h8, h9, h10, hact, ha, if_true,
        hi.differs ha hc]
      rfl
  refine Watch.Stepped.eq ?_
  cases hr with
  | waits ha hq =>
    rw [hcand]
    exact .wait (watchState_idle ha) (by rw [← hqual, hq]; rfl)
  | unstarted ha hq event err =>
    show Watch.Stepped _ _ _ _ (watchState (updateTriggerCandidate e condition now), none)
    rw [hcand]
    exact .wait (watchState_idle ha) (Bool.and_false _)
  | starts ha hq event hevent hseq serial states hrem =>
    have hpend : (updateTriggerCandidate e condition now).updatePending = false := by
      rw [← hi.idle ha]
      unfold updateTriggerCandidate
      split
      · rfl
      · split <;> rfl
    have hrest : (watchState (updateTriggerCandidate e condition now)).restUntil =
        (watchState e).restUntil := by rw [hcand]
    rw [toldOf_one hevent.phase]
    show Watch.Stepped _ _ _ _ ((⟨none, (watchState (updateTriggerCandidate e condition now)).restUntil,
      some ⟨none, now.known, personCount, (updateTriggerCandidate e condition now).updatePending⟩⟩ :
        Watch.State Nat), some .opening)
    rw [hrest, hpend, ← hi.time, ← hi.content]
    exact .opening (watchState_idle ha) (hqual.symm.trans hq) rfl
  | absent ha hc states hrem hg =>
    show Watch.Stepped _ _ _ _ (watchState (absentFrom e now), none)
    rw [absentFrom_state _ ha, ← hi.time]
    exact .absent _ (watchState_open ha) (hi.holds.trans hc) (by rw [hi.time, hg]; rfl)
  | unended ha hc states hrem hfull err =>
    show Watch.Stepped _ _ _ _ (watchState (absentFrom e now), none)
    rw [absentFrom_state _ ha, ← hi.time]
    exact .absent _ (watchState_open ha) (hi.holds.trans hc) (Bool.and_false _)
  | ends ha hc hg e' event hevent hreason hidle hstate =>
    rw [hstate, toldOf_one hevent.phase, ← hi.time]
    exact .closing _ (watchState_open ha) (hi.holds.trans hc) (by rw [hi.time, hg]) rfl
  | quiet ha hc states hrem hq =>
    show Watch.Stepped _ _ _ _ (watchState (marked e summary personCount), none)
    rcases hmarked ha with hm | hno
    · rw [hm]
      refine .quiet _ (watchState_open ha) (hi.holds.trans hc) ?_
      rw [hi.time, ← hi.differs ha hc, hq]
      rfl
    · rw [hc] at hno
      cases hno
  | untold ha hc states hrem hfull err =>
    show Watch.Stepped _ _ _ _ (watchState (marked e summary personCount), none)
    rcases hmarked ha with hm | hno
    · rw [hm]
      exact .quiet _ (watchState_open ha) (hi.holds.trans hc) (Bool.and_false _)
    · rw [hc] at hno
      cases hno
  | updates ha hc states hrem hpending hsoon event hevent hseq hreason htracks =>
    obtain ⟨-, -, hab, -, htp, htf, hts, htv, hcu, hcv⟩ :=
      marked_state e summary personCount
    have hact := (marked_same e summary personCount).active
    have hstate : watchState { marked e summary personCount with
        ruleFactStates := states
        activeEvent := event
        activePersonCount := personCount
        lastEmitTimelineUs := now.us
        lastEmitTimelineValid := now.valid
        updatePending := false
        pendingPersonCount := 0
        pendingDeltaIn := 0
        pendingDeltaOut := 0
        pendingReason := .none } =
        { watchState e with live := some ⟨none, i.time, i.content, false⟩ } := by
      rw [hi.time, hi.content]
      simp only [watchState, hab, htp, htf, hts, htv, hcu, hcv, hact, ha, if_true]
      rfl
    rw [hstate, toldOf_one hevent.phase]
    exact .ongoing _ (watchState_open ha) (hi.holds.trans hc)
      ((hi.differs ha hc).symm.trans hpending) (by rw [hi.time, hsoon]) rfl

/-! ## Summaries and fresh facts -/

theorem takeFact_counts (s : MeRuleSummary) (f : MeRuleFact) :
    (takeFact e s f).matchCount ≠ 0 ∧ (takeFact e s f).facts = s.facts ++ [f] ∧
      ((takeFact e s f).newMatchCount = 0 ↔
        s.newMatchCount = 0 ∧ ruleFactSeen e.ruleFactStates f = true) := by
  unfold takeFact
  dsimp only
  split
  · next hseen => exact ⟨succ_capped_ne _, rfl, by simp [hseen]⟩
  · next hseen =>
    obtain ⟨hfacts, -, -, hnew, hmatch⟩ := summaryNewMatch_fields
      { s with
        facts := s.facts ++ [f]
        first := s.first.or (some f)
        matchCount := min (s.matchCount + 1) uint32Max } f
    refine ⟨hmatch ▸ succ_capped_ne _, hfacts, ?_⟩
    simp only [hnew, hseen]
    exact ⟨fun h => absurd h (succ_capped_ne _), fun h => absurd h.2 Bool.false_ne_true⟩

theorem foldl_takeFact_counts (facts : List MeRuleFact) (s : MeRuleSummary) :
    ((facts.foldl (takeFact e) s).matchCount = 0 ↔ s.matchCount = 0 ∧ facts = []) ∧
      (facts.foldl (takeFact e) s).facts = s.facts ++ facts ∧
      ((facts.foldl (takeFact e) s).newMatchCount = 0 ↔
        s.newMatchCount = 0 ∧ ∀ f ∈ facts, ruleFactSeen e.ruleFactStates f = true) := by
  induction facts generalizing s with
  | nil => simp
  | cons f facts ih =>
    obtain ⟨hmatch, hfacts, hnew⟩ := takeFact_counts (e := e) s f
    obtain ⟨ihm, ihf, ihn⟩ := ih (takeFact e s f)
    refine ⟨?_, ?_, ?_⟩
    · rw [List.foldl_cons, ihm]
      exact ⟨fun h => absurd h.1 hmatch, fun h => nomatch h.2⟩
    · rw [List.foldl_cons, ihf, hfacts, List.append_assoc]
      rfl
    · rw [List.foldl_cons, ihn, hnew, List.forall_mem_cons, and_assoc]

/-- The last observation's facts are those the engine remembers. -/
def RemembersLast (e : MeEventEngine) (last : Option MeNormalizedObservation) : Prop :=
  ∃ l, last = some l ∧ Remembers e.ruleFactStates (matchingFacts e.config l)

theorem seen_eq {last : Option MeNormalizedObservation} (ho : ObservationValid o)
    (hr : RemembersLast e last) : ∀ f ∈ matchingFacts e.config o,
      ruleFactSeen e.ruleFactStates f = holdsFact (last.elim [] (matchingFacts e.config)) f := by
  obtain ⟨l, rfl, hrem⟩ := hr
  intro f hf
  unfold matchingFacts at hf
  split at hf
  · cases hf
  · exact hrem f (ho.rules f (List.mem_filter.mp hf).1).2

/-- The summary counts the matching facts, and the fresh ones among them. -/
theorem matchingRules_counts (hv : meObservationValidate o = .ok ()) :
    (matchingRules e o).facts = matchingFacts e.config o ∧
    ((matchingRules e o).matchCount = 0 ↔ matchingFacts e.config o = []) ∧
    ∀ last, RemembersLast e last →
      ((matchingRules e o).newMatchCount = 0 ↔ freshFacts e.config last o = []) := by
  obtain ⟨hmatch, hfacts, hnew⟩ := foldl_takeFact_counts (e := e) (matchingFacts e.config o) {}
  rw [matchingRules_eq hv]
  refine ⟨hfacts, hmatch.trans (and_iff_right rfl), fun last hr => ?_⟩
  rw [hnew, freshFacts, List.filter_eq_nil_iff]
  refine (and_iff_right rfl).trans (forall₂_congr fun f hf => ?_)
  rw [seen_eq (observationValid_of_validate hv) hr f hf]
  simp

/-! ## Turns -/

/-- The engine behind the person count. -/
def counted (e : MeEventEngine) (o : MeNormalizedObservation) : MeEventEngine :=
  { (updateTracks e o (observationTimeline e.config o)).1 with
    latestPersonCount := (updateTracks e o (observationTimeline e.config o)).2
    latestPersonCountValid := true }

theorem processAccepted_counted (hen : e.config.enabled = true) :
    processAccepted e o = processCounted (counted e o) o
      (updateTracks e o (observationTimeline e.config o)).2 (observationTimeline e.config o) := by
  rw [processAccepted, if_neg (by simp [hen])]
  rfl

theorem pos_iff_ne_nil {n : Nat} {facts : List MeRuleFact} (h : n = 0 ↔ facts = []) :
    decide (0 < n) = (facts != []) := by
  rw [Bool.eq_iff_iff, decide_eq_true_eq, bne_iff_ne, Ne, ← h]
  omega

theorem marked_pending : (marked e summary personCount).updatePending =
    (e.updatePending || if e.config.ruleType == .occupancy
      then personCount != e.activePersonCount else decide (0 < summary.newMatchCount)) := by
  unfold marked
  dsimp only
  split
  · split
    · next hcount => rw [hcount, Bool.or_true]; rfl
    · next hcount => rw [Bool.eq_false_iff.mpr hcount, Bool.or_false]
  · split
    · next hpos => rw [decide_eq_true hpos, Bool.or_true]; rfl
    · next hpos => rw [decide_eq_false hpos, Bool.or_false]

/-- The turn is what the engine sees of its observation. -/
theorem sees_turn {h : List Mark} (hv : meObservationValidate o = .ok ())
    (hen : e.config.enabled = true) (hidle : e.active = false → e.updatePending = false)
    (hlast : e.active = true → RemembersLast e ((turns h).head?.map (·.observation))) :
    let t := turnOf h e o
    Sees (counted e o) (matchingRules (counted e o) o) t.personCount
      (ruleCondition (counted e o) (matchingRules (counted e o) o) t.personCount) t.time t.sight := by
  intro t
  obtain ⟨-, hmatch, hnew⟩ := matchingRules_counts (e := counted e o) hv
  have hcond : t.condition =
      ruleCondition (counted e o) (matchingRules (counted e o) o) t.personCount := by
    show (e.config.enabled && _) = _
    rw [hen, Bool.true_and, ruleCondition, pos_iff_ne_nil hmatch]
    rfl
  refine ⟨hcond, rfl, rfl, hidle, fun ha hc => ?_⟩
  have hfresh := pos_iff_ne_nil (hnew _ (hlast ha))
  show (marked (counted e o) (matchingRules (counted e o) o) t.personCount).updatePending =
    (e.updatePending || if (e.config.ruleType == .occupancy) = true
      then t.personCount != e.activePersonCount else t.fresh != [])
  have hshow : t.fresh = freshFacts (counted e o).config ((turns h).head?.map (·.observation)) o :=
    rfl
  rw [hshow, ← hfresh]
  exact marked_pending

theorem updateTriggerCandidate_pending (condition : Bool) (now : MeTimeline) :
    (updateTriggerCandidate e condition now).updatePending = e.updatePending ∧
      (updateTriggerCandidate e condition now).pendingTrackIds = e.pendingTrackIds := by
  unfold updateTriggerCandidate
  split
  · exact ⟨rfl, rfl⟩
  · split <;> exact ⟨rfl, rfl⟩

/-- The record of an accepted observation. -/
structure Record (o : MeNormalizedObservation) (personCount : Nat) (r : MeAnalyticsEvent) : Prop where
  frameId : r.frameId = o.frameId
  personCount : r.personCount = personCount
  phase : r.phase = .start ∨ r.phase = .update ∨ r.phase = .end_ ∧ r.reason = .disappeared

theorem Ran.records {r : Outcome} (hr : Ran e o summary personCount condition now r) :
    r.emitted = [] ∨ ∃ event, r.emitted = [event] ∧ Record o personCount event := by
  cases hr with
  | waits | unstarted | absent | unended | quiet | untold => exact .inl rfl
  | starts ha hq event hevent =>
    exact .inr ⟨event, rfl, hevent.frameId, hevent.personCount, .inl hevent.phase⟩
  | ends ha hc hg e' event hevent hreason =>
    exact .inr ⟨event, rfl, hevent.frameId, hevent.personCount, .inr (.inr ⟨hevent.phase, hreason⟩)⟩
  | updates ha hc states hrem hpending hsoon event hevent =>
    exact .inr ⟨event, rfl, hevent.frameId, hevent.personCount, .inr (.inl hevent.phase)⟩

theorem Ran.idle {r : Outcome} (hr : Ran e o summary personCount condition now r)
    (hidle : e.active = false → e.updatePending = false) (ha : r.engine.active = false) :
    r.engine.updatePending = false := by
  have hsame := updateTriggerCandidate_same (e := e) condition now
  have hpend := updateTriggerCandidate_pending (e := e) condition now
  have hmark := marked_same e summary personCount
  cases hr with
  | waits hact => exact hpend.1.trans (hidle hact)
  | unstarted hact => exact hpend.1.trans (hidle hact)
  | starts => cases ha
  | absent hact => exact absurd ((absentFrom_same _ now).active.symm.trans ha) (by simp [hact])
  | unended hact => exact absurd ((absentFrom_same _ now).active.symm.trans ha) (by simp [hact])
  | ends hact hc hg e' event hevent hreason hidle' => exact hidle'.2.1
  | quiet hact => exact absurd (hmark.active.symm.trans ha) (by simp [hact])
  | untold hact => exact absurd (hmark.active.symm.trans ha) (by simp [hact])
  | updates => rfl

theorem Ran.remembers {r : Outcome} (hr : Ran e o summary personCount condition now r)
    (ha : r.engine.active = true) : Remembers r.engine.ruleFactStates summary.facts := by
  have hsame := updateTriggerCandidate_same (e := e) condition now
  cases hr with
  | waits hact => exact absurd (hsame.active.symm.trans ha) (by simp [hact])
  | unstarted hact => exact absurd (hsame.active.symm.trans ha) (by simp [hact])
  | starts hact hq event hevent hseq serial states hrem => exact hrem
  | absent hact hc states hrem => exact hrem
  | unended hact hc states hrem => exact hrem
  | ends hact hc hg e' event hevent hreason hidle => exact absurd ha (by simp [hidle.1])
  | quiet hact hc states hrem => exact hrem
  | untold hact hc states hrem => exact hrem
  | updates hact hc states hrem => exact hrem

/-- The sequence of an open event stays at or below the frame it stands at. -/
theorem Ran.seq {r : Outcome} (hr : Ran e o summary personCount condition now r) {last : Nat}
    (hlast : e.active = true → e.activeEvent.eventSeq ≤ last ∧ last < o.frameId)
    (hpos : 0 < o.frameId) (ha : r.engine.active = true) :
    r.engine.activeEvent.eventSeq ≤ o.frameId := by
  have hsame := updateTriggerCandidate_same (e := e) condition now
  have hfrom := absentFrom_same e now
  have hmark := marked_same e summary personCount
  cases hr with
  | waits hact => exact absurd (hsame.active.symm.trans ha) (by simp [hact])
  | unstarted hact => exact absurd (hsame.active.symm.trans ha) (by simp [hact])
  | starts hact hq event hevent hseq => exact hseq.le.trans hpos
  | absent hact =>
    exact (congrArg (·.eventSeq) hfrom.event).le.trans ((hlast hact).1.trans (hlast hact).2.le)
  | unended hact =>
    exact (congrArg (·.eventSeq) hfrom.event).le.trans ((hlast hact).1.trans (hlast hact).2.le)
  | ends hact hc hg e' event hevent hreason hidle => exact absurd ha (by simp [hidle.1])
  | quiet hact =>
    exact (congrArg (·.eventSeq) hmark.event).le.trans ((hlast hact).1.trans (hlast hact).2.le)
  | untold hact =>
    exact (congrArg (·.eventSeq) hmark.event).le.trans ((hlast hact).1.trans (hlast hact).2.le)
  | updates hact hc states hrem hpending hsoon event hevent hseq =>
    show event.eventSeq ≤ o.frameId
    have := hlast hact
    omega

/-- An open event can be told of as long as frames are numbered in 64 bits. -/
theorem Ran.unfailed {r : Outcome} (hr : Ran e o summary personCount condition now r) {last : Nat}
    (ha : e.active = true) (hlast : e.activeEvent.eventSeq ≤ last) (hframe : last < o.frameId)
    (hmax : o.frameId ≤ uint64Max) : r.failed = false := by
  cases hr with
  | waits hact | unstarted hact | starts hact =>
    rw [hact] at ha
    cases ha
  | absent | ends | quiet | updates => rfl
  | unended hact hc states hrem hfull => omega
  | untold hact hc states hrem hfull => omega

end

/-! ## Runs -/

/-- The turns since the last cut are a history of the watch that leads to the engine. -/
structure Watched (h : List Mark) (e : MeEventEngine) : Prop where
  told : Watch.Told (watchRates e.config) ((turns h).map Turn.watch) (watchState e)
  config : ∀ u ∈ turns h, u.config = e.config
  idle : e.active = false → e.updatePending = false
  enabled : e.active = true → e.config.enabled = true
  remembers : e.active = true → RemembersLast e ((turns h).head?.map (·.observation))
  seq : e.active = true → e.activeEvent.eventSeq ≤ e.order.frameId

/-- The turn `t` behind the history `h` is a turn of the watch. -/
structure Watching (h : List Mark) (t : Turn) : Prop where
  told : ∃ s, Watch.Told (watchRates t.config) ((t :: turns h).map Turn.watch) s
  config : ∀ u ∈ turns h, u.config = t.config
  unfailed : t.active = true → t.observation.frameId ≤ uint64Max → t.failed = false
  records : t.emitted = [] ∨ ∃ r, t.emitted = [r] ∧ Record t.observation t.personCount r

section

variable {e : MeEventEngine} {o : MeNormalizedObservation} {h : List Mark}

theorem watched_cleared (hc : Cleared e) (hnil : turns h = []) : Watched h e := by
  have hinactive : ∀ {p : Prop}, e.active = true → p := fun ha => by
    rw [hc.active] at ha
    cases ha
  refine ⟨?_, ?_, fun _ => hc.update, hinactive, hinactive, hinactive⟩
  · have hstate : watchState e = .start := by
      simp [watchState, hc.active, hc.trigger, hc.cooldown, known, Watch.State.start]
    rw [hnil, hstate]
    exact .start
  · rw [hnil]
    exact fun u hu => nomatch hu

theorem processAccepted_disabled (hen : e.config.enabled = false) :
    processAccepted e o = ⟨clearPending (clearTracks
      { e with latestPersonCount := 0, latestPersonCountValid := true }), [], .ok 0⟩ :=
  if_pos (by rw [hen]; rfl)

theorem Watched.inactive (hw : Watched h e) (hen : e.config.enabled = false) : e.active = false := by
  rw [Bool.eq_false_iff]
  intro ha
  rw [hw.enabled ha] at hen
  cases hen

/-- With analytics enabled the turn runs as `Ran` says. -/
theorem Watched.ran (hw : Watched h e) (hv : meObservationValidate o = .ok ())
    (hen : e.config.enabled = true) :
    let t := turnOf h (standing e o) o
    let e₁ := counted (standing e o) o
    Ran e₁ o (matchingRules e₁ o) t.personCount
      (ruleCondition e₁ (matchingRules e₁ o) t.personCount) t.time
      (processAccepted (standing e o) o) := by
  have hocc : e.active = true → e.config.ruleType = .occupancy →
      Remembers e.ruleFactStates [] := fun ha hrule => by
    obtain ⟨l, -, hrem⟩ := hw.remembers ha
    rwa [matchingFacts, if_pos (by rw [hrule]; rfl)] at hrem
  have hcount : (turnOf h (standing e o) o).personCount =
      (updateTracks (standing e o) o (observationTimeline e.config o)).2 := if_pos hen
  intro t e₁
  rw [processAccepted_counted (e := standing e o) hen, hcount]
  exact processCounted_ran (observationValid_of_validate hv) (observationTimeline_nonneg e.config o)
    hocc

/-- What the watch makes of the turn. -/
theorem Watched.step (hw : Watched h e) (hv : meObservationValidate o = .ok ()) :
    Watch.step (watchRates e.config) (!(processAccepted (standing e o) o).failed) (watchState e)
        (turnOf h (standing e o) o).sight =
      (watchState (processAccepted (standing e o) o).engine,
        toldOf (processAccepted (standing e o) o).emitted) := by
  cases hen : e.config.enabled with
  | false =>
    have ha := hw.inactive hen
    have hcond : (turnOf h (standing e o) o).condition = false := by
      show (e.config.enabled && _) = false
      rw [hen]
      rfl
    rw [processAccepted_disabled (e := standing e o) hen]
    refine Watch.Stepped.eq ?_
    have hcand : Watch.nextCandidate (watchRates e.config) (watchState e).candidate
        (turnOf h (standing e o) o).sight = none := by
      unfold Watch.nextCandidate
      exact if_neg (by show ¬(turnOf h (standing e o) o).condition = true; rw [hcond]; simp)
    have hstate : watchState (clearPending (clearTracks { standing e o with
        latestPersonCount := 0, latestPersonCountValid := true })) = { watchState e with
          candidate := Watch.nextCandidate (watchRates e.config) (watchState e).candidate
            (turnOf h (standing e o) o).sight } := by
      rw [hcand]
      show (⟨none, _, if e.active = true then _ else none⟩ : Watch.State Nat) = ⟨none, _, _⟩
      rw [if_neg (by rw [ha]; simp), watchState_idle ha]
      rfl
    rw [hstate]
    exact .wait (watchState_idle ha) (by rw [hcand]; rfl)
  | true =>
    exact (hw.ran hv hen).watch
      (sees_turn (e := standing e o) (h := h) hv hen hw.idle hw.remembers)

/-- The step lemma: a turn continues the history of the watch. -/
theorem Watched.turn (hw : Watched h e) (hv : meObservationValidate o = .ok ())
    (hahead : e.active = true → e.order.frameId < o.frameId) :
    Watching h (turnOf h (standing e o) o) ∧
      Watched (.turn (turnOf h (standing e o) o) :: h) (processAccepted (standing e o) o).engine := by
  have hfixed : fixedPart (processAccepted (standing e o) o).engine = fixedPart (standing e o) :=
    processAccepted_fixed
  have hconfig : (processAccepted (standing e o) o).engine.config = e.config :=
    congrArg Prod.fst hfixed
  have horder : (processAccepted (standing e o) o).engine.order = orderCommit o :=
    congrArg (·.2.2.1) hfixed
  have htold : Watch.Told (watchRates e.config)
      ((turnOf h (standing e o) o :: turns h).map Turn.watch)
      (watchState (processAccepted (standing e o) o).engine) := by
    have hnext := Watch.Told.turn hw.told (!(processAccepted (standing e o) o).failed)
      (turnOf h (standing e o) o).sight
    rw [Watch.turn, hw.step hv] at hnext
    have hlive : (watchState e).live.isSome = e.active := by
      unfold watchState
      cases e.active <;> rfl
    rw [hlive] at hnext
    exact hnext
  have hpos := (observationValid_of_validate hv).frame_pos
  have hseq : (counted (standing e o) o).active = true →
      (counted (standing e o) o).activeEvent.eventSeq ≤ e.order.frameId ∧
        e.order.frameId < o.frameId := fun ha => ⟨hw.seq ha, hahead ha⟩
  refine ⟨⟨⟨_, htold⟩, hw.config, fun ha hmax => ?_, ?_⟩, ⟨?_, ?_, ?_, ?_, ?_, ?_⟩⟩
  · exact (hw.ran hv (hw.enabled ha)).unfailed ha (hseq ha).1 (hseq ha).2 hmax
  · cases hen : e.config.enabled with
    | true => exact (hw.ran hv hen).records
    | false =>
      exact .inl (congrArg Outcome.emitted (processAccepted_disabled (e := standing e o) hen))
  · rw [hconfig]
    exact htold
  · rw [hconfig]
    exact fun u hu => (List.mem_cons.mp hu).elim (fun hu => hu ▸ rfl) (hw.config u)
  · intro ha
    cases hen : e.config.enabled with
    | true => exact (hw.ran hv hen).idle hw.idle ha
    | false => rw [processAccepted_disabled (e := standing e o) hen]; rfl
  · intro ha
    rw [hconfig]
    cases hen : e.config.enabled with
    | true => rfl
    | false =>
      rw [processAccepted_disabled (e := standing e o) hen] at ha
      exact absurd (hw.inactive hen) (by rw [show e.active = true from ha]; simp)
  · intro ha
    cases hen : e.config.enabled with
    | true =>
      refine ⟨o, rfl, ?_⟩
      have hrem := (hw.ran hv hen).remembers ha
      rw [(matchingRules_counts hv).1] at hrem
      rw [hconfig]
      exact hrem
    | false =>
      rw [processAccepted_disabled (e := standing e o) hen] at ha
      exact absurd (hw.inactive hen) (by rw [show e.active = true from ha]; simp)
  · intro ha
    rw [horder]
    cases hen : e.config.enabled with
    | true => exact (hw.ran hv hen).seq hseq hpos ha
    | false =>
      rw [processAccepted_disabled (e := standing e o) hen] at ha
      exact absurd (hw.inactive hen) (by rw [show e.active = true from ha]; simp)

theorem watching : Keeping Watched Watching :=
  ⟨fun _ _ _ hc => watched_cleared hc rfl, fun _ _ _ hi hv hahead => hi.turn hv hahead⟩

/-- **Every turn of a run is a turn of the watch.** -/
theorem watching_of_past {config : Option MeAnalyticsConfig} {configVersion : Nat}
    (hinit : meEventEngineInit config configVersion = .ok e) {calls : List Call} {t : Turn}
    (hs : .turn t :: h <:+ past [] e calls) : Watching h t :=
  turn_of_past watching (fun _ hc => watched_cleared hc rfl) hinit hs

end

end FlowAlarm.Engine
