import FlowAlarm.Engine.EventEngine
import FlowAlarm.Trace.Lifecycle

/-!
# The engine refines the lifecycle automaton

`life` maps an engine to a state of the lifecycle automaton: the serial it has
reached and the event it holds open. Every call emits a run of the automaton
between the mapped states (`Sim`), and returns the number of records it
emitted. `Wf` is the invariant that carries this: an open event belongs to the
channel and epoch of the latest observation, and the observation order stands
in that epoch.
-/

namespace FlowAlarm.Engine

open FlowAlarm.Text FlowAlarm.Trace

/-- What every record of one event shares. -/
structure EventIdentity where
  eventId : CStr
  eventType : MeRuleType
  ruleId : CStr
  configVersion : Nat
  channelId : CStr
  streamEpoch : Nat
  deriving DecidableEq

def identityOf (r : MeAnalyticsEvent) : EventIdentity where
  eventId := r.eventId
  eventType := r.eventType
  ruleId := r.ruleId
  configVersion := r.configVersion
  channelId := r.channelId
  streamEpoch := r.streamEpoch

def phaseKind : MeEventPhase → Option Kind
  | .start => some .opening
  | .update => some .ongoing
  | .end_ => some .closing
  | .other _ => none

/-- Event records as lifecycle records; the `n`-th event of an engine carries serial `n`. -/
def eventReading : Reading MeAnalyticsEvent EventIdentity where
  kind r := phaseKind r.phase
  seq r := r.eventSeq
  ident := identityOf
  named i n := i.eventId.bytes = eventIdText i.channelId i.streamEpoch n

def life (e : MeEventEngine) : St EventIdentity where
  count := e.nextEventSerial
  live := if e.active then some (identityOf e.activeEvent, e.activeEvent.eventSeq) else none

/-- A call emits a run of the automaton and counts what it emits. -/
structure Sim (e : MeEventEngine) (r : Outcome) : Prop where
  run : Run eventReading (life e) r.emitted (life r.engine)
  count : ∀ n, r.ret = .ok n → n = r.emitted.length

/-- What the runtime functions leave alone. -/
def fixedPart (e : MeEventEngine) :
    MeAnalyticsConfig × Nat × MeObservationOrder × Bool × CStr × Nat × MeNormalizedObservation ×
      Bool :=
  (e.config, e.configVersion, e.order, e.haveStream, e.channelId, e.streamEpoch,
    e.lastObservation, e.haveLastObservation)

/-- The open event belongs to the observation `o`'s channel and epoch. -/
structure Belongs (e : MeEventEngine) (o : MeNormalizedObservation) : Prop where
  channel : e.activeEvent.channelId = o.channelId
  epoch : e.activeEvent.streamEpoch = o.streamEpoch

/-! ## Runtime functions -/

section Runtime

variable {e : MeEventEngine} {o : MeNormalizedObservation}

@[simp] theorem life_clearPending : life (clearPending e) = life e := rfl
@[simp] theorem life_clearTracks : life (clearTracks e) = life e := rfl
@[simp] theorem life_clearRuleFactStates : life (clearRuleFactStates e) = life e := rfl
@[simp] theorem life_clearTriggerCandidate : life (clearTriggerCandidate e) = life e := rfl

theorem life_clearRuntime : life (clearRuntime e) = ⟨e.nextEventSerial, none⟩ := rfl

@[simp] theorem clearRuntime_active : (clearRuntime e).active = false := rfl

theorem life_inactive (h : e.active = false) : life e = ⟨e.nextEventSerial, none⟩ := by
  simp [life, h]

theorem life_active (h : e.active = true) :
    life e = ⟨e.nextEventSerial, some (identityOf e.activeEvent, e.activeEvent.eventSeq)⟩ := by
  simp [life, h]

@[simp] theorem fixedPart_clearRuntime : fixedPart (clearRuntime e) = fixedPart e := rfl
@[simp] theorem fixedPart_clearPending : fixedPart (clearPending e) = fixedPart e := rfl

theorem Sim.quiet {e e' : MeEventEngine} (h : life e' = life e) : Sim e ⟨e', [], .ok 0⟩ :=
  ⟨h ▸ .nil _, by simp⟩

theorem Sim.failed {e e' : MeEventEngine} (err : Bytes) (h : life e' = life e) :
    Sim e ⟨e', [], .error err⟩ :=
  ⟨h ▸ .nil _, by simp⟩

theorem Sim.of_life {e e' : MeEventEngine} {r : Outcome} (h : Sim e r) (he : life e = life e') :
    Sim e' r :=
  ⟨he ▸ h.run, h.count⟩

theorem incrementEventSeq_eq {event event' : MeAnalyticsEvent}
    (h : incrementEventSeq event = some event') :
    event' = { event with eventSeq := event.eventSeq + 1 } := by
  unfold incrementEventSeq at h
  split at h
  · cases h
  · cases h; rfl

theorem snprintf_channel (ho : ObservationValid o) :
    o.channelId.snprintf meAnalyticsChannelIdMax = o.channelId := by
  have := ho.channel
  simp only [CStr.bounded, Bool.and_eq_true, decide_eq_true_eq] at this
  exact CStr.snprintf_eq this.1

/-! ### Rule facts -/

/-- The number of slots in use. -/
def slotsUsed (states : List MeEventRuleFactState) : Nat := states.countP (·.inUse)

theorem slotsUsed_modify (states : List MeEventRuleFactState) (d : MeRuleDirection) (i : Nat) :
    slotsUsed (states.modify i (setDirection d)) = slotsUsed states := by
  induction states generalizing i with
  | nil => cases i <;> rfl
  | cons s states ih =>
    cases i with
    | zero => simp [slotsUsed, List.countP_cons, setDirection]
    | succ i =>
      simp only [slotsUsed, List.modify_succ_cons, List.countP_cons] at ih ⊢
      rw [ih]

theorem slotsUsed_set {states : List MeEventRuleFactState} {i : Nat} {s : MeEventRuleFactState} :
    slotsUsed (states.set i s) ≤ slotsUsed states + 1 := by
  induction states generalizing i with
  | nil => simp [slotsUsed]
  | cons t states ih =>
    cases i with
    | zero =>
      simp only [slotsUsed, List.set_cons_zero, List.countP_cons]
      split <;> split <;> omega
    | succ i =>
      have := ih (i := i)
      simp only [slotsUsed, List.set_cons_succ, List.countP_cons] at this ⊢
      omega

/-- A free slot takes any fact of a valid direction. -/
theorem rememberRuleFact_some (states : List MeEventRuleFactState) {fact : MeRuleFact}
    (hd : validDirection fact.direction = true) (hfree : slotsUsed states < states.length) :
    ∃ states', rememberRuleFact states fact = some states' ∧
      states'.length = states.length ∧ slotsUsed states' ≤ slotsUsed states + 1 := by
  unfold rememberRuleFact
  simp only [hd, Bool.not_true, Bool.false_eq_true, if_false]
  cases findRuleFactState states fact.trackId with
  | some slot =>
    exact ⟨_, rfl, by simp, by rw [slotsUsed_modify]; omega⟩
  | none =>
    simp only [allocateRuleFactState]
    cases hi : states.findIdx? fun s => !s.inUse with
    | none =>
      rw [List.findIdx?_eq_none_iff] at hi
      have : slotsUsed states = states.length :=
        List.countP_eq_length.mpr fun s hs => by simpa using hi s hs
      omega
    | some slot =>
      exact ⟨_, rfl, by simp, by rw [slotsUsed_modify]; exact slotsUsed_set⟩

theorem rememberRuleFacts_go {e : MeEventEngine} {facts : List MeRuleFact}
    (hd : ∀ f ∈ facts, validDirection f.direction = true)
    (hfree : slotsUsed e.ruleFactStates + facts.length ≤ e.ruleFactStates.length) :
    ∃ states, rememberRuleFacts.go e facts = ({ e with ruleFactStates := states }, true) := by
  induction facts generalizing e with
  | nil => exact ⟨e.ruleFactStates, rfl⟩
  | cons f facts ih =>
    simp only [List.length_cons] at hfree
    obtain ⟨states, hs, hlen, hused⟩ :=
      rememberRuleFact_some e.ruleFactStates (hd f List.mem_cons_self) (by omega)
    obtain ⟨states', hs'⟩ := ih (e := { e with ruleFactStates := states })
      (fun g hg => hd g (List.mem_cons_of_mem _ hg)) (by simp only; omega)
    exact ⟨states', by simp only [rememberRuleFacts.go, hs, hs']⟩

/-- The facts of one observation always fit. -/
theorem rememberRuleFacts_ok {e : MeEventEngine} {facts : List MeRuleFact}
    (hd : ∀ f ∈ facts, validDirection f.direction = true)
    (hlen : facts.length ≤ meAnalyticsMaxRuleFacts) :
    ∃ states, rememberRuleFacts e facts = ({ e with ruleFactStates := states }, true) := by
  have hused : slotsUsed (clearRuleFactStates e).ruleFactStates = 0 := by
    simp [slotsUsed, clearRuleFactStates, List.countP_replicate]
  obtain ⟨states, hs⟩ := rememberRuleFacts_go (e := clearRuleFactStates e) hd (by
    rw [hused, clearRuleFactStates, List.length_replicate]
    simp only [meAnalyticsMaxRuleFacts, meAnalyticsMaxTracks] at hlen ⊢
    omega)
  exact ⟨states, hs⟩

/-- The facts of a summary are facts of the observation, at most the array's size. -/
theorem summaryMatch_facts {rules : List MeRuleFact} {summary : MeRuleSummary} {rule : MeRuleFact}
    (hlen : summary.facts.length ≤ meAnalyticsMaxRuleFacts) (hsub : ∀ f ∈ summary.facts, f ∈ rules)
    (hr : rule ∈ rules) :
    (summaryMatch e summary rule).facts.length ≤ meAnalyticsMaxRuleFacts ∧
      ∀ f ∈ (summaryMatch e summary rule).facts, f ∈ rules := by
  have key : ∀ s : MeRuleSummary, (summaryNewMatch s rule).facts = s.facts := by
    intro s
    simp only [summaryNewMatch, summaryAddTrack]
    split <;> split <;> rfl
  have grown : ∀ facts, facts = (if summary.facts.length < meAnalyticsMaxRuleFacts then
      summary.facts ++ [rule] else summary.facts) →
      facts.length ≤ meAnalyticsMaxRuleFacts ∧ ∀ f ∈ facts, f ∈ rules := by
    rintro facts rfl
    split
    · refine ⟨by simp; omega, fun f hf => ?_⟩
      rcases List.mem_append.mp hf with hf | hf
      · exact hsub f hf
      · exact List.mem_singleton.mp hf ▸ hr
    · exact ⟨hlen, hsub⟩
  unfold summaryMatch
  split
  · split
    · exact ⟨hlen, hsub⟩
    · simp only
      split
      · exact grown _ rfl
      · exact grown _ (key _)
  · exact ⟨hlen, hsub⟩

theorem matchingRules_facts :
    (matchingRules e o).facts.length ≤ meAnalyticsMaxRuleFacts ∧
      ∀ f ∈ (matchingRules e o).facts, f ∈ o.rules := by
  have go : ∀ (rules : List MeRuleFact) (s : MeRuleSummary), (∀ r ∈ rules, r ∈ o.rules) →
      s.facts.length ≤ meAnalyticsMaxRuleFacts → (∀ f ∈ s.facts, f ∈ o.rules) →
      (rules.foldl (summaryMatch e) s).facts.length ≤ meAnalyticsMaxRuleFacts ∧
        ∀ f ∈ (rules.foldl (summaryMatch e) s).facts, f ∈ o.rules := by
    intro rules
    induction rules with
    | nil => exact fun s _ h1 h2 => ⟨h1, h2⟩
    | cons r rules ih =>
      intro s hr h1 h2
      obtain ⟨h1', h2'⟩ := summaryMatch_facts (e := e) h1 h2 (hr r List.mem_cons_self)
      exact ih _ (fun x hx => hr x (List.mem_cons_of_mem _ hx)) h1' h2'
  unfold matchingRules
  split
  · exact ⟨by simp, by simp⟩
  · exact go o.rules {} (fun _ h => h) (by simp) (by simp)

theorem rememberRuleFacts_matching (e' : MeEventEngine) (ho : ObservationValid o) :
    ∃ states, rememberRuleFacts e' (matchingRules e o).facts =
      ({ e' with ruleFactStates := states }, true) :=
  rememberRuleFacts_ok (fun f hf => (ho.rules f (matchingRules_facts.2 f hf)).2)
    matchingRules_facts.1

/-! ### Emitting -/

/-- The result of a runtime function on the observation `o`: a simulated step that keeps the
stream part and leaves an open event with `o`. -/
structure Keeps (o : MeNormalizedObservation) (e : MeEventEngine) (r : Outcome) : Prop where
  sim : Sim e r
  fixed : fixedPart r.engine = fixedPart e
  belongs : r.engine.active = true → Belongs r.engine o

theorem step_closing {event : MeAnalyticsEvent} {n : Nat} {r : MeAnalyticsEvent}
    (hp : r.phase = .end_) (hs : r.eventSeq = event.eventSeq + 1)
    (hi : identityOf r = identityOf event) :
    Step eventReading ⟨n, some (identityOf event, event.eventSeq)⟩ r ⟨n, none⟩ :=
  .closing (by simp [eventReading, hp, phaseKind]) hs hi

theorem step_ongoing {event : MeAnalyticsEvent} {n : Nat} {r : MeAnalyticsEvent}
    (hp : r.phase = .update) (hs : r.eventSeq = event.eventSeq + 1)
    (hi : identityOf r = identityOf event) :
    Step eventReading ⟨n, some (identityOf event, event.eventSeq)⟩ r
      ⟨n, some (identityOf r, r.eventSeq)⟩ := by
  rw [hi, hs]
  exact .ongoing (by simp [eventReading, hp, phaseKind]) hs hi

theorem emitEnd_eq (o : MeNormalizedObservation) (reason : MeEventReason) (personCount : Nat)
    (now : MeTimeline) (cooldown : Bool) (h : e.active = true) :
    (e.activeEvent.eventSeq = uint64Max ∧ emitEnd e o reason personCount now cooldown =
      ⟨e, [], .error (ascii "analytics event sequence is exhausted")⟩) ∨
    ∃ e' r, emitEnd e o reason personCount now cooldown = ⟨e', [r], .ok 1⟩ ∧
      e'.active = false ∧ e'.nextEventSerial = e.nextEventSerial ∧ fixedPart e' = fixedPart e ∧
      r.phase = .end_ ∧ r.eventSeq = e.activeEvent.eventSeq + 1 ∧ identityOf r =
        { identityOf e.activeEvent with
          channelId := o.channelId.snprintf meAnalyticsChannelIdMax, streamEpoch := o.streamEpoch }
      := by
  unfold emitEnd
  simp only [h, Bool.not_true, Bool.false_eq_true, if_false]
  cases hi : incrementEventSeq e.activeEvent with
  | none =>
    left
    refine ⟨?_, rfl⟩
    unfold incrementEventSeq at hi
    split at hi
    · assumption
    · cases hi
  | some event =>
    right
    have he := incrementEventSeq_eq hi
    refine ⟨_, _, rfl, rfl, ?_, ?_, ?_, ?_, ?_⟩
    · simp only [clearRuleFactStates, clearPending, clearTriggerCandidate, applyCooldown]
      split
      · split <;> rfl
      · rfl
    · simp only [clearRuleFactStates, clearPending, clearTriggerCandidate, applyCooldown, fixedPart]
      split
      · split <;> rfl
      · rfl
    · simp only [endEvent, eventCopyObservationContext, eventCopyResponsibleTracks]
      split <;> rfl
    · simp only [endEvent, eventCopyObservationContext, eventCopyResponsibleTracks]
      split <;> rw [he]
    · simp only [endEvent, eventCopyObservationContext, eventCopyResponsibleTracks]
      split <;> rw [he] <;> rfl

theorem emitEnd_keeps (reason : MeEventReason) (personCount : Nat) (now : MeTimeline)
    (cooldown : Bool) (h : e.active = true) (ho : ObservationValid o) (hb : Belongs e o) :
    Keeps o e (emitEnd e o reason personCount now cooldown) := by
  rcases emitEnd_eq o reason personCount now cooldown h with ⟨-, heq⟩ | ⟨e', r, heq, ha, hn, hf, hp, hs, hi⟩
  · rw [heq]
    exact ⟨.failed _ rfl, rfl, fun _ => hb⟩
  · rw [heq]
    refine ⟨⟨?_, by simp⟩, hf, fun hc => absurd (ha ▸ hc) (by simp)⟩
    have hid : identityOf r = identityOf e.activeEvent := by
      rw [hi, snprintf_channel ho, ← hb.channel, ← hb.epoch]
      rfl
    rw [life_active h, life_inactive ha, hn]
    exact .one (step_closing hp hs hid)

theorem maybeEmitUpdate_keeps {personCount : Nat} {now : MeTimeline} (h : e.active = true)
    (ho : ObservationValid o) (hb : Belongs e o) :
    Keeps o e (maybeEmitUpdate e o personCount now) := by
  unfold maybeEmitUpdate
  split
  · exact ⟨.quiet rfl, rfl, fun _ => hb⟩
  split
  · exact ⟨.quiet rfl, rfl, fun _ => hb⟩
  cases hi : incrementEventSeq e.activeEvent with
  | none => exact ⟨.failed _ rfl, rfl, fun _ => hb⟩
  | some event =>
    have he := incrementEventSeq_eq hi
    refine ⟨⟨?_, by simp⟩, rfl, fun _ => ⟨snprintf_channel ho, rfl⟩⟩
    rw [life_active h, life_active (by exact h)]
    refine .one (step_ongoing rfl ?_ ?_)
    · simp only [eventCopyResponsibleTracks, eventCopyObservationContext, he]
    · simp only [identityOf, eventCopyResponsibleTracks, eventCopyObservationContext, he,
        snprintf_channel ho, hb.channel, hb.epoch]

theorem newEventId_eq {e' : MeEventEngine} {channelId eventId : CStr} {epoch : Nat}
    (h : newEventId e channelId epoch = some (e', eventId)) :
    e' = { e with nextEventSerial := e.nextEventSerial + 1 } ∧
      eventId.bytes = eventIdText channelId epoch (e.nextEventSerial + 1) := by
  unfold newEventId at h
  split at h
  · cases h
  simp only at h
  split at h
  · cases h
  · cases h
    exact ⟨rfl, rfl⟩

theorem emitStart_keeps (e₀ : MeEventEngine) (personCount : Nat) (now : MeTimeline)
    (h : e.active = false) (ho : ObservationValid o) :
    Keeps o e (emitStart e o (matchingRules e₀ o) personCount now) := by
  unfold emitStart
  cases hn : newEventId e o.channelId o.streamEpoch with
  | none =>
    refine ⟨.failed _ ?_, rfl, fun hc => absurd (h ▸ hc) (by simp)⟩
    rw [life_inactive h, life_inactive (by exact h)]
  | some ei =>
    obtain ⟨e', eventId⟩ := ei
    obtain ⟨rfl, hid⟩ := newEventId_eq hn
    simp only
    obtain ⟨states, hs⟩ := rememberRuleFacts_matching (e := e₀) (o := o)
      { e with
        nextEventSerial := e.nextEventSerial + 1
        activeEvent := startEvent { e with nextEventSerial := e.nextEventSerial + 1 } eventId o
          (matchingRules e₀ o) personCount } ho
    rw [hs]
    refine ⟨⟨?_, by simp⟩, rfl, fun _ => ⟨snprintf_channel ho, rfl⟩⟩
    rw [life_inactive h, life_active rfl]
    refine .one (.opening rfl rfl ?_)
    show eventId.bytes = eventIdText (o.channelId.snprintf meAnalyticsChannelIdMax) _ _
    rw [snprintf_channel ho]
    exact hid

/-! ### One accepted observation -/

/-- Bookkeeping that touches neither the open event nor the stream part. -/
structure Same (e e' : MeEventEngine) : Prop where
  active : e'.active = e.active
  event : e'.activeEvent = e.activeEvent
  serial : e'.nextEventSerial = e.nextEventSerial
  fixed : fixedPart e' = fixedPart e

theorem Same.trans {e e' e'' : MeEventEngine} (h : Same e e') (h' : Same e' e'') : Same e e'' :=
  ⟨h'.active.trans h.active, h'.event.trans h.event, h'.serial.trans h.serial,
    h'.fixed.trans h.fixed⟩

theorem Same.life {e e' : MeEventEngine} (h : Same e e') : life e' = life e := by
  simp only [Engine.life, h.active, h.event, h.serial]

theorem Same.belongs {e e' : MeEventEngine} (h : Same e e') (hb : Belongs e o) : Belongs e' o :=
  ⟨h.event ▸ hb.channel, h.event ▸ hb.epoch⟩

theorem Keeps.of_same {e e' : MeEventEngine} {r : Outcome} (h : Same e e') (hk : Keeps o e' r) :
    Keeps o e r :=
  ⟨hk.sim.of_life h.life, hk.fixed.trans h.fixed, hk.belongs⟩

theorem Keeps.quiet {e e' : MeEventEngine} (h : Same e e') (hb : e.active = true → Belongs e o) :
    Keeps o e ⟨e', [], .ok 0⟩ :=
  ⟨.quiet h.life, h.fixed, fun ha => h.belongs (hb (h.active ▸ ha))⟩

theorem updateTriggerCandidate_same (condition : Bool) (now : MeTimeline) :
    Same e (updateTriggerCandidate e condition now) := by
  unfold updateTriggerCandidate
  split
  · exact ⟨rfl, rfl, rfl, rfl⟩
  · split <;> exact ⟨rfl, rfl, rfl, rfl⟩

theorem processIdle_keeps {e₀ : MeEventEngine} {personCount : Nat} {condition : Bool}
    {now : MeTimeline} (h : e.active = false) (ho : ObservationValid o) :
    Keeps o e (processIdle e o (matchingRules e₀ o) personCount condition now) := by
  have hs := updateTriggerCandidate_same (e := e) condition now
  unfold processIdle
  simp only
  split
  · refine Keeps.of_same hs ?_
    have hk := emitStart_keeps e₀ personCount now (hs.active.trans h) ho
    revert hk
    cases emitStart (updateTriggerCandidate e condition now) o (matchingRules e₀ o) personCount now
      with
    | mk e' emitted ret =>
      intro hk
      cases ret with
      | error err => exact hk
      | ok n => exact ⟨⟨hk.sim.run, hk.sim.count⟩, hk.fixed,
          fun hc => ⟨(hk.belongs hc).channel, (hk.belongs hc).epoch⟩⟩
  · exact .quiet hs fun hc => absurd (h ▸ hc) (by simp)

theorem processAbsent_keeps {personCount : Nat} {now : MeTimeline} (h : e.active = true)
    (ho : ObservationValid o) (hb : Belongs e o) : Keeps o e (processAbsent e o personCount now) := by
  unfold processAbsent
  simp only
  generalize he' : (if e.absentSinceValid then e
    else { e with absentSinceUs := now.us, absentSinceValid := now.valid }) = e'
  have hs : Same e e' := by rw [← he']; split <;> exact ⟨rfl, rfl, rfl, rfl⟩
  split
  · exact .of_same hs (emitEnd_keeps _ _ _ _ (hs.active.trans h) ho (hs.belongs hb))
  · exact .quiet hs fun _ => hb

theorem processPresent_keeps {summary : MeRuleSummary} {personCount : Nat} {now : MeTimeline}
    (h : e.active = true) (ho : ObservationValid o) (hb : Belongs e o) :
    Keeps o e (processPresent e o summary personCount now) := by
  have key : ∀ e', Same e e' → Keeps o e (maybeEmitUpdate e' o personCount now) := fun e' hs =>
    .of_same hs (maybeEmitUpdate_keeps (hs.active.trans h) ho (hs.belongs hb))
  unfold processPresent
  simp only
  refine key _ ?_
  split <;> split <;> exact ⟨rfl, rfl, rfl, rfl⟩

theorem processCounted_keeps {personCount : Nat} {now : MeTimeline} (ho : ObservationValid o)
    (hb : e.active = true → Belongs e o) : Keeps o e (processCounted e o personCount now) := by
  unfold processCounted
  simp only
  split
  · next hact => exact processIdle_keeps (by simpa using hact) ho
  · next hact =>
    have ha : e.active = true := by simpa using hact
    obtain ⟨e', h', hs⟩ : ∃ e', (if e.config.ruleType == .occupancy then (e, true)
        else rememberRuleFacts e (matchingRules e o).facts) = (e', true) ∧ Same e e' := by
      split
      · exact ⟨e, rfl, rfl, rfl, rfl, rfl⟩
      · obtain ⟨states, hst⟩ := rememberRuleFacts_matching (e := e) e ho
        exact ⟨_, hst, rfl, rfl, rfl, rfl⟩
    rw [h']
    refine Keeps.of_same hs ?_
    simp only
    split
    · exact processAbsent_keeps (hs.active.trans ha) ho (hs.belongs (hb ha))
    · exact processPresent_keeps (hs.active.trans ha) ho (hs.belongs (hb ha))

theorem processAccepted_keeps (ho : ObservationValid o) (hb : e.active = true → Belongs e o) :
    Keeps o e (processAccepted e o) := by
  unfold processAccepted
  simp only
  split
  · exact .quiet ⟨rfl, rfl, rfl, rfl⟩ hb
  · have hs : Same e { (updateTracks e o (observationTimeline e.config o)).1 with
        latestPersonCount := (updateTracks e o (observationTimeline e.config o)).2
        latestPersonCountValid := true } := ⟨rfl, rfl, rfl, rfl⟩
    exact .of_same hs (processCounted_keeps ho fun ha => hs.belongs (hb (hs.active ▸ ha)))

end Runtime

end FlowAlarm.Engine
