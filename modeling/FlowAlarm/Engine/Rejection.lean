import FlowAlarm.Engine.Grammar

/-!
# Rejected calls leave no trace

A call is rejected when it fails, or when `process` finds its observation to be
a duplicate or out of order. While the counters have room nothing can fail
behind the first write of a call (`processAccepted_succeeds`), so a rejected
call is one that stopped before it, and a run without its rejected calls is the
same run (`rejected_invisible`).
-/

namespace FlowAlarm.Engine

open FlowAlarm.Text FlowAlarm.Trace

/-- The two counters that `event_engine.c` refuses to overflow. -/
structure CountersBelow (e : MeEventEngine) : Prop where
  serial : e.nextEventSerial < uint64Max
  seq : e.active = true → e.activeEvent.eventSeq < uint64Max

def Outcome.failed (r : Outcome) : Bool :=
  match r.ret with
  | .error _ => true
  | .ok _ => false

/-! ## Nothing fails behind acceptance -/

section Accepted

variable {e : MeEventEngine} {o : MeNormalizedObservation}

theorem channelHash_lt (channelId : Bytes) : channelHash channelId < 16 ^ 16 := by
  have hpow : (16 : Nat) ^ 16 = 2 ^ 64 := by norm_num
  unfold channelHash
  rw [hpow]
  induction channelId using List.reverseRecOn with
  | nil => norm_num
  | append_singleton bs b _ =>
    rw [List.foldl_append, List.foldl_cons, List.foldl_nil]
    exact Nat.mod_lt _ (Nat.two_pow_pos 64)

theorem length_eventIdText {channelId : CStr} {epoch serial : Nat} (he : epoch ≤ uint64Max)
    (hs : serial ≤ uint64Max) : (eventIdText channelId epoch serial).length = 53 := by
  have hmax : uint64Max < 16 ^ 16 := by decide
  simp only [eventIdText, List.length_append, List.length_cons,
    length_hexPad (channelHash_lt channelId.bytes),
    length_hexPad (Nat.lt_of_le_of_lt he hmax), length_hexPad (Nat.lt_of_le_of_lt hs hmax)]
  rfl

theorem newEventId_some {channelId : CStr} {epoch : Nat} (he : epoch ≤ uint64Max)
    (hs : e.nextEventSerial < uint64Max) : ∃ r, newEventId e channelId epoch = some r := by
  unfold newEventId
  rw [if_neg (by omega)]
  simp only
  rw [length_eventIdText he (by omega), if_neg (by decide)]
  exact ⟨_, rfl⟩

theorem emitStart_succeeds (e₀ : MeEventEngine) (personCount : Nat) (now : MeTimeline)
    (ho : ObservationValid o) (hep : o.streamEpoch ≤ uint64Max)
    (hs : e.nextEventSerial < uint64Max) :
    (emitStart e o (matchingRules e₀ o) personCount now).failed = false := by
  obtain ⟨⟨e', eventId⟩, hn⟩ : ∃ r, newEventId e o.channelId o.streamEpoch = some r :=
    newEventId_some hep hs
  unfold emitStart
  rw [hn]
  simp only
  obtain ⟨states, hst⟩ := rememberRuleFacts_matching (e := e₀) (o := o)
    { e' with activeEvent := startEvent e' eventId o (matchingRules e₀ o) personCount } ho
  rw [hst]
  rfl

theorem processIdle_succeeds {e₀ : MeEventEngine} {personCount : Nat} {condition : Bool}
    {now : MeTimeline} (ho : ObservationValid o) (hep : o.streamEpoch ≤ uint64Max)
    (hs : e.nextEventSerial < uint64Max) :
    (processIdle e o (matchingRules e₀ o) personCount condition now).failed = false := by
  have hserial := (updateTriggerCandidate_same (e := e) condition now).serial
  unfold processIdle
  simp only
  split
  · have hstart := emitStart_succeeds e₀ personCount now ho hep (hserial ▸ hs)
    revert hstart
    cases emitStart (updateTriggerCandidate e condition now) o (matchingRules e₀ o) personCount now
      with
    | mk e' emitted ret =>
      cases ret with
      | error err => intro h; cases h
      | ok n => exact fun _ => rfl
  · rfl

theorem emitEnd_succeeds (reason : MeEventReason) (personCount : Nat) (now : MeTimeline)
    (cooldown : Bool) (hc : CountersBelow e) :
    (emitEnd e o reason personCount now cooldown).failed = false := by
  by_cases ha : e.active = true
  · rcases emitEnd_eq o reason personCount now cooldown ha with ⟨hmax, -⟩ | ⟨e', r, heq, -⟩
    · exact absurd hmax (Nat.ne_of_lt (hc.seq ha))
    · rw [heq]
      rfl
  · unfold emitEnd
    rw [if_pos (by simpa using ha)]
    rfl

theorem maybeEmitUpdate_succeeds {personCount : Nat} {now : MeTimeline}
    (hseq : e.activeEvent.eventSeq < uint64Max) :
    (maybeEmitUpdate e o personCount now).failed = false := by
  unfold maybeEmitUpdate
  split
  · rfl
  split
  · rfl
  · rw [incrementEventSeq, if_neg (by omega)]
    rfl

theorem processAbsent_succeeds {personCount : Nat} {now : MeTimeline} (hc : CountersBelow e) :
    (processAbsent e o personCount now).failed = false := by
  unfold processAbsent
  simp only
  generalize he' : (if e.absentSinceValid then e
    else { e with absentSinceUs := now.us, absentSinceValid := now.valid }) = e'
  have hc' : CountersBelow e' := by rw [← he']; split <;> exact ⟨hc.serial, hc.seq⟩
  split
  · exact emitEnd_succeeds _ _ _ _ hc'
  · rfl

theorem processPresent_succeeds {summary : MeRuleSummary} {personCount : Nat} {now : MeTimeline}
    (hseq : e.activeEvent.eventSeq < uint64Max) :
    (processPresent e o summary personCount now).failed = false := by
  unfold processPresent
  simp only
  refine maybeEmitUpdate_succeeds ?_
  split <;> split <;> exact hseq

theorem processCounted_succeeds {personCount : Nat} {now : MeTimeline} (ho : ObservationValid o)
    (hep : o.streamEpoch ≤ uint64Max) (hc : CountersBelow e) :
    (processCounted e o personCount now).failed = false := by
  unfold processCounted
  simp only
  split
  · exact processIdle_succeeds ho hep hc.serial
  · next hact =>
    have ha : e.active = true := by simpa using hact
    obtain ⟨e', h', hs⟩ : ∃ e', (if e.config.ruleType == .occupancy then (e, true)
        else rememberRuleFacts e (matchingRules e o).facts) = (e', true) ∧ Same e e' := by
      split
      · exact ⟨e, rfl, rfl, rfl, rfl, rfl⟩
      · obtain ⟨states, hst⟩ := rememberRuleFacts_matching (e := e) e ho
        exact ⟨_, hst, rfl, rfl, rfl, rfl⟩
    have hseq : e'.activeEvent.eventSeq < uint64Max := hs.event ▸ hc.seq ha
    rw [h']
    simp only
    split
    · exact processAbsent_succeeds ⟨hs.serial ▸ hc.serial, fun _ => hseq⟩
    · exact processPresent_succeeds hseq

/-- An accepted observation never fails while the counters have room. -/
theorem processAccepted_succeeds (ho : ObservationValid o) (hep : o.streamEpoch ≤ uint64Max)
    (hc : CountersBelow e) : (processAccepted e o).failed = false := by
  unfold processAccepted
  simp only
  split
  · rfl
  · exact processCounted_succeeds ho hep ⟨hc.serial, hc.seq⟩

theorem acceptObservation_succeeds {order : MeObservationOrder} {before : List MeAnalyticsEvent}
    {emitted : Nat} (ho : ObservationValid o) (hep : o.streamEpoch ≤ uint64Max)
    (hc : CountersBelow e) : (acceptObservation e o order before emitted).failed = false := by
  have hacc := processAccepted_succeeds (e := { e with
      order := order
      haveStream := true
      channelId := o.channelId.snprintf meAnalyticsChannelIdMax
      streamEpoch := o.streamEpoch
      lastObservation := o
      haveLastObservation := true }) ho hep ⟨hc.serial, hc.seq⟩
  unfold acceptObservation
  simp only
  generalize processAccepted _ o = r at hacc ⊢
  unfold Outcome.failed at hacc ⊢
  cases hr : r.ret with
  | error err => simp [hr] at hacc
  | ok n => rfl

end Accepted

/-! ## Rejected calls -/

/-- A call of the public interface on a live engine. -/
inductive Act where
  | call (c : Call)
  | deinit

def Act.apply (e : MeEventEngine) : Act → Outcome
  | .call c => c.apply e
  | .deinit => meEventEngineDeinit e

/-- The epoch of an observation is a `uint64_t`. -/
def Act.Typed : Act → Prop
  | .call (.process (some o)) => o.streamEpoch ≤ uint64Max
  | _ => True

/-- How `process` classifies `o`; a channel change starts a new order. -/
def classification (e : MeEventEngine) (o : MeNormalizedObservation) :
    MeObservationOrderResult :=
  (meObservationOrderClassify
    (if e.haveStream && e.channelId != o.channelId then meObservationOrderInit else e.order) o).2

/-- The call fails, or its observation is a duplicate or out of order. -/
def rejected (e : MeEventEngine) (a : Act) : Bool :=
  (a.apply e).failed ||
    match a with
    | .call (.process (some o)) =>
      classification e o == .duplicate || classification e o == .outOfOrder
    | _ => false

/-- The call leaves the engine as it is and hands nothing to the sink. -/
structure Invisible (e : MeEventEngine) (r : Outcome) : Prop where
  engine : r.engine = e
  emitted : r.emitted = []

section Invisible

variable {e : MeEventEngine} {o : MeNormalizedObservation}
  {observation : Option MeNormalizedObservation}

/-- With room in the counters closing the open event does not fail. -/
theorem endAtLast_counters (hc : CountersBelow e) (reason : MeEventReason) :
    ∃ e' ends n, endAtLast e reason = ⟨e', ends, .ok n⟩ ∧
      e'.nextEventSerial = e.nextEventSerial ∧ fixedPart e' = fixedPart e := by
  unfold endAtLast
  split
  · next h =>
    have ha : e.active = true := (Bool.and_eq_true_iff.mp h).1
    rcases emitEnd_eq e.lastObservation reason (latestPersonCount e)
      (observationTimeline e.config e.lastObservation) false ha with
      ⟨hmax, -⟩ | ⟨e', r, heq, -, hserial, hf, -⟩
    · exact absurd hmax (Nat.ne_of_lt (hc.seq ha))
    · exact ⟨e', [r], 1, heq, hserial, hf⟩
  · exact ⟨e, [], 0, rfl, rfl, rfl⟩

theorem CountersBelow.cleared {e' : MeEventEngine} (hc : CountersBelow e)
    (hs : e'.nextEventSerial = e.nextEventSerial) (ha : e'.active = false) : CountersBelow e' :=
  ⟨hs ▸ hc.serial, fun h => absurd (ha ▸ h) (by simp)⟩

/-- What `processOrdered` does: nothing at all, or an acceptance that does not fail. -/
theorem processOrdered_cases (ho : ObservationValid o) (hv : meObservationValidate o = .ok ())
    (hep : o.streamEpoch ≤ uint64Max) (hc : CountersBelow e) (before : List MeAnalyticsEvent)
    (emitted : Nat) :
    (processOrdered e o before emitted).failed = false ∧
        (meObservationOrderClassify e.order o).2 ≠ .duplicate ∧
        (meObservationOrderClassify e.order o).2 ≠ .outOfOrder ∨
      (processOrdered e o before emitted).engine = e ∧
        (processOrdered e o before emitted).emitted = before ∧ e.order.initialized = true := by
  unfold processOrdered
  rcases hcl : meObservationOrderClassify e.order o with ⟨order', res⟩
  have hinit : res = .duplicate ∨ res = .outOfOrder → e.order.initialized = true := by
    intro h
    by_contra hi
    rw [meObservationOrderClassify, hv] at hcl
    simp only [hi, Bool.not_false, if_true, Prod.mk.injEq] at hcl
    rcases h with rfl | rfl <;> simp at hcl
  have hne : res ≠ .invalid := by
    rintro rfl
    rw [meObservationOrderClassify, hv] at hcl
    simp only at hcl
    repeat (split at hcl; · simp at hcl)
    simp at hcl
  cases res with
  | invalid => exact absurd rfl hne
  | duplicate => exact .inr ⟨rfl, rfl, hinit (.inl rfl)⟩
  | outOfOrder => exact .inr ⟨rfl, rfl, hinit (.inr rfl)⟩
  | first => exact .inl ⟨acceptObservation_succeeds ho hep hc, by simp, by simp⟩
  | accepted => exact .inl ⟨acceptObservation_succeeds ho hep hc, by simp, by simp⟩
  | epochAdvance =>
    obtain ⟨e', ends, n, heq, hserial, -⟩ := endAtLast_counters hc .streamReset
    simp only [heq]
    exact .inl ⟨acceptObservation_succeeds ho hep (hc.cleared hserial rfl), by simp, by simp⟩

theorem rejected_process (h : rejected e (.call (.process (some o))) = true) :
    (meEventEngineProcess e (some o)).failed = true ∨ classification e o = .duplicate ∨
      classification e o = .outOfOrder := by
  simpa [rejected, Act.apply, Call.apply] using h

/-- A rejected observation stopped at the ordering of an unchanged channel. -/
theorem process_rejected (hep : ∀ o, observation = some o → o.streamEpoch ≤ uint64Max)
    (hc : CountersBelow e) (hr : rejected e (.call (.process observation)) = true) :
    Invisible e (meEventEngineProcess e observation) := by
  cases observation with
  | none => exact ⟨rfl, rfl⟩
  | some o =>
    replace hr := rejected_process hr
    unfold classification at hr
    cases hv : meObservationValidate o with
    | error err =>
      unfold meEventEngineProcess
      simp only [hv]
      exact ⟨rfl, rfl⟩
    | ok u =>
      have ho := observationValid_of_validate hv
      by_cases hch : (e.haveStream && e.channelId != o.channelId) = true
      · -- behind a channel change the order is fresh, so the observation is accepted
        exfalso
        obtain ⟨e', ends, n, heq, hserial, -⟩ := endAtLast_counters hc .streamReset
        have hp : meEventEngineProcess e (some o) = processOrdered
            { clearRuntime e' with haveStream := false, order := meObservationOrderInit } o ends
            n := by
          simp only [meEventEngineProcess, hv, hch, if_true, heq]
        rw [hp, if_pos hch] at hr
        rcases processOrdered_cases (e := { clearRuntime e' with
            haveStream := false, order := meObservationOrderInit }) ho hv (hep o rfl)
          (hc.cleared hserial rfl) ends n with ⟨hok, h1, h2⟩ | ⟨-, -, hi⟩
        · rw [hok] at hr
          exact hr.elim (by simp) fun h => h.elim h1 h2
        · cases hi
      · have hp : meEventEngineProcess e (some o) = processOrdered e o [] 0 := by
          simp only [meEventEngineProcess, hv, hch]
          rfl
        rw [hp, if_neg hch] at hr
        rw [hp]
        rcases processOrdered_cases ho hv (hep o rfl) hc [] 0 with ⟨hok, h1, h2⟩ | ⟨he, hem, -⟩
        · rw [hok] at hr
          exact absurd hr (by simp [h1, h2])
        · exact ⟨he, hem⟩

theorem close_rejected {reason : MeEventReason} (hc : CountersBelow e)
    (hr : (meEventEngineClose e reason).failed = true) :
    Invisible e (meEventEngineClose e reason) := by
  unfold meEventEngineClose at hr ⊢
  split
  · exact ⟨rfl, rfl⟩
  · next hreason =>
    obtain ⟨e', ends, n, heq, -⟩ := endAtLast_counters hc reason
    simp [hreason, heq, Outcome.failed] at hr

theorem reconfigure_rejected {config : Option MeAnalyticsConfig} {configVersion : Nat}
    (hc : CountersBelow e)
    (hr : (meEventEngineReconfigure e config configVersion).failed = true) :
    Invisible e (meEventEngineReconfigure e config configVersion) := by
  unfold meEventEngineReconfigure at hr ⊢
  cases config with
  | none => exact ⟨rfl, rfl⟩
  | some config =>
    cases hval : meAnalyticsConfigValidate config with
    | error err => simp only [hval]; exact ⟨rfl, rfl⟩
    | ok u =>
      cases hver : nextConfigVersion e.configVersion configVersion with
      | error err => simp only [hval]; exact ⟨rfl, rfl⟩
      | ok version =>
        obtain ⟨e', ends, n, heq, -⟩ := endAtLast_counters hc
          (if config.enabled then .reconfigured else .analyticsDisabled)
        simp [hval, hver, heq, Outcome.failed] at hr

theorem deinit_succeeds (hc : CountersBelow e) : (meEventEngineDeinit e).failed = false := by
  obtain ⟨e', ends, n, heq, -⟩ := endAtLast_counters hc .processRestart
  unfold meEventEngineDeinit
  rw [heq]
  rfl

/-- The step lemma: a rejected call is invisible. -/
theorem invisible_of_rejected {a : Act} (ht : a.Typed) (hc : CountersBelow e)
    (hr : rejected e a = true) : Invisible e (a.apply e) := by
  cases a with
  | deinit =>
    simp [rejected, Act.apply, deinit_succeeds hc] at hr
  | call c =>
    cases c with
    | process observation =>
      exact process_rejected (fun o h => by subst h; exact ht) hc hr
    | close reason => exact close_rejected hc ((Bool.or_false _).symm.trans hr)
    | reconfigure config configVersion =>
      exact reconfigure_rejected hc ((Bool.or_false _).symm.trans hr)

end Invisible

/-! ## Accepted observations -/

/-- Whether `process` closes the open event before it accepts `o`. -/
def resets (e : MeEventEngine) (o : MeNormalizedObservation) : Bool :=
  (e.haveStream && e.channelId != o.channelId) || classification e o == .epochAdvance

/-- Whether `process` accepts `o`: it is in order, and closing the open event does not fail. -/
def accepts (e : MeEventEngine) (o : MeNormalizedObservation) : Bool :=
  (classification e o == .first || classification e o == .accepted ||
      classification e o == .epochAdvance) &&
    !(resets e o && (endAtLast e .streamReset).failed)

/-- What `process` does with an observation: nothing, or it accepts it in the engine `e₁` that
closing the event of an earlier stream leaves behind. -/
theorem process_cases {e : MeEventEngine} (hw : Wf e) (o : MeNormalizedObservation) :
    (accepts e o = false ∧ ∃ ret, meEventEngineProcess e (some o) = ⟨e, [], ret⟩) ∨
    accepts e o = true ∧ meObservationValidate o = .ok () ∧ ∃ e₁ ends n,
      meEventEngineProcess e (some o) = acceptObservation e₁ o (orderCommit o) ends n ∧
      (resets e o = false ∧ e₁ = e ∧ ends = [] ∨
        resets e o = true ∧ ∃ e', endAtLast e .streamReset = ⟨e', ends, .ok ends.length⟩ ∧
          e'.active = false ∧ fixedPart e' = fixedPart e ∧
          (e₁ = clearRuntime e' ∨
            e₁ = { clearRuntime e' with haveStream := false, order := meObservationOrderInit })) := by
  cases hv : meObservationValidate o with
  | error err =>
    left
    refine ⟨?_, .error err, ?_⟩
    · simp [accepts, classification, meObservationOrderClassify, hv]
    · simp only [meEventEngineProcess, hv]
  | ok u =>
    by_cases hch : (e.haveStream && e.channelId != o.channelId) = true
    · have hreset : resets e o = true := by rw [resets, hch]; rfl
      have hclass : classification e o = .first := by
        simp [classification, hch, meObservationOrderClassify, hv, meObservationOrderInit]
      rcases endAtLast_cases hw .streamReset with ⟨err, heq⟩ | ⟨e', ends, heq, hact, hf, -⟩
      · left
        refine ⟨by simp [accepts, hreset, heq, Outcome.failed], .error err, ?_⟩
        simp only [meEventEngineProcess, hv, hch, if_true, heq]
      · right
        refine ⟨by simp [accepts, hreset, hclass, heq, Outcome.failed], rfl, _, ends, ends.length,
          ?_, .inr ⟨hreset, e', heq, hact, hf, .inr rfl⟩⟩
        simp only [meEventEngineProcess, hv, hch, if_true, heq, processOrdered]
        simp [meObservationOrderClassify, hv, meObservationOrderInit]
    · have hp : meEventEngineProcess e (some o) = processOrdered e o [] 0 := by
        simp only [meEventEngineProcess, hv, hch]
        rfl
      have hclass : classification e o = (meObservationOrderClassify e.order o).2 := by
        rw [classification, if_neg hch]
      rw [processOrdered] at hp
      rcases hcl : meObservationOrderClassify e.order o with ⟨order', res⟩
      have hcommit := classify_accepted hcl
      rw [hcl] at hp hclass
      simp only at hclass
      have hreset : resets e o = (res == .epochAdvance) := by
        rw [resets, hclass]
        simp [hch]
      cases res with
      | invalid => exact .inl ⟨by simp [accepts, hclass], _, hp⟩
      | duplicate => exact .inl ⟨by simp [accepts, hclass], _, hp⟩
      | outOfOrder => exact .inl ⟨by simp [accepts, hclass], _, hp⟩
      | first =>
        obtain ⟨rfl, -⟩ := hcommit (by simp) (by simp) (by simp)
        exact .inr ⟨by simp [accepts, hclass, hreset], rfl, e, [], 0, hp,
          .inl ⟨by simp [hreset], rfl, rfl⟩⟩
      | accepted =>
        obtain ⟨rfl, -⟩ := hcommit (by simp) (by simp) (by simp)
        exact .inr ⟨by simp [accepts, hclass, hreset], rfl, e, [], 0, hp,
          .inl ⟨by simp [hreset], rfl, rfl⟩⟩
      | epochAdvance =>
        obtain ⟨rfl, -⟩ := hcommit (by simp) (by simp) (by simp)
        rcases endAtLast_cases hw .streamReset with ⟨err, heq⟩ | ⟨e', ends, heq, hact, hf, -⟩
        · left
          refine ⟨by simp [accepts, hreset, heq, Outcome.failed], .error err, ?_⟩
          rw [hp]
          simp only [heq]
          rfl
        · right
          refine ⟨by simp [accepts, hreset, hclass, heq, Outcome.failed], rfl, _, ends,
            0 + ends.length, ?_, .inr ⟨by simp [hreset], e', heq, hact, hf, .inl rfl⟩⟩
          rw [hp]
          simp only [heq, List.nil_append]

/-! ## Configuration versions -/

theorem nextConfigVersion_lt {current configVersion next : Nat}
    (h : nextConfigVersion current configVersion = .ok next) : current < next := by
  unfold nextConfigVersion at h
  split at h
  · split at h
    · cases h
    · cases h
      omega
  · split at h
    · cases h
    · cases h
      omega

section Version

variable {e : MeEventEngine} {o : MeNormalizedObservation}

theorem rememberRuleFacts_fixed (facts : List MeRuleFact) :
    fixedPart (rememberRuleFacts e facts).1 = fixedPart e := by
  have go : ∀ (facts : List MeRuleFact) (e : MeEventEngine),
      fixedPart (rememberRuleFacts.go e facts).1 = fixedPart e := by
    intro facts
    induction facts with
    | nil => exact fun _ => rfl
    | cons f facts ih =>
      intro e
      unfold rememberRuleFacts.go
      split
      · rfl
      · exact ih _
  exact go facts (clearRuleFactStates e)

theorem emitEnd_fixed (reason : MeEventReason) (personCount : Nat) (now : MeTimeline)
    (cooldown : Bool) :
    fixedPart (emitEnd e o reason personCount now cooldown).engine = fixedPart e := by
  by_cases ha : e.active = true
  · rcases emitEnd_eq o reason personCount now cooldown ha with ⟨-, heq⟩ | ⟨e', r, heq, -, -, hf, -⟩
    · rw [heq]
    · rw [heq]
      exact hf
  · unfold emitEnd
    rw [if_pos (by simpa using ha)]

theorem endAtLast_fixed (reason : MeEventReason) :
    fixedPart (endAtLast e reason).engine = fixedPart e := by
  unfold endAtLast
  split
  · exact emitEnd_fixed _ _ _ _
  · rfl

theorem maybeEmitUpdate_fixed (personCount : Nat) (now : MeTimeline) :
    fixedPart (maybeEmitUpdate e o personCount now).engine = fixedPart e := by
  unfold maybeEmitUpdate
  split
  · rfl
  split
  · rfl
  · split <;> rfl

theorem emitStart_fixed (summary : MeRuleSummary) (personCount : Nat) (now : MeTimeline) :
    fixedPart (emitStart e o summary personCount now).engine = fixedPart e := by
  unfold emitStart
  split
  · rfl
  · next e' eventId hn =>
    obtain ⟨rfl, -⟩ := newEventId_eq hn
    simp only
    generalize hf : rememberRuleFacts _ summary.facts = p
    have hfix := congrArg (fun p => fixedPart p.1) hf
    simp only [rememberRuleFacts_fixed] at hfix
    obtain ⟨e'', b⟩ := p
    cases b <;> exact hfix.symm

theorem processIdle_fixed (summary : MeRuleSummary) (personCount : Nat) (condition : Bool)
    (now : MeTimeline) :
    fixedPart (processIdle e o summary personCount condition now).engine = fixedPart e := by
  have hs := (updateTriggerCandidate_same (e := e) condition now).fixed
  unfold processIdle
  simp only
  split
  · have hstart := emitStart_fixed (e := updateTriggerCandidate e condition now) (o := o) summary
      personCount now
    revert hstart
    cases emitStart (updateTriggerCandidate e condition now) o summary personCount now with
    | mk e' emitted ret =>
      intro hstart
      cases ret with
      | error err => exact hstart.trans hs
      | ok n => exact hstart.trans hs
  · exact hs

theorem processAbsent_fixed (personCount : Nat) (now : MeTimeline) :
    fixedPart (processAbsent e o personCount now).engine = fixedPart e := by
  unfold processAbsent
  simp only
  generalize he' : (if e.absentSinceValid then e
    else { e with absentSinceUs := now.us, absentSinceValid := now.valid }) = e'
  have hf : fixedPart e' = fixedPart e := by rw [← he']; split <;> rfl
  split
  · exact (emitEnd_fixed _ _ _ _).trans hf
  · exact hf

theorem processPresent_fixed (summary : MeRuleSummary) (personCount : Nat) (now : MeTimeline) :
    fixedPart (processPresent e o summary personCount now).engine = fixedPart e := by
  unfold processPresent
  simp only
  refine (maybeEmitUpdate_fixed _ _).trans ?_
  split <;> split <;> rfl

theorem processCounted_fixed (personCount : Nat) (now : MeTimeline) :
    fixedPart (processCounted e o personCount now).engine = fixedPart e := by
  unfold processCounted
  simp only
  split
  · exact processIdle_fixed _ _ _ _
  · generalize hp : (if e.config.ruleType == .occupancy then (e, true)
      else rememberRuleFacts e (matchingRules e o).facts) = p
    have hf : fixedPart p.1 = fixedPart e := by
      rw [← hp]
      split
      · rfl
      · exact rememberRuleFacts_fixed _
    obtain ⟨e', b⟩ := p
    cases b with
    | false => exact hf
    | true =>
      simp only
      split
      · exact (processAbsent_fixed _ _).trans hf
      · exact (processPresent_fixed _ _ _).trans hf

/-- An accepted observation leaves the configuration and the stream part alone. -/
theorem processAccepted_fixed : fixedPart (processAccepted e o).engine = fixedPart e := by
  unfold processAccepted
  simp only
  split
  · rfl
  · exact processCounted_fixed _ _

/-- The configuration a call works under. -/
def configOf (e : MeEventEngine) : MeAnalyticsConfig × Nat := (e.config, e.configVersion)

theorem configOf_of_fixed {e e' : MeEventEngine} (h : fixedPart e' = fixedPart e) :
    configOf e' = configOf e :=
  congrArg (fun p => (p.1, p.2.1)) h

theorem acceptObservation_config (order : MeObservationOrder) (before : List MeAnalyticsEvent)
    (emitted : Nat) : configOf (acceptObservation e o order before emitted).engine = configOf e :=
  (configOf_of_fixed processAccepted_fixed).trans rfl

theorem processOrdered_config (before : List MeAnalyticsEvent) (emitted : Nat) :
    configOf (processOrdered e o before emitted).engine = configOf e := by
  have hend := configOf_of_fixed (endAtLast_fixed (e := e) .streamReset)
  unfold processOrdered
  split
  · rfl
  · rfl
  · rfl
  · split
    · next heq => rwa [heq] at hend
    · next heq =>
      rw [heq] at hend
      exact (acceptObservation_config _ _ _).trans hend
  · exact acceptObservation_config _ _ _

theorem meEventEngineProcess_config (observation : Option MeNormalizedObservation) :
    configOf (meEventEngineProcess e observation).engine = configOf e := by
  have hend := configOf_of_fixed (endAtLast_fixed (e := e) .streamReset)
  unfold meEventEngineProcess
  split
  · rfl
  split
  · rfl
  split
  · split
    · next heq => rwa [heq] at hend
    · next heq =>
      rw [heq] at hend
      exact (processOrdered_config _ _).trans hend
  · exact processOrdered_config _ _

theorem meEventEngineClose_config (reason : MeEventReason) :
    configOf (meEventEngineClose e reason).engine = configOf e := by
  have hend := configOf_of_fixed (endAtLast_fixed (e := e) reason)
  unfold meEventEngineClose
  split
  · rfl
  split
  · next heq => rwa [heq] at hend
  · next heq => rwa [heq] at hend

/-- A reconfiguration installs a greater version or none. -/
theorem meEventEngineReconfigure_version (config : Option MeAnalyticsConfig)
    (configVersion : Nat) :
    (meEventEngineReconfigure e config configVersion).failed = true ∧
        (meEventEngineReconfigure e config configVersion).engine.configVersion =
          e.configVersion ∨
      e.configVersion < (meEventEngineReconfigure e config configVersion).engine.configVersion := by
  unfold meEventEngineReconfigure
  cases config with
  | none => exact .inl ⟨rfl, rfl⟩
  | some config =>
    simp only
    split
    · exact .inl ⟨rfl, rfl⟩
    split
    · exact .inl ⟨rfl, rfl⟩
    · next version hver =>
      have hend := configOf_of_fixed
        (endAtLast_fixed (e := e) (if config.enabled then .reconfigured else .analyticsDisabled))
      split
      · next heq =>
        rw [heq] at hend
        exact .inl ⟨rfl, congrArg Prod.snd hend⟩
      · exact .inr (nextConfigVersion_lt hver)

theorem Call.configVersion_le (e : MeEventEngine) (c : Call) :
    e.configVersion ≤ (c.apply e).engine.configVersion := by
  cases c with
  | process observation => exact (congrArg Prod.snd (meEventEngineProcess_config observation)).ge
  | close reason => exact (congrArg Prod.snd (meEventEngineClose_config reason)).ge
  | reconfigure config configVersion =>
    rcases meEventEngineReconfigure_version (e := e) config configVersion with ⟨-, h⟩ | h
    · exact h.ge
    · exact h.le

theorem runCalls_configVersion_le (e : MeEventEngine) (calls : List Call) :
    e.configVersion ≤ (runCalls e calls).1.configVersion := by
  induction calls generalizing e with
  | nil => exact Nat.le_refl _
  | cons c cs ih => exact (Call.configVersion_le e c).trans (ih _)

end Version

/-! ## Runs without their rejected calls -/

/-- The calls of a run from `e` that were not rejected. -/
def heeded (e : MeEventEngine) : List Call → List Call
  | [] => []
  | c :: cs =>
    if rejected e (.call c) then heeded (c.apply e).engine cs
    else c :: heeded (c.apply e).engine cs

theorem runCalls_append (e : MeEventEngine) (cs ds : List Call) :
    runCalls e (cs ++ ds) =
      ((runCalls (runCalls e cs).1 ds).1, (runCalls e cs).2 ++ (runCalls (runCalls e cs).1 ds).2) := by
  induction cs generalizing e with
  | nil => rfl
  | cons c cs ih => simp only [List.cons_append, runCalls, ih]

/-- The run lemma: without its rejected calls a run reaches the same engine by the same records. -/
theorem runCalls_heeded {e : MeEventEngine} {calls : List Call}
    (ht : ∀ c ∈ calls, (Act.call c).Typed)
    (hc : ∀ pre, pre <+: calls → CountersBelow (runCalls e pre).1) :
    (runCalls e (heeded e calls)).1 = (runCalls e calls).1 ∧
      records (runCalls e (heeded e calls)).2 = records (runCalls e calls).2 := by
  induction calls generalizing e with
  | nil => exact ⟨rfl, rfl⟩
  | cons c cs ih =>
    have hstep : ∀ pre, pre <+: cs → CountersBelow (runCalls (c.apply e).engine pre).1 :=
      fun pre hpre => hc (c :: pre) (List.cons_prefix_cons.mpr ⟨rfl, hpre⟩)
    obtain ⟨hfin, hrec⟩ := ih (fun d hd => ht d (List.mem_cons_of_mem _ hd)) hstep
    have htail : ∀ r rs, records (r :: rs) = r.emitted ++ records rs := fun _ _ => rfl
    unfold heeded
    split
    · next hrej =>
      have hinv : Invisible e (c.apply e) :=
        invisible_of_rejected (ht c List.mem_cons_self) (hc [] (List.nil_prefix)) hrej
      have hrun : runCalls e (c :: cs) =
          ((runCalls (c.apply e).engine cs).1, c.apply e :: (runCalls (c.apply e).engine cs).2) := rfl
      rw [hrun, htail, hinv.emitted, List.nil_append]
      rw [hinv.engine] at hfin hrec ⊢
      exact ⟨hfin, hrec⟩
    · refine ⟨hfin, ?_⟩
      simp only [runCalls, htail, hrec]

/-- A session without its rejected calls. -/
def heededSession (e : MeEventEngine) (calls : List Call) (deinit : Bool) :
    MeEventEngine × List Outcome :=
  session e (heeded e calls) (deinit && !rejected (runCalls e calls).1 .deinit)

/-- **Rejected input is invisible.** At every state of a run whose counters stay in range, a
rejected call leaves every field as it was and emits nothing; the session without its rejected
calls ends in the same engine and emits the same records; and a successful reconfiguration raises
the version above every version before it. -/
theorem rejected_invisible (e : MeEventEngine) (calls : List Call)
    (ht : ∀ c ∈ calls, (Act.call c).Typed)
    (hc : ∀ pre, pre <+: calls → CountersBelow (runCalls e pre).1) :
    (∀ pre a, pre <+: calls → a.Typed → rejected (runCalls e pre).1 a = true →
      Invisible (runCalls e pre).1 (a.apply (runCalls e pre).1)) ∧
    (∀ deinit, (heededSession e calls deinit).1 = (session e calls deinit).1 ∧
      records (heededSession e calls deinit).2 = records (session e calls deinit).2) ∧
    ∀ pre c v suf, calls = pre ++ Call.reconfigure c v :: suf →
      (meEventEngineReconfigure (runCalls e pre).1 c v).failed = false →
      ∀ earlier, earlier <+: pre → (runCalls e earlier).1.configVersion <
        (meEventEngineReconfigure (runCalls e pre).1 c v).engine.configVersion := by
  refine ⟨fun pre a hpre hta hrej => invisible_of_rejected hta (hc pre hpre) hrej, ?_, ?_⟩
  · intro deinit
    obtain ⟨hfin, hrec⟩ := runCalls_heeded ht hc
    have hdeinit : rejected (runCalls e calls).1 .deinit = false := by
      simp [rejected, Act.apply, deinit_succeeds (hc calls List.prefix_rfl)]
    have hsplit : ∀ (rs : List Outcome) (r : Outcome), records (rs ++ [r]) =
        records rs ++ r.emitted := fun rs r => by simp [records]
    unfold heededSession session
    simp only [hdeinit, Bool.not_false, Bool.and_true]
    cases deinit with
    | false => exact ⟨hfin, hrec⟩
    | true =>
      simp only [if_true]
      exact ⟨by rw [hfin], by rw [hsplit, hsplit, hfin, hrec]⟩
  · intro pre c v suf _ hok earlier hearlier
    obtain ⟨between, rfl⟩ := hearlier
    have hle : (runCalls e earlier).1.configVersion ≤
        (runCalls e (earlier ++ between)).1.configVersion := by
      rw [runCalls_append]
      exact runCalls_configVersion_le _ between
    rcases meEventEngineReconfigure_version (e := (runCalls e (earlier ++ between)).1) c v with
      ⟨hfail, -⟩ | hlt
    · rw [hok] at hfail
      cases hfail
    · exact Nat.lt_of_le_of_lt hle hlt

/-- A START, a repeated observation, a reconfiguration to a used version and one to a new one. -/
def rejectionCalls : List Call :=
  [.process (some (demoObservation 1 1)), .process (some (demoObservation 1 1)),
    .reconfigure (some demoConfig) 1, .reconfigure (some demoConfig) 5]

theorem rejected_invisible_demo :
    (heeded demoEngine rejectionCalls).length = 2 ∧
    (∀ pre a, pre <+: rejectionCalls → a.Typed → rejected (runCalls demoEngine pre).1 a = true →
      Invisible (runCalls demoEngine pre).1 (a.apply (runCalls demoEngine pre).1)) := by
  refine ⟨by decide +kernel, (rejected_invisible demoEngine rejectionCalls ?_ ?_).1⟩
  · intro c hcall
    simp only [rejectionCalls, List.mem_cons, List.not_mem_nil, or_false] at hcall
    rcases hcall with rfl | rfl | rfl | rfl
    · exact (by decide : 1 ≤ uint64Max)
    · exact (by decide : 1 ≤ uint64Max)
    · trivial
    · trivial
  · intro pre hpre
    have hall : ∀ n ≤ 4, (runCalls demoEngine (rejectionCalls.take n)).1.nextEventSerial < 2 ∧
        (runCalls demoEngine (rejectionCalls.take n)).1.activeEvent.eventSeq < 2 := by
      decide +kernel
    obtain ⟨h1, h2⟩ := hall pre.length hpre.length_le
    rw [← List.prefix_iff_eq_take.mp hpre] at h1 h2
    have hmax : 2 ≤ uint64Max := by decide
    exact ⟨by omega, fun _ => by omega⟩

end FlowAlarm.Engine
