import FlowAlarm.Engine.Refine

/-!
# The lifecycle grammar of a session

A session is any sequence of `process`, `close` and `reconfigure` calls on an
initialised engine, optionally ended by `deinit`. Each call keeps `Wf` and
simulates the lifecycle automaton, so the records of a session decompose into
lifecycles (`session_grammar`).
-/

namespace FlowAlarm.Engine

open FlowAlarm.Text FlowAlarm.Trace

/-- An open event belongs to the stream position the engine stands at. -/
structure Wf (e : MeEventEngine) : Prop where
  haveLast : e.active = true → e.haveLastObservation = true
  haveStream : e.active = true → e.haveStream = true
  valid : e.active = true → ObservationValid e.lastObservation
  belongs : e.active = true → Belongs e e.lastObservation
  channel : e.active = true → e.channelId = e.lastObservation.channelId
  ordered : e.active = true →
    e.order.initialized = true ∧ e.order.streamEpoch = e.lastObservation.streamEpoch

theorem Wf.of_inactive {e : MeEventEngine} (h : e.active = false) : Wf e := by
  constructor <;> intro hc <;> simp [h] at hc

/-- A call that simulates the automaton and keeps the invariant. -/
structure Good (e : MeEventEngine) (r : Outcome) : Prop where
  sim : Sim e r
  wf : Wf r.engine

theorem Good.failed {e : MeEventEngine} (h : Wf e) (err : Bytes) : Good e ⟨e, [], .error err⟩ :=
  ⟨.failed err rfl, h⟩

section Calls

variable {e : MeEventEngine} {o : MeNormalizedObservation}

/-- Ending at the latest observation either fails without a trace or leaves no open event. -/
theorem endAtLast_cases (h : Wf e) (reason : MeEventReason) :
    (∃ err, endAtLast e reason = ⟨e, [], .error err⟩) ∨
    ∃ e' ends, endAtLast e reason = ⟨e', ends, .ok ends.length⟩ ∧ e'.active = false ∧
      fixedPart e' = fixedPart e ∧ Run eventReading (life e) ends (life e') := by
  unfold endAtLast
  cases ha : e.active with
  | false => exact .inr ⟨e, [], by simp, ha, rfl, .nil _⟩
  | true =>
    simp only [h.haveLast ha, Bool.and_self, if_true]
    have hk := emitEnd_keeps reason (latestPersonCount e)
      (observationTimeline e.config e.lastObservation) false ha (h.valid ha)
      (h.belongs ha)
    rcases emitEnd_eq e.lastObservation reason (latestPersonCount e)
      (observationTimeline e.config e.lastObservation) false ha with
      ⟨-, heq⟩ | ⟨e', r, heq, hact, -, hf, -⟩
    · exact .inl ⟨_, heq⟩
    · rw [heq] at hk
      exact .inr ⟨e', [r], heq, hact, hf, hk.sim.run⟩

theorem acceptObservation_good {e₀ : MeEventEngine} {before : List MeAnalyticsEvent} {emitted : Nat}
    (ho : ObservationValid o) (hb : e.active = true → Belongs e o)
    (hrun : Run eventReading (life e₀) before (life e)) (hn : emitted = before.length) :
    Good e₀ (acceptObservation e o (orderCommit o) before emitted) := by
  have hk := processAccepted_keeps (e := { e with
      order := orderCommit o
      haveStream := true
      channelId := o.channelId.snprintf meAnalyticsChannelIdMax
      streamEpoch := o.streamEpoch
      lastObservation := o
      haveLastObservation := true }) ho fun ha => ⟨(hb ha).channel, (hb ha).epoch⟩
  unfold acceptObservation
  simp only
  generalize processAccepted _ o = r at hk ⊢
  have hf := hk.fixed
  simp only [fixedPart, Prod.mk.injEq] at hf
  obtain ⟨-, -, hord, hstream, hch, -, hlast, hhave⟩ := hf
  refine ⟨⟨hrun.append hk.sim.run, ?_⟩, ?_⟩
  · intro n hret
    cases hr : r.ret with
    | error err => simp [hr, Except.map] at hret
    | ok m =>
      simp only [hr, Except.map, Except.ok.injEq] at hret
      rw [← hret, hn, hk.sim.count m hr, List.length_append]
  · refine ⟨fun _ => hhave, fun _ => hstream, fun _ => ?_, fun ha => ?_, fun _ => ?_, fun _ => ?_⟩
    · rw [hlast]
      exact ho
    · rw [hlast]
      exact hk.belongs ha
    · rw [hch, hlast, snprintf_channel ho]
    · rw [hord, hlast]
      exact ⟨rfl, rfl⟩

/-- What an accepted classification says about the epoch. -/
theorem classify_accepted {order order' : MeObservationOrder} {res : MeObservationOrderResult}
    (hc : meObservationOrderClassify order o = (order', res)) (h1 : res ≠ .invalid)
    (h2 : res ≠ .duplicate) (h3 : res ≠ .outOfOrder) :
    order' = orderCommit o ∧ (res ≠ .epochAdvance → order.initialized = true →
      order.streamEpoch = o.streamEpoch) := by
  unfold meObservationOrderClassify at hc
  split at hc
  · cases hc; exact absurd rfl h1
  split at hc
  · next hi =>
    cases hc
    exact ⟨rfl, fun _ hi' => by simp [hi'] at hi⟩
  split at hc
  · cases hc; exact absurd rfl h3
  split at hc
  · cases hc; exact ⟨rfl, fun h => absurd rfl h⟩
  split at hc
  · cases hc; exact absurd rfl h2
  split at hc
  · cases hc; exact absurd rfl h3
  split at hc
  · cases hc; exact absurd rfl h3
  · cases hc; exact ⟨rfl, fun _ _ => by omega⟩

theorem processOrdered_good {e₀ : MeEventEngine} {before : List MeAnalyticsEvent} {emitted : Nat}
    (hw : Wf e) (ho : ObservationValid o) (hch : e.active = true → e.channelId = o.channelId)
    (hrun : Run eventReading (life e₀) before (life e)) (hn : emitted = before.length) :
    Good e₀ (processOrdered e o before emitted) := by
  unfold processOrdered
  rcases hc : meObservationOrderClassify e.order o with ⟨order', res⟩
  have hacc := classify_accepted hc
  have hbelongs : res ≠ .epochAdvance → res ≠ .invalid → res ≠ .duplicate → res ≠ .outOfOrder →
      e.active = true → Belongs e o := by
    intro h0 h1 h2 h3 ha
    have hep := (hacc h1 h2 h3).2 h0 (hw.ordered ha).1
    have hb := hw.belongs ha
    exact ⟨by rw [hb.channel, ← hw.channel ha, hch ha], by rw [hb.epoch, ← (hw.ordered ha).2, hep]⟩
  cases res with
  | invalid => exact ⟨⟨hrun, by simp⟩, hw⟩
  | duplicate => exact ⟨⟨hrun, by simp [hn]⟩, hw⟩
  | outOfOrder => exact ⟨⟨hrun, by simp [hn]⟩, hw⟩
  | first =>
    obtain ⟨rfl, -⟩ := hacc (by simp) (by simp) (by simp)
    exact acceptObservation_good ho (hbelongs (by simp) (by simp) (by simp) (by simp)) hrun hn
  | accepted =>
    obtain ⟨rfl, -⟩ := hacc (by simp) (by simp) (by simp)
    exact acceptObservation_good ho (hbelongs (by simp) (by simp) (by simp) (by simp)) hrun hn
  | epochAdvance =>
    obtain ⟨rfl, -⟩ := hacc (by simp) (by simp) (by simp)
    simp only
    rcases endAtLast_cases hw .streamReset with ⟨err, heq⟩ | ⟨e', ends, heq, hact, hf, hends⟩
    · rw [heq]
      exact ⟨⟨by simpa using hrun, by simp⟩, hw⟩
    · rw [heq]
      refine acceptObservation_good ho (by simp) ?_ (by simp [hn])
      rw [life_clearRuntime, ← life_inactive hact]
      exact hrun.append hends

theorem meEventEngineProcess_good (hw : Wf e) (observation : Option MeNormalizedObservation) :
    Good e (meEventEngineProcess e observation) := by
  unfold meEventEngineProcess
  cases observation with
  | none => exact .failed hw _
  | some o =>
    simp only
    cases hv : meObservationValidate o with
    | error err => exact .failed hw err
    | ok u =>
      have ho := observationValid_of_validate hv
      simp only
      split
      · rcases endAtLast_cases hw .streamReset with ⟨err, heq⟩ | ⟨e', ends, heq, hact, hf, hends⟩
        · rw [heq]
          exact .failed hw err
        · rw [heq]
          refine processOrdered_good (.of_inactive rfl) ho (by simp) ?_ rfl
          show Run eventReading (life e) ends (life (clearRuntime e'))
          rw [life_clearRuntime, ← life_inactive hact]
          exact hends
      · next hne =>
        refine processOrdered_good hw ho (fun ha => ?_) (.nil _) rfl
        simpa [hw.haveStream ha] using hne

theorem meEventEngineClose_good (hw : Wf e) (reason : MeEventReason) :
    Good e (meEventEngineClose e reason) := by
  unfold meEventEngineClose
  split
  · exact .failed hw _
  · rcases endAtLast_cases hw reason with ⟨err, heq⟩ | ⟨e', ends, heq, hact, hf, hends⟩
    · rw [heq]
      exact .failed hw err
    · rw [heq]
      refine ⟨⟨?_, by simp⟩, .of_inactive rfl⟩
      show Run eventReading (life e) ends (life (clearRuntime e'))
      rw [life_clearRuntime, ← life_inactive hact]
      exact hends

theorem meEventEngineReconfigure_good (hw : Wf e) (config : Option MeAnalyticsConfig)
    (configVersion : Nat) : Good e (meEventEngineReconfigure e config configVersion) := by
  unfold meEventEngineReconfigure
  cases config with
  | none => exact .failed hw _
  | some config =>
    simp only
    cases meAnalyticsConfigValidate config with
    | error err => exact .failed hw err
    | ok u =>
      simp only
      cases nextConfigVersion e.configVersion configVersion with
      | error err => exact .failed hw err
      | ok nextVersion =>
        simp only
        rcases endAtLast_cases hw (if config.enabled then .reconfigured else .analyticsDisabled) with
          ⟨err, heq⟩ | ⟨e', ends, heq, hact, hf, hends⟩
        · rw [heq]
          exact .failed hw err
        · rw [heq]
          refine ⟨⟨?_, by simp⟩, .of_inactive rfl⟩
          show Run eventReading (life e) ends (life (clearRuntime e'))
          rw [life_clearRuntime, ← life_inactive hact]
          exact hends

end Calls

/-! ## Sessions -/

inductive Call where
  | process (observation : Option MeNormalizedObservation)
  | close (reason : MeEventReason)
  | reconfigure (config : Option MeAnalyticsConfig) (configVersion : Nat)

def Call.apply (e : MeEventEngine) : Call → Outcome
  | .process observation => meEventEngineProcess e observation
  | .close reason => meEventEngineClose e reason
  | .reconfigure config configVersion => meEventEngineReconfigure e config configVersion

/-- The engine after the calls, and the outcome of each call. -/
def runCalls (e : MeEventEngine) : List Call → MeEventEngine × List Outcome
  | [] => (e, [])
  | c :: cs =>
    let r := c.apply e
    let rest := runCalls r.engine cs
    (rest.1, r :: rest.2)

/-- Calls, then `deinit` if `deinit` is set. -/
def session (e : MeEventEngine) (calls : List Call) (deinit : Bool) :
    MeEventEngine × List Outcome :=
  let (e, rs) := runCalls e calls
  if deinit then
    let r := meEventEngineDeinit e
    (r.engine, rs ++ [r])
  else (e, rs)

/-- Everything handed to the sink. -/
def records (rs : List Outcome) : List MeAnalyticsEvent := rs.flatMap (·.emitted)

theorem Call.apply_good {e : MeEventEngine} (hw : Wf e) (c : Call) : Good e (c.apply e) := by
  cases c with
  | process observation => exact meEventEngineProcess_good hw observation
  | close reason => exact meEventEngineClose_good hw reason
  | reconfigure config configVersion => exact meEventEngineReconfigure_good hw config configVersion

theorem runCalls_good {e : MeEventEngine} (hw : Wf e) (calls : List Call) :
    Wf (runCalls e calls).1 ∧
      Run eventReading (life e) (records (runCalls e calls).2) (life (runCalls e calls).1) ∧
      ∀ r ∈ (runCalls e calls).2, ∀ n, r.ret = .ok n → n = r.emitted.length := by
  induction calls generalizing e with
  | nil => exact ⟨hw, .nil _, by simp [runCalls]⟩
  | cons c cs ih =>
    have hg := Call.apply_good hw c
    obtain ⟨hw', hrun, hcount⟩ := ih hg.wf
    refine ⟨hw', ?_, ?_⟩
    · simp only [runCalls, records, List.flatMap_cons]
      exact hg.sim.run.append hrun
    · intro r hr
      rcases List.mem_cons.mp hr with rfl | hr
      · exact hg.sim.count
      · exact hcount r hr

/-- A session ends in an automaton state that is open exactly while the engine is active. -/
theorem session_run {e : MeEventEngine} (hw : Wf e) (calls : List Call) (deinit : Bool) :
    ∃ s, Run eventReading (life e) (records (session e calls deinit).2) s ∧
      (s.live.isSome = (session e calls deinit).1.active) ∧
      ∀ r ∈ (session e calls deinit).2, ∀ n, r.ret = .ok n → n = r.emitted.length := by
  obtain ⟨hw', hrun, hcount⟩ := runCalls_good hw calls
  have hlive : ∀ e, (life e).live.isSome = e.active := fun e => by
    cases h : e.active <;> simp [life, h]
  unfold session
  simp only
  cases deinit with
  | false => exact ⟨_, hrun, hlive _, hcount⟩
  | true =>
    simp only [if_true, meEventEngineDeinit]
    have hsplit : ∀ r : Outcome, records ((runCalls e calls).2 ++ [r]) =
        records (runCalls e calls).2 ++ r.emitted := fun r => by simp [records]
    rcases endAtLast_cases hw' .processRestart with ⟨err, heq⟩ | ⟨e', ends, heq, hact, hf, hends⟩
    · rw [heq]
      refine ⟨_, by rw [hsplit]; simpa using hrun, hlive _, fun r hr => ?_⟩
      rcases List.mem_append.mp hr with hr | hr
      · exact hcount r hr
      · rw [List.mem_singleton.mp hr]
        simp
    · rw [heq]
      refine ⟨life e', by rw [hsplit]; exact hrun.append hends, ?_, fun r hr => ?_⟩
      · rw [hlive, hact]
      · rcases List.mem_append.mp hr with hr | hr
        · exact hcount r hr
        · rw [List.mem_singleton.mp hr]
          simp

/-- An initialised engine is well formed and idle at serial zero. -/
theorem meEventEngineInit_wf {config : Option MeAnalyticsConfig} {configVersion : Nat}
    {e : MeEventEngine} (h : meEventEngineInit config configVersion = .ok e) :
    Wf e ∧ life e = ⟨0, none⟩ := by
  unfold meEventEngineInit at h
  split at h
  · cases h
  · split at h
    · cases h
    · cases h
      exact ⟨.of_inactive rfl, rfl⟩

/-! ## Event identity -/

/-- Equal id texts have equal hashes, epochs and serials. -/
theorem eventIdText_inj {c c' : CStr} {p p' n n' : Nat}
    (h : eventIdText c p n = eventIdText c' p' n') :
    channelHash c.bytes = channelHash c'.bytes ∧ p = p' ∧ n = n' := by
  have nodash : ∀ w m : Nat, (0x2D : UInt8) ∉ hexPad w m := fun w m hm => (mem_hexPad hm).1 rfl
  simp only [eventIdText, List.append_assoc, List.append_cancel_left_eq] at h
  obtain ⟨h1, h⟩ := append_delim_inj (nodash _ _) (nodash _ _) h
  obtain ⟨h2, h3⟩ := append_delim_inj (nodash _ _) (nodash _ _) h
  exact ⟨hexPad_injective 16 h1, hexPad_injective 16 h2, hexPad_injective 16 h3⟩

/-- **The lifecycle grammar.** The records of a session are blocks START UPDATE* END numbered
1, 2, 3, … with one identity each, only the last one possibly open, and no two with one event id;
the engine is active exactly while the last block is open; and every call that succeeds returns
the number of records it emitted. -/
theorem session_grammar {config : Option MeAnalyticsConfig} {configVersion : Nat}
    {e : MeEventEngine} (h : meEventEngineInit config configVersion = .ok e) (calls : List Call)
    (deinit : Bool) :
    ∃ blocks rest, records (session e calls deinit).2 = blocks.flatten ++ rest ∧
      (∀ b ∈ blocks, ClosedBlock eventReading b) ∧
      (rest = [] ∨ ∃ i k, OpenBlock eventReading i k rest) ∧
      (blocks ++ [rest]).Pairwise (fun b c => ∀ x ∈ b, ∀ y ∈ c, x.eventId ≠ y.eventId) ∧
      ((session e calls deinit).1.active = true ↔ rest ≠ []) ∧
      ∀ r ∈ (session e calls deinit).2, ∀ n, r.ret = .ok n → n = r.emitted.length := by
  obtain ⟨hw, hl⟩ := meEventEngineInit_wf h
  obtain ⟨s, hrun, hlive, hcount⟩ := session_run hw calls deinit
  rw [hl] at hrun
  obtain ⟨blocks, rest, hd⟩ := Decomposition.init.run hrun
  have hdist := hd.distinct MeAnalyticsEvent.eventId fun {x y m n} hx hy hxy => by
    have hx : x.eventId.bytes = eventIdText x.channelId x.streamEpoch m := hx
    have hy : y.eventId.bytes = eventIdText y.channelId y.streamEpoch n := hy
    rw [hxy, hy] at hx
    exact (eventIdText_inj hx).2.2.symm
  refine ⟨blocks, rest, by simpa using hd.eq, hd.closed, ?_, hdist, ?_, hcount⟩
  · have := hd.live
    split at this
    · exact .inl this.1
    · exact .inr ⟨_, _, this.2.1⟩
  · rw [← hlive]
    have := hd.live
    split at this
    · next hs => simp [hs, this.1]
    · next hs => simpa [hs] using this.2.1.ne_nil

/-! ### A session with two events -/

def demoConfig : MeAnalyticsConfig :=
  { meAnalyticsConfigDefaults with
    enabled := true
    model := .ofBytes (ascii "person") (by decide)
    width := 640
    height := 360
    fps := 10
    confirmFrames := 1
    debounceMs := 0 }

theorem demoChannel_nonul : 0 ∉ ascii "camera-0" := by decide

theorem demoBackend_nonul : 0 ∉ ascii "rockiva" := by decide

theorem demoVersion_nonul : 0 ∉ ascii "1" := by decide

/-- One person in the frame. -/
def demoObservation (epoch frame : Nat) : MeNormalizedObservation :=
  { meObservationInit with
    channelId := .ofBytes (ascii "camera-0") demoChannel_nonul
    streamEpoch := epoch
    frameId := frame
    frameWidth := 640
    frameHeight := 360
    backendName := .ofBytes (ascii "rockiva") demoBackend_nonul
    backendVersion := .ofBytes (ascii "1") demoVersion_nonul
    modelVersion := .ofBytes (ascii "1") demoVersion_nonul
    tracks := [⟨7, .person, .active, ⟨0, 0, 100, 100⟩, 9000⟩] }

def demoEngine : MeEventEngine := { config := demoConfig, configVersion := 1 }

def demoCalls : List Call :=
  [.process (some (demoObservation 1 1)), .process (some (demoObservation 2 1))]

theorem session_grammar_demo :
    meEventEngineInit (some demoConfig) 0 = .ok demoEngine ∧
    (records (session demoEngine demoCalls true).2).map (·.phase) =
      [.start, .end_, .start, .end_] ∧
    ∃ blocks rest, records (session demoEngine demoCalls true).2 = blocks.flatten ++ rest ∧
      (∀ b ∈ blocks, ClosedBlock eventReading b) ∧
      (rest = [] ∨ ∃ i k, OpenBlock eventReading i k rest) ∧
      (blocks ++ [rest]).Pairwise (fun b c => ∀ x ∈ b, ∀ y ∈ c, x.eventId ≠ y.eventId) ∧
      ((session demoEngine demoCalls true).1.active = true ↔ rest ≠ []) ∧
      ∀ r ∈ (session demoEngine demoCalls true).2, ∀ n, r.ret = .ok n → n = r.emitted.length :=
  ⟨rfl, by decide, @session_grammar (some demoConfig) 0 _ rfl demoCalls true⟩

end FlowAlarm.Engine
