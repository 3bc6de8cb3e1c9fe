import FlowAlarm.Codec.RoundTrips
import FlowAlarm.Engine.Emitted

/-!
# The records of a session through the codec

A record of a session whose observations are within their C types is one the
codec takes (`session_emittable`), and one the decoder accepts when it accepts
the 64-bit integers of the observations (`session_accepted`).
-/

namespace FlowAlarm.Codec

open FlowAlarm.Text FlowAlarm.Trace FlowAlarm.Engine

/-- The fields are within their C types. -/
structure Typed (o : MeNormalizedObservation) : Prop where
  epoch : o.streamEpoch < 2 ^ 64
  pts : o.sourcePts < 2 ^ 63
  time : o.captureTimeUs < 2 ^ 63
  timebase : o.sourceTimebase.num < 2 ^ 32 ∧ o.sourceTimebase.den < 2 ^ 32
  frame : o.frameId < 2 ^ 64
  trackIds : ∀ f ∈ o.rules, f.trackId < 2 ^ 64

/-- The 64-bit integers of an observation that records carry. -/
def wideInputs (o : MeNormalizedObservation) : List ℕ :=
  [o.streamEpoch, o.captureTimeUs.toNat, o.sourcePts.toNat, o.frameId] ++ o.rules.map (·.trackId)

/-- The decoder accepts every 64-bit integer of the observation. -/
def Legible (o : MeNormalizedObservation) : Prop := ∀ v ∈ wideInputs o, (readNat v).isSome

instance (o : MeNormalizedObservation) : Decidable (Legible o) :=
  inferInstanceAs (Decidable (∀ v ∈ wideInputs o, _))

def typedSource : Source where
  observation := Typed
  trackId id := id < 2 ^ 64
  version v := v ≤ uint64Max
  trackIds _ h := h.trackIds

/-- Version 1 is the one `engine_init` passes, and nothing reconfigures the engine. -/
def legibleSource : Source where
  observation := Legible
  trackId id := (readNat id).isSome
  version v := v = 1
  trackIds _ h f hf := h f.trackId (List.mem_append_right _ (List.mem_map_of_mem hf))

/-- The record as the engine's callback stores it. -/
def withEvidence (event : MeAnalyticsEvent) (id : CStr) : MeAnalyticsEvent :=
  { event with evidenceId := id }

@[simp] theorem withEvidence_phase (event : MeAnalyticsEvent) (id : CStr) :
    (withEvidence event id).phase = event.phase := rfl

@[simp] theorem withEvidence_eventId (event : MeAnalyticsEvent) (id : CStr) :
    (withEvidence event id).eventId = event.eventId := rfl

/-- The time of a record is the capture time of a trusted clock, and never negative. -/
theorem InContext.time_cases {r : MeAnalyticsEvent} {o : MeNormalizedObservation}
    (h : InContext r o) (ho : ObservationValid o) :
    0 ≤ r.eventTimeUs ∧ (r.eventTimeUs = 0 ∨ r.eventTimeUs = o.captureTimeUs) := by
  have hclock := ho.clock
  unfold validateClock at hclock
  rw [h.time]
  cases hc : o.clockState with
  | synced =>
    simp only [hc] at hclock
    split at hclock
    · cases hclock
    · exact ⟨by simp; omega, .inr (by simp)⟩
  | estimated =>
    simp only [hc] at hclock
    split at hclock
    · cases hclock
    · exact ⟨by simp; omega, .inr (by simp)⟩
  | unavailable => exact ⟨by simp, .inl (by simp)⟩
  | invalid => exact ⟨by simp, .inl (by simp)⟩
  | other code => exact ⟨by simp, .inl (by simp)⟩

theorem clock_known {o : MeNormalizedObservation} (ho : ObservationValid o) (code : ℕ) :
    o.clockState ≠ .other code := by
  intro hc
  have hclock := ho.clock
  simp [validateClock, hc] at hclock

theorem pts_nonneg {o : MeNormalizedObservation} (ho : ObservationValid o) : 0 ≤ o.sourcePts := by
  have := ho.pts
  split at this
  · exact this
  · omega

theorem emittable_of_reported {r : MeAnalyticsEvent} (h : Reported typedSource r) {id : CStr}
    (hid : id.bytes.length < meAnalyticsEvidenceIdMax) : Emittable (withEvidence r id) := by
  obtain ⟨o, ht, ho, hc⟩ := h.context
  have ht : Typed o := ht
  obtain ⟨htime, htime'⟩ := InContext.time_cases hc ho
  have hperson := h.person
  have hin := h.deltaIn
  have hout := h.deltaOut
  have hseq := h.genuine.seq
  have hver : r.configVersion ≤ uint64Max := h.genuine.version
  simp only [uint32Max, uint64Max, meAnalyticsMaxTracks] at hperson hin hout hseq hver
  exact {
    contract := h.genuine.contract
    eventId := h.genuine.eventId
    channelId := by
      simp only [withEvidence, hc.channel]
      exact ho.channel
    epoch := by
      simp only [withEvidence, hc.epoch]
      exact ⟨ho.epoch_pos, ht.epoch⟩
    eventType := h.genuine.eventType
    ruleId := h.genuine.ruleId
    phase := h.phase
    seq := ⟨hseq.1, by simp only [withEvidence]; omega⟩
    reason := h.reason
    time := by
      refine ⟨htime, ?_⟩
      rcases htime' with h0 | h0
      · simp only [withEvidence, h0]
        norm_num
      · simp only [withEvidence, h0]
        exact ht.time
    clock := by
      simp only [withEvidence, hc.clock]
      exact clock_known ho
    pts := by
      simp only [withEvidence, hc.pts]
      exact ⟨pts_nonneg ho, ht.pts⟩
    timebase := by
      simp only [withEvidence, hc.timebase]
      exact ht.timebase
    frame := by
      simp only [withEvidence, hc.frame]
      exact ⟨ho.frame_pos, ht.frame⟩
    person := by simp only [withEvidence]; omega
    deltaIn := by simp only [withEvidence]; omega
    deltaOut := by simp only [withEvidence]; omega
    tracks := h.genuine.tracks
    trackIds := h.genuine.trackIds
    config := by simp only [withEvidence]; omega
    evidence := hid }

theorem readNat_of_lt {v : ℕ} (h : v < 2 ^ 32) : (readNat v).isSome := by
  rw [readNat_eq_self.mpr (exactNat_of_lt h)]
  rfl

theorem accepted_of_reported {r : MeAnalyticsEvent} (h : Reported legibleSource r)
    (hseq : r.eventSeq < 2 ^ 32) (id : CStr) : Accepted (withEvidence r id) := by
  obtain ⟨o, hl, ho, hc⟩ := h.context
  have hl : Legible o := hl
  simp only [Legible, wideInputs, List.cons_append, List.nil_append, List.forall_mem_cons] at hl
  obtain ⟨hep, hti, hpt, hfr, -⟩ := hl
  have hver : r.configVersion = 1 := h.genuine.version
  simp only [Accepted, wideFields, withEvidence, List.cons_append, List.nil_append,
    List.forall_mem_cons]
  refine ⟨hc.epoch ▸ hep, readNat_of_lt hseq, ?_, hc.pts ▸ hpt, hc.frame ▸ hfr, ?_,
    h.genuine.trackIds⟩
  · rcases (InContext.time_cases hc ho).2 with h0 | h0
    · rw [h0]
      exact readNat_of_lt (by norm_num)
    · rw [h0]
      exact hti
  · rw [hver]
    exact readNat_of_lt (by norm_num)

/-- **What a session emits, the codec takes.** -/
theorem session_emittable {config : Option MeAnalyticsConfig} {configVersion : ℕ}
    {e : MeEventEngine} (h : meEventEngineInit config configVersion = .ok e)
    (hver : e.configVersion ≤ uint64Max) {calls : List Call}
    (hg : ∀ c ∈ calls, c.Given typedSource) (deinit : Bool) {id : CStr}
    (hid : id.bytes.length < meAnalyticsEvidenceIdMax) :
    ∀ r ∈ records (session e calls deinit).2, Emittable (withEvidence r id) :=
  fun r hr => emittable_of_reported (session_reported (S := typedSource) h hver hg deinit r hr) hid

/-! ## Sequence numbers -/

theorem session_seq_le {config : Option MeAnalyticsConfig} {configVersion : ℕ}
    {e : MeEventEngine} (h : meEventEngineInit config configVersion = .ok e) (calls : List Call)
    (deinit : Bool) {m : ℕ} {r : MeAnalyticsEvent}
    (hr : (records (session e calls deinit).2)[m]? = some r) : r.eventSeq ≤ m + 1 := by
  obtain ⟨hw, hl⟩ := meEventEngineInit_wf h
  obtain ⟨s, hrun, -, -⟩ := session_run hw calls deinit
  rw [hl] at hrun
  have hseq : r.eventSeq ≤ 0 + m + 1 := hrun.seq_le (by simp) m r hr
  omega

theorem meEventEngineInit_version {config : Option MeAnalyticsConfig} {e : MeEventEngine}
    (h : meEventEngineInit config 1 = .ok e) : e.configVersion = 1 := by
  unfold meEventEngineInit at h
  split at h
  · cases h
  · split at h
    · cases h
    · cases h
      rfl

/-- **What a session emits, the decoder accepts** if it accepts the integers it was given. -/
theorem session_accepted {config : Option MeAnalyticsConfig} {e : MeEventEngine}
    (h : meEventEngineInit config 1 = .ok e) {calls : List Call}
    (hg : ∀ c ∈ calls, c.Given legibleSource) (deinit : Bool) {m : ℕ} (hm : m + 1 < 2 ^ 32)
    {r : MeAnalyticsEvent} (hr : (records (session e calls deinit).2)[m]? = some r) (id : CStr) :
    Accepted (withEvidence r id) := by
  have hver := meEventEngineInit_version h
  have hseq := session_seq_le h calls deinit hr
  exact accepted_of_reported (session_reported (S := legibleSource) h hver hg deinit r
    (List.mem_of_getElem? hr)) (by omega) id

end FlowAlarm.Codec
