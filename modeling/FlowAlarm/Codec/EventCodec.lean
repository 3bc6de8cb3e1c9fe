import FlowAlarm.Codec.CJson
import FlowAlarm.Engine.EventEngine

/-!
# The event codec

`event_codec.c`: an event as a cJSON object and back. Integers travel as
doubles through cJSON's printer, the decoder accepts integral doubles up to
2^53 - 1. `meAnalyticsEventFromJson_toJson` says exactly which events decode to
themselves.
-/

namespace FlowAlarm.Codec

open FlowAlarm.Text FlowAlarm.Num FlowAlarm.CJson FlowAlarm.Engine

def meAnalyticsEvidenceIdMax : Nat := 96

/-! ## Names -/

def meRuleTypeName : MeRuleType → Bytes
  | .occupancy => ascii "occupancy"
  | .lineCross => ascii "line_cross"
  | .intrusion => ascii "intrusion"
  | _ => ascii "unknown"

def meEventPhaseName : MeEventPhase → Bytes
  | .start => ascii "START"
  | .update => ascii "UPDATE"
  | .end_ => ascii "END"
  | .other _ => ascii "UNKNOWN"

def meEventReasonName : MeEventReason → Bytes
  | .none => ascii "none"
  | .confirmed => ascii "confirmed"
  | .countChanged => ascii "count_changed"
  | .direction => ascii "direction"
  | .disappeared => ascii "disappeared"
  | .streamReset => ascii "stream_reset"
  | .reconfigured => ascii "reconfigured"
  | .analyticsDisabled => ascii "analytics_disabled"
  | .processRestart => ascii "process_restart"
  | .other _ => ascii "unknown"

def meClockStateName : MeClockState → Bytes
  | .unavailable => ascii "unavailable"
  | .synced => ascii "synced"
  | .estimated => ascii "estimated"
  | .invalid => ascii "invalid"
  | .other _ => ascii "unknown"

/-- The first entry of a name table that matches. -/
def parseName {α : Type} (names : List (Bytes × α)) (value : Bytes) : Option α :=
  (names.find? fun n => n.1 == value).map (·.2)

def parseRuleType : Bytes → Option MeRuleType :=
  parseName [(ascii "occupancy", .occupancy), (ascii "line_cross", .lineCross),
    (ascii "intrusion", .intrusion)]

def parsePhase : Bytes → Option MeEventPhase :=
  parseName [(ascii "START", .start), (ascii "UPDATE", .update), (ascii "END", .end_)]

def parseReason : Bytes → Option MeEventReason :=
  parseName [(ascii "none", .none), (ascii "confirmed", .confirmed),
    (ascii "count_changed", .countChanged), (ascii "direction", .direction),
    (ascii "disappeared", .disappeared), (ascii "stream_reset", .streamReset),
    (ascii "reconfigured", .reconfigured), (ascii "analytics_disabled", .analyticsDisabled),
    (ascii "process_restart", .processRestart)]

def parseClockState : Bytes → Option MeClockState :=
  parseName [(ascii "unavailable", .unavailable), (ascii "synced", .synced),
    (ascii "estimated", .estimated), (ascii "invalid", .invalid)]

/-! ## Encoding -/

/-- A number item holding the double `d`. -/
def numberItem (d : ℚ) : Json := .num (printNumber d)

/-- `(double)value` of an unsigned field. -/
def natItem (v : ℕ) : Json := numberItem (binary64 (v : ℚ))

/-- `(double)value` of a signed field. -/
def intItem (v : ℤ) : Json := numberItem (binary64 (v : ℚ))

def stringItem (s : CStr) : Json := .str s.bytes

def eventMembers (event : MeAnalyticsEvent) : List (Bytes × Json) :=
  [(ascii "contract_version", natItem event.contractVersion),
    (ascii "event_id", stringItem event.eventId),
    (ascii "channel_id", stringItem event.channelId),
    (ascii "stream_epoch", natItem event.streamEpoch),
    (ascii "event_type", .str (meRuleTypeName event.eventType)),
    (ascii "rule_id", stringItem event.ruleId),
    (ascii "phase", .str (meEventPhaseName event.phase)),
    (ascii "event_seq", natItem event.eventSeq),
    (ascii "reason", .str (meEventReasonName event.reason)),
    (ascii "event_time_us", intItem event.eventTimeUs),
    (ascii "clock_state", .str (meClockStateName event.clockState)),
    (ascii "source_pts_valid", .bool event.sourcePtsValid),
    (ascii "source_pts", intItem event.sourcePts),
    (ascii "source_timebase", .obj [(ascii "num", natItem event.sourceTimebase.num),
      (ascii "den", natItem event.sourceTimebase.den)]),
    (ascii "frame_id", natItem event.frameId),
    (ascii "person_count", natItem event.personCount),
    (ascii "delta_in", natItem event.deltaIn),
    (ascii "delta_out", natItem event.deltaOut),
    (ascii "config_version", natItem event.configVersion),
    (ascii "evidence_id", stringItem event.evidenceId),
    (ascii "responsible_track_count", natItem event.responsibleTrackIds.length),
    (ascii "responsible_track_ids", .arr (event.responsibleTrackIds.map natItem))]

def meAnalyticsEventToJson (event : MeAnalyticsEvent) : Option Json :=
  if meAnalyticsEventMaxTracks < event.responsibleTrackIds.length then none
  else some (.obj (eventMembers event))

/-! ## Decoding -/

def meJsonSafeInteger : ℚ := 9007199254740991

/-- An integral double from zero to 2^53 - 1. -/
def safeNat (number : ℚ) : Option ℕ :=
  if number < 0 ∨ number ≠ ⌊number⌋ ∨ meJsonSafeInteger < number then none
  else some ⌊number⌋.toNat

/-- `strtoull(s, &end, 10)` without range error and up to the terminator. -/
def strtoull (s : Bytes) : Option ℕ :=
  if s ≠ [] ∧ s.all isDigit ∧ decVal s ≤ uint64Max then some (decVal s) else none

/-- `strtoll(s, &end, 10)` without range error and up to the terminator. -/
def strtoll (s : Bytes) : Option ℤ :=
  let (neg, _, ds) := scanSign (s.dropWhile isCSpace)
  let v : ℤ := if neg then -(decVal ds : ℤ) else decVal ds
  if ds ≠ [] ∧ ds.all isDigit ∧ -(2 ^ 63 : ℤ) ≤ v ∧ v ≤ 2 ^ 63 - 1 then some v else none

def jsonU64 (object : Json) (key : Bytes) : Option ℕ :=
  match getObjectItem object key with
  | some (.num lit) => safeNat (valueDouble lit)
  | some (.str s) => strtoull (cString s)
  | _ => none

def jsonI64 (object : Json) (key : Bytes) : Option ℤ :=
  match getObjectItem object key with
  | some (.num lit) =>
    let number := valueDouble lit
    if number ≠ ⌊number⌋ ∨ number < -meJsonSafeInteger ∨ meJsonSafeInteger < number then none
    else some ⌊number⌋
  | some (.str s) => if cString s = [] then none else strtoll (cString s)
  | _ => none

def jsonU32 (object : Json) (key : Bytes) : Option ℕ :=
  (jsonU64 object key).bind fun v => if uint32Max < v then none else some v

def jsonBool (object : Json) (key : Bytes) : Option Bool :=
  match getObjectItem object key with
  | some (.bool b) => some b
  | _ => none

/-- The `valuestring` of a string member. -/
def jsonText (object : Json) (key : Bytes) : Option Bytes :=
  match getObjectItem object key with
  | some (.str s) => some (cString s)
  | _ => none

theorem cString_nonul (s : Bytes) : 0 ∉ cString s := by
  intro h
  have := List.mem_takeWhile_imp h
  simp at this

def jsonString (object : Json) (key : Bytes) (outsz : ℕ) : Option CStr :=
  match getObjectItem object key with
  | some (.str s) =>
    if outsz ≤ (cString s).length then none else some ⟨cString s, cString_nonul s⟩
  | _ => none

/-- A track id in the array: a number only. -/
def trackId : Json → Option ℕ
  | .num lit => safeNat (valueDouble lit)
  | _ => none

/-- Fails with `err` where there is no value. -/
def orErr {α : Type} (err : Bytes) : Option α → Except Bytes α
  | none => .error err
  | some a => .ok a

def errIdentity : Bytes := ascii "event JSON is missing required identity fields"
def errTiming : Bytes := ascii "event JSON has invalid sequence or timing"
def errPayload : Bytes := ascii "event JSON has invalid payload fields"
def errTracks : Bytes := ascii "event JSON has invalid responsible tracks"

/-- The `source_timebase` member, if it is an object. -/
def timebaseItem (object : Json) : Option Json :=
  match getObjectItem object (ascii "source_timebase") with
  | some (.obj ms) => some (.obj ms)
  | _ => none

def trackItems (object : Json) (trackCount : ℕ) : Option (List Json) :=
  match getObjectItem object (ascii "responsible_track_ids") with
  | some (.arr items) =>
    if meAnalyticsEventMaxTracks < trackCount ∨ items.length ≠ trackCount then none
    else some items
  | _ => none

def isObject : Json → Bool
  | .obj _ => true
  | _ => false

/-- The fields a decoded event may not have zero or empty. -/
def zeroIdentity (event : MeAnalyticsEvent) : Bool :=
  event.contractVersion == 0 || event.eventId.bytes == [] || event.channelId.bytes == [] ||
    event.streamEpoch == 0 || event.eventSeq == 0 || event.frameId == 0

def meAnalyticsEventFromJson (object : Json) : Except Bytes MeAnalyticsEvent :=
  if !isObject object then .error (ascii "event JSON must be an object")
  else do
    let contractVersion ← orErr errIdentity (jsonU32 object (ascii "contract_version"))
    let eventId ← orErr errIdentity (jsonString object (ascii "event_id") meAnalyticsEventIdMax)
    let channelId ←
      orErr errIdentity (jsonString object (ascii "channel_id") meAnalyticsChannelIdMax)
    let streamEpoch ← orErr errIdentity (jsonU64 object (ascii "stream_epoch"))
    let ruleId ← orErr errIdentity (jsonString object (ascii "rule_id") meAnalyticsRuleIdMax)
    let _ ← orErr errIdentity (jsonString object (ascii "phase") 8)
    let eventType ← orErr (ascii "event JSON has invalid event_type")
      ((jsonText object (ascii "event_type")).bind parseRuleType)
    let phase ← orErr (ascii "event JSON has invalid phase")
      ((jsonText object (ascii "phase")).bind parsePhase)
    let reason ← orErr (ascii "event JSON has invalid reason")
      ((jsonText object (ascii "reason")).bind parseReason)
    let clockState ← orErr (ascii "event JSON has invalid clock_state")
      ((jsonText object (ascii "clock_state")).bind parseClockState)
    let eventSeq ← orErr errTiming (jsonU64 object (ascii "event_seq"))
    let eventTimeUs ← orErr errTiming (jsonI64 object (ascii "event_time_us"))
    let sourcePtsValid ← orErr errTiming (jsonBool object (ascii "source_pts_valid"))
    let sourcePts ← orErr errTiming (jsonI64 object (ascii "source_pts"))
    let timebase ← orErr errPayload (timebaseItem object)
    let num ← orErr errPayload (jsonU32 timebase (ascii "num"))
    let den ← orErr errPayload (jsonU32 timebase (ascii "den"))
    let frameId ← orErr errPayload (jsonU64 object (ascii "frame_id"))
    let personCount ← orErr errPayload (jsonU32 object (ascii "person_count"))
    let deltaIn ← orErr errPayload (jsonU32 object (ascii "delta_in"))
    let deltaOut ← orErr errPayload (jsonU32 object (ascii "delta_out"))
    let configVersion ← orErr errPayload (jsonU64 object (ascii "config_version"))
    let evidenceId ←
      orErr errPayload (jsonString object (ascii "evidence_id") meAnalyticsEvidenceIdMax)
    let trackCount ← orErr errPayload (jsonU32 object (ascii "responsible_track_count"))
    let items ← orErr errTracks (trackItems object trackCount)
    let trackIds ← orErr (ascii "event JSON has invalid track id") (items.mapM trackId)
    let event : MeAnalyticsEvent :=
      { contractVersion := contractVersion
        eventId := eventId
        channelId := channelId
        streamEpoch := streamEpoch
        eventType := eventType
        ruleId := ruleId
        phase := phase
        eventSeq := eventSeq
        reason := reason
        eventTimeUs := eventTimeUs
        clockState := clockState
        sourcePts := sourcePts
        sourcePtsValid := sourcePtsValid
        sourceTimebase := ⟨num, den⟩
        frameId := frameId
        personCount := personCount
        deltaIn := deltaIn
        deltaOut := deltaOut
        responsibleTrackIds := trackIds
        configVersion := configVersion
        evidenceId := evidenceId }
    if zeroIdentity event then .error (ascii "event JSON has invalid zero identity")
    else .ok event

/-! ## Round trip -/

/-- The events the engine can emit, with an evidence id attached: validated texts and states,
fields within their C types. `session_emittable` connects this to the engine. -/
structure Emittable (event : MeAnalyticsEvent) : Prop where
  contract : event.contractVersion = meAnalyticsEventContractVersion
  eventId : event.eventId.bounded meAnalyticsEventIdMax = true
  channelId : event.channelId.bounded meAnalyticsChannelIdMax = true
  epoch : 0 < event.streamEpoch ∧ event.streamEpoch < 2 ^ 64
  eventType : validRuleType event.eventType = true
  ruleId : event.ruleId.bytes.length < meAnalyticsRuleIdMax
  phase : event.phase = .start ∨ event.phase = .update ∨ event.phase = .end_
  seq : 0 < event.eventSeq ∧ event.eventSeq < 2 ^ 64
  reason : ∀ code, event.reason ≠ .other code
  time : 0 ≤ event.eventTimeUs ∧ event.eventTimeUs < 2 ^ 63
  clock : ∀ code, event.clockState ≠ .other code
  pts : 0 ≤ event.sourcePts ∧ event.sourcePts < 2 ^ 63
  timebase : event.sourceTimebase.num < 2 ^ 32 ∧ event.sourceTimebase.den < 2 ^ 32
  frame : 0 < event.frameId ∧ event.frameId < 2 ^ 64
  person : event.personCount < 2 ^ 32
  deltaIn : event.deltaIn < 2 ^ 32
  deltaOut : event.deltaOut < 2 ^ 32
  tracks : event.responsibleTrackIds.length ≤ meAnalyticsEventMaxTracks
  trackIds : ∀ id ∈ event.responsibleTrackIds, id < 2 ^ 64
  config : event.configVersion < 2 ^ 64
  evidence : event.evidenceId.bytes.length < meAnalyticsEvidenceIdMax

/-- The 64-bit integers an event carries. -/
def wideFields (event : MeAnalyticsEvent) : List ℕ :=
  [event.streamEpoch, event.eventSeq, event.eventTimeUs.toNat, event.sourcePts.toNat, event.frameId,
    event.configVersion] ++ event.responsibleTrackIds

theorem orErr_bind_eq_ok {α β : Type} {err : Bytes} {o : Option α} {f : α → Except Bytes β}
    {r : β} : (orErr err o >>= f) = .ok r ↔ ∃ a, o = some a ∧ f a = .ok r := by
  cases o <;> simp [orErr, bind, Except.bind]

/-- What the decoder makes of a printed unsigned integer. -/
def readNat (v : ℕ) : Option ℕ := safeNat (valueDouble (printNumber (binary64 (v : ℚ))))

theorem safeNat_eq_some {number : ℚ} {v : ℕ} (h : safeNat number = some v) :
    number = v ∧ v < 2 ^ 53 := by
  unfold safeNat at h
  split at h
  · cases h
  · next hc =>
    simp only [not_or, not_lt, not_not, Option.some.injEq] at hc h
    obtain ⟨h0, hfl, hle⟩ := hc
    have hnn : 0 ≤ ⌊number⌋ := Int.floor_nonneg.mpr h0
    have hcast : ((v : ℕ) : ℤ) = ⌊number⌋ := by omega
    have hv : number = (v : ℚ) := by
      rw [hfl, ← hcast]
      push_cast
      rfl
    refine ⟨hv, ?_⟩
    rw [hv, meJsonSafeInteger] at hle
    have : v ≤ 9007199254740991 := by exact_mod_cast hle
    omega

theorem safeNat_natCast {v : ℕ} (h : v < 2 ^ 53) : safeNat (v : ℚ) = some v := by
  have h0 : ¬ (v : ℚ) < 0 := not_lt.mpr (by positivity)
  have hle : ¬ meJsonSafeInteger < (v : ℚ) := by
    rw [meJsonSafeInteger, not_lt]
    have : v ≤ 9007199254740991 := by omega
    exact_mod_cast this
  simp [safeNat, h0, hle]

theorem readNat_eq_self {v : ℕ} : readNat v = some v ↔ ExactNat v := by
  constructor
  · intro h
    obtain ⟨hval, hlt⟩ := safeNat_eq_some h
    rw [binary64_natCast hlt] at hval
    exact (valueDouble_printNumber hlt).mp hval
  · intro h
    rw [readNat, binary64_natCast h.1, (valueDouble_printNumber h.1).mpr h]
    exact safeNat_natCast h.1

theorem exactNat_of_lt {v : ℕ} (h : v < 2 ^ 32) : ExactNat v := ⟨by omega, .inl (by omega)⟩

/-! ### Looking up the members -/

def eventKeys : List Bytes :=
  [ascii "contract_version", ascii "event_id", ascii "channel_id", ascii "stream_epoch",
    ascii "event_type", ascii "rule_id", ascii "phase", ascii "event_seq", ascii "reason",
    ascii "event_time_us", ascii "clock_state", ascii "source_pts_valid", ascii "source_pts",
    ascii "source_timebase", ascii "frame_id", ascii "person_count", ascii "delta_in",
    ascii "delta_out", ascii "config_version", ascii "evidence_id",
    ascii "responsible_track_count", ascii "responsible_track_ids"]

theorem eventKeys_nodup : eventKeys.Nodup := by decide

theorem eventKeys_nonul : ∀ k ∈ eventKeys, 0 ∉ k := by decide

theorem eventMembers_keys (event : MeAnalyticsEvent) :
    (eventMembers event).map (·.1) = eventKeys := rfl

theorem getObjectItem_event (event : MeAnalyticsEvent) (i : Nat) {k : Bytes} {j : Json}
    (h : (eventMembers event)[i]? = some (k, j)) :
    getObjectItem (.obj (eventMembers event)) k = some j := by
  refine getObjectItem_of_getElem? (fun m hm => eventKeys_nonul m.1 ?_) ?_ h
  · rw [← eventMembers_keys event]
    exact List.mem_map_of_mem hm
  · rw [eventMembers_keys]
    exact eventKeys_nodup

section Members

variable {object : Json} {key : Bytes}

theorem jsonU64_natItem {v : ℕ} (h : getObjectItem object key = some (natItem v)) :
    jsonU64 object key = readNat v := by
  simp only [jsonU64, h, natItem, numberItem, readNat]

theorem jsonU32_natItem {v : ℕ} (h : getObjectItem object key = some (natItem v))
    (hv : v < 2 ^ 32) : jsonU32 object key = some v := by
  have hle : ¬ uint32Max < v := by simp only [uint32Max]; omega
  rw [jsonU32, jsonU64_natItem h, readNat_eq_self.mpr (exactNat_of_lt hv), Option.bind_some,
    if_neg hle]

theorem jsonI64_intItem {z : ℤ} (h : getObjectItem object key = some (intItem z)) (hz : 0 ≤ z) :
    jsonI64 object key = (readNat z.toNat).map Int.ofNat := by
  obtain ⟨v, rfl⟩ := Int.eq_ofNat_of_zero_le hz
  have hcast : (((v : ℕ) : ℤ) : ℚ) = (v : ℚ) := by push_cast; rfl
  obtain ⟨d, hd, -⟩ := binary64_nat v
  have hnn : 0 ≤ valueDouble (printNumber (binary64 (v : ℚ))) :=
    hd ▸ (natLit_printNumber d).valueDouble_nonneg
  simp only [jsonI64, h, intItem, numberItem, hcast, Int.toNat_natCast, readNat, safeNat]
  generalize valueDouble (printNumber (binary64 (v : ℚ))) = number at hnn
  have hneg : ¬ number < -meJsonSafeInteger := by
    rw [meJsonSafeInteger]
    linarith
  have hfl : (⌊number⌋.toNat : ℤ) = ⌊number⌋ := Int.toNat_of_nonneg (Int.floor_nonneg.mpr hnn)
  simp only [hneg, false_or, not_lt.mpr hnn]
  split
  · rfl
  · rw [Option.map_some, Int.ofNat_eq_natCast, hfl]

theorem jsonString_stringItem {s : CStr} {outsz : ℕ}
    (h : getObjectItem object key = some (stringItem s)) (hs : s.bytes.length < outsz) :
    jsonString object key outsz = some s := by
  have hc := cString_eq_self s.nonul
  simp only [jsonString, h, stringItem, hc, if_neg (not_le.mpr hs)]

theorem jsonText_str {s : Bytes} (h : getObjectItem object key = some (.str s)) (hs : 0 ∉ s) :
    jsonText object key = some s := by
  simp only [jsonText, h, cString_eq_self hs]

end Members

/-! ### Names read back -/

theorem parseRuleType_name {t : MeRuleType} (h : validRuleType t = true) :
    parseRuleType (meRuleTypeName t) = some t ∧ 0 ∉ meRuleTypeName t := by
  cases t with
  | occupancy => exact ⟨rfl, by decide⟩
  | lineCross => exact ⟨rfl, by decide⟩
  | intrusion => exact ⟨rfl, by decide⟩
  | unknown => cases h
  | other code => cases h

theorem parsePhase_name {p : MeEventPhase} (h : p = .start ∨ p = .update ∨ p = .end_) :
    parsePhase (meEventPhaseName p) = some p ∧ 0 ∉ meEventPhaseName p ∧
      (meEventPhaseName p).length < 8 := by
  rcases h with rfl | rfl | rfl <;> exact ⟨rfl, by decide, by decide⟩

theorem parseReason_name {r : MeEventReason} (h : ∀ code, r ≠ .other code) :
    parseReason (meEventReasonName r) = some r ∧ 0 ∉ meEventReasonName r := by
  cases r with
  | other code => exact absurd rfl (h code)
  | _ => exact ⟨rfl, by decide⟩

theorem parseClockState_name {c : MeClockState} (h : ∀ code, c ≠ .other code) :
    parseClockState (meClockStateName c) = some c ∧ 0 ∉ meClockStateName c := by
  cases c with
  | other code => exact absurd rfl (h code)
  | _ => exact ⟨rfl, by decide⟩

/-- What the decoder makes of an encoded event: every 64-bit integer is read back on its own,
everything else returns as it was. -/
theorem fromJson_eventMembers {event event' : MeAnalyticsEvent} (h : Emittable event) :
    meAnalyticsEventFromJson (.obj (eventMembers event)) = .ok event' ↔
      ∃ epoch seq time pts frame version ids, readNat event.streamEpoch = some epoch ∧
        readNat event.eventSeq = some seq ∧ readNat event.eventTimeUs.toNat = some time ∧
        readNat event.sourcePts.toNat = some pts ∧ readNat event.frameId = some frame ∧
        readNat event.configVersion = some version ∧
        event.responsibleTrackIds.mapM readNat = some ids ∧
        epoch ≠ 0 ∧ seq ≠ 0 ∧ frame ≠ 0 ∧
        event' = { event with
          streamEpoch := epoch, eventSeq := seq, eventTimeUs := time, sourcePts := pts
          frameId := frame, configVersion := version, responsibleTrackIds := ids } := by
  have hcap : ∀ {s : CStr} {cap : ℕ}, s.bounded cap = true → s.bytes.length < cap ∧ s.bytes ≠ [] :=
    fun hb => by simpa [CStr.bounded] using hb
  obtain ⟨hty, htyz⟩ := parseRuleType_name h.eventType
  obtain ⟨hph, hphz, hphl⟩ := parsePhase_name h.phase
  obtain ⟨hre, hrez⟩ := parseReason_name h.reason
  obtain ⟨hcl, hclz⟩ := parseClockState_name h.clock
  have hphs : jsonString (.obj (eventMembers event)) (ascii "phase") 8 =
      some ⟨meEventPhaseName event.phase, hphz⟩ :=
    jsonString_stringItem (s := ⟨_, hphz⟩) (getObjectItem_event event 6 rfl) hphl
  have htracks : event.responsibleTrackIds.length < 2 ^ 32 :=
    lt_of_le_of_lt h.tracks (by decide)
  have hcontract : event.contractVersion < 2 ^ 32 := by rw [h.contract]; decide
  have htimebase : timebaseItem (.obj (eventMembers event)) =
      some (.obj [(ascii "num", natItem event.sourceTimebase.num),
        (ascii "den", natItem event.sourceTimebase.den)]) := by
    simp only [timebaseItem, getObjectItem_event event 13 rfl]
  have hnum : jsonU32 (.obj [(ascii "num", natItem event.sourceTimebase.num),
      (ascii "den", natItem event.sourceTimebase.den)]) (ascii "num") =
      some event.sourceTimebase.num := jsonU32_natItem rfl h.timebase.1
  have hden : jsonU32 (.obj [(ascii "num", natItem event.sourceTimebase.num),
      (ascii "den", natItem event.sourceTimebase.den)]) (ascii "den") =
      some event.sourceTimebase.den := jsonU32_natItem rfl h.timebase.2
  have hitems : trackItems (.obj (eventMembers event)) event.responsibleTrackIds.length =
      some (event.responsibleTrackIds.map natItem) := by
    have hlen : ¬ (meAnalyticsEventMaxTracks < event.responsibleTrackIds.length ∨
        (event.responsibleTrackIds.map natItem).length ≠ event.responsibleTrackIds.length) := by
      have := h.tracks
      simp only [List.length_map, ne_eq, not_true_eq_false, or_false]
      omega
    simp only [trackItems, getObjectItem_event event 21 rfl, if_neg hlen]
  have hids : (event.responsibleTrackIds.map natItem).mapM trackId =
      event.responsibleTrackIds.mapM readNat := by
    rw [List.mapM_map]
    rfl
  simp only [meAnalyticsEventFromJson, isObject, Bool.not_true, Bool.false_eq_true, if_false,
    orErr_bind_eq_ok,
    jsonU32_natItem (getObjectItem_event event 0 rfl) hcontract,
    jsonString_stringItem (getObjectItem_event event 1 rfl) (hcap h.eventId).1,
    jsonString_stringItem (getObjectItem_event event 2 rfl) (hcap h.channelId).1,
    jsonU64_natItem (getObjectItem_event event 3 rfl),
    jsonText_str (getObjectItem_event event 4 rfl) htyz,
    jsonString_stringItem (getObjectItem_event event 5 rfl) h.ruleId,
    hphs,
    jsonText_str (getObjectItem_event event 6 rfl) hphz,
    jsonU64_natItem (getObjectItem_event event 7 rfl),
    jsonText_str (getObjectItem_event event 8 rfl) hrez,
    jsonI64_intItem (getObjectItem_event event 9 rfl) h.time.1,
    jsonText_str (getObjectItem_event event 10 rfl) hclz,
    show jsonBool (.obj (eventMembers event)) (ascii "source_pts_valid") =
      some event.sourcePtsValid by rw [jsonBool, getObjectItem_event event 11 rfl],
    jsonI64_intItem (getObjectItem_event event 12 rfl) h.pts.1,
    htimebase,
    hnum, hden,
    jsonU64_natItem (getObjectItem_event event 14 rfl),
    jsonU32_natItem (getObjectItem_event event 15 rfl) h.person,
    jsonU32_natItem (getObjectItem_event event 16 rfl) h.deltaIn,
    jsonU32_natItem (getObjectItem_event event 17 rfl) h.deltaOut,
    jsonU64_natItem (getObjectItem_event event 18 rfl),
    jsonString_stringItem (getObjectItem_event event 19 rfl) h.evidence,
    jsonU32_natItem (getObjectItem_event event 20 rfl) htracks,
    Option.bind_some, hty, hph, hre, hcl, Option.some.injEq, exists_eq_left', hitems, hids,
    Option.map_eq_some_iff]
  have hzero : ∀ (epoch seq frame version : ℕ) (time pts : ℤ) (ids : List ℕ),
      zeroIdentity { event with
        streamEpoch := epoch, eventSeq := seq, eventTimeUs := time, sourcePts := pts
        frameId := frame, configVersion := version, responsibleTrackIds := ids } = true ↔
      ¬ (epoch ≠ 0 ∧ seq ≠ 0 ∧ frame ≠ 0) := by
    intro epoch seq frame version time pts ids
    have h1 : event.contractVersion ≠ 0 := by rw [h.contract]; decide
    have h2 := (hcap h.eventId).2
    have h3 := (hcap h.channelId).2
    simp only [zeroIdentity, Bool.or_eq_true, beq_iff_eq, h1, h2, h3, false_or]
    tauto
  constructor
  · rintro ⟨epoch, hep, seq, hseq, _, ⟨time, hti, rfl⟩, _, ⟨pts, hpt, rfl⟩, frame, hfr, version,
      hver, ids, hids, hok⟩
    split at hok
    · cases hok
    · next hz =>
      rw [hzero, not_not] at hz
      exact ⟨epoch, seq, time, pts, frame, version, ids, hep, hseq, hti, hpt, hfr, hver, hids,
        hz.1, hz.2.1, hz.2.2, (Except.ok.inj hok).symm⟩
  · rintro ⟨epoch, seq, time, pts, frame, version, ids, hep, hseq, hti, hpt, hfr, hver, hids, h1, h2,
      h3, rfl⟩
    refine ⟨epoch, hep, seq, hseq, _, ⟨time, hti, rfl⟩, _, ⟨pts, hpt, rfl⟩, frame, hfr, version,
      hver, ids, hids, ?_⟩
    rw [if_neg (by rw [hzero, not_not]; exact ⟨h1, h2, h3⟩)]
    rfl

theorem mapM_eq_self {α : Type} {f : α → Option α} {xs : List α} :
    xs.mapM f = some xs ↔ ∀ x ∈ xs, f x = some x := by
  induction xs with
  | nil => simp
  | cons x xs ih =>
    rw [List.mapM_cons, List.forall_mem_cons, ← ih]
    cases f x with
    | none => simp
    | some v =>
      cases xs.mapM f with
      | none => simp
      | some vs => simp

/-- **Which events decode to themselves**: those whose 64-bit integers all read back. -/
theorem meAnalyticsEventFromJson_toJson {event : MeAnalyticsEvent} (h : Emittable event) :
    meAnalyticsEventFromJson (.obj (eventMembers event)) = .ok event ↔
      ∀ v ∈ wideFields event, ExactNat v := by
  have htime : ((event.eventTimeUs.toNat : ℕ) : ℤ) = event.eventTimeUs :=
    Int.toNat_of_nonneg h.time.1
  have hpts : ((event.sourcePts.toNat : ℕ) : ℤ) = event.sourcePts := Int.toNat_of_nonneg h.pts.1
  rw [fromJson_eventMembers h]
  simp only [wideFields, List.cons_append, List.nil_append, List.forall_mem_cons,
    ← readNat_eq_self]
  constructor
  · rintro ⟨epoch, seq, time, pts, frame, version, ids, hep, hseq, hti, hpt, hfr, hver, hids, -, -,
      -, heq⟩
    obtain rfl : event.streamEpoch = epoch := congrArg MeAnalyticsEvent.streamEpoch heq
    obtain rfl : event.eventSeq = seq := congrArg MeAnalyticsEvent.eventSeq heq
    have ht : event.eventTimeUs = time := congrArg MeAnalyticsEvent.eventTimeUs heq
    have hp : event.sourcePts = pts := congrArg MeAnalyticsEvent.sourcePts heq
    obtain rfl : event.frameId = frame := congrArg MeAnalyticsEvent.frameId heq
    obtain rfl : event.configVersion = version := congrArg MeAnalyticsEvent.configVersion heq
    obtain rfl : event.responsibleTrackIds = ids :=
      congrArg MeAnalyticsEvent.responsibleTrackIds heq
    obtain rfl : event.eventTimeUs.toNat = time := by omega
    obtain rfl : event.sourcePts.toNat = pts := by omega
    exact ⟨hep, hseq, hti, hpt, hfr, hver, mapM_eq_self.mp hids⟩
  · rintro ⟨hep, hseq, hti, hpt, hfr, hver, hids⟩
    have h1 := h.epoch.1
    have h2 := h.seq.1
    have h3 := h.frame.1
    refine ⟨_, _, _, _, _, _, _, hep, hseq, hti, hpt, hfr, hver, mapM_eq_self.mpr hids, by omega,
      by omega, by omega, ?_⟩
    rw [htime, hpts]

/-! ### Decoding twice -/

theorem readNat_settles {v w : ℕ} (h : readNat v = some w) : ExactNat w ∧ natItem w = natItem v := by
  obtain ⟨d, hd, -⟩ := binary64_nat v
  obtain ⟨hval, hw⟩ := safeNat_eq_some h
  rw [hd] at hval
  obtain ⟨hexact, htext⟩ := reread_printNumber hval hw
  refine ⟨hexact, ?_⟩
  rw [natItem, natItem, numberItem, numberItem, binary64_natCast hw, hd, htext]

theorem readNat_pos {v w : ℕ} (hv : 0 < v) (h : readNat v = some w) : 0 < w := by
  obtain ⟨d, hd, -⟩ := binary64_nat v
  have hone : (1 : ℚ) ≤ binary64 (v : ℚ) := by
    have : (2 : ℚ) ^ 0 ≤ (v : ℚ) := by exact_mod_cast hv
    simpa using pow_le_binary64 this
  rw [hd] at hone
  have hpos := valueDouble_printNumber_pos (d := d) (by exact_mod_cast hone)
  obtain ⟨hval, -⟩ := safeNat_eq_some h
  rw [hd] at hval
  rw [hval] at hpos
  exact_mod_cast hpos

theorem mapM_readNat_settles {ids ids' : List ℕ} (h : ids.mapM readNat = some ids') :
    (∀ id ∈ ids', ExactNat id) ∧ ids'.map natItem = ids.map natItem := by
  induction ids generalizing ids' with
  | nil => simp_all
  | cons id ids ih =>
    rw [List.mapM_cons, Option.bind_eq_bind, Option.bind_eq_some_iff] at h
    obtain ⟨v, hv, h⟩ := h
    rw [Option.bind_eq_bind, Option.bind_eq_some_iff] at h
    obtain ⟨vs, hvs, h⟩ := h
    obtain rfl : v :: vs = ids' := by simpa using h
    obtain ⟨hex, hitem⟩ := readNat_settles hv
    obtain ⟨hexs, hitems⟩ := ih hvs
    exact ⟨List.forall_mem_cons.mpr ⟨hex, hexs⟩, by rw [List.map_cons, List.map_cons, hitem, hitems]⟩

theorem intItem_natCast (v : ℕ) : intItem (v : ℤ) = natItem v := by
  simp only [intItem, natItem, Int.cast_natCast]

/-- **A decoded event is settled**: it is still one the engine can emit, all its 64-bit integers are
exact, and it encodes to the same tree. -/
theorem fromJson_settles {event event' : MeAnalyticsEvent} (h : Emittable event)
    (hd : meAnalyticsEventFromJson (.obj (eventMembers event)) = .ok event') :
    Emittable event' ∧ (∀ v ∈ wideFields event', ExactNat v) ∧
      eventMembers event' = eventMembers event ∧ event'.phase = event.phase := by
  obtain ⟨epoch, seq, time, pts, frame, version, ids, hep, hseq, hti, hpt, hfr, hver, hids, h1, h2,
    h3, rfl⟩ := (fromJson_eventMembers h).mp hd
  obtain ⟨xep, iep⟩ := readNat_settles hep
  obtain ⟨xseq, iseq⟩ := readNat_settles hseq
  obtain ⟨xti, iti⟩ := readNat_settles hti
  obtain ⟨xpt, ipt⟩ := readNat_settles hpt
  obtain ⟨xfr, ifr⟩ := readNat_settles hfr
  obtain ⟨xver, iver⟩ := readNat_settles hver
  obtain ⟨xids, iids⟩ := mapM_readNat_settles hids
  have hlen : ids.length = event.responsibleTrackIds.length := by
    simpa using congrArg List.length iids
  have wide : ∀ {v : ℕ}, ExactNat v → v < 2 ^ 64 := fun hv => lt_trans hv.1 (by norm_num)
  have time_eq : intItem (time : ℤ) = intItem event.eventTimeUs := by
    rw [intItem_natCast, iti, ← intItem_natCast, Int.toNat_of_nonneg h.time.1]
  have pts_eq : intItem (pts : ℤ) = intItem event.sourcePts := by
    rw [intItem_natCast, ipt, ← intItem_natCast, Int.toNat_of_nonneg h.pts.1]
  have signed : ∀ {v : ℕ}, ExactNat v → 0 ≤ (v : ℤ) ∧ (v : ℤ) < 2 ^ 63 := fun hv => by
    have := hv.1
    omega
  refine ⟨{ h with
      epoch := ⟨Nat.pos_of_ne_zero h1, wide xep⟩
      seq := ⟨Nat.pos_of_ne_zero h2, wide xseq⟩
      time := signed xti
      pts := signed xpt
      frame := ⟨Nat.pos_of_ne_zero h3, wide xfr⟩
      tracks := hlen.le.trans h.tracks
      trackIds := fun id hid => wide (xids id hid)
      config := wide xver }, ?_, ?_, rfl⟩
  · simp only [wideFields, List.cons_append, List.nil_append, List.forall_mem_cons,
      Int.toNat_natCast]
    exact ⟨xep, xseq, xti, xpt, xfr, xver, xids⟩
  · simp only [eventMembers, iep, iseq, time_eq, pts_eq, ifr, iver, iids, hlen]

/-- The decoder accepts every 64-bit integer of the event. -/
def Accepted (event : MeAnalyticsEvent) : Prop := ∀ v ∈ wideFields event, (readNat v).isSome

instance (event : MeAnalyticsEvent) : Decidable (Accepted event) :=
  inferInstanceAs (Decidable (∀ v ∈ wideFields event, _))

theorem mapM_readNat_isSome {ids : List ℕ} (h : ∀ id ∈ ids, (readNat id).isSome) :
    ∃ ids', ids.mapM readNat = some ids' := by
  induction ids with
  | nil => exact ⟨[], rfl⟩
  | cons id ids ih =>
    obtain ⟨hid, hids⟩ := List.forall_mem_cons.mp h
    obtain ⟨v, hv⟩ := Option.isSome_iff_exists.mp hid
    obtain ⟨vs, hvs⟩ := ih hids
    exact ⟨v :: vs, by rw [List.mapM_cons, hv, hvs]; rfl⟩

/-- An event whose 64-bit integers are accepted decodes. -/
theorem fromJson_of_accepted {event : MeAnalyticsEvent} (h : Emittable event) (ha : Accepted event) :
    ∃ event', meAnalyticsEventFromJson (.obj (eventMembers event)) = .ok event' := by
  simp only [Accepted, wideFields, List.cons_append, List.nil_append, List.forall_mem_cons] at ha
  obtain ⟨hep, hseq, hti, hpt, hfr, hver, hids⟩ := ha
  obtain ⟨epoch, hep⟩ := Option.isSome_iff_exists.mp hep
  obtain ⟨seq, hseq⟩ := Option.isSome_iff_exists.mp hseq
  obtain ⟨time, hti⟩ := Option.isSome_iff_exists.mp hti
  obtain ⟨pts, hpt⟩ := Option.isSome_iff_exists.mp hpt
  obtain ⟨frame, hfr⟩ := Option.isSome_iff_exists.mp hfr
  obtain ⟨version, hver⟩ := Option.isSome_iff_exists.mp hver
  obtain ⟨ids, hids⟩ := mapM_readNat_isSome hids
  exact ⟨_, (fromJson_eventMembers h).mpr ⟨epoch, seq, time, pts, frame, version, ids, hep, hseq, hti,
    hpt, hfr, hver, hids, (readNat_pos h.epoch.1 hep).ne', (readNat_pos h.seq.1 hseq).ne',
    (readNat_pos h.frame.1 hfr).ne', rfl⟩⟩

theorem accepted_of_exact {event : MeAnalyticsEvent} (h : ∀ v ∈ wideFields event, ExactNat v) :
    Accepted event := fun v hv => by
  rw [readNat_eq_self.mpr (h v hv)]
  rfl

/-! ### The text of an event -/

theorem reads_natItem {v : ℕ} (h : v < 2 ^ 64) (d : ℕ) :
    Reads cjson printString d (natItem v) (natItem v) := by
  simp only [natItem, numberItem, Reads, true_and]
  exact numReads_printNumber h

theorem reads_str (s : Bytes) (d : ℕ) : Reads cjson printString d (.str s) (.str s) := by
  simp only [Reads]
  exact strReads_cjson s

end FlowAlarm.Codec
