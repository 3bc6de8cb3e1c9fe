import FlowAlarm.Text.GoStruct

/-!
# The daemon's event contract

`media/events.go`: `AnalyticsEvent` with its JSON members. Strings are byte
strings, fixed-width integers are naturals or integers with their range in
`WellTyped`, and a nil slice is `none`.
-/

namespace FlowAlarm.Media

open FlowAlarm.Text FlowAlarm.GoJson

def eventPhaseStart : Bytes := ascii "START"
def eventPhaseUpdate : Bytes := ascii "UPDATE"
def eventPhaseEnd : Bytes := ascii "END"

structure Timebase where
  num : Nat
  den : Nat
  deriving DecidableEq

structure AnalyticsEvent where
  contractVersion : Nat
  eventID : Bytes
  channelID : Bytes
  streamEpoch : Nat
  eventType : Bytes
  ruleID : Bytes
  phase : Bytes
  eventSeq : Nat
  reason : Bytes
  eventTimeUS : Int
  clockState : Bytes
  sourcePTSValid : Bool
  sourcePTS : Int
  sourceTimebase : Timebase
  frameID : Nat
  personCount : Nat
  deltaIn : Nat
  deltaOut : Nat
  configVersion : Nat
  evidenceID : Bytes
  responsibleTrackCount : Nat
  responsibleTrackIDs : Option (List Nat)
  deriving DecidableEq

def AnalyticsEvent.zero : AnalyticsEvent where
  contractVersion := 0
  eventID := []
  channelID := []
  streamEpoch := 0
  eventType := []
  ruleID := []
  phase := []
  eventSeq := 0
  reason := []
  eventTimeUS := 0
  clockState := []
  sourcePTSValid := false
  sourcePTS := 0
  sourceTimebase := ⟨0, 0⟩
  frameID := 0
  personCount := 0
  deltaIn := 0
  deltaOut := 0
  configVersion := 0
  evidenceID := []
  responsibleTrackCount := 0
  responsibleTrackIDs := none

/-! ## Decoding -/

def timebaseFields : List (Slot Timebase) :=
  [scalarField (readUint 32) (ascii "num") fun v t => { t with num := v },
    scalarField (readUint 32) (ascii "den") fun v t => { t with den := v }]

def eventFields : List (Slot AnalyticsEvent) :=
  [scalarField (readUint 32) (ascii "contract_version") fun v e => { e with contractVersion := v },
    scalarField readString (ascii "event_id") fun v e => { e with eventID := v },
    scalarField readString (ascii "channel_id") fun v e => { e with channelID := v },
    scalarField (readUint 64) (ascii "stream_epoch") fun v e => { e with streamEpoch := v },
    scalarField readString (ascii "event_type") fun v e => { e with eventType := v },
    scalarField readString (ascii "rule_id") fun v e => { e with ruleID := v },
    scalarField readString (ascii "phase") fun v e => { e with phase := v },
    scalarField (readUint 64) (ascii "event_seq") fun v e => { e with eventSeq := v },
    scalarField readString (ascii "reason") fun v e => { e with reason := v },
    scalarField (readInt 64) (ascii "event_time_us") fun v e => { e with eventTimeUS := v },
    scalarField readString (ascii "clock_state") fun v e => { e with clockState := v },
    scalarField readBool (ascii "source_pts_valid") fun v e => { e with sourcePTSValid := v },
    scalarField (readInt 64) (ascii "source_pts") fun v e => { e with sourcePTS := v },
    structField (decodeStruct timebaseFields) (ascii "source_timebase") (·.sourceTimebase)
      fun v e => { e with sourceTimebase := v },
    scalarField (readUint 64) (ascii "frame_id") fun v e => { e with frameID := v },
    scalarField (readUint 32) (ascii "person_count") fun v e => { e with personCount := v },
    scalarField (readUint 32) (ascii "delta_in") fun v e => { e with deltaIn := v },
    scalarField (readUint 32) (ascii "delta_out") fun v e => { e with deltaOut := v },
    scalarField (readUint 64) (ascii "config_version") fun v e => { e with configVersion := v },
    scalarField readString (ascii "evidence_id") fun v e => { e with evidenceID := v },
    scalarField (readUint 32) (ascii "responsible_track_count")
      fun v e => { e with responsibleTrackCount := v },
    sliceField (decodeUint 64) 0 (ascii "responsible_track_ids") (·.responsibleTrackIDs)
      fun v e => { e with responsibleTrackIDs := v }]

/-- Decoding into an event that holds `e`. -/
def decodeEvent (e : AnalyticsEvent) (v : Json) : Option AnalyticsEvent :=
  decodeStruct eventFields e v

/-! ## Encoding -/

def timebaseValue (t : Timebase) : Json :=
  .obj (List.reduceOption [some (ascii "num", uintValue t.num), some (ascii "den", uintValue t.den)])

def trackIDsValue : Option (List Nat) → Json
  | none => .null
  | some ids => .arr (ids.map uintValue)

def eventMembers (e : AnalyticsEvent) : List (Option (Bytes × Json)) :=
  [some (ascii "contract_version", uintValue e.contractVersion),
    some (ascii "event_id", .str e.eventID),
    some (ascii "channel_id", .str e.channelID),
    some (ascii "stream_epoch", uintValue e.streamEpoch),
    some (ascii "event_type", .str e.eventType),
    some (ascii "rule_id", .str e.ruleID),
    some (ascii "phase", .str e.phase),
    some (ascii "event_seq", uintValue e.eventSeq),
    some (ascii "reason", .str e.reason),
    some (ascii "event_time_us", intValue e.eventTimeUS),
    some (ascii "clock_state", .str e.clockState),
    some (ascii "source_pts_valid", .bool e.sourcePTSValid),
    some (ascii "source_pts", intValue e.sourcePTS),
    some (ascii "source_timebase", timebaseValue e.sourceTimebase),
    some (ascii "frame_id", uintValue e.frameID),
    some (ascii "person_count", uintValue e.personCount),
    some (ascii "delta_in", uintValue e.deltaIn),
    some (ascii "delta_out", uintValue e.deltaOut),
    some (ascii "config_version", uintValue e.configVersion),
    some (ascii "evidence_id", .str e.evidenceID),
    some (ascii "responsible_track_count", uintValue e.responsibleTrackCount),
    some (ascii "responsible_track_ids", trackIDsValue e.responsibleTrackIDs)]

def eventValue (e : AnalyticsEvent) : Json := .obj (eventMembers e).reduceOption

/-! ## Round trip -/

/-- The ranges of the fixed-width integers. -/
structure WellTyped (e : AnalyticsEvent) : Prop where
  contractVersion : e.contractVersion < 2 ^ 32
  streamEpoch : e.streamEpoch < 2 ^ 64
  eventSeq : e.eventSeq < 2 ^ 64
  eventTimeUS : -(2 ^ 63 : Int) ≤ e.eventTimeUS ∧ e.eventTimeUS < 2 ^ 63
  sourcePTS : -(2 ^ 63 : Int) ≤ e.sourcePTS ∧ e.sourcePTS < 2 ^ 63
  timebaseNum : e.sourceTimebase.num < 2 ^ 32
  timebaseDen : e.sourceTimebase.den < 2 ^ 32
  frameID : e.frameID < 2 ^ 64
  personCount : e.personCount < 2 ^ 32
  deltaIn : e.deltaIn < 2 ^ 32
  deltaOut : e.deltaOut < 2 ^ 32
  configVersion : e.configVersion < 2 ^ 64
  trackCount : e.responsibleTrackCount < 2 ^ 32
  trackIDs : ∀ ids ∈ e.responsibleTrackIDs, ∀ id ∈ ids, id < 2 ^ 64

/-- What reading makes of the strings. -/
def AnalyticsEvent.clean (e : AnalyticsEvent) : AnalyticsEvent :=
  { e with
    eventID := sanitize e.eventID
    channelID := sanitize e.channelID
    eventType := sanitize e.eventType
    ruleID := sanitize e.ruleID
    phase := sanitize e.phase
    reason := sanitize e.reason
    clockState := sanitize e.clockState
    evidenceID := sanitize e.evidenceID }

theorem timebaseFields_nodup : (timebaseFields.map (·.name)).Nodup := by decide

theorem eventFields_nodup : (eventFields.map (·.name)).Nodup := by decide +kernel

theorem decode_timebaseValue {t t₀ : Timebase} (hn : t.num < 2 ^ 32) (hd : t.den < 2 ^ 32) :
    decodeStruct timebaseFields t₀ (timebaseValue t) = some t :=
  show Stores timebaseFields _ t₀ t from
    .cons (store_present timebaseFields_nodup (i := 0) rfl (set_uint hn _)) <|
    .cons (store_present timebaseFields_nodup (i := 1) rfl (set_uint hd _)) <|
    stores_nil _ _

/-- **A written event decodes to itself.** -/
theorem decode_eventValue {e : AnalyticsEvent} (h : WellTyped e) :
    decodeEvent .zero (eventValue e) = some e := by
  have hbase : ∀ st : AnalyticsEvent, (structField (decodeStruct timebaseFields)
      (ascii "source_timebase") (·.sourceTimebase)
      fun v e => { e with sourceTimebase := v }).set (timebaseValue e.sourceTimebase) st =
        some { st with sourceTimebase := e.sourceTimebase } := fun st => by
    simp only [structField, decode_timebaseValue h.timebaseNum h.timebaseDen, Option.map_some]
  have hids : ∀ st : AnalyticsEvent, st.responsibleTrackIDs = none →
      (sliceField (decodeUint 64) 0 (ascii "responsible_track_ids") (·.responsibleTrackIDs)
        fun v e => { e with responsibleTrackIDs := v }).set (trackIDsValue e.responsibleTrackIDs) st =
        some { st with responsibleTrackIDs := e.responsibleTrackIDs } := by
    intro st hst
    cases hi : e.responsibleTrackIDs with
    | none => rfl
    | some ids =>
      have hall : ∀ id ∈ ids, decodeUint 64 0 (uintValue id) = some (id : Nat) := fun id hid =>
        parseUint_dec (h.trackIDs ids hi id hid)
      have := decodeElems_map uintValue (fun id => id) hall
      rw [List.map_id'] at this
      simp only [sliceField, trackIDsValue, hst, Option.getD_none, this, Option.map_some]
  have store := @store_present _ eventFields eventFields_nodup
  exact show Stores eventFields _ .zero e from
    .cons (store (i := 0) rfl (set_uint h.contractVersion _)) <|
    .cons (store (i := 1) rfl (set_string _ _)) <|
    .cons (store (i := 2) rfl (set_string _ _)) <|
    .cons (store (i := 3) rfl (set_uint h.streamEpoch _)) <|
    .cons (store (i := 4) rfl (set_string _ _)) <|
    .cons (store (i := 5) rfl (set_string _ _)) <|
    .cons (store (i := 6) rfl (set_string _ _)) <|
    .cons (store (i := 7) rfl (set_uint h.eventSeq _)) <|
    .cons (store (i := 8) rfl (set_string _ _)) <|
    .cons (store (i := 9) rfl (set_int h.eventTimeUS _)) <|
    .cons (store (i := 10) rfl (set_string _ _)) <|
    .cons (store (i := 11) rfl rfl) <|
    .cons (store (i := 12) rfl (set_int h.sourcePTS _)) <|
    .cons (store (i := 13) rfl (hbase _)) <|
    .cons (store (i := 14) rfl (set_uint h.frameID _)) <|
    .cons (store (i := 15) rfl (set_uint h.personCount _)) <|
    .cons (store (i := 16) rfl (set_uint h.deltaIn _)) <|
    .cons (store (i := 17) rfl (set_uint h.deltaOut _)) <|
    .cons (store (i := 18) rfl (set_uint h.configVersion _)) <|
    .cons (store (i := 19) rfl (set_string _ _)) <|
    .cons (store (i := 20) rfl (set_uint h.trackCount _)) <|
    .cons (store (i := 21) rfl (hids _ rfl)) <|
    stores_nil _ _

theorem reads_trackIDs (d : Nat) (ids : Option (List Nat)) :
    Reads go escape (d + 1) (trackIDsValue ids) (trackIDsValue ids) := by
  cases ids with
  | none => simp only [trackIDsValue, Reads]
  | some ids => exact reads_arr fun id _ => reads_uint d id

/-- **A written event is read with its strings sanitized.** -/
theorem reads_eventValue (d : Nat) (e : AnalyticsEvent) :
    Reads go escape (d + 2) (eventValue e) (eventValue e.clean) := by
  have hbase : Reads go escape (d + 1) (timebaseValue e.sourceTimebase)
      (timebaseValue e.sourceTimebase) :=
    reads_obj (.cons rfl (reads_uint _ _) (.cons rfl (reads_uint _ _) (readsMembers_nil _)))
  exact reads_obj <|
    .cons rfl (reads_uint _ _) <| .cons rfl (reads_string _ _) <| .cons rfl (reads_string _ _) <|
    .cons rfl (reads_uint _ _) <| .cons rfl (reads_string _ _) <| .cons rfl (reads_string _ _) <|
    .cons rfl (reads_string _ _) <| .cons rfl (reads_uint _ _) <| .cons rfl (reads_string _ _) <|
    .cons rfl (reads_int _ _) <| .cons rfl (reads_string _ _) <| .cons rfl (reads_bool _ _) <|
    .cons rfl (reads_int _ _) <| .cons rfl hbase <| .cons rfl (reads_uint _ _) <|
    .cons rfl (reads_uint _ _) <| .cons rfl (reads_uint _ _) <| .cons rfl (reads_uint _ _) <|
    .cons rfl (reads_uint _ _) <| .cons rfl (reads_string _ _) <| .cons rfl (reads_uint _ _) <|
    .cons rfl (reads_trackIDs _ _) (readsMembers_nil _)

theorem plain_eventValue {x : UInt8} (hx : isDigit x = false) (h' : x ≠ 0x2D) (e : AnalyticsEvent) :
    Plain x (eventValue e) := by
  have hbase : Plain x (timebaseValue e.sourceTimebase) :=
    plain_obj <| .cons (plain_uint hx _) <| .cons (plain_uint hx _) <| plainMembers_nil x
  have hids : Plain x (trackIDsValue e.responsibleTrackIDs) := by
    cases e.responsibleTrackIDs with
    | none => exact plain_null x
    | some ids =>
      refine plain_arr fun j hj => ?_
      obtain ⟨id, -, rfl⟩ := List.mem_map.mp hj
      exact plain_uint hx id
  exact plain_obj <|
    .cons (plain_uint hx _) <| .cons (plain_str x _) <| .cons (plain_str x _) <|
    .cons (plain_uint hx _) <| .cons (plain_str x _) <| .cons (plain_str x _) <|
    .cons (plain_str x _) <| .cons (plain_uint hx _) <| .cons (plain_str x _) <|
    .cons (plain_int hx h' _) <| .cons (plain_str x _) <| .cons (plain_bool x _) <|
    .cons (plain_int hx h' _) <| .cons hbase <| .cons (plain_uint hx _) <|
    .cons (plain_uint hx _) <| .cons (plain_uint hx _) <| .cons (plain_uint hx _) <|
    .cons (plain_uint hx _) <| .cons (plain_str x _) <| .cons (plain_uint hx _) <|
    .cons hids <| plainMembers_nil x

end FlowAlarm.Media
