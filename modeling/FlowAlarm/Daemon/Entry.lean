import FlowAlarm.Daemon.Media
import FlowAlarm.Text.Lines

/-!
# Journal entries of the outbox

`outbox/outbox.go`: the records and journal entries with their JSON form. A
snapshot of a record has the fields of the record, so one structure stands for
both. Counters of attempts are unbounded integers.

* `decodeEntry_encodeEntry`: an entry is read back, its error texts sanitized.
* `decodeEntry_cut`: a proper cut of an entry's text is refused.
-/

namespace FlowAlarm.Outbox

open FlowAlarm.Text FlowAlarm.GoJson FlowAlarm.Media

/-! ## States and operations -/

inductive SinkState where
  | pending
  | staging
  | sent
  | ignored
  | dead
  | disabled
  | other (text : Bytes)
  deriving DecidableEq

namespace SinkState

def name : SinkState → Bytes
  | pending => ascii "pending"
  | staging => ascii "staging"
  | sent => ascii "sent"
  | ignored => ascii "ignored"
  | dead => ascii "dead"
  | disabled => ascii "disabled"
  | other text => text

def ofName (text : Bytes) : SinkState :=
  if text = ascii "pending" then pending
  else if text = ascii "staging" then staging
  else if text = ascii "sent" then sent
  else if text = ascii "ignored" then ignored
  else if text = ascii "dead" then dead
  else if text = ascii "disabled" then disabled
  else other text

/-- One of the outbox's own states, or the empty text of an absent field. -/
def Own : SinkState → Prop
  | other text => text = []
  | _ => True

theorem ofName_name {s : SinkState} (h : s.Own) : ofName s.name = s := by
  cases s with
  | other text =>
    obtain rfl : text = [] := h
    rfl
  | _ => rfl

theorem name_valid {s : SinkState} (h : s.Own) : validUtf8 s.name = true := by
  cases s with
  | other text =>
    obtain rfl : text = [] := h
    rfl
  | _ => rfl

end SinkState

inductive Op where
  | snapshot
  | event
  | ack
  | alarmState
  | evidenceState
  | other (text : Bytes)
  deriving DecidableEq

namespace Op

def name : Op → Bytes
  | snapshot => ascii "snapshot"
  | event => ascii "event"
  | ack => ascii "ack"
  | alarmState => ascii "alarm_state"
  | evidenceState => ascii "evidence_state"
  | other text => text

def ofName (text : Bytes) : Op :=
  if text = ascii "snapshot" then snapshot
  else if text = ascii "event" then event
  else if text = ascii "ack" then ack
  else if text = ascii "alarm_state" then alarmState
  else if text = ascii "evidence_state" then evidenceState
  else other text

/-- One of the journal's own operations. -/
def Own : Op → Prop
  | other _ => False
  | _ => True

theorem ofName_name {o : Op} (h : o.Own) : ofName o.name = o := by
  cases o with
  | other => cases h
  | _ => rfl

theorem name_valid {o : Op} (h : o.Own) : validUtf8 o.name = true := by
  cases o with
  | other => cases h
  | _ => rfl

end Op

/-! ## Records and entries -/

structure Record where
  key : Bytes
  cursor : Nat
  event : AnalyticsEvent
  alarmState : SinkState
  evidenceState : SinkState
  alarmSN : Nat
  alarmAttempts : Int
  alarmLastError : Bytes
  alarmNextRetryAtUnixNano : Int
  evidenceAttempts : Int
  evidenceNextRetryAtUnixNano : Int
  evidenceError : Bytes
  deriving DecidableEq

def Record.zero : Record :=
  ⟨[], 0, .zero, .other [], .other [], 0, 0, [], 0, 0, 0, []⟩

structure JournalEntry where
  version : Int
  op : Op
  deviceID : Bytes
  key : Bytes
  cursor : Nat
  event : Option AnalyticsEvent
  alarmState : SinkState
  evidenceState : SinkState
  alarmSN : Nat
  alarmAttempts : Int
  alarmLastError : Bytes
  alarmNextRetryAtUnixNano : Int
  evidenceAttempts : Int
  evidenceNextRetryAtUnixNano : Int
  evidenceError : Bytes
  nextAlarmSN : Nat
  lastAck : Nat
  droppedUpdates : Nat
  records : List Record
  deriving DecidableEq

def JournalEntry.zero : JournalEntry where
  version := 0
  op := .other []
  deviceID := []
  key := []
  cursor := 0
  event := none
  alarmState := .other []
  evidenceState := .other []
  alarmSN := 0
  alarmAttempts := 0
  alarmLastError := []
  alarmNextRetryAtUnixNano := 0
  evidenceAttempts := 0
  evidenceNextRetryAtUnixNano := 0
  evidenceError := []
  nextAlarmSN := 0
  lastAck := 0
  droppedUpdates := 0
  records := []

/-! ## Encoding -/

def recordMembers (r : Record) : List (Option (Bytes × Json)) :=
  [some (ascii "key", .str r.key),
    some (ascii "cursor", uintValue r.cursor),
    some (ascii "event", eventValue r.event),
    some (ascii "alarm_state", .str r.alarmState.name),
    some (ascii "evidence_state", .str r.evidenceState.name),
    some (ascii "alarm_sn", uintValue r.alarmSN),
    some (ascii "alarm_attempts", intValue r.alarmAttempts),
    omitEmpty (r.alarmLastError == []) (ascii "alarm_last_error") (.str r.alarmLastError),
    omitEmpty (r.alarmNextRetryAtUnixNano == 0) (ascii "alarm_next_retry_at_unix_nano")
      (intValue r.alarmNextRetryAtUnixNano),
    omitEmpty (r.evidenceAttempts == 0) (ascii "evidence_attempts") (intValue r.evidenceAttempts),
    omitEmpty (r.evidenceNextRetryAtUnixNano == 0) (ascii "evidence_next_retry_at_unix_nano")
      (intValue r.evidenceNextRetryAtUnixNano),
    omitEmpty (r.evidenceError == []) (ascii "evidence_error") (.str r.evidenceError)]

def recordValue (r : Record) : Json := .obj (recordMembers r).reduceOption

def entryMembers (e : JournalEntry) : List (Option (Bytes × Json)) :=
  [some (ascii "v", intValue e.version),
    some (ascii "op", .str e.op.name),
    omitEmpty (e.deviceID == []) (ascii "device_id") (.str e.deviceID),
    omitEmpty (e.key == []) (ascii "key") (.str e.key),
    omitEmpty (e.cursor == 0) (ascii "cursor") (uintValue e.cursor),
    omitEmpty e.event.isNone (ascii "event") (eventValue (e.event.getD .zero)),
    omitEmpty (e.alarmState.name == []) (ascii "alarm_state") (.str e.alarmState.name),
    omitEmpty (e.evidenceState.name == []) (ascii "evidence_state") (.str e.evidenceState.name),
    omitEmpty (e.alarmSN == 0) (ascii "alarm_sn") (uintValue e.alarmSN),
    omitEmpty (e.alarmAttempts == 0) (ascii "alarm_attempts") (intValue e.alarmAttempts),
    omitEmpty (e.alarmLastError == []) (ascii "alarm_last_error") (.str e.alarmLastError),
    omitEmpty (e.alarmNextRetryAtUnixNano == 0) (ascii "alarm_next_retry_at_unix_nano")
      (intValue e.alarmNextRetryAtUnixNano),
    omitEmpty (e.evidenceAttempts == 0) (ascii "evidence_attempts") (intValue e.evidenceAttempts),
    omitEmpty (e.evidenceNextRetryAtUnixNano == 0) (ascii "evidence_next_retry_at_unix_nano")
      (intValue e.evidenceNextRetryAtUnixNano),
    omitEmpty (e.evidenceError == []) (ascii "evidence_error") (.str e.evidenceError),
    omitEmpty (e.nextAlarmSN == 0) (ascii "next_alarm_sn") (uintValue e.nextAlarmSN),
    omitEmpty (e.lastAck == 0) (ascii "last_ack") (uintValue e.lastAck),
    omitEmpty (e.droppedUpdates == 0) (ascii "dropped_updates") (uintValue e.droppedUpdates),
    omitEmpty e.records.isEmpty (ascii "records") (.arr (e.records.map recordValue))]

def entryValue (e : JournalEntry) : Json := .obj (entryMembers e).reduceOption

def journalVersion : Int := 1

/-- The text of an entry, without its newline. -/
def entryText (e : JournalEntry) : Bytes := marshal (entryValue { e with version := journalVersion })

def encodeEntry (e : JournalEntry) : Bytes := entryText e ++ [newline]

/-! ## Decoding -/

def stateField {σ : Type} (name : Bytes) (put : SinkState → σ → σ) : Slot σ :=
  scalarField readString name fun v => put (.ofName v)

def recordFields : List (Slot Record) :=
  [scalarField readString (ascii "key") fun v r => { r with key := v },
    scalarField (readUint 64) (ascii "cursor") fun v r => { r with cursor := v },
    structField decodeEvent (ascii "event") (·.event) fun v r => { r with event := v },
    stateField (ascii "alarm_state") fun v r => { r with alarmState := v },
    stateField (ascii "evidence_state") fun v r => { r with evidenceState := v },
    scalarField (readUint 64) (ascii "alarm_sn") fun v r => { r with alarmSN := v },
    scalarField readCount (ascii "alarm_attempts") fun v r => { r with alarmAttempts := v },
    scalarField readString (ascii "alarm_last_error") fun v r => { r with alarmLastError := v },
    scalarField (readInt 64) (ascii "alarm_next_retry_at_unix_nano")
      fun v r => { r with alarmNextRetryAtUnixNano := v },
    scalarField readCount (ascii "evidence_attempts") fun v r => { r with evidenceAttempts := v },
    scalarField (readInt 64) (ascii "evidence_next_retry_at_unix_nano")
      fun v r => { r with evidenceNextRetryAtUnixNano := v },
    scalarField readString (ascii "evidence_error") fun v r => { r with evidenceError := v }]

def decodeRecord (r : Record) (v : Json) : Option Record := decodeStruct recordFields r v

def entryFields : List (Slot JournalEntry) :=
  [scalarField (readInt 64) (ascii "v") fun v e => { e with version := v },
    scalarField readString (ascii "op") fun v e => { e with op := .ofName v },
    scalarField readString (ascii "device_id") fun v e => { e with deviceID := v },
    scalarField readString (ascii "key") fun v e => { e with key := v },
    scalarField (readUint 64) (ascii "cursor") fun v e => { e with cursor := v },
    pointerField decodeEvent .zero (ascii "event") (·.event) fun v e => { e with event := v },
    stateField (ascii "alarm_state") fun v e => { e with alarmState := v },
    stateField (ascii "evidence_state") fun v e => { e with evidenceState := v },
    scalarField (readUint 64) (ascii "alarm_sn") fun v e => { e with alarmSN := v },
    scalarField readCount (ascii "alarm_attempts") fun v e => { e with alarmAttempts := v },
    scalarField readString (ascii "alarm_last_error") fun v e => { e with alarmLastError := v },
    scalarField (readInt 64) (ascii "alarm_next_retry_at_unix_nano")
      fun v e => { e with alarmNextRetryAtUnixNano := v },
    scalarField readCount (ascii "evidence_attempts") fun v e => { e with evidenceAttempts := v },
    scalarField (readInt 64) (ascii "evidence_next_retry_at_unix_nano")
      fun v e => { e with evidenceNextRetryAtUnixNano := v },
    scalarField readString (ascii "evidence_error") fun v e => { e with evidenceError := v },
    scalarField (readUint 64) (ascii "next_alarm_sn") fun v e => { e with nextAlarmSN := v },
    scalarField (readUint 64) (ascii "last_ack") fun v e => { e with lastAck := v },
    scalarField (readUint 64) (ascii "dropped_updates") fun v e => { e with droppedUpdates := v },
    sliceField decodeRecord .zero (ascii "records") (fun e => some e.records)
      fun v e => { e with records := v.getD [] }]

/-- `json.Unmarshal` of a line into an entry. -/
def decodeEntry (payload : Bytes) : Option JournalEntry :=
  (readValue payload).bind (decodeStruct entryFields .zero)

/-! ## Round trip -/

/-- An event that JSON carries unchanged: fields in range and texts in UTF-8. -/
structure Portable (e : AnalyticsEvent) : Prop where
  typed : WellTyped e
  clean : e.clean = e

def TimeRange (t : Int) : Prop := -(2 ^ 63 : Int) ≤ t ∧ t < 2 ^ 63

/-- A record that JSON carries unchanged but for its error texts. -/
structure Record.Portable (r : Record) : Prop where
  key : validUtf8 r.key = true
  cursor : r.cursor < 2 ^ 64
  event : Outbox.Portable r.event
  alarmState : r.alarmState.Own
  evidenceState : r.evidenceState.Own
  alarmSN : r.alarmSN < 2 ^ 64
  alarmRetry : TimeRange r.alarmNextRetryAtUnixNano
  evidenceRetry : TimeRange r.evidenceNextRetryAtUnixNano

/-- An entry that JSON carries unchanged but for its error texts. -/
structure JournalEntry.Portable (e : JournalEntry) : Prop where
  version : TimeRange e.version
  op : e.op.Own
  deviceID : validUtf8 e.deviceID = true
  key : validUtf8 e.key = true
  cursor : e.cursor < 2 ^ 64
  event : ∀ ev ∈ e.event, Outbox.Portable ev
  alarmState : e.alarmState.Own
  evidenceState : e.evidenceState.Own
  alarmSN : e.alarmSN < 2 ^ 64
  alarmRetry : TimeRange e.alarmNextRetryAtUnixNano
  evidenceRetry : TimeRange e.evidenceNextRetryAtUnixNano
  nextAlarmSN : e.nextAlarmSN < 2 ^ 64
  lastAck : e.lastAck < 2 ^ 64
  droppedUpdates : e.droppedUpdates < 2 ^ 64
  records : ∀ r ∈ e.records, r.Portable

/-- A record with its error texts as they are read. -/
def Record.clean (r : Record) : Record :=
  { r with alarmLastError := sanitize r.alarmLastError, evidenceError := sanitize r.evidenceError }

/-- An entry as it is read. -/
def JournalEntry.clean (e : JournalEntry) : JournalEntry :=
  { e with
    version := journalVersion
    alarmLastError := sanitize e.alarmLastError
    evidenceError := sanitize e.evidenceError
    records := e.records.map Record.clean }

theorem recordFields_nodup : (recordFields.map (·.name)).Nodup := by decide +kernel

theorem entryFields_nodup : (entryFields.map (·.name)).Nodup := by decide +kernel

theorem set_state {σ : Type} {name : Bytes} {put : SinkState → σ → σ} {s : SinkState} (h : s.Own)
    (st : σ) : (stateField name put).set (.str s.name) st = some (put s st) := by
  show some (put (.ofName s.name) st) = _
  rw [SinkState.ofName_name h]

theorem set_time {σ : Type} {name : Bytes} {put : Int → σ → σ} {t : Int} (h : TimeRange t) (st : σ) :
    (scalarField (readInt 64) name put).set (intValue t) st = some (put t st) :=
  set_int (show -(2 ^ (64 - 1) : Int) ≤ t ∧ t < 2 ^ (64 - 1) from h) st

theorem decode_recordValue {r : Record} (h : r.Portable) :
    decodeRecord .zero (recordValue r) = some r := by
  have hevent : ∀ st : Record, st.event = .zero →
      (structField decodeEvent (ascii "event") (·.event) fun v r => { r with event := v }).set
        (eventValue r.event) st = some { st with event := r.event } := fun st hst => by
    simp only [structField, hst, decode_eventValue h.event.typed, Option.map_some]
  have store := @store_present _ recordFields recordFields_nodup
  have zero := @store_omitZero _ recordFields recordFields_nodup
  exact show Stores recordFields (recordMembers r) .zero r from
    .cons (store (i := 0) rfl (set_string _ _)) <|
    .cons (store (i := 1) rfl (set_uint h.cursor _)) <|
    .cons (store (i := 2) rfl (hevent _ rfl)) <|
    .cons (store (i := 3) rfl (set_state h.alarmState _)) <|
    .cons (store (i := 4) rfl (set_state h.evidenceState _)) <|
    .cons (store (i := 5) rfl (set_uint h.alarmSN _)) <|
    .cons (store (i := 6) rfl (set_count _ _)) <|
    .cons (zero (i := 7) rfl (set_string _ _) rfl) <|
    .cons (zero (i := 8) rfl (set_time h.alarmRetry _) rfl) <|
    .cons (zero (i := 9) rfl (set_count _ _) rfl) <|
    .cons (zero (i := 10) rfl (set_time h.evidenceRetry _) rfl) <|
    .cons (zero (i := 11) rfl (set_string _ _) rfl) <|
    stores_nil _ _

theorem decode_entryValue {e : JournalEntry} (h : e.Portable) :
    decodeStruct entryFields .zero (entryValue e) = some e := by
  have hop : ∀ st : JournalEntry, (scalarField readString (ascii "op")
      fun v e => { e with op := .ofName v }).set (.str e.op.name) st =
        some { st with op := e.op } := fun st => by
    show some { st with op := Op.ofName e.op.name } = _
    rw [Op.ofName_name h.op]
  have hevent : ∀ st : JournalEntry, st.event = none →
      storeOption entryFields st (omitEmpty e.event.isNone (ascii "event")
        (eventValue (e.event.getD .zero))) = some { st with event := e.event } := by
    intro st hst
    cases he : e.event with
    | none =>
      show some st = some { st with event := none }
      rw [← hst]
    | some ev =>
      have hset : (pointerField decodeEvent .zero (ascii "event") (fun e : JournalEntry => e.event)
          fun v e => { e with event := v }).set (eventValue ev) st =
            some { st with event := some ev } := by
        have hdec : decodeEvent (st.event.getD .zero) (eventValue ev) = some ev := by
          rw [hst]
          exact decode_eventValue (h.event ev he).typed
        show (decodeEvent (st.event.getD .zero) (eventValue ev)).map _ = _
        rw [hdec, Option.map_some]
      exact store_present entryFields_nodup (i := 5) rfl hset
  have hstate : ∀ {i : Nat} {name : Bytes} {put : SinkState → JournalEntry → JournalEntry}
      {s : SinkState} {st : JournalEntry}, entryFields[i]? = some (stateField name put) → s.Own →
      put (.other []) st = st →
      storeOption entryFields st (omitEmpty (s.name == []) name (.str s.name)) =
        some (put s st) := by
    intro i name put s st hf hs hz
    refine store_omitEmpty entryFields_nodup hf (set_state hs st) fun hnil => ?_
    have hs0 : s = .other [] := by rw [← SinkState.ofName_name hs, beq_iff_eq.mp hnil]; rfl
    rw [hs0, hz]
  have hrecords : ∀ st : JournalEntry, st.records = [] →
      storeOption entryFields st (omitEmpty e.records.isEmpty (ascii "records")
        (.arr (e.records.map recordValue))) = some { st with records := e.records } := by
    intro st hst
    refine store_omitEmpty entryFields_nodup (i := 18) rfl ?_ fun hnil => ?_
    · have hall : ∀ r ∈ e.records, decodeRecord .zero (recordValue r) = some r := fun r hr =>
        decode_recordValue (h.records r hr)
      have hmap := decodeElems_map recordValue (fun r => r) hall
      rw [List.map_id'] at hmap
      simp only [sliceField, hst, Option.getD_some, hmap, Option.map_some]
    · rw [List.isEmpty_iff.mp hnil, ← hst]
  have store := @store_present _ entryFields entryFields_nodup
  have zero := @store_omitZero _ entryFields entryFields_nodup
  exact show Stores entryFields (entryMembers e) .zero e from
    .cons (store (i := 0) rfl (set_time h.version _)) <|
    .cons (store (i := 1) rfl (hop _)) <|
    .cons (zero (i := 2) rfl (set_string _ _) rfl) <|
    .cons (zero (i := 3) rfl (set_string _ _) rfl) <|
    .cons (zero (i := 4) rfl (set_uint h.cursor _) rfl) <|
    .cons (hevent _ rfl) <|
    .cons (hstate (i := 6) rfl h.alarmState rfl) <|
    .cons (hstate (i := 7) rfl h.evidenceState rfl) <|
    .cons (zero (i := 8) rfl (set_uint h.alarmSN _) rfl) <|
    .cons (zero (i := 9) rfl (set_count _ _) rfl) <|
    .cons (zero (i := 10) rfl (set_string _ _) rfl) <|
    .cons (zero (i := 11) rfl (set_time h.alarmRetry _) rfl) <|
    .cons (zero (i := 12) rfl (set_count _ _) rfl) <|
    .cons (zero (i := 13) rfl (set_time h.evidenceRetry _) rfl) <|
    .cons (zero (i := 14) rfl (set_string _ _) rfl) <|
    .cons (zero (i := 15) rfl (set_uint h.nextAlarmSN _) rfl) <|
    .cons (zero (i := 16) rfl (set_uint h.lastAck _) rfl) <|
    .cons (zero (i := 17) rfl (set_uint h.droppedUpdates _) rfl) <|
    .cons (hrecords _ rfl) <|
    stores_nil _ _

/-! ## Texts -/

theorem sanitize_beq_nil (s : Bytes) : (sanitize s == []) = (s == []) := by
  rw [Bool.eq_iff_iff, beq_iff_eq, beq_iff_eq]
  exact sanitize_eq_nil

theorem reads_valid {s : Bytes} (h : validUtf8 s = true) (d : Nat) :
    Reads go escape d (.str s) (.str s) := by
  simp only [Reads]
  exact strReads_valid h

theorem reads_portable {e : AnalyticsEvent} (h : Portable e) (d : Nat) :
    Reads go escape (d + 2) (eventValue e) (eventValue e) := by
  have := reads_eventValue d e
  rwa [h.clean] at this

theorem reads_recordValue {r : Record} (h : r.Portable) (d : Nat) :
    Reads go escape (d + 3) (recordValue r) (recordValue r.clean) := by
  unfold recordValue
  simp only [recordMembers, Record.clean, sanitize_beq_nil]
  exact reads_obj <|
    .cons rfl (reads_valid h.key _) <| .cons rfl (reads_uint _ _) <|
    .cons rfl (reads_portable h.event _) <|
    .cons rfl (reads_valid (SinkState.name_valid h.alarmState) _) <|
    .cons rfl (reads_valid (SinkState.name_valid h.evidenceState) _) <|
    .cons rfl (reads_uint _ _) <| .cons rfl (reads_int _ _) <| .omit rfl (reads_string _ _) <|
    .omit rfl (reads_int _ _) <| .omit rfl (reads_int _ _) <| .omit rfl (reads_int _ _) <|
    .omit rfl (reads_string _ _) <| readsMembers_nil _

theorem reads_entryValue {e : JournalEntry} (h : e.Portable) (hv : e.version = journalVersion)
    (d : Nat) : Reads go escape (d + 5) (entryValue e) (entryValue e.clean) := by
  have hevent : Portable (e.event.getD .zero) := by
    cases he : e.event with
    | none => exact ⟨by constructor <;> simp [AnalyticsEvent.zero], rfl⟩
    | some ev => exact h.event ev he
  have hrecords : Reads go escape (d + 4) (.arr (e.records.map recordValue))
      (.arr ((e.records.map Record.clean).map recordValue)) := by
    rw [List.map_map]
    exact reads_arr fun r hr => reads_recordValue (h.records r hr) d
  have hempty : (e.records.map Record.clean).isEmpty = e.records.isEmpty := List.isEmpty_map
  unfold entryValue
  simp only [entryMembers, JournalEntry.clean, sanitize_beq_nil, hempty, hv]
  exact reads_obj <|
    .cons rfl (reads_int _ _) <| .cons rfl (reads_valid (Op.name_valid h.op) _) <|
    .omit rfl (reads_valid h.deviceID _) <| .omit rfl (reads_valid h.key _) <|
    .omit rfl (reads_uint _ _) <| .omit rfl (reads_portable hevent _) <|
    .omit rfl (reads_valid (SinkState.name_valid h.alarmState) _) <|
    .omit rfl (reads_valid (SinkState.name_valid h.evidenceState) _) <|
    .omit rfl (reads_uint _ _) <| .omit rfl (reads_int _ _) <| .omit rfl (reads_string _ _) <|
    .omit rfl (reads_int _ _) <| .omit rfl (reads_int _ _) <| .omit rfl (reads_int _ _) <|
    .omit rfl (reads_string _ _) <| .omit rfl (reads_uint _ _) <| .omit rfl (reads_uint _ _) <|
    .omit rfl (reads_uint _ _) <| .omit rfl hrecords <| readsMembers_nil _

theorem timeRange_version : TimeRange journalVersion := by
  unfold TimeRange
  decide

theorem Record.Portable.cleaned {r : Record} (h : r.Portable) : r.clean.Portable := { h with }

theorem JournalEntry.Portable.cleaned {e : JournalEntry} (h : e.Portable) : e.clean.Portable :=
  { h with
    version := timeRange_version
    records := fun r hr => by
      obtain ⟨r', hr', rfl⟩ := List.mem_map.mp hr
      exact (h.records r' hr').cleaned }

theorem JournalEntry.Portable.versioned {e : JournalEntry} (h : e.Portable) :
    { e with version := journalVersion : JournalEntry }.Portable := 
  { h with version := timeRange_version }

theorem entryText_brace (e : JournalEntry) : ∃ s, entryText e = 0x7B :: (s ++ [0x7D]) := by
  simp only [entryText, marshal, entryValue, Json.print]
  exact ⟨_, rfl⟩

theorem reads_entryText {e : JournalEntry} (h : e.Portable) :
    Reads go escape maxNestingDepth (entryValue { e with version := journalVersion })
      (entryValue e.clean) :=
  reads_entryValue h.versioned rfl 9995

/-- **An entry is read back from its line**, with or without the newline. -/
theorem decodeEntry_encodeEntry {e : JournalEntry} (h : e.Portable) :
    decodeEntry (trimSpace (encodeEntry e)) = some e.clean ∧
      decodeEntry (trimSpace (entryText e)) = some e.clean := by
  obtain ⟨s, hs⟩ := entryText_brace e
  have hread : decodeEntry (entryText e) = some e.clean := by
    have := readValue_print (reads_entryText h) (show go.skipWs [] = [] from rfl)
    rw [List.append_nil] at this
    rw [decodeEntry, entryText, marshal, entryValue, this, Option.bind_some,
      decode_entryValue h.cleaned]
  have hline : trimSpace (encodeEntry e) = entryText e := by
    rw [encodeEntry, hs]
    exact trimSpace_line s
  have htext : trimSpace (entryText e) = entryText e := by
    rw [hs]
    exact trimSpace_object s
  rw [hline, htext]
  exact ⟨hread, hread⟩

/-- **A proper cut of an entry's text is refused.** -/
theorem decodeEntry_cut {e : JournalEntry} (h : e.Portable) {u v : Bytes}
    (huv : u ++ v = entryText e) (hu : u ≠ []) (hv : v ≠ []) : decodeEntry (trimSpace u) = none := by
  obtain ⟨s, hs⟩ := entryText_brace e
  cases u with
  | nil => exact absurd rfl hu
  | cons b u =>
    obtain rfl : b = 0x7B := by
      rw [hs, List.cons_append, List.cons.injEq] at huv
      exact huv.1
    obtain ⟨w, hw⟩ := trimSpace_prefix u
    have hcut : trimSpace (0x7B :: u) ++ (w ++ v) = entryText e := by
      rw [← List.append_assoc, hw, huv]
    have hne : w ++ v ≠ [] := fun hc => hv (List.append_eq_nil_iff.mp hc).2
    rw [decodeEntry, readValue_cut (reads_entryText h) hcut hne, Option.bind_none]

theorem plain_recordValue {x : UInt8} (hx : isDigit x = false) (h' : x ≠ 0x2D) (r : Record) :
    Plain x (recordValue r) :=
  plain_obj <|
    .cons (plain_str x _) <| .cons (plain_uint hx _) <| .cons (plain_eventValue hx h' _) <|
    .cons (plain_str x _) <| .cons (plain_str x _) <| .cons (plain_uint hx _) <|
    .cons (plain_int hx h' _) <| .omit (plain_str x _) <| .omit (plain_int hx h' _) <|
    .omit (plain_int hx h' _) <| .omit (plain_int hx h' _) <| .omit (plain_str x _) <|
    plainMembers_nil x

/-- A line has its only newline at its end. -/
theorem newline_not_mem_entryText (e : JournalEntry) : newline ∉ entryText e := by
  have hx : isDigit newline = false := rfl
  have h' : newline ≠ 0x2D := by decide
  have hrecords : ∀ rs : List Record, Plain newline (.arr (rs.map recordValue)) := fun rs =>
    plain_arr fun j hj => by
      obtain ⟨r, -, rfl⟩ := List.mem_map.mp hj
      exact plain_recordValue hx h' r
  exact not_mem_marshal (by decide) <| plain_obj <|
    .cons (plain_int hx h' _) <| .cons (plain_str _ _) <| .omit (plain_str _ _) <|
    .omit (plain_str _ _) <| .omit (plain_uint hx _) <| .omit (plain_eventValue hx h' _) <|
    .omit (plain_str _ _) <| .omit (plain_str _ _) <| .omit (plain_uint hx _) <|
    .omit (plain_int hx h' _) <| .omit (plain_str _ _) <| .omit (plain_int hx h' _) <|
    .omit (plain_int hx h' _) <| .omit (plain_int hx h' _) <| .omit (plain_str _ _) <|
    .omit (plain_uint hx _) <| .omit (plain_uint hx _) <| .omit (plain_uint hx _) <|
    .omit (hrecords _) <| plainMembers_nil _

end FlowAlarm.Outbox
