import FlowAlarm.Daemon.Wire

/-!
# The subscription stream

`RPC.ConsumeEvents` subscribes to the media engine and reads one line after the
other of what `ipc_server.c` sends on that connection: the result of the
subscription, analytics records, results of acknowledgements, and the media
events that `ipc_server_broadcast_event` writes to every client.

* `consumeLine_broadcast`: a media event ends the stream, whatever it says.
* `stream_tolerates_iff`: which sequences of messages the stream survives.
-/

namespace FlowAlarm.Wire

open FlowAlarm.Text FlowAlarm.Num FlowAlarm.CJson FlowAlarm.GoJson FlowAlarm.Engine FlowAlarm.Codec

/-! ## What the server sends -/

/-- `ipc_send_result`: an answer to the request of that id. -/
def response (id : ℕ) (result : Json) : Json :=
  .obj [(ascii "v", natItem 1), (ascii "id", natItem id), (ascii "result", result)]

def subscribeResult (replayGap : Bool) (oldestCursor latestCursor : ℕ) : Json :=
  .obj [(ascii "subscribed", .bool true), (ascii "replay_gap", .bool replayGap),
    (ascii "oldest_cursor", natItem oldestCursor), (ascii "latest_cursor", natItem latestCursor)]

def ackResult (ackedCursor : ℕ) : Json := .obj [(ascii "acked_cursor", natItem ackedCursor)]

/-- The members of a media event's `params`. -/
def broadcastParams (event : Bytes) (sessionID message : Option Bytes) : List (Bytes × Json) :=
  (ascii "event", .str event) :: (sessionID.map fun s => (ascii "session_id", .str s)).toList ++
    (message.map fun s => (ascii "message", .str s)).toList

/-- The notification of `ipc_server_broadcast_event`. -/
def broadcastEvent (event : Bytes) (sessionID message : Option Bytes) : Json :=
  .obj [(ascii "v", natItem 1), (ascii "method", .str (ascii "media.event")),
    (ascii "params", .obj (broadcastParams event sessionID message))]

/-- A message of the server on a connection that asked for the event stream. -/
inductive ServerMessage where
  | subscribed (replayGap : Bool) (oldestCursor latestCursor : ℕ)
  | analytics (cursor : ℕ) (event : MeAnalyticsEvent)
  /-- The answer to the acknowledgement that was sent as request `id`. -/
  | acked (id ackedCursor : ℕ)
  /-- `error`, `eos` or `lease_expired`, for every connected client. -/
  | broadcast (event : Bytes) (sessionID message : Option Bytes)

/-- The line of a message; the subscription was request `subscribeID`. -/
def ServerMessage.line (subscribeID : ℕ) : ServerMessage → Bytes
  | .subscribed gap oldest latest =>
    printUnformatted (response subscribeID (subscribeResult gap oldest latest)) ++ [0x0A]
  | .analytics cursor event => (ipcSendAnalyticsRecord cursor event).getD []
  | .acked id cursor => printUnformatted (response id (ackResult cursor)) ++ [0x0A]
  | .broadcast event sessionID message =>
    printUnformatted (broadcastEvent event sessionID message) ++ [0x0A]

/-- What the server can send: its records are records the engine emits, the numbers are `uint64_t`;
records and answers to acknowledgements come behind the subscription's result, media events at any
time. -/
def Sends : Bool → List ServerMessage → Prop
  | _, [] => True
  | false, .subscribed _ oldest latest :: rest =>
    (oldest < 2 ^ 64 ∧ latest < 2 ^ 64) ∧ Sends true rest
  | true, .analytics cursor event :: rest =>
    (0 < cursor ∧ cursor < 2 ^ 64 ∧ Emittable event) ∧ Sends true rest
  | true, .acked id cursor :: rest => (id < 2 ^ 64 ∧ cursor < 2 ^ 64) ∧ Sends true rest
  | subscribed, .broadcast _ _ _ :: rest => Sends subscribed rest
  | _, _ => False

/-! ## The consumer -/

structure EventSubscribeInfo where
  replayGap : Bool
  oldestCursor : ℕ
  latestCursor : ℕ
  deriving DecidableEq

structure EventSubscribeResult where
  subscribed : Bool
  replayGap : Bool
  oldestCursor : ℕ
  latestCursor : ℕ
  deriving DecidableEq

def EventSubscribeResult.zero : EventSubscribeResult := ⟨false, false, 0, 0⟩

def resultFields : List (Slot EventSubscribeResult) :=
  [scalarField readBool (ascii "subscribed") fun v r => { r with subscribed := v },
    scalarField readBool (ascii "replay_gap") fun v r => { r with replayGap := v },
    scalarField (readUint 64) (ascii "oldest_cursor") fun v r => { r with oldestCursor := v },
    scalarField (readUint 64) (ascii "latest_cursor") fun v r => { r with latestCursor := v }]

/-- A call of one of the two callbacks. -/
inductive Call where
  | onInfo (info : EventSubscribeInfo)
  | onEvent (notification : EventNotification)
  deriving DecidableEq

/-- Why `ConsumeEvents` returned. -/
inductive StreamError where
  | decodeMessage
  | protocol (code : Int) (message : Bytes)
  | beforeSubscribeResponse
  | decodeNotification
  | invalidNotification
  | onEvent
  | ack (cursor : ℕ)
  | decodeSubscribeResult
  | notAccepted
  | onInfo
  deriving DecidableEq

/-- What the stream's surroundings answer while a line is handled: whether the callback and the
write of the acknowledgement return nil, and the request id that `nextID` draws. -/
structure Answers where
  callback : Bool
  ackID : ℕ
  write : Bool
  deriving DecidableEq

/-- The variables of the loop. -/
structure EventStream where
  subscribed : Bool
  pendingAcks : List (ℕ × ℕ)
  deriving DecidableEq

/-- What the loop makes of a line: the calls it makes, and how it goes on. -/
abbrev Handled : Type := List Call × Except StreamError EventStream

/-- A notification goes to `onEvent`, then its cursor is acknowledged. -/
def acceptNotification (a : Answers) (s : EventStream) (n : EventNotification) : Handled :=
  if !a.callback then ([.onEvent n], .error .onEvent)
  else if !a.write then ([.onEvent n], .error (.ack n.cursor))
  else ([.onEvent n], .ok { s with
    pendingAcks := (a.ackID, n.cursor) :: s.pendingAcks.filter (·.1 ≠ a.ackID) })

/-- A `media.event` message. -/
def consumeNotification (a : Answers) (s : EventStream) (params : Option Json) : Handled :=
  if !s.subscribed then ([], .error .beforeSubscribeResponse)
  else
    match params.bind (decodeStruct paramsFields .zero) with
    | none => ([], .error .decodeNotification)
    | some params =>
      if params.event ≠ ascii "analytics" ∨ params.cursor = 0 then
        ([], .error .invalidNotification)
      else acceptNotification a s ⟨params.cursor, params.analytics⟩

/-- The answer to the subscription. -/
def consumeSubscribeResult (a : Answers) (s : EventStream) (result : Option Json) : Handled :=
  match result.bind (decodeStruct resultFields .zero) with
  | none => ([], .error .decodeSubscribeResult)
  | some result =>
    if !result.subscribed then ([], .error .notAccepted)
    else
      let calls := [Call.onInfo ⟨result.replayGap, result.oldestCursor, result.latestCursor⟩]
      if !a.callback then (calls, .error .onInfo) else (calls, .ok { s with subscribed := true })

def consumeMessage (subscribeID : ℕ) (a : Answers) (s : EventStream) (message : RpcEnvelope) :
    Handled :=
  match message.error with
  | some e => ([], .error (.protocol e.code e.message))
  | none =>
    if message.method = ascii "media.event" then consumeNotification a s message.params
    else if message.id = subscribeID then consumeSubscribeResult a s message.result
    else ([], .ok { s with pendingAcks := s.pendingAcks.filter (·.1 ≠ message.id) })

/-- The body of `ConsumeEvents`' loop. -/
def consumeLine (subscribeID : ℕ) (a : Answers) (s : EventStream) (line : Bytes) : Handled :=
  match (readValue line).bind (decodeStruct envelopeFields .zero) with
  | none => ([], .error .decodeMessage)
  | some message => consumeMessage subscribeID a s message

/-- `ConsumeEvents` over the lines that arrive; it is still reading if the result is a state. -/
def consumeEvents (subscribeID : ℕ) : EventStream → List (Bytes × Answers) → Handled
  | s, [] => ([], .ok s)
  | s, (line, a) :: lines =>
    match consumeLine subscribeID a s line with
    | (calls, .error e) => (calls, .error e)
    | (calls, .ok s') =>
      let (later, result) := consumeEvents subscribeID s' lines
      (calls ++ later, result)

/-- The loop's variables before the first line. -/
def EventStream.fresh : EventStream := ⟨false, []⟩

/-! ## Lines that are read -/

/-- The envelope of an answer, whose id is read on its own. -/
theorem decode_response (id : ℕ) (result : Json) :
    decodeStruct envelopeFields .zero (response id result) =
      (readUint 64 (natItem id)).map fun i =>
        { RpcEnvelope.zero with v := 1, id := i, result := some result } := by
  have hone : readInt 64 (natItem 1) = some 1 :=
    (readInt_intItem (by decide)).mpr (plainNat_of_lt (by decide))
  have hv : ∀ st, storeMember envelopeFields st (ascii "v", natItem 1) =
      some { st with v := 1 } := fun st =>
    (storeMember_field envelopeFields_nodup (i := 0) rfl _ st).trans (set_num hone st)
  have hid : ∀ st, storeMember envelopeFields st (ascii "id", natItem id) =
      (readUint 64 (natItem id)).map fun i => { st with id := i } := fun st =>
    storeMember_field envelopeFields_nodup (i := 1) rfl _ st
  have hresult : ∀ st, storeMember envelopeFields st (ascii "result", result) =
      some { st with result := some result } := fun st =>
    storeMember_field envelopeFields_nodup (i := 4) rfl _ st
  simp only [response, decodeStruct, List.foldlM_cons, List.foldlM_nil, hv, hid, hresult,
    Option.bind_eq_bind, Option.bind_some]
  cases readUint 64 (natItem id) <;> rfl

theorem resultFields_nodup : (resultFields.map (·.name)).Nodup := by decide

theorem decode_subscribeResult (gap : Bool) (oldest latest : ℕ) :
    decodeStruct resultFields .zero (subscribeResult gap oldest latest) =
      (readUint 64 (natItem oldest)).bind fun o =>
        (readUint 64 (natItem latest)).map fun l => ⟨true, gap, o, l⟩ := by
  have hsubscribed : ∀ st, storeMember resultFields st (ascii "subscribed", .bool true) =
      some { st with subscribed := true } := fun st =>
    storeMember_field resultFields_nodup (i := 0) rfl _ st
  have hgap : ∀ st, storeMember resultFields st (ascii "replay_gap", .bool gap) =
      some { st with replayGap := gap } := fun st =>
    storeMember_field resultFields_nodup (i := 1) rfl _ st
  have holdest : ∀ st, storeMember resultFields st (ascii "oldest_cursor", natItem oldest) =
      (readUint 64 (natItem oldest)).map fun o => { st with oldestCursor := o } := fun st =>
    storeMember_field resultFields_nodup (i := 2) rfl _ st
  have hlatest : ∀ st, storeMember resultFields st (ascii "latest_cursor", natItem latest) =
      (readUint 64 (natItem latest)).map fun l => { st with latestCursor := l } := fun st =>
    storeMember_field resultFields_nodup (i := 3) rfl _ st
  simp only [subscribeResult, decodeStruct, List.foldlM_cons, List.foldlM_nil, hsubscribed, hgap,
    holdest, hlatest, Option.bind_eq_bind, Option.bind_some]
  cases readUint 64 (natItem oldest) with
  | none => rfl
  | some o =>
    simp only [Option.map_some, Option.bind_some]
    cases readUint 64 (natItem latest) <;> rfl

/-- An acknowledgement's answer has no member of the subscription's. -/
theorem decode_ackResult (cursor : ℕ) :
    decodeStruct resultFields .zero (ackResult cursor) = some .zero := by
  have hfind : findField resultFields (ascii "acked_cursor") = none := by decide +kernel
  simp only [ackResult, decodeStruct, List.foldlM_cons, List.foldlM_nil, storeMember, hfind,
    Option.bind_eq_bind, Option.bind_some]
  rfl

theorem readValue_response {id : ℕ} {result : Json}
    (h : Reads go printString 9999 result result) :
    readValue (printUnformatted (response id result) ++ [0x0A]) = some (response id result) := by
  have hall : Reads go printString maxNestingDepth (response id result) (response id result) :=
    (MembersRead.cons rfl (reads_natItem _ _) <| .cons rfl (reads_natItem _ _) <|
      .cons rfl h (.nil _)).obj
  exact readValue_print hall rfl

theorem reads_subscribeResult (gap : Bool) (oldest latest : ℕ) :
    Reads go printString 9999 (subscribeResult gap oldest latest)
      (subscribeResult gap oldest latest) := by
  have hbool : ∀ b, Reads go printString 9998 (.bool b) (.bool b) := fun b => by
    simp only [Reads]
  exact (MembersRead.cons rfl (hbool _) <| .cons rfl (hbool _) <| .cons rfl (reads_natItem _ _) <|
    .cons rfl (reads_natItem _ _) (.nil _)).obj

theorem reads_ackResult (cursor : ℕ) :
    Reads go printString 9999 (ackResult cursor) (ackResult cursor) :=
  (MembersRead.cons rfl (reads_natItem _ _) (.nil _)).obj

/-! ## One line -/

theorem consumeLine_response {subscribeID id : ℕ} {result : Json}
    (h : Reads go printString 9999 result result) (a : Answers) (s : EventStream) :
    consumeLine subscribeID a s (printUnformatted (response id result) ++ [0x0A]) =
      match readUint 64 (natItem id) with
      | none => ([], .error .decodeMessage)
      | some i =>
        if i = subscribeID then consumeSubscribeResult a s (some result)
        else ([], .ok { s with pendingAcks := s.pendingAcks.filter (·.1 ≠ i) }) := by
  have hmethod : ¬ ([] : Bytes) = ascii "media.event" := by decide
  rw [consumeLine, readValue_response h, Option.bind_some, decode_response]
  cases readUint 64 (natItem id) with
  | none => rfl
  | some i => simp only [Option.map_some, consumeMessage, RpcEnvelope.zero, if_neg hmethod]

theorem readValue_broadcast (event : Bytes) (sessionID message : Option Bytes) :
    readValue (printUnformatted (broadcastEvent event sessionID message) ++ [0x0A]) =
      some (broadcastEvent (sanitize event) (sessionID.map sanitize) (message.map sanitize)) := by
  have hparams : MembersRead 9998 (broadcastParams event sessionID message)
      (broadcastParams (sanitize event) (sessionID.map sanitize) (message.map sanitize)) := by
    cases sessionID <;> cases message <;>
      first
      | exact .cons rfl (reads_str _ _) (.nil _)
      | exact .cons rfl (reads_str _ _) (.cons rfl (reads_str _ _) (.nil _))
      | exact .cons rfl (reads_str _ _) (.cons rfl (reads_str _ _)
          (.cons rfl (reads_str _ _) (.nil _)))
  have hall : Reads go printString maxNestingDepth (broadcastEvent event sessionID message)
      (broadcastEvent (sanitize event) (sessionID.map sanitize) (message.map sanitize)) :=
    (MembersRead.cons rfl (reads_natItem _ _) <| .cons rfl (reads_name rfl _) <|
      .cons rfl hparams.obj (.nil _)).obj
  exact readValue_print hall rfl

/-- The parameters of a media event have no cursor. -/
theorem decode_broadcastParams (event : Bytes) (sessionID message : Option Bytes) :
    decodeStruct paramsFields .zero (.obj (broadcastParams event sessionID message)) =
      some { EventNotificationParams.zero with event := event } := by
  have hevent : ∀ st, storeMember paramsFields st (ascii "event", .str event) =
      some { st with event := event } := fun st =>
    storeMember_field paramsFields_nodup (i := 0) rfl _ st
  have hsession : findField paramsFields (ascii "session_id") = none := by decide +kernel
  have hmessage : findField paramsFields (ascii "message") = none := by decide +kernel
  have hskip : ∀ {name : Bytes} (v : Json) (st : EventNotificationParams),
      findField paramsFields name = none → storeMember paramsFields st (name, v) = some st :=
    fun v st h => by simp only [storeMember, h]
  cases sessionID <;> cases message <;>
    simp only [broadcastParams, decodeStruct, Option.map_none, Option.map_some, Option.toList_none,
      Option.toList_some, List.append_nil, List.cons_append, List.nil_append, List.foldlM_cons,
      List.foldlM_nil, hevent, hskip _ _ hsession, hskip _ _ hmessage, Option.bind_eq_bind,
      Option.bind_some] <;> rfl

/-- **A media event ends the stream**, before or after the subscription's result. -/
theorem consumeLine_broadcast (subscribeID : ℕ) (a : Answers) (s : EventStream) (event : Bytes)
    (sessionID message : Option Bytes) :
    consumeLine subscribeID a s
        ((ServerMessage.broadcast event sessionID message).line subscribeID) =
      ([], .error (if s.subscribed then .invalidNotification else .beforeSubscribeResponse)) := by
  have hline : (readValue ((ServerMessage.broadcast event sessionID message).line subscribeID)).bind
      (decodeStruct envelopeFields .zero) =
      some { RpcEnvelope.zero with
        v := 1, method := ascii "media.event"
        params := some (.obj (broadcastParams (sanitize event) (sessionID.map sanitize)
          (message.map sanitize))) } := by
    rw [ServerMessage.line, readValue_broadcast]
    exact decode_mediaEvent _
  rw [consumeLine, hline]
  simp only [consumeMessage, RpcEnvelope.zero, if_true, consumeNotification, Option.bind_some,
    decode_broadcastParams]
  cases s.subscribed <;> simp [EventNotificationParams.zero]

/-- A record's line, read as `consumeEvent` reads it. -/
theorem consumeLine_analytics {cursor : ℕ} {event : MeAnalyticsEvent} (h : Emittable event)
    (hc : cursor ≠ 0) (subscribeID : ℕ) (a : Answers) (s : EventStream) :
    ∃ e, consumeLine subscribeID a s ((ServerMessage.analytics cursor event).line subscribeID) =
      if !s.subscribed then ([], .error .beforeSubscribeResponse)
      else
        match consumeEvent ((ServerMessage.analytics cursor event).line subscribeID) with
        | none => ([], .error e)
        | some n => acceptNotification a s n := by
  have hline : (ServerMessage.analytics cursor event).line subscribeID =
      printUnformatted (notification cursor (.obj (eventMembers event))) ++ [0x0A] := by
    rw [ServerMessage.line, ipcSendAnalyticsRecord, if_neg hc, meAnalyticsEventToJson,
      if_neg (not_lt.mpr h.tracks), Option.map_some, Option.getD_some]
  have hnone : RpcEnvelope.zero.error = none := rfl
  rw [hline]
  simp only [consumeLine, consumeEvent, readValue_notification event, Option.bind_some,
    decode_envelope, consumeMessage, hnone, ne_eq, not_true_eq_false, if_false, if_true,
    consumeNotification]
  cases decodeStruct paramsFields .zero (.obj [(ascii "event", .str (ascii "analytics")),
      (ascii "cursor", natItem cursor),
      (ascii "analytics", .obj (eventMembers (cleanEvent event)))]) with
  | none => exact ⟨.decodeNotification, rfl⟩
  | some params =>
    refine ⟨.invalidNotification, ?_⟩
    by_cases hp : ¬ params.event = ascii "analytics" ∨ params.cursor = 0
    · simp only [if_pos hp]
    · simp only [if_neg hp]

/-! ## Tolerated messages -/

/-- The callback a message is meant for. -/
def ServerMessage.calls : ServerMessage → List Call
  | .subscribed gap oldest latest => [.onInfo ⟨gap, oldest, latest⟩]
  | .analytics cursor event => [.onEvent ⟨cursor, goEvent event⟩]
  | .acked _ _ => []
  | .broadcast _ _ _ => []

/-- No media event, every number printed as a plain decimal and every text UTF-8, and the callback
and the write of the acknowledgement return nil. An acknowledgement's id only has to be read as
another one than the subscription's. -/
def Tolerated (subscribeID : ℕ) (a : Answers) : ServerMessage → Prop
  | .subscribed _ oldest latest =>
    (∀ v ∈ [subscribeID, oldest, latest], PlainNat v) ∧ a.callback = true
  | .analytics cursor event =>
    ((∀ v ∈ cursor :: wideFields event, PlainNat v) ∧ TextsValid event) ∧
      a.callback = true ∧ a.write = true
  | .acked id _ => PlainInt id ∧ binary64 (id : ℚ) ≠ subscribeID
  | .broadcast _ _ _ => False

instance (subscribeID : ℕ) (a : Answers) : ∀ m, Decidable (Tolerated subscribeID a m)
  | .subscribed _ _ _ => inferInstanceAs (Decidable (_ ∧ _))
  | .analytics _ _ => inferInstanceAs (Decidable ((_ ∧ _) ∧ _ ∧ _))
  | .acked _ _ => inferInstanceAs (Decidable (_ ∧ _))
  | .broadcast _ _ _ => inferInstanceAs (Decidable False)

theorem acceptNotification_ok {a : Answers} {s s' : EventStream} {n : EventNotification}
    {calls : List Call} (h : acceptNotification a s n = (calls, .ok s')) :
    a.callback = true ∧ a.write = true ∧ calls = [.onEvent n] ∧ s'.subscribed = s.subscribed := by
  unfold acceptNotification at h
  split at h
  · cases h
  split at h
  · cases h
  cases h
  simp_all

theorem acceptNotification_of {a : Answers} (s : EventStream) (n : EventNotification)
    (hcallback : a.callback = true) (hwrite : a.write = true) :
    ∃ s', s'.subscribed = s.subscribed ∧ acceptNotification a s n = ([.onEvent n], .ok s') := by
  simp only [acceptNotification, hcallback, hwrite, Bool.not_true, Bool.false_eq_true, if_false]
  exact ⟨{ s with pendingAcks := (a.ackID, n.cursor) :: s.pendingAcks.filter (·.1 ≠ a.ackID) },
    rfl, rfl⟩

/-- The line is handled as it was meant: the message's calls are made and the stream goes on. -/
def Faithful (subscribeID : ℕ) (a : Answers) (s : EventStream) (m : ServerMessage) : Prop :=
  ∃ s', s'.subscribed = true ∧ consumeLine subscribeID a s (m.line subscribeID) = (m.calls, .ok s')

/-- A record after which the stream goes on was handed to `onEvent`. -/
theorem analytics_ok {subscribeID cursor : ℕ} {event : MeAnalyticsEvent} {a : Answers}
    {s s' : EventStream} {calls : List Call} (h : Emittable event) (hc : cursor ≠ 0)
    (hok : consumeLine subscribeID a s ((ServerMessage.analytics cursor event).line subscribeID) =
      (calls, .ok s')) :
    s.subscribed = true ∧ a.callback = true ∧ a.write = true ∧ s'.subscribed = true ∧
      ∃ n, consumeEvent ((ServerMessage.analytics cursor event).line subscribeID) = some n ∧
        calls = [.onEvent n] := by
  obtain ⟨e, he⟩ := consumeLine_analytics h hc subscribeID a s
  rw [he] at hok
  split at hok
  · cases hok
  next hs =>
    have hs : s.subscribed = true := by simpa using hs
    split at hok
    · cases hok
    next n hn =>
      obtain ⟨hcallback, hwrite, rfl, hs'⟩ := acceptNotification_ok hok
      exact ⟨hs, hcallback, hwrite, hs'.trans hs, n, hn, rfl⟩

/-- A record is handled as it was meant if and only if it is tolerated. -/
theorem analytics_faithful {subscribeID cursor : ℕ} {event : MeAnalyticsEvent} {a : Answers}
    {s : EventStream} (h : Emittable event) (hc : 0 < cursor ∧ cursor < 2 ^ 64)
    (hs : s.subscribed = true) :
    Faithful subscribeID a s (.analytics cursor event) ↔
      Tolerated subscribeID a (.analytics cursor event) := by
  have hsent : consumeEvent ((ServerMessage.analytics cursor event).line subscribeID) =
      some ⟨cursor, goEvent event⟩ ↔
      (∀ v ∈ cursor :: wideFields event, PlainNat v) ∧ TextsValid event := by
    rw [← consumeEvent_sent h hc]
    obtain ⟨line, hline⟩ : ∃ line, ipcSendAnalyticsRecord cursor event = some line := by
      rw [ipcSendAnalyticsRecord, if_neg hc.1.ne', meAnalyticsEventToJson,
        if_neg (not_lt.mpr h.tracks)]
      exact ⟨_, rfl⟩
    simp only [ServerMessage.line, hline, Option.getD_some, Option.some.injEq, exists_eq_left']
  constructor
  · rintro ⟨s', -, hok⟩
    obtain ⟨-, hcallback, hwrite, -, n, hn, hcalls⟩ := analytics_ok h hc.1.ne' hok
    simp only [ServerMessage.calls, List.cons.injEq, Call.onEvent.injEq, and_true] at hcalls
    rw [← hcalls] at hn
    exact ⟨hsent.mp hn, hcallback, hwrite⟩
  · rintro ⟨hplain, hcallback, hwrite⟩
    obtain ⟨e, he⟩ := consumeLine_analytics h hc.1.ne' subscribeID a s
    obtain ⟨s', hs', hok⟩ := acceptNotification_of s ⟨cursor, goEvent event⟩ hcallback hwrite
    refine ⟨s', hs'.trans hs, ?_⟩
    rw [he, hsent.mpr hplain, hs]
    exact hok

theorem consumeLine_subscribed (subscribeID : ℕ) (a : Answers) (s : EventStream) (gap : Bool)
    (oldest latest : ℕ) :
    consumeLine subscribeID a s ((ServerMessage.subscribed gap oldest latest).line subscribeID) =
      match readUint 64 (natItem subscribeID) with
      | none => ([], .error .decodeMessage)
      | some i =>
        if i = subscribeID then
          consumeSubscribeResult a s (some (subscribeResult gap oldest latest))
        else ([], .ok { s with pendingAcks := s.pendingAcks.filter (·.1 ≠ i) }) :=
  consumeLine_response (reads_subscribeResult gap oldest latest) a s

theorem consumeSubscribeResult_eq (a : Answers) (s : EventStream) (gap : Bool)
    (oldest latest : ℕ) :
    consumeSubscribeResult a s (some (subscribeResult gap oldest latest)) =
      match readUint 64 (natItem oldest), readUint 64 (natItem latest) with
      | some o, some l =>
        if !a.callback then ([.onInfo ⟨gap, o, l⟩], .error .onInfo)
        else ([.onInfo ⟨gap, o, l⟩], .ok { s with subscribed := true })
      | _, _ => ([], .error .decodeSubscribeResult) := by
  rw [consumeSubscribeResult, Option.bind_some, decode_subscribeResult]
  cases readUint 64 (natItem oldest) with
  | none => rfl
  | some o => cases readUint 64 (natItem latest) <;> rfl

/-- After the subscription's result the stream goes on subscribed, or its id was misread. -/
theorem subscribed_ok {subscribeID oldest latest : ℕ} {gap : Bool} {a : Answers}
    {s s' : EventStream} {calls : List Call}
    (hok : consumeLine subscribeID a s
      ((ServerMessage.subscribed gap oldest latest).line subscribeID) = (calls, .ok s')) :
    (readUint 64 (natItem subscribeID) = some subscribeID ∧ a.callback = true ∧
      s'.subscribed = true ∧ ∃ o l, readUint 64 (natItem oldest) = some o ∧
        readUint 64 (natItem latest) = some l ∧ calls = [.onInfo ⟨gap, o, l⟩]) ∨
    (calls = [] ∧ s'.subscribed = s.subscribed) := by
  rw [consumeLine_subscribed] at hok
  split at hok
  · cases hok
  next i hi =>
    split at hok
    · next heq =>
      rw [consumeSubscribeResult_eq] at hok
      split at hok
      · next o l ho hl =>
        split at hok
        · cases hok
        next hcallback =>
          cases hok
          exact .inl ⟨by rw [hi, heq], by simpa using hcallback, rfl, o, l, ho, hl, rfl⟩
      · cases hok
    · cases hok
      exact .inr ⟨rfl, rfl⟩

theorem subscribed_faithful {subscribeID oldest latest : ℕ} (hid : subscribeID < 2 ^ 64)
    (ho : oldest < 2 ^ 64) (hl : latest < 2 ^ 64) (gap : Bool) (a : Answers) (s : EventStream) :
    Faithful subscribeID a s (.subscribed gap oldest latest) ↔
      Tolerated subscribeID a (.subscribed gap oldest latest) := by
  simp only [Tolerated, List.forall_mem_cons, ← readUint_natItem hid, ← readUint_natItem ho,
    ← readUint_natItem hl, List.not_mem_nil, false_implies, implies_true, and_true]
  constructor
  · rintro ⟨s', -, hok⟩
    rcases subscribed_ok hok with ⟨hi, hcallback, -, o, l, ho', hl', hcalls⟩ | ⟨hcalls, -⟩
    · simp only [ServerMessage.calls, List.cons.injEq, Call.onInfo.injEq,
        EventSubscribeInfo.mk.injEq, true_and, and_true] at hcalls
      rw [← hcalls.1] at ho'
      rw [← hcalls.2] at hl'
      exact ⟨⟨hi, ho', hl'⟩, hcallback⟩
    · cases hcalls
  · rintro ⟨⟨hi, ho', hl'⟩, hcallback⟩
    refine ⟨{ s with subscribed := true }, rfl, ?_⟩
    rw [consumeLine_subscribed, hi]
    simp only [if_true, consumeSubscribeResult_eq, ho', hl', hcallback, Bool.not_true,
      Bool.false_eq_true, if_false]
    rfl

/-- An answer to an acknowledgement calls nothing; the stream goes on unless it is not tolerated. -/
theorem consumeLine_acked (subscribeID : ℕ) (a : Answers) (s : EventStream) (id cursor : ℕ) :
    ∃ e pending, consumeLine subscribeID a s ((ServerMessage.acked id cursor).line subscribeID) =
      if Tolerated subscribeID a (.acked id cursor) then ([], .ok { s with pendingAcks := pending })
      else ([], .error e) := by
  obtain ⟨d, hd, hread⟩ := readUint_natItem_eq id
  have hne : binary64 (id : ℚ) ≠ subscribeID ↔ d ≠ subscribeID := by
    rw [hd, ne_eq, Nat.cast_inj]
  simp only [ServerMessage.line, consumeLine_response (reads_ackResult cursor), hread, Tolerated,
    hne]
  by_cases hp : PlainInt id
  · simp only [hp, if_true, true_and]
    by_cases hi : d = subscribeID
    · refine ⟨.notAccepted, [], ?_⟩
      have hzero : EventSubscribeResult.zero.subscribed = false := rfl
      simp only [hi, if_true, ne_eq, not_true_eq_false, if_false, consumeSubscribeResult,
        Option.bind_some, decode_ackResult, hzero, Bool.not_false]
    · refine ⟨.notAccepted, s.pendingAcks.filter (·.1 ≠ d), ?_⟩
      simp only [hi, if_false, ne_eq, not_false_eq_true, if_true]
  · exact ⟨.decodeMessage, [], by simp only [hp, if_false, false_and]⟩

/-! ## Runs -/

/-- The lines of the messages, as they arrive. -/
def arrivals (subscribeID : ℕ) (messages : List (ServerMessage × Answers)) :
    List (Bytes × Answers) :=
  messages.map fun p => (p.1.line subscribeID, p.2)

/-- Until it is subscribed, the loop calls nothing for the messages behind the result. -/
theorem unsubscribed_silent {subscribeID : ℕ} {messages : List (ServerMessage × Answers)}
    {s : EventStream} (hs : s.subscribed = false) (hsends : Sends true (messages.map Prod.fst)) :
    (consumeEvents subscribeID s (arrivals subscribeID messages)).1 = [] := by
  induction messages generalizing s with
  | nil => rfl
  | cons p rest ih =>
    obtain ⟨m, a⟩ := p
    -- an error ends the stream without a call
    have hstop : ∀ e, consumeLine subscribeID a s (m.line subscribeID) = ([], .error e) →
        (consumeEvents subscribeID s (arrivals subscribeID ((m, a) :: rest))).1 = [] := by
      intro e he
      simp only [arrivals, List.map_cons, consumeEvents, he]
    cases m with
    | subscribed gap oldest latest => exact hsends.elim
    | analytics cursor event =>
      obtain ⟨e, he⟩ := consumeLine_analytics hsends.1.2.2 hsends.1.1.ne' subscribeID a s
      rw [hs] at he
      exact hstop _ he
    | acked id cursor =>
      obtain ⟨e, pending, he⟩ := consumeLine_acked subscribeID a s id cursor
      split at he
      · have := ih (s := { s with pendingAcks := pending }) hs hsends.2
        simp only [arrivals, List.map_cons, consumeEvents, he, List.nil_append] at this ⊢
        exact this
      · exact hstop _ he
    | broadcast event sessionID message => exact hstop _ (consumeLine_broadcast _ _ _ _ _ _)

theorem faithful_iff {subscribeID : ℕ} (hid : subscribeID < 2 ^ 64) {m : ServerMessage}
    {rest : List ServerMessage} {s : EventStream} (hsends : Sends s.subscribed (m :: rest))
    (a : Answers) : Faithful subscribeID a s m ↔ Tolerated subscribeID a m := by
  cases m with
  | subscribed gap oldest latest =>
    cases hs : s.subscribed with
    | true =>
      rw [hs] at hsends
      exact hsends.elim
    | false =>
      rw [hs] at hsends
      exact subscribed_faithful hid hsends.1.1 hsends.1.2 gap a s
  | analytics cursor event =>
    cases hs : s.subscribed with
    | true =>
      rw [hs] at hsends
      exact analytics_faithful hsends.1.2.2 ⟨hsends.1.1, hsends.1.2.1⟩ hs
    | false =>
      rw [hs] at hsends
      exact hsends.elim
  | acked id cursor =>
    cases hs : s.subscribed with
    | true =>
      obtain ⟨e, pending, he⟩ := consumeLine_acked subscribeID a s id cursor
      unfold Faithful
      rw [he]
      by_cases ht : Tolerated subscribeID a (.acked id cursor)
      · simp only [ht, if_true, iff_true]
        exact ⟨{ s with pendingAcks := pending }, hs, rfl⟩
      · simp [ht]
    | false =>
      rw [hs] at hsends
      exact hsends.elim
  | broadcast event sessionID message =>
    simp only [Faithful, consumeLine_broadcast, Tolerated, iff_false]
    rintro ⟨_, -, h⟩
    cases h

/-- What the server may send behind a message that was handled as it was meant. -/
theorem Sends.tail {subscribed : Bool} {m : ServerMessage} {rest : List ServerMessage}
    (h : Sends subscribed (m :: rest)) (hm : ∀ e i b, m ≠ .broadcast e i b) : Sends true rest := by
  cases subscribed <;> cases m <;> first | exact h.2 | exact h.elim | exact absurd rfl (hm _ _ _)

/-- The messages' calls are made, each once and in their order, and the stream is still read. -/
def Survives (subscribeID : ℕ) (s : EventStream) (messages : List (ServerMessage × Answers)) :
    Prop :=
  (consumeEvents subscribeID s (arrivals subscribeID messages)).1 =
      messages.flatMap (fun p => p.1.calls) ∧
    ∃ s', (consumeEvents subscribeID s (arrivals subscribeID messages)).2 = .ok s'

theorem survives_cons {subscribeID : ℕ} {s s' : EventStream} {m : ServerMessage} {a : Answers}
    {rest : List (ServerMessage × Answers)} {calls : List Call}
    (h : consumeLine subscribeID a s (m.line subscribeID) = (calls, .ok s')) :
    Survives subscribeID s ((m, a) :: rest) ↔
      calls ++ (consumeEvents subscribeID s' (arrivals subscribeID rest)).1 =
          m.calls ++ rest.flatMap (fun p => p.1.calls) ∧
        ∃ t, (consumeEvents subscribeID s' (arrivals subscribeID rest)).2 = .ok t := by
  simp only [Survives, arrivals, List.map_cons, consumeEvents, h, List.flatMap_cons]

/-- In a run that survives, the first message is handled as it was meant. -/
theorem faithful_of_survives {subscribeID : ℕ} {s : EventStream} {m : ServerMessage} {a : Answers}
    {rest : List (ServerMessage × Answers)}
    (hid : subscribeID < 2 ^ 64) (hsends : Sends s.subscribed (m :: rest.map Prod.fst))
    (h : Survives subscribeID s ((m, a) :: rest)) : Faithful subscribeID a s m := by
  rcases hline : consumeLine subscribeID a s (m.line subscribeID) with ⟨calls, e | s'⟩
  · obtain ⟨-, t, ht⟩ := h
    simp only [arrivals, List.map_cons, consumeEvents, hline] at ht
    cases ht
  obtain ⟨hcalls, -⟩ := (survives_cons hline).mp h
  cases m with
  | subscribed gap oldest latest =>
    rcases subscribed_ok hline with ⟨-, -, hs', o, l, -, -, rfl⟩ | ⟨rfl, hs'⟩
    · have hhead := (List.cons.inj hcalls).1
      exact ⟨s', hs', by rw [hline, hhead]; rfl⟩
    · -- the result was not recognized, and nothing behind it is
      cases hs : s.subscribed with
      | true =>
        rw [hs] at hsends
        exact hsends.elim
      | false =>
        rw [hs] at hsends hs'
        rw [unsubscribed_silent hs' hsends.2] at hcalls
        cases hcalls
  | analytics cursor event =>
    cases hs : s.subscribed with
    | true =>
      rw [hs] at hsends
      obtain ⟨-, -, -, hs', n, -, rfl⟩ := analytics_ok hsends.1.2.2 hsends.1.1.ne' hline
      have hhead := (List.cons.inj hcalls).1
      exact ⟨s', hs', by rw [hline, hhead]; rfl⟩
    | false =>
      rw [hs] at hsends
      exact hsends.elim
  | acked id cursor =>
    rw [faithful_iff hid hsends]
    obtain ⟨e, pending, he⟩ := consumeLine_acked subscribeID a s id cursor
    by_contra ht
    rw [he, if_neg ht] at hline
    cases hline
  | broadcast event sessionID message =>
    rw [consumeLine_broadcast] at hline
    cases hline

theorem survives_iff {subscribeID : ℕ} (hid : subscribeID < 2 ^ 64)
    {messages : List (ServerMessage × Answers)} {s : EventStream}
    (hsends : Sends s.subscribed (messages.map Prod.fst)) :
    Survives subscribeID s messages ↔ ∀ p ∈ messages, Tolerated subscribeID p.2 p.1 := by
  induction messages generalizing s with
  | nil => simp [Survives, arrivals, consumeEvents]
  | cons p rest ih =>
    obtain ⟨m, a⟩ := p
    rw [List.map_cons] at hsends
    rw [List.forall_mem_cons, ← faithful_iff hid hsends a]
    have hnext : Faithful subscribeID a s m → (Survives subscribeID s ((m, a) :: rest) ↔
        ∀ p ∈ rest, Tolerated subscribeID p.2 p.1) := by
      rintro ⟨s', hs', hline⟩
      have htail : Sends s'.subscribed (rest.map Prod.fst) := by
        rw [hs']
        refine hsends.tail ?_
        rintro e i b rfl
        rw [consumeLine_broadcast] at hline
        cases hline
      rw [survives_cons hline, ← ih htail, List.append_cancel_left_eq]
      rfl
    constructor
    · intro h
      have hf := faithful_of_survives hid hsends h
      exact ⟨hf, (hnext hf).mp h⟩
    · rintro ⟨hf, hrest⟩
      exact (hnext hf).mpr hrest

/-- **The stream survives what the server sends if and only if no media event is among it** (and no
number and text that the two sides read differently). -/
theorem stream_tolerates_iff {subscribeID : ℕ} (hid : subscribeID < 2 ^ 64)
    {messages : List (ServerMessage × Answers)} (hsends : Sends false (messages.map Prod.fst)) :
    ((consumeEvents subscribeID .fresh (arrivals subscribeID messages)).1 =
        messages.flatMap (fun p => p.1.calls) ∧
      ∃ s, (consumeEvents subscribeID .fresh (arrivals subscribeID messages)).2 = .ok s) ↔
    ∀ p ∈ messages, Tolerated subscribeID p.2 p.1 :=
  survives_iff hid hsends

/-- Everything is answered as the stream hopes. -/
def fineAnswers (ackID : ℕ) : Answers := ⟨true, ackID, true⟩

/-- A subscription, one record and the answer to its acknowledgement. -/
def exchange : List (ServerMessage × Answers) :=
  [(.subscribed false 7 7, fineAnswers 0),
    (.analytics 7 (startedAt 1700000000000001), fineAnswers 2), (.acked 2 7, fineAnswers 0)]

theorem exchange_sends : Sends false (exchange.map Prod.fst) :=
  ⟨⟨by decide, by decide⟩, ⟨by decide, by decide, startedAt_emittable (by decide)⟩,
    ⟨by decide, by decide⟩, trivial⟩

theorem stream_tolerates_demo :
    (consumeEvents 1 .fresh (arrivals 1 exchange)).1 =
      [.onInfo ⟨false, 7, 7⟩, .onEvent ⟨7, goEvent (startedAt 1700000000000001)⟩] ∧
    ∃ s, (consumeEvents 1 .fresh (arrivals 1 exchange)).2 = .ok s :=
  (stream_tolerates_iff (by decide) exchange_sends).mpr (by decide +kernel)

/-- An end of stream of the pipeline reaches the subscriber too, and the record behind it is never
handed on. -/
theorem media_event_ends_stream :
    Sends false [.subscribed false 0 0, .broadcast (ascii "eos") none none,
      .analytics 1 (startedAt 1700000000000001)] ∧
    consumeEvents 1 .fresh (arrivals 1
      [(.subscribed false 0 0, fineAnswers 0), (.broadcast (ascii "eos") none none, fineAnswers 0),
        (.analytics 1 (startedAt 1700000000000001), fineAnswers 2)]) =
      ([.onInfo ⟨false, 0, 0⟩], .error .invalidNotification) := by
  have hfirst : consumeLine 1 (fineAnswers 0) .fresh
      ((ServerMessage.subscribed false 0 0).line 1) =
      ([.onInfo ⟨false, 0, 0⟩], .ok ⟨true, []⟩) := by decide +kernel
  refine ⟨⟨⟨by decide, by decide⟩,
    ⟨by decide, by decide, startedAt_emittable (by decide)⟩, trivial⟩, ?_⟩
  simp only [arrivals, List.map_cons, consumeEvents, hfirst, consumeLine_broadcast]
  rfl

end FlowAlarm.Wire
