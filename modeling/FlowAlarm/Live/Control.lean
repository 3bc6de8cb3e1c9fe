import FlowAlarm.Codec.CJson
import FlowAlarm.Live.GstRunner
import FlowAlarm.Text.GoJson

/-!
# Control requests of the daemon

`ipc_server.c` and `engine.c` behind `media.start_live`, `media.stop_live`,
`media.keepalive_live` and `media.get_status`. A request holds what the daemon
passes to `media/rpc.go`; its texts reach the engine through `encoding/json` and
cJSON (`paramText`), those of a status come back the other way (`resultText`).
Integers of a request survive the double unless they are out of range of an
`int` anyway.
-/

namespace FlowAlarm.Live

open FlowAlarm.Text FlowAlarm.CJson

/-! ## Texts on the wire -/

/-- What `json_string` gives for a string the daemon marshalled. -/
def paramText (s : Bytes) : Bytes := cString ((unquote (GoJson.escape s)).getD [])

/-- What the daemon decodes from a C string the engine printed. -/
def resultText (s : Bytes) : Bytes := (GoJson.unquote (printString s)).getD []

/-- `snprintf(buf, cap, "%s", s)`. -/
def bounded (cap : ℕ) (s : Bytes) : Bytes := s.take (cap - 1)

theorem parseHex4_of_getu4 {a b c d : UInt8} {r : ℕ} (h : GoJson.getu4 a b c d = some r) :
    parseHex4 a b c d = r := by
  unfold GoJson.getu4 at h
  unfold parseHex4
  split at h
  · next ha hb hc hd =>
    simpa [ha, hb, hc, hd] using h
  · cases h

/-- cJSON reads an ASCII byte however Go may write it. -/
theorem unquote_writes {t : Bytes} {b : UInt8} (h : GoJson.writes t b = true) (s : Bytes) :
    unquote (t ++ s) = (unquote s).map (b :: ·) := by
  unfold GoJson.writes at h
  split at h
  · next x =>
    simp only [Bool.and_eq_true, beq_iff_eq, bne_iff_ne] at h
    obtain ⟨⟨⟨⟨rfl, hx⟩, -⟩, -⟩, -⟩ := h
    exact unquote_plain hx s
  · next x c =>
    simp only [Bool.and_eq_true, beq_iff_eq, bne_iff_ne] at h
    obtain ⟨⟨rfl, hc⟩, hx⟩ := h
    exact unquote_simple hc hx s
  · next x u h1 h2 h3 h4 =>
    simp only [Bool.and_eq_true, beq_iff_eq, decide_eq_true_eq] at h
    obtain ⟨⟨⟨⟨rfl, rfl⟩, hr⟩, hb⟩, -⟩ := h
    have hlt : b.toNat < 0x80 := UInt8.lt_iff_toNat_lt.mp hb
    have hchar : utf8Encode b.toNat = [b] := by simp [utf8Encode, hlt]
    have := unquote_u (parseHex4_of_getu4 hr) (by omega) s
    rw [hchar] at this
    exact this
  · cases h

theorem unquote_high {t : Bytes} (h : ∀ c ∈ t, ¬ c < 0x80) (s : Bytes) :
    unquote (t ++ s) = (unquote s).map (t ++ ·) := by
  induction t with
  | nil => simp
  | cons b t ih =>
    obtain ⟨hb, ht⟩ := List.forall_mem_cons.mp h
    rw [List.cons_append, unquote_plain (GoJson.high_ne hb).1, ih ht, Option.map_map]
    rfl

theorem unquote_escape (s : Bytes) : unquote (GoJson.escape s) = some (sanitize s) := by
  induction s using utf8_induction with
  | nil => rfl
  | ascii b s hb ih =>
    have hstep : GoJson.escape (b :: s) = GoJson.escapeAscii b ++ GoJson.escape s := by
      rw [GoJson.escape, GoJson.escapeFrom.eq_def]
      simp only [if_pos hb]
      rfl
    have hw := GoJson.writes_escapeAscii b.toNat (UInt8.lt_iff_toNat_lt.mp hb)
    rw [UInt8.ofNat_toNat] at hw
    rw [hstep, unquote_writes hw, ih, sanitize_ascii hb, Option.map_some]
  | rune b t s hc ih =>
    rw [sanitize_rune hc]
    rcases GoJson.escape_rune hc s with he | ⟨d, hd, rfl, rfl, he⟩
    · rw [he, ← List.cons_append, unquote_high (List.forall_mem_cons.mpr ⟨hc.high, hc.bytes⟩), ih]
      rfl
    · rw [he]
      rcases hd with rfl | rfl
      · have hr : parseHex4 0x32 0x30 0x32 0x38 = 0x2028 := by decide
        have := unquote_u hr (by decide) (GoJson.escape s)
        rw [ih] at this
        exact this
      · have hr : parseHex4 0x32 0x30 0x32 0x39 = 0x2029 := by decide
        have := unquote_u hr (by decide) (GoJson.escape s)
        rw [ih] at this
        exact this
  | bad b s hb ht ih =>
    have hr : parseHex4 0x66 0x66 0x66 0x64 = 0xFFFD := by decide
    have := unquote_u hr (by decide) (GoJson.escape s)
    rw [GoJson.escape_bad hb ht, sanitize_bad hb ht]
    rw [ih] at this
    exact this

/-- **A text reaches the engine sanitized and cut at a NUL.** -/
theorem paramText_eq (s : Bytes) : paramText s = cString (sanitize s) := by
  rw [paramText, unquote_escape, Option.getD_some]

/-! ## Requests and answers -/

/-- `media.Target`. -/
structure Target where
  sessionID : Bytes
  channelID : Bytes
  codec : Bytes
  width : ℤ
  height : ℤ
  fps : ℤ
  bitrate : ℤ
  destIP : Bytes
  destPort : ℤ
  ssrc : Bytes
  payloadType : ℤ
  deriving DecidableEq

inductive Request where
  | startLive (target : Target)
  | stopLive (sessionID : Bytes)
  | keepaliveLive (sessionID : Bytes)
  | getStatus
  deriving DecidableEq

/-- `media.Status`. -/
structure Status where
  running : Bool
  fps : ℤ
  bitrate : ℤ
  sessionID : Bytes
  channelID : Bytes
  destIP : Bytes
  destPort : ℤ
  ssrc : Bytes
  deriving DecidableEq

inductive Answer where
  | ok
  | error (code : ℤ) (message : Bytes)
  | status (st : Status)
  deriving DecidableEq

/-! ## The engine -/

/-- What a start of the media engine finds: its configuration, the AIQ and the base pipeline. -/
structure Boot where
  aiqStarted : Bool
  aiqError : Bytes
  width : ℤ
  height : ℤ
  fps : ℤ
  liveLeaseTimeoutS : ℤ
  streamRotation : ℤ
  analytics : Bool
  baseError : Bytes

structure Engine where
  boot : Boot
  media : Media

def Engine.init (boot : Boot) : Engine :=
  ⟨boot, Media.fresh boot.streamRotation boot.analytics boot.baseError⟩

/-- What GStreamer and the clock answer while a request is handled. -/
structure Outcome where
  calls : StartCalls
  nowUs : ℤ
  null : StateChange

def MeErr.errorCode : MeErr → ℤ
  | .ok => 0
  | .media => -32000
  | .notFound => -32001
  | .param => -32002

def engineStartLive (e : Engine) (p : SessionParams) (o : Outcome) : MeErr × Bytes × Engine :=
  if !e.boot.aiqStarted then
    (.media, ascii "aiq not started: " ++
      (if e.boot.aiqError = [] then ascii "not started" else e.boot.aiqError), e)
  else if p.width ≠ e.boot.width ∨ p.height ≠ e.boot.height ∨ p.fps ≠ e.boot.fps then
    (.param, ascii "requested " ++ decInt p.width ++ ascii "x" ++ decInt p.height ++ ascii "@" ++
      decInt p.fps ++ ascii " does not match engine capture " ++ decInt e.boot.width ++ ascii "x" ++
      decInt e.boot.height ++ ascii "@" ++ decInt e.boot.fps, e)
  else if p.codec ≠ ascii "h264" then
    (.param, ascii "unsupported codec \"" ++ p.codec ++ ascii "\" (V1 supports h264)", e)
  else
    match sessionMgrStart e.media p o.calls o.nowUs with
    | (rc, err, m) => (rc, err, { e with media := m })

def engineGetStatus (e : Engine) : Status :=
  match e.media.sessions.head? with
  | none => ⟨false, 0, 0, [], [], [], 0, []⟩
  | some s =>
    { running := true, fps := s.params.fps, bitrate := s.params.bitrate
      sessionID := resultText s.params.sessionId, channelID := resultText s.params.channelId
      destIP := resultText s.params.destIp, destPort := s.params.destPort
      ssrc := dec s.params.ssrc }

/-! ## Parameters -/

/-- `json_int` gives an `int`, and it is positive. -/
def positiveInt (z : ℤ) : Bool := decide (0 < z ∧ z ≤ intMax)

def splitDots : Bytes → List Bytes
  | [] => [[]]
  | b :: s =>
    if b = 0x2E then [] :: splitDots s
    else
      match splitDots s with
      | [] => [[b]]
      | t :: ts => (b :: t) :: ts

/-- An octet of `inet_pton`: no sign, no leading zero. -/
def octet (s : Bytes) : Bool :=
  s != [] && s.all isDigit && decide (decVal s ≤ 255) && (s.head? != some 0x30 || s.length == 1)

/-- `me_valid_ipv4`. -/
def validIPv4 (s : Bytes) : Bool := (splitDots s).length == 4 && (splitDots s).all octet

/-- `me_parse_u32_decimal`; `strtoull` skips white space and takes a sign behind it. -/
def parseU32Decimal (s : Bytes) : Option ℕ :=
  if s = [] ∨ s.head? = some 0x2B ∨ s.head? = some 0x2D then none
  else
    let t := s.dropWhile isCSpace
    let minus := t.head? == some 0x2D
    let ds := if minus || t.head? == some 0x2B then t.drop 1 else t
    if ds = [] ∨ !ds.all isDigit ∨ 2 ^ 64 ≤ decVal ds then none
    else
      let v := if minus then (2 ^ 64 - decVal ds) % 2 ^ 64 else decVal ds
      if v < 2 ^ 32 then some v else none

/-- `ipc_bad_params` of `start_live`. -/
def badParam (message : String) : Except Answer SessionParams :=
  .error (.error (-32002) (ascii message))

/-- The parameters of `start_live`, checked in the order of the source. -/
def startLiveParams (t : Target) : Except Answer SessionParams :=
  let sessionId := paramText t.sessionID
  let channelId := paramText t.channelID
  let codec := paramText t.codec
  let destIp := paramText t.destIP
  if sessionId = [] then badParam "start_live: session_id required"
  else if channelId = [] then badParam "start_live: channel_id required"
  else if codec = [] then badParam "start_live: codec required"
  else if !positiveInt t.width then badParam "start_live: width must be positive integer"
  else if !positiveInt t.height then badParam "start_live: height must be positive integer"
  else if !positiveInt t.fps then badParam "start_live: fps must be positive integer"
  else if !positiveInt t.bitrate then badParam "start_live: bitrate must be positive integer"
  else if t.destPort < 1 ∨ 65535 < t.destPort then badParam "start_live: dest_port out of range"
  else if t.payloadType < 0 ∨ 127 < t.payloadType then
    badParam "start_live: payload_type must be 0..127"
  else if !validIPv4 destIp then badParam "start_live: dest_ip invalid IPv4"
  else
    match parseU32Decimal (paramText t.ssrc) with
    | none => badParam "start_live: ssrc must be decimal uint32"
    | some ssrc =>
      .ok ⟨bounded 128 sessionId, bounded 64 channelId, bounded 8 codec, t.width, t.height, t.fps,
        t.bitrate, bounded 64 destIp, t.destPort, ssrc, t.payloadType⟩

/-- The response to what the engine returned, its text cut to `errbuf`. -/
def respond (rc : MeErr) (err : Bytes) : Answer :=
  if rc = .ok then .ok else .error rc.errorCode (resultText (bounded 256 err))

/-! ## Handling a request -/

def ipcHandleStartLive (e : Engine) (t : Target) (o : Outcome) : Answer × Engine :=
  match startLiveParams t with
  | .error a => (a, e)
  | .ok p =>
    match engineStartLive e p o with
    | (rc, err, e') => (respond rc err, e')

def ipcHandleStopLive (e : Engine) (sessionID : Bytes) (o : Outcome) : Answer × Engine :=
  if paramText sessionID = [] then
    (.error (-32002) (ascii "stop_live: session_id required"), e)
  else
    match sessionMgrStop e.media (paramText sessionID) o.null with
    | (rc, err, m) => (respond rc err, { e with media := m })

def ipcHandleKeepaliveLive (e : Engine) (sessionID : Bytes) (o : Outcome) : Answer × Engine :=
  if paramText sessionID = [] then
    (.error (-32002) (ascii "keepalive_live: session_id required"), e)
  else
    match sessionMgrTouch e.media (paramText sessionID) o.nowUs with
    | (rc, err, m) => (respond rc err, { e with media := m })

def Engine.handle (e : Engine) (req : Request) (o : Outcome) : Answer × Engine :=
  match req with
  | .startLive t => ipcHandleStartLive e t o
  | .stopLive id => ipcHandleStopLive e id o
  | .keepaliveLive id => ipcHandleKeepaliveLive e id o
  | .getStatus => (.status (engineGetStatus e), e)

end FlowAlarm.Live
