import FlowAlarm.Codec.EventCodec

/-!
# The configuration of the engine

`config.c`: the settings as they come from a YAML document and from the command
line. libyaml and the file system are arguments, `getopt_long` is written out.
An error is its message. What an attempt leaves in the configuration when it
fails is left out: every caller gives up then.
-/

namespace FlowAlarm.Config

open FlowAlarm.Text FlowAlarm.Num FlowAlarm.Engine FlowAlarm.CJson FlowAlarm.Codec

def meCfgPathMax : Nat := 256
def meCfgSocketMax : Nat := 128
def formatMax : Nat := 16
def afModeMax : Nat := 16
def meAnalyticsEvidenceModeMax : Nat := 24

/-- `EngineConfig`. The two flags of the analytics part that only the document sets stand beside
it. -/
structure EngineConfig where
  camId : Int
  iqDir : CStr
  device : CStr
  format : CStr
  width : Int
  height : Int
  fps : Int
  connectorId : Int
  planeId : Int
  preview : Bool
  previewRotation : Int
  previewWidth : Int
  previewHeight : Int
  streamRotation : Int
  afMode : CStr
  socketPath : CStr
  snapshotDir : CStr
  liveLeaseTimeoutS : Int
  analytics : MeAnalyticsConfig
  analyticsSendUpdates : Bool
  analyticsSendEnd : Bool
  deriving DecidableEq

def engineConfigDefaults : EngineConfig where
  camId := 0
  iqDir := .ofBytes (ascii "/oem/usr/share/iqfiles") (by decide)
  device := .ofBytes (ascii "/dev/video24") (by decide)
  format := .ofBytes (ascii "NV12") (by decide)
  width := 3840
  height := 2160
  fps := 30
  connectorId := 97
  planeId := 75
  preview := true
  previewRotation := 0
  previewWidth := 480
  previewHeight := 800
  streamRotation := 0
  afMode := .ofBytes (ascii "off") (by decide)
  socketPath := .ofBytes (ascii "/var/run/gb28181_media.sock") (by decide)
  snapshotDir := .ofBytes (ascii "/data/media_engine/snapshots") (by decide)
  liveLeaseTimeoutS := 90
  analytics := meAnalyticsConfigDefaults
  analyticsSendUpdates := false
  analyticsSendEnd := false

def engineConfigValidate (c : EngineConfig) : Except Bytes Unit :=
  if c.liveLeaseTimeoutS < 0 then .error (ascii "live_lease_timeout_s cannot be negative")
  else meAnalyticsConfigValidate c.analytics

/-! ## Values -/

/-- A text as the C string it starts with. -/
def cstr (s : Bytes) : CStr := ⟨cString s, cString_nonul s⟩

/-- `me_trim`. -/
def meTrim (s : Bytes) : Bytes := ((s.dropWhile isCSpace).reverse.dropWhile isCSpace).reverse

def parseBoolValue (s : Bytes) : Option Bool :=
  if s = ascii "1" ∨ strcasecmpEq s (ascii "on") ∨ strcasecmpEq s (ascii "true") ∨
    strcasecmpEq s (ascii "yes") then some true
  else if s = ascii "0" ∨ strcasecmpEq s (ascii "off") ∨ strcasecmpEq s (ascii "false") ∨
    strcasecmpEq s (ascii "no") then some false
  else none

/-- `strtol(s, &end, 10)` with a `long` of 64 bits, without range error and up to the terminator.
An empty text leaves `end` at the terminator. -/
def strtol (s : Bytes) : Option Int := if s = [] then some 0 else strtoll s

def intMin : Int := -2 ^ 31
def intMax : Int := 2 ^ 31 - 1

def quoted (s : Bytes) : Bytes := 0x22 :: (s ++ [0x22])

def parseIntValue (s key : Bytes) : Except Bytes Int :=
  if s = [] then .error (ascii "config " ++ key ++ ascii ": empty value")
  else
    match strtol s with
    | none => .error (ascii "config " ++ key ++ ascii ": invalid integer " ++ quoted s)
    | some v =>
      if v < intMin ∨ intMax < v then
        .error (ascii "config " ++ key ++ ascii ": invalid integer " ++ quoted s)
      else .ok v

/-- `strtoull(s, &end, 10)` without range error and up to the terminator; it skips white space and
takes a sign. -/
def strtoullWhole (s : Bytes) : Option Nat :=
  let (neg, _, ds) := scanSign (s.dropWhile isCSpace)
  if ds ≠ [] ∧ ds.all isDigit ∧ decVal ds ≤ uint64Max then
    some (if neg then (2 ^ 64 - decVal ds) % 2 ^ 64 else decVal ds)
  else none

/-- `parse_u32_value` and `parse_u64_value`, which differ in the largest value. -/
def parseUnsignedValue (max : Nat) (s key : Bytes) : Except Bytes Nat :=
  if s = [] ∨ s.head? = some 0x2D ∨ s.head? = some 0x2B then
    .error (ascii "config " ++ key ++ ascii ": empty value")
  else
    match strtoullWhole s with
    | none => .error (ascii "config " ++ key ++ ascii ": invalid unsigned integer " ++ quoted s)
    | some v =>
      if max < v then
        .error (ascii "config " ++ key ++ ascii ": invalid unsigned integer " ++ quoted s)
      else .ok v

def parseU32Value : Bytes → Bytes → Except Bytes Nat := parseUnsignedValue uint32Max

def parseU64Value : Bytes → Bytes → Except Bytes Nat := parseUnsignedValue uint64Max

/-- Where a value stands, for the messages. -/
structure Site where
  key : Bytes
  path : Bytes
  line : Nat
  deriving DecidableEq

def Site.message (site : Site) (text : Bytes) : Bytes :=
  site.path ++ ascii ":" ++ dec site.line ++ ascii ": " ++ text

def setString (cap : Nat) (value : CStr) (site : Site) : Except Bytes CStr :=
  if cap ≤ value.bytes.length then
    .error (site.message (ascii "value for " ++ quoted site.key ++ ascii " too long (max " ++
      dec (cap - 1) ++ ascii ")"))
  else .ok value

def meAnalyticsRuleTypeParse (value : Bytes) : Option MeRuleType :=
  if strcasecmpEq value (ascii "occupancy") then some .occupancy
  else if strcasecmpEq value (ascii "line_cross") ∨ strcasecmpEq value (ascii "line-cross") then
    some .lineCross
  else if strcasecmpEq value (ascii "intrusion") then some .intrusion
  else none

/-! ## The keys of the document -/

inductive Key where
  | camId | iqDir | device | format | width | height | fps | connectorId | planeId | preview
  | previewRotation | streamRotation | previewWidth | previewHeight | afMode | socket | socketPath
  | snapshotDir | liveLeaseTimeoutS
  | analyticsEnabled | analyticsBackend | analyticsModel | analyticsWidth | analyticsHeight
  | analyticsFps | analyticsScoreThresholdQ | analyticsConfirmFrames | analyticsConfirmMs
  | analyticsDebounceMs | analyticsDisappearGraceMs | analyticsCooldownMs
  | analyticsUpdateIntervalMs | analyticsSendUpdates | analyticsSendEnd | analyticsRoiEnabled
  | analyticsRoiLeft | analyticsRoiTop | analyticsRoiRight | analyticsRoiBottom
  | analyticsLineEnabled | analyticsLineX1 | analyticsLineY1 | analyticsLineX2 | analyticsLineY2
  | analyticsRuleId | analyticsRuleType | analyticsEvidenceMode | analyticsEvidenceMaxBytes
  | analyticsEvidenceRetentionS | analyticsEvidenceJpegQuality | analyticsEventLogMaxRecords
  | analyticsEventLogMaxBytes | analyticsEventLogPath
  deriving DecidableEq

/-- The table of `is_known_key`. -/
def knownKeys : List (Bytes × Key) :=
  [(ascii "cam_id", .camId), (ascii "iq_dir", .iqDir), (ascii "device", .device),
    (ascii "format", .format), (ascii "width", .width), (ascii "height", .height),
    (ascii "fps", .fps), (ascii "connector_id", .connectorId), (ascii "plane_id", .planeId),
    (ascii "preview", .preview), (ascii "preview_rotation", .previewRotation),
    (ascii "stream_rotation", .streamRotation), (ascii "preview_width", .previewWidth),
    (ascii "preview_height", .previewHeight), (ascii "af_mode", .afMode),
    (ascii "socket", .socket), (ascii "socket_path", .socketPath),
    (ascii "snapshot_dir", .snapshotDir), (ascii "live_lease_timeout_s", .liveLeaseTimeoutS),
    (ascii "analytics_enabled", .analyticsEnabled),
    (ascii "analytics_backend", .analyticsBackend), (ascii "analytics_model", .analyticsModel),
    (ascii "analytics_width", .analyticsWidth), (ascii "analytics_height", .analyticsHeight),
    (ascii "analytics_fps", .analyticsFps),
    (ascii "analytics_score_threshold_q", .analyticsScoreThresholdQ),
    (ascii "analytics_confirm_frames", .analyticsConfirmFrames),
    (ascii "analytics_confirm_ms", .analyticsConfirmMs),
    (ascii "analytics_debounce_ms", .analyticsDebounceMs),
    (ascii "analytics_disappear_grace_ms", .analyticsDisappearGraceMs),
    (ascii "analytics_cooldown_ms", .analyticsCooldownMs),
    (ascii "analytics_update_interval_ms", .analyticsUpdateIntervalMs),
    (ascii "analytics_send_updates", .analyticsSendUpdates),
    (ascii "analytics_send_end", .analyticsSendEnd),
    (ascii "analytics_roi_enabled", .analyticsRoiEnabled),
    (ascii "analytics_roi_left", .analyticsRoiLeft), (ascii "analytics_roi_top", .analyticsRoiTop),
    (ascii "analytics_roi_right", .analyticsRoiRight),
    (ascii "analytics_roi_bottom", .analyticsRoiBottom),
    (ascii "analytics_line_enabled", .analyticsLineEnabled),
    (ascii "analytics_line_x1", .analyticsLineX1), (ascii "analytics_line_y1", .analyticsLineY1),
    (ascii "analytics_line_x2", .analyticsLineX2), (ascii "analytics_line_y2", .analyticsLineY2),
    (ascii "analytics_rule_id", .analyticsRuleId),
    (ascii "analytics_rule_type", .analyticsRuleType),
    (ascii "analytics_evidence_mode", .analyticsEvidenceMode),
    (ascii "analytics_evidence_max_bytes", .analyticsEvidenceMaxBytes),
    (ascii "analytics_evidence_retention_s", .analyticsEvidenceRetentionS),
    (ascii "analytics_evidence_jpeg_quality", .analyticsEvidenceJpegQuality),
    (ascii "analytics_event_log_max_records", .analyticsEventLogMaxRecords),
    (ascii "analytics_event_log_max_bytes", .analyticsEventLogMaxBytes),
    (ascii "analytics_event_log_path", .analyticsEventLogPath)]

def keyNamed (name : Bytes) : Option Key := (knownKeys.find? (·.1 == name)).map (·.2)

section

variable (site : Site) (value : CStr)

/-- An integer key; `check` is the test after the conversion and `rule` its message. -/
def intKey (check : Int → Bool) (rule : Bytes) (put : Int → EngineConfig) :
    Except Bytes EngineConfig :=
  match parseIntValue value.bytes site.key with
  | .error e => .error e
  | .ok v => if check v then .ok (put v) else .error (site.message (site.key ++ rule))

def plainIntKey : (Int → EngineConfig) → Except Bytes EngineConfig :=
  intKey site value (fun _ => true) []

def isRotation (v : Int) : Bool := v == 0 || v == 90 || v == 180 || v == 270

def isEvenSize (v : Int) : Bool := 2 ≤ v && v % 2 == 0

def rotationKey : (Int → EngineConfig) → Except Bytes EngineConfig :=
  intKey site value isRotation (ascii " must be 0/90/180/270")

def evenKey : (Int → EngineConfig) → Except Bytes EngineConfig :=
  intKey site value isEvenSize (ascii " must be an even number >= 2")

def u32Key (put : Nat → EngineConfig) : Except Bytes EngineConfig :=
  (parseU32Value value.bytes site.key).map put

def u64Key (put : Nat → EngineConfig) : Except Bytes EngineConfig :=
  (parseU64Value value.bytes site.key).map put

def stringKey (cap : Nat) (put : CStr → EngineConfig) : Except Bytes EngineConfig :=
  (setString cap value site).map put

def boolKey (put : Bool → EngineConfig) : Except Bytes EngineConfig :=
  match parseBoolValue value.bytes with
  | some b => .ok (put b)
  | none => .error (site.message (site.key ++ ascii " must be on/off"))

/-- The branch of `config_apply_document` for a key. -/
def Key.apply (c : EngineConfig) : Key → Except Bytes EngineConfig
  | .camId => plainIntKey site value fun v => { c with camId := v }
  | .iqDir => stringKey site value meCfgPathMax fun v => { c with iqDir := v }
  | .device => stringKey site value meCfgSocketMax fun v => { c with device := v }
  | .format => stringKey site value formatMax fun v => { c with format := v }
  | .width => plainIntKey site value fun v => { c with width := v }
  | .height => plainIntKey site value fun v => { c with height := v }
  | .fps => plainIntKey site value fun v => { c with fps := v }
  | .connectorId => plainIntKey site value fun v => { c with connectorId := v }
  | .planeId => plainIntKey site value fun v => { c with planeId := v }
  | .preview => boolKey site value fun v => { c with preview := v }
  | .previewRotation => rotationKey site value fun v => { c with previewRotation := v }
  | .streamRotation => rotationKey site value fun v => { c with streamRotation := v }
  | .previewWidth => evenKey site value fun v => { c with previewWidth := v }
  | .previewHeight => evenKey site value fun v => { c with previewHeight := v }
  | .afMode => stringKey site value afModeMax fun v => { c with afMode := v }
  | .socket => stringKey site value meCfgSocketMax fun v => { c with socketPath := v }
  | .socketPath => stringKey site value meCfgSocketMax fun v => { c with socketPath := v }
  | .snapshotDir => stringKey site value meCfgPathMax fun v => { c with snapshotDir := v }
  | .liveLeaseTimeoutS => plainIntKey site value fun v => { c with liveLeaseTimeoutS := v }
  | .analyticsEnabled =>
    boolKey site value fun v => { c with analytics := { c.analytics with enabled := v } }
  | .analyticsBackend =>
    stringKey site value meAnalyticsBackendMax
      fun v => { c with analytics := { c.analytics with backend := v } }
  | .analyticsModel =>
    stringKey site value meAnalyticsModelMax
      fun v => { c with analytics := { c.analytics with model := v } }
  | .analyticsWidth =>
    plainIntKey site value fun v => { c with analytics := { c.analytics with width := v } }
  | .analyticsHeight =>
    plainIntKey site value fun v => { c with analytics := { c.analytics with height := v } }
  | .analyticsFps =>
    plainIntKey site value fun v => { c with analytics := { c.analytics with fps := v } }
  | .analyticsScoreThresholdQ =>
    u32Key site value fun v => { c with analytics := { c.analytics with scoreThresholdQ := v } }
  | .analyticsConfirmFrames =>
    u32Key site value fun v => { c with analytics := { c.analytics with confirmFrames := v } }
  | .analyticsConfirmMs =>
    u32Key site value fun v => { c with analytics := { c.analytics with confirmMs := v } }
  | .analyticsDebounceMs =>
    u32Key site value fun v => { c with analytics := { c.analytics with debounceMs := v } }
  | .analyticsDisappearGraceMs =>
    u32Key site value fun v => { c with analytics := { c.analytics with disappearGraceMs := v } }
  | .analyticsCooldownMs =>
    u32Key site value fun v => { c with analytics := { c.analytics with cooldownMs := v } }
  | .analyticsUpdateIntervalMs =>
    u32Key site value fun v => { c with analytics := { c.analytics with updateIntervalMs := v } }
  | .analyticsSendUpdates => boolKey site value fun v => { c with analyticsSendUpdates := v }
  | .analyticsSendEnd => boolKey site value fun v => { c with analyticsSendEnd := v }
  | .analyticsRoiEnabled =>
    boolKey site value fun v => { c with analytics := { c.analytics with roiEnabled := v } }
  | .analyticsRoiLeft =>
    u32Key site value
      fun v => { c with analytics := { c.analytics with roi := { c.analytics.roi with left := v } } }
  | .analyticsRoiTop =>
    u32Key site value
      fun v => { c with analytics := { c.analytics with roi := { c.analytics.roi with top := v } } }
  | .analyticsRoiRight =>
    u32Key site value fun v =>
      { c with analytics := { c.analytics with roi := { c.analytics.roi with right := v } } }
  | .analyticsRoiBottom =>
    u32Key site value fun v =>
      { c with analytics := { c.analytics with roi := { c.analytics.roi with bottom := v } } }
  | .analyticsLineEnabled =>
    boolKey site value fun v => { c with analytics := { c.analytics with lineEnabled := v } }
  | .analyticsLineX1 =>
    u32Key site value fun v => { c with analytics := { c.analytics with lineX1 := v } }
  | .analyticsLineY1 =>
    u32Key site value fun v => { c with analytics := { c.analytics with lineY1 := v } }
  | .analyticsLineX2 =>
    u32Key site value fun v => { c with analytics := { c.analytics with lineX2 := v } }
  | .analyticsLineY2 =>
    u32Key site value fun v => { c with analytics := { c.analytics with lineY2 := v } }
  | .analyticsRuleId =>
    stringKey site value meAnalyticsRuleIdMax
      fun v => { c with analytics := { c.analytics with ruleId := v } }
  | .analyticsRuleType =>
    match meAnalyticsRuleTypeParse value.bytes with
    | some v => .ok { c with analytics := { c.analytics with ruleType := v } }
    | none => .error (site.message (ascii "analytics_rule_type is invalid"))
  | .analyticsEvidenceMode =>
    if meAnalyticsEvidenceModeValid value then
      stringKey site value meAnalyticsEvidenceModeMax
        fun v => { c with analytics := { c.analytics with evidenceMode := v } }
    else .error (site.message (ascii "analytics_evidence_mode is invalid"))
  | .analyticsEvidenceMaxBytes =>
    u64Key site value fun v => { c with analytics := { c.analytics with evidenceMaxBytes := v } }
  | .analyticsEvidenceRetentionS =>
    u32Key site value fun v => { c with analytics := { c.analytics with evidenceRetentionS := v } }
  | .analyticsEvidenceJpegQuality =>
    u32Key site value
      fun v => { c with analytics := { c.analytics with evidenceJpegQuality := v } }
  | .analyticsEventLogMaxRecords =>
    u32Key site value fun v => { c with analytics := { c.analytics with eventLogMaxRecords := v } }
  | .analyticsEventLogMaxBytes =>
    u64Key site value fun v => { c with analytics := { c.analytics with eventLogMaxBytes := v } }
  | .analyticsEventLogPath =>
    stringKey site value meAnalyticsEventLogPathMax
      fun v => { c with analytics := { c.analytics with eventLogPath := v } }

end

/-! ## Documents -/

/-- A node of a YAML document that another one refers to; `none` is a value that is no scalar. -/
structure YamlNode where
  line : Nat
  scalar : Option Bytes
  deriving DecidableEq

/-- The root of a YAML document. The nodes of a pair may be missing. -/
inductive YamlDocument where
  | empty
  | mapping (pairs : List (Option YamlNode × Option YamlNode))
  | other (line : Nat)
  deriving DecidableEq

def keyMax : Nat := 64
def valueMax : Nat := 512

/-- The value of a scalar node under a key. -/
def applyScalar (path key : Bytes) (keyLine line : Nat) (text : Bytes) (c : EngineConfig) :
    Except Bytes EngineConfig :=
  let site : Site := ⟨key, path, line⟩
  if valueMax ≤ text.length then
    .error (site.message (ascii "empty or over-long value for " ++ quoted key))
  else
    let value := meTrim (cString text)
    if value = [] then .error (site.message (ascii "empty value for " ++ quoted key))
    else
      match keyNamed key with
      | none => .ok c
      | some k => k.apply ⟨key, path, keyLine⟩ (cstr value) c

/-- One pair of the mapping. Keys are cut to 63 bytes. -/
def applyPair (path : Bytes) (c : EngineConfig) :
    Option YamlNode × Option YamlNode → Except Bytes EngineConfig
  | (knode, vnode) =>
    match knode with
    | none => .error ((⟨[], path, 0⟩ : Site).message (ascii "mapping keys must be scalars"))
    | some knode =>
      match knode.scalar with
      | none =>
        .error ((⟨[], path, knode.line⟩ : Site).message (ascii "mapping keys must be scalars"))
      | some text =>
        let key := (cString text).take (keyMax - 1)
        match vnode with
        | none =>
          .error ((⟨key, path, knode.line⟩ : Site).message
            (ascii "dangling alias for key " ++ quoted key))
        | some vnode =>
          match vnode.scalar with
          | none =>
            if (keyNamed key).isSome then
              .error ((⟨key, path, vnode.line⟩ : Site).message
                (ascii "value for " ++ quoted key ++ ascii " must be a scalar"))
            else .ok c
          | some value => applyScalar path key knode.line vnode.line value c

def applyPairs (path : Bytes) :
    EngineConfig → List (Option YamlNode × Option YamlNode) → Except Bytes EngineConfig
  | c, [] => .ok c
  | c, pair :: pairs =>
    match applyPair path c pair with
    | .error e => .error e
    | .ok c' => applyPairs path c' pairs

def configApplyDocument (c : EngineConfig) (doc : YamlDocument) (path : Bytes) :
    Except Bytes EngineConfig :=
  match doc with
  | .empty => .ok c
  | .other line => .error ((⟨[], path, line⟩ : Site).message (ascii "config root must be a mapping"))
  | .mapping pairs => applyPairs path c pairs

/-- What the file system and libyaml make of a path. -/
inductive ConfigFile where
  | missing
  | unreadable (reason : Bytes)
  | noParser
  | malformed (line column : Nat) (problem : Bytes)
  | document (doc : YamlDocument)
  deriving DecidableEq

def engineConfigLoad (files : Bytes → ConfigFile) (path : Bytes) (c : EngineConfig) :
    Except Bytes EngineConfig :=
  match files path with
  | .missing => .ok c
  | .unreadable reason => .error (ascii "open config " ++ path ++ ascii ": " ++ reason)
  | .noParser => .error (ascii "yaml parser initialize failed")
  | .malformed line column problem =>
    .error (path ++ ascii ":" ++ dec line ++ ascii ":" ++ dec column ++ ascii ": " ++ problem)
  | .document doc =>
    match configApplyDocument c doc path with
    | .error e => .error e
    | .ok c' => (engineConfigValidate c').map fun _ => c'

/-! ## The command line -/

inductive Opt where
  | config | iqDir | camId | device | format | width | height | fps | connectorId | planeId
  | socketPath | preview | af | snapshotDir | previewRotation | streamRotation | previewWidth
  | previewHeight | analyticsEnabled | analyticsBackend | analyticsModel | analyticsWidth
  | analyticsHeight | analyticsFps | analyticsEventLogPath | help
  deriving DecidableEq

/-- The option string `a:c:d:f:W:H:r:C:P:s:h`. -/
def shortOptions : List (UInt8 × Opt) :=
  [(0x61, .iqDir), (0x63, .camId), (0x64, .device), (0x66, .format), (0x57, .width),
    (0x48, .height), (0x72, .fps), (0x43, .connectorId), (0x50, .planeId), (0x73, .socketPath),
    (0x68, .help)]

def longOptions : List (Bytes × Opt) :=
  [(ascii "config", .config), (ascii "preview", .preview), (ascii "af", .af),
    (ascii "snapshot-dir", .snapshotDir), (ascii "preview-rotation", .previewRotation),
    (ascii "stream-rotation", .streamRotation), (ascii "preview-width", .previewWidth),
    (ascii "preview-height", .previewHeight), (ascii "analytics-enabled", .analyticsEnabled),
    (ascii "analytics-backend", .analyticsBackend), (ascii "analytics-model", .analyticsModel),
    (ascii "analytics-width", .analyticsWidth), (ascii "analytics-height", .analyticsHeight),
    (ascii "analytics-fps", .analyticsFps),
    (ascii "analytics-event-log-path", .analyticsEventLogPath), (ascii "help", .help)]

/-- What `getopt_long` returns; `bad` is `?`. -/
inductive Found where
  | opt (o : Opt) (arg : Bytes)
  | bad
  deriving DecidableEq

/-- A long option by its name, or by a prefix of one name only. -/
def longNamed (name : Bytes) : Option Opt :=
  match longOptions.find? (·.1 == name) with
  | some entry => some entry.2
  | none =>
    match longOptions.filter fun entry => name.isPrefixOf entry.1 with
    | [entry] => some entry.2
    | _ => none

def shortNamed (b : UInt8) : Option Opt := (shortOptions.find? (·.1 == b)).map (·.2)

/-- The letters of one argument: what was found, and an option that waits for its argument. -/
def scanLetters : Bytes → List Found × Option Opt
  | [] => ([], none)
  | b :: rest =>
    match shortNamed b with
    | none => (.bad :: (scanLetters rest).1, (scanLetters rest).2)
    | some .help => (.opt .help [] :: (scanLetters rest).1, (scanLetters rest).2)
    | some o => if rest = [] then ([], some o) else ([.opt o rest], none)

/-- A long option without its dashes. -/
def scanLong (body : Bytes) : List Found × Option Opt :=
  match longNamed (body.takeWhile (· ≠ 0x3D)), (body.dropWhile (· ≠ 0x3D)) with
  | none, _ => ([.bad], none)
  | some .help, [] => ([.opt .help []], none)
  | some .help, _ :: _ => ([.bad], none)
  | some o, [] => ([], some o)
  | some o, _ :: arg => ([.opt o arg], none)

def scanArg (arg : Bytes) : List Found × Option Opt :=
  match arg with
  | 0x2D :: 0x2D :: body => scanLong body
  | 0x2D :: b :: rest => scanLetters (b :: rest)
  | _ => ([], none)

/-- `getopt_long` over the arguments; an argument that is no option is passed over. -/
def getoptLong : List Bytes → List Found
  | [] => []
  | arg :: rest =>
    if arg = [0x2D, 0x2D] then []
    else
      match scanArg arg, rest with
      | (found, none), rest => found ++ getoptLong rest
      | (found, some _), [] => found ++ [.bad]
      | (found, some o), value :: rest => found ++ .opt o value :: getoptLong rest

section

variable (arg : CStr)

/-- An integer option: the test is on the `long`, and the field takes its low 32 bits. -/
def cliInt (accepts : Int → Bool) (message : Bytes) (put : Int → EngineConfig) :
    Except Bytes EngineConfig :=
  match strtol arg.bytes with
  | none => .error (message ++ arg.bytes)
  | some v => if accepts v then .ok (put (v.bmod (2 ^ 32))) else .error (message ++ arg.bytes)

def cliString (cap : Nat) (put : CStr → EngineConfig) : Except Bytes EngineConfig :=
  .ok (put (arg.snprintf cap))

def cliBool (message : Bytes) (put : Bool → EngineConfig) : Except Bytes EngineConfig :=
  match parseBoolValue arg.bytes with
  | some b => .ok (put b)
  | none => .error (message ++ arg.bytes)

/-- The site that the command line names to the checks it shares with the document. -/
def cliSite (key : Bytes) : Site := ⟨key, ascii "<command line>", 0⟩

def anyInt (_ : Int) : Bool := true

def isPositive (v : Int) : Bool := 0 < v

/-- The branch of `engine_config_apply_cli` for an option with an argument. -/
def Opt.apply (c : EngineConfig) : Opt → Except Bytes EngineConfig
  | .config => .ok c
  | .iqDir => cliString arg meCfgPathMax fun v => { c with iqDir := v }
  | .camId => cliInt arg anyInt (ascii "invalid camera id: ") fun v => { c with camId := v }
  | .device => cliString arg meCfgSocketMax fun v => { c with device := v }
  | .format => cliString arg formatMax fun v => { c with format := v }
  | .width => cliInt arg isPositive (ascii "invalid width: ") fun v => { c with width := v }
  | .height => cliInt arg isPositive (ascii "invalid height: ") fun v => { c with height := v }
  | .fps => cliInt arg isPositive (ascii "invalid fps: ") fun v => { c with fps := v }
  | .connectorId =>
    cliInt arg anyInt (ascii "invalid connector id: ") fun v => { c with connectorId := v }
  | .planeId => cliInt arg anyInt (ascii "invalid plane id: ") fun v => { c with planeId := v }
  | .socketPath => cliString arg meCfgSocketMax fun v => { c with socketPath := v }
  | .preview => cliBool arg (ascii "invalid --preview value: ") fun v => { c with preview := v }
  | .af => cliString arg afModeMax fun v => { c with afMode := v }
  | .snapshotDir => cliString arg meCfgPathMax fun v => { c with snapshotDir := v }
  | .previewRotation =>
    cliInt arg isRotation (ascii "invalid --preview-rotation: ")
      fun v => { c with previewRotation := v }
  | .streamRotation =>
    cliInt arg isRotation (ascii "invalid --stream-rotation: ")
      fun v => { c with streamRotation := v }
  | .previewWidth =>
    cliInt arg isEvenSize (ascii "invalid --preview-width: ") fun v => { c with previewWidth := v }
  | .previewHeight =>
    cliInt arg isEvenSize (ascii "invalid --preview-height: ")
      fun v => { c with previewHeight := v }
  | .analyticsEnabled =>
    cliBool arg (ascii "invalid --analytics-enabled value: ")
      fun v => { c with analytics := { c.analytics with enabled := v } }
  | .analyticsBackend =>
    stringKey (cliSite (ascii "analytics_backend")) arg meAnalyticsBackendMax
      fun v => { c with analytics := { c.analytics with backend := v } }
  | .analyticsModel =>
    stringKey (cliSite (ascii "analytics_model")) arg meAnalyticsModelMax
      fun v => { c with analytics := { c.analytics with model := v } }
  | .analyticsWidth =>
    plainIntKey (cliSite (ascii "analytics_width")) arg
      fun v => { c with analytics := { c.analytics with width := v } }
  | .analyticsHeight =>
    plainIntKey (cliSite (ascii "analytics_height")) arg
      fun v => { c with analytics := { c.analytics with height := v } }
  | .analyticsFps =>
    plainIntKey (cliSite (ascii "analytics_fps")) arg
      fun v => { c with analytics := { c.analytics with fps := v } }
  | .analyticsEventLogPath =>
    stringKey (cliSite (ascii "analytics_event_log_path")) arg meAnalyticsEventLogPathMax
      fun v => { c with analytics := { c.analytics with eventLogPath := v } }
  | .help => .ok c

end

/-- The results 0, 1 and -1 of `engine_config_apply_cli`. -/
inductive CliResult where
  | applied (c : EngineConfig)
  | help
  | failed (e : Bytes)
  deriving DecidableEq

/-- The loop over the options and the validation behind it. -/
def applyOptions : EngineConfig → List Found → CliResult
  | c, [] =>
    match engineConfigValidate c with
    | .ok _ => .applied c
    | .error e => .failed e
  | _, .bad :: _ => .failed (ascii "unknown option")
  | _, .opt .help _ :: _ => .help
  | c, .opt o arg :: rest =>
    match o.apply (cstr arg) c with
    | .ok c' => applyOptions c' rest
    | .error e => .failed e

def configPrefix : Bytes := ascii "--config="

/-- The file that the scan before the options finds. -/
def configFile : List Bytes → Option Bytes
  | [] => none
  | arg :: rest =>
    match (if arg = ascii "--config" then rest.head? else none) with
    | some path => some path
    | none =>
      if configPrefix.isPrefixOf arg then some (arg.drop configPrefix.length) else configFile rest

def engineConfigApplyCli (files : Bytes → ConfigFile) (c : EngineConfig) :
    List Bytes → CliResult
  | [] => .failed (ascii "invalid command line arguments")
  | _ :: args =>
    match configFile args with
    | none => applyOptions c (getoptLong args)
    | some path =>
      match engineConfigLoad files path c with
      | .ok c' => applyOptions c' (getoptLong args)
      | .error e => .failed e

end FlowAlarm.Config
