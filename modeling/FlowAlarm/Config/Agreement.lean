import FlowAlarm.Config.EngineConfig

/-!
# Command line and document

Twenty-five keys of the document have an option. `Kind.fits` says which values
the document takes for a key, `Kind.reads` what the option makes of a value, and
`Kind.alike` on which values these are the same. `settings_agree_iff` compares
`config_apply_document` and `engine_config_apply_cli` over every text.
-/

namespace FlowAlarm.Config

open FlowAlarm.Text FlowAlarm.Num FlowAlarm.Engine FlowAlarm.CJson FlowAlarm.Codec

/-! ## Shared settings -/

/-- The option for the setting of a key. -/
def Key.opt : Key → Option Opt
  | .camId => some .camId
  | .iqDir => some .iqDir
  | .device => some .device
  | .format => some .format
  | .width => some .width
  | .height => some .height
  | .fps => some .fps
  | .connectorId => some .connectorId
  | .planeId => some .planeId
  | .preview => some .preview
  | .previewRotation => some .previewRotation
  | .streamRotation => some .streamRotation
  | .previewWidth => some .previewWidth
  | .previewHeight => some .previewHeight
  | .afMode => some .af
  | .socket => some .socketPath
  | .socketPath => some .socketPath
  | .snapshotDir => some .snapshotDir
  | .analyticsEnabled => some .analyticsEnabled
  | .analyticsBackend => some .analyticsBackend
  | .analyticsModel => some .analyticsModel
  | .analyticsWidth => some .analyticsWidth
  | .analyticsHeight => some .analyticsHeight
  | .analyticsFps => some .analyticsFps
  | .analyticsEventLogPath => some .analyticsEventLogPath
  | _ => none

inductive Field where
  | int (v : Int)
  | str (s : CStr)
  | flag (b : Bool)
  deriving DecidableEq

/-- The field of a shared setting. -/
def Key.get (c : EngineConfig) : Key → Option Field
  | .camId => some (.int c.camId)
  | .iqDir => some (.str c.iqDir)
  | .device => some (.str c.device)
  | .format => some (.str c.format)
  | .width => some (.int c.width)
  | .height => some (.int c.height)
  | .fps => some (.int c.fps)
  | .connectorId => some (.int c.connectorId)
  | .planeId => some (.int c.planeId)
  | .preview => some (.flag c.preview)
  | .previewRotation => some (.int c.previewRotation)
  | .streamRotation => some (.int c.streamRotation)
  | .previewWidth => some (.int c.previewWidth)
  | .previewHeight => some (.int c.previewHeight)
  | .afMode => some (.str c.afMode)
  | .socket | .socketPath => some (.str c.socketPath)
  | .snapshotDir => some (.str c.snapshotDir)
  | .analyticsEnabled => some (.flag c.analytics.enabled)
  | .analyticsBackend => some (.str c.analytics.backend)
  | .analyticsModel => some (.str c.analytics.model)
  | .analyticsWidth => some (.int c.analytics.width)
  | .analyticsHeight => some (.int c.analytics.height)
  | .analyticsFps => some (.int c.analytics.fps)
  | .analyticsEventLogPath => some (.str c.analytics.eventLogPath)
  | _ => none

def Key.put (c : EngineConfig) : Key → Field → EngineConfig
  | .camId, .int v => { c with camId := v }
  | .iqDir, .str v => { c with iqDir := v }
  | .device, .str v => { c with device := v }
  | .format, .str v => { c with format := v }
  | .width, .int v => { c with width := v }
  | .height, .int v => { c with height := v }
  | .fps, .int v => { c with fps := v }
  | .connectorId, .int v => { c with connectorId := v }
  | .planeId, .int v => { c with planeId := v }
  | .preview, .flag v => { c with preview := v }
  | .previewRotation, .int v => { c with previewRotation := v }
  | .streamRotation, .int v => { c with streamRotation := v }
  | .previewWidth, .int v => { c with previewWidth := v }
  | .previewHeight, .int v => { c with previewHeight := v }
  | .afMode, .str v => { c with afMode := v }
  | .socket, .str v => { c with socketPath := v }
  | .socketPath, .str v => { c with socketPath := v }
  | .snapshotDir, .str v => { c with snapshotDir := v }
  | .analyticsEnabled, .flag v => { c with analytics := { c.analytics with enabled := v } }
  | .analyticsBackend, .str v => { c with analytics := { c.analytics with backend := v } }
  | .analyticsModel, .str v => { c with analytics := { c.analytics with model := v } }
  | .analyticsWidth, .int v => { c with analytics := { c.analytics with width := v } }
  | .analyticsHeight, .int v => { c with analytics := { c.analytics with height := v } }
  | .analyticsFps, .int v => { c with analytics := { c.analytics with fps := v } }
  | .analyticsEventLogPath, .str v => { c with analytics := { c.analytics with eventLogPath := v } }
  | _, _ => c

/-- The integer a text denotes: an optional sign and digits. -/
def intText (s : Bytes) : Option Int :=
  let (neg, _, ds) := scanSign s
  if ds ≠ [] ∧ ds.all isDigit then some (if neg then -(decVal ds : Int) else decVal ds) else none

/-- How a shared setting is read: an integer with the checks of the document and of the option, a
text that the option cuts, or a value that both sides hand to the same function. -/
inductive Kind where
  | int (check accepts : Int → Bool)
  | sharedInt
  | text (cap : Nat)
  | sharedText (cap : Nat)
  | flag

def Key.kind : Key → Kind
  | .camId | .connectorId | .planeId => .int anyInt anyInt
  | .width | .height | .fps => .int anyInt isPositive
  | .previewRotation | .streamRotation => .int isRotation isRotation
  | .previewWidth | .previewHeight => .int isEvenSize isEvenSize
  | .iqDir | .snapshotDir => .text meCfgPathMax
  | .device | .socket | .socketPath => .text meCfgSocketMax
  | .format => .text formatMax
  | .afMode => .text afModeMax
  | .preview | .analyticsEnabled => .flag
  | .analyticsBackend => .sharedText meAnalyticsBackendMax
  | .analyticsModel => .sharedText meAnalyticsModelMax
  | .analyticsEventLogPath => .sharedText meAnalyticsEventLogPathMax
  | _ => .sharedInt

/-- The number, the string or the truth value that a text gives for a setting. -/
def Kind.given (value : CStr) : Kind → Option Field
  | .int _ _ | .sharedInt => (intText value.bytes).map .int
  | .text _ | .sharedText _ => some (.str value)
  | .flag => (parseBoolValue value.bytes).map .flag

/-! ## What each side takes -/

def inInt (v : Int) : Bool := intMin ≤ v && v ≤ intMax

def inLong (v : Int) : Bool := -2 ^ 63 ≤ v && v ≤ 2 ^ 63 - 1

/-- The values the document takes. -/
def Kind.fits : Kind → Field → Bool
  | .int check _, .int n => inInt n && check n
  | .sharedInt, .int n => inInt n
  | .text cap, .str s | .sharedText cap, .str s => s.bytes.length < cap
  | .flag, .flag _ => true
  | _, _ => false

/-- What the option makes of a value. -/
def Kind.reads : Kind → Field → Option Field
  | .int _ accepts, .int n =>
    if inLong n && accepts n then some (.int (n.bmod (2 ^ 32))) else none
  | .sharedInt, .int n => if inInt n then some (.int n) else none
  | .text cap, .str s => some (.str (s.snprintf cap))
  | .sharedText cap, .str s => if s.bytes.length < cap then some (.str s) else none
  | .flag, .flag b => some (.flag b)
  | _, _ => none

/-- The values that both sides read alike: an integer outside `int` that the option refuses, one
inside that passes both checks or none, a text shorter than its field. -/
def Kind.alike : Kind → Field → Bool
  | .int check accepts, .int n =>
    if inInt n then check n == accepts n else !(inLong n && accepts n)
  | .text cap, .str s => s.bytes.length < cap
  | _, _ => true

/-- The value is of the kind. -/
def Kind.Typed : Kind → Field → Prop
  | .int _ _, .int _ | .sharedInt, .int _ | .text _, .str _ | .sharedText _, .str _
  | .flag, .flag _ => True
  | _, _ => False

theorem given_typed {kind : Kind} {value : CStr} {x : Field} (h : kind.given value = some x) :
    kind.Typed x := by
  cases kind with
  | int | sharedInt | flag =>
    obtain ⟨n, -, rfl⟩ := Option.map_eq_some_iff.mp h
    trivial
  | text | sharedText =>
    cases h
    trivial

theorem reads_typed {kind : Kind} {x y : Field} (h : kind.reads x = some y) : kind.Typed y := by
  cases kind <;> cases x <;> simp only [Kind.reads] at h <;> try cases h
  all_goals first
    | trivial
    | (split at h <;> cases h; trivial)

theorem inInt_iff {n : Int} : inInt n = true ↔ -2 ^ 31 ≤ n ∧ n ≤ 2 ^ 31 - 1 := by
  rw [inInt, Bool.and_eq_true, decide_eq_true_iff, decide_eq_true_iff, intMin, intMax]

theorem inLong_iff {n : Int} : inLong n = true ↔ -2 ^ 63 ≤ n ∧ n ≤ 2 ^ 63 - 1 := by
  simp only [inLong, Bool.and_eq_true, decide_eq_true_eq]

theorem bmod_of_inInt {n : Int} (h : inInt n = true) : n.bmod (2 ^ 32) = n := by
  rw [inInt_iff] at h
  exact Int.bmod_eq_of_le (by omega) (by omega)

theorem inLong_of_inInt {n : Int} (h : inInt n = true) : inLong n = true := by
  rw [inInt_iff] at h
  rw [inLong_iff]
  omega

/-- **When both sides read a value alike.** -/
theorem alike_iff {kind : Kind} {x : Field} (ht : kind.Typed x) :
    kind.alike x = true ↔ (some x).filter kind.fits = kind.reads x := by
  rw [Option.filter_some]
  cases kind with
  | int check accepts =>
    cases x with
    | int n =>
      simp only [Kind.alike, Kind.fits, Kind.reads]
      by_cases hn : inInt n = true
      · simp only [hn, inLong_of_inInt hn, bmod_of_inInt hn, if_true, Bool.true_and]
        cases check n <;> cases accepts n <;> simp
      · simp only [Bool.not_eq_true] at hn
        simp only [hn, Bool.false_and, Bool.false_eq_true, if_false]
        cases inLong n && accepts n <;> simp
    | str | flag => exact ht.elim
  | sharedInt =>
    cases x with
    | int n => exact iff_of_true rfl rfl
    | str | flag => exact ht.elim
  | text cap =>
    cases x with
    | str s =>
      simp only [Kind.alike, Kind.fits, Kind.reads, decide_eq_true_eq]
      by_cases hs : s.bytes.length < cap
      · simp [hs, CStr.snprintf_eq hs]
      · simp [hs]
    | int | flag => exact ht.elim
  | sharedText cap =>
    cases x with
    | str s =>
      simp only [Kind.alike, Kind.fits, Kind.reads, decide_eq_true_eq]
    | int | flag => exact ht.elim
  | flag =>
    cases x with
    | flag b => exact iff_of_true rfl rfl
    | int | str => exact ht.elim

/-! ## Each side on one setting -/

theorem strtol_eq {s : Bytes} (hne : s ≠ []) (hs : ∀ b ∈ s.head?, isCSpace b = false) :
    strtol s = (intText s).filter inLong := by
  have hdrop : s.dropWhile isCSpace = s := by
    cases s with
    | nil => rfl
    | cons b t => exact List.dropWhile_cons_of_neg (by simp [hs b rfl])
  rw [strtol, if_neg hne, strtoll, hdrop, intText]
  generalize scanSign s = scan
  obtain ⟨neg, n, ds⟩ := scan
  dsimp only
  by_cases hd : ds ≠ [] ∧ ds.all isDigit
  · simp only [hd, ne_eq, not_false_eq_true, and_self, if_true, true_and, Option.filter_some,
      inLong_iff]
  · rw [if_neg hd, if_neg fun h => hd ⟨h.1, h.2.1⟩]
    rfl

/-- A text as it reaches both sides: not empty, shorter than the buffer of the document, without
white space around it. -/
structure Plain (v : CStr) : Prop where
  ne : v.bytes ≠ []
  short : v.bytes.length < valueMax
  trimmed : meTrim v.bytes = v.bytes

theorem dropWhile_head {p : UInt8 → Bool} {s : Bytes} (h : (s.dropWhile p).length = s.length) :
    ∀ b ∈ s.head?, p b = false := by
  cases s with
  | nil => simp
  | cons a t =>
    intro b hb
    cases hb
    by_contra hp
    rw [List.dropWhile_cons_of_pos (by simpa using hp), List.length_cons] at h
    have := (List.dropWhile_sublist (l := t) p).length_le
    omega

theorem Plain.head {v : CStr} (h : Plain v) : ∀ b ∈ v.bytes.head?, isCSpace b = false := by
  refine dropWhile_head ?_
  have hlen := congrArg List.length h.trimmed
  rw [meTrim, List.length_reverse] at hlen
  have h₁ := (List.dropWhile_sublist (l := (v.bytes.dropWhile isCSpace).reverse) isCSpace).length_le
  have h₂ := (List.dropWhile_sublist (l := v.bytes) isCSpace).length_le
  rw [List.length_reverse] at h₁
  omega

variable {v : CStr} {site : Site}

theorem parseIntValue_plain (h : Plain v) (key : Bytes) :
    (parseIntValue v.bytes key).toOption = (intText v.bytes).filter inInt := by
  rw [parseIntValue, if_neg h.ne, strtol_eq h.ne h.head]
  cases intText v.bytes with
  | none => rfl
  | some n =>
    rw [Option.filter_some, Option.filter_some]
    by_cases hn : inInt n = true
    · have hout : ¬ (n < intMin ∨ intMax < n) := by
        have := inInt_iff.mp hn
        simp only [intMin, intMax]
        omega
      simp only [hn, inLong_of_inInt hn, if_true, if_neg hout]
      rfl
    · have hout : n < intMin ∨ intMax < n := by
        rw [inInt_iff] at hn
        simp only [intMin, intMax]
        omega
      rw [if_neg hn]
      by_cases hl : inLong n = true
      · simp only [hl, if_true, if_pos hout]
        rfl
      · rw [if_neg hl]
        rfl

theorem intKey_plain (h : Plain v) {check accepts : Int → Bool} {rule : Bytes}
    {put : Int → EngineConfig} {putField : Field → EngineConfig}
    (hput : ∀ n, putField (.int n) = put n) :
    (intKey site v check rule put).toOption =
      (((Kind.int check accepts).given v).filter (Kind.int check accepts).fits).map putField := by
  have hp := parseIntValue_plain h site.key
  rw [intKey]
  cases hv : intText v.bytes with
  | none =>
    rw [hv] at hp
    cases hr : parseIntValue v.bytes site.key with
    | error e => simp [Kind.given, hv, Except.toOption]
    | ok n => simp [hr, Except.toOption] at hp
  | some n =>
    rw [hv, Option.filter_some] at hp
    by_cases hn : inInt n = true
    · rw [if_pos hn] at hp
      cases hr : parseIntValue v.bytes site.key with
      | error e => simp [hr, Except.toOption] at hp
      | ok n' =>
        obtain rfl : n' = n := by simpa [hr, Except.toOption] using hp
        cases hc : check n' <;> simp [Kind.given, Kind.fits, hv, hn, hc, Except.toOption, hput]
    · rw [if_neg hn] at hp
      cases hr : parseIntValue v.bytes site.key with
      | error e => simp [Kind.given, Kind.fits, hv, hn, Except.toOption]
      | ok n' => simp [hr, Except.toOption] at hp

theorem sharedInt_plain (h : Plain v) {put : Int → EngineConfig}
    {putField : Field → EngineConfig} (hput : ∀ n, putField (.int n) = put n) :
    (plainIntKey site v put).toOption =
      ((Kind.sharedInt.given v).filter Kind.sharedInt.fits).map putField := by
  have h₁ := @intKey_plain v site h (fun _ => true) (fun _ => true) [] put putField hput
  rw [plainIntKey, h₁]
  simp only [Kind.given]
  congr 2
  funext x
  cases x <;> simp [Kind.fits]

theorem stringKey_plain {cap : Nat} {put : CStr → EngineConfig}
    {putField : Field → EngineConfig} (hput : ∀ s, putField (.str s) = put s) :
    (stringKey site v cap put).toOption =
      (((Kind.text cap).given v).filter (Kind.text cap).fits).map putField := by
  rw [stringKey, setString]
  by_cases hv : v.bytes.length < cap
  · simp [Kind.given, Kind.fits, hv, not_le.mpr hv, Except.map, Except.toOption, hput]
  · simp [Kind.given, Kind.fits, hv, not_lt.mp hv, Except.map, Except.toOption]

theorem boolKey_plain {put : Bool → EngineConfig} {putField : Field → EngineConfig}
    (hput : ∀ b, putField (.flag b) = put b) :
    (boolKey site v put).toOption =
      ((Kind.flag.given v).filter Kind.flag.fits).map putField := by
  rw [boolKey]
  cases hv : parseBoolValue v.bytes with
  | none => simp [Kind.given, hv, Except.toOption]
  | some b => simp [Kind.given, Kind.fits, hv, Except.toOption, hput]

/-- **The document on one setting**: it stores the value given if it takes it. -/
theorem apply_key {k : Key} {o : Opt} (hk : k.opt = some o) (h : Plain v) (c : EngineConfig) :
    (k.apply site v c).toOption =
      ((k.kind.given v).filter k.kind.fits).map (k.put c) := by
  cases k <;> first
    | cases hk; done
    | exact intKey_plain h fun _ => rfl
    | exact sharedInt_plain h fun _ => rfl
    | exact stringKey_plain fun _ => rfl
    | exact boolKey_plain fun _ => rfl

theorem cliInt_plain (h : Plain v) {check accepts : Int → Bool} {message : Bytes}
    {put : Int → EngineConfig} {putField : Field → EngineConfig}
    (hput : ∀ n, putField (.int n) = put n) :
    (cliInt v accepts message put).toOption =
      (((Kind.int check accepts).given v).bind (Kind.int check accepts).reads).map putField := by
  rw [cliInt, strtol_eq h.ne h.head]
  cases hv : intText v.bytes with
  | none => simp [Kind.given, hv, Except.toOption]
  | some n =>
    rw [Option.filter_some]
    by_cases hn : inLong n = true
    · cases hc : accepts n <;> simp [Kind.given, Kind.reads, hv, hn, hc, Except.toOption, hput]
    · simp [Kind.given, Kind.reads, hv, hn, Except.toOption]

theorem cliString_plain {cap : Nat} {put : CStr → EngineConfig}
    {putField : Field → EngineConfig} (hput : ∀ s, putField (.str s) = put s) :
    (cliString v cap put).toOption =
      (((Kind.text cap).given v).bind (Kind.text cap).reads).map putField := by
  simp [cliString, Kind.given, Kind.reads, Except.toOption, hput]

theorem cliBool_plain {message : Bytes} {put : Bool → EngineConfig}
    {putField : Field → EngineConfig} (hput : ∀ b, putField (.flag b) = put b) :
    (cliBool v message put).toOption =
      ((Kind.flag.given v).bind Kind.flag.reads).map putField := by
  rw [cliBool]
  cases hv : parseBoolValue v.bytes with
  | none => simp [Kind.given, hv, Except.toOption]
  | some b => simp [Kind.given, Kind.reads, hv, Except.toOption, hput]

theorem filter_eq_bind {α : Type} (x : Option α) (p : α → Bool) :
    x.filter p = x.bind fun a => if p a then some a else none := by
  cases x with
  | none => rfl
  | some a => simp [Option.filter_some]

theorem sharedText_plain {cap : Nat} {put : CStr → EngineConfig}
    {putField : Field → EngineConfig} (hput : ∀ s, putField (.str s) = put s) :
    (stringKey site v cap put).toOption =
      (((Kind.sharedText cap).given v).bind (Kind.sharedText cap).reads).map putField := by
  rw [stringKey_plain hput, filter_eq_bind]
  simp [Kind.given, Kind.reads, Kind.fits]

theorem sharedInt_reads (h : Plain v) {put : Int → EngineConfig}
    {putField : Field → EngineConfig} (hput : ∀ n, putField (.int n) = put n) :
    (plainIntKey site v put).toOption =
      ((Kind.sharedInt.given v).bind Kind.sharedInt.reads).map putField := by
  rw [sharedInt_plain h hput, filter_eq_bind]
  cases hv : intText v.bytes with
  | none => simp [Kind.given, hv]
  | some n =>
    by_cases hn : inInt n = true <;> simp [Kind.given, Kind.reads, Kind.fits, hv, hn]

/-- **The option on one setting.** -/
theorem apply_opt {k : Key} {o : Opt} (hk : k.opt = some o) (h : Plain v) (c : EngineConfig) :
    (o.apply v c).toOption = ((k.kind.given v).bind k.kind.reads).map (k.put c) := by
  cases k <;> cases hk <;> unfold Opt.apply <;> first
    | exact cliInt_plain h fun _ => rfl
    | exact cliString_plain fun _ => rfl
    | exact cliBool_plain fun _ => rfl
    | exact sharedText_plain fun _ => rfl
    | exact sharedInt_reads h fun _ => rfl

/-! ## Documents and command lines of one setting -/

/-- The document with the value under one key. -/
def oneSetting (name : Bytes) (keyLine line : Nat) (v : CStr) : YamlDocument :=
  .mapping [(some ⟨keyLine, some name⟩, some ⟨line, some v.bytes⟩)]

/-- An option and its value as two arguments or as one. -/
inductive Spelling where
  | apart | joined

/-- The arguments that give an option a value. -/
def Opt.args (spelling : Spelling) (v : CStr) (o : Opt) : List Bytes :=
  match shortOptions.find? (·.2 == o), longOptions.find? (·.2 == o), spelling with
  | some (b, _), _, .apart => [[0x2D, b], v.bytes]
  | some (b, _), _, .joined => [0x2D :: b :: v.bytes]
  | none, some (name, _), .apart => [0x2D :: 0x2D :: name, v.bytes]
  | none, some (name, _), .joined => [0x2D :: 0x2D :: (name ++ 0x3D :: v.bytes)]
  | none, none, _ => []

theorem cstr_bytes (v : CStr) : cstr v.bytes = v := by
  obtain ⟨b, hb⟩ := v
  simp only [cstr, CStr.mk.injEq]
  exact cString_eq_self hb

/-- The names of the keys pass through the buffer of the document. -/
theorem keyNamed_plain {name : Bytes} {k : Key} (h : keyNamed name = some k) :
    0 ∉ name ∧ name.length < keyMax := by
  have hall : knownKeys.all (fun e => !e.1.contains 0 && e.1.length < keyMax) = true := by
    decide +kernel
  obtain ⟨entry, hentry, -⟩ := Option.map_eq_some_iff.mp h
  have heq : entry.1 = name := by simpa using List.find?_some hentry
  have hmem := List.all_eq_true.mp hall _ (List.mem_of_find?_eq_some hentry)
  rw [heq] at hmem
  simpa using hmem

theorem document_eq {name : Bytes} {k : Key} {keyLine line : Nat} {path : Bytes}
    (hname : keyNamed name = some k) (h : Plain v) (c : EngineConfig) :
    configApplyDocument c (oneSetting name keyLine line v) path =
      k.apply ⟨name, path, keyLine⟩ v c := by
  have hplain := keyNamed_plain hname
  have hkey : (cString name).take (keyMax - 1) = name := by
    rw [cString_eq_self hplain.1]
    exact List.take_of_length_le (by have := hplain.2; omega)
  have hval : cString v.bytes = v.bytes := cString_eq_self v.nonul
  simp only [configApplyDocument, oneSetting, applyPairs, applyPair, hkey, applyScalar]
  rw [if_neg (not_le.mpr h.short), hval, h.trimmed, if_neg h.ne, hname, cstr_bytes]
  dsimp only
  cases k.apply ⟨name, path, keyLine⟩ v c <;> rfl

/-- How an option is written: a letter, or a name that begins no other option. -/
inductive Opt.Written (o : Opt) : Prop where
  | letter {b : UInt8} : shortOptions.find? (·.2 == o) = some (b, o) → shortNamed b = some o →
      b ≠ 0x2D → Opt.Written o
  | name {name : Bytes} : shortOptions.find? (·.2 == o) = none →
      longOptions.find? (·.2 == o) = some (name, o) → longNamed name = some o → 0x3D ∉ name →
      name.head? ≠ some 0x63 → name ≠ [] → Opt.Written o

theorem opt_written {k : Key} {o : Opt} (hk : k.opt = some o) : o.Written ∧ o ≠ .help := by
  refine ⟨?_, by rintro rfl; cases k <;> cases hk⟩
  cases k <;> cases hk <;> first
    | exact .letter rfl (by decide) (by decide)
    | exact .name rfl rfl (by decide +kernel) (by decide +kernel) (by decide +kernel)
        (by decide +kernel)

theorem scanLetters_option {b : UInt8} {o : Opt} (ho : shortNamed b = some o) (hne : o ≠ .help)
    (rest : Bytes) :
    scanLetters (b :: rest) = if rest = [] then ([], some o) else ([.opt o rest], none) := by
  rw [scanLetters, ho]
  cases o <;> first | rfl | exact absurd rfl hne

theorem scanLong_option {body : Bytes} {o : Opt}
    (ho : longNamed (body.takeWhile (· ≠ 0x3D)) = some o) (hne : o ≠ .help) :
    scanLong body = match body.dropWhile (· ≠ 0x3D) with
      | [] => ([], some o)
      | _ :: arg => ([.opt o arg], none) := by
  rw [scanLong, ho]
  cases body.dropWhile (· ≠ 0x3D) <;> cases o <;> first | rfl | exact absurd rfl hne

theorem takeWhile_name {name : Bytes} (h : 0x3D ∉ name) (rest : Bytes) :
    (name ++ 0x3D :: rest).takeWhile (· ≠ 0x3D) = name ∧
      (name ++ 0x3D :: rest).dropWhile (· ≠ 0x3D) = 0x3D :: rest := by
  have hall : ∀ b ∈ name, decide (b ≠ 0x3D) = true := fun b hb => by
    have hne : b ≠ 0x3D := fun he => h (he ▸ hb)
    exact decide_eq_true hne
  constructor
  · rw [List.takeWhile_append_of_pos hall]
    simp
  · rw [List.dropWhile_append_of_pos hall]
    simp

theorem scanArg_letter {b : UInt8} (hb : b ≠ 0x2D) (rest : Bytes) :
    scanArg (0x2D :: b :: rest) = scanLetters (b :: rest) := by
  unfold scanArg
  split
  next h =>
    simp only [List.cons.injEq] at h
    exact absurd h.2.1 hb
  next h =>
    simp only [List.cons.injEq, true_and] at h
    rw [h.1, h.2]
  next h => exact absurd rfl (h b rest)

theorem getopt_waiting {arg value : Bytes} {o : Opt} (hs : scanArg arg = ([], some o))
    (hd : arg ≠ [0x2D, 0x2D]) : getoptLong [arg, value] = [.opt o value] := by
  unfold getoptLong
  simp only [if_neg hd, hs]
  rfl

theorem getopt_own {arg value : Bytes} {o : Opt} (hs : scanArg arg = ([.opt o value], none))
    (hd : arg ≠ [0x2D, 0x2D]) : getoptLong [arg] = [.opt o value] := by
  unfold getoptLong
  simp only [if_neg hd, hs]
  rfl

/-- **`getopt_long` finds the option with its value**, in either spelling. -/
theorem getopt_args {o : Opt} (hw : o.Written) (hne : o ≠ .help) (hv : v.bytes ≠ [])
    (spelling : Spelling) : getoptLong (o.args spelling v) = [.opt o v.bytes] := by
  cases hw with
  | @letter b hfind hnamed hdash =>
    cases spelling with
    | apart =>
      simp only [Opt.args, hfind]
      refine getopt_waiting ?_ (by simpa using hdash)
      rw [scanArg_letter hdash, scanLetters_option hnamed hne, if_pos rfl]
    | joined =>
      simp only [Opt.args, hfind]
      refine getopt_own ?_ (by simp [hdash])
      rw [scanArg_letter hdash, scanLetters_option hnamed hne, if_neg hv]
  | @name name hnone hfind hnamed heq hc hnil =>
    cases spelling with
    | apart =>
      have htake : name.takeWhile (· ≠ 0x3D) = name ∧ name.dropWhile (· ≠ 0x3D) = [] := by
        have hall : ∀ b ∈ name, decide (b ≠ 0x3D) = true := fun b hb => by
          have hne : b ≠ 0x3D := fun he => heq (he ▸ hb)
          exact decide_eq_true hne
        exact ⟨List.takeWhile_eq_self_iff.mpr hall, List.dropWhile_eq_nil_iff.mpr hall⟩
      simp only [Opt.args, hnone, hfind]
      refine getopt_waiting ?_ (by simpa using hnil)
      have hscan := @scanLong_option name o (by rw [htake.1]; exact hnamed) hne
      rw [htake.2] at hscan
      exact hscan
    | joined =>
      obtain ⟨htake, hdrop⟩ := takeWhile_name heq v.bytes
      simp only [Opt.args, hnone, hfind]
      refine getopt_own ?_ (by simp)
      have hscan := @scanLong_option (name ++ 0x3D :: v.bytes) o (by rw [htake]; exact hnamed) hne
      rw [hdrop] at hscan
      exact hscan

/-- The configuration that the options are applied to. A value of its own that begins like
`--config=` is taken for a configuration file, which is loaded first. -/
def startConfig (files : Bytes → ConfigFile) (spelling : Spelling) (v : CStr) (c : EngineConfig) :
    Except Bytes EngineConfig :=
  match spelling with
  | .joined => .ok c
  | .apart =>
    if configPrefix.isPrefixOf v.bytes then engineConfigLoad files (v.bytes.drop 9) c else .ok c

/-- An argument that does not begin with `--c` is passed over. -/
theorem configFile_skip {arg : Bytes} {args : List Bytes}
    (h : arg.take 3 ≠ [0x2D, 0x2D, 0x63]) : configFile (arg :: args) = configFile args := by
  have hname : arg ≠ ascii "--config" := by
    rintro rfl
    exact h rfl
  have hconfig : configPrefix.isPrefixOf arg = false := by
    by_contra hp
    rw [Bool.not_eq_false, List.isPrefixOf_iff_prefix] at hp
    obtain ⟨t, rfl⟩ := hp
    exact h rfl
  rw [configFile, if_neg hname]
  simp only [hconfig, Bool.false_eq_true, if_false]

theorem configFile_args {o : Opt} (hw : o.Written) (hv : v.bytes ≠ []) (spelling : Spelling) :
    configFile (o.args spelling v) =
      match spelling with
      | .joined => none
      | .apart => if configPrefix.isPrefixOf v.bytes then some (v.bytes.drop 9) else none := by
  have hvalue : configFile [v.bytes] =
      if configPrefix.isPrefixOf v.bytes then some (v.bytes.drop 9) else none := by
    rw [configFile]
    simp only [List.head?_nil, ite_self]
    rfl
  cases hw with
  | @letter b hfind _ hdash =>
    cases spelling with
    | apart =>
      simp only [Opt.args, hfind]
      rw [configFile_skip (by simp), hvalue]
    | joined =>
      simp only [Opt.args, hfind]
      cases hb : v.bytes with
      | nil => exact absurd hb hv
      | cons x s => exact configFile_skip (by simp [hdash])
  | @name name hnone hfind _ _ hc hnil =>
    cases name with
    | nil => exact absurd rfl hnil
    | cons x s =>
      have hx : x ≠ 0x63 := fun he => hc (by rw [he]; rfl)
      cases spelling with
      | apart =>
        simp only [Opt.args, hnone, hfind]
        rw [configFile_skip (by simp [hx]), hvalue]
      | joined =>
        simp only [Opt.args, hnone, hfind]
        exact configFile_skip (by simp [hx])

theorem cli_eq {k : Key} {o : Opt} (hk : k.opt = some o) (h : Plain v)
    (files : Bytes → ConfigFile) (prog : Bytes) (spelling : Spelling) (c : EngineConfig) :
    engineConfigApplyCli files c (prog :: o.args spelling v) =
      match startConfig files spelling v c with
      | .ok c' => applyOptions c' [.opt o v.bytes]
      | .error e => .failed e := by
  obtain ⟨hw, hne⟩ := opt_written hk
  rw [engineConfigApplyCli, configFile_args hw h.ne, getopt_args hw hne h.ne]
  cases spelling with
  | joined => rfl
  | apart =>
    by_cases hp : configPrefix.isPrefixOf v.bytes = true
    · cases hl : engineConfigLoad files (v.bytes.drop 9) c with
      | ok c' => simp only [startConfig, if_pos hp, hl]
      | error e => simp only [startConfig, if_pos hp, hl]
    · simp only [startConfig, if_neg hp]

/-! ## Agreement -/

/-- Both sides store the value given, or both reject. -/
def Agrees (k : Key) (v : CStr) (doc : Except Bytes EngineConfig) (cli : CliResult) : Prop :=
  (∃ c₁ c₂ x, doc = .ok c₁ ∧ cli = .applied c₂ ∧ k.kind.given v = some x ∧ k.get c₁ = some x ∧
    k.get c₂ = some x) ∨ ∃ e e', doc = .error e ∧ cli = .failed e'

def Validates (c : EngineConfig) : Prop := (engineConfigValidate c).isOk = true

instance (c : EngineConfig) : Decidable (Validates c) := inferInstanceAs (Decidable (_ = _))

/-- The value that the document takes from a text. -/
def Key.taken (k : Key) (v : CStr) : Option Field := (k.kind.given v).filter k.kind.fits

/-- The condition under which a setting comes out alike: the text gives no value, or one that both
sides read alike, or the command line fails in any case; and what the document takes passes the
validation. -/
def Meets (k : Key) (v : CStr) : Except Bytes EngineConfig → Prop
  | .error _ => k.taken v = none
  | .ok c => ((∀ x ∈ k.kind.given v, k.kind.alike x = true) ∨ ¬ Validates c) ∧
      ∀ x ∈ k.taken v, Validates (k.put c x)

theorem get_put {k : Key} {o : Opt} (hk : k.opt = some o) {x : Field} (ht : k.kind.Typed x)
    (c : EngineConfig) : k.get (k.put c x) = some x := by
  cases k <;> cases hk <;> cases x <;> first | rfl | exact ht.elim

/-- The settings that the two sides may read differently are no part of what is validated. -/
theorem validate_put {k : Key} {o : Opt} (hk : k.opt = some o) {x : Field}
    (h : k.kind.alike x = false) (c : EngineConfig) (y : Field) :
    engineConfigValidate (k.put c y) = engineConfigValidate c := by
  cases k <;> cases hk <;> first
    | (cases y <;> rfl)
    | (cases x <;> cases h)

/-- The loop over the one option. -/
theorem applyOptions_one {o : Opt} (hne : o ≠ .help) (c : EngineConfig) :
    applyOptions c [.opt o v.bytes] =
      match o.apply v c with
      | .ok c' => applyOptions c' []
      | .error e => .failed e := by
  cases ho : o.apply v c with
  | ok c' => simp only [applyOptions, cstr_bytes, ho]
  | error e => simp only [applyOptions, cstr_bytes, ho]

theorem applyOptions_nil {c : EngineConfig} :
    Validates c ∧ applyOptions c [] = .applied c ∨
      ¬ Validates c ∧ ∃ e, applyOptions c [] = .failed e := by
  simp only [Validates, applyOptions]
  cases engineConfigValidate c with
  | ok u => exact .inl ⟨rfl, rfl⟩
  | error e => exact .inr ⟨by simp [Except.isOk, Except.toBool], e, rfl⟩

theorem toOption_none {α : Type} {x : Except Bytes α} (h : x.toOption = none) :
    ∃ e, x = .error e := by
  cases x with
  | error e => exact ⟨e, rfl⟩
  | ok a => cases h

theorem toOption_some {α : Type} {x : Except Bytes α} {a : α} (h : x.toOption = some a) :
    x = .ok a := by
  cases x with
  | error e => cases h
  | ok b =>
    cases h
    rfl

/-- What the option makes of a text. -/
def Key.read (k : Key) (v : CStr) : Option Field := (k.kind.given v).bind k.kind.reads

/-- The command line on one setting: it stores what the option reads, or it fails. -/
theorem cli_result {k : Key} {o : Opt} (hk : k.opt = some o) (h : Plain v) (c : EngineConfig) :
    (∃ y, k.read v = some y ∧ Validates (k.put c y) ∧
      applyOptions c [.opt o v.bytes] = .applied (k.put c y)) ∨
    ((∀ y, k.read v = some y → ¬ Validates (k.put c y)) ∧
      ∃ e, applyOptions c [.opt o v.bytes] = .failed e) := by
  have hopt : (o.apply v c).toOption = (k.read v).map (k.put c) := apply_opt hk h c
  rw [applyOptions_one (opt_written hk).2]
  cases hr : k.read v with
  | none =>
    rw [hr] at hopt
    obtain ⟨e, he⟩ := toOption_none hopt
    rw [he]
    exact .inr ⟨by simp, e, rfl⟩
  | some y =>
    rw [hr] at hopt
    rw [toOption_some hopt]
    rcases @applyOptions_nil (k.put c y) with ⟨hv, happ⟩ | ⟨hv, hfail⟩
    · exact .inl ⟨y, rfl, hv, happ⟩
    · refine .inr ⟨fun y' hy' => ?_, hfail⟩
      cases hy'
      exact hv

theorem given_of_taken {k : Key} {x : Field} (h : k.taken v = some x) :
    k.kind.given v = some x := (Option.filter_eq_some_iff.mp h).1

/-- The agreement in terms of what each side takes from the text. -/
theorem agrees_iff {k : Key} {o : Opt} (hk : k.opt = some o) (h : Plain v) {c c' : EngineConfig}
    {doc : Except Bytes EngineConfig} (hdoc : doc.toOption = (k.taken v).map (k.put c)) :
    Agrees k v doc (applyOptions c' [.opt o v.bytes]) ↔
      (∃ y, k.taken v = some y ∧ k.read v = some y ∧ Validates (k.put c' y)) ∨
      (k.taken v = none ∧ ∀ y, k.read v = some y → ¬ Validates (k.put c' y)) := by
  have hcli := cli_result hk h c'
  generalize applyOptions c' [.opt o v.bytes] = cli at hcli ⊢
  constructor
  · rintro (⟨c₁, c₂, x, rfl, rfl, hg, hx₁, hx₂⟩ | ⟨e, e', rfl, rfl⟩)
    · obtain ⟨y, hy, hput⟩ := Option.map_eq_some_iff.mp hdoc.symm
      have hyx : y = x := Option.some.inj ((given_of_taken hy).symm.trans hg)
      rcases hcli with ⟨z, hz, hv, happ⟩ | ⟨-, e, happ⟩
      · obtain ⟨x', hx', hr⟩ := Option.bind_eq_some_iff.mp hz
        have hzx := get_put hk (reads_typed hr) c'
        rw [CliResult.applied.injEq] at happ
        rw [happ, hzx] at hx₂
        obtain rfl : z = x := Option.some.inj hx₂
        exact .inl ⟨z, by rw [hy, hyx], hz, hv⟩
      · cases happ
    · rcases hcli with ⟨z, _, _, happ⟩ | ⟨hfail, -⟩
      · cases happ
      · exact .inr ⟨Option.map_eq_none_iff.mp hdoc.symm, hfail⟩
  · rintro (⟨y, ht, hr, hv⟩ | ⟨ht, hfail⟩)
    · rw [ht] at hdoc
      have hg := given_of_taken ht
      have htyped := given_typed hg
      rcases hcli with ⟨z, hz, -, happ⟩ | ⟨hfail, -⟩
      · obtain rfl : z = y := Option.some.inj (hz.symm.trans hr)
        exact .inl ⟨_, _, z, toOption_some hdoc, happ, hg, get_put hk htyped c,
          get_put hk htyped c'⟩
      · exact absurd hv (hfail y hr)
    · rw [ht] at hdoc
      obtain ⟨e, he⟩ := toOption_none hdoc
      rcases hcli with ⟨z, hz, hv, -⟩ | ⟨-, e', happ⟩
      · exact absurd hv (hfail z hz)
      · exact .inr ⟨e, e', he, happ⟩

/-- **Command line and document agree on a setting exactly under the condition.** -/
theorem settings_agree_iff {name : Bytes} {k : Key} {o : Opt} {files : Bytes → ConfigFile}
    {prog path : Bytes} {keyLine line : Nat} {spelling : Spelling} {c : EngineConfig}
    (hname : keyNamed name = some k) (hk : k.opt = some o) (h : Plain v) :
    Agrees k v (configApplyDocument c (oneSetting name keyLine line v) path)
        (engineConfigApplyCli files c (prog :: o.args spelling v)) ↔
      Meets k v (startConfig files spelling v c) := by
  rw [document_eq hname h, cli_eq hk h]
  have hdoc : (k.apply ⟨name, path, keyLine⟩ v c).toOption = (k.taken v).map (k.put c) :=
    apply_key hk h c
  generalize k.apply ⟨name, path, keyLine⟩ v c = doc at hdoc ⊢
  cases startConfig files spelling v c with
  | error e =>
    simp only [Meets]
    constructor
    · rintro (⟨_, _, _, -, hcli, -⟩ | ⟨e₁, _, rfl, -⟩)
      · cases hcli
      · exact Option.map_eq_none_iff.mp hdoc.symm
    · intro ht
      rw [ht] at hdoc
      obtain ⟨e₁, he₁⟩ := toOption_none hdoc
      exact .inr ⟨e₁, e, he₁, rfl⟩
  | ok c' =>
    simp only [Meets, agrees_iff hk h hdoc]
    cases hg : k.kind.given v with
    | none => simp [Key.taken, Key.read, hg]
    | some x =>
      have hiff := @alike_iff k.kind x (given_typed hg)
      have ht : k.taken v = (some x).filter k.kind.fits := by rw [Key.taken, hg]
      have hr : k.read v = k.kind.reads x := by rw [Key.read, hg, Option.bind_some]
      rw [ht, hr]
      by_cases ha : k.kind.alike x = true
      · rw [← hiff.mp ha]
        cases (some x).filter k.kind.fits with
        | none => simp [ha]
        | some y => simp [ha]
      · have hne : (some x).filter k.kind.fits ≠ k.kind.reads x := fun he => ha (hiff.mpr he)
        have hval : ∀ y, Validates (k.put c' y) ↔ Validates c' := fun y => by
          rw [Validates, Validates, validate_put hk (by simpa using ha) c' y]
        simp only [hval]
        cases hf : (some x).filter k.kind.fits with
        | none =>
          obtain ⟨z, hz⟩ : ∃ z, k.kind.reads x = some z :=
            Option.ne_none_iff_exists'.mp fun hn => hne (hf.trans hn.symm)
          simp [hz, ha]
        | some y =>
          have hzy : k.kind.reads x ≠ some y := fun he => hne (hf.trans he.symm)
          simp [hzy, ha]

def noFiles : Bytes → ConfigFile := fun _ => .missing

def wideCamera : CStr := .ofBytes (ascii "4294967296") (by decide)

def sensorCamera : CStr := .ofBytes (ascii "-1") (by decide)

theorem settings_agree_demo :
    Agrees .camId sensorCamera
      (configApplyDocument engineConfigDefaults (oneSetting (ascii "cam_id") 1 1 sensorCamera)
        (ascii "media_engine.yaml"))
      (engineConfigApplyCli noFiles engineConfigDefaults
        (ascii "media_engine" :: Opt.camId.args .apart sensorCamera)) := by
  have hplain : Plain sensorCamera := ⟨by decide, by decide, by decide⟩
  refine (settings_agree_iff (by decide +kernel) rfl hplain).mpr ⟨.inl ?_, ?_⟩
  · decide
  · decide

/-- The camera 2^32 is refused in the document and taken for camera 0 on the command line. -/
theorem camera_wraps :
    ¬ Agrees .camId wideCamera
      (configApplyDocument engineConfigDefaults (oneSetting (ascii "cam_id") 1 1 wideCamera)
        (ascii "media_engine.yaml"))
      (engineConfigApplyCli noFiles engineConfigDefaults
        (ascii "media_engine" :: Opt.camId.args .apart wideCamera)) := by
  have hcli : engineConfigApplyCli noFiles engineConfigDefaults
      (ascii "media_engine" :: Opt.camId.args .apart wideCamera) =
        .applied { engineConfigDefaults with camId := 0 } := by decide +kernel
  have hdoc : (configApplyDocument engineConfigDefaults
      (oneSetting (ascii "cam_id") 1 1 wideCamera) (ascii "media_engine.yaml")).isOk = false := by
    decide +kernel
  rw [hcli]
  rintro (⟨c₁, _, _, h, -⟩ | ⟨_, _, -, h⟩)
  · rw [h] at hdoc
    cases hdoc
  · cases h

end FlowAlarm.Config
