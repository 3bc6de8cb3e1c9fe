import FlowAlarm.Journal.Durability
import FlowAlarm.Daemon.Media

/-!
# The event wire

`ipc_send_analytics_record` prints a notification with cJSON, `ConsumeEvents`
reads the line with `encoding/json`. The two agree on every string that is
UTF-8 and on the integers that cJSON prints in plain decimal notation
(`PlainNat`).

* `strReads_printString`: what Go makes of a string cJSON printed.
* `parseUint_printNumber`: which integers survive.
* `consumeEvent_sent`: which notifications arrive as they were sent.
-/

namespace FlowAlarm.Wire

open FlowAlarm.Text FlowAlarm.Num FlowAlarm.CJson FlowAlarm.GoJson FlowAlarm.Engine FlowAlarm.Codec

/-! ## The sender -/

def notification (cursor : ℕ) (analytics : Json) : Json :=
  .obj [(ascii "v", natItem 1), (ascii "method", .str (ascii "media.event")),
    (ascii "params", .obj [(ascii "event", .str (ascii "analytics")), (ascii "cursor", natItem cursor),
      (ascii "analytics", analytics)])]

/-- `ipc_send_analytics_record`: the line it sends. -/
def ipcSendAnalyticsRecord (cursor : ℕ) (event : MeAnalyticsEvent) : Option Bytes :=
  if cursor = 0 then none
  else (meAnalyticsEventToJson event).map fun analytics =>
    printUnformatted (notification cursor analytics) ++ [0x0A]

/-! ## The receiver -/

structure RpcError where
  code : Int
  message : Bytes
  deriving DecidableEq

/-- `rpcEnvelope`; a raw message is the value it denotes, `none` if it is absent. -/
structure RpcEnvelope where
  v : Int
  id : Nat
  method : Bytes
  params : Option Json
  result : Option Json
  error : Option RpcError

structure EventNotificationParams where
  event : Bytes
  cursor : Nat
  analytics : Media.AnalyticsEvent
  deriving DecidableEq

structure EventNotification where
  cursor : Nat
  event : Media.AnalyticsEvent
  deriving DecidableEq

def errorFields : List (Slot RpcError) :=
  [scalarField (readInt 64) (ascii "code") fun v e => { e with code := v },
    scalarField readString (ascii "message") fun v e => { e with message := v }]

def envelopeFields : List (Slot RpcEnvelope) :=
  [scalarField (readInt 64) (ascii "v") fun v m => { m with v := v },
    scalarField (readUint 64) (ascii "id") fun v m => { m with id := v },
    scalarField readString (ascii "method") fun v m => { m with method := v },
    rawField (ascii "params") fun v m => { m with params := some v },
    rawField (ascii "result") fun v m => { m with result := some v },
    pointerField (decodeStruct errorFields) ⟨0, []⟩ (ascii "error") (·.error)
      fun v m => { m with error := v }]

def paramsFields : List (Slot EventNotificationParams) :=
  [scalarField readString (ascii "event") fun v p => { p with event := v },
    scalarField (readUint 64) (ascii "cursor") fun v p => { p with cursor := v },
    structField Media.decodeEvent (ascii "analytics") (·.analytics)
      fun v p => { p with analytics := v }]

def RpcEnvelope.zero : RpcEnvelope := ⟨0, 0, [], none, none, none⟩

def EventNotificationParams.zero : EventNotificationParams := ⟨[], 0, .zero⟩

/-- The notification that a subscribed `ConsumeEvents` hands on for a line; `none` ends the
connection with an error, or is an answer to a request. -/
def consumeEvent (line : Bytes) : Option EventNotification :=
  match (readValue line).bind (decodeStruct envelopeFields .zero) with
  | none => none
  | some message =>
    if message.error ≠ none then none
    else if message.method = ascii "media.event" then
      match message.params.bind (decodeStruct paramsFields .zero) with
      | none => none
      | some params =>
        if params.event ≠ ascii "analytics" ∨ params.cursor = 0 then none
        else some ⟨params.cursor, params.analytics⟩
    else none

/-- The daemon's event with every field as in the engine's. -/
def goEvent (event : MeAnalyticsEvent) : Media.AnalyticsEvent where
  contractVersion := event.contractVersion
  eventID := event.eventId.bytes
  channelID := event.channelId.bytes
  streamEpoch := event.streamEpoch
  eventType := meRuleTypeName event.eventType
  ruleID := event.ruleId.bytes
  phase := meEventPhaseName event.phase
  eventSeq := event.eventSeq
  reason := meEventReasonName event.reason
  eventTimeUS := event.eventTimeUs
  clockState := meClockStateName event.clockState
  sourcePTSValid := event.sourcePtsValid
  sourcePTS := event.sourcePts
  sourceTimebase := ⟨event.sourceTimebase.num, event.sourceTimebase.den⟩
  frameID := event.frameId
  personCount := event.personCount
  deltaIn := event.deltaIn
  deltaOut := event.deltaOut
  configVersion := event.configVersion
  evidenceID := event.evidenceId.bytes
  responsibleTrackCount := event.responsibleTrackIds.length
  responsibleTrackIDs := some event.responsibleTrackIds

/-! ## Strings -/

theorem writes_escapeByte : ∀ n < 128, writes (escapeByte (UInt8.ofNat n)) (UInt8.ofNat n) = true := by
  decide +kernel

theorem escapeByte_high {b : UInt8} (h : ¬ b < 0x80) : escapeByte b = [b] := by
  obtain ⟨h1, h2, -⟩ := high_ne h
  have h3 : 31 < b := by
    rw [UInt8.lt_iff_toNat_lt] at h ⊢
    have : (0x80 : UInt8).toNat = 128 := rfl
    show 31 < b.toNat
    omega
  rw [escapeByte, if_pos ⟨h3, h2, h1⟩]

theorem printString_high {t : Bytes} (h : ∀ c ∈ t, ¬ c < 0x80) (s : Bytes) :
    printString (t ++ s) = t ++ printString s := by
  induction t with
  | nil => rfl
  | cons b t ih =>
    obtain ⟨hb, ht⟩ := List.forall_mem_cons.mp h
    rw [List.cons_append, printString, List.flatMap_cons, escapeByte_high hb]
    exact congrArg (b :: ·) (ih ht)

theorem escapeByte_low : ∀ n < 128, (escapeByte (UInt8.ofNat n)).head?.any (· < 0x80) = true := by
  decide +kernel

theorem fits_low {r : UInt8 × UInt8} {rs : List (UInt8 × UInt8)} (hr : (0x80 : UInt8) ≤ r.1)
    {b : UInt8} (hb : b < 0x80) (s : Bytes) : fits (r :: rs) (b :: s) = false := by
  have hlt : ¬ r.1 ≤ b := UInt8.not_le.mpr (UInt8.lt_of_lt_of_le hb hr)
  simp only [fits, hlt, decide_false, Bool.false_and]

/-- Escaping neither completes nor breaks a character. -/
theorem fits_printString {rs : List (UInt8 × UInt8)} (hr : ∀ r ∈ rs, (0x80 : UInt8) ≤ r.1)
    (s : Bytes) : fits rs (printString s) = fits rs s := by
  induction rs generalizing s with
  | nil => simp only [fits]
  | cons r rs ih =>
    obtain ⟨hr0, hrs⟩ := List.forall_mem_cons.mp hr
    cases s with
    | nil => rfl
    | cons b s =>
      by_cases hb : b < 0x80
      · have hlow := escapeByte_low b.toNat (UInt8.lt_iff_toNat_lt.mp hb)
        rw [UInt8.ofNat_toNat] at hlow
        cases he : escapeByte b with
        | nil => simp [he] at hlow
        | cons c t =>
          have hc : c < 0x80 := by simpa [he] using hlow
          rw [fits_low hr0 hb, printString, List.flatMap_cons, he, List.cons_append, fits_low hr0 hc]
      · have := printString_high (t := [b]) (by simpa using hb) s
        rw [List.singleton_append, List.singleton_append] at this
        simp only [this, fits, ih hrs]

theorem runeTail_printString (b : UInt8) (s : Bytes) :
    runeTail b (printString s) = runeTail b s := by
  unfold runeTail
  split
  · rfl
  · next rs hrs =>
    have hb := contRanges_high b.toNat b.toNat_lt rs (by simpa using hrs)
    rw [fits_printString hb.2]

theorem unquote_print (s : Bytes) : GoJson.unquote (printString s) = some (sanitize s) := by
  induction s using utf8_induction with
  | nil => rfl
  | ascii b s hb ih =>
    have hw := writes_escapeByte b.toNat (UInt8.lt_iff_toNat_lt.mp hb)
    rw [UInt8.ofNat_toNat] at hw
    rw [printString, List.flatMap_cons, (writes_spec hw).2, sanitize_ascii hb]
    exact congrArg _ ih
  | rune b t s hc ih =>
    have hhigh : ∀ c ∈ b :: t, ¬ c < 0x80 := List.forall_mem_cons.mpr ⟨hc.high, hc.bytes⟩
    rw [sanitize_rune hc, ← List.cons_append, printString_high hhigh, List.cons_append,
      unquote_rune hc, ih]
    rfl
  | bad b s hb ht ih =>
    have := printString_high (t := [b]) (by simpa using hb) s
    rw [List.singleton_append, List.singleton_append] at this
    rw [this, unquote_bad hb (by rw [runeTail_printString, ht]), ih, sanitize_bad hb ht]
    rfl

/-- **Go reads a printed string as its sanitized self.** -/
theorem strReads_printString (s : Bytes) : StrReads go printString s (sanitize s) := fun rest =>
  (printString_quotable s).lex (unquote_print s) rest

/-! ## Integers -/

/-- An integer that is a double and is printed without an exponent. -/
def PlainNat (v : ℕ) : Prop :=
  binary64 (v : ℚ) = v ∧ (v < 10 ^ 15 ∨
    (v < 10 ^ 17 ∧ compareDouble (binary64 (roundSig 10 15 (v : ℚ))) (v : ℚ) = false))

instance (v : ℕ) : Decidable (PlainNat v) := inferInstanceAs (Decidable (_ ∧ _))

theorem lexExp_expPart (acc : Bytes) (x : ℤ) {rest : Bytes} (h : Follow rest) :
    lexExp acc (expPart x ++ rest) = some (acc ++ expPart x, rest) := by
  have hds : ∀ b ∈ (if x.natAbs < 10 then 0x30 :: dec x.natAbs else dec x.natAbs),
      isDigit b = true := by
    intro b hb
    split at hb
    · rcases List.mem_cons.mp hb with rfl | hb
      · decide
      · exact isDigit_of_mem_dec hb
    · exact isDigit_of_mem_dec hb
  have hne : (if x.natAbs < 10 then 0x30 :: dec x.natAbs else dec x.natAbs) ≠ [] := by
    split
    · simp
    · exact dec_ne_nil _
  unfold expPart
  generalize (if x.natAbs < 10 then 0x30 :: dec x.natAbs else dec x.natAbs) = ds at hds hne
  have hspan := spanDigits_digits hds (follow_not_digit h)
  have hsign : ∀ u, expSign ((if x < 0 then 0x2D else 0x2B) :: u) =
      ([if x < 0 then 0x2D else 0x2B], u) := by
    intro u
    split <;> rfl
  simp only [List.cons_append, lexExp, true_or, if_true, hsign, hspan, if_neg hne]
  rfl

theorem lexFrac_pointed {ds : Bytes} (hds : ∀ b ∈ ds, isDigit b = true) (acc : Bytes) (x : ℤ)
    {rest : Bytes} (h : Follow rest) :
    lexFrac acc (pointed ds ++ (expPart x ++ rest)) = some (acc ++ (pointed ds ++ expPart x), rest) := by
  have hstrip : ∀ b ∈ stripZeros ds, isDigit b = true := fun b hb =>
    hds b ((List.rdropWhile_prefix _ _).subset hb)
  unfold pointed
  split
  · have := lexExp_expPart acc x h
    obtain ⟨t, ht⟩ := expPart_head x
    rw [List.nil_append, List.nil_append, ht, List.cons_append, lexFrac, if_neg (by decide),
      ← List.cons_append, ← ht, this]
  · next hne =>
    have hnd : ∀ b t, expPart x ++ rest = b :: t → isDigit b = false := by
      rintro b t ⟨⟩
      decide
    have hspan := spanDigits_digits hstrip hnd
    simp only [List.cons_append, lexFrac, if_true, hspan, if_neg hne, lexExp_expPart _ x h,
      List.append_assoc]

theorem lexInt_natLit {l : Bytes} (h : NatLit l) (acc : Bytes) {rest : Bytes} (hf : Follow rest) :
    lexInt acc (l ++ rest) = some (acc ++ l, rest) := by
  cases h with
  | plain n => rw [lexInt_dec n acc (follow_not_digit hf), lexFrac_follow _ hf]
  | @exp d ds x hds hd =>
    obtain ⟨hd', hds'⟩ := List.forall_mem_cons.mp hds
    have htext : formatExp (d :: ds) x = d :: (pointed ds ++ expPart x) := by simp [formatExp]
    have hnd : ∀ b t, pointed ds ++ (expPart x ++ rest) = b :: t → isDigit b = false := by
      intro b t hb
      unfold pointed at hb
      split at hb
      · cases hb
        decide
      · cases hb
        decide
    have hspan : spanDigits (pointed ds ++ (expPart x ++ rest)) =
        ([], pointed ds ++ (expPart x ++ rest)) :=
      @spanDigits_digits [] _ (by simp) hnd
    rw [htext, List.cons_append, List.append_assoc, lexInt, if_neg hd, if_pos hd', hspan]
    simp only [lexFrac_pointed hds' _ x hf, List.append_assoc]
    rfl

/-- Go's lexer takes every printed natural number, with or without an exponent. -/
theorem numReads_natLit {l : Bytes} (h : NatLit l) : NumReads go l := by
  obtain ⟨b, t, hl, hb⟩ := h.head
  have hne : ¬ b = 0x2D := by
    rintro rfl
    exact absurd hb (by decide)
  refine ⟨⟨b, t, hl, .inr hb⟩, fun rest hf => ?_⟩
  show lexNumber (l ++ rest) = some (l, rest)
  rw [hl, List.cons_append, lexNumber, if_neg hne, ← List.cons_append, ← hl, lexInt_natLit h [] hf,
    List.nil_append]

theorem numReads_minus {l : Bytes} (h : NatLit l) : NumReads go (0x2D :: l) := by
  refine ⟨⟨0x2D, l, rfl, .inl rfl⟩, fun rest hf => ?_⟩
  show lexNumber (0x2D :: (l ++ rest)) = some (0x2D :: l, rest)
  rw [lexNumber, if_pos rfl, lexInt_natLit h [0x2D] hf]
  rfl

theorem parseUint_exp {bits : ℕ} {d : UInt8} {ds : Bytes} {x : ℤ} :
    parseUint bits (formatExp (d :: ds) x) = none := by
  have hmem : 0x65 ∈ formatExp (d :: ds) x := by
    simp only [formatExp, List.mem_append]
    exact .inr List.mem_cons_self
  rw [parseUint, if_neg]
  rintro ⟨-, hall, -⟩
  exact absurd (List.all_eq_true.mp hall _ hmem) (by decide)

theorem parseUint_formatG {bits p d : ℕ} (hp : 0 < p) (hd : 0 < d) :
    parseUint bits (formatG p (d : ℚ)) = if d < 10 ^ p ∧ d < 2 ^ bits then some d else none := by
  rcases Nat.lt_or_ge d (10 ^ p) with h | h
  · rw [formatG_small hd h]
    by_cases hb : d < 2 ^ bits
    · rw [if_pos ⟨h, hb⟩, parseUint_dec hb]
    · rw [if_neg fun hc => hb hc.2, parseUint, decVal_dec, if_neg fun hc => hb hc.2.2]
  · obtain ⟨c, ds, x, htext, -⟩ := formatG_large hp h
    rw [htext, parseUint_exp, if_neg fun hc => absurd hc.1 (by omega)]

/-- A double that cJSON prints without an exponent. -/
def PlainDouble (d : ℚ) : Prop :=
  d < 10 ^ 15 ∨ (d < 10 ^ 17 ∧ compareDouble (binary64 (roundSig 10 15 d)) d = false)

instance (d : ℚ) : Decidable (PlainDouble d) := inferInstanceAs (Decidable (_ ∨ _))

/-- What Go makes of a printed double that is an integer. -/
theorem parseUint_double (bits d : ℕ) :
    parseUint bits (printNumber (d : ℚ)) =
      if PlainDouble (d : ℚ) ∧ d < 2 ^ bits then some d else none := by
  have h15 : (d : ℚ) < 10 ^ 15 ↔ d < 10 ^ 15 := by exact_mod_cast Iff.rfl
  have h17 : (d : ℚ) < 10 ^ 17 ↔ d < 10 ^ 17 := by exact_mod_cast Iff.rfl
  rcases le_or_gt (d : ℤ) intMax with hs | hl
  · have hplain : PlainDouble (d : ℚ) := by
      refine .inl (h15.mpr ?_)
      simp only [intMax] at hs
      omega
    have hall : (dec d).all isDigit = true :=
      List.all_eq_true.mpr fun b hb => isDigit_of_mem_dec hb
    simp only [printNumber_small hs, parseUint, decVal_dec, dec_ne_nil d, hall, hplain, ne_eq,
      not_false_eq_true, true_and]
  · have hpos : 0 < d := by simp only [intMax] at hl; omega
    rw [printNumber_large hl]
    split
    · next hcmp =>
      rw [parseUint_formatG (by norm_num) hpos]
      simp only [PlainDouble, hcmp, h15, h17, Bool.true_eq_false, and_false, or_false]
    · next hcmp =>
      rw [parseUint_formatG (by norm_num) hpos]
      have hor : d < 10 ^ 15 ∨ d < 10 ^ 17 ↔ d < 10 ^ 17 := by omega
      simp only [PlainDouble, hcmp, h15, h17, and_true, hor]

/-- **Which integers survive the wire**: those that are doubles printed without an exponent. -/
theorem parseUint_printNumber {bits v : ℕ} (h : v < 2 ^ bits) :
    parseUint bits (printNumber (binary64 (v : ℚ))) = some v ↔ PlainNat v := by
  have hplain : PlainDouble (v : ℚ) ↔ (v < 10 ^ 15 ∨
      (v < 10 ^ 17 ∧ compareDouble (binary64 (roundSig 10 15 (v : ℚ))) (v : ℚ) = false)) := by
    unfold PlainDouble
    exact_mod_cast Iff.rfl
  obtain ⟨d, hd, -⟩ := binary64_nat v
  rw [PlainNat, ← hplain, hd, parseUint_double]
  constructor
  · intro he
    split at he
    · next hc =>
      obtain rfl := Option.some.inj he
      exact ⟨rfl, hc.1⟩
    · cases he
  · rintro ⟨he, hp⟩
    obtain rfl : d = v := by exact_mod_cast he
    rw [if_pos ⟨hp, h⟩]

theorem plainNat_of_lt {v : ℕ} (h : v < 10 ^ 15) : PlainNat v :=
  ⟨binary64_natCast (by omega), .inl h⟩

theorem parseInt_of_digit {bits : ℕ} {b : UInt8} {t : Bytes} (h : isDigit b = true) :
    parseInt bits (b :: t) = (parseUint (bits - 1) (b :: t)).map Int.ofNat := by
  have h1 : ¬ b = 0x2D := by rintro rfl; exact absurd h (by decide)
  have h2 : ¬ b = 0x2B := by rintro rfl; exact absurd h (by decide)
  simp only [parseInt, if_neg h1, if_neg h2, Bool.false_eq_true, if_false, parseUint]
  have hlo : -(2 ^ (bits - 1) : ℤ) ≤ (decVal (b :: t) : ℤ) := by
    have : (0 : ℤ) ≤ 2 ^ (bits - 1) := by positivity
    omega
  have hhi : ((decVal (b :: t) : ℕ) : ℤ) < 2 ^ (bits - 1) ↔ decVal (b :: t) < 2 ^ (bits - 1) := by
    exact_mod_cast Iff.rfl
  simp only [hlo, hhi, true_and]
  split <;> rfl

theorem readInt_intItem {z : ℤ} (h : 0 ≤ z ∧ z < 2 ^ 63) :
    readInt 64 (intItem z) = some z ↔ PlainNat z.toNat := by
  obtain ⟨v, rfl⟩ := Int.eq_ofNat_of_zero_le h.1
  obtain ⟨d, hd, -⟩ := binary64_nat v
  obtain ⟨b, t, hl, hb⟩ := (natLit_printNumber d).head
  have hlit : parseInt 64 (b :: t) = (parseUint 63 (b :: t)).map Int.ofNat := parseInt_of_digit hb
  rw [← hl, ← hd] at hlit
  have hplain : parseUint 63 (printNumber (binary64 (v : ℚ))) = some v ↔ PlainNat v :=
    parseUint_printNumber (by omega)
  rw [intItem_natCast, natItem, numberItem, readInt, hlit, Int.toNat_natCast, ← hplain]
  constructor
  · intro he
    obtain ⟨w, hw, hwv⟩ := Option.map_eq_some_iff.mp he
    rw [hw, Int.ofNat.inj hwv]
  · intro he
    rw [he]
    rfl

/-- An integer that cJSON prints without an exponent, exact or not. -/
def PlainInt (z : ℤ) : Prop := PlainDouble (binary64 (z.natAbs : ℚ))

instance (z : ℤ) : Decidable (PlainInt z) := inferInstanceAs (Decidable (PlainDouble _))

theorem PlainDouble.lt {d : ℕ} (h : PlainDouble (d : ℚ)) : d < 10 ^ 17 := by
  have hlt : (d : ℚ) < 10 ^ 17 := by
    rcases h with h | ⟨h, -⟩
    · linarith
    · exact h
  exact_mod_cast hlt

/-- What Go reads for an unsigned integer: its double, unless an exponent is printed. -/
theorem readUint_natItem_eq (v : ℕ) : ∃ d : ℕ, binary64 (v : ℚ) = d ∧
    readUint 64 (natItem v) = if PlainInt v then some d else none := by
  obtain ⟨d, hd, -⟩ := binary64_nat v
  refine ⟨d, hd, ?_⟩
  have hplain : PlainInt v ↔ PlainDouble (d : ℚ) := by rw [PlainInt, Int.natAbs_natCast, hd]
  rw [natItem, numberItem, readUint, hd, parseUint_double]
  refine if_congr (Iff.trans ?_ hplain.symm) rfl rfl
  exact ⟨fun h => h.1, fun h => ⟨h, lt_trans h.lt (by norm_num)⟩⟩

theorem parseInt_minus {bits : ℕ} {l : Bytes} :
    parseInt bits (0x2D :: l) = if l ≠ [] ∧ l.all isDigit ∧ decVal l ≤ 2 ^ (bits - 1) then
      some (-(decVal l : ℤ)) else none := by
  have hlo : -(2 ^ (bits - 1) : ℤ) ≤ -(decVal l : ℤ) ↔ decVal l ≤ 2 ^ (bits - 1) := by
    rw [neg_le_neg_iff]
    exact_mod_cast Iff.rfl
  have hhi : -(decVal l : ℤ) < 2 ^ (bits - 1) := by
    have : (0 : ℤ) < 2 ^ (bits - 1) := by positivity
    omega
  simp only [parseInt, if_true, hlo, hhi, and_true]

/-- The same for a signed integer. -/
theorem readInt_intItem_eq (z : ℤ) : ∃ w : ℤ, binary64 (z : ℚ) = w ∧
    readInt 64 (intItem z) = if PlainInt z then some w else none := by
  obtain ⟨d, hd, -⟩ := binary64_nat z.natAbs
  have hplain : PlainInt z ↔ PlainDouble (d : ℚ) := by rw [PlainInt, hd]
  obtain ⟨b, t, hl, hb⟩ := (natLit_printNumber d).head
  have hread : ∀ bits, 57 ≤ bits → (PlainDouble (d : ℚ) ∧ d < 2 ^ bits ↔ PlainInt z) := by
    intro bits hbits
    rw [hplain]
    refine ⟨fun h => h.1, fun h => ⟨h, lt_of_lt_of_le h.lt ?_⟩⟩
    exact le_trans (by norm_num) (Nat.pow_le_pow_right (by norm_num) hbits)
  rcases le_or_gt 0 z with hz | hz
  · have hcast : binary64 (z : ℚ) = ((d : ℤ) : ℚ) := by
      obtain ⟨v, rfl⟩ := Int.eq_ofNat_of_zero_le hz
      rw [Int.natAbs_natCast] at hd
      push_cast
      exact hd
    refine ⟨d, hcast, ?_⟩
    have hlit : parseInt 64 (b :: t) = (parseUint 63 (b :: t)).map Int.ofNat := parseInt_of_digit hb
    rw [← hl, parseUint_double] at hlit
    rw [intItem, numberItem, readInt, hcast, Int.cast_natCast, hlit,
      if_congr (hread 63 (by norm_num)) rfl rfl]
    split <;> rfl
  · have habs : (z : ℚ) = -((z.natAbs : ℕ) : ℚ) := by
      have : z = -((z.natAbs : ℕ) : ℤ) := by omega
      exact_mod_cast congrArg (Int.cast : ℤ → ℚ) this
    have hcast : binary64 (z : ℚ) = -(d : ℚ) := by rw [habs, binary64_neg, hd]
    have hdpos : 0 < d := by
      have hone : (2 : ℚ) ^ 0 ≤ ((z.natAbs : ℕ) : ℚ) := by
        rw [pow_zero]
        exact_mod_cast (by omega : 1 ≤ z.natAbs)
      have := pow_le_binary64 hone
      rw [hd, pow_zero] at this
      exact_mod_cast this
    refine ⟨-(d : ℤ), by rw [hcast]; push_cast; rfl, ?_⟩
    have hlit := parseUint_double 63 d
    rw [parseUint] at hlit
    rw [intItem, numberItem, readInt, hcast, printNumber_neg hdpos, parseInt_minus]
    by_cases hp : PlainInt z
    · rw [if_pos ((hread 63 (by norm_num)).mpr hp)] at hlit
      split at hlit
      · next hc =>
        rw [if_pos ⟨hc.1, hc.2.1, hc.2.2.le⟩, if_pos hp, Option.some.inj hlit]
      · cases hlit
    · -- an exponent is printed, which is no digit
      rw [if_neg hp]
      refine if_neg fun hc => ?_
      have hbig := parseUint_double 64 d
      rw [parseUint, if_neg fun h => hp ((hread 64 (by norm_num)).mp h)] at hbig
      split at hbig
      · cases hbig
      · next hno =>
        refine hno ⟨hc.1, hc.2.1, lt_of_le_of_lt hc.2.2 ?_⟩
        norm_num

theorem readUint_natItem {bits v : ℕ} (h : v < 2 ^ bits) :
    readUint bits (natItem v) = some v ↔ PlainNat v := parseUint_printNumber h

/-! ## The tree that arrives -/

theorem sanitize_nonul {s : Bytes} (h : 0 ∉ s) : 0 ∉ sanitize s := by
  induction s using utf8_induction with
  | nil => exact h
  | ascii b s hb ih =>
    rw [sanitize_ascii hb, List.mem_cons, not_or]
    rw [List.mem_cons, not_or] at h
    exact ⟨h.1, ih h.2⟩
  | rune b t s hc ih =>
    rw [sanitize_rune hc, ← List.cons_append, List.mem_append, not_or]
    rw [← List.cons_append, List.mem_append, not_or] at h
    exact ⟨h.1, ih h.2⟩
  | bad b s hb ht ih =>
    rw [sanitize_bad hb ht, List.mem_append, not_or]
    exact ⟨by decide, ih fun hm => h (List.mem_cons_of_mem _ hm)⟩

/-- A text as Go reads it. -/
def cleanText (s : CStr) : CStr := ⟨sanitize s.bytes, sanitize_nonul s.nonul⟩

/-- An event with its texts as Go reads them. -/
def cleanEvent (event : MeAnalyticsEvent) : MeAnalyticsEvent :=
  { event with
    eventId := cleanText event.eventId
    channelId := cleanText event.channelId
    ruleId := cleanText event.ruleId
    evidenceId := cleanText event.evidenceId }

theorem reads_natItem (v d : ℕ) : Reads go printString d (natItem v) (natItem v) := by
  obtain ⟨n, hn, -⟩ := binary64_nat v
  simp only [natItem, numberItem, Reads, true_and, hn]
  exact numReads_natLit (natLit_printNumber n)

theorem reads_intItem (z : ℤ) (d : ℕ) : Reads go printString d (intItem z) (intItem z) := by
  rcases le_or_gt 0 z with hz | hz
  · obtain ⟨v, rfl⟩ := Int.eq_ofNat_of_zero_le hz
    rw [intItem_natCast]
    exact reads_natItem v d
  · obtain ⟨n, hn, -⟩ := binary64_nat z.natAbs
    have habs : (z : ℚ) = -((z.natAbs : ℕ) : ℚ) := by
      have : z = -((z.natAbs : ℕ) : ℤ) := by omega
      exact_mod_cast congrArg (Int.cast : ℤ → ℚ) this
    simp only [intItem, numberItem, Reads, true_and, habs, binary64_neg, hn]
    rcases Nat.eq_zero_or_pos n with rfl | hpos
    · rw [Nat.cast_zero, neg_zero, ← Nat.cast_zero]
      exact numReads_natLit (natLit_printNumber 0)
    · rw [printNumber_neg hpos]
      exact numReads_minus (natLit_printNumber n)

theorem reads_str (s : Bytes) (d : ℕ) : Reads go printString d (.str s) (.str (sanitize s)) := by
  simp only [Reads]
  exact strReads_printString s

/-- An ASCII text, such as a name, arrives as it is. -/
theorem strReads_ascii {s : Bytes} (h : validUtf8 s = true) : StrReads go printString s s := by
  have := strReads_printString s
  rwa [sanitize_eq_self.mpr h] at this

theorem reads_name {s : Bytes} (h : validUtf8 s = true) (d : ℕ) :
    Reads go printString d (.str s) (.str s) := by
  simp only [Reads]
  exact strReads_ascii h

theorem ruleTypeName_valid (t : MeRuleType) : validUtf8 (meRuleTypeName t) = true := by
  cases t <;> rfl

theorem phaseName_valid (p : MeEventPhase) : validUtf8 (meEventPhaseName p) = true := by
  cases p <;> rfl

theorem reasonName_valid (r : MeEventReason) : validUtf8 (meEventReasonName r) = true := by
  cases r <;> rfl

theorem clockStateName_valid (c : MeClockState) : validUtf8 (meClockStateName c) = true := by
  cases c <;> rfl

/-- The members of two objects, one read as the other. -/
def MembersRead (d : ℕ) (ms ns : List (Bytes × Json)) : Prop :=
  List.Forall₂ (fun m n => StrReads go printString m.1 n.1 ∧ Reads go printString d m.2 n.2) ms ns

theorem MembersRead.cons {d : ℕ} {k : Bytes} {v w : Json} {ms ns : List (Bytes × Json)}
    (hk : validUtf8 k = true) (h : Reads go printString d v w) (hs : MembersRead d ms ns) :
    MembersRead d ((k, v) :: ms) ((k, w) :: ns) := List.Forall₂.cons ⟨strReads_ascii hk, h⟩ hs

theorem MembersRead.nil (d : ℕ) : MembersRead d [] [] := List.Forall₂.nil

theorem MembersRead.obj {d : ℕ} {ms ns : List (Bytes × Json)} (h : MembersRead d ms ns) :
    Reads go printString (d + 1) (.obj ms) (.obj ns) := by
  simp only [Reads]
  exact h

theorem reads_cleanEvent (event : MeAnalyticsEvent) (d : ℕ) :
    Reads go printString (d + 2) (.obj (eventMembers event))
      (.obj (eventMembers (cleanEvent event))) := by
  have hbool : ∀ b, Reads go printString (d + 1) (.bool b) (.bool b) := fun b => by
    simp only [Reads]
  have hbase : Reads go printString (d + 1)
      (.obj [(ascii "num", natItem event.sourceTimebase.num),
        (ascii "den", natItem event.sourceTimebase.den)])
      (.obj [(ascii "num", natItem event.sourceTimebase.num),
        (ascii "den", natItem event.sourceTimebase.den)]) :=
    (MembersRead.cons rfl (reads_natItem _ _) (.cons rfl (reads_natItem _ _) (.nil _))).obj
  have hids : Reads go printString (d + 1) (.arr (event.responsibleTrackIds.map natItem))
      (.arr (event.responsibleTrackIds.map natItem)) := by
    simp only [Reads]
    rw [List.forall₂_map_left_iff, List.forall₂_map_right_iff, List.forall₂_same]
    exact fun id _ => reads_natItem id d
  exact MembersRead.obj <|
    .cons rfl (reads_natItem _ _) <| .cons rfl (reads_str _ _) <| .cons rfl (reads_str _ _) <|
    .cons rfl (reads_natItem _ _) <| .cons rfl (reads_name (ruleTypeName_valid _) _) <|
    .cons rfl (reads_str _ _) <| .cons rfl (reads_name (phaseName_valid _) _) <|
    .cons rfl (reads_natItem _ _) <| .cons rfl (reads_name (reasonName_valid _) _) <|
    .cons rfl (reads_intItem _ _) <| .cons rfl (reads_name (clockStateName_valid _) _) <|
    .cons rfl (hbool _) <| .cons rfl (reads_intItem _ _) <| .cons rfl hbase <|
    .cons rfl (reads_natItem _ _) <| .cons rfl (reads_natItem _ _) <|
    .cons rfl (reads_natItem _ _) <| .cons rfl (reads_natItem _ _) <|
    .cons rfl (reads_natItem _ _) <| .cons rfl (reads_str _ _) <|
    .cons rfl (reads_natItem _ _) <| .cons rfl hids (.nil _)

theorem readValue_notification (event : MeAnalyticsEvent) (cursor : ℕ) :
    readValue (printUnformatted (notification cursor (.obj (eventMembers event))) ++ [0x0A]) =
      some (notification cursor (.obj (eventMembers (cleanEvent event)))) := by
  have hparams : Reads go printString 9999
      (.obj [(ascii "event", .str (ascii "analytics")), (ascii "cursor", natItem cursor),
        (ascii "analytics", .obj (eventMembers event))])
      (.obj [(ascii "event", .str (ascii "analytics")), (ascii "cursor", natItem cursor),
        (ascii "analytics", .obj (eventMembers (cleanEvent event)))]) :=
    (MembersRead.cons rfl (reads_name rfl _) <| .cons rfl (reads_natItem _ _) <|
      .cons rfl (reads_cleanEvent event 9996) (.nil _)).obj
  have hall : Reads go printString maxNestingDepth
      (notification cursor (.obj (eventMembers event)))
      (notification cursor (.obj (eventMembers (cleanEvent event)))) :=
    (MembersRead.cons rfl (reads_natItem _ _) <| .cons rfl (reads_name rfl _) <|
      .cons rfl hparams (.nil _)).obj
  exact readValue_print hall rfl

/-! ## The event that arrives -/

def readIds (ids : List ℕ) : Option (List ℕ) := ids.mapM fun v => readUint 64 (natItem v)

theorem decodeElems_natItem (old ids : List ℕ) :
    decodeElems (decodeUint 64) 0 old (ids.map natItem) = readIds ids := by
  induction ids generalizing old with
  | nil => simp [decodeElems, readIds]
  | cons id ids ih =>
    have hid : decodeUint 64 (old.head?.getD 0) (natItem id) = readUint 64 (natItem id) := rfl
    rw [List.map_cons, decodeElems, ih, hid, readIds, readIds, List.mapM_cons]
    cases readUint 64 (natItem id) with
    | none => rfl
    | some v => cases ids.mapM fun v => readUint 64 (natItem v) <;> rfl

/-- The event decoded from its tree, given what its 64-bit integers are read as. -/
theorem decode_cleanEvent {event : MeAnalyticsEvent} (h : Emittable event)
    {epoch seq frame version : ℕ} {time pts : ℤ} {ids : List ℕ}
    (hep : readUint 64 (natItem event.streamEpoch) = some epoch)
    (hseq : readUint 64 (natItem event.eventSeq) = some seq)
    (hti : readInt 64 (intItem event.eventTimeUs) = some time)
    (hpt : readInt 64 (intItem event.sourcePts) = some pts)
    (hfr : readUint 64 (natItem event.frameId) = some frame)
    (hver : readUint 64 (natItem event.configVersion) = some version)
    (hids : readIds event.responsibleTrackIds = some ids) :
    Media.decodeEvent .zero (.obj (eventMembers (cleanEvent event))) =
      some { goEvent (cleanEvent event) with
        streamEpoch := epoch, eventSeq := seq, eventTimeUS := time, sourcePTS := pts
        frameID := frame, configVersion := version, responsibleTrackIDs := some ids } := by
  have narrow : ∀ {v : ℕ}, v < 2 ^ 32 → readUint 32 (natItem v) = some v := fun hv =>
    (readUint_natItem hv).mpr (plainNat_of_lt (by omega))
  have hcontract : event.contractVersion < 2 ^ 32 := by rw [h.contract]; decide
  have hcount : event.responsibleTrackIds.length < 2 ^ 32 := lt_of_le_of_lt h.tracks (by decide)
  have hbase : ∀ t : Media.Timebase, decodeStruct Media.timebaseFields t
      (.obj [(ascii "num", natItem event.sourceTimebase.num),
        (ascii "den", natItem event.sourceTimebase.den)]) =
      some ⟨event.sourceTimebase.num, event.sourceTimebase.den⟩ := fun t =>
    show Stores Media.timebaseFields [some _, some _] t _ from
      .cons (store_present Media.timebaseFields_nodup (i := 0) rfl
        (set_num (narrow h.timebase.1) _)) <|
      .cons (store_present Media.timebaseFields_nodup (i := 1) rfl
        (set_num (narrow h.timebase.2) _)) <|
      stores_nil _ _
  have hbase' : ∀ st : Media.AnalyticsEvent, (structField (decodeStruct Media.timebaseFields)
      (ascii "source_timebase") (·.sourceTimebase)
      fun v e => { e with sourceTimebase := v }).set
        (.obj [(ascii "num", natItem event.sourceTimebase.num),
          (ascii "den", natItem event.sourceTimebase.den)]) st =
      some { st with
        sourceTimebase := ⟨event.sourceTimebase.num, event.sourceTimebase.den⟩ } := fun st => by
    simp only [structField, hbase, Option.map_some]
  have hids' : ∀ st : Media.AnalyticsEvent,
      (sliceField (decodeUint 64) 0 (ascii "responsible_track_ids") (·.responsibleTrackIDs)
        fun v e => { e with responsibleTrackIDs := v }).set
        (.arr (event.responsibleTrackIds.map natItem)) st =
      some { st with responsibleTrackIDs := some ids } := fun st => by
    simp only [sliceField, decodeElems_natItem, hids, Option.map_some]
  have store := @store_present _ Media.eventFields Media.eventFields_nodup
  exact show Stores Media.eventFields ((eventMembers (cleanEvent event)).map some) .zero _ from
    .cons (store (i := 0) rfl (set_num (narrow hcontract) _)) <|
    .cons (store (i := 1) rfl (set_string _ _)) <|
    .cons (store (i := 2) rfl (set_string _ _)) <|
    .cons (store (i := 3) rfl (set_num hep _)) <|
    .cons (store (i := 4) rfl (set_string _ _)) <|
    .cons (store (i := 5) rfl (set_string _ _)) <|
    .cons (store (i := 6) rfl (set_string _ _)) <|
    .cons (store (i := 7) rfl (set_num hseq _)) <|
    .cons (store (i := 8) rfl (set_string _ _)) <|
    .cons (store (i := 9) rfl (set_num hti _)) <|
    .cons (store (i := 10) rfl (set_string _ _)) <|
    .cons (store (i := 11) rfl rfl) <|
    .cons (store (i := 12) rfl (set_num hpt _)) <|
    .cons (store (i := 13) rfl (hbase' _)) <|
    .cons (store (i := 14) rfl (set_num hfr _)) <|
    .cons (store (i := 15) rfl (set_num (narrow h.person) _)) <|
    .cons (store (i := 16) rfl (set_num (narrow h.deltaIn) _)) <|
    .cons (store (i := 17) rfl (set_num (narrow h.deltaOut) _)) <|
    .cons (store (i := 18) rfl (set_num hver _)) <|
    .cons (store (i := 19) rfl (set_string _ _)) <|
    .cons (store (i := 20) rfl (set_num (narrow hcount) _)) <|
    .cons (store (i := 21) rfl (hids' _)) <|
    stores_nil _ _

/-- The texts of the event are UTF-8. -/
def TextsValid (event : MeAnalyticsEvent) : Prop :=
  ∀ s ∈ [event.eventId, event.channelId, event.ruleId, event.evidenceId], validUtf8 s.bytes = true

instance (event : MeAnalyticsEvent) : Decidable (TextsValid event) :=
  inferInstanceAs (Decidable (∀ s ∈ _, _))

theorem textsValid_iff {event : MeAnalyticsEvent} :
    TextsValid event ↔ sanitize event.eventId.bytes = event.eventId.bytes ∧
      sanitize event.channelId.bytes = event.channelId.bytes ∧
      sanitize event.ruleId.bytes = event.ruleId.bytes ∧
      sanitize event.evidenceId.bytes = event.evidenceId.bytes := by
  simp only [TextsValid, List.forall_mem_cons, sanitize_eq_self, List.not_mem_nil, false_implies,
    implies_true, and_true]

theorem goEvent_cleanEvent {event : MeAnalyticsEvent} (h : TextsValid event) :
    goEvent (cleanEvent event) = goEvent event := by
  obtain ⟨h1, h2, h3, h4⟩ := textsValid_iff.mp h
  simp only [goEvent, cleanEvent, cleanText, h1, h2, h3, h4]

/-- What a decoded event tells about its 64-bit integers. -/
theorem read_of_decode {event : MeAnalyticsEvent} {e : Media.AnalyticsEvent}
    (hd : Media.decodeEvent .zero (.obj (eventMembers (cleanEvent event))) = some e) :
    (∃ v, readUint 64 (natItem event.streamEpoch) = some v) ∧
    (∃ v, readUint 64 (natItem event.eventSeq) = some v) ∧
    (∃ v, readInt 64 (intItem event.eventTimeUs) = some v) ∧
    (∃ v, readInt 64 (intItem event.sourcePts) = some v) ∧
    (∃ v, readUint 64 (natItem event.frameId) = some v) ∧
    (∃ v, readUint 64 (natItem event.configVersion) = some v) ∧
    ∃ ids, readIds event.responsibleTrackIds = some ids := by
  have member : ∀ (i : ℕ) {f : Slot Media.AnalyticsEvent} {v : Json},
      Media.eventFields[i]? = some f → (eventMembers (cleanEvent event))[i]? = some (f.name, v) →
      ∃ s s', f.set v s = some s' := by
    intro i f v hf hm
    obtain ⟨s, s', hs⟩ := stored_of_fold hd (List.mem_of_getElem? hm)
    exact ⟨s, s', by rw [← storeMember_field Media.eventFields_nodup hf, hs]⟩
  have scalar : ∀ {α : Type} {read : Json → Option α} {name lit : Bytes}
      {put : α → Media.AnalyticsEvent → Media.AnalyticsEvent},
      (∃ s s', (scalarField read name put).set (.num lit) s = some s') →
      ∃ a, read (.num lit) = some a := fun ⟨_, _, h⟩ => read_of_set h
  refine ⟨scalar (member 3 rfl rfl), scalar (member 7 rfl rfl), scalar (member 9 rfl rfl),
    scalar (member 12 rfl rfl), scalar (member 14 rfl rfl), scalar (member 18 rfl rfl), ?_⟩
  obtain ⟨s, s', hs⟩ := member 21 rfl rfl
  have hs : (decodeElems (decodeUint 64) 0 (s.responsibleTrackIDs.getD [])
      (event.responsibleTrackIds.map natItem)).map _ = some s' := hs
  rw [decodeElems_natItem] at hs
  obtain ⟨ids, hids, -⟩ := Option.map_eq_some_iff.mp hs
  exact ⟨ids, hids⟩

/-- **Which events arrive as they were sent.** -/
theorem decode_cleanEvent_iff {event : MeAnalyticsEvent} (h : Emittable event) :
    Media.decodeEvent .zero (.obj (eventMembers (cleanEvent event))) = some (goEvent event) ↔
      (∀ v ∈ wideFields event, PlainNat v) ∧ TextsValid event := by
  have hwide : (∀ v ∈ wideFields event, PlainNat v) ↔
      readUint 64 (natItem event.streamEpoch) = some event.streamEpoch ∧
      readUint 64 (natItem event.eventSeq) = some event.eventSeq ∧
      readInt 64 (intItem event.eventTimeUs) = some event.eventTimeUs ∧
      readInt 64 (intItem event.sourcePts) = some event.sourcePts ∧
      readUint 64 (natItem event.frameId) = some event.frameId ∧
      readUint 64 (natItem event.configVersion) = some event.configVersion ∧
      readIds event.responsibleTrackIds = some event.responsibleTrackIds := by
    have hids : readIds event.responsibleTrackIds = some event.responsibleTrackIds ↔
        ∀ v ∈ event.responsibleTrackIds, PlainNat v := by
      rw [readIds, mapM_eq_self]
      exact forall₂_congr fun v hv => readUint_natItem (h.trackIds v hv)
    simp only [wideFields, List.cons_append, List.nil_append, List.forall_mem_cons, hids,
      readUint_natItem h.epoch.2, readUint_natItem h.seq.2, readInt_intItem h.time,
      readInt_intItem h.pts, readUint_natItem h.frame.2, readUint_natItem h.config]
  constructor
  · intro hd
    obtain ⟨⟨epoch, hep⟩, ⟨seq, hseq⟩, ⟨time, hti⟩, ⟨pts, hpt⟩, ⟨frame, hfr⟩, ⟨version, hver⟩, ids,
      hids⟩ := read_of_decode hd
    have he := Option.some.inj ((decode_cleanEvent h hep hseq hti hpt hfr hver hids).symm.trans hd)
    obtain rfl : epoch = event.streamEpoch := congrArg Media.AnalyticsEvent.streamEpoch he
    obtain rfl : seq = event.eventSeq := congrArg Media.AnalyticsEvent.eventSeq he
    obtain rfl : time = event.eventTimeUs := congrArg Media.AnalyticsEvent.eventTimeUS he
    obtain rfl : pts = event.sourcePts := congrArg Media.AnalyticsEvent.sourcePTS he
    obtain rfl : frame = event.frameId := congrArg Media.AnalyticsEvent.frameID he
    obtain rfl : version = event.configVersion := congrArg Media.AnalyticsEvent.configVersion he
    obtain rfl : ids = event.responsibleTrackIds :=
      Option.some.inj (congrArg Media.AnalyticsEvent.responsibleTrackIDs he)
    exact ⟨hwide.mpr ⟨hep, hseq, hti, hpt, hfr, hver, hids⟩, textsValid_iff.mpr
      ⟨congrArg Media.AnalyticsEvent.eventID he, congrArg Media.AnalyticsEvent.channelID he,
        congrArg Media.AnalyticsEvent.ruleID he, congrArg Media.AnalyticsEvent.evidenceID he⟩⟩
  · rintro ⟨hall, htexts⟩
    obtain ⟨hep, hseq, hti, hpt, hfr, hver, hids⟩ := hwide.mp hall
    rw [decode_cleanEvent h hep hseq hti hpt hfr hver hids, goEvent_cleanEvent htexts]
    rfl

/-! ## The notification -/

theorem envelopeFields_nodup : (envelopeFields.map (·.name)).Nodup := by decide

theorem paramsFields_nodup : (paramsFields.map (·.name)).Nodup := by decide

/-- The envelope of a `media.event` message. -/
theorem decode_mediaEvent (params : Json) :
    decodeStruct envelopeFields .zero (.obj [(ascii "v", natItem 1),
      (ascii "method", .str (ascii "media.event")), (ascii "params", params)]) =
      some { RpcEnvelope.zero with v := 1, method := ascii "media.event", params := some params } := by
  have hone : readInt 64 (natItem 1) = some 1 :=
    (readInt_intItem (by decide)).mpr (plainNat_of_lt (by decide))
  exact show Stores envelopeFields [some _, some _, some _] _ _ from
    .cons (store_present envelopeFields_nodup (i := 0) rfl (set_num hone _)) <|
    .cons (store_present envelopeFields_nodup (i := 2) rfl rfl) <|
    .cons (store_present envelopeFields_nodup (i := 3) rfl rfl) <|
    stores_nil _ _

/-- The envelope of a notification. -/
theorem decode_envelope (cursor : ℕ) (analytics : Json) :
    decodeStruct envelopeFields .zero (notification cursor analytics) =
      some { RpcEnvelope.zero with
        v := 1
        method := ascii "media.event"
        params := some (.obj [(ascii "event", .str (ascii "analytics")),
          (ascii "cursor", natItem cursor), (ascii "analytics", analytics)]) } :=
  decode_mediaEvent _

/-- The parameters of a notification, whose cursor and event are decoded on their own. -/
theorem decode_params (cursor : ℕ) (analytics : Json) :
    decodeStruct paramsFields .zero (.obj [(ascii "event", .str (ascii "analytics")),
      (ascii "cursor", natItem cursor), (ascii "analytics", analytics)]) =
      (readUint 64 (natItem cursor)).bind fun c =>
        (Media.decodeEvent .zero analytics).map fun e => ⟨ascii "analytics", c, e⟩ := by
  have hevent : ∀ st, storeMember paramsFields st (ascii "event", .str (ascii "analytics")) =
      some { st with event := ascii "analytics" } := fun st =>
    storeMember_field paramsFields_nodup (i := 0) rfl _ st
  have hcursor : ∀ st, storeMember paramsFields st (ascii "cursor", natItem cursor) =
      (readUint 64 (natItem cursor)).map fun c => { st with cursor := c } := fun st =>
    storeMember_field paramsFields_nodup (i := 1) rfl _ st
  have hanalytics : ∀ st, storeMember paramsFields st (ascii "analytics", analytics) =
      (Media.decodeEvent st.analytics analytics).map fun e => { st with analytics := e } := fun st =>
    storeMember_field paramsFields_nodup (i := 2) rfl _ st
  simp only [decodeStruct, List.foldlM_cons, List.foldlM_nil, hevent, hcursor, hanalytics,
    Option.bind_eq_bind, Option.bind_some]
  cases readUint 64 (natItem cursor) with
  | none => rfl
  | some c =>
    have hzero : EventNotificationParams.zero.analytics = .zero := rfl
    simp only [Option.map_some, Option.bind_some, hzero]
    cases Media.decodeEvent .zero analytics <;> rfl

/-- What a sent line is received as. -/
theorem consumeEvent_line {event : MeAnalyticsEvent} {cursor c : ℕ}
    {e : Media.AnalyticsEvent} :
    consumeEvent (printUnformatted (notification cursor (.obj (eventMembers event))) ++ [0x0A]) =
        some ⟨c, e⟩ ↔
      readUint 64 (natItem cursor) = some c ∧ c ≠ 0 ∧
        Media.decodeEvent .zero (.obj (eventMembers (cleanEvent event))) = some e := by
  have hnone : (RpcEnvelope.zero).error = none := rfl
  simp only [consumeEvent, readValue_notification event, Option.bind_some, decode_envelope, hnone,
    ne_eq, not_true_eq_false, if_false, if_true, decode_params]
  cases readUint 64 (natItem cursor) with
  | none => simp
  | some c' =>
    cases Media.decodeEvent .zero (.obj (eventMembers (cleanEvent event))) with
    | none => simp
    | some e' =>
      simp only [Option.bind_some, Option.map_some, not_true_eq_false, false_or, Option.some.injEq]
      split
      · next hc =>
        constructor
        · intro hx
          cases hx
        · rintro ⟨rfl, hne, -⟩
          exact absurd hc hne
      · next hc =>
        simp only [Option.some.injEq, EventNotification.mk.injEq]
        constructor
        · rintro ⟨rfl, rfl⟩
          exact ⟨rfl, hc, rfl⟩
        · rintro ⟨rfl, -, rfl⟩
          exact ⟨rfl, rfl⟩

/-- **The daemon receives exactly the sent record** if and only if its cursor and its 64-bit
integers are printed as plain decimals and its texts are UTF-8. -/
theorem consumeEvent_sent {event : MeAnalyticsEvent} (h : Emittable event) {cursor : ℕ}
    (hc : 0 < cursor ∧ cursor < 2 ^ 64) :
    (∃ line, ipcSendAnalyticsRecord cursor event = some line ∧
      consumeEvent line = some ⟨cursor, goEvent event⟩) ↔
    (∀ v ∈ cursor :: wideFields event, PlainNat v) ∧ TextsValid event := by
  have hline : ipcSendAnalyticsRecord cursor event =
      some (printUnformatted (notification cursor (.obj (eventMembers event))) ++ [0x0A]) := by
    rw [ipcSendAnalyticsRecord, if_neg hc.1.ne', meAnalyticsEventToJson,
      if_neg (not_lt.mpr h.tracks), Option.map_some]
  have hpos : cursor ≠ 0 := hc.1.ne'
  simp only [hline, Option.some.injEq, exists_eq_left', consumeEvent_line,
    readUint_natItem hc.2, decode_cleanEvent_iff h, List.forall_mem_cons, hpos, ne_eq,
    not_false_eq_true, true_and, and_assoc]

/-- An event with a synchronised wall clock. -/
def startedAt (time : ℤ) : MeAnalyticsEvent :=
  { Journal.startAt 40000000 with eventTimeUs := time, clockState := .synced }

theorem startedAt_emittable {time : ℤ} (h : 0 ≤ time ∧ time < 2 ^ 63) : Emittable (startedAt time) :=
  { Journal.startAt_emittable 40000000 (by decide) with
    time := h
    clock := by simp [startedAt] }

theorem consumeEvent_sent_demo :
    Emittable (startedAt 1700000000000001) ∧
    ∃ line, ipcSendAnalyticsRecord 7 (startedAt 1700000000000001) = some line ∧
      consumeEvent line = some ⟨7, goEvent (startedAt 1700000000000001)⟩ :=
  ⟨startedAt_emittable (by decide),
    (consumeEvent_sent (startedAt_emittable (by decide)) (by decide)).mpr (by decide +kernel)⟩

/-- A wall clock on a multiple of ten microseconds is printed with an exponent, and the daemon
refuses the line. -/
theorem round_time_refused :
    Emittable (startedAt 1700000000000000) ∧
    ∃ line, ipcSendAnalyticsRecord 7 (startedAt 1700000000000000) = some line ∧
      consumeEvent line = none :=
  ⟨startedAt_emittable (by decide), _, rfl, by decide +kernel⟩

end FlowAlarm.Wire
