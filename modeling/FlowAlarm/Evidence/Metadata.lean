import FlowAlarm.Codec.RoundTrips
import FlowAlarm.Evidence.Recovery

/-!
# Metadata read back

What `record_from_json` makes of the metadata `record_to_json` wrote
(`readBack_record`): the record again, its 64-bit integers by way of doubles.
One kind of record is written and not read back, a time stamp without a time
base (`readBack_unstamped`).
-/

namespace FlowAlarm.Evidence

open FlowAlarm.Text FlowAlarm.Num FlowAlarm.CJson FlowAlarm.Engine FlowAlarm.Codec

/-! ## Numbers -/

/-- An unsigned field as it comes back. -/
def backU64 (v : ℕ) : ℕ :=
  (truncate 0 uint64Max (valueDouble (printNumber (binary64 (v : ℚ))))).toNat

/-- A signed field as it comes back. -/
def backI64 (z : ℤ) : ℤ :=
  truncate (-2 ^ 63) (2 ^ 63 - 1) (valueDouble (printNumber (binary64 (z : ℚ))))

theorem truncate_natCast {lo hi : ℤ} {v : ℕ} (hlo : lo ≤ 0) (hhi : (v : ℤ) ≤ hi) :
    truncate lo hi (v : ℚ) = v := by
  have hv : (0 : ℚ) ≤ v := Nat.cast_nonneg v
  rw [truncate, if_pos hv, Int.floor_natCast]
  omega

/-- Small integers come back as they are. -/
theorem valueDouble_small {v : ℕ} (h : v < 2 ^ 52) :
    valueDouble (printNumber (binary64 (v : ℚ))) = v := by
  rw [binary64_natCast (by omega)]
  exact (valueDouble_printNumber (by omega)).mpr ⟨by omega, .inl (by omega)⟩

theorem backU64_small {v : ℕ} (h : v < 2 ^ 52) : backU64 v = v := by
  rw [backU64, valueDouble_small h, truncate_natCast le_rfl (by simp only [uint64Max]; omega),
    Int.toNat_natCast]

section Members

variable {object : Json} {key : Bytes}

theorem jsonNumber_natItem {v : ℕ} (h : getObjectItem object key = some (natItem v)) :
    jsonNumber object key = some (valueDouble (printNumber (binary64 (v : ℚ)))) := by
  rw [jsonNumber, h]
  rfl

theorem backU64_natItem {v : ℕ} (h : getObjectItem object key = some (natItem v)) :
    jsonU64 object key = some (backU64 v) := by
  obtain ⟨d, hd, -⟩ := binary64_nat v
  have hnn : ¬ valueDouble (printNumber (binary64 (v : ℚ))) < 0 :=
    not_lt.mpr (hd ▸ (natLit_printNumber d).valueDouble_nonneg)
  rw [jsonU64, jsonNumber_natItem h]
  exact if_neg hnn

theorem backI64_intItem {z : ℤ} (h : getObjectItem object key = some (intItem z)) :
    jsonI64 object key = some (backI64 z) := by
  have hnum : jsonNumber object key = some (valueDouble (printNumber (binary64 (z : ℚ)))) := by
    rw [jsonNumber, h]
    rfl
  rw [jsonI64, hnum]
  rfl

theorem jsonString_read {s : CStr} {outsz : ℕ}
    (h : getObjectItem object key = some (stringItem s)) (hne : s.bytes ≠ [])
    (hs : s.bytes.length < outsz) : jsonString object key outsz = some s := by
  obtain ⟨b, hb⟩ := s
  have hc : cString b = b := cString_eq_self hb
  have hcs : (⟨cString b, cString_nonul b⟩ : CStr) = ⟨b, hb⟩ := by
    rw [CStr.mk.injEq]
    exact hc
  rw [jsonString, h, stringItem]
  exact (if_neg (by rw [hc]; exact hne)).trans
    (congrArg some ((congrArg (CStr.snprintf outsz) hcs).trans (CStr.snprintf_eq hs)))

end Members

/-- An integer of at most 64 bits prints to a literal that is read whole. -/
theorem reads_intItem_wide {z : ℤ} (h : z.natAbs < 2 ^ 64) (d : ℕ) :
    Reads cjson printString d (intItem z) (intItem z) := by
  simp only [intItem, numberItem, Reads, true_and]
  rcases le_or_gt 0 z with hz | hz
  · obtain ⟨v, rfl⟩ := Int.eq_ofNat_of_zero_le hz
    have hcast : (((v : ℕ) : ℤ) : ℚ) = (v : ℚ) := by push_cast; rfl
    rw [hcast]
    exact numReads_printNumber (by omega)
  · obtain ⟨v, hv⟩ : ∃ v : ℕ, z = -(v : ℤ) := ⟨z.natAbs, by omega⟩
    obtain ⟨n, hn, hle⟩ := binary64_nat v
    have hcast : binary64 (z : ℚ) = -(n : ℚ) := by
      rw [hv, ← hn, ← binary64_neg]
      push_cast
      rfl
    have hlen : (printNumber (n : ℚ)).length ≤ 31 := length_printNumber_le (by omega)
    rw [hcast]
    rcases Nat.eq_zero_or_pos n with rfl | hpos
    · have hreads := @numReads_printNumber 0 (by norm_num)
      rw [binary64_natCast (by norm_num)] at hreads
      simpa using hreads
    · rw [printNumber_neg hpos]
      exact (natLit_printNumber n).reads_minus (by omega)

/-! ## Records -/

/-- A record within its C types, as a capture makes it. -/
structure MeEvidenceRecord.Fits (r : MeEvidenceRecord) : Prop where
  evidenceId : validComponent r.evidenceId.bytes = true ∧
    r.evidenceId.bytes.length < meAnalyticsEvidenceIdMax
  eventId : r.eventId.bytes ≠ [] ∧ r.eventId.bytes.length < meAnalyticsEventIdMax
  channelId : r.channelId.bytes ≠ [] ∧ r.channelId.bytes.length < meAnalyticsChannelIdMax
  streamEpoch : r.streamEpoch < 2 ^ 64
  frameId : r.frameId < 2 ^ 64
  sourcePts : r.sourcePts.natAbs < 2 ^ 64
  timebase : r.sourceTimebase.num < 2 ^ 32 ∧ r.sourceTimebase.den < 2 ^ 32
  captureTimeUs : r.captureTimeUs.natAbs < 2 ^ 64
  width : r.width < 2 ^ 32
  height : r.height < 2 ^ 32
  bytes : r.bytes < 2 ^ 52
  sha256 : r.sha256.length = 64 ∧ ∀ b ∈ r.sha256, lowerHex b = true
  accuracy : r.accuracy = .exact ∨ r.accuracy = .approximate
  frameDelta : r.frameDelta < 2 ^ 64
  ptsDelta : r.ptsDelta.natAbs < 2 ^ 64
  createdAtUs : r.createdAtUs.natAbs < 2 ^ 64
  expiresAtUs : r.expiresAtUs.natAbs < 2 ^ 64
  storageState : r.storageState = ascii "ready"
  deliveryState : r.deliveryState = ascii "awaiting_consumer"

/-- A valid time stamp has a time base. -/
def MeEvidenceRecord.Stamped (r : MeEvidenceRecord) : Prop :=
  r.sourcePtsValid = true → r.sourceTimebase.num ≠ 0 ∧ r.sourceTimebase.den ≠ 0

/-- The record as it comes back from its metadata. -/
def MeEvidenceRecord.back (r : MeEvidenceRecord) : MeEvidenceRecord :=
  { r with
    streamEpoch := backU64 r.streamEpoch
    frameId := backU64 r.frameId
    sourcePts := backI64 r.sourcePts
    captureTimeUs := backI64 r.captureTimeUs
    frameDelta := backU64 r.frameDelta
    ptsDelta := backI64 r.ptsDelta
    createdAtUs := backI64 r.createdAtUs
    expiresAtUs := backI64 r.expiresAtUs }

/-- What `load_records` takes from the text of a metadata file. -/
def readBack (text : Bytes) : Option MeEvidenceRecord :=
  (parseWithLength text).bind recordFromJson

def recordNames : List Bytes :=
  [ascii "v", ascii "evidence_id", ascii "event_id", ascii "channel_id", ascii "stream_epoch",
    ascii "frame_id", ascii "source_pts_valid", ascii "source_pts", ascii "source_timebase_num",
    ascii "source_timebase_den", ascii "capture_time_us", ascii "width", ascii "height",
    ascii "bytes", ascii "sha256", ascii "accuracy", ascii "frame_delta", ascii "pts_delta",
    ascii "created_at_us", ascii "expires_at_us", ascii "storage_state", ascii "delivery_state",
    ascii "object_key"]

theorem recordNames_ok : recordNames.Nodup ∧ ∀ k ∈ recordNames, 0 ∉ k := by decide +kernel

theorem getObjectItem_record (r : MeEvidenceRecord) (i : ℕ) {k : Bytes} {j : Json}
    (h : (recordMembers r)[i]? = some (k, j)) : getObjectItem (recordToJson r) k = some j := by
  have hnames : (recordMembers r).map (·.1) = recordNames := rfl
  refine getObjectItem_of_getElem? (fun m hm => recordNames_ok.2 m.1 ?_) ?_ h
  · rw [← hnames]
    exact List.mem_map_of_mem hm
  · rw [hnames]
    exact recordNames_ok.1

theorem parse_record {r : MeEvidenceRecord} (h : r.Fits) :
    parseWithLength (printUnformatted (recordToJson r)) = some (recordToJson r) := by
  have member : ∀ {k : Bytes} {j : Json} {ms : List (Bytes × Json)},
      Reads cjson printString 999 j j →
      List.Forall₂ (fun m n => StrReads cjson printString m.1 n.1 ∧
        Reads cjson printString 999 m.2 n.2) ms ms →
      List.Forall₂ (fun m n => StrReads cjson printString m.1 n.1 ∧
        Reads cjson printString 999 m.2 n.2) ((k, j) :: ms) ((k, j) :: ms) :=
    fun hj hms => .cons ⟨strReads_cjson _, hj⟩ hms
  have hbool : ∀ b, Reads cjson printString 999 (.bool b) (.bool b) := fun b => by
    simp only [Reads]
  have hreads : Reads cjson printString nestingLimit (recordToJson r) (recordToJson r) := by
    rw [show nestingLimit = 999 + 1 from rfl]
    simp only [Reads, recordToJson, recordMembers]
    exact member (reads_natItem (by decide) _) <| member (reads_str _ _) <|
      member (reads_str _ _) <| member (reads_str _ _) <| member (reads_natItem h.streamEpoch _) <|
      member (reads_natItem h.frameId _) <| member (hbool _) <|
      member (reads_intItem_wide h.sourcePts _) <|
      member (reads_natItem (lt_trans h.timebase.1 (by norm_num)) _) <|
      member (reads_natItem (lt_trans h.timebase.2 (by norm_num)) _) <|
      member (reads_intItem_wide h.captureTimeUs _) <|
      member (reads_natItem (lt_trans h.width (by norm_num)) _) <|
      member (reads_natItem (lt_trans h.height (by norm_num)) _) <|
      member (reads_natItem (lt_trans h.bytes (by norm_num)) _) <| member (reads_str _ _) <|
      member (reads_str _ _) <| member (reads_natItem h.frameDelta _) <|
      member (reads_intItem_wide h.ptsDelta _) <| member (reads_intItem_wide h.createdAtUs _) <|
      member (reads_intItem_wide h.expiresAtUs _) <| member (reads_str _ _) <|
      member (reads_str _ _) <| member (reads_str _ _) .nil
  have hparse := Dialect.parse_print hreads [] (.inl rfl)
  rw [List.append_nil] at hparse
  obtain ⟨u, hu⟩ : ∃ u, printUnformatted (recordToJson r) = 0x7B :: u := ⟨_, by
    simp only [printUnformatted, recordToJson, Json.print]; rfl⟩
  have hbom : skipBom (printUnformatted (recordToJson r)) = printUnformatted (recordToJson r) := by
    rw [hu, skipBom, if_neg]
    rintro ⟨-, hb⟩
    simp at hb
  have hws : cjson.skipWs (printUnformatted (recordToJson r)) =
      printUnformatted (recordToJson r) := by
    rw [hu, skipWs_cons (by decide)]
  rw [parseWithLength, hbom, hws, printUnformatted, hparse, Option.map_some]

theorem hexDigitByte_of_lowerHex {b : UInt8} (h : lowerHex b = true) : hexDigitByte b = true := by
  rw [hexDigitByte, h, Bool.true_or]

theorem lowerHex_nonul {s : Bytes} (h : ∀ b ∈ s, lowerHex b = true) : 0 ∉ s := fun h0 =>
  absurd (h 0 h0) (by decide)

theorem jsonText_record {object : Json} {key s : Bytes}
    (h : getObjectItem object key = some (.str s)) (hs : 0 ∉ s) (hne : s ≠ []) {outsz : ℕ}
    (hlen : s.length < outsz) : jsonString object key outsz = some ⟨s, hs⟩ :=
  jsonString_read (s := ⟨s, hs⟩) h hne hlen

/-- The record the metadata of `r` gives, if its time stamp has a time base. -/
theorem recordFromJson_record {r : MeEvidenceRecord} (h : r.Fits) :
    recordFromJson (recordToJson r) =
      if r.sourcePtsValid = true ∧ (r.sourceTimebase.num = 0 ∨ r.sourceTimebase.den = 0) then none
      else some r.back := by
  have get := fun i {k j} => @getObjectItem_record r i k j
  have small : ∀ {v : ℕ}, v < 2 ^ 32 → backU64 v = v := fun hv => backU64_small (by omega)
  have hidne : r.evidenceId.bytes ≠ [] := by
    have := h.evidenceId.1
    simp only [validComponent, Bool.and_eq_true, bne_iff_ne] at this
    exact this.1.1.1
  have hshane : r.sha256 ≠ [] := fun hs => by
    have := h.sha256.1
    rw [hs] at this
    cases this
  have hkey : 0 ∉ jpegName r.evidenceId.bytes := fun h0 =>
    (List.mem_append.mp h0).elim r.evidenceId.nonul (by decide)
  have hkeyne : jpegName r.evidenceId.bytes ≠ [] := fun he =>
    hidne (List.append_eq_nil_iff.mp he).1
  have hkeylen : (jpegName r.evidenceId.bytes).length < meEvidencePathMax := by
    have h1 := h.evidenceId.2
    have h2 : (ascii ".jpg").length = 4 := by decide
    rw [jpegName, List.length_append, h2]
    simp only [meAnalyticsEvidenceIdMax, meEvidencePathMax] at h1 ⊢
    omega
  have hversion : truncate 0 uint32Max (valueDouble (printNumber
      (binary64 ((meEvidenceMetadataVersion : ℕ) : ℚ)))) = meEvidenceMetadataVersion := by
    rw [valueDouble_small (by decide), truncate_natCast le_rfl (by decide)]
  have hsha : validSha256 r.sha256 = true := by
    rw [validSha256, h.sha256.1, Bool.and_eq_true]
    exact ⟨rfl, List.all_eq_true.mpr fun b hb => hexDigitByte_of_lowerHex (h.sha256.2 b hb)⟩
  have hready : 0 ∉ ascii "ready" ∧ ascii "ready" ≠ [] ∧
      (ascii "ready").length < meEvidenceStateMax := by decide
  have hawait : 0 ∉ ascii "awaiting_consumer" ∧ ascii "awaiting_consumer" ≠ [] ∧
      (ascii "awaiting_consumer").length < meEvidenceStateMax := by decide
  have hstate : getObjectItem (recordToJson r) (ascii "storage_state") =
      some (.str (ascii "ready")) := h.storageState ▸ get 20 rfl
  have hdelivery : getObjectItem (recordToJson r) (ascii "delivery_state") =
      some (.str (ascii "awaiting_consumer")) := h.deliveryState ▸ get 21 rfl
  have hbool : Codec.jsonBool (recordToJson r) (ascii "source_pts_valid") =
      some r.sourcePtsValid := by
    rw [Codec.jsonBool, get 6 rfl]
  have haccuracy : Codec.jsonText (recordToJson r) (ascii "accuracy") =
      some (meEvidenceAccuracyName r.accuracy) := by
    refine Codec.jsonText_str (get 15 rfl) ?_
    rcases h.accuracy with ha | ha <;> rw [ha] <;> decide
  have hwide : backU64 r.width ≤ uint32Max ∧ backU64 r.height ≤ uint32Max ∧
      backU64 r.sourceTimebase.num ≤ uint32Max ∧ backU64 r.sourceTimebase.den ≤ uint32Max := by
    rw [small h.width, small h.height, small h.timebase.1, small h.timebase.2]
    have h1 := h.width
    have h2 := h.height
    have h3 := h.timebase
    simp only [uint32Max]
    omega
  unfold recordFromJson
  simp only [jsonNumber_natItem (get 0 rfl), Option.bind_eq_bind, Option.bind_some, guard,
    hversion, if_true, Option.pure_def,
    jsonString_read (get 1 rfl) hidne h.evidenceId.2, h.evidenceId.1,
    jsonString_read (get 2 rfl) h.eventId.1 h.eventId.2,
    jsonString_read (get 3 rfl) h.channelId.1 h.channelId.2,
    backU64_natItem (get 4 rfl), backU64_natItem (get 5 rfl), hbool,
    backI64_intItem (get 7 rfl), backU64_natItem (get 8 rfl), backU64_natItem (get 9 rfl),
    backI64_intItem (get 10 rfl), backU64_natItem (get 11 rfl), backU64_natItem (get 12 rfl),
    backU64_natItem (get 13 rfl),
    jsonText_record (get 14 rfl) (lowerHex_nonul h.sha256.2) hshane
      (show r.sha256.length < meEvidenceSha256Max by rw [h.sha256.1]; decide), hsha,
    backU64_natItem (get 16 rfl), backI64_intItem (get 17 rfl), backI64_intItem (get 18 rfl),
    backI64_intItem (get 19 rfl), jsonText_record hstate hready.1 hready.2.1 hready.2.2,
    jsonText_record hdelivery hawait.1 hawait.2.1 hawait.2.2,
    jsonText_record (get 22 rfl) hkey hkeyne hkeylen, hwide, and_self, haccuracy]
  have hback : r.back = { r.back with
      storageState := ascii "ready", deliveryState := ascii "awaiting_consumer" } := by
    rw [← h.storageState, ← h.deliveryState]
    rfl
  rw [small h.width, small h.height, small h.timebase.1, small h.timebase.2,
    backU64_small h.bytes]
  by_cases hbad : r.sourcePtsValid = true ∧
      (r.sourceTimebase.num = 0 ∨ r.sourceTimebase.den = 0)
  · rw [if_neg (not_not.mpr hbad), if_pos hbad]
    rfl
  · rw [if_pos hbad, if_neg hbad, Option.bind_some, hback]
    rcases h.accuracy with ha | ha
    · rw [ha, if_pos (show meEvidenceAccuracyName .exact = ascii "exact" from rfl), ← ha]
      rfl
    · have hne : meEvidenceAccuracyName .approximate ≠ ascii "exact" := by decide
      rw [ha, if_neg hne,
        if_pos (show meEvidenceAccuracyName .approximate = ascii "approximate" from rfl), ← ha]
      rfl

/-- **Metadata reads back**: the record, its integers by way of doubles. -/
theorem readBack_record {r : MeEvidenceRecord} (h : r.Fits) (hs : r.Stamped) :
    readBack (printUnformatted (recordToJson r)) = some r.back := by
  have hgood : ¬ (r.sourcePtsValid = true ∧
      (r.sourceTimebase.num = 0 ∨ r.sourceTimebase.den = 0)) := fun ⟨hv, h0⟩ =>
    h0.elim (hs hv).1 (hs hv).2
  rw [readBack, parse_record h, Option.bind_some, recordFromJson_record h, if_neg hgood]

/-- A valid time stamp without a time base is written and not read back. -/
theorem readBack_unstamped {r : MeEvidenceRecord} (h : r.Fits) (hs : ¬ r.Stamped) :
    readBack (printUnformatted (recordToJson r)) = none := by
  have hbad : r.sourcePtsValid = true ∧
      (r.sourceTimebase.num = 0 ∨ r.sourceTimebase.den = 0) := by
    simp only [MeEvidenceRecord.Stamped, Classical.not_imp] at hs
    exact ⟨hs.1, by tauto⟩
  rw [readBack, parse_record h, Option.bind_some, recordFromJson_record h, if_pos hbad]

end FlowAlarm.Evidence
