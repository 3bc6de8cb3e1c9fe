import FlowAlarm.Codec.EventCodec
import FlowAlarm.Text.Lines

/-!
# Events whose text reads back

`RoundTrips` is the semantic condition on an event: it encodes, and the
decoder returns it from its own encoding. Whatever else the event carries
(negative times, an unusual contract version), its integers then lie within
2^53, so its text is one line that parses back to the encoded tree
(`Printable`). The events the engine emits are printable as well, whether or
not they round-trip.
-/

namespace FlowAlarm.Codec

open FlowAlarm.Text FlowAlarm.Num FlowAlarm.CJson FlowAlarm.Engine

/-- The event encodes and decodes to itself. -/
def RoundTrips (event : MeAnalyticsEvent) : Prop :=
  ∃ j, meAnalyticsEventToJson event = some j ∧ meAnalyticsEventFromJson j = .ok event

/-- No number of the tree contains a newline. -/
def OneLine (j : Json) : Prop := ∀ l ∈ j.lits, newline ∉ l

/-- The encoded event prints to a line that parses back to the encoded tree. -/
structure Printable (event : MeAnalyticsEvent) : Prop where
  tracks : event.responsibleTrackIds.length ≤ meAnalyticsEventMaxTracks
  reads : ∀ d, Reads cjson printString (d + 2) (.obj (eventMembers event)) (.obj (eventMembers event))
  oneLine : OneLine (.obj (eventMembers event))

/-! ## Trees on one line -/

theorem oneLine_natItem (v : ℕ) : OneLine (natItem v) := by
  obtain ⟨d, hd, -⟩ := binary64_nat v
  intro l hl
  simp only [natItem, numberItem, Json.lits, List.mem_singleton] at hl
  rw [hl, hd]
  exact (natLit_printNumber d).not_mem (by decide)

theorem oneLine_str (s : Bytes) : OneLine (.str s) := by
  simp [OneLine, Json.lits]

theorem oneLine_obj {ms : List (Bytes × Json)} (h : ∀ m ∈ ms, OneLine m.2) : OneLine (.obj ms) := by
  intro l hl
  rw [Json.lits] at hl
  induction ms with
  | nil => simp [Json.litsMembers] at hl
  | cons m ms ih =>
    rw [Json.litsMembers, List.mem_append] at hl
    rcases hl with hl | hl
    · exact h m List.mem_cons_self l hl
    · exact ih (fun x hx => h x (List.mem_cons_of_mem _ hx)) hl

theorem oneLine_arr {xs : List Json} (h : ∀ x ∈ xs, OneLine x) : OneLine (.arr xs) := by
  intro l hl
  rw [Json.lits] at hl
  induction xs with
  | nil => simp [Json.litsElems] at hl
  | cons x xs ih =>
    rw [Json.litsElems, List.mem_append] at hl
    rcases hl with hl | hl
    · exact h x List.mem_cons_self l hl
    · exact ih (fun y hy => h y (List.mem_cons_of_mem _ hy)) hl

/-! ## Integers in range -/

/-- The integer prints to a literal that cJSON reads whole, on one line. -/
def IntReads (z : ℤ) : Prop :=
  (∀ d, Reads cjson printString d (intItem z) (intItem z)) ∧ OneLine (intItem z)

theorem intReads_nat {v : ℕ} (h : v < 2 ^ 64) : IntReads (v : ℤ) := by
  rw [IntReads, intItem_natCast]
  exact ⟨reads_natItem h, oneLine_natItem v⟩

theorem intReads_safe {z : ℤ} (h : z.natAbs < 2 ^ 53) : IntReads z := by
  obtain ⟨hreads, hline⟩ := numReads_printNumber_int h
  refine ⟨fun d => ?_, fun l hl => ?_⟩
  · simp only [intItem, numberItem, Reads, true_and]
    exact hreads
  · simp only [intItem, numberItem, Json.lits, List.mem_singleton] at hl
    rw [hl]
    exact hline _ (by decide)

/-- Every number of the event prints to a literal that is read whole. -/
structure Fits (event : MeAnalyticsEvent) : Prop where
  contract : event.contractVersion < 2 ^ 64
  epoch : event.streamEpoch < 2 ^ 64
  seq : event.eventSeq < 2 ^ 64
  time : IntReads event.eventTimeUs
  pts : IntReads event.sourcePts
  timebase : event.sourceTimebase.num < 2 ^ 64 ∧ event.sourceTimebase.den < 2 ^ 64
  frame : event.frameId < 2 ^ 64
  person : event.personCount < 2 ^ 64
  deltaIn : event.deltaIn < 2 ^ 64
  deltaOut : event.deltaOut < 2 ^ 64
  tracks : event.responsibleTrackIds.length ≤ meAnalyticsEventMaxTracks
  trackIds : ∀ id ∈ event.responsibleTrackIds, id < 2 ^ 64
  config : event.configVersion < 2 ^ 64

/-- **An encoded event prints to a text that parses back to the same tree.** -/
theorem Fits.reads {event : MeAnalyticsEvent} (h : Fits event) (d : ℕ) :
    Reads cjson printString (d + 2) (.obj (eventMembers event)) (.obj (eventMembers event)) := by
  have member : ∀ {k : Bytes} {j : Json} {ms : List (Bytes × Json)},
      Reads cjson printString (d + 1) j j →
      List.Forall₂ (fun m n => StrReads cjson printString m.1 n.1 ∧
        Reads cjson printString (d + 1) m.2 n.2) ms ms →
      List.Forall₂ (fun m n => StrReads cjson printString m.1 n.1 ∧
        Reads cjson printString (d + 1) m.2 n.2) ((k, j) :: ms) ((k, j) :: ms) :=
    fun hj hms => .cons ⟨strReads_cjson _, hj⟩ hms
  have hbool : ∀ b, Reads cjson printString (d + 1) (.bool b) (.bool b) := fun b => by
    simp only [Reads]
  have htimebase : Reads cjson printString (d + 1)
      (.obj [(ascii "num", natItem event.sourceTimebase.num),
        (ascii "den", natItem event.sourceTimebase.den)])
      (.obj [(ascii "num", natItem event.sourceTimebase.num),
        (ascii "den", natItem event.sourceTimebase.den)]) := by
    simp only [Reads]
    exact .cons ⟨strReads_cjson _, reads_natItem h.timebase.1 d⟩
      (.cons ⟨strReads_cjson _, reads_natItem h.timebase.2 d⟩ .nil)
  have htracks : Reads cjson printString (d + 1) (.arr (event.responsibleTrackIds.map natItem))
      (.arr (event.responsibleTrackIds.map natItem)) := by
    simp only [Reads]
    rw [List.forall₂_map_left_iff, List.forall₂_map_right_iff, List.forall₂_same]
    exact fun id hid => reads_natItem (h.trackIds id hid) d
  have hcount : event.responsibleTrackIds.length < 2 ^ 64 := lt_of_le_of_lt h.tracks (by decide)
  simp only [Reads, eventMembers]
  exact member (reads_natItem h.contract _) <| member (reads_str _ _) <| member (reads_str _ _) <|
    member (reads_natItem h.epoch _) <| member (reads_str _ _) <| member (reads_str _ _) <|
    member (reads_str _ _) <| member (reads_natItem h.seq _) <| member (reads_str _ _) <|
    member (h.time.1 _) <| member (reads_str _ _) <| member (hbool _) <|
    member (h.pts.1 _) <| member htimebase <| member (reads_natItem h.frame _) <|
    member (reads_natItem h.person _) <| member (reads_natItem h.deltaIn _) <|
    member (reads_natItem h.deltaOut _) <| member (reads_natItem h.config _) <|
    member (reads_str _ _) <| member (reads_natItem hcount _) <| member htracks .nil

theorem Fits.oneLine {event : MeAnalyticsEvent} (h : Fits event) :
    OneLine (.obj (eventMembers event)) := by
  have htimebase : OneLine (.obj [(ascii "num", natItem event.sourceTimebase.num),
      (ascii "den", natItem event.sourceTimebase.den)]) := by
    refine oneLine_obj ?_
    simp only [List.forall_mem_cons, oneLine_natItem, true_and]
    simp
  have htracks : OneLine (.arr (event.responsibleTrackIds.map natItem)) := by
    refine oneLine_arr fun x hx => ?_
    obtain ⟨id, -, rfl⟩ := List.mem_map.mp hx
    exact oneLine_natItem id
  have hbool : OneLine (.bool event.sourcePtsValid) := by simp [OneLine, Json.lits]
  refine oneLine_obj ?_
  simp only [eventMembers, List.forall_mem_cons, oneLine_natItem, oneLine_str, stringItem, hbool,
    htimebase, htracks, h.time.2, h.pts.2, true_and]
  simp

theorem Fits.printable {event : MeAnalyticsEvent} (h : Fits event) : Printable event :=
  ⟨h.tracks, h.reads, h.oneLine⟩

theorem Emittable.printable {event : MeAnalyticsEvent} (h : Emittable event) : Printable event := by
  have hint : ∀ {z : ℤ}, 0 ≤ z ∧ z < 2 ^ 63 → IntReads z := by
    rintro z ⟨h0, hlt⟩
    obtain ⟨v, rfl⟩ := Int.eq_ofNat_of_zero_le h0
    exact intReads_nat (by omega)
  have hfits : Fits event :=
    { contract := by rw [h.contract]; decide
      epoch := h.epoch.2
      seq := h.seq.2
      time := hint h.time
      pts := hint h.pts
      timebase := ⟨lt_trans h.timebase.1 (by norm_num), lt_trans h.timebase.2 (by norm_num)⟩
      frame := h.frame.2
      person := lt_trans h.person (by norm_num)
      deltaIn := lt_trans h.deltaIn (by norm_num)
      deltaOut := lt_trans h.deltaOut (by norm_num)
      tracks := h.tracks
      trackIds := h.trackIds
      config := h.config }
  exact hfits.printable

/-! ## What a round trip implies -/

section Members

variable {object : Json} {key : Bytes}

theorem jsonU64_lt {v : ℕ} (h : getObjectItem object key = some (natItem v))
    (hv : jsonU64 object key = some v) : v < 2 ^ 64 := by
  rw [jsonU64_natItem h] at hv
  exact lt_trans (readNat_eq_self.mp hv).1 (by norm_num)

theorem jsonU32_lt {v : ℕ} (h : getObjectItem object key = some (natItem v))
    (hv : jsonU32 object key = some v) : v < 2 ^ 64 := by
  obtain ⟨w, hw, hif⟩ := Option.bind_eq_some_iff.mp hv
  split at hif
  · cases hif
  · cases hif
    exact jsonU64_lt h hw

theorem jsonI64_safe {z : ℤ} (h : getObjectItem object key = some (intItem z))
    (hz : jsonI64 object key = some z) : IntReads z := by
  simp only [jsonI64, h, intItem, numberItem] at hz
  split at hz
  · cases hz
  · next hc =>
    simp only [not_or, not_not, not_lt, meJsonSafeInteger] at hc
    obtain ⟨hfl, hlo, hhi⟩ := hc
    rw [Option.some.injEq] at hz
    rw [hz] at hfl
    rw [hfl] at hlo hhi
    have h1 : (-9007199254740991 : ℤ) ≤ z := by exact_mod_cast hlo
    have h2 : z ≤ 9007199254740991 := by exact_mod_cast hhi
    exact intReads_safe (by omega)

end Members

theorem mapM_readNat_lt {ids : List ℕ} (h : (ids.map natItem).mapM trackId = some ids) :
    ∀ id ∈ ids, id < 2 ^ 64 := by
  rw [List.mapM_map] at h
  intro id hid
  have hread : readNat id = some id := mapM_eq_self.mp h id hid
  exact lt_trans (readNat_eq_self.mp hread).1 (by norm_num)

/-- An event that decodes to itself has all its integers within 2^53. -/
theorem RoundTrips.printable {event : MeAnalyticsEvent} (h : RoundTrips event) :
    Printable event := by
  obtain ⟨j, hj, hdec⟩ := h
  unfold meAnalyticsEventToJson at hj
  split at hj
  · cases hj
  next htracks =>
  cases hj
  have hitem := @getObjectItem_event event
  simp only [meAnalyticsEventFromJson, isObject, Bool.not_true, Bool.false_eq_true, if_false,
    orErr_bind_eq_ok] at hdec
  obtain ⟨contract, hcontract, eventId, -, channelId, -, epoch, hepoch, ruleId, -, -, -, eventType,
    -, phase, -, reason, -, clock, -, seq, hseq, time, htime, valid, -, pts, hpts, timebase,
    htimebase, num, hnum, den, hden, frame, hframe, person, hperson, deltaIn, hin, deltaOut, hout,
    config, hconfig, evidence, -, count, hcount, items, hitems, ids, hids, hok⟩ := hdec
  split at hok
  · cases hok
  cases hok
  have hbase : timebase = .obj [(ascii "num", natItem num), (ascii "den", natItem den)] := by
    simp only [timebaseItem, hitem 13 rfl, Option.some.injEq] at htimebase
    exact htimebase.symm
  have hlist : items = ids.map natItem := by
    simp only [trackItems, hitem 21 rfl] at hitems
    split at hitems
    · cases hitems
    · exact (Option.some.inj hitems).symm
  subst hbase hlist
  refine Fits.printable
    { contract := jsonU32_lt (hitem 0 rfl) hcontract
      epoch := jsonU64_lt (hitem 3 rfl) hepoch
      seq := jsonU64_lt (hitem 7 rfl) hseq
      time := jsonI64_safe (hitem 9 rfl) htime
      pts := jsonI64_safe (hitem 12 rfl) hpts
      timebase := ⟨jsonU32_lt rfl hnum, jsonU32_lt rfl hden⟩
      frame := jsonU64_lt (hitem 14 rfl) hframe
      person := jsonU32_lt (hitem 15 rfl) hperson
      deltaIn := jsonU32_lt (hitem 16 rfl) hin
      deltaOut := jsonU32_lt (hitem 17 rfl) hout
      tracks := not_lt.mp htracks
      trackIds := mapM_readNat_lt hids
      config := jsonU64_lt (hitem 18 rfl) hconfig }

/-- The emitted events that round-trip are those whose 64-bit integers all read back. -/
theorem Emittable.roundTrips {event : MeAnalyticsEvent} (h : Emittable event) :
    RoundTrips event ↔ ∀ v ∈ wideFields event, ExactNat v := by
  have hjson : meAnalyticsEventToJson event = some (.obj (eventMembers event)) := by
    rw [meAnalyticsEventToJson, if_neg (not_lt.mpr h.tracks)]
  rw [← meAnalyticsEventFromJson_toJson h, RoundTrips]
  simp only [hjson, Option.some.injEq, exists_eq_left']

end FlowAlarm.Codec
