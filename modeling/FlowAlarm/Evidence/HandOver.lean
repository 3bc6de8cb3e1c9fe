import FlowAlarm.Daemon.Wire
import FlowAlarm.Evidence.LoadEvidence

/-!
# Evidence hand-over

What `me_evidence_cache_capture` publishes for a START event and what
`loadEvidence` makes of it. The reader refuses integers with an exponent and
time stamps that are not positive, the writer prints both.

* `loadEvidence_published`: exactly when the daemon accepts a published record.
* `unset_time_refused`: an event without a wall clock time is published and refused.
-/

namespace FlowAlarm.Evidence

open FlowAlarm.Text FlowAlarm.Num FlowAlarm.CJson FlowAlarm.GoJson FlowAlarm.Engine FlowAlarm.Codec
  FlowAlarm.Wire

/-! ## The metadata that arrives -/

theorem lowerHex_low {b : UInt8} (h : lowerHex b = true) : b < 0x80 := by
  simp only [lowerHex, Bool.or_eq_true, Bool.and_eq_true, decide_eq_true_eq, isDigit_iff] at h
  rw [UInt8.lt_iff_toNat_lt]
  rcases h with h | ⟨-, h⟩
  · have : (0x80 : UInt8).toNat = 128 := rfl
    omega
  · have h : b.toNat ≤ 0x66 := h
    have : (0x80 : UInt8).toNat = 128 := rfl
    omega

theorem validUtf8_hex (sha : Sha256) (s : Bytes) : validUtf8 (sha.hex s) = true :=
  validUtf8_ascii fun b hb => lowerHex_low (sha.lowerHex_hex s b hb)

theorem componentByte_low : ∀ n < 256, componentByte (UInt8.ofNat n) = true →
    UInt8.ofNat n < 0x80 := by
  decide +kernel

theorem validComponent_bytes {id : Bytes} (h : validComponent id = true) :
    ∀ b ∈ id, b < 0x80 := by
  intro b hb
  simp only [validComponent, Bool.and_eq_true] at h
  have := componentByte_low b.toNat b.toNat_lt
  rw [UInt8.ofNat_toNat] at this
  exact this (List.all_eq_true.mp h.2 b hb)

theorem validUtf8_jpegName {id : Bytes} (h : validComponent id = true) :
    validUtf8 (jpegName id) = true := by
  refine validUtf8_ascii fun b hb => ?_
  rcases List.mem_append.mp hb with hb | hb
  · exact validComponent_bytes h b hb
  · have hsuffix : (ascii ".jpg").all (fun b => decide (b < 0x80)) = true := by decide
    exact of_decide_eq_true (List.all_eq_true.mp hsuffix b hb)

/-- A record with its texts as Go reads them. -/
def cleanRecord (r : MeEvidenceRecord) : MeEvidenceRecord :=
  { r with eventId := cleanText r.eventId, channelId := cleanText r.channelId }

/-- The texts of a record that are not taken from the event. -/
structure OwnTexts (r : MeEvidenceRecord) : Prop where
  evidenceId : validComponent r.evidenceId.bytes = true
  sha256 : validUtf8 r.sha256 = true
  storageState : validUtf8 r.storageState = true
  deliveryState : validUtf8 r.deliveryState = true

theorem accuracyName_valid (a : MeEvidenceAccuracy) : validUtf8 (meEvidenceAccuracyName a) = true := by
  cases a <;> rfl

theorem readValue_record {r : MeEvidenceRecord} (h : OwnTexts r) :
    readValue (printUnformatted (recordToJson r)) = some (recordToJson (cleanRecord r)) := by
  have hid : validUtf8 r.evidenceId.bytes = true :=
    validUtf8_ascii (validComponent_bytes h.evidenceId)
  have hbool : Reads go printString 9999 (.bool r.sourcePtsValid) (.bool r.sourcePtsValid) := by
    simp only [Reads]
  have hall : Reads go printString maxNestingDepth (recordToJson r)
      (recordToJson (cleanRecord r)) :=
    MembersRead.obj <|
      .cons rfl (reads_natItem _ _) <| .cons rfl (reads_name hid _) <|
      .cons rfl (reads_str _ _) <| .cons rfl (reads_str _ _) <|
      .cons rfl (reads_natItem _ _) <| .cons rfl (reads_natItem _ _) <|
      .cons rfl hbool <| .cons rfl (reads_intItem _ _) <|
      .cons rfl (reads_natItem _ _) <| .cons rfl (reads_natItem _ _) <|
      .cons rfl (reads_intItem _ _) <| .cons rfl (reads_natItem _ _) <|
      .cons rfl (reads_natItem _ _) <| .cons rfl (reads_natItem _ _) <|
      .cons rfl (reads_name h.sha256 _) <| .cons rfl (reads_name (accuracyName_valid _) _) <|
      .cons rfl (reads_natItem _ _) <| .cons rfl (reads_intItem _ _) <|
      .cons rfl (reads_intItem _ _) <| .cons rfl (reads_intItem _ _) <|
      .cons rfl (reads_name h.storageState _) <| .cons rfl (reads_name h.deliveryState _) <|
      .cons rfl (reads_name (validUtf8_jpegName h.evidenceId) _) (.nil _)
  have := @readValue_print _ _ _ hall [] rfl
  rwa [List.append_nil] at this

/-- The fields of a record that cJSON always prints as they are. -/
structure Narrow (r : MeEvidenceRecord) : Prop where
  timebase : r.sourceTimebase.num < 2 ^ 32 ∧ r.sourceTimebase.den < 2 ^ 32
  width : r.width < 2 ^ 32
  height : r.height < 2 ^ 32
  bytes : r.bytes < 10 ^ 15

theorem metadataFields_nodup : (metadataFields.map (·.name)).Nodup := by decide +kernel

/-- The metadata decoded from its tree, given what its 64-bit integers are read as. -/
theorem decode_record {r : MeEvidenceRecord} (h : Narrow r) {epoch frame fdelta : ℕ}
    {pts time pdelta created expires : ℤ}
    (hep : readUint 64 (natItem r.streamEpoch) = some epoch)
    (hfr : readUint 64 (natItem r.frameId) = some frame)
    (hpt : readInt 64 (intItem r.sourcePts) = some pts)
    (hti : readInt 64 (intItem r.captureTimeUs) = some time)
    (hfd : readUint 64 (natItem r.frameDelta) = some fdelta)
    (hpd : readInt 64 (intItem r.ptsDelta) = some pdelta)
    (hcr : readInt 64 (intItem r.createdAtUs) = some created)
    (hex : readInt 64 (intItem r.expiresAtUs) = some expires) :
    decodeStruct metadataFields .zero (recordToJson (cleanRecord r)) =
      some { version := 2, evidenceID := r.evidenceId.bytes, eventID := sanitize r.eventId.bytes
             channelID := sanitize r.channelId.bytes, streamEpoch := epoch, frameID := frame
             sourcePTS := pts, bytes := r.bytes, sha256 := r.sha256
             sourcePTSValid := r.sourcePtsValid, sourceTimebaseNum := r.sourceTimebase.num
             sourceTimebaseDen := r.sourceTimebase.den, captureTimeUS := time, width := r.width
             height := r.height, accuracy := meEvidenceAccuracyName r.accuracy
             frameDelta := fdelta, ptsDelta := pdelta, createdAtUS := created
             expiresAtUS := expires, objectKey := jpegName r.evidenceId.bytes
             storageState := r.storageState, deliveryState := r.deliveryState } := by
  have narrow : ∀ {v : ℕ}, v < 2 ^ 32 → readUint 32 (natItem v) = some v := fun hv =>
    (readUint_natItem hv).mpr (plainNat_of_lt (by omega))
  have hbytes : readUint 64 (natItem r.bytes) = some r.bytes :=
    (readUint_natItem (lt_trans h.bytes (by norm_num))).mpr (plainNat_of_lt h.bytes)
  have store := @store_present _ metadataFields metadataFields_nodup
  exact show Stores metadataFields ((recordMembers (cleanRecord r)).map some) .zero _ from
    .cons (store (i := 0) rfl (set_num (narrow (by decide)) _)) <|
    .cons (store (i := 1) rfl (set_string _ _)) <|
    .cons (store (i := 2) rfl (set_string _ _)) <|
    .cons (store (i := 3) rfl (set_string _ _)) <|
    .cons (store (i := 4) rfl (set_num hep _)) <|
    .cons (store (i := 5) rfl (set_num hfr _)) <|
    .cons (store (i := 9) rfl rfl) <|
    .cons (store (i := 6) rfl (set_num hpt _)) <|
    .cons (store (i := 10) rfl (set_num (narrow h.timebase.1) _)) <|
    .cons (store (i := 11) rfl (set_num (narrow h.timebase.2) _)) <|
    .cons (store (i := 12) rfl (set_num hti _)) <|
    .cons (store (i := 13) rfl (set_num (narrow h.width) _)) <|
    .cons (store (i := 14) rfl (set_num (narrow h.height) _)) <|
    .cons (store (i := 7) rfl (set_num hbytes _)) <|
    .cons (store (i := 8) rfl (set_string _ _)) <|
    .cons (store (i := 15) rfl (set_string _ _)) <|
    .cons (store (i := 16) rfl (set_num hfd _)) <|
    .cons (store (i := 17) rfl (set_num hpd _)) <|
    .cons (store (i := 18) rfl (set_num hcr _)) <|
    .cons (store (i := 19) rfl (set_num hex _)) <|
    .cons (store (i := 21) rfl (set_string _ _)) <|
    .cons (store (i := 22) rfl (set_string _ _)) <|
    .cons (store (i := 20) rfl (set_string _ _)) <|
    stores_nil _ _

/-- What decoded metadata tells about its 64-bit integers. -/
theorem read_of_decode_record {r : MeEvidenceRecord} {info : EvidenceMetadata}
    (hd : decodeStruct metadataFields .zero (recordToJson (cleanRecord r)) = some info) :
    (∃ v, readUint 64 (natItem r.streamEpoch) = some v) ∧
    (∃ v, readUint 64 (natItem r.frameId) = some v) ∧
    (∃ v, readInt 64 (intItem r.sourcePts) = some v) ∧
    (∃ v, readInt 64 (intItem r.captureTimeUs) = some v) ∧
    (∃ v, readUint 64 (natItem r.frameDelta) = some v) ∧
    (∃ v, readInt 64 (intItem r.ptsDelta) = some v) ∧
    (∃ v, readInt 64 (intItem r.createdAtUs) = some v) ∧
    (∃ v, readInt 64 (intItem r.expiresAtUs) = some v) := by
  have member : ∀ (i j : ℕ) {f : Slot EvidenceMetadata} {v : Json},
      metadataFields[i]? = some f → (recordMembers (cleanRecord r))[j]? = some (f.name, v) →
      ∃ s s', f.set v s = some s' := by
    intro i j f v hf hm
    obtain ⟨s, s', hs⟩ := stored_of_fold hd (List.mem_of_getElem? hm)
    exact ⟨s, s', by rw [← storeMember_field metadataFields_nodup hf, hs]⟩
  have scalar : ∀ {α : Type} {read : Json → Option α} {name lit : Bytes}
      {put : α → EvidenceMetadata → EvidenceMetadata},
      (∃ s s', (scalarField read name put).set (.num lit) s = some s') →
      ∃ a, read (.num lit) = some a := fun ⟨_, _, h⟩ => read_of_set h
  exact ⟨scalar (member 4 4 rfl rfl), scalar (member 5 5 rfl rfl), scalar (member 6 7 rfl rfl),
    scalar (member 12 10 rfl rfl), scalar (member 16 16 rfl rfl), scalar (member 17 17 rfl rfl),
    scalar (member 18 18 rfl rfl), scalar (member 19 19 rfl rfl)⟩

theorem hasFields_record (r : MeEvidenceRecord) :
    hasEvidenceMetadataFields (recordToJson r) = some true := rfl

/-! ## Frames of a reachable cache -/

/-- A note within its C types; one with a channel has a frame number. -/
structure FrameNote.Fits (n : FrameNote) : Prop where
  frame : n.channelId.bytes ≠ [] → 0 < n.frameId
  timebase : n.sourceTimebase.num < 2 ^ 32 ∧ n.sourceTimebase.den < 2 ^ 32
  width : n.width < 2 ^ 32
  height : n.height < 2 ^ 32

structure MeEvidenceCache.Fits (cache : MeEvidenceCache) : Prop where
  notes : ∀ n ∈ cache.notes, n.Fits
  frames : ∀ f ∈ cache.frames, f.note.Fits
  total : cache.frameCacheBytes = (cache.frames.map (·.jpeg.length)).sum
  limit : cache.frameCacheBytes ≤ meEvidenceFrameCacheMaxBytes
  bound : cache.frameCacheMaxBytes ≤ meEvidenceFrameCacheMaxBytes

theorem MeEvidenceCache.Fits.jpeg {cache : MeEvidenceCache} (h : cache.Fits) {f : JpegFrame}
    (hf : f ∈ cache.frames) : f.jpeg.length ≤ meEvidenceFrameCacheMaxBytes := by
  have hle : f.jpeg.length ≤ (cache.frames.map (·.jpeg.length)).sum :=
    List.single_le_sum (fun _ _ => Nat.zero_le _) _ (List.mem_map_of_mem hf)
  exact hle.trans (h.total ▸ h.limit)

/-- The arguments of a call fit their C types. -/
def Input.Fits : Input → Prop
  | .noteFrame note => note.sourceTimebase.num < 2 ^ 32 ∧ note.sourceTimebase.den < 2 ^ 32 ∧
      note.width < 2 ^ 32 ∧ note.height < 2 ^ 32
  | _ => True

theorem opened_fits (directory : Bytes) (maxBytes retentionS : ℕ)
    (records : List MeEvidenceRecord) (files : List (Bytes × Bytes)) :
    (opened directory maxBytes retentionS records files).Fits where
  notes _ h := nomatch h
  frames _ h := nomatch h
  total := rfl
  limit := Nat.zero_le _
  bound := min_le_right _ _

theorem mem_drop_append {n note : FrameNote} {notes : List FrameNote} {k : ℕ}
    (h : n ∈ (notes ++ [note]).drop k) : n ∈ notes ∨ n = note := by
  simpa using List.mem_of_mem_drop h

theorem noteFrame_fits {cache : MeEvidenceCache} (h : cache.Fits) {note : FrameNote}
    (hn : (Input.noteFrame note).Fits) : (meEvidenceCacheNoteFrame cache note).2.Fits := by
  unfold meEvidenceCacheNoteFrame
  split
  · exact h
  · next hpos =>
    obtain ⟨hnum, hden, hw, hh⟩ := hn
    have hnote : FrameNote.Fits
        { note with channelId := note.channelId.snprintf meAnalyticsChannelIdMax } :=
      ⟨fun _ => Nat.pos_of_ne_zero fun h0 => hpos (.inr (.inr h0)), ⟨hnum, hden⟩, hw, hh⟩
    have hsame : (fun frame : JpegFrame => (if frame.note.channelId.bytes = [] ∧
        samePts { note with channelId := note.channelId.snprintf meAnalyticsChannelIdMax }
          frame.note.sourcePtsValid frame.note.sourcePts = true then
        { frame with note :=
          { note with channelId := note.channelId.snprintf meAnalyticsChannelIdMax } }
      else frame).jpeg.length) = fun frame => frame.jpeg.length := by
      funext frame
      split <;> rfl
    refine ⟨fun n hmem => ?_, fun f hf => ?_, ?_, h.limit, h.bound⟩
    · dsimp only at hmem
      rcases mem_drop_append hmem with hmem | rfl
      · exact h.notes n hmem
      · exact hnote
    · obtain ⟨f₀, hf₀, rfl⟩ := List.mem_map.mp hf
      split
      · exact hnote
      · exact h.frames f₀ hf₀
    · rw [List.map_map]
      exact h.total.trans (congrArg (fun g => (cache.frames.map g).sum) hsame.symm)

theorem evictFrames_spec (limit total : ℕ) (frames : List JpegFrame)
    (h : total = (frames.map (·.jpeg.length)).sum) :
    (evictFrames limit total frames).1 =
      ((evictFrames limit total frames).2.map (·.jpeg.length)).sum ∧
    (evictFrames limit total frames).1 ≤ limit ∧
    ∀ f ∈ (evictFrames limit total frames).2, f ∈ frames := by
  induction frames generalizing total with
  | nil =>
    subst h
    exact ⟨rfl, Nat.zero_le _, fun f hf => hf⟩
  | cons frame frames ih =>
    rw [List.map_cons, List.sum_cons] at h
    unfold evictFrames
    split
    · obtain ⟨hsum, hle, hsub⟩ := ih (total - frame.jpeg.length) (by omega)
      exact ⟨hsum, hle, fun f hf => List.mem_cons_of_mem _ (hsub f hf)⟩
    · next hle => exact ⟨h, not_lt.mp hle, fun f hf => hf⟩

theorem pushJpeg_fits {cache : MeEvidenceCache} (h : cache.Fits) (jpeg : Bytes) (valid : Bool)
    (pts : ℤ) : (meEvidenceCachePushJpeg cache jpeg valid pts).2.Fits := by
  unfold meEvidenceCachePushJpeg
  split
  · exact h
  · have hnote : ((latestNoteForPts cache valid pts).getD
        ⟨.empty, 0, 0, valid, pts, ⟨0, 0⟩, 0, 0⟩).Fits := by
      cases hn : latestNoteForPts cache valid pts with
      | none =>
        exact ⟨fun hne => absurd rfl hne, ⟨Nat.two_pow_pos 32, Nat.two_pow_pos 32⟩,
          Nat.two_pow_pos 32, Nat.two_pow_pos 32⟩
      | some n => exact h.notes n (List.mem_reverse.mp (List.mem_of_find?_eq_some hn))
    generalize (latestNoteForPts cache valid pts).getD
      ⟨.empty, 0, 0, valid, pts, ⟨0, 0⟩, 0, 0⟩ = note at hnote
    obtain ⟨hsum, hle, hsub⟩ := evictFrames_spec cache.frameCacheMaxBytes
      (cache.frameCacheBytes + jpeg.length) (cache.frames ++ [⟨jpeg, note⟩])
      (by rw [List.map_append, List.sum_append, ← h.total]; simp)
    refine ⟨h.notes, fun f hf => ?_, hsum, hle.trans h.bound, h.bound⟩
    rcases List.mem_append.mp (hsub f hf) with hf | hf
    · exact h.frames f hf
    · rw [List.mem_singleton.mp hf]
      exact hnote

/-- Everything but records and files is as it was. -/
structure SameWindow (cache cache' : MeEvidenceCache) : Prop where
  notes : cache'.notes = cache.notes
  frames : cache'.frames = cache.frames
  total : cache'.frameCacheBytes = cache.frameCacheBytes
  bound : cache'.frameCacheMaxBytes = cache.frameCacheMaxBytes

theorem SameWindow.fits {cache cache' : MeEvidenceCache} (h : SameWindow cache cache')
    (hf : cache.Fits) : cache'.Fits where
  notes := h.notes ▸ hf.notes
  frames := h.frames ▸ hf.frames
  total := by rw [h.total, h.frames, hf.total]
  limit := h.total ▸ hf.limit
  bound := h.bound ▸ hf.bound

theorem pruneExpiredLocked_window (cache : MeEvidenceCache) (now : ℤ) :
    SameWindow cache (pruneExpiredLocked cache now) := by
  unfold pruneExpiredLocked
  generalize cache.records.filter (expired now) = rs
  induction rs generalizing cache with
  | nil => exact ⟨rfl, rfl, rfl, rfl⟩
  | cons r rs ih =>
    obtain ⟨h1, h2, h3, h4⟩ := ih (removeRecordLocked cache r)
    exact ⟨h1, h2, h3, h4⟩

theorem publish_window (cache : MeEvidenceCache) (event : MeAnalyticsEvent) (r : MeEvidenceRecord)
    (jpeg : Bytes) (writes : Writes) :
    SameWindow cache (publish cache event r jpeg writes).cache := by
  unfold publish
  dsimp only
  split <;> exact ⟨rfl, rfl, rfl, rfl⟩

variable {sha : Sha256}

theorem capture_window (cache : MeEvidenceCache) (event : MeAnalyticsEvent) (now : ℤ)
    (writes : Writes) : SameWindow cache (meEvidenceCacheCapture sha cache event now writes).cache := by
  have same : SameWindow cache cache := ⟨rfl, rfl, rfl, rfl⟩
  unfold meEvidenceCacheCapture
  dsimp only
  split
  · exact same
  split
  · exact same
  split
  · exact same
  split
  · exact same
  split
  · exact same
  unfold captureSelected
  dsimp only
  split
  · exact same
  split
  · exact pruneExpiredLocked_window cache now
  · obtain ⟨h1, h2, h3, h4⟩ := pruneExpiredLocked_window cache now
    obtain ⟨h1', h2', h3', h4'⟩ := publish_window (pruneExpiredLocked cache now)
      { event with evidenceId := evidenceIdOf sha event } _ _ writes
    exact ⟨h1'.trans h1, h2'.trans h2, h3'.trans h3, h4'.trans h4⟩

theorem step_fits {cache : MeEvidenceCache} (h : cache.Fits) {i : Input} (hi : i.Fits) :
    (step sha cache i).Fits := by
  cases i with
  | noteFrame note => exact noteFrame_fits h hi
  | pushJpeg jpeg valid pts => exact pushJpeg_fits h jpeg valid pts
  | capture event now writes => exact (capture_window cache event now writes).fits h
  | prune now => exact (pruneExpiredLocked_window cache now).fits h

theorem run_fits {cache : MeEvidenceCache} (h : cache.Fits) {inputs : List Input}
    (hi : ∀ i ∈ inputs, i.Fits) : (run sha cache inputs).Fits := by
  induction inputs generalizing cache with
  | nil => exact h
  | cons i inputs ih =>
    obtain ⟨hfst, hrest⟩ := List.forall_mem_cons.mp hi
    exact ih (step_fits h hfst) hrest

/-! ## What is published -/

/-- The search returns a frame of the event's stream. -/
theorem searchFrames_spec {event : MeAnalyticsEvent} {P : JpegFrame → Prop} :
    ∀ (frames : List JpegFrame) (nearest : Option JpegFrame) (delta : ℤ)
      {accuracy : MeEvidenceAccuracy} {f : JpegFrame},
      (∀ g ∈ frames, frameMatchesEvent g event = true → P g) → (∀ g, nearest = some g → P g) →
      searchFrames event nearest delta frames = some (accuracy, f) →
      (accuracy = .exact ∨ accuracy = .approximate) ∧ P f := by
  intro frames
  induction frames with
  | nil =>
    intro nearest delta accuracy f _ hn h
    rw [searchFrames] at h
    obtain ⟨g, hg, heq⟩ := Option.map_eq_some_iff.mp h
    cases heq
    exact ⟨.inr rfl, hn _ hg⟩
  | cons frame frames ih =>
    intro nearest delta accuracy f hall hn h
    obtain ⟨hframe, hrest⟩ := List.forall_mem_cons.mp hall
    unfold searchFrames at h
    dsimp only at h
    split at h
    · next hexact =>
      cases h
      simp only [frameIsExact, Bool.and_eq_true] at hexact
      exact ⟨.inl rfl, hframe hexact.1⟩
    · split at h
      · exact ih _ _ hrest hn h
      · next hmatch =>
        rw [Bool.not_eq_true', Bool.not_eq_false] at hmatch
        have hnew : ∀ g, some frame = some g → P g := by
          rintro g ⟨⟩
          exact hframe hmatch
        split at h
        · split at h
          · exact ih _ _ hrest hnew h
          · exact ih _ _ hrest hn h
        · split at h
          · exact ih _ _ hrest hnew h
          · exact ih _ _ hrest hn h

theorem selectFrameLocked_spec {cache : MeEvidenceCache} {event : MeAnalyticsEvent} {sel : Selected}
    (h : selectFrameLocked cache event = some sel) :
    (sel.accuracy = .exact ∨ sel.accuracy = .approximate) ∧ sel.frame ∈ cache.frames ∧
      sel.frame.note.channelId.bytes ≠ [] := by
  have spec : ∀ {accuracy f},
      searchFrames event none (2 ^ 63 - 1) cache.frames.reverse = some (accuracy, f) →
      (accuracy = .exact ∨ accuracy = .approximate) ∧ f ∈ cache.frames ∧
        f.note.channelId.bytes ≠ [] := by
    intro accuracy f hs
    refine searchFrames_spec (P := fun f => f ∈ cache.frames ∧ f.note.channelId.bytes ≠ []) _ _ _
      (fun g hg hm => ⟨List.mem_reverse.mp hg, ?_⟩) (by rintro g ⟨⟩) hs
    simp only [frameMatchesEvent, Bool.and_eq_true, bne_iff_ne, ne_eq] at hm
    exact hm.1.1.1
  unfold selectFrameLocked at h
  split at h
  · cases h
  · next hs =>
    cases h
    exact spec hs
  · next hs =>
    cases h
    exact spec hs

/-- A call that published has written metadata and image of the selected frame. -/
structure Published (sha : Sha256) (cache : MeEvidenceCache) (event : MeAnalyticsEvent) (now : ℤ)
    (c : Capture) (sel : Selected) : Prop where
  event : c.event = { event with evidenceId := evidenceIdOf sha event }
  id : validComponent c.event.evidenceId.bytes = true
  selected : selectFrameLocked cache c.event = some sel
  metadata : Keyed.lookup Prod.fst (jsonName c.event.evidenceId.bytes) c.cache.files =
    some (jsonName c.event.evidenceId.bytes,
      printUnformatted (recordToJson (candidate sha cache c.event sel now)))
  image : Keyed.lookup Prod.fst (jpegName c.event.evidenceId.bytes) c.cache.files =
    some (jpegName c.event.evidenceId.bytes, sel.frame.jpeg)

theorem capture_published {cache : MeEvidenceCache} {event : MeAnalyticsEvent} {now : ℤ}
    {writes : Writes}
    (hnew : Keyed.lookup recordId (evidenceIdOf sha event).bytes cache.records = none)
    (hrc : (meEvidenceCacheCapture sha cache event now writes).rc = 0) :
    ∃ sel, Published sha cache event now (meEvidenceCacheCapture sha cache event now writes) sel := by
  unfold meEvidenceCacheCapture at hrc ⊢
  dsimp only at hrc ⊢
  split at hrc
  · cases hrc
  next hident =>
  rw [if_neg hident]
  split at hrc
  · cases hrc
  next hid =>
  rw [if_neg hid]
  rw [Bool.not_eq_true', Bool.not_eq_false] at hid
  have hfresh : ¬ (Keyed.lookup recordId (evidenceIdOf sha event).bytes cache.records).isSome = true := by
    rw [hnew]
    simp
  rw [if_neg hfresh] at hrc ⊢
  split at hrc
  · cases hrc
  next hphase =>
  rw [if_neg hphase]
  split at hrc
  · cases hrc
  next sel hsel =>
  refine ⟨sel, ?_⟩
  unfold captureSelected at hrc ⊢
  dsimp only at hrc ⊢
  split at hrc
  · cases hrc
  next hcap =>
  rw [if_neg hcap]
  split at hrc
  · cases hrc
  next hfull =>
  rw [if_neg hfull]
  unfold publish at hrc ⊢
  dsimp only at hrc ⊢
  split at hrc
  · cases hrc
  · cases hrc
  · refine ⟨rfl, hid, hsel, ?_, ?_⟩
    · exact Keyed.lookup_insert.trans (if_pos rfl)
    · refine Keyed.lookup_insert.trans ((if_neg (jsonName_ne_jpegName _ _)).trans ?_)
      exact Keyed.lookup_insert.trans (if_pos rfl)

/-! ## What is accepted -/

/-- The condition on the event, the frame selected for it and the clock. -/
structure Acceptable (cache : MeEvidenceCache) (event : MeAnalyticsEvent) (sel : Selected)
    (now : ℤ) : Prop where
  epoch : PlainNat event.streamEpoch
  captureTime : 0 < event.eventTimeUs ∧ PlainInt event.eventTimeUs
  created : 0 < now ∧ PlainInt now
  expires : PlainInt (expiresAt cache.retentionS now)
  dimensions : sel.frame.note.width ≠ 0 ∧ sel.frame.note.height ≠ 0
  timebase : sel.frame.note.sourcePtsValid = true →
    sel.frame.note.sourceTimebase.num ≠ 0 ∧ sel.frame.note.sourceTimebase.den ≠ 0
  frameId : PlainInt sel.frame.note.frameId
  sourcePts : PlainInt sel.frame.note.sourcePts
  frameDelta : PlainInt sel.frameDelta
  ptsDelta : PlainInt sel.ptsDelta

theorem readUint_some {v w : ℕ} (h : readUint 64 (natItem v) = some w) :
    PlainInt v ∧ binary64 (v : ℚ) = w := by
  obtain ⟨d, hd, heq⟩ := readUint_natItem_eq v
  rw [heq] at h
  split at h
  · next hp => exact ⟨hp, by rw [hd, Option.some.inj h]⟩
  · cases h

theorem readInt_some {z w : ℤ} (h : readInt 64 (intItem z) = some w) :
    PlainInt z ∧ binary64 (z : ℚ) = w := by
  obtain ⟨d, hd, heq⟩ := readInt_intItem_eq z
  rw [heq] at h
  split at h
  · next hp => exact ⟨hp, by rw [hd, Option.some.inj h]⟩
  · cases h

theorem plain_readUint {v : ℕ} (h : PlainInt v) : ∃ w, readUint 64 (natItem v) = some w := by
  obtain ⟨d, -, heq⟩ := readUint_natItem_eq v
  exact ⟨d, by rw [heq, if_pos h]⟩

theorem plain_readInt {z : ℤ} (h : PlainInt z) : ∃ w, readInt 64 (intItem z) = some w := by
  obtain ⟨d, -, heq⟩ := readInt_intItem_eq z
  exact ⟨d, by rw [heq, if_pos h]⟩

/-- The double of an integer that is not negative is positive exactly if the integer is. -/
theorem pos_iff_of_binary64 {z w : ℤ} (hz : 0 ≤ z) (h : binary64 (z : ℚ) = w) : 0 < w ↔ 0 < z := by
  constructor
  · intro hw
    rcases hz.eq_or_lt with rfl | hpos
    · rw [Int.cast_zero, ← Nat.cast_zero, binary64_natCast (by norm_num)] at h
      have : (0 : ℤ) = w := by exact_mod_cast h
      omega
    · exact hpos
  · intro hpos
    have hone : (2 : ℚ) ^ 0 ≤ (z : ℚ) := by
      rw [pow_zero]
      exact_mod_cast hpos
    have := pow_le_binary64 hone
    rw [h, pow_zero] at this
    have : 1 ≤ w := by exact_mod_cast this
    omega

theorem expiresAt_nonneg {retentionS : ℕ} {now : ℤ} (h : 0 ≤ now) : 0 ≤ expiresAt retentionS now := by
  unfold expiresAt
  split
  · norm_num
  · positivity

theorem expiresAt_pos {retentionS : ℕ} {now : ℤ} (h : 0 < now) : 0 < expiresAt retentionS now := by
  unfold expiresAt
  split
  · norm_num
  · positivity

theorem checkMetadata_eq_none {info : EvidenceMetadata} {event : Media.AnalyticsEvent} :
    checkMetadata info event = none ↔
      (info.version = 2 ∧ info.evidenceID = event.evidenceID ∧ info.eventID = event.eventID ∧
        info.channelID = event.channelID ∧ info.streamEpoch = event.streamEpoch) ∧
      (info.streamEpoch ≠ 0 ∧ 0 < info.captureTimeUS ∧ info.width ≠ 0 ∧ info.height ≠ 0 ∧
        0 < info.createdAtUS ∧ 0 < info.expiresAtUS) ∧
      (info.sourcePTSValid = true → info.sourceTimebaseNum ≠ 0 ∧ info.sourceTimebaseDen ≠ 0) ∧
      (info.accuracy = ascii "exact" ∨ info.accuracy = ascii "approximate") ∧
      info.objectKey = event.evidenceID ++ ascii ".jpg" ∧ info.storageState = ascii "ready" ∧
      (info.deliveryState = ascii "awaiting_consumer" ∨ info.deliveryState = ascii "staged") := by
  unfold checkMetadata
  split
  · next h => simp only [reduceCtorEq, false_iff]; tauto
  · next h1 =>
    split
    · next h => simp only [reduceCtorEq, false_iff]; grind
    · split
      · next h => simp only [reduceCtorEq, false_iff]; tauto
      · split
        · next h => simp only [reduceCtorEq, false_iff]; tauto
        · split
          · next h => simp only [reduceCtorEq, false_iff]; tauto
          · split
            · next h => simp only [reduceCtorEq, false_iff]; tauto
            · split
              · next h => simp only [reduceCtorEq, false_iff]; tauto
              · simp only [true_iff]
                grind

/-- The reader's verdict on intact files. -/
theorem loadEvidence_ok_iff {directory : Bytes} {files : List (Bytes × Bytes)}
    {event : Media.AnalyticsEvent} {name name' text image : Bytes} {j : Json}
    (hdir : trimSpace directory ≠ []) (hid : validComponent event.evidenceID = true)
    (htext : Keyed.lookup Prod.fst (jsonName event.evidenceID) files = some (name, text))
    (himage : Keyed.lookup Prod.fst (jpegName event.evidenceID) files = some (name', image))
    (hread : readValue text = some j) (hfields : hasEvidenceMetadataFields j = some true) :
    (∃ metadata image, loadEvidence sha directory files event = .ok (metadata, image)) ↔
      ∃ info, decodeStruct metadataFields .zero j = some info ∧ checkMetadata info event = none ∧
        checkImage sha info image = none := by
  have hsafe : ¬ (!validEvidenceComponent event.evidenceID) = true := by
    rw [validEvidenceComponent, hid]
    simp
  simp only [loadEvidence, if_neg hdir, if_neg hsafe, htext, himage, hread, hfields]
  cases decodeStruct metadataFields .zero j with
  | none => simp
  | some info =>
    cases hmeta : checkMetadata info event with
    | some err => simp [hmeta]
    | none => cases himg : checkImage sha info image <;> simp [hmeta, himg]

/-- The caches of a process: an opened one after any calls. -/
def Reachable (sha : Sha256) (cache : MeEvidenceCache) : Prop :=
  ∃ directory maxBytes retentionS records files inputs, (∀ i ∈ inputs, Input.Fits i) ∧
    cache = run sha (opened directory maxBytes retentionS records files) inputs

theorem Reachable.fits {cache : MeEvidenceCache} (h : Reachable sha cache) : cache.Fits := by
  obtain ⟨directory, maxBytes, retentionS, records, files, inputs, hin, rfl⟩ := h
  exact run_fits (opened_fits directory maxBytes retentionS records files) hin

theorem candidate_narrow {cache : MeEvidenceCache} (hfits : cache.Fits) {event : MeAnalyticsEvent}
    {sel : Selected} (hsel : selectFrameLocked cache event = some sel) (now : ℤ) :
    Narrow (candidate sha cache event sel now) := by
  obtain ⟨-, hmem, -⟩ := selectFrameLocked_spec hsel
  have hnote := hfits.frames _ hmem
  have hjpeg := hfits.jpeg hmem
  exact ⟨hnote.timebase, hnote.width, hnote.height, lt_of_le_of_lt hjpeg (by decide)⟩

theorem candidate_frameId {cache : MeEvidenceCache} (hfits : cache.Fits) {event : MeAnalyticsEvent}
    {sel : Selected} (hsel : selectFrameLocked cache event = some sel) (now : ℤ) :
    (candidate sha cache event sel now).frameId = sel.frame.note.frameId := by
  obtain ⟨-, hmem, hchannel⟩ := selectFrameLocked_spec hsel
  exact if_pos ((hfits.frames _ hmem).frame hchannel)

theorem accuracyName_selected {cache : MeEvidenceCache} {event : MeAnalyticsEvent} {sel : Selected}
    (hsel : selectFrameLocked cache event = some sel) :
    meEvidenceAccuracyName sel.accuracy = ascii "exact" ∨
      meEvidenceAccuracyName sel.accuracy = ascii "approximate" := by
  rcases (selectFrameLocked_spec hsel).1 with h | h
  · exact .inl (by rw [h]; rfl)
  · exact .inr (by rw [h]; rfl)

/-- The checks on the metadata of a selected frame. -/
theorem checks_candidate {cache : MeEvidenceCache} (hfits : cache.Fits) {event : MeAnalyticsEvent}
    (hevent : Emittable event) {id : CStr} (hid : validComponent id.bytes = true) {sel : Selected}
    (hsel : selectFrameLocked cache { event with evidenceId := id } = some sel) {now : ℤ}
    (hnow : 0 ≤ now) :
    (∃ info, decodeStruct metadataFields .zero
        (recordToJson (cleanRecord (candidate sha cache { event with evidenceId := id } sel now))) =
          some info ∧
      checkMetadata info (goEvent (cleanEvent { event with evidenceId := id })) = none ∧
      checkImage sha info sel.frame.jpeg = none) ↔ Acceptable cache event sel now := by
  have hnarrow : Narrow (candidate sha cache { event with evidenceId := id } sel now) :=
    candidate_narrow hfits hsel now
  have hframe : (candidate sha cache { event with evidenceId := id } sel now).frameId =
      sel.frame.note.frameId := candidate_frameId hfits hsel now
  have hclean : sanitize id.bytes = id.bytes :=
    sanitize_eq_self.mpr (validUtf8_ascii (validComponent_bytes hid))
  constructor
  · rintro ⟨info, hd, hmeta, -⟩
    obtain ⟨⟨epoch, hep⟩, ⟨frame, hfr⟩, ⟨pts, hpt⟩, ⟨time, hti⟩, ⟨fdelta, hfd⟩, ⟨pdelta, hpd⟩,
      ⟨created, hcr⟩, expires, hex⟩ := read_of_decode_record hd
    rw [decode_record hnarrow hep hfr hpt hti hfd hpd hcr hex] at hd
    obtain rfl := Option.some.inj hd
    obtain ⟨⟨-, -, -, -, hepoch⟩, ⟨-, htime, hw, hh, hcreated, -⟩, hbase, -⟩ :=
      checkMetadata_eq_none.mp hmeta
    have hepoch : epoch = event.streamEpoch := hepoch
    rw [hepoch] at hep
    rw [hframe] at hfr
    refine ⟨(readUint_natItem hevent.epoch.2).mp hep, ⟨?_, (readInt_some hti).1⟩,
      ⟨?_, (readInt_some hcr).1⟩, (readInt_some hex).1, ⟨hw, hh⟩, hbase, (readUint_some hfr).1,
      (readInt_some hpt).1, (readUint_some hfd).1, (readInt_some hpd).1⟩
    · exact (pos_iff_of_binary64 hevent.time.1 (readInt_some hti).2).mp htime
    · exact (pos_iff_of_binary64 hnow (readInt_some hcr).2).mp hcreated
  · intro h
    have hep := (readUint_natItem hevent.epoch.2).mpr h.epoch
    obtain ⟨frame, hfr⟩ := plain_readUint h.frameId
    rw [← hframe] at hfr
    obtain ⟨pts, hpt⟩ := plain_readInt h.sourcePts
    obtain ⟨time, hti⟩ := plain_readInt h.captureTime.2
    obtain ⟨fdelta, hfd⟩ := plain_readUint h.frameDelta
    obtain ⟨pdelta, hpd⟩ := plain_readInt h.ptsDelta
    obtain ⟨created, hcr⟩ := plain_readInt h.created.2
    obtain ⟨expires, hex⟩ := plain_readInt h.expires
    refine ⟨_, decode_record hnarrow hep hfr hpt hti hfd hpd hcr hex, ?_, ?_⟩
    · refine checkMetadata_eq_none.mpr ⟨⟨rfl, hclean.symm, rfl, rfl, rfl⟩,
        ⟨hevent.epoch.1.ne', ?_, h.dimensions.1, h.dimensions.2, ?_, ?_⟩, h.timebase,
        accuracyName_selected hsel, ?_, rfl, .inl rfl⟩
      · exact (pos_iff_of_binary64 hevent.time.1 (readInt_some hti).2).mpr h.captureTime.1
      · exact (pos_iff_of_binary64 hnow (readInt_some hcr).2).mpr h.created.1
      · exact (pos_iff_of_binary64 (expiresAt_nonneg hnow) (readInt_some hex).2).mpr
          (expiresAt_pos h.created.1)
      · exact congrArg (· ++ ascii ".jpg") hclean.symm
    · have hbytes : (candidate sha cache { event with evidenceId := id } sel now).bytes =
          sel.frame.jpeg.length := rfl
      have hsha : (candidate sha cache { event with evidenceId := id } sel now).sha256 =
          sha.hex sel.frame.jpeg := rfl
      rw [checkImage, if_neg (not_not.mpr hbytes)]
      simp only [hsha, strcasecmpEq_self, Bool.not_true, Bool.false_eq_true, if_false]

/-- **When a published record is accepted.** For every event the engine can emit and every
reachable cache: a record `me_evidence_cache_capture` has just published is accepted by
`loadEvidence`, with its two files intact, if and only if it is `Acceptable`. -/
theorem loadEvidence_published {sha : Sha256} {cache : MeEvidenceCache} (hreach : Reachable sha cache)
    {event : MeAnalyticsEvent} (hevent : Emittable event) {now : ℤ} (hnow : 0 ≤ now)
    {writes : Writes}
    (hnew : Keyed.lookup recordId (evidenceIdOf sha event).bytes cache.records = none)
    (hrc : (meEvidenceCacheCapture sha cache event now writes).rc = 0)
    {evidenceDir : Bytes} (hdir : trimSpace evidenceDir ≠ []) {files : List (Bytes × Bytes)}
    (hintact : ∀ name ∈ [jsonName (evidenceIdOf sha event).bytes,
        jpegName (evidenceIdOf sha event).bytes],
      Keyed.lookup Prod.fst name files =
        Keyed.lookup Prod.fst name (meEvidenceCacheCapture sha cache event now writes).cache.files) :
    (∃ metadata image, loadEvidence sha evidenceDir files (goEvent (cleanEvent
      (meEvidenceCacheCapture sha cache event now writes).event)) = .ok (metadata, image)) ↔
    ∃ sel, selectFrameLocked cache { event with evidenceId := evidenceIdOf sha event } = some sel ∧
      Acceptable cache event sel now := by
  obtain ⟨sel, hev, hid, hsel, hmeta, himage⟩ := capture_published hnew hrc
  rw [hev] at hid hsel hmeta himage ⊢
  have hclean : sanitize (evidenceIdOf sha event).bytes = (evidenceIdOf sha event).bytes :=
    sanitize_eq_self.mpr (validUtf8_ascii (validComponent_bytes hid))
  have hown : OwnTexts (candidate sha cache { event with evidenceId := evidenceIdOf sha event }
      sel now) := ⟨hid, validUtf8_hex sha _, rfl, rfl⟩
  obtain ⟨hjson, hjpeg, -⟩ := List.forall_mem_cons.mp hintact |>.imp_right List.forall_mem_cons.mp
  have hgo : (goEvent (cleanEvent { event with evidenceId := evidenceIdOf sha event })).evidenceID =
      (evidenceIdOf sha event).bytes := hclean
  rw [loadEvidence_ok_iff hdir (by rw [hgo]; exact hid) (by rw [hgo, hjson]; exact hmeta)
    (by rw [hgo, hjpeg]; exact himage) (readValue_record hown) (hasFields_record _),
    checks_candidate hreach.fits hevent hid hsel hnow]
  constructor
  · exact fun h => ⟨sel, hsel, h⟩
  · rintro ⟨sel', hsel', h⟩
    rw [hsel] at hsel'
    obtain rfl := Option.some.inj hsel'
    exact h

/-! ## Two captures -/

def demoJpeg : Bytes := [0xFF, 0xD8, 0xFF, 0xD9]

/-- SHA-256 of the smallest JPEG, and of the event id of `startAt`. -/
def demoSha : Sha256 where
  hex s :=
    if s = demoJpeg then ascii "32461d5bd1773012acef0ba15636752949bd7c2ce50f9172159d9f56cf0dd9af"
    else ascii "060d3006b86f66e195175864fbda53f5acd06b5d93a4c0a4344d668c4b12fc7d"
  length_hex s := by split <;> rfl
  lowerHex_hex s := by split <;> exact List.all_eq_true.mp (by decide)

theorem camera_nonul : 0 ∉ ascii "camera-0" := by decide

def demoNote : FrameNote :=
  ⟨.ofBytes (ascii "camera-0") camera_nonul, 1, 1, true, 40000000, ⟨1, 1000000000⟩, 1920, 1080⟩

/-- A cache that has seen one frame and its JPEG. -/
def demoCache : MeEvidenceCache :=
  run demoSha (opened (ascii "/data/snapshots") 1048576 3600 [] [])
    [.noteFrame demoNote, .pushJpeg demoJpeg true 40000000]

theorem demoCache_reachable : Reachable demoSha demoCache :=
  ⟨_, _, _, _, _, _, by simp [Input.Fits, demoNote], rfl⟩

def demoCapture (event : MeAnalyticsEvent) (now : ℤ) : Capture :=
  meEvidenceCacheCapture demoSha demoCache event now ⟨none, none⟩

theorem loadEvidence_published_demo :
    (demoCapture (startedAt 1700000000000001) 1700000000123457).rc = 0 ∧
    ∃ metadata image, loadEvidence demoSha (ascii "/data/snapshots")
      (demoCapture (startedAt 1700000000000001) 1700000000123457).cache.files
      (goEvent (cleanEvent (demoCapture (startedAt 1700000000000001) 1700000000123457).event)) =
        .ok (metadata, image) := by
  refine ⟨by decide +kernel, ?_⟩
  unfold demoCapture
  refine (loadEvidence_published demoCache_reachable (startedAt_emittable (by decide)) (by decide)
    (by decide +kernel) (by decide +kernel) (by decide +kernel) (fun _ _ => rfl)).mpr ⟨_, rfl, ?_⟩
  exact ⟨by decide +kernel, by decide +kernel, by decide +kernel, by decide +kernel,
    by decide +kernel, by decide +kernel, by decide +kernel, by decide +kernel, by decide +kernel,
    by decide +kernel⟩

/-- **An event without a wall clock time is published and refused**: its capture time is zero. So
is one whose record is made on a multiple of ten microseconds, which is printed with an exponent. -/
theorem unset_time_refused :
    Emittable (Journal.startAt 40000000) ∧ (Journal.startAt 40000000).clockState = .unavailable ∧
    (demoCapture (Journal.startAt 40000000) 1700000000123457).rc = 0 ∧
    loadEvidence demoSha (ascii "/data/snapshots")
      (demoCapture (Journal.startAt 40000000) 1700000000123457).cache.files
      (goEvent (cleanEvent (demoCapture (Journal.startAt 40000000) 1700000000123457).event)) =
        .error .dimensionsOrTimestamps ∧
    (demoCapture (startedAt 1700000000000001) 1700000000123450).rc = 0 ∧
    loadEvidence demoSha (ascii "/data/snapshots")
      (demoCapture (startedAt 1700000000000001) 1700000000123450).cache.files
      (goEvent (cleanEvent (demoCapture (startedAt 1700000000000001) 1700000000123450).event)) =
        .error .parseMetadata :=
  ⟨Journal.startAt_emittable _ (by decide), rfl, by decide +kernel, by decide +kernel,
    by decide +kernel, by decide +kernel⟩

end FlowAlarm.Evidence
