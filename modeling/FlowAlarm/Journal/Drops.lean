import FlowAlarm.Journal.Representation

/-!
# The count of dropped updates

`dropped_updates` counts the UPDATEs that `append` refuses. An UPDATE that was
accepted and is evicted by a later append is not counted, nor is one that
cannot be encoded. `dropped_counts_iff` says for every file a journal may be
opened over, and every run of appends on it, when the counter is the number of
UPDATEs offered and not retained.
-/

namespace FlowAlarm.Journal

open FlowAlarm.Text FlowAlarm.CJson FlowAlarm.Engine FlowAlarm.Codec

/-! ## Journals over any file -/

/-- What holds of a journal opened over any file: its records can be encoded, and cursors increase.
The byte counts of records that were read may differ from those of the lines they are rewritten
as. -/
structure Sound (j : MeEventJournal) : Prop where
  codable : ∀ r ∈ j.records, r.event.responsibleTrackIds.length ≤ meAnalyticsEventMaxTracks
  sorted : Sorted j.records
  bound : ∀ r ∈ j.records, r.cursor ≤ j.nextCursor
  bytes : j.bytes = totalBytes j.records

theorem length_of_mapM {α β : Type} {f : α → Option β} {xs : List α} {ys : List β}
    (h : xs.mapM f = some ys) : ys.length = xs.length := by
  induction xs generalizing ys with
  | nil => simp_all
  | cons x xs ih =>
    rw [List.mapM_cons] at h
    obtain ⟨y, -, h⟩ := Option.bind_eq_some_iff.mp h
    obtain ⟨zs, hzs, h⟩ := Option.bind_eq_some_iff.mp h
    cases h
    rw [List.length_cons, List.length_cons, ih hzs]

theorem fromJson_tracks {object : Json} {event : MeAnalyticsEvent}
    (h : meAnalyticsEventFromJson object = .ok event) :
    event.responsibleTrackIds.length ≤ meAnalyticsEventMaxTracks := by
  unfold meAnalyticsEventFromJson at h
  split at h
  · cases h
  iterate 24 obtain ⟨_, -, h⟩ := orErr_bind_eq_ok.mp h
  obtain ⟨items, hitems, h⟩ := orErr_bind_eq_ok.mp h
  obtain ⟨ids, hids, h⟩ := orErr_bind_eq_ok.mp h
  dsimp only at h
  split at h
  · cases h
  cases h
  unfold trackItems at hitems
  split at hitems
  · split at hitems
    · cases hitems
    · cases hitems
      rw [length_of_mapM hids]
      omega
  · cases hitems

/-- An event can be encoded if its tracks fit. -/
theorem toJson_isSome {event : MeAnalyticsEvent} : (meAnalyticsEventToJson event).isSome ↔
    event.responsibleTrackIds.length ≤ meAnalyticsEventMaxTracks := by
  unfold meAnalyticsEventToJson
  split
  · next hlong => exact iff_of_false (by simp) (not_le.mpr hlong)
  · next hfit => exact iff_of_true rfl (not_lt.mp hfit)

theorem recordFromLine_tracks {line : Bytes} {r : JournalRecord} (h : recordFromLine line = .ok r) :
    r.event.responsibleTrackIds.length ≤ meAnalyticsEventMaxTracks := by
  unfold recordFromLine at h
  split at h
  · split at h
    · split at h
      · cases h
      · split at h
        · cases h
        · split at h
          · cases h
          · next hevent =>
            cases h
            exact fromJson_tracks hevent
    · cases h
  · cases h

theorem readLines_sound (last : ℕ) (lines : List Bytes) :
    (∀ r ∈ (readLines last lines).1,
      last < r.cursor ∧ r.event.responsibleTrackIds.length ≤ meAnalyticsEventMaxTracks) ∧
      Sorted (readLines last lines).1 := by
  induction lines generalizing last with
  | nil => exact ⟨by simp [readLines], .nil⟩
  | cons l ls ih =>
    unfold readLines
    split
    · exact ⟨by simp, .nil⟩
    next r hr =>
    split
    · exact ⟨by simp, .nil⟩
    next hlt =>
    obtain ⟨hall, hsorted⟩ := ih r.cursor
    rcases hread : readLines r.cursor ls with ⟨rs, corrupt⟩
    rw [hread] at hall hsorted
    refine ⟨fun x hx => ?_, List.pairwise_cons.mpr ⟨fun x hx => (hall x hx).1, hsorted⟩⟩
    rcases List.mem_cons.mp hx with rfl | hx
    · exact ⟨by omega, recordFromLine_tracks hr⟩
    · exact ⟨by have := (hall x hx).1; omega, (hall x hx).2⟩

/-- Records that can be encoded are rewritten, under the same cursors. -/
theorem writeRecords_total {rs : List JournalRecord}
    (h : ∀ r ∈ rs, r.event.responsibleTrackIds.length ≤ meAnalyticsEventMaxTracks) :
    ∃ rs' text, writeRecords rs = some (rs', text) ∧ entries rs' = entries rs ∧
      text.length = totalBytes rs' := by
  induction rs with
  | nil => exact ⟨[], [], rfl, rfl, rfl⟩
  | cons r rs ih =>
    obtain ⟨hr, hrs⟩ := List.forall_mem_cons.mp h
    obtain ⟨rs', text, hw, hentries, hlen⟩ := ih hrs
    have hline : ∃ line, recordToLine r.cursor r.event = some line := by
      simp [recordToLine, recordText, meAnalyticsEventToJson, not_lt.mpr hr]
    obtain ⟨line, hline⟩ := hline
    refine ⟨{ r with bytes := line.length } :: rs', line ++ text, ?_, ?_, ?_⟩
    · simp only [writeRecords, hline, hw]
    · simp only [entries, List.map_cons] at hentries ⊢
      rw [hentries]
    · simp only [List.length_append, totalBytes, List.map_cons, List.sum_cons] at hlen ⊢
      rw [hlen]

theorem entries_cursor {rs rs' : List JournalRecord} (h : entries rs' = entries rs) :
    rs'.map (·.cursor) = rs.map (·.cursor) := by
  have := congrArg (List.map Prod.fst) h
  simpa [entries, List.map_map, Function.comp_def] using this

/-- Records with the entries of others are as sorted and as far as they. -/
theorem sound_of_entries {j : MeEventJournal} {rs : List JournalRecord}
    (hcod : ∀ r ∈ rs, r.event.responsibleTrackIds.length ≤ meAnalyticsEventMaxTracks)
    (hs : Sorted rs) (hb : ∀ r ∈ rs, r.cursor ≤ j.nextCursor) (h : entries j.records = entries rs)
    (hbytes : j.bytes = totalBytes j.records) : Sound j where
  codable r hr := by
    have hmem : (r.cursor, r.event) ∈ entries rs := h ▸ List.mem_map_of_mem hr
    obtain ⟨s, hs, he⟩ := List.mem_map.mp hmem
    have hevent : s.event = r.event := congrArg Prod.snd he
    rw [← hevent]
    exact hcod s hs
  sorted := Sorted.of_map (entries_cursor h) hs
  bound r hr := by
    have hmem : (r.cursor, r.event) ∈ entries rs := h ▸ List.mem_map_of_mem hr
    obtain ⟨s, hs, he⟩ := List.mem_map.mp hmem
    have hcursor : s.cursor = r.cursor := congrArg Prod.fst he
    rw [← hcursor]
    exact hb s hs
  bytes := hbytes

/-- **Opening**, over any file. -/
theorem sound_open {disk disk' : Bytes} {maxRecords maxBytes : ℕ} {j : MeEventJournal}
    (h : meEventJournalOpen disk maxRecords maxBytes = (some j, disk')) :
    Sound j ∧ j.droppedUpdates = 0 := by
  unfold meEventJournalOpen recover at h
  split at h
  · cases h
  obtain ⟨hall, hsorted⟩ := readLines_sound 0 (splitLines disk).1
  dsimp only at h
  generalize (readLines 0 (splitLines disk).1).1 = rs at h hall hsorted
  have hcod := fun r hr => (hall r hr).2
  have hbound := le_lastCursor hsorted
  split at h
  · split at h
    · cases h
    next keep hev =>
    have hsub := (evicted_evictWhile hev).sublist
    obtain ⟨rs', text, hw, hentries, hlen⟩ :=
      writeRecords_total fun r hr => hcod r (hsub.subset hr)
    rw [hw] at h
    cases h
    exact ⟨sound_of_entries (fun r hr => hcod r (hsub.subset hr)) (hsorted.sublist hsub)
      (fun r hr => hbound r (hsub.subset hr)) hentries hlen, rfl⟩
  · cases h
    exact ⟨⟨hcod, hsorted, hbound, rfl⟩, rfl⟩

/-! ## Room -/

/-- The records leave no room for a line of `incoming` bytes. -/
def crowded (j : MeEventJournal) (incoming : ℕ) (rs : List JournalRecord) : Bool :=
  j.maxRecords < rs.length + 1 || j.maxBytes < totalBytes rs ||
    j.maxBytes - totalBytes rs < incoming

theorem totalBytes_sublist {rs ss : List JournalRecord} (h : rs.Sublist ss) :
    totalBytes rs ≤ totalBytes ss := (h.map _).sum_le_sum fun _ _ => Nat.zero_le _

theorem crowded_mono {j : MeEventJournal} {incoming : ℕ} {rs ss : List JournalRecord}
    (h : rs.Sublist ss) (hc : crowded j incoming rs = true) : crowded j incoming ss = true := by
  have hlen := h.length_le
  have hbytes := totalBytes_sublist h
  simp only [crowded, Bool.or_eq_true, decide_eq_true_eq] at hc ⊢
  omega

theorem removeOldestUpdate_none {rs : List JournalRecord} (h : removeOldestUpdate rs = none) :
    boundaries rs = rs := by
  induction rs with
  | nil => rfl
  | cons r rs ih =>
    rw [removeOldestUpdate] at h
    split at h
    · cases h
    next hr =>
    rw [boundaries, List.filter_cons_of_pos (by simpa using hr), ← boundaries,
      ih (Option.map_eq_none_iff.mp h)]

theorem removeOldestUpdate_length {rs rs' : List JournalRecord}
    (h : removeOldestUpdate rs = some rs') : rs.length = rs'.length + 1 := by
  induction rs generalizing rs' with
  | nil => cases h
  | cons r rs ih =>
    rw [removeOldestUpdate] at h
    split at h
    · cases h
      rfl
    · obtain ⟨ts, hts, rfl⟩ := Option.map_eq_some_iff.mp h
      rw [List.length_cons, ih hts, List.length_cons]

/-- Eviction makes room if the boundaries alone leave room. -/
theorem evictWhile_isSome {full : List JournalRecord → Bool} {fuel : ℕ} {rs : List JournalRecord}
    (hfuel : rs.length ≤ fuel) (h : full (boundaries rs) = false) :
    ∃ keep, evictWhile full fuel rs = some keep := by
  induction fuel generalizing rs with
  | zero =>
    obtain rfl := List.length_eq_zero_iff.mp (Nat.le_zero.mp hfuel)
    have hnil : full [] = false := h
    exact ⟨[], by rw [evictWhile, hnil]; rfl⟩
  | succ fuel ih =>
    rw [evictWhile]
    cases hf : full rs with
    | false => exact ⟨rs, rfl⟩
    | true =>
      cases hr : removeOldestUpdate rs with
      | none => rw [removeOldestUpdate_none hr, hf] at h; cases h
      | some rs' =>
        have hlen := removeOldestUpdate_length hr
        rw [← (evicted_removeOldestUpdate hr).boundaries] at h
        exact ih (by omega) h

/-- What `compact_to_fit_locked` comes to: boundaries that leave no room refuse the record,
otherwise the oldest UPDATEs go until there is room. -/
theorem makeRoom_cases {j : MeEventJournal} (h : Sound j) (disk line : Bytes)
    (phase : MeEventPhase) :
    (crowded j line.length (boundaries j.records) = true ∧
      makeRoom j disk line phase = .error (if phase = .update then .dropped
        else .failed (if j.maxBytes < line.length then
          ascii "event journal lifecycle record exceeds byte limit"
          else ascii "event journal full: lifecycle boundary protected"))) ∨
    (crowded j line.length (boundaries j.records) = false ∧
      ∃ keep rs disk', evictWhile (crowded j line.length) j.records.length j.records = some keep ∧
        entries rs = entries keep ∧
        makeRoom j disk line phase =
          .ok ({ j with records := rs, bytes := totalBytes rs }, disk')) := by
  have hmono : boundaries j.records |>.Sublist j.records := List.filter_sublist
  by_cases hfit : j.records.length + 1 ≤ j.maxRecords ∧ j.bytes ≤ j.maxBytes ∧
      line.length ≤ j.maxBytes - j.bytes
  · have hroom : crowded j line.length j.records = false := by
      have hb := h.bytes
      simp only [crowded, Bool.or_eq_false_iff, decide_eq_false_iff_not]
      omega
    refine .inr ⟨?_, j.records, j.records, disk, ?_, rfl, ?_⟩
    · exact Bool.eq_false_iff.mpr fun hc => by rw [crowded_mono hmono hc] at hroom; cases hroom
    · unfold evictWhile
      rw [hroom]
      rfl
    · rw [← h.bytes, makeRoom, compactToFit, if_pos hfit]
  by_cases hlong : j.maxBytes < line.length
  · refine .inl ⟨?_, ?_⟩
    · simp only [crowded, Bool.or_eq_true, decide_eq_true_eq]
      omega
    · rw [makeRoom, compactToFit, if_neg hfit, if_pos hlong, if_pos hlong]
      by_cases hu : phase = .update
      · rw [if_pos hu, if_pos hu]
      · rw [if_neg hu, if_neg hu]
  cases hb : crowded j line.length (boundaries j.records) with
  | true =>
    refine .inl ⟨rfl, ?_⟩
    have hnone : evictWhile (crowded j line.length) j.records.length j.records = none := by
      refine Option.eq_none_iff_forall_ne_some.mpr fun keep hev => ?_
      have hkeep := (evicted_evictWhile hev).boundaries
      have hsub : (boundaries keep).Sublist keep := List.filter_sublist
      have := crowded_mono hsub (hkeep ▸ hb)
      rw [(evictWhile_spec hev).2] at this
      cases this
    have hcompact : compactToFit j line.length phase = if phase = .update then .dropped
        else .failed (ascii "event journal full: lifecycle boundary protected") := by
      unfold crowded at hnone
      simp only [compactToFit, if_neg hfit, if_neg hlong, hnone]
    rw [makeRoom, hcompact, if_neg hlong]
    by_cases hu : phase = .update
    · rw [if_pos hu, if_pos hu]
    · rw [if_neg hu, if_neg hu]
  | false =>
    obtain ⟨keep, hev⟩ := evictWhile_isSome le_rfl hb
    have hsub := (evicted_evictWhile hev).sublist
    obtain ⟨rs, text, hw, hentries, hlen⟩ :=
      writeRecords_total fun r hr => h.codable r (hsub.subset hr)
    have hcompact : compactToFit j line.length phase = .rewrite keep := by
      have hev' := hev
      unfold crowded at hev'
      simp only [compactToFit, if_neg hfit, if_neg hlong, hev']
    exact .inr ⟨rfl, keep, rs, text, hev, hentries, by simp only [makeRoom, hcompact, hw, hlen]⟩

/-! ## What is evicted -/

/-- The UPDATEs appended since the opening that left `opened` as the last cursor. -/
def own (opened : ℕ) (rs : List JournalRecord) : List JournalRecord :=
  rs.filter fun r => r.event.phase = .update && opened < r.cursor

/-- The records without the UPDATEs that were there at the opening. -/
def spare (opened : ℕ) (rs : List JournalRecord) : List JournalRecord :=
  rs.filter fun r => r.event.phase ≠ .update || opened < r.cursor

theorem length_spare (opened : ℕ) (rs : List JournalRecord) :
    (spare opened rs).length = (boundaries rs).length + (own opened rs).length := by
  induction rs with
  | nil => rfl
  | cons r rs ih =>
    simp only [spare, boundaries, own, ne_eq, decide_not] at ih
    by_cases hu : r.event.phase = .update <;> by_cases hc : opened < r.cursor <;>
      simp [spare, boundaries, own, hu, hc, ih] <;> omega

/-- The UPDATEs that were there at the opening are older, so one of them goes first. -/
theorem removeOldestUpdate_old {opened : ℕ} {rs rs' : List JournalRecord} (hs : Sorted rs)
    (hold : ∃ r ∈ rs, r.event.phase = .update ∧ r.cursor ≤ opened)
    (h : removeOldestUpdate rs = some rs') :
    spare opened rs' = spare opened rs ∧ own opened rs' = own opened rs := by
  induction rs generalizing rs' with
  | nil => cases h
  | cons r rs ih =>
    obtain ⟨hhead, hs⟩ := List.pairwise_cons.mp hs
    obtain ⟨x, hx, hu, hc⟩ := hold
    rw [removeOldestUpdate] at h
    split at h
    · next hr =>
      cases h
      have hle : r.cursor ≤ opened := by
        rcases List.mem_cons.mp hx with rfl | hx
        · exact hc
        · exact (hhead x hx).le.trans hc
      simp [spare, own, hr, not_lt.mpr hle]
    · next hr =>
      obtain ⟨ts, hts, rfl⟩ := Option.map_eq_some_iff.mp h
      have hrest : x ∈ rs := by
        rcases List.mem_cons.mp hx with rfl | hx
        · exact absurd hu hr
        · exact hx
      obtain ⟨hspare, hown⟩ := ih hs ⟨x, hrest, hu, hc⟩ hts
      simp only [spare, own, ne_eq, decide_not] at hspare hown
      simp [spare, own, hr, hspare, hown]

theorem exists_old_of_spare {opened : ℕ} {rs : List JournalRecord} (h : spare opened rs ≠ rs) :
    ∃ r ∈ rs, r.event.phase = .update ∧ r.cursor ≤ opened := by
  by_contra hnone
  refine h (List.filter_eq_self.mpr fun r hr => ?_)
  by_cases hu : r.event.phase = .update
  · have hc : opened < r.cursor := not_le.mp fun hle => hnone ⟨r, hr, hu, hle⟩
    simp [hc]
  · simp [hu]

/-- If the old UPDATEs are enough, no other goes. -/
theorem own_kept {full : List JournalRecord → Bool} {opened fuel : ℕ}
    {rs keep : List JournalRecord} (hs : Sorted rs)
    (hev : evictWhile full fuel rs = some keep) (h : full (spare opened rs) = false) :
    own opened keep = own opened rs := by
  induction fuel generalizing rs with
  | zero =>
    rw [evictWhile] at hev
    split at hev
    · cases hev
      rfl
    · split at hev <;> cases hev
  | succ fuel ih =>
    rw [evictWhile] at hev
    split at hev
    · cases hev
      rfl
    next hfull =>
    split at hev
    · cases hev
    next rs' hrs' =>
    have hne : spare opened rs ≠ rs := fun he => by
      rw [he] at h
      simp [h] at hfull
    obtain ⟨hspare, hown⟩ := removeOldestUpdate_old hs (exists_old_of_spare hne) hrs'
    rw [← hspare] at h
    rw [ih (hs.sublist (removeOldestUpdate_sublist hrs')) hev h, hown]

/-- If they are not, another goes. -/
theorem own_lost {j : MeEventJournal} {incoming opened fuel : ℕ} {rs keep : List JournalRecord}
    (hev : evictWhile (crowded j incoming) fuel rs = some keep)
    (h : crowded j incoming (spare opened rs) = true) :
    (own opened keep).length < (own opened rs).length := by
  have hevicted := evicted_evictWhile hev
  have hown : (own opened keep).Sublist (own opened rs) := hevicted.sublist.filter _
  refine lt_of_le_of_ne hown.length_le fun heq => ?_
  have hlen : (spare opened keep).length = (spare opened rs).length := by
    rw [length_spare, length_spare, hevicted.boundaries, heq]
  have hspare : spare opened keep = spare opened rs :=
    List.Sublist.eq_of_length (hevicted.sublist.filter _) hlen
  have hsub : (spare opened keep).Sublist keep := List.filter_sublist
  have hfull := crowded_mono hsub (hspare ▸ h)
  rw [(evictWhile_spec hev).2] at hfull
  cases hfull

/-! ## One append -/

/-- The append loses no UPDATE of this opening without counting it: an UPDATE can be encoded, and
room is made without UPDATEs of this opening if it can be made at all. -/
def Counted (opened : ℕ) (j : MeEventJournal) (event : MeAnalyticsEvent) : Prop :=
  (event.phase = .update → j.nextCursor ≠ uint64Max ∧
      event.responsibleTrackIds.length ≤ meAnalyticsEventMaxTracks) ∧
    (validPhase event.phase = true → j.nextCursor ≠ uint64Max →
      ∀ line ∈ recordToLine (j.nextCursor + 1) event,
        crowded j line.length (spare opened j.records) = true →
          crowded j line.length (boundaries j.records) = true)

instance (opened : ℕ) (j : MeEventJournal) (event : MeAnalyticsEvent) :
    Decidable (Counted opened j event) := inferInstanceAs (Decidable (_ ∧ _))

/-- The UPDATEs of this opening that are retained, and those counted as dropped. -/
def accounted (opened : ℕ) (j : MeEventJournal) : ℕ :=
  (own opened j.records).length + j.droppedUpdates

def isUpdate (event : MeAnalyticsEvent) : Bool := event.phase = .update

theorem length_own (opened : ℕ) (rs : List JournalRecord) :
    (own opened rs).length =
      (entries rs).countP fun p => p.2.phase = .update && opened < p.1 := by
  rw [entries, List.countP_map, own, List.countP_eq_length_filter]
  rfl

theorem own_entries {opened : ℕ} {rs rs' : List JournalRecord} (h : entries rs' = entries rs) :
    (own opened rs').length = (own opened rs).length := by
  rw [length_own, length_own, h]

theorem recordToLine_none {cursor : ℕ} {event : MeAnalyticsEvent} :
    recordToLine cursor event = none ↔
      meAnalyticsEventMaxTracks < event.responsibleTrackIds.length := by
  simp [recordToLine, recordText, meAnalyticsEventToJson]

/-- What one append leaves. -/
structure Step (opened : ℕ) (j : MeEventJournal) (event : MeAnalyticsEvent)
    (r : AppendResult) (j' : MeEventJournal) : Prop where
  sound : Sound j'
  /-- An accepted event stands behind some of the records, otherwise they all stay. -/
  entries : match r with
    | .ok cursor => cursor = j.nextCursor + 1 ∧ j'.nextCursor = cursor ∧
      ∃ keep : List JournalRecord, keep.Sublist j.records ∧
        entries j'.records = Journal.entries keep ++ [(cursor, event)]
    | _ => j'.records = j.records ∧ j'.nextCursor = j.nextCursor
  le : accounted opened j' ≤ accounted opened j + (isUpdate event).toNat
  iff : accounted opened j' = accounted opened j + (isUpdate event).toNat ↔ Counted opened j event

theorem append_step {opened : ℕ} {j : MeEventJournal} (h : Sound j) (ho : opened ≤ j.nextCursor)
    (disk : Bytes) (event : MeAnalyticsEvent) :
    Step opened j event (meEventJournalAppend j disk event).1
      (meEventJournalAppend j disk event).2.1 := by
  -- an event refused with an error is lost if it is an UPDATE
  have refused : ∀ err, (isUpdate event = false ↔ Counted opened j event) →
      Step opened j event (.failed err) j := fun err hiff => by
    refine ⟨h, ⟨rfl, rfl⟩, Nat.le_add_right _ _, ?_⟩
    rw [← hiff]
    cases isUpdate event <;> simp
  unfold meEventJournalAppend
  split
  · next hphase =>
    have hu : isUpdate event = false := by
      cases hp : event.phase <;> simp_all [isUpdate, validPhase]
    refine refused _ (iff_of_true hu ⟨fun hup => ?_, fun hv => ?_⟩)
    · simp [isUpdate, hup] at hu
    · simp [hv] at hphase
  next hphase =>
  split
  · next hfull =>
    refine refused _ ⟨fun hu => ⟨fun hup => ?_, fun _ hn => absurd hfull hn⟩, fun hc => ?_⟩
    · simp [isUpdate, hup] at hu
    · exact decide_eq_false fun hup => (hc.1 hup).1 hfull
  next hfull =>
  cases hline : recordToLine (j.nextCursor + 1) event with
  | none =>
    refine refused _ ⟨fun hu => ⟨fun hup => ?_, fun _ _ line hl => ?_⟩, fun hc => ?_⟩
    · simp [isUpdate, hup] at hu
    · rw [hline] at hl
      cases hl
    · have hlong := recordToLine_none.mp hline
      exact decide_eq_false fun hup => absurd (hc.1 hup).2 (not_le.mpr hlong)
  | some line =>
    have hshort : event.responsibleTrackIds.length ≤ meAnalyticsEventMaxTracks :=
      not_lt.mp fun hlong => by
        rw [recordToLine_none.mpr hlong] at hline
        cases hline
    have hcounted : Counted opened j event ↔ (crowded j line.length (spare opened j.records) = true →
        crowded j line.length (boundaries j.records) = true) := by
      refine ⟨fun hc => hc.2 (by simpa using hphase) hfull line hline, fun hc =>
        ⟨fun _ => ⟨hfull, hshort⟩, fun _ _ l hl => ?_⟩⟩
      obtain rfl : line = l := Option.some.inj (hline.symm.trans hl)
      exact hc
    rcases makeRoom_cases h disk line event.phase with ⟨hcrowd, hroom⟩ |
      ⟨hcrowd, keep, rs, disk', hev, hentries, hroom⟩
    · have hc : Counted opened j event := hcounted.mpr fun _ => hcrowd
      by_cases hu : event.phase = .update
      · rw [if_pos hu] at hroom
        dsimp only
        rw [hroom]
        refine ⟨⟨h.codable, h.sorted, h.bound, h.bytes⟩, ⟨rfl, rfl⟩, ?_, iff_of_true ?_ hc⟩ <;>
          simp [accounted, isUpdate, hu] <;> omega
      · rw [if_neg hu] at hroom
        dsimp only
        rw [hroom]
        exact refused _ (iff_of_true (by simp [isUpdate, hu]) hc)
    · dsimp only
      rw [hroom]
      have hsub := (evicted_evictWhile hev).sublist
      have hentries' : entries (rs ++ [⟨j.nextCursor + 1, event, line.length⟩]) =
          entries (keep ++ [⟨j.nextCursor + 1, event, line.length⟩]) := by
        simp only [entries, List.map_append] at hentries ⊢
        rw [hentries]
      have hown : (own opened (rs ++ [⟨j.nextCursor + 1, event, line.length⟩])).length =
          (own opened keep).length + (isUpdate event).toNat := by
        have hnew : opened < j.nextCursor + 1 := by omega
        rw [own_entries hentries']
        by_cases hu : event.phase = .update <;> simp [own, List.filter_append, isUpdate, hu, hnew]
      have hle : (own opened keep).length ≤ (own opened j.records).length :=
        (hsub.filter _).length_le
      show Step opened j event (.ok (j.nextCursor + 1))
        (pushRecord { j with records := rs, bytes := totalBytes rs } event line)
      refine ⟨?_, ⟨rfl, rfl, keep, hsub, ?_⟩, ?_, ?_⟩
      · refine sound_of_entries ?_ ?_ ?_ hentries' ?_
        · intro r hr
          rcases List.mem_append.mp hr with hr | hr
          · exact h.codable r (hsub.subset hr)
          · rw [List.mem_singleton.mp hr]
            exact hshort
        · refine List.pairwise_append.mpr ⟨h.sorted.sublist hsub, by simp, fun a ha b hb => ?_⟩
          rw [List.mem_singleton.mp hb]
          exact Nat.lt_succ_of_le (h.bound a (hsub.subset ha))
        · intro r hr
          rcases List.mem_append.mp hr with hr | hr
          · exact (h.bound r (hsub.subset hr)).trans (Nat.le_succ _)
          · rw [List.mem_singleton.mp hr]
            exact le_rfl
        · simp [pushRecord, totalBytes]
      · simp only [pushRecord, hentries']
        simp [entries]
      · simp only [accounted, pushRecord, hown]
        omega
      · rw [hcounted, hcrowd]
        simp only [accounted, pushRecord, hown]
        cases hs : crowded j line.length (spare opened j.records) with
        | true =>
          have hlost := own_lost hev hs
          exact iff_of_false (by omega) (by simp)
        | false =>
          rw [own_kept h.sorted hev hs]
          exact iff_of_true (by omega) (by simp)

/-! ## A run of appends -/

/-- Every append of the run loses no UPDATE without counting it. -/
def AllCounted (opened : ℕ) (j : MeEventJournal) (disk : Bytes) : List MeAnalyticsEvent → Prop
  | [] => True
  | e :: es =>
    Counted opened j e ∧ AllCounted opened (meEventJournalAppend j disk e).2.1
      (meEventJournalAppend j disk e).2.2 es

instance decidableAllCounted (opened : ℕ) :
    ∀ (j : MeEventJournal) (disk : Bytes) (es : List MeAnalyticsEvent),
      Decidable (AllCounted opened j disk es)
  | _, _, [] => inferInstanceAs (Decidable True)
  | j, disk, e :: es =>
    have := decidableAllCounted opened (meEventJournalAppend j disk e).2.1
      (meEventJournalAppend j disk e).2.2 es
    inferInstanceAs (Decidable (_ ∧ _))

/-- The entries appended since the opening. -/
def since (opened : ℕ) (rs : List JournalRecord) : List (ℕ × MeAnalyticsEvent) :=
  (entries rs).filter fun p => opened < p.1

/-- What a run of appends leaves of the UPDATEs offered. -/
structure Accounts (opened : ℕ) (j : MeEventJournal) (disk : Bytes) (events : List MeAnalyticsEvent)
    (j' : MeEventJournal) (log : List (ℕ × MeAnalyticsEvent)) : Prop where
  sound : Sound j'
  logged : (since opened j'.records).Sublist (since opened j.records ++ log)
  cursors : log.Pairwise fun p q => p.1 < q.1
  later : ∀ p ∈ log, j.nextCursor < p.1
  le : accounted opened j' ≤ accounted opened j + events.countP isUpdate
  iff : accounted opened j' = accounted opened j + events.countP isUpdate ↔
    AllCounted opened j disk events

theorem since_append {opened : ℕ} {j j' : MeEventJournal} {keep : List JournalRecord}
    {p : ℕ × MeAnalyticsEvent} (hk : keep.Sublist j.records) (hp : opened < p.1)
    (h : entries j'.records = entries keep ++ [p]) :
    (since opened j'.records).Sublist (since opened j.records ++ [p]) := by
  have hkeep : (since opened keep).Sublist (since opened j.records) := (hk.map _).filter _
  have hlast : since opened j'.records = since opened keep ++ [p] := by
    simp [since, h, List.filter_append, hp]
  rw [hlast]
  exact hkeep.append_right _

theorem appendAll_accounts {opened : ℕ} {j j' : MeEventJournal} {disk disk' : Bytes}
    {events : List MeAnalyticsEvent} {log : List (ℕ × MeAnalyticsEvent)} (h : Sound j)
    (ho : opened ≤ j.nextCursor) (hrun : appendAll j disk events = (j', disk', log)) :
    Accounts opened j disk events j' log := by
  induction events generalizing j disk log with
  | nil =>
    simp only [appendAll, Prod.mk.injEq] at hrun
    obtain ⟨rfl, rfl, rfl⟩ := hrun
    exact ⟨h, by simp, .nil, by simp, le_rfl, iff_of_true rfl trivial⟩
  | cons e es ih =>
    have hstep := append_step h ho disk e
    rw [appendAll] at hrun
    have hcount : (e :: es).countP isUpdate = es.countP isUpdate + (isUpdate e).toNat := by
      rw [List.countP_cons]
      cases isUpdate e <;> rfl
    rcases hout : meEventJournalAppend j disk e with ⟨r, j₁, disk₁⟩
    rw [hout] at hrun hstep
    have hall : AllCounted opened j disk (e :: es) ↔
        Counted opened j e ∧ AllCounted opened j₁ disk₁ es := by
      rw [AllCounted, hout]
    have hiff : ∀ {log}, Accounts opened j₁ disk₁ es j' log →
        (accounted opened j' ≤ accounted opened j + (e :: es).countP isUpdate ∧
          (accounted opened j' = accounted opened j + (e :: es).countP isUpdate ↔
            AllCounted opened j disk (e :: es))) := fun hrest => by
      have h1 := hstep.le
      have h2 := hrest.le
      rw [hcount, hall, ← hstep.iff, ← hrest.iff]
      dsimp only at h1 ⊢
      omega
    have hsame : j₁.records = j.records → j₁.nextCursor = j.nextCursor →
        appendAll j₁ disk₁ es = (j', disk', log) → Accounts opened j disk (e :: es) j' log := by
      intro hrecs hnext hrun
      have hrest := ih hstep.sound (hnext ▸ ho) hrun
      exact ⟨hrest.sound, hrecs ▸ hrest.logged, hrest.cursors, hnext ▸ hrest.later,
        (hiff hrest).1, (hiff hrest).2⟩
    cases r with
    | ok c =>
      obtain ⟨rfl, hnext, keep, hkeep, hentries⟩ := hstep.entries
      dsimp only at hnext hentries
      rcases hrest₀ : appendAll j₁ disk₁ es with ⟨j₂, disk₂, log₂⟩
      simp only [hrest₀, Prod.mk.injEq] at hrun
      obtain ⟨rfl, rfl, rfl⟩ := hrun
      have hrest : Accounts opened j₁ disk₁ es j₂ log₂ :=
        ih hstep.sound (by omega) hrest₀
      refine ⟨hrest.sound, ?_, List.pairwise_cons.mpr ⟨fun p hp => ?_, hrest.cursors⟩, ?_,
        (hiff hrest).1, (hiff hrest).2⟩
      · have hnew : (since opened j₁.records).Sublist
            (since opened j.records ++ [(j.nextCursor + 1, e)]) :=
          since_append hkeep (by dsimp only; omega) hentries
        have happ := hnew.append_right log₂
        rw [List.append_assoc] at happ
        exact hrest.logged.trans happ
      · have := hrest.later p hp
        omega
      · intro p hp
        rcases List.mem_cons.mp hp with rfl | hp
        · exact Nat.lt_succ_self _
        · have := hrest.later p hp
          omega
    | dropped => exact hsame hstep.entries.1 hstep.entries.2 hrun
    | failed err => exact hsame hstep.entries.1 hstep.entries.2 hrun

/-! ## The counter -/

/-- The UPDATEs of the log that are still in the journal. -/
def retainedUpdates (j : MeEventJournal) (log : List (ℕ × MeAnalyticsEvent)) : ℕ :=
  log.countP fun p => isUpdate p.2 && j.records.any fun r => r.cursor == p.1

theorem retainedUpdates_eq {opened : ℕ} {j : MeEventJournal} {log : List (ℕ × MeAnalyticsEvent)}
    (hsub : (since opened j.records).Sublist log) (hlog : log.Pairwise fun p q => p.1 < q.1)
    (hlater : ∀ p ∈ log, opened < p.1) :
    retainedUpdates j log = (own opened j.records).length := by
  have hkeys : (log.map Prod.fst).Nodup := List.pairwise_map.mpr (hlog.imp Nat.ne_of_lt)
  have hnodup : log.Nodup := hkeys.of_map
  -- a log entry under a retained cursor is the entry of that record
  have hmem : ∀ p ∈ log, (j.records.any fun r => r.cursor == p.1) = true ↔
      p ∈ since opened j.records := fun p hp => by
    rw [List.any_eq_true, since, List.mem_filter, entries, List.mem_map]
    constructor
    · rintro ⟨r, hr, hc⟩
      have hcursor : r.cursor = p.1 := by simpa using hc
      have hin : (r.cursor, r.event) ∈ since opened j.records := by
        refine List.mem_filter.mpr ⟨List.mem_map_of_mem hr, ?_⟩
        simpa [hcursor] using hlater p hp
      have heq : (r.cursor, r.event) = p :=
        List.inj_on_of_nodup_map hkeys (hsub.subset hin) hp hcursor
      exact ⟨⟨r, hr, heq⟩, by simpa using hlater p hp⟩
    · rintro ⟨⟨r, hr, rfl⟩, -⟩
      exact ⟨r, hr, beq_self_eq_true _⟩
  have hperm : (log.filter fun p => isUpdate p.2 && j.records.any fun r => r.cursor == p.1).Perm
      ((since opened j.records).filter fun p => isUpdate p.2) := by
    refine (List.perm_ext_iff_of_nodup (hnodup.filter _) ((hsub.nodup hnodup).filter _)).mpr
      fun p => ?_
    simp only [List.mem_filter, Bool.and_eq_true]
    constructor
    · rintro ⟨hp, hu, hr⟩
      exact ⟨(hmem p hp).mp hr, hu⟩
    · rintro ⟨hp, hu⟩
      exact ⟨hsub.subset hp, hu, (hmem p (hsub.subset hp)).mpr hp⟩
  rw [retainedUpdates, List.countP_eq_length_filter, hperm.length_eq, length_own, since,
    List.filter_filter, ← List.countP_eq_length_filter]
  rfl

/-- **Every UPDATE offered is retained or counted as dropped if and only if every append is
`Counted`**, for a journal opened over any file and any run of appends on it. -/
theorem dropped_counts_iff {disk₀ disk disk' : Bytes} {maxRecords maxBytes : ℕ}
    {j₀ j : MeEventJournal} {events : List MeAnalyticsEvent} {log : List (ℕ × MeAnalyticsEvent)}
    (hopen : meEventJournalOpen disk₀ maxRecords maxBytes = (some j₀, disk))
    (hrun : appendAll j₀ disk events = (j, disk', log)) :
    j.droppedUpdates = events.countP isUpdate - retainedUpdates j log ↔
      AllCounted j₀.nextCursor j₀ disk events := by
  obtain ⟨hsound, hzero⟩ := sound_open hopen
  have h := appendAll_accounts hsound le_rfl hrun
  have hold : since j₀.nextCursor j₀.records = [] := by
    refine List.filter_eq_nil_iff.mpr fun p hp => ?_
    obtain ⟨r, hr, rfl⟩ := List.mem_map.mp hp
    simpa using hsound.bound r hr
  have hlogged := h.logged
  rw [hold, List.nil_append] at hlogged
  have hretained := retainedUpdates_eq hlogged h.cursors h.later
  have hown : (own j₀.nextCursor j₀.records).length = 0 := by
    rw [length_own, List.countP_eq_zero]
    intro p hp
    have hnil := List.filter_eq_nil_iff.mp hold p hp
    simp_all
  have hle := h.le
  rw [← h.iff]
  simp only [accounted, hown, hzero] at hle ⊢
  omega

/-- A journal with room for the START alone refuses the UPDATE and counts it. -/
theorem dropped_counts_demo :
    (appendAll (openedOver 1 65536 []) [] [startAt 40000000, followAt .update]).1.droppedUpdates =
        [startAt 40000000, followAt .update].countP isUpdate -
          retainedUpdates (appendAll (openedOver 1 65536 []) []
            [startAt 40000000, followAt .update]).1
            (appendAll (openedOver 1 65536 []) [] [startAt 40000000, followAt .update]).2.2 ↔
      AllCounted 0 (openedOver 1 65536 []) [] [startAt 40000000, followAt .update] := by
  have hopen : meEventJournalOpen [] 1 65536 = (some (openedOver 1 65536 []), []) := rfl
  exact dropped_counts_iff hopen (Prod.eta _).symm

/-- The END that takes the place of an UPDATE loses it without a trace in the counter. -/
theorem evicted_uncounted :
    meEventJournalOpen [] 2 65536 = (some (openedOver 2 65536 []), []) ∧
    threeEvents.1.droppedUpdates = 0 ∧
    [startAt 40000000, followAt .update, followAt .end_].countP isUpdate -
      retainedUpdates threeEvents.1 threeEvents.2.2 = 1 := by
  refine ⟨rfl, ?_⟩
  decide +kernel

end FlowAlarm.Journal
