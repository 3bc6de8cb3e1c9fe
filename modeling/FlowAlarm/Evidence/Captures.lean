import FlowAlarm.Evidence.Recovery

/-!
# What a call leaves in the cache

Every call keeps the published records complete (`stored_prune`,
`stored_capture`). Which record an event's id finds afterwards: pruning removes
what has expired (`lookup_prune`), a capture keeps a record it finds
(`capture_known`) and publishes a new one exactly if it is `Publishable`
(`capture_new`).
-/

namespace FlowAlarm.Evidence

open FlowAlarm.Text FlowAlarm.Engine FlowAlarm.CJson

variable {sha : Sha256} {cache : MeEvidenceCache}

/-! ## What a call leaves of the records -/

theorem lookup_removeRecords (id : Bytes) (rs : List MeEvidenceRecord) :
    ∀ cache : MeEvidenceCache,
      Keyed.lookup recordId id (rs.foldl removeRecordLocked cache).records =
        if ∃ r ∈ rs, recordId r = id then none else Keyed.lookup recordId id cache.records := by
  induction rs with
  | nil => exact fun cache => by simp
  | cons r rs ih =>
    intro cache
    rw [List.foldl_cons, ih]
    show (if ∃ r ∈ rs, recordId r = id then none
      else Keyed.lookup recordId id (Keyed.erase recordId (recordId r) cache.records)) = _
    rw [Keyed.lookup_erase]
    by_cases hrest : ∃ r ∈ rs, recordId r = id
    · rw [if_pos hrest, if_pos (hrest.imp fun _ h => ⟨List.mem_cons_of_mem _ h.1, h.2⟩)]
    · by_cases hr : recordId r = id
      · rw [if_neg hrest, if_pos hr.symm, if_pos ⟨r, List.mem_cons_self, hr⟩]
      · have hnone : ¬ ∃ r' ∈ r :: rs, recordId r' = id := by
          rintro ⟨r', hr', he⟩
          rcases List.mem_cons.mp hr' with rfl | hr'
          · exact hr he
          · exact hrest ⟨r', hr', he⟩
        rw [if_neg hrest, if_neg (Ne.symm hr), if_neg hnone]

theorem maxBytes_removeRecords (rs : List MeEvidenceRecord) : ∀ cache : MeEvidenceCache,
    (rs.foldl removeRecordLocked cache).maxBytes = cache.maxBytes := by
  induction rs with
  | nil => exact fun _ => rfl
  | cons r rs ih => exact fun cache => ih (removeRecordLocked cache r)

/-- Pruning removes exactly what has expired. -/
theorem lookup_prune (h : Keyed.Unique recordId cache.records) (id : Bytes) (now : ℤ) :
    Keyed.lookup recordId id (pruneExpiredLocked cache now).records =
      (Keyed.lookup recordId id cache.records).filter fun r => !expired now r := by
  rw [pruneExpiredLocked, lookup_removeRecords]
  cases hl : Keyed.lookup recordId id cache.records with
  | none =>
    rw [Option.filter_none]
    split <;> rfl
  | some r =>
    have hmem := Keyed.lookup_mem hl
    have hkey := Keyed.lookup_key hl
    have hexpired : (∃ r' ∈ cache.records.filter (expired now), recordId r' = id) ↔
        expired now r = true := by
      constructor
      · rintro ⟨r', hr', he⟩
        obtain ⟨hr', hexp⟩ := List.mem_filter.mp hr'
        have hsame := Keyed.lookup_of_mem h hr'
        rw [he, hl] at hsame
        cases hsame
        exact hexp
      · exact fun hexp => ⟨r, List.mem_filter.mpr ⟨hmem, hexp⟩, hkey⟩
    by_cases hexp : expired now r = true
    · rw [if_pos (hexpired.mpr hexp), Option.filter_some, hexp]
      rfl
    · rw [if_neg fun he => hexp (hexpired.mp he), Option.filter_some,
        Bool.eq_false_iff.mpr hexp]
      rfl

/-- The event names itself, its channel and its epoch. -/
structure Named (event : MeAnalyticsEvent) : Prop where
  eventId : event.eventId.bytes ≠ []
  channelId : event.channelId.bytes ≠ []
  streamEpoch : event.streamEpoch ≠ 0
  evidence : event.evidenceId = .empty

variable (sha) in
/-- The event as `me_evidence_cache_capture` leaves it. -/
def referring (event : MeAnalyticsEvent) : MeAnalyticsEvent :=
  { event with evidenceId := evidenceIdOf sha event }

theorem Named.ownId {event : MeAnalyticsEvent} (h : Named event) :
    OwnId sha (evidenceIdOf sha event).bytes := by
  refine ⟨event.eventId.bytes, ?_⟩
  rw [evidenceIdOf, h.evidence]
  rfl

theorem componentByte_lowerHex : ∀ b, lowerHex b = true → componentByte b = true := by
  have hall : ∀ n < 256, lowerHex (UInt8.ofNat n) = true → componentByte (UInt8.ofNat n) = true := by
    decide +kernel
  intro b hb
  have := hall b.toNat b.toNat_lt
  rw [UInt8.ofNat_toNat] at this
  exact this hb

theorem validComponent_ownId {id : Bytes} (h : OwnId sha id) : validComponent id = true := by
  obtain ⟨s, rfl⟩ := h
  have hhead : ascii "ev-" = [0x65, 0x76, 0x2D] := by decide
  have hev : (ascii "ev-").all componentByte = true := by decide
  have hhex : (sha.hex s).all componentByte = true :=
    List.all_eq_true.mpr fun b hb => componentByte_lowerHex b (sha.lowerHex_hex s b hb)
  have hdot : ascii "." = [0x2E] := by decide
  have hdots : ascii ".." = [0x2E, 0x2E] := by decide
  rw [validComponent, List.all_append, hev, hhex, hhead, hdot, hdots]
  simp

/-- A START whose frame is in the window and fits, and whose files can be written. -/
def Publishable (cache : MeEvidenceCache) (event : MeAnalyticsEvent) (now : ℤ) (writes : Writes) :
    Prop :=
  event.phase = .start ∧ ∃ sel, selectFrameLocked cache event = some sel ∧
    sel.frame.jpeg.length ≤ cache.maxBytes ∧
    (pruneExpiredLocked cache now).storedBytes + sel.frame.jpeg.length ≤ cache.maxBytes ∧
    writes.jpeg = none ∧ writes.metadata = none

/-- Past its checks of the identity, the capture is a lookup and a publication. -/
theorem capture_named {event : MeAnalyticsEvent} (h : Named event) (now : ℤ) (writes : Writes) :
    meEvidenceCacheCapture sha cache event now writes =
      if (Keyed.lookup recordId (evidenceIdOf sha event).bytes cache.records).isSome then
        ⟨0, [], referring sha event, cache⟩
      else if event.phase ≠ .start then
        ⟨1, ascii "evidence for event " ++ event.eventId.bytes ++ ascii " has not been published",
          referring sha event, cache⟩
      else
        match selectFrameLocked cache (referring sha event) with
        | none => ⟨1, ascii "no recent JPEG matches event " ++ event.eventId.bytes,
            referring sha event, cache⟩
        | some sel => captureSelected sha cache (referring sha event) sel now writes := by
  have hbad : ¬ (event.eventId.bytes = [] ∨ event.channelId.bytes = [] ∨ event.streamEpoch = 0) := by
    rintro (he | he | he)
    · exact h.eventId he
    · exact h.channelId he
    · exact h.streamEpoch he
  have hvalid : ¬ (!validComponent (evidenceIdOf sha event).bytes) = true := by
    rw [validComponent_ownId h.ownId]
    exact Bool.false_ne_true
  rw [meEvidenceCacheCapture, if_neg hbad]
  simp only [if_neg hvalid]
  rfl

theorem sameFiles_unlinked {id id' : Bytes} (h : id ≠ id') (files : List (Bytes × Bytes)) :
    SameFiles id files
      (Keyed.erase Prod.fst (jsonName id') (Keyed.erase Prod.fst (jpegName id') files)) :=
  (sameFiles_erase h (.inr rfl) files).trans (sameFiles_erase h (.inl rfl) _)

/-- What a capture that publishes nothing may still do: expired records go, and the files it wrote
itself. -/
inductive Missed (cache : MeEvidenceCache) (event : MeAnalyticsEvent) (now : ℤ) :
    MeEvidenceCache → Prop where
  | same : Missed cache event now cache
  | pruned : Missed cache event now (pruneExpiredLocked cache now)
  | unlinked (files : List (Bytes × Bytes))
      (hsame : ∀ id, id ≠ event.evidenceId.bytes →
        SameFiles id (pruneExpiredLocked cache now).files files) :
      Missed cache event now { pruneExpiredLocked cache now with files := files }

variable (sha) in
/-- The cache with the record of the selected frame. -/
def published (cache : MeEvidenceCache) (event : MeAnalyticsEvent) (sel : Selected) (now : ℤ) :
    MeEvidenceCache :=
  let r := candidate sha cache event sel now
  let pruned := pruneExpiredLocked cache now
  { pruned with
    files := Keyed.insert Prod.fst (jsonName (recordId r), printUnformatted (recordToJson r))
      (Keyed.insert Prod.fst (jpegName (recordId r), sel.frame.jpeg) pruned.files)
    records := Keyed.insert recordId r pruned.records
    storedBytes := pruned.storedBytes + sel.frame.jpeg.length }

theorem captureSelected_cases (event : MeAnalyticsEvent) (sel : Selected) (now : ℤ)
    (writes : Writes) :
    ((sel.frame.jpeg.length ≤ cache.maxBytes ∧
        (pruneExpiredLocked cache now).storedBytes + sel.frame.jpeg.length ≤ cache.maxBytes ∧
        writes.jpeg = none ∧ writes.metadata = none) ∧
      (captureSelected sha cache event sel now writes).cache =
        published sha cache event sel now) ∨
    (¬ (sel.frame.jpeg.length ≤ cache.maxBytes ∧
        (pruneExpiredLocked cache now).storedBytes + sel.frame.jpeg.length ≤ cache.maxBytes ∧
        writes.jpeg = none ∧ writes.metadata = none) ∧
      Missed cache event now (captureSelected sha cache event sel now writes).cache) := by
  have hmax : (pruneExpiredLocked cache now).maxBytes = cache.maxBytes :=
    maxBytes_removeRecords _ cache
  have hunlinked : ∀ id, id ≠ event.evidenceId.bytes →
      SameFiles id (pruneExpiredLocked cache now).files
        (Keyed.erase Prod.fst (jsonName event.evidenceId.bytes)
          (Keyed.erase Prod.fst (jpegName event.evidenceId.bytes)
            (pruneExpiredLocked cache now).files)) :=
    fun id hne => sameFiles_unlinked hne _
  by_cases hfit : cache.maxBytes < sel.frame.jpeg.length
  · refine .inr ⟨fun h => absurd h.1 (not_le.mpr hfit), ?_⟩
    have hsel : captureSelected sha cache event sel now writes =
        ⟨1, ascii "evidence JPEG exceeds cache capacity", event, cache⟩ := if_pos hfit
    rw [hsel]
    exact .same
  have hsel : captureSelected sha cache event sel now writes =
      if (pruneExpiredLocked cache now).maxBytes <
          (pruneExpiredLocked cache now).storedBytes + sel.frame.jpeg.length then
        ⟨1, ascii "evidence cache is full", event, pruneExpiredLocked cache now⟩
      else publish (pruneExpiredLocked cache now) event (candidate sha cache event sel now)
        sel.frame.jpeg writes := if_neg hfit
  rw [hmax] at hsel
  by_cases hroom : cache.maxBytes < (pruneExpiredLocked cache now).storedBytes +
      sel.frame.jpeg.length
  · refine .inr ⟨fun h => absurd h.2.1 (not_le.mpr hroom), ?_⟩
    rw [hsel, if_pos hroom]
    exact .pruned
  rw [hsel, if_neg hroom, publish]
  obtain ⟨jpeg, metadata⟩ := writes
  cases jpeg with
  | some err => exact .inr ⟨(fun h => nomatch h.2.2.1), .unlinked _ hunlinked⟩
  | none =>
    cases metadata with
    | some err => exact .inr ⟨(fun h => nomatch h.2.2.2), .unlinked _ hunlinked⟩
    | none => exact .inl ⟨⟨not_lt.mp hfit, not_lt.mp hroom, rfl, rfl⟩, rfl⟩

theorem Missed.lookup {event : MeAnalyticsEvent} {now : ℤ} {cache' : MeEvidenceCache}
    (h : Missed cache event now cache') (hu : Keyed.Unique recordId cache.records) {id : Bytes}
    (hnone : Keyed.lookup recordId id cache.records = none) :
    Keyed.lookup recordId id cache'.records = none := by
  have hpruned : Keyed.lookup recordId id (pruneExpiredLocked cache now).records = none := by
    rw [lookup_prune hu, hnone]
    rfl
  cases h with
  | same => exact hnone
  | pruned => exact hpruned
  | unlinked => exact hpruned

theorem Missed.stored {event : MeAnalyticsEvent} {now : ℤ} {cache' : MeEvidenceCache}
    (h : Missed cache event now cache') (hs : Stored sha cache)
    (hnone : Keyed.lookup recordId event.evidenceId.bytes cache.records = none) :
    Stored sha cache' := by
  have hpruned := stored_prune hs now
  cases h with
  | same => exact hs
  | pruned => exact hpruned
  | unlinked files hsame =>
    refine ⟨hpruned.unique, fun r hr hown => (hpruned.complete r hr hown).same (hsame _ ?_)⟩
    have hpruning : Missed cache event now (pruneExpiredLocked cache now) := .pruned
    have hgone := hpruning.lookup hs.unique hnone
    exact Keyed.lookup_eq_none.mp hgone r hr

variable (sha cache) in
/-- The two files of a published record. -/
theorem lookup_published (event : MeAnalyticsEvent) (sel : Selected) (now : ℤ) :
    Keyed.lookup Prod.fst (jsonName event.evidenceId.bytes) (published sha cache event sel now).files =
      some (jsonName event.evidenceId.bytes,
        printUnformatted (recordToJson (candidate sha cache event sel now))) ∧
    Keyed.lookup Prod.fst (jpegName event.evidenceId.bytes) (published sha cache event sel now).files =
      some (jpegName event.evidenceId.bytes, sel.frame.jpeg) := by
  constructor
  · exact Keyed.lookup_insert.trans (if_pos rfl)
  · unfold published
    rw [Keyed.lookup_insert, if_neg (jsonName_ne_jpegName _ _), Keyed.lookup_insert]
    exact if_pos rfl

/-- The new record is published, the others stay. -/
theorem stored_published {event : MeAnalyticsEvent} {sel : Selected} {now : ℤ}
    (hs : Stored sha cache) : Stored sha (published sha cache event sel now) := by
  have hpruned := stored_prune hs now
  refine ⟨hpruned.unique.insert _, fun r hr hown => ?_⟩
  rcases List.mem_cons.mp hr with rfl | hr
  · obtain ⟨hjson, hjpeg⟩ := lookup_published sha cache event sel now
    exact ⟨⟨_, hjson, .inl rfl⟩, _, hjpeg, rfl, strcasecmpEq_self _⟩
  · obtain ⟨hr, hne⟩ := Keyed.mem_erase.mp hr
    exact (hpruned.complete r hr hown).same
      ((sameFiles_insert hne (.inr rfl) _ _).trans (sameFiles_insert hne (.inl rfl) _ _))

theorem stored_capture {event : MeAnalyticsEvent} (h : Named event) (hs : Stored sha cache) (now : ℤ)
    (writes : Writes) : Stored sha (meEvidenceCacheCapture sha cache event now writes).cache := by
  rw [capture_named h]
  split
  · exact hs
  next hnew =>
  split
  · exact hs
  split
  · exact hs
  next sel _ =>
  rcases captureSelected_cases (referring sha event) sel now writes with ⟨-, heq⟩ | ⟨-, hmiss⟩
  · rw [heq]
    exact stored_published hs
  · exact hmiss.stored hs (Option.not_isSome_iff_eq_none.mp hnew)

/-- A record that is there stays, whatever the event. -/
theorem capture_known {event : MeAnalyticsEvent} (h : Named event) (now : ℤ) (writes : Writes)
    {r : MeEvidenceRecord}
    (hr : Keyed.lookup recordId (evidenceIdOf sha event).bytes cache.records = some r) :
    (meEvidenceCacheCapture sha cache event now writes).cache = cache := by
  rw [capture_named h, hr]
  rfl

theorem capture_event {event : MeAnalyticsEvent} (h : Named event) (now : ℤ) (writes : Writes) :
    (meEvidenceCacheCapture sha cache event now writes).event = referring sha event := by
  rw [capture_named h]
  split
  · rfl
  split
  · rfl
  split
  · rfl
  · rw [captureSelected]
    dsimp only
    split
    · rfl
    split
    · rfl
    rw [publish]
    split <;> rfl

/-- **A capture publishes its record exactly if it is `Publishable`.** -/
theorem capture_new {event : MeAnalyticsEvent} (h : Named event) (hs : Stored sha cache) {now : ℤ}
    {writes : Writes}
    (hnone : Keyed.lookup recordId (evidenceIdOf sha event).bytes cache.records = none)
    (r : MeEvidenceRecord) :
    Keyed.lookup recordId (evidenceIdOf sha event).bytes
        (meEvidenceCacheCapture sha cache event now writes).cache.records = some r ↔
      Publishable cache (referring sha event) now writes ∧
        ∃ sel, selectFrameLocked cache (referring sha event) = some sel ∧
          r = candidate sha cache (referring sha event) sel now := by
  rw [capture_named h, hnone]
  simp only [Option.isSome_none, Bool.false_eq_true, if_false]
  by_cases hphase : event.phase ≠ .start
  · rw [if_pos hphase, hnone]
    exact ⟨(fun he => by cases he), fun he => absurd he.1.1 hphase⟩
  rw [if_neg hphase]
  have hphase : (referring sha event).phase = .start := not_not.mp hphase
  cases hsel : selectFrameLocked cache (referring sha event) with
  | none =>
    rw [hnone]
    constructor
    · intro he
      cases he
    · rintro ⟨-, sel, hsel', -⟩
      cases hsel'
  | some sel =>
    rcases captureSelected_cases (referring sha event) sel now writes with ⟨hfit, heq⟩ | ⟨hfit, hmiss⟩
    · have hfound : Keyed.lookup recordId (evidenceIdOf sha event).bytes
          (published sha cache (referring sha event) sel now).records =
            some (candidate sha cache (referring sha event) sel now) := by
        unfold published
        rw [Keyed.lookup_insert]
        exact if_pos rfl
      rw [heq, hfound]
      constructor
      · intro he
        exact ⟨⟨hphase, sel, hsel, hfit⟩, sel, rfl, (Option.some.inj he).symm⟩
      · rintro ⟨-, sel', he, rfl⟩
        rw [Option.some.inj he]
    · rw [hmiss.lookup hs.unique hnone]
      refine ⟨(fun he => by cases he), ?_⟩
      rintro ⟨⟨-, sel', hsel', hfit'⟩, -⟩
      rw [hsel] at hsel'
      cases hsel'
      exact absurd hfit' hfit

end FlowAlarm.Evidence
