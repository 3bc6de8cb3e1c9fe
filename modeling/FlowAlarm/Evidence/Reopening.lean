import FlowAlarm.Evidence.Calls

/-!
# Opening the directory again

`me_evidence_cache_open` on a directory as a crash has left it. It only removes
files (`openSteps_adds`), none of a record that is kept (`open_spare`), and finds
what `Recovered` says (`open_recovered`).
-/

namespace FlowAlarm.Evidence

open FlowAlarm.Text FlowAlarm.Engine FlowAlarm.CJson FlowAlarm.Directory

variable {sha : Sha256} {cache : MeEvidenceCache} {directory : Bytes} {files : Files}
  {kept : List MeEvidenceRecord}

/-! ## Opening -/

theorem removeSteps_adds {directory : Bytes} {r : MeEvidenceRecord} :
    ∀ s ∈ removeSteps directory r, s.adds = none := by
  intro s hs
  rcases List.mem_append.mp hs with hs | hs
  · split at hs
    · exact List.mem_singleton.mp hs ▸ rfl
    · cases hs
  · exact List.mem_singleton.mp hs ▸ rfl

theorem pruneSteps_adds {now : ℤ} : ∀ s ∈ pruneSteps cache now, s.adds = none := fun _ hs =>
  have ⟨_, _, hs⟩ := List.mem_flatMap.mp hs
  removeSteps_adds _ hs

theorem loadSteps_adds {readable : Bytes → Bool} {name : Bytes} :
    ∀ s ∈ loadSteps sha readable cache name, s.adds = none := by
  intro s hs
  have himage : ∀ id, (s ∈ Step.unlink name ::
      if (buildFilename cache.directory (jpegName id)).length < meEvidencePathMax then
        [Step.unlink (jpegName id)] else []) → s.adds = none := fun id hs => by
    rcases List.mem_cons.mp hs with rfl | hs
    · rfl
    split at hs
    · exact List.mem_singleton.mp hs ▸ rfl
    · cases hs
  unfold loadSteps at hs
  split at hs
  · cases hs
  dsimp only at hs
  split at hs
  · cases hs
  split at hs
  · cases hs
  split at hs
  · exact List.mem_singleton.mp hs ▸ rfl
  split at hs
  · exact List.mem_singleton.mp hs ▸ rfl
  split at hs
  · exact himage _ hs
  split at hs
  · exact himage _ hs
  · cases hs

theorem loadAllSteps_adds {readable : Bytes → Bool} {names : List Bytes} :
    ∀ s ∈ loadAllSteps sha readable cache names, s.adds = none := by
  induction names generalizing cache with
  | nil => exact fun s hs => absurd hs List.not_mem_nil
  | cons name names ih =>
    exact fun s hs => (List.mem_append.mp hs).elim (loadSteps_adds s) (ih s)

theorem cleanupSteps_adds : ∀ s ∈ cleanupSteps cache, s.adds = none := fun _ hs =>
  have ⟨_, _, hs⟩ := List.mem_map.mp hs
  hs ▸ rfl

theorem openSteps_adds {maxBytes retentionS : ℕ} {readable : Bytes → Bool} {now : ℤ} :
    ∀ s ∈ openSteps sha directory maxBytes retentionS files readable now, s.adds = none := by
  intro s hs
  unfold openSteps at hs
  split at hs
  · cases hs
  · simp only [List.mem_append] at hs
    rcases hs with hs | hs | hs
    · exact loadAllSteps_adds s hs
    · exact cleanupSteps_adds s hs
    · exact pruneSteps_adds s hs

/-- Steps that add nothing leave a part of the directory. -/
theorem perform_sub {steps : List Step} (h : ∀ s ∈ steps, s.adds = none) {f : Bytes × Bytes}
    (hf : f ∈ perform files steps) : f ∈ files := by
  rcases mem_perform hf with hf | ⟨s, hs, ha⟩
  · exact hf
  · rw [h s hs] at ha
    cases ha

theorem Plain.sub {files' : Files} (h : Plain files) (hsub : ∀ f ∈ files', f ∈ files) :
    Plain files' := fun f hf => h f (hsub f hf)

theorem Durable.mem_metadata {k : MeEvidenceRecord} (h : Durable sha files k) :
    jsonName (recordId k) ∈ files.map Prod.fst := by
  obtain ⟨text, b, htext, -⟩ := h.metadata
  exact List.mem_map.mpr ⟨_, Keyed.lookup_mem htext, rfl⟩

theorem Durable.unmarked {k : MeEvidenceRecord} (h : Durable sha files k) (hp : Plain files) :
    Unmarked (recordId k) := by
  obtain ⟨text, b, htext, -⟩ := h.metadata
  exact hp _ (Keyed.lookup_mem htext) _ ⟨_, .inr rfl, .inl rfl⟩

/-- The cleaning spares an id with a record. -/
theorem cleanupSteps_spare {id : Bytes} (hm : Unmarked id) (hid : Nameable id)
    (hrec : (Keyed.lookup recordId id cache.records).isSome = true) :
    ∀ s ∈ cleanupSteps cache, Spares id s := by
  intro s hs
  obtain ⟨f, hf, rfl⟩ := List.mem_map.mp hs
  have hkeep := (List.mem_filter.mp hf).2
  rw [Bool.not_eq_true'] at hkeep
  obtain ⟨hjpeg, hjson⟩ := keepFile_iff cache.records hm hid
  refine ⟨fun he => ?_, fun he => ?_⟩
  · have he : jsonName id = f.1 := he
    rw [← he, hjson.mpr hrec] at hkeep
    cases hkeep
  · have he : jpegName id = f.1 := he
    rw [← he, hjpeg.mpr hrec] at hkeep
    cases hkeep

/-- The cache `load_records` leaves. -/
def loadedCache (sha : Sha256) (directory : Bytes) (maxBytes retentionS : ℕ) (files : Files) :
    MeEvidenceCache :=
  (files.map Prod.fst).foldl (loadRecord sha fun _ => true)
    (opened directory maxBytes retentionS [] files)

theorem open_some {maxBytes retentionS : ℕ} {now : ℤ}
    (h : meEvidenceCacheOpen sha directory maxBytes retentionS files (fun _ => true) true now =
      some cache) :
    cache = pruneExpiredLocked (cleanedUp (loadedCache sha directory maxBytes retentionS files)) now ∧
    openSteps sha directory maxBytes retentionS files (fun _ => true) now =
      loadAllSteps sha (fun _ => true) (opened directory maxBytes retentionS [] files)
          (files.map Prod.fst) ++
        (cleanupSteps (loadedCache sha directory maxBytes retentionS files) ++
          pruneSteps (cleanedUp (loadedCache sha directory maxBytes retentionS files)) now) := by
  unfold meEvidenceCacheOpen at h
  unfold openSteps
  split at h
  · cases h
  next hargs =>
    rw [if_neg hargs]
    exact ⟨(Option.some.inj h).symm, rfl⟩

theorem open_none {maxBytes retentionS : ℕ} {now : ℤ}
    (h : meEvidenceCacheOpen sha directory maxBytes retentionS files (fun _ => true) true now =
      none) :
    openSteps sha directory maxBytes retentionS files (fun _ => true) now = [] := by
  unfold meEvidenceCacheOpen at h
  unfold openSteps
  split at h
  next hargs => rw [if_pos hargs]
  · cases h

section

variable (sha : Sha256) (directory : Bytes) (maxBytes retentionS : ℕ) (files : Files)

theorem loadedCache_shape : ∃ fs stored records,
    loadedCache sha directory maxBytes retentionS files =
      { opened directory maxBytes retentionS [] files with
        files := fs, storedBytes := stored, records := records } :=
  loadFold_shape sha _ _ _

theorem loadedCache_files : perform files (loadAllSteps sha (fun _ => true)
    (opened directory maxBytes retentionS [] files) (files.map Prod.fst)) =
      (loadedCache sha directory maxBytes retentionS files).files :=
  perform_loadAllSteps sha _ _ (opened directory maxBytes retentionS [] files)

end

section

variable {maxBytes retentionS : ℕ}

theorem loadedCache_accounted (hu : Keyed.Unique Prod.fst files) :
    Accounted (loadedCache sha directory maxBytes retentionS files) :=
  Accounted.loadAll _ _ ⟨Keyed.unique_nil, rfl⟩ (fun _ h => absurd h List.not_mem_nil) hu

theorem cleanedUp_accounted (hu : Keyed.Unique Prod.fst files) :
    Accounted (cleanedUp (loadedCache sha directory maxBytes retentionS files)) :=
  have h := loadedCache_accounted hu
  ⟨h.unique, h.stored⟩

theorem loadedCache_durable {r : MeEvidenceRecord}
    (hr : r ∈ (loadedCache sha directory maxBytes retentionS files).records) :
    Durable sha (loadedCache sha directory maxBytes retentionS files).files r :=
  have hinv : LoadInv sha (fun _ => true) (loadedCache sha directory maxBytes retentionS files) :=
    loadInv_fold _ ⟨Keyed.unique_nil, fun _ h => absurd h List.not_mem_nil⟩
  (hinv.loaded r hr).durable

theorem loadedCache_plain (hp : Plain files) :
    Plain (loadedCache sha directory maxBytes retentionS files).files :=
  hp.sub fun _ hf => perform_sub loadAllSteps_adds
    (loadedCache_files sha directory maxBytes retentionS files ▸ hf)

end

/-- The steps behind the loading spare a record of the table that has not expired. -/
theorem rest_spare {maxBytes retentionS : ℕ} {now : ℤ} (hu : Keyed.Unique Prod.fst files)
    (hp : Plain files) {r : MeEvidenceRecord}
    (hr : r ∈ (loadedCache sha directory maxBytes retentionS files).records)
    (hexp : expired now r = false) :
    ∀ s ∈ cleanupSteps (loadedCache sha directory maxBytes retentionS files) ++
      pruneSteps (cleanedUp (loadedCache sha directory maxBytes retentionS files)) now,
      Spares (recordId r) s := by
  have hdurable := loadedCache_durable hr
  have hcleaned : Accounted (cleanedUp (loadedCache sha directory maxBytes retentionS files)) :=
    cleanedUp_accounted hu
  have hunique := hcleaned.unique
  have hrec : (Keyed.lookup recordId (recordId r)
      (loadedCache sha directory maxBytes retentionS files).records).isSome = true :=
    Option.isSome_iff_exists.mpr ⟨r, Keyed.lookup_of_mem hunique hr⟩
  intro s hs
  rcases List.mem_append.mp hs with hs | hs
  · exact cleanupSteps_spare (hdurable.unmarked (loadedCache_plain hp))
      hdurable.nameable hrec s hs
  · exact pruneSteps_spare hunique hr hexp s hs

theorem Durable.inLoaded {k : MeEvidenceRecord} (h : Durable sha files k)
    (hshort : ShortPaths directory) (maxBytes retentionS : ℕ) :
    (∀ s ∈ loadAllSteps sha (fun _ => true) (opened directory maxBytes retentionS [] files)
      (files.map Prod.fst), Spares (recordId k) s) ∧
    ∃ b ∈ (loadedCache sha directory maxBytes retentionS files).records, Agrees k b := by
  have h' : Durable sha (opened directory maxBytes retentionS [] files).files k := h
  obtain ⟨hspare, hfound⟩ := h'.loadAll (files.map Prod.fst) hshort
  obtain ⟨b, hb, ha⟩ := hfound (.inl h.mem_metadata)
  exact ⟨hspare, b, Keyed.lookup_mem hb, ha⟩

/-- **No step of opening touches a record that is kept.** -/
theorem open_spare {maxBytes retentionS : ℕ} {now : ℤ} (hshort : ShortPaths directory)
    (hu : Keyed.Unique Prod.fst files) (hp : Plain files) {k : MeEvidenceRecord}
    (hk : Durable sha files k) (hexp : expired now k = false) :
    ∀ s ∈ openSteps sha directory maxBytes retentionS files (fun _ => true) now,
      Spares (recordId k) s := by
  cases ho : meEvidenceCacheOpen sha directory maxBytes retentionS files (fun _ => true) true now with
  | none =>
    rw [open_none ho]
    exact fun s hs => absurd hs List.not_mem_nil
  | some cache =>
    obtain ⟨hspare, b, hb, ha⟩ := hk.inLoaded hshort maxBytes retentionS
    rw [(open_some ho).2]
    intro s hs
    rcases List.mem_append.mp hs with hs | hs
    · exact hspare s hs
    · exact ha.id ▸ rest_spare hu hp hb (ha.expired now ▸ hexp) s hs

/-- **Opening takes every record that is kept.** -/
theorem open_live {maxBytes retentionS : ℕ} {now : ℤ} (hshort : ShortPaths directory)
    (hu : Keyed.Unique Prod.fst files) (hp : Plain files)
    (hkept : ∀ k ∈ kept, Durable sha files k ∧ expired now k = false)
    (h : meEvidenceCacheOpen sha directory maxBytes retentionS files (fun _ => true) true now =
      some cache) :
    Live sha directory (perform files
      (openSteps sha directory maxBytes retentionS files (fun _ => true) now)) kept cache := by
  obtain ⟨hcache, hsteps⟩ := open_some h
  obtain ⟨fs, stored, records, hshape⟩ :=
    loadedCache_shape sha directory maxBytes retentionS files
  have hcleaned : Accounted (cleanedUp (loadedCache sha directory maxBytes retentionS files)) :=
    cleanedUp_accounted hu
  have hmem : ∀ r, r ∈ cache.records ↔
      r ∈ (loadedCache sha directory maxBytes retentionS files).records ∧ expired now r = false :=
    fun r => by
      rw [hcache]
      exact mem_prune hcleaned.unique
  refine ⟨(perform_openSteps h).symm, ?_, hcache ▸ hcleaned.prune now, fun r hr => ?_, ?_,
    fun k hk => ?_⟩
  · rw [hcache, prune_directory, cleanedUp, hshape]
    rfl
  · obtain ⟨hr, hexp⟩ := (hmem r).mp hr
    rw [hsteps, perform_append, loadedCache_files]
    exact (loadedCache_durable hr).perform (rest_spare hu hp hr hexp)
  · have hwindow : SameWindow (cleanedUp (loadedCache sha directory maxBytes retentionS files))
        cache := hcache ▸ pruneExpiredLocked_window _ now
    refine hwindow.noted ?_
    rw [cleanedUp, hshape]
    have hfits := opened_fits directory maxBytes retentionS [] files
    exact ⟨⟨hfits.notes, hfits.frames, hfits.total, hfits.limit, hfits.bound⟩,
      fun n hn => absurd hn List.not_mem_nil, fun f hf => absurd hf List.not_mem_nil⟩
  · obtain ⟨hdurable, hexp⟩ := hkept k hk
    obtain ⟨-, b, hb, ha⟩ := hdurable.inLoaded hshort maxBytes retentionS
    exact ⟨b, (hmem b).mpr ⟨hb, ha.expired now ▸ hexp⟩, ha⟩

/-- The files pruning leaves are none of the pruned records'. -/
theorem files_removeAll {rs : List MeEvidenceRecord} {f : Bytes × Bytes}
    (hf : f ∈ (rs.foldl removeRecordLocked cache).files) :
    f ∈ cache.files ∧ ∀ r ∈ rs, f.1 ≠ jsonName (recordId r) ∧
      ((buildFilename cache.directory (jpegName (recordId r))).length < meEvidencePathMax →
        f.1 ≠ jpegName (recordId r)) := by
  induction rs generalizing cache with
  | nil => exact ⟨hf, fun r hr => absurd hr List.not_mem_nil⟩
  | cons r rs ih =>
    obtain ⟨hmem, hrest⟩ := ih hf
    obtain ⟨hmem, hjson⟩ := Keyed.mem_erase.mp hmem
    have himage : f ∈ cache.files ∧
        ((buildFilename cache.directory (jpegName (recordId r))).length < meEvidencePathMax →
          f.1 ≠ jpegName (recordId r)) := by
      split at hmem
      next hfit =>
        obtain ⟨hmem, hjpeg⟩ := Keyed.mem_erase.mp hmem
        exact ⟨hmem, fun _ => hjpeg⟩
      next hfit => exact ⟨hmem, fun h => absurd h hfit⟩
    exact ⟨himage.1, List.forall_mem_cons.mpr ⟨⟨hjson, himage.2⟩, hrest⟩⟩

/-- What opening has to find: of each id one record at most, with its JPEG in full; the records
that were handed out and have not expired; of the cache's own files only those of its records. -/
structure Recovered (sha : Sha256) (kept : List MeEvidenceRecord) (now : ℤ)
    (cache : MeEvidenceCache) : Prop where
  unique : Keyed.Unique recordId cache.records
  complete : ∀ r ∈ cache.records, ∃ jpeg, Keyed.lookup Prod.fst (jpegName (recordId r)) cache.files =
    some (jpegName (recordId r), jpeg) ∧ jpeg.length = r.bytes ∧
    strcasecmpEq (sha.hex jpeg) r.sha256 = true
  present : ∀ k ∈ kept, expired now k = false → ∃ r ∈ cache.records, Agrees k r
  own : ∀ f ∈ cache.files, ∀ id, Nameable id → Owned id f.1 →
    (f.1 = jpegName id ∨ f.1 = jsonName id) ∧ ∃ r ∈ cache.records, recordId r = id
  stored : cache.storedBytes = total cache.records

/-- Of the cache's own files only those of its records are left. -/
theorem open_own {maxBytes retentionS : ℕ} {now : ℤ} (hshort : ShortPaths directory)
    (hu : Keyed.Unique Prod.fst files) (hp : Plain files)
    (h : meEvidenceCacheOpen sha directory maxBytes retentionS files (fun _ => true) true now =
      some cache) {f : Bytes × Bytes} (hf : f ∈ cache.files) {id : Bytes} (hid : Nameable id)
    (howned : Owned id f.1) :
    (f.1 = jpegName id ∨ f.1 = jsonName id) ∧ ∃ r ∈ cache.records, recordId r = id := by
  have hcache := (open_some h).1
  rw [hcache] at hf
  obtain ⟨hmem, hgone⟩ := files_removeAll hf
  obtain ⟨hmem, hkeep⟩ := List.mem_filter.mp hmem
  have hm : Unmarked id := loadedCache_plain hp f hmem id howned
  have hnotemp : isEvidenceTempFile f.1 = false := by
    by_contra hne
    rw [keepFile, if_pos (by simpa using hne)] at hkeep
    cases hkeep
  -- a temporary file would not have been kept
  obtain ⟨path, hpath, hname⟩ := howned
  have hfile : f.1 = jpegName id ∨ f.1 = jsonName id := by
    rcases hname with hname | ⟨w, hname⟩
    · exact hname ▸ hpath
    · obtain ⟨hjpeg, hjson⟩ := isTemp_temp w hm hid
      rw [hname] at hnotemp
      rcases hpath with rfl | rfl
      · rw [hjpeg] at hnotemp
        cases hnotemp
      · rw [hjson] at hnotemp
        cases hnotemp
  refine ⟨hfile, ?_⟩
  obtain ⟨r, hr⟩ : ∃ r, Keyed.lookup recordId id
      (loadedCache sha directory maxBytes retentionS files).records = some r := by
    obtain ⟨hjpeg, hjson⟩ :=
      keepFile_iff (loadedCache sha directory maxBytes retentionS files).records hm hid
    refine Option.isSome_iff_exists.mp ?_
    rcases hfile with he | he
    · exact hjpeg.mp (he ▸ hkeep)
    · exact hjson.mp (he ▸ hkeep)
  have hcleaned : Accounted (cleanedUp (loadedCache sha directory maxBytes retentionS files)) :=
    cleanedUp_accounted hu
  have hunique := hcleaned.unique
  refine ⟨r, hcache ▸ (mem_prune hunique).mpr ⟨Keyed.lookup_mem hr, ?_⟩, Keyed.lookup_key hr⟩
  -- an expired record would have taken the file with it
  by_contra hexp
  have hexpired : r ∈ (cleanedUp (loadedCache sha directory maxBytes retentionS files)).records.filter
      (expired now) := List.mem_filter.mpr ⟨Keyed.lookup_mem hr, by simpa using hexp⟩
  obtain ⟨hjson, hjpeg⟩ := hgone r hexpired
  rw [Keyed.lookup_key hr] at hjson hjpeg
  rcases hfile with he | he
  · refine hjpeg ?_ he
    obtain ⟨fs, stored, records, hshape⟩ :=
      loadedCache_shape sha directory maxBytes retentionS files
    rw [cleanedUp, hshape]
    exact hshort id hid.2
  · exact hjson he

/-- **Opening finds what it has to.** -/
theorem open_recovered {maxBytes retentionS : ℕ} {now : ℤ} (hshort : ShortPaths directory)
    (hu : Keyed.Unique Prod.fst files) (hp : Plain files)
    (hkept : ∀ k ∈ kept, Durable sha files k)
    (h : meEvidenceCacheOpen sha directory maxBytes retentionS files (fun _ => true) true now =
      some cache) : Recovered sha kept now cache := by
  have hfresh : ∀ k ∈ kept.filter fun k => !expired now k,
      Durable sha files k ∧ expired now k = false := fun k hk => by
    obtain ⟨hk, hexp⟩ := List.mem_filter.mp hk
    exact ⟨hkept k hk, by simpa using hexp⟩
  have hlive := open_live hshort hu hp hfresh h
  refine ⟨hlive.accounted.unique, fun r hr => ?_, fun k hk hexp => ?_,
    fun f hf id hid howned => open_own hshort hu hp h hf hid howned, hlive.accounted.stored⟩
  · rw [hlive.same]
    exact (hlive.durable r hr).image
  · exact hlive.kept k (List.mem_filter.mpr ⟨hk, by rw [hexp]; rfl⟩)

end FlowAlarm.Evidence
