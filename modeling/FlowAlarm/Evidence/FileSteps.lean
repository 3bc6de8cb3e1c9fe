import FlowAlarm.Data.Directory
import FlowAlarm.Evidence.Recovery

/-!
# The file steps of each call

`me_evidence_cache_open`, `_capture` and `_prune` as lists of steps on the
directory. All steps together leave the files the call leaves
(`perform_openSteps`, `perform_captureSteps`, `perform_pruneSteps`).
-/

namespace FlowAlarm.Evidence

open FlowAlarm.Text FlowAlarm.Engine FlowAlarm.CJson FlowAlarm.Directory

/-! ## Removing and pruning -/

/-- `remove_record_locked` unlinks the JPEG and then the metadata. -/
def removeSteps (directory : Bytes) (r : MeEvidenceRecord) : List Step :=
  (if (buildFilename directory (jpegName (recordId r))).length < meEvidencePathMax then
    [.unlink (jpegName (recordId r))] else []) ++ [.unlink (jsonName (recordId r))]

def pruneSteps (cache : MeEvidenceCache) (now : ℤ) : List Step :=
  (cache.records.filter (expired now)).flatMap (removeSteps cache.directory)

theorem perform_removeSteps (cache : MeEvidenceCache) (r : MeEvidenceRecord) :
    perform cache.files (removeSteps cache.directory r) = (removeRecordLocked cache r).files := by
  unfold removeSteps removeRecordLocked
  dsimp only
  split <;> rfl

theorem perform_removeAll (rs : List MeEvidenceRecord) (cache : MeEvidenceCache) :
    perform cache.files (rs.flatMap (removeSteps cache.directory)) =
      (rs.foldl removeRecordLocked cache).files := by
  induction rs generalizing cache with
  | nil => rfl
  | cons r rs ih =>
    rw [List.flatMap_cons, perform_append, perform_removeSteps, List.foldl_cons]
    exact ih (removeRecordLocked cache r)

theorem perform_pruneSteps (cache : MeEvidenceCache) (now : ℤ) :
    perform cache.files (pruneSteps cache now) = (pruneExpiredLocked cache now).files :=
  perform_removeAll _ cache

/-! ## Publishing -/

def alnum (b : UInt8) : Bool :=
  isDigit b || (0x41 ≤ b && b ≤ 0x5A) || (0x61 ≤ b && b ≤ 0x7A)

/-- How one `write_atomic` goes: the six characters `mkstemp` picks, how much each `write` takes,
and where it fails, if it does. -/
structure Writing where
  suffix : Bytes
  length_suffix : suffix.length = 6
  alnum_suffix : ∀ b ∈ suffix, alnum b = true
  cuts : List ℕ
  fate : Fate
  err : Bytes

def Writing.temp (w : Writing) (path : Bytes) : Bytes := path ++ (ascii ".tmp-" ++ w.suffix)

/-- `mkstemp` creates no file where there is one. -/
def Writing.fateIn (w : Writing) (files : Files) (path : Bytes) : Fate :=
  if (Keyed.lookup Prod.fst (w.temp path) files).isSome then .uncreated else w.fate

def Writing.steps (w : Writing) (files : Files) (path data : Bytes) : List Step :=
  writeAtomic (w.temp path) path data w.cuts (w.fateIn files path)

def Writing.result (w : Writing) (files : Files) (path : Bytes) : Option Bytes :=
  if w.fateIn files path = .done then none else some w.err

/-- Both files are unlinked when publishing failed. -/
def publishFailed (id : Bytes) : List Step := [.unlink (jpegName id), .unlink (jsonName id)]

/-- Publishing the files of a record: the JPEG first. -/
def publishSteps (files : Files) (id jpeg text : Bytes) (wj wm : Writing) : List Step × Writes :=
  let image := wj.steps files (jpegName id) jpeg
  match wj.result files (jpegName id) with
  | some err => (image ++ publishFailed id, ⟨some err, none⟩)
  | none =>
    let files := perform files image
    let metadata := wm.steps files (jsonName id) text
    match wm.result files (jsonName id) with
    | some err => (image ++ (metadata ++ (publishFailed id ++ publishFailed id)), ⟨none, some err⟩)
    | none => (image ++ metadata, ⟨none, none⟩)

theorem lookup_none {files : Files} {name : Bytes}
    (h : ¬ (Keyed.lookup Prod.fst name files).isSome = true) :
    Keyed.lookup Prod.fst name files = none := by simpa using h

theorem temp_ne (w : Writing) (path : Bytes) : w.temp path ≠ path := by
  intro h
  have hlen := congrArg List.length h
  rw [Writing.temp, List.length_append, List.length_append, w.length_suffix] at hlen
  omega

theorem perform_writing (w : Writing) (files : Files) (path data : Bytes) :
    perform files (w.steps files path data) = Keyed.insert Prod.fst (path, data) files ∨
      (w.result files path ≠ none ∧ perform files (w.steps files path data) = files) := by
  unfold Writing.steps Writing.result
  by_cases hs : (Keyed.lookup Prod.fst (w.temp path) files).isSome = true
  · have hfate : w.fateIn files path = .uncreated := if_pos hs
    rw [hfate]
    exact .inr ⟨by simp, rfl⟩
  · have hfate : w.fateIn files path = w.fate := if_neg hs
    have hwrite := @perform_writeAtomic _ _ data _ (lookup_none hs) (temp_ne w path) w.cuts w.fate
    rw [hfate, hwrite]
    cases w.fate with
    | done | unsynced => exact .inl rfl
    | uncreated | unwritten => exact .inr ⟨by simp, rfl⟩

theorem perform_written {w : Writing} {files : Files} {path : Bytes}
    (h : w.result files path = none) (data : Bytes) :
    perform files (w.steps files path data) = Keyed.insert Prod.fst (path, data) files :=
  (perform_writing w files path data).resolve_right fun hne => hne.1 h

/-- The files but those of an id. -/
def without (id : Bytes) (files : Files) : Files :=
  files.filter fun f => f.1 ≠ jpegName id ∧ f.1 ≠ jsonName id

theorem erase_both (id : Bytes) (files : Files) :
    Keyed.erase Prod.fst (jsonName id) (Keyed.erase Prod.fst (jpegName id) files) =
      without id files := by
  rw [Keyed.erase, Keyed.erase, List.filter_filter, without]
  refine List.filter_congr fun f _ => ?_
  rw [Bool.and_comm, ← Bool.decide_and]

theorem perform_publishFailed (id : Bytes) (files : Files) :
    perform files (publishFailed id) = without id files := erase_both id files

theorem without_without (id : Bytes) (files : Files) :
    without id (without id files) = without id files := by
  rw [without, without, List.filter_filter]
  exact List.filter_congr fun f _ => Bool.and_self _

theorem without_insert {id name : Bytes} (h : name = jpegName id ∨ name = jsonName id)
    (content : Bytes) (files : Files) :
    without id (Keyed.insert Prod.fst (name, content) files) = without id files := by
  have hhead : ¬ (name ≠ jpegName id ∧ name ≠ jsonName id) := by tauto
  rw [without, Keyed.insert, List.filter_cons_of_neg (by simpa using hhead), Keyed.erase,
    List.filter_filter, without]
  refine List.filter_congr fun f _ => ?_
  by_cases hf : f.1 = name
  · have : ¬ (f.1 ≠ jpegName id ∧ f.1 ≠ jsonName id) := by rwa [hf]
    simp [this]
  · simp [hf]

/-- Publishing leaves the files the call leaves. -/
theorem perform_publishSteps (cache : MeEvidenceCache) (event : MeAnalyticsEvent)
    (r : MeEvidenceRecord) (jpeg : Bytes) (wj wm : Writing) :
    perform cache.files (publishSteps cache.files (recordId r) jpeg
        (printUnformatted (recordToJson r)) wj wm).1 =
      (publish cache event r jpeg (publishSteps cache.files (recordId r) jpeg
        (printUnformatted (recordToJson r)) wj wm).2).cache.files := by
  have himage : without (recordId r) (perform cache.files
      (wj.steps cache.files (jpegName (recordId r)) jpeg)) = without (recordId r) cache.files := by
    rcases perform_writing wj cache.files (jpegName (recordId r)) jpeg with h | ⟨-, h⟩ <;> rw [h]
    exact without_insert (.inl rfl) _ _
  unfold publishSteps
  dsimp only
  cases hj : wj.result cache.files (jpegName (recordId r)) with
  | some err =>
    dsimp only [publish]
    rw [perform_append, perform_publishFailed, himage, erase_both]
  | none =>
    dsimp only
    cases hm : wm.result (perform cache.files
        (wj.steps cache.files (jpegName (recordId r)) jpeg)) (jsonName (recordId r)) with
    | some err =>
      dsimp only [publish]
      have hmeta : ∀ files, without (recordId r) (perform files (wm.steps files
          (jsonName (recordId r)) (printUnformatted (recordToJson r)))) =
            without (recordId r) files := fun files => by
        rcases perform_writing wm files (jsonName (recordId r))
          (printUnformatted (recordToJson r)) with h | ⟨-, h⟩ <;> rw [h]
        exact without_insert (.inr rfl) _ _
      rw [perform_append, perform_append, perform_append, perform_publishFailed,
        perform_publishFailed, without_without, hmeta, himage, erase_both]
    | none =>
      dsimp only [publish]
      rw [perform_append, perform_written hm, perform_written hj]

/-! ## Capturing -/

/-- The file steps once a frame is selected, and how the two writes end. -/
def selectedSteps (sha : Sha256) (cache : MeEvidenceCache) (event : MeAnalyticsEvent)
    (sel : Selected) (now : ℤ) (wj wm : Writing) : List Step × Writes :=
  let r := candidate sha cache event sel now
  if cache.maxBytes < r.bytes then ([], ⟨none, none⟩)
  else
    let pruned := pruneExpiredLocked cache now
    if pruned.maxBytes < pruned.storedBytes + r.bytes then (pruneSteps cache now, ⟨none, none⟩)
    else
      let published := publishSteps pruned.files (recordId r) sel.frame.jpeg
        (printUnformatted (recordToJson r)) wj wm
      (pruneSteps cache now ++ published.1, published.2)

/-- The file steps of `me_evidence_cache_capture`, and how its two writes end. -/
def captureSteps (sha : Sha256) (cache : MeEvidenceCache) (event : MeAnalyticsEvent) (now : ℤ)
    (wj wm : Writing) : List Step × Writes :=
  if event.eventId.bytes = [] ∨ event.channelId.bytes = [] ∨ event.streamEpoch = 0 then
    ([], ⟨none, none⟩)
  else
    let event := { event with evidenceId := evidenceIdOf sha event }
    if !validComponent event.evidenceId.bytes then ([], ⟨none, none⟩)
    else if (Keyed.lookup recordId event.evidenceId.bytes cache.records).isSome then
      ([], ⟨none, none⟩)
    else if event.phase ≠ .start then ([], ⟨none, none⟩)
    else
      match selectFrameLocked cache event with
      | none => ([], ⟨none, none⟩)
      | some sel => selectedSteps sha cache event sel now wj wm

theorem perform_selectedSteps (sha : Sha256) (cache : MeEvidenceCache) (event : MeAnalyticsEvent)
    (sel : Selected) (now : ℤ) (wj wm : Writing) :
    perform cache.files (selectedSteps sha cache event sel now wj wm).1 =
      (captureSelected sha cache event sel now
        (selectedSteps sha cache event sel now wj wm).2).cache.files := by
  unfold selectedSteps captureSelected
  dsimp only
  generalize candidate sha cache event sel now = r
  by_cases hcap : cache.maxBytes < r.bytes
  · rw [if_pos hcap, if_pos hcap]
    rfl
  rw [if_neg hcap, if_neg hcap]
  by_cases hfull : (pruneExpiredLocked cache now).maxBytes <
      (pruneExpiredLocked cache now).storedBytes + r.bytes
  · rw [if_pos hfull, if_pos hfull]
    exact perform_pruneSteps cache now
  · rw [if_neg hfull, if_neg hfull, perform_append, perform_pruneSteps]
    exact perform_publishSteps _ _ _ _ wj wm

theorem perform_captureSteps (sha : Sha256) (cache : MeEvidenceCache) (event : MeAnalyticsEvent)
    (now : ℤ) (wj wm : Writing) :
    perform cache.files (captureSteps sha cache event now wj wm).1 =
      (meEvidenceCacheCapture sha cache event now
        (captureSteps sha cache event now wj wm).2).cache.files := by
  unfold captureSteps meEvidenceCacheCapture
  dsimp only
  by_cases hident : event.eventId.bytes = [] ∨ event.channelId.bytes = [] ∨ event.streamEpoch = 0
  · rw [if_pos hident, if_pos hident]
    rfl
  rw [if_neg hident, if_neg hident]
  by_cases hid : (!validComponent (evidenceIdOf sha event).bytes) = true
  · rw [if_pos hid, if_pos hid]
    rfl
  rw [if_neg hid, if_neg hid]
  by_cases hold : (Keyed.lookup recordId (evidenceIdOf sha event).bytes
      cache.records).isSome = true
  · rw [if_pos hold, if_pos hold]
    rfl
  rw [if_neg hold, if_neg hold]
  by_cases hphase : event.phase ≠ .start
  · rw [if_pos hphase, if_pos hphase]
    rfl
  rw [if_neg hphase, if_neg hphase]
  cases selectFrameLocked cache { event with evidenceId := evidenceIdOf sha event } with
  | none => rfl
  | some sel => exact perform_selectedSteps sha cache _ sel now wj wm

/-! ## Opening -/

/-- What `load_records` unlinks for one name: metadata it cannot use, and then the JPEG of a record
that does not check. -/
def loadSteps (sha : Sha256) (readable : Bytes → Bool) (cache : MeEvidenceCache) (name : Bytes) :
    List Step :=
  match metadataId name with
  | none => []
  | some id =>
    if !readable name then []
    else
      let image : List Step :=
        if (buildFilename cache.directory (jpegName id)).length < meEvidencePathMax then
          [.unlink (jpegName id)] else []
      match Keyed.lookup Prod.fst name cache.files with
      | none => []
      | some (_, contents) =>
        match (parseWithLength contents).bind recordFromJson with
        | none => [.unlink name]
        | some r =>
          if recordId r ≠ id then [.unlink name]
          else
            match recordImage cache readable id with
            | none => .unlink name :: image
            | some jpeg =>
              if jpeg.length ≠ r.bytes ∨ !strcasecmpEq (sha.hex jpeg) r.sha256 then
                .unlink name :: image
              else []

theorem perform_loadSteps (sha : Sha256) (readable : Bytes → Bool) (cache : MeEvidenceCache)
    (name : Bytes) :
    perform cache.files (loadSteps sha readable cache name) =
      (loadRecord sha readable cache name).files := by
  have hboth : ∀ id, perform cache.files (.unlink name ::
      if (buildFilename cache.directory (jpegName id)).length < meEvidencePathMax then
        [.unlink (jpegName id)] else []) =
      Keyed.erase Prod.fst name (unlinkImage cache id) := fun id => by
    unfold unlinkImage
    split
    · rw [Keyed.erase, Keyed.erase, List.filter_filter]
      refine (List.filter_filter ..).trans (List.filter_congr fun f _ => Bool.and_comm _ _)
    · rfl
  unfold loadSteps loadRecord
  cases metadataId name with
  | none => rfl
  | some id =>
    dsimp only
    by_cases hr : (!readable name) = true
    · rw [if_pos hr, if_pos hr]
      rfl
    rw [if_neg hr, if_neg hr]
    cases Keyed.lookup Prod.fst name cache.files with
    | none => rfl
    | some f =>
      dsimp only
      cases (parseWithLength f.2).bind recordFromJson with
      | none => rfl
      | some r =>
        dsimp only
        by_cases hne : recordId r ≠ id
        · rw [if_pos hne, if_pos hne]
          rfl
        rw [if_neg hne, if_neg hne]
        cases recordImage cache readable id with
        | none => exact hboth id
        | some jpeg =>
          dsimp only
          by_cases hbad : jpeg.length ≠ r.bytes ∨ (!strcasecmpEq (sha.hex jpeg) r.sha256) = true
          · rw [if_pos hbad, if_pos hbad]
            exact hboth id
          · rw [if_neg hbad, if_neg hbad]
            rfl

def loadAllSteps (sha : Sha256) (readable : Bytes → Bool) :
    MeEvidenceCache → List Bytes → List Step
  | _, [] => []
  | cache, name :: names =>
    loadSteps sha readable cache name ++
      loadAllSteps sha readable (loadRecord sha readable cache name) names

theorem perform_loadAllSteps (sha : Sha256) (readable : Bytes → Bool) (names : List Bytes)
    (cache : MeEvidenceCache) :
    perform cache.files (loadAllSteps sha readable cache names) =
      (names.foldl (loadRecord sha readable) cache).files := by
  induction names generalizing cache with
  | nil => rfl
  | cons name names ih =>
    rw [loadAllSteps, perform_append, perform_loadSteps, List.foldl_cons]
    exact ih _

/-- `cleanup_orphan_files`. -/
def cleanupSteps (cache : MeEvidenceCache) : List Step :=
  (cache.files.filter fun f => !keepFile cache.records f.1).map fun f => .unlink f.1

theorem perform_unlinks (names : List Bytes) (files : Files) :
    perform files (names.map .unlink) = files.filter fun f => !names.contains f.1 := by
  induction names generalizing files with
  | nil => exact (List.filter_eq_self.mpr fun _ _ => rfl).symm
  | cons name names ih =>
    have hcons : perform files ((name :: names).map .unlink) =
        perform (Keyed.erase Prod.fst name files) (names.map .unlink) := rfl
    rw [hcons, ih, Keyed.erase, List.filter_filter]
    refine List.filter_congr fun f _ => ?_
    by_cases hf : f.1 = name <;> simp [hf]

/-- The cache after `cleanup_orphan_files`. -/
def cleanedUp (cache : MeEvidenceCache) : MeEvidenceCache :=
  { cache with files := cache.files.filter fun f => keepFile cache.records f.1 }

theorem perform_cleanupSteps (cache : MeEvidenceCache) :
    perform cache.files (cleanupSteps cache) = (cleanedUp cache).files := by
  have hmap : cleanupSteps cache =
      ((cache.files.filter fun f => !keepFile cache.records f.1).map Prod.fst).map .unlink := by
    rw [List.map_map]
    rfl
  rw [hmap, perform_unlinks, cleanedUp]
  refine List.filter_congr fun f hf => ?_
  cases hk : keepFile cache.records f.1 with
  | true =>
    rw [Bool.not_eq_true', List.contains_eq_mem, decide_eq_false_iff_not]
    intro hmem
    obtain ⟨g, hg, he⟩ := List.mem_map.mp hmem
    have := (List.mem_filter.mp hg).2
    rw [he, hk] at this
    cases this
  | false =>
    rw [Bool.not_eq_false', List.contains_eq_mem, decide_eq_true_eq]
    exact List.mem_map_of_mem (List.mem_filter.mpr ⟨hf, by rw [hk]; rfl⟩)

/-- The file steps of `me_evidence_cache_open`. -/
def openSteps (sha : Sha256) (directory : Bytes) (maxBytes retentionS : ℕ) (files : Files)
    (readable : Bytes → Bool) (now : ℤ) : List Step :=
  if directory = [] ∨ maxBytes = 0 ∨ retentionS = 0 ∨ meEvidencePathMax ≤ directory.length then []
  else
    let start := opened directory maxBytes retentionS [] files
    let loaded := (files.map Prod.fst).foldl (loadRecord sha readable) start
    loadAllSteps sha readable start (files.map Prod.fst) ++
      (cleanupSteps loaded ++ pruneSteps (cleanedUp loaded) now)

theorem perform_openSteps {sha : Sha256} {directory : Bytes} {maxBytes retentionS : ℕ}
    {files : Files} {readable : Bytes → Bool} {now : ℤ} {cache : MeEvidenceCache}
    (h : meEvidenceCacheOpen sha directory maxBytes retentionS files readable true now =
      some cache) :
    perform files (openSteps sha directory maxBytes retentionS files readable now) =
      cache.files := by
  unfold meEvidenceCacheOpen at h
  unfold openSteps
  split at h
  · cases h
  next hargs =>
    rw [if_neg hargs]
    simp only [Bool.not_true, Bool.false_eq_true, if_false, Option.some.injEq] at h
    subst h
    dsimp only
    have hload := perform_loadAllSteps sha readable (files.map Prod.fst)
      (opened directory maxBytes retentionS [] files)
    generalize (files.map Prod.fst).foldl (loadRecord sha readable)
      (opened directory maxBytes retentionS [] files) = loaded at hload
    rw [perform_append, perform_append, show perform files _ = loaded.files from hload,
      perform_cleanupSteps]
    exact perform_pruneSteps (cleanedUp loaded) now

end FlowAlarm.Evidence
