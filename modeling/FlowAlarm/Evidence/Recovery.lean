import FlowAlarm.Evidence.EvidenceCache

/-!
# Opening the evidence cache

`me_evidence_cache_open` on a directory: `load_records` takes every metadata
file whose JPEG is complete, `cleanup_orphan_files` removes what belongs to no
record, expired records are pruned. `Stored` is what a cache guarantees of its
records from then on: under an id the engine derives, metadata and a complete
JPEG are published. `stored_open` establishes it.
-/

namespace FlowAlarm.Evidence

open FlowAlarm.Text FlowAlarm.Engine FlowAlarm.CJson

/-! ## Metadata that is read back -/

def meEvidenceSha256Max : ℕ := 65
def meEvidenceStateMax : ℕ := 32

/-- `json_string` of a required text, which is cut to its field. -/
def jsonString (object : Json) (name : Bytes) (outsz : ℕ) : Option CStr :=
  match getObjectItem object name with
  | some (.str s) =>
    if cString s = [] then none
    else some (CStr.snprintf outsz ⟨cString s, Codec.cString_nonul s⟩)
  | _ => none

/-- A double as an integer of the range, at the range's bounds where it does not fit. -/
def truncate (lo hi : ℤ) (d : ℚ) : ℤ := max lo (min hi (if 0 ≤ d then ⌊d⌋ else ⌈d⌉))

def jsonNumber (object : Json) (name : Bytes) : Option ℚ :=
  match getObjectItem object name with
  | some (.num lit) => some (valueDouble lit)
  | _ => none

def jsonU64 (object : Json) (name : Bytes) : Option ℕ :=
  match jsonNumber object name with
  | some d => if d < 0 then none else some (truncate 0 uint64Max d).toNat
  | none => none

def jsonI64 (object : Json) (name : Bytes) : Option ℤ :=
  (jsonNumber object name).map (truncate (-2 ^ 63) (2 ^ 63 - 1))

def hexDigitByte (b : UInt8) : Bool := lowerHex b || (0x41 ≤ b && b ≤ 0x46)

def validSha256 (value : Bytes) : Bool := value.length == 64 && value.all hexDigitByte

/-- `record_from_json`. -/
def recordFromJson (object : Json) : Option MeEvidenceRecord := do
  let version ← jsonNumber object (ascii "v")
  guard (truncate 0 uint32Max version = meEvidenceMetadataVersion)
  let evidenceId ← jsonString object (ascii "evidence_id") Codec.meAnalyticsEvidenceIdMax
  guard (validComponent evidenceId.bytes)
  let eventId ← jsonString object (ascii "event_id") meAnalyticsEventIdMax
  let channelId ← jsonString object (ascii "channel_id") meAnalyticsChannelIdMax
  let streamEpoch ← jsonU64 object (ascii "stream_epoch")
  let frameId ← jsonU64 object (ascii "frame_id")
  let sourcePtsValid ← Codec.jsonBool object (ascii "source_pts_valid")
  let sourcePts ← jsonI64 object (ascii "source_pts")
  let timebaseNum ← jsonU64 object (ascii "source_timebase_num")
  let timebaseDen ← jsonU64 object (ascii "source_timebase_den")
  let captureTimeUs ← jsonI64 object (ascii "capture_time_us")
  let width ← jsonU64 object (ascii "width")
  let height ← jsonU64 object (ascii "height")
  let bytes ← jsonU64 object (ascii "bytes")
  let sha256 ← jsonString object (ascii "sha256") meEvidenceSha256Max
  guard (validSha256 sha256.bytes)
  let frameDelta ← jsonU64 object (ascii "frame_delta")
  let ptsDelta ← jsonI64 object (ascii "pts_delta")
  let createdAtUs ← jsonI64 object (ascii "created_at_us")
  let expiresAtUs ← jsonI64 object (ascii "expires_at_us")
  let storageState ← jsonString object (ascii "storage_state") meEvidenceStateMax
  let deliveryState ← jsonString object (ascii "delivery_state") meEvidenceStateMax
  let objectKey ← jsonString object (ascii "object_key") meEvidencePathMax
  guard (objectKey.bytes = jpegName evidenceId.bytes)
  guard (width ≤ uint32Max ∧ height ≤ uint32Max ∧ timebaseNum ≤ uint32Max ∧ timebaseDen ≤ uint32Max)
  guard (¬ (sourcePtsValid ∧ (timebaseNum = 0 ∨ timebaseDen = 0)))
  let accuracyName ← Codec.jsonText object (ascii "accuracy")
  let accuracy ←
    if accuracyName = ascii "exact" then some MeEvidenceAccuracy.exact
    else if accuracyName = ascii "approximate" then some .approximate
    else none
  some {
    evidenceId, eventId, channelId, streamEpoch, frameId, sourcePtsValid, sourcePts
    sourceTimebase := ⟨timebaseNum, timebaseDen⟩
    captureTimeUs, width, height, bytes
    sha256 := sha256.bytes
    accuracy, frameDelta, ptsDelta, createdAtUs, expiresAtUs
    storageState := storageState.bytes
    deliveryState := deliveryState.bytes }

/-! ## Loading -/

variable (sha : Sha256)

/-- The id of a metadata file. -/
def metadataId (name : Bytes) : Option Bytes :=
  if (ascii ".json").isSuffixOf name then
    let id := name.take (name.length - 5)
    if validComponent id then some id else none
  else none

/-- The JPEG of a record, if `readable` says the file can be read; a path cut to its field names
no file. -/
def recordImage (cache : MeEvidenceCache) (readable : Bytes → Bool) (id : Bytes) : Option Bytes :=
  if (buildFilename cache.directory (jpegName id)).length < meEvidencePathMax ∧
      readable (jpegName id) then
    (Keyed.lookup Prod.fst (jpegName id) cache.files).map Prod.snd
  else none

/-- `unlink` of the JPEG's path in the record. -/
def unlinkImage (cache : MeEvidenceCache) (id : Bytes) : List (Bytes × Bytes) :=
  if (buildFilename cache.directory (jpegName id)).length < meEvidencePathMax then
    Keyed.erase Prod.fst (jpegName id) cache.files
  else cache.files

/-- One file of `load_records`. -/
def loadRecord (readable : Bytes → Bool) (cache : MeEvidenceCache) (name : Bytes) :
    MeEvidenceCache :=
  match metadataId name with
  | none => cache
  | some id =>
    if !readable name then cache
    else
      match Keyed.lookup Prod.fst name cache.files with
      | none => cache
      | some (_, contents) =>
        match (parseWithLength contents).bind recordFromJson with
        | none => { cache with files := Keyed.erase Prod.fst name cache.files }
        | some r =>
          if recordId r ≠ id then { cache with files := Keyed.erase Prod.fst name cache.files }
          else
            match recordImage cache readable id with
            | none =>
              { cache with files := Keyed.erase Prod.fst name (unlinkImage cache id) }
            | some image =>
              if image.length ≠ r.bytes ∨ !strcasecmpEq (sha.hex image) r.sha256 then
                { cache with files := Keyed.erase Prod.fst name (unlinkImage cache id) }
              else { cache with
                storedBytes := cache.storedBytes + r.bytes
                records := Keyed.insert recordId r cache.records }

/-- What stands before the first occurrence of `needle`. -/
def strstr (needle : Bytes) : Bytes → Option Bytes
  | [] => if needle = [] then some [] else none
  | b :: s => if needle.isPrefixOf (b :: s) then some [] else (strstr needle s).map (b :: ·)

def evidenceIdFromSuffix (name suffix : Bytes) : Option Bytes :=
  if suffix.length < name.length ∧ suffix.isSuffixOf name then
    let id := name.take (name.length - suffix.length)
    if id.length + 1 ≤ Codec.meAnalyticsEvidenceIdMax ∧ validComponent id then some id else none
  else none

def isEvidenceTempFile (name : Bytes) : Bool :=
  match (strstr (ascii ".jpg.tmp-") name).or (strstr (ascii ".json.tmp-") name) with
  | none => false
  | some id => id != [] && name.drop (id.length + 9) != [] &&
      decide (id.length + 1 ≤ Codec.meAnalyticsEvidenceIdMax) && validComponent id

/-- A file `cleanup_orphan_files` leaves alone. -/
def keepFile (records : List MeEvidenceRecord) (name : Bytes) : Bool :=
  if isEvidenceTempFile name then false
  else
    match evidenceIdFromSuffix name (ascii ".jpg") with
    | some id => (Keyed.lookup recordId id records).isSome
    | none =>
      match evidenceIdFromSuffix name (ascii ".json") with
      | some id => (Keyed.lookup recordId id records).isSome
      | none => true

/-- `me_evidence_cache_open` on the files of a directory. It fails on its arguments, and if an
orphan cannot be removed (`cleaned`). -/
def meEvidenceCacheOpen (directory : Bytes) (maxBytes retentionS : ℕ) (files : List (Bytes × Bytes))
    (readable : Bytes → Bool) (cleaned : Bool) (now : ℤ) : Option MeEvidenceCache :=
  if directory = [] ∨ maxBytes = 0 ∨ retentionS = 0 ∨ meEvidencePathMax ≤ directory.length then none
  else
    let cache := (files.map Prod.fst).foldl (loadRecord sha readable)
      (opened directory maxBytes retentionS [] files)
    if !cleaned then none
    else some (pruneExpiredLocked
      { cache with files := cache.files.filter fun f => keepFile cache.records f.1 } now)

/-! ## Complete records -/

/-- The text is the one written for the record, or the one the record was read from. -/
def Describes (text : Bytes) (r : MeEvidenceRecord) : Prop :=
  text = printUnformatted (recordToJson r) ∨ (parseWithLength text).bind recordFromJson = some r

/-- Both files of the record are there, the JPEG with the record's size and checksum. -/
structure Complete (files : List (Bytes × Bytes)) (r : MeEvidenceRecord) : Prop where
  metadata : ∃ text, Keyed.lookup Prod.fst (jsonName (recordId r)) files =
    some (jsonName (recordId r), text) ∧ Describes text r
  image : ∃ jpeg, Keyed.lookup Prod.fst (jpegName (recordId r)) files =
    some (jpegName (recordId r), jpeg) ∧ jpeg.length = r.bytes ∧
    strcasecmpEq (sha.hex jpeg) r.sha256 = true

/-- Two directories that have the same files under an id. -/
def SameFiles (id : Bytes) (files files' : List (Bytes × Bytes)) : Prop :=
  Keyed.lookup Prod.fst (jsonName id) files' = Keyed.lookup Prod.fst (jsonName id) files ∧
    Keyed.lookup Prod.fst (jpegName id) files' = Keyed.lookup Prod.fst (jpegName id) files

theorem SameFiles.trans {id : Bytes} {f g h : List (Bytes × Bytes)} (h1 : SameFiles id f g)
    (h2 : SameFiles id g h) : SameFiles id f h := ⟨h2.1.trans h1.1, h2.2.trans h1.2⟩

/-- Removing one of another id's files. -/
theorem sameFiles_erase {id id' name : Bytes} (h : id ≠ id')
    (hname : name = jsonName id' ∨ name = jpegName id') (files : List (Bytes × Bytes)) :
    SameFiles id files (Keyed.erase Prod.fst name files) := by
  rcases hname with rfl | rfl
  · exact ⟨Keyed.lookup_erase.trans (if_neg fun he => h (jsonName_inj he)),
      Keyed.lookup_erase.trans (if_neg fun he => jsonName_ne_jpegName _ _ he.symm)⟩
  · exact ⟨Keyed.lookup_erase.trans (if_neg (jsonName_ne_jpegName _ _)),
      Keyed.lookup_erase.trans (if_neg fun he => h (jpegName_inj he))⟩

/-- Writing one of another id's files. -/
theorem sameFiles_insert {id id' name : Bytes} (h : id ≠ id')
    (hname : name = jsonName id' ∨ name = jpegName id') (content : Bytes)
    (files : List (Bytes × Bytes)) :
    SameFiles id files (Keyed.insert Prod.fst (name, content) files) := by
  rcases hname with rfl | rfl
  · exact ⟨Keyed.lookup_insert.trans (if_neg fun he => h (jsonName_inj he).symm),
      Keyed.lookup_insert.trans (if_neg (jsonName_ne_jpegName _ _))⟩
  · exact ⟨Keyed.lookup_insert.trans (if_neg fun he => jsonName_ne_jpegName _ _ he.symm),
      Keyed.lookup_insert.trans (if_neg fun he => h (jpegName_inj he).symm)⟩

theorem Complete.same {sha : Sha256} {files files' : List (Bytes × Bytes)} {r : MeEvidenceRecord}
    (h : Complete sha files r) (hs : SameFiles (recordId r) files files') :
    Complete sha files' r := by
  obtain ⟨⟨text, htext, hd⟩, jpeg, hjpeg, hsize, hsum⟩ := h
  exact ⟨⟨text, hs.1.trans htext, hd⟩, jpeg, hs.2.trans hjpeg, hsize, hsum⟩

/-! ## What is loaded -/

/-- A record as `load_records` accepted it. -/
structure Loaded (readable : Bytes → Bool) (cache : MeEvidenceCache) (r : MeEvidenceRecord) :
    Prop where
  opens : readable (jsonName (recordId r)) = true
  metadata : ∃ text, Keyed.lookup Prod.fst (jsonName (recordId r)) cache.files =
    some (jsonName (recordId r), text) ∧ (parseWithLength text).bind recordFromJson = some r
  image : ∃ jpeg, recordImage cache readable (recordId r) = some jpeg ∧ jpeg.length = r.bytes ∧
    strcasecmpEq (sha.hex jpeg) r.sha256 = true

theorem lookup_name {name : Bytes} {files : List (Bytes × Bytes)} {f : Bytes × Bytes}
    (h : Keyed.lookup Prod.fst name files = some f) : f = (name, f.2) :=
  Prod.ext (Keyed.lookup_key h) rfl

theorem Loaded.complete {sha : Sha256} {readable : Bytes → Bool} {cache : MeEvidenceCache}
    {r : MeEvidenceRecord} (h : Loaded sha readable cache r) : Complete sha cache.files r := by
  obtain ⟨-, ⟨text, htext, hread⟩, jpeg, hjpeg, hsize, hsum⟩ := h
  refine ⟨⟨text, htext, .inr hread⟩, jpeg, ?_, hsize, hsum⟩
  unfold recordImage at hjpeg
  split at hjpeg
  · obtain ⟨f, hf, rfl⟩ := Option.map_eq_some_iff.mp hjpeg
    rw [hf, lookup_name hf]
  · cases hjpeg

theorem Loaded.same {sha : Sha256} {readable : Bytes → Bool} {cache cache' : MeEvidenceCache}
    {r : MeEvidenceRecord} (h : Loaded sha readable cache r)
    (hdir : cache'.directory = cache.directory)
    (hs : SameFiles (recordId r) cache.files cache'.files) : Loaded sha readable cache' r := by
  obtain ⟨hr, ⟨text, htext, hread⟩, jpeg, hjpeg, hsum⟩ := h
  refine ⟨hr, ⟨text, hs.1.trans htext, hread⟩, jpeg, ?_, hsum⟩
  rwa [recordImage, hdir, hs.2]

theorem metadataId_some {name id : Bytes} (h : metadataId name = some id) :
    name = jsonName id ∧ validComponent id = true := by
  unfold metadataId at h
  split at h
  · next hs =>
    dsimp only at h
    split at h
    · next hid =>
      cases h
      refine ⟨?_, hid⟩
      obtain ⟨t, ht⟩ := List.isSuffixOf_iff_suffix.mp hs
      have hfive : (ascii ".json").length = 5 := by decide
      rw [← ht, jsonName, List.length_append, hfive, Nat.add_sub_cancel, List.take_left']
      rfl
    · cases h
  · cases h

theorem sameFiles_unlink {id id' : Bytes} (h : id ≠ id') (cache : MeEvidenceCache) :
    SameFiles id cache.files
      (Keyed.erase Prod.fst (jsonName id') (unlinkImage cache id')) := by
  have herase := sameFiles_erase h (.inl rfl) (unlinkImage cache id')
  unfold unlinkImage at herase ⊢
  split
  · next hfit =>
    rw [if_pos hfit] at herase
    exact (sameFiles_erase h (.inr rfl) cache.files).trans herase
  · next hfit =>
    rw [if_neg hfit] at herase
    exact herase

/-- What holds between the files of `load_records`. -/
structure LoadInv (readable : Bytes → Bool) (cache : MeEvidenceCache) : Prop where
  unique : Keyed.Unique recordId cache.records
  loaded : ∀ r ∈ cache.records, Loaded sha readable cache r

/-- What one file of `load_records` does: nothing, it removes files of an id without a record, or
it takes the record. -/
inductive LoadCase (readable : Bytes → Bool) (cache : MeEvidenceCache) :
    MeEvidenceCache → Prop where
  | same : LoadCase readable cache cache
  | removed (id : Bytes) (files : List (Bytes × Bytes))
      (hother : ∀ r ∈ cache.records, recordId r ≠ id)
      (hsame : ∀ id', id' ≠ id → SameFiles id' cache.files files) :
      LoadCase readable cache { cache with files := files }
  | taken (r : MeEvidenceRecord) (hload : Loaded sha readable cache r) (stored : ℕ) :
      LoadCase readable cache
        { cache with storedBytes := stored, records := Keyed.insert recordId r cache.records }

theorem loadRecord_cases {sha : Sha256} {readable : Bytes → Bool} {cache : MeEvidenceCache}
    (h : LoadInv sha readable cache) (name : Bytes) :
    LoadCase sha readable cache (loadRecord sha readable cache name) := by
  unfold loadRecord
  split
  · exact .same
  next id hid =>
  obtain rfl := (metadataId_some hid).1
  split
  · exact .same
  next hr =>
  have hr : readable (jsonName id) = true := by simpa using hr
  split
  · exact .same
  next nm contents hfile =>
  have hnm : nm = jsonName id := congrArg Prod.fst (lookup_name hfile)
  subst hnm
  -- a record under this id was read from this very file
  have hreread : ∀ r ∈ cache.records, recordId r = id →
      (parseWithLength contents).bind recordFromJson = some r := by
    intro r hr he
    obtain ⟨text, htext, hread⟩ := (h.loaded r hr).metadata
    rw [he, hfile] at htext
    cases htext
    exact hread
  have herased : ∀ id', id' ≠ id →
      SameFiles id' cache.files (Keyed.erase Prod.fst (jsonName id) cache.files) :=
    fun id' hne => sameFiles_erase hne (.inl rfl) _
  split
  next hread =>
    refine .removed id _ (fun r hr he => ?_) herased
    rw [hreread r hr he] at hread
    cases hread
  next r hread =>
  split
  next hne =>
    refine .removed id _ (fun r' hr' he => ?_) herased
    rw [hreread r' hr' he] at hread
    cases hread
    exact hne he
  next hid =>
  have hid : recordId r = id := not_not.mp hid
  have hunlinked : ∀ id', id' ≠ id → SameFiles id' cache.files
      (Keyed.erase Prod.fst (jsonName id) (unlinkImage cache id)) :=
    fun id' hne => sameFiles_unlink hne cache
  -- a record under this id passed both checks of the image before
  have himage : ∀ r' ∈ cache.records, recordId r' = id → ∃ jpeg,
      recordImage cache readable id = some jpeg ∧ jpeg.length = r.bytes ∧
      strcasecmpEq (sha.hex jpeg) r.sha256 = true := by
    intro r' hr' he
    have hsame := hreread r' hr' he
    rw [hread] at hsame
    cases hsame
    exact he ▸ (h.loaded r hr').image
  split
  next hnone =>
    refine .removed id _ (fun r' hr' he => ?_) hunlinked
    obtain ⟨jpeg, hjpeg, -⟩ := himage r' hr' he
    rw [hnone] at hjpeg
    cases hjpeg
  next image hsome =>
  split
  next hbad =>
    refine .removed id _ (fun r' hr' he => ?_) hunlinked
    obtain ⟨jpeg, hjpeg, hsize, hsum⟩ := himage r' hr' he
    rw [hsome] at hjpeg
    cases hjpeg
    rcases hbad with hbad | hbad
    · exact hbad hsize
    · rw [hsum] at hbad
      cases hbad
  next hgood =>
    rw [not_or] at hgood
    subst hid
    exact .taken r ⟨hr, ⟨contents, hfile, hread⟩, image, hsome, not_not.mp hgood.1,
      by simpa using hgood.2⟩ _

theorem loadInv_step {sha : Sha256} {readable : Bytes → Bool} {cache : MeEvidenceCache}
    (h : LoadInv sha readable cache) (name : Bytes) :
    LoadInv sha readable (loadRecord sha readable cache name) := by
  have hcases := loadRecord_cases h name
  generalize loadRecord sha readable cache name = cache' at hcases ⊢
  cases hcases with
  | same => exact h
  | removed id files hother hsame =>
    exact ⟨h.unique, fun r hr => (h.loaded r hr).same rfl (hsame _ (hother r hr))⟩
  | taken r hload =>
    refine ⟨h.unique.insert r, fun r' hr' => ?_⟩
    rcases Keyed.mem_insert hr' with rfl | hr'
    · exact hload.same rfl ⟨rfl, rfl⟩
    · exact (h.loaded r' hr').same rfl ⟨rfl, rfl⟩

theorem loadInv_fold {sha : Sha256} {readable : Bytes → Bool} (names : List Bytes) :
    ∀ {cache : MeEvidenceCache}, LoadInv sha readable cache →
      LoadInv sha readable (names.foldl (loadRecord sha readable) cache) := by
  induction names with
  | nil => exact fun h => h
  | cons name names ih => exact fun h => ih (loadInv_step h name)

/-! ## Cleaning up -/

/-- The ids `make_evidence_id` derives. -/
def OwnId (id : Bytes) : Prop := ∃ s, id = ascii "ev-" ++ sha.hex s

theorem strstr_infix {needle : Bytes} : ∀ {s before : Bytes}, strstr needle s = some before →
    ∃ rest, s = before ++ needle ++ rest
  | [], before, h => by
    rw [strstr] at h
    split at h
    next hn =>
      cases h
      exact ⟨[], by rw [hn]; rfl⟩
    next => cases h
  | b :: s, before, h => by
    rw [strstr] at h
    split at h
    next hp =>
      cases h
      obtain ⟨rest, hrest⟩ := List.isPrefixOf_iff_prefix.mp hp
      exact ⟨rest, hrest.symm⟩
    next =>
      obtain ⟨before', hb, rfl⟩ := Option.map_eq_some_iff.mp h
      obtain ⟨rest, hrest⟩ := strstr_infix hb
      exact ⟨rest, by rw [hrest]; rfl⟩

theorem count_ownId {id : Bytes} (h : OwnId sha id) : id.count 0x2E = 0 := by
  obtain ⟨s, rfl⟩ := h
  rw [List.count_eq_zero]
  intro hm
  rcases List.mem_append.mp hm with hm | hm
  · exact absurd hm (by decide)
  · exact absurd (sha.lowerHex_hex s _ hm) (by decide)

/-- A temporary file has two dots in its name, a record's file one. -/
theorem strstr_own {id suffix needle : Bytes} (h : OwnId sha id) (hs : suffix.count 0x2E = 1)
    (hn : needle.count 0x2E = 2) : strstr needle (id ++ suffix) = none := by
  cases hf : strstr needle (id ++ suffix) with
  | none => rfl
  | some before =>
    obtain ⟨rest, hrest⟩ := strstr_infix hf
    have hcount := congrArg (List.count 0x2E) hrest
    rw [List.count_append, List.count_append, List.count_append, count_ownId sha h, hs, hn]
      at hcount
    omega

theorem notTemp_own {id suffix : Bytes} (h : OwnId sha id) (hs : suffix.count 0x2E = 1) :
    isEvidenceTempFile (id ++ suffix) = false := by
  have hjpg : strstr (ascii ".jpg.tmp-") (id ++ suffix) = none := strstr_own sha h hs (by decide)
  have hjson : strstr (ascii ".json.tmp-") (id ++ suffix) = none := strstr_own sha h hs (by decide)
  rw [isEvidenceTempFile, hjpg, hjson]
  rfl

theorem evidenceIdFromSuffix_some {name suffix id : Bytes}
    (h : evidenceIdFromSuffix name suffix = some id) : name = id ++ suffix := by
  unfold evidenceIdFromSuffix at h
  split at h
  next hs =>
    dsimp only at h
    split at h
    next =>
      cases h
      obtain ⟨t, ht⟩ := List.isSuffixOf_iff_suffix.mp hs.2
      rw [← ht, List.length_append, Nat.add_sub_cancel, List.take_left']
      rfl
    next => cases h
  next => cases h

theorem keepFile_json {records : List MeEvidenceRecord} {id : Bytes} (h : OwnId sha id)
    (hrec : (Keyed.lookup recordId id records).isSome) : keepFile records (jsonName id) = true := by
  have htemp : isEvidenceTempFile (jsonName id) = false := notTemp_own sha h (by decide)
  rw [keepFile, htemp, if_neg Bool.false_ne_true]
  split
  next id' hid' => exact absurd (evidenceIdFromSuffix_some hid') (jsonName_ne_jpegName _ _)
  next =>
    split
    next id' hid' => rwa [← jsonName_inj (evidenceIdFromSuffix_some hid')]
    next => rfl

theorem keepFile_jpeg {records : List MeEvidenceRecord} {id : Bytes} (h : OwnId sha id)
    (hrec : (Keyed.lookup recordId id records).isSome) : keepFile records (jpegName id) = true := by
  have htemp : isEvidenceTempFile (jpegName id) = false := notTemp_own sha h (by decide)
  rw [keepFile, htemp, if_neg Bool.false_ne_true]
  split
  next id' hid' => rwa [← jpegName_inj (evidenceIdFromSuffix_some hid')]
  next =>
    split
    next id' hid' => exact absurd (evidenceIdFromSuffix_some hid').symm (jsonName_ne_jpegName _ _)
    next => rfl

/-! ## The invariant of the cache -/

/-- Ids are unique, and under an id the engine derives both files are complete. -/
structure Stored (cache : MeEvidenceCache) : Prop where
  unique : Keyed.Unique recordId cache.records
  complete : ∀ r ∈ cache.records, OwnId sha (recordId r) → Complete sha cache.files r

variable {sha} {cache : MeEvidenceCache}

theorem Stored.same {cache' : MeEvidenceCache} (h : Stored sha cache)
    (hrecords : cache'.records = cache.records) (hfiles : cache'.files = cache.files) :
    Stored sha cache' := by
  refine ⟨hrecords ▸ h.unique, fun r hr => ?_⟩
  rw [hfiles]
  exact h.complete r (hrecords ▸ hr)

theorem stored_cleaned {readable : Bytes → Bool} (h : LoadInv sha readable cache) :
    Stored sha { cache with files := cache.files.filter fun f => keepFile cache.records f.1 } := by
  refine ⟨h.unique, fun r hr hown => (h.loaded r hr).complete.same ?_⟩
  have hrec : (Keyed.lookup recordId (recordId r) cache.records).isSome := by
    rw [Keyed.lookup_of_mem h.unique hr]
    rfl
  constructor
  · exact Keyed.lookup_filter fun f hf => hf ▸ keepFile_json sha hown hrec
  · exact Keyed.lookup_filter fun f hf => hf ▸ keepFile_jpeg sha hown hrec

theorem sameFiles_removeRecord {r r' : MeEvidenceRecord} (h : recordId r' ≠ recordId r) :
    SameFiles (recordId r') cache.files (removeRecordLocked cache r).files :=
  sameFiles_unlink h cache

theorem stored_removeRecord (h : Stored sha cache) (r : MeEvidenceRecord) :
    Stored sha (removeRecordLocked cache r) := by
  refine ⟨h.unique.erase _, fun r' hr' hown => ?_⟩
  obtain ⟨hr', hne⟩ := Keyed.mem_erase.mp hr'
  exact (h.complete r' hr' hown).same (sameFiles_removeRecord hne)

theorem stored_removeRecords (rs : List MeEvidenceRecord) : ∀ {cache : MeEvidenceCache},
    Stored sha cache → Stored sha (rs.foldl removeRecordLocked cache) := by
  induction rs with
  | nil => exact fun h => h
  | cons r rs ih => exact fun h => ih (stored_removeRecord h r)

theorem stored_prune (h : Stored sha cache) (now : ℤ) : Stored sha (pruneExpiredLocked cache now) :=
  stored_removeRecords _ h

/-- **Opening**: what `load_records` accepted is published. -/
theorem stored_open {directory : Bytes} {maxBytes retentionS : ℕ} {files : List (Bytes × Bytes)}
    {readable : Bytes → Bool} {cleaned : Bool} {now : ℤ}
    (h : meEvidenceCacheOpen sha directory maxBytes retentionS files readable cleaned now =
      some cache) : Stored sha cache := by
  unfold meEvidenceCacheOpen at h
  split at h
  · cases h
  · dsimp only at h
    split at h
    · cases h
    · cases h
      exact stored_prune (stored_cleaned
        (loadInv_fold _ ⟨Keyed.unique_nil, fun r hr => absurd hr List.not_mem_nil⟩)) now

end FlowAlarm.Evidence
