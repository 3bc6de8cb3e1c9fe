import FlowAlarm.Evidence.Captures
import FlowAlarm.Evidence.FileNames
import FlowAlarm.Evidence.Metadata

/-!
# Records that survive a crash

A record is `Durable` while its two files are in the directory. Steps that
spare them keep it so, wherever the crash falls (`Durable.perform`). No call has
a step that touches a record of its table before it has expired
(`captureSteps_spare`, `pruneSteps_spare`), and opening takes every durable
record (`Durable.loadAll`). The count of bytes is `Accounted` all along.
-/

namespace FlowAlarm.Evidence

open FlowAlarm.Text FlowAlarm.Engine FlowAlarm.CJson FlowAlarm.Directory

/-! ## Durable records -/

/-- The record that comes back for `k`. -/
structure Agrees (k b : MeEvidenceRecord) : Prop where
  id : recordId b = recordId k
  bytes : b.bytes = k.bytes
  sha256 : b.sha256 = k.sha256
  expires : b.expiresAtUs = k.expiresAtUs

theorem Agrees.refl (k : MeEvidenceRecord) : Agrees k k := ⟨rfl, rfl, rfl, rfl⟩

theorem Agrees.expired {k b : MeEvidenceRecord} (h : Agrees k b) (now : ℤ) :
    expired now b = expired now k := by
  unfold Evidence.expired
  rw [h.expires]

/-- Both files of a record are in the directory: metadata it comes back from, and the JPEG with its
size and checksum. -/
structure Durable (sha : Sha256) (files : Files) (k : MeEvidenceRecord) : Prop where
  metadata : ∃ text b, Keyed.lookup Prod.fst (jsonName (recordId k)) files =
    some (jsonName (recordId k), text) ∧ readBack text = some b ∧ Agrees k b
  image : ∃ jpeg, Keyed.lookup Prod.fst (jpegName (recordId k)) files =
    some (jpegName (recordId k), jpeg) ∧ jpeg.length = k.bytes ∧
    strcasecmpEq (sha.hex jpeg) k.sha256 = true

variable {sha : Sha256} {files files' : Files} {k : MeEvidenceRecord}

theorem Durable.same (h : Durable sha files k) (hs : SameFiles (recordId k) files files') :
    Durable sha files' k := by
  obtain ⟨⟨text, b, htext, hb⟩, jpeg, hjpeg, hsum⟩ := h
  exact ⟨⟨text, b, hs.1.trans htext, hb⟩, jpeg, hs.2.trans hjpeg, hsum⟩

/-- A step leaves the files of an id alone. -/
def Spares (id : Bytes) (s : Step) : Prop :=
  ¬ s.touches (jsonName id) ∧ ¬ s.touches (jpegName id)

/-- **A crash between steps that spare a record leaves it durable.** -/
theorem Durable.perform (h : Durable sha files k) {steps : List Step}
    (hs : ∀ s ∈ steps, Spares (recordId k) s) : Durable sha (perform files steps) k :=
  h.same ⟨lookup_perform (fun s hm => (hs s hm).1) files,
    lookup_perform (fun s hm => (hs s hm).2) files⟩

/-- What holds of every result of the rest holds of every result. -/
theorem forall_bind {α β : Type} {P : β → Prop} {x : Option α} {f : α → Option β}
    (h : ∀ a, x = some a → ∀ r, f a = some r → P r) : ∀ r, x >>= f = some r → P r := fun r hr =>
  have ⟨a, ha, hf⟩ := Option.bind_eq_some_iff.mp hr
  h a ha r hf

theorem recordFromJson_id (j : Json) : ∀ r, recordFromJson j = some r → Nameable (recordId r) := by
  unfold recordFromJson
  refine forall_bind fun _ _ => forall_bind fun _ _ => forall_bind fun evidenceId hid =>
    forall_bind fun _ hvalid => ?_
  have hlen : evidenceId.bytes.length < Codec.meAnalyticsEvidenceIdMax := by
    unfold jsonString at hid
    split at hid
    · split at hid
      · cases hid
      · cases hid
        rw [CStr.snprintf, List.length_take]
        have : 0 < Codec.meAnalyticsEvidenceIdMax := by decide
        omega
    · cases hid
  have hcomp : validComponent evidenceId.bytes = true := by
    by_contra hne
    rw [guard, if_neg hne] at hvalid
    cases hvalid
  -- the fields after the id do not change it
  iterate 25 refine forall_bind fun _ _ => ?_
  dsimp only
  split
  · exact forall_bind fun _ _ r hr => by cases hr; exact ⟨hcomp, hlen⟩
  split
  · exact forall_bind fun _ _ r hr => by cases hr; exact ⟨hcomp, hlen⟩
  · exact forall_bind fun _ _ r hr => by cases hr; exact ⟨hcomp, hlen⟩

/-- What is read back has an id that fits its field. -/
theorem readBack_id {text : Bytes} {b : MeEvidenceRecord} (h : readBack text = some b) :
    Nameable (recordId b) :=
  have ⟨j, _, hj⟩ := Option.bind_eq_some_iff.mp h
  recordFromJson_id j b hj

theorem Durable.nameable (h : Durable sha files k) : Nameable (recordId k) := by
  obtain ⟨text, b, -, hb, ha⟩ := h.metadata
  exact ha.id ▸ readBack_id hb

/-- A loaded record is durable. -/
theorem Loaded.durable {readable : Bytes → Bool} {cache : MeEvidenceCache}
    (h : Loaded sha readable cache k) : Durable sha cache.files k := by
  obtain ⟨text, htext, hread⟩ := h.metadata
  exact ⟨⟨text, k, htext, hread, .refl k⟩, h.complete.image⟩

/-! ## What a step spares -/

theorem removeSteps_spare {directory id : Bytes} {r : MeEvidenceRecord} (h : id ≠ recordId r) :
    ∀ s ∈ removeSteps directory r, Spares id s := by
  intro s hs
  have himage : Spares id (.unlink (jpegName (recordId r))) :=
    ⟨fun he => jsonName_ne_jpegName _ _ he, fun he => h (jpegName_inj he)⟩
  have hmeta : Spares id (.unlink (jsonName (recordId r))) :=
    ⟨fun he => h (jsonName_inj he), fun he => jsonName_ne_jpegName _ _ he.symm⟩
  rcases List.mem_append.mp hs with hs | hs
  · split at hs
    · exact List.mem_singleton.mp hs ▸ himage
    · cases hs
  · exact List.mem_singleton.mp hs ▸ hmeta

/-- Pruning spares what has not expired. -/
theorem pruneSteps_spare {cache : MeEvidenceCache} (hu : Keyed.Unique recordId cache.records)
    {now : ℤ} (hk : k ∈ cache.records) (hexp : expired now k = false) :
    ∀ s ∈ pruneSteps cache now, Spares (recordId k) s := by
  intro s hs
  obtain ⟨r, hr, hs⟩ := List.mem_flatMap.mp hs
  obtain ⟨hr, hexpired⟩ := List.mem_filter.mp hr
  refine removeSteps_spare (fun he => ?_) s hs
  have hsame := Keyed.lookup_of_mem hu hr
  rw [← he, Keyed.lookup_of_mem hu hk] at hsame
  rw [← Option.some.inj hsame, hexp] at hexpired
  cases hexpired

theorem writing_spares {w : Writing} {path data id : Bytes} (hjson : path ≠ jsonName id)
    (hjpeg : path ≠ jpegName id) : ∀ s ∈ w.steps files path data, Spares id s := by
  refine fun s hs => ⟨fun ht => ?_, fun ht => ?_⟩
  · rcases touches_writeAtomic hs ht with he | he
    · exact temp_ne_json w path id he.symm
    · exact hjson he.symm
  · rcases touches_writeAtomic hs ht with he | he
    · exact temp_ne_jpeg w path id he.symm
    · exact hjpeg he.symm

/-- Publishing a record spares the others. -/
theorem publishSteps_spare {id id' jpeg text : Bytes} {wj wm : Writing} (h : id ≠ id') :
    ∀ s ∈ (publishSteps files id' jpeg text wj wm).1, Spares id s := by
  have hjson : jsonName id' ≠ jsonName id := fun he => h (jsonName_inj he).symm
  have hjpeg : jpegName id' ≠ jpegName id := fun he => h (jpegName_inj he).symm
  have himage : ∀ s ∈ wj.steps files (jpegName id') jpeg, Spares id s :=
    writing_spares (fun he => jsonName_ne_jpegName _ _ he.symm) hjpeg
  have hmeta : ∀ fs, ∀ s ∈ wm.steps fs (jsonName id') text, Spares id s := fun fs =>
    writing_spares hjson (jsonName_ne_jpegName _ _)
  have hfailed : ∀ s ∈ publishFailed id', Spares id s := by
    intro s hs
    simp only [publishFailed, List.mem_cons, List.not_mem_nil, or_false] at hs
    rcases hs with rfl | rfl
    · exact ⟨fun he => jsonName_ne_jpegName _ _ he, fun he => hjpeg he.symm⟩
    · exact ⟨fun he => hjson he.symm, fun he => jsonName_ne_jpegName _ _ he.symm⟩
  intro s hs
  unfold publishSteps at hs
  dsimp only at hs
  split at hs
  · exact (List.mem_append.mp hs).elim (himage s) (hfailed s)
  · split at hs
    · simp only [List.mem_append, or_self] at hs
      rcases hs with hs | hs | hs
      · exact himage s hs
      · exact hmeta _ s hs
      · exact hfailed s hs
    · exact (List.mem_append.mp hs).elim (himage s) (hmeta _ s)

/-- A capture spares what is in the table and has not expired. -/
theorem captureSteps_spare {cache : MeEvidenceCache} (hu : Keyed.Unique recordId cache.records)
    {event : MeAnalyticsEvent} {now : ℤ} {wj wm : Writing} (hk : k ∈ cache.records)
    (hexp : expired now k = false) :
    ∀ s ∈ (captureSteps sha cache event now wj wm).1, Spares (recordId k) s := by
  intro s hs
  unfold captureSteps at hs
  dsimp only at hs
  split at hs
  · cases hs
  split at hs
  · cases hs
  split at hs
  · cases hs
  next hnew =>
  split at hs
  · cases hs
  split at hs
  · cases hs
  next sel _ =>
  have hne : recordId k ≠ (evidenceIdOf sha event).bytes := fun he =>
    hnew (he ▸ Keyed.lookup_of_mem hu hk ▸ rfl)
  unfold selectedSteps at hs
  dsimp only at hs
  split at hs
  · cases hs
  split at hs
  · exact pruneSteps_spare hu hk hexp s hs
  · exact (List.mem_append.mp hs).elim (pruneSteps_spare hu hk hexp s) (publishSteps_spare hne s)

/-! ## What pruning leaves -/

/-- What pruning does to the cache. -/
theorem removeAll_shape (rs : List MeEvidenceRecord) (cache : MeEvidenceCache) :
    ∃ files stored records, rs.foldl removeRecordLocked cache = { cache with
      files := files, storedBytes := stored, records := records } := by
  induction rs generalizing cache with
  | nil => exact ⟨_, _, _, rfl⟩
  | cons r rs ih =>
    obtain ⟨_, _, _, hrest⟩ := ih (removeRecordLocked cache r)
    exact ⟨_, _, _, hrest⟩

theorem mem_removeAll {rs : List MeEvidenceRecord} {cache : MeEvidenceCache}
    (h : k ∈ (rs.foldl removeRecordLocked cache).records) : k ∈ cache.records := by
  induction rs generalizing cache with
  | nil => exact h
  | cons r rs ih => exact (Keyed.mem_erase.mp (ih h)).1

theorem prune_directory (cache : MeEvidenceCache) (now : ℤ) :
    (pruneExpiredLocked cache now).directory = cache.directory := by
  obtain ⟨_, _, _, h⟩ := removeAll_shape (cache.records.filter (expired now)) cache
  rw [pruneExpiredLocked, h]

theorem mem_prune {cache : MeEvidenceCache} (hu : Keyed.Unique recordId cache.records) {now : ℤ} :
    k ∈ (pruneExpiredLocked cache now).records ↔ k ∈ cache.records ∧ expired now k = false := by
  have hlookup := lookup_prune hu (recordId k) now
  constructor
  · intro hk
    have hnone : Keyed.lookup recordId (recordId k) (pruneExpiredLocked cache now).records ≠ none :=
      fun h => Keyed.lookup_eq_none.mp h k hk rfl
    have hsub : k ∈ cache.records := mem_removeAll hk
    refine ⟨hsub, ?_⟩
    rw [hlookup, Keyed.lookup_of_mem hu hsub, Option.filter_some] at hnone
    by_contra hexp
    rw [if_neg (by simpa using hexp)] at hnone
    exact hnone rfl
  · rintro ⟨hk, hexp⟩
    rw [Keyed.lookup_of_mem hu hk, Option.filter_some, hexp] at hlookup
    exact Keyed.lookup_mem hlookup

/-! ## Opening -/

theorem Durable.recordImage (h : Durable sha files k) {cache : MeEvidenceCache}
    (hfiles : cache.files = files) (hshort : ShortPaths cache.directory) :
    ∃ jpeg, recordImage cache (fun _ => true) (recordId k) = some jpeg ∧ jpeg.length = k.bytes ∧
      strcasecmpEq (sha.hex jpeg) k.sha256 = true := by
  obtain ⟨jpeg, hjpeg, hsize, hsum⟩ := h.image
  refine ⟨jpeg, ?_, hsize, hsum⟩
  rw [Evidence.recordImage, if_pos ⟨hshort _ h.nameable.2, rfl⟩, hfiles, hjpeg]
  rfl

/-- Loading a durable record takes what its metadata says and removes nothing. -/
theorem Durable.load (h : Durable sha files k) {cache : MeEvidenceCache}
    (hfiles : cache.files = files) (hshort : ShortPaths cache.directory) :
    loadSteps sha (fun _ => true) cache (jsonName (recordId k)) = [] ∧ ∃ b, Agrees k b ∧
      loadRecord sha (fun _ => true) cache (jsonName (recordId k)) = { cache with
        storedBytes := cache.storedBytes + b.bytes
        records := Keyed.insert recordId b cache.records } := by
  obtain ⟨text, b, htext, hread, hagrees⟩ := h.metadata
  obtain ⟨jpeg, hjpeg, hsize, hsum⟩ := h.recordImage hfiles hshort
  have hread : (parseWithLength text).bind recordFromJson = some b := hread
  have hgood : ¬ (jpeg.length ≠ b.bytes ∨ (!strcasecmpEq (sha.hex jpeg) b.sha256) = true) := by
    rw [hagrees.bytes, hagrees.sha256, hsum, hsize]
    simp
  have hid : ¬ recordId b ≠ recordId k := not_not.mpr hagrees.id
  rw [← hfiles] at htext
  constructor
  · unfold loadSteps
    rw [metadataId_jsonName_eq h.nameable.1]
    simp only [Bool.not_true, Bool.false_eq_true, if_false, htext, hread, if_neg hid, hjpeg,
      if_neg hgood]
  · refine ⟨b, hagrees, ?_⟩
    unfold loadRecord
    rw [metadataId_jsonName_eq h.nameable.1]
    simp only [Bool.not_true, Bool.false_eq_true, if_false, htext, hread, if_neg hid, hjpeg,
      if_neg hgood]

theorem loadSteps_other {readable : Bytes → Bool} {cache : MeEvidenceCache} {name id : Bytes}
    (h : name ≠ jsonName id) : ∀ s ∈ loadSteps sha readable cache name, Spares id s := by
  intro s hs
  unfold loadSteps at hs
  split at hs
  · cases hs
  next id' hid' =>
  obtain rfl := (metadataId_some hid').1
  have hne : id ≠ id' := fun he => h (he ▸ rfl)
  have hmeta : Spares id (.unlink (jsonName id')) :=
    ⟨fun he => h he.symm, fun he => jsonName_ne_jpegName _ _ he.symm⟩
  have hboth : s ∈ (Step.unlink (jsonName id') ::
      if (buildFilename cache.directory (jpegName id')).length < meEvidencePathMax then
        [Step.unlink (jpegName id')] else []) → Spares id s := by
    intro hs
    rcases List.mem_cons.mp hs with rfl | hs
    · exact hmeta
    · split at hs
      · rw [List.mem_singleton.mp hs]
        exact ⟨fun he => jsonName_ne_jpegName _ _ he, fun he => hne (jpegName_inj he)⟩
      · cases hs
  dsimp only at hs
  split at hs
  · cases hs
  split at hs
  · cases hs
  split at hs
  · exact List.mem_singleton.mp hs ▸ hmeta
  split at hs
  · exact List.mem_singleton.mp hs ▸ hmeta
  split at hs
  · exact hboth hs
  split at hs
  · exact hboth hs
  · cases hs

variable (sha) in
/-- What loading does to the cache. -/
theorem loadRecord_shape (readable : Bytes → Bool) (cache : MeEvidenceCache) (name : Bytes) :
    ∃ files stored records, loadRecord sha readable cache name = { cache with
      files := files, storedBytes := stored, records := records } := by
  unfold loadRecord
  split
  · exact ⟨_, _, _, rfl⟩
  split
  · exact ⟨_, _, _, rfl⟩
  split
  · exact ⟨_, _, _, rfl⟩
  split
  · exact ⟨_, _, _, rfl⟩
  split
  · exact ⟨_, _, _, rfl⟩
  split
  · exact ⟨_, _, _, rfl⟩
  split <;> exact ⟨_, _, _, rfl⟩

variable (sha) in
theorem loadFold_shape (readable : Bytes → Bool) (names : List Bytes) (cache : MeEvidenceCache) :
    ∃ files stored records, names.foldl (loadRecord sha readable) cache = { cache with
      files := files, storedBytes := stored, records := records } := by
  induction names generalizing cache with
  | nil => exact ⟨_, _, _, rfl⟩
  | cons name names ih =>
    obtain ⟨_, _, _, hstep⟩ := loadRecord_shape sha readable cache name
    obtain ⟨_, _, _, hrest⟩ := ih (loadRecord sha readable cache name)
    exact ⟨_, _, _, by rw [List.foldl_cons, hrest, hstep]⟩

variable (sha) in
/-- What one file does to the table and the count: nothing, or it puts its record in. -/
theorem loadRecord_table (readable : Bytes → Bool) (cache : MeEvidenceCache) (name : Bytes) :
    let cache' := loadRecord sha readable cache name
    (cache'.records = cache.records ∧ cache'.storedBytes = cache.storedBytes) ∨
      ∃ r, name = jsonName (recordId r) ∧ cache'.records = Keyed.insert recordId r cache.records ∧
        cache'.storedBytes = cache.storedBytes + r.bytes := by
  dsimp only
  unfold loadRecord
  split
  · exact .inl ⟨rfl, rfl⟩
  next hid =>
  split
  · exact .inl ⟨rfl, rfl⟩
  split
  · exact .inl ⟨rfl, rfl⟩
  split
  · exact .inl ⟨rfl, rfl⟩
  next r _ =>
  split
  · exact .inl ⟨rfl, rfl⟩
  next hr =>
  split
  · exact .inl ⟨rfl, rfl⟩
  split
  · exact .inl ⟨rfl, rfl⟩
  · exact .inr ⟨r, by rw [not_not.mp hr]; exact (metadataId_some hid).1, rfl, rfl⟩

theorem loadRecord_other {readable : Bytes → Bool} {cache : MeEvidenceCache} {name id : Bytes}
    (h : name ≠ jsonName id) :
    Keyed.lookup recordId id (loadRecord sha readable cache name).records =
      Keyed.lookup recordId id cache.records := by
  rcases loadRecord_table sha readable cache name with ⟨hrec, -⟩ | ⟨r, hr, hrec, -⟩
  · rw [hrec]
  · have hne : recordId r ≠ id := fun he => h (he ▸ hr)
    rw [hrec, Keyed.lookup_insert, if_neg hne]

/-- Between the files of `load_records`, a durable record stays so. -/
theorem Durable.loaded (h : Durable sha files k) {cache : MeEvidenceCache}
    (hfiles : cache.files = files) (hshort : ShortPaths cache.directory) (name : Bytes) :
    Durable sha (loadRecord sha (fun _ => true) cache name).files k ∧
      ∀ s ∈ loadSteps sha (fun _ => true) cache name, Spares (recordId k) s := by
  have hspare : ∀ s ∈ loadSteps sha (fun _ => true) cache name, Spares (recordId k) s := by
    by_cases hname : name = jsonName (recordId k)
    · rw [hname, (h.load hfiles hshort).1]
      exact fun s hs => absurd hs List.not_mem_nil
    · exact loadSteps_other hname
  rw [← perform_loadSteps]
  exact ⟨(hfiles ▸ h).perform hspare, hspare⟩

/-- **Loading spares a durable record, and takes it once it comes to its metadata.** -/
theorem Durable.loadAll (names : List Bytes) {cache : MeEvidenceCache}
    (h : Durable sha cache.files k) (hshort : ShortPaths cache.directory) :
    (∀ s ∈ loadAllSteps sha (fun _ => true) cache names, Spares (recordId k) s) ∧
      ((jsonName (recordId k) ∈ names ∨ ∃ b,
          Keyed.lookup recordId (recordId k) cache.records = some b ∧ Agrees k b) → ∃ b,
        Keyed.lookup recordId (recordId k)
          (names.foldl (loadRecord sha (fun _ => true)) cache).records = some b ∧ Agrees k b) := by
  induction names generalizing cache with
  | nil => exact ⟨fun s hs => absurd hs List.not_mem_nil, fun h => h.resolve_left List.not_mem_nil⟩
  | cons name names ih =>
    obtain ⟨hstay, hspare⟩ := h.loaded rfl hshort name
    have hdir : (loadRecord sha (fun _ => true) cache name).directory = cache.directory := by
      obtain ⟨_, _, _, hshape⟩ := loadRecord_shape sha (fun _ => true) cache name
      rw [hshape]
    obtain ⟨hsteps, hfound⟩ := ih hstay (hdir ▸ hshort)
    refine ⟨fun s hs => ?_, fun hk => hfound ?_⟩
    · rw [loadAllSteps] at hs
      exact (List.mem_append.mp hs).elim (hspare s) (hsteps s)
    by_cases hname : name = jsonName (recordId k)
    · obtain ⟨b, hb, heq⟩ := (h.load rfl hshort).2
      refine .inr ⟨b, ?_, hb⟩
      rw [hname, heq]
      exact Keyed.lookup_insert.trans (if_pos hb.id)
    · rw [loadRecord_other hname]
      exact hk.imp_left fun hm => (List.mem_cons.mp hm).resolve_left (Ne.symm hname)

/-! ## Accounting -/

/-- What the records of a table take together. -/
def total (records : List MeEvidenceRecord) : ℕ := (records.map (·.bytes)).sum

theorem total_erase {records : List MeEvidenceRecord} (hu : Keyed.Unique recordId records)
    {r : MeEvidenceRecord} (hr : r ∈ records) :
    total records = r.bytes + total (Keyed.erase recordId (recordId r) records) := by
  have hperm := Keyed.perm_cons_erase hu (Keyed.lookup_of_mem hu hr)
  rw [total, (hperm.map _).sum_eq, List.map_cons, List.sum_cons]
  rfl

theorem total_insert {records : List MeEvidenceRecord} {r : MeEvidenceRecord}
    (h : Keyed.lookup recordId (recordId r) records = none) :
    total (Keyed.insert recordId r records) = r.bytes + total records := by
  rw [Keyed.insert, Keyed.erase_of_lookup_eq_none h, total, List.map_cons, List.sum_cons]
  rfl

/-- The count is the sum over the table, where an id stands once. -/
structure Accounted (cache : MeEvidenceCache) : Prop where
  unique : Keyed.Unique recordId cache.records
  stored : cache.storedBytes = total cache.records

theorem Accounted.remove {cache : MeEvidenceCache} (h : Accounted cache) {r : MeEvidenceRecord}
    (hr : r ∈ cache.records) : Accounted (removeRecordLocked cache r) := by
  refine ⟨h.unique.erase _, ?_⟩
  show cache.storedBytes - r.bytes = _
  rw [h.stored, total_erase h.unique hr, Nat.add_sub_cancel_left]
  rfl

theorem Accounted.removeAll (rs : List MeEvidenceRecord) {cache : MeEvidenceCache}
    (h : Accounted cache) (hrs : ∀ r ∈ rs, r ∈ cache.records) (hu : Keyed.Unique recordId rs) :
    Accounted (rs.foldl removeRecordLocked cache) := by
  induction rs generalizing cache with
  | nil => exact h
  | cons r rs ih =>
    obtain ⟨hr, hrest⟩ := List.forall_mem_cons.mp hrs
    rw [Keyed.Unique, List.map_cons, List.nodup_cons] at hu
    refine ih (h.remove hr) (fun r' hr' => Keyed.mem_erase.mpr ⟨hrest r' hr', fun he => ?_⟩) hu.2
    exact hu.1 (he ▸ List.mem_map_of_mem hr')

theorem Accounted.prune {cache : MeEvidenceCache} (h : Accounted cache) (now : ℤ) :
    Accounted (pruneExpiredLocked cache now) :=
  h.removeAll _ (fun _ hr => List.mem_of_mem_filter hr)
    (h.unique.sublist (List.filter_sublist.map recordId))

theorem storedBytes_removeAll (rs : List MeEvidenceRecord) (cache : MeEvidenceCache) :
    (rs.foldl removeRecordLocked cache).storedBytes ≤ cache.storedBytes := by
  induction rs generalizing cache with
  | nil => exact le_rfl
  | cons r rs ih => exact (ih (removeRecordLocked cache r)).trans (Nat.sub_le _ _)

theorem storedBytes_prune (cache : MeEvidenceCache) (now : ℤ) :
    (pruneExpiredLocked cache now).storedBytes ≤ cache.storedBytes := storedBytes_removeAll _ cache

theorem Accounted.loadAll (readable : Bytes → Bool) (names : List Bytes) {cache : MeEvidenceCache}
    (h : Accounted cache) (hnew : ∀ r ∈ cache.records, jsonName (recordId r) ∉ names)
    (hu : names.Nodup) : Accounted (names.foldl (loadRecord sha readable) cache) := by
  induction names generalizing cache with
  | nil => exact h
  | cons name names ih =>
    obtain ⟨hname, hrest⟩ := List.nodup_cons.mp hu
    rcases loadRecord_table sha readable cache name with
      ⟨hrec, hcount⟩ | ⟨r, rfl, hrec, hcount⟩
    · refine ih ⟨hrec ▸ h.unique, by rw [hcount, hrec, h.stored]⟩ (fun r hr hm => ?_) hrest
      exact hnew r (hrec ▸ hr) (List.mem_cons_of_mem _ hm)
    · have hfresh : Keyed.lookup recordId (recordId r) cache.records = none :=
        Keyed.lookup_eq_none.mpr fun r' hr' he => hnew r' hr' (he ▸ List.mem_cons_self)
      refine ih ⟨hrec ▸ h.unique.insert r, ?_⟩ (fun r' hr' hm => ?_) hrest
      · rw [hcount, hrec, total_insert hfresh, h.stored, Nat.add_comm]
      · rw [hrec] at hr'
        rcases Keyed.mem_insert hr' with rfl | hr'
        · exact hname hm
        · exact hnew r' hr' (List.mem_cons_of_mem _ hm)

end FlowAlarm.Evidence
