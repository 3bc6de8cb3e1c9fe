import FlowAlarm.Evidence.FileSteps

/-!
# The names of the cache's files

A record has `<id>.jpg` and `<id>.json`; while one is written it stands under a
temporary name. `cleanup_orphan_files` tells them apart by their marks, which it
finds in the right place exactly if the id has none itself (`isTemp_temp`,
`keepFile_iff`).
-/

namespace FlowAlarm.Evidence

open FlowAlarm.Text FlowAlarm.Directory

/-- An id without the mark of a temporary file. -/
def Unmarked (id : Bytes) : Prop := ¬ ascii ".jpg.tmp-" <:+: id ∧ ¬ ascii ".json.tmp-" <:+: id

instance (id : Bytes) : Decidable (Unmarked id) := inferInstanceAs (Decidable (_ ∧ _))

/-- A mark does not reach into a text without its last character. -/
theorem infix_of_append {m id tail : Bytes} (ht : 0x2D ∉ tail)
    (h : m ++ [0x2D] <:+: id ++ tail) : m ++ [0x2D] <:+: id := by
  obtain ⟨front, rest, h⟩ := h
  rcases List.append_eq_append_iff.mp h with ⟨a, ha, -⟩ | ⟨c, hc, hr⟩
  · exact ⟨front, a, ha.symm⟩
  · rcases List.eq_nil_or_concat' c with rfl | ⟨c, b, rfl⟩
    · rw [List.append_nil] at hc
      exact ⟨front, [], by rw [List.append_nil, hc]⟩
    · -- the last character of the mark would stand in the tail
      rw [← List.append_assoc, ← List.append_assoc] at hc
      have hb : 0x2D = b := by simpa using (List.append_inj' hc rfl).2
      exact absurd (by rw [hr, ← hb]; simp) ht

theorem strstr_eq_none {needle s : Bytes} (h : ¬ needle <:+: s) : strstr needle s = none := by
  cases hf : strstr needle s with
  | none => rfl
  | some front =>
    obtain ⟨rest, hrest⟩ := strstr_infix hf
    exact absurd ⟨front, rest, hrest.symm⟩ h

/-- The first mark of a temporary name is the one behind the id. -/
theorem strstr_mark {m id : Bytes} (hm : 0x2D ∉ m) (hid : ¬ m ++ [0x2D] <:+: id) (tail : Bytes) :
    strstr (m ++ [0x2D]) (id ++ (m ++ [0x2D] ++ tail)) = some id := by
  induction id with
  | nil =>
    obtain ⟨b, s, hs⟩ : ∃ b s, m ++ [0x2D] ++ tail = b :: s := by
      cases m with
      | nil => exact ⟨_, _, rfl⟩
      | cons b m => exact ⟨_, _, rfl⟩
    rw [List.nil_append, hs, strstr, if_pos]
    rw [← hs]
    exact List.isPrefixOf_iff_prefix.mpr ⟨tail, rfl⟩
  | cons b id ih =>
    rw [List.cons_append, strstr, if_neg, ih fun h => hid (h.trans (List.suffix_cons b id).isInfix)]
    · rfl
    · intro hp
      have hp : m ++ [0x2D] <+: (b :: id ++ m) ++ ([0x2D] ++ tail) := by
        have := List.isPrefixOf_iff_prefix.mp hp
        simpa using this
      have hp := List.prefix_of_prefix_length_le hp (List.prefix_append (b :: id ++ m) _)
        (by simp)
      exact hid (infix_of_append hm hp.isInfix)

/-- Every path of a cache in the directory fits its field. -/
def ShortPaths (directory : Bytes) : Prop :=
  ∀ id : Bytes, id.length < Codec.meAnalyticsEvidenceIdMax →
    (buildFilename directory (jpegName id)).length < meEvidencePathMax

theorem alnum_dot : alnum 0x2E = false := by decide

/-- A temporary name has no suffix with a dot near its end. -/
theorem temp_suffix (w : Writing) (path : Bytes) {tail : Bytes} (hlen : tail.length ≤ 6)
    (hdot : 0x2E ∈ tail) : ¬ tail <:+ w.temp path := by
  intro h
  have hs : w.suffix <:+ w.temp path :=
    ⟨path ++ ascii ".tmp-", by rw [Writing.temp, List.append_assoc]⟩
  have htail : tail <:+ w.suffix :=
    List.suffix_of_suffix_length_le h hs (by rw [w.length_suffix]; exact hlen)
  have := w.alnum_suffix _ (htail.subset hdot)
  rw [alnum_dot] at this
  cases this

theorem temp_ne_json (w : Writing) (path id : Bytes) : w.temp path ≠ jsonName id := fun h =>
  temp_suffix w path (by decide : (ascii ".json").length ≤ 6) (by decide) (h ▸ ⟨id, rfl⟩)

theorem temp_ne_jpeg (w : Writing) (path id : Bytes) : w.temp path ≠ jpegName id := fun h =>
  temp_suffix w path (by decide : (ascii ".jpg").length ≤ 6) (by decide) (h ▸ ⟨id, rfl⟩)

theorem temp_inj {w w' : Writing} {path path' : Bytes} (h : w.temp path = w'.temp path') :
    path = path' :=
  (List.append_inj' h (by
    rw [List.length_append, List.length_append, w.length_suffix, w'.length_suffix])).1

theorem notTemp_unmarked {id tail : Bytes} (h : Unmarked id) (ht : 0x2D ∉ tail) :
    isEvidenceTempFile (id ++ tail) = false := by
  have hjpg : strstr (ascii ".jpg.tmp-") (id ++ tail) = none :=
    strstr_eq_none fun hi => h.1 (infix_of_append (m := ascii ".jpg.tmp") ht hi)
  have hjson : strstr (ascii ".json.tmp-") (id ++ tail) = none :=
    strstr_eq_none fun hi => h.2 (infix_of_append (m := ascii ".json.tmp") ht hi)
  rw [isEvidenceTempFile, hjpg, hjson]
  rfl

/-- An id of the cache's files: it fits its field and is no path. -/
def Nameable (id : Bytes) : Prop :=
  validComponent id = true ∧ id.length < Codec.meAnalyticsEvidenceIdMax

theorem Nameable.ne_nil {id : Bytes} (h : Nameable id) : id ≠ [] := by
  rintro rfl
  exact absurd h.1 (by decide)

theorem alnum_dash : alnum 0x2D = false := by decide

theorem Writing.no_dash (w : Writing) : 0x2D ∉ w.suffix := fun h => by
  have := w.alnum_suffix _ h
  rw [alnum_dash] at this
  cases this

theorem isTemp_of_strstr {name id : Bytes} (hid : Nameable id) (hlen : id.length + 9 < name.length)
    (h : (strstr (ascii ".jpg.tmp-") name).or (strstr (ascii ".json.tmp-") name) = some id) :
    isEvidenceTempFile name = true := by
  have hdrop : name.drop (id.length + 9) ≠ [] := fun he => by
    have := List.drop_eq_nil_iff.mp he
    omega
  rw [isEvidenceTempFile, h]
  simp only [Bool.and_eq_true, bne_iff_ne, decide_eq_true_eq]
  exact ⟨⟨⟨hid.ne_nil, hdrop⟩, hid.2⟩, hid.1⟩

/-- **A temporary file of an unmarked id is known as one.** -/
theorem isTemp_temp (w : Writing) {id : Bytes} (hm : Unmarked id) (hid : Nameable id) :
    isEvidenceTempFile (w.temp (jpegName id)) = true ∧
      isEvidenceTempFile (w.temp (jsonName id)) = true := by
  have hjpg : w.temp (jpegName id) = id ++ (ascii ".jpg.tmp-" ++ w.suffix) := by
    rw [Writing.temp, jpegName, List.append_assoc, ← List.append_assoc (ascii ".jpg")]
    rfl
  have hjson : w.temp (jsonName id) = id ++ (ascii ".json.tmp-" ++ w.suffix) := by
    rw [Writing.temp, jsonName, List.append_assoc, ← List.append_assoc (ascii ".json")]
    rfl
  have h9 : (ascii ".jpg.tmp-").length = 9 := by decide
  have h10 : (ascii ".json.tmp-").length = 10 := by decide
  constructor
  · refine isTemp_of_strstr hid ?_ ?_
    · rw [hjpg, List.length_append, List.length_append, h9, w.length_suffix]
      omega
    · have hfound := strstr_mark (m := ascii ".jpg.tmp") (by decide) hm.1 w.suffix
      rw [hjpg, show ascii ".jpg.tmp-" = ascii ".jpg.tmp" ++ [0x2D] from rfl, hfound, Option.some_or]
  · refine isTemp_of_strstr hid ?_ ?_
    · rw [hjson, List.length_append, List.length_append, h10, w.length_suffix]
      omega
    · have hfound := strstr_mark (m := ascii ".json.tmp") (by decide) hm.2 w.suffix
      have hnone : strstr (ascii ".jpg.tmp-") (id ++ (ascii ".json.tmp-" ++ w.suffix)) = none := by
        refine strstr_eq_none fun hi => ?_
        rw [← List.append_assoc] at hi
        obtain ⟨front, rest, hi⟩ := infix_of_append (m := ascii ".jpg.tmp") w.no_dash hi
        rcases List.eq_nil_or_concat' rest with rfl | ⟨rest, b, rfl⟩
        · -- the two marks end alike but for one letter
          have hsuffix : ascii ".jpg.tmp-" <:+ id ++ ascii ".json.tmp-" :=
            ⟨front, by rw [← hi, List.append_nil]; rfl⟩
          have hsuffix := List.suffix_of_suffix_length_le hsuffix
            (List.suffix_append id (ascii ".json.tmp-")) (by decide)
          exact absurd hsuffix (by decide)
        · have hinit : front ++ (ascii ".jpg.tmp" ++ [0x2D]) ++ rest = id ++ ascii ".json.tmp" := by
            have : front ++ (ascii ".jpg.tmp" ++ [0x2D]) ++ rest ++ [b] =
                id ++ ascii ".json.tmp" ++ [0x2D] := by
              rw [List.append_assoc _ rest, hi, List.append_assoc id]
              rfl
            exact (List.append_inj' this rfl).1
          exact hm.1 (infix_of_append (m := ascii ".jpg.tmp") (by decide) ⟨front, rest, hinit⟩)
      rw [hjson, hnone, Option.none_or]
      exact hfound

theorem evidenceIdFromSuffix_append {id tail : Bytes} (hid : Nameable id) :
    evidenceIdFromSuffix (id ++ tail) tail = some id := by
  have hpos : 0 < id.length := List.length_pos_of_ne_nil hid.ne_nil
  have htake : (id ++ tail).take ((id ++ tail).length - tail.length) = id := by
    rw [List.length_append, Nat.add_sub_cancel, List.take_left]
  unfold evidenceIdFromSuffix
  rw [if_pos ⟨by rw [List.length_append]; omega, List.isSuffixOf_iff_suffix.mpr ⟨id, rfl⟩⟩]
  dsimp only
  rw [htake, if_pos ⟨hid.2, hid.1⟩]

theorem evidenceIdFromSuffix_json (id : Bytes) :
    evidenceIdFromSuffix (jsonName id) (ascii ".jpg") = none := by
  cases h : evidenceIdFromSuffix (jsonName id) (ascii ".jpg") with
  | none => rfl
  | some id' => exact absurd (evidenceIdFromSuffix_some h) (jsonName_ne_jpegName _ _)

/-- The cleaning keeps exactly the files of the ids with a record. -/
theorem keepFile_iff (records : List MeEvidenceRecord) {id : Bytes} (hm : Unmarked id)
    (hid : Nameable id) :
    (keepFile records (jpegName id) = true ↔ (Keyed.lookup recordId id records).isSome = true) ∧
      (keepFile records (jsonName id) = true ↔
        (Keyed.lookup recordId id records).isSome = true) := by
  have hjpg : isEvidenceTempFile (jpegName id) = false := notTemp_unmarked hm (by decide)
  have hjson : isEvidenceTempFile (jsonName id) = false := notTemp_unmarked hm (by decide)
  have hfst : evidenceIdFromSuffix (jpegName id) (ascii ".jpg") = some id :=
    evidenceIdFromSuffix_append hid
  have hsnd : evidenceIdFromSuffix (jsonName id) (ascii ".json") = some id :=
    evidenceIdFromSuffix_append hid
  constructor
  · rw [keepFile, hjpg, if_neg Bool.false_ne_true, hfst]
  · rw [keepFile, hjson, if_neg Bool.false_ne_true, evidenceIdFromSuffix_json, hsnd]

theorem metadataId_jsonName_eq {id : Bytes} (h : validComponent id = true) :
    metadataId (jsonName id) = some id := by
  have hs : (ascii ".json").isSuffixOf (jsonName id) = true :=
    List.isSuffixOf_iff_suffix.mpr ⟨id, rfl⟩
  have hlen : (jsonName id).length - 5 = id.length := by
    have : (ascii ".json").length = 5 := by decide
    rw [jsonName, List.length_append, this]
    omega
  have htake : (jsonName id).take ((jsonName id).length - 5) = id := by
    rw [hlen, jsonName, List.take_left]
  unfold metadataId
  rw [if_pos hs]
  dsimp only
  rw [htake, if_pos h]

/-- The names the cache gives to files of an id: the two files and their temporary ones. -/
def Owned (id name : Bytes) : Prop :=
  ∃ path, (path = jpegName id ∨ path = jsonName id) ∧
    (name = path ∨ ∃ w : Writing, name = w.temp path)

theorem temp_ne_path (w : Writing) {path path' id : Bytes}
    (h : path' = jpegName id ∨ path' = jsonName id) : w.temp path ≠ path' := by
  rcases h with rfl | rfl
  · exact temp_ne_jpeg w path id
  · exact temp_ne_json w path id

theorem Owned.inj {id id' name : Bytes} (h : Owned id name) (h' : Owned id' name) : id = id' := by
  obtain ⟨path, hpath, hname⟩ := h
  obtain ⟨path', hpath', hname'⟩ := h'
  have hsame : path = path' := by
    rcases hname with rfl | ⟨w, rfl⟩
    · rcases hname' with rfl | ⟨w, hw⟩
      · rfl
      · exact absurd hw.symm (temp_ne_path w hpath)
    · rcases hname' with hw | ⟨w', hw⟩
      · exact absurd hw (temp_ne_path w hpath')
      · exact temp_inj hw
  rcases hpath with rfl | rfl <;> rcases hpath' with he | he <;> rw [he] at hsame
  · exact jpegName_inj hsame
  · exact absurd hsame.symm (jsonName_ne_jpegName _ _)
  · exact absurd hsame (jsonName_ne_jpegName _ _)
  · exact jsonName_inj hsame

/-- No file of the cache's naming has a marked id. -/
def Plain (files : Files) : Prop := ∀ f ∈ files, ∀ id, Owned id f.1 → Unmarked id

end FlowAlarm.Evidence
