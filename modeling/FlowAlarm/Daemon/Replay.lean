import FlowAlarm.Daemon.Outbox

/-!
# Replaying a journal file

A file that consists of the lines of portable entries is `Recorded` with the
memory they replay to, and `load` finds that memory (`load_recorded`). A file
with a cut last line loads as if the line were not there, and the file loses
it; unless only the newline is missing (`load_torn`).
-/

namespace FlowAlarm.Outbox

open FlowAlarm.Text FlowAlarm.Media

/-! ## Well-formed memories -/

/-- The parts of a valid record. -/
structure Valid (r : Record) : Prop where
  key : r.key ≠ []
  eventID : r.event.eventID ≠ []
  channelID : r.event.channelID ≠ []
  eventSeq : r.event.eventSeq ≠ 0
  phase : knownPhase r.event.phase = true
  alarm : validateAlarm r.alarmState r.alarmSN = none
  evidence : validateEvidence r.evidenceState = none
  alarmAttempts : 0 ≤ r.alarmAttempts
  alarmRetry : 0 ≤ r.alarmNextRetryAtUnixNano
  evidenceAttempts : 0 ≤ r.evidenceAttempts
  evidenceRetry : 0 ≤ r.evidenceNextRetryAtUnixNano

theorem validateRecord_eq_none {r : Record} : validateRecord r = none ↔ Valid r := by
  unfold validateRecord
  constructor
  · intro h
    split at h
    · cases h
    next h1 =>
    split at h
    · cases h
    next h2 =>
    split at h
    · cases h
    next h3 =>
    split at h
    · cases h
    next h4 =>
    split at h
    · cases h
    next h5 =>
    split at h
    · cases h
    next h6 =>
    simp only [not_or, not_lt, Bool.not_eq_false] at h1 h3 h6
    exact ⟨h1.1, h1.2.1, h1.2.2, h2, h3, h4, h5, h6.1, h6.2.1, h6.2.2.1, h6.2.2.2⟩
  · intro h
    have h1 : ¬ (r.key = [] ∨ r.event.eventID = [] ∨ r.event.channelID = []) := by
      simp only [not_or]
      exact ⟨h.key, h.eventID, h.channelID⟩
    have h3 : ¬ knownPhase r.event.phase = false := by simp [h.phase]
    have h6 : ¬ (r.alarmAttempts < 0 ∨ r.alarmNextRetryAtUnixNano < 0 ∨ r.evidenceAttempts < 0 ∨
        r.evidenceNextRetryAtUnixNano < 0) := by
      simp only [not_or, not_lt]
      exact ⟨h.alarmAttempts, h.alarmRetry, h.evidenceAttempts, h.evidenceRetry⟩
    simp only [if_neg h1, if_neg h.eventSeq, if_neg h3, h.alarm, h.evidence, if_neg h6]

/-- A record as the store keeps it. -/
structure Good (deviceID : Bytes) (r : Record) : Prop where
  portable : r.Portable
  valid : Valid r
  key : r.key = keyOf deviceID r.event

theorem Good.cleaned {deviceID : Bytes} {r : Record} (h : Good deviceID r) : Good deviceID r.clean :=
  ⟨h.portable.cleaned, { h.valid with }, h.key⟩

/-- A memory as the store keeps it. -/
structure WF (deviceID : Bytes) (m : Memory) : Prop where
  unique : Keyed.Unique Record.key m.records
  good : ∀ r ∈ m.records, Good deviceID r
  nextAlarmSN : badAlarmSN m.nextAlarmSN = false
  lastAck : m.lastAck < 2 ^ 64
  droppedUpdates : m.droppedUpdates < 2 ^ 64

theorem wf_init (deviceID : Bytes) : WF deviceID .init :=
  ⟨Keyed.unique_nil, by simp [Memory.init], rfl, by decide, by decide⟩

theorem WF.lookup_good {deviceID key : Bytes} {m : Memory} {r : Record} (h : WF deviceID m)
    (hr : lookup key m.records = some r) : Good deviceID r := h.good r (Keyed.lookup_mem hr)

theorem WF.insert {deviceID : Bytes} {m : Memory} {r : Record} (h : WF deviceID m)
    (hr : Good deviceID r) : WF deviceID { m with records := Keyed.insert Record.key r m.records } :=
  { h with
    unique := h.unique.insert r
    good := fun x hx => (Keyed.mem_insert hx).elim (fun he => he ▸ hr) (h.good x) }

theorem badAlarmSN_iff {n : Nat} : badAlarmSN n = false ↔ 0 < n ∧ n ≤ maxAlarmSN := by
  simp only [badAlarmSN, Bool.or_eq_false_iff, beq_eq_false_iff_ne, decide_eq_false_iff_not, not_lt]
  omega

/-! ## Replaying entries -/

/-- A snapshot of good records with different keys is taken over whole. -/
theorem applySnapshot_good {deviceID : Bytes} {rs acc : List Record}
    (hg : ∀ r ∈ rs, Good deviceID r) (hu : Keyed.Unique Record.key rs)
    (hacc : Keyed.Unique Record.key acc) (hd : ∀ r ∈ rs, lookup r.key acc = none) :
    ∃ records, applySnapshot deviceID acc rs = .ok records ∧ Keyed.Unique Record.key records ∧
      (∀ r ∈ records, r ∈ rs ∨ r ∈ acc) ∧
      ∀ k, lookup k records = (lookup k rs).or (lookup k acc) := by
  induction rs generalizing acc with
  | nil => exact ⟨acc, rfl, hacc, fun r hr => .inr hr, fun k => rfl⟩
  | cons r rs ih =>
    obtain ⟨hr, hrs⟩ := List.forall_mem_cons.mp hg
    obtain ⟨hdr, hds⟩ := List.forall_mem_cons.mp hd
    rw [Keyed.Unique, List.map_cons, List.nodup_cons] at hu
    have hkey : ¬ (deviceID ≠ [] ∧ r.key ≠ keyOf deviceID r.event) := fun hc => hc.2 hr.key
    have hfresh : ∀ x ∈ rs, lookup x.key (Keyed.insert Record.key r acc) = none := by
      intro x hx
      have hne : r.key ≠ x.key := fun he => hu.1 (he ▸ List.mem_map_of_mem hx)
      rw [lookup, Keyed.lookup_insert, if_neg hne]
      exact hds x hx
    obtain ⟨records, hrec, hun, hmem, hlook⟩ := ih hrs hu.2 (hacc.insert r) hfresh
    refine ⟨records, ?_, hun, fun x hx => ?_, fun k => ?_⟩
    · simp only [applySnapshot, validateRecord_eq_none.mpr hr.valid, if_neg hkey, hdr,
        Option.isSome_none, Bool.false_eq_true, if_false, hrec]
    · rcases hmem x hx with h | h
      · exact .inl (List.mem_cons_of_mem _ h)
      · rcases Keyed.mem_insert h with rfl | h
        · exact .inl List.mem_cons_self
        · exact .inr h
    · rw [hlook, lookup, lookup, lookup, Keyed.lookup_insert, Keyed.lookup_cons]
      by_cases hk : r.key = k
      · subst hk
        have hnone : Keyed.lookup Record.key r.key rs = none :=
          Keyed.lookup_eq_none.mpr fun x hx he => hu.1 (he ▸ List.mem_map_of_mem hx)
        simp [hnone]
      · simp [hk]

theorem applySnapshot_wf {deviceID : Bytes} (hd : deviceID ≠ []) {rs acc records : List Record}
    (hp : ∀ r ∈ rs, r.Portable) (hg : ∀ r ∈ acc, Good deviceID r)
    (hu : Keyed.Unique Record.key acc) (h : applySnapshot deviceID acc rs = .ok records) :
    (∀ r ∈ records, Good deviceID r) ∧ Keyed.Unique Record.key records := by
  induction rs generalizing acc with
  | nil =>
    cases h
    exact ⟨hg, hu⟩
  | cons r rs ih =>
    obtain ⟨hpr, hprs⟩ := List.forall_mem_cons.mp hp
    simp only [applySnapshot] at h
    split at h
    · cases h
    next hv =>
    split at h
    · cases h
    next hk =>
    split at h
    · cases h
    have hkey : r.key = keyOf deviceID r.event := by
      by_contra hne
      exact hk ⟨hd, hne⟩
    have hr : Good deviceID r := ⟨hpr, validateRecord_eq_none.mp hv, hkey⟩
    exact ih hprs (fun x hx => (Keyed.mem_insert hx).elim (fun he => he ▸ hr) (hg x))
      (hu.insert r) h

/-- **Replaying keeps the memory well-formed.** -/
theorem applyEntry_wf {deviceID : Bytes} (hd : deviceID ≠ []) {m m' : Memory} {e : JournalEntry}
    (hm : WF deviceID m) (he : e.Portable) (h : applyEntry deviceID m e = .ok m') :
    WF deviceID m' := by
  have state : ∀ {update : Record → Record} {key : Bytes},
      (∀ r, Good deviceID r → (update r).Portable ∧ (update r).key = r.key ∧
        (update r).event = r.event) →
      applyState update key m = .ok m' → WF deviceID m' := by
    intro update key hupd h
    unfold applyState at h
    split at h
    · cases h
    next r hr =>
    split at h
    · cases h
    next hv =>
    cases h
    have hgood := hm.lookup_good hr
    obtain ⟨hp, hk, hev⟩ := hupd r hgood
    exact hm.insert ⟨hp, validateRecord_eq_none.mp hv, by rw [hk, hev, hgood.key]⟩
  unfold applyEntry at h
  split at h
  · cases h
  split at h
  · cases h
  split at h
  · -- a snapshot
    split at h
    · cases h
    next hsn =>
    split at h
    · cases h
    next records hs =>
    cases h
    obtain ⟨hgood, huniq⟩ := applySnapshot_wf hd he.records (by simp) Keyed.unique_nil hs
    exact ⟨huniq, hgood, by simpa using hsn, he.lastAck, he.droppedUpdates⟩
  · -- an event
    split at h
    · cases h
    next event hev =>
    split at h
    · cases h
    split at h
    · cases h
    next hsn =>
    split at h
    · cases h
    next hv =>
    split at h
    · cases h
    next hk =>
    cases h
    have hkey : e.key = keyOf deviceID event := by
      by_contra hne
      exact hk ⟨hd, hne⟩
    have hgood : Good deviceID (entryRecord e event) :=
      ⟨⟨he.key, he.cursor, he.event event hev, he.alarmState, he.evidenceState, he.alarmSN,
        he.alarmRetry, he.evidenceRetry⟩, validateRecord_eq_none.mp hv, hkey⟩
    exact { hm.insert hgood with nextAlarmSN := by simpa using hsn }
  · cases h
    split
    · exact { hm with lastAck := he.cursor }
    · exact hm
  · refine state ?_ h
    exact fun r hr => ⟨{ hr.portable with
      alarmState := he.alarmState
      alarmRetry := he.alarmRetry }, rfl, rfl⟩
  · refine state ?_ h
    exact fun r hr => ⟨{ hr.portable with
      evidenceState := he.evidenceState
      evidenceRetry := he.evidenceRetry }, rfl, rfl⟩
  · cases h

/-- The memory that entries replay to, read from their lines. -/
def replay (deviceID : Bytes) : Memory → List JournalEntry → Except ApplyErr Memory
  | m, [] => .ok m
  | m, e :: es =>
    match applyEntry deviceID m e.clean with
    | .error err => .error err
    | .ok m' => replay deviceID m' es

theorem replay_append {deviceID : Bytes} {m m' : Memory} {es fs : List JournalEntry}
    (h : replay deviceID m es = .ok m') :
    replay deviceID m (es ++ fs) = replay deviceID m' fs := by
  induction es generalizing m with
  | nil =>
    cases h
    rfl
  | cons e es ih =>
    simp only [replay, List.cons_append] at h ⊢
    split at h
    · cases h
    · exact ih h

theorem replay_wf {deviceID : Bytes} (hd : deviceID ≠ []) {m m' : Memory} {es : List JournalEntry}
    (hm : WF deviceID m) (he : ∀ e ∈ es, e.Portable) (h : replay deviceID m es = .ok m') :
    WF deviceID m' := by
  induction es generalizing m with
  | nil =>
    cases h
    exact hm
  | cons e es ih =>
    obtain ⟨he0, hes⟩ := List.forall_mem_cons.mp he
    simp only [replay] at h
    split at h
    · cases h
    next m₁ hm₁ => exact ih (applyEntry_wf hd hm he0.cleaned hm₁) hes h

/-! ## Files -/

/-- The file consists of the lines of entries that replay to the memory. -/
def Recorded (deviceID disk : Bytes) (m : Memory) : Prop :=
  ∃ es : List JournalEntry, (∀ e ∈ es, e.Portable) ∧ disk = joinLines (es.map entryText) ∧
    replay deviceID .init es = .ok m

theorem recorded_nil (deviceID : Bytes) : Recorded deviceID [] .init := ⟨[], by simp, rfl, rfl⟩

theorem Recorded.wf {deviceID disk : Bytes} {m : Memory} (hd : deviceID ≠ [])
    (h : Recorded deviceID disk m) : WF deviceID m := by
  obtain ⟨es, hes, -, hr⟩ := h
  exact replay_wf hd (wf_init deviceID) hes hr

theorem joinLines_entries_append (es : List JournalEntry) (e : JournalEntry) :
    joinLines ((es ++ [e]).map entryText) = joinLines (es.map entryText) ++ encodeEntry e := by
  rw [List.map_append, joinLines_append]
  simp [joinLines, encodeEntry]

theorem Recorded.append {deviceID disk : Bytes} {m m' : Memory} {e : JournalEntry}
    (h : Recorded deviceID disk m) (he : e.Portable) (ha : applyEntry deviceID m e.clean = .ok m') :
    Recorded deviceID (disk ++ encodeEntry e) m' := by
  obtain ⟨es, hes, rfl, hr⟩ := h
  refine ⟨es ++ [e], ?_, (joinLines_entries_append es e).symm, ?_⟩
  · intro x hx
    rcases List.mem_append.mp hx with hx | hx
    · exact hes x hx
    · rw [List.mem_singleton.mp hx]
      exact he
  · rw [replay_append hr]
    simp only [replay, ha]

/-- The file is empty or ends with a newline. -/
def Terminated (disk : Bytes) : Prop := disk = [] ∨ disk.getLast? = some newline

instance (disk : Bytes) : Decidable (Terminated disk) := inferInstanceAs (Decidable (_ ∨ _))

theorem Recorded.terminated {deviceID disk : Bytes} {m : Memory} (h : Recorded deviceID disk m) :
    Terminated disk := by
  obtain ⟨es, -, rfl, -⟩ := h
  rcases List.eq_nil_or_concat es with rfl | ⟨fs, e, rfl⟩
  · exact .inl rfl
  · right
    rw [List.concat_eq_append, joinLines_entries_append, encodeEntry, ← List.append_assoc]
    simp

/-! ## Loading -/

/-- No line is longer than the loader accepts. -/
def ShortLines (disk : Bytes) : Prop := ∀ line ∈ rawLines disk, line.length ≤ maxLine

instance (disk : Bytes) : Decidable (ShortLines disk) :=
  inferInstanceAs (Decidable (∀ line ∈ _, _))

theorem trimSpace_text_ne (e : JournalEntry) :
    trimSpace (encodeEntry e) ≠ [] ∧ trimSpace (entryText e) ≠ [] := by
  obtain ⟨s, hs⟩ := entryText_brace e
  have hline : trimSpace (encodeEntry e) = entryText e := by
    rw [encodeEntry, hs]
    exact trimSpace_line s
  have htext : trimSpace (entryText e) = entryText e := by
    rw [hs]
    exact trimSpace_object s
  rw [hline, htext, hs]
  exact ⟨by simp, by simp⟩

/-- The loader over the lines of entries. -/
theorem loadLines_entries {deviceID : Bytes} {es : List JournalEntry} {m m' : Memory}
    (hes : ∀ e ∈ es, e.Portable) (hlen : ∀ e ∈ es, (encodeEntry e).length ≤ maxLine)
    (h : replay deviceID m es = .ok m') (n : Nat) (before : Bytes) (rest : List Bytes) :
    loadLines deviceID n m before (es.map encodeEntry ++ rest) =
      loadLines deviceID (n + es.length) m' (before ++ joinLines (es.map entryText)) rest := by
  induction es generalizing m n before with
  | nil =>
    cases h
    simp [joinLines]
  | cons e es ih =>
    obtain ⟨he, hes⟩ := List.forall_mem_cons.mp hes
    obtain ⟨hl, hls⟩ := List.forall_mem_cons.mp hlen
    simp only [replay] at h
    split at h
    · cases h
    next m₁ hm₁ =>
    have hjoin : joinLines ((e :: es).map entryText) =
        encodeEntry e ++ joinLines (es.map entryText) := by
      simp [joinLines, encodeEntry]
    rw [List.map_cons, List.cons_append, loadLines, if_neg (not_lt.mpr hl),
      if_neg (trimSpace_text_ne e).1, (decodeEntry_encodeEntry he).1]
    simp only [hm₁]
    rw [ih hes hls h, hjoin, List.append_assoc, List.length_cons]
    congr 1
    omega

theorem rawLines_entries {es : List JournalEntry} {r : Bytes} (hr : newline ∉ r) :
    rawLines (joinLines (es.map entryText) ++ r) =
      es.map encodeEntry ++ if r = [] then [] else [r] := by
  have hnl : ∀ l ∈ es.map entryText, newline ∉ l := by
    intro l hl
    obtain ⟨e, -, rfl⟩ := List.mem_map.mp hl
    exact newline_not_mem_entryText e
  rw [rawLines_joinLines hnl hr, List.map_map]
  rfl

/-- **A recorded file loads.** -/
theorem load_recorded {deviceID disk : Bytes} {m : Memory} (h : Recorded deviceID disk m)
    (hs : ShortLines disk) : load deviceID disk = .ok ⟨m, disk, false⟩ := by
  obtain ⟨es, hes, rfl, hr⟩ := h
  have hraw : rawLines (joinLines (es.map entryText)) = es.map encodeEntry ++ [] := by
    have := @rawLines_entries es [] (by simp)
    simpa using this
  have hlen : ∀ e ∈ es, (encodeEntry e).length ≤ maxLine := fun e he =>
    hs _ (by rw [hraw, List.append_nil]; exact List.mem_map_of_mem he)
  rw [load, hraw, loadLines_entries hes hlen hr]
  simp [loadLines]

/-- A recorded file with a piece of the line of one more entry, which the memory would accept. -/
structure TornAt (deviceID disk : Bytes) (m : Memory) (e : JournalEntry) (m' : Memory)
    (base : Bytes) (k : Nat) : Prop where
  recorded : Recorded deviceID base m
  portable : e.Portable
  applies : applyEntry deviceID m e.clean = .ok m'
  disk : disk = base ++ (encodeEntry e).take k
  pos : 0 < k
  cut : k < (encodeEntry e).length

/-- **A file with a cut last line loads**: the piece is cut off, or it lacks only its newline and
counts as the entry. -/
theorem load_torn {deviceID disk base : Bytes} {m m' : Memory} {e : JournalEntry} {k : Nat}
    (h : TornAt deviceID disk m e m' base k) (hs : ShortLines disk) :
    load deviceID disk = if k = (entryText e).length then .ok ⟨m', disk, false⟩
      else .ok ⟨m, base, true⟩ := by
  obtain ⟨⟨es, hes, rfl, hr⟩, he, ha, rfl, hpos, hcut⟩ := h
  have hk : k ≤ (entryText e).length := by
    simp only [encodeEntry, List.length_append, List.length_singleton] at hcut
    omega
  have htake : (encodeEntry e).take k = (entryText e).take k := by
    rw [encodeEntry, List.take_append_of_le_length hk]
  rw [htake] at hs ⊢
  have hne : (entryText e).take k ≠ [] := by
    obtain ⟨s, htext⟩ := entryText_brace e
    obtain ⟨j, rfl⟩ : ∃ j, k = j + 1 := ⟨k - 1, by omega⟩
    rw [htext, List.take_succ_cons]
    simp
  have hraw := @rawLines_entries es ((entryText e).take k)
    fun hm => newline_not_mem_entryText e (List.mem_of_mem_take hm)
  rw [if_neg hne] at hraw
  have hlen : ∀ x ∈ es, (encodeEntry x).length ≤ maxLine := fun x hx =>
    hs _ (by rw [hraw]; exact List.mem_append_left _ (List.mem_map_of_mem hx))
  have hlast : ((entryText e).take k).length ≤ maxLine :=
    hs _ (by rw [hraw]; simp)
  rw [load, hraw, loadLines_entries hes hlen hr, loadLines, if_neg (not_lt.mpr hlast)]
  by_cases hkl : k = (entryText e).length
  · rw [if_pos hkl, List.take_of_length_le hkl.ge, if_neg (trimSpace_text_ne e).2,
      (decodeEntry_encodeEntry he).2]
    simp only [ha, loadLines, List.nil_append]
  · have hdrop : (entryText e).drop k ≠ [] := by
      rw [ne_eq, List.drop_eq_nil_iff]
      omega
    rw [if_neg hkl, decodeEntry_cut he (List.take_append_drop k _) hne hdrop]
    simp

end FlowAlarm.Outbox
