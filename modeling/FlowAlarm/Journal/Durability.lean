import FlowAlarm.Journal.EventJournal

/-!
# What a reopened journal returns

The text of a record is a line of its own and reads back field by field
(`recordFromLine_lineText`). A journal keeps its file equal to the lines of
its queue (`Mirrors`), so reopening replays the queue up to the first line the
decoder refuses. `reopen_preserves_iff` says when nothing is lost or altered.
-/

namespace FlowAlarm.Journal

open FlowAlarm.Text FlowAlarm.Num FlowAlarm.CJson FlowAlarm.Engine FlowAlarm.Codec

/-! ## One line -/

/-- The text of a record, which exists for every event with at most sixteen tracks. -/
def lineText (cursor : ℕ) (event : MeAnalyticsEvent) : Bytes :=
  printUnformatted (.obj (recordMembers cursor (.obj (eventMembers event))))

theorem recordText_eq {cursor : ℕ} {event : MeAnalyticsEvent} (h : Printable event) :
    recordText cursor event = some (lineText cursor event) := by
  have := h.tracks
  simp only [recordText, meAnalyticsEventToJson, if_neg (not_lt.mpr this), Option.map_some, lineText]

theorem recordToLine_eq {cursor : ℕ} {event : MeAnalyticsEvent} (h : Printable event) :
    recordToLine cursor event = some (lineText cursor event ++ [newline]) := by
  rw [recordToLine, recordText_eq h, Option.map_some]

theorem newline_not_mem_lineText {cursor : ℕ} {event : MeAnalyticsEvent} (h : Printable event) :
    newline ∉ lineText cursor event := by
  refine Json.not_mem_print (by decide) (not_mem_printString (by decide)) _ (oneLine_obj ?_)
  simp only [recordMembers, List.forall_mem_cons, oneLine_natItem, h.oneLine, true_and]
  simp

theorem parseWithLength_lineText {cursor : ℕ} {event : MeAnalyticsEvent} (h : Printable event)
    (hc : cursor < 2 ^ 64) :
    parseWithLength (lineText cursor event ++ [newline]) =
      some (.obj (recordMembers cursor (.obj (eventMembers event)))) := by
  have hreads : Reads cjson printString nestingLimit
      (.obj (recordMembers cursor (.obj (eventMembers event))))
      (.obj (recordMembers cursor (.obj (eventMembers event)))) := by
    rw [show nestingLimit = 997 + 2 + 1 from rfl]
    simp only [Reads, recordMembers]
    exact .cons ⟨strReads_cjson _, reads_natItem (by decide) _⟩
      (.cons ⟨strReads_cjson _, reads_natItem hc _⟩
        (.cons ⟨strReads_cjson _, h.reads _⟩ .nil))
  have hparse := Dialect.parse_print hreads [newline] (.inl rfl)
  obtain ⟨u, hu⟩ : ∃ u, lineText cursor event = 0x7B :: u := ⟨_, by
    simp only [lineText, printUnformatted, Json.print]; rfl⟩
  have hbom : skipBom (lineText cursor event ++ [newline]) = lineText cursor event ++ [newline] := by
    rw [hu, skipBom, if_neg]
    rintro ⟨-, hb⟩
    simp at hb
  have hws : cjson.skipWs (lineText cursor event ++ [newline]) =
      lineText cursor event ++ [newline] := by
    rw [hu, List.cons_append, skipWs_cons (by decide)]
  rw [parseWithLength, hbom, hws, lineText, printUnformatted, hparse, Option.map_some]

/-- **A record's line reads back field by field.** -/
theorem recordFromLine_lineText {cursor : ℕ} {event : MeAnalyticsEvent} {r : JournalRecord}
    (h : Printable event) (hc : cursor < 2 ^ 64) :
    recordFromLine (lineText cursor event ++ [newline]) = .ok r ↔
      ∃ cursor' event', readNat cursor = some cursor' ∧ cursor' ≠ 0 ∧
        meAnalyticsEventFromJson (.obj (eventMembers event)) = .ok event' ∧
        r = ⟨cursor', event', (lineText cursor event).length + 1⟩ := by
  have hv : jsonU64 (.obj (recordMembers cursor (.obj (eventMembers event)))) (ascii "v") =
      readNat meEventJournalVersion := jsonU64_natItem rfl
  have hcur : jsonU64 (.obj (recordMembers cursor (.obj (eventMembers event)))) (ascii "cursor") =
      readNat cursor := jsonU64_natItem rfl
  have hev : getObjectItem (.obj (recordMembers cursor (.obj (eventMembers event)))) (ascii "event") =
      some (.obj (eventMembers event)) := rfl
  have hone : readNat meEventJournalVersion = some meEventJournalVersion :=
    readNat_eq_self.mpr (exactNat_of_lt (by decide))
  simp only [recordFromLine, parseWithLength_lineText h hc, hv, hcur, hev, hone]
  cases readNat cursor with
  | none => simp
  | some cursor' =>
    simp only [ne_eq, not_true_eq_false, false_or, Option.some.injEq]
    by_cases hz : cursor' = 0
    · simp [hz]
    · simp only [if_neg hz]
      cases meAnalyticsEventFromJson (.obj (eventMembers event)) with
      | error err => simp
      | ok event' =>
        simp only [List.length_append, List.length_singleton, Except.ok.injEq]
        constructor
        · rintro rfl
          exact ⟨cursor', event', rfl, hz, rfl, rfl⟩
        · rintro ⟨c, e, rfl, -, rfl, rfl⟩
          rfl

/-! ## The queue and the file -/

def textOf (r : JournalRecord) : Bytes := lineText r.cursor r.event

/-- The file that holds exactly these records. -/
def fileOf (rs : List JournalRecord) : Bytes := joinLines (rs.map textOf)

/-- A record as `append` builds it. -/
structure Proper (r : JournalRecord) : Prop where
  emittable : Emittable r.event
  cursor_pos : 0 < r.cursor
  cursor_lt : r.cursor < 2 ^ 64
  bytes : r.bytes = (textOf r).length + 1

theorem fileOf_append (rs : List JournalRecord) (r : JournalRecord) :
    fileOf (rs ++ [r]) = fileOf rs ++ (textOf r ++ [newline]) := by
  simp [fileOf, joinLines]

theorem length_fileOf {rs : List JournalRecord} (h : ∀ r ∈ rs, Proper r) :
    (fileOf rs).length = totalBytes rs := by
  induction rs with
  | nil => rfl
  | cons r rs ih =>
    have ih := ih fun x hx => h x (List.mem_cons_of_mem _ hx)
    have hr := (h r List.mem_cons_self).bytes
    simp only [fileOf, joinLines, totalBytes, List.map_cons, List.flatMap_cons, List.length_append,
      List.sum_cons, List.length_singleton] at ih ⊢
    rw [ih, hr]

theorem writeRecords_eq {rs : List JournalRecord} (h : ∀ r ∈ rs, Proper r) :
    writeRecords rs = some (rs, fileOf rs) := by
  induction rs with
  | nil => rfl
  | cons r rs ih =>
    have hr := h r List.mem_cons_self
    have hline : (lineText r.cursor r.event ++ [newline]).length = r.bytes := by
      rw [hr.bytes, List.length_append, List.length_singleton, textOf]
    simp only [writeRecords, recordToLine_eq hr.emittable.printable,
      ih fun x hx => h x (List.mem_cons_of_mem _ hx), hline]
    simp [fileOf, joinLines, textOf]

theorem removeOldestUpdate_sublist {rs rs' : List JournalRecord}
    (h : removeOldestUpdate rs = some rs') : rs'.Sublist rs := by
  induction rs generalizing rs' with
  | nil => cases h
  | cons r rs ih =>
    rw [removeOldestUpdate] at h
    split at h
    · cases h
      exact List.sublist_cons_self _ _
    · obtain ⟨ts, hts, rfl⟩ := Option.map_eq_some_iff.mp h
      exact (ih hts).cons_cons r

/-- Eviction leaves a sublist that is not full. -/
theorem evictWhile_spec {full : List JournalRecord → Bool} {fuel : ℕ}
    {rs rs' : List JournalRecord} (h : evictWhile full fuel rs = some rs') :
    rs'.Sublist rs ∧ full rs' = false := by
  induction fuel generalizing rs with
  | zero =>
    rw [evictWhile] at h
    split at h
    · next hf =>
      cases h
      exact ⟨List.Sublist.refl _, by simpa using hf⟩
    · split at h <;> cases h
  | succ fuel ih =>
    rw [evictWhile] at h
    split at h
    · next hf =>
      cases h
      exact ⟨List.Sublist.refl _, by simpa using hf⟩
    · split at h
      · cases h
      · next ts hts =>
        obtain ⟨h1, h2⟩ := ih h
        exact ⟨h1.trans (removeOldestUpdate_sublist hts), h2⟩

/-- Increasing cursors. -/
def Sorted (rs : List JournalRecord) : Prop := rs.Pairwise fun a b => a.cursor < b.cursor

/-- The file mirrors the queue: its lines, in strictly increasing cursors up to `nextCursor`. -/
structure Mirrors (j : MeEventJournal) (disk : Bytes) : Prop where
  proper : ∀ r ∈ j.records, Proper r
  sorted : Sorted j.records
  bound : ∀ r ∈ j.records, r.cursor ≤ j.nextCursor
  next_lt : j.nextCursor < 2 ^ 64
  bytes : j.bytes = totalBytes j.records
  disk : disk = fileOf j.records

/-- The queue is within the journal's limits. -/
structure WithinLimits (j : MeEventJournal) : Prop where
  count : j.records.length ≤ j.maxRecords
  bytes : j.bytes ≤ j.maxBytes

theorem Mirrors.of_sublist {j : MeEventJournal} {disk : Bytes} (h : Mirrors j disk)
    {keep : List JournalRecord} (hk : keep.Sublist j.records) :
    Mirrors { j with records := keep, bytes := totalBytes keep } (fileOf keep) where
  proper r hr := h.proper r (hk.subset hr)
  sorted := List.Pairwise.sublist hk h.sorted
  bound r hr := h.bound r (hk.subset hr)
  next_lt := h.next_lt
  bytes := rfl
  disk := rfl

/-- Making room keeps the mirror and leaves room for the line. -/
theorem makeRoom_ok {j j' : MeEventJournal} {disk disk' line : Bytes} {phase : MeEventPhase}
    (h : Mirrors j disk) (hm : makeRoom j disk line phase = .ok (j', disk')) :
    Mirrors j' disk' ∧ j'.nextCursor = j.nextCursor ∧ j'.maxRecords = j.maxRecords ∧
      j'.maxBytes = j.maxBytes ∧ j'.records.Sublist j.records ∧
      j'.records.length + 1 ≤ j'.maxRecords ∧ j'.bytes + line.length ≤ j'.maxBytes := by
  unfold makeRoom compactToFit at hm
  split at hm
  · next hfit =>
    simp only [Except.ok.injEq, Prod.mk.injEq] at hm
    obtain ⟨rfl, rfl⟩ := hm
    split at hfit
    · next hc => exact ⟨h, rfl, rfl, rfl, List.Sublist.refl _, hc.1, by omega⟩
    · split at hfit
      · split at hfit <;> cases hfit
      · split at hfit
        · cases hfit
        · split at hfit <;> cases hfit
  · cases hm
  · cases hm
  · next keep hkeep =>
    split at hkeep
    · cases hkeep
    · split at hkeep
      · split at hkeep <;> cases hkeep
      · split at hkeep
        · next kept hev =>
          cases hkeep
          obtain ⟨hsub, hfull⟩ := evictWhile_spec hev
          have hproper : ∀ r ∈ keep, Proper r := fun r hr => h.proper r (hsub.subset hr)
          rw [writeRecords_eq hproper] at hm
          simp only [Except.ok.injEq, Prod.mk.injEq] at hm
          obtain ⟨rfl, rfl⟩ := hm
          simp only [Bool.or_eq_false_iff, decide_eq_false_iff_not, not_lt] at hfull
          rw [length_fileOf hproper]
          exact ⟨h.of_sublist hsub, rfl, rfl, rfl, hsub, hfull.1.1, by simp only; omega⟩
        · split at hkeep <;> cases hkeep

/-- **Appending keeps the mirror**; a success issues the next cursor and adds the record. -/
theorem meEventJournalAppend_spec {j : MeEventJournal} {disk : Bytes} {event : MeAnalyticsEvent}
    (h : Mirrors j disk) (he : Emittable event) :
    (∃ j' disk', meEventJournalAppend j disk event = (.ok (j.nextCursor + 1), j', disk') ∧
      Mirrors j' disk' ∧ j'.nextCursor = j.nextCursor + 1 ∧ j'.maxRecords = j.maxRecords ∧
      j'.maxBytes = j.maxBytes ∧ WithinLimits j' ∧
      ∃ keep, keep.Sublist j.records ∧ j'.records = keep ++ [⟨j.nextCursor + 1, event,
        (lineText (j.nextCursor + 1) event).length + 1⟩]) ∨
    ∃ r j', meEventJournalAppend j disk event = (r, j', disk) ∧ (∀ c, r ≠ .ok c) ∧
      Mirrors j' disk ∧ j'.records = j.records ∧ j'.nextCursor = j.nextCursor ∧
      j'.maxRecords = j.maxRecords ∧ j'.maxBytes = j.maxBytes ∧ j'.bytes = j.bytes := by
  have hstay : ∀ r : AppendResult, (∀ c, r ≠ .ok c) →
      ∃ r' j', ((r, j, disk) : AppendResult × MeEventJournal × Bytes) = (r', j', disk) ∧
        (∀ c, r' ≠ .ok c) ∧ Mirrors j' disk ∧ j'.records = j.records ∧
        j'.nextCursor = j.nextCursor ∧ j'.maxRecords = j.maxRecords ∧ j'.maxBytes = j.maxBytes ∧
        j'.bytes = j.bytes :=
    fun r hr => ⟨r, j, rfl, hr, h, rfl, rfl, rfl, rfl, rfl⟩
  unfold meEventJournalAppend
  split
  · exact .inr (hstay _ (by simp))
  split
  · exact .inr (hstay _ (by simp))
  next hnext =>
  rw [recordToLine_eq he.printable]
  simp only
  cases hm : makeRoom j disk (lineText (j.nextCursor + 1) event ++ [newline]) event.phase with
  | error r =>
    cases r with
    | dropped =>
      exact .inr ⟨.dropped, _, rfl, by simp,
        ⟨h.proper, h.sorted, h.bound, h.next_lt, h.bytes, h.disk⟩, rfl, rfl, rfl, rfl, rfl⟩
    | ok c =>
      -- making room never reports success by itself
      unfold makeRoom at hm
      split at hm
      · cases hm
      · cases hm
      · cases hm
      · split at hm <;> cases hm
    | failed err => exact .inr (hstay _ (by simp))
  | ok jd =>
    obtain ⟨j', disk'⟩ := jd
    obtain ⟨hmir, hn, hmr, hmb, hsub, hroom, hbytes⟩ := makeRoom_ok h hm
    have hnext' : j.nextCursor + 1 < 2 ^ 64 := by
      have := h.next_lt
      simp only [uint64Max] at hnext
      omega
    have hnew : Proper ⟨j.nextCursor + 1, event, (lineText (j.nextCursor + 1) event).length + 1⟩ :=
      ⟨he, Nat.succ_pos _, hnext', rfl⟩
    left
    simp only [List.length_append, List.length_singleton] at hbytes
    refine ⟨pushRecord j' event (lineText (j.nextCursor + 1) event ++ [newline]),
      disk' ++ (lineText (j.nextCursor + 1) event ++ [newline]), by simp only [hn],
      ⟨?_, ?_, ?_, ?_, ?_, ?_⟩, ?_, hmr, hmb, ⟨?_, ?_⟩, j'.records, hsub, ?_⟩
    · intro r hr
      simp only [pushRecord, hn, List.length_append, List.length_singleton, List.mem_append,
        List.mem_singleton] at hr
      rcases hr with hr | rfl
      · exact hmir.proper r hr
      · exact hnew
    · have hsorted : j'.records.Pairwise fun a b => a.cursor < b.cursor := hmir.sorted
      simp only [Sorted, pushRecord, List.pairwise_append, hsorted, List.pairwise_cons, true_and]
      refine ⟨by simp, fun a ha b hb => ?_⟩
      rw [List.mem_singleton.mp hb]
      have := hmir.bound a ha
      simp only
      omega
    · intro r hr
      simp only [pushRecord, List.mem_append, List.mem_singleton] at hr ⊢
      rcases hr with hr | rfl
      · have := hmir.bound r hr
        omega
      · simp
    · simp only [pushRecord, hn]
      exact hnext'
    · simp only [pushRecord, hmir.bytes, totalBytes, List.map_append, List.sum_append, List.map_cons,
        List.map_nil, List.sum_cons, List.sum_nil, Nat.add_zero]
    · simp only [pushRecord, fileOf_append, hmir.disk, textOf, hn]
    · simp only [pushRecord, hn]
    · simp only [pushRecord, List.length_append, List.length_singleton]
      exact hroom
    · simp only [pushRecord, List.length_append, List.length_singleton]
      exact hbytes
    · simp only [pushRecord, hn, List.length_append, List.length_singleton]

/-! ## Reading the file back -/

/-- `r'` is what `open` makes of the line of `r`. -/
def Reread (r r' : JournalRecord) : Prop := recordFromLine (textOf r ++ [newline]) = .ok r'

/-- All 64-bit integers of a record read back. -/
def Settled (r : JournalRecord) : Prop :=
  ExactNat r.cursor ∧ ∀ v ∈ wideFields r.event, ExactNat v

theorem Reread.cursor {r r' : JournalRecord} (hp : Proper r) (h : Reread r r') :
    readNat r.cursor = some r'.cursor := by
  obtain ⟨c, e, hc, -, -, rfl⟩ := (recordFromLine_lineText hp.emittable.printable hp.cursor_lt).mp h
  exact hc

theorem Reread.spec {r r' : JournalRecord} (hp : Proper r) (h : Reread r r') :
    Proper r' ∧ Settled r' ∧ textOf r' = textOf r ∧ r'.event.phase = r.event.phase := by
  obtain ⟨c, e, hc, hc0, he, rfl⟩ := (recordFromLine_lineText hp.emittable.printable hp.cursor_lt).mp h
  obtain ⟨hexact, hitem⟩ := readNat_settles hc
  obtain ⟨hem, hwide, hmembers, hphase⟩ := fromJson_settles hp.emittable he
  have htext : lineText c e = textOf r := by
    simp only [textOf, lineText, recordMembers, hitem, hmembers]
  refine ⟨⟨hem, Nat.pos_of_ne_zero hc0, lt_trans hexact.1 (by norm_num), ?_⟩, ⟨hexact, hwide⟩, htext,
    hphase⟩
  rw [textOf, htext, textOf]

theorem Settled.reread {r : JournalRecord} (hp : Proper r) (h : Settled r) : Reread r r := by
  refine (recordFromLine_lineText hp.emittable.printable hp.cursor_lt).mpr ⟨r.cursor, r.event,
    readNat_eq_self.mpr h.1, hp.cursor_pos.ne', (meAnalyticsEventFromJson_toJson hp.emittable).mpr h.2,
    ?_⟩
  cases r
  simpa [textOf] using hp.bytes

/-- The read loop accepts a prefix of the lines, and all of them unless it reports corruption. -/
theorem readLines_spec (last : ℕ) (rs : List JournalRecord) :
    ∃ pre suf out corrupt, readLines last (rs.map textOf) = (out, corrupt) ∧ rs = pre ++ suf ∧
      List.Forall₂ Reread pre out ∧ (corrupt = false → suf = []) ∧ Sorted out ∧
      ∀ r ∈ out, last < r.cursor := by
  induction rs generalizing last with
  | nil => exact ⟨[], [], [], false, rfl, rfl, .nil, fun _ => rfl, .nil, by simp⟩
  | cons r rs ih =>
    rw [List.map_cons, readLines]
    have stop : ∃ pre suf out corrupt, (([] : List JournalRecord), true) = (out, corrupt) ∧
        r :: rs = pre ++ suf ∧ List.Forall₂ Reread pre out ∧ (corrupt = false → suf = []) ∧
        Sorted out ∧ ∀ r ∈ out, last < r.cursor :=
      ⟨[], r :: rs, [], true, rfl, rfl, .nil, by simp, .nil, by simp⟩
    split
    · exact stop
    · next r' hr' =>
      split
      · exact stop
      · next hlt =>
        obtain ⟨pre, suf, out, corrupt, hread, hrs, hall, hsuf, hsorted, habove⟩ := ih r'.cursor
        rw [hread]
        refine ⟨r :: pre, suf, r' :: out, corrupt, rfl, by rw [hrs, List.cons_append],
          .cons hr' hall, hsuf, List.pairwise_cons.mpr ⟨habove, hsorted⟩, ?_⟩
        intro x hx
        rcases List.mem_cons.mp hx with rfl | hx
        · omega
        · have := habove x hx
          omega

theorem readLines_all (last : ℕ) {rs out : List JournalRecord} (h : List.Forall₂ Reread rs out)
    (hs : Sorted out) (hl : ∀ r ∈ out, last < r.cursor) :
    readLines last (rs.map textOf) = (out, false) := by
  induction h generalizing last with
  | nil => rfl
  | @cons r r' rs out hr _ ih =>
    obtain ⟨habove, hs⟩ := List.pairwise_cons.mp hs
    have hr' := hl r' List.mem_cons_self
    unfold Reread at hr
    rw [List.map_cons, readLines, hr]
    simp only [if_neg (not_le.mpr hr'), ih _ hs habove]

theorem fileOf_reread {pre out : List JournalRecord} (hp : ∀ r ∈ pre, Proper r)
    (h : List.Forall₂ Reread pre out) :
    fileOf out = fileOf pre ∧ (∀ r ∈ out, Proper r ∧ Settled r) := by
  induction h with
  | nil => exact ⟨rfl, by simp⟩
  | @cons r r' pre out hr _ ih =>
    obtain ⟨hfile, hout⟩ := ih fun x hx => hp x (List.mem_cons_of_mem _ hx)
    obtain ⟨hproper, hsettled, htext, -⟩ := hr.spec (hp r List.mem_cons_self)
    refine ⟨?_, List.forall_mem_cons.mpr ⟨⟨hproper, hsettled⟩, hout⟩⟩
    simp only [fileOf, joinLines, List.map_cons, List.flatMap_cons, htext] at hfile ⊢
    rw [hfile]

theorem splitLines_fileOf {rs : List JournalRecord} {tail : Bytes}
    (h : ∀ r ∈ rs, Printable r.event) (ht : newline ∉ tail) :
    splitLines (fileOf rs ++ tail) = (rs.map textOf, tail) := by
  refine splitLines_joinLines (fun l hl => ?_) ht
  obtain ⟨r, hr, rfl⟩ := List.mem_map.mp hl
  exact newline_not_mem_lineText (h r hr)

theorem recordFromLine_bytes {line : Bytes} {r : JournalRecord} (h : recordFromLine line = .ok r) :
    r.bytes = line.length := by
  unfold recordFromLine at h
  repeat' split at h
  all_goals cases h
  rfl

theorem totalBytes_reread {pre out : List JournalRecord} (h : List.Forall₂ Reread pre out) :
    totalBytes out = (fileOf pre).length := by
  induction h with
  | nil => rfl
  | @cons r r' pre out hr _ ih =>
    have hbytes := recordFromLine_bytes hr
    simp only [fileOf, joinLines, totalBytes, List.map_cons, List.flatMap_cons, List.length_append,
      List.sum_cons] at ih hbytes ⊢
    rw [ih, hbytes]

/-- The read loop takes a prefix of the lines, and the file is cut behind them. -/
theorem recover_lines {rs : List JournalRecord} {tail : Bytes} (h : ∀ r ∈ rs, Printable r.event)
    (ht : newline ∉ tail) :
    ∃ pre suf out, rs = pre ++ suf ∧ List.Forall₂ Reread pre out ∧ Sorted out ∧
      recover (fileOf rs ++ tail) = (out, fileOf pre) := by
  have hsplit := splitLines_fileOf h ht
  obtain ⟨pre, suf, out, corrupt, hread, rfl, hall, hsuf, hsorted, -⟩ := readLines_spec 0 rs
  refine ⟨pre, suf, out, rfl, hall, hsorted, ?_⟩
  have hdisk : fileOf (pre ++ suf) ++ tail = fileOf pre ++ (fileOf suf ++ tail) := by
    rw [fileOf, List.map_append, joinLines_append, List.append_assoc]
    rfl
  simp only [recover, hsplit, hread, Prod.mk.injEq, true_and]
  split
  · rw [hdisk, totalBytes_reread hall, List.take_left]
  · next hc =>
    simp only [Bool.or_eq_true, bne_iff_ne, ne_eq, not_or, Bool.not_eq_true, not_not] at hc
    rw [hdisk, hsuf hc.1, hc.2]
    simp [fileOf, joinLines]

/-- The complete lines of the file are those of `rs`; a torn line may follow. -/
structure Stored (disk : Bytes) (rs : List JournalRecord) : Prop where
  proper : ∀ r ∈ rs, Proper r
  sorted : Sorted rs
  text : ∃ tail, newline ∉ tail ∧ disk = fileOf rs ++ tail

/-- `out` is what the read loop makes of a prefix of `rs`. -/
structure Recovered (rs out : List JournalRecord) : Prop where
  sorted : Sorted out
  good : ∀ r ∈ out, Proper r ∧ Settled r
  source : ∃ pre suf, rs = pre ++ suf ∧ List.Forall₂ Reread pre out

theorem Recovered.stored {rs out : List JournalRecord} (h : Recovered rs out) :
    Stored (fileOf out) out :=
  ⟨fun r hr => (h.good r hr).1, h.sorted, [], by simp, by simp⟩

/-- **Recovery keeps the accepted lines and cuts the file behind them.** -/
theorem recover_spec {disk : Bytes} {rs : List JournalRecord} (h : Stored disk rs) :
    ∃ out, Recovered rs out ∧ recover disk = (out, fileOf out) := by
  obtain ⟨tail, htail, rfl⟩ := h.text
  obtain ⟨pre, suf, out, rfl, hall, hsorted, hrec⟩ :=
    recover_lines (fun r hr => (h.proper r hr).emittable.printable) htail
  have hpre : ∀ r ∈ pre, Proper r := fun r hr => h.proper r (List.mem_append_left _ hr)
  obtain ⟨hfile, hout⟩ := fileOf_reread hpre hall
  exact ⟨out, ⟨hsorted, hout, pre, suf, rfl, hall⟩, hfile ▸ hrec⟩

theorem Mirrors.stored {j : MeEventJournal} {disk : Bytes} (h : Mirrors j disk) :
    Stored disk j.records :=
  ⟨h.proper, h.sorted, [], by simp, by simpa using h.disk⟩

theorem le_lastCursor {rs : List JournalRecord} (h : Sorted rs) :
    ∀ r ∈ rs, r.cursor ≤ lastCursor rs := by
  intro r hr
  obtain ⟨init, last, rfl⟩ : ∃ init last, rs = init ++ [last] :=
    (List.eq_nil_or_concat' rs).resolve_left (List.ne_nil_of_mem hr)
  rw [lastCursor, List.getLast?_append_of_ne_nil _ (by simp), List.getLast?_singleton,
    Option.map_some, Option.getD_some]
  rcases List.mem_append.mp hr with hi | hl
  · exact ((List.pairwise_append.mp h).2.2 r hi last (by simp)).le
  · rw [List.mem_singleton.mp hl]

theorem lastCursor_lt {rs : List JournalRecord} (h : ∀ r ∈ rs, Proper r) :
    lastCursor rs < 2 ^ 64 := by
  cases hl : rs.getLast? with
  | none => simp [lastCursor, hl]
  | some r => simpa [lastCursor, hl] using (h r (List.mem_of_getLast? hl)).cursor_lt

/-- The journal that `open` builds over the recovered records. -/
def openedOver (maxRecords maxBytes : ℕ) (out : List JournalRecord) : MeEventJournal :=
  { records := out, maxRecords := maxRecords, maxBytes := maxBytes, bytes := totalBytes out
    nextCursor := lastCursor out, droppedUpdates := 0 }

theorem Recovered.mirrors {rs out : List JournalRecord} (h : Recovered rs out)
    (maxRecords maxBytes : ℕ) : Mirrors (openedOver maxRecords maxBytes out) (fileOf out) where
  proper r hr := (h.good r hr).1
  sorted := h.sorted
  bound := le_lastCursor h.sorted
  next_lt := lastCursor_lt fun r hr => (h.good r hr).1
  bytes := rfl
  disk := rfl

/-- **Opening** recovers a prefix; a journal over it is within its limits and mirrors the file, and
without one the file is left as recovery or its caller left it. -/
theorem meEventJournalOpen_spec {disk : Bytes} {rs : List JournalRecord} (h : Stored disk rs)
    (maxRecords maxBytes : ℕ) :
    ∃ out, Recovered rs out ∧ recover disk = (out, fileOf out) ∧
      ((∃ keep, meEventJournalOpen disk maxRecords maxBytes =
          (some { openedOver maxRecords maxBytes out with
            records := keep, bytes := totalBytes keep }, fileOf keep) ∧
          keep.Sublist out ∧ keep.length ≤ maxRecords ∧ totalBytes keep ≤ maxBytes ∧
          (out.length ≤ maxRecords → totalBytes out ≤ maxBytes → keep = out)) ∨
        (¬ (0 < maxRecords ∧ 0 < maxBytes ∧ out.length ≤ maxRecords ∧ totalBytes out ≤ maxBytes) ∧
          (meEventJournalOpen disk maxRecords maxBytes = (none, disk) ∨
            meEventJournalOpen disk maxRecords maxBytes = (none, fileOf out)))) := by
  obtain ⟨out, hout, hrec⟩ := recover_spec h
  refine ⟨out, hout, hrec, ?_⟩
  unfold meEventJournalOpen
  split
  · next hz => exact .inr ⟨by omega, .inl rfl⟩
  next hz =>
  simp only [hrec]
  split
  · next hover =>
    split
    · exact .inr ⟨by omega, .inr rfl⟩
    · next keep hev =>
      obtain ⟨hsub, hfull⟩ := evictWhile_spec hev
      have hproper : ∀ r ∈ keep, Proper r := fun r hr => (hout.good r (hsub.subset hr)).1
      simp only [writeRecords_eq hproper]
      simp only [Bool.or_eq_false_iff, decide_eq_false_iff_not, not_lt, Bool.and_eq_false_iff]
        at hfull
      refine .inl ⟨keep, by rw [length_fileOf hproper]; rfl, hsub, hfull.1, ?_, by omega⟩
      rcases hfull.2 with hb | hb
      · exact hb
      · -- an empty queue has no bytes
        rw [List.length_eq_zero_iff.mp (Nat.le_zero.mp hb)]
        exact Nat.zero_le _
  · next hfits =>
    exact .inl ⟨out, rfl, List.Sublist.refl _, by omega, by omega, fun _ _ => rfl⟩

/-! ## Lifetimes -/

/-- Appends in order; the log pairs each accepted event with the cursor it was given. -/
def appendAll (j : MeEventJournal) (disk : Bytes) :
    List MeAnalyticsEvent → MeEventJournal × Bytes × List (ℕ × MeAnalyticsEvent)
  | [] => (j, disk, [])
  | e :: es =>
    match meEventJournalAppend j disk e with
    | (.ok cursor, j, disk) =>
      let (j, disk, log) := appendAll j disk es
      (j, disk, (cursor, e) :: log)
    | (_, j, disk) => appendAll j disk es

/-- One opening of the journal with what is appended before it is closed. -/
structure Lifetime where
  maxRecords : ℕ
  maxBytes : ℕ
  events : List MeAnalyticsEvent

def closedFile (disk : Bytes) (l : Lifetime) : Bytes :=
  match meEventJournalOpen disk l.maxRecords l.maxBytes with
  | (none, disk) => disk
  | (some j, disk) => (appendAll j disk l.events).2.1

/-- What a run of appends preserves. -/
structure Appended (j j' : MeEventJournal) (disk' : Bytes) (log : List (ℕ × MeAnalyticsEvent)) :
    Prop where
  mirrors : Mirrors j' disk'
  maxRecords : j'.maxRecords = j.maxRecords
  maxBytes : j'.maxBytes = j.maxBytes
  limits : WithinLimits j → WithinLimits j'
  above : ∀ p ∈ log, j.nextCursor < p.1
  functional : ∀ p ∈ log, ∀ q ∈ log, p.1 = q.1 → p = q
  origin : ∀ r ∈ j'.records, r ∈ j.records ∨ (r.cursor, r.event) ∈ log

theorem appendAll_spec {j j' : MeEventJournal} {disk disk' : Bytes} {es : List MeAnalyticsEvent}
    {log : List (ℕ × MeAnalyticsEvent)} (h : Mirrors j disk) (hes : ∀ e ∈ es, Emittable e)
    (hrun : appendAll j disk es = (j', disk', log)) : Appended j j' disk' log := by
  induction es generalizing j disk log with
  | nil =>
    simp only [appendAll, Prod.mk.injEq] at hrun
    obtain ⟨rfl, rfl, rfl⟩ := hrun
    exact ⟨h, rfl, rfl, id, by simp, by simp, fun r hr => .inl hr⟩
  | cons e es ih =>
    obtain ⟨he, hes⟩ := List.forall_mem_cons.mp hes
    rw [appendAll] at hrun
    rcases meEventJournalAppend_spec h he with
      ⟨j₁, disk₁, happ, hmir, hnext, hmr, hmb, hwithin, keep, hsub, hrecs⟩ |
      ⟨r, j₁, happ, hr, hmir, hrecs, hnext, hmr, hmb, hbytes⟩
    · simp only [happ, Prod.mk.injEq] at hrun
      obtain ⟨rfl, rfl, rfl⟩ := hrun
      obtain ⟨rmir, rmr, rmb, rlim, rabove, rfun, rorigin⟩ := ih hmir hes rfl
      refine ⟨rmir, rmr.trans hmr, rmb.trans hmb, fun _ => rlim hwithin, ?_, ?_, ?_⟩
      · refine List.forall_mem_cons.mpr ⟨by simp, fun p hp => ?_⟩
        have := rabove p hp
        omega
      · -- later cursors lie above the one just issued
        intro p hp q hq heq
        rcases List.mem_cons.mp hp with rfl | hp <;> rcases List.mem_cons.mp hq with rfl | hq
        · rfl
        · have := rabove q hq
          simp only at heq
          omega
        · have := rabove p hp
          simp only at heq
          omega
        · exact rfun p hp q hq heq
      · intro r hr
        rcases rorigin r hr with hr | hr
        · rw [hrecs] at hr
          rcases List.mem_append.mp hr with hr | hr
          · exact .inl (hsub.subset hr)
          · rw [List.mem_singleton.mp hr]
            exact .inr List.mem_cons_self
        · exact .inr (List.mem_cons_of_mem _ hr)
    · have hrun : appendAll j₁ disk es = (j', disk', log) := by
        rw [happ] at hrun
        cases r with
        | ok c => exact absurd rfl (hr c)
        | dropped => exact hrun
        | failed err => exact hrun
      obtain ⟨rmir, rmr, rmb, rlim, rabove, rfun, rorigin⟩ := ih hmir hes hrun
      refine ⟨rmir, rmr.trans hmr, rmb.trans hmb, fun hw => rlim ⟨?_, ?_⟩, hnext ▸ rabove, rfun,
        hrecs ▸ rorigin⟩
      · rw [hrecs, hmr]
        exact hw.count
      · rw [hbytes, hmb]
        exact hw.bytes

theorem closedFile_stored {disk : Bytes} {rs : List JournalRecord} {l : Lifetime}
    (h : Stored disk rs) (hl : ∀ e ∈ l.events, Emittable e) : ∃ rs', Stored (closedFile disk l) rs' := by
  obtain ⟨out, hout, -, hopen⟩ := meEventJournalOpen_spec h l.maxRecords l.maxBytes
  unfold closedFile
  rcases hopen with ⟨keep, hopen, hsub, -⟩ | ⟨-, hopen | hopen⟩
  · rw [hopen]
    exact ⟨_, (appendAll_spec ((hout.mirrors _ _).of_sublist hsub) hl rfl).mirrors.stored⟩
  · rw [hopen]
    exact ⟨rs, h⟩
  · rw [hopen]
    exact ⟨out, hout.stored⟩

/-- Whatever was appended before, the file is a file of proper records. -/
theorem history_stored {past : List Lifetime} (h : ∀ l ∈ past, ∀ e ∈ l.events, Emittable e) :
    ∃ rs, Stored (past.foldl closedFile []) rs := by
  have go : ∀ (past : List Lifetime) (disk : Bytes) (rs : List JournalRecord), Stored disk rs →
      (∀ l ∈ past, ∀ e ∈ l.events, Emittable e) → ∃ rs', Stored (past.foldl closedFile disk) rs' := by
    intro past
    induction past with
    | nil => exact fun disk rs h _ => ⟨rs, h⟩
    | cons l past ih =>
      intro disk rs h hall
      obtain ⟨hl, hall⟩ := List.forall_mem_cons.mp hall
      obtain ⟨rs', h'⟩ := closedFile_stored h hl
      exact ih _ rs' h' hall
  exact go past [] [] ⟨by simp, .nil, [], by simp, rfl⟩ h

/-- The record is still in the queue. -/
def Retained (j : MeEventJournal) (cursor : ℕ) : Prop := ∃ r ∈ j.records, r.cursor = cursor

/-- Every retained entry of the log is in the snapshot of the journal opened on `disk`. -/
def Survives (j : MeEventJournal) (disk : Bytes) (log : List (ℕ × MeAnalyticsEvent)) : Prop :=
  ∃ j' disk', meEventJournalOpen disk j.maxRecords j.maxBytes = (some j', disk') ∧
    ∀ cursor event, (cursor, event) ∈ log → Retained j cursor →
      (cursor, event) ∈ (meEventJournalSnapshotAfter j' 0).records

/-- Whatever a reopened journal returns is settled. -/
theorem snapshot_settled {disk disk' : Bytes} {rs : List JournalRecord} {j' : MeEventJournal}
    {maxRecords maxBytes cursor : ℕ} {event : MeAnalyticsEvent} (h : Stored disk rs)
    (hopen : meEventJournalOpen disk maxRecords maxBytes = (some j', disk'))
    (hmem : (cursor, event) ∈ (meEventJournalSnapshotAfter j' 0).records) :
    ExactNat cursor ∧ ∀ v ∈ wideFields event, ExactNat v := by
  simp only [meEventJournalSnapshotAfter, List.mem_map, List.mem_filter, Prod.mk.injEq] at hmem
  obtain ⟨r, ⟨hr, -⟩, rfl, rfl⟩ := hmem
  obtain ⟨out, hout, -, hspec⟩ := meEventJournalOpen_spec h maxRecords maxBytes
  rcases hspec with ⟨keep, hspec, hsub, -⟩ | ⟨-, hspec | hspec⟩
  · rw [hspec] at hopen
    obtain ⟨rfl, -⟩ : _ = j' ∧ _ := by simpa only [Prod.mk.injEq, Option.some.injEq] using hopen
    exact (hout.good r (hsub.subset hr)).2
  · rw [hspec] at hopen
    cases hopen
  · rw [hspec] at hopen
    cases hopen

/-- A queue of settled records within the limits is reopened as it was. -/
theorem reopen_settled {j : MeEventJournal} {disk : Bytes} (h : Mirrors j disk)
    (hw : WithinLimits j) (hpos : 0 < j.maxRecords ∧ 0 < j.maxBytes)
    (hs : ∀ r ∈ j.records, Settled r) :
    ∃ j', meEventJournalOpen disk j.maxRecords j.maxBytes = (some j', disk) ∧
      j'.records = j.records := by
  have hreread : List.Forall₂ Reread j.records j.records :=
    List.forall₂_same.mpr fun r hr => (hs r hr).reread (h.proper r hr)
  have hread := readLines_all 0 hreread h.sorted fun r hr => (h.proper r hr).cursor_pos
  have hsplit := splitLines_fileOf (fun r hr => (h.proper r hr).emittable.printable)
    List.not_mem_nil
  rw [List.append_nil] at hsplit
  have hfits : ¬ (j.maxRecords < j.records.length ∨ j.maxBytes < totalBytes j.records) := by
    rw [← h.bytes]
    exact not_or.mpr ⟨not_lt.mpr hw.count, not_lt.mpr hw.bytes⟩
  refine ⟨openedOver j.maxRecords j.maxBytes j.records, ?_, rfl⟩
  rw [meEventJournalOpen, if_neg (by omega), recover, h.disk, hsplit]
  simp only [hread, Bool.false_or, bne_self_eq_false, Bool.false_eq_true, if_false, if_neg hfits]
  rfl

/-- What a session on a journal with any past leaves: the mirrored queue within its limits, whose
records are settled unless they are in the log, under their own cursor. -/
theorem lifetime_spec {past : List Lifetime} {maxRecords maxBytes : ℕ} {j₀ j : MeEventJournal}
    {disk₀ disk : Bytes} {events : List MeAnalyticsEvent} {log : List (ℕ × MeAnalyticsEvent)}
    (hpast : ∀ l ∈ past, ∀ e ∈ l.events, Emittable e) (hevents : ∀ e ∈ events, Emittable e)
    (hopen : meEventJournalOpen (past.foldl closedFile []) maxRecords maxBytes = (some j₀, disk₀))
    (hrun : appendAll j₀ disk₀ events = (j, disk, log)) :
    Mirrors j disk ∧ WithinLimits j ∧ (0 < j.maxRecords ∧ 0 < j.maxBytes) ∧
      (∀ r ∈ j.records, Settled r ∨ (r.cursor, r.event) ∈ log) ∧
      ∀ cursor event, (cursor, event) ∈ log → ∀ r ∈ j.records, r.cursor = cursor →
        r.event = event := by
  obtain ⟨rs, hrs⟩ := history_stored hpast
  obtain ⟨out, hout, -, hspec⟩ := meEventJournalOpen_spec hrs maxRecords maxBytes
  have hpos : 0 < maxRecords ∧ 0 < maxBytes := by
    by_contra hc
    rw [meEventJournalOpen, if_pos (by omega)] at hopen
    cases hopen
  rcases hspec with ⟨keep, hspec, hsub, hcount, hbytes, -⟩ | ⟨-, hspec | hspec⟩
  · rw [hspec] at hopen
    obtain ⟨rfl, rfl⟩ : _ = j₀ ∧ _ = disk₀ := by
      simpa only [Prod.mk.injEq, Option.some.injEq] using hopen
    have happ := appendAll_spec ((hout.mirrors _ _).of_sublist hsub) hevents hrun
    refine ⟨happ.mirrors, happ.limits ⟨hcount, hbytes⟩, ?_, fun r hr => ?_, ?_⟩
    · rw [happ.maxRecords, happ.maxBytes]
      exact hpos
    · rcases happ.origin r hr with hr | hr
      · exact .inl (hout.good r (hsub.subset hr)).2
      · exact .inr hr
    · intro cursor event hlog r hr hc
      rcases happ.origin r hr with hold | hnew
      · -- an older record lies below every cursor of the log
        have h1 := happ.above _ hlog
        have h2 := le_lastCursor hout.sorted r (hsub.subset hold)
        simp only [openedOver] at h1
        omega
      · have := happ.functional _ hnew _ hlog hc
        exact congrArg Prod.snd this
  · rw [hspec] at hopen
    cases hopen
  · rw [hspec] at hopen
    cases hopen

/-- **Journal durability.** After any past of the file, the entries appended in a session and still
queued at its end are returned unchanged by the reopened journal exactly when their cursor and all
their 64-bit integers are numbers that cJSON prints and reads back. -/
theorem reopen_preserves_iff {past : List Lifetime} {maxRecords maxBytes : ℕ}
    {j₀ j : MeEventJournal} {disk₀ disk : Bytes} {events : List MeAnalyticsEvent}
    {log : List (ℕ × MeAnalyticsEvent)}
    (hpast : ∀ l ∈ past, ∀ e ∈ l.events, Emittable e) (hevents : ∀ e ∈ events, Emittable e)
    (hopen : meEventJournalOpen (past.foldl closedFile []) maxRecords maxBytes = (some j₀, disk₀))
    (hrun : appendAll j₀ disk₀ events = (j, disk, log)) :
    Survives j disk log ↔
      ∀ cursor event, (cursor, event) ∈ log → Retained j cursor →
        ExactNat cursor ∧ ∀ v ∈ wideFields event, ExactNat v := by
  obtain ⟨hmir, hwithin, hpos, horigin, hown⟩ := lifetime_spec hpast hevents hopen hrun
  constructor
  · rintro ⟨j', disk', hre, hall⟩ cursor event hlog hret
    exact snapshot_settled hmir.stored hre (hall cursor event hlog hret)
  · intro hexact
    have hsettled : ∀ r ∈ j.records, Settled r := fun r hr => by
      rcases horigin r hr with hs | hlog
      · exact hs
      · exact hexact _ _ hlog ⟨r, hr, rfl⟩
    obtain ⟨j', hre, hrecs⟩ := reopen_settled hmir hwithin hpos hsettled
    refine ⟨j', disk, hre, fun cursor event hlog ⟨r, hr, hc⟩ => ?_⟩
    have he := hown cursor event hlog r hr hc
    simp only [meEventJournalSnapshotAfter, List.mem_map, List.mem_filter]
    refine ⟨r, ⟨hrecs ▸ hr, ?_⟩, by rw [hc, he]⟩
    simpa using (hmir.proper r hr).cursor_pos

/-! ### A late event -/

/-- The START of the first event of a camera, at a presentation time in nanoseconds. -/
def startAt (pts : ℤ) : MeAnalyticsEvent :=
  { MeAnalyticsEvent.zero with
    contractVersion := meAnalyticsEventContractVersion
    eventId := ⟨eventIdText (.ofBytes (ascii "camera-0") (by decide)) 1 1, eventIdText_nonul _ _ _⟩
    channelId := .ofBytes (ascii "camera-0") (by decide)
    streamEpoch := 1
    eventType := .occupancy
    ruleId := .ofBytes (ascii "occupancy") (by decide)
    phase := .start
    eventSeq := 1
    reason := .confirmed
    sourcePts := pts
    sourcePtsValid := true
    sourceTimebase := ⟨1, 1000000000⟩
    frameId := 1
    personCount := 1
    configVersion := 1 }

theorem startAt_emittable (pts : ℤ) (h : 0 ≤ pts ∧ pts < 2 ^ 63) : Emittable (startAt pts) := by
  have base : Emittable (startAt 0) :=
    { contract := rfl
      eventId := by decide
      channelId := by decide
      epoch := by decide
      eventType := rfl
      ruleId := by decide
      phase := .inl rfl
      seq := by decide
      reason := by simp [startAt]
      time := by decide
      clock := by simp [startAt, MeAnalyticsEvent.zero]
      pts := by decide
      timebase := by decide
      frame := by decide
      person := by decide
      deltaIn := by decide
      deltaOut := by decide
      tracks := by decide
      trackIds := by simp [startAt, MeAnalyticsEvent.zero]
      config := by decide
      evidence := by decide }
  exact { base with pts := h }

/-- The session that appends two such events to a fresh file. -/
def twoStarts (first second : ℤ) : MeEventJournal × Bytes × List (ℕ × MeAnalyticsEvent) :=
  appendAll (openedOver 8 65536 []) [] [startAt first, startAt second]

theorem reopen_preserves_iff_demo :
    (twoStarts 40000000 80000000).2.2 = [(1, startAt 40000000), (2, startAt 80000000)] ∧
    (Survives (twoStarts 40000000 80000000).1 (twoStarts 40000000 80000000).2.1
        (twoStarts 40000000 80000000).2.2 ↔
      ∀ cursor event, (cursor, event) ∈ (twoStarts 40000000 80000000).2.2 →
        Retained (twoStarts 40000000 80000000).1 cursor →
        ExactNat cursor ∧ ∀ v ∈ wideFields event, ExactNat v) := by
  refine ⟨by decide +kernel, @reopen_preserves_iff [] 8 65536 (openedOver 8 65536 []) _ [] _
    [startAt 40000000, startAt 80000000] _ (by simp) ?_ rfl rfl⟩
  simp only [List.forall_mem_cons]
  exact ⟨startAt_emittable _ (by decide), startAt_emittable _ (by decide), by simp⟩

/-- A presentation time above 2^53 makes the reopened journal drop its record and the intact one
behind it. -/
theorem reopen_truncates_late_pts :
    (∀ e ∈ [startAt 9007199254740994, startAt 0], Emittable e) ∧
    (twoStarts 9007199254740994 0).2.2 = [(1, startAt 9007199254740994), (2, startAt 0)] ∧
    (Retained (twoStarts 9007199254740994 0).1 1 ∧ Retained (twoStarts 9007199254740994 0).1 2) ∧
    meEventJournalOpen (twoStarts 9007199254740994 0).2.1 8 65536 =
      (some (openedOver 8 65536 []), []) ∧
    ¬ Survives (twoStarts 9007199254740994 0).1 (twoStarts 9007199254740994 0).2.1
      (twoStarts 9007199254740994 0).2.2 := by
  obtain ⟨hopen, hlog, hrecs, hlim⟩ : meEventJournalOpen (twoStarts 9007199254740994 0).2.1 8 65536 =
      (some (openedOver 8 65536 []), []) ∧
      (twoStarts 9007199254740994 0).2.2 = [(1, startAt 9007199254740994), (2, startAt 0)] ∧
      (twoStarts 9007199254740994 0).1.records.map (·.cursor) = [1, 2] ∧
      (twoStarts 9007199254740994 0).1.maxRecords = 8 ∧
        (twoStarts 9007199254740994 0).1.maxBytes = 65536 := by decide +kernel
  have hret : ∀ c ∈ [1, 2], Retained (twoStarts 9007199254740994 0).1 c := by
    rw [← hrecs]
    exact fun c hc => List.mem_map.mp hc
  refine ⟨?_, hlog, ⟨hret 1 (by simp), hret 2 (by simp)⟩, hopen, ?_⟩
  · simp only [List.forall_mem_cons]
    exact ⟨startAt_emittable _ (by decide), startAt_emittable _ (by decide), by simp⟩
  · rintro ⟨j', disk', hre, hall⟩
    rw [hlim.1, hlim.2, hopen] at hre
    cases hre
    have := hall 2 (startAt 0) (by rw [hlog]; simp) (hret 2 (by simp))
    simp [meEventJournalSnapshotAfter, openedOver] at this

end FlowAlarm.Journal
