import FlowAlarm.Journal.Cursors

/-!
# The representation of an open journal

`Represents` says what the fields of an open journal mean: the file is the
lines of the queue, the byte counter is their length, both limits hold and
cursors increase. It asks nothing of the events but that they were encoded,
so any event may be appended. `Evicted` says what eviction may do: boundaries
stay, and of the UPDATEs some of the oldest go.
-/

namespace FlowAlarm.Journal

open FlowAlarm.Text FlowAlarm.Num FlowAlarm.CJson FlowAlarm.Engine FlowAlarm.Codec

/-! ## Lines of records -/

/-- The line a record is written as. -/
def lineOf (r : JournalRecord) : Bytes := (recordToLine r.cursor r.event).getD []

def linesOf (rs : List JournalRecord) : Bytes := rs.flatMap lineOf

/-- The record has been encoded and counts the bytes of its line. -/
structure Written (r : JournalRecord) : Prop where
  line : recordToLine r.cursor r.event = some (lineOf r)
  bytes : r.bytes = (lineOf r).length

theorem written_mk {cursor : ℕ} {event : MeAnalyticsEvent} {line : Bytes}
    (h : recordToLine cursor event = some line) : Written ⟨cursor, event, line.length⟩ ∧
      lineOf ⟨cursor, event, line.length⟩ = line := by
  have hline : lineOf ⟨cursor, event, line.length⟩ = line := by
    simp only [lineOf, h, Option.getD_some]
  exact ⟨⟨by rw [hline]; exact h, by rw [hline]⟩, hline⟩

theorem linesOf_append (rs ss : List JournalRecord) : linesOf (rs ++ ss) = linesOf rs ++ linesOf ss := by
  simp [linesOf]

theorem length_linesOf {rs : List JournalRecord} (h : ∀ r ∈ rs, Written r) :
    (linesOf rs).length = totalBytes rs := by
  induction rs with
  | nil => rfl
  | cons r rs ih =>
    obtain ⟨hr, hrs⟩ := List.forall_mem_cons.mp h
    have ih := ih hrs
    simp only [linesOf, totalBytes, List.flatMap_cons, List.length_append, List.map_cons,
      List.sum_cons] at ih ⊢
    rw [ih, hr.bytes]

theorem writeRecords_written {rs : List JournalRecord} (h : ∀ r ∈ rs, Written r) :
    writeRecords rs = some (rs, linesOf rs) := by
  induction rs with
  | nil => rfl
  | cons r rs ih =>
    obtain ⟨hr, hrs⟩ := List.forall_mem_cons.mp h
    simp only [writeRecords, hr.line, ih hrs, ← hr.bytes]
    simp [linesOf]

/-! ## Eviction -/

def boundaries (rs : List JournalRecord) : List JournalRecord :=
  rs.filter fun r => r.event.phase ≠ .update

def updates (rs : List JournalRecord) : List JournalRecord :=
  rs.filter fun r => r.event.phase = .update

/-- `keep` is `rs` without some of its oldest UPDATEs. -/
structure Evicted (rs keep : List JournalRecord) : Prop where
  sublist : keep.Sublist rs
  boundaries : boundaries keep = boundaries rs
  oldest : ∃ n, updates keep = (updates rs).drop n

theorem Evicted.refl (rs : List JournalRecord) : Evicted rs rs :=
  ⟨List.Sublist.refl _, rfl, 0, rfl⟩

theorem Evicted.trans {rs ss ts : List JournalRecord} (h : Evicted rs ss) (h' : Evicted ss ts) :
    Evicted rs ts := by
  obtain ⟨n, hn⟩ := h.oldest
  obtain ⟨m, hm⟩ := h'.oldest
  exact ⟨h'.sublist.trans h.sublist, h'.boundaries.trans h.boundaries, n + m,
    by rw [hm, hn, List.drop_drop]⟩

theorem evicted_removeOldestUpdate {rs keep : List JournalRecord}
    (h : removeOldestUpdate rs = some keep) : Evicted rs keep := by
  refine ⟨removeOldestUpdate_sublist h, ?_, 1, ?_⟩
  all_goals
    induction rs generalizing keep with
    | nil => cases h
    | cons r rs ih =>
      rw [removeOldestUpdate] at h
      split at h
      · next hu =>
        cases h
        simp [boundaries, updates, hu]
      · next hu =>
        obtain ⟨ts, hts, rfl⟩ := Option.map_eq_some_iff.mp h
        simpa [boundaries, updates, hu] using ih hts

theorem evicted_evictWhile {full : List JournalRecord → Bool} {fuel : ℕ}
    {rs keep : List JournalRecord} (h : evictWhile full fuel rs = some keep) : Evicted rs keep := by
  induction fuel generalizing rs with
  | zero =>
    rw [evictWhile] at h
    split at h
    · cases h
      exact .refl _
    · split at h <;> cases h
  | succ fuel ih =>
    rw [evictWhile] at h
    split at h
    · cases h
      exact .refl _
    · split at h
      · cases h
      · next ts hts => exact (evicted_removeOldestUpdate hts).trans (ih h)

/-! ## The invariant -/

/-- **The representation invariant** of a journal and its file. -/
structure Represents (j : MeEventJournal) (disk : Bytes) : Prop where
  written : ∀ r ∈ j.records, Written r
  count : j.records.length ≤ j.maxRecords
  bytes : j.bytes = (j.records.map fun r => (lineOf r).length).sum
  size : j.bytes = disk.length
  limit : j.bytes ≤ j.maxBytes
  file : disk = linesOf j.records
  sorted : Sorted j.records
  bound : ∀ r ∈ j.records, r.cursor ≤ j.nextCursor

theorem sum_lineOf {rs : List JournalRecord} (h : ∀ r ∈ rs, Written r) :
    (rs.map fun r => (lineOf r).length).sum = totalBytes rs := by
  rw [totalBytes]
  exact congrArg List.sum (List.map_congr_left fun r hr => (h r hr).bytes.symm)

/-- The invariant from its independent parts. -/
theorem represents_mk {j : MeEventJournal} (hw : ∀ r ∈ j.records, Written r)
    (hc : j.records.length ≤ j.maxRecords) (hb : j.bytes = totalBytes j.records)
    (hl : j.bytes ≤ j.maxBytes) (hs : Sorted j.records)
    (hbound : ∀ r ∈ j.records, r.cursor ≤ j.nextCursor) : Represents j (linesOf j.records) :=
  ⟨hw, hc, by rw [hb, sum_lineOf hw], by rw [hb, length_linesOf hw], hl, rfl, hs, hbound⟩

theorem Represents.totalBytes {j : MeEventJournal} {disk : Bytes} (h : Represents j disk) :
    j.bytes = totalBytes j.records := by
  rw [h.bytes, sum_lineOf h.written]

/-- What `append` reports and leaves: the next cursor and the event behind what eviction kept, or
everything as it was. -/
def Effect (j : MeEventJournal) (disk : Bytes) (event : MeAnalyticsEvent) :
    AppendResult × MeEventJournal × Bytes → Prop
  | (.ok cursor, j', _) => cursor = j.nextCursor + 1 ∧ j'.nextCursor = cursor ∧
    ∃ keep line, recordToLine cursor event = some line ∧ Evicted j.records keep ∧
      j'.records = keep ++ [⟨cursor, event, line.length⟩]
  | (_, j', disk') => j'.records = j.records ∧ disk' = disk ∧ j'.nextCursor = j.nextCursor

/-- Room is made by eviction, and the rewritten file is the lines that were kept. -/
theorem makeRoom_represents {j j' : MeEventJournal} {disk disk' line : Bytes} {phase : MeEventPhase}
    (h : Represents j disk) (hm : makeRoom j disk line phase = .ok (j', disk')) :
    ∃ keep, Evicted j.records keep ∧ disk' = linesOf keep ∧
      j' = { j with records := keep, bytes := totalBytes keep } ∧
      keep.length + 1 ≤ j.maxRecords ∧ totalBytes keep + line.length ≤ j.maxBytes := by
  unfold makeRoom at hm
  split at hm
  · next hfit =>
    cases hm
    unfold compactToFit at hfit
    split at hfit
    · next hc =>
      have hb := h.totalBytes
      exact ⟨j.records, .refl _, h.file, by rw [← hb], hc.1, by omega⟩
    · split at hfit
      · split at hfit <;> cases hfit
      · split at hfit
        · cases hfit
        · split at hfit <;> cases hfit
  · cases hm
  · cases hm
  · next keep hkeep =>
    unfold compactToFit at hkeep
    split at hkeep
    · cases hkeep
    split at hkeep
    · split at hkeep <;> cases hkeep
    split at hkeep
    · next kept hev =>
      cases hkeep
      have hevicted := evicted_evictWhile hev
      have hfull := (evictWhile_spec hev).2
      have hw : ∀ r ∈ keep, Written r := fun r hr => h.written r (hevicted.sublist.subset hr)
      rw [writeRecords_written hw] at hm
      simp only [Except.ok.injEq, Prod.mk.injEq, length_linesOf hw] at hm
      simp only [Bool.or_eq_false_iff, decide_eq_false_iff_not, not_lt] at hfull
      exact ⟨keep, hevicted, hm.2.symm, hm.1.symm, hfull.1.1, by omega⟩
    · split at hkeep <;> cases hkeep

/-- **One append** keeps the invariant and has no other effect than the one described. -/
theorem meEventJournalAppend_represents {j : MeEventJournal} {disk : Bytes} (h : Represents j disk)
    (event : MeAnalyticsEvent) :
    Represents (meEventJournalAppend j disk event).2.1 (meEventJournalAppend j disk event).2.2 ∧
      Effect j disk event (meEventJournalAppend j disk event) := by
  have hstay : ∀ r : AppendResult, (∀ c, r ≠ .ok c) → ∀ n, Represents { j with droppedUpdates := n } disk ∧
      Effect j disk event (r, { j with droppedUpdates := n }, disk) := by
    intro r hr n
    refine ⟨⟨h.written, h.count, h.bytes, h.size, h.limit, h.file, h.sorted, h.bound⟩, ?_⟩
    cases r with
    | ok c => exact absurd rfl (hr c)
    | dropped => exact ⟨rfl, rfl, rfl⟩
    | failed err => exact ⟨rfl, rfl, rfl⟩
  unfold meEventJournalAppend
  split
  · exact hstay _ (by simp) j.droppedUpdates
  split
  · exact hstay _ (by simp) j.droppedUpdates
  split
  · exact hstay _ (by simp) j.droppedUpdates
  next line hline =>
  split
  · exact hstay .dropped (by simp) _
  · next r hr hm =>
    refine hstay r ?_ j.droppedUpdates
    rintro c rfl
    -- making room never reports success by itself
    unfold makeRoom at hm
    split at hm
    · cases hm
    · cases hm
    · cases hm
    · split at hm <;> cases hm
  · next j' disk' hm =>
    obtain ⟨keep, hevicted, rfl, rfl, hcount, hbytes⟩ := makeRoom_represents h hm
    obtain ⟨hnew, hnewline⟩ := written_mk hline
    have hw : ∀ r ∈ keep ++ [⟨j.nextCursor + 1, event, line.length⟩], Written r := by
      intro r hr
      rcases List.mem_append.mp hr with hr | hr
      · exact h.written r (hevicted.sublist.subset hr)
      · rw [List.mem_singleton.mp hr]
        exact hnew
    have hbound : ∀ r ∈ keep, r.cursor ≤ j.nextCursor := fun r hr =>
      h.bound r (hevicted.sublist.subset hr)
    have hfile : linesOf keep ++ line =
        linesOf (keep ++ [⟨j.nextCursor + 1, event, line.length⟩]) := by
      rw [linesOf_append, linesOf, linesOf, List.flatMap_singleton, hnewline]
    simp only
    refine ⟨?_, rfl, rfl, keep, line, hline, hevicted, rfl⟩
    rw [hfile]
    refine represents_mk hw ?_ ?_ ?_ ?_ ?_
    · simpa [pushRecord] using hcount
    · simp [pushRecord, totalBytes]
    · exact hbytes
    · refine List.pairwise_append.mpr ⟨List.Pairwise.sublist hevicted.sublist h.sorted, by simp, ?_⟩
      intro a ha b hb
      rw [List.mem_singleton.mp hb]
      exact Nat.lt_succ_of_le (hbound a ha)
    · intro r hr
      rcases List.mem_append.mp hr with hr | hr
      · exact (hbound r hr).trans (Nat.le_succ _)
      · rw [List.mem_singleton.mp hr]
        exact le_rfl

theorem meEventJournalAppend_limits (j : MeEventJournal) (disk : Bytes) (event : MeAnalyticsEvent) :
    (meEventJournalAppend j disk event).2.1.maxRecords = j.maxRecords ∧
      (meEventJournalAppend j disk event).2.1.maxBytes = j.maxBytes := by
  unfold meEventJournalAppend makeRoom
  repeat' split
  all_goals first | exact ⟨rfl, rfl⟩ | skip
  all_goals
    next hm =>
    repeat' split at hm
    all_goals cases hm
    all_goals exact ⟨rfl, rfl⟩

/-! ## A run of appends -/

/-- What the journal says of the records it holds. -/
def entries (rs : List JournalRecord) : List (ℕ × MeAnalyticsEvent) :=
  rs.map fun r => (r.cursor, r.event)

theorem boundaries_append (rs ss : List JournalRecord) :
    boundaries (rs ++ ss) = boundaries rs ++ boundaries ss := List.filter_append ..

theorem updates_append (rs ss : List JournalRecord) :
    updates (rs ++ ss) = updates rs ++ updates ss := List.filter_append ..

theorem Evicted.append {rs keep : List JournalRecord} (h : Evicted rs keep)
    (ss : List JournalRecord) : Evicted (rs ++ ss) (keep ++ ss) := by
  obtain ⟨n, hn⟩ := h.oldest
  refine ⟨h.sublist.append_right ss, ?_, min n (updates rs).length, ?_⟩
  · rw [boundaries_append, boundaries_append, h.boundaries]
  · rw [updates_append, updates_append, hn, List.drop_append_of_le_length (by omega)]
    congr 1
    rcases le_total n (updates rs).length with hle | hle
    · rw [min_eq_left hle]
    · rw [min_eq_right hle, List.drop_length, List.drop_eq_nil_of_le hle]

/-- `rs'` is `rs` and behind it the records of the log, less some of the oldest UPDATEs of all. -/
def Extended (rs : List JournalRecord) (log : List (ℕ × MeAnalyticsEvent))
    (rs' : List JournalRecord) : Prop :=
  ∃ new, entries new = log ∧ Evicted (rs ++ new) rs'

theorem Extended.cons {rs keep rs' : List JournalRecord} {r : JournalRecord}
    {log : List (ℕ × MeAnalyticsEvent)} (hk : Evicted rs keep) (h : Extended (keep ++ [r]) log rs') :
    Extended rs ((r.cursor, r.event) :: log) rs' := by
  obtain ⟨new, hnew, hev⟩ := h
  refine ⟨r :: new, by rw [entries, List.map_cons, ← entries, hnew], ?_⟩
  have hstep := hk.append (r :: new)
  rw [List.append_assoc] at hev
  exact hstep.trans hev

/-- The boundaries of the log are retained behind those that were there, in order. -/
theorem Extended.boundaries {rs rs' : List JournalRecord} {log : List (ℕ × MeAnalyticsEvent)}
    (h : Extended rs log rs') :
    entries (boundaries rs') =
      entries (boundaries rs) ++ log.filter fun p => p.2.phase ≠ .update := by
  obtain ⟨new, rfl, hev⟩ := h
  rw [hev.boundaries, boundaries_append, entries, List.map_append, ← entries, ← entries]
  simp only [entries, Journal.boundaries, List.filter_map]
  rfl

/-- What a run of appends on a represented journal leaves. -/
structure Ran (j : MeEventJournal) (j' : MeEventJournal) (disk' : Bytes)
    (log : List (ℕ × MeAnalyticsEvent)) : Prop where
  represents : Represents j' disk'
  maxRecords : j'.maxRecords = j.maxRecords
  maxBytes : j'.maxBytes = j.maxBytes
  extended : Extended j.records log j'.records
  cursors : log.map Prod.fst = List.range' (j.nextCursor + 1) log.length
  next : j'.nextCursor = j.nextCursor + log.length

/-- **A run of appends** keeps the invariant and issues consecutive cursors. -/
theorem appendAll_ran {j j' : MeEventJournal} {disk disk' : Bytes} {events : List MeAnalyticsEvent}
    {log : List (ℕ × MeAnalyticsEvent)} (h : Represents j disk)
    (hrun : appendAll j disk events = (j', disk', log)) : Ran j j' disk' log := by
  induction events generalizing j disk log with
  | nil =>
    simp only [appendAll, Prod.mk.injEq] at hrun
    obtain ⟨rfl, rfl, rfl⟩ := hrun
    exact ⟨h, rfl, rfl, ⟨[], rfl, by rw [List.append_nil]; exact .refl _⟩, rfl, rfl⟩
  | cons e es ih =>
    obtain ⟨hrep, heff⟩ := meEventJournalAppend_represents h e
    obtain ⟨hmr, hmb⟩ := meEventJournalAppend_limits j disk e
    rw [appendAll] at hrun
    generalize meEventJournalAppend j disk e = out at hrun hrep heff hmr hmb
    obtain ⟨r, j₁, disk₁⟩ := out
    simp only at hrep hmr hmb
    have hsame : (∀ c, r ≠ .ok c) → appendAll j₁ disk₁ es = (j', disk', log) →
        j₁.records = j.records → j₁.nextCursor = j.nextCursor → Ran j j' disk' log := by
      intro _ hrun hrecs hnext
      obtain ⟨h1, h2, h3, h4, h5, h6⟩ := ih hrep hrun
      exact ⟨h1, h2.trans hmr, h3.trans hmb, hrecs ▸ h4, hnext ▸ h5, hnext ▸ h6⟩
    cases r with
    | ok c =>
      obtain ⟨rfl, hnext, keep, line, -, hev, hrecs⟩ := heff
      simp only [Prod.mk.injEq] at hrun
      obtain ⟨rfl, rfl, rfl⟩ := hrun
      obtain ⟨h1, h2, h3, h4, h5, h6⟩ := ih hrep rfl
      refine ⟨h1, h2.trans hmr, h3.trans hmb, ?_, ?_, ?_⟩
      · rw [hrecs] at h4
        exact h4.cons hev
      · rw [List.map_cons, h5, hnext, List.length_cons, List.range'_succ]
      · rw [h6, hnext, List.length_cons]
        omega
    | dropped => exact hsame (by simp) hrun heff.1 heff.2.2
    | failed err => exact hsame (by simp) hrun heff.1 heff.2.2

/-! ## Files of records the codec round-trips -/

/-- A record whose event the codec round-trips. -/
structure Legible (r : JournalRecord) : Prop where
  roundTrips : RoundTrips r.event
  pos : 0 < r.cursor
  lt : r.cursor < 2 ^ 64
  bytes : r.bytes = (textOf r).length + 1

theorem Legible.lineOf {r : JournalRecord} (h : Legible r) : lineOf r = textOf r ++ [newline] := by
  rw [Journal.lineOf, recordToLine_eq h.roundTrips.printable, Option.getD_some, textOf]

theorem Legible.written {r : JournalRecord} (h : Legible r) : Written r := by
  refine ⟨?_, by rw [h.bytes, h.lineOf, List.length_append, List.length_singleton]⟩
  rw [h.lineOf, recordToLine_eq h.roundTrips.printable, textOf]

theorem linesOf_legible {rs : List JournalRecord} (h : ∀ r ∈ rs, Legible r) :
    linesOf rs = fileOf rs := by
  induction rs with
  | nil => rfl
  | cons r rs ih =>
    obtain ⟨hr, hrs⟩ := List.forall_mem_cons.mp h
    have ih := ih hrs
    simp only [linesOf, fileOf, joinLines, List.map_cons, List.flatMap_cons] at ih ⊢
    rw [ih, hr.lineOf]

/-- Reading a legible line changes at most the cursor, to one that is printed alike. -/
theorem Legible.reread {r r' : JournalRecord} (h : Legible r) (hr : Reread r r') :
    Legible r' ∧ textOf r' = textOf r ∧ readNat r.cursor = some r'.cursor := by
  obtain ⟨c, e, hc, hc0, he, rfl⟩ :=
    (recordFromLine_lineText h.roundTrips.printable h.lt).mp hr
  obtain ⟨hexact, hitem⟩ := readNat_settles hc
  obtain ⟨j, hj, hdec⟩ := h.roundTrips
  have hjson : j = .obj (eventMembers r.event) := by
    rw [meAnalyticsEventToJson, if_neg (not_lt.mpr h.roundTrips.printable.tracks)] at hj
    exact (Option.some.inj hj).symm
  obtain rfl : r.event = e := by
    rw [hjson, he] at hdec
    exact (Except.ok.inj hdec).symm
  have htext : textOf ⟨c, r.event, (lineText r.cursor r.event).length + 1⟩ = textOf r := by
    simp only [textOf, lineText, recordMembers, hitem]
  exact ⟨⟨h.roundTrips, Nat.pos_of_ne_zero hc0, lt_trans hexact.1 (by norm_num), by rw [htext, textOf]⟩,
    htext, hc⟩

theorem Legible.reread_self {r : JournalRecord} (h : Legible r) (hc : ExactNat r.cursor) :
    Reread r r := by
  obtain ⟨j, hj, hdec⟩ := h.roundTrips
  rw [meAnalyticsEventToJson, if_neg (not_lt.mpr h.roundTrips.printable.tracks)] at hj
  cases hj
  refine (recordFromLine_lineText h.roundTrips.printable h.lt).mpr ⟨r.cursor, r.event,
    readNat_eq_self.mpr hc, h.pos.ne', hdec, ?_⟩
  cases r
  simpa [textOf] using h.bytes

theorem legible_reread {pre out : List JournalRecord} (hp : ∀ r ∈ pre, Legible r)
    (h : List.Forall₂ Reread pre out) :
    fileOf out = fileOf pre ∧ ∀ r ∈ out, Legible r ∧ ExactNat r.cursor := by
  induction h with
  | nil => exact ⟨rfl, by simp⟩
  | @cons r r' pre out hr _ ih =>
    obtain ⟨hleg, htext, hread⟩ := (hp r List.mem_cons_self).reread hr
    obtain ⟨hfile, hout⟩ := ih fun x hx => hp x (List.mem_cons_of_mem _ hx)
    refine ⟨?_, List.forall_mem_cons.mpr ⟨⟨hleg, (readNat_settles hread).1⟩, hout⟩⟩
    simp only [fileOf, joinLines, List.map_cons, List.flatMap_cons, htext] at hfile ⊢
    rw [hfile]

/-- The complete lines of the file are those of legible records; a torn line may follow. -/
def Logged (disk : Bytes) : Prop :=
  ∃ rs tail, (∀ r ∈ rs, Legible r) ∧ newline ∉ tail ∧ disk = linesOf rs ++ tail

theorem logged_linesOf {rs : List JournalRecord} (h : ∀ r ∈ rs, Legible r) : Logged (linesOf rs) :=
  ⟨rs, [], h, List.not_mem_nil, by rw [List.append_nil]⟩

/-- Recovery of such a file. -/
theorem recover_logged {disk : Bytes} (h : Logged disk) :
    ∃ out, recover disk = (out, linesOf out) ∧ Sorted out ∧
      ∀ r ∈ out, Legible r ∧ ExactNat r.cursor := by
  obtain ⟨rs, tail, hrs, htail, rfl⟩ := h
  obtain ⟨pre, suf, out, rfl, hall, hsorted, hrec⟩ :=
    recover_lines (fun r hr => (hrs r hr).roundTrips.printable) htail
  obtain ⟨hfile, hout⟩ := legible_reread (fun r hr => hrs r (List.mem_append_left _ hr)) hall
  refine ⟨out, ?_, hsorted, hout⟩
  rw [linesOf_legible hrs, hrec, ← hfile, linesOf_legible fun r hr => (hout r hr).1]

/-- **Opening** over recovered lines: a represented journal, or a file of the recovered lines. -/
theorem meEventJournalOpen_recovered {disk : Bytes} {out : List JournalRecord}
    (hrec : recover disk = (out, linesOf out)) (hw : ∀ r ∈ out, Written r) (hs : Sorted out)
    {maxRecords maxBytes : ℕ} {opened : Option MeEventJournal} {disk' : Bytes}
    (hopen : meEventJournalOpen disk maxRecords maxBytes = (opened, disk')) :
    (∃ j, opened = some j ∧ Represents j disk' ∧ Evicted out j.records ∧
      j.nextCursor = lastCursor out ∧ j.maxRecords = maxRecords ∧ j.maxBytes = maxBytes ∧
      0 < maxRecords ∧ 0 < maxBytes) ∨
    (opened = none ∧ (disk' = disk ∨ disk' = linesOf out)) := by
  unfold meEventJournalOpen at hopen
  split at hopen
  · cases hopen
    exact .inr ⟨rfl, .inl rfl⟩
  next hpos =>
  simp only [hrec] at hopen
  have hbound := le_lastCursor hs
  split at hopen
  · split at hopen
    · cases hopen
      exact .inr ⟨rfl, .inr rfl⟩
    · next keep hev =>
      have hevicted := evicted_evictWhile hev
      have hfull := (evictWhile_spec hev).2
      have hwk : ∀ r ∈ keep, Written r := fun r hr => hw r (hevicted.sublist.subset hr)
      rw [writeRecords_written hwk] at hopen
      simp only [Prod.mk.injEq, length_linesOf hwk] at hopen
      obtain ⟨rfl, rfl⟩ := hopen
      simp only [Bool.or_eq_false_iff, decide_eq_false_iff_not, not_lt, Bool.and_eq_false_iff]
        at hfull
      refine .inl ⟨_, rfl, represents_mk hwk hfull.1 rfl ?_
        (List.Pairwise.sublist hevicted.sublist hs)
        (fun r hr => hbound r (hevicted.sublist.subset hr)), hevicted, rfl, rfl, rfl, by omega,
        by omega⟩
      rcases hfull.2 with hb | hb
      · exact hb
      · -- an empty queue has no bytes
        show totalBytes keep ≤ maxBytes
        rw [List.length_eq_zero_iff.mp (Nat.le_zero.mp hb)]
        exact Nat.zero_le _
  · next hfits =>
    cases hopen
    rw [not_or, not_lt, not_lt] at hfits
    exact .inl ⟨_, rfl, represents_mk hw hfits.1 rfl hfits.2 hs hbound, .refl _, rfl, rfl, rfl,
      by omega, by omega⟩

/-! ## Files written by this code -/

/-- The events are ones the codec round-trips. -/
def Action.Codable : Action → Prop
  | .append event | .crashAppend event _ => RoundTrips event
  | _ => True

/-- The file is one of legible lines, and an open journal represents it. -/
structure Kept (m : Machine) : Prop where
  logged : Logged m.disk
  opened : ∀ j, m.journal = some j → Represents j m.disk ∧ (∀ r ∈ j.records, Legible r) ∧
    j.nextCursor < 2 ^ 64

theorem Kept.closed {m : Machine} {disk : Bytes} (h : Logged disk) :
    Kept { m with disk := disk, journal := none } := ⟨h, by simp⟩

/-- A represented journal of legible records keeps both after an append of a codable event. -/
theorem append_legible {j : MeEventJournal} {disk : Bytes} {event : MeAnalyticsEvent}
    (h : Represents j disk) (hr : ∀ r ∈ j.records, Legible r) (hn : j.nextCursor < 2 ^ 64)
    (he : RoundTrips event) :
    (∀ r ∈ (meEventJournalAppend j disk event).2.1.records, Legible r) ∧
      (meEventJournalAppend j disk event).2.1.nextCursor < 2 ^ 64 := by
  have heff := (meEventJournalAppend_represents h event).2
  by_cases hmax : j.nextCursor = uint64Max
  · -- an exhausted journal refuses every event
    have : (meEventJournalAppend j disk event).2.1 = j := by
      unfold meEventJournalAppend
      split
      · rfl
      · rfl
    rw [this]
    exact ⟨hr, hn⟩
  generalize meEventJournalAppend j disk event = out at heff
  obtain ⟨r, j', disk'⟩ := out
  cases r with
  | ok c =>
    obtain ⟨rfl, hnext, keep, line, hline, hev, hrecs⟩ := heff
    have hlt : j.nextCursor + 1 < 2 ^ 64 := by
      simp only [uint64Max] at hmax
      omega
    rw [recordToLine_eq he.printable, Option.some.injEq] at hline
    simp only [hrecs, hnext]
    refine ⟨fun r hx => ?_, hlt⟩
    rcases List.mem_append.mp hx with hx | hx
    · exact hr r (hev.sublist.subset hx)
    · rw [List.mem_singleton.mp hx, ← hline]
      exact ⟨he, Nat.succ_pos _, hlt, by simp [textOf]⟩
  | dropped =>
    obtain ⟨hrecs, -, hnext⟩ := heff
    simp only [hrecs, hnext]
    exact ⟨hr, hn⟩
  | failed err =>
    obtain ⟨hrecs, -, hnext⟩ := heff
    simp only [hrecs, hnext]
    exact ⟨hr, hn⟩

theorem lastCursor_legible {rs : List JournalRecord} (h : ∀ r ∈ rs, Legible r) :
    lastCursor rs < 2 ^ 64 := by
  cases hl : rs.getLast? with
  | none => simp [lastCursor, hl]
  | some r => simpa [lastCursor, hl] using (h r (List.mem_of_getLast? hl)).lt

theorem kept_open {disk : Bytes} (h : Logged disk) {maxRecords maxBytes : ℕ}
    {opened : Option MeEventJournal} {disk' : Bytes}
    (hopen : meEventJournalOpen disk maxRecords maxBytes = (opened, disk')) :
    Logged disk' ∧ ∀ j, opened = some j → Represents j disk' ∧ (∀ r ∈ j.records, Legible r) ∧
      j.nextCursor < 2 ^ 64 := by
  obtain ⟨out, hrec, hsorted, hout⟩ := recover_logged h
  have hleg : ∀ r ∈ out, Legible r := fun r hr => (hout r hr).1
  rcases meEventJournalOpen_recovered hrec (fun r hr => (hleg r hr).written) hsorted hopen with
    ⟨j, rfl, hrep, hev, hnext, -⟩ | ⟨rfl, hdisk⟩
  · have hj : ∀ r ∈ j.records, Legible r := fun r hr => hleg r (hev.sublist.subset hr)
    refine ⟨hrep.file ▸ logged_linesOf hj, ?_⟩
    rintro j' ⟨⟩
    exact ⟨hrep, hj, hnext ▸ lastCursor_legible hleg⟩
  · refine ⟨?_, by simp⟩
    rcases hdisk with rfl | rfl
    · exact h
    · exact logged_linesOf hleg

theorem beforeWrite_kept {j j' : MeEventJournal} {disk disk' line : Bytes}
    {event : MeAnalyticsEvent} (h : Represents j disk)
    (hb : beforeWrite j disk event = some (j', disk', line)) :
    ∃ keep, Evicted j.records keep ∧ disk' = linesOf keep ∧
      recordToLine (j.nextCursor + 1) event = some line ∧ j.nextCursor ≠ uint64Max := by
  unfold beforeWrite at hb
  split at hb
  · cases hb
  next hc =>
  rw [not_or] at hc
  split at hb
  · cases hb
  next hline =>
  split at hb
  · cases hb
  · next hm =>
    cases hb
    obtain ⟨keep, hev, hdisk, -⟩ := makeRoom_represents h hm
    exact ⟨keep, hev, hdisk, hline, hc.2⟩

/-- The file at a cut of `append`: the rewritten lines, and the front of the new one. -/
theorem logged_cutAppend {j : MeEventJournal} {disk : Bytes} {event : MeAnalyticsEvent}
    (h : Represents j disk) (hr : ∀ r ∈ j.records, Legible r) (hn : j.nextCursor < 2 ^ 64)
    (he : RoundTrips event) (cut : AppendCut) : Logged (cutAppend j disk event cut) := by
  have hsame : Logged disk := h.file ▸ logged_linesOf hr
  cases cut with
  | start => exact hsame
  | compacted =>
    simp only [cutAppend]
    cases hb : beforeWrite j disk event with
    | none => exact hsame
    | some w =>
      obtain ⟨j', disk', line⟩ := w
      obtain ⟨keep, hkeep, rfl, -, -⟩ := beforeWrite_kept h hb
      exact logged_linesOf fun r hx => hr r (hkeep.sublist.subset hx)
  | torn n =>
    simp only [cutAppend]
    cases hb : beforeWrite j disk event with
    | none => exact hsame
    | some w =>
      obtain ⟨j', disk', line⟩ := w
      obtain ⟨keep, hkeep, rfl, hline, hmax⟩ := beforeWrite_kept h hb
      have hleg : ∀ r ∈ keep, Legible r := fun r hx => hr r (hkeep.sublist.subset hx)
      rw [recordToLine_eq he.printable, Option.some.injEq] at hline
      subst hline
      simp only
      rcases Nat.lt_or_ge n ((lineText (j.nextCursor + 1) event).length + 1) with hlt | hge
      · refine ⟨keep, _, hleg, ?_, rfl⟩
        rw [List.take_append_of_le_length (by omega)]
        exact fun hx => newline_not_mem_lineText he.printable (List.mem_of_mem_take hx)
      · rw [List.take_of_length_le (by simpa using hge)]
        have hnew : Legible ⟨j.nextCursor + 1, event,
            (lineText (j.nextCursor + 1) event).length + 1⟩ := by
          refine ⟨he, Nat.succ_pos _, ?_, rfl⟩
          simp only [uint64Max] at hmax
          simp only
          omega
        have hall : ∀ r ∈ keep ++ [⟨j.nextCursor + 1, event,
            (lineText (j.nextCursor + 1) event).length + 1⟩], Legible r := by
          intro r hx
          rcases List.mem_append.mp hx with hx | hx
          · exact hleg r hx
          · rw [List.mem_singleton.mp hx]
            exact hnew
        have hfile := logged_linesOf hall
        rw [linesOf_append, linesOf, linesOf, List.flatMap_singleton, hnew.lineOf] at hfile
        exact hfile

theorem kept_step {m : Machine} (h : Kept m) {a : Action} (ha : a.Codable) : Kept (step m a) := by
  cases a with
  | «open» maxRecords maxBytes =>
    unfold step
    cases hj : m.journal with
    | some j => exact h
    | none =>
      obtain ⟨hlog, hopened⟩ := kept_open h.logged (Prod.eta _).symm
      exact ⟨hlog, hopened⟩
  | append event =>
    unfold step
    cases hj : m.journal with
    | none => exact h
    | some j =>
      obtain ⟨hrep, hleg, hnext⟩ := h.opened j hj
      obtain ⟨hrep', -⟩ := meEventJournalAppend_represents hrep event
      obtain ⟨hleg', hnext'⟩ := append_legible hrep hleg hnext ha
      have hkept : ∀ issued, Kept ⟨(meEventJournalAppend j m.disk event).2.2,
          some (meEventJournalAppend j m.disk event).2.1, issued⟩ := fun issued =>
        ⟨hrep'.file ▸ logged_linesOf hleg', fun _ hx => Option.some.inj hx ▸ ⟨hrep', hleg', hnext'⟩⟩
      simp only
      split
      next heq => simpa only [heq] using hkept (m.issued ++ [_])
      next heq => simpa only [heq] using hkept m.issued
  | close => exact .closed h.logged
  | crash => exact .closed h.logged
  | crashOpen maxRecords maxBytes cut =>
    unfold step
    cases hj : m.journal with
    | some j => exact h
    | none =>
      refine ⟨?_, by simp⟩
      cases cut with
      | start => exact h.logged
      | truncated =>
        obtain ⟨out, hrec, -, hout⟩ := recover_logged h.logged
        simp only [cutOpen, hrec]
        split
        · exact h.logged
        · exact logged_linesOf fun r hr => (hout r hr).1
      | rewritten => exact (kept_open h.logged (Prod.eta _).symm).1
  | crashAppend event cut =>
    unfold step
    cases hj : m.journal with
    | none => exact h
    | some j =>
      obtain ⟨hrep, hleg, hnext⟩ := h.opened j hj
      exact .closed (logged_cutAppend hrep hleg hnext ha cut)

theorem kept_run {actions : List Action} (ha : ∀ a ∈ actions, a.Codable) :
    Kept (run .fresh actions) := by
  have go : ∀ (actions : List Action) (m : Machine), Kept m → (∀ a ∈ actions, a.Codable) →
      Kept (run m actions) := by
    intro actions
    induction actions with
    | nil => exact fun m h _ => h
    | cons a as ih =>
      intro m h hall
      obtain ⟨ha, has⟩ := List.forall_mem_cons.mp hall
      exact ih _ (kept_step h ha) has
  exact go actions _ ⟨⟨[], [], by simp, by simp, rfl⟩, by simp [Machine.fresh]⟩ ha

/-- **The representation invariant.** A journal opened on a new file, or on one left by any
lifetimes and crashes of this code with events the codec round-trips, satisfies `Represents` after
every sequence of appends; the boundaries accepted since are all retained in order behind the
earlier ones; and a further append either adds its record behind what is left without some of the
oldest UPDATEs, or changes neither queue, file nor next cursor. -/
theorem appended_represents {past : List Action} (hpast : ∀ a ∈ past, a.Codable)
    {maxRecords maxBytes : ℕ} {j₀ j : MeEventJournal} {disk₀ disk : Bytes}
    {events : List MeAnalyticsEvent} {log : List (ℕ × MeAnalyticsEvent)}
    (hopen : meEventJournalOpen (run .fresh past).disk maxRecords maxBytes = (some j₀, disk₀))
    (hrun : appendAll j₀ disk₀ events = (j, disk, log)) :
    Represents j disk ∧ (j.maxRecords = maxRecords ∧ j.maxBytes = maxBytes) ∧
      entries (boundaries j.records) =
        entries (boundaries j₀.records) ++ log.filter (fun p => p.2.phase ≠ .update) ∧
      ∀ event, Effect j disk event (meEventJournalAppend j disk event) := by
  obtain ⟨out, hrec, hsorted, hout⟩ := recover_logged (kept_run hpast).logged
  have hw : ∀ r ∈ out, Written r := fun r hr => (hout r hr).1.written
  rcases meEventJournalOpen_recovered hrec hw hsorted hopen with
    ⟨j₁, hj₁, hrep, -, -, hmr, hmb, -⟩ | ⟨hnone, -⟩
  · cases hj₁
    have hran := appendAll_ran hrep hrun
    exact ⟨hran.represents, ⟨hran.maxRecords.trans hmr, hran.maxBytes.trans hmb⟩,
      hran.extended.boundaries, fun event => (meEventJournalAppend_represents hran.represents event).2⟩
  · cases hnone

/-! ### A full journal -/

/-- The engine's first START, UPDATE and END on a journal with room for two records. -/
def threeEvents : MeEventJournal × Bytes × List (ℕ × MeAnalyticsEvent) :=
  appendAll (openedOver 2 65536 []) []
    [startAt 40000000, followAt .update, followAt .end_]

theorem appended_represents_demo :
    entries threeEvents.1.records = [(1, startAt 40000000), (3, followAt .end_)] ∧
    Represents threeEvents.1 threeEvents.2.1 := by
  refine ⟨by decide +kernel, ?_⟩
  have hfresh : meEventJournalOpen (run .fresh []).disk 2 65536 = (some (openedOver 2 65536 []), []) :=
    rfl
  exact (appended_represents (by simp) hfresh (Prod.eta _).symm).1

end FlowAlarm.Journal
