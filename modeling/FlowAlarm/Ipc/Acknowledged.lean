import FlowAlarm.Ipc.EventDelivery

/-!
# Acknowledged records and the journal's room

`ipc_handle_ack_events` moves the cursor of one client; the journal does not
hear of it. What makes room in the journal is eviction, and eviction takes
UPDATEs only. So the START and END records of a journal are those it was opened
with and all accepted since, whatever clients acknowledged, and these decide
whether the next START or END is accepted (`boundary_room`).
-/

namespace FlowAlarm.Ipc

open FlowAlarm.Text FlowAlarm.Engine FlowAlarm.Codec FlowAlarm.Journal

/-! ## The journal of a running engine -/

/-- What any journal keeps to, whatever file it was opened on. -/
structure Stocked (j : MeEventJournal) : Prop where
  bytes : j.bytes = totalBytes j.records
  encodes : ∀ p ∈ entries j.records, (meAnalyticsEventToJson p.2).isSome

theorem writeRecords_bytes {rs rs' : List JournalRecord} {text : Bytes}
    (h : writeRecords rs = some (rs', text)) : totalBytes rs' = text.length := by
  induction rs generalizing rs' text with
  | nil =>
    cases h
    rfl
  | cons r rs ih =>
    rw [writeRecords] at h
    split at h
    · next hrs =>
      cases h
      simp only [totalBytes, List.map_cons, List.sum_cons, List.length_append] at ih ⊢
      rw [ih hrs]
    · cases h

theorem writeRecords_succeeds {rs : List JournalRecord}
    (h : ∀ p ∈ entries rs, (meAnalyticsEventToJson p.2).isSome) :
    ∃ rs' text, writeRecords rs = some (rs', text) := by
  obtain ⟨rs', text, hw, -⟩ := writeRecords_total fun r hr =>
    toJson_isSome.mp (h (r.cursor, r.event) (List.mem_map_of_mem hr))
  exact ⟨rs', text, hw⟩

/-- The bounds of the journal leave room for `incoming` bytes beside the START and END records. -/
def BoundaryRoom (j : MeEventJournal) (incoming : ℕ) : Prop :=
  (boundaries j.records).length + 1 ≤ j.maxRecords ∧
    totalBytes (boundaries j.records) + incoming ≤ j.maxBytes

instance (j : MeEventJournal) (incoming : ℕ) : Decidable (BoundaryRoom j incoming) :=
  inferInstanceAs (Decidable (_ ∧ _))

section Compaction

variable {j : MeEventJournal} {incoming : ℕ} {phase : MeEventPhase}

theorem compactToFit_room (h : BoundaryRoom j incoming) :
    compactToFit j incoming phase = .fits ∨
      ∃ keep, compactToFit j incoming phase = .rewrite keep ∧ keep.Sublist j.records := by
  obtain ⟨hcount, hbytes⟩ := h
  unfold compactToFit
  split
  · exact .inl rfl
  rw [if_neg (by omega)]
  obtain ⟨keep, hkeep⟩ : ∃ keep, evictWhile (fun keep => j.maxRecords < keep.length + 1 ||
      j.maxBytes < totalBytes keep || j.maxBytes - totalBytes keep < incoming)
        j.records.length j.records = some keep :=
    evictWhile_isSome le_rfl (by simp; omega)
  rw [hkeep]
  exact .inr ⟨keep, rfl, (evictWhile_spec hkeep).1⟩

theorem compactToFit_full (hs : Stocked j) (hp : phase ≠ .update) (h : ¬ BoundaryRoom j incoming) :
    ∃ err, compactToFit j incoming phase = .failed err := by
  have hsub : (boundaries j.records).Sublist j.records := List.filter_sublist
  have hlen := hsub.length_le
  have htotal := totalBytes_sublist hsub
  rw [← hs.bytes] at htotal
  unfold compactToFit
  split
  · next hfits => exact absurd ⟨by omega, by omega⟩ h
  split
  · exact ⟨_, rfl⟩
  split
  · next keep hev =>
    exfalso
    obtain ⟨-, hfull⟩ := evictWhile_spec hev
    simp only [Bool.or_eq_false_iff, decide_eq_false_iff_not, not_lt] at hfull
    have hkeep : (boundaries keep).Sublist keep := List.filter_sublist
    rw [(evicted_evictWhile hev).boundaries] at hkeep
    have := hkeep.length_le
    have := totalBytes_sublist hkeep
    exact h ⟨by omega, by omega⟩
  · exact ⟨_, rfl⟩

/-- **When a START or END is accepted.** -/
theorem append_boundary_iff (hs : Stocked j) {event : MeAnalyticsEvent}
    (hp : event.phase = .start ∨ event.phase = .end_) {line : Bytes}
    (hline : recordToLine (j.nextCursor + 1) event = some line) (disk : Bytes) :
    (∃ cursor, (meEventJournalAppend j disk event).1 = .ok cursor) ↔
      j.nextCursor ≠ uint64Max ∧ BoundaryRoom j line.length := by
  have hvalid : validPhase event.phase = true := by
    rcases hp with hp | hp <;> rw [hp] <;> rfl
  have hupd : event.phase ≠ .update := by
    rcases hp with hp | hp <;> rw [hp] <;> simp
  unfold meEventJournalAppend
  simp only [hvalid, Bool.not_true, Bool.false_eq_true, if_false, hline]
  by_cases hmax : j.nextCursor = uint64Max
  · simp [hmax]
  rw [if_neg hmax]
  by_cases hroom : BoundaryRoom j line.length
  · refine iff_of_true ?_ ⟨hmax, hroom⟩
    unfold makeRoom
    rcases @compactToFit_room j line.length event.phase hroom with hc | ⟨keep, hc, hsub⟩
    · rw [hc]
      exact ⟨_, rfl⟩
    · obtain ⟨rs', text, hw⟩ := writeRecords_succeeds fun p hx =>
        hs.encodes p ((hsub.map _).subset hx)
      rw [hc]
      simp only [hw]
      exact ⟨_, rfl⟩
  · obtain ⟨err, hc⟩ := compactToFit_full hs hupd hroom
    simp [makeRoom, hc, hroom]

end Compaction

/-! ## What an append leaves of the boundaries -/

theorem boundaries_entries (rs : List JournalRecord) :
    entries (boundaries rs) = (entries rs).filter (fun p => p.2.phase ≠ .update) := by
  simp only [entries, boundaries, List.filter_map]
  rfl

/-- Making room keeps the boundaries and the limits. -/
theorem makeRoom_boundaries {j j' : MeEventJournal} {disk disk' line : Bytes}
    {phase : MeEventPhase} (hs : Stocked j)
    (h : makeRoom j disk line phase = .ok (j', disk')) :
    Stocked j' ∧ entries (boundaries j'.records) = entries (boundaries j.records) ∧
      j'.maxRecords = j.maxRecords ∧ j'.maxBytes = j.maxBytes := by
  unfold makeRoom at h
  split at h
  · cases h
    exact ⟨hs, rfl, rfl, rfl⟩
  · cases h
  · cases h
  · next keep hkeep =>
    split at h
    · cases h
    next kept text hw =>
    cases h
    have hev : Evicted j.records keep := by
      unfold compactToFit at hkeep
      repeat' split at hkeep
      all_goals cases hkeep
      next hev => exact evicted_evictWhile hev
    have hent : entries kept = entries keep := writeRecords_entries hw
    refine ⟨⟨(writeRecords_bytes hw).symm, fun p hp => ?_⟩, ?_, rfl, rfl⟩
    · simp only [hent] at hp
      exact hs.encodes p ((hev.sublist.map _).subset hp)
    · simp only [boundaries_entries, hent]
      rw [← boundaries_entries, hev.boundaries, boundaries_entries]

/-- An append adds its event to the boundaries if it is one and is accepted. -/
theorem append_boundaries {j : MeEventJournal} (hs : Stocked j) (disk : Bytes)
    (event : MeAnalyticsEvent) :
    Stocked (meEventJournalAppend j disk event).2.1 ∧
      (meEventJournalAppend j disk event).2.1.maxRecords = j.maxRecords ∧
      (meEventJournalAppend j disk event).2.1.maxBytes = j.maxBytes ∧
      (boundaries (meEventJournalAppend j disk event).2.1.records).map (·.event) =
        (boundaries j.records).map (·.event) ++
          match (meEventJournalAppend j disk event).1 with
          | .ok _ => [event].filter (·.phase ≠ .update)
          | _ => [] := by
  have hsame : Stocked j ∧ j.maxRecords = j.maxRecords ∧ j.maxBytes = j.maxBytes ∧
      (boundaries j.records).map (·.event) = (boundaries j.records).map (·.event) ++ [] :=
    ⟨hs, rfl, rfl, by simp⟩
  unfold meEventJournalAppend
  split
  · exact hsame
  split
  · exact hsame
  split
  · exact hsame
  next line hline =>
  have hjson : (meAnalyticsEventToJson event).isSome := by
    cases hj : meAnalyticsEventToJson event with
    | none => simp [recordToLine, recordText, hj] at hline
    | some json => rfl
  split
  · exact ⟨⟨hs.bytes, hs.encodes⟩, hsame.2⟩
  · next r hr hm =>
    cases r with
    | dropped => exact absurd rfl hr
    | failed err => exact hsame
    | ok c =>
      unfold makeRoom at hm
      split at hm
      · cases hm
      · cases hm
      · cases hm
      · split at hm <;> cases hm
  · next j' disk' hm =>
    obtain ⟨hs', hent, hmr, hmb⟩ := makeRoom_boundaries hs hm
    have hevents : (boundaries j'.records).map (·.event) = (boundaries j.records).map (·.event) := by
      have := congrArg (List.map Prod.snd) hent
      simp only [entries, List.map_map] at this
      exact this
    refine ⟨⟨?_, fun p hp => ?_⟩, hmr, hmb, ?_⟩
    · simp [pushRecord, hs'.bytes, totalBytes]
    · simp only [pushRecord, entries, List.map_append, List.mem_append] at hp
      rcases hp with hp | hp
      · exact hs'.encodes p hp
      · rw [List.mem_singleton.mp hp]
        exact hjson
    · simp only [pushRecord, boundaries_append, List.map_append, hevents]
      by_cases hu : event.phase = .update <;> simp [boundaries, hu]

/-! ## Runs of the hub -/

/-- The event an input brings into the journal. -/
def accepted (m : Hub) : Input → List MeAnalyticsEvent
  | .append event =>
    match m.eventJournal, m.appended with
    | some j, none =>
      match (meEventJournalAppend j m.disk event).1 with
      | .ok _ => [event]
      | _ => []
    | _, _ => []
  | _ => []

/-- The events a run brings into the journal. -/
def allAccepted (m : Hub) : List Input → List MeAnalyticsEvent
  | [] => []
  | i :: is => accepted m i ++ allAccepted (step m i).1 is

/-- The START and END events among them. -/
def boundaryEvents (events : List MeAnalyticsEvent) : List MeAnalyticsEvent :=
  events.filter (·.phase ≠ .update)

theorem boundaryEvents_append (xs ys : List MeAnalyticsEvent) :
    boundaryEvents (xs ++ ys) = boundaryEvents xs ++ boundaryEvents ys := List.filter_append ..

/-- What holds of the journal `j` of a hub whose journal was `j₀` before `events` were accepted. -/
structure Holds (j₀ : MeEventJournal) (events : List MeAnalyticsEvent) (j : MeEventJournal) :
    Prop where
  stocked : Stocked j
  maxRecords : j.maxRecords = j₀.maxRecords
  maxBytes : j.maxBytes = j₀.maxBytes
  boundaries : (boundaries j.records).map (·.event) =
    (Journal.boundaries j₀.records).map (·.event) ++ boundaryEvents events

theorem deliver_journal (m : Hub) (d : AnalyticsEventDispatch) :
    (deliver m d).1.eventJournal = m.eventJournal := by
  rw [deliver, broadcast]
  split <;> rfl

/-- The step lemma: an input adds the event it brings in, and no acknowledgement takes one away. -/
theorem step_holds {m : Hub} {j₀ j j' : MeEventJournal} {events : List MeAnalyticsEvent}
    (h : Holds j₀ events j) (hj : m.eventJournal = some j) {i : Input}
    (hj' : (step m i).1.eventJournal = some j') : Holds j₀ (events ++ accepted m i) j' := by
  have hsame : m.eventJournal = some j' → Holds j₀ (events ++ []) j' := fun hx => by
    rw [hj, Option.some.injEq] at hx
    rw [List.append_nil]
    exact hx ▸ h
  cases i with
  | append event =>
    simp only [accepted]
    simp only [step] at hj'
    rw [hj] at hj' ⊢
    cases hp : m.appended with
    | some d =>
      rw [hp] at hj'
      exact hsame hj'
    | none =>
      simp only [hp] at hj'
      obtain ⟨hs, hmr, hmb, hb⟩ := append_boundaries h.stocked m.disk event
      simp only
      generalize meEventJournalAppend j m.disk event = out at hj' hs hmr hmb hb ⊢
      obtain ⟨r, j₁, disk⟩ := out
      obtain rfl : j₁ = j' := by cases r <;> exact Option.some.inj hj'
      refine ⟨hs, hmr.trans h.maxRecords, hmb.trans h.maxBytes, ?_⟩
      rw [hb, h.boundaries, boundaryEvents_append, List.append_assoc]
      cases r <;> rfl
  | invoke =>
    refine hsame ?_
    rw [← hj']
    unfold step
    cases m.appended with
    | none => rfl
    | some d =>
      simp only
      split
      · rfl
      · rw [deliver_journal]
  | dispatch =>
    refine hsame ?_
    rw [← hj']
    unfold step
    cases m.queue with
    | nil => rfl
    | cons d rest => simp only [deliver_journal]
  | run => exact hsame hj'
  | quit => exact hsame hj'
  | connect fd => exact hsame hj'
  | close fd => exact hsame hj'
  | subscribe fd after writes =>
    refine hsame ?_
    rw [← hj']
    simp only [step, hj, subscribe]
  | ack fd cursor =>
    refine hsame ?_
    rw [← hj']
    simp only [step, hj]
  | deinit last =>
    exfalso
    simp only [step, hj] at hj'
    cases last with
    | none => cases hj'
    | some event =>
      simp only at hj'
      split at hj' <;> cases hj'

theorem step_none {m : Hub} (h : m.eventJournal = none) (i : Input) :
    (step m i).1.eventJournal = none := by
  cases i with
  | append event => simp only [step, h]
  | invoke =>
    unfold step
    cases m.appended with
    | none => exact h
    | some d =>
      simp only
      split
      · exact h
      · rw [deliver_journal]
        exact h
  | dispatch =>
    unfold step
    cases m.queue with
    | nil => exact h
    | cons d rest =>
      simp only [deliver_journal]
      exact h
  | run => exact h
  | quit => exact h
  | connect fd => exact h
  | close fd => exact h
  | subscribe fd after writes => simp only [step, h]
  | ack fd cursor => simp only [step, h]
  | deinit last => simp only [step, h]

theorem run_none {m : Hub} (h : m.eventJournal = none) (inputs : List Input) :
    (run m inputs).1.eventJournal = none := by
  induction inputs generalizing m with
  | nil => exact h
  | cons i is ih => exact ih (step_none h i)

/-- The run lemma. -/
theorem run_holds {m : Hub} {j₀ j j' : MeEventJournal} {events : List MeAnalyticsEvent}
    (h : Holds j₀ events j) (hj : m.eventJournal = some j) {inputs : List Input}
    (hj' : (run m inputs).1.eventJournal = some j') :
    Holds j₀ (events ++ allAccepted m inputs) j' := by
  induction inputs generalizing m j events with
  | nil =>
    obtain rfl := Option.some.inj (hj.symm.trans hj')
    rw [allAccepted, List.append_nil]
    exact h
  | cons i is ih =>
    cases hmid : (step m i).1.eventJournal with
    | none =>
      have : (run m (i :: is)).1.eventJournal = none := run_none hmid is
      rw [this] at hj'
      cases hj'
    | some j₁ =>
      rw [allAccepted, ← List.append_assoc]
      exact ih (step_holds h hj hmid) hmid hj'

theorem stocked_open {disk disk' : Bytes} {maxRecords maxBytes : ℕ} {j : MeEventJournal}
    (h : meEventJournalOpen disk maxRecords maxBytes = (some j, disk')) :
    Stocked j ∧ j.maxRecords = maxRecords ∧ j.maxBytes = maxBytes := by
  have hencodes : ∀ p ∈ entries j.records, (meAnalyticsEventToJson p.2).isSome := fun p hp => by
    obtain ⟨r, hr, rfl⟩ := List.mem_map.mp ((open_entries h).1.subset hp)
    exact (readLines_sendable 0 _ r hr).2
  unfold meEventJournalOpen at h
  split at h
  · cases h
  generalize recover disk = out at h
  obtain ⟨rs, cut⟩ := out
  simp only at h
  split at h
  · split at h
    · cases h
    · split at h
      · cases h
      · next kept text hw =>
        cases h
        exact ⟨⟨(writeRecords_bytes hw).symm, hencodes⟩, rfl, rfl⟩
  · cases h
    exact ⟨⟨rfl, hencodes⟩, rfl, rfl⟩

/-- **Acknowledged or not, a START or END stays.** Over any run of the hub on any file the START and
END records of the journal are those it was opened with and all accepted since; and a further one
whose line can be written is accepted exactly if cursors are left and the limits have room for it
beside them. -/
theorem boundary_room {disk : Bytes} {maxRecords maxBytes : ℕ} {j₀ j : MeEventJournal}
    (hj₀ : (Hub.fresh disk maxRecords maxBytes).eventJournal = some j₀) {inputs : List Input}
    (hj : (run (.fresh disk maxRecords maxBytes) inputs).1.eventJournal = some j) :
    (boundaries j.records).map (·.event) = (boundaries j₀.records).map (·.event) ++
        boundaryEvents (allAccepted (.fresh disk maxRecords maxBytes) inputs) ∧
      ∀ event line, event.phase = .start ∨ event.phase = .end_ →
        recordToLine (j.nextCursor + 1) event = some line →
        ((∃ cursor, (meEventJournalAppend j
            (run (.fresh disk maxRecords maxBytes) inputs).1.disk event).1 = .ok cursor) ↔
          j.nextCursor ≠ uint64Max ∧ (boundaries j.records).length + 1 ≤ maxRecords ∧
            totalBytes (boundaries j.records) + line.length ≤ maxBytes) := by
  have hopen : meEventJournalOpen disk maxRecords maxBytes =
      (some j₀, (meEventJournalOpen disk maxRecords maxBytes).2) := Prod.ext hj₀ rfl
  obtain ⟨hs, hmr, hmb⟩ := stocked_open hopen
  have hstart : Holds j₀ [] j₀ := ⟨hs, rfl, rfl, by simp [boundaryEvents]⟩
  have hrun := run_holds hstart hj₀ hj
  rw [List.nil_append] at hrun
  refine ⟨hrun.boundaries, fun event line hp hline => ?_⟩
  rw [append_boundary_iff hrun.stocked hp hline, BoundaryRoom, hrun.maxRecords, hrun.maxBytes, hmr,
    hmb]

example : (run (.fresh [] 3 65536) [.run, .connect 3]).1.eventJournal.isSome = true := by
  decide +kernel

/-! ### An acknowledged journal that refuses -/

/-- A subscriber is sent a START and its END and acknowledges both. -/
def acknowledgedPair : List Input :=
  [.run, .connect 3, .subscribe 3 0 0, .append (startAt 40000000), .invoke, .dispatch,
    .append (followAt .end_), .invoke, .dispatch, .ack 3 2]

/-- The journal, with room for `maxRecords` records, and the cursors its clients acknowledged. -/
def acknowledged (maxRecords : ℕ) : Hub := (run (.fresh [] maxRecords 65536) acknowledgedPair).1

/-- With room for three records, the next START is accepted behind the acknowledged pair. -/
theorem boundary_room_demo :
    ∃ j, (acknowledged 3).eventJournal = some j ∧
      (acknowledged 3).clients.map (·.analyticsAckCursor) = [meEventJournalLatestCursor j] ∧
      ∃ cursor, (meEventJournalAppend j (acknowledged 3).disk (startAt 80000000)).1 =
        .ok cursor := by
  have heval : ∃ j₀ j line, (Hub.fresh [] 3 65536).eventJournal = some j₀ ∧
      (acknowledged 3).eventJournal = some j ∧
      (acknowledged 3).clients.map (·.analyticsAckCursor) = [meEventJournalLatestCursor j] ∧
      recordToLine (j.nextCursor + 1) (startAt 80000000) = some line ∧
      j.nextCursor ≠ uint64Max ∧ (boundaries j.records).length + 1 ≤ 3 ∧
      totalBytes (boundaries j.records) + line.length ≤ 65536 := by
    refine ⟨((Hub.fresh [] 3 65536).eventJournal).get (by decide +kernel),
      ((acknowledged 3).eventJournal).get (by decide +kernel),
      (recordToLine 3 (startAt 80000000)).get (by decide +kernel), ?_⟩
    decide +kernel
  obtain ⟨j₀, j, line, hj₀, hj, hack, hline, hroom⟩ := heval
  exact ⟨j, hj, hack, ((boundary_room hj₀ hj).2 _ line (.inl rfl) hline).mpr hroom⟩

/-- A journal of two records, all acknowledged, refuses the next START, whose line alone fits. -/
theorem acknowledged_refuses :
    ∃ j line, (acknowledged 2).eventJournal = some j ∧
      (acknowledged 2).clients.map (·.analyticsAckCursor) = [meEventJournalLatestCursor j] ∧
      recordToLine (j.nextCursor + 1) (startAt 80000000) = some line ∧ line.length ≤ 65536 ∧
      (meEventJournalAppend j (acknowledged 2).disk (startAt 80000000)).1 =
        .failed (ascii "event journal full: lifecycle boundary protected") := by
  refine ⟨((acknowledged 2).eventJournal).get (by decide +kernel),
    (recordToLine 3 (startAt 80000000)).get (by decide +kernel), ?_⟩
  decide +kernel

end FlowAlarm.Ipc
