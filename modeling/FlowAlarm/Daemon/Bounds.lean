import FlowAlarm.Daemon.Runs

/-!
# The bounds of the outbox

Every call leaves the file within `maxBytes`, the records within `maxRecords`
and the alarm numbers within 1..999999, whatever the call returns. `Changes`
says what a call does to the records; the file and the next number are read off
`call_does`.
-/

namespace FlowAlarm.Outbox

open FlowAlarm.Text FlowAlarm.Media Relation

/-! ## What a call does to the records -/

/-- The records after a call: some removed, one changed in place under its number, or one added in
a place that was made free. -/
inductive Changes (s : Store) : List Record → Prop where
  | removed {rs : List Record} : Removes s.records rs → Changes s rs
  | updated {r r' : Record} : lookup r'.key s.records = some r → r'.alarmSN = r.alarmSN →
      Changes s (Keyed.insert Record.key r' s.records)
  | added {r : Record} {rs : List Record} : Removes s.records rs → rs.length < s.maxRecords →
      lookup r.key rs = none → r.alarmSN ≤ maxAlarmSN →
      Changes s (Keyed.insert Record.key r rs)

theorem Removal.length_lt {rs rs' : List Record} (h : Removal rs rs') :
    rs'.length < rs.length := by
  cases h with
  | evict hc => exact Keyed.length_erase_lt (Keyed.selectBest_mem hc).1
  | coalesce hm _ => exact Keyed.length_erase_lt hm

theorem Removes.length_le {rs rs' : List Record} (h : Removes rs rs') :
    rs'.length ≤ rs.length := by
  induction h with
  | refl => exact le_rfl
  | tail _ h ih => exact h.length_lt.le.trans ih

theorem evictTerminals_length {maxRecords n : Nat} {rs rs' : List Record}
    (h : evictTerminals maxRecords n rs = some rs') : rs'.length < maxRecords := by
  induction n generalizing rs with
  | zero =>
    simp only [evictTerminals] at h
    split at h
    next hlt =>
      cases h
      exact hlt
    · cases h
  | succ n ih =>
    simp only [evictTerminals] at h
    split at h
    next hlt =>
      cases h
      exact hlt
    split at h
    · cases h
    · exact ih h

/-- When room was made there is a free place. -/
theorem makeRoom_length {env : Env} {event : AnalyticsEvent} {s s' : Store}
    (hs : s.records.length ≤ s.maxRecords) (h : makeRoom env event s = (none, s')) :
    s'.records.length < s.maxRecords := by
  unfold makeRoom at h
  split at h
  next hfull =>
    split at h
    · unfold coalesceUpdateLocked at h
      cases hc : coalesceCandidate event (env.order.order s.records) with
      | none => simp [hc] at h
      | some c =>
        simp only [hc] at h
        cases hct : compactTo (env.io 0).compact (Keyed.erase Record.key c.key s.records) s with
        | mk res s₁ =>
          cases res with
          | some e => simp [hct] at h
          | none =>
            obtain ⟨-, -, rfl⟩ := compactTo_none hct
            simp only [hct, Prod.mk.injEq, true_and] at h
            rw [← h]
            exact (Keyed.length_erase_lt (coalesceCandidate_spec hc).1).trans_le hs
    · unfold makeRoomForBoundaryLocked at h
      split at h
      · cases h
      next rs hrs =>
        obtain ⟨-, -, rfl⟩ := compactTo_none h
        exact evictTerminals_length hrs
  next hroom =>
    cases h
    exact not_le.mp hroom

/-- The records an append leaves. -/
theorem Append.removes {fine faulty : Prop} {R : Memory → Memory → Prop} {e : JournalEntry}
    {s s' : Store} {err : Option Err} (h : Append fine faulty R e s err s') :
    Removes s.records s'.records := by
  cases h with
  | wrote hp => exact hp.kept.removes
  | failed hp => exact hp.kept.removes
  | torn hp => exact hp.kept.removes

theorem appendRecord_removes (env : Env) (r : Record) (s : Store) :
    Removes s.records (appendRecord env r s).2.records :=
  (@appendRecord_append False True env r s (fun _ _ => trivial) fun _ _ h => h).removes

theorem makeRoom_removes {env : Env} {event : AnalyticsEvent} {s : Store}
    (hsn : badAlarmSN s.nextAlarmSN = false) :
    Removes s.records (makeRoom env event s).2.records :=
  (@makeRoom_prepared False True env event s (fun _ => trivial) hsn).kept.removes

theorem enqueue_changes {env : Env} {event : AnalyticsEvent} {cursor : Nat} {alarm evidence : Bool}
    {s : Store} (hw : WF s.deviceID s.toMemory) (hs : s.records.length ≤ s.maxRecords) :
    Changes s (enqueueWithEvidence env event cursor alarm evidence s).2.records := by
  unfold enqueueWithEvidence
  split
  · exact .removed .refl
  split
  · exact .removed .refl
  split
  · exact .removed .refl
  next hnew =>
  have hroom := @makeRoom_removes env event s hw.nextAlarmSN
  cases hmr : makeRoom env event s with
  | mk res s₁ =>
    rw [hmr] at hroom
    cases res with
    | some e => exact .removed hroom
    | none =>
      dsimp only
      have hk₁ := (@makeRoom_prepared False True env event s (fun _ => trivial)
        hw.nextAlarmSN).kept
      rw [hmr] at hk₁
      have hlt := makeRoom_length hs hmr
      obtain ⟨-, -, hle, -, hs₂⟩ := @scheduleAlarm_spec alarm s₁ (hk₁.wf hw).nextAlarmSN
      generalize scheduleAlarm alarm s₁ = sched at *
      obtain ⟨state, sn, s₂⟩ := sched
      dsimp only at hle hs₂ ⊢
      have hrecords : s₂.records = s₁.records := by rw [hs₂]
      generalize hr : newRecord s.deviceID event cursor state sn evidence = r
      have happ := appendRecord_removes env r s₂
      rw [hrecords] at happ
      have hall := hroom.trans happ
      cases har : appendRecord env r s₂ with
      | mk res s₃ =>
        rw [har] at happ hall
        cases res with
        | none =>
          have hrk : r.key = keyOf s.deviceID event := by rw [← hr]; rfl
          have hrsn : r.alarmSN ≤ maxAlarmSN := by rw [← hr]; exact hle
          exact .added hall (happ.length_le.trans_lt hlt)
            (by rw [hrk]; exact Removes.lookup_none hall hnew) hrsn
        | some e =>
          by_cases hdrop : event.phase = eventPhaseUpdate ∧ e.isCapacity
          · simp only [if_pos hdrop]
            exact .removed hall
          · simp only [if_neg hdrop]
            exact .removed hall

theorem mark_changes {env : Env} {key : Bytes} {entry : Record → JournalEntry}
    {update : Record → Record} {s : Store} (hu : ∀ r, (update r).key = r.key)
    (hsn : ∀ r, (update r).alarmSN = r.alarmSN) :
    Changes s (mark env key entry update s).2.records := by
  unfold mark
  cases hr : lookup key s.records with
  | none => exact .removed .refl
  | some r =>
    have happ : Append False True Eq (entry (update r)) s _ _ :=
      @appendLocked_append False True (env.io 1) (entry (update r)) s fun _ => trivial
    dsimp only
    cases hal : appendLocked (env.io 1) (entry (update r)) s with
    | mk res s' =>
      rw [hal] at happ
      cases res with
      | some e => exact .removed happ.removes
      | none =>
        cases happ with
        | @wrote s₁ _ hm _ _ =>
          have hrecords : s₁.records = s.records := congrArg Memory.records hm.symm
          have hkey : (update r).key = key := (hu r).trans (Keyed.lookup_key hr)
          dsimp only [insertRecord]
          rw [hrecords]
          exact .updated (by rw [hkey]; exact hr) (hsn r)

theorem ack_changes (env : Env) (cursor : Nat) (s : Store) :
    Changes s (ack env cursor s).2.records := by
  unfold ack
  split
  · exact .removed .refl
  split
  · exact .removed .refl
  have happ : Append False True Eq (ackEntry cursor) s _ _ :=
    @appendLocked_append False True (env.io 1) (ackEntry cursor) s fun _ => trivial
  cases hal : appendLocked (env.io 1) (ackEntry cursor) s with
  | mk res s' =>
    rw [hal] at happ
    cases res with
    | some e => exact .removed happ.removes
    | none => exact .removed happ.removes

/-- **Every call changes the records in one of the three ways.** -/
theorem call_changes {env : Env} {c : Call} {s : Store} (hw : WF s.deviceID s.toMemory)
    (hs : s.records.length ≤ s.maxRecords) : Changes s (c.run env s).2.records := by
  cases c with
  | enqueue event cursor a e => exact enqueue_changes hw hs
  | ack cursor => exact ack_changes env cursor s
  | alarmSent key => exact mark_changes (fun _ => rfl) fun _ => rfl
  | alarmAttempt key cause final retryAt => exact mark_changes (fun _ => rfl) fun _ => rfl
  | evidenceSent key => exact mark_changes (fun _ => rfl) fun _ => rfl
  | evidenceAttempt key cause final retryAt => exact mark_changes (fun _ => rfl) fun _ => rfl
  | stagingFailure key cause final => exact mark_changes (fun _ => rfl) fun _ => rfl
  | evidenceState key state cause =>
    by_cases hstate : state = .other []
    · simp only [Call.run, outcome, markEvidenceState, if_pos hstate]
      exact .removed .refl
    · simp only [Call.run, outcome, markEvidenceState, if_neg hstate]
      exact mark_changes (fun _ => rfl) fun _ => rfl

/-! ## Bounds -/

/-- The bounds of a store, beside what its memory keeps. -/
structure Bounded (s : Store) : Prop where
  wf : WF s.deviceID s.toMemory
  fits : s.disk.length ≤ s.maxBytes
  records : s.records.length ≤ s.maxRecords
  serials : ∀ r ∈ s.records, r.alarmSN ≤ maxAlarmSN

theorem length_insert_of_lookup {rs : List Record} {r r' : Record}
    (hu : Keyed.Unique Record.key rs) (h : lookup r'.key rs = some r) :
    (Keyed.insert Record.key r' rs).length = rs.length := by
  have hp := (Keyed.perm_cons_erase hu h).length_eq
  simpa [Keyed.insert] using hp.symm

theorem Changes.length_le {s : Store} {rs : List Record} (h : Changes s rs)
    (hu : Keyed.Unique Record.key s.records) (hs : s.records.length ≤ s.maxRecords) :
    rs.length ≤ s.maxRecords := by
  cases h with
  | removed hr => exact hr.length_le.trans hs
  | updated hr _ => rwa [length_insert_of_lookup hu hr]
  | added _ hlt hnew _ =>
    rw [Keyed.insert, Keyed.erase_of_lookup_eq_none hnew, List.length_cons]
    exact hlt

theorem Changes.serials {s : Store} {rs : List Record} (h : Changes s rs)
    (hs : ∀ r ∈ s.records, r.alarmSN ≤ maxAlarmSN) : ∀ r ∈ rs, r.alarmSN ≤ maxAlarmSN := by
  intro x hx
  cases h with
  | removed hr => exact hs x (hr.subset hx)
  | updated hr hsn =>
    rcases Keyed.mem_insert hx with rfl | hx
    · rw [hsn]
      exact hs _ (Keyed.lookup_mem hr)
    · exact hs x hx
  | added hr _ _ hsn =>
    rcases Keyed.mem_insert hx with rfl | hx
    · exact hsn
    · exact hs x (hr.subset hx)

theorem Finish.maxRecords {faulty anyPhase : Prop} {s s' : Store}
    (h : Finish faulty anyPhase s s') : s'.maxRecords = s.maxRecords := by
  cases h with
  | idle => rfl
  | committed => rfl
  | torn => rfl

/-- **A call keeps the bounds**, whether it succeeds or fails, and whatever the file system does. -/
theorem Bounded.call {env : Env} {c : Call} {s : Store} (h : Bounded s) (hi : c.Issued s) :
    Bounded (c.run env s).2 := by
  obtain ⟨s₁, hp, hf⟩ := @call_does True env c s h.wf hi (stages_any s c)
  have hmax := hf.maxRecords.trans hp.kept.maxRecords
  have hc := @call_changes env c s h.wf h.records
  exact {
    wf := hf.wf (hp.kept.wf h.wf)
    fits := hf.fits (hp.fits h.fits)
    records := hmax ▸ hc.length_le h.wf.unique h.records
    serials := hc.serials h.serials }

/-- The stores of runs of calls on a new file. -/
inductive Served (opts : Options) : Store → Prop where
  | opened {s : Store} {io : CompactIo} {disk : Bytes} :
      openStore opts io [] = (.ok s, disk) → Served opts s
  | called {s : Store} {env : Env} {c : Call} : Served opts s → c.Issued s →
      Served opts (c.run env s).2

theorem open_new {opts : Options} {io : CompactIo} {s : Store} {disk : Bytes}
    (h : openStore opts io [] = (.ok s, disk)) : s = newStore opts := by
  by_cases hl : opts.maxRecords < 0 ∨ opts.maxBytes < 0
  · rw [openStore, if_pos hl] at h
    cases h
  · have hopen : openStore opts io [] = (.ok (newStore opts), []) := by
      rw [openStore, if_neg hl]
      exact if_neg (Nat.not_lt_zero _)
    rw [hopen] at h
    cases h
    rfl

theorem Served.bounded {opts : Options} {s : Store} (h : Served opts s) :
    Bounded s ∧ Under opts s := by
  induction h with
  | opened ho =>
    rw [open_new ho]
    exact ⟨⟨wf_init _, Nat.zero_le _, Nat.zero_le _, fun r hr => by cases hr⟩,
      freshStore_under _ _⟩
  | called _ hi ih => exact ⟨ih.1.call hi, (call_does ih.1.wf hi (stages_any _ _)).under ih.2⟩

/-- **The bounds of the outbox.** After every call of every run on a new file the file is within
`maxBytes`, the records within `maxRecords`, and the next alarm number and the number of every
pending alarm are in 1..999999. -/
theorem store_within_bounds {opts : Options} {s : Store} (hr : 0 < opts.maxRecords)
    (hb : 0 < opts.maxBytes) (h : Served opts s) :
    (s.disk.length : Int) ≤ opts.maxBytes ∧ (s.records.length : Int) ≤ opts.maxRecords ∧
      1 ≤ s.nextAlarmSN ∧ s.nextAlarmSN ≤ maxAlarmSN ∧
      ∀ r ∈ s.records, r.alarmState = .pending → 1 ≤ r.alarmSN ∧ r.alarmSN ≤ maxAlarmSN := by
  obtain ⟨hbound, hu⟩ := h.bounded
  have hfit := hbound.fits
  have hrecords := hbound.records
  rw [hu.maxBytes, byteLimit, if_neg hb.ne'] at hfit
  rw [hu.maxRecords, recordLimit, if_neg hr.ne'] at hrecords
  obtain ⟨hpos, hle⟩ := badAlarmSN_iff.mp hbound.wf.nextAlarmSN
  refine ⟨by omega, by omega, hpos, hle, fun r hm hp => ⟨?_, hbound.serials r hm⟩⟩
  exact Nat.pos_of_ne_zero (alarmSN_of_pending (hbound.wf.good r hm).valid hp)

/-- An outbox for one record, full after the first event; the second has no room. -/
def tightOptions : Options := ⟨ascii "34020000001110000001", 1, 1000⟩

def laterEvent : AnalyticsEvent := { demoEvent with eventSeq := 2 }

theorem store_within_bounds_demo :
    let s := (Call.run .good (.enqueue demoEvent 7 true true) (newStore tightOptions)).2
    let s' := (Call.run .good (.enqueue laterEvent 8 true true) s).2
    s.records.length = 1 ∧ (s'.records.length : Int) ≤ 1 ∧ (s'.disk.length : Int) ≤ 1000 := by
  have hlater : Portable laterEvent :=
    ⟨{ demoEvent_portable.1 with eventSeq := by decide }, by decide +kernel⟩
  have hopen : openStore tightOptions .done [] = (.ok (newStore tightOptions), []) := rfl
  have h₁ : Served tightOptions
      (Call.run .good (.enqueue demoEvent 7 true true) (newStore tightOptions)).2 :=
    .called (.opened hopen) ⟨demoEvent_portable, by decide⟩
  have h₂ := @Served.called _ _ .good (.enqueue laterEvent 8 true true) h₁ ⟨hlater, by decide⟩
  have hmain := store_within_bounds (by decide) (by decide) h₂
  exact ⟨by decide +kernel, hmain.2.1, hmain.1⟩

end FlowAlarm.Outbox
