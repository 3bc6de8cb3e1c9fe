import FlowAlarm.Daemon.Bounds

/-!
# What a call does to one record

A call of the store changes at most the record it is about; an enqueue may add
its record and remove records that no sink waits for. `call_record` says so for
every call, every result and every fault of the file system.
-/

namespace FlowAlarm.Outbox

open FlowAlarm.Text FlowAlarm.Media Relation

/-- The record a call changes, and how it changes it. -/
def Call.changes : Call → Option (Bytes × (Record → Record))
  | .alarmSent key => some (key, Outbox.alarmSent)
  | .alarmAttempt key cause final retryAt => some (key, Outbox.alarmAttempt cause final retryAt)
  | .evidenceSent key => some (key, Outbox.evidenceSent)
  | .evidenceAttempt key cause final retryAt =>
    some (key, Outbox.evidenceAttempt cause final retryAt)
  | .stagingFailure key cause final => some (key, Outbox.stagingFailure cause final)
  | .evidenceState key state cause => some (key, Outbox.evidenceStateSet state cause)
  | .enqueue .. | .ack _ => none

/-- What a call with result `result` does to the record with key `k`. -/
inductive Touches (c : Call) (result : Option Err) (s s' : Store) (k : Bytes) : Prop where
  | same : lookup k s'.records = lookup k s.records → Touches c result s s' k
  | changed {update : Record → Record} {r : Record} : c.changes = some (k, update) →
      result = none → lookup k s.records = some r → lookup k s'.records = some (update r) →
      Touches c result s s' k
  | added {event : AnalyticsEvent} {cursor sn : Nat} {alarm evidence : Bool} :
      c = .enqueue event cursor alarm evidence → k = keyOf s.deviceID event → result = none →
      lookup k s.records = none →
      lookup k s'.records = some (newRecord s.deviceID event cursor
        (if alarm then .pending else .ignored) sn evidence) → Touches c result s s' k
  | removed {event : AnalyticsEvent} {cursor : Nat} {alarm evidence : Bool} {r : Record} :
      c = .enqueue event cursor alarm evidence → k ≠ keyOf s.deviceID event →
      lookup k s.records = some r → ¬ Waiting r → lookup k s'.records = none →
      Touches c result s s' k

theorem Removes.lookup_cases {rs rs' : List Record} (h : Removes rs rs')
    (hu : Keyed.Unique Record.key rs) (k : Bytes) :
    lookup k rs' = lookup k rs ∨ ∃ r, lookup k rs = some r ∧ ¬ Waiting r ∧ lookup k rs' = none := by
  cases hk : lookup k rs with
  | none => exact .inl (h.lookup_none hk)
  | some r =>
    cases hk' : lookup k rs' with
    | none =>
      refine .inr ⟨r, rfl, fun hw => ?_, rfl⟩
      rw [h.waiting hu hk hw] at hk'
      cases hk'
    | some r' => exact .inl ((h.lookup_some hu hk').symm.trans hk)

theorem lookup_insert (k : Bytes) (r : Record) (s : Store) :
    lookup k (insertRecord r s).records = if r.key = k then some r else lookup k s.records :=
  Keyed.lookup_insert

/-- A marked record is the only one that changes. -/
theorem mark_record {env : Env} {key : Bytes} {entry : Record → JournalEntry}
    {update : Record → Record} (hkey : ∀ r, (update r).key = r.key) (s : Store) (k : Bytes) :
    lookup k (mark env key entry update s).2.records = lookup k s.records ∨
      failure (mark env key entry update s).1 = none ∧ k = key ∧ ∃ r, lookup k s.records = some r ∧
        lookup k (mark env key entry update s).2.records = some (update r) := by
  unfold mark
  cases hr : lookup key s.records with
  | none => exact .inl rfl
  | some r =>
    have hmem := appendLocked_memory (env.io 1) (entry (update r)) s
    cases hal : appendLocked (env.io 1) (entry (update r)) s with
    | mk res s' =>
      rw [hal] at hmem
      have hrecords : s'.records = s.records := congrArg Memory.records hmem
      cases res with
      | some e => exact .inl (by simp only [hal, hrecords])
      | none =>
        have hk : (update r).key = key := (hkey r).trans (Keyed.lookup_key hr)
        simp only [hal, lookup_insert, hk, hrecords]
        by_cases he : key = k
        · subst he
          exact .inr ⟨rfl, rfl, r, hr, if_pos rfl⟩
        · exact .inl (if_neg he)

theorem ack_records (env : Env) (cursor : Nat) (s : Store) :
    (ack env cursor s).2.records = s.records := by
  unfold ack
  split
  · rfl
  split
  · rfl
  have hmem := appendLocked_memory (env.io 1) (ackEntry cursor) s
  cases hal : appendLocked (env.io 1) (ackEntry cursor) s with
  | mk res s' =>
    rw [hal] at hmem
    have hrecords : s'.records = s.records := congrArg Memory.records hmem
    cases res with
    | none => exact hrecords
    | some e => exact hrecords

theorem makeRoom_keeps {env : Env} {event : AnalyticsEvent} {s : Store}
    (hw : WF s.deviceID s.toMemory) : Removes s.records (makeRoom env event s).2.records ∧
      WF s.deviceID (makeRoom env event s).2.toMemory ∧
      (makeRoom env event s).2.deviceID = s.deviceID := by
  have hp := @makeRoom_prepared False True env event s (fun _ => trivial) hw.nextAlarmSN
  refine ⟨hp.kept.removes, ?_, hp.kept.deviceID⟩
  have := hp.kept.wf hw
  rwa [hp.kept.deviceID] at this

theorem scheduleAlarm_store (enabled : Bool) (s : Store) :
    (scheduleAlarm enabled s).1 = (if enabled then .pending else .ignored) ∧
      (scheduleAlarm enabled s).2.2.records = s.records := by
  cases enabled <;> exact ⟨rfl, rfl⟩

/-- An enqueue adds its record or none, and removes records that no sink waits for. -/
theorem enqueue_record {env : Env} {event : AnalyticsEvent} {cursor : Nat} {alarm evidence : Bool}
    {s : Store} (hw : WF s.deviceID s.toMemory) (k : Bytes) :
    Touches (.enqueue event cursor alarm evidence)
      (failure (enqueueWithEvidence env event cursor alarm evidence s).1) s
      (enqueueWithEvidence env event cursor alarm evidence s).2 k := by
  -- a store whose records only had some removed, while the record of the event was not there
  have removing : ∀ {s' : Store} {result : Option Err},
      lookup (keyOf s.deviceID event) s.records = none → Removes s.records s'.records →
      Touches (.enqueue event cursor alarm evidence) result s s' k := by
    intro s' result hnew hrem
    rcases hrem.lookup_cases hw.unique k with h | ⟨r, hr, hnot, hgone⟩
    · exact .same h
    · refine .removed rfl ?_ hr hnot hgone
      rintro rfl
      rw [hnew] at hr
      cases hr
  unfold enqueueWithEvidence
  split
  · exact .same rfl
  split
  · exact .same rfl
  split
  · exact .same rfl
  next hnew =>
  obtain ⟨hroom, -, -⟩ := @makeRoom_keeps env event s hw
  cases hmr : makeRoom env event s with
  | mk res s₁ =>
    rw [hmr] at hroom
    cases res with
    | some e => exact removing hnew hroom
    | none =>
      dsimp only
      obtain ⟨hstate, hs₂⟩ := scheduleAlarm_store alarm s₁
      generalize scheduleAlarm alarm s₁ = sched at *
      obtain ⟨state, sn, s₂⟩ := sched
      dsimp only at hstate hs₂ ⊢
      generalize hr : newRecord s.deviceID event cursor state sn evidence = r
      have hrk : r.key = keyOf s.deviceID event := by rw [← hr]; rfl
      have happ := appendRecord_removes env r s₂
      rw [hs₂] at happ
      cases har : appendRecord env r s₂ with
      | mk res s₃ =>
        rw [har] at happ
        have hrem : Removes s.records s₃.records := hroom.trans happ
        cases res with
        | none =>
          by_cases hk : keyOf s.deviceID event = k
          · subst hk
            refine @Touches.added _ _ _ _ _ event cursor sn alarm evidence rfl rfl rfl hnew ?_
            show lookup _ (insertRecord r s₃).records = _
            rw [lookup_insert, if_pos hrk, ← hr, hstate]
          · have hother : lookup k (insertRecord r s₃).records = lookup k s₃.records := by
              rw [lookup_insert, if_neg (by rw [hrk]; exact hk)]
            rcases hrem.lookup_cases hw.unique k with h | ⟨r', hr', hnot, hgone⟩
            · exact .same (hother.trans h)
            · exact .removed rfl (Ne.symm hk) hr' hnot (hother.trans hgone)
        | some e =>
          dsimp only
          split
          · exact removing hnew hrem
          · exact removing hnew hrem

/-- **What a call does to a record**, whatever its result is. -/
theorem call_record {env : Env} {c : Call} {s : Store} (hw : WF s.deviceID s.toMemory)
    (k : Bytes) : Touches c (c.run env s).1 s (c.run env s).2 k := by
  have marked : ∀ {key : Bytes} {entry : Record → JournalEntry} {update : Record → Record},
      c.changes = some (key, update) → (∀ r, (update r).key = r.key) →
      Touches c (failure (mark env key entry update s).1) s (mark env key entry update s).2 k := by
    intro key entry update hc hkey
    rcases @mark_record env key entry update hkey s k with h | ⟨hres, rfl, r, hr, h⟩
    · exact .same h
    · exact .changed hc hres hr h
  cases c with
  | enqueue event cursor alarm evidence => exact enqueue_record hw k
  | ack cursor => exact .same (congrArg (lookup k) (ack_records env cursor s))
  | alarmSent | alarmAttempt | evidenceSent | evidenceAttempt | stagingFailure =>
    exact marked rfl fun _ => rfl
  | evidenceState key state cause =>
    show Touches _ (failure (markEvidenceState env key state cause s).1) s
      (markEvidenceState env key state cause s).2 k
    unfold markEvidenceState
    split
    · exact .same rfl
    · exact marked rfl fun _ => rfl

/-- A record that an enqueue returns is the outbox's record of the event. -/
theorem enqueue_ok {env : Env} {event : AnalyticsEvent} {cursor : Nat} {alarm evidence added : Bool}
    {s s' : Store} {r : Record}
    (h : enqueueWithEvidence env event cursor alarm evidence s = (.ok (r, added), s')) :
    r.key = keyOf s.deviceID event ∧ lookup (keyOf s.deviceID event) s'.records = some r := by
  unfold enqueueWithEvidence at h
  split at h
  · cases h
  split at h
  · cases h
  split at h
  next r' hr =>
    cases h
    exact ⟨Keyed.lookup_key hr, hr⟩
  · split at h
    · cases h
    · dsimp only at h
      split at h
      · cases h
        refine ⟨rfl, ?_⟩
        rw [lookup_insert]
        exact if_pos rfl
      · split at h <;> cases h

/-- Only an UPDATE is dropped. -/
theorem enqueue_dropped {env : Env} {event : AnalyticsEvent} {cursor : Nat}
    {alarm evidence : Bool} {s s' : Store}
    (h : enqueueWithEvidence env event cursor alarm evidence s = (.error .updateDropped, s')) :
    event.phase = eventPhaseUpdate := by
  unfold enqueueWithEvidence at h
  split at h
  · cases h
  split at h
  · cases h
  split at h
  · cases h
  · split at h
    next e s₁ hroom =>
      cases h
      unfold makeRoom at hroom
      split at hroom
      · split at hroom
        next hphase => exact hphase
        · rw [makeRoomForBoundaryLocked] at hroom
          split at hroom
          · cases hroom
          · exact absurd rfl (compactTo_some hroom).1
      · cases hroom
    next s₁ hroom =>
      dsimp only at h
      split at h
      · cases h
      next e s₃ happend =>
        split at h
        next hphase => exact hphase.1
        · cases h
          have hne := @appendRecord_ne_dropped env
            (newRecord s.deviceID event cursor (scheduleAlarm alarm s₁).1
              (scheduleAlarm alarm s₁).2.1 evidence) (scheduleAlarm alarm s₁).2.2
          rw [happend] at hne
          exact absurd rfl hne

/-- The record that a mark returns is in the outbox. -/
theorem mark_ok {env : Env} {key : Bytes} {entry : Record → JournalEntry}
    {update : Record → Record} (hkey : ∀ r, (update r).key = r.key) {s s' : Store} {u : Record}
    (h : mark env key entry update s = (.ok u, s')) :
    u.key = key ∧ lookup key s'.records = some u ∧ ∃ r, u = update r := by
  unfold mark at h
  cases hr : lookup key s.records with
  | none => simp [hr] at h
  | some r =>
    simp only [hr] at h
    split at h
    · cases h
    · cases h
      have hk : (update r).key = key := (hkey r).trans (Keyed.lookup_key hr)
      refine ⟨hk, ?_, r, rfl⟩
      rw [lookup_insert, if_pos hk]

end FlowAlarm.Outbox
