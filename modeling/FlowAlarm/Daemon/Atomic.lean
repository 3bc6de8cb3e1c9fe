import FlowAlarm.Daemon.Runs

/-!
# Failed enqueues

What `EnqueueWithEvidence` leaves behind when it fails. It allocates an alarm
number, evicts records and compacts the file before it knows whether the append
fits, and takes little of that back; `failed_enqueue_iff` says exactly when a
failed call has changed nothing.
-/

namespace FlowAlarm.Outbox

open FlowAlarm.Text FlowAlarm.Media Relation

/-! ## What a fresh `Open` recovers -/

/-- The records by key, the acknowledged cursor, the next alarm number and the dropped updates. -/
abbrev Contents := (Bytes → Option Record) × Nat × Nat × Nat

def contents (m : Memory) : Contents :=
  (fun k => lookup k m.records, m.lastAck, m.nextAlarmSN, m.droppedUpdates)

/-- What `Open` recovers from a file, if it accepts it. -/
def recovers (opts : Options) (disk : Bytes) : Option Contents :=
  match (openStore opts .done disk).1 with
  | .error _ => none
  | .ok s => some (contents s.toMemory)

/-- What `Open` would recover from the file once it is compacted. -/
def snapshotContents (s : Store) : Option Contents :=
  if maxLine < (encodeEntry (snapshotEntry s)).length then none
  else some (fun k => (lookup k s.records).map Record.clean, s.lastAck, s.nextAlarmSN,
    s.droppedUpdates)

theorem recovers_snapshot {opts : Options} {s : Store} (hu : Usable opts) (hs : Sound s)
    (hun : Under opts s) (hfit : (encodeEntry (snapshotEntry s)).length ≤ s.maxBytes) :
    recovers opts (encodeEntry (snapshotEntry s)) = snapshotContents s := by
  obtain ⟨m, hrec, hsnap⟩ := recorded_snapshot hs
  rw [hun.deviceID] at hrec
  rw [recovers, snapshotContents]
  split_ifs with hlong
  · rw [openStore_tooLong hu hlong]
  · have hshort : ShortLines (encodeEntry (snapshotEntry s)) := by
      rw [ShortLines, rawLines_encodeEntry]
      simpa using hlong
    obtain ⟨tail, hopen⟩ := openStore_finds .done hu (.whole hrec) hshort (hun.maxBytes ▸ hfit)
    rw [hopen]
    simp only [contents, freshStore, Option.some.injEq, Prod.mk.injEq]
    exact ⟨funext hsnap.records, hsnap.lastAck, hsnap.nextAlarmSN, hsnap.droppedUpdates⟩

/-- A call has changed neither the store nor what a fresh `Open` recovers. -/
structure Unchanged (opts : Options) (s s' : Store) : Prop where
  records : ∀ k, lookup k s'.records = lookup k s.records
  nextAlarmSN : s'.nextAlarmSN = s.nextAlarmSN
  lastAck : s'.lastAck = s.lastAck
  recovered : recovers opts s'.disk = recovers opts s.disk

theorem unchanged_refl (opts : Options) (s : Store) : Unchanged opts s s :=
  ⟨fun _ => rfl, rfl, rfl, rfl⟩

/-! ## Appends that do not fit -/

theorem compactLocked_done {s : Store} (ho : s.isOpen = true) :
    compactLocked .done s =
      if s.maxBytes < (compactedTo s s.records).disk.length then
        (some (.capacity (compactedTo s s.records).disk.length s.maxBytes), s)
      else (none, compactedTo s s.records) := by
  rw [compactLocked, if_neg (by simp [ho])]
  rfl

/-- A refused append has at most compacted the file. -/
theorem appendLocked_refused {e : JournalEntry} {s s' : Store} {err : Err} (ho : s.isOpen = true)
    (h : appendLocked .good e s = (some err, s')) :
    err.isCapacity = true ∧
      ((s.maxBytes < (compactedTo s s.records).disk.length ∧ s' = s) ∨
        ((compactedTo s s.records).disk.length ≤ s.maxBytes ∧ s' = compactedTo s s.records)) := by
  rw [appendLocked, if_neg (by simp [ho])] at h
  dsimp only at h
  rw [if_neg (by simp [Io.good])] at h
  split at h
  · rw [show Io.good.compact = .done from rfl, compactLocked_done ho] at h
    by_cases hbig : s.maxBytes < (compactedTo s s.records).disk.length
    · rw [if_pos hbig] at h
      cases h
      exact ⟨rfl, .inl ⟨hbig, rfl⟩⟩
    · rw [if_neg hbig] at h
      dsimp only at h
      rw [if_neg (by simp [Io.good])] at h
      split at h
      · cases h
        exact ⟨rfl, .inr ⟨not_lt.mp hbig, rfl⟩⟩
      · cases h
  · cases h

/-! ## Evictions -/

theorem Append.subset {fine faulty : Prop} {R : Memory → Memory → Prop} {e : JournalEntry}
    {s s' : Store} {err : Option Err} (h : Append fine faulty R e s err s') :
    s'.records ⊆ s.records := by
  cases h with
  | wrote hp => exact hp.kept.removes.subset
  | failed hp => exact hp.kept.removes.subset
  | torn hp => exact hp.kept.removes.subset

theorem appendUnderPressure_subset {env : Env} {e : JournalEntry} {fuel n : Nat} {lastErr : Err}
    {s : Store} (hlast : lastErr ≠ .updateDropped) :
    (appendUnderPressure env e fuel n lastErr s).2.records ⊆ s.records :=
  (@appendUnderPressure_append False True env e fuel n lastErr s (fun _ _ => trivial)
    (fun _ h => h) hlast).subset

/-- Byte pressure evicts the oldest terminal record, whether or not the append succeeds. -/
theorem appendUnderPressure_evicts {env : Env} {e : JournalEntry} {fuel n : Nat} {lastErr : Err}
    {s : Store} {c : Record} (hc : oldestTerminal s.records = some c) :
    lookup c.key (appendUnderPressure env e (fuel + 1) n lastErr s).2.records = none := by
  have gone : ∀ {rs : List Record}, rs ⊆ Keyed.erase Record.key c.key s.records →
      lookup c.key rs = none := fun hsub =>
    Keyed.lookup_eq_none.mpr fun r hr => (Keyed.mem_erase.mp (hsub hr)).2
  unfold appendUnderPressure
  simp only [hc]
  cases hcomp : compactLocked (env.io n).compact
      { s with records := Keyed.erase Record.key c.key s.records } with
  | mk res s' =>
    cases res with
    | some err =>
      obtain ⟨-, rfl | ⟨-, -, -, rfl⟩⟩ := compactLocked_some hcomp
      · exact gone fun _ h => h
      · exact gone fun _ h => h
    | none =>
      obtain ⟨-, -, hs'⟩ := compactLocked_none hcomp
      have hrs : s'.records = Keyed.erase Record.key c.key s.records := by rw [hs']; rfl
      have happ := @appendLocked_append False True (env.io (n + 1)) e s' fun _ => trivial
      dsimp only
      cases hal : appendLocked (env.io (n + 1)) e s' with
      | mk res' s'' =>
        rw [hal] at happ
        have hsub : s''.records ⊆ Keyed.erase Record.key c.key s.records := by
          rw [← hrs]
          exact happ.subset
        cases res' with
        | none => exact gone hsub
        | some err =>
          dsimp only
          split
          · refine gone fun r hr => hsub (appendUnderPressure_subset ?_ hr)
            cases happ with
            | failed _ _ hne => exact hne
            | torn _ _ _ _ _ hne _ => exact hne
          · exact gone hsub

/-! ## Failed enqueues -/

/-- The call fails, if at all, before it changes anything: the event is refused, it is an UPDATE, or
the store is full and no room can be made in it. -/
def FailsEarly (s : Store) (event : AnalyticsEvent) : Prop :=
  validateEvent s.deviceID event ≠ none ∨ event.phase = eventPhaseUpdate ∨
    (s.maxRecords ≤ s.records.length ∧
      ∀ rs, evictTerminals s.maxRecords s.records.length s.records = some rs →
        s.maxBytes < (compactedTo s rs).disk.length)

/-- There is nothing to change: no alarm number is taken, no record can be evicted, and a compaction
does not fit or finds the file up to date with the memory. -/
structure NothingToLose (opts : Options) (s : Store) (alarmEnabled : Bool) : Prop where
  alarm : alarmEnabled = false
  room : s.records.length < s.maxRecords
  terminal : oldestTerminal s.records = none
  file : s.maxBytes < (encodeEntry (snapshotEntry s)).length ∨
    recovers opts s.disk = snapshotContents s

variable {opts : Options} {s s' : Store} {env : Env} {event : AnalyticsEvent} {cursor : Nat}
  {alarm evidence : Bool} {err : Err}

theorem compactTo_refused {rs : List Record} (ho : s.isOpen = true)
    (h : compactTo .done rs s = (some err, s')) :
    s.maxBytes < (compactedTo s rs).disk.length ∧ s' = s := by
  have hcomp : compactLocked .done { s with records := rs } =
      if s.maxBytes < (compactedTo s rs).disk.length then
        (some (.capacity (compactedTo s rs).disk.length s.maxBytes), { s with records := rs })
      else (none, compactedTo s rs) := compactLocked_done ho
  rw [compactTo, hcomp] at h
  by_cases hbig : s.maxBytes < (compactedTo s rs).disk.length
  · rw [if_pos hbig] at h
    cases h
    exact ⟨hbig, rfl⟩
  · rw [if_neg hbig] at h
    cases h

/-- A full store that cannot make room is left as it was. -/
theorem makeRoom_refused (henv : Faultless env) (ho : s.isOpen = true)
    (h : makeRoom env event s = (some err, s')) (hne : err ≠ .updateDropped) :
    s' = s ∧ (event.phase = eventPhaseUpdate ∨ (s.maxRecords ≤ s.records.length ∧
      ∀ rs, evictTerminals s.maxRecords s.records.length s.records = some rs →
        s.maxBytes < (compactedTo s rs).disk.length)) := by
  have hdone : (env.io 0).compact = .done := by rw [henv 0]; rfl
  unfold makeRoom at h
  split at h
  next hfull =>
    split at h
    next hup =>
      refine ⟨?_, .inl hup⟩
      unfold coalesceUpdateLocked at h
      cases hc : coalesceCandidate event (env.order.order s.records) with
      | none =>
        simp only [hc] at h
        cases h
        exact absurd rfl hne
      | some c =>
        simp only [hc, hdone] at h
        cases hct : compactTo .done (Keyed.erase Record.key c.key s.records) s with
        | mk res s₁ =>
          simp only [hct] at h
          cases res with
          | none => cases h
          | some e =>
            cases h
            exact (compactTo_refused ho hct).2
    · rw [makeRoomForBoundaryLocked, hdone] at h
      cases hev : evictTerminals s.maxRecords s.records.length s.records with
      | none =>
        simp only [hev] at h
        cases h
        exact ⟨rfl, .inr ⟨hfull, by simp⟩⟩
      | some rs =>
        simp only [hev] at h
        obtain ⟨hbig, rfl⟩ := compactTo_refused ho h
        refine ⟨rfl, .inr ⟨hfull, fun rs' hrs' => ?_⟩⟩
        cases hrs'
        exact hbig
  · cases h

/-- Making room for a START or END in a full store evicts a record. -/
theorem makeRoom_evicts (henv : Faultless env) (hfull : s.maxRecords ≤ s.records.length)
    (hph : event.phase ≠ eventPhaseUpdate) (h : makeRoom env event s = (none, s')) :
    (∃ c ∈ s.records, s'.records ⊆ Keyed.erase Record.key c.key s.records) ∧
      ∃ rs, evictTerminals s.maxRecords s.records.length s.records = some rs ∧
        (compactedTo s rs).disk.length ≤ s.maxBytes := by
  have hdone : (env.io 0).compact = .done := by rw [henv 0]; rfl
  rw [makeRoom, if_pos hfull, if_neg hph, makeRoomForBoundaryLocked, hdone] at h
  cases hev : evictTerminals s.maxRecords s.records.length s.records with
  | none =>
    simp only [hev] at h
    cases h
  | some rs =>
    simp only [hev] at h
    obtain ⟨-, hfit, rfl⟩ := compactTo_none h
    refine ⟨?_, rs, rfl, hfit⟩
    cases hn : s.records.length with
    | zero =>
      rw [hn, evictTerminals, hn, if_neg (by omega)] at hev
      cases hev
    | succ n =>
      rw [hn, evictTerminals, if_neg (by omega)] at hev
      split at hev
      · cases hev
      next c hc =>
        exact ⟨c, (Keyed.selectBest_mem hc).1, (evictTerminals_removes hev).subset⟩

theorem not_unchanged_of_lost {c : Record} (hu : Keyed.Unique Record.key s.records)
    (hc : c ∈ s.records) (h : lookup c.key s'.records = none) : ¬ Unchanged opts s s' := by
  intro hun
  rw [hun.records, lookup, Keyed.lookup_of_mem hu hc] at h
  cases h

theorem allocateAlarmSN_moves (h : badAlarmSN s.nextAlarmSN = false) :
    (allocateAlarmSNLocked s).2.nextAlarmSN ≠ s.nextAlarmSN := by
  have hbound := badAlarmSN_iff.mp h
  have hmax : maxAlarmSN = 999999 := rfl
  simp only [allocateAlarmSNLocked, h, Bool.false_eq_true, if_false]
  split <;> omega

/-- A record that cannot be appended below the record limit: either something is evicted, or at most
the file is compacted. -/
theorem appendRecord_refused {r : Record} (henv : Faultless env) (ho : s.isOpen = true)
    (hph : r.event.phase ≠ eventPhaseUpdate) (h : appendRecord env r s = (some err, s')) :
    (∃ c, oldestTerminal s.records = some c ∧ lookup c.key s'.records = none) ∨
      (oldestTerminal s.records = none ∧
        ((s.maxBytes < (compactedTo s s.records).disk.length ∧ s' = s) ∨
          ((compactedTo s s.records).disk.length ≤ s.maxBytes ∧ s' = compactedTo s s.records))) := by
  rw [appendRecord, henv 1] at h
  cases hal : appendLocked .good (eventEntry r s.deviceID s.nextAlarmSN) s with
  | mk res s₁ =>
    simp only [hal] at h
    cases res with
    | none => cases h
    | some e =>
      obtain ⟨hcap, hs₁⟩ := appendLocked_refused ho hal
      have hrs : s₁.records = s.records := by
        rcases hs₁ with ⟨-, rfl⟩ | ⟨-, rfl⟩ <;> rfl
      dsimp only at h
      rw [if_pos ⟨hcap, hph⟩, appendBoundaryAfterBytePressureLocked] at h
      cases hold : oldestTerminal s.records with
      | some c =>
        refine .inl ⟨c, rfl, ?_⟩
        have hpos : s₁.records.length = (s₁.records.length - 1) + 1 := by
          have := List.length_pos_of_mem (Keyed.selectBest_mem hold).1
          rw [hrs]
          omega
        rw [hpos] at h
        have := @appendUnderPressure_evicts env (eventEntry r s.deviceID s.nextAlarmSN)
          (s₁.records.length - 1) 2 .exhausted s₁ c (by rw [hrs]; exact hold)
        rw [h] at this
        exact this
      | none =>
        refine .inr ⟨rfl, ?_⟩
        have hend : appendUnderPressure env (eventEntry r s.deviceID s.nextAlarmSN)
            s₁.records.length 2 .exhausted s₁ = (some .exhausted, s₁) := by
          cases s₁.records.length with
          | zero => rfl
          | succ n => simp only [appendUnderPressure, hrs, hold]
        rw [hend] at h
        cases h
        exact hs₁

/-- The two ways an enqueue fails: with nothing changed, or in the append of the new record. -/
theorem enqueue_failed (henv : Faultless env) (ho : s.isOpen = true)
    (hsn : badAlarmSN s.nextAlarmSN = false)
    (h : enqueueWithEvidence env event cursor alarm evidence s = (.error err, s'))
    (hne : err ≠ .updateDropped) :
    (s' = s ∧ FailsEarly s event) ∨
      (validateEvent s.deviceID event = none ∧ event.phase ≠ eventPhaseUpdate ∧
        ∃ s₁ s₃ r, makeRoom env event s = (none, s₁) ∧ r.event = event ∧
          appendRecord env r (scheduleAlarm alarm s₁).2.2 = (some err, s₃) ∧
          s' = { s₃ with nextAlarmSN := (scheduleAlarm alarm s₁).2.2.nextAlarmSN }) := by
  unfold enqueueWithEvidence at h
  rw [if_neg (by simp [ho])] at h
  split at h
  next e hv =>
    cases h
    exact .inl ⟨rfl, .inl (by simp [hv])⟩
  next hv =>
  split at h
  · cases h
  split at h
  next e s₁ hmr =>
    cases h
    obtain ⟨rfl, hearly⟩ := makeRoom_refused henv ho hmr hne
    exact .inl ⟨rfl, .inr hearly⟩
  next s₁ hmr =>
  right
  have ho₁ : (scheduleAlarm alarm s₁).2.2.isOpen = true := by
    have hroom := @makeRoom_prepared False False env event s (by rw [henv 0]; simp [Io.good]) hsn
    rw [hmr] at hroom
    cases alarm <;> exact hroom.isOpen ho
  generalize hsched : scheduleAlarm alarm s₁ = sched at h ho₁ ⊢
  obtain ⟨state, sn, s₂⟩ := sched
  dsimp only at h ho₁ ⊢
  generalize hr : newRecord s.deviceID event cursor state sn evidence = r at h
  have hre : r.event = event := by rw [← hr]; rfl
  cases har : appendRecord env r s₂ with
  | mk res s₃ =>
    simp only [har] at h
    cases res with
    | none => cases h
    | some e =>
      dsimp only at h
      split at h
      · cases h
        exact absurd rfl hne
      next hnot =>
        cases h
        refine ⟨hv, fun hup => ?_, s₁, s₃, r, hmr, hre, by rw [hsched]; exact har,
          by rw [hsched]⟩
        -- an UPDATE that does not fit is dropped
        rw [appendRecord, henv 1] at har
        cases hal : appendLocked .good (eventEntry r s₂.deviceID s₂.nextAlarmSN) s₂ with
        | mk res s₄ =>
          simp only [hal] at har
          cases res with
          | none => cases har
          | some e =>
            dsimp only at har
            rw [if_neg (fun hc => hc.2 (hre ▸ hup))] at har
            cases har
            exact hnot ⟨hup, (appendLocked_refused ho₁ hal).1⟩

/-- **When a failed enqueue has changed nothing.** -/
theorem failed_enqueue_iff (hu : Usable opts) (hreach : Reached opts WithoutFaults s)
    (henv : Faultless env)
    (h : enqueueWithEvidence env event cursor alarm evidence s = (.error err, s'))
    (hne : err ≠ .updateDropped) :
    Unchanged opts s s' ↔ FailsEarly s event ∨ NothingToLose opts s alarm := by
  have hinv : Inv opts True False True s := hreach.inv hu (fun _ _ _ _ h => h) (fun hf => hf.elim)
    fun hf => absurd trivial hf
  have ho := hreach.isOpen hu fun h => h
  have huniq := hinv.sound.wf.unique
  have hsn := hinv.sound.wf.nextAlarmSN
  rcases enqueue_failed henv ho hsn h hne with
    ⟨rfl, hearly⟩ | ⟨hv, hph, s₁, s₃, r, hmr, hre, har, rfl⟩
  · exact iff_of_true (unchanged_refl opts s') (.inl hearly)
  have hrph : r.event.phase ≠ eventPhaseUpdate := hre ▸ hph
  have hsub₃ : s₃.records ⊆ s₁.records := by
    have := @appendRecord_append False True env r (scheduleAlarm alarm s₁).2.2
      (fun _ _ => trivial) fun _ _ h => h
    rw [har] at this
    cases alarm <;> exact this.subset
  by_cases hfull : s.maxRecords ≤ s.records.length
  · -- a record was evicted to make room
    obtain ⟨⟨c, hc, hsub⟩, rs, hev, hfit⟩ := makeRoom_evicts henv hfull hph hmr
    refine iff_of_false (not_unchanged_of_lost huniq hc ?_) ?_
    · exact Keyed.lookup_eq_none.mpr fun x hx => (Keyed.mem_erase.mp (hsub (hsub₃ hx))).2
    · rintro ((h | h | h) | hlose)
      · exact h hv
      · exact hph h
      · exact absurd (h.2 rs hev) (not_lt.mpr hfit)
      · exact absurd hlose.room (not_lt.mpr hfull)
  have hs₁ : s₁ = s := by
    rw [makeRoom, if_neg hfull] at hmr
    cases hmr
    rfl
  subst hs₁
  have hnotEarly : ¬ FailsEarly s₁ event := by
    rintro (h | h | h)
    · exact h hv
    · exact hph h
    · exact hfull h.1
  cases alarm with
  | true =>
    -- an alarm number was taken
    refine iff_of_false (fun hun => allocateAlarmSN_moves hsn hun.nextAlarmSN) ?_
    rintro (hearly | hlose)
    · exact hnotEarly hearly
    · exact absurd hlose.alarm (by simp)
  | false =>
    have har' : appendRecord env r s₁ = (some err, s₃) := har
    rcases appendRecord_refused henv ho hrph har' with
      ⟨c, hc, hgone⟩ | ⟨hterm, ⟨hbig, rfl⟩ | ⟨hfit, rfl⟩⟩
    · -- a record was evicted under byte pressure
      refine iff_of_false (not_unchanged_of_lost huniq (Keyed.selectBest_mem hc).1 hgone) ?_
      rintro (hearly | hlose)
      · exact hnotEarly hearly
      · rw [hlose.terminal] at hc
        cases hc
    · exact iff_of_true ⟨fun _ => rfl, rfl, rfl, rfl⟩
        (.inr ⟨rfl, not_le.mp hfull, hterm, .inl hbig⟩)
    · -- the file was compacted
      have hsnap := recovers_snapshot hu hinv.sound hinv.under hfit
      constructor
      · exact fun hun => .inr ⟨rfl, not_le.mp hfull, hterm, .inr (hun.recovered.symm.trans hsnap)⟩
      · rintro (hearly | hlose)
        · exact absurd hearly hnotEarly
        · refine ⟨fun _ => rfl, rfl, rfl, ?_⟩
          rcases hlose.file with hbig | hfile
          · exact absurd hbig (not_lt.mpr hfit)
          · exact hsnap.trans hfile.symm

/-- A byte limit that the line of one event just fills. -/
def filledOptions : Options := { demoOptions with maxBytes := 669 }

theorem filledOptions_usable : Usable filledOptions :=
  { demoOptions_usable with maxBytes := by decide }

def filledStore : Store :=
  (Call.run .good (.enqueue demoEvent 7 true false) (newStore filledOptions)).2

theorem filledStore_reached : Reached filledOptions WithoutFaults filledStore := by
  unfold filledStore
  exact .called (reached_newStore filledOptions_usable) ⟨demoEvent_portable, by decide⟩
    faultless_good

/-- The END of the event that fills the store, without an alarm. -/
def refusedEnd : Except Err (Record × Bool) × Store :=
  enqueueWithEvidence .good (demoPhase eventPhaseEnd 2) 8 false false filledStore

theorem refusedEnd_facts :
    refusedEnd.1 = .error .exhausted ∧
    filledStore.records.map (·.alarmState) = [.pending] ∧
    filledStore.records.length < filledStore.maxRecords ∧
    oldestTerminal filledStore.records = none ∧
    filledStore.maxBytes < (encodeEntry (snapshotEntry filledStore)).length := by
  decide +kernel

theorem failed_enqueue_demo :
    filledStore.records.map (·.alarmState) = [.pending] ∧ refusedEnd.1 = .error .exhausted ∧
    Unchanged filledOptions filledStore refusedEnd.2 := by
  obtain ⟨hfail, hpending, hroom, hterminal, hbig⟩ := refusedEnd_facts
  have hcall : refusedEnd = (.error .exhausted, refusedEnd.2) := by
    rw [← hfail]
  have hlose : NothingToLose filledOptions filledStore false :=
    ⟨rfl, hroom, hterminal, .inl hbig⟩
  refine ⟨hpending, hfail, ?_⟩
  unfold refusedEnd at hcall ⊢
  exact (failed_enqueue_iff filledOptions_usable filledStore_reached faultless_good hcall
    (by simp)).mpr (.inr hlose)

/-- A byte limit below the line of any event. -/
def tinyOptions : Options := { demoOptions with maxBytes := 100 }

theorem tinyOptions_usable : Usable tinyOptions :=
  { demoOptions_usable with maxBytes := by decide }

/-- A START that the tiny store refuses. -/
def refused : Except Err (Record × Bool) × Store :=
  enqueueWithEvidence .good demoEvent 7 true false (newStore tinyOptions)

/-- With the alarm sink on, the refused event has used up an alarm number, and the file, compacted
in vain, says so too. -/
theorem failed_enqueue_takes_number :
    Reached tinyOptions WithoutFaults (newStore tinyOptions) ∧
    refused.1 = .error .exhausted ∧
    (newStore tinyOptions).nextAlarmSN = 1 ∧ refused.2.nextAlarmSN = 2 ∧
    (newStore tinyOptions).disk = [] ∧
    refused.2.disk = encodeEntry { JournalEntry.zero with
      op := .snapshot
      deviceID := tinyOptions.deviceID
      nextAlarmSN := 2 } := by
  refine ⟨reached_newStore tinyOptions_usable, ?_⟩
  decide +kernel

end FlowAlarm.Outbox
