import FlowAlarm.Daemon.Replay
import Mathlib.Logic.Relation

/-!
# What an operation does

Every operation of the store first prepares (it may move counters, remove
records, compact the file) and then finishes: it does nothing more, or it
appends one entry and commits its change, or the append is torn. `enqueue_does`,
`mark_does` and `ack_does` say so of the operations; the invariants of the store
are proved of `Prepare` and `Finish`.
-/

namespace FlowAlarm.Outbox

open FlowAlarm.Text FlowAlarm.Media Relation

/-! ## Steps -/

/-- The evidence of a record is in staging only if the record is no UPDATE, or `anyPhase`. -/
def Stageable (anyPhase : Prop) (r : Record) : Prop :=
  r.evidenceState = .staging → r.event.phase = eventPhaseUpdate → anyPhase

/-- A change of the memory that goes with an entry. -/
inductive Commits (anyPhase : Prop) (deviceID : Bytes) :
    Memory → JournalEntry → Memory → Prop where
  | event {m : Memory} {r : Record} : lookup r.key m.records = none → Good deviceID r →
      entryRecord (eventEntry r deviceID m.nextAlarmSN) r.event = r → Stageable anyPhase r →
      Commits anyPhase deviceID m (eventEntry r deviceID m.nextAlarmSN)
        { m with records := Keyed.insert Record.key r m.records }
  | ack {m : Memory} {cursor : Nat} : m.lastAck < cursor → cursor < 2 ^ 64 →
      Commits anyPhase deviceID m (ackEntry cursor) { m with lastAck := cursor }
  | alarm {m : Memory} {r r' : Record} : lookup r.key m.records = some r → Good deviceID r' →
      withAlarm (alarmEntry r') r = r' →
      Commits anyPhase deviceID m (alarmEntry r')
        { m with records := Keyed.insert Record.key r' m.records }
  | evidence {m : Memory} {r r' : Record} : lookup r.key m.records = some r → Good deviceID r' →
      withEvidence (evidenceEntry r') r = r' → Stageable anyPhase r' →
      Commits anyPhase deviceID m (evidenceEntry r')
        { m with records := Keyed.insert Record.key r' m.records }

/-- A record removed: the oldest terminal one evicted, or an UPDATE coalesced. -/
inductive Removal : List Record → List Record → Prop where
  | evict {rs : List Record} {c : Record} : oldestTerminal rs = some c →
      Removal rs (Keyed.erase Record.key c.key rs)
  | coalesce {rs : List Record} {c : Record} {event : AnalyticsEvent} : c ∈ rs →
      coalescible event c = true → Removal rs (Keyed.erase Record.key c.key rs)

abbrev Removes : List Record → List Record → Prop := ReflTransGen Removal

/-- The store with `rs` as its records and the file compacted to them. -/
def compactedTo (s : Store) (rs : List Record) : Store :=
  { s with records := rs, disk := encodeEntry (snapshotEntry { s with records := rs }) }

/-- One step before the append. A record is dropped without a compaction only by an operation that
is not `fine`, and the file is lost only on a fault. -/
inductive Prepare (fine faulty : Prop) : Store → Store → Prop where
  | counters {s : Store} {n d : Nat} : badAlarmSN n = false → d < 2 ^ 64 →
      Prepare fine faulty s { s with nextAlarmSN := n, droppedUpdates := d }
  | compacted {s : Store} {rs : List Record} : s.isOpen = true → Removes s.records rs →
      (compactedTo s rs).disk.length ≤ s.maxBytes → Prepare fine faulty s (compactedTo s rs)
  | dropped {s : Store} {c : Record} : ¬ fine → oldestTerminal s.records = some c →
      Prepare fine faulty s { s with records := Keyed.erase Record.key c.key s.records }
  | lost {s : Store} {rs : List Record} : faulty → s.isOpen = true → Removes s.records rs →
      (compactedTo s rs).disk.length ≤ s.maxBytes →
      Prepare fine faulty s { s with disk := (compactedTo s rs).disk, isOpen := false }

abbrev Prepared (fine faulty : Prop) : Store → Store → Prop := ReflTransGen (Prepare fine faulty)

/-- The end of an operation. -/
inductive Finish (faulty anyPhase : Prop) : Store → Store → Prop where
  | idle (s : Store) : Finish faulty anyPhase s s
  | committed {s : Store} {e : JournalEntry} {m : Memory} : s.isOpen = true →
      Commits anyPhase s.deviceID s.toMemory e m →
      s.disk.length + (encodeEntry e).length ≤ s.maxBytes →
      Finish faulty anyPhase s { s with toMemory := m, disk := s.disk ++ encodeEntry e }
  | torn {s : Store} {e : JournalEntry} {m : Memory} {n : Nat} : faulty → s.isOpen = true →
      Commits anyPhase s.deviceID s.toMemory e m →
      s.disk.length + (encodeEntry e).length ≤ s.maxBytes →
      Finish faulty anyPhase s { s with disk := s.disk ++ (encodeEntry e).take n }

variable {fine faulty anyPhase : Prop}

theorem Removal.subset {rs rs' : List Record} (h : Removal rs rs') : rs' ⊆ rs := by
  cases h with
  | evict => exact fun r hr => (Keyed.mem_erase.mp hr).1
  | coalesce => exact fun r hr => (Keyed.mem_erase.mp hr).1

theorem Removes.subset {rs rs' : List Record} (h : Removes rs rs') : rs' ⊆ rs := by
  induction h with
  | refl => exact List.Subset.refl _
  | tail _ h ih => exact fun r hr => ih (h.subset hr)

theorem Removes.lookup_none {rs rs' : List Record} {key : Bytes} (h : Removes rs rs')
    (hk : lookup key rs = none) : lookup key rs' = none :=
  Keyed.lookup_eq_none.mpr fun r hr => Keyed.lookup_eq_none.mp hk r (h.subset hr)

/-- What preparing leaves as it is. -/
structure Kept (s s' : Store) : Prop where
  deviceID : s'.deviceID = s.deviceID
  maxRecords : s'.maxRecords = s.maxRecords
  maxBytes : s'.maxBytes = s.maxBytes
  lastAck : s'.lastAck = s.lastAck
  removes : Removes s.records s'.records
  nextAlarmSN : badAlarmSN s.nextAlarmSN = false → badAlarmSN s'.nextAlarmSN = false
  droppedUpdates : s.droppedUpdates < 2 ^ 64 → s'.droppedUpdates < 2 ^ 64

theorem Prepared.kept {s s' : Store} (h : Prepared fine faulty s s') : Kept s s' := by
  induction h with
  | refl => exact ⟨rfl, rfl, rfl, rfl, .refl, fun h => h, fun h => h⟩
  | tail _ h ih =>
    cases h with
    | counters hn hd =>
      exact { ih with nextAlarmSN := fun _ => hn, droppedUpdates := fun _ => hd }
    | compacted ho hr hfit => exact { ih with removes := ih.removes.trans hr }
    | dropped hf hc => exact { ih with removes := ih.removes.tail (.evict hc) }
    | lost => exact { ih with }

theorem Removes.unique {rs rs' : List Record} (h : Removes rs rs')
    (hu : Keyed.Unique Record.key rs) : Keyed.Unique Record.key rs' := by
  induction h with
  | refl => exact hu
  | tail _ h ih =>
    cases h with
    | evict => exact ih.erase _
    | coalesce => exact ih.erase _

theorem Kept.wf {s s' : Store} (h : Kept s s') (hw : WF s.deviceID s.toMemory) :
    WF s'.deviceID s'.toMemory where
  unique := h.removes.unique hw.unique
  good r hr := by
    rw [h.deviceID]
    exact hw.good r (h.removes.subset hr)
  nextAlarmSN := h.nextAlarmSN hw.nextAlarmSN
  lastAck := by
    rw [h.lastAck]
    exact hw.lastAck
  droppedUpdates := h.droppedUpdates hw.droppedUpdates

/-! ## The building blocks -/

theorem compactLocked_none {io : CompactIo} {s s' : Store} (h : compactLocked io s = (none, s')) :
    s.isOpen = true ∧ (compactedTo s s.records).disk.length ≤ s.maxBytes ∧
      s' = compactedTo s s.records := by
  unfold compactLocked at h
  split at h
  · cases h
  next hopen =>
  dsimp only at h
  split at h
  · cases h
  next hfit =>
  cases io with
  | done =>
    cases h
    exact ⟨by simpa using hopen, not_lt.mp hfit, rfl⟩
  | failed => cases h
  | renamed => cases h

theorem compactLocked_some {io : CompactIo} {s s' : Store} {e : Err}
    (h : compactLocked io s = (some e, s')) :
    e ≠ .updateDropped ∧ (s' = s ∨ (io ≠ .done ∧ s.isOpen = true ∧
      (compactedTo s s.records).disk.length ≤ s.maxBytes ∧
      s' = { s with disk := (compactedTo s s.records).disk, isOpen := false })) := by
  unfold compactLocked at h
  split at h
  · cases h
    exact ⟨by simp, .inl rfl⟩
  next hopen =>
  dsimp only at h
  split at h
  · cases h
    exact ⟨by simp, .inl rfl⟩
  next hfit =>
  cases io with
  | done => cases h
  | failed =>
    cases h
    exact ⟨by simp, .inl rfl⟩
  | renamed =>
    cases h
    exact ⟨by simp, .inr ⟨by simp, by simpa using hopen, not_lt.mp hfit, rfl⟩⟩

/-- What an append can do: it writes the line behind the file or behind a compacted one, or it
fails before it writes, or the write is torn. `R` says what it keeps of the memory. -/
inductive Append (fine faulty : Prop) (R : Memory → Memory → Prop) (e : JournalEntry) (s : Store) :
    Option Err → Store → Prop where
  | wrote {s₁ : Store} : Prepared fine faulty s s₁ → R s.toMemory s₁.toMemory → s₁.isOpen = true →
      s₁.disk.length + (encodeEntry e).length ≤ s₁.maxBytes →
      Append fine faulty R e s none { s₁ with disk := s₁.disk ++ encodeEntry e }
  | failed {s₁ : Store} {err : Err} : Prepared fine faulty s s₁ → R s.toMemory s₁.toMemory →
      err ≠ .updateDropped → Append fine faulty R e s (some err) s₁
  | torn {s₁ : Store} {err : Err} {n : Nat} : Prepared fine faulty s s₁ →
      R s.toMemory s₁.toMemory → faulty → s₁.isOpen = true →
      s₁.disk.length + (encodeEntry e).length ≤ s₁.maxBytes → err ≠ .updateDropped →
      err.isCapacity = false →
      Append fine faulty R e s (some err) { s₁ with disk := s₁.disk ++ (encodeEntry e).take n }

/-- An append after further preparation. -/
theorem Append.after {R R' : Memory → Memory → Prop} {e : JournalEntry} {s s₁ s' : Store}
    {err : Option Err} (hp : Prepared fine faulty s s₁)
    (hR : ∀ {m}, R s₁.toMemory m → R' s.toMemory m) (h : Append fine faulty R e s₁ err s') :
    Append fine faulty R' e s err s' := by
  cases h with
  | wrote hp' hr ho hlen => exact .wrote (hp.trans hp') (hR hr) ho hlen
  | failed hp' hr hne => exact .failed (hp.trans hp') (hR hr) hne
  | torn hp' hr hf ho hlen hne hc => exact .torn (hp.trans hp') (hR hr) hf ho hlen hne hc

theorem appendLocked_append {io : Io} {e : JournalEntry} {s : Store}
    (hf : io ≠ .good → faulty) :
    Append fine faulty Eq e s (appendLocked io e s).1 (appendLocked io e s).2 := by
  have write : ∀ {s₁ : Store}, Prepared fine faulty s s₁ → s.toMemory = s₁.toMemory →
      s₁.isOpen = true → s₁.disk.length + (encodeEntry e).length ≤ s₁.maxBytes →
      Append fine faulty Eq e s (writeAll io.write (encodeEntry e) s₁).1
        (writeAll io.write (encodeEntry e) s₁).2 := by
    intro s₁ hp hm ho hlen
    cases hw : io.write with
    | none => exact .wrote hp hm ho hlen
    | some n =>
      have hfault : faulty := hf fun hg => by
        rw [hg] at hw
        cases hw
      exact .torn hp hm hfault ho hlen (by simp) rfl
  unfold appendLocked
  split
  · exact .failed .refl rfl (by simp)
  next hopen =>
  have ho : s.isOpen = true := by simpa using hopen
  dsimp only
  split
  · exact .failed .refl rfl (by simp)
  split
  · cases hc : compactLocked io.compact s with
    | mk r s' =>
      cases r with
      | some err =>
        obtain ⟨hne, rfl | ⟨hio, -, hfit, rfl⟩⟩ := compactLocked_some hc
        · exact .failed .refl rfl hne
        · have hfault : faulty := hf fun hg => hio (by rw [hg]; rfl)
          exact .failed (.single (.lost hfault ho .refl hfit)) rfl hne
      | none =>
        obtain ⟨-, hfit, rfl⟩ := compactLocked_none hc
        have hp : Prepared fine faulty s (compactedTo s s.records) :=
          .single (.compacted ho .refl hfit)
        dsimp only
        split
        · exact .failed hp rfl (by simp)
        split
        · exact .failed hp rfl (by simp)
        next hlen => exact write hp rfl ho (not_lt.mp hlen)
  next hlen => exact write .refl rfl ho (not_lt.mp hlen)

theorem appendLocked_memory (io : Io) (e : JournalEntry) (s : Store) :
    (appendLocked io e s).2.toMemory = s.toMemory := by
  have h := @appendLocked_append False True io e s fun _ => trivial
  generalize (appendLocked io e s).1 = res at h
  generalize (appendLocked io e s).2 = s' at h
  cases h with
  | wrote _ hm => exact hm.symm
  | failed _ hm => exact hm.symm
  | torn _ hm => exact hm.symm

/-! ## Making room -/

theorem compactTo_none {io : CompactIo} {rs : List Record} {s s' : Store}
    (h : compactTo io rs s = (none, s')) :
    s.isOpen = true ∧ (compactedTo s rs).disk.length ≤ s.maxBytes ∧ s' = compactedTo s rs := by
  unfold compactTo at h
  split at h
  · cases h
  next hc =>
  cases h
  exact compactLocked_none hc

theorem compactTo_some {io : CompactIo} {rs : List Record} {s s' : Store} {e : Err}
    (h : compactTo io rs s = (some e, s')) :
    e ≠ .updateDropped ∧ (s' = s ∨ (io ≠ .done ∧ s.isOpen = true ∧
      (compactedTo s rs).disk.length ≤ s.maxBytes ∧
      s' = { s with disk := (compactedTo s rs).disk, isOpen := false })) := by
  unfold compactTo at h
  split at h
  next hc =>
    cases h
    obtain ⟨hne, rfl | ⟨hio, ho, hfit, rfl⟩⟩ := compactLocked_some hc
    · exact ⟨hne, .inl rfl⟩
    · exact ⟨hne, .inr ⟨hio, ho, hfit, rfl⟩⟩
  · cases h

theorem compactTo_prepared {io : CompactIo} {rs : List Record} {s : Store}
    (hf : io ≠ .done → faulty) (hr : Removes s.records rs) :
    Prepared fine faulty s (compactTo io rs s).2 := by
  cases hc : compactTo io rs s with
  | mk r s' =>
    cases r with
    | none =>
      obtain ⟨ho, hfit, rfl⟩ := compactTo_none hc
      exact .single (.compacted ho hr hfit)
    | some e =>
      obtain ⟨-, rfl | ⟨hio, ho, hfit, rfl⟩⟩ := compactTo_some hc
      · exact .refl
      · exact .single (.lost (hf hio) ho hr hfit)

/-- Evicting is done step by step, whatever is to be said of a step. -/
theorem evictTerminals_steps {R : List Record → List Record → Prop}
    (hR : ∀ {rs c}, oldestTerminal rs = some c → R rs (Keyed.erase Record.key c.key rs))
    {maxRecords n : Nat} {rs rs' : List Record} (h : evictTerminals maxRecords n rs = some rs') :
    ReflTransGen R rs rs' := by
  induction n generalizing rs with
  | zero =>
    simp only [evictTerminals] at h
    split at h
    · cases h
      exact .refl
    · cases h
  | succ n ih =>
    simp only [evictTerminals] at h
    split at h
    · cases h
      exact .refl
    split at h
    · cases h
    next c hc => exact .head (hR hc) (ih h)

theorem evictTerminals_removes {maxRecords n : Nat} {rs rs' : List Record}
    (h : evictTerminals maxRecords n rs = some rs') : Removes rs rs' :=
  evictTerminals_steps (fun hc => .evict hc) h

theorem coalesceCandidate_spec {event : AnalyticsEvent} {order : MapOrder} {rs : List Record}
    {c : Record} (h : coalesceCandidate event (order.order rs) = some c) :
    c ∈ rs ∧ coalescible event c = true := by
  obtain ⟨hm, hc⟩ := Keyed.selectBest_mem h
  exact ⟨(order.perm rs).subset hm, hc⟩

/-- A full store makes room by preparing steps, and an UPDATE that finds none is dropped. -/
theorem makeRoom_prepared {env : Env} {event : AnalyticsEvent} {s : Store}
    (hf : (env.io 0).compact ≠ .done → faulty) (hsn : badAlarmSN s.nextAlarmSN = false) :
    Prepared fine faulty s (makeRoom env event s).2 := by
  have drop : Prepared fine faulty s (dropUpdate s) :=
    .single (.counters hsn (Nat.mod_lt _ (by decide)))
  unfold makeRoom
  split
  · split
    · unfold coalesceUpdateLocked
      cases hc : coalesceCandidate event (env.order.order s.records) with
      | none => exact drop
      | some c =>
        obtain ⟨hm, hcs⟩ := coalesceCandidate_spec hc
        have hp := @compactTo_prepared fine _ _ _ _ hf (.single (.coalesce hm hcs))
        cases hct : compactTo (env.io 0).compact (Keyed.erase Record.key c.key s.records) s with
        | mk r s' =>
          rw [hct] at hp
          cases r with
          | none => simpa only [hct] using hp
          | some e => simpa only [hct] using hp
    · unfold makeRoomForBoundaryLocked
      split
      · exact .refl
      next rs hrs => exact compactTo_prepared hf (evictTerminals_removes hrs)
  · exact .refl

/-! ## Appending a new record -/

/-- What the append of an event keeps. -/
def SameSN (m m' : Memory) : Prop := m'.nextAlarmSN = m.nextAlarmSN

/-- Appending under byte pressure evicts and compacts before each try. A record is dropped without
its compaction only if the append fails for good. -/
theorem appendUnderPressure_append {env : Env} {e : JournalEntry} {fuel n : Nat} {lastErr : Err}
    {s : Store} (hf : ∀ i, env.io i ≠ .good → faulty)
    (hfine : (appendUnderPressure env e fuel n lastErr s).1 ≠ none → ¬ fine)
    (hlast : lastErr ≠ .updateDropped) :
    Append fine faulty SameSN e s (appendUnderPressure env e fuel n lastErr s).1
      (appendUnderPressure env e fuel n lastErr s).2 := by
  induction fuel generalizing n lastErr s with
  | zero => exact .failed .refl rfl hlast
  | succ fuel ih =>
    unfold appendUnderPressure at hfine ⊢
    cases hc : oldestTerminal s.records with
    | none => exact .failed .refl rfl hlast
    | some c =>
      simp only [hc] at hfine ⊢
      cases hcomp : compactLocked (env.io n).compact
          { s with records := Keyed.erase Record.key c.key s.records } with
      | mk r s' =>
        cases r with
        | some err =>
          simp only [hcomp] at hfine
          have hdrop : Prepared fine faulty s
              { s with records := Keyed.erase Record.key c.key s.records } :=
            .single (.dropped (hfine (by simp)) hc)
          obtain ⟨hne, rfl | ⟨hio, ho, hfit, rfl⟩⟩ := compactLocked_some hcomp
          · exact .failed hdrop rfl hne
          · have hfault : faulty := hf n fun hg => hio (by rw [hg]; rfl)
            exact .failed (hdrop.tail (.lost hfault ho .refl hfit)) rfl hne
        | none =>
          obtain ⟨ho, hfit, hs'⟩ := compactLocked_none hcomp
          have hp : Prepared fine faulty s s' := by
            rw [hs']
            exact .single (.compacted ho (.single (.evict hc)) hfit)
          have hsn : s'.nextAlarmSN = s.nextAlarmSN := by rw [hs']; rfl
          simp only [hcomp] at hfine ⊢
          have happ : Append fine faulty SameSN e s _ _ :=
            (appendLocked_append (hf (n + 1))).after hp fun hm => by rw [SameSN, ← hm, hsn]
          cases hal : appendLocked (env.io (n + 1)) e s' with
          | mk r' s'' =>
            rw [hal] at happ
            simp only [hal] at hfine ⊢
            cases r' with
            | none => exact happ
            | some err =>
              dsimp only at hfine ⊢
              by_cases hcap : err.isCapacity = true
              · -- the file is compacted but still too full: evict the next one
                rw [if_pos hcap] at hfine ⊢
                cases happ with
                | failed hp' hsn hne =>
                  exact (ih hfine hne).after hp' fun hm => hm.trans hsn
                | torn _ _ _ _ _ _ hnot => simp [hnot] at hcap
              · rw [if_neg hcap]
                exact happ

theorem appendRecord_append {env : Env} {r : Record} {s : Store}
    (hf : ∀ i, env.io i ≠ .good → faulty)
    (hfine : r.event.phase ≠ eventPhaseUpdate → (appendRecord env r s).1 ≠ none → ¬ fine) :
    Append fine faulty SameSN (eventEntry r s.deviceID s.nextAlarmSN) s (appendRecord env r s).1
      (appendRecord env r s).2 := by
  have happ : Append fine faulty SameSN (eventEntry r s.deviceID s.nextAlarmSN) s _ _ :=
    (appendLocked_append (hf 1)).after .refl fun hm => by rw [SameSN, ← hm]
  unfold appendRecord at hfine ⊢
  cases hal : appendLocked (env.io 1) (eventEntry r s.deviceID s.nextAlarmSN) s with
  | mk res s' =>
    rw [hal] at happ
    simp only [hal] at hfine ⊢
    cases res with
    | none => exact happ
    | some err =>
      dsimp only at hfine ⊢
      by_cases hcap : err.isCapacity = true ∧ r.event.phase ≠ eventPhaseUpdate
      · rw [if_pos hcap] at hfine ⊢
        cases happ with
        | failed hp hsn hne =>
          exact (appendUnderPressure_append hf (hfine hcap.2) (by simp)).after hp
            fun hm => hm.trans hsn
        | torn _ _ _ _ _ _ hnot => simp [hnot] at hcap
      · rw [if_neg hcap]
        exact happ

theorem appendRecord_ne_dropped {env : Env} {r : Record} {s : Store} :
    (appendRecord env r s).1 ≠ some .updateDropped := by
  have h := @appendRecord_append False True env r s (fun _ _ => trivial) fun _ _ h => h
  intro he
  rw [he] at h
  generalize (appendRecord env r s).2 = s' at h
  cases h with
  | failed _ _ hne => exact hne rfl
  | torn _ _ _ _ _ hne _ => exact hne rfl

/-! ## Operations -/

/-- What an operation does: it prepares, then finishes. -/
def Does (fine faulty anyPhase : Prop) (s s' : Store) : Prop :=
  ∃ s₁, Prepared fine faulty s s₁ ∧ Finish faulty anyPhase s₁ s'

theorem does_refl (s : Store) : Does fine faulty anyPhase s s := ⟨s, .refl, .idle s⟩

theorem Prepared.does {s s' : Store} (h : Prepared fine faulty s s') :
    Does fine faulty anyPhase s s' :=
  ⟨s', h, .idle s'⟩

/-- An append that commits its entry. -/
theorem Append.does {R : Memory → Memory → Prop} {e : JournalEntry} {s s' : Store} {err : Err}
    (h : Append fine faulty R e s (some err) s')
    (hc : ∀ {s₁ : Store}, Prepared fine faulty s s₁ → R s.toMemory s₁.toMemory →
      ∃ m, Commits anyPhase s₁.deviceID s₁.toMemory e m) : Does fine faulty anyPhase s s' := by
  cases h with
  | failed hp _ _ => exact hp.does
  | torn hp hr hfault ho hlen _ _ =>
    obtain ⟨m, hm⟩ := hc hp hr
    exact ⟨_, hp, .torn hfault ho hm hlen⟩

def Faultless (env : Env) : Prop := ∀ i, env.io i = .good

theorem faulty_of_ne {env : Env} (i : Nat) (h : env.io i ≠ .good) : ¬ Faultless env :=
  fun hf => h (hf i)

def failure {α : Type} : Except Err α → Option Err
  | .ok _ => none
  | .error e => some e

/-- A result the delivery service carries on with. -/
def Fine (result : Option Err) : Prop := result = none ∨ result = some .updateDropped

instance (result : Option Err) : Decidable (Fine result) := inferInstanceAs (Decidable (_ ∨ _))

theorem not_fine {e : Err} (h : e ≠ .updateDropped) : ¬ Fine (some e) := by
  simpa [Fine] using h

theorem trimSpace_ne {s : Bytes} (h : trimSpace s ≠ []) : s ≠ [] := by
  rintro rfl
  exact h rfl

theorem keyOf_ne (deviceID : Bytes) (event : AnalyticsEvent) : keyOf deviceID event ≠ [] := by
  simp [keyOf]

theorem keyOf_valid (deviceID : Bytes) (event : AnalyticsEvent) :
    validUtf8 (keyOf deviceID event) = true := by
  have hdigit : ∀ b ∈ dec event.eventSeq, b < 0x80 := fun b hb => by
    have := isDigit_of_mem_dec hb
    simp only [isDigit, Bool.and_eq_true, decide_eq_true_eq] at this
    exact UInt8.lt_of_le_of_lt this.2 (by decide)
  refine validUtf8_ascii fun b hb => ?_
  simp only [keyOf, List.mem_append, List.mem_cons] at hb
  rcases hb with h | rfl | h | rfl | h | rfl | h | rfl | h
  · exact (mem_encode64 h).1
  · decide
  · exact (mem_encode64 h).1
  · decide
  · exact (mem_encode64 h).1
  · decide
  · exact (mem_encode64 h).1
  · decide
  · exact hdigit b h

/-- No character of a base64 text is the bar that joins the parts of a key. -/
theorem bar_not_mem (s : Bytes) : (0x7C : UInt8) ∉ encode64 s :=
  fun h => (mem_encode64 h).2 rfl

/-- **The idempotency key is injective** in the device and the four parts of the event it names:
each part is split off at its bar and decoded. -/
theorem keyOf_eq_iff {d d' : Bytes} {e e' : AnalyticsEvent} :
    keyOf d e = keyOf d' e' ↔
      d = d' ∧ e.channelID = e'.channelID ∧ e.eventID = e'.eventID ∧ e.phase = e'.phase ∧
        e.eventSeq = e'.eventSeq := by
  constructor
  · intro h
    obtain ⟨hd, h⟩ := append_delim_inj (bar_not_mem _) (bar_not_mem _) h
    obtain ⟨hc, h⟩ := append_delim_inj (bar_not_mem _) (bar_not_mem _) h
    obtain ⟨hi, h⟩ := append_delim_inj (bar_not_mem _) (bar_not_mem _) h
    obtain ⟨hp, hs⟩ := append_delim_inj (bar_not_mem _) (bar_not_mem _) h
    exact ⟨encode64_injective hd, encode64_injective hc, encode64_injective hi,
      encode64_injective hp, dec_injective hs⟩
  · rintro ⟨rfl, hc, hi, hp, hs⟩
    simp only [keyOf, hc, hi, hp, hs]

theorem validateEvent_none {deviceID : Bytes} {event : AnalyticsEvent}
    (h : validateEvent deviceID event = none) :
    deviceID ≠ [] ∧ event.eventID ≠ [] ∧ event.channelID ≠ [] ∧ event.eventSeq ≠ 0 ∧
      knownPhase event.phase = true := by
  unfold validateEvent at h
  split at h
  · cases h
  next h1 =>
  split at h
  · cases h
  next h2 =>
  split at h
  · cases h
  next h3 =>
  split at h
  · cases h
  next h4 =>
  split at h
  next h5 => exact ⟨trimSpace_ne h1, trimSpace_ne h2, trimSpace_ne h3, h4, h5⟩
  · cases h

theorem allocateAlarmSN_good {s : Store} (h : badAlarmSN s.nextAlarmSN = false) :
    badAlarmSN (allocateAlarmSNLocked s).1 = false ∧
      badAlarmSN (allocateAlarmSNLocked s).2.nextAlarmSN = false := by
  simp only [allocateAlarmSNLocked, h, Bool.false_eq_true, if_false]
  refine ⟨trivial, ?_⟩
  split
  · decide
  next hle =>
    rw [badAlarmSN_iff] at h ⊢
    omega

theorem newEvidence_own (event : AnalyticsEvent) (enabled : Bool) :
    (newEvidence event enabled).1.Own ∧ validateEvidence (newEvidence event enabled).1 = none := by
  unfold newEvidence
  split
  · split
    · exact ⟨trivial, rfl⟩
    · split
      · exact ⟨trivial, rfl⟩
      · exact ⟨trivial, rfl⟩
  · exact ⟨trivial, rfl⟩

theorem newRecord_stageable {deviceID : Bytes} {event : AnalyticsEvent} {cursor alarmSN : Nat}
    {alarm : SinkState} {evidence : Bool} :
    Stageable anyPhase (newRecord deviceID event cursor alarm alarmSN evidence) := by
  intro hs
  have hnew : (newEvidence event evidence).1 = .staging := hs
  unfold newEvidence at hnew
  split at hnew
  · split at hnew
    · cases hnew
    · split at hnew <;> cases hnew
  · cases hnew

theorem timeRange_zero : TimeRange 0 := ⟨by decide, by decide⟩

/-- A new record is one the store may keep. -/
theorem newRecord_good {deviceID : Bytes} {event : AnalyticsEvent} {cursor alarmSN : Nat}
    {alarm : SinkState} {evidence : Bool} (hv : validateEvent deviceID event = none)
    (he : Portable event) (hc : cursor < 2 ^ 64) (ha : validateAlarm alarm alarmSN = none)
    (hown : alarm.Own) (hsn : alarmSN ≤ maxAlarmSN) :
    Good deviceID (newRecord deviceID event cursor alarm alarmSN evidence) := by
  obtain ⟨-, hid, hch, hseq, hph⟩ := validateEvent_none hv
  obtain ⟨hev, hvev⟩ := newEvidence_own event evidence
  exact ⟨⟨keyOf_valid _ _, hc, he, hown, hev, lt_of_le_of_lt hsn (by decide), timeRange_zero,
    timeRange_zero⟩,
    ⟨keyOf_ne _ _, hid, hch, hseq, hph, ha, hvev, le_rfl, le_rfl, le_rfl, le_rfl⟩, rfl⟩

theorem scheduleAlarm_spec {enabled : Bool} {s : Store} (h : badAlarmSN s.nextAlarmSN = false) :
    validateAlarm (scheduleAlarm enabled s).1 (scheduleAlarm enabled s).2.1 = none ∧
      (scheduleAlarm enabled s).1.Own ∧ (scheduleAlarm enabled s).2.1 ≤ maxAlarmSN ∧
      badAlarmSN (scheduleAlarm enabled s).2.2.nextAlarmSN = false ∧
      (scheduleAlarm enabled s).2.2 =
        { s with nextAlarmSN := (scheduleAlarm enabled s).2.2.nextAlarmSN } := by
  cases enabled with
  | false => exact ⟨rfl, trivial, Nat.zero_le _, h, rfl⟩
  | true =>
    obtain ⟨hsn, hnext⟩ := allocateAlarmSN_good h
    have hpos := badAlarmSN_iff.mp hsn
    have hne : ¬ (allocateAlarmSNLocked s).1 = 0 := by omega
    exact ⟨if_neg hne, trivial, hpos.2, hnext, rfl⟩

/-- **What an enqueue does.** -/
theorem enqueue_does {env : Env} {event : AnalyticsEvent} {cursor : Nat} {alarm evidence : Bool}
    {s : Store} (hw : WF s.deviceID s.toMemory) (he : Portable event) (hc : cursor < 2 ^ 64) :
    Does (Fine (failure (enqueueWithEvidence env event cursor alarm evidence s).1))
      (¬ Faultless env) anyPhase s (enqueueWithEvidence env event cursor alarm evidence s).2 := by
  generalize hfine : Fine (failure (enqueueWithEvidence env event cursor alarm evidence s).1) = fine
  unfold enqueueWithEvidence at hfine ⊢
  split
  · exact does_refl s
  next hopen =>
  rw [if_neg hopen] at hfine
  split
  · exact does_refl s
  next hv =>
  simp only [hv] at hfine
  split
  · exact does_refl s
  next hnew =>
  simp only [hnew] at hfine
  have hroom : Prepared fine (¬ Faultless env) s (makeRoom env event s).2 :=
    makeRoom_prepared (fun h => faulty_of_ne 0 fun hg => h (by rw [hg]; rfl)) hw.nextAlarmSN
  cases hmr : makeRoom env event s with
  | mk res s₁ =>
    rw [hmr] at hroom
    simp only [hmr] at hfine
    cases res with
    | some e => exact hroom.does
    | none =>
      dsimp only at hfine ⊢
      have hk₁ := hroom.kept
      have hw₁ := hk₁.wf hw
      obtain ⟨ha, hown, hle, hgood, hs₂⟩ := @scheduleAlarm_spec alarm s₁ hw₁.nextAlarmSN
      generalize scheduleAlarm alarm s₁ = sched at *
      obtain ⟨state, sn, s₂⟩ := sched
      dsimp only at ha hown hle hgood hs₂ hfine ⊢
      have hp₂ : Prepared fine (¬ Faultless env) s s₂ :=
        hroom.tail (by rw [hs₂]; exact .counters hgood hw₁.droppedUpdates)
      have hk₂ := hp₂.kept
      generalize hr : newRecord s.deviceID event cursor state sn evidence = r at hfine ⊢
      have hrg : Good s.deviceID r := hr ▸ newRecord_good hv he hc ha hown hle
      have hrk : r.key = keyOf s.deviceID event := by rw [← hr]; rfl
      have hre : r.event = event := by rw [← hr]; rfl
      have hrn : ∀ n, entryRecord (eventEntry r s.deviceID n) r.event = r := by
        rw [← hr]
        exact fun n => rfl
      -- the entry commits in every store the append may reach
      have hcommit : ∀ {s₃ : Store}, Prepared fine (¬ Faultless env) s₂ s₃ →
          SameSN s₂.toMemory s₃.toMemory →
          Commits anyPhase s₃.deviceID s₃.toMemory (eventEntry r s₂.deviceID s₂.nextAlarmSN)
            { s₃.toMemory with records := Keyed.insert Record.key r s₃.records } := by
        intro s₃ hp₃ hsn
        have hk := Prepared.kept (hp₂.trans hp₃)
        have hd : s₂.deviceID = s₃.deviceID := by rw [hk₂.deviceID, hk.deviceID]
        rw [hd, show s₂.nextAlarmSN = s₃.nextAlarmSN from hsn.symm, hk.deviceID]
        exact .event (by rw [hrk]; exact hk.removes.lookup_none hnew) hrg (hrn _)
          (hr ▸ newRecord_stageable)
      have hbad : r.event.phase ≠ eventPhaseUpdate → (appendRecord env r s₂).1 ≠ none → ¬ fine := by
        intro hph hres
        cases har : appendRecord env r s₂ with
        | mk res s₃ =>
          have hne := @appendRecord_ne_dropped env r s₂
          rw [har] at hres hne
          simp only [har] at hfine
          cases res with
          | none => exact absurd rfl hres
          | some e =>
            rw [hre] at hph
            have hnot : ¬ (event.phase = eventPhaseUpdate ∧ e.isCapacity = true) :=
              fun h => hph h.1
            simp only [if_neg hnot] at hfine
            rw [← hfine]
            exact not_fine fun h => hne (by rw [h])
      have hsame : ∀ s₃ : Store, SameSN s₂.toMemory s₃.toMemory →
          { s₃ with nextAlarmSN := s₂.nextAlarmSN } = s₃ := fun s₃ h => by
        rw [show s₂.nextAlarmSN = s₃.nextAlarmSN from h.symm]
      have happ := appendRecord_append (fun i h => faulty_of_ne i h) hbad
      cases har : appendRecord env r s₂ with
      | mk res s₃ =>
        rw [har] at happ
        dsimp only at happ ⊢
        cases happ with
        | wrote hp hsn ho hlen =>
          exact ⟨_, hp₂.trans hp, .committed ho (hcommit hp hsn) hlen⟩
        | failed hp hsn hne =>
          dsimp only
          rw [hsame _ hsn]
          split
          · have hw₃ := (Prepared.kept (hp₂.trans hp)).wf hw
            exact Prepared.does ((hp₂.trans hp).tail
              (.counters hw₃.nextAlarmSN (Nat.mod_lt _ (by decide))))
          · exact Prepared.does (hp₂.trans hp)
        | @torn s₃ _ n hp hsn hfault ho hlen hne hcap =>
          dsimp only
          rw [if_neg (by simp [hcap])]
          dsimp only
          rw [hsame { s₃ with disk := s₃.disk ++
            (encodeEntry (eventEntry r s₂.deviceID s₂.nextAlarmSN)).take n } hsn]
          exact ⟨_, hp₂.trans hp, .torn hfault ho (hcommit hp hsn) hlen⟩

/-- What the operations on one record do. -/
theorem mark_does {env : Env} {key : Bytes} {entry : Record → JournalEntry}
    {update : Record → Record} {s : Store}
    (hc : ∀ r, lookup key s.records = some r →
      Commits anyPhase s.deviceID s.toMemory (entry (update r))
        { s.toMemory with records := Keyed.insert Record.key (update r) s.records }) :
    Does fine (¬ Faultless env) anyPhase s (mark env key entry update s).2 := by
  unfold mark
  cases hr : lookup key s.records with
  | none => exact does_refl s
  | some r =>
    have happ : Append fine (¬ Faultless env) Eq (entry (update r)) s _ _ :=
      appendLocked_append (faulty_of_ne 1)
    have hcommit : ∀ {s₁ : Store}, Prepared fine (¬ Faultless env) s s₁ →
        s.toMemory = s₁.toMemory → Commits anyPhase s₁.deviceID s₁.toMemory (entry (update r))
          { s₁.toMemory with records := Keyed.insert Record.key (update r) s₁.records } := by
      intro s₁ hp hm
      rw [hp.kept.deviceID, ← hm]
      exact hc r hr
    dsimp only
    cases hal : appendLocked (env.io 1) (entry (update r)) s with
    | mk res s' =>
      rw [hal] at happ
      cases res with
      | some e => exact happ.does fun hp hm => ⟨_, hcommit hp hm⟩
      | none =>
        cases happ with
        | wrote hp hm ho hlen => exact ⟨_, hp, .committed ho (hcommit hp hm) hlen⟩

theorem ack_does {env : Env} {cursor : Nat} {s : Store} (hc : cursor < 2 ^ 64) :
    Does fine (¬ Faultless env) anyPhase s (ack env cursor s).2 := by
  unfold ack
  split
  · exact does_refl s
  split
  · exact does_refl s
  next hlt =>
  have happ : Append fine (¬ Faultless env) Eq (ackEntry cursor) s _ _ :=
    appendLocked_append (faulty_of_ne 1)
  have hcommit : ∀ {s₁ : Store}, Prepared fine (¬ Faultless env) s s₁ →
      s.toMemory = s₁.toMemory → Commits anyPhase s₁.deviceID s₁.toMemory (ackEntry cursor)
        { s₁.toMemory with lastAck := cursor } := by
    intro s₁ _ hm
    rw [← hm]
    exact .ack (not_le.mp hlt) hc
  cases hal : appendLocked (env.io 1) (ackEntry cursor) s with
  | mk res s' =>
    rw [hal] at happ
    cases res with
    | some e => exact happ.does fun hp hm => ⟨_, hcommit hp hm⟩
    | none =>
      cases happ with
      | wrote hp hm ho hlen => exact ⟨_, hp, .committed ho (hcommit hp hm) hlen⟩

end FlowAlarm.Outbox
