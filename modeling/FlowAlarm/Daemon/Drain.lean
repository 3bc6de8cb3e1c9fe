import FlowAlarm.Daemon.Atomic
import FlowAlarm.Daemon.Loading

/-!
# Draining a full outbox

The operations that empty the outbox (recording a sent alarm, sent evidence, an
acknowledged cursor) append an entry themselves. Nothing is reserved for them:
`drains_iff` says that they succeed exactly if their entries fit, behind the
file or behind its compacted form.
-/

namespace FlowAlarm.Outbox

open FlowAlarm.Text FlowAlarm.Media FlowAlarm.GoJson

variable {opts : Options} {s : Store} {env : Env}

/-- The entry fits behind the file, or behind the compacted file. -/
def Fits (s : Store) (e : JournalEntry) : Prop :=
  s.disk.length + (encodeEntry e).length ≤ s.maxBytes ∨
    (encodeEntry (snapshotEntry s)).length + (encodeEntry e).length ≤ s.maxBytes

instance (s : Store) (e : JournalEntry) : Decidable (Fits s e) := inferInstanceAs (Decidable (_ ∨ _))

/-- The operations that let the outbox empty succeed. -/
structure Drains (env : Env) (s : Store) : Prop where
  alarm : ∀ r ∈ s.records, r.alarmState = .pending → failure (markAlarmSent env r.key s).1 = none
  evidence : ∀ r ∈ s.records, r.evidenceState = .pending →
    failure (markEvidenceSent env r.key s).1 = none
  ack : ∀ cursor, s.lastAck < cursor → cursor < 2 ^ 64 → (ack env cursor s).1 = none

/-- There is room for what the sinks have yet to report. -/
structure RoomToDrain (s : Store) : Prop where
  alarm : ∀ r ∈ s.records, r.alarmState = .pending → Fits s (alarmEntry (alarmSent r))
  evidence : ∀ r ∈ s.records, r.evidenceState = .pending →
    Fits s (evidenceEntry (evidenceSent r))
  ack : ∀ cursor, s.lastAck < cursor → cursor < 2 ^ 64 → Fits s (ackEntry cursor)

/-- Without faults an append succeeds exactly if its entry fits. -/
theorem appendLocked_fits {e : JournalEntry} (ho : s.isOpen = true) :
    (appendLocked .good e s).1 = none ↔ Fits s e := by
  have hsnap : (compactedTo s s.records).disk = encodeEntry (snapshotEntry s) := rfl
  rw [appendLocked, if_neg (by simp [ho]), Fits]
  dsimp only
  rw [if_neg (by simp [Io.good]), show Io.good.compact = .done from rfl, compactLocked_done ho,
    hsnap]
  by_cases hlen : s.maxBytes < s.disk.length + (encodeEntry e).length
  · rw [if_pos hlen]
    by_cases hbig : s.maxBytes < (encodeEntry (snapshotEntry s)).length
    · rw [if_pos hbig]
      simp only [reduceCtorEq, false_iff]
      omega
    · rw [if_neg hbig]
      dsimp only
      rw [if_neg (by simp [Io.good]), hsnap, show (compactedTo s s.records).maxBytes = s.maxBytes
        from rfl]
      split
      · simp only [reduceCtorEq, false_iff]
        omega
      · simp only [writeAll, Io.good, true_iff]
        omega
  · rw [if_neg hlen]
    simp only [writeAll, Io.good, true_iff]
    omega

theorem mark_fits {r : Record} {entry : Record → JournalEntry} {update : Record → Record}
    (henv : Faultless env) (ho : s.isOpen = true) (hu : Keyed.Unique Record.key s.records)
    (hr : r ∈ s.records) :
    failure (mark env r.key entry update s).1 = none ↔ Fits s (entry (update r)) := by
  rw [← appendLocked_fits ho, mark, show lookup r.key s.records = some r from
    Keyed.lookup_of_mem hu hr, henv 1]
  cases hal : appendLocked .good (entry (update r)) s with
  | mk res s' =>
    cases res with
    | none => simp [failure, hal]
    | some e => simp [failure, hal]

theorem ack_fits {cursor : Nat} (henv : Faultless env) (ho : s.isOpen = true)
    (hlt : s.lastAck < cursor) : (ack env cursor s).1 = none ↔ Fits s (ackEntry cursor) := by
  rw [← appendLocked_fits ho, ack, if_neg (by simp [ho]), if_neg (not_le.mpr hlt), henv 1]
  cases hal : appendLocked .good (ackEntry cursor) s with
  | mk res s' =>
    cases res with
    | none => simp
    | some e => simp

/-- **When the outbox can drain.** -/
theorem drains_iff (hu : Usable opts) (hreach : Reached opts WithoutFaults s)
    (henv : Faultless env) : Drains env s ↔ RoomToDrain s := by
  have hinv : Inv opts True False True s := hreach.inv hu (fun _ _ _ _ h => h) (fun hf => hf.elim)
    fun hf => absurd trivial hf
  have ho := hreach.isOpen hu fun h => h
  have huniq := hinv.sound.wf.unique
  constructor
  · intro h
    exact ⟨fun r hr hp => (mark_fits henv ho huniq hr).mp (h.alarm r hr hp),
      fun r hr hp => (mark_fits henv ho huniq hr).mp (h.evidence r hr hp),
      fun c hlt hc => (ack_fits henv ho hlt).mp (h.ack c hlt hc)⟩
  · intro h
    exact ⟨fun r hr hp => (mark_fits henv ho huniq hr).mpr (h.alarm r hr hp),
      fun r hr hp => (mark_fits henv ho huniq hr).mpr (h.evidence r hr hp),
      fun c hlt hc => (ack_fits henv ho hlt).mpr (h.ack c hlt hc)⟩

theorem length_ackEntry {cursor : Nat} (h : cursor < 2 ^ 64) :
    (encodeEntry (ackEntry cursor)).length ≤ 60 := by
  have hdec : (dec cursor).length ≤ 20 := by
    rcases Nat.eq_zero_or_pos cursor with rfl | hpos
    · decide
    · rw [length_dec hpos]
      have : Nat.log 10 cursor < 20 := Nat.log_lt_of_lt_pow (by omega) (h.trans (by norm_num))
      omega
  have hsize : memberSize escape (omitEmpty (cursor == 0) (ascii "cursor") (uintValue cursor)) ≤
      (dec cursor).length + 10 := by
    cases hz : cursor == 0 with
    | true => exact Nat.zero_le _
    | false =>
      rw [show memberSize escape (omitEmpty false (ascii "cursor") (uintValue cursor)) =
        8 + (dec cursor).length + 2 from rfl]
      omega
  have hzero : (entryText (ackEntry 0)).length ≤ 20 := by decide +kernel
  have htext : (entryText (ackEntry cursor)).length ≤ (entryText (ackEntry 0)).length +
      memberSize escape (omitEmpty (cursor == 0) (ascii "cursor") (uintValue cursor)) := by
    simp only [length_entryText, entryMembers, List.map_cons, List.sum_cons, ackEntry]
    omega
  rw [encodeEntry, List.length_append, List.length_singleton]
  omega

theorem demoEnqueued_facts :
    demoEnqueued.records.map (fun r => (r.alarmState, r.evidenceState)) = [(.pending, .pending)] ∧
    (∀ r ∈ demoEnqueued.records, Fits demoEnqueued (alarmEntry (alarmSent r)) ∧
      Fits demoEnqueued (evidenceEntry (evidenceSent r))) ∧
    demoEnqueued.disk.length + 60 ≤ demoEnqueued.maxBytes := by
  decide +kernel

theorem drains_demo :
    demoEnqueued.records.map (fun r => (r.alarmState, r.evidenceState)) = [(.pending, .pending)] ∧
    RoomToDrain demoEnqueued ∧ Drains .good demoEnqueued := by
  obtain ⟨hpending, hfits, hlen⟩ := demoEnqueued_facts
  have hroom : RoomToDrain demoEnqueued := by
    refine ⟨fun r hr _ => (hfits r hr).1, fun r hr _ => (hfits r hr).2, fun c _ hc => .inl ?_⟩
    have := length_ackEntry hc
    omega
  have hreach : Reached demoOptions WithoutFaults demoEnqueued :=
    demoEnqueued_reached fun _ _ => faultless_good
  exact ⟨hpending, hroom, (drains_iff demoOptions_usable hreach faultless_good).mpr hroom⟩

/-- The alarm of the filled store is pending, and that it was sent cannot be recorded. -/
theorem filled_store_is_stuck :
    Reached filledOptions WithoutFaults filledStore ∧
    filledStore.records.map (·.alarmState) = [.pending] ∧
    failure (markAlarmSent .good demoKey filledStore).1 = some (.capacity 705 669) ∧
    (ack .good 7 filledStore).1 = some (.capacity 705 669) :=
  ⟨filledStore_reached, by decide +kernel⟩

end FlowAlarm.Outbox
