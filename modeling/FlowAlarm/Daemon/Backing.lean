import FlowAlarm.Daemon.Calls

/-!
# What the journal file holds

`Finds` says what `Open` makes of a file, and `Backs` how that relates to the
memory of the store: every record of the store stands in the file, and, as
long as no file-system fault has occurred, with the same content; if moreover
every operation was fine, the file has no other records. `Does.filed` shows
that the operations keep this up.
-/

namespace FlowAlarm.Outbox

open FlowAlarm.Text FlowAlarm.Media Relation

/-! ## Sound stores -/

structure Sound (s : Store) : Prop where
  wf : WF s.deviceID s.toMemory
  device : s.deviceID ≠ []
  deviceUtf8 : validUtf8 s.deviceID = true
  fits : s.disk.length ≤ s.maxBytes

variable {fine faulty exact anyPhase : Prop}

theorem Commits.wf {deviceID : Bytes} {m m' : Memory} {e : JournalEntry}
    (h : Commits anyPhase deviceID m e m') (hw : WF deviceID m) : WF deviceID m' := by
  cases h with
  | event _ hg _ _ => exact hw.insert hg
  | ack _ hc => exact { hw with lastAck := hc }
  | alarm _ hg _ => exact hw.insert hg
  | evidence _ hg _ _ => exact hw.insert hg

theorem Prepare.fits {s s' : Store} (h : Prepare fine faulty s s')
    (hs : s.disk.length ≤ s.maxBytes) : s'.disk.length ≤ s'.maxBytes := by
  cases h with
  | counters => exact hs
  | compacted _ _ hfit => exact hfit
  | dropped => exact hs
  | lost _ _ _ hfit => exact hfit

theorem Finish.fits {s s' : Store} (h : Finish faulty anyPhase s s')
    (hs : s.disk.length ≤ s.maxBytes) : s'.disk.length ≤ s'.maxBytes := by
  cases h with
  | idle => exact hs
  | committed _ _ hlen => simpa using hlen
  | @torn e m n _ _ _ hlen =>
    have : ((encodeEntry e).take n).length ≤ (encodeEntry e).length := List.length_take_le' _ _
    simp only [List.length_append]
    omega

theorem Finish.wf {s s' : Store} (h : Finish faulty anyPhase s s')
    (hw : WF s.deviceID s.toMemory) : WF s'.deviceID s'.toMemory := by
  cases h with
  | idle => exact hw
  | committed _ hc _ => exact hc.wf hw
  | torn => exact hw

theorem Prepared.fits {s s' : Store} (h : Prepared fine faulty s s')
    (hs : s.disk.length ≤ s.maxBytes) : s'.disk.length ≤ s'.maxBytes := by
  induction h with
  | refl => exact hs
  | tail _ h ih => exact h.fits ih

theorem Prepared.sound {s s' : Store} (h : Prepared fine faulty s s') (hs : Sound s) :
    Sound s' where
  wf := h.kept.wf hs.wf
  device := h.kept.deviceID ▸ hs.device
  deviceUtf8 := h.kept.deviceID ▸ hs.deviceUtf8
  fits := h.fits hs.fits

theorem Prepare.sound {s s' : Store} (h : Prepare fine faulty s s') (hs : Sound s) : Sound s' :=
  Prepared.sound (.single h) hs

theorem Finish.sound {s s' : Store} (h : Finish faulty anyPhase s s') (hs : Sound s) :
    Sound s' := by
  have hw := h.wf hs.wf
  have hfit := h.fits hs.fits
  cases h with
  | idle => exact hs
  | committed => exact { hs with wf := hw, fits := hfit }
  | torn => exact { hs with fits := hfit }

/-- **Sound stores stay sound.** -/
theorem Does.sound {s s' : Store} (h : Does fine faulty anyPhase s s') (hs : Sound s) :
    Sound s' := by
  obtain ⟨s₁, hp, hf⟩ := h
  exact hf.sound (hp.sound hs)

/-! ## The entries of a sound store -/

theorem portable_op {op : Op} (h : op.Own) :
    { JournalEntry.zero with op := op }.Portable where
  version := timeRange_zero
  op := h
  deviceID := rfl
  key := rfl
  cursor := Nat.two_pow_pos 64
  event := by simp [JournalEntry.zero]
  alarmState := rfl
  evidenceState := rfl
  alarmSN := Nat.two_pow_pos 64
  alarmRetry := timeRange_zero
  evidenceRetry := timeRange_zero
  nextAlarmSN := Nat.two_pow_pos 64
  lastAck := Nat.two_pow_pos 64
  droppedUpdates := Nat.two_pow_pos 64
  records := by simp [JournalEntry.zero]

theorem badAlarmSN_lt {n : Nat} (h : badAlarmSN n = false) : n < 2 ^ 64 :=
  lt_of_le_of_lt (badAlarmSN_iff.mp h).2 (by decide)

theorem Commits.portable {deviceID : Bytes} {m m' : Memory} {e : JournalEntry}
    (h : Commits anyPhase deviceID m e m') (hw : WF deviceID m)
    (hd : validUtf8 deviceID = true) : e.Portable := by
  cases h with
  | @event r _ hg _ _ =>
    exact { @portable_op .event trivial with
      deviceID := hd
      key := hg.portable.key
      cursor := hg.portable.cursor
      event := fun ev hev => by
        cases hev
        exact hg.portable.event
      alarmState := hg.portable.alarmState
      evidenceState := hg.portable.evidenceState
      alarmSN := hg.portable.alarmSN
      nextAlarmSN := badAlarmSN_lt hw.nextAlarmSN }
  | ack _ hc => exact { @portable_op .ack trivial with cursor := hc }
  | @alarm r r' _ hg _ =>
    exact { @portable_op .alarmState trivial with
      key := hg.portable.key
      alarmState := hg.portable.alarmState
      alarmRetry := hg.portable.alarmRetry }
  | @evidence r r' _ hg _ _ =>
    exact { @portable_op .evidenceState trivial with
      key := hg.portable.key
      evidenceState := hg.portable.evidenceState
      evidenceRetry := hg.portable.evidenceRetry }

theorem mem_sortRecords {rs : List Record} {r : Record} : r ∈ sortRecords rs ↔ r ∈ rs :=
  (List.perm_insertionSort _ _).mem_iff

theorem snapshotEntry_portable {s : Store} (h : Sound s) : (snapshotEntry s).Portable :=
  { @portable_op .snapshot trivial with
    deviceID := h.deviceUtf8
    nextAlarmSN := badAlarmSN_lt h.wf.nextAlarmSN
    lastAck := h.wf.lastAck
    droppedUpdates := h.wf.droppedUpdates
    records := fun r hr => (h.wf.good r (mem_sortRecords.mp hr)).portable }

/-! ## Snapshots -/

/-- The memory holds what the snapshot of the store says. -/
structure Snapshotted (s : Store) (m : Memory) : Prop where
  records : ∀ k, lookup k m.records = (lookup k s.records).map Record.clean
  lastAck : m.lastAck = s.lastAck
  nextAlarmSN : m.nextAlarmSN = s.nextAlarmSN
  droppedUpdates : m.droppedUpdates = s.droppedUpdates

/-- **A compacted file is read as the memory it was written from.** -/
theorem recorded_snapshot {s : Store} (h : Sound s) :
    ∃ m, Recorded s.deviceID (encodeEntry (snapshotEntry s)) m ∧ Snapshotted s m := by
  have hperm : (sortRecords s.records).Perm s.records := List.perm_insertionSort _ _
  have hkeys : ((sortRecords s.records).map Record.clean).map Record.key =
      (sortRecords s.records).map Record.key := by
    rw [List.map_map]
    rfl
  have hu : Keyed.Unique Record.key ((sortRecords s.records).map Record.clean) := by
    rw [Keyed.Unique, hkeys]
    exact (hperm.map Record.key).nodup_iff.mpr h.wf.unique
  have hg : ∀ r ∈ (sortRecords s.records).map Record.clean, Good s.deviceID r := by
    intro r hr
    obtain ⟨r₀, hr₀, rfl⟩ := List.mem_map.mp hr
    exact (h.wf.good r₀ (mem_sortRecords.mp hr₀)).cleaned
  obtain ⟨records, hap, -, -, hlook⟩ :=
    @applySnapshot_good _ _ [] hg hu Keyed.unique_nil fun r _ => rfl
  have happly : applyEntry s.deviceID .init (snapshotEntry s).clean =
      .ok ⟨records, s.lastAck, s.nextAlarmSN, s.droppedUpdates⟩ := by
    simp only [applyEntry, JournalEntry.clean, snapshotEntry, ne_eq, not_true_eq_false, if_false,
      and_false, h.wf.nextAlarmSN, Bool.false_eq_true, hap]
  have hrec := (recorded_nil s.deviceID).append (snapshotEntry_portable h) happly
  refine ⟨_, hrec, fun k => ?_, rfl, rfl, rfl⟩
  have hcl : lookup k ((sortRecords s.records).map Record.clean) =
      (lookup k (sortRecords s.records)).map Record.clean := Keyed.lookup_map fun _ => rfl
  have hsort : lookup k s.records = lookup k (sortRecords s.records) :=
    Keyed.lookup_perm hperm.symm h.wf.unique
  rw [hlook k, hcl, hsort]
  simp [lookup, Keyed.lookup]

/-! ## Backing -/

/-- A record without its error texts. -/
def Record.strip (r : Record) : Record := { r with alarmLastError := [], evidenceError := [] }

/-- A record that a sink waits for. -/
def Waiting (r : Record) : Prop :=
  r.alarmState = .pending ∨ r.evidenceState = .pending ∨
    (r.evidenceState = .staging ∧ r.event.phase ≠ eventPhaseUpdate)

/-- A record and what the file holds of it: up to a fault, all of it as it is read. -/
def Agrees (exact : Prop) (r r₀ : Record) : Prop :=
  r₀.alarmSN = r.alarmSN ∧ (exact → r₀.clean = r.clean)

/-- The memory found in the file backs the store. A store that lost its file backs at least what
its sinks wait for. Neither has the evidence of an UPDATE in staging, unless `anyPhase`. -/
structure Backs (exact fine anyPhase : Prop) (m : Memory) (s : Store) : Prop where
  held : ∀ {k r}, lookup k s.records = some r → s.isOpen = true ∨ Waiting r →
    ∃ r₀, lookup k m.records = some r₀ ∧ Agrees exact r r₀
  absent : exact → fine → ∀ {k}, lookup k s.records = none → lookup k m.records = none
  lastAck : s.lastAck ≤ m.lastAck
  sameAck : exact → m.lastAck = s.lastAck
  stored : ∀ {k r}, lookup k s.records = some r → Stageable anyPhase r
  found : ∀ {k r}, lookup k m.records = some r → Stageable anyPhase r

theorem clean_clean (r : Record) : r.clean.clean = r.clean := by
  simp only [Record.clean, sanitize_sanitize]

theorem strip_of_clean {r r₀ : Record} (h : r₀.clean = r.clean) : r₀.strip = r.strip :=
  show r₀.clean.strip = r.clean.strip by rw [h]

theorem agrees_clean (exact : Prop) (r : Record) : Agrees exact r r.clean :=
  ⟨rfl, fun _ => clean_clean r⟩

/-- What a snapshot holds is staged as the store has it. -/
theorem Snapshotted.found {s : Store} {m : Memory} (h : Snapshotted s m)
    (hst : ∀ {k r}, lookup k s.records = some r → Stageable anyPhase r) {k : Bytes} {r : Record}
    (hr : lookup k m.records = some r) : Stageable anyPhase r := by
  rw [h.records] at hr
  obtain ⟨r₀, hr₀, rfl⟩ := Option.map_eq_some_iff.mp hr
  exact fun hs hp => hst hr₀ hs hp

theorem Snapshotted.backs {s : Store} {m : Memory} (h : Snapshotted s m)
    (hst : ∀ {k r}, lookup k s.records = some r → Stageable anyPhase r) :
    Backs exact fine anyPhase m s where
  held {k r} hr _ := ⟨r.clean, by rw [h.records, hr]; rfl, agrees_clean exact r⟩
  absent _ _ k hk := by rw [h.records, hk]; rfl
  lastAck := h.lastAck.ge
  sameAck _ := h.lastAck
  stored := hst
  found := h.found hst

theorem terminal_not_waiting {r : Record} (h : terminal r = true) : ¬ Waiting r := by
  simp only [terminal, Bool.and_eq_true, bne_iff_ne, ne_eq] at h
  rintro (ha | he | ⟨he, -⟩)
  · exact h.1.1 ha
  · exact h.1.2 he
  · exact h.2 he

theorem coalescible_not_waiting {event : AnalyticsEvent} {r : Record}
    (h : coalescible event r = true) : ¬ Waiting r := by
  simp only [coalescible, Bool.and_eq_true, bne_iff_ne, ne_eq, beq_iff_eq] at h
  rintro (ha | he | ⟨-, hp⟩)
  · exact h.1.2 ha
  · exact h.2 he
  · exact hp h.1.1.2

/-- Only records that no sink waits for are removed. -/
theorem Removal.waiting {rs rs' : List Record} {k : Bytes} {r : Record} (h : Removal rs rs')
    (hu : Keyed.Unique Record.key rs) (hr : lookup k rs = some r) (hw : Waiting r) :
    lookup k rs' = some r := by
  have keep : ∀ {c : Record}, c ∈ rs → ¬ Waiting c →
      lookup k (Keyed.erase Record.key c.key rs) = some r := by
    intro c hc hnot
    have hne : k ≠ c.key := by
      rintro rfl
      rw [lookup, Keyed.lookup_of_mem hu hc] at hr
      cases hr
      exact hnot hw
    rw [lookup, Keyed.lookup_erase, if_neg hne]
    exact hr
  cases h with
  | evict hc =>
    obtain ⟨hm, ht⟩ := Keyed.selectBest_mem hc
    exact keep hm (terminal_not_waiting ht)
  | coalesce hm hc => exact keep hm (coalescible_not_waiting hc)

theorem Removes.waiting {rs rs' : List Record} {k : Bytes} {r : Record} (h : Removes rs rs')
    (hu : Keyed.Unique Record.key rs) (hr : lookup k rs = some r) (hw : Waiting r) :
    lookup k rs' = some r := by
  induction h with
  | refl => exact hr
  | tail hs h ih => exact h.waiting (Removes.unique hs hu) ih hw

theorem Removes.lookup_some {rs rs' : List Record} {k : Bytes} {r : Record} (h : Removes rs rs')
    (hu : Keyed.Unique Record.key rs) (hr : lookup k rs' = some r) : lookup k rs = some r := by
  have hfind := Keyed.lookup_of_mem hu (h.subset (Keyed.lookup_mem hr))
  rwa [Keyed.lookup_key hr] at hfind

/-! ## Preparing keeps the backing -/

/-- A file without a cut line that backs the store. -/
def Held (exact fine anyPhase : Prop) (s : Store) : Prop :=
  ∃ m, Recorded s.deviceID s.disk m ∧ Backs exact fine anyPhase m s

theorem Prepare.held {s s' : Store} (h : Prepare fine faulty s s') (hs : Sound s)
    (hb : Held (¬ faulty) fine anyPhase s) : Held (¬ faulty) fine anyPhase s' := by
  have hs' := h.sound hs
  obtain ⟨m, hrec, hback⟩ := hb
  cases h with
  | counters => exact ⟨m, hrec, { hback with }⟩
  | compacted ho hr hfit =>
    obtain ⟨m', hrec', hsnap⟩ := recorded_snapshot hs'
    exact ⟨m', hrec', hsnap.backs fun hk => hback.stored (hr.lookup_some hs.wf.unique hk)⟩
  | @dropped c hnot hc =>
    have hsub : ∀ {k r}, lookup k (Keyed.erase Record.key c.key s.records) = some r →
        lookup k s.records = some r :=
      Removes.lookup_some (.single (.evict hc)) hs.wf.unique
    exact ⟨m, hrec, { hback with
      held := fun hr ho => hback.held (hsub hr) ho
      absent := fun _ hf => absurd hf hnot
      stored := fun hr => hback.stored (hsub hr) }⟩
  | @lost rs hfault ho hr hfit =>
    have hrs : Sound { s with records := rs, disk := (compactedTo s rs).disk } :=
      (@Prepare.compacted fine faulty _ _ ho hr hfit).sound hs
    obtain ⟨m', hrec', hsnap⟩ := recorded_snapshot hrs
    refine ⟨m', hrec', ⟨?_, fun hex => absurd hfault hex, hsnap.lastAck.ge, fun _ => hsnap.lastAck,
      hback.stored, hsnap.found fun hk => hback.stored (hr.lookup_some hs.wf.unique hk)⟩⟩
    intro k r hk hw
    rcases hw with hw | hw
    · cases hw
    · have hkeep := hr.waiting hs.wf.unique hk hw
      exact ⟨r.clean, by rw [hsnap.records]; simp only [hkeep, Option.map_some], agrees_clean _ r⟩

theorem Prepared.held {s s' : Store} (h : Prepared fine faulty s s') (hs : Sound s)
    (hb : Held (¬ faulty) fine anyPhase s) : Held (¬ faulty) fine anyPhase s' := by
  induction h with
  | refl => exact hb
  | tail hp h ih => exact h.held (Prepared.sound hp hs) ih

/-! ## Committing keeps the backing -/

theorem Agrees.weaken {r r₀ : Record} (h : Agrees exact r r₀) : Agrees False r r₀ :=
  ⟨h.1, fun hf => hf.elim⟩

theorem stageable_insert {rs : List Record} {r' : Record} (h' : Stageable anyPhase r')
    (h : ∀ {k r}, lookup k rs = some r → Stageable anyPhase r) {k : Bytes} {r : Record}
    (hr : lookup k (Keyed.insert Record.key r' rs) = some r) : Stageable anyPhase r := by
  rw [lookup, Keyed.lookup_insert] at hr
  split at hr
  · cases hr
    exact h'
  · exact h hr

/-- A record changed in the store and in the file. -/
theorem Backs.insert {m : Memory} {s : Store} {r' r₀' : Record} (h : Backs exact fine anyPhase m s)
    (hk : r₀'.key = r'.key) (ha : Agrees exact r' r₀') (hst : Stageable anyPhase r')
    (hst₀ : Stageable anyPhase r₀') :
    Backs exact fine anyPhase { m with records := Keyed.insert Record.key r₀' m.records }
      { s with records := Keyed.insert Record.key r' s.records } where
  held {k r} hr ho := by
    rw [lookup, Keyed.lookup_insert] at hr ⊢
    rw [hk]
    split at hr
    next hkey =>
      cases hr
      exact ⟨r₀', if_pos hkey, ha⟩
    next hkey =>
      obtain ⟨r₀, hr₀, ha₀⟩ := h.held hr ho
      exact ⟨r₀, by rw [if_neg hkey]; exact hr₀, ha₀⟩
  absent hex hf {k} hnone := by
    rw [lookup, Keyed.lookup_insert] at hnone ⊢
    rw [hk]
    split at hnone
    · cases hnone
    next hkey =>
      rw [if_neg hkey]
      exact h.absent hex hf hnone
  lastAck := h.lastAck
  sameAck := h.sameAck
  stored := stageable_insert hst h.stored
  found := stageable_insert hst₀ h.found

/-- A record changed in the file only. -/
theorem Backs.ahead {m : Memory} {s : Store} {r₀' : Record} (h : Backs exact fine anyPhase m s)
    (ha : ∀ {r₀}, lookup r₀'.key m.records = some r₀ → lookup r₀'.key s.records ≠ none →
      r₀'.alarmSN = r₀.alarmSN) (hst₀ : Stageable anyPhase r₀') :
    Backs False fine anyPhase { m with records := Keyed.insert Record.key r₀' m.records } s where
  held {k r} hr ho := by
    rw [lookup, Keyed.lookup_insert]
    split
    next hkey =>
      subst hkey
      obtain ⟨r₀, hr₀, hag⟩ := h.held hr ho
      exact ⟨r₀', rfl, by rw [ha hr₀ (by simp [hr]), hag.1], fun hf => hf.elim⟩
    · obtain ⟨r₀, hr₀, hag⟩ := h.held hr ho
      exact ⟨r₀, hr₀, hag.weaken⟩
  absent hf := hf.elim
  lastAck := h.lastAck
  sameAck hf := hf.elim
  stored := h.stored
  found := stageable_insert hst₀ h.found

/-- **An entry that commits is accepted by the file's memory**, which then backs the store with the
change, and without it up to the content of the record. -/
theorem Commits.applies {s : Store} {m₀ m : Memory} {e : JournalEntry}
    (h : Commits anyPhase s.deviceID s.toMemory e m) (hs : Sound s) (ho : s.isOpen = true)
    (hw₀ : WF s.deviceID m₀) (hb : Backs exact fine anyPhase m₀ s) :
    ∃ m₀', applyEntry s.deviceID m₀ e.clean = .ok m₀' ∧
      Backs exact fine anyPhase m₀' { s with toMemory := m } ∧ Backs False fine anyPhase m₀' s := by
  -- a state entry updates the record of the file as it updates the store's
  have state : ∀ {r r' : Record} {update : Record → Record},
      lookup r.key s.records = some r → r'.key = r.key → Stageable anyPhase r' →
      (∀ {r₀}, lookup r.key m₀.records = some r₀ → Agrees exact r r₀ →
        Good s.deviceID (update r₀) ∧ (update r₀).key = r₀.key ∧
        (update r₀).alarmSN = r₀.alarmSN ∧ Agrees exact r' (update r₀) ∧
        Stageable anyPhase (update r₀)) →
      ∃ m₀', applyState update r.key m₀ = .ok m₀' ∧
        Backs exact fine anyPhase m₀'
          { s with records := Keyed.insert Record.key r' s.records } ∧
        Backs False fine anyPhase m₀' s := by
    intro r r' update hr hk hst hup
    obtain ⟨r₀, hr₀, hag⟩ := hb.held hr (.inl ho)
    obtain ⟨hg, hkey, hsn, hag', hst₀⟩ := hup hr₀ hag
    have hk₀ : r₀.key = r.key := Keyed.lookup_key hr₀
    refine ⟨_, ?_, hb.insert (by rw [hkey, hk₀, hk]) hag' hst hst₀, hb.ahead ?_ hst₀⟩
    · simp only [applyState, hr₀, validateRecord_eq_none.mpr hg.valid]
    · intro r₁ hr₁ _
      rw [hkey, hk₀, hr₀] at hr₁
      cases hr₁
      exact hsn
  have own : ∀ {e : JournalEntry} {r r₀ : Record}, r₀.clean = r.clean →
      (withAlarm e.clean r₀).clean = (withAlarm e r).clean ∧
        (withEvidence e.clean r₀).clean = (withEvidence e r).clean := by
    intro e r r₀ h
    constructor
    · calc (withAlarm e.clean r₀).clean
        _ = withAlarm e.clean r₀.clean := by
            simp only [withAlarm, Record.clean, JournalEntry.clean, sanitize_sanitize]
        _ = (withAlarm e r).clean := by rw [h]; rfl
    · calc (withEvidence e.clean r₀).clean
        _ = withEvidence e.clean r₀.clean := by
            simp only [withEvidence, Record.clean, JournalEntry.clean, sanitize_sanitize]
        _ = (withEvidence e r).clean := by rw [h]; rfl
  cases h with
  | @event r hnew hg hr hst =>
    have hclean : entryRecord (eventEntry r s.deviceID s.nextAlarmSN).clean r.event = r.clean :=
      congrArg Record.clean hr
    refine ⟨{ m₀ with
      records := Keyed.insert Record.key r.clean m₀.records
      nextAlarmSN := s.nextAlarmSN }, ?_, ?_, ?_⟩
    · have hkey : ¬ (eventEntry r s.deviceID s.nextAlarmSN).clean.key = [] := hg.valid.key
      have hid : ¬ (s.deviceID ≠ [] ∧
          (eventEntry r s.deviceID s.nextAlarmSN).clean.key ≠ keyOf s.deviceID r.event) :=
        fun hc => hc.2 hg.key
      have hdev : ¬ ((eventEntry r s.deviceID s.nextAlarmSN).clean.deviceID ≠ [] ∧
          s.deviceID ≠ [] ∧
          (eventEntry r s.deviceID s.nextAlarmSN).clean.deviceID ≠ s.deviceID) :=
        fun hc => hc.2.2 rfl
      have hsn : ¬ badAlarmSN (eventEntry r s.deviceID s.nextAlarmSN).clean.nextAlarmSN = true := by
        rw [show (eventEntry r s.deviceID s.nextAlarmSN).clean.nextAlarmSN = s.nextAlarmSN from rfl,
          hs.wf.nextAlarmSN]
        decide
      have hev : (eventEntry r s.deviceID s.nextAlarmSN).clean.event = some r.event := rfl
      rw [applyEntry, if_neg (fun hc => hc rfl), if_neg hdev]
      simp only [show (eventEntry r s.deviceID s.nextAlarmSN).clean.op = .event from rfl, hev,
        if_neg hkey, if_neg hsn, hclean, validateRecord_eq_none.mpr hg.cleaned.valid, if_neg hid]
      rfl
    · exact { @Backs.insert _ _ _ m₀ s r r.clean hb rfl (agrees_clean exact r) hst hst with }
    · exact { @Backs.ahead _ _ _ m₀ s r.clean hb (fun _ hne => absurd hnew hne) hst with }
  | @ack cursor hlt hc =>
    have happly : applyEntry s.deviceID m₀ (ackEntry cursor).clean =
        .ok (if m₀.lastAck < cursor then { m₀ with lastAck := cursor } else m₀) :=
      (if_neg fun hc => hc rfl).trans (if_neg fun hc => hc.1 rfl)
    have hrecords : (if m₀.lastAck < cursor then { m₀ with lastAck := cursor } else m₀).records =
        m₀.records := by
      split <;> rfl
    have hmax : (if m₀.lastAck < cursor then { m₀ with lastAck := cursor } else m₀).lastAck =
        max m₀.lastAck cursor := by
      split
      next h => exact (max_eq_right h.le).symm
      next h => exact (max_eq_left (not_lt.mp h)).symm
    have hle := hb.lastAck
    refine ⟨_, happly, ⟨?_, ?_, ?_, ?_, hb.stored, ?_⟩, ⟨?_, ?_, ?_, ?_, hb.stored, ?_⟩⟩
    · rw [hrecords]
      exact hb.held
    · rw [hrecords]
      exact hb.absent
    · rw [hmax]
      exact le_max_right _ _
    · intro hex
      rw [hmax, hb.sameAck hex]
      exact max_eq_right hlt.le
    · rw [hrecords]
      exact hb.found
    · rw [hrecords]
      intro k r hr hor
      obtain ⟨r₀, hr₀, hag⟩ := hb.held hr hor
      exact ⟨r₀, hr₀, hag.weaken⟩
    · exact fun hf => hf.elim
    · rw [hmax]
      exact hle.trans (le_max_left _ _)
    · exact fun hf => hf.elim
    · rw [hrecords]
      exact hb.found
  | @alarm r r' hr hg hu =>
    have hk : r'.key = r.key := by rw [← hu]; rfl
    have hsn : r'.alarmSN = r.alarmSN := by rw [← hu]; rfl
    have hst : Stageable anyPhase r' := by
      rw [← hu]
      exact fun hs hp => hb.stored hr hs hp
    obtain ⟨m₀', hap, hb₁, hb₂⟩ := @state r r' (withAlarm (alarmEntry r').clean) hr hk hst
      fun {r₀} hr₀ hag => ⟨(hw₀.lookup_good hr₀).withAlarm hg.portable.alarmState
        (by rw [hag.1, ← hsn]; exact hg.valid.alarm) hg.valid.alarmAttempts
        hg.portable.alarmRetry hg.valid.alarmRetry, rfl, rfl, ⟨by rw [hsn]; exact hag.1,
        fun hex => by rw [(own (hag.2 hex)).1, hu]⟩,
        fun hs hp => hb.found hr₀ hs hp⟩
    refine ⟨m₀', ?_, hb₁, hb₂⟩
    rw [← hap, ← hk]
    exact (if_neg fun hc => hc rfl).trans (if_neg fun hc => hc.1 rfl)
  | @evidence r r' hr hg hu hst =>
    have hk : r'.key = r.key := by rw [← hu]; rfl
    have hsn : r'.alarmSN = r.alarmSN := by rw [← hu]; rfl
    -- a record under the same key is of the same phase
    have hphase : ∀ {r₀ : Record}, lookup r.key m₀.records = some r₀ →
        r₀.event.phase = r'.event.phase := by
      intro r₀ hr₀
      have hkeys : keyOf s.deviceID r₀.event = keyOf s.deviceID r'.event := by
        rw [← (hw₀.lookup_good hr₀).key, ← hg.key, Keyed.lookup_key hr₀, hk]
      exact (keyOf_eq_iff.mp hkeys).2.2.2.1
    obtain ⟨m₀', hap, hb₁, hb₂⟩ := @state r r' (withEvidence (evidenceEntry r').clean) hr hk hst
      fun {r₀} hr₀ hag => ⟨(hw₀.lookup_good hr₀).withEvidence hg.valid.evidence
        hg.valid.evidenceAttempts hg.portable.evidenceRetry hg.valid.evidenceRetry, rfl, rfl,
        ⟨by rw [hsn]; exact hag.1, fun hex => by rw [(own (hag.2 hex)).2, hu]⟩,
        fun hs hp => hst hs ((hphase hr₀).symm.trans hp)⟩
    refine ⟨m₀', ?_, hb₁, hb₂⟩
    rw [← hap, ← hk]
    exact (if_neg fun hc => hc rfl).trans (if_neg fun hc => hc.1 rfl)

/-! ## Whole and cut files -/

/-- What `Open` finds in a file, and the file it leaves: a cut line is dropped, unless only its
newline is missing. -/
inductive Finds (deviceID disk : Bytes) : Memory → Bytes → Prop where
  | whole {m : Memory} : Recorded deviceID disk m → Finds deviceID disk m disk
  | cut {m m' : Memory} {e : JournalEntry} {base : Bytes} {k : Nat} :
      TornAt deviceID disk m e m' base k → k ≠ (entryText e).length → Finds deviceID disk m base
  | bare {m m' : Memory} {e : JournalEntry} {base : Bytes} {k : Nat} :
      TornAt deviceID disk m e m' base k → k = (entryText e).length → Finds deviceID disk m' disk

theorem load_finds {deviceID disk left : Bytes} {m : Memory} (h : Finds deviceID disk m left)
    (hs : ShortLines disk) : ∃ tail, load deviceID disk = .ok ⟨m, left, tail⟩ := by
  cases h with
  | whole h => exact ⟨false, load_recorded h hs⟩
  | cut h hk => exact ⟨true, by rw [load_torn h hs, if_neg hk]⟩
  | bare h hk => exact ⟨false, by rw [load_torn h hs, if_pos hk]⟩

/-- Every line is measured before a file is accepted. -/
theorem loadLines_short {deviceID : Bytes} {n : Nat} {m : Memory} {before : Bytes}
    {lines : List Bytes} {l : Loaded} (h : loadLines deviceID n m before lines = .ok l) :
    ∀ line ∈ lines, line.length ≤ maxLine := by
  induction lines generalizing n m before with
  | nil => simp
  | cons line rest ih =>
    rw [loadLines] at h
    split at h
    · cases h
    next hlen =>
    have hline := not_lt.mp hlen
    rw [List.forall_mem_cons]
    refine ⟨hline, ?_⟩
    split at h
    · split at h
      next hrest => simp [hrest]
      · cases h
    · split at h
      · split at h
        next hrest => simp [hrest]
        · cases h
      · split at h
        · cases h
        · exact ih h

theorem load_short {deviceID disk : Bytes} {l : Loaded} (h : load deviceID disk = .ok l) :
    ShortLines disk := loadLines_short h

theorem TornAt.not_terminated {deviceID disk base : Bytes} {m m' : Memory} {e : JournalEntry}
    {k : Nat} (h : TornAt deviceID disk m e m' base k) : ¬ Terminated disk := by
  obtain ⟨-, -, -, rfl, hpos, hcut⟩ := h
  have hk : k ≤ (entryText e).length := by
    simp only [encodeEntry, List.length_append, List.length_singleton] at hcut
    omega
  rw [encodeEntry, List.take_append_of_le_length hk]
  have hne : (entryText e).take k ≠ [] := by
    rw [ne_eq, List.take_eq_nil_iff, not_or]
    exact ⟨by omega, fun h => by rw [h] at hk; simp at hk; omega⟩
  rintro (hnil | hlast)
  · exact hne (List.append_eq_nil_iff.mp hnil).2
  · rw [List.getLast?_append_of_ne_nil _ hne] at hlast
    have hmem := List.mem_of_mem_take (List.mem_of_getLast? hlast)
    exact newline_not_mem_entryText e hmem

theorem Finds.recorded {deviceID disk left : Bytes} {m : Memory} (h : Finds deviceID disk m left)
    (ht : Terminated disk) : Recorded deviceID disk m := by
  cases h with
  | whole h => exact h
  | cut h _ => exact absurd ht h.not_terminated
  | bare h _ => exact absurd ht h.not_terminated

/-- The file that `Open` leaves holds the same. -/
theorem Finds.left {deviceID disk left : Bytes} {m : Memory} (h : Finds deviceID disk m left) :
    Finds deviceID left m left := by
  cases h with
  | whole h => exact .whole h
  | cut h _ => exact .whole h.recorded
  | bare h hk => exact .bare h hk

theorem Finds.length_left {deviceID disk left : Bytes} {m : Memory}
    (h : Finds deviceID disk m left) : left.length ≤ disk.length := by
  cases h with
  | whole => exact le_rfl
  | cut h _ =>
    rw [h.disk, List.length_append]
    exact Nat.le_add_right _ _
  | bare => exact le_rfl

theorem Finds.wf {deviceID disk left : Bytes} {m : Memory} (hd : deviceID ≠ [])
    (h : Finds deviceID disk m left) : WF deviceID m := by
  cases h with
  | whole h => exact h.wf hd
  | cut h _ => exact h.recorded.wf hd
  | bare h _ => exact applyEntry_wf hd (h.recorded.wf hd) h.portable.cleaned h.applies

/-- The file backs the store. -/
def Filed (exact fine anyPhase : Prop) (s : Store) : Prop :=
  ∃ m left, Finds s.deviceID s.disk m left ∧ Backs exact fine anyPhase m s

theorem Backs.mono {exact' fine' : Prop} {m : Memory} {s : Store}
    (h : Backs exact fine anyPhase m s) (hex : exact' → exact) (hf : exact' → fine' → fine) :
    Backs exact' fine' anyPhase m s where
  held hr ho := by
    obtain ⟨r₀, hr₀, hag⟩ := h.held hr ho
    exact ⟨r₀, hr₀, hag.1, fun he => hag.2 (hex he)⟩
  absent he hfine := h.absent (hex he) (hf he hfine)
  lastAck := h.lastAck
  sameAck he := h.sameAck (hex he)
  stored := h.stored
  found := h.found

/-- A line written in part, whole or not at all is not found, or found as if it were whole. -/
theorem torn_finds {deviceID base : Bytes} {m m' : Memory} {e : JournalEntry}
    (hrec : Recorded deviceID base m) (hport : e.Portable)
    (hap : applyEntry deviceID m e.clean = .ok m') (n : Nat) :
    (∃ left, Finds deviceID (base ++ (encodeEntry e).take n) m left) ∨
      ∃ left, Finds deviceID (base ++ (encodeEntry e).take n) m' left := by
  by_cases hzero : n = 0
  · refine .inl ⟨base, ?_⟩
    simp only [hzero, List.take_zero, List.append_nil]
    exact .whole hrec
  by_cases hall : (encodeEntry e).length ≤ n
  · refine .inr ⟨base ++ encodeEntry e, ?_⟩
    simp only [List.take_of_length_le hall]
    exact .whole (hrec.append hport hap)
  · have htorn : TornAt deviceID (base ++ (encodeEntry e).take n) m e m' base n :=
      ⟨hrec, hport, hap, rfl, by omega, by omega⟩
    by_cases hk : n = (entryText e).length
    · exact .inr ⟨_, .bare htorn hk⟩
    · exact .inl ⟨_, .cut htorn hk⟩

theorem Finish.filed {s s' : Store} (h : Finish faulty anyPhase s s') (hs : Sound s)
    (hb : Held (¬ faulty) fine anyPhase s) :
    Filed (¬ faulty) fine anyPhase s' ∧ (¬ faulty → Terminated s'.disk) := by
  obtain ⟨m, hrec, hback⟩ := hb
  cases h with
  | idle => exact ⟨⟨m, _, .whole hrec, hback⟩, fun _ => hrec.terminated⟩
  | committed ho hc _ =>
    obtain ⟨m', hap, hb', -⟩ := hc.applies hs ho (hrec.wf hs.device) hback
    have hrec' := hrec.append (hc.portable hs.wf hs.deviceUtf8) hap
    exact ⟨⟨m', _, .whole hrec', { hb' with }⟩, fun _ => hrec'.terminated⟩
  | @torn e _ n hfault ho hc _ =>
    obtain ⟨m', hap, -, hb'⟩ := hc.applies hs ho (hrec.wf hs.device) hback
    have hahead : Backs (¬ faulty) fine anyPhase m' s :=
      hb'.mono (fun h => h hfault) fun h => absurd hfault h
    refine ⟨?_, fun h => absurd hfault h⟩
    rcases torn_finds hrec (hc.portable hs.wf hs.deviceUtf8) hap n with ⟨left, hf⟩ | ⟨left, hf⟩
    · exact ⟨m, left, hf, { hback with }⟩
    · exact ⟨m', left, hf, { hahead with }⟩

/-- **The operations keep the file backing the store**, if they find it terminated. -/
theorem Does.filed {s s' : Store} (h : Does fine faulty anyPhase s s') (hs : Sound s)
    (ht : Terminated s.disk) (hb : Filed (¬ faulty) fine anyPhase s) :
    Filed (¬ faulty) fine anyPhase s' ∧ (¬ faulty → Terminated s'.disk) := by
  obtain ⟨s₁, hp, hf⟩ := h
  obtain ⟨m, left, hfind, hback⟩ := hb
  exact hf.filed (hp.sound hs) (hp.held hs ⟨m, hfind.recorded ht, hback⟩)

end FlowAlarm.Outbox
