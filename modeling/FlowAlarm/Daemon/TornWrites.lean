import FlowAlarm.Daemon.Drain

/-!
# Crashes in the middle of a write

A process may end while a call writes its line, after any byte of it.
`crash_recovered` says that the next `Open` finds the store as it was before the
call or as the call would have left it, in every life, as long as no call writes
behind an unfinished line and none of those that a crash interrupts has to make
room.
-/

namespace FlowAlarm.Outbox

open FlowAlarm.Text FlowAlarm.Media Relation

variable {opts : Options} {s s' : Store} {env : Env} {c : Call} {whole : Store → Prop}

/-! ## Calls that append -/

/-- The new record of an event in a store with room, and the store with its alarm number taken. -/
def schedule (event : AnalyticsEvent) (cursor : Nat) (alarm evidence : Bool) (s : Store) :
    Record × Store :=
  (newRecord s.deviceID event cursor (scheduleAlarm alarm s).1 (scheduleAlarm alarm s).2.1 evidence,
    (scheduleAlarm alarm s).2.2)

/-- An enqueue that adds a record finds a free place for it, and room for the line of a START or
END. -/
def FindsRoom (s : Store) : Call → Prop
  | .enqueue event cursor alarm evidence =>
    lookup (keyOf s.deviceID event) s.records = none →
      s.records.length < s.maxRecords ∧ (event.phase ≠ eventPhaseUpdate →
        Fits (schedule event cursor alarm evidence s).2
          (eventEntry (schedule event cursor alarm evidence s).1
            (schedule event cursor alarm evidence s).2.deviceID
            (schedule event cursor alarm evidence s).2.nextAlarmSN))
  | _ => True

/-- The call leaves the store alone, or appends one entry and commits its change. -/
inductive Appends (c : Call) (s : Store) : Prop where
  | nothing : (∀ env, (c.run env s).2 = s) → Appends c s
  | entry {n : Nat} {e : JournalEntry} {m : Memory} : badAlarmSN n = false →
      Commits True s.deviceID { s.toMemory with nextAlarmSN := n } e m →
      (∀ env s', appendLocked (env.io 1) e { s with nextAlarmSN := n } = (none, s') →
        c.run env s = (none, { s' with toMemory := m })) →
      (∀ env err s', appendLocked (env.io 1) e { s with nextAlarmSN := n } = (some err, s') →
        ∃ d < 2 ^ 64, (c.run env s).2 = { s' with droppedUpdates := d }) → Appends c s

theorem mark_appends {key : Bytes} {entry : Record → JournalEntry} {update : Record → Record}
    (hw : WF s.deviceID s.toMemory)
    (hrun : ∀ env, c.run env s = outcome (mark env key entry update s))
    (hc : ∀ r, lookup key s.records = some r → Commits True s.deviceID s.toMemory (entry (update r))
      { s.toMemory with records := Keyed.insert Record.key (update r) s.records }) :
    Appends c s := by
  cases hr : lookup key s.records with
  | none =>
    refine .nothing fun env => ?_
    rw [hrun, mark, hr]
    rfl
  | some r =>
    refine @Appends.entry _ _ s.nextAlarmSN _ _ hw.nextAlarmSN (hc r hr) (fun env s' h => ?_)
      fun env err s' h => ⟨s.droppedUpdates, hw.droppedUpdates, ?_⟩
    · have hal : appendLocked (env.io 1) (entry (update r)) s = (none, s') := h
      have hm : s'.toMemory = s.toMemory := by
        rw [← appendLocked_memory (env.io 1) (entry (update r)) s, hal]
      simp only [hrun, mark, hr, hal]
      rw [← hm]
      rfl
    · have hal : appendLocked (env.io 1) (entry (update r)) s = (some err, s') := h
      have hm : s'.toMemory = s.toMemory := by
        rw [← appendLocked_memory (env.io 1) (entry (update r)) s, hal]
      simp only [hrun, mark, hr, hal]
      rw [← hm]
      rfl

theorem ack_appends {cursor : Nat} (hw : WF s.deviceID s.toMemory) (hc : cursor < 2 ^ 64) :
    Appends (.ack cursor) s := by
  by_cases ho : s.isOpen = false
  · exact .nothing fun env => by rw [Call.run, ack, if_pos ho]
  by_cases hle : cursor ≤ s.lastAck
  · exact .nothing fun env => by rw [Call.run, ack, if_neg ho, if_pos hle]
  refine @Appends.entry _ _ s.nextAlarmSN (ackEntry cursor) { s.toMemory with lastAck := cursor }
    hw.nextAlarmSN (.ack (not_le.mp hle) hc) (fun env s' h => ?_)
    fun env err s' h => ⟨s.droppedUpdates, hw.droppedUpdates, ?_⟩
  · have hal : appendLocked (env.io 1) (ackEntry cursor) s = (none, s') := h
    have hm : s'.toMemory = s.toMemory := by
      rw [← appendLocked_memory (env.io 1) (ackEntry cursor) s, hal]
    simp only [Call.run, ack, if_neg ho, if_neg hle, hal]
    rw [← hm]
  · have hal : appendLocked (env.io 1) (ackEntry cursor) s = (some err, s') := h
    have hm : s'.toMemory = s.toMemory := by
      rw [← appendLocked_memory (env.io 1) (ackEntry cursor) s, hal]
    simp only [Call.run, ack, if_neg ho, if_neg hle, hal]
    rw [← hm]

/-- An entry that fits is not refused for its length. -/
theorem appendLocked_room {io : Io} {e : JournalEntry} {err : Err} (hfit : Fits s e)
    (h : appendLocked io e s = (some err, s')) : err.isCapacity = false := by
  unfold appendLocked at h
  split at h
  · cases h
    rfl
  dsimp only at h
  split at h
  · cases h
    rfl
  split at h
  next hlen =>
    have hsnap : (encodeEntry (snapshotEntry s)).length + (encodeEntry e).length ≤ s.maxBytes :=
      hfit.resolve_left (not_le.mpr hlen)
    cases hc : compactLocked io.compact s with
    | mk res s₁ =>
      rw [hc] at h
      cases res with
      | none =>
        obtain ⟨-, -, rfl⟩ := compactLocked_none hc
        dsimp only at h
        split at h
        · cases h
          rfl
        split at h
        next hover =>
          have : (compactedTo s s.records).disk.length =
              (encodeEntry (snapshotEntry s)).length := rfl
          have : (compactedTo s s.records).maxBytes = s.maxBytes := rfl
          omega
        · unfold writeAll at h
          split at h <;> cases h
          rfl
      | some e' =>
        cases h
        unfold compactLocked at hc
        split at hc
        · cases hc
          rfl
        dsimp only at hc
        split at hc
        · omega
        split at hc <;> cases hc <;> rfl
  · unfold writeAll at h
    split at h <;> cases h
    rfl

theorem enqueue_appends {event : AnalyticsEvent} {cursor : Nat} {alarm evidence : Bool}
    (hw : WF s.deviceID s.toMemory) (he : Portable event) (hc : cursor < 2 ^ 64)
    (hroom : FindsRoom s (.enqueue event cursor alarm evidence)) :
    Appends (.enqueue event cursor alarm evidence) s := by
  by_cases ho : s.isOpen = false
  · exact .nothing fun env => by rw [Call.run, enqueueWithEvidence, if_pos ho]; rfl
  cases hv : validateEvent s.deviceID event with
  | some e =>
    exact .nothing fun env => by simp only [Call.run, enqueueWithEvidence, if_neg ho, hv]; rfl
  | none =>
  cases hnew : lookup (keyOf s.deviceID event) s.records with
  | some r =>
    exact .nothing fun env => by simp only [Call.run, enqueueWithEvidence, if_neg ho, hv, hnew]; rfl
  | none =>
  obtain ⟨hlen, hfit⟩ := hroom hnew
  obtain ⟨ha, hown, hle, hgood, hs₂⟩ := @scheduleAlarm_spec alarm s hw.nextAlarmSN
  have hmake : ∀ env, makeRoom env event s = (none, s) := fun env => by
    rw [makeRoom, if_neg (not_le.mpr hlen)]
  unfold schedule at hfit
  generalize hsched : scheduleAlarm alarm s = sched at *
  obtain ⟨state, sn, s₂⟩ := sched
  dsimp only at ha hown hle hgood hs₂ hfit
  generalize hr : newRecord s.deviceID event cursor state sn evidence = r at hfit
  have hre : r.event = event := by rw [← hr]; rfl
  have hd : s₂.deviceID = s.deviceID := by rw [hs₂]
  have hcommit : Commits True s.deviceID { s.toMemory with nextAlarmSN := s₂.nextAlarmSN }
      (eventEntry r s.deviceID s₂.nextAlarmSN)
      { s.toMemory with
        nextAlarmSN := s₂.nextAlarmSN
        records := Keyed.insert Record.key r s.records } := by
    refine @Commits.event True s.deviceID { s.toMemory with nextAlarmSN := s₂.nextAlarmSN } r
      ?_ ?_ ?_ fun _ _ => trivial
    · rw [← hr]
      exact hnew
    · exact hr ▸ newRecord_good hv he hc ha hown hle
    · rw [← hr]
      rfl
  have hline : ∀ env : Env, appendLocked (env.io 1) (eventEntry r s₂.deviceID s₂.nextAlarmSN) s₂ =
      appendLocked (env.io 1) (eventEntry r s.deviceID s₂.nextAlarmSN)
        { s with nextAlarmSN := s₂.nextAlarmSN } := fun env => by
    rw [hd]
    exact congrArg _ hs₂
  have hmem : ∀ {env : Env} {res s'}, appendLocked (env.io 1)
      (eventEntry r s₂.deviceID s₂.nextAlarmSN) s₂ = (res, s') → s'.toMemory = s₂.toMemory :=
    fun {env res s'} h => by
      rw [← appendLocked_memory (env.io 1) (eventEntry r s₂.deviceID s₂.nextAlarmSN) s₂, h]
  have hsame : ∀ {s' : Store}, s'.toMemory = s₂.toMemory → ∀ rs : List Record,
      ({ s' with records := rs } : Store) =
        { s' with toMemory :=
          { s.toMemory with nextAlarmSN := s₂.nextAlarmSN, records := rs } } := by
    intro s' hm rs
    have hm' : s'.toMemory = { s.toMemory with nextAlarmSN := s₂.nextAlarmSN } :=
      hm.trans (congrArg Store.toMemory hs₂)
    show { s' with toMemory := { s'.toMemory with records := rs } } = _
    rw [hm']
  refine .entry hgood hcommit (fun env s' h => ?_) fun env err s' h => ?_
  · rw [← hline] at h
    have hm := hmem h
    have hrecords : s'.records = s.records := by rw [congrArg Memory.records hm, hs₂]
    simp only [Call.run, enqueueWithEvidence, if_neg ho, hv, hnew, hmake, hsched, hr, appendRecord,
      h]
    show (none, insertRecord r s') = _
    rw [insertRecord, hrecords, hsame hm]
  · rw [← hline] at h
    have hm := hmem h
    have hnot : ¬ (err.isCapacity = true ∧ r.event.phase ≠ eventPhaseUpdate) := by
      rintro ⟨hcap, hphase⟩
      rw [appendLocked_room (hfit (hre ▸ hphase)) h] at hcap
      cases hcap
    have hsn : ({ s' with nextAlarmSN := s₂.nextAlarmSN } : Store) = s' := by
      rw [← congrArg Memory.nextAlarmSN hm]
    have hdropped : s'.droppedUpdates < 2 ^ 64 := by
      rw [congrArg Memory.droppedUpdates hm, hs₂]
      exact hw.droppedUpdates
    simp only [Call.run, enqueueWithEvidence, if_neg ho, hv, hnew, hmake, hsched, hr, appendRecord,
      h, if_neg hnot, hsn]
    split
    · exact ⟨_, Nat.mod_lt _ (by decide), rfl⟩
    · exact ⟨s'.droppedUpdates, hdropped, rfl⟩

theorem call_appends (hw : WF s.deviceID s.toMemory) (hi : c.Issued s) (hroom : FindsRoom s c) :
    Appends c s := by
  cases hi.shape (stages_any s c) hw with
  | enqueue he hc => exact enqueue_appends hw he hc hroom
  | ack hc => exact ack_appends hw hc
  | mark hrun hc => exact mark_appends hw hrun hc

/-- Without faults such a call is fine for the file, whatever it returns. -/
theorem Appends.does (h : Appends c s) (hw : WF s.deviceID s.toMemory) (henv : Faultless env) :
    Does True False True s (c.run env s).2 := by
  cases h with
  | nothing h =>
    rw [h]
    exact does_refl s
  | @entry n e m hn hc hok hfail =>
    have hp₀ : Prepared True False s { s with nextAlarmSN := n } :=
      .single (.counters hn hw.droppedUpdates)
    have happ : Append True False Eq e { s with nextAlarmSN := n } _ _ :=
      appendLocked_append fun hne => hne (henv 1)
    cases hal : appendLocked (env.io 1) e { s with nextAlarmSN := n } with
    | mk res s' =>
      rw [hal] at happ
      dsimp only at happ
      cases happ with
      | wrote hp hm ho hlen =>
        rw [hok env _ hal]
        refine ⟨_, hp₀.trans hp, .committed ho ?_ hlen⟩
        rw [(Prepared.kept (hp₀.trans hp)).deviceID, ← hm]
        exact hc
      | failed hp hm hne =>
        obtain ⟨d, hd, hrun⟩ := hfail env _ _ hal
        rw [hrun]
        have hgood := ((Prepared.kept (hp₀.trans hp)).wf hw).nextAlarmSN
        exact Prepared.does ((hp₀.trans hp).tail (.counters hgood hd))
      | torn _ _ hf => exact hf.elim

/-! ## A call that is cut off -/

/-- The file as it is, or compacted. -/
inductive Readied (s : Store) : Store → Prop where
  | asIs : Readied s s
  | compacted : s.isOpen = true → (compactedTo s s.records).disk.length ≤ s.maxBytes →
      Readied s (compactedTo s s.records)

theorem Readied.memory (h : Readied s s') : s'.toMemory = s.toMemory := by
  cases h <;> rfl

theorem Readied.prepared (h : Readied s s') : Prepared True False s s' := by
  cases h with
  | asIs => exact .refl
  | compacted ho hfit => exact .single (.compacted ho .refl hfit)

/-- An append writes nothing, or a piece of the line, behind the file or behind its compaction; and
then it writes all of it without a fault. -/
theorem appendLocked_disk {e : JournalEntry} (ho : s.isOpen = true) (io : Io) :
    ∃ s₁, Readied s s₁ ∧ ((appendLocked io e s).2.disk = s₁.disk ∨
      ∃ n, (appendLocked io e s).2.disk = s₁.disk ++ (encodeEntry e).take n ∧
        appendLocked .good e s = (none, { s₁ with disk := s₁.disk ++ encodeEntry e })) := by
  have hopen : ¬ s.isOpen = false := by simp [ho]
  have writes : ∀ s₁ : Store, ∃ n, (writeAll io.write (encodeEntry e) s₁).2.disk =
      s₁.disk ++ (encodeEntry e).take n := by
    intro s₁
    cases io.write with
    | none => exact ⟨(encodeEntry e).length, by rw [List.take_length]; rfl⟩
    | some n => exact ⟨n, rfl⟩
  by_cases hstat : io.statFails = true
  · refine ⟨s, .asIs, .inl ?_⟩
    simp only [appendLocked, if_neg hopen, if_pos hstat]
  by_cases hlen : s.maxBytes < s.disk.length + (encodeEntry e).length
  · cases hc : compactLocked io.compact s with
    | mk res s' =>
      cases res with
      | some err =>
        have hrun : (appendLocked io e s).2 = s' := by
          simp only [appendLocked, if_neg hopen, if_neg hstat, if_pos hlen, hc]
        rw [hrun]
        obtain ⟨-, rfl | ⟨-, -, hfit, rfl⟩⟩ := compactLocked_some hc
        · exact ⟨s', .asIs, .inl rfl⟩
        · exact ⟨_, .compacted ho hfit, .inl rfl⟩
      | none =>
        obtain ⟨-, hfit, rfl⟩ := compactLocked_none hc
        refine ⟨_, .compacted ho hfit, ?_⟩
        by_cases hrestat : io.restatFails = true
        · refine .inl ?_
          simp only [appendLocked, if_neg hopen, if_neg hstat, if_pos hlen, hc, if_pos hrestat]
        by_cases hover : (compactedTo s s.records).maxBytes <
            (compactedTo s s.records).disk.length + (encodeEntry e).length
        · refine .inl ?_
          simp only [appendLocked, if_neg hopen, if_neg hstat, if_pos hlen, hc, if_neg hrestat,
            if_pos hover]
        obtain ⟨n, hn⟩ := writes (compactedTo s s.records)
        refine .inr ⟨n, ?_, ?_⟩
        · simp only [appendLocked, if_neg hopen, if_neg hstat, if_pos hlen, hc, if_neg hrestat,
            if_neg hover, hn]
        · have hdone := compactLocked_done ho
          rw [if_neg (not_lt.mpr hfit)] at hdone
          simp only [appendLocked, if_neg hopen, if_pos hlen, Io.good, hdone, if_neg hover,
            Bool.false_eq_true, if_false, writeAll]
  · obtain ⟨n, hn⟩ := writes s
    refine ⟨s, .asIs, .inr ⟨n, ?_, ?_⟩⟩
    · simp only [appendLocked, if_neg hopen, if_neg hstat, if_neg hlen, hn]
    · simp only [appendLocked, if_neg hopen, if_neg hlen, Io.good, Bool.false_eq_true, if_false,
        writeAll]

/-- The file that an append leaves holds the store before it, or the store after it. -/
theorem append_finds {e : JournalEntry} {m : Memory} (hs : Sound s) (ho : s.isOpen = true)
    (hb : Held True True True s) (hc : Commits True s.deviceID s.toMemory e m) (io : Io) :
    ∃ m' left, Finds s.deviceID (appendLocked io e s).2.disk m' left ∧
      (Backs True True True m' s ∨ ∃ s', appendLocked .good e s = (none, s') ∧
        Backs True True True m' { s' with toMemory := m }) := by
  obtain ⟨s₁, hready, hdisk⟩ := @appendLocked_disk s e ho io
  have hp := hready.prepared
  have hs₁ := hp.sound hs
  have hm := hready.memory
  have hheld : Held True True True s₁ := by
    have := hp.held hs (by rwa [not_false_eq_true])
    rwa [not_false_eq_true] at this
  obtain ⟨m₁, hrec, hback⟩ := hheld
  have ho₁ : s₁.isOpen = true := hp.isOpen ho
  rw [hp.kept.deviceID] at hrec
  have hbefore : Backs True True True m₁ s := by
    have hrecords : s₁.records = s.records := congrArg Memory.records hm
    have hack : s₁.lastAck = s.lastAck := congrArg Memory.lastAck hm
    exact ⟨fun hr _ => hback.held (hrecords ▸ hr) (.inl ho₁),
      fun hex hf _ hk => hback.absent hex hf (hrecords ▸ hk), hack ▸ hback.lastAck,
      fun hex => hack ▸ hback.sameAck hex, fun _ _ _ => trivial, fun _ _ _ => trivial⟩
  rcases hdisk with hdisk | ⟨n, hdisk, hgood⟩
  · exact ⟨m₁, _, by rw [hdisk]; exact .whole hrec, .inl hbefore⟩
  have hc₁ : Commits True s₁.deviceID s₁.toMemory e m := by
    rw [hp.kept.deviceID, hm]
    exact hc
  obtain ⟨m', hap, hafter, -⟩ := hc₁.applies hs₁ ho₁ (hp.kept.deviceID ▸ hrec.wf hs.device) hback
  rw [hp.kept.deviceID] at hap
  have hport := hc.portable hs.wf hs.deviceUtf8
  rw [hdisk]
  rcases torn_finds hrec hport hap n with ⟨left, hf⟩ | ⟨left, hf⟩
  · exact ⟨m₁, left, hf, .inl hbefore⟩
  · exact ⟨m', left, hf, .inr ⟨_, hgood, { hafter with }⟩⟩

/-- **A call that is cut off** leaves a file that holds the store before it, or the store after
it. -/
theorem Appends.crash (h : Appends c s) (hs : Sound s) (ho : s.isOpen = true)
    (hb : Held True True True s) (env : Env) :
    ∃ m left, Finds s.deviceID (c.run env s).2.disk m left ∧
      (Backs True True True m s ∨
        ((c.run .good s).1 = none ∧ Backs True True True m (c.run .good s).2)) := by
  obtain ⟨m₀, hrec, hback⟩ := hb
  cases h with
  | nothing h => exact ⟨m₀, _, by rw [h]; exact .whole hrec, .inl hback⟩
  | @entry n e m hn hc hok hfail =>
    have hdisk : (c.run env s).2.disk =
        (appendLocked (env.io 1) e { s with nextAlarmSN := n }).2.disk := by
      cases hal : appendLocked (env.io 1) e { s with nextAlarmSN := n } with
      | mk res s' =>
        cases res with
        | none => rw [hok env s' hal]
        | some err =>
          obtain ⟨d, -, hrun⟩ := hfail env err s' hal
          rw [hrun]
    have hs₀ : Sound { s with nextAlarmSN := n } :=
      { hs with wf := { hs.wf with nextAlarmSN := hn } }
    obtain ⟨m', left, hf, hbacks⟩ := append_finds hs₀ ho ⟨m₀, hrec, { hback with }⟩ hc (env.io 1)
    refine ⟨m', left, hdisk ▸ hf, hbacks.imp (fun hb => { hb with }) ?_⟩
    rintro ⟨s', hgood, hafter⟩
    rw [hok .good s' hgood]
    exact ⟨rfl, hafter⟩

/-! ## Lives of the outbox -/

/-- The stores of all lives: in each, calls return, and a call that a crash cuts off, at any step of
the file system and after any byte of its line, may be its last. `whole` is asked of the store
before each call. -/
inductive Lives (opts : Options) (whole : Store → Prop) : Store → Prop where
  | opened {s : Store} {disk : Bytes} : openStore opts .done [] = (.ok s, disk) → Lives opts whole s
  | returned {s : Store} {env : Env} {c : Call} : Lives opts whole s → c.Issued s → whole s →
      Faultless env → Fine (c.run env s).1 ∨ FindsRoom s c → Lives opts whole (c.run env s).2
  | reopened {s s' : Store} {io : CompactIo} {disk : Bytes} : Lives opts whole s →
      openStore opts io s.disk = (.ok s', disk) → Lives opts whole s'
  | crashed {s s' : Store} {env : Env} {c : Call} {io : CompactIo} {disk : Bytes} :
      Lives opts whole s → c.Issued s → whole s → FindsRoom s c →
      openStore opts io (c.run env s).2.disk = (.ok s', disk) → Lives opts whole s'

/-- The same acknowledged cursor and, under each key, the same record; of the texts of errors, what
is not valid UTF-8 is read as U+FFFD. -/
def SameState (s s' : Store) : Prop :=
  s'.lastAck = s.lastAck ∧
    ∀ k, (lookup k s'.records).map Record.clean = (lookup k s.records).map Record.clean

/-- What a store of such lives keeps up. -/
structure Living (opts : Options) (s : Store) : Prop where
  sound : Sound s
  under : Under opts s
  isOpen : s.isOpen = true
  filed : Filed True True True s

theorem Living.held (h : Living opts s) (ht : Terminated s.disk) : Held True True True s := by
  obtain ⟨m, left, hf, hb⟩ := h.filed
  exact ⟨m, hf.recorded ht, hb⟩

/-- Opening a file that is found to hold a memory. -/
theorem living_opened (hu : Usable opts) {disk left : Bytes} {m : Memory} {io : CompactIo}
    (hf : Finds opts.deviceID disk m left) (hfit : disk.length ≤ byteLimit opts)
    (hs : ShortLines disk) :
    ∃ s' disk', openStore opts io disk = (.ok s', disk') ∧ Living opts s' ∧ s'.toMemory = m := by
  obtain ⟨tail, hopen⟩ := openStore_finds io hu hf hs hfit
  have hinv : Inv opts False True True (freshStore opts ⟨m, left, tail⟩) :=
    inv_freshStore hu hf hfit (fun hex => hex.elim) fun _ _ _ => trivial
  exact ⟨_, _, hopen, ⟨hinv.sound, hinv.under, rfl, m, left, hf.left,
    backs_self opts left tail fun _ _ _ => trivial⟩, rfl⟩

theorem sameState_of_backs {m : Memory} (h : Backs True True True m s) (ho : s.isOpen = true)
    (hm : s'.toMemory = m) : SameState s s' := by
  subst hm
  refine ⟨h.sameAck trivial, fun k => ?_⟩
  cases hk : lookup k s.records with
  | none => rw [h.absent trivial trivial hk]
  | some r =>
    obtain ⟨r₀, hr₀, -, hclean⟩ := h.held hk (.inl ho)
    rw [hr₀, Option.map_some, Option.map_some, hclean trivial]

/-- What a call, returned or cut off, leaves of a living store. -/
theorem Living.fits (h : Living opts s) (hi : c.Issued s) :
    (c.run env s).2.disk.length ≤ byteLimit opts := by
  have hdoes := @call_does True env c s h.sound.wf hi (stages_any s c)
  rw [← (hdoes.under h.under).maxBytes]
  exact (hdoes.sound h.sound).fits

theorem Lives.living (hu : Usable opts) (hwhole : ∀ s, whole s → Terminated s.disk)
    (h : Lives opts whole s) : Living opts s := by
  have reopen : ∀ {disk left disk' : Bytes} {m : Memory} {io : CompactIo} {s' : Store},
      Finds opts.deviceID disk m left → disk.length ≤ byteLimit opts →
      openStore opts io disk = (.ok s', disk') → Living opts s' := by
    intro disk left disk' m io s' hf hfit ho
    obtain ⟨s'', disk'', ho', hliving, -⟩ := living_opened hu hf hfit (openStore_short ho)
    rw [ho, Prod.mk.injEq, Except.ok.injEq] at ho'
    exact ho'.1 ▸ hliving
  induction h with
  | opened ho => exact reopen (.whole (recorded_nil _)) (Nat.zero_le _) ho
  | @returned s env c hs hi hw henv hok ih =>
    have hdoes : Does True False True s (c.run env s).2 := by
      rcases hok with hfine | hroom
      · exact (call_does ih.sound.wf hi (stages_any s c)).mono (fun _ => hfine)
          fun hfault => hfault henv
      · exact (call_appends ih.sound.wf hi hroom).does ih.sound.wf henv
    obtain ⟨hfiled, -⟩ := hdoes.filed ih.sound (hwhole s hw)
      (by rw [not_false_eq_true]; exact ih.filed)
    rw [not_false_eq_true] at hfiled
    exact ⟨hdoes.sound ih.sound, hdoes.under ih.under, hdoes.isOpen ih.isOpen, hfiled⟩
  | @reopened s s' io disk hs ho ih =>
    obtain ⟨m, left, hf, -⟩ := ih.filed
    rw [ih.under.deviceID] at hf
    exact reopen hf (ih.under.maxBytes ▸ ih.sound.fits) ho
  | @crashed s s' env c io disk hs hi hw hroom ho ih =>
    obtain ⟨m, left, hf, -⟩ := (call_appends ih.sound.wf hi hroom).crash ih.sound ih.isOpen
      (ih.held (hwhole s hw)) env
    rw [ih.under.deviceID] at hf
    exact reopen hf (ih.fits hi) ho

/-- **A crash in the middle of a write loses nothing**, in lives in which no call writes behind an
unfinished line: `Open` finds the store again, and after a call that was cut off, but would have
found room, the store before the call or the one after it. -/
theorem crash_recovered (hu : Usable opts) (h : Lives opts (fun s => Terminated s.disk) s)
    (io : CompactIo) :
    (ShortLines s.disk → ∃ s' left, openStore opts io s.disk = (.ok s', left) ∧ SameState s s') ∧
    ∀ c env, c.Issued s → Terminated s.disk → FindsRoom s c → ShortLines (c.run env s).2.disk →
      ∃ s' left, openStore opts io (c.run env s).2.disk = (.ok s', left) ∧
        (SameState s s' ∨ (c.run .good s).1 = none ∧ SameState (c.run .good s).2 s') := by
  have hl := h.living hu fun _ ht => ht
  constructor
  · intro hs
    obtain ⟨m, left, hf, hb⟩ := hl.filed
    rw [hl.under.deviceID] at hf
    obtain ⟨s', left', ho, -, hm⟩ :=
      @living_opened opts hu s.disk left m io hf (hl.under.maxBytes ▸ hl.sound.fits) hs
    exact ⟨s', left', ho, sameState_of_backs hb hl.isOpen hm⟩
  · intro c env hi ht hroom hs
    have happ := call_appends hl.sound.wf hi hroom
    obtain ⟨m, left, hf, hb⟩ := happ.crash hl.sound hl.isOpen (hl.held ht) env
    rw [hl.under.deviceID] at hf
    obtain ⟨s', left', ho, -, hm⟩ := @living_opened opts hu _ left m io hf (hl.fits hi) hs
    refine ⟨s', left', ho, hb.imp (fun hb => sameState_of_backs hb hl.isOpen hm) fun hb => ?_⟩
    have hopen := (happ.does hl.sound.wf faultless_good).isOpen hl.isOpen
    exact ⟨hb.1, sameState_of_backs hb.2 hopen hm⟩

/-! ### A line cut exactly before its newline -/

/-- The call is cut off after `n` bytes of its line. -/
@[irreducible] def demoCut (n : Nat) (c : Call) (s : Store) : Bytes :=
  (c.run ⟨.id, fun _ => { Io.good with write := some n }⟩ s).2.disk

@[irreducible] def demoOpen (disk : Bytes) : Option Store :=
  match (openStore demoOptions .done disk).1 with
  | .ok s => some s
  | .error _ => none

theorem demoOpen_of_openStore {disk left : Bytes}
    (h : openStore demoOptions .done disk = (.ok s, left)) : demoOpen disk = some s := by
  unfold demoOpen
  rw [h]

theorem openStore_of_demoOpen {disk : Bytes} (h : demoOpen disk = some s) :
    ∃ disk', openStore demoOptions .done disk = (.ok s, disk') := by
  unfold demoOpen at h
  cases ho : openStore demoOptions .done disk with
  | mk result disk' =>
    rw [ho] at h
    cases result with
    | ok s' =>
      cases h
      exact ⟨disk', rfl⟩
    | error e => cases h

def demoStart : Call := .enqueue demoEvent 7 true true

def demoEnd : Call := .enqueue (demoPhase eventPhaseEnd 2) 8 true true

theorem demoStart_issued (s : Store) : demoStart.Issued s := ⟨demoEvent_portable, by decide⟩

theorem demoEnd_issued (s : Store) : demoEnd.Issued s :=
  ⟨demoPhase_portable (by decide +kernel) (by decide), by decide⟩

/-- What `FindsRoom` asks of the START and of the END, for any new event. -/
def demoRoom (event : AnalyticsEvent) (cursor : Nat) (s : Store) : Bool :=
  decide (s.records.length < s.maxRecords) &&
    decide (Fits (schedule event cursor true true s).2
      (eventEntry (schedule event cursor true true s).1
        (schedule event cursor true true s).2.deviceID
        (schedule event cursor true true s).2.nextAlarmSN))

theorem findsRoom_of_demoRoom {event : AnalyticsEvent} {cursor : Nat}
    (h : demoRoom event cursor s = true) : FindsRoom s (.enqueue event cursor true true) := by
  obtain ⟨hlen, hfit⟩ := Bool.and_eq_true_iff.mp h
  exact fun _ => ⟨of_decide_eq_true hlen, fun _ => of_decide_eq_true hfit⟩

/-- The store after the line of the call was cut off and the file opened again. -/
def afterCut (n : Nat) (c : Call) (s : Store) : Store := (demoOpen (demoCut n c s)).getD s

theorem Lives.cut {n : Nat} (h : Lives demoOptions whole s) (hi : c.Issued s) (hw : whole s)
    (hroom : FindsRoom s c) (ho : (demoOpen (demoCut n c s)).isSome = true) :
    Lives demoOptions whole (afterCut n c s) := by
  obtain ⟨s', hs'⟩ := Option.isSome_iff_exists.mp ho
  rw [afterCut, hs', Option.getD_some]
  obtain ⟨disk', hopen⟩ := openStore_of_demoOpen hs'
  unfold demoCut at hopen
  exact h.crashed hi hw hroom hopen

theorem Lives.call (h : Lives demoOptions whole s) (hi : c.Issued s) (hw : whole s)
    (hf : Fine (demoCall c s).1) : Lives demoOptions whole (demoCalls [c] s) := by
  rw [demoCalls, demoCalls]
  unfold demoCall at hf ⊢
  exact h.returned hi hw faultless_good (.inl hf)

theorem lives_newStore : Lives demoOptions whole (newStore demoOptions) := by
  refine @Lives.opened _ _ _ [] ?_
  rw [openStore, if_neg demoOptions_usable.accepted]
  exact if_neg (Nat.not_lt_zero _)

/-- The START lacks its newline, and the END is written behind it. -/
def joinedStore : Store := demoCalls [demoEnd] (afterCut 667 demoStart (newStore demoOptions))

theorem joinedStore_facts :
    demoRoom demoEvent 7 (newStore demoOptions) = true ∧
    (demoOpen (demoCut 667 demoStart (newStore demoOptions))).isSome = true ∧
    Fine (demoCall demoEnd (afterCut 667 demoStart (newStore demoOptions))).1 ∧
    joinedStore.disk.length ≤ maxLine ∧ (lookup demoKey joinedStore.records).isSome = true ∧
    (demoOpen joinedStore.disk).all (fun s => (lookup demoKey s.records).isNone) = true := by
  decide +kernel

/-- **A cut exactly before the newline loses records**: the line behind it and its own become one
that `Open` drops. -/
theorem joined_lines_lost :
    ¬ ∀ s, Lives demoOptions (fun _ => True) s → ShortLines s.disk →
      ∃ s' left, openStore demoOptions .done s.disk = (.ok s', left) ∧ SameState s s' := by
  intro h
  obtain ⟨hroom, hopen, hfine, hshort, hheld, hlost⟩ := joinedStore_facts
  have hlives : Lives demoOptions (fun _ => True) joinedStore :=
    (lives_newStore.cut (demoStart_issued _) trivial (findsRoom_of_demoRoom hroom) hopen).call
      (demoEnd_issued _) trivial hfine
  obtain ⟨s', left, ho, -, hsame⟩ := h _ hlives (shortLines_of_length hshort)
  have hnone : lookup demoKey s'.records = none := by
    rw [demoOpen_of_openStore ho] at hlost
    exact Option.isNone_iff_eq_none.mp hlost
  have hkey := hsame demoKey
  rw [hnone] at hkey
  rw [Option.isSome_iff_ne_none] at hheld
  exact hheld (Option.map_eq_none_iff.mp hkey.symm)

/-! ### A life after a cut line -/

/-- The END is cut off, written again in the next life, and the alarm of the START marked. -/
def mendedStore : Store :=
  demoCalls [demoEnd] (afterCut 400 demoEnd (demoCalls [demoStart] (newStore demoOptions)))

theorem mended_facts :
    Terminated (newStore demoOptions).disk ∧
    Fine (demoCall demoStart (newStore demoOptions)).1 ∧
    Terminated (demoCalls [demoStart] (newStore demoOptions)).disk ∧
    demoRoom (demoPhase eventPhaseEnd 2) 8 (demoCalls [demoStart] (newStore demoOptions)) = true ∧
    (demoOpen (demoCut 400 demoEnd (demoCalls [demoStart] (newStore demoOptions)))).isSome = true ∧
    Terminated (afterCut 400 demoEnd (demoCalls [demoStart] (newStore demoOptions))).disk ∧
    Fine (demoCall demoEnd
      (afterCut 400 demoEnd (demoCalls [demoStart] (newStore demoOptions)))).1 ∧
    mendedStore.disk.length ≤ maxLine ∧ Terminated mendedStore.disk ∧
    (demoCut 20 (.alarmSent demoKey) mendedStore).length ≤ maxLine ∧
    mendedStore.records.length = 2 := by
  decide +kernel

theorem crash_recovered_demo :
    mendedStore.records.length = 2 ∧
    (∃ s' left, openStore demoOptions .done mendedStore.disk = (.ok s', left) ∧
      SameState mendedStore s') ∧
    ∃ s' left, openStore demoOptions .done (demoCut 20 (.alarmSent demoKey) mendedStore) =
        (.ok s', left) ∧
      (SameState mendedStore s' ∨ (Call.run .good (.alarmSent demoKey) mendedStore).1 = none ∧
        SameState (Call.run .good (.alarmSent demoKey) mendedStore).2 s') := by
  obtain ⟨hnew, hstart, hterm, hroom, hopen, hcut, hend, hshort, hlast, hmark, hlen⟩ := mended_facts
  have hlives : Lives demoOptions (fun s => Terminated s.disk) mendedStore :=
    ((lives_newStore.call (demoStart_issued _) hnew hstart).cut (demoEnd_issued _) hterm
      (findsRoom_of_demoRoom hroom) hopen).call (demoEnd_issued _) hcut hend
  obtain ⟨hclean, hcrash⟩ := crash_recovered demoOptions_usable hlives .done
  unfold demoCut at hmark ⊢
  exact ⟨hlen, hclean (shortLines_of_length hshort),
    hcrash (.alarmSent demoKey) _ trivial hlast trivial (shortLines_of_length hmark)⟩

end FlowAlarm.Outbox
