import FlowAlarm.Daemon.Backing

/-!
# Runs of the outbox

`Reached` collects the stores of all runs: opened on a new file, changed by the
calls of the delivery service under a condition on each, and reopened.
`Reached.inv` is the invariant of these runs; `reopen_mirrors` reads off it
that `Open` recovers what the memory held.
-/

namespace FlowAlarm.Outbox

open FlowAlarm.Text FlowAlarm.Media Relation

variable {exact fine faulty anyPhase : Prop}

/-! ## Limits and opening -/

def recordLimit (opts : Options) : Nat :=
  if opts.maxRecords = 0 then defaultMaxRecords else opts.maxRecords.toNat

def byteLimit (opts : Options) : Nat :=
  if opts.maxBytes = 0 then defaultMaxBytes else opts.maxBytes.toNat

/-- Options that the delivery service opens its outbox with. -/
structure Usable (opts : Options) : Prop where
  device : trimSpace opts.deviceID ≠ []
  deviceUtf8 : validUtf8 opts.deviceID = true
  maxRecords : 0 ≤ opts.maxRecords
  maxBytes : 0 ≤ opts.maxBytes

theorem Usable.accepted {opts : Options} (h : Usable opts) :
    ¬ (opts.maxRecords < 0 ∨ opts.maxBytes < 0) :=
  not_or.mpr ⟨not_lt.mpr h.maxRecords, not_lt.mpr h.maxBytes⟩

/-- The store works under the options. -/
structure Under (opts : Options) (s : Store) : Prop where
  deviceID : s.deviceID = opts.deviceID
  maxRecords : s.maxRecords = recordLimit opts
  maxBytes : s.maxBytes = byteLimit opts

theorem freshStore_under (opts : Options) (l : Loaded) : Under opts (freshStore opts l) :=
  ⟨rfl, rfl, rfl⟩

/-- Opening a file within the limit recovers what the file holds. -/
theorem openStore_finds {opts : Options} {disk left : Bytes} {m : Memory} (io : CompactIo)
    (hu : Usable opts) (hf : Finds opts.deviceID disk m left) (hs : ShortLines disk)
    (hfit : disk.length ≤ byteLimit opts) :
    ∃ tail, openStore opts io disk = (.ok (freshStore opts ⟨m, left, tail⟩), left) := by
  obtain ⟨tail, hl⟩ := load_finds hf hs
  have hle : ¬ (freshStore opts ⟨m, left, tail⟩).maxBytes <
      (freshStore opts ⟨m, left, tail⟩).disk.length := not_lt.mpr (hf.length_left.trans hfit)
  refine ⟨tail, ?_⟩
  rw [openStore, if_neg hu.accepted, hl]
  exact if_neg hle

theorem shortLines_nil : ShortLines [] := fun line hl => by cases hl

theorem openStore_short {opts : Options} {disk disk' : Bytes} {io : CompactIo} {s : Store}
    (h : openStore opts io disk = (.ok s, disk')) : ShortLines disk := by
  unfold openStore at h
  split at h
  · cases h
  split at h
  · cases h
  next l hl => exact load_short hl

theorem rawLines_encodeEntry (e : JournalEntry) : rawLines (encodeEntry e) = [encodeEntry e] := by
  have := @rawLines_entries [e] [] (by simp)
  simpa [joinLines, encodeEntry] using this

theorem openStore_tooLong {opts : Options} {e : JournalEntry} {io : CompactIo} (hu : Usable opts)
    (h : maxLine < (encodeEntry e).length) :
    (openStore opts io (encodeEntry e)).1 = .error (.load (.tooLong 1)) := by
  rw [openStore, if_neg hu.accepted, load, rawLines_encodeEntry, loadLines, if_pos h]

/-! ## Runs -/

/-- The stores of runs under the condition `ok`, which sees the surroundings of a call, its result
and the store before it. -/
inductive Reached (opts : Options) (ok : Env → Option Err → Store → Prop) : Store → Prop where
  | opened {s : Store} {disk : Bytes} :
      openStore opts .done [] = (.ok s, disk) → Reached opts ok s
  | called {s : Store} {env : Env} {c : Call} : Reached opts ok s → c.Issued s →
      ok env (c.run env s).1 s → Reached opts ok (c.run env s).2
  | reopened {s s' : Store} {io : CompactIo} {disk : Bytes} : Reached opts ok s →
      openStore opts io s.disk = (.ok s', disk) → Reached opts ok s'

theorem Does.mono {fine' faulty' : Prop} {s s' : Store} (h : Does fine faulty anyPhase s s')
    (hfine : fine' → fine) (hfault : faulty → faulty') : Does fine' faulty' anyPhase s s' := by
  obtain ⟨s₁, hp, hf⟩ := h
  refine ⟨s₁, hp.lift id fun a b hab => ?_, ?_⟩
  · cases hab with
    | counters hn hd => exact .counters hn hd
    | compacted ho hr hfit => exact .compacted ho hr hfit
    | dropped hnot hc => exact .dropped (fun h => hnot (hfine h)) hc
    | lost hft ho hr hfit => exact .lost (hfault hft) ho hr hfit
  · cases hf with
    | idle => exact .idle _
    | committed ho hc hlen => exact .committed ho hc hlen
    | torn hft ho hc hlen => exact .torn (hfault hft) ho hc hlen

theorem Does.under {opts : Options} {s s' : Store} (h : Does fine faulty anyPhase s s')
    (hu : Under opts s) : Under opts s' := by
  obtain ⟨s₁, hp, hf⟩ := h
  have hk := hp.kept
  have hu₁ : Under opts s₁ :=
    ⟨hk.deviceID.trans hu.deviceID, hk.maxRecords.trans hu.maxRecords,
      hk.maxBytes.trans hu.maxBytes⟩
  cases hf with
  | idle => exact hu₁
  | committed => exact { hu₁ with }
  | torn => exact { hu₁ with }

/-- The invariant of a run. -/
structure Inv (opts : Options) (exact fine anyPhase : Prop) (s : Store) : Prop where
  sound : Sound s
  under : Under opts s
  filed : Filed exact fine anyPhase s
  terminated : exact → Terminated s.disk

theorem backs_self (opts : Options) {m : Memory} (left : Bytes) (tail : Bool)
    (hst : ∀ {k r}, lookup k m.records = some r → Stageable anyPhase r) :
    Backs exact fine anyPhase m (freshStore opts ⟨m, left, tail⟩) where
  held hr _ := ⟨_, hr, rfl, fun _ => rfl⟩
  absent _ _ _ h := h
  lastAck := le_rfl
  sameAck _ := rfl
  stored := hst
  found := hst

theorem inv_freshStore {opts : Options} {disk left : Bytes} {m : Memory} {tail : Bool}
    (hu : Usable opts) (hf : Finds opts.deviceID disk m left)
    (hfit : disk.length ≤ byteLimit opts) (ht : exact → Terminated left)
    (hst : ∀ {k r}, lookup k m.records = some r → Stageable anyPhase r) :
    Inv opts exact fine anyPhase (freshStore opts ⟨m, left, tail⟩) where
  sound := ⟨hf.wf (trimSpace_ne hu.device), trimSpace_ne hu.device, hu.deviceUtf8,
    hf.length_left.trans hfit⟩
  under := freshStore_under _ _
  filed := ⟨m, left, hf.left, backs_self opts left tail hst⟩
  terminated := ht

theorem Inv.reopened {opts : Options} {s s' : Store} {io : CompactIo} {disk : Bytes}
    (hu : Usable opts) (h : Inv opts exact fine anyPhase s)
    (ho : openStore opts io s.disk = (.ok s', disk)) : Inv opts exact fine anyPhase s' := by
  obtain ⟨m, left, hf, hb⟩ := h.filed
  rw [h.under.deviceID] at hf
  have hfit : s.disk.length ≤ byteLimit opts := h.under.maxBytes ▸ h.sound.fits
  obtain ⟨tail, hopen⟩ := openStore_finds io hu hf (openStore_short ho) hfit
  rw [hopen, Prod.mk.injEq, Except.ok.injEq] at ho
  rw [← ho.1]
  refine inv_freshStore hu hf hfit (fun hex => ?_) hb.found
  cases hf with
  | whole => exact h.terminated hex
  | cut hf _ => exact hf.recorded.terminated
  | bare => exact h.terminated hex

/-- What a store holds of its file, or waits for, the next one holds. -/
theorem Inv.reopened_held {opts : Options} {s s' : Store} {io : CompactIo} {disk k : Bytes}
    {r : Record} (hu : Usable opts) (h : Inv opts exact fine anyPhase s)
    (ho : openStore opts io s.disk = (.ok s', disk)) (hr : lookup k s.records = some r)
    (hw : s.isOpen = true ∨ Waiting r) :
    ∃ r', lookup k s'.records = some r' ∧ Agrees exact r r' := by
  obtain ⟨m, left, hf, hb⟩ := h.filed
  rw [h.under.deviceID] at hf
  obtain ⟨tail, hopen⟩ := openStore_finds io hu hf (openStore_short ho)
    (h.under.maxBytes ▸ h.sound.fits)
  rw [hopen, Prod.mk.injEq, Except.ok.injEq] at ho
  rw [← ho.1]
  exact hb.held hr hw

theorem inv_opened {opts : Options} {s : Store} {disk : Bytes} (hu : Usable opts)
    (ho : openStore opts .done [] = (.ok s, disk)) : Inv opts exact fine anyPhase s := by
  have hnil : Finds opts.deviceID [] .init [] := .whole (recorded_nil _)
  obtain ⟨tail, hopen⟩ := openStore_finds .done hu hnil shortLines_nil (Nat.zero_le _)
  rw [hopen, Prod.mk.injEq, Except.ok.injEq] at ho
  rw [← ho.1]
  exact inv_freshStore hu hnil (Nat.zero_le _) (fun _ => .inl rfl) fun hr => by cases hr

theorem Inv.called {opts : Options} {env : Env} {c : Call} {s : Store}
    (h : Inv opts exact fine anyPhase s) (hi : c.Issued s) (hst : c.Stages anyPhase s)
    (hexact : exact → Faultless env) (hfine : fine → Fine (c.run env s).1)
    (hterm : ¬ exact → Terminated s.disk) : Inv opts exact fine anyPhase (c.run env s).2 := by
  have hdoes : Does fine (¬ exact) anyPhase s (c.run env s).2 :=
    (call_does h.sound.wf hi hst).mono hfine fun hfault hex => hfault (hexact hex)
  have ht : Terminated s.disk := by
    by_cases hex : exact
    · exact h.terminated hex
    · exact hterm hex
  have hfiled := hdoes.filed h.sound ht (by rw [not_not]; exact h.filed)
  rw [not_not] at hfiled
  exact ⟨hdoes.sound h.sound, hdoes.under h.under, hfiled.1, hfiled.2⟩

/-- **What every run keeps up**, with `exact` for runs without a file-system fault and `fine` for
runs in which every operation is fine. In other runs a call must find the file terminated. -/
theorem Reached.inv {opts : Options} {ok : Env → Option Err → Store → Prop} {s : Store}
    (hu : Usable opts) (h : Reached opts ok s)
    (hexact : exact → ∀ {env r s}, ok env r s → Faultless env)
    (hfine : fine → ∀ {env r s}, ok env r s → Fine r)
    (hterm : ¬ exact → ∀ {env r s}, ok env r s → Terminated s.disk) :
    Inv opts exact fine True s := by
  induction h with
  | opened ho => exact inv_opened hu ho
  | @called s env c _ hi hok ih =>
    exact ih.called hi (stages_any s c) (fun hex => hexact hex hok) (fun hf => hfine hf hok)
      fun hnot => hterm hnot hok
  | reopened _ ho ih => exact ih.reopened hu ho

/-! ## Replay equivalence -/

/-- A call without a file-system fault. -/
def WithoutFaults (env : Env) (_ : Option Err) (_ : Store) : Prop := Faultless env

/-- A call without a file-system fault that returns nil or `ErrUpdateDropped`. -/
def Smooth (env : Env) (r : Option Err) (_ : Store) : Prop := Faultless env ∧ Fine r

theorem Backs.mirrors {m : Memory} {s : Store} (h : Backs True True anyPhase m s)
    (ho : s.isOpen = true) (k : Bytes) :
    (lookup k m.records).map Record.strip = (lookup k s.records).map Record.strip := by
  cases hk : lookup k s.records with
  | none => rw [h.absent trivial trivial hk]
  | some r =>
    obtain ⟨r₀, hr₀, -, hclean⟩ := h.held hk (.inl ho)
    rw [hr₀, Option.map_some, Option.map_some, strip_of_clean (hclean trivial)]

theorem Prepared.isOpen {s s' : Store} (h : Prepared fine False s s') (ho : s.isOpen = true) :
    s'.isOpen = true := by
  induction h with
  | refl => exact ho
  | tail _ h ih =>
    cases h with
    | counters => exact ih
    | compacted => exact ih
    | dropped => exact ih
    | lost hf => exact hf.elim

theorem Does.isOpen {s s' : Store} (h : Does fine False anyPhase s s') (ho : s.isOpen = true) :
    s'.isOpen = true := by
  obtain ⟨s₁, hp, hf⟩ := h
  have ho₁ := hp.isOpen ho
  cases hf with
  | idle => exact ho₁
  | committed => exact ho₁
  | torn hfalse => exact hfalse.elim

/-- Without a fault the store stays open. -/
theorem Reached.isOpen {opts : Options} {ok : Env → Option Err → Store → Prop} {s : Store}
    (hu : Usable opts) (h : Reached opts ok s)
    (hexact : ∀ {env r s}, ok env r s → Faultless env) : s.isOpen = true := by
  have opened : ∀ {io : CompactIo} {disk disk' : Bytes} {s : Store},
      openStore opts io disk = (.ok s, disk') → s.isOpen = true := by
    intro io disk disk' s ho
    unfold openStore at ho
    split at ho
    · cases ho
    split at ho
    · cases ho
    dsimp only at ho
    split at ho
    · split at ho
      · cases ho
      next hc =>
        obtain ⟨-, -, rfl⟩ := compactLocked_none hc
        cases ho
        rfl
    · cases ho
      rfl
  induction h with
  | opened ho => exact opened ho
  | @called s env c hr hi hok ih =>
    have hinv : Inv opts True False True s := hr.inv hu (fun _ => hexact) (fun hf => hf.elim)
      fun hf => absurd trivial hf
    have hdoes : Does False False True s (c.run env s).2 :=
      (call_does hinv.sound.wf hi (stages_any s c)).mono (fun hf => hf.elim) fun hfault =>
        hfault (hexact hok)
    exact hdoes.isOpen ih
  | reopened _ ho _ => exact opened ho

/-- **`Open` recovers the store.** After a run of fine operations without a file-system fault, the
file replays to the records and the acknowledged cursor of the memory. -/
theorem reopen_mirrors {opts : Options} {s : Store} (io : CompactIo) (hu : Usable opts)
    (h : Reached opts Smooth s) (hs : ShortLines s.disk) :
    ∃ s' disk, openStore opts io s.disk = (.ok s', disk) ∧ s'.lastAck = s.lastAck ∧
      ∀ k, (lookup k s'.records).map Record.strip = (lookup k s.records).map Record.strip := by
  have hinv : Inv opts True True True s := h.inv hu (fun _ _ _ _ hok => hok.1)
    (fun _ _ _ _ hok => hok.2) fun hf => absurd trivial hf
  obtain ⟨m, left, hf, hb⟩ := hinv.filed
  rw [hinv.under.deviceID] at hf
  obtain ⟨tail, hopen⟩ := openStore_finds io hu hf hs (hinv.under.maxBytes ▸ hinv.sound.fits)
  have ho := h.isOpen hu fun hok => hok.1
  exact ⟨_, _, hopen, hb.sameAck trivial, hb.mirrors ho⟩

def demoOptions : Options := ⟨ascii "34020000001110000001", 0, 0⟩

def demoEvent : AnalyticsEvent :=
  { AnalyticsEvent.zero with
    contractVersion := 1
    eventID := ascii "c-1-1"
    channelID := ascii "34020000001310000001"
    phase := eventPhaseStart
    eventSeq := 1
    evidenceID := ascii "ev" }

theorem demoEvent_portable : Portable demoEvent := by
  refine ⟨?_, by decide +kernel⟩
  constructor <;> decide +kernel

theorem demoOptions_usable : Usable demoOptions :=
  ⟨by decide +kernel, by decide +kernel, by decide, by decide⟩

theorem faultless_good : Faultless .good := fun _ => rfl

def newStore (opts : Options) : Store := freshStore opts ⟨.init, [], false⟩

theorem reached_newStore {opts : Options} {ok : Env → Option Err → Store → Prop}
    (hu : Usable opts) : Reached opts ok (newStore opts) := by
  refine @Reached.opened _ _ _ [] ?_
  rw [openStore, if_neg hu.accepted]
  exact if_neg (Nat.not_lt_zero _)

def demoKey : Bytes := keyOf demoOptions.deviceID demoEvent

/-- A START whose alarm and evidence are pending. -/
def demoEnqueued : Store := (Call.run .good (.enqueue demoEvent 7 true true) (newStore demoOptions)).2

theorem demoEnqueued_reached {ok : Env → Option Err → Store → Prop}
    (hok : ∀ r s, ok .good r s) : Reached demoOptions ok demoEnqueued := by
  unfold demoEnqueued
  exact .called (reached_newStore demoOptions_usable) ⟨demoEvent_portable, by decide⟩ (hok _ _)

/-! ### A run with a coalesced UPDATE and an eviction -/

/-- A call without faults; irreducible, as its evaluation is left to the kernel. -/
@[irreducible] def demoCall (c : Call) (s : Store) : Option Err × Store := c.run .good s

def demoCalls : List Call → Store → Store
  | [], s => s
  | c :: cs, s => demoCalls cs (demoCall c s).2

def demoFine : List Call → Store → Bool
  | [], _ => true
  | c :: cs, s => decide (Fine (demoCall c s).1) && demoFine cs (demoCall c s).2

theorem demoCalls_reached {opts : Options} {cs : List Call} {s : Store}
    (hi : ∀ c ∈ cs, ∀ s, c.Issued s) (hf : demoFine cs s = true) (h : Reached opts Smooth s) :
    Reached opts Smooth (demoCalls cs s) := by
  induction cs generalizing s with
  | nil => exact h
  | cons c cs ih =>
    obtain ⟨hi0, his⟩ := List.forall_mem_cons.mp hi
    simp only [demoFine, Bool.and_eq_true, decide_eq_true_eq] at hf
    refine ih his hf.2 ?_
    unfold demoCall at hf ⊢
    exact h.called (hi0 s) ⟨faultless_good, hf.1⟩

def threeOptions : Options := { demoOptions with maxRecords := 3 }

theorem threeOptions_usable : Usable threeOptions :=
  { demoOptions_usable with maxRecords := by decide }

def demoPhase (phase : Bytes) (seq : Nat) : AnalyticsEvent :=
  { demoEvent with phase := phase, eventSeq := seq }

/-- The START is delivered; of three UPDATEs the last replaces the second, and the END evicts the
START. -/
def threeCalls : List Call :=
  [.enqueue demoEvent 7 true true, .alarmSent demoKey, .evidenceSent demoKey,
    .enqueue (demoPhase eventPhaseUpdate 2) 8 false true,
    .enqueue (demoPhase eventPhaseUpdate 3) 9 false true,
    .enqueue (demoPhase eventPhaseUpdate 4) 10 false true,
    .enqueue (demoPhase eventPhaseEnd 5) 11 true true, .ack 11]

def threeStore : Store := demoCalls threeCalls (newStore threeOptions)

theorem three_facts :
    demoFine threeCalls (newStore threeOptions) = true ∧ ShortLines threeStore.disk ∧
    threeStore.lastAck = 11 ∧ threeStore.records.map (·.cursor) = [11, 10, 8] := by
  decide +kernel

theorem demoPhase_portable {phase : Bytes} {seq : Nat} (hphase : validUtf8 phase = true)
    (hseq : seq < 2 ^ 64) : Portable (demoPhase phase seq) := by
  obtain ⟨htyped, hclean⟩ := demoEvent_portable
  refine ⟨{ htyped with eventSeq := hseq }, ?_⟩
  have hstart : (demoPhase phase seq).clean =
      { demoEvent.clean with phase := sanitize phase, eventSeq := seq } := rfl
  rw [hstart, hclean, sanitize_eq_self.mpr hphase]
  rfl

theorem threeCalls_issued : ∀ c ∈ threeCalls, ∀ s, c.Issued s := by
  have hphase : ∀ phase ∈ [eventPhaseUpdate, eventPhaseEnd], validUtf8 phase = true := by
    decide +kernel
  have update := hphase eventPhaseUpdate List.mem_cons_self
  simp only [threeCalls, List.forall_mem_cons]
  refine ⟨fun _ => ⟨demoEvent_portable, by decide⟩, fun _ => trivial, fun _ => trivial,
    fun _ => ⟨demoPhase_portable update (by decide), by decide⟩,
    fun _ => ⟨demoPhase_portable update (by decide), by decide⟩,
    fun _ => ⟨demoPhase_portable update (by decide), by decide⟩,
    fun _ => ⟨demoPhase_portable (hphase _ (by simp)) (by decide), by decide⟩,
    fun _ => show 11 < 2 ^ 64 by decide, by simp⟩

theorem reopen_mirrors_demo :
    threeStore.lastAck = 11 ∧ threeStore.records.map (·.cursor) = [11, 10, 8] ∧
    ∃ s' disk, openStore threeOptions .done threeStore.disk = (.ok s', disk) ∧
      s'.lastAck = threeStore.lastAck ∧
      ∀ k, (lookup k s'.records).map Record.strip =
        (lookup k threeStore.records).map Record.strip := by
  obtain ⟨hfine, hshort, hack, hcursors⟩ := three_facts
  have hreach := demoCalls_reached threeCalls_issued hfine (reached_newStore threeOptions_usable)
  exact ⟨hack, hcursors, reopen_mirrors .done threeOptions_usable hreach hshort⟩

end FlowAlarm.Outbox
