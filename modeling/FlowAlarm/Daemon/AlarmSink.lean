import FlowAlarm.Daemon.Service

/-!
# The alarm sink of the delivery service

What a run of the service shows of the alarm of a record that stays in the
outbox. A `Run` collects the outputs between two worlds; `alarm_sink` bounds the
messages about a record by the attempts it has left.
-/

namespace FlowAlarm.Delivery

open FlowAlarm.Text FlowAlarm.Media FlowAlarm.Evidence FlowAlarm.Outbox FlowAlarm.GbXml
open FlowAlarm.Wire (EventNotification)

variable {sha : Sha256} {cfg : Config} {zone : Zone}

/-! ## Runs with their outputs -/

/-- An alarm step whose outcome the outbox could not record. -/
def Input.unrecorded (cfg : Config) (w : World) : Input → ℕ
  | .alarm t _ =>
    match w.alarm.call cfg t with
    | none => 0
    | some c => if (c.run t.env w.store).1 = none then 0 else 1
  | _ => 0

/-- A run along which every world meets `stays`, with what it shows. The number counts what the
alarm loop loses: outcomes that were not recorded, and restarts. -/
inductive Run (sha : Sha256) (cfg : Config) (zone : Zone) (smooth : Prop) (stays : World → Prop) :
    World → List Output → ℕ → World → Prop where
  | refl {w : World} : stays w → Run sha cfg zone smooth stays w [] 0 w
  | step {w u : World} {outs : List Output} {n : ℕ} {i : Input} :
      Run sha cfg zone smooth stays w outs n u → i.Typed cfg → (smooth → i.Smooth cfg u) →
      stays (step sha cfg zone u i).1 →
      Run sha cfg zone smooth stays w (outs ++ (step sha cfg zone u i).2) (n + i.unrecorded cfg u)
        (step sha cfg zone u i).1
  | restart {w u : World} {outs : List Output} {n : ℕ} {s : Store} {io : CompactIo} {disk : Bytes}
      {staged source : Directory.Files} : smooth → Run sha cfg zone smooth stays w outs n u →
      openStore cfg.options io u.store.disk = (.ok s, disk) →
      stays (World.start s staged source) →
      Run sha cfg zone smooth stays w outs (n + 1) (World.start s staged source)

variable {smooth : Prop} {stays : World → Prop} {w w' : World} {outs : List Output} {n : ℕ}
  {k : Bytes} {r r' : Record}

theorem Run.reachable (h : Run sha cfg zone smooth stays w outs n w')
    (hw : Reachable sha cfg zone smooth w) : Reachable sha cfg zone smooth w' := by
  induction h with
  | refl => exact hw
  | step _ hi hs _ ih => exact .stepped ih hi hs
  | restart hs _ ho _ ih => exact .restarted hs ih ho

theorem Run.stays_last (h : Run sha cfg zone smooth stays w outs n w') : stays w' := by
  cases h with
  | refl hs => exact hs
  | step _ _ _ hs => exact hs
  | restart _ _ _ hs => exact hs

/-- The outbox holds a record under the key. -/
def Holds (k : Bytes) (w : World) : Prop := ∃ r, lookup k w.store.records = some r

/-! ## A record over a step -/

theorem changes_keeps {c : Call} {update : Record → Record} (h : c.changes = some (k, update))
    (r : Record) : (update r).event = r.event ∧ (update r).alarmSN = r.alarmSN ∧
      (update r).key = r.key := by
  cases c with
  | enqueue | ack => cases h
  | _ =>
    cases h
    exact ⟨rfl, rfl, rfl⟩

/-- A record that a step leaves there is as it was, or changed by the step's call. -/
theorem step_held (h : Inv sha cfg w) (i : Input) (hr : lookup k w.store.records = some r)
    (hr' : lookup k (step sha cfg zone w i).1.store.records = some r') :
    r' = r ∨ ∃ t c update, i.call cfg w = some (t, c) ∧ c.changes = some (k, update) ∧
      (c.run t.env w.store).1 = none ∧ r' = update r := by
  rw [step_store] at hr'
  cases hc : i.call cfg w with
  | none =>
    rw [hc, callStore, hr] at hr'
    cases hr'
    exact .inl rfl
  | some p =>
    obtain ⟨t, c⟩ := p
    rw [hc, callStore] at hr'
    cases @call_record t.env c w.store h.sound.wf k with
    | same heq =>
      rw [heq, hr] at hr'
      cases hr'
      exact .inl rfl
    | changed hch hres hx hnew =>
      rw [hr] at hx
      cases hx
      rw [hnew] at hr'
      cases hr'
      exact .inr ⟨t, c, _, rfl, hch, hres, rfl⟩
    | added _ _ _ hnone =>
      rw [hr] at hnone
      cases hnone
    | removed _ _ _ _ hnone =>
      rw [hnone] at hr'
      cases hr'

theorem mark_done {env : Env} {key : Bytes} {entry : Record → JournalEntry}
    {update : Record → Record} (hkey : ∀ r, (update r).key = r.key) {s : Store}
    (hr : lookup key s.records = some r) (hres : failure (mark env key entry update s).1 = none) :
    lookup key (mark env key entry update s).2.records = some (update r) := by
  unfold mark at hres ⊢
  simp only [hr] at hres ⊢
  cases hal : appendLocked (env.io 1) (entry (update r)) s with
  | mk res s' =>
    rw [hal] at hres
    cases res with
    | some e => cases hres
    | none =>
      have hk : (update r).key = key := (hkey r).trans (Keyed.lookup_key hr)
      simp only [lookup_insert, if_pos hk]

/-- A call that returns nil changed the record it is about. -/
theorem call_done {c : Call} {update : Record → Record} (hc : c.changes = some (k, update))
    {env : Env} {s : Store} (hr : lookup k s.records = some r) (hres : (c.run env s).1 = none) :
    lookup k (c.run env s).2.records = some (update r) := by
  cases c with
  | enqueue | ack => cases hc
  | evidenceState key state cause =>
    cases hc
    dsimp only [Call.run, outcome, markEvidenceState] at hres ⊢
    split at hres
    · cases hres
    next hne =>
      rw [if_neg hne]
      refine mark_done ?_ hr hres
      exact fun _ => rfl
  | alarmSent | alarmAttempt =>
    cases hc
    dsimp only [Call.run, outcome, markAlarmSent, markAlarmAttempt] at hres ⊢
    refine mark_done ?_ hr hres
    exact fun _ => rfl
  | evidenceSent | evidenceAttempt | stagingFailure =>
    cases hc
    dsimp only [Call.run, outcome, markEvidenceSent, markEvidenceAttempt,
      markEvidenceStagingFailure] at hres ⊢
    refine mark_done ?_ hr hres
    exact fun _ => rfl

theorem reached_mono {opts : Options} {ok ok' : Env → Option Err → Store → Prop} {s : Store}
    (h : Reached opts ok s) (hok : ∀ env res s, ok env res s → ok' env res s) :
    Reached opts ok' s := by
  induction h with
  | opened ho => exact .opened ho
  | called _ hi h ih => exact .called ih hi (hok _ _ _ h)
  | reopened _ ho ih => exact .reopened ih ho

/-- **A restart recovers the outbox** up to the texts of errors. -/
theorem restart_mirrors (hu : Usable cfg.options) (hsm : smooth)
    (h : Reachable sha cfg zone smooth w) {s : Store} {io : CompactIo} {disk : Bytes}
    (ho : openStore cfg.options io w.store.disk = (.ok s, disk)) :
    s.lastAck = w.store.lastAck ∧
      ∀ k, (lookup k s.records).map Record.strip = (lookup k w.store.records).map Record.strip := by
  have hreached : Reached cfg.options Outbox.Smooth w.store :=
    reached_mono (reachable_inv hu h).2 fun _ _ _ hok => hok hsm
  obtain ⟨s', disk', ho', hack, hlook⟩ := reopen_mirrors io hu hreached (openStore_short ho)
  rw [ho] at ho'
  cases ho'
  exact ⟨hack, hlook⟩

theorem restart_held (hu : Usable cfg.options) (hsm : smooth)
    (h : Reachable sha cfg zone smooth w) {s : Store} {io : CompactIo} {disk : Bytes}
    (ho : openStore cfg.options io w.store.disk = (.ok s, disk))
    (hr : lookup k w.store.records = some r) (hr' : lookup k s.records = some r') :
    r'.strip = r.strip := by
  have := (restart_mirrors hu hsm h ho).2 k
  rw [hr, hr'] at this
  exact Option.some.inj this

theorem strip_alarmPart (h : r'.strip = r.strip) : alarmPart r' = alarmPart r := by
  show alarmPart r'.strip = alarmPart r.strip
  rw [h]

/-! ## What each loop shows -/

theorem enqueued_shows (job : Job) (staged : Staged) (result : Except Err (Record × Bool)) :
    ∀ o ∈ (enqueued job staged result).2, ∃ e, o = .returned job.notification (some e) := by
  unfold enqueued
  split
  · simp
  · simp
  · split
    · simp
    · split <;> simp
    · simp

theorem IngestStep.shows {t : Turn} {pc : Ingest} {out : List Output}
    (h : IngestStep sha cfg t w pc w' out) :
    ∀ o ∈ out, (∃ m res, o = .returned m res) ∨ ∃ u, o = .gaveUp u := by
  cases h with
  | @enqueued job staged result s =>
    intro o ho
    obtain ⟨e, rfl⟩ := enqueued_shows job staged result o ho
    exact .inl ⟨_, _, rfl⟩
  | _ => simp

theorem stepEvidence_shows (t : Turn) (answer : Option Bytes) (w : World) :
    ∀ o ∈ (stepEvidence sha cfg t answer w).2, ∃ now r metadata image rest,
      w.evidence = .loaded now r metadata image rest ∧ o = .upload r metadata image answer := by
  cases hpc : w.evidence with
  | idle =>
    simp only [stepEvidence, hpc]
    split <;> simp
  | pass now rest =>
    cases rest with
    | nil => simp [stepEvidence, hpc]
    | cons r rest =>
      simp only [stepEvidence, hpc]
      split
      · simp
      · split <;> simp
  | loaded now r metadata image rest =>
    simp only [stepEvidence, hpc, List.mem_singleton]
    rintro o rfl
    exact ⟨now, r, metadata, image, rest, rfl, rfl⟩
  | sent now r answer rest => cases answer <;> simp [stepEvidence, hpc]
  | removing now names rest => cases names <;> simp [stepEvidence, hpc]

theorem stepAlarm_shows (t : Turn) (answer : Option Bytes) (w : World) :
    ∀ o ∈ (stepAlarm cfg zone t answer w).2, ∃ now r rest, w.alarm = .pass now (r :: rest) ∧
      (stepAlarm cfg zone t answer w).1 = { w with alarm := .sent now r answer rest } ∧
      o = .message r (alarmBody cfg.toAlarmConfig zone r) answer := by
  cases hpc : w.alarm with
  | idle => simp [stepAlarm, hpc]
  | pass now rest =>
    cases rest with
    | nil => simp [stepAlarm, hpc]
    | cons r rest =>
      simp only [stepAlarm, hpc]
      split
      · simp
      split
      · simp
      · simp only [List.mem_singleton]
        rintro o rfl
        exact ⟨now, r, rest, rfl, rfl, rfl⟩
  | sent now r answer rest => cases answer <;> simp [stepAlarm, hpc]

/-- A message is about the first record of the alarm loop's pass. -/
theorem step_message {i : Input} {x : Record} {body : Bytes} {answer : Option Bytes}
    (ho : .message x body answer ∈ (step sha cfg zone w i).2) :
    ∃ t now rest, i = .alarm t answer ∧ w.alarm = .pass now (x :: rest) ∧
      body = alarmBody cfg.toAlarmConfig zone x := by
  cases i with
  | alarm t a =>
    obtain ⟨now, r, rest, hpc, -, heq⟩ := @stepAlarm_shows cfg zone t a w _ ho
    cases heq
    exact ⟨t, now, rest, rfl, hpc, rfl⟩
  | ingest t =>
    rcases (stepIngest_cases sha cfg t w).shows _ ho with ⟨_, _, heq⟩ | ⟨_, heq⟩ <;> cases heq
  | evidence t a =>
    obtain ⟨_, _, _, _, _, _, heq⟩ := @stepEvidence_shows sha cfg t a w _ ho
    cases heq
  | engine | notify | cancelAlarm | cancelEvidence =>
    dsimp only [step] at ho
    first
      | cases ho
      | split at ho <;> cases ho

/-! ## The alarm sink -/

/-- The alarm loop has an outcome to record under the key. -/
def AlarmLoop.flying (k : Bytes) : AlarmLoop → Bool
  | .sent _ r _ _ => r.key == k
  | .idle | .pass _ _ => false

/-- How many messages a record may still get. -/
def budget (cfg : Config) (k : Bytes) (pc : AlarmLoop) (r : Record) : ℤ :=
  if r.alarmState = .pending then cfg.maxAttempts - r.alarmAttempts - (pc.flying k).toNat else 0

def Output.messageOf (k : Bytes) : Output → Bool
  | .message r _ _ => r.key == k
  | .upload .. | .gaveUp _ | .returned _ _ => false

/-- The messages about a record. -/
def messages (k : Bytes) (outs : List Output) : ℕ := outs.countP (·.messageOf k)

/-- Records whose alarm is pending have attempts left. -/
def AttemptsLeft (cfg : Config) (s : Store) : Prop :=
  ∀ k r, lookup k s.records = some r → r.alarmState = .pending → r.alarmAttempts < cfg.maxAttempts

theorem budget_congr {pc : AlarmLoop} (h : alarmPart r' = alarmPart r) :
    budget cfg k pc r' = budget cfg k pc r := by
  simp only [alarmPart, Prod.mk.injEq] at h
  simp only [budget, h.2.1, h.2.2.2]

theorem budget_nonneg {pc : AlarmLoop} (h : r.alarmState = .pending → r.alarmAttempts < cfg.maxAttempts) :
    0 ≤ budget cfg k pc r := by
  unfold budget
  split
  next hp =>
    have := h hp
    cases pc.flying k <;> simp only [Bool.toNat_true, Bool.toNat_false] <;> omega
  · exact le_rfl

/-- What the alarm loop records of an attempt: its end, or an attempt with more to come. -/
theorem alarm_marks {pc : AlarmLoop} {t : Turn} {c : Call} (hc : pc.call cfg t = some c) :
    ∃ r₀ rest update, pc.records = r₀ :: rest ∧ c.changes = some (r₀.key, update) ∧
      ((∀ x, (update x).alarmState ≠ .pending) ∨ pc.flying r₀.key = true ∧
        r₀.alarmAttempts + 1 < cfg.maxAttempts ∧
        ∀ x, (update x).alarmAttempts = x.alarmAttempts + 1) := by
  cases pc with
  | idle => cases hc
  | pass now rest =>
    cases rest with
    | nil => cases hc
    | cons r₀ rest =>
      dsimp only [AlarmLoop.call] at hc
      split at hc
      · cases hc
      split at hc
      · cases hc
        exact ⟨r₀, rest, _, rfl, rfl, .inl fun x => SinkState.noConfusion⟩
      · cases hc
  | sent now r₀ answer rest =>
    cases answer with
    | none =>
      cases hc
      exact ⟨r₀, rest, _, rfl, rfl, .inl fun x => SinkState.noConfusion⟩
    | some cause =>
      cases hc
      refine ⟨r₀, rest, _, rfl, rfl, ?_⟩
      by_cases hfinal : cfg.maxAttempts ≤ r₀.alarmAttempts + 1
      · rw [decide_eq_true hfinal]
        exact .inl fun x => SinkState.noConfusion
      · exact .inr ⟨beq_self_eq_true _, by omega, fun x => rfl⟩

theorem flying_head {pc : AlarmLoop} {r₀ : Record} {rest : List Record}
    (h : pc.records = r₀ :: rest) (hne : r₀.key ≠ k) : pc.flying k = false := by
  cases pc with
  | idle | pass => rfl
  | sent now r answer rest' =>
    cases h
    exact beq_eq_false_iff_ne.mpr hne

/-- The record of an outcome, or the lack of one. -/
theorem alarm_outcome (h : Inv sha cfg w) {t : Turn} {c : Call}
    (hc : w.alarm.call cfg t = some c) {answer : Option Bytes}
    (hr : lookup k w.store.records = some r)
    (hr' : lookup k (step sha cfg zone w (.alarm t answer)).1.store.records = some r') :
    (r' = r ∧ (w.alarm.flying k = true → (c.run t.env w.store).1 ≠ none)) ∨
      r'.alarmState ≠ .pending ∨
      (w.alarm.flying k = true ∧ r.alarmState = .pending ∧ r'.alarmAttempts = r.alarmAttempts + 1 ∧
        r'.alarmAttempts < cfg.maxAttempts) := by
  obtain ⟨r₀, rest, update, hrecords, hch, hwhat⟩ := alarm_marks hc
  have hcall : (Input.alarm t answer).call cfg w = some (t, c) :=
    Option.map_eq_some_iff.mpr ⟨c, hc, rfl⟩
  by_cases hkey : r₀.key = k
  · subst hkey
    obtain ⟨hp, x, hx, hpart⟩ := h.alarm.held r₀ (by rw [hrecords]; exact List.mem_cons_self)
    rw [hr, Option.some.injEq] at hx
    subst hx
    by_cases hres : (c.run t.env w.store).1 = none
    · have hdone := call_done hch hr hres
      rw [step_store, hcall, callStore, hdone, Option.some.injEq] at hr'
      subst hr'
      rcases hwhat with hend | ⟨hfly, hlt, hmore⟩
      · exact .inr (.inl (hend _))
      · have hatt : r.alarmAttempts = r₀.alarmAttempts := congrArg (fun p => p.2.2.2) hpart
        refine .inr (.inr ⟨hfly, pending_alarmState hpart hp, hmore r, ?_⟩)
        rw [hmore]
        omega
    · rcases step_held h _ hr hr' with rfl | ⟨t', c', update', hc', -, hres', -⟩
      · exact .inl ⟨rfl, fun _ => hres⟩
      · rw [hcall] at hc'
        cases hc'
        exact absurd hres' hres
  · have hfly := flying_head hrecords hkey
    rcases step_held h _ hr hr' with rfl | ⟨t', c', update', hc', hch', -, -⟩
    · exact .inl ⟨rfl, fun hf => by rw [hfly] at hf; cases hf⟩
    · rw [hcall] at hc'
      cases hc'
      rw [hch] at hch'
      cases hch'
      exact absurd rfl hkey

/-- Other loops leave the alarm part of a record, and show no message. -/
theorem step_otherwise (h : Inv sha cfg w) {i : Input} (hi : ∀ t answer, i ≠ .alarm t answer)
    (hr : lookup k w.store.records = some r)
    (hr' : lookup k (step sha cfg zone w i).1.store.records = some r') :
    alarmPart r' = alarmPart r ∧
      (step sha cfg zone w i).1.alarm.flying k = w.alarm.flying k ∧
      messages k (step sha cfg zone w i).2 = 0 := by
  refine ⟨?_, ?_, ?_⟩
  · rcases step_held h i hr hr' with rfl | ⟨t, c, update, hc, hch, -, rfl⟩
    · rfl
    · cases i with
      | engine | notify | cancelAlarm | cancelEvidence => cases hc
      | alarm t answer => exact absurd rfl (hi t answer)
      | ingest t =>
        obtain ⟨c', hc', he⟩ := Option.map_eq_some_iff.mp hc
        cases he
        exact (ingest_spares hc').1 _ _ hch r
      | evidence t answer =>
        obtain ⟨c', hc', he⟩ := Option.map_eq_some_iff.mp hc
        cases he
        exact (evidence_calls hc').2.1 _ _ hch r
  · cases i with
    | alarm t answer => exact absurd rfl (hi t answer)
    | engine => rfl
    | ingest t =>
      show (stepIngest sha cfg t w).1.alarm.flying k = _
      rw [(stepIngest_cases sha cfg t w).loops.1]
    | evidence t answer =>
      show (stepEvidence sha cfg t answer w).1.alarm.flying k = _
      rw [stepEvidence_loops t answer w |>.2]
    | notify n =>
      dsimp only [step]
      split <;> rfl
    | cancelAlarm =>
      dsimp only [step]
      split
      next hpc =>
        rw [hpc]
        rfl
      · rfl
    | cancelEvidence =>
      dsimp only [step]
      split <;> rfl
  · refine List.countP_eq_zero.mpr fun o ho => ?_
    cases o with
    | message x body answer =>
      obtain ⟨t, _, _, rfl, -⟩ := step_message ho
      exact absurd rfl (hi t answer)
    | upload | gaveUp | returned => exact Bool.false_ne_true

theorem attemptsLeft_step (hpos : 0 < cfg.maxAttempts) (h : Inv sha cfg w)
    (hl : AttemptsLeft cfg w.store) (i : Input) :
    AttemptsLeft cfg (step sha cfg zone w i).1.store := by
  intro k r' hr' hp
  cases hr : lookup k w.store.records with
  | some r =>
    by_cases hi : ∃ t answer, i = .alarm t answer
    · obtain ⟨t, answer, rfl⟩ := hi
      rcases step_held h _ hr hr' with rfl | ⟨t', c, update, hc, -, -, -⟩
      · exact hl k _ hr hp
      · obtain ⟨c', hc', he⟩ := Option.map_eq_some_iff.mp hc
        cases he
        rcases alarm_outcome h hc' hr hr' with ⟨rfl, -⟩ | hne | ⟨-, -, -, hlt⟩
        · exact hl k _ hr hp
        · exact absurd hp hne
        · exact hlt
    · have hpart := (step_otherwise h (fun t answer he => hi ⟨t, answer, he⟩) hr hr').1
      simp only [alarmPart, Prod.mk.injEq] at hpart
      have := hl k r hr (hpart.2.1 ▸ hp)
      omega
  | none =>
    rw [step_store] at hr'
    cases hc : i.call cfg w with
    | none =>
      rw [hc, callStore, hr] at hr'
      cases hr'
    | some p =>
      obtain ⟨t, c⟩ := p
      rw [hc, callStore] at hr'
      cases @call_record t.env c w.store h.sound.wf k with
      | same heq =>
        rw [heq, hr] at hr'
        cases hr'
      | changed _ _ hx =>
        rw [hr] at hx
        cases hx
      | added _ _ _ _ hnew =>
        rw [hnew] at hr'
        cases hr'
        exact hpos
      | removed _ _ hx =>
        rw [hr] at hx
        cases hx

theorem opened_records {opts : Options} (hu : Usable opts) {s : Store} {disk : Bytes}
    (ho : openStore opts .done [] = (.ok s, disk)) : s.records = [] ∧ s.lastAck = 0 := by
  obtain ⟨tail, hopen⟩ := openStore_finds .done hu (.whole (recorded_nil _)) shortLines_nil
    (Nat.zero_le _)
  rw [hopen, Prod.mk.injEq, Except.ok.injEq] at ho
  rw [← ho.1]
  exact ⟨rfl, rfl⟩

theorem attemptsLeft_restart (hu : Usable cfg.options) (hsm : smooth)
    (h : Reachable sha cfg zone smooth w) {s : Store} {io : CompactIo} {disk : Bytes}
    (ho : openStore cfg.options io w.store.disk = (.ok s, disk))
    (hl : AttemptsLeft cfg w.store) : AttemptsLeft cfg s := by
  intro k r' hr' hp
  have hm := (restart_mirrors hu hsm h ho).2 k
  rw [hr', Option.map_some] at hm
  obtain ⟨r, hr, hstrip⟩ := Option.map_eq_some_iff.mp hm.symm
  have hpart := strip_alarmPart hstrip
  simp only [alarmPart, Prod.mk.injEq] at hpart
  have := hl k r hr (hpart.2.1.trans hp)
  omega

theorem reachable_attemptsLeft (hu : Usable cfg.options) (hpos : 0 < cfg.maxAttempts)
    (h : Reachable sha cfg zone smooth w) : AttemptsLeft cfg w.store := by
  induction h with
  | opened ho =>
    intro k r hr
    rw [World.start, (opened_records hu ho).1] at hr
    cases hr
  | stepped hw hi _ ih => exact attemptsLeft_step hpos (reachable_inv hu hw).1 ih _
  | restarted hs hw ho ih => exact attemptsLeft_restart hu hs hw ho ih

theorem messages_append (k : Bytes) (a b : List Output) :
    messages k (a ++ b) = messages k a + messages k b := List.countP_append

theorem alarm_recorded {t : Turn} {c : Call} (hc : w.alarm.call cfg t = some c)
    (answer : Option Bytes) : ∃ now rest,
      (stepAlarm cfg zone t answer w).1.alarm = .pass now rest ∧
        (stepAlarm cfg zone t answer w).2 = [] := by
  cases hpc : w.alarm with
  | idle => rw [hpc] at hc; cases hc
  | pass now rest =>
    rw [hpc] at hc
    cases rest with
    | nil => cases hc
    | cons r rest =>
      dsimp only [AlarmLoop.call] at hc
      simp only [stepAlarm, hpc]
      split at hc
      · cases hc
      next hdue =>
        rw [if_neg hdue]
        split at hc
        next hbad =>
          rw [if_pos hbad]
          exact ⟨now, rest, rfl, rfl⟩
        · cases hc
  | sent now r a rest =>
    cases a <;> simp only [stepAlarm, hpc] <;> exact ⟨now, rest, rfl, trivial⟩

theorem alarm_unrecorded {t : Turn} (hc : w.alarm.call cfg t = none) (answer : Option Bytes) :
    w.alarm.flying k = false ∧
      ((stepAlarm cfg zone t answer w).2 = [] ∧
          (stepAlarm cfg zone t answer w).1.alarm.flying k = false ∨
        ∃ now r rest, w.alarm = .pass now (r :: rest) ∧
          (stepAlarm cfg zone t answer w).1.alarm = .sent now r answer rest ∧
          (stepAlarm cfg zone t answer w).2 =
            [.message r (alarmBody cfg.toAlarmConfig zone r) answer]) := by
  cases hpc : w.alarm with
  | idle =>
    simp only [stepAlarm, hpc]
    exact ⟨rfl, .inl ⟨trivial, rfl⟩⟩
  | pass now rest =>
    rw [hpc] at hc
    refine ⟨rfl, ?_⟩
    cases rest with
    | nil =>
      simp only [stepAlarm, hpc]
      exact .inl ⟨trivial, rfl⟩
    | cons r rest =>
      dsimp only [AlarmLoop.call] at hc
      simp only [stepAlarm, hpc]
      split at hc
      next hdue =>
        rw [if_pos hdue]
        exact .inl ⟨rfl, rfl⟩
      next hdue =>
        rw [if_neg hdue]
        split at hc
        · cases hc
        next hbad =>
          rw [if_neg hbad]
          exact .inr ⟨now, r, rest, rfl, rfl, rfl⟩
  | sent now r a rest =>
    rw [hpc] at hc
    cases a <;> cases hc

/-- **A step of the alarm loop spends what it shows**, unless its outcome is lost. -/
theorem budget_alarm (h : Inv sha cfg w) (hl : AttemptsLeft cfg w.store) (t : Turn)
    (answer : Option Bytes) (hr : lookup k w.store.records = some r)
    (hr' : lookup k (step sha cfg zone w (.alarm t answer)).1.store.records = some r') :
    (messages k (step sha cfg zone w (.alarm t answer)).2 : ℤ) +
        budget cfg k (step sha cfg zone w (.alarm t answer)).1.alarm r' ≤
      budget cfg k w.alarm r + (Input.alarm t answer).unrecorded cfg w := by
  have hnonneg := @budget_nonneg cfg k r w.alarm (hl k r hr)
  cases hc : w.alarm.call cfg t with
  | some c =>
    -- the step records an outcome: it shows nothing, and nothing is on its way after it
    obtain ⟨now, rest, hpc, hout⟩ := @alarm_recorded cfg zone w t c hc answer
    have hnone : messages k (step sha cfg zone w (.alarm t answer)).2 = 0 :=
      congrArg (messages k) hout
    have hnext : (step sha cfg zone w (.alarm t answer)).1.alarm.flying k = false :=
      congrArg (AlarmLoop.flying k) hpc
    rw [hnone]
    rcases alarm_outcome h hc hr hr' with ⟨rfl, hlost⟩ | hne | ⟨hfly, hp, hatt, -⟩
    · have hcount : w.alarm.flying k = true → (Input.alarm t answer).unrecorded cfg w = 1 := by
        intro hf
        simp only [Input.unrecorded, hc, if_neg (hlost hf)]
      unfold budget at hnonneg ⊢
      split
      next hp =>
        rw [hnext]
        cases hf : w.alarm.flying k with
        | true =>
          rw [hcount hf]
          simp only [Bool.toNat_true, Bool.toNat_false]
          omega
        | false => omega
      · omega
    · have hzero : ∀ pc, budget cfg k pc r' = 0 := fun pc => if_neg hne
      rw [hzero]
      omega
    · unfold budget
      rw [hnext, hfly, if_pos hp, hatt]
      split
      · simp only [Bool.toNat_true, Bool.toNat_false]
        omega
      · have := hl k r hr hp
        simp only [Bool.toNat_true]
        omega
  | none =>
    have hsame : (step sha cfg zone w (.alarm t answer)).1.store = w.store := by
      rw [step_store]
      show callStore _ ((w.alarm.call cfg t).map _) = _
      rw [hc]
      rfl
    rw [hsame, hr, Option.some.injEq] at hr'
    subst hr'
    obtain ⟨hfly, hcase⟩ := @alarm_unrecorded cfg zone w k t hc answer
    rcases hcase with ⟨hout, hnext⟩ | ⟨now, x, rest, hpc, hnext, hout⟩
    · have hnone : messages k (step sha cfg zone w (.alarm t answer)).2 = 0 :=
        congrArg (messages k) hout
      have hnext' : (step sha cfg zone w (.alarm t answer)).1.alarm.flying k = false := hnext
      rw [hnone]
      unfold budget
      rw [hnext', hfly]
      omega
    · have hcount : messages k (step sha cfg zone w (.alarm t answer)).2 = (x.key == k).toNat := by
        refine (congrArg (messages k) hout).trans ?_
        cases hk : x.key == k <;> simp [messages, Output.messageOf, hk]
      have hnext' : (step sha cfg zone w (.alarm t answer)).1.alarm.flying k = (x.key == k) :=
        congrArg (AlarmLoop.flying k) hnext
      have hp : (x.key == k) = true → r.alarmState = .pending := by
        intro hk
        obtain ⟨hp, y, hy, hpart⟩ := h.alarm.held x (by rw [hpc]; exact List.mem_cons_self)
        rw [eq_of_beq hk, hr, Option.some.injEq] at hy
        subst hy
        exact pending_alarmState hpart hp
      rw [hcount]
      unfold budget
      rw [hnext', hfly]
      cases hk : x.key == k with
      | true =>
        rw [if_pos (hp hk), if_pos (hp hk)]
        simp only [Bool.toNat_true, Bool.toNat_false]
        omega
      | false =>
        simp only [Bool.toNat_false]
        omega

theorem budget_step (h : Inv sha cfg w) (hl : AttemptsLeft cfg w.store) (i : Input)
    (hr : lookup k w.store.records = some r)
    (hr' : lookup k (step sha cfg zone w i).1.store.records = some r') :
    (messages k (step sha cfg zone w i).2 : ℤ) + budget cfg k (step sha cfg zone w i).1.alarm r' ≤
      budget cfg k w.alarm r + i.unrecorded cfg w := by
  by_cases hi : ∃ t answer, i = .alarm t answer
  · obtain ⟨t, answer, rfl⟩ := hi
    exact budget_alarm h hl t answer hr hr'
  · obtain ⟨hpart, hfly, hnone⟩ := step_otherwise h (fun t answer he => hi ⟨t, answer, he⟩) hr hr'
    have hsame := @budget_congr cfg k r r' (step sha cfg zone w i).1.alarm hpart
    have hpc : budget cfg k (step sha cfg zone w i).1.alarm r = budget cfg k w.alarm r := by
      unfold budget
      rw [hfly]
    rw [hnone, hsame, hpc]
    omega

/-- A message is about a record whose alarm is pending, as it is in the outbox. -/
theorem message_pending (h : Inv sha cfg w) {i : Input} {x : Record} {body : Bytes}
    {answer : Option Bytes} (ho : .message x body answer ∈ (step sha cfg zone w i).2)
    (hr : lookup x.key w.store.records = some r) :
    r.alarmState = .pending ∧ body = alarmBody cfg.toAlarmConfig zone r := by
  obtain ⟨t, now, rest, -, hpc, hbody⟩ := step_message ho
  obtain ⟨hp, y, hy, hpart⟩ := h.alarm.held x (by rw [hpc]; exact List.mem_cons_self)
  rw [hr, Option.some.injEq] at hy
  subst hy
  refine ⟨pending_alarmState hpart hp, hbody.trans ?_⟩
  simp only [alarmPart, Prod.mk.injEq] at hpart
  simp only [alarmBody, alarmInput, hpart.1, hpart.2.2.1]

/-- What is settled about an alarm stays. -/
theorem settled_step (h : Inv sha cfg w) (i : Input) (hne : r.alarmState ≠ .pending)
    (hr : lookup k w.store.records = some r)
    (hr' : lookup k (step sha cfg zone w i).1.store.records = some r') :
    alarmPart r' = alarmPart r := by
  by_cases hi : ∃ t answer, i = .alarm t answer
  · obtain ⟨t, answer, rfl⟩ := hi
    rcases step_held h _ hr hr' with rfl | ⟨t', c, update, hc, hch, -, -⟩
    · rfl
    · obtain ⟨c', hc', he⟩ := Option.map_eq_some_iff.mp hc
      cases he
      obtain ⟨r₀, rest, update₀, hrecords, hch₀, -⟩ := alarm_marks hc'
      rw [hch] at hch₀
      cases hch₀
      obtain ⟨hp, y, hy, hpart⟩ := h.alarm.held r₀ (by rw [hrecords]; exact List.mem_cons_self)
      rw [hr, Option.some.injEq] at hy
      subst hy
      exact absurd (pending_alarmState hpart hp) hne
  · exact (step_otherwise h (fun t answer he => hi ⟨t, answer, he⟩) hr hr').1

theorem filled_maxAttempts (dir : Bytes) (cfg : Config) : 0 < (cfg.filled dir).maxAttempts := by
  simp only [Config.filled]
  split <;> omega

/-- What a run shows of the alarm of a record it keeps. -/
structure AlarmRun (cfg : Config) (zone : Zone) (k : Bytes) (w : World) (r : Record)
    (outs : List Output) (n : ℕ) (w' : World) (r' : Record) : Prop where
  event : r'.event = r.event ∧ r'.alarmSN = r.alarmSN
  settled : r.alarmState ≠ .pending → alarmPart r' = alarmPart r ∧ messages k outs = 0
  bodies : ∀ x body answer, .message x body answer ∈ outs → x.key = k →
    body = alarmBody cfg.toAlarmConfig zone r
  bound : (messages k outs : ℤ) + budget cfg k w'.alarm r' ≤ budget cfg k w.alarm r + n

theorem alarmRun (hu : Usable cfg.options) (hpos : 0 < cfg.maxAttempts)
    (h : Reachable sha cfg zone smooth w) (hr : lookup k w.store.records = some r)
    (hrun : Run sha cfg zone smooth (Holds k) w outs n w') :
    ∃ r', lookup k w'.store.records = some r' ∧ AlarmRun cfg zone k w r outs n w' r' := by
  induction hrun with
  | refl => exact ⟨r, hr, ⟨⟨rfl, rfl⟩, fun _ => ⟨rfl, rfl⟩, by simp, by simp [messages]⟩⟩
  | @step u outs n i hrun hi hs hstays ih =>
    obtain ⟨x, hx, hrunx⟩ := ih
    have hreach := hrun.reachable h
    have hinv := (reachable_inv hu hreach).1
    have hleft := reachable_attemptsLeft hu hpos hreach
    obtain ⟨x', hx'⟩ := hstays
    refine ⟨x', hx', ?_, ?_, ?_, ?_⟩
    · obtain ⟨hev, hsn⟩ := hrunx.event
      rcases step_held hinv i hx hx' with rfl | ⟨t, c, update, -, hch, -, rfl⟩
      · exact ⟨hev, hsn⟩
      · obtain ⟨hev', hsn', -⟩ := changes_keeps hch x
        exact ⟨hev'.trans hev, hsn'.trans hsn⟩
    · intro hne
      obtain ⟨hpart, hnone⟩ := hrunx.settled hne
      have hnex : x.alarmState ≠ .pending := fun hp => hne (pending_alarmState hpart.symm hp)
      refine ⟨(settled_step hinv i hnex hx hx').trans hpart, ?_⟩
      rw [messages_append, hnone, Nat.zero_add]
      refine List.countP_eq_zero.mpr fun o ho hm => ?_
      cases o with
      | message y body answer =>
        have hy : y.key = k := eq_of_beq hm
        exact hnex (message_pending hinv ho (hy ▸ hx)).1
      | upload | gaveUp | returned => cases hm
    · intro y body answer ho hy
      rcases List.mem_append.mp ho with ho | ho
      · exact hrunx.bodies y body answer ho hy
      · rw [(message_pending hinv ho (hy ▸ hx)).2]
        simp only [alarmBody, alarmInput, hrunx.event.1, hrunx.event.2]
    · have hstep := budget_step hinv hleft i hx hx'
      have hbound := hrunx.bound
      rw [messages_append]
      push_cast
      omega
  | @restart u outs n s io disk staged source hs hrun ho hstays ih =>
    obtain ⟨x, hx, hrunx⟩ := ih
    obtain ⟨x', hx'⟩ := hstays
    have hstrip := restart_held hu hs (hrun.reachable h) ho hx hx'
    have hpart := strip_alarmPart hstrip
    refine ⟨x', hx', ?_, ?_, hrunx.bodies, ?_⟩
    · have hev : x'.event = x.event := congrArg (fun p => p.1) hpart
      have hsn : x'.alarmSN = x.alarmSN := congrArg (fun p => p.2.2.1) hpart
      exact ⟨hev.trans hrunx.event.1, hsn.trans hrunx.event.2⟩
    · intro hne
      obtain ⟨hpart', hnone⟩ := hrunx.settled hne
      exact ⟨hpart.trans hpart', hnone⟩
    · have hbound := hrunx.bound
      have hsame := @budget_congr cfg k x x' AlarmLoop.idle hpart
      have hlost : budget cfg k AlarmLoop.idle x ≤ budget cfg k u.alarm x + 1 := by
        unfold budget
        split
        · cases u.alarm.flying k <;> simp [AlarmLoop.flying]
        · omega
      show (_ : ℤ) + budget cfg k AlarmLoop.idle x' ≤ _
      rw [hsame]
      push_cast
      omega

/-- **The messages about a record that stays in the outbox**: each is the same body, none follows
once the alarm is settled, and there are at most as many as it has attempts left, and one more for
each outcome that was not recorded and each restart. -/
theorem alarm_sink {dir : Bytes} (hu : Usable (cfg.filled dir).options)
    (h : Reachable sha (cfg.filled dir) zone smooth w) (hr : lookup k w.store.records = some r)
    (hrun : Run sha (cfg.filled dir) zone smooth (Holds k) w outs n w') :
    (∀ x body answer, .message x body answer ∈ outs → x.key = k →
      body = alarmBody (cfg.filled dir).toAlarmConfig zone r) ∧
    (r.alarmState = .pending →
      messages k outs + r.alarmAttempts ≤ (cfg.filled dir).maxAttempts + n) ∧
    (r.alarmState ≠ .pending → messages k outs = 0 ∧
      ∃ r', lookup k w'.store.records = some r' ∧ r'.alarmState = r.alarmState) := by
  have hpos := filled_maxAttempts dir cfg
  obtain ⟨r', hr', hrun'⟩ := alarmRun hu hpos h hr hrun
  refine ⟨hrun'.bodies, fun hp => ?_, fun hne => ?_⟩
  · have hbound := hrun'.bound
    have hleft := reachable_attemptsLeft hu hpos (hrun.reachable h)
    have hnonneg := @budget_nonneg (cfg.filled dir) k r' w'.alarm (hleft k r' hr')
    have hstart : budget (cfg.filled dir) k w.alarm r ≤
        (cfg.filled dir).maxAttempts - r.alarmAttempts := by
      unfold budget
      rw [if_pos hp]
      omega
    omega
  · obtain ⟨hpart, hnone⟩ := hrun'.settled hne
    exact ⟨hnone, r', hr', congrArg (fun p => p.2.1) hpart⟩

/-! ### A message that fails -/

def demoConfig : Config where
  alarmPriority := 0
  alarmMethod := 0
  alarmTypes _ := none
  evidenceDir := []
  evidenceOutboxDir := []
  evidenceMaxBytes := 0
  deviceID := demoOptions.deviceID
  maxRecords := 0
  maxBytes := 0
  sendUpdates := false
  sendEnds := true
  maxAttempts := 0
  retryBase := 0
  retryMax := 0
  evidenceEnabled := false

def demoFilled : Config := demoConfig.filled []

def demoTurn : Turn := ⟨.good, .done, 0, ascii "busy", fun _ => none, 2 ^ 31 - 1⟩

/-- Without jitter no delay is beyond the maximum. -/
theorem undrawn_le {maxInt base maximum attempt d : ℤ}
    (h : boundedBackoff (fun _ => none) maxInt base maximum attempt = some d) :
    d ≤ defaultMaximum base maximum := by
  obtain ⟨delay, hdelay, hrest⟩ := Option.bind_eq_some_iff.mp h
  obtain ⟨raw, -, hcap⟩ := Option.map_eq_some_iff.mp hdelay
  have hle : delay ≤ defaultMaximum base maximum := by
    rw [← hcap]
    split <;> omega
  dsimp only at hrest
  split at hrest
  · cases hrest
    exact hle
  · obtain ⟨bound, -, hd⟩ := Option.bind_eq_some_iff.mp hrest
    cases hd
    exact hle

theorem demoTurn_typed {cfg : Config} (h : defaultMaximum cfg.retryBase cfg.retryMax < 2 ^ 63)
    (attempt : ℤ) : InTime (retryAt cfg demoTurn attempt) := by
  intro t ht
  obtain ⟨d, hd, rfl⟩ := Option.map_eq_some_iff.mp ht
  have hle := undrawn_le hd
  show (0 + d).toNat < 2 ^ 63
  omega

theorem zeros_lowerHex : ∀ b ∈ List.replicate 64 (0x30 : UInt8), lowerHex b = true := by
  intro b hb
  rw [List.eq_of_mem_replicate hb]
  decide

def zeroSha : Sha256 where
  hex _ := List.replicate 64 0x30
  length_hex _ := List.length_replicate
  lowerHex_hex _ := zeros_lowerHex

/-- A step in UTC, with `zeroSha`; irreducible, as its evaluation is left to the kernel. -/
@[irreducible] def demoStep (cfg : Config) (w : World) (i : Input) : World × List Output :=
  step zeroSha cfg (fun _ => 0) w i

theorem demo_opened (cfg : Config) (h : cfg.options = demoOptions) (staged : Directory.Files) :
    Reachable zeroSha cfg (fun _ => 0) smooth (World.start (newStore demoOptions) staged []) := by
  refine @Reachable.opened zeroSha cfg (fun _ => 0) smooth _ [] staged [] ?_
  rw [h, openStore, if_neg demoOptions_usable.accepted]
  exact if_neg (Nat.not_lt_zero _)

/-- The call that an input makes returns nil or drops an UPDATE. -/
def Input.isFine (cfg : Config) (w : World) (i : Input) : Bool :=
  (i.call cfg w).all fun p => decide (Fine (p.2.run p.1.env w.store).1)

/-- An input of a typed turn without faults. -/
structure Input.Calm (cfg : Config) (i : Input) : Prop where
  typed : i.Typed cfg
  faultless : ∀ w t c, i.call cfg w = some (t, c) → Faultless t.env

theorem Input.Calm.smooth_of {cfg : Config} {i : Input} {w : World} (h : i.Calm cfg)
    (hf : i.isFine cfg w = true) : i.Smooth cfg w := by
  intro t c hc
  rw [Input.isFine, hc, Option.all_some, decide_eq_true_eq] at hf
  exact ⟨h.faultless w t c hc, hf⟩

/-- Every call of the inputs is fine, every outcome recorded, and every world passes the test. -/
def demoPasses (cfg : Config) (test : World → Bool) : List Input → World → Bool
  | [], w => test w
  | i :: is, w => test w && i.isFine cfg w && i.unrecorded cfg w == 0 &&
      demoPasses cfg test is (demoStep cfg w i).1

def demoAfter (cfg : Config) : List Input → World → World
  | [], w => w
  | i :: is, w => demoAfter cfg is (demoStep cfg w i).1

theorem demoAfter_concat (cfg : Config) (is : List Input) (i : Input) (w : World) :
    demoAfter cfg (is ++ [i]) w = (demoStep cfg (demoAfter cfg is w) i).1 := by
  induction is generalizing w with
  | nil => rfl
  | cons j is ih => exact ih _

def demoOutputs (cfg : Config) : List Input → World → List Output
  | [], _ => []
  | i :: is, w => (demoStep cfg w i).2 ++ demoOutputs cfg is (demoStep cfg w i).1

theorem demoPasses_first {cfg : Config} {test : World → Bool} {is : List Input} {w : World}
    (h : demoPasses cfg test is w = true) : test w = true := by
  cases is with
  | nil => exact h
  | cons i is =>
    simp only [demoPasses, Bool.and_eq_true] at h
    exact h.1.1.1

/-- Inputs that pass continue a run, and a smooth one. -/
theorem demoPasses_extend {cfg : Config} {test : World → Bool} {is : List Input} {u : World}
    (htest : ∀ u, test u = true → stays u) (hi : ∀ i ∈ is, i.Calm cfg)
    (hp : demoPasses cfg test is u = true)
    (h : Run zeroSha cfg (fun _ => 0) smooth stays w outs n u) :
    Run zeroSha cfg (fun _ => 0) smooth stays w (outs ++ demoOutputs cfg is u) n
      (demoAfter cfg is u) := by
  induction is generalizing u outs with
  | nil => rwa [demoOutputs, List.append_nil]
  | cons i is ih =>
    obtain ⟨hi0, his⟩ := List.forall_mem_cons.mp hi
    simp only [demoPasses, Bool.and_eq_true, beq_iff_eq] at hp
    obtain ⟨⟨⟨-, hfine⟩, hrecorded⟩, hrest⟩ := hp
    have hstays := htest _ (demoPasses_first hrest)
    have hnext : Run zeroSha cfg (fun _ => 0) smooth stays w (outs ++ (demoStep cfg u i).2) n
        (demoStep cfg u i).1 := by
      unfold demoStep at hstays ⊢
      have hrun := h.step hi0.typed (fun _ => hi0.smooth_of hfine) hstays
      rwa [hrecorded] at hrun
    have hrun := ih his hrest hnext
    rwa [List.append_assoc] at hrun

theorem demoPasses_run {cfg : Config} {test : World → Bool} {is : List Input} {u : World}
    (htest : ∀ u, test u = true → stays u) (hi : ∀ i ∈ is, i.Calm cfg)
    (hp : demoPasses cfg test is u = true) :
    Run zeroSha cfg (fun _ => 0) smooth stays u (demoOutputs cfg is u) 0 (demoAfter cfg is u) := by
  have hrun := @demoPasses_extend smooth stays u [] 0 cfg test is u htest hi hp
    (.refl (htest u (demoPasses_first hp)))
  rwa [List.nil_append] at hrun

theorem calm_notify {cfg : Config} {m : EventNotification} (hp : Portable m.event)
    (hc : m.cursor < 2 ^ 64) : (Input.notify m).Calm cfg :=
  ⟨⟨hp, hc⟩, fun _ _ _ h => by cases h⟩

/-- A loop takes its turn at time zero, without faults. -/
theorem calm_turn {cfg : Config} (h : defaultMaximum cfg.retryBase cfg.retryMax < 2 ^ 63)
    {i : Input} (hi : i = .ingest demoTurn ∨ ∃ answer, i = .alarm demoTurn answer ∨
      i = .evidence demoTurn answer) : i.Calm cfg := by
  have htyped := @demoTurn_typed cfg h
  rcases hi with rfl | ⟨answer, rfl | rfl⟩
  all_goals
    refine ⟨htyped, fun w t c hc => ?_⟩
    obtain ⟨c', -, he⟩ := Option.map_eq_some_iff.mp hc
    cases he
    exact faultless_good

def demoOpened : World := World.start (newStore demoOptions) [] []

/-- The service after the record of an event came into the outbox. -/
def demoIngested : World :=
  demoAfter demoFilled [.notify ⟨7, demoEvent⟩, .ingest demoTurn] demoOpened

/-- The alarm loop begins a pass, sends the message, and records the answer. -/
def demoFailing : List Input :=
  [.alarm demoTurn none, .alarm demoTurn (some (ascii "busy")), .alarm demoTurn none]

def demoMarked : World := demoAfter demoFilled demoFailing demoIngested

def demoHeld : Record := (lookup demoKey demoIngested.store.records).getD Record.zero

def demoShown : List Output := demoOutputs demoFilled demoFailing demoIngested

/-- The record is there and its alarm is pending. -/
def demoPending (w : World) : Bool :=
  (lookup demoKey w.store.records).any fun r => r.alarmState == .pending

/-- The evaluations of the run, made in one go. -/
theorem demo_sink_facts :
    demoPasses demoFilled (fun _ => true) [.notify ⟨7, demoEvent⟩, .ingest demoTurn]
      demoOpened = true ∧
    demoPasses demoFilled demoPending demoFailing demoIngested = true ∧
    demoHeld.alarmAttempts = 0 ∧ messages demoKey demoShown = 1 ∧
    defaultMaximum demoFilled.retryBase demoFilled.retryMax < 2 ^ 63 := by
  decide +kernel

theorem demoPending_iff {w : World} : demoPending w = true ↔
    ∃ r, lookup demoKey w.store.records = some r ∧ r.alarmState = .pending := by
  rw [demoPending, Option.any_eq_true_iff_get]
  constructor
  · rintro ⟨hs, hp⟩
    exact ⟨_, (Option.some_get hs).symm, eq_of_beq hp⟩
  · rintro ⟨r, hr, hp⟩
    refine ⟨by rw [hr]; rfl, ?_⟩
    simp only [hr, Option.get_some, hp, beq_self_eq_true]

theorem demoIngested_reachable : Reachable zeroSha demoFilled (fun _ => 0) smooth demoIngested := by
  obtain ⟨hpass, -, -, -, hmax⟩ := demo_sink_facts
  refine (@demoPasses_run smooth (fun _ => True) demoFilled _ _ _ (fun _ _ => trivial)
    (fun i hi => ?_) hpass).reachable (demo_opened demoFilled rfl [])
  rcases List.mem_cons.mp hi with rfl | hi
  · exact calm_notify demoEvent_portable (show 7 < 2 ^ 64 by decide)
  · rw [List.mem_singleton.mp hi]
    exact calm_turn hmax (.inl rfl)

/-- The run of one failed message, under whatever holds of the pending record. -/
theorem demo_run (h : ∀ u, demoPending u = true → stays u) :
    Run zeroSha demoFilled (fun _ => 0) smooth stays demoIngested demoShown 0 demoMarked := by
  obtain ⟨-, hpass, -, -, hmax⟩ := demo_sink_facts
  refine demoPasses_run h (fun i hi => calm_turn hmax (.inr ?_)) hpass
  simp only [demoFailing, List.mem_cons, List.not_mem_nil, or_false] at hi
  rcases hi with rfl | rfl | rfl <;> exact ⟨_, .inl rfl⟩

theorem demoHeld_lookup :
    lookup demoKey demoIngested.store.records = some demoHeld ∧ demoHeld.alarmState = .pending := by
  obtain ⟨r, hr, hp⟩ := demoPending_iff.mp (demoPasses_first demo_sink_facts.2.1)
  have hheld : demoHeld = r := by
    rw [demoHeld, hr]
    rfl
  rw [hheld]
  exact ⟨hr, hp⟩

theorem alarm_sink_demo : messages demoKey demoShown = 1 ∧
    (∀ x body answer, .message x body answer ∈ demoShown → x.key = demoKey →
      body = alarmBody demoFilled.toAlarmConfig (fun _ => 0) demoHeld) ∧
    messages demoKey demoShown + demoHeld.alarmAttempts ≤ demoFilled.maxAttempts + 0 := by
  obtain ⟨-, -, -, hone, -⟩ := demo_sink_facts
  obtain ⟨hlook, hpending⟩ := demoHeld_lookup
  have hrun := @demo_run True (Holds demoKey) fun u hp =>
    (demoPending_iff.mp hp).imp fun r hr => hr.1
  obtain ⟨hbodies, hbound, -⟩ := @alarm_sink zeroSha demoConfig (fun _ => 0) True demoIngested
    demoMarked demoShown 0 demoKey demoHeld [] demoOptions_usable demoIngested_reachable hlook hrun
  exact ⟨hone, hbodies, hbound hpending⟩

end FlowAlarm.Delivery
