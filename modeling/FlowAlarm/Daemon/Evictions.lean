import FlowAlarm.Daemon.DurableAcks

/-!
# What the outbox removes

A full outbox makes room for a START or END by evicting, one after another, the
terminal record with the smallest cursor and key (`enqueue_evicts`), whatever
fails on the way. `pending_kept` adds that a record with a pending sink never
goes, in all lives whose calls find the file whole.
-/

namespace FlowAlarm.Outbox

open FlowAlarm.Text FlowAlarm.Media Relation

/-! ## The oldest terminal record -/

/-- All sinks of the record are done, and no other such record comes before it. -/
structure Oldest (rs : List Record) (c : Record) : Prop where
  mem : c ∈ rs
  done : terminal c = true
  least : ∀ r ∈ rs, terminal r = true → c.cursor < r.cursor ∨ c.cursor = r.cursor ∧ c.key ≤ r.key

theorem less_irrefl (r : Record) : less r r = false := by
  rw [less, if_pos rfl]
  exact decide_eq_false (List.lt_irrefl r.key)

theorem less_iff {a b : Record} :
    less a b = true ↔ a.cursor < b.cursor ∨ a.cursor = b.cursor ∧ a.key < b.key := by
  unfold less
  split
  next h => simp [h]
  next h => simp [h]

theorem less_trans (a b c : Record) (hab : less a b = true) (hbc : less b c = true) :
    less a c = true := by
  rw [less_iff] at hab hbc ⊢
  rcases hab with hab | ⟨hab, hkey⟩
  · exact .inl (by omega)
  rcases hbc with hbc | ⟨hbc, hkey'⟩
  · exact .inl (by omega)
  · exact .inr ⟨hab.trans hbc, List.lt_trans hkey hkey'⟩

theorem oldestTerminal_oldest {rs : List Record} {c : Record} (h : oldestTerminal rs = some c) :
    Oldest rs c := by
  obtain ⟨hmem, hdone⟩ := Keyed.selectBest_mem h
  refine ⟨hmem, hdone, fun r hr ht => ?_⟩
  have hleast := Keyed.selectBest_least less_irrefl less_trans h r hr ht
  have hnot : ¬ (r.cursor < c.cursor ∨ r.cursor = c.cursor ∧ r.key < c.key) := by
    rw [← less_iff, hleast]
    decide
  obtain ⟨hcursor, hkey⟩ := not_or.mp hnot
  rcases Nat.lt_or_eq_of_le (not_lt.mp hcursor) with hlt | heq
  · exact .inl hlt
  · exact .inr ⟨heq, List.not_lt.mp fun hk => hkey ⟨heq.symm, hk⟩⟩

/-! ## Making room for a START or END -/

/-- The oldest terminal record goes. -/
inductive Evicts : List Record → List Record → Prop where
  | oldest {rs : List Record} {c : Record} : Oldest rs c →
      Evicts rs (Keyed.erase Record.key c.key rs)

abbrev Evictions : List Record → List Record → Prop := ReflTransGen Evicts

theorem evicts_oldestTerminal {rs : List Record} {c : Record} (h : oldestTerminal rs = some c) :
    Evicts rs (Keyed.erase Record.key c.key rs) := .oldest (oldestTerminal_oldest h)

theorem Evictions.subset {rs rs' : List Record} (h : Evictions rs rs') : rs' ⊆ rs := by
  induction h with
  | refl => exact List.Subset.refl _
  | tail _ h ih =>
    cases h with
    | oldest => exact fun r hr => ih (Keyed.mem_erase.mp hr).1

theorem makeRoom_evictions {env : Env} {event : AnalyticsEvent} (s : Store)
    (hphase : event.phase ≠ eventPhaseUpdate) :
    Evictions s.records (makeRoom env event s).2.records := by
  rw [makeRoom, if_neg hphase]
  split
  · unfold makeRoomForBoundaryLocked
    split
    · exact .refl
    next rs hrs =>
      cases hc : compactTo (env.io 0).compact rs s with
      | mk res s' =>
        cases res with
        | none =>
          obtain ⟨-, -, rfl⟩ := compactTo_none hc
          exact evictTerminals_steps evicts_oldestTerminal hrs
        | some e =>
          obtain ⟨-, rfl | ⟨-, -, -, rfl⟩⟩ := compactTo_some hc
          · exact .refl
          · exact .refl
  · exact .refl

theorem appendLocked_records (io : Io) (e : JournalEntry) (s : Store) :
    (appendLocked io e s).2.records = s.records :=
  congrArg Memory.records (appendLocked_memory io e s)

theorem appendUnderPressure_evictions {env : Env} {e : JournalEntry} {fuel n : Nat} {lastErr : Err}
    {s : Store} :
    Evictions s.records (appendUnderPressure env e fuel n lastErr s).2.records := by
  induction fuel generalizing n lastErr s with
  | zero => exact .refl
  | succ fuel ih =>
    unfold appendUnderPressure
    cases hc : oldestTerminal s.records with
    | none => exact .refl
    | some c =>
      have hevict := evicts_oldestTerminal hc
      dsimp only
      cases hcomp : compactLocked (env.io n).compact
          { s with records := Keyed.erase Record.key c.key s.records } with
      | mk res s' =>
        cases res with
        | some err =>
          obtain ⟨-, rfl | ⟨-, -, -, rfl⟩⟩ := compactLocked_some hcomp
          · exact .single hevict
          · exact .single hevict
        | none =>
          obtain ⟨-, -, rfl⟩ := compactLocked_none hcomp
          dsimp only
          generalize hs' : compactedTo _ _ = s'
          have hrecords : s'.records = Keyed.erase Record.key c.key s.records := by rw [← hs']; rfl
          have hsame := appendLocked_records (env.io (n + 1)) e s'
          cases hal : appendLocked (env.io (n + 1)) e s' with
          | mk res' s'' =>
            rw [hal] at hsame
            have hafter : s''.records = Keyed.erase Record.key c.key s.records :=
              hsame.trans hrecords
            cases res' with
            | none => exact hafter ▸ .single hevict
            | some err =>
              dsimp only
              split
              · exact .head hevict (hafter ▸ ih)
              · exact hafter ▸ .single hevict

theorem appendRecord_evictions (env : Env) (r : Record) (s : Store) :
    Evictions s.records (appendRecord env r s).2.records := by
  unfold appendRecord
  have hsame := appendLocked_records (env.io 1) (eventEntry r s.deviceID s.nextAlarmSN) s
  cases hal : appendLocked (env.io 1) (eventEntry r s.deviceID s.nextAlarmSN) s with
  | mk res s' =>
    rw [hal] at hsame
    cases res with
    | none => exact hsame ▸ .refl
    | some err =>
      dsimp only at hsame ⊢
      split
      · exact hsame ▸ appendUnderPressure_evictions
      · exact hsame ▸ .refl

/-- The records after room was made for an event: some evicted, and then perhaps its own added. -/
def MadeRoom (rs : List Record) (key : Bytes) (rs' : List Record) : Prop :=
  ∃ kept, Evictions rs kept ∧ (rs' = kept ∨ ∃ r, r.key = key ∧ lookup key kept = none ∧
    rs' = Keyed.insert Record.key r kept)

/-- **An enqueue of a START or END removes the oldest terminal records only**, one after another,
whatever it returns and whatever the file system does. -/
theorem enqueue_evicts {env : Env} {event : AnalyticsEvent} {cursor : Nat} {alarm evidence : Bool}
    (s : Store) (hphase : event.phase ≠ eventPhaseUpdate) :
    MadeRoom s.records (keyOf s.deviceID event)
      (enqueueWithEvidence env event cursor alarm evidence s).2.records := by
  have unchanged : MadeRoom s.records (keyOf s.deviceID event) s.records :=
    ⟨s.records, .refl, .inl rfl⟩
  unfold enqueueWithEvidence
  split
  · exact unchanged
  split
  · exact unchanged
  split
  · exact unchanged
  next hnew =>
  have hroom := @makeRoom_evictions env event s hphase
  cases hmr : makeRoom env event s with
  | mk res s₁ =>
    rw [hmr] at hroom
    cases res with
    | some e => exact ⟨_, hroom, .inl rfl⟩
    | none =>
      dsimp only at hroom ⊢
      obtain ⟨-, hs₂⟩ := scheduleAlarm_store alarm s₁
      generalize scheduleAlarm alarm s₁ = sched at *
      obtain ⟨state, sn, s₂⟩ := sched
      dsimp only at hs₂ ⊢
      generalize hr : newRecord s.deviceID event cursor state sn evidence = r
      have happ := appendRecord_evictions env r s₂
      rw [hs₂] at happ
      cases har : appendRecord env r s₂ with
      | mk res s₃ =>
        rw [har] at happ
        have hall : Evictions s.records s₃.records := hroom.trans happ
        cases res with
        | none =>
          have hnone : lookup (keyOf s.deviceID event) s₃.records = none :=
            Keyed.lookup_eq_none.mpr fun x hx =>
              Keyed.lookup_eq_none.mp hnew x (Evictions.subset hall hx)
          exact ⟨_, hall, .inr ⟨r, by rw [← hr]; rfl, hnone, rfl⟩⟩
        | some e =>
          dsimp only
          split
          · exact ⟨_, hall, .inl rfl⟩
          · exact ⟨_, hall, .inl rfl⟩

end FlowAlarm.Outbox

namespace FlowAlarm.Delivery

open FlowAlarm.Text FlowAlarm.Media FlowAlarm.Evidence FlowAlarm.Outbox FlowAlarm.GbXml
open FlowAlarm.Wire (EventNotification)
open Relation

variable {sha : Sha256} {cfg : Config} {zone : Zone} {ok : Env → Option Err → Store → Prop}
  {w w' : World} {k : Bytes} {r : Record}

/-! ## Lives whose calls find the file whole -/

/-- A call that finds no unfinished line in the file. -/
def Whole (_ : Env) (_ : Option Err) (s : Store) : Prop := Terminated s.disk

/-- Only the evidence of a START is put in staging. -/
theorem call_stages (h : Inv sha cfg w) {i : Input} {t : Turn} {c : Call}
    (hc : i.call cfg w = some (t, c)) : c.Stages False w.store := by
  cases i with
  | engine | notify | cancelAlarm | cancelEvidence => cases hc
  | ingest t =>
    obtain ⟨c', hc', he⟩ := Option.map_eq_some_iff.mp hc
    cases he
    have hknown := h.ingest
    generalize w.ingest = pc at hc' hknown
    cases pc with
    | idle | staging => cases hc'
    | enqueue | ack | giveUp =>
      cases hc'
      trivial
    | requeue job staged r =>
      cases hc'
      exact SinkState.noConfusion
    | failed job r e =>
      cases hc'
      intro x hx hphase
      obtain ⟨hreq, hkey, -⟩ := hknown
      have hkeys : keyOf cfg.deviceID x.event = keyOf cfg.deviceID job.event := by
        rw [← hkey, ← Keyed.lookup_key hx, (h.sound.wf.lookup_good hx).key, h.under.deviceID]
        rfl
      have hsame := (keyOf_eq_iff.mp hkeys).2.2.2.1
      rw [hphase, stageRequired_start hreq] at hsame
      exact absurd hsame (by decide)
  | alarm t answer =>
    obtain ⟨c', hc', he⟩ := Option.map_eq_some_iff.mp hc
    cases he
    obtain ⟨⟨r, -, -, rfl | ⟨_, _, _, rfl⟩⟩, -, -⟩ := alarm_calls hc'
    · trivial
    · trivial
  | evidence t answer =>
    obtain ⟨c', hc', he⟩ := Option.map_eq_some_iff.mp hc
    cases he
    generalize w.evidence = pc at hc'
    cases pc with
    | idle | pass | loaded | removing => cases hc'
    | sent now r answer rest =>
      cases answer with
      | none =>
        cases hc'
        trivial
      | some cause =>
        cases hc'
        trivial

/-- **What the lives keep up**: the file backs the store, and neither holds an UPDATE whose evidence
is in staging. -/
theorem lived_whole (hu : Usable cfg.options) (h : Lived sha cfg zone Whole w) :
    Inv sha cfg w ∧ Outbox.Inv cfg.options False False False w.store := by
  induction h with
  | @opened s disk staged source ho =>
    have hinv : Outbox.Inv cfg.options False False False s := inv_opened hu ho
    exact ⟨inv_start hinv.sound hinv.under staged source, hinv⟩
  | @moved w w' _ hmove ih =>
    obtain ⟨hloops, hinv⟩ := ih
    cases hmove with
    | @step i hi hmeets =>
      refine ⟨inv_step hloops hi, ?_⟩
      rw [step_store]
      exact callStore_cases _ hinv fun t c hc =>
        hinv.called (issued_call hloops hi hc) (call_stages hloops hc) (fun hf => hf.elim)
          (fun hf => hf.elim) fun _ => hmeets t c hc
    | @restart s io disk staged source ho =>
      have hinv' := hinv.reopened hu ho
      exact ⟨inv_start hinv'.sound hinv'.under staged source, hinv'⟩

/-! ## Pending sinks -/

/-- A sink has yet to deal with the record. -/
def Unsettled (r : Record) : Prop :=
  r.alarmState = .pending ∨ r.evidenceState = .pending ∨ r.evidenceState = .staging

theorem waiting_of_unsettled {opts : Options} {s : Store}
    (h : Outbox.Inv opts False False False s) (hr : lookup k s.records = some r)
    (hp : Unsettled r) : Waiting r := by
  obtain ⟨m, left, -, hb⟩ := h.filed
  exact hp.imp_right fun he => he.imp_right fun hs => ⟨hs, fun hu => hb.stored hr hs hu⟩

/-- **No pending sink is lost**, in all lives whose calls find the file whole, and whatever fails in
them: a record with a pending alarm, or with evidence pending or in staging, is still there after
every step and every restart; and what goes to make room for a START or END is each time the oldest
terminal record. -/
theorem pending_kept (hu : Usable cfg.options) (h : Lived sha cfg zone Whole w) :
    (∀ w', Move sha cfg zone Whole w w' → ∀ k r, lookup k w.store.records = some r →
      Unsettled r → ∃ r', lookup k w'.store.records = some r' ∧ r'.alarmSN = r.alarmSN) ∧
    ∀ i t event cursor alarm evidence,
      i.call cfg w = some (t, .enqueue event cursor alarm evidence) →
      event.phase ≠ eventPhaseUpdate →
      MadeRoom w.store.records (keyOf cfg.deviceID event)
        (step sha cfg zone w i).1.store.records := by
  obtain ⟨hloops, hinv⟩ := lived_whole hu h
  constructor
  · intro w' hmove k r hr hp
    have hwait := waiting_of_unsettled hinv hr hp
    cases hmove with
    | @step i hi hmeets =>
      have hwanted : Wanted k w := fun x hx => by
        rw [hr] at hx
        cases hx
        exact hwait
      obtain ⟨r', hr'⟩ := @wanted_step sha cfg zone w k r hloops hwanted i hr
      refine ⟨r', hr', ?_⟩
      rcases step_held hloops i hr hr' with rfl | ⟨t, c, update, -, hch, -, rfl⟩
      · rfl
      · exact (changes_keeps hch r).2.1
    | @restart s io disk staged source ho =>
      obtain ⟨r', hr', hsn, -⟩ := hinv.reopened_held hu ho hr (.inr hwait)
      exact ⟨r', hr', hsn⟩
  · intro i t event cursor alarm evidence hc hphase
    rw [step_store, hc, ← show w.store.deviceID = cfg.deviceID from hinv.under.deviceID]
    exact enqueue_evicts w.store hphase

/-! ### Records that a restart loses -/

def lostWorld : World := (demoReopened demoFilled joinedWorld).getD joinedWorld

theorem lost_facts :
    demoPending joinedWorld = true ∧ (demoReopened demoFilled joinedWorld).isSome = true ∧
    (lookup demoKey lostWorld.store.records).isNone = true := by
  decide +kernel

/-- **A pending alarm can be lost**: the line of its record lacks its newline, the next line is
written behind it, and a restart reads neither. -/
theorem pending_lost :
    ¬ ∀ (w w' : World) (k : Bytes) (r : Record),
      Lived zeroSha demoFilled (fun _ => 0) (fun _ _ _ => True) w →
      Move zeroSha demoFilled (fun _ => 0) (fun _ _ _ => True) w w' →
      lookup k w.store.records = some r → r.alarmState = .pending →
      ∃ r', lookup k w'.store.records = some r' := by
  intro h
  obtain ⟨hpending, hopen, hgone⟩ := lost_facts
  obtain ⟨hfirst, -, hreopen, hsecond, -, -, -⟩ := joined_facts
  have hmeets : ∀ (u : World) (i : Input), withoutEnd u = true →
      i.Meets (fun _ _ _ => True) demoFilled u ∧ True :=
    fun _ _ _ => ⟨fun _ _ _ => trivial, trivial⟩
  have hrun := ((demoMeets_moves hmeets
    (fun i hi => joined_typed i (List.mem_append_left _ hi)) hfirst).tail
      ⟨demoReopened_move hreopen, trivial⟩).trans (demoMeets_moves hmeets
        (fun i hi => joined_typed i (List.mem_append_right _ hi)) hsecond)
  have hlived := lived_of_moves hrun
    (@lived_newStore zeroSha demoFilled (fun _ => 0) (fun _ _ _ => True) demoOptions_usable [] [])
  obtain ⟨r, hr, hstate⟩ := demoPending_iff.mp hpending
  obtain ⟨r', hr'⟩ := h joinedWorld lostWorld demoKey r hlived (demoReopened_move hopen) hr hstate
  rw [hr'] at hgone
  cases hgone

/-! ### An eviction beside a pending alarm -/

def twoConfig : Config := { demoFilled with maxRecords := 2 }

theorem twoConfig_usable : Usable twoConfig.options :=
  { demoOptions_usable with maxRecords := by decide }

def twoOpened : World := World.start (newStore twoConfig.options) [] []

/-- The START, its alarm pending, and an UPDATE that no sink is for fill the outbox; the END comes
next. -/
def twoInputs : List Input :=
  [.notify ⟨7, demoEvent⟩, .ingest demoTurn, .ingest demoTurn,
    .notify ⟨8, demoPhase eventPhaseUpdate 2⟩, .ingest demoTurn, .ingest demoTurn,
    .notify ⟨9, unendedEnd⟩]

def twoWorld : World := demoAfter twoConfig twoInputs twoOpened

def twoAfter : World := demoAfter twoConfig [.ingest demoTurn] twoWorld

def endNext (w : World) : Bool :=
  match w.ingest with
  | .enqueue job _ => job.event == unendedEnd
  | _ => false

theorem two_facts :
    demoMeets twoConfig (fun w => decide (Terminated w.store.disk)) twoInputs twoOpened = true ∧
    Terminated twoWorld.store.disk ∧ demoPending twoWorld = true ∧ endNext twoWorld = true ∧
    twoWorld.store.records.map (·.cursor) = [8, 7] ∧
    twoAfter.store.records.map (·.cursor) = [9, 7] ∧
    defaultMaximum twoConfig.retryBase twoConfig.retryMax < 2 ^ 63 := by
  decide +kernel

theorem two_typed : ∀ i ∈ twoInputs, i.Typed twoConfig := by
  have hturn : ∀ attempt, InTime (retryAt twoConfig demoTurn attempt) :=
    demoTurn_typed two_facts.2.2.2.2.2.2
  simp only [twoInputs, List.forall_mem_cons]
  exact ⟨⟨demoEvent_portable, by decide⟩, hturn, hturn,
    ⟨demoPhase_portable (by decide +kernel) (by decide), by decide⟩, hturn, hturn,
    ⟨unendedEnd_portable, by decide⟩, by simp⟩

theorem pending_kept_demo :
    twoWorld.store.records.map (·.cursor) = [8, 7] ∧
    twoAfter.store.records.map (·.cursor) = [9, 7] ∧
    (∃ r r', lookup demoKey twoWorld.store.records = some r ∧ Unsettled r ∧
      lookup demoKey twoAfter.store.records = some r' ∧ r'.alarmSN = r.alarmSN) ∧
    MadeRoom twoWorld.store.records (keyOf twoConfig.deviceID unendedEnd)
      twoAfter.store.records := by
  obtain ⟨hmeets, hwhole, hpending, hnext, hbefore, hafter, hmax⟩ := two_facts
  have hrun := @demoMeets_moves Whole twoOpened twoConfig (fun _ => True) _ twoInputs
    (fun u i hu => ⟨fun _ _ _ => show Terminated u.store.disk from of_decide_eq_true hu, trivial⟩)
    two_typed hmeets
  have hlived : Lived zeroSha twoConfig (fun _ => 0) Whole twoWorld :=
    lived_of_moves hrun (lived_newStore twoConfig_usable [] [])
  have hmove : Move zeroSha twoConfig (fun _ => 0) Whole twoWorld twoAfter := by
    rw [twoAfter, demoAfter, demoAfter]
    unfold demoStep
    exact .step (demoTurn_typed hmax) fun _ _ _ => hwhole
  obtain ⟨r, hr, hstate⟩ := demoPending_iff.mp hpending
  obtain ⟨hkept, hroom⟩ := pending_kept twoConfig_usable hlived
  obtain ⟨r', hr', hsn⟩ := hkept twoAfter hmove demoKey r hr (.inl hstate)
  refine ⟨hbefore, hafter, ⟨r, r', hr, .inl hstate, hr', hsn⟩, ?_⟩
  unfold endNext at hnext
  cases hpc : twoWorld.ingest with
  | enqueue job staged =>
    rw [hpc] at hnext
    have hcall : (Input.ingest demoTurn).call twoConfig twoWorld =
        some (demoTurn, .enqueue unendedEnd job.notification.cursor
          (alarmEnabled twoConfig unendedEnd.phase) twoConfig.evidenceEnabled) := by
      rw [Input.call, hpc, ← eq_of_beq hnext]
      rfl
    have hmade := hroom (.ingest demoTurn) _ _ _ _ _ hcall (by decide)
    rw [twoAfter, demoAfter, demoAfter]
    unfold demoStep
    exact hmade
  | idle | staging | requeue | failed | ack | giveUp =>
    rw [hpc] at hnext
    cases hnext

end FlowAlarm.Delivery
