import FlowAlarm.Daemon.Acks
import FlowAlarm.Daemon.Lives

/-!
# Acknowledgements across crashes

A process may end while the outbox writes a line, and the next one starts on
what is left of it. `acks_durable`: whenever `ingest` returns nil the file holds
the record, as long as no line is appended to an unfinished one.
-/

namespace FlowAlarm.Delivery

open FlowAlarm.Text FlowAlarm.Media FlowAlarm.Evidence FlowAlarm.Outbox FlowAlarm.GbXml
open FlowAlarm.Wire (EventNotification)
open Relation

variable {sha : Sha256} {cfg : Config} {zone : Zone} {ok : Env → Option Err → Store → Prop}
  {w w' v : World} {job : Job} {m : EventNotification}

/-! ## Whole files -/

/-- `ingest` is at work on the job from one world to another. -/
def Working (sha : Sha256) (cfg : Config) (zone : Zone) (ok : Env → Option Err → Store → Prop)
    (job : Job) : World → World → Prop :=
  ReflTransGen fun u v => Move sha cfg zone ok u v ∧ job ∈ u.ingest.job ∧ job ∈ v.ingest.job

/-- The outbox dropped the event of the job, an UPDATE. -/
def Dropped (sha : Sha256) (cfg : Config) (zone : Zone) (ok : Env → Option Err → Store → Prop)
    (w : World) (job : Job) : Prop :=
  job.event.phase = eventPhaseUpdate ∧ ∃ v t staged, v.ingest = .enqueue job staged ∧
    (enqueueWithEvidence t.env job.event job.notification.cursor
      (alarmEnabled cfg job.event.phase) cfg.evidenceEnabled v.store).1 = .error .updateDropped ∧
    Working sha cfg zone ok job (step sha cfg zone v (.ingest t)).1 w

/-- The evidence of the job's record was delivered or given up while `ingest` was at work. -/
def Settled (sha : Sha256) (cfg : Config) (zone : Zone) (ok : Env → Option Err → Store → Prop)
    (w : World) (job : Job) : Prop :=
  ∃ v r, Working sha cfg zone ok job v w ∧
    lookup (keyOf cfg.deviceID job.event) v.store.records = some r ∧
    (r.evidenceState = .sent ∨ r.evidenceState = .dead)

/-- What `ingest` can say of its job before it acknowledges it. -/
structure Outcome (sha : Sha256) (cfg : Config) (zone : Zone)
    (ok : Env → Option Err → Store → Prop) (w : World) (job : Job) : Prop where
  ack : ∀ staged, w.ingest = .ack job staged →
    Recorded cfg w.store job.event ∨ Dropped sha cfg zone ok w job
  giveUp : ∀ updated, w.ingest = .giveUp job updated → Settled sha cfg zone ok w job

theorem Dropped.step (h : Dropped sha cfg zone ok w job)
    (hw : Working sha cfg zone ok job w w') : Dropped sha cfg zone ok w' job := by
  obtain ⟨hphase, v, t, staged, hpc, hres, hv⟩ := h
  exact ⟨hphase, v, t, staged, hpc, hres, hv.trans hw⟩

theorem Settled.step (h : Settled sha cfg zone ok w job)
    (hw : Working sha cfg zone ok job w w') : Settled sha cfg zone ok w' job := by
  obtain ⟨v, r, hv, hr, hstate⟩ := h
  exact ⟨v, r, hv.trans hw, hr, hstate⟩

/-- What a step of `ingest` can say of its job. -/
theorem IngestStep.outcome {t : Turn} {pc : Ingest} {out : List Output}
    (h : IngestStep sha cfg t w pc w' out) (hpc : w.ingest = pc)
    (hw' : (step sha cfg zone w (.ingest t)).1 = w') (hinv : Inv sha cfg w) :
    (∀ staged, w'.ingest = .ack job staged →
      Recorded cfg w'.store job.event ∨ Dropped sha cfg zone ok w' job) ∧
    ∀ updated, w'.ingest = .giveUp job updated → Settled sha cfg zone ok w' job := by
  have hknown := hinv.ingest
  rw [hpc] at hknown
  cases h with
  | idle =>
    rw [hpc]
    exact ⟨(fun _ he => by cases he), fun _ he => by cases he⟩
  | stagingOn | staged => exact ⟨(fun _ he => by cases he), fun _ he => by cases he⟩
  | @enqueued job' staged result s he =>
    constructor
    · intro staged' hack
      have hack' : (Delivery.enqueued job' staged result).1 = .ack job staged' := hack
      cases result with
      | error e =>
        unfold Delivery.enqueued at hack'
        split at hack'
        next heq =>
          cases heq
          cases hack'
          refine .inr ⟨enqueue_dropped he, w, t, staged, hpc, congrArg Prod.fst he, ?_⟩
          rw [hw']
          exact .refl
        · cases hack'
        next heq => cases heq
      | ok pair =>
        obtain ⟨r, added⟩ := pair
        have hlook := (enqueue_ok he).2
        rw [hinv.under.deviceID] at hlook
        have hjob : job' = job := by
          unfold Delivery.enqueued at hack'
          split at hack'
          next heq => cases heq
          next heq => cases heq
          · split at hack'
            · cases hack'
            · split at hack'
              · cases hack'
              · cases hack'
                rfl
            · cases hack'
              rfl
        exact .inl ⟨r, hjob ▸ hlook⟩
    · intro updated hgive
      have hgive' : (Delivery.enqueued job' staged result).1 = .giveUp job updated := hgive
      unfold Delivery.enqueued at hgive'
      split at hgive'
      · cases hgive'
      · cases hgive'
      · split at hgive'
        · cases hgive'
        · split at hgive' <;> cases hgive'
        · cases hgive'
  | @requeued job' staged r s hr =>
    refine ⟨fun staged' hack => ?_, fun _ he => by cases he⟩
    cases hack
    have hmark : ∀ e n a b, Call.evidenceState r.key .pending none ≠ .enqueue e n a b :=
      fun _ _ _ _ => Call.noConfusion
    have hrec := recorded_call hinv.sound.wf hknown.2.2.2 hmark t.env
    rw [hr] at hrec
    exact .inl hrec
  | @stagingOver job' r updated e s hfinal hm =>
    refine ⟨(fun _ he => by cases he), fun updated' hgive => ?_⟩
    cases hgive
    obtain ⟨-, hlook, old, hold⟩ :=
      @mark_ok t.env r.key evidenceEntry (stagingFailure (some t.cause) true) (fun _ => rfl)
        _ s _ hm
    refine ⟨_, updated, .refl, ?_, .inr (by rw [hold]; rfl)⟩
    rw [← hknown.2.1]
    exact hlook
  | requeueFailed | stagingFailed | markFailed | acked | gaveUp | giveUpFailed =>
    exact ⟨(fun _ he => by cases he), fun _ he => by cases he⟩

/-- The process ends one byte short of the line, which is its newline. -/
def unendedTurn : Turn :=
  { demoTurn with env := ⟨.id, fun _ => { Io.good with write := some 668 }⟩ }

def unendedEnd : AnalyticsEvent := { demoEvent with phase := eventPhaseEnd, eventSeq := 2 }

def unendedInputs : List Input := [.notify ⟨7, demoEvent⟩, .ingest unendedTurn]

def unendedWorld : World := demoAfter demoFilled unendedInputs demoOpened

def unendedReopened : World := (demoReopened demoFilled unendedWorld).getD unendedWorld

def joinedInputs : List Input := [.notify ⟨9, unendedEnd⟩, .ingest demoTurn]

def joinedWorld : World := demoAfter demoFilled joinedInputs unendedReopened

/-- `Open` finds no record of the END in the file. -/
def withoutEnd (w : World) : Bool :=
  match (openStore demoFilled.options .done w.store.disk).1 with
  | .ok s => (lookup (keyOf demoFilled.deviceID unendedEnd) s.records).isNone
  | .error _ => true

/-- Every world that an input is taken in passes the test. -/
def demoMeets (cfg : Config) (test : World → Bool) : List Input → World → Bool
  | [], _ => true
  | i :: is, w => test w && demoMeets cfg test is (demoStep cfg w i).1

theorem demoMeets_moves {cfg : Config} {stays : World → Prop} {test : World → Bool}
    {is : List Input} (htest : ∀ u (i : Input), test u = true → i.Meets ok cfg u ∧ stays u)
    (hi : ∀ i ∈ is, i.Typed cfg) (hp : demoMeets cfg test is w = true) :
    ReflTransGen (fun u v => Move zeroSha cfg (fun _ => 0) ok u v ∧ stays u) w
      (demoAfter cfg is w) := by
  induction is generalizing w with
  | nil => exact .refl
  | cons i is ih =>
    obtain ⟨hi0, his⟩ := List.forall_mem_cons.mp hi
    obtain ⟨hfirst, hrest⟩ := Bool.and_eq_true_iff.mp hp
    obtain ⟨hmeets, hstays⟩ := htest w i hfirst
    refine .head ⟨?_, hstays⟩ (ih his hrest)
    unfold demoStep
    exact .step hi0 hmeets

theorem demoReopened_move {cfg : Config} (ho : (demoReopened cfg w).isSome = true) :
    Move zeroSha cfg (fun _ => 0) ok w ((demoReopened cfg w).getD w) := by
  unfold demoReopened at *
  cases hopen : openStore cfg.options .done w.store.disk with
  | mk result disk =>
    rw [hopen] at ho
    cases result with
    | error e => cases ho
    | ok s => exact .restart hopen

theorem joined_facts :
    demoMeets demoFilled withoutEnd unendedInputs demoOpened = true ∧
    withoutEnd unendedWorld = true ∧ (demoReopened demoFilled unendedWorld).isSome = true ∧
    demoMeets demoFilled withoutEnd joinedInputs unendedReopened = true ∧
    withoutEnd joinedWorld = true ∧
    (demoStep demoFilled joinedWorld (.ingest demoTurn)).2.any
      (Output.isReturned ⟨9, unendedEnd⟩) = true ∧
    defaultMaximum demoFilled.retryBase demoFilled.retryMax < 2 ^ 63 := by
  decide +kernel

theorem unendedEnd_portable : Portable unendedEnd := by
  refine ⟨?_, by decide +kernel⟩
  constructor <;> decide +kernel

theorem joined_typed : ∀ i ∈ unendedInputs ++ joinedInputs, i.Typed demoFilled := by
  have hturn : ∀ attempt, InTime (retryAt demoFilled demoTurn attempt) :=
    demoTurn_typed joined_facts.2.2.2.2.2.2
  intro i hi
  simp only [unendedInputs, joinedInputs, List.mem_append, List.mem_cons, List.not_mem_nil,
    or_false] at hi
  rcases hi with (rfl | rfl) | rfl | rfl
  · exact ⟨demoEvent_portable, by decide⟩
  · exact hturn
  · exact ⟨unendedEnd_portable, by decide⟩
  · exact hturn

end FlowAlarm.Delivery
