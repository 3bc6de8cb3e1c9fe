import FlowAlarm.Daemon.EvidenceSink

/-!
# The lives of the delivery service

The service lives over and over: its loops take steps until the process ends,
at any moment, and it starts again on the outbox file as that end left it.
`lived_inv` carries the invariant of the loops through all lives;
`delivered_final` says which runs keep as delivered what is recorded so.
-/

namespace FlowAlarm.Delivery

open FlowAlarm.Text FlowAlarm.Media FlowAlarm.Evidence FlowAlarm.Outbox FlowAlarm.GbXml
open FlowAlarm.Wire (EventNotification)
open Relation

variable {sha : Sha256} {cfg : Config} {zone : Zone} {ok : Env → Option Err → Store → Prop}
  {w w' : World} {k : Bytes} {r r' : Record}

/-- The call that an input makes meets the condition. -/
def Input.Meets (ok : Env → Option Err → Store → Prop) (cfg : Config) (w : World) (i : Input) :
    Prop :=
  ∀ t c, i.call cfg w = some (t, c) → ok t.env (c.run t.env w.store).1 w.store

/-- A step of a loop, or the end of the process and its next start. -/
inductive Move (sha : Sha256) (cfg : Config) (zone : Zone)
    (ok : Env → Option Err → Store → Prop) : World → World → Prop where
  | step {w : World} {i : Input} : i.Typed cfg → i.Meets ok cfg w →
      Move sha cfg zone ok w (step sha cfg zone w i).1
  | restart {w : World} {s : Store} {io : CompactIo} {disk : Bytes}
      {staged source : Directory.Files} : openStore cfg.options io w.store.disk = (.ok s, disk) →
      Move sha cfg zone ok w (World.start s staged source)

/-- The worlds of all lives, the first of which began with a new outbox. -/
inductive Lived (sha : Sha256) (cfg : Config) (zone : Zone)
    (ok : Env → Option Err → Store → Prop) : World → Prop where
  | opened {s : Store} {disk : Bytes} {staged source : Directory.Files} :
      openStore cfg.options .done [] = (.ok s, disk) →
      Lived sha cfg zone ok (World.start s staged source)
  | moved {w w' : World} : Lived sha cfg zone ok w → Move sha cfg zone ok w w' →
      Lived sha cfg zone ok w'

/-- **The loops keep their invariant through all lives**, under a condition that keeps the outbox
sound. -/
theorem lived_inv (hsound : ∀ s, Reached cfg.options ok s → Sound s ∧ Under cfg.options s)
    (h : Lived sha cfg zone ok w) : Inv sha cfg w ∧ Reached cfg.options ok w.store := by
  induction h with
  | @opened s disk staged source ho =>
    have hreached : Reached cfg.options ok s := .opened ho
    exact ⟨inv_start (hsound s hreached).1 (hsound s hreached).2 staged source, hreached⟩
  | @moved w w' _ hmove ih =>
    cases hmove with
    | @step i hi hmeets =>
      refine ⟨inv_step ih.1 hi, ?_⟩
      rw [step_store]
      exact callStore_cases (Reached cfg.options ok) ih.2 fun t c hc =>
        .called ih.2 (issued_call ih.1 hi hc) (hmeets t c hc)
    | @restart s io disk staged source ho =>
      have hreached : Reached cfg.options ok s := .reopened ih.2 ho
      exact ⟨inv_start (hsound s hreached).1 (hsound s hreached).2 staged source, hreached⟩

/-! ## Restarts without faults -/

theorem withoutFaults_inv (hu : Usable cfg.options) {s : Store}
    (h : Reached cfg.options WithoutFaults s) : Outbox.Inv cfg.options True False True s :=
  h.inv hu (fun _ _ _ _ hok => hok) (fun hf => hf.elim) fun hf => absurd trivial hf

theorem lived_withoutFaults (hu : Usable cfg.options) (h : Lived sha cfg zone WithoutFaults w) :
    Inv sha cfg w ∧ Reached cfg.options WithoutFaults w.store :=
  lived_inv (fun _ hs => ⟨(withoutFaults_inv hu hs).sound, (withoutFaults_inv hu hs).under⟩) h

/-- A record of the outbox is found again as it was, but for the texts of errors. -/
theorem reopened_record (hu : Usable cfg.options) {s s' : Store}
    (h : Reached cfg.options WithoutFaults s) {io : CompactIo} {disk : Bytes}
    (ho : openStore cfg.options io s.disk = (.ok s', disk)) (hr : lookup k s.records = some r) :
    ∃ r', lookup k s'.records = some r' ∧ r'.strip = r.strip := by
  obtain ⟨r', hr', -, hclean⟩ := (withoutFaults_inv hu h).reopened_held hu ho hr
    (.inl (h.isOpen hu fun hok => hok))
  exact ⟨r', hr', strip_of_clean (hclean trivial)⟩

/-! ## Delivered is final -/

/-- `ingest` is about to put back the evidence of a record that has been delivered meanwhile. -/
def Clash (k : Bytes) (w : World) : Prop :=
  (∃ x ∈ w.ingest.marking, x.key = k) ∧
    ∃ r, lookup k w.store.records = some r ∧ r.evidenceState = .sent

/-- What is delivered of a record is delivered of the other. -/
structure StillSent (r r' : Record) : Prop where
  alarm : r.alarmState = .sent → r'.alarmState = .sent
  evidence : r.evidenceState = .sent → r'.evidenceState = .sent

theorem StillSent.trans {r'' : Record} (h : StillSent r r') (h' : StillSent r' r'') :
    StillSent r r'' :=
  ⟨fun hs => h'.alarm (h.alarm hs), fun hs => h'.evidence (h.evidence hs)⟩

theorem stillSent_of_strip (h : r'.strip = r.strip) : StillSent r r' := by
  have halarm : r'.strip.alarmState = r.strip.alarmState := by rw [h]
  have hevidence : r'.strip.evidenceState = r.strip.evidenceState := by rw [h]
  exact ⟨halarm.trans, hevidence.trans⟩

theorem stillSent_step (h : Inv sha cfg w) (hc : ¬ Clash k w) (i : Input)
    (hr : lookup k w.store.records = some r)
    (hr' : lookup k (step sha cfg zone w i).1.store.records = some r') : StillSent r r' := by
  constructor
  · intro hsent
    have hne : r.alarmState ≠ .pending := by simp [hsent]
    have hpart := settled_step h i hne hr hr'
    exact (congrArg (fun p => p.2.1) hpart).trans hsent
  · intro hsent
    rcases step_held h i hr hr' with rfl | ⟨t, c, update, hcall, hch, -, rfl⟩
    · exact hsent
    · exact call_delivered h (fun x hx hk => hc ⟨⟨x, hx, hk⟩, r, hr, hsent⟩) hr hsent hcall hch

/-- **Delivered is final**: as long as a record stays in the outbox and `ingest` never comes to put
its evidence back when that is delivered already, neither sink state leaves `sent`. -/
theorem delivered_final (hu : Usable cfg.options) (h : Lived sha cfg zone WithoutFaults w)
    (hr : lookup k w.store.records = some r)
    (hrun : ReflTransGen (fun u v => Move sha cfg zone WithoutFaults u v ∧ Holds k v ∧ ¬ Clash k u)
      w w') :
    ∃ r', lookup k w'.store.records = some r' ∧ (r.alarmState = .sent → r'.alarmState = .sent) ∧
      (r.evidenceState = .sent → r'.evidenceState = .sent) := by
  suffices hall : Lived sha cfg zone WithoutFaults w' ∧
      ∃ r', lookup k w'.store.records = some r' ∧ StillSent r r' by
    obtain ⟨-, r', hr', hstill⟩ := hall
    exact ⟨r', hr', hstill.alarm, hstill.evidence⟩
  induction hrun with
  | refl => exact ⟨h, r, hr, id, id⟩
  | @tail u v _ hmove ih =>
    obtain ⟨hlived, x, hx, hstill⟩ := ih
    obtain ⟨hmove, ⟨y, hy⟩, hno⟩ := hmove
    refine ⟨.moved hlived hmove, y, hy, hstill.trans ?_⟩
    cases hmove with
    | step hi hmeets => exact stillSent_step (lived_withoutFaults hu hlived).1 hno _ hx hy
    | restart ho =>
      obtain ⟨x', hx', hstrip⟩ := reopened_record hu (lived_withoutFaults hu hlived).2 ho hx
      rw [World.start, hx'] at hy
      cases hy
      exact stillSent_of_strip hstrip

/-- Inputs that pass make moves of the service, in one of its lives. -/
theorem demoPasses_moves {stays : World → Prop} {cfg : Config} {test : World → Bool}
    {is : List Input} (htest : ∀ u, test u = true → stays u) (hi : ∀ i ∈ is, i.Calm cfg)
    (hp : demoPasses cfg test is w = true) :
    ReflTransGen (fun u v => Move zeroSha cfg (fun _ => 0) WithoutFaults u v ∧ stays u ∧ stays v) w
      (demoAfter cfg is w) := by
  induction is generalizing w with
  | nil => exact .refl
  | cons i is ih =>
    obtain ⟨hi0, his⟩ := List.forall_mem_cons.mp hi
    simp only [demoPasses, Bool.and_eq_true, beq_iff_eq] at hp
    obtain ⟨⟨⟨htest0, -⟩, -⟩, hrest⟩ := hp
    refine .head ⟨?_, htest _ htest0, htest _ (demoPasses_first hrest)⟩ (ih his hrest)
    unfold demoStep
    exact .step hi0.typed fun t c hc => hi0.faultless w t c hc

theorem lived_of_moves {also : World → World → Prop}
    (h : ReflTransGen (fun u v => Move sha cfg zone ok u v ∧ also u v) w w')
    (hw : Lived sha cfg zone ok w) : Lived sha cfg zone ok w' := by
  induction h with
  | refl => exact hw
  | tail _ hmove ih => exact .moved ih hmove.1

/-! ### Evidence that is delivered while its notification comes again -/

/-- The notification comes again and is looked up; the evidence loop uploads and marks. -/
def raceStart : List Input :=
  [.notify ⟨7, uploadEvent⟩, .evidence demoTurn none, .evidence demoTurn none,
    .evidence demoTurn none, .evidence demoTurn none]

/-- The evidence loop removes both files, and `ingest` finds nothing to stage. -/
def raceEnd : List Input :=
  [.evidence demoTurn none, .evidence demoTurn none, .ingest demoTurn, .ingest demoTurn,
    .ingest demoTurn, .ingest demoTurn]

def raceSent : World := demoAfter uploadConfig raceStart uploadAcked

def raceOver : World := demoAfter uploadConfig raceEnd raceSent

def uploadIn (state : SinkState) (w : World) : Bool :=
  (lookup uploadKey w.store.records).any fun r => r.evidenceState == state

/-- The record is there, and `ingest` is not about to put its evidence back. -/
def uploadKept (w : World) : Bool :=
  (lookup uploadKey w.store.records).isSome && w.ingest.marking.all fun x => x.key != uploadKey

theorem race_facts :
    demoPasses uploadConfig (fun _ => true) raceStart uploadAcked = true ∧
    demoPasses uploadConfig (fun w => (lookup uploadKey w.store.records).isSome) raceEnd
      raceSent = true ∧
    uploadIn .sent raceSent = true ∧ uploadIn .staging raceOver = true ∧
    demoPasses uploadConfig uploadKept uploadReplay uploaded = true ∧
    uploadIn .sent uploaded = true := by
  decide +kernel

theorem uploadIn_iff {state : SinkState} : uploadIn state w = true ↔
    ∃ r, lookup uploadKey w.store.records = some r ∧ r.evidenceState = state := by
  simp only [uploadIn, Option.any_eq_true, beq_iff_eq]

theorem race_calm : ∀ i ∈ uploadIngest ++ uploadPass ++ uploadReplay ++ raceStart ++ raceEnd,
    i.Calm uploadConfig := by
  have hturn := fun i => @calm_turn uploadConfig upload_facts.2.2.2.2.2 i
  intro i hi
  have hcase : i ∈ uploadIngest ++ uploadPass ++ uploadReplay ∨
      i = .notify ⟨7, uploadEvent⟩ ∨ i = .ingest demoTurn ∨ i = .evidence demoTurn none := by
    simp only [raceStart, raceEnd, List.mem_append, List.mem_cons, List.not_mem_nil,
      or_false] at hi ⊢
    tauto
  rcases hcase with hold | rfl | rfl | rfl
  · exact upload_calm i hold
  · exact calm_notify uploadEvent_portable (show 7 < 2 ^ 64 by decide)
  · exact hturn _ (.inl rfl)
  · exact hturn _ (.inr ⟨none, .inr rfl⟩)

theorem lived_newStore (hu : Usable cfg.options) (staged source : Directory.Files) :
    Lived sha cfg zone ok (World.start (newStore cfg.options) staged source) := by
  refine @Lived.opened sha cfg zone ok _ [] staged source ?_
  rw [openStore, if_neg hu.accepted]
  exact if_neg (Nat.not_lt_zero _)

theorem uploadOpened_lived : Lived zeroSha uploadConfig (fun _ => 0) ok uploadOpened :=
  @lived_newStore zeroSha uploadConfig (fun _ => 0) ok demoOptions_usable uploadFiles []

theorem uploadAcked_lived : Lived zeroSha uploadConfig (fun _ => 0) WithoutFaults uploadAcked := by
  refine lived_of_moves (demoPasses_moves (fun _ _ => trivial) (fun i hi => race_calm i ?_)
    upload_facts.1) uploadOpened_lived
  simp only [List.mem_append]
  exact .inl (.inl (.inl (.inl hi)))

/-- **Delivered evidence is put back**: `ingest` looked the record up before it was delivered, finds
the staged files removed, and records that they could not be staged. -/
theorem delivered_reverted :
    ¬ ∀ (w w' : World) (r : Record), Lived zeroSha uploadConfig (fun _ => 0) WithoutFaults w →
      lookup uploadKey w.store.records = some r →
      ReflTransGen (fun u v => Move zeroSha uploadConfig (fun _ => 0) WithoutFaults u v ∧
        Holds uploadKey v) w w' →
      ∃ r', lookup uploadKey w'.store.records = some r' ∧
        (r.alarmState = .sent → r'.alarmState = .sent) ∧
        (r.evidenceState = .sent → r'.evidenceState = .sent) := by
  intro h
  obtain ⟨hstart, hend, hsent, hstaging, -, -⟩ := race_facts
  obtain ⟨r, hr, hsent⟩ := uploadIn_iff.mp hsent
  obtain ⟨r', hr', hstaging⟩ := uploadIn_iff.mp hstaging
  have hlived : Lived zeroSha uploadConfig (fun _ => 0) WithoutFaults raceSent := by
    refine lived_of_moves (demoPasses_moves (fun _ _ => trivial) (fun i hi => race_calm i ?_)
      hstart) uploadAcked_lived
    simp only [List.mem_append]
    exact .inl (.inr hi)
  have hmoves := @demoPasses_moves raceSent (Holds uploadKey) uploadConfig _ raceEnd
    (fun u hu => Option.isSome_iff_exists.mp hu)
    (fun i hi => race_calm i (List.mem_append_right _ hi)) hend
  obtain ⟨x, hx, -, hstill⟩ := h raceSent raceOver r hlived hr
    (ReflTransGen.mono (fun u v huv => ⟨huv.1, huv.2.2⟩) _ _ hmoves)
  rw [show lookup uploadKey raceOver.store.records = some r' from hr'] at hx
  cases hx
  rw [hstill hsent] at hstaging
  cases hstaging

theorem delivered_final_demo :
    ∃ r r', lookup uploadKey uploaded.store.records = some r ∧ r.evidenceState = .sent ∧
      lookup uploadKey uploadedAgain.store.records = some r' ∧ r'.evidenceState = .sent := by
  obtain ⟨-, -, -, -, hreplay, hsent⟩ := race_facts
  obtain ⟨r, hr, hsent⟩ := uploadIn_iff.mp hsent
  have hlived : Lived zeroSha uploadConfig (fun _ => 0) WithoutFaults uploaded := by
    refine lived_of_moves (demoPasses_moves (fun _ _ => trivial) (fun i hi => race_calm i ?_)
      upload_facts.2.1) uploadAcked_lived
    simp only [List.mem_append]
    exact .inl (.inl (.inl (.inr hi)))
  have hmoves := @demoPasses_moves uploaded (fun u => Holds uploadKey u ∧ ¬ Clash uploadKey u)
    uploadConfig _ uploadReplay (fun u hu => by
      simp only [uploadKept, Bool.and_eq_true, Option.all_eq_true, bne_iff_ne] at hu
      exact ⟨Option.isSome_iff_exists.mp hu.1, fun hc => by
        obtain ⟨⟨x, hx, hk⟩, -⟩ := hc
        exact hu.2 x hx hk⟩)
    (fun i hi => race_calm i (by simp only [List.mem_append]; exact .inl (.inl (.inr hi)))) hreplay
  have hu : Usable uploadConfig.options := demoOptions_usable
  obtain ⟨r', hr', -, hstill⟩ := delivered_final hu hlived hr
    (ReflTransGen.mono (fun u v huv => ⟨huv.1, huv.2.2.1, huv.2.1.2⟩) _ _ hmoves)
  exact ⟨r, r', hr, hsent, hr', hstill hsent⟩

end FlowAlarm.Delivery
