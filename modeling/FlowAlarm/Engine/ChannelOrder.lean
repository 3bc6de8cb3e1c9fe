import FlowAlarm.Engine.Rejection

/-!
# The order of a channel's observations

The engine keeps one ordering record and starts it afresh when the channel
changes, so what it accepts on a channel is ordered within one stay there. Over
a whole run the channels stay in order exactly when every observation that
brings the engine back to a channel is ahead of what it held there before
(`channels_onward_iff`).
-/

namespace FlowAlarm.Engine

open FlowAlarm.Text FlowAlarm.Trace

/-- `o` lies ahead of an order record in `(stream_epoch, frame_id)`. -/
def Ahead (order : MeObservationOrder) (o : MeNormalizedObservation) : Prop :=
  order.streamEpoch < o.streamEpoch ∨
    order.streamEpoch = o.streamEpoch ∧ order.frameId < o.frameId

instance (order : MeObservationOrder) (o : MeNormalizedObservation) : Decidable (Ahead order o) :=
  inferInstanceAs (Decidable (_ ∨ _))

def Newer (a b : MeNormalizedObservation) : Prop := Ahead (orderCommit a) b

instance (a b : MeNormalizedObservation) : Decidable (Newer a b) :=
  inferInstanceAs (Decidable (Ahead _ _))

theorem Newer.trans {a b c : MeNormalizedObservation} (h : Newer a b) (h' : Newer b c) :
    Newer a c := by
  simp only [Newer, Ahead, orderCommit] at h h' ⊢
  omega

/-! ## The observations a run accepts -/

def Call.accepted (e : MeEventEngine) : Call → List MeNormalizedObservation
  | .process (some o) => if accepts e o then [o] else []
  | _ => []

def acceptedObservations (e : MeEventEngine) : List Call → List MeNormalizedObservation
  | [] => []
  | c :: cs => c.accepted e ++ acceptedObservations (c.apply e).engine cs

theorem Call.accepted_eq {e : MeEventEngine} {c : Call} :
    c.accepted e = [] ∨ ∃ o, c = .process (some o) ∧ accepts e o = true ∧ c.accepted e = [o] := by
  cases c with
  | close reason => exact .inl rfl
  | reconfigure config configVersion => exact .inl rfl
  | process observation =>
    cases observation with
    | none => exact .inl rfl
    | some o =>
      cases hacc : accepts e o with
      | false => exact .inl (if_neg (by simp [hacc]))
      | true => exact .inr ⟨o, rfl, hacc, if_pos hacc⟩

theorem acceptedObservations_append (e : MeEventEngine) (cs ds : List Call) :
    acceptedObservations e (cs ++ ds) =
      acceptedObservations e cs ++ acceptedObservations (runCalls e cs).1 ds := by
  induction cs generalizing e with
  | nil => rfl
  | cons c cs ih =>
    simp only [List.cons_append, acceptedObservations, ih, runCalls, List.append_assoc]

theorem acceptedObservations_snoc (e : MeEventEngine) (cs : List Call) (c : Call) :
    acceptedObservations e (cs ++ [c]) =
      acceptedObservations e cs ++ c.accepted (runCalls e cs).1 := by
  rw [acceptedObservations_append]
  simp [acceptedObservations]

/-- The accepted observations of every channel are strictly increasing. -/
def InChannelOrder (os : List MeNormalizedObservation) : Prop :=
  os.Pairwise fun a b => a.channelId = b.channelId → Newer a b

instance (os : List MeNormalizedObservation) : Decidable (InChannelOrder os) :=
  inferInstanceAs (Decidable (List.Pairwise _ _))

/-- An observation of a channel that is not newer than one accepted on it before. -/
def Late (before : List MeNormalizedObservation) (o : MeNormalizedObservation) : Prop :=
  ∃ a ∈ before, a.channelId = o.channelId ∧ ¬ Newer a o

/-- **Observations never move a channel backwards**: what is accepted is in order on each channel,
and a late observation is not accepted and leaves no record. -/
structure Onward (e : MeEventEngine) (calls : List Call) : Prop where
  order : InChannelOrder (acceptedObservations e calls)
  late : ∀ pre o suf, calls = pre ++ .process (some o) :: suf →
    Late (acceptedObservations e pre) o → accepts (runCalls e pre).1 o = false ∧
      (meEventEngineProcess (runCalls e pre).1 (some o)).emitted = []

/-- `o` takes the engine to another channel: it is valid, and the open event can be closed. -/
structure Switches (e : MeEventEngine) (o : MeNormalizedObservation) : Prop where
  valid : meObservationValidate o = .ok ()
  stream : e.haveStream = true
  channel : e.channelId ≠ o.channelId
  closable : e.active = true → e.activeEvent.eventSeq ≠ uint64Max

/-- Whenever an observation takes the engine to a channel, it is ahead of every order the engine
held on that channel before. -/
def ReturnsAhead (e : MeEventEngine) (calls : List Call) : Prop :=
  ∀ pre o suf, calls = pre ++ .process (some o) :: suf → Switches (runCalls e pre).1 o →
    ∀ earlier, earlier <+: pre → (runCalls e earlier).1.haveStream = true →
      (runCalls e earlier).1.channelId = o.channelId → Ahead (runCalls e earlier).1.order o

/-! ## What a call does to the order -/

def streamPart (e : MeEventEngine) : MeObservationOrder × Bool × CStr :=
  (e.order, e.haveStream, e.channelId)

section Calls

variable {e : MeEventEngine} {o : MeNormalizedObservation}

theorem streamPart_of_fixed {e' : MeEventEngine} (h : fixedPart e' = fixedPart e) :
    streamPart e' = streamPart e :=
  congrArg (fun p => (p.2.2.1, p.2.2.2.1, p.2.2.2.2.1)) h

theorem process_stream (hw : Wf e) (o : MeNormalizedObservation) :
    streamPart (meEventEngineProcess e (some o)).engine =
      if accepts e o then (orderCommit o, true, o.channelId) else streamPart e := by
  rcases process_cases hw o with ⟨hrej, ret, hp⟩ | ⟨hacc, hv, e₁, ends, n, hp, -⟩
  · rw [hp, hrej]
    rfl
  · rw [hp, hacc, if_pos rfl]
    have hch := snprintf_channel (observationValid_of_validate hv)
    refine (streamPart_of_fixed processAccepted_fixed).trans ?_
    simp only [streamPart, hch]

theorem close_stream (hw : Wf e) (reason : MeEventReason) :
    streamPart (meEventEngineClose e reason).engine = streamPart e := by
  unfold meEventEngineClose
  split
  · rfl
  · rcases endAtLast_cases hw reason with ⟨err, heq⟩ | ⟨e', ends, heq, -, hf, -⟩
    · rw [heq]
    · rw [heq]
      exact streamPart_of_fixed hf

theorem reconfigure_stream (hw : Wf e) (config : Option MeAnalyticsConfig) (configVersion : Nat) :
    streamPart (meEventEngineReconfigure e config configVersion).engine = streamPart e := by
  unfold meEventEngineReconfigure
  cases config with
  | none => rfl
  | some config =>
    simp only
    split
    · rfl
    split
    · rfl
    · rcases endAtLast_cases hw (if config.enabled then .reconfigured else .analyticsDisabled) with
        ⟨err, heq⟩ | ⟨e', ends, heq, -, hf, -⟩
      · rw [heq]
      · rw [heq]
        show streamPart e' = streamPart e
        exact streamPart_of_fixed hf

/-- The order record is that of the latest accepted observation, on whose channel the engine is. -/
structure Standing (e : MeEventEngine) (os : List MeNormalizedObservation) : Prop where
  fresh : e.haveStream = false → os = []
  latest : e.haveStream = true → ∃ os' a, os = os' ++ [a] ∧ a.channelId = e.channelId ∧
    e.order = orderCommit a

theorem Standing.congr {e' : MeEventEngine} {os : List MeNormalizedObservation}
    (h : Standing e os) (he : streamPart e' = streamPart e) : Standing e' os := by
  simp only [streamPart, Prod.mk.injEq] at he
  obtain ⟨hord, hhave, hch⟩ := he
  exact ⟨fun hf => h.fresh (hhave ▸ hf), fun ht => by rw [hord, hch]; exact h.latest (hhave ▸ ht)⟩

/-- The step lemma. -/
theorem Standing.step {os : List MeNormalizedObservation} (h : Standing e os) (hw : Wf e)
    (c : Call) : Standing (c.apply e).engine (os ++ c.accepted e) := by
  have hnone : ∀ {r : Outcome}, streamPart r.engine = streamPart e →
      Standing r.engine (os ++ []) := fun hs => by
    rw [List.append_nil]
    exact h.congr hs
  cases c with
  | close reason => exact hnone (close_stream hw reason)
  | reconfigure config configVersion => exact hnone (reconfigure_stream hw config configVersion)
  | process observation =>
    cases observation with
    | none => exact hnone (r := meEventEngineProcess e none) rfl
    | some o =>
      have hs := process_stream hw o
      cases hacc : accepts e o with
      | false =>
        have hnil : Call.accepted e (.process (some o)) = [] := if_neg (by simp [hacc])
        rw [hacc] at hs
        rw [hnil]
        exact hnone hs
      | true =>
        have hone : Call.accepted e (.process (some o)) = [o] := if_pos hacc
        rw [hacc, if_pos rfl] at hs
        simp only [streamPart, Prod.mk.injEq] at hs
        obtain ⟨hord, hhave, hch⟩ := hs
        rw [hone]
        exact ⟨fun hf => absurd (hhave.symm.trans hf) (by simp),
          fun _ => ⟨os, o, rfl, hch.symm, hord⟩⟩

/-- The run lemma. -/
theorem Standing.run {os : List MeNormalizedObservation} (h : Standing e os) (hw : Wf e)
    (calls : List Call) :
    Standing (runCalls e calls).1 (os ++ acceptedObservations e calls) := by
  induction calls generalizing e os with
  | nil => rwa [acceptedObservations, List.append_nil]
  | cons c cs ih =>
    have := ih (h.step hw c) (Call.apply_good hw c).wf
    rwa [List.append_assoc] at this

/-- An observation accepted without a channel change is ahead of the order record. -/
theorem ahead_of_accepts (hacc : accepts e o = true)
    (hsame : ¬(e.haveStream && e.channelId != o.channelId) = true)
    (hinit : e.order.initialized = true) : Ahead e.order o := by
  have hclass : classification e o = (meObservationOrderClassify e.order o).2 := by
    rw [classification, if_neg hsame]
  rw [accepts, hclass, meObservationOrderClassify] at hacc
  unfold Ahead
  split at hacc
  · simp at hacc
  simp only [hinit, Bool.not_true, Bool.false_eq_true, if_false] at hacc
  split at hacc
  · simp at hacc
  split at hacc
  · next h => exact .inl h
  split at hacc
  · simp at hacc
  next hne =>
  split at hacc
  · simp at hacc
  · simp only [beq_iff_eq] at hne
    exact .inr ⟨by omega, by omega⟩

theorem endAtLast_failed (hw : Wf e) (ha : e.active = true)
    (hmax : e.activeEvent.eventSeq = uint64Max) (reason : MeEventReason) :
    (endAtLast e reason).failed = true := by
  unfold endAtLast emitEnd incrementEventSeq
  simp [ha, hw.haveLast ha, hmax, Outcome.failed]

/-- An accepted observation of another channel is a switch, and a switch is accepted. -/
theorem accepts_iff_switches (hw : Wf e) (hs : e.haveStream = true)
    (hch : e.channelId ≠ o.channelId) : accepts e o = true ↔ Switches e o := by
  have hdiff : (e.haveStream && e.channelId != o.channelId) = true := by simp [hs, hch]
  have hreset : resets e o = true := by rw [resets, hdiff]; rfl
  constructor
  · intro hacc
    have hv : meObservationValidate o = .ok () := by
      rcases process_cases hw o with ⟨hrej, -⟩ | ⟨-, hv, -⟩
      · rw [hrej] at hacc
        cases hacc
      · exact hv
    refine ⟨hv, hs, hch, fun ha hmax => ?_⟩
    simp [accepts, hreset, endAtLast_failed hw ha hmax] at hacc
  · intro h
    have hclass : classification e o = .first := by
      simp [classification, hdiff, meObservationOrderClassify, h.valid, meObservationOrderInit]
    have hok : (endAtLast e .streamReset).failed = false := by
      unfold endAtLast
      split
      · next hact =>
        have ha : e.active = true := (Bool.and_eq_true_iff.mp hact).1
        rcases emitEnd_eq e.lastObservation .streamReset (latestPersonCount e)
          (observationTimeline e.config e.lastObservation) false ha with
          ⟨hmax, -⟩ | ⟨e', r, heq, -⟩
        · exact absurd hmax (h.closable ha)
        · rw [heq]
          rfl
      · rfl
    simp [accepts, hclass, hreset, hok]

end Calls

/-! ## Whole runs -/

section Runs

variable {e : MeEventEngine} {calls : List Call}

theorem Standing.init {config : Option MeAnalyticsConfig} {configVersion : Nat}
    (h : meEventEngineInit config configVersion = .ok e) : Standing e [] := by
  unfold meEventEngineInit at h
  split at h
  · cases h
  · split at h
    · cases h
    · cases h
      exact ⟨fun _ => rfl, fun ht => absurd ht (by simp)⟩

theorem InChannelOrder.newer {os os' : List MeNormalizedObservation}
    {a b : MeNormalizedObservation} (h : InChannelOrder (os ++ b :: os')) (ha : a ∈ os)
    (hch : a.channelId = b.channelId) : Newer a b :=
  (List.pairwise_append.mp h).2.2 a ha b List.mem_cons_self hch

/-- An accepted observation was the latest one of some state of the run. -/
theorem held_of_accepted (hw : Wf e) {a : MeNormalizedObservation}
    (ha : a ∈ acceptedObservations e calls) :
    ∃ earlier, earlier <+: calls ∧ (runCalls e earlier).1.haveStream = true ∧
      (runCalls e earlier).1.channelId = a.channelId ∧
      (runCalls e earlier).1.order = orderCommit a := by
  induction calls generalizing e with
  | nil => cases ha
  | cons c cs ih =>
    rcases List.mem_append.mp ha with ha | ha
    · rcases Call.accepted_eq (e := e) (c := c) with hnil | ⟨o, rfl, hacc, hone⟩
      · rw [hnil] at ha
        cases ha
      · rw [hone, List.mem_singleton] at ha
        subst ha
        have hs := process_stream hw a
        rw [hacc, if_pos rfl] at hs
        simp only [streamPart, Prod.mk.injEq] at hs
        exact ⟨[.process (some a)], List.cons_prefix_cons.mpr ⟨rfl, List.nil_prefix⟩,
          hs.2.1, hs.2.2, hs.1⟩
    · obtain ⟨earlier, hpre, h⟩ := ih (Call.apply_good hw c).wf ha
      exact ⟨c :: earlier, List.cons_prefix_cons.mpr ⟨rfl, hpre⟩, h⟩

theorem ReturnsAhead.prefix {cs ds : List Call} (h : ReturnsAhead e (cs ++ ds)) :
    ReturnsAhead e cs := by
  intro pre o suf hsplit
  exact h pre o (suf ++ ds) (by rw [hsplit]; simp)

/-- An accepted observation is newer than everything accepted on its channel before, when the
order holds so far and returns to a channel are ahead. -/
theorem newer_of_accepts {pre : List Call} {o a : MeNormalizedObservation} (hw : Wf e)
    (hst : Standing e []) (hq : ReturnsAhead e (pre ++ [.process (some o)]))
    (horder : InChannelOrder (acceptedObservations e pre))
    (hacc : accepts (runCalls e pre).1 o = true) (ha : a ∈ acceptedObservations e pre)
    (hch : a.channelId = o.channelId) : Newer a o := by
  have hw' := (runCalls_good hw pre).1
  have hstand : Standing (runCalls e pre).1 (acceptedObservations e pre) := by
    simpa using hst.run hw pre
  cases hs : (runCalls e pre).1.haveStream with
  | false =>
    rw [hstand.fresh hs] at ha
    cases ha
  | true =>
    by_cases hsame : (runCalls e pre).1.channelId = o.channelId
    · obtain ⟨os, l, hos, hlch, hord⟩ := hstand.latest hs
      have hahead : Newer l o := by
        have := ahead_of_accepts hacc (by simp [hsame]) (by rw [hord]; rfl)
        rwa [hord] at this
      rw [hos] at ha horder
      rcases List.mem_append.mp ha with ha | ha
      · exact (horder.newer ha (hch.trans (hsame.symm.trans hlch.symm))).trans hahead
      · rw [List.mem_singleton.mp ha]
        exact hahead
    · -- the engine returns to the channel of `a`
      obtain ⟨earlier, hpre, hhave, hach, hord⟩ := held_of_accepted hw ha
      have hsw := (accepts_iff_switches hw' hs hsame).mp hacc
      have := hq pre o [] rfl hsw earlier hpre hhave (hach.trans hch)
      rwa [hord] at this

/-- The run lemma: returns ahead keep every channel in order. -/
theorem inChannelOrder_of_returnsAhead (hw : Wf e) (hst : Standing e [])
    (hq : ReturnsAhead e calls) : InChannelOrder (acceptedObservations e calls) := by
  induction calls using List.reverseRecOn with
  | nil => exact .nil
  | append_singleton pre c ih =>
    have horder := ih hq.prefix
    rw [acceptedObservations_snoc]
    rcases Call.accepted_eq (e := (runCalls e pre).1) (c := c) with hnil | ⟨o, rfl, hacc, hone⟩
    · rwa [hnil, List.append_nil]
    · rw [hone]
      refine List.pairwise_append.mpr ⟨horder, List.pairwise_singleton _ _, ?_⟩
      intro a ha b hb hch
      rw [List.mem_singleton] at hb
      subst hb
      exact newer_of_accepts hw hst hq horder hacc ha hch

/-- In a run whose channels stay in order a late observation is refused. -/
theorem late_refused (hw : Wf e) {pre suf : List Call} {o : MeNormalizedObservation}
    (horder : InChannelOrder (acceptedObservations e (pre ++ .process (some o) :: suf)))
    (hlate : Late (acceptedObservations e pre) o) :
    accepts (runCalls e pre).1 o = false ∧
      (meEventEngineProcess (runCalls e pre).1 (some o)).emitted = [] := by
  rcases process_cases (runCalls_good hw pre).1 o with ⟨hrej, ret, hp⟩ | ⟨hacc, -⟩
  · exact ⟨hrej, by rw [hp]⟩
  · obtain ⟨a, ha, hch, hnot⟩ := hlate
    rw [acceptedObservations_append, acceptedObservations, Call.accepted, hacc] at horder
    exact absurd (horder.newer ha hch) hnot

/-- **When channels never move backwards.** Exactly when every observation that takes the engine
back to a channel is ahead of what it held there before. -/
theorem channels_onward_iff {config : Option MeAnalyticsConfig} {configVersion : Nat}
    (h : meEventEngineInit config configVersion = .ok e) (calls : List Call) :
    Onward e calls ↔ ReturnsAhead e calls := by
  obtain ⟨hw, -⟩ := meEventEngineInit_wf h
  have hst := Standing.init h
  constructor
  · rintro ⟨horder, -⟩ pre o suf rfl hsw earlier ⟨between, rfl⟩ hhave hch
    have hw' := (runCalls_good hw (earlier ++ between)).1
    have hacc := (accepts_iff_switches hw' hsw.stream hsw.channel).mpr hsw
    have hstand : Standing (runCalls e earlier).1 (acceptedObservations e earlier) := by
      simpa using hst.run hw earlier
    obtain ⟨os, a, hos, hach, hord⟩ := hstand.latest hhave
    rw [hord]
    rw [acceptedObservations_append, acceptedObservations, Call.accepted, hacc,
      acceptedObservations_append, hos] at horder
    exact horder.newer (by simp) (hach.trans hch)
  · intro hq
    have horder := inChannelOrder_of_returnsAhead hw hst hq
    exact ⟨horder, fun pre o suf hsplit hlate => late_refused hw (hsplit ▸ horder) hlate⟩

end Runs

/-- One stay on one channel. -/
theorem channels_onward_demo :
    (acceptedObservations demoEngine demoCalls).length = 2 ∧
      (Onward demoEngine demoCalls ↔ ReturnsAhead demoEngine demoCalls) :=
  ⟨by decide +kernel, @channels_onward_iff demoEngine (some demoConfig) 0 rfl demoCalls⟩

/-- A frame of the camera, one of the SIP channel after a live start, then a late result of the
camera. -/
def lateCalls : List Call :=
  [.process (some (demoObservation 1 5)),
    .process (some { demoObservation 2 1 with
      channelId := .ofBytes (ascii "34020000001320000001") (by decide) }),
    .process (some (demoObservation 1 4))]

/-- The late result is accepted: it ends the SIP channel's event and starts one of the camera. -/
theorem late_result_accepted :
    meEventEngineInit (some demoConfig) 0 = .ok demoEngine ∧ ¬ Onward demoEngine lateCalls ∧
    (acceptedObservations demoEngine lateCalls).map (fun o => (o.streamEpoch, o.frameId)) =
      [(1, 5), (2, 1), (1, 4)] ∧
    (records (runCalls demoEngine lateCalls).2).map (·.phase) =
      [.start, .end_, .start, .end_, .start] := by
  have hfacts : ¬ InChannelOrder (acceptedObservations demoEngine lateCalls) ∧
      (acceptedObservations demoEngine lateCalls).map (fun o => (o.streamEpoch, o.frameId)) =
        [(1, 5), (2, 1), (1, 4)] ∧
      (records (runCalls demoEngine lateCalls).2).map (·.phase) =
        [.start, .end_, .start, .end_, .start] := by
    decide +kernel
  exact ⟨rfl, fun h => hfacts.1 h.order, hfacts.2⟩

end FlowAlarm.Engine
