import FlowAlarm.Engine.ChannelOrder
import FlowAlarm.Engine.Deltas

/-!
# The turns of a run

Each accepted observation is a turn. The history of a run lists its turns,
newest first, with a cut wherever the runtime state was cleared: at a close, a
reconfiguration, a change of channel or an advance of the epoch. What a claim
says of the observations so far is said of such a list, and `past_induct` is the
induction over it.
-/

namespace FlowAlarm.Engine

open FlowAlarm.Text FlowAlarm.Trace

/-! ## Turns -/

/-- The matching facts that the observation before did not hold. -/
def freshFacts (config : MeAnalyticsConfig) (last : Option MeNormalizedObservation)
    (o : MeNormalizedObservation) : List MeRuleFact :=
  (matchingFacts config o).filter fun f =>
    !holdsFact (last.elim [] (matchingFacts config)) f

/-- An accepted observation: the one before it since the cut, the count the engine made, whether an
event was open, what was emitted for it and whether that failed. -/
structure Turn where
  config : MeAnalyticsConfig
  observation : MeNormalizedObservation
  last : Option MeNormalizedObservation
  personCount : Nat
  active : Bool
  emitted : List MeAnalyticsEvent
  failed : Bool

namespace Turn

def time (t : Turn) : MeTimeline := observationTimeline t.config t.observation

/-- Whether the observation meets the configured rule. -/
def condition (t : Turn) : Bool :=
  t.config.enabled &&
    if t.config.ruleType == .occupancy then decide (0 < t.personCount)
    else matchingFacts t.config t.observation != []

def fresh (t : Turn) : List MeRuleFact := freshFacts t.config t.last t.observation

def emits (t : Turn) (phase : MeEventPhase) : Prop := ∃ r ∈ t.emitted, r.phase = phase

instance (t : Turn) (phase : MeEventPhase) : Decidable (t.emits phase) :=
  inferInstanceAs (Decidable (∃ r ∈ t.emitted, r.phase = phase))

end Turn

/-- A cut has the records that ended the open event. -/
inductive Mark where
  | cut (ends : List MeAnalyticsEvent)
  | turn (t : Turn)

def Mark.emitted : Mark → List MeAnalyticsEvent
  | .cut ends => ends
  | .turn t => t.emitted

/-- The turns since the last cut. -/
def turns : List Mark → List Turn
  | [] | .cut _ :: _ => []
  | .turn t :: h => t :: turns h

/-! ## Histories -/

/-- The engine once it stands at `o` in its stream. -/
def standing (e : MeEventEngine) (o : MeNormalizedObservation) : MeEventEngine :=
  { e with
    order := orderCommit o
    haveStream := true
    channelId := o.channelId.snprintf meAnalyticsChannelIdMax
    streamEpoch := o.streamEpoch
    lastObservation := o
    haveLastObservation := true }

/-- The engine in which `process` runs an observation it accepts. -/
def accepting (e : MeEventEngine) (o : MeNormalizedObservation) : MeEventEngine :=
  standing (if resets e o then clearRuntime (endAtLast e .streamReset).engine else e) o

def turnOf (h : List Mark) (e : MeEventEngine) (o : MeNormalizedObservation) : Turn where
  config := e.config
  observation := o
  last := (turns h).head?.map (·.observation)
  personCount :=
    if e.config.enabled then (updateTracks e o (observationTimeline e.config o)).2 else 0
  active := e.active
  emitted := (processAccepted e o).emitted
  failed := (processAccepted e o).failed

/-- What a call adds to the history. -/
def Call.marks (h : List Mark) (e : MeEventEngine) (c : Call) : List Mark :=
  match c with
  | .process none => []
  | .process (some o) =>
    if accepts e o then
      let cut : List Mark := if resets e o then [.cut (endAtLast e .streamReset).emitted] else []
      .turn (turnOf (cut ++ h) (accepting e o) o) :: cut
    else []
  | .close _ | .reconfigure _ _ => if (c.apply e).failed then [] else [.cut (c.apply e).emitted]

def past (h : List Mark) (e : MeEventEngine) : List Call → List Mark
  | [] => h
  | c :: cs => past (c.marks h e ++ h) (c.apply e).engine cs

theorem Call.marks_given {h : List Mark} {e : MeEventEngine} {c : Call} {t : Turn}
    (ht : .turn t ∈ c.marks h e) : c = .process (some t.observation) := by
  cases c with
  | close reason =>
    simp only [Call.marks] at ht
    split at ht <;> simp at ht
  | reconfigure config configVersion =>
    simp only [Call.marks] at ht
    split at ht <;> simp at ht
  | process observation =>
    cases observation with
    | none => cases ht
    | some o =>
      simp only [Call.marks] at ht
      split at ht
      · rcases List.mem_cons.mp ht with ht | ht
        · cases ht
          rfl
        · split at ht <;> simp at ht
      · cases ht

/-- A turn of a run is of an observation that was given. -/
theorem turn_given {h : List Mark} {e : MeEventEngine} {calls : List Call} {t : Turn}
    (ht : .turn t ∈ past h e calls) : .turn t ∈ h ∨ .process (some t.observation) ∈ calls := by
  induction calls generalizing h e with
  | nil => exact .inl ht
  | cons c cs ih =>
    rcases ih ht with hmem | hmem
    · rcases List.mem_append.mp hmem with hmem | hmem
      · exact .inr (by rw [Call.marks_given hmem]; exact List.mem_cons_self)
      · exact .inl hmem
    · exact .inr (List.mem_cons_of_mem _ hmem)

/-! ## Calls and marks -/

section

variable {e : MeEventEngine} {o : MeNormalizedObservation}

/-- Nothing is left of the runtime state. -/
structure Cleared (e : MeEventEngine) : Prop where
  active : e.active = false
  tracks : e.tracks = List.replicate meAnalyticsMaxTracks {}
  ruleFactStates : e.ruleFactStates = List.replicate meAnalyticsMaxTracks {}
  trigger : e.triggerPending = false
  absent : e.absentSinceValid = false
  update : e.updatePending = false
  pendingTrackIds : e.pendingTrackIds = []
  cooldown : e.cooldownUntilValid = false

theorem cleared_clearRuntime (e : MeEventEngine) : Cleared (clearRuntime e) :=
  ⟨rfl, rfl, rfl, rfl, rfl, rfl, rfl, rfl⟩

/-- An accepted observation runs in the engine it finds, or in a cleared one. -/
theorem process_accepting (hw : Wf e) (hacc : accepts e o = true) :
    meObservationValidate o = .ok () ∧
    (resets e o = true → ∃ e', Cleared e' ∧ e'.config = e.config ∧ accepting e o = standing e' o) ∧
    (resets e o = false → accepting e o = standing e o) ∧
    (meEventEngineProcess e (some o)).engine = (processAccepted (accepting e o) o).engine ∧
    (meEventEngineProcess e (some o)).emitted =
      (if resets e o then (endAtLast e .streamReset).emitted else []) ++
        (processAccepted (accepting e o) o).emitted := by
  rcases process_cases hw o with ⟨hno, -⟩ | ⟨-, hv, e₁, ends, n, hp, hcase⟩
  · rw [hacc] at hno
    cases hno
  have hkept : resets e o = false → accepting e o = standing e o := fun hr => by
    rw [accepting, if_neg (by rw [hr]; exact Bool.false_ne_true)]
  refine ⟨hv, fun hr => ?_, hkept, ?_⟩
  · rcases hcase with ⟨hno, -, -⟩ | ⟨-, e', heq, -, hf, -⟩
    · rw [hr] at hno
      cases hno
    · refine ⟨clearRuntime e', cleared_clearRuntime e', ?_, ?_⟩
      · exact congrArg Prod.fst (configOf_of_fixed hf)
      · rw [accepting, if_pos hr, heq]
  · rw [hp]
    rcases hcase with ⟨hr, rfl, rfl⟩ | ⟨hr, e', heq, -, -, rfl | rfl⟩
    · rw [hkept hr, hr]
      exact ⟨rfl, rfl⟩
    · rw [accepting, if_pos hr, if_pos hr, heq]
      exact ⟨rfl, rfl⟩
    · rw [accepting, if_pos hr, if_pos hr, heq]
      exact ⟨rfl, rfl⟩

theorem process_refused (hw : Wf e) (hno : accepts e o = false) :
    (meEventEngineProcess e (some o)).engine = e ∧
      (meEventEngineProcess e (some o)).emitted = [] := by
  rcases process_cases hw o with ⟨-, ret, hp⟩ | ⟨hacc, -⟩
  · rw [hp]
    exact ⟨rfl, rfl⟩
  · rw [hno] at hacc
    cases hacc

theorem endAtLast_ends (e : MeEventEngine) (reason : MeEventReason) :
    ∀ r ∈ (endAtLast e reason).emitted, r.phase = .end_ := by
  unfold endAtLast
  split
  · next hact =>
    rcases emitEnd_eq e.lastObservation reason (latestPersonCount e)
      (observationTimeline e.config e.lastObservation) false (Bool.and_eq_true_iff.mp hact).1 with
      ⟨-, heq⟩ | ⟨e', r, heq, -, -, -, hphase, -⟩
    · rw [heq]
      exact fun _ h => nomatch h
    · rw [heq]
      exact fun x hx => List.mem_singleton.mp hx ▸ hphase
  · exact fun _ h => nomatch h

/-- A call that cuts clears the engine, or it fails and changes nothing. -/
structure Cuts (e : MeEventEngine) (r : Outcome) : Prop where
  failed : r.failed = true → r.engine = e ∧ r.emitted = []
  done : r.failed = false → Cleared r.engine
  ends : ∀ x ∈ r.emitted, x.phase = .end_

theorem Cuts.refused (e : MeEventEngine) (err : Bytes) : Cuts e ⟨e, [], .error err⟩ :=
  ⟨fun _ => ⟨rfl, rfl⟩, (fun h => nomatch h), fun _ h => nomatch h⟩

theorem Cuts.cleared {e' e'' : MeEventEngine} {reason : MeEventReason}
    {ends : List MeAnalyticsEvent} (h : Cleared e'')
    (heq : endAtLast e reason = ⟨e', ends, .ok ends.length⟩) (n : Nat) :
    Cuts e ⟨e'', ends, .ok n⟩ :=
  ⟨(fun h => nomatch h), fun _ => h, by simpa only [heq] using endAtLast_ends e reason⟩

theorem close_cuts (hw : Wf e) (reason : MeEventReason) :
    Cuts e (meEventEngineClose e reason) := by
  unfold meEventEngineClose
  split
  · exact .refused e _
  · rcases endAtLast_cases hw reason with ⟨err, heq⟩ | ⟨e', ends, heq, -⟩
    · rw [heq]
      exact .refused e err
    · rw [heq]
      exact .cleared (cleared_clearRuntime e') heq _

theorem reconfigure_cuts (hw : Wf e) (config : Option MeAnalyticsConfig) (configVersion : Nat) :
    Cuts e (meEventEngineReconfigure e config configVersion) := by
  unfold meEventEngineReconfigure
  cases config with
  | none => exact .refused e _
  | some config =>
    simp only
    split
    · exact .refused e _
    split
    · exact .refused e _
    · rcases endAtLast_cases hw (if config.enabled then .reconfigured else .analyticsDisabled) with
        ⟨err, heq⟩ | ⟨e', ends, heq, -⟩
      · rw [heq]
        exact .refused e err
      · rw [heq]
        exact .cleared ⟨rfl, rfl, rfl, rfl, rfl, rfl, rfl, rfl⟩ heq _

theorem cleared_init {config : Option MeAnalyticsConfig} {configVersion : Nat}
    (h : meEventEngineInit config configVersion = .ok e) : Cleared e := by
  unfold meEventEngineInit at h
  split at h
  · cases h
  split at h
  · cases h
  · cases h
    exact ⟨rfl, rfl, rfl, rfl, rfl, rfl, rfl, rfl⟩

/-- What a call adds to the history, and the engine and records it leaves. -/
inductive Marked (h : List Mark) (e : MeEventEngine) (r : Outcome) : List Mark → Prop where
  | nothing (hengine : r.engine = e) (hemitted : r.emitted = []) : Marked h e r []
  | cut (hcleared : Cleared r.engine) (hends : ∀ x ∈ r.emitted, x.phase = .end_) :
      Marked h e r [.cut r.emitted]
  | turn (o : MeNormalizedObservation) (hv : meObservationValidate o = .ok ())
      (hahead : e.active = true → e.order.frameId < o.frameId)
      (hengine : r.engine = (processAccepted (standing e o) o).engine)
      (hemitted : r.emitted = (processAccepted (standing e o) o).emitted) :
      Marked h e r [.turn (turnOf h (standing e o) o)]
  | reset (o : MeNormalizedObservation) (e' : MeEventEngine) (ends : List MeAnalyticsEvent)
      (hv : meObservationValidate o = .ok ()) (hcleared : Cleared e')
      (hends : ∀ x ∈ ends, x.phase = .end_)
      (hengine : r.engine = (processAccepted (standing e' o) o).engine)
      (hemitted : r.emitted = ends ++ (processAccepted (standing e' o) o).emitted) :
      Marked h e r [.turn (turnOf (.cut ends :: h) (standing e' o) o), .cut ends]

theorem Cuts.marked {r : Outcome} (hc : Cuts e r) (h : List Mark) :
    Marked h e r (if r.failed then [] else [.cut r.emitted]) := by
  cases hf : r.failed with
  | true => exact .nothing (hc.failed hf).1 (hc.failed hf).2
  | false => exact .cut (hc.done hf) hc.ends

theorem Call.marked (hw : Wf e) (h : List Mark) (c : Call) :
    Marked h e (c.apply e) (c.marks h e) := by
  cases c with
  | close reason => exact (close_cuts hw reason).marked h
  | reconfigure config configVersion => exact (reconfigure_cuts hw config configVersion).marked h
  | process observation =>
    cases observation with
    | none => exact .nothing rfl rfl
    | some o =>
      simp only [Call.marks, Call.apply]
      cases hacc : accepts e o with
      | false =>
        obtain ⟨hengine, hemitted⟩ := process_refused hw hacc
        exact .nothing hengine hemitted
      | true =>
        obtain ⟨hv, hreset, hkept, hengine, hemitted⟩ := process_accepting hw hacc
        rw [if_pos rfl]
        cases hr : resets e o with
        | false =>
          rw [hkept hr] at hengine hemitted ⊢
          rw [hr] at hemitted
          refine .turn o hv (fun ha => ?_) hengine hemitted
          -- without a reset the epoch is the one the engine stands in
          simp only [resets, Bool.or_eq_false_iff] at hr
          have hahead := ahead_of_accepts hacc (by rw [hr.1]; exact Bool.false_ne_true)
            (hw.ordered ha).1
          have hsame : classification e o = (meObservationOrderClassify e.order o).2 := by
            rw [classification, if_neg (by rw [hr.1]; exact Bool.false_ne_true)]
          rcases hahead with hepoch | ⟨-, hframe⟩
          · have hadv : classification e o = .epochAdvance := by
              rw [hsame, meObservationOrderClassify, hv]
              simp [(hw.ordered ha).1, hepoch, Nat.lt_asymm hepoch]
            rw [hadv] at hr
            cases hr.2
          · exact hframe
        | true =>
          obtain ⟨e', hcleared, -, heq⟩ := hreset hr
          rw [heq] at hengine hemitted ⊢
          rw [hr] at hemitted
          exact .reset o e' _ hv hcleared (endAtLast_ends e .streamReset) hengine hemitted

end

/-! ## The induction -/

/-- The history of a run holds its records. -/
theorem past_emitted {e : MeEventEngine} (hw : Wf e) (h : List Mark) (calls : List Call) :
    (past h e calls).reverse.flatMap Mark.emitted =
      h.reverse.flatMap Mark.emitted ++ records (runCalls e calls).2 := by
  induction calls generalizing h e with
  | nil => simp [past, runCalls, records]
  | cons c cs ih =>
    have hmarks : (c.marks h e).reverse.flatMap Mark.emitted = (c.apply e).emitted := by
      have hm := Call.marked hw h c
      generalize c.marks h e = marks at hm
      cases hm with
      | nothing hengine hemitted => exact hemitted.symm
      | cut hcleared hends => exact List.append_nil _
      | turn o hv hahead hengine hemitted => exact (List.append_nil _).trans hemitted.symm
      | reset o e' ends hv hcleared hends hengine hemitted =>
        rw [hemitted]
        exact congrArg (ends ++ ·) (List.append_nil _)
    have hrest := ih (Call.apply_good hw c).wf (c.marks h e ++ h)
    rw [List.reverse_append, List.flatMap_append, hmarks, List.append_assoc] at hrest
    exact hrest

/-- A cut has END records only. -/
theorem past_cut {e : MeEventEngine} (hw : Wf e) {h : List Mark} (calls : List Call)
    (hh : ∀ ends, .cut ends ∈ h → ∀ r ∈ ends, r.phase = .end_) :
    ∀ ends, .cut ends ∈ past h e calls → ∀ r ∈ ends, r.phase = .end_ := by
  induction calls generalizing h e with
  | nil => exact hh
  | cons c cs ih =>
    refine ih (Call.apply_good hw c).wf fun ends hmem => ?_
    rcases List.mem_append.mp hmem with hmem | hmem
    · have hm := Call.marked hw h c
      generalize c.marks h e = marks at hm hmem
      cases hm with
      | nothing => cases hmem
      | cut hcleared hends => cases hmem with
        | head => exact hends
        | tail _ hmem => cases hmem
      | turn => cases hmem with
        | tail _ hmem => cases hmem
      | reset o e' ends' hv hcleared hends => cases hmem with
        | tail _ hmem => cases hmem with
          | head => exact hends
          | tail _ hmem => cases hmem
    · exact hh ends hmem

section

variable {Inv : List Mark → MeEventEngine → Prop} {P : List Mark → Turn → Prop}

/-- `Inv` holds behind every cut and is kept by every turn, which satisfies `P`. -/
structure Keeping (Inv : List Mark → MeEventEngine → Prop) (P : List Mark → Turn → Prop) : Prop where
  cut : ∀ h e ends, Cleared e → Inv (.cut ends :: h) e
  turn : ∀ h e o, Inv h e → meObservationValidate o = .ok () →
    (e.active = true → e.order.frameId < o.frameId) →
    P h (turnOf h (standing e o) o) ∧
      Inv (.turn (turnOf h (standing e o) o) :: h) (processAccepted (standing e o) o).engine

/-- The step lemma: what a call adds satisfies `P`. -/
theorem Keeping.step (hk : Keeping Inv P) {e : MeEventEngine} {h : List Mark} (hw : Wf e)
    (hi : Inv h e) (c : Call) :
    Inv (c.marks h e ++ h) (c.apply e).engine ∧
      ∀ t h', .turn t :: h' <:+ c.marks h e ++ h → .turn t :: h' <:+ h ∨ P h' t := by
  have hm := Call.marked hw h c
  generalize c.marks h e = marks at hm
  generalize c.apply e = r at hm
  cases hm with
  | nothing hengine hemitted => exact ⟨hengine ▸ hi, fun t h' hs => .inl hs⟩
  | cut hcleared hends =>
    refine ⟨hk.cut h _ _ hcleared, fun t h' hs => ?_⟩
    rcases List.suffix_cons_iff.mp hs with heq | hs
    · cases heq
    · exact .inl hs
  | turn o hv hahead hengine hemitted =>
    obtain ⟨hP, hInv⟩ := hk.turn h e o hi hv hahead
    refine ⟨hengine ▸ hInv, fun t h' hs => ?_⟩
    rcases List.suffix_cons_iff.mp hs with heq | hs
    · cases heq
      exact .inr hP
    · exact .inl hs
  | reset o e' ends hv hcleared hends hengine hemitted =>
    obtain ⟨hP, hInv⟩ := hk.turn (.cut ends :: h) e' o (hk.cut h e' ends hcleared) hv
      fun ha => by rw [hcleared.active] at ha; cases ha
    refine ⟨hengine ▸ hInv, fun t h' hs => ?_⟩
    rcases List.suffix_cons_iff.mp hs with heq | hs
    · cases heq
      exact .inr hP
    · rcases List.suffix_cons_iff.mp hs with heq | hs
      · cases heq
      · exact .inl hs

/-- **The run lemma**: what every turn keeps holds of the history of every run. -/
theorem past_induct (hk : Keeping Inv P) {e : MeEventEngine} {h : List Mark} (hw : Wf e)
    (hi : Inv h e) (calls : List Call) :
    Inv (past h e calls) (runCalls e calls).1 ∧
      ∀ t h', .turn t :: h' <:+ past h e calls → .turn t :: h' <:+ h ∨ P h' t := by
  induction calls generalizing h e with
  | nil => exact ⟨hi, fun t h' hs => .inl hs⟩
  | cons c cs ih =>
    obtain ⟨hi', hstep⟩ := hk.step hw hi c
    obtain ⟨hInv, hP⟩ := ih (Call.apply_good hw c).wf hi'
    refine ⟨hInv, fun t h' hs => ?_⟩
    rcases hP t h' hs with hs | hp
    · exact hstep t h' hs
    · exact .inr hp

/-- What every turn of a run satisfies. -/
theorem turn_of_past (hk : Keeping Inv P) (hnil : ∀ e, Cleared e → Inv [] e)
    {config : Option MeAnalyticsConfig} {configVersion : Nat} {e : MeEventEngine}
    (hinit : meEventEngineInit config configVersion = .ok e) {calls : List Call} {t : Turn}
    {h : List Mark} (hs : .turn t :: h <:+ past [] e calls) : P h t := by
  rcases (past_induct hk (meEventEngineInit_wf hinit).1 (hnil e (cleared_init hinit)) calls).2 t h
    hs with hs | hp
  · cases List.suffix_nil.mp hs
  · exact hp

end

end FlowAlarm.Engine
