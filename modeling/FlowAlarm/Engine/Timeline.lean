import FlowAlarm.Engine.Gating

/-!
# The local timeline

Each accepted observation takes its time from one of three clocks: its PTS, the
capture clock or the frame number. Between successive observations of a stream
that time never runs backwards as long as both take it from the same clock
(`timeline_onward`); where the clock changes it may.
-/

namespace FlowAlarm.Engine

open FlowAlarm.Text FlowAlarm.Trace

/-- Where `observation_timeline` takes its time from. -/
inductive Clock where
  | pts (timebase : MeTimebase)
  | capture
  | frames (fps : Int)
  deriving DecidableEq

def clockOf (config : MeAnalyticsConfig) (o : MeNormalizedObservation) : Clock :=
  if (ptsToUs o).isSome then .pts o.sourceTimebase
  else if (o.clockState == .synced || o.clockState == .estimated) && 0 < o.captureTimeUs then
    .capture
  else .frames config.fps

/-- Two turns take their time from one clock; the capture clock does not step back between them. -/
structure SameClock (u t : Turn) : Prop where
  clock : clockOf u.config u.observation = clockOf t.config t.observation
  capture : clockOf t.config t.observation = .capture →
    u.observation.captureTimeUs ≤ t.observation.captureTimeUs

/-- `t` comes behind `u` in a stream. -/
structure Behind (u t : MeNormalizedObservation) : Prop where
  frame : u.frameId < t.frameId
  pts : u.sourcePtsValid = true → t.sourcePtsValid = true → u.sourcePts ≤ t.sourcePts

/-! ## Clocks -/

theorem scaleToUs_mono {a b numerator denominator : Nat} (hab : a ≤ b) {x y : Int}
    (hx : scaleToUs a numerator denominator = some x)
    (hy : scaleToUs b numerator denominator = some y) : x ≤ y := by
  unfold scaleToUs at hx hy
  split at hx
  · cases hx
  · next hden =>
    rw [if_neg hden] at hy
    dsimp only at hx hy
    split at hx
    · cases hx
    · split at hy
      · cases hy
      · cases hx
        cases hy
        exact Int.ofNat_le.mpr
          (Nat.div_le_div_right (Nat.mul_le_mul_right _ (Nat.mul_le_mul_right _ hab)))

theorem ptsToUs_cases {o : MeNormalizedObservation} {us : Int} (h : ptsToUs o = some us) :
    o.sourcePtsValid = true ∧ 0 ≤ o.sourcePts ∧
      scaleToUs o.sourcePts.toNat o.sourceTimebase.num o.sourceTimebase.den = some us := by
  unfold ptsToUs at h
  split at h
  · cases h
  · next hno =>
    simp only [Bool.or_eq_true, Bool.not_eq_true', decide_eq_true_eq, beq_iff_eq, not_or,
      Bool.not_eq_false, not_lt] at hno
    exact ⟨hno.1.1.1, hno.1.1.2, h⟩

/-- The timeline of an observation, by its clock. -/
inductive Timed (config : MeAnalyticsConfig) (o : MeNormalizedObservation) (us : Int) : Clock → Prop
  | pts (h : ptsToUs o = some us) : Timed config o us (.pts o.sourceTimebase)
  | capture (h : us = o.captureTimeUs) : Timed config o us .capture
  | frames (h : scaleToUs (o.frameId - 1) 1 config.fps.toNat = some us) :
      Timed config o us (.frames config.fps)

theorem observationTimeline_timed (config : MeAnalyticsConfig) (o : MeNormalizedObservation)
    (hv : (observationTimeline config o).valid = true) :
    Timed config o (observationTimeline config o).us (clockOf config o) := by
  unfold clockOf
  unfold observationTimeline at hv ⊢
  cases hp : ptsToUs o with
  | some us => exact .pts hp
  | none =>
    rw [hp] at hv
    dsimp only [Option.isSome_none] at hv ⊢
    rw [if_neg Bool.false_ne_true]
    by_cases hcap : ((o.clockState == .synced || o.clockState == .estimated) &&
        decide (0 < o.captureTimeUs)) = true
    · rw [if_pos hcap, if_pos hcap]
      exact .capture rfl
    · rw [if_neg hcap] at hv
      rw [if_neg hcap, if_neg hcap]
      by_cases hfps : (decide (0 < config.fps) && decide (0 < o.frameId)) = true
      · rw [if_pos hfps] at hv ⊢
        cases hs : scaleToUs (o.frameId - 1) 1 config.fps.toNat with
        | none =>
          rw [hs] at hv
          cases hv
        | some us => exact .frames hs
      · rw [if_neg hfps] at hv
        cases hv

/-- On one clock the timeline follows the order of the stream. -/
theorem timeline_le {u t : Turn} (hb : Behind u.observation t.observation) (hc : SameClock u t)
    (hu : u.time.valid = true) (ht : t.time.valid = true) : u.time.us ≤ t.time.us := by
  have htu := observationTimeline_timed u.config u.observation hu
  have htt := observationTimeline_timed t.config t.observation ht
  have hclock := hc.clock
  have hcapture := hc.capture
  change Timed _ _ u.time.us _ at htu
  change Timed _ _ t.time.us _ at htt
  generalize clockOf u.config u.observation = cu at htu hclock
  generalize clockOf t.config t.observation = ct at htt hclock hcapture
  generalize u.time.us = x at htu ⊢
  generalize t.time.us = y at htt ⊢
  cases htu with
  | pts hx =>
    cases htt with
    | pts hy =>
      have hbase : u.observation.sourceTimebase = t.observation.sourceTimebase := by
        simpa using hclock
      obtain ⟨hvx, -, hx⟩ := ptsToUs_cases hx
      obtain ⟨hvy, -, hy⟩ := ptsToUs_cases hy
      rw [hbase] at hx
      exact scaleToUs_mono (Int.toNat_le_toNat (hb.pts hvx hvy)) hx hy
    | capture => cases hclock
    | frames => cases hclock
  | capture hx =>
    cases htt with
    | capture hy =>
      rw [hx, hy]
      exact hcapture rfl
    | pts => cases hclock
    | frames => cases hclock
  | frames hx =>
    cases htt with
    | frames hy =>
      have hfps : u.config.fps = t.config.fps := by simpa using hclock
      rw [hfps] at hx
      exact scaleToUs_mono (Nat.sub_le_sub_right hb.frame.le 1) hx hy
    | pts => cases hclock
    | capture => cases hclock

/-! ## Runs -/

/-- The accepted observations of a history, newest first. -/
def allTurns (m : List Mark) : List Turn :=
  m.filterMap fun
    | .turn t => some t
    | .cut _ => none

/-- Between successive accepted observations of a stream whose turns are `related` the local
timeline does not run backwards. -/
def Forwards (related : Turn → Turn → Prop) (e : MeEventEngine) (calls : List Call) : Prop :=
  ∀ newer t u older, allTurns (past [] e calls) = newer ++ t :: u :: older →
    u.observation.channelId = t.observation.channelId →
    u.observation.streamEpoch = t.observation.streamEpoch →
    u.time.valid = true → t.time.valid = true → related u t → u.time.us ≤ t.time.us

section

variable {e : MeEventEngine} {calls : List Call}

theorem allTurns_append (m n : List Mark) : allTurns (m ++ n) = allTurns m ++ allTurns n :=
  List.filterMap_append

theorem allTurns_marks (h : List Mark) (e : MeEventEngine) (c : Call) :
    (allTurns (c.marks h e)).map (·.observation) = c.accepted e := by
  cases c with
  | close reason =>
    simp only [Call.marks]
    split <;> rfl
  | reconfigure config configVersion =>
    simp only [Call.marks]
    split <;> rfl
  | process observation =>
    cases observation with
    | none => rfl
    | some o =>
      simp only [Call.marks, Call.accepted]
      split
      · split <;> rfl
      · rfl

theorem allTurns_past (h : List Mark) (e : MeEventEngine) (calls : List Call) :
    (allTurns (past h e calls)).map (·.observation) =
      (acceptedObservations e calls).reverse ++ (allTurns h).map (·.observation) := by
  induction calls generalizing h e with
  | nil => rfl
  | cons c cs ih =>
    have hone : (c.accepted e).reverse = c.accepted e := by
      rcases Call.accepted_eq (e := e) (c := c) with hnil | ⟨o, -, -, hsingle⟩
      · rw [hnil]
        rfl
      · rw [hsingle]
        rfl
    show (allTurns (past (c.marks h e ++ h) (c.apply e).engine cs)).map _ = _
    rw [ih, allTurns_append, List.map_append, allTurns_marks, acceptedObservations,
      List.reverse_append, hone, List.append_assoc]

/-- What is accepted on the channel and in the epoch of the order record comes behind it. -/
theorem behind_of_accepts {a o : MeNormalizedObservation} (hacc : accepts e o = true)
    (hsame : ¬(e.haveStream && e.channelId != o.channelId) = true) (hord : e.order = orderCommit a)
    (hep : a.streamEpoch = o.streamEpoch) : Behind a o := by
  have hclass : classification e o = (meObservationOrderClassify e.order o).2 := by
    rw [classification, if_neg hsame]
  rw [accepts, hclass, meObservationOrderClassify, hord] at hacc
  simp only [orderCommit, Bool.not_true, Bool.false_eq_true, if_false, hep, lt_self_iff_false]
    at hacc
  split at hacc
  · simp at hacc
  split at hacc
  · simp at hacc
  next hne =>
  split at hacc
  · simp at hacc
  next hlt =>
  split at hacc
  · simp at hacc
  next hpts =>
  rw [beq_iff_eq] at hne
  refine ⟨by omega, fun hu ht => ?_⟩
  simp only [hu, ht, Bool.and_true, Bool.true_and, decide_eq_true_eq] at hpts
  omega

/-- Successive accepted observations of a stream come one behind the other. -/
theorem accepted_behind (hw : Wf e) (hst : Standing e []) {pre suf : List MeNormalizedObservation}
    {a b : MeNormalizedObservation} (hsplit : acceptedObservations e calls = pre ++ a :: b :: suf)
    (hch : a.channelId = b.channelId) (hep : a.streamEpoch = b.streamEpoch) : Behind a b := by
  induction calls using List.reverseRecOn generalizing suf with
  | nil => simp [acceptedObservations] at hsplit
  | append_singleton cs c ih =>
    rw [acceptedObservations_snoc] at hsplit
    rcases Call.accepted_eq (e := (runCalls e cs).1) (c := c) with hnil | ⟨o, rfl, hacc, hone⟩
    · rw [hnil, List.append_nil] at hsplit
      exact ih hsplit
    · rw [hone] at hsplit
      rcases List.eq_nil_or_concat suf with rfl | ⟨suf', x, rfl⟩
      · have hsplit : acceptedObservations e cs ++ [o] = (pre ++ [a]) ++ [b] := by
          rw [hsplit]
          simp
        obtain ⟨hos, hlast⟩ := List.append_inj' hsplit rfl
        obtain rfl : o = b := (List.cons.inj hlast).1
        have hstand : Standing (runCalls e cs).1 (pre ++ [a]) := by
          have := hst.run hw cs
          rwa [List.nil_append, hos] at this
        have hstream : (runCalls e cs).1.haveStream = true := by
          by_contra hno
          have := hstand.fresh (by simpa using hno)
          simp at this
        obtain ⟨os', a', hos', hach, hord⟩ := hstand.latest hstream
        obtain ⟨-, hlast⟩ := List.append_inj' hos' rfl
        obtain rfl : a = a' := (List.cons.inj hlast).1
        exact behind_of_accepts hacc (by simp [← hach, hch]) hord hep
      · have hsplit : acceptedObservations e cs ++ [o] = (pre ++ a :: b :: suf') ++ [x] := by
          rw [hsplit]
          simp
        exact ih (List.append_inj' hsplit rfl).1

/-- **On one clock the local timeline never runs backwards** between successive accepted
observations of a stream. -/
theorem timeline_onward {config : Option MeAnalyticsConfig} {configVersion : Nat}
    (hinit : meEventEngineInit config configVersion = .ok e) (calls : List Call) :
    Forwards SameClock e calls := by
  intro newer t u older hsplit hch hep hu ht hclock
  have hpast := allTurns_past [] e calls
  rw [hsplit] at hpast
  have haccepted : acceptedObservations e calls = older.reverse.map (·.observation) ++
      u.observation :: t.observation :: newer.reverse.map (·.observation) := by
    have hrev := congrArg List.reverse hpast
    simp only [List.map_append, List.map_cons, List.reverse_append, List.reverse_cons,
      List.reverse_reverse, allTurns, List.filterMap_nil, List.map_nil, List.reverse_nil,
      List.nil_append, List.append_assoc, List.cons_append] at hrev
    rw [← hrev, List.map_reverse, List.map_reverse]
  obtain ⟨hw, -⟩ := meEventEngineInit_wf hinit
  exact timeline_le (accepted_behind hw (Standing.init hinit) haccepted hch hep) hclock hu ht

end

/-! ### A frame without a PTS -/

/-- The frames 1 to 3 of a stream at 10 frames a second; the second has no PTS. -/
def gapCalls : List Call :=
  [.process (some { demoObservation 1 1 with
      sourcePts := 90000000, sourcePtsValid := true, sourceTimebase := ⟨1, 90000⟩ }),
    .process (some (demoObservation 1 2)),
    .process (some { demoObservation 1 3 with
      sourcePts := 90018000, sourcePtsValid := true, sourceTimebase := ⟨1, 90000⟩ })]

/-- The timeline goes from 1000 s back to 0.1 s. -/
theorem timeline_backwards : meEventEngineInit (some demoConfig) 0 = .ok demoEngine ∧
    ¬ Forwards (fun _ _ => True) demoEngine gapCalls := by
  have hfacts : (allTurns (past [] demoEngine gapCalls)).map (fun t =>
      (t.observation.channelId, t.observation.streamEpoch, t.time.valid, t.time.us)) =
      [((demoObservation 1 1).channelId, 1, true, 1000200000),
        ((demoObservation 1 1).channelId, 1, true, 100000),
        ((demoObservation 1 1).channelId, 1, true, 1000000000)] := by
    decide +kernel
  refine ⟨rfl, fun h => ?_⟩
  obtain ⟨v, rest, hall, -, hrest⟩ := List.map_eq_cons_iff.mp hfacts
  obtain ⟨t, rest', rfl, ht, hrest⟩ := List.map_eq_cons_iff.mp hrest
  obtain ⟨u, older, rfl, hu, -⟩ := List.map_eq_cons_iff.mp hrest
  simp only [Prod.mk.injEq] at ht hu
  have hle := h [v] t u older hall (hu.1.trans ht.1.symm) (hu.2.1.trans ht.2.1.symm) hu.2.2.1
    ht.2.2.1 trivial
  rw [hu.2.2.2, ht.2.2.2] at hle
  exact absurd hle (by decide)

theorem timeline_onward_demo : Forwards SameClock demoEngine gapCalls :=
  @timeline_onward demoEngine (some demoConfig) 0 rfl gapCalls

end FlowAlarm.Engine
