import FlowAlarm.Engine.Gating
import FlowAlarm.Engine.Tracks
import Mathlib.Data.Set.Card

/-!
# The person count over a run

As long as no slot of the track table was wanting, each life in it is the
track's own, so the person count of a turn can be read off the observations
track by track (`person_count_own`): it is the number of ids whose own automaton
counts them (`person_count_automata`), and without a region of interest the
number of persons in the observation who were confirmed and not forgotten since
(`person_count_confirmed`). `everyone_seated_iff` says when no slot was wanting
in a run, `seated_after_update_iff` when none is in the next observation.
-/

namespace FlowAlarm.Engine

open FlowAlarm.Text FlowAlarm.Trace
open Presence (Life Look Subject lifeIn)

/-! ## What the rest of a turn leaves alone -/

section

variable {e : MeEventEngine} {o : MeNormalizedObservation} {summary : MeRuleSummary}
  {personCount : Nat} {now : MeTimeline}

theorem rememberRuleFacts_tracks (facts : List MeRuleFact) :
    (rememberRuleFacts e facts).1.tracks = e.tracks := by
  have go : ∀ (facts : List MeRuleFact) (e : MeEventEngine),
      (rememberRuleFacts.go e facts).1.tracks = e.tracks := by
    intro facts
    induction facts with
    | nil => exact fun _ => rfl
    | cons f facts ih =>
      intro e
      unfold rememberRuleFacts.go
      split
      · rfl
      · exact ih _
  exact go facts (clearRuleFactStates e)

theorem newEventId_tracks {e' : MeEventEngine} {channelId eventId : CStr} {streamEpoch : Nat}
    (h : newEventId e channelId streamEpoch = some (e', eventId)) : e'.tracks = e.tracks := by
  unfold newEventId at h
  split at h
  · cases h
  · dsimp only at h
    split at h
    · cases h
    · cases h
      rfl

theorem emitStart_tracks : (emitStart e o summary personCount now).engine.tracks = e.tracks := by
  unfold emitStart
  cases hid : newEventId e o.channelId o.streamEpoch with
  | none => rfl
  | some p =>
    obtain ⟨e', eventId⟩ := p
    have hkept : e'.tracks = e.tracks := newEventId_tracks hid
    have hfacts := rememberRuleFacts_tracks
      (e := { e' with activeEvent := startEvent e' eventId o summary personCount }) summary.facts
    dsimp only
    generalize rememberRuleFacts _ summary.facts = q at hfacts ⊢
    obtain ⟨e'', fits⟩ := q
    cases fits with
    | false => exact hfacts.trans hkept
    | true => exact hfacts.trans hkept

theorem emitEnd_tracks (reason : MeEventReason) (cooldown : Bool) :
    (emitEnd e o reason personCount now cooldown).engine.tracks = e.tracks := by
  unfold emitEnd applyCooldown
  split
  · rfl
  split
  · rfl
  · dsimp only
    split_ifs
    · split <;> rfl
    · rfl

theorem processIdle_tracks (condition : Bool) :
    (processIdle e o summary personCount condition now).engine.tracks = e.tracks := by
  have hcandidate : (updateTriggerCandidate e condition now).tracks = e.tracks := by
    unfold updateTriggerCandidate
    split_ifs <;> rfl
  unfold processIdle
  dsimp only
  split
  · have hstart : (emitStart (updateTriggerCandidate e condition now) o summary personCount
        now).engine.tracks = _ := emitStart_tracks
    generalize emitStart _ o summary personCount now = r at hstart ⊢
    obtain ⟨e', emitted, ret⟩ := r
    cases ret with
    | error err => exact hstart.trans hcandidate
    | ok started => exact hstart.trans hcandidate
  · exact hcandidate

theorem processAbsent_tracks :
    (processAbsent e o personCount now).engine.tracks = e.tracks := by
  unfold processAbsent
  dsimp only
  have hmark : (if e.absentSinceValid then e
      else { e with absentSinceUs := now.us, absentSinceValid := now.valid }).tracks =
        e.tracks := by
    split <;> rfl
  generalize (if e.absentSinceValid then e
    else { e with absentSinceUs := now.us, absentSinceValid := now.valid }) = e' at hmark ⊢
  split
  · exact (emitEnd_tracks _ _).trans hmark
  · exact hmark

theorem maybeEmitUpdate_tracks :
    (maybeEmitUpdate e o personCount now).engine.tracks = e.tracks := by
  unfold maybeEmitUpdate
  split
  · rfl
  split
  · rfl
  · split <;> rfl

theorem processPresent_tracks :
    (processPresent e o summary personCount now).engine.tracks = e.tracks := by
  unfold processPresent
  dsimp only
  rw [maybeEmitUpdate_tracks]
  split_ifs <;> rfl

theorem processCounted_tracks :
    (processCounted e o personCount now).engine.tracks = e.tracks := by
  unfold processCounted
  dsimp only
  split
  · exact processIdle_tracks _
  · have hfacts : (if e.config.ruleType == .occupancy then (e, true)
        else rememberRuleFacts e (matchingRules e o).facts).1.tracks = e.tracks := by
      split
      · rfl
      · exact rememberRuleFacts_tracks _
    generalize (if e.config.ruleType == .occupancy then (e, true)
      else rememberRuleFacts e (matchingRules e o).facts) = q at hfacts ⊢
    obtain ⟨e', fits⟩ := q
    cases fits with
    | false => exact hfacts
    | true =>
      dsimp only
      split
      · exact processAbsent_tracks.trans hfacts
      · exact processPresent_tracks.trans hfacts

end

/-! ## Runs -/

namespace Turn

def looks (t : Turn) : List (Nat × Look) := looksOf t.config t.observation

/-- What a turn says of one track. Without analytics every track is dropped. -/
def look (k : Nat) (t : Turn) : Option Int × Look :=
  (t.time.known, if t.config.enabled then Presence.lookOf t.looks k else .left)

end Turn

/-- Who is tracked after the turns since the cut, newest first. -/
def rosterAfter : List Turn → List (Subject Nat)
  | [] => []
  | t :: ts =>
    if t.config.enabled then
      Presence.round (presenceRates t.config) meAnalyticsMaxTracks t.time.known t.looks
        (rosterAfter ts)
    else []

/-- Whether `allocate_track` finds a slot for everyone it is called for in the turn. -/
def roomyTurn (t : Turn) (ts : List Turn) : Bool :=
  Presence.roomy (presenceRates t.config) meAnalyticsMaxTracks t.time.known t.looks
    ((rosterAfter ts).map Presence.absent)

def roomyTurns : List Turn → Bool
  | [] => true
  | t :: ts => (!t.config.enabled || roomyTurn t ts) && roomyTurns ts

theorem validateTracks_distinct {i : Nat} {seen tracks : List MeTrackObservation}
    (h : validateTracks i seen tracks = .ok ()) :
    (∀ s ∈ seen, ∀ t ∈ tracks, s.trackId ≠ t.trackId) ∧ (tracks.map (·.trackId)).Nodup := by
  induction tracks generalizing i seen with
  | nil => exact ⟨by simp, List.nodup_nil⟩
  | cons track rest ih =>
    rw [validateTracks] at h
    iterate 3
      split at h
      · cases h
    split at h
    · cases h
    next hdup =>
    have hnew : ∀ s ∈ seen, s.trackId ≠ track.trackId := fun s hs hid =>
      hdup (List.any_eq_true.mpr ⟨s, hs, by simp [hid]⟩)
    obtain ⟨hseen, hrest⟩ := ih h
    refine ⟨fun s hs t ht => ?_, List.nodup_cons.mpr ⟨fun hmem => ?_, hrest⟩⟩
    · rcases List.mem_cons.mp ht with rfl | ht
      · exact hnew s hs
      · exact hseen s (List.mem_append_left _ hs) t ht
    · obtain ⟨t, ht, hid⟩ := List.mem_map.mp hmem
      exact hseen track (List.mem_append_right _ List.mem_cons_self) t ht hid.symm

theorem tracks_distinct {o : MeNormalizedObservation} (h : meObservationValidate o = .ok ()) :
    (o.tracks.map (·.trackId)).Nodup := by
  unfold meObservationValidate at h
  iterate 7
    split at h
    · cases h
  cases hcl : validateClock o with
  | error err => simp only [hcl, bind, Except.bind, reduceCtorEq] at h
  | ok u =>
    simp only [hcl, bind, Except.bind] at h
    iterate 2
      split at h
      · cases h
    cases htr : validateTracks 0 [] o.tracks with
    | error err => simp only [htr, reduceCtorEq] at h
    | ok u => exact (validateTracks_distinct htr).2

/-- The slots hold the roster of the turns since the cut. -/
structure Tracking (h : List Mark) (e : MeEventEngine) : Prop where
  config : ∀ u ∈ turns h, u.config = e.config
  distinct : ∀ u ∈ turns h, (u.observation.tracks.map (·.trackId)).Nodup
  seated : Seated e.tracks (rosterAfter (turns h))

/-- What a turn and those before it are known to be. -/
structure Tracked (h : List Mark) (t : Turn) : Prop where
  config : ∀ u ∈ turns h, u.config = t.config
  distinct : ∀ u ∈ t :: turns h, (u.observation.tracks.map (·.trackId)).Nodup
  count : t.personCount = (rosterAfter (t :: turns h)).countP fun s => s.life.counted

theorem Tracking.turn {h : List Mark} {e : MeEventEngine} {o : MeNormalizedObservation}
    (ht : Tracking h e) (hv : meObservationValidate o = .ok ()) :
    Tracked h (turnOf h (standing e o) o) ∧
      Tracking (.turn (turnOf h (standing e o) o) :: h)
        (processAccepted (standing e o) o).engine := by
  have hconfig : (processAccepted (standing e o) o).engine.config = e.config :=
    congrArg Prod.fst (processAccepted_fixed (e := standing e o) (o := o))
  have hdistinct : ∀ u ∈ turnOf h (standing e o) o :: turns h,
      (u.observation.tracks.map (·.trackId)).Nodup :=
    List.forall_mem_cons.mpr ⟨tracks_distinct hv, ht.distinct⟩
  have hconfigs : ∀ u ∈ turnOf h (standing e o) o :: turns h,
      u.config = (processAccepted (standing e o) o).engine.config :=
    List.forall_mem_cons.mpr ⟨hconfig.symm, fun u hu => (ht.config u hu).trans hconfig.symm⟩
  suffices hboth : (turnOf h (standing e o) o).personCount =
        (rosterAfter (turnOf h (standing e o) o :: turns h)).countP (fun s => s.life.counted) ∧
      Seated (processAccepted (standing e o) o).engine.tracks
        (rosterAfter (turnOf h (standing e o) o :: turns h)) from
    ⟨⟨ht.config, hdistinct, hboth.1⟩, hconfigs, hdistinct, hboth.2⟩
  cases hen : e.config.enabled with
  | false =>
    have hnobody : rosterAfter (turnOf h (standing e o) o :: turns h) = [] := by
      rw [rosterAfter, if_neg (by rw [turnOf, standing, hen]; exact Bool.false_ne_true)]
    have hzero : (turnOf h (standing e o) o).personCount = 0 :=
      if_neg (by rw [standing, hen]; exact Bool.false_ne_true)
    rw [hnobody, processAccepted_disabled (show (standing e o).config.enabled = false from hen)]
    exact ⟨hzero, seated_empty⟩
  | true =>
    have hround : rosterAfter (turnOf h (standing e o) o :: turns h) =
        Presence.round (presenceRates e.config) meAnalyticsMaxTracks
          (observationTimeline e.config o).known (looksOf e.config o) (rosterAfter (turns h)) := by
      rw [rosterAfter, if_pos (by rw [turnOf, standing, hen])]
      rfl
    have hcount : (turnOf h (standing e o) o).personCount =
        (updateTracks (standing e o) o (observationTimeline e.config o)).2 :=
      if_pos (by rw [standing, hen])
    have hseated : Seated (updateTracks (standing e o) o (observationTimeline e.config o)).1.tracks
        (rosterAfter (turnOf h (standing e o) o :: turns h)) := by
      rw [hround]
      exact updateTracks_seated (e := standing e o) ht.seated
    rw [hcount, processAccepted_counted (show (standing e o).config.enabled = true from hen),
      processCounted_tracks]
    exact ⟨updateTracks_count hseated, hseated⟩

theorem tracking_keeping : Keeping Tracking Tracked where
  cut := fun h e ends hc =>
    ⟨(fun _ hu => by cases hu), (fun _ hu => by cases hu), hc.tracks ▸ seated_empty⟩
  turn := fun h e o hi hv _ => hi.turn hv

section

variable {config : Option MeAnalyticsConfig} {configVersion : Nat} {e : MeEventEngine}
  {calls : List Call} {t : Turn} {ts : List Turn} {h : List Mark}

theorem tracked_of_past (hinit : meEventEngineInit config configVersion = .ok e)
    (hs : .turn t :: h <:+ past [] e calls) : Tracked h t :=
  turn_of_past tracking_keeping
    (fun e hc => ⟨(fun _ hu => by cases hu), (fun _ hu => by cases hu), hc.tracks ▸ seated_empty⟩)
    hinit hs

theorem tracking_of_past (hinit : meEventEngineInit config configVersion = .ok e)
    (calls : List Call) : Tracking (past [] e calls) (runCalls e calls).1 :=
  (past_induct tracking_keeping (meEventEngineInit_wf hinit).1
    ⟨(fun _ hu => by cases hu), (fun _ hu => by cases hu), (cleared_init hinit).tracks ▸ seated_empty⟩
    calls).1

theorem unique_rosterAfter : Keyed.Unique Subject.key (rosterAfter ts) := by
  induction ts with
  | nil => exact Keyed.unique_nil
  | cons t ts ih =>
    unfold rosterAfter
    split
    · exact Presence.unique_round ih
    · exact Keyed.unique_nil

theorem looks_keys (t : Turn) : t.looks.map (·.1) = t.observation.tracks.map (·.trackId) := by
  simp [Turn.looks, looksOf]

/-- With a slot for everyone, a track's life is its own. -/
theorem lifeIn_rosterAfter {r : Presence.Rates} (k : Nat)
    (hr : ∀ u ∈ ts, presenceRates u.config = r)
    (hd : ∀ u ∈ ts, (u.observation.tracks.map (·.trackId)).Nodup)
    (hroom : roomyTurns ts = true) :
    lifeIn (rosterAfter ts) k = Presence.lifeAfter r (ts.map (Turn.look k)) := by
  induction ts with
  | nil => rfl
  | cons t ts ih =>
    rw [List.forall_mem_cons] at hr hd
    rw [roomyTurns, Bool.and_eq_true] at hroom
    have hrest := ih hr.2 hd.2 hroom.2
    rw [List.map_cons, Turn.look, Presence.lifeAfter, ← hrest, rosterAfter]
    cases hen : t.config.enabled with
    | false => rfl
    | true =>
      have hfits : roomyTurn t ts = true := by simpa [hen] using hroom.1
      rw [if_pos rfl, if_pos rfl, ← hr.1]
      exact Presence.round_own unique_rosterAfter (looks_keys t ▸ hd.1) hfits

/-- Whoever is present after a turn was seen in it. -/
theorem seen_of_present (hd : (t.observation.tracks.map (·.trackId)).Nodup)
    (hroom : t.config.enabled = true → roomyTurn t ts = true) {k : Nat} {l : Life}
    (hl : lifeIn (rosterAfter (t :: ts)) k = some l) (hp : l.present = true) :
    ∃ input ∈ t.observation.tracks, input.trackId = k := by
  unfold rosterAfter at hl
  split at hl
  · next hen =>
    have hseen := Presence.present_round unique_rosterAfter (looks_keys t ▸ hd) (hroom hen) hl hp
    have hmem : k ∈ t.looks.map (·.1) := by
      by_contra hno
      rw [Presence.lookOf_missed hno] at hseen
      cases hseen
    rw [looks_keys] at hmem
    exact List.mem_map.mp hmem
  · cases hl

/-- The person count goes by the tracks' own lives, and whoever counts is listed. -/
theorem count_own (hinit : meEventEngineInit config configVersion = .ok e)
    (hs : .turn t :: h <:+ past [] e calls) (hroom : roomyTurns (t :: turns h) = true) :
    t.personCount = (t.observation.tracks.map (·.trackId)).countP (fun k =>
      (Presence.lifeAfter (presenceRates t.config) ((t :: turns h).map (Turn.look k))).any
        Life.counted) ∧
    ∀ k, (Presence.lifeAfter (presenceRates t.config) ((t :: turns h).map (Turn.look k))).any
      Life.counted = true → k ∈ t.observation.tracks.map (·.trackId) := by
  have htracked := tracked_of_past hinit hs
  have hrates : ∀ u ∈ t :: turns h, presenceRates u.config = presenceRates t.config :=
    List.forall_mem_cons.mpr ⟨rfl, fun u hu => by rw [htracked.config u hu]⟩
  have hlives : ∀ k, lifeIn (rosterAfter (t :: turns h)) k =
      Presence.lifeAfter (presenceRates t.config) ((t :: turns h).map (Turn.look k)) :=
    fun k => lifeIn_rosterAfter k hrates htracked.distinct hroom
  have hd := (List.forall_mem_cons.mp htracked.distinct).1
  have hnewest : t.config.enabled = true → roomyTurn t (turns h) = true := fun hen => by
    rw [roomyTurns, Bool.and_eq_true] at hroom
    simpa [hen] using hroom.1
  have hall : ∀ k, (lifeIn (rosterAfter (t :: turns h)) k).any Life.counted = true →
      k ∈ t.observation.tracks.map (·.trackId) := fun k hk => by
    obtain ⟨l, hl, hc⟩ := (Option.any_eq_true _ _).mp hk
    have hp : l.present = true := (Bool.and_eq_true_iff.mp (Bool.and_eq_true_iff.mp hc).1).1
    exact List.mem_map.mpr (seen_of_present hd hnewest hl hp)
  refine ⟨?_, fun k hk => hall k ((hlives k).symm ▸ hk)⟩
  rw [htracked.count, Presence.countP_lives unique_rosterAfter hd hall]
  exact List.countP_congr fun k _ => by rw [hlives]

/-- **The person count is the number of listed tracks whose own life counts**: as long as no slot
was wanting it depends on nothing but what each track's looks and their times were since the cut. -/
theorem person_count_own (hinit : meEventEngineInit config configVersion = .ok e)
    (hs : .turn t :: h <:+ past [] e calls) (hroom : roomyTurns (t :: turns h) = true) :
    t.personCount = t.observation.tracks.countP fun input =>
      (Presence.lifeAfter (presenceRates t.config)
        ((t :: turns h).map (Turn.look input.trackId))).any Life.counted := by
  rw [(count_own hinit hs hroom).1, List.countP_map]
  rfl

/-- **The person count is the number of ids whose own automaton counts**, among all there are, as
long as no slot was wanting. What a turn says of an id does not depend on where the observation
lists it, and no id is ever in two slots. -/
theorem person_count_automata (hinit : meEventEngineInit config configVersion = .ok e) :
    (∀ t h, .turn t :: h <:+ past [] e calls → t.config.enabled = true →
      roomyTurns (t :: turns h) = true →
      t.personCount = {k | (Presence.lifeAfter (presenceRates t.config)
        ((t :: turns h).map (Turn.look k))).any Life.counted = true}.ncard ∧
      ∀ tracks, tracks.Perm t.observation.tracks → ∀ k,
        Turn.look k { t with observation := { t.observation with tracks := tracks } } =
          Turn.look k t) ∧
    (((runCalls e calls).1.tracks.filter (·.inUse)).map (·.trackId)).Nodup := by
  refine ⟨fun t h hs hen hroom => ⟨?_, fun tracks hperm k => ?_⟩, ?_⟩
  · obtain ⟨hcount, hlisted⟩ := count_own hinit hs hroom
    have hd := (List.forall_mem_cons.mp (tracked_of_past hinit hs).distinct).1
    have hset : {k | (Presence.lifeAfter (presenceRates t.config)
        ((t :: turns h).map (Turn.look k))).any Life.counted = true} =
        (((t.observation.tracks.map (·.trackId)).filter fun k =>
          (Presence.lifeAfter (presenceRates t.config)
            ((t :: turns h).map (Turn.look k))).any Life.counted).toFinset : Set Nat) := by
      ext k
      rw [Set.mem_ofPred_eq, Finset.mem_coe, List.mem_toFinset, List.mem_filter]
      exact ⟨fun hk => ⟨hlisted k hk, hk⟩, fun hk => hk.2⟩
    rw [hset, Set.ncard_coe_finset, List.toFinset_card_of_nodup (hd.filter _),
      ← List.countP_eq_length_filter, hcount]
  · have hd := (List.forall_mem_cons.mp (tracked_of_past hinit hs).distinct).1
    rw [← looks_keys] at hd
    have hlooks : Presence.lookOf t.looks k = Presence.lookOf (looksOf t.config
        { t.observation with tracks := tracks }) k :=
      Presence.lookOf_perm hd (hperm.symm.map _)
    rw [Turn.look, Turn.look, hlooks]
    rfl
  · have hdistinct := (tracking_of_past hinit calls).seated.distinct
    rwa [Slots.Distinct, keys_trackKey] at hdistinct

/-- **Every visible person is in a slot, marked present, iff no slot was wanting**: iff whenever the
observation came to a person not tracked yet, less than all slots were held. -/
theorem everyone_seated_iff (hinit : meEventEngineInit config configVersion = .ok e)
    (hturns : turns (past [] e calls) = t :: ts) (hen : t.config.enabled = true) :
    (∀ input ∈ t.observation.tracks, (lookAt t.config input).isSeen = true →
      ∃ s ∈ (runCalls e calls).1.tracks,
        s.inUse = true ∧ s.trackId = input.trackId ∧ s.present = true) ↔
      roomyTurn t ts = true := by
  have htracking := tracking_of_past hinit calls
  have hseated := htracking.seated
  have hd := htracking.distinct
  rw [hturns] at hseated hd
  have hround : rosterAfter (t :: ts) = Presence.round (presenceRates t.config)
      meAnalyticsMaxTracks t.time.known t.looks (rosterAfter ts) := if_pos hen
  unfold roomyTurn
  rw [← Presence.everyone_present_iff unique_rosterAfter
    (looks_keys t ▸ (List.forall_mem_cons.mp hd).1), ← hround]
  simp only [hseated.present_iff, Turn.looks, looksOf, List.forall_mem_map]

/-- **After `update_tracks` every visible person is in a slot, marked present**, in every reachable
engine and for every observation that passes the check, iff none of them came to a table that was
full: of the tracks in it before, present or not, and of the persons listed earlier. -/
theorem seated_after_update_iff (hinit : meEventEngineInit config configVersion = .ok e)
    (calls : List Call) {o : MeNormalizedObservation} (hv : meObservationValidate o = .ok ()) :
    (∀ input ∈ o.tracks, (lookAt (runCalls e calls).1.config input).isSeen = true →
      ∃ s ∈ (updateTracks (runCalls e calls).1 o
          (observationTimeline (runCalls e calls).1.config o)).1.tracks,
        s.inUse = true ∧ s.trackId = input.trackId ∧ s.present = true) ↔
      Presence.roomFor meAnalyticsMaxTracks (looksOf (runCalls e calls).1.config o)
        (Slots.keys trackKey (runCalls e calls).1.tracks) = true := by
  have hseated := (tracking_of_past hinit calls).seated
  have hupdated : Seated (updateTracks (runCalls e calls).1 o
      (observationTimeline (runCalls e calls).1.config o)).1.tracks _ := updateTracks_seated hseated
  have hd : ((looksOf (runCalls e calls).1.config o).map (·.1)).Nodup := by
    have hkeys : (looksOf (runCalls e calls).1.config o).map (·.1) = o.tracks.map (·.trackId) := by
      simp [looksOf]
    exact hkeys ▸ tracks_distinct hv
  have hu : Keyed.Unique Subject.key ((rosterAfter (turns (past [] e calls))).map
      Presence.absent) := by
    rw [Keyed.Unique, Presence.keys_absent]
    exact unique_rosterAfter
  have hheld : (Slots.keys trackKey (runCalls e calls).1.tracks).Perm
      (((rosterAfter (turns (past [] e calls))).map Presence.absent).map Subject.key) :=
    Presence.keys_absent.symm ▸ hseated.occupied
  have hroom : Presence.roomy (presenceRates (runCalls e calls).1.config) meAnalyticsMaxTracks
      (observationTimeline (runCalls e calls).1.config o).known
      (looksOf (runCalls e calls).1.config o) _ = _ := Presence.roomy_eq_roomFor hu hheld
  rw [← hroom, ← Presence.everyone_present_iff unique_rosterAfter hd]
  simp only [hupdated.present_iff, looksOf, List.forall_mem_map]

/-- Without a region of interest everyone is seen inside. -/
theorem look_inside (hroi : t.config.roiEnabled = false) (k : Nat) :
    (t.look k).2 ≠ .seen false := by
  have hlook : ∀ input, lookAt t.config input ≠ .seen false := by
    intro input
    have hin : trackInside t.config input.bbox = true := by
      rw [trackInside, hroi]
      rfl
    rw [lookAt, hin]
    split_ifs <;> simp
  unfold Turn.look
  dsimp only
  split
  · rcases Presence.lookOf_cases t.looks k with heq | ⟨x, hx, heq⟩
    · rw [heq]
      simp
    · obtain ⟨input, -, rfl⟩ := List.mem_map.mp hx
      rw [heq]
      exact hlook input
  · simp

/-- **Without a region of interest the count is of confirmed persons**: those seen in the
observation who since the cut were once seen on `confirm_frames` accepted observations in a row, or
for `confirm_ms`, and since then were neither removed nor missed for the grace time. -/
theorem person_count_confirmed (hinit : meEventEngineInit config configVersion = .ok e)
    (hs : .turn t :: h <:+ past [] e calls) (hroom : roomyTurns (t :: turns h) = true)
    (hen : t.config.enabled = true) (hroi : t.config.roiEnabled = false)
    (hframes : t.config.confirmFrames ≤ uint32Max) :
    ∃ persons : List MeTrackObservation,
      persons.Sublist t.observation.tracks ∧ t.personCount = persons.length ∧
      ∀ input ∈ t.observation.tracks, input ∈ persons ↔
        (lookAt t.config input).isSeen = true ∧ ∃ since stretch rest,
          (t :: turns h).map (Turn.look input.trackId) = since ++ (stretch ++ rest) ∧
            Presence.Stretch stretch rest ∧
            Presence.Confirms (presenceRates t.config) stretch ∧
            Presence.Remembered (presenceRates t.config) (stretch ++ rest) since := by
  refine ⟨t.observation.tracks.filter fun input =>
    (Presence.lifeAfter (presenceRates t.config)
      ((t :: turns h).map (Turn.look input.trackId))).any Life.counted, List.filter_sublist, ?_,
    fun input hinput => ?_⟩
  · rw [person_count_own hinit hs hroom, List.countP_eq_length_filter]
  have htracked := tracked_of_past hinit hs
  have hd := (List.forall_mem_cons.mp htracked.distinct).1
  have hmax : 0 < uint32Max := by decide
  have hnow : t.look input.trackId = (t.time.known, lookAt t.config input) := by
    have hmem : (input.trackId, lookAt t.config input) ∈ t.looks :=
      List.mem_map_of_mem (f := fun i => (i.trackId, lookAt t.config i)) hinput
    rw [Turn.look, if_pos hen, Presence.lookOf_of_mem (looks_keys t ▸ hd) hmem]
  have hinside : ∀ x ∈ (t :: turns h).map (Turn.look input.trackId), x.2 ≠ .seen false := by
    intro x hx
    obtain ⟨u, hu, rfl⟩ := List.mem_map.mp hx
    rcases List.mem_cons.mp hu with rfl | hu
    · exact look_inside hroi _
    · exact look_inside (by rw [htracked.config u hu, hroi]) _
  rw [List.mem_filter, and_iff_right hinput, ← Presence.confirmed_iff hmax hframes,
    Option.any_eq_true]
  constructor
  · rintro ⟨l, hl, hc⟩
    simp only [Life.counted, Bool.and_eq_true] at hc
    rw [List.map_cons, hnow] at hl
    refine ⟨(Presence.present_lifeAfter hl).symm.trans hc.1.1, l, ?_, hc.1.2⟩
    rw [List.map_cons, hnow, hl]
  · rintro ⟨hseen, l, hl, hc⟩
    refine ⟨l, hl, ?_⟩
    have hin := Presence.inside_lifeAfter hinside hl
    rw [List.map_cons, hnow] at hl
    rw [Life.counted, Presence.present_lifeAfter hl, hseen, hc, hin]
    rfl

end

/-! ### Three persons, one of them new and one away for a frame -/

def crowdConfig : MeAnalyticsConfig := { demoConfig with confirmFrames := 2 }

def crowdEngine : MeEventEngine := { config := crowdConfig, configVersion := 1 }

/-- Person 8 is missed in frame 3, and person 9 is not confirmed yet in frame 4. -/
def crowdCalls : List Call := [seeing 1 [7, 8], seeing 2 [8, 7], seeing 3 [7], seeing 4 [7, 9, 8]]

theorem person_count_own_demo : ∃ t h, .turn t :: h <:+ past [] crowdEngine crowdCalls ∧
    roomyTurns (t :: turns h) = true ∧ t.personCount = 2 ∧
    t.personCount = t.observation.tracks.countP fun input =>
      (Presence.lifeAfter (presenceRates t.config)
        ((t :: turns h).map (Turn.look input.trackId))).any Life.counted := by
  obtain ⟨t, h, hs, hp⟩ := latest_of_any crowdEngine crowdCalls
    (p := fun t ts => decide (roomyTurns (t :: ts) = true ∧ t.personCount = 2)) (by decide +kernel)
  obtain ⟨hroom, htwo⟩ := of_decide_eq_true hp
  exact ⟨t, h, hs, hroom, htwo,
    @person_count_own (some crowdConfig) 0 crowdEngine _ t h rfl hs hroom⟩

theorem person_count_automata_demo :
    (∃ t h, .turn t :: h <:+ past [] crowdEngine crowdCalls ∧ t.personCount = 2 ∧
      t.personCount = {k | (Presence.lifeAfter (presenceRates t.config)
        ((t :: turns h).map (Turn.look k))).any Life.counted = true}.ncard ∧
      ∀ tracks, tracks.Perm t.observation.tracks → ∀ k,
        Turn.look k { t with observation := { t.observation with tracks := tracks } } =
          Turn.look k t) ∧
    (((runCalls crowdEngine crowdCalls).1.tracks.filter (·.inUse)).map (·.trackId)).Nodup := by
  obtain ⟨hcount, hdistinct⟩ :=
    @person_count_automata (some crowdConfig) 0 crowdEngine crowdCalls rfl
  obtain ⟨t, h, hs, hp⟩ := latest_of_any crowdEngine crowdCalls
    (p := fun t ts => decide (roomyTurns (t :: ts) = true ∧ t.config.enabled = true ∧
      t.personCount = 2)) (by decide +kernel)
  obtain ⟨hroom, hen, htwo⟩ := of_decide_eq_true hp
  exact ⟨⟨t, h, hs, htwo, hcount t h hs hen hroom⟩, hdistinct⟩

theorem everyone_seated_iff_demo : ∃ t ts, turns (past [] crowdEngine crowdCalls) = t :: ts ∧
    t.config.enabled = true ∧
    ((∀ input ∈ t.observation.tracks, (lookAt t.config input).isSeen = true →
      ∃ s ∈ (runCalls crowdEngine crowdCalls).1.tracks,
        s.inUse = true ∧ s.trackId = input.trackId ∧ s.present = true) ↔
      roomyTurn t ts = true) := by
  have henabled : (turns (past [] crowdEngine crowdCalls)).head?.any
      (fun t => t.config.enabled) = true := by decide +kernel
  cases hturns : turns (past [] crowdEngine crowdCalls) with
  | nil =>
    rw [hturns] at henabled
    cases henabled
  | cons t ts =>
    rw [hturns] at henabled
    exact ⟨t, ts, rfl, henabled,
      @everyone_seated_iff (some crowdConfig) 0 crowdEngine _ t ts rfl hturns henabled⟩

/-- The observation that the call `seeing` processes. -/
def listing (frame : Nat) (ids : List Nat) : MeNormalizedObservation :=
  { demoObservation 1 frame with
    tracks := ids.map fun id => ⟨id, .person, .active, ⟨0, 0, 100, 100⟩, 9000⟩ }

theorem seated_after_update_iff_demo :
    (∀ input ∈ (listing 5 [9, 10]).tracks,
      (lookAt (runCalls crowdEngine crowdCalls).1.config input).isSeen = true →
      ∃ s ∈ (updateTracks (runCalls crowdEngine crowdCalls).1 (listing 5 [9, 10])
          (observationTimeline (runCalls crowdEngine crowdCalls).1.config
            (listing 5 [9, 10]))).1.tracks,
        s.inUse = true ∧ s.trackId = input.trackId ∧ s.present = true) ↔
      Presence.roomFor meAnalyticsMaxTracks
        (looksOf (runCalls crowdEngine crowdCalls).1.config (listing 5 [9, 10]))
        (Slots.keys trackKey (runCalls crowdEngine crowdCalls).1.tracks) = true :=
  @seated_after_update_iff (some crowdConfig) 0 crowdEngine rfl crowdCalls (listing 5 [9, 10])
    (by decide +kernel)

/-- 64 persons are confirmed. -/
def fullCalls : List Call := [seeing 1 (List.range' 1 64)]

def fullEngine : MeEventEngine := { config := demoConfig, configVersion := 1 }

/-- **A full table turns a visible person away**: the others are gone, but within their grace. -/
theorem newcomer_turned_away :
    ¬ ∀ (config : Option MeAnalyticsConfig) (configVersion : Nat) (e : MeEventEngine)
      (calls : List Call) (o : MeNormalizedObservation),
      meEventEngineInit config configVersion = .ok e → meObservationValidate o = .ok () →
      ∀ input ∈ o.tracks, (lookAt (runCalls e calls).1.config input).isSeen = true →
        ∃ s ∈ (updateTracks (runCalls e calls).1 o
            (observationTimeline (runCalls e calls).1.config o)).1.tracks,
          s.inUse = true ∧ s.trackId = input.trackId ∧ s.present = true := by
  intro h
  have hvalid : meObservationValidate (listing 2 [65]) = .ok () := by decide +kernel
  have hall := h (some demoConfig) 0 fullEngine fullCalls (listing 2 [65]) rfl hvalid
  have hnot : ¬ ∀ input ∈ (listing 2 [65]).tracks,
      (lookAt (runCalls fullEngine fullCalls).1.config input).isSeen = true →
      ∃ s ∈ (updateTracks (runCalls fullEngine fullCalls).1 (listing 2 [65])
          (observationTimeline (runCalls fullEngine fullCalls).1.config
            (listing 2 [65]))).1.tracks,
        s.inUse = true ∧ s.trackId = input.trackId ∧ s.present = true := by
    decide +kernel
  exact hnot hall

theorem person_count_confirmed_demo :
    ∃ t h, .turn t :: h <:+ past [] crowdEngine crowdCalls ∧ t.personCount = 2 ∧
      ∃ persons : List MeTrackObservation,
        persons.Sublist t.observation.tracks ∧ t.personCount = persons.length ∧
        ∀ input ∈ t.observation.tracks, input ∈ persons ↔
          (lookAt t.config input).isSeen = true ∧ ∃ since stretch rest,
            (t :: turns h).map (Turn.look input.trackId) = since ++ (stretch ++ rest) ∧
              Presence.Stretch stretch rest ∧
              Presence.Confirms (presenceRates t.config) stretch ∧
              Presence.Remembered (presenceRates t.config) (stretch ++ rest) since := by
  obtain ⟨t, h, hs, hp⟩ := latest_of_any crowdEngine crowdCalls
    (p := fun t ts => decide (t.personCount = 2 ∧ roomyTurns (t :: ts) = true ∧
      t.config.enabled = true ∧ t.config.roiEnabled = false ∧
      t.config.confirmFrames ≤ uint32Max)) (by decide +kernel)
  obtain ⟨htwo, hroom, hen, hroi, hframes⟩ := of_decide_eq_true hp
  exact ⟨t, h, hs, htwo,
    @person_count_confirmed (some crowdConfig) 0 crowdEngine _ t h rfl hs hroom hen hroi hframes⟩

end FlowAlarm.Engine
