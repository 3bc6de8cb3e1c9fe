import FlowAlarm.Data.Names
import FlowAlarm.Engine.Gating

/-!
# When an event tells of a change

An UPDATE comes no sooner than the update interval behind the record before it,
and at the first turn where the condition holds, a change is pending and the
interval is over (`updates_paced`). A count that changed and came back while the
interval ran is told as COUNT_CHANGED with the old count (`count_changed_iff`),
and from the second UPDATE of an event on the tracks of the earlier ones are
named again (`names_fresh_iff`, `tracks_named_again`).
-/

namespace FlowAlarm.Engine

open FlowAlarm.Text FlowAlarm.Trace
open FlowAlarm.Data (gather gather_append gather_gather gather_append_eq_iff)

def Turn.recorded (t : Turn) : Bool := !t.emitted.isEmpty

/-- The turn of the latest record. -/
def lastRecord (ts : List Turn) : Option Turn := ts.find? Turn.recorded

/-- The turns behind the latest record. -/
def sinceRecord (ts : List Turn) : List Turn := ts.takeWhile fun u => !u.recorded

/-- The update interval between `u` and `t` is over, or cannot be measured. -/
def IntervalOver (u t : Turn) : Prop :=
  u.time.valid = false ∨ t.time.valid = false ∨ Apart u t t.config.updateIntervalMs

instance (u t : Turn) : Decidable (IntervalOver u t) := inferInstanceAs (Decidable (_ ∨ _))

/-- At `v` the event differs from what the record of `u` says. -/
def Differs (u v : Turn) : Prop := v.changes u.personCount = true

instance (u v : Turn) : Decidable (Differs u v) := inferInstanceAs (Decidable (_ = true))

/-- The change is seen while the condition holds. -/
def Changed (u v : Turn) : Prop := v.condition = true ∧ Differs u v

instance (u v : Turn) : Decidable (Changed u v) := inferInstanceAs (Decidable (_ ∧ _))

/-- The record before an UPDATE at `t` is of its event, and the interval behind it is over. -/
def Spaced (t : Turn) (earlier : List Turn) : Prop :=
  t.emits .update → ∃ u, lastRecord earlier = some u ∧ (u.emits .start ∨ u.emits .update) ∧
    IntervalOver u t

/-- An UPDATE comes as soon as there is a `change` to tell and the interval is over. -/
def Prompt (change : Turn → Turn → Prop) (t : Turn) (earlier : List Turn) : Prop :=
  t.active = true → t.condition = true → ∀ u ∈ lastRecord earlier,
    (∃ v ∈ t :: sinceRecord earlier, change u v) → IntervalOver u t → t.emits .update

instance (change : Turn → Turn → Prop) [DecidableRel change] (t : Turn) (earlier : List Turn) :
    Decidable (Prompt change t earlier) :=
  inferInstanceAs (Decidable (_ → _ → ∀ u ∈ lastRecord earlier, _ → _ → _))

section

variable {h : List Mark} {t : Turn}

/-! ## Records and what was told -/

theorem Watching.recorded (hw : Watching h t) : (toldOf t.emitted).isSome = t.recorded := by
  rcases hw.records with hnil | ⟨r, hone, hr⟩
  · rw [Turn.recorded, hnil]
    rfl
  · rw [Turn.recorded, hone, toldOf_one rfl]
    rcases hr.phase with hp | hp | ⟨hp, -⟩ <;> rw [hp] <;> rfl

theorem lastTold_watch {ts : List Turn} (hts : ∀ u ∈ ts, ∃ h', Watching h' u) :
    Watch.lastTold (ts.map Turn.watch) = (lastRecord ts).map Turn.watch := by
  rw [Watch.lastTold, List.find?_map]
  congr 1
  refine List.find?_congr fun u hu => ?_
  obtain ⟨h', hw⟩ := hts u hu
  exact hw.recorded

theorem sinceTold_watch {ts : List Turn} (hts : ∀ u ∈ ts, ∃ h', Watching h' u) :
    Watch.sinceTold (ts.map Turn.watch) = (sinceRecord ts).map Turn.watch := by
  induction ts with
  | nil => rfl
  | cons u ts ih =>
    obtain ⟨h', hw⟩ := hts u List.mem_cons_self
    have hnone : (toldOf u.emitted).isNone = !u.recorded := by
      rw [← hw.recorded]
      cases toldOf u.emitted <;> rfl
    simp only [Watch.sinceTold, sinceRecord, List.map_cons, List.takeWhile_cons] at ih ⊢
    rw [show u.watch.told.isNone = !u.recorded from hnone]
    cases u.recorded with
    | true => rfl
    | false => exact congrArg _ (ih fun v hv => hts v (List.mem_cons_of_mem _ hv))

theorem intervalOver_iff {u : Turn} :
    Watch.tooSoon (watchRates t.config) u.time.known t.time.known = false ↔ IntervalOver u t := by
  have hapart := @apart_iff t u t.config.updateIntervalMs
  have hinterval : (watchRates t.config).interval = t.config.updateIntervalMs * 1000 := rfl
  unfold IntervalOver
  rw [Watch.tooSoon, hinterval, ← hapart]
  cases hu : u.time.valid <;> cases ht : t.time.valid <;>
    simp [MeTimeline.known, known, hu, ht]

/-! ## UPDATE -/

variable {config : Option MeAnalyticsConfig} {configVersion : Nat} {e : MeEventEngine}
  {calls : List Call}

/-- What the watch says of an UPDATE. -/
theorem update_iff (hinit : meEventEngineInit config configVersion = .ok e)
    (hs : .turn t :: h <:+ past [] e calls) (hactive : t.active = true) (hok : t.failed = false) :
    ∃ u, lastRecord (turns h) = some u ∧ (u.emits .start ∨ u.emits .update) ∧
      (t.emits .update ↔ t.condition = true ∧ (∃ v ∈ t :: sinceRecord (turns h), Changed u v) ∧
        IntervalOver u t) := by
  have hw := watching_of_past hinit hs
  have hearlier := watching_earlier hinit hs
  obtain ⟨s, htold⟩ := hw.told
  obtain ⟨u', hlast, hkind, hiff⟩ := Watch.ongoing_iff htold hactive
    (by show (!t.failed) = true; rw [hok]; rfl)
  have hlive : ∀ v ∈ Watch.sinceTold ((turns h).map Turn.watch), v.live = true := by
    obtain ⟨s₀, hs₀, ht, -⟩ := htold.last
    refine hs₀.since_live ?_
    rw [← show t.watch.live = s₀.live.isSome by rw [ht]; rfl]
    exact hactive
  have hlast := (lastTold_watch hearlier).symm.trans hlast
  obtain ⟨u, hu, rfl⟩ := Option.map_eq_some_iff.mp hlast
  have hsince := sinceTold_watch hearlier
  obtain ⟨h', hwu⟩ := hearlier u (List.mem_of_find?_eq_some hu)
  refine ⟨u, hu, ?_, ?_⟩
  · exact hkind.imp (hwu.told_iff .start rfl).mp
      (hwu.told_iff .update rfl).mp
  · rw [← hw.told_iff .update rfl]
    refine hiff.trans (and_congr_right fun _ => and_congr ?_ intervalOver_iff)
    rw [hsince] at hlive ⊢
    rw [← List.map_cons]
    simp only [List.mem_map, exists_exists_and_eq_and]
    have hall : ∀ v ∈ t :: sinceRecord (turns h), v.active = true :=
      List.forall_mem_cons.mpr ⟨hactive, fun v hv => hlive v.watch (List.mem_map_of_mem hv)⟩
    exact exists_congr fun v => and_congr_right fun hv =>
      ⟨fun hc => ⟨hc.2.1, hc.2.2⟩, fun hc => ⟨hall v hv, hc.1, hc.2⟩⟩

/-- An UPDATE is of a turn with an open event that did not fail. -/
theorem update_open (hinit : meEventEngineInit config configVersion = .ok e)
    (hs : .turn t :: h <:+ past [] e calls) (hupdate : t.emits .update) :
    t.active = true ∧ t.failed = false := by
  have hw := watching_of_past hinit hs
  obtain ⟨s, htold⟩ := hw.told
  obtain ⟨hable, hlive⟩ := htold.able ((hw.told_iff .update rfl).mpr hupdate)
  exact ⟨hlive.mpr (by simp), by simpa [Turn.watch] using hable⟩

/-- **UPDATEs keep the interval and lose nothing**: each stands behind it, and each change seen
while the condition holds is told as soon as the interval is over. -/
theorem updates_paced (hinit : meEventEngineInit config configVersion = .ok e)
    (hs : .turn t :: h <:+ past [] e calls) : Spaced t (turns h) ∧
      (t.observation.frameId ≤ uint64Max → Prompt Changed t (turns h)) := by
  constructor
  · intro hupdate
    obtain ⟨hactive, hok⟩ := update_open hinit hs hupdate
    obtain ⟨u, hu, hkind, hiff⟩ := update_iff hinit hs hactive hok
    exact ⟨u, hu, hkind, (hiff.mp hupdate).2.2⟩
  · intro hframe hactive hcond u hu hchange hover
    have hok := (watching_of_past hinit hs).unfailed hactive hframe
    obtain ⟨u', hu', -, hiff⟩ := update_iff hinit hs hactive hok
    obtain rfl : u = u' := Option.some.inj (hu.symm.trans hu')
    exact hiff.mpr ⟨hcond, hchange, hover⟩

end

/-! ### Two people, and a person who steps out of the picture -/

def growCalls : List Call :=
  [.process (some (demoObservation 1 1)),
    .process (some { demoObservation 1 60 with
      tracks := [⟨7, .person, .active, ⟨0, 0, 100, 100⟩, 9000⟩,
        ⟨8, .person, .active, ⟨0, 0, 100, 100⟩, 9000⟩] })]

theorem updates_paced_demo : ∃ t h, .turn t :: h <:+ past [] demoEngine growCalls ∧
    t.emits .update ∧ Spaced t (turns h) ∧
    (t.observation.frameId ≤ uint64Max → Prompt Changed t (turns h)) := by
  obtain ⟨t, h, hs, hp⟩ := latest_of_any demoEngine growCalls
    (p := fun t _ => decide (t.emits .update)) (by decide +kernel)
  exact ⟨t, h, hs, of_decide_eq_true hp,
    @updates_paced h t (some demoConfig) 0 demoEngine _ rfl hs⟩

/-- The only person is missing in frame 60 and back in frame 61. -/
def flickerCalls : List Call :=
  [.process (some (demoObservation 1 1)),
    .process (some { demoObservation 1 60 with tracks := [] }),
    .process (some (demoObservation 1 61))]

/-- The count differed while the person was missing, and no UPDATE tells of it. -/
theorem flicker_not_told : meEventEngineInit (some demoConfig) 0 = .ok demoEngine ∧
    ∃ t h, .turn t :: h <:+ past [] demoEngine flickerCalls ∧
      t.observation.frameId ≤ uint64Max ∧ ¬ Prompt Differs t (turns h) := by
  obtain ⟨t, h, hs, hp⟩ := latest_of_any demoEngine flickerCalls
    (p := fun t ts => decide (t.observation.frameId ≤ uint64Max ∧ ¬ Prompt Differs t ts))
    (by decide +kernel)
  exact ⟨rfl, t, h, hs, of_decide_eq_true hp⟩

/-! ## The tracks of an UPDATE -/

/-- The distinct track ids a record can name, in order of occurrence. -/
def named (ids : List Nat) : List Nat := ids.eraseDups.take meAnalyticsEventMaxTracks

/-- The non-zero track ids of the facts that became fresh, oldest first. -/
def freshIds (ts : List Turn) : List Nat :=
  ((ts.reverse.flatMap Turn.fresh).map (·.trackId)).filter (· != 0)

/-- The turns behind the START of the open event. -/
def sinceStart (ts : List Turn) : List Turn := ts.takeWhile fun u => !decide (u.emits .start)

def updateReason (config : MeAnalyticsConfig) : MeEventReason :=
  if config.ruleType == .occupancy then .countChanged else .direction

section

variable {e : MeEventEngine} {o : MeNormalizedObservation} {summary : MeRuleSummary}
  {personCount : Nat}

theorem addPendingTracks_eq (pending ids : List Nat) :
    addPendingTracks pending ids = gather meAnalyticsEventMaxTracks pending ids := by
  unfold addPendingTracks gather
  congr 1
  funext names x
  unfold Data.addName
  by_cases hx : x ∈ names <;> by_cases hn : names.length < meAnalyticsEventMaxTracks <;>
    simp [hx, hn, Nat.not_le.mpr, Nat.not_lt.mp]

/-- The ids that the summary adds for the unseen ones among `facts`. -/
def unseenIds (e : MeEventEngine) (facts : List MeRuleFact) : List Nat :=
  ((facts.filter fun f => !ruleFactSeen e.ruleFactStates f).map (·.trackId)).filter (· != 0)

theorem summaryAddTrack_eq {s : MeRuleSummary}
    (hlen : s.trackIds.length ≤ meAnalyticsEventMaxTracks) (id : Nat) :
    (summaryAddTrack s id).trackIds =
      gather meAnalyticsEventMaxTracks s.trackIds (if id = 0 then [] else [id]) := by
  unfold summaryAddTrack summaryHasTrack
  by_cases hz : id = 0
  · rw [if_pos hz, if_pos (by simp [hz])]
    rfl
  · rw [if_neg hz]
    show _ = Data.addName _ _ _
    unfold Data.addName
    by_cases hx : id ∈ s.trackIds
    · rw [if_pos (by simp [hx]), if_pos (.inl hx)]
    · by_cases hfull : s.trackIds.length = meAnalyticsEventMaxTracks
      · rw [if_pos (by simp [hfull]), if_pos (.inr hfull.ge)]
      · rw [if_neg (by simp [hz, hx, hfull]), if_neg (by simp only [hx, false_or]; omega)]

theorem takeFact_tracks {s : MeRuleSummary} (hlen : s.trackIds.length ≤ meAnalyticsEventMaxTracks)
    (f : MeRuleFact) : (takeFact e s f).trackIds =
      gather meAnalyticsEventMaxTracks s.trackIds (unseenIds e [f]) := by
  unfold takeFact unseenIds
  by_cases hseen : ruleFactSeen e.ruleFactStates f = true
  · simp only [hseen, if_true]
    rw [List.filter_cons_of_neg (by simp [hseen])]
    rfl
  · have hids : ((([f].filter fun f => !ruleFactSeen e.ruleFactStates f).map
        (·.trackId)).filter (· != 0)) = if f.trackId = 0 then [] else [f.trackId] := by
      by_cases hz : f.trackId = 0 <;> simp [hseen, hz]
    rw [hids]
    dsimp only
    rw [if_neg hseen]
    unfold summaryNewMatch
    dsimp only
    split <;> exact summaryAddTrack_eq (by exact hlen) f.trackId

theorem foldl_takeFact_tracks (facts : List MeRuleFact) {s : MeRuleSummary}
    (hlen : s.trackIds.length ≤ meAnalyticsEventMaxTracks) :
    (facts.foldl (takeFact e) s).trackIds =
      gather meAnalyticsEventMaxTracks s.trackIds (unseenIds e facts) := by
  induction facts generalizing s with
  | nil => rfl
  | cons f facts ih =>
    have hsplit : unseenIds e (f :: facts) = unseenIds e [f] ++ unseenIds e facts := by
      unfold unseenIds
      rw [← List.filter_append, ← List.map_append, ← List.filter_append]
      rfl
    have htracks := takeFact_tracks (e := e) hlen f
    rw [List.foldl_cons, ih (htracks ▸ Data.length_gather_le hlen _), htracks, hsplit, gather_append]

end

section

variable {e : MeEventEngine} {o : MeNormalizedObservation} {summary : MeRuleSummary}
  {personCount : Nat} {condition : Bool} {now : MeTimeline} {r : Outcome}

theorem Ran.update (hr : Ran e o summary personCount condition now r) :
    ∀ x ∈ r.emitted, x.phase = .update → e.active = true ∧
      (marked e summary personCount).updatePending = true ∧
      x.reason = (marked e summary personCount).pendingReason ∧
      x.responsibleTrackIds =
        (marked e summary personCount).pendingTrackIds.take meAnalyticsEventMaxTracks := by
  intro x hx hphase
  cases hr with
  | waits | unstarted | absent | unended | quiet | untold => cases hx
  | starts ha hq event hevent =>
    rw [List.mem_singleton.mp hx, hevent.phase] at hphase
    cases hphase
  | ends ha hc hg e' event hevent =>
    rw [List.mem_singleton.mp hx, hevent.phase] at hphase
    cases hphase
  | updates ha hc states hrem hpending hsoon event hevent hseq hreason htracks =>
    rw [List.mem_singleton.mp hx]
    exact ⟨ha, hpending, hreason, htracks⟩

theorem absentFrom_pending (e : MeEventEngine) (now : MeTimeline) :
    (absentFrom e now).updatePending = e.updatePending ∧
    (absentFrom e now).pendingReason = e.pendingReason ∧
    (absentFrom e now).pendingTrackIds = e.pendingTrackIds := by
  unfold absentFrom
  split <;> exact ⟨rfl, rfl, rfl⟩

/-- A pending change is an old one, or it was marked. -/
theorem Ran.pending (hr : Ran e o summary personCount condition now r)
    (hidle : e.active = false → e.updatePending = false)
    (hup : r.engine.updatePending = true) :
    (e.updatePending = true ∧ r.engine.pendingReason = e.pendingReason) ∨
      ((marked e summary personCount).updatePending = true ∧
        r.engine.pendingReason = (marked e summary personCount).pendingReason) := by
  have hcand := updateTriggerCandidate_pending (e := e) condition now
  have hfrom := absentFrom_pending e now
  cases hr with
  | waits ha => exact absurd (hcand.1.symm.trans hup) (by rw [hidle ha]; simp)
  | unstarted ha => exact absurd (hcand.1.symm.trans hup) (by rw [hidle ha]; simp)
  | starts ha => exact absurd (hcand.1.symm.trans hup) (by rw [hidle ha]; simp)
  | absent => exact .inl ⟨hfrom.1.symm.trans hup, hfrom.2.1⟩
  | unended => exact .inl ⟨hfrom.1.symm.trans hup, hfrom.2.1⟩
  | ends ha hc hg e' event hevent hreason hidle' =>
    exact absurd (hidle'.2.1.symm.trans hup) Bool.false_ne_true
  | quiet => exact .inr ⟨hup, rfl⟩
  | untold => exact .inr ⟨hup, rfl⟩
  | updates => cases hup

theorem Ran.tracks_closed (hr : Ran e o summary personCount condition now r)
    (hidle : e.active = false → e.pendingTrackIds = []) (ha : r.engine.active = false) :
    r.engine.pendingTrackIds = [] := by
  have hcand := updateTriggerCandidate_pending (e := e) condition now
  have hfrom := absentFrom_same e now
  have hmark := marked_same e summary personCount
  cases hr with
  | waits hact => exact hcand.2.trans (hidle hact)
  | unstarted hact => exact hcand.2.trans (hidle hact)
  | starts => cases ha
  | absent hact => exact absurd (hfrom.active.symm.trans ha) (by simp [hact])
  | unended hact => exact absurd (hfrom.active.symm.trans ha) (by simp [hact])
  | ends hact hc hg e' event hevent hreason hidle' => exact hidle'.2.2
  | quiet hact => exact absurd (hmark.active.symm.trans ha) (by simp [hact])
  | untold hact => exact absurd (hmark.active.symm.trans ha) (by simp [hact])
  | updates hact => exact absurd (hmark.active.symm.trans ha) (by simp [hact])

/-- The tracks of an open event: none at its START, and never fewer than before. -/
theorem Ran.tracks_open (hr : Ran e o summary personCount condition now r)
    (ha : r.engine.active = true) :
    (e.active = false ∧ (∃ x ∈ r.emitted, x.phase = .start) ∧
        r.engine.pendingTrackIds = e.pendingTrackIds) ∨
      e.active = true ∧ (∀ x ∈ r.emitted, x.phase ≠ .start) ∧
        r.engine.pendingTrackIds =
          if condition then (marked e summary personCount).pendingTrackIds
          else e.pendingTrackIds := by
  have hsame := updateTriggerCandidate_same (e := e) condition now
  have hcand := updateTriggerCandidate_pending (e := e) condition now
  have hfrom := absentFrom_pending e now
  have hnil : ∀ x ∈ ([] : List MeAnalyticsEvent), x.phase ≠ .start := fun _ h => nomatch h
  cases hr with
  | waits hact => exact absurd (hsame.active.symm.trans ha) (by simp [hact])
  | unstarted hact => exact absurd (hsame.active.symm.trans ha) (by simp [hact])
  | starts hact hq event hevent =>
    exact .inl ⟨hact, ⟨event, List.mem_singleton_self event, hevent.phase⟩, hcand.2⟩
  | absent hact hc => exact .inr ⟨hact, hnil, by rw [hc]; exact hfrom.2.2⟩
  | unended hact hc => exact .inr ⟨hact, hnil, by rw [hc]; exact hfrom.2.2⟩
  | ends hact hc hg e' event hevent hreason hidle' => exact absurd ha (by simp [hidle'.1])
  | quiet hact hc => exact .inr ⟨hact, hnil, by rw [hc]; rfl⟩
  | untold hact hc => exact .inr ⟨hact, hnil, by rw [hc]; rfl⟩
  | updates hact hc states hrem hpending hsoon event hevent =>
    refine .inr ⟨hact, fun x hx hs => ?_, by rw [hc]; rfl⟩
    rw [List.mem_singleton.mp hx, hevent.phase] at hs
    cases hs

end

/-- What an open event has gathered since its START, whatever it has told. -/
structure Pending (h : List Mark) (e : MeEventEngine) : Prop where
  watched : Watched h e
  reason : e.updatePending = true → e.pendingReason = updateReason e.config
  idle : e.active = false → e.pendingTrackIds = []
  tracks : e.active = true → e.pendingTrackIds =
    gather meAnalyticsEventMaxTracks [] (freshIds (sinceStart (turns h)))

/-- What an UPDATE at `t` says. -/
structure Telling (h : List Mark) (t : Turn) : Prop where
  reason : ∀ r ∈ t.emitted, r.phase = .update → r.reason = updateReason t.config
  tracks : ∀ r ∈ t.emitted, r.phase = .update → r.responsibleTrackIds =
    gather meAnalyticsEventMaxTracks [] (freshIds (t :: sinceStart (turns h)))

section

variable {e : MeEventEngine} {o : MeNormalizedObservation} {h : List Mark}

theorem freshIds_cons (t : Turn) (ts : List Turn) :
    freshIds (t :: ts) = freshIds ts ++ (t.fresh.map (·.trackId)).filter (· != 0) := by
  simp [freshIds, List.flatMap_append]

/-- A turn on which the condition does not hold has no fresh facts. -/
theorem fresh_of_absent {t : Turn} (hen : t.config.enabled = true) (hc : t.condition = false) :
    t.fresh = [] := by
  have hnone : matchingFacts t.config t.observation = [] := by
    unfold Turn.condition at hc
    rw [hen, Bool.true_and] at hc
    split at hc
    · next hocc => rw [matchingFacts, if_pos hocc]
    · simpa using hc
  rw [Turn.fresh, freshFacts, hnone]
  rfl

/-- The tracks gathered at a turn on which the condition holds. -/
theorem marked_tracks (hw : Watched h e) (hv : meObservationValidate o = .ok ())
    (ha : e.active = true) (personCount : Nat) :
    let e₁ := counted (standing e o) o
    (marked e₁ (matchingRules e₁ o) personCount).pendingTrackIds =
      gather meAnalyticsEventMaxTracks e.pendingTrackIds
        (((turnOf h (standing e o) o).fresh.map (·.trackId)).filter (· != 0)) := by
  intro e₁
  have hrem : RemembersLast e₁ ((turns h).head?.map (·.observation)) := hw.remembers ha
  have hfresh : (turnOf h (standing e o) o).fresh =
      (matchingFacts e₁.config o).filter fun f => !ruleFactSeen e₁.ruleFactStates f :=
    (List.filter_congr fun f hf => by
      rw [seen_eq (observationValid_of_validate hv) hrem f hf]
      rfl)
  obtain ⟨-, -, hnew⟩ := matchingRules_counts (e := e₁) hv
  have hids : (matchingRules e₁ o).trackIds = gather meAnalyticsEventMaxTracks []
      (((turnOf h (standing e o) o).fresh.map (·.trackId)).filter (· != 0)) := by
    rw [matchingRules_eq hv, foldl_takeFact_tracks _ (Nat.zero_le _), unseenIds, hfresh]
  unfold marked
  dsimp only
  split
  · next hocc =>
    have hnone : (turnOf h (standing e o) o).fresh = [] := by
      rw [hfresh, matchingFacts, if_pos hocc]
      rfl
    rw [hnone]
    split <;> rfl
  · split
    · show addPendingTracks e.pendingTrackIds (matchingRules e₁ o).trackIds = _
      rw [addPendingTracks_eq, hids, gather_gather]
    · next hno =>
      have hnone : (turnOf h (standing e o) o).fresh = [] := (hnew _ hrem).mp (by omega)
      rw [hnone]
      rfl

theorem marked_reason (e : MeEventEngine) (summary : MeRuleSummary) (personCount : Nat)
    (hreason : e.updatePending = true → e.pendingReason = updateReason e.config)
    (hp : (marked e summary personCount).updatePending = true) :
    (marked e summary personCount).pendingReason = updateReason e.config := by
  unfold marked at hp ⊢
  dsimp only at hp ⊢
  by_cases hocc : (e.config.ruleType == .occupancy) = true
  · rw [if_pos hocc] at hp ⊢
    by_cases hcount : (personCount != e.activePersonCount) = true
    · rw [if_pos hcount]
      exact (if_pos hocc).symm
    · rw [if_neg hcount] at hp ⊢
      exact hreason hp
  · rw [if_neg hocc] at hp ⊢
    by_cases hnew : 0 < summary.newMatchCount
    · rw [if_pos hnew]
      exact (if_neg hocc).symm
    · rw [if_neg hnew] at hp ⊢
      exact hreason hp

/-- A turn that does not start the event adds its fresh facts to what is gathered. -/
theorem sinceStart_cons {t : Turn} (hno : ¬ t.emits .start) (ts : List Turn) :
    sinceStart (t :: ts) = t :: sinceStart ts :=
  List.takeWhile_cons_of_pos (by simp [hno])

theorem Pending.marked (hp : Pending h e) (hv : meObservationValidate o = .ok ())
    (ha : e.active = true) :
    let t := turnOf h (standing e o) o
    let e₁ := counted (standing e o) o
    (marked e₁ (matchingRules e₁ o) t.personCount).pendingTrackIds =
      gather meAnalyticsEventMaxTracks [] (freshIds (t :: sinceStart (turns h))) := by
  intro t e₁
  rw [marked_tracks hp.watched hv ha, hp.tracks ha, freshIds_cons, gather_append]

theorem Pending.turn (hp : Pending h e) (hv : meObservationValidate o = .ok ())
    (hahead : e.active = true → e.order.frameId < o.frameId) :
    Telling h (turnOf h (standing e o) o) ∧
      Pending (.turn (turnOf h (standing e o) o) :: h) (processAccepted (standing e o) o).engine := by
  have hw := hp.watched
  have hnext := (hw.turn hv hahead).2
  have hconfig : (processAccepted (standing e o) o).engine.config = e.config :=
    congrArg Prod.fst (processAccepted_fixed (e := standing e o) (o := o))
  cases hen : e.config.enabled with
  | false =>
    have hoff := processAccepted_disabled (e := standing e o) (o := o) hen
    have hemit : (turnOf h (standing e o) o).emitted = [] := congrArg Outcome.emitted hoff
    refine ⟨⟨fun r hr => ?_, fun r hr => ?_⟩, hnext, fun hup => ?_, fun _ => ?_, fun ha => ?_⟩
    · rw [hemit] at hr
      cases hr
    · rw [hemit] at hr
      cases hr
    · rw [hoff] at hup
      cases hup
    · rw [hoff]
      rfl
    · rw [hoff] at ha
      exact absurd (hw.inactive hen) (by rw [show e.active = true from ha]; simp)
  | true =>
    have hran := hw.ran (o := o) hv hen
    have htracks := hp.marked (o := o) hv
    have hreason : ∀ hup, _ := fun hup => marked_reason (counted (standing e o) o)
      (matchingRules (counted (standing e o) o) o) (turnOf h (standing e o) o).personCount
      hp.reason hup
    refine ⟨⟨fun x hx hphase => ?_, fun x hx hphase => ?_⟩, hnext, fun hup => ?_, fun ha => ?_,
      fun ha => ?_⟩
    · obtain ⟨-, hup, hxr, -⟩ := hran.update x hx hphase
      exact hxr.trans (hreason hup)
    · obtain ⟨ha, -, -, hxt⟩ := hran.update x hx hphase
      rw [hxt, htracks ha]
      exact List.take_of_length_le (Data.length_gather_le (Nat.zero_le _) _)
    · rw [hconfig]
      rcases hran.pending hw.idle hup with ⟨hold, heq⟩ | ⟨hnew, heq⟩
      · exact heq.trans (hp.reason hold)
      · exact heq.trans (hreason hnew)
    · exact hran.tracks_closed hp.idle ha
    · rcases hran.tracks_open ha with ⟨hact, hstart, heq⟩ | ⟨hact, hno, heq⟩
      · have hnone : sinceStart (turns (.turn (turnOf h (standing e o) o) :: h)) = [] :=
          List.takeWhile_cons_of_neg (by
            rw [Bool.not_eq_true', decide_eq_false_iff_not, not_not]
            exact hstart)
        rw [heq, hnone]
        exact hp.idle hact
      · have hcons : sinceStart (turns (.turn (turnOf h (standing e o) o) :: h)) =
            turnOf h (standing e o) o :: sinceStart (turns h) :=
          sinceStart_cons (fun ⟨x, hx, hs⟩ => hno x hx hs) _
        rw [hcons, heq]
        split
        · exact htracks hact
        · next hc =>
          have hsees := sees_turn (e := standing e o) (h := h) hv hen hw.idle hw.remembers
          have hcond : (turnOf h (standing e o) o).condition = false :=
            hsees.holds.trans (Bool.eq_false_iff.mpr hc)
          rw [freshIds_cons, fresh_of_absent (t := turnOf h (standing e o) o) hen hcond]
          exact (hp.tracks hact).trans (by rw [List.map_nil, List.filter_nil, List.append_nil])

theorem pending_cleared (hc : Cleared e) (hnil : turns h = []) : Pending h e := by
  refine ⟨watched_cleared hc hnil, fun hu => ?_, fun _ => hc.pendingTrackIds, fun ha => ?_⟩
  · rw [hc.update] at hu
    cases hu
  · rw [hc.active] at ha
    cases ha

theorem telling_of_past {config : Option MeAnalyticsConfig} {configVersion : Nat}
    (hinit : meEventEngineInit config configVersion = .ok e) {calls : List Call} {t : Turn}
    (hs : .turn t :: h <:+ past [] e calls) : Telling h t :=
  turn_of_past ⟨fun _ _ _ hc => pending_cleared hc rfl, fun _ _ _ hi hv hahead => hi.turn hv hahead⟩
    (fun _ hc => pending_cleared hc rfl) hinit hs

end

/-- The turns of the open event, behind its START, up to its latest record. -/
def toldBefore (ts : List Turn) : List Turn := (sinceStart ts).drop (sinceRecord ts).length

/-- The UPDATEs of a run name the tracks of what became fresh behind the record before. -/
def NamesFresh (e : MeEventEngine) (calls : List Call) : Prop :=
  ∀ t h, .turn t :: h <:+ past [] e calls → ∀ r ∈ t.emitted, r.phase = .update →
    r.responsibleTrackIds = named (freshIds (t :: sinceRecord (turns h)))

/-- At every UPDATE the new tracks begin with those named for the event before. -/
def BeginsWithTold (e : MeEventEngine) (calls : List Call) : Prop :=
  ∀ t h, .turn t :: h <:+ past [] e calls → t.emits .update →
    named (freshIds (toldBefore (turns h))) <+:
      (freshIds (t :: sinceRecord (turns h))).eraseDups

theorem sinceStart_eq (ts : List Turn) : sinceStart ts = sinceRecord ts ++ toldBefore ts := by
  have hpre : sinceRecord ts <+: sinceStart ts := by
    induction ts with
    | nil => exact List.prefix_rfl
    | cons u ts ih =>
      cases hu : u.recorded with
      | true =>
        rw [sinceRecord, List.takeWhile_cons_of_neg (by simp [hu])]
        exact List.nil_prefix
      | false =>
        have hnil : u.emitted = [] := by simpa [Turn.recorded] using hu
        have hno : ¬ u.emits .start := fun ⟨x, hx, _⟩ => by
          rw [hnil] at hx
          cases hx
        rw [sinceRecord, List.takeWhile_cons_of_pos (by simp [hu]), sinceStart_cons hno]
        exact List.cons_prefix_cons.mpr ⟨rfl, ih⟩
  obtain ⟨rest, hrest⟩ := hpre
  rw [toldBefore, ← hrest, List.drop_left]

/-- **An UPDATE names its tracks** exactly when they begin with those of the event's earlier
UPDATEs, which the engine never forgets. -/
theorem names_fresh_iff {config : Option MeAnalyticsConfig} {configVersion : Nat}
    {e : MeEventEngine} (hinit : meEventEngineInit config configVersion = .ok e)
    (calls : List Call) : NamesFresh e calls ↔ BeginsWithTold e calls := by
  have hone : ∀ t h, .turn t :: h <:+ past [] e calls → ∀ r ∈ t.emitted, r.phase = .update →
      (r.responsibleTrackIds = named (freshIds (t :: sinceRecord (turns h))) ↔
        named (freshIds (toldBefore (turns h))) <+:
          (freshIds (t :: sinceRecord (turns h))).eraseDups) := by
    intro t h hs r hr hphase
    have hsplit : freshIds (t :: sinceStart (turns h)) =
        freshIds (toldBefore (turns h)) ++ freshIds (t :: sinceRecord (turns h)) := by
      rw [sinceStart_eq, ← List.cons_append]
      simp [freshIds, List.flatMap_append]
    rw [(telling_of_past hinit hs).tracks r hr hphase, hsplit, named, ← Data.gather_eq, named,
      ← Data.gather_eq]
    exact gather_append_eq_iff _ _
  constructor
  · rintro hnames t h hs ⟨r, hr, hphase⟩
    exact (hone t h hs r hr hphase).mp (hnames t h hs r hr hphase)
  · intro hbegins t h hs r hr hphase
    exact (hone t h hs r hr hphase).mpr (hbegins t h hs ⟨r, hr, hphase⟩)

/-! ### Tracks 7, 8 and 9 enter one by one -/

def enterCalls : List Call :=
  [.process (some lineFirst),
    .process (some { demoObservation 1 60 with rules := [lineFact .in 8] }),
    .process (some { demoObservation 1 120 with rules := [lineFact .in 9] })]

/-- The first UPDATE names track 8, the second one tracks 8 and 9. -/
theorem tracks_named_again : meEventEngineInit (some lineConfig) 0 = .ok lineEngine ∧
    (records (runCalls lineEngine enterCalls).2).map (fun r => (r.phase, r.responsibleTrackIds)) =
      [(.start, [7]), (.update, [8]), (.update, [8, 9])] ∧ ¬ NamesFresh lineEngine enterCalls := by
  obtain ⟨t, h, hs, hp⟩ := latest_of_any lineEngine enterCalls
    (p := fun t ts => decide (∃ r ∈ t.emitted, r.phase = .update ∧
      r.responsibleTrackIds ≠ named (freshIds (t :: sinceRecord ts)))) (by decide +kernel)
  obtain ⟨r, hr, hphase, hne⟩ := of_decide_eq_true hp
  exact ⟨rfl, by decide +kernel, fun hnames => hne (hnames t h hs r hr hphase)⟩

theorem names_fresh_demo : NamesFresh lineEngine lineCalls ↔ BeginsWithTold lineEngine lineCalls :=
  @names_fresh_iff (some lineConfig) 0 lineEngine rfl lineCalls

/-! ## COUNT_CHANGED -/

/-- COUNT_CHANGED means that the count is not that of the record before. -/
def CountsChange (e : MeEventEngine) (calls : List Call) : Prop :=
  ∀ pre before r suf, records (runCalls e calls).2 = pre ++ before :: r :: suf →
    r.phase = .update → r.reason = .countChanged → before.personCount ≠ r.personCount

/-- At `t` the update interval is over, and the count, which differed behind the latest record, is
that of the record again. -/
structure Reverted (t : Turn) (earlier : List Turn) : Prop where
  occupancy : t.config.ruleType = .occupancy
  active : t.active = true
  condition : t.condition = true
  record : ∃ u, lastRecord earlier = some u ∧ t.personCount = u.personCount ∧
    (∃ v ∈ sinceRecord earlier, Changed u v) ∧ IntervalOver u t

section

/-- A record of a history is of one of its marks. -/
theorem flatMap_split {m : List Mark} {x : MeAnalyticsEvent} {pre suf : List MeAnalyticsEvent}
    (h : m.reverse.flatMap Mark.emitted = pre ++ x :: suf) :
    ∃ k h', k :: h' <:+ m ∧ ∃ p s, k.emitted = p ++ x :: s ∧
      pre = h'.reverse.flatMap Mark.emitted ++ p := by
  induction m generalizing suf with
  | nil => simp at h
  | cons k m ih =>
    rw [List.reverse_cons, List.flatMap_append, List.flatMap_singleton] at h
    rcases List.append_eq_append_iff.mp h with ⟨mid, rfl, hk⟩ | ⟨mid, hm, hk⟩
    · exact ⟨k, m, List.suffix_rfl, mid, suf, hk, rfl⟩
    · cases mid with
      | nil =>
        rw [List.append_nil] at hm
        exact ⟨k, m, List.suffix_rfl, [], suf, hk.symm, by rw [hm, List.append_nil]⟩
      | cons y mid =>
        obtain ⟨rfl, -⟩ := List.cons_eq_cons.mp hk
        obtain ⟨k', h', hsuf, hrest⟩ := ih hm
        exact ⟨k', h', hsuf.trans (List.suffix_cons _ _), hrest⟩

/-- The records of a history end with the latest of its turns. -/
theorem emitted_lastRecord {h : List Mark} {u : Turn} (hu : lastRecord (turns h) = some u) :
    ∃ pre, h.reverse.flatMap Mark.emitted = pre ++ u.emitted := by
  induction h with
  | nil => cases hu
  | cons k h ih =>
    rw [List.reverse_cons, List.flatMap_append, List.flatMap_singleton]
    cases k with
    | cut ends => cases hu
    | turn v =>
      cases hv : v.recorded with
      | true =>
        have hu : (v :: turns h).find? Turn.recorded = some u := hu
        rw [List.find?_cons_of_pos hv] at hu
        obtain rfl := Option.some.inj hu
        exact ⟨_, rfl⟩
      | false =>
        have hu : (v :: turns h).find? Turn.recorded = some u := hu
        rw [List.find?_cons_of_neg (by simp [hv])] at hu
        obtain ⟨pre, hpre⟩ := ih hu
        have hnil : v.emitted = [] := by simpa [Turn.recorded] using hv
        refine ⟨pre, ?_⟩
        show h.reverse.flatMap Mark.emitted ++ v.emitted = _
        rw [hnil, List.append_nil, hpre]

variable {config : Option MeAnalyticsConfig} {configVersion : Nat} {e : MeEventEngine}
  {calls : List Call} {h : List Mark} {t : Turn}

theorem Watching.single (hw : Watching h t) {r : MeAnalyticsEvent} (hr : r ∈ t.emitted) :
    t.emitted = [r] ∧ r.personCount = t.personCount := by
  rcases hw.records with hnil | ⟨x, hone, hx⟩
  · rw [hnil] at hr
    cases hr
  · rw [hone, List.mem_singleton] at hr
    subst hr
    exact ⟨hone, hx.personCount⟩

theorem past_records (hinit : meEventEngineInit config configVersion = .ok e) :
    (past [] e calls).reverse.flatMap Mark.emitted = records (runCalls e calls).2 :=
  past_emitted (meEventEngineInit_wf hinit).1 [] calls

/-- An UPDATE of a run, with the record before it, is of a turn and the latest one before. -/
theorem update_of_records (hinit : meEventEngineInit config configVersion = .ok e)
    {pre suf : List MeAnalyticsEvent} {before r : MeAnalyticsEvent}
    (hrecords : records (runCalls e calls).2 = pre ++ before :: r :: suf)
    (hphase : r.phase = .update) :
    ∃ t h u, .turn t :: h <:+ past [] e calls ∧ t.emitted = [r] ∧
      lastRecord (turns h) = some u ∧ u.emitted = [before] := by
  have hsplit : (past [] e calls).reverse.flatMap Mark.emitted = (pre ++ [before]) ++ r :: suf := by
    rw [past_records hinit, hrecords]
    simp
  obtain ⟨k, h, hs, p, s, hk, hpre⟩ := flatMap_split hsplit
  have hr : r ∈ k.emitted := by rw [hk]; simp
  cases k with
  | cut ends =>
    have hend := past_cut (meEventEngineInit_wf hinit).1 calls (by simp) ends
      (hs.subset List.mem_cons_self) r hr
    rw [hphase] at hend
    cases hend
  | turn t =>
    obtain ⟨hone, -⟩ := (watching_of_past hinit hs).single hr
    have hk : t.emitted = p ++ r :: s := hk
    obtain ⟨rfl, rfl⟩ : p = [] ∧ s = [] := by
      rw [hone] at hk
      cases p with
      | nil => exact ⟨rfl, (List.cons.inj hk).2.symm⟩
      | cons y p => simp at hk
    obtain ⟨hactive, hok⟩ := update_open hinit hs ⟨r, hr, hphase⟩
    obtain ⟨u, hu, hkind, -⟩ := update_iff hinit hs hactive hok
    obtain ⟨h', hwu⟩ := watching_earlier hinit hs u (List.mem_of_find?_eq_some hu)
    obtain ⟨x, hx⟩ : ∃ x, x ∈ u.emitted := by
      rcases hkind with ⟨x, hx, -⟩ | ⟨x, hx, -⟩ <;> exact ⟨x, hx⟩
    obtain ⟨hux, -⟩ := hwu.single hx
    obtain ⟨front, hfront⟩ := emitted_lastRecord hu
    rw [List.append_nil, hfront, hux] at hpre
    obtain ⟨-, hlast⟩ := List.append_inj' hpre rfl
    obtain rfl : before = x := (List.cons.inj hlast).1
    exact ⟨t, h, u, hs, hone, hu, hux⟩

/-- The record of a turn stands behind that of the latest turn before. -/
theorem records_of_turn (hinit : meEventEngineInit config configVersion = .ok e)
    (hs : .turn t :: h <:+ past [] e calls) {u : Turn} (hu : lastRecord (turns h) = some u)
    {before r : MeAnalyticsEvent} (hbefore : u.emitted = [before]) (hr : t.emitted = [r]) :
    ∃ pre suf, records (runCalls e calls).2 = pre ++ before :: r :: suf := by
  obtain ⟨newer, hnewer⟩ := hs
  obtain ⟨front, hfront⟩ := emitted_lastRecord hu
  refine ⟨front, newer.reverse.flatMap Mark.emitted, ?_⟩
  rw [← past_records hinit, ← hnewer, List.reverse_append, List.reverse_cons, List.flatMap_append,
    List.flatMap_append, hfront, hbefore, List.flatMap_singleton]
  show front ++ [before] ++ t.emitted ++ _ = _
  rw [hr]
  simp

theorem differs_iff {u v : Turn} (hocc : v.config.ruleType = .occupancy) :
    Differs u v ↔ v.personCount ≠ u.personCount := by
  simp [Differs, Turn.changes, hocc]

/-- **COUNT_CHANGED means a changed count** exactly when no update interval is over just when a
count that changed is back at that of the latest record. -/
theorem count_changed_iff (hinit : meEventEngineInit config configVersion = .ok e)
    (hframes : ∀ o, .process (some o) ∈ calls → o.frameId ≤ uint64Max) :
    CountsChange e calls ↔
      ∀ t h, .turn t :: h <:+ past [] e calls → ¬ Reverted t (turns h) := by
  constructor
  · rintro hcounts t h hs ⟨hocc, hactive, hcond, u, hu, hcount, ⟨v, hv, hchanged⟩, hover⟩
    have hgiven := (turn_given (hs.subset List.mem_cons_self)).resolve_left (by simp)
    have hok := (watching_of_past hinit hs).unfailed hactive (hframes _ hgiven)
    obtain ⟨u', hu', hkind, hiff⟩ := update_iff hinit hs hactive hok
    obtain rfl : u = u' := Option.some.inj (hu.symm.trans hu')
    obtain ⟨r, hr, hphase⟩ := hiff.mpr ⟨hcond, ⟨v, List.mem_cons_of_mem _ hv, hchanged⟩, hover⟩
    obtain ⟨hone, hrc⟩ := (watching_of_past hinit hs).single hr
    obtain ⟨h', hwu⟩ := watching_earlier hinit hs u (List.mem_of_find?_eq_some hu)
    obtain ⟨before, hbefore⟩ : ∃ x, x ∈ u.emitted := by
      rcases hkind with ⟨x, hx, -⟩ | ⟨x, hx, -⟩ <;> exact ⟨x, hx⟩
    obtain ⟨hux, hbc⟩ := hwu.single hbefore
    obtain ⟨pre, suf, hrecords⟩ := records_of_turn hinit hs hu hux hone
    have hreason : r.reason = .countChanged := by
      rw [(telling_of_past hinit hs).reason r hr hphase, updateReason, hocc]
      rfl
    exact hcounts pre before r suf hrecords hphase hreason (by rw [hbc, hrc, hcount])
  · intro hnever pre before r suf hrecords hphase hreason heq
    obtain ⟨t, h, u, hs, hone, hu, hux⟩ := update_of_records hinit hrecords hphase
    have hr : r ∈ t.emitted := by rw [hone]; exact List.mem_singleton_self r
    have hocc : t.config.ruleType = .occupancy := by
      rw [(telling_of_past hinit hs).reason r hr hphase, updateReason] at hreason
      split at hreason
      · next h => simpa using h
      · cases hreason
    obtain ⟨-, hrc⟩ := (watching_of_past hinit hs).single hr
    obtain ⟨h', hwu⟩ := watching_earlier hinit hs u (List.mem_of_find?_eq_some hu)
    obtain ⟨-, hbc⟩ := hwu.single (r := before) (by rw [hux]; exact List.mem_singleton_self before)
    have hcount : t.personCount = u.personCount := by rw [← hrc, ← hbc, heq]
    obtain ⟨hactive, hok⟩ := update_open hinit hs ⟨r, hr, hphase⟩
    obtain ⟨u', hu', -, hiff⟩ := update_iff hinit hs hactive hok
    obtain rfl : u = u' := Option.some.inj (hu.symm.trans hu')
    obtain ⟨hcond, ⟨v, hv, hchanged⟩, hover⟩ := hiff.mp ⟨r, hr, hphase⟩
    refine hnever t h hs ⟨hocc, hactive, hcond, u, hu, hcount, ⟨v, ?_, hchanged⟩, hover⟩
    -- the change is not at `t` itself, where the count is back
    rcases List.mem_cons.mp hv with rfl | hv
    · exact absurd hcount ((differs_iff hocc).mp hchanged.2)
    · exact hv

end

/-! ### A second person passes within the update interval -/

def passCalls : List Call :=
  [.process (some (demoObservation 1 1)),
    .process (some { demoObservation 1 11 with
      tracks := [⟨7, .person, .active, ⟨0, 0, 100, 100⟩, 9000⟩,
        ⟨8, .person, .active, ⟨0, 0, 100, 100⟩, 9000⟩] }),
    .process (some (demoObservation 1 60))]

/-- The count is 1, then 2 while the interval runs, then 1 again when it is over. -/
theorem count_reverted : meEventEngineInit (some demoConfig) 0 = .ok demoEngine ∧
    (records (runCalls demoEngine passCalls).2).map (fun r => (r.phase, r.reason, r.personCount)) =
      [(.start, .confirmed, 1), (.update, .countChanged, 1)] ∧
    ¬ CountsChange demoEngine passCalls := by
  have hrecords : (records (runCalls demoEngine passCalls).2).map
      (fun r => (r.phase, r.reason, r.personCount)) =
      [(.start, .confirmed, 1), (.update, .countChanged, 1)] := by
    decide +kernel
  refine ⟨rfl, hrecords, fun hcounts => ?_⟩
  obtain ⟨before, rest, hb, h1, hrest⟩ := List.map_eq_cons_iff.mp hrecords
  obtain ⟨r, suf, hr, h2, -⟩ := List.map_eq_cons_iff.mp hrest
  simp only [Prod.mk.injEq] at h1 h2
  exact hcounts [] before r suf (by rw [hb, hr]; rfl) h2.1 h2.2.1 (h1.2.2.trans h2.2.2.symm)

theorem count_changed_demo : CountsChange demoEngine growCalls ↔
    ∀ t h, .turn t :: h <:+ past [] demoEngine growCalls → ¬ Reverted t (turns h) :=
  @count_changed_iff (some demoConfig) 0 demoEngine growCalls rfl (by
    intro o ho
    simp only [growCalls, List.mem_cons, Call.process.injEq, Option.some.injEq, List.not_mem_nil,
      or_false] at ho
    rcases ho with rfl | rfl <;> decide)

end FlowAlarm.Engine
