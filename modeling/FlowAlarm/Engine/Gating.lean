import FlowAlarm.Engine.Watched
import Mathlib.Data.List.Find

/-!
# When an event starts and ends

The rules of the watch, read off the turns of a run: a START needs a confirmed
condition and the rest after the last END (`start_gated`), and an END with
reason DISAPPEARED comes exactly when the condition has been gone for the grace
period (`disappeared_iff`).
-/

namespace FlowAlarm.Engine

open FlowAlarm.Text FlowAlarm.Trace

/-- The turn ends its event because the condition is gone. -/
def Turn.disappears (t : Turn) : Prop :=
  ∃ r ∈ t.emitted, r.phase = .end_ ∧ r.reason = .disappeared

instance (t : Turn) : Decidable t.disappears :=
  inferInstanceAs (Decidable (∃ r ∈ t.emitted, r.phase = .end_ ∧ r.reason = .disappeared))

/-- The timelines of two turns are valid and `ms` or more apart. -/
def Apart (j t : Turn) (ms : Nat) : Prop :=
  j.time.valid = true ∧ t.time.valid = true ∧ j.time.us + ms * 1000 ≤ t.time.us

instance (j t : Turn) (ms : Nat) : Decidable (Apart j t ms) := inferInstanceAs (Decidable (_ ∧ _))

/-- The turns `stretch ++ [j]`, newest first, confirm the condition at `t`. -/
structure Confirmed (t : Turn) (stretch : List Turn) (j : Turn) : Prop where
  held : ∀ u ∈ stretch ++ [j], u.condition = true ∧ u.active = false
  confirmed : (0 < t.config.confirmFrames ∧ t.config.confirmFrames ≤ (stretch ++ [j]).length) ∨
    Apart j t t.config.confirmMs
  debounced : t.config.debounceMs = 0 ∨ Apart j t t.config.debounceMs ∨ t.time.valid = false

/-- The latest END for a gone condition, where it has a time, is the cooldown before `t`. -/
def CooledDown (t : Turn) (earlier : List Turn) : Prop :=
  ∀ u, earlier.find? (fun u => u.disappears) = some u → u.time.valid = true →
    0 < t.config.cooldownMs → t.time.valid = true ∧
      min (int64Max : Int) (u.time.us + t.config.cooldownMs * 1000) ≤ t.time.us

/-- A START at `t` is due, with the turns `earlier` since the last cut before it. -/
structure StartDue (t : Turn) (earlier : List Turn) : Prop where
  confirmed : ∃ stretch j rest, t :: earlier = stretch ++ j :: rest ∧ Confirmed t stretch j
  cooled : CooledDown t earlier

/-- The turns up to the newest of a list on which an open event's condition does not hold. -/
def absence (ts : List Turn) : List Turn := ts.takeWhile fun u => u.active && !u.condition

/-- The first turn of a stretch, newest first, that has a valid timeline. -/
def firstTimed (ts : List Turn) : Option Turn := (ts.filter fun u => u.time.valid).getLast?

/-- The condition is gone at `t`, and has been for the grace period. -/
structure EndDue (t : Turn) (earlier : List Turn) : Prop where
  gone : t.condition = false
  grace : t.config.disappearGraceMs = 0 ∨
    ∃ j, firstTimed (absence (t :: earlier)) = some j ∧ Apart j t t.config.disappearGraceMs

/-! ## Records and what was told -/

section

variable {h : List Mark} {t : Turn}

theorem phaseKind_inj {p q : MeEventPhase} {k : Kind} (hp : phaseKind p = some k)
    (hq : phaseKind q = some k) : p = q := by
  cases p <;> cases q <;> cases hp <;> first | rfl | cases hq

theorem Watching.told_iff (hw : Watching h t) (phase : MeEventPhase) {k : Kind}
    (hk : phaseKind phase = some k) : toldOf t.emitted = some k ↔ t.emits phase := by
  rcases hw.records with hnil | ⟨r, hone, -⟩
  · rw [hnil]
    refine ⟨(fun h => nomatch h), fun ⟨r, hr, _⟩ => ?_⟩
    rw [hnil] at hr
    cases hr
  · rw [hone, toldOf_one rfl]
    constructor
    · intro hr
      exact ⟨r, by rw [hone]; exact List.mem_singleton_self r, phaseKind_inj hr hk⟩
    · rintro ⟨x, hx, rfl⟩
      rw [hone, List.mem_singleton] at hx
      exact hx ▸ hk

theorem Watching.disappears_iff (hw : Watching h t) :
    toldOf t.emitted = some .closing ↔ t.disappears := by
  rw [hw.told_iff .end_ rfl]
  refine ⟨fun ⟨r, hr, hp⟩ => ?_, fun ⟨r, hr, hp, _⟩ => ⟨r, hr, hp⟩⟩
  rcases hw.records with hnil | ⟨x, hone, hx⟩
  · rw [hnil] at hr
    cases hr
  · rw [hone, List.mem_singleton] at hr
    subst hr
    rcases hx.phase with hs | hs | hs
    · rw [hp] at hs
      cases hs
    · rw [hp] at hs
      cases hs
    · exact ⟨r, by rw [hone]; exact List.mem_singleton_self r, hs⟩

theorem turn_mem_turns {ts : List Turn} (hts : turns h = ts) {u : Turn} (hu : u ∈ ts) :
    ∃ h', .turn u :: h' <:+ h := by
  induction h generalizing ts with
  | nil =>
    subst hts
    cases hu
  | cons m h ih =>
    cases m with
    | cut ends =>
      subst hts
      cases hu
    | turn v =>
      subst hts
      rcases List.mem_cons.mp hu with rfl | hu
      · exact ⟨h, List.suffix_rfl⟩
      · obtain ⟨h', hs⟩ := ih rfl hu
        exact ⟨h', hs.trans (List.suffix_cons _ _)⟩

theorem known_eq_some {now : MeTimeline} {n : Int} :
    now.known = some n ↔ now.valid = true ∧ now.us = n := by
  obtain ⟨us, valid⟩ := now
  cases valid <;> simp [MeTimeline.known, known]

theorem apart_iff {j : Turn} {ms : Nat} :
    Watch.elapsed j.time.known t.time.known (ms * 1000) = true ↔ Apart j t ms := by
  unfold Apart
  rcases j.time with ⟨js, jv⟩
  rcases t.time with ⟨ts, tv⟩
  cases jv <;> cases tv <;> simp [Watch.elapsed, MeTimeline.known, known]
  omega

/-! ## START -/

/-- The latest turn of the watch that closed is the latest END for a gone condition. -/
theorem find_disappears {ts : List Turn} (hts : ∀ u ∈ ts, ∃ h', Watching h' u) :
    (ts.map Turn.watch).find? (fun u => u.told = some .closing) =
      (ts.find? fun u => u.disappears).map Turn.watch := by
  rw [List.find?_map]
  congr 1
  refine List.find?_congr fun u hu => ?_
  obtain ⟨h', hw⟩ := hts u hu
  exact decide_eq_decide.mpr hw.disappears_iff

variable {config : Option MeAnalyticsConfig} {configVersion : Nat} {e : MeEventEngine}
  {calls : List Call}

theorem watching_earlier (hinit : meEventEngineInit config configVersion = .ok e)
    (hs : .turn t :: h <:+ past [] e calls) : ∀ u ∈ turns h, ∃ h', Watching h' u := by
  intro u hu
  obtain ⟨h', hsuf⟩ := turn_mem_turns rfl hu
  exact ⟨h', watching_of_past hinit (hsuf.trans ((List.suffix_cons _ _).trans hs))⟩

/-- **A START is due**: the condition was confirmed and debounced since the last cut, and the
cooldown of the last END is over. -/
theorem start_gated (hinit : meEventEngineInit config configVersion = .ok e)
    (hs : .turn t :: h <:+ past [] e calls) (hstart : t.emits .start) : StartDue t (turns h) := by
  have hw := watching_of_past hinit hs
  obtain ⟨s, htold⟩ := hw.told
  obtain ⟨⟨stretch, j, rest, hsplit, hconf⟩, hrested⟩ :=
    Watch.opening_gated htold ((hw.told_iff .start rfl).mpr hstart)
  constructor
  · have hsplit : (t :: turns h).map Turn.watch = stretch ++ j :: rest := hsplit
    obtain ⟨stretch', tail', happ, rfl, htail⟩ := List.map_eq_append_iff.mp hsplit
    obtain ⟨j', rest', rfl, rfl, rfl⟩ := List.map_eq_cons_iff.mp htail
    refine ⟨stretch', j', rest', happ, fun u hu => ?_, ?_, ?_⟩
    · refine hconf.held u.watch ?_
      rw [← List.map_singleton, ← List.map_append]
      exact List.mem_map_of_mem hu
    · rw [List.length_append, List.length_singleton]
      refine hconf.confirmed.imp (fun hc => ⟨hc.1, ?_⟩) apart_iff.mp
      rw [← List.length_map (f := Turn.watch)]
      exact hc.2
    · refine hconf.debounced.imp (fun hd => ?_) (Or.imp apart_iff.mp fun hn => ?_)
      · exact (Nat.mul_eq_zero.mp hd).resolve_right (by decide)
      · rw [Bool.eq_false_iff]
        intro hv
        have hn : t.time.known = none := hn
        rw [MeTimeline.known, known, if_pos hv] at hn
        cases hn
  · intro u hu hvalid hcool
    have hfind : ((turns h).map Turn.watch).find? (fun u => u.told = some .closing) =
        some u.watch := by
      rw [find_disappears (watching_earlier hinit hs), hu]
      rfl
    obtain ⟨m, hm, hle⟩ := hrested u.watch hfind u.time.us
      (known_eq_some.mpr ⟨hvalid, rfl⟩) (Nat.mul_pos hcool (by decide))
    obtain ⟨htv, rfl⟩ := known_eq_some.mp hm
    refine ⟨htv, ?_⟩
    simpa [watchRates] using hle

/-! ## END -/

theorem absentSince_watch (ts : List Turn) :
    Watch.absentSince (ts.map Turn.watch) = (firstTimed (absence ts)).map (·.time.us) := by
  have hfilter : ∀ us : List Turn, us.filterMap (fun u => u.time.known) =
      (us.filter fun u => u.time.valid).map (·.time.us) := by
    intro us
    induction us with
    | nil => rfl
    | cons u us ih =>
      cases hv : u.time.valid with
      | true =>
        have hsome : u.time.known = some u.time.us := known_eq_some.mpr ⟨hv, rfl⟩
        rw [List.filterMap_cons, hsome, ih,
          List.filter_cons_of_pos (p := fun u : Turn => u.time.valid) hv, List.map_cons]
      | false =>
        have hnone : u.time.known = none := by simp [MeTimeline.known, known, hv]
        rw [List.filterMap_cons, hnone, ih,
          List.filter_cons_of_neg (p := fun u : Turn => u.time.valid) (by simp [hv])]
  rw [Watch.absentSince, Watch.absentStretch, List.takeWhile_map, List.filterMap_map, firstTimed,
    ← List.getLast?_map, ← hfilter]
  rfl

/-- **An event ends for a gone condition exactly when the grace period is over.** -/
theorem disappeared_iff (hinit : meEventEngineInit config configVersion = .ok e)
    (hs : .turn t :: h <:+ past [] e calls) (hactive : t.active = true)
    (hframe : t.observation.frameId ≤ uint64Max) : t.disappears ↔ EndDue t (turns h) := by
  have hw := watching_of_past hinit hs
  obtain ⟨s, htold⟩ := hw.told
  have hiff := Watch.closing_iff htold hactive (by
    show (!t.failed) = true
    rw [hw.unfailed hactive hframe]
    rfl)
  have hsince : Watch.absentSince (t.watch :: (turns h).map Turn.watch) =
      (firstTimed (absence (t :: turns h))).map (·.time.us) := absentSince_watch (t :: turns h)
  rw [← hw.disappears_iff]
  refine hiff.trans ?_
  rw [hsince]
  have hgrace : (watchRates t.config).grace = 0 ↔ t.config.disappearGraceMs = 0 := by
    simp [watchRates]
  have hlast : Watch.elapsed ((firstTimed (absence (t :: turns h))).map (·.time.us))
        t.watch.sight.time (watchRates t.config).grace = true ↔
      ∃ j, firstTimed (absence (t :: turns h)) = some j ∧
        Apart j t t.config.disappearGraceMs := by
    cases hj : firstTimed (absence (t :: turns h)) with
    | none => simp [Watch.elapsed]
    | some j =>
      have hvalid : j.time.valid = true :=
        (List.mem_filter.mp (List.mem_of_getLast? hj)).2
      rw [Option.map_some, ← known_eq_some.mpr ⟨hvalid, rfl⟩]
      refine apart_iff.trans ⟨fun ha => ⟨j, rfl, ha⟩, ?_⟩
      rintro ⟨j', hj', ha⟩
      cases hj'
      exact ha
  rw [hgrace, hlast]
  exact ⟨fun h => ⟨h.1, h.2⟩, fun h => ⟨h.gone, h.grace⟩⟩

end

/-! ### A person comes and goes -/

/-- The turn a history ends with, and what is before it. -/
def latestTurn : List Mark → Option (Turn × List Mark)
  | .turn t :: h => some (t, h)
  | _ => none

theorem latestTurn_suffix {m : List Mark} {t : Turn} {h : List Mark}
    (hm : latestTurn m = some (t, h)) : .turn t :: h <:+ m := by
  unfold latestTurn at hm
  split at hm
  · cases hm
    exact List.suffix_rfl
  · cases hm

/-- An event that starts in frame 1 and, the person being gone from frame 2 on, ends in frame 40. -/
def goneCalls : List Call :=
  [.process (some (demoObservation 1 1)),
    .process (some { demoObservation 1 2 with tracks := [] }),
    .process (some { demoObservation 1 40 with tracks := [] })]

/-- A check of the turn a run ends with. -/
theorem latest_of_any (e : MeEventEngine) (calls : List Call) {p : Turn → List Turn → Bool}
    (hp : ((latestTurn (past [] e calls)).any fun x => p x.1 (turns x.2)) = true) :
    ∃ t h, .turn t :: h <:+ past [] e calls ∧ p t (turns h) = true := by
  cases hx : latestTurn (past [] e calls) with
  | none =>
    rw [hx] at hp
    cases hp
  | some x =>
    rw [hx] at hp
    exact ⟨x.1, x.2, latestTurn_suffix hx, hp⟩

/-- An observation of active persons. -/
def seeing (frame : Nat) (ids : List Nat) : Call :=
  .process (some { demoObservation 1 frame with
    tracks := ids.map fun id => ⟨id, .person, .active, ⟨0, 0, 100, 100⟩, 9000⟩ })

/-- Three frames confirm a person, three more the condition; 300 ms pass before a START, and a
second between two events. -/
def gateConfig : MeAnalyticsConfig :=
  { demoConfig with confirmFrames := 3, debounceMs := 300, cooldownMs := 1000 }

def gateEngine : MeEventEngine := { config := gateConfig, configVersion := 1 }

/-- An event starts in frame 6 and ends in frame 40, and another one starts in frame 55. -/
def returnCalls : List Call :=
  [seeing 1 [7], seeing 2 [7], seeing 3 [7], seeing 4 [7], seeing 5 [7], seeing 6 [7],
    seeing 7 [], seeing 40 [], seeing 50 [7], seeing 51 [7, 8], seeing 52 [7], seeing 53 [7],
    seeing 54 [7], seeing 55 [7]]

theorem start_gated_demo : ∃ t h, .turn t :: h <:+ past [] gateEngine returnCalls ∧
    t.emits .start ∧ (∃ u ∈ turns h, u.disappears) ∧ StartDue t (turns h) := by
  obtain ⟨t, h, hs, hp⟩ := latest_of_any gateEngine returnCalls
    (p := fun t ts => decide (t.emits .start ∧ ∃ u ∈ ts, u.disappears)) (by decide +kernel)
  obtain ⟨hstart, hended⟩ := of_decide_eq_true hp
  exact ⟨t, h, hs, hstart, hended,
    @start_gated h t (some gateConfig) 0 gateEngine _ rfl hs hstart⟩

theorem disappeared_iff_demo : ∃ t h, .turn t :: h <:+ past [] demoEngine goneCalls ∧
    t.disappears ∧ (t.disappears ↔ EndDue t (turns h)) := by
  obtain ⟨t, h, hs, hp⟩ := latest_of_any demoEngine goneCalls
    (p := fun t _ => decide (t.active = true ∧ t.observation.frameId ≤ uint64Max ∧ t.disappears))
    (by decide +kernel)
  obtain ⟨hactive, hframe, hgone⟩ := of_decide_eq_true hp
  exact ⟨t, h, hs, hgone,
    @disappeared_iff h t (some demoConfig) 0 demoEngine _ rfl hs hactive hframe⟩

end FlowAlarm.Engine
