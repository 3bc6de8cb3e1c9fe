import FlowAlarm.Daemon.Wire
import FlowAlarm.Live.Agreement
import FlowAlarm.Live.Control

/-!
# The name of a live session

`start_live` copies the session id into `SessionParams.session_id` and files
the session under the copy; `stop_live` and `keepalive_live` look up the id as
they were given it, and `stop_live` answers ok for an id it does not find.
`names_one_session_iff` says for which ids all of them mean the same session.
-/

namespace FlowAlarm.Live

open FlowAlarm.Text FlowAlarm.CJson

def meSessionIdMax : ℕ := 128

/-! ## The engine behind its socket -/

/-- What may happen to the engine next; `reap` is the periodic check of the lease. -/
inductive Happening where
  | request (req : Request) (o : Outcome)
  | bus (msg : BusMessage) (null : StateChange)
  | idle
  | reap (nowUs : ℤ) (null : StateChange)

namespace Engine

def after (e : Engine) : Happening → Engine
  | .request req o => (e.handle req o).2
  | .bus msg null => { e with media := step e.media (.bus msg null) }
  | .idle => { e with media := step e.media .idle }
  | .reap nowUs null =>
    { e with media := step e.media (.reap (e.boot.liveLeaseTimeoutS * 1000000) nowUs null) }

def afterAll (e : Engine) (hs : List Happening) : Engine := hs.foldl after e

/-- A session is in the table, or its branch carries media. -/
def Running (e : Engine) : Prop := e.media.sessions ≠ [] ∨ e.media.runner.branchActive = true

instance (e : Engine) : Decidable e.Running := inferInstanceAs (Decidable (_ ∨ _))

/-- A session runs in every state from `e` on. A start needs an empty table, so it is one session. -/
def RunsOn (e : Engine) : List Happening → Prop
  | [] => e.Running
  | h :: hs => e.Running ∧ RunsOn (e.after h) hs

/-- Nothing removes the session `id`: no stop that reaches the engine with the same text is answered
ok, and the engine does not drop the session for a fault or a lapsed lease. -/
def Spares (id : Bytes) (e : Engine) : List Happening → Prop
  | [] => True
  | h :: hs =>
    (match h with
      | .request (.stopLive id') o =>
        paramText id' = paramText id → (e.handle (.stopLive id') o).1 ≠ .ok
      | .bus _ _ | .reap _ _ => (e.after h).media.sessions ≠ []
      | _ => True) ∧ Spares id (e.after h) hs

end Engine

/-- Start, stop, keepalive and status agree on the session the string `id` names: after a start that
was answered ok, a stop that is answered ok leaves nothing of the session running, and until it is
stopped or dropped a keepalive finds it and the status reports the string that is on the wire. -/
def NamesOneSession (id : Bytes) : Prop :=
  ∀ boot before t o, t.sessionID = id →
    ((Engine.afterAll (.init boot) before).handle (.startLive t) o).1 = .ok →
    ∀ e, e = ((Engine.afterAll (.init boot) before).handle (.startLive t) o).2 →
    ∀ hs o',
      (((e.afterAll hs).handle (.stopLive id) o').1 = .ok →
        ¬ e.RunsOn (hs ++ [.request (.stopLive id) o'])) ∧
      (e.Spares id hs → ((e.afterAll hs).handle (.keepaliveLive id) o').1 = .ok ∧
        ∃ st, ((e.afterAll hs).handle .getStatus o').1 = .status st ∧ st.running = true ∧
          st.sessionID = sanitize id)

/-! ## The branch never outlives its session -/

/-- An active branch belongs to the session in the table. -/
def Attached (m : Media) : Prop :=
  m.runner.branchActive = true →
    m.runner.live.phase = .active ∧ m.runner.live.branch = true ∧ Serves m

theorem attached_inactive {m : Media} (h : m.runner.branchActive = false) : Attached m := by
  intro ha
  rw [h] at ha
  cases ha

theorem unavailable_of_active {r : GstRunner} (h : unavailable r = false) :
    r.branchActive = false := by
  unfold unavailable at h
  cases ha : r.branchActive with
  | false => rfl
  | true => simp [ha] at h

theorem attached_start {m : Media} (h : Attached m) (p : SessionParams) (calls : StartCalls)
    (nowUs : ℤ) : Attached (sessionMgrStart m p calls nowUs).2.2 := by
  unfold sessionMgrStart
  split
  · exact h
  split
  · exact h
  next hne =>
  have hempty : m.sessions = [] := by simpa using hne
  have hout := gstRunnerStartLive_outcome m.runner p calls
  generalize gstRunnerStartLive m.runner p calls = out at hout
  cases hout with
  | @refused rc err hrc =>
    cases rc with
    | ok => exact absurd rfl hrc
    | _ => exact h
  | abandoned hav hbranch hphase hactive hidle =>
    exact attached_inactive (hactive.trans (unavailable_of_active hav))
  | started hav hbranch hp hactive hid hidle =>
    intro _
    exact ⟨hp, hbranch, ⟨p, nowUs⟩, by rw [hempty]; rfl, hid.symm⟩

theorem attached_stop {m : Media} (h : Attached m) (sessionId : Bytes) (null : StateChange) :
    Attached (sessionMgrStop m sessionId null).2.2 := by
  unfold sessionMgrStop
  cases hl : Keyed.lookup sessionKey sessionId m.sessions with
  | none => exact h
  | some s =>
    by_cases ha : m.runner.branchActive = true
    · obtain ⟨hp, hbranch, hserves⟩ := h ha
      obtain ⟨hid, herase⟩ := lookup_serves hserves hl
      rw [gstRunnerStopLive_active ha hp hid]
      cases null with
      | failure => exact attached_inactive rfl
      | success =>
        refine attached_inactive ?_
        simp only [advanceEpoch_live]
        rfl
      | noPreroll =>
        refine attached_inactive ?_
        simp only [advanceEpoch_live]
        rfl
      | async =>
        refine attached_inactive ?_
        simp only [advanceEpoch_live]
        rfl
    · have ha : m.runner.branchActive = false := by simpa using ha
      have hcalm : gstRunnerStopLive m.runner sessionId null = (.ok, [], m.runner) ∨
          gstRunnerStopLive m.runner sessionId null =
            (.notFound, ascii "no live branch for session " ++ sessionId, m.runner) := by
        unfold gstRunnerStopLive
        split
        · exact .inl rfl
        · exact .inr (if_pos (.inl (by simp [ha])))
      rcases hcalm with hc | hc
      · rw [hc]
        exact attached_inactive ha
      · rw [hc]
        exact attached_inactive ha

theorem attached_touch {m : Media} (h : Attached m) (sessionId : Bytes) (nowUs : ℤ) :
    Attached (sessionMgrTouch m sessionId nowUs).2.2 := by
  unfold sessionMgrTouch
  cases hl : Keyed.lookup sessionKey sessionId m.sessions with
  | none => exact h
  | some s =>
    intro ha
    obtain ⟨hp, hbranch, hserves⟩ := h ha
    obtain ⟨hid, herase⟩ := lookup_serves hserves hl
    have hold : sessionKey s = sessionId := Keyed.lookup_key hl
    have hkey : sessionKey { s with lastActivityUs := nowUs } = sessionId := hold
    refine ⟨hp, hbranch, { s with lastActivityUs := nowUs }, ?_, hkey.trans hid.symm⟩
    simp only [Keyed.insert, hkey, herase]

theorem attached_step {m : Media} (h : Attached m) (i : Input) : Attached (step m i) := by
  have hfault : ∀ id null, Attached (engineGstEvent m id null) := by
    intro id null
    unfold engineGstEvent
    split
    · exact h
    · split
      · exact h
      · exact attached_stop h _ null
  cases i with
  | start p calls nowUs => exact attached_start h p calls nowUs
  | stop sessionId null => exact attached_stop h sessionId null
  | touch sessionId nowUs => exact attached_touch h sessionId nowUs
  | bus msg null =>
    cases msg with
    | error text => exact hfault _ null
    | eos => exact hfault _ null
    | stateChanged fromBranch new pending =>
      unfold step runnerBusCb
      dsimp only
      split
      · next hc =>
        intro ha
        have ha : m.runner.branchActive = true := by
          unfold scheduleDestroy at ha
          split at ha
          · exact ha
          · exact ha
        rw [(h ha).1] at hc
        cases hc.1
      · exact h
  | idle =>
    unfold step
    dsimp only
    split
    · intro ha
      have ha : m.runner.branchActive = true := by
        revert ha
        unfold destroyIdle
        dsimp only
        split
        · exact id
        · split <;> exact id
      obtain ⟨hp, hbranch, hserves⟩ := h ha
      have hsame : destroyIdle m.runner =
          { m.runner with live := { m.runner.live with teardownIdle := false } } := by
        simp [destroyIdle, hp, hbranch]
      rw [hsame]
      exact ⟨hp, hbranch, hserves⟩
    · exact h
  | reap timeoutUs nowUs null =>
    unfold step engineReapExpired
    dsimp only
    split
    · exact h
    · exact attached_stop h _ null

theorem attached_handle {e : Engine} (h : Attached e.media) (req : Request) (o : Outcome) :
    Attached (e.handle req o).2.media := by
  cases req with
  | startLive t =>
    unfold Engine.handle ipcHandleStartLive engineStartLive
    dsimp only
    split
    · exact h
    · next p _ =>
      by_cases h1 : !e.boot.aiqStarted
      · rw [if_pos h1]
        exact h
      rw [if_neg h1]
      split
      · exact h
      split
      · exact h
      · exact attached_start h p o.calls o.nowUs
  | stopLive id =>
    unfold Engine.handle ipcHandleStopLive
    dsimp only
    split
    · exact h
    · exact attached_stop h _ o.null
  | keepaliveLive id =>
    unfold Engine.handle ipcHandleKeepaliveLive
    dsimp only
    split
    · exact h
    · exact attached_touch h _ o.nowUs
  | getStatus => exact h

theorem attached_after {e : Engine} (h : Attached e.media) (x : Happening) :
    Attached (e.after x).media := by
  cases x with
  | request req o => exact attached_handle h req o
  | bus msg null => exact attached_step h _
  | idle => exact attached_step h _
  | reap nowUs null => exact attached_step h _

theorem attached_afterAll {e : Engine} (h : Attached e.media) (hs : List Happening) :
    Attached (e.afterAll hs).media := by
  induction hs generalizing e with
  | nil => exact h
  | cons x hs ih => exact ih (attached_after h x)

theorem Attached.running {e : Engine} (h : Attached e.media) (hr : e.Running) :
    e.media.sessions ≠ [] := by
  rcases hr with hr | hr
  · exact hr
  · obtain ⟨-, -, s, hs, -⟩ := h hr
    rw [hs]
    simp

/-! ## The session in the table -/

/-- The table holds one session, filed under `key`. -/
def Holds (key : Bytes) (m : Media) : Prop := ∃ s, m.sessions = [s] ∧ sessionKey s = key

variable {key : Bytes}

theorem Holds.ne_nil {m : Media} (h : Holds key m) : m.sessions ≠ [] := by
  obtain ⟨s, hs, -⟩ := h
  rw [hs]
  simp

theorem Holds.lookup {m : Media} (h : Holds key m) (id : Bytes) :
    (∃ s, id = key ∧ m.sessions = [s] ∧ Keyed.lookup sessionKey id m.sessions = some s) ∨
      (id ≠ key ∧ Keyed.lookup sessionKey id m.sessions = none) := by
  obtain ⟨s, hs, hkey⟩ := h
  rw [hs, Keyed.lookup_cons, Keyed.lookup_nil, hkey]
  by_cases hid : key = id
  · exact .inl ⟨s, hid.symm, rfl, if_pos hid⟩
  · exact .inr ⟨fun hx => hid hx.symm, if_neg hid⟩

theorem start_busy {m : Media} (h : Holds key m) (p : SessionParams) (calls : StartCalls)
    (nowUs : ℤ) : (sessionMgrStart m p calls nowUs).2.2 = m ∧
      (sessionMgrStart m p calls nowUs).1 ≠ .ok := by
  unfold sessionMgrStart
  split
  · exact ⟨rfl, by simp⟩
  · rw [if_pos h.ne_nil]
    exact ⟨rfl, by simp⟩

/-- A stop of the session removes it or is refused; any other stop finds nothing. -/
theorem stop_cases {m : Media} (h : Holds key m) (id : Bytes) (null : StateChange) :
    (id = key ∧ (sessionMgrStop m id null).1 = .ok ∧ (sessionMgrStop m id null).2.2.sessions = []) ∨
      ((sessionMgrStop m id null).2.2.sessions = m.sessions ∧
        (id = key → (sessionMgrStop m id null).1 ≠ .ok)) := by
  unfold sessionMgrStop
  rcases h.lookup id with ⟨s, hid, hs, hl⟩ | ⟨hid, hl⟩
  · have herase : Keyed.erase sessionKey id m.sessions = [] := by
      have hk : sessionKey s = id := Keyed.lookup_key hl
      rw [hs]
      simp [Keyed.erase, hk]
    rw [hl]
    simp only
    split
    · exact .inl ⟨hid, rfl, herase⟩
    · exact .inl ⟨hid, rfl, herase⟩
    · next rc err r hok _ _ => exact .inr ⟨rfl, fun _ hc => hok (by simpa using hc)⟩
  · rw [hl]
    exact .inr ⟨rfl, fun hx => absurd hx hid⟩

theorem holds_touch {m : Media} (h : Holds key m) (id : Bytes) (nowUs : ℤ) :
    Holds key (sessionMgrTouch m id nowUs).2.2 := by
  unfold sessionMgrTouch
  rcases h.lookup id with ⟨s, rfl, hs, hl⟩ | ⟨-, hl⟩
  · have hold : sessionKey s = id := Keyed.lookup_key hl
    rw [hl]
    refine ⟨{ s with lastActivityUs := nowUs }, ?_, hold⟩
    simp only [Keyed.insert, hs]
    simp [Keyed.erase, sessionKey]
  · rw [hl]
    exact h

theorem Holds.of_sessions {m m' : Media} (h : Holds key m) (hs : m'.sessions = m.sessions) :
    Holds key m' := by
  obtain ⟨s, hm, hk⟩ := h
  exact ⟨s, hs.trans hm, hk⟩

theorem stop_holds {m : Media} (h : Holds key m) (id : Bytes) (null : StateChange) :
    (sessionMgrStop m id null).2.2.sessions = [] ∨ Holds key (sessionMgrStop m id null).2.2 := by
  rcases stop_cases h id null with ⟨-, -, hs⟩ | ⟨hs, -⟩
  · exact .inl hs
  · exact .inr (h.of_sessions hs)

theorem holds_step {m : Media} (h : Holds key m) (i : Input) :
    (step m i).sessions = [] ∨ Holds key (step m i) := by
  have hfault : ∀ id null, (engineGstEvent m id null).sessions = [] ∨
      Holds key (engineGstEvent m id null) := by
    intro id null
    unfold engineGstEvent
    split
    · exact .inr h
    · split
      · exact .inr h
      · exact stop_holds h _ null
  cases i with
  | start p calls nowUs => exact .inr (h.of_sessions (by rw [step, (start_busy h p calls nowUs).1]))
  | stop sessionId null => exact stop_holds h sessionId null
  | touch sessionId nowUs => exact .inr (holds_touch h sessionId nowUs)
  | bus msg null =>
    cases msg with
    | error text => exact hfault _ null
    | eos => exact hfault _ null
    | stateChanged fromBranch new pending =>
      unfold step runnerBusCb
      dsimp only
      split
      · exact .inr h
      · exact .inr h
  | idle =>
    unfold step
    dsimp only
    split
    · exact .inr h
    · exact .inr h
  | reap timeoutUs nowUs null =>
    unfold step engineReapExpired
    dsimp only
    split
    · exact .inr h
    · exact stop_holds h _ null

theorem respond_eq_ok {rc : MeErr} {err : Bytes} : respond rc err = .ok ↔ rc = .ok := by
  unfold respond
  split <;> simp [*]

/-! ## Requests on a held session -/

section Requests

variable {e : Engine}

theorem startLive_busy (h : Holds key e.media) (t : Target) (o : Outcome) :
    (e.handle (.startLive t) o).2 = e := by
  unfold Engine.handle ipcHandleStartLive engineStartLive
  dsimp only
  split
  · rfl
  · next p _ =>
    by_cases h1 : !e.boot.aiqStarted
    · rw [if_pos h1]
    rw [if_neg h1]
    split
    · rfl
    split
    · rfl
    · simp only [(start_busy h p o.calls o.nowUs).1]

/-- A stop that finds the session and is answered ok has removed it. -/
theorem stopLive_cases (h : Holds key e.media) (id : Bytes) (o : Outcome) :
    (paramText id = key ∧ (e.handle (.stopLive id) o).1 = .ok ∧
        (e.handle (.stopLive id) o).2.media.sessions = []) ∨
      (Holds key (e.handle (.stopLive id) o).2.media ∧
        (paramText id = key → (e.handle (.stopLive id) o).1 ≠ .ok)) := by
  unfold Engine.handle ipcHandleStopLive
  dsimp only
  split
  · exact .inr ⟨h, fun _ => by simp⟩
  rcases stop_cases h (paramText id) o.null with ⟨hid, hok, hs⟩ | ⟨hs, hno⟩
  · exact .inl ⟨hid, respond_eq_ok.mpr hok, hs⟩
  · exact .inr ⟨h.of_sessions hs, fun hid hok => hno hid (respond_eq_ok.mp hok)⟩

theorem keepaliveLive_holds (h : Holds key e.media) (id : Bytes) (o : Outcome) :
    Holds key (e.handle (.keepaliveLive id) o).2.media := by
  unfold Engine.handle ipcHandleKeepaliveLive
  dsimp only
  split
  · exact h
  · exact holds_touch h _ o.nowUs

/-- The step lemma: the session stays under its name until it is gone. -/
theorem holds_after (h : Holds key e.media) (x : Happening) :
    (e.after x).media.sessions = [] ∨ Holds key (e.after x).media := by
  cases x with
  | request req o =>
    cases req with
    | startLive t => exact .inr (by rw [Engine.after, startLive_busy h]; exact h)
    | stopLive id =>
      rcases stopLive_cases h id o with ⟨-, -, hs⟩ | ⟨hs, -⟩
      · exact .inl hs
      · exact .inr hs
    | keepaliveLive id => exact .inr (keepaliveLive_holds h id o)
    | getStatus => exact .inr h
  | bus msg null => exact holds_step h _
  | idle => exact holds_step h _
  | reap nowUs null => exact holds_step h _

/-- The run lemma: a session that runs on is the one that was there. -/
theorem holds_runsOn (h : Holds key e.media) (ha : Attached e.media) {hs : List Happening}
    (hr : e.RunsOn hs) : Holds key (e.afterAll hs).media := by
  induction hs generalizing e with
  | nil => exact h
  | cons x hs ih =>
    have ha' := attached_after ha x
    have hr' : (e.after x).RunsOn hs := hr.2
    have hrunning : (e.after x).Running := by
      cases hs with
      | nil => exact hr'
      | cons y ys => exact hr'.1
    rcases holds_after h x with hnil | hx
    · exact absurd hnil (ha'.running hrunning)
    · exact ih hx ha' hr'

/-- What is spared stays. -/
theorem holds_spares {id : Bytes} (hid : paramText id = key) (h : Holds key e.media)
    {hs : List Happening} (hr : e.Spares id hs) : Holds key (e.afterAll hs).media := by
  induction hs generalizing e with
  | nil => exact h
  | cons x hs ih =>
    obtain ⟨hx, hrest⟩ := hr
    refine ih ?_ hrest
    have hkept : (e.after x).media.sessions ≠ [] → Holds key (e.after x).media := fun hne =>
      (holds_after h x).resolve_left hne
    cases x with
    | request req o =>
      cases req with
      | startLive t =>
        rw [Engine.after, startLive_busy h]
        exact h
      | stopLive id' =>
        rcases stopLive_cases h id' o with ⟨hid', hok, -⟩ | ⟨hs', -⟩
        · exact absurd hok (hx (hid'.trans hid.symm))
        · exact hs'
      | keepaliveLive id' => exact keepaliveLive_holds h id' o
      | getStatus => exact h
    | bus msg null => exact hkept hx
    | idle =>
      rcases holds_step h .idle with hnil | hh
      · exfalso
        refine h.ne_nil ?_
        rw [← hnil, step]
        split <;> rfl
      · exact hh
    | reap nowUs null => exact hkept hx

theorem runsOn_append {hs hs' : List Happening} (h : e.RunsOn (hs ++ hs')) :
    e.RunsOn hs ∧ (e.afterAll hs).RunsOn hs' := by
  induction hs generalizing e with
  | nil =>
    refine ⟨?_, h⟩
    cases hs' with
    | nil => exact h
    | cons x xs => exact h.1
  | cons x hs ih =>
    obtain ⟨h₁, h₂⟩ := ih h.2
    exact ⟨⟨h.1, h₁⟩, h₂⟩

end Requests

/-! ## Starting under a name -/

/-- No check refuses with an ok. -/
theorem check_refusal {c : Prop} [Decidable c] {code : ℤ} {message : Bytes}
    {rest : Except Answer SessionParams} (h : rest ≠ .error .ok) :
    (if c then .error (.error code message) else rest) ≠ .error .ok := by
  by_cases hc : c
  · rw [if_pos hc]
    simp
  · rw [if_neg hc]
    exact h

theorem startLiveParams_refusal (t : Target) : startLiveParams t ≠ .error .ok := by
  unfold startLiveParams badParam
  dsimp only
  iterate 10 apply check_refusal
  split <;> simp

theorem startLiveParams_id {t : Target} {p : SessionParams} (h : startLiveParams t = .ok p) :
    paramText t.sessionID ≠ [] ∧ p.sessionId = bounded meSessionIdMax (paramText t.sessionID) := by
  unfold startLiveParams badParam at h
  dsimp only at h
  by_cases hid : paramText t.sessionID = []
  · rw [if_pos hid] at h
    cases h
  refine ⟨hid, ?_⟩
  rw [if_neg hid] at h
  repeat'
    split at h
    · cases h
  cases h
  rfl

/-- A start that is answered ok files the session under the copied id. -/
theorem startLive_ok {e : Engine} {t : Target} {o : Outcome}
    (h : (e.handle (.startLive t) o).1 = .ok) :
    paramText t.sessionID ≠ [] ∧
      Holds (bounded meSessionIdMax (paramText t.sessionID)) (e.handle (.startLive t) o).2.media := by
  unfold Engine.handle ipcHandleStartLive at h ⊢
  dsimp only at h ⊢
  cases hp : startLiveParams t with
  | error a =>
    rw [hp] at h
    simp only at h
    subst h
    exact absurd hp (startLiveParams_refusal t)
  | ok p =>
    rw [hp] at h
    simp only [respond_eq_ok] at h ⊢
    obtain ⟨hne, hid⟩ := startLiveParams_id hp
    refine ⟨hne, ?_⟩
    rw [← hid]
    unfold engineStartLive at h ⊢
    by_cases h1 : (!e.boot.aiqStarted) = true
    · rw [if_pos h1] at h
      cases h
    rw [if_neg h1] at h ⊢
    split at h
    · cases h
    next h2 =>
    rw [if_neg h2]
    split at h
    · cases h
    next h3 =>
    rw [if_neg h3]
    unfold sessionMgrStart at h ⊢
    simp only at h ⊢
    split at h
    · cases h
    next h4 =>
    rw [if_neg h4]
    split at h
    · cases h
    next h5 =>
    rw [if_neg h5]
    have hempty : e.media.sessions = [] := by simpa using h5
    cases hstart : gstRunnerStartLive e.media.runner p o.calls with
    | mk rc rest =>
      obtain ⟨err, r⟩ := rest
      rw [hstart] at h
      cases rc with
      | ok => exact ⟨⟨p, o.nowUs⟩, by rw [hempty]; rfl, rfl⟩
      | media => cases h
      | notFound => cases h
      | param => cases h

/-! ## One name -/

theorem resultText_eq (s : Bytes) : resultText s = sanitize s := by
  rw [resultText, Wire.unquote_print, Option.getD_some]

/-- What the requests that name a held session answer. -/
theorem held_answers {e : Engine} {id : Bytes} (hne : paramText id ≠ [])
    (h : Holds (paramText id) e.media) (o : Outcome) :
    (e.handle (.keepaliveLive id) o).1 = .ok ∧
      ∃ st, (e.handle .getStatus o).1 = .status st ∧ st.running = true ∧
        st.sessionID = resultText (paramText id) := by
  constructor
  · unfold Engine.handle ipcHandleKeepaliveLive
    dsimp only
    rw [if_neg hne]
    unfold sessionMgrTouch
    rcases h.lookup (paramText id) with ⟨s, -, -, hl⟩ | ⟨hno, -⟩
    · rw [hl]
      rfl
    · exact absurd rfl hno
  · obtain ⟨s, hs, hkey⟩ := h
    refine ⟨_, rfl, ?_⟩
    simp only [engineGetStatus, hs, List.head?_cons, ← hkey, true_and]
    rfl

/-- The condition: the request is refused anyway, or its id fits the buffer and holds no NUL. -/
def Nameable (id : Bytes) : Prop :=
  paramText id = [] ∨ 0 ∉ sanitize id ∧ (sanitize id).length < meSessionIdMax

theorem namesOneSession_of_nameable {id : Bytes} (h : Nameable id) : NamesOneSession id := by
  intro boot before t o hid hok e he hs o'
  obtain ⟨hne, hheld⟩ := startLive_ok hok
  rw [hid] at hne hheld
  rcases h with h | ⟨hnul, hlen⟩
  · exact absurd h hne
  have hparam : paramText id = sanitize id := by rw [paramText_eq, cString_eq_self hnul]
  have hcopy : bounded meSessionIdMax (paramText id) = paramText id := by
    rw [bounded, hparam, List.take_of_length_le (by omega)]
  rw [hcopy, ← he] at hheld
  have hattached : Attached e.media := by
    rw [he]
    exact attached_handle (attached_afterAll (attached_inactive rfl) before) _ o
  refine ⟨fun hstop hruns => ?_, fun hspares => ?_⟩
  · obtain ⟨hbefore, hafter⟩ := runsOn_append hruns
    have hholds := holds_runsOn hheld hattached hbefore
    rcases stopLive_cases hholds id o' with ⟨-, -, hnil⟩ | ⟨-, hno⟩
    · exact (attached_handle (attached_afterAll hattached hs) _ o').running hafter.2 hnil
    · exact hno rfl hstop
  · have hholds := holds_spares rfl hheld hspares
    obtain ⟨hkeep, st, hst, hrun, hsid⟩ := held_answers hne hholds o'
    refine ⟨hkeep, st, hst, hrun, ?_⟩
    rw [hsid, resultText_eq, hparam, sanitize_sanitize]

/-! ## A start and the requests behind it -/

def demoBoot : Boot :=
  { aiqStarted := true, aiqError := [], width := 1920, height := 1080, fps := 30
    liveLeaseTimeoutS := 30, streamRotation := 0, analytics := true, baseError := [] }

def demoTarget (id : Bytes) : Target :=
  { sessionID := id, channelID := ascii "camera-0", codec := ascii "h264", width := 1920
    height := 1080, fps := 30, bitrate := 2048, destIP := ascii "10.0.0.2", destPort := 30000
    ssrc := ascii "1", payloadType := 96 }

def smooth : Outcome := ⟨smoothStart, 0, .success⟩

/-- A fresh engine accepts the start whatever its id is. -/
theorem demo_start {id : Bytes} (hne : paramText id ≠ []) :
    ((Engine.init demoBoot).handle (.startLive (demoTarget id)) smooth).1 = .ok := by
  have htexts : (paramText (ascii "camera-0") ≠ [] ∧ paramText (ascii "h264") ≠ []) ∧
      validIPv4 (paramText (ascii "10.0.0.2")) = true ∧
      parseU32Decimal (paramText (ascii "1")) = some 1 ∧
      bounded 64 (paramText (ascii "camera-0")) = ascii "camera-0" ∧
      bounded 8 (paramText (ascii "h264")) = ascii "h264" ∧
      bounded 64 (paramText (ascii "10.0.0.2")) = ascii "10.0.0.2" := by decide +kernel
  obtain ⟨⟨hchannel, hcodec⟩, hip, hssrc, bchannel, bcodec, bip⟩ := htexts
  have hp : startLiveParams (demoTarget id) =
      .ok { demoParams with sessionId := bounded meSessionIdMax (paramText id) } := by
    unfold startLiveParams
    dsimp only [demoTarget]
    rw [if_neg hne, if_neg hchannel, if_neg hcodec, hip, hssrc, bchannel, bcodec, bip]
    rfl
  unfold Engine.handle ipcHandleStartLive
  dsimp only
  rw [hp]
  rfl

/-- A keepalive finds a session only under its name. -/
theorem keepaliveLive_key {e : Engine} {key id : Bytes} {o : Outcome} (h : Holds key e.media)
    (hok : (e.handle (.keepaliveLive id) o).1 = .ok) : paramText id = key := by
  unfold Engine.handle ipcHandleKeepaliveLive at hok
  dsimp only at hok
  split at hok
  · cases hok
  unfold sessionMgrTouch at hok
  rcases h.lookup (paramText id) with ⟨s, hid, -, -⟩ | ⟨-, hl⟩
  · exact hid
  · rw [hl] at hok
    cases hok

/-- An id that is copied short is not found, and one that is read short is not reported. -/
theorem nameable_of_namesOneSession {id : Bytes} (h : NamesOneSession id) : Nameable id := by
  by_cases hne : paramText id = []
  · exact .inl hne
  have hstart := demo_start hne
  obtain ⟨-, hheld⟩ := startLive_ok hstart
  obtain ⟨hkeep, st, hst, -, hsid⟩ :=
    (h demoBoot [] (demoTarget id) smooth rfl hstart _ rfl [] smooth).2 trivial
  have hkey : paramText id = bounded meSessionIdMax (paramText id) :=
    keepaliveLive_key hheld hkeep
  have hlen : (paramText id).length < meSessionIdMax := by
    have := congrArg List.length hkey
    simp only [bounded, List.length_take, meSessionIdMax] at this ⊢
    omega
  have hheld : Holds (paramText id)
      ((Engine.init demoBoot).handle (.startLive (demoTarget id)) smooth).2.media := by
    rw [hkey]
    exact hheld
  obtain ⟨-, st', hst', -, hsid'⟩ := held_answers hne hheld smooth
  obtain rfl : st = st' := Answer.status.inj (hst.symm.trans hst')
  have hnul : 0 ∉ sanitize id := by
    rw [← hsid, hsid', resultText_eq, paramText_eq]
    exact Wire.sanitize_nonul (Codec.cString_nonul _)
  rw [paramText_eq, cString_eq_self hnul] at hlen
  exact .inr ⟨hnul, hlen⟩

/-- **Which ids name one session** in every request: those that fit `SessionParams.session_id` and
hold no NUL, and those that no start is accepted for. -/
theorem names_one_session_iff (id : Bytes) : NamesOneSession id ↔ Nameable id :=
  ⟨nameable_of_namesOneSession, namesOneSession_of_nameable⟩

/-- An id one byte too long for its buffer. -/
def longId : Bytes := List.replicate 128 0x61

/-- The session of the long id outlives a stop that is answered ok, and no keepalive finds it. -/
theorem long_id_survives_stop :
    ∃ e, e = ((Engine.init demoBoot).handle (.startLive (demoTarget longId)) smooth).2 ∧
      ((Engine.init demoBoot).handle (.startLive (demoTarget longId)) smooth).1 = .ok ∧
      (e.handle (.stopLive longId) smooth).1 = .ok ∧
      (e.handle (.stopLive longId) smooth).2.Running ∧
      (e.handle (.keepaliveLive longId) smooth).1 ≠ .ok ∧ ¬ NamesOneSession longId := by
  have heval : ((Engine.init demoBoot).handle (.startLive (demoTarget longId)) smooth).1 = .ok ∧
      (((Engine.init demoBoot).handle (.startLive (demoTarget longId)) smooth).2.handle
        (.stopLive longId) smooth).1 = .ok ∧
      (((Engine.init demoBoot).handle (.startLive (demoTarget longId)) smooth).2.handle
        (.stopLive longId) smooth).2.Running ∧
      (((Engine.init demoBoot).handle (.startLive (demoTarget longId)) smooth).2.handle
        (.keepaliveLive longId) smooth).1 ≠ .ok := by decide +kernel
  obtain ⟨hstart, hstop, hrun, hkeep⟩ := heval
  exact ⟨_, rfl, hstart, hstop, hrun, hkeep, fun h =>
    hkeep ((h demoBoot [] (demoTarget longId) smooth rfl hstart _ rfl [] smooth).2 trivial).1⟩

end FlowAlarm.Live
