import FlowAlarm.Live.GstRunner

/-!
# The session table and the live branch

Table and branch are updated by different code and meet only in return codes.
`Agrees` says for each phase what both hold. It is kept by every input but one:
`gst_runner_stop_live` answers "not found" for a branch in the phase FAILED,
which `session_mgr_stop` takes for an already stopped one, so retrying a failed
stop empties the table while the branch is still held.
-/

namespace FlowAlarm.Live

open FlowAlarm.Text

/-! ## The agreement -/

/-- A teardown that will end by itself. -/
def tearingDown (r : GstRunner) : Bool :=
  r.live.phase == .stopping || r.live.phase == .waitingNull || r.live.phase == .busDrain

/-- The table holds the one session the branch was built for. -/
def Serves (m : Media) : Prop := ∃ s, m.sessions = [s] ∧ sessionKey s = m.runner.live.sessionId

/-- What table and branch hold in each phase. -/
def Agrees (m : Media) : Prop :=
  match m.runner.live.phase with
  | .idle | .destroyed => m.sessions = [] ∧ m.runner.live.branch = false ∧
    m.runner.branchActive = false ∧ m.runner.live.teardownIdle = false
  | .active => Serves m ∧ m.runner.live.branch = true ∧ m.runner.branchActive = true ∧
    m.runner.live.teardownIdle = false
  | .failed => Serves m ∧ m.runner.live.branch = true ∧ m.runner.branchActive = false ∧
    m.runner.live.teardownIdle = false
  | .waitingNull => m.sessions = [] ∧ m.runner.live.branch = true ∧ m.runner.branchActive = false ∧
    m.runner.live.teardownIdle = false
  | .busDrain => m.sessions = [] ∧ m.runner.live.branch = true ∧ m.runner.branchActive = false ∧
    m.runner.live.teardownIdle = true
  | .starting | .stopping => False

/-- An empty table outside a teardown means that nothing is held. -/
theorem Agrees.free {m : Media} (h : Agrees m) (he : m.sessions = [])
    (ht : tearingDown m.runner = false) :
    m.runner.live.branch = false ∧
      (m.runner.live.phase = .idle ∨ m.runner.live.phase = .destroyed) ∧
      unavailable m.runner = false := by
  unfold Agrees Serves at h
  unfold tearingDown at ht
  unfold unavailable
  cases hp : m.runner.live.phase
  all_goals simp_all

theorem agrees_fresh (streamRotation : ℤ) (analytics : Bool) (baseError : Bytes) :
    Agrees (.fresh streamRotation analytics baseError) := ⟨rfl, rfl, rfl, rfl⟩

/-- The agreement does not depend on the readiness of the base pipeline. -/
theorem Agrees.baseReady {m : Media} (h : Agrees m) (b : Bool) :
    Agrees { m with runner := { m.runner with baseReady := b } } := h

theorem advanceEpoch_live (r : GstRunner) :
    (advanceEpoch r).live = r.live ∧ (advanceEpoch r).branchActive = r.branchActive := by
  unfold advanceEpoch
  split <;> exact ⟨rfl, rfl⟩

/-! ## Starting -/

/-- What a start may answer and leave: a refusal, no branch, or a new one. -/
inductive StartOutcome (r : GstRunner) (sessionId : Bytes) : MeErr × Bytes × GstRunner → Prop
  | refused {rc : MeErr} {err : Bytes} (hrc : rc ≠ .ok) : StartOutcome r sessionId (rc, err, r)
  | abandoned {err : Bytes} {r' : GstRunner} (available : unavailable r = false)
      (branch : r'.live.branch = false)
      (phase : r'.live.phase = .idle ∨ r'.live.phase = .destroyed)
      (active : r'.branchActive = r.branchActive)
      (idle : r'.live.teardownIdle = r.live.teardownIdle) :
      StartOutcome r sessionId (.media, err, r')
  | started {r' : GstRunner} (available : unavailable r = false) (branch : r'.live.branch = true)
      (phase : r'.live.phase = .active) (active : r'.branchActive = true)
      (id : r'.live.sessionId = sessionId) (idle : r'.live.teardownIdle = r.live.teardownIdle) :
      StartOutcome r sessionId (.ok, [], r')

theorem gstRunnerStartLive_outcome (r : GstRunner) (p : SessionParams) (calls : StartCalls) :
    StartOutcome r p.sessionId (gstRunnerStartLive r p calls) := by
  unfold gstRunnerStartLive
  split
  · exact .refused (by simp)
  split
  · exact .refused (by simp)
  next hav =>
  have hav : unavailable r = false := by simpa using hav
  have hfail : ∀ err, StartOutcome r p.sessionId (.media, err, failBranch r) := fun err =>
    .abandoned hav rfl (.inr rfl) rfl rfl
  split
  · exact .refused (by simp)
  split
  · exact .abandoned hav rfl (.inl rfl) rfl rfl
  split
  · exact .abandoned hav rfl (.inr rfl) rfl rfl
  split
  · exact hfail _
  split
  · exact hfail _
  split
  · exact hfail _
  split
  · exact hfail _
  split
  · exact hfail _
  · refine .started hav ?_ ?_ ?_ ?_ ?_
    all_goals simp only [advanceEpoch_live]

/-- An available runner of an agreeing state holds nothing. -/
theorem Agrees.available {m : Media} (h : Agrees m) (ha : unavailable m.runner = false) :
    m.sessions = [] ∧ m.runner.branchActive = false ∧ m.runner.live.teardownIdle = false := by
  unfold Agrees at h
  unfold unavailable at ha
  cases hp : m.runner.live.phase
  all_goals simp_all

theorem agrees_start {m : Media} (h : Agrees m) (p : SessionParams) (calls : StartCalls)
    (nowUs : ℤ) : Agrees (sessionMgrStart m p calls nowUs).2.2 := by
  unfold sessionMgrStart
  split
  · exact h
  split
  · exact h
  have hout := gstRunnerStartLive_outcome m.runner p calls
  generalize gstRunnerStartLive m.runner p calls = out at hout
  cases hout with
  | @refused rc err hrc =>
    cases rc with
    | ok => exact absurd rfl hrc
    | _ => exact h
  | abandoned hav hbranch hphase hactive' hidle' =>
    obtain ⟨he, hactive, hidle⟩ := h.available hav
    rw [hactive] at hactive'
    rw [hidle] at hidle'
    rcases hphase with hp | hp
    · simp only [Agrees, hp]
      exact ⟨he, hbranch, hactive', hidle'⟩
    · simp only [Agrees, hp]
      exact ⟨he, hbranch, hactive', hidle'⟩
  | started hav hbranch hp hactive hid hidle' =>
    obtain ⟨he, -, hidle⟩ := h.available hav
    rw [hidle] at hidle'
    simp only [Agrees, hp, Serves]
    exact ⟨⟨⟨p, nowUs⟩, by rw [he]; rfl, hid.symm⟩, hbranch, hactive, hidle'⟩

/-! ## Stopping -/

theorem lookup_serves {m : Media} (h : Serves m) {sessionId : Bytes} {s : MediaSession}
    (hl : Keyed.lookup sessionKey sessionId m.sessions = some s) :
    m.runner.live.sessionId = sessionId ∧ Keyed.erase sessionKey sessionId m.sessions = [] := by
  obtain ⟨t, ht, hkey⟩ := h
  have hmem := Keyed.lookup_mem hl
  have hk := Keyed.lookup_key hl
  rw [ht, List.mem_singleton] at hmem
  subst hmem
  refine ⟨hkey ▸ hk, ?_⟩
  rw [ht]
  simp [Keyed.erase, hk]

/-- A stop of the active branch tears it down. -/
theorem gstRunnerStopLive_active {r : GstRunner} {sessionId : Bytes} (ha : r.branchActive = true)
    (hp : r.live.phase = .active) (hid : r.live.sessionId = sessionId) (null : StateChange) :
    gstRunnerStopLive r sessionId null =
      match null with
      | .failure => (.media, ascii "live branch failed to reach NULL",
          { teardown r with live := { (teardown r).live with phase := .failed } })
      | .async => (.ok, [],
          advanceEpoch { teardown r with live := { (teardown r).live with phase := .waitingNull } })
      | .success | .noPreroll => (.ok, [], advanceEpoch (scheduleDestroy
          { teardown r with live := { (teardown r).live with phase := .busDrain } })) := by
  refine (if_neg (by simp [hp])).trans ((if_neg (by simp [hp, ha, hid])).trans ?_)
  cases null <;> rfl

/-- A stop that does not retry a failed one. -/
def Unfailed (m : Media) (sessionId : Bytes) : Prop :=
  m.runner.live.phase = .failed → sessionMgrHas m sessionId = false

theorem agrees_stop {m : Media} (h : Agrees m) {sessionId : Bytes} (hu : Unfailed m sessionId)
    (null : StateChange) : Agrees (sessionMgrStop m sessionId null).2.2 := by
  unfold sessionMgrStop
  cases hl : Keyed.lookup sessionKey sessionId m.sessions with
  | none => exact h
  | some s =>
    have hhas : sessionMgrHas m sessionId = true := by rw [sessionMgrHas, hl]; rfl
    have hne : m.sessions ≠ [] := by
      intro he
      rw [he] at hl
      cases hl
    unfold Agrees at h
    cases hp : m.runner.live.phase with
    | idle => simp_all
    | destroyed => simp_all
    | starting => simp_all
    | stopping => simp_all
    | waitingNull => simp_all
    | busDrain => simp_all
    | failed =>
      rw [hu hp] at hhas
      cases hhas
    | active =>
      simp only [hp] at h
      obtain ⟨hserves, hbranch, hactive, hidle⟩ := h
      obtain ⟨hid, herase⟩ := lookup_serves hserves hl
      rw [gstRunnerStopLive_active hactive hp hid]
      cases null with
      | failure => exact ⟨hserves, hbranch, rfl, hidle⟩
      | success =>
        simp only [Agrees, advanceEpoch_live]
        exact ⟨herase, hbranch, rfl, rfl⟩
      | noPreroll =>
        simp only [Agrees, advanceEpoch_live]
        exact ⟨herase, hbranch, rfl, rfl⟩
      | async =>
        simp only [Agrees, advanceEpoch_live]
        exact ⟨herase, hbranch, rfl, hidle⟩

/-! ## The other inputs -/

theorem agrees_touch {m : Media} (h : Agrees m) (sessionId : Bytes) (nowUs : ℤ) :
    Agrees (sessionMgrTouch m sessionId nowUs).2.2 := by
  unfold sessionMgrTouch
  cases hl : Keyed.lookup sessionKey sessionId m.sessions with
  | none => exact h
  | some s =>
    have hne : m.sessions ≠ [] := by
      intro he
      rw [he] at hl
      cases hl
    -- the refreshed session takes the place of the one the branch serves
    have htouch : Serves m → Serves ⟨m.runner,
        Keyed.insert sessionKey { s with lastActivityUs := nowUs } m.sessions⟩ := by
      intro hs
      obtain ⟨hid, herase⟩ := lookup_serves hs hl
      have hold : sessionKey s = sessionId := Keyed.lookup_key hl
      have hkey : sessionKey { s with lastActivityUs := nowUs } = sessionId := hold
      refine ⟨{ s with lastActivityUs := nowUs }, ?_, hkey.trans hid.symm⟩
      simp only [Keyed.insert, hkey, herase]
    unfold Agrees at h ⊢
    cases hp : m.runner.live.phase
    all_goals simp only [hp] at h ⊢
    all_goals first | exact absurd h.1 hne | exact ⟨htouch h.1, h.2⟩

/-- A fault names a session only while the branch is active. -/
theorem agrees_fault {m : Media} (h : Agrees m) (null : StateChange) :
    Agrees (engineGstEvent m (faultSession m.runner) null) := by
  unfold engineGstEvent faultSession
  by_cases ha : m.runner.branchActive
  · rw [if_pos ha]
    dsimp only
    split
    · exact h
    · refine agrees_stop h (fun hp => ?_) null
      simp only [Agrees, hp] at h
      rw [h.2.2.1] at ha
      cases ha
  · rw [if_neg ha]
    exact h

theorem agrees_bus {m : Media} (h : Agrees m) (msg : BusMessage) (null : StateChange) :
    Agrees (runnerBusCb m msg null) := by
  cases msg with
  | error text => exact (agrees_fault h null).baseReady false
  | eos => exact agrees_fault h null
  | stateChanged fromBranch new pending =>
    unfold runnerBusCb
    dsimp only
    split
    · next hc =>
      simp only [Agrees, hc.1] at h
      exact ⟨h.1, h.2.1, h.2.2.1, rfl⟩
    · exact h

theorem agrees_idle {m : Media} (h : Agrees m) (hi : m.runner.live.teardownIdle = true) :
    Agrees { m with runner := destroyIdle m.runner } := by
  unfold Agrees at h
  cases hp : m.runner.live.phase
  all_goals simp only [hp] at h
  case busDrain =>
    have hdestroy : destroyIdle m.runner = { m.runner with live := { m.runner.live with
        branch := false, phase := .destroyed, sessionId := [], fps := 0, bitrate := 0
        teardownIdle := false } } := by
      simp [destroyIdle, hp, h.2.1]
    rw [hdestroy]
    exact ⟨h.1, rfl, h.2.2.1, rfl⟩
  all_goals
    rw [h.2.2.2] at hi
    cases hi

/-! ## Runs -/

/-- The input does not retry a stop whose NULL transition failed. -/
def Spared (m : Media) : Input → Prop
  | .stop sessionId _ => Unfailed m sessionId
  | .reap timeoutUs nowUs _ =>
    m.runner.live.phase = .failed → sessionMgrExpired m nowUs timeoutUs = none
  | _ => True

def AllSpared (m : Media) : List Input → Prop
  | [] => True
  | i :: is => Spared m i ∧ AllSpared (step m i) is

theorem agrees_step {m : Media} (h : Agrees m) {i : Input} (hs : Spared m i) :
    Agrees (step m i) := by
  cases i with
  | start p calls nowUs => exact agrees_start h p calls nowUs
  | stop sessionId null => exact agrees_stop h hs null
  | touch sessionId nowUs => exact agrees_touch h sessionId nowUs
  | bus msg null => exact agrees_bus h msg null
  | idle =>
    unfold step
    dsimp only
    split
    · next hi => exact agrees_idle h hi
    · exact h
  | reap timeoutUs nowUs null =>
    unfold step engineReapExpired
    dsimp only
    split
    · exact h
    · next id hexp =>
      refine agrees_stop h (fun hp => ?_) null
      rw [hs hp] at hexp
      cases hexp

theorem agrees_run {m : Media} (h : Agrees m) {inputs : List Input} (hs : AllSpared m inputs) :
    Agrees (run m inputs) := by
  induction inputs generalizing m with
  | nil => exact h
  | cons i is ih => exact ih (agrees_step h hs.1) hs.2

/-- **Table and branch agree** in every state of a run that never retries a failed stop: when the
table is empty and no teardown is under way, the runner holds no branch and the next start is not
refused for one. -/
theorem empty_table_holds_no_branch {streamRotation : ℤ} {analytics : Bool} {baseError : Bytes}
    {inputs : List Input} (hs : AllSpared (.fresh streamRotation analytics baseError) inputs)
    (he : (run (.fresh streamRotation analytics baseError) inputs).sessions = [])
    (ht : tearingDown (run (.fresh streamRotation analytics baseError) inputs).runner = false) :
    (run (.fresh streamRotation analytics baseError) inputs).runner.live.branch = false ∧
      ((run (.fresh streamRotation analytics baseError) inputs).runner.live.phase = .idle ∨
        (run (.fresh streamRotation analytics baseError) inputs).runner.live.phase = .destroyed) ∧
      unavailable (run (.fresh streamRotation analytics baseError) inputs).runner = false :=
  (agrees_run (agrees_fresh streamRotation analytics baseError) hs).free he ht

/-! ### A stop and its retry -/

def demoParams : SessionParams :=
  { sessionId := ascii "call-1", channelId := ascii "camera-0", codec := ascii "h264", width := 1920
    height := 1080, fps := 30, bitrate := 2048, destIp := ascii "10.0.0.2", destPort := 30000
    ssrc := 1, payloadType := 96 }

/-- Every GStreamer call succeeds. -/
def smoothStart : StartCalls :=
  ⟨true, true, true, true, true, true, true, true, true, true, true, 0, .async⟩

/-- A session that is stopped, with the NULL message and the idle callback behind it. -/
def startStop : List Input :=
  [.start demoParams smoothStart 0, .stop (ascii "call-1") .async,
    .bus (.stateChanged true .null .voidPending) .success, .idle]

/-- The NULL transition of the stop fails, and the stop is retried. -/
def retriedStop : List Input :=
  [.start demoParams smoothStart 0, .stop (ascii "call-1") .failure,
    .stop (ascii "call-1") .success]

theorem empty_table_holds_no_branch_demo :
    (run (.fresh 0 true []) startStop).runner.live.phase = .destroyed ∧
    (run (.fresh 0 true []) startStop).runner.live.branch = false := by
  have hs : AllSpared (.fresh 0 true []) startStop := by
    refine ⟨trivial, fun hp => ?_, trivial, trivial, trivial⟩
    revert hp
    decide +kernel
  exact ⟨by decide +kernel, (empty_table_holds_no_branch hs (by decide +kernel)
    (by decide +kernel)).1⟩

/-- After the retry the table is empty and no teardown is under way, but the branch is still held,
and so it is refused to every later session. -/
theorem retried_stop_keeps_branch :
    (run (.fresh 0 true []) retriedStop).sessions = [] ∧
    tearingDown (run (.fresh 0 true []) retriedStop).runner = false ∧
    (run (.fresh 0 true []) retriedStop).runner.live.phase = .failed ∧
    (run (.fresh 0 true []) retriedStop).runner.live.branch = true ∧
    (run (.fresh 0 true []) retriedStop).runner.baseReady = true ∧
    (sessionMgrStart (run (.fresh 0 true []) retriedStop) { demoParams with
      sessionId := ascii "call-2" } smoothStart 1).1 = .media := by
  decide +kernel

end FlowAlarm.Live
