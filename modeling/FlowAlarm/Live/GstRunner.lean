import FlowAlarm.Data.Keyed
import FlowAlarm.Text.Bytes

/-!
# Live sessions over the GStreamer runner

`session_mgr.c` keeps the table of live sessions, `gst_runner.c` the one live
branch behind the tee of the base pipeline, and `engine.c` connects the two.
What GStreamer answers is an argument: `StartCalls` for the calls of
`gst_runner_start_live`, a `StateChange` for the NULL transition of a stop. An
`Input` is anything the main loop may dispatch next.
-/

namespace FlowAlarm.Live

open FlowAlarm.Text

/-! ## Data -/

inductive MeErr where
  | ok
  | media
  | notFound
  | param
  deriving DecidableEq

inductive LiveBranchPhase where
  | idle
  | starting
  | active
  | stopping
  | waitingNull
  | busDrain
  | destroyed
  | failed
  deriving DecidableEq

def LiveBranchPhase.code : LiveBranchPhase → ℕ
  | .idle => 0
  | .starting => 1
  | .active => 2
  | .stopping => 3
  | .waitingNull => 4
  | .busDrain => 5
  | .destroyed => 6
  | .failed => 7

inductive GstState where
  | voidPending
  | null
  | ready
  | paused
  | playing
  deriving DecidableEq

/-- `GstStateChangeReturn`. -/
inductive StateChange where
  | failure
  | success
  | async
  | noPreroll
  deriving DecidableEq

structure SessionParams where
  sessionId : Bytes
  channelId : Bytes
  codec : Bytes
  width : ℤ
  height : ℤ
  fps : ℤ
  bitrate : ℤ
  destIp : Bytes
  destPort : ℤ
  ssrc : ℕ
  payloadType : ℤ
  deriving DecidableEq

/-- The branch; its elements and pads are there or not. -/
structure LiveBranch where
  sessionId : Bytes
  fps : ℤ
  bitrate : ℤ
  teeSrc : Bool
  branchSink : Bool
  branch : Bool
  phase : LiveBranchPhase
  teardownIdle : Bool
  deriving DecidableEq

structure GstRunner where
  streamRotation : ℤ
  analytics : Bool
  analyticsStreamEpoch : ℕ
  baseReady : Bool
  baseError : Bytes
  live : LiveBranch
  branchActive : Bool
  deriving DecidableEq

structure MediaSession where
  params : SessionParams
  lastActivityUs : ℤ
  deriving DecidableEq

/-- The runner and the session table. -/
structure Media where
  runner : GstRunner
  sessions : List MediaSession
  deriving DecidableEq

/-! ## The branch -/

/-- What GStreamer answers while a branch is built and attached. -/
structure StartCalls where
  elements : Bool
  rotator : Bool
  rotationProperty : Bool
  properties : Bool
  linkQueue : Bool
  linkRotator : Bool
  linkRest : Bool
  binAdd : Bool
  queue : Bool
  sinkPad : Bool
  teePad : Bool
  /-- `GstPadLinkReturn`, zero for a link that holds. -/
  padLink : ℤ
  playing : StateChange

/-- `G_MAXUINT / 1000`. -/
def maxKbps : ℤ := (2 ^ 32 - 1) / 1000

/-- `create_live_branch`: nothing, or why there is no branch. -/
def createLiveBranch (p : SessionParams) (rotation : ℤ) (calls : StartCalls) : Option Bytes :=
  if !calls.elements then some (ascii "create live branch element failed")
  else if rotation ≠ 0 ∧ !calls.rotator then
    some (ascii "create rgarotate element failed (rotation requested)")
  else if rotation ≠ 0 ∧ !calls.rotationProperty then
    some (ascii "rgarotate missing rotation property")
  else if !calls.properties then
    some (ascii ("live branch element is missing required properties " ++
      "(mpph264enc bps / rtph264pay pt,ssrc,config-interval / udpsink host,port,sync)"))
  else if maxKbps < p.bitrate % 2 ^ 32 then
    some (ascii "bitrate too large: " ++ decInt p.bitrate ++ ascii " kbps")
  else if !calls.linkQueue then some (ascii "link queue to rotator/encoder failed")
  else if rotation ≠ 0 ∧ !calls.linkRotator then some (ascii "link rotator to encoder failed")
  else if !calls.linkRest then some (ascii "link live branch elements failed")
  else none

/-- The tests `gst_runner_start_live` refuses a branch on. -/
def unavailable (r : GstRunner) : Bool :=
  r.branchActive || r.live.branch || (r.live.phase != .idle && r.live.phase != .destroyed)

/-- The stream epoch moves on with every start and stop, past zero. -/
def advanceEpoch (r : GstRunner) : GstRunner :=
  if r.analytics then
    { r with analyticsStreamEpoch :=
        if r.analyticsStreamEpoch = 2 ^ 64 - 1 then 1 else r.analyticsStreamEpoch + 1 }
  else r

/-- The labels `fail_branch` of `gst_runner_start_live`: the branch is let go of. -/
def failBranch (r : GstRunner) : GstRunner :=
  { r with live := { r.live with
      teeSrc := false, branchSink := false, sessionId := [], fps := 0, bitrate := 0
      branch := false, phase := .destroyed } }

def gstRunnerStartLive (r : GstRunner) (p : SessionParams) (calls : StartCalls) :
    MeErr × Bytes × GstRunner :=
  if !r.baseReady then
    (.media, ascii "base pipeline not ready: " ++
      (if r.baseError = [] then ascii "starting" else r.baseError), r)
  else if unavailable r then
    (.media, ascii "live branch unavailable for session " ++ r.live.sessionId ++
      ascii " (phase=" ++ dec r.live.phase.code ++ ascii ")", r)
  else if p.codec ≠ ascii "h264" then
    (.param, ascii "unsupported codec \"" ++ p.codec ++ ascii "\" (V1 supports h264)", r)
  else
    match createLiveBranch p r.streamRotation calls with
    | some err => (.media, err, { r with live := { r.live with branch := false, phase := .idle } })
    | none =>
      if !calls.binAdd then
        (.media, ascii "add live branch to pipeline failed",
          { r with live := { r.live with branch := false, phase := .destroyed } })
      else if !calls.queue then (.media, ascii "live branch queue not found", failBranch r)
      else if !calls.sinkPad then (.media, ascii "live branch has no sink pad", failBranch r)
      else if !calls.teePad then (.media, ascii "tee request pad failed", failBranch r)
      else if calls.padLink ≠ 0 then
        (.media, ascii "tee pad link failed: " ++ decInt calls.padLink, failBranch r)
      else if calls.playing = .failure then
        (.media, ascii "live branch failed to PLAYING", failBranch r)
      else
        (.ok, [], advanceEpoch { r with
          live := { r.live with
            teeSrc := true, branchSink := true, fps := p.fps, bitrate := p.bitrate
            sessionId := p.sessionId, branch := true, phase := .active }
          branchActive := true })

/-- `live_branch_schedule_destroy`. -/
def scheduleDestroy (r : GstRunner) : GstRunner :=
  if r.live.phase ≠ .busDrain then r else { r with live := { r.live with teardownIdle := true } }

/-- `live_branch_destroy_idle`, when the main loop comes to it. -/
def destroyIdle (r : GstRunner) : GstRunner :=
  let r := { r with live := { r.live with teardownIdle := false } }
  if !r.live.branch then { r with live := { r.live with phase := .destroyed } }
  else if r.live.phase ≠ .busDrain then r
  else { r with live := { r.live with
    branch := false, phase := .destroyed, sessionId := [], fps := 0, bitrate := 0 } }

/-- `live_branch_teardown`: the pads are released whatever the NULL transition answers. -/
def teardown (r : GstRunner) : GstRunner :=
  { r with live := { r.live with teeSrc := false, branchSink := false }, branchActive := false }

def gstRunnerStopLive (r : GstRunner) (sessionId : Bytes) (null : StateChange) :
    MeErr × Bytes × GstRunner :=
  if (r.live.phase = .stopping ∨ r.live.phase = .waitingNull ∨ r.live.phase = .busDrain) ∧
      r.live.sessionId = sessionId then (.ok, [], r)
  else if !r.branchActive ∨ r.live.phase ≠ .active ∨ r.live.sessionId ≠ sessionId then
    (.notFound, ascii "no live branch for session " ++ sessionId, r)
  else
    let r := teardown r
    match null with
    | .failure => (.media, ascii "live branch failed to reach NULL",
        { r with live := { r.live with phase := .failed } })
    | .async => (.ok, [], advanceEpoch { r with live := { r.live with phase := .waitingNull } })
    | .success | .noPreroll =>
      (.ok, [], advanceEpoch (scheduleDestroy { r with live := { r.live with phase := .busDrain } }))

/-! ## The session table -/

/-- The key of a session in the table. -/
def sessionKey (s : MediaSession) : Bytes := s.params.sessionId

def sessionMgrHas (m : Media) (sessionId : Bytes) : Bool :=
  (Keyed.lookup sessionKey sessionId m.sessions).isSome

def sessionMgrStart (m : Media) (p : SessionParams) (calls : StartCalls) (nowUs : ℤ) :
    MeErr × Bytes × Media :=
  if sessionMgrHas m p.sessionId then
    (.media, ascii "session already exists: " ++ p.sessionId, m)
  else if m.sessions ≠ [] then
    (.media, ascii "media busy: one live session already active", m)
  else
    match gstRunnerStartLive m.runner p calls with
    | (.ok, err, r) =>
      (.ok, err, ⟨r, Keyed.insert sessionKey ⟨p, nowUs⟩ m.sessions⟩)
    | (rc, err, r) => (rc, err, { m with runner := r })

def sessionMgrTouch (m : Media) (sessionId : Bytes) (nowUs : ℤ) : MeErr × Bytes × Media :=
  match Keyed.lookup sessionKey sessionId m.sessions with
  | none => (.notFound, ascii "session not found: " ++ sessionId, m)
  | some s =>
    (.ok, [], ⟨m.runner, Keyed.insert sessionKey { s with lastActivityUs := nowUs } m.sessions⟩)

/-- The session whose lease has run out, if one has. -/
def sessionMgrExpired (m : Media) (nowUs timeoutUs : ℤ) : Option Bytes :=
  if timeoutUs ≤ 0 then none
  else
    match m.sessions.head? with
    | none => none
    | some s => if nowUs - s.lastActivityUs < timeoutUs then none else some (sessionKey s)

def sessionMgrStop (m : Media) (sessionId : Bytes) (null : StateChange) : MeErr × Bytes × Media :=
  match Keyed.lookup sessionKey sessionId m.sessions with
  | none => (.ok, [], m)
  | some _ =>
    match gstRunnerStopLive m.runner sessionId null with
    | (.ok, err, r) | (.notFound, err, r) =>
      (.ok, err, ⟨r, Keyed.erase sessionKey sessionId m.sessions⟩)
    | (rc, err, r) => (rc, err, { m with runner := r })

/-! ## The main loop -/

/-- A message on the pipeline's bus. -/
inductive BusMessage where
  | error (text : Bytes)
  | eos
  | stateChanged (fromBranch : Bool) (new pending : GstState)

/-- The session an error or EOS event names. -/
def faultSession (r : GstRunner) : Option Bytes :=
  if r.branchActive then some r.live.sessionId else none

/-- `engine_gst_event` for an error or EOS. -/
def engineGstEvent (m : Media) (sessionId : Option Bytes) (null : StateChange) : Media :=
  match sessionId with
  | none => m
  | some id => if id = [] then m else (sessionMgrStop m id null).2.2

/-- `runner_bus_cb`; `null` answers the stop a fault may lead to. -/
def runnerBusCb (m : Media) (msg : BusMessage) (null : StateChange) : Media :=
  match msg with
  | .error _ =>
    let m := engineGstEvent m (faultSession m.runner) null
    { m with runner := { m.runner with baseReady := false } }
  | .eos => engineGstEvent m (faultSession m.runner) null
  | .stateChanged fromBranch new pending =>
    if m.runner.live.phase = .waitingNull ∧ m.runner.live.branch ∧ fromBranch ∧ new = .null ∧
        pending = .voidPending then
      { m with runner := scheduleDestroy { m.runner with
          live := { m.runner.live with phase := .busDrain } } }
    else m

/-- `engine_reap_expired`. -/
def engineReapExpired (m : Media) (timeoutUs nowUs : ℤ) (null : StateChange) : Media :=
  match sessionMgrExpired m nowUs timeoutUs with
  | none => m
  | some id => (sessionMgrStop m id null).2.2

/-- What the main loop may dispatch next. -/
inductive Input where
  | start (p : SessionParams) (calls : StartCalls) (nowUs : ℤ)
  | stop (sessionId : Bytes) (null : StateChange)
  | touch (sessionId : Bytes) (nowUs : ℤ)
  | bus (msg : BusMessage) (null : StateChange)
  | idle
  | reap (timeoutUs nowUs : ℤ) (null : StateChange)

def step (m : Media) : Input → Media
  | .start p calls nowUs => (sessionMgrStart m p calls nowUs).2.2
  | .stop sessionId null => (sessionMgrStop m sessionId null).2.2
  | .touch sessionId nowUs => (sessionMgrTouch m sessionId nowUs).2.2
  | .bus msg null => runnerBusCb m msg null
  | .idle => if m.runner.live.teardownIdle then { m with runner := destroyIdle m.runner } else m
  | .reap timeoutUs nowUs null => engineReapExpired m timeoutUs nowUs null

def run (m : Media) (inputs : List Input) : Media := inputs.foldl step m

/-- `gst_runner_new` and `session_mgr_new`; the base pipeline is ready unless it reported an
error. -/
def Media.fresh (streamRotation : ℤ) (analytics : Bool) (baseError : Bytes) : Media :=
  { runner :=
      { streamRotation := streamRotation, analytics := analytics, analyticsStreamEpoch := 1
        baseReady := baseError = [], baseError := baseError
        live := ⟨[], 0, 0, false, false, false, .idle, false⟩, branchActive := false }
    sessions := [] }

end FlowAlarm.Live
