import FlowAlarm.Data.Keyed
import FlowAlarm.Engine.Observation
import FlowAlarm.Trace.Throughout

/-!
# The RockIVA runner

`rockiva_runner.c` pushes video frames into RockIVA and turns its results into
observations. A frame's stream, epoch and PTS are kept in a table from the push
until RockIVA releases the frame; a result for a frame that is not in the table
is filed under the stream of the moment.

Pushes, stream switches, releases and results come from four threads and are
taken one at a time under the runner's lock: `Input` is anything that may take
it next. `System` remembers the frames pushed so far beside the runner.
`attribution_iff` says when every observation belongs to the stream its frame
was pushed in.
-/

namespace FlowAlarm.Rockiva

open FlowAlarm.Text FlowAlarm.Trace FlowAlarm.Engine

/-! ## The runner -/

def gstClockTimeNone : ℕ := 2 ^ 64 - 1

def meRockivaChannelId : ℕ := 0

structure MeRockivaFrame where
  fd : Int
  pts : ℕ
  width : ℕ
  height : ℕ
  hstride : ℕ
  stride : Int
  streamEpoch : ℕ
  channelId : CStr
  detectionSeen : Bool
  releaseSeen : Bool
  deriving DecidableEq

/-- What `inspect_sample` finds in a sample it accepts. -/
structure MeRockivaLayout where
  fd : Int
  width : ℕ
  height : ℕ
  hstride : ℕ
  stride : Int
  deriving DecidableEq

structure MeRockivaRunner where
  /-- The frames in RockIVA's hands, by frame id. -/
  frames : List (ℕ × MeRockivaFrame)
  stopping : Bool
  pendingFrames : ℕ
  nextFrameId : ℕ
  rejectedSamples : ℕ
  streamEpoch : ℕ
  channelId : CStr
  modelVersion : CStr
  backendVersion : CStr
  config : MeAnalyticsConfig
  deriving DecidableEq

def camera : CStr := .ofBytes (ascii "camera") (by decide)

def unknown : CStr := .ofBytes (ascii "unknown") (by decide)

theorem rockiva_nonul : 0 ∉ ascii "rockiva" := by decide

def rockiva : CStr := .ofBytes (ascii "rockiva") rockiva_nonul

/-- `if (s[0])`. -/
def orUnknown (s : CStr) : CStr := if s.bytes = [] then unknown else s

/-- `me_rockiva_runner_new`; `version` is what RockIVA reports. -/
def meRockivaRunnerNew (config : MeAnalyticsConfig) (version : CStr) : MeRockivaRunner where
  frames := []
  stopping := false
  pendingFrames := 0
  nextFrameId := 0
  rejectedSamples := 0
  streamEpoch := 1
  channelId := camera
  modelVersion := config.model.snprintf meAnalyticsModelVersionMax
  backendVersion := (orUnknown version).snprintf meAnalyticsVersionMax
  config := config

def MeRockivaRunner.lookup (r : MeRockivaRunner) (frameId : ℕ) : Option MeRockivaFrame :=
  (Keyed.lookup Prod.fst frameId r.frames).map Prod.snd

/-- A frame leaves the table. -/
def MeRockivaRunner.steal (r : MeRockivaRunner) (frameId : ℕ) : MeRockivaRunner :=
  { r with frames := Keyed.erase Prod.fst frameId r.frames, pendingFrames := r.pendingFrames - 1 }

/-- `me_rockiva_runner_set_stream`. -/
def meRockivaRunnerSetStream (r : MeRockivaRunner) (channelId : Option CStr) (streamEpoch : ℕ) :
    MeRockivaRunner :=
  { r with
    channelId := match channelId with
      | none => camera
      | some s => if s.bytes = [] then camera else s.snprintf meAnalyticsChannelIdMax
    streamEpoch := if streamEpoch = 0 then 1 else streamEpoch }

/-! ## Pushing -/

/-- The search of `next_frame_id_locked`, over `attempts` more candidates. -/
def nextFrameId (r : MeRockivaRunner) : (attempts : ℕ) → (last : ℕ) → Option ℕ × ℕ
  | 0, last => (none, last)
  | attempts + 1, last =>
    let candidate := (last + 1) % 2 ^ 32
    if candidate ≠ 0 ∧ r.lookup candidate = none then (some candidate, candidate)
    else nextFrameId r attempts candidate

/-- `new_sample_callback` up to `ROCKIVA_PushFrame`: the runner, and the frame id that is pushed. -/
def newSample (r : MeRockivaRunner) (layout : Option MeRockivaLayout) (pts : ℕ) :
    MeRockivaRunner × Option ℕ :=
  if r.stopping then (r, none)
  else
    match layout with
    | none => ({ r with rejectedSamples := r.rejectedSamples + 1 }, none)
    | some layout =>
      match nextFrameId r uint32Max r.nextFrameId with
      | (none, last) => ({ r with nextFrameId := last }, none)
      | (some frameId, last) =>
        ({ r with
            nextFrameId := last
            frames := Keyed.insert Prod.fst (frameId,
              { fd := layout.fd
                pts := pts
                width := layout.width
                height := layout.height
                hstride := layout.hstride
                stride := layout.stride
                streamEpoch := r.streamEpoch
                channelId := r.channelId.snprintf meAnalyticsChannelIdMax
                detectionSeen := false
                releaseSeen := false }) r.frames
            pendingFrames := r.pendingFrames + 1 },
          some frameId)

/-- The rest of `new_sample_callback`: a frame whose push failed is taken back, unless RockIVA
has called back for it. -/
def pushReturned (r : MeRockivaRunner) (frameId : ℕ) (success : Bool) : MeRockivaRunner :=
  match r.lookup frameId with
  | none => r
  | some frame =>
    if success ∨ frame.detectionSeen ∨ frame.releaseSeen then r else r.steal frameId

/-! ## Releases -/

structure RockIvaImage where
  frameId : ℕ
  channelId : ℕ
  dataFd : Int
  dataAddr : ℕ
  dataPhyAddr : ℕ
  deriving DecidableEq

/-- One image of `release_callback`. -/
def releaseImage (r : MeRockivaRunner) (released : RockIvaImage) : MeRockivaRunner :=
  match r.lookup released.frameId with
  | none => r
  | some frame =>
    if frame.fd ≠ released.dataFd ∨ released.channelId ≠ meRockivaChannelId ∨
        released.dataAddr ≠ 0 ∨ released.dataPhyAddr ≠ 0 then r
    else r.steal released.frameId

/-! ## Results -/

inductive RockIvaObjectState where
  | first | tracking | lost | dispear | other
  deriving DecidableEq

structure RockIvaObjectInfo where
  person : Bool
  objId : ℕ
  state : RockIvaObjectState
  topLeftX : Int
  topLeftY : Int
  bottomRightX : Int
  bottomRightY : Int
  score : ℕ
  deriving DecidableEq

structure RockIvaDetectResult where
  frameId : ℕ
  objInfo : List RockIvaObjectInfo
  deriving DecidableEq

def clampCoord (value : Int) : ℕ :=
  if value < 0 then 0
  else if (meAnalyticsCoordScale : Int) < value then meAnalyticsCoordScale
  else value.toNat

def mapTrackState : RockIvaObjectState → Option MeTrackState
  | .first => some .new
  | .tracking => some .active
  | .lost => some .lost
  | .dispear => some .removed
  | .other => none

/-- One object of the result, added to the tracks. -/
def addObject (tracks : List MeTrackObservation) (object : RockIvaObjectInfo) :
    List MeTrackObservation :=
  match mapTrackState object.state with
  | none => tracks
  | some state =>
    if !object.person ∨ object.objId = 0 ∨ meAnalyticsMaxTracks ≤ tracks.length then tracks
    else
      let left := clampCoord object.topLeftX
      let top := clampCoord object.topLeftY
      let right := clampCoord object.bottomRightX
      let bottom := clampCoord object.bottomRightY
      if right ≤ left ∨ bottom ≤ top then tracks
      else tracks ++ [{
        trackId := object.objId
        classId := .person
        state := state
        bbox := ⟨left, top, right, bottom⟩
        scoreQ := if 100 ≤ object.score then meAnalyticsCoordScale else object.score * 100 }]

/-- A PTS that an observation can carry. -/
def PtsValid (pts : ℕ) : Prop := pts ≠ gstClockTimeNone ∧ pts ≤ int64Max

instance (pts : ℕ) : Decidable (PtsValid pts) := inferInstanceAs (Decidable (_ ∧ _))

/-- What a result is filed under. -/
structure FrameContext where
  pts : ℕ
  width : ℕ
  height : ℕ
  streamEpoch : ℕ
  channelId : CStr
  deriving DecidableEq

/-- The context of a frame, or the runner's own if the frame is not in the table. -/
def MeRockivaRunner.context (r : MeRockivaRunner) : Option MeRockivaFrame → FrameContext
  | some frame =>
    { pts := frame.pts
      width := frame.width
      height := frame.height
      streamEpoch := frame.streamEpoch
      channelId := frame.channelId.snprintf meAnalyticsChannelIdMax }
  | none =>
    { pts := gstClockTimeNone
      width := (r.config.width % 2 ^ 32).toNat
      height := (r.config.height % 2 ^ 32).toNat
      streamEpoch := r.streamEpoch
      channelId := r.channelId.snprintf meAnalyticsChannelIdMax }

/-- `frame->detection_seen = true`. -/
def MeRockivaRunner.seeDetection (r : MeRockivaRunner) (frameId : ℕ) : MeRockivaRunner :=
  match r.lookup frameId with
  | none => r
  | some frame => { r with
      frames := Keyed.insert Prod.fst (frameId, { frame with detectionSeen := true }) r.frames }

/-- The observation `detect_callback` passes on; the result's array holds `maxObjNum` objects. -/
def observe (maxObjNum : ℕ) (r : MeRockivaRunner) (result : RockIvaDetectResult) :
    Option MeNormalizedObservation :=
  let context := r.context (r.lookup result.frameId)
  if context.channelId.bytes = [] ∨ context.streamEpoch = 0 ∨ result.frameId = 0 then none
  else some { meObservationInit with
    channelId := context.channelId
    streamEpoch := context.streamEpoch
    frameId := result.frameId
    frameWidth := context.width
    frameHeight := context.height
    backendName := rockiva
    backendVersion := orUnknown r.backendVersion
    modelVersion := orUnknown r.modelVersion
    sourcePts := if PtsValid context.pts then context.pts else 0
    sourcePtsValid := decide (PtsValid context.pts)
    tracks := (result.objInfo.take maxObjNum).foldl addObject [] }

/-- `detect_callback`. -/
def detectCallback (maxObjNum : ℕ) (r : MeRockivaRunner) (success : Bool)
    (result : Option RockIvaDetectResult) : MeRockivaRunner × Option MeNormalizedObservation :=
  match success, result with
  | true, some result => (r.seeDetection result.frameId, observe maxObjNum r result)
  | _, _ => (r, none)

/-! ## Interleavings -/

/-- A pushed frame, with the stream in force at its push. -/
structure Push where
  frameId : ℕ
  channelId : CStr
  streamEpoch : ℕ
  pts : ℕ
  deriving DecidableEq

/-- The runner and the frames pushed so far, the latest first. -/
structure System where
  runner : MeRockivaRunner
  pushes : List Push
  deriving DecidableEq

/-- The push a frame id stands for: the latest under that id, which wraps around. -/
def System.push (s : System) (frameId : ℕ) : Option Push :=
  Keyed.lookup Push.frameId frameId s.pushes

inductive Input where
  /-- A sample arrives, `none` if `inspect_sample` rejects it. -/
  | sample (layout : Option MeRockivaLayout) (pts : ℕ)
  /-- `ROCKIVA_PushFrame` returns. -/
  | pushed (frameId : ℕ) (success : Bool)
  | setStream (channelId : Option CStr) (streamEpoch : ℕ)
  /-- One image of a release callback. -/
  | release (released : RockIvaImage)
  | detect (success : Bool) (result : Option RockIvaDetectResult)
  /-- `me_rockiva_runner_free` begins. -/
  | stop

variable (maxObjNum : ℕ)

/-- One callback under the lock, and the observation it passes on. -/
def step (s : System) : Input → System × Option MeNormalizedObservation
  | .sample layout pts =>
    match newSample s.runner layout pts with
    | (r, none) => ({ s with runner := r }, none)
    | (r, some frameId) =>
      (⟨r, ⟨frameId, s.runner.channelId, s.runner.streamEpoch, pts⟩ :: s.pushes⟩, none)
  | .pushed frameId success => ({ s with runner := pushReturned s.runner frameId success }, none)
  | .setStream channelId epoch =>
    ({ s with runner := meRockivaRunnerSetStream s.runner channelId epoch }, none)
  | .release released => ({ s with runner := releaseImage s.runner released }, none)
  | .detect success result =>
    let (r, observation) := detectCallback maxObjNum s.runner success result
    ({ s with runner := r }, observation)
  | .stop => ({ s with runner := { s.runner with stopping := true } }, none)

def System.fresh (config : MeAnalyticsConfig) (version : CStr) : System :=
  ⟨meRockivaRunnerNew config version, []⟩

/-- The observation carries the stream its frame was pushed in, and the frame's PTS if valid. -/
def Carries (s : System) (o : MeNormalizedObservation) : Prop :=
  ∃ p ∈ s.push o.frameId, o.channelId = p.channelId ∧ o.streamEpoch = p.streamEpoch ∧
    (PtsValid p.pts → o.sourcePtsValid = true ∧ o.sourcePts = p.pts)

/-- The result finds its frame in the table, or nothing is lost with it: the stream has not been
switched since the push and the frame had no valid PTS. -/
def Timely (s : System) (frameId : ℕ) : Prop :=
  (s.runner.lookup frameId).isSome = true ∨
    ∃ p ∈ s.push frameId, s.runner.channelId = p.channelId ∧
      s.runner.streamEpoch = p.streamEpoch ∧ ¬ PtsValid p.pts

instance (s : System) (frameId : ℕ) : Decidable (Timely s frameId) :=
  inferInstanceAs (Decidable (_ ∨ _))

instance (s : System) (o : MeNormalizedObservation) : Decidable (Carries s o) :=
  inferInstanceAs (Decidable (∃ p ∈ _, _))

/-- The result a detection callback brings. -/
def Input.result : Input → Option RockIvaDetectResult
  | .detect true result => result
  | _ => none

/-- The system behind one callback. -/
abbrev next (s : System) (i : Input) : System := (step maxObjNum s i).1

/-! ## The table -/

theorem lookup_insert (r : MeRockivaRunner) (id k : ℕ) (frame : MeRockivaFrame) :
    { r with frames := Keyed.insert Prod.fst (id, frame) r.frames }.lookup k =
      if id = k then some frame else r.lookup k := by
  simp only [MeRockivaRunner.lookup, Keyed.lookup_insert]
  split <;> rfl

theorem lookup_steal (r : MeRockivaRunner) (id k : ℕ) :
    (r.steal id).lookup k = if k = id then none else r.lookup k := by
  simp only [MeRockivaRunner.lookup, MeRockivaRunner.steal, Keyed.lookup_erase]
  split <;> rfl

/-- The stream and the PTS a frame was pushed with. -/
def MeRockivaFrame.IsOf (frame : MeRockivaFrame) (p : Push) : Prop :=
  frame.channelId = p.channelId ∧ frame.streamEpoch = p.streamEpoch ∧ frame.pts = p.pts

/-- Frames only leave the table or keep what they were pushed with; the stream stays. -/
structure Keeps (r r' : MeRockivaRunner) : Prop where
  frames : ∀ {id frame'}, r'.lookup id = some frame' → ∃ frame, r.lookup id = some frame ∧
    ∀ p, frame.IsOf p → frame'.IsOf p
  channelId : r'.channelId = r.channelId
  streamEpoch : r'.streamEpoch = r.streamEpoch

theorem Keeps.of_frames {r r' : MeRockivaRunner} (h : r'.frames = r.frames)
    (hc : r'.channelId = r.channelId) (he : r'.streamEpoch = r.streamEpoch) : Keeps r r' := by
  refine ⟨fun {id frame'} hl => ⟨frame', ?_, fun _ hp => hp⟩, hc, he⟩
  rwa [MeRockivaRunner.lookup, h] at hl

theorem Keeps.refl (r : MeRockivaRunner) : Keeps r r := .of_frames rfl rfl rfl

theorem keeps_steal (r : MeRockivaRunner) (id : ℕ) : Keeps r (r.steal id) := by
  refine ⟨fun h => ?_, rfl, rfl⟩
  rw [lookup_steal] at h
  split at h
  · cases h
  · exact ⟨_, h, fun _ hp => hp⟩

theorem keeps_seeDetection (r : MeRockivaRunner) (id : ℕ) : Keeps r (r.seeDetection id) := by
  unfold MeRockivaRunner.seeDetection
  split
  · exact .refl r
  next frame hframe =>
    refine ⟨fun {k frame'} h => ?_, rfl, rfl⟩
    rw [lookup_insert] at h
    split at h
    · next hk =>
      cases h
      exact ⟨frame, hk ▸ hframe, fun _ hp => hp⟩
    · exact ⟨frame', h, fun _ hp => hp⟩

theorem keeps_pushReturned (r : MeRockivaRunner) (id : ℕ) (success : Bool) :
    Keeps r (pushReturned r id success) := by
  unfold pushReturned
  split
  · exact .refl r
  · split
    · exact .refl r
    · exact keeps_steal r id

theorem keeps_releaseImage (r : MeRockivaRunner) (released : RockIvaImage) :
    Keeps r (releaseImage r released) := by
  unfold releaseImage
  split
  · exact .refl r
  · split
    · exact .refl r
    · exact keeps_steal r _

theorem nextFrameId_ne_zero {r : MeRockivaRunner} {attempts last id last' : ℕ}
    (h : nextFrameId r attempts last = (some id, last')) : id ≠ 0 := by
  induction attempts generalizing last with
  | zero => cases h
  | succ attempts ih =>
    rw [nextFrameId] at h
    split at h
    · next hc =>
      cases h
      exact hc.1
    · exact ih h

/-! ## The invariant -/

/-- A channel id and an epoch that observations can carry. -/
structure StreamOk (channelId : CStr) (streamEpoch : ℕ) : Prop where
  present : channelId.bytes ≠ []
  fits : channelId.bytes.length < meAnalyticsChannelIdMax
  epoch : streamEpoch ≠ 0

structure Inv (s : System) : Prop where
  table : ∀ {id frame}, s.runner.lookup id = some frame → ∃ p, s.push id = some p ∧ frame.IsOf p
  current : StreamOk s.runner.channelId s.runner.streamEpoch
  pushed : ∀ {p}, p ∈ s.pushes → p.frameId ≠ 0 ∧ StreamOk p.channelId p.streamEpoch

theorem inv_fresh (config : MeAnalyticsConfig) (version : CStr) : Inv (.fresh config version) := by
  have hcamera : camera.bytes ≠ [] ∧ camera.bytes.length < meAnalyticsChannelIdMax := by decide
  refine ⟨fun h => ?_, ⟨hcamera.1, hcamera.2, Nat.one_ne_zero⟩, fun h => ?_⟩
  · cases h
  · cases h

theorem Inv.keeps {s : System} (h : Inv s) {r : MeRockivaRunner} (hk : Keeps s.runner r) :
    Inv { s with runner := r } := by
  refine ⟨fun hl => ?_, ?_, h.pushed⟩
  · obtain ⟨frame, hframe, hsame⟩ := hk.frames hl
    obtain ⟨p, hp, hof⟩ := h.table hframe
    exact ⟨p, hp, hsame p hof⟩
  · rw [hk.channelId, hk.streamEpoch]
    exact h.current

theorem streamOk_setStream (r : MeRockivaRunner) (channelId : Option CStr) (epoch : ℕ) :
    StreamOk (meRockivaRunnerSetStream r channelId epoch).channelId
      (meRockivaRunnerSetStream r channelId epoch).streamEpoch := by
  have hepoch : (if epoch = 0 then 1 else epoch) ≠ 0 := by split <;> omega
  have hcamera : camera.bytes ≠ [] ∧ camera.bytes.length < meAnalyticsChannelIdMax := by decide
  cases channelId with
  | none => exact ⟨hcamera.1, hcamera.2, hepoch⟩
  | some c =>
    by_cases hc : c.bytes = []
    · simp only [meRockivaRunnerSetStream, hc, if_true]
      exact ⟨hcamera.1, hcamera.2, hepoch⟩
    · simp only [meRockivaRunnerSetStream, hc, if_false]
      refine ⟨?_, ?_, hepoch⟩
      · simpa [CStr.snprintf, meAnalyticsChannelIdMax] using hc
      · simp only [CStr.snprintf, List.length_take, meAnalyticsChannelIdMax]
        omega

theorem newSample_none {r r' : MeRockivaRunner} {layout : Option MeRockivaLayout} {pts : ℕ}
    (h : newSample r layout pts = (r', none)) : Keeps r r' := by
  unfold newSample at h
  split at h
  · cases h
    exact .refl r
  split at h
  · cases h
    exact .of_frames rfl rfl rfl
  split at h
  · cases h
    exact .of_frames rfl rfl rfl
  · cases h

/-- A pushed sample enters the table under a new id with the stream in force. -/
theorem newSample_some {r r' : MeRockivaRunner} {layout : Option MeRockivaLayout} {pts id : ℕ}
    (h : newSample r layout pts = (r', some id)) :
    id ≠ 0 ∧ r'.channelId = r.channelId ∧ r'.streamEpoch = r.streamEpoch ∧
      ∃ frame, (∀ k, r'.lookup k = if id = k then some frame else r.lookup k) ∧
        frame.channelId = r.channelId.snprintf meAnalyticsChannelIdMax ∧
        frame.streamEpoch = r.streamEpoch ∧ frame.pts = pts := by
  unfold newSample at h
  split at h
  · cases h
  split at h
  · cases h
  split at h
  · cases h
  · next hnext =>
    cases h
    exact ⟨nextFrameId_ne_zero hnext, rfl, rfl, _, fun k => lookup_insert r _ k _, rfl, rfl, rfl⟩

theorem inv_step {s : System} (h : Inv s) (i : Input) : Inv (step maxObjNum s i).1 := by
  cases i with
  | sample layout pts =>
    rcases hn : newSample s.runner layout pts with ⟨r, _ | id⟩
    · simp only [step, hn]
      exact h.keeps (newSample_none hn)
    · obtain ⟨hid, hc, he, frame, hl, hfc, hfe, hfp⟩ := newSample_some hn
      simp only [step, hn]
      refine ⟨fun {k frame'} hk => ?_, ?_, fun {p} hp => ?_⟩
      · have hpush : ∀ q : Push, System.push ⟨r, q :: s.pushes⟩ k =
            if q.frameId = k then some q else s.push k := fun q => Keyed.lookup_cons
        rw [hl] at hk
        simp only [hpush]
        split at hk
        · next hik =>
          cases hk
          exact ⟨_, if_pos hik, by rw [hfc, CStr.snprintf_eq h.current.fits], hfe, hfp⟩
        · next hik =>
          obtain ⟨p, hp, hof⟩ := h.table hk
          exact ⟨p, by rw [if_neg hik, hp], hof⟩
      · simp only [hc, he]
        exact h.current
      · rcases List.mem_cons.mp hp with rfl | hp
        · exact ⟨hid, h.current⟩
        · exact h.pushed hp
  | pushed id success => exact h.keeps (keeps_pushReturned _ _ _)
  | setStream channelId epoch => exact ⟨h.table, streamOk_setStream _ _ _, h.pushed⟩
  | release released => exact h.keeps (keeps_releaseImage _ _)
  | detect success result =>
    cases success <;> cases result <;>
      first
      | exact h
      | exact h.keeps (keeps_seeDetection _ _)
  | stop => exact ⟨h.table, h.current, h.pushed⟩

/-! ## Attribution -/

/-- A result for a pushed frame is passed on, under the right stream if and only if it is timely. -/
theorem observe_carries {s : System} (h : Inv s) {result : RockIvaDetectResult} {p : Push}
    (hp : s.push result.frameId = some p) :
    ∃ o, observe maxObjNum s.runner result = some o ∧
      (Carries s o ↔ Timely s result.frameId) := by
  obtain ⟨hid, hok⟩ := h.pushed (Keyed.lookup_mem hp)
  rw [Keyed.lookup_key hp] at hid
  cases hl : s.runner.lookup result.frameId with
  | some frame =>
    obtain ⟨q, hq, hc, he, hpts⟩ := h.table hl
    obtain rfl : q = p := Option.some.inj (hq.symm.trans hp)
    have hchannel : frame.channelId.snprintf meAnalyticsChannelIdMax = q.channelId := by
      rw [hc, CStr.snprintf_eq hok.fits]
    have hguard : ¬ (q.channelId.bytes = [] ∨ q.streamEpoch = 0 ∨ result.frameId = 0) := by
      rintro (hx | hx | hx)
      · exact hok.present hx
      · exact hok.epoch hx
      · exact hid hx
    simp only [observe, hl, MeRockivaRunner.context, hchannel, he, hpts, if_neg hguard]
    refine ⟨_, rfl, iff_of_true ⟨q, hp, rfl, rfl, fun hv => ?_⟩ (.inl (by rw [hl]; rfl))⟩
    exact ⟨decide_eq_true hv, if_pos hv⟩
  | none =>
    have hchannel := CStr.snprintf_eq h.current.fits
    have hguard : ¬ (s.runner.channelId.bytes = [] ∨ s.runner.streamEpoch = 0 ∨
        result.frameId = 0) := by
      rintro (hx | hx | hx)
      · exact h.current.present hx
      · exact h.current.epoch hx
      · exact hid hx
    have hnone : ¬ PtsValid gstClockTimeNone := fun hv => hv.1 rfl
    simp only [observe, hl, MeRockivaRunner.context, hchannel, if_neg hguard]
    refine ⟨_, rfl, ?_⟩
    simp only [Carries, Timely, hl, hp, Option.isSome_none, Bool.false_eq_true, false_or,
      hnone, decide_false, false_and, imp_false]

/-- RockIVA's results name frames that were pushed. -/
def Named (s : System) (i : Input) : Prop :=
  ∀ result ∈ i.result, (s.push result.frameId).isSome = true

/-- The observation passed on, if there is one, is filed right. -/
def Attributed (s : System) (i : Input) : Prop := ∀ o ∈ (step maxObjNum s i).2, Carries s o

/-- The result that comes, if one comes, is timely. -/
def ResultTimely (s : System) (i : Input) : Prop := ∀ result ∈ i.result, Timely s result.frameId

instance (s : System) (i : Input) : Decidable (Named s i) :=
  inferInstanceAs (Decidable (∀ result ∈ _, _))

instance (s : System) (i : Input) : Decidable (Attributed maxObjNum s i) :=
  inferInstanceAs (Decidable (∀ o ∈ _, _))

instance (s : System) (i : Input) : Decidable (ResultTimely s i) :=
  inferInstanceAs (Decidable (∀ result ∈ _, _))

/-- **Every observation is filed right if and only if every result is timely**, in any order of
pushes, stream switches, releases and results. -/
theorem attribution_iff {config : MeAnalyticsConfig} {version : CStr} {inputs : List Input}
    (hnamed : Throughout (next maxObjNum) Named (.fresh config version) inputs) :
    Throughout (next maxObjNum) (Attributed maxObjNum) (.fresh config version) inputs ↔
      Throughout (next maxObjNum) ResultTimely (.fresh config version) inputs := by
  have hstep : ∀ s i, Inv s → Named s i → Inv (next maxObjNum s i) :=
    fun s i hs _ => inv_step maxObjNum hs i
  refine throughout_congr hstep (fun s i hs hn => ?_) (inv_fresh config version) hnamed
  have nothing : ∀ {i : Input}, i.result = none → (step maxObjNum s i).2 = none →
      (Attributed maxObjNum s i ↔ ResultTimely s i) := by
    intro i hr ho
    simp only [Attributed, ResultTimely, hr, ho, Option.not_mem_none, false_implies, implies_true]
  cases i with
  | detect success result =>
    cases success with
    | false => exact nothing rfl rfl
    | true =>
      cases result with
      | none => exact nothing rfl rfl
      | some result =>
        obtain ⟨p, hp⟩ := Option.isSome_iff_exists.mp (hn result rfl)
        obtain ⟨o, ho, hiff⟩ := observe_carries maxObjNum hs hp
        have hstep : (step maxObjNum s (.detect true (some result))).2 = some o := ho
        have hresult : (Input.detect true (some result)).result = some result := rfl
        simp only [Attributed, ResultTimely, hstep, hresult, Option.mem_def, Option.some.injEq,
          forall_eq', hiff]
  | sample layout pts =>
    refine nothing rfl ?_
    rcases hn : newSample s.runner layout pts with ⟨r, _ | id⟩ <;> simp only [step, hn]
  | pushed id success => exact nothing rfl rfl
  | setStream channelId epoch => exact nothing rfl rfl
  | release released => exact nothing rfl rfl
  | stop => exact nothing rfl rfl

/-! ## Runs that show it -/

/-- A frame of 640x360 in a buffer of file descriptor 5. -/
def sample (pts : ℕ) : Input := .sample (some ⟨5, 640, 360, 360, 640⟩) pts

def gate : CStr := .ofBytes (ascii "gate") (by decide)

/-- A stream switch between push and result does no harm. -/
theorem attribution_demo :
    Throughout (next 40) (Attributed 40) (.fresh meAnalyticsConfigDefaults unknown)
      [sample 1000, .setStream (some gate) 2, .detect true (some ⟨1, []⟩),
        .release ⟨1, 0, 5, 0, 0⟩] :=
  (attribution_iff 40 (by decide +kernel)).mpr (by decide +kernel)

/-- RockIVA may release a frame before it reports on it. After a stream switch the result is filed
under the new channel and epoch, without the frame's PTS. -/
theorem released_frame_misfiled :
    Throughout (next 40) Named (.fresh meAnalyticsConfigDefaults unknown)
      [sample 1000, .release ⟨1, 0, 5, 0, 0⟩, .setStream (some gate) 2,
        .detect true (some ⟨1, []⟩)] ∧
    ¬ Throughout (next 40) (Attributed 40) (.fresh meAnalyticsConfigDefaults unknown)
      [sample 1000, .release ⟨1, 0, 5, 0, 0⟩, .setStream (some gate) 2,
        .detect true (some ⟨1, []⟩)] := by
  decide +kernel

end FlowAlarm.Rockiva
