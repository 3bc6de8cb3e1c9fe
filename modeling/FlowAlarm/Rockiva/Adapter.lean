import FlowAlarm.Rockiva.RockivaRunner
import Mathlib.Data.List.Nodup
import Mathlib.Tactic.Linarith

/-!
# What the adapter passes on

`inspect_sample` accepts only frames of the configured size. From this and what
the runner keeps of its own texts, every observation the runner makes of a
result passes `me_observation_validate`, if the persons of the result carry
different ids.
-/

namespace FlowAlarm.Rockiva

open FlowAlarm.Text FlowAlarm.Engine

/-! ## Samples -/

def uint16Max : ℕ := 2 ^ 16 - 1

/-- A C `int` as `guint`. -/
def toGuint (z : Int) : ℕ := (z % 2 ^ 32).toNat

/-- A `guint` as `gint`. -/
def toGint (n : ℕ) : Int := if n < 2 ^ 31 then n else (n : Int) - 2 ^ 32

/-- Where the two planes of a frame lie in its buffer. -/
structure PlaneLayout where
  stride : Int
  uvStride : Int
  offset : ℕ
  uvOffset : ℕ
  deriving DecidableEq

structure GstVideoInfo where
  nv12 : Bool
  width : Int
  height : Int
  progressive : Bool
  nPlanes : ℕ
  planes : PlaneLayout
  deriving DecidableEq

structure GstVideoMeta where
  nv12 : Bool
  nPlanes : ℕ
  width : ℕ
  height : ℕ
  planes : PlaneLayout
  deriving DecidableEq

/-- What `inspect_sample` reads of a sample. -/
structure GstSample where
  hasBuffer : Bool
  /-- The number of structures of its caps, if it has caps. -/
  caps : Option ℕ
  videoInfo : Option GstVideoInfo
  nMemory : ℕ
  isDmabuf : Bool
  videoMeta : Option GstVideoMeta
  memoryOffset : ℕ
  visibleSize : ℕ
  bufferSize : ℕ
  fd : Int
  deriving DecidableEq

/-- The planes of a frame, from its metadata if it has any. -/
def planesOf (info : GstVideoInfo) : Option GstVideoMeta → Option PlaneLayout
  | none => some info.planes
  | some m =>
    if !m.nv12 ∨ m.nPlanes ≠ 2 ∨ m.width ≠ toGuint info.width ∨ m.height ≠ toGuint info.height then
      none
    else some m.planes

/-- The strides and offsets of a plain NV12 frame, one plane behind the other. -/
def plainPlanes (width : ℕ) (p : PlaneLayout) : Bool :=
  0 < p.stride && 0 < p.uvStride && toGint width ≤ p.stride && toGint width ≤ p.uvStride &&
    p.stride ≤ uint16Max && p.uvStride ≤ uint16Max && p.stride == p.uvStride && p.offset == 0 &&
    p.offset ≤ p.uvOffset && (p.uvOffset - p.offset) % p.stride.toNat == 0

/-- `inspect_sample`; `maxSize` is `G_MAXSIZE`. -/
def inspectSample (maxSize : ℕ) (config : MeAnalyticsConfig) (sample : GstSample) :
    Option MeRockivaLayout :=
  match sample.caps, sample.videoInfo with
  | some 1, some info =>
    if !sample.hasBuffer then none
    else if !info.nv12 ∨ toGuint info.width ≠ toGuint config.width ∨
        toGuint info.height ≠ toGuint config.height ∨ !info.progressive ∨ info.nPlanes ≠ 2 ∨
        sample.nMemory ≠ 1 then none
    else if !sample.isDmabuf then none
    else
      match planesOf info sample.videoMeta with
      | none => none
      | some p =>
        let width := toGuint info.width
        let height := toGuint info.height
        let hstride := (p.uvOffset - p.offset) / p.stride.toNat
        let uvSize := p.uvStride.toNat * (height / 2)
        let requiredSize := p.uvOffset + uvSize
        if !plainPlanes width p then none
        else if hstride < height ∨ uint16Max < hstride ∨ uint64Max / p.stride.toNat < hstride then
          none
        else if hstride * p.stride.toNat ≠ p.uvOffset then none
        else if uint64Max - uvSize < p.uvOffset ∨ maxSize < requiredSize then none
        else if sample.memoryOffset ≠ 0 ∨ sample.visibleSize < requiredSize ∨
            sample.bufferSize < requiredSize ∨ sample.fd < 0 then none
        else some ⟨sample.fd, width, height, hstride, p.stride⟩
  | _, _ => none

/-- An accepted frame has the configured size. -/
theorem inspectSample_size {maxSize : ℕ} {config : MeAnalyticsConfig} {sample : GstSample}
    {layout : MeRockivaLayout} (h : inspectSample maxSize config sample = some layout) :
    layout.width = toGuint config.width ∧ layout.height = toGuint config.height := by
  unfold inspectSample at h
  split at h
  · split at h
    · cases h
    split at h
    · cases h
    next hinfo =>
    split at h
    · cases h
    split at h
    · cases h
    dsimp only at h
    split at h
    · cases h
    split at h
    · cases h
    split at h
    · cases h
    split at h
    · cases h
    split at h
    · cases h
    cases h
    simp only [not_or, Classical.not_not] at hinfo
    exact ⟨hinfo.2.1, hinfo.2.2.1⟩
  · cases h

/-- The sample of a callback, if there is one, is what `inspect_sample` made of it. -/
def Inspected (maxSize : ℕ) (config : MeAnalyticsConfig) : Input → Prop
  | .sample layout _ => ∃ sample, layout = inspectSample maxSize config sample
  | _ => True

/-! ## Persons -/

/-- The objects that become tracks. -/
def qualifies (object : RockIvaObjectInfo) : Bool :=
  object.person && object.objId != 0 && (mapTrackState object.state).isSome &&
    clampCoord object.topLeftX < clampCoord object.bottomRightX &&
    clampCoord object.topLeftY < clampCoord object.bottomRightY

/-- The qualifying objects of a result have different ids. -/
def DistinctPersons (maxObjNum : ℕ) (result : RockIvaDetectResult) : Prop :=
  (((result.objInfo.take maxObjNum).filter qualifies).map (·.objId)).Nodup

instance (maxObjNum : ℕ) (result : RockIvaDetectResult) :
    Decidable (DistinctPersons maxObjNum result) := inferInstanceAs (Decidable (List.Nodup _))

/-- What the validator asks of one track. -/
structure TrackOk (t : MeTrackObservation) : Prop where
  id : t.trackId ≠ 0
  classId : t.classId ≠ .unknown
  state : validTrackState t.state = true
  wide : t.bbox.left < t.bbox.right
  high : t.bbox.top < t.bbox.bottom
  right : t.bbox.right ≤ meAnalyticsCoordScale
  bottom : t.bbox.bottom ≤ meAnalyticsCoordScale
  score : t.scoreQ ≤ meAnalyticsCoordScale

theorem clampCoord_le (value : Int) : clampCoord value ≤ meAnalyticsCoordScale := by
  unfold clampCoord
  split
  · omega
  · split <;> omega

theorem validTrackState_of_map {state : RockIvaObjectState} {mapped : MeTrackState}
    (h : mapTrackState state = some mapped) : validTrackState mapped = true := by
  cases state <;> cases h <;> rfl

/-- An object is left out, or it qualifies and becomes the last track. -/
theorem addObject_cases (tracks : List MeTrackObservation) (object : RockIvaObjectInfo) :
    addObject tracks object = tracks ∨
      qualifies object = true ∧ tracks.length < meAnalyticsMaxTracks ∧
        ∃ t, addObject tracks object = tracks ++ [t] ∧ t.trackId = object.objId ∧ TrackOk t := by
  unfold addObject
  split
  · exact .inl rfl
  next state hstate =>
  split
  · exact .inl rfl
  next hperson =>
  dsimp only
  split
  · exact .inl rfl
  next hbox =>
  simp only [Bool.not_eq_true', not_or, Bool.not_eq_false, not_le] at hperson hbox
  refine .inr ⟨?_, hperson.2.2, _, rfl, rfl, ?_⟩
  · simp [qualifies, hperson.1, hperson.2.1, hstate, hbox.1, hbox.2]
  · refine ⟨hperson.2.1, by simp, validTrackState_of_map hstate, hbox.1, hbox.2, clampCoord_le _,
      clampCoord_le _, ?_⟩
    dsimp only
    split <;> simp only [meAnalyticsCoordScale] <;> omega

/-- The tracks of a result, while it is read. -/
structure TracksOk (tracks : List MeTrackObservation) : Prop where
  each : ∀ t ∈ tracks, TrackOk t
  count : tracks.length ≤ meAnalyticsMaxTracks
  distinct : (tracks.map (·.trackId)).Nodup

theorem tracksOk_foldl {objects : List RockIvaObjectInfo} {tracks : List MeTrackObservation}
    (h : TracksOk tracks)
    (hd : (tracks.map (·.trackId) ++ (objects.filter qualifies).map (·.objId)).Nodup) :
    TracksOk (objects.foldl addObject tracks) := by
  induction objects generalizing tracks with
  | nil => exact h
  | cons object objects ih =>
    rw [List.foldl_cons]
    rcases addObject_cases tracks object with heq | ⟨hq, hlen, t, heq, hid, hok⟩
    · rw [heq]
      refine ih h (hd.sublist ?_)
      exact .append (.refl _) (((List.sublist_cons_self object objects).filter qualifies).map _)
    · rw [heq]
      have hd' : ((tracks ++ [t]).map (·.trackId) ++
          (objects.filter qualifies).map (·.objId)).Nodup := by
        rw [List.filter_cons_of_pos hq, List.map_cons] at hd
        simpa [hid] using hd
      refine ih ⟨fun x hx => ?_, ?_, (List.nodup_append.mp hd').1⟩ hd'
      · rcases List.mem_append.mp hx with hx | hx
        · exact h.each x hx
        · exact List.mem_singleton.mp hx ▸ hok
      · rw [List.length_append, List.length_singleton]
        omega

theorem validateTracks_of {i : ℕ} {seen tracks : List MeTrackObservation}
    (h : ∀ t ∈ tracks, TrackOk t) (hd : ((seen ++ tracks).map (·.trackId)).Nodup) :
    validateTracks i seen tracks = .ok () := by
  induction tracks generalizing i seen with
  | nil => rfl
  | cons t tracks ih =>
    obtain ⟨ht, hrest⟩ := List.forall_mem_cons.mp h
    have hnew : (seen.any fun s => s.trackId == t.trackId) = false := by
      rw [List.map_append, List.map_cons, List.nodup_append] at hd
      refine Bool.eq_false_iff.mpr fun hany => ?_
      obtain ⟨s, hs, hst⟩ := List.any_eq_true.mp hany
      exact hd.2.2 s.trackId (List.mem_map_of_mem hs) t.trackId List.mem_cons_self (beq_iff_eq.mp hst)
    rw [validateTracks, if_neg (by simp [ht.id, ht.classId, ht.state]),
      if_neg (by simp [ht.wide, ht.high, ht.right, ht.bottom]), if_neg (by simpa using ht.score),
      if_neg (by simp [hnew])]
    exact ih hrest (by simpa using hd)

/-! ## The runner's own part -/

theorem bounded_snprintf {s : CStr} {cap : ℕ} (hcap : 1 < cap) (h : s.bytes ≠ []) :
    (s.snprintf cap).bounded cap = true := by
  have hne : s.bytes.take (cap - 1) ≠ [] := by
    rw [ne_eq, List.take_eq_nil_iff]
    exact fun hx => hx.elim (by omega) h
  simp only [CStr.bounded, CStr.snprintf, List.length_take, Bool.and_eq_true,
    decide_eq_true_eq, bne_iff_ne]
  exact ⟨by omega, hne⟩

theorem bounded_orUnknown {s : CStr} {cap : ℕ} (hcap : 7 < cap)
    (h : s.bytes.length < cap) : (orUnknown s).bounded cap = true := by
  unfold orUnknown
  split
  · have hlen : unknown.bytes.length = 7 ∧ unknown.bytes ≠ [] := by decide
    simp only [CStr.bounded, Bool.and_eq_true, decide_eq_true_eq, bne_iff_ne]
    exact ⟨by omega, hlen.2⟩
  · next hne => simp [CStr.bounded, h, hne]

/-- What the runner keeps: the configuration, texts that fit their arrays, and frames of the
configured size. -/
structure Fitted (config : MeAnalyticsConfig) (r : MeRockivaRunner) : Prop where
  configured : r.config = config
  backend : r.backendVersion.bytes.length < meAnalyticsVersionMax
  model : r.modelVersion.bytes.length < meAnalyticsModelVersionMax
  frames : ∀ {id frame}, r.lookup id = some frame →
    frame.width = toGuint config.width ∧ frame.height = toGuint config.height

variable {config : MeAnalyticsConfig} {r r' : MeRockivaRunner}

theorem snprintf_length_lt (s : CStr) {cap : ℕ} (h : 0 < cap) :
    (s.snprintf cap).bytes.length < cap := by
  simp only [CStr.snprintf, List.length_take]
  omega

theorem fitted_new (config : MeAnalyticsConfig) (version : CStr) :
    Fitted config (meRockivaRunnerNew config version) where
  configured := rfl
  backend := snprintf_length_lt _ (by decide)
  model := snprintf_length_lt _ (by decide)
  frames h := by cases h

/-- A step that keeps the runner's texts and brings no frame of another size. -/
theorem Fitted.of_frames (h : Fitted config r) (hc : r'.config = r.config)
    (hb : r'.backendVersion = r.backendVersion) (hm : r'.modelVersion = r.modelVersion)
    (hf : ∀ {id frame'}, r'.lookup id = some frame' →
      (∃ frame, r.lookup id = some frame ∧ frame.width = frame'.width ∧
        frame.height = frame'.height) ∨
      frame'.width = toGuint config.width ∧ frame'.height = toGuint config.height) :
    Fitted config r' where
  configured := hc.trans h.configured
  backend := hb ▸ h.backend
  model := hm ▸ h.model
  frames hl := by
    rcases hf hl with ⟨frame, hframe, hw, hh⟩ | hsize
    · exact ⟨hw ▸ (h.frames hframe).1, hh ▸ (h.frames hframe).2⟩
    · exact hsize

theorem Fitted.steal (h : Fitted config r) (id : ℕ) : Fitted config (r.steal id) := by
  refine h.of_frames rfl rfl rfl fun {k frame'} hl => .inl ⟨frame', ?_, rfl, rfl⟩
  rw [lookup_steal] at hl
  split at hl
  · cases hl
  · exact hl

theorem Fitted.newSample (h : Fitted config r) {layout : Option MeRockivaLayout} (pts : ℕ)
    (hsize : ∀ l ∈ layout, l.width = toGuint config.width ∧ l.height = toGuint config.height) :
    Fitted config (newSample r layout pts).1 := by
  unfold Rockiva.newSample
  split
  · exact h
  split
  · exact h.of_frames rfl rfl rfl fun hl => .inl ⟨_, hl, rfl, rfl⟩
  next layout =>
  split
  · exact h.of_frames rfl rfl rfl fun hl => .inl ⟨_, hl, rfl, rfl⟩
  · next id last hid =>
    refine h.of_frames rfl rfl rfl fun {k frame'} hl => ?_
    have hl' := (lookup_insert r id k _).symm.trans hl
    split at hl'
    · cases hl'
      exact .inr (hsize layout rfl)
    · exact .inl ⟨_, hl', rfl, rfl⟩

theorem Fitted.pushReturned (h : Fitted config r) (id : ℕ) (success : Bool) :
    Fitted config (pushReturned r id success) := by
  unfold Rockiva.pushReturned
  split
  · exact h
  · split
    · exact h
    · exact h.steal id

theorem Fitted.releaseImage (h : Fitted config r) (released : RockIvaImage) :
    Fitted config (releaseImage r released) := by
  unfold Rockiva.releaseImage
  split
  · exact h
  · split
    · exact h
    · exact h.steal _

theorem Fitted.seeDetection (h : Fitted config r) (id : ℕ) : Fitted config (r.seeDetection id) := by
  unfold MeRockivaRunner.seeDetection
  split
  · exact h
  next frame hframe =>
  refine h.of_frames rfl rfl rfl fun {k frame'} hl => .inl ?_
  rw [lookup_insert] at hl
  split at hl
  · next hk =>
    cases hl
    exact ⟨frame, hk ▸ hframe, rfl, rfl⟩
  · exact ⟨frame', hl, rfl, rfl⟩

variable (maxObjNum : ℕ)

theorem Fitted.step {maxSize : ℕ} {s : System} (h : Fitted config s.runner) {i : Input}
    (hi : Inspected maxSize config i) : Fitted config (next maxObjNum s i).runner := by
  cases i with
  | sample layout pts =>
    have hsize : ∀ l ∈ layout, l.width = toGuint config.width ∧
        l.height = toGuint config.height := fun l hl => by
      obtain ⟨sample, hs⟩ := hi
      exact inspectSample_size (hs.symm.trans hl)
    have hnew := h.newSample pts hsize
    rcases hn : Rockiva.newSample s.runner layout pts with ⟨r, _ | id⟩ <;>
      · rw [hn] at hnew
        simp only [next, Rockiva.step, hn]
        exact hnew
  | pushed id success => exact h.pushReturned id success
  | setStream channelId epoch => exact h.of_frames rfl rfl rfl fun hl => .inl ⟨_, hl, rfl, rfl⟩
  | release released => exact h.releaseImage released
  | detect success result =>
    cases success <;> cases result
    case true.some => exact h.seeDetection _
    all_goals exact h
  | stop => exact h.of_frames rfl rfl rfl fun hl => .inl ⟨_, hl, rfl, rfl⟩

theorem fitted_run {maxSize : ℕ} {s : System} (h : Fitted config s.runner) {inputs : List Input}
    (hi : ∀ i ∈ inputs, Inspected maxSize config i) :
    Fitted config (inputs.foldl (next maxObjNum) s).runner := by
  induction inputs generalizing s with
  | nil => exact h
  | cons i inputs ih =>
    obtain ⟨hi, hrest⟩ := List.forall_mem_cons.mp hi
    exact ih (h.step maxObjNum hi) hrest

/-! ## Observations -/

theorem observe_valid (h : Fitted config r) (hw : 0 < toGuint config.width)
    (hh : 0 < toGuint config.height) {result : RockIvaDetectResult}
    (hd : DistinctPersons maxObjNum result) {o : MeNormalizedObservation}
    (ho : observe maxObjNum r result = some o) : meObservationValidate o = .ok () := by
  have hsize : 0 < (r.context (r.lookup result.frameId)).width ∧
      0 < (r.context (r.lookup result.frameId)).height := by
    cases hl : r.lookup result.frameId with
    | some frame =>
      obtain ⟨hfw, hfh⟩ := h.frames hl
      simp only [MeRockivaRunner.context, hfw, hfh]
      exact ⟨hw, hh⟩
    | none =>
      simp only [MeRockivaRunner.context, h.configured]
      exact ⟨hw, hh⟩
  have hchannel : ∀ s : CStr, (s.snprintf meAnalyticsChannelIdMax).bytes ≠ [] →
      (s.snprintf meAnalyticsChannelIdMax).bounded meAnalyticsChannelIdMax = true := fun s hs =>
    bounded_snprintf (by decide) fun he => hs (by simp [CStr.snprintf, he])
  have htracks : TracksOk ((result.objInfo.take maxObjNum).foldl addObject []) :=
    tracksOk_foldl ⟨by simp, by simp, List.nodup_nil⟩ hd
  unfold observe at ho
  dsimp only at ho
  split at ho
  · cases ho
  next hguard =>
  cases ho
  simp only [not_or] at hguard
  obtain ⟨hid, hepoch, hframe⟩ := hguard
  have hbounded : (r.context (r.lookup result.frameId)).channelId.bounded
      meAnalyticsChannelIdMax = true := by
    cases hl : r.lookup result.frameId with
    | some frame =>
      rw [hl] at hid
      exact hchannel _ hid
    | none =>
      rw [hl] at hid
      exact hchannel _ hid
  have hbackend : rockiva.bounded meAnalyticsBackendNameMax = true := by decide
  have hversion : (orUnknown r.backendVersion).bounded meAnalyticsVersionMax = true :=
    bounded_orUnknown (by decide) h.backend
  have hmodel : (orUnknown r.modelVersion).bounded meAnalyticsModelVersionMax = true :=
    bounded_orUnknown (by decide) h.model
  generalize r.context (r.lookup result.frameId) = context at *
  have hunset : ¬ ((!decide (PtsValid context.pts) &&
      decide ((if PtsValid context.pts then (context.pts : Int) else 0) ≠ 0)) = true) := by
    by_cases hv : PtsValid context.pts <;> simp [hv]
  have hnegative : ¬ ((decide (PtsValid context.pts) &&
      decide ((if PtsValid context.pts then (context.pts : Int) else 0) < 0)) = true) := by
    by_cases hv : PtsValid context.pts <;> simp [hv]
  unfold meObservationValidate
  rw [if_neg (by simp [meObservationInit]), if_neg (by simp [hbounded]),
    if_neg (by simp [hepoch, hframe]), if_neg (by simp [meObservationInit]), if_neg hunset,
    if_neg hnegative, if_neg (by simp; omega)]
  have hclock : ∀ o : MeNormalizedObservation, o.clockState = .unavailable →
      o.captureTimeUs = 0 → validateClock o = .ok () := fun o hc ht => by
    simp [validateClock, hc, ht]
  rw [hclock _ rfl rfl]
  simp only [bind, Except.bind]
  rw [if_neg (by simp [hbackend, hversion, hmodel]),
    if_neg (by simpa using htracks.count), validateTracks_of htracks.each htracks.distinct]
  rfl

theorem toGuint_pos {z : Int} (h0 : 0 < z) (hz : z < 2 ^ 31) : 0 < toGuint z := by
  unfold toGuint
  omega

/-- **No result is lost to validation.** In every state a run of callbacks reaches, known frame or
not, the observation made of a result whose persons carry different ids is valid. -/
theorem observations_valid {maxSize : ℕ} {config : MeAnalyticsConfig} {version : CStr}
    {inputs : List Input} (hw : 0 < config.width ∧ config.width < 2 ^ 31)
    (hh : 0 < config.height ∧ config.height < 2 ^ 31)
    (hin : ∀ i ∈ inputs, Inspected maxSize config i) {success : Bool}
    {result : RockIvaDetectResult} (hd : DistinctPersons maxObjNum result)
    {o : MeNormalizedObservation}
    (ho : (detectCallback maxObjNum (inputs.foldl (next maxObjNum) (.fresh config version)).runner
      success (some result)).2 = some o) :
    meObservationValidate o = .ok () := by
  cases success with
  | false => cases ho
  | true =>
    exact observe_valid maxObjNum (fitted_run maxObjNum (fitted_new config version) hin)
      (toGuint_pos hw.1 hw.2) (toGuint_pos hh.1 hh.2) hd ho

def smallConfig : MeAnalyticsConfig :=
  { meAnalyticsConfigDefaults with width := 640, height := 360 }

/-- A plain NV12 frame of 640x360. -/
def smallFrame : GstSample where
  hasBuffer := true
  caps := some 1
  videoInfo := some ⟨true, 640, 360, true, 2, ⟨640, 640, 0, 230400⟩⟩
  nMemory := 1
  isDmabuf := true
  videoMeta := none
  memoryOffset := 0
  visibleSize := 345600
  bufferSize := 345600
  fd := 5

/-- Two persons, one of them partly outside the frame, and a box of no width. -/
def crowd : RockIvaDetectResult where
  frameId := 1
  objInfo := [⟨true, 7, .first, -20, 100, 4000, 12000, 250⟩, ⟨true, 8, .tracking, 10, 10, 20, 20, 55⟩,
    ⟨true, 7, .lost, 300, 10, 300, 20, 10⟩]

theorem observations_valid_demo :
    ∃ o, (detectCallback 40 ([.sample (inspectSample uint32Max smallConfig smallFrame) 1000].foldl
        (next 40) (.fresh smallConfig unknown)).runner true (some crowd)).2 = some o ∧
      o.tracks.map (·.trackId) = [7, 8] ∧ meObservationValidate o = .ok () := by
  obtain ⟨o, ho, htracks⟩ : ∃ o, (detectCallback 40
      ([.sample (inspectSample uint32Max smallConfig smallFrame) 1000].foldl (next 40)
        (.fresh smallConfig unknown)).runner true (some crowd)).2 = some o ∧
      o.tracks.map (·.trackId) = [7, 8] :=
    ⟨Option.get _ (by decide +kernel), (Option.some_get _).symm, by decide +kernel⟩
  have hin : ∀ i ∈ [Input.sample (inspectSample uint32Max smallConfig smallFrame) 1000],
      Inspected uint32Max smallConfig i := List.forall_mem_singleton.mpr ⟨smallFrame, rfl⟩
  exact ⟨o, ho, htracks, observations_valid 40 (by decide) (by decide) hin (by decide) ho⟩

end FlowAlarm.Rockiva
