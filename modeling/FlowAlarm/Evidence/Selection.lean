import FlowAlarm.Evidence.EvidenceCache

/-!
# The frame an event gets

`select_frame_locked` goes through the window once, from the newest frame on.
`select_exact` and `select_nearest` say which frame it takes among all of them:
the newest exact one, or else the newest of the nearest ones in time.
-/

namespace FlowAlarm.Evidence

open FlowAlarm.Text FlowAlarm.Engine

/-! ## What a selection is measured by -/

/-- The frame was annotated with the event's channel and epoch. -/
structure SameStream (frame : JpegFrame) (event : MeAnalyticsEvent) : Prop where
  annotated : frame.note.channelId.bytes ≠ [] ∧ frame.note.streamEpoch ≠ 0
  channel : frame.note.channelId.bytes = event.channelId.bytes
  epoch : frame.note.streamEpoch = event.streamEpoch

/-- Both time stamps are valid and count in the same time base. -/
structure Comparable (frame : JpegFrame) (event : MeAnalyticsEvent) : Prop where
  eventValid : event.sourcePtsValid = true
  frameValid : frame.note.sourcePtsValid = true
  timebase : frame.note.sourceTimebase = event.sourceTimebase
  positive : event.sourceTimebase.num ≠ 0 ∧ event.sourceTimebase.den ≠ 0

def distance (frame : JpegFrame) (event : MeAnalyticsEvent) : ℤ :=
  |frame.note.sourcePts - event.sourcePts|

def int64Max : ℤ := 2 ^ 63 - 1

/-- Every valid time stamp is a non-negative `int64_t`. -/
structure NonNegativePts (cache : MeEvidenceCache) (event : MeAnalyticsEvent) : Prop where
  frames : ∀ f ∈ cache.frames, f.note.sourcePtsValid = true →
    0 ≤ f.note.sourcePts ∧ f.note.sourcePts ≤ int64Max
  event : event.sourcePtsValid = true → 0 ≤ event.sourcePts ∧ event.sourcePts ≤ int64Max

/-- The frame shows the moment of the event. -/
structure Exact (frame : JpegFrame) (event : MeAnalyticsEvent) : Prop where
  stream : SameStream frame event
  pts : Comparable frame event → frame.note.sourcePts = event.sourcePts
  id : ¬ Comparable frame event → frame.note.frameId = event.frameId ∧ 0 < event.frameId

/-- The newest frame of a window with some property. -/
def Newest (p : JpegFrame → Prop) (frames : List JpegFrame) (frame : JpegFrame) : Prop :=
  ∃ older newer, frames = older ++ frame :: newer ∧ p frame ∧ ∀ g ∈ newer, ¬ p g

theorem frameMatchesEvent_iff {frame : JpegFrame} {event : MeAnalyticsEvent} :
    frameMatchesEvent frame event = true ↔ SameStream frame event := by
  simp only [frameMatchesEvent, Bool.and_eq_true, bne_iff_ne, ne_eq, beq_iff_eq]
  exact ⟨fun ⟨⟨⟨h₁, h₂⟩, h₃⟩, h₄⟩ => ⟨⟨h₁, h₂⟩, h₃, h₄⟩,
    fun h => ⟨⟨h.annotated, h.channel⟩, h.epoch⟩⟩

theorem comparablePts_iff {frame : JpegFrame} {event : MeAnalyticsEvent} :
    comparablePts frame event = true ↔ Comparable frame event := by
  simp only [comparablePts, sameTimebase, Bool.and_eq_true, bne_iff_ne, ne_eq, beq_iff_eq]
  constructor
  · rintro ⟨⟨he, hf⟩, ⟨⟨hnum, hden⟩, hn⟩, hd⟩
    refine ⟨he, hf, ?_, hn ▸ hnum, hd ▸ hden⟩
    cases hb : frame.note.sourceTimebase
    cases hb' : event.sourceTimebase
    simp_all
  · rintro ⟨he, hf, hb, hnum, hden⟩
    rw [hb]
    exact ⟨⟨he, hf⟩, ⟨⟨hnum, hden⟩, rfl⟩, rfl⟩

theorem frameIsExact_iff {frame : JpegFrame} {event : MeAnalyticsEvent} :
    frameIsExact frame event = true ↔ Exact frame event := by
  rw [frameIsExact, Bool.and_eq_true, frameMatchesEvent_iff]
  by_cases hc : comparablePts frame event = true
  · rw [if_pos hc, beq_iff_eq]
    rw [comparablePts_iff] at hc
    exact ⟨fun h => ⟨h.1, fun _ => h.2, fun hn => absurd hc hn⟩, fun h => ⟨h.stream, h.pts hc⟩⟩
  · rw [if_neg hc, Bool.and_eq_true, decide_eq_true_eq, beq_iff_eq]
    rw [comparablePts_iff] at hc
    exact ⟨fun h => ⟨h.1, fun h' => absurd h' hc, fun _ => ⟨h.2.2, h.2.1⟩⟩,
      fun h => ⟨h.stream, (h.id hc).2, (h.id hc).1⟩⟩

/-! ## The search, newest frame first -/

variable {event : MeAnalyticsEvent}

/-- A frame nearer than what the search has so far. -/
structure Nearer (event : MeAnalyticsEvent) (delta : ℤ) (frame : JpegFrame) : Prop where
  stream : SameStream frame event
  comparable : Comparable frame event
  distance : distance frame event < delta

/-- Where the search ends with `frame` as the nearest one. -/
structure NearestIn (event : MeAnalyticsEvent) (delta : ℤ) (frames : List JpegFrame)
    (frame : JpegFrame) : Prop where
  nearer : Nearer event delta frame
  split : ∃ newer older, frames = newer ++ frame :: older ∧
    (∀ g ∈ newer, Nearer event delta g → distance frame event < distance g event) ∧
    ∀ g ∈ older, Nearer event delta g → distance frame event ≤ distance g event

theorem search_exact {frames : List JpegFrame} {frame : JpegFrame}
    (h : frames.find? (frameIsExact · event) = some frame) (nearest : Option JpegFrame)
    (delta : ℤ) : searchFrames event nearest delta frames = some (.exact, frame) := by
  induction frames generalizing nearest delta with
  | nil => cases h
  | cons f frames ih =>
    rw [List.find?_cons] at h
    unfold searchFrames
    cases hf : frameIsExact f event with
    | true =>
      rw [hf] at h
      cases h
      rfl
    | false =>
      rw [hf] at h
      simp only [Bool.false_eq_true, if_false]
      split
      · exact ih h _ _
      split
      · split
        · exact ih h _ _
        · exact ih h _ _
      split
      · exact ih h _ _
      · exact ih h _ _

theorem Nearer.mono {delta delta' : ℤ} {frame : JpegFrame} (h : Nearer event delta frame)
    (hd : delta ≤ delta') : Nearer event delta' frame :=
  ⟨h.stream, h.comparable, lt_of_lt_of_le h.distance hd⟩

/-- A frame that is not nearer changes nothing. -/
theorem NearestIn.skip {delta : ℤ} {frames : List JpegFrame} {f frame : JpegFrame}
    (h : NearestIn event delta frames frame) (hf : ¬ Nearer event delta f) :
    NearestIn event delta (f :: frames) frame := by
  obtain ⟨newer, older, hs, hnew, hold⟩ := h.split
  refine ⟨h.nearer, f :: newer, older, by rw [hs, List.cons_append], ?_, hold⟩
  exact List.forall_mem_cons.mpr ⟨fun h => absurd h hf, hnew⟩

/-- One frame of the search, when it is not exact. -/
theorem search_cons {f : JpegFrame} (hf : ¬ Exact f event) (nearest : Option JpegFrame) (delta : ℤ)
    (frames : List JpegFrame) :
    (Nearer event delta f ∧ searchFrames event nearest delta (f :: frames) =
      searchFrames event (some f) (distance f event) frames) ∨
    (¬ Nearer event delta f ∧ ∃ n, (∀ g ∈ nearest, n = some g) ∧
      (∀ g ∈ n, g ∈ nearest ∨ g = f ∧ SameStream f event) ∧
      searchFrames event nearest delta (f :: frames) = searchFrames event n delta frames) := by
  have hexact : ¬ frameIsExact f event = true := fun h => hf (frameIsExact_iff.mp h)
  rw [searchFrames, if_neg hexact]
  by_cases hm : SameStream f event
  · rw [if_neg (by simp [frameMatchesEvent_iff.mpr hm])]
    by_cases hc : Comparable f event
    · rw [if_pos (comparablePts_iff.mpr hc)]
      by_cases hd : distance f event < delta
      · exact .inl ⟨⟨hm, hc, hd⟩, if_pos hd⟩
      · exact .inr ⟨fun h => hd h.distance, nearest, fun _ h => h, fun _ => .inl, if_neg hd⟩
    · rw [if_neg (mt comparablePts_iff.mp hc)]
      refine .inr ⟨fun h => hc h.comparable, ?_⟩
      split
      next hb =>
        simp only [Bool.and_eq_true, Option.isNone_iff_eq_none] at hb
        refine ⟨some f, fun g hg => ?_, fun g hg => .inr ⟨(Option.some.inj hg).symm, hm⟩, rfl⟩
        rw [hb.2] at hg
        cases hg
      · exact ⟨nearest, fun _ h => h, fun _ => .inl, rfl⟩
  · rw [if_pos (by simpa using mt frameMatchesEvent_iff.mp hm)]
    exact .inr ⟨fun h => hm h.stream, nearest, fun _ h => h, fun _ => .inl, rfl⟩

/-- What the search returns is exact, or of the event's stream, or what it started with. -/
theorem search_spec {frames : List JpegFrame} {nearest : Option JpegFrame} {delta : ℤ}
    {accuracy : MeEvidenceAccuracy} {frame : JpegFrame}
    (h : searchFrames event nearest delta frames = some (accuracy, frame)) :
    (accuracy = .exact ∧ frame ∈ frames ∧ Exact frame event) ∨
      (accuracy = .approximate ∧ (frame ∈ nearest ∨ frame ∈ frames ∧ SameStream frame event)) := by
  induction frames generalizing nearest delta with
  | nil =>
    obtain ⟨f, hf, he⟩ := Option.map_eq_some_iff.mp h
    cases he
    exact .inr ⟨rfl, .inl hf⟩
  | cons f frames ih =>
    have tail : ∀ {n d}, searchFrames event n d frames = some (accuracy, frame) →
        (∀ g ∈ n, g ∈ nearest ∨ g = f ∧ SameStream f event) →
        (accuracy = .exact ∧ frame ∈ f :: frames ∧ Exact frame event) ∨
          (accuracy = .approximate ∧
            (frame ∈ nearest ∨ frame ∈ f :: frames ∧ SameStream frame event)) := fun hs hn =>
      (ih hs).imp (fun ⟨ha, hf, he⟩ => ⟨ha, List.mem_cons_of_mem _ hf, he⟩) fun ⟨ha, hf⟩ =>
        ⟨ha, hf.elim
          (fun hf => (hn _ hf).imp_right fun ⟨he, hm⟩ => ⟨he ▸ List.mem_cons_self, he ▸ hm⟩)
          fun hf => .inr ⟨List.mem_cons_of_mem _ hf.1, hf.2⟩⟩
    by_cases hf : Exact f event
    · rw [searchFrames, if_pos (frameIsExact_iff.mpr hf)] at h
      cases h
      exact .inl ⟨rfl, List.mem_cons_self, hf⟩
    · rcases search_cons hf nearest delta frames with ⟨hnear, hstep⟩ | ⟨-, n, -, hn, hstep⟩
      · exact tail (hstep.symm.trans h) fun g hg => .inr ⟨(Option.some.inj hg).symm, hnear.stream⟩
      · exact tail (hstep.symm.trans h) hn

theorem search_nearest {frames : List JpegFrame} (hne : ∀ f ∈ frames, ¬ Exact f event)
    (nearest : Option JpegFrame) (delta : ℤ) :
    (∃ frame, searchFrames event nearest delta frames = some (.approximate, frame) ∧
      NearestIn event delta frames frame) ∨
    ((∀ f ∈ frames, ¬ Nearer event delta f) ∧
      ∀ f ∈ nearest, searchFrames event nearest delta frames = some (.approximate, f)) := by
  induction frames generalizing nearest delta with
  | nil => exact .inr ⟨fun _ h => (nomatch h), fun f hf => by rw [hf]; rfl⟩
  | cons f frames ih =>
    obtain ⟨hf, hrest⟩ := List.forall_mem_cons.mp hne
    rcases search_cons hf nearest delta frames with ⟨hnear, hstep⟩ | ⟨hnear, n, hn, -, hstep⟩
    · rcases ih hrest (some f) (distance f event) with ⟨frame, hs, hin⟩ | ⟨hnone, hs⟩
      · obtain ⟨newer, older, hsplit, hnew, hold⟩ := hin.split
        have hlt := hin.nearer.distance
        refine .inl ⟨frame, hstep.trans hs, hin.nearer.mono hnear.distance.le, f :: newer, older,
          by rw [hsplit, List.cons_append], List.forall_mem_cons.mpr ⟨fun _ => hlt, ?_⟩, ?_⟩
        · intro g hg hgn
          by_cases hgd : distance g event < distance f event
          · exact hnew g hg ⟨hgn.stream, hgn.comparable, hgd⟩
          · exact lt_of_lt_of_le hlt (not_lt.mp hgd)
        · intro g hg hgn
          by_cases hgd : distance g event < distance f event
          · exact hold g hg ⟨hgn.stream, hgn.comparable, hgd⟩
          · exact hlt.le.trans (not_lt.mp hgd)
      · refine .inl ⟨f, hstep.trans (hs f rfl), hnear, [], frames, rfl,
          fun _ h => (nomatch h), fun g hg hgn => ?_⟩
        exact not_lt.mp fun hgd => hnone g hg ⟨hgn.stream, hgn.comparable, hgd⟩
    · rcases ih hrest n delta with ⟨frame, hs, hin⟩ | ⟨hnone, hs⟩
      · exact .inl ⟨frame, hstep.trans hs, hin.skip hnear⟩
      · exact .inr ⟨List.forall_mem_cons.mpr ⟨hnear, hnone⟩, fun g hg =>
          hstep.trans (hs g (hn g hg))⟩

/-! ## The frame taken from the window -/

variable {cache : MeEvidenceCache}

/-- The distances that `abs_i64_delta` computes do not overflow. -/
theorem NonNegativePts.distance_le (h : NonNegativePts cache event) {f : JpegFrame}
    (hf : f ∈ cache.frames) (hc : Comparable f event) : distance f event ≤ int64Max := by
  obtain ⟨hf0, hf1⟩ := h.frames f hf hc.frameValid
  obtain ⟨he0, he1⟩ := h.event hc.eventValid
  exact abs_le.mpr ⟨by omega, by omega⟩

/-- An exact frame in the window: the newest of them is taken. -/
theorem select_exact (h : ∃ f ∈ cache.frames, Exact f event) :
    ∃ frame, selectFrameLocked cache event = some ⟨.exact, frame, 0, 0⟩ ∧
      Newest (Exact · event) cache.frames frame := by
  have hsome : (cache.frames.reverse.find? (frameIsExact · event)).isSome := by
    rw [List.find?_isSome]
    obtain ⟨f, hf, he⟩ := h
    exact ⟨f, List.mem_reverse.mpr hf, frameIsExact_iff.mpr he⟩
  obtain ⟨frame, hfind⟩ := Option.isSome_iff_exists.mp hsome
  refine ⟨frame, by rw [selectFrameLocked, search_exact hfind], ?_⟩
  obtain ⟨hexact, newer, older, hsplit, hnew⟩ := List.find?_eq_some_iff_append.mp hfind
  refine ⟨older.reverse, newer.reverse, ?_, frameIsExact_iff.mp hexact, fun g hg he => ?_⟩
  · rw [← List.reverse_reverse cache.frames, hsplit]
    simp
  · have := hnew g (List.mem_reverse.mp hg)
    rw [frameIsExact_iff.mpr he] at this
    cases this

/-- No exact frame, but one whose time stamp compares: the newest of the nearest ones is taken. -/
theorem select_nearest (hne : ∀ f ∈ cache.frames, ¬ Exact f event)
    (h : ∃ f ∈ cache.frames, Nearer event int64Max f) :
    ∃ sel, selectFrameLocked cache event = some sel ∧ sel.accuracy = .approximate ∧
      Nearer event int64Max sel.frame ∧
      (∀ f ∈ cache.frames, Nearer event int64Max f →
        distance sel.frame event ≤ distance f event) ∧
      Newest (fun f => Nearer event int64Max f ∧ distance f event = distance sel.frame event)
        cache.frames sel.frame ∧
      sel.ptsDelta = sel.frame.note.sourcePts - event.sourcePts ∧
      (sel.frameDelta : ℤ) =
        if 0 < event.frameId ∧ 0 < sel.frame.note.frameId then
          |(sel.frame.note.frameId : ℤ) - event.frameId|
        else 0 := by
  rcases @search_nearest event cache.frames.reverse
    (fun f hf => hne f (List.mem_reverse.mp hf)) none int64Max with ⟨frame, hs, hin⟩ | ⟨hnone, -⟩
  · have hsel : selectFrameLocked cache event = some
        { accuracy := .approximate, frame := frame
          frameDelta :=
            if 0 < event.frameId ∧ 0 < frame.note.frameId then
              if event.frameId < frame.note.frameId then frame.note.frameId - event.frameId
              else event.frameId - frame.note.frameId
            else 0
          ptsDelta :=
            if comparablePts frame event then frame.note.sourcePts - event.sourcePts else 0 } := by
      rw [int64Max] at hs
      rw [selectFrameLocked, hs]
    obtain ⟨newer, older, hsplit, hnew, hold⟩ := hin.split
    have hframes : cache.frames = older.reverse ++ frame :: newer.reverse := by
      rw [← List.reverse_reverse cache.frames, hsplit]
      simp
    refine ⟨_, hsel, rfl, hin.nearer, fun f hf hn => ?_,
      ⟨older.reverse, newer.reverse, hframes, ⟨hin.nearer, rfl⟩, fun g hg hgn => ?_⟩,
      if_pos (comparablePts_iff.mpr hin.nearer.comparable), ?_⟩
    · rw [← List.mem_reverse, hsplit] at hf
      rcases List.mem_append.mp hf with hf | hf
      · exact (hnew f hf hn).le
      · rcases List.mem_cons.mp hf with rfl | hf
        · exact le_rfl
        · exact hold f hf hn
    · exact (hnew g (List.mem_reverse.mp hg) hgn.1).ne' hgn.2
    · dsimp only
      split
      · split
        · rw [abs_of_nonneg (by omega)]
          omega
        · rw [abs_of_nonpos (by omega)]
          omega
      · rfl
  · obtain ⟨f, hf, hn⟩ := h
    exact absurd hn (hnone f (List.mem_reverse.mpr hf))

/-- Whatever is taken is a frame of the window that belongs to the event's stream. -/
theorem select_stream {sel : Selected} (h : selectFrameLocked cache event = some sel) :
    (sel.accuracy = .exact ∧ Exact sel.frame event ∨ sel.accuracy = .approximate) ∧
      sel.frame ∈ cache.frames ∧ SameStream sel.frame event := by
  have found : ∀ {accuracy frame}, searchFrames event none int64Max cache.frames.reverse =
      some (accuracy, frame) → (accuracy = .exact ∧ Exact frame event ∨ accuracy = .approximate) ∧
        frame ∈ cache.frames ∧ SameStream frame event := fun hs => by
    rcases search_spec hs with ⟨ha, hf, he⟩ | ⟨ha, hf | ⟨hf, hm⟩⟩
    · exact ⟨.inl ⟨ha, he⟩, List.mem_reverse.mp hf, he.stream⟩
    · cases hf
    · exact ⟨.inr ha, List.mem_reverse.mp hf, hm⟩
  unfold selectFrameLocked at h
  split at h
  · cases h
  next hs =>
    cases h
    exact found hs
  next hs =>
    cases h
    exact found hs

/-- An exact frame is reported if and only if the window has one. -/
theorem select_exact_iff :
    (∃ sel, selectFrameLocked cache event = some sel ∧ sel.accuracy = .exact) ↔
      ∃ f ∈ cache.frames, Exact f event := by
  constructor
  · rintro ⟨sel, hsel, hacc⟩
    obtain ⟨⟨-, he⟩ | hne, hf, -⟩ := select_stream hsel
    · exact ⟨_, hf, he⟩
    · rw [hacc] at hne
      cases hne
  · intro h
    obtain ⟨frame, hsel, -⟩ := select_exact h
    exact ⟨_, hsel, rfl⟩

/-- **The selection is optimal.** An exact frame if there is one, and then the newest; otherwise,
if a time stamp compares, the newest of the frames nearest in time, with the distances in time and
in frames (nothing where a frame id is unknown); never a frame of another channel or epoch. No
distance that is computed on the way leaves `int64_t`. -/
theorem selectFrameLocked_optimal (cache : MeEvidenceCache) (event : MeAnalyticsEvent)
    (hpts : NonNegativePts cache event) :
    ((∃ sel, selectFrameLocked cache event = some sel ∧ sel.accuracy = .exact) ↔
      ∃ f ∈ cache.frames, Exact f event) ∧
    ((∃ f ∈ cache.frames, Exact f event) → ∃ frame,
      selectFrameLocked cache event = some ⟨.exact, frame, 0, 0⟩ ∧
      Newest (Exact · event) cache.frames frame) ∧
    ((¬ ∃ f ∈ cache.frames, Exact f event) → (∃ f ∈ cache.frames, Nearer event int64Max f) →
      ∃ sel, selectFrameLocked cache event = some sel ∧ sel.accuracy = .approximate ∧
        Nearer event int64Max sel.frame ∧
        (∀ f ∈ cache.frames, Nearer event int64Max f →
          distance sel.frame event ≤ distance f event) ∧
        Newest (fun f => Nearer event int64Max f ∧ distance f event = distance sel.frame event)
          cache.frames sel.frame ∧
        sel.ptsDelta = sel.frame.note.sourcePts - event.sourcePts ∧
        (sel.frameDelta : ℤ) =
          if 0 < event.frameId ∧ 0 < sel.frame.note.frameId then
            |(sel.frame.note.frameId : ℤ) - event.frameId|
          else 0) ∧
    (∀ sel, selectFrameLocked cache event = some sel →
      sel.frame ∈ cache.frames ∧ SameStream sel.frame event) ∧
    ∀ f ∈ cache.frames, Comparable f event → distance f event ≤ int64Max :=
  ⟨select_exact_iff, select_exact,
    fun hne h => select_nearest (fun f hf he => hne ⟨f, hf, he⟩) h,
    fun _ h => (select_stream h).2, fun _ hf hc => hpts.distance_le hf hc⟩

/-! An event without a frame id, and a frame twenty time units before it. -/

theorem channel_nonul : (0 : UInt8) ∉ [0x63] := by decide

def unnumbered : MeAnalyticsEvent :=
  { MeAnalyticsEvent.zero with
    channelId := ⟨[0x63], channel_nonul⟩, streamEpoch := 7, sourcePtsValid := true, sourcePts := 220
    sourceTimebase := ⟨1, 1000⟩ }

def frame20 : JpegFrame where
  jpeg := [0xFF, 0xD8, 0x11, 0xFF, 0xD9]
  note := ⟨⟨[0x63], channel_nonul⟩, 7, 20, true, 200, ⟨1, 1000⟩, 640, 360⟩

def window20 : MeEvidenceCache := { opened [] 65536 3600 [] [] with frames := [frame20] }

/-- For an event without a frame id the distance in frames is not reported. -/
theorem select_frameDelta_unnumbered :
    ¬ ∀ (cache : MeEvidenceCache) (event : MeAnalyticsEvent), NonNegativePts cache event →
      (¬ ∃ f ∈ cache.frames, Exact f event) → (∃ f ∈ cache.frames, Nearer event int64Max f) →
      ∃ sel, selectFrameLocked cache event = some sel ∧
        (sel.frameDelta : ℤ) = |(sel.frame.note.frameId : ℤ) - event.frameId| := by
  intro h
  have hc : Comparable frame20 unnumbered := comparablePts_iff.mp (by decide)
  have hm : SameStream frame20 unnumbered := frameMatchesEvent_iff.mp (by decide)
  have hne : ¬ ∃ f ∈ window20.frames, Exact f unnumbered := by
    rintro ⟨f, hf, he⟩
    cases List.mem_singleton.mp hf
    exact absurd (he.pts hc) (by decide)
  have hpts : NonNegativePts window20 unnumbered := by
    refine ⟨fun f hf _ => ?_, fun _ => by decide⟩
    cases List.mem_singleton.mp hf
    decide
  obtain ⟨sel, hsel, hdelta⟩ := h window20 unnumbered hpts hne
    ⟨frame20, List.mem_singleton_self _, hm, hc, by decide⟩
  have hrun : selectFrameLocked window20 unnumbered = some ⟨.approximate, frame20, 0, -20⟩ := rfl
  rw [hrun] at hsel
  cases hsel
  exact absurd hdelta (by decide)

/-! A window of five frames. Two of them are as far from time 220: the newer is taken, though a
frame without a time stamp comes before it in the search, and one of another channel has the
very time. -/

def stamped (channel : CStr) (frameId : ℕ) (valid : Bool) (pts : ℤ) : JpegFrame where
  jpeg := [0xFF, 0xD8, 0x11, 0xFF, 0xD9]
  note := ⟨channel, 7, frameId, valid, pts, ⟨1, 1000⟩, 640, 360⟩

def camera : CStr := ⟨[0x63], channel_nonul⟩

theorem gateway_nonul : (0 : UInt8) ∉ [0x64] := by decide

def gateway : CStr := ⟨[0x64], gateway_nonul⟩

def window220 : MeEvidenceCache :=
  { opened [] 65536 3600 [] [] with
    frames := [stamped camera 24 true 240, stamped gateway 22 true 220,
      stamped camera 20 true 200, stamped camera 18 true 180, stamped camera 21 false 0] }

def numbered (pts : ℤ) : MeAnalyticsEvent :=
  { unnumbered with frameId := 22, sourcePts := pts }

theorem window220_pts {pts : ℤ} (h : 0 ≤ pts ∧ pts ≤ int64Max) :
    NonNegativePts window220 (numbered pts) :=
  ⟨by decide, fun _ => h⟩

theorem selectFrameLocked_optimal_demo :
    (∃ sel, selectFrameLocked window220 (numbered 220) = some sel ∧
      sel.frame = stamped camera 20 true 200 ∧ sel.ptsDelta = -20 ∧ sel.frameDelta = 2 ∧
      (∀ f ∈ window220.frames, Nearer (numbered 220) int64Max f →
        distance sel.frame (numbered 220) ≤ distance f (numbered 220))) ∧
    ∃ frame, selectFrameLocked window220 (numbered 240) = some ⟨.exact, frame, 0, 0⟩ ∧
      Newest (Exact · (numbered 240)) window220.frames frame := by
  have near := selectFrameLocked_optimal window220 (numbered 220) (window220_pts (by decide))
  have exact := selectFrameLocked_optimal window220 (numbered 240) (window220_pts (by decide))
  have hne : ∀ f ∈ window220.frames, ¬ frameIsExact f (numbered 220) := by decide
  have hc : frameMatchesEvent (stamped camera 20 true 200) (numbered 220) = true ∧
      comparablePts (stamped camera 20 true 200) (numbered 220) = true := by decide
  obtain ⟨sel, hsel, -, -, hmin, -, -, -⟩ := near.2.2.1
    (fun ⟨f, hf, he⟩ => hne f hf (frameIsExact_iff.mpr he))
    ⟨stamped camera 20 true 200, by simp [window220], frameMatchesEvent_iff.mp hc.1,
      comparablePts_iff.mp hc.2, by decide⟩
  have hrun : selectFrameLocked window220 (numbered 220) =
      some ⟨.approximate, stamped camera 20 true 200, 2, -20⟩ := rfl
  obtain rfl := Option.some.inj (hsel.symm.trans hrun)
  refine ⟨⟨_, hsel, rfl, rfl, rfl, hmin⟩, exact.2.1 ⟨stamped camera 24 true 240, ?_, ?_⟩⟩
  · simp [window220]
  · exact frameIsExact_iff.mp (by decide)

end FlowAlarm.Evidence
