import FlowAlarm.Data.Slots
import FlowAlarm.Engine.Watched
import FlowAlarm.Trace.Presence

/-!
# The track table

`update_tracks` keeps the tracked persons in an array of slots that it reuses in
place. The array holds a roster of lives (`Seated`), whatever slot a track is
in: an observation is a round of looks at the roster (`updateTracks_seated`),
and the person count is the number of lives that count (`updateTracks_count`).
-/

namespace FlowAlarm.Engine

open FlowAlarm.Text FlowAlarm.Trace
open Presence (Life Look Subject lifeIn)

/-! ## Slots as lives -/

def trackKey (t : MeEventTrackState) : Option Nat := if t.inUse then some t.trackId else none

def trackLife (t : MeEventTrackState) : Life where
  present := t.present
  confirmed := t.confirmed
  count := t.seenFrames
  firstSeen := known t.firstTimelineUs t.firstTimelineValid
  lastSeen := known t.lastTimelineUs t.lastTimelineValid
  inside := t.inside
  crossing := known t.insideCandidateSinceUs t.insideCandidateValid

theorem keys_trackKey (tracks : List MeEventTrackState) :
    Slots.keys trackKey tracks = (tracks.filter (·.inUse)).map (·.trackId) := by
  induction tracks with
  | nil => rfl
  | cons t tracks ih =>
    unfold Slots.keys at ih ⊢
    cases hu : t.inUse with
    | false =>
      rw [List.filterMap_cons_none (by simp [trackKey, hu]), List.filter_cons_of_neg (by simp [hu]),
        ih]
    | true =>
      rw [List.filterMap_cons_some (b := t.trackId) (by simp [trackKey, hu]),
        List.filter_cons_of_pos hu, List.map_cons, ih]

/-- A slot that has been seen once. A ROI candidate is always the other side. -/
structure SlotSound (t : MeEventTrackState) : Prop where
  initialized : t.insideInitialized = true
  frames : 0 < t.seenFrames
  candidate : t.insideCandidateValid = true → t.insideCandidate = !t.inside

def presenceRates (config : MeAnalyticsConfig) : Presence.Rates where
  confirmCount := config.confirmFrames
  confirm := config.confirmMs * 1000
  debounce := config.debounceMs * 1000
  grace := config.disappearGraceMs * 1000
  countLimit := uint32Max

/-- What an observation says of a track it lists. -/
def lookAt (config : MeAnalyticsConfig) (input : MeTrackObservation) : Look :=
  if input.classId != .person then .missed
  else if input.state == .removed then .left
  else if (input.state != .new && input.state != .active) ||
      input.scoreQ < config.scoreThresholdQ then .missed
  else .seen (trackInside config input.bbox)

def looksOf (config : MeAnalyticsConfig) (o : MeNormalizedObservation) : List (Nat × Look) :=
  o.tracks.map fun input => (input.trackId, lookAt config input)

section

variable {config : MeAnalyticsConfig} {t : MeEventTrackState} {frameId : Nat} {now : MeTimeline}
  {input : MeTrackObservation}

theorem known_eq_none {us : Int} {valid : Bool} : known us valid = none ↔ valid = false := by
  cases valid <;> simp [known]

variable (config now) in
theorem updateTrackInside_life (hs : SlotSound t) (inside : Bool) :
    trackLife (updateTrackInside config t inside now) =
        Presence.cross (presenceRates config) now.known inside (trackLife t) ∧
      SlotSound (updateTrackInside config t inside now) := by
  have hclear : ∀ b, trackLife (clearInsideCandidate { t with inside := b }) =
      { trackLife t with inside := b, crossing := none } := fun _ => rfl
  have hsound : ∀ b, SlotSound (clearInsideCandidate { t with inside := b }) :=
    fun _ => ⟨hs.initialized, hs.frames, (fun h => by cases h)⟩
  have hnone : now.known = none ↔ now.valid = false := known_eq_none
  have hcross : (trackLife t).crossing = none ↔ t.insideCandidateValid = false := known_eq_none
  unfold updateTrackInside Presence.cross
  dsimp only
  rw [if_neg (by simp [hs.initialized])]
  by_cases hsame : inside = t.inside
  · rw [if_pos (beq_iff_eq.mpr hsame), if_pos (show inside = (trackLife t).inside from hsame)]
    exact ⟨rfl, hs.initialized, hs.frames, (fun h => by cases h)⟩
  rw [if_neg (fun h => hsame (beq_iff_eq.mp h)),
    if_neg (show ¬ inside = (trackLife t).inside from hsame)]
  have hother : inside = !t.inside := Bool.eq_not.mpr hsame
  by_cases hnow : (presenceRates config).debounce = 0 ∨ now.known = none
  · rw [if_pos (by simpa [presenceRates, hnone] using hnow), if_pos hnow]
    exact ⟨hclear _, hsound _⟩
  rw [if_neg (by simpa [presenceRates, hnone] using hnow), if_neg hnow]
  have hvalid : now.valid = true := by
    rw [not_or, hnone] at hnow
    simpa using hnow.2
  by_cases hfirst : t.insideCandidateValid = false
  · rw [if_pos (by simp [hfirst]), if_pos (hcross.mpr hfirst)]
    refine ⟨?_, hs.initialized, hs.frames, fun _ => hother⟩
    simp [trackLife, MeTimeline.known, known, hvalid]
  have hcand : t.insideCandidate = inside := by
    rw [hs.candidate (by simpa using hfirst), hother]
  have hsince : known t.insideCandidateSinceUs true = (trackLife t).crossing := by
    simp [trackLife, known, hfirst]
  rw [if_neg (by simp [hfirst, hcand]), if_neg (mt hcross.mp hfirst), elapsedAtLeast_eq, hsince]
  change trackLife (if Watch.elapsed _ _ (presenceRates config).debounce = true then _ else _) = _ ∧
    SlotSound (if Watch.elapsed _ _ (presenceRates config).debounce = true then _ else _)
  split
  · exact ⟨hclear _, hsound _⟩
  · exact ⟨rfl, hs⟩

theorem trackConfirmed_eq : trackConfirmed config t now =
    Presence.enough (presenceRates config) now.known t.seenFrames (trackLife t).firstSeen := by
  rw [trackConfirmed, elapsedAtLeast_eq, Presence.enough, Bool.decide_and]
  rfl

/-- The part of `seeTrack` that confirms. -/
def confirmTrack (config : MeAnalyticsConfig) (frameId : Nat) (now : MeTimeline)
    (t : MeEventTrackState) : MeEventTrackState :=
  if t.confirmed then t
  else
    let t := { t with seenFrames := min (t.seenFrames + 1) uint32Max }
    let t :=
      if t.seenFrames == 1 then
        { t with
          firstFrameId := frameId, firstTimelineUs := now.us, firstTimelineValid := now.valid }
      else t
    if trackConfirmed config t now then { t with confirmed := true } else t

variable (config frameId now) in
theorem confirmTrack_life (hs : SlotSound t) :
    trackLife (confirmTrack config frameId now t) =
        Presence.confirm (presenceRates config) now.known (trackLife t) ∧
      SlotSound (confirmTrack config frameId now t) := by
  unfold confirmTrack Presence.confirm
  by_cases hc : t.confirmed = true
  · rw [if_pos hc, if_pos (show (trackLife t).confirmed = true from hc)]
    exact ⟨rfl, hs⟩
  have hframes := hs.frames
  have hmax : 2 ≤ uint32Max := by decide
  have hpos : 0 < min (t.seenFrames + 1) uint32Max := by omega
  have hnot : ¬ (min (t.seenFrames + 1) uint32Max == 1) = true := by
    rw [beq_iff_eq]
    omega
  rw [if_neg hc, if_neg (show ¬ (trackLife t).confirmed = true from hc)]
  dsimp only
  rw [if_neg hnot, trackConfirmed_eq]
  split
  · next henough =>
    refine ⟨?_, hs.initialized, hpos, hs.candidate⟩
    show _ = Life.mk _ (Presence.enough _ _ _ _) _ _ _ _ _
    exact (congrArg (Life.mk _ · _ _ _ _ _) henough).symm
  · next henough =>
    refine ⟨?_, hs.initialized, hpos, hs.candidate⟩
    rw [Bool.not_eq_true] at hc henough
    show Life.mk t.present t.confirmed _ _ _ _ _ = Life.mk _ (Presence.enough _ _ _ _) _ _ _ _ _
    rw [hc]
    exact (congrArg (Life.mk _ · _ _ _ _ _) henough).symm

variable (config frameId now input) in
/-- Seeing a track again is seeing its life again. -/
theorem seeTrack_again (hs : SlotSound t) :
    trackLife (seeTrack config frameId now input t) =
        Presence.again (presenceRates config) now.known (trackInside config input.bbox)
          (trackLife t) ∧
      SlotSound (seeTrack config frameId now input t) := by
  have hs' : SlotSound { t with present := true } := ⟨hs.initialized, hs.frames, hs.candidate⟩
  obtain ⟨hcross, hsound⟩ :=
    updateTrackInside_life config now hs' (trackInside config input.bbox)
  obtain ⟨hconfirm, hsound⟩ := confirmTrack_life config frameId now hsound
  refine ⟨?_, hsound.initialized, hsound.frames, hsound.candidate⟩
  rw [Presence.again_eq]
  rw [hcross] at hconfirm
  exact congrArg (fun l : Life => { l with lastSeen := now.known }) hconfirm

variable (config frameId now input) in
theorem seeTrack_first (k : Nat) :
    trackLife (seeTrack config frameId now input { inUse := true, trackId := k }) =
        Presence.first (presenceRates config) now.known (trackInside config input.bbox) ∧
      SlotSound (seeTrack config frameId now input { inUse := true, trackId := k }) := by
  let t : MeEventTrackState := { inUse := true, present := true, trackId := k, seenFrames := 1
                                 firstFrameId := frameId, firstTimelineUs := now.us
                                 firstTimelineValid := now.valid, insideInitialized := true
                                 inside := trackInside config input.bbox }
  have hconfirm : confirmTrack config frameId now { inUse := true, present := true, trackId := k
                                                    insideInitialized := true
                                                    inside := trackInside config input.bbox } =
      { t with confirmed := trackConfirmed config t now } := by
    have hone : (min (0 + 1) uint32Max == 1) = true := by decide
    unfold confirmTrack
    dsimp only
    rw [if_neg Bool.false_ne_true, if_pos hone]
    show (if trackConfirmed config t now = true then _ else t) = _
    cases h : trackConfirmed config t now <;> rfl
  have hsee : seeTrack config frameId now input { inUse := true, trackId := k } =
      { t with
        confirmed := trackConfirmed config t now
        lastSeenFrameId := frameId
        lastTimelineUs := now.us
        lastTimelineValid := now.valid } :=
    congrArg (fun t : MeEventTrackState => { t with lastSeenFrameId := frameId
                                                    lastTimelineUs := now.us
                                                    lastTimelineValid := now.valid }) hconfirm
  rw [hsee, trackConfirmed_eq]
  exact ⟨rfl, rfl, Nat.one_pos, (fun h => by cases h)⟩

theorem seeTrack_key : trackKey (seeTrack config frameId now input t) = trackKey t := by
  have hinside : trackKey (updateTrackInside config { t with present := true }
      (trackInside config input.bbox) now) = trackKey t := by
    unfold updateTrackInside clearInsideCandidate
    dsimp only
    split_ifs <;> rfl
  have hconfirm : ∀ u, trackKey (confirmTrack config frameId now u) = trackKey u := by
    intro u
    unfold confirmTrack
    dsimp only
    split_ifs <;> rfl
  exact (hconfirm _).trans hinside

end

/-! ## The array holds a roster -/

/-- The slots hold the lives of the roster, each in one slot. -/
structure Seated (tracks : List MeEventTrackState) (roster : List (Subject Nat)) : Prop where
  slots : tracks.length = meAnalyticsMaxTracks
  distinct : Slots.Distinct trackKey tracks
  unique : Keyed.Unique Subject.key roster
  sound : ∀ t ∈ tracks, t.inUse = true → SlotSound t
  lives : ∀ k, (Slots.lookup trackKey k tracks).map trackLife = lifeIn roster k

section

variable {config : MeAnalyticsConfig} {tracks pre post : List MeEventTrackState}
  {roster roster' : List (Subject Nat)} {a t : MeEventTrackState} {frameId k : Nat}
  {now : MeTimeline} {input : MeTrackObservation}

theorem trackKey_eq_some : trackKey t = some k ↔ t.inUse = true ∧ t.trackId = k := by
  unfold trackKey
  cases t.inUse <;> simp

theorem trackKey_eq_none : trackKey t = none ↔ t.inUse = false := by
  unfold trackKey
  cases t.inUse <;> simp

theorem seated_empty : Seated (List.replicate meAnalyticsMaxTracks {}) [] where
  slots := List.length_replicate
  distinct := by
    have hnil : Slots.keys trackKey (List.replicate meAnalyticsMaxTracks {}) = [] := by decide
    rw [Slots.Distinct, hnil]
    exact List.nodup_nil
  unique := Keyed.unique_nil
  sound := fun t ht hu => by
    rw [List.eq_of_mem_replicate ht] at hu
    cases hu
  lives := fun k => by
    have hnone : Slots.lookup trackKey k (List.replicate meAnalyticsMaxTracks {}) = none := by
      rw [Slots.lookup_eq_none, Slots.mem_keys]
      rintro ⟨t, ht, hk⟩
      rw [List.eq_of_mem_replicate ht] at hk
      cases hk
    rw [hnone]
    rfl

theorem findTrack_some {slot : Nat} (h : findTrack tracks k = some slot) :
    ∃ pre t post, tracks = pre ++ t :: post ∧ pre.length = slot ∧ trackKey t = some k := by
  obtain ⟨pre, t, post, heq, hlen, hp, -⟩ := Slots.findIdx?_split h
  exact ⟨pre, t, post, heq, hlen, trackKey_eq_some.mpr (by simpa using hp)⟩

theorem findTrack_none (h : findTrack tracks k = none) : k ∉ Slots.keys trackKey tracks := by
  rw [Slots.mem_keys]
  rintro ⟨t, ht, hk⟩
  have hno := List.findIdx?_eq_none_iff.mp h t ht
  obtain ⟨hu, hid⟩ := trackKey_eq_some.mp hk
  simp [hu, hid] at hno

/-- Another track state in a slot: of the same track, of none, or of one not seated yet. -/
theorem Seated.replace (h : Seated (pre ++ t :: post) roster)
    (hkey : ∀ k, trackKey a = some k → trackKey t = some k ∨
      k ∉ Slots.keys trackKey (pre ++ t :: post))
    (ha : a.inUse = true → SlotSound a) (hu : Keyed.Unique Subject.key roster')
    (hlives : ∀ k, lifeIn roster' k =
      if trackKey a = some k then some (trackLife a)
      else if trackKey t = some k then none else lifeIn roster k) :
    Seated (pre ++ a :: post) roster' where
  slots := by simpa using h.slots
  distinct := h.distinct.replace hkey
  unique := hu
  sound := by
    intro u hu huse
    rcases List.mem_append.mp hu with hu | hu
    · exact h.sound u (List.mem_append_left _ hu) huse
    · rcases List.mem_cons.mp hu with rfl | hu
      · exact ha huse
      · exact h.sound u (List.mem_append_right _ (List.mem_cons_of_mem _ hu)) huse
  lives := by
    intro k
    rw [Slots.lookup_replace h.distinct hkey, hlives]
    split
    · rfl
    · split
      · rfl
      · exact h.lives k

/-- As many slots are in use as there are lives. -/
theorem Seated.occupied (h : Seated tracks roster) :
    (Slots.keys trackKey tracks).Perm (roster.map Subject.key) := by
  rw [List.perm_ext_iff_of_nodup h.distinct h.unique]
  intro k
  have hlife : (lifeIn roster k).isSome = true ↔ k ∈ roster.map Subject.key := by
    rw [lifeIn, Option.isSome_map, Option.isSome_iff_ne_none, ne_eq, Keyed.lookup_eq_none]
    simp
  rw [← hlife, ← h.lives, Option.isSome_map, Slots.lookup_isSome]

theorem Seated.free (h : Seated tracks roster) :
    (∃ t ∈ tracks, t.inUse = false) ↔ roster.length < meAnalyticsMaxTracks := by
  have hlen : (Slots.keys trackKey tracks).length = roster.length := by
    rw [h.occupied.length_eq, List.length_map]
  have hcount : (Slots.keys trackKey tracks).length = tracks.countP fun t => t.inUse := by
    unfold Slots.keys
    rw [List.length_filterMap_eq_countP]
    refine List.countP_congr fun t _ => ?_
    cases hu : t.inUse <;> simp [trackKey, hu]
  rw [← h.slots, ← hlen, hcount, List.countP_lt_length_iff]

/-- A track has a slot that is marked present iff its life is present. -/
theorem Seated.present_iff (h : Seated tracks roster) :
    (∃ t ∈ tracks, t.inUse = true ∧ t.trackId = k ∧ t.present = true) ↔
      ∃ l, lifeIn roster k = some l ∧ l.present = true := by
  rw [← h.lives]
  constructor
  · rintro ⟨t, ht, hu, hid, hp⟩
    rw [Slots.lookup_of_mem h.distinct ht (trackKey_eq_some.mpr ⟨hu, hid⟩)]
    exact ⟨_, rfl, hp⟩
  · rintro ⟨l, hl, hp⟩
    obtain ⟨t, ht, rfl⟩ := Option.map_eq_some_iff.mp hl
    obtain ⟨hu, hid⟩ := trackKey_eq_some.mp (Slots.lookup_key ht)
    exact ⟨t, Slots.lookup_mem ht, hu, hid, hp⟩

theorem lifeIn_insert {s : Subject Nat} : lifeIn (Keyed.insert Subject.key s roster) k =
    if s.key = k then some s.life else lifeIn roster k := by
  unfold lifeIn
  rw [Keyed.lookup_insert]
  split <;> rfl

theorem lifeIn_erase {j : Nat} : lifeIn (Keyed.erase Subject.key j roster) k =
    if k = j then none else lifeIn roster k := by
  unfold lifeIn
  rw [Keyed.lookup_erase]
  split <;> rfl

theorem Seated.lookup_none (h : Seated tracks roster) (hk : k ∉ Slots.keys trackKey tracks) :
    Keyed.lookup Subject.key k roster = none := by
  have hold := h.lives k
  rw [Slots.lookup_eq_none.mpr hk] at hold
  exact Option.map_eq_none_iff.mp hold.symm

/-- A track that is in a slot is seen again. -/
theorem Seated.again (h : Seated (pre ++ t :: post) roster) (ht : trackKey t = some k)
    (inside : Bool) (hinside : trackInside config input.bbox = inside) :
    Seated (pre ++ seeTrack config frameId now input t :: post)
      (Presence.note (presenceRates config) meAnalyticsMaxTracks now.known roster k
        (.seen inside)) := by
  have hmem : t ∈ pre ++ t :: post := by simp
  obtain ⟨hlife, hsound⟩ := seeTrack_again config frameId now input
    (h.sound t hmem (trackKey_eq_some.mp ht).1)
  have hold := h.lives k
  rw [Slots.lookup_of_mem h.distinct hmem ht, Option.map_some, lifeIn, eq_comm,
    Option.map_eq_some_iff] at hold
  obtain ⟨s, hs, hsl⟩ := hold
  unfold Presence.note
  simp only [hs]
  refine h.replace (fun j hj => .inl (seeTrack_key ▸ hj)) (fun _ => hsound) (h.unique.insert _)
    fun j => ?_
  rw [lifeIn_insert, seeTrack_key, ht, hlife, hinside, hsl]
  by_cases hj : k = j
  · simp [hj]
  · simp [hj]

/-- A track that is in no slot gets the first free one. -/
theorem Seated.first (h : Seated (pre ++ t :: post) roster) (ht : t.inUse = false)
    (hk : k ∉ Slots.keys trackKey (pre ++ t :: post)) (inside : Bool)
    (hinside : trackInside config input.bbox = inside) :
    Seated (pre ++ seeTrack config frameId now input { inUse := true, trackId := k } :: post)
      (Presence.note (presenceRates config) meAnalyticsMaxTracks now.known roster k
        (.seen inside)) := by
  obtain ⟨hlife, hsound⟩ := seeTrack_first config frameId now input k
  have hroom : roster.length < meAnalyticsMaxTracks := h.free.mp ⟨t, by simp, ht⟩
  have hkey : trackKey (seeTrack config frameId now input { inUse := true, trackId := k }) =
      some k := seeTrack_key
  unfold Presence.note
  simp only [h.lookup_none hk, if_pos hroom]
  refine h.replace (fun j hj => .inr ?_) (fun _ => hsound) (h.unique.insert _) fun j => ?_
  · rw [hkey] at hj
    exact Option.some.inj hj ▸ hk
  · rw [lifeIn_insert, hkey, hlife, hinside, trackKey_eq_none.mpr ht]
    by_cases hj : k = j
    · simp [hj]
    · simp [hj]

/-- The loop body of `update_tracks` is one look at the roster. -/
theorem updateTrack_seated (h : Seated tracks roster) :
    Seated (updateTrack config frameId now tracks input)
      (Presence.note (presenceRates config) meAnalyticsMaxTracks now.known roster input.trackId
        (lookAt config input)) := by
  unfold updateTrack lookAt
  split
  · exact h
  split
  · cases hf : findTrack tracks input.trackId with
    | none =>
      show Seated tracks (Keyed.erase Subject.key input.trackId roster)
      rwa [Keyed.erase_of_lookup_eq_none (h.lookup_none (findTrack_none hf))]
    | some slot =>
      obtain ⟨pre, t, post, rfl, hlen, ht⟩ := findTrack_some hf
      dsimp only
      rw [Slots.set_split hlen]
      refine h.replace (fun j hj => by cases hj) (fun hu => by cases hu) (h.unique.erase _)
        fun j => ?_
      show lifeIn (Keyed.erase Subject.key input.trackId roster) j = _
      rw [lifeIn_erase, ht]
      by_cases hj : j = input.trackId
      · simp [hj, trackKey]
      · simp [hj, Ne.symm hj, trackKey]
  split
  · exact h
  cases hf : findTrack tracks input.trackId with
  | some slot =>
    obtain ⟨pre, t, post, rfl, hlen, ht⟩ := findTrack_some hf
    dsimp only
    rw [Slots.modify_split hlen]
    exact h.again ht _ rfl
  | none =>
    have hk := findTrack_none hf
    dsimp only
    unfold allocateTrack
    cases hfree : tracks.findIdx? fun t => !t.inUse with
    | none =>
      have hfull : ¬ roster.length < meAnalyticsMaxTracks := fun hlt => by
        obtain ⟨t, ht, hu⟩ := h.free.mpr hlt
        simpa [hu] using List.findIdx?_eq_none_iff.mp hfree t ht
      unfold Presence.note
      simp only [h.lookup_none hk, if_neg hfull]
      exact h
    | some slot =>
      obtain ⟨pre, t, post, rfl, hlen, ht, -⟩ := Slots.findIdx?_split hfree
      dsimp only
      rw [Slots.set_split hlen, Slots.modify_split hlen]
      exact h.first (by simpa using ht) hk _ rfl

/-- Both kinds of passes over all slots: `f` changes a life or empties the slot. -/
theorem Seated.map (h : Seated tracks roster) {f : MeEventTrackState → MeEventTrackState}
    (hf : ∀ t, trackKey (f t) = trackKey t ∨ trackKey (f t) = none)
    (hs : ∀ t, SlotSound t → (f t).inUse = true → SlotSound (f t))
    (hu : Keyed.Unique Subject.key roster')
    (hlives : ∀ k, lifeIn roster' k = ((Slots.lookup trackKey k tracks).bind fun t =>
      if trackKey (f t) = some k then some (f t) else none).map trackLife) :
    Seated (tracks.map f) roster' where
  slots := by rw [List.length_map, h.slots]
  distinct := h.distinct.map hf
  unique := hu
  sound := by
    intro u hu huse
    obtain ⟨t, ht, rfl⟩ := List.mem_map.mp hu
    have hin : t.inUse = true := by
      rcases hf t with hk | hk
      · rw [trackKey_eq_some.mpr ⟨huse, rfl⟩, eq_comm, trackKey_eq_some] at hk
        exact hk.1
      · rw [trackKey_eq_none, huse] at hk
        cases hk
    exact hs t (h.sound t ht hin) huse
  lives := fun k => by rw [Slots.lookup_map h.distinct hf, hlives]

theorem Seated.absent (h : Seated tracks roster) :
    Seated (tracks.map fun t => { t with present := false }) (roster.map Presence.absent) := by
  have hu : Keyed.Unique Subject.key (roster.map Presence.absent) := by
    show ((roster.map Presence.absent).map Subject.key).Nodup
    rw [List.map_map]
    exact h.unique
  refine h.map (fun t => .inl rfl) (fun t hs _ => ⟨hs.initialized, hs.frames, hs.candidate⟩) hu
    fun k => ?_
  rw [Presence.lifeIn_absent, ← h.lives]
  cases hl : Slots.lookup trackKey k tracks with
  | none => rfl
  | some t =>
    have hk : trackKey t = some k := Slots.lookup_key hl
    rw [Option.bind_some, if_pos (show trackKey { t with present := false } = some k from hk)]
    rfl

variable (config now) in
/-- What the second loop makes of a slot in use is what a round leaves of its life. -/
theorem expireTrack_life (hu : t.inUse = true) :
    (expireTrack config now t = t ∧
      (if (trackLife t).present then some (trackLife t)
        else Presence.missed (presenceRates config) now.known (trackLife t)) =
          some (trackLife t)) ∨
    (expireTrack config now t = {} ∧
      (if (trackLife t).present then some (trackLife t)
        else Presence.missed (presenceRates config) now.known (trackLife t)) = none) := by
  unfold expireTrack
  dsimp only
  rw [if_neg (by simp [hu]), elapsedAtLeast_eq]
  by_cases hp : t.present = true
  · refine .inl ⟨?_, if_pos hp⟩
    rw [if_neg (by simp [hp]), if_neg (by simp [hp])]
  · have hp' : t.present = false := by simpa using hp
    rw [if_neg (show ¬ (trackLife t).present = true from hp)]
    have hforgotten : Presence.forgotten (presenceRates config) now.known (trackLife t) =
        (!t.confirmed || config.disappearGraceMs * 1000 == 0 ||
          Watch.elapsed (known t.lastTimelineUs t.lastTimelineValid) now.known
            (config.disappearGraceMs * 1000)) := rfl
    unfold Presence.missed
    rw [hforgotten]
    cases hc : t.confirmed with
    | false => exact .inr ⟨by rw [if_pos (by simp [hp'])], rfl⟩
    | true =>
      by_cases hgone : (config.disappearGraceMs * 1000 == 0 ||
          Watch.elapsed (known t.lastTimelineUs t.lastTimelineValid) now.known
            (config.disappearGraceMs * 1000)) = true
      · refine .inr ⟨?_, ?_⟩
        · rw [if_neg (by simp), if_pos (by rw [hp', hgone]; rfl)]
        · rw [if_pos (by simpa using hgone)]
      · refine .inl ⟨?_, ?_⟩
        · rw [if_neg (by simp), if_neg (by rw [hp', Bool.not_false, Bool.true_and]; exact hgone)]
        · rw [if_neg (by simpa using hgone), trackLife, hp']

theorem expireTrack_key (t : MeEventTrackState) :
    trackKey (expireTrack config now t) = trackKey t ∨
      trackKey (expireTrack config now t) = none := by
  unfold expireTrack
  dsimp only
  split_ifs
  · exact .inl rfl
  · exact .inr rfl
  · exact .inr rfl
  · exact .inl rfl

theorem Seated.settled (h : Seated tracks roster) :
    Seated (tracks.map (expireTrack config now))
      (roster.filterMap (Presence.settle (presenceRates config) now.known)) := by
  refine h.map expireTrack_key (fun t hs hin => ?_)
    (h.unique.filterMap fun x y h => Presence.settle_key h) fun k => ?_
  · have hcases : expireTrack config now t = t ∨ expireTrack config now t = {} := by
      unfold expireTrack
      dsimp only
      split_ifs <;> simp
    rcases hcases with heq | heq
    · rwa [heq]
    · rw [heq] at hin
      cases hin
  · rw [Presence.lifeIn_settled h.unique, ← h.lives]
    cases hl : Slots.lookup trackKey k tracks with
    | none => rfl
    | some t =>
      have hk : trackKey t = some k := Slots.lookup_key hl
      rw [Option.map_some, Option.bind_some, Option.bind_some]
      rcases expireTrack_life config now (trackKey_eq_some.mp hk).1 with
        ⟨heq, hlife⟩ | ⟨heq, hlife⟩
      · rw [heq, hlife, if_pos hk]
        rfl
      · rw [heq, hlife]
        rfl

/-- **`update_tracks` is a round of looks at the roster**, whatever slots the tracks are in. -/
theorem updateTracks_seated {e : MeEventEngine} {o : MeNormalizedObservation}
    (h : Seated e.tracks roster) :
    Seated (updateTracks e o now).1.tracks
      (Presence.round (presenceRates e.config) meAnalyticsMaxTracks now.known
        (looksOf e.config o) roster) := by
  have hfold : ∀ (inputs : List MeTrackObservation) (tracks : List MeEventTrackState)
      (roster : List (Subject Nat)), Seated tracks roster →
      Seated (inputs.foldl (updateTrack e.config o.frameId now) tracks)
        ((inputs.map fun i => (i.trackId, lookAt e.config i)).foldl (fun roster x =>
          Presence.note (presenceRates e.config) meAnalyticsMaxTracks now.known roster x.1 x.2)
          roster) := by
    intro inputs
    induction inputs with
    | nil => exact fun _ _ h => h
    | cons i inputs ih => exact fun _ _ h => ih _ _ (updateTrack_seated h)
  exact (hfold o.tracks _ _ h.absent).settled

theorem updateTracks_count {e : MeEventEngine} {o : MeNormalizedObservation}
    (h : Seated (updateTracks e o now).1.tracks roster) :
    (updateTracks e o now).2 = roster.countP fun s => s.life.counted := by
  have hp : ∀ t : MeEventTrackState, (t.inUse && t.present && t.confirmed && t.inside) = true →
      trackKey t ≠ none := fun t ht hnone => by simp [trackKey_eq_none.mp hnone] at ht
  have hany : ∀ k, (Slots.lookup trackKey k (updateTracks e o now).1.tracks).any
      (fun t => t.inUse && t.present && t.confirmed && t.inside) =
        (lifeIn roster k).any Life.counted := by
    intro k
    rw [← h.lives]
    cases hl : Slots.lookup trackKey k (updateTracks e o now).1.tracks with
    | none => rfl
    | some t =>
      rw [Option.map_some, Option.any_some, Option.any_some,
        (trackKey_eq_some.mp (Slots.lookup_key hl)).1, Bool.true_and]
      rfl
  have hcount := Slots.countP_eq h.distinct hp h.unique fun k hk => by
    rw [hany] at hk
    obtain ⟨l, hl, -⟩ := (Option.any_eq_true _ _).mp hk
    obtain ⟨s, hs, -⟩ := Option.map_eq_some_iff.mp hl
    exact List.mem_map.mpr ⟨s, Keyed.lookup_mem hs, Keyed.lookup_key hs⟩
  refine hcount.trans ?_
  rw [List.countP_map]
  refine List.countP_congr fun s hs => ?_
  show (Slots.lookup trackKey s.key _).any _ = true ↔ _
  rw [hany, lifeIn, Keyed.lookup_of_mem h.unique hs]
  rfl

end

end FlowAlarm.Engine
