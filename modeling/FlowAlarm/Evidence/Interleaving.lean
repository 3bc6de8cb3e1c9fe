import FlowAlarm.Evidence.EvidenceCache

/-!
# Notes and frames in any order

Two threads feed the window: one with frame notes, one with JPEG frames. The
window is at any time a function of what each of them has sent so far
(`Fed`), whatever the order in between (`interleavings_agree`).
-/

namespace FlowAlarm.Evidence

open FlowAlarm.Text FlowAlarm.Engine

/-- A frame as the encoder hands it over. -/
structure Push where
  jpeg : Bytes
  valid : Bool
  pts : ℤ

inductive Arrival where
  | note (note : FrameNote)
  | push (push : Push)

def feed (cache : MeEvidenceCache) : Arrival → MeEvidenceCache
  | .note note => (meEvidenceCacheNoteFrame cache note).2
  | .push p => (meEvidenceCachePushJpeg cache p.jpeg p.valid p.pts).2

def feedAll (cache : MeEvidenceCache) (calls : List Arrival) : MeEvidenceCache :=
  calls.foldl feed cache

def Arrival.noteOf : Arrival → Option FrameNote
  | .note n => some n
  | .push _ => none

def Arrival.pushOf : Arrival → Option Push
  | .note _ => none
  | .push p => some p

/-- The calls of the analytics path, in their order. -/
def notesOf (calls : List Arrival) : List FrameNote := calls.filterMap Arrival.noteOf

/-- The calls of the encoder, in their order. -/
def pushesOf (calls : List Arrival) : List Push := calls.filterMap Arrival.pushOf

/-! ## What a note becomes -/

def accepted (note : FrameNote) : Bool :=
  note.channelId.bytes != [] && note.streamEpoch != 0 && note.frameId != 0

/-- A note as the cache keeps it. -/
def stored (note : FrameNote) : FrameNote :=
  { note with channelId := note.channelId.snprintf meAnalyticsChannelIdMax }

/-- The notes the cache has after these calls, as long as they fit. -/
def kept (notes : List FrameNote) : List FrameNote := (notes.filter accepted).map stored

/-- Notes with the same valid time stamp are the same note. -/
def Consistent (notes : List FrameNote) : Prop :=
  ∀ m ∈ notes, ∀ n ∈ notes, m.sourcePtsValid = true → n.sourcePtsValid = true →
    m.sourcePts = n.sourcePts → m = n

def blank (p : Push) : FrameNote := ⟨.empty, 0, 0, p.valid, p.pts, ⟨0, 0⟩, 0, 0⟩

/-- The frame of a push under the notes there are. -/
def annotate (notes : List FrameNote) (p : Push) : JpegFrame :=
  ⟨p.jpeg, ((kept notes).reverse.find? fun note => samePts note p.valid p.pts).getD (blank p)⟩

/-- `evictFrames`, on what was pushed. -/
def evictPushes (limit : ℕ) : ℕ → List Push → ℕ × List Push
  | total, [] => (total, [])
  | total, p :: ps =>
    if limit < total then evictPushes limit (total - p.jpeg.length) ps else (total, p :: ps)

def pushWindow (limit : ℕ) (w : ℕ × List Push) (p : Push) : ℕ × List Push :=
  if isJpeg p.jpeg then evictPushes limit (w.1 + p.jpeg.length) (w.2 ++ [p]) else w

/-- The bytes and the pushes that are in the window after these pushes. -/
def window (limit : ℕ) (pushes : List Push) : ℕ × List Push :=
  pushes.foldl (pushWindow limit) (0, [])

theorem evictFrames_map {f : Push → JpegFrame} (hf : ∀ p, (f p).jpeg = p.jpeg) (limit total : ℕ)
    (ps : List Push) :
    evictFrames limit total (ps.map f) =
      ((evictPushes limit total ps).1, (evictPushes limit total ps).2.map f) := by
  induction ps generalizing total with
  | nil => rfl
  | cons p ps ih =>
    rw [List.map_cons, evictFrames, evictPushes]
    split
    · rw [hf, ih]
    · rfl

/-! ## Annotations -/

theorem samePts_iff {note : FrameNote} {valid : Bool} {pts : ℤ} :
    samePts note valid pts = true ↔
      valid = true ∧ note.sourcePtsValid = true ∧ note.sourcePts = pts := by
  rw [samePts, Bool.and_eq_true, Bool.and_eq_true, beq_iff_eq, and_assoc]

theorem mem_kept {notes : List FrameNote} {note : FrameNote} (h : note ∈ kept notes) :
    ∃ raw ∈ notes, accepted raw = true ∧ stored raw = note := by
  obtain ⟨raw, hraw, rfl⟩ := List.mem_map.mp h
  obtain ⟨hmem, hacc⟩ := List.mem_filter.mp hraw
  exact ⟨raw, hmem, hacc, rfl⟩

theorem kept_append (notes : List FrameNote) (note : FrameNote) :
    kept (notes ++ [note]) = kept notes ++ if accepted note then [stored note] else [] := by
  rw [kept, kept, List.filter_append, List.map_append, List.filter_singleton]
  cases accepted note <;> rfl

/-- A note that was accepted names a channel. -/
theorem stored_channel {note : FrameNote} (h : accepted note = true) :
    (stored note).channelId.bytes ≠ [] := by
  simp only [accepted, Bool.and_eq_true, bne_iff_ne] at h
  cases hb : note.channelId.bytes with
  | nil => exact absurd hb h.1.1
  | cons b bs => simp [stored, CStr.snprintf, meAnalyticsChannelIdMax, hb]

/-- What a frame carries: the note of its time stamp, or nothing. -/
structure Annotated (notes : List FrameNote) (p : Push) (frame : JpegFrame) : Prop where
  jpeg : frame.jpeg = p.jpeg
  found : ∀ note ∈ kept notes, samePts note p.valid p.pts = true → frame.note = note
  missing : (∀ note ∈ kept notes, samePts note p.valid p.pts = false) → frame.note = blank p

theorem kept_unique {notes : List FrameNote} (h : Consistent notes) {valid : Bool} {pts : ℤ}
    {m n : FrameNote} (hm : m ∈ kept notes) (hn : n ∈ kept notes)
    (hmp : samePts m valid pts = true) (hnp : samePts n valid pts = true) : m = n := by
  obtain ⟨rm, hrm, -, rfl⟩ := mem_kept hm
  obtain ⟨rn, hrn, -, rfl⟩ := mem_kept hn
  obtain ⟨-, hmv, hmt⟩ := samePts_iff.mp hmp
  obtain ⟨-, hnv, hnt⟩ := samePts_iff.mp hnp
  rw [h rm hrm rn hrn hmv hnv (hmt.trans hnt.symm)]

theorem annotate_spec {notes : List FrameNote} (h : Consistent notes) (p : Push) :
    Annotated notes p (annotate notes p) := by
  refine ⟨rfl, fun note hn hp => ?_, fun hnone => ?_⟩
  · cases hfind : (kept notes).reverse.find? fun note => samePts note p.valid p.pts with
    | none =>
      have := List.find?_eq_none.mp hfind note (List.mem_reverse.mpr hn)
      exact absurd hp this
    | some m =>
      have hm : samePts m p.valid p.pts = true :=
        @List.find?_some _ (fun note => samePts note p.valid p.pts) _ _ hfind
      rw [annotate, hfind]
      exact kept_unique h (List.mem_reverse.mp (List.mem_of_find?_eq_some hfind)) hn hm hp
  · have hfind : ((kept notes).reverse.find? fun note => samePts note p.valid p.pts) = none :=
      List.find?_eq_none.mpr fun note hn => by simp [hnone note (List.mem_reverse.mp hn)]
    rw [annotate, hfind]
    rfl

/-- An annotation does not change the time stamp it was found by. -/
theorem annotate_pts {notes : List FrameNote} (h : Consistent notes) (note : FrameNote) (p : Push) :
    samePts note (annotate notes p).note.sourcePtsValid (annotate notes p).note.sourcePts =
      samePts note p.valid p.pts := by
  have hspec := annotate_spec h p
  by_cases hex : ∃ m ∈ kept notes, samePts m p.valid p.pts = true
  · obtain ⟨m, hm, hp⟩ := hex
    obtain ⟨hv, hmv, hmt⟩ := samePts_iff.mp hp
    rw [hspec.found m hm hp, hmv, hmt, hv]
  · rw [hspec.missing fun m hm => by simpa using fun hp => hex ⟨m, hm, hp⟩]
    rfl

/-- What `note_frame` does to a frame of the window. -/
theorem annotate_note {notes : List FrameNote} {note : FrameNote} (h : Consistent (notes ++ [note]))
    (ha : accepted note = true) (p : Push) :
    (if (annotate notes p).note.channelId.bytes = [] ∧
        samePts (stored note) (annotate notes p).note.sourcePtsValid
          (annotate notes p).note.sourcePts then
      { annotate notes p with note := stored note }
    else annotate notes p) = annotate (notes ++ [note]) p := by
  have hold : Consistent notes := fun m hm n hn =>
    h m (List.mem_append_left _ hm) n (List.mem_append_left _ hn)
  have hspec := annotate_spec hold p
  have hspec' := annotate_spec h p
  have hkept : kept (notes ++ [note]) = kept notes ++ [stored note] := by
    rw [kept_append, if_pos ha]
  have hmem : stored note ∈ kept (notes ++ [note]) := by
    rw [hkept]
    exact List.mem_append_right _ (List.mem_singleton_self _)
  have heq : ∀ {a b : JpegFrame}, a.jpeg = b.jpeg → a.note = b.note → a = b := by
    rintro ⟨_, _⟩ ⟨_, _⟩ rfl rfl
    rfl
  rw [annotate_pts hold]
  by_cases hex : ∃ m ∈ kept notes, samePts m p.valid p.pts = true
  · obtain ⟨m, hm, hp⟩ := hex
    have hm' : m ∈ kept (notes ++ [note]) := by
      rw [hkept]
      exact List.mem_append_left _ hm
    have hch : (annotate notes p).note.channelId.bytes ≠ [] := by
      obtain ⟨raw, -, hacc, rfl⟩ := mem_kept hm
      rw [hspec.found _ hm hp]
      exact stored_channel hacc
    rw [if_neg fun hc => hch hc.1]
    exact heq rfl ((hspec.found m hm hp).trans (hspec'.found m hm' hp).symm)
  · have hnone : ∀ m ∈ kept notes, samePts m p.valid p.pts = false := fun m hm => by
      simpa using fun hp => hex ⟨m, hm, hp⟩
    have hblank := hspec.missing hnone
    by_cases hp : samePts (stored note) p.valid p.pts = true
    · rw [if_pos ⟨by rw [hblank]; rfl, hp⟩]
      exact heq rfl (hspec'.found _ hmem hp).symm
    · rw [if_neg fun hc => hp hc.2]
      refine heq rfl (hblank.trans (hspec'.missing fun m hm => ?_).symm)
      rw [hkept] at hm
      rcases List.mem_append.mp hm with hm | hm
      · exact hnone m hm
      · rw [List.mem_singleton.mp hm]
        simpa using hp

/-! ## The window after any calls -/

/-- **What the window holds**: the notes sent so far, and the frames sent so far that still fit,
under those notes. -/
structure Fed (limit : ℕ) (calls : List Arrival) (cache : MeEvidenceCache) : Prop where
  size : cache.frameCacheMaxBytes = limit
  notes : cache.notes = kept (notesOf calls)
  bytes : cache.frameCacheBytes = (window limit (pushesOf calls)).1
  frames : cache.frames = (window limit (pushesOf calls)).2.map (annotate (notesOf calls))

theorem notesOf_append (calls : List Arrival) (c : Arrival) :
    notesOf (calls ++ [c]) = notesOf calls ++ c.noteOf.toList := by
  rw [notesOf, notesOf, List.filterMap_append]
  cases c <;> rfl

theorem pushesOf_append (calls : List Arrival) (c : Arrival) :
    pushesOf (calls ++ [c]) = pushesOf calls ++ c.pushOf.toList := by
  rw [pushesOf, pushesOf, List.filterMap_append]
  cases c <;> rfl

theorem length_kept (notes : List FrameNote) : (kept notes).length ≤ notes.length := by
  rw [kept, List.length_map]
  exact List.length_filter_le _ _

variable {limit : ℕ} {calls : List Arrival} {cache : MeEvidenceCache}

theorem Fed.note {n : FrameNote} (h : Fed limit calls cache)
    (hc : Consistent (notesOf calls ++ [n]))
    (hlen : (notesOf calls ++ [n]).length ≤ meEvidenceNoteLimit) :
    Fed limit (calls ++ [.note n]) (feed cache (.note n)) := by
  have hnotes : notesOf (calls ++ [.note n]) = notesOf calls ++ [n] := notesOf_append calls _
  have hpushes : pushesOf (calls ++ [.note n]) = pushesOf calls :=
    (pushesOf_append calls _).trans (List.append_nil _)
  by_cases ha : accepted n = true
  · have hvalid : ¬ (n.channelId.bytes = [] ∨ n.streamEpoch = 0 ∨ n.frameId = 0) := by
      simp only [accepted, Bool.and_eq_true, bne_iff_ne] at ha
      rintro (h | h | h)
      · exact ha.1.1 h
      · exact ha.1.2 h
      · exact ha.2 h
    have hkept : kept (notesOf calls ++ [n]) = kept (notesOf calls) ++ [stored n] := by
      rw [kept_append, if_pos ha]
    have hfits : (kept (notesOf calls) ++ [stored n]).length - meEvidenceNoteLimit = 0 := by
      rw [← hkept]
      have := length_kept (notesOf calls ++ [n])
      omega
    have hfeed : feed cache (.note n) = { cache with
        notes := (cache.notes ++ [stored n]).drop
          ((cache.notes ++ [stored n]).length - meEvidenceNoteLimit)
        frames := cache.frames.map fun frame =>
          if frame.note.channelId.bytes = [] ∧
              samePts (stored n) frame.note.sourcePtsValid frame.note.sourcePts then
            { frame with note := stored n }
          else frame } := by
      rw [feed, meEvidenceCacheNoteFrame, if_neg hvalid]
      rfl
    rw [hfeed]
    refine ⟨h.size, ?_, ?_, ?_⟩
    · rw [hnotes, hkept, h.notes]
      dsimp only
      rw [hfits, List.drop_zero]
    · rw [hpushes]
      exact h.bytes
    · rw [hnotes, hpushes, h.frames]
      dsimp only
      rw [List.map_map]
      exact List.map_congr_left fun p _ => annotate_note hc ha p
  · have hvalid : n.channelId.bytes = [] ∨ n.streamEpoch = 0 ∨ n.frameId = 0 := by
      by_contra hno
      simp only [not_or] at hno
      exact ha (by simp [accepted, hno])
    have hkept : kept (notesOf calls ++ [n]) = kept (notesOf calls) := by
      rw [kept_append, if_neg ha, List.append_nil]
    have hannotate : annotate (notesOf calls ++ [n]) = annotate (notesOf calls) := by
      funext p
      rw [annotate, annotate, hkept]
    have hfeed : feed cache (.note n) = cache := by
      rw [feed, meEvidenceCacheNoteFrame, if_pos hvalid]
    rw [hfeed]
    exact ⟨h.size, by rw [hnotes, hkept, h.notes], by rw [hpushes, h.bytes],
      by rw [hnotes, hpushes, hannotate, h.frames]⟩

theorem push_eq {jpeg : Bytes} (hj : isJpeg jpeg = true) (valid : Bool) (pts : ℤ) :
    (meEvidenceCachePushJpeg cache jpeg valid pts).2 =
      { cache with
        frameCacheBytes := (evictFrames cache.frameCacheMaxBytes
          (cache.frameCacheBytes + jpeg.length) (cache.frames ++
            [⟨jpeg, (latestNoteForPts cache valid pts).getD (blank ⟨jpeg, valid, pts⟩)⟩])).1
        frames := (evictFrames cache.frameCacheMaxBytes
          (cache.frameCacheBytes + jpeg.length) (cache.frames ++
            [⟨jpeg, (latestNoteForPts cache valid pts).getD (blank ⟨jpeg, valid, pts⟩)⟩])).2 } := by
  rw [meEvidenceCachePushJpeg, if_neg (by simp [hj])]
  rfl

theorem Fed.push {p : Push} (h : Fed limit calls cache) :
    Fed limit (calls ++ [.push p]) (feed cache (.push p)) := by
  have hnotes : notesOf (calls ++ [.push p]) = notesOf calls :=
    (notesOf_append calls _).trans (List.append_nil _)
  have hpushes : pushesOf (calls ++ [.push p]) = pushesOf calls ++ [p] := pushesOf_append calls _
  have hwindow : window limit (pushesOf calls ++ [p]) =
      pushWindow limit (window limit (pushesOf calls)) p := by
    rw [window, List.foldl_append]
    rfl
  by_cases hj : isJpeg p.jpeg = true
  · have hstep : window limit (pushesOf calls ++ [p]) =
        evictPushes limit ((window limit (pushesOf calls)).1 + p.jpeg.length)
          ((window limit (pushesOf calls)).2 ++ [p]) := by
      rw [hwindow, pushWindow, if_pos hj]
    have hframes : cache.frames ++ [⟨p.jpeg, (latestNoteForPts cache p.valid p.pts).getD
        (blank p)⟩] = ((window limit (pushesOf calls)).2 ++ [p]).map
          (annotate (notesOf calls)) := by
      rw [List.map_append, h.frames, latestNoteForPts, h.notes]
      rfl
    have hfeed : feed cache (.push p) = { cache with
        frameCacheBytes := (window limit (pushesOf calls ++ [p])).1
        frames := (window limit (pushesOf calls ++ [p])).2.map (annotate (notesOf calls)) } := by
      have hevict := @evictFrames_map (annotate (notesOf calls)) (fun _ => rfl) limit
        ((window limit (pushesOf calls)).1 + p.jpeg.length)
        ((window limit (pushesOf calls)).2 ++ [p])
      rw [← hframes, ← hstep, ← h.bytes, ← h.size] at hevict
      rw [feed, push_eq hj, hevict, h.size]
    have hbytes := congrArg (fun ps => (window limit ps).1) hpushes
    have hmap := congrArg (fun ps => (window limit ps).2.map (annotate (notesOf calls))) hpushes
    refine hfeed ▸ ⟨h.size, h.notes.trans (congrArg kept hnotes.symm), hbytes.symm, ?_⟩
    rw [hnotes]
    exact hmap.symm
  · have hfeed : feed cache (.push p) = cache := by
      rw [feed, meEvidenceCachePushJpeg, if_pos (by simpa using hj)]
    have hsame : window limit (pushesOf calls ++ [p]) = window limit (pushesOf calls) := by
      rw [hwindow, pushWindow, if_neg hj]
    rw [hfeed]
    exact ⟨h.size, by rw [hnotes, h.notes], by rw [hpushes, hsame, h.bytes],
      by rw [hnotes, hpushes, hsame, h.frames]⟩

/-- The window after any calls, however they interleave. -/
theorem fed_feedAll (h : Fed limit [] cache) (calls : List Arrival)
    (hlen : (notesOf calls).length ≤ meEvidenceNoteLimit) (hc : Consistent (notesOf calls)) :
    Fed limit calls (feedAll cache calls) := by
  induction calls using List.reverseRecOn with
  | nil => exact h
  | append_singleton calls c ih =>
    have hstep : feedAll cache (calls ++ [c]) = feed (feedAll cache calls) c := by
      rw [feedAll, List.foldl_append]
      rfl
    have hnotes := notesOf_append calls c
    rw [hnotes] at hlen hc
    have hold : Fed limit calls (feedAll cache calls) :=
      ih (by rw [List.length_append] at hlen; omega) fun m hm n hn =>
        hc m (List.mem_append_left _ hm) n (List.mem_append_left _ hn)
    rw [hstep]
    cases c with
    | note n => exact hold.note hc hlen
    | push p => exact hold.push

theorem fed_opened (directory : Bytes) (maxBytes retentionS : ℕ) (records : List MeEvidenceRecord)
    (files : List (Bytes × Bytes)) :
    Fed (min maxBytes meEvidenceFrameCacheMaxBytes) []
      (opened directory maxBytes retentionS records files) :=
  ⟨rfl, rfl, rfl, rfl⟩

/-- **Notes and frames may arrive in any order.** Two interleavings of the same notes and the same
frames leave the same window, and every frame in it carries the note of its time stamp. -/
theorem interleavings_agree {directory : Bytes} {maxBytes retentionS : ℕ}
    {records : List MeEvidenceRecord} {files : List (Bytes × Bytes)} {calls calls' : List Arrival}
    (hlen : (notesOf calls).length ≤ meEvidenceNoteLimit) (hc : Consistent (notesOf calls))
    (hnotes : notesOf calls' = notesOf calls) (hpushes : pushesOf calls' = pushesOf calls) :
    let cache := opened directory maxBytes retentionS records files
    (feedAll cache calls').frames = (feedAll cache calls).frames ∧
    (feedAll cache calls').frameCacheBytes = (feedAll cache calls).frameCacheBytes ∧
    List.Forall₂ (Annotated (notesOf calls))
      (window (min maxBytes meEvidenceFrameCacheMaxBytes) (pushesOf calls)).2
      (feedAll cache calls).frames := by
  intro cache
  have hopen := fed_opened directory maxBytes retentionS records files
  have h := fed_feedAll hopen calls hlen hc
  have h' := fed_feedAll hopen calls' (by rwa [hnotes]) (by rwa [hnotes])
  refine ⟨?_, ?_, ?_⟩
  · rw [h.frames, h'.frames, hnotes, hpushes]
  · rw [h.bytes, h'.bytes, hpushes]
  · rw [h.frames, List.forall₂_map_right_iff]
    exact List.forall₂_same.mpr fun p _ => annotate_spec hc p

/-! Three frames, of which the window holds two, each before or after its note. -/

theorem noteChannel_nonul : (0 : UInt8) ∉ [0x63] := by decide

def noteAt (pts : ℕ) : FrameNote :=
  ⟨⟨[0x63], noteChannel_nonul⟩, 7, pts / 10, true, pts, ⟨1, 1000⟩, 640, 360⟩

def pushAt (pts : ℕ) : Push := ⟨[0xFF, 0xD8, 0x11, 0xFF, 0xD9], true, pts⟩

def notesFirst : List Arrival :=
  [.note (noteAt 200), .note (noteAt 240), .note (noteAt 280), .push (pushAt 200),
    .push (pushAt 240), .push (pushAt 280), .push (pushAt 320)]

def framesFirst : List Arrival :=
  [.push (pushAt 200), .push (pushAt 240), .push (pushAt 280), .note (noteAt 200),
    .note (noteAt 240), .push (pushAt 320), .note (noteAt 280)]

theorem consistent_notesFirst : Consistent (notesOf notesFirst) := by
  have hpts : ∀ m ∈ notesOf notesFirst, ∀ n ∈ notesOf notesFirst,
      m.sourcePts = n.sourcePts → m = n := by decide +kernel
  exact fun m hm n hn _ _ he => hpts m hm n hn he

theorem interleavings_agree_demo :
    ((feedAll (opened [] 12 60 [] []) framesFirst).frames.map fun f =>
      (f.note.sourcePts, f.note.frameId)) = [(280, 28), (320, 0)] ∧
    (feedAll (opened [] 12 60 [] []) framesFirst).frames =
      (feedAll (opened [] 12 60 [] []) notesFirst).frames ∧
    List.Forall₂ (Annotated (notesOf notesFirst))
      (window (min 12 meEvidenceFrameCacheMaxBytes) (pushesOf notesFirst)).2
      (feedAll (opened [] 12 60 [] []) notesFirst).frames := by
  obtain ⟨hframes, -, hnoted⟩ := @interleavings_agree [] 12 60 [] [] notesFirst framesFirst
    (by decide) consistent_notesFirst rfl rfl
  exact ⟨by decide +kernel, hframes, hnoted⟩

end FlowAlarm.Evidence
