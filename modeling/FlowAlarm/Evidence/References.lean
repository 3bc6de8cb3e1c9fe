import FlowAlarm.Engine.Emitted
import FlowAlarm.Evidence.Captures
import FlowAlarm.Evidence.HandOver
import FlowAlarm.Journal.EventJournal
import FlowAlarm.Trace.Throughout

/-!
# References to evidence

The engine with its event engine, evidence cache and event journal. An emitted
event is handed to `engine_analytics_event`, which gives it the id of its
evidence whether or not there is any, and appends it.

* `references_iff`: exactly when no appended event refers to evidence that is not published.
* `dangling_start`: a START whose frame was never encoded refers to nothing.
-/

namespace FlowAlarm.Evidence

open FlowAlarm.Text FlowAlarm.Engine FlowAlarm.Journal FlowAlarm.Trace

/-! ## The engine -/

/-- `handed` are the emitted events whose delivery is to come. -/
structure Engine where
  analytics : MeEventEngine
  evidenceMode : CStr
  evidenceCache : Option MeEvidenceCache
  eventJournal : Option MeEventJournal
  disk : Bytes
  handed : List MeAnalyticsEvent

def exactEvidence (mode : CStr) : Bool := strcasecmpEq mode.bytes (ascii "exact_evidence")

variable (sha : Sha256)

/-- What `me_evidence_cache_open` finds at `snapshot_dir`. -/
structure SnapshotDir where
  path : Bytes
  files : List (Bytes × Bytes)
  readable : Bytes → Bool
  cleaned : Bool
  now : ℤ

/-- `engine_init` with `gst_runner_new`. -/
def engineInit (analytics : MeAnalyticsConfig) (snapshotDir : SnapshotDir) (eventLog : Bytes) :
    Except Bytes Engine :=
  match meEventEngineInit (some analytics) 1 with
  | .error err => .error err
  | .ok e =>
    let (journal, disk) :=
      if analytics.enabled then
        meEventJournalOpen eventLog analytics.eventLogMaxRecords analytics.eventLogMaxBytes
      else (none, eventLog)
    let cache :=
      if analytics.enabled && exactEvidence analytics.evidenceMode then
        meEvidenceCacheOpen sha snapshotDir.path analytics.evidenceMaxBytes
          analytics.evidenceRetentionS snapshotDir.files snapshotDir.readable snapshotDir.cleaned
          snapshotDir.now
      else none
    .ok ⟨e, analytics.evidenceMode, cache, journal, disk, []⟩

/-- Calls of other threads. -/
inductive CacheCall where
  | pushJpeg (jpeg : Bytes) (sourcePtsValid : Bool) (sourcePts : ℤ)
  | prune (now : ℤ)

def CacheCall.apply (cache : MeEvidenceCache) : CacheCall → MeEvidenceCache
  | .pushJpeg jpeg valid pts => (meEvidenceCachePushJpeg cache jpeg valid pts).2
  | .prune now => pruneExpiredLocked cache now

/-- The note of an observation. -/
def noteOf (o : MeNormalizedObservation) : FrameNote :=
  ⟨o.channelId, o.streamEpoch, o.frameId, o.sourcePtsValid, o.sourcePts, o.sourceTimebase,
    o.frameWidth, o.frameHeight⟩

/-- The cache and the event after `gst_runner_capture_evidence`, in exact evidence mode. -/
def captureEvidence (e : Engine) (event : MeAnalyticsEvent) (now : ℤ) (writes : Writes) :
    Option MeEvidenceCache × MeAnalyticsEvent :=
  if exactEvidence e.evidenceMode then
    match e.evidenceCache with
    | none => (none, event)
    | some cache =>
      let c := meEvidenceCacheCapture sha cache event now writes
      (some c.cache, c.event)
  else (e.evidenceCache, event)

/-- `engine_analytics_event`: the event it appends, if any, and the engine at that moment.
`meanwhile` is what other threads do to the cache between the capture and the append. -/
def engineAnalyticsEvent (e : Engine) (event : MeAnalyticsEvent) (now : ℤ) (writes : Writes)
    (meanwhile : List CacheCall) : Option MeAnalyticsEvent × Engine :=
  match e.eventJournal with
  | none => (none, e)
  | some journal =>
    let (cache, event) := captureEvidence sha e event now writes
    let cache := cache.map (meanwhile.foldl CacheCall.apply)
    match meEventJournalAppend journal e.disk event with
    | (.ok _, journal, disk) =>
      (some event, { e with evidenceCache := cache, eventJournal := some journal, disk := disk })
    | (_, journal, disk) =>
      (none, { e with evidenceCache := cache, eventJournal := some journal, disk := disk })

inductive EngineInput where
  | observation (o : MeNormalizedObservation)
  | close (reason : MeEventReason)
  | cache (call : CacheCall)
  | runnerFree
  | deliver (now : ℤ) (writes : Writes) (meanwhile : List CacheCall)

def Engine.emit (e : Engine) (r : Outcome) : Engine :=
  { e with analytics := r.engine, handed := e.handed ++ r.emitted }

/-- `runnerFree` is the part of `engine_deinit` that closes the cache. -/
def engineStep (e : Engine) : EngineInput → Engine
  | .observation o =>
    { e with evidenceCache := e.evidenceCache.map fun cache =>
        (meEvidenceCacheNoteFrame cache (noteOf o)).2 }.emit (meEventEngineProcess e.analytics (some o))
  | .close reason => e.emit (meEventEngineClose e.analytics reason)
  | .cache call => { e with evidenceCache := e.evidenceCache.map call.apply }
  | .runnerFree => { e with evidenceCache := none }
  | .deliver now writes meanwhile =>
    match e.handed with
    | [] => e
    | event :: rest =>
      (engineAnalyticsEvent sha { e with handed := rest } event now writes meanwhile).2

/-! ## The property and its condition -/

/-- A record with its metadata and its complete JPEG. -/
def PublishedUnder (cache : Option MeEvidenceCache) (id : Bytes) : Prop :=
  ∃ c, cache = some c ∧ ∃ r, Keyed.lookup recordId id c.records = some r ∧ Complete sha c.files r

/-- If the step appends an event that names evidence, that evidence is published. -/
def Refers (e : Engine) : EngineInput → Prop
  | .deliver now writes meanwhile =>
    match e.handed with
    | [] => True
    | event :: rest =>
      let (appended, after) :=
        engineAnalyticsEvent sha { e with handed := rest } event now writes meanwhile
      ∀ x, appended = some x → x.evidenceId.bytes ≠ [] →
        PublishedUnder sha after.evidenceCache x.evidenceId.bytes
  | _ => True

/-- No call prunes what expires then. -/
def Outlives (expiresAtUs : ℤ) (calls : List CacheCall) : Prop :=
  ∀ now, .prune now ∈ calls → ¬ (0 < expiresAtUs ∧ expiresAtUs ≤ now)

/-- The record is there or can be published, and does not expire before the append. -/
def Available (cache : MeEvidenceCache) (event : MeAnalyticsEvent) (now : ℤ) (writes : Writes)
    (meanwhile : List CacheCall) : Prop :=
  match Keyed.lookup recordId (evidenceIdOf sha event).bytes cache.records with
  | some r => Outlives r.expiresAtUs meanwhile
  | none => Publishable cache (referring sha event) now writes ∧
      Outlives (expiresAt cache.retentionS now) meanwhile

/-- The journal takes the record. -/
def Takes (journal : MeEventJournal) (disk : Bytes) (event : MeAnalyticsEvent) : Prop :=
  ∃ cursor, (meEventJournalAppend journal disk event).1 = .ok cursor

/-- An event the journal takes from an engine with a cache has its evidence `Available`. -/
def Referable (e : Engine) : EngineInput → Prop
  | .deliver now writes meanwhile =>
    ∀ event, e.handed.head? = some event → ∀ cache, e.evidenceCache = some cache →
      ∀ journal, e.eventJournal = some journal → Takes journal e.disk (referring sha event) →
        Available sha cache event now writes meanwhile
  | _ => True

/-! ## Deciding the condition -/

instance decidablePublishable (cache : MeEvidenceCache) (event : MeAnalyticsEvent) (now : ℤ)
    (writes : Writes) : Decidable (Publishable cache event now writes) :=
  match h : selectFrameLocked cache event with
  | none => .isFalse fun hp => by
      obtain ⟨-, sel, hsel, -⟩ := hp
      rw [h] at hsel
      cases hsel
  | some sel =>
    decidable_of_iff (event.phase = .start ∧ sel.frame.jpeg.length ≤ cache.maxBytes ∧
      (pruneExpiredLocked cache now).storedBytes + sel.frame.jpeg.length ≤ cache.maxBytes ∧
      writes.jpeg = none ∧ writes.metadata = none) <| by
      constructor
      · exact fun hp => ⟨hp.1, sel, h, hp.2⟩
      · rintro ⟨hphase, sel', hsel, hfit⟩
        rw [h] at hsel
        cases hsel
        exact ⟨hphase, hfit⟩

def CacheCall.keeps (expiresAtUs : ℤ) : CacheCall → Bool
  | .pushJpeg _ _ _ => true
  | .prune now => decide (¬ (0 < expiresAtUs ∧ expiresAtUs ≤ now))

instance decidableOutlives (expiresAtUs : ℤ) (calls : List CacheCall) :
    Decidable (Outlives expiresAtUs calls) :=
  decidable_of_iff (∀ call ∈ calls, call.keeps expiresAtUs = true) <| by
    constructor
    · exact fun h now hn => of_decide_eq_true (h _ hn)
    · intro h call hc
      cases call with
      | pushJpeg => rfl
      | prune now => exact decide_eq_true (h now hc)

instance decidableAvailable (cache : MeEvidenceCache) (event : MeAnalyticsEvent) (now : ℤ)
    (writes : Writes) (meanwhile : List CacheCall) :
    Decidable (Available sha cache event now writes meanwhile) := by
  unfold Available
  split <;> infer_instance

instance decidableTakes (journal : MeEventJournal) (disk : Bytes) (event : MeAnalyticsEvent) :
    Decidable (Takes journal disk event) :=
  match h : (meEventJournalAppend journal disk event).1 with
  | .ok cursor => .isTrue ⟨cursor, h⟩
  | .dropped => .isFalse fun ⟨cursor, hc⟩ => by rw [h] at hc; cases hc
  | .failed err => .isFalse fun ⟨cursor, hc⟩ => by rw [h] at hc; cases hc

instance decidableReferable (e : Engine) (input : EngineInput) :
    Decidable (Referable sha e input) :=
  match input with
  | .deliver now writes meanwhile =>
    match h : e.handed.head?, hc : e.evidenceCache, hj : e.eventJournal with
    | some event, some cache, some journal =>
      decidable_of_iff (Takes journal e.disk (referring sha event) →
        Available sha cache event now writes meanwhile) <| by
          simp [Referable, h, hc, hj]
    | none, _, _ => .isTrue (by simp [Referable, h])
    | some _, none, _ => .isTrue (by simp [Referable, hc])
    | some _, some _, none => .isTrue (by simp [Referable, hj])
  | .observation _ | .close _ | .cache _ | .runnerFree => .isTrue trivial

/-! ## Between the capture and the append -/

variable {sha}

theorem stored_cacheCall {cache : MeEvidenceCache} (h : Stored sha cache) (call : CacheCall) :
    Stored sha (call.apply cache) := by
  cases call with
  | pushJpeg jpeg valid pts =>
    refine h.same ?_ ?_
    all_goals
      rw [CacheCall.apply, meEvidenceCachePushJpeg]
      split <;> rfl
  | prune now => exact stored_prune h now

theorem stored_cacheCalls (calls : List CacheCall) : ∀ {cache : MeEvidenceCache},
    Stored sha cache → Stored sha (calls.foldl CacheCall.apply cache) := by
  induction calls with
  | nil => exact fun h => h
  | cons call calls ih => exact fun h => ih (stored_cacheCall h call)

theorem stored_noteFrame {cache : MeEvidenceCache} (h : Stored sha cache) (note : FrameNote) :
    Stored sha (meEvidenceCacheNoteFrame cache note).2 := by
  refine h.same ?_ ?_
  all_goals
    rw [meEvidenceCacheNoteFrame]
    split <;> rfl

theorem outlives_nil (expiresAtUs : ℤ) : Outlives expiresAtUs [] := fun _ h => nomatch h

theorem outlives_cons {expiresAtUs : ℤ} {call : CacheCall} {calls : List CacheCall} :
    Outlives expiresAtUs (call :: calls) ↔
      Outlives expiresAtUs [call] ∧ Outlives expiresAtUs calls := by
  simp only [Outlives, List.mem_cons, List.not_mem_nil, or_false]
  exact ⟨fun h => ⟨fun now hn => h now (.inl hn), fun now hn => h now (.inr hn)⟩,
    fun h now hn => hn.elim (h.1 now) (h.2 now)⟩

/-- A call keeps the record of an id exactly if it does not expire then. -/
theorem lookup_cacheCall {cache : MeEvidenceCache} (h : Stored sha cache) (call : CacheCall)
    {id : Bytes} {r : MeEvidenceRecord} (hr : Keyed.lookup recordId id cache.records = some r) :
    (Outlives r.expiresAtUs [call] →
      Keyed.lookup recordId id (call.apply cache).records = some r) ∧
    (¬ Outlives r.expiresAtUs [call] →
      Keyed.lookup recordId id (call.apply cache).records = none) := by
  cases call with
  | pushJpeg jpeg valid pts =>
    have hrecords : (CacheCall.apply cache (.pushJpeg jpeg valid pts)).records = cache.records := by
      rw [CacheCall.apply, meEvidenceCachePushJpeg]
      split <;> rfl
    have houtlives : Outlives r.expiresAtUs [.pushJpeg jpeg valid pts] := fun now hn => by
      simp at hn
    rw [hrecords]
    exact ⟨fun _ => hr, fun hn => absurd houtlives hn⟩
  | prune now =>
    have houtlives : Outlives r.expiresAtUs [.prune now] ↔ expired now r = false := by
      simp [Outlives, expired]
    have hpruned : Keyed.lookup recordId id (CacheCall.apply cache (.prune now)).records =
        (some r).filter fun r => !expired now r := by
      rw [← hr]
      exact lookup_prune h.unique id now
    rw [hpruned, Option.filter_some, houtlives]
    constructor
    · intro he
      rw [he]
      rfl
    · intro he
      rw [Bool.not_eq_false _ |>.mp he]
      rfl

theorem lookup_cacheCalls_none {id : Bytes} (calls : List CacheCall) :
    ∀ {cache : MeEvidenceCache}, Stored sha cache →
      Keyed.lookup recordId id cache.records = none →
      Keyed.lookup recordId id (calls.foldl CacheCall.apply cache).records = none := by
  induction calls with
  | nil => exact fun _ h => h
  | cons call calls ih =>
    intro cache h hnone
    refine ih (stored_cacheCall h call) ?_
    cases call with
    | pushJpeg jpeg valid pts =>
      rw [CacheCall.apply, meEvidenceCachePushJpeg]
      split <;> exact hnone
    | prune now =>
      rw [CacheCall.apply, lookup_prune h.unique, hnone]
      rfl

/-- **The record of an id after the calls of other threads.** -/
theorem lookup_cacheCalls {id : Bytes} (calls : List CacheCall) : ∀ {cache : MeEvidenceCache},
    Stored sha cache →
      ((∃ r, Keyed.lookup recordId id (calls.foldl CacheCall.apply cache).records = some r) ↔
        ∃ r, Keyed.lookup recordId id cache.records = some r ∧ Outlives r.expiresAtUs calls) := by
  induction calls with
  | nil =>
    intro cache _
    exact exists_congr fun r => (and_iff_left (outlives_nil r.expiresAtUs)).symm
  | cons call calls ih =>
    intro cache h
    rw [List.foldl_cons, ih (stored_cacheCall h call)]
    cases hr : Keyed.lookup recordId id cache.records with
    | none =>
      have hnone : Keyed.lookup recordId id (call.apply cache).records = none :=
        lookup_cacheCalls_none [call] h hr
      rw [hnone]
      constructor
      · rintro ⟨r, he, -⟩
        cases he
      · rintro ⟨r, he, -⟩
        cases he
    | some r =>
      obtain ⟨hkept, hgone⟩ := lookup_cacheCall h call hr
      by_cases hout : Outlives r.expiresAtUs [call]
      · rw [hkept hout]
        refine exists_congr fun r' => and_congr_right fun he => ?_
        rw [outlives_cons, ← Option.some.inj he, and_iff_right hout]
      · rw [hgone hout]
        constructor
        · rintro ⟨r', he, -⟩
          cases he
        · rintro ⟨r', he, hall⟩
          rw [← Option.some.inj he, outlives_cons] at hall
          exact absurd hall.1 hout

/-! ## The invariant of the engine -/

/-- Nothing is asked of the inputs. -/
def anySource : Source := ⟨fun _ => True, fun _ => True, fun _ => True, fun _ _ _ _ => trivial⟩

variable (sha) in
structure EngineInv (e : Engine) : Prop where
  mode : exactEvidence e.evidenceMode = true
  wf : Wf e.analytics
  sourced : Sourced anySource e.analytics
  handed : ∀ x ∈ e.handed, Reported anySource x
  stored : ∀ c, e.evidenceCache = some c → Stored sha c

theorem named_of_reported {S : Source} {x : MeAnalyticsEvent} (h : Reported S x) : Named x := by
  obtain ⟨o, -, ho, hcontext⟩ := h.context
  have hid := h.genuine.eventId
  have hchannel := ho.channel
  simp only [CStr.bounded, Bool.and_eq_true, bne_iff_ne] at hid hchannel
  exact ⟨hid.2, by rw [hcontext.channel]; exact hchannel.2,
    by rw [hcontext.epoch]; exact ho.epoch_pos.ne', h.genuine.evidence⟩

theorem emit_inv {e : Engine} (h : EngineInv sha e) (c : Call) :
    EngineInv sha (e.emit (c.apply e.analytics)) := by
  have hgiven : c.Given anySource := by
    cases c with
    | process o => cases o <;> trivial
    | close reason => trivial
    | reconfigure config version => exact fun _ _ _ _ => trivial
  have hmakes := Call.apply_makes h.wf h.sourced hgiven
  refine ⟨h.mode, (Call.apply_good h.wf c).wf, hmakes.sourced, fun x hx => ?_, h.stored⟩
  rcases List.mem_append.mp hx with hx | hx
  · exact h.handed x hx
  · exact hmakes.reported x hx

theorem stored_map {cache : Option MeEvidenceCache} (h : ∀ c, cache = some c → Stored sha c)
    {f : MeEvidenceCache → MeEvidenceCache} (hf : ∀ c, Stored sha c → Stored sha (f c)) :
    ∀ c, cache.map f = some c → Stored sha c := by
  intro c hc
  obtain ⟨c', hc', rfl⟩ := Option.map_eq_some_iff.mp hc
  exact hf c' (h c' hc')

theorem stored_captureEvidence {e : Engine} (h : EngineInv sha e) {event : MeAnalyticsEvent}
    (hevent : Named event) (now : ℤ) (writes : Writes) :
    ∀ c, (captureEvidence sha e event now writes).1 = some c → Stored sha c := by
  intro c hc
  rw [captureEvidence, if_pos h.mode] at hc
  cases hcache : e.evidenceCache with
  | none =>
    rw [hcache] at hc
    cases hc
  | some cache =>
    rw [hcache] at hc
    cases hc
    exact stored_capture hevent (h.stored cache hcache) now writes

/-- What the delivery of an event does to the engine. -/
theorem engineAnalyticsEvent_cases (e : Engine) (event : MeAnalyticsEvent) (now : ℤ)
    (writes : Writes) (meanwhile : List CacheCall) :
    (e.eventJournal = none ∧ engineAnalyticsEvent sha e event now writes meanwhile = (none, e)) ∨
    ∃ journal journal' disk' appended, e.eventJournal = some journal ∧
      engineAnalyticsEvent sha e event now writes meanwhile = (appended,
        { e with
          evidenceCache := (captureEvidence sha e event now writes).1.map
            (meanwhile.foldl CacheCall.apply)
          eventJournal := some journal'
          disk := disk' }) ∧
      (Takes journal e.disk (captureEvidence sha e event now writes).2 →
        appended = some (captureEvidence sha e event now writes).2) ∧
      (¬ Takes journal e.disk (captureEvidence sha e event now writes).2 → appended = none) := by
  cases hj : e.eventJournal with
  | none =>
    refine .inl ⟨rfl, ?_⟩
    rw [engineAnalyticsEvent, hj]
  | some journal =>
    refine .inr ?_
    unfold engineAnalyticsEvent
    rw [hj]
    dsimp only
    split
    next cursor journal' disk' happend =>
      exact ⟨journal, journal', disk', _, rfl, rfl, fun _ => rfl,
        fun hn => absurd ⟨cursor, congrArg Prod.fst happend⟩ hn⟩
    next journal' disk' hrefused happend =>
      refine ⟨journal, journal', disk', _, rfl, rfl, ?_, fun _ => rfl⟩
      rintro ⟨cursor, hcursor⟩
      rw [happend] at hcursor
      exact absurd hcursor (hrefused cursor)

theorem engineInv_step {e : Engine} (h : EngineInv sha e) (input : EngineInput) :
    EngineInv sha (engineStep sha e input) := by
  cases input with
  | observation o =>
    have hnoted : EngineInv sha { e with evidenceCache := e.evidenceCache.map fun cache =>
        (meEvidenceCacheNoteFrame cache (noteOf o)).2 } :=
      ⟨h.mode, h.wf, h.sourced, h.handed, stored_map h.stored fun _ hc => stored_noteFrame hc _⟩
    exact emit_inv hnoted (.process (some o))
  | close reason => exact emit_inv h (.close reason)
  | cache call =>
    exact ⟨h.mode, h.wf, h.sourced, h.handed,
      stored_map h.stored fun _ hc => stored_cacheCall hc call⟩
  | runnerFree => exact ⟨h.mode, h.wf, h.sourced, h.handed, fun _ hc => nomatch hc⟩
  | deliver now writes meanwhile =>
    unfold engineStep
    dsimp only
    split
    · exact h
    next event rest hhanded =>
    have hevent : Named event := named_of_reported (h.handed event (by rw [hhanded]; simp))
    have hrest : EngineInv sha { e with handed := rest } :=
      ⟨h.mode, h.wf, h.sourced, fun x hx => h.handed x (by rw [hhanded]; simp [hx]), h.stored⟩
    rcases engineAnalyticsEvent_cases { e with handed := rest } event now writes meanwhile with
      ⟨-, heq⟩ | ⟨journal, journal', disk', appended, -, heq, -, -⟩
    · rw [heq]
      exact hrest
    · rw [heq]
      exact ⟨h.mode, h.wf, h.sourced, hrest.handed,
        stored_map (stored_captureEvidence hrest hevent now writes)
          fun _ hc => stored_cacheCalls meanwhile hc⟩

theorem engineInv_init {config : MeAnalyticsConfig} {snapshotDir : SnapshotDir} {eventLog : Bytes}
    {e : Engine} (h : engineInit sha config snapshotDir eventLog = .ok e)
    (hmode : exactEvidence config.evidenceMode = true) : EngineInv sha e := by
  unfold engineInit at h
  split at h
  · cases h
  next analytics hinit =>
  cases h
  refine ⟨hmode, (meEventEngineInit_wf hinit).1, sourced_init hinit trivial,
    fun x hx => absurd hx List.not_mem_nil, fun c hc => ?_⟩
  dsimp only at hc
  split at hc
  · exact stored_open hc
  · cases hc

/-! ## When no reference dangles -/

/-- **One delivery**: the record is published at the append exactly if it is `Available`. -/
theorem published_iff {cache : MeEvidenceCache} (h : Stored sha cache) {event : MeAnalyticsEvent}
    (hevent : Named event) (now : ℤ) (writes : Writes) (meanwhile : List CacheCall) :
    PublishedUnder sha (some (meanwhile.foldl CacheCall.apply
        (meEvidenceCacheCapture sha cache event now writes).cache))
      (evidenceIdOf sha event).bytes ↔ Available sha cache event now writes meanwhile := by
  have hcaptured := stored_capture hevent h now writes
  have hcomplete : ∀ {c : MeEvidenceCache}, Stored sha c →
      (PublishedUnder sha (some c) (evidenceIdOf sha event).bytes ↔
        ∃ r, Keyed.lookup recordId (evidenceIdOf sha event).bytes c.records = some r) := by
    intro c hc
    constructor
    · rintro ⟨c', hc', r, hr, -⟩
      obtain rfl := Option.some.inj hc'
      exact ⟨r, hr⟩
    · rintro ⟨r, hr⟩
      refine ⟨c, rfl, r, hr, hc.complete r (Keyed.lookup_mem hr) ?_⟩
      rw [Keyed.lookup_key hr]
      exact hevent.ownId
  rw [hcomplete (stored_cacheCalls meanwhile hcaptured), lookup_cacheCalls meanwhile hcaptured,
    Available]
  cases hr : Keyed.lookup recordId (evidenceIdOf sha event).bytes cache.records with
  | some r =>
    rw [capture_known hevent now writes hr, hr]
    simp
  | none =>
    simp only [capture_new hevent h hr]
    constructor
    · rintro ⟨_, ⟨hpub, sel, -, rfl⟩, hout⟩
      exact ⟨hpub, hout⟩
    · rintro ⟨hpub, hout⟩
      obtain ⟨-, sel, hsel, -⟩ := id hpub
      exact ⟨_, ⟨hpub, sel, hsel, rfl⟩, hout⟩

/-- One delivery by an engine. -/
theorem delivered_iff {e : Engine} (h : EngineInv sha e) {event : MeAnalyticsEvent}
    (hevent : Named event) (now : ℤ) (writes : Writes) (meanwhile : List CacheCall) :
    (∀ x, (engineAnalyticsEvent sha e event now writes meanwhile).1 = some x →
      x.evidenceId.bytes ≠ [] →
        PublishedUnder sha (engineAnalyticsEvent sha e event now writes meanwhile).2.evidenceCache
          x.evidenceId.bytes) ↔
    ∀ cache, e.evidenceCache = some cache → ∀ journal, e.eventJournal = some journal →
      Takes journal e.disk (referring sha event) →
        Available sha cache event now writes meanwhile := by
  rcases @engineAnalyticsEvent_cases sha e event now writes meanwhile with
    ⟨hnone, heq⟩ | ⟨journal, journal', disk', appended, hjournal, heq, htaken, hrefused⟩
  · rw [heq, hnone]
    constructor
    · rintro - _ _ _ hj
      cases hj
    · rintro - x hx
      cases hx
  rw [heq]
  cases hcache : e.evidenceCache with
  | none =>
    -- without a cache the event keeps its empty id
    have hcapture : captureEvidence sha e event now writes = (none, event) := by
      rw [captureEvidence, if_pos h.mode, hcache]
    rw [hcapture] at htaken hrefused
    constructor
    · rintro - _ hc
      cases hc
    · intro _ x hx hne
      have hx : appended = some x := hx
      by_cases ht : Takes journal e.disk event
      · rw [htaken ht] at hx
        cases hx
        rw [hevent.evidence] at hne
        exact absurd rfl hne
      · rw [hrefused ht] at hx
        cases hx
  | some cache =>
    have hcapture : captureEvidence sha e event now writes =
        (some (meEvidenceCacheCapture sha cache event now writes).cache, referring sha event) := by
      rw [captureEvidence, if_pos h.mode, hcache]
      exact Prod.ext rfl (capture_event hevent now writes)
    rw [hcapture] at htaken hrefused
    rw [hcapture]
    have hpublished := published_iff (h.stored cache hcache) hevent now writes meanwhile
    have hnonempty : (referring sha event).evidenceId.bytes ≠ [] := by
      obtain ⟨s, hs⟩ := @Named.ownId sha event hevent
      show (evidenceIdOf sha event).bytes ≠ []
      rw [hs]
      exact List.append_ne_nil_of_left_ne_nil (by decide) _
    by_cases ht : Takes journal e.disk (referring sha event)
    · rw [htaken ht]
      constructor
      · intro hall c hc _ _ _
        obtain rfl := Option.some.inj hc
        exact hpublished.mp (hall _ rfl hnonempty)
      · intro hall x hx _
        obtain rfl := Option.some.inj hx
        exact hpublished.mpr (hall cache rfl journal hjournal ht)
    · rw [hrefused ht]
      constructor
      · intro _ _ _ j hj htakes
        rw [hjournal] at hj
        obtain rfl := Option.some.inj hj
        exact absurd htakes ht
      · rintro - x hx
        cases hx

theorem refers_iff {e : Engine} (h : EngineInv sha e) (input : EngineInput) :
    Refers sha e input ↔ Referable sha e input := by
  cases input with
  | observation | close | cache | runnerFree => exact Iff.rfl
  | deliver now writes meanwhile =>
    unfold Refers Referable
    dsimp only
    split
    next hhanded => simp [hhanded]
    next event rest hhanded =>
    have hevent : Named event := named_of_reported (h.handed event (by rw [hhanded]; simp))
    have hrest : EngineInv sha { e with handed := rest } :=
      ⟨h.mode, h.wf, h.sourced, fun x hx => h.handed x (by rw [hhanded]; simp [hx]), h.stored⟩
    rw [hhanded, delivered_iff hrest hevent]
    simp

/-- **References to evidence.** In exact evidence mode, over every run of an engine: every event it
appends with an evidence id refers to a record published at that moment, if and only if every
event the journal takes has its evidence available at its delivery. -/
theorem references_iff {config : MeAnalyticsConfig} {snapshotDir : SnapshotDir} {eventLog : Bytes}
    {e : Engine} (h : engineInit sha config snapshotDir eventLog = .ok e)
    (hmode : exactEvidence config.evidenceMode = true) (inputs : List EngineInput) :
    Throughout (engineStep sha) (Refers sha) e inputs ↔
      Throughout (engineStep sha) (Referable sha) e inputs := by
  have hstep : ∀ s i, EngineInv sha s → EngineInv sha (engineStep sha s i) :=
    fun _ i hs => engineInv_step hs i
  have hiff : ∀ s i, EngineInv sha s → True → (Refers sha s i ↔ Referable sha s i) :=
    fun _ i hs _ => refers_iff hs i
  have hnone : Throughout (engineStep sha) (fun _ _ => True) e inputs :=
    throughout_of_inv hstep (fun _ _ _ => trivial) (engineInv_init h hmode) inputs
  exact throughout_congr (fun s i hs _ => hstep s i hs) hiff (engineInv_init h hmode) hnone

/-! ## Two starts -/

def evidenceConfig : MeAnalyticsConfig :=
  { demoConfig with evidenceMode := .ofBytes (ascii "exact_evidence") (by decide) }

def emptyDir : SnapshotDir := ⟨ascii "/data/snapshots", [], fun _ => true, true, 0⟩

/-- The observation of the frame in `demoJpeg`. -/
def seenObservation : MeNormalizedObservation :=
  { demoObservation 1 1 with sourcePtsValid := true, sourcePts := 40000000 }

def startOf (config : MeAnalyticsConfig) : Engine :=
  { analytics := { config := config, configVersion := 1 }
    evidenceMode := config.evidenceMode
    evidenceCache := some (opened (ascii "/data/snapshots") config.evidenceMaxBytes
      config.evidenceRetentionS [] [])
    eventJournal := (meEventJournalOpen [] config.eventLogMaxRecords config.eventLogMaxBytes).1
    disk := []
    handed := [] }

theorem references_demo :
    engineInit demoSha evidenceConfig emptyDir [] = .ok (startOf evidenceConfig) ∧
    exactEvidence evidenceConfig.evidenceMode = true ∧
    Throughout (engineStep demoSha) (Refers demoSha) (startOf evidenceConfig)
      [.cache (.pushJpeg demoJpeg true 40000000), .observation seenObservation,
        .deliver 1700000000000000 ⟨none, none⟩ [.prune 1700000001000000]] :=
  ⟨rfl, by decide, (@references_iff demoSha evidenceConfig emptyDir [] _ rfl (by decide) _).mpr
    (by decide +kernel)⟩

/-- Whether a delivery appends an event whose id no record has. -/
def danglesAt (e : Engine) (now : ℤ) (writes : Writes) : Bool :=
  match e.handed with
  | [] => false
  | event :: rest =>
    match engineAnalyticsEvent demoSha { e with handed := rest } event now writes [] with
    | (none, _) => false
    | (some x, after) => x.evidenceId.bytes != [] &&
        after.evidenceCache.all fun c => (Keyed.lookup recordId x.evidenceId.bytes c.records).isNone

theorem not_refers {e : Engine} {now : ℤ} {writes : Writes} (h : danglesAt e now writes = true) :
    ¬ Refers demoSha e (.deliver now writes []) := by
  unfold danglesAt at h
  unfold Refers
  dsimp only
  split at h
  · cases h
  next event rest hhanded =>
  split at h
  · cases h
  next x after happend =>
  rw [happend]
  simp only [Bool.and_eq_true, bne_iff_ne] at h
  intro hrefers
  obtain ⟨c, hc, r, hr, -⟩ := hrefers x rfl h.1
  have hnone := h.2
  rw [hc, Option.all_some, hr] at hnone
  cases hnone

/-- **A dangling reference**: the frame of a START was never encoded, and the event is appended with
the id of evidence that does not exist. -/
theorem dangling_start :
    engineInit demoSha evidenceConfig emptyDir [] = .ok (startOf evidenceConfig) ∧
    exactEvidence evidenceConfig.evidenceMode = true ∧
    ¬ Throughout (engineStep demoSha) (Refers demoSha) (startOf evidenceConfig)
      [.observation seenObservation, .deliver 1700000000000000 ⟨none, none⟩ []] :=
  ⟨rfl, by decide, fun h => not_refers (by decide +kernel) h.2.1⟩

end FlowAlarm.Evidence
