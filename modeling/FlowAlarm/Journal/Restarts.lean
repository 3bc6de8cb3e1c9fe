import FlowAlarm.Codec.SessionRecords
import FlowAlarm.Journal.Cursors

/-!
# Lifecycles over media engine lifetimes

`engine.c` keeps one event engine and one journal per lifetime; the file
outlives both. A lifetime runs a fresh engine over its observations and appends
what it emits; it ends in `engine_deinit`, or in a crash before, between or
inside the file steps. `lifetimes_pair_iff` says when the START and END records
of a file with room for all of them still alternate: no lifetime may add a
record to a file whose last START has no END.
-/

namespace FlowAlarm.Journal

open FlowAlarm.Text FlowAlarm.Trace FlowAlarm.CJson FlowAlarm.Engine FlowAlarm.Codec

/-! ## Lifetimes of the engine -/

inductive Ending where
  | deinit
  /-- A crash after `written` appends, inside the next one if there is one. -/
  | crash (written : ℕ) (cut : AppendCut)
  | crashOpen (cut : OpenCut)

structure EngineLifetime where
  config : MeAnalyticsConfig
  observations : List MeNormalizedObservation
  /-- What evidence capture writes into the `i`-th record. -/
  evidence : ℕ → CStr
  ending : Ending

namespace EngineLifetime

/-- `engine_deinit` closes the last lifecycle before it clears the engine. -/
def calls (l : EngineLifetime) : List Call :=
  l.observations.map (fun o => .process (some o)) ++ [.close .processRestart]

/-- The events handed to the journal by a lifetime that is not interrupted. -/
def events (l : EngineLifetime) : List MeAnalyticsEvent :=
  match meEventEngineInit (some l.config) 1 with
  | .error _ => []
  | .ok e =>
    if l.config.enabled then
      (records (session e l.calls true).2).mapIdx fun i r => withEvidence r (l.evidence i)
    else []

/-- The journal actions of the lifetime; a disabled engine opens no journal. -/
def actions (l : EngineLifetime) : List Action :=
  match meEventEngineInit (some l.config) 1 with
  | .error _ => []
  | .ok _ =>
    if l.config.enabled then
      match l.ending with
      | .deinit =>
        .open l.config.eventLogMaxRecords l.config.eventLogMaxBytes ::
          (l.events.map .append ++ [.close])
      | .crash written cut =>
        .open l.config.eventLogMaxRecords l.config.eventLogMaxBytes ::
          ((l.events.take written).map .append ++
            [match l.events[written]? with
              | none => .crash
              | some event => .crashAppend event cut])
      | .crashOpen cut =>
        [.crashOpen l.config.eventLogMaxRecords l.config.eventLogMaxBytes cut]
    else []

/-- The events whose lines the lifetime completes in the file of `m`. -/
def journaled (l : EngineLifetime) (m : Machine) : List MeAnalyticsEvent :=
  match l.ending with
  | .deinit => l.events
  | .crash written (.torn n) =>
    match l.events[written]? with
    | none => l.events.take written
    | some event =>
      match recordToLine (lastCursor (recover m.disk).1 + written + 1) event with
      | none => l.events.take written
      | some line => if n < line.length then l.events.take written else l.events.take (written + 1)
  | .crash written _ => l.events.take written
  | .crashOpen _ => []

/-- The inputs are within their C types. -/
structure Typed (l : EngineLifetime) : Prop where
  observations : ∀ o ∈ l.observations, Codec.Typed o
  evidence : ∀ i, (l.evidence i).bytes.length < meAnalyticsEvidenceIdMax
  maxRecords : l.config.eventLogMaxRecords < 2 ^ 32

end EngineLifetime

/-! ## Room and resumption -/

/-- The record fits without eviction. -/
def Fits (j : MeEventJournal) (event : MeAnalyticsEvent) : Prop :=
  ∀ line ∈ recordToLine (j.nextCursor + 1) event,
    j.records.length + 1 ≤ j.maxRecords ∧ j.bytes + line.length ≤ j.maxBytes

instance (j : MeEventJournal) (event : MeAnalyticsEvent) : Decidable (Fits j event) :=
  inferInstanceAs (Decidable (∀ line ∈ recordToLine (j.nextCursor + 1) event, _))

/-- The action finds room for every record. -/
def HasRoom (m : Machine) : Action → Prop
  | .open maxRecords maxBytes | .crashOpen maxRecords maxBytes _ =>
    (recover m.disk).1.length ≤ maxRecords ∧ totalBytes (recover m.disk).1 ≤ maxBytes
  | .append event | .crashAppend event _ => ∀ j ∈ m.journal, Fits j event
  | .close | .crash => True

instance (m : Machine) : (a : Action) → Decidable (HasRoom m a)
  | .open _ _ => inferInstanceAs (Decidable (_ ∧ _))
  | .append _ => inferInstanceAs (Decidable (∀ j ∈ m.journal, _))
  | .close => inferInstanceAs (Decidable True)
  | .crash => inferInstanceAs (Decidable True)
  | .crashOpen _ _ _ => inferInstanceAs (Decidable (_ ∧ _))
  | .crashAppend _ _ => inferInstanceAs (Decidable (∀ j ∈ m.journal, _))

def AllRoom (m : Machine) : List Action → Prop
  | [] => True
  | a :: as => HasRoom m a ∧ AllRoom (step m a) as

instance decidableAllRoom : (m : Machine) → (as : List Action) → Decidable (AllRoom m as)
  | _, [] => inferInstanceAs (Decidable True)
  | m, a :: as =>
    have := decidableAllRoom (step m a) as
    inferInstanceAs (Decidable (HasRoom m a ∧ AllRoom (step m a) as))

/-- What pairing reads of a record. -/
def markOf (event : MeAnalyticsEvent) : Option Kind × CStr := (phaseKind event.phase, event.eventId)

def marks (rs : List JournalRecord) : List (Option Kind × CStr) := rs.map (markOf ·.event)

/-- The marks of the records the next `open` finds in the file. -/
def journalMarks (m : Machine) : List (Option Kind × CStr) := marks (recover m.disk).1

/-- The last START or END of the stream is a START. -/
def leftOpen (ms : List (Option Kind × CStr)) : Bool :=
  (ms.filter fun p => p.1 = some .opening ∨ p.1 = some .closing).getLast?.any
    (·.1 = some .opening)

/-- The condition on one lifetime in the state before it. -/
def Resumes (m : Machine) (l : EngineLifetime) : Prop :=
  leftOpen (journalMarks m) = true → l.journaled m = []

instance (m : Machine) (l : EngineLifetime) : Decidable (Resumes m l) :=
  inferInstanceAs (Decidable (_ → l.journaled m = []))

def AllResume (m : Machine) : List EngineLifetime → Prop
  | [] => True
  | l :: ls => Resumes m l ∧ AllResume (run m l.actions) ls

instance decidableAllResume :
    (m : Machine) → (ls : List EngineLifetime) → Decidable (AllResume m ls)
  | _, [] => inferInstanceAs (Decidable True)
  | m, l :: ls =>
    have := decidableAllResume (run m l.actions) ls
    inferInstanceAs (Decidable (Resumes m l ∧ AllResume (run m l.actions) ls))

/-! ## The file between lifetimes -/

/-- The complete lines of the file are those of `rs`, readable and numbered from 1. -/
structure Held (disk : Bytes) (rs : List JournalRecord) : Prop where
  stored : Stored disk rs
  readable : ∀ r ∈ rs, Readable r
  numbered : rs.map (·.cursor) = List.range' 1 rs.length

theorem lastCursor_numbered {rs : List JournalRecord}
    (h : rs.map (·.cursor) = List.range' 1 rs.length) : lastCursor rs = rs.length := by
  rw [lastCursor, ← List.getLast?_map, h]
  cases hn : rs.length with
  | zero => rfl
  | succ n => simp [List.range'_concat, Nat.add_comm]

theorem Reread.mark {r r' : JournalRecord} (hp : Proper r) (h : Reread r r') :
    markOf r'.event = markOf r.event := by
  obtain ⟨c, e, -, -, he, rfl⟩ := (recordFromLine_lineText hp.emittable.printable hp.cursor_lt).mp h
  obtain ⟨epoch, seq, time, pts, frame, version, ids, -, -, -, -, -, -, -, -, -, -, rfl⟩ :=
    (fromJson_eventMembers hp.emittable).mp he
  rfl

theorem marks_reread {rs out : List JournalRecord} (hp : ∀ r ∈ rs, Proper r)
    (h : List.Forall₂ Reread rs out) : marks out = marks rs := by
  induction h with
  | nil => rfl
  | cons hr _ ih =>
    obtain ⟨hp₁, hps⟩ := List.forall_mem_cons.mp hp
    rw [marks, List.map_cons, hr.mark hp₁]
    exact congrArg (_ :: ·) (ih hps)

/-- The next `open` finds every record of the file. -/
theorem Held.recover {disk : Bytes} {rs : List JournalRecord} (h : Held disk rs) :
    ∃ out, recover disk = (out, fileOf out) ∧ Held (fileOf out) out ∧ Recovered rs out ∧
      marks out = marks rs ∧ out.length = rs.length := by
  obtain ⟨out, hrec, hout, hall, hcs⟩ := recover_all h.stored h.readable
  have hlen : out.length = rs.length := hall.length_eq.symm
  exact ⟨out, hrec, ⟨hout.stored, hout.readable h.readable hcs, by rw [hcs, h.numbered, hlen]⟩, hout,
    marks_reread h.stored.proper hall, hlen⟩

theorem held_nil : Held [] [] :=
  ⟨⟨by simp, .nil, [], by simp, rfl⟩, by simp, rfl⟩

/-- An open journal that has evicted nothing. -/
structure Filling (j : MeEventJournal) (disk : Bytes) : Prop where
  mirrors : Mirrors j disk
  readable : ∀ r ∈ j.records, Readable r
  numbered : j.records.map (·.cursor) = List.range' 1 j.records.length
  next : j.nextCursor = j.records.length
  limit : j.maxRecords < 2 ^ 32

theorem Filling.held {j : MeEventJournal} {disk : Bytes} (h : Filling j disk) :
    Held disk j.records := ⟨h.mirrors.stored, h.readable, h.numbered⟩

theorem Held.filling {out : List JournalRecord} (h : Held (fileOf out) out)
    {rs : List JournalRecord} (hout : Recovered rs out) {maxRecords : ℕ}
    (hlim : maxRecords < 2 ^ 32) (maxBytes : ℕ) :
    Filling (openedOver maxRecords maxBytes out) (fileOf out) :=
  ⟨hout.mirrors _ _, h.readable, h.numbered, lastCursor_numbered h.numbered, hlim⟩

section Filling

variable {j : MeEventJournal} {disk : Bytes} {event : MeAnalyticsEvent}

/-- The journal behind an append that evicts nothing. -/
def extended (j : MeEventJournal) (event : MeAnalyticsEvent) : MeEventJournal :=
  pushRecord j event (lineText (j.nextCursor + 1) event ++ [newline])

theorem fits_makeRoom (he : Emittable event) (hfit : Fits j event) (disk : Bytes) :
    makeRoom j disk (lineText (j.nextCursor + 1) event ++ [newline]) event.phase =
      .ok (j, disk) := by
  obtain ⟨hcount, hbytes⟩ := hfit _ (recordToLine_eq he.printable)
  unfold makeRoom compactToFit
  rw [if_pos ⟨hcount, by omega, by omega⟩]

theorem Filling.next_lt (h : Filling j disk) (hfit : Fits j event) (he : Emittable event) :
    j.nextCursor + 1 < 2 ^ 32 := by
  obtain ⟨hcount, -⟩ := hfit _ (recordToLine_eq he.printable)
  have := h.limit
  have := h.next
  omega

theorem Filling.beforeWrite (h : Filling j disk) (he : Emittable event) (hfit : Fits j event) :
    beforeWrite j disk event =
      some (j, disk, lineText (j.nextCursor + 1) event ++ [newline]) := by
  have hlt := h.next_lt hfit he
  unfold Journal.beforeWrite
  rw [if_neg, recordToLine_eq he.printable]
  · simp only [fits_makeRoom he hfit disk]
  · have hphase : validPhase event.phase = true := by
      rcases he.phase with hp | hp | hp <;> rw [hp] <;> rfl
    simp only [hphase, Bool.not_true, Bool.false_eq_true, false_or, uint64Max]
    omega

theorem Filling.append (h : Filling j disk) (he : Emittable event) (hfit : Fits j event) :
    meEventJournalAppend j disk event = (.ok (j.nextCursor + 1), extended j event,
      disk ++ (lineText (j.nextCursor + 1) event ++ [newline])) := by
  have hlt := h.next_lt hfit he
  have hphase : validPhase event.phase = true := by
    rcases he.phase with hp | hp | hp <;> rw [hp] <;> rfl
  unfold meEventJournalAppend
  rw [if_neg (by simp [hphase]), if_neg (by simp only [uint64Max]; omega),
    recordToLine_eq he.printable]
  simp only [fits_makeRoom he hfit disk, extended]

/-- The step lemma: an append that fits adds its record. -/
theorem Filling.extended (h : Filling j disk) (he : Emittable event) (ha : Accepted event)
    (hfit : Fits j event) : Filling (extended j event)
      (disk ++ (lineText (j.nextCursor + 1) event ++ [newline])) := by
  have hlt := h.next_lt hfit he
  have hmir : Mirrors (Journal.extended j event)
      (disk ++ (lineText (j.nextCursor + 1) event ++ [newline])) := by
    rcases meEventJournalAppend_spec h.mirrors he with ⟨j', disk', happ, hmir, -⟩ |
      ⟨r, j', happ, hr, -⟩
    · rw [h.append he hfit] at happ
      simp only [Prod.mk.injEq, true_and] at happ
      obtain ⟨rfl, rfl⟩ := happ
      exact hmir
    · rw [h.append he hfit] at happ
      exact absurd (Prod.mk.inj happ).1.symm (hr _)
  refine ⟨hmir, fun r hr => ?_, ?_, ?_, h.limit⟩
  · have hproper := hmir.proper r hr
    rcases List.mem_append.mp hr with hr | hr
    · exact h.readable r hr
    · rw [List.mem_singleton.mp hr] at hproper ⊢
      exact ⟨hproper, lt_trans hlt (by decide), ha⟩
  · simp only [Journal.extended, pushRecord, List.map_append, h.numbered, List.map_cons,
      List.map_nil, List.length_append, List.length_singleton, List.range'_concat, h.next]
    simp [Nat.add_comm]
  · simp only [Journal.extended, pushRecord, List.length_append, List.length_singleton, h.next]

end Filling

/-! ## Runs of appends -/

theorem run_append (m : Machine) (as bs : List Action) : run m (as ++ bs) = run (run m as) bs :=
  List.foldl_append

theorem allRoom_append {m : Machine} {as bs : List Action} :
    AllRoom m (as ++ bs) ↔ AllRoom m as ∧ AllRoom (run m as) bs := by
  induction as generalizing m with
  | nil => simp [AllRoom, run]
  | cons a as ih =>
    rw [List.cons_append, AllRoom, AllRoom, ih, and_assoc]
    rfl

/-- What a lifetime's events are for the journal; a long-lived engine would run out of sequence
numbers the decoder accepts, but not before the journal is full. -/
def Codable (k : ℕ) (events : List MeAnalyticsEvent) : Prop :=
  ∀ i event, events[i]? = some event → Emittable event ∧ (k + i + 1 < 2 ^ 32 → Accepted event)

theorem Codable.tail {k : ℕ} {event : MeAnalyticsEvent} {events : List MeAnalyticsEvent}
    (h : Codable k (event :: events)) : Codable (k + 1) events := fun i e he => by
  obtain ⟨hem, hacc⟩ := h (i + 1) e he
  exact ⟨hem, fun hlt => hacc (by omega)⟩

/-- The run lemma: appends that fit add their records. -/
theorem Filling.run_append {j : MeEventJournal} {disk : Bytes} (h : Filling j disk) {k : ℕ}
    {events : List MeAnalyticsEvent} (hc : Codable k events) (hk : k ≤ j.records.length)
    {issued : List ℕ} (hroom : AllRoom ⟨disk, some j, issued⟩ (events.map .append)) :
    ∃ j' disk' issued', run ⟨disk, some j, issued⟩ (events.map .append) =
        ⟨disk', some j', issued'⟩ ∧ Filling j' disk' ∧
      marks j'.records = marks j.records ++ events.map markOf ∧
      j'.records.length = j.records.length + events.length := by
  induction events generalizing j disk k issued with
  | nil => exact ⟨j, disk, issued, rfl, h, by simp, by simp⟩
  | cons event events ih =>
    obtain ⟨he, hacc⟩ := hc 0 event rfl
    obtain ⟨hfit, hroom⟩ := hroom
    have hfit : Fits j event := hfit j rfl
    have hlt := h.next_lt hfit he
    have hnext := h.next
    have hstep : step ⟨disk, some j, issued⟩ (.append event) =
        ⟨disk ++ (lineText (j.nextCursor + 1) event ++ [newline]), some (Journal.extended j event),
          issued ++ [j.nextCursor + 1]⟩ := by
      simp only [step, h.append he hfit]
    rw [hstep] at hroom
    have hfill := h.extended he (hacc (by omega)) hfit
    have hlen : (Journal.extended j event).records.length = j.records.length + 1 := by
      simp [Journal.extended, pushRecord]
    obtain ⟨j', disk', issued', hrun, hfill', hmarks, hlen'⟩ :=
      ih hfill hc.tail (by omega) hroom
    refine ⟨j', disk', issued', ?_, hfill', ?_, ?_⟩
    · rw [List.map_cons, run, List.foldl_cons, hstep]
      exact hrun
    · rw [hmarks]
      simp [Journal.extended, pushRecord, marks]
    · rw [hlen', hlen, List.length_cons]
      omega

/-- The crash cut lets the whole line through. -/
def AppendCut.completes (j : MeEventJournal) (event : MeAnalyticsEvent) : AppendCut → Bool
  | .torn n => (lineText (j.nextCursor + 1) event).length + 1 ≤ n
  | _ => false

/-- What a crash inside an append that fits leaves in the file. -/
theorem Filling.crash {j : MeEventJournal} {disk : Bytes} (h : Filling j disk)
    {event : MeAnalyticsEvent} (he : Emittable event) (ha : Accepted event) (hfit : Fits j event)
    (cut : AppendCut) :
    ∃ rs, Held (cutAppend j disk event cut) rs ∧
      marks rs = marks j.records ++ if cut.completes j event then [markOf event] else [] := by
  have hlt := h.next_lt hfit he
  cases cut with
  | start => exact ⟨j.records, h.held, by simp [AppendCut.completes]⟩
  | compacted =>
    simp only [cutAppend, h.beforeWrite he hfit]
    exact ⟨j.records, h.held, by simp [AppendCut.completes]⟩
  | torn n =>
    simp only [cutAppend, h.beforeWrite he hfit]
    by_cases hn : (lineText (j.nextCursor + 1) event).length + 1 ≤ n
    · have hstored := torn_complete h.mirrors he (lt_trans hlt (by decide)) hn
      have hfull := (h.extended he ha hfit).held
      refine ⟨_, ⟨hstored, ?_, ?_⟩, ?_⟩
      · simpa [Journal.extended, pushRecord] using hfull.readable
      · simpa [Journal.extended, pushRecord] using hfull.numbered
      · simp [AppendCut.completes, hn, marks]
    · exact ⟨j.records, ⟨torn_short h.mirrors he (by omega), h.readable, h.numbered⟩,
        by simp [AppendCut.completes, hn]⟩

/-! ## One lifetime -/

namespace EngineLifetime

variable {l : EngineLifetime}

theorem calls_given (l : EngineLifetime) {S : Source} (h : ∀ o ∈ l.observations, S.observation o) :
    ∀ c ∈ l.calls, c.Given S := by
  intro c hc
  rcases List.mem_append.mp hc with hc | hc
  · obtain ⟨o, ho, rfl⟩ := List.mem_map.mp hc
    exact h o ho
  · rw [List.mem_singleton.mp hc]
    trivial

theorem events_codable (ht : l.Typed) (hl : ∀ o ∈ l.observations, Codec.Legible o) :
    Codable 0 l.events := by
  intro i event hi
  unfold events at hi
  split at hi
  · simp at hi
  next e hinit =>
  split at hi
  · rw [List.getElem?_mapIdx, Option.map_eq_some_iff] at hi
    obtain ⟨r, hr, rfl⟩ := hi
    have hver : e.configVersion ≤ uint64Max := by
      rw [meEventEngineInit_version hinit]
      decide
    refine ⟨session_emittable hinit hver (l.calls_given ht.observations) true (ht.evidence i) r
      (List.mem_of_getElem? hr), fun hlt => ?_⟩
    exact session_accepted hinit (l.calls_given hl) true (by omega) hr _
  · simp at hi

/-- The marks of the first `n` events pair up, and the first of them opens an event. -/
theorem events_pair (l : EngineLifetime) (n : ℕ) :
    (∃ live, pairing none ((l.events.take n).map markOf) = some live) ∧
      ∀ event rest, l.events.take n = event :: rest → (markOf event).1 = some .opening := by
  unfold events
  split
  · exact ⟨⟨none, by simp [pairing]⟩, by simp⟩
  next e hinit =>
  split
  · obtain ⟨hw, hlife⟩ := meEventEngineInit_wf hinit
    obtain ⟨s, hrun, -, -⟩ := session_run hw l.calls true
    rw [hlife] at hrun
    generalize records (session e l.calls true).2 = rs at hrun
    obtain ⟨t, ht⟩ := hrun.take n
    have hmap : ((rs.mapIdx fun i r => withEvidence r (l.evidence i)).take n).map markOf =
        (rs.take n).map fun r => (eventReading.kind r, r.eventId) := by
      apply List.ext_getElem?
      intro i
      simp only [List.getElem?_map, List.getElem?_take, List.getElem?_mapIdx]
      split
      · cases rs[i]? <;> rfl
      · rfl
    have hpair := ht.pairing MeAnalyticsEvent.eventId (·.eventId) fun _ => rfl
    refine ⟨⟨_, hmap ▸ hpair⟩, fun event rest hcons => ?_⟩
    rw [hcons] at hmap
    cases hrs : rs.take n with
    | nil => simp [hrs] at hmap
    | cons r rs' =>
      rw [hrs] at hmap ht
      have hhead := ht.head_opening
      simp only [List.map_cons, List.cons.injEq] at hmap
      rw [hmap.1]
      exact hhead
  · exact ⟨⟨none, by simp [pairing]⟩, by simp⟩

/-- The journal takes a prefix of the events. -/
theorem journaled_take (l : EngineLifetime) (m : Machine) :
    ∃ n, l.journaled m = l.events.take n := by
  unfold journaled
  split
  · exact ⟨l.events.length, by simp⟩
  · split
    · exact ⟨_, rfl⟩
    split
    · exact ⟨_, rfl⟩
    split
    · exact ⟨_, rfl⟩
    · exact ⟨_, rfl⟩
  · exact ⟨_, rfl⟩
  · exact ⟨0, by simp⟩

theorem events_nil (h : l.actions = []) : l.events = [] := by
  unfold actions at h
  unfold events
  split
  · rfl
  next hinit =>
  rw [hinit] at h
  simp only at h
  by_cases hen : l.config.enabled = true
  · rw [if_pos hen] at h
    split at h <;> cases h
  · rw [if_neg hen]

theorem maxBytes_pos {e : MeEventEngine} (h : meEventEngineInit (some l.config) 1 = .ok e) :
    ¬ (l.config.eventLogMaxRecords = 0 ∨ l.config.eventLogMaxBytes = 0) := by
  unfold meEventEngineInit at h
  simp only at h
  split at h
  · cases h
  next hconf =>
  exact config_limits hconf

/-- With room, `open` takes over every record. -/
theorem open_roomy {m : Machine} (hm : m.journal = none) {rs : List JournalRecord}
    (h : Held m.disk rs) {maxRecords maxBytes : ℕ} (hlim : maxRecords < 2 ^ 32)
    (hpos : ¬ (maxRecords = 0 ∨ maxBytes = 0))
    (hroom : HasRoom m (.open maxRecords maxBytes)) :
    ∃ j disk, meEventJournalOpen m.disk maxRecords maxBytes = (some j, disk) ∧ Filling j disk ∧
      step m (.open maxRecords maxBytes) = ⟨disk, some j, m.issued⟩ ∧
      marks j.records = marks rs ∧ j.records.length = rs.length := by
  obtain ⟨out, hrec, hheld, hout, hmarks, hlen⟩ := h.recover
  obtain ⟨hcount, hbytes⟩ := hroom
  rw [hrec] at hcount hbytes
  have hopen : meEventJournalOpen m.disk maxRecords maxBytes =
      (some (openedOver maxRecords maxBytes out), fileOf out) := by
    unfold meEventJournalOpen
    rw [if_neg hpos]
    simp only [hrec]
    rw [if_neg (by simp only at hcount hbytes; omega)]
    rfl
  refine ⟨_, _, hopen, hheld.filling hout hlim maxBytes, ?_, hmarks, hlen⟩
  simp only [step, hm, hopen]

/-- The step lemma: a lifetime with room adds what it journals. -/
theorem adds (ht : l.Typed) (hl : ∀ o ∈ l.observations, Codec.Legible o) {m : Machine}
    (hm : m.journal = none) {rs : List JournalRecord} (h : Held m.disk rs)
    (hroom : AllRoom m l.actions) :
    ∃ rs', (run m l.actions).journal = none ∧ Held (run m l.actions).disk rs' ∧
      marks rs' = marks rs ++ (l.journaled m).map markOf := by
  have hcodable := l.events_codable ht hl
  cases hact : l.actions with
  | nil =>
    obtain ⟨n, hn⟩ := l.journaled_take m
    exact ⟨rs, hm, h, by rw [hn, events_nil hact]; simp⟩
  | cons a as =>
    obtain ⟨e, hinit, hen⟩ : ∃ e, meEventEngineInit (some l.config) 1 = .ok e ∧
        l.config.enabled = true := by
      unfold actions at hact
      split at hact
      · cases hact
      next e hinit =>
      split at hact
      · next hen => exact ⟨e, hinit, hen⟩
      · cases hact
    rw [← hact]
    have hpos := maxBytes_pos hinit
    unfold actions at hroom ⊢
    unfold journaled
    rw [hinit] at hroom ⊢
    simp only [hen, if_true] at hroom ⊢
    obtain ⟨out, hrec, hheld, hout, hmarks, hlen⟩ := h.recover
    cases hend : l.ending with
    | deinit =>
      simp only [hend] at hroom ⊢
      obtain ⟨hopen, hroom⟩ := hroom
      obtain ⟨j, disk, -, hfill, hstep, hmarks, hlen⟩ := open_roomy hm h ht.maxRecords hpos hopen
      rw [hstep, allRoom_append] at hroom
      obtain ⟨j', disk', issued', hrun, hfill', hmarks', -⟩ :=
        hfill.run_append hcodable (Nat.zero_le _) hroom.1
      have hfinal : run m (.open l.config.eventLogMaxRecords l.config.eventLogMaxBytes ::
          (l.events.map .append ++ [.close])) = ⟨disk', none, issued'⟩ := by
        rw [run, List.foldl_cons, hstep]
        change run _ _ = _
        rw [run_append, hrun]
        rfl
      rw [hfinal]
      exact ⟨j'.records, rfl, hfill'.held, by rw [hmarks', hmarks]⟩
    | crash written cut =>
      simp only [hend] at hroom ⊢
      obtain ⟨hopen, hroom⟩ := hroom
      obtain ⟨j, disk, -, hfill, hstep, hmarks', hlen'⟩ :=
        open_roomy hm h ht.maxRecords hpos hopen
      rw [hstep, allRoom_append] at hroom
      have htake : Codable 0 (l.events.take written) := fun i event hi =>
        hcodable i event (List.getElem?_eq_some_iff.mpr (by
          obtain ⟨hlt, heq⟩ := List.getElem?_eq_some_iff.mp hi
          exact ⟨by simp at hlt; omega, by rw [← heq, List.getElem_take]⟩))
      obtain ⟨j', disk', issued', hrun, hfill', hmarks'', hlen''⟩ :=
        hfill.run_append htake (Nat.zero_le _) hroom.1
      have hroom' := hroom.2
      rw [hrun] at hroom'
      rw [run, List.foldl_cons, hstep]
      change ∃ rs', (run ⟨disk, some j, m.issued⟩ _).journal = none ∧
        Held (run ⟨disk, some j, m.issued⟩ _).disk rs' ∧ _
      rw [run_append, hrun]
      cases hnext : l.events[written]? with
      | none =>
        refine ⟨j'.records, rfl, hfill'.held, ?_⟩
        rw [hmarks'', hmarks']
        cases cut with
        | start => rfl
        | compacted => rfl
        | torn n => simp only [hnext]
      | some event =>
        obtain ⟨hfit, -⟩ := hnext ▸ hroom'
        have hfit : Fits j' event := hfit j' rfl
        obtain ⟨he, hacc⟩ := hcodable written event hnext
        have hlt := hfill'.next_lt hfit he
        have hwritten : written < l.events.length := (List.getElem?_eq_some_iff.mp hnext).1
        have hcount : (l.events.take written).length = written := by
          rw [List.length_take]
          omega
        have hn := hfill'.next
        obtain ⟨rs', hheld', hmarks₃⟩ := hfill'.crash he (hacc (by omega)) hfit cut
        refine ⟨rs', rfl, hheld', ?_⟩
        rw [hmarks₃, hmarks'', hmarks', List.append_assoc]
        congr 1
        have hcursor : lastCursor (recover m.disk).1 + written + 1 = j'.nextCursor + 1 := by
          rw [hrec]
          simp only [lastCursor_numbered hheld.numbered]
          omega
        cases cut with
        | start => simp [AppendCut.completes]
        | compacted => simp [AppendCut.completes]
        | torn n =>
          simp only [hnext, hcursor, recordToLine_eq he.printable]
          simp only [AppendCut.completes, List.length_append, List.length_singleton]
          by_cases hcut : (lineText (j'.nextCursor + 1) event).length + 1 ≤ n
          · rw [if_neg (by omega), List.take_add_one, hnext]
            simp [hcut]
          · rw [if_pos (by omega)]
            simp [hcut]
    | crashOpen cut =>
      simp only [hend] at hroom ⊢
      obtain ⟨hopen, -⟩ := hroom
      obtain ⟨j, disk, hj, hfill, -, hmarks', -⟩ := open_roomy hm h ht.maxRecords hpos hopen
      have hdisk : run m [.crashOpen l.config.eventLogMaxRecords l.config.eventLogMaxBytes cut] =
          { m with
            disk := cutOpen m.disk l.config.eventLogMaxRecords l.config.eventLogMaxBytes cut } := by
        simp only [run, List.foldl_cons, List.foldl_nil, step, hm]
      rw [hdisk]
      simp only [List.map_nil, List.append_nil]
      cases cut with
      | start => exact ⟨rs, hm, h, rfl⟩
      | truncated =>
        simp only [cutOpen, if_neg hpos, hrec]
        exact ⟨out, hm, hheld, hmarks⟩
      | rewritten =>
        simp only [cutOpen, hj]
        exact ⟨j.records, hm, hfill.held, hmarks'⟩

end EngineLifetime

/-! ## All lifetimes -/

theorem leftOpen_append (ms : List (Option Kind × CStr)) (m : Option Kind × CStr) :
    leftOpen (ms ++ [m]) = if m.1 = some .opening then true
      else if m.1 = some .closing then false else leftOpen ms := by
  unfold leftOpen
  rw [List.filter_append]
  obtain ⟨kind, id⟩ := m
  rcases kind with _ | _ | _ | _ <;> simp

/-- A stream that pairs up leaves an event open if its last START has no END. -/
theorem leftOpen_of_pairing {ms : List (Option Kind × CStr)} {live : Option CStr}
    (h : pairing none ms = some live) : leftOpen ms = live.isSome := by
  induction ms using List.reverseRecOn generalizing live with
  | nil =>
    cases h
    rfl
  | append_singleton ms m ih =>
    rw [pairing_append, Option.bind_eq_some_iff] at h
    obtain ⟨before, hbefore, hlast⟩ := h
    have := ih hbefore
    rw [leftOpen_append]
    obtain ⟨kind, id⟩ := m
    rcases kind with _ | _ | _ | _ <;> rcases before with _ | k <;>
      simp only [pairing] at hlast <;> try cases hlast
    · simpa using this
    · simpa using this
    · rfl
    · simpa using this
    · simpa using this
    · split at hlast
      · cases hlast
        rfl
      · cases hlast

theorem Held.journalMarks {m : Machine} {rs : List JournalRecord} (h : Held m.disk rs) :
    journalMarks m = marks rs := by
  obtain ⟨out, hrec, -, -, hmarks, -⟩ := h.recover
  rw [Journal.journalMarks, hrec, hmarks]

/-- One lifetime keeps the marks paired exactly if it resumes. -/
theorem resumes_iff {m : Machine} {rs : List JournalRecord} (h : Held m.disk rs)
    {live : Option CStr} (hp : pairing none (marks rs) = some live) (l : EngineLifetime) :
    Resumes m l ↔ (pairing none (marks rs ++ (l.journaled m).map markOf)).isSome := by
  obtain ⟨n, hn⟩ := l.journaled_take m
  obtain ⟨⟨left, hleft⟩, hhead⟩ := l.events_pair n
  rw [Resumes, h.journalMarks, leftOpen_of_pairing hp, pairing_append, hp, Option.bind_some, hn]
  cases live with
  | none =>
    rw [hleft]
    simp
  | some k =>
    cases hev : l.events.take n with
    | nil => simp [pairing]
    | cons event rest =>
      have hmark : markOf event = (some .opening, event.eventId) :=
        Prod.ext (hhead event rest hev) rfl
      simp [hmark, pairing]

section Lifetimes

variable {ls : List EngineLifetime}

/-- Lifetimes only add to the marks. -/
theorem lifetimes_add (ht : ∀ l ∈ ls, l.Typed)
    (hl : ∀ l ∈ ls, ∀ o ∈ l.observations, Codec.Legible o) {m : Machine} (hm : m.journal = none)
    {rs : List JournalRecord} (h : Held m.disk rs) (hroom : AllRoom m (ls.flatMap (·.actions))) :
    ∃ rs' more, Held (run m (ls.flatMap (·.actions))).disk rs' ∧ marks rs' = marks rs ++ more := by
  induction ls generalizing m rs with
  | nil => exact ⟨rs, [], h, by simp⟩
  | cons l ls ih =>
    obtain ⟨ht₁, hts⟩ := List.forall_mem_cons.mp ht
    obtain ⟨hl₁, hls⟩ := List.forall_mem_cons.mp hl
    rw [List.flatMap_cons, allRoom_append] at hroom
    obtain ⟨rs', hm', h', hmarks⟩ := EngineLifetime.adds ht₁ hl₁ hm h hroom.1
    obtain ⟨rs'', more, h'', hmore⟩ := ih hts hls hm' h' hroom.2
    refine ⟨rs'', (l.journaled m).map markOf ++ more, ?_, ?_⟩
    · rw [List.flatMap_cons, run_append]
      exact h''
    · rw [hmore, hmarks, List.append_assoc]

theorem allResume_iff (ht : ∀ l ∈ ls, l.Typed)
    (hl : ∀ l ∈ ls, ∀ o ∈ l.observations, Codec.Legible o) {m : Machine} (hm : m.journal = none)
    {rs : List JournalRecord} (h : Held m.disk rs) (hp : (pairing none (marks rs)).isSome)
    (hroom : AllRoom m (ls.flatMap (·.actions))) :
    AllResume m ls ↔ (pairing none (journalMarks (run m (ls.flatMap (·.actions))))).isSome := by
  induction ls generalizing m rs with
  | nil => simpa [AllResume, run, h.journalMarks] using hp
  | cons l ls ih =>
    obtain ⟨ht₁, hts⟩ := List.forall_mem_cons.mp ht
    obtain ⟨hl₁, hls⟩ := List.forall_mem_cons.mp hl
    rw [List.flatMap_cons, allRoom_append] at hroom
    obtain ⟨live, hlive⟩ := Option.isSome_iff_exists.mp hp
    obtain ⟨rs', hm', h', hmarks⟩ := EngineLifetime.adds ht₁ hl₁ hm h hroom.1
    have hres := resumes_iff h hlive l
    rw [← hmarks] at hres
    rw [AllResume, List.flatMap_cons, run_append]
    by_cases hr : Resumes m l
    · rw [ih hts hls hm' h' (hres.mp hr) hroom.2]
      simp [hr]
    · -- the file only grows, so what does not pair up now never will
      obtain ⟨rs'', more, h'', hmore⟩ := lifetimes_add hts hls hm' h' hroom.2
      have hnone : pairing none (marks rs') = none := by
        simpa using fun hx => hr (hres.mpr hx)
      rw [h''.journalMarks, hmore, pairing_append, hnone]
      simp [hr]

/-- **Journaled lifecycles over lifetimes and crashes**: with room for every record and integers the
decoder accepts, the START and END records of the journal alternate, each END with the id of the
START before it, exactly if no lifetime adds a record to a journal whose last START has no END. -/
theorem lifetimes_pair_iff (ht : ∀ l ∈ ls, l.Typed)
    (hl : ∀ l ∈ ls, ∀ o ∈ l.observations, Codec.Legible o)
    (hroom : AllRoom .fresh (ls.flatMap (·.actions))) :
    (pairing none (journalMarks (run .fresh (ls.flatMap (·.actions))))).isSome ↔
      AllResume .fresh ls :=
  (allResume_iff ht hl rfl held_nil rfl hroom).symm

end Lifetimes

/-! ### A crash with and without an open event -/

/-- One person appears; the lifetime then ends as told. -/
def visit (ending : Ending) : EngineLifetime :=
  { config := demoConfig, observations := [demoObservation 1 1], evidence := fun _ => .empty
    ending := ending }

/-- The first lifetime crashes after its END was written, the second one shuts down. -/
def crashClosed : List EngineLifetime := [visit (.crash 2 .start), visit .deinit]

/-- The first lifetime crashes between its START and its END. -/
def crashOpened : List EngineLifetime := [visit (.crash 1 .start), visit .deinit]

theorem visit_typed (ending : Ending) : (visit ending).Typed := by
  refine ⟨?_, fun _ => ?_, ?_⟩
  · simp only [visit, List.forall_mem_singleton]
    exact ⟨by decide, by decide, by decide, by decide, by decide, by decide⟩
  · show CStr.empty.bytes.length < meAnalyticsEvidenceIdMax
    decide
  · show demoConfig.eventLogMaxRecords < 2 ^ 32
    decide

theorem visit_legible (ending : Ending) : ∀ o ∈ (visit ending).observations, Codec.Legible o := by
  simp only [visit, List.forall_mem_singleton]
  decide +kernel

theorem lifetimes_pair_iff_demo :
    (journalMarks (run .fresh (crashClosed.flatMap (·.actions)))).map (·.1) =
      [some .opening, some .closing, some .opening, some .closing] ∧
    ((pairing none (journalMarks (run .fresh (crashClosed.flatMap (·.actions))))).isSome ↔
      AllResume .fresh crashClosed) := by
  have heval : (journalMarks (run .fresh (crashClosed.flatMap (·.actions)))).map (·.1) =
      [some .opening, some .closing, some .opening, some .closing] ∧
      AllRoom .fresh (crashClosed.flatMap (·.actions)) := by decide +kernel
  refine ⟨heval.1, @lifetimes_pair_iff crashClosed ?_ ?_ heval.2⟩
  · simp only [crashClosed, List.forall_mem_cons]
    exact ⟨visit_typed _, visit_typed _, by simp⟩
  · simp only [crashClosed, List.forall_mem_cons]
    exact ⟨visit_legible _, visit_legible _, by simp⟩

/-- A crash with an event open, and a START in the next lifetime: the journal holds two STARTs in a
row. -/
theorem crash_leaves_start :
    (∀ l ∈ crashOpened, l.Typed ∧ ∀ o ∈ l.observations, Codec.Legible o) ∧
    AllRoom .fresh (crashOpened.flatMap (·.actions)) ∧
    (journalMarks (run .fresh (crashOpened.flatMap (·.actions)))).map (·.1) =
      [some .opening, some .opening, some .closing] ∧
    ¬ (pairing none (journalMarks (run .fresh (crashOpened.flatMap (·.actions))))).isSome := by
  refine ⟨?_, by decide +kernel⟩
  simp only [crashOpened, List.forall_mem_cons]
  exact ⟨⟨visit_typed _, visit_legible _⟩, ⟨visit_typed _, visit_legible _⟩, by simp⟩

end FlowAlarm.Journal
