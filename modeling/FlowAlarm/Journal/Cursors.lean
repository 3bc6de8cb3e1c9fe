import FlowAlarm.Journal.Durability

/-!
# Cursors over lifetimes and crashes

`next_cursor` is not stored: `open` takes it from the last record it accepts.
A `Machine` is the file, the open journal if there is one, and the cursors
handed out so far, over all lifetimes. A crash may fall before, between or
inside the file steps of `open` and `append`. `cursors_increase` states when
no cursor is handed out twice: whenever the process lets go of the journal,
the newest record must still be in the file.
-/

namespace FlowAlarm.Journal

open FlowAlarm.Text FlowAlarm.Num FlowAlarm.CJson FlowAlarm.Engine FlowAlarm.Codec

/-! ## The machine -/

structure Machine where
  disk : Bytes
  journal : Option MeEventJournal
  issued : List ℕ

def Machine.fresh : Machine := ⟨[], none, []⟩

/-- Where a crash interrupts `open`. -/
inductive OpenCut where
  | start
  | truncated
  | rewritten

/-- Where a crash interrupts `append`; `torn n` is behind `n` bytes of the line. -/
inductive AppendCut where
  | start
  | compacted
  | torn (n : ℕ)

inductive Action where
  | open (maxRecords maxBytes : ℕ)
  | append (event : MeAnalyticsEvent)
  | close
  | crash
  | crashOpen (maxRecords maxBytes : ℕ) (cut : OpenCut)
  | crashAppend (event : MeAnalyticsEvent) (cut : AppendCut)

def cutOpen (disk : Bytes) (maxRecords maxBytes : ℕ) : OpenCut → Bytes
  | .start => disk
  | .truncated => if maxRecords = 0 ∨ maxBytes = 0 then disk else (recover disk).2
  | .rewritten => (meEventJournalOpen disk maxRecords maxBytes).2

/-- The journal and the file as `append` finds them when it writes its line, if it comes to that. -/
def beforeWrite (j : MeEventJournal) (disk : Bytes) (event : MeAnalyticsEvent) :
    Option (MeEventJournal × Bytes × Bytes) :=
  if !validPhase event.phase ∨ j.nextCursor = uint64Max then none
  else
    match recordToLine (j.nextCursor + 1) event with
    | none => none
    | some line =>
      match makeRoom j disk line event.phase with
      | .error _ => none
      | .ok (j, disk) => some (j, disk, line)

def cutAppend (j : MeEventJournal) (disk : Bytes) (event : MeAnalyticsEvent) : AppendCut → Bytes
  | .start => disk
  | .compacted =>
    match beforeWrite j disk event with
    | none => disk
    | some (_, disk, _) => disk
  | .torn n =>
    match beforeWrite j disk event with
    | none => disk
    | some (_, disk, line) => disk ++ line.take n

/-- The journal whose queue the file mirrors at the cut. -/
def heldAt (j : MeEventJournal) (disk : Bytes) (event : MeAnalyticsEvent) :
    AppendCut → MeEventJournal
  | .start => j
  | _ =>
    match beforeWrite j disk event with
    | none => j
    | some (j, _, _) => j

def step (m : Machine) : Action → Machine
  | .open maxRecords maxBytes =>
    match m.journal with
    | some _ => m
    | none =>
      let (j, disk) := meEventJournalOpen m.disk maxRecords maxBytes
      { m with disk := disk, journal := j }
  | .append event =>
    match m.journal with
    | none => m
    | some j =>
      match meEventJournalAppend j m.disk event with
      | (.ok cursor, j, disk) => ⟨disk, some j, m.issued ++ [cursor]⟩
      | (_, j, disk) => ⟨disk, some j, m.issued⟩
  | .close | .crash => { m with journal := none }
  | .crashOpen maxRecords maxBytes cut =>
    match m.journal with
    | some _ => m
    | none => { m with disk := cutOpen m.disk maxRecords maxBytes cut }
  | .crashAppend event cut =>
    match m.journal with
    | none => m
    | some j => { m with disk := cutAppend j m.disk event cut, journal := none }

def run (m : Machine) (actions : List Action) : Machine := actions.foldl step m

/-- The events are ones the engine emits. -/
def Action.Typed : Action → Prop
  | .append event | .crashAppend event _ => Emittable event
  | _ => True

/-! ## When cursors are safe -/

/-- The first number cJSON does not print and read back. -/
def cursorLimit : ℕ := 4503599627370499

/-- The newest record issued is the last of the queue. -/
def NewestKept (j : MeEventJournal) : Prop := lastCursor j.records = j.nextCursor

instance (j : MeEventJournal) : Decidable (NewestKept j) :=
  inferInstanceAs (Decidable (lastCursor _ = _))

/-- The condition on one action in the state before it. -/
def Tame (m : Machine) : Action → Prop
  | .open _ _ => True
  | .append event => Accepted event ∧ ∀ j ∈ m.journal, j.nextCursor + 1 < cursorLimit
  | .close | .crash => ∀ j ∈ m.journal, NewestKept j
  | .crashOpen maxRecords maxBytes cut =>
    match cut with
    | .rewritten => ∀ j ∈ (meEventJournalOpen m.disk maxRecords maxBytes).1, NewestKept j
    | _ => True
  | .crashAppend event cut =>
    Accepted event ∧ ∀ j ∈ m.journal, j.nextCursor + 1 < cursorLimit ∧
      NewestKept (heldAt j m.disk event cut)

instance (m : Machine) : (a : Action) → Decidable (Tame m a)
  | .open _ _ => inferInstanceAs (Decidable True)
  | .append _ => inferInstanceAs (Decidable (_ ∧ ∀ j ∈ m.journal, _))
  | .close => inferInstanceAs (Decidable (∀ j ∈ m.journal, _))
  | .crash => inferInstanceAs (Decidable (∀ j ∈ m.journal, _))
  | .crashOpen maxRecords maxBytes cut =>
    match cut with
    | .start => inferInstanceAs (Decidable True)
    | .truncated => inferInstanceAs (Decidable True)
    | .rewritten => inferInstanceAs
        (Decidable (∀ j ∈ (meEventJournalOpen m.disk maxRecords maxBytes).1, _))
  | .crashAppend _ _ => inferInstanceAs (Decidable (_ ∧ ∀ j ∈ m.journal, _ ∧ _))

def AllTame (m : Machine) : List Action → Prop
  | [] => True
  | a :: as => Tame m a ∧ AllTame (step m a) as

instance : (m : Machine) → (as : List Action) → Decidable (AllTame m as)
  | _, [] => inferInstanceAs (Decidable True)
  | m, a :: as =>
    have := instDecidableAllTame (step m a) as
    inferInstanceAs (Decidable (Tame m a ∧ AllTame (step m a) as))

/-! ## Readable records -/

/-- `open` accepts the record's line under its own cursor. -/
structure Readable (r : JournalRecord) : Prop where
  proper : Proper r
  cursor : r.cursor < cursorLimit
  event : Accepted r.event

theorem readable_reread {r : JournalRecord} (h : Readable r) :
    ∃ r', Reread r r' ∧ r'.cursor = r.cursor := by
  have hexact : readNat r.cursor = some r.cursor :=
    readNat_eq_self.mpr ⟨lt_trans h.cursor (by decide), .inl h.cursor⟩
  obtain ⟨event', he⟩ := fromJson_of_accepted h.proper.emittable h.event
  exact ⟨_, (recordFromLine_lineText h.proper.emittable.printable h.proper.cursor_lt).mpr
    ⟨r.cursor, event', hexact, h.proper.cursor_pos.ne', he, rfl⟩, rfl⟩

theorem readable_reread_all {rs : List JournalRecord} (h : ∀ r ∈ rs, Readable r) :
    ∃ out, List.Forall₂ Reread rs out ∧ out.map (·.cursor) = rs.map (·.cursor) := by
  induction rs with
  | nil => exact ⟨[], .nil, rfl⟩
  | cons r rs ih =>
    obtain ⟨hr, hrs⟩ := List.forall_mem_cons.mp h
    obtain ⟨r', hr', hc⟩ := readable_reread hr
    obtain ⟨out, hout, hcs⟩ := ih hrs
    exact ⟨r' :: out, .cons hr' hout, by rw [List.map_cons, List.map_cons, hc, hcs]⟩

theorem lastCursor_map {rs rs' : List JournalRecord}
    (h : rs.map (·.cursor) = rs'.map (·.cursor)) : lastCursor rs = lastCursor rs' := by
  rw [lastCursor, lastCursor, ← List.getLast?_map, ← List.getLast?_map, h]

theorem Sorted.of_map {rs rs' : List JournalRecord} (h : rs.map (·.cursor) = rs'.map (·.cursor))
    (hs : Sorted rs') : Sorted rs := by
  have : (rs'.map (·.cursor)).Pairwise (· < ·) := List.pairwise_map.mpr hs
  exact List.pairwise_map.mp (h ▸ this)

/-- Recovery of a readable file keeps all lines, each under its cursor. -/
theorem recover_all {disk : Bytes} {rs : List JournalRecord} (h : Stored disk rs)
    (hr : ∀ r ∈ rs, Readable r) :
    ∃ out, recover disk = (out, fileOf out) ∧ Recovered rs out ∧ List.Forall₂ Reread rs out ∧
      out.map (·.cursor) = rs.map (·.cursor) := by
  obtain ⟨tail, htail, rfl⟩ := h.text
  obtain ⟨all, hall, hcs⟩ := readable_reread_all hr
  have hsorted : Sorted all := Sorted.of_map hcs h.sorted
  have hmem : ∀ r ∈ all, r.cursor ∈ rs.map (·.cursor) := fun r hx =>
    hcs ▸ List.mem_map_of_mem hx
  have hread := readLines_all 0 hall hsorted fun r hx => by
    obtain ⟨s, hs, hc⟩ := List.mem_map.mp (hmem r hx)
    exact hc ▸ (hr s hs).proper.cursor_pos
  obtain ⟨out, hout, hrec⟩ := recover_spec h
  obtain rfl : all = out := by
    have hsplit := splitLines_fileOf (fun r hr => (h.proper r hr).emittable.printable) htail
    simp only [recover, hsplit, hread, Prod.mk.injEq] at hrec
    exact hrec.1
  exact ⟨all, hrec, hout, hall, hcs⟩

/-- A recovered record whose cursor is that of a readable one is readable. -/
theorem Recovered.readable {rs out : List JournalRecord} (h : Recovered rs out)
    (hr : ∀ r ∈ rs, Readable r) (hcs : out.map (·.cursor) = rs.map (·.cursor)) :
    ∀ r ∈ out, Readable r := by
  intro r hx
  obtain ⟨hproper, hsettled⟩ := h.good r hx
  obtain ⟨s, hs, hc⟩ := List.mem_map.mp (hcs ▸ List.mem_map_of_mem hx)
  exact ⟨hproper, hc ▸ (hr s hs).cursor, accepted_of_exact hsettled.2⟩

/-- Recovery of a readable file keeps all cursors. -/
theorem recover_readable {disk : Bytes} {rs : List JournalRecord} (h : Stored disk rs)
    (hr : ∀ r ∈ rs, Readable r) {out : List JournalRecord} (hout : Recovered rs out)
    (hrec : recover disk = (out, fileOf out)) :
    lastCursor out = lastCursor rs ∧ ∀ r ∈ out, Readable r := by
  obtain ⟨all, hall, -, -, hcs⟩ := recover_all h hr
  obtain rfl : all = out := (Prod.mk.inj (hall ▸ hrec)).1
  exact ⟨lastCursor_map hcs, hout.readable hr hcs⟩

/-! ## The invariant -/

/-- The cursors handed out are increasing, and the next one lies above them. -/
structure Inv (m : Machine) : Prop where
  increasing : m.issued.Pairwise (· < ·)
  closed : m.journal = none → ∃ rs, Stored m.disk rs ∧ (∀ r ∈ rs, Readable r) ∧
    ∀ c ∈ m.issued, c ≤ lastCursor rs
  opened : ∀ j, m.journal = some j → Mirrors j m.disk ∧ (∀ r ∈ j.records, Readable r) ∧
    ∀ c ∈ m.issued, c ≤ j.nextCursor

/-- Letting go of a journal whose newest record is in the file. -/
theorem Inv.release {m : Machine} {disk : Bytes} {rs : List JournalRecord}
    (hinc : m.issued.Pairwise (· < ·)) (hs : Stored disk rs) (hr : ∀ r ∈ rs, Readable r)
    (hc : ∀ c ∈ m.issued, c ≤ lastCursor rs) : Inv { m with disk := disk, journal := none } :=
  ⟨hinc, fun _ => ⟨rs, hs, hr, hc⟩, by simp⟩

theorem inv_fresh : Inv .fresh :=
  ⟨.nil, fun _ => ⟨[], ⟨by simp, .nil, [], by simp, rfl⟩, by simp, by simp [Machine.fresh]⟩,
    by simp [Machine.fresh]⟩

theorem inv_open {m : Machine} (h : Inv m) (maxRecords maxBytes : ℕ) :
    Inv (step m (.open maxRecords maxBytes)) := by
  unfold step
  cases hj : m.journal with
  | some j => exact h
  | none =>
    obtain ⟨rs, hs, hr, hc⟩ := h.closed hj
    obtain ⟨out, hout, hrec, hspec⟩ := meEventJournalOpen_spec hs maxRecords maxBytes
    obtain ⟨hlast, hread⟩ := recover_readable hs hr hout hrec
    rcases hspec with ⟨keep, hopen, hsub, -⟩ | ⟨-, hopen | hopen⟩
    · simp only [hopen]
      refine ⟨h.increasing, by simp, fun j hj => ?_⟩
      obtain rfl := Option.some.inj hj
      refine ⟨(hout.mirrors _ _).of_sublist hsub, fun r hx => hread r (hsub.subset hx), ?_⟩
      intro c hx
      show c ≤ lastCursor out
      exact hlast ▸ hc c hx
    · simp only [hopen]
      exact .release h.increasing hs hr hc
    · simp only [hopen]
      exact .release h.increasing hout.stored hread (hlast ▸ hc)

theorem inv_append {m : Machine} (h : Inv m) {event : MeAnalyticsEvent} (he : Emittable event)
    (ht : Tame m (.append event)) : Inv (step m (.append event)) := by
  obtain ⟨hacc, hlim⟩ := ht
  unfold step
  cases hj : m.journal with
  | none => exact h
  | some j =>
    obtain ⟨hmir, hread, hc⟩ := h.opened j hj
    simp only
    rcases meEventJournalAppend_spec hmir he with
      ⟨j', disk', happ, hmir', hnext, -, -, -, keep, hsub, hrecs⟩ |
      ⟨r, j', happ, hr, hmir', hrecs, hnext, -, -, -⟩
    · rw [happ]
      refine ⟨?_, by simp, fun j₁ hj₁ => ?_⟩
      · refine List.pairwise_append.mpr ⟨h.increasing, by simp, fun c hx d hd => ?_⟩
        rw [List.mem_singleton.mp hd]
        have := hc c hx
        omega
      · obtain rfl := Option.some.inj hj₁
        refine ⟨hmir', fun r hr => ?_, fun c hx => ?_⟩
        · have hproper := hmir'.proper r hr
          rw [hrecs] at hr
          rcases List.mem_append.mp hr with hr | hr
          · exact hread r (hsub.subset hr)
          · rw [List.mem_singleton.mp hr] at hproper ⊢
            exact ⟨hproper, hlim j hj, hacc⟩
        · rcases List.mem_append.mp hx with hx | hx
          · have := hc c hx
            omega
          · rw [List.mem_singleton.mp hx, hnext]
    · rw [happ]
      have hkeep : Inv ⟨m.disk, some j', m.issued⟩ := by
        refine ⟨h.increasing, by simp, fun j₁ hj₁ => ?_⟩
        obtain rfl := Option.some.inj hj₁
        exact ⟨hmir', hrecs ▸ hread, hnext ▸ hc⟩
      cases r with
      | ok c => exact absurd rfl (hr c)
      | dropped => exact hkeep
      | failed err => exact hkeep

theorem inv_close {m : Machine} (h : Inv m) (ht : ∀ j ∈ m.journal, NewestKept j) :
    Inv { m with journal := none } := by
  cases hj : m.journal with
  | none =>
    obtain ⟨rs, hs, hr, hc⟩ := h.closed hj
    exact .release h.increasing hs hr hc
  | some j =>
    obtain ⟨hmir, hread, hc⟩ := h.opened j hj
    have hkept : lastCursor j.records = j.nextCursor := ht j hj
    exact .release h.increasing hmir.stored hread (hkept ▸ hc)

theorem inv_crashOpen {m : Machine} (h : Inv m) {maxRecords maxBytes : ℕ} {cut : OpenCut}
    (ht : Tame m (.crashOpen maxRecords maxBytes cut)) :
    Inv (step m (.crashOpen maxRecords maxBytes cut)) := by
  unfold step
  cases hj : m.journal with
  | some j => exact h
  | none =>
    obtain ⟨rs, hs, hr, hc⟩ := h.closed hj
    obtain ⟨out, hout, hrec, hspec⟩ := meEventJournalOpen_spec hs maxRecords maxBytes
    obtain ⟨hlast, hread⟩ := recover_readable hs hr hout hrec
    have hcut : Inv { m with disk := fileOf out, journal := none } :=
      .release h.increasing hout.stored hread (hlast ▸ hc)
    have hsame : Inv { m with disk := m.disk, journal := none } := .release h.increasing hs hr hc
    simp only
    cases cut with
    | start => exact hj ▸ hsame
    | truncated =>
      simp only [cutOpen, hrec]
      split
      · exact hj ▸ hsame
      · exact hj ▸ hcut
    | rewritten =>
      simp only [cutOpen]
      simp only [Tame] at ht
      rcases hspec with ⟨keep, hopen, hsub, -⟩ | ⟨-, hopen | hopen⟩
      · rw [hopen] at ht ⊢
        have hkept := ht _ rfl
        simp only [NewestKept, openedOver] at hkept
        have hmir := (hout.mirrors maxRecords maxBytes).of_sublist hsub
        have := Inv.release h.increasing hmir.stored (fun r hx => hread r (hsub.subset hx))
          (by simpa only [hkept, hlast] using hc)
        exact hj ▸ this
      · rw [hopen]
        exact hj ▸ hsame
      · rw [hopen]
        exact hj ▸ hcut

theorem beforeWrite_spec {j j' : MeEventJournal} {disk disk' line : Bytes}
    {event : MeAnalyticsEvent} (h : Mirrors j disk) (he : Emittable event)
    (hb : beforeWrite j disk event = some (j', disk', line)) :
    Mirrors j' disk' ∧ j'.nextCursor = j.nextCursor ∧ j'.records.Sublist j.records ∧
      line = lineText (j.nextCursor + 1) event ++ [newline] := by
  unfold beforeWrite at hb
  split at hb
  · cases hb
  rw [recordToLine_eq he.printable] at hb
  simp only at hb
  split at hb
  · cases hb
  · next hm =>
    simp only [Option.some.injEq, Prod.mk.injEq] at hb
    obtain ⟨rfl, rfl, rfl⟩ := hb
    obtain ⟨hmir, hnext, -, -, hsub, -⟩ := makeRoom_ok h hm
    exact ⟨hmir, hnext, hsub, rfl⟩

/-- A line cut short is no record. -/
theorem torn_short {j : MeEventJournal} {disk : Bytes} {event : MeAnalyticsEvent}
    (h : Mirrors j disk) (he : Emittable event) {n : ℕ}
    (hn : n < (lineText (j.nextCursor + 1) event).length + 1) :
    Stored (disk ++ (lineText (j.nextCursor + 1) event ++ [newline]).take n) j.records := by
  refine ⟨h.proper, h.sorted, _, ?_, by rw [h.disk]⟩
  rw [List.take_append_of_le_length (by omega)]
  exact fun hx => newline_not_mem_lineText he.printable (List.mem_of_mem_take hx)

/-- A complete line is a record. -/
theorem torn_complete {j : MeEventJournal} {disk : Bytes} {event : MeAnalyticsEvent}
    (h : Mirrors j disk) (he : Emittable event) (hlt : j.nextCursor + 1 < 2 ^ 64) {n : ℕ}
    (hn : (lineText (j.nextCursor + 1) event).length + 1 ≤ n) :
    Stored (disk ++ (lineText (j.nextCursor + 1) event ++ [newline]).take n) (j.records ++
      [⟨j.nextCursor + 1, event, (lineText (j.nextCursor + 1) event).length + 1⟩]) := by
  rw [List.take_of_length_le (by simpa using hn)]
  refine ⟨fun r hr => ?_, ?_, [], by simp, ?_⟩
  · rcases List.mem_append.mp hr with hr | hr
    · exact h.proper r hr
    · rw [List.mem_singleton.mp hr]
      exact ⟨he, Nat.succ_pos _, hlt, rfl⟩
  · refine List.pairwise_append.mpr ⟨h.sorted, by simp, fun a ha b hb => ?_⟩
    rw [List.mem_singleton.mp hb]
    have := h.bound a ha
    simp only
    omega
  · rw [fileOf_append, h.disk, List.append_nil]
    rfl

/-- A torn line is either cut short, or complete and then a record of its own. -/
theorem torn_stored {j : MeEventJournal} {disk : Bytes} {event : MeAnalyticsEvent}
    (h : Mirrors j disk) (he : Emittable event) (hlt : j.nextCursor + 1 < 2 ^ 64) (n : ℕ) :
    Stored (disk ++ (lineText (j.nextCursor + 1) event ++ [newline]).take n) j.records ∨
    Stored (disk ++ (lineText (j.nextCursor + 1) event ++ [newline]).take n) (j.records ++
      [⟨j.nextCursor + 1, event, (lineText (j.nextCursor + 1) event).length + 1⟩]) := by
  rcases Nat.lt_or_ge n ((lineText (j.nextCursor + 1) event).length + 1) with hn | hn
  · exact .inl (torn_short h he hn)
  · exact .inr (torn_complete h he hlt hn)

theorem lastCursor_append (rs : List JournalRecord) (r : JournalRecord) :
    lastCursor (rs ++ [r]) = r.cursor := by
  simp [lastCursor]

theorem inv_crashAppend {m : Machine} (h : Inv m) {event : MeAnalyticsEvent} {cut : AppendCut}
    (he : Emittable event) (ht : Tame m (.crashAppend event cut)) :
    Inv (step m (.crashAppend event cut)) := by
  obtain ⟨hacc, hlim⟩ := ht
  unfold step
  cases hj : m.journal with
  | none => exact h
  | some j =>
    obtain ⟨hmir, hread, hc⟩ := h.opened j hj
    obtain ⟨hnext, hkept⟩ := hlim j hj
    have same : NewestKept j → Inv { m with disk := m.disk, journal := none } := fun hk =>
      .release h.increasing hmir.stored hread (by rw [hk]; exact hc)
    simp only
    cases cut with
    | start => exact same hkept
    | compacted =>
      simp only [heldAt] at hkept
      simp only [cutAppend]
      cases hb : beforeWrite j m.disk event with
      | none =>
        rw [hb] at hkept
        exact same hkept
      | some w =>
        obtain ⟨j', disk', line⟩ := w
        rw [hb] at hkept
        obtain ⟨hmir', hnext', hsub, -⟩ := beforeWrite_spec hmir he hb
        have hk : lastCursor j'.records = j.nextCursor := hnext' ▸ hkept
        exact .release h.increasing hmir'.stored (fun r hx => hread r (hsub.subset hx)) (hk ▸ hc)
    | torn n =>
      simp only [heldAt] at hkept
      simp only [cutAppend]
      cases hb : beforeWrite j m.disk event with
      | none =>
        rw [hb] at hkept
        exact same hkept
      | some w =>
        obtain ⟨j', disk', line⟩ := w
        rw [hb] at hkept
        obtain ⟨hmir', hnext', hsub, rfl⟩ := beforeWrite_spec hmir he hb
        have hk : lastCursor j'.records = j.nextCursor := hnext' ▸ hkept
        have hread' : ∀ r ∈ j'.records, Readable r := fun r hx => hread r (hsub.subset hx)
        rw [← hnext']
        have hlt : j'.nextCursor + 1 < 2 ^ 64 := by
          rw [hnext']
          exact lt_trans hnext (by decide)
        rcases torn_stored hmir' he hlt n with hs | hs
        · exact .release h.increasing hs hread' (hk ▸ hc)
        · refine .release h.increasing hs (fun r hr => ?_) (fun c hx => ?_)
          · have hproper := hs.proper r hr
            rcases List.mem_append.mp hr with hr | hr
            · exact hread' r hr
            · rw [List.mem_singleton.mp hr] at hproper ⊢
              exact ⟨hproper, by simpa only [hnext'] using hnext, hacc⟩
          · have := hc c hx
            rw [lastCursor_append]
            simp only
            omega

theorem inv_step {m : Machine} (h : Inv m) {a : Action} (ha : a.Typed) (ht : Tame m a) :
    Inv (step m a) := by
  cases a with
  | «open» maxRecords maxBytes => exact inv_open h maxRecords maxBytes
  | append event => exact inv_append h ha ht
  | close => exact inv_close h ht
  | crash => exact inv_close h ht
  | crashOpen maxRecords maxBytes cut => exact inv_crashOpen h ht
  | crashAppend event cut => exact inv_crashAppend h ha ht

theorem inv_run {m : Machine} (h : Inv m) {actions : List Action} (ha : ∀ a ∈ actions, a.Typed)
    (ht : AllTame m actions) : Inv (run m actions) := by
  induction actions generalizing m with
  | nil => exact h
  | cons a as ih =>
    obtain ⟨ha, has⟩ := List.forall_mem_cons.mp ha
    exact ih (inv_step h ha ht.1) has ht.2

/-- **Cursors are never reused** over any lifetimes and crashes, as long as appended events are ones
the decoder accepts, cursors stay below the first number cJSON alters, and whenever the process
lets go of the journal the newest record is still in the file. -/
theorem cursors_increase {actions : List Action} (ha : ∀ a ∈ actions, a.Typed)
    (ht : AllTame .fresh actions) : (run .fresh actions).issued.Pairwise (· < ·) :=
  (inv_run inv_fresh ha ht).increasing

/-! ### Runs of two lifetimes -/

/-- The second record of the event of `startAt`, of the given phase. -/
def followAt (phase : MeEventPhase) : MeAnalyticsEvent :=
  { startAt 40000000 with phase := phase, eventSeq := 2, reason := .countChanged }

/-- START and UPDATE, a clean restart, and the END in the next lifetime. -/
def cleanRestart : List Action :=
  [.open 8 65536, .append (startAt 40000000), .append (followAt .update), .close, .open 8 65536,
    .append (followAt .end_)]

/-- A full journal whose compaction for the END evicts the newest record, and a crash before the
END is written. -/
def evictedTail : List Action :=
  [.open 2 65536, .append (startAt 40000000), .append (followAt .update),
    .crashAppend (followAt .end_) .compacted, .open 2 65536, .append (followAt .end_)]

theorem followAt_emittable {phase : MeEventPhase} (h : phase = .update ∨ phase = .end_) :
    Emittable (followAt phase) :=
  { startAt_emittable 40000000 (by decide) with
    phase := .inr h
    seq := ⟨Nat.two_pos, by norm_num [followAt]⟩
    reason := by simp [followAt] }

theorem cursors_increase_demo : (run .fresh cleanRestart).issued = [1, 2, 3] ∧
    (run .fresh cleanRestart).issued.Pairwise (· < ·) := by
  refine ⟨by decide +kernel, cursors_increase ?_ (by decide +kernel)⟩
  simp only [cleanRestart, List.forall_mem_cons, Action.Typed]
  exact ⟨trivial, startAt_emittable _ (by decide), followAt_emittable (.inl rfl), trivial, trivial,
    followAt_emittable (.inr rfl), by simp⟩

theorem cursors_reused : (∀ a ∈ evictedTail, a.Typed) ∧
    (run .fresh evictedTail).issued = [1, 2, 2] ∧
    ¬ (run .fresh evictedTail).issued.Pairwise (· < ·) := by
  refine ⟨?_, by decide +kernel⟩
  simp only [evictedTail, List.forall_mem_cons, Action.Typed]
  exact ⟨trivial, startAt_emittable _ (by decide), followAt_emittable (.inl rfl),
    followAt_emittable (.inr rfl), trivial, followAt_emittable (.inr rfl), by simp⟩

end FlowAlarm.Journal
