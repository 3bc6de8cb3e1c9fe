import FlowAlarm.Journal.Representation

/-!
# Replay gaps

`snapshot_after` reports a gap when two neighbouring cursors of what it
returns differ by more than one. Nothing compares the last returned cursor
with `latest_cursor`, so a missing tail is not reported. `replayGap_iff` says
when the report is right, for every journal and every events, readable or not:
only the order of the cursors matters.
-/

namespace FlowAlarm.Journal

open FlowAlarm.Text FlowAlarm.Engine FlowAlarm.Codec

def meEventJournalLatestCursor (j : MeEventJournal) : ℕ := j.nextCursor

/-! ## Cursors of an open journal -/

def cursorsOf (rs : List JournalRecord) : List ℕ := rs.map (·.cursor)

/-- Cursors increase up to `nextCursor`. -/
structure Ordered (j : MeEventJournal) : Prop where
  sorted : (cursorsOf j.records).Pairwise (· < ·)
  bound : ∀ c ∈ cursorsOf j.records, c ≤ j.nextCursor

theorem readLines_sorted (last : ℕ) (lines : List Bytes) :
    Sorted (readLines last lines).1 ∧ ∀ r ∈ (readLines last lines).1, last < r.cursor := by
  induction lines generalizing last with
  | nil => exact ⟨.nil, by simp [readLines]⟩
  | cons l ls ih =>
    rw [readLines]
    split
    · exact ⟨.nil, by simp⟩
    · next r hr =>
      split
      · exact ⟨.nil, by simp⟩
      · next hlt =>
        obtain ⟨hsorted, habove⟩ := ih r.cursor
        refine ⟨List.pairwise_cons.mpr ⟨habove, hsorted⟩, ?_⟩
        refine List.forall_mem_cons.mpr ⟨not_le.mp hlt, fun x hx => ?_⟩
        exact (not_le.mp hlt).trans (habove x hx)

theorem cursorsOf_entries (rs : List JournalRecord) : cursorsOf rs = (entries rs).map Prod.fst := by
  simp [cursorsOf, entries]

/-- Writing renews byte counts only. -/
theorem writeRecords_entries {rs rs' : List JournalRecord} {text : Bytes}
    (h : writeRecords rs = some (rs', text)) : entries rs' = entries rs := by
  induction rs generalizing rs' text with
  | nil =>
    cases h
    rfl
  | cons r rs ih =>
    rw [writeRecords] at h
    split at h
    · next hrs =>
      cases h
      rw [entries, List.map_cons, ← entries, ih hrs]
      rfl
    · cases h

theorem Ordered.of_sublist {j j' : MeEventJournal} (h : Ordered j)
    (hs : (entries j'.records).Sublist (entries j.records))
    (hn : j'.nextCursor = j.nextCursor) : Ordered j' := by
  have hc : (cursorsOf j'.records).Sublist (cursorsOf j.records) := by
    rw [cursorsOf_entries, cursorsOf_entries]
    exact hs.map _
  exact ⟨h.sorted.sublist hc, fun c hx => hn ▸ h.bound c (hc.subset hx)⟩

/-- What an opened journal holds was read from lines of the file. -/
theorem open_entries {disk disk' : Bytes} {maxRecords maxBytes : ℕ} {j : MeEventJournal}
    (h : meEventJournalOpen disk maxRecords maxBytes = (some j, disk')) :
    (entries j.records).Sublist (entries (recover disk).1) ∧
      j.nextCursor = lastCursor (recover disk).1 := by
  unfold meEventJournalOpen at h
  split at h
  · cases h
  generalize recover disk = out at h
  obtain ⟨rs, cut⟩ := out
  simp only at h
  split at h
  · split at h
    · cases h
    · next keep hev =>
      split at h
      · cases h
      · next kept text hw =>
        cases h
        refine ⟨?_, rfl⟩
        rw [writeRecords_entries hw]
        exact (evictWhile_spec hev).1.map _
  · cases h
    exact ⟨List.Sublist.refl _, rfl⟩

theorem ordered_open {disk disk' : Bytes} {maxRecords maxBytes : ℕ} {j : MeEventJournal}
    (h : meEventJournalOpen disk maxRecords maxBytes = (some j, disk')) : Ordered j := by
  obtain ⟨hsub, hnext⟩ := open_entries h
  have hsorted : Sorted (recover disk).1 := (readLines_sorted 0 _).1
  have hfull : Ordered (openedOver maxRecords maxBytes (recover disk).1) := by
    refine ⟨List.pairwise_map.mpr hsorted, fun c hc => ?_⟩
    obtain ⟨r, hr, rfl⟩ := List.mem_map.mp hc
    exact le_lastCursor hsorted r hr
  exact hfull.of_sublist hsub hnext

theorem makeRoom_entries {j j' : MeEventJournal} {disk disk' line : Bytes} {phase : MeEventPhase}
    (h : makeRoom j disk line phase = .ok (j', disk')) :
    (entries j'.records).Sublist (entries j.records) ∧ j'.nextCursor = j.nextCursor := by
  unfold makeRoom at h
  split at h
  · cases h
    exact ⟨List.Sublist.refl _, rfl⟩
  · cases h
  · cases h
  · next keep hkeep =>
    split at h
    · cases h
    · next kept text hw =>
      cases h
      refine ⟨?_, rfl⟩
      rw [writeRecords_entries hw]
      unfold compactToFit at hkeep
      repeat' split at hkeep
      all_goals cases hkeep
      next hev => exact (evictWhile_spec hev).1.map _

/-- Nothing changes among the entries, or the new one is put behind some of the old ones. -/
def AppendsEntry (j : MeEventJournal) (event : MeAnalyticsEvent) :
    AppendResult × MeEventJournal × Bytes → Prop
  | (.ok cursor, j', _) => cursor = j.nextCursor + 1 ∧ j'.nextCursor = cursor ∧
    (meAnalyticsEventToJson event).isSome ∧
    ∃ keep, keep.Sublist (entries j.records) ∧ entries j'.records = keep ++ [(cursor, event)]
  | (_, j', _) => entries j'.records = entries j.records ∧ j'.nextCursor = j.nextCursor

/-- **What an append does to the entries**, whatever the journal holds. -/
theorem append_entries (j : MeEventJournal) (disk : Bytes) (event : MeAnalyticsEvent) :
    AppendsEntry j event (meEventJournalAppend j disk event) := by
  unfold meEventJournalAppend
  split
  · exact ⟨rfl, rfl⟩
  split
  · exact ⟨rfl, rfl⟩
  split
  · exact ⟨rfl, rfl⟩
  next line hline =>
  have hjson : (meAnalyticsEventToJson event).isSome := by
    cases hj : meAnalyticsEventToJson event with
    | none => simp [recordToLine, recordText, hj] at hline
    | some json => rfl
  split
  · exact ⟨rfl, rfl⟩
  · next r hr hm =>
    cases r with
    | dropped => exact absurd rfl hr
    | failed err => exact ⟨rfl, rfl⟩
    | ok c =>
      unfold makeRoom at hm
      split at hm
      · cases hm
      · cases hm
      · cases hm
      · split at hm <;> cases hm
  · next j' disk' hm =>
    obtain ⟨hsub, hnext⟩ := makeRoom_entries hm
    refine ⟨by rw [hnext], rfl, hjson, entries j'.records, hsub, ?_⟩
    simp [entries, pushRecord]

theorem ordered_append {j : MeEventJournal} (h : Ordered j) (disk : Bytes)
    (event : MeAnalyticsEvent) : Ordered (meEventJournalAppend j disk event).2.1 := by
  have happ := append_entries j disk event
  generalize meEventJournalAppend j disk event = out at happ
  obtain ⟨r, j', disk'⟩ := out
  have hsame : entries j'.records = entries j.records ∧ j'.nextCursor = j.nextCursor →
      Ordered j' := fun hs => h.of_sublist (hs.1 ▸ List.Sublist.refl _) hs.2
  cases r with
  | dropped => exact hsame happ
  | failed err => exact hsame happ
  | ok c =>
    obtain ⟨rfl, hnext, -, keep, hsub, hrecs⟩ := happ
    have hcursors : cursorsOf j'.records = keep.map Prod.fst ++ [j.nextCursor + 1] := by
      rw [cursorsOf_entries, hrecs, List.map_append]
      rfl
    have hkeep : (keep.map Prod.fst).Sublist (cursorsOf j.records) := by
      rw [cursorsOf_entries]
      exact hsub.map _
    refine ⟨?_, fun c hc => ?_⟩
    · simp only [hcursors]
      refine List.pairwise_append.mpr ⟨h.sorted.sublist hkeep, by simp, fun a ha b hb => ?_⟩
      rw [List.mem_singleton.mp hb]
      exact Nat.lt_succ_of_le (h.bound a (hkeep.subset ha))
    · simp only [hcursors, List.mem_append, List.mem_singleton] at hc
      simp only [hnext]
      rcases hc with hc | rfl
      · exact (h.bound c (hkeep.subset hc)).trans (Nat.le_succ _)
      · exact le_rfl

theorem ordered_step {m : Machine} (h : ∀ j, m.journal = some j → Ordered j) (a : Action) :
    ∀ j, (step m a).journal = some j → Ordered j := by
  cases a with
  | «open» maxRecords maxBytes =>
    unfold step
    cases hj : m.journal with
    | some j₀ =>
      rw [hj] at h
      rw [hj]
      exact h
    | none => exact fun j hj' => ordered_open (Prod.ext hj' rfl)
  | append event =>
    unfold step
    cases hj : m.journal with
    | none => simp [hj]
    | some j₀ =>
      have happ := ordered_append (h j₀ hj) m.disk event
      simp only
      split
      next heq =>
        rintro j ⟨⟩
        rwa [heq] at happ
      next heq =>
        rintro j ⟨⟩
        rwa [heq] at happ
  | close => simp [step]
  | crash => simp [step]
  | crashOpen maxRecords maxBytes cut =>
    unfold step
    cases hj : m.journal with
    | some j₀ =>
      rw [hj] at h
      rw [hj]
      exact h
    | none => simp
  | crashAppend event cut =>
    unfold step
    cases hj : m.journal with
    | none => simp [hj]
    | some j₀ => simp

theorem ordered_run (actions : List Action) {j : MeEventJournal}
    (h : (run .fresh actions).journal = some j) : Ordered j := by
  have go : ∀ (actions : List Action) (m : Machine), (∀ j, m.journal = some j → Ordered j) →
      ∀ j, (run m actions).journal = some j → Ordered j := by
    intro actions
    induction actions with
    | nil => exact fun m h => h
    | cons a as ih => exact fun m h => ih _ (ordered_step h a)
  exact go actions .fresh (by simp [Machine.fresh]) j h

/-! ## What the gap test sees -/

/-- The test reports exactly the cursors whose predecessor is missing. -/
theorem hasGap_iff {previous : ℕ} {rs : List JournalRecord}
    (hs : (previous :: cursorsOf rs).Pairwise (· < ·)) :
    hasGap previous rs = true ↔
      ∃ c ∈ cursorsOf rs, previous + 1 < c ∧ c - 1 ∉ cursorsOf rs := by
  induction rs generalizing previous with
  | nil => simp [hasGap, cursorsOf]
  | cons r rs ih =>
    have hcons : cursorsOf (r :: rs) = r.cursor :: cursorsOf rs := rfl
    rw [hcons] at hs ⊢
    obtain ⟨habove, hs⟩ := List.pairwise_cons.mp hs
    have hlt := habove r.cursor List.mem_cons_self
    have hafter := (List.pairwise_cons.mp hs).1
    rw [hasGap, Bool.or_eq_true, ih hs, Bool.and_eq_true, decide_eq_true_eq, decide_eq_true_eq]
    constructor
    · rintro (⟨-, hgap⟩ | ⟨c, hc, hgap, hmiss⟩)
      · refine ⟨r.cursor, List.mem_cons_self, by omega, fun hm => ?_⟩
        rcases List.mem_cons.mp hm with heq | hm
        · omega
        · have := hafter _ hm
          omega
      · refine ⟨c, List.mem_cons_of_mem _ hc, by omega, fun hm => ?_⟩
        rcases List.mem_cons.mp hm with heq | hm
        · omega
        · exact hmiss hm
    · rintro ⟨c, hc, hgap, hmiss⟩
      rw [List.mem_cons, not_or] at hmiss
      rcases List.mem_cons.mp hc with rfl | hc
      · exact .inl ⟨hlt, by omega⟩
      · have := hafter c hc
        exact .inr ⟨c, hc, by omega, hmiss.2⟩

/-- The cursors a snapshot returns. -/
def returned (j : MeEventJournal) (after : ℕ) : List ℕ :=
  (meEventJournalSnapshotAfter j after).records.map Prod.fst

theorem mem_returned {j : MeEventJournal} {after c : ℕ} :
    c ∈ returned j after ↔ c ∈ cursorsOf j.records ∧ after < c := by
  simp only [returned, meEventJournalSnapshotAfter, cursorsOf, List.map_map, List.mem_map,
    List.mem_filter, decide_eq_true_eq, Function.comp_apply]
  constructor
  · rintro ⟨r, ⟨hr, hlt⟩, rfl⟩
    exact ⟨⟨r, hr, rfl⟩, hlt⟩
  · rintro ⟨⟨r, hr, rfl⟩, hlt⟩
    exact ⟨r, ⟨hr, hlt⟩, rfl⟩

theorem replayGap_eq_true {j : MeEventJournal} (h : Ordered j) (after : ℕ) :
    (meEventJournalSnapshotAfter j after).replayGap = true ↔
      ∃ c ∈ returned j after, after + 1 < c ∧ c - 1 ∉ returned j after := by
  have hmem : ∀ c, c ∈ cursorsOf (j.records.filter fun r => after < r.cursor) ↔
      c ∈ returned j after := fun c => by
    simp [returned, meEventJournalSnapshotAfter, cursorsOf]
  have hs : (after :: cursorsOf (j.records.filter fun r => after < r.cursor)).Pairwise (· < ·) := by
    refine List.pairwise_cons.mpr ⟨fun c hc => (mem_returned.mp ((hmem c).mp hc)).2, ?_⟩
    exact h.sorted.sublist (List.filter_sublist.map _)
  simp only [meEventJournalSnapshotAfter, hasGap_iff hs, hmem]

/-- Every cursor behind `after` up to the latest is returned. -/
def Complete (j : MeEventJournal) (after : ℕ) : Prop :=
  ∀ c, after < c → c ≤ meEventJournalLatestCursor j → c ∈ returned j after

/-- There is nothing newer, or the newest record is retained, or a retained record behind `after`
has lost its predecessor. -/
def TailVisible (j : MeEventJournal) (after : ℕ) : Prop :=
  after = meEventJournalLatestCursor j ∨ meEventJournalLatestCursor j ∈ cursorsOf j.records ∨
    ∃ c ∈ cursorsOf j.records, after + 1 < c ∧ c - 1 ∉ cursorsOf j.records

/-- Without a gap, the cursors run down from the latest one to `after`. -/
theorem complete_of_noGap {j : MeEventJournal} (h : Ordered j) {after : ℕ}
    (hgap : (meEventJournalSnapshotAfter j after).replayGap = false)
    (hlast : meEventJournalLatestCursor j ∈ cursorsOf j.records) : Complete j after := by
  have hdown : ∀ c ∈ returned j after, after + 1 < c → c - 1 ∈ returned j after := by
    by_contra hc
    push Not at hc
    rw [(replayGap_eq_true h after).mpr hc] at hgap
    cases hgap
  intro c hc hle
  obtain ⟨k, hk⟩ := Nat.exists_eq_add_of_le hle
  induction k generalizing c with
  | zero =>
    rw [← show meEventJournalLatestCursor j = c by omega]
    exact mem_returned.mpr ⟨hlast, by omega⟩
  | succ k ih =>
    have := hdown (c + 1) (ih (c + 1) (by omega) (by omega) (by omega)) (by omega)
    simpa using this

/-- **When the replay gap is reported right**: for every journal reached by any openings, appends,
closings and crashes, and every `after` up to the latest cursor, the report agrees with what is
missing exactly when the tail of the cursors is visible in the queue. -/
theorem replayGap_iff {actions : List Action} {j : MeEventJournal}
    (hj : (run .fresh actions).journal = some j) {after : ℕ}
    (hafter : after ≤ meEventJournalLatestCursor j) :
    ((meEventJournalSnapshotAfter j after).replayGap = false ↔ Complete j after) ↔
      TailVisible j after := by
  have h := ordered_run actions hj
  have hnone : Complete j after → (meEventJournalSnapshotAfter j after).replayGap = false := by
    intro hcomplete
    by_contra hgap
    obtain ⟨c, hc, hlt, hmiss⟩ := (replayGap_eq_true h after).mp (by simpa using hgap)
    have hle := h.bound c (mem_returned.mp hc).1
    exact hmiss (hcomplete (c - 1) (by omega) (by rw [meEventJournalLatestCursor]; omega))
  constructor
  · intro hiff
    rw [TailVisible]
    by_contra hc
    push Not at hc
    obtain ⟨hne, hlast, hholes⟩ := hc
    have hgap : (meEventJournalSnapshotAfter j after).replayGap = false := by
      by_contra hg
      obtain ⟨c, hc, hlt, hmiss⟩ := (replayGap_eq_true h after).mp (by simpa using hg)
      refine hmiss (mem_returned.mpr ⟨?_, by omega⟩)
      exact hholes c (mem_returned.mp hc).1 hlt
    have := hiff.mp hgap (meEventJournalLatestCursor j) (by omega) le_rfl
    exact hlast (mem_returned.mp this).1
  · rintro (rfl | hlast | ⟨c, hc, hlt, hmiss⟩)
    · exact ⟨fun _ c hc hle => absurd hle (by omega), hnone⟩
    · exact ⟨fun hgap => complete_of_noGap h hgap hlast, hnone⟩
    · have hgap := (replayGap_eq_true h after).mpr
        ⟨c, mem_returned.mpr ⟨hc, by omega⟩, hlt, fun hm => hmiss (mem_returned.mp hm).1⟩
      refine ⟨fun hf => ?_, hnone⟩
      rw [hf] at hgap
      cases hgap

/-! ### A recovery with smaller limits -/

/-- START and UPDATE, then a reopening with room for one record. -/
def shrunkReopen : List Action :=
  [.open 8 65536, .append (startAt 40000000), .append (followAt .update), .close, .open 1 65536]

/-- The journal the reopening leaves: the START, with 2 as its latest cursor. -/
def shrunkJournal : MeEventJournal := (run .fresh shrunkReopen).journal.getD (openedOver 1 1 [])

/-- The journal of a clean restart and three appends. -/
def restartedJournal : MeEventJournal := (run .fresh cleanRestart).journal.getD (openedOver 1 1 [])

theorem replayGap_iff_demo : TailVisible restartedJournal 1 ∧
    (((meEventJournalSnapshotAfter restartedJournal 1).replayGap = false ↔
      Complete restartedJournal 1) ↔ TailVisible restartedJournal 1) := by
  obtain ⟨hj, hlatest, hmem⟩ : (run .fresh cleanRestart).journal = some restartedJournal ∧
      1 ≤ meEventJournalLatestCursor restartedJournal ∧
      meEventJournalLatestCursor restartedJournal ∈ cursorsOf restartedJournal.records := by
    decide +kernel
  exact ⟨.inr (.inl hmem), replayGap_iff hj hlatest⟩

/-- The reopening evicted the UPDATE with the latest cursor: the subscriber that has seen the START
is told there is no gap, and does not get cursor 2. -/
theorem replayGap_missed :
    (run .fresh shrunkReopen).journal = some shrunkJournal ∧
    1 ≤ meEventJournalLatestCursor shrunkJournal ∧
    ¬ ((meEventJournalSnapshotAfter shrunkJournal 1).replayGap = false ↔ Complete shrunkJournal 1) := by
  obtain ⟨hj, hlatest, hgap, hreturned⟩ : (run .fresh shrunkReopen).journal = some shrunkJournal ∧
      meEventJournalLatestCursor shrunkJournal = 2 ∧
      (meEventJournalSnapshotAfter shrunkJournal 1).replayGap = false ∧
      returned shrunkJournal 1 = [] := by decide +kernel
  refine ⟨hj, by omega, fun hiff => ?_⟩
  have := hiff.mp hgap 2 (by omega) (by omega)
  rw [hreturned] at this
  cases this

end FlowAlarm.Journal
