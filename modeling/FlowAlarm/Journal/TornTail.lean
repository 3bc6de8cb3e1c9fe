import FlowAlarm.Journal.Representation

/-!
# A torn tail

The file of a journal cut at any byte: the lines that are complete stay, the
rest is a torn line. `torn_tail_recovered` follows such a cut through the
next lifetime: what `open` recovers, the cursors of the appends behind it, and
what the `open` after that returns.
-/

namespace FlowAlarm.Journal

open FlowAlarm.Text FlowAlarm.Num FlowAlarm.CJson FlowAlarm.Engine FlowAlarm.Codec

/-- The records whose line, newline included, lies within the first `n` bytes. -/
def completeIn (n : ℕ) : List JournalRecord → List JournalRecord
  | [] => []
  | r :: rs =>
    if (lineOf r).length ≤ n then r :: completeIn (n - (lineOf r).length) rs else []

theorem completeIn_prefix (n : ℕ) (rs : List JournalRecord) : completeIn n rs <+: rs := by
  induction rs generalizing n with
  | nil => exact List.nil_prefix
  | cons r rs ih =>
    rw [completeIn]
    split
    · exact List.prefix_cons_inj r |>.mpr (ih _)
    · exact List.nil_prefix

/-- **A cut file** is its complete lines and a rest without a newline. -/
theorem take_linesOf {rs : List JournalRecord} (h : ∀ r ∈ rs, Legible r) (n : ℕ) :
    ∃ tail, newline ∉ tail ∧ (linesOf rs).take n = linesOf (completeIn n rs) ++ tail := by
  induction rs generalizing n with
  | nil => exact ⟨[], List.not_mem_nil, by simp [linesOf, completeIn]⟩
  | cons r rs ih =>
    obtain ⟨hr, hrs⟩ := List.forall_mem_cons.mp h
    have hcons : ∀ ss, linesOf (r :: ss) = lineOf r ++ linesOf ss := fun ss => by simp [linesOf]
    rw [completeIn, hcons]
    split
    · next hle =>
      obtain ⟨tail, htail, htake⟩ := ih hrs (n - (lineOf r).length)
      refine ⟨tail, htail, ?_⟩
      rw [List.take_append, List.take_of_length_le hle, htake, hcons, List.append_assoc]
    · next hgt =>
      -- the cut falls into this line, before its newline
      refine ⟨(lineOf r).take n, ?_, ?_⟩
      · rw [hr.lineOf, List.length_append, List.length_singleton] at hgt
        rw [hr.lineOf, List.take_append_of_le_length (by omega)]
        exact fun hx => newline_not_mem_lineText hr.roundTrips.printable (List.mem_of_mem_take hx)
      · rw [List.take_append_of_le_length (by omega)]
        rfl

/-- Records that `open` takes exactly as they are. -/
def Exact (rs : List JournalRecord) : Prop := ∀ r ∈ rs, Legible r ∧ ExactNat r.cursor

/-- A file of exact records within the limits, with or without a torn line, is opened as it is. -/
theorem open_exact {rs : List JournalRecord} {tail : Bytes} (h : Exact rs) (hs : Sorted rs)
    (ht : newline ∉ tail) {maxRecords maxBytes : ℕ} (hpos : 0 < maxRecords ∧ 0 < maxBytes)
    (hcount : rs.length ≤ maxRecords) (hbytes : totalBytes rs ≤ maxBytes) :
    meEventJournalOpen (linesOf rs ++ tail) maxRecords maxBytes =
      (some (openedOver maxRecords maxBytes rs), linesOf rs) := by
  have hleg : ∀ r ∈ rs, Legible r := fun r hr => (h r hr).1
  have hself : List.Forall₂ Reread rs rs :=
    List.forall₂_same.mpr fun r hr => (hleg r hr).reread_self (h r hr).2
  have hread := readLines_all 0 hself hs fun r hr => (hleg r hr).pos
  have hsplit := splitLines_fileOf (fun r hr => (hleg r hr).roundTrips.printable) ht
  have hrec : recover (fileOf rs ++ tail) = (rs, fileOf rs) := by
    simp only [recover, hsplit, hread, Bool.false_or, Prod.mk.injEq, true_and]
    split
    · rw [totalBytes_reread hself, List.take_left]
    · next hc =>
      simp only [bne_iff_ne, ne_eq, not_not] at hc
      rw [hc, List.append_nil]
  have hfits : ¬ (maxRecords < rs.length ∨ maxBytes < totalBytes rs) := by omega
  rw [linesOf_legible hleg, meEventJournalOpen, if_neg (by omega), hrec]
  simp only [if_neg hfits, openedOver]

/-! ## Exactness over a run -/

theorem appendAll_legible {j j' : MeEventJournal} {disk disk' : Bytes}
    {events : List MeAnalyticsEvent} {log : List (ℕ × MeAnalyticsEvent)} (h : Represents j disk)
    (hr : ∀ r ∈ j.records, Legible r) (hn : j.nextCursor < 2 ^ 64) (he : ∀ e ∈ events, RoundTrips e)
    (hrun : appendAll j disk events = (j', disk', log)) : ∀ r ∈ j'.records, Legible r := by
  induction events generalizing j disk log with
  | nil =>
    simp only [appendAll, Prod.mk.injEq] at hrun
    obtain ⟨rfl, -⟩ := hrun
    exact hr
  | cons e es ih =>
    obtain ⟨he, hes⟩ := List.forall_mem_cons.mp he
    obtain ⟨hrep', -⟩ := meEventJournalAppend_represents h e
    obtain ⟨hr', hn'⟩ := append_legible h hr hn he
    rw [appendAll] at hrun
    generalize meEventJournalAppend j disk e = out at hrun hrep' hr' hn'
    obtain ⟨r, j₁, disk₁⟩ := out
    cases r with
    | ok c =>
      simp only [Prod.mk.injEq] at hrun
      obtain ⟨rfl, rfl, rfl⟩ := hrun
      exact ih hrep' hr' hn' hes rfl
    | dropped => exact ih hrep' hr' hn' hes hrun
    | failed err => exact ih hrep' hr' hn' hes hrun

/-- A run of codable events under exact cursors leaves exact records. -/
theorem appendAll_exact {j j' : MeEventJournal} {disk disk' : Bytes}
    {events : List MeAnalyticsEvent} {log : List (ℕ × MeAnalyticsEvent)} (h : Represents j disk)
    (hr : Exact j.records) (hn : j.nextCursor < 2 ^ 64) (he : ∀ e ∈ events, RoundTrips e)
    (hrun : appendAll j disk events = (j', disk', log)) (hlog : ∀ p ∈ log, ExactNat p.1) :
    Exact j'.records := by
  intro r hx
  refine ⟨appendAll_legible h (fun r hr' => (hr r hr').1) hn he hrun r hx, ?_⟩
  obtain ⟨new, rfl, hev⟩ := (appendAll_ran h hrun).extended
  rcases List.mem_append.mp (hev.sublist.subset hx) with hold | hnew
  · exact (hr r hold).2
  · exact hlog (r.cursor, r.event) (List.mem_map_of_mem hnew)

/-- **Torn-tail recovery.** However the file of a session is cut, `open` with the same limits
recovers exactly the records whose line is complete and cuts the file behind them; later appends
continue with the cursor behind the last of these, and the next `open` returns all of it. Events are
ones the codec round-trips, and the cursors given to them are printed exactly. -/
theorem torn_tail_recovered {past : List Action} (hpast : ∀ a ∈ past, a.Codable)
    {maxRecords maxBytes : ℕ} {j₀ j : MeEventJournal} {disk₀ disk : Bytes}
    {events : List MeAnalyticsEvent} {log : List (ℕ × MeAnalyticsEvent)}
    (hopen : meEventJournalOpen (run .fresh past).disk maxRecords maxBytes = (some j₀, disk₀))
    (hevents : ∀ e ∈ events, RoundTrips e) (hrun : appendAll j₀ disk₀ events = (j, disk, log))
    (hlog : ∀ p ∈ log, ExactNat p.1) (n : ℕ) :
    ∃ j₁, meEventJournalOpen (disk.take n) maxRecords maxBytes =
        (some j₁, linesOf (completeIn n j.records)) ∧
      j₁.records = completeIn n j.records ∧
      ∀ (later : List MeAnalyticsEvent) (j₂ : MeEventJournal) (disk₂ : Bytes)
        (log₂ : List (ℕ × MeAnalyticsEvent)), (∀ e ∈ later, RoundTrips e) →
        appendAll j₁ (linesOf (completeIn n j.records)) later = (j₂, disk₂, log₂) →
        (∀ p ∈ log₂, ExactNat p.1) →
          log₂.map Prod.fst =
            List.range' (lastCursor (completeIn n j.records) + 1) log₂.length ∧
          Extended (completeIn n j.records) log₂ j₂.records ∧
          ∃ j₃, meEventJournalOpen disk₂ maxRecords maxBytes = (some j₃, disk₂) ∧
            j₃.records = j₂.records := by
  -- the session leaves exact records within the limits
  obtain ⟨out, hrec, hsorted, hout⟩ := recover_logged (kept_run hpast).logged
  obtain ⟨j₀', hj₀, hrep₀, hev₀, hnext₀, hmr, hmb, hpos⟩ :=
    (meEventJournalOpen_recovered hrec (fun r hr => (hout r hr).1.written) hsorted hopen).resolve_right
      (by simp)
  cases hj₀
  have hn₀ : j₀.nextCursor < 2 ^ 64 := hnext₀ ▸ lastCursor_legible fun r hr => (hout r hr).1
  have hran := appendAll_ran hrep₀ hrun
  have hexact : Exact j.records := appendAll_exact hrep₀
    (fun r hr => hout r (hev₀.sublist.subset hr)) hn₀ hevents hrun hlog
  have hrep := hran.represents
  have hcount : j.records.length ≤ maxRecords := by
    rw [← hmr, ← hran.maxRecords]
    exact hrep.count
  have hbytes : totalBytes j.records ≤ maxBytes := by
    rw [← hmb, ← hran.maxBytes, ← hrep.totalBytes]
    exact hrep.limit
  -- the cut keeps a front of them
  obtain ⟨tail, htail, htake⟩ := take_linesOf (fun r hr => (hexact r hr).1) n
  have hpre := completeIn_prefix n j.records
  generalize completeIn n j.records = front at hpre htake
  have hfront : Exact front := fun r hr => hexact r (hpre.subset hr)
  have hsfront : Sorted front := List.Pairwise.sublist hpre.sublist hrep.sorted
  have hcfront : front.length ≤ maxRecords := hpre.length_le.trans hcount
  have hbfront : totalBytes front ≤ maxBytes :=
    ((hpre.sublist.map _).sum_le_sum (by simp)).trans hbytes
  have hopen₁ := open_exact hfront hsfront htail hpos hcfront hbfront
  refine ⟨_, by rw [hrep.file, htake]; exact hopen₁, rfl, ?_⟩
  intro later j₂ disk₂ log₂ hlater hrun₂ hlog₂
  have hleg : ∀ r ∈ front, Legible r := fun r hr => (hfront r hr).1
  have hrep₁ : Represents (openedOver maxRecords maxBytes front) (linesOf front) :=
    represents_mk (fun r hr => (hleg r hr).written) hcfront rfl hbfront hsfront
      (le_lastCursor hsfront)
  have hran₂ := appendAll_ran hrep₁ hrun₂
  have hexact₂ : Exact j₂.records :=
    appendAll_exact hrep₁ hfront (lastCursor_legible hleg) hlater hrun₂ hlog₂
  have hrep₂ := hran₂.represents
  have hcount₂ : j₂.records.length ≤ maxRecords := 
    hrep₂.count.trans_eq hran₂.maxRecords
  have hbytes₂ : totalBytes j₂.records ≤ maxBytes := by
    rw [← hrep₂.totalBytes]
    exact hrep₂.limit.trans_eq hran₂.maxBytes
  refine ⟨hran₂.cursors, hran₂.extended, openedOver maxRecords maxBytes j₂.records, ?_, rfl⟩
  have hopen₂ := open_exact hexact₂ hrep₂.sorted List.not_mem_nil hpos hcount₂ hbytes₂
  rw [List.append_nil, ← hrep₂.file] at hopen₂
  exact hopen₂

example : (meEventJournalOpen [0x7B] 8 65536).1.map (·.records.length) = some 0 := by
  decide +kernel

/-! ### A cut in the second line -/

theorem startAt_roundTrips : RoundTrips (startAt 40000000) := by
  refine (startAt_emittable _ (by decide)).roundTrips.mpr ?_
  decide +kernel

theorem followAt_roundTrips : RoundTrips (followAt .update) := by
  refine (followAt_emittable (.inl rfl)).roundTrips.mpr ?_
  decide +kernel

/-- START and UPDATE of one event in a fresh file. -/
def startAndUpdate : MeEventJournal × Bytes × List (ℕ × MeAnalyticsEvent) :=
  appendAll (openedOver 8 65536 []) [] [startAt 40000000, followAt .update]

theorem torn_tail_recovered_demo :
    (startAndUpdate.2.1.length = 1087 ∧ entries (completeIn 1086 startAndUpdate.1.records) =
      [(1, startAt 40000000)]) ∧
    ∃ j₁, meEventJournalOpen (startAndUpdate.2.1.take 1086) 8 65536 =
        (some j₁, linesOf (completeIn 1086 startAndUpdate.1.records)) ∧
      j₁.records = completeIn 1086 startAndUpdate.1.records := by
  refine ⟨by decide +kernel, ?_⟩
  have hfresh : meEventJournalOpen (run .fresh []).disk 8 65536 = (some (openedOver 8 65536 []), []) :=
    rfl
  have hevents : ∀ e ∈ [startAt 40000000, followAt .update], RoundTrips e := by
    simp only [List.forall_mem_cons]
    exact ⟨startAt_roundTrips, followAt_roundTrips, by simp⟩
  obtain ⟨j₁, hopen, hrecs, -⟩ := torn_tail_recovered (by simp) hfresh hevents (Prod.eta _).symm
    (by decide +kernel) 1086
  exact ⟨j₁, hopen, hrecs⟩

end FlowAlarm.Journal
