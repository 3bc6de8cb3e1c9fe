import FlowAlarm.Journal.Drops
import FlowAlarm.Journal.ReplayGap

/-!
# Delivery of journal records to subscribers

`engine.c` appends an event to the journal on the analysis worker and hands a
dispatch to the GLib main context; `ipc_server.c` sends it to the subscribed
clients when the main loop comes to it, and replays the journal to a client
when it subscribes. A `Hub` is what both threads share. The worker's append and
its hand-over are two inputs, so that anything may happen in between.

`g_main_context_invoke` queues only while another thread owns the default
context. Once the main loop has quit, the worker acquires it, and so does
`engine_deinit` on the main thread: these deliveries do not wait for the ones
queued before them. `sends_in_order` says when no record overtakes another.
-/

namespace FlowAlarm.Ipc

open FlowAlarm.Text FlowAlarm.Engine FlowAlarm.Codec FlowAlarm.Journal

/-! ## The hub -/

/-- A connected client; `after` is the cursor of its last subscription and `sent` the cursors sent
to it so far. -/
structure IpcClient where
  fd : ℕ
  analyticsSubscribed : Bool
  analyticsAckCursor : ℕ
  after : ℕ
  sent : List ℕ
  deriving DecidableEq

structure AnalyticsEventDispatch where
  cursor : ℕ
  event : MeAnalyticsEvent
  deriving DecidableEq

structure Hub where
  disk : Bytes
  eventJournal : Option MeEventJournal
  /-- The worker has appended this record and not yet handed it over. -/
  appended : Option AnalyticsEventDispatch
  /-- Sources waiting in the main context. -/
  queue : List AnalyticsEventDispatch
  /-- The main loop runs and owns the default context. -/
  loop : Bool
  clients : List IpcClient
  deriving DecidableEq

/-- A record written to a client, with what had been sent to it and what the journal retained. -/
structure Sending where
  fd : ℕ
  after : ℕ
  cursor : ℕ
  already : List ℕ
  retained : List ℕ
  deriving DecidableEq

def retained (m : Hub) : List ℕ :=
  match m.eventJournal with
  | none => []
  | some j => cursorsOf j.records

/-! ## Sending -/

/-- `ipc_send_analytics_record`, unless cursor or event cannot be sent. -/
def ipcSendAnalyticsRecord (kept : List ℕ) (c : IpcClient) (cursor : ℕ) (event : MeAnalyticsEvent) :
    Option (IpcClient × Sending) :=
  if cursor = 0 ∨ (meAnalyticsEventToJson event).isNone then none
  else some ({ c with sent := c.sent ++ [cursor] }, ⟨c.fd, c.after, cursor, c.sent, kept⟩)

/-- One client's part of a broadcast. -/
def notify (kept : List ℕ) (cursor : ℕ) (event : MeAnalyticsEvent) (c : IpcClient) :
    IpcClient × List Sending :=
  if c.analyticsSubscribed then
    match ipcSendAnalyticsRecord kept c cursor event with
    | none => (c, [])
    | some (c, s) => (c, [s])
  else (c, [])

/-- `ipc_server_broadcast_analytics_event`. -/
def broadcast (m : Hub) (cursor : ℕ) (event : MeAnalyticsEvent) : Hub × List Sending :=
  if cursor = 0 then (m, [])
  else
    let out := m.clients.map (notify (retained m) cursor event)
    ({ m with clients := out.map Prod.fst }, out.flatMap Prod.snd)

/-- `deliver_analytics_event`. -/
def deliver (m : Hub) (d : AnalyticsEventDispatch) : Hub × List Sending :=
  broadcast m d.cursor d.event

/-- The replay loop of a subscription, while writes succeed. -/
def replay (kept : List ℕ) : ℕ → List (ℕ × MeAnalyticsEvent) → IpcClient → IpcClient × List Sending
  | _, [], c => (c, [])
  | 0, _ :: _, c => (c, [])
  | writes + 1, (cursor, event) :: rs, c =>
    match ipcSendAnalyticsRecord kept c cursor event with
    | none => (c, [])
    | some (c, s) =>
      let (c, ss) := replay kept writes rs c
      (c, s :: ss)

/-- `ipc_handle_subscribe_events` for the client: subscribed, then sent what is behind `after`. -/
def subscribeClient (j : MeEventJournal) (after writes : ℕ) (c : IpcClient) :
    IpcClient × List Sending :=
  replay (cursorsOf j.records) writes (meEventJournalSnapshotAfter j after).records
    { c with analyticsSubscribed := true, analyticsAckCursor := after, after := after }

/-! ## Inputs -/

inductive Input where
  /-- The worker's event reaches the journal. -/
  | append (event : MeAnalyticsEvent)
  /-- The worker hands its dispatch to the main context. -/
  | invoke
  /-- The main thread dispatches the oldest waiting source. -/
  | dispatch
  | run
  | quit
  | connect (fd : ℕ)
  /-- The connection is closed, by the client or by a failed write. -/
  | close (fd : ℕ)
  /-- A subscription of which `writes` records go out before a write fails. -/
  | subscribe (fd after writes : ℕ)
  | ack (fd cursor : ℕ)
  /-- `engine_deinit`, with the END of an open event if there is one. -/
  | deinit (last : Option MeAnalyticsEvent)

def subscribe (m : Hub) (j : MeEventJournal) (fd after writes : ℕ) : Hub × List Sending :=
  let out := m.clients.map fun c => if c.fd = fd then subscribeClient j after writes c else (c, [])
  let clients := out.map Prod.fst
  -- a failed write closes the connection
  ({ m with clients :=
      if writes < (meEventJournalSnapshotAfter j after).records.length then
        clients.filter fun c => c.fd ≠ fd
      else clients },
    out.flatMap Prod.snd)

/-- `ipc_handle_ack_events`. -/
def ackClient (latest cursor : ℕ) (c : IpcClient) : IpcClient :=
  if !c.analyticsSubscribed ∨ latest < cursor then c
  else { c with analyticsAckCursor := max c.analyticsAckCursor cursor }

def step (m : Hub) : Input → Hub × List Sending
  | .append event =>
    match m.eventJournal, m.appended with
    | some j, none =>
      match meEventJournalAppend j m.disk event with
      | (.ok cursor, j, disk) =>
        ({ m with eventJournal := some j, disk := disk, appended := some ⟨cursor, event⟩ }, [])
      | (_, j, disk) => ({ m with eventJournal := some j, disk := disk }, [])
    | _, _ => (m, [])
  | .invoke =>
    match m.appended with
    | none => (m, [])
    | some d =>
      if m.loop then ({ m with appended := none, queue := m.queue ++ [d] }, [])
      else deliver { m with appended := none } d
  | .dispatch =>
    match m.queue with
    | [] => (m, [])
    | d :: rest => deliver { m with queue := rest } d
  | .run => ({ m with loop := true }, [])
  | .quit => ({ m with loop := false }, [])
  | .connect fd => ({ m with clients := ⟨fd, false, 0, 0, []⟩ :: m.clients }, [])
  | .close fd => ({ m with clients := m.clients.filter fun c => c.fd ≠ fd }, [])
  | .subscribe fd after writes =>
    match m.eventJournal with
    | none => (m, [])
    | some j => subscribe m j fd after writes
  | .ack fd cursor =>
    match m.eventJournal with
    | none => (m, [])
    | some j => ({ m with clients := m.clients.map fun c =>
        if c.fd = fd then ackClient (meEventJournalLatestCursor j) cursor c else c }, [])
  | .deinit last =>
    match m.eventJournal, last with
    | none, _ => (m, [])
    | some _, none => ({ m with eventJournal := none }, [])
    | some j, some event =>
      match meEventJournalAppend j m.disk event with
      | (.ok cursor, j, disk) =>
        let (m, sends) := deliver { m with eventJournal := some j, disk := disk } ⟨cursor, event⟩
        ({ m with eventJournal := none }, sends)
      | (_, _, disk) => ({ m with eventJournal := none, disk := disk }, [])

/-- The state and everything sent, over a run. -/
def run (m : Hub) : List Input → Hub × List Sending
  | [] => (m, [])
  | i :: is =>
    let (m, sends) := step m i
    let (m, later) := run m is
    (m, sends ++ later)

/-- `engine_init` on an event log. -/
def Hub.fresh (disk : Bytes) (maxRecords maxBytes : ℕ) : Hub :=
  { disk := (meEventJournalOpen disk maxRecords maxBytes).2
    eventJournal := (meEventJournalOpen disk maxRecords maxBytes).1
    appended := none, queue := [], loop := false, clients := [] }

/-! ## Records that can be sent -/

/-- `ipc_send_analytics_record` accepts the record. -/
def Sendable (cursor : ℕ) (event : MeAnalyticsEvent) : Prop :=
  cursor ≠ 0 ∧ (meAnalyticsEventToJson event).isSome

theorem ipcSendAnalyticsRecord_sendable {kept : List ℕ} {c : IpcClient} {cursor : ℕ}
    {event : MeAnalyticsEvent} (h : Sendable cursor event) :
    ipcSendAnalyticsRecord kept c cursor event =
      some ({ c with sent := c.sent ++ [cursor] }, ⟨c.fd, c.after, cursor, c.sent, kept⟩) := by
  refine if_neg ?_
  rintro (h0 | hnone)
  · exact h.1 h0
  · rw [Option.isNone_iff_eq_none] at hnone
    have := h.2
    rw [hnone] at this
    cases this

theorem readLines_sendable (last : ℕ) (lines : List Bytes) :
    ∀ r ∈ (readLines last lines).1, Sendable r.cursor r.event := by
  intro r hr
  obtain ⟨hlt, htracks⟩ := (readLines_sound last lines).1 r hr
  exact ⟨by omega, toJson_isSome.mpr htracks⟩

/-! ## The invariant -/

/-- Every record the journal retains behind the client's cursor had been sent to it before. -/
def InOrder (s : Sending) : Prop :=
  ∀ x ∈ s.retained, s.after < x → x < s.cursor → x ∈ s.already

/-- The dispatches on their way to the clients, oldest first. -/
def waiting (m : Hub) : List AnalyticsEventDispatch := m.queue ++ m.appended.toList

def waitingCursors (m : Hub) : List ℕ := (waiting m).map (·.cursor)

/-- The client has been sent everything retained behind its cursor, or it is on its way. -/
def Served (kept pending : List ℕ) (c : IpcClient) : Prop :=
  c.analyticsSubscribed = true → ∀ x ∈ kept, c.after < x → x ∈ c.sent ∨ x ∈ pending

structure Inv (m : Hub) : Prop where
  ordered : ∀ j, m.eventJournal = some j → Ordered j ∧
    (∀ p ∈ entries j.records, Sendable p.1 p.2) ∧ ∀ x ∈ waitingCursors m, x ≤ j.nextCursor
  sorted : (waitingCursors m).Pairwise (· < ·)
  sendable : ∀ d ∈ waiting m, Sendable d.cursor d.event
  served : ∀ c ∈ m.clients, Served (retained m) (waitingCursors m) c

theorem inv_fresh (disk : Bytes) (maxRecords maxBytes : ℕ) :
    Inv (.fresh disk maxRecords maxBytes) := by
  refine ⟨fun j hj => ?_, .nil, by simp [Hub.fresh, waiting], by simp [Hub.fresh]⟩
  have hopen : meEventJournalOpen disk maxRecords maxBytes =
      (some j, (meEventJournalOpen disk maxRecords maxBytes).2) := Prod.ext hj rfl
  refine ⟨ordered_open hopen, fun p hp => ?_, by simp [Hub.fresh, waitingCursors, waiting]⟩
  obtain ⟨r, hr, rfl⟩ := List.mem_map.mp ((open_entries hopen).1.subset hp)
  exact readLines_sendable 0 _ r hr

/-! ## Deliveries -/

theorem notify_sendable {kept : List ℕ} {cursor : ℕ} {event : MeAnalyticsEvent}
    (h : Sendable cursor event) (c : IpcClient) :
    notify kept cursor event c =
      if c.analyticsSubscribed then
        ({ c with sent := c.sent ++ [cursor] }, [⟨c.fd, c.after, cursor, c.sent, kept⟩])
      else (c, []) := by
  rw [notify, ipcSendAnalyticsRecord_sendable h]

/-- What a delivery sends: the cursor, to every subscribed client. -/
theorem deliver_sends {m : Hub} {d : AnalyticsEventDispatch} (h : Sendable d.cursor d.event)
    {s : Sending} (hs : s ∈ (deliver m d).2) :
    ∃ c ∈ m.clients, c.analyticsSubscribed = true ∧
      s = ⟨c.fd, c.after, d.cursor, c.sent, retained m⟩ := by
  rw [deliver, broadcast, if_neg h.1] at hs
  obtain ⟨out, hout, hs⟩ := List.mem_flatMap.mp hs
  obtain ⟨c, hc, rfl⟩ := List.mem_map.mp hout
  rw [notify_sendable h] at hs
  split at hs
  · next hsub => exact ⟨c, hc, hsub, List.mem_singleton.mp hs⟩
  · cases hs

/-- A delivered cursor need not wait any longer. -/
theorem deliver_served {m : Hub} {d : AnalyticsEventDispatch} (h : Sendable d.cursor d.event)
    {kept pending pending' : List ℕ} (hp : ∀ x ∈ pending, x = d.cursor ∨ x ∈ pending')
    (hserved : ∀ c ∈ m.clients, Served kept pending c) :
    ∀ c ∈ (deliver m d).1.clients, Served kept pending' c := by
  rw [deliver, broadcast, if_neg h.1]
  intro c' hc' hsub x hx hlt
  obtain ⟨out, hout, rfl⟩ := List.mem_map.mp hc'
  obtain ⟨c, hc, rfl⟩ := List.mem_map.mp hout
  rw [notify_sendable h] at hsub hlt ⊢
  split at hsub
  · next hcs =>
    simp only [hcs, if_true] at hlt ⊢
    rcases hserved c hc hcs x hx hlt with hsent | hpend
    · exact .inl (List.mem_append_left _ hsent)
    · rcases hp x hpend with rfl | hpend
      · exact .inl (List.mem_append_right _ (List.mem_singleton.mpr rfl))
      · exact .inr hpend
  · next hcs => exact absurd hsub hcs

theorem deliver_rest {m : Hub} {d : AnalyticsEventDispatch} (h : Sendable d.cursor d.event) :
    (deliver m d).1 = { m with clients := (deliver m d).1.clients } := by
  rw [deliver, broadcast, if_neg h.1]

/-- **A delivery keeps the order** when everything older that is still retained has been sent. -/
theorem deliver_inOrder {m : Hub} {d : AnalyticsEventDispatch} (h : Sendable d.cursor d.event)
    (hbefore : ∀ c ∈ m.clients, c.analyticsSubscribed = true → ∀ x ∈ retained m, c.after < x →
      x < d.cursor → x ∈ c.sent) : ∀ s ∈ (deliver m d).2, InOrder s := by
  intro s hs x hx hlt hcur
  obtain ⟨c, hc, hsub, rfl⟩ := deliver_sends h hs
  exact hbefore c hc hsub x hx hlt hcur

/-! ## Subscriptions -/

/-- The replay of ascending records that are all there is behind the cursor. -/
theorem replay_spec {kept : List ℕ} {writes : ℕ} {rs : List (ℕ × MeAnalyticsEvent)} {c : IpcClient}
    (hsend : ∀ p ∈ rs, Sendable p.1 p.2) (hs : (rs.map Prod.fst).Pairwise (· < ·))
    (hall : ∀ x ∈ kept, c.after < x → x ∈ c.sent ∨ x ∈ rs.map Prod.fst) :
    (∀ s ∈ (replay kept writes rs c).2, InOrder s) ∧
      (replay kept writes rs c).1.fd = c.fd ∧
      (rs.length ≤ writes → (replay kept writes rs c).1.after = c.after ∧
        ∀ x ∈ kept, c.after < x → x ∈ (replay kept writes rs c).1.sent) := by
  induction rs generalizing writes c with
  | nil =>
    have hnil : replay kept writes [] c = (c, []) := by cases writes <;> rfl
    rw [hnil]
    refine ⟨by simp, rfl, fun _ => ⟨rfl, fun x hx hlt => ?_⟩⟩
    rcases hall x hx hlt with hsent | hmem
    · exact hsent
    · cases hmem
  | cons p rs ih =>
    obtain ⟨cursor, event⟩ := p
    obtain ⟨hp, hsend⟩ := List.forall_mem_cons.mp hsend
    rw [List.map_cons] at hs hall
    obtain ⟨habove, hs⟩ := List.pairwise_cons.mp hs
    cases writes with
    | zero => exact ⟨by simp [replay], rfl, fun hle => absurd hle (by simp)⟩
    | succ writes =>
      have hall' : ∀ x ∈ kept, c.after < x →
          x ∈ c.sent ++ [cursor] ∨ x ∈ rs.map Prod.fst := by
        intro x hx hlt
        rcases hall x hx hlt with hsent | hmem
        · exact .inl (List.mem_append_left _ hsent)
        · rcases List.mem_cons.mp hmem with rfl | hmem
          · exact .inl (List.mem_append_right _ (List.mem_singleton.mpr rfl))
          · exact .inr hmem
      obtain ⟨hin, hfd, hdone⟩ :=
        @ih writes { c with sent := c.sent ++ [cursor] } hsend hs hall'
      rw [replay, ipcSendAnalyticsRecord_sendable hp]
      refine ⟨List.forall_mem_cons.mpr ⟨fun x hx hlt hcur => ?_, hin⟩, hfd, fun hle => ?_⟩
      · rcases hall x hx hlt with hsent | hmem
        · exact hsent
        · rcases List.mem_cons.mp hmem with rfl | hmem
          · exact absurd hcur (lt_irrefl _)
          · exact absurd hcur (not_lt.mpr (habove x hmem).le)
      · exact hdone (by simpa using hle)

/-! ## Steps -/

/-- Nothing waits that a subscribed client lacks and the journal still retains. -/
def Clear (kept : List ℕ) (pending : List AnalyticsEventDispatch) (clients : List IpcClient) : Prop :=
  ∀ c ∈ clients, c.analyticsSubscribed = true → ∀ d ∈ pending, d.cursor ∈ kept →
    c.after < d.cursor → d.cursor ∈ c.sent

/-- A delivery that does not go through the queue finds nothing waiting: the worker's when the main
loop does not run, and the END of `engine_deinit`. -/
def Unhurried (m : Hub) : Input → Prop
  | .invoke => m.loop = false → m.appended ≠ none → Clear (retained m) m.queue m.clients
  | .deinit (some event) =>
    ∀ j, m.eventJournal = some j → ∀ cursor j' disk,
      meEventJournalAppend j m.disk event = (.ok cursor, j', disk) →
      Clear (cursorsOf j'.records) (waiting m) m.clients
  | _ => True

/-- The parts of the invariant that speak of the journal, after an append. -/
theorem ordered_appended {j j' : MeEventJournal} {disk disk' : Bytes} {event : MeAnalyticsEvent}
    {r : AppendResult} (hord : Ordered j) (hsend : ∀ p ∈ entries j.records, Sendable p.1 p.2)
    (happ : meEventJournalAppend j disk event = (r, j', disk')) :
    Ordered j' ∧ (∀ p ∈ entries j'.records, Sendable p.1 p.2) ∧ j.nextCursor ≤ j'.nextCursor ∧
      (∀ c, r = .ok c → c = j.nextCursor + 1 ∧ j'.nextCursor = c ∧ Sendable c event) ∧
      ∀ x ∈ cursorsOf j'.records, x ∈ cursorsOf j.records ∨ r = .ok x := by
  have hord' := ordered_append hord disk event
  have hent := append_entries j disk event
  rw [happ] at hord' hent
  have hsame : entries j'.records = entries j.records ∧ j'.nextCursor = j.nextCursor →
      (∀ p ∈ entries j'.records, Sendable p.1 p.2) ∧ j.nextCursor ≤ j'.nextCursor ∧
      ∀ x ∈ cursorsOf j'.records, x ∈ cursorsOf j.records := by
    rintro ⟨he, hn⟩
    refine ⟨he ▸ hsend, hn.ge, fun x hx => ?_⟩
    rw [cursorsOf_entries, he] at hx
    rw [cursorsOf_entries]
    exact hx
  cases r with
  | dropped =>
    obtain ⟨h1, h2, h3⟩ := hsame hent
    exact ⟨hord', h1, h2, by simp, fun x hx => .inl (h3 x hx)⟩
  | failed err =>
    obtain ⟨h1, h2, h3⟩ := hsame hent
    exact ⟨hord', h1, h2, by simp, fun x hx => .inl (h3 x hx)⟩
  | ok c =>
    obtain ⟨rfl, hnext, hjson, keep, hsub, hrecs⟩ := hent
    have hnew : Sendable (j.nextCursor + 1) event := ⟨Nat.succ_ne_zero _, hjson⟩
    refine ⟨hord', fun p hp => ?_, by omega, ?_, fun x hx => ?_⟩
    · rw [hrecs] at hp
      rcases List.mem_append.mp hp with hp | hp
      · exact hsend p (hsub.subset hp)
      · rw [List.mem_singleton.mp hp]
        exact hnew
    · rintro c ⟨⟩
      exact ⟨rfl, hnext, hnew⟩
    · rw [cursorsOf_entries, hrecs, List.map_append, List.mem_append] at hx
      rcases hx with hx | hx
      · refine .inl ?_
        rw [cursorsOf_entries]
        exact (hsub.map Prod.fst).subset hx
      · rw [List.map_singleton, List.mem_singleton] at hx
        exact .inr (by rw [hx])

theorem inv_append {m : Hub} (h : Inv m) (event : MeAnalyticsEvent) :
    Inv (step m (.append event)).1 ∧ (step m (.append event)).2 = [] := by
  unfold step
  cases hj : m.eventJournal with
  | none => exact ⟨h, rfl⟩
  | some j =>
    cases ha : m.appended with
    | some d => exact ⟨h, rfl⟩
    | none =>
      obtain ⟨hord, hsend, hbound⟩ := h.ordered j hj
      have hkept : retained m = cursorsOf j.records := by rw [retained, hj]
      have hwait : waiting m = m.queue := by rw [waiting, ha, Option.toList_none, List.append_nil]
      simp only
      cases happ : meEventJournalAppend j m.disk event with
      | mk r out =>
        obtain ⟨j', disk'⟩ := out
        obtain ⟨hord', hsend', hle, hok, horigin⟩ := ordered_appended hord hsend happ
        -- without a record of its own the append may only forget some
        have hsame : (∀ c, r ≠ .ok c) →
            Inv ⟨disk', some j', none, m.queue, m.loop, m.clients⟩ := by
          intro hr
          have hw : waiting ⟨disk', some j', none, m.queue, m.loop, m.clients⟩ = waiting m := by
            rw [hwait]
            exact List.append_nil _
          refine ⟨?_, ?_, hw ▸ h.sendable, fun c hc hsub x hx hlt => ?_⟩
          · rintro j₁ ⟨⟩
            rw [waitingCursors, hw]
            exact ⟨hord', hsend', fun x hx => (hbound x hx).trans hle⟩
          · rw [waitingCursors, hw]
            exact h.sorted
          · rw [waitingCursors, hw]
            rcases horigin x hx with hold | hnew
            · exact h.served c hc hsub x (hkept ▸ hold) hlt
            · exact absurd hnew (hr x)
        cases r with
        | dropped => exact ⟨hsame (by simp), rfl⟩
        | failed err => exact ⟨hsame (by simp), rfl⟩
        | ok cursor =>
          obtain ⟨rfl, hnext, hnew⟩ := hok cursor rfl
          have hw : waiting ⟨disk', some j', some ⟨j.nextCursor + 1, event⟩, m.queue, m.loop,
              m.clients⟩ = waiting m ++ [⟨j.nextCursor + 1, event⟩] := by
            rw [hwait]
            rfl
          show Inv ⟨disk', some j', some ⟨j.nextCursor + 1, event⟩, m.queue, m.loop, m.clients⟩ ∧ _
          refine ⟨⟨?_, ?_, ?_, fun c hc hsub x hx hlt => ?_⟩, rfl⟩
          · rintro j₁ ⟨⟩
            refine ⟨hord', hsend', fun x hx => ?_⟩
            rw [waitingCursors, hw, List.map_append, List.mem_append] at hx
            rcases hx with hx | hx
            · exact (hbound x hx).trans hle
            · rw [List.map_singleton, List.mem_singleton] at hx
              rw [hx, hnext]
          · rw [waitingCursors, hw, List.map_append]
            refine List.pairwise_append.mpr ⟨h.sorted, by simp, fun a ha b hb => ?_⟩
            rw [List.map_singleton, List.mem_singleton] at hb
            rw [hb]
            exact Nat.lt_succ_of_le (hbound a ha)
          · rw [hw]
            intro d hd
            rcases List.mem_append.mp hd with hd | hd
            · exact h.sendable d hd
            · rw [List.mem_singleton.mp hd]
              exact hnew
          · rw [waitingCursors, hw, List.map_append, List.mem_append]
            rcases horigin x hx with hold | hx'
            · rcases h.served c hc hsub x (hkept ▸ hold) hlt with hsent | hpend
              · exact .inl hsent
              · exact .inr (.inl hpend)
            · cases hx'
              exact .inr (.inr (by simp))

/-- A delivery of a dispatch that no longer waits keeps the invariant. -/
theorem inv_deliver {m : Hub} {d : AnalyticsEventDispatch} (hd : Sendable d.cursor d.event)
    (hord : ∀ j, m.eventJournal = some j → Ordered j ∧
      (∀ p ∈ entries j.records, Sendable p.1 p.2) ∧ ∀ x ∈ waitingCursors m, x ≤ j.nextCursor)
    (hsorted : (waitingCursors m).Pairwise (· < ·))
    (hsend : ∀ d ∈ waiting m, Sendable d.cursor d.event) {pending : List ℕ}
    (hp : ∀ x ∈ pending, x = d.cursor ∨ x ∈ waitingCursors m)
    (hserved : ∀ c ∈ m.clients, Served (retained m) pending c) : Inv (deliver m d).1 := by
  have hclients := deliver_served hd hp hserved
  rw [deliver_rest hd]
  exact ⟨hord, hsorted, hsend, hclients⟩

theorem inv_invoke {m : Hub} (h : Inv m) (hu : Unhurried m .invoke) :
    Inv (step m .invoke).1 ∧ ∀ s ∈ (step m .invoke).2, InOrder s := by
  unfold step
  cases ha : m.appended with
  | none => exact ⟨h, by simp⟩
  | some d =>
    have hw : waiting m = m.queue ++ [d] := by rw [waiting, ha, Option.toList_some]
    have hcursors : ∀ x, x ∈ waitingCursors m ↔ x ∈ m.queue.map (·.cursor) ∨ x = d.cursor := by
      simp [waitingCursors, hw]
    have hd : Sendable d.cursor d.event := h.sendable d (by simp [hw])
    dsimp only
    split
    · -- the dispatch joins the queue behind the others
      have hw' : waiting { m with appended := none, queue := m.queue ++ [d] } = waiting m := by
        rw [hw]
        exact List.append_nil _
      refine ⟨⟨?_, ?_, hw' ▸ h.sendable, ?_⟩, by simp⟩
      · rw [waitingCursors, hw']
        exact h.ordered
      · rw [waitingCursors, hw']
        exact h.sorted
      · rw [waitingCursors, hw']
        exact h.served
    · next hloop =>
      have hclear := hu (by simpa using hloop) (by simp [ha])
      have hw' : waiting { m with appended := none } = m.queue := List.append_nil _
      have hsub : (m.queue.map (·.cursor)).Sublist (waitingCursors m) := by
        rw [waitingCursors, hw, List.map_append]
        exact List.sublist_append_left _ _
      refine ⟨inv_deliver hd ?_ ?_ ?_ ?_ h.served, deliver_inOrder hd ?_⟩
      · intro j hj
        obtain ⟨h1, h2, h3⟩ := h.ordered j hj
        rw [waitingCursors, hw']
        exact ⟨h1, h2, fun x hx => h3 x (hsub.subset hx)⟩
      · rw [waitingCursors, hw']
        exact h.sorted.sublist hsub
      · rw [hw']
        exact fun e he => h.sendable e (by rw [hw]; exact List.mem_append_left _ he)
      · intro x hx
        rw [waitingCursors, hw']
        exact ((hcursors x).mp hx).symm
      · intro c hc hcs x hx hlt hcur
        rcases h.served c hc hcs x hx hlt with hsent | hpend
        · exact hsent
        · rcases (hcursors x).mp hpend with hq | rfl
          · obtain ⟨e, he, rfl⟩ := List.mem_map.mp hq
            exact hclear c hc hcs e he hx hlt
          · exact absurd hcur (lt_irrefl _)

theorem inv_dispatch {m : Hub} (h : Inv m) :
    Inv (step m .dispatch).1 ∧ ∀ s ∈ (step m .dispatch).2, InOrder s := by
  unfold step
  cases hq : m.queue with
  | nil => exact ⟨h, by simp⟩
  | cons d rest =>
    have hw : waiting m = d :: waiting { m with queue := rest } := by
      rw [waiting, waiting, hq, List.cons_append]
    have hwc : waitingCursors m = d.cursor :: waitingCursors { m with queue := rest } := by
      rw [waitingCursors, hw]
      rfl
    obtain ⟨habove, hsorted⟩ := List.pairwise_cons.mp (hwc ▸ h.sorted)
    have hd : Sendable d.cursor d.event := h.sendable d (by rw [hw]; exact List.mem_cons_self)
    refine ⟨inv_deliver hd ?_ hsorted ?_ ?_ h.served, deliver_inOrder hd ?_⟩
    · intro j hj
      obtain ⟨h1, h2, h3⟩ := h.ordered j hj
      exact ⟨h1, h2, fun x hx => h3 x (hwc ▸ List.mem_cons_of_mem _ hx)⟩
    · exact fun e he => h.sendable e (by rw [hw]; exact List.mem_cons_of_mem _ he)
    · intro x hx
      rw [hwc] at hx
      exact List.mem_cons.mp hx
    · -- whatever is older than the head of the queue waits no longer
      intro c hc hcs x hx hlt hcur
      rcases h.served c hc hcs x hx hlt with hsent | hpend
      · exact hsent
      · rw [hwc] at hpend
        rcases List.mem_cons.mp hpend with rfl | hpend
        · exact absurd hcur (lt_irrefl _)
        · exact absurd hcur (not_lt.mpr (habove x hpend).le)

theorem inv_subscribe {m : Hub} (h : Inv m) (fd after writes : ℕ) :
    Inv (step m (.subscribe fd after writes)).1 ∧
      ∀ s ∈ (step m (.subscribe fd after writes)).2, InOrder s := by
  unfold step
  cases hj : m.eventJournal with
  | none => exact ⟨h, by simp⟩
  | some j =>
    obtain ⟨hord, hsend, -⟩ := h.ordered j hj
    have hkept : retained m = cursorsOf j.records := by rw [retained, hj]
    -- the snapshot is ascending and all there is behind `after`
    have hspec : ∀ c : IpcClient, (∀ s ∈ (subscribeClient j after writes c).2, InOrder s) ∧
        (subscribeClient j after writes c).1.fd = c.fd ∧
        ((meEventJournalSnapshotAfter j after).records.length ≤ writes →
          Served (cursorsOf j.records) (waitingCursors m) (subscribeClient j after writes c).1) := by
      intro c
      have hrecs : (meEventJournalSnapshotAfter j after).records.map Prod.fst = returned j after := rfl
      have hsub : (meEventJournalSnapshotAfter j after).records.Sublist (entries j.records) :=
        List.filter_sublist.map _
      obtain ⟨hin, hfd, hdone⟩ := @replay_spec (cursorsOf j.records) writes
        (meEventJournalSnapshotAfter j after).records
        { c with analyticsSubscribed := true, analyticsAckCursor := after, after := after }
        (fun p hp => hsend p (hsub.subset hp))
        (by
          have := hsub.map Prod.fst
          rw [← cursorsOf_entries] at this
          exact hord.sorted.sublist this)
        (fun x hx hlt => .inr (by rw [hrecs]; exact mem_returned.mpr ⟨hx, hlt⟩))
      refine ⟨hin, hfd, fun hle _ x hx hlt => ?_⟩
      obtain ⟨hafter, hsent⟩ := hdone hle
      rw [subscribeClient, hafter] at hlt
      exact .inl (hsent x hx hlt)
    simp only [subscribe]
    refine ⟨⟨h.ordered, h.sorted, h.sendable, ?_⟩, ?_⟩
    · rintro c hc
      have hserved : ∀ c ∈ (m.clients.map fun c =>
          if c.fd = fd then subscribeClient j after writes c else (c, [])).map Prod.fst,
          c.fd ≠ fd ∨ (meEventJournalSnapshotAfter j after).records.length ≤ writes →
          Served (retained m) (waitingCursors m) c := by
        intro c' hc' hor
        obtain ⟨out, hout, rfl⟩ := List.mem_map.mp hc'
        obtain ⟨c, hc, rfl⟩ := List.mem_map.mp hout
        by_cases hfd : c.fd = fd
        · simp only [if_pos hfd] at hor ⊢
          rcases hor with hne | hle
          · exact absurd ((hspec c).2.1.trans hfd) hne
          · exact hkept ▸ (hspec c).2.2 hle
        · simp only [if_neg hfd]
          exact h.served c hc
      simp only at hc
      split at hc
      · obtain ⟨hc, hne⟩ := List.mem_filter.mp hc
        exact hserved c hc (.inl (by simpa using hne))
      · next hle => exact hserved c hc (.inr (not_lt.mp hle))
    · intro s hs
      obtain ⟨out, hout, hs⟩ := List.mem_flatMap.mp hs
      obtain ⟨c, hc, rfl⟩ := List.mem_map.mp hout
      split at hs
      · exact (hspec c).1 s hs
      · cases hs

theorem inv_deinit {m : Hub} (h : Inv m) {last : Option MeAnalyticsEvent}
    (hu : Unhurried m (.deinit last)) :
    Inv (step m (.deinit last)).1 ∧ ∀ s ∈ (step m (.deinit last)).2, InOrder s := by
  -- a closed journal retains nothing
  have hclosed : ∀ (disk : Bytes) (clients : List IpcClient),
      Inv { m with disk := disk, eventJournal := none, clients := clients } := fun disk clients =>
    ⟨by simp, h.sorted, h.sendable, fun c _ _ x hx => by cases hx⟩
  unfold step
  cases hj : m.eventJournal with
  | none => exact ⟨h, by simp⟩
  | some j =>
    cases last with
    | none => exact ⟨hclosed m.disk m.clients, by simp⟩
    | some event =>
      obtain ⟨hord, hsend, -⟩ := h.ordered j hj
      have hkept : retained m = cursorsOf j.records := by rw [retained, hj]
      simp only
      cases happ : meEventJournalAppend j m.disk event with
      | mk r out =>
        obtain ⟨j', disk'⟩ := out
        obtain ⟨-, -, -, hok, horigin⟩ := ordered_appended hord hsend happ
        cases r with
        | dropped => exact ⟨hclosed disk' m.clients, by simp⟩
        | failed err => exact ⟨hclosed disk' m.clients, by simp⟩
        | ok cursor =>
          obtain ⟨-, -, hnew⟩ := hok cursor rfl
          have hclear := hu j hj cursor j' disk' happ
          simp only
          refine ⟨?_, deliver_inOrder hnew ?_⟩
          · rw [deliver_rest hnew]
            exact hclosed disk' _
          · intro c hc hcs x hx hlt hcur
            have hold : x ∈ cursorsOf j.records := (horigin x hx).resolve_right (by
              rintro ⟨⟩
              exact lt_irrefl _ hcur)
            rcases h.served c hc hcs x (hkept ▸ hold) hlt with hsent | hpend
            · exact hsent
            · obtain ⟨e, he, rfl⟩ := List.mem_map.mp hpend
              exact hclear c hc hcs e he hx hlt

theorem Inv.withClients {m : Hub} (h : Inv m) {clients : List IpcClient}
    (hc : ∀ c ∈ clients, Served (retained m) (waitingCursors m) c) :
    Inv { m with clients := clients } := ⟨h.ordered, h.sorted, h.sendable, hc⟩

theorem ackClient_served {kept pending : List ℕ} {c : IpcClient} (h : Served kept pending c)
    (latest cursor : ℕ) : Served kept pending (ackClient latest cursor c) := by
  unfold ackClient
  split
  · exact h
  · exact h

theorem inv_step {m : Hub} (h : Inv m) {i : Input} (hu : Unhurried m i) :
    Inv (step m i).1 ∧ ∀ s ∈ (step m i).2, InOrder s := by
  cases i with
  | append event =>
    obtain ⟨hinv, hnone⟩ := inv_append h event
    exact ⟨hinv, by simp [hnone]⟩
  | invoke => exact inv_invoke h hu
  | dispatch => exact inv_dispatch h
  | run => exact ⟨⟨h.ordered, h.sorted, h.sendable, h.served⟩, by simp [step]⟩
  | quit => exact ⟨⟨h.ordered, h.sorted, h.sendable, h.served⟩, by simp [step]⟩
  | connect fd =>
    have hnew : Served (retained m) (waitingCursors m) ⟨fd, false, 0, 0, []⟩ := by
      intro hsub
      cases hsub
    exact ⟨h.withClients (List.forall_mem_cons.mpr ⟨hnew, h.served⟩), by simp [step]⟩
  | close fd =>
    exact ⟨h.withClients fun c hc => h.served c (List.mem_filter.mp hc).1, by simp [step]⟩
  | subscribe fd after writes => exact inv_subscribe h fd after writes
  | ack fd cursor =>
    unfold step
    dsimp only
    split
    · exact ⟨h, by simp⟩
    · refine ⟨h.withClients fun c' hc' => ?_, by simp⟩
      obtain ⟨c, hc, rfl⟩ := List.mem_map.mp hc'
      split
      · exact ackClient_served (h.served c hc) _ _
      · exact h.served c hc
  | deinit last => exact inv_deinit h hu

def AllUnhurried (m : Hub) : List Input → Prop
  | [] => True
  | i :: is => Unhurried m i ∧ AllUnhurried (step m i).1 is

theorem inv_run {m : Hub} (h : Inv m) {inputs : List Input} (hu : AllUnhurried m inputs) :
    ∀ s ∈ (run m inputs).2, InOrder s := by
  induction inputs generalizing m with
  | nil => simp [run]
  | cons i is ih =>
    obtain ⟨hinv, hnow⟩ := inv_step h hu.1
    intro s hs
    rcases List.mem_append.mp hs with hs | hs
    · exact hnow s hs
    · exact ih hinv hu.2 s hs

/-- **Gap-free order.** Over any interleaving of the worker's appends and hand-overs, dispatches,
subscriptions, acknowledgements, connections and the shutdown, every record sent to a client finds
all older retained ones behind the client's cursor already sent, as long as no delivery bypasses the
queue while it still holds one of them. -/
theorem sends_in_order {disk : Bytes} {maxRecords maxBytes : ℕ} {inputs : List Input}
    (hu : AllUnhurried (.fresh disk maxRecords maxBytes) inputs) :
    ∀ s ∈ (run (.fresh disk maxRecords maxBytes) inputs).2, InOrder s :=
  inv_run (inv_fresh disk maxRecords maxBytes) hu

example : (run (.fresh [] 8 65536) [.run, .connect 3, .subscribe 3 0 0]).2 = [] := by
  decide +kernel

/-! ### A shutdown -/

/-- A client is sent the START through the queue, and the END at shutdown. -/
def drainedShutdown : List Input :=
  [.run, .connect 3, .subscribe 3 0 0, .append (startAt 40000000), .invoke, .dispatch, .quit,
    .deinit (some (followAt .end_))]

/-- The loop quits before it comes to the START. -/
def hurriedShutdown : List Input :=
  [.run, .connect 3, .subscribe 3 0 0, .append (startAt 40000000), .invoke, .quit,
    .deinit (some (followAt .end_)), .dispatch]

theorem sends_in_order_demo :
    ((run (.fresh [] 8 65536) drainedShutdown).2.map fun s => (s.fd, s.cursor)) = [(3, 1), (3, 2)] ∧
    ∀ s ∈ (run (.fresh [] 8 65536) drainedShutdown).2, InOrder s := by
  have hu : AllUnhurried (.fresh [] 8 65536) drainedShutdown := by
    refine ⟨trivial, trivial, trivial, trivial, fun hloop => ?_, trivial, trivial,
      fun j _ cursor j' disk _ c _ _ d hd => ?_, trivial⟩
    · exact absurd hloop (by decide +kernel)
    · have hempty : waiting ((run (.fresh [] 8 65536) (drainedShutdown.take 7)).1) = [] := by
        decide +kernel
      have hmem : d ∈ waiting ((run (.fresh [] 8 65536) (drainedShutdown.take 7)).1) := hd
      rw [hempty] at hmem
      cases hmem
  exact ⟨by decide +kernel, sends_in_order hu⟩

/-- The END that `engine_deinit` emits on the main thread overtakes the START still in the queue: it
is sent while the START is retained and unsent, and the START follows. -/
theorem end_overtakes_start :
    (run (.fresh [] 8 65536) hurriedShutdown).2 =
      [⟨3, 0, 2, [], [1, 2]⟩, ⟨3, 0, 1, [2], []⟩] ∧
    ¬ ∀ s ∈ (run (.fresh [] 8 65536) hurriedShutdown).2, InOrder s := by
  have hsends : (run (.fresh [] 8 65536) hurriedShutdown).2 =
      [⟨3, 0, 2, [], [1, 2]⟩, ⟨3, 0, 1, [2], []⟩] := by decide +kernel
  refine ⟨hsends, fun hall => ?_⟩
  have := hall ⟨3, 0, 2, [], [1, 2]⟩ (by rw [hsends]; exact List.mem_cons_self) 1 (by decide)
    (by decide) (by decide)
  cases this

end FlowAlarm.Ipc
