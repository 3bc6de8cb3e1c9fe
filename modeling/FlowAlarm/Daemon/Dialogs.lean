import FlowAlarm.Daemon.Orphans

/-!
# INVITE dialogs

The inbound side of `sipua/ua.go`: each INVITE is handled on its own goroutine,
which reserves the media slot, answers 200 and waits for the ACK that another
goroutine hands over through `ackChans`, while BYEs, the lease loop and the
engine go on. `step` lets one of them take its next step.

* `start_follows_ack`: media starts only after the ACK of this very 200, and not
  after a BYE.
* `no_reservation_leaks`: what is left once no INVITE is being handled.
-/

namespace FlowAlarm.Sipua

open FlowAlarm.Text FlowAlarm.App

/-! ## The user agent -/

/-- What `handleInvite` does next. -/
inductive Phase where
  | prepare
  | register
  | respond
  | waiting
  | accept
  /-- `InviteFailed`; a dialog that was confirmed is then ended by a BYE. -/
  | failed (confirmed : Bool)
  | hangUp
  /-- The deferred removal from `ackChans`. -/
  | release
  deriving DecidableEq

/-- An INVITE being handled; `id` also names its channel. -/
structure Dialog where
  id : ℕ
  info : InviteInfo
  phase : Phase

structure UA where
  app : App.World
  ackChans : List (Bytes × ℕ)
  dialogs : List Dialog
  /-- Channels that `handleAck` has looked up and not sent to yet. -/
  acks : List ℕ
  /-- Channels with a value in their buffer of one. -/
  signals : List ℕ
  next : ℕ

def UA.fresh (boot : Live.Boot) : UA := ⟨App.World.fresh boot, [], [], [], [], 0⟩

def UA.setPhase (u : UA) (id : ℕ) (phase : Phase) : UA :=
  { u with dialogs := u.dialogs.map fun d => if d.id = id then { d with phase := phase } else d }

def UA.drop (u : UA) (id : ℕ) : UA := { u with dialogs := u.dialogs.filter fun d => d.id ≠ id }

/-- What a waiting handler is woken by. -/
inductive Wake where
  | acked
  | timedOut
  | ended
  deriving DecidableEq

/-- What a step of a handler meets. -/
structure Turn where
  script : List Call
  now : ℤ
  responded : Bool
  wake : Wake

/-- What the user agent shows: the refusal of an INVITE, a reservation, a 200, an ACK that came in,
a start of media, a BYE sent for a dialog that failed, and a BYE of the platform that was handled. -/
inductive Shown where
  | refused (callID : Bytes) (busy : Bool)
  | reserved (id : ℕ) (callID : Bytes)
  | answered (id : ℕ) (callID : Bytes)
  | acked (callID : Bytes)
  | started (id : ℕ) (callID : Bytes)
  | hungUp (callID : Bytes)
  | ended (callID : Bytes)
  deriving DecidableEq

/-- `errors.Is(err, ErrBusy)`. -/
def isBusy : InviteErr → Bool
  | .busy _ | .anotherPending => true
  | _ => false

/-- The next step of `handleInvite`. -/
def proceed (cfg : Config) (t : Turn) (d : Dialog) (u : UA) : UA × List Shown :=
  match d.phase with
  | .prepare =>
    match prepareInvite cfg d.info ⟨u.app, t.script⟩ with
    | (some err, a) => ({ u.drop d.id with app := a.world }, [.refused d.info.callID (isBusy err)])
    | (none, a) =>
      ({ u.setPhase d.id .register with app := a.world }, [.reserved d.id d.info.callID])
  | .register =>
    ({ u.setPhase d.id .respond with
        ackChans := Keyed.insert Prod.fst (d.info.callID, d.id) u.ackChans }, [])
  | .respond =>
    if t.responded then (u.setPhase d.id .waiting, [.answered d.id d.info.callID])
    else (u.setPhase d.id (.failed false), [])
  | .waiting =>
    match t.wake with
    | .acked =>
      if d.id ∈ u.signals then
        ({ u.setPhase d.id .accept with signals := u.signals.filter (· ≠ d.id) }, [])
      else (u, [])
    | .timedOut | .ended => (u.setPhase d.id (.failed false), [])
  | .accept =>
    match inviteAccepted cfg d.info t.now ⟨u.app, t.script⟩ with
    | (none, a) =>
      ({ u.setPhase d.id .release with app := a.world }, [.started d.id d.info.callID])
    | (some err, a) =>
      ({ u.setPhase d.id (.failed true) with app := a.world },
        if err = .cancelledBeforeAck d.info.callID then [] else [.started d.id d.info.callID])
  | .failed confirmed =>
    ({ u.setPhase d.id (if confirmed then .hangUp else .release) with
        app := (inviteFailed d.info ⟨u.app, []⟩).world }, [])
  | .hangUp => (u.setPhase d.id .release, [.hungUp d.info.callID])
  | .release =>
    ({ u.drop d.id with ackChans := Keyed.erase Prod.fst d.info.callID u.ackChans }, [])

inductive Input where
  /-- The daemon starts anew. -/
  | start (script : List Call)
  | invite (info : InviteInfo)
  | proceed (id : ℕ) (t : Turn)
  /-- An ACK comes in and is looked up. -/
  | ack (callID : Bytes)
  /-- `handleAck` sends to the channel it found. -/
  | signal (id : ℕ)
  | bye (callID : Bytes) (script : List Call)
  | leaseTick (now : ℤ) (script : List Call)
  | keepaliveFailure (script : List Call)
  | engine (event : Event)

/-- A handler of the user agent runs only after `reconcileMedia` has succeeded. -/
def step (cfg : Config) (u : UA) : Input → UA × List Shown
  | .start script => (⟨App.step cfg u.app (.start script), [], [], [], [], u.next⟩, [])
  | .invite info =>
    if u.app.registered then
      ({ u with dialogs := ⟨u.next, info, .prepare⟩ :: u.dialogs, next := u.next + 1 }, [])
    else (u, [])
  | .proceed id t =>
    match Keyed.lookup Dialog.id id u.dialogs with
    | none => (u, [])
    | some d => proceed cfg t d u
  | .ack callID =>
    match Keyed.lookup Prod.fst callID u.ackChans with
    | none => (u, [.acked callID])
    | some (_, id) => ({ u with acks := id :: u.acks }, [.acked callID])
  | .signal id =>
    if id ∈ u.acks then
      ({ u with
          acks := u.acks.erase id
          signals := if id ∈ u.signals then u.signals else id :: u.signals }, [])
    else (u, [])
  | .bye callID script =>
    ({ u with app := App.step cfg u.app (.bye callID script) },
      if u.app.registered then [.ended callID] else [])
  | .leaseTick now script => ({ u with app := App.step cfg u.app (.leaseTick now script) }, [])
  | .keepaliveFailure script =>
    ({ u with app := App.step cfg u.app (.keepaliveFailure script) }, [])
  | .engine event => ({ u with app := App.step cfg u.app (.engine event) }, [])

/-- The Call-IDs of an input satisfy `ids`. -/
def Input.Names (ids : Bytes → Prop) : Input → Prop
  | .invite info => ids info.callID
  | .bye callID _ => ids callID
  | _ => True

/-- The user agents that runs reach, with what was shown on the way. -/
inductive Trace (cfg : Config) (ids : Bytes → Prop) : List Shown → UA → Prop where
  | fresh {boot : Live.Boot} : Trace cfg ids [] (.fresh boot)
  | step {shown : List Shown} {u : UA} {i : Input} : Trace cfg ids shown u → i.Names ids →
      Trace cfg ids (shown ++ (step cfg u i).2) (step cfg u i).1

/-! ## Reservations -/

theorem isPending_erase (m : Manager) (k c : Bytes) :
    Manager.isPending (Keyed.erase Entry.callID k m) c = if c = k then false else m.isPending c := by
  rw [Manager.isPending, Manager.find, Keyed.lookup_erase]
  by_cases h : c = k
  · rw [if_pos h, if_pos h]
  · rw [if_neg h, if_neg h]
    rfl

theorem isPending_insert (m : Manager) (e : Entry) (c : Bytes) :
    Manager.isPending (Keyed.insert Entry.callID e m) c =
      if e.callID = c then e.state == .pending else m.isPending c := by
  rw [Manager.isPending, Manager.find, Keyed.lookup_insert]
  by_cases h : e.callID = c
  · rw [if_pos h, if_pos h]
  · rw [if_neg h, if_neg h]
    rfl

/-- No reservation is made. -/
def Fewer (m m' : Manager) : Prop := ∀ c, m'.isPending c = true → m.isPending c = true

theorem Fewer.refl (m : Manager) : Fewer m m := fun _ h => h

theorem Fewer.trans {a b c : Manager} (h : Fewer a b) (h' : Fewer b c) : Fewer a c :=
  fun x hx => h x (h' x hx)

theorem fewer_erase (m : Manager) (k : Bytes) : Fewer m (Keyed.erase Entry.callID k m) := by
  intro c hc
  rw [isPending_erase] at hc
  split at hc
  · cases hc
  · exact hc

theorem fewer_insert {m : Manager} {e : Entry} (he : e.state ≠ .pending) :
    Fewer m (Keyed.insert Entry.callID e m) := by
  intro c hc
  rw [isPending_insert] at hc
  split at hc
  · exact absurd (eq_of_beq hc) he
  · exact hc

theorem not_pending_of_find {m : Manager} {c : Bytes} (h : m.find c = none) :
    m.isPending c = false := by
  rw [Manager.isPending, h]

/-- `Stop` lets go of the call. -/
theorem stop_pending (m : Manager) (c : Bytes) :
    Fewer m (m.stop c).2 ∧ (m.stop c).2.isPending c = false := by
  unfold Manager.stop
  cases h : m.find c with
  | none => exact ⟨.refl m, not_pending_of_find h⟩
  | some e =>
    refine ⟨fewer_erase m c, ?_⟩
    rw [isPending_erase, if_pos rfl]

theorem markCleanup_pending (m : Manager) (c : Bytes) :
    Fewer m (m.markCleanup c).2 ∧ (m.markCleanup c).2.isPending c = false := by
  unfold Manager.markCleanup
  cases h : m.find c with
  | none => exact ⟨.refl m, not_pending_of_find h⟩
  | some e =>
    refine ⟨fewer_insert State.noConfusion, ?_⟩
    have hkey : e.callID = c := Keyed.lookup_key h
    rw [isPending_insert]
    exact if_pos hkey

theorem cancel_pending (m : Manager) (c : Bytes) :
    Fewer m (m.cancel c).2 ∧ (m.cancel c).2.isPending c = false := by
  unfold Manager.cancel
  cases h : m.find c with
  | none => exact ⟨.refl m, not_pending_of_find h⟩
  | some e =>
    dsimp only
    split
    next hne =>
      refine ⟨.refl m, ?_⟩
      rw [Manager.isPending, h]
      exact beq_eq_false_iff_ne.mpr hne
    · refine ⟨fewer_erase m c, ?_⟩
      rw [isPending_erase, if_pos rfl]

theorem activate_pending {m m' : Manager} {c : Bytes} {now : ℤ} {l : Live}
    (h : m.activate c now = (some l, m')) : Fewer m m' ∧ m'.isPending c = false := by
  unfold Manager.activate at h
  cases hf : m.find c with
  | none => simp [hf] at h
  | some e =>
    simp only [hf] at h
    split at h
    · cases h
    · cases h
      have hkey : e.callID = c := Keyed.lookup_key hf
      refine ⟨fewer_insert State.noConfusion, ?_⟩
      rw [isPending_insert]
      exact if_pos hkey

theorem reserve_pending {m m' : Manager} {c : Bytes} {l : Live} (h : m.reserve c l = (true, m')) :
    ∀ x, m'.isPending x = true → x = c ∨ m.isPending x = true := by
  unfold Manager.reserve at h
  split at h
  · cases h
  split at h
  · cases h
  cases h
  intro x hx
  rw [isPending_insert] at hx
  split at hx
  next heq => exact .inl heq.symm
  · exact .inr hx

/-! ## The handlers of the app -/

theorem stopLive_sessions {id : Bytes} {t t' : App.Turn} {r : Option RpcErr}
    (h : stopLive id t = (r, t')) : t'.world.sessions = t.world.sessions :=
  (callOk_called h).sessions

theorem bye_pending (callID : Bytes) (t : App.Turn) :
    Fewer t.world.sessions (bye callID t).world.sessions ∧
      (bye callID t).world.sessions.isPending callID = false := by
  unfold bye
  split
  next t' hstop =>
    rw [← stopLive_sessions hstop]
    exact markCleanup_pending _ _
  next t' hstop =>
    rw [← stopLive_sessions hstop]
    exact stop_pending _ _

theorem stopOwned_fewer (lives : List Live) (t : App.Turn) :
    Fewer t.world.sessions (lives.foldl stopOwned t).world.sessions := by
  induction lives generalizing t with
  | nil => exact .refl _
  | cons live lives ih => exact (bye_pending live.callID t).1.trans (ih _)

theorem leaseOne_fewer (cfg : Config) (now : ℤ) (t : App.Turn) (live : Live) :
    Fewer t.world.sessions (leaseOne cfg now t live).world.sessions := by
  unfold leaseOne
  split
  · exact stopOwned_fewer _ _
  split
  · exact .refl _
  split
  · exact stopOwned_fewer _ _
  split
  next t₁ hkeep =>
    rw [show t₁.world.sessions = t.world.sessions from (callOk_called hkeep).sessions]
    exact .refl _
  next t₁ hkeep =>
    have hs₁ : t₁.world.sessions = t.world.sessions := (callOk_called hkeep).sessions
    split
    next t₂ hstatus =>
      rw [(status_called hstatus).1.sessions, hs₁]
      exact .refl _
    next t₂ hstatus =>
      have hs₂ := (status_called hstatus).1.sessions.trans hs₁
      split
      · rw [← hs₂]
        exact (stop_pending _ _).1
      · rw [hs₂]
        exact .refl _

theorem leaseTick_fewer (cfg : Config) (now : ℤ) (t : App.Turn) :
    Fewer t.world.sessions (leaseTick cfg now t).world.sessions := by
  unfold leaseTick
  generalize t.world.sessions.all = lives
  induction lives generalizing t with
  | nil => exact .refl _
  | cons live lives ih => exact (leaseOne_fewer cfg now t live).trans (ih _)

theorem releaseUnowned_sessions {st : Live.Status} {t t' : App.Turn}
    {r : Except InviteErr Live.Status} (h : releaseUnowned st t = (r, t')) :
    t'.world.sessions = t.world.sessions := by
  unfold releaseUnowned at h
  split at h
  · split at h
    next hstop =>
      cases h
      exact stopLive_sessions hstop
    next t₁ hstop =>
      split at h
      next hstatus =>
        cases h
        exact (status_called hstatus).1.sessions.trans (stopLive_sessions hstop)
      next hstatus =>
        cases h
        exact (status_called hstatus).1.sessions.trans (stopLive_sessions hstop)
  · cases h
    rfl

/-- `PrepareInvite` reserves for its call or changes no reservation. -/
theorem prepareInvite_pending {cfg : Config} {info : InviteInfo} {t t' : App.Turn}
    {r : Option InviteErr} (h : prepareInvite cfg info t = (r, t')) {c : Bytes}
    (hc : t'.world.sessions.isPending c = true) :
    (c = info.callID ∧ r = none) ∨ t.world.sessions.isPending c = true := by
  unfold prepareInvite at h
  split at h
  · cases h
    exact .inr hc
  split at h
  next hstatus =>
    cases h
    rw [(status_called hstatus).1.sessions] at hc
    exact .inr hc
  next t₁ hstatus =>
    have hs₁ := (status_called hstatus).1.sessions
    split at h
    next hrel =>
      cases h
      rw [releaseUnowned_sessions hrel, hs₁] at hc
      exact .inr hc
    next t₂ hrel =>
      have hs₂ := (releaseUnowned_sessions hrel).trans hs₁
      split at h
      · cases h
        rw [hs₂] at hc
        exact .inr hc
      · split at h
        · cases h
          rw [hs₂] at hc
          exact .inr hc
        next hres =>
          cases h
          rcases reserve_pending hres c hc with heq | hold
          · exact .inl ⟨heq, rfl⟩
          · rw [hs₂] at hold
            exact .inr hold

/-- `InviteAccepted` starts media for a pending call only, and makes no reservation; if it returns
nil the call has left the pending state. -/
theorem inviteAccepted_pending {cfg : Config} {info : InviteInfo} {now : ℤ} {t t' : App.Turn}
    {r : Option InviteErr} (h : inviteAccepted cfg info now t = (r, t')) :
    Fewer t.world.sessions t'.world.sessions ∧
      (r ≠ some (.cancelledBeforeAck info.callID) →
        t.world.sessions.isPending info.callID = true) ∧
      (r = none → t'.world.sessions.isPending info.callID = false) := by
  unfold inviteAccepted at h
  split at h
  · cases h
    exact ⟨.refl _, fun hne => absurd rfl hne, (fun hr => by cases hr)⟩
  next hpend =>
    have hpend' : t.world.sessions.isPending info.callID = true := by
      rw [not_or, Bool.not_eq_true, Bool.not_eq_false'] at hpend
      exact hpend.2
    split at h
    next t₁ hstart =>
      have hs₁ : t₁.world.sessions = t.world.sessions := (callOk_called hstart).sessions
      split at h
      next t₂ hstop =>
        cases h
        have hs₂ := (stopLive_sessions hstop).trans hs₁
        refine ⟨?_, fun _ => hpend', (fun hr => by cases hr)⟩
        rw [← hs₂]
        exact (markCleanup_pending _ _).1
      next t₂ hstop =>
        cases h
        have hs₂ := (stopLive_sessions hstop).trans hs₁
        refine ⟨?_, fun _ => hpend', (fun hr => by cases hr)⟩
        rw [← hs₂]
        exact (cancel_pending _ _).1
    next t₁ hstart =>
      have hs₁ : t₁.world.sessions = t.world.sessions := (callOk_called hstart).sessions
      split at h
      · cases h
        refine ⟨?_, fun _ => hpend', (fun hr => by cases hr)⟩
        rw [← hs₁]
        exact (markCleanup_pending _ _).1
      next hact =>
        cases h
        obtain ⟨hfewer, hgone⟩ := activate_pending hact
        rw [hs₁] at hfewer
        exact ⟨hfewer, fun _ => hpend', fun _ => hgone⟩

theorem reconcileMedia_sessions {t t' : App.Turn} {ok : Bool} (h : reconcileMedia t = (ok, t')) :
    t'.world.sessions = t.world.sessions := by
  unfold reconcileMedia at h
  split at h
  next hstatus =>
    cases h
    exact (status_called hstatus).1.sessions
  next t₁ hstatus =>
    have hs₁ := (status_called hstatus).1.sessions
    split at h
    · cases h
      exact hs₁
    split at h
    · cases h
      exact hs₁
    split at h
    next hstop =>
      cases h
      exact (stopLive_sessions hstop).trans hs₁
    next hstop =>
      cases h
      exact (stopLive_sessions hstop).trans hs₁

theorem start_sessions (cfg : Config) (w : App.World) (script : List Call) :
    (App.step cfg w (.start script)).sessions = [] :=
  reconcileMedia_sessions (t := ⟨{ w with registered := false, sessions := [] }, script⟩) rfl

/-! ## What was shown -/

/-- An ACK of the call came in after the reservation of this handler. -/
def AckedSince (id : ℕ) (c : Bytes) (shown : List Shown) : Prop :=
  ∃ a b, shown = a ++ .reserved id c :: b ∧ .acked c ∈ b

/-- No BYE of the call was handled since its last reservation. -/
def OpenFor (c : Bytes) (shown : List Shown) : Prop :=
  ∃ i a b, shown = a ++ .reserved i c :: b ∧ .ended c ∉ b

theorem AckedSince.append {id : ℕ} {c : Bytes} {shown : List Shown} (h : AckedSince id c shown)
    (o : List Shown) : AckedSince id c (shown ++ o) := by
  obtain ⟨a, b, rfl, hack⟩ := h
  exact ⟨a, b ++ o, by simp, List.mem_append_left _ hack⟩

theorem OpenFor.append {c : Bytes} {shown o : List Shown} (h : OpenFor c shown)
    (ho : .ended c ∉ o) : OpenFor c (shown ++ o) := by
  obtain ⟨i, a, b, rfl, hopen⟩ := h
  exact ⟨i, a, b ++ o, by simp, by simp [hopen, ho]⟩

theorem ackedSince_of_reserved {id : ℕ} {c : Bytes} {shown : List Shown}
    (h : .reserved id c ∈ shown) : AckedSince id c (shown ++ [.acked c]) := by
  obtain ⟨a, b, rfl⟩ := List.append_of_mem h
  exact ⟨a, b ++ [.acked c], by simp, by simp⟩

/-! ## The invariant -/

/-- The handler has its channel in `ackChans`, unless another handler of the call took it out. -/
def Phase.Registered (p : Phase) : Prop := p ≠ .prepare ∧ p ≠ .register

/-- The handler answers for a reservation. -/
def Phase.Reserving (p : Phase) : Prop := p ≠ .prepare ∧ p ≠ .hangUp ∧ p ≠ .release

structure Inv (u : UA) (shown : List Shown) : Prop where
  below : (∀ d ∈ u.dialogs, d.id < u.next) ∧ (∀ id ∈ u.acks, id < u.next) ∧
    ∀ id ∈ u.signals, id < u.next
  unique : Keyed.Unique Dialog.id u.dialogs
  reserved : ∀ d ∈ u.dialogs, d.phase ≠ .prepare → .reserved d.id d.info.callID ∈ shown
  chans : ∀ p ∈ u.ackChans, ∃ d ∈ u.dialogs, d.id = p.2 ∧ d.info.callID = p.1 ∧ d.phase.Registered
  acked : ∀ d ∈ u.dialogs, d.id ∈ u.acks ∨ d.id ∈ u.signals ∨ d.phase = .accept →
    AckedSince d.id d.info.callID shown
  pending : ∀ c, u.app.sessions.isPending c = true →
    (∃ d ∈ u.dialogs, d.info.callID = c ∧ d.phase.Reserving) ∧ OpenFor c shown

theorem Inv.same {u : UA} {shown : List Shown} (h : Inv u shown) {d d' : Dialog}
    (hd : d ∈ u.dialogs) (hd' : d' ∈ u.dialogs) (hid : d.id = d'.id) : d = d' := by
  have h1 := Keyed.lookup_of_mem h.unique hd
  have h2 := Keyed.lookup_of_mem h.unique hd'
  rw [hid, h2] at h1
  exact (Option.some.inj h1).symm

theorem mem_setPhase {u : UA} {id : ℕ} {ph : Phase} {d : Dialog} :
    d ∈ (u.setPhase id ph).dialogs ↔ ∃ d₀ ∈ u.dialogs, d.id = d₀.id ∧ d.info = d₀.info ∧
      d.phase = if d₀.id = id then ph else d₀.phase := by
  simp only [UA.setPhase, List.mem_map]
  constructor
  · rintro ⟨d₀, hd₀, rfl⟩
    refine ⟨d₀, hd₀, ?_⟩
    split <;> exact ⟨rfl, rfl, rfl⟩
  · rintro ⟨d₀, hd₀, hid, hinfo, hph⟩
    refine ⟨d₀, hd₀, ?_⟩
    obtain ⟨i, info, p⟩ := d
    dsimp only at hid hinfo hph
    subst hid hinfo
    split
    next h => rw [hph, if_pos h]
    next h => rw [hph, if_neg h]

theorem setPhase_unique {u : UA} {id : ℕ} {ph : Phase} (h : Keyed.Unique Dialog.id u.dialogs) :
    Keyed.Unique Dialog.id (u.setPhase id ph).dialogs := by
  have hmap : (u.setPhase id ph).dialogs.map Dialog.id = u.dialogs.map Dialog.id := by
    rw [UA.setPhase, List.map_map]
    refine List.map_congr_left fun d _ => ?_
    simp only [Function.comp]
    split <;> rfl
  rw [Keyed.Unique, hmap]
  exact h

/-- A handler goes on to its next phase. -/
theorem Inv.moves {u u' : UA} {shown o : List Shown} {d : Dialog} {ph : Phase} (h : Inv u shown)
    (hd : d ∈ u.dialogs) (hdialogs : u'.dialogs = (u.setPhase d.id ph).dialogs)
    (hnext : u'.next = u.next) (hacks : u'.acks = u.acks)
    (hsignals : ∀ id ∈ u'.signals, id ∈ u.signals) (hended : ∀ c, .ended c ∉ o)
    (hres : ph ≠ .prepare ∧ (d.phase = .prepare → .reserved d.id d.info.callID ∈ o))
    (hchans : ∀ p ∈ u'.ackChans, p ∈ u.ackChans ∨ p = (d.info.callID, d.id))
    (hreg : ph.Registered ∨ u'.ackChans = u.ackChans ∧ ¬ d.phase.Registered)
    (hacc : ph = .accept → d.id ∈ u.signals)
    (hpend : ∀ c, u'.app.sessions.isPending c = true →
      (u.app.sessions.isPending c = true ∧
        (c = d.info.callID → d.phase.Reserving → ph.Reserving)) ∨
        (c = d.info.callID ∧ ph.Reserving ∧ .reserved d.id c ∈ o)) :
    Inv u' (shown ++ o) := by
  have hreserved : .reserved d.id d.info.callID ∈ shown ++ o := by
    by_cases hp : d.phase = .prepare
    · exact List.mem_append_right _ (hres.2 hp)
    · exact List.mem_append_left _ (h.reserved d hd hp)
  have moved : ∃ d' ∈ u'.dialogs, d'.id = d.id ∧ d'.info = d.info ∧ d'.phase = ph := by
    refine ⟨{ d with phase := ph }, ?_, rfl, rfl, rfl⟩
    rw [hdialogs]
    exact mem_setPhase.mpr ⟨d, hd, rfl, rfl, (if_pos rfl).symm⟩
  have stays : ∀ d₀ ∈ u.dialogs, d₀.id ≠ d.id → d₀ ∈ u'.dialogs := by
    intro d₀ hd₀ hne
    rw [hdialogs]
    exact mem_setPhase.mpr ⟨d₀, hd₀, rfl, rfl, (if_neg hne).symm⟩
  refine ⟨⟨?_, ?_, ?_⟩, ?_, ?_, ?_, ?_, ?_⟩
  · rw [hdialogs, hnext]
    intro d' hd'
    obtain ⟨d₀, hd₀, hid, -⟩ := mem_setPhase.mp hd'
    exact hid ▸ h.below.1 d₀ hd₀
  · rw [hacks, hnext]
    exact h.below.2.1
  · rw [hnext]
    exact fun id hid => h.below.2.2 id (hsignals id hid)
  · rw [hdialogs]
    exact setPhase_unique h.unique
  · rw [hdialogs]
    intro d' hd' hne
    obtain ⟨d₀, hd₀, hid, hinfo, hph⟩ := mem_setPhase.mp hd'
    rw [hid, hinfo]
    by_cases heq : d₀.id = d.id
    · obtain rfl := h.same hd₀ hd heq
      exact hreserved
    · rw [if_neg heq] at hph
      exact List.mem_append_left _ (h.reserved d₀ hd₀ (hph ▸ hne))
  · intro p hp
    have hold : p ∈ u.ackChans → ∃ d' ∈ u'.dialogs, d'.id = p.2 ∧ d'.info.callID = p.1 ∧
        d'.phase.Registered := by
      intro hp
      obtain ⟨d₀, hd₀, hid, hcall, hphase⟩ := h.chans p hp
      by_cases heq : d₀.id = d.id
      · obtain rfl := h.same hd₀ hd heq
        rcases hreg with hreg | ⟨-, hnot⟩
        · obtain ⟨d', hd', hid', hinfo', hph'⟩ := moved
          exact ⟨d', hd', hid'.trans hid, hinfo' ▸ hcall, hph' ▸ hreg⟩
        · exact absurd hphase hnot
      · exact ⟨d₀, stays d₀ hd₀ heq, hid, hcall, hphase⟩
    rcases hchans p hp with hp' | rfl
    · exact hold hp'
    · rcases hreg with hreg | ⟨hsame, -⟩
      · obtain ⟨d', hd', hid', hinfo', hph'⟩ := moved
        exact ⟨d', hd', hid', by rw [hinfo'], hph' ▸ hreg⟩
      · exact hold (hsame ▸ hp)
  · rw [hdialogs, hacks]
    intro d' hd' hcase
    obtain ⟨d₀, hd₀, hid, hinfo, hph⟩ := mem_setPhase.mp hd'
    rw [hid] at hcase ⊢
    rw [hinfo]
    refine (h.acked d₀ hd₀ ?_).append o
    rcases hcase with hack | hsig | hphase
    · exact .inl hack
    · exact .inr (.inl (hsignals _ hsig))
    · rw [hph] at hphase
      split at hphase
      next heq => exact .inr (.inl (heq ▸ hacc hphase))
      · exact .inr (.inr hphase)
  · intro c hc
    rcases hpend c hc with ⟨hold, hphase⟩ | ⟨rfl, hphase, hshown⟩
    · obtain ⟨⟨d₀, hd₀, hcall, hres₀⟩, hopen⟩ := h.pending c hold
      refine ⟨?_, hopen.append (hended c)⟩
      by_cases heq : d₀.id = d.id
      · obtain rfl := h.same hd₀ hd heq
        obtain ⟨d', hd', -, hinfo', hph'⟩ := moved
        exact ⟨d', hd', hinfo' ▸ hcall, hph' ▸ hphase hcall.symm hres₀⟩
      · exact ⟨d₀, stays d₀ hd₀ heq, hcall, hres₀⟩
    · obtain ⟨d', hd', -, hinfo', hph'⟩ := moved
      refine ⟨⟨d', hd', by rw [hinfo'], hph' ▸ hphase⟩, ?_⟩
      obtain ⟨a, b, rfl⟩ := List.append_of_mem hshown
      refine ⟨d.id, shown ++ a, b, by simp, fun hb => ?_⟩
      exact hended d.info.callID (by simp [hb])

/-- A handler returns. -/
theorem Inv.returns {u u' : UA} {shown o : List Shown} {d : Dialog} (h : Inv u shown)
    (hd : d ∈ u.dialogs) (hdialogs : u'.dialogs = (u.drop d.id).dialogs) (hnext : u'.next = u.next)
    (hacks : u'.acks = u.acks) (hsignals : u'.signals = u.signals) (hended : ∀ c, .ended c ∉ o)
    (hchans : ∀ p ∈ u'.ackChans, p ∈ u.ackChans ∧ p.2 ≠ d.id) (hphase : ¬ d.phase.Reserving)
    (hpend : Fewer u.app.sessions u'.app.sessions) : Inv u' (shown ++ o) := by
  have mem : ∀ d', d' ∈ u'.dialogs ↔ d' ∈ u.dialogs ∧ d'.id ≠ d.id := by
    intro d'
    rw [hdialogs, UA.drop, List.mem_filter, decide_eq_true_eq]
  refine ⟨⟨?_, ?_, ?_⟩, ?_, ?_, ?_, ?_, ?_⟩
  · rw [hnext]
    exact fun d' hd' => h.below.1 d' ((mem d').mp hd').1
  · rw [hacks, hnext]
    exact h.below.2.1
  · rw [hsignals, hnext]
    exact h.below.2.2
  · rw [hdialogs]
    exact h.unique.sublist (List.filter_sublist.map _)
  · exact fun d' hd' hne =>
      List.mem_append_left _ (h.reserved d' ((mem d').mp hd').1 hne)
  · intro p hp
    obtain ⟨hold, hne⟩ := hchans p hp
    obtain ⟨d₀, hd₀, hid, hcall, hreg⟩ := h.chans p hold
    exact ⟨d₀, (mem d₀).mpr ⟨hd₀, hid ▸ hne⟩, hid, hcall, hreg⟩
  · rw [hacks, hsignals]
    exact fun d' hd' hcase => (h.acked d' ((mem d').mp hd').1 hcase).append o
  · intro c hc
    obtain ⟨⟨d₀, hd₀, hcall, hres⟩, hopen⟩ := h.pending c (hpend c hc)
    refine ⟨⟨d₀, (mem d₀).mpr ⟨hd₀, fun heq => ?_⟩, hcall, hres⟩, hopen.append (hended c)⟩
    obtain rfl := h.same hd₀ hd heq
    exact hphase hres

theorem proceed_inv {cfg : Config} {u : UA} {shown : List Shown} (h : Inv u shown) (t : Turn)
    {d : Dialog} (hd : d ∈ u.dialogs) :
    Inv (proceed cfg t d u).1 (shown ++ (proceed cfg t d u).2) := by
  -- a step that leaves the registry as it is
  have quiet : ∀ {ph : Phase}, ph.Reserving → ∀ c, u.app.sessions.isPending c = true →
      (u.app.sessions.isPending c = true ∧
        (c = d.info.callID → d.phase.Reserving → ph.Reserving)) ∨
        (c = d.info.callID ∧ ph.Reserving ∧ .reserved d.id c ∈ ([] : List Shown)) :=
    fun hph c hc => .inl ⟨hc, fun _ _ => hph⟩
  cases hphase : d.phase with
  | prepare =>
    have hprep := @prepareInvite_pending cfg d.info ⟨u.app, t.script⟩
    simp only [proceed, hphase]
    split
    next err a hr =>
      refine h.returns hd rfl rfl rfl rfl (by simp) (fun p hp => ⟨hp, fun hid => ?_⟩) ?_ ?_
      · obtain ⟨d₀, hd₀, hid₀, -, hreg⟩ := h.chans p hp
        obtain rfl := h.same hd₀ hd (hid₀.trans hid)
        exact hreg.1 hphase
      · exact fun hres => hres.1 hphase
      · intro c hc
        rcases hprep hr hc with ⟨-, hnone⟩ | hold
        · cases hnone
        · exact hold
    next a hr =>
      refine h.moves hd rfl rfl rfl (fun _ hs => hs) (by simp) ⟨by simp, fun _ => by simp⟩
        (fun p hp => .inl hp) (.inr ⟨rfl, fun hreg => hreg.1 hphase⟩) (by simp) fun c hc => ?_
      have hres : Phase.register.Reserving := by simp [Phase.Reserving]
      rcases hprep hr hc with ⟨rfl, -⟩ | hold
      · exact .inr ⟨rfl, hres, List.mem_singleton.mpr rfl⟩
      · exact .inl ⟨hold, fun _ _ => hres⟩
  | register =>
    simp only [proceed, hphase]
    refine h.moves hd rfl rfl rfl (fun _ hs => hs) (by simp) ⟨by simp, by simp [hphase]⟩
      (fun p hp => (Keyed.mem_insert hp).symm) (.inl (by simp [Phase.Registered])) (by simp)
      (quiet (by simp [Phase.Reserving]))
  | respond =>
    simp only [proceed, hphase]
    split
    · exact h.moves hd rfl rfl rfl (fun _ hs => hs) (by simp) ⟨by simp, by simp [hphase]⟩
        (fun p hp => .inl hp) (.inl (by simp [Phase.Registered])) (by simp)
        fun c hc => .inl ⟨hc, fun _ _ => by simp [Phase.Reserving]⟩
    · exact h.moves hd rfl rfl rfl (fun _ hs => hs) (by simp) ⟨by simp, by simp [hphase]⟩
        (fun p hp => .inl hp) (.inl (by simp [Phase.Registered])) (by simp)
        (quiet (by simp [Phase.Reserving]))
  | waiting =>
    have fails : Inv (u.setPhase d.id (.failed false)) (shown ++ []) :=
      h.moves hd rfl rfl rfl (fun _ hs => hs) (by simp) ⟨by simp, by simp [hphase]⟩
        (fun p hp => .inl hp) (.inl (by simp [Phase.Registered])) (by simp)
        (quiet (by simp [Phase.Reserving]))
    simp only [proceed, hphase]
    split
    · split
      next hsig =>
        exact h.moves hd rfl rfl rfl (fun _ hs => (List.mem_filter.mp hs).1) (by simp)
          ⟨by simp, by simp [hphase]⟩ (fun p hp => .inl hp) (.inl (by simp [Phase.Registered]))
          (fun _ => hsig) (quiet (by simp [Phase.Reserving]))
      · rw [List.append_nil]
        exact h
    · exact fails
    · exact fails
  | accept =>
    have hacc := @inviteAccepted_pending cfg d.info t.now ⟨u.app, t.script⟩
    simp only [proceed, hphase]
    split
    next a hr =>
      obtain ⟨hfewer, -, hgone⟩ := hacc hr
      refine h.moves hd rfl rfl rfl (fun _ hs => hs) (by simp) ⟨by simp, by simp [hphase]⟩
        (fun p hp => .inl hp) (.inl (by simp [Phase.Registered])) (by simp)
        fun c hc => .inl ⟨hfewer c hc, ?_⟩
      rintro rfl
      have hnot : a.world.sessions.isPending d.info.callID = false := hgone rfl
      have hc' : a.world.sessions.isPending d.info.callID = true := hc
      rw [hnot] at hc'
      cases hc'
    next err a hr =>
      refine h.moves hd rfl rfl rfl (fun _ hs => hs) (fun c => ?_) ⟨by simp, by simp [hphase]⟩
        (fun p hp => .inl hp) (.inl (by simp [Phase.Registered])) (by simp)
        fun c hc => .inl ⟨(hacc hr).1 c hc, fun _ _ => by simp [Phase.Reserving]⟩
      split <;> simp
  | failed confirmed =>
    have hcancel := cancel_pending u.app.sessions d.info.callID
    simp only [proceed, hphase]
    refine h.moves hd rfl rfl rfl (fun _ hs => hs) (by simp)
      ⟨by cases confirmed <;> simp, by simp [hphase]⟩ (fun p hp => .inl hp)
      (.inl (by cases confirmed <;> simp [Phase.Registered])) (by cases confirmed <;> simp)
      fun c hc => .inl ⟨hcancel.1 c hc, ?_⟩
    rintro rfl
    have hc' : (u.app.sessions.cancel d.info.callID).2.isPending d.info.callID = true := hc
    rw [hcancel.2] at hc'
    cases hc'
  | hangUp =>
    simp only [proceed, hphase]
    refine h.moves hd rfl rfl rfl (fun _ hs => hs) (by simp) ⟨by simp, by simp [hphase]⟩
      (fun p hp => .inl hp) (.inl (by simp [Phase.Registered])) (by simp)
      fun c hc => .inl ⟨hc, fun _ hres => absurd hphase hres.2.1⟩
  | release =>
    simp only [proceed, hphase]
    refine h.returns hd rfl rfl rfl rfl (by simp) (fun p hp => ?_) (fun hres => hres.2.2 hphase)
      (.refl _)
    obtain ⟨hold, hne⟩ := Keyed.mem_erase.mp hp
    refine ⟨hold, fun hid => ?_⟩
    obtain ⟨d₀, hd₀, hid₀, hcall, -⟩ := h.chans p hold
    obtain rfl := h.same hd₀ hd (hid₀.trans hid)
    exact hne hcall.symm

/-- A step of another handler: no dialog moves. -/
theorem Inv.beside {u u' : UA} {shown o : List Shown} (h : Inv u shown)
    (hdialogs : u'.dialogs = u.dialogs) (hnext : u'.next = u.next)
    (hchans : u'.ackChans = u.ackChans)
    (hacks : ∀ id ∈ u'.acks, id ∈ u.acks ∨ ∃ c, (c, id) ∈ u.ackChans ∧ o = [.acked c])
    (hsignals : ∀ id ∈ u'.signals, id ∈ u.signals ∨ id ∈ u.acks)
    (hpend : ∀ c, u'.app.sessions.isPending c = true →
      u.app.sessions.isPending c = true ∧ .ended c ∉ o) : Inv u' (shown ++ o) := by
  have chan_below : ∀ {c : Bytes} {id : ℕ}, (c, id) ∈ u.ackChans → id < u.next := by
    intro c id hp
    obtain ⟨d, hd, hid, -⟩ := h.chans _ hp
    have hlt := h.below.1 d hd
    rwa [hid] at hlt
  refine ⟨⟨?_, ?_, ?_⟩, ?_, ?_, ?_, ?_, ?_⟩
  · rw [hdialogs, hnext]
    exact h.below.1
  · rw [hnext]
    intro id hid
    rcases hacks id hid with hold | ⟨c, hp, -⟩
    · exact h.below.2.1 id hold
    · exact chan_below hp
  · rw [hnext]
    intro id hid
    rcases hsignals id hid with hold | hack
    · exact h.below.2.2 id hold
    · exact h.below.2.1 id hack
  · rw [hdialogs]
    exact h.unique
  · rw [hdialogs]
    exact fun d hd hne => List.mem_append_left _ (h.reserved d hd hne)
  · rw [hdialogs, hchans]
    exact h.chans
  · rw [hdialogs]
    intro d hd hcase
    rcases hcase with hack | hsig | hphase
    · rcases hacks _ hack with hold | ⟨c, hp, rfl⟩
      · exact (h.acked d hd (.inl hold)).append o
      · obtain ⟨d₀, hd₀, hid, hcall, hreg⟩ := h.chans _ hp
        obtain rfl := h.same hd₀ hd hid
        have hc : d₀.info.callID = c := hcall
        rw [← hc]
        exact ackedSince_of_reserved (h.reserved d₀ hd₀ hreg.1)
    · rcases hsignals _ hsig with hold | hack
      · exact (h.acked d hd (.inr (.inl hold))).append o
      · exact (h.acked d hd (.inl hack)).append o
    · exact (h.acked d hd (.inr (.inr hphase))).append o
  · rw [hdialogs]
    intro c hc
    obtain ⟨hold, hended⟩ := hpend c hc
    obtain ⟨hd, hopen⟩ := h.pending c hold
    exact ⟨hd, hopen.append hended⟩

/-- A step of the app that makes no reservation and handles no BYE. -/
theorem Inv.app {u : UA} {shown : List Shown} (h : Inv u shown) {w : App.World}
    (hw : Fewer u.app.sessions w.sessions) : Inv { u with app := w } (shown ++ []) :=
  h.beside rfl rfl rfl (fun _ hid => .inl hid) (fun _ hid => .inl hid)
    fun c hc => ⟨hw c hc, List.not_mem_nil⟩

theorem step_inv {cfg : Config} {u : UA} {shown : List Shown} (h : Inv u shown) (i : Input) :
    Inv (step cfg u i).1 (shown ++ (step cfg u i).2) := by
  cases i with
  | start script =>
    have hnil := start_sessions cfg u.app script
    refine ⟨⟨?_, ?_, ?_⟩, List.nodup_nil, ?_, ?_, ?_, fun c hc => ?_⟩
    · exact fun d hd => by cases hd
    · exact fun id hid => by cases hid
    · exact fun id hid => by cases hid
    · exact fun d hd => by cases hd
    · exact fun p hp => by cases hp
    · exact fun d hd => by cases hd
    · have hc' : (App.step cfg u.app (.start script)).sessions.isPending c = true := hc
      rw [hnil] at hc'
      cases hc'
  | invite info =>
    simp only [step]
    split
    · rw [List.append_nil]
      have hfresh : ∀ d ∈ u.dialogs, d.id ≠ u.next := fun d hd => (h.below.1 d hd).ne
      refine ⟨⟨?_, ?_, ?_⟩, ?_, ?_, ?_, ?_, ?_⟩
      · intro d hd
        rcases List.mem_cons.mp hd with rfl | hd
        · exact Nat.lt_succ_self _
        · exact (h.below.1 d hd).trans (Nat.lt_succ_self _)
      · exact fun id hid => (h.below.2.1 id hid).trans (Nat.lt_succ_self _)
      · exact fun id hid => (h.below.2.2 id hid).trans (Nat.lt_succ_self _)
      · refine List.nodup_cons.mpr ⟨fun hmem => ?_, h.unique⟩
        obtain ⟨d, hd, heq⟩ := List.mem_map.mp hmem
        exact hfresh d hd heq
      · intro d hd hne
        rcases List.mem_cons.mp hd with rfl | hd
        · exact absurd rfl hne
        · exact h.reserved d hd hne
      · intro p hp
        obtain ⟨d, hd, hrest⟩ := h.chans p hp
        exact ⟨d, List.mem_cons_of_mem _ hd, hrest⟩
      · intro d hd hcase
        rcases List.mem_cons.mp hd with rfl | hd
        · rcases hcase with hack | hsig | hphase
          · exact absurd rfl (h.below.2.1 _ hack).ne
          · exact absurd rfl (h.below.2.2 _ hsig).ne
          · cases hphase
        · exact h.acked d hd hcase
      · intro c hc
        obtain ⟨⟨d, hd, hrest⟩, hopen⟩ := h.pending c hc
        exact ⟨⟨d, List.mem_cons_of_mem _ hd, hrest⟩, hopen⟩
    · rw [List.append_nil]
      exact h
  | proceed id t =>
    simp only [step]
    split
    · rw [List.append_nil]
      exact h
    next d hd => exact proceed_inv h t (Keyed.lookup_mem hd)
  | ack callID =>
    simp only [step]
    split
    · exact h.beside rfl rfl rfl (fun _ hid => .inl hid) (fun _ hid => .inl hid)
        fun c hc => ⟨hc, by simp⟩
    next c id hchan =>
      have hkey : c = callID := Keyed.lookup_key hchan
      subst hkey
      refine h.beside rfl rfl rfl (fun x hx => ?_) (fun _ hid => .inl hid)
        fun c hc => ⟨hc, by simp⟩
      rcases List.mem_cons.mp hx with rfl | hx
      · exact .inr ⟨c, Keyed.lookup_mem hchan, rfl⟩
      · exact .inl hx
  | signal id =>
    simp only [step]
    split
    next hack =>
      refine h.beside rfl rfl rfl (fun x hx => .inl (List.mem_of_mem_erase hx)) (fun x hx => ?_)
        fun c hc => ⟨hc, List.not_mem_nil⟩
      dsimp only at hx
      split at hx
      · exact .inl hx
      · rcases List.mem_cons.mp hx with rfl | hx
        · exact .inr hack
        · exact .inl hx
    · rw [List.append_nil]
      exact h
  | bye callID script =>
    simp only [step, App.step]
    split
    · refine h.beside rfl rfl rfl (fun _ hid => .inl hid) (fun _ hid => .inl hid) fun c hc => ?_
      obtain ⟨hfewer, hgone⟩ := bye_pending callID ⟨u.app, script⟩
      refine ⟨hfewer c hc, fun hmem => ?_⟩
      cases List.mem_singleton.mp hmem
      have hc' : (bye callID ⟨u.app, script⟩).world.sessions.isPending callID = true := hc
      rw [hgone] at hc'
      cases hc'
    · rw [List.append_nil]
      exact h
  | leaseTick now script =>
    refine h.app ?_
    simp only [App.step]
    split
    · exact leaseTick_fewer cfg now ⟨u.app, script⟩
    · exact .refl _
  | keepaliveFailure script =>
    refine h.app ?_
    simp only [App.step]
    split
    · exact stopOwned_fewer _ ⟨u.app, script⟩
    · exact .refl _
  | engine event =>
    refine h.app ?_
    show Fewer u.app.sessions (u.app.event event).sessions
    rw [(event_daemon u.app event).1]
    exact .refl _

theorem trace_inv {cfg : Config} {ids : Bytes → Prop} {shown : List Shown} {u : UA}
    (h : Trace cfg ids shown u) : Inv u shown := by
  induction h with
  | fresh =>
    refine ⟨⟨?_, ?_, ?_⟩, List.nodup_nil, ?_, ?_, ?_, ?_⟩
    all_goals intro x hx; cases hx
  | step _ _ ih => exact step_inv ih _

/-! ## The start of media -/

/-- **Media starts after the ACK and not after a BYE.** In every interleaving, when a handler asks
the engine to start a call, an ACK of the call has come in since this handler reserved the slot, and
no BYE of the call has been handled since the slot was last reserved for it. -/
theorem start_follows_ack {cfg : Config} {ids : Bytes → Prop} {shown : List Shown} {u : UA}
    (h : Trace cfg ids shown u) {i : Input} {id : ℕ} {c : Bytes}
    (hs : .started id c ∈ (step cfg u i).2) : AckedSince id c shown ∧ OpenFor c shown := by
  have hinv := trace_inv h
  cases i with
  | start | leaseTick | keepaliveFailure | engine => cases hs
  | invite info =>
    simp only [step] at hs
    split at hs <;> cases hs
  | ack callID =>
    simp only [step] at hs
    split at hs <;> simp at hs
  | signal id =>
    simp only [step] at hs
    split at hs <;> cases hs
  | bye callID script =>
    simp only [step] at hs
    split at hs <;> simp at hs
  | proceed id' t =>
    simp only [step] at hs
    split at hs
    · cases hs
    next d hd =>
      have hmem := Keyed.lookup_mem hd
      cases hphase : d.phase with
      | accept =>
        have hacc := @inviteAccepted_pending cfg d.info t.now ⟨u.app, t.script⟩
        have started : ∀ {r : Option InviteErr} {a : App.Turn},
            inviteAccepted cfg d.info t.now ⟨u.app, t.script⟩ = (r, a) →
            r ≠ some (.cancelledBeforeAck d.info.callID) →
            AckedSince d.id d.info.callID shown ∧ OpenFor d.info.callID shown := fun hr hne =>
          ⟨hinv.acked d hmem (.inr (.inr hphase)), (hinv.pending _ ((hacc hr).2.1 hne)).2⟩
        simp only [proceed, hphase] at hs
        split at hs
        next hr =>
          cases List.mem_singleton.mp hs
          exact started hr (by simp)
        next err a hr =>
          dsimp only at hs
          split at hs
          · cases hs
          next hne =>
            cases List.mem_singleton.mp hs
            exact started hr fun heq => hne (Option.some.inj heq)
      | prepare =>
        simp only [proceed, hphase] at hs
        split at hs <;> simp at hs
      | respond =>
        simp only [proceed, hphase] at hs
        split at hs <;> simp at hs
      | waiting =>
        simp only [proceed, hphase] at hs
        split at hs
        · split at hs <;> simp at hs
        · simp at hs
        · simp at hs
      | register | failed | hangUp | release => simp [proceed, hphase] at hs

/-! ## No dialog in progress -/

/-- The app under the user agent keeps its own invariant: its handlers run only once the daemon
owns what the engine holds. -/
structure Grounded (u : UA) : Prop where
  held : Held Intact u.app
  owned : u.app.registered = true ∨ u.dialogs ≠ [] → Owned u.app
  intact : ∀ d ∈ u.dialogs, Intact d.info.callID

theorem Grounded.inv {u : UA} (h : Grounded u) : App.Inv u.app :=
  ⟨h.held, fun hreg => h.owned (.inl hreg)⟩

/-- A step of the app beside the dialogs. -/
theorem Grounded.app {u u' : UA} (h : Grounded u) (hdialogs : u'.dialogs = u.dialogs)
    (hinv : App.Inv u'.app) (howned : Owned u.app → Owned u'.app) : Grounded u' := by
  refine ⟨hinv.held, fun hcase => ?_, hdialogs ▸ h.intact⟩
  rcases hcase with hreg | hne
  · exact hinv.owned hreg
  · exact howned (h.owned (.inr (hdialogs ▸ hne)))

theorem mem_dialogs_setPhase {u : UA} {id : ℕ} {ph : Phase} {p : Bytes → Prop}
    (h : ∀ d ∈ u.dialogs, p d.info.callID) : ∀ d ∈ (u.setPhase id ph).dialogs, p d.info.callID := by
  intro d hd
  obtain ⟨d₀, hd₀, -, hinfo, -⟩ := mem_setPhase.mp hd
  exact hinfo ▸ h d₀ hd₀

theorem grounded_proceed {cfg : Config} {u : UA} (h : Grounded u) (t : Turn) {d : Dialog}
    (hd : d ∈ u.dialogs) : Grounded (proceed cfg t d u).1 := by
  have howned : Owned u.app := h.owned (.inr (List.ne_nil_of_mem hd))
  -- whatever becomes of the dialogs, the app stays owned
  have still : ∀ {u' : UA}, Owned u'.app → (∀ d' ∈ u'.dialogs, Intact d'.info.callID) →
      Grounded u' := fun ho hi => ⟨ho.intact, fun _ => ho, hi⟩
  have phased : ∀ ph, ∀ d' ∈ (u.setPhase d.id ph).dialogs, Intact d'.info.callID := fun _ =>
    mem_dialogs_setPhase h.intact
  have dropped : ∀ d' ∈ (u.drop d.id).dialogs, Intact d'.info.callID := fun d' hd' =>
    h.intact d' (List.mem_filter.mp hd').1
  cases hphase : d.phase with
  | prepare =>
    have hprep := Owned.prepareInvite (t := ⟨u.app, t.script⟩) cfg howned (h.intact d hd)
    simp only [proceed, hphase]
    split
    next hr =>
      rw [hr] at hprep
      exact still hprep dropped
    next hr =>
      rw [hr] at hprep
      exact still hprep (phased _)
  | accept =>
    have hacc := @Owned.inviteAccepted ⟨u.app, t.script⟩ cfg d.info t.now howned
    simp only [proceed, hphase]
    split
    next hr =>
      rw [hr] at hacc
      exact still hacc (phased _)
    next hr =>
      rw [hr] at hacc
      exact still hacc (phased _)
  | failed confirmed =>
    have hcancel := Owned.cancel (t := ⟨u.app, []⟩) howned d.info.callID
    simp only [proceed, hphase]
    exact still hcancel (phased _)
  | register | hangUp =>
    simp only [proceed, hphase]
    exact still howned (phased _)
  | respond =>
    simp only [proceed, hphase]
    split <;> exact still howned (phased _)
  | waiting =>
    simp only [proceed, hphase]
    split
    · split
      · exact still howned (phased _)
      · exact h
    · exact still howned (phased _)
    · exact still howned (phased _)
  | release =>
    simp only [proceed, hphase]
    exact still howned dropped

theorem grounded_step {cfg : Config} {u : UA} (h : Grounded u) {i : Input} (hi : i.Names Intact) :
    Grounded (step cfg u i).1 := by
  have app : ∀ {j : App.Input}, (∀ id ∈ j.callIDs, Intact id) → App.Inv (App.step cfg u.app j) :=
    fun hids => App.step_inv hids h.inv
  cases i with
  | start script =>
    have hinv := @app (.start script) (fun id hid => by cases hid)
    refine ⟨hinv.held, fun hcase => ?_, fun d hd => by cases hd⟩
    rcases hcase with hreg | hne
    · exact hinv.owned hreg
    · exact absurd rfl hne
  | invite info =>
    simp only [step]
    split
    next hreg =>
      refine ⟨h.held, fun _ => h.owned (.inl hreg), fun d hd => ?_⟩
      rcases List.mem_cons.mp hd with rfl | hd
      · exact hi
      · exact h.intact d hd
    · exact h
  | proceed id t =>
    simp only [step]
    split
    · exact h
    next d hd => exact grounded_proceed h t (Keyed.lookup_mem hd)
  | ack callID =>
    simp only [step]
    split <;> exact ⟨h.held, h.owned, h.intact⟩
  | signal id =>
    simp only [step]
    split <;> exact ⟨h.held, h.owned, h.intact⟩
  | bye callID script =>
    refine h.app rfl (@app (.bye callID script) fun id hid => ?_) fun ho => ?_
    · cases List.mem_singleton.mp hid
      exact hi
    · simp only [step, App.step]
      split
      · exact Owned.bye (t := ⟨u.app, script⟩) ho hi
      · exact ho
  | leaseTick now script =>
    refine h.app rfl (@app (.leaseTick now script) (fun id hid => by cases hid)) fun ho => ?_
    simp only [step, App.step]
    split
    · exact Owned.leaseTick (t := ⟨u.app, script⟩) cfg now ho
    · exact ho
  | keepaliveFailure script =>
    refine h.app rfl (@app (.keepaliveFailure script) (fun id hid => by cases hid)) fun ho => ?_
    simp only [step, App.step]
    split
    · exact Owned.stopOwnedMediaLocked (t := ⟨u.app, script⟩) ho
    · exact ho
  | engine event =>
    refine h.app rfl (@app (.engine event) (fun id hid => by cases hid)) fun ho => ?_
    obtain ⟨hs, -⟩ := event_daemon u.app event
    cases ho with
    | free hnil held => exact .free (hs.trans hnil) (held.event (fun x hx => hx.elim) event)
    | taken e he hie held =>
      refine .taken e (hs.trans he) hie (held.event ?_ event)
      rintro x ⟨-, rfl⟩
      exact hie

theorem trace_grounded {cfg : Config} {shown : List Shown} {u : UA}
    (h : Trace cfg Intact shown u) : Grounded u := by
  induction h with
  | @fresh boot =>
    refine ⟨(fresh_inv boot).held, fun hcase => ?_, fun d hd => by cases hd⟩
    rcases hcase with hreg | hne
    · cases hreg
    · exact absurd rfl hne
  | step _ hi ih => exact grounded_step ih hi

/-- **No reservation leaks.** In every run whose Call-IDs are shorter than 128 bytes, valid UTF-8
and free of NUL, once no INVITE is being handled no channel is left in `ackChans` and no call is
pending; and a daemon that came up has an empty registry while the engine holds no session and no
start is in flight, or one entry that owns what the engine holds or may still start. -/
theorem no_reservation_leaks {cfg : Config} {shown : List Shown} {u : UA}
    (h : Trace cfg (fun c => c.length < 128 ∧ validUtf8 c = true ∧ (0 : UInt8) ∉ c) shown u)
    (hidle : u.dialogs = []) :
    u.ackChans = [] ∧ (∀ c, u.app.sessions.isPending c = false) ∧
    (u.app.registered = true →
      (u.app.sessions = [] ∧ u.app.engine.media.sessions = [] ∧
        ∀ t, .startLive t ∉ u.app.inFlight) ∨
      ∃ e, u.app.sessions = [e] ∧ e.state ≠ .pending ∧
        (∀ s ∈ u.app.engine.media.sessions, Live.sessionKey s = e.callID) ∧
        ∀ t, .startLive t ∈ u.app.inFlight → t.sessionID = e.callID) := by
  have hinv := trace_inv h
  have hquiet : ∀ c, u.app.sessions.isPending c = false := by
    intro c
    rw [← Bool.not_eq_true]
    intro hc
    obtain ⟨⟨d, hd, -⟩, -⟩ := hinv.pending c hc
    rw [hidle] at hd
    cases hd
  refine ⟨?_, hquiet, fun hreg => ?_⟩
  · refine List.eq_nil_iff_forall_not_mem.mpr fun p hp => ?_
    obtain ⟨d, hd, -⟩ := hinv.chans p hp
    rw [hidle] at hd
    cases hd
  · have htrace : Trace cfg Intact shown u := by
      clear hinv hquiet hidle hreg
      induction h with
      | fresh => exact .fresh
      | @step shown u i _ hi ih =>
        refine .step ih ?_
        cases i with
        | invite info => exact ⟨hi.1, hi.2.1, hi.2.2⟩
        | bye callID script => exact ⟨hi.1, hi.2.1, hi.2.2⟩
        | _ => trivial
    cases (trace_grounded htrace).owned (.inl hreg) with
    | free hnil held =>
      refine .inl ⟨hnil, List.eq_nil_iff_forall_not_mem.mpr fun s hs => held.table s hs,
        fun t ht => held.starts t ht⟩
    | taken e he hie held =>
      refine .inr ⟨e, he, fun hp => ?_, fun s hs => (held.table s hs).2,
        fun t ht => (held.starts t ht).2⟩
      have hpend := hquiet e.callID
      rw [he, Manager.isPending, find_single, if_pos rfl] at hpend
      have hstate : (e.state == .pending) = false := hpend
      rw [hp] at hstate
      cases hstate

/-! ### A call -/

def demoTurn : Turn := ⟨[answered, answered], 0, true, .acked⟩

def demoCall : Bytes := ascii "call-1"

/-- An INVITE up to the step that starts media. -/
def demoDialog : List Input :=
  [.start [answered], .invite (demoInfo demoCall), .proceed 0 demoTurn, .proceed 0 demoTurn,
    .proceed 0 demoTurn, .ack demoCall, .signal 0, .proceed 0 demoTurn]

def follow (p : List Shown × UA) (i : Input) : List Shown × UA :=
  (p.1 ++ (step demoConfig p.2 i).2, (step demoConfig p.2 i).1)

theorem follow_trace {ids : Bytes → Prop} {is : List Input} (hi : ∀ i ∈ is, i.Names ids)
    {p : List Shown × UA} (h : Trace demoConfig ids p.1 p.2) :
    Trace demoConfig ids (is.foldl follow p).1 (is.foldl follow p).2 := by
  induction is generalizing p with
  | nil => exact h
  | cons i is ih =>
    rw [List.forall_mem_cons] at hi
    exact ih hi.2 (.step h hi.1)

def demoAcked : List Shown × UA := demoDialog.foldl follow ([], .fresh demoBoot)

def demoTalking : List Shown × UA :=
  [Input.proceed 0 demoTurn, .proceed 0 demoTurn].foldl follow demoAcked

theorem demo_facts :
    .started 0 demoCall ∈ (step demoConfig demoAcked.2 (.proceed 0 demoTurn)).2 ∧
    demoTalking.2.dialogs.length = 0 ∧ demoTalking.2.app.registered = true ∧
    demoCall.length < 128 ∧ validUtf8 demoCall = true ∧ (0 : UInt8) ∉ demoCall := by
  decide +kernel

theorem demoAcked_trace {ids : Bytes → Prop} (h : ids demoCall) :
    Trace demoConfig ids demoAcked.1 demoAcked.2 := by
  refine follow_trace (fun i hi => ?_) .fresh
  simp only [demoDialog, List.mem_cons, List.not_mem_nil, or_false] at hi
  rcases hi with rfl | rfl | rfl | rfl | rfl | rfl | rfl | rfl
  · trivial
  · exact h
  all_goals trivial

theorem start_follows_ack_demo :
    AckedSince 0 demoCall demoAcked.1 ∧ OpenFor demoCall demoAcked.1 :=
  start_follows_ack (@demoAcked_trace (fun _ => True) trivial) demo_facts.1

theorem no_reservation_leaks_demo :
    demoTalking.2.ackChans = [] ∧ (∀ c, demoTalking.2.app.sessions.isPending c = false) ∧
    ((demoTalking.2.app.sessions = [] ∧ demoTalking.2.app.engine.media.sessions = [] ∧
        ∀ t, .startLive t ∉ demoTalking.2.app.inFlight) ∨
      ∃ e, demoTalking.2.app.sessions = [e] ∧ e.state ≠ .pending ∧
        (∀ s ∈ demoTalking.2.app.engine.media.sessions, Live.sessionKey s = e.callID) ∧
        ∀ t, .startLive t ∈ demoTalking.2.app.inFlight → t.sessionID = e.callID) := by
  obtain ⟨-, hidle, hreg, hids⟩ := demo_facts
  have htrace : Trace demoConfig
      (fun c => c.length < 128 ∧ validUtf8 c = true ∧ (0 : UInt8) ∉ c) demoTalking.1
      demoTalking.2 :=
    follow_trace (by simp [Input.Names]) (demoAcked_trace hids)
  obtain ⟨hchans, hquiet, hsettled⟩ :=
    no_reservation_leaks htrace (List.length_eq_zero_iff.mp hidle)
  exact ⟨hchans, hquiet, hsettled hreg⟩

end FlowAlarm.Sipua
