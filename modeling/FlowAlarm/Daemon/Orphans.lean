import FlowAlarm.Daemon.LiveSessions
import FlowAlarm.Daemon.Wire

/-!
# No orphan live session

Every session the engine holds, or may still be made to start by a request in
flight, belongs to the one entry of the daemon's registry, and that entry has
left the pending state (`Owned`). The handlers keep this because the engine
answers a call only after everything sent before it: an answered stop or status
settles what earlier calls without an answer have left open.

The identity of sessions crosses two JSON codecs, so a Call-ID has to arrive as
it was sent (`Intact`).

* `sessions_are_registered`: the run theorem.
* `altered_call_id_is_orphaned`: what a Call-ID that is not UTF-8 leads to.
-/

namespace FlowAlarm.App

open FlowAlarm.Text FlowAlarm.Live FlowAlarm.CJson

/-! ## Texts that arrive as they were sent -/

structure Intact (id : Bytes) : Prop where
  short : id.length < 128
  valid : validUtf8 id = true
  noNul : 0 ∉ id

theorem Intact.param {id : Bytes} (h : Intact id) : paramText id = id := by
  rw [paramText_eq, sanitize_eq_self.mpr h.valid, cString_eq_self h.noNul]

theorem Intact.result {id : Bytes} (h : Intact id) : resultText id = id := by
  rw [resultText, Wire.unquote_print, sanitize_eq_self.mpr h.valid, Option.getD_some]

theorem badParam_ne_ok (message : String) (p : SessionParams) : badParam message ≠ .ok p := by
  rw [badParam]
  rintro ⟨⟩

theorem startLiveParams_sessionId {t : Target} {p : SessionParams} (h : startLiveParams t = .ok p)
    (hi : Intact t.sessionID) : p.sessionId = t.sessionID := by
  have hp : p.sessionId = bounded 128 (paramText t.sessionID) := by
    unfold startLiveParams at h
    dsimp only at h
    repeat
      split at h
      · exact absurd h (badParam_ne_ok _ _)
    cases h
    rfl
  have hshort := hi.short
  rw [hp, hi.param, bounded, List.take_of_length_le (by omega)]

/-! ## The engine's table -/

/-- `m'` has no session that `m` lacks, and at most one if `m` has. -/
structure Shrinks (m m' : Media) : Prop where
  keys : ∀ s ∈ m'.sessions, ∃ s₀ ∈ m.sessions, sessionKey s₀ = sessionKey s
  single : m.sessions.length ≤ 1 → m'.sessions.length ≤ 1

theorem Shrinks.of_eq {m m' : Media} (h : m'.sessions = m.sessions) : Shrinks m m' where
  keys s hs := ⟨s, by rwa [h] at hs, rfl⟩
  single hm := by rwa [h]

theorem Shrinks.of_erase {m m' : Media} {id : Bytes}
    (h : m'.sessions = Keyed.erase sessionKey id m.sessions) : Shrinks m m' where
  keys s hs := ⟨s, (Keyed.mem_erase.mp (by rwa [h] at hs)).1, rfl⟩
  single hm := by
    rw [h]
    exact le_trans (List.length_filter_le _ _) hm

theorem sessionMgrStop_sessions (m : Media) (id : Bytes) (null : StateChange) :
    ((sessionMgrStop m id null).1 = .ok ∧
      (sessionMgrStop m id null).2.2.sessions = Keyed.erase sessionKey id m.sessions) ∨
    ((sessionMgrStop m id null).1 ≠ .ok ∧
      (sessionMgrStop m id null).2.2.sessions = m.sessions) := by
  unfold sessionMgrStop
  split
  · next hnone =>
    refine .inl ⟨rfl, (List.filter_eq_self.mpr fun s hs => ?_).symm⟩
    simpa using Keyed.lookup_eq_none.mp hnone s hs
  · split
    · exact .inl ⟨rfl, rfl⟩
    · exact .inl ⟨rfl, rfl⟩
    · next hok _ _ => exact .inr ⟨hok, rfl⟩

theorem sessionMgrStop_shrinks (m : Media) (id : Bytes) (null : StateChange) :
    Shrinks m (sessionMgrStop m id null).2.2 := by
  rcases sessionMgrStop_sessions m id null with ⟨-, h⟩ | ⟨-, h⟩
  · exact .of_erase h
  · exact .of_eq h

theorem sessionMgrTouch_shrinks (m : Media) (id : Bytes) (nowUs : ℤ) :
    Shrinks m (sessionMgrTouch m id nowUs).2.2 := by
  unfold sessionMgrTouch
  split
  · exact .of_eq rfl
  · next s hs =>
    have hmem := Keyed.lookup_mem hs
    refine ⟨fun x hx => ?_, fun hm => ?_⟩
    · rcases Keyed.mem_insert hx with rfl | hx
      · exact ⟨s, hmem, rfl⟩
      · exact ⟨x, hx, rfl⟩
    · have : (Keyed.erase sessionKey (sessionKey s) m.sessions).length < m.sessions.length :=
        Keyed.length_erase_lt hmem
      show (Keyed.erase sessionKey (sessionKey s) m.sessions).length + 1 ≤ 1
      omega

theorem sessionMgrStart_sessions (m : Media) (p : SessionParams) (calls : StartCalls) (nowUs : ℤ) :
    (sessionMgrStart m p calls nowUs).2.2.sessions = m.sessions ∨
    (sessionMgrStart m p calls nowUs).2.2.sessions = [⟨p, nowUs⟩] := by
  unfold sessionMgrStart
  split
  · exact .inl rfl
  · split
    · exact .inl rfl
    · next hempty =>
      have hnil : m.sessions = [] := not_not.mp hempty
      split
      · exact .inr (by rw [hnil]; rfl)
      · exact .inl rfl

theorem engineGstEvent_shrinks (m : Media) (id : Option Bytes) (null : StateChange) :
    Shrinks m (engineGstEvent m id null) := by
  unfold engineGstEvent
  split
  · exact .of_eq rfl
  · split
    · exact .of_eq rfl
    · exact sessionMgrStop_shrinks m _ null

theorem runnerBusCb_shrinks (m : Media) (msg : BusMessage) (null : StateChange) :
    Shrinks m (runnerBusCb m msg null) := by
  unfold runnerBusCb
  split
  · have h := engineGstEvent_shrinks m (faultSession m.runner) null
    exact ⟨h.keys, h.single⟩
  · exact engineGstEvent_shrinks m _ null
  · split
    · exact .of_eq rfl
    · exact .of_eq rfl

theorem idle_shrinks (m : Media) : Shrinks m (Live.step m .idle) := by
  simp only [Live.step]
  split <;> exact .of_eq rfl

theorem engineReapExpired_shrinks (m : Media) (timeoutUs nowUs : ℤ) (null : StateChange) :
    Shrinks m (engineReapExpired m timeoutUs nowUs null) := by
  unfold engineReapExpired
  split
  · exact .of_eq rfl
  · exact sessionMgrStop_shrinks m _ null

/-- A request other than a start adds no session. -/
theorem handle_shrinks {e : Engine} {req : Request} (o : Outcome)
    (hreq : ∀ t, req ≠ .startLive t) : Shrinks e.media (e.handle req o).2.media := by
  cases req with
  | startLive t => exact absurd rfl (hreq t)
  | stopLive id =>
    simp only [Engine.handle, ipcHandleStopLive]
    split
    · exact .of_eq rfl
    · exact sessionMgrStop_shrinks e.media _ o.null
  | keepaliveLive id =>
    simp only [Engine.handle, ipcHandleKeepaliveLive]
    split
    · exact .of_eq rfl
    · exact sessionMgrTouch_shrinks e.media _ o.nowUs
  | getStatus => exact .of_eq rfl

/-- A start adds at most the session it names. -/
theorem handle_start {e : Engine} {t : Target} (o : Outcome) (hi : Intact t.sessionID) :
    (e.handle (.startLive t) o).2.media.sessions = e.media.sessions ∨
    ∃ s, (e.handle (.startLive t) o).2.media.sessions = [s] ∧ sessionKey s = t.sessionID := by
  simp only [Engine.handle, ipcHandleStartLive]
  split
  · exact .inl rfl
  · next p hp =>
    simp only [engineStartLive]
    split
    · exact .inl rfl
    split
    · exact .inl rfl
    split
    · exact .inl rfl
    rcases sessionMgrStart_sessions e.media p o.calls o.nowUs with h | h
    · exact .inl h
    · exact .inr ⟨_, h, startLiveParams_sessionId hp hi⟩

/-! ## What the engine holds or may still start -/

/-- Every session in the engine's table, and every start in flight, satisfies `p`. -/
structure Held (p : Bytes → Prop) (w : World) : Prop where
  table : ∀ s ∈ w.engine.media.sessions, p (sessionKey s)
  starts : ∀ t, .startLive t ∈ w.inFlight → p t.sessionID
  single : w.engine.media.sessions.length ≤ 1

theorem Held.mono {p q : Bytes → Prop} {w : World} (h : Held p w) (hpq : ∀ id, p id → q id) :
    Held q w :=
  ⟨fun s hs => hpq _ (h.table s hs), fun t ht => hpq _ (h.starts t ht), h.single⟩

theorem Held.withMedia {p : Bytes → Prop} {w : World} {m : Media} (h : Held p w)
    (hs : Shrinks w.engine.media m) : Held p (w.withMedia m) where
  table s hmem := by
    obtain ⟨s₀, h₀, hkey⟩ := hs.keys s hmem
    rw [← hkey]
    exact h.table s₀ h₀
  starts := h.starts
  single := hs.single h.single

/-- The engine has handled `req`, whatever is left in flight. -/
theorem Held.handle {p : Bytes → Prop} {w : World} {req : Request} {rest : List Request}
    (hp : ∀ id, p id → Intact id) (h : Held p w) (hreq : ∀ t, req = .startLive t → p t.sessionID)
    (hrest : ∀ t, .startLive t ∈ rest → p t.sessionID) (o : Outcome) :
    Held p { w with engine := (w.engine.handle req o).2, inFlight := rest } := by
  by_cases hstart : ∃ t, req = .startLive t
  · obtain ⟨t, rfl⟩ := hstart
    have hid := hreq t rfl
    rcases handle_start (e := w.engine) o (hp _ hid) with heq | ⟨s, heq, hkey⟩
    · exact ⟨fun s hs => h.table s (by rwa [heq] at hs), hrest, by rw [heq]; exact h.single⟩
    · refine ⟨fun s' hs => ?_, hrest, by rw [heq]; exact le_refl 1⟩
      rw [heq, List.mem_singleton] at hs
      rw [hs, hkey]
      exact hid
  · have hs := handle_shrinks (e := w.engine) o fun t ht => hstart ⟨t, ht⟩
    have := h.withMedia hs
    exact ⟨this.table, hrest, this.single⟩

theorem Held.event {p : Bytes → Prop} {w : World} (hp : ∀ id, p id → Intact id) (h : Held p w)
    (ev : Event) : Held p (w.event ev) := by
  cases ev with
  | handle o =>
    simp only [World.event]
    split
    · exact h
    · next req rest hq =>
      refine h.handle hp (fun t ht => h.starts t ?_) (fun t ht => h.starts t ?_) o
      · rw [hq, ht]
        exact List.mem_cons_self
      · rw [hq]
        exact List.mem_cons_of_mem _ ht
  | lose => exact ⟨h.table, fun t ht => h.starts t (List.mem_of_mem_drop ht), h.single⟩
  | bus msg null => exact h.withMedia (runnerBusCb_shrinks _ msg null)
  | idle => exact h.withMedia (idle_shrinks _)
  | reap nowUs null => exact h.withMedia (engineReapExpired_shrinks _ _ nowUs null)
  | restart boot => exact ⟨fun _ hs => (nomatch hs), h.starts, Nat.zero_le 1⟩

theorem event_daemon (w : World) (ev : Event) :
    (w.event ev).sessions = w.sessions ∧ (w.event ev).registered = w.registered := by
  cases ev with
  | handle o =>
    simp only [World.event]
    split <;> exact ⟨rfl, rfl⟩
  | _ => exact ⟨rfl, rfl⟩

theorem Held.events {p : Bytes → Prop} {w : World} (hp : ∀ id, p id → Intact id) (h : Held p w)
    (evs : List Event) : Held p (w.events evs) := by
  induction evs generalizing w with
  | nil => exact h
  | cons ev evs ih => exact ih (h.event hp ev)

theorem events_daemon (w : World) (evs : List Event) :
    (w.events evs).sessions = w.sessions ∧ (w.events evs).registered = w.registered := by
  induction evs generalizing w with
  | nil => exact ⟨rfl, rfl⟩
  | cons ev evs ih =>
    obtain ⟨hs, hr⟩ := ih (w.event ev)
    obtain ⟨hs', hr'⟩ := event_daemon w ev
    exact ⟨hs.trans hs', hr.trans hr'⟩

/-! ## Calls -/

/-- What every call does: the daemon keeps its registry, and the engine holds at most what it
held and what the request starts. -/
structure Called (req : Request) (t t' : Turn) : Prop where
  sessions : t'.world.sessions = t.world.sessions
  registered : t'.world.registered = t.world.registered
  held : ∀ p : Bytes → Prop, (∀ id, p id → Intact id) →
    (∀ tgt, req = .startLive tgt → p tgt.sessionID) → Held p t.world → Held p t'.world

/-- What an answer adds: nothing is in flight, and the engine has just handled the request. -/
def Answered (req : Request) (a : Answer) (t t' : Turn) : Prop :=
  t'.world.inFlight = [] ∧ ∃ w o, Called req t ⟨w, t'.script⟩ ∧
    w.engine.handle req o = (a, t'.world.engine)

theorem rpc_called {req : Request} {t t' : Turn} {a : Option Answer} (h : rpc req t = (a, t')) :
    Called req t t' ∧ ∀ ans, a = some ans → Answered req ans t t' := by
  unfold rpc at h
  split at h
  · obtain ⟨rfl, rfl⟩ := Prod.mk.inj h
    exact ⟨⟨rfl, rfl, fun p _ _ hp => hp⟩, fun ans ha => (nomatch ha)⟩
  · next c rest hscript =>
    obtain ⟨hs, hr⟩ := events_daemon t.world c.before
    have hsent : Called req t
        ⟨{ t.world.events c.before with inFlight := (t.world.events c.before).inFlight ++ [req] },
          rest⟩ := by
      refine ⟨hs, hr, fun p hp hreq hheld => ?_⟩
      have hev := hheld.events hp c.before
      refine ⟨hev.table, fun tgt htgt => ?_, hev.single⟩
      rcases List.mem_append.mp htgt with htgt | htgt
      · exact hev.starts tgt htgt
      · exact hreq tgt (List.mem_singleton.mp htgt).symm
    dsimp only at h
    split at h
    · obtain ⟨rfl, rfl⟩ := Prod.mk.inj h
      exact ⟨⟨hs, hr, fun p hp _ hheld => hheld.events hp c.before⟩, fun ans ha => (nomatch ha)⟩
    · obtain ⟨rfl, rfl⟩ := Prod.mk.inj h
      exact ⟨hsent, fun ans ha => (nomatch ha)⟩
    · next o hfate =>
      split at h
      · obtain ⟨rfl, rfl⟩ := Prod.mk.inj h
        exact ⟨hsent, fun ans ha => (nomatch ha)⟩
      · next hempty =>
        have hnil : (t.world.events c.before).inFlight = [] := not_not.mp hempty
        obtain ⟨rfl, rfl⟩ := Prod.mk.inj h
        refine ⟨⟨hs, hr, fun p hp hreq hheld => ?_⟩, fun ans ha => ?_⟩
        · have hev := hheld.events hp c.before
          exact hev.handle hp hreq hev.starts o
        · obtain rfl := Option.some.inj ha
          refine ⟨hnil, t.world.events c.before, o, ⟨hs, hr, fun p hp _ hheld => ?_⟩, rfl⟩
          exact hheld.events hp c.before

theorem callOk_called {req : Request} {t t' : Turn} {r : Option RpcErr}
    (h : callOk req t = (r, t')) : Called req t t' := by
  unfold callOk at h
  split at h <;>
  · next hrpc =>
    obtain ⟨rfl, rfl⟩ := Prod.mk.inj h
    exact (rpc_called hrpc).1

/-- **An acknowledged stop**: nothing is in flight and the session is gone. -/
theorem stopLive_ok {id : Bytes} {t t' : Turn} {p : Bytes → Prop}
    (h : stopLive id t = (none, t')) (hi : Intact id) (hp : ∀ x, p x → Intact x)
    (hheld : Held p t.world) : Held (fun x => p x ∧ x ≠ id) t'.world := by
  unfold stopLive callOk at h
  split at h
  · cases h
  · cases h
  · next a t₁ hnoerr hrpc =>
    obtain ⟨-, rfl⟩ := Prod.mk.inj h
    obtain ⟨hcalled, hans⟩ := rpc_called hrpc
    obtain ⟨hnil, w, o, -, hh⟩ := hans a rfl
    have hheld' := hcalled.held p hp (fun tgt ht => nomatch ht) hheld
    refine ⟨fun s hs => ⟨hheld'.table s hs, ?_⟩, fun tgt htgt => ?_, hheld'.single⟩
    · simp only [Engine.handle, ipcHandleStopLive, hi.param] at hh
      split at hh
      · obtain ⟨rfl, -⟩ := Prod.mk.inj hh
        exact absurd rfl (hnoerr _ _)
      · obtain ⟨hresp, heng⟩ := Prod.mk.inj hh
        rcases sessionMgrStop_sessions w.engine.media id o.null with ⟨-, he⟩ | ⟨hrc, -⟩
        · rw [← heng] at hs
          exact (Keyed.mem_erase.mp (by rwa [← he])).2
        · rw [respond, if_neg hrc] at hresp
          exact absurd hresp.symm (hnoerr _ _)
    · rw [hnil] at htgt
      cases htgt

/-- The status describes the engine as it is, with nothing in flight. -/
structure Reported (st : Status) (w : World) : Prop where
  settled : w.inFlight = []
  status : st = engineGetStatus w.engine

theorem status_called {t t' : Turn} {r : Except RpcErr Status} (h : status t = (r, t')) :
    Called .getStatus t t' ∧ ∀ st, r = .ok st → Reported st t'.world := by
  unfold status at h
  split at h
  · next hrpc =>
    obtain ⟨rfl, rfl⟩ := Prod.mk.inj h
    exact ⟨(rpc_called hrpc).1, fun st hst => nomatch hst⟩
  · next hrpc =>
    obtain ⟨rfl, rfl⟩ := Prod.mk.inj h
    exact ⟨(rpc_called hrpc).1, fun st hst => nomatch hst⟩
  · next st₀ t₁ hrpc =>
    obtain ⟨rfl, rfl⟩ := Prod.mk.inj h
    obtain ⟨hcalled, hans⟩ := rpc_called hrpc
    refine ⟨hcalled, fun st hst => ?_⟩
    obtain rfl := Except.ok.inj hst
    obtain ⟨hnil, w, o, -, hh⟩ := hans _ rfl
    obtain ⟨hst, heng⟩ := Prod.mk.inj hh
    exact ⟨hnil, by rw [← heng]; exact (Answer.status.inj hst).symm⟩
  · next t₁ hrpc =>
    obtain ⟨-, hans⟩ := rpc_called hrpc
    obtain ⟨-, w, o, -, hh⟩ := hans _ rfl
    cases hh

theorem Reported.idle {st : Status} {w : World} {p : Bytes → Prop} (h : Reported st w)
    (hst : st.running = false) : Held p w := by
  have hnil : w.engine.media.sessions = [] := by
    cases hs : w.engine.media.sessions with
    | nil => rfl
    | cons s ss =>
      rw [h.status, engineGetStatus, hs] at hst
      cases hst
  refine ⟨fun s hs => ?_, fun t ht => ?_, by rw [hnil]; exact Nat.zero_le 1⟩
  · rw [hnil] at hs
    cases hs
  · rw [h.settled] at ht
    cases ht

/-- A running session is the only one the engine holds. -/
theorem Reported.running {st : Status} {w : World} {p : Bytes → Prop} (h : Reported st w)
    (hst : st.running = true) (hp : ∀ x, p x → Intact x) (hheld : Held p w) :
    Held (· = st.sessionID) w ∧ p st.sessionID := by
  obtain ⟨hnil, hstatus⟩ := h
  cases hs : w.engine.media.sessions with
  | nil =>
    rw [hstatus, engineGetStatus, hs] at hst
    cases hst
  | cons s ss =>
    have hkey : p (sessionKey s) := hheld.table s (by rw [hs]; exact List.mem_cons_self)
    have hid : st.sessionID = sessionKey s := by
      rw [hstatus, engineGetStatus, hs]
      exact (hp _ hkey).result
    have hss : ss = [] := by
      have := hheld.single
      rw [hs, List.length_cons] at this
      exact List.length_eq_zero_iff.mp (by omega)
    refine ⟨⟨fun s' hs' => ?_, fun t ht => ?_, hheld.single⟩, by rwa [hid]⟩
    · rw [hs, hss, List.mem_singleton] at hs'
      rw [hs', hid]
    · rw [hnil] at ht
      cases ht

/-! ## Ownership -/

/-- What the engine holds or may still start belongs to the one entry, which is not pending. -/
inductive Owned (w : World) : Prop where
  | free (h : w.sessions = []) (held : Held (fun _ => False) w) : Owned w
  | taken (e : Entry) (h : w.sessions = [e]) (intact : Intact e.callID)
      (held : Held (fun id => e.state ≠ .pending ∧ id = e.callID) w) : Owned w

theorem Held.setSessions {p : Bytes → Prop} {t : Turn} (h : Held p t.world) (m : Manager) :
    Held p (t.setSessions m).world :=
  ⟨h.table, h.starts, h.single⟩

theorem find_single (e : Entry) (id : Bytes) :
    Manager.find [e] id = if e.callID = id then some e else none := Keyed.lookup_cons

theorem erase_single (e : Entry) : Keyed.erase Entry.callID e.callID [e] = [] := by
  simp [Keyed.erase]

theorem insert_single {e e' : Entry} (h : e'.callID = e.callID) :
    Keyed.insert Entry.callID e' [e] = [e'] := by
  rw [Keyed.insert, h, erase_single]

theorem Owned.cancel {t : Turn} (h : Owned t.world) (id : Bytes) :
    Owned (t.setSessions (t.world.sessions.cancel id).2).world := by
  cases h with
  | free hs held =>
    rw [hs]
    exact .free rfl (held.setSessions _)
  | taken e hs hi held =>
    rw [hs, Manager.cancel, find_single]
    by_cases hid : e.callID = id
    · rw [if_pos hid]
      by_cases hp : e.state = .pending
      · simp only [hp, ne_eq, not_true_eq_false, if_false, ← hid, erase_single]
        exact .free rfl ((held.mono fun x hx => hx.1 hp).setSessions _)
      · simp only [ne_eq, hp, not_false_eq_true, if_true]
        exact .taken e rfl hi (held.setSessions _)
    · rw [if_neg hid]
      exact .taken e rfl hi (held.setSessions _)

/-- An entry may be dropped once the engine no longer holds its session. -/
theorem Owned.stop {t : Turn} {id : Bytes} (h : Owned t.world)
    (hgone : ∀ p, Held p t.world → Held (fun x => p x ∧ x ≠ id) t.world) :
    Owned (t.setSessions (t.world.sessions.stop id).2).world := by
  cases h with
  | free hs held =>
    rw [hs]
    exact .free rfl (held.setSessions _)
  | taken e hs hi held =>
    rw [hs, Manager.stop, find_single]
    by_cases hid : e.callID = id
    · simp only [← hid, erase_single]
      have := hgone _ held
      exact .free rfl ((this.mono fun x hx => hx.2 (hx.1.2.trans hid)).setSessions _)
    · rw [if_neg hid]
      exact .taken e rfl hi (held.setSessions _)

theorem owned_markCleanup {t : Turn} {e : Entry} (hs : t.world.sessions = [e])
    (hi : Intact e.callID) (held : Held (· = e.callID) t.world) :
    Owned (t.setSessions (t.world.sessions.markCleanup e.callID).2).world := by
  rw [hs, Manager.markCleanup, find_single, if_pos rfl]
  refine .taken { e with state := .cleanup } (insert_single rfl) hi ?_
  exact (held.mono fun x hx => ⟨by simp, hx⟩).setSessions _

theorem Owned.markCleanup {t : Turn} (h : Owned t.world) (id : Bytes) :
    Owned (t.setSessions (t.world.sessions.markCleanup id).2).world := by
  cases h with
  | free hs held =>
    rw [hs]
    exact .free rfl (held.setSessions _)
  | taken e hs hi held =>
    by_cases hid : e.callID = id
    · rw [← hid]
      exact owned_markCleanup hs hi (held.mono fun x hx => hx.2)
    · rw [hs, Manager.markCleanup, find_single, if_neg hid]
      exact .taken e rfl hi (held.setSessions _)

theorem Owned.intact {w : World} (h : Owned w) : Held Intact w := by
  cases h with
  | free hs held => exact held.mono fun x hx => hx.elim
  | taken e hs hi held => exact held.mono fun x hx => hx.2 ▸ hi

/-- A call that starts nothing keeps ownership. -/
theorem Called.owned {req : Request} {t t' : Turn} (h : Called req t t')
    (hreq : ∀ tgt, req ≠ .startLive tgt) (ho : Owned t.world) : Owned t'.world := by
  cases ho with
  | free hs held =>
    refine .free (h.sessions.trans hs) (h.held _ (fun x hx => hx.elim) ?_ held)
    exact fun tgt ht => absurd ht (hreq tgt)
  | taken e hs hi held =>
    refine .taken e (h.sessions.trans hs) hi (h.held _ (fun x hx => hx.2 ▸ hi) ?_ held)
    exact fun tgt ht => absurd ht (hreq tgt)

/-! ## Handlers -/

theorem stopLive_gone {id : Bytes} {t t' : Turn} (h : stopLive id t = (none, t')) (hi : Intact id)
    (hheld : Held Intact t.world) (p : Bytes → Prop) (hp : Held p t'.world) :
    Held (fun x => p x ∧ x ≠ id) t'.world := by
  have hgone := stopLive_ok h hi (fun x hx => hx) hheld
  exact ⟨fun s hs => ⟨hp.table s hs, (hgone.table s hs).2⟩,
    fun tgt ht => ⟨hp.starts tgt ht, (hgone.starts tgt ht).2⟩, hp.single⟩

theorem Owned.bye {t : Turn} (ho : Owned t.world) {callID : Bytes} (hi : Intact callID) :
    Owned (bye callID t).world := by
  unfold App.bye
  split
  · next err t' hstop =>
    exact ((callOk_called hstop).owned (fun tgt => nofun) ho).markCleanup callID
  · next t' hstop =>
    have ho' := (callOk_called hstop).owned (fun tgt => nofun) ho
    exact ho'.stop (stopLive_gone hstop hi ho.intact)

theorem Owned.stopOwnedMediaLocked {t : Turn} (ho : Owned t.world) :
    Owned (stopOwnedMediaLocked t).world := by
  unfold App.stopOwnedMediaLocked
  have ho' := ho
  cases ho with
  | free hs held =>
    rw [hs]
    exact ho'
  | taken e hs hi held =>
    rw [hs]
    exact ho'.bye hi

theorem Owned.leaseOne {t : Turn} (cfg : Config) (now : ℤ) (ho : Owned t.world) (live : Live) :
    Owned (leaseOne cfg now t live).world := by
  unfold App.leaseOne
  split
  · exact ho.stopOwnedMediaLocked
  split
  · exact ho
  split
  · exact ho.stopOwnedMediaLocked
  split
  · next t₁ hkeep => exact (callOk_called hkeep).owned (fun tgt => nofun) ho
  · next err t₁ hkeep =>
    have ho₁ := (callOk_called hkeep).owned (fun tgt => nofun) ho
    split
    · next hst => exact (status_called hst).1.owned (fun tgt => nofun) ho₁
    · next st t₂ hst =>
      obtain ⟨hcalled, hrep⟩ := status_called hst
      have ho₂ := hcalled.owned (fun tgt => nofun) ho₁
      have hrep := hrep st rfl
      split
      · next hgone =>
        refine ho₂.stop fun p hp => ?_
        cases hrun : st.running with
        | false => exact hrep.idle hrun
        | true =>
          have hid : st.sessionID ≠ live.callID := by
            rcases hgone with h | h
            · rw [hrun] at h
              cases h
            · exact h
          obtain ⟨hheld, -⟩ := hrep.running hrun (fun x hx => hx) ho₂.intact
          refine ⟨fun s hs' => ⟨hp.table s hs', ?_⟩, fun tgt ht => ⟨hp.starts tgt ht, ?_⟩,
            hp.single⟩
          · rw [hheld.table s hs']
            exact hid
          · rw [hheld.starts tgt ht]
            exact hid
      · exact ho₂

theorem Owned.leaseTick {t : Turn} (cfg : Config) (now : ℤ) (ho : Owned t.world) :
    Owned (leaseTick cfg now t).world := by
  unfold App.leaseTick
  have ho' := ho
  cases ho with
  | free hs held =>
    rw [hs]
    exact ho'
  | taken e hs hi held =>
    rw [hs]
    exact ho'.leaseOne cfg now e.live

theorem releaseUnowned_owned {st : Status} {t t' : Turn} {r : Except InviteErr Status}
    (h : releaseUnowned st t = (r, t')) (ho : Owned t.world) (hrep : Reported st t.world) :
    Owned t'.world ∧ ∀ st', r = .ok st' → Reported st' t'.world := by
  unfold releaseUnowned at h
  split at h
  · split at h
    · next hstop =>
      obtain ⟨rfl, rfl⟩ := Prod.mk.inj h
      exact ⟨(callOk_called hstop).owned (fun tgt => nofun) ho, fun st' hst => (nomatch hst)⟩
    · next t₁ hstop =>
      have ho₁ := (callOk_called hstop).owned (fun tgt => nofun) ho
      split at h
      · next hst =>
        obtain ⟨rfl, rfl⟩ := Prod.mk.inj h
        exact ⟨(status_called hst).1.owned (fun tgt => nofun) ho₁, fun st' hst => (nomatch hst)⟩
      · next st₁ t₂ hst =>
        obtain ⟨rfl, rfl⟩ := Prod.mk.inj h
        obtain ⟨hcalled, hrep⟩ := status_called hst
        refine ⟨hcalled.owned (fun tgt => nofun) ho₁, fun st' hst' => ?_⟩
        obtain rfl := Except.ok.inj hst'
        exact hrep _ rfl
  · obtain ⟨rfl, rfl⟩ := Prod.mk.inj h
    refine ⟨ho, fun st' hst' => ?_⟩
    obtain rfl := Except.ok.inj hst'
    exact hrep

theorem Owned.prepareInvite {t : Turn} (cfg : Config) {info : InviteInfo} (ho : Owned t.world)
    (hi : Intact info.callID) : Owned (prepareInvite cfg info t).2.world := by
  unfold App.prepareInvite
  split
  · exact ho
  split
  · next hst => exact (status_called hst).1.owned (fun tgt => nofun) ho
  · next st t₁ hst =>
    obtain ⟨hcalled, hrep⟩ := status_called hst
    have ho₁ := hcalled.owned (fun tgt => nofun) ho
    split
    · next hrel => exact (releaseUnowned_owned hrel ho₁ (hrep st rfl)).1
    · next st₂ t₂ hrel =>
      obtain ⟨ho₂, hrep₂⟩ := releaseUnowned_owned hrel ho₁ (hrep st rfl)
      split
      · exact ho₂
      · next hidle =>
        split
        · exact ho₂
        · next m hres =>
          -- the status has just shown the engine empty and settled
          have hheld : Held (fun _ => False) t₂.world :=
            (hrep₂ st₂ rfl).idle (Bool.eq_false_iff.mpr hidle)
          unfold Manager.reserve at hres
          split at hres
          · cases hres
          split at hres
          · cases hres
          · next hlen =>
            have hnil : t₂.world.sessions = [] := List.length_eq_zero_iff.mp (not_not.mp hlen)
            obtain ⟨-, rfl⟩ := Prod.mk.inj hres
            rw [hnil]
            exact .taken _ rfl hi ((hheld.mono fun x hx => hx.elim).setSessions _)

theorem isPending_single {e : Entry} {id : Bytes} (h : Manager.isPending [e] id = true) :
    e.callID = id ∧ e.state = .pending := by
  unfold Manager.isPending at h
  rw [find_single] at h
  by_cases hid : e.callID = id
  · rw [if_pos hid] at h
    exact ⟨hid, by simpa using h⟩
  · rw [if_neg hid] at h
    cases h

theorem Owned.inviteAccepted {t : Turn} (cfg : Config) {info : InviteInfo} (now : ℤ)
    (ho : Owned t.world) : Owned (inviteAccepted cfg info now t).2.world := by
  unfold App.inviteAccepted
  split
  · exact ho
  · next hpend =>
    obtain ⟨-, hpend⟩ := not_or.mp hpend
    rw [Bool.not_eq_true', Bool.not_eq_false] at hpend
    cases ho with
    | free hs held =>
      rw [hs] at hpend
      cases hpend
    | taken e hs hi held =>
      rw [hs] at hpend
      obtain ⟨hid, hstate⟩ := isPending_single hpend
      -- nothing was held for a pending entry; from here on its session may be
      have hnone : Held (· = e.callID) t.world := held.mono fun x hx => hx.2
      have hintact : ∀ x, x = e.callID → Intact x := fun x hx => hx ▸ hi
      split
      · next err t₁ hstart =>
        have h₁ := callOk_called hstart
        have held₁ := h₁.held _ hintact (fun tgt ht => by cases ht; exact hid.symm) hnone
        have hs₁ := h₁.sessions.trans hs
        split
        · next t₂ hstop =>
          have h₂ := callOk_called hstop
          rw [← hid]
          exact owned_markCleanup (h₂.sessions.trans hs₁) hi
            (h₂.held _ hintact (fun tgt ht => (nomatch ht)) held₁)
        · next t₂ hstop =>
          have h₂ := callOk_called hstop
          have hgone := stopLive_ok hstop (hid ▸ hi) hintact held₁
          have ho₂ : Owned t₂.world :=
            .taken e (h₂.sessions.trans hs₁) hi
              (hgone.mono fun x hx => absurd (hx.1.trans hid) hx.2)
          exact ho₂.cancel info.callID
      · next t₁ hstart =>
        have h₁ := callOk_called hstart
        have held₁ := h₁.held _ hintact (fun tgt ht => by cases ht; exact hid.symm) hnone
        have hs₁ := h₁.sessions.trans hs
        split
        · rw [← hid]
          exact owned_markCleanup hs₁ hi held₁
        · next live m hact =>
          rw [hs₁, Manager.activate, find_single, if_pos hid] at hact
          simp only [hstate, ne_eq, not_true_eq_false, if_false, Prod.mk.injEq] at hact
          obtain ⟨-, rfl⟩ := hact
          refine .taken ⟨{ e.live with startedAt := some now }, .active⟩ (insert_single rfl) hi ?_
          exact (held₁.mono fun x hx => ⟨by simp, hx⟩).setSessions _

theorem reconcileMedia_spec {t t' : Turn} {ok : Bool} (h : reconcileMedia t = (ok, t'))
    (hheld : Held Intact t.world) :
    t'.world.sessions = t.world.sessions ∧ Held Intact t'.world ∧
      (ok = true → Held (fun _ => False) t'.world) := by
  unfold reconcileMedia at h
  split at h
  · next hst =>
    obtain ⟨rfl, rfl⟩ := Prod.mk.inj h
    have hcalled := (status_called hst).1
    exact ⟨hcalled.sessions, hcalled.held _ (fun x hx => hx) (fun tgt ht => (nomatch ht)) hheld,
      fun hok => (nomatch hok)⟩
  · next st t₁ hst =>
    obtain ⟨hcalled, hrep⟩ := status_called hst
    have hrep := hrep st rfl
    have hheld₁ := hcalled.held _ (fun x hx => hx) (fun tgt ht => (nomatch ht)) hheld
    split at h
    · next hidle =>
      obtain ⟨rfl, rfl⟩ := Prod.mk.inj h
      exact ⟨hcalled.sessions, hheld₁, fun _ => hrep.idle (by simpa using hidle)⟩
    · next hrun =>
      split at h
      · obtain ⟨rfl, rfl⟩ := Prod.mk.inj h
        exact ⟨hcalled.sessions, hheld₁, fun hok => (nomatch hok)⟩
      split at h
      · next hstop =>
        obtain ⟨rfl, rfl⟩ := Prod.mk.inj h
        have h₂ := callOk_called hstop
        exact ⟨h₂.sessions.trans hcalled.sessions,
          h₂.held _ (fun x hx => hx) (fun tgt ht => (nomatch ht)) hheld₁,
          fun hok => (nomatch hok)⟩
      · next t₂ hstop =>
        obtain ⟨rfl, rfl⟩ := Prod.mk.inj h
        have h₂ := callOk_called hstop
        obtain ⟨honly, hi⟩ := hrep.running (by simpa using hrun) (fun x hx => hx) hheld₁
        refine ⟨h₂.sessions.trans hcalled.sessions,
          h₂.held _ (fun x hx => hx) (fun tgt ht => (nomatch ht)) hheld₁, fun _ => ?_⟩
        have hgone := stopLive_ok hstop hi (fun x (hx : x = st.sessionID) => hx ▸ hi) honly
        exact hgone.mono fun x hx => hx.2 hx.1

/-! ## Runs -/

/-- The Call-IDs a step brings in. -/
def Input.callIDs : Input → List Bytes
  | .prepareInvite info _ | .inviteAccepted info _ _ | .inviteFailed info => [info.callID]
  | .bye callID _ => [callID]
  | _ => []

/-- The engine's ids are those of Call-IDs, and a daemon that came up owns what it holds. -/
structure Inv (w : World) : Prop where
  held : Held Intact w
  owned : w.registered = true → Owned w

theorem Owned.inv {w : World} (h : Owned w) : Inv w := ⟨h.intact, fun _ => h⟩

theorem fresh_inv (boot : Boot) : Inv (World.fresh boot) where
  held := ⟨fun _ hs => (nomatch hs), fun _ ht => (nomatch ht), Nat.zero_le 1⟩
  owned h := nomatch h

theorem step_inv {cfg : Config} {w : World} {i : Input} (hids : ∀ id ∈ i.callIDs, Intact id)
    (h : Inv w) : Inv (step cfg w i) := by
  cases i with
  | start script =>
    simp only [step]
    have hstart : Held Intact { w with registered := false, sessions := [] } :=
      ⟨h.held.table, h.held.starts, h.held.single⟩
    obtain ⟨hs, hheld, hok⟩ := reconcileMedia_spec
      (t := ⟨{ w with registered := false, sessions := [] }, script⟩) rfl hstart
    refine ⟨⟨hheld.table, hheld.starts, hheld.single⟩, fun hreg => .free hs ?_⟩
    have hfree := hok hreg
    exact ⟨hfree.table, hfree.starts, hfree.single⟩
  | prepareInvite info script =>
    simp only [step]
    split
    · next hreg => exact ((h.owned hreg).prepareInvite cfg (hids _ List.mem_cons_self)).inv
    · exact h
  | inviteAccepted info now script =>
    simp only [step]
    split
    · next hreg => exact ((h.owned hreg).inviteAccepted cfg now).inv
    · exact h
  | inviteFailed info =>
    simp only [step]
    split
    · next hreg => exact ((h.owned hreg).cancel info.callID).inv
    · exact h
  | bye callID script =>
    simp only [step]
    split
    · next hreg => exact ((h.owned hreg).bye (hids _ List.mem_cons_self)).inv
    · exact h
  | leaseTick now script =>
    simp only [step]
    split
    · next hreg => exact ((h.owned hreg).leaseTick cfg now).inv
    · exact h
  | keepaliveFailure script =>
    simp only [step]
    split
    · next hreg => exact (h.owned hreg).stopOwnedMediaLocked.inv
    · exact h
  | engine event =>
    refine ⟨h.held.event (fun x hx => hx) event, fun hreg => ?_⟩
    obtain ⟨hs, hr⟩ := event_daemon w event
    cases h.owned (hr.symm.trans hreg) with
    | free hnil held => exact .free (hs.trans hnil) (held.event (fun x hx => hx.elim) event)
    | taken e he hi held =>
      refine .taken e (hs.trans he) hi (held.event ?_ event)
      rintro x ⟨-, rfl⟩
      exact hi

theorem run_inv {cfg : Config} {w : World} {inputs : List Input} (h : Inv w)
    (hids : ∀ i ∈ inputs, ∀ id ∈ i.callIDs, Intact id) : Inv (run cfg w inputs) := by
  induction inputs generalizing w with
  | nil => exact h
  | cons i inputs ih =>
    obtain ⟨hi, hrest⟩ := List.forall_mem_cons.mp hids
    exact ih (step_inv hi h) hrest

/-- **No orphan live session.** In every run whose Call-IDs are shorter than 128 bytes, valid
UTF-8 and free of NUL, a daemon whose `reconcileMedia` succeeded has an entry for every session in
the engine's table; requests still in flight do not matter. -/
theorem sessions_are_registered (cfg : Config) (boot : Boot) (inputs : List Input)
    (hids : ∀ i ∈ inputs, ∀ id ∈ i.callIDs,
      id.length < 128 ∧ validUtf8 id = true ∧ (0 : UInt8) ∉ id)
    (hreg : (run cfg (World.fresh boot) inputs).registered = true) :
    ∀ s ∈ (run cfg (World.fresh boot) inputs).engine.media.sessions,
      ((run cfg (World.fresh boot) inputs).sessions.get (sessionKey s)).isSome = true := by
  intro s hs
  have hinv : Inv (run cfg (World.fresh boot) inputs) := by
    refine run_inv (fresh_inv boot) fun i hi id hid => ?_
    obtain ⟨hshort, hvalid, hnul⟩ := hids i hi id hid
    exact ⟨hshort, hvalid, hnul⟩
  cases hinv.owned hreg with
  | free hnil held => exact (held.table s hs).elim
  | taken e he hi held =>
    rw [he, Manager.get, find_single, if_pos (held.table s hs).2.symm]
    rfl

/-! ## Two runs -/

def demoConfig : Config := ⟨[ascii "340200"], ascii "h264", 1920, 1080, 25, 4096, 96, 3600⟩

def demoBoot : Boot := ⟨true, [], 1920, 1080, 25, 30, 0, false, []⟩

/-- GStreamer does everything it is asked for. -/
def demoOutcome : Outcome :=
  ⟨⟨true, true, true, true, true, true, true, true, true, true, true, 0, .success⟩, 0, .success⟩

def demoInfo (callID : Bytes) : InviteInfo :=
  ⟨callID, ascii "340200", ascii "100", ascii "10.0.0.2", 9000⟩

def answered : Call := ⟨[], .answered demoOutcome⟩

/-- A call is set up; then the engine handles a lease refresh too late for its answer. -/
def demoInputs (callID : Bytes) : List Input :=
  [.start [answered], .prepareInvite (demoInfo callID) [answered],
    .inviteAccepted (demoInfo callID) 0 [answered],
    .leaseTick 10 [⟨[], .sent⟩, ⟨[.handle demoOutcome], .answered demoOutcome⟩]]

def demoWorld (callID : Bytes) : World := run demoConfig (World.fresh demoBoot) (demoInputs callID)

theorem sessions_are_registered_demo :
    (demoWorld (ascii "a@b")).engine.media.sessions.map sessionKey = [ascii "a@b"] ∧
    ∀ s ∈ (demoWorld (ascii "a@b")).engine.media.sessions,
      ((demoWorld (ascii "a@b")).sessions.get (sessionKey s)).isSome = true := by
  refine ⟨by decide +kernel, ?_⟩
  unfold demoWorld
  exact sessions_are_registered demoConfig demoBoot (demoInputs (ascii "a@b"))
    (by decide +kernel) (by decide +kernel)

/-- **A Call-ID that is not UTF-8 is orphaned.** The engine knows the one-byte Call-ID `FF` as
U+FFFD; the lease tick takes the session for another one and drops the daemon's entry. -/
theorem altered_call_id_is_orphaned :
    (demoWorld [0xFF]).registered = true ∧ (demoWorld [0xFF]).inFlight = [] ∧
    (demoWorld [0xFF]).engine.media.sessions.map sessionKey = [[0xEF, 0xBF, 0xBD]] ∧
    (demoWorld [0xFF]).sessions = [] := by
  decide +kernel

end FlowAlarm.App
