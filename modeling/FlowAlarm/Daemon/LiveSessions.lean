import FlowAlarm.Live.Control

/-!
# Live sessions of the daemon

`session/manager.go` and the handlers of `app/app.go` that run under `mediaMu`,
next to the media engine they control. A call of `media/rpc.go` either never
reaches the engine, or is sent and gets no answer in time, or is answered
(`Fate`); whatever was sent waits in flight and is handled in the order it was
sent, or lost. Between two calls anything may happen to the engine (`Event`):
it may handle a request that is still in flight, drop a session by itself, or
be restarted.
-/

namespace FlowAlarm.App

open FlowAlarm.Text FlowAlarm.Live

/-! ## The registry -/

/-- `session.Live`; `startedAt` is `none` for the zero time. -/
structure Live where
  callID : Bytes
  channelID : Bytes
  ssrc : Bytes
  destIP : Bytes
  destPort : ℤ
  startedAt : Option ℤ
  deriving DecidableEq

inductive State where
  | pending
  | active
  | cleanup
  deriving DecidableEq

structure Entry where
  live : Live
  state : State
  deriving DecidableEq

namespace Entry

def callID (e : Entry) : Bytes := e.live.callID

end Entry

/-- The map from Call-IDs to entries; `all` lists it in some order. -/
abbrev Manager := List Entry

namespace Manager

def find (m : Manager) (callID : Bytes) : Option Entry := Keyed.lookup Entry.callID callID m

def reserve (m : Manager) (callID : Bytes) (l : Live) : Bool × Manager :=
  if callID = [] then (false, m)
  else if m.length ≠ 0 then (false, m)
  else (true, Keyed.insert Entry.callID ⟨{ l with callID := callID }, .pending⟩ m)

def activate (m : Manager) (callID : Bytes) (now : ℤ) : Option Live × Manager :=
  match m.find callID with
  | none => (none, m)
  | some e =>
    if e.state ≠ .pending then (none, m)
    else
      let live := { e.live with startedAt := some now }
      (some live, Keyed.insert Entry.callID ⟨live, .active⟩ m)

def cancel (m : Manager) (callID : Bytes) : Option Live × Manager :=
  match m.find callID with
  | none => (none, m)
  | some e =>
    if e.state ≠ .pending then (none, m)
    else (some e.live, Keyed.erase Entry.callID callID m)

def markCleanup (m : Manager) (callID : Bytes) : Bool × Manager :=
  match m.find callID with
  | none => (false, m)
  | some e => (true, Keyed.insert Entry.callID { e with state := .cleanup } m)

def needsCleanup (m : Manager) (callID : Bytes) : Bool :=
  match m.find callID with
  | none => false
  | some e => e.state == .cleanup

def stop (m : Manager) (callID : Bytes) : Option Live × Manager :=
  match m.find callID with
  | none => (none, m)
  | some e => (some e.live, Keyed.erase Entry.callID callID m)

def get (m : Manager) (callID : Bytes) : Option Live := (m.find callID).map (·.live)

def isPending (m : Manager) (callID : Bytes) : Bool :=
  match m.find callID with
  | none => false
  | some e => e.state == .pending

def all (m : Manager) : List Live := m.map (·.live)

end Manager

/-! ## The daemon and the engine -/

/-- What the handlers read of the configuration. -/
structure Config where
  channels : List Bytes
  codec : Bytes
  width : ℤ
  height : ℤ
  fps : ℤ
  bitrate : ℤ
  payloadType : ℤ
  mediaMaxLive : ℤ

def Config.hasChannel (cfg : Config) (id : Bytes) : Bool := id != [] && cfg.channels.contains id

/-- `sipua.InviteInfo`. -/
structure InviteInfo where
  callID : Bytes
  channelID : Bytes
  ssrc : Bytes
  destIP : Bytes
  destPort : ℤ

/-- The daemon's registry, the engine, and the requests sent and not yet handled, oldest first.
`registered` once `reconcileMedia` of this daemon lifetime has succeeded. -/
structure World where
  registered : Bool
  sessions : Manager
  engine : Engine
  inFlight : List Request

def World.fresh (boot : Boot) : World := ⟨false, [], Engine.init boot, []⟩

/-- What may happen to the engine while no answer is awaited. -/
inductive Event where
  | handle (o : Outcome)
  | lose
  | bus (msg : BusMessage) (null : StateChange)
  | idle
  | reap (nowUs : ℤ) (null : StateChange)
  | restart (boot : Boot)

def World.withMedia (w : World) (m : Media) : World := { w with engine := { w.engine with media := m } }

def World.event (w : World) : Event → World
  | .handle o =>
    match w.inFlight with
    | [] => w
    | req :: rest => { w with engine := (w.engine.handle req o).2, inFlight := rest }
  | .lose => { w with inFlight := w.inFlight.drop 1 }
  | .bus msg null => w.withMedia (Live.step w.engine.media (.bus msg null))
  | .idle => w.withMedia (Live.step w.engine.media .idle)
  | .reap nowUs null =>
    w.withMedia (Live.step w.engine.media
      (.reap (w.engine.boot.liveLeaseTimeoutS * 1000000) nowUs null))
  | .restart boot => { w with engine := Engine.init boot }

def World.events (w : World) (es : List Event) : World := es.foldl World.event w

/-! ## Calls -/

inductive Fate where
  | lost
  | sent
  | answered (o : Outcome)

/-- What happens before a call is made, and to the call. -/
structure Call where
  before : List Event
  fate : Fate

/-- A handler at work: the world, and what is in store for its next calls. -/
structure Turn where
  world : World
  script : List Call

/-- `RPC.call`. The engine answers only when nothing sent before is left in flight; without an
answer the caller sees a time-out. -/
def rpc (req : Request) (t : Turn) : Option Answer × Turn :=
  match t.script with
  | [] => (none, t)
  | c :: rest =>
    let w := t.world.events c.before
    match c.fate with
    | .lost => (none, ⟨w, rest⟩)
    | .sent => (none, ⟨{ w with inFlight := w.inFlight ++ [req] }, rest⟩)
    | .answered o =>
      if w.inFlight ≠ [] then (none, ⟨{ w with inFlight := w.inFlight ++ [req] }, rest⟩)
      else
        match w.engine.handle req o with
        | (a, e) => (some a, ⟨{ w with engine := e }, rest⟩)

/-- A transport error, or the engine's error response. -/
inductive RpcErr where
  | transport
  | protocol (code : ℤ) (message : Bytes)
  deriving DecidableEq

/-- The calls that are answered with `ok`: `StartLive`, `StopLive` and `KeepaliveLive`. -/
def callOk (req : Request) (t : Turn) : Option RpcErr × Turn :=
  match rpc req t with
  | (none, t) => (some .transport, t)
  | (some (.error code message), t) => (some (.protocol code message), t)
  | (some _, t) => (none, t)

def startLive (target : Target) (t : Turn) : Option RpcErr × Turn := callOk (.startLive target) t

def stopLive (sessionID : Bytes) (t : Turn) : Option RpcErr × Turn := callOk (.stopLive sessionID) t

def keepaliveLive (sessionID : Bytes) (t : Turn) : Option RpcErr × Turn :=
  callOk (.keepaliveLive sessionID) t

def status (t : Turn) : Except RpcErr Status × Turn :=
  match rpc .getStatus t with
  | (none, t) => (.error .transport, t)
  | (some (.error code message), t) => (.error (.protocol code message), t)
  | (some (.status st), t) => (.ok st, t)
  -- an answer without these fields leaves the zero status
  | (some .ok, t) => (.ok ⟨false, 0, 0, [], [], [], 0, []⟩, t)

def Turn.setSessions (t : Turn) (m : Manager) : Turn :=
  { t with world := { t.world with sessions := m } }

/-! ## The handlers -/

inductive InviteErr where
  | unknownChannel (channelID : Bytes)
  | unavailable (err : RpcErr)
  | orphanCleanup (err : RpcErr)
  | statusAfterCleanup (err : RpcErr)
  | busy (st : Status)
  | anotherPending
  | cancelledBeforeAck (callID : Bytes)
  | startFailed (err : RpcErr)
  | couldNotActivate (callID : Bytes)
  deriving DecidableEq

/-- The branch of `PrepareInvite` that stops a session no entry stands for. -/
def releaseUnowned (st : Status) (t : Turn) : Except InviteErr Status × Turn :=
  if st.running ∧ st.sessionID ≠ [] ∧ t.world.sessions.get st.sessionID = none then
    match stopLive st.sessionID t with
    | (some err, t) => (.error (.orphanCleanup err), t)
    | (none, t) =>
      match status t with
      | (.error err, t) => (.error (.statusAfterCleanup err), t)
      | (.ok st, t) => (.ok st, t)
  else (.ok st, t)

def prepareInvite (cfg : Config) (info : InviteInfo) (t : Turn) : Option InviteErr × Turn :=
  if !cfg.hasChannel info.channelID then (some (.unknownChannel info.channelID), t)
  else
    match status t with
    | (.error err, t) => (some (.unavailable err), t)
    | (.ok st, t) =>
      match releaseUnowned st t with
      | (.error err, t) => (some err, t)
      | (.ok st, t) =>
        if st.running then (some (.busy st), t)
        else
          match t.world.sessions.reserve info.callID
            ⟨[], info.channelID, info.ssrc, info.destIP, info.destPort, none⟩ with
          | (false, _) => (some .anotherPending, t)
          | (true, m) => (none, t.setSessions m)

def inviteTarget (cfg : Config) (info : InviteInfo) : Target :=
  { sessionID := info.callID, channelID := info.channelID, codec := cfg.codec, width := cfg.width
    height := cfg.height, fps := cfg.fps, bitrate := cfg.bitrate, destIP := info.destIP
    destPort := info.destPort, ssrc := info.ssrc, payloadType := cfg.payloadType }

def inviteAccepted (cfg : Config) (info : InviteInfo) (now : ℤ) (t : Turn) :
    Option InviteErr × Turn :=
  if t.world.sessions.get info.callID = none ∨ !t.world.sessions.isPending info.callID then
    (some (.cancelledBeforeAck info.callID), t)
  else
    match startLive (inviteTarget cfg info) t with
    | (some err, t) =>
      -- the start may have happened: stop by the same id before the reservation is let go of
      match stopLive info.callID t with
      | (some _, t) =>
        (some (.startFailed err), t.setSessions (t.world.sessions.markCleanup info.callID).2)
      | (none, t) => (some (.startFailed err), t.setSessions (t.world.sessions.cancel info.callID).2)
    | (none, t) =>
      match t.world.sessions.activate info.callID now with
      | (none, _) =>
        (some (.couldNotActivate info.callID),
          t.setSessions (t.world.sessions.markCleanup info.callID).2)
      | (some _, m) => (none, t.setSessions m)

def inviteFailed (info : InviteInfo) (t : Turn) : Turn :=
  t.setSessions (t.world.sessions.cancel info.callID).2

def bye (callID : Bytes) (t : Turn) : Turn :=
  match stopLive callID t with
  | (some _, t) => t.setSessions (t.world.sessions.markCleanup callID).2
  | (none, t) => t.setSessions (t.world.sessions.stop callID).2

/-- The body of `stopOwnedMediaLocked` for one session. -/
def stopOwned (t : Turn) (live : Live) : Turn := bye live.callID t

def stopOwnedMediaLocked (t : Turn) : Turn := t.world.sessions.all.foldl stopOwned t

/-- The body of `mediaLeaseLoop` for one session. -/
def leaseOne (cfg : Config) (now : ℤ) (t : Turn) (live : Live) : Turn :=
  if t.world.sessions.needsCleanup live.callID then stopOwnedMediaLocked t
  else
    match live.startedAt with
    | none => t
    | some startedAt =>
      if cfg.mediaMaxLive ≤ now - startedAt then stopOwnedMediaLocked t
      else
        match keepaliveLive live.callID t with
        | (none, t) => t
        | (some _, t) =>
          match status t with
          | (.error _, t) => t
          | (.ok st, t) =>
            if !st.running ∨ st.sessionID ≠ live.callID then
              t.setSessions (t.world.sessions.stop live.callID).2
            else t

/-- One tick of `mediaLeaseLoop`. -/
def leaseTick (cfg : Config) (now : ℤ) (t : Turn) : Turn :=
  t.world.sessions.all.foldl (leaseOne cfg now) t

/-- `reconcileMedia` of a daemon that talks to the engine: whether it succeeded. -/
def reconcileMedia (t : Turn) : Bool × Turn :=
  match status t with
  | (.error _, t) => (false, t)
  | (.ok st, t) =>
    if !st.running then (true, t)
    else if st.sessionID = [] then (false, t)
    else
      match stopLive st.sessionID t with
      | (some _, t) => (false, t)
      | (none, t) => (true, t)

/-! ## Runs -/

inductive Input where
  /-- A daemon starts; whatever ran before is gone with its registry. -/
  | start (script : List Call)
  | prepareInvite (info : InviteInfo) (script : List Call)
  | inviteAccepted (info : InviteInfo) (now : ℤ) (script : List Call)
  | inviteFailed (info : InviteInfo)
  | bye (callID : Bytes) (script : List Call)
  | leaseTick (now : ℤ) (script : List Call)
  | keepaliveFailure (script : List Call)
  | engine (event : Event)

/-- The handlers run once `reconcileMedia` has succeeded. -/
def step (cfg : Config) (w : World) : Input → World
  | .start script =>
    match reconcileMedia ⟨{ w with registered := false, sessions := [] }, script⟩ with
    | (ok, t) => { t.world with registered := ok }
  | .prepareInvite info script =>
    if w.registered then (prepareInvite cfg info ⟨w, script⟩).2.world else w
  | .inviteAccepted info now script =>
    if w.registered then (inviteAccepted cfg info now ⟨w, script⟩).2.world else w
  | .inviteFailed info => if w.registered then (inviteFailed info ⟨w, []⟩).world else w
  | .bye callID script => if w.registered then (bye callID ⟨w, script⟩).world else w
  | .leaseTick now script => if w.registered then (leaseTick cfg now ⟨w, script⟩).world else w
  | .keepaliveFailure script =>
    if w.registered then (stopOwnedMediaLocked ⟨w, script⟩).world else w
  | .engine event => w.event event

def run (cfg : Config) (w : World) (inputs : List Input) : World := inputs.foldl (step cfg) w

end FlowAlarm.App
