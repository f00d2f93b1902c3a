import Lasterm.Hub.Reconcile
import Mathlib.Logic.Function.Basic

/-!
# Connection attempts of one host

What the hub does to reach a host and to let go of it, cut at every await: the acquisition a
SPAWN or the host menu's Connect leads (`session/session-manager.ts`,
`session/session-acquisition.ts`), a restart's reconnect (`onReconnectAgent`), the automatic
one (`scheduleReconnect` of `session/ssh-connection-manager.ts`), the attach to the local
daemon (`attachDaemon` of `session/agent-connection-manager.ts`), an agent of another
version (`wireAgentEvents`), and `closeSession`.

Every map of the hub that takes part is keyed by the host, so one host is a system of its
own.  What is made is numbered in its order.  A fence of the hub's quit holds exactly while
the hub is not quitting, since it is taken before and a quit is never called off.  The HELLO
of an agent is taken to be said once.

## Main definitions

* `HostState` — the host's session, agent, acquisition, timer and attempts.
* `Attempt` — where an attempt is, and what it holds.
-/

namespace Lasterm.Hub

/-- What a `SessionAcquisition` can be. -/
inductive AcqState
  | connecting
  | closing
  | failed
  deriving DecidableEq

/-- A `SessionAcquisition`. -/
structure Acquisition where
  state : AcqState
  aborted : Bool
  /-- What `connectPromise` settled to: a session, or a rejection. -/
  settled : Option (Option ℕ)

/-- An entry of the map of agents. -/
structure Adopted where
  agent : ℕ
  /-- The session on whose behalf it was adopted. -/
  sessionId : ℕ

/-- Who leads an acquisition. -/
inductive Leader
  | spawn
  /-- The host menu's Connect or Reconnect (`reachHostOnRequest`). -/
  | request
  deriving DecidableEq

/-- What the leader of an acquisition waits for. -/
inductive Dial
  /-- `getOrCreateSession` returned. -/
  | gotSession
  /-- `start`, in `_connectSshAgent`. -/
  | dialling
  /-- `_connectSshAgent` threw. -/
  | rejected
  /-- `_connectSshAgent` returned. -/
  | dialled (agent : ℕ)
  /-- `adoptWhatTheDaemonHolds`. -/
  | adopting (agent : ℕ)

/-- Who waits for an attach to the daemon, by what it does when that fails. -/
inductive Caller
  /-- Nothing: a SPAWN, or a start after a retirement. -/
  | plain
  /-- `closeSession`: the connection closed, or a warm restart. -/
  | closes
  | again
  | startup

/-- An operation at an await. -/
inductive Attempt
  | lead (who : Leader) (stage : Dial) (acq sessionId : ℕ) (neverConnected : Bool)
  | follow (acq : ℕ)
  /-- A SPAWN that led none, after `getOrCreateSession`, and the agent it read before. -/
  | spawn (agent : Option ℕ) (sessionId : ℕ)
  /-- A timer of `scheduleReconnect`. -/
  | timer (sessionId : ℕ)
  /-- A reconnect that waits for `start`; `auto` if a timer began it. -/
  | reconnect (auto : Bool) (controller sessionId : ℕ)
  | reconnected (controller : ℕ)
  /-- `attachDaemonFresh`, with its agent once connected. -/
  | attach (agent : Option ℕ) (sessionId : ℕ)
  /-- A caller of `attachDaemon` and the attach it waits for; `none` if refused at once. -/
  | await (attach : Option ℕ) (sessionId : ℕ) (caller : Caller)

/-- What the hub holds about one host. -/
structure HostState where
  ssh : Bool
  session : Option ℕ
  /-- The `status` of each session object, in the map or not. -/
  status : ℕ → SessionStatus
  rows : ℕ → Option SessionStatus
  nextSession : ℕ
  agent : Option Adopted
  /-- The `connected` of each agent, in the map or not. -/
  connected : ℕ → Bool
  nextAgent : ℕ
  acquisition : Option ℕ
  acqs : ℕ → Acquisition
  nextAcq : ℕ
  controller : Option ℕ
  aborted : ℕ → Bool
  nextController : ℕ
  timer : Option ℕ
  /-- `daemonAttachPromises.get(hostId)`. -/
  attaching : Option ℕ
  /-- Whether the attach succeeded, once it settled. -/
  attached : ℕ → Option Bool
  stopping : Bool
  quitting : Bool
  userDisconnected : Bool
  /-- `startup` has run. -/
  started : Bool
  attempts : ℕ → Option Attempt
  nextAttempt : ℕ

namespace HostState

/-- A hub that has just started, over the sessions meta.db holds of the host. -/
def init (ssh : Bool) (rows : List SessionStatus) : HostState where
  ssh := ssh
  session := none
  status := fun _ => .closed
  rows := fun i => rows[i]?
  nextSession := rows.length
  agent := none
  connected := fun _ => false
  nextAgent := 0
  acquisition := none
  acqs := fun _ => ⟨.failed, false, none⟩
  nextAcq := 0
  controller := none
  aborted := fun _ => false
  nextController := 0
  timer := none
  attaching := none
  attached := fun _ => none
  stopping := false
  quitting := false
  userDisconnected := false
  started := false
  attempts := fun _ => none
  nextAttempt := 0

/-! ### Sessions -/

/-- `updateSessionStatus`: in memory if the session is the host's, and always in meta.db. -/
def updateSessionStatus (s : HostState) (sessionId : ℕ) (status : SessionStatus) :
    HostState :=
  { s with
    status :=
      if s.session = some sessionId then Function.update s.status sessionId status
      else s.status
    rows := Function.update s.rows sessionId ((s.rows sessionId).map fun _ => status) }

/-- `sessions.delete(hostId)`. -/
def deleteSession (s : HostState) : HostState := { s with session := none }

/-- Whether `getOrCreateSession` returns a session with this status. -/
def reusable (s : HostState) : SessionStatus → Bool
  | .active | .disconnected => true
  | .starting => !s.ssh
  | .detached | .closed => false

/-- `getOrCreateSession`, and the session it returns. -/
def getOrCreateSession (s : HostState) : HostState × ℕ :=
  match s.session.filter fun id => s.reusable (s.status id) with
  | some id => (s, id)
  | none =>
    ({ s with
      session := some s.nextSession
      status := Function.update s.status s.nextSession .starting
      rows := Function.update s.rows s.nextSession (some .starting)
      nextSession := s.nextSession + 1 }, s.nextSession)

/-! ### Agents -/

/-- `agents.get(hostId)?.connected`. -/
def reachable (s : HostState) : Bool := s.agent.any fun e => s.connected e.agent

/-- An agent that `start` or `connectOrLaunch` returned. -/
def newAgent (s : HostState) : HostState :=
  { s with
    connected := Function.update s.connected s.nextAgent true
    nextAgent := s.nextAgent + 1 }

/-- `agent.close()`. -/
def closeAgent (s : HostState) (a : ℕ) : HostState :=
  { s with connected := Function.update s.connected a false }

/-- `adoptAgent` sets the agent unless the hub quits or the host is being stopped. -/
def mayAdopt (s : HostState) : Bool := !s.quitting && !s.stopping

/-- `agents.delete(hostId)`, the agent closed. -/
def dropAgent (s : HostState) : HostState :=
  { s.agent.elim s fun e => s.closeAgent e.agent with agent := none }

/-! ### Operations at an await -/

/-- The attempt `t` is now `k`. -/
def setAttempt (s : HostState) (t : ℕ) (k : Option Attempt) : HostState :=
  { s with attempts := Function.update s.attempts t k }

/-- An operation that begins to wait. -/
def begin (s : HostState) (k : Attempt) : HostState :=
  { s.setAttempt s.nextAttempt (some k) with nextAttempt := s.nextAttempt + 1 }

/-- `clearTimeout` of the host's reconnect, and the abort of one under way:
`cancelReconnect`, and the beginning of `closeSession`. -/
def cancelReconnect (s : HostState) : HostState :=
  { s.timer.elim s fun t => s.setAttempt t none with
    timer := none
    aborted := s.controller.elim s.aborted fun c => Function.update s.aborted c true
    controller := none }

/-! ### Acquisitions -/

/-- A new acquisition for the host is begun. -/
def acquire (s : HostState) : HostState :=
  { s with
    acquisition := some s.nextAcq
    acqs := Function.update s.acqs s.nextAcq ⟨.connecting, false, none⟩
    nextAcq := s.nextAcq + 1 }

/-- The acquisition leaves the map, if it is the one there, and settles. -/
def settleAcq (s : HostState) (acq : ℕ) (result : Acquisition) : HostState :=
  { s with
    acquisition := if s.acquisition = some acq then none else s.acquisition
    acqs := Function.update s.acqs acq result }

/-- `Acq.commit`. -/
def commitAcq (s : HostState) (acq sessionId : ℕ) : HostState :=
  s.settleAcq acq { s.acqs acq with settled := some (some sessionId) }

/-- `Acq.fail`. -/
def failAcq (s : HostState) (acq : ℕ) : HostState :=
  s.settleAcq acq { s.acqs acq with state := .failed, settled := some none }

/-- `Acq.close`, also of `Acq.shutdownAll`, and of a `release` that reaps. -/
def closeAcq (s : HostState) : HostState :=
  match s.acquisition with
  | none => s
  | some acq => s.settleAcq acq ⟨.closing, true, some none⟩

/-! ### Closing -/

/-- `closeSession` of the lifecycle manager. -/
def lifecycleCloseSession (s : HostState) (sessionId : ℕ) : HostState :=
  (s.cancelReconnect.updateSessionStatus sessionId .closed).deleteSession

/-- `closeSession` of the session manager: a session that is not the host's is closed in
meta.db only. -/
def closeSession (s : HostState) (sessionId : ℕ) : HostState :=
  if s.session = some sessionId then
    s.dropAgent.closeAcq.lifecycleCloseSession sessionId
  else
    s.updateSessionStatus sessionId .closed

/-- The agent and the acquisition go, and the session is closed, if there is one. -/
def endHostSession (s : HostState) : HostState :=
  let s₁ := s.dropAgent.closeAcq
  s.session.elim s₁ s₁.lifecycleCloseSession

/-- `dropConnection`, and what `disconnectHost` does with no agent: the session waits. -/
def dropConnection (s : HostState) : HostState :=
  let s₁ := s.dropAgent
  s.session.elim s₁ fun id => s₁.updateSessionStatus id .disconnected

/-! ### The local daemon -/

/-- `attachDaemon`: the live agent is reused, an attach under way joined. -/
def attachDaemon (s : HostState) (sessionId : ℕ) (caller : Caller) : HostState :=
  if s.quitting then
    s.begin (.await none sessionId caller)
  else if s.reachable then
    s
  else
    let s := s.dropAgent
    match s.attaching with
    | some t => s.begin (.await (some t) sessionId caller)
    | none =>
      let t := s.nextAttempt
      { s.begin (.attach none sessionId) with attaching := some t }.begin
        (.await (some t) sessionId caller)

/-! ### Reconnects -/

/-- `scheduleReconnect`: unless nobody wants it, a timer is set. -/
def scheduleReconnect (s : HostState) (sessionId : ℕ) : HostState :=
  if s.quitting || s.userDisconnected || s.stopping then s
  else { s.begin (.timer sessionId) with timer := some s.nextAttempt }

/-- The controller of a new attempt, the one before it aborted. -/
def beginReconnect (s : HostState) (auto : Bool) (sessionId : ℕ) : HostState :=
  { s.begin (.reconnect auto s.nextController sessionId) with
    aborted := s.controller.elim s.aborted fun c => Function.update s.aborted c true
    controller := some s.nextController
    nextController := s.nextController + 1 }

/-- The `finally` of a reconnect. -/
def endReconnect (s : HostState) (t controller : ℕ) : HostState :=
  { s.setAttempt t none with
    controller := if s.controller = some controller then none else s.controller }

/-- What a reconnect checks once `start` returned. -/
def reconnectCurrent (s : HostState) (controller sessionId : ℕ) : Bool :=
  !s.stopping && !s.aborted controller && s.controller == some controller &&
    s.session == some sessionId

/-! ### The leader of an acquisition -/

/-- What `_connectSshAgent` checks once `start` returned. -/
def connectCurrent (s : HostState) (acq sessionId : ℕ) : Bool :=
  !s.stopping && !(s.acqs acq).aborted && s.session == some sessionId

/-- What the leader checks once `_connectSshAgent` returned. -/
def leaderCurrent (s : HostState) (acq sessionId : ℕ) : Bool :=
  s.acquisition == some acq && (s.acqs acq).state == .connecting &&
    !(s.acqs acq).aborted && s.session == some sessionId

/-- `reachHostOnRequest` up to its first await. -/
def reachHostOnRequest (s : HostState) : HostState :=
  let s := s.cancelReconnect
  if s.acquisition.isSome then
    s
  else
    let s := s.acquire
    let (s', sessionId) := s.getOrCreateSession
    s'.begin (.lead .request .gotSession (s.nextAcq - 1) sessionId false)

/-- A connection that failed takes a session that never connected out of the map, as far
as its leader is concerned: a SPAWN whenever the session still says `starting`, a request
if it is the host's and was new (`settleFailedConnect`). -/
def removesSession (s : HostState) (sessionId : ℕ) (neverConnected : Bool) :
    Leader → Bool
  | .spawn => s.status sessionId == .starting
  | .request => s.session == some sessionId && neverConnected

/-- The leader's reaction to a connection that failed. -/
def connectFailed (s : HostState) (who : Leader) (acq sessionId : ℕ)
    (neverConnected : Bool) : HostState :=
  let s₁ :=
    if s.removesSession sessionId neverConnected who then
      (s.updateSessionStatus sessionId .closed).deleteSession
    else if who = .request ∧ s.session = some sessionId then
      s.updateSessionStatus sessionId .disconnected
    else s
  s₁.failAcq acq

/-- The leader's reaction to an agent that comes too late: a SPAWN takes its session out
of the map, if it is there still; a request fails. -/
def connectAborted (s : HostState) (who : Leader) (acq sessionId : ℕ)
    (neverConnected : Bool) : HostState :=
  match who with
  | .spawn =>
    (if s.session = some sessionId then s.deleteSession else s).failAcq acq
  | .request => s.connectFailed .request acq sessionId neverConnected

/-- What a refused `adoptAgent` throws into. -/
def adoptRefused (s : HostState) (who : Leader) (acq sessionId : ℕ)
    (neverConnected : Bool) : HostState :=
  match who with
  | .spawn => s.failAcq acq
  | .request => s.connectFailed .request acq sessionId neverConnected

/-- The body of a SPAWN once it has its session.  `abandoned` says that whoever asked is
gone and nothing else holds the session. -/
def spawnBody (s : HostState) (agent : Option ℕ) (sessionId : ℕ) (abandoned : Bool) :
    HostState :=
  if abandoned then
    if s.session = some sessionId then
      (s.dropAgent.updateSessionStatus sessionId .closed).deleteSession
    else s
  else if s.ssh || agent.any s.connected then s
  else s.attachDaemon sessionId .plain

end HostState

/-! ### Steps -/

/-- How a leader's `start` settles; it waits for the agent's HELLO. -/
inductive Started
  | connected
  | failed
  /-- The agent is not of the version that was deployed. -/
  | mismatched
  deriving DecidableEq

/-- How a reconnect's `start` settles, and what the clock then says. -/
inductive Settled
  | connected
  | failed
  /-- The agent is not of the version that was deployed. -/
  | mismatched
  /-- It failed, and the time to reconnect is over. -/
  | timedOut
  /-- It failed in time, and the time was over when the next was to be scheduled. -/
  | expired
  deriving DecidableEq

/-- What can happen at one host. -/
inductive Step
  | startup (sessionId : ℕ)
  | closeSession (sessionId : ℕ)
  /-- `disconnectHost`; `outlive` if its terminals outlive the connection. -/
  | disconnectHost (outlive : Bool)
  | connectHost
  | reconnectHost (outlive : Bool)
  | stopBegins
  /-- Its daemon is kept no more; `stopped` if the agent is known to have stopped. -/
  | stopKeeping (stopped : Bool)
  /-- The stop is over; `heldAgent` if the host had an agent before. -/
  | stopEnds (heldAgent : Bool)
  | beginQuit
  /-- `handleSpawn`; `automatic` if nobody asked. -/
  | spawn (automatic : Bool)
  /-- `onReconnectAgent`. -/
  | restart
  /-- `startLocalAgentAgain` after a retirement, or the start that waited for it. -/
  | callDaemon (again : Bool)
  | linkLost (agent : ℕ)
  /-- The `close` event of an agent. -/
  | agentClosed (agent : ℕ)
  /-- The hub lets go of the connection: replaced, displaced. -/
  | releaseAgent
  | detach
  /-- A terminal is live again in a detached session. -/
  | undetach
  | sessionGot (t : ℕ)
  | dialSettles (t : ℕ) (how : Started)
  | leadResumes (t : ℕ) (abandoned : Bool)
  | followResumes (t : ℕ) (abandoned : Bool)
  | spawnResumes (t : ℕ) (abandoned : Bool)
  /-- `hostGone` if meta.db has the host no more. -/
  | timerFires (t : ℕ) (hostGone : Bool)
  | reconnectSettles (t : ℕ) (how : Settled)
  | reconnectEnds (t : ℕ)
  /-- `connectOrLaunch` settles. -/
  | attachConnects (t : ℕ) (ok : Bool)
  /-- `waitForChannelState` settles. -/
  | attachReports (t : ℕ) (ok : Bool)
  /-- The `finally` that removes the promise. -/
  | attachForgotten (t : ℕ)
  /-- A caller goes on after its attach; `looping` if too many restarts were made. -/
  | callerResumes (t : ℕ) (looping : Bool)

namespace HostState

/-- `markHostSessionDisconnected`, on one row. -/
def markDisconnected (status : SessionStatus) : SessionStatus :=
  if status = .closed then .closed else .disconnected

/-- `startup`: a session that was not closed is the host's again. -/
def startupSession (s : HostState) (sessionId : ℕ) : HostState :=
  let s₁ : HostState :=
    { s with
      started := true
      rows := fun i => (s.rows i).map markDisconnected
      status := Function.update s.status sessionId .disconnected
      session := some sessionId }
  if s.ssh then s₁ else s₁.attachDaemon sessionId .startup

/-- `disconnectHost`, where there is something to disconnect. -/
def disconnectHost (s : HostState) (outlive : Bool) : HostState :=
  let s₁ := { s with userDisconnected := true }.cancelReconnect.closeAcq
  if outlive && s.session.any fun id => s.status id != .starting then s₁.dropConnection
  else s₁.endHostSession

/-- The end of `stopKeeping`. -/
def stopKeeping (s : HostState) (stopped : Bool) : HostState :=
  let s := { s with userDisconnected := true }.cancelReconnect
  if stopped then s.endHostSession else s.dropConnection

/-- The `finally` of a stop: a session left waiting with nothing on its way is reconnected. -/
def stopEnds (s : HostState) (heldAgent : Bool) : HostState :=
  let s := { s with stopping := false }
  match s.session with
  | none => s
  | some id =>
    if heldAgent ∧ s.status id = .disconnected ∧ s.agent = none ∧ s.timer = none ∧
        s.controller = none ∧ s.acquisition = none ∧ ¬s.userDisconnected then
      s.scheduleReconnect id
    else s

/-- `reconnectHost`: what there is goes, and the host may be reached again. -/
def reconnectHost (s : HostState) (outlive : Bool) : HostState :=
  let s₁ := { s with userDisconnected := false }
  let s₂ :=
    if s.reachable then
      if outlive then s₁.dropConnection else s₁.endHostSession
    else s₁
  s₂.reachHostOnRequest

/-- `hostReconnecting`: the host is away, and its reconnect has the next attempt. -/
def reconnecting (s : HostState) : Bool :=
  !s.reachable && s.session.any (fun id => s.status id == .disconnected) &&
    (s.timer.isSome || s.controller.isSome)

/-- `spawnOnHost` up to its first await. -/
def spawnOnHost (s : HostState) : HostState :=
  let s := { s with userDisconnected := false }
  if s.reconnecting then
    s
  else if !s.reachable && s.ssh then
    match s.acquisition with
    | some acq => s.begin (.follow acq)
    | none =>
      let s := s.acquire
      let (s', sessionId) := s.getOrCreateSession
      s'.begin (.lead .spawn .gotSession (s.nextAcq - 1) sessionId false)
  else
    let (s', sessionId) := s.getOrCreateSession
    s'.begin (.spawn (s.agent.map (·.agent)) sessionId)

/-- The `close` event of an agent, with effects only if it is the host's. -/
def agentClosed (s : HostState) (a : ℕ) : HostState :=
  if s.quitting && s.stopping || s.agent.map (·.agent) ≠ some a then
    s
  else
    let s₁ := { s with agent := none }
    match s.session with
    | none => s₁
    | some id =>
      let s₂ := s₁.updateSessionStatus id .disconnected
      if s.ssh then s₂.scheduleReconnect id else s₂.attachDaemon id .closes

/-- The session is marked active, and `wireAgentEvents` finds an agent of another version: it is
closed, and the session with it, whatever agent the host has. -/
def abortAgentVersionMismatch (s : HostState) (sessionId : ℕ) : HostState :=
  ((s.updateSessionStatus sessionId .active).newAgent.closeAgent s.nextAgent).lifecycleCloseSession
    sessionId

/-- `start` settled in `_connectSshAgent`. -/
def dialSettles (s : HostState) (t : ℕ) (who : Leader) (acq sessionId : ℕ)
    (neverConnected : Bool) (how : Started) : HostState :=
  if how ≠ .failed ∧ s.connectCurrent acq sessionId then
    if how = .mismatched then
      (s.abortAgentVersionMismatch sessionId).setAttempt t
        (some (.lead who .rejected acq sessionId neverConnected))
    else
      let s₁ := (s.updateSessionStatus sessionId .active).newAgent
      s₁.setAttempt t
        (some (.lead who (.dialled s.nextAgent) acq sessionId neverConnected))
  else
    s.setAttempt t (some (.lead who .rejected acq sessionId neverConnected))

/-- The leader goes on with the agent `_connectSshAgent` returned. -/
def leadDialled (s : HostState) (t : ℕ) (who : Leader) (a acq sessionId : ℕ)
    (neverConnected : Bool) : HostState :=
  if s.leaderCurrent acq sessionId then
    if s.mayAdopt then
      { s.setAttempt t (some (.lead who (.adopting a) acq sessionId neverConnected)) with
        agent := some ⟨a, sessionId⟩ }
    else
      -- A host that is being stopped has the agent closed; a quit only refuses it.
      let s := if s.quitting then s else s.closeAgent a
      (s.setAttempt t none).adoptRefused who acq sessionId neverConnected
  else
    ((s.closeAgent a).setAttempt t none).connectAborted who acq sessionId neverConnected

/-- The leader goes on with what the daemon holds taken up. -/
def leadAdopted (s : HostState) (t : ℕ) (who : Leader) (a acq sessionId : ℕ)
    (abandoned : Bool) : HostState :=
  let s := s.setAttempt t none
  match who with
  | .spawn =>
    let s := s.commitAcq acq sessionId
    if s.session = some sessionId ∧ s.connected a then
      s.spawnBody (some a) sessionId abandoned
    else s
  | .request =>
    if (s.acqs acq).state = .connecting ∧ s.agent.map (·.agent) = some a then
      s.commitAcq acq sessionId
    -- The lease is released: nothing else holds the acquisition, so it is reaped.
    else if abandoned && s.acquisition == some acq then s.closeAcq
    else s

/-- What a timer of `scheduleReconnect` checks. -/
def timerCurrent (s : HostState) (sessionId : ℕ) : Bool :=
  !s.stopping && !s.reachable && !s.userDisconnected && s.session == some sessionId &&
    s.status sessionId != .closed

/-- A timer fires.  It closes the session of a host that meta.db has no more. -/
def timerFires (s : HostState) (t sessionId : ℕ) (hostGone : Bool) : HostState :=
  let s := { s.setAttempt t none with timer := none }
  if s.timerCurrent sessionId then
    if hostGone then s.lifecycleCloseSession sessionId else s.beginReconnect true sessionId
  else s

/-- Whether a reconnect that failed closes a session. -/
def givesUp (s : HostState) (auto : Bool) (controller sessionId : ℕ) : Settled → Bool
  | .connected | .failed | .mismatched => false
  | .timedOut => auto && !s.aborted controller && s.session == some sessionId
  | .expired =>
    auto && !s.aborted controller && !(s.quitting || s.userDisconnected || s.stopping)

/-- The `catch` of a reconnect, and its `finally`. -/
def reconnectFailed (s : HostState) (t : ℕ) (auto : Bool) (controller sessionId : ℕ)
    (how : Settled) : HostState :=
  let s₁ :=
    if s.givesUp auto controller sessionId how then s.lifecycleCloseSession sessionId
    else if auto && !s.aborted controller && how ≠ .timedOut then
      s.scheduleReconnect sessionId
    else s
  s₁.endReconnect t controller

/-- `start` settled in a reconnect. -/
def reconnectSettles (s : HostState) (t : ℕ) (auto : Bool) (controller sessionId : ℕ)
    (how : Settled) : HostState :=
  if how = .connected ∨ how = .mismatched then
    if s.reconnectCurrent controller sessionId ∧ how = .mismatched then
      (s.abortAgentVersionMismatch sessionId).reconnectFailed t auto controller sessionId .failed
    else if s.reconnectCurrent controller sessionId then
      let s₁ := (s.updateSessionStatus sessionId .active).newAgent
      if s.mayAdopt then
        { s₁.setAttempt t (some (.reconnected controller)) with
          agent := some ⟨s.nextAgent, sessionId⟩ }
      else s₁.reconnectFailed t auto controller sessionId .failed
    else s.endReconnect t controller
  else s.reconnectFailed t auto controller sessionId how

/-- `attachDaemonFresh` ends. -/
def attachSettles (s : HostState) (t : ℕ) (ok : Bool) : HostState :=
  { s.setAttempt t none with attached := Function.update s.attached t (some ok) }

/-- `attachDaemonFresh` fails: its agent is closed, and let go of if it is the host's. -/
def attachFails (s : HostState) (t : ℕ) (a : Option ℕ) : HostState :=
  let s₁ := a.elim s s.closeAgent
  { s₁.attachSettles t false with
    agent := s.agent.filter fun e => some e.agent != a }

/-- The end of `attachDaemonFresh`: what it adopts and marks, it checks only the hub's quit
and the host's stop for. -/
def attachCommits (s : HostState) (t a sessionId : ℕ) : HostState :=
  ({ s with agent := some ⟨a, sessionId⟩ }.updateSessionStatus sessionId .active).attachSettles
    t true

/-- A caller of `attachDaemon` whose attach failed. -/
def callerFailed (s : HostState) (sessionId : ℕ) (caller : Caller) (looping : Bool) :
    HostState :=
  match caller with
  | .plain => s
  | .closes => s.lifecycleCloseSession sessionId
  | .again =>
    if !s.quitting && s.session == some sessionId then
      s.updateSessionStatus sessionId .disconnected
    else s
  | .startup =>
    if s.quitting then s
    else if looping then s.lifecycleCloseSession sessionId
    else s.attachDaemon sessionId .closes

/-- A step of the system; `none` if it is not possible. -/
def step (s : HostState) : Step → Option HostState
  | .startup id =>
    if s.started ∨ s.quitting ∨ s.rows id = none ∨ s.rows id = some .closed then none
    else some (s.startupSession id)
  | .closeSession id =>
    if s.stopping ∨ s.rows id = none then none else some (s.closeSession id)
  | .disconnectHost outlive =>
    if s.stopping ∨ ¬s.ssh ∨ s.quitting ∨
        (s.session = none ∧ s.agent = none ∧ s.acquisition = none) then none
    else some (s.disconnectHost outlive)
  | .connectHost =>
    if s.stopping ∨ ¬s.ssh ∨ s.quitting then none
    else if s.reachable then some { s with userDisconnected := false }
    else some { s with userDisconnected := false }.reachHostOnRequest
  | .reconnectHost outlive =>
    if s.stopping ∨ ¬s.ssh ∨ s.quitting then none else some (s.reconnectHost outlive)
  | .stopBegins => if s.stopping then none else some { s with stopping := true }
  | .stopKeeping stopped =>
    if s.stopping ∧ ¬s.quitting then some (s.stopKeeping stopped) else none
  | .stopEnds heldAgent => if s.stopping then some (s.stopEnds heldAgent) else none
  | .beginQuit =>
    if s.quitting then none else some { s with quitting := true }.closeAcq.cancelReconnect
  | .spawn automatic =>
    if s.quitting ∨ s.stopping ∨ (s.userDisconnected ∧ automatic) then none
    else some s.spawnOnHost
  | .restart =>
    if s.stopping ∨ s.quitting ∨ ¬s.ssh ∨ s.reachable ∨ s.acquisition.isSome then none
    else s.session.map (s.beginReconnect false)
  | .callDaemon again =>
    if s.ssh then none
    else s.session.map fun id => s.attachDaemon id (if again then .again else .plain)
  | .linkLost a => some (s.closeAgent a)
  | .agentClosed a => if s.connected a then none else some (s.agentClosed a)
  | .releaseAgent => some s.dropAgent
  | .detach =>
    (s.session.filter fun id => s.status id == .active).map fun id =>
      s.updateSessionStatus id .detached
  | .undetach =>
    (s.session.filter fun id => s.status id == .detached).map fun id =>
      s.updateSessionStatus id .active
  | .sessionGot t =>
    match s.attempts t with
    | some (.lead .spawn .gotSession acq id never) =>
      some (s.setAttempt t (some (.lead .spawn .dialling acq id never)))
    | some (.lead .request .gotSession acq id _) =>
      some ((s.updateSessionStatus id .starting).setAttempt t
        (some (.lead .request .dialling acq id (s.status id == .starting))))
    | _ => none
  | .dialSettles t how =>
    match s.attempts t with
    | some (.lead who .dialling acq id never) => some (s.dialSettles t who acq id never how)
    | _ => none
  | .leadResumes t abandoned =>
    match s.attempts t with
    | some (.lead who .rejected acq id never) =>
      some ((s.setAttempt t none).connectFailed who acq id never)
    | some (.lead who (.dialled a) acq id never) => some (s.leadDialled t who a acq id never)
    | some (.lead who (.adopting a) acq id _) => some (s.leadAdopted t who a acq id abandoned)
    | _ => none
  | .followResumes t abandoned =>
    match s.attempts t with
    | some (.follow acq) =>
      (s.acqs acq).settled.map fun result =>
        let s := s.setAttempt t none
        if let some id := result then
          if s.session = some id ∧ s.reachable then
            s.spawnBody (s.agent.map (·.agent)) id abandoned
          else s
        else s
    | _ => none
  | .spawnResumes t abandoned =>
    match s.attempts t with
    | some (.spawn a id) => some ((s.setAttempt t none).spawnBody a id abandoned)
    | _ => none
  | .timerFires t hostGone =>
    match s.attempts t with
    | some (.timer id) => some (s.timerFires t id hostGone)
    | _ => none
  | .reconnectSettles t how =>
    match s.attempts t with
    | some (.reconnect auto c id) => some (s.reconnectSettles t auto c id how)
    | _ => none
  | .reconnectEnds t =>
    match s.attempts t with
    | some (.reconnected c) => some (s.endReconnect t c)
    | _ => none
  | .attachConnects t ok =>
    match s.attempts t with
    | some (.attach none id) =>
      if ok && !s.quitting then
        some (s.newAgent.setAttempt t (some (.attach (some s.nextAgent) id)))
      else some (s.attachFails t none)
    | _ => none
  | .attachReports t ok =>
    match s.attempts t with
    | some (.attach (some a) id) =>
      if ok && s.mayAdopt then some (s.attachCommits t a id)
      else some (s.attachFails t (some a))
    | _ => none
  | .attachForgotten t =>
    if s.attaching = some t ∧ (s.attached t).isSome then some { s with attaching := none }
    else none
  | .callerResumes t looping =>
    match s.attempts t with
    | some (.await none id caller) =>
      some ((s.setAttempt t none).callerFailed id caller looping)
    | some (.await (some t') id caller) =>
      (s.attached t').map fun ok =>
        let s := s.setAttempt t none
        if ok then s else s.callerFailed id caller looping
    | _ => none

end HostState

end Lasterm.Hub
