import Lasterm.Hub.Questions
import Lasterm.Lib.Async

/-!
# Operations that bring terminals to life

A `SPAWN`, a restart, a reconnection, an attach, a host connected on request, a warm restart
and the hub's own startup wait for hosts, for daemons and for people, and in between the hub may
begin to quit.  So each takes a *fence* when it begins, a number that is current while the hub
runs, and has it checked again where it would start something.

The operations are written out as the code has them, with every wait: a fence that is checked
before a wait says nothing after it.  A promise that is resolved is heard of later, so a
callback that resolves one is followed by one more wait, and so is the end of an operation that
another one waits for (`awaited`).

## Main definitions

* `QuitHub` — the hub, as an operation reads it.
* `Heard` — what hosts, agents and people say, and the tables that have no part here: anything.
* `Operation.body` — each operation.
-/

open Async

namespace Lasterm.Hub.Revival

/-- Whether the hub is ending. -/
inductive QuitState
  | running
  | quitting
deriving DecidableEq

/-- The hub, whether it is quitting, and its agents: a connection is a number. -/
structure QuitHub where
  hub : HubState
  quitState : QuitState
  quitEpoch : ℕ
  agents : OrderedMap String ℕ
  connected : List ℕ

/-- An answer to a `SPAWN`. -/
inductive Reply
  | timeout
  | spawnOk (channelId : String)
  | spawnErr (code : String)
deriving DecidableEq

/-- What an operation hears when it goes on, and finds outside of the hub's state. -/
structure Heard where
  fulfilled : Bool := true
  /-- The connection that was made, and whether a daemon is at its other end. -/
  agent : ℕ := 0
  remoteDaemon : Bool := false
  states : List Reported := []
  reply : Reply := .timeout
  /-- Its signal was aborted, or another attempt or session has its place. -/
  aborted : Bool := false
  late : Bool := false
  /-- A person is asked, and the connection tried again. -/
  again : Bool := false
  secret : Bool := false
  elevated : Bool := false
  ssh : Bool := true
  /-- The host is not to be reached now, or the terminal not to be brought back. -/
  refused : Bool := false
  connecting : Bool := false
  retiring : Bool := false
  clientHere : Bool := true
  /-- What `generateId` gives. -/
  gid : String := ""
  now : ℕ := 0

/-- `HubQuittingError`, or any other. -/
inductive Err
  | quitting
  | failed

/-- An operation of the hub. -/
abbrev Op := Job QuitHub Heard Err

/-- `await` of an asynchronous function: the caller goes on in a later turn. -/
def awaited {α : Type} (t : Op α) : Op α := do
  let a ← t.tryCatch fun e => do
    let _ ← Job.wait
    Job.fail e
  let _ ← Job.wait
  pure a

/-- `if (c) t;` -/
def doIf (c : Prop) [Decidable c] (t : Op Unit) : Op Unit := if c then t else pure ()

/-! ### The fence, and what consumes it -/

/-- `captureQuitFence`: the epoch, unless the hub is ending. -/
def captureQuitFence : Op ℕ := do
  let s ← Job.get
  if s.quitState = .quitting then Job.fail .quitting else pure s.quitEpoch

/-- `assertQuitFence`: throws unless the epoch is still the same. -/
def assertQuitFence (epoch : ℕ) : Op Unit := do
  let s ← Job.get
  if s.quitState = .quitting ∨ s.quitEpoch ≠ epoch then Job.fail .quitting else pure ()

/-- `isQuitFenceCurrent`. -/
def isQuitFenceCurrent (epoch : ℕ) : Op Bool := do
  let s ← Job.get
  pure (s.quitState ≠ .quitting && s.quitEpoch = epoch)

/-- A change of what the hub tracks. -/
def onHub (f : HubState → HubState) : Op Unit := Job.modify fun s => { s with hub := f s.hub }

/-- `isBeingStopped`. -/
def isBeingStopped (hostId : String) : Op Bool := do
  let s ← Job.get
  pure (decide (hostId ∈ s.hub.stoppingAgents))

/-- The agent of a host, if its connection is up. -/
def connectedAgent (hostId : String) : Op (Option ℕ) := do
  let s ← Job.get
  pure ((s.agents.get hostId).filter (· ∈ s.connected))

/-- The session of a host. -/
def sessionOf (hostId : String) : Op (Option SessionState) := do
  let s ← Job.get
  pure (s.hub.sessions.get hostId)

/-- `adoptAgent`: refused once the hub ends, or while the host is stopped. -/
def adoptAgent (fence : ℕ) (hostId : String) (agent : ℕ) : Op Unit := do
  assertQuitFence fence
  if ← isBeingStopped hostId then Job.fail .failed
  else Job.modify fun s => { s with agents := s.agents.set hostId agent }

/-- `persistSession`, behind the fence. -/
def persistSession (fence : ℕ) (hostId : String) (state : SessionState) : Op Unit := do
  assertQuitFence fence
  onHub fun s => { s with sessions := s.sessions.set hostId state }

/-- `createSession`, behind the fence. -/
def createSession (fence : ℕ) (id hostId : String) (status : SessionStatus) : Op Unit := do
  assertQuitFence fence
  onHub fun s => { s with sessionRows := s.sessionRows.set id ⟨hostId, status⟩ }

/-- `getOrCreateSession`: the host's session, if it can be used, or a new one. -/
def getOrCreateSession (hostId : String) (isSsh : Bool) (fence : ℕ) (gid : String) :
    Op SessionState := do
  let existing ← sessionOf hostId
  let usable := existing.filter fun st =>
    st.status = .active || st.status = .disconnected || (!isSsh && st.status = .starting)
  match usable with
  | some st => pure st
  | none =>
    createSession fence gid hostId .starting
    persistSession fence hostId ⟨gid, .starting⟩
    pure ⟨gid, .starting⟩

/-! ### `SPAWN` frames -/

/-- `sendGuardedSpawn`, given a fence.  A `SPAWN` for a new terminal names none. -/
def sendGuardedSpawn (channelId : Option String) (quitEpoch : ℕ) : Op ℕ := do
  if ← isQuitFenceCurrent quitEpoch then
    onHub fun s => s.send (.spawn (channelId.getD ""))
    pure quitEpoch
  else Job.fail .quitting

/-- `sendGuardedSpawn`, which takes a fence where it is given none. -/
def sendFencedSpawn (channelId : Option String) : Op ℕ := do
  let quitEpoch ← captureQuitFence
  sendGuardedSpawn channelId quitEpoch

/-- Refuse with `code` where the hub is quitting; any other error goes on. -/
def orIfQuitting {α : Type} (t : Op α) (a : α) : Op α :=
  t.tryCatch fun
    | .quitting => pure a
    | .failed => Job.fail .failed

/-- `sendSpawnAndWait`: the terminal that was started, or the code of an error. -/
def sendSpawnAndWait (hostId sessionId clientId : String) (reuseChannelId : Option String) :
    Op (Option String × Option String) := do
  if ← isBeingStopped hostId then pure (none, some "HOST_BUSY")
  else
    match ← orIfQuitting (some <$> sendFencedSpawn reuseChannelId) none with
    | none => pure (none, some "HUB_QUITTING")
    | some quitEpoch =>
      -- the callback of the pending request, or its timer
      let h ← Job.wait
      if h.reply = .timeout then
        let _ ← Job.wait
        Job.fail .failed
      else if ← isQuitFenceCurrent quitEpoch then
        match h.reply with
        | .spawnOk channelId =>
          onHub fun s => s.spawnOk channelId hostId sessionId [clientId]
          let _ ← Job.wait
          pure (some channelId, none)
        | .spawnErr code =>
          let _ ← Job.wait
          pure (none, some code)
        | .timeout => pure (none, none)
      else
        let _ ← Job.wait
        pure (none, some "HUB_QUITTING")

/-- `sendRestartSpawn`: the id of the new process, or a code. -/
def sendRestartSpawn (hostId channelId : String) : Op (Option String × Option String) := do
  if ← isBeingStopped hostId then pure (none, some "HOST_BUSY")
  else
    match ← orIfQuitting (some <$> sendFencedSpawn (some channelId)) none with
    | none => pure (none, some "HUB_QUITTING")
    | some quitEpoch =>
      let h ← Job.wait
      if h.reply = .timeout then
        let _ ← Job.wait
        pure (none, none)
      else
        let current ← isQuitFenceCurrent quitEpoch
        let _ ← Job.wait
        match current, h.reply with
        | true, .spawnOk id => pure (some id, none)
        | true, .spawnErr code => pure (none, some code)
        | true, .timeout => pure (none, none)
        | false, _ => pure (none, some "HUB_QUITTING")

/-- `applyRestartState`, for the windows that were attached. -/
def applyRestartState (channelId previousChannelId hostId sessionId : String)
    (clients : List String) : Op Unit := do
  let _ ← captureQuitFence
  onHub fun s => s.applyRestartState channelId previousChannelId hostId sessionId clients

/-- The `SPAWN`s of `spawnChannelsForHost`, in one turn: those that were sent. -/
def sendSpawns (quitEpoch : ℕ) : List String → Op (List String)
  | [] => pure []
  | channelId :: rest => do
    if ← isQuitFenceCurrent quitEpoch then
      let _ ← sendGuardedSpawn (some channelId) quitEpoch
      let sent ← sendSpawns quitEpoch rest
      pure (channelId :: sent)
    else pure []

/-- The callbacks and timers of `spawnChannelsForHost`, as many as `SPAWN`s are waited for;
`h.agent` says which of them it is. -/
def spawnAnswers (quitEpoch : ℕ) (onSpawnOk : String → HubState → HubState) :
    ℕ → List String → Op Unit
  | 0, _ => pure ()
  | n + 1, sent => do
    let h ← Job.wait
    match sent[h.agent]? with
    | none => spawnAnswers quitEpoch onSpawnOk n sent
    | some channelId =>
      let rest := sent.eraseIdx h.agent
      if h.reply = .timeout then
        onHub fun s => s.updateChannelStatus channelId .dead
        spawnAnswers quitEpoch onSpawnOk n rest
      else if ← isQuitFenceCurrent quitEpoch then
        match h.reply with
        | .spawnOk _ => onHub fun s => onSpawnOk channelId (s.spawnAnswered channelId true)
        | _ => onHub fun s => s.spawnAnswered channelId false
        spawnAnswers quitEpoch onSpawnOk n rest
      else spawnAnswers quitEpoch onSpawnOk n rest

/-- `spawnChannelsForHost`: each of the host's terminals is started again. -/
def spawnChannelsForHost (hostId : String) (onSpawnOk : String → HubState → HubState) :
    Op Unit := do
  match ← orIfQuitting (some <$> captureQuitFence) none with
  | none => pure ()
  | some quitEpoch =>
    let s ← Job.get
    let sent ← sendSpawns quitEpoch (s.hub.toSpawn hostId)
    spawnAnswers quitEpoch onSpawnOk sent.length sent

/-- The windows over a terminal see it again. -/
def reAttached (channelId : String) (s : HubState) : HubState :=
  match s.channels.get channelId with
  | some ch => if ch.clients = [] then s else s.updateChannelStatus channelId .live
  | none => s

/-- `reAttachChannels`. -/
def reAttachChannels (hostId : String) : Op Unit := spawnChannelsForHost hostId reAttached

/-! ### Connections -/

/-- The agent is asked what it holds: when that was. -/
def askingAgent : Op ℕ := do
  onHub fun s => s.askingAgent.1
  let s ← Job.get
  pure s.hub.clock

/-- What a daemon holds is asked, and reconciled. -/
def adoptWhatTheDaemonHolds (hostId : String) (remoteDaemon : Bool) : Op Bool := do
  if remoteDaemon then
    let askedAt ← askingAgent
    let h ← Job.wait
    doIf h.fulfilled (onHub fun s => s.reconcileChannelState hostId h.states askedAt)
    pure true
  else pure false

/-- `_connectSshAgent`, which may ask a person and try again, at most `rounds` times. -/
def connectSshAgent (hostId sessionId : String) : ℕ → Op (ℕ × Bool)
  | 0 => Job.fail .failed
  | rounds + 1 => do
    if ← isBeingStopped hostId then Job.fail .failed
    else
      let h ← Job.wait
      let current ← sessionOf hostId
      if h.fulfilled then
        if h.aborted ∨ current.map SessionState.id ≠ some sessionId then Job.fail .failed
        else
          onHub fun s => s.updateSessionStatus hostId sessionId .active
          pure (h.agent, h.remoteDaemon)
      else if h.again then
        let h ← Job.wait
        if h.refused then Job.fail .failed else connectSshAgent hostId sessionId rounds
      else Job.fail .failed

/-- The reconnections' own `start`: once, and asking nobody the hub does not have. -/
def startAgain (fence : ℕ) (hostId sessionId : String) : Op (Option Bool) := do
  let h ← Job.wait
  if h.fulfilled then
    let current ← sessionOf hostId
    let stopped ← isBeingStopped hostId
    if stopped ∨ h.aborted ∨ current.map SessionState.id ≠ some sessionId then pure none
    else
      onHub fun s => s.updateSessionStatus hostId sessionId .active
      adoptAgent fence hostId h.agent
      some <$> awaited (adoptWhatTheDaemonHolds hostId h.remoteDaemon)
  else Job.fail .failed

/-- `onReconnectAgent`: whether the agent that came was taken. -/
def onReconnectAgent (hostId : String) (h : Heard) : Op Bool := do
  if ← isBeingStopped hostId then pure false
  else
    let fence ← captureQuitFence
    let reachable ← connectedAgent hostId
    if h.ssh = false then pure false
    else if reachable.isSome then pure true
    else if h.connecting then
      let h ← Job.wait
      let stopped ← isBeingStopped hostId
      let agent ← connectedAgent hostId
      pure (h.fulfilled && !stopped && agent.isSome)
    else
      match ← sessionOf hostId with
      | none => pure false
      | some session =>
        if h.refused then pure false
        else (do
          let started ← awaited (startAgain fence hostId session.id)
          pure started.isSome).tryCatch fun _ => pure false

/-- `closeSession` of the lifecycle manager, if the session is still that one. -/
def closeIfCurrent (hostId sessionId : String) : Op Unit := do
  let current ← sessionOf hostId
  if current.map SessionState.id = some sessionId then
    onHub fun s => s.closeSession hostId sessionId
  else pure ()

/-- `scheduleReconnect`, with at most `attempts` more of itself. -/
def scheduleReconnect (hostId sessionId : String) : ℕ → Heard → Op Unit
  | 0, _ => pure ()
  | attempts + 1, h => do
    let s ← Job.get
    if s.quitState = .quitting ∨ h.refused ∨ hostId ∈ s.hub.stoppingAgents then pure ()
    else
      let fence ← captureQuitFence
      if h.late then onHub fun s => s.closeSession hostId sessionId
      else
        -- the timer
        let h ← Job.wait
        let stopped ← isBeingStopped hostId
        let agent ← connectedAgent hostId
        let current ← sessionOf hostId
        if stopped ∨ agent.isSome ∨ h.refused ∨
            (current.filter fun st => st.status ≠ .closed).map SessionState.id ≠
              some sessionId then pure ()
        else
          (do
            match ← awaited (startAgain fence hostId sessionId) with
            | none => pure ()
            | some true => pure ()
            | some false => reAttachChannels hostId).tryCatch fun _ =>
              if h.aborted then pure ()
              else if h.late then closeIfCurrent hostId sessionId
              else scheduleReconnect hostId sessionId attempts h

/-- `attachDaemonFresh`. -/
def attachDaemonFresh (hostId sessionId : String) : Op Unit := do
  let quitEpoch ← captureQuitFence
  let h ← Job.wait
  if h.fulfilled then
    (do
      assertQuitFence quitEpoch
      let askedAt ← askingAgent
      let h' ← Job.wait
      if h'.fulfilled then
        assertQuitFence quitEpoch
        onHub fun s => s.reconcileChannelState hostId h'.states askedAt
        assertQuitFence quitEpoch
        adoptAgent quitEpoch hostId h.agent
        onHub fun s => s.updateSessionStatus hostId sessionId .active
      else Job.fail .failed).tryCatch fun e => do
        Job.modify fun s =>
          if s.agents.get hostId = some h.agent then { s with agents := s.agents.delete hostId }
          else s
        Job.fail e
  else Job.fail .failed

/-- `attachDaemon`, which `connectDaemonAgent` and `reconnectDaemon` are. -/
def attachDaemon (hostId sessionId : String) (h : Heard) : Op Unit := do
  let _ ← captureQuitFence
  match ← connectedAgent hostId with
  | some _ => pure ()
  | none =>
    Job.modify fun s => { s with agents := s.agents.delete hostId }
    if h.connecting then
      let h ← Job.wait
      if h.fulfilled then pure () else Job.fail .failed
    else attachDaemonFresh hostId sessionId

/-- `warmRestartLocal`: not more than three times a minute. -/
def warmRestartLocal (hostId sessionId : String) (h : Heard) : Op Unit := do
  let _ ← captureQuitFence
  let s ← Job.get
  onHub fun s => (s.countRestart hostId h.now).1
  if 3 < (s.hub.countRestart hostId h.now).2 then
    onHub fun s => s.closeSession hostId sessionId
  else
    let attached ← (do
      awaited (attachDaemon hostId sessionId h)
      pure true).tryCatch fun _ => do
        onHub fun s => s.closeSession hostId sessionId
        pure false
    if attached then spawnChannelsForHost hostId fun _ s => s
    else pure ()

/-! ### A terminal is restarted -/

/-- `restartSendAndWait`: the SPAWN of a restart, and what follows it. -/
def restartSendAndWait (channelId hostId sessionId : String) (clients : List String) :
    Op Unit := do
  match ← awaited (sendRestartSpawn hostId channelId) with
  | (some newId, _) => applyRestartState newId channelId hostId sessionId clients
  | (none, _) => pure ()

/-- `restartChannel`, of a terminal of the host; `h` says whether it is elevated, and
whether a password for that is in the cache or nobody is there to be asked for one. -/
def restartChannel (channelId hostId : String) (h : Heard) : Op Unit :=
  orIfQuitting (do
    let _ ← captureQuitFence
    let s ← Job.get
    let clients := ((s.hub.channels.get channelId).map ChannelState.clients).getD []
    let before ← connectedAgent hostId
    doIf (before.isSome ∧ ((s.hub.channels.get channelId).filter fun ch => ch.status ≠ .dead).isSome)
      (onHub fun s => s.send (.destroy channelId))
    let reconnected ← (if before.isSome then pure true else awaited (onReconnectAgent hostId h))
    let agent ← connectedAgent hostId
    match ← sessionOf hostId with
    | none => pure ()
    | some session =>
      if !reconnected ∨ agent.isNone ∨ ¬(session.status = .active ∨ session.status = .detached)
      then pure ()
      else if h.elevated then
        if h.secret ∨ h.clientHere = false then
          restartSendAndWait channelId hostId session.id clients
        else
          -- without a password first, and with one if the agent asks for it
          match ← awaited (sendRestartSpawn hostId channelId) with
          | (some newId, _) => applyRestartState newId channelId hostId session.id clients
          | (none, code) =>
            if code = some "ELEVATION_PASSWORD_REQUIRED" then
              let h ← Job.wait
              if h.secret then restartSendAndWait channelId hostId session.id clients
              else pure ()
            else pure ()
      else restartSendAndWait channelId hostId session.id clients) ()

/-! ### A terminal is started -/

/-- Run `f` whether `t` succeeds or not. -/
def finallyDo {α : Type} (t : Op α) (f : Op Unit) : Op α := do
  let a ← t.tryCatch fun e => do
    f
    Job.fail e
  f
  pure a

/-- A `SPAWN` that joins the connection already on its way. -/
def followAcquisition (hostId : String) : Op (Option SessionState) := do
  let h ← Job.wait
  let current ← sessionOf hostId
  let agent ← connectedAgent hostId
  pure (if h.fulfilled && !h.aborted && agent.isSome then current else none)

/-- A `SPAWN` that makes the connection. -/
def leadAcquisition (rounds : ℕ) (fence : ℕ) (hostId gid : String) :
    Op (Option SessionState) := do
  let led ← (do
    let st ← getOrCreateSession hostId true fence gid
    let _ ← Job.wait
    let made ← (some <$> awaited (connectSshAgent hostId st.id rounds)).tryCatch fun _ => do
      let current ← sessionOf hostId
      doIf ((current.getD st).status = SessionStatus.starting) (onHub fun s =>
        let s := s.updateSessionStatus hostId st.id .closed
        { s with sessions := s.sessions.delete hostId })
      pure none
    match made with
    | none => pure none
    | some (agent, remoteDaemon) =>
      let h ← Job.wait
      let current ← sessionOf hostId
      if current.map SessionState.id ≠ some st.id then pure none
      else if h.aborted then
        onHub fun s => { s with sessions := s.sessions.delete hostId }
        pure none
      else
        adoptAgent fence hostId agent
        let _ ← awaited (adoptWhatTheDaemonHolds hostId remoteDaemon)
        pure (some st)).tryCatch fun _ => pure none
  let current ← sessionOf hostId
  let agent ← connectedAgent hostId
  pure (led.filter fun st => current.map SessionState.id = some st.id && agent.isSome)

/-- The session of a `SPAWN`, its host reached if it is over SSH. -/
def reachForSpawn (rounds fence : ℕ) (hostId : String) (h : Heard) :
    Op (Option SessionState) := do
  let agent ← connectedAgent hostId
  if agent.isNone ∧ h.ssh then
    if h.connecting then followAcquisition hostId
    else awaited (leadAcquisition rounds fence hostId h.gid)
  else
    orIfQuitting (do
      let st ← getOrCreateSession hostId h.ssh fence h.gid
      let _ ← Job.wait
      pure (some st)) none

/-- The host's agent, once its retirement is over. -/
def agentAfterRetirement (hostId : String) : Op (Option ℕ) := do
  let h ← Job.wait
  let s ← Job.get
  match ← connectedAgent hostId with
  | some agent => pure (some agent)
  | none =>
    if s.quitState = .quitting then pure none
    else if h.ssh then
      let reached ← awaited (onReconnectAgent hostId h)
      let agent ← connectedAgent hostId
      pure (if reached then agent else none)
    else
      match ← sessionOf hostId with
      | none => pure none
      | some session => (do
          awaited (attachDaemon hostId session.id h)
          connectedAgent hostId).tryCatch fun _ => pure none

/-- The agent a `SPAWN` goes to: the local one is connected to, an old one replaced. -/
def readyAgent (hostId sessionId : String) (h : Heard) : Op (Option ℕ) := do
  let agent ← connectedAgent hostId
  let reached ← (
    if agent.isNone ∧ h.ssh = false then
      orIfQuitting (do
        awaited (attachDaemon hostId sessionId h)
        pure true) false
    else pure true)
  if reached = false then pure none
  else if h.retiring then awaited (agentAfterRetirement hostId)
  else connectedAgent hostId

/-- The `SPAWN`s of a terminal that is started: an elevated one without a password first. -/
def startTerminal (hostId sessionId clientId : String) (reuseChannelId : Option String)
    (h : Heard) : Op Unit := do
  let first ← awaited (sendSpawnAndWait hostId sessionId clientId reuseChannelId)
  if h.elevated ∧ h.secret = false ∧ first = (none, some "ELEVATION_PASSWORD_REQUIRED") then
    let h ← Job.wait
    if h.secret then
      let _ ← sendSpawnAndWait hostId sessionId clientId reuseChannelId
      pure ()
    else pure ()
  else pure ()

/-- `spawnOnHost`: a SPAWN on a host that has an agent, or is to get one. -/
def spawnOnHost (rounds fence : ℕ) (hostId clientId : String) (reuseChannelId : Option String)
    (h : Heard) : Op Unit := do
  let h ← (if h.retiring then Job.wait else pure h)
  let stopped ← isBeingStopped hostId
  if stopped ∨ h.refused then pure ()
  else
    match ← reachForSpawn rounds fence hostId h with
    | none => pure ()
    | some session =>
      if h.clientHere then
        match ← readyAgent hostId session.id h with
        | none => pure ()
        | some _ => startTerminal hostId session.id clientId reuseChannelId h
      else if h.aborted then pure ()
      else
        -- nobody is left who asked for the connection
        Job.modify fun s => { s with agents := s.agents.delete hostId }
        onHub fun s =>
          let s := s.updateSessionStatus hostId session.id .closed
          { s with sessions := s.sessions.delete hostId }

/-- `handleSpawn`. -/
def handleSpawn (rounds : ℕ) (hostId clientId : String) (reuseChannelId : Option String) :
    Op Unit := do
  match ← orIfQuitting (some <$> captureQuitFence) none with
  | none => pure ()
  | some fence =>
    -- `resolveHostId`
    let h ← Job.wait
    match reuseChannelId with
    | none => spawnOnHost rounds fence hostId clientId none h
    | some id =>
      if h.refused then pure ()
      else
        onHub fun s => { s with startingChannels := id :: s.startingChannels }
        finallyDo (spawnOnHost rounds fence hostId clientId (some id) h)
          (onHub fun s => { s with startingChannels := s.startingChannels.erase id })

/-! ### The others -/

/-- `reachHostOnRequest`: for the host's menu. -/
def reachHostOnRequest (rounds : ℕ) (hostId : String) (h : Heard) : Op Unit := do
  match ← orIfQuitting (some <$> captureQuitFence) none with
  | none => pure ()
  | some fence =>
    if h.connecting then
      let _ ← Job.wait
      pure ()
    else
      (do
        let session ← getOrCreateSession hostId true fence h.gid
        let _ ← Job.wait
        onHub fun s => s.updateSessionStatus hostId session.id .starting
        let (agent, remoteDaemon) ← awaited (connectSshAgent hostId session.id rounds)
        let h ← Job.wait
        let current ← sessionOf hostId
        if h.aborted ∨ current.map SessionState.id ≠ some session.id then Job.fail .failed
        else
          adoptAgent fence hostId agent
          let adopted ← awaited (adoptWhatTheDaemonHolds hostId remoteDaemon)
          let s ← Job.get
          if h.refused ∨ s.agents.get hostId ≠ some agent then pure ()
          else if adopted then pure ()
          else reAttachChannels hostId).tryCatch fun _ => do
            -- `settleFailedConnect`: gone, or waiting as it was
            let current ← sessionOf hostId
            match current with
            | none => pure ()
            | some st =>
              if st.status = SessionStatus.starting then
                onHub fun s =>
                  let s := s.updateSessionStatus hostId st.id .closed
                  { s with sessions := s.sessions.delete hostId }
              else onHub fun s => s.updateSessionStatus hostId st.id .disconnected

/-- `reconnectForAttach`, which an attach does not wait out. -/
def reconnectForAttach (hostId : String) (h : Heard) : Op Unit := do
  let stopped ← isBeingStopped hostId
  let agent ← connectedAgent hostId
  if stopped ∨ h.refused ∨ agent.isSome then pure ()
  else (do
    let _ ← onReconnectAgent hostId h
    pure ()).tryCatch fun _ => pure ()

/-- `handleAttach`, which starts over at most `again` times. -/
def handleAttach (clientId channelId : String) : ℕ → Op Unit
  | 0 => pure ()
  | again + 1 => do
    let s ← Job.get
    match s.hub.channels.get channelId with
    | none => pure ()
    | some ch =>
      if s.quitState = .quitting ∨ ch.status = .dead then pure ()
      else
        onHub fun s => s.editChannel channelId fun ch => { ch with clients := ch.clients ++ [clientId] }
        doIf (ch.status = .orphan) (onHub fun s => s.updateChannelStatus channelId .live)
        let before ← connectedAgent ch.hostId
        let h ← (if before.isSome then pure { aborted := false } else Job.wait)
        if h.aborted then
          -- what is tracked under the id is another terminal now, or has ended
          handleAttach clientId channelId again
        else
          let agent ← connectedAgent ch.hostId
          if agent.isNone then pure ()
          else
            let askedAt ← askingAgent
            let h ← Job.wait
            if h.fulfilled then pure ()
            else
              let s ← Job.get
              if s.hub.answerStillApplies channelId askedAt then
                onHub fun s => s.retireChannel channelId
              else handleAttach clientId channelId again

/-- One host of `startup`, with its terminals that were alive. -/
def startupHost (hostId : String) (alive : List String) (h : Heard) : Op Unit := do
  let s ← Job.get
  match s.hub.sessionRows.entries.find? fun e => e.2.hostId = hostId && e.2.status ≠ .closed with
  | none => onHub fun s => alive.foldl (fun s id => s.updateChannelStatus id .dead) s
  | some (sessionId, _) =>
    onHub fun s => s.markHostSessionDisconnected hostId
    let fence ← captureQuitFence
    persistSession fence hostId ⟨sessionId, .disconnected⟩
    onHub fun s => alive.foldl (HubState.trackOrphan hostId sessionId) s
    if h.ssh = false then
      (awaited (attachDaemon hostId sessionId h)).tryCatch fun _ =>
        awaited (warmRestartLocal hostId sessionId h)
    else if h.remoteDaemon then pure ()
    else onHub fun s => alive.foldl (fun s id => s.updateChannelStatus id .dead) s

/-- The loop of `startup`. -/
def startupHosts : List (String × List String × Heard) → Op Unit
  | [] => pure ()
  | (hostId, alive, h) :: hosts => do
    startupHost hostId alive h
    startupHosts hosts

/-- `startup`: the terminals that were alive are read once, for all hosts that have some. -/
def startup (hosts : List (String × Heard)) : Op Unit := do
  let s ← Job.get
  startupHosts ((hosts.map fun e => (e.1, (s.hub.aliveRows e.1).map Prod.fst, e.2)).filter
    fun e => e.2.1 ≠ [])

/-- Everything that can begin. -/
inductive Operation
  | spawn (rounds : ℕ) (hostId clientId : String) (reuseChannelId : Option String)
  | restart (channelId hostId : String) (h : Heard)
  | attach (clientId channelId : String) (again : ℕ)
  | reconnectForAttach (hostId : String) (h : Heard)
  | reconnect (hostId sessionId : String) (attempts : ℕ) (h : Heard)
  | reachHost (rounds : ℕ) (hostId : String) (h : Heard)
  /-- `reconnectDaemon`, after the local agent's connection was lost. -/
  | reconnectDaemon (hostId sessionId : String) (h : Heard)
  | warmRestart (hostId sessionId : String) (h : Heard)
  | startup (hosts : List (String × Heard))
  | closeSession (hostId sessionId : String)
  | destroyChannel (channelId : String)
  | linksChanged (connected : List ℕ)
  | stopping (hosts : List String)
  | quit

/-- `beginQuit`, as far as the state goes. -/
def beginQuit (s : QuitHub) : QuitHub :=
  if s.quitState = .quitting then s
  else { s with quitState := .quitting, quitEpoch := s.quitEpoch + 1 }

/-- What an operation does. -/
def Operation.body : Operation → Op Unit
  | .spawn rounds hostId clientId reuse => handleSpawn rounds hostId clientId reuse
  | .restart channelId hostId h => restartChannel channelId hostId h
  | .attach clientId channelId again => handleAttach clientId channelId again
  | .reconnectForAttach hostId h => Revival.reconnectForAttach hostId h
  | .reconnect hostId sessionId attempts h => scheduleReconnect hostId sessionId attempts h
  | .reachHost rounds hostId h => reachHostOnRequest rounds hostId h
  | .reconnectDaemon hostId sessionId h => do
    let _ ← captureQuitFence
    attachDaemon hostId sessionId h
  | .warmRestart hostId sessionId h => warmRestartLocal hostId sessionId h
  | .startup hosts => Revival.startup hosts
  | .closeSession hostId sessionId => onHub fun s => s.closeSession hostId sessionId
  | .destroyChannel channelId => onHub fun s => (s.send (.destroy channelId)).retireChannel channelId
  | .linksChanged connected => Job.modify fun s => { s with connected }
  | .stopping hosts => Job.modify fun s => { s with hub := { s.hub with stoppingAgents := hosts } }
  | .quit => Job.modify beginQuit

/-- The hub with all that is under way. -/
abbrev Busy := Pool QuitHub Heard Err

/-- The next turn. -/
def Busy.next : Busy → Move Operation Heard → Option Busy := Pool.next Operation.body

end Lasterm.Hub.Revival
