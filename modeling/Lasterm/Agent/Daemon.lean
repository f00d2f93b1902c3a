import Lasterm.Agent.Terminal
import Lasterm.Lib.Run
import Mathlib.Logic.Function.Basic

/-!
# The agent daemon

The tasks of one agent daemon and what they share (`handler.rs`, `daemon.rs`): the read
loop of each connection, which handles one message at a time; the reader of each terminal;
the batch loop; the output router; and the writer of each connection, with what the hub at
its other end has read.  A message is cut wherever its handler lets go of a lock or waits,
so that any other task may run there.

What a reader sends goes through the batch loop and the router; what answers a request
goes straight to the connection.  Where the flow of `flow.rs` holds a reader back it reads
later; a read may happen at any time here.

## Main definitions

* `State` — the daemon; `wire` has every frame handed to a connection's writer, in order.
* `Step`, `step` — what can happen, and what comes of it.
-/

namespace Lasterm.Agent

open Option

open Function (update)

/-- The requests that are a reader's to answer. -/
inductive Ask
  | snapshotReq
  | attach (requestId : Option String)
  | cwdQuery
  deriving DecidableEq

/-- Where the read loop of a connection is. -/
inductive Handler
  /-- Registered, and the hub's channels not listed to it. -/
  | greeting
  | idle
  /-- RESIZE: the terminal has its size, and its mirror is not told. -/
  | resized (channelId : String) (cols rows : ℕ)
  /-- `visible_to` said yes, and the command senders are not looked at. -/
  | visible (ask : Ask) (channelId : String)
  /-- The reader with this pid has the request for a snapshot. -/
  | awaiting (ask : Ask) (channelId : String) (reader : ℕ)
  | answered (ask : Ask) (channelId : String) (reader : ℕ) (snapshot : Mirror)
  | spawned (requestId channelId : String) (pid cols rows : ℕ)
  | holding (requestId channelId : String) (pid source cols rows : ℕ)
  | listed (requestId channelId : String) (pid : ℕ)
  | ended
  deriving DecidableEq

/-- A connection that was registered. -/
structure Connection where
  owner : OwnerId
  isOpen : Bool
  handler : Handler
  reads : List (List Frame)

/-- What a SPAWN started. -/
structure Workload where
  owner : OwnerId
  channelId : String

/-- What the tasks of the daemon share, and where each is. -/
structure State where
  manager : PtyManager
  /-- `cmd_senders`: the pid of the reader each sender leads to. -/
  cmdSenders : OrderedMap String ℕ
  readers : ℕ → Option Reader
  workloads : ℕ → Option Workload
  nextPid : ℕ
  conns : ℕ → Option Connection
  nextConn : ℕ
  events : List (ChannelEvent Printed Frame)
  batcher : Batcher Printed
  batched : List (BatchedEvent Printed Frame)
  routes : HubRoutes Frame
  wire : List (ℕ × Frame)

/-- A daemon that has just started. -/
def init : State where
  manager := .new
  cmdSenders := .empty
  readers := fun _ => none
  workloads := fun _ => none
  nextPid := 0
  conns := fun _ => none
  nextConn := 0
  events := []
  batcher := .empty
  batched := []
  routes := .empty
  wire := []

/-- A message of the reader of `p` as an event of its channel. -/
def Reader.eventFrame (r : Reader) (p : ℕ) (msg : AgentToHub) : EventFrame Frame :=
  ⟨r.owner, r.channelId, ⟨msg, some p⟩,
    match msg with
    | .channelExit .. => true
    | _ => false⟩

namespace State

/-- Whether the writer of a connection takes frames. -/
def isOpen (s : State) (c : ℕ) : Bool := (s.conns c).any (·.isOpen)

/-- `send_frame`: nothing happens once the writer is gone. -/
def send (s : State) (c : ℕ) (f : Frame) : State :=
  if s.isOpen c then { s with wire := s.wire ++ [(c, f)] } else s

/-- Every frame handed to the writer of a connection. -/
def sentTo (s : State) (c : ℕ) : List Frame :=
  s.wire.filterMap fun e => if e.1 = c then some e.2 else none

/-- The connection `c` is now `conn`. -/
def setConn (s : State) (c : ℕ) (conn : Connection) : State :=
  { s with conns := update s.conns c (some conn) }

/-- The read loop goes on to `h`. -/
def setHandler (s : State) (c : ℕ) (h : Handler) : State :=
  { s with conns := update s.conns c ((s.conns c).map ({ · with handler := h })) }

/-- The reader of the process `p` is now `r`. -/
def setReader (s : State) (p : ℕ) (r : Reader) : State :=
  { s with readers := update s.readers p (some r) }

/-- `channel_events.send`. -/
def emit (s : State) (e : ChannelEvent Printed Frame) : State :=
  { s with events := s.events ++ [e] }

/-- `send_channel_event`, by the reader of `p`. -/
def sendChannelEvent (s : State) (p : ℕ) (r : Reader) (msg : AgentToHub) : State :=
  s.emit (.frame (r.eventFrame p msg))

/-- `tx.send`: the command is queued for the reader of `p`, unless it is gone. -/
def command (s : State) (p : ℕ) (cmd : ChannelCommand) : Option State :=
  match s.readers p with
  | some r =>
    if r.stage.listens then some (s.setReader p { r with commands := r.commands ++ [cmd] })
    else none
  | none => none

/-! ### Connections -/

/-- `register_active`: the connection's number is the next one. -/
def register (s : State) (owner : OwnerId) : State :=
  let c := s.nextConn
  let s :=
    match s.routes.connections.get owner with
    | some old => s.send old (displaced c).reply
    | none => s
  { s with
    conns := update s.conns c (some ⟨owner, true, .greeting, []⟩)
    nextConn := c + 1
    wire := s.wire ++ (s.routes.kept owner).map (c, ·)
    routes := s.routes.registerActive owner c }

/-- The end of the read loop: `clear_active_if_ours`. -/
def leave (s : State) (c : ℕ) (conn : Connection) : State :=
  { s.setHandler c .ended with routes := s.routes.clearActiveIfOurs conn.owner c }

/-- The hub's channels, listed to the connection once it is registered. -/
def greet (s : State) (c : ℕ) (conn : Connection) : State :=
  if conn.isOpen then
    let states := (s.manager.channels.entries.filter (·.2.owner = conn.owner)).map fun e =>
      (c, (AgentToHub.agentChannelState e.1 e.2.pid).reply)
    let fin := (c, (AgentToHub.channelStateEnd (s.manager.heldByOthers conn.owner)).reply)
    { s.setHandler c .idle with wire := s.wire ++ states ++ [fin] }
  else s.leave c conn

/-! ### Messages -/

/-- The answers to the messages that are about no terminal. -/
inductive Plain
  | heartbeatAck (ts : String)
  | env (requestId : String)
  | error (code message : String) (channelId : Option String)
  /-- AUTH out of order, or an ERROR of the hub's. -/
  | ignored

/-- A message that touches no channel is answered. -/
def plain (s : State) (c : ℕ) : Plain → State
  | .heartbeatAck ts => s.send c (AgentToHub.heartbeatAck ts).reply
  | .env requestId => s.send c (AgentToHub.env requestId).reply
  | .error code message channelId =>
    s.send c (AgentToHub.error code message channelId none none).reply
  | .ignored => s

/-- INPUT. -/
def input (s : State) (c : ℕ) (owner : OwnerId) (id : String) (data : List UInt8) : State :=
  match s.manager.ownedBy id owner with
  | none => s.send c (channelNotFound id none).reply
  | some ch =>
    let offered := ch.input.offer data
    let s : State :=
      { s with manager := s.manager.modify id ({ · with input := offered.1 }) }
    match offered.2 with
    | .overflowed => s.send c (inputDropped id).reply
    | _ => s

/-- RESIZE, up to the manager's lock let go. -/
def resize (s : State) (c : ℕ) (owner : OwnerId) (id : String) (cols rows : ℕ) : State :=
  match s.manager.ownedBy id owner with
  | none => s.send c (channelNotFound id none).reply
  | some _ =>
    { s with manager := s.manager.modify id ({ · with cols, rows }) }.setHandler c
      (.resized id cols rows)

/-- DESTROY: idempotent, and silent about a channel of another hub. -/
def destroy (s : State) (owner : OwnerId) (id : String) (teardown : Teardown) : State :=
  match s.manager.ownedBy id owner, teardown with
  | none, _ => s
  -- the only handle of a workload that could not be signalled stays registered
  | some _, .failed => s
  | some _, _ => { s with manager := s.manager.remove id }

/-- What a request about a channel the caller cannot see, or without a reader, is answered. -/
def notFound (s : State) (c : ℕ) (id : String) : Ask → State
  | .snapshotReq => s
  | .attach requestId => s.send c (channelNotFound id requestId).reply
  | .cwdQuery => s.send c (channelNotFound id none).reply

/-- What is answered when the reader is gone, or goes before it made the snapshot. -/
def readerGone (s : State) (c : ℕ) (id : String) : Ask → State
  | .snapshotReq => s
  | .attach requestId => s.send c (channelDead id requestId).reply
  | .cwdQuery => s.send c (channelNotFound id none).reply

/-- SNAPSHOT_REQ, ATTACH and CWD_QUERY, up to the manager's lock let go: `visible_to`. -/
def ask (s : State) (c : ℕ) (owner : OwnerId) (a : Ask) (id : String) : State :=
  if (s.manager.ownedBy id owner).isSome then s.setHandler c (.visible a id)
  else s.notFound c id a

/-- SPAWN, up to the manager's lock let go. -/
def spawn (s : State) (c : ℕ) (owner : OwnerId) (requestId : String) (id : Option String)
    (generated : String) (cols rows : ℕ) (started : Except IoError Unit) : State :=
  match s.manager.spawn owner id generated s.nextPid cols rows started with
  | .error e =>
    (s.send c (AgentToHub.spawnErr requestId (mapSpawnError e) e.message).reply).send c
      (AgentToHub.log "" "error" ("spawn failed: " ++ e.message)).reply
  | .ok (id, manager) =>
    { s with
      manager
      workloads := update s.workloads s.nextPid (some ⟨owner, id⟩)
      nextPid := s.nextPid + 1 }.setHandler c (.spawned requestId id s.nextPid cols rows)

/-- STOP: refused while other hubs hold terminals, unless forced. -/
def stop (s : State) (c : ℕ) (owner : OwnerId) (force : Bool) : State :=
  let others := s.manager.heldByOthers owner
  if !force && 0 < others then s.send c (stopRefusal others).reply
  else { s with manager := s.manager.beginShutdown }

/-! ### Messages, after a lock or an await -/

/-- The command sender under the id is looked up, and the reader it leads to is asked.  The
sender is used as soon as it is found, and sending never waits: a reader that goes in
between is one that was gone already. -/
def lookUp (s : State) (c : ℕ) (a : Ask) (id : String) : State :=
  match s.cmdSenders.get id with
  | none => (s.notFound c id a).setHandler c .idle
  | some p =>
    match a with
    | .cwdQuery =>
      match s.command p .cwdQuery with
      | some s' => s'.setHandler c .idle
      | none => (s.readerGone c id a).setHandler c .idle
    | _ =>
      match s.command p (.snapshot c) with
      | some s' => s'.setHandler c (.awaiting a id p)
      | none => (s.readerGone c id a).setHandler c .idle

/-- The mirror is told the size its terminal was given. -/
def tellSize (s : State) (c : ℕ) (id : String) (cols rows : ℕ) : State :=
  let told := (s.cmdSenders.get id).bind fun p => s.command p (.resize cols rows)
  (told.getD s).setHandler c .idle

/-- The snapshot is sent, with what the manager says the channel's last sequence number is. -/
def answer (s : State) (c : ℕ) (a : Ask) (id : String) (p : ℕ) (snapshot : Mirror) : State :=
  let lastSeq := (s.manager.channels.get id).elim 0 (·.seq)
  let s := s.setHandler c .idle
  match a with
  | .snapshotReq => s.send c ⟨.snapshotRes id snapshot lastSeq, some p⟩
  | .attach requestId => s.send c ⟨.attachOk id requestId snapshot lastSeq, some p⟩
  | .cwdQuery => s

/-- The terminal's reader is taken, of whatever is registered under the id now. -/
def takeReader (s : State) (c : ℕ) (requestId id : String) (pid cols rows : ℕ) : State :=
  match s.manager.readerFor id with
  | some source => s.setHandler c (.holding requestId id pid source cols rows)
  | none =>
    let e : IoError := ⟨.other, "terminal channel was gone before its reader could be registered"⟩
    (s.send c (AgentToHub.spawnErr requestId (mapSpawnError e) e.message).reply).setHandler c .idle

/-- The command queue is made and its sender put in the map. -/
def list (s : State) (c : ℕ) (owner : OwnerId) (requestId id : String)
    (pid source cols rows : ℕ) : State :=
  { s with
    cmdSenders := s.cmdSenders.set id pid
    readers := update s.readers pid
      (some ⟨owner, id, source, .starting, 0, ⟨cols, rows, []⟩, []⟩) }.setHandler c
    (.listed requestId id pid)

/-- SPAWN_OK is sent, and only then the reader started.  Nothing the reader does could come
between the two, so they are one step.  Where the connection's writer is gone the source
returns at the failed send, and no reader is started; here it is started all the same. -/
def announce (s : State) (c : ℕ) (requestId id : String) (pid : ℕ) : State :=
  let s := (s.send c ⟨.spawnOk requestId id, some pid⟩).setHandler c .idle
  match s.readers pid with
  | some r => s.setReader pid { r with stage := .running }
  | none => s

/-- The read loop of a connection goes on. -/
def resume (s : State) (c : ℕ) (conn : Connection) : Option State :=
  match conn.handler with
  | .greeting => some (s.greet c conn)
  | .resized id cols rows => some (s.tellSize c id cols rows)
  | .visible a id => some (s.lookUp c a id)
  | .awaiting a id p =>
    if (s.readers p).any (·.stage.listens) then none
    else some ((s.readerGone c id a).setHandler c .idle)
  | .answered a id p snapshot => some (s.answer c a id p snapshot)
  | .spawned requestId id pid cols rows => some (s.takeReader c requestId id pid cols rows)
  | .holding requestId id pid source cols rows =>
    some (s.list c conn.owner requestId id pid source cols rows)
  | .listed requestId id pid => some (s.announce c requestId id pid)
  | .idle | .ended => none

/-! ### Readers -/

/-- Output is read: drawn first, then sent, then what the screen model noticed in it. -/
def read (s : State) (p : ℕ) (r : Reader) (raw : List UInt8) (notices : List Notice) : State :=
  let r := { r with seq := r.seq + 1 }
  let data := (stripDsr raw).map (⟨r.source, p, ·⟩)
  if data.isEmpty then s.setReader p r
  else
    let r := { r with mirror := r.mirror.process data }
    notices.foldl (fun s n => s.sendChannelEvent p r (n.msg r.channelId))
      ((s.setReader p r).emit (.output ⟨r.owner, r.channelId, r.seq, data⟩))

/-- The next command is served. -/
def serve (s : State) (p : ℕ) (r : Reader) : Option State :=
  match r.commands with
  | [] => none
  | .snapshot c :: rest =>
    let s := s.setReader p { r with commands := rest }
    match s.conns c with
    | some ⟨_, _, .awaiting a id q, _⟩ =>
      if q = p then some (s.setHandler c (.answered a id p r.mirror)) else some s
    | _ => some s
  | .resize cols rows :: rest =>
    some (s.setReader p { r with commands := rest, mirror := r.mirror.resize cols rows })
  | .cwdQuery :: rest => some (s.setReader p { r with commands := rest })

/-- Its own sender is taken out of the map, and no other's (`same_channel`). -/
def unlist (s : State) (p : ℕ) (r : Reader) : State :=
  { s.setReader p { r with stage := .unlisted } with
    cmdSenders :=
      if s.cmdSenders.get r.channelId = some p then s.cmdSenders.delete r.channelId
      else s.cmdSenders }

/-- `take_own_workload`, and what the reader does with its answer. -/
def takeOwn (s : State) (p : ℕ) (r : Reader) : State :=
  let taken := s.manager.takeOwnWorkload r.channelId p
  let stage : Stage :=
    match taken.1 with
    | .own => .exiting true
    | .gone => .exiting false
    | .replaced => .ended
  { s.setReader p { r with stage } with manager := taken.2 }

/-- CHANNEL_EXIT. -/
def exit (s : State) (p : ℕ) (r : Reader) (status : Option (Int × Option String)) : State :=
  let status := status.getD (-1, none)
  (s.setReader p { r with stage := .ended }).sendChannelEvent p r
    (.channelExit r.channelId status.1 status.2)

/-! ### The batch loop, the router and the hub -/

/-- `into_routed`. -/
def intoRouted : BatchedEvent Printed Frame → OwnerId × String × Frame
  | .output b => (b.owner, b.channelId, ⟨.output b.channelId b.seq b.data, none⟩)
  | .frame e => (e.owner, e.channelId, e.frame)

/-- The router takes the next event. -/
def route (len : Frame → ℕ) (s : State) (e : BatchedEvent Printed Frame)
    (rest : List (BatchedEvent Printed Frame)) : State :=
  let (owner, id, frame) := intoRouted e
  let routed := s.routes.route len s.isOpen owner id frame
  { s with
    batched := rest
    routes := routed.1
    wire := s.wire ++ (routed.2.map (·, frame)).toList }

/-- What the hub has not read of what a connection was given. -/
def unread (s : State) (c : ℕ) (conn : Connection) : List Frame :=
  (s.sentTo c).drop conn.reads.flatten.length

end State

/-- What can happen. -/
inductive Step
  /-- A connection has authenticated as this hub. -/
  | register (owner : OwnerId)
  | writerEnds (c : ℕ)
  /-- The read loop ends: end of file, an error, or a newer connection. -/
  | connectionEnds (c : ℕ)
  | plain (c : ℕ) (answer : State.Plain)
  | input (c : ℕ) (channelId : String) (data : List UInt8)
  | resize (c : ℕ) (channelId : String) (cols rows : ℕ)
  | destroy (c : ℕ) (channelId : String) (teardown : Teardown)
  | ask (c : ℕ) (a : Ask) (channelId : String)
  | spawn (c : ℕ) (requestId : String) (channelId : Option String) (generated : String)
      (cols rows : ℕ) (started : Except IoError Unit)
  | stop (c : ℕ) (force : Bool)
  | resume (c : ℕ)
  | read (p : ℕ) (raw : List UInt8) (notices : List Notice)
  /-- What the polling task read, or the directory at the start. -/
  | notice (p : ℕ) (n : Notice)
  | serve (p : ℕ)
  | eof (p : ℕ)
  | closeQueue (p : ℕ)
  | unlist (p : ℕ)
  | takeOwn (p : ℕ)
  | exit (p : ℕ) (status : Option (Int × Option String))
  | writeInput (channelId : String) (taken : Bool)
  /-- The daemon is asked to stop by a signal, or is idle. -/
  | shutdown
  /-- The sweep of `destroy_all` reaches a channel. -/
  | sweep (channelId : String) (teardown : Teardown)
  | batch
  | tick
  | route
  /-- The hub reads what `n` frames left on the connection. -/
  | hubReads (c n : ℕ)

/-- A connection whose read loop takes the next message. -/
def State.ready (s : State) (c : ℕ) : Option Connection :=
  (s.conns c).filter (·.handler = .idle)

/-- A reader that is at this stage. -/
def State.readerAt (s : State) (p : ℕ) (stage : Stage) : Option Reader :=
  (s.readers p).filter (·.stage = stage)

/-- The state after a step, if the step is possible. -/
def step (len : Frame → ℕ) (s : State) : Step → Option State
  | .register owner => some (s.register owner)
  | .writerEnds c => (s.conns c).map fun conn => s.setConn c { conn with isOpen := false }
  | .connectionEnds c => (s.ready c).map fun conn => s.leave c conn
  | .plain c answer => (s.ready c).map fun _ => s.plain c answer
  | .input c id data => (s.ready c).map fun conn => s.input c conn.owner id data
  | .resize c id cols rows => (s.ready c).map fun conn => s.resize c conn.owner id cols rows
  | .destroy c id teardown => (s.ready c).map fun conn => s.destroy conn.owner id teardown
  | .ask c a id => (s.ready c).map fun conn => s.ask c conn.owner a id
  | .spawn c requestId id generated cols rows started =>
    -- a generated id is one no channel has
    if (s.manager.channels.get generated).isSome then none
    else (s.ready c).map fun conn =>
      s.spawn c conn.owner requestId id generated cols rows started
  | .stop c force => (s.ready c).map fun conn => s.stop c conn.owner force
  | .resume c => (s.conns c).bind fun conn => s.resume c conn
  | .read p raw notices =>
    if raw.isEmpty then none
    else (s.readerAt p .running).map fun r => s.read p r raw notices
  | .notice p n => (s.readerAt p .running).map fun r => s.sendChannelEvent p r (n.msg r.channelId)
  | .serve p => (s.readerAt p .running).bind fun r => s.serve p r
  | .eof p =>
    (s.readerAt p .running).map fun r =>
      (s.setReader p { r with stage := .closed }).sendChannelEvent p r
        (.log r.channelId "debug" "PTY closed")
  | .closeQueue p =>
    (s.readerAt p .closed).map fun r => s.setReader p { r with stage := .deaf, commands := [] }
  | .unlist p => (s.readerAt p .deaf).map fun r => s.unlist p r
  | .takeOwn p => (s.readerAt p .unlisted).map fun r => s.takeOwn p r
  | .exit p status =>
    match s.readers p with
    | some r =>
      match r.stage with
      | .exiting true => some (s.exit p r status)
      | .exiting false => some (s.exit p r none)
      | _ => none
    | none => none
  | .writeInput id taken =>
    some { s with manager := s.manager.modify id fun ch =>
      { ch with input := if taken then ch.input.write else ch.input.refuse } }
  | .shutdown => some { s with manager := s.manager.beginShutdown }
  | .sweep id teardown =>
    if s.manager.shuttingDown ∧ teardown ≠ .failed then
      some { s with manager := s.manager.remove id }
    else none
  | .batch =>
    match s.events with
    | [] => none
    | e :: rest =>
      let accepted := s.batcher.accept e
      some { s with events := rest, batcher := accepted.1, batched := s.batched ++ accepted.2 }
  | .tick =>
    let flushed := s.batcher.flushAll
    some { s with batcher := flushed.1, batched := s.batched ++ flushed.2 }
  | .route =>
    match s.batched with
    | [] => none
    | e :: rest => some (s.route len e rest)
  | .hubReads c n =>
    (s.conns c).bind fun conn =>
      let frames := (s.unread c conn).take n
      if frames.isEmpty then none
      else some (s.setConn c { conn with reads := conn.reads ++ [frames] })

/-- What a step leads to, with what it found. -/
inductive Leads (len : Frame → ℕ) (s : State) : Step → State → Prop
  | register {owner} : Leads len s (.register owner) (s.register owner)
  | writerEnds {c conn} (hc : s.conns c = some conn) :
      Leads len s (.writerEnds c) (s.setConn c { conn with isOpen := false })
  | connectionEnds {c conn} (hc : s.ready c = some conn) :
      Leads len s (.connectionEnds c) (s.leave c conn)
  | plain {c conn answer} (hc : s.ready c = some conn) :
      Leads len s (.plain c answer) (s.plain c answer)
  | input {c conn id data} (hc : s.ready c = some conn) :
      Leads len s (.input c id data) (s.input c conn.owner id data)
  | resize {c conn id cols rows} (hc : s.ready c = some conn) :
      Leads len s (.resize c id cols rows) (s.resize c conn.owner id cols rows)
  | destroy {c conn id t} (hc : s.ready c = some conn) :
      Leads len s (.destroy c id t) (s.destroy conn.owner id t)
  | ask {c conn a id} (hc : s.ready c = some conn) :
      Leads len s (.ask c a id) (s.ask c conn.owner a id)
  | spawn {c conn requestId id generated cols rows started} (hc : s.ready c = some conn)
      (hnew : s.manager.channels.get generated = none) :
      Leads len s (.spawn c requestId id generated cols rows started)
        (s.spawn c conn.owner requestId id generated cols rows started)
  | stop {c conn force} (hc : s.ready c = some conn) :
      Leads len s (.stop c force) (s.stop c conn.owner force)
  | resume {c conn s'} (hc : s.conns c = some conn) (h : s.resume c conn = some s') :
      Leads len s (.resume c) s'
  | read {p r raw notices} (hr : s.readerAt p .running = some r) :
      Leads len s (.read p raw notices) (s.read p r raw notices)
  | notice {p r n} (hr : s.readerAt p .running = some r) :
      Leads len s (.notice p n) (s.sendChannelEvent p r (n.msg r.channelId))
  | serve {p r s'} (hr : s.readerAt p .running = some r) (h : s.serve p r = some s') :
      Leads len s (.serve p) s'
  | eof {p r} (hr : s.readerAt p .running = some r) :
      Leads len s (.eof p) ((s.setReader p { r with stage := .closed }).sendChannelEvent p r
        (.log r.channelId "debug" "PTY closed"))
  | closeQueue {p r} (hr : s.readerAt p .closed = some r) :
      Leads len s (.closeQueue p) (s.setReader p { r with stage := .deaf, commands := [] })
  | unlist {p r} (hr : s.readerAt p .deaf = some r) : Leads len s (.unlist p) (s.unlist p r)
  | takeOwn {p r} (hr : s.readerAt p .unlisted = some r) :
      Leads len s (.takeOwn p) (s.takeOwn p r)
  | exit {p r status found} (hr : s.readers p = some r) :
      Leads len s (.exit p status) (s.exit p r found)
  | writeInput {id taken} : Leads len s (.writeInput id taken)
      { s with manager := s.manager.modify id fun ch =>
          { ch with input := if taken then ch.input.write else ch.input.refuse } }
  | shutdown : Leads len s .shutdown { s with manager := s.manager.beginShutdown }
  | sweep {id t} : Leads len s (.sweep id t) { s with manager := s.manager.remove id }
  | batch {e rest} (he : s.events = e :: rest) : Leads len s .batch
      { s with events := rest, batcher := (s.batcher.accept e).1
               batched := s.batched ++ (s.batcher.accept e).2 }
  | tick : Leads len s .tick
      { s with batcher := s.batcher.flushAll.1, batched := s.batched ++ s.batcher.flushAll.2 }
  | route {e rest} (he : s.batched = e :: rest) : Leads len s .route (s.route len e rest)
  | hubReads {c conn n} (hc : s.conns c = some conn) : Leads len s (.hubReads c n)
      (s.setConn c { conn with reads := conn.reads ++ [(s.unread c conn).take n] })

/-- Every step is one of those. -/
theorem leads_of_step {len : Frame → ℕ} {s s' : State} {a : Step} (h : step len s a = some s') :
    Leads len s a s' := by
  cases a with
  | register owner => exact some.inj h ▸ .register
  | writerEnds c => obtain ⟨conn, hc, rfl⟩ := map_eq_some_iff.mp h; exact .writerEnds hc
  | connectionEnds c =>
    obtain ⟨conn, hc, rfl⟩ := map_eq_some_iff.mp h
    exact .connectionEnds hc
  | plain c answer => obtain ⟨conn, hc, rfl⟩ := map_eq_some_iff.mp h; exact .plain hc
  | input c id data => obtain ⟨conn, hc, rfl⟩ := map_eq_some_iff.mp h; exact .input hc
  | resize c id cols rows => obtain ⟨conn, hc, rfl⟩ := map_eq_some_iff.mp h; exact .resize hc
  | destroy c id t => obtain ⟨conn, hc, rfl⟩ := map_eq_some_iff.mp h; exact .destroy hc
  | ask c a id => obtain ⟨conn, hc, rfl⟩ := map_eq_some_iff.mp h; exact .ask hc
  | spawn c requestId id generated cols rows started =>
    obtain ⟨hnew, h⟩ := ite_none_left_eq_some.mp h
    obtain ⟨conn, hc, rfl⟩ := map_eq_some_iff.mp h
    exact .spawn hc (by simpa using hnew)
  | stop c force => obtain ⟨conn, hc, rfl⟩ := map_eq_some_iff.mp h; exact .stop hc
  | resume c => obtain ⟨conn, hc, h⟩ := bind_eq_some_iff.mp h; exact .resume hc h
  | read p raw notices =>
    obtain ⟨-, h⟩ := ite_none_left_eq_some.mp h
    obtain ⟨r, hr, rfl⟩ := map_eq_some_iff.mp h
    exact .read hr
  | notice p n => obtain ⟨r, hr, rfl⟩ := map_eq_some_iff.mp h; exact .notice hr
  | serve p => obtain ⟨r, hr, h⟩ := bind_eq_some_iff.mp h; exact .serve hr h
  | eof p => obtain ⟨r, hr, rfl⟩ := map_eq_some_iff.mp h; exact .eof hr
  | closeQueue p => obtain ⟨r, hr, rfl⟩ := map_eq_some_iff.mp h; exact .closeQueue hr
  | unlist p => obtain ⟨r, hr, rfl⟩ := map_eq_some_iff.mp h; exact .unlist hr
  | takeOwn p => obtain ⟨r, hr, rfl⟩ := map_eq_some_iff.mp h; exact .takeOwn hr
  | exit p status =>
    dsimp only [step] at h
    split at h
    · split at h
      · exact some.inj h ▸ .exit ‹_›
      · exact some.inj h ▸ .exit ‹_›
      · cases h
    · cases h
  | writeInput id taken => exact some.inj h ▸ .writeInput
  | shutdown => exact some.inj h ▸ .shutdown
  | sweep id t => obtain ⟨-, ⟨rfl⟩⟩ := ite_none_right_eq_some.mp h; exact .sweep
  | batch =>
    dsimp only [step] at h
    split at h
    · cases h
    · exact some.inj h ▸ .batch ‹_›
  | tick => exact some.inj h ▸ .tick
  | route =>
    dsimp only [step] at h
    split at h
    · cases h
    · exact some.inj h ▸ .route ‹_›
  | hubReads c n =>
    obtain ⟨conn, hc, h⟩ := bind_eq_some_iff.mp h
    obtain ⟨-, ⟨rfl⟩⟩ := ite_none_left_eq_some.mp h
    exact .hubReads hc

/-! ### What the handlers are made of -/

theorem State.of_command {s s' : State} {p : ℕ} {cmd : ChannelCommand}
    (h : s.command p cmd = some s') : ∃ r, s.readers p = some r ∧
      s' = s.setReader p { r with commands := r.commands ++ [cmd] } := by
  unfold State.command at h
  split at h
  · next r hr =>
    obtain ⟨-, ⟨rfl⟩⟩ := ite_none_right_eq_some.mp h
    exact ⟨r, hr, rfl⟩
  · cases h

/-- A relation that holds where a frame without output is sent, or nothing is. -/
structure Sends (R : State → State → Prop) : Prop where
  refl : ∀ s, R s s
  send : ∀ s c {m : AgentToHub}, (∀ id seq data, m ≠ .output id seq data) → R s (s.send c m.reply)

/-- A relation that holds where a handler asks a reader too, one thing after another. -/
structure Asking (R : State → State → Prop) : Prop extends Sends R where
  trans : ∀ {s s' s''}, R s s' → R s' s'' → R s s''
  command : ∀ {s s' : State} {p : ℕ} {cmd : ChannelCommand}, s.command p cmd = some s' → R s s'
  idle : ∀ s c, R s (s.setHandler c .idle)

/-- A relation that holds where a handler of hub `o` does one thing, or several. -/
structure Handling (o : OwnerId) (R : State → State → Prop) : Prop extends Sends R where
  trans : ∀ {s s' s''}, R s s' → R s' s'' → R s s''
  resized : ∀ s c id cols rows, R s (s.setHandler c (.resized id cols rows))
  visible : ∀ s c a id, R s (s.setHandler c (.visible a id))
  modify : ∀ {s : State} {id ch} {f : PtyChannelState → PtyChannelState},
    s.manager.ownedBy id o = some ch →
    (∀ ch, (f ch).pid = ch.pid ∧ (f ch).owner = ch.owner ∧ (f ch).seq = ch.seq) →
    R s { s with manager := s.manager.modify id f }
  remove : ∀ {s : State} {id ch}, s.manager.ownedBy id o = some ch →
    R s { s with manager := s.manager.remove id }
  shutdown : ∀ s : State, R s { s with manager := s.manager.beginShutdown }

section handlers

variable {R : State → State → Prop} {o : OwnerId}

theorem Sends.notFound (h : Sends R) (s : State) (c : ℕ) (id : String) (a : Ask) :
    R s (s.notFound c id a) := by
  cases a with
  | snapshotReq => exact h.refl s
  | attach | cwdQuery => exact h.send s c nofun

theorem Sends.readerGone (h : Sends R) (s : State) (c : ℕ) (id : String) (a : Ask) :
    R s (s.readerGone c id a) := by
  cases a with
  | snapshotReq => exact h.refl s
  | attach | cwdQuery => exact h.send s c nofun

theorem Sends.plain (h : Sends R) (s : State) (c : ℕ) (answer : State.Plain) :
    R s (s.plain c answer) := by
  cases answer with
  | ignored => exact h.refl s
  | heartbeatAck | env | error => exact h.send s c nofun

theorem Asking.tellSize (h : Asking R) (s : State) (c : ℕ) (id : String) (cols rows : ℕ) :
    R s (s.tellSize c id cols rows) := by
  unfold State.tellSize
  cases hcmd : (s.cmdSenders.get id).bind fun p => s.command p (.resize cols rows) with
  | none => exact h.idle s c
  | some s' =>
    obtain ⟨p, -, hcmd⟩ := bind_eq_some_iff.mp hcmd
    exact h.trans (h.command hcmd) (h.idle s' c)

theorem Asking.lookUp (h : Asking R)
    (hawait : ∀ s c a id p, R s (s.setHandler c (.awaiting a id p))) (s : State) (c : ℕ) (a : Ask)
    (id : String) : R s (s.lookUp c a id) := by
  unfold State.lookUp
  split
  · exact h.trans (h.notFound s c id a) (h.idle ..)
  · split
    · split
      · next s' hcmd => exact h.trans (h.command hcmd) (h.idle ..)
      · exact h.trans (h.readerGone s c id _) (h.idle ..)
    · split
      · next s' hcmd => exact h.trans (h.command hcmd) (hawait ..)
      · exact h.trans (h.readerGone s c id _) (h.idle ..)

section

variable (h : Handling o R)
include h

theorem Handling.input (s : State) (c : ℕ) (id : String) (data : List UInt8) :
    R s (s.input c o id data) := by
  unfold State.input
  split
  · exact h.send s c nofun
  · next hch =>
    have hoffered := fun q => h.modify hch (f := ({ · with input := q })) fun _ => ⟨rfl, rfl, rfl⟩
    dsimp only
    split
    · exact h.trans (hoffered _) (h.send _ c nofun)
    · exact hoffered _

theorem Handling.resize (s : State) (c : ℕ) (id : String) (cols rows : ℕ) :
    R s (s.resize c o id cols rows) := by
  unfold State.resize
  split
  · exact h.send s c nofun
  · next hch =>
    exact h.trans (h.modify hch (f := ({ · with cols, rows })) fun _ => ⟨rfl, rfl, rfl⟩) (h.resized ..)

theorem Handling.destroy (s : State) (id : String) (teardown : Teardown) :
    R s (s.destroy o id teardown) := by
  unfold State.destroy
  split
  · exact h.refl s
  · exact h.refl s
  · next hch _ => exact h.remove hch

theorem Handling.ask (s : State) (c : ℕ) (a : Ask) (id : String) :
    R s (s.ask c o a id) := by
  unfold State.ask
  split
  · exact h.visible ..
  · exact h.notFound s c id a

theorem Handling.stop (s : State) (c : ℕ) (force : Bool) :
    R s (s.stop c o force) := by
  unfold State.stop
  dsimp only
  split
  · exact h.send s c nofun
  · exact h.shutdown s

end

end handlers

end Lasterm.Agent
