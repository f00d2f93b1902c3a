import Lasterm.Agent.Routes

/-!
# The terminals of the agent

What the agent keeps of each terminal it runs: the manager's entry with its input queue
(`crates/lasterm-agent/src/pty.rs`, `input.rs`), and the task that reads the terminal and
draws its screen (`spawn_reader_task` of `handler.rs`); and the messages the agent sends
about them (`protocol.rs`).

A process is named by its pid, taken to be new each time: that a system hands a pid out
again is not modelled.

## Main definitions

* `Mirror` — the screen model, which is what it was given to draw; each byte keeps the workload
  that printed it and the reader that read it.
* `PtyManager`, `InputQueue`, `Reader`, `AgentToHub`.
-/

namespace Lasterm.Agent

/-- A byte a terminal printed, with where it comes from. -/
structure Printed where
  workload : ℕ
  reader : ℕ
  byte : UInt8
  deriving DecidableEq

/-- The `HeadlessMirror`: its size, and what it was given to draw. -/
structure Mirror where
  cols : ℕ
  rows : ℕ
  drawn : List Printed
  deriving DecidableEq

/-- The mirror draws what was printed. -/
def Mirror.process (m : Mirror) (data : List Printed) : Mirror :=
  { m with drawn := m.drawn ++ data }

/-- The mirror takes a new size. -/
def Mirror.resize (m : Mirror) (cols rows : ℕ) : Mirror := { m with cols, rows }

/-- `strip_dsr`: the queries `ESC [ 6 n` taken out of what one read gave. -/
def stripDsr : List UInt8 → List UInt8
  | [] => []
  | b₀ :: b₁ :: b₂ :: b₃ :: rest =>
    if b₀ = 0x1b ∧ b₁ = 0x5b ∧ b₂ = 0x36 ∧ b₃ = 0x6e then stripDsr rest
    else b₀ :: stripDsr (b₁ :: b₂ :: b₃ :: rest)
  | b₀ :: rest => b₀ :: stripDsr rest

/-! ### Input -/

/-- What became of an INPUT offered to a channel's queue. -/
inductive Offer
  | queued
  | overflowed
  | dropped
  | closed

/-- `INPUT_QUEUE_BYTES`. -/
def inputQueueBytes : ℕ := 1024 * 1024

/-- `WRITE_CHUNK`. -/
def writeChunk : ℕ := 4096

/-- One channel's input queue and what its writer has in hand. -/
structure InputQueue where
  waiting : List (List UInt8)
  writing : List UInt8
  queued : ℕ
  dropping : Bool
  closed : Bool

namespace InputQueue

/-- `InputQueue::start`. -/
def start : InputQueue := ⟨[], [], 0, false, false⟩

/-- `offer`: queue an INPUT whole, or drop it whole. -/
def offer (q : InputQueue) (data : List UInt8) : InputQueue × Offer :=
  if q.closed then (q, .closed)
  else if q.dropping ∧ 0 < q.queued then (q, .dropped)
  else if inputQueueBytes < q.queued + data.length then ({ q with dropping := true }, .overflowed)
  else
    ({ q with
        waiting := q.waiting ++ [data]
        queued := q.queued + data.length
        dropping := false }, .queued)

/-- A turn of `write_input`: the terminal takes a chunk, or the next INPUT is received. -/
def write (q : InputQueue) : InputQueue :=
  match q.writing, q.waiting with
  | [], [] => q
  | [], data :: rest => { q with writing := data, waiting := rest }
  | data, _ =>
    { q with
      writing := data.drop writeChunk
      queued := q.queued - (data.take writeChunk).length }

/-- The terminal refuses a write: the writer ends. -/
def refuse (q : InputQueue) : InputQueue :=
  { q with waiting := [], writing := [], queued := 0, closed := true }

end InputQueue

/-! ### The manager -/

/-- A registered channel. -/
structure PtyChannelState where
  pid : ℕ
  seq : ℕ
  owner : OwnerId
  cols : ℕ
  rows : ℕ
  input : InputQueue

/-- Why a process did not start. -/
inductive IoErrorKind
  | notFound
  | permissionDenied
  | alreadyExists
  | other

/-- An `io::Error`. -/
structure IoError where
  kind : IoErrorKind
  message : String

/-- `map_spawn_error`. -/
def mapSpawnError (e : IoError) : String :=
  match e.kind with
  | .notFound => "SHELL_NOT_FOUND"
  | .permissionDenied => "PERMISSION_DENIED"
  | .alreadyExists => "CHANNEL_EXISTS"
  | .other => "PTY_SPAWN_FAILED"

/-- What signalling a workload to end comes to (`start_teardown`). -/
inductive Teardown
  | signalled
  | alreadyExited
  | failed
  deriving DecidableEq

/-- The registered channels. -/
structure PtyManager where
  channels : OrderedMap String PtyChannelState
  shuttingDown : Bool

/-- What a reader whose terminal has closed still speaks for. -/
inductive ReaderWorkload
  | own
  | gone
  | replaced

namespace PtyManager

/-- `PtyManager::new`. -/
def new : PtyManager := ⟨.empty, false⟩

/-- `owned_by`. -/
def ownedBy (m : PtyManager) (id : String) (owner : OwnerId) : Option PtyChannelState :=
  (m.channels.get id).filter (·.owner = owner)

/-- `held_by_others`. -/
def heldByOthers (m : PtyManager) (owner : OwnerId) : ℕ :=
  (m.channels.entries.filter fun e => e.2.owner ≠ owner).length

/-- The channel is no longer registered. -/
def remove (m : PtyManager) (id : String) : PtyManager := { m with channels := m.channels.delete id }

/-- `begin_shutdown`. -/
def beginShutdown (m : PtyManager) : PtyManager := { m with shuttingDown := true }

/-- An entry replaced, if there is one. -/
def modify (m : PtyManager) (id : String) (f : PtyChannelState → PtyChannelState) : PtyManager :=
  match m.channels.get id with
  | some ch => { m with channels := m.channels.set id (f ch) }
  | none => m

/-- `spawn`: the id of the new channel and the manager after, or why there is none.  `pid` is
the process's and `started` whether the system started it. -/
def spawn (m : PtyManager) (owner : OwnerId) (id : Option String) (generated : String)
    (pid cols rows : ℕ) (started : Except IoError Unit) : Except IoError (String × PtyManager) :=
  if m.shuttingDown then
    .error ⟨.other, "agent is shutting down; refusing to spawn a terminal"⟩
  else if id.any fun id => (m.channels.get id).isSome then
    .error ⟨.alreadyExists, "channel already exists"⟩
  else
    match started with
    | .error e => .error e
    | .ok () =>
      let id := id.getD generated
      .ok (id, { m with channels := m.channels.set id ⟨pid, 0, owner, cols, rows, .start⟩ })

/-- `reader_for`: the process whose output a reader taken now reads. -/
def readerFor (m : PtyManager) (id : String) : Option ℕ := (m.channels.get id).map (·.pid)

/-- `take_own_workload`. -/
def takeOwnWorkload (m : PtyManager) (id : String) (pid : ℕ) : ReaderWorkload × PtyManager :=
  match m.channels.get id with
  | none => (.gone, m)
  | some ch => if ch.pid ≠ pid then (.replaced, m) else (.own, m.remove id)

end PtyManager

/-! ### Readers -/

/-- What a handler asks of a reader. -/
inductive ChannelCommand
  /-- A snapshot, for the handler of this connection. -/
  | snapshot (conn : ℕ)
  | resize (cols rows : ℕ)
  | cwdQuery
  deriving DecidableEq

/-- How far a reader task is. -/
inductive Stage
  /-- Its command queue is registered, and it is not started. -/
  | starting
  | running
  | closed
  | deaf
  /-- Its command sender is taken out of the map, if that was its own. -/
  | unlisted
  /-- It waits for the exit status of its workload, or has none to wait for. -/
  | exiting (own : Bool)
  | ended
  deriving DecidableEq

/-- Whether a command sent now is received, or kept until it is. -/
def Stage.listens : Stage → Bool
  | .starting | .running | .closed => true
  | _ => false

/-- A reader task, and the queue of its commands. -/
structure Reader where
  owner : OwnerId
  channelId : String
  source : ℕ
  stage : Stage
  seq : ℕ
  mirror : Mirror
  commands : List ChannelCommand

/-! ### Messages -/

/-- What the agent sends to a hub. -/
inductive AgentToHub
  | spawnOk (requestId channelId : String)
  | spawnErr (requestId code message : String)
  | output (channelId : String) (seq : ℕ) (data : List Printed)
  | snapshotRes (channelId : String) (snapshot : Mirror) (lastSeq : ℕ)
  | attachOk (channelId : String) (requestId : Option String) (snapshot : Mirror) (lastSeq : ℕ)
  | channelExit (channelId : String) (exitCode : Int) (signal : Option String)
  | titleChange (channelId title : String)
  | processTitle (channelId title : String)
  | cwdChange (channelId : String) (cwd : Option String)
  | bell (channelId : String)
  | notification (channelId message : String)
  | agentChannelState (channelId : String) (pid : ℕ)
  | channelStateEnd (otherOwnerChannels : ℕ)
  | error (code message : String) (channelId : Option String) (otherOwnerChannels : Option ℕ)
      (requestId : Option String)
  | log (channelId level msg : String)
  | heartbeatAck (ts : String)
  | env (requestId : String)
  deriving DecidableEq

/-- A message on its way to a hub, with the pid of the terminal it is about: whose SPAWN it
answers, whose reader sent it, or whose reader made the snapshot in it. -/
structure Frame where
  msg : AgentToHub
  pid : Option ℕ
  deriving DecidableEq

/-- A message that is about no terminal. -/
def AgentToHub.reply (msg : AgentToHub) : Frame := ⟨msg, none⟩

/-- What a running reader says about its terminal besides its output. -/
inductive Notice
  | titleChange (title : String)
  | processTitle (title : String)
  | cwdChange (cwd : Option String)
  | bell
  | notification (message : String)

/-- The message a notice is sent as. -/
def Notice.msg (channelId : String) : Notice → AgentToHub
  | .titleChange title => .titleChange channelId title
  | .processTitle title => .processTitle channelId title
  | .cwdChange cwd => .cwdChange channelId cwd
  | .bell => .bell channelId
  | .notification message => .notification channelId message

/-- `channel_not_found`: the same for a channel that is not there and for another hub's. -/
def channelNotFound (channelId : String) (requestId : Option String) : AgentToHub :=
  .error "CHANNEL_NOT_FOUND" ("channel " ++ channelId ++ " not found") (some channelId) none
    requestId

/-- What answers an ATTACH whose reader is gone, or goes before it made the snapshot. -/
def channelDead (channelId : String) (requestId : Option String) : AgentToHub :=
  .error "CHANNEL_NOT_FOUND" ("channel " ++ channelId ++ " not found or dead") (some channelId)
    none requestId

/-- `input_dropped`. -/
def inputDropped (channelId : String) : AgentToHub :=
  .error "INPUT_DROPPED" ("input to channel " ++ channelId ++
    " dropped: its terminal takes no input and its queue is full; " ++
    "input is dropped until the terminal has taken what is queued") (some channelId) none none

/-- `stop_refusal`. -/
def stopRefusal (others : ℕ) : AgentToHub :=
  let held :=
    if others = 1 then "1 terminal on this agent belongs to another hub"
    else toString others ++ " terminals on this agent belong to other hubs"
  .error "OTHER_HUBS_HOLD_CHANNELS"
    (held ++ "; stopping it would end them. Send STOP with force to stop it anyway") none
    (some others) none

/-- The notice a replaced connection is sent. -/
def displaced (newer : ℕ) : AgentToHub :=
  .error "DISPLACED" ("a newer connection of this hub (#" ++ toString newer ++
    ") has replaced this one") none none none

end Lasterm.Agent
