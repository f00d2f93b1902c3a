import Mathlib.Logic.Function.Basic
import Lasterm.Lib.Run

/-!
# Upload files on one shared SFTP session

`SftpSink` (`files/sftp-upload.ts`), `mapLimited` (`files/host-files.ts`) and
`sftpRequest` (`session/ssh-file-transport.ts`) against a server that answers in order,
may fail any request, and gives a handle again once it was closed.

A write is cut into pieces of `pieceBytes`, sent by at most `piecesInFlight` workers.  A piece
that fails rejects the write, but only its own worker stops: the others go on taking pieces
when their answers come.  A `close` that is sent meanwhile frees the handle, another file's
`open` may be given it, and what is left of the first file then goes into the second.

## Main definitions

* `Session`, `step` — the sinks, their calls and the wire, and what can happen.
* `Isolated` — no handle takes another file's bytes; `Orderly` — the steps that keep it so.
-/

namespace Lasterm.Files

open Transition Function

/-- `PIECE_BYTES`: how many bytes one SFTP write carries. -/
def pieceBytes : ℕ := 30 * 1024

/-- `PIECES_IN_FLIGHT`: how many writes of one file are in flight at once. -/
def piecesInFlight : ℕ := 4

/-- What a request asks of the server. -/
inductive Op
  | openFile
  /-- The piece at `position` of the file, of the call `call`. -/
  | write (call position length : ℕ)
  | fsync
  | futimes
  | fstat
  /-- Sent by `finish`, or by `abort`. -/
  | close (finishing : Bool)

/-- Whether it closes the handle. -/
def Op.IsClose : Op → Prop
  | .close _ => True
  | _ => False

/-- A request, from the sink that sent it (for an open, the one it is to become). -/
structure Request where
  sink : ℕ
  handle : ℕ
  op : Op

/-- An answer of the server. -/
structure Response where
  request : Request
  ok : Bool

/-- The call whose piece this answer fails. -/
def Response.failedCall? (a : Response) : Option ℕ :=
  match a.request.op, a.ok with
  | .write c _ _, false => some c
  | _, _ => none

/-- A file opened for an upload. -/
structure Sink where
  path : String
  handle : Option ℕ
  /-- The answer that carries the handle has reached the hub: there is an `SftpSink`. -/
  known : Bool
  /-- Its `abort` or `finish` has begun. -/
  closing : Bool
  /-- A write of it was rejected, or its `abort` or `finish` has begun. -/
  ended : Bool

/-- A sink nobody has asked for. -/
def Sink.none : Sink := ⟨"", Option.none, false, false, false⟩

/-- A call of `write`: `length` bytes at `offset`, `next` pieces of which were taken. -/
structure Call where
  sink : ℕ
  offset : ℕ
  length : ℕ
  next : ℕ
  rejected : Bool

/-- A piece is left for a worker to take. -/
def Call.HasPiece (c : Call) : Prop := c.next * pieceBytes < c.length

instance (c : Call) : Decidable c.HasPiece :=
  inferInstanceAs (Decidable (_ < _))

/-- What happened, as far as the isolation of handles goes. -/
inductive Event
  | sentWrite (sink : ℕ)
  | rejected (sink : ℕ)
  | abortBegun (sink : ℕ)
  | finishBegun (sink : ℕ)
  | sessionEnded

/-- After this nothing more is to be written through the sink's handle. -/
def Event.Ends (k : ℕ) : Event → Prop
  | .sentWrite _ => False
  | .rejected j | .abortBegun j | .finishBegun j => j = k
  | .sessionEnded => True

/-- Bytes the server wrote: the sink that sent them, and the one whose file the handle
stood for. -/
structure Written where
  sink : ℕ
  owner : ℕ
  position : ℕ
  length : ℕ
  deriving DecidableEq

/-- One SFTP session, the server's side of it included. -/
structure Session where
  ended : Bool
  /-- Requests sent and not yet served, oldest first. -/
  toServer : List Request
  /-- Answers on their way to the hub, oldest first. -/
  toHub : List Response
  /-- The server's open handles, each with the sink it was given to. -/
  handles : ℕ → Option ℕ
  nSinks : ℕ
  sinks : ℕ → Sink
  nCalls : ℕ
  calls : ℕ → Call
  history : List Event
  written : List Written

namespace Session

/-- A session on which nothing was asked yet. -/
def init : Session where
  ended := false
  toServer := []
  toHub := []
  handles := fun _ => none
  nSinks := 0
  sinks := fun _ => .none
  nCalls := 0
  calls := fun _ => ⟨0, 0, 0, 0, false⟩
  history := []
  written := []

/-- What is in flight either way, oldest first. -/
def inFlight (s : Session) : List Request := s.toHub.map Response.request ++ s.toServer

/-- The sink `k` is now `sink`. -/
def setSink (s : Session) (k : ℕ) (sink : Sink) : Session :=
  { s with sinks := update s.sinks k sink }

/-- The call `c` is now `call`. -/
def setCall (s : Session) (c : ℕ) (call : Call) : Session :=
  { s with calls := update s.calls c call }

/-- An event is added to the history. -/
def note (s : Session) (e : Event) : Session := { s with history := s.history ++ [e] }

/-! ### The hub's side -/

/-- `sftpRequest`: nothing is sent on a session that has ended. -/
def send (s : Session) (k : ℕ) (op : Op) : Session :=
  if s.ended then s
  else { s with toServer := s.toServer ++ [⟨k, (s.sinks k).handle.getD 0, op⟩] }

/-- A call of `write` rejects, once. -/
def reject (s : Session) (c : ℕ) : Session :=
  let call := s.calls c
  if call.rejected then s
  else
    ((s.setCall c { call with rejected := true }).setSink call.sink
      { s.sinks call.sink with ended := true }).note (.rejected call.sink)

/-- One turn of a worker's loop in `mapLimited`: take the next piece, if there is one,
and send it.  On a session that has ended the request throws, and the write rejects. -/
def takePiece (s : Session) (c : ℕ) : Session :=
  let call := s.calls c
  if call.HasPiece then
    let s := s.setCall c { call with next := call.next + 1 }
    if s.ended then s.reject c
    else
      (s.send call.sink (.write c (call.offset + call.next * pieceBytes)
        (min pieceBytes (call.length - call.next * pieceBytes)))).note (.sentWrite call.sink)
  else s

/-- The workers a call of `write` starts. -/
def startWorkers (s : Session) (c : ℕ) : ℕ → Session
  | 0 => s
  | n + 1 => startWorkers (s.takePiece c) c n

/-- `write`: a call of its own, with the first of its requests sent. -/
def write (s : Session) (k offset length : ℕ) : Session :=
  let s' := { s with
    nCalls := s.nCalls + 1
    calls := update s.calls s.nCalls ⟨k, offset, length, 0, false⟩ }
  s'.startWorkers s.nCalls piecesInFlight

/-- A sink's `abort` or `finish` begins. -/
def beginClosing (s : Session) (k : ℕ) (e : Event) : Session :=
  (s.setSink k { s.sinks k with closing := true, ended := true }).note e

/-- `abort`: the sink is closed, whatever is in flight. -/
def abort (s : Session) (k : ℕ) : Session :=
  (s.beginClosing k (.abortBegun k)).send k (.close false)

/-- `SftpSink.finish`: flush (where the server offers it), time (where there is one),
size and close go together. -/
def finish (s : Session) (k : ℕ) (offersFsync mtime : Bool) : Session :=
  let s := s.beginClosing k (.finishBegun k)
  let s := if offersFsync then s.send k .fsync else s
  let s := if mtime then s.send k .futimes else s
  (s.send k .fstat).send k (.close true)

/-- What the hub does with an answer.  The answers of `finish` come in order, so that
its `abort` after a close that failed follows the answer to the close. -/
def answered (s : Session) (a : Response) : Session :=
  match a.request.op with
  | .openFile =>
    if a.ok then s.setSink a.request.sink { s.sinks a.request.sink with known := true } else s
  | .write c _ _ => if a.ok then s.takePiece c else s.reject c
  | .close true => if a.ok then s else s.send a.request.sink (.close false)
  | _ => s

/-! ### The server -/

/-- The server serves a request: `ok` is whether it would, `fresh` the handle an open is
given.  A handle it does not know fails whatever is asked of it. -/
def serveRequest (s : Session) (r : Request) (ok : Bool) (fresh : ℕ) : Option Session :=
  let answer (s : Session) (ok : Bool) : Session := { s with toHub := s.toHub ++ [⟨r, ok⟩] }
  match r.op with
  | .openFile =>
    if ok then
      if s.handles fresh = none then
        some (answer ({ s with handles := update s.handles fresh (some r.sink)
          }.setSink r.sink { s.sinks r.sink with handle := some fresh }) true)
      else none
    else some (answer s false)
  | .write _ position length =>
    match s.handles r.handle with
    | none => some (answer s false)
    -- a write that fails may have written a part: it counts as written
    | some owner =>
      some (answer { s with written := s.written ++ [⟨r.sink, owner, position, length⟩] } ok)
  | .close _ =>
    if ok ∧ (s.handles r.handle).isSome then
      some (answer { s with handles := update s.handles r.handle none } true)
    else some (answer s false)
  | _ => some (answer s (ok && (s.handles r.handle).isSome))

/-! ### Steps -/

/-- What can happen to the session. -/
inductive Step
  | openFile (path : String)
  | write (sink offset length : ℕ)
  | abort (sink : ℕ)
  | finish (sink : ℕ) (offersFsync mtime : Bool)
  | serve (ok : Bool) (fresh : ℕ)
  | deliver
  | endSession

/-- One step.  `write`, `abort` and `finish` are methods of a sink that was opened. -/
def step (s : Session) : Step → Option Session
  | .openFile path =>
    if s.ended then none
    else
      some { s with
        nSinks := s.nSinks + 1
        sinks := update s.sinks s.nSinks { Sink.none with path := path }
        toServer := s.toServer ++ [⟨s.nSinks, 0, .openFile⟩] }
  | .write k offset length =>
    if (s.sinks k).known then some (s.write k offset length) else none
  | .abort k => if (s.sinks k).known then some (s.abort k) else none
  | .finish k offersFsync mtime =>
    if (s.sinks k).known then some (s.finish k offersFsync mtime) else none
  | .serve ok fresh =>
    match s.toServer with
    | [] => none
    | r :: rest => serveRequest { s with toServer := rest } r ok fresh
  | .deliver =>
    match s.toHub with
    | [] => none
    | a :: rest =>
      let s := { s with toHub := rest }
      some (if s.ended then s else s.answered a)
  | .endSession => some ({ s with ended := true }.note .sessionEnded)

/-! ### Isolation -/

/-- No write request is sent after its sink ended, and every byte the server wrote went
into the file of the sink that sent it. -/
structure Isolated (s : Session) : Prop where
  nothing_after_end : ∀ k, s.history.Pairwise fun a b => a.Ends k → b ≠ .sentWrite k
  own_file : ∀ w ∈ s.written, w.owner = w.sink

/-- No piece of a write of the sink is left to take. -/
def NoPieceLeft (s : Session) (k : ℕ) : Prop :=
  ∀ c < s.nCalls, (s.calls c).sink = k → ¬(s.calls c).HasPiece

instance (s : Session) (k : ℕ) : Decidable (s.NoPieceLeft k) :=
  inferInstanceAs (Decidable (∀ c < s.nCalls, _))

/-- The condition on a step: a write is called only on a sink that has not ended; an
`abort` or `finish` begins once, and a piece's failure arrives, only when no piece of
that sink is left to take. -/
def Orderly (s : Session) : Step → Prop
  | .write k _ _ => (s.sinks k).ended = false
  | .abort k | .finish k _ _ => (s.sinks k).closing = false ∧ (s.ended ∨ s.NoPieceLeft k)
  | .deliver =>
    s.ended ∨ ∀ c ∈ s.toHub.head?.bind Response.failedCall?, s.NoPieceLeft (s.calls c).sink
  | _ => True

instance (s : Session) : ∀ a, Decidable (s.Orderly a)
  | .write k _ _ => inferInstanceAs (Decidable ((s.sinks k).ended = false))
  | .abort k | .finish k _ _ =>
    inferInstanceAs (Decidable ((s.sinks k).closing = false ∧ (s.ended ∨ s.NoPieceLeft k)))
  | .deliver =>
    inferInstanceAs (Decidable (s.ended = true ∨
      ∀ c ∈ s.toHub.head?.bind Response.failedCall?, s.NoPieceLeft (s.calls c).sink))
  | .openFile _ | .serve _ _ | .endSession => .isTrue trivial

end Session

end Lasterm.Files
