import Lasterm.Lib.Run
import Mathlib.Logic.Function.Basic

/-!
# Frames waiting for a stream

`session/send-queue.ts`: what the hub writes to an agent goes through a queue.  A frame is written
at once, until the stream answers a write with `false`; from then on frames wait, and the stream's
`drain` event writes those that do.  At a thousand frames the oldest gives way to the newest.

The flag `draining` is the queue's, the `drain` event is a stream's.  `attach` sets the stream and
leaves the flag: a queue that waits for one stream then goes on waiting, and the stream it has now
was never full and has nothing to drain.  A stream that said there is no room owes a `drain`, and
one that an error destroyed answers `false` for ever.

## Main definitions

* `Sending` — the queue, the streams, and the fate of each frame, noted as it is decided: first in,
  first out means that the notes are in the order of the sends.

## Main results

* `send_queue` — fates and order, in every run that attaches no free stream to a draining queue.
* `queue_stranded` — a run that does.
-/

namespace Lasterm.Hub

open Transition Function List

/-- `MAX_QUEUE_SIZE`. -/
def maxQueueSize : ℕ := 1000

/-- A `Writable`, as far as a queue sees it. -/
structure Writable where
  /-- It answered a write with `false`, and its `drain` has not come since. -/
  needDrain : Bool
  destroyed : Bool
  /-- The queue's listeners for its `drain`. -/
  listeners : ℕ

namespace Writable

/-- It takes a frame without asking to wait. -/
def free (w : Writable) : Bool := !w.needDrain && !w.destroyed

/-- `write`: the answer, where `room` says whether there is room behind the frame. -/
def write (w : Writable) (room : Bool) : Bool × Writable :=
  if w.destroyed then (false, w) else (room, { w with needDrain := w.needDrain || !room })

@[simp] theorem write_listeners (w : Writable) (room : Bool) :
    (w.write room).2.listeners = w.listeners := by
  unfold write
  split <;> rfl

/-- A stream that answers `false` is not free. -/
theorem free_write {w : Writable} {room : Bool} (h : (w.write room).1 = false) :
    (w.write room).2.free = false := by
  unfold write at h ⊢
  split
  · next hd => simp [free, hd]
  · next hd =>
    rw [if_neg hd] at h
    obtain rfl : room = false := h
    simp [free]

end Writable

/-- What became of a frame. -/
inductive Fate
  | written
  | dropped
  /-- `clear` took it away. -/
  | cleared
  | refused
  deriving DecidableEq

/-- A `SendQueue`. -/
structure SendQueue (ι α : Type*) where
  queue : List α
  draining : Bool
  stream : Option ι

/-- A queue, the streams around it, and what was sent and what became of it. -/
structure Sending (ι α : Type*) extends SendQueue ι α where
  streams : ι → Writable
  sent : List α
  settled : List (α × Fate)

/-- What may happen to a queue. -/
inductive QueueEvent (ι α : Type*)
  | send (frame : α) (room : Bool)
  | attach (stream : ι)
  /-- A stream drains; `rooms` are its answers to the writes of each listener. -/
  | drain (stream : ι) (rooms : ℕ → ℕ → Bool)
  | error (stream : ι)
  | clear

variable {ι α : Type*} [DecidableEq ι]

namespace Sending

/-- A queue just made, among streams it has no listeners on. -/
def start (streams : ι → Writable) : Sending ι α where
  queue := []
  draining := false
  stream := none
  streams i := { streams i with listeners := 0 }
  sent := []
  settled := []

/-- The frames written, to whichever stream. -/
def written (s : Sending ι α) : List α :=
  (s.settled.filter fun x => x.2 = .written).map Prod.fst

/-- The stream `i`, changed. -/
def setStream (s : Sending ι α) (i : ι) (w : Writable) : Sending ι α :=
  { s with streams := update s.streams i w }

/-- `stream.write(frame)`. -/
def write (s : Sending ι α) (i : ι) (frame : α) (room : Bool) : Sending ι α :=
  { s.setStream i ((s.streams i).write room).2 with settled := s.settled ++ [(frame, .written)] }

/-- `removeAllListeners("drain")` on the stream it has. -/
def removeAllListeners (s : Sending ι α) : Sending ι α :=
  match s.stream with
  | some old => s.setStream old { s.streams old with listeners := 0 }
  | none => s

/-- `attach`: frames go to this stream from now on. -/
def attach (s : Sending ι α) (i : ι) : Sending ι α :=
  let s' := s.removeAllListeners
  { s'.setStream i { s'.streams i with listeners := (s'.streams i).listeners + 1 } with
    stream := some i }

/-- `queue.shift()` of a queue that is full. -/
def dropOldest (s : Sending ι α) : Sending ι α :=
  match s.queue with
  | [] => s
  | oldest :: rest => { s with queue := rest, settled := s.settled ++ [(oldest, .dropped)] }

/-- A frame waits; of a full queue the oldest goes. -/
def enqueue (s : Sending ι α) (frame : α) : Sending ι α :=
  let s' := if maxQueueSize ≤ s.queue.length then s.dropOldest else s
  { s' with queue := s'.queue ++ [frame] }

/-- `send`: written at once, unless the stream is draining. -/
def send (s : Sending ι α) (frame : α) (room : Bool) : Sending ι α :=
  match s.stream with
  | none => { s with settled := s.settled ++ [(frame, .refused)] }
  | some i =>
    if s.draining then s.enqueue frame
    else if ((s.streams i).write room).1 then s.write i frame room
    else { s.write i frame room with draining := true }

/-- `clear`: what waits goes, and the stream with it. -/
def clear (s : Sending ι α) : Sending ι α :=
  { s with
    queue := []
    draining := false
    stream := none
    settled := s.settled ++ s.queue.map (·, .cleared) }

/-- The loop of `flush` over the frames `frames`; `rooms n` is the answer to its `n`-th write. -/
def flushLoop (rooms : ℕ → Bool) : List α → ℕ → Sending ι α → Sending ι α
  | [], _, s => { s with queue := [] }
  | frame :: rest, n, s =>
    match s.stream with
    | none =>
      { s with queue := rest, draining := true, settled := s.settled ++ [(frame, .refused)] }
    | some i =>
      if ((s.streams i).write (rooms n)).1 then
        flushLoop rooms rest (n + 1) (s.write i frame (rooms n))
      else { s.write i frame (rooms n) with queue := rest, draining := true }

/-- `flush`: what waits is written, as long as the stream has room. -/
def flush (s : Sending ι α) (rooms : ℕ → Bool) : Sending ι α :=
  flushLoop rooms s.queue 0 { s with draining := false }

/-- One more frame is sent. -/
def note (s : Sending ι α) (frame : α) : Sending ι α := { s with sent := s.sent ++ [frame] }

/-- The listeners for `drain`, one after the other. -/
def flushes (rooms : ℕ → ℕ → Bool) : ℕ → Sending ι α → Sending ι α
  | 0, s => s
  | n + 1, s => flushes rooms n (s.flush (rooms n))

/-- What happens.  A stream drains if it owes it. -/
def next (s : Sending ι α) : QueueEvent ι α → Option (Sending ι α)
  | .send frame room => some ((s.note frame).send frame room)
  | .attach i => some (s.attach i)
  | .drain i rooms =>
    if (s.streams i).needDrain && !(s.streams i).destroyed then
      some (flushes rooms (s.streams i).listeners
        (s.setStream i { s.streams i with needDrain := false }))
    else none
  | .error i => some (s.setStream i { s.streams i with destroyed := true })
  | .clear => some s.clear

/-- No frame is sent where no stream is attached, and no stream that is free is attached to a queue
that waits for a `drain`. -/
def Careful (s : Sending ι α) : QueueEvent ι α → Prop
  | .send _ _ => s.stream.isSome
  | .attach i => s.draining = false ∨ (s.streams i).free = false
  | _ => True

/-- What a queue promises of a state. -/
structure Kept (s : Sending ι α) : Prop where
  /-- What was sent is what is decided and what waits, in this order. -/
  fifo : s.sent = s.settled.map Prod.fst ++ s.queue
  /-- The frames written were sent in this order. -/
  written : s.written.Sublist s.sent
  /-- A frame was written, or it is one that `Lawful` speaks of. -/
  known : ∀ x ∈ s.settled, x.2 ≠ .refused
  bounded : s.queue.length ≤ maxQueueSize
  /-- Frames wait only for a stream that is not free, and that the queue hears drain. -/
  waits : s.queue ≠ [] →
    ∃ i, s.stream = some i ∧ (s.streams i).free = false ∧ 0 < (s.streams i).listeners

/-- What a queue promises of a step: what it drops is the oldest frame of a full queue, for a
newer one, and what it clears away it does when told. -/
structure Lawful (s : Sending ι α) (e : QueueEvent ι α) (s' : Sending ι α) : Prop where
  dropped : ∀ new, s'.settled = s.settled ++ new → ∀ frame, (frame, Fate.dropped) ∈ new →
    new = [(frame, .dropped)] ∧ s.queue.head? = some frame ∧ s.queue.length = maxQueueSize ∧
      ∃ newer room, e = .send newer room ∧ s'.queue = s.queue.tail ++ [newer]
  cleared : ∀ new, s'.settled = s.settled ++ new → ∀ frame, (frame, Fate.cleared) ∈ new → e = .clear
  settled : s.settled <+: s'.settled

/-! ### What holds of every state -/

/-- A queue that is not draining is empty, and so is one without a stream; it has room for its
frames, and it hears its stream drain. -/
structure Tidy (s : Sending ι α) : Prop where
  fifo : s.sent = s.settled.map Prod.fst ++ s.queue
  calm : s.draining = false → s.queue = []
  detached : s.stream = none → s.draining = false
  bounded : s.queue.length ≤ maxQueueSize
  heard : ∀ i, s.stream = some i → 0 < (s.streams i).listeners

/-- A queue drains only a stream that is not free. -/
def Owes (s : Sending ι α) : Prop :=
  s.draining = true → ∃ i, s.stream = some i ∧ (s.streams i).free = false

/-- No frame was refused. -/
def Unrefused (s : Sending ι α) : Prop := ∀ x ∈ s.settled, x.2 ≠ Fate.refused

variable {s : Sending ι α}

omit [DecidableEq ι] in
theorem Tidy.queue_eq_nil (h : s.Tidy) (hs : s.stream = none) : s.queue = [] :=
  h.calm (h.detached hs)

/-! ### The loop of `flush` -/

/-- What a flush of the frames `frames` to the stream `i` makes of `s`. -/
structure Flushed (i : ι) (frames : List α) (s r : Sending ι α) : Prop where
  stream : r.stream = s.stream
  sent : r.sent = s.sent
  listeners : ∀ j, (r.streams j).listeners = (s.streams j).listeners
  /-- The first frames are written, the others wait. -/
  settled : ∃ frames', frames = frames' ++ r.queue ∧
    r.settled = s.settled ++ frames'.map (·, .written)
  /-- It stops where there is no frame left, or where the stream asks to wait. -/
  stopped : r.draining = false ∧ r.queue = [] ∨ r.draining = true ∧ (r.streams i).free = false

@[simp] theorem listeners_write (s : Sending ι α) (i : ι) (frame : α) (room : Bool) (j : ι) :
    ((s.write i frame room).streams j).listeners = (s.streams j).listeners := by
  by_cases hj : j = i
  · subst hj
    simp [write, setStream]
  · simp [write, setStream, hj]

variable {i : ι}

theorem flushLoop_flushed (rooms : ℕ → Bool) (frames : List α) (n : ℕ)
    (hi : s.stream = some i) (hd : s.draining = false) :
    Flushed i frames s (flushLoop rooms frames n s) := by
  induction frames generalizing n s with
  | nil => exact ⟨rfl, rfl, fun _ => rfl, ⟨[], rfl, (append_nil _).symm⟩, .inl ⟨hd, rfl⟩⟩
  | cons frame rest ih =>
    simp only [flushLoop, hi]
    cases hw : ((s.streams i).write (rooms n)).1 with
    | true =>
      have h := ih (n + 1) (s := s.write i frame (rooms n)) hi hd
      obtain ⟨frames', hframes, hsettled⟩ := h.settled
      refine ⟨h.stream.trans rfl, h.sent.trans rfl,
        fun j => (h.listeners j).trans (listeners_write ..),
        ⟨frame :: frames', congrArg (frame :: ·) hframes, ?_⟩, h.stopped⟩
      rw [if_pos rfl, hsettled]
      simp [write]
    | false =>
      rw [if_neg Bool.false_ne_true]
      refine ⟨rfl, rfl, fun j => listeners_write s i frame _ j, ⟨[frame], rfl, rfl⟩, .inr ⟨rfl, ?_⟩⟩
      simpa [write, setStream] using Writable.free_write hw

theorem flush_flushed (s : Sending ι α) (rooms : ℕ → Bool) (hi : s.stream = some i) :
    Flushed i s.queue s (s.flush rooms) := by
  have h := flushLoop_flushed rooms s.queue 0 (s := { s with draining := false }) hi rfl
  exact ⟨h.stream, h.sent, h.listeners, h.settled, h.stopped⟩

theorem flush_of_none (rooms : ℕ → Bool) (hq : s.queue = []) :
    s.flush rooms = { s with draining := false } := by
  obtain ⟨⟨queue, draining, stream⟩, streams, sent, settled⟩ := s
  obtain rfl : queue = [] := hq
  rfl

/-! ### A stream drains -/

theorem Tidy.flush (h : s.Tidy) (rooms : ℕ → Bool) : (s.flush rooms).Tidy ∧ (s.flush rooms).Owes ∧
      ∃ frames : List α, (s.flush rooms).settled = s.settled ++ frames.map (·, .written) := by
  cases hs : s.stream with
  | none =>
    have hq := h.queue_eq_nil hs
    rw [flush_of_none rooms hq]
    refine ⟨⟨h.fifo, fun _ => hq, fun _ => rfl, h.bounded, h.heard⟩, nofun, [], ?_⟩
    exact (append_nil _).symm
  | some i =>
    have hf := s.flush_flushed rooms hs
    obtain ⟨frames, hframes, hsettled⟩ := hf.settled
    refine ⟨⟨?_, ?_, ?_, ?_, ?_⟩, ?_, frames, hsettled⟩
    · rw [hf.sent, h.fifo, hsettled, hframes]
      simp [comp_def]
    · intro hd
      rcases hf.stopped with ⟨-, hq⟩ | ⟨hd', -⟩
      · exact hq
      · exact absurd (hd.symm.trans hd') Bool.false_ne_true
    · intro hnone
      exact absurd (hnone.symm.trans (hf.stream.trans hs)) nofun
    · refine Nat.le_trans ?_ h.bounded
      rw [hframes, length_append]
      exact Nat.le_add_left _ _
    · intro j hj
      rw [hf.listeners]
      exact h.heard j (hf.stream.symm.trans hj)
    · intro hd
      rcases hf.stopped with ⟨hd', -⟩ | ⟨-, hfree⟩
      · exact absurd (hd'.symm.trans hd) Bool.false_ne_true
      · exact ⟨i, hf.stream.trans hs, hfree⟩

theorem Tidy.flushes (h : s.Tidy) (rooms : ℕ → ℕ → Bool) (n : ℕ) :
    (flushes rooms n s).Tidy ∧ ((n = 0 → s.Owes) → (flushes rooms n s).Owes) ∧
      ∃ frames : List α, (flushes rooms n s).settled = s.settled ++ frames.map (·, .written) := by
  induction n generalizing s with
  | zero => exact ⟨h, fun ho => ho rfl, [], (append_nil _).symm⟩
  | succ n ih =>
    obtain ⟨htidy, howes, frames, hframes⟩ := h.flush (rooms n)
    obtain ⟨htidy', howes', frames', hframes'⟩ := ih htidy
    refine ⟨htidy', fun _ => howes' fun _ => howes, frames ++ frames', ?_⟩
    rw [Sending.flushes, hframes', hframes, map_append, append_assoc]

/-! ### The other events -/

theorem Tidy.setStream (h : s.Tidy) (i : ι) (w : Writable)
    (hw : w.listeners = (s.streams i).listeners) : (s.setStream i w).Tidy := by
  refine ⟨h.fifo, h.calm, h.detached, h.bounded, fun j hj => ?_⟩
  have hheard := h.heard j hj
  by_cases hji : j = i
  · subst hji
    simpa [Sending.setStream, hw] using hheard
  · simpa [Sending.setStream, hji] using hheard

theorem Owes.setStream (h : s.Owes) (i : ι) (w : Writable)
    (hw : s.stream = some i → (s.streams i).free = false → w.free = false) :
    (s.setStream i w).Owes := by
  intro hd
  obtain ⟨j, hj, hfree⟩ := h hd
  refine ⟨j, hj, ?_⟩
  by_cases hji : j = i
  · subst hji
    simpa [Sending.setStream] using hw hj hfree
  · simpa [Sending.setStream, hji] using hfree

/-- The fates a send decides. -/
inductive Decided (s : Sending ι α) (frame : α) (s' : Sending ι α) : List (α × Fate) → Prop
  | refused : s.stream = none → Decided s frame s' [(frame, .refused)]
  | written : Decided s frame s' [(frame, .written)]
  | waiting : Decided s frame s' []
  | dropped (oldest : α) : s.queue.head? = some oldest → s.queue.length = maxQueueSize →
    s'.queue = s.queue.tail ++ [frame] → Decided s frame s' [(oldest, .dropped)]

omit [DecidableEq ι] in
theorem enqueue_of_full {oldest : α} {rest : List α} (frame : α)
    (hq : s.queue = oldest :: rest) (hfull : maxQueueSize ≤ s.queue.length) :
    s.enqueue frame =
      { s with queue := rest ++ [frame], settled := s.settled ++ [(oldest, .dropped)] } := by
  have hdrop : s.dropOldest =
      { s with queue := rest, settled := s.settled ++ [(oldest, .dropped)] } := by
    rw [dropOldest, hq]
  rw [enqueue, if_pos hfull, hdrop]

omit [DecidableEq ι] in
theorem enqueue_of_room (frame : α) (hroom : ¬maxQueueSize ≤ s.queue.length) :
    s.enqueue frame = { s with queue := s.queue ++ [frame] } := by
  rw [enqueue, if_neg hroom]

omit [DecidableEq ι] in
theorem Tidy.enqueue (h : s.Tidy) (hd : s.draining = true) (frame : α) :
    ((s.note frame).enqueue frame).Tidy ∧
      (s.Owes → ((s.note frame).enqueue frame).Owes) ∧
      ∃ new, ((s.note frame).enqueue frame).settled = s.settled ++ new ∧
        Decided s frame ((s.note frame).enqueue frame) new := by
  have hcalm : ∀ l : List α, s.draining = false → l = [] := by simp [hd]
  by_cases hfull : maxQueueSize ≤ s.queue.length
  · have hlen : s.queue.length = maxQueueSize := Nat.le_antisymm h.bounded hfull
    cases hq : s.queue with
    | nil => simp [hq, maxQueueSize] at hfull
    | cons oldest rest =>
      rw [enqueue_of_full (s := s.note frame) frame hq hfull]
      refine ⟨⟨?_, hcalm _, h.detached, ?_, h.heard⟩, fun ho => ho, _, rfl,
        .dropped oldest (by rw [hq]; rfl) hlen (by rw [hq]; rfl)⟩
      · simp [note, h.fifo, hq]
      · rw [hq] at hlen
        simpa using Nat.le_of_eq hlen
  · rw [enqueue_of_room (s := s.note frame) frame hfull]
    refine ⟨⟨?_, hcalm _, h.detached, ?_, h.heard⟩, fun ho => ho, [],
      (append_nil _).symm, .waiting⟩
    · simp [note, h.fifo]
    · rw [length_append]
      exact Nat.lt_of_not_le hfull

theorem Tidy.writeFrame (h : s.Tidy) (hd : s.draining = false) (i : ι) (frame : α)
    (room : Bool) : ((s.note frame).write i frame room).Tidy := by
  have hq := h.calm hd
  refine ⟨?_, fun _ => hq, fun _ => hd, h.bounded, fun j hj => ?_⟩
  · simp [note, Sending.write, Sending.setStream, h.fifo, hq]
  · rw [listeners_write]
    exact h.heard j hj

theorem Tidy.send (h : s.Tidy) (frame : α) (room : Bool) : ((s.note frame).send frame room).Tidy ∧
      (s.Owes → ((s.note frame).send frame room).Owes) ∧
      ∃ new, ((s.note frame).send frame room).settled = s.settled ++ new ∧
        Decided s frame ((s.note frame).send frame room) new := by
  cases hs : s.stream with
  | none =>
    have hsend : (s.note frame).send frame room =
        { s.note frame with settled := s.settled ++ [(frame, .refused)] } := by
      simp only [Sending.send, note, hs]
    rw [hsend]
    refine ⟨⟨?_, h.calm, h.detached, h.bounded, h.heard⟩, fun ho => ho, _, rfl, .refused hs⟩
    simp [note, h.fifo, h.queue_eq_nil hs]
  | some i =>
    cases hd : s.draining with
    | true =>
      have hsend : (s.note frame).send frame room = (s.note frame).enqueue frame := by
        simp only [Sending.send, note, hs, hd, if_true]
      rw [hsend]
      exact h.enqueue hd frame
    | false =>
      have htidy := h.writeFrame hd i frame room
      cases hw : ((s.streams i).write room).1 with
      | true =>
        have hsend : (s.note frame).send frame room = (s.note frame).write i frame room := by
          simp [Sending.send, note, hs, hd, hw]
        rw [hsend]
        exact ⟨htidy, fun _ hd' => absurd (hd.symm.trans hd') Bool.false_ne_true, _, rfl, .written⟩
      | false =>
        have hsend : (s.note frame).send frame room =
            { (s.note frame).write i frame room with draining := true } := by
          simp [Sending.send, note, hs, hd, hw]
        rw [hsend]
        refine ⟨⟨htidy.fifo, nofun, ?_, htidy.bounded, htidy.heard⟩, fun _ _ => ⟨i, hs, ?_⟩, _, rfl,
          .written⟩
        · exact fun hnone => absurd (hnone.symm.trans hs) nofun
        · simpa [note, Sending.write, Sending.setStream] using Writable.free_write hw

/-- `attach` changes who listens, and no stream. -/
theorem attach_eq (s : Sending ι α) (i : ι) :
    ∃ streams, s.attach i = { s with stream := some i, streams := streams } ∧
      0 < (streams i).listeners ∧ ∀ j, (streams j).free = (s.streams j).free := by
  have hset : ∀ (u : Sending ι α) (k : ι) (n : ℕ) (j : ι),
      ((u.setStream k { u.streams k with listeners := n }).streams j).free =
        (u.streams j).free := by
    intro u k n j
    by_cases hj : j = k
    · subst hj
      simp [Sending.setStream, Writable.free]
    · simp [Sending.setStream, hj]
  have hremove : ∃ streams, s.removeAllListeners = { s with streams := streams } ∧
      ∀ j, (streams j).free = (s.streams j).free := by
    cases hs : s.stream with
    | none => exact ⟨s.streams, by rw [removeAllListeners, hs], fun _ => rfl⟩
    | some old => exact ⟨_, by rw [removeAllListeners, hs]; rfl, hset s old 0⟩
  obtain ⟨streams, heq, hfree⟩ := hremove
  rw [Sending.attach, heq]
  refine ⟨_, rfl, ?_, fun j => (hset { s with streams := streams } i _ j).trans (hfree j)⟩
  simp [Sending.setStream]

theorem Tidy.attach (h : s.Tidy) (i : ι) : (s.attach i).Tidy := by
  obtain ⟨streams, heq, hheard, -⟩ := s.attach_eq i
  rw [heq]
  refine ⟨h.fifo, h.calm, nofun, h.bounded, fun j hj => ?_⟩
  cases hj
  exact hheard

theorem Owes.attach (h : s.draining = false ∨ (s.streams i).free = false) : (s.attach i).Owes := by
  obtain ⟨streams, heq, -, hfree⟩ := s.attach_eq i
  rw [heq]
  intro hd
  rcases h with hno | hfull
  · exact absurd (hno.symm.trans hd) Bool.false_ne_true
  · exact ⟨i, rfl, (hfree i).trans hfull⟩

omit [DecidableEq ι] in
theorem Tidy.clear (h : s.Tidy) : s.clear.Tidy := by
  refine ⟨?_, fun _ => rfl, fun _ => rfl, Nat.zero_le _, nofun⟩
  simp [Sending.clear, h.fifo, comp_def]

omit [DecidableEq ι] in
theorem start_tidy (streams : ι → Writable) : (start streams : Sending ι α).Tidy :=
  ⟨rfl, fun _ => rfl, fun _ => rfl, Nat.zero_le _, nofun⟩

/-! ### One step, and a run -/

/-- What a step does, by what happens. -/
inductive Settles (s : Sending ι α) (s' : Sending ι α) : QueueEvent ι α → Prop
  | send (frame : α) (room : Bool) (new : List (α × Fate)) : s'.settled = s.settled ++ new →
    Decided s frame s' new → Settles s s' (.send frame room)
  | clear : s'.settled = s.settled ++ s.queue.map (·, .cleared) → Settles s s' .clear
  | other (e : QueueEvent ι α) (frames : List α) :
    s'.settled = s.settled ++ frames.map (·, .written) → Settles s s' e

variable {s' : Sending ι α} {e : QueueEvent ι α}

theorem Tidy.next (h : s.Tidy) (hn : s.next e = some s') :
    s'.Tidy ∧ (s.Owes → Careful s e → s'.Owes) ∧ Settles s s' e := by
  have hsame : ∀ u : Sending ι α, u.settled = s.settled → ∀ e, Settles s u e := fun u hu e =>
    .other e [] (hu.trans (append_nil _).symm)
  cases e with
  | send frame room =>
    cases hn
    obtain ⟨htidy, howes, new, hnew, hdecided⟩ := h.send frame room
    exact ⟨htidy, fun ho _ => howes ho, .send frame room new hnew hdecided⟩
  | attach i =>
    cases hn
    refine ⟨h.attach i, fun _ hcareful => .attach hcareful, hsame _ ?_ _⟩
    obtain ⟨streams, heq, -, -⟩ := s.attach_eq i
    rw [heq]
  | drain i rooms =>
    obtain ⟨hdrain, ⟨⟩⟩ := Option.ite_none_right_eq_some.mp hn
    have htidy := h.setStream i { s.streams i with needDrain := false } rfl
    -- A stream the queue has is heard, and one without listeners is not the queue's.
    have howes : s.Owes → (s.streams i).listeners = 0 →
        (s.setStream i { s.streams i with needDrain := false }).Owes := by
      intro ho hzero
      refine ho.setStream i _ fun hi _ => ?_
      exact absurd hzero (Nat.ne_of_gt (h.heard i hi))
    obtain ⟨htidy', howes', frames, hframes⟩ := htidy.flushes rooms (s.streams i).listeners
    exact ⟨htidy', fun ho _ => howes' (howes ho), .other _ frames hframes⟩
  | error i =>
    cases hn
    refine ⟨h.setStream i _ rfl, fun ho _ => ho.setStream i _ fun _ _ => ?_, ?_⟩
    · simp [Writable.free]
    · exact hsame (s.setStream i { s.streams i with destroyed := true }) rfl _
  | clear =>
    cases hn
    exact ⟨h.clear, fun _ _ => nofun, .clear rfl⟩

omit [DecidableEq ι] in
theorem Settles.unrefused (h : Settles s s' e)
    (hs : s.Unrefused) (hc : Careful s e) : s'.Unrefused := by
  have happ : ∀ new : List (α × Fate), s'.settled = s.settled ++ new →
      (∀ x ∈ new, x.2 ≠ .refused) → s'.Unrefused := by
    intro new hnew hno x hx
    rw [hnew, mem_append] at hx
    exact hx.elim (hs x) (hno x)
  cases h with
  | send frame room new hnew hd =>
    refine happ new hnew ?_
    cases hd with
    | refused hnone => exact absurd (hnone ▸ hc : (none : Option ι).isSome) nofun
    | written | waiting | dropped => simp
  | clear hnew | other _ _ hnew => exact happ _ hnew (by simp)

omit [DecidableEq ι] in
theorem Settles.lawful (h : Settles s s' e) : Lawful s e s' := by
  cases h with
  | send frame room new hnew hd =>
    have hsame : ∀ new', s'.settled = s.settled ++ new' → new' = new := fun new' h' =>
      append_cancel_left (h'.symm.trans hnew)
    refine ⟨fun new' h' frame' hmem => ?_, fun new' h' frame' hmem => ?_, ⟨new, hnew.symm⟩⟩
    · rw [hsame new' h'] at hmem ⊢
      cases hd with
      | refused | written | waiting => simp at hmem
      | dropped oldest hhead hlen hqueue =>
        obtain rfl : frame' = oldest := by simpa using hmem
        exact ⟨rfl, hhead, hlen, frame, room, rfl, hqueue⟩
    · rw [hsame new' h'] at hmem
      cases hd <;> simp at hmem
  | clear hnew =>
    refine ⟨fun new' h' frame' hmem => ?_, fun _ _ _ _ => rfl, ⟨_, hnew.symm⟩⟩
    rw [append_cancel_left (h'.symm.trans hnew)] at hmem
    simp at hmem
  | other _ frames hnew =>
    refine ⟨fun new' h' frame' hmem => ?_, fun new' h' frame' hmem => ?_, ⟨_, hnew.symm⟩⟩ <;>
    · rw [append_cancel_left (h'.symm.trans hnew)] at hmem
      simp at hmem

omit [DecidableEq ι] in
theorem Tidy.kept (h : s.Tidy) (ho : s.Owes) (hu : s.Unrefused) : s.Kept := by
  refine ⟨h.fifo, ?_, hu, h.bounded, fun hq => ?_⟩
  · rw [h.fifo]
    exact (filter_sublist.map Prod.fst).trans (sublist_append_left _ _)
  · cases hd : s.draining with
    | false => exact absurd (h.calm hd) hq
    | true =>
      obtain ⟨i, hi, hfree⟩ := ho hd
      exact ⟨i, hi, hfree, h.heard i hi⟩

variable (streams : ι → Writable) {s : Sending ι α}

theorem tidy_of_run (h : Run next free (start streams) s) : s.Tidy :=
  h.invariant (start_tidy streams) fun _ _ _ hs _ hn => (hs.next hn).1

/-- **In a run in which no frame is sent where no stream is attached, and no free stream is attached
to a queue that drains another, the frames are written in the order they were sent, one is let go
only as the oldest of a full queue or by `clear`, and none waits for a stream that is free.** -/
theorem send_queue (h : Run next Careful (start streams) s) :
    s.Kept ∧ ∀ e s', s.next e = some s' → Lawful s e s' := by
  have htidy := tidy_of_run streams h.toFree
  have hkept : s.Tidy ∧ s.Owes ∧ s.Unrefused := by
    refine h.invariant (I := fun s => s.Tidy ∧ s.Owes ∧ s.Unrefused)
      ⟨start_tidy streams, nofun, nofun⟩ ?_
    rintro s e s' ⟨hs, ho, hu⟩ hc hn
    obtain ⟨htidy', howes', hsettles⟩ := hs.next hn
    exact ⟨htidy', howes' ho hc, hsettles.unrefused hu hc⟩
  exact ⟨htidy.kept hkept.2.1 hkept.2.2, fun e s' hn => (htidy.next hn).2.2.lawful⟩

/-- A frame is written to a stream that is then full, the next one waits, and is written when the
stream drains. -/
theorem send_queue_drained : ∃ s : Sending Bool ℕ,
    s.written = [1, 2] ∧ s.queue = [] ∧ s.Kept ∧ ∀ e s', s.next e = some s' → Lawful s e s' := by
  have hrun : Run next Careful (start fun _ => ⟨false, false, 0⟩)
      (((((start fun _ => ⟨false, false, 0⟩ : Sending Bool ℕ).attach true).note 1).send 1 false
        |>.note 2).send 2 true |>.setStream true ⟨false, false, 1⟩
        |> flushes (fun _ _ => true) 1) :=
    .of_exec [.attach true, .send 1 false, .send 2 true, .drain true fun _ _ => true]
      ⟨.inl rfl, rfl, rfl, trivial, trivial⟩ rfl
  exact ⟨_, rfl, rfl, send_queue _ hrun⟩

/-! ### A stream attached in the middle of a drain -/

/-- A queue with frames that wait for nothing: its stream is free, and no other stream it hears. -/
structure Stranded (i : ι) (s : Sending ι α) : Prop where
  stream : s.stream = some i
  draining : s.draining = true
  waits : s.queue ≠ []
  calm : (s.streams i).needDrain = false
  alone : ∀ j, j ≠ i → (s.streams j).listeners = 0

theorem Stranded.next (h : Stranded i s)
    (hn : s.next e = some s') (he : (∀ j, e ≠ .attach j) ∧ e ≠ .clear) :
    Stranded i s' ∧ s'.written = s.written := by
  have hset : ∀ (j : ι) (w : Writable), w.listeners = (s.streams j).listeners →
      (j = i → w.needDrain = false) → Stranded i (s.setStream j w) := by
    intro j w hw hcalm
    refine ⟨h.stream, h.draining, h.waits, ?_, fun k hk => ?_⟩
    · by_cases hj : i = j
      · subst hj
        simpa [setStream] using hcalm rfl
      · simpa [setStream, hj] using h.calm
    · by_cases hj : k = j
      · subst hj
        simpa [setStream, hw] using h.alone k hk
      · simpa [setStream, hj] using h.alone k hk
  cases e with
  | send frame room =>
    cases hn
    have hsend : (s.note frame).send frame room = (s.note frame).enqueue frame := by
      simp only [Sending.send, note, h.stream, h.draining, if_true]
    rw [hsend]
    by_cases hfull : maxQueueSize ≤ s.queue.length
    · cases hq : s.queue with
      | nil => exact absurd hq h.waits
      | cons oldest rest =>
        rw [enqueue_of_full (s := s.note frame) frame hq hfull]
        exact ⟨⟨h.stream, h.draining, by simp, h.calm, h.alone⟩, by simp [Sending.written, note]⟩
    · rw [enqueue_of_room (s := s.note frame) frame hfull]
      exact ⟨⟨h.stream, h.draining, by simp, h.calm, h.alone⟩, rfl⟩
  | attach j => exact absurd rfl (he.1 j)
  | drain j rooms =>
    obtain ⟨hdrain, ⟨⟩⟩ := Option.ite_none_right_eq_some.mp hn
    by_cases hj : j = i
    · subst hj
      simp [h.calm] at hdrain
    · rw [h.alone j hj]
      exact ⟨hset j _ rfl fun _ => rfl, rfl⟩
  | error j =>
    cases hn
    exact ⟨hset j _ rfl fun hj => hj ▸ h.calm, rfl⟩
  | clear => exact absurd rfl he.2

/-- A frame waits for one stream when another is attached, which is free and stays so; until
another stream is attached or the queue cleared, it is not written. -/
theorem queue_stranded : ∃ s : Sending Bool ℕ,
    Run next free (start fun _ => ⟨false, false, 0⟩) s ∧ s.queue = [2] ∧
      s.stream = some true ∧ (s.streams true).free = true ∧
      ∀ s', Run next (fun _ e => (∀ j, e ≠ .attach j) ∧ e ≠ .clear) s s' →
        s'.queue ≠ [] ∧ s'.written = [1] ∧ (s'.streams true).needDrain = false := by
  refine ⟨((((start fun _ => ⟨false, false, 0⟩ : Sending Bool ℕ).attach false).note 1).send 1 false
        |>.note 2).send 2 true |>.attach true,
    .of_exec_free [.attach false, .send 1 false, .send 2 true, .attach true] rfl,
    rfl, rfl, rfl, fun s' hrun => ?_⟩
  have h := hrun.invariant (I := fun s => Stranded true s ∧ s.written = [1])
    ⟨⟨rfl, rfl, by decide, rfl, by decide⟩, rfl⟩ fun s e s' hs he hn => by
      obtain ⟨hstranded, hwritten⟩ := hs.1.next hn he
      exact ⟨hstranded, hwritten.trans hs.2⟩
  exact ⟨h.1.waits, h.2, h.1.calm⟩

end Sending

end Lasterm.Hub
