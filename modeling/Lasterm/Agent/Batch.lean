import Lasterm.Lib.OrderedMap

/-!
# The output batches of the agent

`Batcher` of `crates/lasterm-agent/src/batch.rs`: what the readers of the terminals send
towards the hubs is gathered into one batch per channel, let go of when the batch is
large, when the timer ticks, or when another frame about the channel comes.  What a
batch counts against its hub's connection (`flow.rs`) is left out.

The bytes are of any type, so that a proof may follow a byte by more than its value.

## Main results

* `outputOf_accept`, `outputOf_flushAll` — for every owner and channel, what is let go
  followed by what is still held is what was held followed by what came.
* `framesOf_accept`, `framesOf_flushAll` — the other frames go through as they come.
-/

namespace Lasterm.Agent

open List OrderedMap

/-- The hub a terminal belongs to: the hash of its key, or `stdio`. -/
structure OwnerId where
  hash : String
  deriving DecidableEq

variable {β φ : Type}

/-- Output a reader read. -/
structure OutputEvent (β : Type) where
  owner : OwnerId
  channelId : String
  seq : ℕ
  data : List β

/-- A frame about a channel other than its output, encoded by the reader that saw it. -/
structure EventFrame (φ : Type) where
  owner : OwnerId
  channelId : String
  frame : φ
  /-- The channel's last frame: its CHANNEL_EXIT. -/
  endsChannel : Bool

/-- What a channel's reader sends towards the hub. -/
inductive ChannelEvent (β φ : Type)
  | output (e : OutputEvent β)
  | frame (e : EventFrame φ)

/-- A batch of output. -/
structure BatchedOutput (β : Type) where
  owner : OwnerId
  channelId : String
  seq : ℕ
  data : List β

/-- What leaves the batch loop, in the order the hub must receive it. -/
inductive BatchedEvent (β φ : Type)
  | output (b : BatchedOutput β)
  | frame (e : EventFrame φ)

/-- `BATCH_MAX_BYTES`. -/
def batchMaxBytes : ℕ := 4096

/-- What a channel has buffered. -/
structure ChannelBuffer (β : Type) where
  owner : OwnerId
  data : List β
  lastSeq : ℕ

/-- What the channel has buffered as one batch, if anything, and the buffer after. -/
def ChannelBuffer.take (buf : ChannelBuffer β) (channelId : String) :
    Option (BatchedOutput β) × ChannelBuffer β :=
  if buf.data.isEmpty then (none, buf)
  else (some ⟨buf.owner, channelId, buf.lastSeq, buf.data⟩, { buf with data := [] })

/-- The output each channel has buffered. -/
structure Batcher (β : Type) where
  buffers : OrderedMap String (ChannelBuffer β)

namespace Batcher

/-- `Batcher::default()`. -/
def empty : Batcher β := ⟨.empty⟩

/-- The buffer handed over to another owner, and what its previous owner left in it. -/
def switchOwner (buf : ChannelBuffer β) (owner : OwnerId) (channelId : String) :
    Option (BatchedOutput β) × ChannelBuffer β :=
  if buf.owner = owner then (none, buf)
  else
    let taken := buf.take channelId
    (taken.1, { taken.2 with owner })

/-- The buffer let go of once it is large enough. -/
def flushIfFull (buf : ChannelBuffer β) (channelId : String) :
    Option (BatchedOutput β) × ChannelBuffer β :=
  if batchMaxBytes ≤ buf.data.length then buf.take channelId else (none, buf)

/-- `accept`, on an output. -/
def acceptOutput (b : Batcher β) (e : OutputEvent β) :
    Batcher β × List (BatchedEvent β φ) :=
  let buf := (b.buffers.get e.channelId).getD ⟨e.owner, [], 0⟩
  -- a restart reuses its channel's id: what the previous workload left goes out first,
  -- under its own owner
  let left := switchOwner buf e.owner e.channelId
  let buf := { left.2 with data := left.2.data ++ e.data, lastSeq := e.seq }
  let full := flushIfFull buf e.channelId
  (⟨b.buffers.set e.channelId full.2⟩, (left.1.toList ++ full.1.toList).map .output)

/-- `accept`, on any other frame. -/
def acceptFrame (b : Batcher β) (e : EventFrame φ) : Batcher β × List (BatchedEvent β φ) :=
  let held := (b.buffers.get e.channelId).map (·.take e.channelId)
  let buffers := held.elim b.buffers fun taken => b.buffers.set e.channelId taken.2
  (⟨if e.endsChannel then buffers.delete e.channelId else buffers⟩,
    (held.bind Prod.fst).toList.map .output ++ [.frame e])

/-- What the batcher does with an event. -/
def accept (b : Batcher β) : ChannelEvent β φ → Batcher β × List (BatchedEvent β φ)
  | .output e => b.acceptOutput e
  | .frame e => b.acceptFrame e

/-- `flush_all`: the timer's tick.  The channels are visited in the order they came, where the
source's map has an order of its own. -/
def flushAll (b : Batcher β) : Batcher β × List (BatchedEvent β φ) :=
  (⟨b.buffers.mapValues fun buf => { buf with data := [] }⟩,
    b.buffers.entries.flatMap fun e => (e.2.take e.1).1.toList.map .output)

end Batcher

/-! ### The bytes of one channel of one owner -/

/-- The bytes of an event that are output of a channel of an owner. -/
def ChannelEvent.bytesOf (o : OwnerId) (id : String) : ChannelEvent β φ → List β
  | .output e => if e.owner = o ∧ e.channelId = id then e.data else []
  | .frame _ => []

/-- The bytes of a batch, if it is one of a channel of an owner. -/
def BatchedOutput.bytesOf (o : OwnerId) (id : String) (b : BatchedOutput β) : List β :=
  if b.owner = o ∧ b.channelId = id then b.data else []

/-- The bytes let go that are output of a channel of an owner. -/
def BatchedEvent.bytesOf (o : OwnerId) (id : String) : BatchedEvent β φ → List β
  | .output b => b.bytesOf o id
  | .frame _ => []

/-- The output of a channel of an owner among what the batch loop let go. -/
def outputOf (o : OwnerId) (id : String) (l : List (BatchedEvent β φ)) : List β :=
  l.flatMap (·.bytesOf o id)

/-- What a buffer holds for an owner. -/
def ChannelBuffer.bytesOf (o : OwnerId) (buf : ChannelBuffer β) : List β :=
  if buf.owner = o then buf.data else []

/-- What the batch loop holds for a channel of an owner. -/
def Batcher.pending (o : OwnerId) (id : String) (b : Batcher β) : List β :=
  (b.buffers.get id).elim [] (·.bytesOf o)

/-- The frames other than output among what the batch loop let go. -/
def framesOf (l : List (BatchedEvent β φ)) : List (EventFrame φ) :=
  l.filterMap fun
    | .output _ => none
    | .frame e => some e

/-- The frame of an event, if it is not output. -/
def ChannelEvent.frame? : ChannelEvent β φ → Option (EventFrame φ)
  | .output _ => none
  | .frame e => some e

@[simp] theorem outputOf_nil (o : OwnerId) (id : String) :
    outputOf o id ([] : List (BatchedEvent β φ)) = [] := rfl

@[simp] theorem outputOf_cons (o : OwnerId) (id : String) (e : BatchedEvent β φ)
    (l : List (BatchedEvent β φ)) : outputOf o id (e :: l) = e.bytesOf o id ++ outputOf o id l :=
  flatMap_cons

@[simp] theorem outputOf_append (o : OwnerId) (id : String) (l l' : List (BatchedEvent β φ)) :
    outputOf o id (l ++ l') = outputOf o id l ++ outputOf o id l' := flatMap_append

/-- The bytes of a channel among batches. -/
def batchesOf (o : OwnerId) (id : String) (l : List (BatchedOutput β)) : List β :=
  l.flatMap (·.bytesOf o id)

theorem outputOf_map_output (o : OwnerId) (id : String) (l : List (BatchedOutput β)) :
    outputOf o id (l.map (BatchedEvent.output (φ := φ))) = batchesOf o id l := by
  rw [outputOf, flatMap_map]
  rfl

theorem ChannelBuffer.bytesOf_take (o : OwnerId) (id : String) (buf : ChannelBuffer β) :
    batchesOf o id (buf.take id).1.toList ++ (buf.take id).2.bytesOf o = buf.bytesOf o := by
  unfold take
  split
  · rfl
  · simp [batchesOf, BatchedOutput.bytesOf, ChannelBuffer.bytesOf]

theorem ChannelBuffer.batchesOf_take_of_ne (o : OwnerId) {id id' : String} (h : id' ≠ id)
    (buf : ChannelBuffer β) : batchesOf o id (buf.take id').1.toList = [] := by
  unfold take
  split
  · rfl
  · simp [batchesOf, BatchedOutput.bytesOf, h]

namespace Batcher

theorem bytesOf_switchOwner (o owner : OwnerId) (id : String) (buf : ChannelBuffer β) :
    batchesOf o id (switchOwner buf owner id).1.toList ++ (switchOwner buf owner id).2.bytesOf o =
      buf.bytesOf o := by
  unfold switchOwner
  split
  · rfl
  · next hne =>
    -- after the take the buffer is empty, so it holds nothing for the new owner either
    unfold ChannelBuffer.take
    split
    · next hempty =>
      simp [batchesOf, ChannelBuffer.bytesOf, isEmpty_iff.mp hempty]
    · simp [batchesOf, BatchedOutput.bytesOf, ChannelBuffer.bytesOf]

theorem switchOwner_owner (owner : OwnerId) (id : String) (buf : ChannelBuffer β) :
    (switchOwner buf owner id).2.owner = owner := by
  unfold switchOwner
  split
  · assumption
  · rfl

theorem batchesOf_switchOwner_of_ne (o owner : OwnerId) {id id' : String} (h : id' ≠ id)
    (buf : ChannelBuffer β) : batchesOf o id (switchOwner buf owner id').1.toList = [] := by
  unfold switchOwner
  split
  · rfl
  · exact buf.batchesOf_take_of_ne o h

theorem bytesOf_flushIfFull (o : OwnerId) (id : String) (buf : ChannelBuffer β) :
    batchesOf o id (flushIfFull buf id).1.toList ++ (flushIfFull buf id).2.bytesOf o =
      buf.bytesOf o := by
  unfold flushIfFull
  split
  · exact buf.bytesOf_take o id
  · rfl

theorem batchesOf_flushIfFull_of_ne (o : OwnerId) {id id' : String} (h : id' ≠ id)
    (buf : ChannelBuffer β) : batchesOf o id (flushIfFull buf id').1.toList = [] := by
  unfold flushIfFull
  split
  · exact buf.batchesOf_take_of_ne o h
  · rfl

theorem pending_set (o : OwnerId) (id id' : String) (buf : ChannelBuffer β)
    (m : OrderedMap String (ChannelBuffer β)) :
    pending o id ⟨m.set id' buf⟩ = if id = id' then buf.bytesOf o else pending o id ⟨m⟩ := by
  unfold pending
  rw [get_set]
  split <;> rfl

theorem pending_delete (o : OwnerId) (id id' : String) (m : OrderedMap String (ChannelBuffer β)) :
    pending o id ⟨m.delete id'⟩ = if id = id' then [] else pending o id ⟨m⟩ := by
  unfold pending
  rw [get_delete]
  split <;> rfl

/-- What a channel's buffer, or the one `or_insert_with` makes for it, holds. -/
theorem bytesOf_entry (o owner : OwnerId) (id : String) (b : Batcher β) :
    ((b.buffers.get id).getD ⟨owner, [], 0⟩).bytesOf o = b.pending o id := by
  unfold pending
  cases b.buffers.get id with
  | none => simp [ChannelBuffer.bytesOf]
  | some buf => rfl

section

variable (o : OwnerId)
include o

section

variable (id : String)
include id

theorem outputOf_acceptOutput (b : Batcher β) (e : OutputEvent β) :
    outputOf o id (b.acceptOutput (φ := φ) e).2 ++ (b.acceptOutput (φ := φ) e).1.pending o id =
      b.pending o id ++ (ChannelEvent.output (φ := φ) e).bytesOf o id := by
  unfold acceptOutput
  simp only [outputOf_map_output, pending_set]
  by_cases hid : e.channelId = id
  · subst hid
    rw [if_pos rfl, batchesOf, flatMap_append, append_assoc, ← batchesOf, ← batchesOf,
      bytesOf_flushIfFull]
    set buf := (b.buffers.get e.channelId).getD ⟨e.owner, [], 0⟩ with hbuf
    have hleft := bytesOf_switchOwner o e.owner e.channelId buf
    have howner := switchOwner_owner e.owner e.channelId buf
    rw [hbuf, bytesOf_entry, ← hbuf] at hleft
    rw [← hleft]
    unfold ChannelBuffer.bytesOf ChannelEvent.bytesOf
    rw [howner]
    by_cases ho : e.owner = o <;> simp [ho]
  · rw [if_neg (Ne.symm hid), batchesOf, flatMap_append, ← batchesOf, ← batchesOf,
      batchesOf_switchOwner_of_ne o e.owner hid, batchesOf_flushIfFull_of_ne o hid]
    simp [ChannelEvent.bytesOf, hid]

theorem bytesOf_take_snd (buf : ChannelBuffer β) :
    (buf.take id).2.bytesOf o = [] := by
  unfold ChannelBuffer.take
  split
  · next h => simp [ChannelBuffer.bytesOf, isEmpty_iff.mp h]
  · simp [ChannelBuffer.bytesOf]

theorem batchesOf_take (buf : ChannelBuffer β) :
    batchesOf o id (buf.take id).1.toList = buf.bytesOf o := by
  have h := buf.bytesOf_take o id
  rwa [bytesOf_take_snd, append_nil] at h

theorem pending_acceptFrame (b : Batcher β) (e : EventFrame φ) :
    (b.acceptFrame e).1.pending o id = if id = e.channelId then [] else b.pending o id := by
  unfold acceptFrame
  cases hget : b.buffers.get e.channelId with
  | none =>
    have hnone : b.pending o e.channelId = [] := by
      rw [pending, hget]
      rfl
    by_cases hid : id = e.channelId
    · subst hid
      by_cases hend : e.endsChannel <;> simp [hend, pending_delete, hnone]
    · by_cases hend : e.endsChannel <;> simp [hend, pending_delete, hid]
  | some buf =>
    by_cases hid : id = e.channelId
    · subst hid
      by_cases hend : e.endsChannel <;> simp [hend, pending_delete, pending_set, bytesOf_take_snd]
    · by_cases hend : e.endsChannel <;> simp [hend, pending_delete, pending_set, hid]

theorem outputOf_acceptFrame (b : Batcher β) (e : EventFrame φ) :
    outputOf o id (b.acceptFrame e).2 ++ (b.acceptFrame e).1.pending o id = b.pending o id := by
  rw [pending_acceptFrame]
  unfold acceptFrame
  rw [outputOf_append, outputOf_map_output]
  cases hget : b.buffers.get e.channelId with
  | none =>
    by_cases hid : id = e.channelId
    · subst hid
      simp [pending, hget, BatchedEvent.bytesOf, batchesOf]
    · simp [hid, BatchedEvent.bytesOf, batchesOf]
  | some buf =>
    by_cases hid : id = e.channelId
    · subst hid
      simp [pending, hget, BatchedEvent.bytesOf, batchesOf_take]
    · simp [hid, BatchedEvent.bytesOf, buf.batchesOf_take_of_ne o (Ne.symm hid)]

/-- **Nothing is lost, repeated or reordered** by what the batch loop does with an event. -/
theorem outputOf_accept (b : Batcher β) (e : ChannelEvent β φ) :
    outputOf o id (b.accept e).2 ++ (b.accept e).1.pending o id =
      b.pending o id ++ e.bytesOf o id := by
  cases e with
  | output e => exact b.outputOf_acceptOutput o id e
  | frame e =>
    rw [ChannelEvent.bytesOf, append_nil]
    exact b.outputOf_acceptFrame o id e

theorem outputOf_flushAll (b : Batcher β) :
    outputOf o id (b.flushAll (φ := φ)).2 ++ (b.flushAll (φ := φ)).1.pending o id =
      b.pending o id := by
  have hafter : (b.flushAll (φ := φ)).1.pending o id = [] := by
    simp only [flushAll, pending, get_mapValues]
    cases b.buffers.get id <;> simp [ChannelBuffer.bytesOf]
  rw [hafter, append_nil]
  unfold flushAll outputOf
  rw [flatMap_assoc, pending, ← flatMap_entries_of_key]
  refine congrArg (b.buffers.entries.flatMap ·) (funext fun e => ?_)
  rw [← outputOf, outputOf_map_output]
  by_cases hid : e.1 = id
  · subst hid
    rw [if_pos rfl, batchesOf_take]
  · rw [if_neg hid, e.2.batchesOf_take_of_ne o hid]

end

end

theorem framesOf_map_output (l : List (BatchedOutput β)) :
    framesOf (l.map (BatchedEvent.output (φ := φ))) = [] := by
  simp [framesOf, filterMap_map]

theorem framesOf_accept (b : Batcher β) (e : ChannelEvent β φ) :
    framesOf (b.accept e).2 = e.frame?.toList := by
  cases e with
  | output e => exact framesOf_map_output _
  | frame e =>
    have hsplit : framesOf (b.acceptFrame e).2 = framesOf (((b.buffers.get e.channelId).map
        (·.take e.channelId)).bind Prod.fst |>.toList.map BatchedEvent.output) ++ [e] :=
      filterMap_append
    rw [accept, hsplit, framesOf_map_output]
    rfl

theorem framesOf_flushAll (b : Batcher β) : framesOf (b.flushAll (φ := φ)).2 = [] := by
  unfold flushAll framesOf
  rw [filterMap_flatMap]
  refine flatMap_eq_nil_iff.mpr ?_
  intro e _
  exact framesOf_map_output _

end Batcher

end Lasterm.Agent
