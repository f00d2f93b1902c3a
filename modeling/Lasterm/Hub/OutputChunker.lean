import Lasterm.Hub.Spool
import Mathlib.Logic.Relation
import Mathlib.Logic.Function.Basic

/-!
# The output chunker and the snapshots

`output-chunker.ts` gathers what a terminal writes into chunks of spool.db, and
`storeSnapshot` of `channel-lifecycle-manager.ts` puts the screens between them.  Both take
their sequence numbers from one row of numbers: the chunker from a counter it keeps for each
channel it tracks, a snapshot from the highest number stored.

What is written is also noted for each channel, in order, to say afterwards what was given,
received and recorded.  A write may fail for a reason of the disk, which says nothing about
its number; a number that is taken is noted as refused.

## Main results

* `flush_touches`, `onOutput_touches`, `untrackChannel_touches`, `storeSnapshot_touches` — what
  each operation does to its channel, and that it leaves the others alone.
-/

namespace Lasterm.Hub

/-- `CHUNK_MAX_BYTES`. -/
def chunkMaxBytes : ℕ := 256 * 1024

/-- A `ChannelBuffer`.  Its `totalBytes` is always the length of its chunks together. -/
structure ChannelBuffer where
  chunks : List (List UInt8)
  timer : Bool
  nextSeq : ℕ

/-- How much is buffered. -/
def ChannelBuffer.totalBytes (buf : ChannelBuffer) : ℕ := buf.chunks.flatten.length

/-- What happened to a channel's output. -/
inductive Entry
  | tracked
  | received (data : List UInt8)
  /-- A chunk of output was stored under a number. -/
  | output (seq : ℕ) (data : List UInt8)
  | snapshot (data : List UInt8)
  /-- A number was refused: the channel has a chunk of it. -/
  | refused

/-- spool.db, the chunker and what happened so far. -/
structure SpoolStore where
  spool : Spool
  /-- The chunker's `channels`. -/
  buffers : OrderedMap String ChannelBuffer
  log : String → List Entry

/-- The outside of one insert: the clock, and whether the disk takes it. -/
structure Write where
  now : ℤ
  /-- The write does not fail for the disk's sake. -/
  disk : Bool

namespace SpoolStore

/-- One more thing that happened to a channel. -/
def note (s : SpoolStore) (channelId : String) (e : Entry) : SpoolStore :=
  { s with log := Function.update s.log channelId (s.log channelId ++ [e]) }

/-- `trackChannel`; no caller gives it a number to start from. -/
def trackChannel (s : SpoolStore) (channelId : String) : SpoolStore :=
  if (s.buffers.get channelId).isSome then s
  else
    { s with buffers := s.buffers.set channelId ⟨[], false, s.spool.getMaxSeq channelId + 1⟩ }.note
      channelId .tracked

/-- `flush`, and whether it returned; if not, it threw before the buffer was reset. -/
def flush (s : SpoolStore) (channelId : String) (w : Write) : SpoolStore × Bool :=
  match s.buffers.get channelId with
  | none => (s, true)
  | some buf =>
    if buf.totalBytes = 0 then (s, true)
    else if !w.disk then (s, false)
    else
      match s.spool.insertChunk channelId buf.nextSeq w.now .output buf.chunks.flatten with
      | none => (s.note channelId .refused, false)
      | some spool =>
        ({ s with
            spool := spool
            buffers := s.buffers.set channelId ⟨[], false, buf.nextSeq + 1⟩ }.note channelId
          (.output buf.nextSeq buf.chunks.flatten), true)

/-- `onOutput`: output is buffered, and written once there is enough. -/
def onOutput (s : SpoolStore) (channelId : String) (data : List UInt8) (w : Write) : SpoolStore :=
  match s.buffers.get channelId with
  | none => s
  | some buf =>
    let pushed := { buf with chunks := buf.chunks ++ [data] }
    if chunkMaxBytes ≤ pushed.totalBytes then
      (({ s with buffers := s.buffers.set channelId pushed }.note channelId
        (.received data)).flush channelId w).1
    else
      { s with buffers := s.buffers.set channelId { pushed with timer := true } }.note channelId
        (.received data)

/-- The callback of a buffer's timer. -/
def onFlushTimer (s : SpoolStore) (channelId : String) (w : Write) : SpoolStore :=
  match s.buffers.get channelId with
  | none => s
  | some buf =>
    ({ s with buffers := s.buffers.set channelId { buf with timer := false } }.flush channelId w).1

/-- `untrackChannel`: a flush that throws leaves the channel tracked. -/
def untrackChannel (s : SpoolStore) (channelId : String) (w : Write) : SpoolStore :=
  let (flushed, returned) := s.flush channelId w
  if returned then { flushed with buffers := flushed.buffers.delete channelId } else flushed

/-- `bumpSeq`: the counter is at least this. -/
def bumpSeq (s : SpoolStore) (channelId : String) (minSeq : ℕ) : SpoolStore :=
  match s.buffers.get channelId with
  | none => s
  | some buf =>
    if buf.nextSeq < minSeq then
      { s with buffers := s.buffers.set channelId { buf with nextSeq := minSeq } }
    else s

/-- `storeSnapshot` with the serialized snapshot; its row in `cache_index` is read by
nothing. -/
def storeSnapshot (s : SpoolStore) (channelId : String) (dataBlob : List UInt8)
    (agentLastSeq : ℕ) (w w' : Write) : SpoolStore :=
  let (flushed, returned) := s.flush channelId w
  if returned && w'.disk then
    let snapshotSeq := max (flushed.spool.getMaxSeq channelId) agentLastSeq + 1
    match flushed.spool.insertSnapshot channelId snapshotSeq w'.now dataBlob with
    | none => flushed.note channelId .refused
    | some spool =>
      ({ flushed with spool := spool }.note channelId (.snapshot dataBlob)).bumpSeq channelId
        (snapshotSeq + 1)
  else flushed

/-! ### What can happen to a channel -/

/-- What there is of one channel. -/
structure View where
  chunks : ChannelChunks
  buffer : Option ChannelBuffer
  log : List Entry

/-- One channel of a store. -/
def view (s : SpoolStore) (channelId : String) : View :=
  ⟨s.spool.chunks channelId, s.buffers.get channelId, s.log channelId⟩

/-- The chunk of the newest snapshot. -/
def View.newest (v : View) : Option Chunk := v.chunks.latest (·.kind == .snapshot)

/-- One change of a channel by the chunker or a snapshot, where the chunks it stores get an
id from `n` on. -/
inductive Effect (n : ℕ) : View → View → Prop
  | timer {v : View} {buf : ChannelBuffer} (b : Bool) (hbuf : v.buffer = some buf) :
      Effect n v { v with buffer := some { buf with timer := b } }
  | received {v : View} {buf : ChannelBuffer} (data : List UInt8) (hbuf : v.buffer = some buf) :
      Effect n v
        { v with
          buffer := some { buf with chunks := buf.chunks ++ [data] }
          log := v.log ++ [.received data] }
  /-- The buffer becomes a chunk above the others. -/
  | output {v : View} {buf : ChannelBuffer} {c : Chunk} {t : ChannelChunks}
      (hbuf : v.buffer = some buf) (hbytes : buf.totalBytes ≠ 0) (hid : n ≤ c.id)
      (hkind : c.kind = .output) (hdata : c.dataBlob = buf.chunks.flatten)
      (hseq : c.seq = buf.nextSeq) (hpos : 0 < c.seq)
      (habove : ∀ r ∈ v.chunks.rows, r.seq < c.seq) (hrows : t.rows = v.chunks.rows ++ [c]) :
      Effect n v
        ⟨t, some ⟨[], false, buf.nextSeq + 1⟩, v.log ++ [.output c.seq c.dataBlob]⟩
  /-- A snapshot is stored above the others, nothing being buffered, and the counter goes
  above it. -/
  | snapshot {v : View} {c : Chunk} {t : ChannelChunks}
      (hbytes : ∀ buf ∈ v.buffer, buf.totalBytes = 0) (hid : n ≤ c.id) (hkind : c.kind = .snapshot)
      (hpos : 0 < c.seq) (habove : ∀ r ∈ v.chunks.rows, r.seq < c.seq)
      (hrows : t.rows =
        v.chunks.rows.filter (fun r => decide (v.newest ≠ some r)) ++ [c]) :
      Effect n v
        ⟨t, v.buffer.map fun buf => { buf with nextSeq := max buf.nextSeq (c.seq + 1) },
          v.log ++ [.snapshot c.dataBlob]⟩
  /-- The channel is not tracked any more, nothing being buffered. -/
  | untracked {v : View} {buf : ChannelBuffer} (hbuf : v.buffer = some buf)
      (hbytes : buf.totalBytes = 0) : Effect n v { v with buffer := none }

/-- A channel that is tracked now, from the highest number stored on. -/
def View.tracked (v : View) : View :=
  { v with buffer := some ⟨[], false, v.chunks.maxKey + 1⟩, log := v.log ++ [.tracked] }

/-- Changes one after the other. -/
abbrev Effects (n : ℕ) : View → View → Prop := Relation.ReflTransGen (Effect n)

/-- An operation on one channel: it goes through changes, the others stay. -/
structure Touches (channelId : String) (s s' : SpoolStore) : Prop where
  effects : Effects s.spool.nextId (s.view channelId) (s'.view channelId)
  others : ∀ channelId', channelId' ≠ channelId → s'.view channelId' = s.view channelId'
  nextId_le : s.spool.nextId ≤ s'.spool.nextId

/-- The counter of a tracked channel is above every chunk stored, and above zero. -/
def View.CounterAbove (v : View) : Prop :=
  ∀ buf ∈ v.buffer, 0 < buf.nextSeq ∧ ∀ c ∈ v.chunks.rows, c.seq < buf.nextSeq

/-! ### What each operation does -/

theorem view_note (s : SpoolStore) (channelId channelId' : String) (e : Entry) :
    (s.note channelId e).view channelId' =
      if channelId' = channelId then { s.view channelId with log := s.log channelId ++ [e] }
      else s.view channelId' := by
  unfold view note
  split_ifs with heq
  · subst heq
    simp
  · simp [heq]

theorem view_setBuffer (s : SpoolStore) (channelId channelId' : String) (buf : ChannelBuffer) :
    ({ s with buffers := s.buffers.set channelId buf } : SpoolStore).view channelId' =
      if channelId' = channelId then { s.view channelId with buffer := some buf }
      else s.view channelId' := by
  unfold view
  rw [OrderedMap.get_set]
  split_ifs with heq
  · subst heq
    rfl
  · rfl

theorem Touches.refl (channelId : String) (s : SpoolStore) : Touches channelId s s :=
  ⟨.refl, fun _ _ => rfl, le_rfl⟩

variable {n : ℕ} {v v' : View}

theorem Effect.mono {m : ℕ} (hle : n ≤ m) (h : Effect m v v') : Effect n v v' := by
  cases h with
  | timer b hbuf => exact .timer b hbuf
  | received data hbuf => exact .received data hbuf
  | output hbuf hbytes hid hkind hdata hseq hpos habove hrows =>
    exact .output hbuf hbytes (hle.trans hid) hkind hdata hseq hpos habove hrows
  | snapshot hbytes hid hkind hpos habove hrows =>
    exact .snapshot hbytes (hle.trans hid) hkind hpos habove hrows
  | untracked hbuf hbytes => exact .untracked hbuf hbytes

variable {channelId : String} {s : SpoolStore}

theorem Touches.trans {s' s'' : SpoolStore}
    (h : Touches channelId s s') (h' : Touches channelId s' s'') : Touches channelId s s'' where
  effects :=
    h.effects.trans
      (Relation.ReflTransGen.mono (fun _ _ => Effect.mono h.nextId_le) _ _ h'.effects)
  others := fun channelId' hne => (h'.others channelId' hne).trans (h.others channelId' hne)
  nextId_le := h.nextId_le.trans h'.nextId_le

theorem touches_of_effect {s' : SpoolStore}
    (heffect : Effect s.spool.nextId (s.view channelId) (s'.view channelId))
    (hothers : ∀ channelId', channelId' ≠ channelId → s'.view channelId' = s.view channelId')
    (hle : s.spool.nextId ≤ s'.spool.nextId) : Touches channelId s s' :=
  ⟨.single heffect, hothers, hle⟩

theorem view_trackChannel (s : SpoolStore) (channelId channelId' : String) :
    (s.trackChannel channelId).view channelId' =
      if channelId' = channelId ∧ (s.view channelId).buffer = none then (s.view channelId).tracked
      else s.view channelId' := by
  unfold trackChannel
  split_ifs with htracked hnone hnone
  · have hbuf : s.buffers.get channelId = none := hnone.2
    simp [hbuf] at htracked
  · rfl
  · rw [view_note, if_pos hnone.1, view_setBuffer, if_pos rfl]
    rfl
  · have hne : channelId' ≠ channelId := by
      rintro rfl
      exact hnone ⟨rfl, by simpa [view] using htracked⟩
    rw [view_note, if_neg hne, view_setBuffer, if_neg hne]

/-- **A flush.**  It stores the buffer, if there is something in it, unless the disk fails;
where the counter is above what is stored, nothing is refused. -/
theorem flush_touches (s : SpoolStore) (channelId : String) (w : Write)
    (habove : (s.view channelId).CounterAbove) :
    Touches channelId s (s.flush channelId w).1 ∧
      ((s.flush channelId w).2 = true →
        ∀ buf ∈ ((s.flush channelId w).1.view channelId).buffer, buf.totalBytes = 0) := by
  unfold flush
  cases hbuf : s.buffers.get channelId with
  | none =>
    refine ⟨.refl channelId s, fun _ buf hmem => ?_⟩
    have hnone : (s.view channelId).buffer = none := hbuf
    rw [hnone] at hmem
    cases hmem
  | some buf =>
    have hview : (s.view channelId).buffer = some buf := hbuf
    dsimp only
    split_ifs with hbytes hdisk
    · refine ⟨.refl channelId s, fun _ buf' hmem => ?_⟩
      obtain rfl : buf = buf' := Option.some.inj (hview.symm.trans hmem)
      exact hbytes
    · exact ⟨.refl channelId s, nofun⟩
    · obtain ⟨hpos, hlt⟩ := habove buf (Option.mem_def.mpr hview)
      obtain ⟨spool, hinsert, hid, hrows, hothers⟩ :=
        s.spool.insertChunk_of_above w.now .output buf.chunks.flatten hlt
      rw [hinsert]
      refine ⟨touches_of_effect ?_ ?_ (by simp [note, hid]), fun _ buf' hmem => ?_⟩
      · rw [view_note, if_pos rfl]
        have heffect := Effect.output (n := s.spool.nextId) (t := spool.chunks channelId) hview
          hbytes (Nat.le_refl s.spool.nextId) rfl rfl rfl hpos hlt hrows
        simpa [view] using heffect
      · intro channelId' hne
        rw [view_note, if_neg hne]
        simp [view, hothers channelId' hne, OrderedMap.get_set_of_ne _ hne]
      · rw [view_note, if_pos rfl] at hmem
        obtain rfl : (⟨[], false, buf.nextSeq + 1⟩ : ChannelBuffer) = buf' := by
          simpa [view] using hmem
        rfl

theorem Effect.counterAbove (h : Effect n v v') (hv : v.CounterAbove) : v'.CounterAbove := by
  cases h with
  | @timer buf _ hbuf | @received buf _ hbuf =>
    rintro buf' ⟨⟩
    exact hv buf hbuf
  | @output buf new t hbuf hbytes hid hkind hdata hseq hpos habove hrows =>
    rintro buf' ⟨⟩
    refine ⟨Nat.succ_pos _, fun c hc => ?_⟩
    rw [hrows] at hc
    rcases List.mem_append.mp hc with hold | hnew
    · exact Nat.lt_succ_of_lt ((hv buf hbuf).2 c hold)
    · obtain rfl : c = new := by simpa using hnew
      simp [hseq]
  | @snapshot new t hbytes hid hkind hpos habove hrows =>
    intro buf' hbuf'
    obtain ⟨buf, hbuf, rfl⟩ := Option.map_eq_some_iff.mp hbuf'
    refine ⟨lt_max_of_lt_left (hv buf hbuf).1, fun c hc => ?_⟩
    rw [hrows] at hc
    rcases List.mem_append.mp hc with hold | hnew
    · exact lt_max_of_lt_left ((hv buf hbuf).2 c (List.mem_of_mem_filter hold))
    · obtain rfl : c = new := by simpa using hnew
      exact lt_max_of_lt_right (Nat.lt_succ_self _)
  | untracked hbuf hbytes => exact nofun

theorem View.tracked_counterAbove (v : View) : v.tracked.CounterAbove := by
  rintro buf ⟨⟩
  exact ⟨Nat.succ_pos _, fun c hc => Nat.lt_succ_of_le (v.chunks.le_maxKey hc)⟩

theorem Effects.counterAbove (h : Effects n v v') (hv : v.CounterAbove) : v'.CounterAbove := by
  induction h with
  | refl => exact hv
  | tail _ hlast ih => exact hlast.counterAbove ih

theorem touches_setBuffer {buf : ChannelBuffer} (heffect : Effect s.spool.nextId (s.view channelId)
      { s.view channelId with buffer := some buf }) :
    Touches channelId s { s with buffers := s.buffers.set channelId buf } := by
  refine touches_of_effect ?_ ?_ le_rfl
  · rw [view_setBuffer, if_pos rfl]
    exact heffect
  · intro channelId' hne
    rw [view_setBuffer, if_neg hne]

theorem onOutput_touches (s : SpoolStore) (channelId : String) (data : List UInt8) (w : Write)
    (habove : (s.view channelId).CounterAbove) :
    Touches channelId s (s.onOutput channelId data w) := by
  unfold onOutput
  cases hbuf : s.buffers.get channelId with
  | none => exact .refl channelId s
  | some buf =>
    have hview : (s.view channelId).buffer = some buf := hbuf
    -- The output is buffered first, whatever follows.
    have hreceived : Touches channelId s
        ({ s with buffers := s.buffers.set channelId { buf with chunks := buf.chunks ++ [data] }
          }.note channelId (.received data)) := by
      refine touches_of_effect ?_ ?_ le_rfl
      · rw [view_note, if_pos rfl, view_setBuffer, if_pos rfl]
        exact .received data hview
      · intro channelId' hne
        rw [view_note, if_neg hne, view_setBuffer, if_neg hne]
    dsimp only
    split_ifs with hfull
    · have hflush := flush_touches _ channelId w (hreceived.effects.counterAbove habove)
      exact hreceived.trans hflush.1
    · refine ⟨?_, ?_, le_rfl⟩
      · refine hreceived.effects.tail ?_
        rw [view_note, if_pos rfl, view_setBuffer, if_pos rfl, view_note, if_pos rfl,
          view_setBuffer, if_pos rfl]
        exact @Effect.timer _ _ { buf with chunks := buf.chunks ++ [data] } true rfl
      · intro channelId' hne
        rw [view_note, if_neg hne, view_setBuffer, if_neg hne]

theorem onFlushTimer_touches (s : SpoolStore) (channelId : String) (w : Write)
    (habove : (s.view channelId).CounterAbove) :
    Touches channelId s (s.onFlushTimer channelId w) := by
  unfold onFlushTimer
  cases hbuf : s.buffers.get channelId with
  | none => exact .refl channelId s
  | some buf =>
    have htimer : Touches channelId s
        { s with buffers := s.buffers.set channelId { buf with timer := false } } :=
      touches_setBuffer (.timer false hbuf)
    have hflush := flush_touches _ channelId w (htimer.effects.counterAbove habove)
    exact htimer.trans hflush.1

theorem untrackChannel_touches (s : SpoolStore) (channelId : String) (w : Write)
    (habove : (s.view channelId).CounterAbove) :
    Touches channelId s (s.untrackChannel channelId w) := by
  obtain ⟨htouches, hempty⟩ := flush_touches s channelId w habove
  unfold untrackChannel
  dsimp only
  split_ifs with hreturned
  · refine htouches.trans ⟨?_, ?_, le_rfl⟩
    · cases hbuf : (s.flush channelId w).1.buffers.get channelId with
      | none =>
        have hsame : ({ (s.flush channelId w).1 with
            buffers := (s.flush channelId w).1.buffers.delete channelId } : SpoolStore).view
              channelId = (s.flush channelId w).1.view channelId := by
          simp [view, hbuf]
        rw [hsame]
      | some buf =>
        have hview : ((s.flush channelId w).1.view channelId).buffer = some buf := hbuf
        have heffect := Effect.untracked (n := (s.flush channelId w).1.spool.nextId) hview
          (hempty hreturned buf hview)
        refine .single ?_
        simpa [view] using heffect
    · intro channelId' hne
      simp [view, OrderedMap.get_delete_of_ne _ hne]
  · exact htouches

theorem view_bumpSeq (s : SpoolStore) (channelId channelId' : String) (minSeq : ℕ) :
    (s.bumpSeq channelId minSeq).view channelId' =
      if channelId' = channelId then
        { s.view channelId with
          buffer := (s.buffers.get channelId).map fun buf =>
            { buf with nextSeq := max buf.nextSeq minSeq } }
      else s.view channelId' := by
  unfold bumpSeq
  cases hbuf : s.buffers.get channelId with
  | none =>
    split_ifs with heq
    · subst heq
      simp [view, hbuf]
    · rfl
  | some buf =>
    dsimp only
    split_ifs with hlow heq heq
    · rw [view_setBuffer, if_pos heq]
      simp [max_eq_right hlow.le]
    · rw [view_setBuffer, if_neg heq]
    · subst heq
      simp [view, hbuf, max_eq_left (not_lt.mp hlow)]
    · rfl

@[simp] theorem spool_bumpSeq (s : SpoolStore) (channelId : String) (minSeq : ℕ) :
    (s.bumpSeq channelId minSeq).spool = s.spool := by
  unfold bumpSeq
  cases s.buffers.get channelId with
  | none => rfl
  | some buf =>
    dsimp only
    split_ifs <;> rfl

/-- **A snapshot.**  What was buffered goes before it, and it goes to the end. -/
theorem storeSnapshot_touches (s : SpoolStore) (channelId : String) (dataBlob : List UInt8)
    (agentLastSeq : ℕ) (w w' : Write) (habove : (s.view channelId).CounterAbove) :
    Touches channelId s (s.storeSnapshot channelId dataBlob agentLastSeq w w') := by
  obtain ⟨htouches, hempty⟩ := flush_touches s channelId w habove
  unfold storeSnapshot
  generalize s.flush channelId w = flushed at *
  obtain ⟨f, returned⟩ := flushed
  dsimp only at *
  split_ifs with hwrites
  · obtain ⟨hreturned, -⟩ := Bool.and_eq_true_iff.mp hwrites
    -- Its number is above the highest one stored.
    have hfree : ∀ c ∈ (f.spool.chunks channelId).rows,
        c.seq < max (f.spool.getMaxSeq channelId) agentLastSeq + 1 := by
      intro c hc
      exact Nat.lt_succ_of_le (le_max_of_le_left (UniqueIndex.le_maxKey _ hc))
    obtain ⟨spool, hinsert, hid, hrows, hothers⟩ :=
      f.spool.insertSnapshot_of_above w'.now dataBlob hfree
    rw [hinsert]
    refine htouches.trans (touches_of_effect ?_ ?_ (by simp [note, hid]))
    · rw [view_bumpSeq, if_pos rfl, view_note, if_pos rfl]
      have heffect := Effect.snapshot (n := f.spool.nextId) (t := spool.chunks channelId)
        (c := ⟨f.spool.nextId, max (f.spool.getMaxSeq channelId) agentLastSeq + 1, w'.now,
          .snapshot, dataBlob⟩) (hempty hreturned) (Nat.le_refl f.spool.nextId) rfl (Nat.succ_pos _) hfree hrows
      simpa [view, note] using heffect
    · intro channelId' hne
      rw [view_bumpSeq, if_neg hne, view_note, if_neg hne]
      simp [view, hothers channelId' hne]
  · exact htouches

end SpoolStore

end Lasterm.Hub
