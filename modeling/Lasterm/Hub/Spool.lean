import Lasterm.Lib.OrderedMap
import Lasterm.Lib.UniqueIndex
import Mathlib.Data.Int.Order.Basic
import Mathlib.Order.Lattice
import Mathlib.Data.String.Basic

/-!
# The chunks in spool.db

`storage/spool.ts` keeps what the terminals of a hub wrote: the output in chunks, and the
newest snapshot of each screen.  A chunk is found by its channel and its sequence number,
which are unique together.  Sequence numbers are counted without a bound; the code's are
exact up to 2^53.  What a chunk's codec and length columns say follows from its data, and the
two sums the deletions report are only logged.

## Main definitions

* `Spool` — the table `chunks`, with the queries that are used of it.

## Main results

* `deleteChunkBatch_spec` — one batch of a deletion.
-/

namespace Lasterm.Hub

/-- The `kind` column. -/
inductive ChunkKind
  | output
  | snapshot
  | resize
  deriving DecidableEq

/-- A row of `chunks`.  The generated ids are counted, and times are milliseconds. -/
structure Chunk where
  id : ℕ
  seq : ℕ
  ts : ℤ
  kind : ChunkKind
  /-- `data_blob`. -/
  dataBlob : List UInt8
  deriving DecidableEq

/-- The chunks of one channel, in the order of `idx_chunks_channel_seq`. -/
abbrev ChannelChunks := UniqueIndex Chunk.seq

/-- spool.db. -/
structure Spool where
  channels : OrderedMap String ChannelChunks
  nextId : ℕ
  id_lt : ∀ channelId t, channels.get channelId = some t → ∀ c ∈ t.rows, c.id < nextId

/-- A `ChunkKinds`: which chunks a batch deletes. -/
inductive ChunkKinds
  | snapshots
  | others
  | all

/-- The condition on `kind` of a batch. -/
def ChunkKinds.picks : ChunkKinds → Chunk → Bool
  | .snapshots, c => c.kind == .snapshot
  | .others, c => c.kind != .snapshot
  | .all, _ => true

/-- How much a batch of chunks may hold. -/
structure ChunkBatchLimits where
  maxRows : ℕ
  /-- The batch stops at the row that reaches this many bytes. -/
  maxBytes : ℕ

namespace Spool

/-- A spool with no chunk. -/
def empty : Spool := ⟨.empty, 0, by simp⟩

/-- The chunks of a channel. -/
def chunks (s : Spool) (channelId : String) : ChannelChunks :=
  (s.channels.get channelId).getD .empty

theorem id_lt_nextId (s : Spool) (channelId : String) :
    ∀ c ∈ (s.chunks channelId).rows, c.id < s.nextId := by
  intro c hc
  unfold chunks at hc
  cases hget : s.channels.get channelId with
  | none =>
    rw [hget] at hc
    cases hc
  | some t =>
    rw [hget] at hc
    exact s.id_lt channelId t hget c hc

/-- Other chunks for a channel, with the ids given so far. -/
def put (s : Spool) (channelId : String) (t : ChannelChunks) (nextId : ℕ)
    (hle : s.nextId ≤ nextId) (ht : ∀ c ∈ t.rows, c.id < nextId) : Spool where
  channels := s.channels.set channelId t
  nextId := nextId
  id_lt := by
    intro channelId' t' hget c hc
    rw [OrderedMap.get_set] at hget
    split_ifs at hget with heq
    · obtain ⟨rfl⟩ := hget
      exact ht c hc
    · exact lt_of_lt_of_le (s.id_lt channelId' t' hget c hc) hle

theorem chunks_put (s : Spool) (channelId channelId' : String) (t : ChannelChunks) (n : ℕ)
    (hle : s.nextId ≤ n) (ht : ∀ c ∈ t.rows, c.id < n) :
    (s.put channelId t n hle ht).chunks channelId' =
      if channelId' = channelId then t else s.chunks channelId' := by
  unfold chunks put
  rw [OrderedMap.get_set]
  split_ifs <;> rfl

theorem mem_insert {t t' : ChannelChunks} {a c : Chunk} (h : t.insert a = some t')
    (hc : c ∈ t'.rows) : c = a ∨ c ∈ t.rows := by
  obtain ⟨-, ⟨rfl⟩⟩ := Option.ite_none_right_eq_some.mp h
  rcases List.mem_append.mp hc with hlow | hhigh
  · exact .inr (List.mem_of_mem_filter hlow)
  · rcases List.mem_cons.mp hhigh with rfl | hhigh
    · exact .inl rfl
    · exact .inr (List.mem_of_mem_filter hhigh)

/-- `insertChunk`; the constraint UNIQUE (channel_id, seq) may refuse it. -/
def insertChunk (s : Spool) (channelId : String) (seq : ℕ) (ts : ℤ) (kind : ChunkKind)
    (dataBlob : List UInt8) : Option Spool :=
  match h : (s.chunks channelId).insert ⟨s.nextId, seq, ts, kind, dataBlob⟩ with
  | none => none
  | some t =>
    some (s.put channelId t (s.nextId + 1) (Nat.le_succ _) (by
      intro c hc
      rcases mem_insert h hc with rfl | hold
      · exact Nat.lt_succ_self _
      · exact Nat.lt_succ_of_lt (s.id_lt_nextId channelId c hold)))

/-- The chunks of a channel that pass a test; the others are deleted. -/
def keep (s : Spool) (channelId : String) (p : Chunk → Bool) : Spool :=
  s.put channelId ((s.chunks channelId).filter p) s.nextId le_rfl
    fun c hc => s.id_lt_nextId channelId c (List.mem_of_mem_filter hc)

/-- `getChunksByChannel` with a kind and a lower bound. -/
def getChunksByChannel (s : Spool) (channelId : String) (kind : ChunkKind) (afterSeq : ℕ) :
    List Chunk :=
  (s.chunks channelId).rows.filter fun c => c.kind == kind && decide (afterSeq < c.seq)

/-- `getMaxSeq`: the highest number of a channel, 0 for none. -/
def getMaxSeq (s : Spool) (channelId : String) : ℕ := (s.chunks channelId).maxKey

/-- `getLatestSnapshot`, from which `getLatestSnapshotSize` takes two columns. -/
def getLatestSnapshot (s : Spool) (channelId : String) : Option Chunk :=
  (s.chunks channelId).latest (·.kind == .snapshot)

/-- `insertSnapshot`: the previous one goes, in the same transaction. -/
def insertSnapshot (s : Spool) (channelId : String) (seq : ℕ) (ts : ℤ)
    (dataBlob : List UInt8) : Option Spool :=
  let previous := s.getLatestSnapshot channelId
  (s.insertChunk channelId seq ts .snapshot dataBlob).map fun s' =>
    match previous with
    | none => s'
    | some c => if c.seq < seq then s'.keep channelId fun row => row != c else s'

/-- `nextChannelId`: the first channel with chunks whose id sorts after another. -/
def nextChannelId (s : Spool) (after : String) : Option String :=
  (s.channels.keys.filter fun id => decide (after < id) && !(s.chunks id).rows.isEmpty).min?

/-- `listChunkSizesBefore`: newest first. -/
def listChunkSizesBefore (s : Spool) (channelId : String) (beforeSeq limit : ℕ) : List Chunk :=
  ((s.chunks channelId).rows.filter (·.seq < beforeSeq)).reverse.take limit

/-- The chunks in a batch's range. -/
def inRange (afterSeq throughSeq : ℤ) (kinds : ChunkKinds) (c : Chunk) : Bool :=
  decide (afterSeq < c.seq) && decide (c.seq ≤ throughSeq) && kinds.picks c

/-- The loop of `deleteChunkBatch` over the rows it picked: the last row of the batch, where
`bytes` came before. -/
def lastOfBatch (maxBytes : ℕ) : ℕ → Option ℕ → List Chunk → Option ℕ
  | _, lastSeq, [] => lastSeq
  | bytes, _, row :: rows =>
    if maxBytes ≤ bytes + row.dataBlob.length then some row.seq
    else lastOfBatch maxBytes (bytes + row.dataBlob.length) (some row.seq) rows

/-- `deleteChunkBatch`, and the `lastSeq` it reports. -/
def deleteChunkBatch (s : Spool) (channelId : String) (afterSeq throughSeq : ℤ)
    (kinds : ChunkKinds) (limits : ChunkBatchLimits) : Spool × Option ℕ :=
  let rows := ((s.chunks channelId).rows.filter (inRange afterSeq throughSeq kinds)).take
    limits.maxRows
  match lastOfBatch limits.maxBytes 0 none rows with
  | none => (s, none)
  | some lastSeq =>
    (s.keep channelId fun c => !inRange afterSeq lastSeq kinds c, some lastSeq)

/-! ### What the changes do to a channel -/

theorem chunks_keep (s : Spool) (channelId channelId' : String) (p : Chunk → Bool) :
    (s.keep channelId p).chunks channelId' =
      if channelId' = channelId then (s.chunks channelId).filter p else s.chunks channelId' :=
  s.chunks_put channelId channelId' _ _ _ _

variable {channelId : String} {seq : ℕ}

theorem insertChunk_eq_some {s s' : Spool} {ts : ℤ} {kind : ChunkKind} {dataBlob : List UInt8}
    (h : s.insertChunk channelId seq ts kind dataBlob = some s') :
    ∃ t, (s.chunks channelId).insert ⟨s.nextId, seq, ts, kind, dataBlob⟩ = some t ∧
      s'.nextId = s.nextId + 1 ∧
      ∀ channelId', s'.chunks channelId' =
        if channelId' = channelId then t else s.chunks channelId' := by
  unfold insertChunk at h
  split at h
  · cases h
  · rename_i t ht
    cases h
    exact ⟨t, ht, rfl, fun channelId' => s.chunks_put channelId channelId' t _ _ _⟩

theorem insertChunk_of_above (s : Spool) (ts : ℤ) (kind : ChunkKind) (dataBlob : List UInt8)
    (h : ∀ c ∈ (s.chunks channelId).rows, c.seq < seq) :
    ∃ s', s.insertChunk channelId seq ts kind dataBlob = some s' ∧ s'.nextId = s.nextId + 1 ∧
      (s'.chunks channelId).rows =
        (s.chunks channelId).rows ++ [⟨s.nextId, seq, ts, kind, dataBlob⟩] ∧
      ∀ channelId', channelId' ≠ channelId → s'.chunks channelId' = s.chunks channelId' := by
  obtain ⟨t, ht, hrows⟩ := UniqueIndex.rows_insert_of_above (s.chunks channelId)
    (a := ⟨s.nextId, seq, ts, kind, dataBlob⟩) h
  cases hinsert : s.insertChunk channelId seq ts kind dataBlob with
  | none =>
    unfold insertChunk at hinsert
    split at hinsert
    · rename_i hnone
      rw [hnone] at ht
      cases ht
    · cases hinsert
  | some s' =>
    obtain ⟨t', ht', hid, hchunks⟩ := insertChunk_eq_some hinsert
    obtain rfl : t = t' := Option.some.inj (ht.symm.trans ht')
    refine ⟨s', rfl, hid, ?_, fun channelId' hne => by rw [hchunks, if_neg hne]⟩
    rw [hchunks, if_pos rfl, hrows]

/-- The rows that stay when a snapshot is stored: all but the previous one. -/
def isNotLatest (s : Spool) (channelId : String) (c : Chunk) : Bool :=
  decide (s.getLatestSnapshot channelId ≠ some c)

/-- A snapshot above all of its channel's chunks is not refused, goes to the end, and takes
the place of the previous one. -/
theorem insertSnapshot_of_above (s : Spool) (ts : ℤ)
    (dataBlob : List UInt8) (h : ∀ c ∈ (s.chunks channelId).rows, c.seq < seq) :
    ∃ s', s.insertSnapshot channelId seq ts dataBlob = some s' ∧ s'.nextId = s.nextId + 1 ∧
      (s'.chunks channelId).rows = (s.chunks channelId).rows.filter (s.isNotLatest channelId) ++
        [⟨s.nextId, seq, ts, .snapshot, dataBlob⟩] ∧
      ∀ channelId', channelId' ≠ channelId → s'.chunks channelId' = s.chunks channelId' := by
  obtain ⟨s', hinsert, hid, hrows, hothers⟩ := s.insertChunk_of_above ts .snapshot dataBlob h
  unfold insertSnapshot
  rw [hinsert]
  cases hlatest : s.getLatestSnapshot channelId with
  | none =>
    refine ⟨s', rfl, hid, ?_, hothers⟩
    rw [hrows, List.filter_eq_self.mpr]
    intro c _
    simp [isNotLatest, hlatest]
  | some previous =>
    obtain ⟨hmem, -, -⟩ := (UniqueIndex.latest_eq_some_iff _ _ _).mp hlatest
    refine ⟨s'.keep channelId fun row => row != previous, ?_, hid, ?_, ?_⟩
    · simp [h previous hmem]
    · -- The new row stays: its number is above the previous one's.
      have hlt := h previous hmem
      have hnew : (⟨s.nextId, seq, ts, .snapshot, dataBlob⟩ : Chunk) ≠ previous := by
        rintro rfl
        exact Nat.lt_irrefl _ hlt
      rw [chunks_keep, if_pos rfl, UniqueIndex.rows_filter, hrows, List.filter_append]
      congr 1
      · refine List.filter_congr fun c _ => ?_
        by_cases heq : c = previous
        · simp [isNotLatest, hlatest, heq]
        · simp [isNotLatest, hlatest, heq, Ne.symm heq]
      · simp [hnew]
    · intro channelId' hne
      rw [chunks_keep, if_neg hne, hothers channelId' hne]

variable {lastSeq : Option ℕ}

theorem lastOfBatch_mem {maxBytes bytes last : ℕ} {rows : List Chunk}
    (h : lastOfBatch maxBytes bytes lastSeq rows = some last) :
    lastSeq = some last ∨ ∃ c ∈ rows, c.seq = last := by
  induction rows generalizing bytes lastSeq with
  | nil => exact .inl h
  | cons row rows ih =>
    unfold lastOfBatch at h
    split_ifs at h with hfull
    · exact .inr ⟨row, List.mem_cons_self, Option.some.inj h⟩
    · rcases ih h with hseq | ⟨c, hc, hseq⟩
      · exact .inr ⟨row, List.mem_cons_self, Option.some.inj hseq⟩
      · exact .inr ⟨c, List.mem_cons_of_mem _ hc, hseq⟩

theorem lastOfBatch_eq_none {maxBytes bytes : ℕ} {rows : List Chunk}
    (h : lastOfBatch maxBytes bytes lastSeq rows = none) : lastSeq = none ∧ rows = [] := by
  induction rows generalizing bytes lastSeq with
  | nil => exact ⟨h, rfl⟩
  | cons row rows ih =>
    unfold lastOfBatch at h
    split_ifs at h
    cases (ih h).1

/-- **One batch.**  It deletes the chunks of its range up to the one it reports, or there is
none left in its range. -/
theorem deleteChunkBatch_spec {s s' : Spool} {afterSeq throughSeq : ℤ}
    {kinds : ChunkKinds} {limits : ChunkBatchLimits} (hlimits : 0 < limits.maxRows)
    (h : s.deleteChunkBatch channelId afterSeq throughSeq kinds limits = (s', lastSeq)) :
    (lastSeq = none ∧ s' = s ∧
      ∀ c ∈ (s.chunks channelId).rows, inRange afterSeq throughSeq kinds c = false) ∨
    ∃ c ∈ (s.chunks channelId).rows, inRange afterSeq throughSeq kinds c = true ∧
      lastSeq = some c.seq ∧ s' = s.keep channelId fun r => !inRange afterSeq c.seq kinds r := by
  unfold deleteChunkBatch at h
  dsimp only at h
  split at h
  · rename_i hlast
    obtain ⟨rfl, rfl⟩ := Prod.mk.inj h
    refine .inl ⟨rfl, rfl, ?_⟩
    have hnil := (List.take_eq_nil_iff.mp (lastOfBatch_eq_none hlast).2).resolve_left hlimits.ne'
    intro c hc
    simpa using List.filter_eq_nil_iff.mp hnil c hc
  · rename_i last hlast
    obtain ⟨rfl, rfl⟩ := Prod.mk.inj h
    rcases lastOfBatch_mem hlast with hnone | ⟨c, hc, rfl⟩
    · cases hnone
    · obtain ⟨hmem, hrange⟩ := List.mem_filter.mp (List.mem_of_mem_take hc)
      exact .inr ⟨c, hmem, hrange, rfl, rfl⟩

end Spool

end Lasterm.Hub
