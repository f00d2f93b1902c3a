import Lasterm.Hub.OutputChunker
import Lasterm.Lib.Run
import Mathlib.Algebra.Group.Int.Defs

/-!
# The spool's garbage collector beside the writes

`spool-gc.ts` keeps spool.db bounded.  A pass empties the channels dead longer than their
retention, then goes through every channel of the spool: one that meta.db has no row for is
emptied, any other keeps its newest snapshot and its newest output, up to an age and a size.
A purge empties channels just deleted from meta.db.  Every piece of work is one short step,
and whatever else the hub does may come between two of them.

## Main definitions

* `GcState`, `gcNext` — the collector as a machine; with what it is about to delete it carries what
  the channel was when it was judged, on which nothing it does depends.
* `HubStorage` — spool.db, the chunker, the rows of meta.db and the passes under way.

## Main results

* `gcNext_spool`, `step_view` — what one step does to the spool, and to a channel.
-/

namespace Lasterm.Hub

open Transition SpoolStore Option

/-- A row of meta.db's `channels`. -/
structure MetaRow where
  dead : Bool
  /-- `updated_at`. -/
  updatedAt : ℤ

/-- `listStaleDeadChannelIds`. -/
def listStaleDeadChannelIds (rows : OrderedMap String MetaRow) (before : ℤ) : List String :=
  (rows.filter fun row => row.dead && decide (row.updatedAt < before)).keys

/-- What the collector is configured with. -/
structure GcConfig where
  /-- `deadRetentionHours`, in milliseconds. -/
  deadRetentionMs : ℤ
  maxSizePerChannel : ℕ

/-- `GC_MAX_AGE_HOURS`, in milliseconds. -/
def gcMaxAgeMs : ℤ := 168 * 3600 * 1000

/-- `DELETE_BATCH`. -/
def deleteBatch : ChunkBatchLimits := ⟨256, 1024 * 1024⟩

/-- `WALK_ROWS`. -/
def walkRows : ℕ := 512

/-- `FIRST_SEQ`. -/
def firstSeq : ℤ := -(2 ^ 53 - 1)

/-- `LAST_SEQ`. -/
def lastSeq : ℕ := 2 ^ 53 - 1

/-- Who looks for orphans: a pass, with the age limit it goes by, or a purge, with the
channels it still has to look at. -/
inductive Lane
  | pass (ageCutoff : ℤ)
  | purge (rest : List String)
  deriving DecidableEq

/-- What a `deleteRange` is for, and what follows it. -/
inductive Purpose
  /-- A channel dead past its retention, found when the ids below `judgedAt` were given. -/
  | dead (rest : List String) (judgedAt : ℕ)
  /-- A channel without a row, found when the ids below `judgedAt` were given. -/
  | orphan (lane : Lane) (judgedAt : ℕ)
  /-- The snapshots older than the newest, of this number and size; `judged` was the newest
  when the channel was found to have a row. -/
  | oldSnapshots (newestSeq newestBytes : ℕ) (ageCutoff : ℤ) (judged : Option Chunk)
  /-- What is past the age limit or the size cap. -/
  | others (ageCutoff : ℤ) (judged : Option Chunk)
  deriving DecidableEq

/-- The kinds a `deleteRange` is given. -/
def Purpose.kinds : Purpose → ChunkKinds
  | .dead _ _ => .all
  | .orphan _ _ => .all
  | .oldSnapshots _ _ _ _ => .snapshots
  | .others _ _ => .others

/-- Which step the collector takes next. -/
inductive GcState
  | idle
  /-- List the channels dead since before the cutoff. -/
  | judge (deadCutoff : ℤ)
  /-- Read the highest number of a channel found dead. -/
  | maxSeq (channelId : String) (rest : List String) (judgedAt : ℕ)
  | nextChannel (after : String) (ageCutoff : ℤ)
  | orphan (channelId : String) (lane : Lane)
  | newest (channelId : String) (ageCutoff : ℤ) (judged : Option Chunk)
  /-- Weigh the chunks below `before`. -/
  | walk (channelId : String) (newestSeq : Option ℕ) (ageCutoff : ℤ) (total before : ℕ)
      (judged : Option Chunk)
  | deleting (channelId : String) (purpose : Purpose) (throughSeq afterSeq : ℤ)
  | vacuum
  deriving DecidableEq

/-- The loop over the channels found dead; behind it the age limit is taken. -/
def emptyDead (rest : List String) (judgedAt : ℕ) (now : ℤ) : GcState :=
  match rest with
  | [] => .nextChannel "" (now - gcMaxAgeMs)
  | channelId :: rest => .maxSeq channelId rest judgedAt

/-- What follows a channel, in a pass and in a purge. -/
def Lane.resume (channelId : String) : Lane → GcState
  | .pass ageCutoff => .nextChannel channelId ageCutoff
  | .purge [] => .vacuum
  | .purge (next :: rest) => .orphan next (.purge rest)

/-- The walk of `collectChannel` over chunks, newest first: the number of the first one that
does not fit, and the size gone through. -/
def weigh (maxSize : ℕ) (newestSeq : Option ℕ) (ageCutoff : ℤ) : ℕ → List Chunk → Option ℕ × ℕ
  | total, [] => (none, total)
  | total, c :: rest =>
    if newestSeq = some c.seq then weigh maxSize newestSeq ageCutoff total rest
    else if c.kind = .snapshot then
      weigh maxSize newestSeq ageCutoff (total + c.dataBlob.length) rest
    else if maxSize < total + c.dataBlob.length ∨ c.ts < ageCutoff then
      (some c.seq, total + c.dataBlob.length)
    else weigh maxSize newestSeq ageCutoff (total + c.dataBlob.length) rest

/-- What follows a `deleteRange`. -/
def Purpose.resume (channelId : String) (now : ℤ) : Purpose → GcState
  | .dead rest judgedAt => emptyDead rest judgedAt now
  | .orphan lane _ => lane.resume channelId
  | .oldSnapshots newestSeq newestBytes ageCutoff judged =>
    .walk channelId (some newestSeq) ageCutoff newestBytes lastSeq judged
  | .others ageCutoff _ => .nextChannel channelId ageCutoff

/-- One `slicer.step` of the running job, and what it runs before the next one. -/
def gcNext (cfg : GcConfig) (now : ℤ) (rows : OrderedMap String MetaRow) (spool : Spool) :
    GcState → GcState × Spool
  | .idle => (.idle, spool)
  | .judge deadCutoff =>
    (emptyDead (listStaleDeadChannelIds rows deadCutoff) spool.nextId now, spool)
  | .maxSeq channelId rest judgedAt =>
    (.deleting channelId (.dead rest judgedAt) (spool.getMaxSeq channelId) firstSeq, spool)
  | .nextChannel after ageCutoff =>
    match spool.nextChannelId after with
    | none => (.vacuum, spool)
    | some channelId => (.orphan channelId (.pass ageCutoff), spool)
  | .orphan channelId lane =>
    if (rows.get channelId).isSome then
      match lane with
      | .pass ageCutoff =>
        (.newest channelId ageCutoff (spool.getLatestSnapshot channelId), spool)
      | .purge rest => (Lane.resume channelId (.purge rest), spool)
    else
      (.deleting channelId (.orphan lane spool.nextId) (spool.getMaxSeq channelId) firstSeq, spool)
  | .newest channelId ageCutoff judged =>
    match spool.getLatestSnapshot channelId with
    | some c =>
      (.deleting channelId (.oldSnapshots c.seq c.dataBlob.length ageCutoff judged) (c.seq - 1)
        firstSeq, spool)
    | none => (.walk channelId none ageCutoff 0 lastSeq judged, spool)
  | .walk channelId newestSeq ageCutoff total before judged =>
    let chunks := spool.listChunkSizesBefore channelId before walkRows
    match weigh cfg.maxSizePerChannel newestSeq ageCutoff total chunks with
    | (some cut, _) => (.deleting channelId (.others ageCutoff judged) cut firstSeq, spool)
    | (none, total) =>
      match chunks.getLast? with
      | none => (.nextChannel channelId ageCutoff, spool)
      | some last =>
        if chunks.length < walkRows then (.nextChannel channelId ageCutoff, spool)
        else (.walk channelId newestSeq ageCutoff total last.seq judged, spool)
  | .deleting channelId purpose throughSeq afterSeq =>
    let batch := spool.deleteChunkBatch channelId afterSeq throughSeq purpose.kinds deleteBatch
    match batch.2 with
    | none => (purpose.resume channelId now, batch.1)
    | some last => (.deleting channelId purpose throughSeq last, batch.1)
  | .vacuum => (.idle, spool)

/-- A job asked of the collector. -/
inductive GcJob
  /-- `collect`. -/
  | pass
  | purge (channelIds : List String)

/-- Everything that writes, reads or deletes chunks. -/
structure HubStorage where
  store : SpoolStore
  rows : OrderedMap String MetaRow
  gc : GcState
  runsPass : Bool
  /-- A pass runs or waits: the collector's `pass`. -/
  passAsked : Bool
  jobs : List GcJob
  /-- The ids of channels there have been, in either database. -/
  used : List String

namespace HubStorage

/-- A hub that has just started, over the databases it finds. -/
def init (spool : Spool) (rows : OrderedMap String MetaRow) : HubStorage where
  store := ⟨spool, .empty, fun _ => []⟩
  rows := rows
  gc := .idle
  runsPass := false
  passAsked := false
  jobs := []
  used := rows.keys ++ spool.channels.keys

/-- The spool. -/
abbrev spool (s : HubStorage) : Spool := s.store.spool

/-- What happens. -/
inductive Step
  | trackChannel (channelId : String)
  | onOutput (channelId : String) (data : List UInt8) (w : Write)
  | flushTimer (channelId : String) (w : Write)
  | untrackChannel (channelId : String) (w : Write)
  | storeSnapshot (channelId : String) (dataBlob : List UInt8) (agentLastSeq : ℕ) (w w' : Write)
  /-- A channel gets its row, under an id an agent has just made. -/
  | createChannel (channelId : String) (row : MetaRow)
  /-- A channel's row changes: it dies, or is brought back under its own id. -/
  | updateChannel (channelId : String) (row : MetaRow)
  /-- The rows of channels are deleted with their host. -/
  | deleteRows (channelIds : List String)
  /-- Dead channels are purged: their rows go, and the collector is told. -/
  | purgeChannels (channelIds : List String)
  | collect
  | gcStart (now : ℤ)
  | gc (now : ℤ)
  /-- The running job is stopped, or fails, before its next step. -/
  | gcEnd

/-- The running job has ended. -/
def endJob (s : HubStorage) : HubStorage :=
  { s with gc := .idle, runsPass := false, passAsked := s.passAsked && !s.runsPass }

/-- One step. -/
def step (cfg : GcConfig) (s : HubStorage) : Step → Option HubStorage
  | .trackChannel channelId =>
    some { s with store := s.store.trackChannel channelId, used := channelId :: s.used }
  | .onOutput channelId data w => some { s with store := s.store.onOutput channelId data w }
  | .flushTimer channelId w =>
    if ((s.store.buffers.get channelId).map ChannelBuffer.timer).getD false then
      some { s with store := s.store.onFlushTimer channelId w }
    else none
  | .untrackChannel channelId w => some { s with store := s.store.untrackChannel channelId w }
  | .storeSnapshot channelId dataBlob agentLastSeq w w' =>
    some { s with
      store := s.store.storeSnapshot channelId dataBlob agentLastSeq w w'
      used := channelId :: s.used }
  | .createChannel channelId row =>
    if channelId ∈ s.used then none
    else some { s with rows := s.rows.set channelId row, used := channelId :: s.used }
  | .updateChannel channelId row =>
    some (if (s.rows.get channelId).isSome then { s with rows := s.rows.set channelId row } else s)
  | .deleteRows channelIds => some { s with rows := channelIds.foldl OrderedMap.delete s.rows }
  | .purgeChannels channelIds =>
    if ∀ channelId ∈ channelIds, ((s.rows.get channelId).map MetaRow.dead).getD false then
      some { s with
        rows := channelIds.foldl OrderedMap.delete s.rows
        jobs := s.jobs ++ [.purge channelIds] }
    else none
  | .collect =>
    some (if s.passAsked then s else { s with passAsked := true, jobs := s.jobs ++ [.pass] })
  | .gcStart now =>
    if s.gc = .idle then
      match s.jobs with
      | [] => none
      | .pass :: jobs =>
        some { s with gc := .judge (now - cfg.deadRetentionMs), runsPass := true, jobs := jobs }
      | .purge ids :: jobs =>
        some { s with gc := Lane.resume "" (.purge ids), runsPass := false, jobs := jobs }
    else none
  | .gc now =>
    if s.gc = .idle then none
    else
      let next := gcNext cfg now s.rows s.spool s.gc
      let s' := { s with store := { s.store with spool := next.2 }, gc := next.1 }
      some (if next.1 = .idle then s'.endJob else s')
  | .gcEnd => if s.gc = .idle then none else some s.endJob

/-- The channel whose output or screen a step may store. -/
def Step.channel : Step → Option String
  | .onOutput channelId _ _ => some channelId
  | .flushTimer channelId _ => some channelId
  | .untrackChannel channelId _ => some channelId
  | .storeSnapshot channelId _ _ _ _ => some channelId
  | _ => none

/-- Every counter is above what is stored. -/
def CountersAbove (s : HubStorage) : Prop := ∀ channelId, (s.store.view channelId).CounterAbove

end HubStorage

/-- **One step of the collector** deletes the chunks of a range up to one of them, and goes
on from there; or it deletes nothing. -/
theorem gcNext_spool (cfg : GcConfig) (now : ℤ) (rows : OrderedMap String MetaRow)
    (spool : Spool) (gc : GcState) :
    (gcNext cfg now rows spool gc).2 = spool ∨
    ∃ channelId purpose throughSeq afterSeq, ∃ c ∈ (spool.chunks channelId).rows,
      gc = .deleting channelId purpose throughSeq afterSeq ∧
      Spool.inRange afterSeq throughSeq purpose.kinds c = true ∧
      gcNext cfg now rows spool gc =
        (.deleting channelId purpose throughSeq c.seq,
          spool.keep channelId fun r => !Spool.inRange afterSeq c.seq purpose.kinds r) := by
  cases gc with
  | idle | judge | maxSeq | vacuum => exact .inl rfl
  | nextChannel | newest =>
    refine .inl ?_
    simp only [gcNext]
    split <;> rfl
  | orphan channelId lane =>
    refine .inl ?_
    simp only [gcNext]
    split
    · split <;> rfl
    · rfl
  | walk channelId newestSeq ageCutoff total before judged =>
    refine .inl ?_
    simp only [gcNext]
    split
    · rfl
    · split
      · rfl
      · split <;> rfl
  | deleting channelId purpose throughSeq afterSeq =>
    obtain ⟨spool', last, hbatch⟩ : ∃ spool' last, spool.deleteChunkBatch channelId afterSeq
        throughSeq purpose.kinds deleteBatch = (spool', last) := ⟨_, _, rfl⟩
    simp only [gcNext, hbatch]
    rcases Spool.deleteChunkBatch_spec (by decide) hbatch with ⟨rfl, rfl, -⟩ | ⟨c, hc, hrange, rfl, rfl⟩
    · exact .inl rfl
    · exact .inr ⟨channelId, purpose, throughSeq, afterSeq, c, hc, rfl, hrange, rfl⟩

namespace HubStorage

variable {cfg : GcConfig} {s s' : HubStorage} {a : Step}

theorem step_gc_eq {now : ℤ} (h : s.step cfg (.gc now) = some s') :
    s'.store = { s.store with spool := (gcNext cfg now s.rows s.spool s.gc).2 } ∧
      s'.gc = (gcNext cfg now s.rows s.spool s.gc).1 ∧ s'.rows = s.rows ∧ s'.jobs = s.jobs ∧
      s'.used = s.used := by
  obtain ⟨-, ⟨rfl⟩⟩ := ite_none_left_eq_some.mp h
  split_ifs with hidle
  · exact ⟨rfl, hidle.symm, rfl, rfl, rfl⟩
  · exact ⟨rfl, rfl, rfl, rfl, rfl⟩

/-- **What one step does to spool.db and the chunker**: a channel is tracked, a change of one
channel, a batch of the collector, or nothing. -/
theorem step_store (habove : s.CountersAbove) (h : s.step cfg a = some s') :
    (∃ channelId, a = .trackChannel channelId ∧ s'.store = s.store.trackChannel channelId ∧
      s'.gc = s.gc ∧ s'.rows = s.rows) ∨
    (∃ channelId, a.channel = some channelId ∧ Touches channelId s.store s'.store ∧
      s'.gc = s.gc ∧ s'.rows = s.rows) ∨
    s'.store = s.store ∨
    ∃ now, a = .gc now ∧
      s'.store = { s.store with spool := (gcNext cfg now s.rows s.spool s.gc).2 } ∧
      s'.gc = (gcNext cfg now s.rows s.spool s.gc).1 ∧ s'.rows = s.rows := by
  cases a with
  | trackChannel channelId =>
    cases h
    exact .inl ⟨channelId, rfl, rfl, rfl, rfl⟩
  | onOutput channelId data w =>
    cases h
    exact .inr (.inl ⟨channelId, rfl, onOutput_touches s.store channelId data w (habove channelId),
      rfl, rfl⟩)
  | flushTimer channelId w =>
    obtain ⟨-, ⟨rfl⟩⟩ := ite_none_right_eq_some.mp h
    exact .inr (.inl ⟨channelId, rfl, onFlushTimer_touches s.store channelId w (habove channelId),
      rfl, rfl⟩)
  | untrackChannel channelId w =>
    cases h
    exact .inr (.inl ⟨channelId, rfl, untrackChannel_touches s.store channelId w (habove channelId),
      rfl, rfl⟩)
  | storeSnapshot channelId dataBlob agentLastSeq w w' =>
    cases h
    exact .inr (.inl ⟨channelId, rfl, storeSnapshot_touches s.store channelId dataBlob agentLastSeq w w'
      (habove channelId), rfl, rfl⟩)
  | createChannel | gcEnd =>
    obtain ⟨-, ⟨rfl⟩⟩ := ite_none_left_eq_some.mp h
    exact .inr (.inr (.inl rfl))
  | updateChannel | collect =>
    cases h
    refine .inr (.inr (.inl ?_))
    split_ifs <;> rfl
  | deleteRows channelIds =>
    cases h
    exact .inr (.inr (.inl rfl))
  | purgeChannels channelIds =>
    obtain ⟨-, ⟨rfl⟩⟩ := ite_none_right_eq_some.mp h
    exact .inr (.inr (.inl rfl))
  | gcStart now =>
    obtain ⟨-, h⟩ := ite_none_right_eq_some.mp h
    refine .inr (.inr (.inl ?_))
    split at h
    · cases h
    · cases h
      rfl
    · cases h
      rfl
  | gc now =>
    obtain ⟨hstore, hgc, hrows, -⟩ := step_gc_eq h
    exact .inr (.inr (.inr ⟨now, rfl, hstore, hgc, hrows⟩))

theorem view_keep (st : SpoolStore) (channelId channelId' : String) (p : Chunk → Bool) :
    ({ st with spool := st.spool.keep channelId p } : SpoolStore).view channelId' =
      if channelId' = channelId then
        { st.view channelId with chunks := (st.spool.chunks channelId).filter p }
      else st.view channelId' := by
  unfold view
  rw [Spool.chunks_keep]
  split_ifs with heq
  · subst heq
    rfl
  · rfl

/-- **What one step does to a channel**: it is tracked, it goes through changes of its own, if
the step is about it, or it loses chunks in a range of the collector's. -/
theorem step_view (habove : s.CountersAbove) (h : s.step cfg a = some s') (channelId : String) :
    s'.store.view channelId = s.store.view channelId ∨
    (a = .trackChannel channelId ∧ (s.store.view channelId).buffer = none ∧
      s'.store.view channelId = (s.store.view channelId).tracked) ∨
    (a.channel = some channelId ∧
      Effects s.spool.nextId (s.store.view channelId) (s'.store.view channelId)) ∨
    ∃ now purpose throughSeq afterSeq, ∃ c ∈ (s.spool.chunks channelId).rows,
      a = .gc now ∧ s.gc = .deleting channelId purpose throughSeq afterSeq ∧
      Spool.inRange afterSeq throughSeq purpose.kinds c = true ∧
      s'.store.view channelId =
        { s.store.view channelId with
          chunks := (s.spool.chunks channelId).filter
            fun r => !Spool.inRange afterSeq c.seq purpose.kinds r } := by
  rcases step_store habove h with
    ⟨ch, rfl, hstore, -⟩ | ⟨ch, ha, htouches, -⟩ | hsame | ⟨now, rfl, hstore, -⟩
  · rw [hstore, view_trackChannel]
    split_ifs with hnew
    · obtain ⟨rfl, hnone⟩ := hnew
      exact .inr (.inl ⟨rfl, hnone, rfl⟩)
    · exact .inl rfl
  · by_cases heq : channelId = ch
    · subst heq
      exact .inr (.inr (.inl ⟨ha, htouches.effects⟩))
    · exact .inl (htouches.others channelId heq)
  · exact .inl (by rw [hsame])
  · rcases gcNext_spool cfg now s.rows s.spool s.gc with
      hsame | ⟨ch, purpose, throughSeq, afterSeq, c, hc, hgc, hrange, hnext⟩
    · refine .inl ?_
      rw [hstore, hsame]
    · rw [hnext] at hstore
      rw [hstore, view_keep]
      split_ifs with heq
      · subst heq
        exact .inr (.inr (.inr ⟨now, purpose, throughSeq, afterSeq, c, hc, rfl, hgc, hrange,
          rfl⟩))
      · exact .inl rfl

theorem step_countersAbove (habove : s.CountersAbove) (h : s.step cfg a = some s') :
    s'.CountersAbove := by
  intro channelId
  rcases step_view habove h channelId with
    hsame | ⟨-, -, hview⟩ | ⟨-, heffects⟩ |
      ⟨now, purpose, throughSeq, afterSeq, c, hc, -, -, -, hview⟩
  · rw [hsame]
    exact habove channelId
  · rw [hview]
    exact View.tracked_counterAbove _
  · exact heffects.counterAbove (habove channelId)
  · rw [hview]
    intro buf hbuf
    obtain ⟨hpos, hlt⟩ := habove channelId buf hbuf
    exact ⟨hpos, fun r hr => hlt r (List.mem_of_mem_filter hr)⟩

theorem init_countersAbove (spool : Spool) (rows : OrderedMap String MetaRow) :
    (init spool rows).CountersAbove := by
  intro channelId buf hbuf
  cases hbuf

theorem countersAbove_of_run {ok : HubStorage → Step → Prop} {spool : Spool}
    {rows : OrderedMap String MetaRow} (h : Run (step cfg) ok (init spool rows) s) :
    s.CountersAbove := by
  refine h.invariant ?_ fun _ _ _ hs _ hn => step_countersAbove hs hn
  exact init_countersAbove spool rows

end HubStorage

end Lasterm.Hub
