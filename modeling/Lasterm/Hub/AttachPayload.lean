import Lasterm.Hub.GcRanges
import Mathlib.Algebra.Order.BigOperators.Group.List
import Mathlib.Algebra.Order.Group.Nat

/-!
# What an ATTACH answered from the spool carries

An ATTACH to a terminal whose host is out of reach is answered with the newest snapshot in
spool.db and the output stored after it, or with the snapshot alone, marked truncated, when
that output is too long.  The collector keeps a channel's newest output up to an age and a
size: where its cut lies after the newest snapshot, the output between the two is gone, and
nothing tells a pane.

## Main definitions

* `buildAttachPayload` — the answer; `CutSpares` — a cut that leaves no such gap.

## Main results

* `payload_complete_or_truncated` — the payload, in every run whose cuts leave none.
* `gap_after_a_pass` — a payload with a gap.
-/

namespace Lasterm.Hub

open Transition SpoolStore List UniqueIndex

/-- `MAX_ATTACH_TAIL_BYTES`. -/
def maxAttachTailBytes : ℕ := 128 * 1024

/-- The loop of `boundTail`: whether chunks behind `total` bytes are too much. -/
def tooLong : ℕ → List Chunk → Bool
  | _, [] => false
  | total, c :: rest =>
    if maxAttachTailBytes < total + c.dataBlob.length then true
    else tooLong (total + c.dataBlob.length) rest

/-- `boundTail`: the tail, and whether it is truncated. -/
def boundTail (chunks : List Chunk) : List (List UInt8) × Bool :=
  if tooLong 0 chunks then ([], true) else (chunks.map Chunk.dataBlob, false)

/-- What an ATTACH_OK carries, the snapshot as it parses. -/
structure AttachPayload (σ : Type) where
  snapshot : Option σ
  tail : List (List UInt8)
  truncated : Bool
  deriving DecidableEq

/-- `buildAttachPayload`, where `parse` is `JSON.parse` of a blob, nothing where it throws. -/
def buildAttachPayload {σ : Type} (parse : List UInt8 → Option σ) (spool : Spool)
    (channelId : String) : AttachPayload σ :=
  match spool.getLatestSnapshot channelId with
  | none => ⟨none, [], false⟩
  | some snapshotChunk =>
    let tailChunks := spool.getChunksByChannel channelId .output snapshotChunk.seq
    let (tail, truncated) := boundTail tailChunks
    ⟨parse snapshotChunk.dataBlob, tail, truncated⟩

/-- The bytes of chunks together. -/
def totalBytes (chunks : List Chunk) : ℕ := (chunks.map fun c => c.dataBlob.length).sum

theorem tooLong_iff (total : ℕ) (htotal : total ≤ maxAttachTailBytes) (chunks : List Chunk) :
    tooLong total chunks = true ↔ maxAttachTailBytes < total + totalBytes chunks := by
  induction chunks generalizing total with
  | nil => simpa [tooLong, totalBytes] using htotal
  | cons c rest ih =>
    have hsum : totalBytes (c :: rest) = c.dataBlob.length + totalBytes rest := by
      simp [totalBytes]
    unfold tooLong
    split_ifs with hlong
    · simp only [true_iff]
      omega
    · rw [ih _ (not_lt.mp hlong), hsum, Nat.add_assoc]

theorem totalBytes_le_of_sublist {l l' : List Chunk} (h : l.Sublist l') :
    totalBytes l ≤ totalBytes l' :=
  (h.map fun c : Chunk => c.dataBlob.length).sum_le_sum fun _ _ => Nat.zero_le _

/-! ### What was recorded -/

/-- The output stored since the last snapshot was, chunk by chunk. -/
def sinceSnapshot (log : List Entry) : List (List UInt8) :=
  log.foldl (fun tail e =>
    match e with
    | .snapshot _ => []
    | .output _ data => tail ++ [data]
    | _ => tail) []

/-- The last snapshot stored. -/
def lastSnapshot (log : List Entry) : Option (List UInt8) :=
  log.foldl (fun last e =>
    match e with
    | .snapshot data => some data
    | _ => last) none

theorem sinceSnapshot_append (log : List Entry) (e : Entry) :
    sinceSnapshot (log ++ [e]) =
      match e with
      | .snapshot _ => []
      | .output _ data => sinceSnapshot log ++ [data]
      | _ => sinceSnapshot log := by
  unfold sinceSnapshot
  rw [foldl_append]
  cases e <;> rfl

theorem lastSnapshot_append (log : List Entry) (e : Entry) :
    lastSnapshot (log ++ [e]) =
      match e with
      | .snapshot data => some data
      | _ => lastSnapshot log := by
  unfold lastSnapshot
  rw [foldl_append]
  cases e <;> rfl

/-- The output of a channel above a number. -/
def outputAbove (t : ChannelChunks) (seq : ℕ) : List Chunk :=
  t.rows.filter fun c => c.kind == .output && decide (seq < c.seq)

/-- The newest snapshot there is was the last one stored, and what is after it is all that was
stored after it, or too much to be sent. -/
def Attachable (v : View) : Prop :=
  ∀ c, v.newest = some c → lastSnapshot v.log = some c.dataBlob ∧
    ((outputAbove v.chunks c.seq).map Chunk.dataBlob = sinceSnapshot v.log ∨
      maxAttachTailBytes < totalBytes (outputAbove v.chunks c.seq))

theorem Attachable.tracked {v : View} (h : Attachable v) : Attachable v.tracked := by
  intro c hc
  simpa [View.tracked, lastSnapshot_append, sinceSnapshot_append] using h c hc

theorem Attachable.effect {n : ℕ} {v v' : View} (h : Attachable v)
    (heffect : SpoolStore.Effect n v v') :
    Attachable v' := by
  cases heffect with
  | timer | untracked => exact h
  | received data hbuf =>
    intro c hc
    simpa [lastSnapshot_append, sinceSnapshot_append] using h c hc
  | @output buf c t hbuf hbytes hid hkind hdata hseq hpos habove hrows =>
    intro newest hnewest
    have hsame : v.newest = some newest := by
      simpa [View.newest, UniqueIndex.latest, hrows, hkind] using hnewest
    have hmem := ((latest_eq_some_iff _ _ _).mp hsame).1
    have htail : outputAbove t newest.seq = outputAbove v.chunks newest.seq ++ [c] := by
      simp [outputAbove, hrows, hkind, habove newest hmem]
    obtain ⟨hlast, hcomplete | hlong⟩ := h newest hsame
    · refine ⟨by simpa [lastSnapshot_append] using hlast, .inl ?_⟩
      simp [sinceSnapshot_append, htail, hcomplete]
    · refine ⟨by simpa [lastSnapshot_append] using hlast, .inr ?_⟩
      simp only [htail, totalBytes, map_append, sum_append] at hlong ⊢
      omega
  | @snapshot c t hbytes hid hkind hpos habove hrows =>
    intro newest hnewest
    obtain rfl : c = newest := by
      simpa [View.newest, UniqueIndex.latest, hrows, hkind] using hnewest
    refine ⟨by simp [lastSnapshot_append], .inl ?_⟩
    -- Nothing is above it.
    have hnone : outputAbove t c.seq = [] := by
      refine filter_eq_nil_iff.mpr fun r hr => ?_
      rw [hrows] at hr
      rcases mem_append.mp hr with hold | hnew
      · have hlt := habove r (mem_of_mem_filter hold)
        simp
        omega
      · obtain rfl : r = c := by simpa using hnew
        simp
    simp [sinceSnapshot_append, hnone]

theorem Attachable.effects {n : ℕ} {v v' : View} (h : Attachable v) (heffects : Effects n v v') :
    Attachable v' := by
  induction heffects with
  | refl => exact h
  | tail _ hlast ih => exact ih.effect hlast

/-! ### What the collector leaves -/

/-- Where everything from the newest snapshot left on is left, that is the newest there was,
and nothing after it is lost. -/
theorem Attachable.filter {v : View} {p : Chunk → Bool} (h : Attachable v)
    (hkept : ∀ newest, (v.chunks.filter p).latest (·.kind == .snapshot) = some newest →
      ∀ r ∈ v.chunks.rows, newest.seq ≤ r.seq → p r = true) :
    Attachable { v with chunks := v.chunks.filter p } := by
  intro newest hnewest
  have hall := hkept newest hnewest
  obtain ⟨hmem, hkind, hmax⟩ := (latest_eq_some_iff _ _ _).mp hnewest
  have hsame : v.newest = some newest := by
    refine (latest_eq_some_iff _ _ _).mpr ⟨mem_of_mem_filter hmem, hkind, ?_⟩
    intro r hr hsnapshot
    by_contra hlt
    have hp := hall r hr (not_le.mp hlt).le
    exact hlt (hmax r (mem_filter.mpr ⟨hr, hp⟩) hsnapshot)
  have htail : outputAbove (v.chunks.filter p) newest.seq =
      outputAbove v.chunks newest.seq := by
    unfold outputAbove
    rw [rows_filter, filter_filter]
    refine filter_congr fun r hr => ?_
    by_cases hlt : newest.seq < r.seq
    · simp [hall r hr hlt.le]
    · simp [hlt]
  simpa only [htail] using h newest hsame

theorem Attachable.batch {v : View} {kinds : ChunkKinds} {afterSeq : ℤ} {last : ℕ}
    (h : Attachable v)
    (hkept : ∀ newest ∈ v.chunks.rows, newest.kind = .snapshot →
      (∀ r ∈ v.chunks.rows, r.kind = .snapshot →
        Spool.inRange afterSeq last kinds r = false → r.seq ≤ newest.seq) →
      Spool.inRange afterSeq last kinds newest = false →
        ∀ r ∈ v.chunks.rows, newest.seq ≤ r.seq → Spool.inRange afterSeq last kinds r = false) :
    Attachable { v with chunks := v.chunks.filter fun r => !Spool.inRange afterSeq last kinds r } := by
  refine h.filter fun newest hnewest r hr hle => ?_
  obtain ⟨hmem, hkind, hmax⟩ := (latest_eq_some_iff _ _ _).mp hnewest
  obtain ⟨hrow, hout⟩ := mem_filter.mp hmem
  rw [Bool.not_eq_true'] at hout ⊢
  refine hkept newest hrow (by simpa using hkind) (fun r' hr' hsnapshot hout' => ?_) hout r hr hle
  exact hmax r' (mem_filter.mpr ⟨hr', by simpa using hout'⟩) (by simpa using hsnapshot)

theorem inRange_eq_false_of_lt {afterSeq : ℤ} {last : ℕ} {kinds : ChunkKinds} {r : Chunk}
    (h : last < r.seq) : Spool.inRange afterSeq last kinds r = false := by
  rw [← Bool.not_eq_true, inRange_iff]
  omega

namespace HubStorage

/-- A cut of the age limit or the size cap that leaves a payload right: it lies below the
newest snapshot, or what is kept above it is too long to be sent. -/
def CutSpares (spool : Spool) : GcState → Prop
  | .deleting channelId (.others _ _) throughSeq _ =>
    ∀ newest ∈ spool.getLatestSnapshot channelId, throughSeq ≤ newest.seq ∨
      maxAttachTailBytes < totalBytes ((spool.chunks channelId).rows.filter
        fun c => c.kind == .output && decide (throughSeq < c.seq))
  | _ => True

/-- Every cut that is deleted is one. -/
def SparesTail (s : HubStorage) : Step → Prop
  | .gc _ => CutSpares s.spool s.gc
  | _ => True

instance (spool : Spool) : DecidablePred (CutSpares spool)
  | .deleting channelId (.others _ _) throughSeq _ =>
    inferInstanceAs (Decidable (∀ newest ∈ spool.getLatestSnapshot channelId,
      throughSeq ≤ newest.seq ∨
        maxAttachTailBytes < totalBytes ((spool.chunks channelId).rows.filter
          fun c => c.kind == .output && decide (throughSeq < c.seq))))
  | .deleting _ (.dead _ _) _ _ | .deleting _ (.orphan _ _) _ _
  | .deleting _ (.oldSnapshots _ _ _ _) _ _ | .idle | .judge _ | .maxSeq _ _ _
  | .nextChannel _ _ | .orphan _ _ | .newest _ _ _ | .walk _ _ _ _ _ _ | .vacuum => .isTrue trivial

instance (s : HubStorage) : DecidablePred s.SparesTail
  | .gc _ => inferInstanceAs (Decidable (CutSpares s.spool s.gc))
  | .trackChannel _ | .onOutput _ _ _ | .flushTimer _ _ | .untrackChannel _ _
  | .storeSnapshot _ _ _ _ _ | .createChannel _ _ | .updateChannel _ _ | .deleteRows _
  | .purgeChannels _ | .collect | .gcStart _ | .gcEnd => .isTrue trivial

variable {cfg : GcConfig} {s s' : HubStorage} {a : Step}

/-- **A batch of the collector** leaves a channel as an ATTACH needs it. -/
theorem attachable_batch {channelId : String} {purpose : Purpose} {throughSeq afterSeq : ℤ}
    {now : ℤ} {c : Chunk} (hgc : s.gc = .deleting channelId purpose throughSeq afterSeq)
    (hfits : s.GcFits) (hok : s.SparesTail (.gc now))
    (hrange : Spool.inRange afterSeq throughSeq purpose.kinds c = true)
    (hs : Attachable (s.store.view channelId)) :
    Attachable { s.store.view channelId with
      chunks := (s.spool.chunks channelId).filter
        fun r => !Spool.inRange afterSeq c.seq purpose.kinds r } := by
  have hfit := hfits _ _ _ _ hgc
  obtain ⟨hafter, hthrough, -⟩ := (inRange_iff _ _ _ _).mp hrange
  -- Emptying a channel goes from the lowest number: the newest snapshot goes before what is
  -- after it.
  have hall : ∀ kinds, kinds = .all → Swept throughSeq afterSeq (s.spool.chunks channelId) →
      Attachable { s.store.view channelId with
        chunks := (s.spool.chunks channelId).filter
          fun r => !Spool.inRange afterSeq c.seq kinds r } := by
    rintro kinds rfl hswept
    have hlow : ∀ r ∈ (s.spool.chunks channelId).rows, afterSeq < r.seq := by
      rcases hswept with hend | ⟨-, hlow⟩ | ⟨rfl, -⟩
      · omega
      · exact hlow
      · exact fun r _ => firstSeq_lt r.seq
    refine hs.batch fun newest hmem _ _ hout r _ hle => inRange_eq_false_of_lt ?_
    rw [← Bool.not_eq_true, inRange_iff] at hout
    by_contra hle'
    exact hout ⟨hlow newest hmem, by omega, rfl⟩
  cases purpose with
  | dead | orphan => exact hall _ rfl hfit
  | oldSnapshots newestSeq newestBytes ageCutoff judged =>
    obtain ⟨r₀, hr₀, hkind₀, hlt₀⟩ := hfit
    refine hs.batch fun newest hmem hkind hmax hout r hr hle => inRange_eq_false_of_lt ?_
    have hge := hmax r₀ hr₀ hkind₀ (inRange_eq_false_of_lt (by omega))
    omega
  | others ageCutoff judged =>
    have hspares : CutSpares s.spool s.gc := hok
    rw [hgc] at hspares
    intro newest hnewest
    obtain ⟨hmem, hkind, hmax⟩ := (latest_eq_some_iff _ _ _).mp hnewest
    -- No snapshot is deleted.
    have hsnapshot : ∀ r : Chunk, r.kind = .snapshot →
        Spool.inRange afterSeq c.seq .others r = false := by
      intro r hr
      simp [Spool.inRange, ChunkKinds.picks, hr]
    have hsame : (s.store.view channelId).newest = some newest := by
      refine (latest_eq_some_iff _ _ _).mpr
        ⟨mem_of_mem_filter hmem, hkind, fun r hr hr' => ?_⟩
      refine hmax r (mem_filter.mpr ⟨hr, ?_⟩) hr'
      simpa [Purpose.kinds] using hsnapshot r (by simpa using hr')
    by_cases hcut : throughSeq ≤ newest.seq
    · -- The cut is below the newest snapshot.
      refine hs.batch (fun newest' hmem' hkind' hmax' hout' r hr hle => ?_) newest hnewest
      have hrow := ((latest_eq_some_iff _ _ _).mp hsame).1
      have hge := hmax' newest hrow (by simpa using hkind) (hsnapshot newest (by simpa using hkind))
      by_cases heq : r = newest'
      · rw [heq]
        exact hout'
      · have hne : newest'.seq ≠ r.seq := fun hseq =>
          heq (eq_of_key_eq _ hr hmem' hseq.symm)
        exact inRange_eq_false_of_lt (by omega)
    · -- What is kept above the cut is after the newest snapshot, and too long.
      have hlong := (hspares newest hsame).resolve_left hcut
      refine ⟨(hs newest hsame).1, .inr (hlong.trans_le ?_)⟩
      refine totalBytes_le_of_sublist ?_
      unfold outputAbove
      rw [rows_filter, filter_filter]
      refine monotone_filter_right _ fun r hr => ?_
      simp only [Bool.and_eq_true, beq_iff_eq, decide_eq_true_eq] at hr ⊢
      refine ⟨⟨hr.1, by omega⟩, ?_⟩
      rw [Bool.not_eq_true']
      exact inRange_eq_false_of_lt (by omega)

theorem step_attachable (habove : s.CountersAbove) (hfits : s.GcFits)
    (h : s.step cfg a = some s') (hok : s.SparesTail a) {channelId : String}
    (hs : Attachable (s.store.view channelId)) : Attachable (s'.store.view channelId) := by
  rcases step_view habove h channelId with hsame | ⟨-, -, hview⟩ | ⟨-, heffects⟩ |
    ⟨now, purpose, throughSeq, afterSeq, c, hc, rfl, hgc, hrange, hview⟩
  · rwa [hsame]
  · rw [hview]
    exact hs.tracked
  · exact hs.effects heffects
  · rw [hview]
    exact attachable_batch hgc hfits hok hrange hs

end HubStorage

open HubStorage

/-- **The payload of an ATTACH.**  In every state reached from an empty spool, as long as every
cut lies below the newest snapshot or keeps too much to be sent, a payload is the last snapshot
that was stored and all the output stored after it, or it is that snapshot and is marked
truncated; where no snapshot is stored it is empty. -/
theorem payload_complete_or_truncated {σ : Type} (parse : List UInt8 → Option σ)
    {cfg : GcConfig} {rows : OrderedMap String MetaRow} {s : HubStorage}
    (h : Run (step cfg) SparesTail (init .empty rows) s) (channelId : String) :
    (s.spool.getLatestSnapshot channelId = none ∧
      buildAttachPayload parse s.spool channelId = ⟨none, [], false⟩) ∨
    ∃ data, lastSnapshot (s.store.log channelId) = some data ∧
      (buildAttachPayload parse s.spool channelId =
          ⟨parse data, sinceSnapshot (s.store.log channelId), false⟩ ∨
        buildAttachPayload parse s.spool channelId = ⟨parse data, [], true⟩) := by
  have hattach : Attachable (s.store.view channelId) := by
    refine (h.invariant (I := fun s => s.CountersAbove ∧ s.GcFits ∧
      Attachable (s.store.view channelId)) ⟨?_, ?_, ?_⟩ ?_).2.2
    · exact init_countersAbove .empty rows
    · exact init_gcFits .empty rows
    · intro c hc
      cases hc
    · intro s a s' hs hok hn
      exact ⟨step_countersAbove hs.1 hn, step_gcFits hs.1 hn hs.2.1,
        step_attachable hs.1 hs.2.1 hn hok hs.2.2⟩
  unfold buildAttachPayload
  cases hnewest : s.spool.getLatestSnapshot channelId with
  | none => exact .inl ⟨rfl, rfl⟩
  | some c =>
    obtain ⟨hlast, htail⟩ := hattach c hnewest
    refine .inr ⟨c.dataBlob, hlast, ?_⟩
    have hchunks : s.spool.getChunksByChannel channelId .output c.seq =
        outputAbove (s.store.view channelId).chunks c.seq := rfl
    have hlong := tooLong_iff 0 (Nat.zero_le _) (outputAbove (s.store.view channelId).chunks c.seq)
    dsimp only
    rw [hchunks]
    unfold boundTail
    by_cases htoo : tooLong 0 (outputAbove (s.store.view channelId).chunks c.seq) = true
    · rw [if_pos htoo]
      exact .inr rfl
    · rw [if_neg htoo]
      rw [Nat.zero_add] at hlong
      rw [htail.resolve_right (mt hlong.mpr htoo)]
      exact .inl rfl

/-- A snapshot and output after it: the payload is both. -/
theorem payload_of_snapshot_and_output :
    ∃ s, exec (step ⟨0, 1024⟩) (init .empty .empty) [.trackChannel "a",
        .storeSnapshot "a" [7] 0 ⟨0, true⟩ ⟨0, true⟩, .onOutput "a" [1, 2] ⟨0, true⟩,
        .flushTimer "a" ⟨0, true⟩] = some s ∧
      buildAttachPayload some s.spool "a" = ⟨some [7], [[1, 2]], false⟩ := by
  have hrun : Run (step ⟨0, 1024⟩) SparesTail (init .empty .empty) _ := .get [.trackChannel "a",
    .storeSnapshot "a" [7] 0 ⟨0, true⟩ ⟨0, true⟩, .onOutput "a" [1, 2] ⟨0, true⟩,
    .flushTimer "a" ⟨0, true⟩] (by decide +kernel) (by decide +kernel)
  refine ⟨_, (Option.some_get (by decide +kernel)).symm, ?_⟩
  rcases payload_complete_or_truncated some hrun "a" with ⟨hnone, -⟩ | ⟨data, hdata, hpayload⟩
  · exact absurd hnone (by decide +kernel)
  · obtain rfl : data = [7] := Option.some.inj (hdata.symm.trans (by decide +kernel))
    exact hpayload.elim (·.trans (by decide +kernel)) fun h => absurd h (by decide +kernel)

/-- A snapshot, output, and more output eight days later: a pass deletes the first output, and
the payload is the snapshot and the rest, as if it were complete. -/
theorem gap_after_a_pass :
    ¬∀ s, Run (step ⟨0, 1024⟩) free (init .empty .empty) s →
      ∀ data, lastSnapshot (s.store.log "a") = some data →
        buildAttachPayload some s.spool "a" =
            ⟨some data, sinceSnapshot (s.store.log "a"), false⟩ ∨
          buildAttachPayload some s.spool "a" = ⟨some data, [], true⟩ := by
  intro h
  have hrun : Run (step ⟨0, 1024⟩) free (init .empty .empty) _ := .get_free
    [.createChannel "a" ⟨false, 0⟩, .trackChannel "a", .storeSnapshot "a" [7] 0 ⟨0, true⟩ ⟨0, true⟩,
      .onOutput "a" [1] ⟨0, true⟩, .flushTimer "a" ⟨0, true⟩, .onOutput "a" [2] ⟨691200000, true⟩,
      .flushTimer "a" ⟨691200000, true⟩, .collect, .gcStart 691200000, .gc 691200000,
      .gc 691200000, .gc 691200000, .gc 691200000, .gc 691200000, .gc 691200000, .gc 691200000]
    (by decide +kernel)
  exact absurd (h _ hrun [7] (by decide +kernel)) (by decide +kernel)

end Lasterm.Hub
