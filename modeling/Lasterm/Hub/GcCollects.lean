import Lasterm.Hub.SpoolGc
import Lasterm.Lib.LongestSuffix
import Mathlib.Algebra.GroupWithZero.Nat

/-!
# What the collector leaves of a channel

Alone with a channel, the collector's steps come to an end, and what they leave is its newest
snapshot and the longest run of its newest other chunks that fits.  The newest snapshot is
counted in the size of what is kept.  A chunk whose number is not below the greatest integer
a number of the code is exact for is never looked at, and stays.

## Main results

* `deleteRange_keeps`, `comes_deleteRange` — a range is emptied, in batches that are bounded.
* `weigh_spec` — the walk stops where the longest suffix begins.
* `collect_channel` — one channel, from the first step to the last.
-/

namespace Lasterm.Hub

open List

/-- A channel keeps the rows that pass a test, and the other channels theirs. -/
structure Spool.Keeps (s s' : Spool) (channelId : String) (p : Chunk → Bool) : Prop where
  rows : (s'.chunks channelId).rows = (s.chunks channelId).rows.filter p
  others : ∀ channelId', channelId' ≠ channelId → s'.chunks channelId' = s.chunks channelId'

namespace Spool

variable {s s' s'' : Spool} {channelId : String} {p q : Chunk → Bool}

theorem keeps_keep (s : Spool) (channelId : String) (p : Chunk → Bool) :
    s.Keeps (s.keep channelId p) channelId p where
  rows := by rw [chunks_keep, if_pos rfl, UniqueIndex.rows_filter]
  others channelId' hne := by rw [chunks_keep, if_neg hne]

theorem keeps_self (h : ∀ c ∈ (s.chunks channelId).rows, p c = true) :
    s.Keeps s channelId p where
  rows := (filter_eq_self.mpr h).symm
  others _ _ := rfl

theorem Keeps.trans (h : s.Keeps s' channelId p) (h' : s'.Keeps s'' channelId q) :
    s.Keeps s'' channelId fun c => p c && q c where
  rows := by rw [h'.rows, h.rows, filter_filter]; simp only [Bool.and_comm]
  others channelId' hne := (h'.others channelId' hne).trans (h.others channelId' hne)

theorem Keeps.congr (h : s.Keeps s' channelId p)
    (hpq : ∀ c ∈ (s.chunks channelId).rows, p c = q c) : s.Keeps s' channelId q where
  rows := h.rows.trans (filter_congr hpq)
  others := h.others

/-! ### The batches of a range -/

/-- The loop of `deleteRange`; none when the fuel has run out. -/
def deleteRange (limits : ChunkBatchLimits) (channelId : String) (kinds : ChunkKinds)
    (throughSeq : ℤ) : ℕ → ℤ → Spool → Option Spool
  | 0, _, _ => none
  | fuel + 1, afterSeq, s =>
    match s.deleteChunkBatch channelId afterSeq throughSeq kinds limits with
    | (s', none) => some s'
    | (s', some last) => deleteRange limits channelId kinds throughSeq fuel last s'

/-- **A range is emptied** and the loop stops, with at least one row to a batch. -/
theorem deleteRange_keeps (limits : ChunkBatchLimits) (hlimits : 0 < limits.maxRows)
    (channelId : String) (kinds : ChunkKinds) (throughSeq : ℤ) (fuel : ℕ) (afterSeq : ℤ)
    (s : Spool) (hfuel : (s.chunks channelId).rows.length < fuel) :
    ∃ s', deleteRange limits channelId kinds throughSeq fuel afterSeq s = some s' ∧
      s.Keeps s' channelId fun c => !inRange afterSeq throughSeq kinds c := by
  induction fuel generalizing afterSeq s with
  | zero => exact absurd hfuel (Nat.not_lt_zero _)
  | succ fuel ih =>
    obtain ⟨s₁, last, hbatch⟩ : ∃ s₁ last,
        s.deleteChunkBatch channelId afterSeq throughSeq kinds limits = (s₁, last) := ⟨_, _, rfl⟩
    unfold deleteRange
    rw [hbatch]
    rcases deleteChunkBatch_spec hlimits hbatch with
      ⟨rfl, rfl, hnone⟩ | ⟨c, hc, hrange, rfl, rfl⟩
    · exact ⟨s₁, rfl, keeps_self fun c hc => by rw [hnone c hc]; rfl⟩
    · have hkeep := keeps_keep s channelId fun r => !inRange afterSeq c.seq kinds r
      simp only [inRange, Bool.and_eq_true, decide_eq_true_eq] at hrange
      obtain ⟨⟨hafter, hthrough⟩, hpicks⟩ := hrange
      -- The last one of the batch is gone, so there are fewer.
      have hlen : ((s.keep channelId fun r => !inRange afterSeq c.seq kinds r).chunks
          channelId).rows.length < fuel := by
        rw [hkeep.rows]
        refine (length_filter_lt_length_iff_exists.mpr ⟨c, hc, ?_⟩).trans_le
          (Nat.lt_succ_iff.mp hfuel)
        simp [inRange, hafter, hpicks]
      obtain ⟨s', hs', hkeep'⟩ := ih c.seq _ hlen
      refine ⟨s', hs', (hkeep.trans hkeep').congr fun r _ => ?_⟩
      by_cases hpick : kinds.picks r
      · simp only [inRange, hpick, Bool.and_true]
        by_cases hlow : (afterSeq < r.seq) <;> by_cases hhigh : (r.seq ≤ c.seq) <;>
          by_cases hend : ((r.seq : ℤ) ≤ throughSeq) <;> simp [*] <;> omega
      · simp [inRange, hpick]

/-- The rows of a batch: up to the one that reaches the bytes. -/
def batchRows (maxBytes : ℕ) : ℕ → List Chunk → List Chunk
  | _, [] => []
  | bytes, row :: rows =>
    if maxBytes ≤ bytes + row.dataBlob.length then [row]
    else row :: batchRows maxBytes (bytes + row.dataBlob.length) rows

theorem lastOfBatch_eq (maxBytes bytes : ℕ) (lastSeq : Option ℕ) (rows : List Chunk) :
    lastOfBatch maxBytes bytes lastSeq rows =
      ((batchRows maxBytes bytes rows).getLast?.map Chunk.seq).or lastSeq := by
  induction rows generalizing bytes lastSeq with
  | nil => rfl
  | cons row rows ih =>
    unfold lastOfBatch batchRows
    split_ifs
    · rfl
    · rw [ih, getLast?_cons]
      cases (batchRows maxBytes (bytes + row.dataBlob.length) rows).getLast? <;> rfl

theorem batchRows_front (maxBytes bytes : ℕ) (rows : List Chunk) :
    batchRows maxBytes bytes rows <+: rows := by
  induction rows generalizing bytes with
  | nil => exact prefix_rfl
  | cons row rows ih =>
    unfold batchRows
    split_ifs
    · exact ⟨rows, rfl⟩
    · exact (prefix_cons_inj row).mpr (ih _)

/-- What some chunks store. -/
def storedBytes (rows : List Chunk) : ℕ := (rows.map (·.dataBlob.length)).sum

@[simp] theorem storedBytes_nil : storedBytes [] = 0 := rfl

@[simp] theorem storedBytes_cons (c : Chunk) (rows : List Chunk) :
    storedBytes (c :: rows) = c.dataBlob.length + storedBytes rows := rfl

theorem batchRows_bytes (maxBytes bytes : ℕ) (rows : List Chunk) :
    (batchRows maxBytes bytes rows).length ≤ 1 ∨
      bytes + storedBytes (batchRows maxBytes bytes rows).dropLast < maxBytes := by
  induction rows generalizing bytes with
  | nil => exact .inl (Nat.zero_le _)
  | cons row rows ih =>
    unfold batchRows
    split_ifs with hfull
    · exact .inl le_rfl
    · have hbelow := Nat.not_le.mp hfull
      rcases ih (bytes + row.dataBlob.length) with hshort | hbytes
      · cases hrest : batchRows maxBytes (bytes + row.dataBlob.length) rows with
        | nil => exact .inl le_rfl
        | cons row' rest =>
          rw [hrest] at hshort
          obtain rfl : rest = [] := length_eq_zero_iff.mp (by simpa using hshort)
          exact .inr (by simpa using hbelow)
      · cases hrest : batchRows maxBytes (bytes + row.dataBlob.length) rows with
        | nil => exact .inl le_rfl
        | cons row' rest =>
          rw [hrest] at hbytes
          refine .inr ?_
          rw [dropLast_cons_of_ne_nil (by simp), storedBytes_cons]
          omega

/-- **A batch is bounded**: it deletes the lowest rows of its range, no more of them than it
may, and all but the last stay below the bytes it may delete. -/
theorem deleteChunkBatch_bounded (s : Spool) (channelId : String) (afterSeq throughSeq : ℤ)
    (kinds : ChunkKinds) (limits : ChunkBatchLimits) :
    ∃ batch, batch <+: (s.chunks channelId).rows.filter (inRange afterSeq throughSeq kinds) ∧
      batch.length ≤ limits.maxRows ∧
      (batch.length ≤ 1 ∨ storedBytes batch.dropLast < limits.maxBytes) ∧
      s.Keeps (s.deleteChunkBatch channelId afterSeq throughSeq kinds limits).1 channelId
        fun c => decide (c ∉ batch) := by
  let range := (s.chunks channelId).rows.filter (inRange afterSeq throughSeq kinds)
  let batch := batchRows limits.maxBytes 0 (range.take limits.maxRows)
  have hprefix : batch <+: range := (batchRows_front _ _ _).trans <| take_prefix _ _
  refine ⟨batch, hprefix, ?_, ?_, ?_⟩
  · exact (batchRows_front _ _ _).length_le.trans (length_take_le _ _)
  · simpa using batchRows_bytes limits.maxBytes 0 (range.take limits.maxRows)
  · unfold deleteChunkBatch
    dsimp only
    rw [lastOfBatch_eq]
    cases hlast : batch.getLast? with
    | none =>
      obtain hnil := getLast?_eq_none_iff.mp hlast
      exact keeps_self fun c _ => by simp [hnil]
    | some last =>
      obtain ⟨front, hfront⟩ := getLast?_eq_some_iff.mp hlast
      obtain ⟨rest, hrest⟩ := hprefix
      have hsorted : range.Pairwise fun a b => a.seq < b.seq :=
        (s.chunks channelId).sorted.filter _
      have hlastMem : last ∈ range := hrest ▸ mem_append_left _ (hfront ▸ by simp)
      have hlastRange := (mem_filter.mp hlastMem).2
      rw [← hrest, hfront] at hsorted
      obtain ⟨hsorted, -, hbehind⟩ := pairwise_append.mp hsorted
      -- A row of the channel is up to the last one exactly when the batch has it.
      have hiff : ∀ c ∈ (s.chunks channelId).rows,
          inRange afterSeq last.seq kinds c = true ↔ c ∈ batch := by
        intro c hc
        simp only [inRange, Bool.and_eq_true, decide_eq_true_eq] at hlastRange ⊢
        constructor
        · rintro ⟨⟨hafter, hle⟩, hpicks⟩
          have hrange : c ∈ range := mem_filter.mpr ⟨hc, by
            simpa [inRange, hafter, hpicks] using hle.trans hlastRange.1.2⟩
          rw [← hrest] at hrange
          refine (mem_append.mp hrange).resolve_right fun hin => ?_
          have := hbehind last (by simp) c hin
          omega
        · intro hin
          have hrange : c ∈ range := hrest ▸ mem_append_left _ hin
          have hcRange := (mem_filter.mp hrange).2
          simp only [inRange, Bool.and_eq_true, decide_eq_true_eq] at hcRange
          refine ⟨⟨hcRange.1.1, ?_⟩, hcRange.2⟩
          rw [hfront] at hin
          rcases mem_append.mp hin with hin | hin
          · exact_mod_cast ((pairwise_append.mp hsorted).2.2 c hin last (by simp)).le
          · rw [mem_singleton.mp hin]
      refine (keeps_keep s channelId _).congr fun c hc => ?_
      rw [decide_not, Bool.eq_iff_iff.mpr ((hiff c hc).trans decide_eq_true_iff.symm)]

end Spool

/-! ### The collector alone -/

/-- The collector after some steps, when nothing else happens.  The clock is read at each. -/
def runAlone (cfg : GcConfig) (rows : OrderedMap String MetaRow) (now : ℕ → ℤ)
    (p : GcState × Spool) : ℕ → GcState × Spool
  | 0 => p
  | n + 1 =>
    gcNext cfg (now n) rows (runAlone cfg rows now p n).2 (runAlone cfg rows now p n).1

/-- The collector's steps lead from one state to another, whatever the clock reads. -/
def Comes (cfg : GcConfig) (rows : OrderedMap String MetaRow) (p q : GcState × Spool) : Prop :=
  ∃ n, ∀ now, runAlone cfg rows now p n = q

section Comes

variable {cfg : GcConfig} {rows : OrderedMap String MetaRow} {p q r : GcState × Spool}

theorem runAlone_add (now : ℕ → ℤ) (p : GcState × Spool) (m n : ℕ) :
    runAlone cfg rows now p (m + n) =
      runAlone cfg rows (fun k => now (m + k)) (runAlone cfg rows now p m) n := by
  induction n with
  | zero => rfl
  | succ n ih => rw [← Nat.add_assoc, runAlone, ih, runAlone]

theorem Comes.trans (h : Comes cfg rows p q) (h' : Comes cfg rows q r) : Comes cfg rows p r := by
  obtain ⟨m, hm⟩ := h
  obtain ⟨n, hn⟩ := h'
  refine ⟨m + n, fun now => ?_⟩
  rw [runAlone_add, hm, hn]

theorem Comes.of_step (h : ∀ now, gcNext cfg now rows p.2 p.1 = q) : Comes cfg rows p q :=
  ⟨1, fun now => h (now 0)⟩

end Comes

/-- **The collector's deleting steps** are the loop over batches of its own size. -/
theorem comes_deleteRange (cfg : GcConfig) (rows : OrderedMap String MetaRow)
    {channelId : String} (purpose : Purpose) {throughSeq : ℤ}
    {gc : GcState} (hresume : ∀ now, purpose.resume channelId now = gc) {fuel : ℕ}
    {afterSeq : ℤ} {s s' : Spool}
    (h : Spool.deleteRange deleteBatch channelId purpose.kinds throughSeq fuel afterSeq s =
      some s') :
    Comes cfg rows (.deleting channelId purpose throughSeq afterSeq, s) (gc, s') := by
  induction fuel generalizing afterSeq s with
  | zero => cases h
  | succ fuel ih =>
    unfold Spool.deleteRange at h
    split at h
    · rename_i s₁ hbatch
      cases h
      refine .of_step fun now => ?_
      simp only [gcNext, hbatch, hresume]
    · rename_i s₁ last hbatch
      refine Comes.trans (.of_step fun now => ?_) (ih h)
      simp only [gcNext, hbatch]

theorem weigh_append (maxSize : ℕ) (newestSeq : Option ℕ) (ageCutoff : ℤ) (total : ℕ)
    (l l' : List Chunk) :
    weigh maxSize newestSeq ageCutoff total (l ++ l') =
      match weigh maxSize newestSeq ageCutoff total l with
      | (some cut, t) => (some cut, t)
      | (none, t) => weigh maxSize newestSeq ageCutoff t l' := by
  induction l generalizing total with
  | nil => rfl
  | cons c l ih =>
    simp only [cons_append, weigh]
    split_ifs
    · exact ih total
    · exact ih _
    · rfl
    · exact ih _

/-- What follows a walk down the whole channel. -/
def afterWalk (channelId : String) (ageCutoff : ℤ) (judged : Option Chunk) : Option ℕ → GcState
  | some cut => .deleting channelId (.others ageCutoff judged) cut firstSeq
  | none => .nextChannel channelId ageCutoff

theorem filter_lt_eq {front tail : List Chunk} {last : Chunk}
    (h : (front ++ last :: tail).Pairwise fun a b => b.seq < a.seq) :
    (front ++ last :: tail).filter (·.seq < last.seq) = tail := by
  obtain ⟨-, htail, hfront⟩ := pairwise_append.mp h
  rw [filter_append, filter_eq_nil_iff.mpr, nil_append, filter_cons_of_neg, filter_eq_self.mpr]
  · intro c hc
    simpa using (pairwise_cons.mp htail).1 c hc
  · simp
  · intro c hc
    have := hfront c hc last mem_cons_self
    simp only [decide_eq_true_eq]
    omega

/-- **The pages of a walk** are one walk over all the channel has below a number. -/
theorem comes_walk (cfg : GcConfig) (rows : OrderedMap String MetaRow) (channelId : String)
    (newestSeq : Option ℕ) (ageCutoff : ℤ) (judged : Option Chunk) (s : Spool)
    (total before : ℕ) :
    Comes cfg rows (.walk channelId newestSeq ageCutoff total before judged, s)
      (afterWalk channelId ageCutoff judged
        (weigh cfg.maxSizePerChannel newestSeq ageCutoff total
          ((s.chunks channelId).rows.filter (·.seq < before)).reverse).1, s) := by
  generalize hrest : ((s.chunks channelId).rows.filter (·.seq < before)).reverse = rest
  -- By the number of rows left: a full page leaves fewer.
  induction hn : rest.length using Nat.strong_induction_on generalizing rest total before with
  | _ n ih =>
    have hpage : s.listChunkSizesBefore channelId before walkRows = rest.take walkRows := by
      rw [← hrest]
      rfl
    have hweigh := weigh_append cfg.maxSizePerChannel newestSeq ageCutoff total
      (rest.take walkRows) (rest.drop walkRows)
    rw [take_append_drop] at hweigh
    obtain ⟨cut, t, hpageWeigh⟩ : ∃ cut t, weigh cfg.maxSizePerChannel newestSeq ageCutoff total
      (rest.take walkRows) = (cut, t) := ⟨_, _, rfl⟩
    rw [hpageWeigh] at hweigh
    cases cut with
    | some cut =>
      refine .of_step fun now => ?_
      simp only [gcNext, hpage, hpageWeigh, hweigh, afterWalk]
    | none =>
      by_cases hshort : (rest.take walkRows).length < walkRows
      · -- The last page.
        have hall : rest.drop walkRows = [] := by
          rw [length_take] at hshort
          exact drop_eq_nil_of_le (by omega)
        rw [hall] at hweigh
        refine .of_step fun now => ?_
        simp only [gcNext, hpage, hpageWeigh, hweigh, weigh, afterWalk]
        split
        · rfl
        · rw [if_pos hshort]
      · obtain ⟨last, hlast⟩ : ∃ last, (rest.take walkRows).getLast? = some last := by
          refine Option.isSome_iff_exists.mp ?_
          rw [getLast?_isSome]
          rintro hnil
          rw [hnil] at hshort
          exact hshort (by decide)
        obtain ⟨front, hfront⟩ := getLast?_eq_some_iff.mp hlast
        have hsplit : rest = front ++ last :: rest.drop walkRows := by
          conv_lhs => rw [← take_append_drop walkRows rest, hfront]
          simp
        have hsorted : rest.Pairwise fun a b => b.seq < a.seq := by
          rw [← hrest]
          exact pairwise_reverse.mpr ((s.chunks channelId).sorted.filter _)
        -- The next page begins below the last row of this one.
        have hnext : ((s.chunks channelId).rows.filter (·.seq < last.seq)).reverse =
            rest.drop walkRows := by
          have hbelow : rest.filter (·.seq < last.seq) = rest.drop walkRows := by
            conv_lhs => rw [hsplit]
            exact filter_lt_eq (hsplit ▸ hsorted)
          have hlt : last.seq < before := by
            have hmem : last ∈ rest := by rw [hsplit]; simp
            rw [← hrest, mem_reverse] at hmem
            simpa using (mem_filter.mp hmem).2
          rw [← hbelow, ← hrest, filter_reverse, filter_filter]
          congr 1
          refine filter_congr fun c _ => ?_
          rw [Bool.eq_iff_iff]
          simp only [Bool.and_eq_true, decide_eq_true_eq]
          omega
        have hfewer : (rest.drop walkRows).length < n := by
          have hlen := congrArg length hsplit
          rw [length_append, length_cons] at hlen
          omega
        rw [hweigh]
        refine Comes.trans (.of_step fun now => ?_) (ih _ hfewer t last.seq _ hnext rfl)
        simp only [gcNext, hpage, hpageWeigh, hlast, if_neg hshort]

/-! ### What is left -/

/-- The chunks behind a newest snapshot of some size are within the cap with it, and within
the age limit. -/
def WithinBounds (maxSize newestBytes : ℕ) (ageCutoff : ℤ) (l : List Chunk) : Prop :=
  newestBytes + Spool.storedBytes l ≤ maxSize ∧ ∀ c ∈ l, ageCutoff ≤ c.ts

instance (maxSize newestBytes : ℕ) (ageCutoff : ℤ) :
    DecidablePred (WithinBounds maxSize newestBytes ageCutoff) :=
  fun l => inferInstanceAs (Decidable (_ ∧ ∀ c ∈ l, ageCutoff ≤ c.ts))

/-- The chunks of a channel that are not snapshots, as far as a walk can see them. -/
def Spool.weighed (s : Spool) (channelId : String) : List Chunk :=
  (s.chunks channelId).rows.filter fun c => c.kind != .snapshot && decide (c.seq < lastSeq)

/-- The size of the newest snapshot. -/
def Spool.newestBytes (s : Spool) (channelId : String) : ℕ :=
  ((s.getLatestSnapshot channelId).map (·.dataBlob.length)).getD 0

/-- What stays of a channel when some of its other chunks are kept: these, the newest snapshot,
and what a walk cannot see. -/
def leaves (s : Spool) (channelId : String) (kept : List Chunk) (c : Chunk) : Bool :=
  decide (s.getLatestSnapshot channelId = some c) || decide (c ∈ kept) ||
    c.kind != .snapshot && decide (lastSeq ≤ c.seq)

theorem WithinBounds.of_cons {maxSize newestBytes : ℕ} {ageCutoff : ℤ} (c : Chunk)
    (l : List Chunk) (h : WithinBounds maxSize newestBytes ageCutoff (c :: l)) :
    WithinBounds maxSize newestBytes ageCutoff l := by
  obtain ⟨hsize, hage⟩ := h
  rw [Spool.storedBytes_cons] at hsize
  exact ⟨by omega, fun r hr => hage r (mem_cons_of_mem _ hr)⟩

/-- **The walk stops where the longest suffix begins.**  `done` are the chunks other than
snapshots it has gone through, and `l` is what it still has to, newest first. -/
theorem weigh_spec (maxSize newestBytes : ℕ) {newestSeq : Option ℕ} (ageCutoff : ℤ)
    {l done : List Chunk} (hnewest : ∀ c ∈ l, newestSeq = some c.seq ↔ c.kind = .snapshot)
    (hdone : done = [] ∨ WithinBounds maxSize newestBytes ageCutoff done) :
    let outputs := fun l : List Chunk => (l.filter (·.kind != .snapshot)).reverse
    let kept := (outputs l ++ done).longestSuffix (WithinBounds maxSize newestBytes ageCutoff)
    match (weigh maxSize newestSeq ageCutoff (newestBytes + Spool.storedBytes done) l).1 with
    | none => kept = outputs l ++ done
    | some cut => ∃ newer c older, l = newer ++ c :: older ∧ c.seq = cut ∧ c.kind ≠ .snapshot ∧
        kept = outputs newer ++ done := by
  intro outputs kept
  induction l generalizing done with
  | nil =>
    rcases hdone with rfl | hdone
    · rfl
    · exact longestSuffix_eq_self hdone
  | cons c l ih =>
    have htail : ∀ r ∈ l, newestSeq = some r.seq ↔ r.kind = .snapshot :=
      fun r hr => hnewest r (mem_cons_of_mem _ hr)
    by_cases hsnapshot : c.kind = .snapshot
    · have houtputs : ∀ newer, outputs (c :: newer) = outputs newer := by
        intro newer
        simp [outputs, hsnapshot]
      have hweigh : weigh maxSize newestSeq ageCutoff (newestBytes + Spool.storedBytes done)
          (c :: l) = weigh maxSize newestSeq ageCutoff (newestBytes + Spool.storedBytes done) l :=
        if_pos ((hnewest c mem_cons_self).mpr hsnapshot)
      have hkept := ih htail hdone
      simp only [kept, houtputs, hweigh]
      split
      · rename_i hcut
        simpa only [hcut] using hkept
      · rename_i cut hcut
        simp only [hcut] at hkept
        obtain ⟨newer, r, older, rfl, hseq, hkind, hkept⟩ := hkept
        exact ⟨c :: newer, r, older, rfl, hseq, hkind, by rw [houtputs]; exact hkept⟩
    · have houtputs : ∀ newer, outputs (c :: newer) = outputs newer ++ [c] := by
        intro newer
        simp [outputs, hsnapshot]
      have hnot : newestSeq ≠ some c.seq := fun h =>
        hsnapshot ((hnewest c mem_cons_self).mp h)
      have hassoc : ∀ newer, outputs (c :: newer) ++ done = outputs newer ++ (c :: done) := by
        intro newer
        rw [houtputs, append_assoc, singleton_append]
      have htotal : newestBytes + Spool.storedBytes done + c.dataBlob.length =
          newestBytes + Spool.storedBytes (c :: done) := by
        rw [Spool.storedBytes_cons]
        omega
      by_cases hbad : maxSize < newestBytes + Spool.storedBytes (c :: done) ∨ c.ts < ageCutoff
      · -- The first one that does not fit.
        have hweigh : (weigh maxSize newestSeq ageCutoff (newestBytes + Spool.storedBytes done)
            (c :: l)).1 = some c.seq := by
          rw [weigh, if_neg hnot, if_neg hsnapshot, htotal, if_pos hbad]
        have hstop : ¬WithinBounds maxSize newestBytes ageCutoff (c :: done) := by
          rintro ⟨hsize, hage⟩
          rcases hbad with hbad | hbad
          · omega
          · exact absurd (hage c mem_cons_self) (not_le.mpr hbad)
        simp only [hweigh]
        refine ⟨[], c, l, rfl, rfl, hsnapshot, ?_⟩
        simp only [kept, hassoc]
        exact longestSuffix_append_cons WithinBounds.of_cons _ hstop hdone
      · have hweigh : weigh maxSize newestSeq ageCutoff (newestBytes + Spool.storedBytes done)
            (c :: l) =
              weigh maxSize newestSeq ageCutoff
                (newestBytes + Spool.storedBytes (c :: done)) l := by
          rw [weigh, if_neg hnot, if_neg hsnapshot, htotal, if_neg hbad]
        have hmore : WithinBounds maxSize newestBytes ageCutoff (c :: done) := by
          obtain ⟨hsize, hage⟩ := not_or.mp hbad
          refine ⟨Nat.not_lt.mp hsize, fun r hr => ?_⟩
          rcases mem_cons.mp hr with rfl | hr
          · exact Int.not_lt.mp hage
          · rcases hdone with rfl | hdone
            · cases hr
            · exact hdone.2 r hr
        have hkept := ih htail (.inr hmore)
        simp only [kept, hassoc, hweigh]
        split
        · rename_i hcut
          simpa only [hcut] using hkept
        · rename_i cut hcut
          simp only [hcut] at hkept
          obtain ⟨newer, r, older, rfl, hseq, hkind, hkept⟩ := hkept
          exact ⟨c :: newer, r, older, rfl, hseq, hkind, by rw [hassoc]; exact hkept⟩

theorem comes_oldSnapshots (cfg : GcConfig) (rows : OrderedMap String MetaRow) (s : Spool)
    (channelId : String) (ageCutoff : ℤ) (judged : Option Chunk) :
    let newest := s.getLatestSnapshot channelId
    ∃ s', Comes cfg rows (.newest channelId ageCutoff judged, s)
        (.walk channelId (newest.map Chunk.seq) ageCutoff
          ((newest.map (·.dataBlob.length)).getD 0) lastSeq judged, s') ∧
      s.Keeps s' channelId fun c => c.kind != .snapshot || decide (newest = some c) := by
  intro newest
  cases hnewest : s.getLatestSnapshot channelId with
  | none =>
    have hnone : newest = none := hnewest
    rw [hnone]
    refine ⟨s, .of_step fun now => by simp only [gcNext, hnewest]; rfl, Spool.keeps_self ?_⟩
    intro c hc
    have hnil := filter_eq_nil_iff.mp (getLast?_eq_none_iff.mp hnewest) c hc
    simpa using hnil
  | some n =>
    have hsome : newest = some n := hnewest
    rw [hsome]
    obtain ⟨hmem, -, hmax⟩ := (UniqueIndex.latest_eq_some_iff _ _ _).mp hnewest
    let purpose : Purpose := .oldSnapshots n.seq n.dataBlob.length ageCutoff judged
    obtain ⟨s', hs', hkeeps⟩ := Spool.deleteRange_keeps deleteBatch (by decide)
      channelId purpose.kinds (n.seq - 1) _ firstSeq s (Nat.lt_succ_self _)
    refine ⟨s', Comes.trans (.of_step fun now => ?_)
      (comes_deleteRange cfg rows purpose (fun now => rfl) hs'), hkeeps.congr ?_⟩
    · simp only [gcNext, hnewest]
      rfl
    · intro c hc
      have hfirst : firstSeq < c.seq := by
        unfold firstSeq
        omega
      -- A snapshot that is not below the newest is the newest.
      have hiff : c.kind = .snapshot → ((c.seq : ℤ) ≤ n.seq - 1 ↔ ¬n = c) := by
        intro hkind
        have hle := hmax c hc (by simp [hkind])
        constructor
        · rintro hlt rfl
          omega
        · intro hne
          have hseq : c.seq ≠ n.seq := fun h => hne
            ((s.chunks channelId).eq_of_key_eq hc hmem h).symm
          omega
      by_cases hkind : c.kind = .snapshot
      · simp [Spool.inRange, purpose, Purpose.kinds, ChunkKinds.picks, hfirst, hkind, hiff hkind]
      · have hother : (c.kind == .snapshot) = false := by simpa using hkind
        simp [Spool.inRange, purpose, Purpose.kinds, ChunkKinds.picks, hother, bne]

theorem and_eq_leaves (s : Spool) (channelId : String) {kept : List Chunk}
    (hkept : kept <:+ s.weighed channelId) {c : Chunk} {b : Bool}
    (hsnapshot : c.kind = .snapshot → b = true)
    (hother : c.kind ≠ .snapshot → (b = true ↔ lastSeq ≤ c.seq ∨ c ∈ kept)) :
    ((c.kind != .snapshot || decide (s.getLatestSnapshot channelId = some c)) && b) =
      leaves s channelId kept c := by
  by_cases hkind : c.kind = .snapshot
  · have hnot : c ∉ kept := by
      intro hc
      have := (mem_filter.mp (hkept.subset hc)).2
      simp [hkind] at this
    simp [leaves, hkind, hnot, hsnapshot hkind]
  · have hnot : s.getLatestSnapshot channelId ≠ some c := by
      intro hnewest
      obtain ⟨-, hsnap, -⟩ := (UniqueIndex.latest_eq_some_iff _ _ _).mp hnewest
      exact hkind (by simpa using hsnap)
    have hb := hother hkind
    rw [Bool.eq_iff_iff]
    simp [leaves, hkind, hnot, hb, or_comm]

/-- **One channel.**  The steps end, and leave its newest snapshot and the longest suffix of
its other chunks that is within the bounds. -/
theorem comes_newest (cfg : GcConfig) (rows : OrderedMap String MetaRow) (s : Spool)
    (channelId : String) (ageCutoff : ℤ) (judged : Option Chunk) :
    ∃ s', Comes cfg rows (.newest channelId ageCutoff judged, s)
        (.nextChannel channelId ageCutoff, s') ∧
      s.Keeps s' channelId (leaves s channelId ((s.weighed channelId).longestSuffix
        (WithinBounds cfg.maxSizePerChannel (s.newestBytes channelId) ageCutoff))) := by
  obtain ⟨s₁, hcomes, hkeeps⟩ := comes_oldSnapshots cfg rows s channelId ageCutoff judged
  have hlongest := (s.weighed channelId).longestSuffix_suffix (p := WithinBounds
    cfg.maxSizePerChannel (s.newestBytes channelId) ageCutoff)
  generalize hnewest : s.getLatestSnapshot channelId = newest at hcomes hkeeps
  let newestBytes := (newest.map (·.dataBlob.length)).getD 0
  let l := ((s₁.chunks channelId).rows.filter (·.seq < lastSeq)).reverse
  have hmemRows : ∀ c, c ∈ (s₁.chunks channelId).rows ↔
      c ∈ (s.chunks channelId).rows ∧ (c.kind = .snapshot → newest = some c) := by
    intro c
    simp [hkeeps.rows, mem_filter, or_iff_not_imp_left]
  -- The newest is the only snapshot the walk comes by.
  have hsnapshot : ∀ c ∈ l, newest.map Chunk.seq = some c.seq ↔ c.kind = .snapshot := by
    intro c hc
    have hrow := (hmemRows c).mp (mem_of_mem_filter (mem_reverse.mp hc))
    constructor
    · intro hseq
      cases hn : newest with
      | none => simp [hn] at hseq
      | some n =>
        rw [hn] at hnewest hseq
        obtain ⟨hmem, hkind, -⟩ := (UniqueIndex.latest_eq_some_iff _ _ _).mp hnewest
        obtain rfl := (s.chunks channelId).eq_of_key_eq hmem hrow.1 (by simpa using hseq)
        simpa using hkind
    · intro hkind
      rw [hrow.2 hkind]
      rfl
  have hweighed : (l.filter (·.kind != .snapshot)).reverse = s.weighed channelId := by
    simp only [l, filter_reverse, reverse_reverse, hkeeps.rows, filter_filter, Spool.weighed]
    refine filter_congr fun c _ => ?_
    cases c.kind != .snapshot <;> simp
  have hspec := weigh_spec cfg.maxSizePerChannel newestBytes ageCutoff hsnapshot (.inl rfl)
  have hwalk := comes_walk cfg rows channelId (newest.map Chunk.seq) ageCutoff judged s₁
    newestBytes lastSeq
  simp only [append_nil, Spool.storedBytes_nil, Nat.add_zero, hweighed] at hspec
  have hbytes : newestBytes = s.newestBytes channelId := by rw [Spool.newestBytes, hnewest]
  cases hcut : (weigh cfg.maxSizePerChannel (newest.map Chunk.seq) ageCutoff newestBytes l).1 with
  | none =>
    rw [hcut] at hwalk hspec
    refine ⟨s₁, hcomes.trans hwalk, hkeeps.congr fun c hc => ?_⟩
    rw [← hnewest, ← and_eq_leaves s channelId hlongest (b := true) (fun _ => rfl),
      Bool.and_true]
    intro hkind
    rw [← hbytes, hspec]
    simp [Spool.weighed, hc, hkind, le_or_gt]
  | some cut =>
    rw [hcut] at hwalk hspec
    obtain ⟨newer, x, older, hl, rfl, hx, hsuffix⟩ := hspec
    obtain ⟨s', hs', hkeeps'⟩ := Spool.deleteRange_keeps deleteBatch (by decide)
      channelId .others x.seq _ firstSeq s₁ (Nat.lt_succ_self _)
    have hdelete := comes_deleteRange cfg rows (.others ageCutoff judged)
      (fun _ => rfl) hs'
    refine ⟨s', (hcomes.trans hwalk).trans hdelete,
      (hkeeps.trans hkeeps').congr fun c hc => ?_⟩
    have hsorted : l.Pairwise fun a b => b.seq < a.seq :=
      pairwise_reverse.mpr ((s₁.chunks channelId).sorted.filter _)
    rw [hl] at hsorted
    obtain ⟨-, holder, hnewer⟩ := pairwise_append.mp hsorted
    have hfirst : firstSeq < c.seq := by
      unfold firstSeq
      omega
    rw [← hnewest]
    refine and_eq_leaves s channelId hlongest (fun hkind => ?_) (fun hkind => ?_)
    · simp [Spool.inRange, ChunkKinds.picks, hkind]
    · have hxl : x ∈ l := by rw [hl]; simp
      have hxlast : x.seq < lastSeq := by
        simpa using (mem_filter.mp (mem_reverse.mp hxl)).2
      rw [← hbytes, hsuffix]
      simp only [Spool.inRange, ChunkKinds.picks, hfirst, decide_true, Bool.true_and, bne,
        mem_reverse, mem_filter]
      have hother : (c.kind == .snapshot) = false := by simpa using hkind
      simp only [hother, Bool.not_false, Bool.and_true, Bool.not_eq_true',
        decide_eq_false_iff_not, Int.ofNat_le, and_true]
      constructor
      · intro habove
        refine or_iff_not_imp_left.mpr fun hlt => ?_
        have hcl : c ∈ l := mem_reverse.mpr (mem_filter.mpr
          ⟨(hmemRows c).mpr ⟨hc, fun h => absurd h hkind⟩, by simpa using hlt⟩)
        rw [hl] at hcl
        rcases mem_append.mp hcl with hin | hin
        · exact hin
        · rcases mem_cons.mp hin with rfl | hin
          · omega
          · have := (pairwise_cons.mp holder).1 c hin
            omega
      · rintro (hlast | hin)
        · omega
        · have := hnewer c hin x mem_cons_self
          omega

/-! ### The pages given back -/

/-- The loop of `vacuum` over what each `incrementalVacuum` answers; none when the fuel has
run out. -/
def vacuum (answer : ℕ → ℕ) : ℕ → ℕ → Option ℕ → Option ℕ
  | 0, _, _ => none
  | fuel + 1, call, before =>
    let free := answer call
    if free = 0 ∨ before.any (fun before => decide (before ≤ free)) then some free
    else vacuum answer fuel (call + 1) (some free)

theorem vacuum_stops (answer : ℕ → ℕ) {fuel free : ℕ} (call : ℕ) (h : free < fuel) :
    (vacuum answer fuel call (some free)).isSome := by
  induction fuel generalizing free call with
  | zero => exact absurd h (Nat.not_lt_zero _)
  | succ fuel ih =>
    unfold vacuum
    dsimp only
    split_ifs with hstop
    · rfl
    · have hfewer : answer call < free := by
        have := (not_or.mp hstop).2
        simpa using this
      exact ih (call + 1) (by omega)

/-- The steps that collect a channel end and leave exactly its newest snapshot and the longest
suffix of its other chunks that is within the bounds; a range is emptied in batches that are
bounded, and its loop ends; and so does the one that gives pages back. -/
theorem collect_channel :
    (∀ cfg rows s channelId ageCutoff judged, ∃ s' kept,
      Comes cfg rows (.newest channelId ageCutoff judged, s)
        (.nextChannel channelId ageCutoff, s') ∧
      s.Keeps s' channelId (leaves s channelId kept) ∧
      let within := WithinBounds cfg.maxSizePerChannel (s.newestBytes channelId) ageCutoff
      kept <:+ s.weighed channelId ∧ (kept = [] ∨ within kept) ∧
        ∀ l, l <:+ s.weighed channelId → within l → l <:+ kept) ∧
    (∀ maxRows maxBytes channelId kinds throughSeq afterSeq s,
      let limits : ChunkBatchLimits := ⟨maxRows + 1, maxBytes⟩
      (∃ s', Spool.deleteRange limits channelId kinds throughSeq
          ((s.chunks channelId).rows.length + 1) afterSeq s = some s' ∧
        s.Keeps s' channelId fun c => !Spool.inRange afterSeq throughSeq kinds c) ∧
      ∃ batch, batch <+: (s.chunks channelId).rows.filter
          (Spool.inRange afterSeq throughSeq kinds) ∧
        batch.length ≤ limits.maxRows ∧
        (batch.length ≤ 1 ∨ Spool.storedBytes batch.dropLast < limits.maxBytes) ∧
        s.Keeps (s.deleteChunkBatch channelId afterSeq throughSeq kinds limits).1 channelId
          fun c => decide (c ∉ batch)) ∧
    ∀ answer : ℕ → ℕ, (vacuum answer (answer 0 + 2) 0 none).isSome := by
  refine ⟨fun cfg rows s channelId ageCutoff judged => ?_,
    fun maxRows maxBytes channelId kinds throughSeq afterSeq s => ⟨?_, ?_⟩, fun answer => ?_⟩
  · obtain ⟨s', hcomes, hkeeps⟩ := comes_newest cfg rows s channelId ageCutoff judged
    refine ⟨s', _, hcomes, hkeeps, longestSuffix_suffix _, longestSuffix_passes _, ?_⟩
    intro l hl hwithin
    exact suffix_longestSuffix_of_suffix hl hwithin
  · exact Spool.deleteRange_keeps _ (Nat.succ_pos _) channelId kinds throughSeq _ afterSeq s
      (Nat.lt_succ_self _)
  · exact s.deleteChunkBatch_bounded channelId afterSeq throughSeq kinds ⟨maxRows + 1, maxBytes⟩
  · unfold vacuum
    dsimp only
    split_ifs
    · rfl
    · exact vacuum_stops answer 1 (Nat.lt_succ_self _)

/-- A channel with a snapshot of one byte and one byte of output behind it. -/
def snapshotAndOutput : Spool :=
  Spool.empty.put "c" ⟨[⟨0, 1, 0, .snapshot, [83]⟩, ⟨1, 2, 0, .output, [79]⟩], by decide⟩ 2
    (Nat.zero_le _) (by decide)

/-- With a cap of one byte the output fits the cap and is within the age limit, but not with
the snapshot counted: it goes. -/
theorem snapshot_counted :
    let cfg : GcConfig := ⟨0, 1⟩
    let output : Chunk := ⟨1, 2, 0, .output, [79]⟩
    snapshotAndOutput.weighed "c" = [output] ∧
      Spool.storedBytes [output] ≤ cfg.maxSizePerChannel ∧ 0 ≤ output.ts ∧
      ∃ s', Comes cfg .empty (.newest "c" 0 none, snapshotAndOutput) (.nextChannel "c" 0, s') ∧
        output ∉ (s'.chunks "c").rows := by
  intro cfg output
  refine ⟨by decide, by decide, by decide, ?_⟩
  obtain ⟨s', hcomes, hkeeps⟩ := comes_newest cfg .empty snapshotAndOutput "c" 0 none
  refine ⟨s', hcomes, ?_⟩
  rw [hkeeps.rows]
  decide

end Lasterm.Hub
