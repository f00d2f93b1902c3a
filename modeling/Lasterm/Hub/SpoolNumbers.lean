import Lasterm.Hub.SpoolGc

/-!
# The numbers of a channel's chunks

The chunker counts for itself, and a snapshot takes the highest number stored; both must
never use a number twice.  What carries it is that the counter of a tracked channel is above
every chunk stored (`countersAbove_of_run`).

When a channel is tracked again its counter starts behind the highest number *stored*.  What
the collector has deleted meanwhile is forgotten, so the numbers may start again from one.

## Main definitions

* `Numbered`, `Kept` — what the numbers and the chunks are to be.

## Main results

* `output_numbered_and_kept` — in every run.
* `numbers_start_again_after_a_pass` — what is not promised.
-/

namespace Lasterm.Hub

open Transition SpoolStore List

/-! ### What the notes say -/

/-- The numbers given to the chunks of output, in the order in which they were given. -/
def given (log : List Entry) : List ℕ :=
  log.filterMap fun
    | .output seq _ => some seq
    | _ => none

/-- Those given since the channel was last tracked. -/
def givenSinceTracked (log : List Entry) : List ℕ :=
  log.foldl (fun ns e =>
    match e with
    | .tracked => []
    | .output seq _ => ns ++ [seq]
    | _ => ns) []

/-- The output received while the channel was tracked. -/
def received (log : List Entry) : List UInt8 :=
  log.flatMap fun
    | .received data => data
    | _ => []

/-- The output stored, in the order of the numbers. -/
def outputBytes (t : ChannelChunks) : List UInt8 :=
  (t.rows.filter (·.kind == .output)).flatMap Chunk.dataBlob

/-- The output in the buffer. -/
def buffered (buffer : Option ChannelBuffer) : List UInt8 :=
  (buffer.map fun buf => buf.chunks.flatten).getD []

theorem given_append (log : List Entry) (e : Entry) :
    given (log ++ [e]) = given log ++ (match e with | .output seq _ => [seq] | _ => []) := by
  unfold given
  rw [filterMap_append]
  cases e <;> rfl

theorem givenSinceTracked_append (log : List Entry) (e : Entry) :
    givenSinceTracked (log ++ [e]) =
      match e with
      | .tracked => []
      | .output seq _ => givenSinceTracked log ++ [seq]
      | _ => givenSinceTracked log := by
  unfold givenSinceTracked
  rw [foldl_append]
  cases e <;> rfl

theorem received_append (log : List Entry) (e : Entry) :
    received (log ++ [e]) = received log ++ (match e with | .received data => data | _ => []) := by
  unfold received
  rw [flatMap_append]
  cases e <;> simp

theorem outputBytes_of_rows {t t' : ChannelChunks} {c : Chunk} (h : t'.rows = t.rows ++ [c])
    (hkind : c.kind = .output) : outputBytes t' = outputBytes t ++ c.dataBlob := by
  unfold outputBytes
  rw [h, filter_append, flatMap_append]
  simp [hkind]

variable {n : ℕ}

theorem pairwise_snoc {ns : List ℕ} (h : ns.Pairwise (· < ·)) (hn : ∀ m ∈ ns, m < n) :
    (ns ++ [n]).Pairwise (· < ·) := by
  refine pairwise_append.mpr ⟨h, pairwise_singleton _ n, ?_⟩
  intro m hm k hk
  obtain rfl : k = n := by simpa using hk
  exact hn m hm

/-! ### One effect -/

/-- Numbers that increase, with the counter of the buffer above them. -/
structure Counted (buffer : Option ChannelBuffer) (ns : List ℕ) : Prop where
  increasing : ns.Pairwise (· < ·)
  below : ∀ buf ∈ buffer, ∀ n ∈ ns, n < buf.nextSeq

variable {v v' : View}

/-- Only a chunk of output adds to the numbers that are read from the notes, and only tracking
the channel anew may take some away. -/
theorem Counted.effect {numbers : List Entry → List ℕ}
    (hnumbers : ∀ log e, e ≠ .tracked → numbers (log ++ [e]) = numbers log ++ given [e])
    (h : Counted v.buffer (numbers v.log))
    (heffect : SpoolStore.Effect n v v') : Counted v'.buffer (numbers v'.log) := by
  cases heffect with
  | @timer buf b hbuf =>
    refine ⟨h.increasing, ?_⟩
    rintro buf' ⟨⟩
    exact h.below buf hbuf
  | @received buf data hbuf =>
    have hsame : numbers (v.log ++ [.received data]) = numbers v.log :=
      (hnumbers v.log (.received data) nofun).trans (append_nil _)
    show Counted _ (numbers (v.log ++ [.received data]))
    rw [hsame]
    refine ⟨h.increasing, ?_⟩
    rintro buf' ⟨⟩
    exact h.below buf hbuf
  | @output buf c t hbuf hbytes hid hkind hdata hseq hpos habove hrows =>
    have hbelow := h.below buf hbuf
    have hmore : numbers (v.log ++ [.output c.seq c.dataBlob]) = numbers v.log ++ [c.seq] :=
      hnumbers v.log (.output c.seq c.dataBlob) nofun
    show Counted _ (numbers (v.log ++ [.output c.seq c.dataBlob]))
    rw [hmore]
    refine ⟨pairwise_snoc h.increasing fun m hm => (hbelow m hm).trans_eq hseq.symm, ?_⟩
    rintro buf' ⟨⟩ m hm
    simp only [mem_append, mem_singleton] at hm
    rcases hm with hm | rfl
    · exact Nat.lt_succ_of_lt (hbelow m hm)
    · exact (Nat.lt_succ_self _).trans_le (Nat.succ_le_succ hseq.le)
  | @snapshot c t hbytes hid hkind hpos habove hrows =>
    have hsame : numbers (v.log ++ [.snapshot c.dataBlob]) = numbers v.log :=
      (hnumbers v.log (.snapshot c.dataBlob) nofun).trans (append_nil _)
    show Counted _ (numbers (v.log ++ [.snapshot c.dataBlob]))
    rw [hsame]
    refine ⟨h.increasing, ?_⟩
    intro buf' hbuf' m hm
    obtain ⟨buf, hbuf, rfl⟩ := Option.map_eq_some_iff.mp hbuf'
    exact lt_max_of_lt_left (h.below buf hbuf m hm)
  | untracked hbuf hbytes => exact ⟨h.increasing, nofun⟩

/-! ### In every run -/

/-- Nothing was refused, and the numbers given since the channel was tracked increase and are
below its counter. -/
structure Numbered (v : View) : Prop where
  accepted : .refused ∉ v.log
  increasing : (givenSinceTracked v.log).Pairwise (· < ·)
  below : ∀ buf ∈ v.buffer, ∀ n ∈ givenSinceTracked v.log, n < buf.nextSeq

theorem Numbered.tracked (h : Numbered v) : Numbered v.tracked where
  accepted := by simpa [View.tracked] using h.accepted
  increasing := by simp [View.tracked, givenSinceTracked_append]
  below := by simp [View.tracked, givenSinceTracked_append]

theorem Numbered.effect (h : Numbered v) (heffect : SpoolStore.Effect n v v') : Numbered v' := by
  have hcounted : Counted v'.buffer (givenSinceTracked v'.log) := by
    refine Counted.effect (fun log e he => ?_) ⟨h.increasing, h.below⟩ heffect
    cases e <;> simp_all [givenSinceTracked_append, given]
  refine ⟨?_, hcounted.increasing, hcounted.below⟩
  have haccepted := h.accepted
  cases heffect <;> simpa using haccepted

theorem Numbered.effects (h : Numbered v) (heffects : Effects n v v') : Numbered v' := by
  induction heffects with
  | refl => exact h
  | tail _ hlast ih => exact ih.effect hlast

/-! ### While what is numbered stays -/

/-- All the numbers given increase, and the counter is above them. -/
structure Increasing (v : View) : Prop where
  increasing : (given v.log).Pairwise (· < ·)
  below : ∀ buf ∈ v.buffer, ∀ n ∈ given v.log, n < buf.nextSeq

theorem Increasing.tracked (h : Increasing v)
    (hstored : ∀ n ∈ given v.log, n ≤ v.chunks.maxKey) : Increasing v.tracked := by
  have hgiven : given v.tracked.log = given v.log := by
    simp [View.tracked, given_append]
  refine ⟨by rw [hgiven]; exact h.increasing, ?_⟩
  rintro buf ⟨⟩ n hn
  rw [hgiven] at hn
  exact Nat.lt_succ_of_le (hstored n hn)

theorem Increasing.effect (h : Increasing v) (heffect : SpoolStore.Effect n v v') :
    Increasing v' := by
  have hcounted : Counted v'.buffer (given v'.log) :=
    Counted.effect (fun _ _ _ => filterMap_append ..) ⟨h.increasing, h.below⟩ heffect
  exact ⟨hcounted.increasing, hcounted.below⟩

theorem Increasing.effects (h : Increasing v) (heffects : Effects n v v') : Increasing v' := by
  induction heffects with
  | refl => exact h
  | tail _ hlast ih => exact ih.effect hlast

/-! ### While the collector deletes nothing -/

/-- What is stored and buffered is what there was before and what was received, and every
number given is still stored, or a higher one. -/
structure Kept (before : List UInt8) (v : View) : Prop where
  content : outputBytes v.chunks ++ buffered v.buffer = before ++ received v.log
  /-- The highest number stored is not below one given. -/
  stored : ∀ n ∈ given v.log, n ≤ v.chunks.maxKey

variable {before : List UInt8}

theorem Kept.tracked (h : Kept before v) (hbuf : v.buffer = none) : Kept before v.tracked where
  content := by
    have hcontent := h.content
    rw [hbuf] at hcontent
    simpa [View.tracked, received_append, buffered] using hcontent
  stored := by simpa [View.tracked, given_append] using h.stored

theorem outputBytes_of_snapshot {t : ChannelChunks} {c : Chunk} (hkind : c.kind = .snapshot)
    (hrows : t.rows = v.chunks.rows.filter (fun r => decide (v.newest ≠ some r)) ++ [c]) :
    outputBytes t = outputBytes v.chunks := by
  have hkept : ∀ r ∈ v.chunks.rows,
      ((r.kind == .output) && decide (v.newest ≠ some r)) = (r.kind == .output) := by
    intro r hr
    by_cases hout : r.kind = .output
    · -- The row that goes is a snapshot.
      have hne : v.newest ≠ some r := by
        intro hnewest
        have hsnapshot := ((UniqueIndex.latest_eq_some_iff _ _ _).mp hnewest).2.1
        simp [hout] at hsnapshot
      simp [hout, hne]
    · simp [hout]
  unfold outputBytes
  rw [hrows, filter_append, filter_filter, filter_congr hkept]
  simp [hkind]

theorem Kept.effect (h : Kept before v) (heffect : SpoolStore.Effect n v v') : Kept before v' := by
  have hcontent := h.content
  cases heffect with
  | @timer buf b hbuf =>
    rw [hbuf] at hcontent
    exact ⟨hcontent, h.stored⟩
  | @received buf data hbuf =>
    rw [hbuf] at hcontent
    refine ⟨?_, by simpa [given_append] using h.stored⟩
    simp only [received_append, ← append_assoc, ← hcontent]
    simp [buffered]
  | @output buf c t hbuf hbytes hid hkind hdata hseq hpos habove hrows =>
    rw [hbuf] at hcontent
    refine ⟨?_, ?_⟩
    · simp only [received_append, outputBytes_of_rows hrows hkind, hdata]
      simpa [buffered] using hcontent
    · intro m hm
      rw [UniqueIndex.maxKey_of_snoc hrows]
      simp only [given_append, mem_append, mem_singleton] at hm
      rcases hm with hm | rfl
      · exact (h.stored m hm).trans (UniqueIndex.maxKey_le_of_above _ habove)
      · exact le_rfl
  | @snapshot c t hbytes hid hkind hpos habove hrows =>
    refine ⟨?_, ?_⟩
    · simp only [received_append, outputBytes_of_snapshot hkind hrows]
      have hbuffered : ∀ b : Option ChannelBuffer, buffered (b.map fun buf =>
          { buf with nextSeq := max buf.nextSeq (c.seq + 1) }) = buffered b := by
        intro b
        cases b <;> rfl
      rw [hbuffered, hcontent, append_nil]
    · intro m hm
      rw [UniqueIndex.maxKey_of_snoc hrows]
      simp only [given_append, append_nil] at hm
      exact (h.stored m hm).trans (UniqueIndex.maxKey_le_of_above _ habove)
  | @untracked buf hbuf hbytes =>
    have hempty : buf.chunks.flatten = [] := length_eq_zero_iff.mp hbytes
    rw [hbuf] at hcontent
    refine ⟨?_, h.stored⟩
    simpa [buffered, hempty] using hcontent

theorem Kept.effects (h : Kept before v) (heffects : Effects n v v') : Kept before v' := by
  induction heffects with
  | refl => exact h
  | tail _ hlast ih => exact ih.effect hlast

/-! ### Over runs -/

namespace HubStorage

/-- A channel is tracked again only while the highest number given to its output is still
stored, or a higher one. -/
def Resumes (s : HubStorage) : Step → Prop
  | .trackChannel channelId => (s.store.buffers.get channelId).isSome ∨
      ∀ n ∈ given (s.store.log channelId), n ≤ s.spool.getMaxSeq channelId
  | _ => True

/-- The collector does not run. -/
def NoGc (_ : HubStorage) : Step → Prop
  | .gc _ => False
  | _ => True

instance (s : HubStorage) : DecidablePred s.Resumes
  | .trackChannel channelId => inferInstanceAs (Decidable ((s.store.buffers.get channelId).isSome ∨
      ∀ n ∈ given (s.store.log channelId), n ≤ s.spool.getMaxSeq channelId))
  | .onOutput _ _ _ | .flushTimer _ _ | .untrackChannel _ _ | .storeSnapshot _ _ _ _ _
  | .createChannel _ _ | .updateChannel _ _ | .deleteRows _ | .purgeChannels _ | .collect
  | .gcStart _ | .gc _ | .gcEnd => .isTrue trivial

instance (s : HubStorage) : DecidablePred s.NoGc
  | .gc _ => .isFalse id
  | .trackChannel _ | .onOutput _ _ _ | .flushTimer _ _ | .untrackChannel _ _
  | .storeSnapshot _ _ _ _ _ | .createChannel _ _ | .updateChannel _ _ | .deleteRows _
  | .purgeChannels _ | .collect | .gcStart _ | .gcEnd => .isTrue trivial

variable {cfg : GcConfig} {s s' : HubStorage} {a : Step} {channelId : String}

theorem step_numbered (habove : s.CountersAbove) (h : s.step cfg a = some s')
    (hs : Numbered (s.store.view channelId)) : Numbered (s'.store.view channelId) := by
  rcases step_view habove h channelId with hsame | ⟨-, -, hview⟩ | ⟨-, heffects⟩ |
    ⟨now, purpose, throughSeq, afterSeq, c, hc, -, -, -, hview⟩
  · rwa [hsame]
  · rw [hview]
    exact hs.tracked
  · exact hs.effects heffects
  · rw [hview]
    exact ⟨hs.accepted, hs.increasing, hs.below⟩

theorem step_increasing (habove : s.CountersAbove) (h : s.step cfg a = some s')
    (hok : s.Resumes a) (hs : Increasing (s.store.view channelId)) :
    Increasing (s'.store.view channelId) := by
  rcases step_view habove h channelId with hsame | ⟨rfl, hnone, hview⟩ | ⟨-, heffects⟩ |
    ⟨now, purpose, throughSeq, afterSeq, c, hc, -, -, -, hview⟩
  · rwa [hsame]
  · rw [hview]
    refine hs.tracked (hok.resolve_left ?_)
    have hbuf : s.store.buffers.get channelId = none := hnone
    simp [hbuf]
  · exact hs.effects heffects
  · rw [hview]
    exact ⟨hs.increasing, hs.below⟩

theorem step_kept (habove : s.CountersAbove) (h : s.step cfg a = some s') (hok : s.NoGc a)
    (hs : Kept before (s.store.view channelId)) : Kept before (s'.store.view channelId) := by
  rcases step_view habove h channelId with hsame | ⟨-, hnone, hview⟩ | ⟨-, heffects⟩ |
    ⟨now, purpose, throughSeq, afterSeq, c, hc, rfl, -⟩
  · rwa [hsame]
  · rw [hview]
    exact hs.tracked hnone
  · exact hs.effects heffects
  · exact hok.elim

theorem resumes_of_kept (hok : s.NoGc a)
    (hs : ∀ channelId, ∃ before, Kept before (s.store.view channelId)) : s.Resumes a := by
  cases a with
  | trackChannel channelId =>
    obtain ⟨before, hkept⟩ := hs channelId
    exact .inr hkept.stored
  | gc now => exact hok.elim
  | onOutput | flushTimer | untrackChannel | storeSnapshot | createChannel | updateChannel
  | deleteRows | purgeChannels | collect | gcStart | gcEnd => trivial

end HubStorage

open HubStorage

/-- **The numbers and the content of a channel.**  Whatever the order of output, flushes,
snapshots, tracking and deletions, no number is refused; the numbers given since a channel was
tracked increase; and while it is tracked the next one is above all of them and above every
chunk stored.  All the numbers ever given increase as long as the channel is tracked again
only while the highest is stored.  Where the collector did not run they do, and the output
stored and then the output buffered are the output stored before and then the output
received. -/
theorem output_numbered_and_kept {cfg : GcConfig} {spool : Spool}
    {rows : OrderedMap String MetaRow} {s : HubStorage} (channelId : String) :
    (Run (step cfg) free (init spool rows) s →
      .refused ∉ s.store.log channelId ∧
      (givenSinceTracked (s.store.log channelId)).Pairwise (· < ·) ∧
      ∀ buf, s.store.buffers.get channelId = some buf →
        (∀ c ∈ (s.spool.chunks channelId).rows, c.seq < buf.nextSeq) ∧
        ∀ n ∈ givenSinceTracked (s.store.log channelId), n < buf.nextSeq) ∧
    (Run (step cfg) Resumes (init spool rows) s →
      (given (s.store.log channelId)).Pairwise (· < ·)) ∧
    (Run (step cfg) NoGc (init spool rows) s →
      (given (s.store.log channelId)).Pairwise (· < ·) ∧
      outputBytes (s.spool.chunks channelId) ++ buffered (s.store.buffers.get channelId) =
        outputBytes (spool.chunks channelId) ++ received (s.store.log channelId)) := by
  have hstart : ∀ ch, Increasing ((init spool rows).store.view ch) :=
    fun _ => ⟨Pairwise.nil, nofun⟩
  have habove₀ : (init spool rows).CountersAbove := init_countersAbove spool rows
  refine ⟨?_, ?_, ?_⟩
  · intro h
    have hnumbered : Numbered (s.store.view channelId) := by
      refine (h.invariant (I := fun s => s.CountersAbove ∧ Numbered (s.store.view channelId))
        ⟨habove₀, ⟨not_mem_nil, Pairwise.nil, fun _ _ _ => (absurd · not_mem_nil)⟩⟩
        ?_).2
      intro s a s' hs _ hn
      exact ⟨step_countersAbove hs.1 hn, step_numbered hs.1 hn hs.2⟩
    refine ⟨hnumbered.accepted, hnumbered.increasing, fun buf hbuf => ⟨?_, ?_⟩⟩
    · exact (countersAbove_of_run h channelId buf hbuf).2
    · exact hnumbered.below buf hbuf
  · intro h
    refine (h.invariant (I := fun s => s.CountersAbove ∧ Increasing (s.store.view channelId))
      ⟨habove₀, hstart channelId⟩ ?_).2.increasing
    intro s a s' hs hok hn
    exact ⟨step_countersAbove hs.1 hn, step_increasing hs.1 hn hok hs.2⟩
  · intro h
    have hinv := h.invariant (I := fun s => s.CountersAbove ∧
      (∀ ch, Kept (outputBytes (spool.chunks ch)) (s.store.view ch)) ∧
      Increasing (s.store.view channelId)) ?_ ?_
    · exact ⟨hinv.2.2.increasing, (hinv.2.1 channelId).content⟩
    · exact ⟨habove₀, fun ch => ⟨rfl, nofun⟩, hstart channelId⟩
    · intro s a s' hs hok hn
      have hresumes : s.Resumes a := resumes_of_kept hok fun ch => ⟨_, hs.2.1 ch⟩
      exact ⟨step_countersAbove hs.1 hn, fun ch => step_kept hs.1 hn hok (hs.2.1 ch),
        step_increasing hs.1 hn hresumes hs.2.2⟩

/-- Output, a snapshot, output: a chunk, the snapshot behind it, and the rest in the
buffer. -/
theorem output_around_a_snapshot :
    ∃ s, exec (step ⟨0, 1024⟩) (init .empty .empty) [.trackChannel "a",
        .onOutput "a" [1, 2] ⟨0, true⟩, .storeSnapshot "a" [7] 0 ⟨0, true⟩ ⟨0, true⟩,
        .onOutput "a" [3] ⟨0, true⟩] = some s ∧
      given (s.store.log "a") = [1] ∧ .refused ∉ s.store.log "a" ∧
      (given (s.store.log "a")).Pairwise (· < ·) ∧
      outputBytes (s.spool.chunks "a") ++ buffered (s.store.buffers.get "a") = [1, 2, 3] := by
  refine ⟨_, (Option.some_get (by decide +kernel)).symm, by decide +kernel, ?_, ?_, ?_⟩
  · exact ((output_numbered_and_kept "a").1 (.of_exec_free _ (Option.some_get _).symm)).1
  · exact (output_numbered_and_kept "a").2.1
      (.of_exec _ (by decide +kernel) (Option.some_get _).symm)
  · exact ((output_numbered_and_kept "a").2.2
      (.of_exec _ (by decide +kernel) (Option.some_get _).symm)).2.trans (by decide +kernel)

/-- A channel dies, a pass empties it past its retention, and it is brought back: its output
is numbered from one again. -/
theorem numbers_start_again_after_a_pass :
    ¬∀ s, Run (step ⟨0, 1024⟩) free (init .empty .empty) s →
      (given (s.store.log "a")).Pairwise (· < ·) := by
  intro h
  exact absurd (h _ (.get_free [.createChannel "a" ⟨false, 0⟩, .trackChannel "a",
    .onOutput "a" [1] ⟨0, true⟩, .untrackChannel "a" ⟨0, true⟩, .updateChannel "a" ⟨true, 1⟩,
    .collect, .gcStart 2, .gc 2, .gc 2, .gc 2, .gc 2, .gc 2, .gc 2,
    .updateChannel "a" ⟨false, 3⟩, .trackChannel "a", .onOutput "a" [2] ⟨3, true⟩,
    .flushTimer "a" ⟨4, true⟩] (by decide +kernel))) (by decide +kernel)

end Lasterm.Hub
