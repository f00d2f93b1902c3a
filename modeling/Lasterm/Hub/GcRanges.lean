import Lasterm.Hub.SpoolGc
import Mathlib.Tactic.Linarith

/-!
# What the collector's ranges hold

A range is fixed in one step and deleted in later ones, and chunks are stored in between.
What makes that safe is that a new chunk is always above the ones stored: as long as a range
has a chunk left, what is stored meanwhile lies above it.

## Main results

* `gcFits_of_run` — **it holds in every run.**
-/

namespace Lasterm.Hub

open Transition SpoolStore Option List

/-! ### How a channel grows -/

/-- A channel has one more chunk, with an id from `n` on and above the others; only its
newest snapshot may be gone, for a snapshot. -/
structure Grown (n : ℕ) (t t' : ChannelChunks) (c : Chunk) : Prop where
  id_ge : n ≤ c.id
  pos : 0 < c.seq
  above : ∀ r ∈ t.rows, r.seq < c.seq
  mem : c ∈ t'.rows
  old : ∀ r ∈ t'.rows, r ∈ t.rows ∨ r = c
  /-- What was there is there, the newest snapshot apart. -/
  kept : ∀ r ∈ t.rows, r ∈ t'.rows ∨ t.latest (·.kind == .snapshot) = some r ∧ c.kind = .snapshot
  replaced : c.kind = .snapshot →
    ∀ r, t.latest (·.kind == .snapshot) = some r → r ∉ t'.rows

variable {n : ℕ}

theorem SpoolStore.Effect.grown {v v' : View} (h : Effect n v v') :
    v'.chunks = v.chunks ∨ ∃ c, Grown n v.chunks v'.chunks c := by
  cases h with
  | timer | received | untracked => exact .inl rfl
  | @output buf c t hbuf hbytes hid hkind hdata hseq hpos habove hrows =>
    refine .inr ⟨c, hid, hpos, habove, ?_, ?_, ?_, by simp [hkind]⟩ <;> simp only [hrows]
    · simp
    · intro r hr
      simpa using hr
    · intro r hr
      exact .inl (mem_append_left _ hr)
  | @snapshot c t hbytes hid hkind hpos habove hrows =>
    refine .inr ⟨c, hid, hpos, habove, ?_, ?_, ?_, fun _ => ?_⟩ <;> simp only [hrows]
    · simp
    · intro r hr
      rcases mem_append.mp hr with hold | hnew
      · exact .inl (mem_of_mem_filter hold)
      · exact .inr (by simpa using hnew)
    · intro r hr
      by_cases hnewest : v.newest = some r
      · exact .inr ⟨hnewest, hkind⟩
      · refine .inl (mem_append_left _ (mem_filter.mpr ⟨hr, ?_⟩))
        simpa using hnewest
    · intro r hnewest hr
      have hmem := ((UniqueIndex.latest_eq_some_iff _ _ _).mp hnewest).1
      rcases mem_append.mp hr with hold | hnew
      · have hne := (mem_filter.mp hold).2
        rw [decide_eq_true_eq] at hne
        exact hne hnewest
      · obtain rfl : r = c := by simpa using hnew
        exact Nat.lt_irrefl _ (habove r hmem)

theorem SpoolStore.Effects.chunks_of_grown {P : ChannelChunks → Prop}
    (hgrown : ∀ t t' c, Grown n t t' c → P t → P t') {v v' : View} (h : Effects n v v')
    (hv : P v.chunks) : P v'.chunks := by
  induction h with
  | refl => exact hv
  | tail _ hlast ih =>
    rcases hlast.grown with hsame | ⟨c, hc⟩
    · rwa [hsame]
    · exact hgrown _ _ c hc ih

/-! ### A range that is being deleted -/

/-- Everything up to `afterSeq` is gone and there is a chunk at or above the end of the range;
or the range is at its end; or the channel was empty when the range was fixed. -/
def Swept (throughSeq afterSeq : ℤ) (t : ChannelChunks) : Prop :=
  throughSeq ≤ afterSeq ∨
  ((∃ r ∈ t.rows, throughSeq ≤ r.seq) ∧ ∀ r ∈ t.rows, afterSeq < r.seq) ∨
  (afterSeq = firstSeq ∧ throughSeq ≤ 0)

/-- What holds of a channel while a range of it is deleted: for all of its chunks `Swept`, for
its older snapshots that a newer one is there. -/
def Fits (throughSeq afterSeq : ℤ) (t : ChannelChunks) : Purpose → Prop
  | .dead _ _ => Swept throughSeq afterSeq t
  | .orphan _ _ => Swept throughSeq afterSeq t
  | .oldSnapshots _ _ _ _ => ∃ r ∈ t.rows, r.kind = .snapshot ∧ throughSeq < r.seq
  | .others _ _ => True

variable {throughSeq afterSeq : ℤ} {t : ChannelChunks} {c : Chunk}

theorem Swept.grown {t' : ChannelChunks}
    (h : Swept throughSeq afterSeq t) (hc : Grown n t t' c) : Swept throughSeq afterSeq t' := by
  rcases h with hend | ⟨⟨r, hr, hle⟩, hafter⟩ | hempty
  · exact .inl hend
  · refine .inr (.inl ⟨⟨c, hc.mem, ?_⟩, ?_⟩)
    · have hlt := hc.above r hr
      omega
    · intro r' hr'
      rcases hc.old r' hr' with hold | rfl
      · exact hafter r' hold
      · have hlt := hc.above r hr
        have hgt := hafter r hr
        omega
  · exact .inr (.inr hempty)

variable {purpose : Purpose}

theorem Fits.grown {t' : ChannelChunks}
    (h : Fits throughSeq afterSeq t purpose) (hc : Grown n t t' c) :
    Fits throughSeq afterSeq t' purpose := by
  cases purpose with
  | dead | orphan => exact Swept.grown h hc
  | oldSnapshots newestSeq newestBytes ageCutoff judged =>
    obtain ⟨r, hr, hkind, hlt⟩ := h
    rcases hc.kept r hr with hkept | ⟨-, hsnapshot⟩
    · exact ⟨r, hkept, hkind, hlt⟩
    · have habove := hc.above r hr
      exact ⟨c, hc.mem, hsnapshot, by omega⟩
  | others => trivial

theorem firstSeq_lt (n : ℕ) : firstSeq < n := by
  unfold firstSeq
  omega

theorem inRange_iff (afterSeq throughSeq : ℤ) (kinds : ChunkKinds) (c : Chunk) :
    Spool.inRange afterSeq throughSeq kinds c = true ↔
      afterSeq < c.seq ∧ (c.seq : ℤ) ≤ throughSeq ∧ kinds.picks c = true := by
  simp [Spool.inRange, and_assoc]

theorem mem_keep_of_lt {r : Chunk} {kinds : ChunkKinds} (hr : r ∈ t.rows) (hlt : c.seq < r.seq) :
    r ∈ (t.filter fun r => !Spool.inRange afterSeq c.seq kinds r).rows := by
  refine mem_filter.mpr ⟨hr, ?_⟩
  rw [Bool.not_eq_true', ← Bool.not_eq_true, inRange_iff]
  omega

theorem Fits.batch (h : Fits throughSeq afterSeq t purpose)
    (hrange : Spool.inRange afterSeq throughSeq purpose.kinds c = true) :
    Fits throughSeq c.seq
      (t.filter fun r => !Spool.inRange afterSeq c.seq purpose.kinds r) purpose := by
  obtain ⟨hafter, hthrough, -⟩ := (inRange_iff _ _ _ _).mp hrange
  have hswept : ∀ kinds, kinds = .all → Swept throughSeq afterSeq t →
      Swept throughSeq c.seq (t.filter fun r => !Spool.inRange afterSeq c.seq kinds r) := by
    rintro kinds rfl (hend | ⟨⟨r, hr, hle⟩, hall⟩ | ⟨-, hzero⟩)
    · omega
    · by_cases hlast : throughSeq ≤ c.seq
      · exact .inl hlast
      · refine .inr (.inl ⟨⟨r, mem_keep_of_lt hr (by omega), hle⟩, ?_⟩)
        intro r' hr'
        obtain ⟨hmem, hout⟩ := mem_filter.mp hr'
        have hlow := hall r' hmem
        rw [Bool.not_eq_true', ← Bool.not_eq_true, inRange_iff] at hout
        by_contra hle'
        exact hout ⟨hlow, by omega, rfl⟩
    · exact .inl (by omega)
  cases purpose with
  | dead | orphan => exact hswept _ rfl h
  | oldSnapshots newestSeq newestBytes ageCutoff judged =>
    obtain ⟨r, hr, hkind, hlt⟩ := h
    exact ⟨r, mem_keep_of_lt hr (by omega), hkind, hlt⟩
  | others => trivial

theorem swept_maxKey (t : ChannelChunks) : Swept t.maxKey firstSeq t := by
  rcases t.maxKey_eq with ⟨-, hzero⟩ | ⟨r, hr, hkey⟩
  · exact .inr (.inr ⟨rfl, by omega⟩)
  · exact .inr (.inl ⟨⟨r, hr, by omega⟩, fun r' _ => firstSeq_lt r'.seq⟩)

/-! ### How a range is fixed -/

/-- Where a range comes from: the step before its first batch. -/
inductive Begins (rows : OrderedMap String MetaRow) (spool : Spool) (channelId : String) :
    GcState → Purpose → ℤ → Prop
  /-- The highest number of a channel found dead is read. -/
  | dead (rest : List String) (judgedAt : ℕ) :
      Begins rows spool channelId (.maxSeq channelId rest judgedAt) (.dead rest judgedAt)
        (spool.getMaxSeq channelId)
  | orphan (lane : Lane) (hrow : rows.get channelId = none) :
      Begins rows spool channelId (.orphan channelId lane) (.orphan lane spool.nextId)
        (spool.getMaxSeq channelId)
  | oldSnapshots {c : Chunk} (ageCutoff : ℤ) (judged : Option Chunk)
      (hnewest : spool.getLatestSnapshot channelId = some c) :
      Begins rows spool channelId (.newest channelId ageCutoff judged)
        (.oldSnapshots c.seq c.dataBlob.length ageCutoff judged) (c.seq - 1)
  | others (newestSeq : Option ℕ) (ageCutoff : ℤ) (total before : ℕ) (judged : Option Chunk)
      (throughSeq : ℤ) :
      Begins rows spool channelId (.walk channelId newestSeq ageCutoff total before judged)
        (.others ageCutoff judged) throughSeq

theorem resume_ne_deleting (channelId channelId' : String) (lane : Lane) (purpose : Purpose)
    (throughSeq afterSeq : ℤ) :
    lane.resume channelId ≠ .deleting channelId' purpose throughSeq afterSeq := by
  rcases lane with _ | _ | _ <;> exact nofun

theorem emptyDead_ne_deleting (rest : List String) (judgedAt : ℕ) (now : ℤ) (channelId : String)
    (purpose : Purpose) (throughSeq afterSeq : ℤ) :
    emptyDead rest judgedAt now ≠ .deleting channelId purpose throughSeq afterSeq := by
  cases rest <;> exact nofun

theorem Purpose.resume_ne_deleting (channelId channelId' : String) (now : ℤ)
    (purpose purpose' : Purpose) (throughSeq afterSeq : ℤ) :
    purpose.resume channelId now ≠ .deleting channelId' purpose' throughSeq afterSeq := by
  cases purpose with
  | dead rest judgedAt => exact emptyDead_ne_deleting rest judgedAt now _ _ _ _
  | orphan lane judgedAt => exact Hub.resume_ne_deleting channelId channelId' lane _ _ _
  | oldSnapshots | others => exact nofun

variable {channelId : String}

/-- **A range is fixed, or a batch of it was deleted.** -/
theorem gcNext_deleting {cfg : GcConfig} {now : ℤ} {rows : OrderedMap String MetaRow}
    {spool : Spool} {gc : GcState}
    (h : (gcNext cfg now rows spool gc).1 = .deleting channelId purpose throughSeq afterSeq) :
    (Begins rows spool channelId gc purpose throughSeq ∧ afterSeq = firstSeq ∧
      (gcNext cfg now rows spool gc).2 = spool) ∨
    ∃ c ∈ (spool.chunks channelId).rows, ∃ before,
      gc = .deleting channelId purpose throughSeq before ∧ afterSeq = c.seq ∧
      Spool.inRange before throughSeq purpose.kinds c = true ∧
      (gcNext cfg now rows spool gc).2 =
        spool.keep channelId fun r => !Spool.inRange before c.seq purpose.kinds r := by
  cases gc with
  | idle | vacuum => cases h
  | judge deadCutoff => exact absurd h (emptyDead_ne_deleting _ _ _ _ _ _ _)
  | maxSeq ch rest judgedAt =>
    cases h
    exact .inl ⟨.dead rest judgedAt, rfl, rfl⟩
  | nextChannel after ageCutoff =>
    simp only [gcNext] at h
    split at h <;> cases h
  | orphan ch lane =>
    simp only [gcNext] at h ⊢
    split at h
    · split at h
      · cases h
      · exact absurd h (resume_ne_deleting _ _ _ _ _ _)
    · rename_i hrow
      cases h
      rw [if_neg hrow]
      exact .inl ⟨.orphan lane (by simpa using hrow), rfl, rfl⟩
  | newest ch ageCutoff judged =>
    simp only [gcNext] at h ⊢
    split at h
    · rename_i c hnewest
      cases h
      exact .inl ⟨.oldSnapshots ageCutoff judged hnewest, rfl, rfl⟩
    · cases h
  | walk ch newestSeq ageCutoff total before judged =>
    have hspool := gcNext_spool cfg now rows spool
      (.walk ch newestSeq ageCutoff total before judged)
    have hsame : (gcNext cfg now rows spool
        (.walk ch newestSeq ageCutoff total before judged)).2 = spool := by
      rcases hspool with hsame | ⟨_, _, _, _, _, _, hgc, -⟩
      · exact hsame
      · cases hgc
    refine .inl ⟨?_, ?_, hsame⟩ <;> simp only [gcNext] at h <;> split at h
    · cases h
      exact .others newestSeq ageCutoff total before judged _
    · split at h
      · cases h
      · split at h <;> cases h
    · cases h
      rfl
    · split at h
      · cases h
      · split at h <;> cases h
  | deleting ch purpose' through after =>
    rcases gcNext_spool cfg now rows spool (.deleting ch purpose' through after) with
      hsame | ⟨ch', purpose'', through', after', c, hc, hgc, hrange, hnext⟩
    · -- Nothing was left in the range.
      obtain ⟨spool', last, hbatch⟩ : ∃ spool' last, spool.deleteChunkBatch ch after
          through purpose'.kinds deleteBatch = (spool', last) := ⟨_, _, rfl⟩
      simp only [gcNext, hbatch] at h
      rcases Spool.deleteChunkBatch_spec (by decide) hbatch with
        ⟨rfl, -, -⟩ | ⟨c, hc, hrange, rfl, hkeep⟩
      · exact absurd h (Purpose.resume_ne_deleting _ _ _ _ _ _ _)
      · cases h
        refine .inr ⟨c, hc, after, rfl, rfl, hrange, ?_⟩
        simp only [gcNext, hbatch]
        exact hkeep
    · cases hgc
      rw [hnext] at h
      cases h
      exact .inr ⟨c, hc, after, rfl, rfl, hrange, by rw [hnext]⟩

theorem Begins.fits {rows : OrderedMap String MetaRow} {spool : Spool} {gc : GcState}
    (h : Begins rows spool channelId gc purpose throughSeq) :
    Fits throughSeq firstSeq (spool.chunks channelId) purpose := by
  cases h with
  | dead | orphan => exact swept_maxKey _
  | @oldSnapshots c ageCutoff judged hnewest =>
    obtain ⟨hmem, hkind, -⟩ := (UniqueIndex.latest_eq_some_iff _ _ _).mp hnewest
    exact ⟨c, hmem, by simpa using hkind, by omega⟩
  | others => trivial

/-! ### Over runs -/

namespace HubStorage

variable {cfg : GcConfig} {s s' : HubStorage} {a : Step}

/-- What one step does to the collector: nothing, a step of its own, the end of its job, or the
start of one. -/
theorem step_gc (h : s.step cfg a = some s') :
    ((∀ now, a ≠ .gc now) ∧ s'.gc = s.gc ∧ ∃ jobs, s'.jobs = s.jobs ++ jobs) ∨
    (∃ now, a = .gc now ∧ s'.gc = (gcNext cfg now s.rows s.spool s.gc).1 ∧ s'.jobs = s.jobs) ∨
    (s'.store = s.store ∧ s'.rows = s.rows ∧
      (s'.gc = .idle ∧ s'.jobs = s.jobs ∨
        (∃ deadCutoff, s'.gc = .judge deadCutoff ∧ s.jobs = .pass :: s'.jobs) ∨
        ∃ ids, s'.gc = Lane.resume "" (.purge ids) ∧ s.jobs = .purge ids :: s'.jobs)) := by
  cases a with
  | trackChannel | onOutput | untrackChannel | storeSnapshot | deleteRows =>
    cases h
    exact .inl ⟨nofun, rfl, [], (append_nil _).symm⟩
  | flushTimer channelId w =>
    obtain ⟨-, ⟨rfl⟩⟩ := ite_none_right_eq_some.mp h
    exact .inl ⟨nofun, rfl, [], (append_nil _).symm⟩
  | createChannel channelId row =>
    obtain ⟨-, ⟨rfl⟩⟩ := ite_none_left_eq_some.mp h
    exact .inl ⟨nofun, rfl, [], (append_nil _).symm⟩
  | updateChannel channelId row =>
    cases h
    refine .inl ⟨nofun, ?_, [], ?_⟩ <;> split_ifs <;> simp
  | purgeChannels channelIds =>
    obtain ⟨-, ⟨rfl⟩⟩ := ite_none_right_eq_some.mp h
    exact .inl ⟨nofun, rfl, _, rfl⟩
  | collect =>
    cases h
    by_cases hasked : s.passAsked = true
    · exact .inl ⟨nofun, by simp [hasked], [], by simp [hasked]⟩
    · exact .inl ⟨nofun, by simp [hasked], [.pass], by simp [hasked]⟩
  | gcStart now =>
    obtain ⟨-, h⟩ := ite_none_right_eq_some.mp h
    split at h
    · cases h
    · rename_i jobs hjobs
      cases h
      exact .inr (.inr ⟨rfl, rfl, .inr (.inl ⟨_, rfl, hjobs⟩)⟩)
    · rename_i ids jobs hjobs
      cases h
      exact .inr (.inr ⟨rfl, rfl, .inr (.inr ⟨ids, rfl, hjobs⟩)⟩)
  | gc now =>
    obtain ⟨-, hgc, -, hjobs, -⟩ := step_gc_eq h
    exact .inr (.inl ⟨now, rfl, hgc, hjobs⟩)
  | gcEnd =>
    obtain ⟨-, ⟨rfl⟩⟩ := ite_none_left_eq_some.mp h
    exact .inr (.inr ⟨rfl, rfl, .inl ⟨rfl, rfl⟩⟩)

/-- The range that is being deleted fits its channel. -/
def GcFits (s : HubStorage) : Prop :=
  ∀ channelId purpose throughSeq afterSeq,
    s.gc = .deleting channelId purpose throughSeq afterSeq →
      Fits throughSeq afterSeq (s.spool.chunks channelId) purpose

theorem chunks_of_grown (habove : s.CountersAbove) (h : s.step cfg a = some s')
    (hgc : ∀ now, a ≠ .gc now) {P : ChannelChunks → Prop}
    (hgrown : ∀ t t' c, Grown s.spool.nextId t t' c → P t → P t')
    (hs : P (s.spool.chunks channelId)) : P (s'.spool.chunks channelId) := by
  rcases step_view habove h channelId with hsame | ⟨-, -, hview⟩ | ⟨-, heffects⟩ |
    ⟨now, -, -, -, c, -, ha, -⟩
  · have hchunks : s'.spool.chunks channelId = s.spool.chunks channelId := congrArg View.chunks hsame
    rwa [hchunks]
  · have hchunks : s'.spool.chunks channelId = s.spool.chunks channelId := congrArg View.chunks hview
    rwa [hchunks]
  · exact heffects.chunks_of_grown hgrown hs
  · exact absurd ha (hgc now)

theorem step_gcFits (habove : s.CountersAbove) (h : s.step cfg a = some s') (hs : s.GcFits) :
    s'.GcFits := by
  intro channelId purpose throughSeq afterSeq hdeleting
  rcases step_gc h with ⟨hnot, hgc, -⟩ | ⟨now, rfl, hgc, -⟩ | ⟨-, -, hgc⟩
  · rw [hgc] at hdeleting
    exact chunks_of_grown habove h hnot (P := fun t => Fits throughSeq afterSeq t purpose)
      (fun _ _ _ hc ht => ht.grown hc) (hs _ _ _ _ hdeleting)
  · rw [hgc] at hdeleting
    have hspool := congrArg SpoolStore.spool (step_gc_eq h).1
    rcases gcNext_deleting hdeleting with
      ⟨hbegins, rfl, hsame⟩ | ⟨c, hc, before, hgc', rfl, hrange, hkeep⟩
    · rw [spool, hspool, hsame]
      exact hbegins.fits
    · rw [spool, hspool, hkeep, Spool.chunks_keep, if_pos rfl]
      exact (hs _ _ _ _ hgc').batch hrange
  · rw [hdeleting] at hgc
    rcases hgc with ⟨hidle, -⟩ | ⟨_, hjudge, -⟩ | ⟨ids, hresume, -⟩
    · cases hidle
    · cases hjudge
    · exact absurd hresume.symm (resume_ne_deleting _ _ _ _ _ _)

theorem init_gcFits (spool : Spool) (rows : OrderedMap String MetaRow) :
    (init spool rows).GcFits :=
  fun _ _ _ _ h => nomatch h

end HubStorage

end Lasterm.Hub
