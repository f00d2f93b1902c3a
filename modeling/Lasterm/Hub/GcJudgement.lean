import Lasterm.Hub.GcRanges

/-!
# What the collector may delete of a channel it has judged

A channel is judged in one step and emptied in later ones, and it may be brought back under
its own id in between.  What it stores then is not the judgement's to delete.  Of a channel
that is kept, the snapshot that was its newest then stays.

An orphan is looked up in the step that reads its highest number.  The channels dead past their
retention are listed in one step, and the highest number of each is read in a later one: what
such a channel stores in between is below that number.

## Main definitions

* `JudgedFirst` — nothing is stored of a channel in between; `Books` — the invariant.

## Main results

* `deletes_only_what_was_judged` — what a pass or a purge deletes.
* `deletes_what_came_after_the_list` — what it deletes otherwise.
-/

namespace Lasterm.Hub

open Transition SpoolStore List Option UniqueIndex OrderedMap

/-- The channels found dead whose highest number is not read yet. -/
def GcState.pending : GcState → List String
  | .maxSeq channelId rest _ => channelId :: rest
  | .deleting _ (.dead rest _) _ _ => rest
  | _ => []

/-- The ids given when the channels found dead were listed. -/
def GcState.listedAt : GcState → ℕ
  | .maxSeq _ _ judgedAt => judgedAt
  | .deleting _ (.dead _ judgedAt) _ _ => judgedAt
  | _ => 0

/-- A channel whose age and size are looked at, and what was its newest snapshot when it was
found to have a row. -/
def GcState.judgedNewest : GcState → Option (String × Option Chunk)
  | .newest channelId _ judged => some (channelId, judged)
  | .walk channelId _ _ _ _ judged => some (channelId, judged)
  | .deleting channelId (.oldSnapshots _ _ _ judged) _ _ => some (channelId, judged)
  | .deleting channelId (.others _ judged) _ _ => some (channelId, judged)
  | _ => none

/-- The channels a step of the collector looks up, or has looked up, as orphans. -/
def GcState.lookedUp : GcState → List String
  | .orphan channelId (.purge rest) => channelId :: rest
  | .orphan channelId (.pass _) => [channelId]
  | .deleting channelId (.orphan (.purge rest) _) _ _ => channelId :: rest
  | .deleting channelId (.orphan (.pass _) _) _ _ => [channelId]
  | _ => []

variable {channelId : String}

namespace SpoolStore

/-- There is output to flush. -/
def holdsOutput (s : SpoolStore) (channelId : String) : Bool :=
  ((s.buffers.get channelId).map fun buf => buf.totalBytes != 0).getD false

variable {s : SpoolStore} {w : Write}

theorem flush_spool (h : (s.holdsOutput channelId && w.disk) = false) :
    (s.flush channelId w).1.spool = s.spool := by
  unfold flush
  cases hbuf : s.buffers.get channelId with
  | none => rfl
  | some buf =>
    dsimp only
    split_ifs with hbytes hdisk
    · rfl
    · rfl
    · simp [holdsOutput, hbuf, hbytes] at h
      simp [h] at hdisk

theorem flush_returns (h : s.holdsOutput channelId = false) : s.flush channelId w = (s, true) := by
  unfold flush
  cases hbuf : s.buffers.get channelId with
  | none => rfl
  | some buf =>
    have hbytes : buf.totalBytes = 0 := by simpa [holdsOutput, hbuf] using h
    simp [hbytes]

theorem flush_throws (h : s.holdsOutput channelId = true) (hdisk : w.disk = false) :
    s.flush channelId w = (s, false) := by
  unfold flush
  cases hbuf : s.buffers.get channelId with
  | none => simp [holdsOutput, hbuf] at h
  | some buf =>
    have hbytes : buf.totalBytes ≠ 0 := by simpa [holdsOutput, hbuf] using h
    simp [hbytes, hdisk]

end SpoolStore

namespace HubStorage

/-- The channel a step stores a chunk of. -/
def stores (s : HubStorage) : Step → Option String
  | .onOutput channelId data w =>
    if ((s.store.buffers.get channelId).map fun buf =>
        decide (chunkMaxBytes ≤ { buf with chunks := buf.chunks ++ [data] : ChannelBuffer }.totalBytes)
          && w.disk).getD false
    then some channelId else none
  | .flushTimer channelId w =>
    if s.store.holdsOutput channelId && w.disk then some channelId else none
  | .untrackChannel channelId w =>
    if s.store.holdsOutput channelId && w.disk then some channelId else none
  | .storeSnapshot channelId _ _ w w' =>
    if (if s.store.holdsOutput channelId then w.disk else w'.disk) then some channelId else none
  | _ => none

/-- No chunk is stored of a channel between the list of the dead it is on and the reading of
its highest number. -/
def JudgedFirst (s : HubStorage) (a : Step) : Prop :=
  ∀ channelId ∈ s.stores a, channelId ∉ s.gc.pending

instance (s : HubStorage) : DecidablePred s.JudgedFirst :=
  fun a => inferInstanceAs (Decidable (∀ channelId ∈ s.stores a, channelId ∉ s.gc.pending))

/-- What the collector may delete: of a channel judged for all of its chunks, one whose id had
been given by then; of an orphan, while meta.db has no row of it; of any other, anything but
what was its newest snapshot when it was judged. -/
def MayDelete (s : HubStorage) (channelId : String) (c : Chunk) : Prop :=
  match s.gc with
  | .deleting judged (.dead _ judgedAt) _ _ => channelId = judged ∧ c.id < judgedAt
  | .deleting judged (.orphan _ judgedAt) _ _ =>
    channelId = judged ∧ c.id < judgedAt ∧ s.rows.get channelId = none
  | .deleting judged (.oldSnapshots _ _ _ newest) _ _ => channelId = judged ∧ newest ≠ some c
  | .deleting judged (.others _ newest) _ _ => channelId = judged ∧ newest ≠ some c
  | _ => False

variable {cfg : GcConfig} {s s' : HubStorage} {a : Step}

theorem chunks_of_not_stores (habove : s.CountersAbove) (h : s.step cfg a = some s')
    (hgc : ∀ now, a ≠ .gc now) (hno : s.stores a ≠ some channelId) :
    s'.spool.chunks channelId = s.spool.chunks channelId := by
  by_cases habout : a.channel = some channelId
  · cases a with
    | onOutput ch data w =>
      cases habout
      cases h
      unfold stores at hno
      dsimp only [HubStorage.spool] at *
      unfold onOutput
      cases hbuf : s.store.buffers.get channelId with
      | none => rfl
      | some buf =>
        dsimp only
        split_ifs with hfull
        · have hdisk : w.disk = false := by
            simpa [hbuf, hfull] using hno
          rw [flush_spool (by simp [hdisk])]
          rfl
        · rfl
    | flushTimer ch w =>
      cases habout
      obtain ⟨-, ⟨rfl⟩⟩ := ite_none_right_eq_some.mp h
      unfold stores at hno
      dsimp only [HubStorage.spool] at *
      unfold onFlushTimer
      cases hbuf : s.store.buffers.get channelId with
      | none => rfl
      | some buf =>
        rw [flush_spool]
        simpa [holdsOutput, hbuf, ChannelBuffer.totalBytes] using hno
    | untrackChannel ch w =>
      cases habout
      cases h
      unfold stores at hno
      have hspool : (s.store.flush channelId w).1.spool = s.store.spool :=
        flush_spool (by simpa using hno)
      dsimp only [HubStorage.spool]
      unfold untrackChannel
      dsimp only
      split_ifs <;> simp [hspool]
    | storeSnapshot ch dataBlob agentLastSeq w w' =>
      cases habout
      cases h
      unfold stores at hno
      dsimp only [HubStorage.spool]
      unfold storeSnapshot
      cases hholds : s.store.holdsOutput channelId with
      | false =>
        have hdisk : w'.disk = false := by simpa [hholds] using hno
        rw [flush_returns hholds]
        simp [hdisk]
      | true =>
        have hdisk : w.disk = false := by simpa [hholds] using hno
        rw [flush_throws hholds hdisk]
        simp
    | _ => cases habout
  · rcases step_view habove h channelId with hsame | ⟨-, -, hview⟩ | ⟨ha, -⟩ |
      ⟨now, -, -, -, c, -, ha, -⟩
    · exact congrArg View.chunks hsame
    · exact congrArg View.chunks hview
    · exact absurd ha habout
    · exact absurd ha (hgc now)

end HubStorage

/-! ### What a step of the collector carries on -/

section Carried

variable (cfg : GcConfig) (now : ℤ) (rows : OrderedMap String MetaRow) (spool : Spool)

theorem gcNext_pending (gc : GcState) :
    (gcNext cfg now rows spool gc).1.pending = [] ∨
    (gcNext cfg now rows spool gc).1.listedAt = spool.nextId ∨
    ((gcNext cfg now rows spool gc).1.listedAt = gc.listedAt ∧
      ∀ channelId ∈ (gcNext cfg now rows spool gc).1.pending, channelId ∈ gc.pending) := by
  have hempty : ∀ rest judgedAt, (emptyDead rest judgedAt now).pending = [] ∨
      (emptyDead rest judgedAt now).listedAt = judgedAt ∧
        (emptyDead rest judgedAt now).pending = rest := by
    intro rest judgedAt
    cases rest with
    | nil => exact .inl rfl
    | cons channelId rest => exact .inr ⟨rfl, rfl⟩
  have hlane : ∀ channelId (lane : Lane), (lane.resume channelId).pending = [] := by
    intro channelId lane
    rcases lane with _ | _ | _ <;> rfl
  cases gc with
  | idle | vacuum => exact .inl rfl
  | judge deadCutoff =>
    rcases hempty (listStaleDeadChannelIds rows deadCutoff) spool.nextId with hnil | ⟨hat, -⟩
    · exact .inl hnil
    · exact .inr (.inl hat)
  | maxSeq channelId rest judgedAt =>
    exact .inr (.inr ⟨rfl, fun ch hch => mem_cons_of_mem _ hch⟩)
  | nextChannel | newest =>
    refine .inl ?_
    simp only [gcNext]
    split <;> rfl
  | orphan channelId lane =>
    refine .inl ?_
    simp only [gcNext]
    split
    · split
      · rfl
      · exact hlane _ _
    · rfl
  | walk channelId newestSeq ageCutoff total before judged =>
    refine .inl ?_
    simp only [gcNext]
    split
    · rfl
    · split
      · rfl
      · split <;> rfl
  | deleting channelId purpose throughSeq afterSeq =>
    simp only [gcNext]
    split
    · cases purpose with
      | dead rest judgedAt =>
        rcases hempty rest judgedAt with hnil | ⟨hat, hrest⟩
        · exact .inl hnil
        · refine .inr (.inr ⟨hat, fun ch hch => ?_⟩)
          rwa [Purpose.resume, hrest] at hch
      | orphan lane judgedAt => exact .inl (hlane _ _)
      | oldSnapshots | others => exact .inl rfl
    · cases purpose with
      | dead => exact .inr (.inr ⟨rfl, fun _ hch => hch⟩)
      | orphan | oldSnapshots | others => exact .inl rfl

theorem gcNext_judgedNewest (gc : GcState) :
    (gcNext cfg now rows spool gc).1.judgedNewest = none ∨
    (∃ channelId, (gcNext cfg now rows spool gc).1.judgedNewest =
      some (channelId, spool.getLatestSnapshot channelId)) ∨
    (gcNext cfg now rows spool gc).1.judgedNewest = gc.judgedNewest := by
  have hempty : ∀ rest judgedAt, (emptyDead rest judgedAt now).judgedNewest = none := by
    intro rest judgedAt
    cases rest <;> rfl
  have hlane : ∀ channelId (lane : Lane), (lane.resume channelId).judgedNewest = none := by
    intro channelId lane
    rcases lane with _ | _ | _ <;> rfl
  cases gc with
  | idle | vacuum | maxSeq => exact .inl rfl
  | judge deadCutoff => exact .inl (hempty _ _)
  | nextChannel after ageCutoff =>
    refine .inl ?_
    simp only [gcNext]
    split <;> rfl
  | orphan channelId lane =>
    simp only [gcNext]
    split
    · split
      · exact .inr (.inl ⟨channelId, rfl⟩)
      · exact .inl (hlane _ _)
    · exact .inl rfl
  | newest channelId ageCutoff judged =>
    refine .inr (.inr ?_)
    simp only [gcNext]
    split <;> rfl
  | walk channelId newestSeq ageCutoff total before judged =>
    simp only [gcNext]
    split
    · exact .inr (.inr rfl)
    · split
      · exact .inl rfl
      · split
        · exact .inl rfl
        · exact .inr (.inr rfl)
  | deleting channelId purpose throughSeq afterSeq =>
    simp only [gcNext]
    split
    · cases purpose with
      | dead => exact .inl (hempty _ _)
      | orphan => exact .inl (hlane _ _)
      | oldSnapshots => exact .inr (.inr rfl)
      | others => exact .inl rfl
    · cases purpose <;> exact .inr (.inr rfl)

theorem rows_of_nextChannelId {after : String}
    (h : spool.nextChannelId after = some channelId) : (spool.chunks channelId).rows ≠ [] := by
  have hmem := (mem_filter.mp (min?_mem h)).2
  simp only [Bool.and_eq_true, Bool.not_eq_true'] at hmem
  simpa using hmem.2

theorem gcNext_lookedUp (gc : GcState) :
    ∀ channelId ∈ (gcNext cfg now rows spool gc).1.lookedUp,
      channelId ∈ gc.lookedUp ∨ (spool.chunks channelId).rows ≠ [] := by
  have hempty : ∀ rest judgedAt, (emptyDead rest judgedAt now).lookedUp = [] := by
    intro rest judgedAt
    cases rest <;> rfl
  cases gc with
  | idle | vacuum | maxSeq => exact nofun
  | judge deadCutoff =>
    intro channelId hmem
    simp [gcNext, hempty] at hmem
  | nextChannel after ageCutoff =>
    intro channelId hmem
    simp only [gcNext] at hmem
    split at hmem
    · cases hmem
    · rename_i ch hnext
      obtain rfl : channelId = ch := by simpa [GcState.lookedUp] using hmem
      exact .inr (rows_of_nextChannelId spool hnext)
  | orphan ch lane =>
    intro channelId hmem
    refine .inl ?_
    simp only [gcNext] at hmem
    split at hmem
    · split at hmem
      · cases hmem
      · rename_i rest
        cases rest with
        | nil => cases hmem
        | cons next rest => exact mem_cons_of_mem _ hmem
    · cases lane <;> exact hmem
  | newest ch ageCutoff judged =>
    intro channelId hmem
    simp only [gcNext] at hmem
    split at hmem <;> cases hmem
  | walk ch newestSeq ageCutoff total before judged =>
    intro channelId hmem
    simp only [gcNext] at hmem
    split at hmem
    · cases hmem
    · split at hmem
      · cases hmem
      · split at hmem <;> cases hmem
  | deleting ch purpose throughSeq afterSeq =>
    intro channelId hmem
    refine .inl ?_
    simp only [gcNext] at hmem
    split at hmem
    · cases purpose with
      | dead rest judgedAt => simp [Purpose.resume, hempty] at hmem
      | orphan lane judgedAt =>
        rcases lane with _ | _ | ⟨next, rest⟩
        · cases hmem
        · cases hmem
        · exact mem_cons_of_mem _ hmem
      | oldSnapshots | others => cases hmem
    · cases purpose with
      | orphan lane judgedAt => cases lane <;> exact hmem
      | dead | oldSnapshots | others => exact hmem

end Carried

/-! ### The ids of what is deleted -/

/-- The ids given when a channel was judged for all of its chunks. -/
def Purpose.judgedAt : Purpose → Option ℕ
  | .dead _ judgedAt => some judgedAt
  | .orphan _ judgedAt => some judgedAt
  | _ => none

/-- What is left of a range had its id when the channel was judged. -/
def RangeOld (throughSeq afterSeq : ℤ) (judgedAt : ℕ) (t : ChannelChunks) : Prop :=
  throughSeq ≤ afterSeq ∨ ∀ c ∈ t.rows, (c.seq : ℤ) ≤ throughSeq → c.id < judgedAt

variable {n : ℕ} {t : ChannelChunks} {c : Chunk}

theorem RangeOld.grown {throughSeq afterSeq : ℤ} {judgedAt : ℕ} {t' : ChannelChunks}
    (h : RangeOld throughSeq afterSeq judgedAt t)
    (hswept : Swept throughSeq afterSeq t) (hc : Grown n t t' c) :
    RangeOld throughSeq afterSeq judgedAt t' := by
  rcases h with hend | hold
  · exact .inl hend
  · by_cases hend : throughSeq ≤ afterSeq
    · exact .inl hend
    have habove : throughSeq < c.seq := by
      rcases hswept with hend' | ⟨⟨r, hr, hle⟩, -⟩ | ⟨-, hzero⟩
      · exact absurd hend' hend
      · have hlt := hc.above r hr
        omega
      · have hpos := hc.pos
        omega
    refine .inr fun r hr hle => ?_
    rcases hc.old r hr with hmem | rfl
    · exact hold r hmem hle
    · omega

theorem Fits.swept {throughSeq afterSeq : ℤ} {purpose : Purpose}
    (h : Fits throughSeq afterSeq t purpose) {judgedAt : ℕ}
    (hjudged : purpose.judgedAt = some judgedAt) : Swept throughSeq afterSeq t := by
  cases purpose with
  | dead | orphan => exact h
  | oldSnapshots | others => cases hjudged

namespace HubStorage

variable {cfg : GcConfig} {s s' : HubStorage} {a : Step}

/-- What is on the list of the dead, and what is left of a range, had its id when it was
judged. -/
structure IdsJudged (s : HubStorage) : Prop where
  pending : ∀ channelId ∈ s.gc.pending, ∀ c ∈ (s.spool.chunks channelId).rows,
    c.id < s.gc.listedAt
  range : ∀ channelId purpose throughSeq afterSeq,
    s.gc = .deleting channelId purpose throughSeq afterSeq →
      ∀ judgedAt ∈ purpose.judgedAt,
        RangeOld throughSeq afterSeq judgedAt (s.spool.chunks channelId)

theorem mem_of_mem_gcNext {now : ℤ} (h : s.step cfg (.gc now) = some s')
    (hc : c ∈ (s'.spool.chunks channelId).rows) : c ∈ (s.spool.chunks channelId).rows := by
  have hspool : s'.spool = (gcNext cfg now s.rows s.spool s.gc).2 :=
    congrArg SpoolStore.spool (step_gc_eq h).1
  rw [hspool] at hc
  rcases gcNext_spool cfg now s.rows s.spool s.gc with
    hsame | ⟨ch, purpose, throughSeq, afterSeq, last, hlast, hgc, hrange, hnext⟩
  · rwa [hsame] at hc
  · rw [hnext, Spool.chunks_keep] at hc
    split_ifs at hc with heq
    · subst heq
      exact mem_of_mem_filter hc
    · exact hc

/-- A step keeps what is known of the ids that were judged. -/
theorem step_idsJudged (habove : s.CountersAbove) (hfits : s.GcFits)
    (h : s.step cfg a = some s') (hok : s.JudgedFirst a) (hs : s.IdsJudged) : s'.IdsJudged := by
  rcases step_gc h with ⟨hnot, hgc, -⟩ | ⟨now, rfl, hgc, -⟩ | ⟨-, -, hgc⟩
  · refine ⟨?_, ?_⟩ <;> rw [hgc]
    · intro channelId hmem
      have hno : s.stores a ≠ some channelId := fun hstores => hok channelId hstores hmem
      rw [chunks_of_not_stores habove h hnot hno]
      exact hs.pending channelId hmem
    · intro channelId purpose throughSeq afterSeq hdeleting judgedAt hjudged
      have hfit := hfits _ _ _ _ hdeleting
      have hbefore : Swept throughSeq afterSeq (s.spool.chunks channelId) ∧
          RangeOld throughSeq afterSeq judgedAt (s.spool.chunks channelId) :=
        ⟨hfit.swept hjudged, hs.range _ _ _ _ hdeleting judgedAt hjudged⟩
      refine (chunks_of_grown habove h hnot
        (P := fun t => Swept throughSeq afterSeq t ∧ RangeOld throughSeq afterSeq judgedAt t)
        ?_ hbefore).2
      intro t t' c hc ht
      exact ⟨ht.1.grown hc, ht.2.grown ht.1 hc⟩
  · refine ⟨?_, ?_⟩ <;> rw [hgc]
    · intro channelId hmem c hc
      have hold := mem_of_mem_gcNext h hc
      rcases gcNext_pending cfg now s.rows s.spool s.gc with hnil | hat | ⟨hat, hsub⟩
      · rw [hnil] at hmem
        cases hmem
      · rw [hat]
        exact s.spool.id_lt_nextId channelId c hold
      · rw [hat]
        exact hs.pending channelId (hsub channelId hmem) c hold
    · intro channelId purpose throughSeq afterSeq hdeleting judgedAt hjudged
      rcases gcNext_deleting hdeleting with
        ⟨hbegins, rfl, hsame⟩ | ⟨c, hc, before, hgc', rfl, hrange, hkeep⟩
      · -- The range is fixed: everything of the channel had its id when it was judged.
        refine .inr fun c hc _ => ?_
        have hold := mem_of_mem_gcNext h hc
        cases hgc' : s.gc with
        | maxSeq ch rest j =>
          rw [hgc'] at hbegins
          cases hbegins
          cases hjudged
          have hpending := hs.pending channelId
          rw [hgc'] at hpending
          exact hpending mem_cons_self c hold
        | orphan ch lane =>
          rw [hgc'] at hbegins
          cases hbegins
          cases hjudged
          exact s.spool.id_lt_nextId channelId c hold
        | newest | walk =>
          rw [hgc'] at hbegins
          cases hbegins
          cases hjudged
        | idle | judge | nextChannel | deleting | vacuum =>
          rw [hgc'] at hbegins
          cases hbegins
      · obtain ⟨hlt, -, -⟩ := (inRange_iff _ _ _ _).mp hrange
        rcases hs.range _ _ _ _ hgc' judgedAt hjudged with hend | hold
        · exact .inl (by omega)
        · exact .inr fun r hr hle => hold r (mem_of_mem_gcNext h hr) hle
  · refine ⟨?_, ?_⟩
    · intro channelId hmem
      rcases hgc with ⟨hidle, -⟩ | ⟨_, hjudge, -⟩ | ⟨ids, hresume, -⟩
      · rw [hidle] at hmem
        cases hmem
      · rw [hjudge] at hmem
        cases hmem
      · rw [hresume] at hmem
        cases ids <;> cases hmem
    · intro channelId purpose throughSeq afterSeq hdeleting
      rw [hdeleting] at hgc
      rcases hgc with ⟨hidle, -⟩ | ⟨_, hjudge, -⟩ | ⟨ids, hresume, -⟩
      · cases hidle
      · cases hjudge
      · exact absurd hresume.symm (resume_ne_deleting _ _ _ _ _ _)

/-! ### The newest snapshot of a channel that is kept -/

/-- What was the newest snapshot of a channel when it was judged is so still, if it is there. -/
def NewestJudged (s : HubStorage) : Prop :=
  ∀ channelId c, s.gc.judgedNewest = some (channelId, some c) →
    c.id < s.spool.nextId ∧ (c ∈ (s.spool.chunks channelId).rows →
      (s.spool.chunks channelId).latest (·.kind == .snapshot) = some c)

theorem latest_of_grown {t' : ChannelChunks} {c₀ : Chunk} (hc : Grown n t t' c) (hid : c₀.id < n)
    (h : c₀ ∈ t.rows → t.latest (·.kind == .snapshot) = some c₀) (hmem : c₀ ∈ t'.rows) :
    t'.latest (·.kind == .snapshot) = some c₀ := by
  have hold : c₀ ∈ t.rows := by
    rcases hc.old c₀ hmem with hold | rfl
    · exact hold
    · exact absurd hc.id_ge (by omega)
  have hlatest := h hold
  obtain ⟨-, hkind, hmax⟩ := (latest_eq_some_iff _ _ _).mp hlatest
  refine (latest_eq_some_iff _ _ _).mpr ⟨hmem, hkind, fun r hr hsnapshot => ?_⟩
  rcases hc.old r hr with hr' | rfl
  · exact hmax r hr' hsnapshot
  · -- A new snapshot would have taken its place.
    exact absurd hmem (hc.replaced (by simpa using hsnapshot) c₀ hlatest)

theorem nextId_le_of_step (habove : s.CountersAbove) (h : s.step cfg a = some s') :
    s.spool.nextId ≤ s'.spool.nextId := by
  show s.spool.nextId ≤ s'.store.spool.nextId
  rcases step_store habove h with
    ⟨ch, rfl, hstore, -⟩ | ⟨ch, -, htouches, -⟩ | hsame | ⟨now, rfl, hstore, -⟩
  · rw [hstore]
    unfold trackChannel
    split_ifs <;> exact le_rfl
  · exact htouches.nextId_le
  · rw [hsame]
  · rw [hstore]
    rcases gcNext_spool cfg now s.rows s.spool s.gc with
      hsame | ⟨ch, purpose, throughSeq, afterSeq, last, -, -, -, hnext⟩
    · rw [hsame]
    · rw [hnext]
      exact le_rfl

theorem step_newestJudged (habove : s.CountersAbove) (h : s.step cfg a = some s')
    (hs : s.NewestJudged) : s'.NewestJudged := by
  intro channelId c hjudged
  have hle := nextId_le_of_step habove h
  rcases step_gc h with ⟨hnot, hgc, -⟩ | ⟨now, rfl, hgc, -⟩ | ⟨-, -, hgc⟩
  · rw [hgc] at hjudged
    obtain ⟨hid, hnewest⟩ := hs channelId c hjudged
    refine ⟨lt_of_lt_of_le hid hle, ?_⟩
    exact chunks_of_grown habove h hnot (P := fun t => c ∈ t.rows →
      t.latest (·.kind == .snapshot) = some c) (fun _ _ _ hc ht => latest_of_grown hc hid ht) hnewest
  · rw [hgc] at hjudged
    have hbefore : c.id < s.spool.nextId ∧ (c ∈ (s.spool.chunks channelId).rows →
        (s.spool.chunks channelId).latest (·.kind == .snapshot) = some c) := by
      rcases gcNext_judgedNewest cfg now s.rows s.spool s.gc with hnone | ⟨ch, hch⟩ | hsame
      · rw [hnone] at hjudged
        cases hjudged
      · rw [hch] at hjudged
        obtain ⟨rfl, hlatest⟩ := Prod.mk.inj (some.inj hjudged)
        have hmem := ((latest_eq_some_iff _ _ _).mp hlatest).1
        exact ⟨s.spool.id_lt_nextId _ c hmem, fun _ => hlatest⟩
      · rw [hsame] at hjudged
        exact hs channelId c hjudged
    refine ⟨lt_of_lt_of_le hbefore.1 hle, fun hmem => ?_⟩
    -- Fewer chunks, and it is among them.
    obtain ⟨-, hkind, hmax⟩ := (latest_eq_some_iff _ _ _).mp
      (hbefore.2 (mem_of_mem_gcNext h hmem))
    exact (latest_eq_some_iff _ _ _).mpr
      ⟨hmem, hkind, fun r hr => hmax r (mem_of_mem_gcNext h hr)⟩
  · rcases hgc with ⟨hidle, -⟩ | ⟨_, hjudge, -⟩ | ⟨ids, hresume, -⟩
    · rw [hidle] at hjudged
      cases hjudged
    · rw [hjudge] at hjudged
      cases hjudged
    · rw [hresume] at hjudged
      cases ids <;> cases hjudged

/-! ### The rows of meta.db -/

/-- Every id of a channel in either database, in the chunker, or asked of the collector, has
been used, and an orphan that is being emptied has no row. -/
structure Listed (s : HubStorage) : Prop where
  rows : ∀ channelId row, s.rows.get channelId = some row → channelId ∈ s.used
  chunks : ∀ channelId, (s.spool.chunks channelId).rows ≠ [] → channelId ∈ s.used
  buffers : ∀ channelId buf, s.store.buffers.get channelId = some buf → channelId ∈ s.used
  jobs : ∀ ids, .purge ids ∈ s.jobs → ∀ channelId ∈ ids, channelId ∈ s.used
  lookedUp : ∀ channelId ∈ s.gc.lookedUp, channelId ∈ s.used
  orphan : ∀ channelId lane judgedAt throughSeq afterSeq,
    s.gc = .deleting channelId (.orphan lane judgedAt) throughSeq afterSeq →
      s.rows.get channelId = none

/-- What a step does to the ids used, the rows and the jobs: an id that has been used stays so,
a row is new only under an id that was never used, and a purge is asked for channels that have
a row. -/
structure Books (s s' : HubStorage) : Prop where
  used : ∀ channelId ∈ s.used, channelId ∈ s'.used
  rows : ∀ channelId row, s'.rows.get channelId = some row →
    (∃ row, s.rows.get channelId = some row) ∨ (channelId ∉ s.used ∧ channelId ∈ s'.used)
  jobs : ∀ ids, .purge ids ∈ s'.jobs → .purge ids ∈ s.jobs ∨
    ∀ channelId ∈ ids, ∃ row, s.rows.get channelId = some row

theorem Books.of_sub (hused : ∀ channelId ∈ s.used, channelId ∈ s'.used)
    (hrows : ∀ channelId row, s'.rows.get channelId = some row →
      s.rows.get channelId = some row)
    (hjobs : ∀ ids, .purge ids ∈ s'.jobs → .purge ids ∈ s.jobs) : Books s s' :=
  ⟨hused, fun channelId row h => .inl ⟨row, hrows channelId row h⟩, fun ids h => .inl (hjobs ids h)⟩

theorem get_of_foldl_delete {ids : List String} {rows : OrderedMap String MetaRow}
    {row : MetaRow} (h : (ids.foldl delete rows).get channelId = some row) :
    rows.get channelId = some row := by
  rw [get_foldl_delete] at h
  split_ifs at h
  exact h

/-- A step keeps the books of a judgement. -/
theorem step_books (h : s.step cfg a = some s') : Books s s' := by
  cases a with
  | trackChannel | storeSnapshot =>
    cases h
    exact .of_sub (fun _ hmem => mem_cons_of_mem _ hmem) (fun _ _ h => h) (fun _ h => h)
  | onOutput | untrackChannel =>
    cases h
    exact .of_sub (fun _ h => h) (fun _ _ h => h) (fun _ h => h)
  | flushTimer =>
    obtain ⟨-, ⟨rfl⟩⟩ := ite_none_right_eq_some.mp h
    exact .of_sub (fun _ h => h) (fun _ _ h => h) (fun _ h => h)
  | createChannel ch new =>
    obtain ⟨hnew, ⟨rfl⟩⟩ := ite_none_left_eq_some.mp h
    refine ⟨fun _ hmem => mem_cons_of_mem _ hmem, fun channelId row hrow => ?_, fun _ h => .inl h⟩
    by_cases heq : channelId = ch
    · subst heq
      exact .inr ⟨hnew, mem_cons_self⟩
    · rw [get_set_of_ne _ heq] at hrow
      exact .inl ⟨row, hrow⟩
  | updateChannel ch new =>
    cases h
    split_ifs with hexists
    · refine ⟨fun _ h => h, fun channelId row hrow => ?_, fun _ h => .inl h⟩
      by_cases heq : channelId = ch
      · subst heq
        exact .inl (isSome_iff_exists.mp hexists)
      · rw [get_set_of_ne _ heq] at hrow
        exact .inl ⟨row, hrow⟩
    · exact .of_sub (fun _ h => h) (fun _ _ h => h) (fun _ h => h)
  | deleteRows ids =>
    cases h
    exact .of_sub (fun _ h => h) (fun _ _ h => get_of_foldl_delete h) (fun _ h => h)
  | purgeChannels ids =>
    obtain ⟨hdead, ⟨rfl⟩⟩ := ite_none_right_eq_some.mp h
    refine ⟨fun _ h => h, fun _ row h => .inl ⟨row, get_of_foldl_delete h⟩, fun ids' hjob => ?_⟩
    rcases mem_append.mp hjob with hold | hnew
    · exact .inl hold
    · obtain rfl : ids' = ids := by simpa using hnew
      refine .inr fun channelId hmem => ?_
      have hrow := hdead channelId hmem
      cases hget : s.rows.get channelId with
      | none => simp [hget] at hrow
      | some row => exact ⟨row, rfl⟩
  | collect =>
    cases h
    split_ifs
    · exact .of_sub (fun _ h => h) (fun _ _ h => h) (fun _ h => h)
    · exact .of_sub (fun _ h => h) (fun _ _ h => h) (fun ids hjob => by simpa using hjob)
  | gcStart now =>
    obtain ⟨-, h⟩ := ite_none_right_eq_some.mp h
    split at h
    · cases h
    · rename_i jobs hjobs
      cases h
      refine .of_sub (fun _ h => h) (fun _ _ h => h) fun ids hjob => ?_
      rw [hjobs]
      exact mem_cons_of_mem _ hjob
    · rename_i ids' jobs hjobs
      cases h
      refine .of_sub (fun _ h => h) (fun _ _ h => h) fun ids hjob => ?_
      rw [hjobs]
      exact mem_cons_of_mem _ hjob
  | gc now =>
    obtain ⟨-, -, hrows, hjobs, hused⟩ := step_gc_eq h
    refine .of_sub ?_ ?_ ?_
    · rw [hused]
      exact fun _ h => h
    · rw [hrows]
      exact fun _ _ h => h
    · rw [hjobs]
      exact fun _ h => h
  | gcEnd =>
    obtain ⟨-, ⟨rfl⟩⟩ := ite_none_left_eq_some.mp h
    exact .of_sub (fun _ h => h) (fun _ _ h => h) (fun _ h => h)

theorem used_of_stores (h : s.step cfg a = some s') (hs : s.Listed)
    (hstores : s.stores a = some channelId) : channelId ∈ s'.used := by
  have htracked : ∀ buf, s.store.buffers.get channelId = some buf → channelId ∈ s'.used :=
    fun buf hbuf => (step_books h).used channelId (hs.buffers channelId buf hbuf)
  have hholds : s.store.holdsOutput channelId = true → channelId ∈ s'.used := by
    intro hholds
    cases hbuf : s.store.buffers.get channelId with
    | none => simp [holdsOutput, hbuf] at hholds
    | some buf => exact htracked buf hbuf
  cases a with
  | onOutput ch data w =>
    obtain ⟨hfull, heq⟩ := ite_none_right_eq_some.mp hstores
    cases heq
    cases hbuf : s.store.buffers.get channelId with
    | none => simp [hbuf] at hfull
    | some buf => exact htracked buf hbuf
  | flushTimer ch w | untrackChannel ch w =>
    obtain ⟨hwrites, heq⟩ := ite_none_right_eq_some.mp hstores
    cases heq
    exact hholds (Bool.and_eq_true_iff.mp hwrites).1
  | storeSnapshot ch dataBlob agentLastSeq w w' =>
    obtain ⟨-, heq⟩ := ite_none_right_eq_some.mp hstores
    cases heq
    cases h
    exact mem_cons_self
  | trackChannel | createChannel | updateChannel | deleteRows | purgeChannels | collect | gcStart
  | gc | gcEnd => cases hstores

theorem buffer_of_effects {v v' : View} (h : Effects n v v') (hv : v.buffer = none) :
    v'.buffer = none := by
  induction h with
  | refl => exact hv
  | tail _ hlast ih =>
    cases hlast with
    | timer _ hbuf | received _ hbuf | output hbuf => exact absurd (ih.symm.trans hbuf) nofun
    | snapshot => simp [ih]
    | untracked => rfl

/-- A step keeps what is known of the channels on the list. -/
theorem step_listed (habove : s.CountersAbove) (h : s.step cfg a = some s') (hs : s.Listed) :
    s'.Listed := by
  have hbooks := step_books h
  have hrowsUsed : ∀ channelId row, s'.rows.get channelId = some row → channelId ∈ s'.used := by
    intro channelId row hrow
    rcases hbooks.rows channelId row hrow with ⟨row', hold⟩ | ⟨-, hnew⟩
    · exact hbooks.used channelId (hs.rows channelId row' hold)
    · exact hnew
  refine ⟨hrowsUsed, ?_, ?_, ?_, ?_, ?_⟩
  · intro channelId hchunks
    by_cases hgc : ∃ now, a = .gc now
    · obtain ⟨now, rfl⟩ := hgc
      refine hbooks.used channelId (hs.chunks channelId fun hnil => hchunks ?_)
      refine eq_nil_iff_forall_not_mem.mpr fun c hc => ?_
      have hold := mem_of_mem_gcNext h hc
      rw [hnil] at hold
      cases hold
    · by_cases hstores : s.stores a = some channelId
      · exact used_of_stores h hs hstores
      · rw [chunks_of_not_stores habove h (fun now ha => hgc ⟨now, ha⟩) hstores] at hchunks
        exact hbooks.used channelId (hs.chunks channelId hchunks)
  · intro channelId buf hbuf
    have hbuf' : (s'.store.view channelId).buffer = some buf := hbuf
    have htracked : (s.store.view channelId).buffer ≠ none → channelId ∈ s'.used := by
      intro hne
      obtain ⟨buf', hbuf'⟩ := ne_none_iff_exists'.mp hne
      exact hbooks.used channelId (hs.buffers channelId buf' hbuf')
    rcases step_view habove h channelId with hsame | ⟨rfl, -, -⟩ | ⟨-, heffects⟩ |
      ⟨now, purpose, throughSeq, afterSeq, c, hc, -, -, -, hview⟩
    · rw [hsame] at hbuf'
      exact htracked (by rw [hbuf']; exact nofun)
    · cases h
      exact mem_cons_self
    · refine htracked fun hnone => ?_
      rw [buffer_of_effects heffects hnone] at hbuf'
      cases hbuf'
    · rw [hview] at hbuf'
      exact htracked (by rw [hbuf']; exact nofun)
  · intro ids hjob channelId hmem
    rcases hbooks.jobs ids hjob with hold | hrows
    · exact hbooks.used channelId (hs.jobs ids hold channelId hmem)
    · obtain ⟨row, hrow⟩ := hrows channelId hmem
      exact hbooks.used channelId (hs.rows channelId row hrow)
  · intro channelId hmem
    refine hbooks.used channelId ?_
    rcases step_gc h with ⟨-, hgc, -⟩ | ⟨now, rfl, hgc, -⟩ |
      ⟨-, -, ⟨hgc, -⟩ | ⟨_, hgc, -⟩ | ⟨ids, hgc, hjobs⟩⟩ <;> rw [hgc] at hmem
    · exact hs.lookedUp channelId hmem
    · rcases gcNext_lookedUp cfg now s.rows s.spool s.gc channelId hmem with hold | hchunks
      · exact hs.lookedUp channelId hold
      · exact hs.chunks channelId hchunks
    · cases hmem
    · cases hmem
    · refine hs.jobs ids (hjobs ▸ mem_cons_self) channelId ?_
      cases ids with
      | nil => cases hmem
      | cons next rest => exact hmem
  · intro channelId lane judgedAt throughSeq afterSeq hdeleting
    have hkeeps : s.rows.get channelId = none → channelId ∈ s.used →
        s'.rows.get channelId = none := by
      intro hnone hused
      cases hrow : s'.rows.get channelId with
      | none => rfl
      | some row =>
        rcases hbooks.rows channelId row hrow with ⟨row', hold⟩ | ⟨hnew, -⟩
        · rw [hnone] at hold
          cases hold
        · exact absurd hused hnew
    rcases step_gc h with ⟨-, hgc, -⟩ | ⟨now, rfl, hgc, -⟩ | ⟨-, -, hgc⟩
    · rw [hgc] at hdeleting
      refine hkeeps (hs.orphan _ _ _ _ _ hdeleting) (hs.lookedUp channelId ?_)
      rw [hdeleting]
      cases lane <;> exact mem_cons_self
    · rw [hgc] at hdeleting
      obtain ⟨-, -, hrows, -⟩ := step_gc_eq h
      rw [hrows]
      rcases gcNext_deleting hdeleting with ⟨hbegins, -, -⟩ | ⟨c, -, before, hgc', -⟩
      · generalize s.gc = gc at hbegins
        cases hbegins with
        | orphan _ hrow => exact hrow
      · exact hs.orphan _ _ _ _ _ hgc'
    · rw [hdeleting] at hgc
      rcases hgc with ⟨hidle, -⟩ | ⟨_, hjudge, -⟩ | ⟨ids, hresume, -⟩
      · cases hidle
      · cases hjudge
      · exact absurd hresume.symm (resume_ne_deleting _ _ _ _ _ _)

theorem init_listed (spool : Spool) (rows : OrderedMap String MetaRow) :
    (init spool rows).Listed where
  rows := by
    intro channelId row hrow
    exact mem_append_left _ ((mem_keys_iff _ _).mpr ⟨row, hrow⟩)
  chunks := by
    intro channelId hchunks
    refine mem_append_right _ ((mem_keys_iff _ _).mpr ?_)
    have hsome : spool.channels.get channelId ≠ none := by
      intro hnone
      have hchunks' : ((spool.channels.get channelId).getD .empty).rows ≠ [] := hchunks
      rw [hnone] at hchunks'
      exact hchunks' rfl
    exact ne_none_iff_exists'.mp hsome
  buffers := by
    intro channelId buf hbuf
    cases hbuf
  jobs := nofun
  lookedUp := nofun
  orphan := nofun

end HubStorage

open HubStorage

/-- **What a pass or a purge deletes.**  Whatever is stored, brought back or deleted between
its steps, as long as no chunk is stored of a channel between the list of the dead and the
reading of its highest number: a chunk goes by the judgement on its channel only if it had been
stored when the channel was judged; what was then the newest snapshot of a channel with a row
does not go; and a channel emptied as an orphan has no row as its chunks go. -/
theorem deletes_only_what_was_judged {cfg : GcConfig} {spool : Spool}
    {rows : OrderedMap String MetaRow} {s s' : HubStorage} {now : ℤ}
    (h : Run (step cfg) JudgedFirst (init spool rows) s) (hstep : s.step cfg (.gc now) = some s')
    {channelId : String} {c : Chunk} (hbefore : c ∈ (s.spool.chunks channelId).rows)
    (hafter : c ∉ (s'.spool.chunks channelId).rows) : s.MayDelete channelId c := by
  have hinv := h.invariant (I := fun s => s.CountersAbove ∧ s.GcFits ∧ s.IdsJudged ∧
    s.NewestJudged ∧ s.Listed) ?_ ?_
  · obtain ⟨habove, hfits, hids, hnewest, hlisted⟩ := hinv
    -- The chunk was in the range of this step's batch.
    rcases step_view habove hstep channelId with hsame | ⟨ha, -⟩ | ⟨ha, -⟩ |
      ⟨now', purpose, throughSeq, afterSeq, last, hlast, -, hgc, hrange, hview⟩
    · exact absurd ((congrArg (·.chunks.rows) hsame).symm ▸ hbefore) hafter
    · cases ha
    · cases ha
    · have hin : Spool.inRange afterSeq last.seq purpose.kinds c = true := by
        have hchunks : s'.spool.chunks channelId = _ := congrArg View.chunks hview
        rw [hchunks] at hafter
        by_contra hout
        exact hafter (mem_filter.mpr ⟨hbefore, by simpa using hout⟩)
      obtain ⟨hgt, hle, hpicks⟩ := (inRange_iff _ _ _ _).mp hin
      obtain ⟨-, hthrough, -⟩ := (inRange_iff _ _ _ _).mp hrange
      have hold : ∀ judgedAt ∈ purpose.judgedAt, c.id < judgedAt := by
        intro judgedAt hjudged
        rcases hids.range _ _ _ _ hgc judgedAt hjudged with hend | hold
        · omega
        · exact hold c hbefore (by omega)
      have hfit := hfits _ _ _ _ hgc
      unfold MayDelete
      rw [hgc]
      cases purpose with
      | dead rest judgedAt => exact ⟨rfl, hold judgedAt rfl⟩
      | orphan lane judgedAt =>
        exact ⟨rfl, hold judgedAt rfl, hlisted.orphan _ _ _ _ _ hgc⟩
      | oldSnapshots newestSeq newestBytes ageCutoff judged =>
        refine ⟨rfl, fun hjudged => ?_⟩
        -- A newer one than the range is there, so this one is not the newest.
        have hlatest := (hnewest channelId c (by rw [hgc, hjudged]; rfl)).2 hbefore
        obtain ⟨-, -, hmax⟩ := (latest_eq_some_iff _ _ _).mp hlatest
        obtain ⟨r, hr, hkind, hlt⟩ := hfit
        have hmax' := hmax r hr (by simpa using hkind)
        omega
      | others ageCutoff judged =>
        refine ⟨rfl, fun hjudged => ?_⟩
        have hlatest := (hnewest channelId c (by rw [hgc, hjudged]; rfl)).2 hbefore
        have hkind := ((latest_eq_some_iff _ _ _).mp hlatest).2.1
        simp [Purpose.kinds, ChunkKinds.picks] at hpicks
        simp [hpicks] at hkind
  · refine ⟨?_, ?_, ⟨nofun, fun _ _ _ _ h => nomatch h⟩, (fun _ _ h => nomatch h),
      init_listed spool rows⟩
    · exact init_countersAbove spool rows
    · exact init_gcFits spool rows
  · rintro s a s' ⟨habove, hfits, hids, hnewest, hlisted⟩ hok hn
    exact ⟨step_countersAbove habove hn, step_gcFits habove hn hfits,
      step_idsJudged habove hfits hn hok hids, step_newestJudged habove hn hnewest,
      step_listed habove hn hlisted⟩

/-- A channel dead past its retention is emptied of the chunk it had when it was judged. -/
theorem dead_channel_emptied :
    ∃ s s' c, exec (step ⟨0, 1024⟩) (init .empty .empty) [.createChannel "a" ⟨false, 0⟩,
        .trackChannel "a", .onOutput "a" [1] ⟨0, true⟩, .untrackChannel "a" ⟨0, true⟩,
        .updateChannel "a" ⟨true, 1⟩, .collect, .gcStart 2, .gc 2, .gc 2] = some s ∧
      s.step ⟨0, 1024⟩ (.gc 2) = some s' ∧ c ∈ (s.spool.chunks "a").rows ∧
      c ∉ (s'.spool.chunks "a").rows ∧ s.MayDelete "a" c := by
  have hrun : Run (step ⟨0, 1024⟩) JudgedFirst (init .empty .empty) _ :=
    .get [.createChannel "a" ⟨false, 0⟩, .trackChannel "a", .onOutput "a" [1] ⟨0, true⟩,
      .untrackChannel "a" ⟨0, true⟩, .updateChannel "a" ⟨true, 1⟩, .collect, .gcStart 2, .gc 2,
      .gc 2] (by decide +kernel) (by decide +kernel)
  exact ⟨_, _, ⟨0, 1, 0, .output, [1]⟩, (some_get _).symm,
    (some_get (by decide +kernel)).symm, by decide +kernel, by decide +kernel,
    @deletes_only_what_was_judged _ _ _ _ _ 2 hrun (some_get (by decide +kernel)).symm _ _
      (by decide +kernel) (by decide +kernel)⟩

/-- A channel on the list of the dead is brought back and writes before its highest number is
read: what it wrote is deleted with the rest. -/
theorem deletes_what_came_after_the_list :
    ¬∀ s s' now c, Run (step ⟨0, 1024⟩) free (init .empty .empty) s →
      s.step ⟨0, 1024⟩ (.gc now) = some s' → c ∈ (s.spool.chunks "a").rows →
        c ∉ (s'.spool.chunks "a").rows → s.MayDelete "a" c := by
  intro h
  have hrun : Run (step ⟨0, 1024⟩) free (init .empty .empty) _ := .get_free
    [.createChannel "a" ⟨false, 0⟩, .trackChannel "a", .onOutput "a" [1] ⟨0, true⟩,
      .untrackChannel "a" ⟨0, true⟩, .updateChannel "a" ⟨true, 1⟩, .collect, .gcStart 2, .gc 2,
      .updateChannel "a" ⟨false, 2⟩, .trackChannel "a", .onOutput "a" [2] ⟨2, true⟩,
      .flushTimer "a" ⟨3, true⟩, .gc 3] (by decide +kernel)
  have hmay := h _ _ 3 ⟨1, 2, 3, .output, [2]⟩ hrun (some_get (by decide +kernel)).symm
    (by decide +kernel) (by decide +kernel)
  exact absurd hmay.2 (by decide +kernel)

end Lasterm.Hub
