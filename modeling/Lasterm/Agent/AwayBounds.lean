import Lasterm.Agent.Delivery
import Mathlib.Algebra.Order.Group.Nat

/-!
# What an absent hub's queue keeps

The bounds of `AwayQueue` in `crates/lasterm-agent/src/away.rs`, over every sequence of frames that
are not empty.  A push adds a frame and then runs two loops: one drops from the channel pushed to
while it is over its own bound, the other from the channel that holds the most while the hub is
over its.  Each turn drops the oldest frame of a channel with more than one.

## Main definitions

* `pushAll` — the queue after some pushes; `Exact` — its invariant.

## Main results

* `Exact.exists_loops` — the loops of a push, until neither has anything to drop.
* `away_queue_exact` — what is kept, and what is counted, after any pushes.
-/

namespace Lasterm.Agent.AwayQueue

open List OrderedMap

open Relation (ReflTransGen)

variable {φ : Type} (len : φ → ℕ)

/-- What `push` does before its loops. -/
def add (q : AwayQueue φ) (id : String) (frame : φ) : AwayQueue φ :=
  let backlog := (q.channels.get id).getD ⟨[], 0⟩
  { q with
    channels := q.channels.set id ⟨backlog.frames ++ [(q.next, frame)], backlog.bytes + len frame⟩
    bytes := q.bytes + len frame
    next := q.next + 1 }

/-- The frames pushed one after another. -/
def pushAll (pushed : List (String × φ)) : AwayQueue φ :=
  pushed.foldl (fun q p => q.push len p.1 p.2) empty

/-- The frames pushed for one channel, each with its rank among all. -/
def own (id : String) (pushed : List (String × φ)) : List (ℕ × φ) :=
  pushed.zipIdx.filterMap fun e => if e.1.1 = id then some (e.2, e.1.2) else none

/-- The frame of that rank, pushed for that channel, is held. -/
def keeps (q : AwayQueue φ) (e : (String × φ) × ℕ) : Bool :=
  (q.channels.get e.1.1).any fun b => e.2 ∈ b.frames.map Prod.fst

/-- The bytes of a list of frames. -/
def size (frames : List (ℕ × φ)) : ℕ := (frames.map fun r => len r.2).sum

/-- The counters are the sizes of the frames held. -/
structure Counted (q : AwayQueue φ) : Prop where
  channel : ∀ id b, q.channels.get id = some b → b.bytes = size len b.frames
  total : q.bytes = (q.channels.entries.map (·.2.bytes)).sum

/-- One turn of a loop: a channel with more than one frame loses its oldest, and neither counter is
lowered by more than it holds. -/
structure Drops (id : String) (b : ChannelBacklog φ) (q q' : AwayQueue φ) : Prop where
  held : q.channels.get id = some b
  more : 1 < b.frames.length
  fits_channel : (b.dropOldest len).1 ≤ b.bytes
  fits_hub : (b.dropOldest len).1 ≤ q.bytes
  after : q' = q.shrink id (b.dropOldest len)

/-- A turn of the first loop: the channel is over its bound. -/
def ChannelDrops (id : String) (q q' : AwayQueue φ) : Prop :=
  ∃ b, Drops len id b q q' ∧ awayBytesPerChannel < b.bytes

/-- A turn of the second: the hub is over its bound, and no other channel with more than one frame
holds more. -/
def HubDrops (q q' : AwayQueue φ) : Prop :=
  ∃ id b, Drops len id b q q' ∧ awayBytesPerHub < q.bytes ∧
    ∀ id' b', q.channels.get id' = some b' → 1 < b'.frames.length → b'.bytes ≤ b.bytes

/-- What a queue holds after these frames were pushed. -/
structure Exact (pushed : List (String × φ)) (q : AwayQueue φ) : Prop extends Counted len q where
  positive : ∀ p ∈ pushed, 0 < len p.2
  present : ∀ p ∈ pushed, (q.channels.get p.1).isSome
  suffix : ∀ id b, q.channels.get id = some b → b.frames ≠ [] ∧ b.frames <:+ own id pushed
  next : q.next = pushed.length
  account : q.dropped + q.bytes = (pushed.map fun p => len p.2).sum

/-- No channel is over its bound but for its last frame. -/
def Bounded (q : AwayQueue φ) : Prop :=
  ∀ id b, q.channels.get id = some b → awayBytesPerChannel < b.bytes → b.frames.length = 1

variable {len} {q q' : AwayQueue φ} {id : String} {b : ChannelBacklog φ}
  {pushed : List (String × φ)} {frame : φ}

theorem own_append (id : String) (pushed : List (String × φ)) (p : String × φ) :
    own id (pushed ++ [p]) =
      own id pushed ++ if p.1 = id then [(pushed.length, p.2)] else [] := by
  rw [own, zipIdx_append, filterMap_append, own]
  by_cases h : p.1 = id <;> simp [h]

theorem mem_own {r : ℕ × φ} : r ∈ own id pushed ↔ ((id, r.2), r.1) ∈ pushed.zipIdx := by
  rw [own, mem_filterMap]
  constructor
  · rintro ⟨⟨⟨id', f⟩, n⟩, he, hif⟩
    obtain ⟨rfl, hr⟩ := Option.ite_none_right_eq_some.mp hif
    exact Option.some.inj hr ▸ he
  · exact fun he => ⟨_, he, if_pos rfl⟩

/-! ### One turn -/

namespace ChannelBacklog

theorem dropOldest_spec (len : φ → ℕ) (h : 1 < b.frames.length) :
    ∃ r rest, b.frames = r :: rest ∧ rest ≠ [] ∧
      b.dropOldest len = (len r.2, ⟨rest, b.bytes - len r.2⟩) := by
  obtain ⟨frames, bytes⟩ := b
  match frames, h with
  | r :: g :: rest, _ => exact ⟨r, g :: rest, rfl, cons_ne_nil _ _, rfl⟩

end ChannelBacklog

theorem Counted.le (h : Counted len q) (hget : q.channels.get id = some b) :
    b.bytes ≤ q.bytes := by
  rw [h.total]
  have hmem := (get_eq_some_iff _ _ _).mp hget
  exact le_sum_of_mem (mem_map_of_mem (f := fun e => e.2.bytes) hmem)

theorem Counted.drops (h : Counted len q) (hget : q.channels.get id = some b)
    (hmore : 1 < b.frames.length) : Drops len id b q (q.shrink id (b.dropOldest len)) := by
  obtain ⟨r, rest, hframes, -, hdrop⟩ := ChannelBacklog.dropOldest_spec len hmore
  have hbytes := h.channel id b hget
  have hle := h.le hget
  have hfits : (b.dropOldest len).1 ≤ b.bytes := by
    rw [hdrop, hbytes, hframes]
    simp [size]
  exact ⟨hget, hmore, hfits, hfits.trans hle, rfl⟩

theorem Exact.drops (h : Exact len pushed q) (hd : Drops len id b q q') : Exact len pushed q' := by
  obtain ⟨r, rest, hframes, hrest, hdrop⟩ := ChannelBacklog.dropOldest_spec len hd.more
  have hfits := hd.fits_channel
  have hhub := hd.fits_hub
  obtain rfl := hd.after
  rw [hdrop] at hfits hhub ⊢
  have hbytes := h.channel id b hd.held
  rw [hframes, size, map_cons, sum_cons] at hbytes
  refine ⟨⟨fun id' b' hget => ?_, ?_⟩, h.positive, fun p hp => ?_, fun id' b' hget => ?_, h.next, ?_⟩
  · simp only [shrink, get_set] at hget
    split at hget
    · cases hget
      change b.bytes - len r.2 = (rest.map fun r => len r.2).sum
      omega
    · exact h.channel id' b' hget
  · have hsum := sum_set (f := fun b : ChannelBacklog φ => b.bytes) hd.held
      ⟨rest, b.bytes - len r.2⟩
    have htotal := h.total
    simp only [shrink] at hsum ⊢
    omega
  · simp only [shrink, get_set]
    split
    · rfl
    · exact h.present p hp
  · simp only [shrink, get_set] at hget
    split at hget
    · next heq =>
      cases hget
      have hsuffix := (h.suffix id b hd.held).2
      rw [hframes] at hsuffix
      exact ⟨hrest, heq ▸ (suffix_cons r rest).trans hsuffix⟩
    · exact h.suffix id' b' hget
  · have haccount := h.account
    simp only [shrink]
    omega

theorem Drops.get (hd : Drops len id b q q') {id' : String} {b' : ChannelBacklog φ}
    (hget : q'.channels.get id' = some b') :
    ∃ b₀, q.channels.get id' = some b₀ ∧ (b' = b₀ ∨ id' = id ∧ 1 < b₀.frames.length ∧
      b'.bytes ≤ b₀.bytes) := by
  obtain ⟨r, rest, hframes, -, hdrop⟩ := ChannelBacklog.dropOldest_spec len hd.more
  obtain rfl := hd.after
  simp only [hdrop, shrink, get_set] at hget
  split at hget
  · next heq =>
    cases hget
    exact ⟨b, heq ▸ hd.held, .inr ⟨heq, hd.more, Nat.sub_le _ _⟩⟩
  · exact ⟨b', hget, .inl rfl⟩

theorem Bounded.drops (h : q.Bounded) (hd : Drops len id b q q') : q'.Bounded := by
  intro id' b' hget hover
  obtain ⟨b₀, hget₀, rfl | ⟨-, hmore, hle⟩⟩ := hd.get hget
  · exact h id' b' hget₀ hover
  · have hone := h id' b₀ hget₀ (by omega)
    omega

/-! ### The loops -/

theorem trimChannel_loop (n : ℕ) (h : Exact len pushed q)
    (hn : ∀ b, q.channels.get id = some b → b.frames.length ≤ n) :
    ReflTransGen (ChannelDrops len id) q (q.trimChannel len id n) ∧
      ∀ b, (q.trimChannel len id n).channels.get id = some b →
        awayBytesPerChannel < b.bytes → b.frames.length = 1 := by
  induction n generalizing q with
  | zero =>
    refine ⟨.refl, fun b hget _ => absurd (hn b hget) ?_⟩
    have hne := (h.suffix id b hget).1
    exact Nat.not_le.mpr (length_pos_iff.mpr hne)
  | succ n ih =>
    rw [trimChannel]
    split
    · next hnone =>
      refine ⟨.refl, fun b hget => ?_⟩
      cases hnone.symm.trans hget
    · next b hget =>
      split
      · next hover =>
        by_cases hmore : 1 < b.frames.length
        · have hd := h.toCounted.drops hget hmore
          obtain ⟨r, rest, hframes, -, hdrop⟩ := ChannelBacklog.dropOldest_spec len hmore
          have hr : 0 < len r.2 := by
            have hmem : r ∈ own id pushed := (h.suffix id b hget).2.mem (by simp [hframes])
            exact h.positive _ (fst_mem_of_mem_zipIdx (mem_own.mp hmem))
          rw [if_neg (by rw [hdrop]; exact hr.ne')]
          have hrest := ih (Exact.drops h hd) fun b' hget' => by
            rw [hdrop, shrink, get_set_self] at hget'
            cases hget'
            have hlen := hn b hget
            rw [hframes, length_cons] at hlen
            exact Nat.le_of_succ_le_succ hlen
          exact ⟨.head ⟨b, hd, hover⟩ hrest.1, hrest.2⟩
        · have hone : b.frames.length = 1 :=
            le_antisymm (Nat.not_lt.mp hmore) (length_pos_iff.mpr (h.suffix id b hget).1)
          have hdrop : b.dropOldest len = (0, b) := by
            obtain ⟨frames, bytes⟩ := b
            obtain ⟨r, rfl⟩ : ∃ r, frames = [r] := length_eq_one_iff.mp hone
            rfl
          have hsame : q.shrink id (0, b) = q := by
            rw [shrink, set_eq_self hget]
            rfl
          rw [hdrop, if_pos rfl, hsame]
          exact ⟨.refl, fun b' hget' _ => Option.some.inj (hget.symm.trans hget') ▸ hone⟩
      · next hunder =>
        refine ⟨.refl, fun b' hget' hover => absurd hover ?_⟩
        obtain ⟨rfl⟩ := hget.symm.trans hget'
        exact hunder

theorem length_le_count (hget : q.channels.get id = some b) : b.frames.length ≤ q.count := by
  have hmem := (get_eq_some_iff _ _ _).mp hget
  exact le_sum_of_mem (mem_map_of_mem (f := fun e => e.2.frames.length) hmem)

theorem Drops.count (hd : Drops len id b q q') : q'.count + 1 = q.count := by
  obtain ⟨r, rest, hframes, -, hdrop⟩ := ChannelBacklog.dropOldest_spec len hd.more
  obtain rfl := hd.after
  have hsum := sum_set (f := fun b : ChannelBacklog φ => b.frames.length) hd.held
    (b.dropOldest len).2
  rw [hdrop, hframes, length_cons] at hsum
  unfold AwayQueue.count shrink
  rw [hdrop]
  dsimp only at hsum ⊢
  omega

theorem Counted.exists_hubDrops (h : Counted len q) (hover : awayBytesPerHub < q.bytes)
    (hget : q.channels.get id = some b) (hmore : 1 < b.frames.length) :
    ∃ e, q.largest = some e ∧ HubDrops len q (q.shrink e.1 (e.2.dropOldest len)) := by
  have hspec := q.largest_spec
  cases hl : q.largest with
  | none =>
    rw [hl] at hspec
    exact absurd (hspec id b hget) (Nat.not_le.mpr hmore)
  | some e =>
    rw [hl] at hspec
    exact ⟨e, rfl, e.1, e.2, h.drops hspec.1 hspec.2.1, hover, hspec.2.2⟩

theorem trimHub_loop (n : ℕ) (h : Exact len pushed q) (hn : q.count ≤ n) :
    ReflTransGen (HubDrops len) q (q.trimHub len n) ∧
      ∀ q', ¬HubDrops len (q.trimHub len n) q' := by
  induction n generalizing q with
  | zero =>
    refine ⟨.refl, ?_⟩
    rintro q' ⟨id, b, hd, -⟩
    have hle := (length_le_count hd.held).trans hn
    have hmore := hd.more
    omega
  | succ n ih =>
    rw [trimHub]
    split
    · next hover =>
      split
      · next hnone =>
        refine ⟨.refl, ?_⟩
        rintro q' ⟨id, b, hd, -⟩
        obtain ⟨e, he, -⟩ := h.toCounted.exists_hubDrops hover hd.held hd.more
        cases hnone.symm.trans he
      · next id b hl =>
        have hspec := q.largest_spec
        rw [hl] at hspec
        have hd := h.toCounted.drops hspec.1 hspec.2.1
        have hcount := hd.count
        have hrest := ih (Exact.drops h hd) (by omega)
        exact ⟨.head ⟨id, b, hd, hover, hspec.2.2⟩ hrest.1, hrest.2⟩
    · next hunder =>
      refine ⟨.refl, ?_⟩
      rintro q' ⟨_, _, _, hover, _⟩
      exact hunder hover

theorem Exact.channelLoop (h : Exact len pushed q)
    (hl : ReflTransGen (ChannelDrops len id) q q') : Exact len pushed q' := by
  induction hl with
  | refl => exact h
  | tail _ hstep ih =>
    obtain ⟨b, hd, -⟩ := hstep
    exact ih.drops hd

theorem Exact.hubLoop (h : Exact len pushed q) (hl : ReflTransGen (HubDrops len) q q') :
    Exact len pushed q' := by
  induction hl with
  | refl => exact h
  | tail _ hstep ih =>
    obtain ⟨id, b, hd, -⟩ := hstep
    exact ih.drops hd

theorem Bounded.hubLoop (h : q.Bounded) (hl : ReflTransGen (HubDrops len) q q') : q'.Bounded := by
  induction hl with
  | refl => exact h
  | tail _ hstep ih =>
    obtain ⟨id, b, hd, -⟩ := hstep
    exact ih.drops hd

/-! ### A push -/

section

variable (h : Exact len pushed q)
include h

theorem Exact.backlog (id : String) :
    ∃ b : ChannelBacklog φ, (q.channels.get id).getD ⟨[], 0⟩ = b ∧ b.bytes = size len b.frames ∧
      b.frames <:+ own id pushed ∧ ∀ v : ChannelBacklog φ,
        ((q.channels.set id v).entries.map (·.2.bytes)).sum + b.bytes = q.bytes + v.bytes := by
  cases hget : q.channels.get id with
  | some b =>
    refine ⟨b, rfl, h.channel id b hget, (h.suffix id b hget).2, fun v => ?_⟩
    rw [h.total]
    exact sum_set (f := fun b : ChannelBacklog φ => b.bytes) hget v
  | none =>
    have hkey : id ∉ q.channels.keys := by
      intro hmem
      obtain ⟨v, hv⟩ := (mem_keys_iff _ id).mp hmem
      exact nomatch hget.symm.trans hv
    refine ⟨⟨[], 0⟩, rfl, rfl, nil_suffix, fun v => ?_⟩
    rw [entries_set_of_not_mem hkey, h.total]
    simp

theorem Exact.add (id : String) (hf : 0 < len frame) :
    Exact len (pushed ++ [(id, frame)]) (q.add len id frame) := by
  obtain ⟨b, hb, hbytes, hsuffix, hsum⟩ := h.backlog id
  unfold AwayQueue.add
  rw [hb]
  refine ⟨⟨fun id' b' hget => ?_, ?_⟩, fun p hp => ?_, fun p hp => ?_, fun id' b' hget => ?_, ?_, ?_⟩
  · rw [get_set] at hget
    split at hget
    · cases hget
      simp [size, hbytes]
    · exact h.channel id' b' hget
  · have hadded := hsum ⟨b.frames ++ [(q.next, frame)], b.bytes + len frame⟩
    dsimp only at hadded ⊢
    omega
  · obtain hp | hp := mem_append.mp hp
    · exact h.positive p hp
    · exact mem_singleton.mp hp ▸ hf
  · rw [get_set]
    split
    · rfl
    · next hne =>
      obtain hp | hp := mem_append.mp hp
      · exact h.present p hp
      · exact absurd (congrArg Prod.fst (mem_singleton.mp hp)) hne
  · rw [get_set] at hget
    rw [own_append]
    split at hget
    · next heq =>
      cases hget
      obtain ⟨t, ht⟩ := hsuffix
      rw [if_pos heq.symm, h.next, heq, ← ht, append_assoc]
      exact ⟨by simp, suffix_append t _⟩
    · next hne =>
      rw [if_neg (Ne.symm hne), append_nil]
      exact h.suffix id' b' hget
  · simp [h.next]
  · have haccount := h.account
    simp only [map_append, sum_append, map_cons, map_nil, sum_singleton]
    omega

/-- **The two loops of a push**, until neither has anything to drop. -/
theorem Exact.exists_loops (id : String) (hf : 0 < len frame) :
    ∃ q₁, ReflTransGen (ChannelDrops len id) (q.add len id frame) q₁ ∧
      (∀ q₂, ¬ChannelDrops len id q₁ q₂) ∧ ReflTransGen (HubDrops len) q₁ (q.push len id frame) ∧
      ∀ q₂, ¬HubDrops len (q.push len id frame) q₂ := by
  have hadded := h.add id hf
  obtain ⟨hloop, hone⟩ := trimChannel_loop
    (((q.channels.get id).getD ⟨[], 0⟩).frames.length + 1) hadded fun b hget => by
      rw [AwayQueue.add, get_set_self] at hget
      cases hget
      simp
  obtain ⟨hhub, hend⟩ := trimHub_loop _ (hadded.channelLoop hloop) le_rfl
  refine ⟨_, hloop, ?_, hhub, hend⟩
  rintro q₂ ⟨b, hd, hover⟩
  have hmore := hd.more
  rw [hone b hd.held hover] at hmore
  exact absurd hmore (lt_irrefl 1)

theorem Exact.push (hb : q.Bounded) (id : String) (hf : 0 < len frame) :
    Exact len (pushed ++ [(id, frame)]) (q.push len id frame) ∧ (q.push len id frame).Bounded := by
  obtain ⟨q₁, hloop, hended, hhub, -⟩ := h.exists_loops id hf
  have hexact := (h.add id hf).channelLoop hloop
  have hothers : ∀ id' b, id' ≠ id → q₁.channels.get id' = some b → q.channels.get id' = some b := by
    intro id' b hne hget
    clear hended hhub hexact
    induction hloop generalizing b with
    | refl => rwa [AwayQueue.add, get_set_of_ne _ hne] at hget
    | tail _ hstep ih =>
      obtain ⟨b', hd, -⟩ := hstep
      obtain ⟨b₀, hget₀, rfl | ⟨heq, -⟩⟩ := hd.get hget
      · exact ih _ hget₀
      · exact absurd heq hne
  have hbounded : q₁.Bounded := by
    intro id' b hget hover
    by_cases heq : id' = id
    · subst heq
      by_contra hlen
      have hpos := length_pos_iff.mpr (hexact.suffix id' b hget).1
      exact hended _ ⟨b, hexact.toCounted.drops hget (by omega), hover⟩
    · exact hb id' b (hothers id' b heq hget) hover
  exact ⟨hexact.hubLoop hhub, hbounded.hubLoop hhub⟩

end

/-! ### Every sequence of pushes -/

theorem pushAll_append (pushed : List (String × φ)) (p : String × φ) :
    pushAll len (pushed ++ [p]) = (pushAll len pushed).push len p.1 p.2 := by
  rw [pushAll, foldl_append]
  rfl

theorem exact_pushAll (hlen : ∀ p ∈ pushed, 0 < len p.2) :
    Exact len pushed (pushAll len pushed) ∧ (pushAll len pushed).Bounded := by
  induction pushed using reverseRecOn with
  | nil => exact ⟨⟨⟨nofun, rfl⟩, nofun, nofun, nofun, rfl, rfl⟩, nofun⟩
  | append_singleton pushed p ih =>
    obtain ⟨hexact, hbounded⟩ := ih fun p' hp' => hlen p' (mem_append_left _ hp')
    rw [pushAll_append]
    exact hexact.push hbounded p.1 (hlen p (by simp))

theorem ranked_pushAll_le (pushed : List (String × φ)) :
    (pushAll len pushed).ranked ≤ ((pushed.zipIdx.map fun e => (e.2, e.1.2) : List _) : Multiset _) ∧
      (pushAll len pushed).next = pushed.length := by
  induction pushed using reverseRecOn with
  | nil => exact ⟨le_rfl, rfl⟩
  | append_singleton pushed p ih =>
    obtain ⟨hle, hnext⟩ := ranked_push_le len (pushAll len pushed) p.1 p.2
    rw [pushAll_append]
    refine ⟨hle.trans ?_, by rw [hnext, ih.2]; simp⟩
    rw [zipIdx_append, map_append, ← Multiset.coe_add, ih.2]
    exact add_le_add ih.1 (by simp)

theorem pairwise_zipIdx (pushed : List (String × φ)) :
    pushed.zipIdx.Pairwise fun a b => a.2 < b.2 := by
  have hranks : (pushed.zipIdx.map Prod.snd).Pairwise (· < ·) := by
    rw [zipIdx_map_snd]
    exact pairwise_lt_range'
  exact pairwise_map.mp hranks

theorem Exact.mem_ranked (h : Exact len pushed q) (r : ℕ × φ) :
    r ∈ q.ranked ↔ r ∈ (pushed.zipIdx.filter q.keeps).map fun e => (e.2, e.1.2) := by
  rw [← coe_flatMap_frames, Multiset.mem_coe, mem_flatMap, mem_map]
  constructor
  · rintro ⟨⟨id, b⟩, he, hr⟩
    have hget := (get_eq_some_iff _ _ _).mpr he
    have hmem := mem_own.mp ((h.suffix id b hget).2.mem hr)
    refine ⟨_, mem_filter.mpr ⟨hmem, ?_⟩, rfl⟩
    rw [keeps, hget, Option.any_some]
    exact decide_eq_true (mem_map_of_mem hr)
  · rintro ⟨e, he, rfl⟩
    obtain ⟨hmem, hkept⟩ := mem_filter.mp he
    obtain ⟨b, hget, hrank⟩ : ∃ b, q.channels.get e.1.1 = some b ∧
        decide (e.2 ∈ b.frames.map Prod.fst) = true := by
      unfold keeps at hkept
      cases hget : q.channels.get e.1.1 with
      | none => exact nomatch hget ▸ hkept
      | some b => exact ⟨b, rfl, by rwa [hget] at hkept⟩
    obtain ⟨r, hr, hre⟩ := mem_map.mp (of_decide_eq_true hrank)
    refine ⟨(e.1.1, b), (get_eq_some_iff _ _ _).mp hget, ?_⟩
    -- a rank is given once, so the frame of that rank is the one pushed
    have hsame := mem_zipIdx_iff_getElem?.mp (mem_own.mp ((h.suffix _ b hget).2.mem hr))
    rw [hre, mem_zipIdx_iff_getElem?.mp hmem] at hsame
    obtain rfl : r = (e.2, e.1.2) :=
      Prod.ext hre (congrArg Prod.snd (Option.some.inj hsame)).symm
    exact hr

/-- **A drain** gives back the frames held in the order they were pushed, and counts the rest. -/
theorem drain_pushAll (hlen : ∀ p ∈ pushed, 0 < len p.2) :
    (pushAll len pushed).drain.1 =
        (pushed.zipIdx.filter (pushAll len pushed).keeps).map (fun e => e.1.2) ∧
      (pushAll len pushed).drain.2 + ((pushAll len pushed).drain.1.map len).sum =
        (pushed.map fun p => len p.2).sum := by
  obtain ⟨hexact, -⟩ := exact_pushAll hlen
  have hsorted := pairwise_zipIdx pushed
  have hranks : ((pushAll len pushed).ranked.map Prod.fst).Nodup := by
    refine Multiset.nodup_of_le (Multiset.map_le_map (ranked_pushAll_le pushed).1) ?_
    rw [Multiset.map_coe, Multiset.coe_nodup, map_map]
    exact pairwise_map.mpr (hsorted.imp fun h => h.ne)
  obtain ⟨l, hl, hincreasing, hdrain⟩ := exists_drain_eq hranks
  have heq : l = (pushed.zipIdx.filter (pushAll len pushed).keeps).map fun e => (e.2, e.1.2) := by
    have hirrefl : Std.Irrefl fun a b : ℕ × φ => a.1 < b.1 := ⟨fun a => lt_irrefl a.1⟩
    refine hincreasing.eq_of_mem_iff (pairwise_map.mpr (hsorted.filter _)) fun r => ?_
    rw [← hexact.mem_ranked, ← hl, Multiset.mem_coe]
  have hbytes : (pushAll len pushed).bytes = (l.map fun r => len r.2).sum := by
    have hperm : l.Perm ((pushAll len pushed).channels.entries.flatMap (·.2.frames)) :=
      Multiset.coe_eq_coe.mp (hl.trans (coe_flatMap_frames _).symm)
    have hsizes : ∀ e ∈ (pushAll len pushed).channels.entries, e.2.bytes = size len e.2.frames :=
      fun e he => hexact.channel e.1 e.2 ((get_eq_some_iff _ _ _).mpr he)
    rw [(hperm.map _).sum_eq, map_flatMap, hexact.total, map_congr_left hsizes,
      flatMap_def, sum_flatten, map_map]
    rfl
  rw [hdrain, heq, map_map]
  refine ⟨rfl, ?_⟩
  rw [← hexact.account, hbytes, heq, map_map, map_map]
  rfl

/-- **What an absent hub's queue keeps**: its counters are the sizes of what it holds; each channel
keeps the last of its own frames, at least one; past its bound a channel holds one frame, and past
the hub's every channel does; what is drained is what is held, in the order it was pushed, with the
bytes of the rest; and in a push each loop ends, after turns that drop a channel's oldest frame,
the second loop's from a channel that holds the most. -/
theorem away_queue_exact (len : φ → ℕ) (pushed : List (String × φ))
    (hlen : ∀ p ∈ pushed, 0 < len p.2) :
    Counted len (pushAll len pushed) ∧
      (∀ p ∈ pushed, ((pushAll len pushed).channels.get p.1).isSome) ∧
      (∀ id b, (pushAll len pushed).channels.get id = some b →
        b.frames ≠ [] ∧ b.frames <:+ own id pushed) ∧
      (pushAll len pushed).Bounded ∧
      (awayBytesPerHub < (pushAll len pushed).bytes →
        ∀ id b, (pushAll len pushed).channels.get id = some b → b.frames.length = 1) ∧
      ((pushAll len pushed).drain.1 =
          (pushed.zipIdx.filter (pushAll len pushed).keeps).map (fun e => e.1.2) ∧
        (pushAll len pushed).drain.2 + ((pushAll len pushed).drain.1.map len).sum =
          (pushed.map fun p => len p.2).sum) ∧
      ∀ id frame, 0 < len frame → ∃ q₁,
        ReflTransGen (ChannelDrops len id) ((pushAll len pushed).add len id frame) q₁ ∧
        (∀ q₂, ¬ChannelDrops len id q₁ q₂) ∧
        ReflTransGen (HubDrops len) q₁ ((pushAll len pushed).push len id frame) ∧
        ∀ q₂, ¬HubDrops len ((pushAll len pushed).push len id frame) q₂ := by
  obtain ⟨hexact, hbounded⟩ := exact_pushAll hlen
  refine ⟨hexact.toCounted, hexact.present, hexact.suffix, hbounded, fun hover id b hget => ?_,
    drain_pushAll hlen, fun id frame hf => hexact.exists_loops id hf⟩
  by_contra hone
  have hpos := length_pos_iff.mpr (hexact.suffix id b hget).1
  -- past the hub's bound the last push would have dropped once more
  induction pushed using reverseRecOn with
  | nil => exact nomatch hget
  | append_singleton pushed p ih =>
    clear ih
    obtain ⟨hbefore, -⟩ := exact_pushAll fun p' hp' => hlen p' (mem_append_left _ hp')
    obtain ⟨-, -, -, -, hended⟩ := hbefore.exists_loops p.1 (hlen p (by simp))
    rw [← pushAll_append] at hended
    obtain ⟨e, -, hdrops⟩ := hexact.toCounted.exists_hubDrops hover hget (by omega)
    exact hended _ hdrops

/-- Two terminals print, frames told by their sizes; the first frame of `a` goes for its second. -/
theorem away_queue_exact_three :
    (pushAll (fun n => n) [("a", 1048576), ("b", 3), ("a", 4)]).dropped = 1048576 ∧
      Counted (fun n => n) (pushAll (fun n => n) [("a", 1048576), ("b", 3), ("a", 4)]) :=
  ⟨by decide +kernel,
    (away_queue_exact (fun n => n) [("a", 1048576), ("b", 3), ("a", 4)] (by decide)).1⟩

end Lasterm.Agent.AwayQueue
