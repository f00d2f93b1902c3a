import Lasterm.Agent.Batch
import Mathlib.Algebra.GroupWithZero.Nat

/-!
# Where a hub's frames go

`AwayQueue` of `crates/lasterm-agent/src/away.rs` and `HubRoutes` of `daemon.rs`: the
frames of a hub's terminals go to the connection that hub has, and while it has none they
are kept for its next one, within bounds, the oldest output dropped first.

A connection is named by its number; whether its writer still takes frames is asked of
the caller.  The frames are of any type, and `len` says how long each is once encoded.

## Main results

* `AwayQueue.holds_push`, `AwayQueue.mem_drain` — a queue holds nothing but what was
  pushed into it, and gives back what it holds.
* `HubRoutes.mem_kept_keep` — a frame the router keeps, it keeps in its owner's queue.
-/

namespace Lasterm.Agent

open List OrderedMap

variable {φ : Type}

/-- `AWAY_BYTES_PER_CHANNEL`. -/
def awayBytesPerChannel : ℕ := 1024 * 1024

/-- `AWAY_BYTES_PER_HUB`. -/
def awayBytesPerHub : ℕ := 16 * 1024 * 1024

/-- One terminal's frames, oldest first, each with its rank among all the hub's frames. -/
structure ChannelBacklog (φ : Type) where
  frames : List (ℕ × φ)
  bytes : ℕ

/-- One hub's queue while it has no connection. -/
structure AwayQueue (φ : Type) where
  channels : OrderedMap String (ChannelBacklog φ)
  bytes : ℕ
  next : ℕ
  dropped : ℕ

/-- Drop the oldest frame, unless it is the newest.  Gives the bytes dropped. -/
def ChannelBacklog.dropOldest (len : φ → ℕ) (b : ChannelBacklog φ) : ℕ × ChannelBacklog φ :=
  match b.frames with
  | (_, f) :: g :: rest => (len f, ⟨g :: rest, b.bytes - len f⟩)
  | _ => (0, b)

variable {len : φ → ℕ} {f : φ}

namespace AwayQueue

/-- `AwayQueue::default()`. -/
def empty : AwayQueue φ := ⟨.empty, 0, 0, 0⟩

/-- A backlog put back after a drop, and the drop counted. -/
def shrink (q : AwayQueue φ) (id : String) (dropped : ℕ × ChannelBacklog φ) : AwayQueue φ :=
  { q with
    channels := q.channels.set id dropped.2
    bytes := q.bytes - dropped.1
    dropped := q.dropped + dropped.1 }

/-- The first loop of `push`: the terminal's own bound. -/
def trimChannel (len : φ → ℕ) (id : String) : ℕ → AwayQueue φ → AwayQueue φ
  | 0, q => q
  | n + 1, q =>
    match q.channels.get id with
    | none => q
    | some backlog =>
      if awayBytesPerChannel < backlog.bytes then
        let dropped := backlog.dropOldest len
        if dropped.1 = 0 then q.shrink id dropped
        else trimChannel len id n (q.shrink id dropped)
      else q

/-- The terminal that holds the most bytes among those with more than one frame; of several, the
last put in, where the source takes the last of its map's own order.  `largest_spec` says no more
of it than that it holds the most. -/
def largest (q : AwayQueue φ) : Option (String × ChannelBacklog φ) :=
  (q.channels.entries.filter fun e => 1 < e.2.frames.length).foldl
    (fun best e => some (best.elim e fun b => if b.2.bytes ≤ e.2.bytes then e else b)) none

/-- The second loop of `push`: the hub's bound. -/
def trimHub (len : φ → ℕ) : ℕ → AwayQueue φ → AwayQueue φ
  | 0, q => q
  | n + 1, q =>
    if awayBytesPerHub < q.bytes then
      match q.largest with
      | none => q
      | some (id, backlog) => trimHub len n (q.shrink id (backlog.dropOldest len))
    else q

/-- How many frames are kept: each turn of a loop drops one. -/
def count (q : AwayQueue φ) : ℕ := (q.channels.entries.map (·.2.frames.length)).sum

/-- `push`: a frame is kept, and the oldest output beyond the bounds dropped. -/
def push (len : φ → ℕ) (q : AwayQueue φ) (id : String) (frame : φ) : AwayQueue φ :=
  let backlog := (q.channels.get id).getD ⟨[], 0⟩
  let q : AwayQueue φ :=
    { q with
      channels := q.channels.set id ⟨backlog.frames ++ [(q.next, frame)], backlog.bytes + len frame⟩
      bytes := q.bytes + len frame
      next := q.next + 1 }
  let q := q.trimChannel len id (backlog.frames.length + 1)
  q.trimHub len q.count

/-- `drain`: the frames kept, in the order they were pushed, and the bytes dropped. -/
def drain (q : AwayQueue φ) : List φ × ℕ :=
  (((q.channels.entries.flatMap (·.2.frames)).mergeSort fun a b => a.1 ≤ b.1).map Prod.snd,
    q.dropped)

/-! ### What a queue holds -/

/-- A frame is kept for some terminal. -/
def Holds (q : AwayQueue φ) (f : φ) : Prop :=
  ∃ id backlog, q.channels.get id = some backlog ∧ f ∈ backlog.frames.map Prod.snd

theorem not_holds_empty (f : φ) : ¬(empty : AwayQueue φ).Holds f := by
  rintro ⟨id, backlog, hget, -⟩
  cases hget

theorem mem_dropOldest {b : ChannelBacklog φ}
    (h : f ∈ (b.dropOldest len).2.frames.map Prod.snd) : f ∈ b.frames.map Prod.snd := by
  unfold ChannelBacklog.dropOldest at h
  split at h
  · next hb =>
    rw [hb, map_cons]
    exact mem_cons_of_mem _ h
  · exact h

variable {q : AwayQueue φ}

theorem holds_shrink {id : String} {backlog : ChannelBacklog φ}
    (hget : q.channels.get id = some backlog)
    (h : (q.shrink id (backlog.dropOldest len)).Holds f) : q.Holds f := by
  obtain ⟨id', backlog', hget', hf⟩ := h
  rw [shrink, get_set] at hget'
  split at hget'
  · next heq =>
    cases hget'
    exact ⟨id, backlog, hget, mem_dropOldest hf⟩
  · exact ⟨id', backlog', hget', hf⟩

theorem holds_trimChannel {id : String} (n : ℕ)
    (h : (q.trimChannel len id n).Holds f) : q.Holds f := by
  induction n generalizing q with
  | zero => exact h
  | succ n ih =>
    rw [trimChannel] at h
    split at h
    · exact h
    · next backlog hget =>
      split at h
      · dsimp only at h
        split at h
        · exact holds_shrink hget h
        · exact holds_shrink hget (ih h)
      · exact h

/-- The fold of `largest` finds one that holds the most, if there is any. -/
private theorem foldl_largest (l seen : List (String × ChannelBacklog φ))
    (best : Option (String × ChannelBacklog φ))
    (h : best.elim (seen = []) fun e => e ∈ seen ∧ ∀ e' ∈ seen, e'.2.bytes ≤ e.2.bytes) :
    (l.foldl (fun best e => some (best.elim e fun b =>
      if b.2.bytes ≤ e.2.bytes then e else b)) best).elim (seen ++ l = []) fun e =>
        e ∈ seen ++ l ∧ ∀ e' ∈ seen ++ l, e'.2.bytes ≤ e.2.bytes := by
  induction l generalizing seen best with
  | nil => simpa using h
  | cons a l ih =>
    rw [append_cons]
    refine ih (seen ++ [a]) _ ?_
    cases best with
    | none =>
      obtain rfl : seen = [] := h
      simp
    | some b =>
      obtain ⟨hb, hmax⟩ := h
      have hmem : ∀ e' ∈ seen ++ [a], e' ∈ seen ∨ e' = a := fun e' he' => by simpa using he'
      dsimp only [Option.elim]
      split
      · next hle =>
        refine ⟨by simp, fun e' he' => ?_⟩
        obtain he' | rfl := hmem e' he'
        · exact Nat.le_trans (hmax e' he') hle
        · exact Nat.le_refl _
      · next hlt =>
        refine ⟨by simp [hb], fun e' he' => ?_⟩
        obtain he' | rfl := hmem e' he'
        · exact hmax e' he'
        · exact Nat.le_of_not_le hlt

/-- The terminal the hub's bound is taken from: one of the queue's with more than one frame, and
none of those holds more. -/
theorem largest_spec (q : AwayQueue φ) :
    q.largest.elim (∀ id b, q.channels.get id = some b → b.frames.length ≤ 1) fun e =>
      q.channels.get e.1 = some e.2 ∧ 1 < e.2.frames.length ∧
        ∀ id b, q.channels.get id = some b → 1 < b.frames.length → b.bytes ≤ e.2.bytes := by
  have hfold := foldl_largest (q.channels.entries.filter fun e => 1 < e.2.frames.length) [] none rfl
  change q.largest.elim _ _ at hfold
  simp only [nil_append] at hfold
  cases hl : q.largest with
  | none =>
    rw [hl] at hfold
    intro id b hget
    have hmem := filter_eq_nil_iff.mp hfold _ ((get_eq_some_iff _ _ _).mp hget)
    simpa using hmem
  | some e =>
    rw [hl] at hfold
    obtain ⟨hmem, hmax⟩ := hfold
    obtain ⟨hentry, hmore⟩ := mem_filter.mp hmem
    refine ⟨(get_eq_some_iff _ _ _).mpr hentry, of_decide_eq_true hmore,
      fun id b hget hb => hmax (id, b) (mem_filter.mpr ⟨?_, decide_eq_true hb⟩)⟩
    exact (get_eq_some_iff _ _ _).mp hget

theorem get_of_largest {e : String × ChannelBacklog φ}
    (h : q.largest = some e) : q.channels.get e.1 = some e.2 := by
  have hspec := q.largest_spec
  rw [h] at hspec
  exact hspec.1

theorem holds_trimHub (n : ℕ) (h : (q.trimHub len n).Holds f) : q.Holds f := by
  induction n generalizing q with
  | zero => exact h
  | succ n ih =>
    rw [trimHub] at h
    split at h
    · split at h
      · exact h
      · next id backlog hlargest => exact holds_shrink (get_of_largest hlargest) (ih h)
    · exact h

theorem holds_push {id : String} {frame : φ}
    (h : (q.push len id frame).Holds f) : f = frame ∨ q.Holds f := by
  obtain ⟨id', backlog, hget, hf⟩ := holds_trimChannel _ (holds_trimHub _ h)
  simp only [get_set] at hget
  split at hget
  · cases hget
    rw [map_append, mem_append] at hf
    rcases hf with hf | hf
    · right
      cases hold : q.channels.get id with
      | none => simp [hold] at hf
      | some old =>
        rw [hold] at hf
        exact ⟨id, old, hold, hf⟩
    · left
      simpa using hf
  · exact .inr ⟨id', backlog, hget, hf⟩

theorem mem_drain : f ∈ q.drain.1 ↔ q.Holds f := by
  simp only [drain, Holds, mem_map, mem_mergeSort, mem_flatMap]
  constructor
  · rintro ⟨r, ⟨e, he, hr⟩, rfl⟩
    exact ⟨e.1, e.2, (get_eq_some_iff _ _ _).mpr he, r, hr, rfl⟩
  · rintro ⟨id, backlog, hget, r, hr, rfl⟩
    exact ⟨r, ⟨(id, backlog), (get_eq_some_iff _ _ _).mp hget, hr⟩, rfl⟩

end AwayQueue

/-- Where each hub's frames go: its current connection, or while it has none, its queue. -/
structure HubRoutes (φ : Type) where
  /-- The number of each hub's `ActiveConnection`. -/
  connections : OrderedMap OwnerId ℕ
  queues : OrderedMap OwnerId (AwayQueue φ)

namespace HubRoutes

/-- `HubRoutes::new`. -/
def empty : HubRoutes φ := ⟨.empty, .empty⟩

/-- The connection a frame of this owner goes to: the registered one, unless its writer is
gone while it is still registered. -/
def target (r : HubRoutes φ) (isOpen : ℕ → Bool) (owner : OwnerId) : Option ℕ :=
  (r.connections.get owner).filter isOpen

/-- A frame kept for the owner's next connection. -/
def keep (len : φ → ℕ) (r : HubRoutes φ) (owner : OwnerId) (channelId : String) (frame : φ) :
    HubRoutes φ :=
  { r with
    queues := r.queues.set owner (((r.queues.get owner).getD .empty).push len channelId frame) }

/-- `route`: the routes after, and the connection the frame was sent to. -/
def route (len : φ → ℕ) (isOpen : ℕ → Bool) (r : HubRoutes φ) (owner : OwnerId)
    (channelId : String) (frame : φ) : HubRoutes φ × Option ℕ :=
  match r.target isOpen owner with
  | some c => (r, some c)
  | none => (r.keep len owner channelId frame, none)

/-- What is kept for an owner. -/
def kept (r : HubRoutes φ) (owner : OwnerId) : List φ :=
  (r.queues.get owner).elim [] (·.drain.1)

/-- `register_active`: what was kept for the owner is taken out, to go out on this
connection first. -/
def registerActive (r : HubRoutes φ) (owner : OwnerId) (c : ℕ) : HubRoutes φ :=
  ⟨r.connections.set owner c, r.queues.delete owner⟩

/-- `clear_active_if_ours`. -/
def clearActiveIfOurs (r : HubRoutes φ) (owner : OwnerId) (c : ℕ) : HubRoutes φ :=
  if r.connections.get owner = some c then { r with connections := r.connections.delete owner }
  else r

theorem mem_kept_keep {r : HubRoutes φ} {owner o : OwnerId} {id : String}
    {frame : φ} (h : f ∈ (r.keep len owner id frame).kept o) :
    (f = frame ∧ o = owner) ∨ f ∈ r.kept o := by
  unfold kept keep at h
  rw [get_set] at h
  by_cases ho : o = owner
  · subst ho
    rw [if_pos rfl] at h
    rcases AwayQueue.holds_push (AwayQueue.mem_drain.mp h) with heq | hold
    · exact .inl ⟨heq, rfl⟩
    · right
      unfold kept
      cases hq : r.queues.get o with
      | none =>
        rw [hq] at hold
        exact absurd hold (AwayQueue.not_holds_empty f)
      | some q =>
        rw [hq] at hold
        exact AwayQueue.mem_drain.mpr hold
  · rw [if_neg ho] at h
    exact .inr h

@[simp] theorem kept_registerActive (r : HubRoutes φ) (owner o : OwnerId) (c : ℕ) :
    (r.registerActive owner c).kept o = if o = owner then [] else r.kept o := by
  unfold kept registerActive
  rw [get_delete]
  split <;> rfl

@[simp] theorem kept_clearActiveIfOurs (r : HubRoutes φ) (owner o : OwnerId) (c : ℕ) :
    (r.clearActiveIfOurs owner c).kept o = r.kept o := by
  unfold clearActiveIfOurs
  split <;> rfl

end HubRoutes

end Lasterm.Agent
