import Lasterm.Lib.OrderedMap
import Lasterm.Lib.Run
import Mathlib.Data.List.Count
import Mathlib.Data.Int.Basic

/-!
# The snapshot scheduler

`snapshot-scheduler.ts` decides when the hub asks an agent for the screen of a channel:
after three seconds without output, every five seconds, and at once when the last client
leaves.  At most `maxConcurrentSnapshots` requests are to be out at a time: a request takes a
slot, an answer or the end of its five seconds frees one.  The timers of the five seconds are
kept by channel, one for each, whatever the number of its requests.

## Main definitions

* `SnapshotScheduler` — the timers and the counter, with every request that was sent.

## Main results

* `step_iff_orderly` — one event keeps the counter right exactly if it is orderly.
* `inFlight_eq_outstanding`, `slot_leaks_on_second_request` — orderly runs, and another.
-/

namespace Lasterm.Hub

open Transition Option List

/-- What the scheduler keeps of a channel it tracks.  The two times it also writes down
are read by nothing. -/
structure ChannelTimers where
  /-- The screen may differ from the last snapshot asked for. -/
  changed : Bool
  /-- The timer of three seconds without output runs. -/
  idleTimer : Bool
  forcedTimer : Bool

/-- A SNAPSHOT_REQ that was sent. -/
structure SnapshotRequest where
  channelId : String
  answered : Bool
  /-- Its five seconds passed before an answer came. -/
  timedOut : Bool

/-- A request the hub still waits for. -/
def SnapshotRequest.isOut (r : SnapshotRequest) : Bool := !r.answered && !r.timedOut

/-- The scheduler's state, and the requests it has sent. -/
structure SnapshotScheduler where
  channels : OrderedMap String ChannelTimers
  inFlight : ℤ
  /-- `_snapshotTimeouts`: for a channel, which request set the timer. -/
  timeouts : OrderedMap String ℕ
  requests : List SnapshotRequest

namespace SnapshotScheduler

/-- The scheduler as it is constructed. -/
def new : SnapshotScheduler := ⟨.empty, 0, .empty, []⟩

/-- `trackChannel`: nothing was asked of it yet. -/
def trackChannel (s : SnapshotScheduler) (channelId : String) : SnapshotScheduler :=
  if (s.channels.get channelId).isSome then s
  else { s with channels := s.channels.set channelId ⟨true, true, true⟩ }

/-- `onOutput`, which is `onResize` too: the idle timer starts again. -/
def onOutput (s : SnapshotScheduler) (channelId : String) : SnapshotScheduler :=
  match s.channels.get channelId with
  | none => s
  | some state =>
    { s with channels := s.channels.set channelId { state with changed := true, idleTimer := true } }

/-- `untrackChannel`.  The timer of a request that is out is left to run. -/
def untrackChannel (s : SnapshotScheduler) (channelId : String) : SnapshotScheduler :=
  { s with channels := s.channels.delete channelId }

/-- `shutdown`: every channel and every timeout goes. -/
def shutdown (s : SnapshotScheduler) : SnapshotScheduler :=
  { s.channels.keys.foldl untrackChannel s with timeouts := .empty }

/-- The `changed` mark of a channel, where the channel is tracked. -/
def setChanged (s : SnapshotScheduler) (channelId : String) (changed : Bool) :
    SnapshotScheduler :=
  match s.channels.get channelId with
  | none => s
  | some state => { s with channels := s.channels.set channelId { state with changed := changed } }

/-- `_requestSnapshot`, where `connected` says whether the channel has an agent that is
connected.  A timer of the channel that runs is replaced. -/
def requestSnapshot (s : SnapshotScheduler) (max : ℕ) (connected : Bool) (channelId : String) :
    SnapshotScheduler :=
  if (max : ℤ) ≤ s.inFlight then s
  else if !connected then s
  else
    { s.setChanged channelId false with
      inFlight := s.inFlight + 1
      timeouts := s.timeouts.set channelId s.requests.length
      requests := s.requests ++ [⟨channelId, false, false⟩] }

/-- `_onIdleTimeout`. -/
def onIdleTimeout (s : SnapshotScheduler) (max : ℕ) (connected : Bool) (channelId : String) :
    SnapshotScheduler :=
  match s.channels.get channelId with
  | none => s
  | some state =>
    let cleared := { s with channels := s.channels.set channelId { state with idleTimer := false } }
    if state.changed then cleared.requestSnapshot max connected channelId else cleared

/-- `_onForcedTimeout`. -/
def onForcedTimeout (s : SnapshotScheduler) (max : ℕ) (connected : Bool) (channelId : String) :
    SnapshotScheduler :=
  if ((s.channels.get channelId).map ChannelTimers.changed).getD false then
    s.requestSnapshot max connected channelId
  else s

/-- One slot is freed, if one is taken. -/
def freeSlot (s : SnapshotScheduler) : SnapshotScheduler :=
  if 0 < s.inFlight then { s with inFlight := s.inFlight - 1 } else s

/-- `onSnapshotResponse`: the slot is free. -/
def onSnapshotResponse (s : SnapshotScheduler) (channelId : String) : SnapshotScheduler :=
  { s.freeSlot with timeouts := s.timeouts.delete channelId }

/-- The callback of a request's timer. -/
def onSnapshotTimeout (s : SnapshotScheduler) (channelId : String) : SnapshotScheduler :=
  { s with timeouts := s.timeouts.delete channelId }.freeSlot.setChanged channelId true

/-- What happens to a scheduler.  Where a request may be sent, the label says whether the
channel's agent is connected. -/
inductive Event
  | trackChannel (channelId : String)
  | onOutput (channelId : String)
  | onResize (channelId : String)
  | onDetach (channelId : String) (connected : Bool)
  | untrackChannel (channelId : String)
  | idleTimeout (channelId : String) (connected : Bool)
  | forcedTimeout (channelId : String) (connected : Bool)
  | shutdown
  /-- The agent's answer to a request comes, in time or late. -/
  | response (request : ℕ)
  /-- The five seconds of a request pass, its answer not there. -/
  | timeout (request : ℕ)

/-- One event.  A timer fires only while it is set; a request is answered once at most, and
its five seconds pass once. -/
def step (max : ℕ) (s : SnapshotScheduler) : Event → Option SnapshotScheduler
  | .trackChannel channelId => some (s.trackChannel channelId)
  | .onOutput channelId => some (s.onOutput channelId)
  | .onResize channelId => some (s.onOutput channelId)
  | .onDetach channelId connected => some (s.requestSnapshot max connected channelId)
  | .untrackChannel channelId => some (s.untrackChannel channelId)
  | .idleTimeout channelId connected =>
    if ((s.channels.get channelId).map ChannelTimers.idleTimer).getD false then
      some (s.onIdleTimeout max connected channelId)
    else none
  | .forcedTimeout channelId connected =>
    if ((s.channels.get channelId).map ChannelTimers.forcedTimer).getD false then
      some (s.onForcedTimeout max connected channelId)
    else none
  | .shutdown => some s.shutdown
  | .response q => do
    let r ← s.requests[q]?
    if r.answered then none
    else some { s.onSnapshotResponse r.channelId with
      requests := s.requests.set q { r with answered := true } }
  | .timeout q => do
    let r ← s.requests[q]?
    if !r.isOut then none
    else
      -- The callback that runs is that of the timer the channel has now.
      let fired := if s.timeouts.get r.channelId = some q then s.onSnapshotTimeout r.channelId else s
      some { fired with requests := s.requests.set q { r with timedOut := true } }

/-- How many requests were sent and are neither answered nor timed out. -/
def outstanding (s : SnapshotScheduler) : ℕ := s.requests.countP SnapshotRequest.isOut

/-- The events the counter follows: the five seconds of a request pass while its timer is
still the channel's, and an answer that comes after them finds no slot taken. -/
def Orderly (s : SnapshotScheduler) : Event → Prop
  | .response q => ∀ r ∈ s.requests[q]?, r.timedOut → s.inFlight = 0
  | .timeout q => ∀ r ∈ s.requests[q]?, s.timeouts.get r.channelId = some q
  | _ => True

instance (s : SnapshotScheduler) : DecidablePred s.Orderly
  | .response q => inferInstanceAs (Decidable (∀ r ∈ s.requests[q]?, r.timedOut → s.inFlight = 0))
  | .timeout q =>
    inferInstanceAs (Decidable (∀ r ∈ s.requests[q]?, s.timeouts.get r.channelId = some q))
  | .trackChannel _ | .onOutput _ | .onResize _ | .onDetach _ _ | .untrackChannel _
  | .idleTimeout _ _ | .forcedTimeout _ _ | .shutdown => .isTrue trivial

/-! ### What an event does to the counter and the requests -/

@[simp] theorem inFlight_setChanged (s : SnapshotScheduler) (channelId : String) (b : Bool) :
    (s.setChanged channelId b).inFlight = s.inFlight := by
  unfold setChanged
  split <;> rfl

/-- The counter after a slot was freed. -/
def freed (n : ℤ) : ℤ := if 0 < n then n - 1 else n

@[simp] theorem inFlight_freeSlot (s : SnapshotScheduler) :
    s.freeSlot.inFlight = freed s.inFlight := by
  unfold freeSlot freed
  split <;> rfl

theorem shutdown_loop (channels : List String) (s : SnapshotScheduler) :
    (channels.foldl untrackChannel s).inFlight = s.inFlight ∧
      (channels.foldl untrackChannel s).requests = s.requests := by
  induction channels generalizing s with
  | nil => exact ⟨rfl, rfl⟩
  | cons channelId channels ih => exact ih (s.untrackChannel channelId)

/-- What an event may do to the counter and to the requests. -/
inductive Counts (max : ℕ) (s s' : SnapshotScheduler) : Event → Prop
  | quiet {a : Event} (hcount : s'.inFlight = s.inFlight) (hrequests : s'.requests = s.requests)
      (hok : s.Orderly a) : Counts max s s' a
  | sent {a : Event} (channelId : String) (hfree : s.inFlight < max)
      (hcount : s'.inFlight = s.inFlight + 1)
      (hrequests : s'.requests = s.requests ++ [⟨channelId, false, false⟩])
      (hok : s.Orderly a) : Counts max s s' a
  /-- An answer frees a slot, whether its request held one or not. -/
  | response {q : ℕ} {r : SnapshotRequest} (hr : s.requests[q]? = some r)
      (hnew : r.answered = false) (hcount : s'.inFlight = freed s.inFlight)
      (hrequests : s'.requests = s.requests.set q { r with answered := true }) :
      Counts max s s' (.response q)
  /-- The end of the five seconds frees a slot if the timer is still this request's. -/
  | timeout {q : ℕ} {r : SnapshotRequest} (hr : s.requests[q]? = some r) (hout : r.isOut = true)
      (hcount : s'.inFlight =
        if s.timeouts.get r.channelId = some q then freed s.inFlight else s.inFlight)
      (hrequests : s'.requests = s.requests.set q { r with timedOut := true }) :
      Counts max s s' (.timeout q)

theorem counts_requestSnapshot (max : ℕ) (s : SnapshotScheduler) (connected : Bool)
    (channelId : String) {a : Event} (hok : s.Orderly a) :
    Counts max s (s.requestSnapshot max connected channelId) a := by
  unfold requestSnapshot
  split_ifs with hfull hagent
  · exact .quiet rfl rfl hok
  · exact .quiet rfl rfl hok
  · exact .sent channelId (by omega) rfl rfl hok

/-- **What one event does.** -/
theorem step_counts {max : ℕ} {s s' : SnapshotScheduler} {a : Event}
    (h : s.step max a = some s') : Counts max s s' a := by
  cases a with
  | trackChannel channelId =>
    obtain rfl : s.trackChannel channelId = s' := by simpa [step] using h
    unfold trackChannel
    split_ifs <;> exact .quiet rfl rfl trivial
  | onOutput channelId | onResize channelId =>
    obtain rfl : s.onOutput channelId = s' := by simpa [step] using h
    unfold onOutput
    split <;> exact .quiet rfl rfl trivial
  | onDetach channelId connected =>
    obtain rfl : s.requestSnapshot max connected channelId = s' := by simpa [step] using h
    exact counts_requestSnapshot max s connected channelId trivial
  | untrackChannel channelId =>
    obtain rfl : s.untrackChannel channelId = s' := by simpa [step] using h
    exact .quiet rfl rfl trivial
  | idleTimeout channelId connected =>
    obtain ⟨-, h⟩ := ite_none_right_eq_some.mp h
    obtain rfl : s.onIdleTimeout max connected channelId = s' := by simpa using h
    unfold onIdleTimeout
    split
    · exact .quiet rfl rfl trivial
    · rename_i state _
      split_ifs
      · -- Only the mark of the idle timer differs before the request.
        cases counts_requestSnapshot max
          { s with channels := s.channels.set channelId { state with idleTimer := false } }
          connected channelId (a := .shutdown) trivial with
        | quiet hcount hrequests => exact .quiet hcount hrequests trivial
        | sent ch hfree hcount hrequests => exact .sent ch hfree hcount hrequests trivial
      · exact .quiet rfl rfl trivial
  | forcedTimeout channelId connected =>
    obtain ⟨-, h⟩ := ite_none_right_eq_some.mp h
    obtain rfl : s.onForcedTimeout max connected channelId = s' := by simpa using h
    unfold onForcedTimeout
    split_ifs
    · exact counts_requestSnapshot max s connected channelId trivial
    · exact .quiet rfl rfl trivial
  | shutdown =>
    obtain rfl : s.shutdown = s' := by simpa [step] using h
    obtain ⟨hcount, hrequests⟩ := shutdown_loop s.channels.keys s
    exact .quiet hcount hrequests trivial
  | response q =>
    obtain ⟨r, hr, h⟩ := bind_eq_some_iff.mp h
    obtain ⟨hnew, ⟨rfl⟩⟩ := ite_none_left_eq_some.mp h
    exact .response hr (by simpa using hnew) (inFlight_freeSlot s) rfl
  | timeout q =>
    obtain ⟨r, hr, h⟩ := bind_eq_some_iff.mp h
    obtain ⟨hout, ⟨rfl⟩⟩ := ite_none_left_eq_some.mp h
    refine .timeout hr (by simpa using hout) ?_ rfl
    split_ifs
    · simp [onSnapshotTimeout]
    · rfl

/-! ### The bounds, whatever the events -/

theorem freed_bounds {n max : ℤ} (h : 0 ≤ n ∧ n ≤ max) : 0 ≤ freed n ∧ freed n ≤ max := by
  unfold freed
  split_ifs <;> omega

/-- Whatever the events, at most `max` slots are taken, and never less than none. -/
theorem inFlight_bounds {max : ℕ} {s : SnapshotScheduler} (h : Run (step max) free new s) :
    0 ≤ s.inFlight ∧ s.inFlight ≤ max := by
  refine h.invariant (I := fun s => 0 ≤ s.inFlight ∧ s.inFlight ≤ (max : ℤ)) ?_ ?_
  · exact ⟨Int.le_refl 0, Int.natCast_nonneg max⟩
  intro s a s' hs _ hn
  cases step_counts hn with
  | quiet hcount => rwa [hcount]
  | sent _ hfree hcount =>
    rw [hcount]
    omega
  | response _ _ hcount =>
    rw [hcount]
    exact freed_bounds hs
  | timeout _ _ hcount =>
    rw [hcount]
    split_ifs
    · exact freed_bounds hs
    · exact hs

/-! ### The counter and the requests that are out -/

theorem countP_set_of_out {l : List SnapshotRequest} {q : ℕ} {r r' : SnapshotRequest}
    (hr : l[q]? = some r) (hout : r.isOut = true) (hgone : r'.isOut = false) :
    (l.set q r').countP SnapshotRequest.isOut + 1 = l.countP SnapshotRequest.isOut := by
  obtain ⟨hq, hget⟩ := List.getElem?_eq_some_iff.mp hr
  have hpos : 0 < l.countP SnapshotRequest.isOut :=
    countP_pos_iff.mpr ⟨r, mem_of_getElem? hr, hout⟩
  rw [countP_set hq, hget, hout, hgone]
  simp only [if_true, Bool.false_eq_true, if_false]
  omega

theorem countP_set_of_not_out {l : List SnapshotRequest} {q : ℕ} {r r' : SnapshotRequest}
    (hr : l[q]? = some r) (hout : r.isOut = false) (hgone : r'.isOut = false) :
    (l.set q r').countP SnapshotRequest.isOut = l.countP SnapshotRequest.isOut := by
  obtain ⟨hq, hget⟩ := List.getElem?_eq_some_iff.mp hr
  rw [countP_set hq, hget, hout, hgone]
  simp

/-- **One event keeps the counter right exactly if it is orderly.** -/
theorem step_iff_orderly {max : ℕ} {s s' : SnapshotScheduler} {a : Event}
    (hs : s.inFlight = s.outstanding) (hn : s.step max a = some s') :
    s'.inFlight = s'.outstanding ↔ s.Orderly a := by
  unfold outstanding at *
  cases step_counts hn with
  | quiet hcount hrequests hok =>
    rw [hcount, hrequests]
    exact iff_of_true hs hok
  | sent channelId hfree hcount hrequests hok =>
    rw [hcount, hrequests, countP_append]
    refine iff_of_true ?_ hok
    rw [hs]
    rfl
  | @response q r hr hnew hcount hrequests =>
    rw [hcount, hrequests, hs]
    have hgone : SnapshotRequest.isOut { r with answered := true } = false := rfl
    by_cases htimed : r.timedOut = true
    · -- Late: its slot was freed before, and this frees another.
      have hout : r.isOut = false := by simp [SnapshotRequest.isOut, htimed]
      rw [countP_set_of_not_out hr hout hgone]
      constructor
      · intro h r' _ _
        rw [hs]
        unfold freed at h
        split_ifs at h <;> omega
      · intro h
        have hzero := h r hr htimed
        rw [hs] at hzero
        unfold freed
        split_ifs <;> omega
    · -- In time: the request is one of those that are out.
      have hout : r.isOut = true := by simp [SnapshotRequest.isOut, hnew, htimed]
      have hone := countP_set_of_out hr hout hgone
      refine iff_of_true ?_ ?_
      · unfold freed
        split_ifs <;> omega
      · intro r' hr' htimed'
        obtain rfl : r = r' := some.inj (hr.symm.trans hr')
        exact absurd htimed' htimed
  | @timeout q r hr hout hcount hrequests =>
    rw [hcount, hrequests, hs]
    have hgone : SnapshotRequest.isOut { r with timedOut := true } = false := by
      simp [SnapshotRequest.isOut]
    have hone := countP_set_of_out hr hout hgone
    have horderly : s.Orderly (.timeout q) ↔ s.timeouts.get r.channelId = some q := by
      constructor
      · intro h
        exact h r hr
      · intro h r' hr'
        obtain rfl : r = r' := some.inj (hr.symm.trans hr')
        exact h
    rw [horderly]
    split_ifs with htimer
    · refine iff_of_true ?_ htimer
      unfold freed
      split_ifs <;> omega
    · refine iff_of_false ?_ htimer
      omega

end SnapshotScheduler

open SnapshotScheduler

/-- **The counter of the slots.**  Whatever the events, it stays between zero and the
maximum.  As long as they are orderly it is the number of requests neither answered nor
timed out, so every slot is free once there is none; and it stays that number exactly if
the next event is orderly too. -/
theorem inFlight_eq_outstanding {max : ℕ} {s : SnapshotScheduler} :
    (Run (step max) free new s → 0 ≤ s.inFlight ∧ s.inFlight ≤ max) ∧
    (Run (step max) SnapshotScheduler.Orderly new s →
      s.inFlight = s.outstanding ∧
      ((∀ r ∈ s.requests, r.answered ∨ r.timedOut) → s.inFlight = 0) ∧
      ∀ a s', s.step max a = some s' → (s'.inFlight = s'.outstanding ↔ s.Orderly a)) := by
  refine ⟨inFlight_bounds, fun h => ?_⟩
  have hcount : s.inFlight = s.outstanding :=
    h.invariant (I := fun s => s.inFlight = s.outstanding) rfl
      fun _ _ _ hs hok hn => (step_iff_orderly hs hn).mpr hok
  refine ⟨hcount, ?_, fun a s' hn => step_iff_orderly hcount hn⟩
  intro hall
  have hnone : s.requests.countP SnapshotRequest.isOut = 0 := by
    rw [countP_eq_zero]
    intro r hr
    rcases hall r hr with hanswered | htimed
    · simp [SnapshotRequest.isOut, hanswered]
    · simp [SnapshotRequest.isOut, htimed]
  rw [hcount]
  exact congrArg Nat.cast hnone

/-- Two channels are asked for; one answers, the five seconds of the other pass, and both
slots are free. -/
theorem slots_free_after_answer_and_timeout :
    ∃ s, exec (step 4) new [.trackChannel "a", .idleTimeout "a" true, .onDetach "b" true,
        .response 0, .timeout 1] = some s ∧ s.requests.length = 2 ∧ s.inFlight = 0 := by
  refine ⟨_, (some_get (by decide)).symm, by decide, ?_⟩
  exact (inFlight_eq_outstanding.2 (.of_exec _ (by decide) (some_get _).symm)).1.trans
    (by decide)

/-- Two requests for one channel: the second takes the first's timer, so when the five
seconds of both have passed one slot is still counted as taken. -/
theorem slot_leaks_on_second_request :
    ¬∀ s, Run (step 4) free new s → s.inFlight = s.outstanding := by
  intro h
  exact absurd (h _ (.get_free [.onDetach "a" true, .onDetach "a" true, .timeout 0, .timeout 1]
    (by decide))) (by decide)

end Lasterm.Hub
