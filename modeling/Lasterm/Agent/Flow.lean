import Lasterm.Lib.Run
import Mathlib.Algebra.BigOperators.Group.List.Basic
import Mathlib.Algebra.GroupWithZero.Nat
import Mathlib.Data.List.Nodup

/-!
# How much of a hub's output the agent holds

`flow.rs`: every byte a reader takes from a terminal is charged to the terminal's owner
until the owner's connection has written it.  A charge is a token, first `InTransit` and
then `Queued`, released when it is dropped; two counters of the owner's flow say how much is
held, and a reader that finds them above the high mark waits until they have drained to the
low mark.

Tokens that agree in what they hold behave alike, so a step names a token by its value.
Connections are numbered by a counter when they are accepted, and each is made its hub's
current one at most once.

## Main definitions

* `State` — the flows, the tokens alive, the calls of `update` that owe a `notify_waiters`, and
  the readers, each at the place of `drained` it has come to.

## Main results

* `updated` — one change of a hub's counters, with what became of the tokens.
* `counters_exact` — the counters never drift, and no reader is left waiting, in every run.
-/

namespace Flow

open List Option Function

/-- The marks readers pause and resume at. -/
structure Marks where
  high : ℕ
  low : ℕ

/-- What one hub's flow holds.  `saturated` is not in the source: it records that a
`saturating_sub` was ever asked to take away more than there was. -/
structure FlowState where
  inTransit : ℕ
  connection : Option ℕ
  queued : ℕ
  saturated : Bool

namespace FlowState

/-- `FlowState::default()`. -/
def default : FlowState := ⟨0, none, 0, false⟩

/-- What counts against the marks. -/
def pending (f : FlowState) : ℕ := f.inTransit + f.queued

/-- More was read. -/
def charge (bytes : ℕ) (f : FlowState) : FlowState := { f with inTransit := f.inTransit + bytes }

/-- `in_transit.saturating_sub(bytes)`. -/
def release (bytes : ℕ) (f : FlowState) : FlowState :=
  { f with
    inTransit := f.inTransit - bytes
    saturated := f.saturated || decide (f.inTransit < bytes) }

/-- A frame for `connection` counts, if the connection is the hub's. -/
def enqueue (connection bytes : ℕ) (f : FlowState) : FlowState :=
  if f.connection = some connection then { f with queued := f.queued + bytes } else f

/-- `queued.saturating_sub(bytes)`, if the connection is still the hub's. -/
def dequeue (connection bytes : ℕ) (f : FlowState) : FlowState :=
  if f.connection = some connection then
    { f with
      queued := f.queued - bytes
      saturated := f.saturated || decide (f.queued < bytes) }
  else f

/-- A connection of the hub is registered: nothing is queued on it yet. -/
def attach (connection : ℕ) (f : FlowState) : FlowState :=
  { f with connection := some connection, queued := 0 }

/-- The connection ends, if it is the registered one; what was queued on it goes. -/
def detach (connection : ℕ) (f : FlowState) : FlowState :=
  if f.connection = some connection then { f with connection := none, queued := 0 } else f

end FlowState

/-- Output read from a hub's terminal and not yet routed. -/
structure InTransit (ω : Type) where
  owner : ω
  bytes : ℕ
deriving DecidableEq

/-- Output queued for one connection of a hub and not yet written to it. -/
structure Queued (ω : Type) where
  owner : ω
  connection : ℕ
  bytes : ℕ
  counted : Bool
deriving DecidableEq

/-- Where a reader is: reading; held back, about to ask `drained`; registered for the
wake-up, about to look at the count; or waiting for the wake-up, having looked. -/
inductive Phase
  | reading
  | held
  | registered (woken : Bool)
  | waiting (woken : Bool)
deriving DecidableEq

/-- The wake-up reaches whoever is registered for it. -/
def Phase.wake : Phase → Phase
  | .registered _ => .registered true
  | .waiting _ => .waiting true
  | other => other

/-- A terminal's reader, and whose flow it counts against. -/
structure Reader (ω : Type) where
  owner : ω
  phase : Phase

/-- The flows, the live tokens and the readers of one agent. -/
structure State (ω : Type) where
  marks : Marks
  flows : ω → FlowState
  inTransit : List (InTransit ω)
  queued : List (Queued ω)
  /-- Calls of `update` that drained the flow, between their lock and `notify_waiters`. -/
  draining : ω → ℕ
  readers : ℕ → Option (Reader ω)
  /-- `CONNECTION_SEQ`. -/
  connectionSeq : ℕ
  /-- Connections accepted and not made their hub's current one. -/
  accepted : List ℕ

/-- What happens to the flows of an agent. -/
inductive Step (ω : Type)
  | read (o : ω) (bytes : ℕ)
  | absorb (t other : InTransit ω)
  /-- `InTransit::queue_for`. -/
  | queueFor (t : InTransit ω) (connection frameLen : ℕ)
  | queue (o : ω) (connection bytes : ℕ)
  | dropInTransit (t : InTransit ω)
  | dropQueued (q : Queued ω)
  /-- `next_connection_id`. -/
  | accept
  | attach (o : ω) (connection : ℕ)
  | detach (o : ω) (connection : ℕ)
  /-- The `notify_waiters` of a call of `update` that drained the flow. -/
  | notify (o : ω)
  | start (p : ℕ) (o : ω)
  /-- A reader that has read looks whether the flow is full. -/
  | look (p : ℕ)
  /-- `drained` registers for the wake-up. -/
  | enable (p : ℕ)
  /-- `drained` looks at the count. -/
  | check (p : ℕ)
  /-- `drained` goes on after a wake-up. -/
  | resume (p : ℕ)
  /-- Another arm of the reader's `select!` was taken, and `drained` is dropped. -/
  | abandon (p : ℕ)
  | finish (p : ℕ)

section Model

variable {ω : Type} [DecidableEq ω]

namespace State

/-- `STDIO_CONNECTION`: the one connection of an agent on stdio, which is never accepted. -/
def stdioConnection : ℕ := 0

/-- The daemon as it starts, with the marks it was given. -/
def init (marks : Marks) : State ω :=
  ⟨marks, fun _ => .default, [], [], fun _ => 0, fun _ => none, 0, [stdioConnection]⟩

/-- The bytes read from this hub's terminals and not yet written to its connection. -/
def pending (s : State ω) (o : ω) : ℕ := (s.flows o).pending

/-- Whether this hub's terminals must stop being read. -/
def full (s : State ω) (o : ω) : Bool := decide (s.marks.high ≤ s.pending o)

/-- Change the counts; a change that drained them to the low mark owes the paused readers a
wake-up. -/
def update (s : State ω) (o : ω) (change : FlowState → FlowState) : State ω :=
  let after := change (s.flows o)
  { s with
    flows := Function.update s.flows o after
    draining :=
      if s.marks.low < s.pending o ∧ after.pending ≤ s.marks.low then
        Function.update s.draining o (s.draining o + 1)
      else s.draining }

/-- A reader took bytes of the owner `o`, and passes them on. -/
def read (s : State ω) (o : ω) (bytes : ℕ) : State ω :=
  { s.update o (.charge bytes) with inTransit := ⟨o, bytes⟩ :: s.inTransit }

/-- `Drop for InTransit`. -/
def dropInTransit (s : State ω) (t : InTransit ω) : State ω :=
  { (if 0 < t.bytes then s.update t.owner (.release t.bytes) else s) with
    inTransit := s.inTransit.erase t }

/-- A charge of another hub is released rather than taken on. -/
def absorb (s : State ω) (t other : InTransit ω) : State ω :=
  if t.owner = other.owner then
    { s with
      inTransit := { t with bytes := t.bytes + other.bytes } ::
        (s.inTransit.erase t).erase other }
  else s.dropInTransit other

/-- What was passed on is queued on a connection. -/
def queueFor (s : State ω) (t : InTransit ω) (connection frameLen : ℕ) : State ω :=
  { s.update t.owner fun f => (f.release t.bytes).enqueue connection frameLen with
    inTransit := s.inTransit.erase t
    queued :=
      ⟨t.owner, connection, frameLen, decide ((s.flows t.owner).connection = some connection)⟩ ::
        s.queued }

/-- A frame that no reader charged is queued on a connection. -/
def queue (s : State ω) (o : ω) (connection bytes : ℕ) : State ω :=
  { s.update o (.enqueue connection bytes) with
    queued :=
      ⟨o, connection, bytes, decide ((s.flows o).connection = some connection)⟩ :: s.queued }

/-- `Drop for Queued`. -/
def dropQueued (s : State ω) (q : Queued ω) : State ω :=
  { (if q.counted then s.update q.owner (.dequeue q.connection q.bytes) else s) with
    queued := s.queued.erase q }

/-- A connection is accepted, under a number of its own. -/
def accept (s : State ω) : State ω :=
  { s with connectionSeq := s.connectionSeq + 1, accepted := (s.connectionSeq + 1) :: s.accepted }

/-- An accepted connection is registered for its hub. -/
def attach (s : State ω) (o : ω) (connection : ℕ) : State ω :=
  { s.update o (.attach connection) with accepted := s.accepted.erase connection }

/-- `notify_waiters`: whoever is registered for the flow's wake-up now is woken. -/
def notify (s : State ω) (o : ω) : State ω :=
  { s with
    draining := Function.update s.draining o (s.draining o - 1)
    readers := fun p => (s.readers p).map fun r =>
      if r.owner = o then { r with phase := r.phase.wake } else r }

/-- The reader `r` of the process `p` is in another phase. -/
def setPhase (s : State ω) (p : ℕ) (r : Reader ω) (phase : Phase) : State ω :=
  { s with readers := Function.update s.readers p (some { r with phase }) }

/-- A reader takes a step of its own. -/
def stepReader (s : State ω) (p : ℕ) (f : Reader ω → Option Phase) : Option (State ω) :=
  (s.readers p).bind fun r => (f r).map (s.setPhase p r)

/-- One step. -/
def next (s : State ω) : Step ω → Option (State ω)
  | .read o bytes => some (s.read o bytes)
  | .absorb t other =>
    if t ∈ s.inTransit ∧ other ∈ s.inTransit.erase t then some (s.absorb t other) else none
  | .queueFor t connection frameLen =>
    if t ∈ s.inTransit then some (s.queueFor t connection frameLen) else none
  | .queue o connection bytes => some (s.queue o connection bytes)
  | .dropInTransit t => if t ∈ s.inTransit then some (s.dropInTransit t) else none
  | .dropQueued q => if q ∈ s.queued then some (s.dropQueued q) else none
  | .accept => some s.accept
  | .attach o connection =>
    if connection ∈ s.accepted then some (s.attach o connection) else none
  | .detach o connection => some (s.update o (.detach connection))
  | .notify o => if 0 < s.draining o then some (s.notify o) else none
  | .start p o =>
    match s.readers p with
    | none => some (s.setPhase p ⟨o, .reading⟩ (if s.full o then .held else .reading))
    | some _ => none
  | .look p => s.stepReader p fun r =>
    if r.phase = .reading then some (if s.full r.owner then .held else .reading) else none
  | .enable p => s.stepReader p fun r =>
    if r.phase = .held then some (.registered false) else none
  | .check p => s.stepReader p fun r =>
    match r.phase with
    | .registered woken =>
      some (if s.pending r.owner ≤ s.marks.low then .reading else .waiting woken)
    | _ => none
  | .resume p => s.stepReader p fun r =>
    if r.phase = .waiting true then some .held else none
  | .abandon p => s.stepReader p fun r =>
    match r.phase with
    | .registered _ | .waiting _ => some .held
    | _ => none
  | .finish p => (s.readers p).map fun _ => { s with readers := Function.update s.readers p none }

end State

/-! ### What the counters stand for -/

/-- The sizes of the `InTransit` tokens of `o`, summed. -/
def bytesOf (ts : List (InTransit ω)) (o : ω) : ℕ :=
  (ts.map fun t => if t.owner = o then t.bytes else 0).sum

/-- The sizes of the `Queued` tokens of `o` that were counted for the connection, summed. -/
def countedFor (qs : List (Queued ω)) (o : ω) (connection : Option ℕ) : ℕ :=
  (qs.map fun q =>
    if q.owner = o ∧ q.counted = true ∧ connection = some q.connection then q.bytes else 0).sum

namespace State

/-- A wake-up for the waiting reader has been issued: it has reached the reader, or a call of
`update` has drained the flow and is about to deliver it. -/
def wakeIssued (s : State ω) (r : Reader ω) : Prop :=
  r.phase = .waiting true ∨ 0 < s.draining r.owner

/-- The connection was made some hub's current one. -/
def Used (s : State ω) (c : ℕ) : Prop := c ≤ s.connectionSeq ∧ c ∉ s.accepted

end State

/-- The invariant: the counters are the sums of the tokens they stand for, and whoever waits
on a drained flow is being woken.  The last four fields are what makes the second counter
exact when the connection changes: no token counts for a connection that is yet to come. -/
structure Sound (s : State ω) : Prop where
  charged : ∀ o, (s.flows o).inTransit = bytesOf s.inTransit o
  queued : ∀ o, (s.flows o).queued = countedFor s.queued o (s.flows o).connection
  exact : ∀ o, (s.flows o).saturated = false
  wakes : ∀ p r, s.readers p = some r → r.phase = .waiting false →
    s.marks.low < s.pending r.owner ∨ 0 < s.draining r.owner
  counted : ∀ q ∈ s.queued, q.counted = true → s.Used q.connection
  current : ∀ o c, (s.flows o).connection = some c → s.Used c
  numbered : ∀ c ∈ s.accepted, c ≤ s.connectionSeq
  nodup : s.accepted.Nodup

/-! ### What a change leaves as it is -/

namespace FlowState

variable (c n : ℕ) (f : FlowState)

theorem enqueue_inTransit : (f.enqueue c n).inTransit = f.inTransit := by
  unfold enqueue
  split <;> rfl

theorem enqueue_connection : (f.enqueue c n).connection = f.connection := by
  unfold enqueue
  split <;> rfl

theorem enqueue_saturated : (f.enqueue c n).saturated = f.saturated := by
  unfold enqueue
  split <;> rfl

theorem enqueue_release_queued (m : ℕ) :
    ((f.release m).enqueue c n).queued = (f.enqueue c n).queued := by
  by_cases h : f.connection = some c <;> simp [enqueue, release, h]

theorem dequeue_inTransit : (f.dequeue c n).inTransit = f.inTransit := by
  unfold dequeue
  split <;> rfl

theorem dequeue_connection : (f.dequeue c n).connection = f.connection := by
  unfold dequeue
  split <;> rfl

theorem detach_inTransit : (f.detach c).inTransit = f.inTransit := by
  unfold detach
  split <;> rfl

theorem detach_saturated : (f.detach c).saturated = f.saturated := by
  unfold detach
  split <;> rfl

end FlowState

/-! ### Sums over the tokens -/

section Sums

variable {t : InTransit ω} {ts : List (InTransit ω)} {q : Queued ω} {qs : List (Queued ω)} {o : ω}
  {c : Option ℕ}

theorem bytesOf_cons_self (n : ℕ) : bytesOf (⟨o, n⟩ :: ts) o = n + bytesOf ts o := by
  simp [bytesOf]

theorem bytesOf_cons_of_ne {o' : ω} (n : ℕ) (h : o' ≠ o) :
    bytesOf (⟨o, n⟩ :: ts) o' = bytesOf ts o' := by
  simp [bytesOf, Ne.symm h]

theorem bytesOf_erase_self (h : t ∈ ts) :
    t.bytes + bytesOf (ts.erase t) t.owner = bytesOf ts t.owner := by
  simpa [bytesOf] using sum_map_erase (fun x => if x.owner = t.owner then x.bytes else 0) h

theorem bytesOf_erase_of_ne (h : t ∈ ts) (ho : o ≠ t.owner) :
    bytesOf (ts.erase t) o = bytesOf ts o := by
  simpa [bytesOf, Ne.symm ho] using
    sum_map_erase (fun x => if x.owner = o then x.bytes else 0) h

theorem countedFor_cons :
    countedFor (q :: qs) o c =
      (if q.owner = o ∧ q.counted = true ∧ c = some q.connection then q.bytes else 0) +
        countedFor qs o c := by
  simp [countedFor]

theorem countedFor_erase (h : q ∈ qs) :
    (if q.owner = o ∧ q.counted = true ∧ c = some q.connection then q.bytes else 0) +
      countedFor (qs.erase q) o c = countedFor qs o c :=
  sum_map_erase (fun x =>
    if x.owner = o ∧ x.counted = true ∧ c = some x.connection then x.bytes else 0) h

theorem countedFor_eq_zero (h : ∀ x ∈ qs, x.counted = true → c ≠ some x.connection) :
    countedFor qs o c = 0 := by
  refine sum_eq_zero fun n hn => ?_
  obtain ⟨x, hx, rfl⟩ := mem_map.mp hn
  exact if_neg fun hcounts => h x hx hcounts.2.1 hcounts.2.2

end Sums

/-! ### One change of the counters -/

variable {p : ℕ}

namespace Sound

variable {s : State ω}

theorem init (marks : Marks) : Sound (State.init marks : State ω) where
  charged _ := rfl
  queued _ := rfl
  exact _ := rfl
  wakes := nofun
  counted := nofun
  current := nofun
  numbered c hc := by
    obtain rfl := mem_singleton.mp hc
    exact Nat.le_refl _
  nodup := nodup_singleton _

section

variable (h : Sound s)
include h

/-- Whoever waits keeps a reason to after an `update`, or the `update` owes a wake-up. -/
theorem wakes_update (o : ω) (change : FlowState → FlowState) (p : ℕ) (r : Reader ω)
    (hr : s.readers p = some r) (hp : r.phase = .waiting false) :
    s.marks.low < (s.update o change).pending r.owner ∨
      0 < (s.update o change).draining r.owner := by
  have hold := h.wakes p r hr hp
  by_cases ho : r.owner = o
  · subst ho
    by_cases hlow : s.marks.low < (change (s.flows r.owner)).pending
    · left
      simpa [State.pending, State.update] using hlow
    · right
      -- The count is at or below the low mark now: either this change brought it there, or
      -- an earlier one did whose wake-up is still owed.
      by_cases hbefore : s.marks.low < s.pending r.owner
      · simp [State.update, hbefore, Nat.not_lt.mp hlow]
      · have hdrain := hold.resolve_left hbefore
        simpa [State.update, hbefore] using hdrain
  · have hflow : (s.update o change).pending r.owner = s.pending r.owner := by
      simp [State.pending, State.update, update_of_ne ho]
    have hdrain : (s.update o change).draining r.owner = s.draining r.owner := by
      simp only [State.update]
      split
      · rw [update_of_ne ho]
      · rfl
    rw [hflow, hdrain]
    exact hold

variable {o : ω}

/-- **One change of a hub's counters**, with what became of the tokens: the counters are
exact again if they are for the hub whose counters changed and the other hubs' tokens are as
they were. -/
theorem updated {change : FlowState → FlowState}
    (ts : List (InTransit ω)) (qs : List (Queued ω)) (accepted : List ℕ)
    (hts : (change (s.flows o)).inTransit = bytesOf ts o)
    (htsOther : ∀ o', o' ≠ o → bytesOf ts o' = bytesOf s.inTransit o')
    (hqs : (change (s.flows o)).queued = countedFor qs o (change (s.flows o)).connection)
    (hqsOther : ∀ o' c, o' ≠ o → countedFor qs o' c = countedFor s.queued o' c)
    (hexact : (change (s.flows o)).saturated = false)
    (hcounted : ∀ q ∈ qs, q.counted = true →
      q.connection ≤ s.connectionSeq ∧ q.connection ∉ accepted)
    (hcurrent : ∀ c, (change (s.flows o)).connection = some c →
      c ≤ s.connectionSeq ∧ c ∉ accepted)
    (haccepted : accepted.Sublist s.accepted) :
    Sound { s.update o change with inTransit := ts, queued := qs, accepted := accepted } where
  charged o' := by
    by_cases ho : o' = o
    · subst ho
      simpa [State.update] using hts
    · simpa [State.update, update_of_ne ho, htsOther o' ho] using h.charged o'
  queued o' := by
    by_cases ho : o' = o
    · subst ho
      simpa [State.update] using hqs
    · simpa [State.update, update_of_ne ho, hqsOther o' _ ho] using h.queued o'
  exact o' := by
    by_cases ho : o' = o
    · subst ho
      simpa [State.update] using hexact
    · simpa [State.update, update_of_ne ho] using h.exact o'
  wakes := h.wakes_update o change
  counted := hcounted
  current o' c hc := by
    by_cases ho : o' = o
    · subst ho
      exact hcurrent c (by simpa [State.update] using hc)
    · have hused : s.Used c := h.current o' c (by simpa [State.update, update_of_ne ho] using hc)
      exact ⟨hused.1, fun hmem => hused.2 (haccepted.subset hmem)⟩
  numbered c hc := h.numbered c (haccepted.subset hc)
  nodup := haccepted.nodup h.nodup

/-! ### The operations -/

/-- A change that leaves the connection and what is queued, with the tokens in transit
changed to match. -/
theorem recharged {change : FlowState → FlowState} {ts : List (InTransit ω)}
    (hts : (change (s.flows o)).inTransit = bytesOf ts o)
    (htsOther : ∀ o', o' ≠ o → bytesOf ts o' = bytesOf s.inTransit o')
    (hqueued : (change (s.flows o)).queued = (s.flows o).queued)
    (hconnection : (change (s.flows o)).connection = (s.flows o).connection)
    (hexact : (change (s.flows o)).saturated = false) :
    Sound { s.update o change with inTransit := ts } := by
  refine h.updated ts s.queued s.accepted hts htsOther ?_ (fun _ _ _ => rfl) hexact h.counted ?_
    (.refl _)
  · rw [hqueued, hconnection]
    exact h.queued o
  · rw [hconnection]
    exact h.current o

theorem read (o : ω) (bytes : ℕ) : Sound (s.read o bytes) := by
  refine h.recharged ?_ (fun o' ho => bytesOf_cons_of_ne bytes ho) rfl rfl (h.exact o)
  rw [bytesOf_cons_self, Nat.add_comm, ← h.charged]
  rfl

variable {t : InTransit ω}

theorem bytes_le_inTransit (ht : t ∈ s.inTransit) : t.bytes ≤ (s.flows t.owner).inTransit := by
  have hsum := bytesOf_erase_self ht
  rw [h.charged]
  omega

theorem release_inTransit (ht : t ∈ s.inTransit) :
    ((s.flows t.owner).release t.bytes).inTransit = bytesOf (s.inTransit.erase t) t.owner := by
  have hsum := bytesOf_erase_self ht
  have hcount := h.charged t.owner
  simp only [FlowState.release]
  omega

theorem release_saturated (ht : t ∈ s.inTransit) :
    ((s.flows t.owner).release t.bytes).saturated = false := by
  simp [FlowState.release, h.exact, h.bytes_le_inTransit ht]

theorem dropInTransit (ht : t ∈ s.inTransit) : Sound (s.dropInTransit t) := by
  have hother : ∀ o', o' ≠ t.owner → bytesOf (s.inTransit.erase t) o' = bytesOf s.inTransit o' :=
    fun o' ho => bytesOf_erase_of_ne ht ho
  unfold State.dropInTransit
  by_cases hpos : 0 < t.bytes
  · rw [if_pos hpos]
    exact h.recharged (h.release_inTransit ht) hother rfl rfl (h.release_saturated ht)
  · rw [if_neg hpos]
    -- A token of no bytes is dropped without a change.
    refine { h with charged := fun o => ?_ }
    rw [h.charged]
    by_cases ho : o = t.owner
    · have hsum := bytesOf_erase_self ht
      subst ho
      change bytesOf s.inTransit t.owner = bytesOf (s.inTransit.erase t) t.owner
      omega
    · exact (hother o ho).symm

theorem absorb {other : InTransit ω} (ht : t ∈ s.inTransit)
    (hother : other ∈ s.inTransit.erase t) : Sound (s.absorb t other) := by
  unfold State.absorb
  by_cases ho : t.owner = other.owner
  · rw [if_pos ho]
    refine { h with charged := fun o => ?_ }
    have hfirst := bytesOf_erase_self ht
    have hsecond := bytesOf_erase_self hother
    rw [h.charged]
    by_cases howner : o = t.owner
    · subst howner
      rw [← ho] at hsecond
      rw [bytesOf_cons_self]
      omega
    · rw [bytesOf_cons_of_ne _ howner, bytesOf_erase_of_ne hother (ho ▸ howner),
        bytesOf_erase_of_ne ht howner]
  · rw [if_neg ho]
    exact h.dropInTransit (mem_of_mem_erase hother)

/-- A frame queued for a connection: the count of the hub follows if the connection is its
current one, and the token remembers whether it was. -/
theorem enqueue_queued (o : ω) (c n : ℕ) : ((s.flows o).enqueue c n).queued =
      countedFor (⟨o, c, n, decide ((s.flows o).connection = some c)⟩ :: s.queued) o
        (s.flows o).connection := by
  rw [countedFor_cons, ← h.queued]
  by_cases hc : (s.flows o).connection = some c
  · simp [FlowState.enqueue, hc, Nat.add_comm]
  · simp [FlowState.enqueue, hc]

end

theorem enqueue_other (s : State ω) {o' : ω} (c n : ℕ) (counted : Bool) (d : Option ℕ)
    (ho : o' ≠ o) :
    countedFor (⟨o, c, n, counted⟩ :: s.queued) o' d = countedFor s.queued o' d := by
  simp [countedFor_cons, Ne.symm ho]

section

variable (h : Sound s)
include h

theorem enqueue_counted (o : ω) (c n : ℕ) :
    ∀ q ∈ ⟨o, c, n, decide ((s.flows o).connection = some c)⟩ :: s.queued, q.counted = true →
      s.Used q.connection := by
  intro q hq hcounted
  rcases mem_cons.mp hq with rfl | hq
  · exact h.current o c (of_decide_eq_true hcounted)
  · exact h.counted q hq hcounted

theorem queue (o : ω) (c n : ℕ) : Sound (s.queue o c n) := by
  refine h.updated s.inTransit _ s.accepted ?_ (fun _ _ => rfl) ?_
    (fun o' d ho => enqueue_other s c n _ d ho) ?_ (h.enqueue_counted o c n) ?_ (.refl _)
  · rw [FlowState.enqueue_inTransit, h.charged]
  · rw [FlowState.enqueue_connection, h.enqueue_queued]
  · rw [FlowState.enqueue_saturated, h.exact]
  · rw [FlowState.enqueue_connection]
    exact h.current o

theorem queueFor (ht : t ∈ s.inTransit) (c n : ℕ) : Sound (s.queueFor t c n) := by
  refine h.updated _ _ s.accepted ?_ (fun o' ho => bytesOf_erase_of_ne ht ho) ?_
    (fun o' d ho => enqueue_other s c n _ d ho) ?_ (h.enqueue_counted t.owner c n) ?_ (.refl _)
  · rw [FlowState.enqueue_inTransit, h.release_inTransit ht]
  · rw [FlowState.enqueue_connection, FlowState.enqueue_release_queued]
    exact h.enqueue_queued t.owner c n
  · rw [FlowState.enqueue_saturated, h.release_saturated ht]
  · rw [FlowState.enqueue_connection]
    exact h.current t.owner

/-- Dropping a counted token takes its share away if its connection is still the hub's, and
it has none otherwise. -/
theorem dequeue_queued {q : Queued ω} (hq : q ∈ s.queued) (hcounted : q.counted = true) :
    ((s.flows q.owner).dequeue q.connection q.bytes).queued =
        countedFor (s.queued.erase q) q.owner (s.flows q.owner).connection ∧
      ((s.flows q.owner).dequeue q.connection q.bytes).saturated = false := by
  have hsum := countedFor_erase hq (o := q.owner) (c := (s.flows q.owner).connection)
  have hcount := h.queued q.owner
  by_cases hc : (s.flows q.owner).connection = some q.connection
  · rw [if_pos ⟨rfl, hcounted, hc⟩] at hsum
    simp only [FlowState.dequeue, if_pos hc, h.exact, Bool.false_or, decide_eq_false_iff_not]
    omega
  · rw [if_neg fun hcounts => hc hcounts.2.2] at hsum
    simp only [FlowState.dequeue, if_neg hc, h.exact, and_true]
    omega

theorem dropQueued {q : Queued ω} (hq : q ∈ s.queued) : Sound (s.dropQueued q) := by
  have hother : ∀ o' c, ¬(q.owner = o' ∧ q.counted = true ∧ c = some q.connection) →
      countedFor (s.queued.erase q) o' c = countedFor s.queued o' c := by
    intro o' c hcounts
    have hsum := countedFor_erase hq (o := o') (c := c)
    rw [if_neg hcounts] at hsum
    omega
  have hkept : ∀ q' ∈ s.queued.erase q, q'.counted = true → s.Used q'.connection :=
    fun q' hq' => h.counted q' (mem_of_mem_erase hq')
  unfold State.dropQueued
  by_cases hcounted : q.counted = true
  · rw [if_pos hcounted]
    obtain ⟨hqueued, hexact⟩ := h.dequeue_queued hq hcounted
    refine h.updated s.inTransit _ s.accepted ?_ (fun _ _ => rfl) ?_
      (fun o' c ho => hother o' c fun hcounts => ho hcounts.1.symm) hexact hkept ?_ (.refl _)
    · rw [FlowState.dequeue_inTransit, h.charged]
    · rw [FlowState.dequeue_connection]
      exact hqueued
    · rw [FlowState.dequeue_connection]
      exact h.current q.owner
  · rw [if_neg hcounted]
    refine { h with counted := hkept, queued := fun o => ?_ }
    rw [h.queued]
    exact (hother o _ fun hcounts => hcounted hcounts.2.1).symm

theorem accept : Sound s.accept := by
  have hused : ∀ c, s.Used c → s.accept.Used c := by
    rintro c ⟨hle, hmem⟩
    refine ⟨Nat.le_succ_of_le hle, fun hc => ?_⟩
    rcases mem_cons.mp hc with rfl | hc
    · exact absurd hle (Nat.not_succ_le_self _)
    · exact hmem hc
  refine { h with
    counted := fun q hq hcounted => hused _ (h.counted q hq hcounted)
    current := fun o c hc => hused c (h.current o c hc)
    numbered := fun c hc => ?_
    nodup := nodup_cons.mpr ⟨fun hc => ?_, h.nodup⟩ }
  · rcases mem_cons.mp hc with rfl | hc
    · exact Nat.le_refl _
    · exact Nat.le_succ_of_le (h.numbered c hc)
  · exact Nat.not_succ_le_self _ (h.numbered _ hc)

/-- **A new connection starts empty**: its number is new, so no live token counts for it. -/
theorem attach (o : ω) {c : ℕ} (hc : c ∈ s.accepted) : Sound (s.attach o c) := by
  refine h.updated s.inTransit s.queued _ (h.charged o) (fun _ _ => rfl) ?_
    (fun _ _ _ => rfl) (h.exact o) ?_ ?_ erase_sublist
  · refine (countedFor_eq_zero fun q hq hcounted heq => ?_).symm
    cases heq
    exact (h.counted q hq hcounted).2 hc
  · intro q hq hcounted
    obtain ⟨hle, hmem⟩ := h.counted q hq hcounted
    exact ⟨hle, fun hin => hmem (mem_of_mem_erase hin)⟩
  · intro d hd
    cases hd
    exact ⟨h.numbered _ hc, h.nodup.not_mem_erase⟩

theorem detach (o : ω) (c : ℕ) : Sound (s.update o (.detach c)) := by
  refine h.updated s.inTransit s.queued s.accepted ?_
    (fun _ _ => rfl) ?_ (fun _ _ _ => rfl) ?_ h.counted ?_ (.refl _)
  · rw [FlowState.detach_inTransit, h.charged]
  · by_cases hc : (s.flows o).connection = some c
    · simp only [FlowState.detach, if_pos hc]
      have hnone : countedFor s.queued o none = 0 := countedFor_eq_zero fun _ _ _ => nofun
      exact hnone.symm
    · simp only [FlowState.detach, if_neg hc]
      exact h.queued o
  · rw [FlowState.detach_saturated, h.exact]
  · intro d hd
    by_cases hc : (s.flows o).connection = some c
    · simp [FlowState.detach, hc] at hd
    · exact h.current o d (by simpa [FlowState.detach, hc] using hd)

/-- After `notify_waiters` nobody waits for the flow without being woken. -/
theorem notify (o : ω) : Sound (s.notify o) := by
  refine { h with wakes := fun p r hr hp => ?_ }
  obtain ⟨r₀, hr₀, rfl⟩ := map_eq_some_iff.mp hr
  by_cases ho : r₀.owner = o
  · rw [if_pos ho] at hp
    cases hphase : r₀.phase <;> simp [hphase, Phase.wake] at hp
  · rw [if_neg ho] at hp ⊢
    have hold := h.wakes p r₀ hr₀ hp
    change s.marks.low < s.pending r₀.owner ∨
      0 < Function.update s.draining o (s.draining o - 1) r₀.owner
    rw [update_of_ne ho]
    exact hold

theorem setPhase (p : ℕ) (r : Reader ω) {phase : Phase}
    (hwait : phase = .waiting false → s.marks.low < s.pending r.owner) :
    Sound (s.setPhase p r phase) := by
  refine { h with wakes := fun p' r' hr' hp' => ?_ }
  by_cases hpp : p' = p
  · subst hpp
    obtain rfl : { r with phase } = r' := by simpa [State.setPhase] using hr'
    exact .inl (hwait hp')
  · exact h.wakes p' r' (by simpa [State.setPhase, hpp] using hr') hp'

theorem stepReader {f : Reader ω → Option Phase} {s' : State ω} (hs' : s.stepReader p f = some s')
    (hf : ∀ r, f r = some (.waiting false) → s.marks.low < s.pending r.owner) : Sound s' := by
  obtain ⟨r, -, hr⟩ := bind_eq_some_iff.mp hs'
  obtain ⟨phase, hphase, rfl⟩ := map_eq_some_iff.mp hr
  exact h.setPhase p r fun hwait => hf r (hwait ▸ hphase)

theorem finish (p : ℕ) : Sound { s with readers := update s.readers p none } := by
  refine { h with wakes := fun p' r' hr' hp' => ?_ }
  by_cases hpp : p' = p
  · subst hpp
    simp at hr'
  · exact h.wakes p' r' (by simpa [hpp] using hr') hp'

/-- **The step lemma.** -/
theorem step {a : Step ω} {s' : State ω} (hs' : s.next a = some s') : Sound s' := by
  cases a with
  | read o bytes =>
    cases hs'
    exact h.read o bytes
  | absorb t other =>
    obtain ⟨⟨ht, hother⟩, ⟨rfl⟩⟩ := ite_none_right_eq_some.mp hs'
    exact h.absorb ht hother
  | queueFor t c n =>
    obtain ⟨ht, ⟨rfl⟩⟩ := ite_none_right_eq_some.mp hs'
    exact h.queueFor ht c n
  | queue o c n =>
    cases hs'
    exact h.queue o c n
  | dropInTransit t =>
    obtain ⟨ht, ⟨rfl⟩⟩ := ite_none_right_eq_some.mp hs'
    exact h.dropInTransit ht
  | dropQueued q =>
    obtain ⟨hq, ⟨rfl⟩⟩ := ite_none_right_eq_some.mp hs'
    exact h.dropQueued hq
  | accept =>
    cases hs'
    exact h.accept
  | attach o c =>
    obtain ⟨hc, ⟨rfl⟩⟩ := ite_none_right_eq_some.mp hs'
    exact h.attach o hc
  | detach o c =>
    cases hs'
    exact h.detach o c
  | notify o =>
    obtain ⟨-, ⟨rfl⟩⟩ := ite_none_right_eq_some.mp hs'
    exact h.notify o
  | start p o =>
    simp only [State.next] at hs'
    split at hs'
    · cases hs'
      refine h.setPhase p _ fun hwait => ?_
      split at hwait <;> cases hwait
    · cases hs'
  | look p =>
    refine h.stepReader hs' fun r hr => ?_
    obtain ⟨-, hr⟩ := ite_none_right_eq_some.mp hr
    have hwait := some.inj hr
    split at hwait <;> cases hwait
  | enable | resume =>
    refine h.stepReader hs' fun r hr => ?_
    obtain ⟨-, hr⟩ := ite_none_right_eq_some.mp hr
    cases hr
  | check p =>
    refine h.stepReader hs' fun r hr => ?_
    split at hr
    · have hwait := some.inj hr
      split at hwait
      · cases hwait
      · exact Nat.not_le.mp ‹_›
    · cases hr
  | abandon p =>
    refine h.stepReader hs' fun r hr => ?_
    split at hr <;> cases hr
  | finish p =>
    obtain ⟨r, -, rfl⟩ := map_eq_some_iff.mp hs'
    exact h.finish p

end

end Sound

open Transition

/-- **The counters never drift, and no reader is left waiting.**  Whatever tokens are made,
merged, handed over and dropped, and however connections come and go, in every state reached
the counters are the sums of the live tokens they stand for, no subtraction was ever cut off
at zero, and a reader that waits has more than the low mark pending or is being woken. -/
theorem counters_exact {marks : Marks} {s : State ω}
    (h : Run State.next free (State.init marks) s) :
    (∀ o, (s.flows o).inTransit = bytesOf s.inTransit o) ∧
    (∀ o, (s.flows o).queued = countedFor s.queued o (s.flows o).connection) ∧
    (∀ o, (s.flows o).saturated = false) ∧
    ∀ p r woken, s.readers p = some r → r.phase = .waiting woken →
      s.marks.low < s.pending r.owner ∨ s.wakeIssued r := by
  have hs : Sound s := h.invariant (Sound.init marks) fun _ _ _ hs _ hn => hs.step hn
  refine ⟨hs.charged, hs.queued, hs.exact, fun p r woken hr hp => ?_⟩
  cases woken with
  | false => exact (hs.wakes p r hr hp).imp_right Or.inr
  | true => exact .inr (.inl hp)

/-- A hub's connection is replaced while the old one still holds a frame, a reader waits, and
the two charges meet the new connection and the old token's drop. -/
def replaced : List (Step ℕ) :=
  [.accept, .attach 7 1, .read 7 60, .queueFor ⟨7, 60⟩ 1 64, .read 7 50, .start 3 7, .enable 3,
    .check 3, .accept, .attach 7 2, .queueFor ⟨7, 50⟩ 2 54, .dropQueued ⟨7, 1, 64, true⟩]

theorem counters_exact_replaced :
    ∃ s, exec State.next (State.init ⟨100, 40⟩) replaced = some s ∧
      (s.flows 7).queued = 54 ∧ countedFor s.queued 7 (some 2) = 54 ∧
      (s.flows 7).saturated = false := by
  have hrun : Run State.next free (State.init ⟨100, 40⟩) _ := .get_free replaced (by decide +kernel)
  exact ⟨_, (Option.some_get _).symm, by decide +kernel, by decide +kernel,
    (counters_exact hrun).2.2.1 7⟩

end Model

end Flow
