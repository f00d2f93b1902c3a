import Lasterm.Lib.Run
import Mathlib.Algebra.BigOperators.Group.List.Basic
import Mathlib.Algebra.GroupWithZero.Nat
import Mathlib.Data.List.Basic

/-!
# What a hub types, on its way to the terminal

`input.rs`: each channel has a queue of its own, bounded in bytes, which one writer takes to
the terminal.  An INPUT is queued whole or dropped whole; once one was dropped, all are until
the terminal has taken everything queued, and the hub is told by the first of them.  The
writer hands the terminal a chunk at a time; a chunk may be taken in parts, and at any of
them the terminal may be gone.

## Main definitions

* `InputQueue` — the queue, its writer and what the terminal took; `next` — a step of either.

## Main results

* `one_notice` — a run of refused INPUTs is told of once.
* `input_in_order` — whole INPUTs, in order, in every run.
* `cut_by_the_end` — what the queue does not promise.
-/

namespace Lasterm.Agent.Input

open List Option

/-- `WRITE_CHUNK`. -/
def writeChunk : ℕ := 4096

/-- `INPUT_QUEUE_BYTES`. -/
def inputQueueBytes : ℕ := 1024 * 1024

/-- The counters a queue and its writer share. -/
structure QueueState where
  /-- Bytes queued and not yet taken by the terminal. -/
  queued : ℕ
  dropping : Bool
  closed : Bool

/-- What became of an INPUT offered to a channel's queue. -/
inductive Offer
  | queued
  | overflowed
  | dropped
  | closed
deriving DecidableEq

/-- The queue had no room for the INPUT. -/
def Offer.refused : Offer → Bool
  | .overflowed | .dropped => true
  | .queued | .closed => false

/-- The writer waits for a message; or it writes the chunk, of which the terminal has taken
`written` bytes, with the rest of the message to come; or it has ended. -/
inductive Writer (β : Type)
  | idle
  | writing (chunk : List β) (written : ℕ) (rest : List β)
  | ended

variable {β : Type}

/-- The writer goes on to the next chunk of what is left of a message, if there is one. -/
def Writer.chunks (data : List β) : Writer β :=
  if data.isEmpty then .idle else .writing (data.take writeChunk) 0 (data.drop writeChunk)

/-- A channel's queue, with its writer and what the terminal has taken.  `log` is not in the
source: every INPUT offered and what became of it. -/
structure InputQueue (β : Type) where
  bound : ℕ
  state : QueueState
  queue : List (List β)
  writer : Writer β
  pty : List β
  log : List (List β × Offer)

/-- What can happen to a queue. -/
inductive Step (β : Type)
  | offer (data : List β)
  | recv
  /-- The terminal takes some of the chunk being written. -/
  | write (n : ℕ)
  /-- All of the chunk is taken: it is counted off. -/
  | taken
  | fail

namespace InputQueue

/-- `InputQueue::start`. -/
def start (bound : ℕ) : InputQueue β := ⟨bound, ⟨0, false, false⟩, [], .idle, [], []⟩

/-- Queue an INPUT whole, or drop it whole. -/
def offer (q : InputQueue β) (data : List β) : InputQueue β × Offer :=
  if q.state.closed then (q, .closed)
  else if q.state.dropping && decide (0 < q.state.queued) then (q, .dropped)
  else if q.bound < q.state.queued + data.length then
    ({ q with state := { q.state with dropping := true } }, .overflowed)
  else
    match q.writer with
    -- the receiver is gone: the send fails
    | .ended => ({ q with state := { q.state with dropping := false, closed := true } }, .closed)
    | _ =>
      ({ q with
          state := { q.state with queued := q.state.queued + data.length, dropping := false }
          queue := q.queue ++ [data] }, .queued)

/-- One step of either side. -/
def next (q : InputQueue β) : Step β → Option (InputQueue β)
  | .offer data =>
    let offered := q.offer data
    some { offered.1 with log := offered.1.log ++ [(data, offered.2)] }
  | .recv =>
    match q.writer, q.queue with
    | .idle, data :: queue => some { q with queue, writer := .chunks data }
    | _, _ => none
  | .write n =>
    match q.writer with
    | .writing chunk written rest =>
      if 0 < n ∧ written + n ≤ chunk.length then
        some { q with
          writer := .writing chunk (written + n) rest
          pty := q.pty ++ (chunk.drop written).take n }
      else none
    | _ => none
  | .taken =>
    match q.writer with
    | .writing chunk written rest =>
      if written = chunk.length then
        some { q with
          state := { q.state with queued := q.state.queued - chunk.length }
          writer := .chunks rest }
      else none
    | _ => none
  | .fail =>
    match q.writer with
    | .writing chunk written _ =>
      if written < chunk.length then
        some { q with
          state := { q.state with closed := true, queued := 0 }
          queue := []
          writer := .ended }
      else none
    | _ => none

/-- The INPUTs that were queued, in the order they came. -/
def accepted (q : InputQueue β) : List (List β) :=
  (q.log.filter fun x => decide (x.2 = .queued)).map Prod.fst

/-- The bytes of the chunks the terminal has not taken whole, and of what is behind them. -/
def waiting (q : InputQueue β) : ℕ :=
  (match q.writer with
    | .idle | .ended => 0
    | .writing chunk _ rest => chunk.length + rest.length) + (q.queue.map length).sum

/-- What the terminal has not taken yet. -/
def unwritten (q : InputQueue β) : List β :=
  (match q.writer with
    | .idle | .ended => []
    | .writing chunk written rest => chunk.drop written ++ rest) ++ q.queue.flatten

end InputQueue

/-- Whether the last INPUT of a log was refused. -/
def lastRefused (log : List (List β × Offer)) : Bool := log.getLast?.elim false (·.2.refused)

/-- Where the writer is in the INPUTs that were queued. -/
inductive Writes (q : InputQueue β) : Writer β → Prop
  | idle (done : List (List β)) (haccepted : q.accepted = done ++ q.queue)
      (hpty : q.pty = done.flatten) : Writes q .idle
  /-- In the middle of one, of which `part` is written. -/
  | writing (done : List (List β)) (part chunk : List β) (written : ℕ) (rest : List β)
      (haccepted : q.accepted = done ++ (part ++ chunk.drop written ++ rest) :: q.queue)
      (hpty : q.pty = done.flatten ++ part) (hwritten : written ≤ chunk.length) :
      Writes q (.writing chunk written rest)
  | ended (done : List (List β)) (part left : List β) (more : List (List β))
      (haccepted : q.accepted = done ++ (part ++ left) :: more)
      (hpty : q.pty = done.flatten ++ part) (hclosed : q.state.closed = true)
      (hqueue : q.queue = []) : Writes q .ended

/-- The invariant of the two sides. -/
structure Sound (q : InputQueue β) : Prop where
  writes : Writes q q.writer
  count : q.state.queued = q.waiting
  bounded : q.state.queued ≤ q.bound
  closed : q.state.closed = true → q.writer = .ended
  /-- The flag says whether the last INPUT was refused. -/
  dropping : q.state.closed = false → q.state.dropping = lastRefused q.log
  /-- An INPUT is dropped silently only after one that was refused. -/
  silent : ∀ pre data post, q.log = pre ++ (data, .dropped) :: post → lastRefused pre = true
  /-- Two notices with nothing queued between them: the second INPUT is larger than the queue. -/
  again : ∀ pre data post, q.log = pre ++ (data, .overflowed) :: post → lastRefused pre = true →
    q.bound < data.length

/-! ### Reading the log -/

theorem lastRefused_concat (log : List (List β × Offer)) (x : List β × Offer) :
    lastRefused (log ++ [x]) = x.2.refused := by
  simp [lastRefused]

theorem log_split {log pre post : List (List β × Offer)} {x y : List β × Offer}
    (h : log ++ [x] = pre ++ y :: post) :
    (pre = log ∧ y = x) ∨ ∃ post', log = pre ++ y :: post' := by
  rcases eq_nil_or_concat' post with rfl | ⟨post', last, rfl⟩
  · obtain ⟨hlog, hx⟩ := append_inj' h rfl
    exact .inl ⟨hlog.symm, (cons.inj hx).1.symm⟩
  · rw [← cons_append, ← append_assoc] at h
    exact .inr ⟨post', (append_inj' h rfl).1⟩

namespace Sound

variable {q q' : InputQueue β}

theorem start (bound : ℕ) : Sound (InputQueue.start bound : InputQueue β) where
  writes := .idle [] rfl rfl
  count := rfl
  bounded := Nat.zero_le _
  closed := nofun
  dropping _ := rfl
  silent pre data post h := by simp [InputQueue.start] at h
  again pre data post h := by simp [InputQueue.start] at h

/-- What `Writes` says is about what was queued, the queue and what the terminal took. -/
theorem writes_congr {w : Writer β} (h : Writes q w) (haccepted : q'.accepted = q.accepted)
    (hqueue : q'.queue = q.queue) (hpty : q'.pty = q.pty)
    (hclosed : q.state.closed = true → q'.state.closed = true) : Writes q' w := by
  cases h with
  | idle done ha hp => exact .idle done (by rw [haccepted, hqueue, ha]) (hpty.trans hp)
  | writing done part chunk written rest ha hp hw =>
    exact .writing done part chunk written rest (by rw [haccepted, hqueue, ha]) (hpty.trans hp) hw
  | ended done part left more ha hp hc hq =>
    exact .ended done part left more (haccepted.trans ha) (hpty.trans hp) (hclosed hc)
      (hqueue.trans hq)

/-! ### An INPUT comes in -/

theorem accepted_concat (q : InputQueue β) (log : List (List β × Offer)) (data : List β) {o : Offer}
    (h : o ≠ .queued) :
    InputQueue.accepted { q with log := log ++ [(data, o)] } =
      InputQueue.accepted { q with log } := by
  simp [InputQueue.accepted, h]

/-- An INPUT that is not queued: the queue and the count are left, and the log keeps telling
of each gap once. -/
theorem notQueued (h : Sound q) (data : List β) {o : Offer} (dropping closed : Bool)
    (ho : o ≠ .queued) (hclosed : q.state.closed = true → closed = true)
    (hended : closed = true → q.writer = .ended)
    (hdropping : closed = false → dropping = o.refused)
    (hsilent : o = .dropped → lastRefused q.log = true)
    (hagain : o = .overflowed → lastRefused q.log = true → q.bound < data.length) :
    Sound { q with
      state := { q.state with dropping, closed }
      log := q.log ++ [(data, o)] } where
  writes := writes_congr h.writes (accepted_concat _ _ _ ho) rfl rfl hclosed
  count := h.count
  bounded := h.bounded
  closed := hended
  dropping hc := by
    rw [lastRefused_concat]
    exact hdropping hc
  silent pre d post hlog := by
    rcases log_split hlog with ⟨rfl, heq⟩ | ⟨post', hlog'⟩
    · exact hsilent (congrArg Prod.snd heq).symm
    · exact h.silent pre d post' hlog'
  again pre d post hlog hpre := by
    rcases log_split hlog with ⟨rfl, heq⟩ | ⟨post', hlog'⟩
    · obtain ⟨rfl, rfl⟩ := Prod.ext_iff.mp heq
      exact hagain rfl hpre
    · exact h.again pre d post' hlog' hpre

theorem queued (h : Sound q) (data : List β) (hwriter : q.writer ≠ .ended)
    (hroom : q.state.queued + data.length ≤ q.bound) :
    Sound { q with
      state := { q.state with queued := q.state.queued + data.length, dropping := false }
      queue := q.queue ++ [data]
      log := q.log ++ [(data, .queued)] } where
  writes := by
    have haccepted : InputQueue.accepted { q with log := q.log ++ [(data, Offer.queued)] } =
        q.accepted ++ [data] := by
      simp [InputQueue.accepted]
    obtain hw := h.writes
    generalize hwr : q.writer = w at hw
    cases hw with
    | idle done ha hp =>
      exact .idle done (by rw [← append_assoc, ← ha]; exact haccepted) hp
    | writing done part chunk written rest ha hp hle =>
      refine .writing done part chunk written rest ?_ hp hle
      rw [← cons_append, ← append_assoc, ← ha]
      exact haccepted
    | ended => exact absurd hwr hwriter
  count := by
    have hcount := h.count
    simp only [InputQueue.waiting, map_append, sum_append, map_cons, map_nil,
      sum_singleton] at hcount ⊢
    omega
  bounded := hroom
  closed := h.closed
  dropping _ := by
    rw [lastRefused_concat]
    rfl
  silent pre d post hlog := by
    rcases log_split hlog with ⟨-, heq⟩ | ⟨post', hlog'⟩
    · cases heq
    · exact h.silent pre d post' hlog'
  again pre d post hlog hpre := by
    rcases log_split hlog with ⟨-, heq⟩ | ⟨post', hlog'⟩
    · cases heq
    · exact h.again pre d post' hlog' hpre

theorem offer (h : Sound q) (data : List β) :
    Sound { (q.offer data).1 with log := (q.offer data).1.log ++ [(data, (q.offer data).2)] } := by
  unfold InputQueue.offer
  by_cases hclosed : q.state.closed = true
  · rw [if_pos hclosed]
    have hstill : q.state.closed = false → q.state.dropping = Offer.closed.refused := by
      rw [hclosed]
      exact nofun
    exact h.notQueued data _ _ nofun id h.closed hstill nofun nofun
  · rw [if_neg hclosed]
    have hdropping := h.dropping (Bool.eq_false_iff.mpr hclosed)
    by_cases hsilent : (q.state.dropping && decide (0 < q.state.queued)) = true
    · obtain ⟨hdrop, -⟩ := (Bool.and_eq_true _ _).mp hsilent
      rw [if_pos hsilent]
      have hlast : lastRefused q.log = true := hdropping.symm.trans hdrop
      exact h.notQueued data _ _ nofun id h.closed (fun _ => hdrop) (fun _ => hlast) nofun
    · rw [if_neg hsilent]
      by_cases hfull : q.bound < q.state.queued + data.length
      · rw [if_pos hfull]
        refine h.notQueued data _ _ nofun id h.closed (fun _ => rfl) nofun fun _ hlast => ?_
        -- The one before was refused, so everything queued has been taken since.
        have hempty : q.state.queued = 0 := by
          rw [hdropping, hlast] at hsilent
          simpa using hsilent
        omega
      · rw [if_neg hfull]
        split
        · next hended =>
          exact h.notQueued data false true nofun (fun _ => rfl) (fun _ => hended) nofun nofun nofun
        · next hwriter => exact h.queued data hwriter (Nat.not_lt.mp hfull)

/-! ### The writer -/

theorem chunks_waiting (data : List β) :
    (match Writer.chunks data with
      | .idle | .ended => 0
      | .writing chunk _ rest => chunk.length + rest.length) = data.length := by
  unfold Writer.chunks
  by_cases hempty : data = []
  · simp [hempty]
  · have hlength := congrArg length (data.take_append_drop writeChunk)
    rw [length_append] at hlength
    rw [if_neg fun he => hempty (isEmpty_iff.mp he)]
    exact hlength

/-- The writer turns to what is left of a message after `part`. -/
theorem writes_chunks (q : InputQueue β) (done : List (List β)) (part data : List β)
    (haccepted : q.accepted = done ++ (part ++ data) :: q.queue)
    (hpty : q.pty = done.flatten ++ part) : Writes q (.chunks data) := by
  unfold Writer.chunks
  by_cases hempty : data = []
  · rw [if_pos (isEmpty_iff.mpr hempty)]
    refine .idle (done ++ [part]) ?_ (by simpa using hpty)
    simpa [hempty] using haccepted
  · rw [if_neg fun he => hempty (isEmpty_iff.mp he)]
    refine .writing done part _ 0 _ ?_ hpty (Nat.zero_le _)
    rw [drop_zero, append_assoc, take_append_drop]
    exact haccepted

section

variable (h : Sound q)
include h

theorem recv {data : List β} {queue : List (List β)} (hw : q.writer = .idle)
    (hq : q.queue = data :: queue) : Sound { q with queue, writer := .chunks data } := by
  have hwrites := h.writes
  have hcount := h.count
  rw [hw] at hwrites
  obtain ⟨done, ha, hp⟩ := hwrites
  refine { h with writes := ?_, count := ?_, closed := fun hc => ?_ }
  · refine writes_chunks _ done [] data ?_ (by simpa using hp)
    rw [nil_append, ← hq]
    exact ha
  · simp only [InputQueue.waiting, hw, hq, map_cons, sum_cons] at hcount
    simp only [InputQueue.waiting, chunks_waiting]
    omega
  · exact nomatch hw.symm.trans (h.closed hc)

theorem write {chunk rest : List β} {written n : ℕ}
    (hw : q.writer = .writing chunk written rest) (hn : written + n ≤ chunk.length) :
    Sound { q with
      writer := .writing chunk (written + n) rest
      pty := q.pty ++ (chunk.drop written).take n } := by
  have hwrites := h.writes
  have hcount := h.count
  rw [hw] at hwrites
  obtain - | ⟨done, part, _, _, _, ha, hp, hle⟩ := hwrites
  refine { h with writes := ?_, count := ?_, closed := fun hc => ?_ }
  · refine .writing done (part ++ (chunk.drop written).take n) _ _ _ ?_ (by simp [hp]) hn
    have hsplit : (chunk.drop written).take n ++ chunk.drop (written + n) = chunk.drop written := by
      rw [← drop_drop]
      exact take_append_drop n _
    rw [append_assoc part, hsplit]
    exact ha
  · simpa only [InputQueue.waiting, hw] using hcount
  · exact nomatch hw.symm.trans (h.closed hc)

theorem taken {chunk rest : List β} (hw : q.writer = .writing chunk chunk.length rest) :
    Sound { q with
      state := { q.state with queued := q.state.queued - chunk.length }
      writer := .chunks rest } := by
  have hwrites := h.writes
  have hcount := h.count
  have hbounded := h.bounded
  rw [hw] at hwrites
  obtain - | ⟨done, part, _, _, _, ha, hp, hle⟩ := hwrites
  refine { h with writes := ?_, count := ?_, bounded := ?_, closed := fun hc => ?_ }
  · refine writes_chunks _ done part rest ?_ hp
    rw [drop_length, append_nil] at ha
    exact ha
  · simp only [InputQueue.waiting, hw] at hcount
    simp only [InputQueue.waiting, chunks_waiting]
    omega
  · exact Nat.le_trans (Nat.sub_le _ _) hbounded
  · exact nomatch hw.symm.trans (h.closed hc)

theorem fail {chunk rest : List β} {written : ℕ} (hw : q.writer = .writing chunk written rest) :
    Sound { q with
      state := { q.state with closed := true, queued := 0 }
      queue := []
      writer := .ended } := by
  have hwrites := h.writes
  rw [hw] at hwrites
  obtain - | ⟨done, part, _, _, _, ha, hp, hle⟩ := hwrites
  refine { h with
    writes := ?_, count := rfl, bounded := Nat.zero_le _, closed := fun _ => rfl, dropping := nofun }
  rw [append_assoc part] at ha
  exact .ended done part _ q.queue ha hp rfl rfl

/-- **The step lemma.** -/
theorem step {a : Step β} (hn : q.next a = some q') : Sound q' := by
  cases a with
  | offer data =>
    cases hn
    exact h.offer data
  | recv =>
    simp only [InputQueue.next] at hn
    split at hn
    · next hw hq =>
      cases hn
      exact h.recv hw hq
    · cases hn
  | write n =>
    simp only [InputQueue.next] at hn
    split at hn
    · next hw =>
      obtain ⟨⟨-, hle⟩, ⟨rfl⟩⟩ := ite_none_right_eq_some.mp hn
      exact h.write hw hle
    · cases hn
  | taken =>
    simp only [InputQueue.next] at hn
    split at hn
    · next hw =>
      obtain ⟨hall, ⟨rfl⟩⟩ := ite_none_right_eq_some.mp hn
      exact h.taken (hall ▸ hw)
    · cases hn
  | fail =>
    simp only [InputQueue.next] at hn
    split at hn
    · next hw =>
      obtain ⟨-, ⟨rfl⟩⟩ := ite_none_right_eq_some.mp hn
      exact h.fail hw
    · cases hn

/-! ### What a run has written -/

theorem whole :
    ∃ done part, q.pty = done.flatten ++ part ∧ done <+: q.accepted ∧
      (part = [] ∨ ∃ data, done ++ [data] <+: q.accepted ∧ part <+: data) := by
  have hwrites := h.writes
  generalize q.writer = w at hwrites
  cases hwrites with
  | idle done ha hp => exact ⟨done, [], by simpa using hp, ⟨_, ha.symm⟩, .inl rfl⟩
  | writing done part chunk written rest ha hp _ =>
    refine ⟨done, part, hp, ⟨_, ha.symm⟩,
      .inr ⟨part ++ chunk.drop written ++ rest, ⟨q.queue, ?_⟩, ⟨chunk.drop written ++ rest, ?_⟩⟩⟩
    · rw [ha, append_assoc, singleton_append]
    · rw [append_assoc]
  | ended done part left more ha hp _ _ =>
    refine ⟨done, part, hp, ⟨_, ha.symm⟩, .inr ⟨part ++ left, ⟨more, ?_⟩, ⟨left, rfl⟩⟩⟩
    rw [ha, append_assoc, singleton_append]

theorem complete (hopen : q.state.closed = false) : q.pty ++ q.unwritten = q.accepted.flatten := by
  have hwrites := h.writes
  unfold InputQueue.unwritten
  generalize q.writer = w at hwrites
  cases hwrites with
  | idle _ ha hp | writing _ _ _ _ _ ha hp => simp [ha, hp]
  | ended done part left more _ _ hc _ => exact nomatch hopen.symm.trans hc

/-- **One notice a gap**: a run of refused INPUTs begins with the notice, and has no other if
each of them would fit an empty queue. -/
theorem one_notice {pre run post : List (List β × Offer)}
    (hlog : q.log = pre ++ run ++ post) (hne : run ≠ []) (hrun : ∀ x ∈ run, x.2.refused = true)
    (hpre : lastRefused pre = false) :
    (run.head hne).2 = .overflowed ∧
      ((∀ x ∈ run, x.1.length ≤ q.bound) →
        (run.filter fun x => decide (x.2 = .overflowed)).length = 1) := by
  obtain ⟨⟨data, o⟩, tail, rfl⟩ := exists_cons_of_ne_nil hne
  have hfirst : o = .overflowed := by
    have ho := hrun (data, o) mem_cons_self
    cases o with
    | overflowed => rfl
    | dropped =>
      rw [append_assoc, cons_append] at hlog
      exact nomatch hpre.symm.trans (h.silent pre data _ hlog)
    | queued | closed => cases ho
  refine ⟨hfirst, fun hfit => ?_⟩
  subst hfirst
  have htail : tail.filter (fun x => decide (x.2 = .overflowed)) = [] := by
    refine filter_eq_nil_iff.mpr fun x hx hover => ?_
    obtain ⟨before, after, rfl⟩ := append_of_mem hx
    obtain ⟨d, o⟩ := x
    obtain rfl : o = .overflowed := of_decide_eq_true hover
    -- The INPUT just before it is one of the run.
    have hlast : lastRefused (pre ++ (data, .overflowed) :: before) = true := by
      have hmem := getLast_mem (cons_ne_nil (data, Offer.overflowed) before)
      rw [lastRefused, getLast?_append_of_ne_nil _ (cons_ne_nil _ _),
        getLast?_eq_some_getLast (cons_ne_nil _ _)]
      refine hrun _ ?_
      rw [← cons_append]
      exact mem_append_left _ hmem
    have hlarge := h.again (pre ++ (data, .overflowed) :: before) d (after ++ post)
      (by rw [hlog]; simp) hlast
    exact absurd (hfit (d, .overflowed) (by simp)) (Nat.not_le.mpr hlarge)
  simp [htail]

end

end Sound

open Transition

/-- **Whole INPUTs, in order, and one notice a gap.**  In every state a run of offers and of
partial and failing writes reaches: what the terminal has taken is whole INPUTs of those that
were queued, in the order they came, and of the next one a part; none is cut but the one the
terminal is taking, or was when it refused a write; the count is that of the bytes whose chunk
the terminal has not taken whole, and within the bound; and every run of INPUTs the queue had
no room for begins with the one notice, if none of them is larger than the queue. -/
theorem input_in_order {bound : ℕ} {q : InputQueue β}
    (h : Run InputQueue.next free (InputQueue.start bound) q) :
    q.accepted.Sublist (q.log.map Prod.fst) ∧
    (∃ done part, q.pty = done.flatten ++ part ∧ done <+: q.accepted ∧
      (part = [] ∨ ∃ data, done ++ [data] <+: q.accepted ∧ part <+: data)) ∧
    (q.state.closed = false → q.pty ++ q.unwritten = q.accepted.flatten) ∧
    q.state.queued = q.waiting ∧ q.state.queued ≤ q.bound ∧
    ∀ (pre run post : List (List β × Offer)) (hne : run ≠ []), q.log = pre ++ run ++ post →
      (∀ x ∈ run, x.2.refused = true) → lastRefused pre = false →
      (run.head hne).2 = .overflowed ∧
        ((∀ x ∈ run, x.1.length ≤ q.bound) →
          (run.filter fun x => decide (x.2 = .overflowed)).length = 1) := by
  have hq : Sound q := h.invariant (Sound.start bound) fun _ _ _ hs _ hn => hs.step hn
  refine ⟨filter_sublist.map _, hq.whole, hq.complete, hq.count, hq.bounded, ?_⟩
  intro pre run post hne hlog hrun hpre
  exact hq.one_notice hlog hne hrun hpre

/-- A queue of three bytes has no room for the second INPUT, nor then for the third; the
terminal takes the first, and the fourth is queued. -/
def gap : List (Step UInt8) :=
  [.offer [1, 2], .offer [3, 4], .offer [5], .recv, .write 1, .write 1, .taken, .offer [6]]

theorem input_in_order_gap :
    ∃ q, exec InputQueue.next (InputQueue.start 3) gap = some q ∧ q.pty = [1, 2] ∧
      q.state.queued = q.waiting ∧
      (q.log.filter fun x => decide (x.2 = .overflowed)).length = 1 := by
  obtain ⟨-, -, -, hcount, -, hruns⟩ := input_in_order
    (.get_free gap (by decide +kernel) : Run InputQueue.next free (InputQueue.start 3) _)
  obtain ⟨-, hone⟩ := hruns [([1, 2], .queued)] [([3, 4], .overflowed), ([5], .dropped)]
    [([6], .queued)] (by decide) (by decide +kernel) (by decide) (by decide)
  have hnotice := hone (by decide +kernel)
  exact ⟨_, (some_get _).symm, by decide +kernel, hcount,
    Eq.trans (by decide +kernel) hnotice⟩

/-- Two INPUTs larger than the queue, one after the other. -/
theorem exec_offer_twice {bound : ℕ} {data : List β} (h : bound < data.length) :
    exec InputQueue.next (InputQueue.start bound) [.offer data, .offer data] =
      some { InputQueue.start bound with
        state := ⟨0, true, false⟩
        log := [(data, .overflowed), (data, .overflowed)] } := by
  simp [exec, InputQueue.next, InputQueue.offer, InputQueue.start, h]

/-- **What the queue does not promise.**  A terminal that refuses a write has taken part of an
INPUT, and two INPUTs larger than the queue are each told of, though nothing was queued
between them. -/
theorem cut_by_the_end :
    (∃ q : InputQueue UInt8, Run InputQueue.next free (InputQueue.start inputQueueBytes) q ∧
      ¬∃ whole : List (List UInt8),
        whole.Sublist (q.log.map Prod.fst) ∧ q.pty = whole.flatten) ∧
    ∃ q : InputQueue UInt8, Run InputQueue.next free (InputQueue.start inputQueueBytes) q ∧
      (∀ x ∈ q.log, x.2.refused = true) ∧
      (q.log.filter fun x => decide (x.2 = .overflowed)).length = 2 := by
  constructor
  · refine ⟨_, .get_free [.offer [1, 2], .recv, .write 1, .fail] (by decide +kernel), ?_⟩
    rintro ⟨whole, hwhole, hflat⟩
    have hwhole : whole.Sublist [[1, 2]] := hwhole.trans (by decide +kernel)
    have hflat : [1] = whole.flatten := Eq.trans (by decide +kernel) hflat
    rcases sublist_singleton.mp hwhole with rfl | rfl
    · exact nomatch hflat
    · exact nomatch hflat
  · have hlong : inputQueueBytes < (replicate (inputQueueBytes + 1) (0 : UInt8)).length := by
      rw [length_replicate]
      exact Nat.lt_succ_self _
    have hexec := exec_offer_twice hlong
    refine ⟨_, .of_exec _ (meetsAlong_free _ _) hexec, ?_, rfl⟩
    simp [Offer.refused]

end Lasterm.Agent.Input
