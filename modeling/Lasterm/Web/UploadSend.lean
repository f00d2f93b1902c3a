import Lasterm.Transfer.Sources
import Mathlib.Data.Int.Notation

/-!
# Sending a file's bytes

A window sends a file chunk by chunk, each from where the host's bytes end (`upload-send.ts`,
`sendFileBytes`).  Every chunk is answered once, by the hub or by the request's failure; the
answer moves the offset, sends the same chunk again after a pause, or ends the loop.

The loop is cut at its two awaits: the answer to a chunk, and the pause before one is sent again.
Between them it runs undisturbed.

## Main results

* `SendOptions.ends` — **the loop ends, whatever is answered.**
-/

namespace Lasterm.Web.UploadSend

open Lasterm.Transfer (ItemState)

/-! ### What a chunk comes to -/

/-- What one PUT answered. -/
inductive ChunkAnswer
  | ok (acked : ℕ)
  /-- `status` is 0 for a request that never reached the hub; `acked` comes with
  `OFFSET_MISMATCH`, `state` with `ITEM_NOT_SENDING`. -/
  | refused (status : ℕ) (code message : String) (acked : Option ℕ) (state : Option ItemState)

/-- What awaiting one PUT comes to: an answer, or the error that was thrown. -/
inductive Put
  | answered (a : ChunkAnswer)
  | threw (name message : String)

/-- How a file's loop ended. -/
inductive SendOutcome
  | sent (acked : ℕ)
  | stopped (state : Option ItemState)
  | failed (code message : String) (here : Bool)
  deriving DecidableEq

/-- What is sent, from where, and how much at once. -/
structure SendOptions where
  file : List UInt8
  start : ℤ
  chunkBytes : Option ℤ

/-- How many times a chunk that did not get through is sent again. -/
def chunkRetries : ℕ := 5

/-- How many times running the hub moves the offset before the file is given up. -/
def maxOffsetMoves : ℕ := 8

/-- `TRANSFER_CHUNK_BYTES`. -/
def transferChunkBytes : ℤ := 1024 * 1024

/-- Whether an answer is worth sending the same chunk again for. -/
def transient (status : ℕ) (code : String) : Bool :=
  status = 0 || code = "ITEM_BUSY" || status = 503

/-! ### The loop -/

/-- The variables of the loop. -/
structure Loop where
  offset : ℕ
  retries : ℕ
  moves : ℕ
  deriving DecidableEq

/-- What the loop waits for, or how it ended. -/
inductive Turn
  | put (l : Loop)
  | backoff (l : Loop)
  | finished (o : SendOutcome)
  deriving DecidableEq

namespace SendOptions

variable (o : SendOptions)

/-- How long the file is. -/
def size : ℕ := o.file.length

/-- How long a chunk is, at least one byte. -/
def chunkSize : ℕ := (max 1 (o.chunkBytes.getD transferChunkBytes)).toNat

/-- The chunk at an offset: a slice of the file. -/
def chunk (offset : ℕ) : List UInt8 :=
  (o.file.drop offset).take (min o.size (offset + o.chunkSize) - offset)

/-- The head of the loop; `stopped` is what the caller says now. -/
def again (stopped : Bool) (l : Loop) : Turn :=
  if l.offset < o.size then if stopped then .finished (.stopped none) else .put l
  else .finished (.sent l.offset)

/-- The loop begins. -/
def begin (stopped : Bool) : Turn :=
  o.again stopped ⟨(min (max 0 o.start) o.size).toNat, 0, 0⟩

/-- The host holds another amount: the next chunk goes there, unless that was so too often. -/
def move (stopped : Bool) (l : Loop) (acked : ℕ) (code message : String) : Turn :=
  if maxOffsetMoves < l.moves + 1 then .finished (.failed code message false)
  else o.again stopped { l with offset := acked, moves := l.moves + 1 }

/-- The chunk was refused. -/
def refusal (stopped : Bool) (l : Loop) (status : ℕ) (code message : String)
    (acked : Option ℕ) (state : Option ItemState) : Turn :=
  if code = "ITEM_NOT_SENDING" then .finished (.stopped state)
  else match (if code = "OFFSET_MISMATCH" then acked else none) with
    | some a => o.move stopped l a code message
    | none =>
      if transient status code = true ∧ l.retries < chunkRetries then
        .backoff { l with retries := l.retries + 1 }
      -- The hub failed the file itself, or kept refusing: nothing more is sent.
      else if status = 409 ∨ status = 502 then .finished (.stopped none)
      else .finished (.failed code message false)

/-- What follows an answer. -/
def answer (stopped : Bool) (l : Loop) : ChunkAnswer → Turn
  | .ok acked =>
    -- The host holds no more than before: never loop on the same bytes.
    if acked ≤ l.offset then
      o.move stopped { l with retries := 0 } acked "NO_PROGRESS" "The host took none of it"
    else o.again stopped { l with offset := acked, retries := 0 }
  | .refused status code message acked state => o.refusal stopped l status code message acked state

/-- What follows a PUT.  An error of reading the file ends it; any other is a request that never
reached the hub. -/
def take (stopped : Bool) (l : Loop) : Put → Turn
  | .answered a => o.answer stopped l a
  | .threw name message =>
    if name = "NotReadableError" ∨ name = "NotFoundError" then
      .finished (.failed name "The file changed or was removed since it was dropped" true)
    else o.answer stopped l (.refused 0 "HUB_UNREACHABLE" message none none)

/-- The next turn, by what the chunk came to and what the caller says. -/
def next : Turn → Put × Bool → Turn
  | .put l, (p, stopped) => o.take stopped l p
  | .backoff l, (_, stopped) => o.again stopped l
  | .finished r, _ => .finished r

/-- The loop after `n` turns, fed with `heard`. -/
def after (t : Turn) (heard : ℕ → Put × Bool) : ℕ → Turn
  | 0 => t
  | n + 1 => o.next (after t heard n) (heard n)

/-! ### It ends

Every turn that does not end the loop takes a move, or bytes with the moves left as they were, or
a retry with both left: the three counted in that order can go down only so often.  A move may
take the offset back, and an answer that goes through gives the retries back, which the order
allows. -/

/-- What is left of the three. -/
def rank (l : Loop) : ℕ :=
  (maxOffsetMoves - l.moves) * (6 * (o.size + 1)) + 6 * (o.size - l.offset) +
    (chunkRetries - l.retries)

/-- The turns left, at most. -/
def left : Turn → ℕ
  | .put l => 2 * o.rank l + 1
  | .backoff l => 2 * o.rank l + 2
  | .finished _ => 0

theorem left_again (stopped : Bool) (l : Loop) : o.left (o.again stopped l) ≤ 2 * o.rank l + 1 := by
  unfold again
  split
  · split
    · simp [left]
    · exact Nat.le_refl _
  · simp [left]

theorem rank_move {l : Loop} (h : l.moves + 1 ≤ maxOffsetMoves) (acked retries : ℕ) :
    o.rank ⟨acked, retries, l.moves + 1⟩ < o.rank l := by
  obtain ⟨k, hk⟩ : ∃ k, maxOffsetMoves - l.moves = k + 1 := ⟨maxOffsetMoves - l.moves - 1, by omega⟩
  have hk' : maxOffsetMoves - (l.moves + 1) = k := by omega
  simp only [rank, hk, hk', Nat.succ_mul, chunkRetries]
  omega

theorem left_move (stopped : Bool) (l : Loop) (acked : ℕ) (code message : String) :
    o.left (o.move stopped l acked code message) < 2 * o.rank l + 1 := by
  unfold move
  split
  · simp [left]
  · next h =>
    have hrank := o.rank_move (l := l) (by omega) acked l.retries
    have hagain := o.left_again stopped { l with offset := acked, moves := l.moves + 1 }
    omega

theorem left_refusal (stopped : Bool) (l : Loop) (status : ℕ) (code message : String)
    (acked : Option ℕ) (state : Option ItemState) :
    o.left (o.refusal stopped l status code message acked state) < 2 * o.rank l + 1 := by
  unfold refusal
  split
  · simp [left]
  · split
    · exact o.left_move stopped l _ code message
    · split
      · next h =>
        simp only [left, rank]
        omega
      · split <;> simp [left]

theorem left_answer (stopped : Bool) (l : Loop) (a : ChunkAnswer) :
    o.left (o.answer stopped l a) < 2 * o.rank l + 1 := by
  cases a with
  | refused status code message acked state =>
    exact o.left_refusal stopped l status code message acked state
  | ok acked =>
    unfold answer
    dsimp only
    split
    · next hle =>
      -- The retries are given back, and the move costs more.
      unfold move
      split
      · simp [left]
      · next h =>
        dsimp only at h
        have hrank := o.rank_move (l := l) (by omega) acked 0
        have hagain := o.left_again stopped ⟨acked, 0, l.moves + 1⟩
        dsimp only
        omega
    · next hgt =>
      unfold again
      split
      · next hlt =>
        dsimp only at hlt
        split
        · simp [left]
        · simp only [left, rank, chunkRetries]
          omega
      · simp [left]

theorem left_next (t : Turn) (heard : Put × Bool) (h : ∀ r, t ≠ .finished r) :
    o.left (o.next t heard) < o.left t := by
  obtain ⟨p, stopped⟩ := heard
  cases t with
  | finished r => exact absurd rfl (h r)
  | backoff l =>
    have hagain := o.left_again stopped l
    simp only [next, left] at *
    omega
  | put l =>
    cases p with
    | answered a => exact o.left_answer stopped l a
    | threw name message =>
      simp only [next, take]
      split
      · simp [left]
      · exact o.left_answer stopped l _

/-- **The loop ends, whatever is answered.** -/
theorem ends (t : Turn) (heard : ℕ → Put × Bool) :
    ∃ n r, n ≤ o.left t ∧ o.after t heard n = .finished r := by
  by_contra hgoes
  -- Otherwise no turn up to that one is the last, and each of them takes one of what is left.
  have hdown : ∀ n, n ≤ o.left t + 1 → o.left (o.after t heard n) + n ≤ o.left t := by
    intro n
    induction n with
    | zero => simp [after]
    | succ n ih =>
      intro hn
      have hnot : ∀ r, o.after t heard n ≠ .finished r :=
        fun r hr => hgoes ⟨n, r, by omega, hr⟩
      have hstep := o.left_next (o.after t heard n) (heard n) hnot
      have hprev := ih (by omega)
      simp only [after]
      omega
  have := hdown (o.left t + 1) (Nat.le_refl _)
  omega

end SendOptions

end Lasterm.Web.UploadSend
