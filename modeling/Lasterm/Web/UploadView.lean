import Lasterm.Transfer.UploadSaid

/-!
# A window's view of an upload

A window shows an upload by what it read of it (`adopt`, and `refreshFrom` while it is resumed) and by
the hub's messages, which it applies to what it has (`stores/transfers.ts`).  The two come by ways of
their own: a read is answered with the upload as it is at some moment, and its answer may come after
messages that were sent later.

Nothing tells the window which of the two is newer.  A message about an upload it has not read yet is
applied to nothing, and an answer is taken whatever was delivered before it.

## Main results

* `Record.receive_state`, `Record.receive_acked`, `Record.receive_totals`, `Record.receive_own` — what
  a message does to a record, by what it says.
-/

namespace Lasterm.Web.UploadView

open Lasterm.Transfer (ItemState)
open Lasterm.Transfer.Said
open Transition

/-! ### What a window holds -/

/-- An item, as the hub describes it: a folder has no bytes. -/
structure ItemRow where
  state : ItemState
  acked : Option ℤ

/-- One upload as the hub describes it (`GET /api/transfers/:id`). -/
structure Description where
  state : OwnState
  reason : Option Reason
  totals : Totals
  items : ℕ → ItemRow

/-- The hub's `describe`. -/
def describe (u : Upload) : Description where
  state := u.uploadState
  reason := u.reason
  totals := u.totals
  items i := ⟨(u.items i).state, if u.kind i = .file then some (u.items i).acked else none⟩

/-- `UploadItemView`. -/
structure ItemView where
  state : ItemState
  acked : ℤ

/-- `UploadRecord`. -/
structure Record where
  items : ℕ → ItemView
  totals : Totals
  done : Bool
  state : OwnState
  reason : Option Reason

/-- The source's `itemViewsOf`. -/
def itemViewsOf (body : Description) (i : ℕ) : ItemView :=
  ⟨(body.items i).state, (body.items i).acked.getD 0⟩

/-- The record that `adopt` adds. -/
def adopted (body : Description) : Record where
  items := itemViewsOf body
  totals := body.totals
  done := body.state == .done
  state := body.state
  reason := body.reason

namespace Record

variable (r : Record)

/-- The source's `refreshFrom`: what the hub describes, but for the upload's own state. -/
def refreshFrom (body : Description) : Record :=
  { r with items := itemViewsOf body, totals := body.totals, reason := body.reason }

/-- One change of a TRANSFER_PROGRESS. -/
def setItem (change : ItemProgress) : Record :=
  let before := r.items change.itemId
  let after : ItemView := ⟨change.state, change.acked.getD before.acked⟩
  { r with items := Function.update r.items change.itemId after }

/-- The source's `onProgress`. -/
def onProgress (items : List ItemProgress) (totals : Totals) : Record :=
  { items.foldl setItem r with totals, done := false }

/-- One of a TRANSFER_CONFLICT. -/
def setConflict (i : ℕ) : Record :=
  { r with items := Function.update r.items i { r.items i with state := .conflict } }

/-- The source's `onConflict`. -/
def onConflict (items : List ℕ) : Record := items.foldl setConflict r

/-- The source's `onDone`. -/
def onDone (totals : Totals) : Record := { r with totals, done := true }

/-- The source's `onState`. -/
def onState (state : OwnState) (reason : Option Reason) : Record :=
  { r with state, reason := if state = .interrupted then reason else none }

/-- A message about an upload that is shown: `none`, it is dismissed. -/
def receive : Message → Option Record
  | .progress items totals => some (r.onProgress items totals)
  | .conflict items => some (r.onConflict items)
  | .done totals => some (r.onDone totals)
  | .state state reason => some (r.onState state reason)
  | .discarded => none

variable {r r' : Record} {m : Message} {k : ℕ}

theorem setItem_state (r : Record) (change : ItemProgress) (k : ℕ) :
    ((r.setItem change).items k).state =
      if change.itemId = k then change.state else (r.items k).state := by
  unfold setItem
  dsimp only
  split
  · next h => rw [← h, Function.update_self]
  · next h => rw [Function.update_of_ne (Ne.symm h)]

theorem setItem_acked (r : Record) (change : ItemProgress) (k : ℕ) :
    ((r.setItem change).items k).acked =
      if change.itemId = k then change.acked.getD (r.items k).acked else (r.items k).acked := by
  unfold setItem
  dsimp only
  split
  · next h => rw [← h, Function.update_self]
  · next h => rw [Function.update_of_ne (Ne.symm h)]

theorem foldl_setItem (items : List ItemProgress) :
    (items.foldl setItem r).state = r.state := by
  induction items generalizing r with
  | nil => rfl
  | cons change items ih => exact ih

theorem foldl_setConflict (items : List ℕ) (k : ℕ) :
    let r' := items.foldl setConflict r
    (r'.items k).state = (if k ∈ items then .conflict else (r.items k).state) ∧
      (r'.items k).acked = (r.items k).acked ∧ r'.totals = r.totals ∧ r'.state = r.state := by
  induction items generalizing r with
  | nil => exact ⟨rfl, rfl, rfl, rfl⟩
  | cons i items ih =>
    obtain ⟨hstate, hacked, htotals, hown⟩ := ih (r := r.setConflict i)
    refine ⟨?_, ?_, htotals, hown⟩
    · rw [List.foldl_cons, hstate]
      by_cases hki : k = i
      · subst hki
        simp [setConflict]
      · simp [setConflict, hki]
    · rw [List.foldl_cons, hacked]
      by_cases hki : k = i
      · subst hki
        simp [setConflict]
      · simp [setConflict, hki]

section

variable (h : r.receive m = some r')
include h

/-- A file is in the last state that the message gives it. -/
theorem receive_state :
    (r'.items k).state = (stateWord m k).getD (r.items k).state := by
  cases m with
  | progress items totals =>
    cases h
    exact read_foldl (fun r k => (Record.items r k).state) setItem ItemProgress.state setItem_state
      items r k
  | conflict items =>
    cases h
    refine (foldl_setConflict items k).1.trans ?_
    by_cases hk : k ∈ items <;> simp [stateWord, hk]
  | done | state => cases h; rfl
  | discarded => cases h

/-- A file has the last count that the message gives it. -/
theorem receive_acked :
    (r'.items k).acked = (ackedWord m k).getD (r.items k).acked := by
  cases m with
  | progress items totals =>
    cases h
    refine read_foldl_filter (fun r k => (Record.items r k).acked) setItem
      (fun change => change.acked.getD 0) (fun change => change.acked.isSome) ?_ ?_ items r k
    · intro r change k hnone
      have hacked : change.acked = none := by simpa using hnone
      rw [setItem_acked, hacked]
      exact ite_self _
    · intro r change k hsome
      obtain ⟨acked, hacked⟩ := Option.isSome_iff_exists.mp hsome
      rw [setItem_acked, hacked]
      rfl
  | conflict items =>
    cases h
    exact (foldl_setConflict items k).2.1
  | done | state => cases h; rfl
  | discarded => cases h

theorem receive_totals :
    r'.totals = (totalsWord m ()).getD r.totals := by
  cases m with
  | conflict items =>
    cases h
    exact (foldl_setConflict items 0).2.2.1
  | progress | done | state => cases h; rfl
  | discarded => cases h

/-- The upload is in the last state that the message gives it. -/
theorem receive_own : r'.state = (ownWord m ()).getD r.state := by
  cases m with
  | progress items totals =>
    cases h
    exact foldl_setItem items
  | conflict items =>
    cases h
    exact (foldl_setConflict items 0).2.2.2
  | done | state => cases h; rfl
  | discarded => cases h

end

end Record

/-- A message about an upload that is not shown has it read. -/
def adopts : Message → Bool
  | .progress .. | .conflict _ | .state .. => true
  | .done _ | .discarded => false

/-! ### The hub and a window -/

/-- Why a view is read anew. -/
inductive ReadKind
  | adopt
  | refresh
  deriving DecidableEq

/-- A read of the upload. -/
structure Read where
  kind : ReadKind
  /-- How it was answered, if it was: the upload as it was when so many messages had been sent, or
  nothing, where the hub has no such upload or the read failed. -/
  answer : Option (Option (ℕ × Description))

/-- The hub, what it said of an upload, and how much of it came. -/
structure System where
  hub : Upload
  dropped : Bool
  log : List Message
  delivered : ℕ
  record : Option Record
  adopting : Bool
  reads : List Read
  /-- What is known of the upload's own state; no step depends on it. -/
  heard : Heard

/-- How a turn of the hub ends. -/
inductive Ending
  | nothing
  /-- With `settle`: what changed will be said. -/
  | settles
  /-- With `sayState` at once: `notResumed`. -/
  | states

/-- What can happen. -/
inductive Event
  | turn (edits : List Edit) (ending : Ending)
  | flush
  | drop
  | deliver
  /-- The window reads an upload it heard of in a list. -/
  | adopt
  /-- The window reads the upload as it resumes it. -/
  | refresh
  | answer (i : ℕ)
  | fail (i : ℕ)
  /-- An answer reaches the window; a resume may have been given up. -/
  | take (i : ℕ) (wanted : Bool)
  | dismiss

namespace System

variable (s : System)

/-- The hub says something. -/
def tell (said : Upload × List Message) : System :=
  { s with hub := said.1, log := s.log ++ said.2, heard := s.heard.after said.2 }

/-- The hub's edits of a turn. -/
def edited (edits : List Edit) : Upload := edits.foldl Edit.apply s.hub

/-- A turn of the service, and how it ends. -/
def turn (edits : List Edit) : Ending → System
  | .nothing => { s with hub := s.edited edits }
  | .settles => { s with hub := { s.edited edits with flushes := true } }
  | .states => s.tell (s.edited edits).sayState

/-- The source's `adopt`, up to its answer. -/
def adopt : System :=
  if s.adopting || s.record.isSome then s
  else { s with adopting := true, reads := s.reads ++ [⟨.adopt, none⟩] }

/-- A message reaches the window. -/
def receive (m : Message) : System :=
  let s := { s with delivered := s.delivered + 1 }
  match s.record with
  | some r => { s with record := r.receive m }
  | none => if adopts m then s.adopt else s

/-- The hub answers a read. -/
def answer (i : ℕ) (read : Read) : System :=
  let body := if s.dropped then none else some (s.log.length, describe s.hub)
  let early := read.kind = .adopt ∧ s.hub.uploadState ≠ s.heard.own
  { s with
    reads := s.reads.set i { read with answer := some body }
    heard := { s.heard with asked := s.heard.asked || early } }

/-- The window takes an answer. -/
def take (i : ℕ) (kind : ReadKind) (body : Option (ℕ × Description)) (wanted : Bool) : System :=
  let s := { s with reads := s.reads.eraseIdx i }
  match kind with
  | .adopt =>
    { s with adopting := false, record := s.record.or (body.map fun b => adopted b.2) }
  | .refresh =>
    if wanted then
      { s with record := s.record.map fun r => body.elim r fun b => r.refreshFrom b.2 }
    else s

end System

/-- One step, if it is possible. -/
def step (s : System) : Event → Option System
  | .turn edits ending => if s.dropped then none else some (s.turn edits ending)
  | .flush => if s.dropped || !s.hub.flushes then none else some (s.tell s.hub.flush)
  | .drop =>
    if s.dropped then none else some { s with dropped := true, log := s.log ++ [.discarded] }
  | .deliver => (s.log[s.delivered]?).map s.receive
  | .adopt => some s.adopt
  | .refresh =>
    if s.record.isSome then some { s with reads := s.reads ++ [⟨.refresh, none⟩] } else none
  | .answer i => (s.reads[i]?).bind fun read =>
    if read.answer.isSome then none else some (s.answer i read)
  | .fail i => (s.reads[i]?).bind fun read =>
    if read.answer.isSome then none
    else some { s with reads := s.reads.set i { read with answer := some none } }
  | .take i wanted => (s.reads[i]?).bind fun read =>
    read.answer.map fun body => s.take i read.kind body wanted
  | .dismiss => some { s with record := none }

end Lasterm.Web.UploadView
