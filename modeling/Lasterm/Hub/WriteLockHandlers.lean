import Lasterm.Lib.Run
import Lasterm.Hub.WriteLock

/-!
# The write lock behind the WebSocket handlers

The handlers (`ws/handlers/write-lock.ts`, `attach.ts`, `spawn.ts`, `detach.ts`) and the
life of a socket (`ws/ws-handler.ts`) as a transition system over the manager.  An
`ATTACH` and a `SPAWN` call the manager only when their promise resolves, which may be
after the socket that sent them was released.

The manager takes a holder that is not attached, or gone, in three ways: an attach that runs
after its client left, a claim or a force by a client that does not show the terminal, and a
grant to whatever client id the wire carries.

## Main definitions

* `Sockets`, `step` — the manager with its clients and the answers awaited.

## Main results

* `holder_connected_and_attached` — where none of the three is taken.
* `holder_may_be_gone` — where one is.
-/

namespace Lasterm.Hub

open Transition WriteLockManager OrderedMap Option

/-- `[0-9A-HJKMNP-TV-Z]`, in either case: the letters of a ULID. -/
def isUlidChar (c : Char) : Bool :=
  let n := c.toUpper.toNat
  (48 ≤ n && n ≤ 57) || (65 ≤ n && n ≤ 72) || n = 74 || n = 75 || n = 77 || n = 78
    || (80 ≤ n && n ≤ 84) || (86 ≤ n && n ≤ 90)

/-- `isValidUlid` (`shared/src/validation.ts`). -/
def isValidUlid (id : String) : Bool :=
  id.toList.length = 26 && id.toList.all isUlidChar

/-- What the WebSocket routes hold that bears on the write lock. -/
structure Sockets where
  locks : WriteLockManager
  /-- The clients that authenticated and whose socket was not released. -/
  connected : OrderedSet String
  /-- Every client id generated so far: `generateId` gives none of them twice. -/
  generated : List String
  /-- The `ATTACH`es (with their channel) and `SPAWN`s (without) not yet answered. -/
  pending : List (String × Option String)

namespace Sockets

/-- The routes as they are registered. -/
def init : Sockets := ⟨.new, .empty, [], []⟩

/-- The messages of a client that bear on the write lock. -/
inductive Message
  | spawn
  | attach (channelId : String)
  | detach (channelId : String)
  | writeClaim (channelId : String)
  | writeRelease (channelId : String)
  | writeForce (channelId : String)
  | writeGrant (channelId toClientId : String)
  | writeDeny (channelId toClientId : String)
  deriving DecidableEq

/-- What can happen to the sockets. -/
inductive Event
  /-- A socket authenticates, naming a window or none. -/
  | connect (clientId : String) (window : Option ClientWindow)
  | message (clientId : String) (msg : Message)
  /-- The promise of a pending `ATTACH` or `SPAWN` resolves, with a channel or without. -/
  | answered (i : ℕ) (channelId : Option String)
  /-- The socket closes, fails, or is ended by the hub. -/
  | disconnect (clientId : String)
  | timer (timer : ℕ)
  | removeChannel (channelId : String)
  | shutdown

/-- What every handler does first: a channel id that is not one is refused. -/
def onChannel (s : Sockets) (clientId channelId : String)
    (op : WriteLockManager → WriteLockManager) : Sockets :=
  if isValidUlid channelId then { s with locks := op s.locks }
  else
    { s with
      locks := s.locks.emit (.sendToClient clientId (.error "INVALID_INPUT" "Invalid channelId")) }

/-- `handleWriteClaim`. -/
def handleWriteClaim (s : Sockets) (clientId channelId : String) : Sockets :=
  s.onChannel clientId channelId fun m => m.claim channelId clientId

/-- `handleWriteRelease`. -/
def handleWriteRelease (s : Sockets) (clientId channelId : String) : Sockets :=
  s.onChannel clientId channelId fun m => m.release channelId clientId

/-- `handleWriteForce`. -/
def handleWriteForce (s : Sockets) (clientId channelId : String) : Sockets :=
  s.onChannel clientId channelId fun m => m.force channelId clientId

/-- `handleWriteGrant`. -/
def handleWriteGrant (s : Sockets) (clientId channelId toClientId : String) : Sockets :=
  s.onChannel clientId channelId fun m => m.grant channelId clientId toClientId

/-- `handleWriteDeny`. -/
def handleWriteDeny (s : Sockets) (clientId channelId toClientId : String) : Sockets :=
  s.onChannel clientId channelId fun m => m.deny channelId clientId toClientId

/-- `handleDetach`. -/
def handleDetach (s : Sockets) (clientId channelId : String) : Sockets :=
  s.onChannel clientId channelId fun m => m.detach channelId clientId

/-- `handleAttach` up to its await. -/
def handleAttach (s : Sockets) (clientId channelId : String) : Sockets :=
  if isValidUlid channelId then
    { s with pending := s.pending ++ [(clientId, some channelId)] }
  else s.onChannel clientId channelId id

/-- `handleSpawn` up to its await, for a `SPAWN` that passes its checks. -/
def handleSpawn (s : Sockets) (clientId : String) : Sockets :=
  { s with pending := s.pending ++ [(clientId, none)] }

/-- Their `.then`: nothing is asked about the client, which may be gone. -/
def handleAnswered (s : Sockets) (i : ℕ) (channelId : Option String) : Option Sockets :=
  match s.pending[i]? with
  | none => none
  | some (clientId, asked) =>
    let s := { s with pending := s.pending.eraseIdx i }
    match channelId with
    | none => some s
    | some channelId =>
      if asked = none ∨ asked = some channelId then
        some { s with locks := s.locks.attach channelId clientId }
      else none

/-- `AUTH` accepted. -/
def accept (s : Sockets) (clientId : String) (window : Option ClientWindow) : Sockets :=
  { s with
    locks := window.elim s.locks (s.locks.identify clientId)
    connected := s.connected.add clientId
    generated := clientId :: s.generated }

/-- `release` of a socket, as far as the write lock goes. -/
def releaseSocket (s : Sockets) (clientId : String) : Sockets :=
  { s with
    locks := s.locks.onClientDisconnect clientId
    connected := s.connected.delete clientId }

/-- The handler of a message. -/
def handle (s : Sockets) (c : String) : Message → Sockets
  | .spawn => s.handleSpawn c
  | .attach ch => s.handleAttach c ch
  | .detach ch => s.handleDetach c ch
  | .writeClaim ch => s.handleWriteClaim c ch
  | .writeRelease ch => s.handleWriteRelease c ch
  | .writeForce ch => s.handleWriteForce c ch
  | .writeGrant ch toClient => s.handleWriteGrant c ch toClient
  | .writeDeny ch toClient => s.handleWriteDeny c ch toClient

/-- One thing happens.  A message is handled only while its socket is connected. -/
def step (s : Sockets) : Event → Option Sockets
  | .connect c window => if c ∈ s.generated then none else some (s.accept c window)
  | .message c msg => if c ∈ s.connected then some (s.handle c msg) else none
  | .answered i ch => s.handleAnswered i ch
  | .disconnect c => if c ∈ s.connected then some (s.releaseSocket c) else none
  | .timer t => some { s with locks := s.locks.timerFired t }
  | .removeChannel ch => some { s with locks := s.locks.removeChannel ch }
  | .shutdown => some { s with locks := s.locks.shutdown }

/-! ### The invariant -/

/-- The message of client `c` does not give a lock to a client that does not show the
terminal. -/
def MessageGivesToAttached (s : Sockets) (c : String) : Message → Prop
  | .writeClaim ch => isValidUlid ch → s.locks.isFree ch → s.locks.IsAttached ch c
  | .writeForce ch => isValidUlid ch → s.locks.IsAttached ch c
  | .writeGrant ch toClient =>
    isValidUlid ch → s.locks.holders.get ch = some c → s.locks.IsAttached ch toClient
  | _ => True

/-- The step gives no lock to a client that is gone or does not show the terminal. -/
def GivesToAttached (s : Sockets) : Event → Prop
  | .message c msg => s.MessageGivesToAttached c msg
  | .answered i (some _) => ∀ p ∈ s.pending[i]?, p.1 ∈ s.connected
  | _ => True

instance (s : Sockets) (c : String) :
    ∀ msg, Decidable (s.MessageGivesToAttached c msg)
  | .writeClaim _ | .writeForce _ | .writeGrant _ _ => inferInstanceAs (Decidable (_ → _))
  | .spawn | .attach _ | .detach _ | .writeRelease _ | .writeDeny _ _ => .isTrue trivial

instance (s : Sockets) : ∀ e, Decidable (s.GivesToAttached e)
  | .message c msg => inferInstanceAs (Decidable (s.MessageGivesToAttached c msg))
  | .answered i (some _) =>
    inferInstanceAs (Decidable (∀ p ∈ s.pending[i]?, p.1 ∈ s.connected))
  | .answered _ none | .connect _ _ | .disconnect _ | .timer _ | .removeChannel _
  | .shutdown => .isTrue trivial

/-- Who is attached is connected, and who holds a lock is attached. -/
structure HolderInv (s : Sockets) : Prop where
  attached_connected : ∀ ch c, s.locks.IsAttached ch c → c ∈ s.connected
  holder_attached : ∀ ch c, s.locks.holders.get ch = some c → s.locks.IsAttached ch c

theorem HolderInv.init : HolderInv init where
  attached_connected := by rintro ch c ⟨clients, h, -⟩; cases h
  holder_attached := by intro ch c h; cases h

variable {s s' : Sockets}

section

variable (hi : HolderInv s)
include hi

theorem HolderInv.handsOn
    (hl : s.locks.HandsOn s'.locks) (hc : ∀ c ∈ s.connected, c ∈ s'.connected) :
    HolderInv s' where
  attached_connected := by
    intro ch c h
    have := (isAttached_congr hl.attached_eq ch c).mp h
    exact hc c (hi.attached_connected ch c this)
  holder_attached := by
    intro ch c h
    rw [isAttached_congr hl.attached_eq]
    rcases hl.holder ch c h with hh | ha
    · exact hi.holder_attached ch c hh
    · exact ha

theorem HolderInv.onChannel (clientId channelId : String) (op : WriteLockManager → WriteLockManager)
    (hop : isValidUlid channelId → s.locks.HandsOn (op s.locks)) :
    HolderInv (s.onChannel clientId channelId op) := by
  unfold Sockets.onChannel
  split
  · next hv => exact hi.handsOn (hop hv) fun _ h => h
  · exact hi.handsOn (.of_eq rfl rfl) fun _ h => h

theorem HolderInv.accept (clientId : String)
    (window : Option ClientWindow) : HolderInv (s.accept clientId window) := by
  refine hi.handsOn ?_ fun c hc => by simp [Sockets.accept, hc]
  cases window with
  | none => exact .refl _
  | some w => exact .of_eq rfl rfl

theorem HolderInv.attach {channelId clientId : String} (hc : clientId ∈ s.connected) :
    HolderInv { s with locks := s.locks.attach channelId clientId } := by
  have hadded : HolderInv { s with locks := s.locks.addAttached channelId clientId } := by
    constructor
    · intro ch c h
      rcases (isAttached_addAttached _ _ _ ch c).mp h with ⟨-, rfl⟩ | h
      · exact hc
      · exact hi.attached_connected ch c h
    · intro ch c h
      refine (isAttached_addAttached _ _ _ ch c).mpr (Or.inr ?_)
      exact hi.holder_attached ch c h
  exact hadded.handsOn (attach_handsOn _ _ _) fun _ h => h

/-- An operation that takes the client out of the sets the entries of `gone` name, and
then hands locks on without leaving it one of those, keeps the invariant. -/
theorem HolderInv.leave {m m' : WriteLockManager} (gone : String → String → Prop)
    (hm : ∀ ch c, m.IsAttached ch c ↔ s.locks.IsAttached ch c ∧ ¬gone ch c)
    (hh : ∀ ch c, m.holders.get ch = some c → s.locks.holders.get ch = some c)
    (hl : m.HandsOn m') (hgone : ∀ ch c, m'.holders.get ch = some c → ¬gone ch c)
    {connected : OrderedSet String}
    (hc : ∀ ch c, s.locks.IsAttached ch c → ¬gone ch c → c ∈ connected) :
    HolderInv { s with locks := m', connected := connected } where
  attached_connected := by
    intro ch c h
    obtain ⟨ha, hg⟩ := (hm ch c).mp ((isAttached_congr hl.attached_eq ch c).mp h)
    exact hc ch c ha hg
  holder_attached := by
    intro ch c h
    refine (isAttached_congr hl.attached_eq ch c).mpr ?_
    rcases hl.holder ch c h with hholder | ha
    · exact (hm ch c).mpr ⟨hi.holder_attached ch c (hh ch c hholder), hgone ch c h⟩
    · exact ha

theorem HolderInv.detach (clientId channelId : String) :
    HolderInv (s.handleDetach clientId channelId) := by
  unfold handleDetach Sockets.onChannel
  split
  · refine hi.leave (fun ch c => ch = channelId ∧ c = clientId)
      (isAttached_removeAttached _ _ _) ?_
      (detach_handsOn _ _ _) ?_
      fun ch c h _ => hi.attached_connected ch c h
    · intro ch c h
      simpa using h
    · rintro ch c h ⟨rfl, rfl⟩
      exact detach_not_holder _ _ _ h
  · exact hi.handsOn (.of_eq rfl rfl) fun _ h => h

theorem HolderInv.releaseSocket (clientId : String) : HolderInv (s.releaseSocket clientId) := by
  refine hi.leave (fun _ c => c = clientId)
    (isAttached_forgetClient _ _) ?_
    (onClientDisconnect_handsOn _ _) ?_ ?_
  · intro ch c h
    exact ((forgetClient_holders _ _ _ _).mp h).1
  · rintro ch c h rfl
    exact onClientDisconnect_not_holder _ _ _ h
  · intro ch c h hne
    exact (OrderedSet.mem_delete _ _ _).mpr ⟨hi.attached_connected ch c h, hne⟩

theorem HolderInv.removeChannel (channelId : String) :
    HolderInv { s with locks := s.locks.removeChannel channelId } := by
  have hatt : ∀ ch c, (s.locks.removeChannel channelId).IsAttached ch c →
      s.locks.IsAttached ch c := by
    rintro ch c ⟨clients, h, hmem⟩
    simp only [WriteLockManager.removeChannel, endReservation_attached, get_delete] at h
    split at h
    · cases h
    · exact ⟨clients, h, hmem⟩
  constructor
  · exact fun ch c h => hi.attached_connected ch c (hatt ch c h)
  · intro ch c h
    simp only [WriteLockManager.removeChannel, endReservation_holders, get_delete] at h
    split at h
    · cases h
    · next hne =>
      obtain ⟨clients, ha, hmem⟩ := hi.holder_attached ch c h
      refine ⟨clients, ?_, hmem⟩
      simp [WriteLockManager.removeChannel, get_delete, hne, ha]

end

theorem HolderInv.shutdown : HolderInv { s with locks := s.locks.shutdown } where
  attached_connected := by rintro ch c ⟨clients, h, -⟩; cases h
  holder_attached := by intro ch c h; cases h

theorem HolderInv.answered {i : ℕ} {channelId : Option String}
    (hi : HolderInv s) (hok : s.GivesToAttached (.answered i channelId))
    (h : s.handleAnswered i channelId = some s') : HolderInv s' := by
  unfold handleAnswered at h
  split at h
  · cases h
  next clientId asked hp =>
    have hi' : HolderInv { s with pending := s.pending.eraseIdx i } :=
      hi.handsOn (.refl _) fun _ h => h
    cases channelId with
    | none =>
      cases h
      exact hi'
    | some ch =>
      dsimp only at h
      split at h
      · cases h
        have hc : clientId ∈ s.connected := hok (clientId, asked) hp
        exact hi'.attach hc
      · cases h

theorem HolderInv.handle (hi : HolderInv s) {c : String} {msg : Message}
    (hok : s.MessageGivesToAttached c msg) : HolderInv (s.handle c msg) := by
  cases msg with
  | spawn => exact hi.handsOn (.refl _) fun _ h => h
  | attach ch =>
    show HolderInv (s.handleAttach c ch)
    unfold handleAttach
    split
    · exact hi.handsOn (.refl _) fun _ h => h
    · exact hi.onChannel c ch id fun _ => .refl _
  | detach ch => exact hi.detach c ch
  | writeClaim ch =>
    exact hi.onChannel c ch (·.claim ch c) fun hv =>
      claim_handsOn (hok hv)
  | writeRelease ch =>
    exact hi.onChannel c ch (·.release ch c) fun _ =>
      release_handsOn _ _ _
  | writeForce ch =>
    exact hi.onChannel c ch (·.force ch c) fun hv =>
      force_handsOn (hok hv)
  | writeGrant ch toClient =>
    exact hi.onChannel c ch (·.grant ch c toClient) fun hv =>
      grant_handsOn (hok hv)
  | writeDeny ch toClient =>
    exact hi.onChannel c ch (·.deny ch c toClient) fun _ =>
      deny_handsOn _ _ _ _

/-- **One step.** -/
theorem HolderInv.step {e : Event} (hi : HolderInv s)
    (hok : s.GivesToAttached e) (h : s.step e = some s') : HolderInv s' := by
  cases e with
  | connect c window =>
    obtain ⟨-, ⟨rfl⟩⟩ := ite_none_left_eq_some.mp h
    exact hi.accept c window
  | message c msg =>
    obtain ⟨-, ⟨rfl⟩⟩ := ite_none_right_eq_some.mp h
    exact hi.handle hok
  | answered i ch => exact hi.answered hok h
  | disconnect c =>
    obtain ⟨-, ⟨rfl⟩⟩ := ite_none_right_eq_some.mp h
    exact hi.releaseSocket c
  | timer t =>
    cases h
    exact hi.handsOn (timerFired_handsOn _ t) fun _ h => h
  | removeChannel ch =>
    cases h
    exact hi.removeChannel ch
  | shutdown =>
    cases h
    exact .shutdown

/-- **The holder is connected and attached**, in every state reached by steps that give
no lock to a client that is gone or does not show the terminal. -/
theorem holder_connected_and_attached {s : Sockets}
    (h : Run step GivesToAttached init s) (channelId clientId : String)
    (hh : s.locks.holders.get channelId = some clientId) :
    clientId ∈ s.connected ∧ s.locks.IsAttached channelId clientId := by
  have hi : HolderInv s := h.invariant .init fun _ _ _ hi hok hs => hi.step hok hs
  have ha := hi.holder_attached channelId clientId hh
  exact ⟨hi.attached_connected channelId clientId ha, ha⟩

/-- A client attaches, and holds the lock. -/
theorem holder_after_attach :
    ∃ s, exec step init
        [.connect "a" none, .message "a" (.attach "01ABCDEFGH01ABCDEFGH01ABCD"),
          .answered 0 (some "01ABCDEFGH01ABCDEFGH01ABCD")] = some s ∧
      "a" ∈ s.connected ∧ s.locks.IsAttached "01ABCDEFGH01ABCDEFGH01ABCD" "a" := by
  refine ⟨_, (some_get (by decide)).symm, ?_⟩
  exact holder_connected_and_attached (.of_exec _ (by decide) (some_get _).symm) _ _
    (by decide)

/-- An `ATTACH` answered after its client left makes the client that left the holder. -/
theorem holder_may_be_gone :
    ¬∀ s, Run step free init s → ∀ channelId clientId,
      s.locks.holders.get channelId = some clientId →
        clientId ∈ s.connected ∧ s.locks.IsAttached channelId clientId := by
  intro h
  have hrun : Run step free init _ := .of_exec_free [.connect "a" none,
    .message "a" (.attach "01ABCDEFGH01ABCDEFGH01ABCD"), .disconnect "a",
    .answered 0 (some "01ABCDEFGH01ABCDEFGH01ABCD")] rfl
  have hgone := (h _ hrun "01ABCDEFGH01ABCDEFGH01ABCD" "a" (by decide)).1
  revert hgone
  decide

end Sockets

end Lasterm.Hub
