import Lasterm.Lib.OrderedMap

/-!
# The write-lock manager

`WriteLockManager` (`session/write-lock.ts`): which client may type into a channel.
A claim on a free lock takes it, a claim on a held one is forwarded to the holder, the
holder grants or denies, and a force takes the lock without asking.  A holder that
disconnects keeps its claim for a grace, during which nobody holds the lock and a
timer runs.

The callbacks the manager is built with (`sendToClient`, `broadcastToChannel`,
`onForce`, `onChange`) are recorded as `Effect`s, in the order in which they are
called.  Timers are the live ones of the event loop.

## Main results

* `onClientDisconnect_handsOn`, `timerFired_handsOn` — what the manager does by itself
  gives a lock only to an attached client.
* `detach_not_holder`, `onClientDisconnect_not_holder` — a client that detached or left
  does not hold the lock.
-/

namespace Lasterm.Hub

/-- Which window a client belongs to: its token, and the window its `AUTH` named.
`windowKey` writes the pair as JSON, which tells any two of them apart. -/
structure ClientWindow where
  tokenId : String
  windowId : String
  deriving DecidableEq

/-- The messages the manager sends. -/
inductive LockMessage
  /-- `WRITE_LOCK`; `reserved` when the lock is kept for a holder that left. -/
  | writeLock (channelId : String) (holder : Option String) (reserved : Bool)
  /-- `WRITE_REQUEST`, to the holder. -/
  | writeRequest (channelId fromClientId : String)
  /-- `WRITE_DENY`, to the requester. -/
  | writeDeny (channelId toClientId : String)
  /-- `WRITE_REVOKED`, to the holder a force took the lock from. -/
  | writeRevoked (channelId : String)
  | error (code message : String)

/-- A call of one of the callbacks the manager was built with. -/
inductive Effect
  | sendToClient (clientId : String) (msg : LockMessage)
  | broadcastToChannel (channelId : String) (msg : LockMessage)
  | onForce (channelId byClientId fromClientId : String)
  | onChange (channelId : String)

/-- A departed holder's claim on a lock, kept for its window during the grace. -/
structure Reservation where
  window : ClientWindow
  timer : ℕ
  deriving DecidableEq

/-- The state of `WriteLockManager`, with the event loop's live timers. -/
structure WriteLockManager where
  holders : OrderedMap String String
  attached : OrderedMap String (OrderedSet String)
  /-- client → its window, for the clients whose `AUTH` named one. -/
  windows : OrderedMap String ClientWindow
  /-- channel → the claim kept for a holder that left. -/
  reservations : OrderedMap String Reservation
  /-- Set by `shutdown`. -/
  stopped : Bool
  /-- The live timers, each with the channel whose grace it ends. -/
  timers : OrderedMap ℕ String
  nextTimer : ℕ
  effects : List Effect

namespace WriteLockManager

/-- A manager as the constructor leaves it. -/
def new : WriteLockManager where
  holders := .empty
  attached := .empty
  windows := .empty
  reservations := .empty
  stopped := false
  timers := .empty
  nextTimer := 0
  effects := []

/-- `clientId` is in the set of clients attached to `channelId`. -/
def IsAttached (m : WriteLockManager) (channelId clientId : String) : Prop :=
  ∃ clients, m.attached.get channelId = some clients ∧ clientId ∈ clients

instance (m : WriteLockManager) (channelId clientId : String) :
    Decidable (m.IsAttached channelId clientId) :=
  match h : m.attached.get channelId with
  | none => .isFalse (by rintro ⟨clients, hc, -⟩; simp [h] at hc)
  | some clients => decidable_of_iff (clientId ∈ clients) (by simp [IsAttached, h])

/-! ### Private helpers -/

/-- Call one of the callbacks. -/
def emit (m : WriteLockManager) (e : Effect) : WriteLockManager :=
  { m with effects := m.effects ++ [e] }

/-- Tell the channel's clients who holds its lock, and that it changed. -/
def broadcastLock (m : WriteLockManager) (channelId : String) (holder : Option String)
    (reserved : Bool) : WriteLockManager :=
  (m.emit (.broadcastToChannel channelId (.writeLock channelId holder reserved))).emit
    (.onChange channelId)

/-- `holders.set` followed by `_broadcastLock`: the lock is this client's. -/
def handTo (m : WriteLockManager) (channelId clientId : String) : WriteLockManager :=
  { m with holders := m.holders.set channelId clientId }.broadcastLock channelId
    (some clientId) false

/-- `holders.delete` followed by `_broadcastLock`: nobody holds the lock. -/
def free (m : WriteLockManager) (channelId : String) : WriteLockManager :=
  { m with holders := m.holders.delete channelId }.broadcastLock channelId none false

/-- Stop keeping a lock for a holder that left, if it is kept. -/
def endReservation (m : WriteLockManager) (channelId : String) : WriteLockManager :=
  match m.reservations.get channelId with
  | none => m
  | some reservation =>
    { m with
      timers := m.timers.delete reservation.timer
      reservations := m.reservations.delete channelId }

/-- Hand a freed lock to the one client left attached, if there is exactly one. -/
def grantToSoleAttachedClient (m : WriteLockManager) (channelId : String) :
    WriteLockManager :=
  if (m.holders.get channelId).isSome then m
  else
    match m.attached.get channelId with
    | none => m
    | some clients =>
      match clients.elems with
      | [only] => m.handTo channelId only
      | _ => m

/-- Keep the lock of a holder that left for its window: a client of the same window
that attached before the old one was seen to close has it at once. -/
def keepFor (m : WriteLockManager) (channelId : String) (window : ClientWindow) :
    WriteLockManager :=
  let clients := ((m.attached.get channelId).map OrderedSet.elems).getD []
  match clients.find? fun other => m.windows.get other = some window with
  | some other => m.handTo channelId other
  | none =>
    { m with
      timers := m.timers.set m.nextTimer channelId
      nextTimer := m.nextTimer + 1
      reservations := m.reservations.set channelId ⟨window, m.nextTimer⟩
      }.broadcastLock channelId none true

/-- Nobody came back for a kept lock: it is free, and goes to the one client left. -/
def graceEnded (m : WriteLockManager) (channelId : String) : WriteLockManager :=
  ({ m with reservations := m.reservations.delete channelId }.broadcastLock channelId none
    false).grantToSoleAttachedClient channelId

/-! ### Operations -/

/-- Record which window a client belongs to. -/
def identify (m : WriteLockManager) (clientId : String) (window : ClientWindow) :
    WriteLockManager :=
  { m with windows := m.windows.set clientId window }

/-- The first half of `attach`: the client is in the channel's set. -/
def addAttached (m : WriteLockManager) (channelId clientId : String) : WriteLockManager :=
  let clients := (m.attached.get channelId).getD .empty
  { m with attached := m.attached.set channelId (clients.add clientId) }

/-- Track a client attaching to a channel; the first one becomes the writer, and while
the lock is kept for a holder that left only its window gets it. -/
def attach (m : WriteLockManager) (channelId clientId : String) : WriteLockManager :=
  let m := m.addAttached channelId clientId
  match m.reservations.get channelId with
  | some reservation =>
    if m.windows.get clientId = some reservation.window then
      (m.endReservation channelId).handTo channelId clientId
    else m.emit (.sendToClient clientId (.writeLock channelId none true))
  | none =>
    match m.holders.get channelId with
    | none => m.handTo channelId clientId
    | some holder => m.emit (.sendToClient clientId (.writeLock channelId (some holder) false))

/-- The first half of `detach`: the client is out of the channel's set. -/
def removeAttached (m : WriteLockManager) (channelId clientId : String) : WriteLockManager :=
  match m.attached.get channelId with
  | none => m
  | some clients =>
    { m with attached := m.attached.set channelId (clients.delete clientId) }

/-- Track a client detaching from a channel: the lock it held is released at once. -/
def detach (m : WriteLockManager) (channelId clientId : String) : WriteLockManager :=
  let m := m.removeAttached channelId clientId
  if m.holders.get channelId = some clientId then
    (m.free channelId).grantToSoleAttachedClient channelId
  else m

/-- Whether `claim` finds the lock free: JavaScript's `!current`, which is also true of
a holder whose id is the empty string. -/
def isFree (m : WriteLockManager) (channelId : String) : Bool :=
  match m.holders.get channelId with
  | none => true
  | some current => current = ""

/-- A client claims the write lock. -/
def claim (m : WriteLockManager) (channelId clientId : String) : WriteLockManager :=
  if m.isFree channelId then (m.endReservation channelId).handTo channelId clientId
  else
    match m.holders.get channelId with
    | none => m
    | some current =>
      if current = clientId then m
      else m.emit (.sendToClient current (.writeRequest channelId clientId))

/-- The current holder grants the lock to a requester. -/
def grant (m : WriteLockManager) (channelId fromClientId toClientId : String) :
    WriteLockManager :=
  if m.holders.get channelId = some fromClientId then m.handTo channelId toClientId else m

/-- The current holder denies a requester. -/
def deny (m : WriteLockManager) (channelId fromClientId toClientId : String) :
    WriteLockManager :=
  if m.holders.get channelId = some fromClientId then
    m.emit (.sendToClient toClientId (.writeDeny channelId toClientId))
  else m

/-- Forcibly steal the write lock from the current holder. -/
def force (m : WriteLockManager) (channelId clientId : String) : WriteLockManager :=
  let m :=
    match m.holders.get channelId with
    | none => m
    | some current =>
      if current ≠ "" ∧ current ≠ clientId then
        (m.emit (.sendToClient current (.writeRevoked channelId))).emit
          (.onForce channelId clientId current)
      else m
  (m.endReservation channelId).handTo channelId clientId

/-- The holder voluntarily releases the write lock. -/
def release (m : WriteLockManager) (channelId clientId : String) : WriteLockManager :=
  if m.holders.get channelId = some clientId then m.free channelId else m

/-- The channels whose lock `clientId` holds. -/
def heldBy (m : WriteLockManager) (clientId : String) : List String :=
  (m.holders.entries.filter fun e => e.2 = clientId).map Prod.fst

/-- Whether the client may send `INPUT`. -/
def isWriteLockHolder (m : WriteLockManager) (channelId clientId : String) : Bool :=
  if (m.reservations.get channelId).isSome then false
  else
    match m.holders.get channelId with
    | none => true
    | some holder => holder = clientId

/-- What `onClientDisconnect` does before it looks at the freed locks: the client is
out of the windows, of the holders and of every set of attached clients. -/
def forgetClient (m : WriteLockManager) (clientId : String) : WriteLockManager :=
  { m with
    windows := m.windows.delete clientId
    holders := (m.heldBy clientId).foldl OrderedMap.delete m.holders
    attached := m.attached.mapValues fun clients => clients.delete clientId }

/-- What becomes of one lock that a departed client held. -/
def handOnFreed (window : Option ClientWindow) (m : WriteLockManager) (channelId : String) :
    WriteLockManager :=
  match window with
  | some window =>
    if m.stopped then
      (m.broadcastLock channelId none false).grantToSoleAttachedClient channelId
    else m.keepFor channelId window
  | none => (m.broadcastLock channelId none false).grantToSoleAttachedClient channelId

/-- A client left: every lock it held is kept for its window or handed on. -/
def onClientDisconnect (m : WriteLockManager) (clientId : String) : WriteLockManager :=
  (m.heldBy clientId).foldl (handOnFreed (m.windows.get clientId)) (m.forgetClient clientId)

/-- A live timer fires: the grace of its channel ends. -/
def timerFired (m : WriteLockManager) (timer : ℕ) : WriteLockManager :=
  match m.timers.get timer with
  | none => m
  | some channelId => { m with timers := m.timers.delete timer }.graceEnded channelId

/-- Cleanup all state for a destroyed channel. -/
def removeChannel (m : WriteLockManager) (channelId : String) : WriteLockManager :=
  let m := m.endReservation channelId
  { m with
    holders := m.holders.delete channelId
    attached := m.attached.delete channelId }

/-- Clear all state; a grace still running ends with the hub. -/
def shutdown (m : WriteLockManager) : WriteLockManager :=
  { m with
    stopped := true
    timers := (m.reservations.entries.map fun e => e.2.timer).foldl OrderedMap.delete m.timers
    reservations := .empty
    holders := .empty
    attached := .empty
    windows := .empty }

/-! ### What the helpers leave alone -/

section Frame

variable (m : WriteLockManager) (channelId clientId : String)

@[simp] theorem handTo_holders :
    (m.handTo channelId clientId).holders = m.holders.set channelId clientId := rfl

@[simp] theorem free_holders : (m.free channelId).holders = m.holders.delete channelId := rfl

@[simp] theorem endReservation_holders : (m.endReservation channelId).holders = m.holders := by
  unfold endReservation; split <;> rfl

@[simp] theorem endReservation_attached :
    (m.endReservation channelId).attached = m.attached := by
  unfold endReservation; split <;> rfl

theorem isAttached_congr {m m' : WriteLockManager} (h : m'.attached = m.attached)
    (channelId clientId : String) :
    m'.IsAttached channelId clientId ↔ m.IsAttached channelId clientId := by
  simp [IsAttached, h]

theorem isAttached_addAttached (channelId' clientId' : String) :
    (m.addAttached channelId clientId).IsAttached channelId' clientId' ↔
      (channelId' = channelId ∧ clientId' = clientId) ∨ m.IsAttached channelId' clientId' := by
  unfold addAttached IsAttached
  by_cases hch : channelId' = channelId
  · subst hch
    cases m.attached.get channelId' with
    | none | some => simp
  · simp [OrderedMap.get_set, hch]

@[simp] theorem removeAttached_holders :
    (m.removeAttached channelId clientId).holders = m.holders := by
  unfold removeAttached; split <;> rfl

theorem isAttached_removeAttached (channelId' clientId' : String) :
    (m.removeAttached channelId clientId).IsAttached channelId' clientId' ↔
      m.IsAttached channelId' clientId' ∧ ¬(channelId' = channelId ∧ clientId' = clientId) := by
  unfold removeAttached IsAttached
  by_cases hch : channelId' = channelId
  · subst hch
    cases h : m.attached.get channelId' with
    | none => simp [h]
    | some clients => simp
  · cases h : m.attached.get channelId with
    | none => simp [hch]
    | some clients => simp [OrderedMap.get_set, hch]

end Frame

/-! ### Locks handed on -/

/-- Every holder of `m'` held the lock in `m` already, or is attached to the channel;
and the same clients are attached. -/
structure HandsOn (m m' : WriteLockManager) : Prop where
  attached_eq : m'.attached = m.attached
  holder : ∀ channelId clientId, m'.holders.get channelId = some clientId →
    m.holders.get channelId = some clientId ∨ m.IsAttached channelId clientId

theorem HandsOn.refl (m : WriteLockManager) : HandsOn m m where
  attached_eq := rfl
  holder := fun _ _ h => Or.inl h

theorem HandsOn.trans {m₁ m₂ m₃ : WriteLockManager} (h : HandsOn m₁ m₂)
    (h' : HandsOn m₂ m₃) : HandsOn m₁ m₃ where
  attached_eq := h'.attached_eq.trans h.attached_eq
  holder := by
    intro channelId clientId hc
    rcases h'.holder channelId clientId hc with hh | ha
    · exact h.holder channelId clientId hh
    · exact Or.inr ((isAttached_congr h.attached_eq channelId clientId).mp ha)

theorem HandsOn.of_eq {m m' : WriteLockManager} (hh : m'.holders = m.holders)
    (ha : m'.attached = m.attached) : HandsOn m m' where
  attached_eq := ha
  holder := fun _ _ h => Or.inl (hh ▸ h)

theorem HandsOn.after_eq {m₁ m₂ m₃ : WriteLockManager} (h : HandsOn m₂ m₃)
    (hh : m₂.holders = m₁.holders) (ha : m₂.attached = m₁.attached) : HandsOn m₁ m₃ :=
  (HandsOn.of_eq hh ha).trans h

theorem HandsOn.foldl {f : WriteLockManager → String → WriteLockManager}
    (hf : ∀ m channelId, HandsOn m (f m channelId)) (l : List String) (m : WriteLockManager) :
    HandsOn m (l.foldl f m) := by
  induction l generalizing m with
  | nil => exact .refl m
  | cons channelId l ih => exact (hf m channelId).trans (ih _)

theorem handTo_handsOn {m : WriteLockManager} {channelId clientId : String}
    (h : m.IsAttached channelId clientId) : HandsOn m (m.handTo channelId clientId) where
  attached_eq := rfl
  holder := by
    intro ch c hc
    rw [handTo_holders, OrderedMap.get_set] at hc
    split at hc
    · next hch =>
      obtain rfl : clientId = c := by simpa using hc
      exact Or.inr (hch ▸ h)
    · exact Or.inl hc

theorem free_handsOn (m : WriteLockManager) (channelId : String) :
    HandsOn m (m.free channelId) where
  attached_eq := rfl
  holder := by
    intro ch c hc
    rw [free_holders, OrderedMap.get_delete] at hc
    split at hc
    · cases hc
    · exact Or.inl hc

theorem grantToSoleAttachedClient_handsOn (m : WriteLockManager) (channelId : String) :
    HandsOn m (m.grantToSoleAttachedClient channelId) := by
  unfold grantToSoleAttachedClient
  split
  · exact .refl m
  split
  · exact .refl m
  next clients hclients =>
    split
    · next only honly =>
      refine handTo_handsOn ⟨clients, hclients, ?_⟩
      simp [OrderedSet.mem_def, honly]
    · exact .refl m

theorem keepFor_handsOn (m : WriteLockManager) (channelId : String) (window : ClientWindow) :
    HandsOn m (m.keepFor channelId window) := by
  unfold keepFor
  dsimp only
  split
  · next other hfound =>
    have hmem := List.mem_of_find?_eq_some hfound
    cases hc : m.attached.get channelId with
    | none => simp [hc] at hmem
    | some clients =>
      refine handTo_handsOn ⟨clients, hc, ?_⟩
      simpa [hc, OrderedSet.mem_def] using hmem
  · exact .of_eq rfl rfl

theorem graceEnded_handsOn (m : WriteLockManager) (channelId : String) :
    HandsOn m (m.graceEnded channelId) :=
  (grantToSoleAttachedClient_handsOn _ channelId).after_eq rfl rfl

theorem handOnFreed_handsOn (window : Option ClientWindow) (m : WriteLockManager)
    (channelId : String) : HandsOn m (handOnFreed window m channelId) := by
  have hsole : HandsOn m
      ((m.broadcastLock channelId none false).grantToSoleAttachedClient channelId) :=
    (grantToSoleAttachedClient_handsOn _ channelId).after_eq rfl rfl
  unfold handOnFreed
  split
  · split
    · exact hsole
    · exact keepFor_handsOn m channelId _
  · exact hsole

theorem timerFired_handsOn (m : WriteLockManager) (timer : ℕ) :
    HandsOn m (m.timerFired timer) := by
  unfold timerFired
  split
  · exact .refl m
  · exact (graceEnded_handsOn _ _).after_eq rfl rfl

theorem deny_handsOn (m : WriteLockManager) (channelId fromClientId toClientId : String) :
    HandsOn m (m.deny channelId fromClientId toClientId) := by
  unfold deny
  split
  · exact .of_eq rfl rfl
  · exact .refl m

theorem release_handsOn (m : WriteLockManager) (channelId clientId : String) :
    HandsOn m (m.release channelId clientId) := by
  unfold release
  split
  · exact free_handsOn m channelId
  · exact .refl m

theorem grant_handsOn {m : WriteLockManager} {channelId fromClientId toClientId : String}
    (h : m.holders.get channelId = some fromClientId → m.IsAttached channelId toClientId) :
    HandsOn m (m.grant channelId fromClientId toClientId) := by
  unfold grant
  split
  · next hholder => exact handTo_handsOn (h hholder)
  · exact .refl m

/-- `_endReservation` and then the lock to an attached client. -/
private theorem endReservation_handTo_handsOn {m : WriteLockManager}
    {channelId clientId : String} (h : m.IsAttached channelId clientId) :
    HandsOn m ((m.endReservation channelId).handTo channelId clientId) := by
  refine HandsOn.after_eq (handTo_handsOn ?_) (endReservation_holders m channelId)
    (endReservation_attached m channelId)
  exact (isAttached_congr (endReservation_attached m channelId) _ _).mpr h

theorem claim_handsOn {m : WriteLockManager} {channelId clientId : String}
    (h : m.isFree channelId → m.IsAttached channelId clientId) :
    HandsOn m (m.claim channelId clientId) := by
  unfold claim
  split
  · next hfree => exact endReservation_handTo_handsOn (h hfree)
  split
  · exact .refl m
  split
  · exact .refl m
  · exact .of_eq rfl rfl

theorem force_handsOn {m : WriteLockManager} {channelId clientId : String}
    (h : m.IsAttached channelId clientId) : HandsOn m (m.force channelId clientId) := by
  unfold force
  split
  · exact endReservation_handTo_handsOn h
  split
  · refine HandsOn.after_eq (endReservation_handTo_handsOn ?_) rfl rfl
    exact h
  · exact endReservation_handTo_handsOn h

section

variable (m : WriteLockManager)
include m

/-- An `attach` is the client's entry in the channel's set, and then a lock that goes,
if at all, to that client. -/
theorem attach_handsOn (channelId clientId : String) :
    HandsOn (m.addAttached channelId clientId) (m.attach channelId clientId) := by
  have hself : (m.addAttached channelId clientId).IsAttached channelId clientId :=
    (isAttached_addAttached m channelId clientId _ _).mpr (Or.inl ⟨rfl, rfl⟩)
  unfold attach
  dsimp only
  split
  · split
    · exact endReservation_handTo_handsOn hself
    · exact .of_eq rfl rfl
  split
  · exact handTo_handsOn hself
  · exact .of_eq rfl rfl

/-! ### Leaving -/

theorem mem_heldBy_iff (channelId clientId : String) :
    channelId ∈ m.heldBy clientId ↔ m.holders.get channelId = some clientId := by
  simp [heldBy, OrderedMap.get_eq_some_iff]

theorem forgetClient_holders (clientId channelId c : String) :
    (m.forgetClient clientId).holders.get channelId = some c ↔
      m.holders.get channelId = some c ∧ c ≠ clientId := by
  simp only [forgetClient, OrderedMap.get_foldl_delete, mem_heldBy_iff]
  by_cases h : m.holders.get channelId = some clientId
  · rw [if_pos h, h]
    simp only [reduceCtorEq, Option.some.injEq, false_iff, not_and, not_not]
    exact fun hc => hc.symm
  · rw [if_neg h]
    constructor
    · exact fun hc => ⟨hc, fun hcc => h (hcc ▸ hc)⟩
    · exact fun hc => hc.1

theorem isAttached_forgetClient (clientId channelId c : String) :
    (m.forgetClient clientId).IsAttached channelId c ↔
      m.IsAttached channelId c ∧ c ≠ clientId := by
  unfold forgetClient IsAttached
  cases h : m.attached.get channelId with
  | none | some => simp [h]

/-- A `detach` gives the lock, if at all, to a client still attached. -/
theorem detach_handsOn (channelId clientId : String) :
    HandsOn (m.removeAttached channelId clientId) (m.detach channelId clientId) := by
  unfold detach
  dsimp only
  split
  · exact (free_handsOn _ channelId).trans (grantToSoleAttachedClient_handsOn _ channelId)
  · exact .refl _

theorem detach_not_holder (channelId clientId : String) :
    (m.detach channelId clientId).holders.get channelId ≠ some clientId := by
  have hnot : ¬(m.removeAttached channelId clientId).IsAttached channelId clientId := by
    simp [isAttached_removeAttached]
  unfold detach
  dsimp only
  split
  · intro h
    rcases (grantToSoleAttachedClient_handsOn _ channelId).holder _ _ h with hh | ha
    · simp at hh
    · exact hnot ha
  · next hne => exact hne

/-- What becomes of a departed client's locks: each goes to an attached client, or to
none. -/
theorem onClientDisconnect_handsOn (clientId : String) :
    HandsOn (m.forgetClient clientId) (m.onClientDisconnect clientId) :=
  HandsOn.foldl (handOnFreed_handsOn _) _ _

theorem onClientDisconnect_not_holder (clientId channelId : String) :
    (m.onClientDisconnect clientId).holders.get channelId ≠ some clientId := by
  intro h
  rcases (onClientDisconnect_handsOn m clientId).holder _ _ h with hh | ha
  · exact ((forgetClient_holders m clientId channelId clientId).mp hh).2 rfl
  · exact ((isAttached_forgetClient m clientId channelId clientId).mp ha).2 rfl

end

end WriteLockManager

end Lasterm.Hub
