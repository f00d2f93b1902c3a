import Lasterm.Hub.Reconcile
import Lasterm.Lib.Run

/-!
# Who is attached to what

The hub keeps twice which clients are attached to which terminals: a terminal has the set
of its clients (`ChannelState.clients`) and a client the set of its terminals
(`WsClient.attachedChannels`).  Spawning, attaching, detaching, a client that leaves, a
restart and the ways a terminal ends each edit both sides
(`session/channel-lifecycle-manager.ts`, `session/session-manager.ts`,
`session/state-broadcaster.ts`).

A terminal's set is an object, and code that awaits goes on holding the one it started
with.  So the sets live in a store of their own, and a channel names the one it has.

## Main definitions

* `SessionContext`, `next` — both sides, with what awaits; a step of either.

## Main results

* `Sound.next` — an orderly step keeps the relation symmetric.
* `symmetric_of_orderly`, `kept_after_destroy` — orderly runs, and one that is not.
-/

open Transition List Option OrderedMap OrderedSet Function

namespace Lasterm.Hub

/-- A channel the hub tracks: the object, and the set of clients it has. -/
structure TrackedChannel where
  hostId : String
  status : ChannelStatus
  obj : ℕ
  clients : ℕ

/-- An attach that waits for its host or its agent. -/
structure PendingAttach where
  clientId : String
  channelId : String
  /-- The channel it found, and that channel's set. -/
  obj : ℕ
  clients : ℕ
  deriving DecidableEq

/-- `SharedSessionContext`, as far as who is attached to what. -/
structure SessionContext where
  channels : OrderedMap String TrackedChannel
  /-- client → its `attachedChannels`. -/
  clients : OrderedMap String (OrderedSet String)
  sets : ℕ → OrderedSet String
  fresh : ℕ
  attaches : List PendingAttach
  /-- The restarts under way, each with the set of the channel it found. -/
  restarts : OrderedMap String (Option ℕ)

namespace SessionContext

/-- A hub nobody is connected to. -/
def init : SessionContext where
  channels := .empty
  clients := .empty
  sets := fun _ => .empty
  fresh := 0
  attaches := []
  restarts := .empty

/-! ### Edits of one side -/

/-- An edit of a set of clients. -/
def editSet (s : SessionContext) (r : ℕ) (f : OrderedSet String → OrderedSet String) :
    SessionContext :=
  { s with sets := update s.sets r (f (s.sets r)) }

/-- An edit of a client's `attachedChannels`, if it is connected. -/
def editAttached (s : SessionContext) (clientId : String)
    (f : OrderedSet String → OrderedSet String) : SessionContext :=
  match s.clients.get clientId with
  | none => s
  | some att => { s with clients := s.clients.set clientId (f att) }

/-- `updateChannelStatus`, in memory. -/
def setStatus (s : SessionContext) (channelId : String) (status : ChannelStatus) :
    SessionContext :=
  match s.channels.get channelId with
  | none => s
  | some ch => { s with channels := s.channels.set channelId { ch with status } }

/-- `channels.set` of a new object. -/
def track (s : SessionContext) (channelId hostId : String) (status : ChannelStatus)
    (clients : ℕ) : SessionContext :=
  { s with
    channels := s.channels.set channelId ⟨hostId, status, s.fresh, clients⟩
    fresh := s.fresh + 1 }

/-- `new Set(…)`. -/
def newSet (s : SessionContext) (set : OrderedSet String) : SessionContext :=
  { s with sets := update s.sets s.fresh set, fresh := s.fresh + 1 }

/-- The clients of the channel tracked under an id. -/
def clientsOf (s : SessionContext) (channelId : String) : List String :=
  match s.channels.get channelId with
  | none => []
  | some ch => (s.sets ch.clients).elems

/-! ### The operations -/

/-- `addClient`, once its socket has authenticated. -/
def addClient (s : SessionContext) (clientId : String) : SessionContext :=
  { s with clients := s.clients.set clientId .empty }

/-- The client is no longer among a channel's; one that has none left is detached. -/
def detachClient (clientId : String) (s : SessionContext) (channelId : String) :
    SessionContext :=
  let s :=
    match s.channels.get channelId with
    | none => s
    | some ch =>
      let s := s.editSet ch.clients fun set => set.delete clientId
      if (s.sets ch.clients).elems = [] ∧ ch.status = ChannelStatus.live then s.setStatus channelId .orphan
      else s
  s.editAttached clientId fun att => att.delete channelId

/-- `removeClient`: the client goes from each of its channels, and from the map. -/
def removeClient (s : SessionContext) (clientId : String) : SessionContext :=
  match s.clients.get clientId with
  | none => s
  | some att =>
    let s := att.elems.foldl (detachClient clientId) s
    { s with clients := s.clients.delete clientId }

/-- `forgetChannel`: no client is attached to it any more, and it is no more. -/
def forgetChannel (s : SessionContext) (channelId : String) : SessionContext :=
  let s := (s.clientsOf channelId).foldl
    (fun s clientId => s.editAttached clientId fun att => att.delete channelId) s
  { s with channels := s.channels.delete channelId }

/-- A channel that has ended is marked dead and forgotten. -/
def retireChannel (s : SessionContext) (channelId : String) : SessionContext :=
  (s.setStatus channelId .dead).forgetChannel channelId

/-- `destroyChannel`: no client is told that it no longer has it. -/
def destroyChannel (s : SessionContext) (channelId : String) : SessionContext :=
  let s := s.setStatus channelId .dead
  { s with channels := s.channels.delete channelId }

/-- The channels tracked for a host. -/
def channelsOf (s : SessionContext) (hostId : String) : List String :=
  (s.channels.entries.filter fun e => e.2.hostId = hostId).map Prod.fst

/-- `closeSession`, and `endChannelsOfStoppedAgent`: every terminal of the host goes. -/
def endChannelsOf (s : SessionContext) (hostId : String) : SessionContext :=
  (s.channelsOf hostId).foldl retireChannel s

/-- The `SPAWN_OK` branch of `sendSpawnAndWait`, for the client that asked. -/
def spawnOk (s : SessionContext) (clientId channelId hostId : String) : SessionContext :=
  let s' := s.newSet (empty.add clientId)
  (s'.track channelId hostId .live s.fresh).editAttached clientId fun att => att.add channelId

/-- `startup` tracks a terminal of an earlier run. -/
def restore (s : SessionContext) (channelId hostId : String) : SessionContext :=
  (s.newSet .empty).track channelId hostId .orphan s.fresh

/-- `handleAttach`, up to its first await. -/
def attach (s : SessionContext) (clientId channelId : String) : SessionContext :=
  match s.clients.get clientId, s.channels.get channelId with
  | some _, some ch =>
    if ch.status = .dead then s
    else
      let s := s.editSet ch.clients fun set => set.add clientId
      let s := s.editAttached clientId fun att => att.add channelId
      let s := if ch.status = .orphan then s.setStatus channelId .live else s
      { s with attaches := ⟨clientId, channelId, ch.obj, ch.clients⟩ :: s.attaches }
  | _, _ => s

/-- An attach that came late takes back what it added. -/
def letGoOfStaleAttach (s : SessionContext) (a : PendingAttach) : SessionContext :=
  let s := s.editSet a.clients fun set => set.delete a.clientId
  if a.clientId ∈ s.clientsOf a.channelId then s
  else s.editAttached a.clientId fun att => att.delete a.channelId

/-- The agent does not have the terminal an attach asked it about. -/
def attachRefused (s : SessionContext) (a : PendingAttach) : SessionContext :=
  ((s.retireChannel a.channelId).editSet a.clients fun set => set.delete a.clientId).editAttached
    a.clientId fun att => att.delete a.channelId

/-- The clients of a restarted terminal follow it to its new id. -/
def moveClients (s : SessionContext) (clients : List String) (channelId newId : String) :
    SessionContext :=
  clients.foldl
    (fun s clientId => s.editAttached clientId fun att => (att.delete channelId).add newId) s

/-- `applyRestartState`, for a restart that found the set `clients`. -/
def applyRestartState (s : SessionContext) (channelId newId hostId : String) (clients : ℕ) :
    SessionContext :=
  let s :=
    if newId = channelId then s
    else (s.retireChannel channelId).moveClients (s.sets clients).elems channelId newId
  s.track newId hostId .live clients

/-- A restart that found no channel makes a set of its own. -/
def restarted (s : SessionContext) (channelId newId hostId : String) :
    Option ℕ → SessionContext
  | some clients => s.applyRestartState channelId newId hostId clients
  | none => (s.newSet .empty).applyRestartState channelId newId hostId s.fresh

/-! ### The run -/

/-- One stretch of code between two awaits. -/
inductive Step
  | addClient (clientId : String)
  | removeClient (clientId : String)
  | restored (channelId hostId : String)
  | spawnOk (clientId channelId hostId : String)
  | attach (clientId channelId : String)
  /-- The channel it found is not the one to attach to any more. -/
  | attachStartsOver (a : PendingAttach)
  | attachRefused (a : PendingAttach)
  | attachDone (a : PendingAttach)
  | detach (clientId channelId : String)
  | restartBegins (channelId : String)
  | restarted (channelId newId hostId : String)
  | restartFails (channelId : String)
  | destroyChannel (channelId : String)
  /-- A judgement by an agent's answer, or a retirement. -/
  | forgetChannel (channelId : String)
  /-- A session closed, or its agent was stopped. -/
  | endChannelsOf (hostId : String)
  | statusChanged (channelId : String) (status : ChannelStatus)

/-- What a step does, and when it can be taken. -/
def next (s : SessionContext) : Step → Option SessionContext
  | .addClient clientId =>
    -- a client's id is its socket's own
    if (s.clients.get clientId).isSome then none else some (s.addClient clientId)
  | .removeClient clientId => some (s.removeClient clientId)
  | .restored channelId hostId =>
    if (s.channels.get channelId).isSome then none else some (s.restore channelId hostId)
  | .spawnOk clientId channelId hostId => some (s.spawnOk clientId channelId hostId)
  | .attach clientId channelId => some (s.attach clientId channelId)
  | .attachStartsOver a =>
    if a ∈ s.attaches then
      some (({ s with attaches := s.attaches.erase a }.letGoOfStaleAttach a).attach a.clientId
        a.channelId)
    else none
  | .attachRefused a =>
    -- the answer still applies: the channel is the one it found
    if a ∈ s.attaches ∧ (s.channels.get a.channelId).map (fun ch => (ch.obj, ch.clients)) =
        some (a.obj, a.clients) then
      some ({ s with attaches := s.attaches.erase a }.attachRefused a)
    else none
  | .attachDone a =>
    if a ∈ s.attaches then some { s with attaches := s.attaches.erase a } else none
  | .detach clientId channelId => some (s.detachClient clientId channelId)
  | .restartBegins channelId =>
    -- one at a time: the channel is claimed
    if (s.restarts.get channelId).isSome then none
    else some { s with
      restarts := s.restarts.set channelId ((s.channels.get channelId).map TrackedChannel.clients) }
  | .restarted channelId newId hostId =>
    (s.restarts.get channelId).map fun found =>
      { s with restarts := s.restarts.delete channelId }.restarted channelId newId hostId found
  | .restartFails channelId => some { s with restarts := s.restarts.delete channelId }
  | .destroyChannel channelId => some (s.destroyChannel channelId)
  | .forgetChannel channelId => some (s.forgetChannel channelId)
  | .endChannelsOf hostId => some (s.endChannelsOf hostId)
  | .statusChanged channelId status => some (s.setStatus channelId status)

/-! ### The relation, from either side -/

/-- The client is in the set of the channel tracked under the id. -/
def Holds (s : SessionContext) (channelId clientId : String) : Prop :=
  ∃ ch, s.channels.get channelId = some ch ∧ clientId ∈ s.sets ch.clients

/-- The client is connected, and the id is in its `attachedChannels`. -/
def IsAttached (s : SessionContext) (clientId channelId : String) : Prop :=
  ∃ att, s.clients.get clientId = some att ∧ channelId ∈ att

/-- A client is among a terminal's exactly when the terminal is among its own. -/
def Symmetric (s : SessionContext) : Prop :=
  ∀ clientId channelId, s.Holds channelId clientId ↔ s.IsAttached clientId channelId

/-- The condition on a step.  A terminal is destroyed when nobody is attached to it.  A
terminal is only spawned for a client that is still there, over no channel that another
client is attached to.  A restart hands on the clients its terminal has now; under a new id,
clients that are all still there, and every client the new id has.  An attach that starts
over does not take its client out of a set that another terminal has since. -/
def Orderly (s : SessionContext) : Step → Prop
  | .destroyChannel channelId => s.clientsOf channelId = []
  | .spawnOk clientId channelId _ =>
    (s.clients.get clientId).isSome = true ∧ ∀ c ∈ s.clientsOf channelId, c = clientId
  | .restarted channelId newId _ =>
    match s.restarts.get channelId with
    | none => True
    | some found =>
      let clients := (found.map fun r => (s.sets r).elems).getD []
      if newId = channelId then
        (∀ c ∈ clients, c ∈ s.clientsOf channelId) ∧ ∀ c ∈ s.clientsOf channelId, c ∈ clients
      else
        (∀ c ∈ clients, (s.clients.get c).isSome = true) ∧ ∀ c ∈ s.clientsOf newId, c ∈ clients
  | .attachStartsOver a =>
    a.clientId ∈ s.sets a.clients →
      ∀ e ∈ s.channels.entries, e.2.clients = a.clients → e.1 = a.channelId
  | _ => True

instance : ∀ (s : SessionContext) (a : Step), Decidable (s.Orderly a)
  | s, .destroyChannel channelId => inferInstanceAs (Decidable (s.clientsOf channelId = []))
  | s, .spawnOk clientId channelId _ =>
    inferInstanceAs (Decidable ((s.clients.get clientId).isSome = true ∧
      ∀ c ∈ s.clientsOf channelId, c = clientId))
  | s, .restarted channelId newId hostId => by
    unfold Orderly
    dsimp only
    cases s.restarts.get channelId with
    | none => exact .isTrue trivial
    | some found =>
      dsimp only
      infer_instance
  | s, .attachStartsOver a =>
    inferInstanceAs (Decidable (a.clientId ∈ s.sets a.clients →
      ∀ e ∈ s.channels.entries, e.2.clients = a.clients → e.1 = a.channelId))
  | _, .addClient _ => .isTrue trivial
  | _, .removeClient _ => .isTrue trivial
  | _, .restored _ _ => .isTrue trivial
  | _, .attach _ _ => .isTrue trivial
  | _, .attachRefused _ => .isTrue trivial
  | _, .attachDone _ => .isTrue trivial
  | _, .detach _ _ => .isTrue trivial
  | _, .restartBegins _ => .isTrue trivial
  | _, .restartFails _ => .isTrue trivial
  | _, .forgetChannel _ => .isTrue trivial
  | _, .endChannelsOf _ => .isTrue trivial
  | _, .statusChanged _ _ => .isTrue trivial

/-! ### What an edit does to the relation -/

/-- The set of the channel tracked under an id. -/
def setOf (s : SessionContext) (channelId : String) : Option ℕ :=
  (s.channels.get channelId).map TrackedChannel.clients

variable {s : SessionContext} {channelId clientId : String}

theorem holds_iff :
    s.Holds channelId clientId ↔ ∃ r, s.setOf channelId = some r ∧ clientId ∈ s.sets r := by
  simp [Holds, setOf]

theorem mem_clientsOf : clientId ∈ s.clientsOf channelId ↔ s.Holds channelId clientId := by
  unfold clientsOf Holds
  cases s.channels.get channelId with
  | none => simp
  | some ch => simp [OrderedSet.mem_def]

variable {s' : SessionContext}

theorem holds_congr {k c : String} (hset : s'.setOf k = s.setOf k)
    (hsets : s'.sets = s.sets) : s'.Holds k c ↔ s.Holds k c := by
  rw [holds_iff, holds_iff, hset, hsets]

theorem isAttached_congr {k c : String} (h : s'.clients = s.clients) :
    s'.IsAttached c k ↔ s.IsAttached c k := by
  unfold IsAttached
  rw [h]

section Edits

variable (s : SessionContext) {clientId c channelId k : String}

theorem holds_editSet (r : ℕ) (f : OrderedSet String → OrderedSet String) :
    (s.editSet r f).Holds k c ↔
      ∃ r', s.setOf k = some r' ∧ c ∈ if r' = r then f (s.sets r) else s.sets r' := by
  rw [holds_iff]
  refine exists_congr fun r' => and_congr_right fun _ => ?_
  simp only [editSet, update_apply]

theorem holds_editSet_delete (r : ℕ) :
    (s.editSet r fun set => set.delete clientId).Holds k c ↔
      s.Holds k c ∧ ¬(c = clientId ∧ s.setOf k = some r) := by
  rw [holds_editSet, holds_iff]
  constructor
  · rintro ⟨r', hr', hmem⟩
    split at hmem
    next heq =>
      subst heq
      obtain ⟨hmem, hne⟩ := (mem_delete _ _ _).mp hmem
      exact ⟨⟨r', hr', hmem⟩, fun h => hne h.1⟩
    next hne =>
      refine ⟨⟨r', hr', hmem⟩, fun h => hne ?_⟩
      exact some.inj (hr'.symm.trans h.2)
  · rintro ⟨⟨r', hr', hmem⟩, hnot⟩
    refine ⟨r', hr', ?_⟩
    split
    next heq =>
      subst heq
      exact (mem_delete _ _ _).mpr ⟨hmem, fun hc => hnot ⟨hc, hr'⟩⟩
    next hne => exact hmem

theorem holds_editSet_add (r : ℕ) :
    (s.editSet r fun set => set.add clientId).Holds k c ↔
      s.Holds k c ∨ (c = clientId ∧ s.setOf k = some r) := by
  rw [holds_editSet, holds_iff]
  constructor
  · rintro ⟨r', hr', hmem⟩
    split at hmem
    next heq =>
      subst heq
      rcases (mem_add _ _ _).mp hmem with hc | hmem
      · exact .inr ⟨hc, hr'⟩
      · exact .inl ⟨r', hr', hmem⟩
    next hne => exact .inl ⟨r', hr', hmem⟩
  · rintro (⟨r', hr', hmem⟩ | ⟨hc, hr⟩)
    · refine ⟨r', hr', ?_⟩
      split
      next heq => exact heq ▸ (mem_add _ _ _).mpr (.inr hmem)
      next hne => exact hmem
    · refine ⟨r, hr, ?_⟩
      rw [if_pos rfl]
      exact (mem_add _ _ _).mpr (.inl hc)

section

variable (f : OrderedSet String → OrderedSet String)
include f

@[simp] theorem editAttached_channels : (s.editAttached clientId f).channels = s.channels := by
  unfold editAttached
  split <;> rfl

@[simp] theorem editAttached_sets : (s.editAttached clientId f).sets = s.sets := by
  unfold editAttached
  split <;> rfl

@[simp] theorem editAttached_fresh : (s.editAttached clientId f).fresh = s.fresh := by
  unfold editAttached
  split <;> rfl

@[simp] theorem editAttached_restarts : (s.editAttached clientId f).restarts = s.restarts := by
  unfold editAttached
  split <;> rfl

@[simp] theorem setOf_editAttached : (s.editAttached clientId f).setOf k = s.setOf k := by
  simp [setOf]

@[simp] theorem holds_editAttached : (s.editAttached clientId f).Holds k c ↔ s.Holds k c := by
  simp [Holds]

theorem isAttached_editAttached : (s.editAttached clientId f).IsAttached c k ↔
      if c = clientId then ∃ att, s.clients.get clientId = some att ∧ k ∈ f att
      else s.IsAttached c k := by
  unfold editAttached
  cases hget : s.clients.get clientId with
  | none =>
    by_cases hc : c = clientId
    · subst hc
      simp [IsAttached, hget]
    · rw [if_neg hc]
  | some att =>
    by_cases hc : c = clientId
    · subst hc
      simp [IsAttached]
    · rw [if_neg hc]
      simp only [IsAttached, get_set_of_ne _ hc]

@[simp] theorem connected_editAttached :
    ((s.editAttached clientId f).clients.get c).isSome = (s.clients.get c).isSome := by
  unfold editAttached
  split
  · rfl
  next att hatt =>
    by_cases hc : c = clientId
    · subst hc
      simp [hatt]
    · simp only [get_set_of_ne _ hc]

end

theorem isAttached_delete :
    (s.editAttached clientId fun att => att.delete channelId).IsAttached c k ↔
      s.IsAttached c k ∧ ¬(c = clientId ∧ k = channelId) := by
  rw [isAttached_editAttached]
  by_cases hc : c = clientId
  · subst hc
    rw [if_pos rfl]
    constructor
    · rintro ⟨att, hatt, hmem⟩
      obtain ⟨hmem, hne⟩ := (mem_delete _ _ _).mp hmem
      exact ⟨⟨att, hatt, hmem⟩, fun h => hne h.2⟩
    · rintro ⟨⟨att, hatt, hmem⟩, hne⟩
      exact ⟨att, hatt, (mem_delete _ _ _).mpr ⟨hmem, fun hk => hne ⟨rfl, hk⟩⟩⟩
  · simp [hc]

theorem isAttached_add (h : (s.clients.get clientId).isSome = true) :
    (s.editAttached clientId fun att => att.add channelId).IsAttached c k ↔
      s.IsAttached c k ∨ (c = clientId ∧ k = channelId) := by
  obtain ⟨att, hatt⟩ := isSome_iff_exists.mp h
  rw [isAttached_editAttached]
  by_cases hc : c = clientId
  · subst hc
    simp [IsAttached, hatt, or_comm]
  · simp [hc]

section

variable (status : ChannelStatus)
include status

@[simp] theorem setStatus_sets : (s.setStatus channelId status).sets = s.sets := by
  unfold setStatus
  split <;> rfl

@[simp] theorem setStatus_clients : (s.setStatus channelId status).clients = s.clients := by
  unfold setStatus
  split <;> rfl

@[simp] theorem setStatus_fresh : (s.setStatus channelId status).fresh = s.fresh := by
  unfold setStatus
  split <;> rfl

@[simp] theorem setStatus_restarts : (s.setStatus channelId status).restarts = s.restarts := by
  unfold setStatus
  split <;> rfl

@[simp] theorem setOf_setStatus : (s.setStatus channelId status).setOf k = s.setOf k := by
  unfold setStatus setOf
  split
  · rfl
  next ch hch =>
    by_cases hk : k = channelId
    · subst hk
      simp [hch]
    · simp only [get_set_of_ne _ hk]

end

@[simp] theorem setOf_track (hostId : String) (status : ChannelStatus) (r : ℕ) :
    (s.track channelId hostId status r).setOf k = if k = channelId then some r else s.setOf k := by
  simp only [track, setOf, get_set]
  split <;> rfl

theorem holds_track (hostId : String) (status : ChannelStatus) (r : ℕ) :
    (s.track channelId hostId status r).Holds k c ↔
      if k = channelId then c ∈ s.sets r else s.Holds k c := by
  rw [holds_iff, setOf_track]
  split
  · constructor
    · rintro ⟨r', hr', hmem⟩
      cases hr'
      exact hmem
    · exact fun hmem => ⟨r, rfl, hmem⟩
  · rw [holds_iff]
    rfl

end Edits

/-! ### Whose set a set is -/

/-- No two channels have one set, and the set a restart found is at most that of the channel
it found it in. -/
structure Owned (s : SessionContext) : Prop where
  tracked_lt : ∀ k r, s.setOf k = some r → r < s.fresh
  found_lt : ∀ k r, s.restarts.get k = some (some r) → r < s.fresh
  tracked : ∀ k k' r, s.setOf k = some r → s.setOf k' = some r → k = k'
  found : ∀ k k' r, s.restarts.get k = some (some r) → s.setOf k' = some r → k' = k
  restarts : ∀ k k' r, s.restarts.get k = some (some r) → s.restarts.get k' = some (some r) →
    k = k'

theorem owned_init : Owned init :=
  ⟨nofun, nofun, nofun, nofun, nofun⟩

theorem Owned.mono (h : Owned s) (hset : ∀ k r, s'.setOf k = some r → s.setOf k = some r)
    (hrestarts : ∀ k r, s'.restarts.get k = some (some r) → s.restarts.get k = some (some r))
    (hfresh : s.fresh ≤ s'.fresh) : Owned s' where
  tracked_lt := fun k r hk => Nat.lt_of_lt_of_le (h.tracked_lt k r (hset k r hk)) hfresh
  found_lt := fun k r hk => Nat.lt_of_lt_of_le (h.found_lt k r (hrestarts k r hk)) hfresh
  tracked := fun k k' r hk hk' => h.tracked k k' r (hset k r hk) (hset k' r hk')
  found := fun k k' r hk hk' => h.found k k' r (hrestarts k r hk) (hset k' r hk')
  restarts := fun k k' r hk hk' => h.restarts k k' r (hrestarts k r hk) (hrestarts k' r hk')

theorem Owned.of_eq (h : Owned s) (hset : ∀ k, s'.setOf k = s.setOf k)
    (hrestarts : s'.restarts = s.restarts) (hfresh : s'.fresh = s.fresh) : Owned s' :=
  h.mono (fun k _ hk => hset k ▸ hk) (fun _ _ hk => hrestarts ▸ hk) (Nat.le_of_eq hfresh.symm)

theorem Owned.track (h : Owned s) (hostId : String)
    (status : ChannelStatus) {r : ℕ} (hlt : r < s.fresh)
    (htracked : ∀ k, s.setOf k = some r → k = channelId)
    (hfound : ∀ k, s.restarts.get k = some (some r) → k = channelId) :
    Owned (s.track channelId hostId status r) where
  tracked_lt := by
    intro k r' hk
    rw [setOf_track] at hk
    show r' < s.fresh + 1
    split at hk
    · cases hk
      omega
    · have := h.tracked_lt k r' hk
      omega
  found_lt := by
    intro k r' hk
    show r' < s.fresh + 1
    have := h.found_lt k r' hk
    omega
  tracked := by
    intro k k' r' hk hk'
    rw [setOf_track] at hk hk'
    split at hk
    next hid =>
      cases hk
      split at hk'
      next hid' => exact hid.trans hid'.symm
      next hid' => exact hid.trans (htracked k' hk').symm
    next hid =>
      split at hk'
      next hid' =>
        cases hk'
        exact (htracked k hk).trans hid'.symm
      next hid' => exact h.tracked k k' r' hk hk'
  found := by
    intro k k' r' hk hk'
    rw [setOf_track] at hk'
    split at hk'
    next hid' =>
      cases hk'
      exact hid'.trans (hfound k hk).symm
    next hid' => exact h.found k k' r' hk hk'
  restarts := h.restarts

theorem Owned.newSet (h : Owned s) (set : OrderedSet String) : Owned (s.newSet set) :=
  h.mono (fun _ _ hk => hk) (fun _ _ hk => hk) (Nat.le_succ _)

theorem Owned.holds_newSet (h : Owned s) (set : OrderedSet String)
    (k c : String) : (s.newSet set).Holds k c ↔ s.Holds k c := by
  rw [holds_iff, holds_iff]
  refine exists_congr fun r => and_congr_right fun hr => ?_
  have hne : r ≠ s.fresh := Nat.ne_of_lt (h.tracked_lt k r hr)
  simp only [SessionContext.newSet, update_of_ne hne]

/-! ### Each operation keeps the relation symmetric -/

/-- What holds between two awaits of an orderly run. -/
structure Sound (s : SessionContext) : Prop where
  symmetric : s.Symmetric
  owned : s.Owned

theorem Sound.of_eq (h : Sound s) (hset : ∀ k, s'.setOf k = s.setOf k)
    (hsets : s'.sets = s.sets) (hclients : s'.clients = s.clients)
    (hrestarts : s'.restarts = s.restarts) (hfresh : s'.fresh = s.fresh) : Sound s' where
  symmetric := by
    intro c k
    rw [holds_congr (hset k) hsets, isAttached_congr hclients]
    exact h.symmetric c k
  owned := h.owned.of_eq hset hrestarts hfresh

theorem Sound.setStatus (h : Sound s) (channelId : String)
    (status : ChannelStatus) : Sound (s.setStatus channelId status) :=
  h.of_eq (fun _ => setOf_setStatus s status) (setStatus_sets s status)
    (setStatus_clients s status) (setStatus_restarts s status) (setStatus_fresh s status)

theorem foldl_editAttached (f : OrderedSet String → OrderedSet String) (l : List String)
    (s : SessionContext) :
    (l.foldl (fun s clientId => s.editAttached clientId f) s).channels = s.channels ∧
      (l.foldl (fun s clientId => s.editAttached clientId f) s).sets = s.sets ∧
      (l.foldl (fun s clientId => s.editAttached clientId f) s).restarts = s.restarts ∧
      (l.foldl (fun s clientId => s.editAttached clientId f) s).fresh = s.fresh := by
  induction l generalizing s with
  | nil => exact ⟨rfl, rfl, rfl, rfl⟩
  | cons c l ih =>
    obtain ⟨hch, hsets, hre, hfr⟩ := ih (s.editAttached c f)
    rw [foldl_cons]
    exact ⟨hch.trans (editAttached_channels s f), hsets.trans (editAttached_sets s f),
      hre.trans (editAttached_restarts s f), hfr.trans (editAttached_fresh s f)⟩

theorem connected_foldl_editAttached (f : OrderedSet String → OrderedSet String)
    (l : List String) (s : SessionContext) (c : String) :
    ((l.foldl (fun s clientId => s.editAttached clientId f) s).clients.get c).isSome
      = (s.clients.get c).isSome := by
  induction l generalizing s with
  | nil => rfl
  | cons c' l ih => rw [foldl_cons, ih, connected_editAttached]

theorem isAttached_foldl_delete (channelId : String) (l : List String) (s : SessionContext)
    (c k : String) :
    (l.foldl (fun s clientId => s.editAttached clientId fun att => att.delete channelId)
        s).IsAttached c k ↔ s.IsAttached c k ∧ ¬(c ∈ l ∧ k = channelId) := by
  induction l generalizing s with
  | nil => simp
  | cons c' l ih =>
    rw [foldl_cons, ih, isAttached_delete, mem_cons]
    tauto

theorem setOf_forgetChannel (s : SessionContext) (channelId k : String) :
    (s.forgetChannel channelId).setOf k = if k = channelId then none else s.setOf k := by
  have hch := (foldl_editAttached (fun att => att.delete channelId) (s.clientsOf channelId) s).1
  simp only [forgetChannel, setOf, hch, get_delete]
  split <;> rfl

@[simp] theorem forgetChannel_sets (s : SessionContext) (channelId : String) :
    (s.forgetChannel channelId).sets = s.sets :=
  (foldl_editAttached (fun att => att.delete channelId) (s.clientsOf channelId) s).2.1

@[simp] theorem forgetChannel_restarts (s : SessionContext) (channelId : String) :
    (s.forgetChannel channelId).restarts = s.restarts :=
  (foldl_editAttached (fun att => att.delete channelId) (s.clientsOf channelId) s).2.2.1

@[simp] theorem forgetChannel_fresh (s : SessionContext) (channelId : String) :
    (s.forgetChannel channelId).fresh = s.fresh :=
  (foldl_editAttached (fun att => att.delete channelId) (s.clientsOf channelId) s).2.2.2

theorem holds_forgetChannel (s : SessionContext) (channelId k c : String) :
    (s.forgetChannel channelId).Holds k c ↔ k ≠ channelId ∧ s.Holds k c := by
  rw [holds_iff, holds_iff, setOf_forgetChannel, forgetChannel_sets]
  by_cases hk : k = channelId <;> simp [hk]

theorem isAttached_forgetChannel (s : SessionContext) (channelId k c : String) :
    (s.forgetChannel channelId).IsAttached c k ↔
      s.IsAttached c k ∧ ¬(s.Holds channelId c ∧ k = channelId) := by
  rw [← mem_clientsOf]
  exact isAttached_foldl_delete channelId (s.clientsOf channelId) s c k

theorem Sound.forgetChannel (h : Sound s) (channelId : String) :
    Sound (s.forgetChannel channelId) where
  symmetric := by
    intro c k
    rw [holds_forgetChannel, isAttached_forgetChannel, h.symmetric c k]
    constructor
    · rintro ⟨hk, hatt⟩
      exact ⟨hatt, fun hboth => hk hboth.2⟩
    · rintro ⟨hatt, hnot⟩
      refine ⟨fun hk => hnot ⟨?_, hk⟩, hatt⟩
      rw [h.symmetric, ← hk]
      exact hatt
  owned := by
    refine h.owned.mono ?_ ?_ ?_
    · intro k r hk
      rw [setOf_forgetChannel] at hk
      split at hk
      · cases hk
      · exact hk
    · intro k r hk
      rwa [forgetChannel_restarts] at hk
    · exact Nat.le_of_eq (forgetChannel_fresh s channelId).symm

theorem Sound.retireChannel (h : Sound s) (channelId : String) :
    Sound (s.retireChannel channelId) :=
  (h.setStatus channelId .dead).forgetChannel channelId

theorem Sound.endChannelsOf (h : Sound s) (hostId : String) : Sound (s.endChannelsOf hostId) := by
  have hfold : ∀ (l : List String) (t : SessionContext), Sound t →
      Sound (l.foldl SessionContext.retireChannel t) := by
    intro l
    induction l with
    | nil => exact fun t ht => ht
    | cons id l ih => exact fun t ht => ih _ (ht.retireChannel id)
  exact hfold _ s h

theorem Sound.destroyChannel (h : Sound s)
    (hnobody : s.clientsOf channelId = []) : Sound (s.destroyChannel channelId) := by
  have hdead : (s.setStatus channelId .dead).clientsOf channelId = [] := by
    rw [eq_nil_iff_forall_not_mem] at hnobody ⊢
    intro c hc
    refine hnobody c ?_
    rw [mem_clientsOf] at hc ⊢
    exact (holds_congr (setOf_setStatus s .dead) (setStatus_sets s .dead)).mp hc
  have hforget : s.destroyChannel channelId
      = (s.setStatus channelId .dead).forgetChannel channelId := by
    simp only [SessionContext.destroyChannel, SessionContext.forgetChannel, hdead, foldl_nil]
  rw [hforget]
  exact h.retireChannel channelId

/-! ### Attaching and detaching -/

theorem Sound.addClient (h : Sound s)
    (hnew : s.clients.get clientId = none) : Sound (s.addClient clientId) where
  symmetric := by
    intro c k
    have hatt : (s.addClient clientId).IsAttached c k ↔ s.IsAttached c k := by
      unfold IsAttached
      by_cases hc : c = clientId
      · subst hc
        simp [SessionContext.addClient, hnew]
      · simp only [SessionContext.addClient, get_set_of_ne _ hc]
    rw [hatt]
    exact h.symmetric c k
  owned := h.owned.of_eq (fun _ => rfl) rfl rfl

/-- `detachClient` takes one pair out of the relation, on both sides. -/
theorem holds_detachClient (h : Owned s) (clientId channelId k c : String) :
    (s.detachClient clientId channelId).Holds k c ↔
      s.Holds k c ∧ ¬(c = clientId ∧ k = channelId) := by
  unfold detachClient
  rw [holds_editAttached]
  cases hch : s.channels.get channelId with
  | none =>
    constructor
    · intro hk
      refine ⟨hk, fun hboth => ?_⟩
      obtain ⟨ch, hget, -⟩ := hk
      rw [hboth.2, hch] at hget
      cases hget
    · exact fun hk => hk.1
  | some ch =>
    have hset : s.setOf channelId = some ch.clients := by simp [setOf, hch]
    have hpair : s.setOf k = some ch.clients ↔ k = channelId := by
      constructor
      · exact fun hk => h.tracked k channelId ch.clients hk hset
      · exact fun hk => hk ▸ hset
    dsimp only
    split
    · rw [holds_congr (setOf_setStatus _ _) (setStatus_sets _ _), holds_editSet_delete, hpair]
    · rw [holds_editSet_delete, hpair]

theorem isAttached_detachClient (s : SessionContext) (clientId channelId k c : String) :
    (s.detachClient clientId channelId).IsAttached c k ↔
      s.IsAttached c k ∧ ¬(c = clientId ∧ k = channelId) := by
  unfold detachClient
  rw [isAttached_delete]
  refine and_congr_left fun _ => isAttached_congr ?_
  cases s.channels.get channelId with
  | none => rfl
  | some ch =>
    dsimp only
    split
    · rw [setStatus_clients]
      rfl
    · rfl

theorem owned_detachClient (h : Owned s) (clientId channelId : String) :
    Owned (s.detachClient clientId channelId) := by
  unfold detachClient
  cases s.channels.get channelId with
  | none => exact h.of_eq (fun _ => by simp) (by simp) (by simp)
  | some ch =>
    dsimp only
    split
    · refine h.of_eq (fun k => ?_) (by simp [editSet]) (by simp [editSet])
      rw [setOf_editAttached, setOf_setStatus]
      rfl
    · refine h.of_eq (fun k => ?_) (by simp [editSet]) (by simp [editSet])
      rw [setOf_editAttached]
      rfl

theorem Sound.detachClient (h : Sound s) (clientId channelId : String) :
    Sound (s.detachClient clientId channelId) where
  symmetric := by
    intro c k
    rw [holds_detachClient h.owned, isAttached_detachClient, h.symmetric c k]
  owned := owned_detachClient h.owned clientId channelId

theorem Sound.foldl_detachClient (clientId : String) (l : List String) (h : Sound s) :
    Sound (l.foldl (SessionContext.detachClient clientId) s) ∧ ∀ c k,
      (l.foldl (SessionContext.detachClient clientId) s).IsAttached c k ↔
        s.IsAttached c k ∧ ¬(c = clientId ∧ k ∈ l) := by
  induction l generalizing s with
  | nil => exact ⟨h, by simp⟩
  | cons id l ih =>
    obtain ⟨hsound, hatt⟩ := ih (h.detachClient clientId id)
    refine ⟨hsound, fun c k => ?_⟩
    rw [foldl_cons, hatt, isAttached_detachClient, mem_cons]
    tauto

theorem Sound.removeClient (h : Sound s) (clientId : String) : Sound (s.removeClient clientId) := by
  unfold SessionContext.removeClient
  cases hget : s.clients.get clientId with
  | none => exact h
  | some att =>
    obtain ⟨hsound, hatt⟩ := h.foldl_detachClient clientId att.elems
    refine ⟨fun c k => ?_, hsound.owned.of_eq (fun _ => rfl) rfl rfl⟩
    have hleft : ¬(att.elems.foldl (SessionContext.detachClient clientId) s).IsAttached clientId k := by
      rw [hatt]
      rintro ⟨⟨att', hatt', hk⟩, hnot⟩
      obtain ⟨rfl⟩ := hget.symm.trans hatt'
      exact hnot ⟨rfl, hk⟩
    refine Iff.trans (hsound.symmetric c k) ?_
    by_cases hc : c = clientId
    · subst hc
      refine iff_of_false hleft ?_
      rintro ⟨att', hatt', -⟩
      simp at hatt'
    · unfold IsAttached
      simp only [get_delete_of_ne _ hc]

/-- `handleAttach` puts one pair into the relation, on both sides. -/
theorem Sound.attach (h : Sound s) (clientId channelId : String) :
    Sound (s.attach clientId channelId) := by
  unfold SessionContext.attach
  split
  next att ch hatt hch =>
    split
    · exact h
    next halive =>
      have hset : s.setOf channelId = some ch.clients := by simp [setOf, hch]
      have hconnected : (s.clients.get clientId).isSome = true := by rw [hatt]; rfl
      have hboth : Sound ((s.editSet ch.clients fun set => set.add clientId).editAttached clientId
          fun att => att.add channelId) := by
        refine ⟨fun c k => ?_, h.owned.of_eq (fun k => ?_) (by simp [editSet]) (by simp [editSet])⟩
        · have hpair : s.setOf k = some ch.clients ↔ k = channelId := by
            constructor
            · exact fun hk => h.owned.tracked k channelId ch.clients hk hset
            · exact fun hk => hk ▸ hset
          rw [holds_editAttached, holds_editSet_add, hpair,
            isAttached_add (s.editSet ch.clients fun set => set.add clientId) hconnected]
          exact or_congr (h.symmetric c k) Iff.rfl
        · rw [setOf_editAttached]
          rfl
      split
      · exact (hboth.setStatus channelId .live).of_eq (fun _ => rfl) rfl rfl rfl rfl
      · exact hboth.of_eq (fun _ => rfl) rfl rfl rfl rfl
  next => exact h

/-- An attach that starts over takes back what it did, if its set is not another terminal's
by now. -/
theorem Sound.letGoOfStaleAttach (h : Sound s) {a : PendingAttach}
    (hset : a.clientId ∈ s.sets a.clients → ∀ k, s.setOf k = some a.clients → k = a.channelId) :
    Sound (s.letGoOfStaleAttach a) := by
  have howned : Owned (s.editSet a.clients fun set => set.delete a.clientId) :=
    h.owned.of_eq (fun _ => rfl) rfl rfl
  -- the one pair the set's edit can take out
  have hholds : ∀ c k, (s.editSet a.clients fun set => set.delete a.clientId).Holds k c ↔
      s.Holds k c ∧ ¬(c = a.clientId ∧ k = a.channelId ∧ s.setOf a.channelId = some a.clients) := by
    intro c k
    rw [holds_editSet_delete]
    refine and_congr_right fun hk => not_congr ?_
    constructor
    · rintro ⟨rfl, hr⟩
      obtain ⟨r, hr', hmem⟩ := holds_iff.mp hk
      obtain ⟨rfl⟩ := hr.symm.trans hr'
      obtain rfl := hset hmem k hr
      exact ⟨rfl, rfl, hr⟩
    · rintro ⟨rfl, rfl, hr⟩
      exact ⟨rfl, hr⟩
  have hsym : ∀ c k, (s.editSet a.clients fun set => set.delete a.clientId).IsAttached c k ↔
      s.Holds k c := fun c k => (h.symmetric c k).symm
  unfold SessionContext.letGoOfStaleAttach
  dsimp only
  split
  next hstill =>
    -- the terminal tracked there now holds the client: the edit took nothing out
    rw [mem_clientsOf, hholds] at hstill
    refine ⟨fun c k => ?_, howned⟩
    rw [hholds, hsym]
    constructor
    · exact fun hk => hk.1
    · exact fun hk => ⟨hk, fun hpair => hstill.2 ⟨rfl, rfl, hpair.2.2⟩⟩
  next hgone =>
    rw [mem_clientsOf, hholds] at hgone
    refine ⟨fun c k => ?_, howned.of_eq (fun _ => setOf_editAttached _ _)
      (editAttached_restarts _ _) (editAttached_fresh _ _)⟩
    rw [holds_editAttached, hholds, isAttached_delete, hsym]
    refine and_congr_right fun hk => not_congr ?_
    constructor
    · exact fun hpair => ⟨hpair.1, hpair.2.1⟩
    · rintro ⟨rfl, rfl⟩
      by_contra hnot
      exact hgone ⟨hk, fun hpair => hnot hpair⟩

theorem Sound.attachRefused (h : Sound s) {a : PendingAttach}
    (hset : s.setOf a.channelId = some a.clients) : Sound (s.attachRefused a) := by
  have hretired := h.retireChannel a.channelId
  have hsetOf : ∀ k, (s.retireChannel a.channelId).setOf k =
      if k = a.channelId then none else s.setOf k := by
    intro k
    rw [SessionContext.retireChannel, setOf_forgetChannel, setOf_setStatus]
  have hnone : ∀ k, (s.retireChannel a.channelId).setOf k ≠ some a.clients := by
    intro k hk
    rw [hsetOf] at hk
    split at hk
    next => cases hk
    next hne => exact hne (h.owned.tracked k a.channelId a.clients hk hset)
  have hgone : ¬(s.retireChannel a.channelId).IsAttached a.clientId a.channelId := by
    rw [← hretired.symmetric, holds_iff, hsetOf, if_pos rfl]
    rintro ⟨r, hr, -⟩
    cases hr
  refine ⟨fun c k => ?_, hretired.owned.of_eq (fun k => ?_) (by simp [SessionContext.attachRefused, editSet])
    (by simp [SessionContext.attachRefused, editSet])⟩
  · rw [SessionContext.attachRefused, holds_editAttached, holds_editSet_delete, isAttached_delete]
    refine Iff.trans (and_iff_left fun hpair => hnone k hpair.2) ?_
    refine (hretired.symmetric c k).trans (and_iff_left_of_imp ?_).symm
    rintro hatt ⟨rfl, rfl⟩
    exact hgone hatt
  · rw [SessionContext.attachRefused, setOf_editAttached]
    rfl

/-! ### Starting terminals -/

theorem Sound.restore (h : Sound s) (hostId : String)
    (hnew : s.channels.get channelId = none) : Sound (s.restore channelId hostId) where
  symmetric := by
    intro c k
    unfold SessionContext.restore
    rw [holds_track]
    have hatt : ((s.newSet .empty).track channelId hostId .orphan s.fresh).IsAttached c k ↔
        s.IsAttached c k := Iff.rfl
    rw [hatt, ← h.symmetric c k]
    split
    next hk =>
      subst hk
      refine iff_of_false ?_ ?_
      · simp [SessionContext.newSet]
      · rintro ⟨ch, hch, -⟩
        rw [hnew] at hch
        cases hch
    next hk => exact h.owned.holds_newSet _ k c
  owned := by
    refine (h.owned.newSet .empty).track hostId .orphan (Nat.lt_succ_self _) ?_ ?_
    · intro k hk
      exact absurd (h.owned.tracked_lt k _ hk) (Nat.lt_irrefl _)
    · intro k hk
      exact absurd (h.owned.found_lt k _ hk) (Nat.lt_irrefl _)

theorem Sound.spawnOk (h : Sound s)
    (hostId : String) (hconnected : (s.clients.get clientId).isSome = true)
    (honly : ∀ c ∈ s.clientsOf channelId, c = clientId) :
    Sound (s.spawnOk clientId channelId hostId) := by
  have howned : Owned ((s.newSet (empty.add clientId)).track channelId hostId .live
      s.fresh) := by
    refine (h.owned.newSet _).track hostId .live (Nat.lt_succ_self _) ?_ ?_
    · intro k hk
      exact absurd (h.owned.tracked_lt k _ hk) (Nat.lt_irrefl _)
    · intro k hk
      exact absurd (h.owned.found_lt k _ hk) (Nat.lt_irrefl _)
  refine ⟨fun c k => ?_, howned.of_eq (fun _ => setOf_editAttached _ _) (editAttached_restarts _ _)
    (editAttached_fresh _ _)⟩
  unfold SessionContext.spawnOk
  rw [holds_editAttached, holds_track, isAttached_add ((s.newSet (empty.add clientId)).track
    channelId hostId .live s.fresh) hconnected]
  have hatt : ((s.newSet (empty.add clientId)).track channelId hostId .live
      s.fresh).IsAttached c k ↔ s.Holds k c := (h.symmetric c k).symm
  rw [hatt]
  split
  next hk =>
    subst hk
    have hmem : c ∈ (s.newSet (empty.add clientId)).sets s.fresh ↔ c = clientId := by
      simp [SessionContext.newSet]
    rw [hmem]
    constructor
    · exact fun hc => .inr ⟨hc, rfl⟩
    · rintro (hk | ⟨hc, -⟩)
      · exact honly c (mem_clientsOf.mpr hk)
      · exact hc
  next hk =>
    rw [h.owned.holds_newSet]
    simp [hk]

theorem isAttached_moveClients (l : List String) (s : SessionContext)
    (channelId newId c k : String) :
    (s.moveClients l channelId newId).IsAttached c k ↔
      if c ∈ l then (s.clients.get c).isSome = true ∧
        (k = newId ∨ (s.IsAttached c k ∧ k ≠ channelId))
      else s.IsAttached c k := by
  unfold moveClients
  induction l generalizing s with
  | nil => simp
  | cons c' l ih =>
    -- one client's move
    have hone : ∀ c k, (s.editAttached c' fun att => (att.delete channelId).add newId).IsAttached c k ↔
        if c = c' then (s.clients.get c).isSome = true ∧
          (k = newId ∨ (s.IsAttached c k ∧ k ≠ channelId))
        else s.IsAttached c k := by
      intro c k
      rw [isAttached_editAttached]
      by_cases hc : c = c'
      · subst hc
        rw [if_pos rfl, if_pos rfl]
        cases hget : s.clients.get c with
        | none => simp
        | some att => simp [IsAttached, hget]
      · rw [if_neg hc, if_neg hc]
    rw [foldl_cons, ih, hone, connected_editAttached]
    by_cases hl : c ∈ l
    · rw [if_pos hl, if_pos (mem_cons_of_mem _ hl)]
      by_cases hc : c = c'
      · rw [if_pos hc]
        tauto
      · rw [if_neg hc]
    · rw [if_neg hl]
      by_cases hc : c = c'
      · rw [if_pos hc, if_pos (hc ▸ mem_cons_self)]
      · rw [if_neg hc, if_neg (by simp [hc, hl])]

/-- `applyRestartState` with a set that is no other channel's: the clients in it are the
terminal's, or follow it to its new id. -/
theorem Sound.applyRestartState (h : Sound s) {newId : String}
    (hostId : String) {r : ℕ} (hlt : r < s.fresh)
    (htracked : ∀ k, s.setOf k = some r → k = channelId)
    (hfound : ∀ k, s.restarts.get k ≠ some (some r))
    (hsame : newId = channelId → ∀ c, c ∈ s.sets r ↔ s.Holds channelId c)
    (hmoved : newId ≠ channelId → (∀ c ∈ s.sets r, (s.clients.get c).isSome = true) ∧
      ∀ c, s.Holds newId c → c ∈ s.sets r) :
    Sound (s.applyRestartState channelId newId hostId r) := by
  unfold SessionContext.applyRestartState
  by_cases hid : newId = channelId
  · rw [if_pos hid]
    subst hid
    refine ⟨fun c k => ?_, h.owned.track hostId .live hlt htracked fun k hk => absurd hk (hfound k)⟩
    rw [holds_track]
    refine Iff.trans ?_ (h.symmetric c k)
    split
    next hk => rw [hk]; exact hsame rfl c
    next hk => rfl
  · rw [if_neg hid]
    obtain ⟨hconnected, hall⟩ := hmoved hid
    have hretired := h.retireChannel channelId
    have hsetOf : ∀ k, (s.retireChannel channelId).setOf k =
        if k = channelId then none else s.setOf k := by
      intro k
      rw [SessionContext.retireChannel, setOf_forgetChannel, setOf_setStatus]
    have hthere : ∀ c, ((s.retireChannel channelId).clients.get c).isSome =
        (s.clients.get c).isSome := by
      intro c
      refine (connected_foldl_editAttached _ _ _ c).trans ?_
      rw [setStatus_clients]
    have hmembers : (s.retireChannel channelId).sets = s.sets := by
      rw [SessionContext.retireChannel, forgetChannel_sets, setStatus_sets]
    obtain ⟨hch, hsets, hre, hfr⟩ := foldl_editAttached
      (fun att => (att.delete channelId).add newId) (s.sets r).elems (s.retireChannel channelId)
    have hsetOf' : ∀ k, ((s.retireChannel channelId).moveClients (s.sets r).elems channelId
        newId).setOf k = (s.retireChannel channelId).setOf k := by
      intro k
      simp only [setOf, moveClients, hch]
    have howned : Owned ((s.retireChannel channelId).moveClients (s.sets r).elems channelId newId) :=
      hretired.owned.of_eq hsetOf' hre hfr
    refine ⟨fun c k => ?_, howned.track hostId .live ?_ ?_ ?_⟩
    · rw [holds_track]
      refine Iff.trans ?_ (isAttached_moveClients (s.sets r).elems (s.retireChannel channelId)
        channelId newId c k).symm
      have hin : c ∈ ((s.retireChannel channelId).moveClients (s.sets r).elems channelId newId).sets r
          ↔ c ∈ (s.sets r).elems := by
        rw [moveClients, hsets, hmembers]
        rfl
      have hold : ((s.retireChannel channelId).moveClients (s.sets r).elems channelId newId).Holds k c
          ↔ (s.retireChannel channelId).IsAttached c k :=
        (holds_congr (hsetOf' k) hsets).trans (hretired.symmetric c k)
      rw [hin, hold, hthere]
      by_cases hc : c ∈ (s.sets r).elems
      · rw [if_pos hc]
        by_cases hk : k = newId
        · rw [if_pos hk]
          exact iff_of_true hc ⟨hconnected c hc, .inl hk⟩
        · rw [if_neg hk]
          constructor
          · intro hatt
            refine ⟨hconnected c hc, .inr ⟨hatt, fun hke => ?_⟩⟩
            rw [hke, ← hretired.symmetric, holds_iff, hsetOf, if_pos rfl] at hatt
            obtain ⟨_, hnone, -⟩ := hatt
            cases hnone
          · rintro ⟨-, hke | hatt⟩
            · exact absurd hke hk
            · exact hatt.1
      · rw [if_neg hc]
        by_cases hk : k = newId
        · rw [if_pos hk]
          refine iff_of_false hc fun hatt => hc ?_
          rw [hk, ← hretired.symmetric, holds_iff, hsetOf, if_neg hid, hmembers, ← holds_iff] at hatt
          exact hall c hatt
        · rw [if_neg hk]
    · show r < ((s.retireChannel channelId).moveClients (s.sets r).elems channelId newId).fresh
      rw [moveClients, hfr, SessionContext.retireChannel, forgetChannel_fresh, setStatus_fresh]
      exact hlt
    · intro k hk
      rw [hsetOf', hsetOf] at hk
      split at hk
      next => cases hk
      next hne => exact absurd (htracked k hk) hne
    · intro k hk
      rw [moveClients, hre, SessionContext.retireChannel, forgetChannel_restarts,
        setStatus_restarts] at hk
      exact absurd hk (hfound k)

theorem Sound.deleteRestart (h : Sound s) (channelId : String) :
    Sound { s with restarts := s.restarts.delete channelId } where
  symmetric := h.symmetric
  owned := by
    refine h.owned.mono (fun _ _ hk => hk) (fun k r hk => ?_) (Nat.le_refl _)
    have hk' : (s.restarts.delete channelId).get k = some (some r) := hk
    rw [get_delete] at hk'
    split at hk'
    · cases hk'
    · exact hk'

theorem Sound.restartBegins (h : Sound s) (channelId : String) :
    Sound { s with restarts := s.restarts.set channelId (s.setOf channelId) } := by
  have hget : ∀ k r, (s.restarts.set channelId (s.setOf channelId)).get k = some (some r) →
      (k = channelId ∧ s.setOf channelId = some r) ∨
        (k ≠ channelId ∧ s.restarts.get k = some (some r)) := by
    intro k r hk
    rw [get_set] at hk
    split at hk
    next heq => exact .inl ⟨heq, some.inj hk⟩
    next hne => exact .inr ⟨hne, hk⟩
  refine ⟨h.symmetric, h.owned.tracked_lt, ?_, h.owned.tracked, ?_, ?_⟩
  · intro k r hk
    rcases hget k r hk with ⟨-, hset⟩ | ⟨-, hk⟩
    · exact h.owned.tracked_lt channelId r hset
    · exact h.owned.found_lt k r hk
  · intro k k' r hk hk'
    rcases hget k r hk with ⟨heq, hset⟩ | ⟨-, hk⟩
    · rw [heq]
      exact h.owned.tracked k' channelId r hk' hset
    · exact h.owned.found k k' r hk hk'
  · intro k k' r hk hk'
    rcases hget k r hk with ⟨heq, hset⟩ | ⟨hne, hk⟩
    · rcases hget k' r hk' with ⟨heq', -⟩ | ⟨hne', hk'⟩
      · exact heq.trans heq'.symm
      · exact absurd (h.owned.found k' channelId r hk' hset).symm hne'
    · rcases hget k' r hk' with ⟨heq', hset'⟩ | ⟨-, hk'⟩
      · exact absurd (h.owned.found k channelId r hk hset').symm hne
      · exact h.owned.restarts k k' r hk hk'

theorem Sound.restarted (h : Sound s) {newId hostId : String}
    {found : Option ℕ} (hfound : s.restarts.get channelId = some found)
    (hok : s.Orderly (.restarted channelId newId hostId)) :
    Sound ({ s with restarts := s.restarts.delete channelId }.restarted channelId newId hostId
      found) := by
  have hdone := h.deleteRestart channelId
  simp only [Orderly, hfound] at hok
  cases found with
  | some r =>
    refine hdone.applyRestartState hostId (h.owned.found_lt channelId r hfound)
      (fun k hk => h.owned.found channelId k r hfound hk) ?_ ?_ ?_
    · intro k hk
      have hk' : (s.restarts.delete channelId).get k = some (some r) := hk
      rw [get_delete] at hk'
      split at hk'
      next => cases hk'
      next hne => exact hne (h.owned.restarts k channelId r hk' hfound)
    · intro hid c
      rw [if_pos hid] at hok
      constructor
      · exact fun hc => mem_clientsOf.mp (hok.1 c hc)
      · exact fun hc => hok.2 c (mem_clientsOf.mpr hc)
    · intro hid
      rw [if_neg hid] at hok
      exact ⟨hok.1, fun c hc => hok.2 c (mem_clientsOf.mpr hc)⟩
  | none =>
    -- the set it makes is empty, and nobody's
    have hnew : Sound ({ s with restarts := s.restarts.delete channelId }.newSet .empty) := by
      refine ⟨fun c k => ?_, hdone.owned.newSet .empty⟩
      exact (hdone.owned.holds_newSet .empty k c).trans (hdone.symmetric c k)
    have hempty : ∀ c, c ∉ ({ s with restarts := s.restarts.delete channelId }.newSet .empty).sets
        s.fresh := by
      intro c
      simp [SessionContext.newSet]
    have hnobody : ∀ k, s.clientsOf k = [] → ∀ c,
        ¬({ s with restarts := s.restarts.delete channelId }.newSet .empty).Holds k c := by
      intro k hk c hc
      have hc' : s.Holds k c := (hdone.owned.holds_newSet .empty k c).mp hc
      rw [← mem_clientsOf, hk] at hc'
      cases hc'
    simp only [map_none, getD_none, not_mem_nil, false_implies, implies_true,
      true_and, imp_false, ← eq_nil_iff_forall_not_mem] at hok
    refine hnew.applyRestartState hostId (Nat.lt_succ_self _) ?_ ?_ ?_ ?_
    · intro k hk
      exact absurd (h.owned.tracked_lt k _ hk) (Nat.lt_irrefl _)
    · intro k hk
      exact absurd (hdone.owned.found_lt k _ hk) (Nat.lt_irrefl _)
    · intro hid c
      rw [if_pos hid] at hok
      exact iff_of_false (hempty c) (hnobody channelId hok c)
    · intro hid
      rw [if_neg hid] at hok
      exact ⟨fun c hc => absurd hc (hempty c), fun c hc => absurd hc (hnobody newId hok c)⟩

/-! ### Runs -/

/-- **An orderly step keeps the relation symmetric.** -/
theorem Sound.next {a : Step} (h : Sound s) (hok : s.Orderly a)
    (hn : s.next a = some s') : Sound s' := by
  cases a with
  | addClient clientId =>
    obtain ⟨hnew, ⟨rfl⟩⟩ := ite_none_left_eq_some.mp hn
    exact h.addClient (by simpa using hnew)
  | removeClient clientId =>
    cases hn
    exact h.removeClient clientId
  | restored channelId hostId =>
    obtain ⟨hnew, ⟨rfl⟩⟩ := ite_none_left_eq_some.mp hn
    exact h.restore hostId (by simpa using hnew)
  | spawnOk clientId channelId hostId =>
    cases hn
    exact h.spawnOk hostId hok.1 hok.2
  | attach clientId channelId =>
    cases hn
    exact h.attach clientId channelId
  | attachStartsOver a =>
    obtain ⟨-, ⟨rfl⟩⟩ := ite_none_right_eq_some.mp hn
    have herased : Sound { s with attaches := s.attaches.erase a } :=
      h.of_eq (fun _ => rfl) rfl rfl rfl rfl
    refine (herased.letGoOfStaleAttach ?_).attach a.clientId a.channelId
    intro hmem k hk
    obtain ⟨ch, hch, hset⟩ := map_eq_some_iff.mp hk
    exact hok hmem (k, ch) ((get_eq_some_iff _ _ _).mp hch) hset
  | attachRefused a =>
    obtain ⟨⟨-, hsame⟩, ⟨rfl⟩⟩ := ite_none_right_eq_some.mp hn
    have herased : Sound { s with attaches := s.attaches.erase a } :=
      h.of_eq (fun _ => rfl) rfl rfl rfl rfl
    refine herased.attachRefused ?_
    obtain ⟨ch, hch, hpair⟩ := map_eq_some_iff.mp hsame
    exact map_eq_some_iff.mpr ⟨ch, hch, (Prod.mk.inj hpair).2⟩
  | attachDone a =>
    obtain ⟨-, ⟨rfl⟩⟩ := ite_none_right_eq_some.mp hn
    exact h.of_eq (fun _ => rfl) rfl rfl rfl rfl
  | detach clientId channelId =>
    cases hn
    exact h.detachClient clientId channelId
  | restartBegins channelId =>
    obtain ⟨-, ⟨rfl⟩⟩ := ite_none_left_eq_some.mp hn
    exact h.restartBegins channelId
  | restarted channelId newId hostId =>
    obtain ⟨found, hfound, rfl⟩ := map_eq_some_iff.mp hn
    exact h.restarted hfound hok
  | restartFails channelId =>
    cases hn
    exact h.deleteRestart channelId
  | destroyChannel channelId =>
    cases hn
    exact h.destroyChannel hok
  | forgetChannel channelId =>
    cases hn
    exact h.forgetChannel channelId
  | endChannelsOf hostId =>
    cases hn
    exact h.endChannelsOf hostId
  | statusChanged channelId status =>
    cases hn
    exact h.setStatus channelId status

theorem sound_init : Sound init where
  symmetric := fun _ _ => iff_of_false nofun nofun
  owned := owned_init

/-- **The two sides agree.** In every state that orderly steps reach, in whatever order they
come: a client is among a terminal's clients exactly when the terminal is among the client's,
and no client keeps a terminal the hub no longer has. -/
theorem symmetric_of_orderly {s : SessionContext} (h : Run next Orderly init s) :
    s.Symmetric ∧ ∀ clientId att, s.clients.get clientId = some att → ∀ channelId ∈ att,
      (s.channels.get channelId).isSome = true := by
  have hsound : Sound s := h.invariant sound_init fun _ _ _ hs hok hn => hs.next hok hn
  refine ⟨hsound.symmetric, fun clientId att hatt channelId hmem => ?_⟩
  obtain ⟨ch, hch, -⟩ := (hsound.symmetric clientId channelId).mpr ⟨att, hatt, hmem⟩
  rw [hch]
  rfl

/-- Two windows on one terminal: it is restarted under another id, and the first leaves. -/
private def orderlyRun : List Step :=
  [.addClient "a", .addClient "b", .spawnOk "a" "t" "pi", .attach "b" "t", .restartBegins "t",
   .attachDone ⟨"b", "t", 1, 0⟩, .restarted "t" "t2" "pi", .removeClient "a"]

theorem agree_after_a_restart : ∃ s, Run next Orderly init s ∧ s.clientsOf "t2" = ["b"] ∧
    (s.Symmetric ∧ ∀ clientId att, s.clients.get clientId = some att → ∀ channelId ∈ att,
      (s.channels.get channelId).isSome = true) := by
  have hrun : Run next Orderly init _ := .get orderlyRun (by decide +kernel) (by decide +kernel)
  exact ⟨_, hrun, by decide +kernel, symmetric_of_orderly hrun⟩

/-- A window attached to a terminal that is killed keeps it: `destroyChannel` takes the
terminal out of the hub, and out of nobody's `attachedChannels`. -/
theorem kept_after_destroy : ¬∀ s, Run next free init s →
    s.Symmetric ∧ ∀ clientId att, s.clients.get clientId = some att → ∀ channelId ∈ att,
      (s.channels.get channelId).isSome = true := by
  intro hall
  have hrun : Run next free init _ :=
    .get_free [.addClient "a", .spawnOk "a" "t" "pi", .destroyChannel "t"] (by decide +kernel)
  have hthere := (hall _ hrun).2 "a" _ (some_get (by decide +kernel)).symm "t"
    (by decide +kernel)
  exact absurd hthere (by decide +kernel)

end SessionContext

end Lasterm.Hub
