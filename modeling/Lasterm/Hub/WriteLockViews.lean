import Lasterm.Hub.Attachments
import Lasterm.Hub.WriteLockGrace
import Lasterm.Hub.WriteLockHandlers

/-!
# What a client was told of a lock

Every change of a lock is told: the manager broadcasts it to the channel, and tells a client
that attaches.  The manager has a set of attached clients of its own; its broadcasts go to the
clients the session has for the channel (`broadcastToChannel` in `ws/ws-handler.ts`, by
`getClientsForChannel`).  A client in the first and not in the second is told nothing.  That
comes about when an attach is answered after its client detached, and when a terminal ends or
is brought back by another client: nothing calls the manager's `removeChannel`.

## Main definitions

* `Wired` — the manager, the session, and what each client was told.

## Main results

* `tells_perform` — every operation tells what it changed.
* `view_agrees_of_reaches`, `view_left_behind` — where broadcasts reach everyone, and where not.
-/

namespace Lasterm.Hub

open Transition List Option OrderedMap

variable {e : Effect}

namespace WriteLockManager

/-- A channel's lock: its holder, and whether it is kept for one that left. -/
def lockState (m : WriteLockManager) (channelId : String) : Option String × Bool :=
  (m.holders.get channelId, (m.reservations.get channelId).isSome)

/-- The state of the channel's lock that a call tells the client, if the channel's broadcasts
reach it. -/
def heardOf (channelId clientId : String) : Effect → Option (Option String × Bool)
  | .broadcastToChannel _ (.writeLock ch holder reserved) =>
    if ch = channelId then some (holder, reserved) else none
  | .sendToClient c (.writeLock ch holder reserved) =>
    if c = clientId ∧ ch = channelId then some (holder, reserved) else none
  | _ => none

/-- Those that a list of calls tells it, oldest first. -/
def heard (channelId clientId : String) (es : List Effect) : List (Option String × Bool) :=
  es.filterMap (heardOf channelId clientId)

/-- The call tells of that channel's lock, if of any, and broadcasts to that channel. -/
def About (channelId : String) : Effect → Prop
  | .broadcastToChannel ch (.writeLock ch' _ _) => ch = channelId ∧ ch' = channelId
  | .sendToClient _ (.writeLock ch _ _) => ch = channelId
  | _ => True

/-- What is broadcast of a channel's lock goes to that channel. -/
def Addressed : Effect → Prop
  | .broadcastToChannel ch (.writeLock ch' _ _) => ch = ch'
  | _ => True

variable {m m' m'' : WriteLockManager} {ch ch' c : String}

theorem About.addressed (h : About ch e) : Addressed e := by
  cases e with
  | broadcastToChannel _ msg =>
    cases msg with
    | writeLock => exact h.1.trans h.2.symm
    | _ => trivial
  | _ => trivial

theorem About.heardOf_eq_none (h : About ch e) (hne : ch' ≠ ch) : heardOf ch' c e = none := by
  cases e with
  | broadcastToChannel _ msg =>
    cases msg with
    | writeLock => exact if_neg fun heq => hne (heq.symm.trans h.2)
    | _ => rfl
  | sendToClient _ msg =>
    cases msg with
    | writeLock => exact if_neg fun heq => hne (heq.2.symm.trans h)
    | _ => rfl
  | _ => rfl

theorem heard_eq_nil {es : List Effect} (h : ∀ e ∈ es, About ch e) (hne : ch' ≠ ch) :
    heard ch' c es = [] :=
  filterMap_eq_nil_iff.mpr fun e he => (h e he).heardOf_eq_none hne

/-- The channel's lock changed, and every client the channel's broadcasts reach was told what
it is now; of no other was anything changed or said. -/
structure Announces (channelId : String) (m m' : WriteLockManager) : Prop where
  attached : m'.attached = m.attached
  others : ∀ ch, ch ≠ channelId → m'.lockState ch = m.lockState ch
  effects : ∃ es, m'.effects = m.effects ++ es ∧ (∀ e ∈ es, About channelId e) ∧
    ∀ c, (heard channelId c es).getLast? = some (m'.lockState channelId)

/-- What `_broadcastLock` says is what the lock is. -/
theorem Announces.broadcastLock {holder : Option String} {reserved : Bool}
    (hattached : m'.attached = m.attached) (heffects : m'.effects = m.effects)
    (hothers : ∀ ch', ch' ≠ ch → m'.lockState ch' = m.lockState ch')
    (hstate : m'.lockState ch = (holder, reserved)) :
    Announces ch m (m'.broadcastLock ch holder reserved) where
  attached := hattached
  others := hothers
  effects := by
    refine ⟨[.broadcastToChannel ch (.writeLock ch holder reserved), .onChange ch], ?_, ?_, ?_⟩
    · show (m'.effects ++ [_]) ++ [_] = _
      rw [heffects, append_assoc]
      rfl
    · intro e he
      rcases mem_cons.mp he with rfl | he
      · exact ⟨rfl, rfl⟩
      · rw [mem_singleton.mp he]
        trivial
    · intro c
      have hheard : heard ch c [.broadcastToChannel ch (.writeLock ch holder reserved), .onChange ch]
          = [(holder, reserved)] := by simp [heard, heardOf]
      rw [hheard]
      exact congrArg some hstate.symm

theorem Announces.trans (h : Announces ch m m') (h' : Announces ch m' m'') :
    Announces ch m m'' where
  attached := h'.attached.trans h.attached
  others ch' hne := (h'.others ch' hne).trans (h.others ch' hne)
  effects := by
    obtain ⟨es, heq, habout, -⟩ := h.effects
    obtain ⟨es', heq', habout', hlast⟩ := h'.effects
    refine ⟨es ++ es', by rw [heq', heq, append_assoc], ?_, fun c => ?_⟩
    · intro e he
      rcases mem_append.mp he with he | he
      · exact habout e he
      · exact habout' e he
    · rw [heard, filterMap_append, getLast?_append]
      show ((heard ch c es').getLast?).or _ = _
      rw [hlast c]
      rfl

theorem announces_handTo (hres : m.reservations.get ch = none) (c : String) :
    Announces ch m (m.handTo ch c) := by
  refine .broadcastLock rfl rfl (fun ch' hne => ?_) ?_
  · exact Prod.ext (get_set_of_ne m.holders hne c) rfl
  · refine Prod.ext (get_set_self ..) ?_
    show (m.reservations.get ch).isSome = false
    rw [hres]
    rfl

theorem announces_take (m : WriteLockManager) (ch c : String) :
    Announces ch m ((m.endReservation ch).handTo ch c) := by
  have heffects : (m.endReservation ch).effects = m.effects := by
    unfold endReservation
    split <;> rfl
  refine .broadcastLock (endReservation_attached m ch) heffects (fun ch' hne => ?_) ?_
  · refine Prod.ext ?_ ?_
    · show ((m.endReservation ch).holders.set ch c).get ch' = _
      rw [endReservation_holders, get_set_of_ne _ hne]
      rfl
    · show ((m.endReservation ch).reservations.get ch').isSome = _
      rw [endReservation_reservations, if_neg hne]
      rfl
  · refine Prod.ext (get_set_self ..) ?_
    show ((m.endReservation ch).reservations.get ch).isSome = false
    rw [endReservation_reservations, if_pos rfl]
    rfl

theorem announces_free (hres : m.reservations.get ch = none) : Announces ch m (m.free ch) := by
  refine .broadcastLock rfl rfl (fun ch' hne => ?_) ?_
  · exact Prod.ext (get_delete_of_ne m.holders hne) rfl
  · refine Prod.ext (get_delete_self ..) ?_
    show (m.reservations.get ch).isSome = false
    rw [hres]
    rfl

theorem Announces.grantToSole (h : Announces ch m m') (hres : m'.reservations.get ch = none) :
    Announces ch m (m'.grantToSoleAttachedClient ch) := by
  unfold grantToSoleAttachedClient
  split
  · exact h
  · split
    · exact h
    · split
      · exact h.trans (announces_handTo hres _)
      · exact h

theorem announces_keepFor (hres : m.reservations.get ch = none)
    (hholder : m.holders.get ch = none) (window : ClientWindow) :
    Announces ch m (m.keepFor ch window) := by
  unfold keepFor
  dsimp only
  split
  · exact announces_handTo hres _
  · refine .broadcastLock rfl rfl (fun ch' hne => ?_) ?_
    · refine Prod.ext rfl ?_
      exact congrArg isSome (get_set_of_ne m.reservations hne _)
    · refine Prod.ext hholder ?_
      exact congrArg isSome (get_set_self m.reservations ch _)

theorem announces_handOnFreed (hres : m.reservations.get ch = none)
    (hholder : m.holders.get ch = none) (window : Option ClientWindow) :
    Announces ch m (handOnFreed window m ch) := by
  have hfreed : Announces ch m (m.broadcastLock ch none false) := by
    refine .broadcastLock rfl rfl (fun _ _ => rfl) (Prod.ext hholder ?_)
    show (m.reservations.get ch).isSome = false
    rw [hres]
    rfl
  unfold handOnFreed
  split
  · split
    · exact hfreed.grantToSole hres
    · exact announces_keepFor hres hholder _
  · exact hfreed.grantToSole hres

/-! ### What an operation changed, it told -/

/-- Every attached client was told of what changed of a channel's lock, those of the channels
in `late` apart. -/
def TellsBut (late : List String) (m m' : WriteLockManager) : Prop :=
  ∃ es, m'.effects = m.effects ++ es ∧ (∀ e ∈ es, Addressed e) ∧
    ∀ ch c, ch ∉ late → m'.IsAttached ch c →
      (heard ch c es).getLast? = some (m'.lockState ch) ∨
        heard ch c es = [] ∧ m'.lockState ch = m.lockState ch ∧ m.IsAttached ch c

/-- Every attached client was told of what changed. -/
abbrev Tells : WriteLockManager → WriteLockManager → Prop := TellsBut []

variable {late : List String}

theorem TellsBut.silent (heffects : m'.effects = m.effects)
    (h : ∀ ch c, ch ∉ late → m'.IsAttached ch c →
      m'.lockState ch = m.lockState ch ∧ m.IsAttached ch c) : TellsBut late m m' := by
  refine ⟨[], by rw [heffects, append_nil], nofun, fun ch c hlate hc => ?_⟩
  exact .inr ⟨rfl, h ch c hlate hc⟩

theorem Tells.refl (m : WriteLockManager) : Tells m m :=
  .silent rfl fun _ _ _ hc => ⟨rfl, hc⟩

theorem TellsBut.emit (h : TellsBut late m m')
    (he : Addressed e) (hsilent : ∀ ch c, heardOf ch c e = none) : TellsBut late m (m'.emit e) := by
  obtain ⟨es, heq, haddressed, htold⟩ := h
  have hheard : ∀ ch c, heard ch c (es ++ [e]) = heard ch c es := by
    intro ch c
    simp [heard, filterMap_append, hsilent]
  refine ⟨es ++ [e], ?_, ?_, fun ch c hlate hc => ?_⟩
  · show m'.effects ++ [e] = _
    rw [heq, append_assoc]
  · intro e' he'
    rcases mem_append.mp he' with he' | he'
    · exact haddressed e' he'
    · exact mem_singleton.mp he' ▸ he
  · rw [hheard]
    exact htold ch c hlate hc

theorem TellsBut.announces {late' : List String} (h : TellsBut late m m')
    (ha : Announces ch m' m'') (hlate : ∀ ch', ch' ∈ late → ch' = ch ∨ ch' ∈ late') :
    TellsBut late' m m'' := by
  obtain ⟨es, heq, haddressed, htold⟩ := h
  obtain ⟨es', heq', habout, hlast⟩ := ha.effects
  refine ⟨es ++ es', by rw [heq', heq, append_assoc], ?_, fun ch' c hnot hc => ?_⟩
  · intro e he
    rcases mem_append.mp he with he | he
    · exact haddressed e he
    · exact (habout e he).addressed
  · rw [heard, filterMap_append]
    by_cases hch : ch' = ch
    · subst hch
      refine .inl ?_
      rw [getLast?_append]
      show ((heard ch' c es').getLast?).or _ = _
      rw [hlast c]
      rfl
    · have hnone : es'.filterMap (heardOf ch' c) = [] := heard_eq_nil habout hch
      rw [hnone, append_nil, ha.others ch' hch]
      refine htold ch' c (fun hmem => ?_) ((isAttached_congr ha.attached ch' c).mp hc)
      rcases hlate ch' hmem with heq | hmem
      · exact hch heq
      · exact hnot hmem

theorem Announces.tells (h : Announces ch m m') : Tells m m' :=
  (Tells.refl m).announces h nofun

theorem tells_newcomer {holder : Option String} {reserved : Bool}
    (hstate : m.lockState ch = (holder, reserved)) :
    Tells m ((m.addAttached ch c).emit (.sendToClient c (.writeLock ch holder reserved))) := by
  refine ⟨[.sendToClient c (.writeLock ch holder reserved)], rfl, ?_, fun ch' c' _ hc => ?_⟩
  · intro e he
    rw [mem_singleton.mp he]
    trivial
  · by_cases hnew : c = c' ∧ ch = ch'
    · obtain ⟨rfl, rfl⟩ := hnew
      refine .inl ?_
      have hheard : heard ch c [.sendToClient c (.writeLock ch holder reserved)] =
          [(holder, reserved)] := by simp [heard, heardOf]
      rw [hheard]
      exact congrArg some hstate.symm
    · refine .inr ⟨?_, rfl, ?_⟩
      · simp [heard, heardOf, hnew]
      · rcases (isAttached_addAttached m ch c ch' c').mp hc with ⟨rfl, rfl⟩ | hold
        · exact absurd ⟨rfl, rfl⟩ hnew
        · exact hold

theorem tells_attach (hg : m.Graced) (ch c : String) : Tells m (m.attach ch c) := by
  have hadded : TellsBut [ch] m (m.addAttached ch c) := by
    refine .silent rfl fun ch' c' hnot hc => ⟨rfl, ?_⟩
    rcases (isAttached_addAttached m ch c ch' c').mp hc with ⟨rfl, -⟩ | hold
    · exact absurd mem_cons_self hnot
    · exact hold
  have hgood : ∀ ch' ∈ [ch], ch' = ch ∨ ch' ∈ ([] : List String) :=
    fun ch' hmem => .inl (mem_singleton.mp hmem)
  unfold attach
  dsimp only
  split
  · next r hr =>
    split
    · exact hadded.announces (announces_take _ ch c) hgood
    · exact tells_newcomer (Prod.ext (hg.holder ch r hr) (congrArg isSome hr))
  · next hres =>
    split
    · exact hadded.announces (announces_handTo hres c) hgood
    · next holder hholder =>
      refine tells_newcomer (Prod.ext hholder ?_)
      show (m.reservations.get ch).isSome = false
      exact congrArg isSome hres

theorem foldl_handOnFreed_tells (window : Option ClientWindow)
    (hl : late.Nodup) (h : TellsBut late m m')
    (hfree : ∀ ch ∈ late, m'.holders.get ch = none ∧ m'.reservations.get ch = none) :
    Tells m (late.foldl (handOnFreed window) m') := by
  induction late generalizing m' with
  | nil => exact h
  | cons ch late ih =>
    obtain ⟨hch, hl⟩ := nodup_cons.mp hl
    obtain ⟨⟨hholder, hres⟩, hfree⟩ := forall_mem_cons.mp hfree
    refine ih hl (h.announces (announces_handOnFreed hres hholder window) ?_) ?_
    · exact fun ch' hmem => mem_cons.mp hmem
    · exact free_handOnFreed window hch hfree

theorem tells_onClientDisconnect (hg : m.Graced) (c : String) :
    Tells m (m.onClientDisconnect c) := by
  refine foldl_handOnFreed_tells _ ?_ (.silent rfl fun ch c' hnot hc' => ⟨?_, ?_⟩)
    (hg.free_forgetClient c)
  · exact m.holders.nodup_keys.sublist (filter_sublist.map Prod.fst)
  · refine Prod.ext ?_ rfl
    show ((m.heldBy c).foldl delete m.holders).get ch = _
    rw [get_foldl_delete, if_neg hnot]
    rfl
  · exact ((isAttached_forgetClient m c ch c').mp hc').1

theorem tells_detach (hg : m.Graced) (ch c : String) : Tells m (m.detach ch c) := by
  have hreservations : (m.removeAttached ch c).reservations = m.reservations := by
    unfold removeAttached
    split <;> rfl
  have hremoved : Tells m (m.removeAttached ch c) := by
    refine .silent ?_ fun ch' c' _ hc' => ⟨?_, ?_⟩
    · unfold removeAttached
      split <;> rfl
    · rw [lockState, lockState, removeAttached_holders, hreservations]
    · exact ((isAttached_removeAttached m ch c ch' c').mp hc').1
  unfold detach
  dsimp only
  split
  · next hholder =>
    rw [removeAttached_holders] at hholder
    have hres : (m.removeAttached ch c).reservations.get ch = none := by
      rw [hreservations]
      exact hg.unreserved_of_holder hholder
    exact hremoved.announces ((announces_free hres).grantToSole hres) nofun
  · exact hremoved

theorem tells_timerFired (hg : m.Graced) (t : ℕ) : Tells m (m.timerFired t) := by
  unfold timerFired
  split
  · exact .refl m
  · next ch ht =>
    obtain ⟨r, hr, rfl⟩ := hg.reserved t ch ht
    have hended : Announces ch m ({ m with
        timers := m.timers.delete r.timer
        reservations := m.reservations.delete ch }.broadcastLock ch none false) := by
      refine .broadcastLock rfl rfl (fun ch' hne => ?_) (Prod.ext (hg.holder ch r hr) ?_)
      · exact Prod.ext rfl (congrArg isSome (get_delete_of_ne m.reservations hne))
      · exact congrArg isSome (get_delete_self m.reservations ch)
    exact (hended.grantToSole (get_delete_self m.reservations ch)).tells

/-- **Every operation tells what it changed.** -/
theorem tells_perform (hg : m.Graced) (op : Op) : Tells m (m.perform op) := by
  cases op with
  | identify => exact .silent rfl fun _ _ _ hc => ⟨rfl, hc⟩
  | attach ch c => exact tells_attach hg ch c
  | detach ch c => exact tells_detach hg ch c
  | claim ch c =>
    show Tells m (m.claim ch c)
    unfold claim
    split
    · exact (announces_take m ch c).tells
    · split
      · exact .refl m
      · split
        · exact .refl m
        · exact (Tells.refl m).emit trivial fun _ _ => rfl
  | grant ch c c' =>
    show Tells m (m.grant ch c c')
    unfold grant
    split
    · next hholder => exact (announces_handTo (hg.unreserved_of_holder hholder) c').tells
    · exact .refl m
  | deny ch c c' =>
    show Tells m (m.deny ch c c')
    unfold deny
    split
    · exact (Tells.refl m).emit trivial fun _ _ => rfl
    · exact .refl m
  | force ch c =>
    show Tells m (m.force ch c)
    unfold force
    split
    · exact (announces_take m ch c).tells
    · split
      · next current _ _ =>
        have hrevoked : Tells m (m.emit (.sendToClient current (.writeRevoked ch))) :=
          (Tells.refl m).emit trivial fun _ _ => rfl
        have htold : Tells m ((m.emit (.sendToClient current (.writeRevoked ch))).emit
            (.onForce ch c current)) := hrevoked.emit trivial fun _ _ => rfl
        exact htold.announces (announces_take _ ch c) nofun
      · exact (announces_take m ch c).tells
  | release ch c =>
    show Tells m (m.release ch c)
    unfold release
    split
    · next hholder => exact (announces_free (hg.unreserved_of_holder hholder)).tells
    · exact .refl m
  | disconnect c => exact tells_onClientDisconnect hg c
  | timer t => exact tells_timerFired hg t
  | removeChannel ch =>
    refine .silent ?_ ?_
    · show (m.endReservation ch).effects = m.effects
      unfold endReservation
      split <;> rfl
    · rintro ch' c - ⟨clients, hclients, hc⟩
      have hget : (m.attached.delete ch).get ch' = some clients := by
        rw [← endReservation_attached m ch]
        exact hclients
      rw [get_delete] at hget
      split at hget
      · cases hget
      · next hne =>
        refine ⟨Prod.ext ?_ ?_, clients, hget, hc⟩
        · show ((m.endReservation ch).holders.delete ch).get ch' = _
          rw [endReservation_holders, get_delete_of_ne _ hne]
          rfl
        · show ((m.endReservation ch).reservations.get ch').isSome = _
          rw [endReservation_reservations, if_neg hne]
          rfl
  | shutdown =>
    refine .silent rfl ?_
    rintro ch c - ⟨clients, hclients, -⟩
    cases hclients

theorem isAttached_of_perform {op : Op} (h : (m.perform op).IsAttached ch c) :
    m.IsAttached ch c ∨ op = .attach ch c := by
  have hsame : ∀ m' : WriteLockManager, m'.attached = m.attached → m'.IsAttached ch c →
      m.IsAttached ch c ∨ op = .attach ch c :=
    fun m' heq hc => .inl ((isAttached_congr heq ch c).mp hc)
  cases op with
  | identify => exact hsame _ rfl h
  | attach ch' c' =>
    have hc := (isAttached_congr (attach_handsOn m ch' c').attached_eq ch c).mp h
    rcases (isAttached_addAttached m ch' c' ch c).mp hc with ⟨rfl, rfl⟩ | hold
    · exact .inr rfl
    · exact .inl hold
  | detach ch' c' =>
    have hc := (isAttached_congr (detach_handsOn m ch' c').attached_eq ch c).mp h
    exact .inl ((isAttached_removeAttached m ch' c' ch c).mp hc).1
  | claim ch' c' =>
    refine hsame (m.claim ch' c') ?_ h
    unfold claim
    split
    · exact endReservation_attached m ch'
    · split
      · rfl
      · split <;> rfl
  | grant ch' c' c'' =>
    refine hsame (m.grant ch' c' c'') ?_ h
    unfold grant
    split <;> rfl
  | deny ch' c' c'' => exact hsame _ (deny_handsOn m ch' c' c'').attached_eq h
  | force ch' c' =>
    refine hsame (m.force ch' c') ?_ h
    unfold force
    split
    · exact endReservation_attached m ch'
    · split
      · exact endReservation_attached _ ch'
      · exact endReservation_attached m ch'
  | release ch' c' => exact hsame _ (release_handsOn m ch' c').attached_eq h
  | disconnect c' =>
    have hc := (isAttached_congr (onClientDisconnect_handsOn m c').attached_eq ch c).mp h
    exact .inl ((isAttached_forgetClient m c' ch c).mp hc).1
  | timer t => exact hsame _ (timerFired_handsOn m t).attached_eq h
  | removeChannel ch' =>
    obtain ⟨clients, hclients, hc⟩ := h
    have hget : (m.attached.delete ch').get ch = some clients := by
      rw [← endReservation_attached m ch']
      exact hclients
    rw [get_delete] at hget
    split at hget
    · cases hget
    · exact .inl ⟨clients, hget, hc⟩
  | shutdown =>
    obtain ⟨clients, hclients, -⟩ := h
    cases hclients

end WriteLockManager

/-! ### The session, the routes and what was sent -/

/-- `getClientsForChannel`. -/
def SessionContext.getClientsForChannel (s : SessionContext) (channelId : String) : List String :=
  (s.clientsOf channelId).filter fun c => (s.clients.get c).isSome

/-- The state of the channel's lock a message tells of. -/
def LockMessage.lockOf (channelId : String) : LockMessage → Option (Option String × Bool)
  | .writeLock ch holder reserved => if ch = channelId then some (holder, reserved) else none
  | _ => none

/-- The last `WRITE_LOCK` for the channel among messages, oldest first. -/
def lastLock (channelId : String) (messages : List LockMessage) : Option (Option String × Bool) :=
  (messages.filterMap (LockMessage.lockOf channelId)).getLast?

/-- The WebSocket routes over the session. -/
structure Wired where
  sockets : Sockets
  sessions : SessionContext
  /-- What each client was sent of the locks, oldest first. -/
  inbox : String → List LockMessage

namespace Wired

/-- Nobody is connected. -/
def init : Wired := ⟨.init, .init, fun _ => []⟩

/-- What a call of the manager sends the client: by the send registry, or as one of those the
session has for the channel. -/
def messageTo (connected : OrderedSet String) (sessions : SessionContext) (clientId : String) :
    Effect → Option LockMessage
  | .sendToClient c msg => if c = clientId ∧ clientId ∈ connected then some msg else none
  | .broadcastToChannel ch msg =>
    if clientId ∈ sessions.getClientsForChannel ch then some msg else none
  | .onForce _ _ _ | .onChange _ => none

/-- The routes went on to `sockets`: what the manager called meanwhile is sent. -/
def relay (s : Wired) (sockets : Sockets) : Wired :=
  let es := sockets.locks.effects.drop s.sockets.locks.effects.length
  { s with
    sockets
    inbox := fun c => s.inbox c ++ es.filterMap (messageTo sockets.connected s.sessions c) }

/-- What an event of a socket is to the session, after the manager's part. -/
def follow (s : Wired) : Sockets.Event → Wired
  | .connect c _ => { s with sessions := s.sessions.addClient c }
  | .message c (.attach ch) =>
    if isValidUlid ch then { s with sessions := s.sessions.attach c ch } else s
  | .message c (.detach ch) =>
    if isValidUlid ch then { s with sessions := s.sessions.detachClient c ch } else s
  | .disconnect c => { s with sessions := s.sessions.removeClient c }
  | _ => s

/-- What the session does beside the sockets. -/
def sessionAlone : SessionContext.Step → Bool
  | .addClient _ | .removeClient _ | .attach _ _ | .detach _ _ => false
  | _ => true

/-- What can happen. -/
inductive Event
  | socket (e : Sockets.Event)
  | session (step : SessionContext.Step)

/-- The hub after an event. -/
def next (s : Wired) : Event → Option Wired
  | .socket e => (s.sockets.step e).map fun sockets => (s.relay sockets).follow e
  | .session step =>
    if sessionAlone step then
      (s.sessions.next step).map fun sessions => { s with sessions }
    else none

/-- Every client the manager has attached to a channel, and that is still there, is one the
session has for it. -/
def Covers (s : Wired) : Prop :=
  ∀ ch c, s.sockets.locks.IsAttached ch c → c ∈ s.sockets.connected →
    c ∈ s.sessions.getClientsForChannel ch

theorem covers_iff (s : Wired) : s.Covers ↔
    ∀ e ∈ s.sockets.locks.attached.entries, ∀ c ∈ e.2.elems, c ∈ s.sockets.connected →
      c ∈ s.sessions.getClientsForChannel e.1 := by
  constructor
  · intro h e he c hc
    exact h e.1 c ⟨e.2, (get_eq_some_iff _ _ _).mpr he, hc⟩
  · rintro h ch c ⟨clients, hclients, hc⟩
    exact h (ch, clients) ((get_eq_some_iff _ _ _).mp hclients) c hc

instance (s : Wired) : Decidable s.Covers := decidable_of_iff' _ s.covers_iff

/-- A broadcast reaches every client the manager has, one whose attach is answered now
among them. -/
def Reaches (s : Wired) : Event → Prop
  | .session _ => True
  | .socket (.answered i (some ch)) =>
    s.Covers ∧ ∀ p ∈ s.sockets.pending[i]?, p.1 ∈ s.sockets.connected →
      p.1 ∈ s.sessions.getClientsForChannel ch
  | .socket _ => s.Covers

instance (s : Wired) : ∀ e, Decidable (s.Reaches e)
  | .session _ => .isTrue trivial
  | .socket (.answered i (some ch)) =>
    inferInstanceAs (Decidable (s.Covers ∧ ∀ p ∈ s.sockets.pending[i]?, p.1 ∈ s.sockets.connected →
      p.1 ∈ s.sessions.getClientsForChannel ch))
  | .socket (.answered _ none) | .socket (.connect _ _) | .socket (.message _ _)
  | .socket (.disconnect _) | .socket (.timer _) | .socket (.removeChannel _)
  | .socket .shutdown => inferInstanceAs (Decidable s.Covers)

/-! ### What is relayed -/

variable {s s' : Wired} {ch c : String}

theorem messageTo_lockOf {connected : OrderedSet String} {sessions : SessionContext}
    (he : WriteLockManager.Addressed e) (hconnected : c ∈ connected)
    (hclient : c ∈ sessions.getClientsForChannel ch) :
    (messageTo connected sessions c e).bind (LockMessage.lockOf ch) =
      WriteLockManager.heardOf ch c e := by
  cases e with
  | broadcastToChannel ch' msg =>
    cases msg with
    | writeLock ch'' holder reserved =>
      obtain rfl : ch' = ch'' := he
      unfold messageTo WriteLockManager.heardOf
      by_cases hch : ch' = ch
      · subst hch
        simp [hclient, LockMessage.lockOf]
      · by_cases hmem : c ∈ sessions.getClientsForChannel ch'
        · simp [hmem, hch, LockMessage.lockOf]
        · simp [hmem, hch]
    | _ =>
      simp only [messageTo]
      split <;> rfl
  | sendToClient c' msg =>
    cases msg with
    | writeLock ch' holder reserved =>
      unfold messageTo WriteLockManager.heardOf
      by_cases hc : c' = c
      · simp [hc, hconnected, LockMessage.lockOf]
      · simp [hc]
    | _ =>
      simp only [messageTo]
      split <;> rfl
  | _ => rfl

variable {k : Sockets}

theorem lastLock_relay {es : List Effect} (heq : k.locks.effects = s.sockets.locks.effects ++ es)
    (haddressed : ∀ e ∈ es, WriteLockManager.Addressed e) (hconnected : c ∈ k.connected)
    (hclient : c ∈ s.sessions.getClientsForChannel ch) :
    lastLock ch ((s.relay k).inbox c) =
      (WriteLockManager.heard ch c es).getLast?.or (lastLock ch (s.inbox c)) := by
  have hdrop : k.locks.effects.drop s.sockets.locks.effects.length = es := by
    rw [heq, drop_left]
  have hheard : (es.filterMap (messageTo k.connected s.sessions c)).filterMap
      (LockMessage.lockOf ch) = WriteLockManager.heard ch c es := by
    rw [filterMap_filterMap]
    refine filterMap_congr fun e he => ?_
    exact messageTo_lockOf (haddressed e he) hconnected hclient
  unfold relay lastLock
  rw [hdrop, filterMap_append, hheard, getLast?_append]

/-- What holds along every run. -/
structure Views (s : Wired) : Prop where
  graced : s.sockets.locks.Graced
  known : ∀ ch c, s.sockets.locks.IsAttached ch c → c ∈ s.sockets.generated
  connected : ∀ c ∈ s.sockets.connected, c ∈ s.sockets.generated
  pending : ∀ p ∈ s.sockets.pending, p.1 ∈ s.sockets.generated
  view : ∀ ch c, s.sockets.locks.IsAttached ch c → c ∈ s.sockets.connected →
    lastLock ch (s.inbox c) = some (s.sockets.locks.lockState ch)

theorem views_init : init.Views where
  graced := WriteLockManager.graced_new
  known _ _ h := by
    obtain ⟨_, hclients, -⟩ := h
    cases hclients
  connected _ h := nomatch h
  pending _ h := nomatch h
  view _ _ h := by
    obtain ⟨_, hclients, -⟩ := h
    cases hclients

theorem Views.view_relay (h : s.Views) (htells : WriteLockManager.Tells s.sockets.locks k.locks)
    (hold : ∀ ch c, s.sockets.locks.IsAttached ch c → c ∈ k.connected → c ∈ s.sockets.connected)
    (hcovers : ∀ ch c, k.locks.IsAttached ch c → c ∈ k.connected →
      c ∈ s.sessions.getClientsForChannel ch) :
    ∀ ch c, k.locks.IsAttached ch c → c ∈ k.connected →
      lastLock ch ((s.relay k).inbox c) = some (k.locks.lockState ch) := by
  intro ch c hc hconnected
  obtain ⟨es, heq, haddressed, htold⟩ := htells
  rw [lastLock_relay heq haddressed hconnected (hcovers ch c hc hconnected)]
  rcases htold ch c not_mem_nil hc with hlast | ⟨hnone, hstate, hbefore⟩
  · rw [hlast]
    rfl
  · rw [hnone, hstate]
    exact h.view ch c hbefore (hold ch c hbefore hconnected)

/-- What an event of a socket is to the manager: nothing, an operation, or a refusal. -/
inductive Asks (k : Sockets) (e : Sockets.Event) : WriteLockManager → Prop
  | nothing : Asks k e k.locks
  | refused (c code message : String) :
      Asks k e (k.locks.emit (.sendToClient c (.error code message)))
  | op (op : WriteLockManager.Op)
      (h : ∀ ch c, op = .attach ch c →
        ∃ i asked, e = .answered i (some ch) ∧ k.pending[i]? = some (c, asked)) :
      Asks k e (k.locks.perform op)

theorem asks_onChannel {e : Sockets.Event} (c ch : String)
    {f : WriteLockManager → WriteLockManager} (op : WriteLockManager.Op)
    (hf : f k.locks = k.locks.perform op) (hop : ∀ ch c, op ≠ .attach ch c) :
    Asks k e (k.onChannel c ch f).locks := by
  unfold Sockets.onChannel
  split
  · show Asks k e (f k.locks)
    rw [hf]
    exact .op op fun ch c hattach => absurd hattach (hop ch c)
  · exact .refused _ _ _

variable {k' : Sockets}

theorem asks_of_step {e : Sockets.Event} (h : k.step e = some k') : Asks k e k'.locks := by
  cases e with
  | connect c window =>
    obtain ⟨-, ⟨rfl⟩⟩ := ite_none_left_eq_some.mp h
    cases window with
    | none => exact .nothing
    | some w => exact .op (.identify c w) nofun
  | message c msg =>
    obtain ⟨-, ⟨rfl⟩⟩ := ite_none_right_eq_some.mp h
    cases msg with
    | spawn => exact .nothing
    | attach ch =>
      show Asks k _ (k.handleAttach c ch).locks
      unfold Sockets.handleAttach Sockets.onChannel
      split
      · exact .nothing
      · exact .refused _ _ _
    | detach ch => exact asks_onChannel c ch (.detach ch c) rfl nofun
    | writeClaim ch => exact asks_onChannel c ch (.claim ch c) rfl nofun
    | writeRelease ch => exact asks_onChannel c ch (.release ch c) rfl nofun
    | writeForce ch => exact asks_onChannel c ch (.force ch c) rfl nofun
    | writeGrant ch toClient => exact asks_onChannel c ch (.grant ch c toClient) rfl nofun
    | writeDeny ch toClient => exact asks_onChannel c ch (.deny ch c toClient) rfl nofun
  | answered i ch =>
    have h : k.handleAnswered i ch = some k' := h
    unfold Sockets.handleAnswered at h
    split at h
    · cases h
    · next c asked hp =>
      cases ch with
      | none =>
        cases h
        exact .nothing
      | some ch =>
        obtain ⟨-, ⟨rfl⟩⟩ := ite_none_right_eq_some.mp h
        refine .op (.attach ch c) ?_
        rintro _ _ ⟨rfl, rfl⟩
        exact ⟨i, asked, rfl, hp⟩
  | disconnect c =>
    obtain ⟨-, ⟨rfl⟩⟩ := ite_none_right_eq_some.mp h
    exact .op (.disconnect c) nofun
  | timer t =>
    cases h
    exact .op (.timer t) nofun
  | removeChannel ch =>
    cases h
    exact .op (.removeChannel ch) nofun
  | shutdown =>
    cases h
    exact .op .shutdown nofun

/-- Which clients there are: one comes by an event of its own, under an id no other had. -/
structure Comes (k k' : Sockets) : Prop where
  connected : ∀ c ∈ k'.connected, c ∈ k.connected ∨ c ∉ k.generated
  generated : ∀ c ∈ k.generated, c ∈ k'.generated
  known : (∀ c ∈ k.connected, c ∈ k.generated) → ∀ c ∈ k'.connected, c ∈ k'.generated
  pending : ∀ p ∈ k'.pending, p ∈ k.pending ∨ p.1 ∈ k.connected

theorem Comes.of_same (hc : ∀ c ∈ k'.connected, c ∈ k.connected)
    (hg : k'.generated = k.generated) (hp : ∀ p ∈ k'.pending, p ∈ k.pending ∨ p.1 ∈ k.connected) :
    Comes k k' where
  connected c h := .inl (hc c h)
  generated _ h := hg ▸ h
  known h c hmem := hg ▸ h c (hc c hmem)
  pending := hp

theorem comes_onChannel (c ch : String) (f : WriteLockManager → WriteLockManager) :
    Comes k (k.onChannel c ch f) := by
  unfold Sockets.onChannel
  split <;> exact .of_same (fun _ h => h) rfl fun _ h => .inl h

theorem comes_of_step {e : Sockets.Event} (h : k.step e = some k') : Comes k k' := by
  cases e with
  | connect c window =>
    obtain ⟨hnew, ⟨rfl⟩⟩ := ite_none_left_eq_some.mp h
    refine ⟨fun c' hc' => ?_, fun _ => mem_cons_of_mem c, fun hknown c' hc' => ?_,
      fun _ hp => .inl hp⟩
    · rcases (OrderedSet.mem_add _ _ _).mp hc' with rfl | hc'
      · exact .inr hnew
      · exact .inl hc'
    · rcases (OrderedSet.mem_add _ _ _).mp hc' with rfl | hc'
      · exact mem_cons_self
      · exact mem_cons_of_mem c (hknown c' hc')
  | message c msg =>
    obtain ⟨hc, ⟨rfl⟩⟩ := ite_none_right_eq_some.mp h
    -- A `SPAWN` or an `ATTACH` waits, for the client that sent it.
    have hwaits : ∀ asked, ∀ p ∈ k.pending ++ [(c, asked)], p ∈ k.pending ∨ p.1 ∈ k.connected := by
      intro asked p hp
      rcases mem_append.mp hp with hp | hp
      · exact .inl hp
      · rw [mem_singleton.mp hp]
        exact .inr hc
    cases msg with
    | spawn => exact .of_same (fun _ h => h) rfl (hwaits none)
    | attach ch =>
      show Comes k (k.handleAttach c ch)
      unfold Sockets.handleAttach
      split
      · exact .of_same (fun _ h => h) rfl (hwaits (some ch))
      · exact comes_onChannel c ch id
    | detach ch => exact comes_onChannel c ch (·.detach ch c)
    | writeClaim ch => exact comes_onChannel c ch (·.claim ch c)
    | writeRelease ch => exact comes_onChannel c ch (·.release ch c)
    | writeForce ch => exact comes_onChannel c ch (·.force ch c)
    | writeGrant ch toClient => exact comes_onChannel c ch (·.grant ch c toClient)
    | writeDeny ch toClient => exact comes_onChannel c ch (·.deny ch c toClient)
  | answered i ch =>
    have h : k.handleAnswered i ch = some k' := h
    unfold Sockets.handleAnswered at h
    split at h
    · cases h
    · cases ch with
      | none =>
        cases h
        exact .of_same (fun _ h => h) rfl fun _ hp => .inl (mem_of_mem_eraseIdx hp)
      | some ch =>
        obtain ⟨-, ⟨rfl⟩⟩ := ite_none_right_eq_some.mp h
        exact .of_same (fun _ h => h) rfl fun _ hp => .inl (mem_of_mem_eraseIdx hp)
  | disconnect c =>
    obtain ⟨-, ⟨rfl⟩⟩ := ite_none_right_eq_some.mp h
    exact .of_same (fun _ hc => ((OrderedSet.mem_delete _ _ _).mp hc).1) rfl fun _ hp => .inl hp
  | timer | removeChannel | shutdown =>
    cases h
    exact .of_same (fun _ h => h) rfl fun _ hp => .inl hp

theorem follow_fields (s : Wired) (e : Sockets.Event) :
    (s.follow e).sockets = s.sockets ∧ (s.follow e).inbox = s.inbox := by
  unfold follow
  split
  · exact ⟨rfl, rfl⟩
  · split <;> exact ⟨rfl, rfl⟩
  · split <;> exact ⟨rfl, rfl⟩
  · exact ⟨rfl, rfl⟩
  · exact ⟨rfl, rfl⟩

theorem Views.socket (h : s.Views) {e : Sockets.Event}
    (hok : s.Reaches (.socket e)) (hk : s.sockets.step e = some k) : (s.relay k).Views := by
  have hcomes := comes_of_step hk
  have hcovers : s.Covers := by
    cases e with
    | answered i ch =>
      cases ch with
      | none => exact hok
      | some ch => exact hok.1
    | _ => exact hok
  have hold : ∀ ch c, s.sockets.locks.IsAttached ch c → c ∈ k.connected → c ∈ s.sockets.connected :=
    fun ch c hc hconnected =>
      (hcomes.connected c hconnected).resolve_right fun hnew => hnew (h.known ch c hc)
  -- What the manager made of it: it told what changed, and to whom it has the session goes.
  have hmanager : k.locks.Graced ∧ WriteLockManager.Tells s.sockets.locks k.locks ∧
      ∀ ch c, k.locks.IsAttached ch c → s.sockets.locks.IsAttached ch c ∨
        ∃ i asked, e = .answered i (some ch) ∧ s.sockets.pending[i]? = some (c, asked) := by
    have hasks := asks_of_step hk
    generalize k.locks = m at hasks
    cases hasks with
    | nothing => exact ⟨h.graced, .refl _, fun _ _ hc => .inl hc⟩
    | refused c code message =>
      exact ⟨h.graced.congr rfl rfl rfl fun _ hnone => hnone,
        (WriteLockManager.Tells.refl _).emit trivial fun _ _ => rfl, fun _ _ hc => .inl hc⟩
    | op op hattach =>
      refine ⟨h.graced.perform op, WriteLockManager.tells_perform h.graced op, fun ch c hc => ?_⟩
      exact (WriteLockManager.isAttached_of_perform hc).imp_right fun hop => hattach ch c hop
  obtain ⟨hgraced, htells, hattached⟩ := hmanager
  exact
    { graced := hgraced
      known := fun ch c hc => by
        rcases hattached ch c hc with hbefore | ⟨i, asked, -, hp⟩
        · exact hcomes.generated c (h.known ch c hbefore)
        · exact hcomes.generated c (h.pending (c, asked) (mem_of_getElem? hp))
      connected := hcomes.known h.connected
      pending := fun p hp => by
        rcases hcomes.pending p hp with hbefore | hc
        · exact hcomes.generated _ (h.pending p hbefore)
        · exact hcomes.generated _ (h.connected _ hc)
      view := h.view_relay htells hold fun ch c hc hconnected => by
        rcases hattached ch c hc with hbefore | ⟨i, asked, rfl, hp⟩
        · exact hcovers ch c hbefore (hold ch c hbefore hconnected)
        · refine hok.2 (c, asked) hp ?_
          refine (hcomes.connected c hconnected).resolve_right fun hnew => hnew ?_
          exact h.pending (c, asked) (mem_of_getElem? hp) }

theorem Views.next (h : s.Views) {e : Event} (hok : s.Reaches e) (hn : next s e = some s') :
    s'.Views := by
  cases e with
  | socket e =>
    obtain ⟨k, hk, rfl⟩ := map_eq_some_iff.mp hn
    have hviews := h.socket hok hk
    obtain ⟨hsockets, hinbox⟩ := follow_fields (s.relay k) e
    refine ⟨?_, ?_, ?_, ?_, ?_⟩
    · exact hsockets ▸ hviews.graced
    · exact hsockets ▸ hviews.known
    · exact hsockets ▸ hviews.connected
    · exact hsockets ▸ hviews.pending
    · rw [hsockets, hinbox]
      exact hviews.view
  | session step =>
    obtain ⟨-, hn⟩ := ite_none_right_eq_some.mp hn
    obtain ⟨sessions, -, rfl⟩ := map_eq_some_iff.mp hn
    exact ⟨h.graced, h.known, h.connected, h.pending, h.view⟩

/-- **The last state a client was sent is the lock's**: for every client that is there and that
the manager has attached to the channel, in every run whose broadcasts reach whom the manager
has. -/
theorem view_agrees_of_reaches (h : Run next Reaches init s) (channelId clientId : String)
    (hattached : s.sockets.locks.IsAttached channelId clientId)
    (hconnected : clientId ∈ s.sockets.connected) :
    lastLock channelId (s.inbox clientId) =
      some (s.sockets.locks.lockState channelId) := by
  have hviews : s.Views := h.invariant views_init fun _ _ _ hs hok hn => hs.next hok hn
  exact hviews.view channelId clientId hattached hconnected

/-- Two clients come, one starts a terminal and the other attaches to it. -/
def twoAttached (channelId : String) : List Event :=
  [.socket (.connect "a" none), .socket (.connect "b" none), .socket (.message "a" .spawn),
    .session (.spawnOk "a" channelId "host"), .socket (.answered 0 (some channelId)),
    .socket (.message "b" (.attach channelId)), .socket (.answered 0 (some channelId))]

/-- The one that holds the lock lets it go, and the other is told. -/
theorem view_agrees_after_release : ∃ s, Run next Reaches init s ∧
    lastLock "01ABCDEFGH01ABCDEFGH01ABCD" (s.inbox "b") = some (none, false) := by
  have hrun : Run next Reaches init _ := .get (twoAttached "01ABCDEFGH01ABCDEFGH01ABCD" ++
    [.socket (.message "a" (.writeRelease "01ABCDEFGH01ABCDEFGH01ABCD"))]) (by decide +kernel)
    (by decide +kernel)
  refine ⟨_, hrun, ?_⟩
  rw [view_agrees_of_reaches hrun _ _ (by decide +kernel) (by decide +kernel)]
  decide +kernel

/-- The terminal ends and is brought back by the client that holds its lock.  The other, which
the manager still has, is not told when the lock is let go of. -/
theorem view_left_behind : ¬∀ s, Run next free init s → ∀ channelId clientId,
    s.sockets.locks.IsAttached channelId clientId → clientId ∈ s.sockets.connected →
      lastLock channelId (s.inbox clientId) = some (s.sockets.locks.lockState channelId) := by
  intro h
  have hrun : Run next free init _ := .get_free (twoAttached "01ABCDEFGH01ABCDEFGH01ABCD" ++
    [.session (.forgetChannel "01ABCDEFGH01ABCDEFGH01ABCD"), .socket (.message "a" .spawn),
      .session (.spawnOk "a" "01ABCDEFGH01ABCDEFGH01ABCD" "host"),
      .socket (.answered 0 (some "01ABCDEFGH01ABCDEFGH01ABCD")),
      .socket (.message "a" (.writeRelease "01ABCDEFGH01ABCDEFGH01ABCD"))]) (by decide +kernel)
  exact absurd (h _ hrun "01ABCDEFGH01ABCDEFGH01ABCD" "b" (by decide +kernel) (by decide +kernel))
    (by decide +kernel)

end Wired

end Lasterm.Hub
