import Lasterm.Hub.WriteLock
import Lasterm.Lib.Run

/-!
# The grace of a write lock

A lock kept for a holder that left is three pieces of state: the reservation, the timer that
ends it, and that nobody holds the lock.  Every operation of the manager edits some of them,
in whatever order operations and timers come.

## Main results

* `reservation_consistent` — the three agree, in every state reached.
-/

namespace Lasterm.Hub

open Transition OrderedMap Option List

namespace WriteLockManager

/-- What is asked of the manager, or of a timer it set. -/
inductive Op
  | identify (clientId : String) (window : ClientWindow)
  | attach (channelId clientId : String)
  | detach (channelId clientId : String)
  | claim (channelId clientId : String)
  | grant (channelId fromClientId toClientId : String)
  | deny (channelId fromClientId toClientId : String)
  | force (channelId clientId : String)
  | release (channelId clientId : String)
  | disconnect (clientId : String)
  | timer (timer : ℕ)
  | removeChannel (channelId : String)
  | shutdown

/-- The manager after an operation. -/
def perform (m : WriteLockManager) : Op → WriteLockManager
  | .identify clientId window => m.identify clientId window
  | .attach channelId clientId => m.attach channelId clientId
  | .detach channelId clientId => m.detach channelId clientId
  | .claim channelId clientId => m.claim channelId clientId
  | .grant channelId fromClientId toClientId => m.grant channelId fromClientId toClientId
  | .deny channelId fromClientId toClientId => m.deny channelId fromClientId toClientId
  | .force channelId clientId => m.force channelId clientId
  | .release channelId clientId => m.release channelId clientId
  | .disconnect clientId => m.onClientDisconnect clientId
  | .timer timer => m.timerFired timer
  | .removeChannel channelId => m.removeChannel channelId
  | .shutdown => m.shutdown

/-- One operation: none is refused. -/
def step (m : WriteLockManager) (op : Op) : Option WriteLockManager := some (m.perform op)

/-- The operation ends the channel's reservation: an attach by the window it is kept for, a
claim or a force, its timer, or the end of the channel or of the hub. -/
def Ends (m : WriteLockManager) (channelId : String) (r : Reservation) : Op → Prop
  | .attach ch c => ch = channelId ∧ m.windows.get c = some r.window
  | .claim ch _ | .force ch _ | .removeChannel ch => ch = channelId
  | .timer t => t = r.timer
  | .shutdown => True
  | .identify _ _ | .detach _ _ | .grant _ _ _ | .deny _ _ _ | .release _ _ | .disconnect _ => False

/-- Reservation, holder and timer agree. -/
structure Graced (m : WriteLockManager) : Prop where
  holder : ∀ ch r, m.reservations.get ch = some r → m.holders.get ch = none
  timer : ∀ ch r, m.reservations.get ch = some r → m.timers.get r.timer = some ch
  reserved : ∀ t ch, m.timers.get t = some ch → ∃ r, m.reservations.get ch = some r ∧ r.timer = t
  fresh : ∀ t ch, m.timers.get t = some ch → t < m.nextTimer

/-! ### Each edit -/

variable {m m' : WriteLockManager} {ch c : String} {r : Reservation}

theorem graced_new : new.Graced where
  holder _ _ h := nomatch h
  timer _ _ h := nomatch h
  reserved _ _ h := nomatch h
  fresh _ _ h := nomatch h

namespace Graced

theorem congr (h : m.Graced) (hr : m'.reservations = m.reservations) (ht : m'.timers = m.timers)
    (hn : m'.nextTimer = m.nextTimer)
    (hh : ∀ ch, m.holders.get ch = none → m'.holders.get ch = none) : m'.Graced where
  holder ch r hres := hh ch (h.holder ch r (hr ▸ hres))
  timer ch r hres := ht ▸ h.timer ch r (hr ▸ hres)
  reserved t ch htimer := hr ▸ h.reserved t ch (ht ▸ htimer)
  fresh t ch htimer := hn ▸ h.fresh t ch (ht ▸ htimer)

theorem unreserved_of_holder (h : m.Graced) (hholder : m.holders.get ch = some c) :
    m.reservations.get ch = none := by
  cases hres : m.reservations.get ch with
  | none => rfl
  | some r => exact nomatch (h.holder ch r hres).symm.trans hholder

theorem handTo (h : m.Graced) (hres : m.reservations.get ch = none) : (m.handTo ch c).Graced where
  holder ch' r hr := by
    have hne : ch' ≠ ch := by
      rintro rfl
      exact nomatch hres.symm.trans hr
    rw [handTo_holders, get_set_of_ne _ hne]
    exact h.holder ch' r hr
  timer := h.timer
  reserved := h.reserved
  fresh := h.fresh

theorem free (h : m.Graced) (ch : String) : (m.free ch).Graced := by
  refine h.congr rfl rfl rfl fun ch' hnone => ?_
  rw [free_holders, get_delete]
  split
  · rfl
  · exact hnone

theorem broadcastLock (h : m.Graced) (holder : Option String) (reserved : Bool) :
    (m.broadcastLock ch holder reserved).Graced :=
  h.congr rfl rfl rfl fun _ hnone => hnone

end Graced

theorem endReservation_reservations (m : WriteLockManager) (ch ch' : String) :
    (m.endReservation ch).reservations.get ch' =
      if ch' = ch then none else m.reservations.get ch' := by
  unfold endReservation
  split
  · next hnone =>
    split
    · next heq => rw [heq, hnone]
    · rfl
  · exact get_delete ..

namespace Graced

theorem endReservation (h : m.Graced) (ch : String) : (m.endReservation ch).Graced := by
  unfold WriteLockManager.endReservation
  split
  · exact h
  · next r hr =>
    have hother : ∀ ch' r', ch' ≠ ch → m.reservations.get ch' = some r' → r'.timer ≠ r.timer := by
      intro ch' r' hne hr' heq
      have htimer := h.timer ch' r' hr'
      rw [heq, h.timer ch r hr] at htimer
      exact hne (some.inj htimer).symm
    exact
      { holder := fun ch' r' hr' => by
          rw [get_delete] at hr'
          split at hr'
          · cases hr'
          · exact h.holder ch' r' hr'
        timer := fun ch' r' hr' => by
          rw [get_delete] at hr'
          split at hr'
          · cases hr'
          · next hne =>
            rw [get_delete_of_ne _ (hother ch' r' hne hr')]
            exact h.timer ch' r' hr'
        reserved := fun t ch' ht => by
          rw [get_delete] at ht
          split at ht
          · cases ht
          · next hne =>
            obtain ⟨r', hr', rfl⟩ := h.reserved t ch' ht
            have hch : ch' ≠ ch := by
              rintro rfl
              exact hne (congrArg Reservation.timer (some.inj (hr'.symm.trans hr)))
            exact ⟨r', by rw [get_delete_of_ne _ hch, hr'], rfl⟩
        fresh := fun t ch' ht => by
          rw [get_delete] at ht
          split at ht
          · cases ht
          · exact h.fresh t ch' ht }

theorem take (h : m.Graced) (ch c : String) : ((m.endReservation ch).handTo ch c).Graced :=
  (h.endReservation ch).handTo (by rw [endReservation_reservations, if_pos rfl])

theorem grantToSoleAttachedClient (h : m.Graced) (hres : m.reservations.get ch = none) :
    (m.grantToSoleAttachedClient ch).Graced := by
  unfold WriteLockManager.grantToSoleAttachedClient
  split
  · exact h
  · split
    · exact h
    · split
      · exact h.handTo hres
      · exact h

theorem keepFor (h : m.Graced) (hres : m.reservations.get ch = none)
    (hholder : m.holders.get ch = none) (window : ClientWindow) : (m.keepFor ch window).Graced := by
  unfold WriteLockManager.keepFor
  dsimp only
  split
  · exact h.handTo hres
  · -- No live timer has the number of the one that is set.
    have hnew : ∀ t ch', m.timers.get t = some ch' → t ≠ m.nextTimer := by
      intro t ch' ht heq
      have := h.fresh t ch' ht
      omega
    refine broadcastLock ⟨?_, ?_, ?_, ?_⟩ none true
    · intro ch' r' hr'
      rw [get_set] at hr'
      split at hr'
      · next heq => exact heq ▸ hholder
      · exact h.holder ch' r' hr'
    · intro ch' r' hr'
      rw [get_set] at hr'
      split at hr'
      · next heq =>
        cases hr'
        rw [get_set_self, heq]
      · have htimer := h.timer ch' r' hr'
        rw [get_set_of_ne _ (hnew r'.timer ch' htimer), htimer]
    · intro t ch' ht
      rw [get_set] at ht
      split at ht
      · next heq =>
        cases ht
        exact ⟨_, get_set_self .., heq.symm⟩
      · obtain ⟨r', hr', hr'timer⟩ := h.reserved t ch' ht
        have hne : ch' ≠ ch := by
          rintro rfl
          exact nomatch hres.symm.trans hr'
        exact ⟨r', by rw [get_set_of_ne _ hne, hr'], hr'timer⟩
    · intro t ch' ht
      show t < m.nextTimer + 1
      rw [get_set] at ht
      split at ht
      · omega
      · have := h.fresh t ch' ht
        omega

end Graced

/-! ### What an edit leaves of another channel -/

@[simp] theorem grantToSoleAttachedClient_reservations (m : WriteLockManager) (ch : String) :
    (m.grantToSoleAttachedClient ch).reservations = m.reservations := by
  unfold grantToSoleAttachedClient
  split
  · rfl
  · split
    · rfl
    · split <;> rfl

theorem handOnFreed_of_ne (window : Option ClientWindow) (m : WriteLockManager) {ch ch' : String}
    (hne : ch' ≠ ch) :
    (handOnFreed window m ch).holders.get ch' = m.holders.get ch' ∧
      (handOnFreed window m ch).reservations.get ch' = m.reservations.get ch' := by
  have hhanded : ∀ (m : WriteLockManager) c, (m.handTo ch c).holders.get ch' = m.holders.get ch' :=
    fun m c => get_set_of_ne m.holders hne c
  have hsole : ((m.broadcastLock ch none false).grantToSoleAttachedClient ch).holders.get ch' =
      m.holders.get ch' := by
    unfold grantToSoleAttachedClient
    split
    · rfl
    · split
      · rfl
      · split
        · exact hhanded _ _
        · rfl
  have hfreed : ((m.broadcastLock ch none false).grantToSoleAttachedClient ch).reservations.get ch' =
      m.reservations.get ch' := by rw [grantToSoleAttachedClient_reservations]; rfl
  unfold handOnFreed
  split
  · split
    · exact ⟨hsole, hfreed⟩
    · unfold keepFor
      dsimp only
      split
      · exact ⟨hhanded m _, rfl⟩
      · exact ⟨rfl, get_set_of_ne m.reservations hne _⟩
  · exact ⟨hsole, hfreed⟩

theorem free_handOnFreed (window : Option ClientWindow) {l : List String} (hch : ch ∉ l)
    (hfree : ∀ ch' ∈ l, m.holders.get ch' = none ∧ m.reservations.get ch' = none) :
    ∀ ch' ∈ l, (handOnFreed window m ch).holders.get ch' = none ∧
      (handOnFreed window m ch).reservations.get ch' = none := by
  intro ch' hmem
  have hne : ch' ≠ ch := fun heq => hch (heq ▸ hmem)
  rw [(handOnFreed_of_ne window m hne).1, (handOnFreed_of_ne window m hne).2]
  exact hfree ch' hmem

theorem foldl_handOnFreed_reservations (window : Option ClientWindow) {l : List String}
    (hl : ch ∉ l) (m : WriteLockManager) :
    (l.foldl (handOnFreed window) m).reservations.get ch = m.reservations.get ch := by
  induction l generalizing m with
  | nil => rfl
  | cons ch' l ih =>
    have hne : ch ≠ ch' := fun heq => hl (heq ▸ mem_cons_self)
    have hl : ch ∉ l := fun hmem => hl (mem_cons_of_mem ch' hmem)
    rw [foldl_cons, ih hl, (handOnFreed_of_ne window m hne).2]

/-! ### Each operation -/

namespace Graced

section

variable (h : m.Graced)
include h

theorem handOnFreed (hres : m.reservations.get ch = none)
    (hholder : m.holders.get ch = none) (window : Option ClientWindow) :
    (handOnFreed window m ch).Graced := by
  have hsole : ((m.broadcastLock ch none false).grantToSoleAttachedClient ch).Graced :=
    (h.broadcastLock none false).grantToSoleAttachedClient hres
  unfold WriteLockManager.handOnFreed
  split
  · split
    · exact hsole
    · exact h.keepFor hres hholder _
  · exact hsole

theorem foldl_handOnFreed (window : Option ClientWindow) {l : List String}
    (hl : l.Nodup) (hfree : ∀ ch ∈ l, m.holders.get ch = none ∧ m.reservations.get ch = none) :
    (l.foldl (WriteLockManager.handOnFreed window) m).Graced := by
  induction l generalizing m with
  | nil => exact h
  | cons ch l ih =>
    obtain ⟨hch, hl⟩ := nodup_cons.mp hl
    obtain ⟨⟨hholder, hres⟩, hfree⟩ := forall_mem_cons.mp hfree
    exact ih (h.handOnFreed hres hholder window) hl (free_handOnFreed window hch hfree)

theorem free_forgetClient (c : String) : ∀ ch ∈ m.heldBy c,
    (m.forgetClient c).holders.get ch = none ∧ (m.forgetClient c).reservations.get ch = none := by
  intro ch hch
  have hheld := (mem_heldBy_iff m ch c).mp hch
  refine ⟨?_, h.unreserved_of_holder hheld⟩
  cases hget : (m.forgetClient c).holders.get ch with
  | none => rfl
  | some c' =>
    obtain ⟨hholder, hne⟩ := (forgetClient_holders m c ch c').mp hget
    exact absurd (some.inj (hholder.symm.trans hheld)) hne

theorem onClientDisconnect (c : String) : (m.onClientDisconnect c).Graced := by
  have hnone : ∀ ch, m.holders.get ch = none → (m.forgetClient c).holders.get ch = none := by
    intro ch hch
    cases hget : (m.forgetClient c).holders.get ch with
    | none => rfl
    | some c' => exact nomatch hch.symm.trans ((forgetClient_holders m c ch c').mp hget).1
  have hforgot : (m.forgetClient c).Graced := h.congr rfl rfl rfl hnone
  refine hforgot.foldl_handOnFreed _ ?_ (h.free_forgetClient c)
  exact m.holders.nodup_keys.sublist (filter_sublist.map Prod.fst)

theorem timerFired (t : ℕ) : (m.timerFired t).Graced := by
  unfold WriteLockManager.timerFired
  split
  · exact h
  · next ch ht =>
    obtain ⟨r, hr, rfl⟩ := h.reserved t ch ht
    have hended : { m with
        timers := m.timers.delete r.timer, reservations := m.reservations.delete ch }.Graced := by
      have := h.endReservation ch
      unfold WriteLockManager.endReservation at this
      rwa [hr] at this
    exact (hended.broadcastLock none false).grantToSoleAttachedClient (get_delete_self _ _)

theorem removeChannel (ch : String) : (m.removeChannel ch).Graced := by
  refine (h.endReservation ch).congr rfl rfl rfl fun ch' hnone => ?_
  show ((m.endReservation ch).holders.delete ch).get ch' = none
  rw [get_delete]
  split
  · rfl
  · exact hnone

theorem shutdown : m.shutdown.Graced := by
  have htimers : ∀ t, m.shutdown.timers.get t = none := by
    intro t
    show ((m.reservations.entries.map fun e => e.2.timer).foldl delete m.timers).get t = none
    rw [get_foldl_delete]
    split
    · rfl
    · next hnot =>
      cases ht : m.timers.get t with
      | none => rfl
      | some ch =>
        obtain ⟨r, hr, rfl⟩ := h.reserved t ch ht
        refine absurd ?_ hnot
        exact mem_map.mpr ⟨(ch, r), (get_eq_some_iff _ _ _).mp hr, rfl⟩
  exact
    { holder := fun _ _ hr => nomatch hr
      timer := fun _ _ hr => nomatch hr
      reserved := fun t _ ht => nomatch (htimers t).symm.trans ht
      fresh := fun t _ ht => nomatch (htimers t).symm.trans ht }

theorem attach (ch c : String) : (m.attach ch c).Graced := by
  have hadded : (m.addAttached ch c).Graced := h.congr rfl rfl rfl fun _ hnone => hnone
  unfold WriteLockManager.attach
  dsimp only
  split
  · split
    · exact hadded.take ch c
    · exact hadded.congr rfl rfl rfl fun _ hnone => hnone
  · next hres =>
    split
    · exact hadded.handTo hres
    · exact hadded.congr rfl rfl rfl fun _ hnone => hnone

theorem detach (ch c : String) : (m.detach ch c).Graced := by
  have hremoved : (m.removeAttached ch c).Graced := by
    unfold removeAttached
    split
    · exact h
    · exact h.congr rfl rfl rfl fun _ hnone => hnone
  unfold WriteLockManager.detach
  dsimp only
  split
  · next hholder =>
    refine (hremoved.free ch).grantToSoleAttachedClient ?_
    exact hremoved.unreserved_of_holder hholder
  · exact hremoved

theorem perform (op : Op) : (m.perform op).Graced := by
  cases op with
  | identify => exact h.congr rfl rfl rfl fun _ hnone => hnone
  | attach ch c => exact h.attach ch c
  | detach ch c => exact h.detach ch c
  | claim ch c =>
    show (m.claim ch c).Graced
    unfold claim
    split
    · exact h.take ch c
    · split
      · exact h
      · split
        · exact h
        · exact h.congr rfl rfl rfl fun _ hnone => hnone
  | grant ch c c' =>
    show (m.grant ch c c').Graced
    unfold grant
    split
    · next hholder => exact h.handTo (h.unreserved_of_holder hholder)
    · exact h
  | deny ch c c' =>
    show (m.deny ch c c').Graced
    unfold deny
    split
    · exact h.congr rfl rfl rfl fun _ hnone => hnone
    · exact h
  | force ch c =>
    have htold : ∀ m' : WriteLockManager, m'.reservations = m.reservations → m'.timers = m.timers →
        m'.nextTimer = m.nextTimer → m'.holders = m.holders →
        ((m'.endReservation ch).handTo ch c).Graced := fun m' hr ht hn hh =>
      (h.congr hr ht hn fun _ hnone => hh ▸ hnone).take ch c
    show (m.force ch c).Graced
    unfold force
    split
    · exact htold m rfl rfl rfl rfl
    · split
      · exact htold _ rfl rfl rfl rfl
      · exact htold m rfl rfl rfl rfl
  | release ch c =>
    show (m.release ch c).Graced
    unfold release
    split
    · exact h.free ch
    · exact h
  | disconnect c => exact h.onClientDisconnect c
  | timer t => exact h.timerFired t
  | removeChannel ch => exact h.removeChannel ch
  | shutdown => exact h.shutdown

end

end Graced

/-! ### How a reservation ends -/

/-- A reservation stays, unless the operation ends it. -/
theorem perform_reservations (hg : m.Graced) (hr : m.reservations.get ch = some r) {op : Op}
    (hends : ¬m.Ends ch r op) : (m.perform op).reservations.get ch = some r := by
  have hholder := hg.holder ch r hr
  have htaken : ∀ (m' : WriteLockManager) (ch' c : String), m'.reservations = m.reservations →
      ch' ≠ ch → ((m'.endReservation ch').handTo ch' c).reservations.get ch = some r := by
    intro m' ch' c hsame hne
    show (m'.endReservation ch').reservations.get ch = some r
    rw [endReservation_reservations, if_neg (Ne.symm hne), hsame, hr]
  cases op with
  | identify => exact hr
  | attach ch' c =>
    show (m.attach ch' c).reservations.get ch = some r
    unfold attach
    dsimp only
    split
    · next r' hr' =>
      split
      · next hwindow =>
        refine htaken _ ch' c rfl ?_
        rintro rfl
        obtain ⟨rfl⟩ := hr'.symm.trans hr
        exact hends ⟨rfl, hwindow⟩
      · exact hr
    · split <;> exact hr
  | detach ch' c =>
    show (m.detach ch' c).reservations.get ch = some r
    have hremoved : (m.removeAttached ch' c).reservations = m.reservations := by
      unfold removeAttached
      split <;> rfl
    unfold detach
    dsimp only
    split
    · rw [grantToSoleAttachedClient_reservations]
      exact hremoved ▸ hr
    · exact hremoved ▸ hr
  | claim ch' c =>
    show (m.claim ch' c).reservations.get ch = some r
    unfold claim
    split
    · exact htaken m ch' c rfl hends
    · split
      · exact hr
      · split <;> exact hr
  | grant ch' c c' =>
    show (m.grant ch' c c').reservations.get ch = some r
    unfold grant
    split <;> exact hr
  | deny ch' c c' =>
    show (m.deny ch' c c').reservations.get ch = some r
    unfold deny
    split <;> exact hr
  | force ch' c =>
    show (m.force ch' c).reservations.get ch = some r
    unfold force
    split
    · exact htaken m ch' c rfl hends
    · split
      · exact htaken _ ch' c rfl hends
      · exact htaken m ch' c rfl hends
  | release ch' c =>
    show (m.release ch' c).reservations.get ch = some r
    unfold release
    split <;> exact hr
  | disconnect c =>
    show (m.onClientDisconnect c).reservations.get ch = some r
    -- The channel is none of those the client held: nobody holds it.
    have hnot : ch ∉ m.heldBy c := fun hheld =>
      nomatch hholder.symm.trans ((mem_heldBy_iff m ch c).mp hheld)
    exact (foldl_handOnFreed_reservations _ hnot _).trans hr
  | timer t =>
    show (m.timerFired t).reservations.get ch = some r
    unfold timerFired
    split
    · exact hr
    · next ch' ht =>
      have hne : ch ≠ ch' := by
        rintro rfl
        obtain ⟨r', hr', rfl⟩ := hg.reserved t ch ht
        exact hends (congrArg Reservation.timer (some.inj (hr'.symm.trans hr)))
      unfold graceEnded
      rw [grantToSoleAttachedClient_reservations]
      exact (get_delete_of_ne m.reservations hne).trans hr
  | removeChannel ch' =>
    show (m.endReservation ch').reservations.get ch = some r
    rw [endReservation_reservations, if_neg (Ne.symm hends), hr]
  | shutdown => exact absurd trivial hends

/-- **Holder, reservation and timer agree**, whatever was asked and whichever timers fired: a
reserved channel has no holder and exactly one live timer, another has none; a held lock passes
its holder alone, a kept one nobody; and a reservation ends only as `Ends` says. -/
theorem reservation_consistent (h : Run step Transition.free new m) :
    (∀ ch r, m.reservations.get ch = some r →
      m.holders.get ch = none ∧ ∀ t, m.timers.get t = some ch ↔ t = r.timer) ∧
    (∀ ch, m.reservations.get ch = none → ∀ t, m.timers.get t ≠ some ch) ∧
    (∀ ch holder, m.holders.get ch = some holder →
      ∀ c, m.isWriteLockHolder ch c = true ↔ c = holder) ∧
    (∀ ch r, m.reservations.get ch = some r → ∀ c, m.isWriteLockHolder ch c = false) ∧
    ∀ ch r op, m.reservations.get ch = some r →
      (m.perform op).reservations.get ch ≠ some r → m.Ends ch r op := by
  have hg : m.Graced := by
    refine h.invariant (I := Graced) graced_new fun m op m' hm _ hstep => ?_
    obtain ⟨rfl⟩ := hstep
    exact hm.perform op
  refine ⟨fun ch r hr => ⟨hg.holder ch r hr, fun t => ⟨fun ht => ?_, ?_⟩⟩, ?_, ?_, ?_, ?_⟩
  · obtain ⟨r', hr', rfl⟩ := hg.reserved t ch ht
    exact congrArg Reservation.timer (some.inj (hr'.symm.trans hr))
  · rintro rfl
    exact hg.timer ch r hr
  · intro ch hnone t ht
    obtain ⟨r, hr, -⟩ := hg.reserved t ch ht
    exact nomatch hnone.symm.trans hr
  · intro ch holder hholder c
    simp only [isWriteLockHolder, hg.unreserved_of_holder hholder, hholder]
    simp [eq_comm]
  · intro ch r hr c
    simp [isWriteLockHolder, hr]
  · intro ch r op hr hchanged
    by_contra hends
    exact hchanged (perform_reservations hg hr hends)

/-- A holder whose window is known left: its lock is kept, and nobody passes. -/
theorem reservation_consistent_after_disconnect :
    ∃ m, Run step Transition.free new m ∧ m.reservations.get "ch" = some ⟨⟨"token", "window"⟩, 0⟩ ∧
      m.holders.get "ch" = none ∧ (∀ t, m.timers.get t = some "ch" ↔ t = 0) ∧
      ∀ c, m.isWriteLockHolder "ch" c = false := by
  have hrun : Run step Transition.free new _ := .get_free [.identify "a" ⟨"token", "window"⟩,
    .attach "ch" "a", .attach "ch" "b", .disconnect "a"] (by decide +kernel)
  obtain ⟨hreserved, -, -, hnobody, -⟩ := reservation_consistent hrun
  obtain ⟨hholder, htimers⟩ := hreserved "ch" ⟨⟨"token", "window"⟩, 0⟩ (by decide +kernel)
  exact ⟨_, hrun, by decide +kernel, hholder, htimers,
    hnobody _ ⟨⟨"token", "window"⟩, 0⟩ (by decide +kernel)⟩

end WriteLockManager

end Lasterm.Hub
