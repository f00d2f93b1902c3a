import Lasterm.Hub.SocketAuth

/-!
# Once refused, always refused

What is left of a socket once the hub has ended it or it was released.

A socket that `end` ended is deaf at once.  One that is only closed, for an `AUTH` that failed or
did not come, or one that had an error, still reads what comes before its close event.  The write
locks are handed to a client that has left by an `ATTACH` or a `SPAWN` answered after it, and to
whatever client a grant names.

## Main definitions

* `inTime` — the steps where none of this happens; `Registered` — the invariant.

## Main results

* `once_refused` — in every run of such steps, nothing is left.
* `late_auth_accepted` — a run of others.
-/

namespace Lasterm.Hub.WriteLockManager

/-! ### The clients that the write locks speak of -/

/-- The manager has the client as a holder, as attached, or as a window's. -/
def Names (m : WriteLockManager) (c : String) : Prop :=
  (∃ ch, m.holders.get ch = some c) ∨ (∃ ch, m.IsAttached ch c) ∨ m.windows.get c ≠ none

/-- It speaks only of such clients. -/
def Within (m : WriteLockManager) (P : String → Prop) : Prop := ∀ c, m.Names c → P c

namespace Within

variable {m m' : WriteLockManager} {P Q : String → Prop} {ch c : String}

theorem mono (h : m.Within P) (hPQ : ∀ c, m.Names c → P c → Q c) : m.Within Q := fun c hc =>
  hPQ c hc (h c hc)

theorem new : new.Within P := by
  rintro c (⟨ch, hh⟩ | ⟨ch, clients, hc, -⟩ | hw)
  · cases hh
  · cases hc
  · exact absurd rfl hw

theorem handsOn (h : m.Within P) (hh : HandsOn m m') (hw : m'.windows = m.windows) :
    m'.Within P := by
  rintro c (⟨ch, hholder⟩ | ⟨ch, ha⟩ | hwin)
  · rcases hh.holder ch c hholder with hold | ha
    · exact h c (.inl ⟨ch, hold⟩)
    · exact h c (.inr (.inl ⟨ch, ha⟩))
  · exact h c (.inr (.inl ⟨ch, (isAttached_congr hh.attached_eq ch c).mp ha⟩))
  · exact h c (.inr (.inr (hw ▸ hwin)))

theorem handTo (h : m.Within P) (hc : P c) : (m.handTo ch c).Within P := by
  rintro c' (⟨ch', hholder⟩ | ⟨ch', ha⟩ | hwin)
  · rw [handTo_holders, OrderedMap.get_set] at hholder
    split at hholder
    · cases hholder
      exact hc
    · exact h c' (.inl ⟨ch', hholder⟩)
  · exact h c' (.inr (.inl ⟨ch', ha⟩))
  · exact h c' (.inr (.inr hwin))

theorem endReservation (h : m.Within P) (ch : String) : (m.endReservation ch).Within P := by
  refine h.handsOn (.of_eq (endReservation_holders m ch) (endReservation_attached m ch)) ?_
  unfold WriteLockManager.endReservation
  split <;> rfl

theorem emit (h : m.Within P) (e : Effect) : (m.emit e).Within P := h.handsOn (.of_eq rfl rfl) rfl

end Within

theorem windows_grantToSole (m : WriteLockManager) (ch : String) :
    (m.grantToSoleAttachedClient ch).windows = m.windows := by
  unfold grantToSoleAttachedClient
  split
  · rfl
  · split
    · rfl
    · split <;> rfl

theorem windows_handOnFreed (window : Option ClientWindow) (m : WriteLockManager) (ch : String) :
    (handOnFreed window m ch).windows = m.windows := by
  unfold handOnFreed
  split
  · split
    · exact windows_grantToSole _ ch
    · unfold keepFor
      dsimp only
      split <;> rfl
  · exact windows_grantToSole _ ch

namespace Within

variable {m m' : WriteLockManager} {P : String → Prop} {ch c : String}

section

variable (h : m.Within P)
include h

theorem identify (hc : P c) (window : ClientWindow) : (m.identify c window).Within P := by
  rintro c' (hholder | ha | hwin)
  · exact h c' (.inl hholder)
  · exact h c' (.inr (.inl ha))
  · by_cases heq : c' = c
    · exact heq ▸ hc
    · refine h c' (.inr (.inr ?_))
      intro hnone
      refine hwin ?_
      show (m.windows.set c window).get c' = none
      rw [OrderedMap.get_set, if_neg heq, hnone]

theorem attach (hc : P c) : (m.attach ch c).Within P := by
  have hadded : (m.addAttached ch c).Within P := by
    rintro c' (hholder | ⟨ch', ha⟩ | hwin)
    · exact h c' (.inl hholder)
    · rcases (isAttached_addAttached m ch c ch' c').mp ha with ⟨-, rfl⟩ | ha
      · exact hc
      · exact h c' (.inr (.inl ⟨ch', ha⟩))
    · exact h c' (.inr (.inr hwin))
  refine hadded.handsOn (attach_handsOn m ch c) ?_
  unfold WriteLockManager.attach
  dsimp only
  split
  · split
    · unfold WriteLockManager.endReservation
      split <;> rfl
    · rfl
  · split <;> rfl

theorem detach : (m.detach ch c).Within P := by
  have hremoved : (m.removeAttached ch c).Within P := by
    rintro c' (⟨ch', hholder⟩ | ⟨ch', ha⟩ | hwin)
    · rw [removeAttached_holders] at hholder
      exact h c' (.inl ⟨ch', hholder⟩)
    · exact h c' (.inr (.inl ⟨ch', ((isAttached_removeAttached m ch c ch' c').mp ha).1⟩))
    · refine h c' (.inr (.inr ?_))
      unfold removeAttached at hwin
      split at hwin <;> exact hwin
  refine hremoved.handsOn (detach_handsOn m ch c) ?_
  unfold WriteLockManager.detach
  dsimp only
  split
  · exact windows_grantToSole _ ch
  · rfl

theorem onClientDisconnect (c : String) :
    (m.onClientDisconnect c).Within fun c' => P c' ∧ c' ≠ c := by
  have hforgot : (m.forgetClient c).Within fun c' => P c' ∧ c' ≠ c := by
    rintro c' (⟨ch, hholder⟩ | ⟨ch, ha⟩ | hwin)
    · obtain ⟨hholder, hne⟩ := (forgetClient_holders m c ch c').mp hholder
      exact ⟨h c' (.inl ⟨ch, hholder⟩), hne⟩
    · obtain ⟨ha, hne⟩ := (isAttached_forgetClient m c ch c').mp ha
      exact ⟨h c' (.inr (.inl ⟨ch, ha⟩)), hne⟩
    · have hget : (m.windows.delete c).get c' ≠ none := hwin
      rw [OrderedMap.get_delete] at hget
      split at hget
      · exact absurd rfl hget
      · next hne => exact ⟨h c' (.inr (.inr hget)), hne⟩
  refine hforgot.handsOn (onClientDisconnect_handsOn m c) ?_
  unfold WriteLockManager.onClientDisconnect
  generalize m.windows.get c = window
  generalize m.forgetClient c = m'
  induction m.heldBy c generalizing m' with
  | nil => rfl
  | cons ch l ih =>
    rw [List.foldl_cons, ih]
    exact windows_handOnFreed window m' ch

theorem timerFired (timer : ℕ) : (m.timerFired timer).Within P := by
  refine h.handsOn (timerFired_handsOn m timer) ?_
  unfold WriteLockManager.timerFired
  split
  · rfl
  · exact windows_grantToSole _ _

theorem removeChannel (ch : String) : (m.removeChannel ch).Within P := by
  have hended := h.endReservation ch
  rintro c (⟨ch', hholder⟩ | ⟨ch', clients, ha, hmem⟩ | hwin)
  · simp only [WriteLockManager.removeChannel, OrderedMap.get_delete] at hholder
    exact hended c (.inl ⟨ch', (Option.ite_none_left_eq_some.mp hholder).2⟩)
  · simp only [WriteLockManager.removeChannel, OrderedMap.get_delete] at ha
    exact hended c (.inr (.inl ⟨ch', clients, (Option.ite_none_left_eq_some.mp ha).2, hmem⟩))
  · exact hended c (.inr (.inr hwin))

theorem claim (hc : m.isFree ch = true → P c) : (m.claim ch c).Within P := by
  unfold WriteLockManager.claim
  split
  · next hfree => exact (h.endReservation ch).handTo (hc hfree)
  · split
    · exact h
    · split
      · exact h
      · exact h.emit _

theorem force (hc : P c) : (m.force ch c).Within P := by
  refine (endReservation ?_ ch).handTo hc
  split
  · exact h
  · split
    · exact (h.emit _).emit _
    · exact h

theorem grant {toClient : String}
    (hto : m.holders.get ch = some c → P toClient) : (m.grant ch c toClient).Within P := by
  unfold WriteLockManager.grant
  split
  · next hholder => exact h.handTo (hto hholder)
  · exact h

end

end Within

end Lasterm.Hub.WriteLockManager

namespace Lasterm.Hub.Sockets

variable {r : Sockets} {c : String} {msg : Message}

/-- The handler takes a lock for its client. -/
def registers (r : Sockets) : Message → Bool
  | .writeClaim ch => isValidUlid ch && r.locks.isFree ch
  | .writeForce ch => isValidUlid ch
  | _ => false

theorem connected_handle (r : Sockets) (c : String) (msg : Message) :
    (r.handle c msg).connected = r.connected := by
  have hon : ∀ (ch : String) op, (r.onChannel c ch op).connected = r.connected := by
    intro ch op
    unfold onChannel
    split <;> rfl
  cases msg with
  | spawn => rfl
  | attach ch =>
    show (r.handleAttach c ch).connected = _
    unfold handleAttach
    split
    · rfl
    · exact hon ch id
  | detach ch | writeClaim ch | writeRelease ch | writeForce ch | writeGrant ch _
  | writeDeny ch _ =>
    exact hon ch _

theorem pending_handle {p : String × Option String} (hp : p ∈ (r.handle c msg).pending) :
    p ∈ r.pending ∨ p.1 = c := by
  have hon : ∀ (ch : String) op, (r.onChannel c ch op).pending = r.pending := by
    intro ch op
    unfold onChannel
    split <;> rfl
  have hadd : ∀ q : Option String, p ∈ r.pending ++ [(c, q)] → p ∈ r.pending ∨ p.1 = c := by
    intro q hq
    rcases List.mem_append.mp hq with hq | hq
    · exact .inl hq
    · exact .inr (congrArg Prod.fst (List.mem_singleton.mp hq))
  cases msg with
  | spawn => exact hadd none hp
  | attach ch =>
    replace hp : p ∈ (r.handleAttach c ch).pending := hp
    unfold handleAttach at hp
    split at hp
    · exact hadd (some ch) hp
    · rw [hon] at hp
      exact .inl hp
  | detach ch | writeClaim ch | writeRelease ch | writeForce ch | writeGrant ch _
  | writeDeny ch _ =>
    exact .inl (hon ch _ ▸ hp)

theorem within_handle {P : String → Prop} (h : r.locks.Within P)
    (hc : r.registers msg = true → P c)
    (hgrant : ∀ ch toClient, msg = .writeGrant ch toClient → isValidUlid ch = true →
      r.locks.holders.get ch = some c → P toClient) : (r.handle c msg).locks.Within P := by
  have hon : ∀ (ch : String) op, (isValidUlid ch = true → (op r.locks).Within P) →
      (r.onChannel c ch op).locks.Within P := by
    intro ch op hop
    unfold onChannel
    split
    · next hvalid => exact hop hvalid
    · exact h.emit _
  cases msg with
  | spawn => exact h
  | attach ch =>
    show (r.handleAttach c ch).locks.Within P
    unfold handleAttach
    split
    · exact h
    · exact hon ch id fun _ => h
  | detach ch => exact hon ch _ fun _ => h.detach
  | writeClaim ch =>
    exact hon ch _ fun hvalid => h.claim fun hfree => hc (by simp [registers, hvalid, hfree])
  | writeRelease ch =>
    refine hon ch _ fun _ => h.handsOn (WriteLockManager.release_handsOn _ _ _) ?_
    show (r.locks.release ch c).windows = r.locks.windows
    unfold WriteLockManager.release
    split <;> rfl
  | writeForce ch => exact hon ch _ fun hvalid => h.force (hc hvalid)
  | writeGrant ch toClient => exact hon ch _ fun hvalid => h.grant (hgrant ch toClient rfl hvalid)
  | writeDeny ch toClient =>
    refine hon ch _ fun _ => h.handsOn (WriteLockManager.deny_handsOn _ _ _ _) ?_
    show (r.locks.deny ch c toClient).windows = r.locks.windows
    unfold WriteLockManager.deny
    split <;> rfl

end Lasterm.Hub.Sockets

namespace Lasterm.Hub.Auth

open Transition OrderedMap Option List

/-! ### The condition -/

/-- The token is valid. -/
def TokenValidation.isValid : TokenValidation → Bool
  | .valid _ => true
  | .invalid _ | .unavailable => false

/-- The frame has a handler. -/
def Frame.acts : Frame → Bool
  | .malformed | .auth _ _ => false
  | .lock _ | .other => true

namespace State

variable (cfg : Setting) (s : State)

/-- The frame authenticates the socket, or is acted on, if it is read. -/
def heeds (k : Socket) (readable : Bool) : Frame → Bool
  | .malformed => false
  | .auth token _ =>
    !k.authenticated &&
      (validateTokenHash s.tokens s.now readable (cfg.hashToken token)).isValid
  | .lock _ | .other =>
    k.authenticated && k.credential.all fun held =>
      (validateTokenHash s.tokens s.now readable held.tokenHash).isValid

/-- A grant by the holder names no socket that is not authenticated or was released. -/
def grantsToLive (clientId : ClientId) : Frame → Bool
  | .lock (.writeGrant channelId toClientId) =>
    !isValidUlid channelId || s.routes.locks.holders.get channelId ≠ some clientId ||
      (s.sockets.get toClientId).all fun k => k.authenticated && !k.released
  | _ => true

/-- The frame registers its own client, if it is acted on. -/
def registers : Frame → Bool
  | .auth _ _ => true
  | .lock msg => s.routes.registers msg
  | .malformed | .other => false

/-- A frame that is acted on comes before the hub has closed its socket, unless `end` marked it,
and registers no client that had an error; no answer comes after its client was released; no grant
names such a client.  Four closes do not mark it: at the timeout of the first frame, at a first
frame that is no AUTH, at a token that is not known, and where the tokens cannot be read. -/
def inTime : Step → Bool
  | .frame clientId f readable _ =>
    (s.sockets.get clientId).all fun k =>
      k.ending || !s.heeds cfg k readable f ||
        (!k.decided && (!k.released || !s.registers f) && s.grantsToLive clientId f)
  | .answered i (some _) =>
    (s.routes.pending[i]?).all fun p => (s.sockets.get p.1).all fun k => !k.released
  | _ => true

end State

/-! ### What is registered of a socket -/

/-- A client that a table may name: one that authenticated and was not released, if it is a
socket at all. -/
def Nameable (s : State) (c : ClientId) : Prop :=
  c ∈ s.seen ∧ ∀ k, s.sockets.get c = some k → k.authenticated = true ∧ k.released = false

/-- A client that authenticated, if it is a socket at all. -/
def Known (s : State) (c : ClientId) : Prop :=
  c ∈ s.seen ∧ ∀ k, s.sockets.get c = some k → k.authenticated = true

/-- What is registered of a socket is gone with it. -/
structure Registered (s : State) : Prop where
  heard : ∀ e ∈ s.heard, e.decided = false
  released : ∀ c k, s.sockets.get c = some k → k.released = true →
    c ∉ s.clientSendRegistry ∧ s.tokenSockets.get c = none
  connected : ∀ c ∈ s.routes.connected, Nameable s c
  locks : s.routes.locks.Within (Nameable s)
  pending : ∀ p ∈ s.routes.pending, Known s p.1
  seen : ∀ c k, s.sockets.get c = some k → c ∈ s.seen

/-- No socket is new, and none has authenticated or was released since. -/
def SameFlags (s s' : State) : Prop :=
  ∀ c k', s'.sockets.get c = some k' → ∃ k, s.sockets.get c = some k ∧
    k'.authenticated = k.authenticated ∧ k'.released = k.released

theorem SameFlags.of_eq {s s' : State} (h : s'.sockets = s.sockets) : SameFlags s s' :=
  fun _ k' hget => ⟨k', h ▸ hget, rfl, rfl⟩

theorem SameFlags.setSocket {s s' : State} {c : ClientId} {k : Socket}
    (hget : s.sockets.get c = some k) (k' : Socket) (hset : s'.sockets = s.sockets.set c k')
    (ha : k'.authenticated = k.authenticated) (hr : k'.released = k.released) :
    SameFlags s s' := by
  intro c' k₁ hget'
  rw [hset, get_set] at hget'
  split at hget'
  · next hc =>
    cases hget'
    exact ⟨k, hc ▸ hget, ha, hr⟩
  · exact ⟨k₁, hget', rfl, rfl⟩

namespace Registered

variable {cfg : Setting} {s s' : State} {c : ClientId} {k : Socket} {readable writable : Bool}

theorem initial : Registered initial where
  heard := by simp [Auth.initial]
  released := by simp [Auth.initial]
  connected := by simp [Auth.initial, Sockets.init]
  locks := .new
  pending := by simp [Auth.initial, Sockets.init]
  seen := by simp [Auth.initial]

section

variable (h : Registered s)
include h

theorem of_eq (hheard : s'.heard = s.heard) (hreg : s'.clientSendRegistry = s.clientSendRegistry)
    (htok : s'.tokenSockets = s.tokenSockets) (hsock : s'.sockets = s.sockets)
    (hroutes : s'.routes = s.routes) (hseen : s'.seen = s.seen) : Registered s' := by
  have hname : ∀ c, Nameable s c → Nameable s' c := by
    intro c hc
    unfold Nameable
    rw [hseen, hsock]
    exact hc
  constructor
  · rw [hheard]; exact h.heard
  · rw [hsock, hreg, htok]; exact h.released
  · rw [hroutes]; exact fun c hc => hname c (h.connected c hc)
  · rw [hroutes]; exact h.locks.mono fun c _ hc => hname c hc
  · intro p hp
    rw [hroutes] at hp
    exact ⟨hseen ▸ (h.pending p hp).1, hsock ▸ (h.pending p hp).2⟩
  · rw [hsock, hseen]; exact h.seen

theorem setSocket (hget : s.sockets.get c = some k) (k' : Socket)
    (ha : k'.authenticated = k.authenticated) (hr : k'.released = k.released) :
    Registered { s with sockets := s.sockets.set c k' } := by
  have hflags : SameFlags s { s with sockets := s.sockets.set c k' } :=
    .setSocket hget k' rfl ha hr
  have hname : ∀ c', Nameable s c' → Nameable { s with sockets := s.sockets.set c k' } c' := by
    rintro c' ⟨hseen, hlive⟩
    refine ⟨hseen, ?_⟩
    intro k₁ hget'
    obtain ⟨k₀, hget₀, ha₀, hr₀⟩ := hflags c' k₁ hget'
    rw [ha₀, hr₀]
    exact hlive k₀ hget₀
  constructor
  · exact h.heard
  · intro c' k₁ hget' hrel
    obtain ⟨k₀, hget₀, -, hr₀⟩ := hflags c' k₁ hget'
    exact h.released c' k₀ hget₀ (hr₀ ▸ hrel)
  · exact fun c' hc' => hname c' (h.connected c' hc')
  · exact h.locks.mono fun c' _ hc' => hname c' hc'
  · intro p hp
    refine ⟨(h.pending p hp).1, ?_⟩
    intro k₁ hget'
    obtain ⟨k₀, hget₀, ha₀, -⟩ := hflags p.1 k₁ hget'
    rw [ha₀]
    exact (h.pending p hp).2 k₀ hget₀
  · intro c' k₁ hget'
    obtain ⟨k₀, hget₀, -⟩ := hflags c' k₁ hget'
    exact h.seen c' k₀ hget₀

theorem closeSocket (c : ClientId) : Registered (s.closeSocket c) := by
  unfold State.closeSocket
  split
  · exact h
  · next k hget => exact h.setSocket hget _ rfl rfl

/-- After `release` nothing of the socket is left. -/
theorem release (c : ClientId) : Registered (s.release c) := by
  unfold State.release
  split
  · exact h
  next k hget =>
    split
    · exact h
    -- What is named after it is another client.
    have hname : ∀ (s' : State) c', s'.seen = s.seen →
        s'.sockets = s.sockets.set c { k with released := true, authTimeout := false } →
        Nameable s c' → c' ≠ c → Nameable s' c' := by
      intro s' c' hseen hsock hc' hne
      refine ⟨hseen ▸ hc'.1, ?_⟩
      rw [hsock, get_set_of_ne _ hne]
      exact hc'.2
    -- A socket that did not authenticate is named by no table.
    have hunnamed : k.authenticated = false → ∀ c', Nameable s c' → c' ≠ c := by
      rintro hk c' hc' rfl
      have hauth := (hc'.2 k hget).1
      rw [hk] at hauth
      cases hauth
    constructor
    · exact h.heard
    · intro c' k₁ hget' hrel
      rw [get_set] at hget'
      rw [OrderedSet.mem_delete, get_delete]
      by_cases hc : c' = c
      · exact ⟨fun hmem => hmem.2 hc, if_pos hc⟩
      · rw [if_neg hc] at hget'
        obtain ⟨hreg, htok⟩ := h.released c' k₁ hget' hrel
        exact ⟨fun hmem => hreg hmem.1, by rw [if_neg hc]; exact htok⟩
    · intro c' hc'
      by_cases hk : k.authenticated = true
      · rw [if_pos hk] at hc'
        obtain ⟨hold, hne⟩ := (OrderedSet.mem_delete _ _ _).mp hc'
        exact hname _ c' rfl rfl (h.connected c' hold) hne
      · rw [if_neg hk] at hc'
        have hlive := h.connected c' hc'
        exact hname _ c' rfl rfl hlive (hunnamed (by simpa using hk) c' hlive)
    · dsimp only
      by_cases hk : k.authenticated = true
      · rw [if_pos hk]
        refine (h.locks.onClientDisconnect c).mono ?_
        rintro c' - ⟨hlive, hne⟩
        exact hname _ c' rfl rfl hlive hne
      · rw [if_neg hk]
        refine h.locks.mono ?_
        intro c' _ hlive
        exact hname _ c' rfl rfl hlive (hunnamed (by simpa using hk) c' hlive)
    · have hpending : ∀ p ∈ s.routes.pending, p.1 ∈ s.seen ∧ ∀ k₁,
          (s.sockets.set c { k with released := true, authTimeout := false }).get p.1 = some k₁ →
            k₁.authenticated = true := by
        intro p hp
        refine ⟨(h.pending p hp).1, ?_⟩
        intro k₁ hget'
        rw [get_set] at hget'
        split at hget'
        · next hc =>
          cases hget'
          exact (h.pending p hp).2 k (hc ▸ hget)
        · exact (h.pending p hp).2 k₁ hget'
      split <;> exact hpending
    · intro c' k₁ hget'
      rw [get_set] at hget'
      split at hget'
      · next hc => exact h.seen c' k (hc ▸ hget)
      · exact h.seen c' k₁ hget'

theorem endSocket (c : ClientId) : Registered (s.endSocket c) := by
  unfold State.endSocket
  split
  · exact h
  · next k hget =>
    split
    · exact h
    · exact ((h.setSocket hget { k with ending := true } rfl rfl).release c).closeSocket c

theorem closeSocketsForToken (tokenId : String) : Registered (s.closeSocketsForToken tokenId) := by
  unfold State.closeSocketsForToken
  generalize (s.tokenSockets.entries.filter fun e => e.2 = tokenId).map Prod.fst = l
  induction l generalizing s with
  | nil => exact h
  | cons c l ih => exact ih (h.endSocket c)

theorem addSeen (c : ClientId) : Registered { s with seen := c :: s.seen } where
  heard := h.heard
  released := h.released
  connected := fun c' hc' =>
    ⟨mem_cons_of_mem c (h.connected c' hc').1, (h.connected c' hc').2⟩
  locks := h.locks.mono fun _ _ hc' => ⟨mem_cons_of_mem c hc'.1, hc'.2⟩
  pending := fun p hp => ⟨mem_cons_of_mem c (h.pending p hp).1, (h.pending p hp).2⟩
  seen := fun c' k hget => mem_cons_of_mem c (h.seen c' k hget)

theorem accept (hc : Nameable s c) (window : Option ClientWindow) :
    Registered { s with routes := s.routes.accept c window } where
  heard := h.heard
  released := h.released
  connected := by
    intro c' hc'
    rcases (OrderedSet.mem_add _ _ _).mp hc' with rfl | hc'
    · exact hc
    · exact h.connected c' hc'
  locks := by
    cases window with
    | none => exact h.locks
    | some w => exact h.locks.identify hc w
  pending := h.pending
  seen := h.seen

theorem newSocket (hnew : c ∉ s.seen) (hlive : k.released = false) :
    Registered { s with
      seen := c :: s.seen
      clientSendRegistry := s.clientSendRegistry.add c
      sockets := s.sockets.set c k } := by
  have hother : ∀ c', c' ∈ s.seen → (s.sockets.set c k).get c' = s.sockets.get c' := by
    intro c' hc'
    refine get_set_of_ne _ ?_ k
    rintro rfl
    exact hnew hc'
  have hname : ∀ (s' : State) c', s'.seen = c :: s.seen → s'.sockets = s.sockets.set c k →
      Nameable s c' → Nameable s' c' := by
    intro s' c' hseen hsock hc'
    refine ⟨hseen ▸ mem_cons_of_mem c hc'.1, ?_⟩
    rw [hsock, hother c' hc'.1]
    exact hc'.2
  constructor
  · exact h.heard
  · intro c' k₁ hget' hrel
    rw [get_set] at hget'
    split at hget'
    · cases hget'
      rw [hlive] at hrel
      cases hrel
    · next hne =>
      obtain ⟨hreg, htok⟩ := h.released c' k₁ hget' hrel
      refine ⟨?_, htok⟩
      rw [OrderedSet.mem_add]
      rintro (rfl | hmem)
      · exact hne rfl
      · exact hreg hmem
  · exact fun c' hc' => hname _ c' rfl rfl (h.connected c' hc')
  · exact h.locks.mono fun c' _ hc' => hname _ c' rfl rfl hc'
  · intro p hp
    refine ⟨mem_cons_of_mem c (h.pending p hp).1, ?_⟩
    rw [hother p.1 (h.pending p hp).1]
    exact (h.pending p hp).2
  · intro c' k₁ hget'
    rw [get_set] at hget'
    split at hget'
    · next hc => exact hc ▸ mem_cons_self
    · exact mem_cons_of_mem c (h.seen c' k₁ hget')

theorem connect (b : Boot) (hnew : c ∉ s.seen) : Registered (s.connect b c) := by
  have hadded := h.newSocket hnew (k := ⟨b.authToken.isNone, none, false, false,
    !b.authToken.isNone, false, false⟩) rfl
  unfold State.connect
  dsimp only
  by_cases hopen : b.authToken.isNone = true
  · rw [if_pos hopen]
    refine hadded.accept ⟨mem_cons_self, ?_⟩ none
    intro k hget
    dsimp only at hget
    rw [get_set_self] at hget
    cases hget
    exact ⟨hopen, rfl⟩
  · rw [if_neg hopen]
    exact hadded

theorem authenticate (hget : s.sockets.get c = some k)
    (hlive : k.released = false) (hdecided : k.decided = false) (record : TokenRow)
    (windowId : Option String) : Registered (s.authenticate c k record windowId) := by
  have hname : ∀ (s' : State) c' k', s'.seen = s.seen → s'.sockets = s.sockets.set c k' →
      k'.authenticated = true → k'.released = false → Nameable s c' ∨ c' = c → Nameable s' c' := by
    intro s' c' k' hseen hsock ha hr hc'
    constructor
    · rw [hseen]
      rcases hc' with hc' | rfl
      · exact hc'.1
      · exact h.seen c' k hget
    · intro k₁ hget'
      rw [hsock, get_set] at hget'
      split at hget'
      · cases hget'
        exact ⟨ha, hr⟩
      · next hne =>
        rcases hc' with hc' | hc'
        · exact hc'.2 k₁ hget'
        · exact absurd hc' hne
  have hset : Registered { s with
      sockets := s.sockets.set c
        { k with
          authenticated := true
          credential := some ⟨record.id, record.tokenHash, s.now⟩
          authTimeout := false }
      tokenSockets := s.tokenSockets.set c record.id
      heard := s.heard ++ [⟨c, k.decided⟩] } := by
    constructor
    · intro e he
      rcases mem_append.mp he with he | he
      · exact h.heard e he
      · obtain rfl := mem_singleton.mp he
        exact hdecided
    · intro c' k₁ hget' hrel
      rw [get_set] at hget' ⊢
      split at hget'
      · cases hget'
        rw [hlive] at hrel
        cases hrel
      · next hne =>
        rw [if_neg hne]
        exact h.released c' k₁ hget' hrel
    · exact fun c' hc' => hname _ c' _ rfl rfl rfl hlive (.inl (h.connected c' hc'))
    · exact h.locks.mono fun c' _ hc' => hname _ c' _ rfl rfl rfl hlive (.inl hc')
    · intro p hp
      refine ⟨(h.pending p hp).1, ?_⟩
      intro k₁ hget'
      rw [get_set] at hget'
      split at hget'
      · cases hget'
        rfl
      · exact (h.pending p hp).2 k₁ hget'
    · intro c' k₁ hget'
      rw [get_set] at hget'
      split at hget'
      · next hc => exact h.seen c' k (hc ▸ hget)
      · exact h.seen c' k₁ hget'
  exact hset.accept (hname _ c _ rfl rfl rfl hlive (.inr rfl)) _

theorem handle (hknown : Known s c) {msg : Sockets.Message}
    (hc : s.routes.registers msg = true → Nameable s c)
    (hgrant : ∀ ch toClient, msg = .writeGrant ch toClient → isValidUlid ch = true →
      s.routes.locks.holders.get ch = some c → Nameable s toClient) :
    Registered { s with routes := s.routes.handle c msg } where
  heard := h.heard
  released := h.released
  connected := by
    rw [Sockets.connected_handle]
    exact h.connected
  locks := Sockets.within_handle h.locks hc hgrant
  pending := by
    intro p hp
    rcases Sockets.pending_handle hp with hp | hp
    · exact h.pending p hp
    · rw [hp]
      exact hknown
  seen := h.seen

theorem dispatch {f : Frame} (hact : f.acts = true → Known s c ∧ k.decided = false ∧
      (s.registers f = true → Nameable s c) ∧ s.grantsToLive c f = true) :
    Registered (s.dispatch c k f) := by
  have hheard : k.decided = false → ∀ e ∈ s.heard ++ [⟨c, k.decided⟩], e.decided = false := by
    intro hdecided e he
    rcases mem_append.mp he with he | he
    · exact h.heard e he
    · obtain rfl := mem_singleton.mp he
      exact hdecided
  cases f with
  | malformed | auth _ _ => exact h
  | other =>
    obtain ⟨-, hdecided, -⟩ := hact rfl
    exact ⟨hheard hdecided, h.released, h.connected, h.locks, h.pending, h.seen⟩
  | lock msg =>
    obtain ⟨hauth, hdecided, hc, hgrant⟩ := hact rfl
    -- The handler, once the ids that the message names are known.
    have hhandle : ∀ s₁ : State, Registered s₁ → s₁.routes = s.routes → s₁.heard = s.heard →
        s₁.sockets = s.sockets → (∀ c' ∈ s.seen, c' ∈ s₁.seen) →
        (∀ ch toClient, msg = .writeGrant ch toClient → toClient ∈ s₁.seen) →
        Registered { s₁ with
          routes := s₁.routes.handle c msg
          heard := s₁.heard ++ [⟨c, k.decided⟩] } := by
      intro s₁ h₁ hroutes hh hsock hseen hknown
      have hdone : Registered { s₁ with routes := s₁.routes.handle c msg } := by
        refine h₁.handle ⟨hseen c hauth.1, hsock ▸ hauth.2⟩ ?_ ?_
        · intro hreg
          have hlive := hc (by simpa [State.registers, hroutes] using hreg)
          exact ⟨hseen c hlive.1, hsock ▸ hlive.2⟩
        · rintro ch toClient rfl hvalid hholder
          refine ⟨hknown ch toClient rfl, ?_⟩
          intro k₁ hget
          rw [hsock] at hget
          rw [hroutes] at hholder
          simpa [State.grantsToLive, hvalid, hholder, hget] using hgrant
      refine ⟨?_, hdone.released, hdone.connected, hdone.locks, hdone.pending, hdone.seen⟩
      rw [hh]
      exact hheard hdecided
    cases msg with
    | writeGrant ch toClient =>
      refine hhandle { s with seen := toClient :: s.seen } (h.addSeen toClient) rfl rfl rfl ?_ ?_
      · exact fun c' hc' => mem_cons_of_mem toClient hc'
      · rintro ch' toClient' ⟨⟩
        exact mem_cons_self
    | spawn | attach _ | detach _ | writeClaim _ | writeRelease _ | writeForce _ | writeDeny _ _ =>
      refine hhandle s h rfl rfl rfl (fun _ hc' => hc') ?_
      rintro ch toClient ⟨⟩

/-! #### Frames -/

/-- `validate` changes what it notes, and nothing else. -/
theorem validate {tokenHash : String} {v : TokenValidation}
    (hv : s.validate readable tokenHash = (s', v)) :
    Registered s' ∧ v = validateTokenHash s.tokens s.now readable tokenHash ∧
      s'.sockets = s.sockets ∧ s'.routes = s.routes ∧ s'.seen = s.seen := by
  unfold State.validate at hv
  split at hv
  · next hexpired =>
    obtain ⟨rfl, rfl⟩ := Prod.mk.inj hv
    exact ⟨h.of_eq rfl rfl rfl rfl rfl rfl, hexpired.symm, rfl, rfl, rfl⟩
  · obtain ⟨rfl, rfl⟩ := Prod.mk.inj hv
    exact ⟨h, rfl, rfl, rfl, rfl⟩

theorem touch (id : String) : Registered (s.touchTokenBestEffort cfg writable id) := by
  unfold State.touchTokenBestEffort
  split
  · exact h.of_eq rfl rfl rfl rfl rfl rfl
  · exact h

end

theorem touch_sockets (s : State) (id : String) :
    (s.touchTokenBestEffort cfg writable id).sockets = s.sockets := by
  unfold State.touchTokenBestEffort
  split <;> rfl

theorem touch_routes (s : State) (id : String) :
    (s.touchTokenBestEffort cfg writable id).routes = s.routes := by
  unfold State.touchTokenBestEffort
  split <;> rfl

theorem touch_seen (s : State) (id : String) :
    (s.touchTokenBestEffort cfg writable id).seen = s.seen := by
  unfold State.touchTokenBestEffort
  split <;> rfl

theorem accepted (h : Registered s) (tokenHash : String) : Registered (s.accepted tokenHash) :=
  h.of_eq rfl rfl rfl rfl rfl rfl

theorem onRequest (h : Registered s) (token : String) :
    Registered (s.onRequest cfg token readable writable) := by
  unfold State.onRequest
  split
  · next s' record hv => exact ((h.validate hv).1.touch record.id).accepted _
  · next s' v _ hv => exact (h.validate hv).1

theorem checkAgentBearer (h : Registered s) (b : Boot) (token : String) :
    Registered (s.checkAgentBearer cfg b token readable writable) := by
  unfold State.checkAgentBearer
  split
  · next s' record hv => exact ((h.validate hv).1.touch record.id).accepted _
  · next s' v _ hv =>
    split
    · exact (h.validate hv).1.accepted _
    · exact (h.validate hv).1

/-- A frame that is acted on comes to a socket that the hub has not decided to end, and one that is
live if the frame registers it. -/
def Prompt (cfg : Setting) (s : State) (c : ClientId) (k : Socket) (readable : Bool) (f : Frame) :
    Prop :=
  s.heeds cfg k readable f = true →
    k.decided = false ∧ (s.registers f = true → k.released = false) ∧ s.grantsToLive c f = true

theorem authFrame (h : Registered s) (hget : s.sockets.get c = some k)
    (hk : k.authenticated = false) {f : Frame} (hprompt : Prompt cfg s c k readable f) :
    Registered (s.authFrame cfg c k f readable writable) := by
  unfold State.authFrame
  split
  · next token windowId =>
    split
    · next s' record hv =>
      obtain ⟨hs', hvalid, hsock, -, -⟩ := h.validate hv
      obtain ⟨hdecided, hlive, -⟩ := hprompt (by simp [State.heeds, hk, ← hvalid,
        TokenValidation.isValid])
      refine ((hs'.touch record.id).accepted _).authenticate ?_ (hlive rfl) hdecided record windowId
      show (s'.touchTokenBestEffort cfg writable record.id).sockets.get c = some k
      rw [touch_sockets, hsock]
      exact hget
    · next s' v _ hv => exact (h.validate hv).1.closeSocket c
  · exact h.closeSocket c

theorem registers_congr {f : Frame} (hroutes : s'.routes = s.routes) :
    s'.registers f = s.registers f := by
  unfold State.registers
  rw [hroutes]

theorem grantsToLive_congr {f : Frame} (hroutes : s'.routes = s.routes) (hsock : SameFlags s s')
    (h : s.grantsToLive c f = true) : s'.grantsToLive c f = true := by
  unfold State.grantsToLive at h ⊢
  split
  · next ch toClient =>
    rw [hroutes]
    simp only [Bool.or_eq_true] at h ⊢
    refine h.imp_right ?_
    intro hall
    cases hget : s'.sockets.get toClient with
    | none => rfl
    | some k' =>
      obtain ⟨k₀, hget₀, ha, hr⟩ := hsock toClient k' hget
      rw [hget₀] at hall
      simpa [ha, hr] using hall
  · rfl

section

variable (h : Registered s)
include h

theorem checkedFrame (hget : s.sockets.get c = some k)
    (hk : k.authenticated = true) {held : HeldCredential} (hheld : k.credential = some held)
    {f : Frame} (hprompt : Prompt cfg s c k readable f) :
    Registered (s.checkedFrame cfg c k held f readable writable) := by
  unfold State.checkedFrame
  split
  · next s' record hv =>
    obtain ⟨hs', hvalid, hsock, hroutes, hseen⟩ := h.validate hv
    have hget' : s'.sockets.get c = some k := hsock ▸ hget
    -- The frame is acted on, so it is in time.
    have hact : f.acts = true → k.decided = false ∧
        (s.registers f = true → k.released = false) ∧ s.grantsToLive c f = true := by
      intro hf
      refine hprompt ?_
      cases f with
      | malformed | auth _ _ => cases hf
      | lock _ | other => simp [State.heeds, hk, hheld, ← hvalid, TokenValidation.isValid]
    -- It is dispatched in a state whose sockets have the flags they had.
    have hgo : ∀ (s₁ : State) (k₁ : Socket), Registered s₁ → s₁.routes = s.routes →
        s₁.seen = s.seen → s₁.sockets.get c = some k₁ → SameFlags s s₁ →
        k₁.decided = k.decided → Registered (s₁.dispatch c k₁ f) := by
      intro s₁ k₁ h₁ hroutes₁ hseen₁ hget₁ hflags hd
      refine h₁.dispatch ?_
      intro hf
      obtain ⟨hdecided, hlive, hgrant⟩ := hact hf
      have hsame : ∀ k₂, s₁.sockets.get c = some k₂ →
          k₂.authenticated = true ∧ k₂.released = k.released := by
        intro k₂ hget₂
        obtain ⟨k₀, hget₀, ha, hr⟩ := hflags c k₂ hget₂
        obtain ⟨rfl⟩ := hget.symm.trans hget₀
        exact ⟨ha.trans hk, hr⟩
      have hin : c ∈ s₁.seen := hseen₁ ▸ h.seen c k hget
      refine ⟨⟨hin, fun k₂ hget₂ => (hsame k₂ hget₂).1⟩, hd.trans hdecided, ?_,
        grantsToLive_congr hroutes₁ hflags hgrant⟩
      intro hreg
      refine ⟨hin, fun k₂ hget₂ => ⟨(hsame k₂ hget₂).1, (hsame k₂ hget₂).2.trans (hlive ?_)⟩⟩
      rw [← registers_congr hroutes₁]
      exact hreg
    split
    · have hset := hs'.setSocket hget'
        { k with credential := some { held with touchedAt := s'.now } } rfl rfl
      refine hgo _ _ ((hset.touch held.id).accepted _) ((touch_routes _ held.id).trans hroutes)
        ((touch_seen _ held.id).trans hseen) ?_ ?_ rfl
      · refine (congrArg (·.get c) (touch_sockets _ held.id)).trans ?_
        exact get_set_self _ _ _
      · refine SameFlags.setSocket hget
          { k with credential := some { held with touchedAt := s'.now } }
          ((touch_sockets _ held.id).trans ?_) rfl rfl
        rw [← hsock]
    · exact hgo _ k (hs'.accepted _) hroutes hseen hget' (SameFlags.of_eq hsock) rfl
  · next s' v _ hv => exact (h.validate hv).1.endSocket c

theorem onMessage (hget : s.sockets.get c = some k) {f : Frame}
    (hprompt : k.ending = false → Prompt cfg s c k readable f) :
    Registered (s.onMessage cfg c k f readable writable) := by
  unfold State.onMessage
  split
  · exact h
  · next hending =>
    replace hprompt := hprompt (by simpa using hending)
    split
    · exact h
    · split
      · next hk =>
        split
        · next hnone =>
          refine h.dispatch ?_
          intro hf
          have hheeds : s.heeds cfg k readable f = true := by
            cases f with
            | malformed | auth _ _ => cases hf
            | lock _ | other => simp [State.heeds, hk, hnone]
          obtain ⟨hdecided, hlive, hgrant⟩ := hprompt hheeds
          have hself : ∀ k', s.sockets.get c = some k' → k' = k := fun k' hget' =>
            some.inj (hget'.symm.trans hget)
          refine ⟨⟨h.seen c k hget, fun k' hget' => hself k' hget' ▸ hk⟩, hdecided, ?_, hgrant⟩
          intro hreg
          exact ⟨h.seen c k hget, fun k' hget' => hself k' hget' ▸ ⟨hk, hlive hreg⟩⟩
        · next held hheld => exact h.checkedFrame hget hk hheld hprompt
      · next hk => exact h.authFrame hget (by simpa using hk) hprompt

/-! #### The hub -/

theorem hubStarts (authToken : Option String) :
    Registered (s.hubStarts cfg authToken) := by
  have hfresh : ∀ s' : State, s'.heard = s.heard → s'.sockets = .empty → s'.routes = .init →
      Registered s' := by
    intro s' hheard hsock hroutes
    have hnone : ∀ c, s'.sockets.get c = none := by
      intro c
      rw [hsock]
      rfl
    refine ⟨hheard ▸ h.heard, ?_, ?_, ?_, ?_, ?_⟩
    · intro c k hget
      rw [hnone] at hget
      cases hget
    · rw [hroutes]
      exact fun c hc => absurd hc (OrderedSet.not_mem_empty c)
    · rw [hroutes]
      exact .new
    · rw [hroutes]
      exact fun p hp => absurd hp not_mem_nil
    · intro c k hget
      rw [hnone] at hget
      cases hget
  unfold State.hubStarts
  cases authToken with
  | none => exact hfresh _ rfl rfl rfl
  | some token =>
    dsimp only
    split <;> exact hfresh _ rfl rfl rfl

theorem revoke (id : String) : Registered (s.revoke id) := by
  unfold State.revoke
  dsimp only
  split
  · exact h.of_eq rfl rfl rfl rfl rfl rfl
  · refine closeSocketsForToken ?_ id
    exact h.of_eq rfl rfl rfl rfl rfl rfl

theorem answered {i : ℕ} {channelId : Option String}
    (hok : s.inTime cfg (.answered i channelId) = true) {routes : Sockets}
    (hans : s.routes.handleAnswered i channelId = some routes) : Registered { s with routes } := by
  unfold Sockets.handleAnswered at hans
  split at hans
  · cases hans
  next clientId asked hp =>
    have hpending : ∀ p ∈ s.routes.pending.eraseIdx i, p.1 ∈ s.seen ∧
        ∀ k, s.sockets.get p.1 = some k → k.authenticated = true := fun p hmem =>
      h.pending p (mem_of_mem_eraseIdx hmem)
    cases channelId with
    | none =>
      cases hans
      exact ⟨h.heard, h.released, h.connected, h.locks, hpending, h.seen⟩
    | some ch =>
      obtain ⟨-, ⟨rfl⟩⟩ := ite_none_right_eq_some.mp hans
      -- The client authenticated, and was not released.
      have hname : Nameable s clientId := by
        obtain ⟨hseen, hauth⟩ := h.pending (clientId, asked) (mem_of_getElem? hp)
        refine ⟨hseen, ?_⟩
        intro k hget
        refine ⟨hauth k hget, ?_⟩
        simpa [State.inTime, hp, hget] using hok
      exact ⟨h.heard, h.released, h.connected, h.locks.attach hname, hpending, h.seen⟩

end

/-- A step in time keeps released sockets unregistered. -/
theorem step {a : Step} (h : Registered s) (hok : s.inTime cfg a = true)
    (hn : next cfg s a = some s') : Registered s' := by
  cases a with
  | clock now =>
    obtain ⟨-, ⟨rfl⟩⟩ := ite_none_right_eq_some.mp hn
    exact h.of_eq rfl rfl rfl rfl rfl rfl
  | hubStarts authToken =>
    cases hn
    exact h.hubStarts authToken
  | pairs id token =>
    obtain ⟨-, hn⟩ := ite_none_right_eq_some.mp hn
    obtain ⟨tokens, -, rfl⟩ := map_eq_some_iff.mp hn
    exact h.of_eq rfl rfl rfl rfl rfl rfl
  | revokes id =>
    obtain ⟨-, ⟨rfl⟩⟩ := ite_none_right_eq_some.mp hn
    exact h.revoke id
  | request token readable writable =>
    obtain ⟨b, -, rfl⟩ := map_eq_some_iff.mp hn
    exact h.onRequest token
  | agentRequest token readable writable =>
    obtain ⟨b, -, rfl⟩ := map_eq_some_iff.mp hn
    exact h.checkAgentBearer b token
  | connects c =>
    obtain ⟨hnew, hn⟩ := ite_none_left_eq_some.mp hn
    obtain ⟨b, -, rfl⟩ := map_eq_some_iff.mp hn
    exact h.connect b hnew
  | frame c f readable writable =>
    obtain ⟨k, hk, rfl⟩ := map_eq_some_iff.mp hn
    have hget := (filter_eq_some_iff.mp hk).1
    refine h.onMessage hget ?_
    intro hending hheeds
    obtain ⟨⟨hdecided, hlive⟩, hgrant⟩ : (k.decided = false ∧
        (k.released = false ∨ s.registers f = false)) ∧ s.grantsToLive c f = true := by
      simpa [State.inTime, hget, hending, hheeds] using hok
    refine ⟨hdecided, ?_, hgrant⟩
    intro hreg
    rcases hlive with hlive | hnot
    · exact hlive
    · rw [hreg] at hnot
      cases hnot
  | authTimeout c =>
    obtain ⟨k, hk, rfl⟩ := map_eq_some_iff.mp hn
    have hset := h.setSocket (filter_eq_some_iff.mp hk).1 { k with authTimeout := false }
      rfl rfl
    split
    · exact hset
    · exact hset.closeSocket c
  | closes c =>
    obtain ⟨k, hk, rfl⟩ := map_eq_some_iff.mp hn
    have hset := h.setSocket (filter_eq_some_iff.mp hk).1 { k with closed := true } rfl rfl
    exact hset.release c
  | errors c =>
    obtain ⟨k, -, rfl⟩ := map_eq_some_iff.mp hn
    exact h.release c
  | answered i channelId =>
    obtain ⟨routes, hans, rfl⟩ := map_eq_some_iff.mp hn
    exact h.answered hok hans
  | lockTimer timer =>
    cases hn
    exact ⟨h.heard, h.released, h.connected, h.locks.timerFired timer, h.pending, h.seen⟩
  | removeChannel channelId =>
    cases hn
    exact ⟨h.heard, h.released, h.connected, h.locks.removeChannel channelId, h.pending, h.seen⟩

end Registered

/-! ### Main result -/

/-- Once refused, always refused: no use was allowed of a credential that had been revoked, swept or
found expired, and none is now; no frame was acted on, or authenticated its socket, after the hub
decided to end it; and of a socket that was released nothing is registered. -/
def OnceRefused (s : State) : Prop :=
  (∀ u ∈ s.uses, u.ended = false) ∧
  (∀ h ∈ s.ended, ∀ readable record,
    validateTokenHash s.tokens s.now readable h ≠ .valid record) ∧
  (∀ e ∈ s.heard, e.decided = false) ∧
  ∀ c k, s.sockets.get c = some k → k.released = true →
    c ∉ s.clientSendRegistry ∧ s.tokenSockets.get c = none ∧ c ∉ s.routes.connected ∧
      ¬ s.routes.locks.Names c

/-- **Once refused, always refused**, in every run whose steps are in time: of hub starts,
pairings, revocations, requests, sockets, frames, timeouts, errors and closes. -/
theorem once_refused (cfg : Setting) (s : State)
    (h : Run (next cfg) (fun s a => s.inTime cfg a = true) initial s) : OnceRefused s := by
  have hcred : Credentialed cfg s :=
    h.invariant Credentialed.initial fun _ _ _ hs _ hn => hs.step hn
  have hreg : Registered s :=
    h.invariant Registered.initial fun _ _ _ hs hok hn => hs.step hok hn
  refine ⟨hcred.uses, fun x hx readable record => (hcred.ended x hx).not_valid, hreg.heard, ?_⟩
  intro c k hget hrel
  obtain ⟨hregistry, htoken⟩ := hreg.released c k hget hrel
  -- Who is named is not released.
  have hnot : ¬ Nameable s c := by
    intro hname
    have hlive := (hname.2 k hget).2
    rw [hrel] at hlive
    cases hlive
  exact ⟨hregistry, htoken, fun hc => hnot (hreg.connected c hc), fun hc => hnot (hreg.locks c hc)⟩

/-- A setting whose tokens are their own hashes, and last a day. -/
def plain : Setting := ⟨id, 1⟩

/-- A paired device connects and attaches; its token is revoked, and it comes back with it. -/
def revokedDevice : List Step :=
  [.hubStarts (some "p"), .pairs "01ABCDEFGH01ABCDEFGH01ABCD" "t", .connects "c",
    .frame "c" (.auth "t" none) true true,
    .frame "c" (.lock (.attach "01ABCDEFGH01ABCDEFGH01ABCE")) true true,
    .answered 0 (some "01ABCDEFGH01ABCDEFGH01ABCE"), .revokes "01ABCDEFGH01ABCDEFGH01ABCD",
    .frame "c" .other true true, .closes "c", .connects "d", .frame "d" (.auth "t" none) true true,
    .request "t" true true]

theorem once_refused_revoked : ∃ s,
    Run (next plain) (fun s a => s.inTime plain a = true) initial s ∧
    s.ended = ["t"] ∧ s.uses.length = 2 ∧ s.heard.length = 2 ∧
    (s.sockets.get "c").map (·.released) = some true ∧ OnceRefused s := by
  have hrun : Run (next plain) (fun s a => s.inTime plain a = true) initial _ :=
    .get revokedDevice (by decide +kernel) (by decide +kernel)
  exact ⟨_, hrun, by decide +kernel, by decide +kernel, by decide +kernel, by decide +kernel,
    once_refused plain _ hrun⟩

/-- A socket that fails to authenticate is closed, and authenticates before its close event. -/
theorem late_auth_accepted : ¬ ∀ s, Run (next plain) free initial s → OnceRefused s := by
  intro h
  have hrun : Run (next plain) free initial _ := .get_free [.hubStarts (some "p"), .connects "c",
    .frame "c" (.auth "wrong" none) true true, .frame "c" (.auth "p" none) true true,
    .frame "c" .other true true] (by decide +kernel)
  obtain ⟨-, -, hheard, -⟩ := h _ hrun
  exact absurd (hheard ⟨"c", true⟩ (by decide +kernel)) (by decide)

end Lasterm.Hub.Auth
