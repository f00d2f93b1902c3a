import Lasterm.Hub.Credentials
import Lasterm.Hub.WriteLockHandlers

/-!
# Who may use the hub

The checks of a credential: the REST hook (`server.ts`), the agent routes' own check
(`api/agents.ts`) and the life of a `/ws` socket (`ws/ws-handler.ts`), over the token store and the
write locks.  The hub is the one that `startHub` builds, with its database.

A socket authenticates with its first frame and its credential is checked again before every later
one.  The hub ends a socket in two ways.  `end` marks it as ending and releases what it holds before
the close handshake.  A socket that has not authenticated, or fails to, is only closed: nothing is
marked, and the frames that come until its close event are read as before.

A frame is one step, also the answer to an `ATTACH` or a `SPAWN`, which may come after the socket
was released.

## Main results

* `Credentialed.step` — **a credential that was revoked, swept or found expired has ended, and is
  not used again**: kept by every step.
-/

namespace Lasterm.Hub.Auth

open Transition Option OrderedMap List

/-- The id of a socket's client. -/
abbrev ClientId := String

/-- The token's hash, and how long a token lasts. -/
structure Setting where
  hashToken : String → String
  ttlDays : ℚ

/-- The token a socket came in with. -/
structure HeldCredential where
  id : String
  tokenHash : String
  touchedAt : ℕ

/-- One WebSocket connection. -/
structure Socket where
  authenticated : Bool
  credential : Option HeldCredential
  ending : Bool
  released : Bool
  /-- The timer that ends a socket without AUTH is live. -/
  authTimeout : Bool
  decided : Bool
  closed : Bool

/-- What a client sends. -/
inductive Frame
  | malformed
  | auth (token : String) (windowId : Option String)
  | lock (msg : Sockets.Message)
  | other
  deriving DecidableEq

/-- A use that the hub allowed, and whether the credential had been revoked, swept or found expired
before. -/
structure Use where
  tokenHash : String
  ended : Bool

/-- A frame that authenticated its socket or was acted on, and whether the hub had decided to end
the socket before. -/
structure Heard where
  clientId : ClientId
  decided : Bool
  deriving DecidableEq

/-- A running hub; without a token it asks for none. -/
structure Boot where
  authToken : Option String

/-- The hub with its sockets. -/
structure State where
  now : ℕ
  tokens : AuthTokens
  hub : Option Boot
  /-- The write locks, the session clients (`connected`) and the answers awaited. -/
  routes : Sockets
  clientSendRegistry : OrderedSet ClientId
  tokenSockets : OrderedMap ClientId String
  /-- The sockets of this run of the hub, the closed ones too. -/
  sockets : OrderedMap ClientId Socket
  /-- Every client id generated or named so far: `generateId` gives none of them. -/
  seen : List ClientId
  /-- The credentials that were revoked, swept or found expired. -/
  ended : List String
  uses : List Use
  heard : List Heard

namespace State

variable (cfg : Setting) (s : State)

/-! ### Credentials -/

/-- Ask the store; what it finds expired is noted. -/
def validate (readable : Bool) (tokenHash : String) : State × TokenValidation :=
  match validateTokenHash s.tokens s.now readable tokenHash with
  | .invalid .expired => ({ s with ended := tokenHash :: s.ended }, .invalid .expired)
  | validation => (s, validation)

/-- The credential is accepted. -/
def accepted (tokenHash : String) : State :=
  { s with uses := s.uses ++ [⟨tokenHash, tokenHash ∈ s.ended⟩] }

/-- The use of a token is noted, if meta.db can be written. -/
def touchTokenBestEffort (writable : Bool) (id : String) : State :=
  if writable then { s with tokens := s.tokens.touchToken s.now cfg.ttlDays id } else s

/-- The REST hook, for a request that carries a bearer token. -/
def onRequest (token : String) (readable writable : Bool) : State :=
  match s.validate readable (cfg.hashToken token) with
  | (s, .valid record) => (s.touchTokenBestEffort cfg writable record.id).accepted record.tokenHash
  | (s, _) => s

/-- The agent routes: the primary token is accepted also without the store. -/
def checkAgentBearer (b : Boot) (token : String) (readable writable : Bool) : State :=
  match s.validate readable (cfg.hashToken token) with
  | (s, .valid record) => (s.touchTokenBestEffort cfg writable record.id).accepted record.tokenHash
  | (s, _) => if b.authToken = some token then s.accepted (cfg.hashToken token) else s

/-! ### Sockets -/

/-- `socket.close`: the close handshake begins. -/
def closeSocket (clientId : ClientId) : State :=
  match s.sockets.get clientId with
  | none => s
  | some k => { s with sockets := s.sockets.set clientId { k with decided := true } }

/-- Detach the client from everything it holds, once. -/
def release (clientId : ClientId) : State :=
  match s.sockets.get clientId with
  | none => s
  | some k =>
    if k.released then s
    else
      { s with
        clientSendRegistry := s.clientSendRegistry.delete clientId
        tokenSockets := s.tokenSockets.delete clientId
        sockets := s.sockets.set clientId { k with released := true, authTimeout := false }
        routes := if k.authenticated then s.routes.releaseSocket clientId else s.routes }

/-- `end`: marked, released, and closed. -/
def endSocket (clientId : ClientId) : State :=
  match s.sockets.get clientId with
  | none => s
  | some k =>
    if k.ending then s
    else
      ({ s with sockets := s.sockets.set clientId { k with ending := true } }.release
        clientId).closeSocket clientId

/-- Every socket that authenticated with the token is refused. -/
def closeSocketsForToken (tokenId : String) : State :=
  ((s.tokenSockets.entries.filter fun e => e.2 = tokenId).map Prod.fst).foldl endSocket s

/-- `SOCKET_TOKEN_TOUCH_INTERVAL_MS`. -/
def SOCKET_TOKEN_TOUCH_INTERVAL_MS : ℕ := 60000

/-- A socket connects: before its AUTH, unless the hub asks for none. -/
def connect (b : Boot) (clientId : ClientId) : State :=
  let open' := b.authToken.isNone
  { s with
    seen := clientId :: s.seen
    clientSendRegistry := s.clientSendRegistry.add clientId
    sockets := s.sockets.set clientId
      { authenticated := open', credential := none, ending := false, released := false
        authTimeout := !open', decided := false, closed := false }
    routes := if open' then s.routes.accept clientId none else s.routes }

/-- A valid AUTH. -/
def authenticate (clientId : ClientId) (k : Socket) (record : TokenRow)
    (windowId : Option String) : State :=
  { s with
    sockets := s.sockets.set clientId
      { k with
        authenticated := true
        credential := some ⟨record.id, record.tokenHash, s.now⟩
        authTimeout := false }
    tokenSockets := s.tokenSockets.set clientId record.id
    routes := s.routes.accept clientId
      ((windowId.filter fun w => isValidUlid w).map fun w => ⟨record.id, w⟩)
    heard := s.heard ++ [⟨clientId, k.decided⟩] }

/-- The handler of a message; an AUTH again has none. -/
def dispatch (clientId : ClientId) (k : Socket) : Frame → State
  | .malformed | .auth _ _ => s
  | .lock msg =>
    { s with
      routes := s.routes.handle clientId msg
      seen :=
        match msg with
        | .writeGrant _ toClientId => toClientId :: s.seen
        | _ => s.seen
      heard := s.heard ++ [⟨clientId, k.decided⟩] }
  | .other => { s with heard := s.heard ++ [⟨clientId, k.decided⟩] }

/-- The first frame must be an AUTH, and a valid one; the socket is closed otherwise. -/
def authFrame (clientId : ClientId) (k : Socket) (f : Frame) (readable writable : Bool) : State :=
  match f with
  | .auth token windowId =>
    match s.validate readable (cfg.hashToken token) with
    | (s, .valid record) =>
      ((s.touchTokenBestEffort cfg writable record.id).accepted record.tokenHash).authenticate
        clientId k record windowId
    | (s, _) => s.closeSocket clientId
  | _ => s.closeSocket clientId

/-- `stillValid`, and the frame if it is. -/
def checkedFrame (clientId : ClientId) (k : Socket) (held : HeldCredential) (f : Frame)
    (readable writable : Bool) : State :=
  match s.validate readable held.tokenHash with
  | (s, .valid _) =>
    if SOCKET_TOKEN_TOUCH_INTERVAL_MS ≤ s.now - held.touchedAt then
      let k := { k with credential := some { held with touchedAt := s.now } }
      (({ s with sockets := s.sockets.set clientId k }.touchTokenBestEffort cfg writable
        held.id).accepted held.tokenHash).dispatch clientId k f
    else (s.accepted held.tokenHash).dispatch clientId k f
  | (s, _) => s.endSocket clientId

/-- A frame is received. -/
def onMessage (clientId : ClientId) (k : Socket) (f : Frame) (readable writable : Bool) : State :=
  if k.ending then s
  else if f = .malformed then s
  else if k.authenticated then
    match k.credential with
    | none => s.dispatch clientId k f
    | some held => s.checkedFrame cfg clientId k held f readable writable
  else s.authFrame cfg clientId k f readable writable

/-! ### The hub -/

/-- The hub starts: the tokens are swept before anything is served, and nothing is left of the run
before.  It does not start if another row has the hash of `auth.json`'s token. -/
def hubStarts (authToken : Option String) : State :=
  let swept := s.tokens.sweepNonPrimaryTokens s.now
  let s := { s with
    tokens := swept
    ended := (s.tokens.rows.filter fun r => r.id ≠ PRIMARY_TOKEN_ID).map (·.tokenHash) ++ s.ended
    hub := none
    routes := .init
    clientSendRegistry := .empty
    tokenSockets := .empty
    sockets := .empty }
  match authToken with
  | none => { s with hub := some ⟨none⟩ }
  | some token =>
    match swept.upsertPrimaryToken (cfg.hashToken token) with
    | none => s
    | some tokens => { s with tokens, hub := some ⟨some token⟩ }

/-- A token is revoked, and its sockets are closed. -/
def revoke (id : String) : State :=
  let revoked := s.tokens.rows.filter (AuthTokens.revocable id)
  let s := { s with
    tokens := s.tokens.revokeToken s.now id
    ended := revoked.map (·.tokenHash) ++ s.ended }
  if revoked.isEmpty then s else s.closeSocketsForToken id

end State

/-- What can happen next.  A store that cannot be read or written is part of it. -/
inductive Step
  | clock (now : ℕ)
  | hubStarts (authToken : Option String)
  | pairs (id token : String)
  | revokes (id : String)
  | request (token : String) (readable writable : Bool)
  | agentRequest (token : String) (readable writable : Bool)
  | connects (clientId : ClientId)
  | frame (clientId : ClientId) (f : Frame) (readable writable : Bool)
  | authTimeout (clientId : ClientId)
  | closes (clientId : ClientId)
  | errors (clientId : ClientId)
  | answered (i : ℕ) (channelId : Option String)
  | lockTimer (timer : ℕ)
  | removeChannel (channelId : String)

/-- One step. -/
def next (cfg : Setting) (s : State) : Step → Option State
  | .clock now => if s.now ≤ now then some { s with now } else none
  | .hubStarts authToken => some (s.hubStarts cfg authToken)
  | .pairs id token =>
    if s.hub.isSome && isValidUlid id then
      (s.tokens.createToken s.now cfg.ttlDays id (cfg.hashToken token)).map fun tokens =>
        { s with tokens }
    else none
  | .revokes id => if s.hub.isSome then some (s.revoke id) else none
  | .request token readable writable =>
    (s.hub.filter fun b => b.authToken.isSome).map fun _ =>
      s.onRequest cfg token readable writable
  | .agentRequest token readable writable =>
    s.hub.map fun b => s.checkAgentBearer cfg b token readable writable
  | .connects clientId =>
    if clientId ∈ s.seen then none else s.hub.map fun b => s.connect b clientId
  | .frame clientId f readable writable =>
    ((s.sockets.get clientId).filter fun k => !k.closed).map fun k =>
      s.onMessage cfg clientId k f readable writable
  | .authTimeout clientId =>
    ((s.sockets.get clientId).filter fun k => k.authTimeout).map fun k =>
      let s := { s with sockets := s.sockets.set clientId { k with authTimeout := false } }
      if k.authenticated then s else s.closeSocket clientId
  | .closes clientId =>
    ((s.sockets.get clientId).filter fun k => !k.closed).map fun k =>
      { s with sockets := s.sockets.set clientId { k with closed := true } }.release clientId
  | .errors clientId =>
    ((s.sockets.get clientId).filter fun k => !k.closed).map fun _ => s.release clientId
  | .answered i channelId =>
    (s.routes.handleAnswered i channelId).map fun routes => { s with routes }
  | .lockTimer timer =>
    some { s with routes := { s.routes with locks := s.routes.locks.timerFired timer } }
  | .removeChannel channelId =>
    some { s with routes := { s.routes with locks := s.routes.locks.removeChannel channelId } }

/-- No hub has started, and nobody is connected. -/
def initial : State where
  now := 0
  tokens := .empty
  hub := none
  routes := .init
  clientSendRegistry := .empty
  tokenSockets := .empty
  sockets := .empty
  seen := []
  ended := []
  uses := []
  heard := []

/-! ### Credentials, in every run -/

/-- What is known of the credentials. -/
structure Credentialed (cfg : Setting) (s : State) : Prop where
  durable : Durable s.tokens
  ended : ∀ h ∈ s.ended, Ended s.tokens s.now h
  primary : ∀ token, s.hub = some ⟨some token⟩ →
    Has s.tokens PRIMARY_TOKEN_ID (cfg.hashToken token)
  held : ∀ c k held, s.sockets.get c = some k → k.credential = some held →
    Has s.tokens held.id held.tokenHash
  uses : ∀ u ∈ s.uses, u.ended = false

/-- Nothing of the credentials changes, and no socket has another. -/
structure SameCredentials (s s' : State) : Prop where
  tokens : s'.tokens = s.tokens
  now : s'.now = s.now
  hub : s'.hub = s.hub
  ended : s'.ended = s.ended
  uses : s'.uses = s.uses
  held : ∀ c k held, s'.sockets.get c = some k → k.credential = some held →
    ∃ k₀, s.sockets.get c = some k₀ ∧ k₀.credential = some held

namespace SameCredentials

variable {s s' s'' : State} {c : ClientId} {k : Socket}

theorem refl (s : State) : SameCredentials s s :=
  ⟨rfl, rfl, rfl, rfl, rfl, fun _ k _ hget hheld => ⟨k, hget, hheld⟩⟩

theorem trans (h : SameCredentials s s') (h' : SameCredentials s' s'') :
    SameCredentials s s'' where
  tokens := h'.tokens.trans h.tokens
  now := h'.now.trans h.now
  hub := h'.hub.trans h.hub
  ended := h'.ended.trans h.ended
  uses := h'.uses.trans h.uses
  held := by
    intro c k held hget hheld
    obtain ⟨k', hget', hheld'⟩ := h'.held c k held hget hheld
    exact h.held c k' held hget' hheld'

theorem setSocket (hget : s.sockets.get c = some k) (k' : Socket)
    (hsame : k'.credential = k.credential) :
    SameCredentials s { s with sockets := s.sockets.set c k' } := by
  refine ⟨rfl, rfl, rfl, rfl, rfl, ?_⟩
  intro c' k₁ held hget' hheld
  rw [get_set] at hget'
  split at hget'
  · next hc =>
    cases hget'
    exact ⟨k, hc ▸ hget, hsame ▸ hheld⟩
  · exact ⟨k₁, hget', hheld⟩

theorem closeSocket (s : State) (c : ClientId) : SameCredentials s (s.closeSocket c) := by
  unfold State.closeSocket
  split
  · exact refl s
  · next k hget => exact setSocket hget _ rfl

theorem release (s : State) (c : ClientId) : SameCredentials s (s.release c) := by
  unfold State.release
  split
  · exact refl s
  · next k hget =>
    split
    · exact refl s
    · have hset := setSocket hget { k with released := true, authTimeout := false } rfl
      exact ⟨rfl, rfl, rfl, rfl, rfl, hset.held⟩

theorem endSocket (s : State) (c : ClientId) : SameCredentials s (s.endSocket c) := by
  unfold State.endSocket
  split
  · exact refl s
  · next k hget =>
    split
    · exact refl s
    · have hset := setSocket hget { k with ending := true } rfl
      exact hset.trans ((release _ c).trans (closeSocket _ c))

theorem closeSocketsForToken (s : State) (tokenId : String) :
    SameCredentials s (s.closeSocketsForToken tokenId) := by
  unfold State.closeSocketsForToken
  -- One socket after another.
  generalize (s.tokenSockets.entries.filter fun e => e.2 = tokenId).map Prod.fst = l
  induction l generalizing s with
  | nil => exact refl s
  | cons c l ih => exact (endSocket s c).trans (ih _)

theorem dispatch (s : State) (c : ClientId) (k : Socket) (f : Frame) :
    SameCredentials s (s.dispatch c k f) := by
  cases f with
  | malformed | auth _ _ => exact refl s
  | lock _ | other =>
    exact ⟨rfl, rfl, rfl, rfl, rfl, fun _ k _ hget hheld => ⟨k, hget, hheld⟩⟩

end SameCredentials

namespace Credentialed

variable {cfg : Setting} {s s' : State} {c : ClientId} {k : Socket} {readable writable : Bool}

theorem initial : Credentialed cfg initial where
  durable := by simp [Durable, Auth.initial, AuthTokens.empty]
  ended := by simp [Auth.initial]
  primary := by simp [Auth.initial]
  held := by simp [Auth.initial]
  uses := by simp [Auth.initial]

section

variable (h : Credentialed cfg s)
include h

theorem same (hs : SameCredentials s s') : Credentialed cfg s' where
  durable := hs.tokens ▸ h.durable
  ended := by
    rw [hs.ended, hs.tokens, hs.now]
    exact h.ended
  primary := by
    rw [hs.hub, hs.tokens]
    exact h.primary
  held := by
    intro c k held hget hheld
    obtain ⟨k₀, hget₀, hheld₀⟩ := hs.held c k held hget hheld
    rw [hs.tokens]
    exact h.held c k₀ held hget₀ hheld₀
  uses := hs.uses ▸ h.uses

/-- What `validate` says is so of the store, and only what it noted has changed. -/
theorem validate {tokenHash : String} {v : TokenValidation}
    (hv : s.validate readable tokenHash = (s', v)) :
    Credentialed cfg s' ∧ v = validateTokenHash s.tokens s.now readable tokenHash ∧
      (∃ ended, s' = { s with ended }) := by
  unfold State.validate at hv
  split at hv
  · next hexpired =>
    obtain ⟨rfl, rfl⟩ := Prod.mk.inj hv
    refine ⟨⟨h.durable, ?_, h.primary, h.held, h.uses⟩, hexpired.symm, _, rfl⟩
    intro h' hmem
    rcases mem_cons.mp hmem with rfl | hmem
    · exact ended_of_expired h.durable hexpired
    · exact h.ended h' hmem
  · obtain ⟨rfl, rfl⟩ := Prod.mk.inj hv
    exact ⟨h, rfl, s.ended, rfl⟩

theorem accepted {tokenHash : String} (hnot : tokenHash ∉ s.ended) :
    Credentialed cfg (s.accepted tokenHash) := by
  refine ⟨h.durable, h.ended, h.primary, h.held, ?_⟩
  intro u hu
  rcases mem_append.mp hu with hu | hu
  · exact h.uses u hu
  · obtain rfl := mem_singleton.mp hu
    exact decide_eq_false hnot

theorem touch {r : TokenRow} {w : Bool} (hr : r ∈ s.tokens.rows)
    (hlive : ¬ r.Spent s.now) : Credentialed cfg (s.touchTokenBestEffort cfg w r.id) := by
  unfold State.touchTokenBestEffort
  split
  · refine ⟨h.durable.touchToken cfg.ttlDays r.id, ?_, ?_, ?_, h.uses⟩
    · intro h' hmem
      exact (h.ended h' hmem).touchToken cfg.ttlDays hr hlive
    · intro token hhub
      exact (h.primary token hhub).touchToken cfg.ttlDays r.id
    · intro c k held hget hheld
      exact (h.held c k held hget hheld).touchToken cfg.ttlDays r.id
  · exact h

theorem use {tokenHash : String} {record : TokenRow}
    (hv : s.validate readable tokenHash = (s', .valid record)) :
    Credentialed cfg ((s'.touchTokenBestEffort cfg writable record.id).accepted
      record.tokenHash) := by
  obtain ⟨hs', hvalid, ended, rfl⟩ := h.validate hv
  obtain ⟨hr, hhash, hlive⟩ := validateTokenHash_valid hvalid.symm
  refine (hs'.touch hr hlive).accepted ?_
  have hnot : record.tokenHash ∉ ended := by
    intro hmem
    have hagain : validateTokenHash s.tokens s.now readable record.tokenHash = .valid record := by
      rw [hhash]
      exact hvalid.symm
    exact (hs'.ended _ hmem).not_valid hagain
  unfold State.touchTokenBestEffort
  split <;> exact hnot

theorem onRequest (token : String) :
    Credentialed cfg (s.onRequest cfg token readable writable) := by
  unfold State.onRequest
  split
  · next s' record hv => exact h.use hv
  · next s' v _ hv => exact (h.validate hv).1

theorem checkAgentBearer {b : Boot} (hb : s.hub = some b)
    (token : String) : Credentialed cfg (s.checkAgentBearer cfg b token readable writable) := by
  unfold State.checkAgentBearer
  split
  · next s' record hv => exact h.use hv
  · next s' v _ hv =>
    obtain ⟨hs', -, ended, rfl⟩ := h.validate hv
    split
    · next htoken =>
      -- The primary row has this hash, and no other.
      have hprimary := hs'.primary token (by rw [← htoken]; exact hb)
      refine hs'.accepted ?_
      exact fun hmem => hprimary.not_ended (hs'.ended _ hmem)
    · exact hs'

theorem connect (b : Boot) : Credentialed cfg (s.connect b c) := by
  refine ⟨h.durable, h.ended, h.primary, ?_, h.uses⟩
  intro c' k held hget hheld
  simp only [State.connect, get_set] at hget
  split at hget
  · cases hget
    cases hheld
  · exact h.held c' k held hget hheld

theorem authFrame (f : Frame) : Credentialed cfg (s.authFrame cfg c k f readable writable) := by
  unfold State.authFrame
  split
  · next token windowId =>
    split
    · next s' record hv =>
      have hused : Credentialed cfg ((s'.touchTokenBestEffort cfg writable record.id).accepted
          record.tokenHash) := h.use hv
      obtain ⟨-, hvalid, ended, rfl⟩ := h.validate hv
      obtain ⟨hr, -, -⟩ := validateTokenHash_valid hvalid.symm
      refine ⟨hused.durable, hused.ended, hused.primary, ?_, hused.uses⟩
      intro c' k' held hget hheld
      simp only [State.authenticate, get_set] at hget
      split at hget
      · cases hget
        cases hheld
        -- The row that was found has its id and its hash, touched or not.
        have hrow : Has s.tokens record.id record.tokenHash := ⟨record, hr, rfl, rfl⟩
        unfold State.authenticate State.accepted State.touchTokenBestEffort
        split
        · exact hrow.touchToken cfg.ttlDays record.id
        · exact hrow
      · exact hused.held c' k' held hget hheld
    · next s' v _ hv => exact (h.validate hv).1.same (SameCredentials.closeSocket s' c)
  · exact h.same (SameCredentials.closeSocket s c)

theorem checkedFrame (hget : s.sockets.get c = some k)
    {held : HeldCredential} (hheld : k.credential = some held) (f : Frame) :
    Credentialed cfg (s.checkedFrame cfg c k held f readable writable) := by
  unfold State.checkedFrame
  split
  · next s' record hv =>
    obtain ⟨hs', hvalid, ended, rfl⟩ := h.validate hv
    obtain ⟨hr, hhash, hlive⟩ := validateTokenHash_valid hvalid.symm
    -- The socket's credential is the row that was found.
    obtain ⟨r, hr', hid, hhash'⟩ := h.held c k held hget hheld
    obtain rfl := AuthTokens.eq_of_hash hr hr' (hhash.trans hhash'.symm)
    have hnot : held.tokenHash ∉ ended := fun hmem =>
      (hs'.ended _ hmem).not_valid hvalid.symm
    split
    · -- Its use is noted on the socket too.
      have hset : Credentialed cfg { s with
          ended
          sockets := s.sockets.set c
            { k with credential := some { held with touchedAt := s.now } } } := by
        refine ⟨hs'.durable, hs'.ended, hs'.primary, ?_, hs'.uses⟩
        intro c' k' held' hget' hheld'
        rw [get_set] at hget'
        split at hget'
        · cases hget'
          cases hheld'
          exact h.held c k held hget hheld
        · exact hs'.held c' k' held' hget' hheld'
      have htouch := hset.touch hr hlive (w := writable)
      rw [hid] at htouch
      refine (htouch.accepted ?_).same (SameCredentials.dispatch _ c _ f)
      unfold State.touchTokenBestEffort
      split <;> exact hnot
    · exact (hs'.accepted hnot).same (SameCredentials.dispatch _ c k f)
  · next s' v _ hv => exact (h.validate hv).1.same (SameCredentials.endSocket s' c)

theorem onMessage (hget : s.sockets.get c = some k) (f : Frame) :
    Credentialed cfg (s.onMessage cfg c k f readable writable) := by
  unfold State.onMessage
  split
  · exact h
  · split
    · exact h
    · split
      · split
        · exact h.same (SameCredentials.dispatch s c k f)
        · next held hheld => exact h.checkedFrame hget hheld f
      · exact h.authFrame f

theorem hubStarts (authToken : Option String) : Credentialed cfg (s.hubStarts cfg authToken) := by
  have hended : ∀ x ∈ (s.tokens.rows.filter fun r => r.id ≠ PRIMARY_TOKEN_ID).map (·.tokenHash) ++
      s.ended, Ended (s.tokens.sweepNonPrimaryTokens s.now) s.now x := by
    intro x hx
    rcases mem_append.mp hx with hx | hx
    · obtain ⟨r, hr, rfl⟩ := mem_map.mp hx
      obtain ⟨hr, hid⟩ := mem_filter.mp hr
      exact ended_of_sweep hr (by simpa using hid)
    · exact (h.ended x hx).sweep
  have hdurable : Durable (s.tokens.sweepNonPrimaryTokens s.now) := h.durable.sweep
  unfold State.hubStarts
  cases authToken with
  | none => exact ⟨hdurable, hended, by simp, by simp, h.uses⟩
  | some token =>
    dsimp only
    split
    · exact ⟨hdurable, hended, by simp, by simp, h.uses⟩
    · next tokens hup =>
      obtain ⟨hd, hprimary⟩ := upsertPrimaryToken_spec hdurable hup
      refine ⟨hd, fun x hx => (hended x hx).upsertPrimaryToken hup, ?_, by simp, h.uses⟩
      rintro token' ⟨⟩
      exact hprimary

theorem revoke (id : String) : Credentialed cfg (s.revoke id) := by
  have hrevoked : Credentialed cfg { s with
      tokens := s.tokens.revokeToken s.now id
      ended := (s.tokens.rows.filter (AuthTokens.revocable id)).map (·.tokenHash) ++ s.ended } := by
    refine ⟨h.durable.revokeToken id, ?_, ?_, ?_, h.uses⟩
    · intro x hx
      rcases mem_append.mp hx with hx | hx
      · obtain ⟨r, hr, rfl⟩ := mem_map.mp hx
        obtain ⟨hr, hrev⟩ := mem_filter.mp hr
        exact ended_of_revokeToken hr hrev
      · exact (h.ended x hx).revokeToken id
    · intro token hhub
      exact (h.primary token hhub).revokeToken id
    · intro c k held hget hheld
      exact (h.held c k held hget hheld).revokeToken id
  unfold State.revoke
  dsimp only
  split
  · exact hrevoked
  · exact hrevoked.same (SameCredentials.closeSocketsForToken _ id)

theorem pairs {id token : String} {tokens : AuthTokens} (hid : isValidUlid id = true)
    (hcreate : s.tokens.createToken s.now cfg.ttlDays id (cfg.hashToken token) = some tokens) :
    Credentialed cfg { s with tokens } := by
  -- A generated id is not the primary one.
  have hne : id ≠ PRIMARY_TOKEN_ID := by
    rintro rfl
    exact absurd hid (by decide)
  refine ⟨h.durable.insertRow hcreate fun hp => absurd hp hne, ?_, ?_, ?_, h.uses⟩
  · intro x hx
    exact (h.ended x hx).insertRow hcreate
  · intro token hhub
    exact (h.primary token hhub).insertRow hcreate
  · intro c k held hget hheld
    exact (h.held c k held hget hheld).insertRow hcreate

end

/-- Every step keeps it. -/
theorem step {a : Step} (h : Credentialed cfg s) (hn : next cfg s a = some s') :
    Credentialed cfg s' := by
  cases a with
  | clock now =>
    obtain ⟨hle, ⟨rfl⟩⟩ := ite_none_right_eq_some.mp hn
    exact ⟨h.durable, fun x hx => (h.ended x hx).later hle, h.primary, h.held, h.uses⟩
  | hubStarts authToken =>
    cases hn
    exact h.hubStarts authToken
  | pairs id token =>
    obtain ⟨hcond, hn⟩ := ite_none_right_eq_some.mp hn
    obtain ⟨tokens, hcreate, rfl⟩ := map_eq_some_iff.mp hn
    simp only [Bool.and_eq_true] at hcond
    exact h.pairs hcond.2 hcreate
  | revokes id =>
    obtain ⟨-, ⟨rfl⟩⟩ := ite_none_right_eq_some.mp hn
    exact h.revoke id
  | request token readable writable =>
    obtain ⟨b, -, rfl⟩ := map_eq_some_iff.mp hn
    exact h.onRequest token
  | agentRequest token readable writable =>
    obtain ⟨b, hb, rfl⟩ := map_eq_some_iff.mp hn
    exact h.checkAgentBearer hb token
  | connects c =>
    obtain ⟨-, hn⟩ := ite_none_left_eq_some.mp hn
    obtain ⟨b, -, rfl⟩ := map_eq_some_iff.mp hn
    exact h.connect b
  | frame c f readable writable =>
    obtain ⟨k, hk, rfl⟩ := map_eq_some_iff.mp hn
    exact h.onMessage (filter_eq_some_iff.mp hk).1 f
  | authTimeout c =>
    obtain ⟨k, hk, rfl⟩ := map_eq_some_iff.mp hn
    have hset := SameCredentials.setSocket (filter_eq_some_iff.mp hk).1
      { k with authTimeout := false } rfl
    split
    · exact h.same hset
    · exact h.same (hset.trans (SameCredentials.closeSocket _ c))
  | closes c =>
    obtain ⟨k, hk, rfl⟩ := map_eq_some_iff.mp hn
    have hset := SameCredentials.setSocket (filter_eq_some_iff.mp hk).1
      { k with closed := true } rfl
    exact h.same (hset.trans (SameCredentials.release _ c))
  | errors c =>
    obtain ⟨k, -, rfl⟩ := map_eq_some_iff.mp hn
    exact h.same (SameCredentials.release s c)
  | answered i channelId =>
    obtain ⟨routes, -, rfl⟩ := map_eq_some_iff.mp hn
    exact ⟨h.durable, h.ended, h.primary, h.held, h.uses⟩
  | lockTimer | removeChannel =>
    cases hn
    exact ⟨h.durable, h.ended, h.primary, h.held, h.uses⟩

end Credentialed

end Lasterm.Hub.Auth
