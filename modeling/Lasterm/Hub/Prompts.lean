import Lasterm.Hub.Acquisition
import Lasterm.Hub.Reconcile

/-!
# Questions put to a person

`prompt-context.ts`: connecting to a host may need a password, a passphrase or a host key
accepted.  Each connection, test or elevation has a *context* that names the window its
questions go to, its *route*; a question is a *prompt* of a context, delivered to the route
with a delivery epoch, and the promise the connection waits on is resolved with the answer,
or with null when the prompt times out or its context is cleared.  When a window goes, its
contexts are routed to another one of the same host or cleared.

What is known of a prompt is kept in four places: the context's own set, `promptIndex`,
`pendingPrompts` and the module's `_inFlight`.  Windows, acquisitions and channels belong to
the rest of the hub, which changes them as it likes.

## Main definitions

* `Prompts` — the four places, the timers, and a record of what the module asked, resolved and
  sent; values of type `unknown` are of the type `ν`.
-/

namespace Lasterm.Hub.Prompt

/-- `PromptContext["kind"]`. -/
inductive Kind
  | session
  | test
  | elevation
deriving DecidableEq

/-- What is asked for. -/
inductive PromptType
  | passphrase
  | hostVerify
  | agentVerify
  | elevation

/-- `PromptContext["state"]`: `OPEN` or `CLOSED`. -/
inductive ContextState
  | opened
  | closed
deriving DecidableEq

/-- What prompts are asked in: a session, or an elevation. -/
structure PromptContext where
  id : String
  kind : Kind
  hostId : String
  routeClientId : String
  state : ContextState
  prompts : OrderedSet String

variable {ν : Type}

/-- `InFlightPrompt`, less its resolver: a promise is named by its prompt. -/
structure InFlightPrompt (ν : Type) where
  contextId : String
  type : PromptType
  deliveryEpoch : ℕ
  /-- After how many milliseconds it fires, if there is one. -/
  timer : Option ℕ
  resendPayload : ν

/-- `PendingPrompt`, likewise. -/
structure PendingPrompt (ν : Type) where
  ownerAcqId : String
  hostId : String
  timer : Option ℕ
  clientId : String
  promptId : String
  contextId : String
  type : PromptType
  deliveryEpoch : ℕ
  resendPayload : ν

/-- A message to a window. -/
inductive Msg (ν : Type)
  /-- The payload with `promptId` and `deliveryEpoch`. -/
  | prompt (payload : ν) (promptId : String) (deliveryEpoch : ℕ)
  | promptCancel (promptId : String)

/-- `ElevationPromptOwner`, as far as it is read. -/
structure ElevationPromptOwner where
  sessionId : String
  channelId : Option String

/-- What the operations read of the rest of the hub. -/
structure World where
  clients : OrderedSet String
  acquisitions : Acq.Acquisitions
  channels : OrderedMap String ChannelState

/-- The tables of `PromptCtxSlice` and of the module, the timers, and what was done. -/
structure Prompts (ν : Type) where
  promptContexts : OrderedMap String PromptContext
  elevationPromptOwners : OrderedMap String ElevationPromptOwner
  promptIndex : OrderedMap String String
  pendingPrompts : OrderedMap String (PendingPrompt ν)
  inFlight : OrderedMap String (InFlightPrompt ν)
  world : World
  timers : OrderedSet String
  /-- Every prompt that was asked, with its context. -/
  asked : List (String × String)
  /-- Every call of a promise's resolver, oldest first. -/
  settled : List (String × Option ν)
  /-- Every message that was sent, or tried to be, with the window it is for. -/
  sent : List (String × Msg ν)

/-- `PROMPT_TIMEOUT_MS`. -/
def promptTimeoutMs : ℕ := 120000

/-- `RECONNECT_CONTEXT_PREFIX`, as characters. -/
def reconnectContextPrefix : List Char := "reconnect:".toList

/-- The id is one of a reconnection's context. -/
def isReconnectContextId (contextId : String) : Bool :=
  reconnectContextPrefix.isPrefixOf contextId.toList

/-- The session an id of a reconnection's context names. -/
def reconnectSessionId (contextId : String) : Option String :=
  if isReconnectContextId contextId then
    some (String.ofList (contextId.toList.drop reconnectContextPrefix.length))
  else none

/-- A string that ECMAScript takes for true: neither missing nor empty. -/
def truthy (v : Option String) : Option String := v.filter (· ≠ "")

/-- `[...candidates].sort()[0]`. -/
def firstInOrder (candidates : List String) : Option String :=
  (candidates.mergeSort fun a b => decide (a ≤ b)).head?

namespace Prompts

/-- No context was opened. -/
def empty (w : World) : Prompts ν :=
  ⟨.empty, .empty, .empty, .empty, .empty, w, .empty, [], [], []⟩

/-- A message is sent to a client. -/
def send (s : Prompts ν) (clientId : String) (msg : Msg ν) : Prompts ν :=
  { s with sent := s.sent ++ [(clientId, msg)] }

/-- Call the resolver of a prompt's promise. -/
def resolve (s : Prompts ν) (promptId : String) (value : Option ν) : Prompts ν :=
  { s with settled := s.settled ++ [(promptId, value)] }

/-! ### The operations -/

/-- `openContext`.  `gid` is what `generateId` gives. -/
def openContext (s : Prompts ν) (kind : Kind) (hostId routeClientId : String)
    (acqId : Option String) (gid : String) : Prompts ν × String :=
  let id := if kind = .session then (truthy acqId).getD gid else gid
  let context : PromptContext := ⟨id, kind, hostId, routeClientId, .opened, .empty⟩
  ({ s with promptContexts := s.promptContexts.set id context }, id)

/-- `_clearPrompt`: out of all four tables, its timer with it. -/
def clearPrompt (s : Prompts ν) (promptId : String) : Prompts ν :=
  let armed := ((s.inFlight.get promptId).bind InFlightPrompt.timer).isSome
  let contextId := s.promptIndex.get promptId
  let context := (truthy contextId).bind s.promptContexts.get
  { s with
    timers := if armed then s.timers.delete promptId else s.timers
    inFlight := s.inFlight.delete promptId
    promptIndex := s.promptIndex.delete promptId
    pendingPrompts := s.pendingPrompts.delete promptId
    promptContexts := match contextId, context with
      | some c, some x =>
        s.promptContexts.set c { x with prompts := x.prompts.delete promptId }
      | _, _ => s.promptContexts }

/-- One prompt of a context that is being cleared. -/
def cancelPrompt (s : Prompts ν) (routeClientId : String) (withSend : Bool) (promptId : String) :
    Prompts ν :=
  let found := (s.inFlight.get promptId).isSome
  let s := if withSend then s.send routeClientId (.promptCancel promptId) else s
  let s := s.clearPrompt promptId
  if found then s.resolve promptId none else s

/-- `clearContext`.  `withSend` says whether it was given a way to send. -/
def clearContext (s : Prompts ν) (contextId : String) (withSend : Bool) : Prompts ν :=
  match s.promptContexts.get contextId with
  | none => s
  | some context =>
    if context.state = .closed then s
    else
      let s := { s with
        promptContexts := s.promptContexts.set contextId { context with state := .closed } }
      let s := context.prompts.elems.foldl
        (fun s promptId => s.cancelPrompt context.routeClientId withSend promptId) s
      { s with
        promptContexts := s.promptContexts.delete contextId
        elevationPromptOwners := s.elevationPromptOwners.delete contextId }

/-- `pickReconnectRouteCandidate`: the first window, in order, over a channel of the session
that has not ended. -/
def pickReconnectRouteCandidate (s : Prompts ν) (hostId sessionId : String)
    (excludeClientId : Option String) : Option String :=
  let candidates := s.world.channels.entries.flatMap fun (_, channel) =>
    if channel.hostId ≠ hostId ∨ channel.sessionId ≠ sessionId ∨ channel.status = .dead then []
    else channel.clients.filter fun clientId =>
      some clientId ≠ excludeClientId ∧ clientId ∈ s.world.clients
  firstInOrder candidates

/-- The windows that hold a lease on an acquisition of the host. -/
def leaseCandidates (s : Prompts ν) (hostId excludeClientId : String) : List String :=
  let r := s.world.acquisitions
  let acqs := r.acquisitions.entries.filterMap fun (_, a) => r.acqs[a]?
  acqs.flatMap fun acq =>
    if acq.hostId ≠ hostId then []
    else (acq.leases.elems.filterMap fun l => r.leases[l]?).filterMap fun lease =>
      if lease.clientId = excludeClientId ∨ lease.released = true ∨
          lease.clientId ∉ s.world.clients then none
      else some lease.clientId

/-- `pickRouteCandidate`: another client of the session, to ask instead. -/
def pickRouteCandidate (s : Prompts ν) (contextId excludeClientId : String) : Option String :=
  match s.promptContexts.get contextId with
  | none => none
  | some context =>
    if context.kind ≠ .session then none
    else if isReconnectContextId context.id then
      match truthy (reconnectSessionId context.id) with
      | none => none
      | some sessionId =>
        s.pickReconnectRouteCandidate context.hostId sessionId (some excludeClientId)
    else firstInOrder (s.leaseCandidates context.hostId excludeClientId)

/-- The tables of a prompt that is asked, and its timer. -/
def storePrompt (s : Prompts ν) (context : PromptContext) (contextId routeClientId : String)
    (type : PromptType) (payload : ν) (timer : Option ℕ) (promptId : String) : Prompts ν :=
  { s with
    promptContexts := s.promptContexts.set contextId
      { context with routeClientId, prompts := context.prompts.add promptId }
    promptIndex := s.promptIndex.set promptId contextId
    pendingPrompts := s.pendingPrompts.set promptId
      ⟨contextId, context.hostId, timer, routeClientId, promptId, contextId, type, 1, payload⟩
    inFlight := s.inFlight.set promptId ⟨contextId, type, 1, timer, payload⟩
    timers := if timer.isSome then s.timers.add promptId else s.timers
    asked := s.asked ++ [(promptId, contextId)] }

/-- `prompt`.  `timeoutMs` is undefined, null or a number; `sendFails` says that the send
throws.  The promise is named by the prompt. -/
def prompt (s : Prompts ν) (contextId : String) (type : PromptType) (payload : ν)
    (timeoutMs : Option (Option ℕ)) (gid : String) (sendFails : Bool) :
    Prompts ν × Option String :=
  match s.promptContexts.get contextId with
  | none => (s, none)
  | some context =>
    if context.state = .closed then (s, none)
    else
      let route :=
        if context.routeClientId ∈ s.world.clients then some context.routeClientId
        else truthy (s.pickRouteCandidate contextId context.routeClientId)
      match route with
      | none => (s.clearContext contextId true, none)
      | some routeClientId =>
        let timer := timeoutMs.getD (some promptTimeoutMs)
        let s := s.storePrompt context contextId routeClientId type payload timer gid
        let s := s.send routeClientId (.prompt payload gid 1)
        (if sendFails then (s.clearPrompt gid).resolve gid none else s, some gid)

/-- The callback of a prompt's timer. -/
def timeout (s : Prompts ν) (promptId : String) : Prompts ν :=
  ({ s with timers := s.timers.delete promptId }.clearPrompt promptId).resolve promptId none

/-- `respond`: the first answer to a prompt from the client it was sent to counts. -/
def respond (s : Prompts ν) (promptId clientId : String) (deliveryEpoch : Option ℕ)
    (value : Option ν) : Prompts ν × Bool :=
  match truthy (s.promptIndex.get promptId) with
  | none => (s, false)
  | some contextId =>
    match s.promptContexts.get contextId with
    | none => (s, false)
    | some context =>
      if context.state = .closed then (s, false)
      else
        match s.inFlight.get promptId with
        | none => (s, false)
        | some inFlight =>
          if clientId ≠ context.routeClientId then (s, false)
          else if deliveryEpoch.isSome ∧ deliveryEpoch ≠ some inFlight.deliveryEpoch then
            (s, false)
          else ((s.clearPrompt promptId).resolve promptId value, true)

/-- One prompt of a context that is routed to another window. -/
def redeliver (s : Prompts ν) (oldRouteClientId newRouteClientId promptId : String) :
    Prompts ν :=
  match s.inFlight.get promptId with
  | none => s
  | some inFlight =>
    let epoch := inFlight.deliveryEpoch + 1
    let s := { s with
      inFlight := s.inFlight.set promptId { inFlight with deliveryEpoch := epoch }
      pendingPrompts := match s.pendingPrompts.get promptId with
        | none => s.pendingPrompts
        | some pending => s.pendingPrompts.set promptId
            { pending with clientId := newRouteClientId, deliveryEpoch := epoch } }
    let s := if oldRouteClientId ≠ newRouteClientId then
      s.send oldRouteClientId (.promptCancel promptId) else s
    s.send newRouteClientId (.prompt inFlight.resendPayload promptId epoch)

/-- `retarget`: what a context asks goes to another client. -/
def retarget (s : Prompts ν) (contextId newRouteClientId : String) : Prompts ν :=
  match s.promptContexts.get contextId with
  | none => s
  | some context =>
    if context.state = .closed then s
    else if context.kind ≠ .session then s
    else
      let s := { s with
        promptContexts := s.promptContexts.set contextId
          { context with routeClientId := newRouteClientId } }
      context.prompts.elems.foldl
        (fun s promptId => s.redeliver context.routeClientId newRouteClientId promptId) s

/-- One context of `clientDisconnect`. -/
def leaveContext (s : Prompts ν) (clientId contextId : String) : Prompts ν :=
  match s.promptContexts.get contextId with
  | none => s
  | some context =>
    if context.state = .closed then s
    else if context.routeClientId ≠ clientId then s
    else if context.kind ≠ .session then s.clearContext contextId true
    else match truthy (s.pickRouteCandidate contextId clientId) with
      | some candidate => s.retarget contextId candidate
      | none => s.clearContext contextId true

/-- `clientDisconnect`: the client goes from every context. -/
def clientDisconnect (s : Prompts ν) (clientId : String) : Prompts ν :=
  s.promptContexts.keys.foldl (fun s contextId => s.leaveContext clientId contextId) s

/-- `trackElevationContext`. -/
def trackElevationContext (s : Prompts ν) (contextId : String) (owner : ElevationPromptOwner) :
    Prompts ν :=
  { s with elevationPromptOwners := s.elevationPromptOwners.set contextId owner }

/-- The elevation contexts of the owners that match are cleared. -/
def clearElevationContextsWhere (s : Prompts ν) (matched : ElevationPromptOwner → Bool)
    (withSend : Bool) : Prompts ν :=
  s.elevationPromptOwners.entries.foldl (fun s (contextId, owner) =>
    if matched owner then
      let s := s.clearContext contextId withSend
      { s with elevationPromptOwners := s.elevationPromptOwners.delete contextId }
    else s) s

/-- `clearElevationContextsForSession`. -/
def clearElevationContextsForSession (s : Prompts ν) (sessionId : String) (withSend : Bool) :
    Prompts ν :=
  s.clearElevationContextsWhere (fun owner => owner.sessionId = sessionId) withSend

/-- `clearElevationContextsForChannel`. -/
def clearElevationContextsForChannel (s : Prompts ν) (channelId : String) (withSend : Bool) :
    Prompts ν :=
  s.clearElevationContextsWhere (fun owner => owner.channelId = some channelId) withSend

/-- `_getOrOpenSessionPromptContext` of the connections: the context of that id if it is
open, with a route that is connected, else a new one. -/
def getOrOpenSessionPromptContext (s : Prompts ν) (contextId : Option String)
    (hostId clientId gid : String) : Prompts ν × Option String :=
  let openFor (route : String) :=
    let (s, id) := s.openContext .session hostId route contextId gid
    (s, some id)
  let openForClient := if clientId ∈ s.world.clients then openFor clientId else (s, none)
  match contextId with
  | none => openForClient
  | some id =>
    match (s.promptContexts.get id).filter fun x => x.state = .opened with
    | some existing =>
      if existing.routeClientId ∈ s.world.clients then (s, some id)
      else match truthy (s.pickRouteCandidate id existing.routeClientId) with
        | none => (s.clearContext id false, none)
        | some candidate =>
          ({ s with
              promptContexts := s.promptContexts.set id
                { existing with routeClientId := candidate } }, some id)
    | none =>
      match reconnectSessionId id with
      | none => openForClient
      | some sessionId =>
        if sessionId = "" then (s, none)
        else match truthy (s.pickReconnectRouteCandidate hostId sessionId none) with
          | none => (s, none)
          | some candidate => openFor candidate

/-- What `shutdown` does with the prompts: every context is cleared, and then what is left. -/
def shutdown (s : Prompts ν) : Prompts ν :=
  let s := s.promptContexts.keys.foldl (fun s contextId => s.clearContext contextId false) s
  let s := s.pendingPrompts.entries.foldl (fun s (promptId, p) =>
    { s with timers := if p.timer.isSome then s.timers.delete promptId else s.timers }.resolve
      promptId none) s
  { s with pendingPrompts := .empty }

end Prompts

/-- One operation, or a timer that fires, or a change of the rest of the hub. -/
inductive Step (ν : Type)
  | openContext (kind : Kind) (hostId routeClientId : String) (acqId : Option String)
      (gid : String)
  | getOrOpen (contextId : Option String) (hostId clientId gid : String)
  | prompt (contextId : String) (type : PromptType) (payload : ν)
      (timeoutMs : Option (Option ℕ)) (gid : String) (sendFails : Bool)
  | timeout (promptId : String)
  | respond (promptId clientId : String) (deliveryEpoch : Option ℕ) (value : Option ν)
  | retarget (contextId newRouteClientId : String)
  | clearContext (contextId : String) (withSend : Bool)
  | clientDisconnect (clientId : String)
  | trackElevationContext (contextId : String) (owner : ElevationPromptOwner)
  | clearElevationContextsForSession (sessionId : String) (withSend : Bool)
  | clearElevationContextsForChannel (channelId : String) (withSend : Bool)
  | shutdown
  | world (w : World)

namespace Prompts

/-- An id from `generateId`: not empty, and given to nothing before. -/
def Generated (s : Prompts ν) (gid : String) : Prop :=
  gid ≠ "" ∧ gid ∉ s.promptContexts.keys ∧ gid ∉ s.asked.map Prod.fst

instance (s : Prompts ν) (gid : String) : Decidable (s.Generated gid) :=
  inferInstanceAs (Decidable (_ ∧ _ ∧ _))

/-- One step.  A timer fires only while it is armed. -/
def next (s : Prompts ν) : Step ν → Option (Prompts ν)
  | .openContext kind hostId routeClientId acqId gid =>
    if s.Generated gid then some (s.openContext kind hostId routeClientId acqId gid).1 else none
  | .getOrOpen contextId hostId clientId gid =>
    if s.Generated gid then
      some (s.getOrOpenSessionPromptContext contextId hostId clientId gid).1
    else none
  | .prompt contextId type payload timeoutMs gid sendFails =>
    if s.Generated gid then
      some (s.prompt contextId type payload timeoutMs gid sendFails).1
    else none
  | .timeout promptId => if promptId ∈ s.timers then some (s.timeout promptId) else none
  | .respond promptId clientId deliveryEpoch value =>
    some (s.respond promptId clientId deliveryEpoch value).1
  | .retarget contextId newRouteClientId => some (s.retarget contextId newRouteClientId)
  | .clearContext contextId withSend => some (s.clearContext contextId withSend)
  | .clientDisconnect clientId => some (s.clientDisconnect clientId)
  | .trackElevationContext contextId owner => some (s.trackElevationContext contextId owner)
  | .clearElevationContextsForSession sessionId withSend =>
    some (s.clearElevationContextsForSession sessionId withSend)
  | .clearElevationContextsForChannel channelId withSend =>
    some (s.clearElevationContextsForChannel channelId withSend)
  | .shutdown => some s.shutdown
  | .world w => some { s with world := w }

end Prompts

end Lasterm.Hub.Prompt
