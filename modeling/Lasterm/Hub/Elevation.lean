import Lasterm.Lib.OrderedMap
import Lasterm.Lib.Run

/-!
# Elevation passwords

An elevated terminal may need a password, which the hub asks a window for and keeps for a while
(`elevationCache`), under the host it is for and the window that typed it.  A SPAWN (`spawnOnHost`)
and a restart (`restartChannel`) each look for an entry they may use, start without a password if
there is none, and ask for one when the agent says it needs it; what was typed is kept, for five
minutes by a SPAWN and for fifteen by a restart, and sent.

A restart may have no window of its own: it goes by the first window attached to the terminal, and
when that is not there it uses any entry of the host that has not expired.  Nothing takes an entry
away.

## Main definitions

* `Elevation` — the entries, what was typed and what was sent.

## Main results

* `secrets_entitled` — what each SPAWN and restart sends, in every run.
* `secret_shared_and_replayed` — what is not promised.
-/

namespace Lasterm.Hub.Elevated

open Transition List Option

/-- The id of a client. -/
abbrev ClientId := String
/-- The id of a host. -/
abbrev HostId := String

/-- An entry of `elevationCache`. -/
structure Cached where
  secret : String
  expiresAt : ℕ
  deriving DecidableEq

/-- Who asked for the start. -/
inductive Request
  | spawn (clientId : ClientId)
  | restart (requestingClientId : Option ClientId)

/-- How a start goes: by whose word. -/
inductive Via
  | spawn (clientId : ClientId)
  /-- `attached` are the terminal's windows when the restart chose the one it goes by. -/
  | restart (requestingClientId : Option ClientId) (attached : List ClientId)
      (goesBy : Option ClientId)
  deriving DecidableEq

/-- The window whose entry it uses, and which it asks. -/
def Via.client : Via → Option ClientId
  | .spawn clientId => some clientId
  | .restart _ _ goesBy => goesBy

/-- How long what is typed is kept, in milliseconds. -/
def Via.lifetime : Via → ℕ
  | .spawn _ => 300000
  | .restart _ _ _ => 900000

/-- A SPAWN sent to an agent. -/
structure Sent where
  via : Via
  hostId : HostId
  secret : Option String
  sentAt : ℕ
  connected : List ClientId
  deriving DecidableEq

/-- A password typed into a prompt. -/
structure Typed where
  clientId : ClientId
  hostId : HostId
  secret : String
  typedAt : ℕ
  expiresAt : ℕ

/-- What a start waits for. -/
inductive Task
  | reaching (hostId : HostId) (q : Request)
  /-- A SPAWN whose client was there when its host was reached waits for the local agent, or for an
  old one to be replaced. -/
  | connecting (hostId : HostId) (clientId : ClientId)
  /-- The answer to a SPAWN without a password, after which one may be asked for. -/
  | first (hostId : HostId) (via : Via) (clientId : ClientId)
  | prompted (hostId : HostId) (via : Via) (clientId : ClientId)
  | last (sent : Sent)

/-- What an agent answers, if it does. -/
inductive SpawnAnswer
  | ok
  | err (code : String)
  | timeout

/-- What the hub keeps of elevation, with what was typed, sent and refused. -/
structure Elevation where
  now : ℕ
  clients : List ClientId
  elevationCache : OrderedMap (HostId × ClientId) Cached
  tasks : List Task
  typed : List Typed
  sent : List Sent
  /-- What was sent with a password, and the agent refused. -/
  refused : List Sent

/-- The window that a restart goes by: the one that asked, or else the first attached. -/
def promptClient (clients : List ClientId) (requestingClientId : Option ClientId)
    (attached : List ClientId) : Option ClientId :=
  match requestingClientId.filter (· ∈ clients) with
  | some clientId => some clientId
  | none => attached.head?.filter (· ∈ clients)

namespace Elevation

variable (s : Elevation)

/-- The entry of a window for a host, if it has not expired. -/
def usable (hostId : HostId) (clientId : ClientId) : Option Cached :=
  (s.elevationCache.get (hostId, clientId)).filter fun c => s.now < c.expiresAt

/-- The first entry for a host that has not expired, whichever window's. -/
def usableFor (hostId : HostId) : Option Cached :=
  (s.elevationCache.entries.find? fun e => e.1.1 = hostId ∧ s.now < e.2.expiresAt).map Prod.snd

/-- Something to wait for is added. -/
def await (t : Task) : Elevation := { s with tasks := s.tasks ++ [t] }

/-- A SPAWN whose answer ends the start. -/
def sendLast (via : Via) (hostId : HostId) (secret : Option String) : Elevation :=
  let sent : Sent := ⟨via, hostId, secret, s.now, s.clients⟩
  { s with sent := sent :: s.sent }.await (.last sent)

/-- A SPAWN without a password. -/
def sendFirst (via : Via) (hostId : HostId) (clientId : ClientId) : Elevation :=
  { s with sent := ⟨via, hostId, none, s.now, s.clients⟩ :: s.sent }.await
    (.first hostId via clientId)

/-- With a window: its entry if it has one, else without a password first. -/
def start (via : Via) (hostId : HostId) (clientId : ClientId) : Elevation :=
  match s.usable hostId clientId with
  | some cached => s.sendLast via hostId (some cached.secret)
  | none => s.sendFirst via hostId clientId

/-- The elevated branch of `spawnOnHost`, its agent ready. -/
def spawnOnHost (clientId : ClientId) (hostId : HostId) : Elevation :=
  s.start (.spawn clientId) hostId clientId

/-- A SPAWN has reached its host, and ends there if its client has left.  It goes on at once, or
waits first for its agent (`waits`); whether its client is still there is not asked again. -/
def spawnReached (clientId : ClientId) (hostId : HostId) (waits : Bool) : Elevation :=
  if clientId ∈ s.clients then
    if waits then s.await (.connecting hostId clientId) else s.spawnOnHost clientId hostId
  else s

/-- The elevated branch of `restartChannel`. -/
def restartChannel (hostId : HostId) (requestingClientId : Option ClientId)
    (attached : List ClientId) : Elevation :=
  let goesBy := promptClient s.clients requestingClientId attached
  let via := Via.restart requestingClientId attached goesBy
  match goesBy with
  -- No window to ask: an entry of the host, or no password.
  | none => s.sendLast via hostId ((s.usableFor hostId).map Cached.secret)
  | some clientId => s.start via hostId clientId

/-- The agent needs a password: the window is asked, if it is still there. -/
def ask (hostId : HostId) (via : Via) (clientId : ClientId) : Elevation :=
  if clientId ∈ s.clients then s.await (.prompted hostId via clientId) else s

/-- What was typed is kept, and sent; `guarded` is an agent being stopped, or a hub that quits. -/
def secretTyped (hostId : HostId) (via : Via) (clientId : ClientId) (secret : String)
    (guarded : Bool) : Elevation :=
  let expiresAt := s.now + via.lifetime
  let s := { s with
    elevationCache := s.elevationCache.set (hostId, clientId) ⟨secret, expiresAt⟩
    typed := ⟨clientId, hostId, secret, s.now, expiresAt⟩ :: s.typed }
  if guarded then s else s.sendLast via hostId (some secret)

/-- A SPAWN without a password was answered. -/
def firstAnswered (hostId : HostId) (via : Via) (clientId : ClientId) : SpawnAnswer → Elevation
  | .err "ELEVATION_PASSWORD_REQUIRED" => s.ask hostId via clientId
  | _ => s

/-- The last SPAWN of a start was answered: nothing is done with its entry. -/
def lastAnswered (sent : Sent) : SpawnAnswer → Elevation
  | .err _ => if sent.secret.isSome then { s with refused := sent :: s.refused } else s
  | _ => s

/-- A window leaves: the prompts it was asked are given up. -/
def clientLeaves (clientId : ClientId) : Elevation :=
  { s with
    clients := s.clients.filter (· ≠ clientId)
    tasks := s.tasks.filter fun t => match t with
      | .prompted _ _ c => c ≠ clientId
      | _ => true }

end Elevation

/-- What can happen next. -/
inductive Step
  | tick (ms : ℕ)
  | connects (clientId : ClientId)
  | leaves (clientId : ClientId)
  | asks (hostId : HostId) (q : Request)
  /-- A start has reached its host; `waits` is for a SPAWN, and `attached` are a restart's
  terminal's windows. -/
  | reached (i : ℕ) (waits : Bool) (attached : List ClientId)
  | connected (i : ℕ)
  | answered (i : ℕ) (a : SpawnAnswer)
  | types (i : ℕ) (secret : String) (guarded : Bool)
  /-- A start ends otherwise: its host is not reached, its prompt is cancelled or times out. -/
  | ends (i : ℕ)

/-- One step. -/
def next (s : Elevation) : Step → Option Elevation
  | .tick ms => some { s with now := s.now + ms }
  | .connects clientId => some { s with clients := s.clients ++ [clientId] }
  | .leaves clientId => some (s.clientLeaves clientId)
  | .asks hostId q => some (s.await (.reaching hostId q))
  | .reached i waits attached =>
    let rest := { s with tasks := s.tasks.eraseIdx i }
    match s.tasks[i]? with
    | some (.reaching hostId (.spawn clientId)) => some (rest.spawnReached clientId hostId waits)
    | some (.reaching hostId (.restart requesting)) =>
      some (rest.restartChannel hostId requesting attached)
    | _ => none
  | .connected i =>
    match s.tasks[i]? with
    | some (.connecting hostId clientId) =>
      some ({ s with tasks := s.tasks.eraseIdx i }.spawnOnHost clientId hostId)
    | _ => none
  | .answered i a =>
    let rest := { s with tasks := s.tasks.eraseIdx i }
    match s.tasks[i]? with
    | some (.first hostId via clientId) => some (rest.firstAnswered hostId via clientId a)
    | some (.last sent) => some (rest.lastAnswered sent a)
    | _ => none
  | .types i secret guarded =>
    match s.tasks[i]? with
    | some (.prompted hostId via clientId) =>
      some ({ s with tasks := s.tasks.eraseIdx i }.secretTyped hostId via clientId secret guarded)
    | _ => none
  | .ends i => some { s with tasks := s.tasks.eraseIdx i }

/-- No elevation was asked for. -/
def initial : Elevation := ⟨0, [], .empty, [], [], [], []⟩

/-! ### The cache -/

/-- What a window typed last for a host. -/
def lastTyped (typed : List Typed) (hostId : HostId) (clientId : ClientId) : Option Typed :=
  typed.find? fun t => t.hostId = hostId ∧ t.clientId = clientId

/-- The cache holds what each window typed last for each host. -/
def Kept (s : Elevation) : Prop :=
  ∀ hostId clientId, s.elevationCache.get (hostId, clientId) =
    (lastTyped s.typed hostId clientId).map fun t => ⟨t.secret, t.expiresAt⟩

/-- A password that a SPAWN carried was typed for its host and had not expired; if the start goes
by a window, that window typed it. -/
def Entitled (typed : List Typed) (x : Sent) : Prop :=
  ∀ secret, x.secret = some secret → ∃ t ∈ typed, t.hostId = x.hostId ∧ t.secret = secret ∧
    x.sentAt < t.expiresAt ∧ ∀ clientId, x.via.client = some clientId → t.clientId = clientId

/-- A restart goes by a window that asked for it or is attached first, and is connected; by none
only when there is no such window. -/
def GoesRight (x : Sent) : Prop :=
  ∀ requesting attached goesBy, x.via = .restart requesting attached goesBy → x.secret.isSome →
    match goesBy with
    | some clientId => clientId ∈ x.connected ∧
        (requesting = some clientId ∨ attached.head? = some clientId)
    | none => promptClient x.connected requesting attached = none

/-- The window is the one the start goes by, and for a restart asked for it or is attached first. -/
def Chosen (via : Via) (clientId : ClientId) : Prop :=
  via.client = some clientId ∧ ∀ requesting attached goesBy,
    via = .restart requesting attached goesBy →
      requesting = some clientId ∨ attached.head? = some clientId

/-- What holds of a start under way. -/
def TaskOk (clients : List ClientId) : Task → Prop
  | .reaching _ _ | .connecting _ _ => True
  | .first _ via clientId => Chosen via clientId
  | .prompted _ via clientId => Chosen via clientId ∧ clientId ∈ clients
  | .last _ => True

/-- What holds in every state. -/
structure Sound (s : Elevation) : Prop where
  kept : Kept s
  entitled : ∀ x ∈ s.sent, Entitled s.typed x
  goesRight : ∀ x ∈ s.sent, GoesRight x
  tasks : ∀ t ∈ s.tasks, TaskOk s.clients t

theorem Entitled.mono {typed : List Typed} {x : Sent} (h : Entitled typed x) (t : Typed) :
    Entitled (t :: typed) x := by
  intro secret hx
  obtain ⟨t', ht', hrest⟩ := h secret hx
  exact ⟨t', mem_cons_of_mem t ht', hrest⟩

theorem Kept.typed {s : Elevation} (h : Kept s) (t : Typed) :
    Kept { s with
      elevationCache := s.elevationCache.set (t.hostId, t.clientId) ⟨t.secret, t.expiresAt⟩
      typed := t :: s.typed } := by
  intro hostId clientId
  unfold lastTyped
  rw [OrderedMap.get_set]
  by_cases heq : t.hostId = hostId ∧ t.clientId = clientId
  · obtain ⟨rfl, rfl⟩ := heq
    simp
  · have hne : ¬ ((hostId, clientId) = (t.hostId, t.clientId)) := by
      intro hpair
      exact heq ⟨(congrArg Prod.fst hpair).symm, (congrArg Prod.snd hpair).symm⟩
    rw [if_neg hne, find?_cons_of_neg (by simpa using heq)]
    exact h hostId clientId

theorem Kept.of_get {s : Elevation} (h : Kept s) {hostId : HostId} {clientId : ClientId}
    {c : Cached} (hc : s.elevationCache.get (hostId, clientId) = some c) :
    ∃ t ∈ s.typed, t.hostId = hostId ∧ t.clientId = clientId ∧ t.secret = c.secret ∧
      t.expiresAt = c.expiresAt := by
  rw [h hostId clientId] at hc
  obtain ⟨t, ht, rfl⟩ := map_eq_some_iff.mp hc
  have hkey := find?_some ht
  simp only [decide_eq_true_eq] at hkey
  exact ⟨t, mem_of_find?_eq_some ht, hkey.1, hkey.2, rfl, rfl⟩

theorem promptClient_eq_some {clients attached : List ClientId} {requesting : Option ClientId}
    {clientId : ClientId} (h : promptClient clients requesting attached = some clientId) :
    clientId ∈ clients ∧ (requesting = some clientId ∨ attached.head? = some clientId) := by
  unfold promptClient at h
  split at h
  · next c hc =>
    cases h
    obtain ⟨hreq, hmem⟩ := filter_eq_some_iff.mp hc
    exact ⟨by simpa using hmem, .inl hreq⟩
  · obtain ⟨hhead, hmem⟩ := filter_eq_some_iff.mp h
    exact ⟨by simpa using hmem, .inr hhead⟩

/-! ### Every step -/

namespace Sound

variable {s : Elevation} {via : Via} {hostId : HostId} {clientId : ClientId}

theorem await (h : Sound s) {t : Task} (ht : TaskOk s.clients t) : Sound (s.await t) := by
  refine { h with tasks := ?_ }
  intro t' ht'
  obtain ht' | ht' := mem_append.mp ht'
  · exact h.tasks t' ht'
  · obtain rfl := mem_singleton.mp ht'
    exact ht

theorem sends (h : Sound s) {x : Sent} (he : Entitled s.typed x) (hg : GoesRight x) :
    Sound { s with sent := x :: s.sent } := by
  refine { h with entitled := ?_, goesRight := ?_ }
  · intro y hy
    obtain rfl | hy := mem_cons.mp hy
    · exact he
    · exact h.entitled y hy
  · intro y hy
    obtain rfl | hy := mem_cons.mp hy
    · exact hg
    · exact h.goesRight y hy

theorem sendLast (h : Sound s) {secret : Option String}
    (he : Entitled s.typed ⟨via, hostId, secret, s.now, s.clients⟩)
    (hg : GoesRight ⟨via, hostId, secret, s.now, s.clients⟩) :
    Sound (s.sendLast via hostId secret) :=
  (h.sends he hg).await trivial

theorem goesRight_of_chosen (hv : Chosen via clientId) {x : Sent} (hx : x.via = via)
    (hmem : (∃ r a g, via = .restart r a g) → clientId ∈ x.connected) : GoesRight x := by
  rintro requesting attached goesBy hvia -
  rw [hx] at hvia
  obtain rfl : goesBy = some clientId := by
    have := hv.1
    rw [hvia] at this
    exact this
  exact ⟨hmem ⟨_, _, _, hvia⟩, hv.2 _ _ _ hvia⟩

section

variable (h : Sound s)
include h

theorem start (hv : Chosen via clientId)
    (hmem : (∃ r a g, via = .restart r a g) → clientId ∈ s.clients) :
    Sound (s.start via hostId clientId) := by
  unfold Elevation.start
  split
  · next c hc =>
    obtain ⟨hget, hvalid⟩ := filter_eq_some_iff.mp hc
    refine h.sendLast ?_ (goesRight_of_chosen hv rfl hmem)
    rintro secret ⟨rfl⟩
    obtain ⟨t, ht, hhost, hclient, hsecret, hexp⟩ := h.kept.of_get hget
    refine ⟨t, ht, hhost, hsecret, by simpa [hexp] using hvalid, ?_⟩
    intro c' hc'
    rw [hclient]
    exact some.inj (hv.1.symm.trans hc')
  · refine (h.sends ?_ ?_).await hv
    · rintro _ ⟨⟩
    · rintro _ _ _ _ ⟨⟩

theorem spawnOnHost : Sound (s.spawnOnHost clientId hostId) := by
  refine h.start ⟨rfl, ?_⟩ ?_
  · rintro _ _ _ ⟨⟩
  · rintro ⟨_, _, _, ⟨⟩⟩

theorem restartChannel (requesting : Option ClientId) (attached : List ClientId) :
    Sound (s.restartChannel hostId requesting attached) := by
  unfold Elevation.restartChannel
  dsimp only
  split
  · next hnone =>
    refine h.sendLast ?_ ?_
    · intro secret hsecret
      obtain ⟨c, hc, rfl⟩ := map_eq_some_iff.mp hsecret
      obtain ⟨⟨⟨host, client⟩, c'⟩, hfind, rfl⟩ := map_eq_some_iff.mp hc
      have hkey := find?_some hfind
      simp only [Bool.decide_and, Bool.and_eq_true, decide_eq_true_eq] at hkey
      obtain ⟨rfl, hvalid⟩ := hkey
      have hget := (OrderedMap.get_eq_some_iff _ _ _).mpr (mem_of_find?_eq_some hfind)
      obtain ⟨t, ht, hhost, -, hsec, hexp⟩ := h.kept.of_get hget
      refine ⟨t, ht, hhost, hsec, by simpa [hexp] using hvalid, ?_⟩
      rw [hnone]
      rintro _ ⟨⟩
    · rintro _ _ _ ⟨rfl, rfl, rfl⟩ -
      rw [hnone]
  · next c hc =>
    obtain ⟨hmem, hor⟩ := promptClient_eq_some hc
    rw [hc]
    refine h.start ⟨rfl, ?_⟩ (fun _ => hmem)
    rintro _ _ _ ⟨rfl, rfl, rfl⟩
    exact hor

theorem erase (i : ℕ) : Sound { s with tasks := s.tasks.eraseIdx i } :=
  { h with tasks := fun t ht => h.tasks t (mem_of_mem_eraseIdx ht) }

theorem secretTyped (hv : Chosen via clientId) (hmem : clientId ∈ s.clients)
    (secret : String) (guarded : Bool) :
    Sound (s.secretTyped hostId via clientId secret guarded) := by
  have hpos : 0 < via.lifetime := by cases via <;> simp [Via.lifetime]
  have hkept : Sound { s with
      elevationCache := s.elevationCache.set (hostId, clientId) ⟨secret, s.now + via.lifetime⟩
      typed := ⟨clientId, hostId, secret, s.now, s.now + via.lifetime⟩ :: s.typed } :=
    { h with
      kept := h.kept.typed ⟨clientId, hostId, secret, s.now, s.now + via.lifetime⟩
      entitled := fun x hx => (h.entitled x hx).mono _ }
  unfold Elevation.secretTyped
  split
  · exact hkept
  · refine hkept.sendLast ?_ (goesRight_of_chosen hv rfl fun _ => hmem)
    rintro _ ⟨rfl⟩
    refine ⟨_, mem_cons_self, rfl, rfl, Nat.lt_add_of_pos_right hpos, ?_⟩
    intro c hc
    exact some.inj (hv.1.symm.trans hc)

theorem clientLeaves (clientId : ClientId) : Sound (s.clientLeaves clientId) := by
  refine { h with tasks := ?_ }
  intro t ht
  obtain ⟨hmem, hkeep⟩ := mem_filter.mp ht
  have hok := h.tasks t hmem
  cases t with
  | reaching | connecting | last => trivial
  | first hostId via c => exact hok
  | prompted hostId via c =>
    refine ⟨hok.1, mem_filter.mpr ⟨hok.2, ?_⟩⟩
    simpa using hkeep

/-- **One step.** -/
theorem step {e : Step} {s' : Elevation} (hn : next s e = some s') : Sound s' := by
  cases e with
  | tick ms =>
    cases hn
    exact { h with }
  | connects c =>
    cases hn
    refine { h with tasks := ?_ }
    intro t ht
    have hok := h.tasks t ht
    cases t with
    | reaching | connecting | last => trivial
    | first hostId via c => exact hok
    | prompted hostId via c => exact ⟨hok.1, mem_append_left _ hok.2⟩
  | leaves c =>
    cases hn
    exact h.clientLeaves c
  | asks hostId q =>
    cases hn
    exact h.await trivial
  | reached i waits attached =>
    unfold next at hn
    dsimp only at hn
    split at hn
    · next hostId c ht =>
      cases hn
      unfold Elevation.spawnReached
      split
      · split
        · exact (h.erase i).await trivial
        · exact (h.erase i).spawnOnHost
      · exact h.erase i
    · cases hn
      exact (h.erase i).restartChannel _ attached
    · cases hn
  | connected i =>
    unfold next at hn
    dsimp only at hn
    split at hn
    · cases hn
      exact (h.erase i).spawnOnHost
    · cases hn
  | answered i a =>
    unfold next at hn
    dsimp only at hn
    split at hn
    · next hostId via c ht =>
      cases hn
      have hv : Chosen via c := h.tasks _ (mem_of_getElem? ht)
      unfold Elevation.firstAnswered
      split
      · unfold Elevation.ask
        split
        · next hmem => exact (h.erase i).await ⟨hv, hmem⟩
        · exact h.erase i
      · exact h.erase i
    · next sent ht =>
      cases hn
      unfold Elevation.lastAnswered
      split
      · split
        · exact { h.erase i with }
        · exact h.erase i
      · exact h.erase i
    · cases hn
  | types i secret guarded =>
    unfold next at hn
    dsimp only at hn
    split at hn
    · next hostId via c ht =>
      cases hn
      obtain ⟨hv, hmem⟩ : Chosen via c ∧ c ∈ s.clients := h.tasks _ (mem_of_getElem? ht)
      exact (h.erase i).secretTyped hv hmem secret guarded
    · cases hn
  | ends i =>
    cases hn
    exact h.erase i

end

end Sound

theorem Sound.initial : Sound initial := by
  refine ⟨fun _ _ => rfl, ?_, ?_, ?_⟩ <;> exact fun _ h => absurd h not_mem_nil

/-- **A password is sent only to the host it was typed for, before its expiry.**  A SPAWN sends
only what its own window typed; a restart sends what the connected window it goes by typed (the one
that asked, or else the first attached), and only a restart that goes by none may send another's.
The cache holds, for each host and window, what that window typed last for it. -/
theorem secrets_entitled {s : Elevation} (h : Run next free initial s) :
    (∀ x ∈ s.sent, ∀ secret, x.secret = some secret →
      ∃ t ∈ s.typed, t.hostId = x.hostId ∧ t.secret = secret ∧ x.sentAt < t.expiresAt ∧
        match x.via with
        | .spawn clientId => t.clientId = clientId
        | .restart requesting attached (some clientId) => t.clientId = clientId ∧
            clientId ∈ x.connected ∧
            (requesting = some clientId ∨ attached.head? = some clientId)
        | .restart requesting attached none =>
            promptClient x.connected requesting attached = none) ∧
    (∀ hostId clientId, s.elevationCache.get (hostId, clientId) =
      (lastTyped s.typed hostId clientId).map fun t => ⟨t.secret, t.expiresAt⟩) := by
  have hsound : Sound s := h.invariant Sound.initial fun _ _ _ hs _ hn => hs.step hn
  refine ⟨?_, hsound.kept⟩
  intro x hx secret hsecret
  obtain ⟨t, ht, hhost, hsec, hexp, hclient⟩ := hsound.entitled x hx secret hsecret
  have hgoes := hsound.goesRight x hx
  refine ⟨t, ht, hhost, hsec, hexp, ?_⟩
  have hsome : x.secret.isSome = true := by rw [hsecret]; rfl
  cases hvia : x.via with
  | spawn c => exact hclient c (by rw [hvia]; rfl)
  | restart requesting attached goesBy =>
    have hright := hgoes requesting attached goesBy hvia hsome
    cases goesBy with
    | none => exact hright
    | some c => exact ⟨hclient c (by rw [hvia]; rfl), hright⟩

/-- A window opens an elevated terminal, and types the password. -/
def typedByA : List Step :=
  [.connects "a", .asks "h" (.spawn "a"), .reached 0 false [],
    .answered 0 (.err "ELEVATION_PASSWORD_REQUIRED"), .types 0 "wrong" false]

/-- The window opens another terminal on the host within the five minutes, with what it typed. -/
theorem secrets_entitled_again : ∃ s, Run next free initial s ∧ ∃ x ∈ s.sent, x.sentAt = 1000 ∧
    x.via = .spawn "a" ∧ ∃ t ∈ s.typed, t.clientId = "a" ∧ t.secret = "wrong" ∧
      x.sentAt < t.expiresAt := by
  have hrun : Run next free initial _ := .get_free
    (typedByA ++ [.tick 1000, .asks "h" (.spawn "a"), .reached 1 false []]) (by decide +kernel)
  obtain ⟨t, ht, -, hsecret, hexp, hclient⟩ := (secrets_entitled hrun).1
    ⟨.spawn "a", "h", some "wrong", 1000, ["a"]⟩ (by decide +kernel) "wrong" rfl
  exact ⟨_, hrun, _, by decide +kernel, rfl, rfl, t, ht, hclient, hsecret, hexp⟩

/-- The agent refuses what a window typed.  The window asks for another terminal and leaves while
its agent is waited for: the SPAWN still goes, with the refused password.  So does a restart asked
for over REST, with no window attached to the terminal. -/
theorem secret_shared_and_replayed : ∃ s, Run next free initial s ∧
    ∃ refused ∈ s.refused, refused.via = .spawn "a" ∧ refused.secret = some "wrong" ∧
    (∃ x ∈ s.sent, x.via = .spawn "a" ∧ x.secret = some "wrong" ∧
      refused.sentAt < x.sentAt ∧ "a" ∉ x.connected) ∧
    (∃ x ∈ s.sent, x.via = .restart none [] none ∧ x.secret = some "wrong" ∧
      refused.sentAt < x.sentAt ∧ "a" ∉ x.connected) ∧
    s.elevationCache.get ("h", "a") = some ⟨"wrong", 300000⟩ := by
  have hrun : Run next free initial _ := .get_free (typedByA ++ [.answered 0 (.err "ELEVATION_FAILED"),
    .tick 1000, .asks "h" (.spawn "a"), .reached 0 true [], .leaves "a", .connected 0,
    .asks "h" (.restart none), .reached 1 false []]) (by decide +kernel)
  exact ⟨_, hrun, by decide +kernel⟩

end Lasterm.Hub.Elevated
