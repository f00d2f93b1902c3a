import Lasterm.Lib.OrderedMap

/-!
# Reconnecting to the local daemon

What the hub does to its terminals when it connects again to the daemon that outlived
it: `reconcileChannelState` and `destroyOrphans`
(`session/channel-lifecycle-manager.ts`), and the three paths that end in it
(`session/agent-connection-manager.ts`).  These are the stretches of code that run without an
await; how a reconnection strings them together is in `Reconnection`.

## Main definitions

* `HubState` — the sessions, channels and rows, with the frames sent.
* `attachAnswered`, `startupBegin`, `closeSession` — the stretches.

## Main results

* `judge_of_changes` — a turn of the loop over the channels is made of a few changes.
-/

namespace Lasterm.Hub

open List OrderedMap

/-- The state of a channel. -/
inductive ChannelStatus
  | born
  | live
  | orphan
  | dead
  deriving DecidableEq

/-- The state of a session. -/
inductive SessionStatus
  | starting
  | active
  | detached
  | disconnected
  | closed
  deriving DecidableEq

/-- A terminal the hub tracks. -/
structure ChannelState where
  hostId : String
  sessionId : String
  status : ChannelStatus
  clients : List String
  /-- The clock when it started, if this run of the hub started it. -/
  startedAt : Option ℕ
  liveCwd : Option String

/-- A channel's row in meta.db. -/
structure ChannelRow where
  sessionId : String
  status : ChannelStatus

/-- A session's row in meta.db. -/
structure SessionRow where
  hostId : String
  status : SessionStatus

/-- A session the hub tracks. -/
structure SessionState where
  id : String
  status : SessionStatus

/-- A frame sent to an agent. -/
inductive Frame
  | spawn (channelId : String)
  | destroy (channelId : String)
  | cwdQuery (channelId : String)
  deriving DecidableEq

/-- What a daemon says of one of its terminals. -/
structure Reported where
  channelId : String
  alive : Bool
  deriving DecidableEq

/-- How often a host's agent was restarted, in a window of time. -/
structure RestartTracking where
  count : ℕ
  windowStart : ℕ

/-- The state of the hub that a reconnection reads or writes. -/
structure HubState where
  channels : OrderedMap String ChannelState
  sessions : OrderedMap String SessionState
  channelRows : OrderedMap String ChannelRow
  sessionRows : OrderedMap String SessionRow
  startingChannels : List String
  clock : ℕ
  restartTracking : OrderedMap String RestartTracking
  stoppingAgents : List String
  sent : List Frame

namespace HubState

/-- A hub that tracks nothing. -/
def init : HubState where
  channels := .empty
  sessions := .empty
  channelRows := .empty
  sessionRows := .empty
  startingChannels := []
  clock := 0
  restartTracking := .empty
  stoppingAgents := []
  sent := []

/-- A frame is sent to the agent. -/
def send (s : HubState) (f : Frame) : HubState := { s with sent := s.sent ++ [f] }

/-! ### State, in memory and in meta.db -/

/-- `updateChannelStatus`: in memory if the channel is tracked, and in its row. -/
def updateChannelStatus (s : HubState) (channelId : String) (status : ChannelStatus) :
    HubState :=
  { s with
    channels :=
      match s.channels.get channelId with
      | none => s.channels
      | some ch => s.channels.set channelId { ch with status }
    channelRows :=
      match s.channelRows.get channelId with
      | none => s.channelRows
      | some row => s.channelRows.set channelId { row with status } }

/-- `updateSessionStatus`: in memory if it is the host's session, and in its row. -/
def updateSessionStatus (s : HubState) (hostId sessionId : String) (status : SessionStatus) :
    HubState :=
  { s with
    sessions :=
      match s.sessions.get hostId with
      | none => s.sessions
      | some st => if st.id = sessionId then s.sessions.set hostId { st with status } else s.sessions
    sessionRows :=
      match s.sessionRows.get sessionId with
      | none => s.sessionRows
      | some row => s.sessionRows.set sessionId { row with status } }

/-- `forgetChannel`: out of the map of what this hub believes is alive. -/
def forgetChannel (s : HubState) (channelId : String) : HubState :=
  { s with channels := s.channels.delete channelId }

/-- The channels tracked for a host, in the map's order. -/
def channelsOf (s : HubState) (hostId : String) : List String :=
  (s.channels.entries.filter fun e => e.2.hostId = hostId).map Prod.fst

/-- One terminal of a closed session: dead, and forgotten. -/
def endChannel (s : HubState) (channelId : String) : HubState :=
  match s.channels.get channelId with
  | none => s
  | some ch =>
    (if ch.status = .dead then s else s.updateChannelStatus channelId .dead).forgetChannel
      channelId

/-- `closeSession` of the lifecycle manager, as far as terminals and sessions go. -/
def closeSession (s : HubState) (hostId sessionId : String) : HubState :=
  let s := ((s.channelsOf hostId).foldl endChannel s).updateSessionStatus hostId sessionId .closed
  { s with sessions := s.sessions.delete hostId }

/-! ### Judging what the daemon reports -/

/-- `askingAgent`: note the moment a question is put to an agent. -/
def askingAgent (s : HubState) : HubState × ℕ :=
  ({ s with clock := s.clock + 1 }, s.clock + 1)

/-- `answerStillApplies`: tracked, not being started, and not started since. -/
def answerStillApplies (s : HubState) (channelId : String) (askedAt : ℕ) : Bool :=
  match s.channels.get channelId with
  | none => false
  | some ch => !s.startingChannels.contains channelId && ch.startedAt.getD 0 ≤ askedAt

/-- Known: tracked, whatever host it is filed under, or recorded as not yet dead. -/
def knows (s : HubState) (channelId : String) : Bool :=
  (s.channels.get channelId).isSome ||
    match s.channelRows.get channelId with
    | none => false
    | some row => row.status ≠ .dead

/-- `destroyOrphans`: what the daemon holds for this hub that this hub does not know. -/
def destroyOrphans (s : HubState) (states : List Reported) : HubState :=
  ((states.map Reported.channelId).filter fun id => !s.knows id).foldl
    (fun s id => s.send (.destroy id)) s

/-- One turn of the loop of `reconcileChannelState`. -/
def judge (hostId : String) (reportedIds : List String) (askedAt : ℕ) (s : HubState)
    (channelId : String) : HubState :=
  match s.channels.get channelId with
  | none => s
  | some ch =>
    if ch.hostId ≠ hostId then s
    else if !s.answerStillApplies channelId askedAt then s
    else
      match s.sessions.get hostId with
      | none => s
      | some session =>
        if channelId ∈ reportedIds then
          -- the agent holds it, so it is alive whichever session it was opened under
          let s := { s with channels := s.channels.set channelId { ch with sessionId := session.id } }
          let s := if ch.liveCwd = none then s.send (.cwdQuery channelId) else s
          if ch.status = .orphan ∨ (ch.status = .live ∧ ch.clients ≠ []) then
            s.updateChannelStatus channelId .live
          else s
        else
          (if ch.status = .dead then s else s.updateChannelStatus channelId .dead).forgetChannel
            channelId

/-- `reconcileChannelState`: what the daemon holds against what the hub has. -/
def reconcileChannelState (s : HubState) (hostId : String) (states : List Reported)
    (askedAt : ℕ) : HubState :=
  let s := s.destroyOrphans states
  let reportedIds := (states.filter Reported.alive).map Reported.channelId
  s.channels.keys.foldl (judge hostId reportedIds askedAt) s

/-- A turn of the loop is made of these changes: what is so of each and of nothing, and of one
after the other, is so of the turn. -/
theorem judge_of_changes {R : HubState → HubState → Prop} (refl : ∀ s, R s s)
    (trans : ∀ {s₁ s₂ s₃}, R s₁ s₂ → R s₂ s₃ → R s₁ s₃) {reportedIds : List String}
    {s : HubState} {channelId : String} (hostId : String) (askedAt : ℕ)
    (adopt : ∀ ch sessionId, s.channels.get channelId = some ch →
      R s { s with channels := s.channels.set channelId { ch with sessionId } })
    (query : ∀ t : HubState, R t (t.send (.cwdQuery channelId)))
    (live : ∀ t : HubState, R t (t.updateChannelStatus channelId .live))
    (dead : channelId ∉ reportedIds → R s (s.updateChannelStatus channelId .dead))
    (forget : channelId ∉ reportedIds → ∀ t : HubState, R t (t.forgetChannel channelId)) :
    R s (judge hostId reportedIds askedAt s channelId) := by
  unfold judge
  split
  · exact refl s
  next ch hch =>
    split
    · exact refl s
    split
    · exact refl s
    split
    · exact refl s
    next session hsession =>
      split
      · -- reported: its session, the question about its directory, and live at most
        have hquery : ∀ t : HubState,
            R t (if ch.liveCwd = none then t.send (.cwdQuery channelId) else t) := by
          intro t
          split
          · exact query t
          · exact refl t
        have hadopt := trans (adopt ch session.id hch) (hquery _)
        dsimp only
        split
        · exact trans hadopt (live _)
        · exact hadopt
      · next hnot =>
        refine trans ?_ (forget hnot _)
        split
        · exact refl s
        · exact dead hnot

/-! ### Starting everything again -/

/-- The channels `spawnChannelsForHost` sends a `SPAWN` for. -/
def toSpawn (s : HubState) (hostId : String) : List String :=
  if hostId ∈ s.stoppingAgents then []
  else (s.channels.entries.filter fun e => e.2.hostId = hostId && e.2.status ≠ .dead).map Prod.fst

/-- `spawnChannelsForHost`, up to its answers. -/
def spawnChannelsForHost (s : HubState) (hostId : String) : HubState :=
  (s.toSpawn hostId).foldl (fun s id => s.send (.spawn id)) s

/-- An answer to one of its `SPAWN`s, or its timeout: a refusal is taken for an end. -/
def spawnAnswered (s : HubState) (channelId : String) (ok : Bool) : HubState :=
  if ok then
    match s.channels.get channelId with
    | none => { s with clock := s.clock + 1 }
    | some ch =>
      { s with
        clock := s.clock + 1
        channels := s.channels.set channelId { ch with startedAt := some (s.clock + 1) } }
  else s.updateChannelStatus channelId .dead

/-! ### The paths, up to their first await -/

/-- The rows of a host's channels that were alive when the hub last exited. -/
def aliveRows (s : HubState) (hostId : String) : List (String × ChannelRow) :=
  s.channelRows.entries.filter fun e =>
    e.2.status ≠ .dead && ((s.sessionRows.get e.2.sessionId).map SessionRow.hostId = some hostId)

/-- A terminal of an earlier run of the hub, tracked as an orphan. -/
def trackOrphan (hostId sessionId : String) (s : HubState) (channelId : String) : HubState :=
  { s with
    channels := s.channels.set channelId
      { hostId, sessionId, status := .orphan, clients := [], startedAt := none, liveCwd := none }
    channelRows :=
      match s.channelRows.get channelId with
      | none => s.channelRows
      | some row => s.channelRows.set channelId { row with status := .orphan } }

/-- The sessions of a host that are not closed are disconnected. -/
def markHostSessionDisconnected (s : HubState) (hostId : String) : HubState :=
  { s with
    sessionRows := s.sessionRows.mapValues fun row =>
      if row.hostId = hostId ∧ row.status ≠ .closed then { row with status := .disconnected }
      else row }

/-- `startup` of one host, and the session it goes on to connect for: without one that is
open its terminals are dead, and there is nothing to connect for. -/
def startupBegin (s : HubState) (hostId : String) : HubState × Option String :=
  let alive := (s.aliveRows hostId).map Prod.fst
  if alive = [] then (s, none)
  else
    match s.sessionRows.entries.find? fun e => e.2.hostId = hostId && e.2.status ≠ .closed with
    | none => (alive.foldl (fun s id => s.updateChannelStatus id .dead) s, none)
    | some (sessionId, _) =>
      let s := s.markHostSessionDisconnected hostId
      let s := { s with sessions := s.sessions.set hostId ⟨sessionId, .disconnected⟩ }
      (alive.foldl (trackOrphan hostId sessionId) s, some sessionId)

/-- The bound on warm restarts: at most three in a minute. -/
def countRestart (s : HubState) (hostId : String) (now : ℕ) : HubState × ℕ :=
  let tracking := (s.restartTracking.get hostId).getD ⟨0, now⟩
  let tracking := if tracking.windowStart + 60000 < now then ⟨0, now⟩ else tracking
  let tracking := { tracking with count := tracking.count + 1 }
  ({ s with restartTracking := s.restartTracking.set hostId tracking }, tracking.count)

/-- What an attach does when the daemon has said what it holds. -/
def attachAnswered (s : HubState) (hostId sessionId : String) (states : List Reported)
    (askedAt : ℕ) : HubState :=
  (s.reconcileChannelState hostId states askedAt).updateSessionStatus hostId sessionId .active

/-! ### Burying a terminal -/

/-- meta.db records the terminal as dead. -/
def rowDead (s : HubState) (id : String) : Bool :=
  match s.channelRows.get id with
  | none => false
  | some row => row.status = .dead

/-- From `s` to `s'` the terminal was marked dead, forgotten, destroyed or sent a
`SPAWN`. -/
def buries (s s' : HubState) (id : String) : Bool :=
  (match s.channels.get id, s'.channels.get id with
    | none, _ => false
    | some _, none => true
    | some ch, some ch' => ch'.status = .dead && ch.status ≠ .dead)
  || (s'.rowDead id && !s.rowDead id)
  || (s'.sent.drop s.sent.length).any fun f => f = .destroy id || f = .spawn id

theorem spared_frames_trans {id : String} {l₁ l₂ l₃ : List Frame}
    (h : ∃ new, l₂ = l₁ ++ new ∧ .destroy id ∉ new ∧ .spawn id ∉ new)
    (h' : ∃ new, l₃ = l₂ ++ new ∧ .destroy id ∉ new ∧ .spawn id ∉ new) :
    ∃ new, l₃ = l₁ ++ new ∧ .destroy id ∉ new ∧ .spawn id ∉ new := by
  obtain ⟨new, hnew, hdes, hsp⟩ := h
  obtain ⟨new', hnew', hdes', hsp'⟩ := h'
  refine ⟨new ++ new', ?_, ?_, ?_⟩
  · rw [hnew', hnew, append_assoc]
  · simp [hdes, hdes']
  · simp [hsp, hsp']

/-- From `s` to `s'` nothing was done to the terminal that would bury it. -/
structure Spares (id : String) (s s' : HubState) : Prop where
  kept : ∀ ch, s.channels.get id = some ch →
    ∃ ch', s'.channels.get id = some ch' ∧ (ch'.status = .dead → ch.status = .dead)
  row : s'.rowDead id = true → s.rowDead id = true
  frames : ∃ new, s'.sent = s.sent ++ new ∧ .destroy id ∉ new ∧ .spawn id ∉ new

theorem Spares.refl (id : String) (s : HubState) : Spares id s s where
  kept := fun ch h => ⟨ch, h, fun hd => hd⟩
  row := fun h => h
  frames := ⟨[], by simp, by simp, by simp⟩

theorem Spares.trans {id : String} {s₁ s₂ s₃ : HubState} (h : Spares id s₁ s₂)
    (h' : Spares id s₂ s₃) : Spares id s₁ s₃ where
  kept := by
    intro ch hch
    obtain ⟨ch₂, hch₂, hd₂⟩ := h.kept ch hch
    obtain ⟨ch₃, hch₃, hd₃⟩ := h'.kept ch₂ hch₂
    exact ⟨ch₃, hch₃, fun hd => hd₂ (hd₃ hd)⟩
  row := fun hd => h.row (h'.row hd)
  frames := spared_frames_trans h.frames h'.frames

theorem Spares.foldl {α : Type*} {id : String} {f : HubState → α → HubState}
    (hf : ∀ s a, Spares id s (f s a)) (l : List α) (s : HubState) :
    Spares id s (l.foldl f s) := by
  induction l generalizing s with
  | nil => exact .refl id s
  | cons a l ih => exact (hf s a).trans (ih _)

theorem Spares.of_eq {id : String} {s s' : HubState}
    (hc : s'.channels.get id = s.channels.get id) (hr : s'.channelRows.get id = s.channelRows.get id)
    (hf : s'.sent = s.sent) : Spares id s s' where
  kept := fun ch h => ⟨ch, hc.trans h, fun hd => hd⟩
  row := fun h => by simpa [rowDead, hr] using h
  frames := ⟨[], by simp [hf], by simp, by simp⟩

theorem Spares.not_buries {id : String} {s s' : HubState} (h : Spares id s s') :
    buries s s' id = false := by
  obtain ⟨new, hnew, hdes, hsp⟩ := h.frames
  have hframes : (s'.sent.drop s.sent.length).any (fun f => f = .destroy id || f = .spawn id)
      = false := by
    rw [hnew, drop_left, any_eq_false]
    intro f hf
    simp only [Bool.or_eq_true, decide_eq_true_eq, not_or]
    exact ⟨fun e => hdes (e ▸ hf), fun e => hsp (e ▸ hf)⟩
  have hrow : (s'.rowDead id && !s.rowDead id) = false := by
    cases hd : s'.rowDead id with
    | false => rfl
    | true => simp [h.row hd]
  unfold buries
  rw [hframes, hrow]
  cases hch : s.channels.get id with
  | none => rfl
  | some ch =>
    obtain ⟨ch', hch', hd⟩ := h.kept ch hch
    simp only [hch', Bool.or_false]
    cases hst : decide (ch'.status = .dead) with
    | false => rfl
    | true => simp [hd (of_decide_eq_true hst)]

/-! ### Spared by the judgement -/

theorem send_spares {id : String} (s : HubState) {f : Frame} (hd : f ≠ .destroy id)
    (hs : f ≠ .spawn id) : Spares id s (s.send f) where
  kept := fun ch h => ⟨ch, h, fun hd => hd⟩
  row := fun h => h
  frames := ⟨[f], rfl, by simpa using Ne.symm hd, by simpa using Ne.symm hs⟩

theorem updateChannelStatus_spares {id channelId : String} (s : HubState) {status : ChannelStatus}
    (h : channelId = id → status ≠ .dead) : Spares id s (s.updateChannelStatus channelId status) := by
  by_cases hid : channelId = id
  · subst hid
    refine ⟨?_, ?_, [], by simp [updateChannelStatus], by simp, by simp⟩
    · intro ch hch
      exact ⟨{ ch with status }, by simp [updateChannelStatus, hch], fun hd => absurd hd (h rfl)⟩
    · intro hd
      cases hr : s.channelRows.get channelId with
      | none => simp [rowDead, updateChannelStatus, hr] at hd
      | some row => simp [rowDead, updateChannelStatus, hr, h rfl] at hd
  · refine .of_eq ?_ ?_ rfl
    · cases hch : s.channels.get channelId with
      | none => simp [updateChannelStatus, hch]
      | some ch => simp [updateChannelStatus, hch, get_set_of_ne _ (Ne.symm hid)]
    · cases hr : s.channelRows.get channelId with
      | none => simp [updateChannelStatus, hr]
      | some row => simp [updateChannelStatus, hr, get_set_of_ne _ (Ne.symm hid)]

theorem updateSessionStatus_spares (id : String) (s : HubState) (hostId sessionId : String)
    (status : SessionStatus) : Spares id s (s.updateSessionStatus hostId sessionId status) :=
  .of_eq rfl rfl rfl

theorem forgetChannel_spares {id channelId : String} (s : HubState) (h : channelId ≠ id) :
    Spares id s (s.forgetChannel channelId) :=
  .of_eq (get_delete_of_ne _ h.symm) rfl rfl

theorem set_spares {id channelId : String} (s : HubState) {ch ch' : ChannelState}
    (hch : s.channels.get channelId = some ch) (hst : ch'.status = ch.status) :
    Spares id s { s with channels := s.channels.set channelId ch' } := by
  by_cases hid : channelId = id
  · subst hid
    refine ⟨?_, fun h => h, [], by simp, by simp, by simp⟩
    intro c hc
    obtain rfl : ch = c := Option.some.inj (hch.symm.trans hc)
    exact ⟨ch', by simp, fun hd => hst ▸ hd⟩
  · exact .of_eq (get_set_of_ne _ (Ne.symm hid) _) rfl rfl

theorem judge_spares {id : String} (hostId : String) {reportedIds : List String} (askedAt : ℕ)
    (hid : id ∈ reportedIds) (s : HubState) (channelId : String) :
    Spares id s (judge hostId reportedIds askedAt s channelId) := by
  have hne : channelId ∉ reportedIds → channelId ≠ id := by
    rintro hnot rfl
    exact hnot hid
  refine judge_of_changes (Spares.refl id) Spares.trans hostId askedAt ?_ ?_ ?_ ?_ ?_
  · exact fun ch sessionId hch => set_spares s hch rfl
  · exact fun t => send_spares t (by simp) (by simp)
  · exact fun t => updateChannelStatus_spares t (by simp)
  · exact fun hnot => updateChannelStatus_spares s fun h => absurd h (hne hnot)
  · exact fun hnot t => forgetChannel_spares t (hne hnot)

private theorem foldl_send (mk : String → Frame) (l : List String) (s : HubState) :
    l.foldl (fun s id => s.send (mk id)) s = { s with sent := s.sent ++ l.map mk } := by
  induction l generalizing s with
  | nil => simp
  | cons a l ih => rw [foldl_cons, ih]; simp [send]

theorem destroyOrphans_eq (s : HubState) (states : List Reported) :
    s.destroyOrphans states = { s with
      sent := s.sent ++ ((states.map Reported.channelId).filter fun id => !s.knows id).map
        Frame.destroy } :=
  foldl_send _ _ s

theorem destroyOrphans_spares {id : String} (s : HubState) (states : List Reported)
    (h : s.knows id = true) : Spares id s (s.destroyOrphans states) := by
  rw [destroyOrphans_eq]
  refine ⟨fun ch hch => ⟨ch, hch, fun hd => hd⟩, fun hd => hd, _, rfl, ?_, by simp⟩
  simp [h]

theorem reconcile_spares {id : String} (s : HubState) (hostId : String) (states : List Reported)
    (askedAt : ℕ) (hrep : ⟨id, true⟩ ∈ states) (hknown : s.knows id = true) :
    Spares id s (s.reconcileChannelState hostId states askedAt) := by
  refine (destroyOrphans_spares s states hknown).trans (Spares.foldl ?_ _ _)
  refine judge_spares hostId askedAt ?_
  exact mem_map.mpr ⟨⟨id, true⟩, mem_filter.mpr ⟨hrep, rfl⟩, rfl⟩

theorem judge_sent (hostId : String) (reportedIds : List String) (askedAt : ℕ) (s : HubState)
    (channelId : String) : s.sent <+: (judge hostId reportedIds askedAt s channelId).sent :=
  judge_of_changes (R := fun s s' => s.sent <+: s'.sent) (fun _ => prefix_rfl)
    IsPrefix.trans hostId askedAt (fun _ _ _ => prefix_rfl)
    (fun _ => prefix_append ..) (fun _ => prefix_rfl) (fun _ => prefix_rfl)
    fun _ _ => prefix_rfl

theorem reconcile_destroys {id : String} (s : HubState) (hostId : String)
    (states : List Reported) (askedAt : ℕ) (hrep : id ∈ states.map Reported.channelId)
    (hknown : s.knows id = false) :
    buries s (s.reconcileChannelState hostId states askedAt) id = true := by
  have hgrow : ∀ (l : List String) (t : HubState),
      t.sent <+: (l.foldl (judge hostId ((states.filter Reported.alive).map Reported.channelId)
        askedAt) t).sent := by
    intro l
    induction l with
    | nil => exact fun t => prefix_rfl
    | cons a l ih => exact fun t => (judge_sent _ _ _ t a).trans (ih _)
  obtain ⟨more, hmore⟩ := hgrow (s.destroyOrphans states).channels.keys (s.destroyOrphans states)
  have hsent : (s.reconcileChannelState hostId states askedAt).sent = s.sent ++
      (((states.map Reported.channelId).filter fun id => !s.knows id).map Frame.destroy
        ++ more) := by
    rw [← append_assoc]
    exact hmore.symm.trans (by rw [destroyOrphans_eq])
  have hdestroy : Frame.destroy id ∈ ((states.map Reported.channelId).filter
      fun id => !s.knows id).map Frame.destroy :=
    mem_map_of_mem (mem_filter.mpr ⟨hrep, by simp [hknown]⟩)
  have hany : ((s.reconcileChannelState hostId states askedAt).sent.drop s.sent.length).any
      (fun f => f = .destroy id || f = .spawn id) = true := by
    rw [hsent, drop_left, any_eq_true]
    exact ⟨_, mem_append_left _ hdestroy, by simp⟩
  unfold buries
  rw [hany, Bool.or_true]

/-! ### Spared by the paths -/

theorem trackOrphan_spares (id hostId sessionId : String) (s : HubState) (channelId : String) :
    Spares id s (trackOrphan hostId sessionId s channelId) := by
  by_cases hid : channelId = id
  · subst hid
    refine ⟨?_, ?_, [], by simp [trackOrphan], by simp, by simp⟩
    · intro ch hch
      refine ⟨_, get_set_self _ _ _, ?_⟩
      simp
    · intro hd
      cases hr : s.channelRows.get channelId with
      | none | some => simp [rowDead, trackOrphan, hr] at hd
  · refine .of_eq ?_ ?_ rfl
    · simp [trackOrphan, get_set_of_ne _ (Ne.symm hid)]
    · cases hr : s.channelRows.get channelId with
      | none => simp [trackOrphan, hr]
      | some row => simp [trackOrphan, hr, get_set_of_ne _ (Ne.symm hid)]

/-- A `startup` that goes on to connect buries nothing before it does. -/
theorem startupBegin_spares (id : String) {s s' : HubState} {hostId sessionId : String}
    (h : s.startupBegin hostId = (s', some sessionId)) : Spares id s s' := by
  unfold startupBegin at h
  dsimp only at h
  split at h
  · cases h
  split at h
  · cases h
  · next sid row hrow =>
    obtain ⟨rfl, -⟩ := Prod.mk.inj h
    refine Spares.trans ?_ (Spares.foldl (trackOrphan_spares id hostId sid) _ _)
    exact .of_eq rfl rfl rfl

theorem countRestart_spares (id : String) (s : HubState) (hostId : String) (now : ℕ) :
    Spares id s (s.countRestart hostId now).1 :=
  .of_eq rfl rfl rfl

end HubState

end Lasterm.Hub
