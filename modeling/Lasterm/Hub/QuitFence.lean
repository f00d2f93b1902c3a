import Lasterm.Hub.Revival

/-!
# A hub that quits starts nothing

Once the hub is quitting it sends no `SPAWN` and tracks no terminal and no session it did not
track before.  Not even for an operation that began while it was running: whatever that has
waited for, it finds its fence no longer current where it would go on.

## Main definitions

* `Shrinks` — terminals and sessions only end.
* `Fenced` — that, or the hub is running; what starts something is done in the turn that saw it.

## Main results

* `quit_fence` — whatever operations were under way, in whatever order they go on.
-/

open Async Transition OrderedMap

namespace Lasterm.Hub

/-- A `SPAWN`. -/
def Frame.isSpawn : Frame → Bool
  | .spawn _ => true
  | _ => false

namespace HubState

/-- The `SPAWN`s that were sent, oldest first. -/
def spawns (s : HubState) : List Frame := s.sent.filter Frame.isSpawn

/-- From `s` to `s'` no `SPAWN` was sent, and nothing is tracked that was not. -/
structure Shrinks (s s' : HubState) : Prop where
  spawns : s'.spawns = s.spawns
  channels : ∀ id ∈ s'.channels.keys, id ∈ s.channels.keys
  sessions : ∀ id ∈ s'.sessions.keys, id ∈ s.sessions.keys

@[grind ←]
theorem Shrinks.refl (s : HubState) : Shrinks s s := ⟨rfl, fun _ => id, fun _ => id⟩

@[grind ←]
theorem Shrinks.of_eq {s s' : HubState} (hsent : s'.sent = s.sent)
    (hchannels : s'.channels = s.channels) (hsessions : s'.sessions = s.sessions) :
    Shrinks s s' :=
  ⟨congrArg (List.filter Frame.isSpawn) hsent, fun _ h => hchannels ▸ h, fun _ h => hsessions ▸ h⟩

theorem Shrinks.trans {s₁ s₂ s₃ : HubState} (h : Shrinks s₁ s₂) (h' : Shrinks s₂ s₃) :
    Shrinks s₁ s₃ where
  spawns := h'.spawns.trans h.spawns
  channels := fun id hid => h.channels id (h'.channels id hid)
  sessions := fun id hid => h.sessions id (h'.sessions id hid)

theorem Shrinks.foldl {α : Type*} {f : HubState → α → HubState} (hf : ∀ s a, Shrinks s (f s a))
    (l : List α) (s : HubState) : Shrinks s (l.foldl f s) := by
  induction l generalizing s with
  | nil => exact .refl s
  | cons a l ih => exact (hf s a).trans (ih _)

theorem Shrinks.set {s : HubState} {channelId : String} {ch : ChannelState}
    (hch : s.channels.get channelId = some ch) (ch' : ChannelState) :
    Shrinks s { s with channels := s.channels.set channelId ch' } where
  spawns := rfl
  channels := fun _ => mem_keys_of_set hch
  sessions := fun _ => id

/-! ### What can only end terminals and sessions -/

section

variable (s : HubState)
include s

theorem Shrinks.send {f : Frame} (hf : f.isSpawn = false) : Shrinks s (s.send f) where
  spawns := by simp [HubState.send, HubState.spawns, hf]
  channels := fun _ => id
  sessions := fun _ => id

@[grind ←]
theorem Shrinks.destroy (channelId : String) : Shrinks s (s.send (.destroy channelId)) :=
  .send s rfl

@[grind ←]
theorem Shrinks.updateChannelStatus (channelId : String)
    (status : ChannelStatus) : Shrinks s (s.updateChannelStatus channelId status) where
  spawns := rfl
  channels := by
    intro id hid
    unfold HubState.updateChannelStatus at hid
    split at hid
    · exact hid
    · next ch hch => exact mem_keys_of_set hch hid
  sessions := fun _ => id

@[grind ←]
theorem Shrinks.updateSessionStatus (hostId sessionId : String)
    (status : SessionStatus) : Shrinks s (s.updateSessionStatus hostId sessionId status) where
  spawns := rfl
  channels := fun _ => id
  sessions := by
    intro id hid
    unfold HubState.updateSessionStatus at hid
    split at hid
    · exact hid
    · next st hst =>
      split at hid
      · exact mem_keys_of_set hst hid
      · exact hid

@[grind ←]
theorem Shrinks.deleteSession (hostId : String) :
    Shrinks s { s with sessions := s.sessions.delete hostId } where
  spawns := rfl
  channels := fun _ => id
  sessions := fun _ => mem_keys_of_delete

@[grind ←]
theorem Shrinks.forgetChannel (channelId : String) : Shrinks s (s.forgetChannel channelId) where
  spawns := rfl
  channels := fun _ => mem_keys_of_delete
  sessions := fun _ => id

@[grind ←]
theorem Shrinks.retireChannel (channelId : String) : Shrinks s (s.retireChannel channelId) :=
  (Shrinks.updateChannelStatus s channelId .dead).trans (.forgetChannel _ channelId)

/-- A session is closed in its row, and forgotten. -/
@[grind ←]
theorem Shrinks.abandon (hostId sessionId : String) :
    Shrinks s { s.updateSessionStatus hostId sessionId .closed with
      sessions := (s.updateSessionStatus hostId sessionId .closed).sessions.delete hostId } :=
  (Shrinks.updateSessionStatus s hostId sessionId .closed).trans (.deleteSession _ hostId)

theorem Shrinks.endChannel (channelId : String) : Shrinks s (s.endChannel channelId) := by
  unfold HubState.endChannel
  split
  · exact .refl s
  · refine Shrinks.trans ?_ (.forgetChannel _ channelId)
    split
    · exact .refl s
    · exact .updateChannelStatus s channelId .dead

@[grind ←]
theorem Shrinks.closeSession (hostId sessionId : String) :
    Shrinks s (s.closeSession hostId sessionId) :=
  (Shrinks.foldl Shrinks.endChannel (s.channelsOf hostId) s).trans (.abandon _ hostId sessionId)

@[grind ←]
theorem Shrinks.editChannel (channelId : String)
    (f : ChannelState → ChannelState) : Shrinks s (s.editChannel channelId f) := by
  unfold HubState.editChannel
  split
  · exact .refl s
  · next ch hch => exact .set hch (f ch)

@[grind ←]
theorem Shrinks.spawnAnswered (channelId : String) (ok : Bool) :
    Shrinks s (s.spawnAnswered channelId ok) := by
  unfold HubState.spawnAnswered
  split
  · split
    · exact .of_eq rfl rfl rfl
    · next ch hch => exact ⟨rfl, (Shrinks.set hch _).channels, fun _ => id⟩
  · exact .updateChannelStatus s channelId .dead

end

theorem Shrinks.judge (hostId : String) (reportedIds : List String) (askedAt : ℕ) (s : HubState)
    (channelId : String) : Shrinks s (judge hostId reportedIds askedAt s channelId) := by
  refine judge_of_changes Shrinks.refl Shrinks.trans hostId askedAt ?_ ?_ ?_ ?_ ?_
  · exact fun ch sessionId hch => .set hch { ch with sessionId }
  · exact fun t => .send t rfl
  · exact fun t => .updateChannelStatus t channelId .live
  · exact fun _ => .updateChannelStatus s channelId .dead
  · exact fun _ t => .forgetChannel t channelId

@[grind ←]
theorem Shrinks.reconcile (s : HubState) (hostId : String) (states : List Reported)
    (askedAt : ℕ) : Shrinks s (s.reconcileChannelState hostId states askedAt) := by
  have horphans : Shrinks s (s.destroyOrphans states) :=
    Shrinks.foldl Shrinks.destroy _ s
  exact horphans.trans (Shrinks.foldl (Shrinks.judge hostId _ askedAt) _ _)

end HubState


namespace Revival

/-- From `s` to `s'`, if the hub was quitting: it still is, and nothing was started. -/
def Fenced (s s' : QuitHub) : Prop :=
  s.quitState = .quitting → s'.quitState = .quitting ∧ s.hub.Shrinks s'.hub

theorem Fenced.refl (s : QuitHub) : Fenced s s := fun hs => ⟨hs, .refl s.hub⟩

theorem Fenced.trans (s s' s'' : QuitHub) (h : Fenced s s') (h' : Fenced s' s'') :
    Fenced s s'' := by
  intro hs
  obtain ⟨hs', hhub⟩ := h hs
  obtain ⟨hs'', hhub'⟩ := h' hs'
  exact ⟨hs'', hhub.trans hhub'⟩

variable {s : QuitHub}

theorem Fenced.of_running (hs : s.quitState = .running) (s' : QuitHub) : Fenced s s' :=
  fun hq => by rw [hs] at hq; cases hq

/-- A change of the connections alone. -/
@[grind ←]
theorem Fenced.of_eq {s' : QuitHub} (hquit : s'.quitState = s.quitState) (hhub : s'.hub = s.hub) :
    Fenced s s' :=
  fun hs => ⟨hquit.trans hs, hhub ▸ .refl s.hub⟩

/-! ### The fence -/

section Fence

variable {α β : Type}

/-- What the operation returns, if it is as in `good`, it returns while the hub runs. -/
def Guards (t : Op α) (good : α → Prop) : Prop :=
  ∀ s, t.Keeps Fenced s fun r s' => ∀ a, r = .ok a → good a → s'.quitState = .running

variable {t : Op α}

theorem Guards.always {good : α → Prop} (h : Guards t good) : t.Always Fenced :=
  fun s => (h s).mono fun _ _ _ => trivial

theorem Guards.bind {good : α → Prop} {f : α → Op β} {R : Except Err β → QuitHub → Prop}
    (ht : Guards t good)
    (hf : ∀ a s, (good a → s.quitState = .running) → (f a).Keeps Fenced s R)
    (hR : ∀ e s, R (.error e) s) (s : QuitHub) : (t >>= f).Keeps Fenced s R := by
  refine Job.Keeps.bind ((ht s).mono ?_)
  intro r s' h
  cases r with
  | ok a => exact hf a s' (h a rfl)
  | error e => exact hR e s'

theorem running_of_ne {q : QuitState} (h : q ≠ .quitting) : q = .running := by
  cases q with
  | running => rfl
  | quitting => exact absurd rfl h

theorem captureQuitFence_guards : Guards captureQuitFence fun _ => True := by
  intro s
  refine ⟨.refl s, ?_⟩
  change (if s.quitState = .quitting then Job.fail .quitting
    else pure s.quitEpoch : Op ℕ).Keeps Fenced s _
  split
  · nofun
  · next hs => exact fun _ _ _ => running_of_ne hs

theorem assertQuitFence_guards (epoch : ℕ) : Guards (assertQuitFence epoch) fun _ => True := by
  intro s
  refine ⟨.refl s, ?_⟩
  change (if s.quitState = .quitting ∨ s.quitEpoch ≠ epoch then Job.fail .quitting
    else pure () : Op Unit).Keeps Fenced s _
  split
  · nofun
  · next hs => exact fun _ _ _ => running_of_ne fun hq => hs (.inl hq)

theorem isQuitFenceCurrent_guards (epoch : ℕ) :
    Guards (isQuitFenceCurrent epoch) fun current => current = true := by
  intro s
  refine ⟨.refl s, ?_⟩
  rintro a ⟨rfl⟩ ha
  have hs : s.quitState ≠ .quitting ∧ s.quitEpoch = epoch := by simpa using ha
  exact running_of_ne hs.1

theorem onHub_keeps (hs : s.quitState = .running) (f : HubState → HubState) :
    (onHub f).Keeps Fenced s fun _ s' => s'.quitState = .running :=
  ⟨.of_running hs _, hs⟩

theorem persistSession_guards (fence : ℕ) (hostId : String) (state : SessionState) :
    Guards (persistSession fence hostId state) fun _ => True := by
  refine (assertQuitFence_guards fence).bind ?_ (fun _ _ => nofun)
  intro _ s hs
  exact (onHub_keeps (hs trivial) _).mono fun _ _ hs' _ _ _ => hs'

theorem sendGuardedSpawn_guards (channelId : Option String) (quitEpoch : ℕ) :
    Guards (sendGuardedSpawn channelId quitEpoch) fun _ => True := by
  refine (isQuitFenceCurrent_guards quitEpoch).bind ?_ (fun _ _ => nofun)
  intro current s hs
  split
  · next hcurrent =>
    refine Job.Keeps.bind ((onHub_keeps (hs hcurrent) _).mono ?_)
    intro r s' hs'
    cases r with
    | ok _ => exact fun _ _ _ => hs'
    | error e => nofun
  · nofun

@[grind ←]
theorem get_fenced : (Job.get : Op QuitHub).Always Fenced := .get Fenced.refl

@[grind ←]
theorem modify_fenced {f : QuitHub → QuitHub} (hf : ∀ s, Fenced s (f s)) :
    (Job.modify f : Op Unit).Always Fenced :=
  .modify hf

@[grind ←]
theorem onHub_fenced {f : HubState → HubState} (hf : ∀ s : HubState, s.Shrinks (f s)) :
    (onHub f).Always Fenced :=
  .modify fun s hs => ⟨hs, hf s.hub⟩

@[grind ←]
theorem map_fenced (h : t.Always Fenced) (f : α → β) : (f <$> t).Always Fenced :=
  .bind h fun _ => .pure _

@[grind ←]
theorem awaited_fenced (h : t.Always Fenced) : (awaited t).Always Fenced := by
  unfold awaited
  grind

@[grind ←]
theorem orIfQuitting_fenced (h : t.Always Fenced) (a : α) : (orIfQuitting t a).Always Fenced := by
  unfold orIfQuitting
  grind

@[grind ←]
theorem doIf_fenced (c : Prop) [Decidable c] {t : Op Unit} (h : t.Always Fenced) :
    (doIf c t).Always Fenced := by
  unfold doIf
  grind

@[grind ←]
theorem finallyDo_fenced {f : Op Unit} (ht : t.Always Fenced) (hf : f.Always Fenced) :
    (finallyDo t f).Always Fenced := by
  unfold finallyDo
  grind

@[grind ←]
theorem captureQuitFence_fenced : captureQuitFence.Always Fenced :=
  captureQuitFence_guards.always

@[grind ←]
theorem assertQuitFence_fenced (epoch : ℕ) : (assertQuitFence epoch).Always Fenced :=
  (assertQuitFence_guards epoch).always

@[grind ←]
theorem isQuitFenceCurrent_fenced (epoch : ℕ) : (isQuitFenceCurrent epoch).Always Fenced :=
  (isQuitFenceCurrent_guards epoch).always

@[grind ←]
theorem persistSession_fenced (fence : ℕ) (hostId : String) (state : SessionState) :
    (persistSession fence hostId state).Always Fenced :=
  (persistSession_guards fence hostId state).always

@[grind ←]
theorem sendGuardedSpawn_fenced (channelId : Option String) (quitEpoch : ℕ) :
    (sendGuardedSpawn channelId quitEpoch).Always Fenced :=
  (sendGuardedSpawn_guards channelId quitEpoch).always

end Fence

/-! ### The operations -/

@[grind ←]
theorem isBeingStopped_fenced (hostId : String) : (isBeingStopped hostId).Always Fenced := by
  unfold isBeingStopped
  grind

@[grind ←]
theorem connectedAgent_fenced (hostId : String) : (connectedAgent hostId).Always Fenced := by
  unfold connectedAgent
  grind

@[grind ←]
theorem sessionOf_fenced (hostId : String) : (sessionOf hostId).Always Fenced := by
  unfold sessionOf
  grind

@[grind ←]
theorem adoptAgent_fenced (fence : ℕ) (hostId : String) (agent : ℕ) :
    (adoptAgent fence hostId agent).Always Fenced := by
  unfold adoptAgent
  grind

@[grind ←]
theorem createSession_fenced (fence : ℕ) (sessionId hostId : String) (status : SessionStatus) :
    (createSession fence sessionId hostId status).Always Fenced := by
  unfold createSession
  grind

@[grind ←]
theorem getOrCreateSession_fenced (hostId : String) (isSsh : Bool) (fence : ℕ) (gid : String) :
    (getOrCreateSession hostId isSsh fence gid).Always Fenced := by
  unfold getOrCreateSession
  grind

@[grind ←]
theorem sendFencedSpawn_fenced (channelId : Option String) :
    (sendFencedSpawn channelId).Always Fenced := by
  unfold sendFencedSpawn
  grind

/-- The terminal that was started is tracked in the turn that has found the fence current. -/
@[grind ←]
theorem sendSpawnAndWait_fenced (hostId sessionId clientId : String)
    (reuseChannelId : Option String) :
    (sendSpawnAndWait hostId sessionId clientId reuseChannelId).Always Fenced := by
  refine .bind (isBeingStopped_fenced hostId) fun stopped => ?_
  split
  · exact .pure _
  refine .bind (by grind) fun fence => ?_
  split
  · exact .pure _
  next quitEpoch =>
    refine .bind .wait fun h => ?_
    split
    · grind
    refine (isQuitFenceCurrent_guards quitEpoch).bind ?_ fun _ _ => trivial
    intro current s hs
    split
    · next hcurrent =>
      split
      · refine .bind ((onHub_keeps (hs hcurrent) _).mono ?_)
        intro r s' _
        cases r with
        | ok _ => exact fun _ _ _ => trivial
        | error e => trivial
      · exact fun _ _ _ => trivial
      · trivial
    · exact fun _ _ _ => trivial

@[grind ←]
theorem sendRestartSpawn_fenced (hostId channelId : String) :
    (sendRestartSpawn hostId channelId).Always Fenced := by
  refine .bind (isBeingStopped_fenced hostId) fun stopped => ?_
  split
  · exact .pure _
  refine .bind (by grind) fun fence => ?_
  split
  · exact .pure _
  refine .bind .wait fun h => ?_
  grind

@[grind ←]
theorem applyRestartState_fenced (channelId previousChannelId hostId sessionId : String)
    (clients : List String) :
    (applyRestartState channelId previousChannelId hostId sessionId clients).Always Fenced := by
  refine captureQuitFence_guards.bind ?_ fun _ _ => trivial
  intro _ s hs
  exact (onHub_keeps (hs trivial) _).mono fun _ _ _ => trivial

@[grind ←]
theorem sendSpawns_fenced (quitEpoch : ℕ) (l : List String) :
    (sendSpawns quitEpoch l).Always Fenced := by
  induction l with
  | nil => exact .pure _
  | cons channelId rest ih =>
    unfold sendSpawns
    grind

@[grind ←]
theorem spawnAnswers_fenced (quitEpoch : ℕ) {onSpawnOk : String → HubState → HubState}
    (h : ∀ channelId s, HubState.Shrinks s (onSpawnOk channelId s)) (n : ℕ) (sent : List String) :
    (spawnAnswers quitEpoch onSpawnOk n sent).Always Fenced := by
  induction n generalizing sent with
  | zero => exact .pure _
  | succ n ih =>
    have hok : ∀ channelId (s : HubState),
        s.Shrinks (onSpawnOk channelId (s.spawnAnswered channelId true)) :=
      fun channelId s => (HubState.Shrinks.spawnAnswered s channelId true).trans (h channelId _)
    refine .bind .wait fun h => ?_
    split
    · exact ih sent
    · split
      · grind
      · refine .bind (isQuitFenceCurrent_fenced quitEpoch) fun current => ?_
        grind

@[grind ←]
theorem spawnChannelsForHost_fenced (hostId : String) {onSpawnOk : String → HubState → HubState}
    (h : ∀ channelId s, HubState.Shrinks s (onSpawnOk channelId s)) :
    (spawnChannelsForHost hostId onSpawnOk).Always Fenced := by
  unfold spawnChannelsForHost
  grind

theorem reAttached_shrinks (channelId : String) (s : HubState) :
    s.Shrinks (reAttached channelId s) := by
  unfold reAttached
  grind

@[grind ←]
theorem reAttachChannels_fenced (hostId : String) : (reAttachChannels hostId).Always Fenced :=
  spawnChannelsForHost_fenced hostId reAttached_shrinks

@[grind ←]
theorem askingAgent_fenced : askingAgent.Always Fenced := by
  refine .bind (onHub_fenced fun s => .of_eq rfl rfl rfl) fun _ => ?_
  grind

@[grind ←]
theorem adoptWhatTheDaemonHolds_fenced (hostId : String) (remoteDaemon : Bool) :
    (adoptWhatTheDaemonHolds hostId remoteDaemon).Always Fenced := by
  unfold adoptWhatTheDaemonHolds
  grind

@[grind ←]
theorem connectSshAgent_fenced (hostId sessionId : String) (rounds : ℕ) :
    (connectSshAgent hostId sessionId rounds).Always Fenced := by
  induction rounds with
  | zero => exact .fail _
  | succ rounds ih =>
    unfold connectSshAgent
    grind

@[grind ←]
theorem startAgain_fenced (fence : ℕ) (hostId sessionId : String) :
    (startAgain fence hostId sessionId).Always Fenced := by
  unfold startAgain
  grind

@[grind ←]
theorem onReconnectAgent_fenced (hostId : String) (h : Heard) :
    (onReconnectAgent hostId h).Always Fenced := by
  refine .bind (isBeingStopped_fenced hostId) fun stopped => ?_
  split
  · exact .pure _
  refine .bind captureQuitFence_fenced fun fence => ?_
  refine .bind (connectedAgent_fenced hostId) fun reachable => ?_
  grind

@[grind ←]
theorem closeIfCurrent_fenced (hostId sessionId : String) :
    (closeIfCurrent hostId sessionId).Always Fenced := by
  unfold closeIfCurrent
  grind

@[grind ←]
theorem scheduleReconnect_fenced (hostId sessionId : String) (attempts : ℕ) (h : Heard) :
    (scheduleReconnect hostId sessionId attempts h).Always Fenced := by
  induction attempts generalizing h with
  | zero => exact .pure _
  | succ attempts ih =>
    refine .bind get_fenced fun s => ?_
    split
    · exact .pure _
    refine .bind captureQuitFence_fenced fun fence => ?_
    split
    · grind
    -- the timer
    refine .bind .wait fun h => ?_
    refine .bind (isBeingStopped_fenced hostId) fun stopped => ?_
    refine .bind (connectedAgent_fenced hostId) fun agent => ?_
    refine .bind (sessionOf_fenced hostId) fun current => ?_
    grind

@[grind ←]
theorem attachDaemonFresh_fenced (hostId sessionId : String) :
    (attachDaemonFresh hostId sessionId).Always Fenced := by
  refine .bind captureQuitFence_fenced fun quitEpoch => ?_
  refine .bind .wait fun h => ?_
  split
  · refine .tryCatch ?_ (by grind)
    refine .bind (assertQuitFence_fenced quitEpoch) fun _ => ?_
    refine .bind askingAgent_fenced fun askedAt => ?_
    refine .bind .wait fun h' => ?_
    grind
  · exact .fail _

@[grind ←]
theorem attachDaemon_fenced (hostId sessionId : String) (h : Heard) :
    (attachDaemon hostId sessionId h).Always Fenced := by
  unfold attachDaemon
  grind

@[grind ←]
theorem warmRestartLocal_fenced (hostId sessionId : String) (h : Heard) :
    (warmRestartLocal hostId sessionId h).Always Fenced := by
  refine .bind captureQuitFence_fenced fun _ => ?_
  refine .bind get_fenced fun s => ?_
  refine .bind (onHub_fenced fun s => .of_eq rfl rfl rfl) fun _ => ?_
  split
  · grind
  refine .bind (.tryCatch (by grind) (by grind)) fun attached => ?_
  grind

@[grind ←]
theorem restartSendAndWait_fenced (channelId hostId sessionId : String) (clients : List String) :
    (restartSendAndWait channelId hostId sessionId clients).Always Fenced := by
  unfold restartSendAndWait
  grind

@[grind ←]
theorem restartChannel_fenced (channelId hostId : String) (h : Heard) :
    (restartChannel channelId hostId h).Always Fenced := by
  refine orIfQuitting_fenced ?_ ()
  refine .bind captureQuitFence_fenced fun _ => ?_
  refine .bind get_fenced fun s => ?_
  refine .bind (connectedAgent_fenced hostId) fun before => ?_
  refine .bind (by grind) fun _ => ?_
  refine .bind (by split <;> grind) fun reconnected => ?_
  refine .bind (connectedAgent_fenced hostId) fun agent => ?_
  refine .bind (sessionOf_fenced hostId) fun session => ?_
  split
  · exact .pure _
  split
  · exact .pure _
  split
  · split
    · grind
    · -- without a password first, and with one if the agent asks for it
      refine .bind (by grind) fun answer => ?_
      split <;> grind
  · grind

@[grind ←]
theorem followAcquisition_fenced (hostId : String) :
    (followAcquisition hostId).Always Fenced := by
  unfold followAcquisition
  grind

@[grind ←]
theorem leadAcquisition_fenced (rounds fence : ℕ) (hostId gid : String) :
    (leadAcquisition rounds fence hostId gid).Always Fenced := by
  refine .bind (.tryCatch ?_ fun _ => .pure _) fun led => ?_
  · refine .bind (getOrCreateSession_fenced hostId true fence gid) fun st => ?_
    refine .bind .wait fun _ => ?_
    refine .bind (.tryCatch (by grind) fun _ => ?_) fun made => ?_
    · refine .bind (sessionOf_fenced hostId) fun current => ?_
      refine .bind (doIf_fenced _ (onHub_fenced fun s => ?_)) fun _ => .pure _
      exact .abandon s hostId st.id
    split
    · exact .pure _
    refine .bind .wait fun h => ?_
    refine .bind (sessionOf_fenced hostId) fun current => ?_
    grind
  · grind

@[grind ←]
theorem reachForSpawn_fenced (rounds fence : ℕ) (hostId : String) (h : Heard) :
    (reachForSpawn rounds fence hostId h).Always Fenced := by
  unfold reachForSpawn
  grind

@[grind ←]
theorem agentAfterRetirement_fenced (hostId : String) :
    (agentAfterRetirement hostId).Always Fenced := by
  refine .bind .wait fun h => ?_
  refine .bind get_fenced fun s => ?_
  refine .bind (connectedAgent_fenced hostId) fun agent => ?_
  split
  · exact .pure _
  split
  · exact .pure _
  split
  · grind
  refine .bind (sessionOf_fenced hostId) fun session => ?_
  split
  · exact .pure _
  refine .tryCatch ?_ fun _ => .pure _
  grind

@[grind ←]
theorem readyAgent_fenced (hostId sessionId : String) (h : Heard) :
    (readyAgent hostId sessionId h).Always Fenced := by
  refine .bind (connectedAgent_fenced hostId) fun agent => ?_
  refine .bind (by split <;> grind) fun reached => ?_
  grind

@[grind ←]
theorem startTerminal_fenced (hostId sessionId clientId : String) (reuseChannelId : Option String)
    (h : Heard) :
    (startTerminal hostId sessionId clientId reuseChannelId h).Always Fenced := by
  unfold startTerminal
  grind

@[grind ←]
theorem spawnOnHost_fenced (rounds fence : ℕ) (hostId clientId : String)
    (reuseChannelId : Option String) (h : Heard) :
    (spawnOnHost rounds fence hostId clientId reuseChannelId h).Always Fenced := by
  refine .bind (by split <;> grind) fun h => ?_
  refine .bind (isBeingStopped_fenced hostId) fun stopped => ?_
  split
  · exact .pure _
  refine .bind (reachForSpawn_fenced rounds fence hostId h) fun session => ?_
  split
  · exact .pure _
  next session =>
    split
    · grind
    split
    · exact .pure _
    refine .bind (by grind) fun _ => onHub_fenced fun s => ?_
    exact .abandon s hostId session.id

@[grind ←]
theorem handleSpawn_fenced (rounds : ℕ) (hostId clientId : String) (reuseChannelId : Option String) :
    (handleSpawn rounds hostId clientId reuseChannelId).Always Fenced := by
  refine .bind (by grind) fun fence => ?_
  split
  · exact .pure _
  refine .bind .wait fun h => ?_
  grind

@[grind ←]
theorem reachHostOnRequest_fenced (rounds : ℕ) (hostId : String) (h : Heard) :
    (reachHostOnRequest rounds hostId h).Always Fenced := by
  refine .bind (by grind) fun fence => ?_
  split
  · exact .pure _
  split
  · grind
  refine .tryCatch ?_ ?_
  · refine .bind (by grind) fun session => ?_
    refine .bind .wait fun _ => ?_
    refine .bind (by grind) fun _ => ?_
    refine .bind (by grind) fun made => ?_
    refine .bind .wait fun h => ?_
    refine .bind (sessionOf_fenced hostId) fun current => ?_
    split
    · exact .fail _
    refine .bind (by grind) fun _ => ?_
    refine .bind (by grind) fun adopted => ?_
    grind
  · intro e
    refine .bind (sessionOf_fenced hostId) fun current => ?_
    split
    · exact .pure _
    next st =>
      split
      · exact onHub_fenced fun s => .abandon s hostId st.id
      · grind

@[grind ←]
theorem reconnectForAttach_fenced (hostId : String) (h : Heard) :
    (reconnectForAttach hostId h).Always Fenced := by
  refine .bind (isBeingStopped_fenced hostId) fun stopped => ?_
  refine .bind (connectedAgent_fenced hostId) fun agent => ?_
  split
  · exact .pure _
  · exact .tryCatch (.bind (onReconnectAgent_fenced hostId h) fun _ => .pure _) fun _ => .pure _

@[grind ←]
theorem handleAttach_fenced (clientId channelId : String) (again : ℕ) :
    (handleAttach clientId channelId again).Always Fenced := by
  induction again with
  | zero => exact .pure _
  | succ again ih =>
    refine .bind get_fenced fun s => ?_
    split
    · exact .pure _
    next ch hch =>
      split
      · exact .pure _
      refine .bind (by grind) fun _ => ?_
      refine .bind (by grind) fun _ => ?_
      refine .bind (connectedAgent_fenced ch.hostId) fun before => ?_
      refine .bind (by split <;> grind) fun h => ?_
      split
      · exact ih
      refine .bind (connectedAgent_fenced ch.hostId) fun agent => ?_
      split
      · exact .pure _
      refine .bind askingAgent_fenced fun askedAt => ?_
      refine .bind .wait fun h => ?_
      grind

/-- The session and the terminals of an earlier run are tracked in the turn that has taken
the fence. -/
theorem startupHost_fenced (hostId : String) (alive : List String) (h : Heard) :
    (startupHost hostId alive h).Always Fenced := by
  have hdead : ∀ s : HubState,
      s.Shrinks (alive.foldl (fun s id => s.updateChannelStatus id .dead) s) :=
    fun s => .foldl (fun s id => .updateChannelStatus s id .dead) alive s
  refine .bind get_fenced fun s => ?_
  split
  · exact onHub_fenced hdead
  next sessionId row hfound =>
    refine .bind (onHub_fenced fun s => .of_eq rfl rfl rfl) fun _ => ?_
    refine .bind captureQuitFence_fenced fun fence => ?_
    refine (persistSession_guards fence hostId _).bind ?_ fun _ _ => trivial
    intro _ s hs
    refine .bind ((onHub_keeps (hs trivial) _).mono ?_)
    intro r s' _
    cases r with
    | error e => trivial
    | ok _ =>
      have hrest : Job.Always Fenced (
          if h.ssh = false then
            (awaited (attachDaemon hostId sessionId h)).tryCatch fun _ =>
              awaited (warmRestartLocal hostId sessionId h)
          else if h.remoteDaemon then pure ()
          else onHub fun s => alive.foldl (fun s id => s.updateChannelStatus id .dead) s) := by
        grind
      exact hrest s'

@[grind ←]
theorem startup_fenced (hosts : List (String × Heard)) : (startup hosts).Always Fenced := by
  refine .bind get_fenced fun s => ?_
  generalize List.filter _ _ = rest
  induction rest with
  | nil => exact .pure _
  | cons e rest ih => exact .bind (startupHost_fenced e.1 e.2.1 e.2.2) fun _ => ih

theorem beginQuit_fenced (s : QuitHub) : Fenced s (beginQuit s) := by
  intro hs
  rw [beginQuit, if_pos hs]
  exact ⟨hs, .refl s.hub⟩

theorem body_fenced (o : Operation) : o.body.Always Fenced := by
  cases o with
  | quit => exact .modify beginQuit_fenced
  | stopping hosts => exact .modify fun s hs => ⟨hs, .of_eq rfl rfl rfl⟩
  | destroyChannel channelId =>
    exact onHub_fenced fun s => (HubState.Shrinks.destroy s channelId).trans (.retireChannel _ _)
  | _ =>
    unfold Operation.body
    grind

/-- **Once the hub has begun to quit, no `SPAWN` is sent to an agent, and no terminal and no
session is added to what the hub tracks**, whatever operations were under way or begin, and
in whatever order they have their turns. -/
theorem quit_fence {s : QuitHub} {p p' : Busy} (h : Run Busy.next free ⟨s, []⟩ p)
    (hquit : p.shared.quitState = .quitting) (h' : Run Busy.next free p p') :
    p'.shared.hub.spawns = p.shared.hub.spawns ∧
      (∀ id ∈ p'.shared.hub.channels.keys, id ∈ p.shared.hub.channels.keys) ∧
      ∀ id ∈ p'.shared.hub.sessions.keys, id ∈ p.shared.hub.sessions.keys := by
  have hinit : Pool.Keep Fenced (⟨s, []⟩ : Busy) := nofun
  have hkeep : p.Keep Fenced := (Pool.keeps_of_run .refl .trans body_fenced hinit h).2
  obtain ⟨hspawns, hchannels, hsessions⟩ :=
    ((Pool.keeps_of_run .refl .trans body_fenced hkeep h').1 hquit).2
  exact ⟨hspawns, hchannels, hsessions⟩

/-- A terminal is being started on the local host when the hub begins to quit: the agent's
answer comes, and another `SPAWN` with it, and neither is tracked. -/
theorem quit_fence_answered : ∃ p p' : Busy,
    p.shared.quitState = .quitting ∧ p.shared.hub.spawns = [.spawn ""] ∧
    Run Busy.next free p p' ∧ p'.waiting.length = 1 ∧
    p'.shared.hub.spawns = [.spawn ""] ∧ ∀ id, id ∉ p'.shared.hub.channels.keys := by
  let hub : QuitHub :=
    { hub := { HubState.init with sessions := (empty).set "host" ⟨"session", .active⟩ }
      quitState := .running, quitEpoch := 0
      agents := (empty).set "host" 1, connected := [1] }
  have hrun : Run Busy.next free ⟨hub, []⟩ _ := .get_free [.start (.spawn 0 "host" "window" none),
    .resume 0 { ssh := false }, .resume 0 {}, .start .quit] (by decide +kernel)
  obtain ⟨hsame, hchannels, -⟩ := quit_fence hrun (by decide +kernel)
    (.get_free [.resume 0 { reply := .spawnOk "terminal" },
      .start (.spawn 0 "host" "window" none)] (by decide +kernel))
  exact ⟨_, _, by decide +kernel, by decide +kernel, .get_free _ _, by decide +kernel,
    hsame.trans (by decide +kernel), fun id hid =>
      List.eq_nil_iff_forall_not_mem.mp (by decide +kernel) id (hchannels id hid)⟩

end Revival

end Lasterm.Hub
