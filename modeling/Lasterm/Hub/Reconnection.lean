import Lasterm.Lib.Run
import Lasterm.Hub.Reconcile

/-!
# A reconnection, stretch by stretch

Three paths lead back to the local daemon: the hub's `startup`, the reconnect after a
connection closed, and `warmRestartLocal` after an attach that failed.  A path is cut at
its awaits into stretches; between two of them anything may happen to the hub.

## Main results

* `attach_buries_exactly_unknown` — of what the daemon reports alive, what an attach ends.
-/

namespace Lasterm.Hub

open Transition Option List

/-! ### One reconnection -/

/-- How the hub came to connect. -/
inductive Path
  | startup
  | afterClose
  | warmRestart
  deriving DecidableEq

/-- Where a reconnection stands. -/
inductive Phase
  | idle
  /-- `connectOrLaunch` is awaited. -/
  | attaching (path : Path) (sessionId : String)
  /-- The daemon was asked what it holds, and its answer is awaited. -/
  | asked (path : Path) (sessionId : String) (askedAt : ℕ)
  /-- A warm restart has its agent, and starts everything again. -/
  | respawning
  /-- The answers to its `SPAWN`s are awaited. -/
  | spawning
  | over
  deriving DecidableEq

/-- The daemon has not answered yet. -/
def Phase.waiting : Phase → Bool
  | .idle | .attaching _ _ | .asked _ _ _ => true
  | .respawning | .spawning | .over => false

/-- One reconnection of a host, with what became of the terminals. -/
structure Reconnection where
  hostId : String
  hub : HubState
  phase : Phase
  reported : List String
  /-- Of any terminal, whether the hub knew it when the report came. -/
  known : String → Bool
  /-- Buried by this reconnection, its attach included, up to its end or its restart. -/
  buried : String → Bool
  /-- Buried by what a warm restart does after its attach. -/
  buriedByRestart : String → Bool

namespace Reconnection

open HubState

/-- Nothing was reconnected yet. -/
def init (hostId : String) (hub : HubState) : Reconnection :=
  ⟨hostId, hub, .idle, [], fun _ => false, fun _ => false, fun _ => false⟩

/-- A stretch of the reconnection leads to `hub'`. -/
def stretch (r : Reconnection) (hub' : HubState) (phase : Phase) : Reconnection :=
  { r with
    hub := hub'
    phase := phase
    buried := fun id => r.buried id || buries r.hub hub' id }

/-- A stretch of a warm restart after its attach. -/
def restartStretch (r : Reconnection) (hub' : HubState) (phase : Phase) : Reconnection :=
  { r with
    hub := hub'
    phase := phase
    buriedByRestart := fun id => r.buriedByRestart id || buries r.hub hub' id }

/-- What can happen. -/
inductive Step
  | meanwhile (hub : HubState)
  | startup
  | afterClose (sessionId : String)
  | warmRestart (sessionId : String) (now : ℕ)
  /-- The daemon is connected, and asked what it holds. -/
  | connected
  /-- The daemon answers, and its agent is adopted; that `adoptAgent` refuses the agent of a host
  stopped meanwhile, which ends the attach, is left out. -/
  | answered (states : List Reported)
  /-- A live agent was there already, which is not asked again. -/
  | reused
  | failed (now : ℕ)
  | respawn
  | spawnAnswered (channelId : String) (ok : Bool)

/-- `warmRestartLocal` up to its attach. -/
def warmRestartBegin (r : Reconnection) (sessionId : String) (now : ℕ) : Reconnection :=
  let (hub, count) := r.hub.countRestart r.hostId now
  if 3 < count then r.stretch (hub.closeSession r.hostId sessionId) .over
  else r.stretch hub (.attaching .warmRestart sessionId)

/-- Where a path goes on once its attach is done. -/
def afterAttach : Path → Phase
  | .startup | .afterClose => .over
  | .warmRestart => .respawning

/-- What a path does about an attach that failed. -/
def attachFailed (r : Reconnection) (path : Path) (sessionId : String) (now : ℕ) :
    Reconnection :=
  match path with
  | .startup => r.warmRestartBegin sessionId now
  | .afterClose | .warmRestart => r.stretch (r.hub.closeSession r.hostId sessionId) .over

/-- One step. -/
def step (r : Reconnection) : Step → Option Reconnection
  | .meanwhile hub => some { r with hub := hub }
  | .startup =>
    if r.phase = .idle then
      match r.hub.startupBegin r.hostId with
      | (hub, some sessionId) => some (r.stretch hub (.attaching .startup sessionId))
      | (hub, none) => some (r.stretch hub .over)
    else none
  | .afterClose sessionId =>
    if r.phase = .idle then
      some (r.stretch (r.hub.updateSessionStatus r.hostId sessionId .disconnected)
        (.attaching .afterClose sessionId))
    else none
  | .warmRestart sessionId now =>
    if r.phase = .idle then some (r.warmRestartBegin sessionId now) else none
  | .connected =>
    match r.phase with
    | .attaching path sessionId =>
      let (hub, askedAt) := r.hub.askingAgent
      some (r.stretch hub (.asked path sessionId askedAt))
    | _ => none
  | .answered states =>
    match r.phase with
    | .asked path sessionId askedAt =>
      some { r.stretch (r.hub.attachAnswered r.hostId sessionId states askedAt)
          (afterAttach path) with
        reported := (states.filter Reported.alive).map Reported.channelId
        known := r.hub.knows }
    | _ => none
  | .reused =>
    match r.phase with
    | .attaching path _ => some (r.stretch r.hub (afterAttach path))
    | _ => none
  | .failed now =>
    match r.phase with
    | .attaching path sessionId | .asked path sessionId _ =>
      some (r.attachFailed path sessionId now)
    | _ => none
  | .respawn =>
    if r.phase = .respawning then
      some (r.restartStretch (r.hub.spawnChannelsForHost r.hostId) .spawning)
    else none
  | .spawnAnswered channelId ok =>
    if r.phase = .spawning then
      some (r.restartStretch (r.hub.spawnAnswered channelId ok) .spawning)
    else none

/-! ### What an attach buries -/

/-- Until the daemon has answered nothing is buried; after that, of the terminals it
reported alive, exactly those the hub did not know. -/
structure Judged (r : Reconnection) : Prop where
  before : r.phase.waiting = true → (∀ id, r.buried id = false) ∧ r.reported = []
  after : ∀ id ∈ r.reported, r.buried id = !r.known id

theorem Judged.init (hostId : String) (hub : HubState) : Judged (init hostId hub) where
  before := fun _ => ⟨fun _ => rfl, rfl⟩
  after := by simp [Reconnection.init]

theorem Judged.stretch {r : Reconnection} (hj : Judged r) (hw : r.phase.waiting = true)
    {hub' : HubState} {phase : Phase}
    (h : phase.waiting = true → ∀ id, Spares id r.hub hub') : Judged (r.stretch hub' phase) where
  before := by
    intro hp
    refine ⟨fun id => ?_, (hj.before hw).2⟩
    simp [Reconnection.stretch, (hj.before hw).1 id, (h hp id).not_buries]
  after := by
    intro id hid
    rw [show (r.stretch hub' phase).reported = [] from (hj.before hw).2] at hid
    cases hid

theorem Judged.warmRestartBegin {r : Reconnection} (hj : Judged r)
    (hw : r.phase.waiting = true) (sessionId : String) (now : ℕ) :
    Judged (r.warmRestartBegin sessionId now) := by
  unfold Reconnection.warmRestartBegin
  dsimp only
  split
  · exact hj.stretch hw fun h => by cases h
  · exact hj.stretch hw fun _ id => countRestart_spares id r.hub r.hostId now

theorem Judged.attachFailed {r : Reconnection} (hj : Judged r) (hw : r.phase.waiting = true)
    (path : Path) (sessionId : String) (now : ℕ) :
    Judged (r.attachFailed path sessionId now) := by
  cases path with
  | startup => exact hj.warmRestartBegin hw sessionId now
  | afterClose | warmRestart => exact hj.stretch hw fun h => by cases h

theorem afterAttach_not_waiting (path : Path) : (afterAttach path).waiting = false := by
  cases path <;> rfl

theorem attachAnswered_buries (s : HubState) (hostId sessionId : String)
    (states : List Reported) (askedAt : ℕ) {id : String}
    (hid : id ∈ (states.filter Reported.alive).map Reported.channelId) :
    buries s (s.attachAnswered hostId sessionId states askedAt) id = !s.knows id := by
  obtain ⟨st, hst, rfl⟩ := mem_map.mp hid
  obtain ⟨hmem, halive⟩ := mem_filter.mp hst
  cases hk : s.knows st.channelId with
  | true =>
    have hrep : (⟨st.channelId, true⟩ : Reported) ∈ states := halive ▸ hmem
    exact ((reconcile_spares s hostId states askedAt hrep hk).trans
      (updateSessionStatus_spares _ _ hostId sessionId .active)).not_buries
  | false =>
    exact reconcile_destroys s hostId states askedAt (mem_map_of_mem hmem) hk

/-- **One step.** -/
theorem Judged.step {r r' : Reconnection} {a : Step} (hj : Judged r)
    (h : r.step a = some r') : Judged r' := by
  cases a with
  | meanwhile hub =>
    cases h
    exact ⟨hj.before, hj.after⟩
  | startup =>
    obtain ⟨hp, h⟩ := ite_none_right_eq_some.mp h
    have hw : r.phase.waiting = true := by rw [hp]; rfl
    split at h
    · next hub sid hbegin =>
      cases h
      exact hj.stretch hw fun _ id => startupBegin_spares id hbegin
    · cases h
      exact hj.stretch hw fun h => by cases h
  | afterClose sid =>
    obtain ⟨hp, ⟨rfl⟩⟩ := ite_none_right_eq_some.mp h
    refine hj.stretch (by rw [hp]; rfl) fun _ id => ?_
    exact updateSessionStatus_spares id _ _ _ _
  | warmRestart sid now =>
    obtain ⟨hp, ⟨rfl⟩⟩ := ite_none_right_eq_some.mp h
    exact hj.warmRestartBegin (by rw [hp]; rfl) sid now
  | connected =>
    simp only [Reconnection.step] at h
    split at h
    · next path sid hp =>
      cases h
      exact hj.stretch (by rw [hp]; rfl) fun _ id => .of_eq rfl rfl rfl
    · cases h
  | answered states =>
    simp only [Reconnection.step] at h
    split at h
    · next path sid askedAt hp =>
      cases h
      constructor
      · intro hw
        exact absurd hw (by simp [Reconnection.stretch, afterAttach_not_waiting])
      · intro id hid
        have hb := (hj.before (by rw [hp]; rfl)).1 id
        simp only [Reconnection.stretch, hb, Bool.false_or]
        exact attachAnswered_buries r.hub r.hostId sid states askedAt hid
    · cases h
  | reused =>
    simp only [Reconnection.step] at h
    split at h
    · next path sid hp =>
      cases h
      exact hj.stretch (by rw [hp]; rfl) fun _ id => .refl id _
    · cases h
  | failed now =>
    simp only [Reconnection.step] at h
    split at h
    · next path sid hp =>
      cases h
      exact hj.attachFailed (by rw [hp]; rfl) path sid now
    · next path sid t hp =>
      cases h
      exact hj.attachFailed (by rw [hp]; rfl) path sid now
    · cases h
  | respawn | spawnAnswered =>
    obtain ⟨-, ⟨rfl⟩⟩ := ite_none_right_eq_some.mp h
    exact ⟨fun hw => (nomatch hw), hj.after⟩

/-- **Of the terminals the daemon reports alive, an attach buries exactly those the hub
does not know**: whatever path led to it and whatever happened at its awaits, a terminal
that was tracked, or recorded as not dead, when the report came is not marked dead,
forgotten, destroyed or started again by the reconnection up to the end of its attach;
one that was neither is destroyed. -/
theorem attach_buries_exactly_unknown (hostId : String) (hub : HubState) {r : Reconnection}
    (h : Run step free (init hostId hub) r) (id : String) (hid : id ∈ r.reported) :
    r.buried id = true ↔ r.known id = false := by
  have hj : Judged r := h.invariant (.init hostId hub) fun _ _ _ hj _ hs => hj.step hs
  rw [hj.after id hid, Bool.not_eq_true']

/-- A hub that was closed on, with one terminal it tracks: the daemon reports it alive,
and it is spared. -/
theorem tracked_is_spared :
    ∃ r, exec step (init "local" HubState.init)
        [.meanwhile { HubState.init with
            channels := HubState.init.channels.set "t" ⟨"local", "s", .orphan, [], none, none⟩
            sessions := HubState.init.sessions.set "local" ⟨"s", .active⟩ },
          .afterClose "s", .connected, .answered [⟨"t", true⟩]] = some r ∧
      "t" ∈ r.reported ∧ (r.buried "t" = true ↔ r.known "t" = false) := by
  refine ⟨_, rfl, by decide, ?_⟩
  exact attach_buries_exactly_unknown "local" HubState.init (.of_exec_free
    [.meanwhile { HubState.init with
        channels := HubState.init.channels.set "t" ⟨"local", "s", .orphan, [], none, none⟩
        sessions := HubState.init.sessions.set "local" ⟨"s", .active⟩ },
      .afterClose "s", .connected, .answered [⟨"t", true⟩]] rfl) "t" (by decide)

/-- A terminal the daemon reports alive and the hub does not know is destroyed. -/
theorem orphan_is_destroyed :
    ¬∀ hostId hub r, Run step free (init hostId hub) r → ∀ id ∈ r.reported,
      r.buried id = false ∧ r.buriedByRestart id = false := by
  intro h
  have hrun : Run step free (init "local" HubState.init) _ := .of_exec_free
    [.afterClose "s", .connected, .answered [⟨"t", true⟩]] rfl
  have hspared := (h _ _ _ hrun "t" (by decide)).1
  revert hspared
  decide

end Reconnection

end Lasterm.Hub
