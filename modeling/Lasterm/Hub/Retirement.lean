import Lasterm.Hub.Versions
import Lasterm.Lib.OrderedMap
import Lasterm.Lib.Run
import Mathlib.Data.Int.Notation
import Mathlib.Data.List.Perm.Basic

/-!
# Retiring an old agent

An agent older than the hub is replaced once the hub holds nothing there (`agent-retirement.ts`).
Whether it may go is decided and the STOP sent with nothing awaited between (`qualifies`, `begin`);
the host is then marked twice, in `stoppingAgents` until the outcome is known and in `underWay`
until what follows from it is done.

A terminal start waits while a retirement is under way, asks for one itself once its agent is
reached, and is counted on its host from the moment its agent is chosen until it ends
(`startOn`).  Someone may also stop an agent by hand, under the same mark.  What a function does
between two awaits is one step.

## Main definitions

* `State` — the marks, the counts and what is under way, with what was sent.

## Main results

* `retirement_sound` — what a STOP finds, and what every outcome leaves, in every run.
-/

namespace Lasterm.Hub.Retiring

open Transition List OrderedMap

/-- The id of a host. -/
abbrev HostId := String
/-- The id of a channel. -/
abbrev ChannelId := String

/-! ### The hub's tables -/

/-- How a host is reached. -/
inductive HostType
  | localHost
  | ssh
  deriving DecidableEq

/-- What does not change: the hosts, and the hub's own version. -/
structure Setting where
  host : HostId → Option HostType
  hubVersion : String

/-- An agent the hub is connected to. -/
structure Agent where
  id : ℕ
  connected : Bool
  agentVersion : Option String
  usedRemoteDaemon : Bool
  deriving DecidableEq

/-- A terminal, as far as a retirement asks. -/
structure Channel where
  hostId : HostId
  dead : Bool

/-- What came of asking a daemon to stop. -/
inductive DaemonStopOutcome
  | stopped
  | displaced
  | closedByHub
  | refused (otherOwnerChannels : Option ℕ)
  | error (code : String)
  | timeout
  | unsent

/-- What comes of a retirement. -/
inductive RetirementOutcome
  | retired
  | refused (otherOwnerChannels : Option ℕ)
  | unconfirmed

/-- What the outcome of STOP says of the retirement. -/
def retirementOutcome : DaemonStopOutcome → RetirementOutcome
  | .stopped => .retired
  | .refused otherOwnerChannels => .refused otherOwnerChannels
  | .displaced | .closedByHub | .error _ | .timeout | .unsent => .unconfirmed

/-- Where a retirement is. -/
inductive RetirementPhase
  | stopping
  /-- What came of the STOP is known, and `retire` has yet to hear of it. -/
  | answered (outcome : RetirementOutcome)
  /-- The local agent is being started in the old one's place. -/
  | startingLocal
  | finishing

/-- The phases in which the host stands in `stoppingAgents`. -/
def RetirementPhase.fenced : RetirementPhase → Bool
  | .stopping | .answered _ => true
  | .startingLocal | .finishing => false

/-- A retirement under way. -/
structure Retirement where
  id : ℕ
  hostId : HostId
  agent : Agent
  detached : Bool
  phase : RetirementPhase

/-- A retirement in another phase. -/
def Retirement.inPhase (r : ℕ) (phase : RetirementPhase) (y : Retirement) : Retirement :=
  if y.id = r then { y with phase } else y

/-- Where a start is. -/
inductive StartPhase
  /-- It arrived while a retirement was under way, and waits until none is. -/
  | settling
  | settled
  | reaching
  /-- It waits for the retirement it found or began when it had reached its host. -/
  | retiring (r : ℕ)
  | chosen
  | counted
  deriving DecidableEq

/-- A start that is reaching its host. -/
structure Start where
  hostId : HostId
  /-- A restart of a terminal the hub has, not a SPAWN. -/
  restart : Bool
  /-- The retirements that were under way when it arrived or when it had reached its host. -/
  met : List ℕ
  phase : StartPhase

/-- A STOP that a retirement sent, with what the hub held there then. -/
structure StopSent where
  hostId : HostId
  agent : Agent
  liveChannels : ℕ
  /-- How many of the starts under way were counted there. -/
  countedStarts : ℕ
  remote : Bool
  transfers : ℕ

/-- A SPAWN that a start sent, with what was under way there then. -/
structure SpawnSent where
  hostId : HostId
  met : List ℕ
  underWay : Option ℕ
  stopping : Bool
  deriving DecidableEq

/-- A start counted on a host. -/
def Start.countedOn (hostId : HostId) (t : Start) : Bool :=
  t.hostId = hostId && t.phase = .counted

/-- The hub, as far as retirements go. -/
structure State where
  quitting : Bool
  agents : OrderedMap HostId Agent
  sessions : OrderedSet HostId
  channels : OrderedMap ChannelId Channel
  /-- `transfersOn`: the uploads to each host, running or queued. -/
  transfersOn : HostId → ℕ
  stoppingAgents : OrderedSet HostId
  underWay : OrderedMap HostId ℕ
  starts : OrderedMap HostId ℤ
  retiredVersions : OrderedMap HostId String
  retirements : List Retirement
  tasks : List Start
  /-- Those who wait for a retirement, to stop their host's agent by hand. -/
  userWaits : List HostId
  /-- The hosts whose agent someone stops by hand. -/
  userStops : List HostId
  nextId : ℕ
  stopsSent : List StopSent
  spawnsSent : List SpawnSent

namespace State

variable (cfg : Setting) (s : State)

/-- The hub's terminals on a host that are not dead. -/
def liveOn (hostId : HostId) : List (ChannelId × Channel) :=
  s.channels.entries.filter fun e => e.2.hostId = hostId ∧ e.2.dead = false

/-- Something is being started on the host. -/
def isStarting (hostId : HostId) : Bool := 0 < (s.starts.get hostId).getD 0

/-- An agent of this version was retired there. -/
def wasRetired (hostId : HostId) (version : String) : Bool :=
  s.retiredVersions.get hostId = some version

/-- There is a daemon to stop: an agent on stdio ends with its connection. -/
def isDaemon (hostId : HostId) (agent : Agent) : Bool :=
  match cfg.host hostId with
  | some .localHost => true
  | some .ssh => agent.usedRemoteDaemon
  | none => false

/-- `qualifies`: the agent is older than the one beside the hub, and may be replaced. -/
def qualifies (hostId : HostId) (agent : Agent) : Bool :=
  !s.quitting && hostId ∉ s.stoppingAgents && !s.isStarting hostId && agent.connected &&
    (match agent.agentVersion with
      | none => false
      | some running =>
        Versions.isOlderVersion running cfg.hubVersion && !s.wasRetired hostId running) &&
    isDaemon cfg hostId agent && (s.liveOn hostId).isEmpty &&
    !(cfg.host hostId = some .ssh && 0 < s.transfersOn hostId)

/-- The marks first, then the STOP, with nothing awaited since the checks. -/
def begin (hostId : HostId) (agent : Agent) (detached : Bool) : State :=
  { s with
    stoppingAgents := s.stoppingAgents.add hostId
    underWay := s.underWay.set hostId s.nextId
    retirements := s.retirements ++ [⟨s.nextId, hostId, agent, detached, .stopping⟩]
    nextId := s.nextId + 1
    stopsSent := s.stopsSent ++ [⟨hostId, agent, (s.liveOn hostId).length,
      s.tasks.countP (·.countedOn hostId), cfg.host hostId = some .ssh, s.transfersOn hostId⟩] }

/-- The retirement under way there, one begun now, or none. -/
def retireIfIdle (hostId : HostId) : State × Option ℕ :=
  match s.underWay.get hostId with
  | some r => (s, some r)
  | none =>
    match s.agents.get hostId with
    | none => (s, none)
    | some agent =>
      if s.qualifies cfg hostId agent then (s.begin cfg hostId agent false, some s.nextId)
      else (s, none)

/-- The agent of a session that is closed, which the hub has let go of. -/
def retireDetached (hostId : HostId) (agent : Agent) : State :=
  if (s.underWay.get hostId).isSome || !s.qualifies cfg hostId agent then s
  else s.begin cfg hostId agent true

/-- A start on the host is counted. -/
def startOn (hostId : HostId) : State :=
  { s with starts := s.starts.set hostId ((s.starts.get hostId).getD 0 + 1) }

/-- The function that `startOn` returns. -/
def endOn (hostId : HostId) : State :=
  let left := (s.starts.get hostId).getD 1 - 1
  if 0 < left then { s with starts := s.starts.set hostId left }
  else ({ s with starts := s.starts.delete hostId }.retireIfIdle cfg hostId).1

/-! ### A retirement goes on -/

/-- The retirement `r` is in another phase. -/
def setPhase (r : ℕ) (phase : RetirementPhase) : State :=
  { s with retirements := s.retirements.map (·.inPhase r phase) }

/-- Something came of the STOP; a connection that ended is let go of first. -/
def stopAnswered (x : Retirement) (outcome : DaemonStopOutcome) : State :=
  let s := s.setPhase x.id (.answered (retirementOutcome outcome))
  match outcome with
  | .stopped =>
    { s with
      agents :=
        if s.agents.get x.hostId = some x.agent then s.agents.delete x.hostId else s.agents }
  | _ => s

/-- `retire` hears of it: the fence is lifted, and the local agent started again if there is a
session for it to serve. -/
def fenceLifted (x : Retirement) (outcome : RetirementOutcome) : State :=
  let s := { s with stoppingAgents := s.stoppingAgents.delete x.hostId }
  match outcome with
  | .retired =>
    let s := { s with
      retiredVersions := s.retiredVersions.set x.hostId (x.agent.agentVersion.getD "") }
    if !x.detached && x.hostId ∈ s.sessions && !s.quitting &&
        cfg.host x.hostId = some .localHost then
      s.setPhase x.id .startingLocal
    else s.setPhase x.id .finishing
  | .refused _ | .unconfirmed => s.setPhase x.id .finishing

/-- Gone from the map before anyone waiting hears of it. -/
def finish (x : Retirement) : State :=
  { s with
    underWay := if s.underWay.get x.hostId = some x.id then s.underWay.delete x.hostId
      else s.underWay
    retirements := s.retirements.filter fun y => y.id ≠ x.id }

/-- The next thing that happens to a retirement; `outcome` is what comes of its STOP. -/
def advance (x : Retirement) (outcome : DaemonStopOutcome) : State :=
  match x.phase with
  | .stopping => s.stopAnswered x outcome
  | .answered outcome => s.fenceLifted cfg x outcome
  | .startingLocal => s.setPhase x.id .finishing
  | .finishing => s.finish x

/-! ### Starts -/

/-- The start `i` is now `t`. -/
def setTask (i : ℕ) (t : Start) : State := { s with tasks := s.tasks.set i t }

/-- A start has reached its host: an old agent that is idle is replaced first. -/
def reach (i : ℕ) (t : Start) : State :=
  match s.retireIfIdle cfg t.hostId with
  | (s, some r) => s.setTask i { t with met := r :: t.met, phase := .retiring r }
  | (s, none) =>
    -- A restart awaits the answer also when there is none.
    if t.restart then s.setTask i { t with phase := .chosen }
    else (s.startOn t.hostId).setTask i { t with phase := .counted }

/-- No retirement to wait for: only a stop someone asked for turns a start away. -/
def enter (i : ℕ) (t : Start) : State :=
  if t.hostId ∈ s.stoppingAgents then { s with tasks := s.tasks.eraseIdx i }
  else if t.restart then s.reach cfg i t
  else s.setTask i { t with phase := .reaching }

/-- A SPAWN or a restart arrives. -/
def arrive (hostId : HostId) (restart : Bool) : State :=
  match s.underWay.get hostId with
  | some r => { s with tasks := s.tasks ++ [⟨hostId, restart, [r], .settling⟩] }
  | none =>
    let t : Start := ⟨hostId, restart, [], .settled⟩
    { s with tasks := s.tasks ++ [t] }.enter cfg s.tasks.length t

/-- A counted start sends its SPAWN, unless its host's agent is being stopped. -/
def sendSpawn (t : Start) : State :=
  if t.hostId ∈ s.stoppingAgents then s
  else
    { s with spawnsSent := s.spawnsSent ++
        [⟨t.hostId, t.met, s.underWay.get t.hostId, t.hostId ∈ s.stoppingAgents⟩] }

/-- What a start waits for has come. -/
def goOn (i : ℕ) (t : Start) : Option State :=
  match t.phase with
  | .settling =>
    if (s.underWay.get t.hostId).isSome then none
    else some (s.setTask i { t with phase := .settled })
  | .settled => some (s.enter cfg i t)
  | .reaching => some (s.reach cfg i t)
  | .retiring r =>
    if s.underWay.get t.hostId = some r then none
    else some (s.setTask i { t with phase := .chosen })
  | .chosen => some ((s.startOn t.hostId).setTask i { t with phase := .counted })
  | .counted => some (s.sendSpawn t)

/-- A start ends, whatever it came to. -/
def endStart (i : ℕ) (t : Start) : State :=
  let s := { s with tasks := s.tasks.eraseIdx i }
  if t.phase = .counted then s.endOn cfg t.hostId else s

/-! ### Stops asked for by hand -/

/-- The user has the host's agent stopped. -/
def stopByHand (hostId : HostId) : State :=
  if hostId ∈ s.stoppingAgents then s
  else { s with
    stoppingAgents := s.stoppingAgents.add hostId
    userStops := s.userStops ++ [hostId] }

/-- Someone asks to stop a host's agent: a retirement under way there finishes first. -/
def userStop (hostId : HostId) : State :=
  if (s.underWay.get hostId).isSome then { s with userWaits := s.userWaits ++ [hostId] }
  else s.stopByHand hostId

/-- It goes on after its wait. -/
def userStopResumes (hostId : HostId) : State :=
  { s with userWaits := s.userWaits.erase hostId }.stopByHand hostId

/-- The stop by hand is done. -/
def userStopEnds (hostId : HostId) : State :=
  { s with
    stoppingAgents := s.stoppingAgents.delete hostId
    userStops := s.userStops.filter (· ≠ hostId) }

end State

/-- What can happen next. -/
inductive Step
  | quits
  | agentIs (hostId : HostId) (agent : Option Agent)
  | session (hostId : HostId) (present : Bool)
  | channelIs (channelId : ChannelId) (c : Option Channel)
  | transfersAre (hostId : HostId) (n : ℕ)
  /-- A terminal ended, an upload ended, an agent connected, a replacement was asked for. -/
  | retireIfIdle (hostId : HostId)
  | retireDetached (hostId : HostId) (agent : Agent)
  /-- The retirement goes on: its STOP is answered, it hears of that, its local agent started or
  did not, its last continuation runs. -/
  | retirement (r : ℕ) (outcome : DaemonStopOutcome)
  | arrives (hostId : HostId) (restart : Bool)
  | goesOn (i : ℕ)
  | ends (i : ℕ)
  | userStop (hostId : HostId)
  | userStopResumes (hostId : HostId)
  | userStopEnds (hostId : HostId)

/-- One step. -/
def next (cfg : Setting) (s : State) : Step → Option State
  | .quits => some { s with quitting := true }
  | .agentIs hostId (some agent) => some { s with agents := s.agents.set hostId agent }
  | .agentIs hostId none => some { s with agents := s.agents.delete hostId }
  | .session hostId true => some { s with sessions := s.sessions.add hostId }
  | .session hostId false => some { s with sessions := s.sessions.delete hostId }
  | .channelIs channelId (some c) => some { s with channels := s.channels.set channelId c }
  | .channelIs channelId none => some { s with channels := s.channels.delete channelId }
  | .transfersAre hostId n => some { s with transfersOn := Function.update s.transfersOn hostId n }
  | .retireIfIdle hostId => some (s.retireIfIdle cfg hostId).1
  | .retireDetached hostId agent => some (s.retireDetached cfg hostId agent)
  | .retirement r outcome =>
    (s.retirements.find? (·.id = r)).map fun x => s.advance cfg x outcome
  | .arrives hostId restart => some (s.arrive cfg hostId restart)
  | .goesOn i => (s.tasks[i]?).bind fun t => s.goOn cfg i t
  | .ends i => (s.tasks[i]?).map fun t => s.endStart cfg i t
  | .userStop hostId => some (s.userStop hostId)
  | .userStopResumes hostId =>
    if hostId ∈ s.userWaits then some (s.userStopResumes hostId) else none
  | .userStopEnds hostId => if hostId ∈ s.userStops then some (s.userStopEnds hostId) else none

/-- The hub as it starts. -/
def initial : State where
  quitting := false
  agents := .empty
  sessions := .empty
  channels := .empty
  transfersOn := fun _ => 0
  stoppingAgents := .empty
  underWay := .empty
  starts := .empty
  retiredVersions := .empty
  retirements := []
  tasks := []
  userWaits := []
  userStops := []
  nextId := 0
  stopsSent := []
  spawnsSent := []

/-! ### The two marks -/

/-- What the marks say of the retirements that run. -/
structure Marks (retirements : List Retirement) (nextId : ℕ) (underWay : OrderedMap HostId ℕ)
    (stoppingAgents : OrderedSet HostId) (userStops : List HostId) : Prop where
  fresh : ∀ x ∈ retirements, x.id < nextId
  ids : (retirements.map (·.id)).Nodup
  underWay_iff : ∀ h r,
    underWay.get h = some r ↔ ∃ x ∈ retirements, x.hostId = h ∧ x.id = r
  stopping_iff : ∀ h,
    h ∈ stoppingAgents ↔ (∃ x ∈ retirements, x.hostId = h ∧ x.phase.fenced) ∨ h ∈ userStops
  alone : ∀ x ∈ retirements, x.phase.fenced → x.hostId ∉ userStops

@[simp] theorem Retirement.inPhase_id (r : ℕ) (phase : RetirementPhase) (y : Retirement) :
    (y.inPhase r phase).id = y.id := by
  unfold Retirement.inPhase
  split <;> rfl

@[simp] theorem Retirement.inPhase_hostId (r : ℕ) (phase : RetirementPhase) (y : Retirement) :
    (y.inPhase r phase).hostId = y.hostId := by
  unfold Retirement.inPhase
  split <;> rfl

namespace Marks

variable {l : List Retirement} {n : ℕ} {u : OrderedMap HostId ℕ} {f : OrderedSet HostId}
  {stops : List HostId} {x y : Retirement} {hostId : HostId}

section

variable (h : Marks l n u f stops)
include h

theorem eq_of_id (hx : x ∈ l) (hy : y ∈ l) (hid : x.id = y.id) : x = y :=
  inj_on_of_nodup_map h.ids hx hy hid

theorem get_underWay (hx : x ∈ l) : u.get x.hostId = some x.id :=
  (h.underWay_iff x.hostId x.id).mpr ⟨x, hx, rfl, rfl⟩

theorem eq_of_hostId (hx : x ∈ l) (hy : y ∈ l) (hhost : x.hostId = y.hostId) : x = y := by
  have hget := h.get_underWay hx
  rw [hhost, h.get_underWay hy] at hget
  exact h.eq_of_id hx hy (Option.some.inj hget).symm

theorem not_mem_of_none (hnone : u.get hostId = none) (hx : x ∈ l) : x.hostId ≠ hostId := by
  rintro rfl
  exact Option.some_ne_none _ ((h.get_underWay hx).symm.trans hnone)

theorem begin (hnone : u.get hostId = none) (hfree : hostId ∉ f) (agent : Agent) (detached : Bool) :
    Marks (l ++ [⟨n, hostId, agent, detached, .stopping⟩]) (n + 1) (u.set hostId n) (f.add hostId)
      stops where
  fresh := by
    intro x hx
    rcases mem_append.mp hx with hx | hx
    · exact Nat.lt_succ_of_lt (h.fresh x hx)
    · obtain rfl := mem_singleton.mp hx
      exact Nat.lt_succ_self n
  ids := by
    rw [map_append, nodup_append]
    refine ⟨h.ids, by simp, ?_⟩
    intro a ha b hb
    obtain ⟨x, hx, rfl⟩ := mem_map.mp ha
    obtain rfl : b = n := by simpa using hb
    exact Nat.ne_of_lt (h.fresh x hx)
  underWay_iff := by
    intro h' r
    rw [get_set]
    by_cases hh : h' = hostId
    · subst hh
      rw [if_pos rfl]
      constructor
      · intro hr
        exact ⟨_, mem_append_right l mem_cons_self, rfl, Option.some.inj hr⟩
      · rintro ⟨x, hx, hhost, rfl⟩
        rcases mem_append.mp hx with hx | hx
        · exact absurd hhost (h.not_mem_of_none hnone hx)
        · rw [mem_singleton.mp hx]
    · rw [if_neg hh, h.underWay_iff]
      constructor
      · rintro ⟨x, hx, hboth⟩
        exact ⟨x, mem_append_left _ hx, hboth⟩
      · rintro ⟨x, hx, hhost, hid⟩
        rcases mem_append.mp hx with hx | hx
        · exact ⟨x, hx, hhost, hid⟩
        · obtain rfl := mem_singleton.mp hx
          exact absurd hhost.symm hh
  stopping_iff := by
    intro h'
    rw [OrderedSet.mem_add, h.stopping_iff]
    constructor
    · rintro (rfl | ⟨x, hx, hboth⟩ | hstop)
      · exact .inl ⟨_, mem_append_right l mem_cons_self, rfl, rfl⟩
      · exact .inl ⟨x, mem_append_left _ hx, hboth⟩
      · exact .inr hstop
    · rintro (⟨x, hx, hhost, hfenced⟩ | hstop)
      · rcases mem_append.mp hx with hx | hx
        · exact .inr (.inl ⟨x, hx, hhost, hfenced⟩)
        · obtain rfl := mem_singleton.mp hx
          exact .inl hhost.symm
      · exact .inr (.inr hstop)
  alone := by
    intro x hx hfenced
    rcases mem_append.mp hx with hx | hx
    · exact h.alone x hx hfenced
    · obtain rfl := mem_singleton.mp hx
      exact fun hstop => hfree ((h.stopping_iff hostId).mpr (.inr hstop))

theorem fresh_inPhase (r : ℕ) (phase : RetirementPhase) :
    ∀ y ∈ l.map (·.inPhase r phase), y.id < n := by
  intro y hy
  obtain ⟨z, hz, rfl⟩ := mem_map.mp hy
  rw [Retirement.inPhase_id]
  exact h.fresh z hz

theorem ids_inPhase (r : ℕ) (phase : RetirementPhase) :
    ((l.map (·.inPhase r phase)).map (·.id)).Nodup := by
  rw [map_map]
  simpa [Function.comp_def] using h.ids

theorem inPhase (hx : x ∈ l) {phase : RetirementPhase} (hsame : phase.fenced = x.phase.fenced) :
    Marks (l.map (·.inPhase x.id phase)) n u f stops := by
  have hfenced : ∀ y ∈ l, (y.inPhase x.id phase).phase.fenced = y.phase.fenced := by
    intro y hy
    unfold Retirement.inPhase
    split
    · next hid =>
      obtain rfl := h.eq_of_id hy hx hid
      exact hsame
    · rfl
  constructor
  · exact h.fresh_inPhase x.id phase
  · exact h.ids_inPhase x.id phase
  · intro h' r
    rw [h.underWay_iff]
    simp
  · intro h'
    rw [h.stopping_iff]
    refine or_congr_left ?_
    constructor
    · rintro ⟨y, hy, hhost, hf⟩
      exact ⟨_, mem_map_of_mem hy, by simpa using hhost, by rwa [hfenced y hy]⟩
    · rintro ⟨y, hy, hhost, hf⟩
      obtain ⟨z, hz, rfl⟩ := mem_map.mp hy
      exact ⟨z, hz, by simpa using hhost, by rwa [hfenced z hz] at hf⟩
  · intro y hy hf
    obtain ⟨z, hz, rfl⟩ := mem_map.mp hy
    rw [Retirement.inPhase_hostId]
    exact h.alone z hz (by rwa [hfenced z hz] at hf)

theorem lift (hx : x ∈ l) (hwas : x.phase.fenced)
    {phase : RetirementPhase} (hnow : phase.fenced = false) :
    Marks (l.map (·.inPhase x.id phase)) n u (f.delete x.hostId) stops := by
  -- Another retirement is on another host, and keeps its phase.
  have hother : ∀ y ∈ l, y.hostId ≠ x.hostId → y.inPhase x.id phase = y := by
    intro y hy hne
    refine if_neg ?_
    intro hid
    exact hne (congrArg Retirement.hostId (h.eq_of_id hy hx hid))
  have hfenced : ∀ y ∈ l, (y.inPhase x.id phase).phase.fenced →
      y.hostId ≠ x.hostId ∧ y.phase.fenced := by
    intro y hy hf
    by_cases hhost : y.hostId = x.hostId
    · obtain rfl := h.eq_of_hostId hy hx hhost
      rw [Retirement.inPhase, if_pos rfl, hnow] at hf
      cases hf
    · rw [hother y hy hhost] at hf
      exact ⟨hhost, hf⟩
  constructor
  · exact h.fresh_inPhase x.id phase
  · exact h.ids_inPhase x.id phase
  · intro h' r
    rw [h.underWay_iff]
    simp
  · intro h'
    rw [OrderedSet.mem_delete, h.stopping_iff]
    constructor
    · rintro ⟨⟨y, hy, rfl, hf⟩ | hstop, hne⟩
      · exact .inl ⟨y, mem_map.mpr ⟨y, hy, hother y hy hne⟩, rfl, hf⟩
      · exact .inr hstop
    · rintro (⟨y, hy, rfl, hf⟩ | hstop)
      · obtain ⟨z, hz, rfl⟩ := mem_map.mp hy
        obtain ⟨hne, hz'⟩ := hfenced z hz hf
        rw [Retirement.inPhase_hostId]
        exact ⟨.inl ⟨z, hz, rfl, hz'⟩, hne⟩
      · refine ⟨.inr hstop, ?_⟩
        rintro rfl
        exact h.alone x hx hwas hstop
  · intro y hy hf
    obtain ⟨z, hz, rfl⟩ := mem_map.mp hy
    rw [Retirement.inPhase_hostId]
    exact h.alone z hz (hfenced z hz hf).2

theorem finish (hx : x ∈ l) (hphase : x.phase.fenced = false) :
    Marks (l.filter fun y => y.id ≠ x.id) n (u.delete x.hostId) f stops := by
  constructor
  · intro y hy
    exact h.fresh y (mem_of_mem_filter hy)
  · exact h.ids.sublist (filter_sublist.map _)
  · intro h' r
    rw [get_delete, Option.ite_none_left_eq_some, h.underWay_iff]
    constructor
    · rintro ⟨hne, y, hy, rfl, rfl⟩
      refine ⟨y, mem_filter.mpr ⟨hy, ?_⟩, rfl, rfl⟩
      have hid : y.id ≠ x.id := fun hid => hne (congrArg Retirement.hostId (h.eq_of_id hy hx hid))
      simpa using hid
    · rintro ⟨y, hy, rfl, rfl⟩
      obtain ⟨hy, hid⟩ := mem_filter.mp hy
      refine ⟨?_, y, hy, rfl, rfl⟩
      intro hhost
      obtain rfl := h.eq_of_hostId hy hx hhost
      simp at hid
  · intro h'
    rw [h.stopping_iff]
    refine or_congr_left ?_
    constructor
    · rintro ⟨y, hy, hhost, hf⟩
      refine ⟨y, mem_filter.mpr ⟨hy, ?_⟩, hhost, hf⟩
      have hid : y.id ≠ x.id := by
        intro hid
        obtain rfl := h.eq_of_id hy hx hid
        rw [hphase] at hf
        cases hf
      simpa using hid
    · rintro ⟨y, hy, hboth⟩
      exact ⟨y, mem_of_mem_filter hy, hboth⟩
  · intro y hy
    exact h.alone y (mem_of_mem_filter hy)

theorem stopByHand (hfree : hostId ∉ f) : Marks l n u (f.add hostId) (stops ++ [hostId]) where
  fresh := h.fresh
  ids := h.ids
  underWay_iff := h.underWay_iff
  stopping_iff := by
    intro h'
    rw [OrderedSet.mem_add, h.stopping_iff, mem_append, mem_singleton, or_comm, or_assoc]
  alone := by
    intro x hx hfenced hstop
    rcases mem_append.mp hstop with hstop | hstop
    · exact h.alone x hx hfenced hstop
    · obtain rfl := mem_singleton.mp hstop
      exact hfree ((h.stopping_iff x.hostId).mpr (.inl ⟨x, hx, rfl, hfenced⟩))

theorem userStopEnds (hstop : hostId ∈ stops) :
    Marks l n u (f.delete hostId) (stops.filter (· ≠ hostId)) where
  fresh := h.fresh
  ids := h.ids
  underWay_iff := h.underWay_iff
  stopping_iff := by
    intro h'
    rw [OrderedSet.mem_delete, h.stopping_iff, mem_filter, decide_eq_true_eq]
    constructor
    · rintro ⟨hfence | hother, hne⟩
      · exact .inl hfence
      · exact .inr ⟨hother, hne⟩
    · rintro (⟨x, hx, rfl, hf⟩ | ⟨hother, hne⟩)
      · refine ⟨.inl ⟨x, hx, rfl, hf⟩, ?_⟩
        rintro rfl
        exact h.alone x hx hf hstop
      · exact ⟨.inr hother, hne⟩
  alone := fun x hx hfenced hmem => h.alone x hx hfenced (mem_of_mem_filter hmem)

end

end Marks

/-! ### The counter of starts -/

/-- The counter holds, for each host, how many starts are counted there. -/
structure Counts (starts : OrderedMap HostId ℤ) (tasks : List Start) : Prop where
  number : ∀ h, (starts.get h).getD 0 = (tasks.countP (·.countedOn h) : ℤ)
  positive : ∀ h n, starts.get h = some n → 0 < n

namespace Counts

variable {starts : OrderedMap HostId ℤ} {tasks : List Start} {i : ℕ} {t t' : Start}

section

variable (h : Counts starts tasks)
include h

theorem set (ht : tasks[i]? = some t) (hsame : ∀ hostId, t'.countedOn hostId = t.countedOn hostId) :
    Counts starts (tasks.set i t') := by
  obtain ⟨hi, rfl⟩ := List.getElem?_eq_some_iff.mp ht
  refine ⟨?_, h.positive⟩
  intro hostId
  have hperm : (tasks.set i t').Perm (t' :: tasks.eraseIdx i) := set_perm_cons_eraseIdx hi t'
  have hperm' : (tasks[i] :: tasks.eraseIdx i).Perm tasks := getElem_cons_eraseIdx_perm hi
  rw [h.number, ← hperm'.countP_eq, hperm.countP_eq, countP_cons, countP_cons, hsame]

theorem append (ht : t.phase ≠ .counted) : Counts starts (tasks ++ [t]) := by
  refine ⟨?_, h.positive⟩
  intro hostId
  have hnot : t.countedOn hostId = false := by simp [Start.countedOn, ht]
  rw [h.number, countP_append, countP_cons, hnot]
  rfl

theorem eraseIdx (ht : tasks[i]? = some t) (hphase : t.phase ≠ .counted) :
    Counts starts (tasks.eraseIdx i) := by
  obtain ⟨hi, rfl⟩ := List.getElem?_eq_some_iff.mp ht
  refine ⟨?_, h.positive⟩
  intro hostId
  have hperm : (tasks[i] :: tasks.eraseIdx i).Perm tasks := getElem_cons_eraseIdx_perm hi
  have hnot : tasks[i].countedOn hostId = false := by simp [Start.countedOn, hphase]
  rw [h.number, ← hperm.countP_eq, countP_cons, hnot]
  rfl

theorem startOn (ht : tasks[i]? = some t) (hphase : t.phase ≠ .counted) :
    Counts (starts.set t.hostId ((starts.get t.hostId).getD 0 + 1))
      (tasks.set i { t with phase := .counted }) := by
  obtain ⟨hi, rfl⟩ := List.getElem?_eq_some_iff.mp ht
  have hperm : ∀ t' : Start, (tasks.set i t').Perm (t' :: tasks.eraseIdx i) :=
    set_perm_cons_eraseIdx hi
  have hrest := (h.eraseIdx ht hphase).number
  constructor
  · intro hostId
    rw [(hperm _).countP_eq, countP_cons, get_set]
    by_cases hh : hostId = tasks[i].hostId
    · subst hh
      simp [Start.countedOn, hrest]
    · have hne : tasks[i].hostId ≠ hostId := fun heq => hh heq.symm
      simp [Start.countedOn, hrest, hh, hne]
  · intro hostId n hn
    rw [get_set] at hn
    split at hn
    · cases hn
      rw [h.number]
      omega
    · exact h.positive hostId n hn

theorem endOn (ht : tasks[i]? = some t) (hphase : t.phase = .counted) :
    Counts
      (if 0 < (starts.get t.hostId).getD 1 - 1 then
        starts.set t.hostId ((starts.get t.hostId).getD 1 - 1)
      else starts.delete t.hostId) (tasks.eraseIdx i) := by
  obtain ⟨hi, rfl⟩ := List.getElem?_eq_some_iff.mp ht
  have hperm : (tasks[i] :: tasks.eraseIdx i).Perm tasks := getElem_cons_eraseIdx_perm hi
  have hnumber : ∀ hostId, (starts.get hostId).getD 0 =
      ((tasks.eraseIdx i).countP (·.countedOn hostId) : ℤ) +
        if tasks[i].hostId = hostId then 1 else 0 := by
    intro hostId
    rw [h.number, ← hperm.countP_eq, countP_cons]
    by_cases hh : tasks[i].hostId = hostId <;> simp [Start.countedOn, hphase, hh]
  -- It was counted, so the counter has an entry of its host.
  have hself := hnumber tasks[i].hostId
  rw [if_pos rfl] at hself
  obtain ⟨n, hn⟩ : ∃ n, starts.get tasks[i].hostId = some n := by
    cases hget : starts.get tasks[i].hostId with
    | none =>
      rw [hget, Option.getD_none] at hself
      omega
    | some n => exact ⟨n, rfl⟩
  rw [hn, Option.getD_some] at hself ⊢
  have hother : ∀ hostId, hostId ≠ tasks[i].hostId → (starts.get hostId).getD 0 =
      ((tasks.eraseIdx i).countP (·.countedOn hostId) : ℤ) := by
    intro hostId hne
    rw [hnumber, if_neg (Ne.symm hne), Int.add_zero]
  split
  · next hleft =>
    constructor
    · intro hostId
      rw [get_set]
      split
      · next hh =>
        rw [hh, Option.getD_some]
        omega
      · next hh => exact hother hostId hh
    · intro hostId m hm
      rw [get_set] at hm
      split at hm
      · exact (Option.some.inj hm) ▸ hleft
      · exact h.positive hostId m hm
  · next hleft =>
    constructor
    · intro hostId
      rw [get_delete]
      split
      · next hh =>
        rw [hh, Option.getD_none]
        omega
      · next hh => exact hother hostId hh
    · intro hostId m hm
      rw [get_delete] at hm
      exact h.positive hostId m (Option.ite_none_left_eq_some.mp hm).2

end

end Counts

/-! ### The invariant -/

/-- A start that has met a retirement waits for it, as long as it runs. -/
def Start.Heeds (retirements : List Retirement) (nextId : ℕ) (t : Start) : Prop :=
  ∀ r ∈ t.met, r < nextId ∧ ∀ x ∈ retirements, x.id = r →
    x.hostId = t.hostId ∧ (t.phase = .settling ∨ t.phase = .retiring r)

/-- What is known after every run. -/
structure Sound (s : State) : Prop where
  marks : Marks s.retirements s.nextId s.underWay s.stoppingAgents s.userStops
  counts : Counts s.starts s.tasks
  met : ∀ t ∈ s.tasks, t.Heeds s.retirements s.nextId
  stops : ∀ e ∈ s.stopsSent,
    e.liveChannels = 0 ∧ e.countedStarts = 0 ∧ (e.remote = true → e.transfers = 0)
  spawns : ∀ e ∈ s.spawnsSent, e.stopping = false ∧ ∀ r ∈ e.met, e.underWay ≠ some r

namespace Start

variable {l l' : List Retirement} {n n' : ℕ} {t : Start}

theorem Heeds.mono (h : t.Heeds l n) (hn : n ≤ n')
    (hsub : ∀ x ∈ l', x.id < n → ∃ y ∈ l, y.id = x.id ∧ y.hostId = x.hostId) : t.Heeds l' n' := by
  intro r hr
  obtain ⟨hlt, hold⟩ := h r hr
  refine ⟨Nat.lt_of_lt_of_le hlt hn, ?_⟩
  intro x hx hid
  obtain ⟨y, hy, hyid, hyhost⟩ := hsub x hx (hid ▸ hlt)
  rw [← hyhost]
  exact hold y hy (hyid.trans hid)

/-- None of the retirements it has met runs. -/
def Clear (l : List Retirement) (t : Start) : Prop := ∀ r ∈ t.met, ∀ x ∈ l, x.id ≠ r

theorem Heeds.clear (h : t.Heeds l n) (hphase : t.phase ≠ .settling)
    (hphase' : ∀ r, t.phase ≠ .retiring r) : t.Clear l := by
  intro r hr x hx hid
  rcases ((h r hr).2 x hx hid).2 with hp | hp
  · exact hphase hp
  · exact hphase' r hp

theorem Heeds.inPhase (h : t.Heeds l n) (hclear : t.Clear l) (phase : StartPhase) :
    ({ t with phase } : Start).Heeds l n := fun r hr =>
  ⟨(h r hr).1, fun x hx hid => absurd hid (hclear r hr x hx)⟩

end Start

namespace Sound

variable {cfg : Setting} {s s' : State} {hostId : HostId} {i : ℕ} {t : Start} {x : Retirement}

theorem initial : Sound initial where
  marks := ⟨by simp [Retiring.initial], by simp [Retiring.initial], by simp [Retiring.initial],
    by simp [Retiring.initial], by simp [Retiring.initial]⟩
  counts := ⟨by simp [Retiring.initial], by simp [Retiring.initial]⟩
  met := by simp [Retiring.initial]
  stops := by simp [Retiring.initial]
  spawns := by simp [Retiring.initial]

/-! #### Retirements -/

section

variable (h : Sound s)
include h

/-- A retirement begins: what `qualifies` has checked is what the STOP is sent under. -/
theorem begin (hnone : s.underWay.get hostId = none) {agent : Agent}
    (hq : s.qualifies cfg hostId agent = true) (detached : Bool) :
    Sound (s.begin cfg hostId agent detached) := by
  simp only [State.qualifies, Bool.and_eq_true, Bool.not_eq_true', decide_eq_true_eq] at hq
  obtain ⟨⟨⟨⟨⟨⟨⟨-, hfree⟩, hstarting⟩, -⟩, -⟩, -⟩, hlive⟩, htransfers⟩ := hq
  refine ⟨h.marks.begin hnone hfree agent detached, h.counts, ?_, ?_, h.spawns⟩
  · intro t ht
    refine (h.met t ht).mono (Nat.le_succ _) ?_
    intro x hx hlt
    rcases mem_append.mp hx with hx | hx
    · exact ⟨x, hx, rfl, rfl⟩
    · obtain rfl := mem_singleton.mp hx
      exact absurd hlt (Nat.lt_irrefl _)
  · intro e he
    rcases mem_append.mp he with he | he
    · exact h.stops e he
    · obtain rfl := mem_singleton.mp he
      refine ⟨?_, ?_, ?_⟩
      · exact length_eq_zero_iff.mpr (isEmpty_iff.mp hlive)
      · have hnumber := h.counts.number hostId
        have hzero : ¬ 0 < (s.starts.get hostId).getD 0 := by
          simpa [State.isStarting] using hstarting
        show s.tasks.countP (·.countedOn hostId) = 0
        omega
      · intro hremote
        have hboth : ¬ (cfg.host hostId = some .ssh ∧ 0 < s.transfersOn hostId) := by
          simpa using htransfers
        show s.transfersOn hostId = 0
        by_contra hpos
        exact hboth ⟨by simpa using hremote, Nat.pos_of_ne_zero hpos⟩

/-- What `retireIfIdle` returns is under way; a retirement it began has a new number. -/
theorem retireIfIdle {r : Option ℕ} (hret : s.retireIfIdle cfg hostId = (s', r)) :
    Sound s' ∧ s'.tasks = s.tasks ∧
      (∀ x ∈ s'.retirements, x ∈ s.retirements ∨ s.nextId ≤ x.id) ∧
      (r = none → s' = s) ∧ ∀ n, r = some n → s'.underWay.get hostId = some n := by
  have hold : ∀ x ∈ s.retirements, x ∈ s.retirements ∨ s.nextId ≤ x.id := fun _ hx => .inl hx
  unfold State.retireIfIdle at hret
  cases hget : s.underWay.get hostId with
  | some n =>
    rw [hget] at hret
    obtain ⟨rfl, rfl⟩ := Prod.mk.inj hret
    refine ⟨h, rfl, hold, ?_, ?_⟩
    · rintro ⟨⟩
    · intro m hm
      exact hget.trans hm
  | none =>
    rw [hget] at hret
    cases hagent : s.agents.get hostId with
    | none =>
      rw [hagent] at hret
      obtain ⟨rfl, rfl⟩ := Prod.mk.inj hret
      refine ⟨h, rfl, hold, fun _ => rfl, ?_⟩
      rintro m ⟨⟩
    | some agent =>
      rw [hagent] at hret
      dsimp only at hret
      by_cases hq : s.qualifies cfg hostId agent = true
      · rw [if_pos hq] at hret
        obtain ⟨rfl, rfl⟩ := Prod.mk.inj hret
        refine ⟨h.begin hget hq false, rfl, ?_, ?_, ?_⟩
        · intro x hx
          rcases mem_append.mp hx with hx | hx
          · exact .inl hx
          · obtain rfl := mem_singleton.mp hx
            exact .inr (Nat.le_refl _)
        · rintro ⟨⟩
        · intro m hm
          exact (get_set_self s.underWay hostId s.nextId).trans hm
      · rw [if_neg hq] at hret
        obtain ⟨rfl, rfl⟩ := Prod.mk.inj hret
        refine ⟨h, rfl, hold, fun _ => rfl, ?_⟩
        rintro m ⟨⟩

theorem retireIfIdle_fst : Sound (s.retireIfIdle cfg hostId).1 :=
  (h.retireIfIdle rfl).1

theorem retireDetached (agent : Agent) : Sound (s.retireDetached cfg hostId agent) := by
  unfold State.retireDetached
  split
  · exact h
  · next hneg =>
    simp only [Bool.or_eq_true, Bool.not_eq_true', not_or, Bool.not_eq_false,
      Option.not_isSome_iff_eq_none] at hneg
    exact h.begin hneg.1 hneg.2 true

theorem met_inPhase (r : ℕ) (phase : RetirementPhase) :
    ∀ t ∈ s.tasks, t.Heeds (s.retirements.map (·.inPhase r phase)) s.nextId := by
  intro t ht
  refine (h.met t ht).mono (Nat.le_refl _) ?_
  intro x hx _
  obtain ⟨y, hy, rfl⟩ := mem_map.mp hx
  exact ⟨y, hy, by simp, by simp⟩

section

variable (hx : x ∈ s.retirements)
include hx

theorem setPhase {phase : RetirementPhase}
    (hsame : phase.fenced = x.phase.fenced) : Sound (s.setPhase x.id phase) :=
  ⟨h.marks.inPhase hx hsame, h.counts, h.met_inPhase x.id phase, h.stops, h.spawns⟩

theorem fenceLifted (hfenced : x.phase.fenced = true)
    (outcome : RetirementOutcome) : Sound (s.fenceLifted cfg x outcome) := by
  have hlift : ∀ phase : RetirementPhase, phase.fenced = false →
      Marks (s.retirements.map (·.inPhase x.id phase)) s.nextId s.underWay
        (s.stoppingAgents.delete x.hostId) s.userStops := fun _ hnow =>
    h.marks.lift hx hfenced hnow
  have hfinishing := hlift .finishing rfl
  unfold State.fenceLifted
  cases outcome with
  | retired =>
    dsimp only
    split
    · exact ⟨hlift .startingLocal rfl, h.counts, h.met_inPhase _ _, h.stops, h.spawns⟩
    · exact ⟨hfinishing, h.counts, h.met_inPhase _ _, h.stops, h.spawns⟩
  | refused _ | unconfirmed => exact ⟨hfinishing, h.counts, h.met_inPhase _ _, h.stops, h.spawns⟩

theorem finish (hphase : x.phase.fenced = false) : Sound (s.finish x) := by
  have hmarks := h.marks.finish hx hphase
  unfold State.finish
  rw [if_pos (h.marks.get_underWay hx)]
  refine ⟨hmarks, h.counts, ?_, h.stops, h.spawns⟩
  intro t ht
  refine (h.met t ht).mono (Nat.le_refl _) ?_
  intro y hy _
  exact ⟨y, mem_of_mem_filter hy, rfl, rfl⟩

theorem advance (outcome : DaemonStopOutcome) :
    Sound (s.advance cfg x outcome) := by
  unfold State.advance
  cases hphase : x.phase with
  | stopping =>
    have hset : Sound (s.setPhase x.id (.answered (retirementOutcome outcome))) :=
      h.setPhase hx (by rw [hphase]; rfl)
    unfold State.stopAnswered
    cases outcome with
    | stopped => exact ⟨hset.marks, hset.counts, hset.met, hset.stops, hset.spawns⟩
    | displaced | closedByHub | refused _ | error _ | timeout | unsent => exact hset
  | answered _ => exact h.fenceLifted hx (by rw [hphase]; rfl) _
  | startingLocal => exact h.setPhase hx (by rw [hphase]; rfl)
  | finishing => exact h.finish hx (by rw [hphase]; rfl)

end

/-! #### Starts -/

theorem setTask (ht : s.tasks[i]? = some t) {t' : Start}
    (hsame : ∀ hostId, t'.countedOn hostId = t.countedOn hostId)
    (hheeds : t'.Heeds s.retirements s.nextId) : Sound (s.setTask i t') := by
  refine ⟨h.marks, h.counts.set ht hsame, ?_, h.stops, h.spawns⟩
  intro u hu
  rcases mem_or_eq_of_mem_set hu with hu | rfl
  · exact h.met u hu
  · exact hheeds

theorem startOn (ht : s.tasks[i]? = some t) (hphase : t.phase ≠ .counted)
    (hclear : t.Clear s.retirements) :
    Sound ((s.startOn t.hostId).setTask i { t with phase := .counted }) := by
  refine ⟨h.marks, h.counts.startOn ht hphase, ?_, h.stops, h.spawns⟩
  intro u hu
  rcases mem_or_eq_of_mem_set hu with hu | rfl
  · exact h.met u hu
  · exact (h.met t (mem_of_getElem? ht)).inPhase hclear .counted

end

theorem uncounted {p : StartPhase} (hp : p ≠ .counted) (hq : t.phase ≠ .counted)
    (hostId : HostId) : ({ t with phase := p } : Start).countedOn hostId = t.countedOn hostId := by
  simp [Start.countedOn, hp, hq]

section

variable (h : Sound s)
include h

section

variable (ht : s.tasks[i]? = some t)
include ht

theorem goes (hclear : t.Clear s.retirements)
    {p : StartPhase} (hp : p ≠ .counted) (hq : t.phase ≠ .counted) :
    Sound (s.setTask i { t with phase := p }) :=
  h.setTask ht (uncounted hp hq) ((h.met t (mem_of_getElem? ht)).inPhase hclear p)

theorem reach (hclear : t.Clear s.retirements)
    (hq : t.phase ≠ .counted) : Sound (s.reach cfg i t) := by
  unfold State.reach
  obtain ⟨⟨s', r⟩, hret⟩ : ∃ p, s.retireIfIdle cfg t.hostId = p := ⟨_, rfl⟩
  obtain ⟨hs', htasks, hnew, hsame, hunder⟩ := h.retireIfIdle hret
  rw [hret]
  cases r with
  | some n =>
    have ht' : s'.tasks[i]? = some t := by rw [htasks]; exact ht
    refine hs'.setTask ht' (by simp [Start.countedOn, hq]) ?_
    -- It waits for this one; the others that it met are over, and stay so.
    obtain ⟨x, hx, hhost, hid⟩ := (hs'.marks.underWay_iff t.hostId n).mp (hunder n rfl)
    have hheeds := h.met t (mem_of_getElem? ht)
    have hheeds' := hs'.met t (mem_of_getElem? ht')
    intro r hr
    rcases mem_cons.mp hr with rfl | hr
    · refine ⟨hid ▸ hs'.marks.fresh x hx, ?_⟩
      intro y hy hyid
      obtain rfl := hs'.marks.eq_of_id hy hx (hyid.trans hid.symm)
      exact ⟨hhost, .inr rfl⟩
    · refine ⟨(hheeds' r hr).1, ?_⟩
      intro y hy hyid
      rcases hnew y hy with hy | hle
      · exact absurd hyid (hclear r hr y hy)
      · have hlt := (hheeds r hr).1
        omega
  | none =>
    obtain rfl := hsame rfl
    dsimp only
    split
    · exact h.goes ht hclear (by simp) hq
    · exact h.startOn ht hq hclear

theorem eraseTask (hq : t.phase ≠ .counted) :
    Sound { s with tasks := s.tasks.eraseIdx i } :=
  ⟨h.marks, h.counts.eraseIdx ht hq, fun u hu => h.met u (mem_of_mem_eraseIdx hu), h.stops,
    h.spawns⟩

theorem enter (hclear : t.Clear s.retirements)
    (hq : t.phase ≠ .counted) : Sound (s.enter cfg i t) := by
  unfold State.enter
  split
  · exact h.eraseTask ht hq
  · split
    · exact h.reach ht hclear hq
    · exact h.goes ht hclear (by simp) hq

end

theorem addTask (hq : t.phase ≠ .counted) (hheeds : t.Heeds s.retirements s.nextId) :
    Sound { s with tasks := s.tasks ++ [t] } := by
  refine ⟨h.marks, h.counts.append hq, ?_, h.stops, h.spawns⟩
  intro u hu
  rcases mem_append.mp hu with hu | hu
  · exact h.met u hu
  · obtain rfl := mem_singleton.mp hu
    exact hheeds

theorem arrive (restart : Bool) : Sound (s.arrive cfg hostId restart) := by
  unfold State.arrive
  cases hget : s.underWay.get hostId with
  | some n =>
    refine h.addTask (by simp) ?_
    obtain ⟨x, hx, hhost, hid⟩ := (h.marks.underWay_iff hostId n).mp hget
    intro r hr
    obtain rfl := mem_singleton.mp hr
    refine ⟨hid ▸ h.marks.fresh x hx, ?_⟩
    intro y hy hyid
    obtain rfl := h.marks.eq_of_id hy hx (hyid.trans hid.symm)
    exact ⟨hhost, .inl rfl⟩
  | none =>
    have hadded := h.addTask (t := ⟨hostId, restart, [], .settled⟩) (by simp)
      (fun r hr => absurd hr not_mem_nil)
    exact hadded.enter (by simp) (fun r hr => absurd hr not_mem_nil) (by simp)

theorem sendSpawn (ht : s.tasks[i]? = some t) (hphase : t.phase = .counted) :
    Sound (s.sendSpawn t) := by
  unfold State.sendSpawn
  split
  · exact h
  · next hfree =>
    have hclear : t.Clear s.retirements :=
      (h.met t (mem_of_getElem? ht)).clear (by simp [hphase]) (by simp [hphase])
    refine ⟨h.marks, h.counts, h.met, h.stops, ?_⟩
    intro e he
    rcases mem_append.mp he with he | he
    · exact h.spawns e he
    · obtain rfl := mem_singleton.mp he
      refine ⟨decide_eq_false hfree, ?_⟩
      intro r hr hunder
      obtain ⟨x, hx, -, hid⟩ := (h.marks.underWay_iff t.hostId r).mp hunder
      exact hclear r hr x hx hid

theorem goOn (ht : s.tasks[i]? = some t) (hgo : s.goOn cfg i t = some s') : Sound s' := by
  have hheeds := h.met t (mem_of_getElem? ht)
  unfold State.goOn at hgo
  cases hphase : t.phase with
  | settling =>
    rw [hphase] at hgo
    obtain ⟨hnone, ⟨rfl⟩⟩ := Option.ite_none_left_eq_some.mp hgo
    -- None is under way there, so none that it met runs.
    refine h.goes ht ?_ (by simp) (by simp [hphase])
    intro r hr x hx hid
    have hhost := ((hheeds r hr).2 x hx hid).1
    refine h.marks.not_mem_of_none ?_ hx hhost
    exact Option.not_isSome_iff_eq_none.mp hnone
  | settled =>
    rw [hphase] at hgo
    cases hgo
    exact h.enter ht (hheeds.clear (by simp [hphase]) (by simp [hphase])) (by simp [hphase])
  | reaching =>
    rw [hphase] at hgo
    cases hgo
    exact h.reach ht (hheeds.clear (by simp [hphase]) (by simp [hphase])) (by simp [hphase])
  | retiring n =>
    rw [hphase] at hgo
    obtain ⟨hover, ⟨rfl⟩⟩ := Option.ite_none_left_eq_some.mp hgo
    refine h.goes ht ?_ (by simp) (by simp [hphase])
    intro r hr x hx hid
    obtain ⟨hhost, hwaits⟩ := (hheeds r hr).2 x hx hid
    -- It waited for this one, which is over.
    have hn : n = r := by simpa [hphase] using hwaits
    have hget := h.marks.get_underWay hx
    rw [hhost, hid, ← hn] at hget
    exact hover hget
  | chosen =>
    rw [hphase] at hgo
    cases hgo
    exact h.startOn ht (by simp [hphase]) (hheeds.clear (by simp [hphase]) (by simp [hphase]))
  | counted =>
    rw [hphase] at hgo
    cases hgo
    exact h.sendSpawn ht hphase

theorem endStart (ht : s.tasks[i]? = some t) : Sound (s.endStart cfg i t) := by
  unfold State.endStart
  dsimp only
  split
  · next hphase =>
    have hcounts := h.counts.endOn ht hphase
    have hmet : ∀ u ∈ s.tasks.eraseIdx i, u.Heeds s.retirements s.nextId := fun u hu =>
      h.met u (mem_of_mem_eraseIdx hu)
    unfold State.endOn
    dsimp only
    split
    · next hleft =>
      rw [if_pos hleft] at hcounts
      exact ⟨h.marks, hcounts, hmet, h.stops, h.spawns⟩
    · next hleft =>
      rw [if_neg hleft] at hcounts
      refine retireIfIdle_fst ?_
      exact ⟨h.marks, hcounts, hmet, h.stops, h.spawns⟩
  · next hphase => exact h.eraseTask ht hphase

/-! #### Stops asked for by hand -/

theorem stopByHand : Sound (s.stopByHand hostId) := by
  unfold State.stopByHand
  split
  · exact h
  · next hfree => exact ⟨h.marks.stopByHand hfree, h.counts, h.met, h.stops, h.spawns⟩

theorem userStop : Sound (s.userStop hostId) := by
  unfold State.userStop
  split
  · exact ⟨h.marks, h.counts, h.met, h.stops, h.spawns⟩
  · exact h.stopByHand

end

theorem step {a : Step} (h : Sound s) (hn : next cfg s a = some s') : Sound s' := by
  -- What none of the tables of the invariant depends on.
  have hother : ∀ s' : State, s'.retirements = s.retirements → s'.nextId = s.nextId →
      s'.underWay = s.underWay → s'.stoppingAgents = s.stoppingAgents →
      s'.userStops = s.userStops → s'.starts = s.starts → s'.tasks = s.tasks →
      s'.stopsSent = s.stopsSent → s'.spawnsSent = s.spawnsSent → Sound s' := by
    intro s' h₁ h₂ h₃ h₄ h₅ h₆ h₇ h₈ h₉
    refine ⟨?_, ?_, ?_, ?_, ?_⟩
    · rw [h₁, h₂, h₃, h₄, h₅]; exact h.marks
    · rw [h₆, h₇]; exact h.counts
    · rw [h₁, h₂, h₇]; exact h.met
    · rw [h₈]; exact h.stops
    · rw [h₉]; exact h.spawns
  cases a with
  | quits | transfersAre =>
    cases hn
    exact hother _ rfl rfl rfl rfl rfl rfl rfl rfl rfl
  | agentIs _ agent | channelIs _ agent =>
    cases agent with
    | none | some _ =>
      cases hn
      exact hother _ rfl rfl rfl rfl rfl rfl rfl rfl rfl
  | session hostId present =>
    cases present with
    | false | true =>
      cases hn
      exact hother _ rfl rfl rfl rfl rfl rfl rfl rfl rfl
  | retireIfIdle hostId =>
    cases hn
    exact h.retireIfIdle_fst
  | retireDetached hostId agent =>
    cases hn
    exact h.retireDetached agent
  | retirement r outcome =>
    obtain ⟨x, hx, rfl⟩ := Option.map_eq_some_iff.mp hn
    exact h.advance (mem_of_find?_eq_some hx) outcome
  | arrives hostId restart =>
    cases hn
    exact h.arrive restart
  | goesOn i =>
    obtain ⟨t, ht, hgo⟩ := Option.bind_eq_some_iff.mp hn
    exact h.goOn ht hgo
  | ends i =>
    obtain ⟨t, ht, rfl⟩ := Option.map_eq_some_iff.mp hn
    exact h.endStart ht
  | userStop hostId =>
    cases hn
    exact h.userStop
  | userStopResumes hostId =>
    obtain ⟨-, ⟨rfl⟩⟩ := Option.ite_none_right_eq_some.mp hn
    exact (hother { s with userWaits := s.userWaits.erase hostId } rfl rfl rfl rfl rfl rfl rfl rfl
      rfl).stopByHand
  | userStopEnds hostId =>
    obtain ⟨hstop, ⟨rfl⟩⟩ := Option.ite_none_right_eq_some.mp hn
    exact ⟨h.marks.userStopEnds hstop, h.counts, h.met, h.stops, h.spawns⟩

theorem run (h : Run (next cfg) free Retiring.initial s) : Sound s :=
  h.invariant Sound.initial fun _ _ _ hs _ hn => hs.step hn

/-! #### A retirement ends -/

theorem find_retirement (h : Sound s) (hx : x ∈ s.retirements) :
    s.retirements.find? (·.id = x.id) = some x := by
  have hfound : (s.retirements.find? (·.id = x.id)).isSome :=
    List.find?_isSome.mpr ⟨x, hx, by simp⟩
  obtain ⟨y, hy⟩ := Option.isSome_iff_exists.mp hfound
  have hid : y.id = x.id := by simpa using List.find?_some hy
  rw [hy, h.marks.eq_of_id (mem_of_find?_eq_some hy) hx hid]

theorem next_retirement (h : Sound s) (hx : x ∈ s.retirements) (outcome : DaemonStopOutcome) :
    next cfg s (.retirement x.id outcome) = some (s.advance cfg x outcome) := by
  show (s.retirements.find? (·.id = x.id)).map _ = _
  rw [h.find_retirement hx]
  rfl

end Sound

/-- How many steps a retirement has before it, at most. -/
def RetirementPhase.left : RetirementPhase → ℕ
  | .stopping => 4
  | .answered _ => 3
  | .startingLocal => 2
  | .finishing => 1

theorem RetirementPhase.left_pos (phase : RetirementPhase) : 1 ≤ phase.left := by
  cases phase with
  | stopping | answered _ | startingLocal | finishing => simp [left]

theorem RetirementPhase.left_le (phase : RetirementPhase) : phase.left ≤ 4 := by
  cases phase with
  | stopping | answered _ | startingLocal | finishing => simp [left]

theorem State.mem_setPhase {s : State} {x : Retirement} (hx : x ∈ s.retirements)
    (phase : RetirementPhase) : { x with phase } ∈ (s.setPhase x.id phase).retirements :=
  mem_map.mpr ⟨x, hx, if_pos rfl⟩

namespace Sound

variable {cfg : Setting} {s : State} {x : Retirement}

theorem advance_left (h : Sound s) (hx : x ∈ s.retirements) (outcome : DaemonStopOutcome) :
    (∃ y ∈ (s.advance cfg x outcome).retirements, y.id = x.id ∧ y.hostId = x.hostId ∧
      y.phase.left < x.phase.left) ∨
    (s.advance cfg x outcome).underWay.get x.hostId = none := by
  unfold State.advance
  cases hphase : x.phase with
  | stopping =>
    have hmem := State.mem_setPhase hx (.answered (retirementOutcome outcome))
    refine .inl ⟨{ x with phase := .answered (retirementOutcome outcome) }, ?_, rfl, rfl,
      Nat.lt_succ_self 3⟩
    unfold State.stopAnswered
    cases outcome with
    | stopped | displaced | closedByHub | refused _ | error _ | timeout | unsent => exact hmem
  | answered outcome =>
    have hmem := fun phase => State.mem_setPhase hx phase
    unfold State.fenceLifted
    cases outcome with
    | retired =>
      dsimp only
      split
      · exact .inl ⟨_, hmem .startingLocal, rfl, rfl, by simp [RetirementPhase.left]⟩
      · exact .inl ⟨_, hmem .finishing, rfl, rfl, by simp [RetirementPhase.left]⟩
    | refused _ | unconfirmed =>
      exact .inl ⟨_, hmem .finishing, rfl, rfl, by simp [RetirementPhase.left]⟩
  | startingLocal =>
    exact .inl ⟨_, State.mem_setPhase hx .finishing, rfl, rfl, by simp [RetirementPhase.left]⟩
  | finishing =>
    refine .inr ?_
    unfold State.finish
    rw [if_pos (h.marks.get_underWay hx)]
    exact get_delete_self s.underWay x.hostId

theorem fence_of_none (h : Sound s) {hostId : HostId} (hnone : s.underWay.get hostId = none)
    (hfence : hostId ∈ s.stoppingAgents) : hostId ∈ s.userStops := by
  rcases (h.marks.stopping_iff hostId).mp hfence with ⟨x, hx, hhost, -⟩ | hstop
  · exact absurd hhost (h.marks.not_mem_of_none hnone hx)
  · exact hstop

theorem retirement_ends (h : Sound s) (hx : x ∈ s.retirements) (outcome : DaemonStopOutcome) :
    ∃ n ≤ x.phase.left, ∃ s',
      exec (next cfg) s (List.replicate n (.retirement x.id outcome)) = some s' ∧
      s'.underWay.get x.hostId = none ∧
      (x.hostId ∈ s'.stoppingAgents → x.hostId ∈ s'.userStops) := by
  -- On the steps it has before it.
  induction hleft : x.phase.left using Nat.strongRecOn generalizing s x with
  | _ m ih =>
    subst hleft
    have hnext : next cfg s (.retirement x.id outcome) = some (s.advance cfg x outcome) :=
      h.next_retirement hx outcome
    have hsound := h.step hnext
    rcases h.advance_left hx outcome with ⟨y, hy, hid, hhost, hlt⟩ | hnone
    · obtain ⟨n, hn, s', hexec, hends⟩ := ih _ hlt hsound hy rfl
      refine ⟨n + 1, by omega, s', ?_, ?_⟩
      · rw [replicate_succ, exec, hnext, Option.bind_some, ← hid]
        exact hexec
      · rw [← hhost]
        exact hends
    · refine ⟨1, x.phase.left_pos, _, ?_, hnone, hsound.fence_of_none hnone⟩
      rw [replicate_one, exec, hnext, Option.bind_some]
      rfl

end Sound

/-! ### Main result -/

/-- **Retiring an old agent.**  In every state of every run of starts, channel deaths, destroys,
reconnections, stops by hand and retirements, on any hosts:

* a retirement's STOP went out when the hub had no channel there that was not dead, no start
  counted there and, for a remote daemon, no upload there;
* a start's SPAWN went out when its host's agent was not being stopped and none of the retirements
  that the start had met was under way;
* the counter of starts is the number of starts counted, and an entry of it is positive;
* a host is marked `underWay` exactly while a retirement runs there, and in `stoppingAgents` exactly
  while a retirement waits for its STOP or someone stops the agent by hand; and every retirement
  ends in a few steps of its own, whatever came of its STOP, with its marks cleared. -/
theorem retirement_sound (cfg : Setting) (s : State) (h : Run (next cfg) free initial s) :
    (∀ e ∈ s.stopsSent,
      e.liveChannels = 0 ∧ e.countedStarts = 0 ∧ (e.remote = true → e.transfers = 0)) ∧
    (∀ e ∈ s.spawnsSent, e.stopping = false ∧ ∀ r ∈ e.met, e.underWay ≠ some r) ∧
    (∀ hostId, (s.starts.get hostId).getD 0 = (s.tasks.countP (·.countedOn hostId) : ℤ) ∧
      ∀ n, s.starts.get hostId = some n → 0 < n) ∧
    (∀ hostId r, s.underWay.get hostId = some r ↔
      ∃ x ∈ s.retirements, x.hostId = hostId ∧ x.id = r) ∧
    (∀ hostId, hostId ∈ s.stoppingAgents ↔
      (∃ x ∈ s.retirements, x.hostId = hostId ∧ x.phase.fenced = true) ∨ hostId ∈ s.userStops) ∧
    ∀ x ∈ s.retirements, ∀ outcome, ∃ n ≤ 4, ∃ s',
      exec (next cfg) s (List.replicate n (.retirement x.id outcome)) = some s' ∧
      s'.underWay.get x.hostId = none ∧
      (x.hostId ∈ s'.stoppingAgents → x.hostId ∈ s'.userStops) := by
  have hs := Sound.run h
  refine ⟨hs.stops, hs.spawns, ?_, hs.marks.underWay_iff, hs.marks.stopping_iff, ?_⟩
  · intro hostId
    exact ⟨hs.counts.number hostId, hs.counts.positive hostId⟩
  · intro x hx outcome
    obtain ⟨n, hn, hends⟩ := hs.retirement_ends hx outcome
    exact ⟨n, Nat.le_trans hn x.phase.left_le, hends⟩

/-- A hub updated over a local agent that stayed. -/
def updated : Setting where
  host := fun hostId => if hostId = "local" then some .localHost else none
  hubVersion := "1.1.0"

/-- The old agent is retired, and a SPAWN that arrives meanwhile goes to the one in its place. -/
def agentReplaced : List Step :=
  [.agentIs "local" (some ⟨0, true, some "1.0.9", false⟩), .session "local" true,
    .retireIfIdle "local", .arrives "local" false, .retirement 0 .stopped, .retirement 0 .stopped,
    .agentIs "local" (some ⟨1, true, some "1.1.0", false⟩), .retirement 0 .stopped,
    .retirement 0 .stopped, .goesOn 0, .goesOn 0, .goesOn 0, .goesOn 0]

/-- Along `agentReplaced` a STOP and a SPAWN are sent, the start is counted, and the marks go. -/
theorem retirement_sound_replaced : ∃ s, Run (next updated) free initial s ∧
    s.stopsSent.map (·.agent.id) = [0] ∧ s.spawnsSent = [⟨"local", [0], none, false⟩] ∧
    s.starts.get "local" = some 1 ∧ s.underWay.get "local" = none ∧
    (∀ e ∈ s.stopsSent,
      e.liveChannels = 0 ∧ e.countedStarts = 0 ∧ (e.remote = true → e.transfers = 0)) ∧
    s.tasks.countP (·.countedOn "local") = 1 := by
  have hrun : Run (next updated) free initial _ := .get_free agentReplaced (by decide +kernel)
  exact ⟨_, hrun, by decide +kernel, by decide +kernel, by decide +kernel, by decide +kernel,
    (retirement_sound updated _ hrun).1, by decide +kernel⟩

end Lasterm.Hub.Retiring
