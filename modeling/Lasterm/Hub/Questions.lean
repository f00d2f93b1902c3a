import Lasterm.Hub.Reconcile
import Lasterm.Lib.Run

/-!
# Questions to an agent, and the starts they race with

The hub asks an agent which terminals it holds, and judges its own by the answer
(`reconcileChannelState`).  Between the question and the answer terminals are started,
brought back and ended, further questions are asked, and answers come in any order.  The
hub tells them apart with one counter, `channelClock`: a question takes a reading of it
(`askingAgent`) and so does a start (`startedNow`), and an answer says nothing of a
terminal whose reading is later than its question's.

## Main definitions

* `Talk` — the hub with its questions; `time` counts the events of the run, and says when each
  question was asked and each terminal last started.

## Main results

* `reconcile_get`, `reconcile_buries_iff` — what an answer makes of a terminal, and what it ends.
* `right_iff_judgeable` — when an answer is right about a terminal, in every state reached.
-/

open Transition List Option OrderedMap

namespace Lasterm.Hub

variable {s s' : HubState} {channelId : String} {ch : ChannelState} {states : List Reported}

namespace HubState

/-! ### One terminal, among all that are judged -/

/-- From `s` to `s'` nothing the judgement of the terminal reads or writes has changed, and
no frame that would end it was sent. -/
structure Untouched (id : String) (s s' : HubState) : Prop where
  channel : s'.channels.get id = s.channels.get id
  row : s'.channelRows.get id = s.channelRows.get id
  sessions : s'.sessions = s.sessions
  starting : s'.startingChannels = s.startingChannels
  frames : ∃ new, s'.sent = s.sent ++ new ∧ .destroy id ∉ new ∧ .spawn id ∉ new

theorem Untouched.refl (id : String) (s : HubState) : Untouched id s s :=
  ⟨rfl, rfl, rfl, rfl, [], by simp, by simp, by simp⟩

theorem Untouched.trans {id : String} {s₁ s₂ s₃ : HubState} (h : Untouched id s₁ s₂)
    (h' : Untouched id s₂ s₃) : Untouched id s₁ s₃ where
  channel := h'.channel.trans h.channel
  row := h'.row.trans h.row
  sessions := h'.sessions.trans h.sessions
  starting := h'.starting.trans h.starting
  frames := spared_frames_trans h.frames h'.frames

theorem Untouched.spares {id : String} (h : Untouched id s s') : Spares id s s' where
  kept := fun ch hch => ⟨ch, h.channel.trans hch, fun hd => hd⟩
  row := fun hd => by simpa [rowDead, h.row] using hd
  frames := h.frames

theorem Untouched.answerStillApplies {id : String} (h : Untouched id s s')
    (askedAt : ℕ) : s'.answerStillApplies id askedAt = s.answerStillApplies id askedAt := by
  simp only [HubState.answerStillApplies, h.channel, h.starting]

theorem send_untouched {id : String} (s : HubState) {f : Frame} (hd : f ≠ .destroy id)
    (hs : f ≠ .spawn id) : Untouched id s (s.send f) :=
  ⟨rfl, rfl, rfl, rfl, [f], rfl, by simpa using Ne.symm hd, by simpa using Ne.symm hs⟩

theorem updateChannelStatus_untouched {id : String} (s : HubState)
    (h : id ≠ channelId) (status : ChannelStatus) :
    Untouched id s (s.updateChannelStatus channelId status) where
  channel := by
    simp only [updateChannelStatus]
    split
    · rfl
    · exact get_set_of_ne _ h _
  row := by
    simp only [updateChannelStatus]
    split
    · rfl
    · exact get_set_of_ne _ h _
  sessions := rfl
  starting := rfl
  frames := ⟨[], by simp [updateChannelStatus], by simp, by simp⟩

theorem forgetChannel_untouched {id : String} (s : HubState) (h : id ≠ channelId) :
    Untouched id s (s.forgetChannel channelId) :=
  ⟨get_delete_of_ne _ h, rfl, rfl, rfl, [], by simp [forgetChannel], by simp, by simp⟩

theorem set_untouched {id : String} (s : HubState) (h : id ≠ channelId) (ch : ChannelState) :
    Untouched id s { s with channels := s.channels.set channelId ch } :=
  ⟨get_set_of_ne _ h _, rfl, rfl, rfl, [], by simp, by simp, by simp⟩

theorem judge_untouched {id : String} (hostId : String) (reportedIds : List String)
    (askedAt : ℕ) (s : HubState) (h : id ≠ channelId) :
    Untouched id s (judge hostId reportedIds askedAt s channelId) := by
  refine judge_of_changes (Untouched.refl id) Untouched.trans hostId askedAt ?_ ?_ ?_ ?_ ?_
  · exact fun ch sessionId _ => set_untouched s h _
  · exact fun t => send_untouched t (by simp) (by simp)
  · exact fun t => updateChannelStatus_untouched t h .live
  · exact fun _ => updateChannelStatus_untouched s h .dead
  · exact fun _ t => forgetChannel_untouched t h

theorem foldl_judge_untouched {id : String} (hostId : String) (reportedIds : List String)
    (askedAt : ℕ) (l : List String) (s : HubState) (h : id ∉ l) :
    Untouched id s (l.foldl (judge hostId reportedIds askedAt) s) := by
  induction l generalizing s with
  | nil => exact .refl id s
  | cons a l ih =>
    rw [mem_cons, not_or] at h
    exact (judge_untouched hostId reportedIds askedAt s h.1).trans (ih _ h.2)

theorem foldl_judge_at {id : String} (hostId : String) (reportedIds : List String)
    (askedAt : ℕ) (l : List String) (s : HubState) (hl : l.Nodup) (h : id ∈ l) :
    ∃ t, Untouched id s t ∧
      Untouched id (judge hostId reportedIds askedAt t id)
        (l.foldl (judge hostId reportedIds askedAt) s) := by
  obtain ⟨l₁, l₂, rfl⟩ := append_of_mem h
  have hnot : id ∉ l₁ ∧ id ∉ l₂ := by
    rw [nodup_append] at hl
    refine ⟨fun hm => hl.2.2 id hm id (by simp) rfl, ?_⟩
    exact (nodup_cons.mp hl.2.1).1
  refine ⟨l₁.foldl (judge hostId reportedIds askedAt) s, ?_, ?_⟩
  · exact foldl_judge_untouched hostId reportedIds askedAt l₁ s hnot.1
  · rw [foldl_append, foldl_cons]
    exact foldl_judge_untouched hostId reportedIds askedAt l₂ _ hnot.2

/-! ### What its own turn does to a terminal -/

/-- The answer to a question asked at `askedAt` is about this terminal of the host, and the
host has a session to judge it in. -/
def judges (s : HubState) (hostId : String) (askedAt : ℕ) (channelId : String)
    (ch : ChannelState) : Bool :=
  ch.hostId = hostId && s.answerStillApplies channelId askedAt && (s.sessions.get hostId).isSome

variable {hostId : String} {askedAt : ℕ}

theorem judge_of_not_judges (reportedIds : List String) (hch : s.channels.get channelId = some ch)
    (h : s.judges hostId askedAt channelId ch = false) :
    judge hostId reportedIds askedAt s channelId = s := by
  simp only [judge, hch]
  split
  · rfl
  next hhost =>
    split
    · rfl
    next happlies =>
      split
      · rfl
      next session hsession =>
        have hj : s.judges hostId askedAt channelId ch = true := by
          simp only [Bool.not_eq_true', Bool.not_eq_false] at happlies
          simp [judges, hsession, not_not.mp hhost, happlies]
        rw [hj] at h
        cases h

theorem judge_forgets {reportedIds : List String} (hch : s.channels.get channelId = some ch)
    (h : s.judges hostId askedAt channelId ch = true) (hrep : channelId ∉ reportedIds) :
    (judge hostId reportedIds askedAt s channelId).channels.get channelId = none := by
  simp only [judges, Bool.and_eq_true, decide_eq_true_eq] at h
  obtain ⟨⟨hhost, happlies⟩, hsession⟩ := h
  obtain ⟨session, hsession⟩ := isSome_iff_exists.mp hsession
  simp [judge, hch, hhost, happlies, hsession, hrep, forgetChannel]

theorem judge_keeps {reportedIds : List String} (hch : s.channels.get channelId = some ch)
    (h : s.judges hostId askedAt channelId ch = true) (hrep : channelId ∈ reportedIds) :
    ∃ ch', (judge hostId reportedIds askedAt s channelId).channels.get channelId = some ch' ∧
      (ch'.status = .live ↔ ch.status = .orphan ∨ ch.status = .live) := by
  simp only [judges, Bool.and_eq_true, decide_eq_true_eq] at h
  obtain ⟨⟨hhost, happlies⟩, hsession⟩ := h
  obtain ⟨session, hsession⟩ := isSome_iff_exists.mp hsession
  simp only [judge, hch, hhost, happlies, hsession, hrep, ne_eq, not_true_eq_false, if_false,
    Bool.not_true, Bool.false_eq_true, if_true]
  by_cases hup : ch.status = .orphan ∨ (ch.status = .live ∧ ch.clients ≠ [])
  · rw [if_pos hup]
    refine ⟨{ ch with hostId := hostId, sessionId := session.id, status := .live }, ?_, ?_⟩
    · split <;> simp [updateChannelStatus, send]
    · simp only [true_iff]
      exact hup.imp_right And.left
  · rw [if_neg hup]
    refine ⟨{ ch with hostId := hostId, sessionId := session.id }, ?_, ?_⟩
    · split <;> simp [send]
    · -- not an orphan, so nothing but a live one can be live
      constructor
      · exact Or.inr
      · rintro (horphan | hlive)
        · exact absurd (Or.inl horphan) hup
        · exact hlive

/-! ### What an answer does to a terminal -/

/-- The terminals an answer reports alive. -/
def aliveIds (states : List Reported) : List String :=
  (states.filter Reported.alive).map Reported.channelId

theorem mem_aliveIds {id : String} : id ∈ aliveIds states ↔ ⟨id, true⟩ ∈ states := by
  simp only [aliveIds, List.mem_map, mem_filter]
  constructor
  · rintro ⟨⟨channelId, alive⟩, ⟨hmem, halive⟩, rfl⟩
    obtain rfl : alive = true := halive
    exact hmem
  · intro h
    exact ⟨⟨id, true⟩, ⟨h, rfl⟩, rfl⟩

theorem destroyOrphans_untouched {id : String} (s : HubState) (states : List Reported)
    (h : id ∈ states.map Reported.channelId → s.knows id = true) :
    Untouched id s (s.destroyOrphans states) := by
  rw [destroyOrphans_eq]
  refine ⟨rfl, rfl, rfl, rfl, _, rfl, ?_, by simp⟩
  intro hm
  obtain ⟨id', hid', he⟩ := mem_map.mp hm
  obtain rfl : id' = id := by simpa using he
  obtain ⟨hrep, hunknown⟩ := mem_filter.mp hid'
  simp [h hrep] at hunknown

theorem knows_of_tracked {id : String} (h : s.channels.get id = some ch) : s.knows id = true := by
  simp [knows, h]

theorem reconcile_at {id : String} (hostId : String)
    (states : List Reported) (askedAt : ℕ) (hch : s.channels.get id = some ch) :
    ∃ t, Untouched id s t ∧ Untouched id (judge hostId (aliveIds states) askedAt t id)
      (s.reconcileChannelState hostId states askedAt) := by
  have horphans : Untouched id s (s.destroyOrphans states) :=
    destroyOrphans_untouched s states fun _ => knows_of_tracked hch
  have hkey : id ∈ (s.destroyOrphans states).channels.keys :=
    (mem_keys_iff _ _).mpr ⟨ch, horphans.channel.trans hch⟩
  obtain ⟨t, ht, hat⟩ := foldl_judge_at hostId (aliveIds states) askedAt _
    (s.destroyOrphans states) (s.destroyOrphans states).channels.nodup_keys hkey
  exact ⟨t, horphans.trans ht, hat⟩

theorem Untouched.judges {id : String} {t : HubState} (h : Untouched id s t)
    (askedAt : ℕ) (ch : ChannelState) :
    t.judges hostId askedAt id ch = s.judges hostId askedAt id ch := by
  simp only [HubState.judges, h.answerStillApplies, h.sessions]

/-- **What an answer ends**: what it reports and the hub does not know, and what it judges
and does not report alive. -/
theorem reconcile_buries_iff (s : HubState) (hostId : String) (states : List Reported)
    (askedAt : ℕ) (id : String) :
    buries s (s.reconcileChannelState hostId states askedAt) id = true ↔
      (id ∈ states.map Reported.channelId ∧ s.knows id = false) ∨
      ∃ ch, s.channels.get id = some ch ∧ s.judges hostId askedAt id ch = true ∧
        ⟨id, true⟩ ∉ states := by
  cases hch : s.channels.get id with
  | none =>
    -- not in the loop: only the search for orphans can end it
    simp only [reduceCtorEq, false_and, exists_false, or_false]
    constructor
    · intro hb
      by_contra hnot
      have hknown : id ∈ states.map Reported.channelId → s.knows id = true := by
        intro hrep
        cases hk : s.knows id with
        | true => rfl
        | false => exact absurd ⟨hrep, hk⟩ hnot
      have horphans := destroyOrphans_untouched s states hknown
      have hkey : id ∉ (s.destroyOrphans states).channels.keys := by
        rw [mem_keys_iff, horphans.channel, hch]
        simp
      have hall := horphans.trans
        (foldl_judge_untouched hostId (aliveIds states) askedAt _ _ hkey)
      exact absurd (hb.symm.trans hall.spares.not_buries) (by simp)
    · rintro ⟨hrep, hknown⟩
      exact reconcile_destroys s hostId states askedAt hrep hknown
  | some ch =>
    obtain ⟨t, ht, hafter⟩ := reconcile_at hostId states askedAt hch
    have htch : t.channels.get id = some ch := ht.channel.trans hch
    have hknown := knows_of_tracked hch
    rw [← mem_aliveIds]
    simp only [hknown, Bool.true_eq_false, and_false, false_or]
    constructor
    · intro hb
      refine ⟨ch, rfl, ?_⟩
      by_contra hnot
      have hspares : Spares id t (judge hostId (aliveIds states) askedAt t id) := by
        by_cases hrep : id ∈ aliveIds states
        · exact judge_spares hostId askedAt hrep t id
        · have hj : t.judges hostId askedAt id ch = false := by
            rw [ht.judges]
            cases hj : s.judges hostId askedAt id ch with
            | false => rfl
            | true => exact absurd ⟨hj, hrep⟩ hnot
          rw [judge_of_not_judges _ htch hj]
          exact .refl id t
      have hall := (ht.spares.trans hspares).trans hafter.spares
      exact absurd (hb.symm.trans hall.not_buries) (by simp)
    · rintro ⟨c, hc, hj, hrep⟩
      obtain rfl : ch = c := some.inj hc
      have hgone : (s.reconcileChannelState hostId states askedAt).channels.get id = none := by
        rw [hafter.channel]
        exact judge_forgets htch (by rw [ht.judges]; exact hj) hrep
      simp [buries, hch, hgone]

/-- **What an answer makes of a tracked terminal**: nothing if it is not judged; forgotten
if it is not reported alive; and tracked still if it is, live if it was live or an orphan. -/
theorem reconcile_get (hostId : String) (states : List Reported)
    (askedAt : ℕ) {id : String} (hch : s.channels.get id = some ch) :
    if s.judges hostId askedAt id ch then
      if ⟨id, true⟩ ∈ states then
        ∃ ch', (s.reconcileChannelState hostId states askedAt).channels.get id = some ch' ∧
          (ch'.status = .live ↔ ch.status = .orphan ∨ ch.status = .live)
      else (s.reconcileChannelState hostId states askedAt).channels.get id = none
    else (s.reconcileChannelState hostId states askedAt).channels.get id = some ch := by
  obtain ⟨t, ht, hafter⟩ := reconcile_at hostId states askedAt hch
  have htch : t.channels.get id = some ch := ht.channel.trans hch
  rw [hafter.channel, ← ht.judges]
  cases hj : t.judges hostId askedAt id ch with
  | false =>
    rw [judge_of_not_judges _ htch hj]
    simpa using htch
  | true =>
    rw [if_pos rfl]
    split
    next hrep => exact judge_keeps htch hj (mem_aliveIds.mpr hrep)
    next hrep => exact judge_forgets htch hj fun h => hrep (mem_aliveIds.mp h)

end HubState

/-! ### The run -/

/-- A question without an answer. -/
structure Question where
  hostId : String
  /-- The reading of the clock `askingAgent` returned. -/
  askedAt : ℕ
  askTime : ℕ
  deriving DecidableEq

/-- The hub, what it has sent that is not answered yet, and when things happened. -/
structure Talk where
  hub : HubState
  /-- The terminals of the `SPAWN`s sent and not answered: a new one has the id its agent
  gives it. -/
  spawning : List String
  questions : List Question
  time : ℕ
  /-- When the terminal tracked under an id was last started, by this run of the hub. -/
  startTimes : OrderedMap String ℕ

/-- What happens to the hub, between two awaits of its code. -/
inductive Event
  /-- `askingAgent`, in `attachDaemon` and `adoptWhatTheDaemonHolds`. -/
  | ask (hostId : String)
  | answer (q : Question) (states : List Reported)
  | unanswered (q : Question)
  /-- `startingChannels.add`, of a restart or of a `SPAWN` that brings a terminal back. -/
  | claim (channelId : String)
  | release (channelId : String)
  | spawnSent (channelId : String)
  | spawnFailed (channelId : String)
  /-- `SPAWN_OK` to `sendSpawnAndWait`. -/
  | started (channelId hostId sessionId : String) (clients : List String)
  /-- `SPAWN_OK` to a restart: `applyRestartState`, under the same id or another. -/
  | restarted (channelId previousChannelId hostId sessionId : String) (clients : List String)
  /-- `SPAWN_OK` to `spawnChannelsForHost`: is the channel it stamps still the one tracked? -/
  | respawned (channelId : String) (tracked : Bool)
  /-- `startup` tracks a terminal of an earlier run. -/
  | restored (hostId sessionId channelId : String)
  | statusChanged (channelId : String) (status : ChannelStatus)
  /-- `forgetChannel`, of a terminal that was killed or retired. -/
  | forgotten (channelId : String)
  | clientsChanged (channelId : String) (clients : List String)
  | cwdChanged (channelId : String) (liveCwd : Option String)
  | sessionSet (hostId : String) (session : SessionState)
  | sessionClosed (hostId sessionId : String)
  | rowDeleted (channelId : String)

namespace HubState

/-- The channel as a start tracks it, stamped with `startedNow`. -/
def trackStarted (s : HubState) (channelId hostId sessionId : String) (clients : List String) :
    HubState :=
  { s with
    clock := s.clock + 1
    channels := s.channels.set channelId
      { hostId, sessionId, status := .live, clients, startedAt := some (s.clock + 1),
        liveCwd := none } }

/-- The `SPAWN_OK` branch of `sendSpawnAndWait`: the row is revived or created. -/
def spawnOk (s : HubState) (channelId hostId sessionId : String) (clients : List String) :
    HubState :=
  { s with channelRows := s.channelRows.set channelId ⟨sessionId, .live⟩ }.trackStarted channelId
    hostId sessionId clients

/-- A channel that has ended is marked dead and forgotten. -/
def retireChannel (s : HubState) (channelId : String) : HubState :=
  (s.updateChannelStatus channelId .dead).forgetChannel channelId

/-- `applyRestartState`: a terminal restarted under another id is a new row, and the one it
was is retired. -/
def applyRestartState (s : HubState) (channelId previousChannelId hostId sessionId : String)
    (clients : List String) : HubState :=
  let s := if channelId ≠ previousChannelId then s.retireChannel previousChannelId else s
  let rows :=
    match s.channelRows.get channelId with
    | none =>
      if channelId ≠ previousChannelId then s.channelRows.set channelId ⟨sessionId, .live⟩
      else s.channelRows
    | some row => s.channelRows.set channelId { row with status := .live }
  { s with channelRows := rows }.trackStarted channelId hostId sessionId clients

/-- A change to a tracked channel. -/
def editChannel (s : HubState) (channelId : String) (f : ChannelState → ChannelState) :
    HubState :=
  match s.channels.get channelId with
  | none => s
  | some ch => { s with channels := s.channels.set channelId (f ch) }

end HubState

namespace Talk

/-- A hub as it is made over the meta.db of an earlier run. -/
def init (channelRows : OrderedMap String ChannelRow)
    (sessionRows : OrderedMap String SessionRow) : Talk where
  hub := { HubState.init with channelRows, sessionRows }
  spawning := []
  questions := []
  time := 0
  startTimes := .empty

/-- A terminal is started under the id, now. -/
def noteStart (t : Talk) (channelId : String) : Talk :=
  { t with
    spawning := t.spawning.erase channelId
    startTimes := t.startTimes.set channelId t.time }

/-- What an event does, and when it can happen; the count of events apart. -/
def effect (t : Talk) : Event → Option Talk
  | .ask hostId =>
    let (hub, askedAt) := t.hub.askingAgent
    some { t with hub, questions := t.questions ++ [⟨hostId, askedAt, t.time⟩] }
  | .answer q states =>
    if q ∈ t.questions then
      some { t with
        hub := t.hub.reconcileChannelState q.hostId states q.askedAt
        questions := t.questions.erase q }
    else none
  | .unanswered q =>
    if q ∈ t.questions then some { t with questions := t.questions.erase q } else none
  | .claim id =>
    if id ∈ t.hub.startingChannels then none
    else some { t with hub := { t.hub with startingChannels := id :: t.hub.startingChannels } }
  | .release id =>
    some { t with
      hub := { t.hub with startingChannels := t.hub.startingChannels.erase id } }
  | .spawnSent id => some { t with spawning := id :: t.spawning }
  | .spawnFailed id => some { t with spawning := t.spawning.erase id }
  | .started id hostId sessionId clients =>
    some ({ t with hub := t.hub.spawnOk id hostId sessionId clients }.noteStart id)
  | .restarted id previous hostId sessionId clients =>
    some ({ t with hub := t.hub.applyRestartState id previous hostId sessionId clients }.noteStart
      id)
  | .respawned id tracked =>
    if tracked then
      if (t.hub.channels.get id).isSome then
        some ({ t with hub := t.hub.spawnAnswered id true }.noteStart id)
      else none
    else
      -- the channel it stamps is not the one tracked, if any is
      some { t with
        hub := { t.hub with clock := t.hub.clock + 1 }
        spawning := t.spawning.erase id }
  | .restored hostId sessionId id =>
    -- before any client is there to start a terminal
    if t.startTimes.get id = none then
      some { t with hub := t.hub.trackOrphan hostId sessionId id }
    else none
  | .statusChanged id status =>
    -- `born` is a status of rows only
    if status = .born then none else some { t with hub := t.hub.updateChannelStatus id status }
  | .forgotten id => some { t with hub := t.hub.forgetChannel id }
  | .clientsChanged id clients =>
    some { t with hub := t.hub.editChannel id fun ch => { ch with clients } }
  | .cwdChanged id liveCwd =>
    some { t with hub := t.hub.editChannel id fun ch => { ch with liveCwd } }
  | .sessionSet hostId session =>
    some { t with hub := { t.hub with sessions := t.hub.sessions.set hostId session } }
  | .sessionClosed hostId sessionId => some { t with hub := t.hub.closeSession hostId sessionId }
  | .rowDeleted id =>
    some { t with hub := { t.hub with channelRows := t.hub.channelRows.delete id } }

/-- One event of the run. -/
def next (t : Talk) (e : Event) : Option Talk :=
  (t.effect e).map fun t' => { t' with time := t.time + 1 }

/-! ### What an answer should do, and when it does -/

/-- The terminal tracked under the id was started after the question was asked. -/
def startedAfter (t : Talk) (q : Question) (channelId : String) : Bool :=
  match t.startTimes.get channelId with
  | none => false
  | some time => q.askTime < time

/-- Claimed by a start, or asked of an agent that has not answered. -/
def beingStarted (t : Talk) (channelId : String) : Bool :=
  t.hub.startingChannels.contains channelId || t.spawning.contains channelId

/-- The hub once the answer is applied. -/
def answered (t : Talk) (q : Question) (states : List Reported) : HubState :=
  t.hub.reconcileChannelState q.hostId states q.askedAt

/-- A tracked channel is kept as live: one that ended before, and is not buried yet, is only
kept. -/
def keptLive (s : HubState) (id : String) (ch : ChannelState) : Prop :=
  ∃ ch', s.channels.get id = some ch' ∧ (ch.status ≠ .dead → ch'.status = .live)

/-- The answer ends nothing that was started since its question or is being started; and of
the other terminals of its host it keeps as live those it reports alive, and no other. -/
structure Right (t : Talk) (q : Question) (states : List Reported) : Prop where
  since : ∀ id ch, t.hub.channels.get id = some ch → t.startedAfter q id = true →
    HubState.buries t.hub (t.answered q states) id = false
  starting : ∀ id, t.beingStarted id = true →
    HubState.buries t.hub (t.answered q states) id = false
  others : ∀ id ch, t.hub.channels.get id = some ch → ch.hostId = q.hostId →
    t.startedAfter q id = false → t.beingStarted id = false →
    (keptLive (t.answered q states) id ch ↔ ⟨id, true⟩ ∈ states)

/-- When the answer does right by a terminal of its host that was not started since. Without
a session there is nothing to judge it in, and it stays as it is; with one, a start that the
hub has not claimed is only safe if it is reported. -/
def JudgeableAt (t : Talk) (q : Question) (states : List Reported) (id : String)
    (ch : ChannelState) : Prop :=
  if t.beingStarted id then
    t.hub.startingChannels.contains id = true ∨ t.hub.sessions.get q.hostId = none ∨
      ⟨id, true⟩ ∈ states
  else (t.hub.sessions.get q.hostId).isSome = true ∨ (⟨id, true⟩ ∈ states ↔ ch.status ≠ .orphan)

instance (t : Talk) (q : Question) (states : List Reported) (id : String) (ch : ChannelState) :
    Decidable (t.JudgeableAt q states id ch) := by
  unfold JudgeableAt
  infer_instance

/-- No terminal that is being started is reported and not known, and every terminal of the
host that was not started since can be judged. -/
structure Judgeable (t : Talk) (q : Question) (states : List Reported) : Prop where
  known : ∀ id ∈ t.hub.startingChannels ++ t.spawning,
    id ∈ states.map Reported.channelId → t.hub.knows id = true
  tracked : ∀ e ∈ t.hub.channels.entries, e.2.hostId = q.hostId →
    t.startedAfter q e.1 = false → t.JudgeableAt q states e.1 e.2

end Talk

/-! ### Changes that start nothing -/

namespace HubState

/-- From `s` to `s'` nothing is tracked that was not, and every mark is as it was. -/
structure Quiet (s s' : HubState) : Prop where
  clock : s.clock ≤ s'.clock
  channels : ∀ id ch', s'.channels.get id = some ch' → ∃ ch, s.channels.get id = some ch ∧
    ch'.startedAt = ch.startedAt ∧ (ch'.status = .born → ch.status = .born)

theorem Quiet.refl (s : HubState) : Quiet s s :=
  ⟨Nat.le_refl _, fun _ ch h => ⟨ch, h, rfl, fun hb => hb⟩⟩

theorem Quiet.trans {s₁ s₂ s₃ : HubState} (h : Quiet s₁ s₂) (h' : Quiet s₂ s₃) :
    Quiet s₁ s₃ where
  clock := Nat.le_trans h.clock h'.clock
  channels := by
    intro id ch₃ hch₃
    obtain ⟨ch₂, hch₂, hat₂, hb₂⟩ := h'.channels id ch₃ hch₃
    obtain ⟨ch₁, hch₁, hat₁, hb₁⟩ := h.channels id ch₂ hch₂
    exact ⟨ch₁, hch₁, hat₂.trans hat₁, fun hb => hb₁ (hb₂ hb)⟩

theorem Quiet.foldl {α : Type*} {f : HubState → α → HubState} (hf : ∀ s a, Quiet s (f s a))
    (l : List α) (s : HubState) : Quiet s (l.foldl f s) := by
  induction l generalizing s with
  | nil => exact .refl s
  | cons a l ih => exact (hf s a).trans (ih _)

theorem Quiet.of_eq (hclock : s.clock ≤ s'.clock)
    (hchannels : s'.channels = s.channels) : Quiet s s' :=
  ⟨hclock, fun _ ch h => ⟨ch, hchannels ▸ h, rfl, fun hb => hb⟩⟩

theorem set_quiet {ch' : ChannelState}
    (hch : s.channels.get channelId = some ch) (hat : ch'.startedAt = ch.startedAt)
    (hborn : ch'.status = .born → ch.status = .born) :
    Quiet s { s with channels := s.channels.set channelId ch' } where
  clock := Nat.le_refl _
  channels := by
    intro id c hc
    by_cases hid : id = channelId
    · subst hid
      have hc' : (s.channels.set id ch').get id = some c := hc
      rw [get_set_self] at hc'
      cases hc'
      exact ⟨ch, hch, hat, hborn⟩
    · have hc' : (s.channels.set channelId ch').get id = some c := hc
      rw [get_set_of_ne _ hid] at hc'
      exact ⟨c, hc', rfl, fun hb => hb⟩

theorem updateChannelStatus_quiet (s : HubState) (channelId : String) {status : ChannelStatus}
    (h : status ≠ .born) : Quiet s (s.updateChannelStatus channelId status) := by
  cases hch : s.channels.get channelId with
  | none => exact .of_eq (Nat.le_refl _) (by simp [updateChannelStatus, hch])
  | some ch =>
    have hset : Quiet s { s with channels := s.channels.set channelId { ch with status } } :=
      set_quiet hch rfl fun hb => absurd hb h
    refine hset.trans ?_
    exact .of_eq (Nat.le_refl _) (by simp [updateChannelStatus, hch])

theorem forgetChannel_quiet (s : HubState) (channelId : String) :
    Quiet s (s.forgetChannel channelId) where
  clock := Nat.le_refl _
  channels := by
    intro id ch h
    have h' : (s.channels.delete channelId).get id = some ch := h
    rw [get_delete] at h'
    split at h'
    · cases h'
    · exact ⟨ch, h', rfl, fun hb => hb⟩

theorem editChannel_quiet (s : HubState) (channelId : String) {f : ChannelState → ChannelState}
    (hat : ∀ ch, (f ch).startedAt = ch.startedAt) (hst : ∀ ch, (f ch).status = ch.status) :
    Quiet s (s.editChannel channelId f) := by
  unfold editChannel
  split
  · exact .refl s
  next ch hch => exact set_quiet hch (hat ch) fun hb => (hst ch).symm.trans hb

theorem endChannel_quiet (s : HubState) (channelId : String) : Quiet s (s.endChannel channelId) := by
  unfold endChannel
  split
  · exact .refl s
  · refine Quiet.trans ?_ (forgetChannel_quiet _ channelId)
    split
    · exact .refl s
    · exact updateChannelStatus_quiet s channelId (by simp)

theorem closeSession_quiet (s : HubState) (hostId sessionId : String) :
    Quiet s (s.closeSession hostId sessionId) :=
  (Quiet.foldl endChannel_quiet (s.channelsOf hostId) s).trans (.of_eq (Nat.le_refl _) rfl)

theorem judge_quiet (hostId : String) (reportedIds : List String) (askedAt : ℕ) (s : HubState)
    (channelId : String) : Quiet s (judge hostId reportedIds askedAt s channelId) := by
  refine judge_of_changes Quiet.refl Quiet.trans hostId askedAt ?_ ?_ ?_ ?_ ?_
  · exact fun ch sessionId hch => set_quiet hch rfl fun hb => hb
  · exact fun t => .of_eq (Nat.le_refl _) rfl
  · exact fun t => updateChannelStatus_quiet t channelId (by simp)
  · exact fun _ => updateChannelStatus_quiet s channelId (by simp)
  · exact fun _ t => forgetChannel_quiet t channelId

theorem reconcile_quiet (s : HubState) (hostId : String) (states : List Reported)
    (askedAt : ℕ) : Quiet s (s.reconcileChannelState hostId states askedAt) := by
  have horphans : Quiet s (s.destroyOrphans states) := by
    rw [destroyOrphans_eq]
    exact .of_eq (Nat.le_refl _) rfl
  exact horphans.trans (Quiet.foldl (judge_quiet hostId _ askedAt) _ _)

/-! ### Changes that start a terminal -/

/-- From `s` to `s'` a terminal was started under the id, and stamped. -/
structure Starts (id : String) (s s' : HubState) : Prop where
  clock : s'.clock = s.clock + 1
  stamped : ∀ ch', s'.channels.get id = some ch' →
    ch'.startedAt = some (s.clock + 1) ∧ (ch'.status = .born → ∃ ch,
      s.channels.get id = some ch ∧ ch.status = .born)
  others : ∀ id' ch', id' ≠ id → s'.channels.get id' = some ch' →
    ∃ ch, s.channels.get id' = some ch ∧ ch'.startedAt = ch.startedAt ∧
      (ch'.status = .born → ch.status = .born)

theorem trackStarted_starts {s₀ : HubState} (hquiet : Quiet s₀ s) (hclock : s.clock = s₀.clock)
    (channelId hostId sessionId : String) (clients : List String) :
    Starts channelId s₀ (s.trackStarted channelId hostId sessionId clients) where
  clock := by simp [trackStarted, hclock]
  stamped := by
    intro ch' hch'
    simp only [trackStarted, get_set_self, some.injEq] at hch'
    subst hch'
    exact ⟨by rw [hclock], nofun⟩
  others := by
    intro id' ch' hne hch'
    simp only [trackStarted, get_set_of_ne _ hne] at hch'
    exact hquiet.channels id' ch' hch'

theorem spawnOk_starts (s : HubState) (channelId hostId sessionId : String)
    (clients : List String) :
    Starts channelId s (s.spawnOk channelId hostId sessionId clients) := by
  apply trackStarted_starts
  · exact .of_eq (Nat.le_refl _) rfl
  · rfl

theorem retireChannel_quiet (s : HubState) (channelId : String) :
    Quiet s (s.retireChannel channelId) :=
  (updateChannelStatus_quiet s channelId (by simp)).trans (forgetChannel_quiet _ channelId)

theorem applyRestartState_starts (s : HubState)
    (channelId previousChannelId hostId sessionId : String) (clients : List String) :
    Starts channelId s
      (s.applyRestartState channelId previousChannelId hostId sessionId clients) := by
  apply trackStarted_starts
  · split
    · exact (retireChannel_quiet s previousChannelId).trans (.of_eq (Nat.le_refl _) rfl)
    · exact .of_eq (Nat.le_refl _) rfl
  · split <;> rfl

theorem spawnAnswered_starts (s : HubState) (hch : s.channels.get channelId = some ch) :
    Starts channelId s (s.spawnAnswered channelId true) where
  clock := by simp [spawnAnswered, hch]
  stamped := by
    intro ch' hch'
    simp only [spawnAnswered, if_true, hch, get_set_self, some.injEq] at hch'
    subst hch'
    exact ⟨rfl, fun hb => ⟨ch, hch, hb⟩⟩
  others := by
    intro id' ch' hne hch'
    simp only [spawnAnswered, if_true, hch, get_set_of_ne _ hne] at hch'
    exact ⟨ch', hch', rfl, fun hb => hb⟩

end HubState

namespace Talk

/-! ### What the readings mean -/

/-- The readings of the clock say what happened before what: a terminal's is later than a
question's exactly when it was started after the question was asked. -/
structure Marked (t : Talk) : Prop where
  started : ∀ id ch, t.hub.channels.get id = some ch → ch.startedAt.getD 0 ≤ t.hub.clock
  asked : ∀ q ∈ t.questions, q.askedAt ≤ t.hub.clock ∧ q.askTime < t.time
  times : ∀ id time, t.startTimes.get id = some time → time < t.time
  since : ∀ id ch, t.hub.channels.get id = some ch → ∀ q ∈ t.questions,
    (t.startedAfter q id = true ↔ q.askedAt < ch.startedAt.getD 0)
  notBorn : ∀ id ch, t.hub.channels.get id = some ch → ch.status ≠ .born

theorem marked_init (channelRows : OrderedMap String ChannelRow)
    (sessionRows : OrderedMap String SessionRow) : Marked (init channelRows sessionRows) where
  started _ _ h := nomatch h
  asked _ h := nomatch h
  times _ _ h := nomatch h
  since _ _ h := nomatch h
  notBorn _ _ h := nomatch h

variable {t t' : Talk}

theorem Marked.quiet (h : Marked t) (hhub : HubState.Quiet t.hub t'.hub)
    (hq : ∀ q ∈ t'.questions, q ∈ t.questions) (htimes : t'.startTimes = t.startTimes)
    (htime : t'.time = t.time + 1) : Marked t' where
  started := by
    intro id ch' hch'
    obtain ⟨ch, hch, hat, -⟩ := hhub.channels id ch' hch'
    rw [hat]
    exact Nat.le_trans (h.started id ch hch) hhub.clock
  asked := by
    intro q hmem
    obtain ⟨hat, htm⟩ := h.asked q (hq q hmem)
    have hclock := hhub.clock
    omega
  times := by
    intro id time hget
    have := h.times id time (htimes ▸ hget)
    omega
  since := by
    intro id ch' hch' q hmem
    obtain ⟨ch, hch, hat, -⟩ := hhub.channels id ch' hch'
    rw [hat, ← h.since id ch hch q (hq q hmem)]
    simp only [startedAfter, htimes]
  notBorn := by
    intro id ch' hch' hb
    obtain ⟨ch, hch, -, hborn⟩ := hhub.channels id ch' hch'
    exact h.notBorn id ch hch (hborn hb)

theorem Marked.same (h : Marked t) (hclock : t'.hub.clock = t.hub.clock)
    (hchannels : t'.hub.channels = t.hub.channels) (hq : t'.questions = t.questions)
    (htimes : t'.startTimes = t.startTimes) (htime : t'.time = t.time + 1) : Marked t' :=
  h.quiet (.of_eq (Nat.le_of_eq hclock.symm) hchannels) (fun _ hmem => hq ▸ hmem) htimes htime

theorem Marked.start {id : String} (h : Marked t)
    (hhub : HubState.Starts id t.hub t'.hub) (hq : t'.questions = t.questions)
    (htimes : t'.startTimes = t.startTimes.set id t.time) (htime : t'.time = t.time + 1) :
    Marked t' where
  started := by
    intro id' ch' hch'
    rw [hhub.clock]
    by_cases hid : id' = id
    · subst hid
      simp [(hhub.stamped ch' hch').1]
    · obtain ⟨ch, hch, hat, -⟩ := hhub.others id' ch' hid hch'
      rw [hat]
      exact Nat.le_succ_of_le (h.started id' ch hch)
  asked := by
    intro q hmem
    obtain ⟨hat, htm⟩ := h.asked q (hq ▸ hmem)
    have hclock := hhub.clock
    omega
  times := by
    intro id' time hget
    rw [htimes, get_set] at hget
    split at hget
    · cases hget
      omega
    · have := h.times id' time hget
      omega
  since := by
    intro id' ch' hch' q hmem
    rw [hq] at hmem
    obtain ⟨hat, htm⟩ := h.asked q hmem
    by_cases hid : id' = id
    · subst hid
      simp only [startedAfter, htimes, get_set_self, (hhub.stamped ch' hch').1,
        getD_some, decide_eq_true_eq]
      omega
    · obtain ⟨ch, hch, hsame, -⟩ := hhub.others id' ch' hid hch'
      rw [hsame, ← h.since id' ch hch q hmem]
      simp only [startedAfter, htimes, get_set_of_ne _ hid]
  notBorn := by
    intro id' ch' hch' hb
    by_cases hid : id' = id
    · subst hid
      obtain ⟨ch, hch, hborn⟩ := (hhub.stamped ch' hch').2 hb
      exact h.notBorn id' ch hch hborn
    · obtain ⟨ch, hch, -, hborn⟩ := hhub.others id' ch' hid hch'
      exact h.notBorn id' ch hch (hborn hb)

theorem Marked.ask (h : Marked t) (hostId : String) :
    Marked { t with
      hub := { t.hub with clock := t.hub.clock + 1 }
      questions := t.questions ++ [⟨hostId, t.hub.clock + 1, t.time⟩]
      time := t.time + 1 } where
  started := fun id ch hch => Nat.le_succ_of_le (h.started id ch hch)
  asked := by
    intro q hmem
    rcases mem_append.mp hmem with hmem | hmem
    · obtain ⟨hat, htm⟩ := h.asked q hmem
      exact ⟨Nat.le_succ_of_le hat, Nat.lt_succ_of_lt htm⟩
    · obtain rfl := mem_singleton.mp hmem
      exact ⟨Nat.le_refl _, Nat.lt_succ_self _⟩
  times := fun id time hget => Nat.lt_succ_of_lt (h.times id time hget)
  since := by
    intro id ch hch q hmem
    rcases mem_append.mp hmem with hmem | hmem
    · exact h.since id ch hch q hmem
    · obtain rfl := mem_singleton.mp hmem
      have hmark := h.started id ch hch
      -- neither the start nor its reading is as late as the question
      have hnot : ∀ time, t.startTimes.get id = some time → ¬t.time < time := by
        intro time hget
        have := h.times id time hget
        omega
      constructor
      · intro hs
        simp only [startedAfter] at hs
        split at hs
        · cases hs
        next time hget => exact absurd (of_decide_eq_true hs) (hnot time hget)
      · intro hlt
        exact absurd hlt (by dsimp only; omega)
  notBorn := h.notBorn

/-- `startup` tracks what this run of the hub has never started. -/
theorem Marked.restore (h : Marked t) (hostId sessionId : String) {id : String}
    (hnever : t.startTimes.get id = none) :
    Marked { t with hub := t.hub.trackOrphan hostId sessionId id, time := t.time + 1 } := by
  -- the channel it sets carries no mark, and every other is as it was
  have hget : ∀ id' ch', (t.hub.trackOrphan hostId sessionId id).channels.get id' = some ch' →
      (id' = id ∧ ch'.startedAt = none ∧ ch'.status = .orphan) ∨
        (id' ≠ id ∧ t.hub.channels.get id' = some ch') := by
    intro id' ch' hch'
    simp only [HubState.trackOrphan, get_set] at hch'
    split at hch'
    next hid =>
      cases hch'
      exact .inl ⟨hid, rfl, rfl⟩
    next hid => exact .inr ⟨hid, hch'⟩
  refine ⟨?_, ?_, ?_, ?_, ?_⟩
  · intro id' ch' hch'
    rcases hget id' ch' hch' with ⟨-, hat, -⟩ | ⟨-, hch⟩
    · simp [hat]
    · exact h.started id' ch' hch
  · intro q hmem
    exact ⟨(h.asked q hmem).1, Nat.lt_succ_of_lt (h.asked q hmem).2⟩
  · exact fun id' time hget => Nat.lt_succ_of_lt (h.times id' time hget)
  · intro id' ch' hch' q hmem
    rcases hget id' ch' hch' with ⟨rfl, hat, -⟩ | ⟨-, hch⟩
    · simp [startedAfter, hnever, hat]
    · exact h.since id' ch' hch q hmem
  · intro id' ch' hch'
    rcases hget id' ch' hch' with ⟨-, -, hst⟩ | ⟨-, hch⟩
    · simp [hst]
    · exact h.notBorn id' ch' hch

theorem marked_next {e : Event} (h : Marked t) (hn : t.next e = some t') : Marked t' := by
  obtain ⟨t₁, heff, rfl⟩ := map_eq_some_iff.mp hn
  cases e with
  | ask hostId =>
    cases heff
    exact h.ask hostId
  | answer q states =>
    obtain ⟨-, ⟨rfl⟩⟩ := ite_none_right_eq_some.mp heff
    exact h.quiet (HubState.reconcile_quiet _ _ _ _) (fun q' hq' => mem_of_mem_erase hq')
      rfl rfl
  | unanswered q =>
    obtain ⟨-, ⟨rfl⟩⟩ := ite_none_right_eq_some.mp heff
    exact h.quiet (.refl _) (fun q' hq' => mem_of_mem_erase hq') rfl rfl
  | claim id =>
    obtain ⟨-, ⟨rfl⟩⟩ := ite_none_left_eq_some.mp heff
    exact h.same rfl rfl rfl rfl rfl
  | release | spawnSent | spawnFailed | sessionSet | rowDeleted =>
    cases heff
    exact h.same rfl rfl rfl rfl rfl
  | started id hostId sessionId clients =>
    cases heff
    exact h.start (HubState.spawnOk_starts _ _ _ _ _) rfl rfl rfl
  | restarted id previous hostId sessionId clients =>
    cases heff
    exact h.start (HubState.applyRestartState_starts _ _ _ _ _ _) rfl rfl rfl
  | respawned id tracked =>
    cases tracked with
    | true =>
      obtain ⟨htracked, ⟨rfl⟩⟩ := ite_none_right_eq_some.mp heff
      obtain ⟨ch, hch⟩ := isSome_iff_exists.mp htracked
      exact h.start (HubState.spawnAnswered_starts _ hch) rfl rfl rfl
    | false =>
      cases heff
      exact h.quiet (.of_eq (Nat.le_succ _) rfl) (fun q hq => hq) rfl rfl
  | restored hostId sessionId id =>
    obtain ⟨hnever, ⟨rfl⟩⟩ := ite_none_right_eq_some.mp heff
    exact h.restore hostId sessionId hnever
  | statusChanged id status =>
    obtain ⟨hst, ⟨rfl⟩⟩ := ite_none_left_eq_some.mp heff
    exact h.quiet (HubState.updateChannelStatus_quiet _ id hst) (fun q hq => hq) rfl rfl
  | forgotten id =>
    cases heff
    exact h.quiet (HubState.forgetChannel_quiet _ id) (fun q hq => hq) rfl rfl
  | clientsChanged id | cwdChanged id =>
    cases heff
    exact h.quiet (HubState.editChannel_quiet _ id (fun _ => rfl) (fun _ => rfl))
      (fun q hq => hq) rfl rfl
  | sessionClosed hostId sessionId =>
    cases heff
    exact h.quiet (HubState.closeSession_quiet _ hostId sessionId) (fun q hq => hq) rfl rfl

theorem marked_of_run {channelRows : OrderedMap String ChannelRow}
    {sessionRows : OrderedMap String SessionRow}
    (h : Run next free (init channelRows sessionRows) t) : Marked t :=
  h.invariant (marked_init channelRows sessionRows) fun _ _ _ hm _ hn => marked_next hm hn

/-! ### The judgement, by what happened -/

variable {q : Question}

/-- A terminal is judged when it is the host's, no start claims it, it was not started since,
and the host has a session. -/
theorem Marked.judges_iff (h : Marked t) {id : String}
    (hch : t.hub.channels.get id = some ch) (hq : q ∈ t.questions) :
    t.hub.judges q.hostId q.askedAt id ch = true ↔
      ch.hostId = q.hostId ∧ t.hub.startingChannels.contains id = false ∧
        t.startedAfter q id = false ∧ (t.hub.sessions.get q.hostId).isSome = true := by
  have hsince := h.since id ch hch q hq
  have hafter : t.startedAfter q id = false ↔ ch.startedAt.getD 0 ≤ q.askedAt := by
    rw [← Bool.not_eq_true, hsince]
    omega
  simp only [HubState.judges, HubState.answerStillApplies, hch, Bool.and_eq_true,
    decide_eq_true_eq, Bool.not_eq_true', hafter]
  tauto

theorem Marked.buries_iff (h : Marked t) (hq : q ∈ t.questions)
    (states : List Reported) (id : String) :
    HubState.buries t.hub (t.answered q states) id = true ↔
      (id ∈ states.map Reported.channelId ∧ t.hub.knows id = false) ∨
      ∃ ch, t.hub.channels.get id = some ch ∧ ch.hostId = q.hostId ∧
        t.hub.startingChannels.contains id = false ∧ t.startedAfter q id = false ∧
        (t.hub.sessions.get q.hostId).isSome = true ∧ ⟨id, true⟩ ∉ states := by
  rw [answered, HubState.reconcile_buries_iff]
  refine or_congr Iff.rfl (exists_congr fun ch => ?_)
  constructor
  · rintro ⟨hch, hj, hrep⟩
    obtain ⟨hhost, hclaim, hafter, hsession⟩ := (h.judges_iff hch hq).mp hj
    exact ⟨hch, hhost, hclaim, hafter, hsession, hrep⟩
  · rintro ⟨hch, hhost, hclaim, hafter, hsession, hrep⟩
    exact ⟨hch, (h.judges_iff hch hq).mpr ⟨hhost, hclaim, hafter, hsession⟩, hrep⟩

theorem Marked.right_since (h : Marked t) (hq : q ∈ t.questions)
    (states : List Reported) {id : String}
    (hch : t.hub.channels.get id = some ch) (hafter : t.startedAfter q id = true) :
    HubState.buries t.hub (t.answered q states) id = false := by
  rw [← Bool.not_eq_true, h.buries_iff hq]
  rintro (⟨-, hunknown⟩ | ⟨_, -, -, -, hnot, -⟩)
  · rw [HubState.knows_of_tracked hch] at hunknown
    cases hunknown
  · rw [hafter] at hnot
    cases hnot

theorem Marked.keptLive_iff (h : Marked t) (hq : q ∈ t.questions)
    (states : List Reported) {id : String}
    (hch : t.hub.channels.get id = some ch) (hhost : ch.hostId = q.hostId)
    (hafter : t.startedAfter q id = false) (hclaim : t.hub.startingChannels.contains id = false) :
    keptLive (t.answered q states) id ch ↔
      if (t.hub.sessions.get q.hostId).isSome then ⟨id, true⟩ ∈ states
      else ch.status ≠ .orphan := by
  have hget := HubState.reconcile_get q.hostId states q.askedAt hch
  have hborn := h.notBorn id ch hch
  cases hsession : (t.hub.sessions.get q.hostId).isSome with
  | true =>
    rw [if_pos ((h.judges_iff hch hq).mpr ⟨hhost, hclaim, hafter, hsession⟩)] at hget
    rw [if_pos rfl]
    split at hget
    next hrep =>
      obtain ⟨ch', hch', hlive⟩ := hget
      simp only [hrep, iff_true]
      refine ⟨ch', hch', fun hdead => hlive.mpr ?_⟩
      cases hst : ch.status with
      | born => exact absurd hst hborn
      | live => exact .inr rfl
      | orphan => exact .inl rfl
      | dead => exact absurd hst hdead
    next hrep =>
      simp only [hrep, iff_false]
      rintro ⟨ch', hch', -⟩
      rw [answered, hget] at hch'
      cases hch'
  | false =>
    have hj : t.hub.judges q.hostId q.askedAt id ch = false := by
      rw [← Bool.not_eq_true, h.judges_iff hch hq, hsession]
      rintro ⟨-, -, -, hs⟩
      cases hs
    rw [hj, if_neg (by simp)] at hget
    rw [if_neg (by simp)]
    constructor
    · rintro ⟨ch', hch', hlive⟩ horphan
      obtain rfl : ch = ch' := some.inj (hget.symm.trans hch')
      have := hlive (by simp [horphan])
      simp [horphan] at this
    · intro hnot
      refine ⟨ch, hget, fun hdead => ?_⟩
      cases hst : ch.status with
      | born => exact absurd hst hborn
      | live => rfl
      | orphan => exact absurd hst hnot
      | dead => exact absurd hst hdead

theorem beingStarted_iff {id : String} :
    t.beingStarted id = true ↔ id ∈ t.hub.startingChannels ++ t.spawning := by
  simp [beingStarted]

theorem not_claimed {id : String} (h : t.beingStarted id = false) :
    t.hub.startingChannels.contains id = false := by
  simp only [beingStarted, Bool.or_eq_false_iff] at h
  exact h.1

theorem Marked.judgeable_of_right (h : Marked t) (hq : q ∈ t.questions) (r : t.Right q states) :
    t.Judgeable q states where
  known := by
    intro id hid hrep
    by_contra hunknown
    have hsafe := r.starting id (beingStarted_iff.mpr hid)
    have hends := (h.buries_iff hq states id).mpr
      (.inl ⟨hrep, by simpa using hunknown⟩)
    rw [hsafe] at hends
    cases hends
  tracked := by
    intro e he hhost hafter
    have hch : t.hub.channels.get e.1 = some e.2 := (get_eq_some_iff _ _ _).mpr he
    unfold JudgeableAt
    split
    next hstarting =>
      by_contra hnot
      rw [not_or, not_or] at hnot
      obtain ⟨hclaim, hsession, hrep⟩ := hnot
      have hends := (h.buries_iff hq states e.1).mpr (.inr ⟨e.2, hch, hhost, by simpa using hclaim,
        hafter, isSome_iff_ne_none.mpr hsession, hrep⟩)
      rw [r.starting e.1 hstarting] at hends
      cases hends
    next hstarting =>
      have hidle : t.beingStarted e.1 = false := by simpa using hstarting
      have hkept := r.others e.1 e.2 hch hhost hafter hidle
      rw [h.keptLive_iff hq states hch hhost hafter (not_claimed hidle)] at hkept
      cases hsession : (t.hub.sessions.get q.hostId).isSome with
      | true => exact .inl rfl
      | false =>
        rw [hsession, if_neg (by simp)] at hkept
        exact .inr hkept.symm

theorem Marked.right_of_judgeable (h : Marked t) (hq : q ∈ t.questions) (j : t.Judgeable q states) :
    t.Right q states where
  since := fun _ _ hch hafter => h.right_since hq states hch hafter
  starting := by
    intro id hstarting
    rw [← Bool.not_eq_true, h.buries_iff hq]
    rintro (⟨hrep, hunknown⟩ | ⟨ch, hch, hhost, hclaim, hafter, hsession, hrep⟩)
    · rw [j.known id (beingStarted_iff.mp hstarting) hrep] at hunknown
      cases hunknown
    · have hat := j.tracked (id, ch) ((get_eq_some_iff _ _ _).mp hch) hhost hafter
      unfold JudgeableAt at hat
      rw [if_pos hstarting, hclaim] at hat
      rcases hat with hclaimed | hnone | halive
      · cases hclaimed
      · rw [hnone] at hsession
        cases hsession
      · exact hrep halive
  others := by
    intro id ch hch hhost hafter hidle
    have hat := j.tracked (id, ch) ((get_eq_some_iff _ _ _).mp hch) hhost hafter
    unfold JudgeableAt at hat
    rw [if_neg (by simp [hidle])] at hat
    rw [h.keptLive_iff hq states hch hhost hafter (not_claimed hidle)]
    cases hsession : (t.hub.sessions.get q.hostId).isSome with
    | true => rw [if_pos rfl]
    | false =>
      rw [if_neg (by simp)]
      rw [hsession] at hat
      rcases hat with hsome | hiff
      · cases hsome
      · exact hiff.symm

/-- **Answers race with starts.** In every state the hub reaches, whatever was asked, started
and answered before and in whatever order: an answer to a question that is still open leaves
alone what was started since and what is being started, and keeps as live exactly what it
reports alive of the rest, if and only if it can be judged by.  The half about terminals
started since the question asks for nothing: the readings of the clock always tell. -/
theorem right_iff_judgeable {channelRows : OrderedMap String ChannelRow}
    {sessionRows : OrderedMap String SessionRow} {t : Talk}
    (h : Run next free (init channelRows sessionRows) t) {q : Question} (hq : q ∈ t.questions)
    (states : List Reported) : t.Right q states ↔ t.Judgeable q states :=
  ⟨(marked_of_run h).judgeable_of_right hq, (marked_of_run h).right_of_judgeable hq⟩

/-- A session on each of two host entries. -/
private def sessionsUp : List Event :=
  [.sessionSet "pi" ⟨"s1", .active⟩, .sessionSet "pi-vpn" ⟨"s2", .active⟩]

/-- The answer about `pi` names the terminal that was there; one was started since, and one
ended meanwhile is being brought back. -/
theorem right_with_a_start_since : ∃ t q, Run next free (init .empty .empty) t ∧
    q ∈ t.questions ∧ t.startedAfter q "new" = true ∧ t.beingStarted "ended" = true ∧
    t.Right q [⟨"old", true⟩] := by
  have hrun : Run next free (init .empty .empty) _ := .get_free (sessionsUp ++
    [.started "old" "pi" "s1" ["c"], .started "ended" "pi" "s1" ["c"], .ask "pi",
      .started "new" "pi" "s1" ["c"], .statusChanged "ended" .dead, .claim "ended",
      .spawnSent "ended"]) (by decide +kernel)
  exact ⟨_, ⟨"pi", 3, 4⟩, hrun, by decide +kernel, by decide +kernel, by decide +kernel,
    (right_iff_judgeable hrun (by decide +kernel) _).mpr ⟨by decide +kernel, by decide +kernel⟩⟩

/-- Two host entries reach one daemon. A terminal that ended is brought back over the first,
and the daemon, asked over the second, already lists it when its `SPAWN_OK` is still on its
way: the hub has it destroyed. -/
theorem destroyed_while_being_started :
    ¬∀ (channelRows : OrderedMap String ChannelRow) (sessionRows : OrderedMap String SessionRow)
      (t : Talk), Run next free (init channelRows sessionRows) t → ∀ q ∈ t.questions,
        ∀ states : List Reported, t.Right q states := by
  intro hall
  have hrun : Run next free (init (empty.set "x" ⟨"s1", .dead⟩) .empty) _ := .get_free
    (sessionsUp ++ [.claim "x", .spawnSent "x", .ask "pi-vpn"]) (by decide +kernel)
  have hright := hall _ _ _ hrun ⟨"pi-vpn", 1, 4⟩ (by decide +kernel) [⟨"x", true⟩]
  exact absurd (hright.starting "x" (by decide +kernel)) (by decide +kernel)

end Talk

end Lasterm.Hub
