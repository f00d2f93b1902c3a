import Lasterm.Lib.OrderedMap
import Lasterm.Lib.Run

/-!
# Starts of a terminal under an id it has

Three paths send a SPAWN that names a terminal: a SPAWN that brings it back (`handleSpawn`), a
restart (`restartChannel`), and the re-adoption of a host's terminals on a new connection
(`spawnChannelsForHost`).  The first two claim the id in `startingChannels` before their first
await and give it back when they end.  The third claims nothing and looks at no claim.  A start
that waited for its answer too long ends, while the SPAWN it sent still stands unanswered.

## Main definitions

* `Starts` — the claims, the starts under way and the SPAWNs unanswered.

## Main results

* `one_start_in_flight`, `restart_beside_adoption` — runs where no start meets another, and one.
-/

namespace Lasterm.Hub.Starting

open Transition List OrderedMap

/-- The id of a channel. -/
abbrev ChannelId := String
/-- The id of a host. -/
abbrev HostId := String

/-- A terminal in the hub's map. -/
structure ChannelState where
  hostId : HostId
  dead : Bool

/-- Where a claimed start is. -/
inductive Phase
  | reaching
  | waiting (requestId : ℕ)
  | asking

/-- A start under way. -/
structure Start where
  channelId : ChannelId
  phase : Phase

/-- What waits for an answer: a claimed start, or a terminal re-adopted. -/
structure Handler where
  requestId : ℕ
  channelId : ChannelId
  adoption : Bool
  deriving DecidableEq

/-- A SPAWN that an agent has not answered. -/
structure Frame where
  requestId : ℕ
  channelId : ChannelId
  conn : ℕ
  deriving DecidableEq

/-- Who asks for a start. -/
inductive Asker
  | spawn
  | restart
  deriving DecidableEq

/-- What an agent answers; `passwordRequired` only to an elevated start's first SPAWN. -/
inductive Answer
  | ok
  | err
  | passwordRequired

/-- What the hub keeps of starts, with the answers that were applied. -/
structure Starts where
  startingChannels : OrderedSet ChannelId
  channels : OrderedMap ChannelId ChannelState
  starts : List Start
  pendingRequests : OrderedMap ℕ Handler
  unanswered : List Frame
  nextId : ℕ
  applied : List (Frame × Handler)

namespace Starts

variable (s : Starts)

/-- The terminal runs, as the hub has it. -/
def live (channelId : ChannelId) : Bool :=
  match s.channels.get channelId with
  | some c => !c.dead
  | none => false

/-- A start is asked for: refused if it is claimed, and a SPAWN also if it runs. -/
def claim (channelId : ChannelId) (asker : Asker) : Starts :=
  if channelId ∈ s.startingChannels ∨ asker = .spawn ∧ s.live channelId = true then s
  else
    { s with
      startingChannels := s.startingChannels.add channelId
      starts := s.starts ++ [⟨channelId, .reaching⟩] }

/-- The start that waits for the request, or another. -/
def setPhase (channelId : ChannelId) (phase : Phase) : Starts :=
  { s with starts := s.starts.map fun t => if t.channelId = channelId then ⟨channelId, phase⟩ else t }

/-- A SPAWN with a number of its own, and what waits for its answer. -/
def sendSpawn (channelId : ChannelId) (conn : ℕ) (adoption : Bool) : Starts :=
  { s with
    pendingRequests := s.pendingRequests.set s.nextId ⟨s.nextId, channelId, adoption⟩
    unanswered := s.unanswered ++ [⟨s.nextId, channelId, conn⟩]
    nextId := s.nextId + 1 }

/-- A claimed start sends its SPAWN. -/
def sendStart (channelId : ChannelId) (conn : ℕ) : Starts :=
  (s.sendSpawn channelId conn false).setPhase channelId (.waiting s.nextId)

/-- A claimed start ends, whatever it came to. -/
def endStart (channelId : ChannelId) : Starts :=
  { s with
    startingChannels := s.startingChannels.delete channelId
    starts := s.starts.filter fun t => t.channelId ≠ channelId }

/-- The terminals of a host that a new connection starts again. -/
def adoptable (hostId : HostId) : List ChannelId :=
  (s.channels.entries.filter fun e => e.2.hostId = hostId ∧ e.2.dead = false).map Prod.fst

/-- `spawnChannelsForHost`: each terminal the host is thought to run. -/
def spawnChannelsForHost (hostId : HostId) (conn : ℕ) : Starts :=
  (s.adoptable hostId).foldl (fun s channelId => s.sendSpawn channelId conn true) s

/-- The channel is marked dead. -/
def setDead (channelId : ChannelId) : Starts :=
  match s.channels.get channelId with
  | some c => { s with channels := s.channels.set channelId { c with dead := true } }
  | none => s

/-- What waits for the answer is found by the request's number, and takes it. -/
def answered (f : Frame) (a : Answer) (hostId : HostId) : Starts :=
  match s.pendingRequests.get f.requestId with
  | none => s
  | some h =>
    let s := { s with
      pendingRequests := s.pendingRequests.delete f.requestId
      applied := s.applied ++ [(f, h)] }
    match h.adoption, a with
    | true, .ok => s
    -- The refusal is read as the terminal's death.
    | true, _ => s.setDead h.channelId
    | false, .ok =>
      { s with channels := s.channels.set h.channelId ⟨hostId, false⟩ }.endStart h.channelId
    | false, .err => s.endStart h.channelId
    | false, .passwordRequired => s.setPhase h.channelId .asking

/-- Nothing answered in time. -/
def timedOut (requestId : ℕ) : Starts :=
  match s.pendingRequests.get requestId with
  | none => s
  | some h =>
    let s := { s with pendingRequests := s.pendingRequests.delete requestId }
    if h.adoption then s.setDead h.channelId else s.endStart h.channelId

end Starts

/-- What can happen next. -/
inductive Step
  | claims (channelId : ChannelId) (asker : Asker)
  /-- A claimed start that waits for no answer sends its SPAWN. -/
  | sends (i : ℕ) (conn : ℕ)
  /-- A claimed start that waits for no answer ends. -/
  | ends (i : ℕ)
  | adopts (hostId : HostId) (conn : ℕ)
  | answers (i : ℕ) (a : Answer) (hostId : HostId)
  | timesOut (requestId : ℕ)
  | disconnects (conn : ℕ)
  /-- A terminal is known, ends, or is forgotten. -/
  | learns (channelId : ChannelId) (c : ChannelState)
  | forgets (channelId : ChannelId)

/-- One step. -/
def next (s : Starts) : Step → Option Starts
  | .claims channelId asker => some (s.claim channelId asker)
  | .sends i conn =>
    match s.starts[i]? with
    | some ⟨_, .waiting _⟩ => none
    | some ⟨channelId, _⟩ => some (s.sendStart channelId conn)
    | none => none
  | .ends i =>
    match s.starts[i]? with
    | some ⟨_, .waiting _⟩ => none
    | some ⟨channelId, _⟩ => some (s.endStart channelId)
    | none => none
  | .adopts hostId conn => some (s.spawnChannelsForHost hostId conn)
  | .answers i a hostId =>
    (s.unanswered[i]?).map fun f =>
      { s with unanswered := s.unanswered.eraseIdx i }.answered f a hostId
  | .timesOut requestId => some (s.timedOut requestId)
  | .disconnects conn =>
    some { s with unanswered := s.unanswered.filter fun f => f.conn ≠ conn }
  | .learns channelId c => some { s with channels := s.channels.set channelId c }
  | .forgets channelId => some { s with channels := s.channels.delete channelId }

/-- No channel and no agent is known. -/
def initial : Starts := ⟨.empty, .empty, [], .empty, [], 0, []⟩

/-- A start of a terminal is begun only when no SPAWN naming it stands unanswered, and a
re-adoption comes only to terminals that no start has claimed and that have none there. -/
def Apart (s : Starts) : Step → Bool
  | .claims channelId _ => s.unanswered.all fun f => f.channelId ≠ channelId
  | .adopts hostId conn => (s.adoptable hostId).all fun channelId =>
      channelId ∉ s.startingChannels ∧
        s.unanswered.all fun f => ¬ (f.conn = conn ∧ f.channelId = channelId)
  | _ => true

/-! ### What holds -/

/-- What holds in every state of a run whose starts keep apart. -/
structure Sound (s : Starts) : Prop where
  /-- No two SPAWNs naming one terminal stand unanswered on one agent. -/
  alone : (s.unanswered.map fun f => (f.conn, f.channelId)).Nodup
  ids : (s.unanswered.map Frame.requestId).Nodup
  idsLt : ∀ f ∈ s.unanswered, f.requestId < s.nextId
  pendingLt : ∀ r h, s.pendingRequests.get r = some h → r < s.nextId
  /-- What waits for an answer is what sent the request. -/
  pending : ∀ r h, s.pendingRequests.get r = some h →
    h.requestId = r ∧ ∀ f ∈ s.unanswered, f.requestId = r → f.channelId = h.channelId
  claimed : ∀ t ∈ s.starts, t.channelId ∈ s.startingChannels
  once : (s.starts.map Start.channelId).Nodup
  /-- A claimed terminal has at most the SPAWN its start waits for. -/
  own : ∀ f ∈ s.unanswered, ∀ t ∈ s.starts, t.channelId = f.channelId →
    t.phase = .waiting f.requestId
  waits : ∀ r h, s.pendingRequests.get r = some h → h.adoption = false →
    ⟨h.channelId, .waiting r⟩ ∈ s.starts
  applied : ∀ x ∈ s.applied, x.2.requestId = x.1.requestId ∧ x.2.channelId = x.1.channelId

namespace Sound

variable {s : Starts} {c : ChannelId} {conn : ℕ}

theorem start_eq (h : Sound s) {t t' : Start} (ht : t ∈ s.starts) (ht' : t' ∈ s.starts)
    (heq : t.channelId = t'.channelId) : t = t' :=
  inj_on_of_nodup_map h.once ht ht' heq

theorem claim (h : Sound s) (hfree : ∀ f ∈ s.unanswered, f.channelId ≠ c) (asker : Asker) :
    Sound (s.claim c asker) := by
  unfold Starts.claim
  split
  · exact h
  · next hnot =>
    have hnew : c ∉ s.startingChannels := fun hmem => hnot (.inl hmem)
    refine { h with claimed := ?_, once := ?_, own := ?_, waits := ?_ }
    · intro t ht
      rw [OrderedSet.mem_add]
      obtain ht | ht := mem_append.mp ht
      · exact .inr (h.claimed t ht)
      · obtain rfl := mem_singleton.mp ht
        exact .inl rfl
    · rw [map_append, nodup_append]
      refine ⟨h.once, nodup_singleton _, ?_⟩
      intro a ha b hb
      obtain ⟨t, ht, rfl⟩ := mem_map.mp ha
      obtain rfl := mem_singleton.mp hb
      rintro rfl
      exact hnew (h.claimed t ht)
    · intro f hf t ht heq
      obtain ht | ht := mem_append.mp ht
      · exact h.own f hf t ht heq
      · obtain rfl := mem_singleton.mp ht
        exact absurd heq.symm (hfree f hf)
    · exact fun r k hk ha => mem_append_left _ (h.waits r k hk ha)

theorem sendSpawn_ids (h : Sound s) (c : ChannelId) (conn : ℕ) (adoption : Bool) :
    ((s.sendSpawn c conn adoption).unanswered.map Frame.requestId).Nodup ∧
    (∀ f ∈ (s.sendSpawn c conn adoption).unanswered, f.requestId < s.nextId + 1) ∧
    (∀ r k, (s.sendSpawn c conn adoption).pendingRequests.get r = some k → r < s.nextId + 1) := by
  refine ⟨?_, ?_, ?_⟩
  · unfold Starts.sendSpawn
    rw [map_append, nodup_append]
    refine ⟨h.ids, nodup_singleton _, ?_⟩
    intro a ha b hb
    obtain ⟨f, hf, rfl⟩ := mem_map.mp ha
    obtain rfl := mem_singleton.mp hb
    exact Nat.ne_of_lt (h.idsLt f hf)
  · intro f hf
    obtain hf | hf := mem_append.mp hf
    · exact Nat.lt_succ_of_lt (h.idsLt f hf)
    · obtain rfl := mem_singleton.mp hf
      exact Nat.lt_succ_self _
  · intro r k hk
    unfold Starts.sendSpawn at hk
    rw [get_set] at hk
    split at hk
    · next heq =>
      rw [heq]
      exact Nat.lt_succ_self _
    · exact Nat.lt_succ_of_lt (h.pendingLt r k hk)

theorem sendSpawn_pending (h : Sound s) (adoption : Bool) :
    ∀ r k, (s.sendSpawn c conn adoption).pendingRequests.get r = some k →
      k.requestId = r ∧ ∀ f ∈ (s.sendSpawn c conn adoption).unanswered, f.requestId = r →
        f.channelId = k.channelId := by
  intro r k hk
  unfold Starts.sendSpawn at hk
  rw [get_set] at hk
  split at hk
  · next heq =>
    cases hk
    refine ⟨heq.symm, ?_⟩
    intro f hf hr
    obtain hf | hf := mem_append.mp hf
    · have := h.idsLt f hf
      omega
    · obtain rfl := mem_singleton.mp hf
      rfl
  · next hne =>
    obtain ⟨hid, hall⟩ := h.pending r k hk
    refine ⟨hid, ?_⟩
    intro f hf hr
    obtain hf | hf := mem_append.mp hf
    · exact hall f hf hr
    · obtain rfl := mem_singleton.mp hf
      exact absurd hr.symm hne

theorem sendSpawn_alone (h : Sound s) (adoption : Bool)
    (hfree : ∀ f ∈ s.unanswered, ¬ (f.conn = conn ∧ f.channelId = c)) :
    ((s.sendSpawn c conn adoption).unanswered.map fun f => (f.conn, f.channelId)).Nodup := by
  unfold Starts.sendSpawn
  rw [map_append, nodup_append]
  refine ⟨h.alone, nodup_singleton _, ?_⟩
  intro a ha b hb
  obtain ⟨f, hf, rfl⟩ := mem_map.mp ha
  obtain rfl := mem_singleton.mp hb
  intro heq
  exact hfree f hf ⟨congrArg Prod.fst heq, congrArg Prod.snd heq⟩

theorem adoptOne (h : Sound s) (hc : c ∉ s.startingChannels)
    (hfree : ∀ f ∈ s.unanswered, ¬ (f.conn = conn ∧ f.channelId = c)) :
    Sound (s.sendSpawn c conn true) := by
  obtain ⟨hids, hidsLt, hpendingLt⟩ := h.sendSpawn_ids c conn true
  refine { h with
    alone := h.sendSpawn_alone true hfree, ids := hids, idsLt := hidsLt, pendingLt := hpendingLt,
    pending := h.sendSpawn_pending true, own := ?_, waits := ?_ }
  · intro f hf t ht heq
    obtain hf | hf := mem_append.mp hf
    · exact h.own f hf t ht heq
    · obtain rfl := mem_singleton.mp hf
      have hmem := h.claimed t ht
      rw [heq] at hmem
      exact absurd hmem hc
  · intro r k hk ha
    unfold Starts.sendSpawn at hk
    rw [get_set] at hk
    split at hk
    · cases hk
      cases ha
    · exact h.waits r k hk ha

theorem adoptAll {l : List ChannelId} (hl : l.Nodup) (h : Sound s)
    (hc : ∀ c ∈ l, c ∉ s.startingChannels)
    (hfree : ∀ c ∈ l, ∀ f ∈ s.unanswered, ¬ (f.conn = conn ∧ f.channelId = c)) :
    Sound (l.foldl (fun s c => s.sendSpawn c conn true) s) := by
  induction l generalizing s with
  | nil => exact h
  | cons c l ih =>
    obtain ⟨hnot, hl⟩ := nodup_cons.mp hl
    rw [foldl_cons]
    refine ih hl (h.adoptOne (hc c mem_cons_self) (hfree c mem_cons_self)) ?_ ?_
    · exact fun c' hc' => hc c' (mem_cons_of_mem c hc')
    · intro c' hc' f hf
      obtain hf | hf := mem_append.mp hf
      · exact hfree c' (mem_cons_of_mem c hc') f hf
      · obtain rfl := mem_singleton.mp hf
        rintro ⟨-, rfl⟩
        exact hnot hc'

theorem channelId_setPhase (s : Starts) (c : ChannelId) (phase : Phase) :
    (s.setPhase c phase).starts.map Start.channelId = s.starts.map Start.channelId := by
  unfold Starts.setPhase
  rw [map_map]
  refine map_congr_left fun u _ => ?_
  dsimp only [Function.comp]
  split
  · next heq => exact heq.symm
  · rfl

section

variable (h : Sound s)
include h

theorem claimed_setPhase (phase : Phase) (hclaimed : c ∈ s.startingChannels) :
    ∀ t ∈ (s.setPhase c phase).starts, t.channelId ∈ s.startingChannels := by
  intro t ht
  obtain ⟨u, hu, rfl⟩ := mem_map.mp ht
  split
  · exact hclaimed
  · exact h.claimed u hu

theorem sendStart {t : Start} (ht : t ∈ s.starts) (hphase : ∀ r, t.phase ≠ .waiting r)
    (conn : ℕ) : Sound (s.sendStart t.channelId conn) := by
  have hfree : ∀ f ∈ s.unanswered, f.channelId ≠ t.channelId :=
    fun f hf heq => hphase f.requestId (h.own f hf t ht heq.symm)
  have hother : ∀ r, (⟨t.channelId, .waiting r⟩ : Start) ∉ s.starts := by
    intro r hr
    have heq := h.start_eq ht hr rfl
    exact hphase r (by rw [heq])
  obtain ⟨hids, hidsLt, hpendingLt⟩ := h.sendSpawn_ids t.channelId conn false
  refine { h with
    alone := h.sendSpawn_alone false fun f hf hk => hfree f hf hk.2
    ids := hids, idsLt := hidsLt, pendingLt := hpendingLt, pending := h.sendSpawn_pending false,
    claimed := ?_, once := ?_, own := ?_, waits := ?_ }
  · exact h.claimed_setPhase _ (h.claimed t ht)
  · exact (channelId_setPhase s t.channelId _).symm ▸ h.once
  · intro f hf t' ht' heq
    obtain ⟨u, hu, rfl⟩ := mem_map.mp ht'
    obtain hf | hf := mem_append.mp hf
    · split at heq
      · exact absurd heq.symm (hfree f hf)
      · next hne =>
        rw [if_neg hne]
        exact h.own f hf u hu heq
    · obtain rfl := mem_singleton.mp hf
      split at heq
      · next hu' => rw [if_pos hu']
      · next hne => exact absurd heq hne
  · intro r k hk ha
    unfold Starts.sendStart Starts.setPhase Starts.sendSpawn at hk
    rw [get_set] at hk
    split at hk
    · next heq =>
      cases hk
      rw [heq]
      exact mem_map.mpr ⟨t, ht, if_pos rfl⟩
    · have hw := h.waits r k hk ha
      refine mem_map.mpr ⟨_, hw, if_neg ?_⟩
      intro heq
      dsimp only at heq
      rw [heq] at hw
      exact hother r hw

theorem endStart (hnone : ∀ r k, s.pendingRequests.get r = some k →
    k.adoption = false → k.channelId ≠ c) : Sound (s.endStart c) := by
  refine { h with claimed := ?_, once := ?_, own := ?_, waits := ?_ }
  · intro t ht
    obtain ⟨hmem, hne⟩ := mem_filter.mp ht
    exact (OrderedSet.mem_delete _ _ _).mpr ⟨h.claimed t hmem, by simpa using hne⟩
  · exact h.once.sublist (filter_sublist.map _)
  · exact fun f hf t ht heq => h.own f hf t (mem_filter.mp ht).1 heq
  · intro r k hk ha
    refine mem_filter.mpr ⟨h.waits r k hk ha, ?_⟩
    simpa using hnone r k hk ha

theorem forgetRequest (r : ℕ) : Sound { s with pendingRequests := s.pendingRequests.delete r } := by
  have hget : ∀ r' k, (s.pendingRequests.delete r).get r' = some k →
      r' ≠ r ∧ s.pendingRequests.get r' = some k := by
    intro r' k hk
    rw [get_delete] at hk
    split at hk
    · cases hk
    · next hne => exact ⟨hne, hk⟩
  exact { h with
    pendingLt := fun r' k hk => h.pendingLt r' k (hget r' k hk).2
    pending := fun r' k hk => h.pending r' k (hget r' k hk).2
    waits := fun r' k hk => h.waits r' k (hget r' k hk).2 }

theorem only_request {r : ℕ} {k : Handler} (hk : s.pendingRequests.get r = some k)
    (ha : k.adoption = false) : ∀ r' k', (s.pendingRequests.delete r).get r' = some k' →
      k'.adoption = false → k'.channelId ≠ k.channelId := by
  intro r' k' hk' ha' heq
  rw [get_delete] at hk'
  split at hk'
  · cases hk'
  · next hne =>
    have hw := h.waits r k hk ha
    have hw' := h.waits r' k' hk' ha'
    have hstart := h.start_eq hw' hw heq
    simp only [Start.mk.injEq, Phase.waiting.injEq] at hstart
    exact hne hstart.2

theorem setDead (c : ChannelId) : Sound (s.setDead c) := by
  unfold Starts.setDead
  split
  · exact { h with }
  · exact h

theorem timedOut (r : ℕ) : Sound (s.timedOut r) := by
  unfold Starts.timedOut
  split
  · exact h
  · next k hk =>
    split
    · exact (h.forgetRequest r).setDead _
    · next ha => exact (h.forgetRequest r).endStart (h.only_request hk (by simpa using ha))

theorem fewer {l : List Frame} (hl : l.Sublist s.unanswered) : Sound { s with unanswered := l } :=
  { h with
    alone := h.alone.sublist (hl.map _)
    ids := h.ids.sublist (hl.map _)
    idsLt := fun f hf => h.idsLt f (hl.subset hf)
    pending := fun r k hk =>
      ⟨(h.pending r k hk).1, fun f hf => (h.pending r k hk).2 f (hl.subset hf)⟩
    own := fun f hf => h.own f (hl.subset hf) }

theorem ask (hfree : ∀ f ∈ s.unanswered, f.channelId ≠ c)
    (hclaimed : c ∈ s.startingChannels) (hnone : ∀ r k, s.pendingRequests.get r = some k →
      k.adoption = false → k.channelId ≠ c) : Sound (s.setPhase c .asking) := by
  refine { h with claimed := ?_, once := ?_, own := ?_, waits := ?_ }
  · exact h.claimed_setPhase _ hclaimed
  · rw [channelId_setPhase]
    exact h.once
  · intro f hf t ht heq
    obtain ⟨u, hu, rfl⟩ := mem_map.mp ht
    split at heq
    · exact absurd heq.symm (hfree f hf)
    · next hne =>
      rw [if_neg hne]
      exact h.own f hf u hu heq
  · intro r k hk ha
    exact mem_map.mpr ⟨_, h.waits r k hk ha, if_neg (hnone r k hk ha)⟩

theorem answered {i : ℕ} {f : Frame} (hf : s.unanswered[i]? = some f) (a : Answer)
    (hostId : HostId) :
    Sound ({ s with unanswered := s.unanswered.eraseIdx i }.answered f a hostId) := by
  have hfewer : Sound { s with unanswered := s.unanswered.eraseIdx i } :=
    h.fewer (eraseIdx_sublist _ _)
  unfold Starts.answered
  split
  · exact hfewer
  · next k hk =>
    obtain ⟨hid, hsame⟩ := h.pending _ k hk
    have hchannel := hsame f (mem_of_getElem? hf) rfl
    have hrest : Sound { s with
        unanswered := s.unanswered.eraseIdx i
        pendingRequests := s.pendingRequests.delete f.requestId
        applied := s.applied ++ [(f, k)] } := by
      refine { hfewer.forgetRequest f.requestId with applied := ?_ }
      intro x hx
      obtain hx | hx := mem_append.mp hx
      · exact h.applied x hx
      · obtain rfl := mem_singleton.mp hx
        exact ⟨hid, hchannel.symm⟩
    cases had : k.adoption with
    | true =>
      cases a with
      | ok => exact hrest
      | err | passwordRequired => exact hrest.setDead _
    | false =>
      have hnone := h.only_request hk had
      have hw := h.waits _ k hk had
      cases a with
      | ok => exact Sound.endStart { hrest with } hnone
      | err => exact hrest.endStart hnone
      | passwordRequired =>
        refine hrest.ask ?_ (h.claimed _ hw) hnone
        -- Another SPAWN naming the terminal would be the one that was just answered.
        intro g hg heq
        have hg' : g ∈ s.unanswered := mem_of_mem_eraseIdx hg
        have hphase := h.own g hg' _ hw heq.symm
        have hreq : f.requestId = g.requestId := Phase.waiting.inj hphase
        have hgf : f = g := inj_on_of_nodup_map h.ids (mem_of_getElem? hf) hg' hreq
        subst hgf
        obtain ⟨j, hne, hj⟩ := mem_eraseIdx_iff_getElem?.mp hg
        have hlt : j < s.unanswered.length := (List.getElem?_eq_some_iff.mp hj).1
        exact hne ((getElem?_inj hlt (h.ids.of_map _)).mp (hj.trans hf.symm))

/-- **One step.** -/
theorem step {e : Step} {s' : Starts} (hap : Apart s e = true)
    (hn : next s e = some s') : Sound s' := by
  cases e with
  | claims c asker =>
    cases hn
    refine h.claim ?_ asker
    simpa [Apart] using hap
  | sends i conn =>
    unfold next at hn
    dsimp only at hn
    split at hn
    · cases hn
    · next c phase hnot ht =>
      cases hn
      refine h.sendStart (mem_of_getElem? ht) ?_ conn
      intro r hr
      exact hnot r hr
    · cases hn
  | ends i =>
    unfold next at hn
    dsimp only at hn
    split at hn
    · cases hn
    · next c phase hnot ht =>
      cases hn
      refine h.endStart ?_
      rintro r k hk ha rfl
      have hw := h.waits r k hk ha
      have heq := h.start_eq hw (mem_of_getElem? ht) rfl
      exact hnot r (congrArg Start.phase heq).symm
    · cases hn
  | adopts hostId conn =>
    cases hn
    have hall : ∀ c ∈ s.adoptable hostId, c ∉ s.startingChannels ∧
        ∀ f ∈ s.unanswered, ¬ (f.conn = conn ∧ f.channelId = c) := by
      intro c hc
      have hone := all_eq_true.mp hap c hc
      simp only [decide_eq_true_eq, all_eq_true] at hone
      exact hone
    refine adoptAll ?_ h (fun c hc => (hall c hc).1) (fun c hc => (hall c hc).2)
    exact s.channels.nodup_keys.sublist (filter_sublist.map _)
  | answers i a hostId =>
    obtain ⟨f, hf, rfl⟩ := Option.map_eq_some_iff.mp hn
    exact h.answered hf a hostId
  | timesOut r =>
    cases hn
    exact h.timedOut r
  | disconnects conn =>
    cases hn
    exact h.fewer filter_sublist
  | learns | forgets =>
    cases hn
    exact { h with }

end

end Sound

theorem Sound.initial : Sound initial where
  alone := nodup_nil
  ids := nodup_nil
  idsLt := fun _ h => absurd h not_mem_nil
  pendingLt := nofun
  pending := nofun
  claimed := fun _ h => absurd h not_mem_nil
  once := nodup_nil
  own := fun _ h => absurd h not_mem_nil
  waits := nofun
  applied := fun _ h => absurd h not_mem_nil

/-- **At most one start of a terminal is in flight.**  No two SPAWNs naming it stand unanswered on
one agent, and an answer is applied to the start that sent what it answers. -/
theorem one_start_in_flight {s : Starts}
    (h : Run next (fun s e => Apart s e = true) initial s) :
    (s.unanswered.map fun f => (f.conn, f.channelId)).Nodup ∧
    ∀ x ∈ s.applied, x.2.requestId = x.1.requestId ∧ x.2.channelId = x.1.channelId := by
  have hsound : Sound s := h.invariant Sound.initial fun _ _ _ hs hap hn => hs.step hap hn
  exact ⟨hsound.alone, hsound.applied⟩

/-- A terminal is re-adopted on a new connection, the agent answers, and a restart follows. -/
theorem one_start_after_adoption : ∃ s,
    Run next (fun s e => Apart s e = true) initial s ∧
    s.unanswered = [⟨1, "t", 7⟩] ∧ s.applied = [(⟨0, "t", 7⟩, ⟨0, "t", true⟩)] ∧
    (s.unanswered.map fun f => (f.conn, f.channelId)).Nodup := by
  have hrun : Run next (fun s e => Apart s e = true) initial _ :=
    .get [.learns "t" ⟨"h", false⟩, .adopts "h" 7, .answers 0 .ok "h", .claims "t" .restart,
      .sends 0 7] (by decide +kernel) (by decide +kernel)
  exact ⟨_, hrun, by decide +kernel, by decide +kernel, (one_start_in_flight hrun).1⟩

/-- A host's terminals are re-adopted on a new connection, and one of them is restarted before the
agent has answered: nothing claimed it, and the restart sends its SPAWN beside the one that stands
unanswered. -/
theorem restart_beside_adoption : ∃ s, Run next free initial s ∧
    s.unanswered = [⟨0, "t", 7⟩, ⟨1, "t", 7⟩] := by
  exact ⟨_, .get_free [.learns "t" ⟨"h", false⟩, .adopts "h" 7, .claims "t" .restart, .sends 0 7]
    (by decide +kernel), by decide +kernel⟩

end Lasterm.Hub.Starting
