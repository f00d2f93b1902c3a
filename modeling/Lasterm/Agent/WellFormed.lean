import Lasterm.Agent.Daemon

/-!
# The bookkeeping of the daemon

Pids and connection numbers are new when they are given out, the current connection of a
hub is one of that hub, and a command sender leads to a reader of the channel it is
registered under.  All of it holds in every state of every run.

## Main results

* `WellFormed.step` — every step keeps it.
-/

namespace Lasterm.Agent

open Option State OrderedMap List

open Function (update update_self update_of_ne)

variable {conn' conn : Connection}

namespace State

/-- The connection a frame of this owner goes to now. -/
def target (s : State) (o : OwnerId) : Option ℕ := s.routes.target s.isOpen o

variable {s : State} {c : ℕ}

theorem target_eq_some {o : OwnerId} :
    s.target o = some c ↔ s.routes.connections.get o = some c ∧ s.isOpen c = true :=
  filter_eq_some_iff

theorem isOpen_eq_true :
    s.isOpen c = true ↔ ∃ conn, s.conns c = some conn ∧ conn.isOpen = true := by
  unfold isOpen
  cases s.conns c <;> simp

theorem conns_setHandler {c' : ℕ} {h : Handler} : (s.setHandler c h).conns c' = some conn' ↔
      ∃ conn, s.conns c' = some conn ∧
        conn' = if c' = c then { conn with handler := h } else conn := by
  unfold setHandler
  by_cases hc : c' = c
  · subst hc
    simp only [update_self, map_eq_some_iff, if_pos]
    exact ⟨fun ⟨conn, h, e⟩ => ⟨conn, h, e.symm⟩, fun ⟨conn, h, e⟩ => ⟨conn, h, e.symm⟩⟩
  · simp only [update_of_ne hc, if_neg hc]
    exact ⟨fun h => ⟨conn', h, rfl⟩, fun ⟨conn, h, e⟩ => e ▸ h⟩

theorem map_conns_setHandler {γ : Type} (f : Connection → γ) (s : State) (c : ℕ) (h : Handler)
    (hf : ∀ conn : Connection, f { conn with handler := h } = f conn) (c' : ℕ) :
    ((s.setHandler c h).conns c').map f = (s.conns c').map f := by
  unfold setHandler
  by_cases hc : c' = c
  · subst hc
    cases s.conns c' <;> simp [hf]
  · simp [update_of_ne hc]

theorem map_conns_setConn {γ : Type} (f : Connection → γ)
    (hc : s.conns c = some conn) (hf : f conn' = f conn) (c' : ℕ) :
    ((s.setConn c conn').conns c').map f = (s.conns c').map f := by
  unfold setConn
  by_cases hcc : c' = c
  · subst hcc
    simp [hc, hf]
  · simp [update_of_ne hcc]

theorem target_setConn (hc : s.conns c = some conn)
    (hopen : conn'.isOpen = conn.isOpen) : (s.setConn c conn').target = s.target := by
  have hisOpen : (s.setConn c conn').isOpen = s.isOpen := by
    funext c'
    have hmap := map_conns_setConn (·.isOpen) hc hopen c'
    have hany : ∀ o : Option Connection, o.any (·.isOpen) = (o.map (·.isOpen)).getD false := by
      intro o
      cases o <;> rfl
    unfold isOpen
    rw [hany, hmap, hany]
  unfold target
  rw [hisOpen]
  rfl

theorem isOpen_setHandler (s : State) (c : ℕ) (h : Handler) :
    (s.setHandler c h).isOpen = s.isOpen := by
  funext c'
  unfold isOpen setHandler
  by_cases hc : c' = c
  · subst hc
    cases s.conns c' <;> simp
  · simp [update_of_ne hc]

end State

/-- The pid of a SPAWN whose command queue is not made yet. -/
def Handler.spawning : Handler → Option ℕ
  | .spawned _ _ pid _ _ => some pid
  | .holding _ _ pid _ _ _ => some pid
  | _ => none

/-- Pids and connection numbers are new when they are given, the registered connection of a
hub is one of that hub, and a command sender leads to a reader of the channel it is under. -/
structure WellFormed (s : State) : Prop where
  reader_lt : ∀ p r, s.readers p = some r → p < s.nextPid
  spawning : ∀ c conn p, s.conns c = some conn → conn.handler.spawning = some p →
    p < s.nextPid ∧ s.readers p = none
  unique : ∀ c c' conn conn' p, s.conns c = some conn → s.conns c' = some conn' →
    conn.handler.spawning = some p → conn'.handler.spawning = some p → c = c'
  conn_lt : ∀ c conn, s.conns c = some conn → c < s.nextConn
  wire_lt : ∀ e ∈ s.wire, e.1 < s.nextConn
  active : ∀ o c, s.routes.connections.get o = some c →
    ∃ conn, s.conns c = some conn ∧ conn.owner = o
  sender : ∀ id p, s.cmdSenders.get id = some p →
    ∃ r, s.readers p = some r ∧ r.channelId = id
  awaiting : ∀ c conn a id p, s.conns c = some conn → conn.handler = .awaiting a id p →
    ∃ r, s.readers p = some r ∧ r.channelId = id

namespace WellFormed

variable {s s' : State} {c p : ℕ}

theorem init : WellFormed init where
  reader_lt _ _ h := nomatch h
  spawning _ _ _ h := nomatch h
  unique _ _ _ _ _ h := nomatch h
  conn_lt _ _ h := nomatch h
  wire_lt _ h := nomatch h
  active _ _ h := nomatch h
  sender _ _ h := nomatch h
  awaiting _ _ _ _ _ h := nomatch h

section

variable (h : WellFormed s)
include h

theorem congr (hreaders : s'.readers = s.readers)
    (hpid : s'.nextPid = s.nextPid) (hconns : s'.conns = s.conns)
    (hconn : s'.nextConn = s.nextConn) (hsenders : s'.cmdSenders = s.cmdSenders)
    (hactive : s'.routes.connections = s.routes.connections)
    (hwire : ∀ e ∈ s'.wire, e.1 < s.nextConn) : WellFormed s' where
  reader_lt := by rw [hreaders, hpid]; exact h.reader_lt
  spawning := by rw [hreaders, hpid, hconns]; exact h.spawning
  unique := by rw [hconns]; exact h.unique
  conn_lt := by rw [hconns, hconn]; exact h.conn_lt
  wire_lt := by rw [hconn]; exact hwire
  active := by rw [hactive, hconns]; exact h.active
  sender := by rw [hsenders, hreaders]; exact h.sender
  awaiting := by rw [hreaders, hconns]; exact h.awaiting

theorem wire_append {l : List (ℕ × Frame)} (hl : ∀ e ∈ l, ∃ conn, s.conns e.1 = some conn) :
    ∀ e ∈ s.wire ++ l, e.1 < s.nextConn := by
  intro e he
  rcases mem_append.mp he with he | he
  · exact h.wire_lt e he
  · obtain ⟨conn, hconn⟩ := hl e he
    exact h.conn_lt _ _ hconn

theorem send (f : Frame) : WellFormed (s.send c f) := by
  unfold State.send
  split
  · next hopen =>
    refine h.congr rfl rfl rfl rfl rfl rfl (h.wire_append ?_)
    intro e he
    obtain rfl : e = (c, f) := by simpa using he
    obtain ⟨conn, hconn, -⟩ := isOpen_eq_true.mp hopen
    exact ⟨conn, hconn⟩
  · exact h

theorem setHandler {hd : Handler} (hspawn : ∀ q, hd.spawning = some q →
      ∃ conn, s.conns c = some conn ∧ conn.handler.spawning = some q)
    (hawait : ∀ a id q, hd = .awaiting a id q → ∃ r, s.readers q = some r ∧ r.channelId = id) :
    WellFormed (s.setHandler c hd) := by
  have hold : ∀ c' conn' q, (s.setHandler c hd).conns c' = some conn' →
      conn'.handler.spawning = some q →
      ∃ conn, s.conns c' = some conn ∧ conn.handler.spawning = some q := by
    intro c' conn' q hconn' hq
    obtain ⟨conn, hconn, rfl⟩ := conns_setHandler.mp hconn'
    by_cases hc : c' = c
    · subst hc
      rw [if_pos rfl] at hq
      exact hspawn q hq
    · rw [if_neg hc] at hq
      exact ⟨conn, hconn, hq⟩
  refine
    { reader_lt := h.reader_lt
      spawning := ?_
      unique := ?_
      conn_lt := ?_
      wire_lt := h.wire_lt
      active := ?_
      sender := h.sender
      awaiting := ?_ }
  · intro c' conn' q hconn' hq
    obtain ⟨conn, hconn, hq⟩ := hold c' conn' q hconn' hq
    exact h.spawning c' conn q hconn hq
  · intro c₁ c₂ conn₁ conn₂ q h₁ h₂ hq₁ hq₂
    obtain ⟨d₁, hd₁, hq₁⟩ := hold c₁ conn₁ q h₁ hq₁
    obtain ⟨d₂, hd₂, hq₂⟩ := hold c₂ conn₂ q h₂ hq₂
    exact h.unique c₁ c₂ d₁ d₂ q hd₁ hd₂ hq₁ hq₂
  · intro c' conn' hconn'
    obtain ⟨conn, hconn, -⟩ := conns_setHandler.mp hconn'
    exact h.conn_lt c' conn hconn
  · intro o c' hc'
    obtain ⟨conn, hconn, howner⟩ := h.active o c' hc'
    refine ⟨_, conns_setHandler.mpr ⟨conn, hconn, rfl⟩, ?_⟩
    split <;> exact howner
  · intro c' conn' a id q hconn' hq
    obtain ⟨conn, hconn, rfl⟩ := conns_setHandler.mp hconn'
    by_cases hc : c' = c
    · rw [if_pos hc] at hq
      exact hawait a id q hq
    · rw [if_neg hc] at hq
      exact h.awaiting c' conn a id q hconn hq

theorem settle {hd : Handler} (hspawn : hd.spawning = none)
    (hawait : ∀ a id q, hd ≠ .awaiting a id q) : WellFormed (s.setHandler c hd) := by
  refine h.setHandler ?_ fun a id q e => absurd e (hawait a id q)
  intro q hq
  rw [hspawn] at hq
  cases hq

theorem idle : WellFormed (s.setHandler c .idle) := h.settle rfl nofun

variable {r : Reader}

theorem setReader {r' : Reader} (hr : s.readers p = some r)
    (hid : r'.channelId = r.channelId) : WellFormed (s.setReader p r') := by
  have hsome : ∀ q r₀, s.readers q = some r₀ →
      ∃ r₁, (s.setReader p r').readers q = some r₁ ∧ r₁.channelId = r₀.channelId := by
    intro q r₀ hq
    by_cases hpq : q = p
    · subst hpq
      obtain rfl : r = r₀ := some_inj.mp (hr.symm.trans hq)
      exact ⟨r', update_self .., hid⟩
    · exact ⟨r₀, (update_of_ne hpq ..).trans hq, rfl⟩
  refine
    { reader_lt := ?_
      spawning := ?_
      unique := h.unique
      conn_lt := h.conn_lt
      wire_lt := h.wire_lt
      active := h.active
      sender := ?_
      awaiting := ?_ }
  · intro q r₀ hq
    by_cases hpq : q = p
    · exact hpq ▸ h.reader_lt p r hr
    · exact h.reader_lt q r₀ ((update_of_ne hpq ..).symm.trans hq)
  · intro c' conn q hconn hq
    obtain ⟨hlt, hnone⟩ := h.spawning c' conn q hconn hq
    refine ⟨hlt, ?_⟩
    have hpq : q ≠ p := by
      rintro rfl
      rw [hr] at hnone
      cases hnone
    exact (update_of_ne hpq ..).trans hnone
  · intro id q hq
    obtain ⟨r₀, hr₀, rfl⟩ := h.sender id q hq
    exact hsome q r₀ hr₀
  · intro c' conn a id q hconn hq
    obtain ⟨r₀, hr₀, rfl⟩ := h.awaiting c' conn a id q hconn hq
    exact hsome q r₀ hr₀

theorem manager (m : PtyManager) : WellFormed { s with manager := m } :=
  h.congr rfl rfl rfl rfl rfl rfl h.wire_lt

theorem emit (e : ChannelEvent Printed Frame) : WellFormed (s.emit e) :=
  h.congr rfl rfl rfl rfl rfl rfl h.wire_lt

theorem command {cmd : ChannelCommand} (hcmd : s.command p cmd = some s') :
    WellFormed s' ∧ s'.conns = s.conns ∧
      ∀ r, s.readers p = some r → ∃ r', s'.readers p = some r' ∧ r'.channelId = r.channelId := by
  obtain ⟨r, hr, rfl⟩ := of_command hcmd
  refine ⟨h.setReader hr rfl, rfl, ?_⟩
  intro r₀ hr₀
  obtain rfl : r = r₀ := some_inj.mp (hr.symm.trans hr₀)
  exact ⟨_, update_self .., rfl⟩

theorem setConn (hc : s.conns c = some conn)
    (howner : conn'.owner = conn.owner) (hhandler : conn'.handler = conn.handler) :
    WellFormed (s.setConn c conn') := by
  have hold : ∀ c' d', (s.setConn c conn').conns c' = some d' →
      ∃ d, s.conns c' = some d ∧ d'.handler = d.handler := by
    intro c' d' hd'
    by_cases hcc : c' = c
    · subst hcc
      have hself : (s.setConn c' conn').conns c' = some conn' := update_self ..
      obtain rfl : conn' = d' := some_inj.mp (hself.symm.trans hd')
      exact ⟨conn, hc, hhandler⟩
    · exact ⟨d', (update_of_ne hcc ..).symm.trans hd', rfl⟩
  refine
    { reader_lt := h.reader_lt
      spawning := ?_
      unique := ?_
      conn_lt := ?_
      wire_lt := h.wire_lt
      active := ?_
      sender := h.sender
      awaiting := ?_ }
  · intro c' d' q hd' hq
    obtain ⟨d, hd, heq⟩ := hold c' d' hd'
    exact h.spawning c' d q hd (heq ▸ hq)
  · intro c₁ c₂ d₁ d₂ q h₁ h₂ hq₁ hq₂
    obtain ⟨e₁, he₁, heq₁⟩ := hold c₁ d₁ h₁
    obtain ⟨e₂, he₂, heq₂⟩ := hold c₂ d₂ h₂
    exact h.unique c₁ c₂ e₁ e₂ q he₁ he₂ (heq₁ ▸ hq₁) (heq₂ ▸ hq₂)
  · intro c' d' hd'
    obtain ⟨d, hd, -⟩ := hold c' d' hd'
    exact h.conn_lt c' d hd
  · intro o c' hc'
    obtain ⟨d, hd, ho⟩ := h.active o c' hc'
    by_cases hcc : c' = c
    · subst hcc
      obtain rfl : conn = d := some_inj.mp (hc.symm.trans hd)
      exact ⟨conn', update_self .., howner.trans ho⟩
    · exact ⟨d, (update_of_ne hcc ..).trans hd, ho⟩
  · intro c' d' a id q hd' hq
    obtain ⟨d, hd, heq⟩ := hold c' d' hd'
    exact h.awaiting c' d a id q hd (heq ▸ hq)

/-- A hub that comes again has its older connection displaced. -/
theorem register (owner : OwnerId) : WellFormed (s.register owner) := by
  -- the displaced connection is only told
  have hfirst : ∀ s₁ : State, WellFormed s₁ → WellFormed
      { s₁ with
        conns := update s₁.conns s₁.nextConn (some ⟨owner, true, .greeting, []⟩)
        nextConn := s₁.nextConn + 1
        wire := s₁.wire ++ (s₁.routes.kept owner).map (s₁.nextConn, ·)
        routes := s₁.routes.registerActive owner s₁.nextConn } := by
    intro s₁ h₁
    have hne : ∀ c conn, s₁.conns c = some conn → c ≠ s₁.nextConn :=
      fun c conn hc => Nat.ne_of_lt (h₁.conn_lt c conn hc)
    have hold : ∀ c conn, update s₁.conns s₁.nextConn (some ⟨owner, true, .greeting, []⟩) c =
        some conn → conn.handler = .greeting ∨ s₁.conns c = some conn := by
      intro c conn hc
      by_cases hcc : c = s₁.nextConn
      · subst hcc
        rw [update_self] at hc
        cases hc
        exact .inl rfl
      · exact .inr ((update_of_ne hcc ..).symm.trans hc)
    refine
      { reader_lt := h₁.reader_lt
        spawning := ?_
        unique := ?_
        conn_lt := ?_
        wire_lt := ?_
        active := ?_
        sender := h₁.sender
        awaiting := ?_ }
    · intro c conn q hc hq
      rcases hold c conn hc with hg | hc
      · rw [hg] at hq
        cases hq
      · exact h₁.spawning c conn q hc hq
    · intro c₁ c₂ d₁ d₂ q hc₁ hc₂ hq₁ hq₂
      rcases hold c₁ d₁ hc₁ with hg | hc₁
      · rw [hg] at hq₁
        cases hq₁
      rcases hold c₂ d₂ hc₂ with hg | hc₂
      · rw [hg] at hq₂
        cases hq₂
      exact h₁.unique c₁ c₂ d₁ d₂ q hc₁ hc₂ hq₁ hq₂
    · intro c conn hc
      by_cases hcc : c = s₁.nextConn
      · exact hcc ▸ Nat.lt_succ_self _
      · exact Nat.lt_succ_of_lt (h₁.conn_lt c conn ((update_of_ne hcc ..).symm.trans hc))
    · intro e he
      rcases mem_append.mp he with he | he
      · exact Nat.lt_succ_of_lt (h₁.wire_lt e he)
      · obtain ⟨f, -, rfl⟩ := mem_map.mp he
        exact Nat.lt_succ_self _
    · intro o c hc
      simp only [HubRoutes.registerActive, get_set] at hc
      split at hc
      · next ho =>
        cases hc
        exact ⟨_, update_self .., ho.symm⟩
      · obtain ⟨conn, hconn, howner⟩ := h₁.active o c hc
        exact ⟨conn, (update_of_ne (hne c conn hconn) ..).trans hconn, howner⟩
    · intro c conn a id q hc hq
      rcases hold c conn hc with hg | hc
      · rw [hg] at hq
        cases hq
      · exact h₁.awaiting c conn a id q hc hq
  unfold State.register
  split
  · have hsend : ∀ old f, (s.send old f).nextConn = s.nextConn := by
      intro old f
      unfold State.send
      split <;> rfl
    next old hold =>
    have := hfirst _ (h.send (c := old) (displaced s.nextConn).reply)
    rw [hsend] at this
    exact this
  · exact hfirst s h

theorem leave (conn : Connection) : WellFormed (s.leave c conn) := by
  have hidle : WellFormed (s.setHandler c .ended) := h.settle rfl nofun
  refine { hidle with active := ?_ }
  intro o c' hc'
  refine hidle.active o c' ?_
  unfold State.leave HubRoutes.clearActiveIfOurs at hc'
  split at hc'
  · rw [get_delete] at hc'
    exact (ite_none_left_eq_some.mp hc').2
  · exact hc'

theorem greet (hc : s.conns c = some conn) : WellFormed (s.greet c conn) := by
  unfold State.greet
  split
  · have hidle : WellFormed (s.setHandler c .idle) := h.idle
    refine hidle.congr rfl rfl rfl rfl rfl rfl ?_
    have hmine : ∃ conn', (s.setHandler c .idle).conns c = some conn' :=
      ⟨_, conns_setHandler.mpr ⟨conn, hc, rfl⟩⟩
    intro e he
    dsimp only at he
    rw [append_assoc] at he
    refine hidle.wire_append ?_ e he
    intro e he
    have : e.1 = c := by
      rcases mem_append.mp he with he | he
      · obtain ⟨x, -, rfl⟩ := mem_map.mp he
        rfl
      · obtain rfl := mem_singleton.mp he
        rfl
    exact this ▸ hmine
  · exact h.leave conn

theorem spawn (owner : OwnerId) (requestId : String) (id : Option String)
    (generated : String) (cols rows : ℕ) (started : Except IoError Unit) :
    WellFormed (s.spawn c owner requestId id generated cols rows started) := by
  unfold State.spawn
  split
  · exact (h.send _).send _
  · next id' manager _ =>
    refine
      { reader_lt := fun p r hr => Nat.lt_succ_of_lt (h.reader_lt p r hr)
        spawning := ?_
        unique := ?_
        conn_lt := ?_
        wire_lt := h.wire_lt
        active := ?_
        sender := h.sender
        awaiting := ?_ }
    · intro c' conn' q hconn' hq
      obtain ⟨d, hd, rfl⟩ := conns_setHandler.mp hconn'
      split at hq
      · cases hq
        refine ⟨Nat.lt_succ_self _, ?_⟩
        cases hr : s.readers s.nextPid with
        | none => exact hr
        | some r => exact absurd (h.reader_lt _ r hr) (Nat.lt_irrefl _)
      · obtain ⟨hlt, hnone⟩ := h.spawning c' d q hd hq
        exact ⟨Nat.lt_succ_of_lt hlt, hnone⟩
    · intro c₁ c₂ d₁ d₂ q h₁ h₂ hq₁ hq₂
      obtain ⟨e₁, he₁, rfl⟩ := conns_setHandler.mp h₁
      obtain ⟨e₂, he₂, rfl⟩ := conns_setHandler.mp h₂
      -- a handler that was spawning before has an older pid than this one
      have holder : ∀ c' d, s.conns c' = some d → d.handler.spawning ≠ some s.nextPid :=
        fun c' d hd hq => Nat.lt_irrefl _ (h.spawning c' d _ hd hq).1
      split at hq₁ <;> split at hq₂
      · next h₁ h₂ => exact h₁.trans h₂.symm
      · cases hq₁
        exact absurd hq₂ (holder c₂ e₂ he₂)
      · cases hq₂
        exact absurd hq₁ (holder c₁ e₁ he₁)
      · exact h.unique c₁ c₂ e₁ e₂ q he₁ he₂ hq₁ hq₂
    · intro c' conn' hconn'
      obtain ⟨d, hd, -⟩ := conns_setHandler.mp hconn'
      exact h.conn_lt c' d hd
    · intro o c' hc'
      obtain ⟨d, hd, howner⟩ := h.active o c' hc'
      refine ⟨_, conns_setHandler.mpr ⟨d, hd, rfl⟩, ?_⟩
      split <;> exact howner
    · intro c' conn' a id q hconn' hq
      obtain ⟨d, hd, rfl⟩ := conns_setHandler.mp hconn'
      split at hq
      · cases hq
      · exact h.awaiting c' d a id q hd hq

/-- The terminal of a request gets its reader. -/
theorem list (hc : s.conns c = some conn) {requestId id : String} {pid source cols rows : ℕ}
    (hh : conn.handler = .holding requestId id pid source cols rows) :
    WellFormed (s.list c conn.owner requestId id pid source cols rows) := by
  have hpid : conn.handler.spawning = some pid := by rw [hh]; rfl
  obtain ⟨hlt, hnone⟩ := h.spawning c conn pid hc hpid
  have hne : ∀ q r, s.readers q = some r → q ≠ pid := by
    rintro q r hr rfl
    rw [hr] at hnone
    cases hnone
  refine
    { reader_lt := ?_
      spawning := ?_
      unique := ?_
      conn_lt := ?_
      wire_lt := h.wire_lt
      active := ?_
      sender := ?_
      awaiting := ?_ }
  · intro q r hr
    by_cases hq : q = pid
    · exact hq ▸ hlt
    · exact h.reader_lt q r ((update_of_ne hq ..).symm.trans hr)
  · intro c' conn' q hconn' hq
    obtain ⟨d, hd, rfl⟩ := conns_setHandler.mp hconn'
    split at hq
    · cases hq
    · next hcc =>
      obtain ⟨hlt', hnone'⟩ := h.spawning c' d q hd hq
      refine ⟨hlt', ?_⟩
      -- another handler spawns another pid
      have hqp : q ≠ pid := by
        rintro rfl
        exact hcc (h.unique c' c d conn q hd hc hq hpid)
      exact (update_of_ne hqp ..).trans hnone'
  · intro c₁ c₂ d₁ d₂ q h₁ h₂ hq₁ hq₂
    obtain ⟨e₁, he₁, rfl⟩ := conns_setHandler.mp h₁
    obtain ⟨e₂, he₂, rfl⟩ := conns_setHandler.mp h₂
    split at hq₁
    · cases hq₁
    split at hq₂
    · cases hq₂
    exact h.unique c₁ c₂ e₁ e₂ q he₁ he₂ hq₁ hq₂
  · intro c' conn' hconn'
    obtain ⟨d, hd, -⟩ := conns_setHandler.mp hconn'
    exact h.conn_lt c' d hd
  · intro o c' hc'
    obtain ⟨d, hd, howner⟩ := h.active o c' hc'
    refine ⟨_, conns_setHandler.mpr ⟨d, hd, rfl⟩, ?_⟩
    split <;> exact howner
  · intro id' q hq
    simp only [State.list, State.setHandler, get_set] at hq
    split at hq
    · next hid =>
      cases hq
      exact ⟨_, update_self .., hid.symm⟩
    · obtain ⟨r, hr, hrid⟩ := h.sender id' q hq
      exact ⟨r, (update_of_ne (hne q r hr) ..).trans hr, hrid⟩
  · intro c' conn' a id' q hconn' hq
    obtain ⟨d, hd, rfl⟩ := conns_setHandler.mp hconn'
    split at hq
    · cases hq
    · obtain ⟨r, hr, hrid⟩ := h.awaiting c' d a id' q hd hq
      exact ⟨r, (update_of_ne (hne q r hr) ..).trans hr, hrid⟩

theorem unlist (hr : s.readers p = some r) : WellFormed (s.unlist p r) := by
  have hset : WellFormed (s.setReader p { r with stage := .unlisted }) := h.setReader hr rfl
  refine { hset with sender := ?_ }
  intro id q hq
  refine hset.sender id q ?_
  unfold State.unlist at hq
  split at hq
  · rw [get_delete] at hq
    exact (ite_none_left_eq_some.mp hq).2
  · exact hq

theorem announce (requestId id : String) (pid : ℕ) :
    WellFormed (s.announce c requestId id pid) := by
  have hidle : WellFormed ((s.send c ⟨.spawnOk requestId id, some pid⟩).setHandler c .idle) :=
    (h.send _).idle
  unfold State.announce
  dsimp only
  split
  · next r hr => exact hidle.setReader hr rfl
  · exact hidle

end

theorem sends : Sends fun s s' => WellFormed s → WellFormed s' :=
  ⟨fun _ h => h, fun _ _ _ _ h => h.send _⟩

/-- What a message makes the daemon do keeps it. -/
theorem handling (o : OwnerId) : Handling o fun s s' => WellFormed s → WellFormed s' where
  toSends := sends
  trans h h' := h' ∘ h
  resized _ _ _ _ _ h := h.settle rfl nofun
  visible _ _ _ _ h := h.settle rfl nofun
  modify _ _ h := h.manager _
  remove _ h := h.manager _
  shutdown _ h := h.manager _

section

variable (h : WellFormed s)
include h

theorem asks {a : Ask} {id : String} (hp : s.cmdSenders.get id = some p)
    {cmd : ChannelCommand} (hcmd : s.command p cmd = some s') :
    WellFormed (s'.setHandler c (.awaiting a id p)) := by
  obtain ⟨hs', -, hreaders⟩ := h.command hcmd
  refine hs'.setHandler nofun ?_
  rintro a' id' q ⟨⟩
  obtain ⟨r, hr, hid⟩ := h.sender id p hp
  obtain ⟨r', hr', hid'⟩ := hreaders r hr
  exact ⟨r', hr', hid'.trans hid⟩

theorem lookUp (a : Ask) (id : String) : WellFormed (s.lookUp c a id) := by
  unfold State.lookUp
  split
  · exact (sends.notFound s c id a h).idle
  · next p hp =>
    split
    · split
      · next s' hcmd => exact (h.command hcmd).1.idle
      · exact (sends.readerGone s c id _ h).idle
    · split
      · next s' hcmd => exact h.asks hp hcmd
      · exact (sends.readerGone s c id _ h).idle

theorem tellSize (id : String) (cols rows : ℕ) : WellFormed (s.tellSize c id cols rows) := by
  unfold State.tellSize
  cases hcmd : (s.cmdSenders.get id).bind fun p => s.command p (.resize cols rows) with
  | none => exact h.idle
  | some s' =>
    obtain ⟨p, -, hcmd⟩ := bind_eq_some_iff.mp hcmd
    exact (h.command hcmd).1.idle

theorem answer (a : Ask) (id : String) (q : ℕ) (snapshot : Mirror) :
    WellFormed (s.answer c a id q snapshot) := by
  have hidle : WellFormed (s.setHandler c .idle) := h.idle
  cases a with
  | snapshotReq | attach => exact hidle.send _
  | cwdQuery => exact hidle

theorem takeReader (hc : s.conns c = some conn) {requestId id : String} {pid cols rows : ℕ}
    (hh : conn.handler = .spawned requestId id pid cols rows) :
    WellFormed (s.takeReader c requestId id pid cols rows) := by
  unfold State.takeReader
  split
  · refine h.setHandler ?_ nofun
    rintro q ⟨rfl⟩
    exact ⟨conn, hc, by rw [hh]; rfl⟩
  · exact (h.send _).idle

theorem resume (hc : s.conns c = some conn) (hs' : s.resume c conn = some s') : WellFormed s' := by
  unfold State.resume at hs'
  split at hs'
  · cases hs'
    exact h.greet hc
  · cases hs'
    exact h.tellSize ..
  · cases hs'
    exact h.lookUp ..
  · obtain ⟨-, ⟨rfl⟩⟩ := ite_none_left_eq_some.mp hs'
    exact (sends.readerGone s c _ _ h).idle
  · cases hs'
    exact h.answer ..
  · next hh =>
    cases hs'
    exact h.takeReader hc hh
  · next hh =>
    cases hs'
    exact h.list hc hh
  · cases hs'
    exact h.announce ..
  · cases hs'
  · cases hs'

theorem notices (r : Reader) (ns : List Notice) :
    WellFormed (ns.foldl (fun s n => s.sendChannelEvent p r (n.msg r.channelId)) s) := by
  induction ns generalizing s with
  | nil => exact h
  | cons n ns ih => exact ih (h.emit _)

theorem read (hr : s.readers p = some r) (raw : List UInt8)
    (ns : List Notice) : WellFormed (s.read p r raw ns) := by
  unfold State.read
  dsimp only
  split
  · exact h.setReader hr rfl
  · exact ((h.setReader hr (by rfl)).emit _).notices _ ns

theorem serve (hr : s.readers p = some r) (hs' : s.serve p r = some s') : WellFormed s' := by
  unfold State.serve at hs'
  split at hs'
  · cases hs'
  · next c rest _ =>
    have hset : WellFormed (s.setReader p { r with commands := rest }) := h.setReader hr rfl
    dsimp only at hs'
    split at hs'
    · split at hs'
      · cases hs'
        exact hset.settle rfl nofun
      · cases hs'
        exact hset
    · cases hs'
      exact hset
  · cases hs'
    exact h.setReader hr rfl
  · cases hs'
    exact h.setReader hr rfl

theorem route (len : Frame → ℕ) (e : BatchedEvent Printed Frame)
    (rest : List (BatchedEvent Printed Frame)) : WellFormed (s.route len e rest) := by
  unfold State.route HubRoutes.route
  dsimp only
  split
  · next c hc =>
    refine h.congr rfl rfl rfl rfl rfl rfl (h.wire_append ?_)
    intro e he
    obtain rfl : e = (c, _) := by simpa using he
    obtain ⟨conn, hconn, -⟩ := isOpen_eq_true.mp (target_eq_some.mp hc).2
    exact ⟨conn, hconn⟩
  · refine h.congr rfl rfl rfl rfl rfl rfl ?_
    simpa using h.wire_lt

end

theorem readerAt_eq {stage : Stage} (hr : s.readerAt p stage = some r) : s.readers p = some r :=
  (filter_eq_some_iff.mp hr).1

theorem ready_eq (hc : s.ready c = some conn) : s.conns c = some conn :=
  (filter_eq_some_iff.mp hc).1

/-- Every step keeps it. -/
theorem step (h : WellFormed s) {len : Frame → ℕ} {a : Step} (hs' : step len s a = some s') :
    WellFormed s' := by
  cases leads_of_step hs' with
  | register => exact h.register _
  | writerEnds hc | hubReads hc => exact h.setConn hc rfl rfl
  | connectionEnds => exact h.leave _
  | plain => exact sends.plain _ _ _ h
  | input => exact (handling _).input _ _ _ _ h
  | resize => exact (handling _).resize _ _ _ _ _ h
  | destroy => exact (handling _).destroy _ _ _ h
  | ask => exact (handling _).ask _ _ _ _ h
  | spawn => exact h.spawn ..
  | stop => exact (handling _).stop _ _ _ h
  | resume hc hs' => exact h.resume hc hs'
  | read hr => exact h.read (readerAt_eq hr) ..
  | notice => exact h.emit _
  | serve hr hs' => exact h.serve (readerAt_eq hr) hs'
  | eof hr => exact (h.setReader (readerAt_eq hr) (by rfl)).emit _
  | closeQueue hr => exact h.setReader (readerAt_eq hr) rfl
  | unlist hr => exact h.unlist (readerAt_eq hr)
  | takeOwn hr => exact (h.setReader (readerAt_eq hr) (by rfl)).manager _
  | exit hr => exact (h.setReader hr (by rfl)).emit _
  | writeInput | shutdown | sweep => exact h.manager _
  | batch | tick => exact h.congr rfl rfl rfl rfl rfl rfl h.wire_lt
  | route => exact h.route ..

end WellFormed

end Lasterm.Agent
