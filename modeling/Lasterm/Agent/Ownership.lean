import Lasterm.Agent.WellFormed

/-!
# Whose terminal is whose

Several hubs share one agent.  A channel has an owner in the manager, a reader keeps the
owner it was started for, and a request carries the hub of its connection.  `owned_by` is
asked under the manager's lock; the command sender of the channel is looked up, and the
terminal's reader of a SPAWN taken, after it was let go.  In between the channel may end and
its id be taken by another hub, and nothing compares the owners again.

## Main results

* `Owned.step` — under the condition every step keeps this.
-/

namespace Lasterm.Agent.Isolation

open Function (update update_self update_of_ne)

/-- The hub a process was started for. -/
def holder (s : State) (p : ℕ) : Option OwnerId := (s.workloads p).map (·.owner)

/-- Where a handler goes on after it let the manager's lock go, the id has not passed to
another hub: the sender under it leads to a reader of the same hub, and the channel under it,
whose reader a SPAWN takes, is the same hub's. -/
def Orderly (s : State) : Step → Prop
  | .resume c =>
    match s.conns c with
    | some ⟨owner, _, .resized id _ _, _⟩ =>
      ∀ r, (s.cmdSenders.get id).bind s.readers = some r → r.owner = owner
    | some ⟨owner, _, .visible _ id, _⟩ =>
      ∀ r, (s.cmdSenders.get id).bind s.readers = some r → r.owner = owner
    | some ⟨owner, _, .spawned _ id _ _ _, _⟩ =>
      ∀ ch, s.manager.channels.get id = some ch → ch.owner = owner
    | _ => True
  | _ => True

local instance decidableForallSome {α : Type} (o : Option α) (P : α → Prop)
    [∀ a, Decidable (P a)] : Decidable (∀ a, o = some a → P a) :=
  match o with
  | none => .isTrue nofun
  | some a => decidable_of_iff (P a) ⟨fun h _ e => Option.some_inj.mp e ▸ h, fun h => h a rfl⟩

instance (s : State) (a : Step) : Decidable (Orderly s a) := by
  apply Step.casesOn (motive := fun a => Decidable (Orderly s a)) a <;> intros <;>
    dsimp only [Orderly]
  case resume c =>
    exact match s.conns c with
      | none => by infer_instance
      | some ⟨_, _, handler, _⟩ => by
        refine Handler.casesOn handler ?_ ?_ ?_ ?_ ?_ ?_ ?_ ?_ ?_ ?_ <;> intros <;> infer_instance
  all_goals infer_instance

/-- What the handler of a connection of hub `o` holds of a process is that hub's. -/
def HandlerOwned (s : State) (o : OwnerId) : Handler → Prop
  | .awaiting _ _ p => ∃ r, s.readers p = some r ∧ r.owner = o
  | .answered _ _ p m => holder s p = some o ∧ ∀ b ∈ m.drawn, holder s b.workload = some o
  | .spawned _ _ pid _ _ => holder s pid = some o
  | .holding _ _ pid source _ _ => holder s pid = some o ∧ holder s source = some o
  | .listed _ _ pid => holder s pid = some o
  | _ => True

/-- A handler that holds nothing of a process. -/
def emptyHanded : Handler → Bool
  | .greeting | .idle | .resized .. | .visible .. | .ended => true
  | _ => false

/-- Everything the daemon holds of a process is under the hub it was started for. -/
structure Owned (s : State) : Prop where
  workload_lt : ∀ p w, s.workloads p = some w → p < s.nextPid
  channel : ∀ id ch, s.manager.channels.get id = some ch →
    holder s ch.pid = some ch.owner ∧ ch.seq = 0
  reader : ∀ p r, s.readers p = some r → holder s p = some r.owner ∧
    holder s r.source = some r.owner ∧ ∀ b ∈ r.mirror.drawn, holder s b.workload = some r.owner
  handler : ∀ c conn, s.conns c = some conn → HandlerOwned s conn.owner conn.handler

variable {s : State} {hd : Handler}

theorem HandlerOwned.mono {s' : State} {o : OwnerId} (h : HandlerOwned s o hd)
    (hholder : ∀ p o, holder s p = some o → holder s' p = some o)
    (hreaders : ∀ p r, s.readers p = some r → ∃ r', s'.readers p = some r' ∧ r'.owner = r.owner) :
    HandlerOwned s' o hd := by
  cases hd with
  | awaiting a id p =>
    obtain ⟨r, hr, rfl⟩ := h
    exact hreaders p r hr
  | answered a id p m => exact ⟨hholder _ _ h.1, fun b hb => hholder _ _ (h.2 b hb)⟩
  | spawned | listed => exact hholder _ _ h
  | holding requestId id pid source cols rows => exact ⟨hholder _ _ h.1, hholder _ _ h.2⟩
  | _ => trivial

theorem HandlerOwned.of_emptyHanded {o : OwnerId}
    (h : emptyHanded hd = true) : HandlerOwned s o hd := by
  cases hd <;> trivial

variable {r : Reader}

theorem stays_setReader {p : ℕ} {r' : Reader} (hr : s.readers p = some r)
    (howner : r'.owner = r.owner) (q : ℕ) (r₀ : Reader) (hq : s.readers q = some r₀) :
    ∃ r₁, (s.setReader p r').readers q = some r₁ ∧ r₁.owner = r₀.owner := by
  by_cases hqp : q = p
  · subst hqp
    obtain rfl : r = r₀ := Option.some_inj.mp (hr.symm.trans hq)
    exact ⟨r', update_self .., howner⟩
  · exact ⟨r₀, (update_of_ne hqp ..).trans hq, rfl⟩

/-! ### Steps that bring nothing new -/

/-- What the daemon holds after a step it held before, for the same hub. -/
structure Keeps (s s' : State) : Prop where
  workloads : s'.workloads = s.workloads
  nextPid : s'.nextPid = s.nextPid
  channels : ∀ id ch', s'.manager.channels.get id = some ch' →
    ∃ ch, s.manager.channels.get id = some ch ∧ ch'.pid = ch.pid ∧ ch'.owner = ch.owner ∧
      ch'.seq = ch.seq
  readers : ∀ p r', s'.readers p = some r' → ∃ r, s.readers p = some r ∧ r'.owner = r.owner ∧
    r'.source = r.source ∧ r'.mirror.drawn = r.mirror.drawn
  stays : ∀ p r, s.readers p = some r → ∃ r', s'.readers p = some r' ∧ r'.owner = r.owner
  conns : ∀ c conn', s'.conns c = some conn' → emptyHanded conn'.handler = true ∨
    ∃ conn, s.conns c = some conn ∧ conn'.owner = conn.owner ∧ conn'.handler = conn.handler

variable {conn : Connection}

namespace Keeps

variable {s s' s'' : State} {c p : ℕ}

theorem congr (hworkloads : s'.workloads = s.workloads) (hpid : s'.nextPid = s.nextPid)
    (hmanager : s'.manager.channels = s.manager.channels) (hreaders : s'.readers = s.readers)
    (hconns : s'.conns = s.conns) : Keeps s s' where
  workloads := hworkloads
  nextPid := hpid
  channels _ ch' h := ⟨ch', hmanager ▸ h, rfl, rfl, rfl⟩
  readers _ r' h := ⟨r', hreaders ▸ h, rfl, rfl, rfl⟩
  stays _ r h := ⟨r, hreaders ▸ h, rfl⟩
  conns _ conn' h := .inr ⟨conn', hconns ▸ h, rfl, rfl⟩

theorem refl (s : State) : Keeps s s := .congr rfl rfl rfl rfl rfl

theorem trans (h : Keeps s s') (h' : Keeps s' s'') : Keeps s s'' where
  workloads := h'.workloads.trans h.workloads
  nextPid := h'.nextPid.trans h.nextPid
  channels id ch₂ h₂ := by
    obtain ⟨ch₁, h₁, hpid₁, howner₁, hseq₁⟩ := h'.channels id ch₂ h₂
    obtain ⟨ch, h₀, hpid, howner, hseq⟩ := h.channels id ch₁ h₁
    exact ⟨ch, h₀, hpid₁.trans hpid, howner₁.trans howner, hseq₁.trans hseq⟩
  readers p r₂ h₂ := by
    obtain ⟨r₁, h₁, howner₁, hsource₁, hdrawn₁⟩ := h'.readers p r₂ h₂
    obtain ⟨r, h₀, howner, hsource, hdrawn⟩ := h.readers p r₁ h₁
    exact ⟨r, h₀, howner₁.trans howner, hsource₁.trans hsource, hdrawn₁.trans hdrawn⟩
  stays p r hr := by
    obtain ⟨r₁, h₁, howner₁⟩ := h.stays p r hr
    obtain ⟨r₂, h₂, howner₂⟩ := h'.stays p r₁ h₁
    exact ⟨r₂, h₂, howner₂.trans howner₁⟩
  conns c conn₂ h₂ := by
    rcases h'.conns c conn₂ h₂ with hempty | ⟨conn₁, h₁, howner₁, hhandler₁⟩
    · exact .inl hempty
    rcases h.conns c conn₁ h₁ with hempty | ⟨conn, h₀, howner, hhandler⟩
    · exact .inl (hhandler₁ ▸ hempty)
    · exact .inr ⟨conn, h₀, howner₁.trans howner, hhandler₁.trans hhandler⟩

theorem send (s : State) (c : ℕ) (f : Frame) : Keeps s (s.send c f) := by
  unfold State.send
  split <;> exact .congr rfl rfl rfl rfl rfl

theorem setHandler (s : State) (c : ℕ) (hempty : emptyHanded hd = true) :
    Keeps s (s.setHandler c hd) := by
  refine { refl s with conns := ?_ }
  intro c' conn' h
  obtain ⟨conn, hconn, rfl⟩ := State.conns_setHandler.mp h
  by_cases hcc : c' = c
  · rw [if_pos hcc]
    exact .inl hempty
  · rw [if_neg hcc]
    exact .inr ⟨conn, hconn, rfl, rfl⟩

theorem idle (h : Keeps s s') : Keeps s (s'.setHandler c .idle) := h.trans (.setHandler s' c rfl)

theorem setReader {r' : Reader} (hr : s.readers p = some r) (howner : r'.owner = r.owner)
    (hsource : r'.source = r.source) (hdrawn : r'.mirror.drawn = r.mirror.drawn) :
    Keeps s (s.setReader p r') := by
  refine { refl s with readers := ?_, stays := stays_setReader hr howner }
  intro q r₁ h₁
  by_cases hq : q = p
  · subst hq
    obtain ⟨rfl⟩ := (update_self ..).symm.trans h₁
    exact ⟨r, hr, howner, hsource, hdrawn⟩
  · exact ⟨r₁, (update_of_ne hq ..).symm.trans h₁, rfl, rfl, rfl⟩

theorem command {cmd : ChannelCommand} (hcmd : s.command p cmd = some s') : Keeps s s' := by
  obtain ⟨r, hr, rfl⟩ := State.of_command hcmd
  exact .setReader hr rfl rfl rfl

theorem modify (s : State) (id : String) {f : PtyChannelState → PtyChannelState}
    (hf : ∀ ch, (f ch).pid = ch.pid ∧ (f ch).owner = ch.owner ∧ (f ch).seq = ch.seq) :
    Keeps s { s with manager := s.manager.modify id f } := by
  refine { refl s with channels := ?_ }
  intro id' ch' h
  unfold PtyManager.modify at h
  split at h
  · next ch hch =>
    rw [OrderedMap.get_set] at h
    split at h
    · next hid =>
      subst hid
      cases h
      exact ⟨ch, hch, hf ch⟩
    · exact ⟨ch', h, rfl, rfl, rfl⟩
  · exact ⟨ch', h, rfl, rfl, rfl⟩

theorem remove (s : State) (id : String) :
    Keeps s { s with manager := s.manager.remove id } := by
  refine { refl s with channels := ?_ }
  intro id' ch' h
  unfold PtyManager.remove at h
  rw [OrderedMap.get_delete] at h
  exact ⟨ch', (Option.ite_none_left_eq_some.mp h).2, rfl, rfl, rfl⟩

theorem sends : Sends Keeps := ⟨refl, fun s c _ _ => send s c _⟩

theorem handling (o : OwnerId) : Handling o Keeps where
  toSends := sends
  trans := trans
  resized s c _ _ _ := .setHandler s c rfl
  visible s c _ _ := .setHandler s c rfl
  modify _ hf := .modify _ _ hf
  remove _ := .remove ..
  shutdown _ := .congr rfl rfl rfl rfl rfl

theorem asking : Asking Keeps where
  toSends := sends
  trans := trans
  command := command
  idle s c := .setHandler s c rfl

theorem displace (s : State) (owner : OwnerId) : Keeps s
    (match s.routes.connections.get owner with
      | some old => s.send old (displaced s.nextConn).reply
      | none => s) := by
  split
  · exact .send ..
  · exact .refl s

theorem register (s : State) (owner : OwnerId) : Keeps s (s.register owner) := by
  refine (displace s owner).trans ?_
  refine { refl _ with conns := ?_ }
  intro c conn' h
  by_cases hc : c = s.nextConn
  · subst hc
    obtain ⟨rfl⟩ := (update_self ..).symm.trans h
    exact .inl rfl
  · exact .inr ⟨conn', (update_of_ne hc ..).symm.trans h, rfl, rfl⟩

theorem setConn {conn' : Connection} (hc : s.conns c = some conn)
    (howner : conn'.owner = conn.owner) (hhandler : conn'.handler = conn.handler) :
    Keeps s (s.setConn c conn') := by
  refine { refl s with conns := ?_ }
  intro c' conn₁ h
  by_cases hcc : c' = c
  · subst hcc
    obtain ⟨rfl⟩ := (update_self ..).symm.trans h
    exact .inr ⟨conn, hc, howner, hhandler⟩
  · exact .inr ⟨conn₁, (update_of_ne hcc ..).symm.trans h, rfl, rfl⟩

theorem greet (s : State) (c : ℕ) (conn : Connection) : Keeps s (s.greet c conn) := by
  unfold State.greet
  split <;> exact (setHandler s c (by rfl)).trans (.congr rfl rfl rfl rfl rfl)

theorem answer (s : State) (c : ℕ) (a : Ask) (id : String) (p : ℕ) (m : Mirror) :
    Keeps s (s.answer c a id p m) := by
  have hidle : Keeps s (s.setHandler c .idle) := (refl s).idle
  cases a with
  | snapshotReq | attach => exact hidle.trans (.send ..)
  | cwdQuery => exact hidle

theorem announce (s : State) (c : ℕ) (requestId id : String) (pid : ℕ) :
    Keeps s (s.announce c requestId id pid) := by
  have hidle : Keeps s ((s.send c ⟨.spawnOk requestId id, some pid⟩).setHandler c .idle) :=
    (send ..).idle
  unfold State.announce
  dsimp only
  split
  · next r hr => exact hidle.trans (.setReader hr rfl rfl rfl)
  · exact hidle

theorem emit (s : State) (e : ChannelEvent Printed Frame) : Keeps s (s.emit e) :=
  .congr rfl rfl rfl rfl rfl

theorem notices (s : State) (r : Reader) (ns : List Notice) :
    Keeps s (ns.foldl (fun s n => s.sendChannelEvent p r (n.msg r.channelId)) s) := by
  induction ns generalizing s with
  | nil => exact .refl s
  | cons n ns ih => exact (emit s _).trans (ih _)

theorem takeOwn (hr : s.readers p = some r) : Keeps s (s.takeOwn p r) := by
  unfold State.takeOwn
  dsimp only
  have htaken : (s.manager.takeOwnWorkload r.channelId p).2 = s.manager ∨
      (s.manager.takeOwnWorkload r.channelId p).2 = s.manager.remove r.channelId := by
    unfold PtyManager.takeOwnWorkload
    split
    · exact .inl rfl
    · split
      · exact .inl rfl
      · exact .inr rfl
  rcases htaken with htaken | htaken
  · rw [htaken]
    exact .setReader hr rfl rfl rfl
  · rw [htaken]
    exact (setReader hr (by rfl) (by rfl) (by rfl)).trans (.remove _ _)

theorem route (len : Frame → ℕ) (s : State) (e : BatchedEvent Printed Frame)
    (rest : List (BatchedEvent Printed Frame)) : Keeps s (s.route len e rest) :=
  .congr rfl rfl rfl rfl rfl

end Keeps

/-- Everything is owned after a step, and the processes are whose they were. -/
structure Grows (s s' : State) : Prop where
  owned : Owned s'
  holder : ∀ p o, holder s p = some o → holder s' p = some o

theorem Grows.trans {s' s'' : State} (h : Grows s s') (h' : Grows s' s'') : Grows s s'' :=
  ⟨h'.owned, fun p o ho => h'.holder p o (h.holder p o ho)⟩

namespace Owned

variable {s s' : State} {c p : ℕ}

theorem init : Owned init where
  workload_lt _ _ h := nomatch h
  channel _ _ h := nomatch h
  reader _ _ h := nomatch h
  handler _ _ h := nomatch h

section

variable (h : Owned s)
include h

/-- A step that brings nothing new. -/
theorem keeps (hk : Keeps s s') : Grows s s' := by
  have hholder : holder s' = holder s := by
    unfold holder
    rw [hk.workloads]
  refine ⟨⟨?_, ?_, ?_, ?_⟩, fun p o ho => by rwa [hholder]⟩
  · rw [hk.workloads, hk.nextPid]
    exact h.workload_lt
  · intro id ch' hch'
    obtain ⟨ch, hch, hpid, howner, hseq⟩ := hk.channels id ch' hch'
    rw [hholder, hpid, howner, hseq]
    exact h.channel id ch hch
  · intro p r' hr'
    obtain ⟨r, hr, howner, hsource, hdrawn⟩ := hk.readers p r' hr'
    rw [hholder, howner, hsource, hdrawn]
    exact h.reader p r hr
  · intro c conn' hc'
    rcases hk.conns c conn' hc' with hempty | ⟨conn, hc, howner, hhandler⟩
    · exact .of_emptyHanded hempty
    · rw [howner, hhandler]
      exact (h.handler c conn hc).mono (fun _ _ ho => by rwa [hholder]) hk.stays

theorem setHandler (hown : ∀ conn, s.conns c = some conn → HandlerOwned s conn.owner hd) :
    Grows s (s.setHandler c hd) := by
  refine ⟨{ h with handler := ?_ }, fun _ _ ho => ho⟩
  intro c' conn' hc'
  obtain ⟨conn, hc, rfl⟩ := State.conns_setHandler.mp hc'
  by_cases hcc : c' = c
  · subst hcc
    rw [if_pos rfl]
    exact hown conn hc
  · rw [if_neg hcc]
    exact h.handler c' conn hc

section

variable (hc : s.conns c = some conn)
include hc

theorem lookUp {a : Ask} {id : String}
    (hok : ∀ r, (s.cmdSenders.get id).bind s.readers = some r → r.owner = conn.owner) :
    Grows s (s.lookUp c a id) := by
  unfold State.lookUp
  split
  · exact h.keeps (Keeps.sends.notFound s c id a).idle
  · next p hp =>
    split
    · split
      · next s' hcmd => exact h.keeps (Keeps.command hcmd).idle
      · exact h.keeps (Keeps.sends.readerGone s c id _).idle
    · split
      · next s' hcmd =>
        have hasked := h.keeps (.command hcmd)
        refine hasked.trans (hasked.owned.setHandler ?_)
        intro conn' hconn'
        obtain ⟨r, hr, rfl⟩ := State.of_command hcmd
        obtain rfl : conn = conn' := Option.some_inj.mp (hc.symm.trans hconn')
        refine ⟨_, update_self .., ?_⟩
        refine hok r ?_
        rw [hp]
        exact hr
      · exact h.keeps (Keeps.sends.readerGone s c id _).idle

theorem takeReader {requestId id : String} {pid cols rows : ℕ}
    (hh : conn.handler = .spawned requestId id pid cols rows)
    (hok : ∀ ch, s.manager.channels.get id = some ch → ch.owner = conn.owner) :
    Grows s (s.takeReader c requestId id pid cols rows) := by
  unfold State.takeReader
  split
  · next source hsource =>
    obtain ⟨ch, hch, rfl⟩ := Option.map_eq_some_iff.mp hsource
    refine h.setHandler ?_
    intro conn' hconn'
    obtain rfl : conn = conn' := Option.some_inj.mp (hc.symm.trans hconn')
    have hspawned := h.handler c conn hc
    rw [hh] at hspawned
    refine ⟨hspawned, ?_⟩
    rw [← hok ch hch]
    exact (h.channel id ch hch).1
  · exact h.keeps (Keeps.send ..).idle

theorem list {requestId id : String} {pid source cols rows : ℕ}
    (hh : conn.handler = .holding requestId id pid source cols rows)
    (hnew : s.readers pid = none) :
    Grows s (s.list c conn.owner requestId id pid source cols rows) := by
  have hholding := h.handler c conn hc
  rw [hh] at hholding
  have hlisted : Owned { s with
      cmdSenders := s.cmdSenders.set id pid
      readers := update s.readers pid
        (some ⟨conn.owner, id, source, .starting, 0, ⟨cols, rows, []⟩, []⟩) } := by
    refine { h with reader := ?_, handler := ?_ }
    · intro p r hr
      by_cases hp : p = pid
      · subst hp
        obtain ⟨rfl⟩ := (update_self ..).symm.trans hr
        exact ⟨hholding.1, hholding.2, nofun⟩
      · exact h.reader p r ((update_of_ne hp ..).symm.trans hr)
    · intro c' conn' hc'
      refine (h.handler c' conn' hc').mono (fun _ _ ho => ho) ?_
      intro p r hr
      have hp : p ≠ pid := by
        rintro rfl
        exact nomatch hnew.symm.trans hr
      exact ⟨r, (update_of_ne hp ..).trans hr, rfl⟩
  refine Grows.trans ⟨hlisted, fun _ _ ho => ho⟩ (hlisted.setHandler ?_)
  intro conn' hconn'
  obtain rfl : conn = conn' := Option.some_inj.mp (hc.symm.trans hconn')
  exact hholding.1

theorem spawn (requestId : String) (id : Option String) (generated : String) (cols rows : ℕ)
    (started : Except IoError Unit) :
    Grows s (s.spawn c conn.owner requestId id generated cols rows started) := by
  unfold State.spawn
  split
  · exact h.keeps ((Keeps.send ..).trans (.send ..))
  · next id' manager hspawn =>
    have hmanager : manager.channels =
        s.manager.channels.set id' ⟨s.nextPid, 0, conn.owner, cols, rows, .start⟩ := by
      unfold PtyManager.spawn at hspawn
      split at hspawn
      · cases hspawn
      · split at hspawn
        · cases hspawn
        · split at hspawn
          · cases hspawn
          · obtain ⟨rfl, rfl⟩ := Prod.mk.inj (Except.ok.inj hspawn)
            rfl
    have hself : holder { s with
        manager
        workloads := update s.workloads s.nextPid (some ⟨conn.owner, id'⟩)
        nextPid := s.nextPid + 1 } s.nextPid = some conn.owner := by
      unfold holder
      dsimp only
      rw [update_self]
      rfl
    -- the pid is new, so whose the others are stays
    have hmono : ∀ p o, holder s p = some o → holder { s with
        manager
        workloads := update s.workloads s.nextPid (some ⟨conn.owner, id'⟩)
        nextPid := s.nextPid + 1 } p = some o := by
      intro p o ho
      obtain ⟨w, hw, rfl⟩ := Option.map_eq_some_iff.mp ho
      unfold holder
      dsimp only
      rw [update_of_ne (Nat.ne_of_lt (h.workload_lt p w hw)), hw]
      rfl
    have hstarted : Owned { s with
        manager
        workloads := update s.workloads s.nextPid (some ⟨conn.owner, id'⟩)
        nextPid := s.nextPid + 1 } := by
      refine ⟨?_, ?_, ?_, ?_⟩
      · intro p w hw
        by_cases hp : p = s.nextPid
        · subst hp
          exact Nat.lt_succ_self _
        · exact Nat.lt_succ_of_lt (h.workload_lt p w ((update_of_ne hp ..).symm.trans hw))
      · intro i ch hch
        rw [hmanager, OrderedMap.get_set] at hch
        split at hch
        · cases hch
          exact ⟨hself, rfl⟩
        · obtain ⟨hpid, hseq⟩ := h.channel i ch hch
          exact ⟨hmono _ _ hpid, hseq⟩
      · intro p r hr
        obtain ⟨hp, hsource, hdrawn⟩ := h.reader p r hr
        exact ⟨hmono _ _ hp, hmono _ _ hsource, fun b hb => hmono _ _ (hdrawn b hb)⟩
      · intro c' conn' hc'
        exact (h.handler c' conn' hc').mono hmono fun p r hr => ⟨r, hr, rfl⟩
    refine Grows.trans ⟨hstarted, hmono⟩ (hstarted.setHandler ?_)
    intro conn' hconn'
    obtain rfl : conn = conn' := Option.some_inj.mp (hc.symm.trans hconn')
    exact hself

end

/-- What a reader reads is of the hub that the reader is. -/
theorem read (hr : s.readers p = some r) (raw : List UInt8)
    (ns : List Notice) : Grows s (s.read p r raw ns) := by
  obtain ⟨hp, hsource, hdrawn⟩ := h.reader p r hr
  have hset : ∀ r' : Reader, r'.owner = r.owner → r'.source = r.source →
      (∀ b ∈ r'.mirror.drawn, holder s b.workload = some r.owner) → Grows s (s.setReader p r') := by
    intro r' howner hsource' hdrawn'
    refine ⟨{ h with reader := ?_, handler := ?_ }, fun _ _ ho => ho⟩
    · intro q r₁ hr₁
      by_cases hq : q = p
      · subst hq
        obtain ⟨rfl⟩ := (update_self ..).symm.trans hr₁
        rw [howner, hsource']
        exact ⟨hp, hsource, hdrawn'⟩
      · exact h.reader q r₁ ((update_of_ne hq ..).symm.trans hr₁)
    · intro c conn hc
      exact (h.handler c conn hc).mono (fun _ _ ho => ho) (stays_setReader hr howner)
  unfold State.read
  dsimp only
  split
  · exact hset _ rfl rfl hdrawn
  · have hdraws : Grows s (s.setReader p { r with
        seq := r.seq + 1
        mirror := r.mirror.process ((stripDsr raw).map (⟨r.source, p, ·⟩)) }) := by
      refine hset _ rfl rfl ?_
      intro b hb
      rcases List.mem_append.mp hb with hold | hnew
      · exact hdrawn b hold
      · obtain ⟨x, -, rfl⟩ := List.mem_map.mp hnew
        exact hsource
    exact hdraws.trans (hdraws.owned.keeps ((Keeps.emit _ _).trans (.notices _ _ ns)))

theorem serve (hr : s.readers p = some r) (hs' : s.serve p r = some s') : Grows s s' := by
  unfold State.serve at hs'
  split at hs'
  · cases hs'
  · next c rest _ =>
    have hset : Keeps s (s.setReader p { r with commands := rest }) := .setReader hr rfl rfl rfl
    dsimp only at hs'
    split at hs'
    · next owner isOpen a id q reads hconn =>
      split at hs'
      · next hq =>
        cases hs'
        subst hq
        refine (h.keeps hset).trans ((h.keeps hset).owned.setHandler ?_)
        intro conn hc
        obtain ⟨rfl⟩ := hconn.symm.trans hc
        obtain ⟨r', hr', rfl⟩ := h.handler c _ hconn
        obtain rfl : r = r' := Option.some_inj.mp (hr.symm.trans hr')
        obtain ⟨hp, -, hdrawn⟩ := h.reader _ r hr
        exact ⟨hp, hdrawn⟩
      · cases hs'
        exact h.keeps hset
    · cases hs'
      exact h.keeps hset
  · cases hs'
    exact h.keeps (.setReader hr rfl rfl rfl)
  · cases hs'
    exact h.keeps (.setReader hr rfl rfl rfl)

theorem resume (hw : WellFormed s) (hc : s.conns c = some conn)
    (hok : Orderly s (.resume c)) (hs' : s.resume c conn = some s') : Grows s s' := by
  obtain ⟨owner, isOpen, handler, reads⟩ := conn
  simp only [Orderly, hc] at hok
  unfold State.resume at hs'
  dsimp only at hs'
  split at hs'
  · cases hs'
    exact h.keeps (.greet ..)
  · cases hs'
    exact h.keeps (Keeps.asking.tellSize ..)
  · cases hs'
    exact h.lookUp hc hok
  · obtain ⟨-, ⟨rfl⟩⟩ := Option.ite_none_left_eq_some.mp hs'
    exact h.keeps (Keeps.sends.readerGone ..).idle
  · cases hs'
    exact h.keeps (.answer ..)
  · cases hs'
    exact h.takeReader hc rfl hok
  · cases hs'
    exact h.list hc rfl (hw.spawning c _ _ hc rfl).2
  · cases hs'
    exact h.keeps (.announce ..)
  · cases hs'
  · cases hs'

/-- **Under the condition, everything stays with the hub it was started for.** -/
theorem step (hw : WellFormed s) {len : Frame → ℕ} {a : Step} (hok : Orderly s a)
    (hs' : step len s a = some s') : Grows s s' := by
  cases leads_of_step hs' with
  | register => exact h.keeps (.register s _)
  | writerEnds hc | hubReads hc => exact h.keeps (.setConn hc rfl rfl)
  | connectionEnds =>
    exact h.keeps ((Keeps.setHandler s _ rfl).trans (.congr rfl rfl rfl rfl rfl))
  | plain => exact h.keeps (Keeps.sends.plain ..)
  | input => exact h.keeps ((Keeps.handling _).input ..)
  | resize => exact h.keeps ((Keeps.handling _).resize ..)
  | destroy => exact h.keeps ((Keeps.handling _).destroy ..)
  | ask => exact h.keeps ((Keeps.handling _).ask ..)
  | spawn hc => exact h.spawn (WellFormed.ready_eq hc) ..
  | stop => exact h.keeps ((Keeps.handling _).stop ..)
  | resume hc hs' => exact h.resume hw hc hok hs'
  | read hr => exact h.read (WellFormed.readerAt_eq hr) ..
  | notice => exact h.keeps (.emit ..)
  | serve hr hs' => exact h.serve (WellFormed.readerAt_eq hr) hs'
  | eof hr =>
    exact h.keeps ((Keeps.setReader (WellFormed.readerAt_eq hr) (by rfl) (by rfl) (by rfl)).trans
      (.emit ..))
  | closeQueue hr => exact h.keeps (.setReader (WellFormed.readerAt_eq hr) rfl rfl rfl)
  | unlist hr =>
    exact h.keeps ((Keeps.setReader (WellFormed.readerAt_eq hr) (by rfl) (by rfl) (by rfl)).trans
      (.congr rfl rfl rfl rfl rfl))
  | takeOwn hr => exact h.keeps (.takeOwn (WellFormed.readerAt_eq hr))
  | exit hr =>
    exact h.keeps ((Keeps.setReader hr (by rfl) (by rfl) (by rfl)).trans (.emit ..))
  | writeInput => exact h.keeps (.modify s _ fun _ => ⟨rfl, rfl, rfl⟩)
  | shutdown | batch | tick => exact h.keeps (.congr rfl rfl rfl rfl rfl)
  | sweep => exact h.keeps (.remove s _)
  | route => exact h.keeps (.route ..)

end

end Owned

end Lasterm.Agent.Isolation
