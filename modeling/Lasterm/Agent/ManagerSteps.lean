import Lasterm.Agent.Daemon

/-!
# What a step does to the manager

Of all that the daemon can do, three things bring a channel into the manager or take one out: a
SPAWN, a DESTROY, and a reader whose terminal has closed taking its own workload; and the sweep of a
shutdown.  Every other step leaves each channel with its workload and with its number.

## Main results

* `step_manager` — one case for each of these, and one for the others.
-/

namespace Lasterm.Agent

open Function (update)

/-- The process of a channel, its number and its owner. -/
def PtyChannelState.entry (ch : PtyChannelState) : ℕ × ℕ × OwnerId := (ch.pid, ch.seq, ch.owner)

namespace State

variable (s : State) (c p : ℕ) (id : String)

/-- The manager and the next pid. -/
def core : PtyManager × ℕ := (s.manager, s.nextPid)

@[simp] theorem core_send (f : Frame) : (s.send c f).core = s.core := by
  unfold send
  split <;> rfl

@[simp] theorem core_setConn (conn : Connection) : (s.setConn c conn).core = s.core := rfl

@[simp] theorem core_setHandler (hd : Handler) : (s.setHandler c hd).core = s.core := rfl

@[simp] theorem core_setReader (r : Reader) : (s.setReader p r).core = s.core := rfl

@[simp] theorem core_sendChannelEvent (r : Reader) (msg : AgentToHub) :
    (s.sendChannelEvent p r msg).core = s.core := rfl

variable {s p} in
theorem core_command {s' : State} {cmd : ChannelCommand} (h : s.command p cmd = some s') :
    s'.core = s.core := by
  obtain ⟨r, -, rfl⟩ := of_command h
  rfl

theorem asking_core : Asking fun s s' => s'.core = s.core where
  refl _ := rfl
  send s c _ _ := core_send s c _
  trans h h' := h'.trans h
  command := core_command
  idle _ _ := rfl

theorem core_register (owner : OwnerId) : (s.register owner).core = s.core := by
  unfold register
  split
  · exact core_send ..
  · rfl

theorem core_greet (conn : Connection) : (s.greet c conn).core = s.core := by
  unfold greet
  split <;> rfl

theorem core_ask (owner : OwnerId) (a : Ask) : (s.ask c owner a id).core = s.core := by
  unfold ask
  split
  · rfl
  · exact asking_core.notFound ..

theorem core_answer (a : Ask) (m : Mirror) : (s.answer c a id p m).core = s.core := by
  unfold answer
  cases a <;> simp

theorem core_takeReader (requestId : String) (cols rows : ℕ) :
    (s.takeReader c requestId id p cols rows).core = s.core := by
  unfold takeReader
  split <;> simp

theorem core_announce (requestId : String) : (s.announce c requestId id p).core = s.core := by
  unfold announce
  dsimp only
  split <;> simp

variable {s c} in
theorem core_resume {s' : State} {conn : Connection} (h : s.resume c conn = some s') :
    s'.core = s.core := by
  unfold resume at h
  split at h
  · cases h
    exact core_greet ..
  · cases h
    exact asking_core.tellSize ..
  · cases h
    exact asking_core.lookUp (fun _ _ _ _ _ => rfl) ..
  · obtain ⟨-, ⟨rfl⟩⟩ := Option.ite_none_left_eq_some.mp h
    exact asking_core.readerGone ..
  · cases h
    exact core_answer ..
  · cases h
    exact core_takeReader ..
  · cases h
    rfl
  · cases h
    exact core_announce ..
  · cases h
  · cases h

theorem core_notices (r : Reader) (ns : List Notice) :
    (ns.foldl (fun s n => s.sendChannelEvent p r (n.msg r.channelId)) s).core = s.core := by
  induction ns generalizing s with
  | nil => rfl
  | cons n ns ih => exact (ih _).trans (core_sendChannelEvent ..)

theorem core_read (r : Reader) (raw : List UInt8) (ns : List Notice) :
    (s.read p r raw ns).core = s.core := by
  unfold read
  dsimp only
  split
  · rfl
  · exact core_notices ..

variable {s p} in
theorem core_serve {s' : State} {r : Reader} (h : s.serve p r = some s') : s'.core = s.core := by
  unfold serve at h
  split at h
  · cases h
  · dsimp only at h
    split at h
    · split at h <;> (obtain ⟨rfl⟩ := h; rfl)
    · cases h
      rfl
  · cases h
    rfl
  · cases h
    rfl

end State

/-- A step that takes a workload out of the manager. -/
def TakesOut (s : State) (p : ℕ) : Step → Prop
  | .destroy c id teardown => teardown ≠ .failed ∧ ∃ conn ch, s.ready c = some conn ∧
      s.manager.ownedBy id conn.owner = some ch ∧ ch.pid = p
  | .takeOwn q => q = p ∧ ∃ r ch, s.readerAt p .unlisted = some r ∧
      s.manager.channels.get r.channelId = some ch ∧ ch.pid = p
  | .sweep .. => True
  | _ => False

/-- What a step does to the manager. -/
inductive Managed (s : State) (a : Step) (s' : State) : Prop
  | keeps (hpid : s'.nextPid = s.nextPid)
      (h : ∀ id, (s'.manager.channels.get id).map (·.entry) =
        (s.manager.channels.get id).map (·.entry))
  | brings {id : String} {ch : PtyChannelState} (hnew : s.manager.channels.get id = none)
      (hmark : s.manager.shuttingDown = false) (hpid : s'.nextPid = s.nextPid + 1)
      (hchannels : s'.manager.channels = s.manager.channels.set id ch) (hch : ch.pid = s.nextPid)
      (hseq : ch.seq = 0)
  | drops {id : String} (hpid : s'.nextPid = s.nextPid)
      (hmanager : s'.manager = s.manager.remove id)
      (hout : ∀ ch, s.manager.channels.get id = some ch → TakesOut s ch.pid a)

namespace Managed

variable {s s' : State} {a : Step}

theorem of_core (h : s'.core = s.core) : Managed s a s' := by
  obtain ⟨hmanager, hpid⟩ := Prod.mk.inj h
  exact .keeps hpid fun id => by rw [hmanager]

theorem of_modify {id : String} {f : PtyChannelState → PtyChannelState}
    (hpid : s'.nextPid = s.nextPid) (h : s'.manager = s.manager.modify id f)
    (hf : ∀ ch, (f ch).entry = ch.entry) : Managed s a s' := by
  refine .keeps hpid fun id' => ?_
  rw [h]
  unfold PtyManager.modify
  split
  · next ch hch =>
    rw [OrderedMap.get_set]
    split
    · next hid =>
      rw [hid, hch]
      exact congrArg some (hf ch)
    · rfl
  · rfl

theorem input (c : ℕ) (owner : OwnerId) (id : String) (data : List UInt8) :
    Managed s a (s.input c owner id data) := by
  unfold State.input
  split
  · exact .of_core (State.core_send ..)
  · next ch _ =>
    have hset : ∀ q, Managed s a { s with manager := s.manager.modify id ({ · with input := q }) } :=
      fun q => .of_modify rfl rfl fun _ => rfl
    dsimp only
    split
    · have hcore := State.core_send
        { s with manager := s.manager.modify id ({ · with input := (ch.input.offer data).1 }) } c
        (inputDropped id).reply
      obtain ⟨hmanager, hpid⟩ := Prod.mk.inj hcore
      exact .of_modify hpid hmanager fun _ => rfl
    · exact hset _

theorem resize (c : ℕ) (owner : OwnerId) (id : String) (cols rows : ℕ) :
    Managed s a (s.resize c owner id cols rows) := by
  unfold State.resize
  split
  · exact .of_core (State.core_send ..)
  · exact .of_modify rfl rfl fun _ => rfl

theorem destroy {c : ℕ} {conn : Connection} (hc : s.ready c = some conn) (id : String)
    (teardown : Teardown) :
    Managed s (.destroy c id teardown) (s.destroy conn.owner id teardown) := by
  unfold State.destroy
  split
  · exact .of_core rfl
  · exact .of_core rfl
  · next ch hch hne =>
    refine .drops rfl rfl fun ch' hch' => ⟨?_, conn, ch, hc, hch, ?_⟩
    · rintro rfl
      exact hne rfl
    · have hget := (Option.filter_eq_some_iff.mp hch).1
      rw [Option.some.inj (hget.symm.trans hch')]

theorem spawn (c : ℕ) (owner : OwnerId) (requestId : String) (id : Option String)
    {generated : String} (hnew : s.manager.channels.get generated = none) (cols rows : ℕ)
    (started : Except IoError Unit) :
    Managed s a (s.spawn c owner requestId id generated cols rows started) := by
  unfold State.spawn
  split
  · exact .of_core ((State.core_send ..).trans (State.core_send ..))
  · next id' manager hspawn =>
    unfold PtyManager.spawn at hspawn
    split at hspawn
    · cases hspawn
    · next hmark =>
      split at hspawn
      · cases hspawn
      · next hfree =>
        split at hspawn
        · cases hspawn
        · obtain ⟨rfl, rfl⟩ := Prod.mk.inj (Except.ok.inj hspawn)
          have hfree : s.manager.channels.get (id.getD generated) = none := by
            cases id with
            | none => exact hnew
            | some id => simpa using hfree
          exact .brings hfree (Bool.not_eq_true _ ▸ hmark) rfl rfl rfl rfl

theorem takeOwn {p : ℕ} {r : Reader} (hr : s.readerAt p .unlisted = some r) :
    Managed s (.takeOwn p) (s.takeOwn p r) := by
  unfold State.takeOwn PtyManager.takeOwnWorkload
  split
  · exact .of_core rfl
  · next ch hch =>
    split
    · exact .of_core rfl
    · next hpid =>
      have hpid := not_not.mp hpid
      refine .drops rfl rfl fun ch' hch' => ?_
      obtain ⟨rfl⟩ := hch.symm.trans hch'
      exact ⟨hpid.symm, r, ch, hpid ▸ hr, hch, rfl⟩

end Managed

/-- **What a step does to the manager.** -/
theorem step_manager {len : Frame → ℕ} {s s' : State} {a : Step} (hs' : step len s a = some s') :
    Managed s a s' := by
  cases leads_of_step hs' with
  | register => exact .of_core (State.core_register ..)
  | plain => exact .of_core (State.asking_core.plain ..)
  | input => exact .input ..
  | resize => exact .resize ..
  | destroy hc => exact .destroy hc ..
  | ask => exact .of_core (State.core_ask ..)
  | spawn _ hnew => exact .spawn _ _ _ _ hnew ..
  | stop =>
    unfold State.stop
    dsimp only
    split
    · exact .of_core (State.core_send ..)
    · exact .keeps rfl fun _ => rfl
  | resume _ hs' => exact .of_core (State.core_resume hs')
  | read => exact .of_core (State.core_read ..)
  | serve _ hs' => exact .of_core (State.core_serve hs')
  | takeOwn hr => exact .takeOwn hr
  | writeInput => exact .of_modify rfl rfl fun _ => rfl
  | shutdown => exact .keeps rfl fun _ => rfl
  | sweep => exact .drops rfl rfl fun _ _ => trivial
  | writerEnds | connectionEnds | notice | eof | closeQueue | unlist | exit | batch | tick | route
  | hubReads => exact .of_core rfl

end Lasterm.Agent
