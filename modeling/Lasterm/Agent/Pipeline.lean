import Lasterm.Agent.WellFormed

/-!
# What a step does to what is on its way to the hubs

Most steps of the daemon change nothing of what is on its way from the readers to the
hubs, and hand at most a plain reply to a connection.  This module says so once, for
every step, and says of the others exactly what they move: a reader that prints, a
snapshot that is made and one that is sent, a SPAWN_OK, the router, a new connection.
What is proved about whole runs is proved from `step_effect`.

## Main definitions

* `Effect` — what one step may move.
-/

namespace Lasterm.Agent

open List State Option

open Function (update update_self update_of_ne)

/-! ### On the way to the router -/

variable {s : State}

namespace State

/-- The output of a channel of an owner that the router has not taken, in order. -/
def line (s : State) (o : OwnerId) (id : String) : List Printed :=
  outputOf o id s.batched ++ (s.batcher.pending o id ++ s.events.flatMap (·.bytesOf o id))

/-- The frames other than output that the router has not taken, in order. -/
def ahead (s : State) : List (EventFrame Frame) :=
  framesOf s.batched ++ s.events.filterMap (·.frame?)

theorem line_batch {e : ChannelEvent Printed Frame}
    {rest : List (ChannelEvent Printed Frame)} (he : s.events = e :: rest) (o : OwnerId)
    (id : String) :
    line { s with
      events := rest
      batcher := (s.batcher.accept e).1
      batched := s.batched ++ (s.batcher.accept e).2 } o id = s.line o id := by
  have hacc := s.batcher.outputOf_accept o id e
  unfold line
  rw [he, flatMap_cons, outputOf_append, append_assoc, ← append_assoc _ _
    (rest.flatMap _), hacc, append_assoc]

theorem line_tick (s : State) (o : OwnerId) (id : String) :
    line { s with
      batcher := s.batcher.flushAll (φ := Frame) |>.1
      batched := s.batched ++ s.batcher.flushAll.2 } o id = s.line o id := by
  have hflush := s.batcher.outputOf_flushAll (φ := Frame) o id
  unfold line
  rw [outputOf_append, append_assoc, ← append_assoc _ _ (s.events.flatMap _), hflush]

theorem ahead_batch {e : ChannelEvent Printed Frame}
    {rest : List (ChannelEvent Printed Frame)} (he : s.events = e :: rest) :
    ahead { s with
      events := rest
      batcher := (s.batcher.accept e).1
      batched := s.batched ++ (s.batcher.accept e).2 } = s.ahead := by
  have hframes : framesOf (s.batched ++ (s.batcher.accept e).2) =
      framesOf s.batched ++ e.frame?.toList := by
    rw [← s.batcher.framesOf_accept e]
    exact filterMap_append
  unfold ahead
  rw [he, hframes, append_assoc]
  cases hf : e.frame? <;> simp [hf]

theorem ahead_tick (s : State) :
    ahead { s with
      batcher := s.batcher.flushAll (φ := Frame) |>.1
      batched := s.batched ++ s.batcher.flushAll.2 } = s.ahead := by
  have hframes : framesOf (s.batched ++ (s.batcher.flushAll (φ := Frame)).2) =
      framesOf s.batched := by
    rw [← append_nil (framesOf s.batched), ← s.batcher.framesOf_flushAll (φ := Frame)]
    exact filterMap_append
  unfold ahead
  rw [hframes]

theorem line_emit (s : State) (e : ChannelEvent Printed Frame) (o : OwnerId) (id : String) :
    (s.emit e).line o id = s.line o id ++ e.bytesOf o id := by
  simp [line, emit]

theorem ahead_emit (s : State) (e : ChannelEvent Printed Frame) :
    (s.emit e).ahead = s.ahead ++ e.frame?.toList := by
  cases hf : e.frame? <;> simp [ahead, emit, hf]

/-- What a frame sent to a connection adds to the wire. -/
def handed (s : State) (c : ℕ) (f : Frame) : List (ℕ × Frame) :=
  if s.isOpen c then [(c, f)] else []

/-- The hub a connection authenticated as. -/
def ownerOf (s : State) (c : ℕ) : Option OwnerId := (s.conns c).map (·.owner)

/-- The handler of a connection has a snapshot of a reader's that it has not sent. -/
def Answered (s : State) (c : ℕ) (id : String) (p : ℕ) (m : Mirror) : Prop :=
  ∃ conn a, s.conns c = some conn ∧ conn.handler = .answered a id p m

end State

/-! ### Kinds of frames -/

namespace Frame

/-- The terminal whose end a frame reports. -/
def exited (f : Frame) : Option (String × ℕ) :=
  match f.msg, f.pid with
  | .channelExit id _ _, some p => some (id, p)
  | _, _ => none

/-- The terminal whose start a frame confirms. -/
def spawned (f : Frame) : Option (String × ℕ) :=
  match f.msg, f.pid with
  | .spawnOk _ id, some p => some (id, p)
  | _, _ => none

/-- The snapshot a frame carries, with its channel and the reader that made it. -/
def snapshot (f : Frame) : Option (String × ℕ × Mirror) :=
  match f.msg, f.pid with
  | .snapshotRes id m _, some p => some (id, p, m)
  | .attachOk id _ m _, some p => some (id, p, m)
  | _, _ => none

/-- The output of a channel in a frame. -/
def printed (id : String) (f : Frame) : List Printed :=
  match f.msg with
  | .output id' _ data => if id' = id then data else []
  | _ => []

/-- A frame about no terminal, without output. -/
def isReply (f : Frame) : Bool :=
  f.pid.isNone &&
    match f.msg with
    | .output .. => false
    | _ => true

/-- A frame a reader sends, that is not output. -/
structure IsEvent (f : Frame) (p : ℕ) : Prop where
  pid : f.pid = some p
  spawned : f.spawned = none
  snapshot : f.snapshot = none
  printed : ∀ id, f.printed id = []

variable {f : Frame}

section

variable (h : f.isReply = true)
include h

theorem pid_of_isReply : f.pid = none := by
  unfold isReply at h
  rw [Bool.and_eq_true] at h
  exact isNone_iff_eq_none.mp h.1

theorem exited_of_isReply : f.exited = none := by
  unfold exited
  rw [pid_of_isReply h]
  split <;> trivial

theorem spawned_of_isReply : f.spawned = none := by
  unfold spawned
  rw [pid_of_isReply h]
  split <;> trivial

theorem snapshot_of_isReply : f.snapshot = none := by
  unfold snapshot
  rw [pid_of_isReply h]
  split <;> trivial

theorem printed_of_isReply (id : String) : f.printed id = [] := by
  obtain ⟨msg, pid⟩ := f
  unfold isReply at h
  unfold printed
  cases msg <;> first | rfl | simp at h

end

end Frame

/-! ### Steps that move nothing -/

/-- Nothing on its way to the router moved, the frames `l` were handed to connections, and
what a frame of any hub is sent to now, it was sent to before. -/
structure Quiet (s : State) (l : List (ℕ × Frame)) (s' : State) : Prop where
  line : ∀ o id, s'.line o id = s.line o id
  ahead : s'.ahead = s.ahead
  kept : s'.routes.queues = s.routes.queues
  target : ∀ o c, s'.target o = some c → s.target o = some c
  wire : s'.wire = s.wire ++ l
  screens : ∀ p r, s.readers p = some r → ∃ r', s'.readers p = some r' ∧
    r'.owner = r.owner ∧ r'.channelId = r.channelId ∧ r'.mirror.drawn = r.mirror.drawn
  owners : s'.ownerOf = s.ownerOf
  reads : ∀ c, (s'.conns c).map (·.reads) = (s.conns c).map (·.reads)

/-- No handler came by a snapshot. -/
def Settles (s s' : State) : Prop :=
  ∀ c id p m, s'.Answered c id p m → s.Answered c id p m

variable {r' : Reader} {cmd : ChannelCommand} {conn : Connection}

namespace Quiet

variable {s s' s'' : State} {l l' : List (ℕ × Frame)} {c p : ℕ}

theorem congr (hevents : s'.events = s.events) (hbatcher : s'.batcher = s.batcher)
    (hbatched : s'.batched = s.batched) (hroutes : s'.routes = s.routes)
    (hwire : s'.wire = s.wire ++ l) (hreaders : s'.readers = s.readers)
    (hconns : s'.conns = s.conns) : Quiet s l s' where
  line o id := by unfold State.line; rw [hevents, hbatcher, hbatched]
  ahead := by unfold State.ahead; rw [hevents, hbatched]
  kept := by rw [hroutes]
  target o c h := by
    unfold State.target State.isOpen at h ⊢
    rwa [hroutes, hconns] at h
  wire := hwire
  screens p r hr := ⟨r, by rw [hreaders]; exact hr, rfl, rfl, rfl⟩
  owners := by unfold ownerOf; rw [hconns]
  reads c := by rw [hconns]

theorem refl (s : State) : Quiet s [] s :=
  .congr rfl rfl rfl rfl (append_nil _).symm rfl rfl

theorem trans (h : Quiet s l s') (h' : Quiet s' l' s'') : Quiet s (l ++ l') s'' where
  line o id := (h'.line o id).trans (h.line o id)
  ahead := h'.ahead.trans h.ahead
  kept := h'.kept.trans h.kept
  target o c hc := h.target o c (h'.target o c hc)
  wire := by rw [h'.wire, h.wire, append_assoc]
  screens p r hr := by
    obtain ⟨r₁, hr₁, ho₁, hid₁, hd₁⟩ := h.screens p r hr
    obtain ⟨r₂, hr₂, ho₂, hid₂, hd₂⟩ := h'.screens p r₁ hr₁
    exact ⟨r₂, hr₂, ho₂.trans ho₁, hid₂.trans hid₁, hd₂.trans hd₁⟩
  owners := h'.owners.trans h.owners
  reads c := (h'.reads c).trans (h.reads c)

theorem after (h : Quiet s [] s') (h' : Quiet s' l s'') : Quiet s l s'' := h.trans h'

theorem andThen (h : Quiet s l s') (h' : Quiet s' [] s'') : Quiet s l s'' :=
  append_nil l ▸ h.trans h'

theorem send (s : State) (c : ℕ) (f : Frame) : Quiet s (s.handed c f) (s.send c f) := by
  unfold State.send State.handed
  split
  · exact .congr rfl rfl rfl rfl rfl rfl rfl
  · exact .refl s

theorem setHandler (s : State) (c : ℕ) (hd : Handler) : Quiet s [] (s.setHandler c hd) where
  line _ _ := rfl
  ahead := rfl
  kept := rfl
  target o c' h := by
    unfold State.target at h
    rwa [isOpen_setHandler] at h
  wire := (append_nil _).symm
  screens p r hr := ⟨r, hr, rfl, rfl, rfl⟩
  owners := funext (s.map_conns_setHandler _ c hd fun _ => rfl)
  reads := s.map_conns_setHandler _ c hd fun _ => rfl

theorem setReader {r : Reader} (hr : s.readers p = some r) (ho : r'.owner = r.owner)
    (hid : r'.channelId = r.channelId) (hd : r'.mirror.drawn = r.mirror.drawn) :
    Quiet s [] (s.setReader p r') where
  line _ _ := rfl
  ahead := rfl
  kept := rfl
  target _ _ h := h
  wire := (append_nil _).symm
  screens q r₀ hq := by
    by_cases hpq : q = p
    · subst hpq
      obtain rfl : r = r₀ := some_inj.mp (hr.symm.trans hq)
      exact ⟨r', update_self .., ho, hid, hd⟩
    · exact ⟨r₀, (update_of_ne hpq ..).trans hq, rfl, rfl, rfl⟩
  owners := rfl
  reads _ := rfl

theorem manager (s : State) (m : PtyManager) : Quiet s [] { s with manager := m } :=
  .congr rfl rfl rfl rfl (append_nil _).symm rfl rfl

theorem command (hcmd : s.command p cmd = some s') : Quiet s [] s' := by
  obtain ⟨r, hr, rfl⟩ := of_command hcmd
  exact .setReader hr rfl rfl rfl

theorem writerEnds (hc : s.conns c = some conn) :
    Quiet s [] (s.setConn c { conn with isOpen := false }) where
  line _ _ := rfl
  ahead := rfl
  kept := rfl
  target o c' h := by
    obtain ⟨hactive, hopen⟩ := target_eq_some.mp h
    refine target_eq_some.mpr ⟨hactive, ?_⟩
    obtain ⟨conn', hconn', hisOpen⟩ := isOpen_eq_true.mp hopen
    refine isOpen_eq_true.mpr ⟨conn', ?_, hisOpen⟩
    by_cases hcc : c' = c
    · subst hcc
      have hself : (s.setConn c' { conn with isOpen := false }).conns c' =
          some { conn with isOpen := false } := update_self ..
      obtain ⟨rfl⟩ := hself.symm.trans hconn'
      cases hisOpen
    · exact (update_of_ne hcc ..).symm.trans hconn'
  wire := (append_nil _).symm
  screens p r hr := ⟨r, hr, rfl, rfl, rfl⟩
  owners := funext (map_conns_setConn _ hc rfl)
  reads := map_conns_setConn _ hc rfl

theorem leave (s : State) (c : ℕ) (conn : Connection) : Quiet s [] (s.leave c conn) := by
  have hset := setHandler s c .ended
  refine { hset with kept := ?_, target := ?_ }
  · unfold State.leave HubRoutes.clearActiveIfOurs
    split <;> rfl
  · intro o c' h
    obtain ⟨hactive, hopen⟩ := target_eq_some.mp h
    refine hset.target o c' (target_eq_some.mpr ⟨?_, hopen⟩)
    unfold State.leave HubRoutes.clearActiveIfOurs at hactive
    split at hactive
    · rw [OrderedMap.get_delete] at hactive
      exact (ite_none_left_eq_some.mp hactive).2
    · exact hactive

end Quiet

variable {p : ℕ}

namespace Settles

variable {s s' s'' : State} {c : ℕ}

theorem of_conns (h : s'.conns = s.conns) : Settles s s' := by
  rintro c id p m ⟨conn, a, hconn, hh⟩
  exact ⟨conn, a, h ▸ hconn, hh⟩

theorem trans (h : Settles s s') (h' : Settles s' s'') : Settles s s'' :=
  fun c id p m hm => h c id p m (h' c id p m hm)

theorem send (s : State) (c : ℕ) (f : Frame) : Settles s (s.send c f) := by
  unfold State.send
  split <;> exact .of_conns rfl

theorem setHandler (s : State) (c : ℕ) {hd : Handler} (hne : ∀ a id p m, hd ≠ .answered a id p m) :
    Settles s (s.setHandler c hd) := by
  rintro c' id p m ⟨conn', a, hconn', hh⟩
  obtain ⟨conn, hconn, rfl⟩ := conns_setHandler.mp hconn'
  split at hh
  · exact absurd hh (hne a id p m)
  · exact ⟨conn, a, hconn, hh⟩

theorem command (hcmd : s.command p cmd = some s') : Settles s s' := by
  obtain ⟨r, -, rfl⟩ := of_command hcmd
  exact .of_conns rfl

theorem writerEnds (hc : s.conns c = some conn) :
    Settles s (s.setConn c { conn with isOpen := false }) := by
  rintro c' id p m ⟨conn', a, hconn', hh⟩
  by_cases hcc : c' = c
  · subst hcc
    have hself : (s.setConn c' { conn with isOpen := false }).conns c' =
        some { conn with isOpen := false } := update_self ..
    obtain ⟨rfl⟩ := hself.symm.trans hconn'
    exact ⟨conn, a, hc, hh⟩
  · exact ⟨conn', a, (update_of_ne hcc ..).symm.trans hconn', hh⟩

end Settles

/-! ### What a step does -/

/-- The frames a step without further effect hands over are replies. -/
structure Replies (s s' : State) : Prop where
  settles : Settles s s'
  quiet : ∃ l, Quiet s l s' ∧ ∀ e ∈ l, e.2.isReply = true

/-- What a step can do to what is on its way to the hubs. -/
inductive Effect (s : State) (a : Step) (s' : State) : Prop
  | replies (h : Replies s s')
  | announces {c : ℕ} {conn : Connection} {requestId id : String} {p : ℕ} (ha : a = .resume c)
      (hc : s.conns c = some conn) (hh : conn.handler = .listed requestId id p)
      (hsettles : Settles s s')
      (h : Quiet s (s.handed c ⟨.spawnOk requestId id, some p⟩) s')
  | answers {c : ℕ} {id : String} {p : ℕ} {m : Mirror} {f : Frame} (ha : a = .resume c)
      (hm : s.Answered c id p m) (hf : f.snapshot = some (id, p, m))
      (hsettles : Settles s s') (h : Quiet s (s.handed c f) s')
  /-- A reader makes a snapshot of its screen for the handler of `c`. -/
  | draws {p : ℕ} {r : Reader} {c : ℕ} (ha : a = .serve p) (hr : s.readers p = some r)
      (hcmd : r.commands.head? = some (.snapshot c))
      (hanswered : ∀ c' id q m, s'.Answered c' id q m →
        s.Answered c' id q m ∨ (c' = c ∧ id = r.channelId ∧ q = p ∧ m = r.mirror))
      (h : Quiet s [] s')
  /-- A connection of a hub becomes its current one. -/
  | registers {o : OwnerId} (ha : a = .register o) {l : List (ℕ × Frame)}
      (hl : ∀ e ∈ l, e.2.isReply = true ∧ e.1 < s.nextConn)
      (hwire : s'.wire = s.wire ++ l ++ (s.routes.kept o).map (s.nextConn, ·))
      (hline : ∀ o id, s'.line o id = s.line o id) (hahead : s'.ahead = s.ahead)
      (hreaders : s'.readers = s.readers)
      (hconns : s'.conns = update s.conns s.nextConn (some ⟨o, true, .greeting, []⟩))
      (hroutes : s'.routes = s.routes.registerActive o s.nextConn)
  /-- A reader draws and sends output, and says more about its terminal. -/
  | emits {p : ℕ} {r r' : Reader} {data : List Printed} {fs : List (EventFrame Frame)}
      (hr : s.readers p = some r) (hreaders : s'.readers = update s.readers p (some r'))
      (howner : r'.owner = r.owner) (hid : r'.channelId = r.channelId)
      (hdrawn : r'.mirror.drawn = r.mirror.drawn ++ data)
      (hdata : ∀ b ∈ data, b.workload = r.source ∧ b.reader = p)
      (hread : data ≠ [] → ∃ raw ns, a = .read p raw ns ∧ stripDsr raw ≠ [])
      (hline : ∀ o id, s'.line o id =
        s.line o id ++ if r.owner = o ∧ r.channelId = id then data else [])
      (hahead : s'.ahead = s.ahead ++ fs)
      (hfs : ∀ e ∈ fs, e.owner = r.owner ∧ e.frame.IsEvent p)
      (hexit : ∀ e ∈ fs, ∀ id q, e.frame.exited = some (id, q) →
        id = r.channelId ∧ q = p ∧ ∃ status, a = .exit p status)
      (hconns : s'.conns = s.conns) (hroutes : s'.routes = s.routes) (hwire : s'.wire = s.wire)
  /-- The router sends the next event to its hub's connection, or keeps it. -/
  | routes {len : Frame → ℕ} {e : BatchedEvent Printed Frame}
      {rest : List (BatchedEvent Printed Frame)} (ha : a = .route) (he : s.batched = e :: rest)
      (hs' : s' = s.route len e rest)
  | hubReads {c n : ℕ} {conn : Connection} (ha : a = .hubReads c n) (hc : s.conns c = some conn)
      (hs' : s' = s.setConn c { conn with reads := conn.reads ++ [(s.unread c conn).take n] })

namespace Replies

variable {s s' s'' : State} {c : ℕ}

theorem silent (h : Quiet s [] s') (hs : Settles s s') : Replies s s' :=
  ⟨hs, [], h, forall_mem_nil _⟩

theorem refl (s : State) : Replies s s := silent (.refl s) (.of_conns rfl)

theorem trans (h : Replies s s') (h' : Replies s' s'') : Replies s s'' := by
  obtain ⟨l, hq, hl⟩ := h.quiet
  obtain ⟨l', hq', hl'⟩ := h'.quiet
  refine ⟨h.settles.trans h'.settles, l ++ l', hq.trans hq', ?_⟩
  intro e he
  rcases mem_append.mp he with he | he
  · exact hl e he
  · exact hl' e he

theorem send (s : State) (c : ℕ) {f : Frame} (hf : f.isReply = true) : Replies s (s.send c f) := by
  refine ⟨.send s c f, _, .send s c f, ?_⟩
  intro e he
  unfold handed at he
  split at he
  · obtain rfl := mem_singleton.mp he
    exact hf
  · cases he

theorem setHandler (s : State) (c : ℕ) {hd : Handler} (hne : ∀ a id p m, hd ≠ .answered a id p m) :
    Replies s (s.setHandler c hd) :=
  silent (.setHandler s c hd) (.setHandler s c hne)

theorem idle (h : Replies s s') : Replies s (s'.setHandler c .idle) :=
  h.trans (.setHandler s' c nofun)

theorem manager (s : State) (m : PtyManager) : Replies s { s with manager := m } :=
  silent (.manager s m) (.of_conns rfl)

theorem setReader {r : Reader} (hr : s.readers p = some r) (ho : r'.owner = r.owner)
    (hid : r'.channelId = r.channelId) (hd : r'.mirror.drawn = r.mirror.drawn) :
    Replies s (s.setReader p r') :=
  silent (.setReader hr ho hid hd) (.of_conns rfl)

theorem command (hcmd : s.command p cmd = some s') : Replies s s' :=
  silent (.command hcmd) (.command hcmd)

theorem isReply_reply {m : AgentToHub} (hm : ∀ id seq data, m ≠ .output id seq data) :
    m.reply.isReply = true := by
  cases m with
  | output id seq data => exact absurd rfl (hm id seq data)
  | _ => rfl

theorem sends : Sends Replies := ⟨refl, fun s c _ hm => .send s c (isReply_reply hm)⟩

theorem handling (o : OwnerId) : Handling o Replies where
  toSends := sends
  trans := trans
  resized s c _ _ _ := .setHandler s c nofun
  visible s c _ _ := .setHandler s c nofun
  modify _ _ := .manager ..
  remove _ := .manager ..
  shutdown _ := .manager ..

theorem asking : Asking Replies where
  toSends := sends
  trans := trans
  command := command
  idle s c := .setHandler s c nofun

theorem greet (s : State) (c : ℕ) (conn : Connection) : Replies s (s.greet c conn) := by
  unfold State.greet
  split
  · refine ⟨.setHandler s c nofun, _, { Quiet.setHandler s c .idle with
      wire := append_assoc .. }, ?_⟩
    intro e he
    rcases mem_append.mp he with he | he
    · obtain ⟨x, -, rfl⟩ := mem_map.mp he
      rfl
    · obtain rfl := mem_singleton.mp he
      rfl
  · exact silent (.leave s c conn) (.setHandler s c nofun)

theorem takeReader (s : State) (c : ℕ) (requestId id : String) (pid cols rows : ℕ) :
    Replies s (s.takeReader c requestId id pid cols rows) := by
  unfold State.takeReader
  split
  · exact .setHandler s c nofun
  · exact (send s c rfl).idle

theorem list (h : WellFormed s) (hc : s.conns c = some conn)
    {requestId id : String} {pid source cols rows : ℕ}
    (hh : conn.handler = .holding requestId id pid source cols rows) :
    Replies s (s.list c conn.owner requestId id pid source cols rows) := by
  have hnone := (h.spawning c conn pid hc (by rw [hh]; rfl)).2
  have hset := Quiet.setHandler s c (.listed requestId id pid)
  refine silent { hset with screens := ?_ } (.setHandler s c  nofun)
  intro p r hr
  have hne : p ≠ pid := by
    rintro rfl
    rw [hr] at hnone
    cases hnone
  exact ⟨r, (update_of_ne hne ..).trans hr, rfl, rfl, rfl⟩

theorem spawn (s : State) (c : ℕ) (owner : OwnerId) (requestId : String) (id : Option String)
    (generated : String) (cols rows : ℕ) (started : Except IoError Unit) :
    Replies s (s.spawn c owner requestId id generated cols rows started) := by
  unfold State.spawn
  split
  · exact (send s c rfl).trans (.send _ c rfl)
  · next id' manager _ =>
    have hset := Quiet.setHandler s c (.spawned requestId id' s.nextPid cols rows)
    exact silent { hset with }
      (.setHandler s c nofun)

end Replies

/-! ### Steps that move something -/

namespace State

variable (s : State) (p : ℕ) (r : Reader)

theorem ahead_sendChannelEvent (msg : AgentToHub) :
    (s.sendChannelEvent p r msg).ahead = s.ahead ++ [r.eventFrame p msg] :=
  ahead_emit s _

theorem line_sendChannelEvent (msg : AgentToHub) (o : OwnerId) (id : String) :
    (s.sendChannelEvent p r msg).line o id = s.line o id :=
  (line_emit s _ o id).trans (append_nil _)

theorem notices_eq (ns : List Notice) :
    ns.foldl (fun s n => s.sendChannelEvent p r (n.msg r.channelId)) s =
      { s with
        events := s.events ++ ns.map fun n => .frame (r.eventFrame p (n.msg r.channelId)) } := by
  induction ns generalizing s with
  | nil => simp
  | cons n ns ih =>
    rw [foldl_cons, ih]
    simp [sendChannelEvent, emit]

end State

theorem Notice.isEvent (id : String) (n : Notice) (p : ℕ) :
    Frame.IsEvent ⟨n.msg id, some p⟩ p := by
  cases n <;> exact ⟨rfl, rfl, rfl, fun _ => rfl⟩

theorem Notice.not_exited (id : String) (n : Notice) (p : ℕ) :
    Frame.exited ⟨n.msg id, some p⟩ = none := by
  cases n <;> rfl

namespace Effect

variable {s s' : State} {a : Step} {p c : ℕ} {r : Reader}

section

variable (hr : s.readers p = some r)
include hr

theorem sendChannelEvent (ho : r'.owner = r.owner)
    (hid : r'.channelId = r.channelId) (hd : r'.mirror.drawn = r.mirror.drawn) {msg : AgentToHub}
    (hevent : Frame.IsEvent ⟨msg, some p⟩ p)
    (hexit : ∀ id q, Frame.exited ⟨msg, some p⟩ = some (id, q) →
      id = r.channelId ∧ q = p ∧ ∃ status, a = .exit p status) :
    Effect s a ((s.setReader p r').sendChannelEvent p r msg) := by
  have hahead := (s.setReader p r').ahead_sendChannelEvent p r msg
  have hdrawn : r'.mirror.drawn = r.mirror.drawn ++ [] := by rw [hd, append_nil]
  refine .emits hr rfl ho hid hdrawn nofun
    (fun h => absurd rfl h) ?_ hahead ?_ ?_ rfl rfl rfl
  · intro o id
    rw [line_sendChannelEvent, ite_self, append_nil]
    rfl
  · intro e he
    obtain rfl := mem_singleton.mp he
    exact ⟨rfl, hevent⟩
  · intro e he id q hq
    obtain rfl := mem_singleton.mp he
    exact hexit id q hq

theorem read (raw : List UInt8) (ns : List Notice) :
    Effect s (.read p raw ns) (s.read p r raw ns) := by
  unfold State.read
  dsimp only
  split
  · exact .replies (.setReader hr rfl rfl rfl)
  · next hsome =>
    have hstrip : stripDsr raw ≠ [] := by
      rintro hnil
      rw [hnil] at hsome
      exact hsome rfl
    set data : List Printed := (stripDsr raw).map (⟨r.source, p, ·⟩) with hdata
    set r' : Reader := { r with seq := r.seq + 1, mirror := r.mirror.process data } with hr'
    set e : ChannelEvent Printed Frame := .output ⟨r.owner, r.channelId, r.seq + 1, data⟩ with he
    rw [notices_eq]
    have hdrawn : r'.mirror.drawn = r.mirror.drawn ++ data := rfl
    refine @Effect.emits _ _ _ _ _ _ _ (ns.map fun n => r'.eventFrame p (n.msg r'.channelId))
      hr rfl rfl rfl hdrawn ?_ (fun _ => ⟨raw, ns, rfl, hstrip⟩) ?_ ?_ ?_ ?_ rfl rfl rfl
    · intro b hb
      obtain ⟨x, -, rfl⟩ := mem_map.mp hb
      exact ⟨rfl, rfl⟩
    · intro o id
      have hemit := (s.setReader p r').line_emit e o id
      have hnone : (ns.map fun n => ChannelEvent.frame (β := Printed)
          (r'.eventFrame p (n.msg r'.channelId))).flatMap (·.bytesOf o id) = [] := by
        simp [flatMap_map, ChannelEvent.bytesOf]
      unfold line at hemit ⊢
      rw [flatMap_append, hnone, append_nil]
      exact hemit
    · have hemit := (s.setReader p r').ahead_emit e
      have hall : (ns.map fun n => ChannelEvent.frame (β := Printed)
          (r'.eventFrame p (n.msg r'.channelId))).filterMap (·.frame?) =
          ns.map fun n => r'.eventFrame p (n.msg r'.channelId) := by
        simp [filterMap_map, ChannelEvent.frame?]
      unfold ahead at hemit ⊢
      rw [filterMap_append, ← append_assoc, hemit, hall]
      simp [e, ChannelEvent.frame?]
      rfl
    · intro f hf
      obtain ⟨n, -, rfl⟩ := mem_map.mp hf
      exact ⟨rfl, Notice.isEvent ..⟩
    · intro f hf id q hq
      obtain ⟨n, -, rfl⟩ := mem_map.mp hf
      have hnone : (r'.eventFrame p (n.msg r'.channelId)).frame.exited = none :=
        Notice.not_exited ..
      rw [hnone] at hq
      cases hq

theorem exit (status status' : Option (Int × Option String)) :
    Effect s (.exit p status') (s.exit p r status) := by
  refine sendChannelEvent hr (by rfl) (by rfl) (by rfl) ⟨rfl, rfl, rfl, fun _ => rfl⟩ ?_
  rintro id q ⟨⟩
  exact ⟨rfl, rfl, status', rfl⟩

theorem serve (h : WellFormed s) (hs' : s.serve p r = some s') :
    Effect s (.serve p) s' := by
  unfold State.serve at hs'
  split at hs'
  · cases hs'
  · next c rest hcommands =>
    have hset : Quiet s [] (s.setReader p { r with commands := rest }) :=
      .setReader hr rfl rfl rfl
    dsimp only at hs'
    split at hs'
    · next owner isOpen a id q reads hconn =>
      split at hs'
      · next hq =>
        subst hq
        cases hs'
        -- the handler waits for a reader of the channel it asked about
        obtain ⟨r₀, hr₀, hid⟩ := h.awaiting c _ a id q hconn rfl
        obtain rfl : r = r₀ := some_inj.mp (hr.symm.trans hr₀)
        refine .draws rfl hr (by rw [hcommands]; rfl) ?_ (hset.andThen (.setHandler _ c _))
        rintro c' id' q' m ⟨conn', a', hconn', hh⟩
        obtain ⟨conn, hconn, rfl⟩ := conns_setHandler.mp hconn'
        split at hh
        · next hcc =>
          obtain ⟨rfl, rfl, rfl, rfl⟩ := hh
          exact .inr ⟨hcc, hid.symm, rfl, rfl⟩
        · exact .inl ⟨conn, a', hconn, hh⟩
      · cases hs'
        exact .replies (.silent hset (.of_conns rfl))
    · cases hs'
      exact .replies (.silent hset (.of_conns rfl))
  · cases hs'
    exact .replies (.setReader hr rfl rfl rfl)
  · cases hs'
    exact .replies (.setReader hr rfl rfl rfl)

end

theorem register (h : WellFormed s) (o : OwnerId) : Effect s (.register o) (s.register o) := by
  unfold State.register
  cases hactive : s.routes.connections.get o with
  | none =>
    exact .registers rfl (l := []) (forall_mem_nil _) (by rw [append_nil]) (fun _ _ => rfl) rfl rfl rfl rfl
  | some old =>
    obtain ⟨conn, hconn, -⟩ := h.active o old hactive
    unfold send
    by_cases hopen : s.isOpen old
    · refine .registers rfl (l := [(old, (displaced s.nextConn).reply)]) ?_ ?_ ?_ ?_ ?_ ?_ ?_
      · intro e he
        obtain rfl := mem_singleton.mp he
        exact ⟨rfl, h.conn_lt old conn hconn⟩
      all_goals simp only [hopen, if_true]
      · exact fun _ _ => rfl
      · rfl
    · refine .registers rfl (l := []) (forall_mem_nil _) ?_ ?_ ?_ ?_ ?_ ?_
      all_goals simp only [hopen, append_nil]
      all_goals first | rfl | exact fun _ _ => rfl

theorem announce {requestId id : String} (hc : s.conns c = some conn)
    (hh : conn.handler = .listed requestId id p) :
    Effect s (.resume c) (s.announce c requestId id p) := by
  have hquiet := (Quiet.send s c ⟨.spawnOk requestId id, some p⟩).andThen (.setHandler _ c .idle)
  have hsettles : Settles s ((s.send c ⟨.spawnOk requestId id, some p⟩).setHandler c .idle) :=
    (Settles.send s c _).trans (.setHandler _ c nofun)
  unfold State.announce
  dsimp only
  split
  · next r hr =>
    exact .announces rfl hc hh (hsettles.trans (.of_conns rfl))
      (hquiet.andThen (.setReader hr rfl rfl rfl))
  · exact .announces rfl hc hh hsettles hquiet

theorem answer {ask : Ask} {id : String} {m : Mirror}
    (hc : s.conns c = some conn) (hh : conn.handler = .answered ask id p m) :
    Effect s (.resume c) (s.answer c ask id p m) := by
  have hidle := Quiet.setHandler s c .idle
  have hsettles : Settles s (s.setHandler c .idle) := .setHandler s c nofun
  have hhanded : ∀ f, (s.setHandler c .idle).handed c f = s.handed c f := by
    intro f
    unfold handed
    rw [isOpen_setHandler]
  -- the snapshot goes out in one of two messages
  have hsent : ∀ f : Frame, f.snapshot = some (id, p, m) →
      Effect s (.resume c) ((s.setHandler c .idle).send c f) := by
    intro f hf
    refine .answers rfl ⟨conn, ask, hc, hh⟩ hf (hsettles.trans (.send _ c f)) ?_
    rw [← hhanded f]
    exact hidle.after (.send _ c f)
  cases ask with
  | snapshotReq | attach => exact hsent _ rfl
  | cwdQuery => exact .replies (.silent hidle hsettles)

theorem resume (h : WellFormed s) (hc : s.conns c = some conn)
    (hs' : s.resume c conn = some s') : Effect s (.resume c) s' := by
  unfold State.resume at hs'
  split at hs'
  · cases hs'
    exact .replies (.greet s c conn)
  · cases hs'
    exact .replies (Replies.asking.tellSize ..)
  · cases hs'
    exact .replies (Replies.asking.lookUp (fun s c _ _ _ => .setHandler s c nofun) ..)
  · obtain ⟨-, ⟨rfl⟩⟩ := ite_none_left_eq_some.mp hs'
    exact .replies (Replies.sends.readerGone ..).idle
  · next hh =>
    cases hs'
    exact answer hc hh
  · cases hs'
    exact .replies (.takeReader ..)
  · next hh =>
    cases hs'
    exact .replies (.list h hc hh)
  · next hh =>
    cases hs'
    exact announce hc hh
  · cases hs'
  · cases hs'

end Effect

/-- **What a step does.** -/
theorem step_effect {s' : State} {a : Step} {len : Frame → ℕ} (h : WellFormed s)
    (hs' : step len s a = some s') : Effect s a s' := by
  cases leads_of_step hs' with
  | register => exact .register h _
  | writerEnds hc => exact .replies (.silent (.writerEnds hc) (.writerEnds hc))
  | connectionEnds => exact .replies (.silent (.leave s ..) (.setHandler s _ nofun))
  | plain => exact .replies (Replies.sends.plain ..)
  | input => exact .replies ((Replies.handling _).input ..)
  | resize => exact .replies ((Replies.handling _).resize ..)
  | destroy => exact .replies ((Replies.handling _).destroy ..)
  | ask => exact .replies ((Replies.handling _).ask ..)
  | spawn => exact .replies (.spawn ..)
  | stop => exact .replies ((Replies.handling _).stop ..)
  | resume hc hs' => exact .resume h hc hs'
  | read hr => exact .read (WellFormed.readerAt_eq hr) ..
  | @notice p r n hr =>
    have hr := WellFormed.readerAt_eq hr
    have hself : s.setReader p r = s := by
      unfold setReader
      rw [← hr, Function.update_eq_self]
    have hsaid : Effect s (.notice p n)
        ((s.setReader p r).sendChannelEvent p r (n.msg r.channelId)) := by
      refine .sendChannelEvent hr rfl rfl rfl (Notice.isEvent ..) ?_
      intro id q hq
      rw [Notice.not_exited] at hq
      cases hq
    rwa [hself] at hsaid
  | serve hr hs' => exact .serve (WellFormed.readerAt_eq hr) h hs'
  | eof hr =>
    exact .sendChannelEvent (WellFormed.readerAt_eq hr) (by rfl) (by rfl) (by rfl)
      ⟨rfl, rfl, rfl, fun _ => rfl⟩ nofun
  | closeQueue hr => exact .replies (.setReader (WellFormed.readerAt_eq hr) rfl rfl rfl)
  | @unlist p r hr =>
    have hset : Quiet s [] (s.setReader p { r with stage := .unlisted }) :=
      .setReader (WellFormed.readerAt_eq hr) rfl rfl rfl
    exact .replies (.silent { hset with } (.of_conns rfl))
  | takeOwn hr =>
    exact .replies ((Replies.setReader (WellFormed.readerAt_eq hr) (by rfl) (by rfl)
      (by rfl)).trans (.manager _ _))
  | exit hr => exact .exit hr ..
  | writeInput | shutdown | sweep => exact .replies (.manager s _)
  | batch he =>
    exact .replies (.silent { Quiet.refl s with line := s.line_batch he, ahead := s.ahead_batch he }
      (.of_conns rfl))
  | tick =>
    exact .replies (.silent { Quiet.refl s with line := s.line_tick, ahead := s.ahead_tick }
      (.of_conns rfl))
  | route he => exact .routes rfl he rfl
  | hubReads hc => exact .hubReads rfl hc rfl

/-! ### The router -/

namespace State

variable {s : State} {e : BatchedEvent Printed Frame} {rest : List (BatchedEvent Printed Frame)}

section

variable (len : Frame → ℕ)
include len

theorem line_route (he : s.batched = e :: rest) (o : OwnerId) (id : String) :
    s.line o id = e.bytesOf o id ++ (s.route len e rest).line o id := by
  unfold line
  rw [he, outputOf_cons, append_assoc]
  rfl

/-- The router takes the first frame. -/
theorem ahead_route (he : s.batched = e :: rest) :
    s.ahead = framesOf [e] ++ (s.route len e rest).ahead := by
  unfold ahead
  rw [he, ← append_assoc]
  refine congrArg (· ++ s.events.filterMap (·.frame?)) ?_
  exact filterMap_append (l := [e])

/-- The hub a routed event belongs to. -/
def routedOwner (e : BatchedEvent Printed Frame) : OwnerId := (intoRouted e).1

/-- The frame an event is sent as. -/
def routedFrame (e : BatchedEvent Printed Frame) : Frame := (intoRouted e).2.2

theorem route_wire :
    (s.route len e rest).wire =
      s.wire ++ ((s.target (routedOwner e)).map (·, routedFrame e)).toList := by
  unfold route HubRoutes.route target
  dsimp only
  change _ = s.wire ++ (Option.map _ (s.routes.target s.isOpen (intoRouted e).1)).toList
  cases s.routes.target s.isOpen (intoRouted e).1 <;> rfl

theorem route_connections :
    (s.route len e rest).routes.connections = s.routes.connections := by
  unfold route HubRoutes.route
  dsimp only
  cases s.routes.target s.isOpen (intoRouted e).1 <;> rfl

theorem route_target : (s.route len e rest).target = s.target := by
  funext o
  unfold target HubRoutes.target
  rw [route_connections]
  rfl

end

/-- A frame that is kept was kept before, or is the routed one. -/
theorem route_kept {len : Frame → ℕ} {o : OwnerId} {f : Frame}
    (h : f ∈ (s.route len e rest).routes.kept o) :
    (f = routedFrame e ∧ o = routedOwner e) ∨ f ∈ s.routes.kept o := by
  unfold route HubRoutes.route at h
  dsimp only at h
  split at h
  · exact .inr h
  · exact HubRoutes.mem_kept_keep h

theorem printed_routedFrame (e : BatchedEvent Printed Frame) (id : String)
    (hevent : ∀ f, e = .frame f → f.frame.printed id = []) :
    (routedFrame e).printed id = e.bytesOf (routedOwner e) id := by
  cases e with
  | output b =>
    simp [routedFrame, routedOwner, intoRouted, Frame.printed, BatchedEvent.bytesOf,
      BatchedOutput.bytesOf]
  | frame f => exact hevent f rfl

end State

/-! ### What the frames on their way are -/

/-- What the readers say is no output, no snapshot and no SPAWN_OK, and what is kept for a
hub neither confirms a start nor carries a snapshot. -/
structure Sorted (s : State) : Prop where
  ahead : ∀ e ∈ s.ahead, ∃ p, e.frame.IsEvent p
  kept : ∀ o, ∀ f ∈ s.routes.kept o, f.spawned = none ∧ f.snapshot = none

theorem kept_of_queues {s' : State} (h : s'.routes.queues = s.routes.queues) (o : OwnerId) :
    s'.routes.kept o = s.routes.kept o := by
  unfold HubRoutes.kept
  rw [h]

namespace Sorted

variable {s s' : State}

theorem init : Sorted init where
  ahead _ h := nomatch h
  kept _ _ h := nomatch h

theorem congr (h : Sorted s) (hahead : s'.ahead = s.ahead)
    (hkept : s'.routes.queues = s.routes.queues) : Sorted s' where
  ahead := hahead ▸ h.ahead
  kept o f hf := h.kept o f (kept_of_queues hkept o ▸ hf)

/-- A routed frame neither confirms a start nor carries a snapshot, and its output is that of
the event it was made from. -/
theorem routedFrame (h : Sorted s) {e : BatchedEvent Printed Frame}
    {rest : List (BatchedEvent Printed Frame)} (he : s.batched = e :: rest) :
    (routedFrame e).spawned = none ∧ (routedFrame e).snapshot = none ∧
      ∀ id, (routedFrame e).printed id = e.bytesOf (routedOwner e) id := by
  cases e with
  | output b =>
    refine ⟨rfl, rfl, fun id => printed_routedFrame _ id fun _ h => nomatch h⟩
  | frame f =>
    have hmem : f ∈ s.ahead := by
      unfold State.ahead
      rw [he]
      exact mem_append_left _ mem_cons_self
    obtain ⟨p, hf⟩ := h.ahead f hmem
    refine ⟨hf.spawned, hf.snapshot, fun id => printed_routedFrame _ id ?_⟩
    rintro f' ⟨rfl⟩
    exact hf.printed id

/-- Every step keeps it, by what it can do. -/
theorem step {a : Step} (h : Sorted s) (ha : Effect s a s') : Sorted s' := by
  cases ha with
  | replies hr =>
    obtain ⟨l, hq, -⟩ := hr.quiet
    exact h.congr hq.ahead hq.kept
  | announces _ _ _ _ hq | answers _ _ _ _ hq | draws _ _ _ _ hq => exact h.congr hq.ahead hq.kept
  | registers _ _ _ _ hahead _ _ hroutes =>
    refine ⟨hahead ▸ h.ahead, ?_⟩
    intro o f hf
    rw [hroutes, HubRoutes.kept_registerActive] at hf
    split at hf
    · cases hf
    · exact h.kept o f hf
  | emits _ _ _ _ _ _ _ _ hahead hfs _ _ hroutes _ =>
    refine ⟨?_, hroutes ▸ h.kept⟩
    intro e he
    rw [hahead] at he
    rcases mem_append.mp he with he | he
    · exact h.ahead e he
    · exact ⟨_, (hfs e he).2⟩
  | routes _ he hs' =>
    subst hs'
    obtain ⟨hspawned, hsnapshot, -⟩ := h.routedFrame he
    refine ⟨?_, ?_⟩
    · intro f hf
      refine h.ahead f ?_
      rw [ahead_route _ he]
      exact mem_append_right _ hf
    · intro o f hf
      rcases route_kept hf with ⟨rfl, -⟩ | hf
      · exact ⟨hspawned, hsnapshot⟩
      · exact h.kept o f hf
  | hubReads _ _ hs' =>
    subst hs'
    exact h.congr rfl rfl

end Sorted

end Lasterm.Agent
