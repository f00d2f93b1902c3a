import Lasterm.Agent.Ownership
import Lasterm.Agent.Pipeline

/-!
# Hubs that share an agent

What a terminal prints and reports goes to the hub it was started for, on its connection or
into its away queue; and a request of a hub neither changes nor reveals a channel of another.
The second is said twice over: a request leaves every channel and reader of another hub as
they are, and it does the same, answers included, in a daemon that has none of them.

## Main results

* `hubs_are_isolated` — both, in every run in which no id passes to another hub during a request.
* `attach_reaches_another_hub` — what happens otherwise.
* `registered_and_kept` — what is registered and kept, in every run.
-/

namespace Lasterm.Agent.Isolation

open Function (update update_self update_of_ne)
open Transition List Option OrderedMap

/-! ### Delivery -/

/-- The output in a frame. -/
def bytes (f : Frame) : List Printed :=
  match f.msg with
  | .output _ _ data => data
  | _ => []

/-- The processes a frame tells of: the one whose reader sent it, and those whose output is in
it, as output or on a screen. -/
def about (f : Frame) : List ℕ :=
  f.pid.toList ++ (bytes f ++ f.snapshot.elim [] (·.2.2.drawn)).map (·.workload)

/-- What is on its way, kept or handed to a connection is of processes started for the hub it
is for. -/
structure Delivered (s : State) : Prop where
  line : ∀ o id, ∀ b ∈ s.line o id, holder s b.workload = some o
  ahead : ∀ e ∈ s.ahead, ∀ p ∈ about e.frame, holder s p = some e.owner
  kept : ∀ o, ∀ f ∈ s.routes.kept o, ∀ p ∈ about f, holder s p = some o
  wire : ∀ e ∈ s.wire, ∀ p ∈ about e.2, ∃ o, s.ownerOf e.1 = some o ∧ holder s p = some o

variable {f : Frame} {p : ℕ}

theorem mem_about : p ∈ about f ↔ f.pid = some p ∨ (∃ b ∈ bytes f, b.workload = p) ∨
      ∃ id q m, f.snapshot = some (id, q, m) ∧ ∃ b ∈ m.drawn, b.workload = p := by
  unfold about
  rw [mem_append, mem_toList, map_append, mem_append,
    List.mem_map, List.mem_map]
  cases f.snapshot with
  | none => simp
  | some x =>
    obtain ⟨id, q, m⟩ := x
    simp

theorem about_of_isReply (h : f.isReply = true) : about f = [] := by
  have hbytes : bytes f = [] := by
    obtain ⟨msg, pid⟩ := f
    cases msg <;> first | rfl | simp [Frame.isReply] at h
  unfold about
  rw [Frame.pid_of_isReply h, Frame.snapshot_of_isReply h, hbytes]
  rfl

theorem about_of_isEvent (h : f.IsEvent p) : about f = [p] := by
  have hbytes : bytes f = [] := by
    have hprinted := h.printed
    obtain ⟨msg, pid⟩ := f
    cases msg with
    | output id seq data => simpa [Frame.printed, bytes] using hprinted id
    | _ => rfl
  unfold about
  rw [h.pid, h.snapshot, hbytes]
  rfl

namespace Delivered

variable {s s' : State}

theorem init : Delivered init where
  line _ _ _ h := nomatch h
  ahead _ h := nomatch h
  kept _ _ h := nomatch h
  wire _ h := nomatch h

section

variable (h : Delivered s)
include h

theorem quiet (hg : Grows s s') {l : List (ℕ × Frame)} (hq : Quiet s l s')
    (hl : ∀ e ∈ l, ∀ p ∈ about e.2, ∃ o, s.ownerOf e.1 = some o ∧ holder s p = some o) :
    Delivered s' where
  line o id b hb := by
    rw [hq.line] at hb
    exact hg.holder _ _ (h.line o id b hb)
  ahead e he p hp := by
    rw [hq.ahead] at he
    exact hg.holder _ _ (h.ahead e he p hp)
  kept o f hf p hp := by
    rw [kept_of_queues hq.kept] at hf
    exact hg.holder _ _ (h.kept o f hf p hp)
  wire e he p hp := by
    rw [hq.wire] at he
    rw [hq.owners]
    have hwire : ∃ o, s.ownerOf e.1 = some o ∧ holder s p = some o := by
      rcases mem_append.mp he with he | he
      · exact h.wire e he p hp
      · exact hl e he p hp
    obtain ⟨o, ho, hholder⟩ := hwire
    exact ⟨o, ho, hg.holder _ _ hholder⟩

theorem registers (hw : WellFormed s) (hg : Grows s s') {o : OwnerId}
    {l : List (ℕ × Frame)} (hl : ∀ e ∈ l, e.2.isReply = true)
    (hwire : s'.wire = s.wire ++ l ++ (s.routes.kept o).map (s.nextConn, ·))
    (hline : ∀ o id, s'.line o id = s.line o id) (hahead : s'.ahead = s.ahead)
    (hconns : s'.conns = update s.conns s.nextConn (some ⟨o, true, .greeting, []⟩))
    (hroutes : s'.routes = s.routes.registerActive o s.nextConn) : Delivered s' where
  line o' id b hb := by
    rw [hline] at hb
    exact hg.holder _ _ (h.line o' id b hb)
  ahead e he p hp := by
    rw [hahead] at he
    exact hg.holder _ _ (h.ahead e he p hp)
  kept o' f hf p hp := by
    rw [hroutes, HubRoutes.kept_registerActive] at hf
    split at hf
    · cases hf
    · exact hg.holder _ _ (h.kept o' f hf p hp)
  wire e he p hp := by
    rw [hwire, append_assoc] at he
    rcases mem_append.mp he with he | he
    · obtain ⟨o', ho', hholder⟩ := h.wire e he p hp
      refine ⟨o', ?_, hg.holder _ _ hholder⟩
      unfold State.ownerOf at ho' ⊢
      rwa [hconns, update_of_ne (Nat.ne_of_lt (hw.wire_lt e he))]
    rcases mem_append.mp he with he | he
    · rw [about_of_isReply (hl e he)] at hp
      cases hp
    · obtain ⟨f, hf, rfl⟩ := mem_map.mp he
      refine ⟨o, ?_, hg.holder _ _ (h.kept o f hf p hp)⟩
      unfold State.ownerOf
      rw [hconns, update_self]
      rfl

theorem emits (ho : Owned s) (hg : Grows s s') {r : Reader}
    {data : List Printed} {fs : List (EventFrame Frame)} (hr : s.readers p = some r)
    (hdata : ∀ b ∈ data, b.workload = r.source)
    (hline : ∀ o id, s'.line o id =
      s.line o id ++ if r.owner = o ∧ r.channelId = id then data else [])
    (hahead : s'.ahead = s.ahead ++ fs)
    (hfs : ∀ e ∈ fs, e.owner = r.owner ∧ e.frame.IsEvent p)
    (hconns : s'.conns = s.conns) (hroutes : s'.routes = s.routes) (hwire : s'.wire = s.wire) :
    Delivered s' where
  line o id b hb := by
    refine hg.holder _ _ ?_
    rw [hline] at hb
    rcases mem_append.mp hb with hold | hnew
    · exact h.line o id b hold
    · split at hnew
      · next hmine =>
        rw [hdata b hnew, ← hmine.1]
        exact (ho.reader p r hr).2.1
      · cases hnew
  ahead e he q hq := by
    refine hg.holder _ _ ?_
    rw [hahead] at he
    rcases mem_append.mp he with he | he
    · exact h.ahead e he q hq
    · obtain ⟨howner, hevent⟩ := hfs e he
      rw [about_of_isEvent hevent, mem_singleton] at hq
      rw [hq, howner]
      exact (ho.reader p r hr).1
  kept o f hf q hq := by
    rw [hroutes] at hf
    exact hg.holder _ _ (h.kept o f hf q hq)
  wire e he q hq := by
    rw [hwire] at he
    obtain ⟨o, howner, hholder⟩ := h.wire e he q hq
    refine ⟨o, ?_, hg.holder _ _ hholder⟩
    unfold State.ownerOf
    rwa [hconns]

theorem about_routedFrame {e : BatchedEvent Printed Frame}
    {rest : List (BatchedEvent Printed Frame)} (he : s.batched = e :: rest)
    (hp : p ∈ about (State.routedFrame e)) : holder s p = some (State.routedOwner e) := by
  cases e with
  | output b =>
    rcases mem_about.mp hp with hp | ⟨x, hx, rfl⟩ | ⟨id, q, m, hm, -⟩
    · cases hp
    · refine h.line b.owner b.channelId x ?_
      rw [State.line_route (fun _ => 0) he]
      refine mem_append_left _ ?_
      have hself : (BatchedEvent.output (φ := Frame) b).bytesOf b.owner b.channelId = b.data := by
        simp [BatchedEvent.bytesOf, BatchedOutput.bytesOf]
      rw [hself]
      exact hx
    · cases hm
  | frame f =>
    refine h.ahead f ?_ p hp
    unfold State.ahead
    rw [he]
    exact mem_append_left _ mem_cons_self

theorem routes (hw : WellFormed s) {len : Frame → ℕ}
    {e : BatchedEvent Printed Frame} {rest : List (BatchedEvent Printed Frame)}
    (he : s.batched = e :: rest) : Delivered (s.route len e rest) where
  line o id b hb := by
    refine h.line o id b ?_
    rw [State.line_route len he]
    exact mem_append_right _ hb
  ahead f hf := by
    refine h.ahead f ?_
    rw [State.ahead_route len he]
    exact mem_append_right _ hf
  kept o f hf p hp := by
    rcases State.route_kept hf with ⟨rfl, rfl⟩ | hf
    · exact h.about_routedFrame he hp
    · exact h.kept o f hf p hp
  wire x hx p hp := by
    rw [State.route_wire] at hx
    rcases mem_append.mp hx with hx | hx
    · exact h.wire x hx p hp
    · obtain ⟨c, hc, rfl⟩ := map_eq_some_iff.mp (mem_toList.mp hx)
      obtain ⟨conn, hconn, howner⟩ := hw.active _ _ (State.target_eq_some.mp hc).1
      refine ⟨State.routedOwner e, ?_, h.about_routedFrame he hp⟩
      have hconn' : (s.route len e rest).conns c = some conn := hconn
      unfold State.ownerOf
      rw [hconn', ← howner]
      rfl

/-- A step delivers what is a hub's to that hub. -/
theorem step (hw : WellFormed s) (ho : Owned s) (hg : Grows s s') {a : Step}
    (ha : Effect s a s') : Delivered s' := by
  have hhanded : ∀ c f e, e ∈ s.handed c f → e = (c, f) := by
    intro c f e he
    unfold State.handed at he
    split at he
    · exact mem_singleton.mp he
    · cases he
  have howner : ∀ c conn, s.conns c = some conn → s.ownerOf c = some conn.owner := by
    intro c conn hc
    unfold State.ownerOf
    rw [hc]
    rfl
  cases ha with
  | replies hr =>
    obtain ⟨l, hq, hl⟩ := hr.quiet
    refine h.quiet hg hq ?_
    intro e he p hp
    rw [about_of_isReply (hl e he)] at hp
    cases hp
  | @announces c conn requestId id p _ hc hh _ hq =>
    refine h.quiet hg hq ?_
    intro e he q hp
    rw [hhanded _ _ e he] at hp ⊢
    obtain rfl : q = p := mem_singleton.mp hp
    have hlisted := ho.handler c conn hc
    rw [hh] at hlisted
    exact ⟨_, howner c conn hc, hlisted⟩
  | @answers c id p m f _ hm hf _ hq =>
    refine h.quiet hg hq ?_
    intro e he q hp
    rw [hhanded _ _ e he] at hp ⊢
    obtain ⟨conn, ask, hc, hh⟩ := hm
    have hanswered := ho.handler c conn hc
    rw [hh] at hanswered
    refine ⟨_, howner c conn hc, ?_⟩
    have hpid : f.pid = some p ∧ bytes f = [] := by
      unfold Frame.snapshot at hf
      unfold bytes
      split at hf
      · next hmsg hpid => cases hf; exact ⟨hpid, by rw [hmsg]⟩
      · next hmsg hpid => cases hf; exact ⟨hpid, by rw [hmsg]⟩
      · cases hf
    rcases mem_about.mp hp with hp | ⟨b, hb, -⟩ | ⟨id', p', m', hm', b, hb, rfl⟩
    · obtain rfl : p = q := some_inj.mp (hpid.1.symm.trans hp)
      exact hanswered.1
    · rw [hpid.2] at hb
      cases hb
    · obtain ⟨-, -, rfl⟩ : id = id' ∧ p = p' ∧ m = m' := by simpa [hf] using hm'
      exact hanswered.2 b hb
  | draws _ _ _ _ hq => exact h.quiet hg hq fun _ he => nomatch he
  | registers _ hl hwire hline hahead _ hconns hroutes =>
    exact h.registers hw hg (fun e he => (hl e he).1) hwire hline hahead hconns hroutes
  | emits hr _ _ _ _ hdata _ hline hahead hfs _ hconns hroutes hwire =>
    exact h.emits ho hg hr (fun b hb => (hdata b hb).1) hline hahead hfs hconns hroutes hwire
  | routes _ he hs' =>
    subst hs'
    exact h.routes hw he
  | @hubReads c n conn _ hc hs' =>
    subst hs'
    refine { h with wire := ?_ }
    intro e he p hp
    obtain ⟨o, hown, hholder⟩ := h.wire e he p hp
    refine ⟨o, ?_, hholder⟩
    exact (State.map_conns_setConn (·.owner) hc (by rfl) e.1).trans hown

end

end Delivered

/-! ### Requests -/

/-- The handlers between two locks of RESIZE, ATTACH, SNAPSHOT_REQ and CWD_QUERY. -/
def isRequest : Handler → Bool
  | .resized .. | .visible .. | .awaiting .. | .answered .. => true
  | _ => false

/-- A step is one of an INPUT, RESIZE, DESTROY, ATTACH, SNAPSHOT_REQ or CWD_QUERY that came on
connection `c`. -/
def Requests (s : State) (c : ℕ) : Step → Prop
  | .input c' _ _ | .resize c' _ _ _ | .destroy c' _ _ | .ask c' _ _ => c' = c
  | .resume c' => c' = c ∧ (s.conns c).any (isRequest ·.handler) = true
  | _ => False

/-- The channels of hubs other than `o` are left as they are: their input, their size, their
life, and their readers with what is on the screen and the commands that wait. -/
structure Apart (o : OwnerId) (s s' : State) : Prop where
  channels : ∀ id ch, s.manager.channels.get id = some ch → ch.owner ≠ o →
    s'.manager.channels.get id = some ch
  senders : s'.cmdSenders = s.cmdSenders
  readers : ∀ p r, s.readers p = some r → r.owner ≠ o → s'.readers p = some r

/-- The daemon without the channels and readers of hubs other than `o`. -/
def hide (o : OwnerId) (s : State) : State :=
  { s with
    manager := { s.manager with channels := s.manager.channels.filter (·.owner = o) }
    cmdSenders := s.cmdSenders.filter fun p => (s.readers p).any (·.owner = o)
    readers := fun p => (s.readers p).filter (·.owner = o) }

/-- A step of a request leaves the channels of other hubs alone, and does what it would do,
answers included, if there were none. -/
def Respects (len : Frame → ℕ) (s : State) (a : Step) (s' : State) : Prop :=
  ∀ c conn, s.conns c = some conn → Requests s c a →
    Apart conn.owner s s' ∧ step len (hide conn.owner s) a = some (hide conn.owner s')

variable {s s' s'' : State} {c p : ℕ} {o : OwnerId} {ch : PtyChannelState}

namespace Apart

theorem congr (hmanager : s'.manager.channels = s.manager.channels)
    (hsenders : s'.cmdSenders = s.cmdSenders) (hreaders : s'.readers = s.readers) :
    Apart o s s' :=
  ⟨fun _ _ h _ => hmanager ▸ h, hsenders, fun _ _ h _ => hreaders ▸ h⟩

theorem refl (o : OwnerId) (s : State) : Apart o s s := .congr rfl rfl rfl

theorem trans (h : Apart o s s') (h' : Apart o s' s'') : Apart o s s'' where
  channels id ch hch hne := h'.channels id ch (h.channels id ch hch hne) hne
  senders := h'.senders.trans h.senders
  readers p r hr hne := h'.readers p r (h.readers p r hr hne) hne

theorem send (s : State) (c : ℕ) (f : Frame) : Apart o s (s.send c f) := by
  unfold State.send
  split <;> exact .congr rfl rfl rfl

theorem setHandler (s : State) (c : ℕ) (hd : Handler) : Apart o s (s.setHandler c hd) :=
  .congr rfl rfl rfl

theorem command {cmd : ChannelCommand} (hcmd : s.command p cmd = some s')
    (hmine : ∀ r, s.readers p = some r → r.owner = o) : Apart o s s' := by
  obtain ⟨r, hr, rfl⟩ := State.of_command hcmd
  refine { refl o s with readers := ?_ }
  intro q r₀ hq hne
  have hqp : q ≠ p := by
    rintro rfl
    exact hne (hmine r₀ hq)
  exact (update_of_ne hqp ..).trans hq

theorem ne_of_ownedBy {id id' : String} {ch' : PtyChannelState}
    (hch : s.manager.ownedBy id o = some ch) (hch' : s.manager.channels.get id' = some ch')
    (hne : ch'.owner ≠ o) : id' ≠ id := by
  obtain ⟨hget, howner⟩ := filter_eq_some_iff.mp hch
  rintro rfl
  obtain rfl : ch = ch' := some_inj.mp (hget.symm.trans hch')
  exact hne (of_decide_eq_true howner)

theorem modify {id : String} (hch : s.manager.ownedBy id o = some ch)
    (f : PtyChannelState → PtyChannelState) :
    Apart o s { s with manager := s.manager.modify id f } := by
  refine { refl o s with channels := ?_ }
  intro id' ch' hch' hne
  unfold PtyManager.modify
  rw [(filter_eq_some_iff.mp hch).1]
  exact (get_set_of_ne _ (ne_of_ownedBy hch hch' hne) _).trans hch'

theorem remove {id : String} (hch : s.manager.ownedBy id o = some ch) :
    Apart o s { s with manager := s.manager.remove id } := by
  refine { refl o s with channels := ?_ }
  intro id' ch' hch' hne
  exact (get_delete_of_ne _ (ne_of_ownedBy hch hch' hne)).trans hch'

theorem sends : Sends (Apart o) := ⟨refl o, fun s c _ _ => send s c _⟩

theorem handling : Handling o (Apart o) where
  toSends := sends
  trans := trans
  resized _ _ _ _ _ := .setHandler ..
  visible _ _ _ _ := .setHandler ..
  modify hch _ := .modify hch _
  remove := .remove
  shutdown _ := .congr rfl rfl rfl

end Apart

/-! ### The daemon without the others -/

@[simp] theorem hide_isOpen (o : OwnerId) (s : State) : (hide o s).isOpen = s.isOpen := rfl

theorem hide_ownedBy (o : OwnerId) (s : State) (id : String) :
    (hide o s).manager.ownedBy id o = s.manager.ownedBy id o := by
  unfold PtyManager.ownedBy hide
  rw [OrderedMap.get_filter, Option.filter_filter]
  simp

theorem hide_send (o : OwnerId) (s : State) (c : ℕ) (f : Frame) :
    (hide o s).send c f = hide o (s.send c f) := by
  unfold State.send
  rw [hide_isOpen]
  split <;> rfl

theorem hide_setHandler (o : OwnerId) (s : State) (c : ℕ) (hd : Handler) :
    (hide o s).setHandler c hd = hide o (s.setHandler c hd) := rfl

theorem hide_notFound (o : OwnerId) (s : State) (c : ℕ) (id : String) (a : Ask) :
    (hide o s).notFound c id a = hide o (s.notFound c id a) := by
  cases a with
  | snapshotReq => rfl
  | attach | cwdQuery => exact hide_send ..

theorem hide_readerGone (o : OwnerId) (s : State) (c : ℕ) (id : String) (a : Ask) :
    (hide o s).readerGone c id a = hide o (s.readerGone c id a) := by
  cases a with
  | snapshotReq => rfl
  | attach | cwdQuery => exact hide_send ..

theorem hide_modify {id : String} (hch : s.manager.ownedBy id o = some ch)
    {f : PtyChannelState → PtyChannelState} (hf : (f ch).owner = ch.owner) :
    { hide o s with manager := (hide o s).manager.modify id f } =
      hide o { s with manager := s.manager.modify id f } := by
  obtain ⟨hget, howner⟩ := filter_eq_some_iff.mp hch
  have hkept : (s.manager.channels.filter (·.owner = o)).get id = some ch := by
    rw [OrderedMap.get_filter]
    exact hch
  unfold hide PtyManager.modify
  rw [hkept, hget]
  rw [filter_set _ _ hget howner (by rw [hf]; exact howner)]

theorem hide_remove (o : OwnerId) (s : State) (id : String) :
    { hide o s with manager := (hide o s).manager.remove id } =
      hide o { s with manager := s.manager.remove id } := by
  unfold hide PtyManager.remove
  rw [filter_delete]

theorem hide_setReader {r r' : Reader} (hr : s.readers p = some r) (hmine : r.owner = o)
    (howner : r'.owner = r.owner) : (hide o s).setReader p r' = hide o (s.setReader p r') := by
  have hany : (fun q => (update s.readers p (some r') q).any (·.owner = o)) =
      fun q => (s.readers q).any (·.owner = o) := by
    funext q
    by_cases hq : q = p
    · subst hq
      rw [update_self, hr]
      simp [howner]
    · rw [update_of_ne hq]
  have hreaders : update (fun q => (s.readers q).filter (·.owner = o)) p (some r') =
      fun q => (update s.readers p (some r') q).filter (·.owner = o) := by
    funext q
    by_cases hq : q = p
    · subst hq
      rw [update_self, update_self]
      rw [filter_some, if_pos (decide_eq_true (howner.trans hmine))]
    · rw [update_of_ne hq, update_of_ne hq]
  unfold State.setReader hide
  rw [hany, hreaders]

theorem hide_command (cmd : ChannelCommand) (hmine : ∀ r, s.readers p = some r → r.owner = o) :
    (hide o s).command p cmd = (s.command p cmd).map (hide o) := by
  unfold State.command
  cases hr : s.readers p with
  | none =>
    have hnone : (hide o s).readers p = none := by simp [hide, hr]
    rw [hnone]
    rfl
  | some r =>
    have hsome : (hide o s).readers p = some r := by simp [hide, hr, hmine r hr]
    rw [hsome]
    dsimp only
    split
    · exact congrArg some (hide_setReader hr (hmine r hr) rfl)
    · rfl

theorem hide_get_cmdSenders (hw : WellFormed s) {id : String}
    (hok : ∀ r, (s.cmdSenders.get id).bind s.readers = some r → r.owner = o) :
    (hide o s).cmdSenders.get id = s.cmdSenders.get id := by
  unfold hide
  rw [OrderedMap.get_filter]
  cases hp : s.cmdSenders.get id with
  | none => rfl
  | some p =>
    obtain ⟨r, hr, -⟩ := hw.sender id p hp
    have howner : r.owner = o := by
      refine hok r ?_
      rw [hp]
      exact hr
    simp [hr, howner]

/-! ### Request by request -/

theorem hide_input (s : State) (c : ℕ) (o : OwnerId) (id : String) (data : List UInt8) :
    (hide o s).input c o id data = hide o (s.input c o id data) := by
  unfold State.input
  rw [hide_ownedBy]
  cases hch : s.manager.ownedBy id o with
  | none => exact hide_send ..
  | some ch =>
    dsimp only
    rw [hide_modify hch (by rfl)]
    split
    · exact hide_send ..
    · rfl

theorem hide_resize (s : State) (c : ℕ) (o : OwnerId) (id : String) (cols rows : ℕ) :
    (hide o s).resize c o id cols rows = hide o (s.resize c o id cols rows) := by
  unfold State.resize
  rw [hide_ownedBy]
  cases hch : s.manager.ownedBy id o with
  | none => exact hide_send ..
  | some ch =>
    rw [hide_modify hch (by rfl), hide_setHandler]

theorem hide_destroy (s : State) (o : OwnerId) (id : String) (teardown : Teardown) :
    (hide o s).destroy o id teardown = hide o (s.destroy o id teardown) := by
  unfold State.destroy
  rw [hide_ownedBy]
  cases s.manager.ownedBy id o with
  | none => rfl
  | some ch =>
    cases teardown with
    | failed => rfl
    | signalled | alreadyExited => exact hide_remove o s id

theorem hide_ask (s : State) (c : ℕ) (o : OwnerId) (a : Ask) (id : String) :
    (hide o s).ask c o a id = hide o (s.ask c o a id) := by
  unfold State.ask
  rw [hide_ownedBy]
  split
  · rfl
  · exact hide_notFound o s c id a

section LookedUp

variable {id : String}
  (hok : ∀ r, (s.cmdSenders.get id).bind s.readers = some r → r.owner = o)
include hok

theorem owner_of_sender (hp : s.cmdSenders.get id = some p) (r : Reader)
    (hr : s.readers p = some r) : r.owner = o := by
  refine hok r ?_
  rw [hp]
  exact hr

theorem tellSize_apart (c cols rows : ℕ) : Apart o s (s.tellSize c id cols rows) := by
  unfold State.tellSize
  cases hcmd : (s.cmdSenders.get id).bind fun p => s.command p (.resize cols rows) with
  | none => exact .setHandler ..
  | some s' =>
    obtain ⟨p, hp, hcmd⟩ := bind_eq_some_iff.mp hcmd
    exact (Apart.command hcmd (owner_of_sender hok hp)).trans (.setHandler ..)

theorem hide_tellSize (hw : WellFormed s) (c cols rows : ℕ) :
    (hide o s).tellSize c id cols rows = hide o (s.tellSize c id cols rows) := by
  unfold State.tellSize
  rw [hide_get_cmdSenders hw hok]
  cases hp : s.cmdSenders.get id with
  | none => rfl
  | some p =>
    simp only [bind_some]
    rw [hide_command _ (owner_of_sender hok hp)]
    cases s.command p (.resize cols rows) <;> rfl

theorem lookUp_apart (c : ℕ) (a : Ask) : Apart o s (s.lookUp c a id) := by
  unfold State.lookUp
  split
  · exact (Apart.sends.notFound s c id a).trans (.setHandler ..)
  · next p hp =>
    have hgone := (Apart.sends.readerGone s c id a).trans (.setHandler (o := o) _ c .idle)
    split
    · split
      · next s' hcmd =>
        exact (Apart.command hcmd (owner_of_sender hok hp)).trans (.setHandler ..)
      · exact hgone
    · split
      · next s' hcmd =>
        exact (Apart.command hcmd (owner_of_sender hok hp)).trans (.setHandler ..)
      · exact hgone

theorem hide_lookUp (hw : WellFormed s) (c : ℕ) (a : Ask) :
    (hide o s).lookUp c a id = hide o (s.lookUp c a id) := by
  unfold State.lookUp
  rw [hide_get_cmdSenders hw hok]
  cases hp : s.cmdSenders.get id with
  | none =>
    rw [hide_notFound, hide_setHandler]
  | some p =>
    have hcmd : ∀ cmd, (hide o s).command p cmd = (s.command p cmd).map (hide o) :=
      fun cmd => hide_command cmd (owner_of_sender hok hp)
    dsimp only
    rw [hide_readerGone, hcmd, hcmd]
    cases a with
    | cwdQuery => cases s.command p .cwdQuery <;> rfl
    | snapshotReq | attach => cases s.command p (.snapshot c) <;> rfl

end LookedUp

theorem answer_apart (s : State) (c : ℕ) (a : Ask) (id : String) (p : ℕ) (m : Mirror) :
    Apart o s (s.answer c a id p m) := by
  have hidle : Apart o s (s.setHandler c .idle) := .setHandler ..
  cases a with
  | snapshotReq | attach => exact hidle.trans (.send ..)
  | cwdQuery => exact hidle

/-- The last sequence number an answer gives says nothing of another hub: it is the same for
every channel, and for none. -/
theorem hide_answer (ho : Owned s) (c : ℕ) (a : Ask) (id : String) (p : ℕ) (m : Mirror) :
    (hide o s).answer c a id p m = hide o (s.answer c a id p m) := by
  have hseq : ∀ x : OrderedMap String PtyChannelState,
      (∀ ch, x.get id = some ch → ch.seq = 0) → (x.get id).elim 0 (·.seq) = 0 := by
    intro x hx
    cases hch : x.get id with
    | none => rfl
    | some ch => exact hx ch hch
  have hhidden : ((hide o s).manager.channels.get id).elim 0 (·.seq) = 0 := by
    refine hseq _ ?_
    intro ch hch
    unfold hide at hch
    rw [OrderedMap.get_filter] at hch
    exact (ho.channel id ch (filter_eq_some_iff.mp hch).1).2
  have hplain : (s.manager.channels.get id).elim 0 (·.seq) = 0 :=
    hseq _ fun ch hch => (ho.channel id ch hch).2
  unfold State.answer
  rw [hhidden, hplain, hide_setHandler]
  cases a with
  | snapshotReq | attach => exact hide_send ..
  | cwdQuery => rfl

theorem resume_respects (hw : WellFormed s) (ho : Owned s) {conn : Connection}
    (hc : s.conns c = some conn) (hrequest : isRequest conn.handler = true)
    (hok : Orderly s (.resume c)) (hs' : s.resume c conn = some s') :
    Apart conn.owner s s' ∧ (hide conn.owner s).resume c conn = some (hide conn.owner s') := by
  obtain ⟨owner, isOpen, handler, reads⟩ := conn
  have howned := ho.handler c _ hc
  simp only [Orderly, hc] at hok
  unfold State.resume at hs' ⊢
  cases handler with
  | resized id cols rows =>
    cases hs'
    exact ⟨tellSize_apart hok c cols rows, congrArg some (hide_tellSize hok hw c cols rows)⟩
  | visible a id =>
    cases hs'
    exact ⟨lookUp_apart hok c a, congrArg some (hide_lookUp hok hw c a)⟩
  | awaiting a id p =>
    obtain ⟨hlistens, ⟨rfl⟩⟩ := ite_none_left_eq_some.mp hs'
    refine ⟨(Apart.sends.readerGone s c id a).trans (.setHandler ..), ?_⟩
    obtain ⟨r, hr, howner⟩ := howned
    have hsome : (hide owner s).readers p = s.readers p := by
      have hmine : r.owner = owner := howner
      simp [hide, hr, hmine]
    dsimp only
    rw [hsome, if_neg hlistens, hide_readerGone, hide_setHandler]
  | answered a id p m =>
    cases hs'
    exact ⟨answer_apart s c a id p m, congrArg some (hide_answer ho c a id p m)⟩
  | _ => cases hrequest

theorem ready_eq_some {f : Connection → State} {conn : Connection} (hc : s.conns c = some conn)
    (hs' : (s.ready c).map f = some s') :
    s' = f conn ∧ ∀ g : Connection → State, ((hide o s).ready c).map g = some (g conn) := by
  obtain ⟨conn', hready, rfl⟩ := map_eq_some_iff.mp hs'
  obtain rfl : conn = conn' := some_inj.mp (hc.symm.trans (WellFormed.ready_eq hready))
  refine ⟨rfl, fun g => ?_⟩
  have hhide : (hide o s).ready c = s.ready c := rfl
  rw [hhide, hready]
  rfl

theorem respects (hw : WellFormed s) (ho : Owned s) {len : Frame → ℕ} {a : Step}
    (hok : Orderly s a) (hs' : step len s a = some s') : Respects len s a s' := by
  intro c conn hc hrequest
  cases a with
  | input c' id data =>
    obtain rfl : c' = c := hrequest
    obtain ⟨rfl, hhide⟩ := ready_eq_some (o := conn.owner) hc hs'
    exact ⟨Apart.handling.input .., (hhide _).trans (congrArg some (hide_input ..))⟩
  | resize c' id cols rows =>
    obtain rfl : c' = c := hrequest
    obtain ⟨rfl, hhide⟩ := ready_eq_some (o := conn.owner) hc hs'
    exact ⟨Apart.handling.resize .., (hhide _).trans (congrArg some (hide_resize ..))⟩
  | destroy c' id teardown =>
    obtain rfl : c' = c := hrequest
    obtain ⟨rfl, hhide⟩ := ready_eq_some (o := conn.owner) hc hs'
    exact ⟨Apart.handling.destroy .., (hhide _).trans (congrArg some (hide_destroy ..))⟩
  | ask c' a id =>
    obtain rfl : c' = c := hrequest
    obtain ⟨rfl, hhide⟩ := ready_eq_some (o := conn.owner) hc hs'
    exact ⟨Apart.handling.ask .., (hhide _).trans (congrArg some (hide_ask ..))⟩
  | resume c' =>
    obtain ⟨rfl, hany⟩ := hrequest
    rw [hc] at hany
    obtain ⟨conn', hconn', hresume⟩ := bind_eq_some_iff.mp hs'
    obtain rfl : conn = conn' := some_inj.mp (hc.symm.trans hconn')
    obtain ⟨hapart, hhide⟩ := resume_respects hw ho hc hany hok hresume
    exact ⟨hapart, bind_eq_some_iff.mpr ⟨conn, hc, hhide⟩⟩
  | _ => exact hrequest.elim

/-- **Hubs are isolated.**  In every run in which no request finds, after it let the manager's
lock go, that its id has passed to another hub: what is on its way, kept and sent is of
processes started for the hub it is for; and a step of a request leaves every channel of
another hub alone and does, answers included, what it would do if there were none. -/
theorem hubs_are_isolated (len : Frame → ℕ) (h : Run (Agent.step len) Orderly Agent.init s) :
    Delivered s ∧
      ∀ a s', Orderly s a → step len s a = some s' → Respects len s a s' := by
  have hinv : WellFormed s ∧ Owned s ∧ Delivered s := by
    refine h.invariant (I := fun s => WellFormed s ∧ Owned s ∧ Delivered s)
      ⟨.init, .init, .init⟩ ?_
    rintro s a s' ⟨hw, ho, hd⟩ hok hs'
    have hgrows := ho.step hw hok hs'
    exact ⟨hw.step hs', hgrows.owned, hd.step hw ho hgrows (step_effect hw hs')⟩
  obtain ⟨hw, ho, hd⟩ := hinv
  exact ⟨hd, fun a s' hok hs' => respects hw ho hok hs'⟩

/-- A hub attaches to a terminal of another: it is told there is none, and that terminal's
output goes to its own hub. -/
theorem attach_of_another_hub_refused :
    ∃ s s', exec (Agent.step fun _ => 1) Agent.init [.register ⟨"a"⟩, .register ⟨"b"⟩, .resume 0,
        .resume 1, .spawn 0 "r" (some "t") "" 80 24 (.ok ()), .resume 0, .resume 0, .resume 0,
        .read 0 [97] [], .batch, .tick, .route] = some s ∧
      Agent.step (fun _ => 1) s (.ask 1 (.attach none) "t") = some s' ∧
      s'.wire.drop 2 = [(0, ⟨.spawnOk "r" "t", some 0⟩), (0, ⟨.output "t" 1 [⟨0, 0, 97⟩], none⟩),
        (1, (channelNotFound "t" none).reply)] ∧
      Delivered s ∧ Respects (fun _ => 1) s (.ask 1 (.attach none) "t") s' := by
  have hrun : Run (Agent.step fun _ => 1) Orderly Agent.init _ := .get [.register ⟨"a"⟩,
    .register ⟨"b"⟩, .resume 0, .resume 1, .spawn 0 "r" (some "t") "" 80 24 (.ok ()), .resume 0,
    .resume 0, .resume 0, .read 0 [97] [], .batch, .tick, .route] (by decide +kernel)
    (by decide +kernel)
  obtain ⟨hdelivered, hrespects⟩ := hubs_are_isolated _ hrun
  exact ⟨_, _, (some_get _).symm, (some_get (by decide +kernel)).symm,
    by decide +kernel, hdelivered, hrespects _ _ trivial (some_get _).symm⟩

/-- A hub's ATTACH is past `visible_to` when its terminal ends and another hub starts one under
the id; the sender found then is that hub's, and its reader is asked for its screen. -/
theorem attach_reaches_another_hub :
    ¬∀ s, Run (Agent.step fun _ => 1) free Agent.init s →
      Delivered s ∧ ∀ a s', Agent.step (fun _ => 1) s a = some s' →
        Respects (fun _ => 1) s a s' := by
  intro h
  have hrun : Run (Agent.step fun _ => 1) free Agent.init _ := .get_free [.register ⟨"a"⟩,
    .register ⟨"b"⟩, .resume 0, .resume 1, .spawn 0 "r" (some "t") "" 80 24 (.ok ()), .resume 0,
    .resume 0, .resume 0, .ask 0 (.attach none) "t", .eof 0, .closeQueue 0, .unlist 0, .takeOwn 0,
    .spawn 1 "s" (some "t") "" 80 24 (.ok ()), .resume 1, .resume 1, .resume 1] (by decide +kernel)
  have hrespects := (h _ hrun).2 (.resume 0) _ (some_get (by decide +kernel)).symm
  have hapart := (hrespects 0 _ (some_get (by decide +kernel)).symm
    ⟨rfl, by decide +kernel⟩).1
  have hsame := hapart.readers 1 _ (some_get (by decide +kernel)).symm (by decide +kernel)
  exact absurd (congrArg (Option.map (·.commands)) hsame) (by decide +kernel)

/-- **In every run** the connection registered for a hub is one of its own, a command sender is one
of a reader of its channel, and what is kept for a hub that is away neither confirms a start
nor carries a snapshot. -/
theorem registered_and_kept {ok : State → Step → Prop} (len : Frame → ℕ)
    (h : Run (Agent.step len) ok Agent.init s) :
    (∀ o c, s.routes.connections.get o = some c → ∃ conn, s.conns c = some conn ∧ conn.owner = o) ∧
      (∀ id p, s.cmdSenders.get id = some p → ∃ r, s.readers p = some r ∧ r.channelId = id) ∧
      ∀ o, ∀ f ∈ s.routes.kept o, f.spawned = none ∧ f.snapshot = none := by
  have hinv : WellFormed s ∧ Sorted s :=
    h.invariant (I := fun s => WellFormed s ∧ Sorted s) ⟨.init, .init⟩
      fun _ _ _ hs _ hs' => ⟨hs.1.step hs', hs.2.step (step_effect hs.1 hs')⟩
  exact ⟨hinv.1.active, hinv.1.sender, hinv.2.kept⟩

/-- A terminal prints while its hub is away. -/
theorem registered_and_kept_away :
    ∃ s, exec (Agent.step fun _ => 1) Agent.init [.register ⟨"a"⟩, .resume 0,
        .spawn 0 "r" (some "t") "" 80 24 (.ok ()), .resume 0, .resume 0, .resume 0,
        .connectionEnds 0, .read 0 [97] [], .batch, .tick, .route] = some s ∧
      s.routes.kept ⟨"a"⟩ ≠ [] ∧ s.cmdSenders.get "t" ≠ none ∧
      ∀ o, ∀ f ∈ s.routes.kept o, f.spawned = none ∧ f.snapshot = none := by
  have hrun : Run (Agent.step fun _ => 1) free Agent.init _ := .get_free [.register ⟨"a"⟩, .resume 0,
    .spawn 0 "r" (some "t") "" 80 24 (.ok ()), .resume 0, .resume 0, .resume 0,
    .connectionEnds 0, .read 0 [97] [], .batch, .tick, .route] (by decide +kernel)
  exact ⟨_, (some_get _).symm, by decide +kernel, by decide +kernel,
    (registered_and_kept _ hrun).2.2⟩

end Lasterm.Agent.Isolation
