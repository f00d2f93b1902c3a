import Lasterm.Agent.Pipeline

/-!
# A terminal started again under its channel's id

A hub that restarts a terminal sends DESTROY and then SPAWN with the same id.  The old
workload's reader may still print, reach its end of file, find its workload replaced or
gone, and report its exit; what it sent waits in the batch loop and for the router, while
SPAWN_OK goes straight to the connection.  A hub that reads the old terminal's last words
after SPAWN_OK takes them for the new one's.

The check of `take_own_workload` looks at the manager when the reader ends, not at what
was already sent, nor at what the manager holds when the exit goes out.  So the order holds
as far as the old terminal has nothing left to say when the new one is confirmed.

## Main results

* `Restart.nothing_of_an_earlier_workload_after_spawnOk` — under the condition, in every
  state reached, no output and no exit of an earlier workload follows a SPAWN_OK.
* `Restart.old_exit_follows_spawnOk` — without it, both do.
-/

namespace Lasterm.Agent

open Function (update update_self update_of_ne)
open Transition List

/-- Output of a workload older than `p` under the id, or the exit of one. -/
def Frame.stale (id : String) (p : ℕ) (f : Frame) : Bool :=
  (f.printed id).any (·.workload < p) || f.exited.any fun e => e.1 = id && e.2 < p

/-- Nothing of a workload older than `p` under this owner's id is on its way: not between the
readers and the router, and not kept for the hub. -/
def State.Fresh (s : State) (o : OwnerId) (id : String) (p : ℕ) : Prop :=
  (∀ b ∈ s.line o id, p ≤ b.workload) ∧
    (∀ e ∈ s.ahead, e.owner = o → e.frame.stale id p = false) ∧
    ∀ f ∈ s.routes.kept o, f.stale id p = false

instance (s : State) (o : OwnerId) (id : String) (p : ℕ) : Decidable (s.Fresh o id p) :=
  inferInstanceAs (Decidable (_ ∧ _ ∧ _))

/-- The SPAWN_OK of a workload newer than `q` under this owner's id was handed over. -/
def State.Superseded (s : State) (o : OwnerId) (id : String) (q : ℕ) : Prop :=
  ∃ e ∈ s.wire, s.ownerOf e.1 = some o ∧ e.2.spawned.any fun w => w.1 = id ∧ q < w.2

instance (s : State) (o : OwnerId) (id : String) (q : ℕ) : Decidable (s.Superseded o id q) :=
  inferInstanceAs (Decidable (∃ e ∈ s.wire, _))

namespace Restart

/-- Once a SPAWN_OK was handed over, nothing of an earlier workload under its id goes to that
hub, on the same connection or on a later one. -/
def Clean (s : State) : Prop :=
  s.wire.Pairwise fun e e' => ∀ id p, e.2.spawned = some (id, p) →
    s.ownerOf e'.1 = s.ownerOf e.1 → e'.2.stale id p = false

/-- A SPAWN is confirmed when nothing of an earlier workload under its id is on its way, and
a reader neither prints nor reports its exit once a newer workload is confirmed. -/
def Orderly (s : State) : Step → Prop
  | .resume c =>
    match s.conns c with
    | some ⟨owner, true, .listed _ id p, _⟩ => s.Fresh owner id p
    | _ => True
  | .read p raw _ =>
    match s.readers p with
    | some r => stripDsr raw = [] ∨ ¬s.Superseded r.owner r.channelId r.source
    | none => True
  | .exit p _ =>
    match s.readers p with
    | some r => ¬s.Superseded r.owner r.channelId p
    | none => True
  | _ => True

instance (s : State) (a : Step) : Decidable (Orderly s a) := by
  apply Step.casesOn (motive := fun a => Decidable (Orderly s a)) a <;> intros <;>
    dsimp only [Orderly]
  case resume c =>
    exact match s.conns c with
      | none | some ⟨_, false, _, _⟩ => by infer_instance
      | some ⟨_, true, handler, _⟩ => by
        refine Handler.casesOn handler ?_ ?_ ?_ ?_ ?_ ?_ ?_ ?_ ?_ ?_ <;> intros <;> infer_instance
  case read p _ _ | exit p _ => exact match s.readers p with
    | none | some _ => by dsimp only; infer_instance
  all_goals infer_instance

/-- Every confirmed workload is the oldest that still has something on its way. -/
structure Inv (s : State) : Prop where
  wellFormed : WellFormed s
  sorted : Sorted s
  fresh : ∀ e ∈ s.wire, ∀ o id p, s.ownerOf e.1 = some o → e.2.spawned = some (id, p) →
    s.Fresh o id p
  clean : Clean s

variable {s s' : State}

theorem Inv.init : Inv init := ⟨.init, .init, (fun _ h => nomatch h), .nil⟩

theorem stale_of_isReply {f : Frame} (h : f.isReply = true) (id : String) (p : ℕ) :
    f.stale id p = false := by
  unfold Frame.stale
  rw [Frame.printed_of_isReply h, Frame.exited_of_isReply h]
  rfl

theorem stale_of_snapshot {f : Frame} {x : String × ℕ × Mirror} (h : f.snapshot = some x)
    (id : String) (p : ℕ) : f.stale id p = false ∧ f.spawned = none := by
  obtain ⟨msg, pid⟩ := f
  cases msg <;> first | exact ⟨rfl, rfl⟩ | (cases pid <;> exact nomatch h)

theorem Inv.hand (h : Inv s) (hw : WellFormed s') (ht : Sorted s') {l : List (ℕ × Frame)}
    (hq : Quiet s l s') (hstale : ∀ e ∈ l, ∀ id p, e.2.stale id p = false)
    (hfresh : ∀ e ∈ l, ∀ o id p, s.ownerOf e.1 = some o → e.2.spawned = some (id, p) →
      s.Fresh o id p) : Inv s' := by
  have hsame : ∀ o id p, s.Fresh o id p → s'.Fresh o id p := by
    rintro o id p ⟨hline, hahead, hkept⟩
    refine ⟨?_, ?_, ?_⟩
    · rw [hq.line]
      exact hline
    · rw [hq.ahead]
      exact hahead
    · rw [kept_of_queues hq.kept]
      exact hkept
  refine ⟨hw, ht, ?_, ?_⟩
  · intro e he o id p ho hp
    rw [hq.owners] at ho
    rw [hq.wire] at he
    rcases mem_append.mp he with he | he
    · exact hsame o id p (h.fresh e he o id p ho hp)
    · exact hsame o id p (hfresh e he o id p ho hp)
  · unfold Clean
    rw [hq.wire, hq.owners]
    refine pairwise_append.mpr ⟨h.clean, ?_, ?_⟩
    · exact pairwise_of_forall_mem_list fun e _ e' he' id p _ _ => hstale e' he' id p
    · exact fun e _ e' he' id p _ _ => hstale e' he' id p

/-- A connection is registered. -/
theorem Inv.registers (h : Inv s) (hw : WellFormed s') (ht : Sorted s') {o : OwnerId}
    {l : List (ℕ × Frame)} (hl : ∀ e ∈ l, e.2.isReply = true ∧ e.1 < s.nextConn)
    (hwire : s'.wire = s.wire ++ l ++ (s.routes.kept o).map (s.nextConn, ·))
    (hline : ∀ o id, s'.line o id = s.line o id) (hahead : s'.ahead = s.ahead)
    (hconns : s'.conns = update s.conns s.nextConn (some ⟨o, true, .greeting, []⟩))
    (hroutes : s'.routes = s.routes.registerActive o s.nextConn) : Inv s' := by
  have hold : ∀ c, c < s.nextConn → s'.ownerOf c = s.ownerOf c := by
    intro c hc
    unfold State.ownerOf
    rw [hconns, update_of_ne (Nat.ne_of_lt hc)]
  have hnew : s'.ownerOf s.nextConn = some o := by
    unfold State.ownerOf
    rw [hconns, update_self]
    rfl
  have hsame : ∀ o' id p, s.Fresh o' id p → s'.Fresh o' id p := by
    rintro o' id p ⟨h₁, h₂, h₃⟩
    refine ⟨by rw [hline]; exact h₁, by rw [hahead]; exact h₂, ?_⟩
    intro f hf
    rw [hroutes, HubRoutes.kept_registerActive] at hf
    split at hf
    · cases hf
    · exact h₃ f hf
  -- every SPAWN_OK on the wire was there before: what is kept confirms nothing
  have hspawned : ∀ e ∈ s'.wire, ∀ id p, e.2.spawned = some (id, p) → e ∈ s.wire := by
    intro e he id p hp
    rw [hwire, append_assoc] at he
    rcases mem_append.mp he with he | he
    · exact he
    rcases mem_append.mp he with he | he
    · rw [Frame.spawned_of_isReply (hl e he).1] at hp
      cases hp
    · obtain ⟨f, hf, rfl⟩ := mem_map.mp he
      rw [(h.sorted.kept o f hf).1] at hp
      cases hp
  refine ⟨hw, ht, ?_, ?_⟩
  · intro e he o' id p ho hp
    have he := hspawned e he id p hp
    rw [hold e.1 (h.wellFormed.wire_lt e he)] at ho
    exact hsame o' id p (h.fresh e he o' id p ho hp)
  · unfold Clean
    rw [hwire, append_assoc]
    refine pairwise_append.mpr ⟨?_, ?_, ?_⟩
    · refine Pairwise.imp_of_mem ?_ h.clean
      intro e e' he he' hclean id p hp ho
      rw [hold _ (h.wellFormed.wire_lt e he), hold _ (h.wellFormed.wire_lt e' he')] at ho
      exact hclean id p hp ho
    · refine pairwise_of_forall_mem_list ?_
      intro e he e' he' id p hp ho
      have hmem := hspawned e (by
        rw [hwire, append_assoc]
        exact mem_append_right _ he) id p hp
      rcases mem_append.mp he' with he' | he'
      · exact stale_of_isReply (hl e' he').1 id p
      · obtain ⟨f, hf, rfl⟩ := mem_map.mp he'
        rw [hnew, hold _ (h.wellFormed.wire_lt e hmem)] at ho
        exact (h.fresh e hmem o id p ho.symm hp).2.2 f hf
    · intro e he e' he' id p hp ho
      rcases mem_append.mp he' with he' | he'
      · exact stale_of_isReply (hl e' he').1 id p
      · obtain ⟨f, hf, rfl⟩ := mem_map.mp he'
        rw [hnew, hold _ (h.wellFormed.wire_lt e he)] at ho
        exact (h.fresh e he o id p ho.symm hp).2.2 f hf

/-- A reader emits what it read, or its end. -/
theorem Inv.emits (h : Inv s) (hw : WellFormed s') (ht : Sorted s') {p : ℕ} {r : Reader}
    {data : List Printed} {fs : List (EventFrame Frame)}
    (hdata : ∀ b ∈ data, b.workload = r.source)
    (hread : data ≠ [] → ¬s.Superseded r.owner r.channelId r.source)
    (hline : ∀ o id, s'.line o id =
      s.line o id ++ if r.owner = o ∧ r.channelId = id then data else [])
    (hahead : s'.ahead = s.ahead ++ fs)
    (hfs : ∀ e ∈ fs, e.owner = r.owner ∧ e.frame.IsEvent p)
    (hexit : ∀ e ∈ fs, ∀ id q, e.frame.exited = some (id, q) →
      id = r.channelId ∧ q = p ∧ ¬s.Superseded r.owner r.channelId p)
    (hconns : s'.conns = s.conns) (hroutes : s'.routes = s.routes) (hwire : s'.wire = s.wire) :
    Inv s' := by
  have howner : s'.ownerOf = s.ownerOf := by
    unfold State.ownerOf
    rw [hconns]
  -- a confirmed workload that is not newer than `q` leaves what `q` says alone
  have hle : ∀ e ∈ s.wire, ∀ o id p q, s.ownerOf e.1 = some o → e.2.spawned = some (id, p) →
      ¬s.Superseded o id q → p ≤ q := by
    intro e he o id p q ho hp hnot
    by_contra hlt
    refine hnot ⟨e, he, ho, ?_⟩
    rw [hp]
    exact decide_eq_true ⟨rfl, Nat.lt_of_not_le hlt⟩
  refine ⟨hw, ht, ?_, ?_⟩
  · intro e he o id q ho hq
    rw [hwire] at he
    rw [howner] at ho
    obtain ⟨h₁, h₂, h₃⟩ := h.fresh e he o id q ho hq
    refine ⟨?_, ?_, by rw [hroutes]; exact h₃⟩
    · intro b hb
      rw [hline] at hb
      rcases mem_append.mp hb with hold | hnew
      · exact h₁ b hold
      · split at hnew
        · next hmine =>
          obtain ⟨rfl, rfl⟩ := hmine
          rw [hdata b hnew]
          exact hle e he _ _ q _ ho hq (hread (ne_nil_of_mem hnew))
        · cases hnew
    · intro f hf hfo
      rw [hahead] at hf
      rcases mem_append.mp hf with hf | hf
      · exact h₂ f hf hfo
      · obtain ⟨hfr, hevent⟩ := hfs f hf
        unfold Frame.stale
        rw [hevent.printed]
        cases hx : f.frame.exited with
        | none => rfl
        | some x =>
          obtain ⟨hid, hp, hnot⟩ := hexit f hf x.1 x.2 hx
          by_cases hidx : x.1 = id
          · have hqp : q ≤ x.2 := by
              rw [hp]
              refine hle e he o id q p ho hq ?_
              rwa [← hfo, hfr, ← hidx, hid]
            simp [Nat.not_lt.mpr hqp]
          · simp [hidx]
  · unfold Clean
    rw [hwire, howner]
    exact h.clean

/-- The router takes a frame. -/
theorem Inv.routes (h : Inv s) {len : Frame → ℕ} {e : BatchedEvent Printed Frame}
    {rest : List (BatchedEvent Printed Frame)} (he : s.batched = e :: rest)
    (hw : WellFormed (s.route len e rest)) (ht : Sorted (s.route len e rest)) :
    Inv (s.route len e rest) := by
  obtain ⟨hspawned, -, hprinted⟩ := h.sorted.routedFrame he
  -- the frame is not stale for any workload of its hub that was confirmed
  have hstale : ∀ id p, s.Fresh (State.routedOwner e) id p →
      (State.routedFrame e).stale id p = false := by
    rintro id p ⟨h₁, h₂, -⟩
    cases e with
    | output b =>
      unfold Frame.stale
      rw [hprinted]
      have hnone : (State.routedFrame (.output b)).exited = none := rfl
      rw [hnone, Option.any_none, Bool.or_false, any_eq_false]
      intro x hx
      have hin : x ∈ s.line (State.routedOwner (.output b)) id := by
        rw [State.line_route len he]
        exact mem_append_left _ hx
      simpa using h₁ x hin
    | frame f =>
      refine h₂ f ?_ rfl
      rw [State.ahead_route len he]
      exact mem_append_left _ mem_cons_self
  have hsame : ∀ o id p, s.Fresh o id p → (s.route len e rest).Fresh o id p := by
    intro o id p hfresh
    refine ⟨?_, ?_, ?_⟩
    · intro b hb
      refine hfresh.1 b ?_
      rw [State.line_route len he]
      exact mem_append_right _ hb
    · intro f hf
      refine hfresh.2.1 f ?_
      rw [State.ahead_route len he]
      exact mem_append_right _ hf
    · intro f hf
      rcases State.route_kept hf with ⟨rfl, rfl⟩ | hf
      · exact hstale id p hfresh
      · exact hfresh.2.2 f hf
  have hmem : ∀ x ∈ (s.route len e rest).wire, ∀ id p, x.2.spawned = some (id, p) →
      x ∈ s.wire := by
    intro x hx id p hp
    rw [State.route_wire] at hx
    rcases mem_append.mp hx with hx | hx
    · exact hx
    · obtain ⟨c, -, rfl⟩ := Option.map_eq_some_iff.mp (Option.mem_toList.mp hx)
      rw [hspawned] at hp
      cases hp
  refine ⟨hw, ht, ?_, ?_⟩
  · intro x hx o id p ho hp
    exact hsame o id p (h.fresh x (hmem x hx id p hp) o id p ho hp)
  · unfold Clean
    rw [State.route_wire]
    refine pairwise_append.mpr ⟨h.clean, ?_, ?_⟩
    · cases s.target (State.routedOwner e) <;> simp
    · intro x hx y hy id p hp ho
      obtain ⟨c, hc, rfl⟩ := Option.map_eq_some_iff.mp (Option.mem_toList.mp hy)
      -- the frame goes to a connection of the hub it belongs to
      obtain ⟨conn, hconn, howner⟩ :=
        h.wellFormed.active _ _ (State.target_eq_some.mp hc).1
      have hc' : s.ownerOf c = some (State.routedOwner e) := by
        unfold State.ownerOf
        rw [hconn, ← howner]
        rfl
      exact hstale id p (h.fresh x hx _ id p (ho.symm.trans hc') hp)

/-- **The step lemma.** -/
theorem Inv.step {len : Frame → ℕ} {a : Step} (h : Inv s) (hok : Orderly s a)
    (hs' : step len s a = some s') : Inv s' := by
  have hw : WellFormed s' := h.wellFormed.step hs'
  have heffect := step_effect h.wellFormed hs'
  have ht : Sorted s' := h.sorted.step heffect
  cases heffect with
  | replies hr =>
    obtain ⟨l, hq, hl⟩ := hr.quiet
    refine h.hand hw ht hq (fun e he => stale_of_isReply (hl e he)) ?_
    intro e he o id p _ hp
    rw [Frame.spawned_of_isReply (hl e he)] at hp
    cases hp
  | @announces c conn requestId id p ha hc hh _ hq =>
    have hmem : ∀ e ∈ s.handed c ⟨.spawnOk requestId id, some p⟩, s.isOpen c = true ∧
        e = (c, ⟨.spawnOk requestId id, some p⟩) := by
      intro e he
      unfold State.handed at he
      split at he
      · next hopen => exact ⟨hopen, mem_singleton.mp he⟩
      · cases he
    refine h.hand hw ht hq ?_ ?_
    · intro e he id' p'
      obtain ⟨-, rfl⟩ := hmem e he
      rfl
    · intro e he o id' p' ho hp
      obtain ⟨hopen, rfl⟩ := hmem e he
      obtain ⟨rfl, rfl⟩ : id = id' ∧ p = p' := by simpa [Frame.spawned] using hp
      subst ha
      obtain ⟨conn', hconn', hisOpen⟩ := State.isOpen_eq_true.mp hopen
      obtain rfl : conn = conn' := Option.some_inj.mp (hc.symm.trans hconn')
      obtain ⟨owner, isOpen, handler, reads⟩ := conn
      obtain rfl : owner = o := by simpa [State.ownerOf, hc] using ho
      obtain rfl : isOpen = true := hisOpen
      obtain rfl : handler = .listed requestId id p := hh
      simpa only [Orderly, hc] using hok
  | @answers c id p m f _ _ hf _ hq =>
    have hmem : ∀ e ∈ s.handed c f, e = (c, f) := by
      intro e he
      unfold State.handed at he
      split at he
      · exact mem_singleton.mp he
      · cases he
    refine h.hand hw ht hq ?_ ?_
    · intro e he id' p'
      rw [hmem e he]
      exact (stale_of_snapshot hf id' p').1
    · intro e he o id' p' _ hp
      rw [hmem e he, (stale_of_snapshot hf id' p').2] at hp
      cases hp
  | draws _ _ _ _ hq => exact h.hand hw ht hq (forall_mem_nil _) (forall_mem_nil _)
  | registers _ hl hwire hline hahead _ hconns hroutes =>
    exact h.registers hw ht hl hwire hline hahead hconns hroutes
  | @emits p r r' data fs hr _ _ _ _ hdata hread hline hahead hfs hexit hconns hroutes hwire =>
    refine h.emits hw ht (fun b hb => (hdata b hb).1) ?_ hline hahead hfs ?_ hconns hroutes hwire
    · intro hne
      obtain ⟨raw, ns, rfl, hstrip⟩ := hread hne
      simp only [Orderly, hr] at hok
      exact hok.resolve_left hstrip
    · intro e he id q hx
      obtain ⟨hid, hq, status, rfl⟩ := hexit e he id q hx
      simp only [Orderly, hr] at hok
      exact ⟨hid, hq, hok⟩
  | routes _ he hs' =>
    subst hs'
    exact h.routes he hw ht
  | @hubReads c n conn _ hc hs' =>
    subst hs'
    have howner : State.ownerOf (s.setConn c
        { conn with reads := conn.reads ++ [(s.unread c conn).take n] }) = s.ownerOf :=
      funext (State.map_conns_setConn (·.owner) hc rfl)
    refine ⟨hw, ht, ?_, ?_⟩
    · intro e he o id p ho hp
      exact h.fresh e he o id p ((congrFun howner e.1).symm.trans ho) hp
    · refine h.clean.imp ?_
      intro e e' hclean id p hp ho
      refine hclean id p hp ?_
      exact (congrFun howner e'.1).symm.trans (ho.trans (congrFun howner e.1))

/-- **Nothing of an earlier workload after SPAWN_OK.**  In every run in which a SPAWN is
confirmed only when nothing of an earlier workload under its id is on its way, and no reader
prints or reports its exit after a newer workload under its id was confirmed, no OUTPUT and
no CHANNEL_EXIT of an earlier workload is handed to a connection of that hub after the
SPAWN_OK of a newer one. -/
theorem nothing_of_an_earlier_workload_after_spawnOk (len : Frame → ℕ)
    (h : Run (Agent.step len) Orderly Agent.init s) : Clean s :=
  (h.invariant .init fun _ _ _ hi hok hs => hi.step hok hs : Inv s).clean

/-- A hub destroys a terminal, hears its exit, and starts another under its id. -/
theorem clean_after_a_restart :
    ∃ s, exec (Agent.step fun _ => 1) Agent.init [.register ⟨"hub"⟩, .resume 0,
        .spawn 0 "r" (some "t") "" 80 24 (.ok ()), .resume 0, .resume 0, .resume 0,
        .read 0 [97] [], .batch, .tick, .route, .destroy 0 "t" .signalled, .eof 0,
        .closeQueue 0, .unlist 0, .takeOwn 0, .exit 0 none, .batch, .batch, .route, .route,
        .spawn 0 "s" (some "t") "" 80 24 (.ok ()), .resume 0, .resume 0, .resume 0,
        .read 1 [98] [], .batch, .tick, .route] = some s ∧
      s.wire.map (·.2.msg) = [.channelStateEnd 0, .spawnOk "r" "t", .output "t" 1 [⟨0, 0, 97⟩],
        .log "t" "debug" "PTY closed", .channelExit "t" (-1) none, .spawnOk "s" "t",
        .output "t" 1 [⟨1, 1, 98⟩]] ∧
      Clean s := by
  refine ⟨_, (Option.some_get (by decide +kernel)).symm, by decide +kernel, ?_⟩
  exact nothing_of_an_earlier_workload_after_spawnOk _
    (.of_exec _ (by decide +kernel) (Option.some_get _).symm)

/-- The old terminal's reader finds its workload gone, the new terminal is confirmed, and then
the old one's exit goes out, its output with it. -/
theorem old_exit_follows_spawnOk :
    ¬∀ s, Run (Agent.step fun _ => 1) free Agent.init s → Clean s := by
  intro h
  have hrun : Run (Agent.step fun _ => 1) free Agent.init _ := .get_free [.register ⟨"hub"⟩,
    .resume 0, .spawn 0 "r" (some "t") "" 80 24 (.ok ()), .resume 0, .resume 0, .resume 0,
    .read 0 [97] [], .destroy 0 "t" .signalled, .eof 0, .closeQueue 0, .unlist 0, .takeOwn 0,
    .spawn 0 "s" (some "t") "" 80 24 (.ok ()), .resume 0, .resume 0, .resume 0,
    .exit 0 none, .batch, .batch, .batch, .route, .route, .route] (by decide +kernel)
  -- the SPAWN_OK of the second terminal, and the exit of the first after it
  have hexit := (pairwise_iff_forall_sublist.mp (h _ hrun))
    (by decide +kernel : [(0, ⟨.spawnOk "s" "t", some 1⟩),
      (0, ⟨.channelExit "t" (-1) none, some 0⟩)].Sublist _) "t" 1 rfl rfl
  exact absurd hexit (by decide)

end Restart

end Lasterm.Agent
