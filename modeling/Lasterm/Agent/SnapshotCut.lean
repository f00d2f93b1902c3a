import Lasterm.Agent.Pipeline
import Lasterm.Lib.Marks

/-!
# A snapshot and the output behind it

A pane that attaches shows the snapshot its ATTACH_OK carries and writes what arrives next
behind it; the spool keeps a snapshot and then the output that follows.  Both are right if
the output behind the message is what the reader drew after it made the snapshot
(`handleAttach` of `session/session-manager.ts`: "There is no gap between the two to fill").

The agent answers straight to the connection, past the output that waits in the batch loop
and for the router.  The hub handles every frame of one read before an ATTACH_OK among them
reaches its `handleAttach`; a SNAPSHOT_RES it stores at once.

## Main definitions

* `paneOf`, `spoolOf` — what a pane and the spool are given; `Orderly` — when that is right.

## Main results

* `snapshot_followed_by_what_was_drawn_after` — in every orderly run.
* `drawn_output_follows_its_snapshot` — what goes wrong in another.
-/

namespace Lasterm.Agent.SnapshotCut

open Function (update update_self update_of_ne)
open Transition Marks List Option

/-! ### The hub -/

/-- What the hub passes on about a channel, to its panes or into the spool. -/
inductive Entry
  | output (data : List Printed)
  | snapshot (reader : ℕ) (screen : Mirror)
  deriving DecidableEq

/-- OUTPUT: broadcast to the channel's panes and given to the chunker. -/
def onOutput (id : String) (f : Frame) : Option Entry :=
  match f.msg with
  | .output id' _ data => if id' = id then some (.output data) else none
  | _ => none

/-- SNAPSHOT_RES: `storeSnapshot`. -/
def onSnapshotRes (id : String) (f : Frame) : Option Entry :=
  match f.msg, f.pid with
  | .snapshotRes id' m _, some p => if id' = id then some (.snapshot p m) else none
  | _, _ => none

/-- ATTACH_OK, where `handleAttach` goes on: `storeSnapshot`, and the pane is sent it. -/
def onAttachOk (id : String) (f : Frame) : Option Entry :=
  match f.msg, f.pid with
  | .attachOk id' _ m _, some p => if id' = id then some (.snapshot p m) else none
  | _, _ => none

/-- What the panes of a channel are sent for one read: every frame is handled before an
ATTACH_OK among them is. -/
def paneOf (id : String) (fs : List Frame) : List Entry :=
  fs.filterMap (onOutput id) ++ fs.filterMap (onAttachOk id)

/-- What the spool of a channel is given for one read. -/
def spoolOf (id : String) (fs : List Frame) : List Entry :=
  fs.filterMap (fun f => (onOutput id f).or (onSnapshotRes id f)) ++ fs.filterMap (onAttachOk id)

/-- In one read, no output of a channel behind an ATTACH_OK of that channel. -/
def settled : List Frame → Bool
  | [] => true
  | f :: rest =>
    (match f.msg with
      | .attachOk id _ _ _ => rest.all fun g => (g.printed id).isEmpty
      | _ => true) && settled rest

/-- The snapshot of an entry, with the reader that made it. -/
def Entry.mark : Entry → Option (ℕ × Mirror)
  | .snapshot p m => some (p, m)
  | .output _ => none

/-- The output of an entry that a reader read. -/
def Entry.printedBy (p : ℕ) : Entry → List Printed
  | .output data => data.filter (·.reader = p)
  | .snapshot _ _ => []

/-- The output of a channel in a frame that a reader read. -/
def printedBy (id : String) (p : ℕ) (f : Frame) : List Printed :=
  (f.printed id).filter (·.reader = p)

/-! ### What is claimed, and when -/

/-- The output of a channel that a reader read, on its way to the router. -/
def lineBy (s : State) (o : OwnerId) (id : String) (p : ℕ) : List Printed :=
  (s.line o id).filter (·.reader = p)

/-- The bytes `b` behind a snapshot `m` are what its reader drew after it, as far as they have
come; on the hub's current connection, what has not come is what the hub has not read and
what is on its way to the router, in this order. -/
def Exact (s : State) (c : ℕ) (conn : Connection) (id : String) (p : ℕ) (m : Mirror)
    (b : List Printed) : Prop :=
  ∃ r, s.readers p = some r ∧ r.channelId = id ∧ ∃ rest,
    r.mirror.drawn = m.drawn ++ (b ++ rest) ∧
      (s.target r.owner = some c →
        rest = (s.unread c conn).flatMap (printedBy id p) ++ lineBy s r.owner id p)

/-- A snapshot is made when no output of its reader is on its way, the router sends none to a
connection while a snapshot of that reader made for it is not sent, and the hub reads none
together with an ATTACH_OK before it. -/
def Orderly (s : State) : Step → Prop
  | .serve p =>
    match s.readers p with
    | some r =>
      match r.commands.head? with
      | some (.snapshot _) => lineBy s r.owner r.channelId p = []
      | _ => True
    | none => True
  | .route =>
    match s.batched with
    | e :: _ =>
      match (s.target (State.routedOwner e)).bind s.conns with
      | some ⟨_, _, .answered _ id p _, _⟩ =>
        (e.bytesOf (State.routedOwner e) id).filter (·.reader = p) = []
      | _ => True
    | [] => True
  | .hubReads c n =>
    match s.conns c with
    | some conn => settled ((s.unread c conn).take n) = true
    | none => True
  | _ => True

instance (s : State) (a : Step) : Decidable (Orderly s a) := by
  cases a <;> dsimp only [Orderly]
  case serve p =>
    cases s.readers p with
    | none => infer_instance
    | some r =>
      dsimp only
      rcases r.commands.head? with _ | command
      · infer_instance
      · cases command <;> dsimp only <;> infer_instance
  case route =>
    cases s.batched with
    | nil => infer_instance
    | cons e rest =>
      dsimp only
      rcases (s.target (State.routedOwner e)).bind s.conns with _ | ⟨owner, isOpen, handler, mailbox⟩
      · infer_instance
      · cases handler <;> dsimp only <;> infer_instance
  case hubReads c n => cases s.conns c <;> infer_instance
  all_goals infer_instance

/-! ### On the wire -/

/-- What is behind a snapshot that was handed to a connection, or `[]` for one that was not
yet, is what its reader drew after it, up to what is on its way to the router. -/
def Cut (s : State) (c : ℕ) (id : String) (p : ℕ) (m : Mirror) (b : List Printed) : Prop :=
  ∃ r, s.readers p = some r ∧ r.channelId = id ∧ ∃ rest,
    r.mirror.drawn = m.drawn ++ (b ++ rest) ∧
      (s.target r.owner = some c → rest = lineBy s r.owner id p)

/-- What holds of every snapshot that is made. -/
structure Inv (s : State) : Prop where
  wellFormed : WellFormed s
  sorted : Sorted s
  /-- Output on its way is under the owner and the channel of its reader. -/
  mine : ∀ o id, ∀ b ∈ s.line o id, ∃ r, s.readers b.reader = some r ∧
    r.owner = o ∧ r.channelId = id
  sent : ∀ c id p m b, After Frame.snapshot (printedBy id p) (s.sentTo c) (id, p, m) b →
    Cut s c id p m b
  made : ∀ c id p m, s.Answered c id p m → Cut s c id p m []

theorem Inv.init : Inv init where
  wellFormed := .init
  sorted := .init
  mine _ _ _ h := nomatch h
  sent _ _ _ _ _ h := absurd h not_after_nil
  made := fun _ _ _ _ ⟨_, _, h, _⟩ => nomatch h

variable {s s' : State} {l : List (ℕ × Frame)}

theorem sentTo_append (h : s'.wire = s.wire ++ l) (c : ℕ) :
    s'.sentTo c = s.sentTo c ++ l.filterMap fun e => if e.1 = c then some e.2 else none := by
  unfold State.sentTo
  rw [h, filterMap_append]

variable {c : ℕ} {f : Frame}

theorem mem_sentTo
    (h : f ∈ l.filterMap fun e => if e.1 = c then some e.2 else none) : (c, f) ∈ l := by
  obtain ⟨e, he, hf⟩ := mem_filterMap.mp h
  obtain ⟨rfl, ⟨rfl⟩⟩ := ite_none_right_eq_some.mp hf
  exact he

variable {p : ℕ} {m : Mirror} {b : List Printed}

theorem Cut.quiet (hq : Quiet s l s') {id : String} (h : Cut s c id p m b) : Cut s' c id p m b := by
  obtain ⟨r, hr, rfl, rest, hdrawn, hrest⟩ := h
  obtain ⟨r', hr', howner, hid, hd⟩ := hq.screens p r hr
  refine ⟨r', hr', hid, rest, hd.trans hdrawn, ?_⟩
  intro htarget
  rw [howner] at htarget ⊢
  unfold lineBy
  rw [hq.line]
  exact hrest (hq.target _ _ htarget)

theorem Inv.hand (h : Inv s) (hw : WellFormed s') (ht : Sorted s')
    (hq : Quiet s l s') (hout : ∀ e ∈ l, ∀ id, e.2.printed id = [])
    (hmark : ∀ e ∈ l, ∀ id p m, e.2.snapshot = some (id, p, m) → Cut s e.1 id p m [])
    (hmade : ∀ c id p m, s'.Answered c id p m → Cut s c id p m []) : Inv s' := by
  refine ⟨hw, ht, ?_, ?_, fun c id p m hm => (hmade c id p m hm).quiet hq⟩
  · intro o id b hb
    rw [hq.line] at hb
    obtain ⟨r, hr, rfl, rfl⟩ := h.mine o id b hb
    obtain ⟨r', hr', howner, hid, -⟩ := hq.screens _ r hr
    exact ⟨r', hr', howner, hid⟩
  · intro c id p m b hb
    have hnone : ∀ l' : List Frame, (∀ f ∈ l', (c, f) ∈ l) → l'.flatMap (printedBy id p) = [] := by
      intro l' hl'
      refine flatMap_eq_nil_iff.mpr ?_
      intro f hf
      unfold printedBy
      rw [hout _ (hl' f hf)]
      rfl
    rw [sentTo_append hq.wire] at hb
    rcases after_append.mp hb with ⟨b₀, hb₀, rfl⟩ | ⟨pre, f, post, hl, hf, rfl⟩
    · rw [hnone _ fun f hf => mem_sentTo hf, append_nil]
      exact (h.sent c id p m b₀ hb₀).quiet hq
    · have hmem : ∀ g ∈ f :: post, (c, g) ∈ l := by
        intro g hg
        refine mem_sentTo ?_
        rw [hl]
        exact mem_append_right _ hg
      rw [hnone post fun g hg => hmem g (mem_cons_of_mem _ hg)]
      exact (hmark _ (hmem f mem_cons_self) id p m hf).quiet hq

/-- A new connection of a hub is given what was kept, which has no snapshot in it, and no
other connection is that hub's current one any more. -/
theorem Inv.registers (h : Inv s) (hw : WellFormed s') (ht : Sorted s') {o : OwnerId}
    (hl : ∀ e ∈ l, e.2.isReply = true ∧ e.1 < s.nextConn)
    (hwire : s'.wire = s.wire ++ l ++ (s.routes.kept o).map (s.nextConn, ·))
    (hline : ∀ o id, s'.line o id = s.line o id) (hreaders : s'.readers = s.readers)
    (hconns : s'.conns = update s.conns s.nextConn (some ⟨o, true, .greeting, []⟩))
    (hroutes : s'.routes = s.routes.registerActive o s.nextConn) : Inv s' := by
  have hcut : ∀ c id p m b, c < s.nextConn → Cut s c id p m b → Cut s' c id p m b := by
    rintro c id p m b hc ⟨r, hr, rfl, rest, hdrawn, hrest⟩
    refine ⟨r, hreaders ▸ hr, rfl, rest, hdrawn, ?_⟩
    intro htarget
    have hlineBy : lineBy s' r.owner r.channelId p = lineBy s r.owner r.channelId p := by
      unfold lineBy
      rw [hline]
    rw [hlineBy]
    refine hrest (State.target_eq_some.mpr ?_)
    obtain ⟨hactive, hopen⟩ := State.target_eq_some.mp htarget
    rw [hroutes, HubRoutes.registerActive, OrderedMap.get_set] at hactive
    split at hactive
    · cases hactive
      exact absurd hc (Nat.lt_irrefl _)
    · refine ⟨hactive, ?_⟩
      unfold State.isOpen at hopen ⊢
      rwa [hconns, update_of_ne (Nat.ne_of_lt hc)] at hopen
  have hold : ∀ c, c < s.nextConn → s'.sentTo c = s.sentTo c ++
      l.filterMap fun e => if e.1 = c then some e.2 else none := by
    intro c hc
    have hkept : ((s.routes.kept o).map (s.nextConn, ·)).filterMap
        (fun e => if e.1 = c then some e.2 else none) = [] := by
      refine filterMap_eq_nil_iff.mpr ?_
      intro e he
      obtain ⟨f, -, rfl⟩ := mem_map.mp he
      exact if_neg (Nat.ne_of_gt hc)
    have hsplit : s'.wire = s.wire ++ (l ++ (s.routes.kept o).map (s.nextConn, ·)) := by
      rw [hwire, append_assoc]
    rw [sentTo_append hsplit, filterMap_append, hkept, append_nil]
  have hsome : ∀ c f, f ∈ s'.sentTo c → c < s.nextConn ∨ f.snapshot = none := by
    intro c f hf
    by_cases hc : c < s.nextConn
    · exact .inl hc
    · right
      have hmem := mem_sentTo hf
      rw [hwire, append_assoc] at hmem
      rcases mem_append.mp hmem with he | he
      · exact absurd (h.wellFormed.wire_lt _ he) hc
      rcases mem_append.mp he with he | he
      · exact absurd (hl _ he).2 hc
      · obtain ⟨f', hf', heq⟩ := mem_map.mp he
        obtain ⟨-, rfl⟩ := Prod.mk.inj heq
        exact (h.sorted.kept o f' hf').2
  refine ⟨hw, ht, ?_, ?_, ?_⟩
  · intro o' id b hb
    rw [hline] at hb
    rw [hreaders]
    exact h.mine o' id b hb
  · intro c id p m b hb
    obtain ⟨f, hf, hmark⟩ := hb.exists_mem
    rcases hsome c f hf with hc | hnone
    · rw [hold c hc] at hb
      have hreply : ∀ f, f ∈ (l.filterMap fun e => if e.1 = c then some e.2 else none) →
          f.isReply = true := fun f hf => (hl _ (mem_sentTo hf)).1
      rcases after_append.mp hb with ⟨b₀, hb₀, rfl⟩ | hb
      · have hnone : (l.filterMap fun e => if e.1 = c then some e.2 else none).flatMap
            (printedBy id p) = [] := by
          refine flatMap_eq_nil_iff.mpr ?_
          intro f hf
          unfold printedBy
          rw [Frame.printed_of_isReply (hreply f hf)]
          rfl
        rw [hnone, append_nil]
        exact hcut c id p m b₀ hc (h.sent c id p m b₀ hb₀)
      · obtain ⟨f, hf, hmark⟩ := hb.exists_mem
        rw [Frame.snapshot_of_isReply (hreply f hf)] at hmark
        cases hmark
    · rw [hnone] at hmark
      cases hmark
  · rintro c id p m ⟨conn, a, hconn, hh⟩
    rw [hconns] at hconn
    by_cases hc : c = s.nextConn
    · subst hc
      rw [update_self] at hconn
      cases hconn
      cases hh
    · rw [update_of_ne hc] at hconn
      exact hcut c id p m [] (h.wellFormed.conn_lt c conn hconn)
        (h.made c id p m ⟨conn, a, hconn, hh⟩)

theorem Inv.emits (h : Inv s) (hw : WellFormed s') (ht : Sorted s') {r r' : Reader}
    {data : List Printed} (hr : s.readers p = some r)
    (hreaders : s'.readers = update s.readers p (some r')) (howner : r'.owner = r.owner)
    (hid : r'.channelId = r.channelId) (hdrawn : r'.mirror.drawn = r.mirror.drawn ++ data)
    (hdata : ∀ b ∈ data, b.reader = p)
    (hline : ∀ o id, s'.line o id =
      s.line o id ++ if r.owner = o ∧ r.channelId = id then data else [])
    (hconns : s'.conns = s.conns) (hroutes : s'.routes = s.routes) (hwire : s'.wire = s.wire) :
    Inv s' := by
  have htarget : s'.target = s.target := by
    funext o
    unfold State.target State.isOpen
    rw [hroutes, hconns]
  have hcut : ∀ c id q m b, Cut s c id q m b → Cut s' c id q m b := by
    rintro c id q m b ⟨r₀, hr₀, rfl, rest, hd, hrest⟩
    by_cases hq : q = p
    · subst hq
      obtain rfl : r = r₀ := some_inj.mp (hr.symm.trans hr₀)
      refine ⟨r', by rw [hreaders, update_self], hid, rest ++ data, ?_, ?_⟩
      · rw [hdrawn, hd]
        simp only [append_assoc]
      · intro ht
        rw [howner, htarget] at ht
        have hall : data.filter (·.reader = q) = data :=
          filter_eq_self.mpr fun b hb => decide_eq_true (hdata b hb)
        unfold lineBy
        rw [howner, hline, if_pos ⟨rfl, rfl⟩, filter_append, hall, hrest ht]
        rfl
    · refine ⟨r₀, by rw [hreaders, update_of_ne hq, hr₀], rfl, rest, hd, ?_⟩
      intro ht
      rw [htarget] at ht
      have hnone : (if r.owner = r₀.owner ∧ r.channelId = r₀.channelId then data else []).filter
          (·.reader = q) = [] := by
        refine filter_eq_nil_iff.mpr ?_
        intro b hb
        split at hb
        · rw [hdata b hb]
          simpa using Ne.symm hq
        · cases hb
      rw [hrest ht]
      unfold lineBy
      rw [hline, filter_append, hnone, append_nil]
  refine ⟨hw, ht, ?_, ?_, ?_⟩
  · intro o id b hb
    rw [hline] at hb
    have hany : ∀ q r₀, s.readers q = some r₀ → ∃ r₁, s'.readers q = some r₁ ∧
        r₁.owner = r₀.owner ∧ r₁.channelId = r₀.channelId := by
      intro q r₀ hq
      by_cases hpq : q = p
      · subst hpq
        obtain rfl : r = r₀ := some_inj.mp (hr.symm.trans hq)
        exact ⟨r', by rw [hreaders, update_self], howner, hid⟩
      · exact ⟨r₀, by rw [hreaders, update_of_ne hpq, hq], rfl, rfl⟩
    rcases mem_append.mp hb with hold | hnew
    · obtain ⟨r₀, hr₀, rfl, rfl⟩ := h.mine o id b hold
      exact hany _ r₀ hr₀
    · split at hnew
      · next hmine =>
        obtain ⟨rfl, rfl⟩ := hmine
        rw [hdata b hnew]
        exact hany p r hr
      · cases hnew
  · intro c id q m b hb
    refine hcut c id q m b (h.sent c id q m b ?_)
    unfold State.sentTo at hb ⊢
    rwa [hwire] at hb
  · rintro c id q m ⟨conn, a, hconn, hh⟩
    exact hcut c id q m [] (h.made c id q m ⟨conn, a, hconns ▸ hconn, hh⟩)

variable {e : BatchedEvent Printed Frame}

theorem bytesOf_of_ne {o : OwnerId}
    (h : o ≠ State.routedOwner e) (id : String) : e.bytesOf o id = [] := by
  cases e with
  | output b =>
    have hne : b.owner ≠ o := Ne.symm h
    simp [BatchedEvent.bytesOf, BatchedOutput.bytesOf, hne]
  | frame f => rfl

/-- What the router takes was first in line: on the connection it goes to it is behind every
snapshot there, and it is no other connection's. -/
theorem Inv.cut_route (h : Inv s) (len : Frame → ℕ)
    {rest : List (BatchedEvent Printed Frame)} (he : s.batched = e :: rest) {id : String}
    (hcut : Cut s c id p m b) : Cut (s.route len e rest) c id p m
      (b ++ if s.target (State.routedOwner e) = some c then printedBy id p (State.routedFrame e)
        else []) := by
  obtain ⟨r, hr, rfl, ahead, hdrawn, hahead⟩ := hcut
  obtain ⟨-, -, hprinted⟩ := h.sorted.routedFrame he
  have hline : ∀ o, lineBy s o r.channelId p =
      (e.bytesOf o r.channelId).filter (·.reader = p) ++
        lineBy (s.route len e rest) o r.channelId p := by
    intro o
    unfold lineBy
    rw [State.line_route len he, filter_append]
  have hframe : printedBy r.channelId p (State.routedFrame e) =
      (e.bytesOf (State.routedOwner e) r.channelId).filter (·.reader = p) := by
    unfold printedBy
    rw [hprinted]
  by_cases ho : r.owner = State.routedOwner e
  · -- the event is one of the reader's own channel
    by_cases hc : s.target (State.routedOwner e) = some c
    · rw [if_pos hc, hframe]
      refine ⟨r, hr, rfl, lineBy (s.route len e rest) r.owner r.channelId p, ?_, fun _ => rfl⟩
      rw [hdrawn, hahead (ho ▸ hc), hline, ho, append_assoc]
    · rw [if_neg hc, append_nil]
      refine ⟨r, hr, rfl, ahead, hdrawn, ?_⟩
      intro htarget
      rw [State.route_target, ho] at htarget
      exact absurd htarget hc
  · -- it is another hub's, and has no byte of this reader
    have hnone : (e.bytesOf (State.routedOwner e) r.channelId).filter (·.reader = p) = [] := by
      refine filter_eq_nil_iff.mpr ?_
      intro x hx hp
      have hin : x ∈ s.line (State.routedOwner e) r.channelId := by
        rw [State.line_route len he]
        exact mem_append_left _ hx
      obtain ⟨r', hr', howner, -⟩ := h.mine _ _ x hin
      rw [of_decide_eq_true hp] at hr'
      obtain rfl : r = r' := some_inj.mp (hr.symm.trans hr')
      exact ho howner
    rw [hframe, hnone, ite_self, append_nil]
    refine ⟨r, hr, rfl, ahead, hdrawn, ?_⟩
    intro htarget
    rw [State.route_target] at htarget
    rw [hahead htarget, hline, bytesOf_of_ne ho]
    rfl

theorem Inv.routes (h : Inv s) {len : Frame → ℕ}
    {rest : List (BatchedEvent Printed Frame)} (he : s.batched = e :: rest)
    (hok : Orderly s .route) (hw : WellFormed (s.route len e rest))
    (ht : Sorted (s.route len e rest)) : Inv (s.route len e rest) := by
  obtain ⟨-, hsnapshot, hprinted⟩ := h.sorted.routedFrame he
  have hsent : ∀ c, (s.route len e rest).sentTo c = s.sentTo c ++
      if s.target (State.routedOwner e) = some c then [State.routedFrame e] else [] := by
    intro c
    rw [sentTo_append (State.route_wire len)]
    cases htarget : s.target (State.routedOwner e) with
    | none => simp
    | some c' =>
      by_cases hc : c' = c <;> simp [hc]
  refine ⟨hw, ht, ?_, ?_, ?_⟩
  · intro o id b hb
    refine h.mine o id b ?_
    rw [State.line_route len he]
    exact mem_append_right _ hb
  · intro c id p m b hb
    rw [hsent] at hb
    rcases after_append.mp hb with ⟨b₀, hb₀, rfl⟩ | hb
    · have hcut := h.cut_route len he (h.sent c id p m b₀ hb₀)
      split at hcut
      · next hc => simpa [hc] using hcut
      · next hc => simpa [hc] using hcut
    · -- what the router sends is no snapshot
      obtain ⟨f, hf, hmark⟩ := hb.exists_mem
      split at hf
      · obtain rfl := mem_singleton.mp hf
        rw [hsnapshot] at hmark
        cases hmark
      · cases hf
  · rintro c id p m ⟨conn, a, hconn, hh⟩
    have hcut := h.cut_route len he (h.made c id p m ⟨conn, a, hconn, hh⟩)
    by_cases hc : s.target (State.routedOwner e) = some c
    · -- none of this reader's output goes out before its snapshot
      have hnone : printedBy id p (State.routedFrame e) = [] := by
        unfold printedBy
        rw [hprinted]
        obtain ⟨owner, isOpen, handler, reads⟩ := conn
        obtain rfl : handler = .answered a id p m := hh
        have hat : (s.target (State.routedOwner e)).bind s.conns =
            some ⟨owner, isOpen, .answered a id p m, reads⟩ := by
          rw [hc]
          exact hconn
        simp only [Orderly, he, hat] at hok
        exact hok
      rwa [hnone, ite_self, append_nil] at hcut
    · rwa [if_neg hc, append_nil] at hcut

variable {conn : Connection}

theorem Inv.hubReads (h : Inv s) {n : ℕ} (hc : s.conns c = some conn) (hw : WellFormed (s.setConn c
      { conn with reads := conn.reads ++ [(s.unread c conn).take n] }))
    (ht : Sorted (s.setConn c
      { conn with reads := conn.reads ++ [(s.unread c conn).take n] })) :
    Inv (s.setConn c { conn with reads := conn.reads ++ [(s.unread c conn).take n] }) := by
  have htarget : (s.setConn c
      { conn with reads := conn.reads ++ [(s.unread c conn).take n] }).target = s.target :=
    State.target_setConn hc rfl
  have hcut : ∀ c' id p m b, Cut s c' id p m b →
      Cut (s.setConn c { conn with reads := conn.reads ++ [(s.unread c conn).take n] })
        c' id p m b := by
    rintro c' id p m b ⟨r, hr, hid, rest, hdrawn, hrest⟩
    refine ⟨r, hr, hid, rest, hdrawn, ?_⟩
    intro hto
    rw [htarget] at hto
    exact hrest hto
  refine ⟨hw, ht, h.mine, fun c' id p m b hb => hcut _ _ _ _ _ (h.sent c' id p m b hb), ?_⟩
  rintro c' id p m ⟨conn', a, hconn', hh⟩
  refine hcut c' id p m [] (h.made c' id p m ?_)
  by_cases hcc : c' = c
  · subst hcc
    obtain ⟨rfl⟩ := (update_self ..).symm.trans hconn'
    exact ⟨conn, a, hc, hh⟩
  · exact ⟨conn', a, (update_of_ne hcc ..).symm.trans hconn', hh⟩

/-- **The step lemma.** -/
theorem Inv.step {len : Frame → ℕ} {a : Step} (h : Inv s) (hok : Orderly s a)
    (hs' : step len s a = some s') : Inv s' := by
  have hw : WellFormed s' := h.wellFormed.step hs'
  have heffect := step_effect h.wellFormed hs'
  have ht : Sorted s' := h.sorted.step heffect
  have hold : Settles s s' → ∀ c id p m, s'.Answered c id p m → Cut s c id p m [] :=
    fun hsettles c id p m hm => h.made c id p m (hsettles c id p m hm)
  cases heffect with
  | replies hr =>
    obtain ⟨l, hq, hl⟩ := hr.quiet
    refine h.hand hw ht hq (fun e he => Frame.printed_of_isReply (hl e he)) ?_ (hold hr.settles)
    intro e he id p m hm
    rw [Frame.snapshot_of_isReply (hl e he)] at hm
    cases hm
  | announces _ _ _ hsettles hq =>
    refine h.hand hw ht hq ?_ ?_ (hold hsettles)
    all_goals
      intro e he
      unfold State.handed at he
      split at he
      · obtain rfl := mem_singleton.mp he
        first | exact fun _ => rfl | exact nofun
      · cases he
  | @answers c id p m f _ hm hf hsettles hq =>
    have hmem : ∀ e ∈ s.handed c f, e = (c, f) := by
      intro e he
      unfold State.handed at he
      split at he
      · exact mem_singleton.mp he
      · cases he
    refine h.hand hw ht hq ?_ ?_ (hold hsettles)
    · intro e he id'
      rw [hmem e he]
      obtain ⟨msg, pid⟩ := f
      cases msg <;> first | rfl | (cases pid <;> exact nomatch hf)
    · intro e he id' p' m' hm'
      rw [hmem e he] at hm' ⊢
      obtain ⟨rfl, rfl, rfl⟩ : id = id' ∧ p = p' ∧ m = m' := by simpa [hf] using hm'
      exact h.made c id p m hm
  | @draws p r c ha hr hcmd hanswered hq =>
    subst ha
    refine h.hand hw ht hq (forall_mem_nil _) (forall_mem_nil _) ?_
    intro c' id q m hm
    rcases hanswered c' id q m hm with hm | ⟨rfl, rfl, rfl, rfl⟩
    · exact h.made c' id q m hm
    · -- nothing of the reader is on its way, so its screen is all it ever sent
      have hnone : lineBy s r.owner r.channelId q = [] := by
        simp only [Orderly, hr, hcmd] at hok
        exact hok
      exact ⟨r, hr, rfl, [], by simp, fun _ => hnone.symm⟩
  | registers _ hl hwire hline _ hreaders hconns hroutes =>
    exact h.registers hw ht hl hwire hline hreaders hconns hroutes
  | emits hr hreaders howner hid hdrawn hdata _ hline _ _ _ hconns hroutes hwire =>
    exact h.emits hw ht hr hreaders howner hid hdrawn (fun b hb => (hdata b hb).2) hline hconns
      hroutes hwire
  | routes ha he hroute =>
    subst ha hroute
    exact h.routes he hok hw ht
  | hubReads _ hc hread =>
    subst hread
    exact h.hubReads hc hw ht

/-! ### What the hub made of it -/

/-- What a hub read is the first of what its connection was given, and each read is settled. -/
structure Read (s : State) : Prop where
  of_sent : ∀ c conn, s.conns c = some conn → conn.reads.flatten <+: s.sentTo c
  settled : ∀ c conn, s.conns c = some conn → ∀ fs ∈ conn.reads, settled fs = true

namespace Read

theorem init : Read init where
  of_sent _ _ h := nomatch h
  settled _ _ h := nomatch h

theorem mono (h : Read s) (hwire : s'.wire = s.wire ++ l)
    (hconns : ∀ c conn', s'.conns c = some conn' →
      conn'.reads = [] ∨ ∃ conn, s.conns c = some conn ∧ conn'.reads = conn.reads) : Read s' := by
  refine ⟨?_, ?_⟩
  · intro c conn' hc
    rcases hconns c conn' hc with hnone | ⟨conn, hconn, hsame⟩
    · rw [hnone]
      exact nil_prefix
    · rw [hsame, sentTo_append hwire]
      exact (h.of_sent c conn hconn).trans (prefix_append ..)
  · intro c conn' hc
    rcases hconns c conn' hc with hnone | ⟨conn, hconn, hsame⟩
    · rw [hnone]
      exact nofun
    · rw [hsame]
      exact h.settled c conn hconn

theorem quiet (h : Read s) (hq : Quiet s l s') : Read s' := by
  refine h.mono hq.wire ?_
  intro c conn' hc
  have hreads := hq.reads c
  rw [hc] at hreads
  obtain ⟨conn, hconn, hsame⟩ := map_eq_some_iff.mp hreads.symm
  exact .inr ⟨conn, hconn, hsame.symm⟩

theorem step {a : Step} (h : Read s) (hok : Orderly s a) (ha : Effect s a s') : Read s' := by
  cases ha with
  | replies hr =>
    obtain ⟨l, hq, -⟩ := hr.quiet
    exact h.quiet hq
  | announces _ _ _ _ hq | answers _ _ _ _ hq | draws _ _ _ _ hq => exact h.quiet hq
  | registers _ _ hwire _ _ _ hconns _ =>
    rw [append_assoc] at hwire
    refine h.mono hwire ?_
    intro c conn' hc
    rw [hconns] at hc
    by_cases hnew : c = s.nextConn
    · subst hnew
      rw [update_self] at hc
      cases hc
      exact .inl rfl
    · rw [update_of_ne hnew] at hc
      exact .inr ⟨conn', hc, rfl⟩
  | emits _ _ _ _ _ _ _ _ _ _ _ hconns _ hwire =>
    have hwire' : s'.wire = s.wire ++ [] := by rw [hwire, append_nil]
    refine h.mono hwire' ?_
    intro c conn' hc
    rw [hconns] at hc
    exact .inr ⟨conn', hc, rfl⟩
  | @routes len _ _ _ _ hroute =>
    subst hroute
    exact h.mono (State.route_wire len) fun c conn' hc => .inr ⟨conn', hc, rfl⟩
  | @hubReads c n conn ha hc hread =>
    subst ha hread
    refine ⟨?_, ?_⟩
    · intro c' conn' hc'
      by_cases hcc : c' = c
      · subst hcc
        obtain ⟨rfl⟩ := (update_self ..).symm.trans hc'
        have hsplit := prefix_iff_eq_append.mp (h.of_sent c' conn hc)
        rw [flatten_append, flatten_singleton]
        change _ <+: s.sentTo c'
        rw [← hsplit]
        exact (prefix_append_right_inj _).mpr <| take_prefix ..
      · exact h.of_sent c' conn' ((update_of_ne hcc ..).symm.trans hc')
    · intro c' conn' hc'
      by_cases hcc : c' = c
      · subst hcc
        obtain ⟨rfl⟩ := (update_self ..).symm.trans hc'
        intro fs hfs
        rcases mem_append.mp hfs with hold | hnew
        · exact h.settled c' conn hc fs hold
        · obtain rfl := mem_singleton.mp hnew
          simpa only [Orderly, hc] using hok
      · exact h.settled c' conn' ((update_of_ne hcc ..).symm.trans hc')

theorem sentTo_eq (h : Read s) (hc : s.conns c = some conn) :
    s.sentTo c = conn.reads.flatten ++ s.unread c conn :=
  (prefix_iff_eq_append.mp (h.of_sent c conn hc)).symm

end Read

theorem settled_behind {pre post : List Frame} {id : String}
    {requestId : Option String} {lastSeq : ℕ}
    (h : settled (pre ++ f :: post) = true) (hf : f.msg = .attachOk id requestId m lastSeq) :
    ∀ g ∈ post, g.printed id = [] := by
  induction pre with
  | nil =>
    intro g hg
    rw [nil_append, settled, hf, Bool.and_eq_true] at h
    exact isEmpty_iff.mp (all_eq_true.mp h.1 g hg)
  | cons a pre ih =>
    rw [cons_append, settled, Bool.and_eq_true] at h
    exact ih h.2

section Passed

variable {id : String} {p : ℕ} {m : Mirror} {b : List Printed} {fs : List Frame}

theorem onOutput_printedBy (f : Frame) :
    (onOutput id f).elim [] (Entry.printedBy p) = printedBy id p f := by
  obtain ⟨msg, pid⟩ := f
  cases msg with
  | output id' seq data =>
    unfold onOutput printedBy Frame.printed
    dsimp only
    split <;> rfl
  | _ => rfl

theorem onOutput_or_printedBy (f : Frame) :
    ((onOutput id f).or (onSnapshotRes id f)).elim [] (Entry.printedBy p) = printedBy id p f := by
  rw [← onOutput_printedBy]
  cases hout : onOutput id f with
  | some e => rfl
  | none =>
    rw [none_or]
    unfold onSnapshotRes
    split
    · split <;> rfl
    · rfl

theorem attachOk_of_onAttachOk {e : Entry} (h : onAttachOk id f = some e) :
    ∃ requestId q m lastSeq, f = ⟨.attachOk id requestId m lastSeq, some q⟩ ∧
      e = .snapshot q m := by
  obtain ⟨msg, pid⟩ := f
  unfold onAttachOk at h
  split at h
  · next id' requestId m lastSeq q hmsg hpid =>
    obtain ⟨rfl, ⟨rfl⟩⟩ := ite_none_right_eq_some.mp h
    obtain rfl : msg = _ := hmsg
    obtain rfl : pid = _ := hpid
    exact ⟨requestId, q, m, lastSeq, rfl, rfl⟩
  · cases h

theorem onAttachOk_printedBy (fs : List Frame) :
    (fs.filterMap (onAttachOk id)).flatMap (Entry.printedBy p) = [] := by
  refine flatMap_eq_nil_iff.mpr ?_
  intro e he
  obtain ⟨f, -, hf⟩ := mem_filterMap.mp he
  obtain ⟨requestId, q, m, lastSeq, -, rfl⟩ := attachOk_of_onAttachOk hf
  rfl

/-- The snapshot of an ATTACH_OK is passed on after the whole read; a settled read has no
output behind it. -/
theorem after_onAttachOk (hfs : settled fs = true)
    (h : After Entry.mark (Entry.printedBy p) (fs.filterMap (onAttachOk id)) (p, m) b) :
    After Frame.snapshot (printedBy id p) fs (id, p, m) b := by
  obtain ⟨pre, e, post, hsplit, hmark, rfl⟩ := h
  obtain ⟨l₁, l₂, rfl, -, hl₂⟩ := filterMap_eq_append_iff.mp hsplit
  obtain ⟨l₃, f, l₄, rfl, -, hf, rfl⟩ := filterMap_eq_cons_iff.mp hl₂
  obtain ⟨requestId, q, m', lastSeq, rfl, rfl⟩ := attachOk_of_onAttachOk hf
  obtain ⟨rfl, rfl⟩ : q = p ∧ m' = m := by simpa [Entry.mark] using hmark
  rw [← append_assoc] at hfs
  refine ⟨l₁ ++ l₃, _, l₄, (append_assoc ..).symm, rfl, ?_⟩
  rw [onAttachOk_printedBy]
  refine (flatMap_eq_nil_iff.mpr ?_).symm
  intro g hg
  unfold printedBy
  rw [settled_behind hfs rfl g hg]
  rfl

theorem paneOf_printedBy (fs : List Frame) :
    (paneOf id fs).flatMap (Entry.printedBy p) = fs.flatMap (printedBy id p) := by
  unfold paneOf
  rw [flatMap_append, onAttachOk_printedBy, append_nil,
    flatMap_filterMap_of_elim onOutput_printedBy]

theorem spoolOf_printedBy (fs : List Frame) :
    (spoolOf id fs).flatMap (Entry.printedBy p) = fs.flatMap (printedBy id p) := by
  unfold spoolOf
  rw [flatMap_append, onAttachOk_printedBy, append_nil,
    flatMap_filterMap_of_elim onOutput_or_printedBy]

theorem after_paneOf (hfs : settled fs = true)
    (h : After Entry.mark (Entry.printedBy p) (paneOf id fs) (p, m) b) :
    After Frame.snapshot (printedBy id p) fs (id, p, m) b := by
  rcases after_append.mp h with ⟨b₀, hb₀, -⟩ | h
  · -- output is no snapshot
    obtain ⟨e, he, hmark⟩ := hb₀.exists_mem
    obtain ⟨f, -, hf⟩ := mem_filterMap.mp he
    unfold onOutput at hf
    split at hf
    · obtain ⟨-, ⟨rfl⟩⟩ := ite_none_right_eq_some.mp hf
      cases hmark
    · cases hf
  · exact after_onAttachOk hfs h

theorem after_spoolOf (hfs : settled fs = true)
    (h : After Entry.mark (Entry.printedBy p) (spoolOf id fs) (p, m) b) :
    After Frame.snapshot (printedBy id p) fs (id, p, m) b := by
  rcases after_append.mp h with ⟨b₀, hb₀, rfl⟩ | h
  · rw [onAttachOk_printedBy, append_nil]
    refine hb₀.of_filterMap ?_ onOutput_or_printedBy
    rintro ⟨msg, pid⟩ e hf hmark
    rcases or_eq_some_iff.mp hf with hf | ⟨-, hf⟩
    · unfold onOutput at hf
      split at hf
      · obtain ⟨-, ⟨rfl⟩⟩ := ite_none_right_eq_some.mp hf
        cases hmark
      · cases hf
    · unfold onSnapshotRes at hf
      split at hf
      · next id' m' lastSeq q hmsg hpid =>
        obtain ⟨rfl, ⟨rfl⟩⟩ := ite_none_right_eq_some.mp hf
        obtain ⟨rfl, rfl⟩ : q = p ∧ m' = m := by simpa [Entry.mark] using hmark
        obtain rfl : msg = _ := hmsg
        obtain rfl : pid = _ := hpid
        rfl
      · cases hf
  · exact after_onAttachOk hfs h

end Passed

theorem Inv.exact_of_read (h : Inv s) (hread : Read s) (hc : s.conns c = some conn) {id : String}
    (hb : After Frame.snapshot (printedBy id p) conn.reads.flatten (id, p, m) b) :
    Exact s c conn id p m b := by
  have hsent : After Frame.snapshot (printedBy id p) (s.sentTo c) (id, p, m)
      (b ++ (s.unread c conn).flatMap (printedBy id p)) := by
    rw [hread.sentTo_eq hc]
    exact after_append.mpr (.inl ⟨b, hb, rfl⟩)
  obtain ⟨r, hr, hid, rest, hdrawn, hrest⟩ := h.sent c id p m _ hsent
  refine ⟨r, hr, hid, (s.unread c conn).flatMap (printedBy id p) ++ rest, ?_, ?_⟩
  · rw [hdrawn, append_assoc]
  · intro htarget
    rw [hrest htarget]

/-- **What follows a snapshot is what was drawn after it.**  In every run in which snapshots
are made when no output of their reader is on its way, none is sent while a snapshot waits to
be, and no read has output behind an ATTACH_OK: for every snapshot a hub received, showed to
its panes or stored in the spool, the output of the channel behind it is what the reader drew
after it, as far as it has come. -/
theorem snapshot_followed_by_what_was_drawn_after (len : Frame → ℕ)
    (h : Run (Agent.step len) Orderly Agent.init s) {c : ℕ} {conn : Connection}
    (hc : s.conns c = some conn) (id : String) (p : ℕ) (m : Mirror) (b : List Printed) :
    (After Frame.snapshot (printedBy id p) conn.reads.flatten (id, p, m) b →
      Exact s c conn id p m b) ∧
    (After Entry.mark (Entry.printedBy p) (conn.reads.flatMap (paneOf id)) (p, m) b →
      Exact s c conn id p m b) ∧
    (After Entry.mark (Entry.printedBy p) (conn.reads.flatMap (spoolOf id)) (p, m) b →
      Exact s c conn id p m b) := by
  have hboth : Inv s ∧ Read s := by
    refine h.invariant (I := fun s => Inv s ∧ Read s) ⟨.init, .init⟩ ?_
    rintro s a s' ⟨hinv, hread⟩ hok hs
    exact ⟨hinv.step hok hs, hread.step hok (step_effect hinv.wellFormed hs)⟩
  obtain ⟨hinv, hread⟩ := hboth
  refine ⟨hinv.exact_of_read hread hc, ?_, ?_⟩
  · intro hb
    refine hinv.exact_of_read hread hc (hb.of_flatMap ?_ paneOf_printedBy)
    exact fun fs hfs b hb => after_paneOf (hread.settled c conn hc fs hfs) hb
  · intro hb
    refine hinv.exact_of_read hread hc (hb.of_flatMap ?_ spoolOf_printedBy)
    exact fun fs hfs b hb => after_spoolOf (hread.settled c conn hc fs hfs) hb

/-- A hub attaches while nothing is on its way, and reads what its terminal prints next. -/
theorem cut_after_an_attach :
    ∃ s conn, exec (Agent.step fun _ => 1) Agent.init [.register ⟨"hub"⟩, .resume 0,
        .spawn 0 "r" (some "t") "" 80 24 (.ok ()), .resume 0, .resume 0, .resume 0,
        .read 0 [97] [], .batch, .tick, .route, .ask 0 (.attach none) "t", .resume 0, .serve 0,
        .resume 0, .hubReads 0 4, .read 0 [98] [], .batch, .tick, .route, .hubReads 0 1,
        .read 0 [99] []] = some s ∧
      s.conns 0 = some conn ∧
      conn.reads.flatMap (paneOf "t") = [.output [⟨0, 0, 97⟩], .snapshot 0 ⟨80, 24, [⟨0, 0, 97⟩]⟩,
        .output [⟨0, 0, 98⟩]] ∧
      Exact s 0 conn "t" 0 ⟨80, 24, [⟨0, 0, 97⟩]⟩ [⟨0, 0, 98⟩] := by
  have hrun : Run (Agent.step fun _ => 1) Orderly Agent.init _ := .get [.register ⟨"hub"⟩,
    .resume 0, .spawn 0 "r" (some "t") "" 80 24 (.ok ()), .resume 0, .resume 0, .resume 0,
    .read 0 [97] [], .batch, .tick, .route, .ask 0 (.attach none) "t", .resume 0, .serve 0,
    .resume 0, .hubReads 0 4, .read 0 [98] [], .batch, .tick, .route, .hubReads 0 1,
    .read 0 [99] []] (by decide +kernel) (by decide +kernel)
  refine ⟨_, _, (some_get _).symm, (some_get (by decide +kernel)).symm,
    by decide +kernel, (snapshot_followed_by_what_was_drawn_after _ hrun
      (some_get _).symm "t" 0 _ _).2.1 ?_⟩
  exact ⟨[.output [⟨0, 0, 97⟩]], .snapshot 0 ⟨80, 24, [⟨0, 0, 97⟩]⟩, [.output [⟨0, 0, 98⟩]],
    by decide +kernel, rfl, by decide⟩

/-- A byte is drawn and waits in the batch; the snapshot that shows it is answered past it,
and then the byte itself is shown. -/
theorem drawn_output_follows_its_snapshot :
    ¬∀ s c conn, Run (Agent.step fun _ => 1) free Agent.init s → s.conns c = some conn →
      ∀ id p m b, After Entry.mark (Entry.printedBy p) (conn.reads.flatMap (paneOf id)) (p, m) b →
        Exact s c conn id p m b := by
  intro h
  have hrun : Run (Agent.step fun _ => 1) free Agent.init _ := .get_free [.register ⟨"hub"⟩,
    .resume 0, .spawn 0 "r" (some "t") "" 80 24 (.ok ()), .resume 0, .resume 0, .resume 0,
    .read 0 [97] [], .batch, .ask 0 (.attach none) "t", .resume 0, .serve 0, .resume 0,
    .tick, .route, .hubReads 0 3, .hubReads 0 1] (by decide +kernel)
  obtain ⟨r, hr, -, rest, hrest, -⟩ := h _ 0 _ hrun (some_get (by decide +kernel)).symm "t" 0
    ⟨80, 24, [⟨0, 0, 97⟩]⟩ [⟨0, 0, 97⟩]
    ⟨[], .snapshot 0 ⟨80, 24, [⟨0, 0, 97⟩]⟩, [.output [⟨0, 0, 97⟩]], by decide +kernel, rfl,
      by decide⟩
  -- the reader drew one byte, and the snapshot with what follows it has two
  have hone : (some r).map (·.mirror.drawn.length) = some 1 := by
    rw [← hr]
    decide +kernel
  rw [map_some, hrest] at hone
  exact absurd hone (by simp)

end Lasterm.Agent.SnapshotCut
