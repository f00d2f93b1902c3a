import Lasterm.Files.SftpSink

/-!
# Isolation of SFTP handles

Every byte the server writes through a handle goes into the file of the sink that sent
it, as long as no sink ends while a worker of it may still take a piece.  The invariant
has two halves: `Wire` says what the requests in flight mean for the server's handle
table, and `Calls` who may still send.

## Main results

* `Inv.step` — one step keeps both.
* `isolated_of_orderly` — handles are isolated, in every orderly run.
-/

namespace Lasterm.Files

open Transition List Function

namespace Session

/-! ### The wire

What the requests in flight say about the handle table.  The requests in flight, seen as
one queue through the server, only ever lose their oldest and gain a youngest: serving
one moves it over, in its place. -/

/-- After this request no other of its sink follows while it is in flight. -/
def Bars (r : Request) : Prop :=
  r.op = .openFile ∨ r.op.IsClose

/-- The handle is the sink's, on both sides. -/
def Owns (s : Session) (k h : ℕ) : Prop :=
  s.handles h = some k ∧ (s.sinks k).handle = some h

/-- The invariant of the handles and of what is in flight. -/
structure Wire (s : Session) : Prop where
  ordered : s.inFlight.Pairwise fun a b => Bars a → b.sink ≠ a.sink
  below : ∀ r ∈ s.inFlight, r.sink < s.nSinks
  opening : ∀ r ∈ s.inFlight, r.op = .openFile → (s.sinks r.sink).known = false
  closing : ∀ r ∈ s.inFlight, r.op.IsClose → (s.sinks r.sink).closing = true
  piece : ∀ r ∈ s.inFlight, ∀ c p l, r.op = .write c p l → c < s.nCalls
  to_open : ∀ r ∈ s.toServer, r.op = .openFile → (s.sinks r.sink).handle = none
  queued : ∀ r ∈ s.toServer, r.op ≠ .openFile → s.Owns r.sink r.handle
  opened : ∀ a ∈ s.toHub, a.request.op = .openFile → a.ok = true →
    ∃ h, (s.sinks a.request.sink).handle = some h
  unclosed : ∀ a ∈ s.toHub, a.request.op.IsClose → a.ok = false →
    s.Owns a.request.sink a.request.handle
  open_owned : ∀ k h, (s.sinks k).handle = some h → (s.sinks k).closing = false →
    s.handles h = some k
  known_handle : ∀ k, (s.sinks k).known = true → ∃ h, (s.sinks k).handle = some h
  fresh : ∀ k, s.nSinks ≤ k → (s.sinks k).handle = none ∧ (s.sinks k).known = false ∧
    (s.sinks k).closing = false
  own_file : ∀ w ∈ s.written, w.owner = w.sink

theorem Wire.init : Wire init := by
  constructor <;> simp [Session.init, inFlight, Sink.none]

variable {s s' : Session}

section

variable (hw : Wire s)
include hw

theorem Wire.congr (hserver : s'.toServer = s.toServer)
    (hhub : s'.toHub = s.toHub) (hhandles : s'.handles = s.handles)
    (hn : s'.nSinks = s.nSinks) (hwritten : s'.written = s.written)
    (hcalls : s.nCalls ≤ s'.nCalls)
    (hsinks : ∀ k, (s'.sinks k).handle = (s.sinks k).handle ∧
      (s'.sinks k).known = (s.sinks k).known ∧ (s'.sinks k).closing = (s.sinks k).closing) :
    Wire s' := by
  have hflight : s'.inFlight = s.inFlight := by simp [inFlight, hserver, hhub]
  have howns : ∀ k h, s'.Owns k h ↔ s.Owns k h := by
    intro k h
    simp [Owns, hhandles, (hsinks k).1]
  constructor
  · rw [hflight]; exact hw.ordered
  · rw [hflight, hn]; exact hw.below
  · intro r hr ho
    rw [(hsinks _).2.1]; exact hw.opening r (hflight ▸ hr) ho
  · intro r hr hc
    rw [(hsinks _).2.2]; exact hw.closing r (hflight ▸ hr) hc
  · intro r hr c p l hop
    exact Nat.lt_of_lt_of_le (hw.piece r (hflight ▸ hr) c p l hop) hcalls
  · intro r hr ho
    rw [(hsinks _).1]; exact hw.to_open r (hserver ▸ hr) ho
  · intro r hr ho
    rw [howns]; exact hw.queued r (hserver ▸ hr) ho
  · intro a ha ho hok
    rw [(hsinks _).1]; exact hw.opened a (hhub ▸ ha) ho hok
  · intro a ha hc hok
    rw [howns]; exact hw.unclosed a (hhub ▸ ha) hc hok
  · intro k h hk hc
    rw [(hsinks k).1] at hk
    rw [(hsinks k).2.2] at hc
    rw [hhandles]; exact hw.open_owned k h hk hc
  · intro k hk
    rw [(hsinks k).2.1] at hk
    rw [(hsinks k).1]; exact hw.known_handle k hk
  · intro k hk
    rw [(hsinks k).1, (hsinks k).2.1, (hsinks k).2.2]; exact hw.fresh k (hn ▸ hk)
  · rw [hwritten]; exact hw.own_file

theorem Wire.note (e : Event) : Wire (s.note e) :=
  hw.congr rfl rfl rfl rfl rfl (Nat.le_refl _) fun _ => ⟨rfl, rfl, rfl⟩

variable {k : ℕ}

theorem Wire.lt_of_known (hk : (s.sinks k).known = true) : k < s.nSinks := by
  by_contra hlt
  have := (hw.fresh k (by omega)).2.1
  simp [this] at hk

theorem Wire.not_barred (hk : (s.sinks k).known = true)
    (hc : (s.sinks k).closing = false) : ∀ r ∈ s.inFlight, Bars r → r.sink ≠ k := by
  rintro r hr (ho | hcl) rfl
  · simp [hw.opening r hr ho] at hk
  · simp [hw.closing r hr hcl] at hc

theorem Wire.owns_known (hk : (s.sinks k).known = true)
    (hc : (s.sinks k).closing = false) : ∃ h, s.Owns k h := by
  obtain ⟨h, hh⟩ := hw.known_handle k hk
  exact ⟨h, hw.open_owned k h hh hc, hh⟩

variable {h : ℕ}

theorem Wire.send (op : Op) (hown : s.Owns k h)
    (hlt : k < s.nSinks) (hbar : ∀ r ∈ s.inFlight, Bars r → r.sink ≠ k)
    (hop : op ≠ .openFile) (hcl : op.IsClose → (s.sinks k).closing = true)
    (hpiece : ∀ c p l, op = .write c p l → c < s.nCalls) : Wire (s.send k op) := by
  unfold Session.send
  split
  · exact hw
  have hflight : ∀ r, r ∈ s.toHub.map Response.request ++
      (s.toServer ++ [⟨k, (s.sinks k).handle.getD 0, op⟩]) ↔
      r ∈ s.inFlight ∨ r = ⟨k, h, op⟩ := by
    intro r
    simp [inFlight, hown.2, or_assoc]
  constructor
  · show ((s.toHub.map Response.request ++ (s.toServer ++ _))).Pairwise _
    rw [← append_assoc, pairwise_append]
    refine ⟨hw.ordered, by simp, ?_⟩
    intro a ha b hb hbars
    obtain rfl : b = _ := by simpa using hb
    exact (hbar a ha hbars).symm
  · intro r hr
    rcases (hflight r).mp hr with hr | rfl
    · exact hw.below r hr
    · exact hlt
  · intro r hr ho
    rcases (hflight r).mp hr with hr | rfl
    · exact hw.opening r hr ho
    · exact absurd ho hop
  · intro r hr hc
    rcases (hflight r).mp hr with hr | rfl
    · exact hw.closing r hr hc
    · exact hcl hc
  · intro r hr
    rcases (hflight r).mp hr with hr | rfl
    · exact hw.piece r hr
    · exact hpiece
  · intro r hr ho
    rcases mem_append.mp hr with hr | hr
    · exact hw.to_open r hr ho
    · obtain rfl : r = _ := by simpa using hr
      exact absurd ho hop
  · intro r hr ho
    rcases mem_append.mp hr with hr | hr
    · exact hw.queued r hr ho
    · obtain rfl : r = _ := by simpa using hr
      simp only [hown.2, Option.getD_some]
      exact hown
  · exact hw.opened
  · exact hw.unclosed
  · exact hw.open_owned
  · exact hw.known_handle
  · exact hw.fresh
  · exact hw.own_file

theorem Wire.openFile (path : String) :
    Wire { s with
      nSinks := s.nSinks + 1
      sinks := update s.sinks s.nSinks { Sink.none with path := path }
      toServer := s.toServer ++ [⟨s.nSinks, 0, .openFile⟩] } := by
  have hother : ∀ r ∈ s.inFlight, r.sink ≠ s.nSinks := fun r hr =>
    Nat.ne_of_lt (hw.below r hr)
  have hserver : ∀ r ∈ s.toServer, r.sink ≠ s.nSinks := fun r hr =>
    hother r (mem_append_right _ hr)
  have hhub : ∀ a ∈ s.toHub, a.request.sink ≠ s.nSinks := fun a ha =>
    hother _ (mem_append_left _ (mem_map_of_mem ha))
  have howns : ∀ k h, k ≠ s.nSinks → s.Owns k h → Owns { s with
      nSinks := s.nSinks + 1
      sinks := update s.sinks s.nSinks { Sink.none with path := path }
      toServer := s.toServer ++ [⟨s.nSinks, 0, .openFile⟩] } k h := by
    intro k h hk ho
    exact ⟨ho.1, by simpa [update_of_ne hk] using ho.2⟩
  have hflight : ∀ r, r ∈ s.toHub.map Response.request ++
      (s.toServer ++ [⟨s.nSinks, 0, .openFile⟩]) ↔
      r ∈ s.inFlight ∨ r = ⟨s.nSinks, 0, .openFile⟩ := by
    intro r
    simp [inFlight, or_assoc]
  constructor
  · show ((s.toHub.map Response.request ++ (s.toServer ++ _))).Pairwise _
    rw [← append_assoc, pairwise_append]
    refine ⟨hw.ordered, by simp, ?_⟩
    intro a ha b hb _
    obtain rfl : b = _ := by simpa using hb
    exact (hother a ha).symm
  · intro r hr
    rcases (hflight r).mp hr with hr | rfl
    · exact Nat.lt_succ_of_lt (hw.below r hr)
    · exact Nat.lt_succ_self _
  · intro r hr ho
    rcases (hflight r).mp hr with hr | rfl
    · simpa [update_of_ne (hother r hr)] using hw.opening r hr ho
    · simp [Sink.none]
  · intro r hr hc
    rcases (hflight r).mp hr with hr | rfl
    · simpa [update_of_ne (hother r hr)] using hw.closing r hr hc
    · exact hc.elim
  · intro r hr
    rcases (hflight r).mp hr with hr | rfl
    · exact hw.piece r hr
    · simp
  · intro r hr ho
    rcases mem_append.mp hr with hr | hr
    · simpa [update_of_ne (hserver r hr)] using hw.to_open r hr ho
    · obtain rfl : r = _ := by simpa using hr
      simp [Sink.none]
  · intro r hr ho
    rcases mem_append.mp hr with hr | hr
    · exact howns _ _ (hserver r hr) (hw.queued r hr ho)
    · obtain rfl : r = _ := by simpa using hr
      exact absurd rfl ho
  · intro a ha ho hok
    simpa [update_of_ne (hhub a ha)] using hw.opened a ha ho hok
  · intro a ha hc hok
    exact howns _ _ (hhub a ha) (hw.unclosed a ha hc hok)
  · intro k h hk hc
    by_cases hkn : k = s.nSinks
    · subst hkn; simp [Sink.none] at hk
    · simp only [update_of_ne hkn] at hk hc
      exact hw.open_owned k h hk hc
  · intro k hk
    by_cases hkn : k = s.nSinks
    · subst hkn; simp [Sink.none] at hk
    · simp only [update_of_ne hkn] at hk ⊢
      exact hw.known_handle k hk
  · intro k hk
    have hk : s.nSinks + 1 ≤ k := hk
    have hkn : k ≠ s.nSinks := by omega
    simp only [update_of_ne hkn]
    exact hw.fresh k (by omega)
  · exact hw.own_file

variable {a : Response}

theorem Wire.pop {rest : List Response}
    (h : s.toHub = a :: rest) : Wire { s with toHub := rest } := by
  have hflight : s.inFlight = a.request :: inFlight { s with toHub := rest } := by
    simp [inFlight, h]
  have hmem : ∀ r ∈ inFlight { s with toHub := rest }, r ∈ s.inFlight := fun r hr =>
    hflight ▸ mem_cons_of_mem _ hr
  have hhub : ∀ b ∈ rest, b ∈ s.toHub := fun b hb => h ▸ mem_cons_of_mem _ hb
  constructor
  · exact (pairwise_cons.mp (hflight ▸ hw.ordered)).2
  · exact fun r hr => hw.below r (hmem r hr)
  · exact fun r hr => hw.opening r (hmem r hr)
  · exact fun r hr => hw.closing r (hmem r hr)
  · exact fun r hr => hw.piece r (hmem r hr)
  · exact hw.to_open
  · exact hw.queued
  · exact fun b hb => hw.opened b (hhub b hb)
  · exact fun b hb => hw.unclosed b (hhub b hb)
  · exact hw.open_owned
  · exact hw.known_handle
  · exact hw.fresh
  · exact hw.own_file

/-- A sink's record may turn `known` once it has its handle and no open of it is in
flight, and may turn `closing`. -/
theorem Wire.setSink {sink : Sink} (hlt : k < s.nSinks) (hh : sink.handle = (s.sinks k).handle)
    (hknown : sink.known = true → (s.sinks k).known = true ∨
      (∃ h, (s.sinks k).handle = some h) ∧ ∀ r ∈ s.inFlight, r.op = .openFile → r.sink ≠ k)
    (hc : (s.sinks k).closing = true → sink.closing = true) : Wire (s.setSink k sink) := by
  have hhandle : ∀ j, ((s.setSink k sink).sinks j).handle = (s.sinks j).handle := by
    intro j
    by_cases hj : j = k
    · subst hj; simpa [Session.setSink] using hh
    · simp [Session.setSink, update_of_ne hj]
  have howns : ∀ j h, s.Owns j h → (s.setSink k sink).Owns j h := fun j h ho =>
    ⟨ho.1, (hhandle j).trans ho.2⟩
  constructor
  · exact hw.ordered
  · exact hw.below
  · intro r hr ho
    have hold := hw.opening r hr ho
    by_cases hj : r.sink = k
    · rw [hj] at hold
      simp only [Session.setSink, hj, update_self]
      rw [Bool.eq_false_iff]
      intro hk
      rcases hknown hk with hk | ⟨-, hno⟩
      · simp [hold] at hk
      · exact hno r hr ho hj
    · simpa [Session.setSink, update_of_ne hj] using hold
  · intro r hr hcl
    have hold := hw.closing r hr hcl
    by_cases hj : r.sink = k
    · rw [hj] at hold
      simpa [Session.setSink, hj] using hc hold
    · simpa [Session.setSink, update_of_ne hj] using hold
  · exact hw.piece
  · intro r hr ho
    rw [hhandle]; exact hw.to_open r hr ho
  · exact fun r hr ho => howns _ _ (hw.queued r hr ho)
  · intro a ha ho hok
    rw [hhandle]; exact hw.opened a ha ho hok
  · exact fun a ha hcl hok => howns _ _ (hw.unclosed a ha hcl hok)
  · intro j h hj hcl
    rw [hhandle] at hj
    refine hw.open_owned j h hj ?_
    by_cases hjk : j = k
    · subst hjk
      simp only [Session.setSink, update_self] at hcl
      rw [Bool.eq_false_iff]
      exact fun ht => by simp [hc ht] at hcl
    · simpa [Session.setSink, update_of_ne hjk] using hcl
  · intro j hj
    rw [hhandle]
    by_cases hjk : j = k
    · subst hjk
      simp only [Session.setSink, update_self] at hj
      rcases hknown hj with hj | ⟨hsome, -⟩
      · exact hw.known_handle j hj
      · exact hsome
    · simp only [Session.setSink, update_of_ne hjk] at hj
      exact hw.known_handle j hj
  · intro j hj
    have hjk : j ≠ k := by
      rintro rfl
      exact absurd hlt (Nat.not_lt.mpr hj)
    simpa [Session.setSink, update_of_ne hjk] using hw.fresh j hj
  · exact hw.own_file

variable {r : Request} {rest : List Request} {ok : Bool}

/-- Serving moves the oldest request over to the answers: what is in flight is as it
was, and so is everything the answer does not change. -/
theorem Wire.answer (h : s.toServer = r :: rest)
    (hopened : r.op = .openFile → ok = true → ∃ h, (s.sinks r.sink).handle = some h)
    (hunclosed : r.op.IsClose → ok = false → s.Owns r.sink r.handle) :
    Wire { s with toServer := rest, toHub := s.toHub ++ [⟨r, ok⟩] } := by
  have hflight : inFlight { s with toServer := rest, toHub := s.toHub ++ [⟨r, ok⟩] }
      = s.inFlight := by
    simp [inFlight, h]
  have hserver : ∀ b ∈ rest, b ∈ s.toServer := fun b hb => h ▸ mem_cons_of_mem _ hb
  constructor
  · rw [hflight]; exact hw.ordered
  · rw [hflight]; exact hw.below
  · rw [hflight]; exact hw.opening
  · rw [hflight]; exact hw.closing
  · rw [hflight]; exact hw.piece
  · exact fun b hb => hw.to_open b (hserver b hb)
  · exact fun b hb => hw.queued b (hserver b hb)
  · intro a ha ho hok
    rcases mem_append.mp ha with ha | ha
    · exact hw.opened a ha ho hok
    · obtain rfl : a = _ := by simpa using ha
      exact hopened ho hok
  · intro a ha hc hok
    rcases mem_append.mp ha with ha | ha
    · exact hw.unclosed a ha hc hok
    · obtain rfl : a = _ := by simpa using ha
      exact hunclosed hc hok
  · exact hw.open_owned
  · exact hw.known_handle
  · exact hw.fresh
  · exact hw.own_file

theorem Wire.head_bars
    (h : s.toServer = r :: rest) (hr : Bars r) : ∀ b ∈ rest, b.sink ≠ r.sink := by
  intro b hb
  have hord := hw.ordered
  rw [inFlight, h, pairwise_append] at hord
  exact (pairwise_cons.mp hord.2.1).1 b hb hr

theorem Wire.hub_bars
    (h : s.toServer = r :: rest) : ∀ a ∈ s.toHub, Bars a.request → r.sink ≠ a.request.sink := by
  intro a ha hbar
  have hord := hw.ordered
  rw [inFlight, h, pairwise_append] at hord
  exact hord.2.2 _ (mem_map_of_mem ha) r mem_cons_self hbar

/-- The session after the open `r` was served with the handle `fresh`. -/
private def openServed (s : Session) (r : Request) (rest : List Request) (fresh : ℕ) :
    Session :=
  { s with
    toServer := rest
    toHub := s.toHub ++ [⟨r, true⟩]
    handles := update s.handles fresh (some r.sink)
    sinks := update s.sinks r.sink { s.sinks r.sink with handle := some fresh } }

variable {fresh : ℕ}

theorem Wire.serveOpen (h : s.toServer = r :: rest) (hop : r.op = .openFile)
    (hfresh : s.handles fresh = none) :
    Wire (s.openServed r rest fresh) := by
  have hmem : r ∈ s.toServer := h ▸ mem_cons_self
  have hflightmem : r ∈ s.inFlight := mem_append_right _ hmem
  have hnone := hw.to_open r hmem hop
  have hserver : ∀ b ∈ rest, b ∈ s.toServer := fun b hb => h ▸ mem_cons_of_mem _ hb
  have hne := hw.head_bars h (Or.inl hop)
  have howns : ∀ k x, s.Owns k x → (s.openServed r rest fresh).Owns k x := by
    rintro k x ⟨hx, hk⟩
    have hxf : x ≠ fresh := by rintro rfl; simp [hfresh] at hx
    have hkr : k ≠ r.sink := by rintro rfl; simp [hnone] at hk
    exact ⟨by simpa [openServed, update_of_ne hxf] using hx,
      by simpa [openServed, update_of_ne hkr] using hk⟩
  have hflight : (s.openServed r rest fresh).inFlight = s.inFlight := by
    simp [inFlight, h, openServed]
  have hknown : ∀ k, ((update s.sinks r.sink
      { s.sinks r.sink with handle := some fresh }) k).known = (s.sinks k).known := by
    intro k
    by_cases hk : k = r.sink
    · subst hk; simp
    · simp [update_of_ne hk]
  have hclosing : ∀ k, ((update s.sinks r.sink
      { s.sinks r.sink with handle := some fresh }) k).closing = (s.sinks k).closing := by
    intro k
    by_cases hk : k = r.sink
    · subst hk; simp
    · simp [update_of_ne hk]
  constructor
  · rw [hflight]; exact hw.ordered
  · rw [hflight]; exact hw.below
  · rw [hflight]
    intro b hb ho
    simp only [openServed, hknown]
    exact hw.opening b hb ho
  · rw [hflight]
    intro b hb hc
    simp only [openServed, hclosing]
    exact hw.closing b hb hc
  · rw [hflight]; exact hw.piece
  · intro b hb ho
    simpa [openServed, update_of_ne (hne b hb)] using
      hw.to_open b (hserver b hb) ho
  · exact fun b hb ho => howns _ _ (hw.queued b (hserver b hb) ho)
  · intro a ha ho hok
    by_cases hk : a.request.sink = r.sink
    · exact ⟨fresh, by simp [openServed, hk]⟩
    · rcases mem_append.mp ha with ha | ha
      · simpa [openServed, update_of_ne hk] using hw.opened a ha ho hok
      · obtain rfl : a = _ := by simpa using ha
        exact absurd rfl hk
  · intro a ha hc hok
    rcases mem_append.mp ha with ha | ha
    · exact howns _ _ (hw.unclosed a ha hc hok)
    · obtain rfl : a = _ := by simpa using ha
      cases hok
  · intro k x hk hc
    simp only [openServed, hclosing] at hc
    by_cases hkr : k = r.sink
    · subst hkr
      obtain rfl : fresh = x := by simpa [openServed] using hk
      simp [openServed]
    · simp only [openServed, update_of_ne hkr] at hk
      have hx := hw.open_owned k x hk hc
      have hxf : x ≠ fresh := by rintro rfl; simp [hfresh] at hx
      simpa [openServed, update_of_ne hxf] using hx
  · intro k hk
    simp only [openServed, hknown] at hk
    by_cases hkr : k = r.sink
    · subst hkr; simp [openServed]
    · simpa [openServed, update_of_ne hkr] using hw.known_handle k hk
  · intro k hk
    have hkr : k ≠ r.sink := by
      have hlt := hw.below r hflightmem
      have hk : s.nSinks ≤ k := hk
      omega
    simpa [openServed, update_of_ne hkr] using hw.fresh k hk
  · exact hw.own_file

theorem Wire.serveClose (h : s.toServer = r :: rest) (hop : r.op.IsClose) :
    Wire { s with
      toServer := rest
      toHub := s.toHub ++ [⟨r, true⟩]
      handles := update s.handles r.handle none } := by
  have hmem : r ∈ s.toServer := h ▸ mem_cons_self
  have hflightmem : r ∈ s.inFlight := mem_append_right _ hmem
  have hown : s.Owns r.sink r.handle := by
    refine hw.queued r hmem ?_
    rintro ho
    simp [ho, Op.IsClose] at hop
  have howns : ∀ k x, k ≠ r.sink → s.Owns k x → Owns { s with
      toServer := rest
      toHub := s.toHub ++ [⟨r, true⟩]
      handles := update s.handles r.handle none } k x := by
    rintro k x hkr ⟨hx, hk⟩
    have hxr : x ≠ r.handle := by
      rintro rfl
      rw [hown.1] at hx
      exact hkr (Option.some.inj hx).symm
    exact ⟨by simpa [update_of_ne hxr] using hx, hk⟩
  have hanswer : Wire { s with toServer := rest, toHub := s.toHub ++ [⟨r, true⟩] } := by
    refine hw.answer h ?_ ?_
    · intro ho
      simp [ho, Op.IsClose] at hop
    · intro _ hok
      cases hok
  constructor
  · exact hanswer.ordered
  · exact hanswer.below
  · exact hanswer.opening
  · exact hanswer.closing
  · exact hanswer.piece
  · exact hanswer.to_open
  · intro b hb ho
    exact howns _ _ (hw.head_bars h (Or.inr hop) b hb) (hanswer.queued b hb ho)
  · exact hanswer.opened
  · intro a ha hc hok
    rcases mem_append.mp ha with ha | ha
    · exact howns _ _ (hw.hub_bars h a ha (Or.inr hc)).symm (hw.unclosed a ha hc hok)
    · obtain rfl : a = _ := by simpa using ha
      cases hok
  · intro k x hk hc
    have hkr : k ≠ r.sink := by
      rintro rfl
      have hclosing : (s.sinks r.sink).closing = true := hw.closing r hflightmem hop
      exact absurd hc (by simp [hclosing])
    exact (howns k x hkr ⟨hw.open_owned k x hk hc, hk⟩).1
  · exact hanswer.known_handle
  · exact hanswer.fresh
  · exact hanswer.own_file

theorem Wire.serve (h : s.toServer = r :: rest)
    (hs : serveRequest { s with toServer := rest } r ok fresh = some s') : Wire s' := by
  have hmem : r ∈ s.toServer := h ▸ mem_cons_self
  unfold serveRequest at hs
  cases hop : r.op with
  | openFile =>
    simp only [hop] at hs
    split at hs
    · split at hs
      · next hfresh =>
        cases hs
        exact hw.serveOpen h hop hfresh
      · cases hs
    · cases hs
      exact hw.answer h (fun _ hok => by cases hok) (fun hc => by simp [hop, Op.IsClose] at hc)
  | write c position length =>
    have hown := hw.queued r hmem (by simp [hop])
    simp only [hop, hown.1] at hs
    cases hs
    have hanswer : Wire { s with toServer := rest, toHub := s.toHub ++ [⟨r, ok⟩] } :=
      hw.answer h (fun ho => by simp [hop] at ho) (fun hc => by simp [hop, Op.IsClose] at hc)
    refine { hanswer with own_file := ?_ }
    intro w hwm
    rcases mem_append.mp hwm with hwm | hwm
    · exact hw.own_file w hwm
    · obtain rfl : w = _ := by simpa using hwm
      rfl
  | close finishing =>
    have hown := hw.queued r hmem (by simp [hop])
    simp only [hop] at hs
    split at hs
    · cases hs
      exact hw.serveClose h (by simp [hop, Op.IsClose])
    · cases hs
      exact hw.answer h (fun ho => by simp [hop] at ho) (fun _ _ => hown)
  | fsync | futimes | fstat =>
    simp only [hop] at hs
    cases hs
    exact hw.answer h (fun ho => by simp [hop] at ho) (fun hc => by simp [hop, Op.IsClose] at hc)

end

/-! ### The calls

Who may still send.  A piece is left to take only of a sink that has not ended, so that
a worker's turn never sends on a handle that is closed or being closed. -/

/-- The invariant of the calls and of the history. -/
structure Calls (s : Session) : Prop where
  known : ∀ c < s.nCalls, (s.sinks (s.calls c).sink).known = true
  untaken : ∀ c < s.nCalls, (s.calls c).HasPiece →
    s.ended = true ∨ (s.sinks (s.calls c).sink).ended = false
  closing_ended : ∀ k, (s.sinks k).closing = true → (s.sinks k).ended = true
  new_not_ended : ∀ k, s.nSinks ≤ k → (s.sinks k).ended = false
  history_ended : ∀ e ∈ s.history, ∀ k, e.Ends k → s.ended = true ∨ (s.sinks k).ended = true
  nothing_after_end : ∀ k, s.history.Pairwise fun a b => a.Ends k → b ≠ .sentWrite k

/-- The invariant of a session. -/
structure Inv (s : Session) : Prop extends Wire s, Calls s

theorem Inv.init : Inv init where
  toWire := .init
  toCalls := by constructor <;> simp [Session.init, Sink.none]

theorem Calls.congr (hc : Calls s) (hended : s'.ended = s.ended)
    (hn : s'.nCalls = s.nCalls) (hcalls : s'.calls = s.calls) (hsn : s'.nSinks = s.nSinks)
    (hhist : s'.history = s.history)
    (hsinks : ∀ k, ((s.sinks k).known = true → (s'.sinks k).known = true) ∧
      (s'.sinks k).closing = (s.sinks k).closing ∧ (s'.sinks k).ended = (s.sinks k).ended) :
    Calls s' where
  known := by
    intro c hlt
    rw [hcalls]; exact (hsinks _).1 (hc.known c (hn ▸ hlt))
  untaken := by
    intro c hlt hp
    rw [hcalls] at hp ⊢
    rw [hended, (hsinks _).2.2]; exact hc.untaken c (hn ▸ hlt) hp
  closing_ended := by
    intro k hk
    rw [(hsinks k).2.1] at hk
    rw [(hsinks k).2.2]; exact hc.closing_ended k hk
  new_not_ended := by
    intro k hk
    rw [(hsinks k).2.2]; exact hc.new_not_ended k (hsn ▸ hk)
  history_ended := by
    intro e he k hk
    rw [hended, (hsinks k).2.2]; exact hc.history_ended e (hhist ▸ he) k hk
  nothing_after_end := by rw [hhist]; exact hc.nothing_after_end

theorem Calls.serve (hc : Calls s)
    (h : serveRequest { s with toServer := rest } r ok fresh = some s') : Calls s' := by
  unfold serveRequest at h
  split at h
  · split at h
    · split at h
      · cases h
        refine hc.congr rfl rfl rfl rfl rfl fun k => ?_
        by_cases hk : k = r.sink
        · subst hk; simp [Session.setSink]
        · simp [Session.setSink, update_of_ne hk]
      · cases h
    · cases h
      exact hc.congr rfl rfl rfl rfl rfl fun _ => ⟨id, rfl, rfl⟩
  · split at h <;> obtain ⟨rfl⟩ := h <;>
      exact hc.congr rfl rfl rfl rfl rfl fun _ => ⟨id, rfl, rfl⟩
  · split at h <;> obtain ⟨rfl⟩ := h <;>
      exact hc.congr rfl rfl rfl rfl rfl fun _ => ⟨id, rfl, rfl⟩
  · cases h
    exact hc.congr rfl rfl rfl rfl rfl fun _ => ⟨id, rfl, rfl⟩

theorem Calls.send (hc : Calls s) (k : ℕ) (op : Op) : Calls (s.send k op) := by
  unfold Session.send
  split
  · exact hc
  · exact hc.congr rfl rfl rfl rfl rfl fun _ => ⟨id, rfl, rfl⟩

variable {c : ℕ}

theorem Calls.setCall (hc : Calls s) {call : Call}
    (hsink : call.sink = (s.calls c).sink) (hp : call.HasPiece → (s.calls c).HasPiece) :
    Calls (s.setCall c call) := by
  refine { hc with known := ?_, untaken := ?_ }
  · intro d hd
    by_cases hdc : d = c
    · subst hdc
      simpa [Session.setCall, hsink] using hc.known d hd
    · simpa [Session.setCall, update_of_ne hdc] using hc.known d hd
  · intro d hd hpd
    by_cases hdc : d = c
    · subst hdc
      simp only [Session.setCall, update_self] at hpd ⊢
      rw [hsink]; exact hc.untaken d hd (hp hpd)
    · simp only [Session.setCall, update_of_ne hdc] at hpd ⊢
      exact hc.untaken d hd hpd

/-- Every call of the sink is done with its pieces, or the session has ended: the sink
may end, and what says so be noted. -/
theorem Calls.endSink (hc : Calls s) (hlt : k < s.nSinks)
    (hp : s.ended = true ∨ s.NoPieceLeft k) {sink : Sink} {e : Event} (he : ∀ j, e.Ends j → j = k)
    (hnot : ∀ j, e ≠ .sentWrite j) (hended : sink.ended = true)
    (hknown : sink.known = (s.sinks k).known) : Calls ((s.setSink k sink).note e) where
  known := by
    intro c hcl
    have hold := hc.known c hcl
    by_cases hk : (s.calls c).sink = k
    · rw [hk] at hold
      simpa [note, Session.setSink, hk, hknown] using hold
    · simpa [note, Session.setSink, update_of_ne hk] using hold
  untaken := by
    intro c hcl hpc
    rcases hp with hs | hnone
    · exact Or.inl hs
    by_cases hk : (s.calls c).sink = k
    · exact absurd hpc (hnone c hcl hk)
    · simpa [note, Session.setSink, update_of_ne hk] using hc.untaken c hcl hpc
  closing_ended := by
    intro j hj
    by_cases hk : j = k
    · subst hk; simpa [note, Session.setSink] using hended
    · simp only [note, Session.setSink, update_of_ne hk] at hj ⊢
      exact hc.closing_ended j hj
  new_not_ended := by
    intro j hj
    have hk : j ≠ k := by
      rintro rfl
      exact absurd hlt (Nat.not_lt.mpr hj)
    simpa [note, Session.setSink, update_of_ne hk] using hc.new_not_ended j hj
  history_ended := by
    intro e' he' j hj
    by_cases hk : j = k
    · subst hk; exact Or.inr (by simpa [note, Session.setSink] using hended)
    · rcases mem_append.mp he' with he' | he'
      · simpa [note, Session.setSink, update_of_ne hk] using
          hc.history_ended e' he' j hj
      · obtain rfl : e' = e := by simpa using he'
        exact absurd (he j hj) hk
  nothing_after_end := by
    intro j
    refine pairwise_append.mpr ⟨hc.nothing_after_end j, by simp, ?_⟩
    intro x _ y hy _
    obtain rfl : y = e := by simpa using hy
    exact hnot j

theorem Calls.noteWrite (hc : Calls s) (hs : s.ended = false)
    (hk : (s.sinks k).ended = false) : Calls (s.note (.sentWrite k)) := by
  refine { hc with history_ended := ?_, nothing_after_end := ?_ }
  · intro e he j hj
    rcases mem_append.mp he with he | he
    · exact hc.history_ended e he j hj
    · obtain rfl : e = _ := by simpa using he
      exact hj.elim
  · intro j
    refine pairwise_append.mpr ⟨hc.nothing_after_end j, by simp, ?_⟩
    intro x hx y hy hends
    obtain rfl : y = _ := by simpa using hy
    rintro ⟨rfl⟩
    rcases hc.history_ended x hx k hends with h | h
    · simp [hs] at h
    · simp [hk] at h

/-! ### Each step -/

theorem Inv.reject (hi : Inv s) (hlt : c < s.nCalls)
    (hp : s.ended = true ∨ s.NoPieceLeft (s.calls c).sink) : Inv (s.reject c) := by
  unfold Session.reject
  dsimp only
  split
  · exact hi
  have hk := hi.lt_of_known (hi.known c hlt)
  have hcall : Calls (s.setCall c { s.calls c with rejected := true }) :=
    hi.toCalls.setCall rfl id
  constructor
  · refine hi.toWire.congr rfl rfl rfl rfl rfl (Nat.le_refl _) ?_
    intro j
    by_cases hj : j = (s.calls c).sink
    · subst hj; simp [note, Session.setSink]
    · simp [note, Session.setSink, Session.setCall, update_of_ne hj]
  · refine hcall.endSink hk ?_ (fun j hj => hj.symm) (fun j => by simp) rfl rfl
    rcases hp with h | h
    · exact Or.inl h
    · refine Or.inr ?_
      intro d hd hdk hdp
      by_cases hdc : d = c
      · subst hdc
        simp only [Session.setCall, update_self] at hdp
        exact h d hd rfl hdp
      · simp only [Session.setCall, update_of_ne hdc] at hdk hdp
        exact h d hd hdk hdp

theorem Inv.takePiece (hi : Inv s) (hlt : c < s.nCalls) : Inv (s.takePiece c) := by
  unfold Session.takePiece
  dsimp only
  split
  · next hp =>
    have hk := hi.known c hlt
    have hi' : Inv (s.setCall c { s.calls c with next := (s.calls c).next + 1 }) := by
      constructor
      · exact hi.toWire.congr rfl rfl rfl rfl rfl (Nat.le_refl _) fun _ => ⟨rfl, rfl, rfl⟩
      · exact hi.toCalls.setCall rfl fun _ => hp
    split
    · next hended => exact hi'.reject hlt (Or.inl hended)
    · next hended =>
      -- the session goes on, so the sink has not ended and the handle is still its own
      have hs : s.ended = false := by simpa [Session.setCall] using hended
      have hk' : (s.sinks (s.calls c).sink).ended = false := by
        rcases hi.untaken c hlt hp with h | h
        · simp [hs] at h
        · exact h
      have hc : (s.sinks (s.calls c).sink).closing = false := by
        rw [Bool.eq_false_iff]
        exact fun h => by simp [hi.closing_ended _ h] at hk'
      obtain ⟨x, hown⟩ := hi.owns_known hk hc
      constructor
      · refine Wire.note (hi'.toWire.send _ hown (hi.lt_of_known hk) (hi.not_barred hk hc)
          (by simp) ?_ ?_) _
        · exact False.elim
        · rintro d p l ⟨rfl⟩
          exact hlt
      · refine Calls.noteWrite (hi'.toCalls.send _ _) ?_ ?_
        · simp [Session.send, Session.setCall, hs]
        · simpa [Session.send, Session.setCall, hs] using hk'
  · exact hi

@[simp] theorem send_nCalls (s : Session) (k : ℕ) (op : Op) :
    (s.send k op).nCalls = s.nCalls := by
  unfold Session.send; split <;> rfl

@[simp] theorem send_sinks (s : Session) (k : ℕ) (op : Op) : (s.send k op).sinks = s.sinks := by
  unfold Session.send; split <;> rfl

@[simp] theorem send_handles (s : Session) (k : ℕ) (op : Op) :
    (s.send k op).handles = s.handles := by
  unfold Session.send; split <;> rfl

@[simp] theorem send_nSinks (s : Session) (k : ℕ) (op : Op) :
    (s.send k op).nSinks = s.nSinks := by
  unfold Session.send; split <;> rfl

@[simp] theorem reject_nCalls (s : Session) (c : ℕ) : (s.reject c).nCalls = s.nCalls := by
  unfold Session.reject; dsimp only; split <;> rfl

@[simp] theorem takePiece_nCalls (s : Session) (c : ℕ) : (s.takePiece c).nCalls = s.nCalls := by
  rw [Session.takePiece]
  dsimp only
  split
  · split
    · exact reject_nCalls _ c
    · exact send_nCalls ..
  · rfl

theorem Inv.startWorkers (hi : Inv s) (hlt : c < s.nCalls) (n : ℕ) : Inv (s.startWorkers c n) := by
  induction n generalizing s with
  | zero => exact hi
  | succ n ih => exact ih (hi.takePiece hlt) (by simpa using hlt)

theorem Inv.write (hi : Inv s) (hk : (s.sinks k).known = true)
    (hended : (s.sinks k).ended = false) (offset length : ℕ) :
    Inv (s.write k offset length) := by
  refine Inv.startWorkers ?_ (Nat.lt_succ_self _) _
  constructor
  · exact hi.toWire.congr rfl rfl rfl rfl rfl (Nat.le_succ _) fun _ => ⟨rfl, rfl, rfl⟩
  · refine { hi.toCalls with known := ?_, untaken := ?_ }
    · intro c hc
      by_cases hcn : c = s.nCalls
      · subst hcn; simpa using hk
      · have hc : c < s.nCalls + 1 := hc
        simpa [update_of_ne hcn] using hi.known c (by omega)
    · intro c hc hp
      by_cases hcn : c = s.nCalls
      · subst hcn; exact Or.inr (by simpa using hended)
      · have hc : c < s.nCalls + 1 := hc
        simp only [update_of_ne hcn] at hp ⊢
        exact hi.untaken c (by omega) hp

/-- A sink whose closing has begun may send on its handle `h`, up to its close. -/
structure MayClose (s : Session) (k h : ℕ) : Prop where
  inv : Inv s
  owns : s.Owns k h
  below : k < s.nSinks
  closing : (s.sinks k).closing = true
  not_barred : ∀ r ∈ s.inFlight, Bars r → r.sink ≠ k

theorem MayClose.begin (hi : Inv s) (hk : (s.sinks k).known = true)
    (hc : (s.sinks k).closing = false) (hp : s.ended = true ∨ s.NoPieceLeft k) {e : Event}
    (he : ∀ j, e.Ends j → j = k) (hnot : ∀ j, e ≠ .sentWrite j) :
    ∃ h, MayClose (s.beginClosing k e) k h := by
  obtain ⟨h, hown⟩ := hi.owns_known hk hc
  have hlt := hi.lt_of_known hk
  refine ⟨h, ⟨?_, ?_⟩, ⟨hown.1, ?_⟩, hlt, ?_, hi.not_barred hk hc⟩
  · refine Wire.note (hi.toWire.setSink hlt ?_ (fun _ => Or.inl hk) ?_) e
    · rfl
    · exact fun _ => rfl
  · exact hi.toCalls.endSink hlt hp he hnot rfl rfl
  · simpa [beginClosing, Session.note, Session.setSink] using hown.2
  · simp [beginClosing, Session.note, Session.setSink]

theorem MayClose.close (hm : MayClose s k h) (finishing : Bool) :
    Inv (s.send k (.close finishing)) where
  toWire := hm.inv.toWire.send _ hm.owns hm.below hm.not_barred (by simp) (fun _ => hm.closing)
    (by simp)
  toCalls := hm.inv.toCalls.send _ _

theorem MayClose.send (hm : MayClose s k h) (op : Op)
    (hop : op ≠ .openFile) (hncl : ¬op.IsClose) (hpiece : ∀ c p l, op ≠ .write c p l) :
    MayClose (s.send k op) k h where
  inv.toWire := hm.inv.toWire.send op hm.owns hm.below hm.not_barred hop
    (fun h => absurd h hncl) (fun c p l h => absurd h (hpiece c p l))
  inv.toCalls := hm.inv.toCalls.send k op
  owns := by simpa [Owns] using hm.owns
  below := by simpa using hm.below
  closing := by simpa using hm.closing
  not_barred := by
    unfold Session.send
    split
    · exact hm.not_barred
    · intro r hr hb
      have hr : r ∈ s.inFlight ∨ r = ⟨k, (s.sinks k).handle.getD 0, op⟩ := by
        simpa [inFlight, or_assoc] using hr
      rcases hr with hr | rfl
      · exact hm.not_barred r hr hb
      · rcases hb with hb | hb
        · exact absurd hb hop
        · exact absurd hb hncl

theorem Inv.abort (hi : Inv s) (hk : (s.sinks k).known = true)
    (hc : (s.sinks k).closing = false) (hp : s.ended = true ∨ s.NoPieceLeft k) :
    Inv (s.abort k) := by
  obtain ⟨h, hm⟩ : ∃ h, MayClose (s.beginClosing k (.abortBegun k)) k h :=
    MayClose.begin hi hk hc hp (fun j hj => hj.symm) (fun j => by simp)
  exact hm.close false

theorem Inv.finish (hi : Inv s) (hk : (s.sinks k).known = true)
    (hc : (s.sinks k).closing = false) (hp : s.ended = true ∨ s.NoPieceLeft k)
    (offersFsync mtime : Bool) : Inv (s.finish k offersFsync mtime) := by
  obtain ⟨h, hm⟩ : ∃ h, MayClose (s.beginClosing k (.finishBegun k)) k h :=
    MayClose.begin hi hk hc hp (fun j hj => hj.symm) (fun j => by simp)
  have optionally : ∀ {s : Session} (b : Bool) (op : Op), op ≠ .openFile → ¬op.IsClose →
      (∀ c p l, op ≠ .write c p l) → MayClose s k h →
      MayClose (if b then s.send k op else s) k h := by
    intro s b op hop hncl hpiece hm
    split
    · exact hm.send op hop hncl hpiece
    · exact hm
  have hsync := optionally offersFsync .fsync (by simp) id (by simp) hm
  have htime := optionally mtime .futimes (by simp) id (by simp) hsync
  exact (htime.send .fstat (by simp) id (by simp)).close true

/-- A close of `finish` that failed is sent once more, by its `abort`. -/
theorem Inv.closeAgain (hi : Inv s) {rest : List Response}
    (h : s.toHub = a :: rest) (hop : a.request.op.IsClose) (hok : a.ok = false) :
    Inv (send { s with toHub := rest } a.request.sink (.close false)) := by
  have hhead : a ∈ s.toHub := h ▸ mem_cons_self
  have hflight : a.request ∈ s.inFlight :=
    mem_append_left _ (mem_map_of_mem hhead)
  refine MayClose.close (h := a.request.handle)
    ⟨⟨hi.toWire.pop h, ?_⟩, ?_, ?_, ?_, ?_⟩ false
  · exact hi.toCalls.congr rfl rfl rfl rfl rfl fun _ => ⟨id, rfl, rfl⟩
  · exact hi.unclosed a hhead hop hok
  · exact hi.below _ hflight
  · exact hi.closing _ hflight hop
  · intro r hr _
    have hord := hi.ordered
    rw [inFlight, h] at hord
    exact (pairwise_cons.mp hord).1 r hr (Or.inr hop)

theorem Inv.deliver (hi : Inv s) (hok : s.Orderly .deliver)
    {rest : List Response} (h : s.toHub = a :: rest) :
    Inv (if s.ended then { s with toHub := rest } else answered { s with toHub := rest } a) := by
  have hpop : Inv { s with toHub := rest } :=
    ⟨hi.toWire.pop h, hi.toCalls.congr rfl rfl rfl rfl rfl fun _ => ⟨id, rfl, rfl⟩⟩
  split
  · exact hpop
  next hended =>
    have hhead : a ∈ s.toHub := h ▸ mem_cons_self
    have hflight : a.request ∈ s.inFlight :=
      mem_append_left _ (mem_map_of_mem hhead)
    unfold answered
    cases hop : a.request.op with
    | openFile =>
      dsimp only
      split
      · next haok =>
        refine ⟨hpop.toWire.setSink (hi.below _ hflight) rfl (fun _ => Or.inr ⟨?_, ?_⟩) id, ?_⟩
        · exact hi.opened a hhead hop haok
        · intro r hr _
          have hord := hi.ordered
          rw [inFlight, h] at hord
          exact (pairwise_cons.mp hord).1 r hr (Or.inl hop)
        · refine hpop.toCalls.congr rfl rfl rfl rfl rfl fun k => ?_
          by_cases hk : k = a.request.sink
          · subst hk; simp [Session.setSink]
          · simp [Session.setSink, update_of_ne hk]
      · exact hpop
    | write c position length =>
      have hlt : c < s.nCalls := hi.piece _ hflight c position length hop
      dsimp only
      split
      · exact hpop.takePiece hlt
      · next haok =>
        refine hpop.reject hlt (Or.inr ?_)
        rcases hok with hs | hnone
        · exact absurd hs hended
        · refine hnone c ?_
          have : a.ok = false := by simpa using haok
          simp [h, Response.failedCall?, hop, this]
    | close finishing =>
      cases finishing with
      | false => exact hpop
      | true =>
        dsimp only
        split
        · exact hpop
        · next haok => exact hi.closeAgain h (by simp [hop, Op.IsClose]) (by simpa using haok)
    | fsync | futimes | fstat => exact hpop

/-- **One step.** -/
theorem Inv.step {a : Step} (hi : Inv s) (hok : s.Orderly a) (h : s.step a = some s') : Inv s' := by
  cases a with
  | openFile path =>
    obtain ⟨-, ⟨rfl⟩⟩ := Option.ite_none_left_eq_some.mp h
    refine ⟨hi.toWire.openFile path, ?_⟩
    have hsinks : ∀ k, k ≠ s.nSinks → (update s.sinks s.nSinks
        { Sink.none with path := path }) k = s.sinks k := fun k hk => update_of_ne hk _ _
    constructor
    · intro c hc
      have hk := hi.known c hc
      have hlt := hi.lt_of_known hk
      simp only [hsinks _ (Nat.ne_of_lt hlt)]
      exact hk
    · intro c hc hp
      have hlt := hi.lt_of_known (hi.known c hc)
      simp only [hsinks _ (Nat.ne_of_lt hlt)]
      exact hi.untaken c hc hp
    · intro k hk
      by_cases hkn : k = s.nSinks
      · subst hkn; simp [Sink.none] at hk
      · simp only [hsinks k hkn] at hk ⊢
        exact hi.closing_ended k hk
    · intro k hk
      have hk : s.nSinks + 1 ≤ k := hk
      have hkn : k ≠ s.nSinks := by omega
      simp only [hsinks k hkn]
      exact hi.new_not_ended k (by omega)
    · intro e he k hk
      rcases hi.history_ended e he k hk with hs | hended
      · exact Or.inl hs
      · have hkn : k ≠ s.nSinks := by
          rintro rfl
          simp [hi.new_not_ended s.nSinks (Nat.le_refl _)] at hended
        refine Or.inr ?_
        simp only [hsinks k hkn]
        exact hended
    · exact hi.nothing_after_end
  | write k offset length =>
    obtain ⟨hk, ⟨rfl⟩⟩ := Option.ite_none_right_eq_some.mp h
    exact hi.write hk hok offset length
  | abort k =>
    obtain ⟨hk, ⟨rfl⟩⟩ := Option.ite_none_right_eq_some.mp h
    exact hi.abort hk hok.1 hok.2
  | finish k offersFsync mtime =>
    obtain ⟨hk, ⟨rfl⟩⟩ := Option.ite_none_right_eq_some.mp h
    exact hi.finish hk hok.1 hok.2 offersFsync mtime
  | serve ok fresh =>
    simp only [Session.step] at h
    split at h
    · cases h
    next r rest hserver =>
      refine ⟨hi.toWire.serve hserver h, ?_⟩
      exact hi.toCalls.serve h
  | deliver =>
    simp only [Session.step] at h
    split at h
    · cases h
    next a rest hhub =>
      cases h
      exact hi.deliver hok hhub
  | endSession =>
    cases h
    refine ⟨hi.toWire.congr rfl rfl rfl rfl rfl (Nat.le_refl _) fun _ => ⟨rfl, rfl, rfl⟩, ?_⟩
    refine { hi.toCalls with untaken := ?_, history_ended := ?_, nothing_after_end := ?_ }
    · exact fun _ _ _ => Or.inl rfl
    · exact fun _ _ _ _ => Or.inl rfl
    · intro k
      refine pairwise_append.mpr ⟨hi.nothing_after_end k, by simp, ?_⟩
      intro x _ y hy _
      obtain rfl : y = _ := by simpa using hy
      simp

/-- **Handles are isolated** in every run of orderly steps: nothing is written through a
handle after its sink ended, and no file gets another's bytes. -/
theorem isolated_of_orderly {s : Session} (h : Run step Orderly init s) : Isolated s := by
  have hi : Inv s := h.invariant .init fun _ _ _ hi hok hs => hi.step hok hs
  exact ⟨hi.nothing_after_end, hi.own_file⟩

/-- A file of two pieces is written and finished, and another takes over its handle. -/
def finishedRun : List Step :=
  [.openFile "/a", .serve true 7, .deliver, .write 0 0 40000, .serve true 0, .serve true 0,
    .deliver, .deliver, .finish 0 true true, .serve true 0, .serve true 0, .serve true 0,
    .serve true 0, .openFile "/b", .serve true 7]

theorem isolated_after_finish :
    ∃ s, exec step init finishedRun = some s ∧
      s.written = [⟨0, 0, 0, 30720⟩, ⟨0, 0, 30720, 9280⟩] ∧ Isolated s := by
  exact ⟨_, (Option.some_get (by decide +kernel)).symm, by decide +kernel,
    isolated_of_orderly (.of_exec finishedRun (by decide +kernel) (Option.some_get _).symm)⟩

/-- The first of six pieces fails and the sink is aborted; the answer to the second piece
arrives after another file was given the handle, and the fifth piece goes into it. -/
def leftoverRun : List Step :=
  [.openFile "/a", .serve true 7, .deliver, .write 0 0 184320, .serve false 0, .deliver,
    .serve true 0, .serve true 0, .serve true 0, .abort 0, .openFile "/b", .serve true 0,
    .serve true 7, .deliver, .serve true 0]

theorem leftover_damages_other_file : ¬∀ s, Run step free init s → Isolated s := by
  intro h
  have hown := (h _ (.get_free leftoverRun (by decide +kernel))).own_file ⟨0, 1, 122880, 30720⟩
    (by decide +kernel)
  cases hown

end Session

end Lasterm.Files
