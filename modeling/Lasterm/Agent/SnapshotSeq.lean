import Lasterm.Agent.ManagerSteps
import Lasterm.Agent.Pipeline

/-!
# The sequence number of a snapshot

An ATTACH_OK and a SNAPSHOT_RES say with a screen what the channel's last sequence number was
(`last_seq`).  It is to be that of the last OUTPUT drawn on the screen, so that what comes after can
be told from what is on it.

The reader numbers the output in a variable of its own (`spawn_reader_task` of `handler.rs`), and
the handlers read the number in the manager's entry of the channel (`PtyChannelState`), which a
SPAWN sets to 0 and nothing sets again.

## Main results

* `last_seq_right` — the number is right on blank screens.
* `last_seq_zero_after_output` — and 0 on every other.
-/

namespace Lasterm.Agent.SnapshotSeq

open Function (update)
open Transition List Option

/-- A daemon, and the OUTPUTs each of its readers sent, in order. -/
structure Record where
  daemon : State
  outputs : ℕ → List (OutputEvent Printed)

/-- A daemon that has just started. -/
def Record.start : Record := ⟨Agent.init, fun _ => []⟩

/-- The OUTPUT that is sent at a step, and by the reader of which process. -/
def sends (s : State) : Step → Option (ℕ × OutputEvent Printed)
  | .read p raw _ => (s.readerAt p .running).bind fun r =>
    let data : List Printed := (stripDsr raw).map (⟨r.source, p, ·⟩)
    if data.isEmpty then none else some (p, ⟨r.owner, r.channelId, r.seq + 1, data⟩)
  | _ => none

/-- The OUTPUTs sent, with the one sent at a step. -/
def Record.sent (w : Record) : Option (ℕ × OutputEvent Printed) → ℕ → List (OutputEvent Printed)
  | some (p, e) => update w.outputs p (w.outputs p ++ [e])
  | none => w.outputs

/-- The record after a step, if the step is possible. -/
def record (len : Frame → ℕ) (w : Record) (a : Step) : Option Record :=
  (Agent.step len w.daemon a).map fun daemon => ⟨daemon, w.sent (sends w.daemon a)⟩

/-- The sequence number of the last OUTPUT on a screen that `n` bytes were drawn on; 0 if there is
none. -/
def lastOf : List (OutputEvent Printed) → ℕ → ℕ
  | [], _ => 0
  | e :: es, n => if e.data.length ≤ n then max e.seq (lastOf es (n - e.data.length)) else 0

/-- The screen in a frame, whose reader made it, and the sequence number sent with it. -/
def screen (f : Frame) : Option (ℕ × Mirror × ℕ) :=
  match f.msg, f.pid with
  | .snapshotRes _ m n, some p => some (p, m, n)
  | .attachOk _ _ m n, some p => some (p, m, n)
  | _, _ => none

/-- Every sequence number sent with a screen is that of the last OUTPUT on it, and those sent for
one workload never go down. -/
structure Right (w : Record) : Prop where
  last : ∀ e ∈ w.daemon.wire, ∀ p m n, screen e.2 = some (p, m, n) →
    n = lastOf (w.outputs p) m.drawn.length
  increasing : w.daemon.wire.Pairwise fun e e' => ∀ p m n m' n', screen e.2 = some (p, m, n) →
    screen e'.2 = some (p, m', n') → n ≤ n'

/-- A screen is sent only while it is blank: its terminal had printed nothing when the reader took
it. -/
def Orderly (w : Record) : Step → Prop
  | .resume c => (w.daemon.conns c).all fun conn =>
    match conn.handler with
    | .answered _ _ _ m => m.drawn.isEmpty
    | _ => true
  | _ => True

instance (w : Record) (a : Step) : Decidable (Orderly w a) := by
  apply Step.casesOn (motive := fun a => Decidable (Orderly w a)) a <;> intros <;>
    dsimp only [Orderly] <;> infer_instance

/-! ### The manager's numbers -/

/-- The manager's entry of no channel was given a number. -/
def Unnumbered (s : State) : Prop := ∀ id ch, s.manager.channels.get id = some ch → ch.seq = 0

variable {s s' : State} {len : Frame → ℕ} {a : Step}

theorem Unnumbered.step (h : Unnumbered s)
    (hs' : Agent.step len s a = some s') : Unnumbered s' := by
  intro id ch' hch'
  cases step_manager hs' with
  | keeps _ hsame =>
    have hentry := hsame id
    rw [hch', map_some] at hentry
    obtain ⟨ch, hch, heq⟩ := map_eq_some_iff.mp hentry.symm
    have hseq : ch.seq = ch'.seq := congrArg (·.2.1) heq
    exact hseq ▸ h id ch hch
  | brings _ _ _ hchannels _ hseq =>
    rw [hchannels, OrderedMap.get_set] at hch'
    split at hch'
    · cases hch'
      exact hseq
    · exact h id ch' hch'
  | drops _ hmanager _ =>
    rw [hmanager] at hch'
    unfold PtyManager.remove at hch'
    rw [OrderedMap.get_delete] at hch'
    exact h id ch' (ite_none_left_eq_some.mp hch').2

/-! ### The screens sent -/

variable {p : ℕ}

theorem snapshot_of_screen {f : Frame} {n : ℕ} {m : Mirror} (h : screen f = some (p, m, n)) :
    ∃ id, f.snapshot = some (id, p, m) := by
  unfold screen at h
  unfold Frame.snapshot
  split at h
  · cases h
    simp [*]
  · cases h
    simp [*]
  · cases h

/-- A screen that is sent at a step is the one its handler was given, with the manager's number. -/
theorem screen_of_step (hw : WellFormed s) (ht : Sorted s)
    (hs' : Agent.step len s a = some s') {e : ℕ × Frame} (he : e ∈ s'.wire) {n : ℕ} {m : Mirror}
    (hscreen : screen e.2 = some (p, m, n)) :
    e ∈ s.wire ∨ ∃ c conn ask id, a = .resume c ∧ s.conns c = some conn ∧
      conn.handler = .answered ask id p m ∧ n = (s.manager.channels.get id).elim 0 (·.seq) := by
  obtain ⟨id, hsnapshot⟩ := snapshot_of_screen hscreen
  cases step_effect hw hs' with
  | replies h =>
    obtain ⟨l, hq, hl⟩ := h.quiet
    rw [hq.wire] at he
    refine (mem_append.mp he).imp_right fun he => ?_
    exact nomatch (Frame.snapshot_of_isReply (hl e he)).symm.trans hsnapshot
  | announces _ _ _ _ hq =>
    rw [hq.wire] at he
    refine (mem_append.mp he).imp_right fun he => ?_
    unfold State.handed at he
    split at he
    · obtain rfl := mem_singleton.mp he
      cases hscreen
    · cases he
  | answers ha hm _ _ hq =>
    subst ha
    obtain ⟨conn, ask, hc, hh⟩ := hm
    -- the handler's own code says what it sends
    obtain ⟨conn', hc', hs'⟩ := bind_eq_some_iff.mp hs'
    obtain ⟨rfl⟩ := hc.symm.trans hc'
    unfold State.resume at hs'
    rw [hh] at hs'
    cases hs'
    unfold State.answer State.send at he
    cases ask with
    | snapshotReq | attach =>
      dsimp only at he
      split at he
      · refine (mem_append.mp he).imp_right fun he => ?_
        obtain rfl := mem_singleton.mp he
        cases hscreen
        exact ⟨_, conn, _, _, rfl, hc, hh, rfl⟩
      · exact .inl he
    | cwdQuery => exact .inl he
  | draws _ _ _ _ hq =>
    rw [hq.wire, append_nil] at he
    exact .inl he
  | registers _ hl hwire =>
    rw [hwire] at he
    rcases mem_append.mp he with he | he
    · refine (mem_append.mp he).imp_right fun he => ?_
      exact nomatch (Frame.snapshot_of_isReply (hl e he).1).symm.trans hsnapshot
    · obtain ⟨f, hf, rfl⟩ := mem_map.mp he
      exact nomatch (ht.kept _ f hf).2.symm.trans hsnapshot
  | emits _ _ _ _ _ _ _ _ _ _ _ _ _ hwire => exact .inl (hwire ▸ he)
  | routes _ hb hs' =>
    subst hs'
    rw [State.route_wire] at he
    refine (mem_append.mp he).imp_right fun he => ?_
    obtain ⟨c, -, rfl⟩ := map_eq_some_iff.mp (mem_toList.mp he)
    exact nomatch (ht.routedFrame hb).2.1.symm.trans hsnapshot
  | hubReads _ _ hs' =>
    subst hs'
    exact .inl he

/-! ### The run -/

/-- What every step keeps, if it meets the condition. -/
structure Inv (w : Record) : Prop where
  wellFormed : WellFormed w.daemon
  sorted : Sorted w.daemon
  unnumbered : Unnumbered w.daemon
  outputs : ∀ p, ∀ e ∈ w.outputs p, e.data ≠ []
  blank : ∀ e ∈ w.daemon.wire, ∀ p m n, screen e.2 = some (p, m, n) → n = 0 ∧ m.drawn = []

theorem Inv.start : Inv .start where
  wellFormed := .init
  sorted := .init
  unnumbered := nofun
  outputs _ _ h := nomatch h
  blank _ h := nomatch h

theorem data_of_sends {e : OutputEvent Printed} (h : sends s a = some (p, e)) : e.data ≠ [] := by
  unfold sends at h
  split at h
  · obtain ⟨r, -, h⟩ := bind_eq_some_iff.mp h
    obtain ⟨hdata, ⟨rfl⟩⟩ := ite_none_left_eq_some.mp h
    simpa using hdata
  · cases h

theorem Inv.step {w w' : Record} (h : Inv w) (hok : Orderly w a)
    (hw' : record len w a = some w') : Inv w' := by
  obtain ⟨s', hs', rfl⟩ := map_eq_some_iff.mp hw'
  refine ⟨h.wellFormed.step hs', h.sorted.step (step_effect h.wellFormed hs'),
    h.unnumbered.step hs', ?_, ?_⟩
  · intro p e he
    cases hsend : sends w.daemon a with
    | none =>
      rw [hsend] at he
      exact h.outputs p e he
    | some x =>
      obtain ⟨q, e'⟩ := x
      rw [hsend] at he
      unfold Record.sent at he
      dsimp only at he
      by_cases hpq : p = q
      · subst hpq
        rw [Function.update_self] at he
        rcases mem_append.mp he with he | he
        · exact h.outputs p e he
        · obtain rfl := mem_singleton.mp he
          exact data_of_sends hsend
      · rw [Function.update_of_ne hpq] at he
        exact h.outputs p e he
  · intro e he p m n hscreen
    rcases screen_of_step h.wellFormed h.sorted hs' he hscreen with he | ⟨c, conn, ask, id, rfl, hc,
      hh, rfl⟩
    · exact h.blank e he p m n hscreen
    · refine ⟨?_, ?_⟩
      · cases hch : w.daemon.manager.channels.get id with
        | none => rfl
        | some ch => exact h.unnumbered id ch hch
      · change (w.daemon.conns c).all _ = true at hok
        rw [hc, all_some, hh] at hok
        exact isEmpty_iff.mp hok

theorem lastOf_zero {es : List (OutputEvent Printed)} (h : ∀ e ∈ es, e.data ≠ []) :
    lastOf es 0 = 0 := by
  cases es with
  | nil => rfl
  | cons e es =>
    have hdata := length_pos_iff.mpr (h e mem_cons_self)
    exact if_neg (by omega)

theorem Inv.right {w : Record} (h : Inv w) : Right w where
  last e he p m n hscreen := by
    obtain ⟨rfl, hdrawn⟩ := h.blank e he p m n hscreen
    rw [hdrawn]
    exact (lastOf_zero (h.outputs p)).symm
  increasing := by
    refine pairwise_of_forall_mem_list fun e he e' he' p m n m' n' hscreen hscreen' => ?_
    rw [(h.blank e he p m n hscreen).1]
    exact Nat.zero_le n'

/-- **The sequence numbers sent with the screens are right**, in every run in which the screens sent
are blank. -/
theorem last_seq_right (len : Frame → ℕ) (w : Record) (h : Run (record len) Orderly .start w) :
    Right w :=
  Inv.right (h.invariant .start fun _ _ _ hw hok hn => hw.step hok hn)

/-- A hub starts a terminal. -/
def startsTerminal : List Step :=
  [.register ⟨"hub"⟩, .resume 0, .spawn 0 "r" (some "t") "" 80 24 (.ok ()), .resume 0, .resume 0,
    .resume 0]

/-- A hub attaches to its terminal. -/
def attaches : List Step := [.ask 0 (.attach none) "t", .resume 0, .serve 0, .resume 0]

theorem last_seq_right_before_output : ∃ w, Run (record fun _ => 1) Orderly .start w ∧
    (0, ⟨.attachOk "t" none ⟨80, 24, []⟩ 0, some 0⟩) ∈ w.daemon.wire ∧ Right w := by
  have hrun : Run (record fun _ => 1) Orderly .start _ :=
    .get (startsTerminal ++ attaches) (by decide +kernel) (by decide +kernel)
  exact ⟨_, hrun, by decide +kernel, last_seq_right _ _ hrun⟩

/-- **The number sent is 0 whatever is on the screen**: a terminal has printed a byte, its OUTPUT
has number 1, and an ATTACH is answered with the byte on the screen and the number 0. -/
theorem last_seq_zero_after_output : ¬∀ w, Run (record fun _ => 1) free .start w → Right w := by
  intro h
  have hrun : Run (record fun _ => 1) free .start _ :=
    .get_free (startsTerminal ++ [.read 0 [97] []] ++ attaches) (by decide +kernel)
  have hzero := (h _ hrun).last (0, ⟨.attachOk "t" none ⟨80, 24, [⟨0, 0, 97⟩]⟩ 0, some 0⟩)
    (by decide +kernel) 0 _ 0 rfl
  exact absurd hzero (by decide +kernel)

end Lasterm.Agent.SnapshotSeq
