import Lasterm.Agent.ManagerSteps

/-!
# The shutdown of the agent

A shutdown signals every terminal the manager has, waits a bounded time for each to be gone, and
reports 0 if every one of them was (`destroy_all` of `pty.rs`, `teardown_exit_status` of
`daemon.rs`; an agent on stdio does the same when its input ends, `handler.rs`).  A workload is not
always in the manager while it may still run: a DESTROY takes it out and confirms its end in a task
of its own, and the reader of a terminal that has closed takes it out and waits for its exit status.
Neither is counted by the sweep.

## Main definitions

* `Ending` — the daemon with its sweep, and the ends others wait for; `Orderly` — nobody waits for
  one that the sweep does not count.

## Main results

* `teardown_and_stop` — a clean report is true, in every orderly run.
* `clean_report_during_destroy` — and may be false in another.
-/

namespace Lasterm.Agent.Shutdown

open Function (update)
open Transition List Option OrderedMap

/-- A teardown under way, or over. -/
structure Sweep where
  /-- The pids below this had been given out when it began. -/
  started : ℕ
  /-- Signalled, and their confirmation is waited for. -/
  waits : List ℕ
  unresolved : List ℕ
  deriving DecidableEq

/-- An agent, and where its workloads are. -/
structure Ending where
  daemon : State
  /-- Taken out of the manager by their readers, and not confirmed gone since. -/
  taken : List ℕ
  /-- Taken out of the manager by a DESTROY, and not confirmed gone since. -/
  destroyed : List ℕ
  gone : List ℕ
  sweep : Option Sweep
  status : Option ℕ

/-- An agent that has just started. -/
def Ending.start : Ending := ⟨Agent.init, [], [], [], none, none⟩

/-- What can happen. -/
inductive Step
  | other (a : Agent.Step)
  /-- The confirmation of a DESTROY sees its process gone. -/
  | confirm (p : ℕ)
  /-- The sweep: a daemon marks its manager first.  `outcome` is what signalling comes to. -/
  | teardown (marks : Bool) (outcome : String → Teardown)
  /-- A confirmation of the sweep ends: its process is gone, or the wait failed or timed out. -/
  | waited (p : ℕ) (exited : Bool)
  | report

namespace Ending

/-- DESTROY: who is signalled is waited for. -/
def destroy (w : Ending) (ch : Option PtyChannelState) (teardown : Teardown) : Ending :=
  match ch, teardown with
  | some ch, .signalled => { w with destroyed := w.destroyed ++ [ch.pid] }
  | some ch, .alreadyExited => { w with gone := w.gone ++ [ch.pid] }
  | _, _ => w

/-- The reader takes its own workload, if that is what is registered. -/
def takeOwn (w : Ending) (p : ℕ) (ch : Option PtyChannelState) : Ending :=
  if ch.any (·.pid = p) then { w with taken := w.taken ++ [p] } else w

/-- The reader's wait is over: with the exit status, or failed. -/
def exit (w : Ending) (p : ℕ) (waits exited : Bool) : Ending :=
  if waits && exited then { w with taken := w.taken.erase p, gone := w.gone ++ [p] } else w

/-- Where the workloads are after a step. -/
def follow (w : Ending) : Agent.Step → Ending
  | .destroy c id teardown =>
    w.destroy ((w.daemon.ready c).bind fun conn => w.daemon.manager.ownedBy id conn.owner) teardown
  | .takeOwn p =>
    w.takeOwn p ((w.daemon.readerAt p .unlisted).bind fun r =>
      w.daemon.manager.channels.get r.channelId)
  | .exit p status =>
    w.exit p ((w.daemon.readers p).any (·.stage = .exiting true)) status.isSome
  | _ => w

/-- `begin_shutdown` and `destroy_all`, up to its first await. -/
def teardown (w : Ending) (marks : Bool) (outcome : String → Teardown) : Ending :=
  let entries := w.daemon.manager.channels.entries
  let pids := fun t => (entries.filter fun e => outcome e.1 = t).map (·.2.pid)
  let marked := if marks then w.daemon.manager.beginShutdown else w.daemon.manager
  let swept := entries.filter fun e => outcome e.1 ≠ .failed
  { w with
    daemon := { w.daemon with manager := swept.foldl (fun m e => m.remove e.1) marked }
    gone := w.gone ++ pids .alreadyExited
    sweep := some ⟨w.daemon.nextPid, pids .signalled, pids .failed⟩ }

/-- A confirmation of the sweep ends. -/
def waited (w : Ending) (sw : Sweep) (p : ℕ) (exited : Bool) : Ending :=
  if exited then
    { w with gone := w.gone ++ [p], sweep := some { sw with waits := sw.waits.erase p } }
  else
    { w with
      sweep := some { sw with waits := sw.waits.erase p, unresolved := sw.unresolved ++ [p] } }

/-- `teardown_exit_status`. -/
def exitStatus (sw : Sweep) : ℕ := if sw.unresolved.isEmpty then 0 else 1

end Ending

/-- The agent after a step, if the step is possible. -/
def ends (len : Frame → ℕ) (w : Ending) : Step → Option Ending
  | .other (.sweep ..) => none
  | .other a => (Agent.step len w.daemon a).map fun daemon => { w.follow a with daemon }
  | .confirm p =>
    if p ∈ w.destroyed then
      some { w with destroyed := w.destroyed.erase p, gone := w.gone ++ [p] }
    else none
  | .teardown marks outcome => if w.sweep.isNone then some (w.teardown marks outcome) else none
  | .waited p exited =>
    w.sweep.bind fun sw => if p ∈ sw.waits then some (w.waited sw p exited) else none
  | .report =>
    w.sweep.bind fun sw =>
      if sw.waits.isEmpty then some { w with status := some (Ending.exitStatus sw) } else none

/-- A clean report is true: every process that was started when the shutdown began is gone. -/
def Truthful (w : Ending) : Prop :=
  w.status = some 0 → ∀ sw, w.sweep = some sw → ∀ p < sw.started, p ∈ w.gone

/-- A shutdown begins only when no reader and no DESTROY waits for a workload, or gave up waiting
for it. -/
def Orderly (w : Ending) : Step → Prop
  | .teardown .. => w.taken = [] ∧ w.destroyed = []
  | _ => True

instance (w : Ending) (a : Step) : Decidable (Orderly w a) := by
  cases a <;> unfold Orderly <;> infer_instance

/-! ### Where a workload is -/

/-- A process has a channel. -/
def Registered (m : PtyManager) (p : ℕ) : Prop := ∃ id ch, m.channels.get id = some ch ∧ ch.pid = p

variable {s s' : State} {a : Agent.Step} {p : ℕ} {len : Frame → ℕ}

theorem registered_step (hs' : Agent.step len s a = some s')
    (h : Registered s.manager p) : Registered s'.manager p ∨ TakesOut s p a := by
  obtain ⟨id, ch, hch, rfl⟩ := h
  cases step_manager hs' with
  | keeps _ hsame =>
    have hentry := hsame id
    rw [hch, map_some] at hentry
    obtain ⟨ch', hch', heq⟩ := map_eq_some_iff.mp hentry
    exact .inl ⟨id, ch', hch', congrArg (·.1) heq⟩
  | @brings id' _ hnew _ _ hchannels _ _ =>
    have hne : id ≠ id' := by
      rintro rfl
      exact nomatch hnew.symm.trans hch
    refine .inl ⟨id, ch, ?_, rfl⟩
    rw [hchannels, get_set_of_ne _ hne]
    exact hch
  | @drops id' _ hmanager hout =>
    by_cases hid : id = id'
    · exact .inr (hout ch (hid ▸ hch))
    · refine .inl ⟨id, ch, ?_, rfl⟩
      rw [hmanager]
      exact (get_delete_of_ne _ hid).trans hch

theorem started_step (hs' : Agent.step len s a = some s')
    (hp : p < s'.nextPid) : p < s.nextPid ∨ Registered s'.manager p := by
  cases step_manager hs' with
  | keeps hpid | drops hpid => exact .inl (hpid ▸ hp)
  | @brings id ch _ _ hpid hchannels hch _ =>
    rw [hpid] at hp
    refine (Nat.lt_succ_iff_lt_or_eq.mp hp).imp_right ?_
    rintro rfl
    exact ⟨id, ch, hchannels ▸ get_set_self .., hch⟩

/-- What every step keeps, if it meets the condition. -/
structure Inv (w : Ending) : Prop where
  located : ∀ p < w.daemon.nextPid, p ∈ w.gone ∨ Registered w.daemon.manager p ∨ p ∈ w.taken ∨
    p ∈ w.destroyed ∨ ∃ sw, w.sweep = some sw ∧ (p ∈ sw.waits ∨ p ∈ sw.unresolved)
  swept : ∀ sw, w.sweep = some sw → ∀ p < sw.started, p ∈ w.gone ∨ p ∈ sw.waits ∨
    p ∈ sw.unresolved
  status : w.status = some 0 → ∀ sw, w.sweep = some sw → sw.waits = [] ∧ sw.unresolved = []
  unreported : w.sweep = none → w.status = none

variable {w w' : Ending} {q : ℕ}

theorem Inv.start : Inv .start where
  located _ hp := nomatch hp
  swept := nofun
  status := nofun
  unreported _ := rfl

theorem mem_erase_or {l : List ℕ} (h : p ∈ l) (q : ℕ) : p ∈ l.erase q ∨ p = q := by
  by_cases hpq : p = q
  · exact .inr hpq
  · exact .inl ((mem_erase_of_ne hpq).mpr h)

/-- What the agent's own steps do to where the workloads are. -/
structure Follows (w w' : Ending) : Prop where
  gone : ∀ p ∈ w.gone, p ∈ w'.gone
  taken : ∀ p ∈ w.taken, p ∈ w'.taken ∨ p ∈ w'.gone
  destroyed : ∀ p ∈ w.destroyed, p ∈ w'.destroyed
  sweep : w'.sweep = w.sweep
  status : w'.status = w.status

namespace Follows

theorem refl (w : Ending) : Follows w w :=
  ⟨fun _ => id, fun _ => .inl, fun _ => id, rfl, rfl⟩

theorem destroy (w : Ending) (ch : Option PtyChannelState) (teardown : Teardown) :
    Follows w (w.destroy ch teardown) := by
  unfold Ending.destroy
  split
  · exact ⟨fun _ => id, fun _ => .inl, fun _ => mem_append_left _, rfl, rfl⟩
  · exact ⟨fun _ => mem_append_left _, fun _ => .inl, fun _ => id, rfl, rfl⟩
  · exact .refl w

theorem takeOwn (w : Ending) (p : ℕ) (ch : Option PtyChannelState) :
    Follows w (w.takeOwn p ch) := by
  unfold Ending.takeOwn
  split
  · exact ⟨fun _ => id, fun _ h => .inl (mem_append_left _ h), fun _ => id, rfl, rfl⟩
  · exact .refl w

theorem exit (w : Ending) (p : ℕ) (waits exited : Bool) : Follows w (w.exit p waits exited) := by
  unfold Ending.exit
  split
  · refine ⟨fun _ => mem_append_left _, fun q hq => ?_, fun _ => id, rfl, rfl⟩
    refine (mem_erase_or hq p).imp_right ?_
    rintro rfl
    exact mem_append_right _ (mem_singleton_self q)
  · exact .refl w

theorem follow (w : Ending) (a : Agent.Step) : Follows w (w.follow a) := by
  unfold Ending.follow
  split
  · exact .destroy ..
  · exact .takeOwn ..
  · exact .exit ..
  · exact .refl w

end Follows

theorem follow_of_takesOut {a : Agent.Step} (h : TakesOut w.daemon p a)
    (hsweep : ∀ id t, a ≠ .sweep id t) :
    p ∈ (w.follow a).gone ∨ p ∈ (w.follow a).taken ∨ p ∈ (w.follow a).destroyed := by
  cases a with
  | destroy c id teardown =>
    obtain ⟨hne, conn, ch, hc, hch, rfl⟩ := h
    unfold Ending.follow Ending.destroy
    dsimp only
    rw [hc, bind_some, hch]
    cases teardown with
    | signalled => exact .inr (.inr (mem_append_right _ (mem_singleton_self _)))
    | alreadyExited => exact .inl (mem_append_right _ (mem_singleton_self _))
    | failed => exact absurd rfl hne
  | takeOwn q =>
    obtain ⟨rfl, r, ch, hr, hch, hpid⟩ := h
    unfold Ending.follow Ending.takeOwn
    dsimp only
    rw [hr, bind_some, hch, any_some, if_pos (decide_eq_true hpid)]
    exact .inr (.inl (mem_append_right _ (mem_singleton_self _)))
  | sweep id t => exact absurd rfl (hsweep id t)
  | _ => exact h.elim

theorem Inv.other (h : Inv w) (hsweep : ∀ id t, a ≠ .sweep id t)
    (hs' : Agent.step len w.daemon a = some s') : Inv { w.follow a with daemon := s' } := by
  have hf := Follows.follow w a
  refine ⟨fun p hp => ?_, fun sw hsw p hp => ?_, fun hstatus sw hsw => ?_, fun hsw => ?_⟩
  · rcases started_step hs' hp with hp | hp
    · rcases h.located p hp with hp | hp | hp | hp | hp
      · exact .inl (hf.gone p hp)
      · rcases registered_step hs' hp with hp | hp
        · exact .inr (.inl hp)
        · rcases follow_of_takesOut hp hsweep with hp | hp | hp
          · exact .inl hp
          · exact .inr (.inr (.inl hp))
          · exact .inr (.inr (.inr (.inl hp)))
      · rcases hf.taken p hp with hp | hp
        · exact .inr (.inr (.inl hp))
        · exact .inl hp
      · exact .inr (.inr (.inr (.inl (hf.destroyed p hp))))
      · rw [← hf.sweep] at hp
        exact .inr (.inr (.inr (.inr hp)))
    · exact .inr (.inl hp)
  · exact (h.swept sw (hf.sweep ▸ hsw) p hp).imp_left (hf.gone p)
  · exact h.status (hf.status ▸ hstatus) sw (hf.sweep ▸ hsw)
  · exact hf.status.trans (h.unreported (hf.sweep ▸ hsw))

/-! ### The teardown -/

theorem mem_teardown {marks : Bool} {outcome : String → Teardown}
    (h : Registered w.daemon.manager p) :
    p ∈ (w.teardown marks outcome).gone ∨ ∃ sw, (w.teardown marks outcome).sweep = some sw ∧
      (p ∈ sw.waits ∨ p ∈ sw.unresolved) := by
  obtain ⟨id, ch, hch, rfl⟩ := h
  have hmem := (get_eq_some_iff ..).mp hch
  have hpids : ∀ t, outcome id = t → ch.pid ∈
      (w.daemon.manager.channels.entries.filter fun e => outcome e.1 = t).map (·.2.pid) :=
    fun t ht => mem_map.mpr ⟨(id, ch), mem_filter.mpr ⟨hmem, decide_eq_true ht⟩, rfl⟩
  cases hout : outcome id with
  | signalled => exact .inr ⟨_, rfl, .inl (hpids _ hout)⟩
  | alreadyExited => exact .inl (mem_append_right _ (hpids _ hout))
  | failed => exact .inr ⟨_, rfl, .inr (hpids _ hout)⟩

theorem Inv.teardown (h : Inv w) (htaken : w.taken = []) (hdestroyed : w.destroyed = [])
    (hsweep : w.sweep = none) (marks : Bool) (outcome : String → Teardown) :
    Inv (w.teardown marks outcome) := by
  have hall : ∀ p < w.daemon.nextPid, p ∈ (w.teardown marks outcome).gone ∨
      ∃ sw, (w.teardown marks outcome).sweep = some sw ∧ (p ∈ sw.waits ∨ p ∈ sw.unresolved) := by
    intro p hp
    rcases h.located p hp with hp | hp | hp | hp | ⟨sw, hsw, -⟩
    · exact .inl (mem_append_left _ hp)
    · exact mem_teardown hp
    · rw [htaken] at hp
      cases hp
    · rw [hdestroyed] at hp
      cases hp
    · exact nomatch hsweep.symm.trans hsw
  have hstatus := h.unreported hsweep
  refine ⟨fun p hp => ?_, fun sw hsw p hp => ?_, fun hzero _ => ?_, nofun⟩
  · exact (hall p hp).imp_right fun hp => .inr (.inr (.inr hp))
  · cases hsw
    refine (hall p hp).imp_right ?_
    rintro ⟨sw, ⟨rfl⟩, hp⟩
    exact hp
  · exact nomatch hstatus.symm.trans hzero

theorem waited_or {sw sw' : Sweep} {exited : Bool} (hsw' : (w.waited sw q exited).sweep = some sw')
    (hp : p ∈ w.gone ∨ p ∈ sw.waits ∨ p ∈ sw.unresolved) :
    p ∈ (w.waited sw q exited).gone ∨ p ∈ sw'.waits ∨ p ∈ sw'.unresolved := by
  cases exited with
  | true =>
    cases hsw'
    rcases hp with hp | hp | hp
    · exact .inl (mem_append_left _ hp)
    · rcases mem_erase_or hp q with hp | rfl
      · exact .inr (.inl hp)
      · exact .inl (mem_append_right _ (mem_singleton_self _))
    · exact .inr (.inr hp)
  | false =>
    cases hsw'
    rcases hp with hp | hp | hp
    · exact .inl hp
    · rcases mem_erase_or hp q with hp | rfl
      · exact .inr (.inl hp)
      · exact .inr (.inr (mem_append_right _ (mem_singleton_self _)))
    · exact .inr (.inr (mem_append_left _ hp))

theorem Inv.waited {sw : Sweep} (h : Inv w) (hsw : w.sweep = some sw) (hq : q ∈ sw.waits)
    (exited : Bool) : Inv (w.waited sw q exited) := by
  obtain ⟨sw', hsw', hstarted⟩ : ∃ sw', (w.waited sw q exited).sweep = some sw' ∧
      sw'.started = sw.started := by
    cases exited <;> exact ⟨_, rfl, rfl⟩
  have hsame : (w.waited sw q exited).daemon = w.daemon ∧ (w.waited sw q exited).taken = w.taken ∧
      (w.waited sw q exited).destroyed = w.destroyed ∧
      (w.waited sw q exited).status = w.status := by
    cases exited <;> exact ⟨rfl, rfl, rfl, rfl⟩
  obtain ⟨hdaemon, htaken, hdestroyed, hstatus⟩ := hsame
  refine ⟨fun p hp => ?_, fun sw₁ hsw₁ p hp => ?_, fun hzero => ?_, fun hnone => ?_⟩
  · rw [hdaemon] at hp ⊢
    rw [htaken, hdestroyed]
    have hthere := fun hp => waited_or (w := w) (q := q) (p := p) hsw' hp
    rcases h.located p hp with hp | hp | hp | hp | ⟨sw₁, hsw₁, hp⟩
    · exact (hthere (.inl hp)).imp_right fun hp => .inr (.inr (.inr ⟨sw', hsw', hp⟩))
    · exact .inr (.inl hp)
    · exact .inr (.inr (.inl hp))
    · exact .inr (.inr (.inr (.inl hp)))
    · obtain ⟨rfl⟩ := hsw.symm.trans hsw₁
      exact (hthere (.inr hp)).imp_right fun hp => .inr (.inr (.inr ⟨sw', hsw', hp⟩))
  · obtain ⟨rfl⟩ := hsw'.symm.trans hsw₁
    exact waited_or hsw' (h.swept sw hsw p (hstarted ▸ hp))
  · -- nothing was reported while someone was waited for
    obtain ⟨hwaits, -⟩ := h.status (hstatus ▸ hzero) sw hsw
    rw [hwaits] at hq
    cases hq
  · exact nomatch hnone.symm.trans hsw'

/-! ### The run -/

theorem Inv.step {step : Step} (h : Inv w) (hok : Orderly w step)
    (hw' : ends len w step = some w') : Inv w' := by
  cases step with
  | other a =>
    unfold ends at hw'
    split at hw'
    · cases hw'
    · next a' hne ha =>
      cases ha
      obtain ⟨s', hs', rfl⟩ := map_eq_some_iff.mp hw'
      refine h.other (fun id t hsweep => ?_) hs'
      exact hne id t hsweep
    all_goals contradiction
  | confirm q =>
    obtain ⟨-, ⟨rfl⟩⟩ := ite_none_right_eq_some.mp hw'
    refine ⟨fun p hp => ?_, fun sw hsw p hp => ?_, h.status, h.unreported⟩
    · rcases h.located p hp with hp | hp | hp | hp | hp
      · exact .inl (mem_append_left _ hp)
      · exact .inr (.inl hp)
      · exact .inr (.inr (.inl hp))
      · rcases mem_erase_or hp q with hp | rfl
        · exact .inr (.inr (.inr (.inl hp)))
        · exact .inl (mem_append_right _ (mem_singleton_self _))
      · exact .inr (.inr (.inr (.inr hp)))
    · exact (h.swept sw hsw p hp).imp_left (mem_append_left _)
  | teardown marks outcome =>
    obtain ⟨hsweep, ⟨rfl⟩⟩ := ite_none_right_eq_some.mp hw'
    exact h.teardown hok.1 hok.2 (isNone_iff_eq_none.mp hsweep) marks outcome
  | waited q exited =>
    obtain ⟨sw, hsw, hw'⟩ := bind_eq_some_iff.mp hw'
    obtain ⟨hq, ⟨rfl⟩⟩ := ite_none_right_eq_some.mp hw'
    exact h.waited hsw hq exited
  | report =>
    obtain ⟨sw, hsw, hw'⟩ := bind_eq_some_iff.mp hw'
    obtain ⟨hwaits, ⟨rfl⟩⟩ := ite_none_right_eq_some.mp hw'
    refine ⟨h.located, h.swept, fun hzero sw₁ hsw₁ => ?_, fun hnone => nomatch hnone.symm.trans hsw⟩
    obtain ⟨rfl⟩ := hsw.symm.trans hsw₁
    refine ⟨isEmpty_iff.mp hwaits, ?_⟩
    by_contra hne
    have hone : Ending.exitStatus sw = 1 := if_neg fun hempty => hne (isEmpty_iff.mp hempty)
    exact absurd (hone.symm.trans (some.inj hzero)) (by decide)

theorem Inv.truthful (h : Inv w) : Truthful w := by
  intro hzero sw hsw p hp
  obtain ⟨hwaits, hunresolved⟩ := h.status hzero sw hsw
  have hp := h.swept sw hsw p hp
  rw [hwaits, hunresolved] at hp
  simpa using hp

/-! ### STOP -/

/-- Another hub holds a terminal. -/
def HeldByOther (s : State) (owner : OwnerId) : Prop :=
  ∃ id ch, s.manager.channels.get id = some ch ∧ ch.owner ≠ owner

theorem heldByOthers_pos {s : State} {owner : OwnerId} :
    0 < s.manager.heldByOthers owner ↔ HeldByOther s owner := by
  unfold PtyManager.heldByOthers HeldByOther
  rw [length_pos_iff_exists_mem]
  constructor
  · rintro ⟨⟨id, ch⟩, hmem⟩
    obtain ⟨hmem, hne⟩ := mem_filter.mp hmem
    exact ⟨id, ch, (get_eq_some_iff ..).mpr hmem, of_decide_eq_true hne⟩
  · rintro ⟨id, ch, hch, hne⟩
    exact ⟨(id, ch), mem_filter.mpr ⟨(get_eq_some_iff ..).mp hch, decide_eq_true hne⟩⟩

/-- A STOP is accepted: no terminal is started any more. -/
def Accepted (s s' : State) : Prop := s' = { s with manager := s.manager.beginShutdown }

/-- A STOP is refused: its hub is told so, and nothing else is different. -/
def Refused (s s' : State) (c : ℕ) (owner : OwnerId) : Prop :=
  s' = s.send c (stopRefusal (s.manager.heldByOthers owner)).reply ∧ s'.manager = s.manager ∧
    s'.readers = s.readers ∧ s'.workloads = s.workloads

theorem stop_accepted_or_refused (s : State) (c : ℕ) (owner : OwnerId) :
    (¬HeldByOther s owner ∧ Accepted s (s.stop c owner false)) ∨
      (HeldByOther s owner ∧ Refused s (s.stop c owner false) c owner) := by
  unfold State.stop Accepted Refused
  by_cases hothers : 0 < s.manager.heldByOthers owner
  · rw [if_pos (by simpa using hothers)]
    refine .inr ⟨heldByOthers_pos.mp hothers, rfl, ?_⟩
    unfold State.send
    split <;> exact ⟨rfl, rfl, rfl⟩
  · rw [if_neg (by simpa using hothers)]
    exact .inl ⟨fun h => hothers (heldByOthers_pos.mpr h), rfl⟩

/-- **A clean report is true**, in every run in which nobody waits for a workload that is not in
the manager when the shutdown begins; and in every state a STOP without force is accepted only when
no other hub holds a terminal, and otherwise refused, which leaves the terminals and the manager as
they were. -/
theorem teardown_and_stop (len : Frame → ℕ) (w : Ending) (h : Run (ends len) Orderly .start w) :
    Truthful w ∧ ∀ c conn s', w.daemon.ready c = some conn →
      Agent.step len w.daemon (.stop c false) = some s' →
      (¬HeldByOther w.daemon conn.owner ∧ Accepted w.daemon s') ∨
        (HeldByOther w.daemon conn.owner ∧ Refused w.daemon s' c conn.owner) := by
  have hinv : Inv w := h.invariant .start fun _ _ _ hw hok hn => hw.step hok hn
  refine ⟨hinv.truthful, fun c conn s' hc hs' => ?_⟩
  obtain ⟨conn', hc', rfl⟩ := map_eq_some_iff.mp hs'
  obtain ⟨rfl⟩ := hc.symm.trans hc'
  exact stop_accepted_or_refused ..

/-- A hub starts a terminal. -/
def startsTerminal : List Step :=
  [.other (.register ⟨"hub"⟩), .other (.resume 0), .other (.spawn 0 "r" (some "t") "" 80 24 (.ok ())),
    .other (.resume 0), .other (.resume 0), .other (.resume 0)]

theorem teardown_and_stop_one_terminal : ∃ w, Run (ends fun _ => 1) Orderly .start w ∧
    w.status = some 0 ∧ w.gone = [0] ∧ Truthful w := by
  have hrun : Run (ends fun _ => 1) Orderly .start _ :=
    .get (startsTerminal ++ [.other (.stop 0 false), .teardown true fun _ => .signalled,
      .waited 0 true, .report]) (by decide +kernel) (by decide +kernel)
  exact ⟨_, hrun, by decide +kernel, by decide +kernel, (teardown_and_stop _ _ hrun).1⟩

/-- **A clean report may be false**: a DESTROY has signalled the terminal and waits for its end, the
agent is stopped meanwhile, and its shutdown reports 0. -/
theorem clean_report_during_destroy : ¬∀ w, Run (ends fun _ => 1) free .start w → Truthful w := by
  intro h
  have hrun : Run (ends fun _ => 1) free .start _ :=
    .get_free (startsTerminal ++ [.other (.destroy 0 "t" .signalled), .other (.stop 0 false),
      .teardown true fun _ => .signalled, .report]) (by decide +kernel)
  exact absurd (h _ hrun (by decide +kernel) ⟨1, [], []⟩ (by decide +kernel) 0 Nat.zero_lt_one)
    (by decide +kernel)

end Lasterm.Agent.Shutdown
