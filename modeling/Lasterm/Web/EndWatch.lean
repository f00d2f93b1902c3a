import Mathlib.Algebra.Order.Field.Rat

/-!
# What a pane does when its terminal ends

A pane follows its terminal by what it does and hears (`createEndWatch`), so that an end is seen as
it happens, or found afterwards.  Set to restart, it restarts a terminal that it watched for a while
(`reactToEnd`), or one it found ended, once it is on screen (`answerFoundEnd`).  A lost socket, or
another terminal, makes it forget that it is starting one.

## Main definitions

* `EndWatch`, `EndWatch.step` — the watch, and what a pane does about each event.

## Main results

* `no_restart_loop` — what two restarts of one terminal in a row mean, after any events.
* `restarted_after_lost` — what they do not.
-/

namespace Lasterm.Web.Ended

/-- `AUTO_RESTART_MIN_RUN_MS`. -/
def autoRestartMinRunMs : ℚ := 5000

/-- The terminal watched running, since when, and whether from its start. -/
structure Watching where
  channelId : String
  since : ℚ
  fromStart : Bool

/-- What a pane's end watch holds. -/
structure EndWatch where
  watching : Option Watching
  /-- A start from here, not yet attached to. -/
  startingId : Option String
  /-- The terminal whose end was told last, until something says it runs again. -/
  toldId : Option String

/-- How an end was noticed. -/
inductive Seen
  | live
  | found
  deriving DecidableEq

/-- What the watch says of an end. -/
structure EndSeen where
  seen : Seen
  watchedMs : Option ℚ
  fromStart : Bool
  again : Bool

namespace EndWatch

/-- `createEndWatch`. -/
def create : EndWatch := ⟨none, none, none⟩

/-- `starting`. -/
def starting (channelId : String) : EndWatch := ⟨none, some channelId, none⟩

/-- `attached`. -/
def attached (w : EndWatch) (channelId : String) (now : ℚ) : EndWatch :=
  ⟨some ⟨channelId, now, w.startingId = some channelId⟩, none, none⟩

/-- `lost`. -/
def lost (w : EndWatch) : EndWatch := { w with watching := none, startingId := none }

/-- `ended`. -/
def ended (w : EndWatch) (channelId : String) (now : ℚ) : EndSeen :=
  match w.watching.filter (·.channelId = channelId) with
  | none => ⟨.found, none, w.startingId = some channelId, w.toldId = some channelId⟩
  | some watched => ⟨.live, some (now - watched.since), watched.fromStart, false⟩

end EndWatch

/-! ### What the pane does about it -/

/-- The setting `whenEnded`. -/
inductive WhenEnded
  | ask
  | restart
  | close

/-- The settings an end is answered by. -/
structure EndedPrefs where
  whenEnded : WhenEnded
  keepEnded : Bool

/-- Why the hub ended a terminal. -/
inductive ChannelEndReason
  | killed
  | stopped
  deriving DecidableEq

/-- Why the setting is not followed. -/
inductive HeldBack
  | justStarted
  | justAttached
  | runsACommand
  | notWriter
  | stoppedNotRestarted
  | stoppedNotClosed
  | stopped

/-- What a pane does about an end. -/
inductive EndReaction
  | overlay (heldBack : Option HeldBack)
  | restart
  | close (keep : Bool)

/-- What is known of an end when it is answered. -/
structure EndFacts extends EndSeen where
  directProcess : Bool
  writer : Bool
  endReason : Option ChannelEndReason

/-- What is said of a terminal that was stopped elsewhere. -/
def stoppedElsewhere : WhenEnded → HeldBack
  | .restart => .stoppedNotRestarted
  | .close => .stoppedNotClosed
  | .ask => .stopped

/-- Whether it was not watched for long enough to be restarted without asking. -/
def EndSeen.short (e : EndSeen) : Bool := e.watchedMs.all (· < autoRestartMinRunMs)

/-- `reactToEnd`. -/
def reactToEnd (prefs : EndedPrefs) (e : EndFacts) : EndReaction :=
  if e.endReason = some .killed ∨ (e.endReason = some .stopped ∧ e.seen = .live) then
    .overlay (some (stoppedElsewhere prefs.whenEnded))
  else
    match e.seen, prefs.whenEnded with
    | .found, .restart =>
      if e.fromStart then .overlay (some .justStarted)
      else if e.directProcess then .overlay (some .runsACommand)
      else .overlay none
    | .found, _ => .overlay none
    | .live, .ask => .overlay none
    | .live, .close => .close prefs.keepEnded
    | .live, .restart =>
      if e.directProcess then .overlay (some .runsACommand)
      else if e.short then .overlay (some (if e.fromStart then .justStarted else .justAttached))
      else if e.writer then .restart
      else .overlay (some .notWriter)

/-- `endHold`: why an end asks instead of following the setting. -/
def endHold (e : EndFacts) : Option HeldBack :=
  if e.endReason.isSome then none
  else
    match e.seen with
    | .found => if e.fromStart then some .justStarted else none
    | .live =>
      if e.short then some (if e.fromStart then .justStarted else .justAttached)
      else if e.writer then none
      else some .notWriter

/-- What a found end is answered with. -/
inductive WaitingAnswer
  | act
  | wait
  | ask
  deriving DecidableEq

/-- An overlay over an end its pane found. -/
structure FoundEnd where
  hold : Option HeldBack
  directProcess : Bool
  endReason : Option ChannelEndReason
  whenEnded : WhenEnded
  settingKnown : Bool
  inView : Bool
  focused : Bool

/-- `answerFoundEnd`. -/
def answerFoundEnd (e : FoundEnd) : WaitingAnswer :=
  if e.endReason = some .killed ∨ e.directProcess ∨ e.hold.isSome then .ask
  else if !e.settingKnown then .wait
  else
    match e.whenEnded with
    | .ask => .ask
    | _ => if e.inView && e.focused then .act else .wait

/-! ### A pane set to restart -/

/-- What is so when a terminal ends: of the terminal, of its window, and of its pane by the time the
end, if it was found, is answered. -/
structure Circumstances where
  directProcess : Bool
  writer : Bool
  endReason : Option ChannelEndReason
  settingKnown : Bool
  inView : Bool
  focused : Bool

/-- What happens to a pane. -/
inductive PaneEvent
  | starting (channelId : String)
  | attached (channelId : String) (now : ℚ)
  | lost
  | ended (channelId : String) (now : ℚ) (so : Circumstances)

/-- Whether the setting restarts a terminal that ended: as it reacts to the end, or as it answers
one that was found, the first time it is told. -/
def restarts (e : EndSeen) (so : Circumstances) : Bool :=
  let facts : EndFacts := ⟨e, so.directProcess, so.writer, so.endReason⟩
  match reactToEnd ⟨.restart, false⟩ facts with
  | .restart => true
  | .close _ => false
  | .overlay _ => e.seen = .found ∧ e.again = false ∧
      answerFoundEnd ⟨endHold facts, so.directProcess, so.endReason, .restart, so.settingKnown,
        so.inView, so.focused⟩ = .act

/-- What the pane hears or does, and whether it restarts the terminal. -/
def EndWatch.step (w : EndWatch) : PaneEvent → EndWatch × Bool
  | .starting c => (.starting c, false)
  | .attached c now => (w.attached c now, false)
  | .lost => (w.lost, false)
  | .ended c now so => (⟨none, none, some c⟩, restarts (w.ended c now) so)

/-- The watch after some events. -/
def EndWatch.run (w : EndWatch) (es : List PaneEvent) : EndWatch :=
  es.foldl (fun w e => (w.step e).1) w

/-- Events of one terminal, and no socket lost but after its end was told. -/
def Follows (c : String) : EndWatch → List PaneEvent → Prop
  | _, [] => True
  | w, e :: es =>
    (match e with
      | .starting d | .attached d _ | .ended d _ _ => d = c
      | .lost => w.toldId = some c) ∧ Follows c (w.step e).1 es

/-- What is restarted of an end that was seen. -/
theorem of_reactToEnd {prefs : EndedPrefs} {e : EndFacts} (h : reactToEnd prefs e = .restart) :
    e.endReason ≠ some .killed ∧ e.directProcess = false ∧
      e.seen = .live ∧ e.short = false ∧ e.writer = true := by
  unfold reactToEnd at h
  split at h
  · cases h
  · next hreason =>
    rw [not_or] at hreason
    split at h
    · split_ifs at h
    · cases h
    · cases h
    · cases h
    · next hseen _ =>
      split_ifs at h with hdirect hshort hwriter
      exact ⟨hreason.1, Bool.eq_false_iff.mpr hdirect, hseen, Bool.eq_false_iff.mpr hshort, hwriter⟩

/-- What is restarted of an end that was found. -/
theorem of_answerFoundEnd {e : FoundEnd} (h : answerFoundEnd e = .act) :
    e.endReason ≠ some .killed ∧ e.directProcess = false ∧ e.hold = none := by
  unfold answerFoundEnd at h
  split at h
  · cases h
  · next hnot =>
    simp only [not_or, Bool.not_eq_true, Option.isSome_eq_false_iff, Option.isNone_iff_eq_none]
      at hnot
    exact hnot

/-- What a pane restarts on its own. -/
theorem restarts_cases {e : EndSeen} {so : Circumstances} (h : restarts e so = true) :
    so.endReason ≠ some .killed ∧ so.directProcess = false ∧
      ((e.seen = .live ∧ e.short = false ∧ so.writer = true) ∨
        (e.seen = .found ∧ e.again = false ∧ (so.endReason = none → e.fromStart = false))) := by
  unfold restarts at h
  dsimp only at h
  split at h
  · next hreact =>
    obtain ⟨hreason, hdirect, hlive⟩ := of_reactToEnd hreact
    exact ⟨hreason, hdirect, .inl hlive⟩
  · cases h
  · obtain ⟨hfound, hfirst, hact⟩ := of_decide_eq_true h
    obtain ⟨hreason, hdirect, hhold⟩ := of_answerFoundEnd hact
    refine ⟨hreason, hdirect, .inr ⟨hfound, hfirst, fun hnone => ?_⟩⟩
    unfold endHold at hhold
    rw [hnone, hfound] at hhold
    simpa using hhold

/-- What a pane knows of a terminal whose end it was told, if it follows that one only. -/
def Told (c : String) (w : EndWatch) (es : List PaneEvent) : Prop :=
  (w.watching = none ∧ w.startingId = none ∧ w.toldId = some c) ∨
  (w.watching = none ∧ w.startingId = some c ∧ w.toldId = none) ∨
  ∃ pre now fromStart, es = pre ++ [.attached c now] ∧ w = ⟨some ⟨c, now, fromStart⟩, none, none⟩

/-- What the watch was told stays right over some events. -/
theorem told_run {c : String} {w : EndWatch} {es past : List PaneEvent} (h : Told c w past)
    (hes : Follows c w es) : Told c (w.run es) (past ++ es) := by
  induction es generalizing w past with
  | nil => exact (List.append_nil past).symm ▸ h
  | cons e es ih =>
    obtain ⟨he, hes⟩ := hes
    rw [List.append_cons]
    refine ih ?_ hes
    cases e with
    | starting d =>
      obtain rfl : d = c := he
      exact .inr (.inl ⟨rfl, rfl, rfl⟩)
    | attached d now =>
      obtain rfl : d = c := he
      exact .inr (.inr ⟨past, now, _, rfl, rfl⟩)
    | lost => exact .inl ⟨rfl, rfl, he⟩
    | ended d now so =>
      obtain rfl : d = c := he
      exact .inl ⟨rfl, rfl, rfl⟩

/-- **No restart loop.**  What is restarted was not killed, runs no command, and was this window's
to write to if its end was seen.  A terminal restarted twice, with no other terminal's events and no
lost socket in between, and the second time not stopped by the hub, was reached in between and
watched running for five seconds. -/
theorem no_restart_loop (w : EndWatch) (c : String) (t₁ : ℚ) (so₁ : Circumstances)
    (h₁ : (w.step (.ended c t₁ so₁)).2 = true) :
    (so₁.endReason ≠ some .killed ∧ so₁.directProcess = false ∧
      ((w.ended c t₁).seen = .live → so₁.writer = true)) ∧
    ∀ es t₂ so₂, Follows c (w.step (.ended c t₁ so₁)).1 es → so₂.endReason ≠ some .stopped →
      (((w.step (.ended c t₁ so₁)).1.run es).step (.ended c t₂ so₂)).2 = true →
        ∃ pre t₀, es = pre ++ [.attached c t₀] ∧ autoRestartMinRunMs ≤ t₂ - t₀ := by
  obtain ⟨hkilled, hdirect, hseen⟩ := restarts_cases h₁
  refine ⟨⟨hkilled, hdirect, fun hlive => ?_⟩, fun es t₂ so₂ hes hstopped h₂ => ?_⟩
  · obtain ⟨-, -, hwriter⟩ | ⟨hfound, -⟩ := hseen
    · exact hwriter
    · exact nomatch hlive.symm.trans hfound
  have htold : Told c _ ([] ++ es) := told_run (.inl ⟨rfl, rfl, rfl⟩) hes
  rw [List.nil_append] at htold
  obtain ⟨hkilled, -, hseen⟩ := restarts_cases h₂
  have hreason : so₂.endReason = none := by
    cases hreason : so₂.endReason with
    | none => rfl
    | some reason => cases reason <;> contradiction
  generalize (w.step (.ended c t₁ so₁)).1.run es = v at htold hseen
  unfold EndWatch.ended at hseen
  rcases htold with ⟨hwatching, -, htold⟩ | ⟨hwatching, hstarting, -⟩ | ⟨pre, t₀, fs, rfl, rfl⟩
  · simp [hwatching, htold] at hseen
  · simp [hwatching, hstarting, hreason] at hseen
  · rw [Option.filter_some, if_pos (decide_eq_true rfl)] at hseen
    obtain ⟨-, hshort, -⟩ | ⟨hfound, -⟩ := hseen
    · exact ⟨pre, t₀, rfl, by simpa [EndSeen.short] using hshort⟩
    · exact nomatch hfound

/-- A terminal watched for six seconds, twice. -/
theorem no_restart_loop_twice : ∃ pre t₀, [.starting "a", .attached "a" 7000] =
    pre ++ [PaneEvent.attached "a" t₀] ∧ autoRestartMinRunMs ≤ 13000 - t₀ :=
  (no_restart_loop (EndWatch.create.attached "a" 0) "a" 6000 ⟨false, true, none, true, true, true⟩
    (by decide +kernel)).2 _ 13000 ⟨false, true, none, true, true, true⟩
    ⟨rfl, rfl, trivial⟩ nofun (by decide +kernel)

/-- A terminal that was restarted and reached again ends while the socket is lost: its end is found,
and a found end is restarted however long it was watched. -/
theorem restarted_after_lost :
    let so : Circumstances := ⟨false, false, none, true, true, true⟩
    let first := EndWatch.create.step (.ended "a" 0 so)
    first.2 = true ∧
      ((first.1.run [.starting "a", .attached "a" 0, .lost]).step (.ended "a" 1 so)).2 = true := by
  decide +kernel

end Lasterm.Web.Ended
