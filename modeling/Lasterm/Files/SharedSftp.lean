import Mathlib.Data.Int.Notation
import Mathlib.Logic.Function.Basic
import Lasterm.Lib.Run

/-!
# The shared SFTP session of a connection

`SharedSftp` (`files/sftp-files.ts`) with `openSftp` (`session/ssh-file-transport.ts`): one
SFTP session per SSH connection, opened when first asked for, held open by a count of
users, and closed by a timer that starts when the last user lets go.  The callers come in
any order with what the server, the event loop and the timers do.

`current` asks for the session without holding it.  Where it opened one and nobody holds it
meanwhile, no timer was started: the session stays open, although it is to be closed once
nothing has used it for `idleMs`.

## Main definitions

* `State`, `next` — the sessions, each with the number of the attempt that opens it; the steps.
* `Covered` — a session that `current` opened is held before the last request ends.

## Main results

* `shared_session` — the count, the one session, the timer and, just if covered, the close.
* `left_open` — a session nobody closes.
-/

namespace Lasterm.Files.SharedSftp

open Transition List Option Function

/-! ### The state -/

/-- How far an attempt of `openSftp` has come. -/
inductive Stage
  | asked
  /-- The server gave it: the promise of `openSftp` is resolved. -/
  | opened
  /-- The `then` of `open` has run: it was made the session, and the promise `opening` is
  resolved. -/
  | assigned
  /-- The server refused: both promises are rejected. -/
  | failed
  deriving DecidableEq

/-- The promise `opening` of such an attempt is not settled. -/
def Stage.inFlight : Stage → Bool
  | .asked | .opened => true
  | .assigned | .failed => false

/-- The fields of the class, then what is under way around it. -/
structure State where
  session : Option ℕ
  opening : Option ℕ
  users : ℤ
  idle : Option ℕ
  lost : Bool
  /-- How many attempts were made, and how far each has come. -/
  attempts : ℕ
  stage : ℕ → Option Stage
  ended : ℕ → Bool
  told : ℕ → Bool
  /-- How many timers were started, and which are neither cleared nor fired. -/
  timers : ℕ
  pending : List ℕ
  /-- `released` of each hold taken, in order. -/
  holds : List Bool
  /-- The attempt that the `use` which took the hold waits for. -/
  waits : ℕ → Option ℕ
  /-- The requests under way that were begun with `current`, and what each waits for. -/
  requests : List (Option ℕ)

/-- A new connection. -/
def State.init : State where
  session := none
  opening := none
  users := 0
  idle := none
  lost := false
  attempts := 0
  stage := fun _ => none
  ended := fun _ => false
  told := fun _ => false
  timers := 0
  pending := []
  holds := []
  waits := fun _ => none
  requests := []

/-- Attempt `j` is under way. -/
def State.inFlight (s : State) (j : ℕ) : Bool := (s.stage j).any Stage.inFlight

/-- What waits for that attempt can go on. -/
def State.ready (s : State) (w : Option ℕ) : Bool := !w.any s.inFlight

/-- A hold was taken and not released. -/
def State.Held (s : State) : Prop := false ∈ s.holds

instance (s : State) : Decidable s.Held := inferInstanceAs (Decidable (_ ∈ _))

/-- A session is open: it has not ended, nor has the connection it is on. -/
def State.IsOpen (s : State) : Prop :=
  s.lost = false ∧ ∃ k ∈ s.session, s.ended k = false

instance (s : State) : Decidable s.IsOpen := inferInstanceAs (Decidable (_ ∧ _))

/-! ### The class -/

/-- `clearTimeout(this.idle)`. -/
def clearTimeout (s : State) : State :=
  { s with pending := s.pending.filter fun t => s.idle ≠ some t }

/-- `this.idle = setTimeout(() => this.close(), this.idleMs)`. -/
def setTimeout (s : State) : State :=
  { s with idle := some s.timers, timers := s.timers + 1, pending := s.timers :: s.pending }

/-- `hold`: the function it returns is that of the new hold. -/
def hold (s : State) : State :=
  let s := clearTimeout { s with users := s.users + 1 }
  { s with holds := s.holds ++ [false] }

/-- `released = true; this.users--`. -/
def letGo (s : State) (h : ℕ) : State :=
  { s with holds := s.holds.set h true, users := s.users - 1 }

/-- The function that hold `h` returned. -/
def release (s : State) (h : ℕ) : State :=
  if s.holds[h]? = some false then
    let s := letGo s h
    if s.users = 0 ∧ s.lost = false then setTimeout s else s
  else s

/-- What `open` returns: a settled promise, or the one of an attempt. -/
inductive Promised
  | rejected
  | session (k : ℕ)
  | opening (j : ℕ)

/-- The attempt it waits for. -/
def Promised.waits : Promised → Option ℕ
  | .rejected | .session _ => none
  | .opening j => some j

/-- `this.opening = openSftp(this.client)`, with the reactions `open` adds. -/
def ask (s : State) : State :=
  { s with
    opening := some s.attempts
    attempts := s.attempts + 1
    stage := update s.stage s.attempts (some .asked) }

/-- `open`. -/
def openSession (s : State) : State × Promised :=
  if s.lost then (s, .rejected)
  else
    match s.session.filter fun k => !s.ended k, s.opening with
    | some k, _ => (s, .session k)
    | none, some j => (s, .opening j)
    | none, none => (ask s, .opening s.attempts)

/-- `use`, as far as the session it waits for: its `finally` is the release of its hold. -/
def useSession (s : State) : State :=
  let h := s.holds.length
  let (s, promise) := openSession (hold s)
  { s with waits := update s.waits h promise.waits }

/-- `current`, and the request it is asked for. -/
def current (s : State) : State :=
  match openSession s with
  | (s, .rejected) => s
  | (s, promise) => { s with requests := s.requests ++ [promise.waits] }

/-- `close`: the session and the timer go. -/
def close (s : State) : State :=
  let s := clearTimeout s
  match s.session with
  | none => s
  | some k =>
    { s with
      session := none
      told := if s.ended k then s.told else update s.told k true }

/-! ### What happens -/

/-- A call, or something around the class. -/
inductive Event
  | hold
  | use
  /-- The function of hold `h` is called, by whoever took it: by `use` once it is done. -/
  | release (h : ℕ)
  | current
  /-- The `i`-th request under way that was begun with `current` ends. -/
  | done (i : ℕ)
  | close
  /-- The callback of `client.sftp`: with a channel, or with an error. -/
  | opened (j : ℕ)
  | failed (j : ℕ)
  /-- The `then` of `open` that makes the new session the current one. -/
  | assign (j : ℕ)
  | settle (j : ℕ)
  /-- The channel of session `k` ended or closed. -/
  | channelEnd (k : ℕ)
  /-- The reaction to `endedSignal` of session `k`. -/
  | forget (k : ℕ)
  | connectionLost
  /-- Timer `t` runs out. -/
  | fire (t : ℕ)

/-- One event, where it can happen. -/
def next (s : State) : Event → Option State
  | .hold => some (SharedSftp.hold s)
  | .use => some (useSession s)
  | .release h =>
    if h < s.holds.length ∧ s.ready (s.waits h) then some (SharedSftp.release s h) else none
  | .current => some (SharedSftp.current s)
  | .done i =>
    if (s.requests[i]?).any s.ready then some { s with requests := s.requests.eraseIdx i }
    else none
  | .close => some (SharedSftp.close s)
  | .opened j =>
    if s.stage j = some .asked then
      some { s with stage := update s.stage j (some .opened) }
    else none
  | .failed j =>
    if s.stage j = some .asked then
      some { s with stage := update s.stage j (some .failed) }
    else none
  | .assign j =>
    if s.stage j = some .opened then
      some { s with stage := update s.stage j (some .assigned), session := some j }
    else none
  | .settle j =>
    if s.stage j = some .assigned ∨ s.stage j = some .failed then
      some { s with opening := if s.opening = some j then none else s.opening }
    else none
  | .channelEnd k =>
    if s.stage k = some .opened ∨ s.stage k = some .assigned then
      some { s with ended := update s.ended k true }
    else none
  | .forget k =>
    if s.stage k = some .assigned ∧ s.ended k then
      some { s with session := if s.session = some k then none else s.session }
    else none
  | .connectionLost => some (SharedSftp.close { s with lost := true })
  | .fire t =>
    if t ∈ s.pending then some (SharedSftp.close { s with pending := s.pending.erase t })
    else none

/-! ### What is promised -/

/-- The count is that of the holds not yet released. -/
def Counted (s : State) : Prop := s.users = s.holds.count false

/-- `k` is being opened, or it was and has neither ended nor been told to. -/
def State.Alive (s : State) (k : ℕ) : Prop :=
  s.inFlight k = true ∨
    s.stage k = some .assigned ∧ s.ended k = false ∧ s.told k = false

/-- One session at most is open or being opened, and it is the current one. -/
def Single (s : State) : Prop :=
  ∀ k, s.Alive k → (∀ j, s.Alive j → j = k) ∧ (s.session = some k ∨ s.opening = some k)

/-- The timer fires only while nobody holds the session, which it closes. -/
def FiresUnheld (s : State) : Prop :=
  ∀ t s', next s (.fire t) = some s' →
    ¬ s.Held ∧ s'.session = none ∧ ∀ k ∈ s.session, s'.ended k = true ∨ s'.told k = true

/-- A session that is open with no hold and no request under way has its timer running. -/
def Timed (s : State) : Prop :=
  s.IsOpen → ¬ s.Held → s.requests = [] → ∃ t, s.idle = some t ∧ t ∈ s.pending

/-! ### Sessions that nobody holds -/

/-- Whether a session is open that nobody has held since it opened, and that opened with no hold
live and no timer of an earlier one to fire: after an event, from what was so before it. -/
def openedAlone (s : State) (alone : Bool) : Event → Bool
  | .assign j => !decide s.Held && s.pending.isEmpty && !s.lost && !s.ended j
  | .hold | .use | .close | .connectionLost | .fire _ => false
  | .channelEnd k => alone && s.session != some k
  | .release _ | .current | .done _ | .opened _ | .failed _ | .settle _ | .forget _ => alone

/-- One event, with that beside the state. -/
def watched (x : State × Bool) (a : Event) : Option (State × Bool) :=
  (next x.1 a).map fun s' => (s', openedAlone x.1 x.2 a)

/-- The last request that holds nothing ends only when the session it asked for was held since it
opened, or is to be closed by the timer of an earlier hold. -/
def Covered (x : State × Bool) : Event → Prop
  | .done _ => x.1.requests.length = 1 → x.2 = false
  | _ => True

instance (x : State × Bool) : DecidablePred (Covered x)
  | .done _ => inferInstanceAs (Decidable (_ → _))
  | .hold | .use | .release _ | .current | .close | .opened _ | .failed _ | .assign _
  | .settle _ | .channelEnd _ | .forget _ | .connectionLost | .fire _ => .isTrue trivial

/-! ### What each function does -/

variable {s s' : State}

theorem openSession_cases (s : State) :
    s.lost = true ∧ openSession s = (s, .rejected) ∨
    s.lost = false ∧ (∃ k, openSession s = (s, .session k)) ∨
    s.lost = false ∧ (∃ j, s.opening = some j ∧ openSession s = (s, .opening j)) ∨
    s.lost = false ∧ (∀ k ∈ s.session, s.ended k = true) ∧ s.opening = none ∧
      openSession s = (ask s, .opening s.attempts) := by
  unfold openSession
  cases hlost : s.lost with
  | true => exact .inl ⟨rfl, if_pos rfl⟩
  | false =>
    rw [if_neg Bool.false_ne_true]
    cases hk : s.session.filter fun k => !s.ended k with
    | some k => exact .inr (.inl ⟨rfl, k, rfl⟩)
    | none =>
      cases hj : s.opening with
      | some j => exact .inr (.inr (.inl ⟨rfl, j, rfl, rfl⟩))
      | none =>
        refine .inr (.inr (.inr ⟨rfl, fun k hs => ?_, rfl, rfl⟩))
        have hended := filter_eq_none_iff.mp hk k hs
        simpa using hended

theorem openSession_frame (s : State) :
    (openSession s).1 = s ∨ (openSession s).1 = ask s := by
  obtain ⟨-, h⟩ | ⟨-, k, h⟩ | ⟨-, j, -, h⟩ | ⟨-, -, -, h⟩ := openSession_cases s
  · exact .inl (by rw [h])
  · exact .inl (by rw [h])
  · exact .inl (by rw [h])
  · exact .inr (by rw [h])

theorem close_eq (s : State) :
    ∃ told, (∀ k ∈ s.session, s.ended k = true ∨ told k = true) ∧
      (∀ k, s.told k = true → told k = true) ∧
      close s = { clearTimeout s with session := none, told := told } := by
  unfold close
  cases hs : s.session with
  | none => exact ⟨s.told, nofun, fun _ => id, by simp only [clearTimeout, hs]⟩
  | some k =>
    refine ⟨if s.ended k then s.told else update s.told k true, ?_, ?_, ?_⟩
    · rintro _ ⟨⟩
      cases hk : s.ended k with
      | true => exact .inl rfl
      | false => exact .inr (by simp)
    · intro i hi
      by_cases hk : i = k <;> split <;> simp [hi, hk, update]
      exact hk ▸ hi
    · simp only [clearTimeout, hs]

theorem release_cases (s : State) (h : ℕ) :
    release s h = s ∨
    s.holds[h]? = some false ∧
      ((letGo s h).users = 0 ∧ s.lost = false ∧ release s h = setTimeout (letGo s h) ∨
        ((letGo s h).users ≠ 0 ∨ s.lost = true) ∧ release s h = letGo s h) := by
  unfold release
  by_cases hh : s.holds[h]? = some false
  · refine .inr ⟨hh, ?_⟩
    rw [if_pos hh]
    by_cases hu : (letGo s h).users = 0 ∧ (letGo s h).lost = false
    · exact .inl ⟨hu.1, hu.2, if_pos hu⟩
    · refine .inr ⟨?_, if_neg hu⟩
      by_cases h0 : (letGo s h).users = 0
      · exact .inr (by simpa [letGo] using fun hl => hu ⟨h0, hl⟩)
      · exact .inl h0
  · exact .inl (if_neg hh)

/-! ### The count and the timer -/

/-- What holds of the count and the timer in every state. -/
structure Books (s : State) : Prop where
  counted : Counted s
  idle : ∀ t ∈ s.pending, s.idle = some t
  free : s.pending ≠ [] → ¬ s.Held

theorem Counted.zero_iff (h : Counted s) : s.users = 0 ↔ ¬ s.Held := by
  rw [h, Int.natCast_eq_zero, count_eq_zero, State.Held]

theorem Books.cleared (h : Books s) : (clearTimeout s).pending = [] := by
  refine filter_eq_nil_iff.mpr fun t ht => ?_
  simp [h.idle t ht]

theorem Books.hold_pending (h : Books s) : (hold s).pending = [] := h.cleared

theorem Books.close_pending (h : Books s) : (close s).pending = [] := by
  obtain ⟨told, -, -, heq⟩ := close_eq s
  rw [heq]
  exact h.cleared

theorem Books.of_cleared (hcounted : Counted s) (hpending : s.pending = []) : Books s where
  counted := hcounted
  idle := by simp [hpending]
  free := fun hne => absurd hpending hne

theorem Books.hold (h : Books s) : Books (hold s) := by
  refine .of_cleared ?_ h.hold_pending
  have hcounted : s.users = s.holds.count false := h.counted
  simp [Counted, SharedSftp.hold, clearTimeout, hcounted]

theorem Books.close (h : Books s) : Books (close s) := by
  refine .of_cleared ?_ h.close_pending
  obtain ⟨told, -, -, heq⟩ := close_eq s
  rw [heq]
  exact h.counted

theorem letGo_counted {h : ℕ} (hs : Counted s) (hh : s.holds[h]? = some false) :
    Counted (letGo s h) := by
  obtain ⟨hlt, hget⟩ := List.getElem?_eq_some_iff.mp hh
  have hcounted : s.users = s.holds.count false := hs
  have hpos : 0 < s.holds.count false := count_pos_iff.mpr (mem_of_getElem? hh)
  have hset : (s.holds.set h true).count false = s.holds.count false - 1 := by
    simp [count_set hlt, hget]
  change s.users - 1 = ((s.holds.set h true).count false : ℕ)
  rw [hset, hcounted]
  omega

theorem Books.release (hs : Books s) (h : ℕ) : Books (release s h) := by
  obtain heq | ⟨hh, ⟨hzero, -, heq⟩ | ⟨-, heq⟩⟩ := release_cases s h
  · rwa [heq]
  all_goals
    have hcounted : Counted (letGo s h) := letGo_counted hs.counted hh
    -- the released hold was live, so no timer was running
    have hpending : s.pending = [] := by
      by_contra hne
      exact hs.free hne (mem_of_getElem? hh)
  · rw [heq]
    refine ⟨hcounted, ?_, fun _ => hcounted.zero_iff.mp hzero⟩
    intro t ht
    have ht' : t = s.timers := by simpa [setTimeout, letGo, hpending] using ht
    rw [ht']
    rfl
  · rw [heq]
    exact .of_cleared hcounted hpending

theorem Books.openSession (h : Books s) : Books (openSession s).1 := by
  obtain heq | heq := openSession_frame s
  · rwa [heq]
  · rw [heq]
    exact ⟨h.counted, h.idle, h.free⟩

theorem Books.current (h : Books s) : Books (current s) := by
  have ho : Books (SharedSftp.openSession s).1 := h.openSession
  unfold SharedSftp.current
  split
  next heq => rwa [heq] at ho
  next heq =>
    rw [heq] at ho
    exact ⟨ho.counted, ho.idle, ho.free⟩

theorem Books.useSession (h : Books s) : Books (useSession s) :=
  ⟨h.hold.openSession.counted, h.hold.openSession.idle, h.hold.openSession.free⟩

theorem Books.erase (h : Books s) (t : ℕ) : Books { s with pending := s.pending.erase t } where
  counted := h.counted
  idle := fun x hx => h.idle x (mem_of_mem_erase hx)
  free := fun hne => h.free fun hnil => hne (by simp [hnil])

variable {a : Event}

theorem Books.next (hs : Books s) (h : next s a = some s') : Books s' := by
  cases a with
  | hold => cases h; exact hs.hold
  | use => cases h; exact hs.useSession
  | release i =>
    obtain ⟨-, ⟨⟩⟩ := ite_none_right_eq_some.mp h
    exact hs.release i
  | current => cases h; exact hs.current
  | close => cases h; exact hs.close
  | connectionLost =>
    cases h
    exact Books.close ⟨hs.counted, hs.idle, hs.free⟩
  | fire t =>
    obtain ⟨-, ⟨⟩⟩ := ite_none_right_eq_some.mp h
    exact (hs.erase t).close
  | done _ | opened _ | failed _ | assign _ | settle _ | channelEnd _ | forget _ =>
    obtain ⟨-, ⟨⟩⟩ := ite_none_right_eq_some.mp h
    exact ⟨hs.counted, hs.idle, hs.free⟩

theorem Books.init : Books .init := .of_cleared rfl rfl

theorem Books.firesUnheld (hs : Books s) : FiresUnheld s := by
  intro t s' h
  obtain ⟨ht, heq⟩ := ite_none_right_eq_some.mp h
  refine ⟨hs.free (ne_nil_of_mem ht), ?_⟩
  obtain ⟨told, htold, -, hclose⟩ := close_eq { s with pending := s.pending.erase t }
  rw [hclose] at heq
  cases heq
  exact ⟨rfl, htold⟩

/-! ### The sessions -/

/-- What holds of the sessions in every state. -/
structure Channels (s : State) : Prop where
  fresh : ∀ j, s.attempts ≤ j → s.stage j = none
  opening : ∀ j, s.inFlight j = true →
    s.opening = some j ∧ ∀ k ∈ s.session, s.ended k = true
  session : ∀ k, s.stage k = some .assigned → s.ended k = false → s.told k = false →
    s.session = some k

section

variable (hs : Channels s)
include hs

theorem Channels.single : Single s := by
  intro k hk
  have hcurrent : s.session = some k ∨ s.opening = some k := by
    obtain hk | ⟨hk, hended, htold⟩ := hk
    · exact .inr (hs.opening k hk).1
    · exact .inl (hs.session k hk hended htold)
  refine ⟨fun j hj => ?_, hcurrent⟩
  obtain hk | ⟨hk, hkended, hktold⟩ := hk <;> obtain hj | ⟨hj, hjended, hjtold⟩ := hj
  · exact some.inj ((hs.opening j hj).1.symm.trans (hs.opening k hk).1)
  · have hended := (hs.opening k hk).2 j (hs.session j hj hjended hjtold)
    exact absurd hended (by simp [hjended])
  · have hended := (hs.opening j hj).2 k (hs.session k hk hkended hktold)
    exact absurd hended (by simp [hkended])
  · exact some.inj ((hs.session j hj hjended hjtold).symm.trans
      (hs.session k hk hkended hktold))

theorem Channels.ask (hended : ∀ k ∈ s.session, s.ended k = true)
    (hopening : s.opening = none) : Channels (ask s) where
  fresh := fun j hj => by
    have hne : j ≠ s.attempts := Nat.ne_of_gt hj
    simpa [SharedSftp.ask, hne] using hs.fresh j (Nat.le_of_succ_le hj)
  opening := fun j hj => by
    by_cases hne : j = s.attempts
    · exact ⟨congrArg some hne.symm, hended⟩
    · have hj' : s.inFlight j = true := by
        simpa [State.inFlight, SharedSftp.ask, hne] using hj
      have hcontra := (hs.opening j hj').1
      rw [hopening] at hcontra
      cases hcontra
  session := fun k hk he ht => by
    by_cases hne : k = s.attempts
    · simp [SharedSftp.ask, hne] at hk
    · exact hs.session k (by simpa [SharedSftp.ask, hne] using hk) he ht

theorem Channels.openSession : Channels (openSession s).1 := by
  obtain ⟨-, h⟩ | ⟨-, k, h⟩ | ⟨-, j, -, h⟩ | ⟨-, hended, hopening, h⟩ := openSession_cases s
  · rwa [h]
  · rwa [h]
  · rwa [h]
  · rw [h]
    exact hs.ask hended hopening

theorem Channels.current : Channels (current s) := by
  have ho : Channels (SharedSftp.openSession s).1 := hs.openSession
  unfold SharedSftp.current
  split
  next heq => rwa [heq] at ho
  next heq =>
    rw [heq] at ho
    exact ⟨ho.fresh, ho.opening, ho.session⟩

theorem Channels.useSession : Channels (useSession s) := by
  have hhold : Channels (hold s) := ⟨hs.fresh, hs.opening, hs.session⟩
  exact ⟨hhold.openSession.fresh, hhold.openSession.opening, hhold.openSession.session⟩

theorem Channels.close : Channels (close s) := by
  obtain ⟨told, htold, hmono, heq⟩ := close_eq s
  rw [heq]
  refine ⟨hs.fresh, fun j hj => ⟨(hs.opening j hj).1, nofun⟩, fun k hk he ht => ?_⟩
  have hnot : s.told k = false :=
    Bool.eq_false_iff.mpr fun h => absurd ((hmono k h).symm.trans ht) nofun
  -- it was the session, so it had ended or was told to end
  obtain hended | htold := htold k (hs.session k hk he hnot)
  · exact absurd (hended.symm.trans he) nofun
  · exact absurd (htold.symm.trans ht) nofun

theorem Channels.release (h : ℕ) : Channels (release s h) := by
  obtain heq | ⟨-, ⟨-, -, heq⟩ | ⟨-, heq⟩⟩ := release_cases s h <;> rw [heq]
  · exact hs
  · exact ⟨hs.fresh, hs.opening, hs.session⟩
  · exact ⟨hs.fresh, hs.opening, hs.session⟩

end

theorem inFlight_update (stage : ℕ → Option Stage) (j i : ℕ) (x : Stage) :
    (update stage j (some x) i).any Stage.inFlight =
      if i = j then x.inFlight else (stage i).any Stage.inFlight := by
  by_cases hi : i = j <;> simp [hi]

variable {j : ℕ}

theorem Channels.answered {x : Stage} (hs : Channels s) (hj : s.stage j = some .asked)
    (hx : x ≠ .assigned) :
    Channels { s with stage := update s.stage j (some x) } where
  fresh := fun i hi => by
    have hne : i ≠ j := by
      rintro rfl
      rw [hs.fresh i hi] at hj
      cases hj
    simpa [hne] using hs.fresh i hi
  opening := fun i hi => hs.opening i (by
    rw [State.inFlight, inFlight_update] at hi
    by_cases hij : i = j
    · rw [hij, State.inFlight, hj]
      rfl
    · rwa [if_neg hij] at hi)
  session := fun k hk => hs.session k (by
    by_cases hkj : k = j
    · simp [hkj, hx] at hk
    · simpa [hkj] using hk)

theorem Channels.assign (hs : Channels s) (hj : s.stage j = some .opened) :
    Channels { s with
      stage := update s.stage j (some .assigned), session := some j } where
  fresh := fun i hi => by
    have hne : i ≠ j := by
      rintro rfl
      rw [hs.fresh i hi] at hj
      cases hj
    simpa [hne] using hs.fresh i hi
  opening := fun i hi => by
    have hflight : s.inFlight j = true := by rw [State.inFlight, hj]; rfl
    rw [State.inFlight, inFlight_update] at hi
    by_cases hij : i = j
    · simp [hij, Stage.inFlight] at hi
    · rw [if_neg hij] at hi
      -- the attempt that was current is the one assigned
      have heq := (hs.opening i hi).1.symm.trans (hs.opening j hflight).1
      exact absurd (some.inj heq) hij
  session := fun k hk he ht => by
    have hflight : s.inFlight j = true := by rw [State.inFlight, hj]; rfl
    by_cases hkj : k = j
    · rw [hkj]
    · have hk' : s.stage k = some .assigned := by simpa [hkj] using hk
      have hended := (hs.opening j hflight).2 k (hs.session k hk' he ht)
      exact absurd (hended.symm.trans he) nofun

theorem Channels.settle (hs : Channels s) (hj : s.inFlight j = false) :
    Channels { s with opening := if s.opening = some j then none else s.opening } where
  fresh := hs.fresh
  opening := fun i hi => by
    obtain ⟨hopening, hended⟩ := hs.opening i hi
    have hne : i ≠ j := by
      rintro rfl
      exact absurd (hi.symm.trans hj) nofun
    refine ⟨?_, hended⟩
    rw [if_neg]
    · exact hopening
    · rw [hopening]
      exact fun h => hne (some.inj h)
  session := hs.session

theorem Channels.ends (hs : Channels s) (k : ℕ) :
    Channels { s with ended := update s.ended k true } where
  fresh := hs.fresh
  opening := fun i hi => by
    refine ⟨(hs.opening i hi).1, fun j hj => ?_⟩
    by_cases hjk : j = k
    · simp [hjk]
    · simpa [hjk] using (hs.opening i hi).2 j hj
  session := fun i hi he => hs.session i hi (by
    by_cases hik : i = k
    · simp [hik] at he
    · simpa [hik] using he)

theorem Channels.forget {k : ℕ} (hs : Channels s) (hk : s.ended k = true) :
    Channels { s with session := if s.session = some k then none else s.session } where
  fresh := hs.fresh
  opening := fun i hi => by
    refine ⟨(hs.opening i hi).1, fun j hj => (hs.opening i hi).2 j ?_⟩
    by_cases hsk : s.session = some k
    · simp [hsk] at hj
    · simpa [hsk] using hj
  session := fun i hi he ht => by
    have hsession := hs.session i hi he ht
    rw [if_neg, hsession]
    rw [hsession]
    rintro ⟨⟩
    exact absurd (hk.symm.trans he) nofun

theorem inFlight_of_settled (h : s.stage j = some .assigned ∨ s.stage j = some .failed) :
    s.inFlight j = false := by
  obtain h | h := h <;> rw [State.inFlight, h] <;> rfl

theorem Channels.next (hs : Channels s) (h : next s a = some s') : Channels s' := by
  cases a with
  | hold => cases h; exact ⟨hs.fresh, hs.opening, hs.session⟩
  | use => cases h; exact hs.useSession
  | release i =>
    obtain ⟨-, ⟨⟩⟩ := ite_none_right_eq_some.mp h
    exact hs.release i
  | current => cases h; exact hs.current
  | done i =>
    obtain ⟨-, ⟨⟩⟩ := ite_none_right_eq_some.mp h
    exact ⟨hs.fresh, hs.opening, hs.session⟩
  | close => cases h; exact hs.close
  | opened | failed =>
    obtain ⟨hj, ⟨⟩⟩ := ite_none_right_eq_some.mp h
    exact hs.answered hj nofun
  | assign j =>
    obtain ⟨hj, ⟨⟩⟩ := ite_none_right_eq_some.mp h
    exact hs.assign hj
  | settle j =>
    obtain ⟨hj, ⟨⟩⟩ := ite_none_right_eq_some.mp h
    exact hs.settle (inFlight_of_settled hj)
  | channelEnd k =>
    obtain ⟨-, ⟨⟩⟩ := ite_none_right_eq_some.mp h
    exact hs.ends k
  | forget k =>
    obtain ⟨hk, ⟨⟩⟩ := ite_none_right_eq_some.mp h
    exact hs.forget hk.2
  | connectionLost =>
    cases h
    exact Channels.close ⟨hs.fresh, hs.opening, hs.session⟩
  | fire t =>
    obtain ⟨-, ⟨⟩⟩ := ite_none_right_eq_some.mp h
    exact Channels.close ⟨hs.fresh, hs.opening, hs.session⟩

theorem Channels.init : Channels .init where
  fresh := fun _ _ => rfl
  opening := nofun
  session := nofun

/-! ### Who waits for an attempt -/

/-- A live hold or a request under way waits for attempt `j`. -/
def Waiting (s : State) (j : ℕ) : Prop :=
  (∃ h, s.holds[h]? = some false ∧ s.waits h = some j) ∨ some j ∈ s.requests

/-- Each attempt under way is waited for. -/
def Waited (s : State) : Prop := ∀ j, s.inFlight j = true → Waiting s j

theorem Waiting.held_or (h : Waiting s j) : s.Held ∨ s.requests ≠ [] := by
  obtain ⟨i, hi, -⟩ | hr := h
  · exact .inl (mem_of_getElem? hi)
  · exact .inr (ne_nil_of_mem hr)

theorem openSession_inFlight (h : (openSession s).1.inFlight j = true) :
    s.inFlight j = true ∨ (openSession s).2.waits = some j := by
  obtain ⟨-, heq⟩ | ⟨-, k, heq⟩ | ⟨-, i, -, heq⟩ | ⟨-, -, -, heq⟩ := openSession_cases s <;>
    rw [heq] at h ⊢
  · exact .inl h
  · exact .inl h
  · exact .inl h
  · by_cases hj : j = s.attempts
    · exact .inr (congrArg some hj.symm)
    · exact .inl (by simpa [State.inFlight, ask, hj] using h)

theorem openSession_callers (s : State) :
    (openSession s).1.holds = s.holds ∧ (openSession s).1.waits = s.waits ∧
      (openSession s).1.requests = s.requests := by
  obtain heq | heq := openSession_frame s <;> rw [heq] <;> exact ⟨rfl, rfl, rfl⟩

theorem Waited.of_frame (hs : Waited s) (hholds : s'.holds = s.holds)
    (hwaits : s'.waits = s.waits) (hrequests : s'.requests = s.requests)
    (hflight : ∀ j, s'.inFlight j = true → s.inFlight j = true) : Waited s' := by
  intro j hj
  have hw := hs j (hflight j hj)
  rwa [Waiting, ← hholds, ← hwaits, ← hrequests] at hw

theorem Waited.hold (hs : Waited s) : Waited (hold s) := by
  intro j hj
  obtain ⟨h, hh, hw⟩ | hr := hs j hj
  · refine .inl ⟨h, ?_, hw⟩
    have hlt : h < s.holds.length := (List.getElem?_eq_some_iff.mp hh).1
    exact (getElem?_append_left hlt).trans hh
  · exact .inr hr

theorem Waited.useSession (hs : Waited s) : Waited (useSession s) := by
  obtain ⟨hholds, hwaits, hrequests⟩ := openSession_callers (SharedSftp.hold s)
  intro j hj
  obtain hj | hj := openSession_inFlight (s := SharedSftp.hold s) hj
  · obtain ⟨h, hh, hw⟩ | hr := hs j hj
    · have hlt : h < s.holds.length := (List.getElem?_eq_some_iff.mp hh).1
      refine .inl ⟨h, ?_, ?_⟩
      · refine (congrArg (·[h]?) hholds).trans ?_
        exact (getElem?_append_left hlt).trans hh
      · change update (SharedSftp.openSession (SharedSftp.hold s)).1.waits
          s.holds.length _ h = _
        rw [update_of_ne (Nat.ne_of_lt hlt), hwaits]
        exact hw
    · exact .inr (hrequests.symm ▸ hr)
  · refine .inl ⟨s.holds.length, ?_, ?_⟩
    · refine (congrArg (·[s.holds.length]?) hholds).trans ?_
      exact getElem?_concat_length
    · change update (SharedSftp.openSession (SharedSftp.hold s)).1.waits
        s.holds.length _ s.holds.length = _
      rw [update_self]
      exact hj

theorem Waited.current (hs : Waited s) : Waited (current s) := by
  obtain ⟨hholds, hwaits, hrequests⟩ := openSession_callers s
  intro j hj
  have hflight : (SharedSftp.openSession s).1.inFlight j = true := by
    unfold SharedSftp.current at hj
    split at hj <;> rename_i heq <;> rw [heq] <;> exact hj
  obtain hj' | hj' := openSession_inFlight hflight
  · have hw := hs j hj'
    rw [Waiting, ← hholds, ← hwaits, ← hrequests] at hw
    unfold SharedSftp.current
    split
    next heq => rwa [heq] at hw
    next heq =>
      rw [heq] at hw
      exact hw.imp id fun hr => mem_append_left _ hr
  · unfold SharedSftp.current
    split
    next heq =>
      rw [heq] at hj'
      cases hj'
    next heq =>
      rw [heq] at hj'
      exact .inr (mem_append_right _ (mem_singleton.mpr hj'.symm))

/-- A hold is released only when what its `use` waits for has come. -/
theorem Waited.release {h : ℕ} (hs : Waited s) (hready : s.ready (s.waits h) = true) :
    Waited (release s h) := by
  have key : ∀ j, s.inFlight j = true → Waiting (letGo s h) j := by
    intro j hj
    obtain ⟨i, hi, hw⟩ | hr := hs j hj
    · refine .inl ⟨i, ?_, hw⟩
      have hne : h ≠ i := by
        rintro rfl
        simp [State.ready, hw, hj] at hready
      exact (getElem?_set_ne hne).trans hi
    · exact .inr hr
  obtain heq | ⟨-, ⟨-, -, heq⟩ | ⟨-, heq⟩⟩ := release_cases s h <;> rw [heq]
  · exact hs
  · exact key
  · exact key

theorem Waited.done {i : ℕ} (hs : Waited s) (hready : (s.requests[i]?).any s.ready = true) :
    Waited { s with requests := s.requests.eraseIdx i } := by
  intro j hj
  obtain hh | hr := hs j hj
  · exact .inl hh
  · refine .inr ((mem_eraseIdx_iff_getElem?).mpr ?_)
    obtain ⟨n, hn⟩ := mem_iff_getElem?.mp hr
    refine ⟨n, fun hni => ?_, hn⟩
    rw [← hni, hn] at hready
    have hj' : s.inFlight j = true := hj
    simp [State.ready, hj'] at hready

theorem Waited.close (hs : Waited s) : Waited (close s) := by
  obtain ⟨told, -, -, heq⟩ := close_eq s
  rw [heq]
  exact hs

theorem Waited.moved {x : Stage} (hs : Waited s) (hj : s.inFlight j = true) :
    Waited { s with stage := update s.stage j (some x) } := by
  refine hs.of_frame rfl rfl rfl fun i hi => ?_
  rw [State.inFlight, inFlight_update] at hi
  by_cases hij : i = j
  · rw [hij, hj]
  · rwa [if_neg hij] at hi

theorem Waited.next (hs : Waited s) (h : next s a = some s') : Waited s' := by
  cases a with
  | hold => cases h; exact hs.hold
  | use => cases h; exact hs.useSession
  | release i =>
    obtain ⟨⟨-, hready⟩, ⟨⟩⟩ := ite_none_right_eq_some.mp h
    exact hs.release hready
  | current => cases h; exact hs.current
  | done i =>
    obtain ⟨hready, ⟨⟩⟩ := ite_none_right_eq_some.mp h
    exact hs.done hready
  | close => cases h; exact hs.close
  | opened | failed | assign =>
    obtain ⟨hj, ⟨⟩⟩ := ite_none_right_eq_some.mp h
    exact hs.moved (by rw [State.inFlight, hj]; rfl)
  | settle _ | channelEnd _ | forget _ =>
    obtain ⟨-, ⟨⟩⟩ := ite_none_right_eq_some.mp h
    exact hs
  | connectionLost =>
    cases h
    exact Waited.close hs
  | fire t =>
    obtain ⟨-, ⟨⟩⟩ := ite_none_right_eq_some.mp h
    exact Waited.close hs

theorem Waited.init : Waited .init := nofun

/-! ### The timer of an unused session -/

theorem close_not_isOpen (s : State) : ¬ (close s).IsOpen := by
  obtain ⟨told, -, -, heq⟩ := close_eq s
  rintro ⟨-, k, hk, -⟩
  rw [heq] at hk
  cases hk

theorem held_hold (s : State) : (hold s).Held := by simp [State.Held, hold, clearTimeout]

theorem held_useSession (s : State) : (useSession s).Held := by
  have hholds : (useSession s).holds = (hold s).holds := (openSession_callers (hold s)).1
  have hheld : (hold s).Held := held_hold s
  rwa [State.Held, ← hholds] at hheld

/-- The request that leaves none under way was the only one. -/
theorem eraseIdx_eq_nil_iff_last {i : ℕ} (hready : (s.requests[i]?).any s.ready = true) :
    s.requests.eraseIdx i = [] ↔ s.requests.length = 1 := by
  have hlt : i < s.requests.length := by
    by_contra hge
    simp [getElem?_eq_none (Nat.le_of_not_lt hge)] at hready
  rw [← length_eq_zero_iff, length_eraseIdx_of_lt hlt]
  omega

theorem Timed.release (hb : Books s) (ht : Timed s) (h : ℕ) : Timed (release s h) := by
  obtain heq | ⟨hh, ⟨-, -, heq⟩ | ⟨hor, heq⟩⟩ := release_cases s h <;> rw [heq]
  · exact ht
  · exact fun _ _ _ => ⟨s.timers, rfl, mem_cons_self⟩
  · intro hopen hheld _
    obtain hne | hlost := hor
    · exact absurd ((letGo_counted hb.counted hh).zero_iff.mpr hheld) hne
    · exact absurd (hlost.symm.trans hopen.1) nofun

theorem Timed.current (ht : Timed s) : Timed (current s) := by
  unfold SharedSftp.current
  obtain ⟨-, h⟩ | ⟨-, k, h⟩ | ⟨-, j, -, h⟩ | ⟨-, -, -, h⟩ := openSession_cases s <;> rw [h]
  · exact ht
  all_goals exact fun _ _ hnil => absurd hnil (by simp)

theorem Timed.done {i : ℕ} (hb : Books s)
    (hc : s.requests.length = 1 → s.IsOpen → ¬s.Held → s.pending ≠ [])
    (h : SharedSftp.next s (.done i) = some s') : Timed s' := by
  obtain ⟨hready, ⟨⟩⟩ := ite_none_right_eq_some.mp h
  intro hopen hheld hnil
  have hlast : s.requests.length = 1 := (eraseIdx_eq_nil_iff_last hready).mp hnil
  obtain ⟨t, hmem⟩ := exists_mem_of_ne_nil _ (hc hlast hopen hheld)
  exact ⟨t, hb.idle t hmem, hmem⟩

theorem Timed.next (hb : Books s) (hw : Waited s) (ht : Timed s)
    (hc : ∀ i, a = .done i → s.requests.length = 1 → s.IsOpen → ¬s.Held → s.pending ≠ [])
    (h : next s a = some s') : Timed s' := by
  cases a with
  | hold => cases h; exact fun _ hheld => absurd (held_hold s) hheld
  | use => cases h; exact fun _ hheld => absurd (held_useSession s) hheld
  | release i =>
    obtain ⟨-, ⟨⟩⟩ := ite_none_right_eq_some.mp h
    exact ht.release hb i
  | current => cases h; exact ht.current
  | done i => exact Timed.done hb (hc i rfl) h
  | close => cases h; exact fun hopen => absurd hopen (close_not_isOpen s)
  | opened _ | failed _ | settle _ =>
    obtain ⟨-, ⟨⟩⟩ := ite_none_right_eq_some.mp h
    exact ht
  | assign j =>
    obtain ⟨hj, ⟨⟩⟩ := ite_none_right_eq_some.mp h
    -- whoever waits for the attempt holds the session, or is a request under way
    have hwaiting : Waiting s j := hw j (by rw [State.inFlight, hj]; rfl)
    intro _ hheld hnil
    obtain hheld' | hne := hwaiting.held_or
    · exact absurd hheld' hheld
    · exact absurd hnil hne
  | channelEnd k =>
    obtain ⟨-, ⟨⟩⟩ := ite_none_right_eq_some.mp h
    rintro ⟨hlost, j, hj, hended⟩
    refine ht ⟨hlost, j, hj, ?_⟩
    by_cases hjk : j = k
    · simp [hjk] at hended
    · simpa [hjk] using hended
  | forget k =>
    obtain ⟨-, ⟨⟩⟩ := ite_none_right_eq_some.mp h
    rintro ⟨hlost, j, hj, hended⟩
    refine ht ⟨hlost, j, ?_, hended⟩
    by_cases hsk : s.session = some k
    · simp [hsk] at hj
    · simpa [hsk] using hj
  | connectionLost => cases h; exact fun hopen => absurd hopen (close_not_isOpen _)
  | fire t =>
    obtain ⟨-, ⟨⟩⟩ := ite_none_right_eq_some.mp h
    exact fun hopen => absurd hopen (close_not_isOpen _)

/-- A session is open that nobody holds and no timer will close. -/
def Bare (s : State) : Prop := s.IsOpen ∧ ¬s.Held ∧ s.pending = []

theorem Bare.of_same (hlost : s'.lost = s.lost) (hsession : s'.session = s.session)
    (hended : s'.ended = s.ended) (hholds : s'.holds = s.holds)
    (hpending : s'.pending = s.pending) : Bare s' ↔ Bare s := by
  simp only [Bare, State.IsOpen, State.Held, hlost, hsession, hended, hholds, hpending]

theorem Bare.current : Bare (current s) ↔ Bare s := by
  unfold SharedSftp.current
  obtain ⟨-, h⟩ | ⟨-, k, h⟩ | ⟨-, j, -, h⟩ | ⟨-, -, -, h⟩ := openSession_cases s <;> rw [h] <;>
    exact Bare.of_same rfl rfl rfl rfl rfl

theorem Bare.release (hb : Books s) (h : ℕ) : Bare (release s h) ↔ Bare s := by
  obtain heq | ⟨hh, hor⟩ := release_cases s h
  · rw [heq]
  · -- The hold was live, and the session is held still, or its timer runs.
    refine iff_of_false ?_ fun hbare => hbare.2.1 (mem_of_getElem? hh)
    obtain ⟨-, -, heq⟩ | ⟨hor, heq⟩ := hor <;> rw [heq]
    · exact fun hbare => absurd hbare.2.2 (cons_ne_nil _ _)
    · rintro ⟨hopen, hheld, -⟩
      obtain hne | hlost := hor
      · exact hne ((letGo_counted hb.counted hh).zero_iff.mpr hheld)
      · exact absurd (hlost.symm.trans hopen.1) (by decide)

/-- What is kept beside the state says what it is to say. -/
theorem openedAlone_iff {alone : Bool} (hb : Books s) (hx : alone = true ↔ Bare s)
    (h : next s a = some s') : openedAlone s alone a = true ↔ Bare s' := by
  have hnone : ¬Bare s' → (false = true ↔ Bare s') := iff_of_false Bool.false_ne_true
  cases a with
  | hold => cases h; exact hnone fun hbare => hbare.2.1 (held_hold s)
  | use => cases h; exact hnone fun hbare => hbare.2.1 (held_useSession s)
  | release i =>
    obtain ⟨-, ⟨⟩⟩ := ite_none_right_eq_some.mp h
    exact hx.trans (Bare.release hb i).symm
  | current => cases h; exact hx.trans Bare.current.symm
  | close | connectionLost => cases h; exact hnone fun hbare => close_not_isOpen _ hbare.1
  | fire t =>
    obtain ⟨-, ⟨⟩⟩ := ite_none_right_eq_some.mp h
    exact hnone fun hbare => close_not_isOpen _ hbare.1
  | done _ | opened _ | failed _ | settle _ =>
    obtain ⟨-, ⟨⟩⟩ := ite_none_right_eq_some.mp h
    exact hx.trans (Bare.of_same rfl rfl rfl rfl rfl).symm
  | assign j =>
    obtain ⟨-, ⟨⟩⟩ := ite_none_right_eq_some.mp h
    simp only [openedAlone, Bare, State.IsOpen, Bool.and_eq_true, Bool.not_eq_true',
      decide_eq_false_iff_not, List.isEmpty_iff, mem_def, some.injEq, exists_eq_left']
    constructor
    · rintro ⟨⟨⟨hheld, hpending⟩, hlost⟩, hended⟩
      exact ⟨⟨hlost, hended⟩, hheld, hpending⟩
    · rintro ⟨⟨hlost, hended⟩, hheld, hpending⟩
      exact ⟨⟨⟨hheld, hpending⟩, hlost⟩, hended⟩
  | channelEnd k =>
    obtain ⟨-, ⟨⟩⟩ := ite_none_right_eq_some.mp h
    rw [openedAlone, Bool.and_eq_true, hx, bne_iff_ne]
    constructor
    · rintro ⟨⟨⟨hlost, j, hj, hended⟩, hrest⟩, hne⟩
      have hjk : j ≠ k := fun heq => hne (heq ▸ hj)
      exact ⟨⟨hlost, j, hj, by simpa [hjk] using hended⟩, hrest⟩
    · rintro ⟨⟨hlost, j, hj, hended⟩, hrest⟩
      have hjk : j ≠ k := by
        rintro rfl
        simp at hended
      refine ⟨⟨⟨hlost, j, hj, by simpa [hjk] using hended⟩, hrest⟩, fun heq => hjk ?_⟩
      exact some.inj (hj.symm.trans heq)
  | forget k =>
    obtain ⟨hk, ⟨⟩⟩ := ite_none_right_eq_some.mp h
    by_cases hsk : s.session = some k
    · -- It had ended, and was not open.
      refine hx.trans (iff_of_false ?_ ?_)
      · rintro ⟨⟨-, j, hj, hended⟩, -⟩
        obtain rfl := some.inj (hsk.symm.trans hj)
        exact absurd (hk.2.symm.trans hended) (by decide)
      · rintro ⟨⟨-, j, hj, -⟩, -⟩
        simp [hsk] at hj
    · rw [if_neg hsk]
      exact hx.trans (Bare.of_same rfl rfl rfl rfl rfl).symm

/-! ### Whole executions -/

/-- What holds in every state. -/
structure Sound (s : State) : Prop where
  books : Books s
  channels : Channels s
  waited : Waited s

theorem Sound.init : Sound .init := ⟨.init, .init, .init⟩

theorem Sound.next (hs : Sound s) (h : next s a = some s') : Sound s' :=
  ⟨hs.books.next h, hs.channels.next h, hs.waited.next h⟩

theorem Sound.of_run (h : Run SharedSftp.next free .init s) : Sound s :=
  h.invariant .init fun _ _ _ hs _ hn => hs.next hn

variable {x y : State × Bool}

theorem watched_cases (h : watched x a = some y) :
    next x.1 a = some y.1 ∧ y.2 = openedAlone x.1 x.2 a := by
  obtain ⟨s', hs', rfl⟩ := map_eq_some_iff.mp h
  exact ⟨hs', rfl⟩

/-- What is beside the state changes nothing of the execution. -/
theorem exec_watched (as : List Event) (x : State × Bool) :
    (exec watched x as).map Prod.fst = exec next x.1 as := by
  induction as generalizing x with
  | nil => rfl
  | cons a as ih =>
    rw [exec, exec, watched]
    cases hn : next x.1 a with
    | none => rfl
    | some s' => exact ih (s', openedAlone x.1 x.2 a)

/-- What holds in every state, and what is beside it. -/
def Watch (x : State × Bool) : Prop := Sound x.1 ∧ (x.2 = true ↔ Bare x.1)

theorem Watch.init : Watch (.init, false) := by
  refine ⟨.init, iff_of_false Bool.false_ne_true ?_⟩
  rintro ⟨⟨-, k, hk, -⟩, -⟩
  cases hk

theorem Watch.next (hx : Watch x) (h : watched x a = some y) : Watch y := by
  obtain ⟨hn, halone⟩ := watched_cases h
  exact ⟨hx.1.next hn, halone ▸ openedAlone_iff hx.1.books hx.2 hn⟩

theorem Timed.watched (hx : Watch x) (ht : Timed x.1) (hc : Covered x a)
    (h : watched x a = some y) : Timed y.1 := by
  refine ht.next hx.1.books hx.1.waited ?_ (watched_cases h).1
  rintro i rfl hlength hopen hheld hpending
  exact absurd (hx.2.mpr ⟨hopen, hheld, hpending⟩) (Bool.eq_false_iff.mp (hc hlength))

theorem covered_of_timed (h : watched x a = some y) (hy : Watch y ∧ Timed y.1) : Covered x a := by
  obtain ⟨hn, halone⟩ := watched_cases h
  cases a with
  | done i =>
    obtain ⟨hready, heq⟩ := ite_none_right_eq_some.mp hn
    intro hlength
    by_contra hnot
    -- It was the last: the session is open then, with nothing that will close it.
    obtain ⟨hopen, hheld, hpending⟩ :=
      hy.1.2.mp (halone.trans (Bool.eq_false_or_eq_true _ |>.resolve_right hnot))
    have hnil : y.1.requests = [] := by
      rw [← some.inj heq]
      exact (eraseIdx_eq_nil_iff_last hready).mpr hlength
    obtain ⟨t, -, hmem⟩ := hy.2 hopen hheld hnil
    exact ne_nil_of_mem hmem hpending
  | _ => trivial

/-- **The shared session.**  Whatever is called and whatever happens meanwhile, the count
is that of the live holds, one session at most is open or being opened, and the timer fires
only while nobody holds it.  In every state passed an open session with no hold and no
request has its timer running exactly if each step is covered: no session that `current` opened
is left by the last request with nobody having held it since it opened. -/
theorem shared_session (as : List Event) (s : State)
    (h : exec next State.init as = some s) :
    Counted s ∧ Single s ∧ FiresUnheld s ∧
      ((∀ bs s', bs <+: as → exec next State.init bs = some s' → Timed s') ↔
        MeetsAlong watched Covered (State.init, false) as) := by
  have hs : Sound s := .of_run (.of_exec_free as h)
  obtain ⟨x, hx, rfl⟩ := map_eq_some_iff.mp ((exec_watched as (State.init, false)).trans h)
  refine ⟨hs.books.counted, hs.channels.single, hs.books.firesUnheld, ?_, ?_⟩
  · intro htimed
    refine MeetsAlong.of_prefixes as (fun _ _ _ => covered_of_timed) hx fun bs y hbs hy => ?_
    refine ⟨?_, htimed bs y.1 hbs ?_⟩
    · exact (Run.of_exec_free bs hy).invariant .init fun _ _ _ hw _ hn => hw.next hn
    · rw [← exec_watched bs (State.init, false), hy]
      rfl
  · intro hmeets bs s' hbs hs'
    obtain ⟨y, hy, rfl⟩ := map_eq_some_iff.mp ((exec_watched bs (State.init, false)).trans hs')
    have hboth : Watch y ∧ Timed y.1 := by
      refine (Run.of_exec bs (hmeets.of_prefix hbs) hy).invariant
        (I := fun x => Watch x ∧ Timed x.1) ⟨.init, ?_⟩ ?_
      · rintro ⟨-, k, hk, -⟩
        cases hk
      · exact fun _ _ _ ⟨hw, ht⟩ hc hn => ⟨hw.next hn, ht.watched hw hc hn⟩
    exact hboth.2

/-- An upload begins, holds the session and lets go of it; the timer closes the session, and
its leftover is then removed over a new one. -/
def removedLater : List Event :=
  [.current, .opened 0, .assign 0, .hold, .settle 0, .done 0, .release 0, .fire 0,
    .channelEnd 0, .forget 0, .current, .opened 1, .assign 1, .settle 1, .done 0]

/-- **A session left open.**  Once the last request has ended nobody holds the session, no
request is under way, and no timer will close it. -/
theorem left_open : ∃ s, exec next State.init removedLater = some s ∧ ¬ Timed s := by
  refine ⟨_, (some_get (by decide +kernel)).symm, fun ht => ?_⟩
  obtain ⟨t, -, hmem⟩ := ht (by decide +kernel) (by decide +kernel) (by decide +kernel)
  exact eq_nil_iff_forall_not_mem.mp (by decide +kernel) t hmem

/-- The same upload, whose leftover is removed before the timer runs out. -/
def removedSooner : List Event :=
  [.current, .opened 0, .assign 0, .hold, .settle 0, .done 0, .release 0, .current, .done 0,
    .fire 0]

theorem shared_session_removedSooner :
    ∃ s, exec next State.init removedSooner = some s ∧ Counted s ∧ Single s ∧ Timed s := by
  have hex : (exec next State.init removedSooner).isSome = true := by decide +kernel
  have hmeets : MeetsAlong watched Covered (State.init, false) removedSooner := by decide +kernel
  obtain ⟨s, hs⟩ := isSome_iff_exists.mp hex
  obtain ⟨hcounted, hsingle, -, hiff⟩ := shared_session removedSooner s hs
  exact ⟨s, hs, hcounted, hsingle, hiff.mpr hmeets _ s prefix_rfl hs⟩

end Lasterm.Files.SharedSftp
