import Mathlib.Data.List.Infix
import Mathlib.Logic.Function.Basic
import Mathlib.Tactic.Linarith
import Mathlib.Tactic.Ring

/-!
# The rate limit of pairing attempts

One record an address: how many attempts since its window started, and when that was.  The window is
longer the more attempts were made in it, also by those that were refused.  Times are milliseconds;
the ISO texts of the table sort as the times they stand for.

## Main definitions

* `checkAndIncrement`, `cleanExpired`: the two statements on the table.
* `log`: what the attempts of one address came to, in a run of both by any address.
* `own`: the same for an address that is alone, with no cleanup.
-/

namespace Lasterm.Hub.PairRateLimits

open List Function

/-- A row of `pair_rate_limits`. -/
structure Row where
  attempts : ℕ
  windowStart : ℤ

/-- The values that the callers fix: a positive number of attempts in a positive time. -/
structure Limits where
  maxAttempts : ℕ
  windowMs : ℤ
  backoffThreshold : ℕ := 5
  maxAttempts_pos : 0 < maxAttempts
  windowMs_pos : 0 < windowMs

/-- `VERIFY_MAX` and `VERIFY_WINDOW_MS`. -/
def verifyLimits : Limits := ⟨10, 60_000, 5, by decide, by decide⟩

variable {α : Type*} [DecidableEq α]

/-- The table `pair_rate_limits`, by its primary key. -/
abbrev Db (α : Type*) := α → Option Row

namespace Limits

variable (lim : Limits)

/-- By how much the window is longer after so many attempts. -/
def multiplier (row : Row) : ℕ :=
  if row.attempts ≥ lim.backoffThreshold then
    min 8 (2 ^ ((row.attempts - lim.backoffThreshold) / lim.maxAttempts + 1))
  else 1

/-- The window of a row, in milliseconds. -/
def effectiveWindow (row : Row) : ℤ := lim.windowMs * lim.multiplier row

/-- The attempt starts a window: there is no record, or its window is over. -/
def resets (now : ℤ) : Option Row → Bool
  | none => true
  | some row => now - row.windowStart ≥ lim.effectiveWindow row

/-- The record after an attempt, and whether the attempt is allowed. -/
def check (now : ℤ) (row? : Option Row) : Row × Bool :=
  match row? with
  | none => (⟨1, now⟩, true)
  | some row =>
    if lim.resets now row then (⟨1, now⟩, true)
    else (⟨row.attempts + 1, row.windowStart⟩, row.attempts + 1 ≤ lim.maxAttempts)

/-- `checkAndIncrement`: the attempt is counted; whether it is allowed. -/
def checkAndIncrement (db : Db α) (ip : α) (now : ℤ) : Db α × Bool :=
  (update db ip (some (lim.check now (db ip)).1), (lim.check now (db ip)).2)

/-- `cleanExpired`: rows whose window is long over go. -/
def cleanExpired (db : Db α) (now : ℤ) : Db α := fun ip =>
  (db ip).filter fun row => ¬row.windowStart < now - lim.windowMs * 8

end Limits

/-- What happens to the table. -/
inductive Event (α : Type*)
  | attempt (ip : α) (now : ℤ)
  | clean (now : ℤ)

/-- When it happens. -/
def Event.now : Event α → ℤ
  | .attempt _ now => now
  | .clean now => now

/-- An attempt as it is counted. -/
structure Attempt where
  now : ℤ
  reset : Bool
  allowed : Bool

variable (lim : Limits)

/-- The attempt of a caller that has this row. -/
def attemptAt (now : ℤ) (row? : Option Row) : Attempt :=
  ⟨now, lim.resets now row?, (lim.check now row?).2⟩

/-- The attempts of `ip` in a run of attempts and cleanups, each as `checkAndIncrement` answered
it. -/
def log (ip : α) : Db α → List (Event α) → List Attempt
  | _, [] => []
  | db, .clean now :: events => log ip (lim.cleanExpired db now) events
  | db, .attempt caller now :: events =>
    let (db', allowed) := lim.checkAndIncrement db caller now
    let rest := log ip db' events
    if caller = ip then ⟨now, lim.resets now (db ip), allowed⟩ :: rest else rest

/-- The attempts of an address that has the table for itself. -/
def own : Option Row → List ℤ → List Attempt
  | _, [] => []
  | row?, now :: times => attemptAt lim now row? :: own (some (lim.check now row?).1) times

/-- When a caller attempts, if the event is an attempt of theirs. -/
def Event.time? (ip : α) : Event α → Option ℤ
  | .clean _ => none
  | .attempt caller now => if caller = ip then some now else none

/-- When `ip` tried. -/
def times (ip : α) (events : List (Event α)) : List ℤ := events.filterMap (·.time? ip)

variable {lim} {row : Row} {now lo hi : ℤ} {ts : List ℤ} {db : Db α} {ip : α}
  {events : List (Event α)}

/-! ### One attempt -/

theorem multiplier_pos : 0 < lim.multiplier row := by
  unfold Limits.multiplier
  split
  · exact lt_min (by decide) (Nat.two_pow_pos _)
  · exact Nat.one_pos

theorem windowMs_le (lim : Limits) (row : Row) : lim.windowMs ≤ lim.effectiveWindow row := by
  have hpos : (1 : ℤ) ≤ lim.multiplier row := by exact_mod_cast multiplier_pos
  have hwindow := lim.windowMs_pos
  unfold Limits.effectiveWindow
  nlinarith

theorem effectiveWindow_le (lim : Limits) (row : Row) :
    lim.effectiveWindow row ≤ 8 * lim.windowMs := by
  have hle : lim.multiplier row ≤ 8 := by
    unfold Limits.multiplier
    split
    · exact min_le_left _ _
    · decide
  have hle : (lim.multiplier row : ℤ) ≤ 8 := by exact_mod_cast hle
  have hwindow := lim.windowMs_pos
  unfold Limits.effectiveWindow
  nlinarith

/-- The window does not get shorter by attempts that are made in it. -/
theorem effectiveWindow_mono {row' : Row} (h : row.attempts ≤ row'.attempts) :
    lim.effectiveWindow row ≤ lim.effectiveWindow row' := by
  have hle : lim.multiplier row ≤ lim.multiplier row' := by
    by_cases hthreshold : row.attempts ≥ lim.backoffThreshold
    · rw [Limits.multiplier, Limits.multiplier, if_pos hthreshold, if_pos (hthreshold.trans h)]
      exact min_le_min_left 8 (Nat.pow_le_pow_right (by decide)
        (Nat.succ_le_succ (Nat.div_le_div_right (Nat.sub_le_sub_right h _))))
    · rw [Limits.multiplier, if_neg hthreshold]
      exact multiplier_pos
  exact mul_le_mul_of_nonneg_left (by exact_mod_cast hle) lim.windowMs_pos.le

theorem check_of_resets (h : lim.resets now row? = true) : lim.check now row? = (⟨1, now⟩, true) := by
  cases row? with
  | none => rfl
  | some row => exact if_pos h

theorem check_of_not_resets (h : lim.resets now (some row) = false) :
    lim.check now (some row) =
      (⟨row.attempts + 1, row.windowStart⟩, decide (row.attempts + 1 ≤ lim.maxAttempts)) :=
  if_neg (by rw [h]; decide)

theorem resets_after_window (h : lim.resets now (some row) = true) :
    row.windowStart + lim.windowMs ≤ now := by
  have hle := of_decide_eq_true h
  have := windowMs_le lim row
  omega

/-- An allowed attempt takes one of those that its window has left. -/
theorem allowed_spends (lim : Limits) (now : ℤ) (row? : Option Row) :
    (attemptAt lim now row?).allowed.toNat + (lim.maxAttempts - (lim.check now row?).1.attempts) ≤
      (lim.maxAttempts - row?.elim 0 Row.attempts) +
        lim.maxAttempts * (attemptAt lim now row?).reset.toNat ∧
    (attemptAt lim now row?).allowed.toNat +
      (lim.maxAttempts - (lim.check now row?).1.attempts) ≤ lim.maxAttempts := by
  have hpos := lim.maxAttempts_pos
  cases hreset : lim.resets now row? with
  | true =>
    simp only [attemptAt, check_of_resets hreset, hreset, Bool.toNat_true]
    omega
  | false =>
    cases row? with
    | none => cases hreset
    | some row =>
      by_cases hle : row.attempts + 1 ≤ lim.maxAttempts
      · simp only [attemptAt, check_of_not_resets hreset, hle, decide_true, Bool.toNat_true,
          Option.elim_some]
        omega
      · simp only [attemptAt, check_of_not_resets hreset, hle, decide_false, Bool.toNat_false,
          Option.elim_some]
        omega

/-! ### The attempts of others -/

/-- The record as far as an attempt at `now` can tell. -/
def current (lim : Limits) (now : ℤ) (row? : Option Row) : Option Row :=
  if lim.resets now row? then none else row?

theorem attemptAt_current : attemptAt lim now (current lim now row?) = attemptAt lim now row? ∧
    lim.check now (current lim now row?) = lim.check now row? := by
  unfold current
  split
  · rename_i h
    rw [attemptAt, attemptAt, check_of_resets h, h]
    exact ⟨rfl, rfl⟩
  · exact ⟨rfl, rfl⟩

omit [DecidableEq α] in
/-- What the cleanup takes away would be started anew by an attempt. -/
theorem current_cleanExpired {later : ℤ} (hle : now ≤ later) :
    current lim later (lim.cleanExpired db now ip) = current lim later (db ip) := by
  rw [Limits.cleanExpired]
  cases db ip with
  | none => rfl
  | some row =>
    by_cases hold : row.windowStart < now - lim.windowMs * 8
    · have hresets : lim.resets later (some row) = true := by
        have := effectiveWindow_le lim row
        exact decide_eq_true (by omega)
      simp [current, Option.filter, hold, hresets]
    · simp [Option.filter, hold]

theorem log_eq_own (hsorted : events.Pairwise (·.now ≤ ·.now))
    (h : ∀ e ∈ events, current lim e.now (db ip) = current lim e.now row?) :
    log lim ip db events = own lim row? (times ip events) := by
  induction events generalizing db row? with
  | nil => rfl
  | cons event events ih =>
    obtain ⟨hlater, htail⟩ := pairwise_cons.mp hsorted
    obtain ⟨hhead, hrest⟩ := forall_mem_cons.mp h
    cases event with
    | clean now =>
      exact ih htail fun e he => (current_cleanExpired (hlater e he)).trans (hrest e he)
    | attempt caller now =>
      by_cases hcaller : caller = ip
      · subst hcaller
        have hsame : current lim now (db caller) = current lim now row? := hhead
        have hattempt : attemptAt lim now (db caller) = attemptAt lim now row? := by
          rw [← attemptAt_current.1, hsame, attemptAt_current.1]
        unfold attemptAt at hattempt
        have hcheck : lim.check now (db caller) = lim.check now row? := by
          rw [← attemptAt_current.2, hsame, attemptAt_current.2]
        simp only [log, Limits.checkAndIncrement, times, filterMap_cons, Event.time?, if_true, own,
          attemptAt, hattempt]
        refine congrArg _ (ih htail fun e _ => congrArg _ ?_)
        rw [← hcheck]
        exact update_self ..
      · simp only [log, times, filterMap_cons, Event.time?, if_neg hcaller]
        refine ih htail ?_
        simp only [Limits.checkAndIncrement, update_of_ne (Ne.symm hcaller)]
        exact hrest

/-! ### The attempts of one address -/

theorem map_now_own : (own lim row? ts).map (·.now) = ts := by
  induction ts generalizing row? with
  | nil => rfl
  | cons now ts ih => exact congrArg _ ih

theorem times_pairwise (hsorted : events.Pairwise (·.now ≤ ·.now)) :
    (times ip events).Pairwise (· ≤ ·) := by
  refine hsorted.filterMap _ fun e e' hle t ht t' ht' => ?_
  have htime {e : Event α} {t : ℤ} (h : t ∈ e.time? ip) : e.now = t := by
    cases e with
    | clean => cases h
    | attempt caller now =>
      obtain ⟨-, h⟩ := Option.ite_none_right_eq_some.mp h
      exact Option.some.inj h
  rwa [htime ht, htime ht'] at hle

theorem countP_cons_toNat {p : Attempt → Bool} {a : Attempt} {l : List Attempt} :
    (a :: l).countP p = (p a).toNat + l.countP p := by
  rw [countP_cons, add_comm]
  cases p a <;> rfl

/-- What the first window has left, and a whole window for each that starts. -/
theorem countP_prefix {seg : List Attempt} (hseg : seg <+: own lim row? ts) :
    seg.countP (·.allowed) ≤ (lim.maxAttempts - row?.elim 0 Row.attempts) +
      lim.maxAttempts * seg.countP (·.reset) := by
  induction ts generalizing row? seg with
  | nil => simp [prefix_nil.mp hseg]
  | cons now ts ih =>
    obtain rfl | ⟨rest, rfl, hrest⟩ := prefix_cons_iff.mp hseg
    · exact Nat.zero_le _
    · have hspends := (allowed_spends lim now row?).1
      have := ih hrest
      rw [countP_cons_toNat, countP_cons_toNat, mul_add]
      rw [Option.elim_some] at this
      omega

/-- At most a whole window for the first attempt of a segment, and one for each that starts in its
tail. -/
theorem countP_segment {seg : List Attempt} (hseg : seg <:+: own lim row? ts) :
    seg.countP (·.allowed) ≤
      lim.maxAttempts + lim.maxAttempts * seg.tail.countP (·.reset) := by
  induction ts generalizing row? with
  | nil => simp [infix_nil.mp hseg]
  | cons now ts ih =>
    obtain hfirst | hlater := infix_cons_iff.mp hseg
    · obtain rfl | ⟨rest, rfl, hrest⟩ := prefix_cons_iff.mp hfirst
      · exact Nat.zero_le _
      · have hspends := (allowed_spends lim now row?).2
        have := countP_prefix hrest
        rw [countP_cons_toNat, tail_cons]
        rw [Option.elim_some] at this
        omega
    · exact ih hlater

theorem reset_after_window : ∀ a ∈ own lim (some row) ts, a.reset →
    row.windowStart + lim.windowMs ≤ a.now := by
  induction ts generalizing row with
  | nil => exact fun _ h => absurd h not_mem_nil
  | cons now ts ih =>
    refine forall_mem_cons.mpr ⟨resets_after_window, fun a ha hreset => ?_⟩
    have hnext := ih a ha hreset
    by_cases h : lim.resets now (some row) = true
    · simp only [check_of_resets h] at hnext
      have := resets_after_window h
      have := lim.windowMs_pos
      omega
    · rwa [check_of_not_resets (Bool.not_eq_true _ ▸ h)] at hnext

theorem resets_spaced :
    ((own lim row? ts).filter (·.reset)).Pairwise (·.now + lim.windowMs ≤ ·.now) := by
  induction ts generalizing row? with
  | nil => exact .nil
  | cons now ts ih =>
    rw [own, filter_cons]
    split
    · rename_i hreset
      refine pairwise_cons.mpr ⟨fun a ha => ?_, ih⟩
      obtain ⟨ha, hagain⟩ := mem_filter.mp ha
      rw [check_of_resets hreset] at ha
      exact reset_after_window a ha hagain
    · exact ih

/-! ### A span of time -/

theorem filter_prefix {β : Type*} {p : β → Bool} {l : List β}
    (h : l.Pairwise fun a b => p b → p a) : l.filter p <+: l := by
  induction l with
  | nil => exact prefix_rfl
  | cons a l ih =>
    obtain ⟨hfirst, htail⟩ := pairwise_cons.mp h
    by_cases ha : p a
    · rw [filter_cons_of_pos ha]
      exact (prefix_cons_inj a).mpr (ih htail)
    · rw [filter_eq_nil_iff.mpr (forall_mem_cons.mpr ⟨ha, fun b hb hp => ha (hfirst b hb hp)⟩)]
      exact nil_prefix

theorem filter_suffix {β : Type*} {p : β → Bool} {l : List β}
    (h : l.Pairwise fun a b => p a → p b) : l.filter p <:+ l := by
  rw [← reverse_prefix, ← filter_reverse]
  exact filter_prefix (pairwise_reverse.mpr h)

/-- What happened in a span of time is a segment of the history. -/
theorem filter_span_segment {l : List Attempt} (hsorted : l.Pairwise (·.now ≤ ·.now)) :
    l.filter (fun a => lo ≤ a.now ∧ a.now ≤ hi) <:+: l := by
  have hpre : l.filter (·.now ≤ hi) <+: l := filter_prefix (hsorted.imp fun hle hb =>
    decide_eq_true (hle.trans (of_decide_eq_true hb)))
  have hsuf : (l.filter (·.now ≤ hi)).filter (lo ≤ ·.now) <:+ l.filter (·.now ≤ hi) :=
    filter_suffix ((hsorted.filter _).imp fun hle ha =>
      decide_eq_true ((of_decide_eq_true ha).trans hle))
  rw [filter_filter] at hsuf
  simp only [Bool.decide_and]
  exact hsuf.isInfix.trans hpre.isInfix

theorem length_of_spaced {window : ℤ} {l : List Attempt}
    (hspaced : l.Pairwise (·.now + window ≤ ·.now)) (hspan : ∀ a ∈ l, lo ≤ a.now ∧ a.now ≤ hi)
    (hle : lo ≤ hi + window) : l.length * window ≤ hi - lo + window := by
  induction l generalizing lo with
  | nil =>
    rw [length_nil, Nat.cast_zero, zero_mul]
    omega
  | cons a l ih =>
    obtain ⟨hfirst, hspaced⟩ := pairwise_cons.mp hspaced
    obtain ⟨⟨hlo, hhi⟩, hspan⟩ := forall_mem_cons.mp hspan
    have hrest := ih hspaced (fun b hb => ⟨hfirst b hb, (hspan b hb).2⟩) (by omega)
    rw [length_cons]
    push_cast
    linarith

theorem allowed_in_span {t T : ℤ} (hT : 0 ≤ T) (hsorted : ts.Pairwise (· ≤ ·)) :
    (((own lim row? ts).filter fun a => t ≤ a.now ∧ a.now ≤ t + T).countP (·.allowed) : ℤ) ≤
      lim.maxAttempts * (T / lim.windowMs + 2) := by
  have hwindow := lim.windowMs_pos
  set span := (own lim row? ts).filter fun a => t ≤ a.now ∧ a.now ≤ t + T with hspan
  have hcount : span.countP (·.allowed) ≤
      lim.maxAttempts + lim.maxAttempts * span.tail.countP (·.reset) :=
    countP_segment (filter_span_segment (pairwise_map.mp (map_now_own.symm ▸ hsorted)))
  have htail : span.tail.countP (·.reset) ≤ (span.filter (·.reset)).length := by
    rw [← countP_eq_length_filter]
    exact (tail_sublist span).countP_le
  have hlen : ((span.filter (·.reset)).length : ℤ) * lim.windowMs ≤ t + T - t + lim.windowMs := by
    exact length_of_spaced (resets_spaced.sublist (filter_sublist.filter _))
      (fun a ha => of_decide_eq_true (mem_filter.mp (mem_filter.mp ha).1).2) (by omega)
  have hresets : ((span.filter (·.reset)).length : ℤ) ≤ T / lim.windowMs + 1 := by
    rw [← Int.add_mul_ediv_right _ _ hwindow.ne', one_mul]
    refine (Int.le_ediv_iff_mul_le hwindow).mpr ?_
    linarith
  calc (span.countP (·.allowed) : ℤ)
      ≤ lim.maxAttempts + lim.maxAttempts * (span.tail.countP (·.reset) : ℕ) := by
        exact_mod_cast hcount
    _ ≤ lim.maxAttempts + lim.maxAttempts * (T / lim.windowMs + 1) :=
        Int.add_le_add_left (mul_le_mul_of_nonneg_left (by omega) (by omega)) _
    _ = lim.maxAttempts * (T / lim.windowMs + 2) := by ring

/-- The limit on an address, in any run of attempts and cleanups that starts with no records. -/
theorem pairing_attempts_bounded (lim : Limits) (ip : α) (events : List (Event α))
    (hsorted : events.Pairwise (·.now ≤ ·.now)) :
    let attempts := log lim ip (fun _ => none) events
    (∀ seg, seg <:+: attempts → (∀ a ∈ seg.tail, ¬a.reset) →
      seg.countP (·.allowed) ≤ lim.maxAttempts) ∧
    (attempts.filter (·.reset)).Pairwise (·.now + lim.windowMs ≤ ·.now) ∧
    (∀ others : List (Event α), others.Pairwise (·.now ≤ ·.now) →
      times ip others = times ip events → log lim ip (fun _ => none) others = attempts) ∧
    (∀ t T : ℤ, 0 ≤ T →
      ((attempts.filter fun a => t ≤ a.now ∧ a.now ≤ t + T).countP (·.allowed) : ℤ) ≤
        lim.maxAttempts * (T / lim.windowMs + 2)) ∧
    ∀ (db : Db α) (row : Row) (now : ℤ), db ip = some row →
      lim.effectiveWindow row ≤ 8 * lim.windowMs ∧
      (now - row.windowStart < lim.effectiveWindow row →
        lim.cleanExpired db now ip = some row ∧
        ∃ row', (lim.checkAndIncrement db ip now).1 ip = some row' ∧
          row.windowStart + lim.effectiveWindow row ≤
            row'.windowStart + lim.effectiveWindow row') := by
  intro attempts
  have hown : attempts = own lim none (times ip events) := log_eq_own hsorted fun _ _ => rfl
  rw [hown]
  refine ⟨fun seg hseg hquiet => ?_, resets_spaced, fun others hothers htimes => ?_,
    fun t T hT => ?_, fun db row now hrow => ⟨effectiveWindow_le lim row, fun hrunning => ⟨?_, ?_⟩⟩⟩
  · have hcount := countP_segment hseg
    rwa [countP_eq_zero.mpr hquiet, mul_zero, add_zero] at hcount
  · rw [← htimes]
    exact log_eq_own hothers fun _ _ => rfl
  · exact allowed_in_span hT (times_pairwise hsorted)
  · have hle := effectiveWindow_le lim row
    have hkept : ¬row.windowStart < now - lim.windowMs * 8 := by omega
    simp [Limits.cleanExpired, hrow, Option.filter, hkept]
  · have hnot : lim.resets now (some row) = false := decide_eq_false (not_le.mpr hrunning)
    refine ⟨_, update_self .., ?_⟩
    rw [hrow, check_of_not_resets hnot]
    exact Int.add_le_add_left (effectiveWindow_mono (Nat.le_succ _)) _

theorem pairing_attempts_bounded_verify :
    ((log verifyLimits 0 (fun _ => none) [.attempt 0 3, .clean 4, .attempt 0 60003]).filter
      (·.reset)).Pairwise (·.now + 60000 ≤ ·.now) :=
  (pairing_attempts_bounded verifyLimits 0 [.attempt 0 3, .clean 4, .attempt 0 60003]
    (by decide)).2.1

end Lasterm.Hub.PairRateLimits
