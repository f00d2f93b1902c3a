import Mathlib.Data.List.Basic

/-!
# Runs of a transition function

A system is given by a partial transition function `next : σ → α → Option σ`: the
label says which step is taken and how whatever is outside the system answers, and
`none` says the step is not possible in that state.  A run is taken *under* a
condition on its steps, so that one definition serves both for what every run does
(the condition is `free`) and for what the runs do whose steps all meet a condition.

## Main definitions

* `Run next ok s₀ s` — `s` is reached from `s₀` by steps that each meet `ok`.
* `exec next s as` — the state a list of labels leads to, computed.
* `MeetsAlong next ok s as` — every step of that list meets `ok`.

## Main results

* `Run.invariant` — **the invariant rule**: what holds at the start and is kept by
  every step that meets the condition holds in every state reached.
* `Run.of_exec` — a computed execution is a run.
* `MeetsAlong.of_prefixes` — a condition is met along an execution whose states all have
  what a step that does not meet it would spoil.
-/

namespace Transition

variable {σ α : Type*}

/-- The states reached from `s₀` by steps of `next` that each meet `ok`. -/
inductive Run (next : σ → α → Option σ) (ok : σ → α → Prop) (s₀ : σ) : σ → Prop
  | start : Run next ok s₀ s₀
  /-- One more step, which meets the condition in the state it is taken in. -/
  | step {s s' : σ} {a : α} :
      Run next ok s₀ s → ok s a → next s a = some s' → Run next ok s₀ s'

/-- The condition every step meets. -/
def free (_ : σ) (_ : α) : Prop := True

variable {next : σ → α → Option σ} {ok ok' : σ → α → Prop} {s₀ s s' : σ}

/-- **The invariant rule.** -/
theorem Run.invariant {I : σ → Prop} (h₀ : I s₀)
    (hstep : ∀ s a s', I s → ok s a → next s a = some s' → I s')
    (h : Run next ok s₀ s) : I s := by
  induction h with
  | start => exact h₀
  | step _ hok hn ih => exact hstep _ _ _ ih hok hn

theorem Run.mono (hle : ∀ s a, ok s a → ok' s a) (h : Run next ok s₀ s) :
    Run next ok' s₀ s := by
  induction h with
  | start => exact .start
  | step _ hok hn ih => exact .step ih (hle _ _ hok) hn

/-- A run under any condition is a run. -/
theorem Run.toFree (h : Run next ok s₀ s) : Run next free s₀ s :=
  h.mono fun _ _ _ => trivial

theorem Run.trans {s₁ s₂ : σ} (h : Run next ok s₀ s₁) (h' : Run next ok s₁ s₂) :
    Run next ok s₀ s₂ := by
  induction h' with
  | start => exact h
  | step _ hok hn ih => exact .step ih hok hn

/-! ### Computed executions -/

/-- The state that the labels `as` lead to from `s`, if each is possible in turn. -/
def exec (next : σ → α → Option σ) : σ → List α → Option σ
  | s, [] => some s
  | s, a :: as => (next s a).bind fun s' => exec next s' as

/-- Every step of the execution of `as` from `s` meets `ok`. -/
def MeetsAlong (next : σ → α → Option σ) (ok : σ → α → Prop) : σ → List α → Prop
  | _, [] => True
  | s, a :: as => ok s a ∧ (next s a).elim True fun s' => MeetsAlong next ok s' as

instance MeetsAlong.decidable [∀ s a, Decidable (ok s a)] :
    ∀ (as : List α) (s : σ), Decidable (MeetsAlong next ok s as)
  | [], _ => .isTrue trivial
  | a :: as, s =>
    have : Decidable ((next s a).elim True fun s' => MeetsAlong next ok s' as) :=
      match next s a with
      | none => .isTrue trivial
      | some s' => MeetsAlong.decidable as s'
    inferInstanceAs (Decidable (_ ∧ _))

theorem Run.of_exec (as : List α) (hok : MeetsAlong next ok s as)
    (h : exec next s as = some s') : Run next ok s s' := by
  induction as generalizing s with
  | nil =>
    obtain rfl : s = s' := by simpa [exec] using h
    exact .start
  | cons a as ih =>
    obtain ⟨s₁, hn, hrest⟩ := Option.bind_eq_some_iff.mp h
    obtain ⟨hhead, htail⟩ := hok
    rw [hn] at htail
    exact (Run.step .start hhead hn).trans (ih htail hrest)

theorem meetsAlong_free (as : List α) (s : σ) : MeetsAlong next free s as := by
  induction as generalizing s with
  | nil => trivial
  | cons a as ih =>
    refine ⟨trivial, ?_⟩
    cases next s a with
    | none => trivial
    | some s' => exact ih s'

/-- What every state passed on the way has decides that every step met `ok`, where a step
that does not meet it leads to a state without it. -/
theorem MeetsAlong.of_prefixes {P : σ → Prop} {t : σ} (as : List α)
    (hP : ∀ s a s', next s a = some s' → P s' → ok s a)
    (h : exec next s as = some t)
    (hall : ∀ bs s', bs <+: as → exec next s bs = some s' → P s') :
    MeetsAlong next ok s as := by
  induction as generalizing s with
  | nil => trivial
  | cons a as ih =>
    obtain ⟨s₁, hn, hrest⟩ := Option.bind_eq_some_iff.mp h
    have hhead : P s₁ := hall [a] s₁ ⟨as, rfl⟩ (by simp only [exec, hn, Option.bind_some])
    refine ⟨hP s a s₁ hn hhead, ?_⟩
    rw [hn]
    refine ih hrest fun bs s' hbs hs' => hall (a :: bs) s' ((List.cons_prefix_cons).mpr ⟨rfl, hbs⟩) ?_
    rw [exec, hn]
    exact hs'

/-- A condition met along an execution is met along each of its beginnings. -/
theorem MeetsAlong.of_prefix {as bs : List α} (h : MeetsAlong next ok s as) (hbs : bs <+: as) :
    MeetsAlong next ok s bs := by
  induction bs generalizing s as with
  | nil => trivial
  | cons b bs ih =>
    obtain ⟨cs, rfl⟩ := hbs
    obtain ⟨hhead, htail⟩ := h
    refine ⟨hhead, ?_⟩
    cases hn : next s b with
    | none => trivial
    | some s' =>
      rw [hn] at htail
      exact ih htail ⟨cs, rfl⟩

/-- Every computed execution is a run under no condition. -/
theorem Run.of_exec_free (as : List α) (h : exec next s as = some s') :
    Run next free s s' :=
  .of_exec as (meetsAlong_free as s) h

/-- The state that labels lead to which are possible in turn. -/
theorem Run.get (as : List α) (hok : MeetsAlong next ok s as) (h : (exec next s as).isSome) :
    Run next ok s ((exec next s as).get h) :=
  .of_exec as hok (Option.some_get h).symm

theorem Run.get_free (as : List α) (h : (exec next s as).isSome) :
    Run next free s ((exec next s as).get h) :=
  .get as (meetsAlong_free as s) h

end Transition
