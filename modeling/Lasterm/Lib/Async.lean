import Lasterm.Lib.Run

/-!
# Operations that take turns on one thread

A program on one thread has many operations under way at once, each a function that may
wait.  One of them runs until it waits or is over, undisturbed; then another has its turn,
in any order, and goes on with whatever it heard while it waited.

`Job` is what is left to do of an operation.  The rule for reasoning about one of them is
`Keeps`: every change it makes is in a relation `G`, whatever changes in `G` the others make
while it waits.  If that holds of all of them, every run of all of them together is in `G`,
however their turns fall.

## Main definitions

* `Job σ ω ε α` — over a shared state `σ`, hearing values of `ω`, failing with `ε`.
* `Job.turn` — one turn.
* `Job.Keeps G` — every change is in `G`, with a postcondition; `Job.Always G` without.
* `Pool`, `Pool.next` — operations under way, and the next turn of one.

## Main results

* `Pool.keeps_of_run` — **a run of operations that all keep `G` is in `G`.**
-/

namespace Async

variable {σ ω ε α β : Type}

/-- What is left to do of an operation. -/
inductive Job (σ ω ε α : Type)
  | done (r : Except ε α)
  /-- It changes the shared state, and goes on by what that was. -/
  | act (f : σ → σ) (k : σ → Job σ ω ε α)
  | await (k : ω → Job σ ω ε α)

namespace Job

/-- One job after another, with what the first gives. -/
def bind : Job σ ω ε α → (α → Job σ ω ε β) → Job σ ω ε β
  | done (.ok a), f => f a
  | done (.error e), _ => done (.error e)
  | act g k, f => act g fun s => (k s).bind f
  | await k, f => await fun a => (k a).bind f

/-- An error is handed to the handler. -/
def tryCatch : Job σ ω ε α → (ε → Job σ ω ε α) → Job σ ω ε α
  | done (.ok a), _ => done (.ok a)
  | done (.error e), f => f e
  | act g k, f => act g fun s => (k s).tryCatch f
  | await k, f => await fun a => (k a).tryCatch f

instance : Monad (Job σ ω ε) where
  pure a := done (.ok a)
  bind := bind

/-- It fails. -/
def fail (e : ε) : Job σ ω ε α := done (.error e)

/-- Read the shared state. -/
def get : Job σ ω ε σ := act id fun s => done (.ok s)

/-- Change the shared state. -/
def modify (f : σ → σ) : Job σ ω ε Unit := act f fun _ => done (.ok ())

/-- Let others have their turns. -/
def wait : Job σ ω ε ω := await fun a => done (.ok a)

/-- One turn: the state after it, and the result or what it waits with. -/
def turn : Job σ ω ε α → σ → σ × (Except ε α ⊕ (ω → Job σ ω ε α))
  | done r, s => (s, .inl r)
  | act f k, s => (k s).turn (f s)
  | await k, s => (s, .inr k)

/-! ### What an operation keeps -/

/-- Every change the operation makes from `s` on is in `G`, whatever changes in `G` others
make while it waits; and `Q` holds of its result and of the state it ends in. -/
def Keeps (G : σ → σ → Prop) : Job σ ω ε α → σ → (Except ε α → σ → Prop) → Prop
  | done r, s, Q => Q r s
  | act f k, s, Q => G s (f s) ∧ (k s).Keeps G (f s) Q
  | await k, s, Q => ∀ a s', G s s' → (k a).Keeps G s' Q

variable {G : σ → σ → Prop} {Q Q' : Except ε α → σ → Prop} {R : Except ε β → σ → Prop} {s : σ}
  {t : Job σ ω ε α}

theorem Keeps.mono (h : t.Keeps G s Q) (hQ : ∀ r s, Q r s → Q' r s) : t.Keeps G s Q' := by
  induction t generalizing s with
  | done r => exact hQ r s h
  | act f k ih => exact ⟨h.1, ih s h.2⟩
  | await k ih => exact fun a s' hs' => ih a (h a s' hs')

/-- The rule for sequences. -/
theorem Keeps.bind {f : α → Job σ ω ε β} (h : t.Keeps G s fun r s' => match r with
      | .ok a => (f a).Keeps G s' R
      | .error e => R (.error e) s') : (t >>= f).Keeps G s R := by
  induction t generalizing s with
  | done r => cases r <;> exact h
  | act g k ih => exact ⟨h.1, ih s h.2⟩
  | await k ih => exact fun a s' hs' => ih a (h a s' hs')

/-- The rule for handlers. -/
theorem Keeps.tryCatch {f : ε → Job σ ω ε α} (h : t.Keeps G s fun r s' => match r with
      | .ok a => Q (.ok a) s'
      | .error e => (f e).Keeps G s' Q) : (t.tryCatch f).Keeps G s Q := by
  induction t generalizing s with
  | done r => cases r <;> exact h
  | act g k ih => exact ⟨h.1, ih s h.2⟩
  | await k ih => exact fun a s' hs' => ih a (h a s' hs')

/-- The operation keeps `G`, wherever it begins. -/
def Always (G : σ → σ → Prop) (t : Job σ ω ε α) : Prop := ∀ s, t.Keeps G s fun _ _ => True

@[grind ←]
theorem Always.pure (a : α) : Always G (Pure.pure a : Job σ ω ε α) := fun _ => trivial

@[grind ←]
theorem Always.fail (e : ε) : Always G (Job.fail e : Job σ ω ε α) := fun _ => trivial

@[grind ←]
theorem Always.wait : Always G (Job.wait : Job σ ω ε ω) := fun _ _ _ _ => trivial

theorem Always.get (hG : ∀ s, G s s) : Always G (Job.get : Job σ ω ε σ) :=
  fun s => ⟨hG s, trivial⟩

theorem Always.modify {f : σ → σ} (hf : ∀ s, G s (f s)) :
    Always G (Job.modify f : Job σ ω ε Unit) :=
  fun s => ⟨hf s, trivial⟩

@[grind ←]
theorem Always.bind {f : α → Job σ ω ε β} (ht : Always G t)
    (hf : ∀ a, Always G (f a)) : Always G (t >>= f) := by
  intro s
  refine Keeps.bind ((ht s).mono ?_)
  intro r s' _
  cases r with
  | ok a => exact hf a s'
  | error e => trivial

@[grind ←]
theorem Always.tryCatch {f : ε → Job σ ω ε α} (ht : Always G t)
    (hf : ∀ e, Always G (f e)) : Always G (t.tryCatch f) := by
  intro s
  refine Keeps.tryCatch ((ht s).mono ?_)
  intro r s' _
  cases r with
  | ok a => trivial
  | error e => exact hf e s'

/-- One turn of an operation that keeps a preorder. -/
theorem Keeps.turn (hrefl : ∀ s, G s s) (htrans : ∀ s s' s'', G s s' → G s' s'' → G s s'')
    (h : t.Keeps G s Q) : G s (t.turn s).1 ∧
      ∀ k, (t.turn s).2 = .inr k → ∀ a s', G (t.turn s).1 s' → (k a).Keeps G s' Q := by
  induction t generalizing s with
  | done r => exact ⟨hrefl s, nofun⟩
  | act f k ih =>
    obtain ⟨hG, hrest⟩ := ih s h.2
    exact ⟨htrans _ _ _ h.1 hG, hrest⟩
  | await k _ =>
    refine ⟨hrefl s, ?_⟩
    rintro k' ⟨rfl⟩
    exact h

end Job

/-! ### Operations under way -/

/-- The shared state, and the operations that wait. -/
structure Pool (σ ω ε : Type) where
  shared : σ
  waiting : List (ω → Job σ ω ε Unit)

/-- Whose turn it is: a new operation's, or one's that waits and hears something. -/
inductive Move (ι ω : Type)
  | start (o : ι)
  | resume (i : ℕ) (a : ω)

namespace Pool

variable {ι : Type}

/-- One turn of a job, with the others that wait. -/
def take (p : Pool σ ω ε) (t : Job σ ω ε Unit) (others : List (ω → Job σ ω ε Unit)) :
    Pool σ ω ε :=
  match t.turn p.shared with
  | (s, .inl _) => ⟨s, others⟩
  | (s, .inr k) => ⟨s, others ++ [k]⟩

/-- The next turn, where the operation `o` is `body o`. -/
def next (body : ι → Job σ ω ε Unit) (p : Pool σ ω ε) : Move ι ω → Option (Pool σ ω ε)
  | .start o => some (p.take (body o) p.waiting)
  | .resume i a => (p.waiting[i]?).map fun k => p.take (k a) (p.waiting.eraseIdx i)

/-- Every operation that waits keeps `G`, whatever in `G` happens meanwhile. -/
def Keep (G : σ → σ → Prop) (p : Pool σ ω ε) : Prop :=
  ∀ k ∈ p.waiting, ∀ a s', G p.shared s' → (k a).Keeps G s' fun _ _ => True

variable {G : σ → σ → Prop} {body : ι → Job σ ω ε Unit} {p p' : Pool σ ω ε}

theorem Keep.take (hrefl : ∀ s, G s s) (htrans : ∀ s s' s'', G s s' → G s' s'' → G s s'')
    (h : p.Keep G) {t : Job σ ω ε Unit} (ht : t.Keeps G p.shared fun _ _ => True)
    {others : List (ω → Job σ ω ε Unit)} (hothers : ∀ k ∈ others, k ∈ p.waiting) :
    G p.shared (p.take t others).shared ∧ (p.take t others).Keep G := by
  obtain ⟨hG, hrest⟩ := ht.turn hrefl htrans
  have hold : ∀ k ∈ others, ∀ a s', G (t.turn p.shared).1 s' →
      (k a).Keeps G s' fun _ _ => True :=
    fun k hk a s' hs' => h k (hothers k hk) a s' (htrans _ _ _ hG hs')
  unfold Pool.take
  split
  · next s r heq =>
    rw [heq] at hG hold
    exact ⟨hG, hold⟩
  · next s k heq =>
    rw [heq] at hG hold hrest
    refine ⟨hG, ?_⟩
    intro k' hk'
    obtain hk' | hk' := List.mem_append.mp hk'
    · exact hold k' hk'
    · obtain rfl := List.mem_singleton.mp hk'
      exact hrest k' rfl

/-- **A run of operations that all keep `G` is in `G`.** -/
theorem keeps_of_run (hrefl : ∀ s, G s s) (htrans : ∀ s s' s'', G s s' → G s' s'' → G s s'')
    (hbody : ∀ o, (body o).Always G) {ok : Pool σ ω ε → Move ι ω → Prop} (hp : p.Keep G)
    (h : Transition.Run (next body) ok p p') : G p.shared p'.shared ∧ p'.Keep G := by
  refine h.invariant (I := fun q => G p.shared q.shared ∧ q.Keep G) ⟨hrefl _, hp⟩ ?_
  rintro q m q' ⟨hG, hq⟩ - hn
  have hstep : G q.shared q'.shared ∧ q'.Keep G := by
    cases m with
    | start o =>
      cases hn
      exact hq.take hrefl htrans (hbody o q.shared) fun _ => id
    | resume i a =>
      obtain ⟨k, hk, rfl⟩ := Option.map_eq_some_iff.mp hn
      refine hq.take hrefl htrans (hq k (List.mem_of_getElem? hk) a q.shared (hrefl _)) ?_
      exact fun _ => List.mem_of_mem_eraseIdx
  exact ⟨htrans _ _ _ hG hstep.1, hstep.2⟩

end Pool

end Async
