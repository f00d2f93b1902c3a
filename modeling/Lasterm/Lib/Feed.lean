import Mathlib.Data.List.Basic

/-!
# Copies kept up by a feed

A source keeps a value under each key and says what changes of them, in a log of messages; a message
says something of some of the keys.  What changed and was not said yet is *unsaid*.  A copy is made
by looking at the source at some moment, and kept up by the messages that come after it.

The moment a copy was made at need not be known to whoever keeps it, and the messages it is kept up
with may begin before it: a copy at a position of the log is as good at every earlier one.

## Main definitions

* `Honest` — the last word on a key is its value, unless there is something unsaid of it.
* `Current … p copy` — with the messages from position `p` on, the copy comes to the source's values.

## Main results

* `Current.taken`, `Current.weaken` — a copy of the source, at its position or at an earlier one.
* `Onward` — the source goes on, by `Onward.changes` and `Onward.tells`.
* `Current.delivers` — the copy is kept up.
* `Current.eq` — with every message delivered, what is not unsaid is as at the source.
-/

namespace Feed

variable {κ ν μ : Type*} (word : μ → κ → Option ν)

/-- Nothing is said of the key from position `p` on. -/
def Silent (log : List μ) (p : ℕ) (k : κ) : Prop := ∀ m ∈ log.drop p, word m k = none

/-- The last word on a key is its value, unless there is something unsaid of it. -/
def Honest (log : List μ) (unsaid : κ → Prop) (value : κ → ν) : Prop :=
  ∀ k, ¬unsaid k → ∀ p m, log[p]? = some m → Silent word log (p + 1) k →
    ∀ v, word m k = some v → v = value k

/-- With the messages from position `p` on, the copy comes to the source's values: what they say
nothing of, and of which nothing is unsaid, it has already. -/
def Current (log : List μ) (unsaid : κ → Prop) (value : κ → ν) (p : ℕ) (copy : κ → ν) : Prop :=
  ∀ k, ¬unsaid k → Silent word log p k → copy k = value k

variable {word} {log : List μ} {unsaid unsaid' : κ → Prop} {value value' copy copy' : κ → ν}
  {p q : ℕ} {m : μ} {k : κ}

theorem Silent.weaken (h : Silent word log p k) (hpq : p ≤ q) : Silent word log q k :=
  fun m hm => h m ((List.drop_suffix_drop_left log hpq).subset hm)

theorem silent_append (hp : p ≤ log.length) :
    Silent word (log ++ [m]) p k ↔ Silent word log p k ∧ word m k = none := by
  unfold Silent
  rw [List.drop_append_of_le_length hp]
  simp only [List.mem_append, List.mem_singleton]
  constructor
  · exact fun h => ⟨fun m' hm' => h m' (.inl hm'), h m (.inr rfl)⟩
  · rintro ⟨h, hm⟩ m' (hm' | rfl)
    · exact h m' hm'
    · exact hm

theorem honest_nil : Honest word [] unsaid value :=
  fun _ _ _ _ hm => nomatch hm

/-! ### The source goes on -/

/-- Values change, and what changes is unsaid. -/
theorem Honest.changes (h : Honest word log unsaid value)
    (hk : ∀ k, ¬unsaid' k → ¬unsaid k ∧ value' k = value k) : Honest word log unsaid' value' := by
  intro k hunsaid p m hm hsilent v hv
  obtain ⟨hold, heq⟩ := hk k hunsaid
  rw [heq]
  exact h k hold p m hm hsilent v hv

theorem Current.changes (h : Current word log unsaid value p copy)
    (hk : ∀ k, ¬unsaid' k → ¬unsaid k ∧ value' k = value k) :
    Current word log unsaid' value' p copy := by
  intro k hunsaid hsilent
  obtain ⟨hold, heq⟩ := hk k hunsaid
  rw [heq]
  exact h k hold hsilent

/-- A message is said: what it says is so, and what is no longer unsaid it says. -/
theorem Honest.tells (h : Honest word log unsaid value)
    (hv : ∀ k v, ¬unsaid' k → word m k = some v → v = value k)
    (hk : ∀ k, ¬unsaid' k → word m k = none → ¬unsaid k) :
    Honest word (log ++ [m]) unsaid' value := by
  intro k hunsaid p m' hm' hsilent v hv'
  obtain hlt | hge := Nat.lt_or_ge p log.length
  · rw [List.getElem?_append_left hlt] at hm'
    obtain ⟨hsilent, hnone⟩ := (silent_append (Nat.succ_le_of_lt hlt)).mp hsilent
    exact h k (hk k hunsaid hnone) p m' hm' hsilent v hv'
  · rw [List.getElem?_append_right hge] at hm'
    obtain rfl : m = m' := by
      cases hsub : p - log.length with
      | zero => simpa [hsub] using hm'
      | succ n => simp [hsub] at hm'
    exact hv k v hunsaid hv'

theorem Current.tells (h : Current word log unsaid value p copy) (hp : p ≤ log.length)
    (hk : ∀ k, ¬unsaid' k → word m k = none → ¬unsaid k) :
    Current word (log ++ [m]) unsaid' value p copy := by
  intro k hunsaid hsilent
  obtain ⟨hsilent, hnone⟩ := (silent_append hp).mp hsilent
  exact h k (hk k hunsaid hnone) hsilent

/-- The source goes on, by what it changes and says: every copy that was current still is. -/
structure Onward (word : μ → κ → Option ν) (log log' : List μ) (unsaid unsaid' : κ → Prop)
    (value value' : κ → ν) : Prop where
  length : log.length ≤ log'.length
  honest : Honest word log unsaid value → Honest word log' unsaid' value'
  current : ∀ {p copy}, p ≤ log.length → Current word log unsaid value p copy →
    Current word log' unsaid' value' p copy

theorem Onward.refl : Onward word log log unsaid unsaid value value :=
  ⟨Nat.le_refl _, id, fun _ h => h⟩

theorem Onward.trans {log' log'' : List μ} {unsaid'' : κ → Prop} {value'' : κ → ν}
    (h : Onward word log log' unsaid unsaid' value value')
    (h' : Onward word log' log'' unsaid' unsaid'' value' value'') :
    Onward word log log'' unsaid unsaid'' value value'' where
  length := Nat.le_trans h.length h'.length
  honest := fun hon => h'.honest (h.honest hon)
  current := fun hp hcur => h'.current (Nat.le_trans hp h.length) (h.current hp hcur)

theorem Onward.changes (hk : ∀ k, ¬unsaid' k → ¬unsaid k ∧ value' k = value k) :
    Onward word log log unsaid unsaid' value value' :=
  ⟨Nat.le_refl _, fun h => h.changes hk, fun _ h => h.changes hk⟩

theorem Onward.tells (hv : ∀ k v, ¬unsaid' k → word m k = some v → v = value k)
    (hk : ∀ k, ¬unsaid' k → word m k = none → ¬unsaid k) :
    Onward word log (log ++ [m]) unsaid unsaid' value value where
  length := by simp
  honest := fun h => h.tells hv hk
  current := fun hp h => h.tells hp hk

/-- A message about something else. -/
theorem Onward.tells_nothing (hm : ∀ k, word m k = none) :
    Onward word log (log ++ [m]) unsaid unsaid value value :=
  .tells (fun k _ _ hv => nomatch (hm k).symm.trans hv) fun _ h _ => h

/-! ### A copy -/

/-- A copy of the source is current where the log ends. -/
theorem Current.taken (h : ∀ k, ¬unsaid k → copy k = value k) :
    Current word log unsaid value p copy :=
  fun k hunsaid _ => h k hunsaid

/-- A copy at a position is as good at an earlier one. -/
theorem Current.weaken (h : Current word log unsaid value q copy) (hpq : p ≤ q) :
    Current word log unsaid value p copy :=
  fun k hunsaid hsilent => h k hunsaid (hsilent.weaken hpq)

/-- The next message is applied to the copy. -/
theorem Current.delivers (h : Current word log unsaid value p copy)
    (hon : Honest word log unsaid value) (hm : log[p]? = some m)
    (hcopy : ∀ k, copy' k = (word m k).getD (copy k)) :
    Current word log unsaid value (p + 1) copy' := by
  intro k hunsaid hsilent
  rw [hcopy]
  cases hword : word m k with
  | some v => exact hon k hunsaid p m hm hsilent v hword
  | none =>
    refine h k hunsaid fun m' hm' => ?_
    obtain ⟨hlt, hget⟩ := List.getElem?_eq_some_iff.mp hm
    rw [List.drop_eq_getElem_cons hlt, hget] at hm'
    obtain rfl | hm' := List.mem_cons.mp hm'
    · exact hword
    · exact hsilent m' hm'

/-- With every message delivered, what is not unsaid is as at the source. -/
theorem Current.eq (h : Current word log unsaid value p copy) (hp : log.length ≤ p)
    (hk : ¬unsaid k) : copy k = value k := by
  refine h k hk fun m hm => ?_
  rw [List.drop_eq_nil_of_le hp] at hm
  cases hm

end Feed
