import Mathlib.Data.List.Basic

/-!
# Marks in a log

A log is a list whose entries may carry output and may carry a mark.  `After` relates a
mark of the log to the output of the entries behind it, so that a statement about what
follows a mark can be carried from one log to another that is made from it: longer by some
entries, with entries left out or rewritten, or grouped.

## Main definitions

* `After mark out l x b` — the log `l` has the mark `x`, with the output `b` behind it.

## Main results

* `after_append` — a mark of a longer log.
* `After.of_filterMap` — a log that keeps every output and adds no mark.
* `After.of_flatMap` — a log made from groups, group by group.
-/

namespace Marks

open List

variable {α α' β σ σ' : Type*}

/-- The log has the mark `x`, and behind it the output `b`. -/
def After (mark : α → Option σ) (out : α → List β) (l : List α) (x : σ) (b : List β) : Prop :=
  ∃ pre a post, l = pre ++ a :: post ∧ mark a = some x ∧ b = post.flatMap out

variable {mark : α → Option σ} {out : α → List β} {l l' : List α} {x : σ} {b : List β}

theorem not_after_nil : ¬After mark out [] x b := by
  rintro ⟨pre, a, post, hl, -, -⟩
  exact append_ne_nil_of_right_ne_nil pre (cons_ne_nil a post) hl.symm

/-- A mark has an entry. -/
theorem After.exists_mem (h : After mark out l x b) : ∃ a ∈ l, mark a = some x := by
  obtain ⟨pre, a, post, rfl, ha, -⟩ := h
  exact ⟨a, mem_append_right _ mem_cons_self, ha⟩

/-- A mark of a longer log was there with less behind it, or is a mark of what was added. -/
theorem after_append : After mark out (l ++ l') x b ↔
    (∃ b₀, After mark out l x b₀ ∧ b = b₀ ++ l'.flatMap out) ∨ After mark out l' x b := by
  constructor
  · rintro ⟨pre, a, post, hl, ha, rfl⟩
    rcases append_eq_append_iff.mp hl with ⟨as, rfl, hl'⟩ | ⟨bs, rfl, hbs⟩
    · exact .inr ⟨as, a, post, hl', ha, rfl⟩
    · cases bs with
      | nil => exact .inr ⟨[], a, post, hbs.symm, ha, rfl⟩
      | cons a' bs =>
        obtain ⟨rfl, rfl⟩ := cons.inj hbs
        exact .inl ⟨bs.flatMap out, ⟨pre, a, bs, rfl, ha, rfl⟩, flatMap_append⟩
  · rintro (⟨b₀, ⟨pre, a, post, rfl, ha, rfl⟩, rfl⟩ | ⟨pre, a, post, rfl, ha, rfl⟩)
    · exact ⟨pre, a, post ++ l', by simp, ha, by simp⟩
    · exact ⟨l ++ pre, a, post, by simp, ha, rfl⟩

/-- Entries are left out or rewritten so that no output changes. -/
theorem flatMap_filterMap_of_elim {f : α → Option α'} {out' : α' → List β}
    (hout : ∀ a, (f a).elim [] out' = out a) (l : List α) :
    (l.filterMap f).flatMap out' = l.flatMap out := by
  induction l with
  | nil => rfl
  | cons a l ih =>
    rw [flatMap_cons, ← hout a, ← ih]
    cases hf : f a <;> simp [hf]

/-- Entries are left out or rewritten so that no output changes and no mark is made up. -/
theorem After.of_filterMap {f : α → Option α'} {mark' : α' → Option σ'} {out' : α' → List β}
    {x' : σ'} (hmark : ∀ a e, f a = some e → mark' e = some x' → mark a = some x)
    (hout : ∀ a, (f a).elim [] out' = out a)
    (h : After mark' out' (l.filterMap f) x' b) : After mark out l x b := by
  induction l with
  | nil => exact absurd h not_after_nil
  | cons a l ih =>
    cases hf : f a with
    | none =>
      rw [filterMap_cons_none hf] at h
      obtain ⟨pre, e, post, rfl, he, rfl⟩ := ih h
      exact ⟨a :: pre, e, post, rfl, he, rfl⟩
    | some e =>
      rw [filterMap_cons_some hf] at h
      obtain ⟨pre, e', post, hl, he', rfl⟩ := h
      cases pre with
      | nil =>
        obtain ⟨rfl, rfl⟩ := cons.inj hl
        exact ⟨[], a, l, rfl, hmark a e hf he', flatMap_filterMap_of_elim hout l⟩
      | cons e₀ pre =>
        obtain ⟨-, hrest⟩ := cons.inj hl
        obtain ⟨pre', a', post', rfl, ha', hb⟩ := ih ⟨pre, e', post, hrest, he', rfl⟩
        exact ⟨a :: pre', a', post', rfl, ha', hb⟩

/-- A log made from groups, each of whose marks is one of its group with the same output. -/
theorem After.of_flatMap {groups : List (List α)} {f : List α → List α'}
    {mark' : α' → Option σ'} {out' : α' → List β} {x' : σ'}
    (hmark : ∀ g ∈ groups, ∀ b, After mark' out' (f g) x' b → After mark out g x b)
    (hout : ∀ g, (f g).flatMap out' = g.flatMap out)
    (h : After mark' out' (groups.flatMap f) x' b) : After mark out groups.flatten x b := by
  induction groups generalizing b with
  | nil => exact absurd h not_after_nil
  | cons g groups ih =>
    have hrest : (groups.flatMap f).flatMap out' = groups.flatten.flatMap out := by
      clear hmark h ih
      induction groups with
      | nil => rfl
      | cons g groups ih =>
        rw [flatMap_cons, flatMap_append, hout, ih, flatten_cons, flatMap_append]
    rw [flatMap_cons] at h
    rw [flatten_cons]
    rcases after_append.mp h with ⟨b₀, hb₀, rfl⟩ | h
    · exact after_append.mpr (.inl ⟨b₀, hmark g mem_cons_self b₀ hb₀, by rw [hrest]⟩)
    · exact after_append.mpr
        (.inr (ih (fun g' hg' => hmark g' (mem_cons_of_mem _ hg')) h))

end Marks
