import Mathlib.Data.List.Basic

/-!
# Cuts

A list cut at the first, or at the last, occurrence of an element.

## Main definitions

* `breakAt u l` — what is before the first `u`, and what is behind it.
* `cutLast u l` — what is before the last `u`, and what is behind it.

## Main results

* `eq_of_breakAt`, `eq_of_cutLast` — the two pieces make up the list.
-/

variable {α : Type*} [DecidableEq α] {u : α} {l a b : List α}

/-- What is before the first occurrence of `u`, and what is behind it. -/
def breakAt (u : α) : List α → Option (List α × List α)
  | [] => none
  | a :: l => if a = u then some ([], l) else (breakAt u l).map fun p => (a :: p.1, p.2)

/-- The parts, with the mark between them, are the whole. -/
theorem eq_of_breakAt (h : breakAt u l = some (a, b)) : l = a ++ u :: b := by
  induction l generalizing a with
  | nil => cases h
  | cons x l ih =>
    unfold breakAt at h
    split at h
    · next hx =>
      obtain ⟨rfl, rfl⟩ := Prod.mk.inj (Option.some.inj h)
      rw [hx, List.nil_append]
    · obtain ⟨⟨a', b'⟩, hp, heq⟩ := Option.map_eq_some_iff.mp h
      obtain ⟨rfl, rfl⟩ := Prod.mk.inj heq
      rw [ih hp, List.cons_append]

theorem length_of_breakAt (h : breakAt u l = some (a, b)) : b.length < l.length := by
  rw [eq_of_breakAt h, List.length_append, List.length_cons]
  omega

theorem breakAt_append {m : List α} (h : u ∉ l) :
    breakAt u (l ++ m) = (breakAt u m).map fun p => (l ++ p.1, p.2) := by
  induction l with
  | nil => simp
  | cons x l ih =>
    have hx : x ≠ u := fun hx => h (hx ▸ List.mem_cons_self)
    have hl : u ∉ l := fun hl => h (List.mem_cons_of_mem x hl)
    rw [List.cons_append, breakAt, if_neg hx, ih hl, Option.map_map]
    rfl

/-- The cut is at the first mark. -/
theorem breakAt_append_cons (h : u ∉ a) :
    breakAt u (a ++ u :: b) = some (a, b) := by
  rw [breakAt_append h, breakAt, if_pos rfl, Option.map_some, List.append_nil]

/-- What is before the last occurrence of `u`, and what is behind it. -/
def cutLast (u : α) : List α → Option (List α × List α)
  | [] => none
  | a :: l =>
    match cutLast u l with
    | some (before, after) => some (a :: before, after)
    | none => if a = u then some ([], l) else none

theorem not_mem_of_cutLast (h : cutLast u l = none) : u ∉ l := by
  induction l with
  | nil => exact List.not_mem_nil
  | cons a l ih =>
    unfold cutLast at h
    split at h
    · cases h
    · next hl =>
      split at h
      · cases h
      · next ha =>
        rintro (_ | ⟨_, hmem⟩)
        · exact ha rfl
        · exact ih hl hmem

theorem eq_of_cutLast {before after : List α}
    (h : cutLast u l = some (before, after)) : l = before ++ u :: after ∧ u ∉ after := by
  induction l generalizing before with
  | nil => cases h
  | cons a l ih =>
    unfold cutLast at h
    split at h
    · next before' after' hl =>
      obtain ⟨rfl, rfl⟩ := Prod.mk.inj (Option.some.inj h)
      obtain ⟨rfl, hafter⟩ := ih hl
      exact ⟨rfl, hafter⟩
    · next hl =>
      split at h
      · next ha =>
        obtain ⟨rfl, rfl⟩ := Prod.mk.inj (Option.some.inj h)
        exact ⟨by rw [ha]; rfl, not_mem_of_cutLast hl⟩
      · cases h

theorem cutLast_of_not_mem (h : u ∉ l) :
    cutLast u l = none := by
  cases hl : cutLast u l with
  | none => rfl
  | some p => exact absurd (by rw [(eq_of_cutLast hl).1]; simp) h

/-- The cut is at the last mark. -/
theorem cutLast_append_cons (h : u ∉ b) :
    cutLast u (a ++ u :: b) = some (a, b) := by
  induction a with
  | nil => rw [List.nil_append, cutLast, cutLast_of_not_mem h, if_pos rfl]
  | cons x a ih => rw [List.cons_append, cutLast, ih]
