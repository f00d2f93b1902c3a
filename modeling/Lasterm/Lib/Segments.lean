import Mathlib.Data.Int.Notation
import Mathlib.Data.List.Basic
import Mathlib.Tactic.TypeStar

/-!
# Names between separators

A path is a list of names, each written after a separator.  Read back, it is cut at the
separators, and the empty pieces are left out, so that repeated separators count as one.
The last name and what it is in are found by the last separator.

## Main definitions

* `below sep ns` — the names `ns`, each after a separator.
* `names sep s` — the non-empty pieces of `s` between separators.
* `lastIndexOf c s`, `sliceTo s i`, `sliceFrom s i` — the last place of `c`, and what is
  before and from a place on, as JavaScript counts them.

## Main results

* `names_below`, `names_intercalate` — names without separators are read back.
* `not_mem_of_mem_splitOn` — a piece has no separator.
* `lastIndexOf_append_cons` — the last separator is the one before the last name.
-/

namespace Segments

open List

variable {α : Type*}

/-! ### Names and their text -/

/-- The names `ns`, each after a separator. -/
def below (sep : α) (ns : List (List α)) : List α := ns.flatMap (sep :: ·)

section

variable (sep : α)

@[simp] theorem below_nil : below sep [] = [] := rfl

@[simp] theorem below_cons (n : List α) (ns : List (List α)) :
    below sep (n :: ns) = sep :: n ++ below sep ns := rfl

theorem below_append (ns ms : List (List α)) :
    below sep (ns ++ ms) = below sep ns ++ below sep ms := flatMap_append

theorem below_concat (ns : List (List α)) (n : List α) :
    below sep (ns ++ [n]) = below sep ns ++ sep :: n := by
  rw [below_append, below_cons, below_nil, append_nil]

variable {ns : List (List α)}

/-- A list of names, written with separators between them, after one more. -/
theorem cons_intercalate (h : ns ≠ []) : sep :: [sep].intercalate ns = below sep ns := by
  induction ns with
  | nil => exact absurd rfl h
  | cons n ns ih =>
    cases ns with
    | nil => simp [intercalate]
    | cons m ns =>
      rw [intercalate_cons_cons, below_cons, ← ih (by simp)]
      simp

variable [DecidableEq α]

/-- The non-empty pieces of `s` between separators. -/
def names (s : List α) : List (List α) := (s.splitOn sep).filter (· ≠ [])

theorem splitOn_below (h : ∀ n ∈ ns, sep ∉ n) (s : List α)
    (hs : sep ∉ s) : (s ++ below sep ns).splitOn sep = s :: ns := by
  induction ns generalizing s with
  | nil => rw [below_nil, append_nil, splitOn_eq_singleton hs]
  | cons n ns ih =>
    obtain ⟨hn, hns⟩ := forall_mem_cons.mp h
    rw [below_cons, cons_append, splitOn_append_cons_self_of_not_mem hs, ih hns n hn]

/-- **Names are read back.** -/
theorem names_below (hsep : ∀ n ∈ ns, sep ∉ n)
    (hne : ∀ n ∈ ns, n ≠ []) : names sep (below sep ns) = ns := by
  have hsplit := splitOn_below sep hsep [] not_mem_nil
  rw [nil_append] at hsplit
  rw [names, hsplit, filter_cons_of_neg (by simp)]
  exact filter_eq_self.mpr fun n hn => decide_eq_true (hne n hn)

/-- A separator at the front separates nothing. -/
theorem names_cons (s : List α) : names sep (sep :: s) = names sep s := by
  have hsplit : (sep :: s).splitOn sep = [] :: s.splitOn sep := by
    have hnil : sep ∉ ([] : List α) := not_mem_nil
    simpa using splitOn_append_cons_self_of_not_mem hnil s
  rw [names, hsplit, filter_cons_of_neg (by simp), names]

theorem names_intercalate (hsep : ∀ n ∈ ns, sep ∉ n)
    (hne : ∀ n ∈ ns, n ≠ []) : names sep ([sep].intercalate ns) = ns := by
  cases ns with
  | nil => rfl
  | cons n ns =>
    rw [← names_cons, cons_intercalate sep (by simp), names_below sep hsep hne]

end

variable [DecidableEq α] {sep : α} {s n : List α}

/-- No piece of a split holds what it was split at. -/
theorem not_mem_of_mem_splitOn (h : n ∈ s.splitOn sep) : sep ∉ n := by
  induction s generalizing n with
  | nil =>
    rw [splitOn_nil, mem_singleton] at h
    exact h ▸ not_mem_nil
  | cons x s ih =>
    rw [splitOn_cons_eq_if_modifyHead] at h
    split at h
    · obtain rfl | h := mem_cons.mp h
      · exact not_mem_nil
      · exact ih h
    next hx =>
      cases hs : s.splitOn sep with
      | nil => exact absurd hs (splitOn_ne_nil sep s)
      | cons m ms =>
        rw [hs] at h ih
        obtain rfl | h := mem_cons.mp h
        · intro hmem
          obtain rfl | hmem := mem_cons.mp hmem
          · exact hx (beq_self_eq_true _)
          · exact ih mem_cons_self hmem
        · exact ih (mem_cons_of_mem _ h)

variable {c : α}

/-- Each piece of a split is made of what was split. -/
theorem mem_of_mem_splitOn (h : n ∈ s.splitOn sep) (hc : c ∈ n) : c ∈ s := by
  induction s generalizing n with
  | nil =>
    rw [splitOn_nil, mem_singleton] at h
    exact h ▸ hc
  | cons x s ih =>
    rw [splitOn_cons_eq_if_modifyHead] at h
    split at h
    · obtain rfl | h := mem_cons.mp h
      · exact absurd hc not_mem_nil
      · exact mem_cons_of_mem _ (ih h hc)
    · cases hs : s.splitOn sep with
      | nil => exact absurd hs (splitOn_ne_nil sep s)
      | cons m ms =>
        rw [hs] at h ih
        obtain rfl | h := mem_cons.mp h
        · obtain rfl | hc := mem_cons.mp hc
          · exact mem_cons_self
          · exact mem_cons_of_mem _ (ih mem_cons_self hc)
        · exact mem_cons_of_mem _ (ih (mem_cons_of_mem _ h) hc)

theorem mem_names (h : n ∈ names sep s) : n ≠ [] ∧ sep ∉ n ∧ ∀ c ∈ n, c ∈ s := by
  obtain ⟨hmem, hne⟩ := mem_filter.mp h
  exact ⟨of_decide_eq_true hne, not_mem_of_mem_splitOn hmem, fun _ => mem_of_mem_splitOn hmem⟩

/-! ### The last separator -/

/-- The last place of `c` in `s`, and -1 where it has none. -/
def lastIndexOf (c : α) : List α → ℤ
  | [] => -1
  | x :: s =>
    let i := lastIndexOf c s
    if 0 ≤ i then i + 1 else if x = c then 0 else -1

/-- What is before place `i`; a negative place is counted from the end. -/
def sliceTo (s : List α) (i : ℤ) : List α :=
  if 0 ≤ i then s.take i.toNat else s.take (s.length - i.natAbs)

/-- What is from place `i` on. -/
def sliceFrom (s : List α) (i : ℤ) : List α :=
  if 0 ≤ i then s.drop i.toNat else s.drop (s.length - i.natAbs)

theorem lastIndexOf_of_not_mem (h : c ∉ s) : lastIndexOf c s = -1 := by
  induction s with
  | nil => rfl
  | cons x s ih =>
    have hx : c ≠ x := ne_of_not_mem_cons h
    rw [lastIndexOf, ih (not_mem_of_not_mem_cons h), if_neg (by omega), if_neg hx.symm]

variable {t : List α}

/-- **The last separator** is the one that nothing after it repeats. -/
theorem lastIndexOf_append_cons (s : List α) (h : c ∉ t) :
    lastIndexOf c (s ++ c :: t) = s.length := by
  induction s with
  | nil =>
    rw [nil_append, lastIndexOf, lastIndexOf_of_not_mem h, if_neg (by omega), if_pos rfl]
    rfl
  | cons x s ih =>
    rw [cons_append, lastIndexOf, ih, if_pos (by omega), length_cons]
    rfl

theorem sliceTo_lastIndexOf (s : List α) (h : c ∉ t) :
    sliceTo (s ++ c :: t) (lastIndexOf c (s ++ c :: t)) = s := by
  rw [lastIndexOf_append_cons s h, sliceTo, if_pos (by omega), Int.toNat_natCast,
    take_left]

theorem sliceFrom_lastIndexOf (s : List α) (h : c ∉ t) :
    sliceFrom (s ++ c :: t) (lastIndexOf c (s ++ c :: t) + 1) = t := by
  have hdrop : (s ++ c :: t).drop (s.length + 1) = t := by
    rw [← drop_drop, drop_left, drop_succ_cons, drop_zero]
  rw [lastIndexOf_append_cons s h, sliceFrom, if_pos (by omega)]
  exact hdrop

end Segments
