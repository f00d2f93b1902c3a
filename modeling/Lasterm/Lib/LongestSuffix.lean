import Mathlib.Data.List.Infix

/-!
# The longest suffix that passes a test

What a log keeps when it gives up its oldest entries until the rest fits.  The test is of a
whole list, so a sum over what is kept may be bounded.  Where a list that passes has only
suffixes that pass, the longest one is found from the end: go down the list as long as what
lies behind passes, and stop at the first entry with which it does not.

## Main definitions

* `List.longestSuffix p l` — the longest suffix of `l` that passes `p`, or the empty one.

## Main results

* `suffix_longestSuffix_of_suffix` — no suffix that passes is longer.
* `longestSuffix_append_cons` — it is what lies behind the first entry, from the end, with
  which it does not pass.
-/

namespace List

variable {α : Type*} (p : List α → Prop) [DecidablePred p]

/-- The longest suffix of a list that passes a test; the empty one when none does. -/
def longestSuffix : List α → List α
  | [] => []
  | a :: l => if p (a :: l) then a :: l else longestSuffix l

variable {p}

theorem longestSuffix_suffix (l : List α) : longestSuffix p l <:+ l := by
  induction l with
  | nil => exact suffix_rfl
  | cons a l ih =>
    unfold longestSuffix
    split_ifs
    · exact suffix_rfl
    · exact ih.trans (suffix_cons a l)

theorem longestSuffix_passes (l : List α) : longestSuffix p l = [] ∨ p (longestSuffix p l) := by
  induction l with
  | nil => exact .inl rfl
  | cons a l ih =>
    unfold longestSuffix
    split_ifs with hp
    · exact .inr hp
    · exact ih

/-- No suffix that passes is longer. -/
theorem suffix_longestSuffix_of_suffix {l s : List α} (hs : s <:+ l) (hp : p s) :
    s <:+ longestSuffix p l := by
  induction l with
  | nil => exact hs
  | cons a l ih =>
    unfold longestSuffix
    rcases suffix_cons_iff.mp hs with rfl | htail
    · rw [if_pos hp]
    · split_ifs
      · exact hs
      · exact ih htail

theorem longestSuffix_eq_self {l : List α} (h : p l) : longestSuffix p l = l := by
  cases l with
  | nil => rfl
  | cons a l => exact if_pos h

/-- Found from the end: an entry with which the rest does not pass, and the passing rest. -/
theorem longestSuffix_append_cons (hclosed : ∀ a l, p (a :: l) → p l) (front : List α) {a : α}
    {rest : List α} (hstop : ¬p (a :: rest)) (hrest : rest = [] ∨ p rest) :
    longestSuffix p (front ++ a :: rest) = rest := by
  -- In front of an entry that stops, nothing passes.
  have hfront : ∀ front : List α, ¬p (front ++ a :: rest) := by
    intro front
    induction front with
    | nil => exact hstop
    | cons b front ih => exact fun hp => ih (hclosed b _ hp)
  induction front with
  | nil =>
    rw [nil_append, longestSuffix, if_neg hstop]
    rcases hrest with rfl | hp
    · rfl
    · exact longestSuffix_eq_self hp
  | cons b front ih =>
    have hb : ¬p (b :: (front ++ a :: rest)) := hfront (b :: front)
    rw [cons_append, longestSuffix, if_neg hb, ih]

end List
