import Mathlib.Data.List.Nodup
import Mathlib.Order.Nat

/-!
# Rows under a unique key

The rows of a table that a unique index keeps in the order of a key.  That the keys are
strictly increasing is a field of the type, so two rows of one key cannot be built: an
insertion under a key that is taken is refused.

## Main definitions

* `UniqueIndex key` — `insert`, `filter`, `maxKey`, `latest`.

## Main results

* `rows_insert_of_above` — a row above all the others goes to the end, and is not refused.
* `latest_eq_some_iff` — the last row that passes a test.
-/

/-- Rows in the strict order of their key. -/
structure UniqueIndex {α : Type*} (key : α → ℕ) where
  rows : List α
  sorted : rows.Pairwise fun a b => key a < key b

namespace UniqueIndex

open List

variable {α : Type*} {key : α → ℕ}

/-- No row. -/
def empty : UniqueIndex key := ⟨[], .nil⟩

/-- The rows that pass a test. -/
def filter (p : α → Bool) (t : UniqueIndex key) : UniqueIndex key where
  rows := t.rows.filter p
  sorted := t.sorted.filter p

/-- One more row at its place; refused when its key is taken. -/
def insert (t : UniqueIndex key) (a : α) : Option (UniqueIndex key) :=
  if ∀ r ∈ t.rows, key r ≠ key a then
    some
      { rows := t.rows.filter (key · < key a) ++ a :: t.rows.filter (key a < key ·)
        sorted := by
          refine pairwise_append.mpr ⟨t.sorted.filter _, ?_, ?_⟩
          · refine pairwise_cons.mpr ⟨?_, t.sorted.filter _⟩
            intro r hr
            simpa using (mem_filter.mp hr).2
          · intro r hr r' hr'
            have hlow : key r < key a := by simpa using (mem_filter.mp hr).2
            rcases mem_cons.mp hr' with rfl | hhigh
            · exact hlow
            · exact hlow.trans (by simpa using (mem_filter.mp hhigh).2) }
  else none

/-- The highest key, and zero when there is no row. -/
def maxKey (t : UniqueIndex key) : ℕ := (t.rows.getLast?.map key).getD 0

/-- The row of the highest key among those that pass a test. -/
def latest (p : α → Bool) (t : UniqueIndex key) : Option α := (t.rows.filter p).getLast?

@[simp] theorem rows_filter (p : α → Bool) (t : UniqueIndex key) :
    (t.filter p).rows = t.rows.filter p := rfl

/-- Rows of one key are one row. -/
theorem eq_of_key_eq (t : UniqueIndex key) {a b : α} (ha : a ∈ t.rows) (hb : b ∈ t.rows)
    (h : key a = key b) : a = b := by
  have hnodup : (t.rows.map key).Nodup := pairwise_map.mpr (t.sorted.imp ne_of_lt)
  exact inj_on_of_nodup_map hnodup ha hb h

/-- The last of sorted rows has the highest key. -/
theorem key_le_of_getLast? {l : List α} (h : l.Pairwise fun a b => key a < key b) {m : α}
    (hm : l.getLast? = some m) {a : α} (ha : a ∈ l) : key a ≤ key m := by
  obtain ⟨front, rfl⟩ := getLast?_eq_some_iff.mp hm
  rcases mem_append.mp ha with hfront | hlast
  · exact le_of_lt ((pairwise_append.mp h).2.2 a hfront m (by simp))
  · obtain rfl : a = m := by simpa using hlast
    exact le_rfl

theorem le_maxKey (t : UniqueIndex key) {a : α} (ha : a ∈ t.rows) : key a ≤ t.maxKey := by
  cases hlast : t.rows.getLast? with
  | none => simp [getLast?_eq_none_iff.mp hlast] at ha
  | some m =>
    rw [maxKey, hlast]
    exact key_le_of_getLast? t.sorted hlast ha

/-- The highest key is that of a row, or there is none. -/
theorem maxKey_eq (t : UniqueIndex key) :
    t.rows = [] ∧ t.maxKey = 0 ∨ ∃ a ∈ t.rows, key a = t.maxKey := by
  cases hlast : t.rows.getLast? with
  | none => exact .inl ⟨getLast?_eq_none_iff.mp hlast, by rw [maxKey, hlast]; rfl⟩
  | some m => exact .inr ⟨m, mem_of_getLast? hlast, by rw [maxKey, hlast]; rfl⟩

theorem maxKey_of_snoc {t : UniqueIndex key} {l : List α} {a : α} (h : t.rows = l ++ [a]) :
    t.maxKey = key a := by
  simp [maxKey, h]

theorem maxKey_le_of_above (t : UniqueIndex key) {k : ℕ} (h : ∀ r ∈ t.rows, key r < k) :
    t.maxKey ≤ k := by
  rcases t.maxKey_eq with ⟨-, hzero⟩ | ⟨a, ha, hkey⟩
  · omega
  · exact (hkey ▸ h a ha).le

/-- A row that is above all the others is not refused, and goes to the end. -/
theorem rows_insert_of_above (t : UniqueIndex key) {a : α} (h : ∀ r ∈ t.rows, key r < key a) :
    ∃ t', t.insert a = some t' ∧ t'.rows = t.rows ++ [a] := by
  refine ⟨_, if_pos fun r hr => (h r hr).ne, ?_⟩
  have hlow : t.rows.filter (key · < key a) = t.rows :=
    filter_eq_self.mpr fun r hr => by simpa using h r hr
  have hhigh : t.rows.filter (key a < key ·) = [] :=
    filter_eq_nil_iff.mpr fun r hr => by simpa using (h r hr).le
  simp only [hlow, hhigh]

theorem latest_eq_some_iff (t : UniqueIndex key) (p : α → Bool) (a : α) :
    t.latest p = some a ↔
      a ∈ t.rows ∧ p a = true ∧ ∀ r ∈ t.rows, p r = true → key r ≤ key a := by
  have hsorted : (t.rows.filter p).Pairwise fun a b => key a < key b := t.sorted.filter p
  unfold latest
  constructor
  · intro h
    have hmem := mem_filter.mp (mem_of_getLast? h)
    exact ⟨hmem.1, hmem.2, fun r hr hp =>
      key_le_of_getLast? hsorted h (mem_filter.mpr ⟨hr, hp⟩)⟩
  · rintro ⟨ha, hp, hmax⟩
    have hmem : a ∈ t.rows.filter p := mem_filter.mpr ⟨ha, hp⟩
    cases hlast : (t.rows.filter p).getLast? with
    | none => simp [getLast?_eq_none_iff.mp hlast] at hmem
    | some m =>
      obtain ⟨front, hfront⟩ := getLast?_eq_some_iff.mp hlast
      have hm := mem_filter.mp (mem_of_getLast? hlast)
      have hle : key m ≤ key a := hmax m hm.1 hm.2
      rw [hfront] at hmem hsorted
      rcases mem_append.mp hmem with hin | hin
      · -- Before the last one it would have a lower key.
        have hlt := (pairwise_append.mp hsorted).2.2 a hin m (by simp)
        omega
      · obtain rfl : a = m := by simpa using hin
        rfl

end UniqueIndex
