import Mathlib.Data.List.Nodup
import Mathlib.Order.Lattice

/-!
# Maps kept in the order of their keys

A map as a list of entries whose keys increase, which is how a tree map is read out.  That the keys
increase is a field of the type, so a key has one entry at most.

## Main definitions

* `SortedMap κ ν` — `get`, `insert`, `erase`, and its `values` in the order of the keys.

## Main results

* `get_eq_some_iff` — what a key stands for is the entry it has.
* `get_insert`, `get_erase` — what a change does to each key.
-/

/-- Entries in the strict order of their keys. -/
structure SortedMap (κ ν : Type*) [LinearOrder κ] where
  entries : List (κ × ν)
  sorted : entries.Pairwise fun a b => a.1 < b.1

namespace SortedMap

variable {κ ν : Type*} [LinearOrder κ]

/-- No entry. -/
def empty : SortedMap κ ν := ⟨[], .nil⟩

/-- What a key stands for. -/
def get (m : SortedMap κ ν) (k : κ) : Option ν :=
  (m.entries.find? fun e => e.1 = k).map Prod.snd

/-- The key `k` stands for `v`, whether it had an entry or not. -/
def insert (m : SortedMap κ ν) (k : κ) (v : ν) : SortedMap κ ν where
  entries := m.entries.filter (·.1 < k) ++ (k, v) :: m.entries.filter (k < ·.1)
  sorted := by
    refine List.pairwise_append.mpr ⟨m.sorted.filter _, ?_, ?_⟩
    · refine List.pairwise_cons.mpr ⟨fun e he => ?_, m.sorted.filter _⟩
      simpa using (List.mem_filter.mp he).2
    · intro e he e' he'
      have hlow : e.1 < k := by simpa using (List.mem_filter.mp he).2
      rcases List.mem_cons.mp he' with rfl | hhigh
      · exact hlow
      · exact hlow.trans (by simpa using (List.mem_filter.mp hhigh).2)

/-- The key `k` has no entry. -/
def erase (m : SortedMap κ ν) (k : κ) : SortedMap κ ν where
  entries := m.entries.filter (·.1 ≠ k)
  sorted := m.sorted.filter _

/-- What the keys stand for, in their order. -/
def values (m : SortedMap κ ν) : List ν := m.entries.map Prod.snd

section

variable (m : SortedMap κ ν)
include m

theorem nodup_keys : (m.entries.map Prod.fst).Nodup :=
  List.pairwise_map.mpr (m.sorted.imp ne_of_lt)

/-- A key has the value that is stored under it. -/
theorem get_eq_some_iff (k : κ) (v : ν) :
    m.get k = some v ↔ (k, v) ∈ m.entries := by
  unfold get
  constructor
  · intro h
    obtain ⟨⟨k', v'⟩, hfind, rfl⟩ := Option.map_eq_some_iff.mp h
    obtain rfl : k' = k := by simpa using List.find?_some hfind
    exact List.mem_of_find?_eq_some hfind
  · intro hmem
    cases hfind : m.entries.find? fun e => e.1 = k with
    | none => simpa using List.find?_eq_none.mp hfind _ hmem
    | some e =>
      have hk : e.1 = k := by simpa using List.find?_some hfind
      -- Two entries of one key are one.
      have he : e = (k, v) :=
        List.inj_on_of_nodup_map m.nodup_keys (List.mem_of_find?_eq_some hfind) hmem hk
      rw [Option.map_some, he]

@[simp] theorem get_insert (k k' : κ) (v : ν) :
    (m.insert k v).get k' = if k' = k then some v else m.get k' := by
  refine Option.ext fun x => ?_
  by_cases hk : k' = k
  · subst hk
    rw [if_pos rfl, get_eq_some_iff]
    simp [insert, eq_comm]
  · rw [if_neg hk, get_eq_some_iff, get_eq_some_iff]
    simp only [insert, List.mem_append, List.mem_filter, List.mem_cons, Prod.mk.injEq, hk,
      false_and, false_or, decide_eq_true_eq]
    constructor
    · exact fun h => h.elim And.left And.left
    · exact fun h => (lt_or_gt_of_ne hk).imp (⟨h, ·⟩) (⟨h, ·⟩)

@[simp] theorem get_erase (k k' : κ) :
    (m.erase k).get k' = if k' = k then none else m.get k' := by
  refine Option.ext fun x => ?_
  rw [get_eq_some_iff]
  by_cases hk : k' = k
  · simp [erase, hk]
  · rw [if_neg hk, get_eq_some_iff]
    simp [erase, hk]

theorem mem_values (v : ν) : v ∈ m.values ↔ ∃ k, m.get k = some v := by
  simp only [values, List.mem_map, Prod.exists, get_eq_some_iff]
  constructor
  · rintro ⟨k, v', hmem, rfl⟩
    exact ⟨k, hmem⟩
  · rintro ⟨k, hmem⟩
    exact ⟨k, v, hmem, rfl⟩

end

end SortedMap
