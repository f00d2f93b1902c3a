import Lasterm.Lib.OrderedMap
import Mathlib.Algebra.BigOperators.Group.Finset.Basic
import Mathlib.Tactic.Abel

/-!
# Tallies kept up

A map that holds, for each key, how many members of a finite set have it, kept up as
members come and as a member's key changes.  A key that no member has is not in the map, so
the map is determined by what it counts.

## Main definitions

* `OrderedMap.countOne`, `OrderedMap.moveOne` — one member more; a member's key changed.
* `Tallies m S key` — the map `m` counts the members of `S` by their `key`.

## Main results

* `Tallies.countOne`, `Tallies.moveOne` — the two edits keep the count.
* `sum_update`, `OrderedMap.sum_set` — a sum follows when one of its terms changes.
-/

namespace OrderedMap

open List

variable {κ : Type*} [DecidableEq κ]

/-- One member more has the key. -/
def countOne (m : OrderedMap κ ℕ) (k : κ) : OrderedMap κ ℕ := m.set k ((m.get k).getD 0 + 1)

/-- One member less has the key `before`, and one more `after`; a count of none is not kept. -/
def moveOne (m : OrderedMap κ ℕ) (before after : κ) : OrderedMap κ ℕ :=
  let left := (m.get before).getD 1 - 1
  (if 0 < left then m.set before left else m.delete before).countOne after

section Sums

variable {ν M : Type*} [AddCommMonoid M] {f : ν → M} {k : κ} {v : ν}

private theorem sum_replace {l : List (κ × ν)} (hnodup : (l.map Prod.fst).Nodup)
    (h : (k, v) ∈ l) (w : ν) :
    ((l.map fun e => if e.1 = k then (k, w) else e).map fun e => f e.2).sum + f v =
      (l.map fun e => f e.2).sum + f w := by
  obtain ⟨pre, post, rfl⟩ := append_of_mem h
  rw [map_append, map_cons] at hnodup
  obtain ⟨-, hcons, hdisjoint⟩ := nodup_append.mp hnodup
  -- No other entry has the key, so the others stay.
  have hsame : ∀ l' : List (κ × ν), (∀ e ∈ l', e.1 ≠ k) →
      (l'.map fun e => if e.1 = k then (k, w) else e) = l' := by
    intro l' hl'
    refine (map_congr_left fun e he => ?_).trans (map_id l')
    exact if_neg (hl' e he)
  have hpre : ∀ e ∈ pre, e.1 ≠ k := fun e he =>
    hdisjoint e.1 (mem_map_of_mem he) k mem_cons_self
  have hpost : ∀ e ∈ post, e.1 ≠ k := by
    intro e he heq
    have hkey : e.1 ∈ post.map Prod.fst := mem_map_of_mem he
    rw [heq] at hkey
    exact (nodup_cons.mp hcons).1 hkey
  rw [map_append, map_cons, if_pos rfl, hsame pre hpre, hsame post hpost]
  simp only [map_append, map_cons, sum_append, sum_cons]
  abel

/-- A sum over a map's values follows when one of them is replaced. -/
theorem sum_set {m : OrderedMap κ ν} (h : m.get k = some v) (w : ν) :
    ((m.set k w).entries.map fun e => f e.2).sum + f v =
      (m.entries.map fun e => f e.2).sum + f w := by
  have hmem : (k, v) ∈ m.entries := (m.get_eq_some_iff k v).mp h
  have hkey : k ∈ m.entries.map Prod.fst := mem_map_of_mem hmem
  rw [set, dif_pos hkey]
  exact sum_replace m.nodup_keys hmem w

end Sums

end OrderedMap

namespace Tally

variable {ι κ : Type*} [DecidableEq κ]

/-- A count, and nothing for none. -/
def someIfPos (n : ℕ) : Option ℕ := if n = 0 then none else some n

@[simp] theorem someIfPos_zero : someIfPos 0 = none := rfl

@[simp] theorem someIfPos_succ (n : ℕ) : someIfPos (n + 1) = some (n + 1) := rfl

@[simp] theorem getD_someIfPos (n : ℕ) : (someIfPos n).getD 0 = n := by
  cases n with
  | zero => rfl
  | succ n => rfl

/-- The map counts the members of `S` by their key. -/
def Tallies (m : OrderedMap κ ℕ) (S : Finset ι) (key : ι → κ) : Prop :=
  ∀ k, m.get k = someIfPos {i ∈ S | key i = k}.card

namespace Tallies

variable {m : OrderedMap κ ℕ} {S : Finset ι} {key key' : ι → κ}

theorem empty (key : ι → κ) : Tallies .empty (∅ : Finset ι) key := fun _ => rfl

section

variable (h : Tallies m S key)
include h

theorem congr (hkey : ∀ i ∈ S, key' i = key i) : Tallies m S key' := by
  intro k
  have hfilter : {i ∈ S | key' i = k} = {i ∈ S | key i = k} :=
    Finset.filter_congr fun i hi => by rw [hkey i hi]
  rw [hfilter]
  exact h k

variable [DecidableEq ι] {i : ι}

/-- A member more. -/
theorem countOne (hi : i ∉ S) :
    Tallies (m.countOne (key i)) (insert i S) key := by
  intro k
  rw [OrderedMap.countOne, OrderedMap.get_set, h (key i), getD_someIfPos, Finset.filter_insert]
  by_cases hk : k = key i
  · subst hk
    have hnot : i ∉ {j ∈ S | key j = key i} := fun hmem => hi (Finset.mem_filter.mp hmem).1
    rw [if_pos rfl, if_pos rfl, Finset.card_insert_of_notMem hnot, someIfPos_succ]
  · rw [if_neg hk, if_neg (Ne.symm hk)]
    exact h k

/-- Members more, one after another. -/
theorem countAll {l : List ι} (hl : l.Nodup) (hS : ∀ i ∈ l, i ∉ S) :
    Tallies (l.foldl (fun m i => m.countOne (key i)) m) (S ∪ l.toFinset) key := by
  induction l generalizing m S with
  | nil => simpa using h
  | cons i l ih =>
    obtain ⟨hi, hnodup⟩ := List.nodup_cons.mp hl
    have hrest := ih (h.countOne (hS i List.mem_cons_self)) hnodup fun j hj hmem => by
      rcases Finset.mem_insert.mp hmem with rfl | hmem
      · exact hi hj
      · exact hS j (List.mem_cons_of_mem i hj) hmem
    rw [List.toFinset_cons, Finset.union_insert, ← Finset.insert_union]
    exact hrest

/-- Without one of its members, a tally counts one less of its key. -/
theorem removeOne (hi : i ∈ S) :
    Tallies
      (if 0 < (m.get (key i)).getD 1 - 1 then m.set (key i) ((m.get (key i)).getD 1 - 1)
      else m.delete (key i)) (S.erase i) key := by
  intro k
  have hcard : {j ∈ S | key j = key i}.card = {j ∈ S.erase i | key j = key i}.card + 1 := by
    have hmem : i ∈ {j ∈ S | key j = key i} := Finset.mem_filter.mpr ⟨hi, rfl⟩
    rw [Finset.filter_erase, Finset.card_erase_add_one hmem]
  rw [h (key i), hcard, someIfPos_succ, Option.getD_some, Nat.add_sub_cancel]
  by_cases hk : k = key i
  · subst hk
    split
    · next hpos => rw [OrderedMap.get_set_self, someIfPos, if_neg (by omega)]
    · next hpos => rw [OrderedMap.get_delete_self, Nat.eq_zero_of_not_pos hpos, someIfPos_zero]
  · have hsame : {j ∈ S.erase i | key j = k} = {j ∈ S | key j = k} := by
      rw [Finset.filter_erase, Finset.erase_eq_of_notMem]
      intro hmem
      exact hk (Finset.mem_filter.mp hmem).2.symm
    rw [hsame, ← h k]
    split
    · exact OrderedMap.get_set_of_ne m hk _
    · exact OrderedMap.get_delete_of_ne m hk

/-- A member's key changed. -/
theorem moveOne (hi : i ∈ S) (k : κ) :
    Tallies (m.moveOne (key i) k) S (Function.update key i k) := by
  have hkey : ∀ j ∈ S.erase i, Function.update key i k j = key j := fun j hj =>
    Function.update_of_ne (Finset.ne_of_mem_erase hj) k key
  have hcount := ((h.removeOne hi).congr hkey).countOne (Finset.notMem_erase i S)
  rw [Function.update_self, Finset.insert_erase hi] at hcount
  exact hcount

end

end Tallies

/-- A sum follows when one of its terms changes. -/
theorem sum_update [DecidableEq ι] {S : Finset ι} {f g : ι → ℤ} {i : ι} {d : ℤ} (hi : i ∈ S)
    (hsame : ∀ j ∈ S, j ≠ i → g j = f j) (hchange : g i = f i + d) :
    ∑ j ∈ S, g j = ∑ j ∈ S, f j + d := by
  have hrest : ∑ j ∈ S.erase i, g j = ∑ j ∈ S.erase i, f j :=
    Finset.sum_congr rfl fun j hj => hsame j (Finset.mem_of_mem_erase hj) (Finset.ne_of_mem_erase hj)
  rw [← Finset.add_sum_erase S g hi, ← Finset.add_sum_erase S f hi, hrest, hchange]
  omega

end Tally
