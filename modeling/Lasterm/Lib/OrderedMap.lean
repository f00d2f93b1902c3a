import Mathlib.Data.List.Nodup

/-!
# Maps and sets in insertion order

The maps and sets of ECMAScript: a key is found by equality, a loop over the map
meets the entries in the order in which their keys were first set, setting a key
that is there keeps its place, and deleting a key and setting it again puts it last.
That no key occurs twice is a field of the type, so the size of a set is the length
of its list of elements.

## Main definitions

* `OrderedMap κ ν` — `get`, `set`, `delete`, `filter`, `mapValues`, `keys`.
* `OrderedSet κ` — `add`, `delete`, membership.
-/

/-- A map whose entries are kept in the order in which their keys were first set. -/
structure OrderedMap (κ ν : Type*) where
  entries : List (κ × ν)
  nodup_keys : (entries.map Prod.fst).Nodup

namespace OrderedMap

open List

variable {κ ν : Type*}

/-- The map with no entry. -/
def empty : OrderedMap κ ν := ⟨[], nodup_nil⟩

/-- The keys, in insertion order. -/
def keys (m : OrderedMap κ ν) : List κ := m.entries.map Prod.fst

/-- Every value replaced, its key and its place kept. -/
def mapValues {μ : Type*} (f : ν → μ) (m : OrderedMap κ ν) : OrderedMap κ μ where
  entries := m.entries.map fun e => (e.1, f e.2)
  nodup_keys := by simpa [map_map, Function.comp_def] using m.nodup_keys

/-- The entries whose value passes a test, in their order. -/
def filter (f : ν → Bool) (m : OrderedMap κ ν) : OrderedMap κ ν where
  entries := m.entries.filter fun e => f e.2
  nodup_keys := m.nodup_keys.sublist (filter_sublist.map Prod.fst)

variable {m : OrderedMap κ ν}

theorem ext_entries {m' : OrderedMap κ ν} (h : m.entries = m'.entries) : m = m' := by
  cases m
  cases m'
  simpa using h

variable {k : κ}

private theorem nodup_append_new {l : List (κ × ν)} (h : (l.map Prod.fst).Nodup)
    (hk : k ∉ l.map Prod.fst) (v : ν) : ((l ++ [(k, v)]).map Prod.fst).Nodup := by
  rw [map_append, nodup_append]
  refine ⟨h, by simp, ?_⟩
  intro a ha b hb
  obtain rfl : b = k := by simpa using hb
  exact fun hab => hk (hab ▸ ha)

variable [DecidableEq κ]

/-- The value of a key. -/
def get (m : OrderedMap κ ν) (k : κ) : Option ν :=
  (m.entries.find? fun e => e.1 = k).map Prod.snd

private theorem map_fst_replace (l : List (κ × ν)) (k : κ) (v : ν) :
    (l.map fun e => if e.1 = k then (k, v) else e).map Prod.fst = l.map Prod.fst := by
  rw [map_map]
  refine map_congr_left ?_
  intro e _
  by_cases h : e.1 = k <;> simp [h]

/-- Give a key a value: in its place if it has one, else after all others. -/
def set (m : OrderedMap κ ν) (k : κ) (v : ν) : OrderedMap κ ν :=
  if hk : k ∈ m.entries.map Prod.fst then
    ⟨m.entries.map fun e => if e.1 = k then (k, v) else e, by
      rw [map_fst_replace]; exact m.nodup_keys⟩
  else ⟨m.entries ++ [(k, v)], nodup_append_new m.nodup_keys hk v⟩

/-- Take a key out. -/
def delete (m : OrderedMap κ ν) (k : κ) : OrderedMap κ ν where
  entries := m.entries.filter fun e => e.1 ≠ k
  nodup_keys := m.nodup_keys.sublist (filter_sublist.map Prod.fst)

@[simp] theorem get_empty (k : κ) : (empty : OrderedMap κ ν).get k = none := rfl

theorem entries_set_of_not_mem (h : k ∉ m.keys) (v : ν) :
    (m.set k v).entries = m.entries ++ [(k, v)] := by
  have h : k ∉ m.entries.map Prod.fst := h
  rw [set, dif_neg h]

variable {k' : κ} {v : ν}

theorem mem_keys_set : k' ∈ (m.set k v).keys ↔ k' = k ∨ k' ∈ m.keys := by
  unfold set keys
  split
  · next hk =>
    rw [map_fst_replace]
    exact ⟨.inr, fun h => h.elim (fun heq => heq ▸ hk) id⟩
  · simp [or_comm]

theorem length_set_le (m : OrderedMap κ ν) (k : κ) (v : ν) :
    (m.set k v).entries.length ≤ m.entries.length + 1 := by
  unfold set
  split <;> simp

theorem get_eq_some_iff (m : OrderedMap κ ν) (k : κ) (v : ν) :
    m.get k = some v ↔ (k, v) ∈ m.entries := by
  unfold get
  constructor
  · intro h
    obtain ⟨e, he, rfl⟩ := Option.map_eq_some_iff.mp h
    obtain rfl : e.1 = k := by simpa using find?_some he
    exact mem_of_find?_eq_some he
  · intro h
    have hfound : (m.entries.find? fun e => e.1 = k).isSome :=
      find?_isSome.mpr ⟨(k, v), h, by simp⟩
    obtain ⟨e, he⟩ := Option.isSome_iff_exists.mp hfound
    have hek : e.1 = k := by simpa using find?_some he
    have : e = (k, v) :=
      inj_on_of_nodup_map m.nodup_keys (mem_of_find?_eq_some he) h hek
    rw [he, this]
    rfl

theorem mem_keys_iff (m : OrderedMap κ ν) (k : κ) : k ∈ m.keys ↔ ∃ v, m.get k = some v := by
  simp [keys, get_eq_some_iff]

theorem get_set (m : OrderedMap κ ν) (k k' : κ) (v : ν) :
    (m.set k v).get k' = if k' = k then some v else m.get k' := by
  refine Option.ext fun w => ?_
  rw [get_eq_some_iff]
  have hkeys : k ∈ m.entries.map Prod.fst ↔ ∃ u, (k, u) ∈ m.entries := by simp
  unfold set
  split
  · next hk =>
    obtain ⟨u, hu⟩ := hkeys.mp hk
    by_cases hkk : k' = k
    · subst hkk
      rw [if_pos rfl, mem_map]
      constructor
      · rintro ⟨e, -, he⟩
        by_cases hek : e.1 = k'
        · simpa [hek] using he
        · rw [if_neg hek] at he
          exact absurd (congrArg Prod.fst he) hek
      · rintro ⟨rfl⟩
        exact ⟨(k', u), hu, by simp⟩
    · rw [if_neg hkk, get_eq_some_iff, mem_map]
      constructor
      · rintro ⟨e, hmem, he⟩
        by_cases hek : e.1 = k
        · rw [if_pos hek] at he
          exact absurd (congrArg Prod.fst he).symm hkk
        · rw [if_neg hek] at he
          exact he ▸ hmem
      · intro h
        exact ⟨(k', w), h, by simp [hkk]⟩
  · next hk =>
    by_cases hkk : k' = k
    · subst hkk
      have : (k', w) ∉ m.entries := fun h => hk (hkeys.mpr ⟨w, h⟩)
      simp [this, eq_comm]
    · simp [hkk, get_eq_some_iff]

@[simp] theorem get_set_self (m : OrderedMap κ ν) (k : κ) (v : ν) :
    (m.set k v).get k = some v := by
  simp [get_set]

/-- A key given the value it has. -/
theorem set_eq_self (h : m.get k = some v) : m.set k v = m := by
  have hmem := (get_eq_some_iff m k v).mp h
  refine ext_entries ?_
  rw [set, dif_pos (mem_map_of_mem (f := Prod.fst) hmem)]
  refine (map_congr_left fun e he => ?_).trans (map_id _)
  split
  · next hk => exact inj_on_of_nodup_map m.nodup_keys hmem he hk.symm
  · rfl

theorem get_set_of_ne (m : OrderedMap κ ν) (h : k' ≠ k) (v : ν) :
    (m.set k v).get k' = m.get k' := by
  simp [get_set, h]

theorem get_delete (m : OrderedMap κ ν) (k k' : κ) :
    (m.delete k).get k' = if k' = k then none else m.get k' := by
  refine Option.ext fun w => ?_
  rw [get_eq_some_iff]
  by_cases hkk : k' = k
  · simp [delete, hkk]
  · simp [delete, hkk, get_eq_some_iff]

/-- A value replaced adds no key. -/
theorem mem_keys_of_set {u : ν} (hu : m.get k = some u)
    (h : k' ∈ (m.set k v).keys) : k' ∈ m.keys := by
  obtain rfl | h := mem_keys_set.mp h
  · exact (mem_keys_iff m k').mpr ⟨u, hu⟩
  · exact h

theorem mem_keys_of_delete (h : k' ∈ (m.delete k).keys) : k' ∈ m.keys := by
  obtain ⟨v, hv⟩ := (mem_keys_iff _ k').mp h
  rw [get_delete] at hv
  exact (mem_keys_iff m k').mpr ⟨v, (Option.ite_none_left_eq_some.mp hv).2⟩

@[simp] theorem get_delete_self (m : OrderedMap κ ν) (k : κ) : (m.delete k).get k = none := by
  simp [get_delete]

theorem get_delete_of_ne (m : OrderedMap κ ν) (h : k' ≠ k) : (m.delete k).get k' = m.get k' := by
  simp [get_delete, h]

theorem get_foldl_delete (l : List κ) (m : OrderedMap κ ν) (k : κ) :
    (l.foldl delete m).get k = if k ∈ l then none else m.get k := by
  induction l generalizing m with
  | nil => simp
  | cons a l ih =>
    rw [foldl_cons, ih, get_delete]
    by_cases hl : k ∈ l <;> by_cases ha : k = a <;> simp [hl, ha]

@[simp] theorem get_mapValues {μ : Type*} (f : ν → μ) (m : OrderedMap κ ν) (k : κ) :
    (m.mapValues f).get k = (m.get k).map f := by
  refine Option.ext fun w => ?_
  simp [get_eq_some_iff, mapValues]

@[simp] theorem get_filter (f : ν → Bool) (m : OrderedMap κ ν) (k : κ) :
    (m.filter f).get k = (m.get k).filter f := by
  refine Option.ext fun w => ?_
  rw [get_eq_some_iff, Option.filter_eq_some_iff, get_eq_some_iff]
  exact mem_filter

theorem filter_delete (f : ν → Bool) (m : OrderedMap κ ν) (k : κ) :
    (m.delete k).filter f = (m.filter f).delete k := by
  refine ext_entries ?_
  simp only [filter, delete, filter_filter]
  exact filter_congr fun _ _ => Bool.and_comm _ _

/-- A value that passes the test is replaced by one that passes it. -/
theorem filter_set (f : ν → Bool) (m : OrderedMap κ ν) {u : ν} (hu : m.get k = some u)
    (hfu : f u = true) (hfv : f v = true) : (m.set k v).filter f = (m.filter f).set k v := by
  have hin : ∀ m' : OrderedMap κ ν, m'.get k = some u → k ∈ m'.entries.map Prod.fst :=
    fun m' h => (m'.mem_keys_iff k).mpr ⟨u, h⟩
  have hfilter : (m.filter f).get k = some u := by
    rw [get_filter, hu, Option.filter_some, if_pos hfu]
  refine ext_entries ?_
  unfold set
  rw [dif_pos (hin m hu), dif_pos (hin _ hfilter)]
  simp only [filter, filter_map]
  refine congrArg (map _) (filter_congr ?_)
  intro e he
  by_cases hek : e.1 = k
  · -- the entry of the key is the one replaced
    have hev : e.2 = u := by
      have hget := (m.get_eq_some_iff k e.2).mpr (hek ▸ he)
      exact Option.some_inj.mp (hget.symm.trans hu)
    simp [hek, hev, hfu, hfv]
  · simp [hek]

/-- A loop over the map that keeps what it finds under one key finds that key's value. -/
theorem flatMap_entries_of_key {γ : Type*} (m : OrderedMap κ ν) (k : κ) (f : ν → List γ) :
    (m.entries.flatMap fun e => if e.1 = k then f e.2 else []) = (m.get k).elim [] f := by
  obtain ⟨l, hl⟩ := m
  unfold get
  induction l with
  | nil => rfl
  | cons e l ih =>
    rw [map_cons, nodup_cons] at hl
    by_cases hk : e.1 = k
    · -- the key occurs once, so the rest of the loop keeps nothing
      have hrest : (l.flatMap fun e => if e.1 = k then f e.2 else []) = [] := by
        refine flatMap_eq_nil_iff.mpr ?_
        intro e' he'
        have hne : e'.1 ≠ k := fun h => hl.1 (hk ▸ h ▸ mem_map_of_mem he')
        rw [if_neg hne]
      simp [hk, hrest]
    · simpa [hk] using ih hl.2

end OrderedMap

/-- A set whose elements are kept in the order in which they were first added. -/
structure OrderedSet (κ : Type*) where
  elems : List κ
  nodup : elems.Nodup

namespace OrderedSet

variable {κ : Type*}

/-- The set with no element. -/
def empty : OrderedSet κ := ⟨[], List.nodup_nil⟩

instance : Membership κ (OrderedSet κ) := ⟨fun s k => k ∈ s.elems⟩

theorem mem_def (s : OrderedSet κ) (k : κ) : k ∈ s ↔ k ∈ s.elems := Iff.rfl

@[simp] theorem not_mem_empty (k : κ) : k ∉ (empty : OrderedSet κ) := List.not_mem_nil

variable [DecidableEq κ]

instance (s : OrderedSet κ) (k : κ) : Decidable (k ∈ s) :=
  inferInstanceAs (Decidable (k ∈ s.elems))

/-- Add an element: in its place if it is there, else after all others. -/
def add (s : OrderedSet κ) (k : κ) : OrderedSet κ :=
  if hk : k ∈ s.elems then s
  else ⟨s.elems ++ [k], by
    rw [List.nodup_append]
    refine ⟨s.nodup, by simp, ?_⟩
    intro a ha b hb
    obtain rfl : b = k := by simpa using hb
    exact fun hab => hk (hab ▸ ha)⟩

/-- Take an element out. -/
def delete (s : OrderedSet κ) (k : κ) : OrderedSet κ where
  elems := s.elems.filter fun a => a ≠ k
  nodup := s.nodup.filter _

@[simp] theorem mem_add (s : OrderedSet κ) (k k' : κ) : k' ∈ s.add k ↔ k' = k ∨ k' ∈ s := by
  unfold add
  split
  · next hk =>
    constructor
    · exact Or.inr
    · rintro (rfl | h)
      · exact hk
      · exact h
  · simp [mem_def, or_comm]

@[simp] theorem mem_delete (s : OrderedSet κ) (k k' : κ) :
    k' ∈ s.delete k ↔ k' ∈ s ∧ k' ≠ k := by
  simp [delete, mem_def]

end OrderedSet
