import Mathlib.Data.List.Basic

/-!
# The last word on a key

Changes are made one after the other, each to what one key stands for.  What a key stands for in the
end is what the last change of it said, and what it stood for before where no change is of it.  The
order matters only among the changes of one key.

## Main definitions

* `lastFor key k l` — the last of `l` whose key is `k`.

## Main results

* `read_foldl` — reading a key after the changes is reading the last change of it.
* `read_foldl_filter` — the same where some changes are refused.
* `lastFor_eq_some_iff` — where no two changes are of one key, the last one is the one there is.
-/

variable {α κ : Type*} [DecidableEq κ] {key : α → κ} {k : κ} {l : List α} {a : α}

/-- The last of `l` whose key is `k`. -/
def lastFor (key : α → κ) (k : κ) (l : List α) : Option α :=
  l.reverse.find? fun a => key a = k

theorem lastFor_append (l m : List α) :
    lastFor key k (l ++ m) = (lastFor key k m).or (lastFor key k l) := by
  unfold lastFor
  rw [List.reverse_append, List.find?_append]

theorem lastFor_cons (a : α) (l : List α) :
    lastFor key k (a :: l) = (lastFor key k l).or (if key a = k then some a else none) := by
  rw [← List.singleton_append, lastFor_append]
  by_cases h : key a = k <;> simp [lastFor, h]

theorem mem_of_lastFor (h : lastFor key k l = some a) : a ∈ l :=
  List.mem_reverse.mp (List.mem_of_find?_eq_some h)

theorem key_of_lastFor (h : lastFor key k l = some a) : key a = k := by
  simpa using List.find?_some h

theorem lastFor_ne_none (hmem : a ∈ l) (hk : key a = k) : lastFor key k l ≠ none := by
  intro h
  have hnone := List.find?_eq_none.mp h a (List.mem_reverse.mpr hmem)
  simp [hk] at hnone

/-- Where no two are of one key, the last one is the one there is. -/
theorem lastFor_eq_some_iff (hinj : ∀ a ∈ l, ∀ b ∈ l, key a = key b → a = b) :
    lastFor key k l = some a ↔ a ∈ l ∧ key a = k := by
  constructor
  · exact fun h => ⟨mem_of_lastFor h, key_of_lastFor h⟩
  · rintro ⟨hmem, hk⟩
    obtain ⟨b, hb⟩ := Option.ne_none_iff_exists'.mp (lastFor_ne_none hmem hk)
    rw [hb, hinj b (mem_of_lastFor hb) a hmem ((key_of_lastFor hb).trans hk.symm)]

section read

variable {σ β : Type*} (read : σ → κ → β) (step : σ → α → σ) (said : α → β) (ok : α → Bool)

/-- Reading a key after changes some of which are refused: what the last change of it said that was
not, or what was there before. -/
theorem read_foldl_filter (hno : ∀ s a k, ok a = false → read (step s a) k = read s k)
    (h : ∀ s a k, ok a = true → read (step s a) k = if key a = k then said a else read s k)
    (l : List α) (s : σ) (k : κ) :
    read (l.foldl step s) k = ((lastFor key k (l.filter ok)).map said).getD (read s k) := by
  induction l generalizing s with
  | nil => rfl
  | cons a l ih =>
    rw [List.foldl_cons, ih]
    cases hok : ok a with
    | false => rw [hno s a k hok, List.filter_cons_of_neg (by simp [hok])]
    | true =>
      rw [h s a k hok, List.filter_cons_of_pos hok, lastFor_cons]
      cases lastFor key k (l.filter ok) with
      | some b => rfl
      | none => by_cases hk : key a = k <;> simp [hk]

/-- Reading a key after the changes: what the last change of it said, or what was there before. -/
theorem read_foldl
    (h : ∀ s a k, read (step s a) k = if key a = k then said a else read s k)
    (l : List α) (s : σ) (k : κ) :
    read (l.foldl step s) k = ((lastFor key k l).map said).getD (read s k) := by
  have hall := read_foldl_filter read step said (fun _ => true) nofun (fun s a k _ => h s a k) l s k
  rwa [List.filter_true] at hall

end read
