import Lasterm.Transfer.UploadItems

/-!
# The tree of an upload's items

What `buildUploadTree` makes of a list of items.  The folder an item is in has the item's path less
its last name as its path; on Windows it may be written in another case.  The number of bytes is the
sum of the sizes as long as a number holds that sum exactly.

## Main definitions

* `Occurs` — a problem of the list; `WellFormed` — what the tree is to be.
* `uploadTree` — the tree as the transfer service takes it.

## Main results

* `buildUploadTree_spec` — it is built exactly if no problem occurs, and then it is well formed.
* `buildUploadTree_uploadTree` — the service finds in it what the builder put there.
-/

namespace Lasterm.Transfer.Build

open List Option Function OrderedMap

open Uploads (Kind)

/-! ### Paths -/

theorem length_splitOn (s : Text) : (s.splitOn '/').length = s.count '/' + 1 := by
  induction s with
  | nil => rfl
  | cons c s ih =>
    rw [splitOn_cons_eq_if_modifyHead, count_cons]
    split
    · rw [length_cons, ih]
    · rw [length_modifyHead, ih]

theorem mem_splitOn_of_mem {s : Text} {c : Char} (hmem : c ∈ s) (hc : c ≠ '/') :
    ∃ name ∈ s.splitOn '/', c ∈ name := by
  induction s with
  | nil => cases hmem
  | cons d s ih =>
    rw [splitOn_cons_eq_if_modifyHead]
    cases hs : s.splitOn '/' with
    | nil => exact absurd hs (splitOn_ne_nil _ _)
    | cons first names =>
      rw [hs] at ih
      obtain rfl | hmem := mem_cons.mp hmem
      · rw [if_neg (by simpa using hc), modifyHead_cons]
        exact ⟨_, mem_cons_self, mem_cons_self⟩
      · obtain ⟨name, hname, hin⟩ := ih hmem
        split
        · exact ⟨name, mem_cons_of_mem _ hname, hin⟩
        · rw [modifyHead_cons]
          obtain rfl | hname := mem_cons.mp hname
          · exact ⟨_, mem_cons_self, mem_cons_of_mem _ hin⟩
          · exact ⟨name, mem_cons_of_mem _ hname, hin⟩

theorem splitOn_backslash {s : Text} (h : '\\' ∉ s) :
    (s.map fun c => if c = '/' then '\\' else c).splitOn '\\' = s.splitOn '/' := by
  induction s with
  | nil => rfl
  | cons c s ih =>
    rw [map_cons, splitOn_cons_eq_if_modifyHead, splitOn_cons_eq_if_modifyHead,
      ih fun hmem => h (mem_cons_of_mem c hmem)]
    have hc : c ≠ '\\' := fun hc => h (hc ▸ mem_cons_self)
    by_cases hslash : c = '/'
    · rw [if_pos (by simp [hslash]), if_pos (by simp [hslash])]
    · rw [if_neg hslash, if_neg (by simpa using hc), if_neg (by simpa using hslash)]

theorem UpperCase.count_text (u : UpperCase) (s : Text) : (u.text s).count '/' = s.count '/' := by
  induction s with
  | nil => rfl
  | cons c s ih =>
    rw [UpperCase.text, flatMap_cons, count_append, u.slash, count_cons]
    change _ + (u.text s).count '/' = _
    rw [ih]
    by_cases hc : c = '/' <;> simp [hc, Nat.add_comm]

variable (u : UpperCase) (style : PathStyle)

theorem count_pathKey (s : Text) : (pathKey u style s).count '/' = s.count '/' := by
  cases style with
  | posix => rfl
  | windows => exact u.count_text s

theorem length_splitOn_of_pathKey {s t : Text} (h : pathKey u style s = pathKey u style t) :
    (s.splitOn '/').length = (t.splitOn '/').length := by
  rw [length_splitOn, length_splitOn, ← count_pathKey u style s, h, count_pathKey]

/-! ### The first loop -/

theorem roundNumber_of_le {n : ℕ} (h : n ≤ maxSafeInteger) : roundNumber n = n := if_pos h

theorem readItems_append (raw : List RawItem) (item : RawItem) :
    readItems (raw ++ [item]) = (readItems raw).item item raw.length := by
  unfold readItems
  rw [zipIdx_append, foldl_append, Nat.zero_add]
  rfl

/-- What the first loop has found. -/
structure Read (raw : List RawItem) (r : Reading) : Prop where
  parsed : r.parsed = raw.map RawItem.parse
  files : r.files = raw.countP fun item => item.parse.kind = .file
  structural : r.structural = [] ↔ ∀ item ∈ raw, item.problem = none
  bytes : (raw.map fun item => item.parse.size).sum ≤ maxSafeInteger →
    r.bytes = (raw.map fun item => item.parse.size).sum

variable {item : RawItem}

theorem size_of_dir (h : ¬item.parse.kind = .file) : item.parse.size = 0 := by
  unfold RawItem.parse at h ⊢
  dsimp only at h ⊢
  split at h
  · next hdir => rw [if_pos hdir]
  · exact absurd rfl h

theorem readItems_spec (raw : List RawItem) : Read raw (readItems raw) := by
  induction raw using reverseRecOn with
  | nil =>
    constructor
    · rfl
    · rfl
    · exact iff_of_true rfl (forall_mem_nil _)
    · exact fun _ => rfl
  | append_singleton raw item ih =>
    rw [readItems_append]
    constructor
    · rw [Reading.item, ih.parsed, map_append]
      rfl
    · rw [Reading.item, ih.files, countP_append]
      by_cases hk : item.parse.kind = .file <;> simp [hk]
    · simp only [Reading.item, forall_mem_append, forall_mem_singleton, ← ih.structural]
      cases item.problem with
      | none | some => simp
    · intro hsum
      rw [map_append, sum_append] at hsum ⊢
      have hbytes := ih.bytes (Nat.le_of_add_right_le hsum)
      simp only [Reading.item, map_cons, map_nil, sum_cons, sum_nil, Nat.add_zero] at hsum ⊢
      split
      · rw [hbytes, roundNumber_of_le hsum]
      · next hk => rw [hbytes, size_of_dir hk, Nat.add_zero]

/-! ### The second loop -/

theorem seeItems_append (all pre : List Parsed) (item : Parsed) (s : Seen) :
    ((pre ++ [item]).zipIdx.foldl (fun s e => s.item u style all e.1 e.2) s) =
      (pre.zipIdx.foldl (fun s e => s.item u style all e.1 e.2) s).item u style all item
        pre.length := by
  rw [zipIdx_append, foldl_append, Nat.zero_add]
  rfl

/-- What the second loop has found. -/
structure Saw (structural : List NameProblem) (l : List Parsed) (s : Seen) : Prop where
  found : ∀ k i, s.byKey.get k = some i → ∃ item, l[i]? = some item ∧ pathKey u style item.relPath = k
  finds : ∀ item ∈ l, s.byKey.get (pathKey u style item.relPath) ≠ none
  once : s.structural = [] ∧ s.naming = [] ↔
    structural = [] ∧ (l.map fun item => pathKey u style item.relPath).Nodup

theorem seeItems_spec (parsed : List Parsed) (structural : List NameProblem) :
    Saw u style structural parsed (seeItems u style parsed structural) := by
  suffices h : ∀ l : List Parsed, Saw u style structural l
      (l.zipIdx.foldl (fun s e => s.item u style parsed e.1 e.2) ⟨empty, structural, []⟩)
    from h parsed
  intro l
  induction l using reverseRecOn with
  | nil =>
    constructor
    · exact nofun
    · exact nofun
    · simp
  | append_singleton l item ih =>
    rw [seeItems_append]
    generalize l.zipIdx.foldl (fun (s : Seen) e => s.item u style parsed e.1 e.2)
      ⟨empty, structural, []⟩ = s at ih
    have hkept : ∀ k i, s.byKey.get k = some i →
        ∃ item', (l ++ [item])[i]? = some item' ∧ pathKey u style item'.relPath = k := by
      intro k i hi
      obtain ⟨item', hl, hk⟩ := ih.found k i hi
      exact ⟨item', List.getElem?_append_left (List.getElem?_eq_some_iff.mp hl).1 ▸ hl, hk⟩
    have hnodup : ((l ++ [item]).map fun item => pathKey u style item.relPath).Nodup ↔
        (l.map fun item => pathKey u style item.relPath).Nodup ∧
          pathKey u style item.relPath ∉ l.map fun item => pathKey u style item.relPath := by
      rw [map_append, nodup_append]
      simp
    unfold Seen.item
    split
    · next hnew =>
      have hnot : pathKey u style item.relPath ∉ l.map fun item => pathKey u style item.relPath := by
        intro hmem
        obtain ⟨item', hmem', hk⟩ := mem_map.mp hmem
        exact ih.finds item' hmem' (hk ▸ hnew)
      constructor
      · intro k i hi
        rw [get_set] at hi
        split at hi
        · next hk =>
          cases hi
          exact ⟨item, by simp, hk.symm⟩
        · exact hkept k i hi
      · intro item' hmem
        rw [get_set]
        split
        · exact nofun
        · next hk =>
          obtain hmem | hmem := mem_append.mp hmem
          · exact ih.finds item' hmem
          · exact absurd (mem_singleton.mp hmem ▸ rfl) hk
      · rw [hnodup, ← and_assoc, ← ih.once]
        exact ⟨fun h => ⟨h, hnot⟩, And.left⟩
    · next seen hseen =>
      obtain ⟨item', hl, hk⟩ := ih.found _ _ hseen
      have hmem : pathKey u style item.relPath ∈ l.map fun item => pathKey u style item.relPath :=
        mem_map.mpr ⟨item', mem_of_getElem? hl, hk⟩
      have hfinds : ∀ item' ∈ l ++ [item], s.byKey.get (pathKey u style item'.relPath) ≠ none := by
        intro item' hmem
        obtain hmem | hmem := mem_append.mp hmem
        · exact ih.finds item' hmem
        · rw [mem_singleton.mp hmem, hseen]
          exact nofun
      split <;> exact ⟨hkept, hfinds, iff_of_false (by simp) fun h => (hnodup.mp h.2).2 hmem⟩

/-! ### The problems -/

/-- The path an item was sent under. -/
def RawItem.path (item : RawItem) : Text := item.parse.relPath

/-- One of the problems a list of items can have. -/
inductive Occurs (dir : Text) : Option (List RawItem) → Prop
  | noList : Occurs dir none
  | empty : Occurs dir (some [])
  | tooManyItems {raw : List RawItem} (h : maxItems < raw.length) : Occurs dir (some raw)
  | tooManyFiles {raw : List RawItem}
      (h : maxFiles < raw.countP fun item => item.parse.kind = .file) : Occurs dir (some raw)
  /-- An item is not one, or its path cannot be one on any host. -/
  | malformed {raw : List RawItem} (item : RawItem) (hmem : item ∈ raw) (h : item.problem ≠ none) :
      Occurs dir (some raw)
  /-- Two items have one path, on Windows but for its case. -/
  | twice {raw : List RawItem} (h : ¬(raw.map fun item => pathKey u style item.path).Nodup) :
      Occurs dir (some raw)
  /-- The folder an item is in is not in the upload. -/
  | noFolder {raw : List RawItem} (item : RawItem) (hmem : item ∈ raw) (cut : Text × Text)
      (hcut : cutLast '/' item.path = some cut)
      (h : ∀ folder ∈ raw, pathKey u style folder.path ≠ pathKey u style cut.1) :
      Occurs dir (some raw)
  | inFile {raw : List RawItem} (item : RawItem) (hmem : item ∈ raw) (cut : Text × Text)
      (hcut : cutLast '/' item.path = some cut) (folder : RawItem) (hfolder : folder ∈ raw)
      (hkey : pathKey u style folder.path = pathKey u style cut.1) (h : folder.parse.kind ≠ .dir) :
      Occurs dir (some raw)
  | name {raw : List RawItem} (hstyle : style = .windows) (item : RawItem) (hmem : item ∈ raw)
      (name : Text) (hname : name ∈ item.path.splitOn '/') (h : windowsNameProblem name ≠ none) :
      Occurs dir (some raw)
  /-- A path would be too long on a Windows host. -/
  | tooLong {raw : List RawItem} (hstyle : style = .windows) (item : RawItem) (hmem : item ∈ raw)
      (h : windowsMaxPathLength < length16
        (joinHostPath u dir (item.path.map fun c => if c = '/' then '\\' else c) .windows)) :
      Occurs dir (some raw)

/-- What a Windows host must take of a path: every name in it, and how long it is. -/
def FitsWindows (dir path : Text) : Prop :=
  (∀ name ∈ path.splitOn '/', windowsNameProblem name = none) ∧
    length16 (joinHostPath u dir (path.map fun c => if c = '/' then '\\' else c) .windows) ≤
      windowsMaxPathLength

theorem Occurs.perm {u : UpperCase} {style : PathStyle} {dir : Text} {raw raw' : List RawItem}
    (h : Occurs u style dir (some raw)) (hperm : raw.Perm raw') :
    Occurs u style dir (some raw') := by
  cases h with
  | empty => exact hperm.nil_eq ▸ .empty
  | tooManyItems h => exact .tooManyItems (hperm.length_eq ▸ h)
  | tooManyFiles h => exact .tooManyFiles (hperm.countP_eq _ ▸ h)
  | malformed item hmem h => exact .malformed item (hperm.mem_iff.mp hmem) h
  | twice h => exact .twice fun hnodup => h ((hperm.map _).nodup_iff.mpr hnodup)
  | noFolder item hmem cut hcut h =>
    exact .noFolder item (hperm.mem_iff.mp hmem) cut hcut fun f hf => h f (hperm.mem_iff.mpr hf)
  | inFile item hmem cut hcut folder hfolder hkey h =>
    exact .inFile item (hperm.mem_iff.mp hmem) cut hcut folder (hperm.mem_iff.mp hfolder) hkey h
  | name hstyle item hmem name hname h => exact .name hstyle item (hperm.mem_iff.mp hmem) name hname h
  | tooLong hstyle item hmem h => exact .tooLong hstyle item (hperm.mem_iff.mp hmem) h

section loops

variable {u style} {parsed : List Parsed} {s : Seen}
  {structural : List NameProblem} {dir : Text}

/-- Where each path is there once, the folder an item is in is found exactly if there is one, and
only a folder is no problem. -/
theorem Saw.parentProblem_eq_none (h : Saw u style structural parsed s)
    (hnodup : (parsed.map fun item => pathKey u style item.relPath).Nodup) (item : Parsed) :
    parentProblem u style s.byKey parsed [] item = none ↔
      ∀ cut, cutLast '/' item.relPath = some cut →
        (∃ folder ∈ parsed, pathKey u style folder.relPath = pathKey u style cut.1) ∧
          ∀ folder ∈ parsed, pathKey u style folder.relPath = pathKey u style cut.1 →
            folder.kind = .dir := by
  unfold parentProblem parentIndex
  cases hcut : cutLast '/' item.relPath with
  | none => simp
  | some cut =>
    rw [if_pos ⟨rfl, not_mem_nil⟩, bind_some]
    cases hget : s.byKey.get (pathKey u style cut.1) with
    | none =>
      refine iff_of_false nofun fun hall => ?_
      obtain ⟨⟨folder, hmem, hkey⟩, -⟩ := hall cut rfl
      exact h.finds folder hmem (hkey ▸ hget)
    | some index =>
      obtain ⟨folder, hfolder, hkey⟩ := h.found _ _ hget
      have hmem := mem_of_getElem? hfolder
      have honly : ∀ folder' ∈ parsed, pathKey u style folder'.relPath = pathKey u style cut.1 →
          folder' = folder := fun folder' hmem' hkey' =>
        inj_on_of_nodup_map hnodup hmem' hmem (hkey'.trans hkey.symm)
      simp only [hfolder, map_some, some.injEq, ite_eq_left_iff, reduceCtorEq,
        imp_false, not_not]
      constructor
      · rintro hdir _ rfl
        exact ⟨⟨folder, hmem, hkey⟩, fun folder' hmem' hkey' => honly folder' hmem' hkey' ▸ hdir⟩
      · exact fun hall => (hall cut rfl).2 folder hmem hkey

theorem windowsProblem_eq_none {item : TreeItem} :
    windowsProblem u dir item = none ↔ FitsWindows u dir item.relPath := by
  unfold windowsProblem FitsWindows
  cases hname : (item.relPath.splitOn '/').findSome? windowsNameProblem with
  | some reason =>
    refine iff_of_false nofun fun h => ?_
    obtain ⟨name, hmem, hsome⟩ := exists_of_findSome?_eq_some hname
    exact nomatch (h.1 name hmem).symm.trans hsome
  | none =>
    have hall := findSome?_eq_none_iff.mp hname
    simp only [ite_eq_right_iff, reduceCtorEq, imp_false, Nat.not_lt]
    exact ⟨fun h => ⟨hall, h⟩, And.right⟩

end loops

/-- What an item's folder must be: it is in the upload, and it is a folder. -/
def HasFolder (raw : List RawItem) (item : RawItem) : Prop :=
  ∀ cut, cutLast '/' item.path = some cut →
    (∃ folder ∈ raw, pathKey u style folder.path = pathKey u style cut.1) ∧
      ∀ folder ∈ raw, pathKey u style folder.path = pathKey u style cut.1 → folder.parse.kind = .dir

/-- A list none of whose items has a problem. -/
structure Sound (dir : Text) (raw : List RawItem) : Prop where
  nonempty : raw ≠ []
  items : raw.length ≤ maxItems
  files : (raw.countP fun item => item.parse.kind = .file) ≤ maxFiles
  readable : ∀ item ∈ raw, item.problem = none
  once : (raw.map fun item => pathKey u style item.path).Nodup
  folders : ∀ item ∈ raw, HasFolder u style raw item
  windows : style = .windows → ∀ item ∈ raw, FitsWindows u dir item.path

theorem not_occurs_iff {u : UpperCase} {style : PathStyle} {dir : Text} {raw : List RawItem} :
    ¬Occurs u style dir (some raw) ↔ Sound u style dir raw := by
  constructor
  · intro h
    constructor
    · rintro rfl
      exact h .empty
    · exact Nat.le_of_not_lt fun hlt => h (.tooManyItems hlt)
    · exact Nat.le_of_not_lt fun hlt => h (.tooManyFiles hlt)
    · exact fun item hmem => by_contra fun hne => h (.malformed item hmem hne)
    · exact by_contra fun hne => h (.twice hne)
    · refine fun item hmem cut hcut => ⟨by_contra fun hne => ?_, fun folder hf hk => ?_⟩
      · exact h (.noFolder item hmem cut hcut fun folder hf hk => hne ⟨folder, hf, hk⟩)
      · exact by_contra fun hne => h (.inFile item hmem cut hcut folder hf hk hne)
    · refine fun hstyle item hmem => ⟨fun name hname => ?_, Nat.le_of_not_lt fun hlt => ?_⟩
      · exact by_contra fun hne => h (.name hstyle item hmem name hname hne)
      · exact h (.tooLong hstyle item hmem hlt)
  · rintro h (_ | _ | hlt | hlt | ⟨item, hmem, hne⟩ | hne | ⟨item, hmem, cut, hcut, hno⟩ |
      ⟨item, hmem, cut, hcut, folder, hf, hk, hne⟩ | ⟨hstyle, item, hmem, name, hname, hne⟩ |
      ⟨hstyle, item, hmem, hlt⟩)
    · exact h.nonempty rfl
    · exact Nat.not_lt.mpr h.items hlt
    · exact Nat.not_lt.mpr h.files hlt
    · exact hne (h.readable item hmem)
    · exact hne h.once
    · obtain ⟨folder, hf, hk⟩ := (h.folders item hmem cut hcut).1
      exact hno folder hf hk
    · exact hne ((h.folders item hmem cut hcut).2 folder hf hk)
    · exact hne ((h.windows hstyle item hmem).1 name hname)
    · exact Nat.not_lt.mpr (h.windows hstyle item hmem).2 hlt

/-! ### What is built -/

/-- What the second loop has found of the items of `raw`. -/
def seenIn (raw : List RawItem) : Seen :=
  seeItems u style (raw.map RawItem.parse) (readItems raw).structural

/-- The items in their places. -/
def placed (raw : List RawItem) : List TreeItem :=
  (raw.map RawItem.parse).zipIdx.map fun e => placeItem u style (seenIn u style raw).byKey e.1 e.2

theorem map_placed {β : Type*} (raw : List RawItem) (f : TreeItem → β) (g : Parsed → β)
    (hfg : ∀ parsed i, f (placeItem u style (seenIn u style raw).byKey parsed i) = g parsed) :
    (placed u style raw).map f = raw.map fun item => g item.parse :=
  calc (placed u style raw).map f
      = ((raw.map RawItem.parse).zipIdx.map Prod.fst).map g := by
        rw [placed, List.map_map, List.map_map]
        exact List.map_congr_left fun e _ => hfg e.1 e.2
    _ = raw.map fun item => g item.parse := by
        rw [List.zipIdx_map_fst, List.map_map]
        rfl

/-- What is wrong with the list as such. -/
def structuralProblems (raw : List RawItem) : List NameProblem :=
  (seenIn u style raw).structural ++
    (raw.map RawItem.parse).filterMap
      (parentProblem u style (seenIn u style raw).byKey (raw.map RawItem.parse)
        ((seenIn u style raw).structural.map NameProblem.relPath))

/-- What a Windows host would refuse. -/
def namingProblems (dir : Text) (raw : List RawItem) : List NameProblem :=
  (seenIn u style raw).naming ++
    (if style = .windows then (placed u style raw).filterMap (windowsProblem u dir) else [])

theorem no_problem_iff {u : UpperCase} {style : PathStyle} (dir : Text) (raw : List RawItem) :
    structuralProblems u style raw = [] ∧ namingProblems u style dir raw = [] ↔
      (∀ item ∈ raw, item.problem = none) ∧ (raw.map fun item => pathKey u style item.path).Nodup ∧
        (∀ item ∈ raw, HasFolder u style raw item) ∧
        (style = .windows → ∀ item ∈ raw, FitsWindows u dir item.path) := by
  have hsaw : Saw u style (readItems raw).structural (raw.map RawItem.parse) (seenIn u style raw) :=
    seeItems_spec u style _ _
  have honce := hsaw.once
  rw [(readItems_spec raw).structural, List.map_map] at honce
  have hparents : (raw.map fun item => pathKey u style item.path).Nodup →
      ((raw.map RawItem.parse).filterMap
          (parentProblem u style (seenIn u style raw).byKey (raw.map RawItem.parse) []) = [] ↔
        ∀ item ∈ raw, HasFolder u style raw item) := by
    intro hnodup
    have hnodup' : ((raw.map RawItem.parse).map fun item => pathKey u style item.relPath).Nodup := by
      rwa [List.map_map]
    rw [List.filterMap_eq_nil_iff, List.forall_mem_map]
    refine forall₂_congr fun item _ => ?_
    rw [hsaw.parentProblem_eq_none hnodup', HasFolder]
    simp only [List.mem_map, exists_exists_and_eq_and, forall_exists_index, and_imp,
      forall_apply_eq_imp_iff₂, RawItem.path]
  have hwindows : (if style = .windows then (placed u style raw).filterMap (windowsProblem u dir)
        else []) = [] ↔ (style = .windows → ∀ item ∈ raw, FitsWindows u dir item.path) := by
    by_cases hstyle : style = .windows
    · rw [if_pos hstyle, filterMap_eq_nil_iff]
      have hpaths := map_placed u style raw TreeItem.relPath Parsed.relPath fun _ _ => rfl
      calc (∀ item ∈ placed u style raw, windowsProblem u dir item = none)
          ↔ ∀ path ∈ (placed u style raw).map TreeItem.relPath, FitsWindows u dir path := by
            simp only [windowsProblem_eq_none, List.forall_mem_map]
        _ ↔ (style = .windows → ∀ item ∈ raw, FitsWindows u dir item.path) := by
            rw [hpaths, List.forall_mem_map]
            exact ⟨fun h _ => h, fun h => h hstyle⟩
    · rw [if_neg hstyle]
      exact iff_of_true rfl fun h => absurd h hstyle
  rw [structuralProblems, namingProblems, append_eq_nil_iff, append_eq_nil_iff, hwindows]
  constructor
  · rintro ⟨⟨hstruct, hpar⟩, hnaming, hwin⟩
    obtain ⟨hread, hnodup⟩ := honce.mp ⟨hstruct, hnaming⟩
    rw [hstruct, map_nil, hparents hnodup] at hpar
    exact ⟨hread, hnodup, hpar, hwin⟩
  · rintro ⟨hread, hnodup, hpar, hwin⟩
    obtain ⟨hstruct, hnaming⟩ := honce.mpr ⟨hread, hnodup⟩
    refine ⟨⟨hstruct, ?_⟩, hnaming, hwin⟩
    rw [hstruct, map_nil, hparents hnodup]
    exact hpar

variable {δ : Type*} (sha256 : List Parsed → δ) (dir : Text)

theorem build_eq {raw : List RawItem} (hnonempty : raw ≠ []) (hitems : ¬maxItems < raw.length)
    (hfiles : ¬maxFiles < raw.countP fun item => item.parse.kind = .file) :
    buildUploadTree u style sha256 dir (some raw) =
      if structuralProblems u style raw ≠ [] then
        refuse .invalidItems (structuralProblems u style raw)
      else if namingProblems u style dir raw ≠ [] then
        refuse .invalidNames (namingProblems u style dir raw)
      else
        .built (pushChildren (placed u style raw))
          (((placed u style raw).insertionSort TreeItem.before).map TreeItem.id)
          (raw.countP fun item => item.parse.kind = .file) (readItems raw).bytes
          (sha256 ((raw.map RawItem.parse).insertionSort Parsed.upTo)) := by
  have hread := readItems_spec raw
  unfold buildUploadTree
  dsimp only
  rw [if_neg hnonempty, if_neg hitems, hread.files, if_neg hfiles, hread.parsed]
  rfl

variable {u style dir} {raw : List RawItem}

theorem build_of_sound (h : Sound u style dir raw) :
    buildUploadTree u style sha256 dir (some raw) =
      .built (pushChildren (placed u style raw))
        (((placed u style raw).insertionSort TreeItem.before).map TreeItem.id)
        (raw.countP fun item => item.parse.kind = .file) (readItems raw).bytes
        (sha256 ((raw.map RawItem.parse).insertionSort Parsed.upTo)) := by
  obtain ⟨hstruct, hnaming⟩ := (no_problem_iff dir raw).mpr ⟨h.readable, h.once, h.folders, h.windows⟩
  rw [build_eq u style sha256 dir h.nonempty (Nat.not_lt.mpr h.items) (Nat.not_lt.mpr h.files),
    if_neg (not_not.mpr hstruct), if_neg (not_not.mpr hnaming)]

variable {items : List TreeItem}

theorem sound_of_built {order : List ℕ} {files bytes : ℕ} {signature : δ}
    (h : buildUploadTree u style sha256 dir (some raw) = .built items order files bytes signature) :
    Sound u style dir raw := by
  have hnonempty : raw ≠ [] := by
    rintro rfl
    cases h
  have hitems : ¬maxItems < raw.length := by
    intro hlt
    unfold buildUploadTree at h
    dsimp only at h
    rw [if_neg hnonempty, if_pos hlt] at h
    cases h
  have hfiles : ¬maxFiles < raw.countP fun item => item.parse.kind = .file := by
    intro hlt
    unfold buildUploadTree at h
    dsimp only at h
    rw [if_neg hnonempty, if_neg hitems, (readItems_spec raw).files, if_pos hlt] at h
    cases h
  rw [build_eq u style sha256 dir hnonempty hitems hfiles] at h
  split at h
  · cases h
  next hstruct =>
  split at h
  · cases h
  next hnaming =>
  obtain ⟨hreadable, honce, hfolders, hwindows⟩ :=
    (no_problem_iff dir raw).mp ⟨not_not.mp hstruct, not_not.mp hnaming⟩
  exact ⟨hnonempty, Nat.le_of_not_lt hitems, Nat.le_of_not_lt hfiles, hreadable, honce, hfolders,
    hwindows⟩

/-! ### The items in their places -/

theorem getElem?_placed (i : ℕ) :
    (placed u style raw)[i]? =
      raw[i]?.map fun item => placeItem u style (seenIn u style raw).byKey item.parse i := by
  unfold placed
  rw [List.getElem?_map, List.getElem?_zipIdx, List.getElem?_map, Option.map_map, Option.map_map]
  simp only [Nat.zero_add]
  rfl

theorem placed_ids (u : UpperCase) (style : PathStyle) (raw : List RawItem) :
    (placed u style raw).map TreeItem.id = List.range raw.length := by
  calc (placed u style raw).map TreeItem.id
      = (raw.map RawItem.parse).zipIdx.map Prod.snd := by
        rw [placed, List.map_map]
        rfl
    _ = List.range raw.length := by
        rw [List.zipIdx_map_snd, List.length_map, List.range_eq_range']

theorem getElem?_foldl_pushChildren (l its : List TreeItem) (i : ℕ) :
    (l.foldl
        (fun its item =>
          match item.parent with
          | none => its
          | some p =>
            its.modify p fun folder => { folder with children := folder.children ++ [item.id] })
        its)[i]? =
      its[i]?.map fun folder =>
        { folder with
          children := folder.children ++
            (l.filter fun item => item.parent = some i).map TreeItem.id } := by
  induction l generalizing its with
  | nil => simp
  | cons item l ih =>
    rw [foldl_cons, ih]
    cases hp : item.parent with
    | none => simp [hp]
    | some p =>
      rw [getElem?_modify]
      by_cases hpi : p = i
      · cases its[i]? <;> simp [hp, hpi]
      · cases its[i]? <;> simp [hp, hpi]

theorem getElem?_pushChildren (items : List TreeItem) (i : ℕ) :
    (pushChildren items)[i]? =
      items[i]?.map fun folder =>
        { folder with
          children := folder.children ++
            (items.filter fun item => item.parent = some i).map TreeItem.id } :=
  getElem?_foldl_pushChildren items items i

theorem parentIndex_spec (h : Sound u style dir raw) (hmem : item ∈ raw) :
    match cutLast '/' item.path with
    | none => parentIndex u style (seenIn u style raw).byKey item.parse = none
    | some cut => ∃ p folder,
      parentIndex u style (seenIn u style raw).byKey item.parse = some p ∧ raw[p]? = some folder ∧
        folder.parse.kind = .dir ∧ pathKey u style folder.path = pathKey u style cut.1 := by
  have hsaw : Saw u style (readItems raw).structural (raw.map RawItem.parse) (seenIn u style raw) :=
    seeItems_spec u style _ _
  unfold parentIndex
  change match cutLast '/' item.path with
    | none => (cutLast '/' item.path).bind _ = none
    | some cut => ∃ p folder, (cutLast '/' item.path).bind _ = some p ∧ _
  cases hcut : cutLast '/' item.path with
  | none => rfl
  | some cut =>
    obtain ⟨⟨folder, hfolder, hkey⟩, hdirs⟩ := h.folders item hmem cut hcut
    have hfinds := hsaw.finds folder.parse (mem_map_of_mem hfolder)
    obtain ⟨p, hp⟩ := ne_none_iff_exists'.mp hfinds
    obtain ⟨parsed, hparsed, hkey'⟩ := hsaw.found _ _ hp
    rw [getElem?_map] at hparsed
    obtain ⟨found, hfound, rfl⟩ := map_eq_some_iff.mp hparsed
    have hkey'' : pathKey u style found.path = pathKey u style cut.1 := hkey'.trans hkey
    have hget : (seenIn u style raw).byKey.get (pathKey u style cut.1) = some p := hkey ▸ hp
    exact ⟨p, found, hget, hfound, hdirs found (mem_of_getElem? hfound) hkey'', hkey''⟩

/-! ### The tree -/

/-- Where a path of these names leads from a folder, as a host reads `.` and `..`. -/
def walk (folder names : List Text) : List Text :=
  names.foldl
    (fun at_ name =>
      if name = [] ∨ name = ['.'] then at_
      else if name = ['.', '.'] then at_.dropLast
      else at_ ++ [name])
    folder

/-- What a tree of the items of `raw` is like. -/
structure WellFormed (u : UpperCase) (style : PathStyle) (raw : List RawItem) (items : List TreeItem)
    (order : List ℕ) (files bytes : ℕ) : Prop where
  /-- Each item stands where it stood in the list, and is what was sent. -/
  same : ∀ i : ℕ, (items[i]?.map fun item => (item.id, item.relPath, item.kind, item.size, item.mtime)) =
    raw[i]?.map fun item =>
      (i, item.path, item.parse.kind, item.parse.size, item.parse.mtime)
  once : (items.map fun item => pathKey u style item.relPath).Nodup
  /-- An item is at the top, or its folder has its path less the last name. -/
  parent : ∀ item ∈ items,
    match cutLast '/' item.relPath with
    | none => item.parent = none
    | some cut => ∃ p folder, item.parent = some p ∧ items[p]? = some folder ∧ folder.kind = .dir ∧
      pathKey u style folder.relPath = pathKey u style cut.1
  children : ∀ folder ∈ items,
    folder.children = (items.filter fun item => item.parent = some folder.id).map TreeItem.id
  order_perm : order.Perm (range items.length)
  folder_first : ∀ (before after : List ℕ) (i p : ℕ) (item : TreeItem), order = before ++ i :: after →
    items[i]? = some item → item.parent = some p → p ∈ before
  /-- No name is empty or a step up or nowhere, so a path stays under the destination. -/
  names : ∀ item ∈ items, ∀ name ∈ item.relPath.splitOn '/',
    name ≠ [] ∧ name ≠ ['.'] ∧ name ≠ ['.', '.']
  stays : ∀ item ∈ items, ∀ dest : List Text,
    walk dest (item.relPath.splitOn '/') = dest ++ item.relPath.splitOn '/'
  /-- On Windows neither does it once it is written as the host writes it. -/
  windows : style = .windows → ∀ item ∈ items,
    (item.relPath.map fun c => if c = '/' then '\\' else c).splitOn '\\' = item.relPath.splitOn '/'
  files_eq : files = (items.filter fun item => item.kind = .file).length
  bytes_eq : (items.map TreeItem.size).sum ≤ maxSafeInteger →
    bytes = (items.map TreeItem.size).sum

/-- An item in its place, with what is in it. -/
def builtItem (u : UpperCase) (style : PathStyle) (raw : List RawItem) (item : RawItem) (i : ℕ) :
    TreeItem :=
  { placeItem u style (seenIn u style raw).byKey item.parse i with
    children := ((placed u style raw).filter fun item => item.parent = some i).map TreeItem.id }

theorem getElem?_built (i : ℕ) :
    (pushChildren (placed u style raw))[i]? = raw[i]?.map fun item => builtItem u style raw item i := by
  rw [getElem?_pushChildren, getElem?_placed, Option.map_map]
  rfl

theorem map_built {β : Type*} (f : TreeItem → β)
    (hf : ∀ item children, f { item with children } = f item) :
    (pushChildren (placed u style raw)).map f = (placed u style raw).map f := by
  refine List.ext_getElem? fun i => ?_
  rw [List.getElem?_map, List.getElem?_map, getElem?_pushChildren, Option.map_map]
  exact congrArg (Option.map · _) (funext fun item => hf item _)

theorem length_built : (pushChildren (placed u style raw)).length = raw.length :=
  calc (pushChildren (placed u style raw)).length
      = ((pushChildren (placed u style raw)).map TreeItem.id).length := (length_map _).symm
    _ = ((placed u style raw).map TreeItem.id).length := by rw [map_built TreeItem.id fun _ _ => rfl]
    _ = raw.length := by rw [placed_ids, length_range]

theorem names_of_relPathProblem {relPath : Text} (h : relPathProblem relPath = none) :
    ∀ name ∈ relPath.splitOn '/', name ≠ [] ∧ name ≠ ['.'] ∧ name ≠ ['.', '.'] := by
  unfold relPathProblem at h
  split at h
  · cases h
  split at h
  · cases h
  split at h
  · cases h
  split at h
  · cases h
  split at h
  · cases h
  next hempty =>
  split at h
  · cases h
  next hdots =>
  intro name hmem
  have hno : ¬(name = ['.'] ∨ name = ['.', '.']) := fun hdot =>
    hdots (any_eq_true.mpr ⟨name, hmem, decide_eq_true hdot⟩)
  exact ⟨fun hnil => hempty (hnil ▸ hmem), not_or.mp hno⟩

theorem walk_eq {names : List Text}
    (h : ∀ name ∈ names, name ≠ [] ∧ name ≠ ['.'] ∧ name ≠ ['.', '.']) (dest : List Text) :
    walk dest names = dest ++ names := by
  unfold walk
  induction names generalizing dest with
  | nil => simp
  | cons name names ih =>
    obtain ⟨⟨hne, hdot, hdots⟩, hrest⟩ := forall_mem_cons.mp h
    rw [foldl_cons, if_neg (not_or.mpr ⟨hne, hdot⟩), if_neg hdots, ih hrest, append_assoc]
    rfl

theorem names_of_problem (h : item.problem = none) :
    ∀ name ∈ item.path.splitOn '/', name ≠ [] ∧ name ≠ ['.'] ∧ name ≠ ['.', '.'] := by
  unfold RawItem.problem at h
  unfold RawItem.path RawItem.parse
  cases hrel : item.relPath with
  | text relPath =>
    rw [hrel] at h
    dsimp only at h ⊢
    split at h
    · cases h
    split at h
    · cases h
    split at h
    · cases h
    exact names_of_relPathProblem h
  | absent | whole | other => rw [hrel] at h; exact nomatch h

theorem children_built (i : ℕ) :
    (((pushChildren (placed u style raw)).filter fun item => item.parent = some i).map TreeItem.id) =
      ((placed u style raw).filter fun item => item.parent = some i).map TreeItem.id := by
  have hpairs : ∀ l : List TreeItem,
      (l.filter fun item => item.parent = some i).map TreeItem.id =
        ((l.map fun item => (item.parent, item.id)).filter fun e => e.1 = some i).map Prod.snd := by
    intro l
    rw [List.filter_map, List.map_map]
    rfl
  rw [hpairs, hpairs, map_built _ fun _ _ => rfl]

instance : Std.Total TreeItem.before where
  total a b := by
    unfold TreeItem.before
    omega

instance : IsTrans TreeItem TreeItem.before where
  trans a b c := by
    unfold TreeItem.before
    omega

theorem folder_first_of_depth {before after : List ℕ} {i p : ℕ}
    (hids : items.map TreeItem.id = range items.length)
    (hdepth : ∀ item folder, items[i]? = some item → items[p]? = some folder →
      folder.depth < item.depth)
    (hp : p < items.length)
    (h : (items.insertionSort TreeItem.before).map TreeItem.id = before ++ i :: after) :
    p ∈ before := by
  have hid : ∀ (j : ℕ) (item : TreeItem), items[j]? = some item → item.id = j := by
    intro j item hj
    have hlt := (List.getElem?_eq_some_iff.mp hj).1
    have hmap : (items.map TreeItem.id)[j]? = some item.id := by rw [getElem?_map, hj]; rfl
    rw [hids, getElem?_range hlt] at hmap
    exact (some.inj hmap).symm
  obtain ⟨l₁, l₂, hsorted, rfl, h₂⟩ := map_eq_append_iff.mp h
  obtain ⟨item, l₃, rfl, hitem, rfl⟩ := map_eq_cons_iff.mp h₂
  have hmemSorted : ∀ x, x ∈ items ↔ x ∈ l₁ ++ item :: l₃ := fun x =>
    hsorted ▸ (mem_insertionSort TreeItem.before).symm
  have hpair := hsorted ▸ pairwise_insertionSort TreeItem.before items
  obtain ⟨j, hj⟩ := mem_iff_getElem?.mp ((hmemSorted item).mpr (by simp))
  obtain rfl : j = i := (hid j item hj).symm.trans hitem
  obtain ⟨folder, hfolder⟩ : ∃ folder, items[p]? = some folder := ⟨_, getElem?_eq_getElem hp⟩
  have hlt := hdepth item folder hj hfolder
  have hin := (hmemSorted folder).mp (mem_of_getElem? hfolder)
  obtain hin | hin := mem_append.mp hin
  · exact hid p folder hfolder ▸ mem_map_of_mem hin
  · obtain rfl | hin := mem_cons.mp hin
    · exact absurd hlt (Nat.lt_irrefl _)
    · have hbefore : item.before folder :=
        rel_of_pairwise_cons (pairwise_append.mp hpair).2.1 hin
      unfold TreeItem.before at hbefore
      omega

theorem depth_lt {folder path : Text} {cut : Text × Text} (hcut : cutLast '/' path = some cut)
    (hkey : pathKey u style folder = pathKey u style cut.1) :
    (folder.splitOn '/').length < (path.splitOn '/').length := by
  obtain ⟨hpath, -⟩ := eq_of_cutLast hcut
  rw [length_splitOn_of_pathKey u style hkey, length_splitOn, length_splitOn, hpath,
    count_append, count_cons_self]
  omega

/-- A list without problems gives a well-formed tree. -/
theorem wellFormed_of_sound (h : Sound u style dir raw) :
    WellFormed u style raw (pushChildren (placed u style raw))
      (((placed u style raw).insertionSort TreeItem.before).map TreeItem.id)
      (raw.countP fun item => item.parse.kind = .file) (readItems raw).bytes := by
  have hmem : ∀ item ∈ pushChildren (placed u style raw), ∃ (i : ℕ) (rawItem : RawItem),
      raw[i]? = some rawItem ∧ item = builtItem u style raw rawItem i := by
    intro item hitem
    obtain ⟨i, hi⟩ := mem_iff_getElem?.mp hitem
    rw [getElem?_built] at hi
    obtain ⟨rawItem, hraw, rfl⟩ := map_eq_some_iff.mp hi
    exact ⟨i, rawItem, hraw, rfl⟩
  have hnames : ∀ item ∈ pushChildren (placed u style raw), ∀ name ∈ item.relPath.splitOn '/',
      name ≠ [] ∧ name ≠ ['.'] ∧ name ≠ ['.', '.'] := by
    intro item hitem
    obtain ⟨i, rawItem, hraw, rfl⟩ := hmem item hitem
    exact names_of_problem (h.readable rawItem (mem_of_getElem? hraw))
  have hplaced : (placed u style raw).length = raw.length := by
    rw [← length_map TreeItem.id, placed_ids, length_range]
  constructor
  · intro i
    rw [getElem?_built, Option.map_map]
    rfl
  · rw [map_built _ fun _ _ => rfl,
      map_placed u style raw _ (fun parsed => pathKey u style parsed.relPath) fun _ _ => rfl]
    exact h.once
  · intro item hitem
    obtain ⟨i, rawItem, hraw, rfl⟩ := hmem item hitem
    have hspec := parentIndex_spec h (mem_of_getElem? hraw)
    change match cutLast '/' rawItem.path with
      | none => parentIndex u style (seenIn u style raw).byKey rawItem.parse = none
      | some cut => ∃ p folder, parentIndex u style (seenIn u style raw).byKey rawItem.parse = some p ∧ _
    cases hcut : cutLast '/' rawItem.path with
    | none =>
      rw [hcut] at hspec
      exact hspec
    | some cut =>
      rw [hcut] at hspec
      obtain ⟨p, folder, hp, hfolder, hdir, hkey⟩ := hspec
      refine ⟨p, builtItem u style raw folder p, hp, ?_, hdir, hkey⟩
      rw [getElem?_built, hfolder]
      rfl
  · intro folder hfolder
    obtain ⟨i, rawItem, hraw, rfl⟩ := hmem folder hfolder
    exact (children_built i).symm
  · rw [length_built, ← placed_ids u style]
    exact (perm_insertionSort _ _).map _
  · intro before after i p item horder hi hp
    rw [getElem?_built] at hi
    obtain ⟨rawItem, hraw, rfl⟩ := map_eq_some_iff.mp hi
    have hspec := parentIndex_spec h (mem_of_getElem? hraw)
    have hp : parentIndex u style (seenIn u style raw).byKey rawItem.parse = some p := hp
    rw [hp] at hspec
    cases hcut : cutLast '/' rawItem.path with
    | none =>
      rw [hcut] at hspec
      cases hspec
    | some cut =>
      rw [hcut] at hspec
      obtain ⟨p', folder, ⟨⟩, hfolder, -, hkey⟩ := hspec
      refine folder_first_of_depth (hplaced ▸ placed_ids u style raw) ?_
        (hplaced ▸ (List.getElem?_eq_some_iff.mp hfolder).1) horder
      intro item folder' hitem hfolder'
      rw [getElem?_placed, hraw] at hitem
      rw [getElem?_placed, hfolder] at hfolder'
      cases hitem
      cases hfolder'
      exact depth_lt hcut hkey
  · exact hnames
  · exact fun item hitem dest => walk_eq (hnames item hitem) dest
  · intro hstyle item hitem
    obtain ⟨i, rawItem, hraw, rfl⟩ := hmem item hitem
    have hfits := (h.windows hstyle rawItem (mem_of_getElem? hraw)).1
    refine splitOn_backslash fun hin => ?_
    obtain ⟨name, hname, hin⟩ := mem_splitOn_of_mem hin (by decide)
    have hnone := hfits name hname
    unfold windowsNameProblem at hnone
    rw [if_pos (any_eq_true.mpr ⟨_, hin, by decide⟩)] at hnone
    cases hnone
  · have hkinds : (pushChildren (placed u style raw)).map TreeItem.kind =
        raw.map fun item => item.parse.kind := by
      rw [map_built _ fun _ _ => rfl, map_placed u style raw _ Parsed.kind fun _ _ => rfl]
    have hcount := congrArg (countP fun kind => kind = Kind.file) hkinds
    rw [countP_map, countP_map] at hcount
    rw [← countP_eq_length_filter]
    exact hcount.symm
  · rw [map_built _ fun _ _ => rfl, map_placed u style raw _ Parsed.size fun _ _ => rfl]
    exact (readItems_spec raw).bytes

/-! ### The tree the upload works on -/

section upload

variable {items : List TreeItem} {order : List ℕ} {files bytes : ℕ}

theorem WellFormed.id_eq (h : WellFormed u style raw items order files bytes) {i : ℕ}
    {item : TreeItem} (hi : items[i]? = some item) : item.id = i := by
  have hsame := h.same i
  rw [hi] at hsame
  obtain ⟨rawItem, -, heq⟩ := map_eq_some_iff.mp hsame.symm
  exact (congrArg Prod.fst heq).symm

/-- The tree the rest of the upload works on. -/
def uploadTree (h : WellFormed u style raw items order files bytes) : Uploads.UploadTree where
  items := items.map fun item =>
    ⟨(item.relPath.splitOn '/').map String.ofList, item.kind, item.parent⟩
  parent_dir := by
    intro i item hi p hp
    rw [getElem?_map] at hi
    obtain ⟨item, hitem, rfl⟩ := map_eq_some_iff.mp hi
    have hp : item.parent = some p := hp
    have hparent := h.parent item (mem_of_getElem? hitem)
    cases hcut : cutLast '/' item.relPath with
    | none =>
      rw [hcut] at hparent
      exact nomatch hp.symm.trans hparent
    | some cut =>
      rw [hcut] at hparent
      obtain ⟨p', folder, hp', hfolder, hdir, hkey⟩ := hparent
      obtain ⟨rfl⟩ := hp.symm.trans hp'
      refine ⟨_, by rw [getElem?_map, hfolder, map_some], hdir, ?_⟩
      rw [length_map, length_map]
      exact depth_lt hcut hkey

theorem uploadTree_children (h : WellFormed u style raw items order files bytes) {folder : TreeItem}
    (hmem : folder ∈ items) : (uploadTree h).children folder.id = folder.children := by
  have hids : items.map TreeItem.id = List.range items.length := by
    refine List.ext_getElem? fun i => ?_
    rw [List.getElem?_map]
    cases hi : items[i]? with
    | none =>
      have hle := List.getElem?_eq_none_iff.mp hi
      exact (List.getElem?_eq_none (by rwa [length_range])).symm
    | some item =>
      have hlt := (List.getElem?_eq_some_iff.mp hi).1
      rw [List.getElem?_range hlt, map_some, h.id_eq hi]
  rw [h.children folder hmem]
  unfold Uploads.UploadTree.children Uploads.UploadTree.size
  rw [show (uploadTree h).items.length = items.length from List.length_map _, ← hids,
    List.filter_map]
  refine congrArg (List.map _) (List.filter_congr fun item hitem => ?_)
  obtain ⟨i, hi⟩ := List.mem_iff_getElem?.mp hitem
  have hparent : (uploadTree h).parent item.id = item.parent := by
    rw [h.id_eq hi, Uploads.UploadTree.parent]
    change ((items.map _)[i]?).bind _ = _
    rw [List.getElem?_map, hi]
    rfl
  simp only [comp_apply, hparent]

theorem getElem?_placed_id {item : TreeItem} (h : item ∈ placed u style raw) :
    (placed u style raw)[item.id]? = some item := by
  obtain ⟨i, hi⟩ := mem_iff_getElem?.mp h
  have hid := congrArg (·[i]?) (placed_ids u style raw)
  rw [List.getElem?_map, hi, map_some] at hid
  obtain ⟨hlt, heq⟩ := List.getElem?_eq_some_iff.mp hid.symm
  rw [List.getElem_range] at heq
  exact heq ▸ hi

/-- The order the upload takes its items in is the builder's. -/
theorem uploadTree_order
    (h : WellFormed u style raw (pushChildren (placed u style raw)) order files bytes) :
    (uploadTree h).order = ((placed u style raw).insertionSort TreeItem.before).map TreeItem.id := by
  have hdepth : ∀ item ∈ placed u style raw, (uploadTree h).depth item.id = item.depth := by
    intro item hitem
    unfold Uploads.UploadTree.depth uploadTree
    dsimp only
    rw [List.getElem?_map, getElem?_pushChildren, getElem?_placed_id hitem]
    exact List.length_map _
  unfold Uploads.UploadTree.order Uploads.UploadTree.size
  rw [show (uploadTree h).items.length = raw.length from
    (List.length_map _).trans length_built, ← placed_ids u style raw]
  refine (map_insertionSort _ _ TreeItem.id _ fun a ha b hb => ?_).symm
  rw [hdepth a ha, hdepth b hb]
  rfl

end upload

/-! ### The signature -/

instance : Std.Total Parsed.upTo where
  total a b := le_total (units a.relPath) (units b.relPath)

instance : IsTrans Parsed Parsed.upTo where
  trans _ _ _ h h' := le_trans (α := List ℕ) h h'

theorem units_injective : Injective units :=
  fun _ _ h => utf16_text_injective (map_injective_iff.mpr (fun _ _ => UInt16.toNat_inj.mp) h)

theorem insertionSort_eq_of_perm {l l' : List Parsed} (h : l.Perm l')
    (hinj : ∀ a ∈ l, ∀ b ∈ l, a.relPath = b.relPath → a = b) :
    l.insertionSort Parsed.upTo = l'.insertionSort Parsed.upTo := by
  refine Perm.eq_of_pairwise ?_ (pairwise_insertionSort _ l)
    (pairwise_insertionSort _ l')
    (((perm_insertionSort _ l).trans h).trans (perm_insertionSort _ l').symm)
  intro a b ha hb hab hba
  have ha := (mem_insertionSort Parsed.upTo).mp ha
  have hb := h.mem_iff.mpr ((mem_insertionSort Parsed.upTo).mp hb)
  exact hinj a ha b hb (units_injective (le_antisymm hab hba))

theorem Sound.inj (h : Sound u style dir raw) :
    ∀ a ∈ raw.map RawItem.parse, ∀ b ∈ raw.map RawItem.parse, a.relPath = b.relPath → a = b := by
  have hnodup : ((raw.map RawItem.parse).map fun item => pathKey u style item.relPath).Nodup := by
    rw [List.map_map]
    exact h.once
  intro a ha b hb hab
  exact inj_on_of_nodup_map hnodup ha hb (congrArg (pathKey u style) hab)

/-- What is known of the tree built of the items of `raw`, its signature among it: the same items in
any other order have the same, and other items have another. -/
structure BuiltWell (u : UpperCase) (style : PathStyle) (sha256 : List Parsed → δ) (dir : Text)
    (raw : List RawItem) (items : List TreeItem) (order : List ℕ) (files bytes : ℕ) (signature : δ) :
    Prop where
  wellFormed : WellFormed u style raw items order files bytes
  any_order : ∀ raw' : List RawItem, raw'.Perm raw → ∃ items' order' files' bytes',
    buildUploadTree u style sha256 dir (some raw') = .built items' order' files' bytes' signature
  others : Injective sha256 → ∀ (raw' : List RawItem) items' order' files' bytes',
    buildUploadTree u style sha256 dir (some raw') = .built items' order' files' bytes' signature →
    (raw'.map RawItem.parse).Perm (raw.map RawItem.parse)

theorem builtWell_of_built {order : List ℕ} {files bytes : ℕ} {signature : δ}
    (h : buildUploadTree u style sha256 dir (some raw) = .built items order files bytes signature) :
    BuiltWell u style sha256 dir raw items order files bytes signature := by
  have hsound := sound_of_built sha256 h
  rw [build_of_sound sha256 hsound] at h
  obtain ⟨rfl, rfl, rfl, rfl, rfl⟩ := Outcome.built.inj h
  constructor
  · exact wellFormed_of_sound hsound
  · intro raw' hperm
    have hsound' : Sound u style dir raw' :=
      not_occurs_iff.mp fun hoccurs => not_occurs_iff.mpr hsound (hoccurs.perm hperm)
    rw [build_of_sound sha256 hsound',
      insertionSort_eq_of_perm (hperm.map RawItem.parse) hsound'.inj]
    exact ⟨_, _, _, _, rfl⟩
  · intro hsha raw' items' order' files' bytes' h'
    rw [build_of_sound sha256 (sound_of_built sha256 h')] at h'
    obtain ⟨-, -, -, -, hsignature⟩ := Outcome.built.inj h'
    have hsorted := hsha hsignature
    have hperm := hsorted ▸ (perm_insertionSort Parsed.upTo (raw'.map RawItem.parse)).symm
    exact hperm.trans (perm_insertionSort Parsed.upTo (raw.map RawItem.parse))

theorem isBuilt_iff (raw : Option (List RawItem)) :
    (∃ items order files bytes signature,
        buildUploadTree u style sha256 dir raw = .built items order files bytes signature) ↔
      ¬Occurs u style dir raw := by
  cases raw with
  | none => exact iff_of_false nofun fun h => h .noList
  | some raw =>
    rw [not_occurs_iff]
    constructor
    · rintro ⟨items, order, files, bytes, signature, h⟩
      exact sound_of_built sha256 h
    · exact fun h => ⟨_, _, _, _, _, build_of_sound sha256 h⟩

/-- **The tree of an upload's items**: it is built exactly if no problem occurs, and it is well formed;
its signature says which items they are, in whatever order. -/
theorem buildUploadTree_spec (u : UpperCase) (style : PathStyle) (sha256 : List Parsed → δ)
    (dir : Text) (raw : Option (List RawItem)) :
    ((∃ items order files bytes signature,
        buildUploadTree u style sha256 dir raw = .built items order files bytes signature) ↔
      ¬Occurs u style dir raw) ∧
    ∀ items order files bytes signature,
      buildUploadTree u style sha256 dir raw = .built items order files bytes signature →
      ∃ l, raw = some l ∧ BuiltWell u style sha256 dir l items order files bytes signature := by
  refine ⟨isBuilt_iff sha256 raw, fun items order files bytes signature h => ?_⟩
  cases raw with
  | none => exact nomatch h
  | some raw => exact ⟨raw, rfl, builtWell_of_built sha256 h⟩

/-- **What is built is a tree an upload can work on**: what an item is in is one of the items, a
folder with fewer names in its path, wherever in the list it stands.  The upload goes through it in
the order that was built, and finds in each folder what was put there. -/
theorem buildUploadTree_uploadTree {raw : List RawItem} {items : List TreeItem} {order : List ℕ}
    {files bytes : ℕ} {signature : δ}
    (h : buildUploadTree u style sha256 dir (some raw) = .built items order files bytes signature) :
    ∃ hwell : WellFormed u style raw items order files bytes, (uploadTree hwell).order = order ∧
      ∀ folder ∈ items, (uploadTree hwell).children folder.id = folder.children := by
  have hwell := (builtWell_of_built sha256 h).wellFormed
  refine ⟨hwell, ?_, fun folder hmem => uploadTree_children hwell hmem⟩
  rw [build_of_sound sha256 (sound_of_built sha256 h)] at h
  obtain ⟨rfl, rfl, -⟩ := Outcome.built.inj h
  exact uploadTree_order hwell

theorem toUpper_eq_slash (c : Char) : c.toUpper = '/' ↔ c = '/' := by
  unfold Char.toUpper
  split
  · next h =>
    have hoff : ('A'.val - 'a'.val : UInt32).toNat = 4294967264 := by decide
    have hlo : 97 ≤ c.val.toNat := UInt32.le_iff_toNat_le.mp h.1
    have hhi : c.val.toNat ≤ 122 := UInt32.le_iff_toNat_le.mp h.2
    refine iff_of_false (fun heq => ?_) fun heq => ?_
    · have hval := congrArg (fun d : Char => d.val.toNat) heq
      simp only [UInt32.toNat_add, hoff] at hval
      change _ = 47 at hval
      omega
    · rw [heq] at hlo
      exact absurd hlo (by decide)
  · rfl

/-- Upper case of the letters without accents. -/
def asciiUpper : UpperCase where
  upper c := [c.toUpper]
  slash c := by
    rw [count_singleton]
    simp only [beq_iff_eq, toUpper_eq_slash]

/-- A file, and after it the folder it is in. -/
def docs : List RawItem := [⟨.text "docs/a".toList, .text "file".toList, .whole 1, .absent⟩,
  ⟨.text "docs".toList, .text "dir".toList, .absent, .absent⟩]

theorem buildUploadTree_uploadTree_docs : ∃ items order files bytes,
    ∃ h : WellFormed asciiUpper .posix docs items order files bytes,
      (uploadTree h).order = [1, 0] ∧ (uploadTree h).children 1 = [0] := by
  have hrun : (match buildUploadTree asciiUpper .posix id "/up".toList (some docs) with
      | .built items order _ _ _ =>
        order = [1, 0] && items.any fun folder => folder.id = 1 ∧ folder.children = [0]
      | .refused _ _ _ => false) = true := by
    decide +kernel
  split at hrun
  · next heq =>
    obtain ⟨hwell, horder, hchildren⟩ := buildUploadTree_uploadTree id heq
    obtain ⟨hfirst, hany⟩ := (Bool.and_eq_true _ _).mp hrun
    obtain ⟨folder, hmem, hfolder⟩ := List.any_eq_true.mp hany
    obtain ⟨hid, hkept⟩ := of_decide_eq_true hfolder
    exact ⟨_, _, _, _, hwell, horder.trans (of_decide_eq_true hfirst),
      hid ▸ (hchildren folder hmem).trans hkept⟩
  · cases hrun

/-- The folder an item is in has the item's path less its last name as its path. -/
def InOwnFolder (items : List TreeItem) (item : TreeItem) : Prop :=
  ∀ p ∈ item.parent, ∀ folder ∈ items[p]?,
    (cutLast '/' item.relPath).map Prod.fst = some folder.relPath

instance (items : List TreeItem) (item : TreeItem) : Decidable (InOwnFolder items item) :=
  inferInstanceAs (Decidable (∀ p ∈ item.parent, ∀ folder ∈ items[p]?, _ = _))

/-- On a Windows host a file is put into a folder whose path it has in another case. -/
theorem parent_in_another_case :
    ¬∀ items order files bytes signature,
      buildUploadTree asciiUpper .windows id "C:\\up".toList
        (some [⟨.text "Docs".toList, .text "dir".toList, .absent, .absent⟩,
          ⟨.text "docs/a".toList, .text "file".toList, .whole 1, .absent⟩]) =
        .built items order files bytes signature →
      ∀ item ∈ items, InOwnFolder items item := by
  intro h
  have hrun : (match buildUploadTree asciiUpper .windows id "C:\\up".toList
      (some [⟨.text "Docs".toList, .text "dir".toList, .absent, .absent⟩,
        ⟨.text "docs/a".toList, .text "file".toList, .whole 1, .absent⟩]) with
      | .built items _ _ _ _ => !decide (∀ item ∈ items, InOwnFolder items item)
      | .refused _ _ _ => false) = true := by
    decide +kernel
  split at hrun
  · next heq =>
    rw [decide_eq_true (h _ _ _ _ _ heq)] at hrun
    exact nomatch hrun
  · exact nomatch hrun

end Lasterm.Transfer.Build
