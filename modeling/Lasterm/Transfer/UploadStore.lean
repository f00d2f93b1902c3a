import Lasterm.Transfer.UploadTotals

/-!
# What meta.db keeps of an upload

The rows of an upload as meta.db holds them (`storage/transfers-dal.ts`), and an upload written
to them and brought back (`itemRecord`, `bringBack`).  What was moving is interrupted then, and
what only lives in memory is reset.  An item's `reason` and `code` are left out, and of what has
its name all but whether it is a folder.

Where a folder is on the host is not in its row.  It is found again from its outcome, its final
name and where the folder it is in is, which is the path it had as long as folders are put in
place from the top down, once each.

## Main definitions

* `ItemRow`, `itemParams`, `toItem`, `restore` — the rows, and the upload they give.

## Main results

* `restored_of_keepsPlaces` — what is brought back is what was written, where folders stay.
* `folder_moved_by_restore` — and one that does not.
-/

namespace Lasterm.Transfer.Uploads

open Transition Relation Tally List Option Function Upload UploadTree

/-! ### Rows -/

/-- A row of `transfer_items`; 0 and 1 stand for false and true. -/
structure ItemRow where
  id : ℕ
  parent_id : Option ℕ
  rel_path : List String
  kind : Kind
  size : ℕ
  mtime : Option ℕ
  state : ItemState
  acked_offset : ℤ
  temp_path : Option HostPath
  temp_whole : ℕ
  direct : ℕ
  final_name : Option String
  resolution : Option Action
  outcome : Option Outcome
  verification : Option Verification
  existing_json : Option FileEntry
  type_clash : ℕ
  late : ℕ

/-- A row as the service reads it: its place in the tree, and the rest. -/
structure StoredItem where
  id : ℕ
  place : TreeItem
  row : Row

/-- `itemParams`: an item written as a row. -/
def itemParams (item : StoredItem) : ItemRow where
  id := item.id
  parent_id := item.place.parent
  rel_path := item.place.relPath
  kind := item.place.kind
  size := item.row.size
  mtime := item.row.mtime
  state := item.row.state
  acked_offset := item.row.ackedOffset
  temp_path := item.row.tempPath
  temp_whole := if item.row.tempWhole then 1 else 0
  direct := if item.row.direct then 1 else 0
  final_name := item.row.finalName
  resolution := item.row.resolution
  outcome := item.row.outcome
  verification := item.row.verification
  existing_json := item.row.existing
  type_clash := if item.row.typeClash then 1 else 0
  late := if item.row.late then 1 else 0

/-- `toItem`: a row read back. -/
def toItem (row : ItemRow) : StoredItem where
  id := row.id
  place := ⟨row.rel_path, row.kind, row.parent_id⟩
  row :=
    { size := row.size
      mtime := row.mtime
      state := row.state
      ackedOffset := row.acked_offset
      tempPath := row.temp_path
      tempWhole := row.temp_whole ≠ 0
      direct := row.direct ≠ 0
      finalName := row.final_name
      resolution := row.resolution
      outcome := row.outcome
      verification := row.verification
      existing := row.existing_json
      typeClash := row.type_clash ≠ 0
      late := row.late ≠ 0 }

@[simp] theorem toItem_itemParams (item : StoredItem) : toItem (itemParams item) = item := by
  obtain ⟨id, ⟨relPath, kind, parent⟩, row⟩ := item
  obtain ⟨_, _, _, _, _, tempWhole, direct, _, _, _, _, _, typeClash, late⟩ := row
  cases tempWhole <;> cases direct <;> cases typeClash <;> cases late <;> rfl

/-! ### An upload's rows -/

variable {u : Upload}

namespace Upload

/-- An item's row. -/
def itemRow (u : Upload) (i : ℕ) : ItemRow :=
  itemParams ⟨i, u.tree.items[i]?.getD ⟨[], .file, none⟩, itemRecord (u.items i)⟩

/-- Every row of an upload, by id. -/
def persisted (u : Upload) : List ItemRow := (range u.tree.size).map u.itemRow

end Upload

/-- What each of the items is in is a folder among them, with a shorter path. -/
def isTree (items : List TreeItem) : Bool :=
  items.all fun item =>
    match item.parent with
    | none => true
    | some p => items[p]?.any fun folder =>
      folder.kind = .dir ∧ folder.relPath.length < item.relPath.length

/-- The tree of an upload's rows. -/
def treeOf (items : List TreeItem) : Option UploadTree :=
  if h : isTree items then
    some
      { items
        parent_dir := by
          intro i item hitem p hp
          have hall := all_eq_true.mp h item (mem_of_getElem? hitem)
          rw [hp] at hall
          cases hfolder : items[p]? with
          | none => simp [hfolder] at hall
          | some folder =>
            simp only [hfolder, any_some, decide_eq_true_eq] at hall
            exact ⟨folder, rfl, hall⟩ }
  else none

/-- The upload of these rows, as `restore` brings it back: their ids are their places. -/
def restore (onConflict : Policy) (verify : Bool) (rows : List ItemRow) : Option Upload :=
  let stored := rows.map toItem
  if stored.map StoredItem.id = range rows.length then
    (treeOf (stored.map StoredItem.place)).map fun tree =>
      bringBack tree onConflict verify fun i =>
        (stored[i]?.map StoredItem.row).getD (itemRecord (.new 0 none))
  else none

theorem treeOf_items (tree : UploadTree) : treeOf tree.items = some tree := by
  have h : isTree tree.items := by
    refine all_eq_true.mpr fun item hitem => ?_
    obtain ⟨i, hi⟩ := getElem?_of_mem hitem
    cases hp : item.parent with
    | none => rfl
    | some p =>
      obtain ⟨folder, hfolder, hdir⟩ := tree.parent_dir i item hi p hp
      simp [hfolder, hdir]
  rw [treeOf, dif_pos h]

theorem restore_persisted (u : Upload) : ∃ rows : ℕ → Row,
    restore u.onConflict u.verify u.persisted =
      some (bringBack u.tree u.onConflict u.verify rows) ∧
    ∀ i < u.tree.size, rows i = itemRecord (u.items i) := by
  have hstored : u.persisted.map toItem = (range u.tree.size).map fun i =>
      ⟨i, u.tree.items[i]?.getD ⟨[], .file, none⟩, itemRecord (u.items i)⟩ := by
    simp [persisted, itemRow]
  have hplaces : (u.persisted.map toItem).map StoredItem.place = u.tree.items := by
    rw [hstored, List.map_map]
    refine ext_getElem (by simp [UploadTree.size]) fun i hi hi' => ?_
    simp [getElem?_eq_getElem hi']
  have hids : (u.persisted.map toItem).map StoredItem.id = range u.persisted.length := by
    rw [hstored, List.map_map]
    simp [persisted, comp_def]
  refine ⟨_, by rw [restore, if_pos hids, hplaces, treeOf_items]; rfl, fun i hi => ?_⟩
  rw [hstored]
  simp [hi]

/-! ### Where folders are -/

/-- The folder was put in place. -/
def Item.inPlace (item : Item) : Bool := item.outcome.any (· ≠ .skipped)

theorem Item.inPlace_eq_false_iff {item : Item} :
    item.inPlace = false ↔ item.outcome = none ∨ item.outcome = some .skipped := by
  cases h : item.outcome <;> simp [inPlace, h]

/-- Where what an item is in is, if that is known. -/
def placeIn (tree : UploadTree) (items : ℕ → Item) (i : ℕ) : Option HostPath :=
  match tree.parent i with
  | none => some []
  | some p => (items p).path

/-- Where a folder is, by its outcome, its name and where the folder it is in is. -/
def housed (tree : UploadTree) (items : ℕ → Item) (i : ℕ) : Option HostPath :=
  if (items i).inPlace then
    (placeIn tree items i).map fun dir =>
      joinHostPath dir ((items i).finalName.getD (tree.name i))
  else none

variable {tree : UploadTree} {items items' : ℕ → Item} {i : ℕ}

theorem placeIn_congr (h : ∀ p, tree.parent i = some p → (items' p).path = (items p).path) :
    placeIn tree items' i = placeIn tree items i := by
  unfold placeIn
  split
  · rfl
  · next p hp => exact h p hp

theorem housed_congr (ho : (items' i).outcome = (items i).outcome)
    (hf : (items' i).finalName = (items i).finalName)
    (hp : ∀ p, tree.parent i = some p → (items' p).path = (items p).path) :
    housed tree items' i = housed tree items i := by
  unfold housed Item.inPlace
  rw [placeIn_congr hp, ho, hf]

/-- One turn of the loop of `bringBack`. -/
theorem folderPath_eq (hi : tree.kind i = .dir) (hnone : (items i).path = none) :
    folderPath tree items i =
      update items i { items i with path := housed tree items i } := by
  have hsame : items = update items i { items i with path := none } := by
    rw [← hnone, update_eq_self]
  unfold folderPath housed placeIn
  cases hplace : (items i).inPlace with
  | false =>
    rw [if_pos (.inr (Item.inPlace_eq_false_iff.mp hplace)), if_neg (by simp)]
    exact hsame
  | true =>
    have hneither : ¬((items i).outcome = none ∨ (items i).outcome = some .skipped) := by
      rw [← Item.inPlace_eq_false_iff, hplace]
      simp
    rw [if_neg (by tauto), if_pos rfl]
    cases tree.parent i with
    | none => rfl
    | some p =>
      cases hp : (items p).path with
      | none => simpa only [hp, map_none] using hsame
      | some dir => simp only [hp, map_some]

theorem folderPath_file (hi : tree.kind i = .file) : folderPath tree items i = items := by
  simp [folderPath, hi]

theorem UploadTree.order_sorted (t : UploadTree) :
    t.order.Pairwise fun a b => t.depth a < t.depth b ∨ t.depth a = t.depth b ∧ a ≤ b := by
  have : Std.Total fun a b => t.depth a < t.depth b ∨ t.depth a = t.depth b ∧ a ≤ b :=
    ⟨fun a b => by omega⟩
  have : IsTrans ℕ fun a b => t.depth a < t.depth b ∨ t.depth a = t.depth b ∧ a ≤ b :=
    ⟨fun a b c hab hbc => by omega⟩
  exact pairwise_insertionSort _ _

theorem UploadTree.order_nodup (t : UploadTree) : t.order.Nodup :=
  (perm_insertionSort _ _).nodup_iff.mpr nodup_range

/-- What the loop of `bringBack` has found so far: where the folders it has come to are. -/
def HousedSoFar (tree : UploadTree) (items : ℕ → Item) (seen : List ℕ) : Prop :=
  ∀ i, (items i).path = if i ∈ seen ∧ tree.kind i = .dir then housed tree items i else none

theorem HousedSoFar.folderPath {seen : List ℕ} {j : ℕ}
    (h : HousedSoFar tree items seen) (hj : j ∉ seen)
    (hdepth : ∀ i ∈ seen, tree.depth i ≤ tree.depth j) :
    HousedSoFar tree (folderPath tree items j) (seen ++ [j]) := by
  have hnone : (items j).path = none := by rw [h j, if_neg fun hmem => hj hmem.1]
  intro i
  cases hkind : tree.kind j with
  | file =>
    rw [folderPath_file hkind, h i]
    by_cases hij : i = j
    · subst hij
      simp [hkind]
    · simp [hij]
  | dir =>
    rw [folderPath_eq hkind hnone]
    -- No folder seen so far is in the one at hand: it would be deeper.
    have hsame : ∀ k, k = j ∨ k ∈ seen →
        housed tree (update items j { items j with path := housed tree items j }) k =
          housed tree items k := by
      intro k hk
      have hdepth' : tree.depth k ≤ tree.depth j := by
        rcases hk with rfl | hk
        · exact le_rfl
        · exact hdepth k hk
      refine housed_congr ?_ ?_ fun p hp => ?_
      · by_cases hkj : k = j
        · subst hkj
          simp
        · simp [hkj]
      · by_cases hkj : k = j
        · subst hkj
          simp
        · simp [hkj]
      · have hlt := (parent_spec hp).2
        have hpj : p ≠ j := by
          rintro rfl
          omega
        rw [update_of_ne hpj]
    by_cases hij : i = j
    · subst hij
      rw [update_self, if_pos ⟨by simp, hkind⟩, hsame i (.inl rfl)]
    · rw [update_of_ne hij, h i]
      by_cases hi : i ∈ seen
      · simp [hij, hi, hsame i (.inr hi)]
      · simp [hij, hi]

/-- **Folders are where their rows say**: where each is follows from its row and from where the
folder it is in is. -/
theorem foldl_folderPath_housed (tree : UploadTree) (items : ℕ → Item)
    (hnone : ∀ i, (items i).path = none) :
    HousedSoFar tree (tree.order.foldl (folderPath tree) items) tree.order := by
  have hloop : ∀ (rest seen : List ℕ) (items : ℕ → Item), tree.order = seen ++ rest →
      HousedSoFar tree items seen →
      HousedSoFar tree (rest.foldl (folderPath tree) items) tree.order := by
    intro rest
    induction rest with
    | nil =>
      intro seen items horder hseen
      rw [horder, append_nil]
      exact hseen
    | cons j rest ih =>
      intro seen items horder hseen
      have hnodup := horder ▸ tree.order_nodup
      have hsorted := horder ▸ tree.order_sorted
      refine ih (seen ++ [j]) _ (by rw [horder, append_assoc]; rfl) (hseen.folderPath ?_ ?_)
      · intro hj
        exact (nodup_append.mp hnodup).2.2 j hj j mem_cons_self rfl
      · intro i hi
        have := (pairwise_append.mp hsorted).2.2 i hi j mem_cons_self
        omega
  exact hloop tree.order [] items rfl fun i => by simp [hnone i]

theorem path_eq_of_housed (h : ∀ i, tree.IsDir i → (items i).path = housed tree items i)
    (h' : ∀ i, tree.IsDir i → (items' i).path = housed tree items' i)
    (ho : ∀ i, tree.IsDir i → (items' i).outcome = (items i).outcome)
    (hf : ∀ i, tree.IsDir i → (items' i).finalName = (items i).finalName)
    (hi : tree.IsDir i) : (items' i).path = (items i).path := by
  induction hdepth : tree.depth i using Nat.strong_induction_on generalizing i with
  | _ n ih =>
    rw [h i hi, h' i hi]
    refine housed_congr (ho i hi) (hf i hi) fun p hp => ?_
    obtain ⟨hdir, hlt⟩ := parent_spec hp
    exact ih (tree.depth p) (hdepth ▸ hlt) hdir rfl

/-! ### Folders stay where they are -/

/-- Where a call of `createFolders` puts its folders is where theirs are, and a folder being kept
both is not placed. -/
def Task.Sited (tree : UploadTree) (items : ℕ → Item) : Task → Prop
  | .mkdirs _ plain paths =>
    paths = plain.map fun i => joinHostPath ((placeIn tree items i).getD []) (tree.name i)
  | .keepBothFolder i n path _ =>
    path = joinHostPath ((placeIn tree items i).getD []) (keepBothName (tree.name i) n .dir) ∧
      (tree.IsDir i → (items i).state ≠ .placed)
  | _ => True

/-- Every folder is where its row says; one that was put in place is placed. -/
structure HousedIn (tree : UploadTree) (items : ℕ → Item) (tasks : List Task) : Prop where
  path : ∀ i, tree.IsDir i → (items i).path = housed tree items i
  placed : ∀ i, tree.IsDir i → (items i).inPlace → (items i).state = .placed
  named : ∀ i, tree.IsDir i → (items i).finalName ≠ none → (items i).inPlace
  acked : ∀ i, tree.IsDir i → (items i).acked = 0
  sited : ∀ t ∈ tasks, t.Sited tree items

/-- Folders are where their rows say. -/
def Upload.Housed (u : Upload) : Prop := HousedIn u.tree u.items u.tasks

variable {t : Task}

namespace HousedIn

variable {tree : UploadTree} {items items' : ℕ → Item} {tasks tasks' : List Task} {i : ℕ}

theorem sited_congr (h : t.Sited tree items)
    (hpath : ∀ i, tree.IsDir i → (items' i).path = (items i).path)
    (hstate : ∀ i, tree.IsDir i → (items' i).state = .placed → (items i).state = .placed) :
    t.Sited tree items' := by
  have hplace : ∀ i, placeIn tree items' i = placeIn tree items i := fun i =>
    placeIn_congr fun p hp => hpath p (parent_spec hp).1
  cases t with
  | mkdirs batch plain paths =>
    simp only [Task.Sited, hplace]
    exact h
  | keepBothFolder i n path rest =>
    simp only [Task.Sited, hplace]
    exact ⟨h.1, fun hi hplaced => h.2 hi (hstate i hi hplaced)⟩
  | _ => trivial

theorem sited_of_not_folders (h : t.isFolders = false) : t.Sited tree items := by
  cases t with
  | mkdirs | keepBothFolder => cases h
  | _ => trivial

theorem congr (h : HousedIn tree items tasks)
    (hhousing : ∀ i, tree.IsDir i → (items' i).housing = (items i).housing)
    (hacked : ∀ i, tree.IsDir i → (items' i).acked = (items i).acked)
    (hstate : ∀ i, tree.IsDir i → ((items' i).state = .placed ↔ (items i).state = .placed))
    (htasks : ∀ t ∈ tasks', t ∈ tasks ∨ t.isFolders = false) : HousedIn tree items' tasks' := by
  simp only [Item.housing, Prod.mk.injEq] at hhousing
  have hplace : ∀ i, tree.IsDir i → (items' i).inPlace = (items i).inPlace := fun i hi => by
    rw [Item.inPlace, Item.inPlace, (hhousing i hi).2.1]
  refine ⟨fun i hi => ?_, fun i hi hin => ?_, fun i hi hname => ?_, fun i hi => ?_,
    fun t ht => ?_⟩
  · rw [(hhousing i hi).1, h.path i hi]
    refine (housed_congr (hhousing i hi).2.1 (hhousing i hi).2.2 fun p hp => ?_).symm
    exact (hhousing p (parent_spec hp).1).1
  · exact (hstate i hi).mpr (h.placed i hi (hplace i hi ▸ hin))
  · rw [hplace i hi]
    exact h.named i hi ((hhousing i hi).2.2 ▸ hname)
  · rw [hacked i hi, h.acked i hi]
  · rcases htasks t ht with hmem | hf
    · exact sited_congr (h.sited t hmem) (fun i hi => (hhousing i hi).1)
        fun i hi => (hstate i hi).mp
    · exact sited_of_not_folders hf

theorem update (h : HousedIn tree items tasks) {item : Item}
    (hhousing : tree.IsDir i → item.housing = (items i).housing)
    (hacked : tree.IsDir i → item.acked = (items i).acked)
    (hstate : tree.IsDir i → (item.state = .placed ↔ (items i).state = .placed)) :
    HousedIn tree (update items i item) tasks := by
  have hcases : ∀ (P : Item → Item → Prop), (∀ item, P item item) → (tree.IsDir i → P item (items i)) →
      ∀ j, tree.IsDir j → P (Function.update items i item j) (items j) := by
    intro P hrefl hP j hj
    by_cases hji : j = i
    · subst hji
      rw [update_self]
      exact hP hj
    · rw [update_of_ne hji]
      exact hrefl _
  exact h.congr (hcases (fun a b => a.housing = b.housing) (fun _ => rfl) hhousing)
    (hcases (fun a b => a.acked = b.acked) (fun _ => rfl) hacked)
    (hcases (fun a b => a.state = .placed ↔ b.state = .placed) (fun _ => Iff.rfl) hstate)
    fun t ht => .inl ht

end HousedIn

variable {path : HostPath} {outcome : Outcome}

namespace Upload.Housed

variable {u v : Upload} {i : ℕ}

section

variable (h : u.Housed)
include h

theorem edit {f : Item → Item} (hf : u.tree.IsDir i → (f (u.items i)).housing = (u.items i).housing)
    (ha : u.tree.IsDir i → (f (u.items i)).acked = (u.items i).acked)
    (hs : u.tree.IsDir i → ((f (u.items i)).state = .placed ↔ (u.items i).state = .placed)) :
    (u.edit i f).Housed :=
  HousedIn.update h hf ha hs

theorem setState {state : ItemState}
    (hd : u.tree.IsDir i → (u.items i).state ≠ .placed ∧ state ≠ .placed) :
    (u.setState i state).Housed := by
  obtain ⟨_, _, _, hshape⟩ := setState_shape u i state
  rw [hshape]
  refine h.edit (i := i) (f := fun item => { item with state }) (fun _ => rfl) (fun _ => rfl) ?_
  exact fun hdir => iff_of_false (hd hdir).2 (hd hdir).1

theorem enqueue (i : ℕ) : (u.enqueue i).Housed := by
  obtain ⟨_, _, _, hshape⟩ := enqueue_shape u i
  rw [hshape]
  exact h

theorem enqueueQueued (ids : List ℕ) : (u.enqueueQueued ids).Housed := by
  obtain ⟨_, _, _, hshape⟩ := enqueueQueued_shape u ids
  rw [hshape]
  exact h

theorem addAcked (hi : u.tree.IsFile i) (delta : ℤ) : (u.addAcked i delta).Housed := by
  obtain ⟨_, _, hshape⟩ := addAcked_shape u i delta
  rw [hshape]
  exact h.edit (i := i) (f := fun item => { item with acked := item.acked + delta }) (fun _ => rfl)
    (fun hdir => absurd hdir hi.not_isDir) fun _ => Iff.rfl

theorem await (ht : t.Sited u.tree u.items) : (u.await t).Housed :=
  { h with
    sited := fun t' ht' => by
      rcases mem_append.mp ht' with hmem | hmem
      · exact h.sited t' hmem
      · exact mem_singleton.mp hmem ▸ ht }

theorem noteSkipped (hd : u.tree.IsDir i → (u.items i).state ≠ .placed) :
    (u.edit i fun item => { item with outcome := some .skipped }).Housed := by
  by_cases hi : u.tree.IsDir i
  · have hout : (u.items i).inPlace = false := by
      by_contra hin
      exact hd hi (h.placed i hi (by simpa using hin))
    have hpath : (u.items i).path = none := by
      rw [h.path i hi, housed, if_neg (by simp [hout])]
    have hname : (u.items i).finalName = none := by
      by_contra hname
      rw [h.named i hi hname] at hout
      cases hout
    have hsame : ∀ j, (((u.edit i fun item => { item with outcome := some .skipped }).items j).path,
        ((u.edit i fun item => { item with outcome := some .skipped }).items j).state) =
        ((u.items j).path, (u.items j).state) := by
      intro j
      rw [edit_items]
      split
      · next hj => rw [hj]
      · rfl
    simp only [Prod.mk.injEq] at hsame
    refine ⟨fun j hj => ?_, fun j hj hin => ?_, fun j hj hn => ?_, fun j hj => ?_, fun t ht => ?_⟩
    · rw [(hsame j).1]
      by_cases hji : j = i
      · subst hji
        simp [hpath, housed, Item.inPlace, Upload.edit]
      · refine (h.path j hj).trans (housed_congr ?_ ?_ fun p _ => (hsame p).1).symm
        · simp [edit_items, hji]
        · simp [edit_items, hji]
    · rw [(hsame j).2]
      by_cases hji : j = i
      · subst hji
        simp [Item.inPlace, Upload.edit] at hin
      · simp only [edit_items, if_neg hji] at hin
        exact h.placed j hj hin
    · by_cases hji : j = i
      · subst hji
        simp [Upload.edit, hname] at hn
      · simp only [edit_items, if_neg hji] at hn ⊢
        exact h.named j hj hn
    · rw [edit_items]
      split
      · next hji => exact hji ▸ h.acked j hj
      · exact h.acked j hj
    · exact HousedIn.sited_congr (h.sited t ht) (fun j _ => (hsame j).1) fun j _ hp => by
        rwa [(hsame j).2] at hp
  · exact h.edit (fun hdir => absurd hdir hi) (fun hdir => absurd hdir hi)
      fun hdir => absurd hdir hi

theorem move (hm : Move u v) : v.Housed := by
  cases hm with
  | await t _ _ hf => exact h.await (HousedIn.sited_of_not_folders hf)
  | note i f hf hd =>
    exact h.edit (fun hdir => hd hdir _) (fun _ => hf.acked _) fun _ => by rw [hf.state]
  | noteSkipped i hd => exact h.noteSkipped fun hdir hplaced => hd hdir (.inl hplaced)
  | keepBoth | endWrite => exact h.edit (fun _ => rfl) (fun _ => rfl) fun _ => Iff.rfl
  | stop i state _ _ hp hd =>
    refine h.setState fun hdir => ⟨fun hplaced => hd hdir (.inl hplaced), fun hplaced => ?_⟩
    exact nomatch (hp hplaced).symm.trans hdir.2
  | restart i hi => exact h.addAcked hi _
  | enqueue i => exact h.enqueue i
  | queueAgain i _ hd =>
    exact (h.setState fun hdir => ⟨fun hplaced => hd hdir (.inl hplaced), by decide⟩).enqueue i
  | rebuild =>
    have hempty : { u with
        stale := false, queue := [], folderQueue := [], waiting := fun _ => [] }.Housed := h
    exact hempty.enqueueQueued _
  | _ => exact h

theorem moves (hm : Moves u v) : v.Housed := by
  induction hm with
  | refl => exact h
  | tail _ hmove ih => exact ih.move hmove

theorem act (ha : Act u v) : v.Housed := by
  cases ha with
  | move hm => exact h.move hm
  | startWrite i =>
    have hwriting : (u.edit i fun item => { item with writing := true }).Housed :=
      h.edit (fun _ => rfl) (fun _ => rfl) fun _ => Iff.rfl
    exact hwriting.await trivial
  | acknowledge i n hi => exact h.addAcked hi n
  | placeOver i temp target =>
    have hcalled : { u with
        calls := u.calls ++ [Task.placing i temp target .replace] }.Housed := h
    exact hcalled.await trivial
  | resize i size mtime =>
    obtain ⟨_, _, hshape⟩ := resize_shape u i size mtime
    rw [hshape]
    exact h.edit (i := i) (f := fun item => { item with size, mtime, verification := none })
      (fun _ => rfl) (fun _ => rfl) fun _ => Iff.rfl
  | resolve => exact h.edit (fun _ => rfl) (fun _ => rfl) fun _ => Iff.rfl
  | noteAnswer i action =>
    exact h.edit (i := i) (f := fun item => { item with resolution := some action })
      (fun _ => rfl) (fun _ => rfl) fun _ => Iff.rfl

theorem acts (ha : Acts u v) : v.Housed := by
  induction ha with
  | refl => exact h
  | tail _ hact ih => exact ih.act hact

theorem source (source : Option String) : { u with source }.Housed := h

theorem passes (hp : Passes u v) : v.Housed := by
  induction hp with
  | refl => exact h
  | tail _ hpass ih =>
    cases hpass with
    | move hm => exact ih.move hm
    | takes => exact ih
    | admits i hi => exact ih.setState fun hdir => absurd hdir hi.not_isDir

theorem folderPlacedAs (hn : ∀ t ∈ u.tasks, t.isFolders = false)
    (hi : u.tree.IsDir i) {dir : HostPath} (hdir : placeIn u.tree u.items i = some dir)
    (hchildren : ∀ c, u.tree.IsDir c → u.tree.parent c = some i → (u.items c).inPlace = false)
    (ho : outcome ≠ .skipped) {name : Option String}
    (hpath : path = joinHostPath dir (name.getD (u.tree.name i))) :
    ((u.edit i fun item => { item with finalName := name }).folderPlaced i path outcome).Housed := by
  obtain ⟨v, hv⟩ : ∃ v, v =
      (u.edit i fun item => { item with finalName := name }).folderPlaced i path outcome := ⟨_, rfl⟩
  have hitems : ∀ j, v.items j = if j = i then
      { u.items i with
        finalName := name, path := some path, outcome := some outcome, state := .placed }
      else u.items j := by
    intro j
    rw [hv, folderPlaced_items]
    simp only [edit_items]
    split
    · simp
    · rfl
  have htree : v.tree = u.tree := by
    rw [hv]
    exact (enqueueQueued_tree _).trans setState_tree
  have htasks : v.tasks = u.tasks := by
    rw [hv]
    exact (enqueueQueued_tasks _).trans setState_tasks
  rw [← hv]
  clear hv
  unfold Housed
  rw [htree, htasks]
  refine ⟨fun j hj => ?_, fun j hj hplace => ?_, fun j hj hname => ?_, fun j hj => ?_,
    fun t ht => HousedIn.sited_of_not_folders (hn t ht)⟩
  · by_cases hji : j = i
    · subst hji
      have hsame : placeIn u.tree v.items j = placeIn u.tree u.items j := by
        refine placeIn_congr fun p hp => ?_
        rw [hitems, if_neg (parent_ne_self hp)]
      rw [housed, hsame, hdir, hitems, if_pos rfl, if_pos (by simp [Item.inPlace, ho]), hpath]
      rfl
    · rw [hitems, if_neg hji, h.path j hj]
      by_cases hparent : u.tree.parent j = some i
      · -- What is in the folder is not in place, whatever its folder's place.
        rw [housed, housed, hitems, if_neg hji, hchildren j hj hparent]
        rfl
      · refine (housed_congr ?_ ?_ fun p hp => ?_).symm
        · rw [hitems, if_neg hji]
        · rw [hitems, if_neg hji]
        · rw [hitems, if_neg (fun hpi : p = i => hparent (hpi ▸ hp))]
  · rw [hitems] at hplace ⊢
    split
    · rfl
    · next hji =>
      rw [if_neg hji] at hplace
      exact h.placed j hj hplace
  · rw [hitems] at hname ⊢
    split
    · simp [Item.inPlace, ho]
    · next hji =>
      rw [if_neg hji] at hname
      exact h.named j hj hname
  · rw [hitems]
    split
    · next hji => exact hji ▸ h.acked j hj
    · exact h.acked j hj

theorem folderPlaced (hn : ∀ t ∈ u.tasks, t.isFolders = false)
    (hi : u.tree.IsDir i) {dir : HostPath} (hdir : placeIn u.tree u.items i = some dir)
    (hchildren : ∀ c, u.tree.IsDir c → u.tree.parent c = some i → (u.items c).inPlace = false)
    (ho : outcome ≠ .skipped)
    (hpath : path = joinHostPath dir ((u.items i).finalName.getD (u.tree.name i))) :
    (u.folderPlaced i path outcome).Housed := by
  have hplaced := h.folderPlacedAs hn hi hdir hchildren ho hpath
  rwa [Upload.edit, update_eq_self] at hplaced

theorem folderClash (hi : u.tree.IsDir i) (hq : (u.items i).state = .queued)
    (existing : Option FileEntry) : (u.folderClash i existing).Housed := by
  have hfound : (u.edit i fun item =>
      { item with existing, typeClash := true, late := true }).Housed :=
    h.edit (fun _ => rfl) (fun _ => rfl) fun _ => Iff.rfl
  have hopen : ¬((u.edit i fun item =>
      { item with existing, typeClash := true, late := true }).items i).ended := by
    simp [Upload.edit, Item.ended, hq]
  unfold Upload.folderClash
  dsimp only
  split
  · exact hfound.moves (Moves.skip _ .refl hi.1 fun _ => hopen)
  · have hkept : ((u.edit i fun item =>
        { item with existing, typeClash := true, late := true }).edit i fun item =>
        { item with resolution := some .keepBoth }).Housed :=
      hfound.edit (fun _ => rfl) (fun _ => rfl) fun _ => Iff.rfl
    exact hkept
  · exact hfound.move (.stop i .conflict hi.1 (by decide) (by simp) fun _ => hopen)
  · exact hfound.move (.stop i .conflict hi.1 (by decide) (by simp) fun _ => hopen)

theorem failSubtree (fuel : ℕ) (hs : (u.items i).state ≠ .placed) :
    (failSubtree fuel u i).Housed := by
  cases fuel with
  | zero => exact h
  | succ fuel =>
    have hfailed : (u.setState i .failed).Housed := h.setState fun _ => ⟨hs, by decide⟩
    exact hfailed.moves (Moves.failChildren fuel .refl)

end

end Upload.Housed

/-! ### What a result of `createFolders` leaves to the others -/

/-- Nothing is queued, moved or put in place. -/
def Wanes (u v : Upload) : Prop :=
  ∀ k, ((v.items k).state = .queued → (u.items k).state = .queued) ∧
    (v.items k).path = (u.items k).path ∧ ((v.items k).inPlace → (u.items k).inPlace)

namespace Wanes

variable {u v w : Upload} {i : ℕ}

theorem refl (u : Upload) : Wanes u u := fun _ => ⟨id, rfl, id⟩

theorem trans (h : Wanes u v) (h' : Wanes v w) : Wanes u w := fun k =>
  ⟨fun hq => (h k).1 ((h' k).1 hq), (h' k).2.1.trans (h k).2.1, fun hp => (h k).2.2 ((h' k).2.2 hp)⟩

theorem edit {f : Item → Item} (hs : (f (u.items i)).state = (u.items i).state)
    (hp : (f (u.items i)).path = (u.items i).path)
    (ho : (f (u.items i)).inPlace → (u.items i).inPlace) : Wanes u (u.edit i f) := by
  intro k
  rw [edit_items]
  split
  · next hk =>
    rw [hk]
    exact ⟨hs.symm.trans, hp, ho⟩
  · exact ⟨id, rfl, id⟩

theorem setState {state : ItemState} (hs : state ≠ .queued) : Wanes u (u.setState i state) := by
  intro k
  rw [setState_items]
  split
  · next hk => exact hk ▸ ⟨fun hq => absurd hq hs, rfl, id⟩
  · exact ⟨id, rfl, id⟩

theorem restartFile (u : Upload) (i : ℕ) : Wanes u (u.restartFile i) := by
  have hacked : Wanes u (u.addAcked i (-(u.items i).acked)) := by
    intro k
    rw [addAcked_items]
    split
    · next hk => exact hk ▸ ⟨id, rfl, id⟩
    · exact ⟨id, rfl, id⟩
  exact hacked.trans (.edit rfl rfl id)

theorem foldl {f : Upload → ℕ → Upload} {l : List ℕ} (hf : ∀ w i, Wanes w (f w i)) :
    Wanes u (l.foldl f u) :=
  foldlRecOn (motive := Wanes u) l f (refl u) fun w hw i _ => hw.trans (hf w i)

theorem skip (fuel : ℕ) (u : Upload) (i : ℕ) : Wanes u (skip fuel u i) :=
  skip_rec
    (fun _ _ h => (h.trans (.edit rfl rfl (by simp [Item.inPlace]))).trans (.setState (by decide)))
    (fun _ k h => h.trans (.restartFile _ k)) (fun _ _ _ h => h) fuel (.refl u) i

theorem failSubtree (fuel : ℕ) (u : Upload) (i : ℕ) : Wanes u (failSubtree fuel u i) := by
  induction fuel generalizing u i with
  | zero => exact .refl u
  | succ fuel ih =>
    have hfailed : Wanes u (u.setState i .failed) := .setState (by decide)
    refine hfailed.trans (foldl fun w c => ?_)
    split
    · exact ih w c
    · exact .refl w

theorem folderClash (u : Upload) (i : ℕ) (existing : Option FileEntry) :
    Wanes u (u.folderClash i existing) := by
  have hfound : Wanes u (u.edit i fun item =>
      { item with existing, typeClash := true, late := true }) := .edit rfl rfl id
  unfold Upload.folderClash
  dsimp only
  split
  · exact hfound.trans (.skip _ _ i)
  · have hkept : Wanes u ((u.edit i fun item =>
        { item with existing, typeClash := true, late := true }).edit i fun item =>
        { item with resolution := some .keepBoth }) := hfound.trans (.edit rfl rfl id)
    exact hkept
  · exact hfound.trans (.setState (by decide))
  · exact hfound.trans (.setState (by decide))

end Wanes

/-! ### A batch of folders -/

/-- Where a folder goes is known, and no folder in it is in place. -/
def Upload.CanPlace (u : Upload) (i : ℕ) : Prop :=
  placeIn u.tree u.items i ≠ none ∧
    ∀ c ∈ u.tree.children i, u.tree.kind c = .dir → (u.items c).inPlace = false

instance (u : Upload) (i : ℕ) : Decidable (u.CanPlace i) :=
  inferInstanceAs (Decidable (_ ∧ _))

theorem Upload.CanPlace.child {c : ℕ} (h : u.CanPlace i) (hc : u.tree.IsDir c)
    (hparent : u.tree.parent c = some i) : (u.items c).inPlace = false :=
  h.2 c (mem_children_iff.mpr ⟨hc.1, hparent⟩) hc.2

theorem Upload.parentPath_eq (u : Upload) (i : ℕ) :
    u.parentPath i = (placeIn u.tree u.items i).getD [] := by
  unfold parentPath placeIn
  cases u.tree.parent i <;> rfl

/-- Some results of a batch have been seen to: what is in place by now was before, or was queued
where that is known. -/
structure Making (u v : Upload) : Prop where
  between : Between u v
  stays : v.Housed
  queued : ∀ k, (v.items k).state = .queued → (u.items k).state = .queued
  path : ∀ k, u.tree.IsDir k → (u.items k).path ≠ none → (v.items k).path = (u.items k).path
  inPlace : ∀ k, (v.items k).inPlace → (u.items k).inPlace ∨
    (u.items k).state = .queued ∧ placeIn u.tree u.items k ≠ none

namespace Making

variable {u v w : Upload} {i : ℕ}

theorem refl (hb : Between u u) (h : u.Housed) : Making u u :=
  ⟨hb, h, fun _ => id, fun _ _ _ => rfl, fun _ => .inl⟩

theorem wanes (h : Making u v) (hb : Between u w) (hs : w.Housed) (hw : Wanes v w) :
    Making u w where
  between := hb
  stays := hs
  queued k hq := h.queued k ((hw k).1 hq)
  path k hk hp := (hw k).2.1.trans (h.path k hk hp)
  inPlace k hk := h.inPlace k ((hw k).2.2 hk)

theorem folderPlaced (hu : u.Housed) (h : Making u v) (hi : u.tree.IsDir i)
    (hq : (v.items i).state = .queued) (hcan : u.CanPlace i) (ho : outcome ≠ .skipped)
    (hpath : path = joinHostPath ((placeIn u.tree u.items i).getD []) (u.tree.name i)) :
    Making u (v.folderPlaced i path outcome) := by
  have hiv : v.tree.IsDir i := h.between.tree ▸ hi
  have hqu := h.queued i hq
  have hnotPlace : ∀ {x : Upload}, x.Housed → x.tree.IsDir i → (x.items i).state = .queued →
      (x.items i).inPlace = false := by
    intro x hx hxi hxq
    by_contra hin
    have := hx.placed i hxi (by simpa using hin)
    exact nomatch hxq.symm.trans this
  have hname : (v.items i).finalName = none := by
    by_contra hname
    have := h.stays.named i hiv hname
    exact nomatch (hnotPlace h.stays hiv hq).symm.trans this
  obtain ⟨dir, hdir⟩ := ne_none_iff_exists'.mp hcan.1
  have hplace : placeIn v.tree v.items i = some dir := by
    rw [h.between.tree, ← hdir]
    refine placeIn_congr fun p hp => h.path p (parent_spec hp).1 ?_
    have hknown := hcan.1
    rw [placeIn, hp] at hknown
    exact hknown
  have hpathU : (u.items i).path = none := by
    rw [hu.path i hi, Uploads.housed, if_neg (by simp [hnotPlace hu hi hqu])]
  -- What is in the folder could only be put in place after it.
  have hchildren : ∀ c, v.tree.IsDir c → v.tree.parent c = some i →
      (v.items c).inPlace = false := by
    intro c hc hparent
    rw [h.between.tree] at hc hparent
    by_contra hin
    rcases h.inPlace c (by simpa using hin) with hbefore | ⟨-, hknown⟩
    · exact nomatch (hcan.child hc hparent).symm.trans hbefore
    · rw [placeIn, hparent] at hknown
      exact hknown hpathU
  refine ⟨h.between.folderPlaced hi path outcome,
    h.stays.folderPlaced h.between.idle hiv hplace hchildren ho ?_, ?_, ?_, ?_⟩
  · rw [hpath, hdir, hname, h.between.tree]
    rfl
  · intro k hk
    rw [folderPlaced_items] at hk
    split at hk
    · cases hk
    · exact h.queued k hk
  · intro k hk hp
    rw [folderPlaced_items]
    split
    · next hki => exact absurd (hki ▸ hpathU) hp
    · exact h.path k hk hp
  · intro k hk
    rw [folderPlaced_items] at hk
    split at hk
    · next hki => exact .inr (hki ▸ ⟨hqu, hcan.1⟩)
    · exact h.inPlace k hk

theorem folderResult (hu : u.Housed) (h : Making u v) (hi : u.tree.IsDir i) {result : FolderResult}
    (hpath : path = joinHostPath ((placeIn u.tree u.items i).getD []) (u.tree.name i))
    (hcan : result = .created ∨ result = .merged → (u.items i).state = .queued → u.CanPlace i) :
    Making u (v.folderResult i path result) := by
  have hiv : v.tree.IsDir i := h.between.tree ▸ hi
  unfold Upload.folderResult
  split
  · next hq =>
    have hopen : (v.items i).state ≠ .placed := by simp [hq]
    cases result with
    | created =>
      exact h.folderPlaced hu hi hq (hcan (.inl rfl) (h.queued i hq)) (by decide) hpath
    | merged =>
      exact h.folderPlaced hu hi hq (hcan (.inr rfl) (h.queued i hq)) (by decide) hpath
    | clash existing =>
      exact h.wanes (h.between.folderClash hi hq existing)
        (h.stays.folderClash hiv hq existing) (.folderClash v i existing)
    | failed =>
      exact h.wanes (h.between.failSubtree _ hi.1) (h.stays.failSubtree _ hopen)
        (.failSubtree _ v i)
  · exact h

end Making

namespace Upload.Housed

variable {u v : Upload} {i : ℕ}

section

variable (h : u.Housed)
include h

theorem call (ht : t.Sited u.tree u.items) : (u.call t).Housed := by
  have hcalled : { u with calls := u.calls ++ [t] }.Housed := h
  exact hcalled.await ht

theorem foldersLoop : u.foldersLoop.Housed := by
  unfold Upload.foldersLoop awaitBackend backendOf
  split
  · exact h
  · have hleft : { u with folderQueue := u.folderQueue.drop folderBatch }.Housed := h
    split
    · split
      · exact (hleft.move .release).call trivial
      · exact hleft.call trivial
    · exact (hleft.move .release).call trivial

theorem createFolders : u.createFolders.Housed := by
  have hbegun : { u with creatingFolders := true, busy := u.busy + 1 }.Housed := h
  exact hbegun.foldersLoop

theorem keepBothFolder (hs : (u.items i).state ≠ .placed) (n : ℕ) (rest : List ℕ) :
    (u.keepBothFolder i n rest).Housed := by
  refine h.call ⟨?_, fun _ => hs⟩
  rw [parentPath_eq]

theorem keepBothFolders (rest : List ℕ) : (u.keepBothFolders rest).Housed := by
  induction rest with
  | nil => exact h.foldersLoop
  | cons i rest ih =>
    unfold Upload.keepBothFolders
    split
    · next hq => exact h.keepBothFolder (by simp [hq]) 1 rest
    · exact ih

theorem foldersMade (hb : Between u u) {batch plain : List ℕ}
    {paths : List HostPath} {results : List FolderResult} (hplain : ∀ i ∈ plain, u.tree.IsDir i)
    (hsited : Task.Sited u.tree u.items (.mkdirs batch plain paths))
    (hcan : ∀ made ∈ plain.zip (paths.zip results), made.2.2 = .created ∨ made.2.2 = .merged →
      (u.items made.1).state = .queued → u.CanPlace made.1) :
    (u.foldersMade batch plain paths results).Housed := by
  have hpaths : ∀ made ∈ plain.zip (paths.zip results), made.2.1 =
      joinHostPath ((placeIn u.tree u.items made.1).getD []) (u.tree.name made.1) := by
    intro made hmade
    obtain ⟨n, hn, rfl⟩ := mem_iff_getElem.mp hmade
    obtain rfl := hsited
    simp
  have hmaking : Making u ((plain.zip (paths.zip results)).foldl
      (fun u made => u.folderResult made.1 made.2.1 made.2.2) u) := by
    refine foldlRecOn (motive := Making u) _ _ (.refl hb h) fun v hv made hmade => ?_
    exact hv.folderResult h (hplain _ (of_mem_zip hmade).1) (hpaths made hmade)
      (hcan made hmade)
  exact hmaking.stays.keepBothFolders _

theorem keepBothAnswered (hn : ∀ t ∈ u.tasks, t.isFolders = false)
    {n : ℕ} {rest : List ℕ} {result : FolderResult} (hi : u.tree.IsDir i)
    (hsited : Task.Sited u.tree u.items (.keepBothFolder i n path rest))
    (hcan : result = .created → u.CanPlace i) :
    (u.keepBothAnswered i n path rest result).Housed := by
  obtain ⟨hpath, hs⟩ := hsited
  have hfailed := (h.failSubtree u.tree.size (hs hi)).keepBothFolders rest
  cases result with
  | created =>
    obtain ⟨dir, hdir⟩ := ne_none_iff_exists'.mp (hcan rfl).1
    refine keepBothFolders (h.folderPlacedAs hn hi hdir (fun c => (hcan rfl).child) (by decide) ?_) _
    rw [hpath, hdir]
    rfl
  | failed => exact hfailed
  | merged | clash =>
    simp only [Upload.keepBothAnswered]
    split
    · exact h.keepBothFolder (hs hi) _ _
    · exact hfailed

theorem foldersFailed (hf : ∀ i ∈ u.folderQueue, i < u.tree.size)
    (interruption : Bool) : (u.foldersFailed interruption).Housed := by
  obtain ⟨v, hm, heq⟩ := Moves.foldersFailed hf interruption
  have hleft : { u with folderQueue := [] }.Housed := h
  have hv : v.Housed := hleft.moves hm
  rw [heq]
  exact hv

theorem requeueAll {again : List ℕ} (ha : ∀ i ∈ again, i < u.tree.size)
    (hplaced : ∀ i ∈ again, u.tree.kind i = .dir → (u.items i).state ≠ .placed) :
    (u.requeueAll again).Housed := by
  have hloop : (again.foldl requeueOne (u, [])).1.Housed := by
    refine (foldlRecOn (motive := fun s : Upload × List ℕ => s.1.Housed ∧
      s.1.tree = u.tree ∧ ∀ j, (s.1.items j).state = .placed → (u.items j).state = .placed)
      again _ ⟨h, rfl, fun _ => id⟩ ?_).1
    rintro s ⟨hs, htree, hstates⟩ i hi
    have habove : Moves s.1 (s.1.requeueAbove s.2 (s.1.tree.foldersAbove i)).1 :=
      Moves.requeueAbove .refl fun p hp => Moves.lt_size_of_mem_foldersAbove hp
    have htree' : (s.1.requeueAbove s.2 (s.1.tree.foldersAbove i)).1.tree = u.tree :=
      habove.tree.trans htree
    refine ⟨?_, ?_, fun j hj => hstates j (requeueOne_state (by decide) hj)⟩
    · unfold requeueOne
      dsimp only
      split
      · exact hs.moves habove
      · unfold requeue
        split
        · next hfile =>
          exact (hs.moves habove).moves (Moves.place .refl ⟨htree' ▸ ha i hi, hfile.1⟩)
        · refine Housed.enqueue ((hs.moves habove).setState fun hdir => ⟨fun hp => ?_, by decide⟩) i
          exact hplaced i hi (htree' ▸ hdir.2) (hstates i (requeueAbove_state (by decide) hp))
    · exact (Turns.tree (Turns.requeueOne .refl (htree ▸ ha i hi))).trans htree
  unfold Upload.requeueAll
  dsimp only
  split
  · exact hloop.move .rebuild
  · exact hloop

end

end Upload.Housed

/-! ### Runs -/

/-- What a step queues again, having chosen it before the host was reached. -/
def Step.queuedAgain : Step → List ℕ
  | .answer (.retryConnect again) .done _ => again
  | _ => []

/-- The folders a step puts in place. -/
def Upload.putInPlace (u : Upload) : Step → List ℕ
  | .answer (.mkdirs _ plain paths) (.folders results) _ =>
    ((plain.zip (paths.zip results)).filter fun made =>
      (made.2.2 = .created ∨ made.2.2 = .merged) ∧ (u.items made.1).state = .queued).map Prod.fst
  | .answer (.keepBothFolder i _ _ _) (.folders [.created]) _ => [i]
  | _ => []

/-- A retry queues no folder again that is placed by now; a folder is put in place where that is
known, and before any folder in it. -/
def KeepsPlaces (s : Service) (step : Step) : Prop :=
  (∀ i ∈ step.queuedAgain, s.upload.tree.kind i = .dir → (s.upload.items i).state ≠ .placed) ∧
    ∀ i ∈ s.upload.putInPlace step, s.upload.CanPlace i

instance (s : Service) (step : Step) : Decidable (KeepsPlaces s step) :=
  inferInstanceAs (Decidable (_ ∧ _))

/-- What a folder's row says of its place. -/
def Row.Kept (row : Row) : Prop :=
  (row.outcome.any (· ≠ .skipped) → row.state = .placed) ∧
    (row.finalName ≠ none → row.outcome.any (· ≠ .skipped))

theorem Upload.Housed.row (h : u.Housed) (hi : u.tree.IsDir i) : (itemRecord (u.items i)).Kept :=
  ⟨h.placed i hi, h.named i hi⟩

theorem housed_bringBack {onConflict : Policy} {verify : Bool}
    {rows : ℕ → Row} (h : ∀ i, tree.IsDir i → (rows i).Kept) :
    (bringBack tree onConflict verify rows).Housed := by
  obtain ⟨_, _, _, hshape⟩ := bringBack_shape tree onConflict verify rows
  have hpaths := foldl_folderPath_housed tree
    (fun i => (rows i).item (tree.kind i)) fun _ => rfl
  have hkeeps := fun i => foldl_folderPath_keeps
    (fun item => (item.outcome, item.state, item.finalName, item.acked)) (fun _ _ => rfl) tree
    (fun i => (rows i).item (tree.kind i)) i
  simp only [Prod.mk.injEq] at hkeeps
  rw [hshape]
  refine ⟨fun i hi => ?_, fun i hi hin => ?_, fun i hi hname => ?_, fun i hi => ?_,
    forall_mem_nil _⟩
  · rw [hpaths i, if_pos ⟨mem_order.mpr hi.1, hi.2⟩]
  · rw [Item.inPlace, (hkeeps i).1] at hin
    rw [(hkeeps i).2.1]
    show revivedState (rows i).state = .placed
    rw [(h i hi).1 hin]
    rfl
  · rw [(hkeeps i).2.2.1] at hname
    rw [Item.inPlace, (hkeeps i).1]
    exact (h i hi).2 hname
  · rw [(hkeeps i).2.2.2]
    rw [hi.2]
    rfl

namespace Upload.Housed

variable {u w : Upload}

theorem drop (h : u.Housed) : u.drop.Housed := by
  refine dropItems_rec (P := Housed) h fun v i hv hi => ?_
  refine Housed.moves (hv.edit (fun _ => rfl) (fun _ => rfl) fun _ => ?_) (Moves.dropItem hi)
  cases (v.items i).state <;> simp [ItemState.unsettled]

theorem perform (h : u.Housed) (hk : u.Kinded) {op : Op} (hw : u.perform op = some w) :
    w.Housed := by
  cases Performed.of_perform hw with
  | resolve scope action => exact h.acts (Acts.resolve u scope action)
  | drop => exact h.drop
  | pump room mayWrite =>
    rcases Passes.pump_cases hk room mayWrite with hpasses | ⟨-, hpasses⟩
    · exact h.passes hpasses
    · exact h.createFolders.passes hpasses
  | forget => exact h
  | source source hm => exact (h.source _).moves hm
  | moves hm => exact h.moves hm

/-- What follows an await of `createFolders`; `u` is the upload with the task taken off. -/
theorem answerFolders (h : u.Housed) (hk : u.Kinded) {a : Answer} {random : String}
    (ht : t.Names u.tree) (hs : t.Sited u.tree u.items) (hf : t.isFolders = true)
    (hc : u.creatingFolders = true) (hn : ∀ t ∈ u.tasks, t.isFolders = false)
    (hcan : ∀ i ∈ u.putInPlace (.answer t a random), u.CanPlace i)
    (hw : u.answer random t a = some w) : w.Housed := by
  cases FoldersGo.of_answer hf hw with
  | threw k => exact h.foldersFailed (fun i hi => (hk.folderQueue i hi).1) k
  | reached hv =>
    refine (h.moves hv.moves).call ?_
    simp only [Task.Sited, parentPath_eq]
  | made =>
    refine h.foldersMade (.refl hc hn) (fun i hi => ht.1 i (ht.2.1 hi)) hs ?_
    intro made hmade hresult hqueued
    refine hcan made.1 (mem_map.mpr ⟨made, mem_filter.mpr ⟨hmade, ?_⟩, rfl⟩)
    exact decide_eq_true ⟨hresult, hqueued⟩
  | keptBoth =>
    refine h.keepBothAnswered hn ht.1 hs ?_
    rintro rfl
    exact hcan _ mem_cons_self

end Upload.Housed

/-- What holds along a run that keeps places. -/
structure Service.Keeps (s : Service) : Prop where
  kinded : s.upload.Kinded
  housed : s.upload.Housed
  rows : ∀ i, s.upload.tree.IsDir i → (s.rows i).Kept

namespace Service.Keeps

variable {s s' : Service} {step : Step}

theorem answer (h : s.Keeps) {a : Answer} {random : String} {w : Upload}
    (hok : KeepsPlaces s (.answer t a random)) (ht : t ∈ s.upload.tasks)
    (hw : { s.upload with tasks := s.upload.tasks.erase t }.answer random t a = some w) :
    w.Housed := by
  have hleft : Housed { s.upload with tasks := s.upload.tasks.erase t } :=
    { h.housed with sited := fun t' hmem => h.housed.sited t' (mem_of_mem_erase hmem) }
  have hnames := h.kinded.tasks t ht
  have hkinded := h.kinded.changes (Changes.erase s.upload t)
  cases hf : t.isFolders with
  | true =>
    obtain ⟨hc, hn⟩ := h.kinded.folders_erase ht hf
    exact hleft.answerFolders hkinded hnames (h.housed.sited t ht) hf hc hn hok.2 hw
  | false =>
    by_cases hretry : ∃ again, t = .retryConnect again ∧ a = .done
    · obtain ⟨again, rfl, rfl⟩ := hretry
      cases hw
      exact hleft.requeueAll hnames hok.1
    · by_cases hlooked : ∃ requester, t = .looked requester
      · obtain ⟨requester, rfl⟩ := hlooked
        cases a with
        | done =>
          cases hw
          rcases Moves.takenUp_cases _ requester with ⟨-, hm⟩ | ⟨-, hm⟩
          · exact hleft.moves hm
          · exact (hleft.source _).moves hm
        | _ => cases hw
      · exact hleft.acts (Acts.answer hkinded hnames (fun _ hi => h.kinded.writes_erase ht hi) hf
          (fun again heq hdone => hretry ⟨again, heq, hdone⟩)
          (fun requester heq => hlooked ⟨requester, heq⟩) hw)

theorem next (h : s.Keeps) (hok : KeepsPlaces s step) (hn : next s step = some s') :
    s'.Keeps := by
  refine ⟨kinded_next h.kinded hn, ?_, ?_⟩
  · cases Stepped.of_next hn with
    | work op u _ hu => exact h.housed.perform h.kinded hu
    | answer t a random u ht hu => exact h.answer hok ht hu
    | lost | save => exact h.housed
    | discard => exact h.housed.drop
    | restart => exact housed_bringBack h.rows
  · rw [tree_next h.kinded hn]
    cases Stepped.of_next hn with
    | save ids =>
      intro i hi
      dsimp only
      split
      · exact h.housed.row hi
      · exact h.rows i hi
    | _ => exact h.rows

end Service.Keeps

theorem Start.item_housing (start : Start) (i : ℕ) :
    ((start.item i).housing, (start.item i).acked) = ((none, none, none), 0) := by
  unfold Start.item
  split
  · rfl
  · split <;> rfl
  · rfl
  · rfl

theorem Service.Keeps.start (start : Start) : start.service.Keeps := by
  have hassembled : (assemble start.tree start.onConflict start.verify start.item
      (some start.requester) (some ⟨0, start.exec, false⟩)).Housed := by
    obtain ⟨_, _, _, hshape⟩ := assemble_shape start.tree start.onConflict start.verify
      start.item (some start.requester) (some ⟨0, start.exec, false⟩)
    have hitem := start.item_housing
    simp only [Item.housing, Prod.mk.injEq] at hitem
    rw [hshape]
    refine ⟨fun i _ => ?_, fun i _ hin => ?_, fun i _ hname => ?_, fun i _ => (hitem i).2,
      forall_mem_nil _⟩
    · simp [Uploads.housed, Item.inPlace, hitem i]
    · simp [Item.inPlace, hitem i] at hin
    · exact absurd (hitem i).1.2.2 hname
  have hupload : start.upload.Housed := hassembled.acts (Acts.applyPolicy assemble_tasks)
  have hqueued : Moves start.upload start.upload.enqueueReadyTop := Moves.enqueueReadyTop .refl
  refine ⟨start.kinded, hupload.moves hqueued, fun i hi => hupload.row ?_⟩
  exact hqueued.tree ▸ hi

/-! ### Writing an upload and bringing it back -/

/-- What a restart makes of an item: one that was moving is interrupted, and what only lives in
memory is reset.  A folder stays where it is. -/
def revived (kind : Kind) (item : Item) : Item :=
  { item with
    state := revivedState item.state
    path := match kind with
      | .dir => item.path
      | .file => none
    hash := none
    sink := none
    writing := false
    carried := item.temp.isSome ∧ 0 < item.acked }

theorem items_bringBack (h : u.Housed) {rows : ℕ → Row}
    (hrows : ∀ i < u.tree.size, rows i = itemRecord (u.items i)) (hi : i < u.tree.size) :
    (bringBack u.tree u.onConflict u.verify rows).items i =
      revived (u.tree.kind i) (u.items i) := by
  obtain ⟨_, _, _, hshape⟩ := bringBack_shape u.tree u.onConflict u.verify rows
  have hpaths := foldl_folderPath_housed u.tree
    (fun i => (rows i).item (u.tree.kind i)) fun _ => rfl
  -- All but a folder's place is as its row says.
  have hrest := fun i => foldl_folderPath_keeps (fun item => { item with path := none })
    (fun _ _ => rfl) u.tree (fun i => (rows i).item (u.tree.kind i)) i
  rw [hshape]
  generalize u.tree.order.foldl (folderPath u.tree) (fun i => (rows i).item (u.tree.kind i)) =
    items at hpaths hrest
  have hsame : ∀ j, j < u.tree.size → (items j).outcome = (u.items j).outcome ∧
      (items j).finalName = (u.items j).finalName := by
    intro j hj
    have hj' := hrest j
    rw [hrows j hj] at hj'
    have houtcome := congrArg Item.outcome hj'
    have hname := congrArg Item.finalName hj'
    exact ⟨houtcome, hname⟩
  have hplace : (items i).path = (revived (u.tree.kind i) (u.items i)).path := by
    cases hkind : u.tree.kind i with
    | file => rw [hpaths i, if_neg (by simp [hkind])]; rfl
    | dir =>
      refine path_eq_of_housed h.path (fun j hj => ?_) (fun j hj => (hsame j hj.1).1)
        (fun j hj => (hsame j hj.1).2) ⟨hi, hkind⟩
      rw [hpaths j, if_pos ⟨mem_order.mpr hj.1, hj.2⟩]
  have hrow : (itemRecord (u.items i)).item (u.tree.kind i) =
      { revived (u.tree.kind i) (u.items i) with path := none } := by
    cases hkind : u.tree.kind i with
    | file => rfl
    | dir => simp only [Row.item, itemRecord, revived, h.acked i ⟨hi, hkind⟩]
  calc items i = { ({ items i with path := none } : Item) with path := (items i).path } := rfl
    _ = { ({ (rows i).item (u.tree.kind i) with path := none } : Item) with
          path := (items i).path } := by rw [hrest i]
    _ = revived (u.tree.kind i) (u.items i) := by rw [hplace, hrows i hi, hrow]

theorem Totals.Recount.figures_eq {t t' : Totals} {S : Finset ℕ}
    (h : t.Recount items S) (h' : t'.Recount items' S)
    (hsame : ∀ i ∈ S, (items' i).size = (items i).size ∧ (items' i).acked = (items i).acked) :
    t'.files = t.files ∧ t'.bytes = t.bytes ∧ t'.acked = t.acked := by
  refine ⟨h'.files.trans h.files.symm, ?_, ?_⟩
  · rw [h'.bytes, h.bytes]
    exact Finset.sum_congr rfl fun i hi => by rw [(hsame i hi).1]
  · rw [h'.acked, h.acked]
    exact Finset.sum_congr rfl fun i hi => by rw [(hsame i hi).2]

/-- **What is brought back is what was written.**  In every run whose folders keep their places,
an upload's rows give the same tree, each item as it was, but for what was moving and what only
lives in memory, and the same totals, counted anew. -/
theorem restored_of_keepsPlaces (start : Start) {s : Service}
    (h : Run next KeepsPlaces start.service s) :
    ∃ v, restore s.upload.onConflict s.upload.verify s.upload.persisted = some v ∧
      v.tree = s.upload.tree ∧ v.onConflict = s.upload.onConflict ∧ v.verify = s.upload.verify ∧
      (∀ i < s.upload.tree.size,
        v.items i = revived (s.upload.tree.kind i) (s.upload.items i)) ∧
      v.Counted ∧
      (s.upload.dropped = false →
        (v.totals.files = s.upload.totals.files ∧ v.totals.bytes = s.upload.totals.bytes ∧
          v.totals.acked = s.upload.totals.acked) ∧
        ∀ k, (v.folderTotals k).files = (s.upload.folderTotals k).files ∧
          (v.folderTotals k).bytes = (s.upload.folderTotals k).bytes ∧
          (v.folderTotals k).acked = (s.upload.folderTotals k).acked) := by
  have hkeeps : s.Keeps :=
    h.invariant (Service.Keeps.start start) fun _ _ _ hs hok hn => hs.next hok hn
  obtain ⟨rows, hrestore, hrows⟩ := restore_persisted s.upload
  have hitems := fun i (hi : i < s.upload.tree.size) => items_bringBack hkeeps.housed hrows hi
  have hcounted : (bringBack s.upload.tree s.upload.onConflict s.upload.verify rows).Counted :=
    counted_assemble ..
  obtain ⟨folderTotals, totals, folderStates, hshape⟩ := bringBack_shape s.upload.tree
    s.upload.onConflict s.upload.verify rows
  rw [hshape] at hitems hcounted
  refine ⟨_, hrestore.trans (congrArg some hshape), rfl, rfl, rfl, hitems, hcounted, fun hd => ?_⟩
  have hbefore : s.upload.Counted := counted_of_run start h hd
  refine ⟨hbefore.totals.figures_eq hcounted.totals fun i hi => ?_, fun k =>
    (hbefore.folderTotals k).figures_eq (hcounted.folderTotals k) fun i hi => ?_⟩
  · have hi' := (mem_files.mp hi).1
    rw [hitems i hi']
    exact ⟨rfl, rfl⟩
  · have hi' := (mem_filesUnder.mp hi).1.1
    rw [hitems i hi']
    exact ⟨rfl, rfl⟩

/-- A folder with a folder in it. -/
def UploadTree.nested : UploadTree where
  items := [⟨["a"], .dir, none⟩, ⟨["a", "b"], .dir, some 0⟩]
  parent_dir i item hitem p hp := by
    match i with
    | 0 =>
      obtain ⟨rfl⟩ := hitem
      exact nomatch hp
    | 1 =>
      obtain ⟨rfl⟩ := hitem
      obtain ⟨rfl⟩ := hp
      exact ⟨_, rfl, rfl, by decide⟩

/-- It is sent to where a file has its name, both to be kept. -/
def Start.nested : Start :=
  { Start.ofItem .dir 0 .keepBoth none with
    tree := .nested, found := fun i => if i = 0 then some ⟨false⟩ else none }

/-- The folder is tried under that name. -/
def keepNested (n : ℕ) (result : FolderResult) : Step :=
  .answer (.keepBothFolder 0 n [keepBothName "a" n .dir] []) (.folders [result]) ""

/-- The folder fails, the connection goes, and two windows say to try again; once the host is
reached for the first of them, both folders are created. -/
def retriedTwice : List Step :=
  [.work (.pump 1 true), .answer (.foldersBackend [0] [] (some ⟨0, false, false⟩)) .done "",
    .answer (.mkdirs [0] [] []) (.folders []) "", keepNested 1 .failed, .lost,
    .work (.retry none false), .work (.retry none false),
    .answer (.retryConnect [0, 1]) .done "", .work (.pump 1 true),
    .answer (.foldersBackend [0] [] none) (.backend false) "",
    .answer (.mkdirs [0] [] []) (.folders []) "", keepNested 1 .created,
    .answer (.foldersBackend [1, 1] [1, 1] (some ⟨1, false, false⟩)) .done "",
    .answer (.mkdirs [1, 1] [1, 1] [["a (1)", "b"], ["a (1)", "b"]])
      (.folders [.created, .merged]) ""]

/-- Where a folder is, in memory and as its row brings it back. -/
def Upload.paths (u : Upload) (i : ℕ) : Option HostPath × Option HostPath :=
  ((u.items i).path,
    (restore u.onConflict u.verify u.persisted).bind fun v => (v.items i).path)

theorem restored_nested : ∃ s : Service, Run next KeepsPlaces Start.nested.service s ∧
    (s.upload.items 1).path = some ["a (1)", "b"] ∧
    ∃ v, restore s.upload.onConflict s.upload.verify s.upload.persisted = some v ∧
      (v.items 1).path = some ["a (1)", "b"] := by
  have hsome : (exec next Start.nested.service retriedTwice).isSome := by decide +kernel
  obtain ⟨s, hs⟩ := isSome_iff_exists.mp hsome
  have hrun : Run next KeepsPlaces Start.nested.service s := .of_exec _ (by decide +kernel) hs
  have hfacts : (exec next Start.nested.service retriedTwice).map
      (fun s => ((s.upload.items 1).path, s.upload.tree.size, s.upload.tree.kind 1)) =
      some (some ["a (1)", "b"], 2, .dir) := by decide +kernel
  rw [hs] at hfacts
  obtain ⟨hpath, hsize, hkind⟩ : _ ∧ _ ∧ _ := by simpa using hfacts
  obtain ⟨v, hv, -, -, -, hitems, -⟩ := restored_of_keepsPlaces _ hrun
  refine ⟨s, hrun, hpath, v, hv, ?_⟩
  rw [hitems 1 (by rw [hsize]; decide), hkind]
  exact hpath

/-- Once the host is reached for the second of them, the folder, placed by now, is created once
more, under another name.  What is in it is where it was, and its row brings it back elsewhere. -/
theorem folder_moved_by_restore : ¬∀ s : Service, Run next free Start.nested.service s →
    ∃ v, restore s.upload.onConflict s.upload.verify s.upload.persisted = some v ∧
      ∀ i < s.upload.tree.size, v.items i = revived (s.upload.tree.kind i) (s.upload.items i) := by
  intro hall
  have hrun : Run next free Start.nested.service _ := .get_free (retriedTwice ++
    [.answer (.retryConnect [0, 1]) .done "", .work (.pump 1 true),
      .answer (.foldersBackend [0] [] (some ⟨1, false, false⟩)) .done "",
      .answer (.mkdirs [0] [] []) (.folders []) "", keepNested 1 .merged, keepNested 2 .created])
    (by decide +kernel)
  obtain ⟨v, hv, hitems⟩ := hall _ hrun
  have hpath : (some v).map (fun v => (v.items 1).path) = some (some ["a (2)", "b"]) := by
    rw [← hv]
    decide +kernel
  rw [map_some, hitems 1 (by decide +kernel)] at hpath
  exact absurd hpath (by decide +kernel)

end Lasterm.Transfer.Uploads
