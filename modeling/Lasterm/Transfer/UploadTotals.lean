import Lasterm.Transfer.UploadWork

/-!
# An upload's totals

The transfer service keeps an upload's totals, those of each of its folders, and how many
folders are in each state, edit by edit: `setState`, `addAcked` and `changedFile` go up the
chain of folders an item is in.  They are at every time what a recount over the items gives.

## Main definitions

* `Upload.Counted`, `Upload.Bounded` — the recount, and the bounds of what is acknowledged.
* `GivesRoom` — no resume gives a file a size below a chunk that is still being written.

## Main results

* `counted_and_bounded_of_givesRoom` — both, in every such run; `acked_past_size` — another.
-/

namespace Lasterm.Transfer.Uploads

open Tally Transition Relation List Function

namespace UploadTree

variable {t : UploadTree} {i k : ℕ}

/-- The files of an upload. -/
def files (t : UploadTree) : Finset ℕ := {i ∈ Finset.range t.size | t.kind i = .file}

/-- Its folders. -/
def folders (t : UploadTree) : Finset ℕ := {i ∈ Finset.range t.size | t.kind i = .dir}

open Classical in
/-- The files in a folder's subtree. -/
noncomputable def filesUnder (t : UploadTree) (k : ℕ) : Finset ℕ := {i ∈ t.files | t.Under k i}

theorem mem_files : i ∈ t.files ↔ t.IsFile i := by
  simp [files, IsFile]

theorem mem_folders : i ∈ t.folders ↔ t.IsDir i := by
  simp [folders, IsDir]

theorem mem_filesUnder : i ∈ t.filesUnder k ↔ t.IsFile i ∧ k ∈ t.foldersAbove i := by
  classical
  rw [filesUnder, Finset.mem_filter, mem_files, mem_foldersAbove_iff]

end UploadTree

/-! ### Recounts -/

/-- The totals are those of a set of files. -/
structure Totals.Recount (t : Totals) (items : ℕ → Item) (S : Finset ℕ) : Prop where
  files : t.files = S.card
  bytes : t.bytes = ∑ i ∈ S, ((items i).size : ℤ)
  acked : t.acked = ∑ i ∈ S, (items i).acked
  states : Tallies t.states S fun i => (items i).state

/-- What is counted of an item. -/
def Item.figures (item : Item) : ℕ × ℤ × ItemState := (item.size, item.acked, item.state)

namespace Totals.Recount

variable {t : Totals} {items items' : ℕ → Item} {S : Finset ℕ} {i : ℕ}

theorem congr (h : t.Recount items S) (hsame : ∀ i ∈ S, (items' i).figures = (items i).figures) :
    t.Recount items' S := by
  simp only [Item.figures, Prod.mk.injEq] at hsame
  exact
    { files := h.files
      bytes := by
        rw [h.bytes]
        exact Finset.sum_congr rfl fun i hi => by rw [(hsame i hi).1]
      acked := by
        rw [h.acked]
        exact Finset.sum_congr rfl fun i hi => (hsame i hi).2.1.symm
      states := h.states.congr fun i hi => (hsame i hi).2.2 }

theorem update_of_notMem (h : t.Recount items S) (hi : i ∉ S) (item : Item) :
    t.Recount (update items i item) S := by
  refine h.congr fun j hj => ?_
  have hne : j ≠ i := fun hji => hi (hji ▸ hj)
  rw [update_of_ne hne]

theorem update_keeps {α : Type*} (field : Item → α) {item : Item} (h : field item = field (items i))
    (j : ℕ) : field (update items i item j) = field (items j) := by
  by_cases hj : j = i
  · subst hj
    rw [update_self, h]
  · rw [update_of_ne hj]

theorem moveState (h : t.Recount items S) (hi : i ∈ S) (state : ItemState) :
    { t with states := t.states.moveOne (items i).state state }.Recount
      (update items i { items i with state }) S where
  files := h.files
  bytes := by
    rw [h.bytes]
    exact Finset.sum_congr rfl fun j _ =>
      congrArg Nat.cast (update_keeps Item.size (by rfl) j).symm
  acked := by
    rw [h.acked]
    exact Finset.sum_congr rfl fun j _ => (update_keeps Item.acked (by rfl) j).symm
  states := by
    refine (h.states.moveOne hi state).congr fun j _ => ?_
    by_cases hj : j = i
    · subst hj
      rw [update_self, update_self]
    · rw [update_of_ne hj, update_of_ne hj]

theorem addAcked (h : t.Recount items S) (hi : i ∈ S) (delta : ℤ) :
    { t with acked := t.acked + delta }.Recount
      (update items i { items i with acked := (items i).acked + delta }) S where
  files := h.files
  bytes := by
    rw [h.bytes]
    exact Finset.sum_congr rfl fun j _ =>
      congrArg Nat.cast (update_keeps Item.size (by rfl) j).symm
  acked := by
    show t.acked + delta = _
    rw [h.acked]
    refine (sum_update hi (fun j _ hj => ?_) ?_).symm
    · rw [update_of_ne hj]
    · rw [update_self]
  states := h.states.congr fun j _ => update_keeps Item.state (by rfl) j

theorem resize (h : t.Recount items S) (hi : i ∈ S) (size : ℕ) (mtime : Option ℕ) :
    { t with bytes := t.bytes + ((size : ℤ) - (items i).size) }.Recount
      (update items i { items i with size, mtime, verification := none }) S where
  files := h.files
  bytes := by
    show t.bytes + _ = _
    rw [h.bytes]
    refine (sum_update hi (fun j _ hj => ?_) ?_).symm
    · rw [update_of_ne hj]
    · rw [update_self]
      show (size : ℤ) = (items i).size + ((size : ℤ) - (items i).size)
      omega
  acked := by
    rw [h.acked]
    exact Finset.sum_congr rfl fun j _ => (update_keeps Item.acked (by rfl) j).symm
  states := h.states.congr fun j _ => update_keeps Item.state (by rfl) j

theorem count (h : t.Recount items S) (hi : i ∉ S) :
    Totals.Recount
      { files := t.files + 1
        bytes := t.bytes + (items i).size
        acked := t.acked + (items i).acked
        states := t.states.countOne (items i).state } items (insert i S) where
  files := by rw [Finset.card_insert_of_notMem hi, h.files]
  bytes := by rw [Finset.sum_insert hi, h.bytes, Int.add_comm]
  acked := by
    show t.acked + _ = _
    rw [Finset.sum_insert hi, h.acked, Int.add_comm]
  states := h.states.countOne hi

theorem empty (items : ℕ → Item) : emptyTotals.Recount items ∅ where
  files := rfl
  bytes := rfl
  acked := rfl
  states := Tallies.empty _

end Totals.Recount

/-! ### Chunks -/

/-- How many bytes of the file a task is writing. -/
def Task.chunkOf (i : ℕ) : Task → ℕ
  | .write j _ _ data => if j = i then data.length else 0
  | _ => 0

variable {t : Task}

theorem Task.chunkOf_eq_zero {i : ℕ} (h : t.writesTo i = false) : t.chunkOf i = 0 := by
  cases t with
  | write j _ _ data =>
    have hj : j ≠ i := by simpa [Task.writesTo] using h
    exact if_neg hj
  | _ => rfl

/-- The file's acknowledged bytes are between none and its size, with the chunk under way
too. -/
structure Item.HasRoom (item : Item) (i : ℕ) (tasks : List Task) : Prop where
  nonneg : 0 ≤ item.acked
  le_size : item.acked ≤ item.size
  chunk : ∀ t ∈ tasks, item.acked + t.chunkOf i ≤ item.size

/-! ### The totals are kept -/

/-- What an upload's totals are to be. -/
structure CountsOf (tree : UploadTree) (items : ℕ → Item) (folderTotals : ℕ → Totals)
    (totals : Totals) (folderStates : OrderedMap ItemState ℕ) : Prop where
  totals : totals.Recount items tree.files
  folderTotals : ∀ k, (folderTotals k).Recount items (tree.filesUnder k)
  folderStates : Tallies folderStates tree.folders fun i => (items i).state

variable {random : String} {a : Answer}

namespace Upload

variable {u u' : Upload} {i : ℕ}

/-- The upload's totals are those of its files, a folder's those of the files in its subtree,
and its folders are counted by state. -/
def Counted (u : Upload) : Prop :=
  CountsOf u.tree u.items u.folderTotals u.totals u.folderStates

variable {f : Item → Item}

namespace Counted

section

variable (h : u.Counted)
include h

theorem edit (hf : (f (u.items i)).figures = (u.items i).figures) : (u.edit i f).Counted := by
  have hsame : ∀ j, ((u.edit i f).items j).figures = (u.items j).figures :=
    Totals.Recount.update_keeps Item.figures hf
  exact
    { totals := h.totals.congr fun j _ => hsame j
      folderTotals := fun k => (h.folderTotals k).congr fun j _ => hsame j
      folderStates := h.folderStates.congr fun j _ => by
        have := hsame j
        simp only [Item.figures, Prod.mk.injEq] at this
        exact this.2.2 }

theorem editTotals (hi : u.tree.IsFile i) {count : Totals → Totals}
    (hcount : ∀ (t : Totals) S, i ∈ S → t.Recount u.items S →
      (count t).Recount (update u.items i (f (u.items i))) S) :
    ((u.edit i f).editTotals i count).Counted where
  totals := hcount _ _ (UploadTree.mem_files.mpr hi) h.totals
  folderTotals k := by
    show (if k ∈ u.tree.foldersAbove i then count (u.folderTotals k)
      else u.folderTotals k).Recount _ _
    split
    · next hk => exact hcount _ _ (UploadTree.mem_filesUnder.mpr ⟨hi, hk⟩) (h.folderTotals k)
    · next hk =>
      refine (h.folderTotals k).update_of_notMem ?_ _
      exact fun hmem => hk (UploadTree.mem_filesUnder.mp hmem).2
  folderStates := by
    refine h.folderStates.congr fun j hj => ?_
    have hne : j ≠ i := fun hji => hi.not_isDir (hji ▸ UploadTree.mem_folders.mp hj)
    show (update u.items i _ j).state = _
    rw [update_of_ne hne]

theorem setState (hi : i < u.tree.size) (state : ItemState) : (u.setState i state).Counted := by
  unfold Upload.setState
  dsimp only
  split
  · next hsame =>
    refine h.edit ?_
    simp [Item.figures, hsame]
  · split
    · next hkind =>
      -- A folder counts in no totals, only among the folders.
      have hdir : u.tree.IsDir i := ⟨hi, hkind⟩
      have hnot : ∀ {S : Finset ℕ}, (∀ j ∈ S, u.tree.IsFile j) → i ∉ S :=
        fun hS hmem => (hS i hmem).not_isDir hdir
      exact
        { totals := h.totals.update_of_notMem (hnot fun j => UploadTree.mem_files.mp) _
          folderTotals := fun k => (h.folderTotals k).update_of_notMem
            (hnot fun j hj => (UploadTree.mem_filesUnder.mp hj).1) _
          folderStates := by
            refine (h.folderStates.moveOne (UploadTree.mem_folders.mpr hdir) state).congr
              fun j _ => ?_
            by_cases hj : j = i
            · subst hj
              rw [update_self]
              show (update u.items j _ j).state = _
              rw [update_self]
            · rw [update_of_ne hj]
              show (update u.items i _ j).state = _
              rw [update_of_ne hj] }
    · next hkind => exact h.editTotals ⟨hi, hkind⟩ fun t S hS ht => ht.moveState hS state

theorem addAcked (hi : u.tree.IsFile i) (delta : ℤ) : (u.addAcked i delta).Counted := by
  unfold Upload.addAcked
  split
  · exact h
  · exact h.editTotals hi fun t S hS ht => ht.addAcked hS delta

theorem resize (hi : u.tree.IsFile i) (size : ℕ) (mtime : Option ℕ) :
    (u.resize i size mtime).Counted := by
  unfold Upload.resize
  dsimp only
  split
  · next hsame =>
    refine h.edit ?_
    have : size = (u.items i).size := by omega
    simp [Item.figures, this]
  · exact h.editTotals hi fun t S hS ht => ht.resize hS size mtime

theorem enqueue (i : ℕ) : (u.enqueue i).Counted := by
  obtain ⟨_, _, _, hs⟩ := enqueue_shape u i
  rw [hs]
  exact h

theorem enqueueQueued (ids : List ℕ) : (u.enqueueQueued ids).Counted := by
  obtain ⟨_, _, _, hs⟩ := enqueueQueued_shape u ids
  rw [hs]
  exact h

theorem enqueueReady (folder : ℕ) : (u.enqueueReady folder).Counted := by
  have hcleared : { u with waiting := update u.waiting folder [] }.Counted := h
  exact hcleared.enqueueQueued _

theorem rebuildQueues : u.rebuildQueues.Counted := by
  have hcleared :
      { u with stale := false, queue := [], folderQueue := [], waiting := fun _ => [] }.Counted := h
  exact hcleared.enqueueQueued _

theorem move (hm : Move u u') : u'.Counted := by
  cases hm with
  | note i f hf =>
    refine h.edit ?_
    simp only [Item.figures, hf.size, hf.acked, hf.state]
  | keepBoth | noteSkipped | endWrite => exact h.edit rfl
  | stop i state hi => exact h.setState hi state
  | restart i hi => exact h.addAcked hi _
  | enqueue i => exact h.enqueue i
  | queueAgain i hi => exact (h.setState hi .queued).enqueue i
  | rebuild => exact h.rebuildQueues
  | _ => exact h

theorem act (ha : Act u u') : u'.Counted := by
  cases ha with
  | move hm => exact h.move hm
  | placeOver => exact h
  | startWrite i =>
    have hwriting : (u.edit i fun item => { item with writing := true }).Counted := h.edit rfl
    exact hwriting
  | acknowledge i n hi => exact h.addAcked hi n
  | resize i size mtime hi => exact h.resize hi size mtime
  | resolve => exact h.edit rfl
  | noteAnswer i action =>
    have hnoted : { u with
        answers := u.answers ++ [(i, action, (u.items i).typeClash)] }.Counted := h
    exact hnoted.edit (i := i) rfl

theorem turn (ht : Turn u u') : u'.Counted := by
  cases ht with
  | move hm => exact h.move hm
  | placeFolder i path outcome hi =>
    have hnoted : (u.edit i fun item =>
        { item with path := some path, outcome := some outcome }).Counted := h.edit rfl
    exact (hnoted.setState hi.1 .placed).enqueueReady i
  | nameFolder => exact h.edit rfl
  | failEnded i hi => exact h.setState hi .failed
  | queueEnded i hi => exact (h.setState hi .queued).enqueue i
  | _ => exact h

theorem changes (hc : Changes u u') : u'.Counted := by
  induction hc with
  | refl => exact h
  | tail _ hchange ih =>
    cases hchange with
    | act ha => exact ih.act ha
    | turn ht => exact ih.turn ht
    | pass hp =>
      cases hp with
      | move hm => exact ih.move hm
      | takes => exact ih
      | admits i hi => exact ih.setState hi.1 .sending
    | shed | source | forget => exact ih

end

end Counted

/-! ### An upload is assembled counted -/

/-- The totals so far: of those of the files in `S`. -/
structure CountedSoFar (u : Upload) (S : Finset ℕ) : Prop where
  totals : u.totals.Recount u.items S
  folderTotals : ∀ k, (u.folderTotals k).Recount u.items {i ∈ S | k ∈ u.tree.foldersAbove i}

theorem CountedSoFar.countFile {S : Finset ℕ} (h : u.CountedSoFar S) (hi : i ∉ S) :
    (u.countFile i).CountedSoFar (insert i S) where
  totals := h.totals.count hi
  folderTotals k := by
    show (if k ∈ u.tree.foldersAbove i then _ else u.folderTotals k).Recount u.items
      {j ∈ insert i S | k ∈ u.tree.foldersAbove j}
    rw [Finset.filter_insert]
    split
    · refine (h.folderTotals k).count ?_
      exact fun hmem => hi (Finset.mem_filter.mp hmem).1
    · exact h.folderTotals k

theorem CountedSoFar.countFiles {S : Finset ℕ} (h : u.CountedSoFar S) {l : List ℕ}
    (hl : l.Nodup) (hS : ∀ i ∈ l, i ∉ S) : (l.foldl Upload.countFile u).CountedSoFar (S ∪ l.toFinset) := by
  induction l generalizing u S with
  | nil => simpa using h
  | cons i l ih =>
    obtain ⟨hi, hnodup⟩ := nodup_cons.mp hl
    have hrest := ih (h.countFile (hS i mem_cons_self)) hnodup fun j hj hmem => by
      rcases Finset.mem_insert.mp hmem with rfl | hmem
      · exact hi hj
      · exact hS j (mem_cons_of_mem i hj) hmem
    rw [toFinset_cons, Finset.union_insert, ← Finset.insert_union]
    exact hrest

theorem toFinset_filter_range (n : ℕ) (p : ℕ → Prop) [DecidablePred p] :
    ((range n).filter p).toFinset = {i ∈ Finset.range n | p i} := by
  ext i
  simp

theorem counted_count (h : u.CountedSoFar ∅) (hstates : u.folderStates = .empty) :
    (((range u.tree.size).filter fun i => u.tree.kind i = .file).foldl Upload.countFile
      (((range u.tree.size).filter fun i => u.tree.kind i = .dir).foldl countFolder u)).Counted := by
  have hnodup : ∀ kind, ((range u.tree.size).filter fun i => u.tree.kind i = kind).Nodup :=
    fun kind => nodup_range.filter _
  have hfolders := (Tallies.empty fun i => (u.items i).state).countAll (hnodup .dir) (by simp)
  rw [Finset.empty_union, toFinset_filter_range, ← hstates] at hfolders
  rw [foldl_countFolder]
  have hfiles := CountedSoFar.countFiles (u := { u with
    folderStates := ((range u.tree.size).filter fun i => u.tree.kind i = .dir).foldl
      (fun m i => m.countOne (u.items i).state) u.folderStates }) ⟨h.totals, h.folderTotals⟩
    (hnodup .file) (by simp)
  rw [Finset.empty_union, toFinset_filter_range] at hfiles
  obtain ⟨totals, folderTotals, hshape⟩ := foldl_countFile_shape
    ((range u.tree.size).filter fun i => u.tree.kind i = .file) { u with
      folderStates := ((range u.tree.size).filter fun i => u.tree.kind i = .dir).foldl
        (fun m i => m.countOne (u.items i).state) u.folderStates }
  rw [hshape] at hfiles ⊢
  refine ⟨hfiles.totals, fun k => ?_, hfolders⟩
  have hunder : {i ∈ {i ∈ Finset.range u.tree.size | u.tree.kind i = .file} |
      k ∈ u.tree.foldersAbove i} = u.tree.filesUnder k := by
    ext i
    rw [UploadTree.mem_filesUnder, Finset.mem_filter]
    exact and_congr_left' UploadTree.mem_files
  exact hunder ▸ hfiles.folderTotals k

/-- `assemble` counts what each item is at. -/
theorem counted_assemble (tree : UploadTree) (onConflict : Policy) (verify : Bool)
    (items : ℕ → Item) (source : Option String) (backend : Option Backend) :
    (assemble tree onConflict verify items source backend).Counted := by
  refine counted_count (u := Upload.mk tree onConflict verify items _ _ _ source backend ..) ?_ rfl
  exact ⟨.empty items, fun k => .empty items⟩

/-! ### Acknowledged bytes -/

/-- Every file's acknowledged bytes are between none and its size, and stay so when the chunk
under way is acknowledged. -/
def Bounded (u : Upload) : Prop := ∀ i, (u.items i).HasRoom i u.tasks

namespace Bounded

section

variable (h : u.Bounded)
include h

theorem congr (hsize : ∀ j, (u'.items j).size = (u.items j).size)
    (hacked : ∀ j, (u'.items j).acked = (u.items j).acked)
    (htasks : ∀ t ∈ u'.tasks, t ∈ u.tasks ∨ ∀ j, t.writesTo j = false) : u'.Bounded := by
  intro j
  obtain ⟨hnonneg, hle, hchunk⟩ := h j
  rw [← hacked, ← hsize] at hle
  refine ⟨by rwa [hacked], hle, fun t ht => ?_⟩
  rcases htasks t ht with hmem | hnone
  · rw [hacked, hsize]
    exact hchunk t hmem
  · rw [Task.chunkOf_eq_zero (hnone j)]
    simpa using hle

theorem changeOne (htasks : u'.tasks = u.tasks)
    (hother : ∀ j, j ≠ i → u'.items j = u.items j) (hi : (u'.items i).HasRoom i u.tasks) :
    u'.Bounded := by
  intro j
  rw [htasks]
  by_cases hj : j = i
  · exact hj ▸ hi
  · exact hother j hj ▸ h j

theorem edit (hsize : (f (u.items i)).size = (u.items i).size)
    (hacked : (f (u.items i)).acked = (u.items i).acked) : (u.edit i f).Bounded :=
  h.congr (Totals.Recount.update_keeps Item.size hsize)
    (Totals.Recount.update_keeps Item.acked hacked) fun _ ht => .inl ht

theorem setState (i : ℕ) (state : ItemState) : (u.setState i state).Bounded := by
  obtain ⟨_, _, _, hs⟩ := setState_shape u i state
  rw [hs]
  exact h.edit (i := i) (f := fun item => { item with state }) rfl rfl

theorem enqueue (i : ℕ) : (u.enqueue i).Bounded := by
  obtain ⟨_, _, _, hs⟩ := enqueue_shape u i
  rw [hs]
  exact h

theorem enqueueQueued (ids : List ℕ) : (u.enqueueQueued ids).Bounded := by
  obtain ⟨_, _, _, hs⟩ := enqueueQueued_shape u ids
  rw [hs]
  exact h

theorem enqueueReady (folder : ℕ) : (u.enqueueReady folder).Bounded :=
  enqueueQueued (u := { u with waiting := update u.waiting folder [] }) h _

theorem restart (i : ℕ) : (u.addAcked i (-(u.items i).acked)).Bounded := by
  obtain ⟨hnonneg, hle, hchunk⟩ := h i
  refine h.changeOne (i := i) (addAcked_tasks _) (fun j hj => by rw [addAcked_items, if_neg hj]) ?_
  rw [addAcked_items, if_pos rfl, Int.add_right_neg]
  refine ⟨le_rfl, Int.natCast_nonneg _, fun t ht => ?_⟩
  have := hchunk t ht
  show (0 : ℤ) + t.chunkOf i ≤ (u.items i).size
  omega

theorem await (hw : ∀ i, t.writesTo i = false) : (u.await t).Bounded := by
  refine h.congr (fun _ => rfl) (fun _ => rfl) fun t' ht' => ?_
  rcases mem_append.mp ht' with hmem | hmem
  · exact .inl hmem
  · exact .inr (mem_singleton.mp hmem ▸ hw)

theorem move (hm : Move u u') : u'.Bounded := by
  cases hm with
  | await t ht hw => exact h.await hw
  | note i f hf => exact h.edit (hf.size _) (hf.acked _)
  | keepBoth | noteSkipped | endWrite => exact h.edit rfl rfl
  | stop i state => exact h.setState i state
  | restart i => exact h.restart i
  | enqueue i => exact h.enqueue i
  | queueAgain i => exact (h.setState i .queued).enqueue i
  | rebuild => exact enqueueQueued (u := { u with
      stale := false, queue := [], folderQueue := [], waiting := fun _ => [] }) h _
  | _ => exact h

theorem moves (hm : Moves u u') : u'.Bounded := by
  induction hm with
  | refl => exact h
  | tail _ hmove ih => exact ih.move hmove

theorem turns (ht : Turns u u') : u'.Bounded := by
  induction ht with
  | refl => exact h
  | @tail v _ _ hturn ih =>
    cases hturn with
    | move hm => exact ih.move hm
    | folders | pushFolder => exact ih
    | takeBatch held =>
      have hleft : { v with folderQueue := v.folderQueue.drop folderBatch }.Bounded := ih
      exact hleft.await fun _ => rfl
    | callFolders t _ hf =>
      have hrecorded : { v with calls := v.calls ++ [t] }.Bounded := ih
      refine hrecorded.await fun i => ?_
      cases t with
      | write => cases hf
      | _ => rfl
    | placeFolder i path outcome =>
      have hnoted : (v.edit i fun item =>
          { item with path := some path, outcome := some outcome }).Bounded := ih.edit rfl rfl
      exact (hnoted.setState i .placed).enqueueReady i
    | nameFolder => exact ih.edit rfl rfl
    | failEnded i => exact ih.setState i .failed
    | queueEnded i => exact (ih.setState i .queued).enqueue i

theorem erase (t : Task) : { u with tasks := u.tasks.erase t }.Bounded :=
  h.congr (fun _ => rfl) (fun _ => rfl) fun _ ht => .inl (mem_of_mem_erase ht)

theorem receiving (i offset : ℕ) (data : List UInt8) : (u.receiving i offset data).Bounded := by
  unfold Upload.receiving
  dsimp only
  split
  · exact h
  · next s _ =>
    split
    · next hok =>
      have hwriting : (u.edit i fun item => { item with writing := true }).Bounded :=
        h.edit rfl rfl
      have hroom : (u.items i).acked + data.length ≤ (u.items i).size := by
        have := hok.2.2.2.2
        omega
      intro j
      obtain ⟨hnonneg, hle, hchunk⟩ := hwriting j
      refine ⟨hnonneg, hle, fun t ht => ?_⟩
      rcases mem_append.mp ht with hmem | hmem
      · exact hchunk t hmem
      · obtain rfl := mem_singleton.mp hmem
        by_cases hj : i = j
        · subst hj
          simpa [Task.chunkOf, call, Upload.await, Upload.edit] using hroom
        · rw [Task.chunkOf, if_neg hj]
          exact (Int.add_zero _).trans_le hle
    · exact h

theorem written (hi : u.tree.IsFile i) (s : ℕ) (data : List UInt8)
    (hw : ∀ t ∈ u.tasks, t.writesTo i = false)
    (hroom : (u.items i).acked + data.length ≤ (u.items i).size) : (u.written i s data).Bounded := by
  unfold Upload.written
  dsimp only
  split
  · have hacked : (((u.edit i fun item => { item with writing := false }).edit i fun item =>
        { item with hash := item.hash.map (· ++ data) }).addAcked i data.length).Bounded := by
      refine (h.moves (.hashed data hw)).changeOne (i := i) (addAcked_tasks _)
        (fun j hj => by rw [addAcked_items, if_neg hj]) ?_
      have hnonneg := (h i).nonneg
      rw [addAcked_items, if_pos rfl]
      simp only [edit_items, if_true]
      refine ⟨Int.add_nonneg hnonneg (Int.natCast_nonneg _), hroom, fun t ht => ?_⟩
      rw [Task.chunkOf_eq_zero (hw t ht)]
      exact (Int.add_zero _).trans_le hroom
    split
    · refine hacked.moves (Moves.finishFile .refl ?_)
      rw [addAcked_tree]
      exact hi
    · exact hacked
  · exact h.moves (Moves.afterStop (.single (.endWrite i hw)) hi _)

theorem resize (size : ℕ) (mtime : Option ℕ) (hzero : (u.items i).acked = 0)
    (hroom : ∀ t ∈ u.tasks, t.chunkOf i ≤ size) : (u.resize i size mtime).Bounded := by
  refine h.changeOne (i := i) (resize_tasks _ _) (fun j hj => by rw [resize_items, if_neg hj]) ?_
  rw [resize_items, if_pos rfl]
  refine ⟨(h i).nonneg, ?_, fun t ht => ?_⟩
  · show (u.items i).acked ≤ size
    omega
  · have := hroom t ht
    show (u.items i).acked + t.chunkOf i ≤ size
    omega

end

end Bounded

/-! ### What a resume found changed -/

/-- A size a resume gives a file leaves room for the chunk of it under way. -/
def RoomFor (u : Upload) : ResumeFile → Prop
  | .skip _ => True
  | .restart i size _ =>
    u.tree.kind i = .file ∧ (u.items i).resumable → ∀ t ∈ u.tasks, t.chunkOf i ≤ size

instance (u : Upload) (file : ResumeFile) : Decidable (u.RoomFor file) :=
  match file with
  | .skip _ => .isTrue trivial
  | .restart i size _ => inferInstanceAs
    (Decidable (u.tree.kind i = .file ∧ (u.items i).resumable → ∀ t ∈ u.tasks, t.chunkOf i ≤ size))

variable {j : ℕ}

theorem skip_items_of_ne {fuel : ℕ} (hkind : u.tree.kind i = .file) (hj : j ≠ i) :
    (skip fuel u i).items j = u.items j := by
  cases fuel with
  | zero => rfl
  | succ fuel =>
    have hstate : (((u.edit i fun item => { item with outcome := some .skipped }).setState i
        .skipped).restartFile i).items j = u.items j := by
      rw [restartFile_items, if_neg hj, setState_items, if_neg hj, edit_items, if_neg hj]
    unfold skip
    dsimp only
    rw [setState_tree]
    split
    · split
      · exact hstate
      · split <;> exact hstate
    · next hdir => cases hkind.symm.trans hdir

variable {file : ResumeFile}

theorem changedFile_items_of_ne (hj : ∀ size mtime, file ≠ .skip j ∧ file ≠ .restart j size mtime) :
    (u.changedFile file).items j = u.items j := by
  unfold changedFile
  split
  · next i =>
    split
    · next hfile => exact skip_items_of_ne hfile.2.1 fun hji => (hj 0 none).1 (hji ▸ rfl)
    · rfl
  · next i size mtime =>
    split
    · have hne : j ≠ i := fun hji => (hj size mtime).2 (hji ▸ rfl)
      have hrestarted : (u.restartFile i).items j = u.items j := by
        rw [restartFile_items, if_neg hne]
      rw [resize_items, if_neg hne]
      split <;> exact hrestarted
    · rfl

theorem resumable_of_changedFile
    (h : ((u.changedFile file).items j).resumable) : (u.items j).resumable := by
  by_cases hj : ∀ size mtime, file ≠ .skip j ∧ file ≠ .restart j size mtime
  · rwa [changedFile_items_of_ne hj] at h
  · by_contra hnot
    have hsame : u.changedFile file = u := by
      unfold changedFile
      split
      · next i =>
        refine if_neg fun hfile => hj fun size mtime => ⟨?_, by simp⟩
        rintro ⟨rfl⟩
        exact hnot hfile.2.2
      · next i size mtime =>
        refine if_neg fun hfile => hj fun size mtime => ⟨by simp, ?_⟩
        rintro ⟨rfl, -, -⟩
        exact hnot hfile.2.2
    exact hnot (hsame ▸ h)

theorem chunkOf_changedFile (ht : t ∈ (u.changedFile file).tasks)
    (hi : 0 < t.chunkOf i) : t ∈ u.tasks := by
  have hwrites : t.writesTo i := by
    by_contra hnot
    rw [Task.chunkOf_eq_zero (by simpa using hnot)] at hi
    exact Nat.lt_irrefl 0 hi
  rcases Acts.changedFile_cases u file with hm | ⟨_, _, _, v, -, -, -, hv, -, heq⟩
  · exact hm.mem_tasks ht ⟨i, hwrites⟩
  · rw [heq, resize_tasks] at ht
    exact hv.mem_tasks ht ⟨i, hwrites⟩

theorem RoomFor.changedFile {file' : ResumeFile} (h : u.RoomFor file') :
    (u.changedFile file).RoomFor file' := by
  cases file' with
  | skip => trivial
  | restart i size mtime =>
    intro ⟨hkind, hres⟩ t ht
    rw [Acts.tree (Acts.changedFile .refl file)] at hkind
    rcases Nat.eq_zero_or_pos (t.chunkOf i) with hzero | hpos
    · omega
    · exact h ⟨hkind, resumable_of_changedFile hres⟩ t (chunkOf_changedFile ht hpos)

section

variable (h : u.Bounded)
include h

theorem Bounded.changedFile (hroom : u.RoomFor file) : (u.changedFile file).Bounded := by
  rcases Acts.changedFile_cases u file with
    hm | ⟨i, size, mtime, v, rfl, hi, hres, hv, hzero, heq⟩
  · exact h.moves hm
  · rw [heq]
    refine (h.moves hv).resize size mtime hzero fun t ht => ?_
    rcases Nat.eq_zero_or_pos (t.chunkOf i) with hnone | hpos
    · omega
    · have hmem : t ∈ (u.changedFile (.restart i size mtime)).tasks := by
        rwa [heq, resize_tasks]
      exact hroom ⟨hi.2, hres⟩ t (chunkOf_changedFile hmem hpos)

theorem Bounded.changedFiles {files : List ResumeFile}
    (hroom : ∀ file ∈ files, u.RoomFor file) : (files.foldl Upload.changedFile u).Bounded := by
  induction files generalizing u with
  | nil => exact h
  | cons file files ih =>
    refine ih (h.changedFile (hroom file mem_cons_self)) fun file' hfile' => ?_
    exact (hroom file' (mem_cons_of_mem file hfile')).changedFile

theorem Bounded.takeUpReached (hk : u.Kinded) (requester : String)
    {files : List ResumeFile} (hroom : ∀ file ∈ files, u.RoomFor file) :
    (u.takeUpReached requester files).Bounded := by
  have hchanged := Acts.changedFiles (u := u) .refl files
  exact (h.changedFiles hroom).moves (Moves.lookUp .refl (hk.acts hchanged) requester)

theorem Bounded.placeReached (hi : u.tree.IsFile i) : (u.placeReached i).Bounded := by
  rcases Moves.placeReached_cases hi with hm | ⟨-, temp, target, heq⟩
  · exact h.moves hm
  · rw [heq]
    have hrecorded : { u with
        calls := u.calls ++ [Task.placing i temp target .replace] }.Bounded := h
    exact hrecorded.await fun _ => by rfl

theorem Bounded.conflictFound (hi : u.tree.IsFile i) (existing : Option FileEntry) :
    (u.conflictFound i existing).Bounded := by
  rcases Moves.conflictFound_cases .refl hi existing with hm | ⟨-, -, w, hw, -, -, hm⟩
  · exact h.moves hm
  · have hresolved : (w.edit i fun item => { item with resolution := some .replace }).Bounded :=
      (h.moves hw).edit rfl rfl
    exact hresolved.moves hm

theorem Bounded.answerFolders (hk : u.Kinded)
    (ht : t.Names u.tree) (hf : t.isFolders = true) (hc : u.creatingFolders = true)
    (hn : ∀ t ∈ u.tasks, t.isFolders = false) (hw : u.answer random t a = some u') :
    u'.Bounded := by
  rcases Turns.answer_cases hk ht hf hc hn hw with hturns | ⟨k, -, -, hturns⟩
  · exact h.turns hturns
  · have hleft : { u with folderQueue := [] }.Bounded := h
    exact hleft.turns hturns

theorem Bounded.source (source : Option String) : { u with source }.Bounded := h

theorem Bounded.takenUp (requester : String) : (u.takenUp requester).Bounded := by
  rcases Moves.takenUp_cases u requester with ⟨-, hm⟩ | ⟨-, hm⟩
  · exact h.moves hm
  · exact (h.source _).moves hm

/-- What follows an await keeps the bounds; `u` is the upload with the task taken off. -/
theorem Bounded.answer (hk : u.Kinded)
    (ht : t.Names u.tree) (hwrites : ∀ i, t.writesTo i → ∀ t' ∈ u.tasks, t'.writesTo i = false)
    (hchunk : ∀ i, (u.items i).acked + t.chunkOf i ≤ (u.items i).size)
    (hfolders : t.isFolders = true →
      u.creatingFolders = true ∧ ∀ t' ∈ u.tasks, t'.isFolders = false)
    (hroom : ∀ requester files held, t = .takeUpBackend requester files held →
      (∀ k, a ≠ .fault k) → ∀ file ∈ files, u.RoomFor file)
    (hw : u.answer random t a = some u') : u'.Bounded := by
  by_cases hs : t.Special a
  · have hturned : t.isFolders = true → u'.Bounded := fun hf =>
      h.answerFolders hk ht hf (hfolders hf).1 (hfolders hf).2 hw
    unfold Task.Special at hs
    split at hs
    · cases a with
      | done =>
        cases hw
        exact h.receiving _ _ _
      | _ => cases hw
    · next i s offset data =>
      cases hw
      refine h.written ht s data (hwrites i (by simp [Task.writesTo])) ?_
      simpa [Task.chunkOf] using hchunk i
    · next o n path existing =>
      obtain rfl : n = 0 := hs
      cases hw
      exact (h.conflictFound ht existing).await fun _ => by rfl
    · cases hw
      exact h.conflictFound ht _
    · exact hs.elim
    · next i held hfault =>
      obtain ⟨v, b, hv, rfl⟩ :=
        Moves.backend_reached hfault ((Upload.answer_placeBackend ..).symm.trans hw)
      exact (h.moves hv.moves).placeReached (hv.moves.tree ▸ ht)
    · exact hs.elim
    · next requester files held hfault =>
      obtain ⟨v, b, hv, rfl⟩ :=
        Moves.backend_reached hfault ((Upload.answer_takeUpBackend ..).symm.trans hw)
      refine (h.moves hv.moves).takeUpReached (hk.moves hv.moves) requester fun file hfile => ?_
      have := hroom requester files held rfl hfault file hfile
      cases file with
      | skip => trivial
      | restart i size mtime =>
        rw [RoomFor, hv.items, hv.tasks, hv.moves.tree]
        exact this
    · exact hturned rfl
    · exact hturned rfl
    · exact hturned rfl
    · cases hw
      exact h.turns (Turns.requeueAll .refl ht)
    · next requester =>
      cases a with
      | done =>
        cases hw
        exact h.takenUp requester
      | _ => cases hw
    · exact hs.elim
  · exact h.moves (Moves.answer hk ht hwrites hs hw)

theorem Bounded.passes (hp : Passes u u') : u'.Bounded := by
  induction hp with
  | refl => exact h
  | tail _ hpass ih =>
    cases hpass with
    | move hm => exact ih.move hm
    | takes => exact ih
    | admits i => exact ih.setState i .sending

theorem Bounded.pump (hk : u.Kinded) (room : ℕ) (mayWrite : Bool) :
    (u.pump room mayWrite).Bounded := by
  rcases Passes.pump_cases hk room mayWrite with hpasses | ⟨hc, hpasses⟩
  · exact h.passes hpasses
  · exact (h.turns (Turns.createFolders (hk.isFolders hc))).passes hpasses

theorem Bounded.dropItem (hi : i < u.tree.size) : (u.dropItem i).Bounded :=
  (h.edit rfl rfl).moves (Moves.dropItem hi)

theorem Bounded.drop : u.drop.Bounded :=
  dropItems_rec (P := Bounded) h fun _ _ hv hi => hv.dropItem hi

theorem Bounded.perform (hk : u.Kinded) {op : Op} (hw : u.perform op = some u') : u'.Bounded := by
  cases Performed.of_perform hw with
  | pump room mayWrite => exact h.pump hk room mayWrite
  | drop => exact h.drop
  | resolve scope action =>
    refine Acts.resolve_rec scope action h fun v i hv hi => ?_
    rcases Acts.resolveItem_cases v hi action with hm | ⟨-, -, heq, hm⟩
    · exact hv.moves hm
    · have hnoted : (v.noteAnswer i action).Bounded :=
        hv.edit (i := i) (f := fun item => { item with resolution := some action }) rfl rfl
      exact heq ▸ hnoted.moves hm
  | forget => exact h
  | source source hm => exact (h.source _).moves hm
  | moves hm => exact h.moves hm

end

end Upload

/-! ### Runs -/

/-- The files a step finds changed: those of a resume whose host is reached. -/
def Step.changed : Step → List ResumeFile
  | .answer (.takeUpBackend _ _ _) (.fault _) _ => []
  | .answer (.takeUpBackend _ files _) _ _ => files
  | _ => []

/-- A resume gives no file a size below a chunk of it that is still being written. -/
def GivesRoom (s : Service) (step : Step) : Prop := ∀ file ∈ step.changed, s.upload.RoomFor file

instance (s : Service) (step : Step) : Decidable (GivesRoom s step) :=
  inferInstanceAs (Decidable (∀ file ∈ step.changed, s.upload.RoomFor file))

/-- What holds along every run. -/
structure Service.Counts (s : Service) : Prop where
  kinded : s.upload.Kinded
  bounded : s.upload.Bounded
  rows : ∀ i, 0 ≤ (s.rows i).ackedOffset ∧ (s.rows i).ackedOffset ≤ (s.rows i).size
  /-- A dropped upload's states are set without counting. -/
  counted : s.upload.dropped = false → s.upload.Counted

namespace Upload

variable {tree : UploadTree} {onConflict : Policy} {verify : Bool} {items : ℕ → Item}
  {source : Option String} {backend : Option Backend}

theorem bounded_assemble (h : ∀ i, 0 ≤ (items i).acked ∧ (items i).acked ≤ (items i).size) :
    (assemble tree onConflict verify items source backend).Bounded := by
  obtain ⟨_, _, _, hshape⟩ := assemble_shape tree onConflict verify items source backend
  rw [hshape]
  exact fun i => ⟨(h i).1, (h i).2, forall_mem_nil _⟩

end Upload

theorem Upload.Bounded.applyPolicyTo {u : Upload} {i : ℕ} (h : u.Bounded) (hi : i < u.tree.size) :
    (u.applyPolicyTo i).Bounded := by
  rcases Acts.applyPolicyTo_cases u hi with hm | ⟨-, -, heq⟩
  · exact h.moves hm
  · rw [heq]
    exact h.edit rfl rfl

theorem Start.counted (start : Start) : start.service.upload.Counted := by
  have hcounted : start.upload.Counted :=
    (Upload.counted_assemble ..).changes (Acts.applyPolicy Upload.assemble_tasks).changes
  exact hcounted.changes (Moves.enqueueReadyTop .refl).changes

theorem counted_next {s s' : Service} {step : Step} (hk : s.upload.Kinded)
    (h : s.upload.dropped = false → s.upload.Counted) (hn : next s step = some s') :
    s'.upload.dropped = false → s'.upload.Counted := by
  intro hd
  cases Stepped.of_next hn with
  | work op u hd' hu =>
    by_cases hdrop : op = .drop
    · subst hdrop
      cases hu
      cases hd
    · exact (h hd').changes (Changes.perform hk hdrop hu)
  | answer t a random u ht hu =>
    have hchanges := Changes.answered hk ht hu
    refine (h ?_).changes hchanges
    by_contra hdropped
    have := Changes.dropped hchanges (by simpa using hdropped)
    exact nomatch hd.symm.trans this
  | lost | save => exact h hd
  | discard => cases hd
  | restart => exact Upload.counted_assemble ..

theorem counted_of_run {ok : Service → Step → Prop} (start : Start) {s : Service}
    (h : Run next ok start.service s) (hd : s.upload.dropped = false) : s.upload.Counted := by
  refine (h.invariant (I := fun s => s.upload.Kinded ∧
    (s.upload.dropped = false → s.upload.Counted)) ⟨start.kinded, fun _ => start.counted⟩ ?_).2 hd
  exact fun _ _ _ hs _ hn => ⟨kinded_next hs.1 hn, counted_next hs.1 hs.2 hn⟩

theorem Start.item_acked (start : Start) (i : ℕ) : (start.item i).acked = 0 := by
  unfold Start.item
  split
  · rfl
  · split <;> rfl
  · rfl
  · rfl

namespace Service.Counts

variable {s s' : Service}

theorem start (start : Start) : start.service.Counts := by
  have hbounded : start.upload.Bounded := by
    refine Acts.applyPolicy_rec (Upload.bounded_assemble fun i => ?_) fun v i hv hi => ?_
    · rw [start.item_acked]
      exact ⟨le_rfl, Int.natCast_nonneg _⟩
    · exact hv.applyPolicyTo hi
  exact
    { kinded := start.kinded
      bounded := hbounded.moves (Moves.enqueueReadyTop .refl)
      rows := fun i => ⟨(hbounded i).nonneg, (hbounded i).le_size⟩
      counted := fun _ => start.counted }

theorem answer (h : s.Counts) {u : Upload}
    (hok : GivesRoom s (.answer t a random)) (ht : t ∈ s.upload.tasks)
    (hu : { s.upload with tasks := s.upload.tasks.erase t }.answer random t a = some u) :
    u.Bounded := by
  refine (h.bounded.erase t).answer (h.kinded.changes (Changes.erase s.upload t))
    (h.kinded.tasks t ht) (fun _ hi => h.kinded.writes_erase ht hi)
    (fun i => (h.bounded i).chunk t ht) (fun hf => h.kinded.folders_erase ht hf) ?_ hu
  rintro requester files held rfl hfault file hfile
  have hroom : s.upload.RoomFor file := by
    refine hok file ?_
    cases a with
    | fault k => exact absurd rfl (hfault k)
    | _ => exact hfile
  cases file with
  | skip => trivial
  | restart i size mtime => exact fun hi t' ht' => hroom hi t' (mem_of_mem_erase ht')

theorem restart (h : s.Counts) :
    (bringBack s.upload.tree s.upload.onConflict s.upload.verify s.rows).Bounded := by
  refine Upload.bounded_assemble fun i => ?_
  -- Where a folder is, is not counted.
  have hfigures := foldl_folderPath_keeps Item.figures (fun _ _ => rfl) s.upload.tree
    (fun i => (s.rows i).item (s.upload.tree.kind i)) i
  simp only [Item.figures, Prod.mk.injEq] at hfigures
  rw [hfigures.1, hfigures.2.1]
  cases s.upload.tree.kind i with
  | dir => exact ⟨le_rfl, Int.natCast_nonneg _⟩
  | file => exact h.rows i

theorem step {a : Step} (h : s.Counts) (hok : GivesRoom s a) (hn : next s a = some s') :
    s'.Counts := by
  refine ⟨kinded_next h.kinded hn, ?_, ?_, counted_next h.kinded h.counted hn⟩
  · cases Stepped.of_next hn with
    | work op u _ hu => exact h.bounded.perform h.kinded hu
    | answer t a random u ht hu => exact h.answer hok ht hu
    | lost | save => exact h.bounded
    | discard => exact h.bounded.drop
    | restart => exact h.restart
  · cases Stepped.of_next hn with
    | save ids =>
      intro i
      dsimp only
      split
      · exact ⟨(h.bounded i).nonneg, (h.bounded i).le_size⟩
      · exact h.rows i
    | _ => exact h.rows

end Service.Counts

/-- **The totals are a recount**, the upload's, each folder's and the folders' by state, and no
file has fewer acknowledged bytes than none or more than its size, in every run whose resumes
leave room for the chunks under way. -/
theorem counted_and_bounded_of_givesRoom (start : Start) {s : Service}
    (h : Run next GivesRoom start.service s) (hd : s.upload.dropped = false) :
    s.upload.Counted ∧ ∀ i, s.upload.tree.IsFile i →
      0 ≤ (s.upload.items i).acked ∧ (s.upload.items i).acked ≤ (s.upload.items i).size := by
  have hcounts : s.Counts :=
    h.invariant (Service.Counts.start start) fun _ _ _ hs hok hn => hs.step hok hn
  exact ⟨hcounts.counted hd, fun i _ => ⟨(hcounts.bounded i).nonneg, (hcounts.bounded i).le_size⟩⟩

/-- A file of four bytes is sent; its window goes while three of them are being written, and
comes back with the file of `size` bytes; the three are acknowledged once it is sent again. -/
def shrinkingFile (size : ℕ) : List Step :=
  let b : Backend := ⟨0, false, false⟩
  let o : Opening := ⟨0, false, ["a"]⟩
  [.work (.pump 1 true), .answer (.openBackend 0 (some b)) .done "",
    .answer (.openPlacement o) (.placement false) "r",
    .answer (.openTemp o [".a.r.partial"] 0 false) .done "", .answer (.opened 0) .done "",
    .work (.receive "w" 0 0 [1, 2, 3]), .answer (.receiving 0 0 [1, 2, 3]) .done "",
    .work (.clientGone "w"), .work (.takeUp "w" [.restart 0 size none]),
    .answer (.takeUpBackend "w" [.restart 0 size none] (some b)) .done "",
    .answer (.looked "w") .done "", .work (.pump 1 true),
    .answer (.write 0 1 0 [1, 2, 3]) .done ""]

/-- A resume that leaves room: the file is as long as the chunk. -/
theorem counted_and_bounded_shrinking_to_three : ∃ s : Service,
    Run next GivesRoom (Start.ofItem .file 4 .ask none).service s ∧
      s.upload.dropped = false ∧ s.upload.Counted ∧
      (s.upload.items 0).acked = 3 ∧ (s.upload.items 0).size = 3 := by
  have hrun : Run next GivesRoom (Start.ofItem .file 4 .ask none).service _ :=
    .get (shrinkingFile 3) (by decide +kernel) (by decide +kernel)
  exact ⟨_, hrun, by decide +kernel,
    (counted_and_bounded_of_givesRoom _ hrun (by decide +kernel)).1, by decide +kernel,
    by decide +kernel⟩

/-- A resume that does not: three bytes of a file of two. -/
theorem acked_past_size : ¬∀ s : Service,
    Run next free (Start.ofItem .file 4 .ask none).service s → s.upload.dropped = false →
      ∀ i, s.upload.tree.IsFile i →
        0 ≤ (s.upload.items i).acked ∧ (s.upload.items i).acked ≤ (s.upload.items i).size := by
  intro h
  have hrun : Run next free (Start.ofItem .file 4 .ask none).service _ :=
    .get_free (shrinkingFile 2) (by decide +kernel)
  exact absurd (h _ hrun (by decide +kernel) 0 ⟨by decide +kernel, by decide +kernel⟩).2
    (by decide +kernel)

end Lasterm.Transfer.Uploads
