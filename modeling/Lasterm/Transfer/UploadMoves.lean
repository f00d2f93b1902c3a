import Lasterm.Transfer.UploadRun

/-!
# What a stretch of an upload's work can do

Everything the transfer service does between two awaits is a sequence of a few moves: an
item's state is set, a file's bytes are forgotten, an item is queued, a folder is put in
place, something is waited for.  Each is listed once in `Move`, with what is known when it is
made, and each function of the service is shown to be made of them.  What every move keeps,
every function keeps.

Some things may break more: a chunk is sent, it is acknowledged, a file gets another size,
something is to be replaced or is placed over, and something is taken out of a queue or off the
tasks.  `Act` has these too.  The loop of `createFolders` is moves and its own `Turn`s, the file
loop of `pump` is moves and `Pass`es: it alone lets a file be sent.

## Main results

* `Kinded.changes` — every change keeps that.
-/

namespace Lasterm.Transfer.Uploads

open Relation List Function

/-! ### The tree -/

namespace UploadTree

variable {t : UploadTree} {i p c k : ℕ}

/-- The item is there, and a file. -/
def IsFile (t : UploadTree) (i : ℕ) : Prop := i < t.size ∧ t.kind i = .file

/-- The item is there, and a folder. -/
def IsDir (t : UploadTree) (i : ℕ) : Prop := i < t.size ∧ t.kind i = .dir

theorem parent_eq_some : t.parent i = some p ↔
    ∃ item, t.items[i]? = some item ∧ item.parent = some p :=
  Option.bind_eq_some_iff

variable {item : TreeItem}

theorem kind_of_getElem? (h : t.items[i]? = some item) : t.kind i = item.kind := by
  simp [kind, h]

theorem depth_of_getElem? (h : t.items[i]? = some item) : t.depth i = item.relPath.length := by
  simp [depth, h]

theorem lt_size_of_getElem? (h : t.items[i]? = some item) : i < t.size := by
  obtain ⟨hlt, -⟩ := List.getElem?_eq_some_iff.mp h
  exact hlt

theorem parent_spec (h : t.parent i = some p) : t.IsDir p ∧ t.depth p < t.depth i := by
  obtain ⟨item, hitem, hparent⟩ := parent_eq_some.mp h
  obtain ⟨folder, hfolder, hkind, hlen⟩ := t.parent_dir i item hitem p hparent
  refine ⟨⟨lt_size_of_getElem? hfolder, ?_⟩, ?_⟩
  · rw [kind_of_getElem? hfolder, hkind]
  · rwa [depth_of_getElem? hfolder, depth_of_getElem? hitem]

theorem parent_ne_self (h : t.parent i = some p) : p ≠ i := by
  rintro rfl
  exact Nat.lt_irrefl _ (parent_spec h).2

theorem mem_children_iff : c ∈ t.children i ↔ c < t.size ∧ t.parent c = some i := by
  simp [children]

theorem lt_size_of_mem_children (h : c ∈ t.children i) : c < t.size := (mem_children_iff.mp h).1

@[simp] theorem mem_order : i ∈ t.order ↔ i < t.size := by
  simp [order]

theorem IsFile.not_isDir (h : t.IsFile i) : ¬t.IsDir i := by
  rintro ⟨-, hdir⟩
  rw [h.2] at hdir
  cases hdir

theorem under_iff : t.Under k i ↔ ∃ p, t.parent i = some p ∧ (k = p ∨ t.Under k p) := by
  constructor
  · intro hunder
    obtain ⟨p, hkp, hp⟩ := TransGen.tail'_iff.mp hunder
    rcases hkp.cases_tail with rfl | ⟨q, hkq, hq⟩
    · exact ⟨_, hp, .inl rfl⟩
    · exact ⟨p, hp, .inr (TransGen.tail'_iff.mpr ⟨q, hkq, hq⟩)⟩
  · rintro ⟨p, hp, rfl | hunder⟩
    · exact .single hp
    · exact hunder.tail hp

@[simp] theorem chain_none (fuel : ℕ) : t.chain fuel none = [] := by
  cases fuel <;> rfl

theorem mem_chain_iff {fuel : ℕ} (hp : t.depth p < fuel) :
    k ∈ t.chain fuel (some p) ↔ k = p ∨ t.Under k p := by
  induction fuel generalizing p with
  | zero => exact absurd hp (Nat.not_lt_zero _)
  | succ fuel ih =>
    rw [chain, mem_cons, under_iff]
    refine or_congr_right ?_
    -- The rest of the way up starts at the folder `p` is in, if there is one.
    cases hparent : t.parent p with
    | none => simp
    | some q =>
      have hdepth := (parent_spec hparent).2
      rw [ih (by omega)]
      simp

theorem mem_foldersAbove_iff : k ∈ t.foldersAbove i ↔ t.Under k i := by
  rw [foldersAbove, under_iff]
  cases hparent : t.parent i with
  | none => simp
  | some p =>
    rw [mem_chain_iff (parent_spec hparent).2]
    simp

theorem isDir_of_under (h : t.Under k i) : t.IsDir k := by
  obtain ⟨c, hc, -⟩ := TransGen.head'_iff.mp h
  exact (parent_spec hc).1

end UploadTree

/-! ### Tasks -/

/-- The items a task names are of the kind it is for. -/
def Task.Names (tree : UploadTree) : Task → Prop
  | .openBackend i _ | .openStopped i _ | .openStoppedRemove i _ | .opened i | .openFailed i _
  | .receiving i _ _ | .write i _ _ _ | .afterStop i _ | .finish i _ _ | .placeBackend i _
  | .placing i _ _ _ | .failedAbort i _ _ | .lookStat _ i _ | .lookTruncate _ i _ _
  | .lookRemove _ i _ => tree.IsFile i
  | .openStat o _ | .openTruncate o _ _ | .openRemove o _ | .openPlacement o | .openDirect o _ _
  | .openTemp o _ _ _ => tree.IsFile o.i
  | .aborting i _ | .removing i _ => i < tree.size
  | .foldersBackend batch plain _ => (∀ i ∈ batch, tree.IsDir i) ∧ plain ⊆ batch
  | .mkdirs batch plain paths =>
    (∀ i ∈ batch, tree.IsDir i) ∧ plain ⊆ batch ∧ paths.length = plain.length
  | .keepBothFolder i _ _ rest => tree.IsDir i ∧ ∀ j ∈ rest, tree.IsDir j
  | .retryConnect again => ∀ i ∈ again, i < tree.size
  | .takeUpBackend _ _ _ | .looked _ | .lookFailed _ => True

/-- A chunk of the file is being written. -/
def Task.writesTo (i : ℕ) : Task → Bool
  | .write j _ _ _ => j = i
  | _ => false

/-- A turn of `createFolders`. -/
def Task.isFolders : Task → Bool
  | .foldersBackend _ _ _ | .mkdirs _ _ _ | .keepBothFolder _ _ _ _ => true
  | _ => false

/-- The file is put over whatever has its name. -/
def Task.replaces (i : ℕ) : Task → Bool
  | .placing j _ _ .replace => j = i
  | _ => false

/-! ### Moves -/

/-- Placed or skipped. -/
def Item.ended (item : Item) : Prop := item.state = .placed ∨ item.state = .skipped

instance (item : Item) : Decidable item.ended :=
  inferInstanceAs (Decidable (item.state = .placed ∨ item.state = .skipped))

/-- Where a folder is, and how it came there. -/
def Item.housing (item : Item) : Option HostPath × Option Outcome × Option String :=
  (item.path, item.outcome, item.finalName)

/-- The edit leaves what the totals, the queues and the writes go by. -/
structure Notes (f : Item → Item) : Prop where
  size (item : Item) : (f item).size = item.size
  state (item : Item) : (f item).state = item.state
  resolution (item : Item) : (f item).resolution = item.resolution
  acked (item : Item) : (f item).acked = item.acked
  writing (item : Item) : (f item).writing = item.writing

namespace Upload

/-- The next batch of `createFolders`, taken off the folder queue. -/
def takeBatch (u : Upload) (held : Option Backend) : Upload :=
  let batch := (u.folderQueue.take folderBatch).filter fun i => (u.items i).state = .queued
  let plain := batch.filter fun i => (u.items i).resolution ≠ some .keepBoth
  { u with folderQueue := u.folderQueue.drop folderBatch }.await (.foldersBackend batch plain held)

/-- The queues of an upload brought back, built from what is queued. -/
def rebuildQueues (u : Upload) : Upload :=
  { u with stale := false, queue := [], folderQueue := [], waiting := fun _ => [] }.enqueueReadyTop

/-- Which window sends it, and whether it is in the service's map no more. -/
def standing (u : Upload) : Option String × Bool := (u.source, u.dropped)

end Upload

open Upload in
/-- One thing the service does, with what it goes by. -/
inductive Move (u : Upload) : Upload → Prop
  /-- What says nothing of the items, the queues and the connection. -/
  | aside (busy : ℕ) (linkDropped : Bool) : Move u { u with busy, linkDropped }
  | record (t : Task) (hr : ∀ i, t.replaces i = false) : Move u { u with calls := u.calls ++ [t] }
  | number : Move u { u with nextKey := u.nextKey + 1 }
  | release : Move u u.releaseBackend
  | reach (exec : Bool) (hb : u.backend = none) :
      Move u { u with
        backend := some ⟨u.nextKey, exec, false⟩
        leases := u.leases ++ [u.nextKey]
        nextKey := u.nextKey + 1 }
  | lookUps (l : ℕ → Option LookUp)
      (hl : ∀ key look, l key = some look → ∀ i ∈ look.todo, u.tree.IsFile i) :
      Move u { u with lookUps := l }
  | await (t : Task) (ht : t.Names u.tree) (hw : ∀ i, t.writesTo i = false)
      (hf : t.isFolders = false) : Move u (u.await t)
  | note (i : ℕ) (f : Item → Item) (hf : Notes f)
      (hd : u.tree.IsDir i → ∀ item, (f item).housing = item.housing) : Move u (u.edit i f)
  | noteSkipped (i : ℕ) (hd : u.tree.IsDir i → ¬(u.items i).ended) :
      Move u (u.edit i fun item => { item with outcome := some .skipped })
  | keepBoth (i : ℕ) : Move u (u.edit i fun item => { item with resolution := some .keepBoth })
  | stop (i : ℕ) (state : ItemState) (hi : i < u.tree.size)
      (hs : state ≠ .queued ∧ state ≠ .sending)
      (hp : state = .placed → u.tree.kind i = .file)
      (hd : u.tree.IsDir i → ¬(u.items i).ended) : Move u (u.setState i state)
  | restart (i : ℕ) (hi : u.tree.IsFile i) : Move u (u.addAcked i (-(u.items i).acked))
  | endWrite (i : ℕ) (hw : ∀ t ∈ u.tasks, t.writesTo i = false) :
      Move u (u.edit i fun item => { item with writing := false })
  | enqueue (i : ℕ) (hi : i < u.tree.size) : Move u (u.enqueue i)
  | queueAgain (i : ℕ) (hi : i < u.tree.size) (hd : u.tree.IsDir i → ¬(u.items i).ended) :
      Move u (u.queueAgain i)
  | rebuild : Move u u.rebuildQueues
  /-- The queue's next file is not queued any more. -/
  | shift (i : ℕ) (rest : List ℕ) (hq : u.queue = i :: rest) (hs : (u.items i).state ≠ .queued) :
      Move u { u with queue := rest }

/-- Some moves, one after another. -/
abbrev Moves : Upload → Upload → Prop := ReflTransGen Move

open Upload in
/-- A move, or one of `createFolders`, which is at one thing at a time. -/
inductive Turn (u : Upload) : Upload → Prop
  | move {u' : Upload} (h : Move u u') : Turn u u'
  | folders (creatingFolders : Bool) (hn : ∀ t ∈ u.tasks, t.isFolders = false) :
      Turn u { u with creatingFolders }
  | takeBatch (held : Option Backend) (hc : u.creatingFolders = true)
      (hn : ∀ t ∈ u.tasks, t.isFolders = false) : Turn u (u.takeBatch held)
  | callFolders (t : Task) (ht : t.Names u.tree) (hf : t.isFolders = true)
      (hc : u.creatingFolders = true) (hn : ∀ t ∈ u.tasks, t.isFolders = false) : Turn u (u.call t)
  | placeFolder (i : ℕ) (path : HostPath) (outcome : Outcome) (hi : u.tree.IsDir i) :
      Turn u (u.folderPlaced i path outcome)
  | nameFolder (i : ℕ) (name : String) (hi : u.tree.IsDir i) :
      Turn u (u.edit i fun item => { item with finalName := some name })
  | pushFolder (i : ℕ) (hi : u.tree.IsDir i) : Turn u { u with folderQueue := u.folderQueue ++ [i] }
  /-- A folder that was placed or skipped fails all the same, or is queued again. -/
  | failEnded (i : ℕ) (hi : i < u.tree.size) : Turn u (u.setState i .failed)
  | queueEnded (i : ℕ) (hi : i < u.tree.size) : Turn u (u.queueAgain i)

/-- Some turns, one after another. -/
abbrev Turns : Upload → Upload → Prop := ReflTransGen Turn

open Upload in
/-- A move, or one that is more. -/
inductive Act (u : Upload) : Upload → Prop
  | move {u' : Upload} (h : Move u u') : Act u u'
  /-- The chunk goes to the write the file has, from where the host's bytes end. -/
  | startWrite (i s offset : ℕ) (data : List UInt8) (hi : u.tree.IsFile i)
      (hs : (u.items i).sink = some s) (hw : (u.items i).writing = false)
      (ho : (offset : ℤ) = (u.items i).acked) (hlen : offset + data.length ≤ (u.items i).size) :
      Act u ((u.edit i fun item => { item with writing := true }).await (.write i s offset data))
  | acknowledge (i : ℕ) (n : ℤ) (hi : u.tree.IsFile i) : Act u (u.addAcked i n)
  | placeOver (i : ℕ) (temp : Option HostPath) (target : HostPath) (hi : u.tree.IsFile i)
      (hr : (u.items i).resolution = some .replace) :
      Act u (u.call (.placing i temp target .replace))
  | resize (i size : ℕ) (mtime : Option ℕ) (hi : u.tree.IsFile i) : Act u (u.resize i size mtime)
  /-- The policy answers Replace: what has the name is no type clash. Of a folder, only before
  any is created. -/
  | resolve (i : ℕ) (hp : u.onConflict = .replace) (hc : (u.items i).typeClash = false)
      (hd : u.tree.IsDir i → ∀ t ∈ u.tasks, t.isFolders = false) :
      Act u (u.edit i fun item => { item with resolution := some .replace })
  | noteAnswer (i : ℕ) (action : Action) (hc : (u.items i).state = .conflict)
      (hr : action = .replace → (u.items i).typeClash = false) : Act u (u.noteAnswer i action)

/-- Some acts, one after another. -/
abbrev Acts : Upload → Upload → Prop := ReflTransGen Act

/-- A move, or one of `pump`'s file loop. -/
inductive Pass (u : Upload) : Upload → Prop
  | move {u' : Upload} (h : Move u u') : Pass u u'
  | takes (i : ℕ) (rest : List ℕ) (hq : u.queue = i :: rest) : Pass u { u with queue := rest }
  | admits (i : ℕ) (hi : u.tree.IsFile i) (hq : (u.items i).state = .queued) :
      Pass u (u.setState i .sending)

/-- Some of these, one after another. -/
abbrev Passes : Upload → Upload → Prop := ReflTransGen Pass

/-- Any of these. -/
inductive Change (u : Upload) : Upload → Prop
  | act {u' : Upload} (h : Act u u') : Change u u'
  | turn {u' : Upload} (h : Turn u u') : Change u u'
  | pass {u' : Upload} (h : Pass u u') : Change u u'
  | shed (queue folderQueue : List ℕ) (waiting : ℕ → List ℕ) (tasks : List Task)
      (hq : queue ⊆ u.queue) (hf : folderQueue ⊆ u.folderQueue)
      (hw : ∀ p, waiting p ⊆ u.waiting p) (ht : tasks.Sublist u.tasks) :
      Change u { u with queue, folderQueue, waiting, tasks }
  /-- Its bytes come from another window, or from none. -/
  | source (source : Option String) : Change u { u with source }
  | forget : Change u { u with dropped := true }

/-- Some changes, one after another. -/
abbrev Changes : Upload → Upload → Prop := ReflTransGen Change

/-! ### What the edits leave -/

namespace Upload

variable {u : Upload} {i j : ℕ} {state : ItemState}

theorem edit_items (f : Item → Item) :
    (u.edit i f).items j = if j = i then f (u.items i) else u.items j := by
  unfold edit
  by_cases hj : j = i
  · subst hj
    simp
  · simp [hj]

theorem setState_shape (u : Upload) (i : ℕ) (state : ItemState) :
    ∃ folderTotals totals folderStates, u.setState i state =
      { u.edit i (fun item => { item with state }) with folderTotals, totals, folderStates } := by
  unfold setState
  dsimp only
  split
  · exact ⟨_, _, _, rfl⟩
  · split <;> exact ⟨_, _, _, rfl⟩

theorem addAcked_shape (u : Upload) (i : ℕ) (delta : ℤ) :
    ∃ folderTotals totals, u.addAcked i delta =
      { u.edit i (fun item => { item with acked := item.acked + delta }) with
        folderTotals, totals } := by
  unfold addAcked
  split
  · next hzero =>
    refine ⟨u.folderTotals, u.totals, ?_⟩
    have hsame : update u.items i { u.items i with acked := (u.items i).acked + delta } =
        u.items := by
      rw [hzero, Int.add_zero]
      exact update_eq_self i u.items
    rw [edit, hsame]
  · exact ⟨_, _, rfl⟩

theorem resize_shape (u : Upload) (i size : ℕ) (mtime : Option ℕ) :
    ∃ folderTotals totals, u.resize i size mtime =
      { u.edit i (fun item => { item with size, mtime, verification := none }) with
        folderTotals, totals } := by
  unfold resize
  dsimp only
  split <;> exact ⟨_, _, rfl⟩

theorem enqueue_shape (u : Upload) (i : ℕ) : ∃ queue folderQueue waiting,
    u.enqueue i = { u with queue, folderQueue, waiting } := by
  unfold enqueue
  split
  · split <;> exact ⟨_, _, _, rfl⟩
  · split
    · exact ⟨u.queue, u.folderQueue, u.waiting, rfl⟩
    · exact ⟨_, _, _, rfl⟩

theorem enqueueQueued_shape (u : Upload) (ids : List ℕ) : ∃ queue folderQueue waiting,
    u.enqueueQueued ids = { u with queue, folderQueue, waiting } := by
  refine foldlRecOn (motive := fun v : Upload => ∃ queue folderQueue waiting,
    v = { u with queue, folderQueue, waiting }) ids _ ⟨u.queue, u.folderQueue, u.waiting, rfl⟩ ?_
  rintro _ ⟨queue, folderQueue, waiting, rfl⟩ i -
  split
  · exact enqueue_shape _ i
  · exact ⟨_, _, _, rfl⟩

theorem foldl_countFile_shape (l : List ℕ) (u : Upload) : ∃ totals folderTotals,
    l.foldl countFile u = { u with totals, folderTotals } := by
  refine foldlRecOn (motive := fun v : Upload => ∃ totals folderTotals,
    v = { u with totals, folderTotals }) l _ ⟨u.totals, u.folderTotals, rfl⟩ ?_
  rintro _ ⟨totals, folderTotals, rfl⟩ i -
  exact ⟨_, _, rfl⟩

theorem foldl_countFolder (l : List ℕ) (u : Upload) : l.foldl countFolder u =
    { u with
      folderStates := l.foldl (fun m i => m.countOne (u.items i).state) u.folderStates } := by
  induction l generalizing u with
  | nil => rfl
  | cons i l ih => exact ih (u.countFolder i)

theorem assemble_shape (tree : UploadTree) (onConflict : Policy) (verify : Bool)
    (items : ℕ → Item) (source : Option String) (backend : Option Backend) :
    ∃ folderTotals totals folderStates,
      assemble tree onConflict verify items source backend =
        { tree, onConflict, verify, items, folderTotals, totals, folderStates, source, backend
          queue := []
          folderQueue := []
          creatingFolders := false
          waiting := fun _ => []
          busy := 0
          linkDropped := false
          stale := false
          dropped := false
          tasks := []
          calls := []
          answers := []
          leases := backend.toList.map Backend.id
          lookUps := fun _ => none
          nextKey := 1 } := by
  unfold assemble
  dsimp only
  rw [foldl_countFolder]
  obtain ⟨totals, folderTotals, h⟩ := foldl_countFile_shape
    ((range tree.size).filter fun i => tree.kind i = .file) _
  rw [h]
  exact ⟨_, _, _, rfl⟩

section

variable {tree : UploadTree} {onConflict : Policy} {verify : Bool} {items : ℕ → Item}
  {source : Option String} {backend : Option Backend}

theorem assemble_tasks : (assemble tree onConflict verify items source backend).tasks = [] := by
  obtain ⟨_, _, _, h⟩ := assemble_shape tree onConflict verify items source backend
  rw [h]

theorem assemble_items : (assemble tree onConflict verify items source backend).items = items := by
  obtain ⟨_, _, _, h⟩ := assemble_shape tree onConflict verify items source backend
  rw [h]

end

theorem setState_items : (u.setState i state).items j =
    if j = i then { u.items i with state } else u.items j := by
  obtain ⟨_, _, _, h⟩ := setState_shape u i state
  rw [h]
  exact edit_items (u := u) fun item => { item with state }

theorem addAcked_items (delta : ℤ) : (u.addAcked i delta).items j =
    if j = i then { u.items i with acked := (u.items i).acked + delta } else u.items j := by
  obtain ⟨_, _, h⟩ := addAcked_shape u i delta
  rw [h]
  exact edit_items (u := u) fun item => { item with acked := item.acked + delta }

theorem restartFile_items : (u.restartFile i).items j =
    if j = i then
      { u.items i with acked := 0, temp := none, tempWhole := false, hash := none, carried := false }
    else u.items j := by
  rw [restartFile, edit_items]
  split
  · rw [addAcked_items, if_pos rfl, Int.add_right_neg]
  · next hj => rw [addAcked_items, if_neg hj]

theorem resize_items (size : ℕ) (mtime : Option ℕ) : (u.resize i size mtime).items j =
    if j = i then { u.items i with size, mtime, verification := none } else u.items j := by
  obtain ⟨_, _, h⟩ := resize_shape u i size mtime
  rw [h]
  exact edit_items (u := u) fun item => { item with size, mtime, verification := none }

@[simp] theorem setState_tree : (u.setState i state).tree = u.tree := by
  obtain ⟨_, _, _, h⟩ := setState_shape u i state
  rw [h]
  rfl

@[simp] theorem addAcked_tree (delta : ℤ) : (u.addAcked i delta).tree = u.tree := by
  obtain ⟨_, _, h⟩ := addAcked_shape u i delta
  rw [h]
  rfl

@[simp] theorem resize_tree (size : ℕ) (mtime : Option ℕ) :
    (u.resize i size mtime).tree = u.tree := by
  obtain ⟨_, _, h⟩ := resize_shape u i size mtime
  rw [h]
  rfl

@[simp] theorem setState_tasks : (u.setState i state).tasks = u.tasks := by
  obtain ⟨_, _, _, h⟩ := setState_shape u i state
  rw [h]
  rfl

@[simp] theorem addAcked_tasks (delta : ℤ) : (u.addAcked i delta).tasks = u.tasks := by
  obtain ⟨_, _, h⟩ := addAcked_shape u i delta
  rw [h]
  rfl

@[simp] theorem resize_tasks (size : ℕ) (mtime : Option ℕ) :
    (u.resize i size mtime).tasks = u.tasks := by
  obtain ⟨_, _, h⟩ := resize_shape u i size mtime
  rw [h]
  rfl

@[simp] theorem enqueue_tasks : (u.enqueue i).tasks = u.tasks := by
  obtain ⟨_, _, _, h⟩ := enqueue_shape u i
  rw [h]

@[simp] theorem enqueueQueued_tasks (ids : List ℕ) : (u.enqueueQueued ids).tasks = u.tasks := by
  obtain ⟨_, _, _, h⟩ := enqueueQueued_shape u ids
  rw [h]

@[simp] theorem setState_standing : (u.setState i state).standing = u.standing := by
  obtain ⟨_, _, _, h⟩ := setState_shape u i state
  rw [h]
  rfl

@[simp] theorem setState_creatingFolders :
    (u.setState i state).creatingFolders = u.creatingFolders := by
  obtain ⟨_, _, _, h⟩ := setState_shape u i state
  rw [h]
  rfl

@[simp] theorem addAcked_creatingFolders (delta : ℤ) :
    (u.addAcked i delta).creatingFolders = u.creatingFolders := by
  obtain ⟨_, _, h⟩ := addAcked_shape u i delta
  rw [h]
  rfl

@[simp] theorem enqueue_creatingFolders :
    (u.enqueue i).creatingFolders = u.creatingFolders := by
  obtain ⟨_, _, _, h⟩ := enqueue_shape u i
  rw [h]

@[simp] theorem enqueueQueued_creatingFolders (ids : List ℕ) :
    (u.enqueueQueued ids).creatingFolders = u.creatingFolders := by
  obtain ⟨_, _, _, h⟩ := enqueueQueued_shape u ids
  rw [h]

@[simp] theorem addAcked_standing (delta : ℤ) : (u.addAcked i delta).standing = u.standing := by
  obtain ⟨_, _, h⟩ := addAcked_shape u i delta
  rw [h]
  rfl

@[simp] theorem resize_standing (size : ℕ) (mtime : Option ℕ) :
    (u.resize i size mtime).standing = u.standing := by
  obtain ⟨_, _, h⟩ := resize_shape u i size mtime
  rw [h]
  rfl

@[simp] theorem enqueue_standing : (u.enqueue i).standing = u.standing := by
  obtain ⟨_, _, _, h⟩ := enqueue_shape u i
  rw [h]
  rfl

@[simp] theorem enqueueQueued_standing (ids : List ℕ) :
    (u.enqueueQueued ids).standing = u.standing := by
  obtain ⟨_, _, _, h⟩ := enqueueQueued_shape u ids
  rw [h]
  rfl

@[simp] theorem enqueueReady_standing (folder : ℕ) :
    (u.enqueueReady folder).standing = u.standing :=
  enqueueQueued_standing _

@[simp] theorem enqueue_tree : (u.enqueue i).tree = u.tree := by
  obtain ⟨_, _, _, h⟩ := enqueue_shape u i
  rw [h]

@[simp] theorem enqueue_items : (u.enqueue i).items = u.items := by
  obtain ⟨_, _, _, h⟩ := enqueue_shape u i
  rw [h]

@[simp] theorem enqueueQueued_tree (ids : List ℕ) : (u.enqueueQueued ids).tree = u.tree := by
  obtain ⟨_, _, _, h⟩ := enqueueQueued_shape u ids
  rw [h]

@[simp] theorem enqueueQueued_items (ids : List ℕ) : (u.enqueueQueued ids).items = u.items := by
  obtain ⟨_, _, _, h⟩ := enqueueQueued_shape u ids
  rw [h]

/-- What every change `skip` makes keeps, `skip` keeps. -/
theorem skip_rec {P : Upload → Prop}
    (hnote : ∀ v k, P v →
      P ((v.edit k fun item => { item with outcome := some .skipped }).setState k .skipped))
    (hrestart : ∀ v k, P v → P (v.restartFile k)) (hcall : ∀ v k p, P v → P (v.call (.removing k p)))
    (fuel : ℕ) (h : P u) (i : ℕ) : P (skip fuel u i) := by
  induction fuel generalizing u i with
  | zero => exact h
  | succ fuel ih =>
    have hskipped := hnote u i h
    unfold skip
    dsimp only
    split
    · have hrestarted := hrestart _ i hskipped
      split
      · exact hrestarted
      · split
        · exact hrestarted
        · exact hcall _ i _ hrestarted
    · refine foldlRecOn (motive := P) _ _ hskipped fun w hw c _ => ?_
      split
      · exact ih hw c
      · exact hw

theorem folderPlaced_items (path : HostPath) (outcome : Outcome) :
    (u.folderPlaced i path outcome).items j = if j = i then
      { u.items i with path := some path, outcome := some outcome, state := .placed }
      else u.items j := by
  rw [folderPlaced, enqueueReady, enqueueQueued_items]
  show ((u.edit i _).setState i .placed).items j = _
  simp only [setState_items, edit_items]
  split
  · simp
  · rfl

end Upload

/-- `bringBack` sets where folders are, and nothing else. -/
theorem foldl_folderPath_keeps {α : Type*} (field : Item → α)
    (hfield : ∀ item path, field { item with path } = field item) (tree : UploadTree)
    (items : ℕ → Item) (i : ℕ) :
    field ((tree.order.foldl (folderPath tree) items) i) = field (items i) := by
  refine foldlRecOn (motive := fun items' : ℕ → Item => field (items' i) = field (items i))
    _ _ rfl ?_
  intro items' ih j _
  rw [← ih]
  have hkeeps : ∀ path, field (update items' j { items' j with path } i) =
      field (items' i) := by
    intro path
    by_cases hj : i = j
    · subst hj
      rw [update_self, hfield]
    · rw [update_of_ne hj]
  unfold folderPath
  split
  · rfl
  · cases tree.parent j with
    | none => exact hkeeps _
    | some p =>
      cases hp : (items' p).path with
      | none => simp only [hp]
      | some dir =>
        simp only [hp]
        exact hkeeps _

/-! ### The tree stays -/

variable {u u' : Upload}

theorem Move.tree (h : Move u u') : u'.tree = u.tree := by
  cases h with
  | stop => exact Upload.setState_tree
  | restart => exact Upload.addAcked_tree _
  | enqueue => exact Upload.enqueue_tree
  | queueAgain => simp [Upload.queueAgain]
  | rebuild => simp [Upload.rebuildQueues, Upload.enqueueReadyTop]
  | _ => rfl

theorem Moves.tree (h : Moves u u') : u'.tree = u.tree := by
  induction h with
  | refl => rfl
  | tail _ hm ih => rw [hm.tree, ih]

theorem Turn.tree (h : Turn u u') : u'.tree = u.tree := by
  cases h with
  | move hm => exact hm.tree
  | placeFolder => simp [Upload.folderPlaced, Upload.enqueueReady, Upload.edit]
  | failEnded => exact Upload.setState_tree
  | queueEnded => simp [Upload.queueAgain]
  | _ => rfl

theorem Turns.tree (h : Turns u u') : u'.tree = u.tree := by
  induction h with
  | refl => rfl
  | tail _ ht ih => rw [ht.tree, ih]

theorem Act.tree (h : Act u u') : u'.tree = u.tree := by
  cases h with
  | move hm => exact hm.tree
  | startWrite | placeOver | resolve | noteAnswer => rfl
  | acknowledge => exact Upload.addAcked_tree _
  | resize => exact Upload.resize_tree _ _

theorem Acts.tree (h : Acts u u') : u'.tree = u.tree := by
  induction h with
  | refl => rfl
  | tail _ ha ih => rw [ha.tree, ih]

theorem Pass.tree (h : Pass u u') : u'.tree = u.tree := by
  cases h with
  | move hm => exact hm.tree
  | takes => rfl
  | admits => exact Upload.setState_tree

theorem Passes.tree (h : Passes u u') : u'.tree = u.tree := by
  induction h with
  | refl => rfl
  | tail _ hp ih => rw [hp.tree, ih]

theorem Change.tree (h : Change u u') : u'.tree = u.tree := by
  cases h with
  | act ha | turn ha | pass ha => exact ha.tree
  | shed | source | forget => rfl

theorem Changes.tree (h : Changes u u') : u'.tree = u.tree := by
  induction h with
  | refl => rfl
  | tail _ hc ih => rw [hc.tree, ih]

theorem Moves.turns (h : Moves u u') : Turns u u' :=
  ReflTransGen.mono (r := Move) (fun _ _ => Turn.move) _ _ h

theorem Turns.changes (h : Turns u u') : Changes u u' :=
  ReflTransGen.mono (r := Turn) (fun _ _ => Change.turn) _ _ h

theorem Moves.acts (h : Moves u u') : Acts u u' :=
  ReflTransGen.mono (r := Move) (fun _ _ => Act.move) _ _ h

theorem Acts.changes (h : Acts u u') : Changes u u' :=
  ReflTransGen.mono (r := Act) (fun _ _ => Change.act) _ _ h

theorem Moves.passes (h : Moves u u') : Passes u u' :=
  ReflTransGen.mono (r := Move) (fun _ _ => Pass.move) _ _ h

theorem Passes.changes (h : Passes u u') : Changes u u' :=
  ReflTransGen.mono (r := Pass) (fun _ _ => Change.pass) _ _ h

theorem Moves.changes (h : Moves u u') : Changes u u' := h.turns.changes

/-- A move leaves the tasks, or adds one that is no chunk and no turn of `createFolders`. -/
theorem Move.tasks (h : Move u u') :
    u'.tasks = u.tasks ∨ ∃ t, u'.tasks = u.tasks ++ [t] ∧ (∀ i, t.writesTo i = false) ∧
      t.isFolders = false := by
  cases h with
  | await t _ hw hf => exact .inr ⟨t, rfl, hw, hf⟩
  | stop => exact .inl Upload.setState_tasks
  | restart => exact .inl (Upload.addAcked_tasks _)
  | enqueue => exact .inl Upload.enqueue_tasks
  | queueAgain => exact .inl (Upload.enqueue_tasks.trans Upload.setState_tasks)
  | rebuild => exact .inl (Upload.enqueueQueued_tasks _)
  | _ => exact .inl rfl

variable {t : Task}

theorem Moves.mem_tasks (h : Moves u u') (ht : t ∈ u'.tasks)
    (hw : ∃ i, t.writesTo i) : t ∈ u.tasks := by
  induction h with
  | refl => exact ht
  | tail _ hm ih =>
    rcases hm.tasks with heq | ⟨t', heq, ht', -⟩
    · exact ih (heq ▸ ht)
    · rw [heq] at ht
      rcases mem_append.mp ht with hmem | hmem
      · exact ih hmem
      · obtain rfl := mem_singleton.mp hmem
        obtain ⟨i, hi⟩ := hw
        rw [ht' i] at hi
        cases hi

theorem Moves.writesTo (h : Moves u u') {i : ℕ}
    (hw : ∀ t ∈ u.tasks, t.writesTo i = false) : ∀ t ∈ u'.tasks, t.writesTo i = false := by
  intro t ht
  by_contra hne
  have hwrites : t.writesTo i = true := by simpa using hne
  exact hne (hw t (h.mem_tasks ht ⟨i, hwrites⟩))

/-- A move leaves `createFolders` at what it is at. -/
theorem Move.creatingFolders (h : Move u u') : u'.creatingFolders = u.creatingFolders := by
  cases h with
  | stop => exact Upload.setState_creatingFolders
  | restart => exact Upload.addAcked_creatingFolders _
  | enqueue => exact Upload.enqueue_creatingFolders
  | queueAgain =>
    exact Upload.enqueue_creatingFolders.trans Upload.setState_creatingFolders
  | rebuild => exact Upload.enqueueQueued_creatingFolders _
  | _ => rfl

theorem Moves.creatingFolders (h : Moves u u') : u'.creatingFolders = u.creatingFolders := by
  induction h with
  | refl => rfl
  | tail _ hm ih => rw [hm.creatingFolders, ih]

theorem Moves.isFolders (h : Moves u u')
    (hn : ∀ t ∈ u.tasks, t.isFolders = false) : ∀ t ∈ u'.tasks, t.isFolders = false := by
  induction h with
  | refl => exact hn
  | tail _ hm ih =>
    intro t ht
    rcases hm.tasks with heq | ⟨t', heq, -, hf⟩
    · exact ih t (heq ▸ ht)
    · rw [heq] at ht
      rcases mem_append.mp ht with hmem | hmem
      · exact ih t hmem
      · exact mem_singleton.mp hmem ▸ hf

/-! ### Whose it is -/

theorem Move.standing (h : Move u u') : u'.standing = u.standing := by
  cases h with
  | stop => exact Upload.setState_standing
  | restart => exact Upload.addAcked_standing _
  | enqueue => exact Upload.enqueue_standing
  | queueAgain => exact Upload.enqueue_standing.trans Upload.setState_standing
  | rebuild => exact Upload.enqueueQueued_standing _
  | _ => rfl

theorem Act.standing (h : Act u u') : u'.standing = u.standing := by
  cases h with
  | move hm => exact hm.standing
  | startWrite | placeOver | resolve | noteAnswer => rfl
  | acknowledge => exact Upload.addAcked_standing _
  | resize => exact Upload.resize_standing _ _

theorem Turn.standing (h : Turn u u') : u'.standing = u.standing := by
  cases h with
  | move hm => exact hm.standing
  | placeFolder i => exact (Upload.enqueueReady_standing i).trans Upload.setState_standing
  | failEnded => exact Upload.setState_standing
  | queueEnded => exact Upload.enqueue_standing.trans Upload.setState_standing
  | _ => rfl

theorem Turns.standing (h : Turns u u') : u'.standing = u.standing := by
  induction h with
  | refl => rfl
  | tail _ ht ih => rw [ht.standing, ih]

theorem Pass.standing (h : Pass u u') : u'.standing = u.standing := by
  cases h with
  | move hm => exact hm.standing
  | takes => rfl
  | admits => exact Upload.setState_standing

theorem Passes.standing (h : Passes u u') : u'.standing = u.standing := by
  induction h with
  | refl => rfl
  | tail _ hp ih => rw [hp.standing, ih]

theorem Changes.dropped (h : Changes u u') (hd : u.dropped = true) : u'.dropped = true := by
  have hkeeps : ∀ {v w : Upload}, w.standing = v.standing → v.dropped = true → w.dropped = true := by
    intro v w hstanding hv
    exact (congrArg Prod.snd hstanding).trans hv
  induction h with
  | refl => exact hd
  | tail _ hc ih =>
    cases hc with
    | act ha | turn ha | pass ha => exact hkeeps ha.standing ih
    | shed | source => exact ih
    | forget => rfl

/-! ### Queues and tasks by kind -/

namespace Upload

/-- Queues and tasks hold items of their kind, a file has at most one chunk under way, and
`createFolders` is at one thing at most. -/
structure Kinded (u : Upload) : Prop where
  queue : ∀ i ∈ u.queue, u.tree.IsFile i
  folderQueue : ∀ i ∈ u.folderQueue, u.tree.IsDir i
  waiting : ∀ p, ∀ i ∈ u.waiting p, i < u.tree.size
  tasks : ∀ t ∈ u.tasks, t.Names u.tree
  lookUps : ∀ key l, u.lookUps key = some l → ∀ i ∈ l.todo, u.tree.IsFile i
  writes : ∀ i, u.tasks.countP (Task.writesTo i) ≤ (u.items i).writing.toNat
  folders : u.tasks.countP Task.isFolders ≤ u.creatingFolders.toNat

variable {u : Upload} {i : ℕ}

section

variable (h : u.Kinded)
include h

theorem Kinded.items {items : ℕ → Item} {folderTotals : ℕ → Totals}
    {totals : Totals} {folderStates : OrderedMap ItemState ℕ}
    (hw : ∀ j, (items j).writing = (u.items j).writing) :
    { u with items, folderTotals, totals, folderStates }.Kinded :=
  { h with writes := fun j => (hw j).symm ▸ h.writes j }

theorem Kinded.edit {f : Item → Item}
    (hf : (f (u.items i)).writing = (u.items i).writing) : (u.edit i f).Kinded := by
  refine h.items fun j => ?_
  by_cases hj : j = i
  · subst hj
    simpa using hf
  · simp [hj]

theorem Kinded.setState (i : ℕ) (state : ItemState) : (u.setState i state).Kinded := by
  obtain ⟨_, _, _, hs⟩ := setState_shape u i state
  rw [hs]
  exact (h.edit (i := i) (f := fun item => { item with state }) rfl).items fun _ => rfl

theorem Kinded.addAcked (i : ℕ) (delta : ℤ) : (u.addAcked i delta).Kinded := by
  obtain ⟨_, _, hs⟩ := addAcked_shape u i delta
  rw [hs]
  exact (h.edit (i := i) (f := fun item => { item with acked := item.acked + delta }) rfl).items
    fun _ => rfl

theorem Kinded.resize (i size : ℕ) (mtime : Option ℕ) : (u.resize i size mtime).Kinded := by
  obtain ⟨_, _, hs⟩ := resize_shape u i size mtime
  rw [hs]
  exact (h.edit (i := i) (f := fun item => { item with size, mtime, verification := none }) rfl
    ).items fun _ => rfl

theorem Kinded.shed {queue folderQueue : List ℕ} {waiting : ℕ → List ℕ}
    {tasks : List Task} (hq : queue ⊆ u.queue) (hf : folderQueue ⊆ u.folderQueue)
    (hw : ∀ p, waiting p ⊆ u.waiting p) (ht : tasks.Sublist u.tasks) :
    { u with queue, folderQueue, waiting, tasks }.Kinded where
  queue i hi := h.queue i (hq hi)
  folderQueue i hi := h.folderQueue i (hf hi)
  waiting p i hi := h.waiting p i (hw p hi)
  tasks t ht' := h.tasks t (ht.subset ht')
  lookUps := h.lookUps
  writes i := Nat.le_trans (ht.countP_le) (h.writes i)
  folders := Nat.le_trans (ht.countP_le) h.folders

theorem Kinded.await (ht : t.Names u.tree) (hw : ∀ i, t.writesTo i = false)
    (hf : (u.tasks ++ [t]).countP Task.isFolders ≤ u.creatingFolders.toNat) :
    (u.await t).Kinded where
  queue := h.queue
  folderQueue := h.folderQueue
  waiting := h.waiting
  tasks t' ht' := by
    rcases mem_append.mp ht' with hmem | hmem
    · exact h.tasks t' hmem
    · exact mem_singleton.mp hmem ▸ ht
  lookUps := h.lookUps
  writes i := by
    have hcount : (u.tasks ++ [t]).countP (Task.writesTo i) = u.tasks.countP (Task.writesTo i) := by
      simp [countP_append, hw i]
    show (u.tasks ++ [t]).countP (Task.writesTo i) ≤ _
    rw [hcount]
    exact h.writes i
  folders := hf

/-- A task that is no turn of `createFolders`. -/
theorem Kinded.countP_isFolders (hf : t.isFolders = false) :
    (u.tasks ++ [t]).countP Task.isFolders ≤ u.creatingFolders.toNat := by
  rw [countP_append, countP_singleton, if_neg (by simp [hf])]
  exact h.folders

end

theorem countP_isFolders_le (hc : u.creatingFolders = true)
    (hn : ∀ t ∈ u.tasks, t.isFolders = false) (t : Task) :
    (u.tasks ++ [t]).countP Task.isFolders ≤ u.creatingFolders.toNat := by
  have hnone : u.tasks.countP Task.isFolders = 0 := by
    rw [countP_eq_zero]
    exact fun t ht => by simp [hn t ht]
  rw [countP_append, hnone, hc, Nat.zero_add]
  exact countP_le_length

section

variable (h : u.Kinded)
include h

theorem Kinded.pushFile (hi : u.tree.IsFile i) : { u with queue := u.queue ++ [i] }.Kinded := by
  refine { h with queue := fun j hj => ?_ }
  rcases mem_append.mp hj with hmem | hmem
  · exact h.queue j hmem
  · exact mem_singleton.mp hmem ▸ hi

theorem Kinded.pushFolder (hi : u.tree.IsDir i) :
    { u with folderQueue := u.folderQueue ++ [i] }.Kinded := by
  refine { h with folderQueue := fun j hj => ?_ }
  rcases mem_append.mp hj with hmem | hmem
  · exact h.folderQueue j hmem
  · exact mem_singleton.mp hmem ▸ hi

theorem Kinded.pushWaiting (hi : i < u.tree.size) (p : ℕ) :
    { u with waiting := update u.waiting p (u.waiting p ++ [i]) }.Kinded := by
  refine { h with waiting := fun q j hj => ?_ }
  by_cases hq : q = p
  · subst hq
    simp only [update_self, mem_append, mem_singleton] at hj
    rcases hj with hmem | rfl
    · exact h.waiting q j hmem
    · exact hi
  · simp only [update_of_ne hq] at hj
    exact h.waiting q j hj

theorem Kinded.enqueue (hi : i < u.tree.size) : (u.enqueue i).Kinded := by
  unfold Upload.enqueue
  split
  · split
    · next hkind => exact h.pushFolder ⟨hi, hkind⟩
    · next hkind => exact h.pushFile ⟨hi, hkind⟩
  · split
    · exact h
    · exact h.pushWaiting hi _

theorem Kinded.enqueueQueued {ids : List ℕ} (hids : ∀ i ∈ ids, i < u.tree.size) :
    (u.enqueueQueued ids).Kinded := by
  refine (foldlRecOn (motive := fun v : Upload => v.Kinded ∧ v.tree = u.tree) ids _
    ⟨h, rfl⟩ ?_).1
  rintro v ⟨hv, htree⟩ i hi
  split
  · exact ⟨hv.enqueue (htree ▸ hids i hi), by rw [enqueue_tree, htree]⟩
  · exact ⟨hv, htree⟩

theorem Kinded.enqueueReady (folder : ℕ) : (u.enqueueReady folder).Kinded := by
  have hwaiting : ∀ p, update u.waiting folder [] p ⊆ u.waiting p := by
    intro p
    by_cases hp : p = folder
    · subst hp
      simp
    · simp [hp]
  exact (h.shed (Subset.refl _) (Subset.refl _) hwaiting (Sublist.refl _)
    ).enqueueQueued (h.waiting folder)

theorem Kinded.takeBatch (held : Option Backend)
    (hc : u.creatingFolders = true) (hn : ∀ t ∈ u.tasks, t.isFolders = false) :
    (u.takeBatch held).Kinded := by
  refine (h.shed (Subset.refl _) (drop_subset _ _) (fun _ => Subset.refl _)
    (Sublist.refl _)).await ⟨?_, filter_subset_self _⟩ (fun _ => rfl)
    (countP_isFolders_le hc hn _)
  intro i hi
  exact h.folderQueue i (take_subset _ _ (mem_of_mem_filter hi))

theorem Kinded.rebuildQueues : u.rebuildQueues.Kinded := by
  have hempty :
      { u with stale := false, queue := [], folderQueue := [], waiting := fun _ => [] }.Kinded :=
    { h with
      queue := fun _ hi => nomatch hi
      folderQueue := fun _ hi => nomatch hi
      waiting := fun _ _ hi => nomatch hi }
  exact hempty.enqueueQueued fun i hi => UploadTree.mem_order.mp hi

theorem Kinded.startWrite {s offset : ℕ} {data : List UInt8}
    (hi : u.tree.IsFile i) (hw : (u.items i).writing = false) :
    ((u.edit i fun item => { item with writing := true }).await (.write i s offset data)).Kinded where
  queue := h.queue
  folderQueue := h.folderQueue
  waiting := h.waiting
  tasks t ht := by
    rcases mem_append.mp ht with hmem | hmem
    · exact h.tasks t hmem
    · obtain rfl := mem_singleton.mp hmem
      exact hi
  lookUps := h.lookUps
  writes j := by
    have hcount := h.writes j
    by_cases hj : i = j
    · subst hj
      rw [hw] at hcount
      simpa [Upload.await, Upload.edit, countP_append, Task.writesTo] using hcount
    · simpa [Upload.await, Upload.edit, countP_append, Task.writesTo, hj, Ne.symm hj]
        using hcount
  folders := h.countP_isFolders rfl

theorem Kinded.endWrite (hw : ∀ t ∈ u.tasks, t.writesTo i = false) :
    (u.edit i fun item => { item with writing := false }).Kinded := by
  refine { h with writes := fun j => ?_ }
  by_cases hj : j = i
  · subst hj
    have hnone : u.tasks.countP (Task.writesTo j) = 0 := by
      simpa [countP_eq_zero] using hw
    exact hnone ▸ Nat.zero_le _
  · simpa [Upload.edit, hj] using h.writes j

theorem Kinded.writes_erase (ht : t ∈ u.tasks) (hi : t.writesTo i) :
    ∀ t' ∈ u.tasks.erase t, t'.writesTo i = false := by
  have hone : u.tasks.countP (Task.writesTo i) ≤ 1 := (h.writes i).trans (Bool.toNat_le _)
  have hnone : (u.tasks.erase t).countP (Task.writesTo i) = 0 := by
    rw [countP_erase, if_pos ⟨ht, hi⟩]
    omega
  simpa [countP_eq_zero] using hnone

/-- A turn of `createFolders` under way is the only one. -/
theorem Kinded.folders_erase (ht : t ∈ u.tasks) (hf : t.isFolders) :
    u.creatingFolders = true ∧ ∀ t' ∈ u.tasks.erase t, t'.isFolders = false := by
  have hpos : 0 < u.tasks.countP Task.isFolders := countP_pos_iff.mpr ⟨t, ht, hf⟩
  have hle := h.folders
  have hnone : (u.tasks.erase t).countP Task.isFolders = 0 := by
    have hone : u.creatingFolders.toNat ≤ 1 := Bool.toNat_le _
    rw [countP_erase, if_pos ⟨ht, hf⟩]
    omega
  constructor
  · cases hc : u.creatingFolders with
    | true => rfl
    | false =>
      rw [hc] at hle
      exact absurd hle (by simpa using hpos)
  · simpa [countP_eq_zero] using hnone

theorem Kinded.isFolders (hc : u.creatingFolders = false) : ∀ t ∈ u.tasks, t.isFolders = false := by
  have hle := h.folders
  rw [hc] at hle
  simpa [countP_eq_zero] using hle

end

end Upload

section

variable (h : u.Kinded)
include h

theorem Upload.Kinded.move (hm : Move u u') : u'.Kinded := by
  cases hm with
  | aside | record | number | release | reach => exact { h with }
  | lookUps l hl => exact { h with lookUps := hl }
  | await t ht hw hf => exact h.await ht hw (h.countP_isFolders hf)
  | note i f hf => exact h.edit (hf.writing _)
  | keepBoth | noteSkipped => exact h.edit rfl
  | stop i state => exact h.setState i state
  | restart i => exact h.addAcked i _
  | endWrite i hw => exact h.endWrite hw
  | enqueue i hi => exact h.enqueue hi
  | queueAgain i hi => exact (h.setState i .queued).enqueue (by rwa [setState_tree])
  | rebuild => exact h.rebuildQueues
  | shift i rest hq =>
    exact { h with queue := fun j hj => h.queue j (hq ▸ mem_cons_of_mem i hj) }

theorem Upload.Kinded.moves (hm : Moves u u') : u'.Kinded := by
  induction hm with
  | refl => exact h
  | tail _ hmove ih => exact ih.move hmove

theorem Upload.Kinded.turn (ht : Turn u u') : u'.Kinded := by
  cases ht with
  | move hm => exact h.move hm
  | folders creating hn =>
    refine { h with folders := ?_ }
    have hnone : u.tasks.countP Task.isFolders = 0 := by simpa [countP_eq_zero] using hn
    exact hnone ▸ Nat.zero_le _
  | takeBatch held hc hn => exact h.takeBatch held hc hn
  | callFolders t ht hf hc hn =>
    have hrecorded : { u with calls := u.calls ++ [t] }.Kinded := { h with queue := h.queue }
    refine hrecorded.await ht (fun i => ?_) (countP_isFolders_le hc hn t)
    cases t with
    | write => cases hf
    | _ => rfl
  | placeFolder i path outcome =>
    have hnoted : (u.edit i fun item =>
        { item with path := some path, outcome := some outcome }).Kinded := h.edit rfl
    exact (hnoted.setState i .placed).enqueueReady i
  | nameFolder => exact h.edit rfl
  | pushFolder i hi => exact h.pushFolder hi
  | failEnded i => exact h.setState i .failed
  | queueEnded i hi => exact (h.setState i .queued).enqueue (by rwa [setState_tree])

theorem Upload.Kinded.act (ha : Act u u') : u'.Kinded := by
  cases ha with
  | move hm => exact h.move hm
  | startWrite i s offset data hi _ hw => exact h.startWrite hi hw
  | acknowledge i n => exact h.addAcked i n
  | placeOver i temp target hi =>
    have hrecorded : { u with
        calls := u.calls ++ [Task.placing i temp target .replace] }.Kinded :=
      { h with queue := h.queue }
    exact hrecorded.await hi (fun _ => by rfl) (hrecorded.countP_isFolders (by rfl))
  | resize i size mtime => exact h.resize i size mtime
  | resolve => exact h.edit rfl
  | noteAnswer i action =>
    have hnoted : { u with
        answers := u.answers ++ [(i, action, (u.items i).typeClash)] }.Kinded :=
      { h with queue := h.queue }
    exact hnoted.edit (i := i) rfl

theorem Upload.Kinded.pass (hp : Pass u u') : u'.Kinded := by
  cases hp with
  | move hm => exact h.move hm
  | takes i rest hq =>
    exact { h with queue := fun j hj => h.queue j (hq ▸ mem_cons_of_mem i hj) }
  | admits i => exact h.setState i .sending

theorem Upload.Kinded.changes (hc : Changes u u') : u'.Kinded := by
  induction hc with
  | refl => exact h
  | tail _ hchange ih =>
    cases hchange with
    | act ha => exact ih.act ha
    | turn ht => exact ih.turn ht
    | pass hp => exact ih.pass hp
    | shed _ _ _ _ hq hf hw ht => exact ih.shed hq hf hw ht
    | source | forget => exact { ih with queue := ih.queue }

theorem Upload.Kinded.acts (ha : Acts u u') : u'.Kinded :=
  h.changes ha.changes

theorem Upload.Kinded.passes (hp : Passes u u') : u'.Kinded :=
  h.changes hp.changes

end

end Lasterm.Transfer.Uploads
