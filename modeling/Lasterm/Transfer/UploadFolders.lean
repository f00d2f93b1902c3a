import Lasterm.Transfer.UploadFileSteps

/-!
# A folder's end is final

`createFolders` takes its folders off a queue of those whose own folder is in place, and waits for
the host with them (`transfers/transfer-service.ts`).  What the host says of a folder that is to be
kept beside what has its name it takes without asking what the folder is at by then.  It is never
placed or skipped by then, as the folder it is in is in place, and a skip stops there.

## Main results

* `Upload.Pending.next`, `ended_folder_next` — every step that takes up no folder that has ended
  keeps that, and the states of the folders that have ended.
-/

namespace Lasterm.Transfer.Uploads

open Transition Relation List Upload Option

namespace Upload

variable {u v : Upload} {i : ℕ}

/-- What is in the folder queue has its folder in place. -/
def Ready (u : Upload) : Prop := ∀ i ∈ u.folderQueue, u.parentReady i = true

theorem parentReady_iff : u.parentReady i = true ↔
    ∀ p, u.tree.parent i = some p → (u.items p).state = .placed := by
  unfold parentReady
  cases hp : u.tree.parent i with
  | none | some => simp

theorem parentReady_congr (htree : v.tree = u.tree) (hitems : v.items = u.items) :
    v.parentReady i = u.parentReady i := by
  unfold parentReady
  rw [htree, hitems]

theorem Ready.enqueue (h : u.Ready) (i : ℕ) : (u.enqueue i).Ready := by
  intro j hj
  have hready : (u.enqueue i).parentReady j = u.parentReady j := by
    obtain ⟨_, _, _, hshape⟩ := enqueue_shape u i
    rw [hshape]
    rfl
  rw [hready]
  unfold Upload.enqueue at hj
  split at hj
  · next hi =>
    split at hj
    · obtain hj | hj := mem_append.mp hj
      · exact h j hj
      · obtain rfl := mem_singleton.mp hj
        exact hi
    · exact h j hj
  · split at hj <;> exact h j hj

end Upload

/-- Folders that have ended stay so, what is in the folder queue has its folder in place if it
had, and `createFolders` waits for nothing new. -/
structure Lasts (u v : Upload) : Prop where
  tree : v.tree = u.tree
  ended : ∀ i, u.tree.IsDir i → (u.items i).ended → (v.items i).state = (u.items i).state
  queue : u.Ready → v.Ready
  tasks : ∀ t ∈ v.tasks, t.isFolders = true → t ∈ u.tasks

namespace Lasts

variable {u v w : Upload} {i : ℕ}

theorem refl (u : Upload) : Lasts u u := ⟨rfl, fun _ _ _ => rfl, id, fun _ ht _ => ht⟩

theorem trans (h : Lasts u v) (h' : Lasts v w) : Lasts u w where
  tree := h'.tree.trans h.tree
  ended i hi hend := by
    have hstate := h.ended i hi hend
    refine (h'.ended i (h.tree ▸ hi) ?_).trans hstate
    unfold Item.ended
    rw [hstate]
    exact hend
  queue := h'.queue ∘ h.queue
  tasks t ht hf := h.tasks t (h'.tasks t ht hf) hf

theorem parentReady (h : Lasts u v) (hi : u.parentReady i = true) : v.parentReady i = true := by
  rw [parentReady_iff] at hi ⊢
  intro p hp
  rw [h.tree] at hp
  exact (h.ended p (UploadTree.parent_spec hp).1 (.inl (hi p hp))).trans (hi p hp)

theorem states (htree : v.tree = u.tree)
    (hended : ∀ i, u.tree.IsDir i → (u.items i).ended → (v.items i).state = (u.items i).state)
    (hqueue : v.folderQueue = u.folderQueue)
    (htasks : ∀ t ∈ v.tasks, t.isFolders = true → t ∈ u.tasks) : Lasts u v where
  tree := htree
  ended := hended
  queue hready i hi := by
    rw [hqueue] at hi
    have hparent := hready i hi
    rw [parentReady_iff] at hparent ⊢
    intro p hp
    rw [htree] at hp
    exact (hended p (UploadTree.parent_spec hp).1 (.inl (hparent p hp))).trans (hparent p hp)
  tasks := htasks

theorem edit {f : Item → Item} (hf : (f (u.items i)).state = (u.items i).state) :
    Lasts u (u.edit i f) := by
  refine states rfl (fun j _ _ => ?_) rfl fun _ ht _ => ht
  rw [edit_items]
  split
  · next hj => rw [hj, hf]
  · rfl

theorem setState {state : ItemState} (hd : u.tree.IsDir i → ¬(u.items i).ended) :
    Lasts u (u.setState i state) := by
  obtain ⟨_, _, _, hshape⟩ := setState_shape u i state
  rw [hshape]
  refine states rfl (fun j hj hend => ?_) rfl fun _ ht _ => ht
  have hji : j ≠ i := by
    rintro rfl
    exact hd hj hend
  rw [edit_items, if_neg hji]

theorem enqueue (u : Upload) (i : ℕ) : Lasts u (u.enqueue i) where
  tree := enqueue_tree
  ended j _ _ := by
    obtain ⟨_, _, _, hshape⟩ := enqueue_shape u i
    rw [hshape]
  queue h := h.enqueue i
  tasks t ht _ := by
    obtain ⟨_, _, _, hshape⟩ := enqueue_shape u i
    rw [hshape] at ht
    exact ht

theorem enqueueQueued (u : Upload) (ids : List ℕ) : Lasts u (u.enqueueQueued ids) := by
  refine foldlRecOn (motive := Lasts u) ids _ (refl u) fun w hw i _ => ?_
  split
  · exact hw.trans (enqueue w i)
  · exact hw

theorem addAcked (u : Upload) (i : ℕ) (delta : ℤ) : Lasts u (u.addAcked i delta) := by
  obtain ⟨_, _, hshape⟩ := addAcked_shape u i delta
  rw [hshape]
  exact edit (u := u) (f := fun item => { item with acked := item.acked + delta }) rfl |>.trans
    ⟨rfl, fun _ _ _ => rfl, id, fun _ ht _ => ht⟩

theorem move (hm : Move u v) : Lasts u v := by
  cases hm with
  | await t _ _ hf =>
    refine ⟨rfl, fun _ _ _ => rfl, id, fun t' ht' hf' => ?_⟩
    obtain ht' | ht' := mem_append.mp ht'
    · exact ht'
    · obtain rfl := mem_singleton.mp ht'
      rw [hf] at hf'
      exact absurd hf' Bool.false_ne_true
  | note i f hf => exact edit (hf.state _)
  | noteSkipped | keepBoth | endWrite => exact edit rfl
  | stop i state _ _ _ hd => exact setState hd
  | restart i => exact addAcked u i _
  | enqueue i => exact enqueue u i
  | queueAgain i _ hd => exact (setState hd).trans (enqueue _ i)
  | rebuild =>
    have hempty : Lasts u { u with
        stale := false, queue := [], folderQueue := [], waiting := fun _ => [] } :=
      ⟨rfl, fun _ _ _ => rfl, fun _ => nofun, fun _ ht _ => ht⟩
    exact hempty.trans (enqueueQueued _ _)
  | _ => exact ⟨rfl, fun _ _ _ => rfl, id, fun _ ht _ => ht⟩

theorem moves (hm : Moves u v) : Lasts u v := by
  induction hm with
  | refl => exact refl u
  | tail _ hmove ih => exact ih.trans (move hmove)

theorem act (ha : Act u v) : Lasts u v := by
  cases ha with
  | move hm => exact move hm
  | startWrite i s offset data =>
    have hwriting : Lasts u (u.edit i fun item => { item with writing := true }) := edit rfl
    refine hwriting.trans ⟨rfl, fun _ _ _ => rfl, id, fun t ht hf => ?_⟩
    obtain ht | ht := mem_append.mp ht
    · exact ht
    · obtain rfl := mem_singleton.mp ht
      cases hf
  | acknowledge i n => exact addAcked u i n
  | placeOver i temp target =>
    refine ⟨rfl, fun _ _ _ => rfl, id, fun t ht hf => ?_⟩
    obtain ht | ht := mem_append.mp ht
    · exact ht
    · obtain rfl := mem_singleton.mp ht
      cases hf
  | resize i size mtime =>
    obtain ⟨_, _, hshape⟩ := resize_shape u i size mtime
    rw [hshape]
    exact edit (u := u) (f := fun item => { item with size, mtime, verification := none }) rfl
      |>.trans ⟨rfl, fun _ _ _ => rfl, id, fun _ ht _ => ht⟩
  | resolve => exact edit rfl
  | noteAnswer i action =>
    exact edit (u := u) (f := fun item => { item with resolution := some action }) rfl |>.trans
      ⟨rfl, fun _ _ _ => rfl, id, fun _ ht _ => ht⟩

theorem acts (ha : Acts u v) : Lasts u v := by
  induction ha with
  | refl => exact refl u
  | tail _ hact ih => exact ih.trans (act hact)

theorem passes (hp : Passes u v) : Lasts u v := by
  induction hp with
  | refl => exact refl u
  | tail _ hpass ih =>
    refine ih.trans ?_
    cases hpass with
    | move hm => exact move hm
    | takes => exact ⟨rfl, fun _ _ _ => rfl, id, fun _ ht _ => ht⟩
    | admits i hi => exact setState fun hdir => absurd hdir hi.not_isDir

/-! ### What `createFolders` does -/

theorem folderPlaced (hd : ¬(u.items i).ended) (path : HostPath) (outcome : Outcome) :
    Lasts u (u.folderPlaced i path outcome) := by
  let noted := u.edit i fun item => { item with path := some path, outcome := some outcome }
  have hnoted : Lasts u noted := edit rfl
  have hplaced : Lasts noted (noted.setState i .placed) := by
    refine setState fun _ => ?_
    simpa [noted, Upload.edit, Item.ended] using hd
  have hwaits : Lasts (noted.setState i .placed) { noted.setState i .placed with
      waiting := Function.update (noted.setState i .placed).waiting i [] } :=
    ⟨rfl, fun _ _ _ => rfl, id, fun _ ht _ => ht⟩
  exact ((hnoted.trans hplaced).trans hwaits).trans (enqueueQueued _ _)

theorem folderClash (hi : u.tree.IsDir i) (hd : ¬(u.items i).ended) (hready : u.parentReady i = true)
    (existing : Option FileEntry) : Lasts u (u.folderClash i existing) := by
  let found := u.edit i fun item => { item with existing, typeClash := true, late := true }
  have hfound : Lasts u found := edit rfl
  have hopen : ¬(found.items i).ended := by
    simpa [found, Upload.edit, Item.ended] using hd
  unfold Upload.folderClash
  dsimp only
  split
  · exact hfound.trans (moves (Moves.skip _ .refl hi.1 fun _ => hopen))
  · have hresolved : Lasts found (found.edit i fun item =>
        { item with resolution := some .keepBoth }) := edit rfl
    refine (hfound.trans hresolved).trans ⟨rfl, fun _ _ _ => rfl, fun h j hj => ?_, fun _ ht _ => ht⟩
    obtain hj | hj := mem_append.mp hj
    · exact h j hj
    · obtain rfl := mem_singleton.mp hj
      exact (hfound.trans hresolved).parentReady hready
  · exact hfound.trans (setState fun _ => hopen)
  · exact hfound.trans (setState fun _ => hopen)

theorem folderResult (hi : u.tree.IsDir i) (hready : u.parentReady i = true) (path : HostPath)
    (result : FolderResult) : Lasts u (u.folderResult i path result) := by
  unfold Upload.folderResult
  split
  · next hq =>
    have hopen : ¬(u.items i).ended := by simp [Item.ended, hq]
    cases result with
    | created => exact folderPlaced hopen path .created
    | merged => exact folderPlaced hopen path .merged
    | clash existing => exact folderClash hi hopen hready existing
    | failed => exact moves (Moves.failSubtree _ .refl hi.1 fun _ => hopen)
  · exact refl u

end Lasts

/-! ### What `createFolders` waits with -/

/-- Neither ended nor to be asked about. -/
def Item.pending (item : Item) : Prop := ¬item.ended ∧ item.state ≠ .conflict

/-- The folders `createFolders` waits with have theirs in place; the one it keeps both is
pending. -/
def Task.Pending (u : Upload) : Task → Prop
  | .foldersBackend batch _ _ | .mkdirs batch _ _ => ∀ i ∈ batch, u.parentReady i = true
  | .keepBothFolder i _ _ rest =>
    (u.parentReady i = true ∧ (u.items i).pending) ∧ ∀ j ∈ rest, u.parentReady j = true
  | _ => True

/-- The folder queue, and what `createFolders` waits with. -/
structure Upload.Pending (u : Upload) : Prop where
  ready : u.Ready
  tasks : ∀ t ∈ u.tasks, t.Pending u

variable {t : Task}

theorem Task.pending_of_not_folders {u : Upload} (h : t.isFolders = false) : t.Pending u := by
  cases t with
  | foldersBackend | mkdirs | keepBothFolder => cases h
  | _ => trivial

/-- `createFolders` goes on: the folders that have ended stay so. -/
structure Proceeds (u v : Upload) : Prop where
  tree : v.tree = u.tree
  ended : ∀ i, u.tree.IsDir i → (u.items i).ended → (v.items i).state = (u.items i).state
  pending : v.Pending

variable {a : Answer} {random : String}

namespace Proceeds

variable {u v w : Upload} {i : ℕ}

theorem of_lasts (h : Lasts u v) (h' : Proceeds v w) : Proceeds u w where
  tree := h'.tree.trans h.tree
  ended i hi hend := by
    have hstate := h.ended i hi hend
    refine (h'.ended i (h.tree ▸ hi) ?_).trans hstate
    unfold Item.ended
    rw [hstate]
    exact hend
  pending := h'.pending

theorem await (hready : u.Ready) (hn : ∀ t ∈ u.tasks, t.isFolders = false)
    (ht : t.Pending u) (htasks : v.tasks = u.tasks ++ [t]) (htree : v.tree = u.tree)
    (hitems : v.items = u.items) (hqueue : v.folderQueue ⊆ u.folderQueue) : Proceeds u v where
  tree := htree
  ended i _ _ := by rw [hitems]
  pending := by
    have hparent : ∀ i, v.parentReady i = u.parentReady i := fun i =>
      parentReady_congr htree hitems
    refine ⟨fun i hi => (hparent i).trans (hready i (hqueue hi)), fun t' ht' => ?_⟩
    rw [htasks] at ht'
    obtain ht' | ht' := mem_append.mp ht'
    · exact Task.pending_of_not_folders (hn t' ht')
    · obtain rfl := mem_singleton.mp ht'
      cases t' with
      | foldersBackend | mkdirs => exact fun i hi => (hparent i).trans (ht i hi)
      | keepBothFolder i n path rest =>
        obtain ⟨⟨hi, hpending⟩, hrest⟩ := ht
        refine ⟨⟨(hparent i).trans hi, ?_⟩, fun j hj => (hparent j).trans (hrest j hj)⟩
        rw [hitems]
        exact hpending
      | _ => trivial

theorem foldersLoop (hready : u.Ready) (hn : ∀ t ∈ u.tasks, t.isFolders = false) :
    Proceeds u u.foldersLoop := by
  unfold Upload.foldersLoop
  split
  · exact ⟨rfl, fun _ _ _ => rfl, hready, fun t ht => Task.pending_of_not_folders (hn t ht)⟩
  · have hbatch : ∀ held, Task.Pending u (.foldersBackend
        ((u.folderQueue.take folderBatch).filter fun i => (u.items i).state = .queued)
        (((u.folderQueue.take folderBatch).filter fun i =>
          (u.items i).state = .queued).filter fun i => (u.items i).resolution ≠ some .keepBoth)
        held) := fun held i hi => hready i (mem_of_mem_take (mem_of_mem_filter hi))
    unfold awaitBackend backendOf
    split
    · split <;> exact await hready hn (hbatch _) rfl rfl rfl (drop_subset _ _)
    · exact await hready hn (hbatch _) rfl rfl rfl (drop_subset _ _)

theorem keepBothFolder (hready : u.Ready) (hn : ∀ t ∈ u.tasks, t.isFolders = false) {n : ℕ}
    {rest : List ℕ} (hi : u.parentReady i = true ∧ (u.items i).pending)
    (hrest : ∀ j ∈ rest, u.parentReady j = true) : Proceeds u (u.keepBothFolder i n rest) :=
  await hready hn (t := .keepBothFolder i n _ rest) ⟨hi, hrest⟩ rfl rfl rfl (Subset.refl _)

theorem keepBothFolders (hready : u.Ready) (hn : ∀ t ∈ u.tasks, t.isFolders = false)
    {rest : List ℕ} (hrest : ∀ j ∈ rest, u.parentReady j = true) :
    Proceeds u (u.keepBothFolders rest) := by
  induction rest with
  | nil => exact foldersLoop hready hn
  | cons i rest ih =>
    obtain ⟨hi, hrest⟩ := forall_mem_cons.mp hrest
    unfold Upload.keepBothFolders
    split
    · next hq => exact keepBothFolder hready hn ⟨hi, by simp [Item.pending, Item.ended, hq]⟩ hrest
    · exact ih hrest

/-- A folder is done with, and `createFolders` goes on with the rest. -/
theorem rest (h : Lasts u v) (hready : u.Ready) (hn : ∀ t ∈ u.tasks, t.isFolders = false)
    {rest : List ℕ} (hrest : ∀ j ∈ rest, u.parentReady j = true) :
    Proceeds u (v.keepBothFolders rest) := by
  refine of_lasts h (keepBothFolders (h.queue hready) (fun t ht => ?_) fun j hj =>
    h.parentReady (hrest j hj))
  by_contra hf
  have hf : t.isFolders = true := by simpa using hf
  rw [hn t (h.tasks t ht hf)] at hf
  exact Bool.false_ne_true hf

theorem foldersMade (hready : u.Ready) (hn : ∀ t ∈ u.tasks, t.isFolders = false)
    {batch plain : List ℕ} (hdirs : ∀ i ∈ batch, u.tree.IsDir i) (hplain : plain ⊆ batch)
    (hbatch : ∀ i ∈ batch, u.parentReady i = true) (paths : List HostPath)
    (results : List FolderResult) : Proceeds u (u.foldersMade batch plain paths results) := by
  refine rest (foldlRecOn (motive := Lasts u) _ _ (Lasts.refl u) fun w hw made hmade => ?_)
    hready hn fun j hj => hbatch j (mem_of_mem_filter hj)
  have hmem := hplain (of_mem_zip hmade).1
  exact hw.trans (Lasts.folderResult (hw.tree ▸ hdirs _ hmem) (hw.parentReady (hbatch _ hmem))
    made.2.1 made.2.2)

theorem keepBothAnswered (hready : u.Ready) (hn : ∀ t ∈ u.tasks, t.isFolders = false)
    (hdir : u.tree.IsDir i) {n : ℕ} {path : HostPath} {rest : List ℕ}
    (ht : Task.Pending u (.keepBothFolder i n path rest)) (result : FolderResult) :
    Proceeds u (u.keepBothAnswered i n path rest result) := by
  obtain ⟨⟨hi, hpending⟩, hrest⟩ := ht
  have hfailed : Proceeds u ((failSubtree u.tree.size u i).keepBothFolders rest) :=
    Proceeds.rest (Lasts.moves (Moves.failSubtree _ .refl hdir.1 fun _ => hpending.1)) hready hn hrest
  have hnext : Proceeds u (if n < keepBothTries then u.keepBothFolder i (n + 1) rest
      else (failSubtree u.tree.size u i).keepBothFolders rest) := by
    split
    · exact keepBothFolder hready hn ⟨hi, hpending⟩ hrest
    · exact hfailed
  cases result with
  | created =>
    let named := u.edit i fun item =>
      { item with finalName := some (keepBothName (u.tree.name i) n .dir) }
    have hnamed : Lasts u named := Lasts.edit rfl
    have hopen : ¬(named.items i).ended := by
      simpa [named, edit, Item.ended] using hpending.1
    exact Proceeds.rest (hnamed.trans (Lasts.folderPlaced hopen path .keptBoth)) hready hn hrest
  | failed => exact hfailed
  | merged | clash => exact hnext

/-- The catch of `createFolders`. -/
theorem foldersFailed (hn : ∀ t ∈ u.tasks, t.isFolders = false)
    (hqueue : ∀ i ∈ u.folderQueue, i < u.tree.size) (interruption : Bool) :
    Proceeds u (u.foldersFailed interruption) := by
  obtain ⟨v, hm, heq⟩ := Moves.foldersFailed hqueue interruption
  have hlasts : Lasts u v := by
    have hempty : Lasts u { u with folderQueue := [] } :=
      ⟨rfl, fun _ _ _ => rfl, fun _ => nofun, fun _ ht _ => ht⟩
    exact hempty.trans (Lasts.moves hm)
  have hready : v.Ready := (Lasts.moves hm).queue nofun
  rw [heq]
  refine ⟨hlasts.tree, hlasts.ended, hready, fun t ht => Task.pending_of_not_folders ?_⟩
  by_contra hf
  have hf : t.isFolders = true := by simpa using hf
  rw [hn t (hlasts.tasks t ht hf)] at hf
  exact Bool.false_ne_true hf

/-- What follows an await of `createFolders`; `u` is the upload with the task taken off. -/
theorem answer (hready : u.Ready) (hn : ∀ t ∈ u.tasks, t.isFolders = false)
    (hqueue : ∀ i ∈ u.folderQueue, i < u.tree.size)
    (ht : t.Names u.tree) (hp : t.Pending u) (hf : t.isFolders = true)
    (hw : u.answer random t a = some w) : Proceeds u w := by
  cases FoldersGo.of_answer hf hw with
  | threw k => exact foldersFailed hn hqueue k
  | reached hv =>
    have hlasts := Lasts.moves hv.moves
    exact of_lasts hlasts (await (t := .mkdirs _ _ _) (hlasts.queue hready)
      (hv.moves.isFolders hn) (fun i hi => hlasts.parentReady (hp i hi)) rfl rfl rfl
      (Subset.refl _))
  | made => exact foldersMade hready hn ht.1 ht.2.1 hp _ _
  | keptBoth => exact keepBothAnswered hready hn ht.1 hp _

end Proceeds

/-! ### What else happens to a folder -/

/-- From one state to another without an end and without a conflict. -/
def Lingers (a b : ItemState) : Prop := b = a ∨ b ≠ .placed ∧ b ≠ .skipped ∧ b ≠ .conflict

namespace Lingers

variable {a b c : ItemState} {u v : Upload} {i : ℕ}

theorem refl (a : ItemState) : Lingers a a := .inl rfl

theorem trans (h : Lingers a b) (h' : Lingers b c) : Lingers a c := by
  obtain rfl | h' := h'
  · exact h
  · exact .inr h'

theorem of_keeps (h : ∀ state, state = .placed ∨ state = .skipped ∨ state = .conflict →
    b = state → a = state) : Lingers a b := by
  by_cases hb : b = .placed ∨ b = .skipped ∨ b = .conflict
  · exact .inl (h b hb rfl).symm
  · simp only [not_or] at hb
    exact .inr hb

theorem pending {item item' : Item} (h : Lingers item.state item'.state) (hp : item.pending) :
    item'.pending := by
  obtain ⟨hend, hc⟩ := hp
  unfold Item.pending Item.ended at *
  obtain h | ⟨hplaced, hskipped, hconflict⟩ := h
  · rw [h]
    exact ⟨hend, hc⟩
  · exact ⟨fun hend' => hend'.elim hplaced hskipped, hconflict⟩

theorem of_befalls {v v' : FileView} (h : Befalls i False True v v') :
    Lingers v.item.state v'.item.state := by
  cases h with
  | number | receive => exact refl _
  | interrupt =>
    rw [v.interrupt_state i]
    exact .inr (by decide)
  | stop =>
    rw [v.stopItem_state i]
    exact .inr (by decide)
  | drop =>
    rw [v.dropItem_state i]
    split
    · exact .inr (by decide)
    · exact refl _
  | fail => exact .inr ⟨nofun, nofun, nofun⟩
  | skip h | resolve h | queue h | place h | admits h | look h | restart h => exact h.elim

theorem of_happens (h : Happens i False True u v) : Lingers (u.items i).state (v.items i).state := by
  suffices ∀ x y : FileView, ReflTransGen (Befalls i False True) x y →
      Lingers x.item.state y.item.state from this _ _ h
  intro x y hxy
  induction hxy with
  | refl => exact refl _
  | tail _ hb ih => exact ih.trans (of_befalls hb)

theorem requeueAll (u : Upload) (again : List ℕ) (i : ℕ) :
    Lingers (u.items i).state ((u.requeueAll again).items i).state := by
  refine of_keeps fun state hstate h => ?_
  have hne : state ≠ .queued ∧ state ≠ .verifying := by
    rcases hstate with rfl | rfl | rfl <;> decide
  have hloop : (((again.foldl requeueOne (u, [])).1).items i).state = state := by
    unfold Upload.requeueAll at h
    dsimp only at h
    split at h
    · unfold enqueueReadyTop at h
      rw [enqueueQueued_items] at h
      exact h
    · exact h
  refine foldlRecOn (motive := fun s : Upload × List ℕ =>
    (s.1.items i).state = state → (u.items i).state = state) again _ id ?_ hloop
  intro s ih k _ hs
  exact ih (requeueOne_state hne hs)

theorem stopItem (fuel : ℕ) (u : Upload) (k i : ℕ) :
    Lingers (u.items i).state ((stopItem fuel u k).items i).state := by
  induction fuel generalizing u k with
  | zero => exact refl _
  | succ fuel ih =>
    let stopped := (u.edit k fun item => { item with sink := none }).setState k .cancelled
    have hstopped : Lingers (u.items i).state (stopped.items i).state := by
      unfold stopped
      rw [setState_items]
      split
      · exact .inr ⟨by simp, by simp, by simp⟩
      · next hik =>
        rw [edit_items, if_neg hik]
        exact refl _
    cases hkind : u.tree.kind k with
    | dir =>
      rw [stopItem_dir fuel hkind]
      refine foldlRecOn (motive := fun w : Upload =>
        Lingers (u.items i).state (w.items i).state) _ _ hstopped fun w hw c _ => ?_
      split
      · exact hw.trans (ih w c)
      · exact hw
    | file =>
      rw [stopItem_file fuel hkind]
      dsimp only
      split <;> exact hstopped

end Lingers

/-- The folders that have ended stay so, and those whose own folder is in place stay pending. -/
structure Bides (u v : Upload) : Prop extends Lasts u v where
  pending : ∀ i, u.tree.IsDir i → u.parentReady i = true → (u.items i).pending →
    (v.items i).pending

namespace Bides

variable {u v w : Upload} {i : ℕ}

theorem trans (h : Bides u v) (h' : Bides v w) : Bides u w where
  toLasts := h.toLasts.trans h'.toLasts
  pending i hi hready hp :=
    h'.pending i (h.tree ▸ hi) (h.parentReady hready) (h.pending i hi hready hp)

theorem of_lingers (h : Lasts u v)
    (hl : ∀ i, u.tree.IsDir i → Lingers (u.items i).state (v.items i).state) : Bides u v where
  toLasts := h
  pending i hi _ hp := (hl i hi).pending hp

theorem skip_state (fuel : ℕ) {k : ℕ} (hik : i ≠ k) (hk : k < u.tree.size)
    (hend : ¬(u.items k).ended) (hready : u.parentReady i = true) :
    ((skip fuel u k).items i).state = (u.items i).state := by
  induction fuel generalizing u k with
  | zero => rfl
  | succ fuel ih =>
    cases hkind : u.tree.kind k with
    | file =>
      exact congrArg (fun v : FileView => v.item.state)
        (file_skip_ne (fuel + 1) hik hkind)
    | dir =>
      let skipped := (u.edit k fun item => { item with outcome := some .skipped }).setState k .skipped
      have hlasts : Lasts u skipped := by
        refine (Lasts.edit (f := fun item => { item with outcome := some .skipped }) rfl).trans
          (Lasts.setState fun _ => ?_)
        simpa [edit, Item.ended] using hend
      have hsame : (skipped.items i).state = (u.items i).state := by
        unfold skipped
        rw [setState_items, if_neg hik, edit_items, if_neg hik]
      rw [skip_dir fuel hkind]
      refine (foldlRecOn (motive := fun w : Upload => Lasts u w ∧
        (w.items i).state = (u.items i).state) _ _ ⟨hlasts, hsame⟩ ?_).2
      rintro w ⟨hw, hwstate⟩ c hc
      split
      · next hlive =>
        have hlt : c < w.tree.size := by
          rw [hw.tree]
          exact UploadTree.lt_size_of_mem_children hc
        have hopen : ¬(w.items c).ended := fun hend' => hend'.elim hlive.1 hlive.2
        have hic : i ≠ c := by
          rintro rfl
          -- the folder it is in would be both in place and skipped
          have hparent := (UploadTree.mem_children_iff.mp hc).2
          exact hend (.inl (parentReady_iff.mp hready k hparent))
        exact ⟨hw.trans (Lasts.moves (Moves.skip _ .refl hlt fun _ => hopen)),
          (ih hic hlt hopen (hw.parentReady hready)).trans hwstate⟩
      · exact ⟨hw, hwstate⟩

theorem resolve (u : Upload) (scope : Option ℕ) (action : Action) :
    Bides u (u.resolve scope action) := by
  refine ⟨Lasts.acts (Acts.resolve u scope action), fun i hi hready hp => ?_⟩
  refine (Acts.resolve_rec (P := fun v => Lasts u v ∧ (v.items i).pending) scope action
    ⟨Lasts.refl u, hp⟩ ?_).2
  rintro v k ⟨hv, hvp⟩ hk
  refine ⟨hv.trans (Lasts.acts (Acts.resolveItem .refl hk action)), ?_⟩
  unfold resolveItem
  split
  · exact hvp
  next hc =>
    have hc : (v.items k).state = .conflict := not_not.mp hc
    have hik : i ≠ k := by
      rintro rfl
      exact hvp.2 hc
    split
    · exact hvp
    split
    · have hopen : ¬(v.items k).ended := by simp [Item.ended, hc]
      have hstate := skip_state v.tree.size hik hk hopen (hv.parentReady hready)
      exact Lingers.pending (.inl hstate) hvp
    · have hfile : ((v.noteAnswer k action).requeue k).file i = v.file i :=
        (file_requeue_ne hik).trans (file_edit_ne hik)
      have hitem : ((v.noteAnswer k action).requeue k).items i = v.items i :=
        congrArg FileView.item hfile
      rw [hitem]
      exact hvp

theorem cancel (u : Upload) (scope : Option ℕ) : Bides u (u.cancel scope) := by
  refine of_lingers (Lasts.moves (Moves.cancel .refl scope)) fun i _ => ?_
  unfold Upload.cancel
  split
  · exact .refl _
  · refine foldlRecOn (motive := fun v : Upload =>
      Lingers (u.items i).state (v.items i).state) _ _ (.refl _) fun v hv k _ => ?_
    split
    · exact hv.trans (Lingers.stopItem _ v k i)
    · exact hv

theorem retry (u : Upload) (scope : Option ℕ) (isConnected : Bool) :
    Bides u (u.retry scope isConnected) := by
  refine of_lingers (Lasts.moves (Moves.retry .refl scope isConnected)) fun i _ => ?_
  unfold Upload.retry
  split
  · exact .refl _
  · dsimp only
    split
    · exact .refl _
    · split
      · exact Lingers.requeueAll u _ i
      · exact .refl _

theorem source (u : Upload) (source : Option String) : Bides u { u with source } :=
  of_lingers ⟨rfl, fun _ _ _ => rfl, id, fun _ ht _ => ht⟩ fun _ _ => .refl _

theorem join (u : Upload) (requester : String) : Bides u (u.join requester) := by
  refine (source u (some requester)).trans (of_lingers (Lasts.moves (Moves.join u requester))
    fun i _ => ?_)
  exact Lingers.requeueAll { u with source := some requester, linkDropped := false } _ i

/-- The file loop of `pump` is about files. -/
theorem pumpFiles (hk : u.Kinded) (room : ℕ) : Bides u (pumpFiles room u u.queue) := by
  refine of_lingers (Lasts.passes (Passes.pumpFiles room hk)) fun i hi => ?_
  refine (pumpFiles_rec (P := fun v => v.queue ⊆ u.queue ∧
    (v.items i).state = (u.items i).state) ?_ ?_ ?_ room rfl ⟨Subset.refl _, rfl⟩).2 ▸ .refl _
  · rintro v k rest ⟨hq, hv⟩ hqueue -
    rw [hqueue] at hq
    exact ⟨fun j hj => hq (mem_cons_of_mem _ hj), hv⟩
  · rintro v k rest ⟨hq, hv⟩ hqueue - -
    rw [hqueue] at hq
    have hik : i ≠ k := by
      rintro rfl
      exact (hk.queue i (hq mem_cons_self)).not_isDir hi
    refine ⟨fun j hj => ?_, ?_⟩
    · rw [place_queue] at hj
      exact hq (mem_cons_of_mem _ hj)
    · have hfile : ({ v with queue := rest }.place k).file i = v.file i := file_place_ne hik
      exact (congrArg (fun v : FileView => v.item.state) hfile).trans hv
  · rintro v k rest ⟨hq, hv⟩ hqueue - -
    rw [hqueue] at hq
    have hik : i ≠ k := by
      rintro rfl
      exact (hk.queue i (hq mem_cons_self)).not_isDir hi
    refine ⟨fun j hj => ?_, ?_⟩
    · rw [admitFile_queue] at hj
      exact hq (mem_cons_of_mem _ hj)
    · have hfile : ({ v with queue := rest }.admitFile k).file i = v.file i :=
        file_admitFile_ne hik
      exact (congrArg (fun v : FileView => v.item.state) hfile).trans hv

theorem of_happens (h : Lasts u v) (hv : ∀ i, u.tree.IsDir i → Happens i False True u v) : Bides u v :=
  of_lingers h fun i hi => Lingers.of_happens (hv i hi)

theorem drop (u : Upload) : Bides u u.drop := by
  have hitems : Lasts u ((range u.tree.size).foldl dropItem u) := by
    refine dropItems_rec (P := Lasts u) (Lasts.refl u) fun v k hv hk => ?_
    refine hv.trans (Lasts.trans ?_ (Lasts.moves (Moves.dropItem hk)))
    refine Lasts.states rfl (fun j _ hend => ?_) rfl fun _ ht _ => ht
    rw [edit_items]
    split
    · next hjk =>
      subst hjk
      have hsettled : (v.items j).state.unsettled = false := by
        rcases hend with hend | hend <;> rw [hend] <;> rfl
      simp [hsettled]
    · rfl
  refine of_happens ?_ fun i _ => (Happens.refl u).drop trivial
  exact hitems.trans ⟨rfl, fun _ _ _ => rfl, fun _ => nofun, fun _ ht _ => ht⟩

/-- From a window, a host or a timer, but for `pump`. -/
theorem perform {op : Op} (hop : ∀ room mayWrite, op ≠ .pump room mayWrite)
    (hw : u.perform op = some w) : Bides u w := by
  cases op with
  | resolve scope action =>
    cases hw
    exact resolve u scope action
  | retry scope isConnected =>
    cases hw
    exact retry u scope isConnected
  | cancel scope =>
    cases hw
    exact cancel u scope
  | join requester =>
    obtain ⟨-, ⟨rfl⟩⟩ := ite_none_right_eq_some.mp hw
    exact join u requester
  | takeUp requester files =>
    cases hw
    exact of_happens (Lasts.moves (Moves.takeUp .refl requester files))
      fun i _ => (Happens.refl u).takeUp requester files
  | receive requester k offset data =>
    cases hw
    exact of_happens (Lasts.moves (Moves.receive .refl requester k offset data))
      fun i _ => (Happens.refl u).receive requester k offset data
  | clientGone client =>
    cases hw
    refine of_happens ?_ fun i _ => (Happens.refl u).clientGone client
    obtain heq | ⟨-, hm⟩ := Moves.clientGone_cases u client
    · rw [heq]
      exact Lasts.refl u
    · exact (source u none).toLasts.trans (Lasts.moves hm)
  | interruptOn =>
    cases hw
    exact of_happens (Lasts.moves (Moves.interruptOn .refl)) fun i _ => (Happens.refl u).interruptOn
  | resumeDropped =>
    cases hw
    exact of_happens (Lasts.moves (Moves.resumeDropped .refl))
      fun i _ => (Happens.refl u).resumeDropped
  | pump room mayWrite => exact absurd rfl (hop room mayWrite)
  | flush sayDone =>
    cases hw
    exact of_happens (Lasts.moves (Moves.flush .refl sayDone))
      fun i _ => (Happens.refl u).flush sayDone
  | drop =>
    cases hw
    exact drop u
  | forget =>
    obtain ⟨-, ⟨rfl⟩⟩ := ite_none_right_eq_some.mp hw
    exact of_lingers ⟨rfl, fun _ _ _ => rfl, id, fun _ ht _ => ht⟩ fun _ _ => .refl _

/-! ### Answers -/

theorem isFile_of_takesUp (hk : u.Kinded)
    (hsome : t.file ≠ none) (h : i ∈ (Step.answer t a random).takesUp u) : u.tree.IsFile i := by
  have hlook : ∀ key j, i ∈ u.lookTakes key j → u.tree.IsFile i := by
    intro key j hmem
    unfold lookTakes at hmem
    split at hmem
    · cases hmem
    · next l hl =>
      refine hk.lookUps key l hl i ?_
      obtain hmem | hmem := mem_append.mp hmem <;> exact mem_of_find?_eq_some (mem_toList.mp hmem)
  cases t with
  | lookStat key j | lookTruncate key j | lookRemove key j => exact hlook key j h
  | foldersBackend | mkdirs | keepBothFolder | retryConnect | takeUpBackend | looked | lookFailed =>
    exact absurd rfl hsome
  | _ => cases h

theorem answerFile (hk : u.Kinded) (hi : u.tree.IsDir i)
    (ht : t.Names u.tree) (hsome : t.file ≠ none) (hw : u.answer random t a = some w) :
    Happens i False True u w := by
  by_cases hfile : t.file = some i
  · -- only what closes and removes may be of a folder
    have hsame : a = .done → u = w → Happens i False True u w := by
      rintro - rfl
      exact .refl u
    cases t with
    | aborting | removing =>
      cases a with
      | done => exact hsame rfl (some.inj hw)
      | _ => cases hw
    | foldersBackend | mkdirs | keepBothFolder | retryConnect | takeUpBackend | looked
    | lookFailed => cases hfile
    | _ =>
      cases hfile
      exact absurd hi (UploadTree.IsFile.not_isDir ht)
  · refine Happens.answerFile ht hsome hfile (fun hmem => ?_) hw
    exact absurd hi (isFile_of_takesUp hk hsome hmem).not_isDir

theorem takeUpReached (hi : u.tree.IsDir i) (requester : String) (files : List ResumeFile) :
    Happens i False True u (u.takeUpReached requester files) := by
  have hchanged : Happens i False True u (files.foldl changedFile u) ∧
      (files.foldl changedFile u).tree = u.tree := by
    refine foldlRecOn (motive := fun v : Upload => Happens i False True u v ∧ v.tree = u.tree)
      files _ ⟨.refl u, rfl⟩ ?_
    rintro v ⟨hv, htree⟩ f -
    refine ⟨hv.same ?_, (changedFile_tree v f).trans htree⟩
    by_cases hif : i = f.file
    · have hdir : v.tree.kind f.file = .dir := by
        rw [htree, ← hif]
        exact hi.2
      cases f with
      | skip | restart =>
        unfold changedFile
        dsimp only
        rw [if_neg fun hc => by simpa [hdir, ResumeFile.file] using hc.2.1.symm.trans hdir]
    · exact file_changedFile_ne hif
  obtain ⟨hchanged, htree⟩ := hchanged
  unfold Upload.takeUpReached
  dsimp only
  split
  · exact hchanged.await nofun
  · refine Happens.foldl (hchanged.number.same rfl) fun v hv k hk => ?_
    split
    · exact hv
    · refine hv.call fun heq => ?_
      obtain rfl : k = i := some.inj heq
      have hkept := mem_keptFiles.mp (mem_of_mem_take hk)
      rw [htree] at hkept
      exact hkept.1.not_isDir hi

/-- What follows an await that is not of `createFolders`. -/
theorem answer (hk : u.Kinded) (ht : t.Names u.tree)
    (hwrites : ∀ i, t.writesTo i → ∀ t' ∈ u.tasks, t'.writesTo i = false)
    (hf : t.isFolders = false)
    (hd : ∀ again, t = .retryConnect again → a = .done → ∀ i ∈ again, ¬(u.items i).ended)
    (hw : u.answer random t a = some w) : Bides u w := by
  by_cases hsome : t.file ≠ none
  · have hacts : Acts u w := by
      refine Acts.answer hk ht hwrites hf ?_ ?_ hw
      · rintro again rfl
        exact absurd rfl hsome
      · rintro requester rfl
        exact hsome rfl
    exact of_happens (Lasts.acts hacts) fun i hi => answerFile hk hi ht hsome hw
  · have hnone : t.file = none := not_not.mp hsome
    cases t with
    | retryConnect again =>
      cases a with
      | done =>
        cases hw
        exact of_lingers (Lasts.moves (Moves.requeueAll .refl ht fun i hi _ => hd again rfl rfl i hi))
          fun i _ => Lingers.requeueAll u again i
      | fault k =>
        cases hw
        exact of_lingers (Lasts.refl u) fun _ _ => .refl _
      | _ => cases hw
    | takeUpBackend requester files held =>
      have hreached := (answer_takeUpBackend ..).symm.trans hw
      refine of_happens (Lasts.acts (Acts.answer hk ht hwrites hf nofun nofun hw)) fun i hi => ?_
      refine Happens.onBackend (fun k _ => (Happens.refl u).takeUpFailed k)
        (fun _ v b hv hhappens => hhappens.trans ?_) hreached
      exact takeUpReached (hv.moves.tree ▸ hi) requester files
    | looked requester =>
      cases a with
      | done =>
        cases hw
        obtain ⟨hdropped, hm⟩ | ⟨hdropped, hm⟩ := Moves.takenUp_cases u requester
        · refine of_lingers (Lasts.moves hm) fun i _ => ?_
          unfold takenUp
          rw [hdropped]
          exact .refl _
        · refine (source u (some requester)).trans (of_lingers (Lasts.moves hm) fun i _ => ?_)
          unfold takenUp
          rw [if_neg (by simp [hdropped])]
          exact Lingers.requeueAll { u with busy := u.busy - 1, source := some requester } _ i
      | _ => cases hw
    | lookFailed k =>
      cases a with
      | done =>
        cases hw
        exact of_happens (Lasts.moves (Moves.takeUpFailed .refl k))
          fun i _ => (Happens.refl u).takeUpFailed k
      | _ => cases hw
    | foldersBackend | mkdirs | keepBothFolder => cases hf
    | _ => cases hnone

end Bides

/-! ### Every step -/

namespace Upload.Pending

variable {u v : Upload}

theorem bides (h : u.Pending) (hk : u.Kinded) (hb : Bides u v) : v.Pending := by
  refine ⟨hb.queue h.ready, fun t ht => ?_⟩
  cases hf : t.isFolders with
  | false => exact Task.pending_of_not_folders hf
  | true =>
    have hmem := hb.tasks t ht hf
    have hpending := h.tasks t hmem
    have hnames := hk.tasks t hmem
    cases t with
    | foldersBackend | mkdirs => exact fun i hi => hb.parentReady (hpending i hi)
    | keepBothFolder i n path rest =>
      obtain ⟨⟨hi, hitem⟩, hrest⟩ := hpending
      exact ⟨⟨hb.parentReady hi, hb.pending i hnames.1 hi hitem⟩,
        fun j hj => hb.parentReady (hrest j hj)⟩
    | _ => cases hf

theorem idle (ht : u.tasks = []) (hq : u.Ready) : u.Pending :=
  ⟨hq, fun t hmem => by simp [ht] at hmem⟩

end Upload.Pending

/-- `createFolders` is begun, and files are seen to. -/
theorem Proceeds.pump {u : Upload} (hk : u.Kinded) (hp : u.Pending) (room : ℕ) (mayWrite : Bool) :
    Proceeds u (u.pump room mayWrite) := by
  let made := if u.folderQueue ≠ [] ∧ u.creatingFolders = false then u.createFolders else u
  have hmade : Proceeds u made ∧ made.Kinded := by
    unfold made
    split
    · next hfolders =>
      have hn := hk.isFolders hfolders.2
      refine ⟨?_, hk.changes (Turns.createFolders hn).changes⟩
      have hbegun : Lasts u { u with creatingFolders := true, busy := u.busy + 1 } :=
        ⟨rfl, fun _ _ _ => rfl, id, fun _ ht _ => ht⟩
      exact .of_lasts hbegun (foldersLoop (u := { u with
        creatingFolders := true, busy := u.busy + 1 }) hp.ready hn)
    · exact ⟨⟨rfl, fun _ _ _ => rfl, hp⟩, hk⟩
  obtain ⟨hmade, hkmade⟩ := hmade
  have hfiles : Bides made (if made.source.isSome ∧ mayWrite then
      pumpFiles room made made.queue else made) := by
    split
    · exact Bides.pumpFiles hkmade room
    · exact .of_lingers (Lasts.refl made) fun _ _ => .refl _
  refine ⟨hfiles.tree.trans hmade.tree, fun i hi hend => ?_, hmade.pending.bides hkmade hfiles⟩
  have hstate := hmade.ended i hi hend
  refine (hfiles.ended i (hmade.tree ▸ hi) ?_).trans hstate
  unfold Item.ended
  rw [hstate]
  exact hend

/-- A calm step keeps what `createFolders` waits with, and the states of the folders that have
ended. -/
theorem folders_next {s s' : Service} {step : Step} (hk : s.upload.Kinded)
    (hp : s.upload.Pending) (hcalm : Calm s.upload step) (hrestart : step ≠ .restart)
    (h : next s step = some s') : Proceeds s.upload s'.upload := by
  have hbides : ∀ {v : Upload}, Bides s.upload v → Proceeds s.upload v := fun hb =>
    ⟨hb.tree, hb.ended, hp.bides hk hb⟩
  cases Stepped.of_next h with
  | work op u _ hu =>
    by_cases hop : ∃ room mayWrite, op = .pump room mayWrite
    · obtain ⟨room, mayWrite, rfl⟩ := hop
      cases hu
      exact Proceeds.pump hk hp room mayWrite
    · exact hbides (Bides.perform (fun room mayWrite heq => hop ⟨room, mayWrite, heq⟩) hu)
  | answer t a random u ht hu =>
    let erased := { s.upload with tasks := s.upload.tasks.erase t }
    have herased : Lasts s.upload erased :=
      ⟨rfl, fun _ _ _ => rfl, id, fun t' ht' _ => mem_of_mem_erase ht'⟩
    have hkerased : erased.Kinded := hk.changes (Changes.erase s.upload t)
    have hnames : t.Names erased.tree := hk.tasks t ht
    cases hf : t.isFolders with
    | true =>
      obtain ⟨hc, hn⟩ := hk.folders_erase ht hf
      have hpending : t.Pending erased := by
        have hp' := hp.tasks t ht
        cases t <;> exact hp'
      exact .of_lasts herased (Proceeds.answer (u := erased) hp.ready hn
        (fun i hi => (hk.folderQueue i hi).1) hnames hpending hf hu)
    | false =>
      refine hbides (Bides.trans (v := erased) (.of_lingers herased fun _ _ => .refl _) ?_)
      refine Bides.answer hkerased hnames (fun _ hi => hk.writes_erase ht hi) hf ?_ hu
      rintro again rfl rfl i hi
      exact (hcalm i hi).1
  | lost => exact hbides (.of_lingers ⟨rfl, fun _ _ _ => rfl, id, fun _ ht _ => ht⟩ fun _ _ => .refl _)
  | save => exact hbides (.of_lingers (Lasts.refl _) fun _ _ => .refl _)
  | discard => exact hbides (Bides.drop s.upload)
  | restart => exact absurd rfl hrestart

end Lasterm.Transfer.Uploads
