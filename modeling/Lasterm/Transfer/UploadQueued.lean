import Lasterm.Transfer.UploadWork

/-!
# Queued items are not forgotten

An item that is queued is to come to its turn (`transfers/transfer-service.ts`): it is in the queue
of files or of folders, it waits for the folder it is in, or `createFolders` is at it.

A batch that `createFolders` cannot create is in none of these any more.  What is left of the
folder queue fails, or is interrupted; the folders of the batch stay queued.

## Main definitions

* `Upload.Held` — every queued item is held; `KeepsBatch` — the steps that keep it so.

## Main results

* `held_of_keepsBatch` — in every run of such steps; `folder_forgotten` — another.
-/

namespace Lasterm.Transfer.Uploads

open Transition Relation List Upload Function

/-- The batch `createFolders` is at. -/
def Task.batch : Task → List ℕ
  | .foldersBackend batch _ _ | .mkdirs batch _ _ => batch
  | .keepBothFolder i _ _ rest => i :: rest
  | _ => []

/-- A queued item is in a queue, waits for its folder, or is in a batch being created. -/
def Upload.Held (u : Upload) (i : ℕ) : Prop :=
  i ∈ u.queue ∨ i ∈ u.folderQueue ∨
    (∃ p, u.tree.parent i = some p ∧ (u.items p).state ≠ .placed ∧ i ∈ u.waiting p) ∨
    ∃ t ∈ u.tasks, i ∈ t.batch

/-- What a turn of `createFolders` comes to when it goes well: of a batch those not to be kept
both, then those that are. -/
def Task.creates (items : ℕ → Item) : Task → ℕ → Prop
  | .foldersBackend batch plain _, i | .mkdirs batch plain _, i =>
    i ∈ plain ∨ i ∈ batch ∧ (items i).resolution = some .keepBoth
  | .keepBothFolder j _ _ rest, i => i = j ∨ i ∈ rest
  | _, _ => False

variable {t : Task} {i : ℕ}

theorem Task.creates_of_resolution {items items' : ℕ → Item}
    (hr : (items i).resolution = some .keepBoth → (items' i).resolution = some .keepBoth)
    (h : t.creates items i) : t.creates items' i := by
  cases t with
  | foldersBackend | mkdirs => exact h.imp id fun hb => ⟨hb.1, hr hb.2⟩
  | keepBothFolder => exact h
  | _ => exact h.elim

/-- What is created is a folder, and by a turn of `createFolders`. -/
theorem Task.creates_spec {tree : UploadTree} {items : ℕ → Item} (ht : t.Names tree)
    (h : t.creates items i) : tree.IsDir i ∧ t.isFolders = true := by
  cases t with
  | foldersBackend => exact ⟨h.elim (fun hp => ht.1 i (ht.2 hp)) fun hb => ht.1 i hb.1, rfl⟩
  | mkdirs => exact ⟨h.elim (fun hp => ht.1 i (ht.2.1 hp)) fun hb => ht.1 i hb.1, rfl⟩
  | keepBothFolder => exact ⟨h.elim (fun heq => heq ▸ ht.1) fun hr => ht.2 i hr, rfl⟩
  | _ => exact h.elim

theorem Task.mem_batch_of_creates {tree : UploadTree} {items : ℕ → Item} (ht : t.Names tree)
    (h : t.creates items i) : i ∈ t.batch := by
  cases t with
  | foldersBackend => exact h.elim (fun hp => ht.2 hp) fun hb => hb.1
  | mkdirs => exact h.elim (fun hp => ht.2.1 hp) fun hb => hb.1
  | keepBothFolder => exact mem_cons.mpr h
  | _ => exact h.elim

/-- Where a queued item waits for its turn. -/
inductive Upload.Waits (u : Upload) (i : ℕ) : Prop
  | queue (h : i ∈ u.queue)
  | folderQueue (h : i ∈ u.folderQueue)
  | waiting (p : ℕ) (hp : u.tree.parent i = some p) (hs : (u.items p).state ≠ .placed)
      (h : i ∈ u.waiting p)
  | creating (t : Task) (ht : t ∈ u.tasks) (h : t.creates u.items i)

/-- Every queued item waits somewhere, those of `c` apart; of a stale upload nothing is said. -/
def Upload.NoneStuck (c : ℕ → Prop) (u : Upload) : Prop :=
  u.stale = false → ∀ i < u.tree.size, (u.items i).state = .queued → c i ∨ u.Waits i

namespace Upload

variable {u v : Upload} {i j : ℕ} {c c' : ℕ → Prop}

/-! ### What keeps them waiting -/

section

variable (h : u.Waits i)
include h

theorem Waits.mono (htree : v.tree = u.tree) (hq : u.queue ⊆ v.queue)
    (hf : u.folderQueue ⊆ v.folderQueue) (hw : ∀ p, u.waiting p ⊆ v.waiting p)
    (ht : u.tasks ⊆ v.tasks)
    (hp : ∀ p, u.tree.IsDir p → (v.items p).state = .placed → (u.items p).state = .placed)
    (hr : (u.items i).resolution = some .keepBoth → (v.items i).resolution = some .keepBoth) :
    v.Waits i := by
  cases h with
  | queue h => exact .queue (hq h)
  | folderQueue h => exact .folderQueue (hf h)
  | waiting p hparent hs h =>
    exact .waiting p (htree ▸ hparent) (fun hplaced =>
      hs (hp p (UploadTree.parent_spec hparent).1 hplaced)) (hw p h)
  | creating t hmem h => exact .creating t (ht hmem) (Task.creates_of_resolution hr h)

theorem Waits.items {items : ℕ → Item} {folderTotals : ℕ → Totals}
    {totals : Totals} {folderStates : OrderedMap ItemState ℕ}
    (hp : ∀ p, u.tree.IsDir p → (items p).state = .placed → (u.items p).state = .placed)
    (hr : (u.items i).resolution = some .keepBoth → (items i).resolution = some .keepBoth) :
    Waits { u with items, folderTotals, totals, folderStates } i :=
  h.mono rfl (Subset.refl _) (Subset.refl _) (fun _ => Subset.refl _)
    (Subset.refl _) hp hr

theorem Waits.edit {f : Item → Item}
    (hs : (f (u.items j)).state = .placed → (u.items j).state = .placed)
    (hr : i = j → (u.items j).resolution = some .keepBoth →
      (f (u.items j)).resolution = some .keepBoth) : (u.edit j f).Waits i := by
  refine h.mono rfl (Subset.refl _) (Subset.refl _) (fun _ => Subset.refl _)
    (Subset.refl _) (fun p _ hplaced => ?_) fun hkeep => ?_
  · rw [edit_items] at hplaced
    split at hplaced
    · next hpj => exact hpj ▸ hs hplaced
    · exact hplaced
  · rw [edit_items]
    split
    · next hij => exact hr hij (hij ▸ hkeep)
    · exact hkeep

variable {state : ItemState}

theorem Waits.setState (hp : state = .placed → ¬u.tree.IsDir j) : (u.setState j state).Waits i := by
  have hkeeps : ∀ p, u.tree.IsDir p → ((u.setState j state).items p).state = .placed →
      (u.items p).state = .placed := by
    intro p hdir hplaced
    rw [setState_items] at hplaced
    split at hplaced
    · next hpj => exact absurd (hpj ▸ hdir) (hp hplaced)
    · exact hplaced
  have hresolution : ((u.setState j state).items i).resolution = (u.items i).resolution := by
    rw [setState_items]
    split
    · next hij => rw [hij]
    · rfl
  obtain ⟨_, _, _, hshape⟩ := setState_shape u j state
  rw [hshape] at hkeeps hresolution ⊢
  exact h.items hkeeps fun hkeep => hresolution.trans hkeep

theorem Waits.addAcked (delta : ℤ) : (u.addAcked j delta).Waits i := by
  obtain ⟨_, _, hshape⟩ := addAcked_shape u j delta
  rw [hshape]
  have hedit : (u.edit j fun item => { item with acked := item.acked + delta }).Waits i :=
    h.edit id fun _ => id
  exact hedit.items (fun _ _ => id) id

theorem Waits.resize (size : ℕ) (mtime : Option ℕ) : (u.resize j size mtime).Waits i := by
  obtain ⟨_, _, hshape⟩ := resize_shape u j size mtime
  rw [hshape]
  have hedit : (u.edit j fun item => { item with size, mtime, verification := none }).Waits i :=
    h.edit id fun _ => id
  exact hedit.items (fun _ _ => id) id

theorem Waits.await (t : Task) : (u.await t).Waits i :=
  h.mono rfl (Subset.refl _) (Subset.refl _) (fun _ => Subset.refl _)
    (subset_append_left _ _) (fun _ _ => id) id

end

theorem waits_enqueue (u : Upload) (i : ℕ) : (u.enqueue i).Waits i := by
  unfold enqueue
  split
  · split
    · exact .folderQueue (by simp)
    · exact .queue (by simp)
  · next hready =>
    split
    · next hparent => simp [parentReady, hparent] at hready
    · next p hparent =>
      refine .waiting p hparent ?_ (by simp)
      simpa [parentReady, hparent] using hready

theorem Waits.enqueue (h : u.Waits i) (j : ℕ) : (u.enqueue j).Waits i := by
  have hsame : ∀ l : List ℕ, l ⊆ l := Subset.refl
  unfold Upload.enqueue
  split
  · split
    · exact h.mono rfl (hsame _) (subset_append_left _ _) (fun _ => hsame _)
        (Subset.refl _) (fun _ _ => id) id
    · exact h.mono rfl (subset_append_left _ _) (hsame _) (fun _ => hsame _)
        (Subset.refl _) (fun _ _ => id) id
  · split
    · exact h
    · next p _ =>
      refine h.mono rfl (hsame _) (hsame _) (fun q => ?_) (Subset.refl _) (fun _ _ => id) id
      by_cases hq : q = p
      · subst hq
        simp
      · simp [update_of_ne hq]

theorem Waits.enqueueQueued (h : u.Waits i) (ids : List ℕ) : (u.enqueueQueued ids).Waits i := by
  refine foldlRecOn (motive := fun v : Upload => v.Waits i) ids _ h fun v hv j _ => ?_
  split
  · exact hv.enqueue j
  · exact hv

theorem waits_enqueueQueued {ids : List ℕ} (hi : i ∈ ids) (hq : (u.items i).state = .queued) :
    (u.enqueueQueued ids).Waits i := by
  obtain ⟨before, after, rfl⟩ := append_of_mem hi
  have hitems := congrFun (enqueueQueued_items (u := u) before) i
  unfold enqueueQueued at hitems ⊢
  rw [foldl_append, foldl_cons, hitems, if_pos hq]
  exact (waits_enqueue _ i).enqueueQueued after

/-! ### Moves and turns -/

theorem NoneStuck.step (h : u.NoneStuck c) (hs : v.stale = false → u.stale = false)
    (htree : v.tree = u.tree) (hstep : ∀ i < u.tree.size, (v.items i).state = .queued →
      ((u.items i).state = .queued → u.Waits i → v.Waits i) ∧
        ((u.items i).state = .queued ∨ v.Waits i)) : v.NoneStuck c := by
  intro hstale i hi hq
  rw [htree] at hi
  obtain ⟨hkept, hnew⟩ := hstep i hi hq
  rcases hnew with hqueued | hwaits
  · exact (h (hs hstale) i hi hqueued).imp id (hkept hqueued)
  · exact .inr hwaits

theorem NoneStuck.less (h : u.NoneStuck c)
    (hc : ∀ i < u.tree.size, (u.items i).state = .queued → c i → c' i ∨ u.Waits i) :
    u.NoneStuck c' :=
  fun hs i hi hq => (h hs i hi hq).elim (hc i hi hq) .inr

theorem NoneStuck.edit (h : u.NoneStuck c) {f : Item → Item}
    (hs : (f (u.items j)).state = (u.items j).state)
    (hr : (u.items j).resolution = some .keepBoth → (f (u.items j)).resolution = some .keepBoth) :
    (u.edit j f).NoneStuck c := by
  refine h.step id rfl fun i _ hq => ⟨fun _ hw => hw.edit (hs ▸ id) fun _ => hr, .inl ?_⟩
  rw [edit_items] at hq
  split at hq
  · next hij => rwa [hij, ← hs]
  · exact hq

@[simp] theorem setState_stale : (u.setState i state).stale = u.stale := by
  obtain ⟨_, _, _, h⟩ := setState_shape u i state
  rw [h]
  rfl

@[simp] theorem enqueue_stale : (u.enqueue i).stale = u.stale := by
  obtain ⟨_, _, _, h⟩ := enqueue_shape u i
  rw [h]

@[simp] theorem enqueueQueued_stale (ids : List ℕ) : (u.enqueueQueued ids).stale = u.stale := by
  obtain ⟨_, _, _, h⟩ := enqueueQueued_shape u ids
  rw [h]

section

variable (h : u.NoneStuck c)
include h

theorem NoneStuck.addAcked (j : ℕ) (delta : ℤ) :
    (u.addAcked j delta).NoneStuck c := by
  have hstale : (u.addAcked j delta).stale = u.stale := by
    obtain ⟨_, _, hshape⟩ := addAcked_shape u j delta
    rw [hshape]
    rfl
  refine h.step (by rw [hstale]; exact id) (addAcked_tree _) fun i _ hq =>
    ⟨fun _ hw => hw.addAcked _, .inl ?_⟩
  rw [addAcked_items] at hq
  split at hq
  · next hij => rwa [hij]
  · exact hq

theorem NoneStuck.aside {busy nextKey : ℕ} {linkDropped creatingFolders : Bool}
    {calls : List Task} {backend : Option Backend} {leases : List ℕ} {source : Option String}
    {lookUps : ℕ → Option LookUp} :
    NoneStuck c { u with
      busy, nextKey, linkDropped, creatingFolders, calls, backend, leases, source, lookUps } :=
  h.step id rfl fun _ _ hq => ⟨fun _ hw => hw.mono rfl (Subset.refl _) (Subset.refl _)
    (fun _ => Subset.refl _) (Subset.refl _) (fun _ _ => id) id, .inl hq⟩

theorem NoneStuck.await (t : Task) : (u.await t).NoneStuck c :=
  h.step id rfl fun _ _ hq => ⟨fun _ hw => hw.await t, .inl hq⟩

theorem NoneStuck.setState (hq : state ≠ .queued)
    (hp : state = .placed → ¬u.tree.IsDir j) : (u.setState j state).NoneStuck c := by
  refine h.step (by rw [setState_stale]; exact id) setState_tree fun i _ hi =>
    ⟨fun _ hw => hw.setState hp, .inl ?_⟩
  rw [setState_items] at hi
  split at hi
  · exact absurd hi hq
  · exact hi

theorem NoneStuck.queueAgain (j : ℕ) : (u.queueAgain j).NoneStuck c := by
  refine h.step (by simp [Upload.queueAgain]) (by simp [Upload.queueAgain]) fun i _ hi => ⟨?_, ?_⟩
  · intro _ hw
    have hset : (u.setState j .queued).Waits i := hw.setState (by simp)
    exact hset.enqueue j
  by_cases hij : i = j
  · subst hij
    exact .inr (waits_enqueue _ i)
  · left
    rwa [Upload.queueAgain, enqueue_items, setState_items, if_neg hij] at hi

end

theorem noneStuck_rebuildQueues (u : Upload) (c : ℕ → Prop) : u.rebuildQueues.NoneStuck c := by
  intro _ i hi hq
  refine .inr (waits_enqueueQueued (UploadTree.mem_order.mpr ?_) ?_)
  · simpa [rebuildQueues, enqueueReadyTop] using hi
  · simpa [rebuildQueues, enqueueReadyTop] using hq

section

variable (h : u.NoneStuck c)
include h

theorem NoneStuck.move (hm : Move u v) : v.NoneStuck c := by
  cases hm with
  | aside | record | number | release | reach | lookUps => exact h.aside
  | await t => exact h.await t
  | note i f hf => exact h.edit (hf.state _) fun hr => (hf.resolution _).trans hr
  | noteSkipped | endWrite => exact h.edit rfl id
  | keepBoth => exact h.edit rfl fun _ => rfl
  | stop i state _ hs hp =>
    exact h.setState hs.1 fun hplaced hdir => nomatch hdir.2.symm.trans (hp hplaced)
  | restart i => exact h.addAcked i _
  | enqueue i =>
    refine h.step (by rw [enqueue_stale]; exact id) enqueue_tree fun j _ hq =>
      ⟨fun _ hw => hw.enqueue i, .inl ?_⟩
    rwa [enqueue_items] at hq
  | queueAgain i => exact h.queueAgain i
  | rebuild => exact noneStuck_rebuildQueues u c
  | shift i rest hqueue hs =>
    refine h.step id rfl fun j _ hq => ⟨fun _ hw => ?_, .inl hq⟩
    cases hw with
    | queue hmem =>
      rw [hqueue] at hmem
      rcases mem_cons.mp hmem with rfl | hmem
      · exact absurd hq hs
      · exact .queue hmem
    | folderQueue hmem => exact .folderQueue hmem
    | waiting p hp hs hmem => exact .waiting p hp hs hmem
    | creating t ht hcreates => exact .creating t ht hcreates

theorem NoneStuck.moves (hm : Moves u v) : v.NoneStuck c := by
  induction hm with
  | refl => exact h
  | tail _ hmove ih => exact ih.move hmove

theorem NoneStuck.act (hk : u.Kinded) (ha : Act u v) : v.NoneStuck c := by
  cases ha with
  | move hm => exact h.move hm
  | startWrite i s offset data =>
    have hwriting : (u.edit i fun item => { item with writing := true }).NoneStuck c :=
      h.edit rfl id
    exact hwriting.await _
  | acknowledge i n => exact h.addAcked i n
  | placeOver i temp target =>
    have hrecorded : NoneStuck c { u with
        calls := u.calls ++ [Task.placing i temp target .replace] } := h.aside
    exact hrecorded.await _
  | resize i size mtime =>
    have hstale : (u.resize i size mtime).stale = u.stale := by
      obtain ⟨_, _, hshape⟩ := resize_shape u i size mtime
      rw [hshape]
      rfl
    refine h.step (by rw [hstale]; exact id) (resize_tree _ _) fun j _ hq =>
      ⟨fun _ hw => hw.resize _ _, .inl ?_⟩
    rw [resize_items] at hq
    split at hq
    · next hj => rwa [hj]
    · exact hq
  | resolve i _ _ hd =>
    refine h.step id rfl fun j _ hq => ⟨fun _ hw => ?_, .inl ?_⟩
    · cases hw with
      | queue hmem => exact .queue hmem
      | folderQueue hmem => exact .folderQueue hmem
      | waiting p hp hs hmem =>
        refine .waiting p hp ?_ hmem
        rw [edit_items]
        split
        · next hpi => exact hpi ▸ hs
        · exact hs
      | creating t ht hcreates =>
        -- Of a folder, nothing is created yet.
        obtain ⟨hdir, hfolders⟩ := Task.creates_spec (hk.tasks t ht) hcreates
        refine .creating t ht (Task.creates_of_resolution (fun hkeep => ?_) hcreates)
        rw [edit_items]
        split
        · next hji => exact nomatch hfolders.symm.trans (hd (hji ▸ hdir) t ht)
        · exact hkeep
    · rw [edit_items] at hq
      split at hq
      · next hji => rwa [hji]
      · exact hq
  | noteAnswer i action hconflict =>
    refine h.step id rfl fun j _ hq => ?_
    have hji : j ≠ i := by
      rintro rfl
      simp [Upload.noteAnswer, Upload.edit, hconflict] at hq
    refine ⟨fun _ hw => ?_, .inl ?_⟩
    · have hnoted : Waits { u with
          answers := u.answers ++ [(i, action, (u.items i).typeClash)] } j :=
        hw.mono rfl (List.Subset.refl _) (List.Subset.refl _) (fun _ => List.Subset.refl _)
          (List.Subset.refl _) (fun _ _ => id) id
      exact hnoted.edit id fun heq => absurd heq hji
    · rw [Upload.noteAnswer, edit_items, if_neg hji] at hq
      exact hq

theorem NoneStuck.acts (hk : u.Kinded) (ha : Acts u v) : v.NoneStuck c := by
  induction ha with
  | refl => exact h
  | tail hbefore hact ih => exact ih.act (hk.acts hbefore) hact

theorem NoneStuck.placeFolder (path : HostPath) (outcome : Outcome) :
    (u.folderPlaced j path outcome).NoneStuck c := by
  have hstate : ∀ i, ((u.folderPlaced j path outcome).items i).state = .queued →
      i ≠ j ∧ (u.items i).state = .queued := by
    intro i hq
    rw [folderPlaced_items] at hq
    split at hq
    · cases hq
    · next hij => exact ⟨hij, hq⟩
  generalize hv : (u.edit j fun item =>
    { item with path := some path, outcome := some outcome }).setState j .placed = v
  have hplaced : u.folderPlaced j path outcome =
      { v with waiting := update v.waiting j [] }.enqueueQueued (v.waiting j) := by
    rw [← hv]
    rfl
  have hitems : ∀ i, i ≠ j → v.items i = u.items i := by
    intro i hij
    rw [← hv, setState_items, if_neg hij, edit_items, if_neg hij]
  have hrest : v.tree = u.tree ∧ v.stale = u.stale ∧ v.queue = u.queue ∧
      v.folderQueue = u.folderQueue ∧ v.waiting = u.waiting ∧ v.tasks = u.tasks := by
    obtain ⟨_, _, _, hshape⟩ := setState_shape (u.edit j fun item =>
      { item with path := some path, outcome := some outcome }) j .placed
    rw [← hv, hshape]
    exact ⟨rfl, rfl, rfl, rfl, rfl, rfl⟩
  obtain ⟨htree, hstale, hqueue, hfolders, hwaiting, htasks⟩ := hrest
  rw [hplaced] at hstate ⊢
  refine h.step (by rw [enqueueQueued_stale]; exact hstale ▸ id)
    ((enqueueQueued_tree _).trans htree) fun i _ hq => ⟨fun _ hw => ?_, .inl (hstate i hq).2⟩
  obtain ⟨hij, hqueued⟩ := hstate i hq
  cases hw with
  | queue hmem => exact (Waits.queue (hqueue ▸ hmem)).enqueueQueued _
  | folderQueue hmem => exact (Waits.folderQueue (hfolders ▸ hmem)).enqueueQueued _
  | waiting p hp hs hmem =>
    by_cases hpj : p = j
    · subst hpj
      refine waits_enqueueQueued (hwaiting ▸ hmem) ?_
      show (v.items i).state = _
      rw [hitems i hij, hqueued]
    · refine (Waits.waiting p ?_ ?_ ?_).enqueueQueued _
      · exact htree ▸ hp
      · show (v.items p).state ≠ _
        rw [hitems p hpj]
        exact hs
      · show i ∈ update v.waiting j [] p
        rw [update_of_ne hpj, hwaiting]
        exact hmem
  | creating t ht hcreates =>
    refine (Waits.creating t (htasks ▸ ht) ?_).enqueueQueued _
    refine Task.creates_of_resolution (fun hkeep => ?_) hcreates
    show (v.items i).resolution = _
    rw [hitems i hij, hkeep]

theorem NoneStuck.takeBatch (held : Option Backend) : (u.takeBatch held).NoneStuck c := by
  refine h.step id rfl fun i _ hq => ⟨fun _ hw => ?_, .inl hq⟩
  have hq : (u.items i).state = .queued := hq
  cases hw with
  | queue hmem => exact .queue hmem
  | folderQueue hmem =>
    rw [← take_append_drop folderBatch u.folderQueue] at hmem
    rcases mem_append.mp hmem with htaken | hleft
    · refine .creating _ (mem_append.mpr (.inr (mem_singleton.mpr rfl))) ?_
      have hbatch : i ∈ (u.folderQueue.take folderBatch).filter fun i =>
          (u.items i).state = .queued := mem_filter.mpr ⟨htaken, by simpa using hq⟩
      by_cases hkeep : (u.items i).resolution = some .keepBoth
      · exact .inr ⟨hbatch, hkeep⟩
      · exact .inl (mem_filter.mpr ⟨hbatch, by simpa using hkeep⟩)
    · exact .folderQueue hleft
  | waiting p hp hs hmem => exact .waiting p hp hs hmem
  | creating t ht hcreates => exact .creating t (mem_append.mpr (.inl ht)) hcreates

theorem NoneStuck.turn (ht : Turn u v) : v.NoneStuck c := by
  cases ht with
  | move hm => exact h.move hm
  | folders creating => exact h.aside
  | takeBatch held => exact h.takeBatch held
  | callFolders t =>
    have hrecorded : NoneStuck c { u with calls := u.calls ++ [t] } := h.aside
    exact hrecorded.await t
  | placeFolder i path outcome => exact h.placeFolder path outcome
  | nameFolder => exact h.edit rfl id
  | pushFolder i =>
    exact h.step id rfl fun i _ hq => ⟨fun _ hw => hw.mono rfl (Subset.refl _)
      (subset_append_left _ _) (fun _ => Subset.refl _) (Subset.refl _)
      (fun _ _ => id) id, .inl hq⟩
  | failEnded i => exact h.setState nofun nofun
  | queueEnded i => exact h.queueAgain i

theorem NoneStuck.turns (ht : Turns u v) : v.NoneStuck c := by
  induction ht with
  | refl => exact h
  | tail _ hturn ih => exact ih.turn hturn

end

/-! ### Turns of `createFolders` -/

theorem NoneStuck.erase (h : u.NoneStuck fun _ => False) (t : Task) :
    NoneStuck (t.creates u.items) { u with tasks := u.tasks.erase t } := by
  intro hs i hi hq
  rcases h hs i hi hq with hnone | hw
  · exact hnone.elim
  · cases hw with
    | queue hmem => exact .inr (.queue hmem)
    | folderQueue hmem => exact .inr (.folderQueue hmem)
    | waiting p hp hs hmem => exact .inr (.waiting p hp hs hmem)
    | creating t' ht hcreates =>
      by_cases heq : t' = t
      · exact .inl (heq ▸ hcreates)
      · exact .inr (.creating t' ((mem_erase_of_ne heq).mpr ht) hcreates)

theorem NoneStuck.callBatch (h : u.NoneStuck c)
    (hc : ∀ i, (u.items i).state = .queued → c i → t.creates u.items i) :
    (u.call t).NoneStuck fun _ => False := by
  have hrecorded : NoneStuck c { u with calls := u.calls ++ [t] } := h.aside
  refine (hrecorded.await t).less fun i _ hq hi => .inr ?_
  exact .creating t (mem_append.mpr (.inr (mem_singleton.mpr rfl))) (hc i hq hi)

end Upload

theorem Move.keepsBoth {u v : Upload} (h : Move u v)
    (hr : (u.items i).resolution = some .keepBoth) :
    (v.items i).resolution = some .keepBoth := by
  have hedit : ∀ (j : ℕ) (f : Item → Item),
      ((u.items j).resolution = some .keepBoth → (f (u.items j)).resolution = some .keepBoth) →
      ((u.edit j f).items i).resolution = some .keepBoth := by
    intro j f hf
    rw [edit_items]
    split
    · next hij => exact hf (hij ▸ hr)
    · exact hr
  have hset : ∀ (j : ℕ) (state : ItemState),
      ((u.setState j state).items i).resolution = some .keepBoth := by
    intro j state
    rw [setState_items]
    split
    · next hij => exact hij ▸ hr
    · exact hr
  cases h with
  | note j f hf => exact hedit j f fun hj => (hf.resolution _).trans hj
  | noteSkipped j | endWrite j => exact hedit j _ id
  | keepBoth j => exact hedit j _ fun _ => rfl
  | stop j state => exact hset j state
  | restart j =>
    rw [addAcked_items]
    split
    · next hij => exact hij ▸ hr
    · exact hr
  | enqueue => rwa [enqueue_items]
  | queueAgain j =>
    rw [Upload.queueAgain, enqueue_items]
    exact hset j _
  | rebuild =>
    rw [rebuildQueues, enqueueReadyTop, enqueueQueued_items]
    exact hr
  | _ => exact hr

theorem Turns.keepsBoth {u v : Upload} (h : Turns u v)
    (hr : (u.items i).resolution = some .keepBoth) :
    (v.items i).resolution = some .keepBoth := by
  induction h with
  | refl => exact hr
  | @tail v _ _ ht ih =>
    have hset : ∀ (j : ℕ) (state : ItemState),
        ((v.setState j state).items i).resolution = some .keepBoth := by
      intro j state
      rw [setState_items]
      split
      · next hij => exact hij ▸ ih
      · exact ih
    cases ht with
    | move hm => exact hm.keepsBoth ih
    | placeFolder j =>
      rw [folderPlaced_items]
      split
      · next hij => exact hij ▸ ih
      · exact ih
    | nameFolder j =>
      rw [edit_items]
      split
      · next hij => exact hij ▸ ih
      · exact ih
    | failEnded j => exact hset j _
    | queueEnded j =>
      rw [queueAgain, enqueue_items]
      exact hset j _
    | _ => exact ih

namespace Upload

variable {u v w : Upload} {i j : ℕ} {c : ℕ → Prop}

/-- What `failSubtree` changes, it fails. -/
theorem failSubtree_state (fuel : ℕ) (u : Upload) (i j : ℕ) :
    ((failSubtree fuel u i).items j).state = (u.items j).state ∨
      ((failSubtree fuel u i).items j).state = .failed := by
  induction fuel generalizing u i with
  | zero => exact .inl rfl
  | succ fuel ih =>
    refine foldlRecOn (motive := fun v : Upload => (v.items j).state = (u.items j).state ∨
      (v.items j).state = .failed) _ _ ?_ fun v hv k _ => ?_
    · rw [setState_items]
      split
      · exact .inr rfl
      · exact .inl rfl
    · split
      · rcases ih v k with heq | hfailed
        · exact heq ▸ hv
        · exact .inr hfailed
      · exact hv

theorem failSubtree_failed (hi : i < u.tree.size) :
    ((failSubtree u.tree.size u i).items i).state = .failed := by
  obtain ⟨fuel, hfuel⟩ := Nat.exists_eq_succ_of_ne_zero (Nat.ne_zero_of_lt hi)
  rw [hfuel]
  refine foldlRecOn (motive := fun v : Upload => (v.items i).state = .failed) _ _ ?_
    fun v hv k _ => ?_
  · rw [setState_items, if_pos rfl]
  · split
    · rcases failSubtree_state fuel v k i with heq | hfailed
      · exact heq.trans hv
      · exact hfailed
    · exact hv

theorem skip_skipped (hi : i < u.tree.size) :
    ((skip u.tree.size u i).items i).state = .skipped := by
  obtain ⟨fuel, hfuel⟩ := Nat.exists_eq_succ_of_ne_zero (Nat.ne_zero_of_lt hi)
  rw [hfuel]
  unfold skip
  dsimp only
  generalize hv : (u.edit i fun item => { item with outcome := some .skipped }).setState i
    .skipped = v
  have hskipped : (v.items i).state = .skipped := by rw [← hv, setState_items, if_pos rfl]
  split
  · have hrestarted : ((v.restartFile i).items i).state = (v.items i).state := by
      rw [restartFile_items, if_pos rfl]
    split
    · exact hrestarted.trans hskipped
    · split <;> exact hrestarted.trans hskipped
  · refine foldlRecOn (motive := fun w : Upload => (w.items i).state = .skipped) _ _ hskipped
      fun w hw k _ => ?_
    split
    · rcases skip_state fuel w k i with heq | hnew
      · exact heq.trans hw
      · exact hnew
    · exact hw

theorem folderClash_settles (hj : j < u.tree.size) (existing : Option FileEntry) :
    ((u.folderClash j existing).items j).state ≠ .queued ∨
      j ∈ (u.folderClash j existing).folderQueue := by
  have hconflict : ∀ v : Upload, ((v.setState j .conflict).items j).state ≠ .queued := by
    intro v
    rw [setState_items, if_pos rfl]
    exact nofun
  unfold folderClash
  dsimp only
  split
  · left
    rw [skip_skipped (u := u.edit j _) hj]
    decide
  · exact .inr (by simp)
  · exact .inl (hconflict _)
  · exact .inl (hconflict _)

theorem folderResult_settles (hj : j < u.tree.size) (path : HostPath) (result : FolderResult) :
    ((u.folderResult j path result).items j).state ≠ .queued ∨
      j ∈ (u.folderResult j path result).folderQueue := by
  have hplaced : ∀ outcome, ((u.folderPlaced j path outcome).items j).state ≠ .queued := by
    intro outcome
    rw [folderPlaced_items, if_pos rfl]
    exact nofun
  unfold folderResult
  split
  · split
    · exact .inl (hplaced _)
    · exact .inl (hplaced _)
    · exact folderClash_settles hj _
    · left
      rw [failSubtree_failed hj]
      decide
  · next hnot => exact .inl hnot

theorem NoneStuck.folderResults (batch : List ℕ) {l : List (ℕ × HostPath × FolderResult)}
    (hb : Between u v) (hl : ∀ made ∈ l, u.tree.IsDir made.1)
    (h : v.NoneStuck fun i => (∃ made ∈ l, made.1 = i) ∨
      i ∈ batch ∧ (v.items i).resolution = some .keepBoth) :
    Between u (l.foldl (fun u made => u.folderResult made.1 made.2.1 made.2.2) v) ∧
      NoneStuck (fun i => i ∈ batch ∧
        ((l.foldl (fun u made => u.folderResult made.1 made.2.1 made.2.2) v).items i).resolution =
          some .keepBoth) (l.foldl (fun u made => u.folderResult made.1 made.2.1 made.2.2) v) := by
  induction l generalizing v with
  | nil => exact ⟨hb, h.less fun i _ _ hi => .inl (hi.resolve_left (by simp))⟩
  | cons made l ih =>
    obtain ⟨j, path, result⟩ := made
    obtain ⟨hj, hl⟩ := forall_mem_cons.mp hl
    have hmade : Between v (v.folderResult j path result) :=
      (Between.refl hb.creating hb.idle).folderResult (hb.tree ▸ hj) path result
    refine ih (hb.folderResult hj path result) hl ?_
    refine (h.turns hmade.turns).less fun i _ hq hi => ?_
    rcases hi with ⟨made, hmem, rfl⟩ | ⟨hbatch, hkeep⟩
    · rcases mem_cons.mp hmem with rfl | hmem
      · have hsettled := folderResult_settles (hb.tree ▸ hj.1) path result (u := v)
        exact .inr (.folderQueue (hsettled.resolve_left (not_not.mpr hq)))
      · exact .inl (.inl ⟨made, hmem, rfl⟩)
    · exact .inl (.inr ⟨hbatch, Turns.keepsBoth hmade.turns hkeep⟩)

theorem NoneStuck.keepBothFolders {rest : List ℕ} (hb : Between u v)
    (h : v.NoneStuck fun i => i ∈ rest) : (v.keepBothFolders rest).NoneStuck fun _ => False := by
  induction rest with
  | nil =>
    have hnone : v.NoneStuck fun _ => False := h.less fun i _ _ hi => nomatch hi
    exact hnone.turns (Turns.foldersLoop (.refl hb.creating hb.idle))
  | cons i rest ih =>
    unfold Upload.keepBothFolders
    split
    · exact h.callBatch fun j _ hj => mem_cons.mp hj
    · next hi =>
      refine ih (h.less fun j _ hq hj => .inl ?_)
      rcases mem_cons.mp hj with rfl | hj
      · exact absurd hq hi
      · exact hj

theorem NoneStuck.foldersMade {batch plain : List ℕ} {paths : List HostPath}
    {results : List FolderResult} (hb : Between u u) (hdirs : ∀ i ∈ batch, u.tree.IsDir i)
    (hsub : plain ⊆ batch) (hpaths : paths.length = plain.length)
    (hresults : results.length = paths.length)
    (h : u.NoneStuck fun i => i ∈ plain ∨ i ∈ batch ∧ (u.items i).resolution = some .keepBoth) :
    (u.foldersMade batch plain paths results).NoneStuck fun _ => False := by
  have hall : ∀ i ∈ plain, ∃ made ∈ plain.zip (paths.zip results), made.1 = i := by
    intro i hi
    have hfst : (plain.zip (paths.zip results)).map Prod.fst = plain :=
      map_fst_zip (by simp [length_zip, hpaths, hresults])
    rw [← hfst] at hi
    exact mem_map.mp hi
  obtain ⟨hbetween, hmade⟩ := NoneStuck.folderResults (l := plain.zip (paths.zip results)) batch
    hb (fun made hmem => hdirs _ (hsub (of_mem_zip hmem).1))
    (h.less fun i _ _ hi => .inl (hi.imp (hall i) id))
  refine NoneStuck.keepBothFolders hbetween (hmade.less fun i _ _ hi => .inl ?_)
  exact mem_filter.mpr ⟨hi.1, by simpa using hi.2⟩

theorem NoneStuck.keepBothAnswered {rest : List ℕ} (hb : Between u u) (hi : u.tree.IsDir i) (n : ℕ)
    (path : HostPath) (result : FolderResult) (h : u.NoneStuck fun j => j = i ∨ j ∈ rest) :
    (u.keepBothAnswered i n path rest result).NoneStuck fun _ => False := by
  have hon : ∀ v : Upload, Between u v → (v.items i).state ≠ .queued →
      (v.keepBothFolders rest).NoneStuck fun _ => False := by
    intro v hv hstate
    refine NoneStuck.keepBothFolders hv ((h.turns hv.turns).less fun j _ hq hj => .inl ?_)
    rcases hj with rfl | hj
    · exact absurd hq hstate
    · exact hj
  have hfailed : ((failSubtree u.tree.size u i).keepBothFolders rest).NoneStuck fun _ => False := by
    refine hon _ (hb.failSubtree _ hi.1) ?_
    rw [failSubtree_failed hi.1]
    decide
  cases result with
  | created =>
    have hnamed : Between u (u.edit i fun item =>
        { item with finalName := some (keepBothName (u.tree.name i) n .dir) }) :=
      ⟨.single (.nameFolder i _ hi), hb.creating, hb.idle⟩
    refine hon _ (hnamed.folderPlaced hi path .keptBoth) ?_
    rw [folderPlaced_items, if_pos rfl]
    exact nofun
  | failed => exact hfailed
  | merged | clash =>
    rw [Upload.keepBothAnswered]
    split
    · exact h.callBatch fun j _ hj => hj
    · exact hfailed

/-- An item that waits for its folder. -/
def awaits (u : Upload) (i : ℕ) : Bool :=
  match u.tree.parent i with
  | none => false
  | some p => (u.items p).state ≠ .placed ∧ i ∈ u.waiting p

theorem waits_of_awaits (h : u.awaits i = true) : u.Waits i := by
  unfold awaits at h
  cases hp : u.tree.parent i with
  | none => simp [hp] at h
  | some p =>
    have hboth : (u.items p).state ≠ .placed ∧ i ∈ u.waiting p := by simpa [hp] using h
    exact .waiting p hp hboth.1 hboth.2

theorem interruptAll_none (h : u.connected = false) (hi : i < u.tree.size) :
    (u.interruptAll.items i).state ≠ .queued := by
  have hloop : ∀ l : List ℕ, i ∈ l → ∀ v : Upload, ((l.foldl (fun u i =>
      if (u.items i).state = .sending ∨ (u.items i).state = .queued then u.interrupt i else u)
      v).items i).state ≠ .queued := by
    intro l hmem v
    have hkeeps : ∀ (l : List ℕ) (v : Upload), (v.items i).state ≠ .queued →
        ((l.foldl (fun u i => if (u.items i).state = .sending ∨ (u.items i).state = .queued then
          u.interrupt i else u) v).items i).state ≠ .queued := by
      intro l v hv
      refine foldlRecOn (motive := fun w : Upload => (w.items i).state ≠ .queued) l _ hv
        fun w hw j _ => ?_
      split
      · rw [interrupt_items]
        split
        · exact nofun
        · exact hw
      · exact hw
    obtain ⟨before, after, rfl⟩ := append_of_mem hmem
    rw [foldl_append, foldl_cons]
    refine hkeeps after _ ?_
    split
    · rw [interrupt_items, if_pos rfl]
      exact nofun
    · next hnot => exact fun hq => hnot (.inr hq)
  unfold interruptAll
  rw [if_neg (by simp [h])]
  exact hloop _ (mem_range.mpr hi) u

theorem interrupt_backend : (u.interrupt i).backend = u.backend := by
  have hset : ((u.edit i fun item => { item with sink := none }).setState i .interrupted).backend =
      u.backend := by
    obtain ⟨_, _, _, h⟩ := setState_shape (u.edit i fun item => { item with sink := none }) i
      .interrupted
    rw [h]
    rfl
  unfold interrupt
  dsimp only
  split
  · exact hset
  · split <;> exact hset

/-- One turn of the loop of `foldersFailed`: a folder that is queued stops. -/
def stopFolder (interruption : Bool) (u : Upload) (i : ℕ) : Upload :=
  if (u.items i).state ≠ .queued then u
  else if interruption then u.interrupt i
  else failSubtree u.tree.size u i

theorem stopFolder_spec (hi : i < u.tree.size) (interruption : Bool) :
    Moves u (stopFolder interruption u i) ∧
      ((stopFolder interruption u i).items i).state ≠ .queued := by
  unfold stopFolder
  by_cases hq : (u.items i).state = .queued
  · have hopen : ¬(u.items i).ended := by simp [Item.ended, hq]
    rw [if_neg (not_not.mpr hq)]
    cases interruption with
    | true =>
      refine ⟨Moves.interrupt .refl hi fun _ => hopen, ?_⟩
      rw [if_pos rfl, interrupt_items, if_pos rfl]
      simp
    | false =>
      refine ⟨Moves.failSubtree _ .refl hi fun _ => hopen, ?_⟩
      rw [if_neg (by decide), failSubtree_failed hi]
      simp
  · rw [if_pos hq]
    exact ⟨.refl, hq⟩

theorem NoneStuck.stopFolders {l : List ℕ} (hl : ∀ i ∈ l, i < u.tree.size) (interruption : Bool)
    (h : u.NoneStuck fun i => i ∈ l) :
    (l.foldl (stopFolder interruption) u).NoneStuck fun _ => False := by
  induction l generalizing u with
  | nil => exact h.less fun i _ _ hi => nomatch hi
  | cons i l ih =>
    obtain ⟨hi, hl⟩ := forall_mem_cons.mp hl
    obtain ⟨hmoves, hstopped⟩ := stopFolder_spec hi interruption
    refine ih (fun j hj => hmoves.tree.symm ▸ hl j hj) ?_
    refine (h.moves hmoves).less fun j _ hq hj => .inl ?_
    -- The folder is queued no more, so it need not be apart.
    rcases mem_cons.mp hj with rfl | hj
    · exact absurd hq hstopped
    · exact hj

theorem foldl_stopFolder_connected (l : List ℕ) (u : Upload) :
    (l.foldl (stopFolder true) u).connected = u.connected := by
  have hbackend : (l.foldl (stopFolder true) u).backend = u.backend := by
    refine foldlRecOn (motive := fun v : Upload => v.backend = u.backend) l _ rfl
      fun v hv i _ => ?_
    unfold stopFolder
    split
    · exact hv
    · exact interrupt_backend.trans hv
  rw [connected, connected, hbackend]

/-- `createFolders` throws: the connection went, or what it was at waits elsewhere. -/
theorem NoneStuck.foldersFailed (hf : ∀ i ∈ u.folderQueue, i < u.tree.size) {interruption : Bool}
    (h : u.NoneStuck c) (hc : interruption = true ∧ u.connected = false ∨
      ∀ i, (u.items i).state = .queued → c i → i ∈ u.folderQueue ∨ u.awaits i = true) :
    (u.foldersFailed interruption).NoneStuck fun _ => False := by
  rcases hc with ⟨rfl, hgone⟩ | hc
  · -- Whatever is queued is interrupted.
    have hstops : Moves { u with folderQueue := [] }
        (u.folderQueue.foldl (stopFolder true) { u with folderQueue := [] }) :=
      Moves.foldl .refl fun w hw i hi =>
        hw.trans (stopFolder_spec (hw.tree.symm ▸ hf i hi) true).1
    generalize hv : u.folderQueue.foldl (stopFolder true) { u with folderQueue := [] } = v at hstops
    have hconnected : v.connected = false := by
      rw [← hv, foldl_stopFolder_connected]
      exact hgone
    have hend : u.foldersFailed true =
        { v.interruptAll with creatingFolders := false, busy := v.interruptAll.busy - 1 } := by
      rw [← hv]
      rfl
    rw [hend]
    intro _ i hi hq
    have hi : i < v.interruptAll.tree.size := hi
    rw [(Moves.interruptAll (u := v) .refl).tree] at hi
    exact absurd hq (interruptAll_none hconnected hi)
  · have hleft : NoneStuck (fun i => i ∈ u.folderQueue) { u with folderQueue := [] } := by
      intro hs i hi hq
      have hw : u.Waits i := by
        rcases h hs i hi hq with hapart | hw
        · exact (hc i hq hapart).elim .folderQueue waits_of_awaits
        · exact hw
      cases hw with
      | queue hmem => exact .inr (.queue hmem)
      | folderQueue hmem => exact .inl hmem
      | waiting p hp hs hmem => exact .inr (.waiting p hp hs hmem)
      | creating t ht hcreates => exact .inr (.creating t ht hcreates)
    have hstopped := NoneStuck.stopFolders (u := { u with folderQueue := [] }) hf interruption hleft
    cases interruption with
    | false => exact hstopped.aside
    | true => exact (hstopped.moves (Moves.interruptAll .refl)).aside

/-! ### What comes of `createFolders`, and of `pump` -/

/-- A batch `createFolders` fails at is in the folder queue again, or waits for its folder, as it is
if a retry or a resume queued it during the await; or the connection went, and everything is
interrupted.  The batch was taken off the queue before the await, and the error ends only what is
left there. -/
def keepsBatch (u : Upload) (t : Task) : Answer → Bool
  | .fault interruption =>
    interruption ∧ u.connected = false ∨
      ∀ i ∈ t.batch, (u.items i).state = .queued → i ∈ u.folderQueue ∨ u.awaits i = true
  | _ => true

/-- What of the queue is said to have all its bytes can be placed. -/
def wholeQueue (u : Upload) : Bool :=
  u.queue.all fun i =>
    (u.items i).state ≠ .queued ∨ (u.items i).tempWhole = false ∨ (u.items i).temp ≠ none

/-- What follows an await of `createFolders`. -/
theorem NoneStuck.answerFolders {random : String} {a : Answer} (hk : u.Kinded)
    (ht : t.Names u.tree) (hf : t.isFolders = true) (hb : Between u u)
    (h : u.NoneStuck (t.creates u.items)) (hkeeps : u.keepsBatch t a = true)
    (hw : u.answer random t a = some w) : w.NoneStuck fun _ => False := by
  cases FoldersGo.of_answer hf hw with
  | threw k =>
    refine NoneStuck.foldersFailed (fun i hi => (hk.folderQueue i hi).1) h ?_
    have hcond : k = true ∧ u.connected = false ∨
        ∀ i ∈ t.batch, (u.items i).state = .queued → i ∈ u.folderQueue ∨ u.awaits i = true := by
      simpa [keepsBatch] using hkeeps
    exact hcond.imp id fun hall i hq hi => hall i (Task.mem_batch_of_creates ht hi) hq
  | reached hv =>
    refine (h.moves hv.moves).callBatch fun i _ hi => ?_
    rw [hv.items]
    exact hi
  | made hlen => exact NoneStuck.foldersMade hb ht.1 ht.2.1 ht.2.2 hlen h
  | keptBoth => exact NoneStuck.keepBothAnswered hb ht.1 _ _ _ h

/-- The file loop of `pump`. -/
theorem NoneStuck.pumpFiles (room : ℕ) (hk : u.Kinded) (h : u.NoneStuck fun _ => False)
    (hwhole : u.wholeQueue = true) : (u.pumpFiles room u.queue).NoneStuck fun _ => False := by
  have hstep : ∀ (v w : Upload) (i : ℕ) (rest : List ℕ), v.queue = i :: rest →
      v.NoneStuck (fun _ => False) → v.wholeQueue = true → w.queue = rest →
      (∀ j, j ≠ i → w.items j = v.items j) → (w.items i).state ≠ .queued →
      (∀ c, NoneStuck c { v with queue := rest } → w.NoneStuck c) →
      w.NoneStuck (fun _ => False) ∧ w.wholeQueue = true := by
    intro v w i rest hq hv hwhole hqueue hitems hi hstuck
    -- The file it takes is apart until it is queued no more.
    have htaken : NoneStuck (fun j => j = i) { v with queue := rest } := by
      intro hs j hj hjq
      rcases hv hs j hj hjq with hnone | hw
      · exact hnone.elim
      · cases hw with
        | queue hmem =>
          rw [hq] at hmem
          exact (mem_cons.mp hmem).imp id .queue
        | folderQueue hmem => exact .inr (.folderQueue hmem)
        | waiting p hp hs hmem => exact .inr (.waiting p hp hs hmem)
        | creating t ht hcreates => exact .inr (.creating t ht hcreates)
    refine ⟨(hstuck _ htaken).less fun j _ hjq hj => absurd (hj ▸ hjq) hi, ?_⟩
    unfold wholeQueue at hwhole ⊢
    rw [all_eq_true] at hwhole ⊢
    rw [hqueue]
    intro j hj
    by_cases hji : j = i
    · subst hji
      simp [hi]
    · rw [hitems j hji]
      exact hwhole j (hq ▸ mem_cons_of_mem i hj)
  refine (pumpFiles_rec (P := fun v : Upload => (v.NoneStuck (fun _ => False) ∧
    v.wholeQueue = true) ∧ v.Kinded) ?_ ?_ ?_ room rfl ⟨⟨h, hwhole⟩, hk⟩).1.1
  · rintro v i rest ⟨⟨hv, hwhole⟩, hkv⟩ hq hstate
    exact ⟨hstep v _ i rest hq hv hwhole rfl (fun _ _ => rfl) hstate fun c hc => hc,
      hkv.move (.shift i rest hq hstate)⟩
  · rintro v i rest ⟨⟨hv, hwhole⟩, hkv⟩ hq hstate hw
    have hfile : v.tree.IsFile i := hkv.queue i (hq ▸ mem_cons_self)
    have hplaced : Moves { v with queue := rest } ({ v with queue := rest }.place i) :=
      Moves.place .refl hfile
    have htemp : (v.items i).temp ≠ none := by
      have hi := all_eq_true.mp hwhole i (hq ▸ mem_cons_self)
      simpa [hstate, hw] using hi
    refine ⟨hstep v _ i rest hq hv hwhole place_queue (fun j hj => ?_) ?_ fun c hc =>
      hc.moves hplaced, hkv.passes ((ReflTransGen.single (.takes i rest hq)).trans hplaced.passes)⟩
    · unfold place
      rw [if_neg htemp]
      rw [awaitBackend_items, setState_items, if_neg hj]
    · unfold place
      rw [if_neg htemp]
      rw [awaitBackend_items, setState_items, if_pos rfl]
      exact nofun
  · rintro v i rest ⟨⟨hv, hwhole⟩, hkv⟩ hq hstate _
    have hfile : v.tree.IsFile i := hkv.queue i (hq ▸ mem_cons_self)
    have hadmitted : Passes v ({ v with queue := rest }.admitFile i) :=
      Passes.admitFile (.single (.takes i rest hq)) hfile hstate
    refine ⟨hstep v _ i rest hq hv hwhole admitFile_queue (fun j hj => ?_) ?_ fun c hc => ?_,
      hkv.passes hadmitted⟩
    · rw [admitFile, awaitBackend_items, setState_items, if_neg hj]
    · rw [admitFile, awaitBackend_items, setState_items, if_pos rfl]
      exact nofun
    · have hsending : NoneStuck c ({ v with queue := rest }.setState i .sending) :=
        hc.setState nofun nofun
      refine hsending.moves (Moves.awaitBackend .refl (fun _ => ?_) fun _ _ => by rfl)
      rwa [setState_tree]

theorem NoneStuck.pump (hk : u.Kinded) (h : u.NoneStuck fun _ => False) {room : ℕ}
    {mayWrite : Bool} (hwhole : u.source.isSome → mayWrite = true → room ≠ 0 → u.wholeQueue = true) :
    (u.pump room mayWrite).NoneStuck fun _ => False := by
  have hfiles : ∀ v : Upload, v.Kinded → v.NoneStuck (fun _ => False) → v.source = u.source →
      v.queue = u.queue → v.items = u.items → NoneStuck (fun _ => False)
        (if v.source.isSome ∧ mayWrite then v.pumpFiles room v.queue else v) := by
    intro v hkv hv hsource hqueue hitems
    split
    · next hmay =>
      by_cases hroom : room = 0
      · rw [hroom]
        cases v.queue with
        | nil | cons => exact hv
      · refine NoneStuck.pumpFiles room hkv hv ?_
        have hcond := hwhole (hsource ▸ hmay.1) hmay.2 hroom
        unfold wholeQueue at hcond ⊢
        rwa [hqueue, hitems]
    · exact hv
  unfold Upload.pump
  split
  · next hfolders =>
    have hturns : Turns u u.createFolders := Turns.createFolders (hk.isFolders hfolders.2)
    have hloop : u.createFolders.queue = u.queue ∧ u.createFolders.items = u.items := by
      unfold createFolders foldersLoop
      split
      · exact ⟨rfl, rfl⟩
      · exact ⟨awaitBackend_queue, awaitBackend_items⟩
    exact hfiles _ (hk.changes hturns.changes) (h.turns hturns)
      (congrArg Prod.fst hturns.standing) hloop.1 hloop.2
  · exact hfiles u hk h rfl rfl rfl

end Upload

/-! ### Along every run -/

/-- `createFolders` fails only at what waits elsewhere, and `pump` comes to no file that is said to
have all its bytes and has no temporary. -/
def KeepsBatch (s : Service) : Step → Prop
  | .answer t a _ =>
    s.upload.stale = false → s.upload.dropped = false → s.upload.keepsBatch t a = true
  | .work (.pump room mayWrite) =>
    s.upload.source.isSome → mayWrite = true → room ≠ 0 → s.upload.wholeQueue = true
  | _ => True

instance (s : Service) : (step : Step) → Decidable (KeepsBatch s step)
  | .answer t a _ => inferInstanceAs (Decidable
      (s.upload.stale = false → s.upload.dropped = false → s.upload.keepsBatch t a = true))
  | .work op =>
    match op with
    | .pump room mayWrite => inferInstanceAs (Decidable
        (s.upload.source.isSome → mayWrite = true → room ≠ 0 → s.upload.wholeQueue = true))
    | .resolve _ _ | .retry _ _ | .cancel _ | .join _ | .takeUp _ _ | .receive _ _ _ _
    | .clientGone _ | .interruptOn | .resumeDropped | .flush _ | .drop | .forget => .isTrue trivial
  | .lost | .save _ | .discard | .restart => .isTrue trivial

namespace Upload.NoneStuck

variable {u w : Upload}

theorem answer {random : String} {a : Answer} (hk : u.Kinded) (ht : t ∈ u.tasks)
    (h : u.NoneStuck fun _ => False) (hkeeps : u.stale = false → u.keepsBatch t a = true)
    (hw : { u with tasks := u.tasks.erase t }.answer random t a = some w) :
    w.NoneStuck fun _ => False := by
  have herased := h.erase t
  have hkinded : Kinded { u with tasks := u.tasks.erase t } :=
    hk.changes (Changes.erase u t)
  have hnames := hk.tasks t ht
  cases hf : t.isFolders with
  | true =>
    obtain ⟨hc, hn⟩ := hk.folders_erase ht hf
    cases hstale : u.stale with
    | false => exact answerFolders hkinded hnames hf (.refl hc hn) herased (hkeeps hstale) hw
    | true =>
      -- Of a stale upload there is nothing to say, until its queues are built again.
      have hnone : ∀ folderQueue : List ℕ, NoneStuck (fun _ => False)
          { u with tasks := u.tasks.erase t, folderQueue } :=
        fun _ hs => nomatch hstale.symm.trans hs
      rcases Turns.answer_cases hkinded hnames hf hc hn hw with hturns | ⟨k, -, -, hturns⟩ <;>
        exact (hnone _).turns hturns
  | false =>
    have hrest : NoneStuck (fun _ => False) { u with tasks := u.tasks.erase t } := by
      refine herased.less fun i _ _ hi => absurd hf ?_
      rw [(Task.creates_spec hnames hi).2]
      exact nofun
    by_cases hr : ∃ again, t = .retryConnect again ∧ a = .done
    · obtain ⟨again, rfl, rfl⟩ := hr
      cases hw
      exact hrest.turns (Turns.requeueAll .refl hnames)
    · by_cases hl : ∃ requester, t = .looked requester
      · obtain ⟨requester, rfl⟩ := hl
        cases a with
        | done =>
          cases hw
          rcases Moves.takenUp_cases { u with tasks := u.tasks.erase (.looked requester) } requester
            with ⟨-, hm⟩ | ⟨-, hm⟩
          · exact hrest.moves hm
          · exact hrest.aside.moves hm
        | _ => cases hw
      · exact hrest.acts hkinded (Acts.answer hkinded hnames
          (fun _ hi => hk.writes_erase ht hi) hf
          (fun again heq hdone => hr ⟨again, heq, hdone⟩) (fun requester heq => hl ⟨requester, heq⟩)
          hw)

theorem perform {op : Op} (hk : u.Kinded) (h : u.NoneStuck fun _ => False)
    (hd : w.dropped = false) (hpump : ∀ room mayWrite, op = .pump room mayWrite →
      u.source.isSome → mayWrite = true → room ≠ 0 → u.wholeQueue = true)
    (hw : u.perform op = some w) : w.NoneStuck fun _ => False := by
  cases Performed.of_perform hw with
  | resolve scope action => exact h.acts hk (Acts.resolve u scope action)
  | pump room mayWrite => exact pump hk h (hpump room mayWrite rfl)
  | drop | forget => cases hd
  | source source hm => exact h.aside.moves hm
  | moves hm => exact h.moves hm

end Upload.NoneStuck

/-- No queued item of an upload in the service's map is stuck. -/
def Service.Flows (s : Service) : Prop :=
  s.upload.Kinded ∧ (s.upload.dropped = false → s.upload.NoneStuck fun _ => False)

theorem Service.Flows.next {s s' : Service} {step : Step} (h : s.Flows)
    (hok : KeepsBatch s step) (hn : next s step = some s') : s'.Flows := by
  refine ⟨kinded_next h.1 hn, fun hd => ?_⟩
  cases Stepped.of_next hn with
  | work op u hdropped hu =>
    refine NoneStuck.perform h.1 (h.2 hdropped) hd ?_ hu
    rintro room mayWrite rfl
    exact hok
  | answer t a random u ht hu =>
    have hdropped : s.upload.dropped = false := by
      by_contra hne
      have hstays := Changes.dropped (Changes.answered h.1 ht hu) (by simpa using hne)
      exact nomatch hd.symm.trans hstays
    exact NoneStuck.answer h.1 ht (h.2 hdropped) (fun hs => hok hs hdropped) hu
  | lost => exact (h.2 hd).aside
  | save => exact h.2 hd
  | discard => cases hd
  | restart =>
    intro hstale
    obtain ⟨_, _, _, hshape⟩ := bringBack_shape s.upload.tree s.upload.onConflict
      s.upload.verify s.rows
    rw [hshape] at hstale
    cases hstale

theorem Start.flows (start : Start) : start.service.Flows := by
  refine ⟨start.kinded, fun _ _ i hi hq => .inr ?_⟩
  have hitems : start.service.upload.items = start.upload.items := enqueueQueued_items _
  have htree : start.service.upload.tree = start.upload.tree := enqueueQueued_tree _
  exact waits_enqueueQueued (UploadTree.mem_order.mpr (htree ▸ hi)) (hitems ▸ hq)

/-- **No item stays queued and forgotten**, in every run in which `createFolders` fails only at what
waits elsewhere, and what `pump` is to place it can place. -/
theorem held_of_keepsBatch (start : Start) {s : Service}
    (h : Run next KeepsBatch start.service s) (hs : s.upload.stale = false)
    (hd : s.upload.dropped = false) {i : ℕ} (hi : i < s.upload.tree.size)
    (hq : (s.upload.items i).state = .queued) : s.upload.Held i := by
  have hflows : s.Flows := h.invariant (I := Service.Flows) start.flows
    fun _ _ _ hflows hok hn => hflows.next hok hn
  rcases hflows.2 hd hs i hi hq with hnone | hw
  · exact hnone.elim
  · cases hw with
    | queue hmem => exact .inl hmem
    | folderQueue hmem => exact .inr (.inl hmem)
    | waiting p hp hs hmem => exact .inr (.inr (.inl ⟨p, hp, hs, hmem⟩))
    | creating t ht hcreates =>
      exact .inr (.inr (.inr ⟨t, ht,
        Task.mem_batch_of_creates (hflows.1.tasks t ht) hcreates⟩))

/-- A folder is being created. -/
def creatingFolder : List Step :=
  [.work (.pump 1 true), .answer (.foldersBackend [0] [0] (some ⟨0, false, false⟩)) .done ""]

/-- The connection goes meanwhile, and it is queued again. -/
def creatingAgain : List Step :=
  creatingFolder ++ [.lost, .answer (.mkdirs [0] [0] [["a"]]) (.fault true) "",
    .work (.retry none true)]

theorem held_creatingAgain : ∃ s : Service,
    Run next KeepsBatch (Start.ofItem .dir 0 .ask none).service s ∧
      (s.upload.items 0).state = .queued ∧ s.upload.Held 0 := by
  have hrun : Run next KeepsBatch (Start.ofItem .dir 0 .ask none).service _ :=
    .get creatingAgain (by decide +kernel) (by decide +kernel)
  exact ⟨_, hrun, by decide +kernel, held_of_keepsBatch _ hrun (by decide +kernel)
    (by decide +kernel) (by decide +kernel) (by decide +kernel)⟩

/-- It cannot be created, by an error that is no interruption: it stays queued, and nothing is at
it. -/
theorem folder_forgotten : ¬∀ (start : Start) (s : Service), Run next free start.service s →
    s.upload.stale = false → s.upload.dropped = false → ∀ i < s.upload.tree.size,
    (s.upload.items i).state = .queued → s.upload.Held i := by
  intro hall
  have hrun : Run next free (Start.ofItem .dir 0 .ask none).service _ := .get_free
    (creatingFolder ++ [.answer (.mkdirs [0] [0] [["a"]]) (.fault false) ""]) (by decide +kernel)
  have hheld := hall _ _ hrun (by decide +kernel) (by decide +kernel) 0 (by decide +kernel)
    (by decide +kernel)
  rcases hheld with hqueue | hqueue | ⟨p, hparent, -⟩ | htasks
  · exact absurd hqueue (by decide +kernel)
  · exact absurd hqueue (by decide +kernel)
  · cases hparent.symm.trans (by decide +kernel : _ = none)
  · exact absurd htasks (by decide +kernel)

end Lasterm.Transfer.Uploads
