import Lasterm.Transfer.UploadWork

/-!
# One file of an upload

An upload seen from one of its files: what the file is at, what is waited for on its behalf and
the calls made for it (`transfers/transfer-service.ts`).  The service's functions, applied to that
file, are functions of this view; applied to another file they leave it.

## Main results

* `file_interrupt`, `file_place`, `file_written`, … — seen from the file, the service's functions
  are these.
-/

namespace Lasterm.Transfer.Uploads

open Transition Relation

/-- The file something is waited for on behalf of. -/
def Task.file : Task → Option ℕ
  | .openBackend i _ | .openStopped i _ | .openStoppedRemove i _ | .opened i | .openFailed i _
  | .receiving i _ _ | .write i _ _ _ | .afterStop i _ | .finish i _ _ | .placeBackend i _
  | .placing i _ _ _ | .failedAbort i _ _ | .aborting i _ | .removing i _ | .lookStat _ i _
  | .lookTruncate _ i _ _ | .lookRemove _ i _ => some i
  | .openStat o _ | .openTruncate o _ _ | .openRemove o _ | .openPlacement o | .openDirect o _ _
  | .openTemp o _ _ _ => some o.i
  | .foldersBackend _ _ _ | .mkdirs _ _ _ | .keepBothFolder _ _ _ _ | .retryConnect _
  | .takeUpBackend _ _ _ | .looked _ | .lookFailed _ => none

/-- The file a resume says something of. -/
def ResumeFile.file : ResumeFile → ℕ
  | .skip i | .restart i _ _ => i

/-- What of a file is under way. -/
inductive Phase
  | opening
  | writing
  | placing
  | looking
  deriving DecidableEq

/-- What an awaited call is of.  Those of no phase only close and remove, or follow at once. -/
def Task.phase : Task → Option Phase
  | .openBackend _ _ | .openStat _ _ | .openTruncate _ _ _ | .openRemove _ _ | .openPlacement _
  | .openDirect _ _ _ | .openTemp _ _ _ _ | .openStopped _ _ | .openStoppedRemove _ _
  | .openFailed _ _ => some .opening
  | .write _ _ _ _ => some .writing
  | .finish _ _ _ | .placeBackend _ _ | .placing _ _ _ _ => some .placing
  | .lookStat _ _ _ | .lookTruncate _ _ _ _ | .lookRemove _ _ _ => some .looking
  | _ => none

/-- An upload, seen from one of its files. -/
@[ext]
structure FileView where
  item : Item
  tasks : List Task
  calls : List Task
  key : ℕ

/-- What an upload holds of one file. -/
def Upload.file (u : Upload) (i : ℕ) : FileView where
  item := u.items i
  tasks := u.tasks.filter fun t => t.file = some i
  calls := u.calls.filter fun t => t.file = some i
  key := u.nextKey

namespace FileView

variable (v : FileView)

/-- What of the file is under way. -/
def phases : List Phase := v.tasks.filterMap Task.phase

/-- The file may be taken up: nothing of it is under way, and it is neither sent nor ended. -/
def Free : Prop :=
  v.phases = [] ∧ v.item.state ≠ .sending ∧ v.item.state ≠ .verifying ∧ ¬v.item.ended

instance : Decidable v.Free :=
  inferInstanceAs (Decidable (_ ∧ _ ∧ _ ∧ ¬_))

/-- Something waited for on the file's behalf is answered, the upload's next number being
`key`. -/
def erase (t : Task) (key : ℕ) : FileView := { v with tasks := v.tasks.erase t, key }

/-! ### The service's functions, of one file -/

/-- The item is edited. -/
def edit (f : Item → Item) : FileView := { v with item := f v.item }

/-- Something is awaited for the file. -/
def await (t : Task) : FileView := { v with tasks := v.tasks ++ [t] }

/-- The host is called for the file, and awaited. -/
def call (t : Task) : FileView := { v with calls := v.calls ++ [t] }.await t

/-- The file's `setState`. -/
def setState (state : ItemState) : FileView := v.edit fun item => { item with state }

/-- The file's `restartFile`. -/
def restartFile : FileView :=
  v.edit fun item =>
    { item with acked := 0, temp := none, tempWhole := false, hash := none, carried := false }

/-- The file's `interrupt`. -/
def interrupt (i : ℕ) : FileView :=
  let stopped := v.edit fun item => { item with sink := none, state := .interrupted }
  match v.item.sink with
  | none => stopped
  | some s => if v.item.writing then stopped else stopped.call (.aborting i s)

/-- The file's `stopItem`. -/
def stopItem (i : ℕ) : FileView :=
  let stopped := v.edit fun item => { item with sink := none, state := .cancelled }
  if v.item.writing then stopped else stopped.call (.afterStop i v.item.sink)

/-- What `drop` does to the file. -/
def dropItem (i : ℕ) : FileView :=
  let stopped := v.edit fun item =>
    { item with sink := none, state := if item.state.unsettled then .cancelled else item.state }
  match v.item.sink with
  | none => stopped
  | some s => if v.item.writing then stopped else stopped.call (.aborting i s)

/-- `skip`, with a connection to remove its temporary over, or without. -/
def skip (i : ℕ) (connected : Bool) : FileView :=
  let skipped := (v.edit fun item =>
    { item with outcome := some .skipped, state := .skipped }).restartFile
  match v.item.temp with
  | none => skipped
  | some p => if connected then skipped.call (.removing i p) else skipped

/-- The file's `place`, up to its first await. -/
def place (i : ℕ) (held : Option Backend) : FileView :=
  if v.item.temp = none then v else (v.setState .verifying).call (.placeBackend i held)

/-- The file's `fileFailed`. -/
def fileFailed (i : ℕ) (interruption : Bool) : FileView :=
  let closed := v.edit fun item => { item with sink := none }
  if interruption then
    (match v.item.sink with
      | none => closed
      | some s => closed.call (.aborting i s)).setState .interrupted
  else (closed.setState .failed).restartFile.call (.failedAbort i v.item.sink v.item.temp)

/-- The file's `finishFile`, up to its first await. -/
def finishFile (i : ℕ) : FileView :=
  match v.item.sink with
  | none => v
  | some s =>
    if v.item.state = .sending then
      (v.edit fun item => { item with sink := none, state := .verifying }).call
        (.finish i s v.item.hash)
    else v

/-- The file has its name on the host. -/
def filePlaced (path : Option HostPath) (outcome : Outcome) : FileView :=
  v.edit fun item =>
    { item with path, outcome := some outcome, temp := none, tempWhole := false, state := .placed }

/-- A resolution is known: the file is placed, or queued. -/
def goAgain (i : ℕ) (action : Action) (held : Option Backend) : FileView :=
  let resolved := v.edit fun item => { item with resolution := some action }
  if v.item.tempWhole then resolved.place i held else resolved.setState .queued

/-- A window is to be asked. -/
def ask : FileView :=
  (if v.item.tempWhole then v
    else v.edit fun item => { item with sink := none, temp := none }).setState .conflict

/-- The file's `conflictFound`. -/
def conflictFound (i : ℕ) (policy : Policy) (existing : Option FileEntry)
    (held : Option Backend) (connected : Bool) : FileView :=
  let typeClash := (existing.map FileEntry.folderLike).getD false
  let found := v.edit fun item => { item with existing, typeClash, late := true }
  match policy with
  | .skip => found.skip i connected
  | .keepBoth => found.goAgain i .keepBoth held
  | .replace => if typeClash then found.ask else found.goAgain i .replace held
  | .ask => found.ask

/-- `open` opens the file's temporary. -/
def openFile (o : Opening) : FileView :=
  match v.item.temp with
  | none => v
  | some temp => v.call (.openTemp o temp v.item.acked false)

/-- `open`, a temporary to be made. -/
def openNew (o : Opening) (verify : Bool) (random : String) : FileView :=
  (v.edit fun item =>
    { item with
      direct := false
      hash := if verify then some [] else item.hash
      temp := some (tempPathFor o.target random) }).openFile o

/-- An open goes on to a new temporary, a name of its own, or the one it has. -/
def openGoOn (o : Opening) (verify : Bool) (random : String) : FileView :=
  if v.item.temp = none then
    if v.item.resolution = some .replace then v.openNew o verify random
    else v.call (.openPlacement o)
  else v.openFile o

/-- An open has the host: what was sent before is looked at. -/
def openReached (o : Opening) (verify : Bool) (random : String) : FileView :=
  match v.item.temp with
  | some temp =>
    if 0 < v.item.acked then v.call (.openStat o temp) else v.call (.openRemove o (some temp))
  | none => v.openGoOn o verify random

/-- An open knows how much there is of its temporary. -/
def openLooked (o : Opening) (there : Option Stat) (verify : Bool) (random : String) : FileView :=
  let size := sizeThere there
  if (if o.exec && !v.item.carried then size = v.item.acked else v.item.acked ≤ size) then
    if v.item.acked < size then v.call (.openTruncate o v.item.temp v.item.acked)
    else v.openGoOn o verify random
  else v.call (.openRemove o v.item.temp)

/-- One turn of `openDirect`; the name it tries is `path`'s last. -/
def openDirect (o : Opening) (n : ℕ) (path : HostPath) : FileView :=
  if keepBothTries < n then v.await (.openFailed o.i false) else v.call (.openDirect o n path)

/-- A temporary is open. -/
def openedTemp (i : ℕ) : FileView :=
  let opened := { v with key := v.key + 1 }
  if v.item.state = .sending then
    (opened.edit fun item => { item with sink := some v.key }).await (.opened i)
  else (opened.edit fun item => { item with sink := none }).call (.openStopped i v.key)

/-- The file is open under its own name. -/
def openedDirect (i : ℕ) (path : HostPath) (name : Option String) : FileView :=
  ({ v with key := v.key + 1 }.edit fun item =>
    { item with sink := some v.key, temp := some path, finalName := name }).await (.opened i)

/-- What an open does that finds its file stopped. -/
def openStopped (i : ℕ) (connected : Bool) : FileView :=
  if v.item.state = .cancelled then
    match v.item.temp with
    | none => v.restartFile.await (.opened i)
    | some p =>
      if connected then v.restartFile.call (.openStoppedRemove i p)
      else v.restartFile.await (.opened i)
  else v.await (.opened i)

/-- `receive` of a chunk, up to the write. -/
def receiving (i offset : ℕ) (data : List UInt8) : FileView :=
  match v.item.sink with
  | none => v
  | some s =>
    if v.item.state = .sending ∧ v.item.writing = false ∧ (offset : ℤ) = v.item.acked ∧ data ≠ [] ∧
        offset + data.length ≤ v.item.size then
      (v.edit fun item => { item with writing := true }).call (.write i s offset data)
    else v

/-- A chunk is written. -/
def written (i s : ℕ) (data : List UInt8) : FileView :=
  let ended := v.edit fun item => { item with writing := false }
  if v.item.state = .sending then
    let grown := ended.edit fun item =>
      { item with hash := item.hash.map (· ++ data), acked := item.acked + data.length }
    if grown.item.acked = grown.item.size then grown.finishFile i else grown
  else ended.call (.afterStop i (some s))

/-- A chunk could not be written. -/
def writeFailed (i : ℕ) (interruption : Bool) : FileView :=
  (if v.item.state = .sending then v.fileFailed i interruption else v).edit fun item =>
    { item with writing := false }

/-- `afterStop`: the temporary of a cancelled file is removed. -/
def stopped (i : ℕ) (connected : Bool) : FileView :=
  if v.item.state = .cancelled then
    match v.item.temp with
    | none => v.restartFile
    | some p => if connected then v.restartFile.call (.removing i p) else v.restartFile
  else v

/-- The check is over: the file is placed, or was in place. -/
def finished (i : ℕ) (how : Verification) (held : Option Backend) : FileView :=
  let checked := v.edit fun item =>
    { item with verification := some how, tempWhole := true, hash := none }
  if v.item.direct then
    checked.filePlaced v.item.temp (if v.item.finalName.isSome then .keptBoth else .placed)
  else checked.place i held

/-- `changedFile`, of a file that is to start again. -/
def restarted (i size : ℕ) (mtime : Option ℕ) : FileView :=
  (match v.item.temp with
    | none => v.restartFile
    | some p => v.restartFile.call (.removing i p)).edit fun item =>
    { item with size, mtime, verification := none }

@[simp] theorem phases_await (t : Task) : (v.await t).phases = v.phases ++ t.phase.toList := by
  unfold phases await
  cases h : t.phase <;> simp [h]

@[simp] theorem phases_call (t : Task) : (v.call t).phases = v.phases ++ t.phase.toList :=
  phases_await _ t

@[simp] theorem phases_edit (f : Item → Item) : (v.edit f).phases = v.phases := rfl

theorem interrupt_state (i : ℕ) : (v.interrupt i).item.state = .interrupted := by
  unfold interrupt
  split
  · rfl
  · split <;> rfl

theorem stopItem_state (i : ℕ) : (v.stopItem i).item.state = .cancelled := by
  unfold stopItem
  split <;> rfl

theorem dropItem_state (i : ℕ) : (v.dropItem i).item.state =
    if v.item.state.unsettled then .cancelled else v.item.state := by
  unfold dropItem
  split
  · rfl
  · split <;> rfl

theorem skip_item (i : ℕ) (connected : Bool) :
    (v.skip i connected).item.state = .skipped ∧ (v.skip i connected).item.temp = none := by
  unfold skip
  split
  · exact ⟨rfl, rfl⟩
  · split <;> exact ⟨rfl, rfl⟩

theorem restarted_item (i size : ℕ) (mtime : Option ℕ) :
    (v.restarted i size mtime).item.state = v.item.state ∧
      (v.restarted i size mtime).item.temp = none ∧
      (v.restarted i size mtime).phases = v.phases := by
  unfold restarted
  split
  · exact ⟨rfl, rfl, rfl⟩
  · exact ⟨rfl, rfl, by simp [Task.phase, restartFile]⟩

end FileView

/-! ### The service's functions, seen from a file -/

namespace Upload

variable {u u' : Upload} {i j : ℕ} {t : Task} {f : Item → Item} {state : ItemState}

theorem file_of_eq (hitem : u'.items j = u.items j) (htasks : u'.tasks = u.tasks)
    (hcalls : u'.calls = u.calls) (hkey : u'.nextKey = u.nextKey) : u'.file j = u.file j := by
  unfold file
  rw [hitem, htasks, hcalls, hkey]

@[simp] theorem file_edit_self : (u.edit i f).file i = (u.file i).edit f := by
  unfold file FileView.edit
  rw [edit_items, if_pos rfl]
  rfl

theorem file_edit_ne (h : j ≠ i) : (u.edit i f).file j = u.file j :=
  file_of_eq (by rw [edit_items, if_neg h]) rfl rfl rfl

@[simp] theorem file_await_self (h : t.file = some i) : (u.await t).file i = (u.file i).await t := by
  unfold file FileView.await await
  simp [h]

theorem file_await_ne (h : t.file ≠ some j) : (u.await t).file j = u.file j := by
  unfold file await
  simp [h]

@[simp] theorem file_call_self (h : t.file = some i) : (u.call t).file i = (u.file i).call t := by
  unfold file FileView.call FileView.await call await
  simp [h]

theorem file_call_ne (h : t.file ≠ some j) : (u.call t).file j = u.file j := by
  unfold file call await
  simp [h]

@[simp] theorem file_setState_self : (u.setState i state).file i = (u.file i).setState state := by
  obtain ⟨_, _, _, h⟩ := setState_shape u i state
  rw [h]
  exact file_edit_self (u := u) (f := fun item => { item with state })

theorem file_setState_ne (h : j ≠ i) : (u.setState i state).file j = u.file j := by
  obtain ⟨_, _, _, hshape⟩ := setState_shape u i state
  rw [hshape]
  exact file_edit_ne (u := u) (f := fun item => { item with state }) h

theorem file_addAcked_self (delta : ℤ) : (u.addAcked i delta).file i =
    (u.file i).edit fun item => { item with acked := item.acked + delta } := by
  obtain ⟨_, _, h⟩ := addAcked_shape u i delta
  rw [h]
  exact file_edit_self (u := u) (f := fun item => { item with acked := item.acked + delta })

theorem file_addAcked_ne (h : j ≠ i) (delta : ℤ) : (u.addAcked i delta).file j = u.file j := by
  obtain ⟨_, _, hshape⟩ := addAcked_shape u i delta
  rw [hshape]
  exact file_edit_ne (u := u) (f := fun item => { item with acked := item.acked + delta }) h

@[simp] theorem file_restartFile_self : (u.restartFile i).file i = (u.file i).restartFile := by
  unfold restartFile
  rw [file_edit_self, file_addAcked_self]
  simp [FileView.edit, FileView.restartFile, file]

theorem file_restartFile_ne (h : j ≠ i) : (u.restartFile i).file j = u.file j :=
  (file_edit_ne h).trans (file_addAcked_ne h _)

theorem file_resize_self (size : ℕ) (mtime : Option ℕ) : (u.resize i size mtime).file i =
    (u.file i).edit fun item => { item with size, mtime, verification := none } := by
  obtain ⟨_, _, h⟩ := resize_shape u i size mtime
  rw [h]
  exact file_edit_self (u := u) (f := fun item => { item with size, mtime, verification := none })

theorem file_resize_ne (h : j ≠ i) (size : ℕ) (mtime : Option ℕ) :
    (u.resize i size mtime).file j = u.file j := by
  obtain ⟨_, _, hshape⟩ := resize_shape u i size mtime
  rw [hshape]
  exact file_edit_ne (u := u) (f := fun item => { item with size, mtime, verification := none }) h

@[simp] theorem file_releaseBackend : u.releaseBackend.file j = u.file j := rfl

@[simp] theorem file_backendOf : u.backendOf.1.file j = u.file j := by
  unfold backendOf
  split
  · split
    · exact file_releaseBackend
    · rfl
  · exact file_releaseBackend

@[simp] theorem file_enqueue : (u.enqueue i).file j = u.file j := by
  obtain ⟨_, _, _, h⟩ := enqueue_shape u i
  rw [h]
  rfl

@[simp] theorem file_enqueueQueued (ids : List ℕ) : (u.enqueueQueued ids).file j = u.file j := by
  obtain ⟨_, _, _, h⟩ := enqueueQueued_shape u ids
  rw [h]
  rfl

@[simp] theorem file_queueAgain_self : (u.queueAgain i).file i = (u.file i).setState .queued :=
  file_enqueue.trans file_setState_self

theorem file_queueAgain_ne (h : j ≠ i) : (u.queueAgain i).file j = u.file j :=
  file_enqueue.trans (file_setState_ne h)

@[simp] theorem awaitBackend_tree {t : Option Backend → Task} :
    (u.awaitBackend t).tree = u.tree := by
  unfold awaitBackend backendOf
  split
  · split <;> rfl
  · rfl

@[simp] theorem place_tree : (u.place i).tree = u.tree := by
  unfold place
  split
  · rfl
  · exact awaitBackend_tree.trans setState_tree

@[simp] theorem requeue_tree : (u.requeue i).tree = u.tree := by
  unfold requeue queueAgain
  split
  · exact place_tree
  · exact enqueue_tree.trans setState_tree

theorem file_awaitBackend_self {t : Option Backend → Task} (h : ∀ held, (t held).file = some i) :
    (u.awaitBackend t).file i = (u.file i).call (t u.backendOf.2) := by
  unfold awaitBackend
  rw [file_call_self (h _), file_backendOf]

theorem file_awaitBackend_ne {t : Option Backend → Task} (h : ∀ held, (t held).file ≠ some j) :
    (u.awaitBackend t).file j = u.file j := by
  unfold awaitBackend
  rw [file_call_ne (h _), file_backendOf]

@[simp] theorem file_item : (u.file i).item = u.items i := rfl

theorem file_place (u : Upload) (i : ℕ) : ∃ held, (u.place i).file i = (u.file i).place i held := by
  let verifying := u.setState i .verifying
  refine ⟨{ verifying with busy := verifying.busy + 1 }.backendOf.2, ?_⟩
  unfold place FileView.place
  rw [file_item]
  split
  · rfl
  · refine (file_awaitBackend_self fun _ => rfl).trans ?_
    exact congrArg (FileView.call · _) file_setState_self

theorem file_place_ne (h : j ≠ i) : (u.place i).file j = u.file j := by
  unfold place
  split
  · rfl
  · refine (file_awaitBackend_ne (t := .placeBackend i) fun _ => ?_).trans (file_setState_ne h)
    simpa [Task.file] using h.symm

theorem file_requeue_ne (h : j ≠ i) : (u.requeue i).file j = u.file j := by
  unfold requeue
  split
  · exact file_place_ne h
  · exact file_queueAgain_ne h

theorem file_admitFile (u : Upload) (i : ℕ) : ∃ held, (u.admitFile i).file i =
    ((u.file i).setState .sending).call (.openBackend i held) := by
  refine ⟨(u.setState i .sending).backendOf.2, ?_⟩
  unfold admitFile
  rw [file_awaitBackend_self fun _ => rfl, file_setState_self]

theorem file_admitFile_ne (h : j ≠ i) : (u.admitFile i).file j = u.file j := by
  refine (file_awaitBackend_ne (t := .openBackend i) fun _ => ?_).trans (file_setState_ne h)
  simpa [Task.file] using h.symm

@[simp] theorem admitFile_tree : (u.admitFile i).tree = u.tree :=
  awaitBackend_tree.trans setState_tree

theorem requeue_moves (u : Upload) (i : ℕ) :
    ((u.requeue i).items i).state = .queued ∨ ((u.requeue i).items i).state = .verifying ∨
      u.requeue i = u := by
  unfold requeue place queueAgain
  split
  · split
    · exact .inr (.inr rfl)
    · refine .inr (.inl ?_)
      rw [awaitBackend_items]
      rw [setState_items, if_pos rfl]
  · refine .inl ?_
    rw [enqueue_items, setState_items, if_pos rfl]

theorem file_interrupt : (u.interrupt i).file i = (u.file i).interrupt i := by
  have hedit : ((u.edit i fun item => { item with sink := none }).setState i .interrupted).file i =
      (u.file i).edit fun item => { item with sink := none, state := .interrupted } := by
    rw [file_setState_self, file_edit_self]
    rfl
  have hwriting : (((u.edit i fun item => { item with sink := none }).setState i
      .interrupted).items i).writing = (u.items i).writing :=
    congrArg (fun v : FileView => v.item.writing) hedit
  unfold interrupt FileView.interrupt
  rw [file_item]
  cases (u.items i).sink with
  | none => exact hedit
  | some s =>
    dsimp only
    rw [hwriting]
    split
    · exact hedit
    · rw [file_call_self rfl, hedit]

theorem file_interrupt_ne (h : j ≠ i) : (u.interrupt i).file j = u.file j := by
  have hedit : ((u.edit i fun item => { item with sink := none }).setState i .interrupted).file j =
      u.file j :=
    (file_setState_ne h).trans (file_edit_ne h)
  unfold interrupt
  dsimp only
  split
  · exact hedit
  · split
    · exact hedit
    · exact (file_call_ne (by simpa [Task.file] using h.symm)).trans hedit

theorem file_filePlaced (path : Option HostPath) (outcome : Outcome) :
    (u.filePlaced i path outcome).file i = (u.file i).filePlaced path outcome := by
  unfold filePlaced
  rw [file_setState_self, file_edit_self]
  rfl

theorem file_interruptAll (hs : (u.items i).state ≠ .sending ∧ (u.items i).state ≠ .queued) :
    u.interruptAll.file i = u.file i := by
  unfold interruptAll
  split
  · rfl
  · refine List.foldlRecOn (motive := fun v : Upload => v.file i = u.file i) _ _ rfl ?_
    intro v hv j _
    split
    · next hj =>
      rw [← hv]
      refine file_interrupt_ne ?_
      rintro rfl
      have hitem : v.items i = u.items i := congrArg FileView.item hv
      rw [hitem] at hj
      exact hj.elim hs.1 hs.2
    · exact hv

theorem file_fileFailed (interruption : Bool) :
    (u.fileFailed i interruption).file i = (u.file i).fileFailed i interruption := by
  unfold fileFailed FileView.fileFailed
  rw [file_item]
  cases interruption with
  | true =>
    have hstate : ∀ v : Upload, ((v.setState i .interrupted).items i).state = .interrupted := by
      intro v
      rw [setState_items, if_pos rfl]
    simp only [if_true]
    rw [file_interruptAll (by rw [hstate]; decide), file_setState_self]
    cases (u.items i).sink with
    | none =>
      rw [file_edit_self]
    | some s =>
      rw [file_call_self rfl, file_edit_self]
  | false =>
    simp only [Bool.false_eq_true, if_false]
    rw [file_call_self rfl, file_restartFile_self, file_setState_self, file_edit_self]
    rw [setState_items, if_pos rfl, edit_items, if_pos rfl]

theorem edit_tree (f : Item → Item) : (u.edit i f).tree = u.tree := rfl

theorem skip_file (fuel : ℕ) (hi : u.tree.kind i = .file) : skip (fuel + 1) u i =
    let skipped := ((u.edit i fun item => { item with outcome := some .skipped }).setState i
      .skipped).restartFile i
    match (u.items i).temp with
    | none => skipped
    | some p => if skipped.backend = none then skipped else skipped.call (.removing i p) := by
  rw [skip, setState_tree, edit_tree]
  cases (u.items i).temp <;> rw [hi]

theorem skip_dir (fuel : ℕ) (hi : u.tree.kind i = .dir) : skip (fuel + 1) u i =
    (u.tree.children i).foldl (fun w c =>
      if (w.items c).state ≠ .placed ∧ (w.items c).state ≠ .skipped then skip fuel w c else w)
      ((u.edit i fun item => { item with outcome := some .skipped }).setState i .skipped) := by
  rw [skip, setState_tree, edit_tree, hi]

theorem file_skip_self (fuel : ℕ) (hi : u.tree.kind i = .file) :
    ∃ connected, (skip (fuel + 1) u i).file i = (u.file i).skip i connected := by
  let skipped := (u.edit i fun item => { item with outcome := some .skipped }).setState i .skipped
  have hview : (skipped.restartFile i).file i = ((u.file i).edit fun item =>
      { item with outcome := some .skipped, state := .skipped }).restartFile := by
    rw [file_restartFile_self, file_setState_self, file_edit_self]
    rfl
  refine ⟨(skipped.restartFile i).backend.isSome, ?_⟩
  rw [skip_file fuel hi]
  unfold FileView.skip
  rw [file_item]
  cases (u.items i).temp with
  | none => exact hview
  | some p =>
    dsimp only
    cases (skipped.restartFile i).backend with
    | none => exact hview
    | some b =>
      rw [if_neg (by simp), if_pos (by simp), file_call_self rfl, hview]

theorem file_skip_ne (fuel : ℕ) (h : j ≠ i) (hi : u.tree.kind i = .file) :
    (skip fuel u i).file j = u.file j := by
  cases fuel with
  | zero => rfl
  | succ fuel =>
    let skipped := (u.edit i fun item => { item with outcome := some .skipped }).setState i .skipped
    have hskipped : (skipped.restartFile i).file j = u.file j :=
      (file_restartFile_ne h).trans ((file_setState_ne h).trans (file_edit_ne h))
    rw [skip_file fuel hi]
    dsimp only
    split
    · exact hskipped
    · split
      · exact hskipped
      · exact (file_call_ne (by simpa [Task.file] using h.symm)).trans hskipped

theorem skip_tree (fuel : ℕ) (u : Upload) (i : ℕ) : (skip fuel u i).tree = u.tree := by
  induction fuel generalizing u i with
  | zero => rfl
  | succ fuel ih =>
    let skipped := (u.edit i fun item => { item with outcome := some .skipped }).setState i .skipped
    have hskipped : skipped.tree = u.tree := setState_tree
    have hrestarted : (skipped.restartFile i).tree = u.tree := addAcked_tree _ |>.trans hskipped
    cases hkind : u.tree.kind i with
    | file =>
      rw [skip_file fuel hkind]
      dsimp only
      split
      · exact hrestarted
      · split <;> exact hrestarted
    | dir =>
      rw [skip_dir fuel hkind]
      refine List.foldlRecOn (motive := fun w : Upload => w.tree = u.tree) _ _ hskipped ?_
      intro w hw c _
      split
      · exact (ih w c).trans hw
      · exact hw

theorem file_conflictFound (existing : Option FileEntry) (hi : u.tree.IsFile i) :
    ∃ held connected, (u.conflictFound i existing).file i =
      (u.file i).conflictFound i u.onConflict existing held connected := by
  let typeClash := (existing.map FileEntry.folderLike).getD false
  let found := u.edit i fun item => { item with existing, typeClash, late := true }
  let foundView := (u.file i).edit fun item => { item with existing, typeClash, late := true }
  have hfound : found.file i = foundView := file_edit_self
  have hagain : ∀ action, ∃ held,
      (if ((found.edit i fun item => { item with resolution := some action }).items i).tempWhole then
          (found.edit i fun item => { item with resolution := some action }).place i
        else (found.edit i fun item => { item with resolution := some action }).queueAgain i).file i =
      foundView.goAgain i action held := by
    intro action
    obtain ⟨held, hplace⟩ :=
      file_place (found.edit i fun item => { item with resolution := some action }) i
    rw [file_edit_self, hfound] at hplace
    have hwhole : ((found.edit i fun item => { item with resolution := some action }).items
        i).tempWhole = foundView.item.tempWhole := by
      rw [edit_items, if_pos rfl, ← hfound]
      rfl
    refine ⟨held, ?_⟩
    unfold FileView.goAgain
    rw [hwhole]
    split
    · exact hplace
    · rw [file_queueAgain_self, file_edit_self, hfound]
  have hask : ((if (found.items i).tempWhole then found
      else found.edit i fun item => { item with sink := none, temp := none }).setState i
        .conflict).file i = foundView.ask := by
    unfold FileView.ask
    rw [file_setState_self, ← hfound, file_item]
    split
    · rfl
    · rw [file_edit_self]
  unfold conflictFound FileView.conflictFound
  change ∃ held connected, (match u.onConflict with
    | .skip => skip found.tree.size found i
    | .keepBoth => _
    | .replace => _
    | .ask => _ : Upload).file i = _
  cases u.onConflict with
  | ask => exact ⟨none, false, hask⟩
  | skip =>
    obtain ⟨n, hn⟩ := Nat.exists_eq_add_one_of_ne_zero (Nat.ne_of_gt (Nat.zero_lt_of_lt hi.1))
    obtain ⟨connected, hskip⟩ := file_skip_self (u := found) n hi.2
    refine ⟨none, connected, ?_⟩
    change (skip u.tree.size found i).file i = foundView.skip i connected
    rw [hn, hskip, hfound]
  | keepBoth =>
    obtain ⟨held, h⟩ := hagain .keepBoth
    exact ⟨held, false, h⟩
  | replace =>
    obtain ⟨held, h⟩ := hagain .replace
    refine ⟨held, false, ?_⟩
    dsimp only
    split
    · exact hask
    · exact h

theorem stopItem_file (fuel : ℕ) (hi : u.tree.kind i = .file) : stopItem (fuel + 1) u i =
    let stopped := (u.edit i fun item => { item with sink := none }).setState i .cancelled
    if (stopped.items i).writing then stopped else stopped.afterStop i (u.items i).sink := by
  rw [stopItem, setState_tree, edit_tree, hi]

theorem stopItem_dir (fuel : ℕ) (hi : u.tree.kind i = .dir) : stopItem (fuel + 1) u i =
    (u.tree.children i).foldl (fun w c =>
      if (w.items c).state = .queued ∨ (w.items c).state = .conflict ∨
          (w.items c).state = .interrupted ∨ (w.items c).state = .sending then
        stopItem fuel w c
      else w) ((u.edit i fun item => { item with sink := none }).setState i .cancelled) := by
  rw [stopItem, setState_tree, edit_tree, hi]

theorem file_stopItem_self (fuel : ℕ) (hi : u.tree.kind i = .file) :
    (stopItem (fuel + 1) u i).file i = (u.file i).stopItem i := by
  let stopped := (u.edit i fun item => { item with sink := none }).setState i .cancelled
  have hview : stopped.file i =
      (u.file i).edit fun item => { item with sink := none, state := .cancelled } := by
    rw [file_setState_self, file_edit_self]
    rfl
  have hwriting : (stopped.items i).writing = (u.items i).writing :=
    congrArg (fun v : FileView => v.item.writing) hview
  rw [stopItem_file fuel hi]
  unfold FileView.stopItem
  rw [file_item]
  dsimp only
  rw [hwriting]
  split
  · exact hview
  · exact (file_call_self rfl).trans (congrArg (FileView.call · _) hview)

theorem file_openFile (o : Opening) : (u.openFile o).file o.i = (u.file o.i).openFile o := by
  unfold openFile FileView.openFile
  rw [file_item]
  cases (u.items o.i).temp with
  | none => rfl
  | some temp => exact file_call_self rfl

theorem file_openNew_temp (o : Opening) (random : String) :
    (u.openNew o false random).file o.i = (u.file o.i).openNew o u.verify random := by
  unfold openNew FileView.openNew
  simp only [Bool.false_eq_true, if_false]
  rw [file_openFile, file_edit_self, file_edit_self]
  rfl

theorem file_openDirect (o : Opening) (n : ℕ) :
    ∃ path, (u.openDirect o n).file o.i = (u.file o.i).openDirect o n path := by
  unfold openDirect FileView.openDirect
  split
  · exact ⟨[], file_await_self rfl⟩
  · exact ⟨_, file_call_self rfl⟩

theorem file_openNew_direct (o : Opening) (random : String) : ∃ n path,
    (u.openNew o true random).file o.i = ((u.file o.i).edit fun item =>
      { item with direct := true, hash := if u.verify then some [] else item.hash }).call
        (.openDirect o n path) := by
  let direct := u.edit o.i fun item =>
    { item with direct := true, hash := if u.verify then some [] else item.hash }
  let n := if (direct.items o.i).resolution = some .keepBoth then 1 else 0
  have hn : ¬keepBothTries < n := by
    dsimp only [n]
    split <;> decide
  obtain ⟨path, hpath⟩ := file_openDirect (u := direct) o n
  rw [FileView.openDirect, if_neg hn, file_edit_self] at hpath
  exact ⟨n, path, hpath⟩

theorem file_openGoOn (o : Opening) (random : String) :
    (u.openGoOn o random).file o.i = (u.file o.i).openGoOn o u.verify random := by
  unfold openGoOn FileView.openGoOn
  rw [file_item]
  split
  · split
    · exact file_openNew_temp o random
    · exact file_call_self rfl
  · exact file_openFile o

theorem file_openReached (random : String) (b : Backend) : ∃ target,
    (u.openReached i random b).file i =
      (u.file i).openReached ⟨i, b.exec, target⟩ u.verify random := by
  refine ⟨joinHostPath (u.parentPath i) ((u.items i).finalName.getD (u.tree.name i)), ?_⟩
  unfold openReached FileView.openReached
  rw [file_item]
  cases (u.items i).temp with
  | none => exact file_openGoOn ⟨i, b.exec, _⟩ random
  | some temp =>
    dsimp only
    split <;> exact file_call_self rfl

theorem file_openLooked (o : Opening) (there : Option Stat) (random : String) :
    (u.openLooked o there random).file o.i = (u.file o.i).openLooked o there u.verify random := by
  unfold openLooked FileView.openLooked
  rw [file_item]
  rw [apply_ite (Upload.file · o.i), apply_ite (Upload.file · o.i), file_openGoOn,
    file_call_self rfl, file_call_self rfl]

theorem file_openedTemp : (u.openedTemp i).file i = (u.file i).openedTemp i := by
  let opened := { u with nextKey := u.nextKey + 1 }.edit i fun item =>
    { item with sink := some u.nextKey }
  have hopened : opened.file i = { u.file i with key := u.nextKey + 1 }.edit fun item =>
      { item with sink := some u.nextKey } :=
    file_edit_self
  have hstate : (opened.items i).state = (u.items i).state :=
    congrArg (fun v : FileView => v.item.state) hopened
  unfold openedTemp FileView.openedTemp
  change (if (opened.items i).state = .sending then _ else _ : Upload).file i =
    if (u.items i).state = .sending then _ else _
  rw [hstate]
  split
  · exact (file_await_self rfl).trans (congrArg (FileView.await · _) hopened)
  · refine (file_call_self rfl).trans (congrArg (FileView.call · _) ?_)
    rw [file_edit_self, hopened]
    rfl

theorem file_openedDirect (o : Opening) (n : ℕ) (path : HostPath) :
    ∃ name, (u.openedDirect o n path).file o.i = (u.file o.i).openedDirect o.i path name := by
  refine ⟨if n = 0 then (u.items o.i).finalName
    else some (keepBothName (u.tree.name o.i) n .file), ?_⟩
  refine (file_await_self rfl).trans ?_
  rw [file_edit_self]
  rfl

theorem restartFile_connected : (u.restartFile i).connected = u.connected := by
  obtain ⟨_, _, hshape⟩ := addAcked_shape u i (-(u.items i).acked)
  unfold restartFile connected
  rw [hshape]
  rfl

theorem file_openStopped :
    (u.openStopped i).file i = (u.file i).openStopped i u.connected := by
  unfold openStopped FileView.openStopped
  rw [file_item]
  split
  · cases (u.items i).temp with
    | none => exact (file_await_self rfl).trans (congrArg (FileView.await · _) file_restartFile_self)
    | some p =>
      dsimp only
      rw [restartFile_connected]
      split
      · exact (file_call_self rfl).trans (congrArg (FileView.call · _) file_restartFile_self)
      · exact (file_await_self rfl).trans (congrArg (FileView.await · _) file_restartFile_self)
  · exact file_await_self rfl

/-! ### Its bytes -/

theorem file_finishFile : (u.finishFile i).file i = (u.file i).finishFile i := by
  unfold finishFile FileView.finishFile
  rw [file_item]
  cases (u.items i).sink with
  | none => rfl
  | some s =>
    dsimp only
    split
    · let verifying := (u.edit i fun item => { item with sink := none }).setState i .verifying
      have hview : verifying.file i =
          (u.file i).edit fun item => { item with sink := none, state := .verifying } := by
        rw [file_setState_self, file_edit_self]
        rfl
      have hhash : (verifying.items i).hash = (u.items i).hash :=
        congrArg (fun v : FileView => v.item.hash) hview
      refine (file_call_self rfl).trans ?_
      rw [← hhash]
      exact congrArg (FileView.call · _) hview
    · rfl

theorem file_receiving (offset : ℕ) (data : List UInt8) :
    (u.receiving i offset data).file i = (u.file i).receiving i offset data := by
  unfold receiving FileView.receiving
  rw [file_item]
  dsimp only
  cases (u.items i).sink with
  | none => rfl
  | some s =>
    dsimp only
    split
    · exact (file_call_self rfl).trans (congrArg (FileView.call · _) file_edit_self)
    · rfl

theorem file_written (s : ℕ) (data : List UInt8) :
    (u.written i s data).file i = (u.file i).written i s data := by
  let ended := u.edit i fun item => { item with writing := false }
  have hended : ended.file i = (u.file i).edit fun item => { item with writing := false } :=
    file_edit_self
  have hstate : (ended.items i).state = (u.items i).state :=
    congrArg (fun v : FileView => v.item.state) hended
  let grown := (ended.edit i fun item => { item with hash := item.hash.map (· ++ data) }).addAcked i
    data.length
  have hgrown : grown.file i = ((u.file i).edit fun item => { item with writing := false }).edit
      fun item =>
        { item with hash := item.hash.map (· ++ data), acked := item.acked + data.length } := by
    rw [file_addAcked_self, file_edit_self, hended]
    rfl
  unfold written FileView.written
  change (if (ended.items i).state = .sending then
      (if (grown.items i).acked = (grown.items i).size then grown.finishFile i else grown)
    else ended.afterStop i (some s) : Upload).file i = _
  dsimp only
  rw [hstate, ← hgrown, ← hended, file_item]
  split
  · rw [file_item]
    split
    · exact file_finishFile
    · rfl
  · exact file_call_self rfl

theorem file_writeFailed (interruption : Bool) :
    (u.writeFailed i interruption).file i = (u.file i).writeFailed i interruption := by
  unfold writeFailed FileView.writeFailed
  rw [file_edit_self, file_item]
  split
  · rw [file_fileFailed]
  · rfl

theorem file_stopped : (u.stopped i).file i = (u.file i).stopped i u.connected := by
  unfold stopped FileView.stopped
  rw [file_item]
  split
  · cases (u.items i).temp with
    | none => exact file_restartFile_self
    | some p =>
      dsimp only
      rw [restartFile_connected]
      split
      · exact (file_call_self rfl).trans (congrArg (FileView.call · _) file_restartFile_self)
      · exact file_restartFile_self
  · rfl

theorem file_finished (how : Verification) :
    ∃ how' held, (u.finished i how).file i = (u.file i).finished i how' held := by
  let checked := { u with busy := u.busy - 1 }.edit i fun item =>
    { item with verification := some (u.verificationOf i how), tempWhole := true, hash := none }
  have hchecked : checked.file i = (u.file i).edit fun item =>
      { item with verification := some (u.verificationOf i how), tempWhole := true, hash := none } :=
    file_edit_self
  have hdirect : (checked.items i).direct = (u.items i).direct :=
    congrArg (fun v : FileView => v.item.direct) hchecked
  obtain ⟨held, hplace⟩ := file_place checked i
  refine ⟨u.verificationOf i how, held, ?_⟩
  unfold finished FileView.finished
  change (if (checked.items i).direct then checked.filePlaced i _ _ else checked.place i).file i =
    if (u.items i).direct then _ else _
  rw [hdirect]
  split
  · rw [file_filePlaced, hchecked]
    have htemp : (checked.items i).temp = (u.items i).temp :=
      congrArg (fun v : FileView => v.item.temp) hchecked
    have hname : (checked.items i).finalName = (u.items i).finalName :=
      congrArg (fun v : FileView => v.item.finalName) hchecked
    rw [htemp, hname]
    rfl
  · rw [hplace, hchecked]

/-! ### The rest -/

theorem file_changedFile_ne {f : ResumeFile} (h : i ≠ f.file) :
    (u.changedFile f).file i = u.file i := by
  cases f with
  | skip k =>
    unfold changedFile
    dsimp only
    split
    · next hk => exact file_skip_ne _ h hk.2.1
    · rfl
  | restart k size mtime =>
    have h : i ≠ k := h
    unfold changedFile
    dsimp only
    split
    · refine (file_resize_ne h size mtime).trans ?_
      split
      · exact file_restartFile_ne h
      · exact (file_call_ne (by simpa [Task.file] using Ne.symm h)).trans (file_restartFile_ne h)
    · rfl

theorem file_changedFile_self (u : Upload) (f : ResumeFile) (hlt : f.file < u.tree.size)
    (hi : u.tree.kind f.file = .file) :
    (u.items f.file).resumable = false ∧ u.changedFile f = u ∨
      (u.items f.file).resumable = true ∧
        ((∃ connected, (u.changedFile f).file f.file = (u.file f.file).skip f.file connected) ∨
          ∃ size mtime,
            (u.changedFile f).file f.file = (u.file f.file).restarted f.file size mtime) := by
  cases f with
  | skip k =>
    unfold changedFile
    dsimp only [ResumeFile.file] at hlt hi ⊢
    cases hr : (u.items k).resumable with
    | false => exact .inl ⟨rfl, if_neg (by simp)⟩
    | true =>
      rw [if_pos ⟨hlt, hi, rfl⟩]
      obtain ⟨fuel, hfuel⟩ := Nat.exists_eq_succ_of_ne_zero (Nat.ne_of_gt (Nat.zero_lt_of_lt hlt))
      rw [hfuel]
      exact .inr ⟨rfl, .inl (file_skip_self fuel hi)⟩
  | restart k size mtime =>
    unfold changedFile
    dsimp only [ResumeFile.file] at hlt hi ⊢
    cases hr : (u.items k).resumable with
    | false => exact .inl ⟨rfl, if_neg (by simp)⟩
    | true =>
      rw [if_pos ⟨hlt, hi, rfl⟩]
      refine .inr ⟨rfl, .inr ⟨size, mtime, ?_⟩⟩
      rw [file_resize_self]
      unfold FileView.restarted
      rw [file_item]
      cases (u.items k).temp with
      | none => exact congrArg (FileView.edit · _) file_restartFile_self
      | some p =>
        exact congrArg (FileView.edit · _)
          ((file_call_self rfl).trans (congrArg (FileView.call · _) file_restartFile_self))

theorem changedFile_tree (u : Upload) (f : ResumeFile) : (u.changedFile f).tree = u.tree := by
  cases f with
  | skip k =>
    unfold changedFile
    dsimp only
    split
    · exact skip_tree _ u k
    · rfl
  | restart k size mtime =>
    have hrestart : (u.restartFile k).tree = u.tree := addAcked_tree _
    unfold changedFile
    dsimp only
    split
    · rw [resize_tree]
      split <;> exact hrestart
    · rfl

theorem file_foldersLoop : u.foldersLoop.file i = u.file i := by
  unfold foldersLoop
  split
  · rfl
  · exact file_awaitBackend_ne (u := { u with folderQueue := u.folderQueue.drop folderBatch })
      (t := .foldersBackend _ _) fun _ => nofun

theorem file_createFolders : u.createFolders.file i = u.file i := file_foldersLoop

theorem createFolders_tree : u.createFolders.tree = u.tree := by
  unfold createFolders foldersLoop
  split
  · rfl
  · exact awaitBackend_tree

theorem file_lookThrew (key : ℕ) (interruption : Bool) :
    (u.lookThrew key interruption).file i = u.file i := by
  unfold lookThrew
  split
  · rfl
  · dsimp only
    split
    · rfl
    · exact file_await_ne (u := u) (t := .lookFailed interruption) nofun

theorem file_dropItem : (u.dropItem i).file i = (u.file i).dropItem i := by
  unfold dropItem FileView.dropItem
  rw [file_item]
  dsimp only
  cases (u.items i).sink with
  | none => exact file_edit_self
  | some s =>
    dsimp only
    split
    · exact file_edit_self
    · exact (file_call_self rfl).trans (congrArg (FileView.call · _) file_edit_self)

theorem file_dropItem_ne (h : j ≠ i) : (u.dropItem i).file j = u.file j := by
  unfold dropItem
  dsimp only
  split
  · exact file_edit_ne h
  · split
    · exact file_edit_ne h
    · exact (file_call_ne (by simpa [Task.file] using h.symm)).trans (file_edit_ne h)

end Upload

end Lasterm.Transfer.Uploads
