import Lasterm.Transfer.Upload

/-!
# An upload's runs

What the transfer service does with one upload when something it waits for comes, when a
window or a host says something, and when its timers run (`transfers/transfer-service.ts`).
Every await is a point where anything else may happen: `answer` takes up whichever task is
answered, in any order.

## Main definitions

* `Service`, `Step`, `next` — the service with one upload, and what can happen to it.
-/

namespace Lasterm.Transfer.Uploads

/-! ### Answers -/

/-- What `stat` finds. -/
structure Stat where
  isFile : Bool
  size : Option ℕ
  deriving DecidableEq

/-- How long the file there is; -1 when it is not one, or the host does not say. -/
def sizeThere (there : Option Stat) : ℤ :=
  match there with
  | some ⟨true, some n⟩ => n
  | _ => -1

/-- What comes of one folder of `mkdirs`. -/
inductive FolderResult
  | created
  | merged
  | clash (existing : Option FileEntry)
  | failed
  deriving DecidableEq

/-- What comes of something waited for. -/
inductive Answer
  | done
  | backend (exec : Bool)
  | stat (there : Option Stat)
  | placement (direct : Bool)
  | taken (existing : Option FileEntry)
  | verified (how : Verification)
  | folders (results : List FolderResult)
  /-- An error, which `isInterruption` or not. -/
  | fault (interruption : Bool)
  deriving DecidableEq

/-- `KEEP_BOTH_TRIES`. -/
def keepBothTries : ℕ := 10000

/-- `HOST_WORK_CONCURRENCY`. -/
def hostWorkConcurrency : ℕ := 8

/-- The states of a file a resume may change. -/
def Item.resumable (item : Item) : Bool :=
  item.state = .interrupted ∨ item.state = .queued ∨ item.state = .conflict ∨
    item.state = .failed ∨ item.state = .cancelled

namespace Upload

/-- What follows `await this.backendOf(upload)`: with a new connection, unless the upload
has one by now, or a throw. -/
def onBackend (u : Upload) (held : Option Backend) (threw : Bool → Upload)
    (go : Upload → Backend → Upload) : Answer → Option Upload
  | .done => held.map (go u)
  | .backend exec =>
    match held, u.backend with
    | some _, _ => none
    | none, some b => some (go u b)
    | none, none =>
      let b : Backend := ⟨u.nextKey, exec, false⟩
      some (go { u with backend := some b, leases := u.leases ++ [b.id], nextKey := u.nextKey + 1 } b)
  | .fault k => if held.isSome then none else some (threw k)
  | _ => none

/-! ### Opening a file -/

/-- `admit`, and `open` up to its first await. -/
def admitFile (u : Upload) (i : ℕ) : Upload := (u.setState i .sending).awaitBackend (.openBackend i)

/-- `open` opens the file's temporary. -/
def openFile (u : Upload) (o : Opening) : Upload :=
  match (u.items o.i).temp with
  | none => u
  | some temp => u.call (.openTemp o temp (u.items o.i).acked false)

/-- One turn of the loop of `openDirect`. -/
def openDirect (u : Upload) (o : Opening) (n : ℕ) : Upload :=
  if keepBothTries < n then u.await (.openFailed o.i false)
  else
    let name :=
      if n = 0 then (u.items o.i).finalName.getD (u.tree.name o.i)
      else keepBothName (u.tree.name o.i) n .file
    u.call (.openDirect o n (joinHostPath o.target.dropLast name))

/-- `open` knows how the file is to reach its name. -/
def openNew (u : Upload) (o : Opening) (direct : Bool) (random : String) : Upload :=
  let u := u.edit o.i fun item =>
    { item with direct, hash := if u.verify then some [] else item.hash }
  if direct then
    u.openDirect o (if (u.items o.i).resolution = some .keepBoth then 1 else 0)
  else
    (u.edit o.i fun item => { item with temp := some (tempPathFor o.target random) }).openFile o

/-- `open` goes on: with the temporary the file has, or a new one. -/
def openGoOn (u : Upload) (o : Opening) (random : String) : Upload :=
  if (u.items o.i).temp = none then
    if (u.items o.i).resolution = some .replace then u.openNew o false random
    else u.call (.openPlacement o)
  else u.openFile o

/-- `open`, the host reached. -/
def openReached (u : Upload) (i : ℕ) (random : String) (b : Backend) : Upload :=
  let target := joinHostPath (u.parentPath i) ((u.items i).finalName.getD (u.tree.name i))
  let o : Opening := ⟨i, b.exec, target⟩
  match (u.items i).temp with
  | some temp =>
    if 0 < (u.items i).acked then u.call (.openStat o temp) else u.call (.openRemove o (some temp))
  | none => u.openGoOn o random

/-- What there is of the temporary kept from before: it resumes where the host's bytes end. -/
def openLooked (u : Upload) (o : Opening) (there : Option Stat) (random : String) : Upload :=
  let item := u.items o.i
  let size := sizeThere there
  -- Appended to, what it holds must be all the hub sent, and hashed.
  if (if o.exec && !item.carried then size = item.acked else item.acked ≤ size) then
    if item.acked < size then u.call (.openTruncate o item.temp item.acked)
    else u.openGoOn o random
  else u.call (.openRemove o item.temp)

/-- A temporary is open. -/
def openedTemp (u : Upload) (i : ℕ) : Upload :=
  let s := u.nextKey
  let u := { u with nextKey := s + 1 }.edit i fun item => { item with sink := some s }
  if (u.items i).state = .sending then u.await (.opened i)
  else (u.edit i fun item => { item with sink := none }).call (.openStopped i s)

/-- A file is open under its own name. -/
def openedDirect (u : Upload) (o : Opening) (n : ℕ) (path : HostPath) : Upload :=
  let name := if n = 0 then (u.items o.i).finalName else some (keepBothName (u.tree.name o.i) n .file)
  ({ u with nextKey := u.nextKey + 1 }.edit o.i fun item =>
    { item with sink := some u.nextKey, temp := some path, finalName := name }).await (.opened o.i)

/-- `afterStop`, inside `open`, its write closed. -/
def openStopped (u : Upload) (i : ℕ) : Upload :=
  if (u.items i).state = .cancelled then
    let temp := (u.items i).temp
    let u := u.restartFile i
    match temp with
    | none => u.await (.opened i)
    | some p => if u.connected then u.call (.openStoppedRemove i p) else u.await (.opened i)
  else u.await (.opened i)

/-! ### Its bytes -/

/-- `finishFile`, up to its await. -/
def finishFile (u : Upload) (i : ℕ) : Upload :=
  match (u.items i).sink with
  | none => u
  | some s =>
    if (u.items i).state = .sending then
      let u := (u.edit i fun item => { item with sink := none }).setState i .verifying
      { u with busy := u.busy + 1 }.call (.finish i s (u.items i).hash)
    else u

/-- `receive`, its file open. -/
def receiving (u : Upload) (i offset : ℕ) (data : List UInt8) : Upload :=
  let item := u.items i
  match item.sink with
  | none => u
  | some s =>
    if item.state = .sending ∧ item.writing = false ∧ (offset : ℤ) = item.acked ∧ data ≠ [] ∧
        offset + data.length ≤ item.size then
      (u.edit i fun item => { item with writing := true }).call (.write i s offset data)
    else u

/-- `receive`, the host having acknowledged the chunk. -/
def written (u : Upload) (i s : ℕ) (data : List UInt8) : Upload :=
  let u := u.edit i fun item => { item with writing := false }
  if (u.items i).state = .sending then
    let u := (u.edit i fun item => { item with hash := item.hash.map (· ++ data) }).addAcked i
      data.length
    if (u.items i).acked = (u.items i).size then u.finishFile i else u
  else u.afterStop i (some s)

/-- `receive`, the write having failed. -/
def writeFailed (u : Upload) (i : ℕ) (interruption : Bool) : Upload :=
  let u := if (u.items i).state = .sending then u.fileFailed i interruption else u
  u.edit i fun item => { item with writing := false }

/-- `afterStop`, the write closed. -/
def stopped (u : Upload) (i : ℕ) : Upload :=
  if (u.items i).state = .cancelled then
    let temp := (u.items i).temp
    let u := u.restartFile i
    match temp with
    | none => u
    | some p => if u.connected then u.call (.removing i p) else u
  else u

/-- How the file was checked: over SSH commands, bytes an earlier hub sent are hashed by
nobody, and the size stands. -/
def verificationOf (u : Upload) (i : ℕ) (how : Verification) : Verification :=
  if (u.items i).carried ∧ u.verify ∧ u.backend.any Backend.exec ∧ how = .size then .sizeResumed
  else how

/-- `finishFile`, the host having checked the file. -/
def finished (u : Upload) (i : ℕ) (how : Verification) : Upload :=
  let how := u.verificationOf i how
  let u := { u with busy := u.busy - 1 }.edit i fun item =>
    { item with verification := some how, tempWhole := true, hash := none }
  if (u.items i).direct then
    u.filePlaced i (u.items i).temp (if (u.items i).finalName.isSome then .keptBoth else .placed)
  else u.place i

/-! ### Placing it -/

/-- The end of `place`. -/
def placeEnded (u : Upload) : Upload := { u with busy := u.busy - 1 }

/-- One turn of Keep both's loop in `place`. -/
def placeKeepBoth (u : Upload) (i : ℕ) (temp : Option HostPath) (parent : HostPath) (n : ℕ) :
    Upload :=
  if keepBothTries < n then (u.fileFailed i false).placeEnded
  else
    u.call (.placing i temp (joinHostPath parent (keepBothName (u.tree.name i) n .file))
      (.keepBoth n))

/-- `place`, the host reached. -/
def placeReached (u : Upload) (i : ℕ) : Upload :=
  let parent := u.parentPath i
  let temp := (u.items i).temp
  let target := joinHostPath parent (u.tree.name i)
  match (u.items i).resolution with
  | some .replace => u.call (.placing i temp target .replace)
  | some .keepBoth => u.placeKeepBoth i temp parent 1
  | _ => u.call (.placing i temp target .plain)

/-- `place`, the host having placed the file, or found something there. -/
def placeAnswered (u : Upload) (i : ℕ) (temp : Option HostPath) (target : HostPath) :
    Placing → Answer → Option Upload
  | _, .fault k => some (u.fileFailed i k).placeEnded
  | .replace, .done | .replace, .taken _ =>
    let outcome := if (u.items i).existing.isSome ∨ (u.items i).late then .replaced else .placed
    some (u.filePlaced i (some target) outcome).placeEnded
  | .keepBoth n, .done =>
    let u := u.edit i fun item =>
      { item with finalName := some (keepBothName (u.tree.name i) n .file) }
    some (u.filePlaced i (some target) .keptBoth).placeEnded
  | .keepBoth n, .taken _ => some (u.placeKeepBoth i temp target.dropLast (n + 1))
  | .plain, .done => some (u.filePlaced i (some target) .placed).placeEnded
  | .plain, .taken existing => some (u.conflictFound i existing).placeEnded
  | _, _ => none

/-! ### Creating folders -/

/-- `createFolders`, the host reached. -/
def foldersReached (u : Upload) (batch plain : List ℕ) : Upload :=
  u.call (.mkdirs batch plain
    (plain.map fun i => joinHostPath (u.parentPath i) (u.tree.name i)))

/-- What came of one folder. -/
def folderResult (u : Upload) (i : ℕ) (path : HostPath) (result : FolderResult) : Upload :=
  if (u.items i).state = .queued then
    match result with
    | .created => u.folderPlaced i path .created
    | .merged => u.folderPlaced i path .merged
    | .clash existing => u.folderClash i existing
    | .failed => failSubtree u.tree.size u i
  else u

/-- `keepBothFolder` tries a name. -/
def keepBothFolder (u : Upload) (i n : ℕ) (rest : List ℕ) : Upload :=
  u.call (.keepBothFolder i n
    (joinHostPath (u.parentPath i) (keepBothName (u.tree.name i) n .dir)) rest)

/-- The folders of a batch to be kept both, one after another, then the next batch. -/
def keepBothFolders (u : Upload) : List ℕ → Upload
  | [] => u.foldersLoop
  | i :: rest =>
    if (u.items i).state = .queued then u.keepBothFolder i 1 rest else u.keepBothFolders rest

/-- `createFolders`, the host having created the folders. -/
def foldersMade (u : Upload) (batch plain : List ℕ) (paths : List HostPath)
    (results : List FolderResult) : Upload :=
  let u := (plain.zip (paths.zip results)).foldl
    (fun u made => u.folderResult made.1 made.2.1 made.2.2) u
  u.keepBothFolders (batch.filter fun i => (u.items i).resolution = some .keepBoth)

/-- `keepBothFolder`, its name tried. -/
def keepBothAnswered (u : Upload) (i n : ℕ) (path : HostPath) (rest : List ℕ) :
    FolderResult → Upload
  | .created =>
    let u := u.edit i fun item =>
      { item with finalName := some (keepBothName (u.tree.name i) n .dir) }
    (u.folderPlaced i path .keptBoth).keepBothFolders rest
  | .failed => (failSubtree u.tree.size u i).keepBothFolders rest
  | .merged | .clash _ =>
    if n < keepBothTries then u.keepBothFolder i (n + 1) rest
    else (failSubtree u.tree.size u i).keepBothFolders rest

/-! ### Taking an upload up -/

/-- `takeUp`, up to its first await. -/
def takeUp (u : Upload) (requester : String) (files : List ResumeFile) : Upload :=
  { u with linkDropped := false, busy := u.busy + 1 }.awaitBackend (.takeUpBackend requester files)

/-- A file's size and time as they are now. -/
def resize (u : Upload) (i size : ℕ) (mtime : Option ℕ) : Upload :=
  let grown : ℤ := size - (u.items i).size
  let u := u.edit i fun item => { item with size, mtime, verification := none }
  if grown = 0 then u else u.editTotals i fun t => { t with bytes := t.bytes + grown }

/-- `changedFile`. -/
def changedFile (u : Upload) : ResumeFile → Upload
  | .skip i =>
    if i < u.tree.size ∧ u.tree.kind i = .file ∧ (u.items i).resumable then skip u.tree.size u i
    else u
  | .restart i size mtime =>
    if i < u.tree.size ∧ u.tree.kind i = .file ∧ (u.items i).resumable then
      let temp := (u.items i).temp
      let u := u.restartFile i
      let u :=
        match temp with
        | none => u
        | some p => u.call (.removing i p)
      u.resize i size mtime
    else u

/-- A look-up's worker takes the next file that has a temporary, or ends. -/
def lookNext (u : Upload) (key : ℕ) (l : LookUp) : List ℕ → Upload
  | [] =>
    if l.running ≤ 1 then
      let u := { u with lookUps := Function.update u.lookUps key none }
      if l.failed then u else u.await (.looked l.requester)
    else
      { u with
        lookUps := Function.update u.lookUps key (some { l with todo := [], running := l.running - 1 }) }
  | i :: todo =>
    match (u.items i).temp with
    | none => u.lookNext key l todo
    | some temp =>
      { u with lookUps := Function.update u.lookUps key (some { l with todo }) }.call
        (.lookStat key i temp)

/-- A worker saw to its file. -/
def lookDone (u : Upload) (key : ℕ) : Upload :=
  match u.lookUps key with
  | none => u
  | some l => u.lookNext key l l.todo

/-- A worker threw: the look-up fails, and the others go on. -/
def lookThrew (u : Upload) (key : ℕ) (interruption : Bool) : Upload :=
  match u.lookUps key with
  | none => u
  | some l =>
    let u := if l.failed then u else u.await (.lookFailed interruption)
    { u with
      lookUps := Function.update u.lookUps key
        (if l.running ≤ 1 then none else some { l with failed := true, running := l.running - 1 }) }

/-- `takeUp`, the host reached: the changed files are seen to, then the temporaries. -/
def takeUpReached (u : Upload) (requester : String) (files : List ResumeFile) : Upload :=
  let u := files.foldl changedFile u
  let kept := (List.range u.tree.size).filter fun i =>
    u.tree.kind i = .file ∧ (u.items i).temp ≠ none ∧ (u.items i).resumable
  if kept = [] then u.await (.looked requester)
  else
    let key := u.nextKey
    let l : LookUp :=
      ⟨requester, kept.drop hostWorkConcurrency, (kept.take hostWorkConcurrency).length, false⟩
    (kept.take hostWorkConcurrency).foldl
      (fun u i =>
        match (u.items i).temp with
        | none => u
        | some temp => u.call (.lookStat key i temp))
      { u with nextKey := key + 1, lookUps := Function.update u.lookUps key (some l) }

/-- `lookAtTemp`: its file starts again. Only a file is removed. -/
def lookStale (u : Upload) (key i : ℕ) (temp : HostPath) (isFile : Bool) : Upload :=
  if isFile then u.call (.lookRemove key i temp) else (u.restartFile i).lookDone key

/-- `lookAtTemp`, what is there known. -/
def lookedAt (u : Upload) (key i : ℕ) (temp : HostPath) (there : Option Stat) : Upload :=
  let item := u.items i
  let size := sizeThere there
  if item.tempWhole then
    if size = item.size then u.lookDone key
    else u.lookStale key i temp (there.any Stat.isFile)
  else if 0 < item.acked ∧ item.acked ≤ size then
    if size = item.acked then u.lookDone key else u.call (.lookTruncate key i temp item.acked)
  else u.lookStale key i temp (there.any Stat.isFile)

/-- The catch of `takeUp`. -/
def takeUpFailed (u : Upload) (interruption : Bool) : Upload :=
  let u := { u with busy := u.busy - 1 }
  if interruption then u.interruptAll else u

/-- What of the upload failed, was cancelled or interrupted, in its order. -/
def toQueueAgain (u : Upload) : List ℕ := u.tree.order.filter u.again

/-- The end of `takeUp`: its bytes come from this window from now on. -/
def takenUp (u : Upload) (requester : String) : Upload :=
  let u := { u with busy := u.busy - 1 }
  if u.dropped then u
  else { u with source := some requester }.requeueAll u.toQueueAgain

/-! ### Answering a task -/

/-- The rest of what waited for the task; `random` is of a temporary's name, if it makes one. -/
def answer (u : Upload) (random : String) : Task → Answer → Option Upload
  | .openBackend i held, a =>
    u.onBackend held (fun k => u.await (.openFailed i k)) (fun u b => u.openReached i random b) a
  | .openStat o _, .stat there => some (u.openLooked o there random)
  | .openStat o _, .fault _ => some (u.openLooked o none random)
  | .openTruncate o _ _, .done => some (u.openGoOn o random)
  | .openTruncate o _ _, .fault true => some (u.await (.openFailed o.i true))
  | .openTruncate o _ _, .fault false => some (u.call (.openRemove o (u.items o.i).temp))
  | .openRemove o _, .done => some ((u.restartFile o.i).openGoOn o random)
  | .openPlacement o, .placement direct => some (u.openNew o direct random)
  | .openPlacement o, .fault k => some (u.await (.openFailed o.i k))
  | .openDirect o n path, .done => some (u.openedDirect o n path)
  | .openDirect o n _, .taken existing =>
    if n = 0 then some ((u.conflictFound o.i existing).await (.opened o.i))
    else some (u.openDirect o (n + 1))
  | .openDirect o _ _, .fault k => some (u.await (.openFailed o.i k))
  | .openTemp o _ _ _, .done => some (u.openedTemp o.i)
  | .openTemp o _ resumeAt again, .taken _ =>
    if again ∨ 0 < (u.items o.i).acked then some (u.await (.openFailed o.i false))
    else
      let temp := tempPathFor o.target random
      some ((u.edit o.i fun item => { item with temp := some temp }).call
        (.openTemp o temp resumeAt true))
  | .openTemp o _ _ _, .fault k => some (u.await (.openFailed o.i k))
  | .openStopped i _, .done => some (u.openStopped i)
  | .openStoppedRemove i _, .done => some (u.await (.opened i))
  | .opened i, .done =>
    if (u.items i).state = .sending ∧ (u.items i).acked = (u.items i).size then
      some (u.finishFile i)
    else some u
  | .openFailed i k, .done =>
    if (u.items i).state = .sending then some (u.fileFailed i k) else some u
  | .receiving i offset data, .done => some (u.receiving i offset data)
  | .write i s _ data, .done => some (u.written i s data)
  | .write i _ _ _, .fault k => some (u.writeFailed i k)
  | .afterStop i _, .done => some (u.stopped i)
  | .finish i _ _, .verified how => some (u.finished i how)
  | .finish i _ _, .fault k => some ({ u with busy := u.busy - 1 }.fileFailed i k)
  | .placeBackend i held, a =>
    u.onBackend held (fun k => (u.fileFailed i k).placeEnded) (fun u _ => u.placeReached i) a
  | .placing i temp target how, a => u.placeAnswered i temp target how a
  | .failedAbort i _ temp, .done =>
    match temp with
    | none => some u
    | some p =>
      if (u.items i).direct ∨ u.backend = none then some u else some (u.call (.removing i p))
  | .aborting _ _, .done => some u
  | .removing _ _, .done => some u
  | .foldersBackend batch plain held, a =>
    u.onBackend held u.foldersFailed (fun u _ => u.foldersReached batch plain) a
  | .mkdirs batch plain paths, .folders results =>
    if results.length = paths.length then some (u.foldersMade batch plain paths results) else none
  | .mkdirs _ _ _, .fault k => some (u.foldersFailed k)
  | .keepBothFolder i n path rest, .folders [result] =>
    some (u.keepBothAnswered i n path rest result)
  | .keepBothFolder _ _ _ _, .fault k => some (u.foldersFailed k)
  | .retryConnect again, .done => some (u.requeueAll again)
  | .retryConnect _, .fault _ => some u
  | .takeUpBackend requester files held, a =>
    u.onBackend held u.takeUpFailed (fun u _ => u.takeUpReached requester files) a
  | .lookStat key i temp, .stat there => some (u.lookedAt key i temp there)
  | .lookStat key i temp, .fault k =>
    if k then some (u.lookThrew key true) else some (u.lookedAt key i temp none)
  | .lookTruncate key _ _ _, .done => some (u.lookDone key)
  | .lookTruncate key i temp _, .fault k =>
    if k then some (u.lookThrew key true) else some (u.call (.lookRemove key i temp))
  | .lookRemove key i _, .done => some ((u.restartFile i).lookDone key)
  | .looked requester, .done => some (u.takenUp requester)
  | .lookFailed k, .done => some (u.takeUpFailed k)
  | _, _ => none

/-- Whatever came of the connection, the answer goes through `onBackend`. -/
theorem answer_foldersBackend (u : Upload) (random : String) (batch plain : List ℕ)
    (held : Option Backend) (a : Answer) : u.answer random (.foldersBackend batch plain held) a =
      u.onBackend held u.foldersFailed (fun u _ => u.foldersReached batch plain) a := by
  cases a <;> rfl

theorem answer_placeBackend (u : Upload) (random : String) (i : ℕ) (held : Option Backend)
    (a : Answer) :
    u.answer random (.placeBackend i held) a =
      u.onBackend held (fun k => (u.fileFailed i k).placeEnded) (fun u _ => u.placeReached i) a := by
  cases a <;> rfl

theorem answer_takeUpBackend (u : Upload) (random : String) (requester : String)
    (files : List ResumeFile) (held : Option Backend) (a : Answer) :
    u.answer random (.takeUpBackend requester files held) a =
      u.onBackend held u.takeUpFailed (fun u _ => u.takeUpReached requester files) a := by
  cases a <;> rfl

/-! ### From a window, a host, a timer -/

/-- An item and everything under it. -/
def walk (tree : UploadTree) : ℕ → ℕ → List ℕ
  | 0, _ => []
  | fuel + 1, i => i :: (tree.children i).flatMap (walk tree fuel)

/-- `scoped`: one item, everything under a folder with it, or all. -/
def scopedItems (u : Upload) : Option ℕ → Option (List ℕ)
  | none => some (List.range u.tree.size)
  | some i => if i < u.tree.size then some (walk u.tree u.tree.size i) else none

/-- The answer to a conflict is noted. -/
def noteAnswer (u : Upload) (i : ℕ) (action : Action) : Upload :=
  { u with answers := u.answers ++ [(i, action, (u.items i).typeClash)] }.edit i fun item =>
    { item with resolution := some action }

/-- One turn of the loop of `resolve`. -/
def resolveItem (action : Action) (u : Upload) (i : ℕ) : Upload :=
  if (u.items i).state ≠ .conflict then u
  else if action = .replace ∧ (u.items i).typeClash then u
  else if action = .skip then skip u.tree.size u i
  else (u.noteAnswer i action).requeue i

/-- `resolve`: an answer to a conflict, or to all that remain. -/
def resolve (u : Upload) (scope : Option ℕ) (action : Action) : Upload :=
  match u.scopedItems scope with
  | none => u
  | some ids =>
    -- Asked of one item that is a type clash, Replace is refused.
    if action = .replace ∧ scope.any (fun i =>
        (u.items i).state = .conflict ∧ (u.items i).typeClash) then u
    else ids.foldl (resolveItem action) u

/-- `retry`: at once, or when the host is reached. -/
def retry (u : Upload) (scope : Option ℕ) (isConnected : Bool) : Upload :=
  match u.scopedItems scope with
  | none => u
  | some ids =>
    let again := ids.filter u.again
    if again = [] then u
    else if isConnected then u.requeueAll again
    else u.await (.retryConnect again)

/-- `cancel`, of one item or of all. -/
def cancel (u : Upload) (scope : Option ℕ) : Upload :=
  match u.scopedItems scope with
  | none => u
  | some ids =>
    ids.foldl
      (fun u i =>
        if (u.items i).state = .queued ∨ (u.items i).state = .sending ∨
            (u.items i).state = .conflict ∨ (u.items i).state = .interrupted then
          stopItem u.tree.size u i
        else u) u

/-- `interrupt` of every item in one of those states. -/
def interruptThose (u : Upload) (which : ItemState → Bool) : Upload :=
  (List.range u.tree.size).foldl
    (fun u i => if which (u.items i).state then u.interrupt i else u) u

/-- `clientGone`: the window that sent the upload is gone. -/
def clientGone (u : Upload) (client : String) : Upload :=
  if u.source = some client then
    interruptThose { u with source := none } fun state => state = .sending
  else u

/-- `interruptOn` the upload's host. -/
def interruptOn (u : Upload) : Upload :=
  (u.interruptThose fun state =>
    state = .queued ∨ state = .sending ∨ state = .verifying).releaseBackend

/-- `join`: another window sends it. -/
def join (u : Upload) (requester : String) : Upload :=
  { u with source := some requester, linkDropped := false }.requeueAll u.toQueueAgain

/-- The file loop of `pump`: while there is room, the next of the queue. -/
def pumpFiles (room : ℕ) (u : Upload) : List ℕ → Upload
  | [] => u
  | i :: rest =>
    if room = 0 then u
    else
      let u := { u with queue := rest }
      if (u.items i).state ≠ .queued then pumpFiles room u rest
      else if (u.items i).tempWhole then pumpFiles room (u.place i) rest
      else pumpFiles (room - 1) (u.admitFile i) rest

/-- `pump`, of this upload: `room` files of its window may start, if it may write. -/
def pump (u : Upload) (room : ℕ) (mayWrite : Bool) : Upload :=
  let u := if u.folderQueue ≠ [] ∧ u.creatingFolders = false then u.createFolders else u
  if u.source.isSome ∧ mayWrite then pumpFiles room u u.queue else u

/-- `receive`, up to its first await. -/
def receive (u : Upload) (requester : String) (i offset : ℕ) (data : List UInt8) : Upload :=
  if i < u.tree.size ∧ u.tree.kind i = .file ∧ u.source = some requester ∧
      (u.items i).state = .sending then
    u.await (.receiving i offset data)
  else u

/-- `resumeDropped`, of this upload. -/
def resumeDropped (u : Upload) : Upload :=
  match u.source with
  | none => u
  | some client =>
    let u := if u.backend.any Backend.lost then u.interruptAll else u
    if u.linkDropped then u.takeUp client [] else u

/-- `counted`: how many files and folders are in any of the states. -/
def counted (u : Upload) (states : List ItemState) : ℕ :=
  (states.map fun state =>
    (u.totals.states.get state).getD 0 + (u.folderStates.get state).getD 0).sum

/-- `isSettled`. -/
def isSettled (u : Upload) : Bool :=
  u.busy = 0 ∧ u.counted [.queued, .sending, .verifying, .conflict, .interrupted] = 0

/-- `isActive`. -/
def isActive (u : Upload) : Bool :=
  0 < u.busy ∨ u.creatingFolders ∨
    u.source.isSome ∧ 0 < u.counted [.queued, .sending, .verifying]

/-- `flush`, as far as it goes beyond telling: a connection nothing needs is let go of. -/
def flush (u : Upload) (sayDone : Bool) : Upload :=
  let u := if u.isSettled ∧ sayDone then u.releaseBackend else u
  if u.isActive = false ∧ u.source = none then u.releaseBackend else u

/-- What `drop` does to an item. -/
def dropItem (u : Upload) (i : ℕ) : Upload :=
  let item := u.items i
  let u := u.edit i fun item =>
    { item with sink := none, state := if item.state.unsettled then .cancelled else item.state }
  match item.sink with
  | none => u
  | some s => if item.writing then u else u.call (.aborting i s)

/-- `drop`: the upload goes from the service's map. -/
def drop (u : Upload) : Upload :=
  { (List.range u.tree.size).foldl dropItem u with
    queue := []
    folderQueue := []
    waiting := fun _ => []
    dropped := true }.releaseBackend

/-- What can happen to an upload in the service's map. -/
inductive Op
  | resolve (scope : Option ℕ) (action : Action)
  | retry (scope : Option ℕ) (isConnected : Bool)
  | cancel (scope : Option ℕ)
  | join (requester : String)
  | takeUp (requester : String) (files : List ResumeFile)
  | receive (requester : String) (i offset : ℕ) (data : List UInt8)
  | clientGone (client : String)
  | interruptOn
  | resumeDropped
  | pump (room : ℕ) (mayWrite : Bool)
  | flush (sayDone : Bool)
  | drop
  | forget
  deriving DecidableEq

/-- No window sends the upload, and a file of it is neither placed nor skipped. -/
def joinable (u : Upload) : Bool :=
  u.source.isNone && (List.range u.tree.size).any fun i =>
    u.tree.kind i = .file ∧ (u.items i).state ≠ .placed ∧ (u.items i).state ≠ .skipped

/-- What an operation makes of an upload. -/
def perform (u : Upload) : Op → Option Upload
  | .resolve scope action => some (u.resolve scope action)
  | .retry scope isConnected => some (u.retry scope isConnected)
  | .cancel scope => some (u.cancel scope)
  | .join requester => if u.joinable then some (u.join requester) else none
  | .takeUp requester files => some (u.takeUp requester files)
  | .receive requester i offset data => some (u.receive requester i offset data)
  | .clientGone client => some (u.clientGone client)
  | .interruptOn => some u.interruptOn
  | .resumeDropped => some u.resumeDropped
  | .pump room mayWrite => some (u.pump room mayWrite)
  | .flush sayDone => some (u.flush sayDone)
  | .drop => some u.drop
  | .forget =>
    if (List.range u.tree.size).all fun i =>
        (u.items i).state = .placed ∨ (u.items i).state = .skipped then
      some { u with dropped := true }
    else none

/-! ### Assembling an upload -/

/-- The totals of a file, added to those it counts in. -/
def countFile (u : Upload) (i : ℕ) : Upload :=
  u.editTotals i fun t =>
    { files := t.files + 1
      bytes := t.bytes + (u.items i).size
      acked := t.acked + (u.items i).acked
      states := t.states.countOne (u.items i).state }

/-- A folder, added to those in its state. -/
def countFolder (u : Upload) (i : ℕ) : Upload :=
  { u with folderStates := u.folderStates.countOne (u.items i).state }

/-- `assemble`: an upload of these items, its totals counted from what each is at. -/
def assemble (tree : UploadTree) (onConflict : Policy) (verify : Bool) (items : ℕ → Item)
    (source : Option String) (backend : Option Backend) : Upload :=
  let ids := List.range tree.size
  let folders := ids.filter fun i => tree.kind i = .dir
  let files := ids.filter fun i => tree.kind i = .file
  files.foldl countFile <| folders.foldl countFolder
    { tree, onConflict, verify, items
      folderTotals := fun _ => emptyTotals
      totals := emptyTotals
      folderStates := .empty
      source, backend
      queue := []
      folderQueue := []
      creatingFolders := false
      waiting := fun _ => []
      busy := 0
      linkDropped := false
      stale := false
      dropped := false
      tasks := []
      calls := []
      answers := []
      leases := backend.toList.map Backend.id
      lookUps := fun _ => none
      nextKey := 1 }

/-- One turn of the loop of `applyPolicy`. -/
def applyPolicyTo (u : Upload) (i : ℕ) : Upload :=
  let item := u.items i
  if item.existing = none ∨ item.state ≠ .queued then u
  else
    match u.onConflict with
    | .skip => skip u.tree.size u i
    | .keepBoth => u.edit i fun item => { item with resolution := some .keepBoth }
    | .replace =>
      if item.typeClash then u.setState i .conflict
      else u.edit i fun item => { item with resolution := some .replace }
    | .ask => u.setState i .conflict

/-- `applyPolicy`, to each item in order. -/
def applyPolicy (u : Upload) : Upload := u.tree.order.foldl applyPolicyTo u

end Upload

/-! ### What meta.db holds -/

/-- `TransferItemRecord`, less what the tree says. -/
structure Row where
  size : ℕ
  mtime : Option ℕ
  state : ItemState
  ackedOffset : ℤ
  tempPath : Option HostPath
  tempWhole : Bool
  direct : Bool
  finalName : Option String
  resolution : Option Action
  outcome : Option Outcome
  verification : Option Verification
  existing : Option FileEntry
  typeClash : Bool
  late : Bool

/-- What a row says of an item. -/
def itemRecord (item : Item) : Row where
  size := item.size
  mtime := item.mtime
  state := item.state
  ackedOffset := item.acked
  tempPath := item.temp
  tempWhole := item.tempWhole
  direct := item.direct
  finalName := item.finalName
  resolution := item.resolution
  outcome := item.outcome
  verification := item.verification
  existing := item.existing
  typeClash := item.typeClash
  late := item.late

/-- `revivedState`: one that was moving is interrupted. -/
def revivedState : ItemState → ItemState
  | .sending | .verifying => .interrupted
  | state => state

/-- An item of `bringBack`, from its row. -/
def Row.item (kind : Kind) (row : Row) : Item where
  size := row.size
  mtime := row.mtime
  state := revivedState row.state
  existing := row.existing
  typeClash := row.typeClash
  late := row.late
  resolution := row.resolution
  finalName := row.finalName
  path := none
  outcome := row.outcome
  verification := row.verification
  acked := match kind with
    | .dir => 0
    | .file => row.ackedOffset
  temp := row.tempPath
  tempWhole := row.tempWhole
  direct := row.direct
  hash := none
  sink := none
  writing := false
  carried := row.tempPath.isSome ∧ 0 < row.ackedOffset

/-- Where a folder that was put in place is, its parent's place known. -/
def folderPath (tree : UploadTree) (items : ℕ → Item) (i : ℕ) : ℕ → Item :=
  let item := items i
  if tree.kind i ≠ .dir ∨ item.outcome = none ∨ item.outcome = some .skipped then items
  else
    let parent :=
      match tree.parent i with
      | none => some []
      | some p => (items p).path
    match parent with
    | none => items
    | some dir =>
      Function.update items i
        { item with path := some (joinHostPath dir (item.finalName.getD (tree.name i))) }

/-- `bringBack`: an upload from its rows. -/
def bringBack (tree : UploadTree) (onConflict : Policy) (verify : Bool) (rows : ℕ → Row) : Upload :=
  let items := tree.order.foldl (folderPath tree) fun i => (rows i).item (tree.kind i)
  { Upload.assemble tree onConflict verify items none none with stale := true }

/-! ### The service -/

/-- An upload, and what meta.db holds of it. -/
structure Service where
  upload : Upload
  stored : Bool
  rows : ℕ → Row
  recordedDone : Bool
  discarded : Bool

/-- What `start` is asked, and finds. -/
structure Start where
  tree : UploadTree
  onConflict : Policy
  verify : Bool
  requester : String
  exec : Bool
  sizes : ℕ → ℕ
  mtimes : ℕ → Option ℕ
  /-- What has each item's name at the destination. -/
  found : ℕ → Option FileEntry
  stored : Bool

/-- An item as `create` makes it and `lookAtDestination` leaves it: a folder where a folder
goes is merged into. -/
def Start.item (start : Start) (i : ℕ) : Item :=
  match start.tree.kind i, start.found i with
  | .dir, none => .new 0 (start.mtimes i)
  | .dir, some entry =>
    if entry.folderLike then .new 0 (start.mtimes i)
    else { Item.new 0 (start.mtimes i) with existing := some entry, typeClash := true }
  | .file, none => .new (start.sizes i) (start.mtimes i)
  | .file, some entry =>
    { Item.new (start.sizes i) (start.mtimes i) with
      existing := some entry, typeClash := entry.folderLike }

/-- The upload `start` records. -/
def Start.upload (start : Start) : Upload :=
  (Upload.assemble start.tree start.onConflict start.verify start.item (some start.requester)
    (some ⟨0, start.exec, false⟩)).applyPolicy

/-- The service once `start` has returned. -/
def Start.service (start : Start) : Service where
  upload := start.upload.enqueueReadyTop
  stored := start.stored
  rows := fun i => itemRecord (start.upload.items i)
  recordedDone := start.upload.isSettled
  discarded := false

theorem Start.service_upload (start : Start) :
    start.service.upload = start.upload.enqueueQueued start.upload.tree.order := rfl

/-- What can happen. -/
inductive Step
  | work (op : Upload.Op)
  /-- A task is answered; `random` is of a temporary's name, if it makes one. -/
  | answer (t : Task) (a : Answer) (random : String)
  | lost
  /-- `save`: meta.db takes the rows of those items, and the upload's state. -/
  | save (ids : List ℕ)
  /-- `drop`, marked in meta.db. -/
  | discard
  /-- The hub ends, and another brings the upload back. -/
  | restart
  deriving DecidableEq

/-- What a step makes of the service. -/
def next (s : Service) : Step → Option Service
  | .work op =>
    if s.upload.dropped then none
    else (s.upload.perform op).map fun u => { s with upload := u }
  | .answer t a random =>
    if t ∈ s.upload.tasks then
      ({ s.upload with tasks := s.upload.tasks.erase t }.answer random t a).map fun u =>
        { s with upload := u }
    else none
  | .lost =>
    some { s with upload :=
      { s.upload with backend := s.upload.backend.map fun b => { b with lost := true } } }
  | .save ids =>
    if s.stored ∧ s.upload.dropped = false then
      some { s with
        rows := fun i => if i ∈ ids then itemRecord (s.upload.items i) else s.rows i
        recordedDone := s.upload.isSettled }
    else none
  | .discard =>
    if s.upload.dropped then none else some { s with upload := s.upload.drop, discarded := true }
  | .restart =>
    if s.stored ∧ s.recordedDone = false ∧ s.discarded = false then
      let u := bringBack s.upload.tree s.upload.onConflict s.upload.verify s.rows
      if u.isSettled then none
      else
        some { s with upload := { u with calls := s.upload.calls, answers := s.upload.answers } }
    else none

/-- What a step came to, by what it was. -/
inductive Stepped (s : Service) : Step → Service → Prop
  | work (op : Upload.Op) (u : Upload) (hd : s.upload.dropped = false)
      (hu : s.upload.perform op = some u) : Stepped s (.work op) { s with upload := u }
  | answer (t : Task) (a : Answer) (random : String) (u : Upload) (ht : t ∈ s.upload.tasks)
      (hu : { s.upload with tasks := s.upload.tasks.erase t }.answer random t a = some u) :
      Stepped s (.answer t a random) { s with upload := u }
  | lost : Stepped s .lost { s with upload :=
      { s.upload with backend := s.upload.backend.map fun b => { b with lost := true } } }
  | save (ids : List ℕ) (hd : s.upload.dropped = false) :
      Stepped s (.save ids) { s with
        rows := fun i => if i ∈ ids then itemRecord (s.upload.items i) else s.rows i
        recordedDone := s.upload.isSettled }
  | discard (hd : s.upload.dropped = false) :
      Stepped s .discard { s with upload := s.upload.drop, discarded := true }
  | restart :
      Stepped s .restart { s with upload :=
        { bringBack s.upload.tree s.upload.onConflict s.upload.verify s.rows with
          calls := s.upload.calls, answers := s.upload.answers } }

theorem Stepped.of_next {s s' : Service} {step : Step} (h : next s step = some s') :
    Stepped s step s' := by
  cases step with
  | work op =>
    obtain ⟨hd, h⟩ := Option.ite_none_left_eq_some.mp h
    obtain ⟨u, hu, rfl⟩ := Option.map_eq_some_iff.mp h
    exact .work op u (by simpa using hd) hu
  | answer t a random =>
    obtain ⟨ht, h⟩ := Option.ite_none_right_eq_some.mp h
    obtain ⟨u, hu, rfl⟩ := Option.map_eq_some_iff.mp h
    exact .answer t a random u ht hu
  | lost =>
    cases h
    exact .lost
  | save ids =>
    obtain ⟨⟨-, hd⟩, ⟨rfl⟩⟩ := Option.ite_none_right_eq_some.mp h
    exact .save ids hd
  | discard =>
    obtain ⟨hd, ⟨rfl⟩⟩ := Option.ite_none_left_eq_some.mp h
    exact .discard (by simpa using hd)
  | restart =>
    obtain ⟨-, h⟩ := Option.ite_none_right_eq_some.mp h
    obtain ⟨-, ⟨rfl⟩⟩ := Option.ite_none_left_eq_some.mp h
    exact .restart

/-! ### Uploads of one item -/

/-- The tree of one file, or of one folder with nothing in it. -/
def UploadTree.ofItem (kind : Kind) (name : String) : UploadTree where
  items := [⟨[name], kind, none⟩]
  parent_dir i item hitem p hp := by
    obtain rfl : item = ⟨[name], kind, none⟩ := by
      simpa using List.mem_of_getElem? hitem
    exact nomatch hp

/-- A window sends one item of that size, and meta.db takes its row. -/
def Start.ofItem (kind : Kind) (size : ℕ) (onConflict : Policy) (found : Option FileEntry) :
    Start where
  tree := .ofItem kind "a"
  onConflict := onConflict
  verify := false
  requester := "w"
  exec := false
  sizes := fun _ => size
  mtimes := fun _ => none
  found := fun _ => found
  stored := true

end Lasterm.Transfer.Uploads
