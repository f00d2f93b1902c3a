import Lasterm.Lib.Tally
import Lasterm.Transfer.Sources
import Mathlib.Data.Int.Notation
import Mathlib.Data.List.Sort
import Mathlib.Logic.Function.Basic
import Mathlib.Logic.Relation

/-!
# An upload

What the transfer service keeps of one upload (`transfers/transfer-service.ts`): its tree,
what each file and folder is at, the totals of every folder, the queues, and the calls to
the host that are under way, each with what the service does when it is answered.

The functions here run without an await.  A function of the source that awaits is cut at
its awaits: what it does up to the first is here, what it does after each is in
`UploadRun`, and in between it is a `Task`.

## Main definitions

* `UploadTree` — the files and folders of an upload, and which is in which.
* `Item`, `Totals`, `Upload` — what changes.
* `Task` — something the service waits for, and what it does when it comes.
* `setState`, `addAcked` — the two edits that keep the totals.

Left out are the texts of reasons, and what is only said to windows: what is dirty, what
was said, the timers.
-/

namespace Lasterm.Transfer.Uploads

/-! ### The tree -/

/-- `TransferItemKind`. -/
inductive Kind
  | file
  | dir
  deriving DecidableEq

/-- One file or folder: its place in the tree. -/
structure TreeItem where
  relPath : List String
  kind : Kind
  /-- The folder it is in; none at the destination's top. -/
  parent : Option ℕ

/-- A tree as `buildUploadTree` accepts it: what an item is in is a folder of the upload,
with a shorter path. -/
structure UploadTree where
  items : List TreeItem
  parent_dir : ∀ (i : ℕ) item, items[i]? = some item → ∀ p, item.parent = some p →
    ∃ folder, items[p]? = some folder ∧ folder.kind = .dir ∧
      folder.relPath.length < item.relPath.length

namespace UploadTree

variable (t : UploadTree)

/-- How many items there are. -/
def size : ℕ := t.items.length

/-- What an item is; a file, past the end. -/
def kind (i : ℕ) : Kind := (t.items[i]?.map TreeItem.kind).getD .file

/-- The folder an item is in, if it is in one. -/
def parent (i : ℕ) : Option ℕ := t.items[i]?.bind TreeItem.parent

/-- What is in a folder: each item is pushed to its folder's, in the order of the ids. -/
def children (i : ℕ) : List ℕ := (List.range t.size).filter fun c => t.parent c = some i

/-- How deep an item is: the names in its path. -/
def depth (i : ℕ) : ℕ := (t.items[i]?.map fun item => item.relPath.length).getD 0

/-- Folders before what is in them, shallowest first. -/
def order : List ℕ :=
  (List.range t.size).insertionSort fun a b =>
    t.depth a < t.depth b ∨ t.depth a = t.depth b ∧ a ≤ b

/-- Its last name. -/
def name (i : ℕ) : String := ((t.items[i]?.bind fun item => item.relPath.getLast?)).getD ""

/-- The loop of `totalsAbove`: a folder, the folder it is in, and so on up. -/
def chain : ℕ → Option ℕ → List ℕ
  | 0, _ => []
  | _, none => []
  | fuel + 1, some p => p :: chain fuel (t.parent p)

/-- The folders an item is in. There are no more of them than names in its path. -/
def foldersAbove (i : ℕ) : List ℕ := t.chain (t.depth i) (t.parent i)

/-- The item is in the folder's subtree. -/
def Under (folder i : ℕ) : Prop :=
  Relation.TransGen (fun p c => t.parent c = some p) folder i

end UploadTree

/-! ### Items -/

/-- `TransferConflictAction`. -/
inductive Action
  | replace
  | keepBoth
  | skip
  deriving DecidableEq

/-- `TransferOnConflict`. -/
inductive Policy
  | ask
  | replace
  | keepBoth
  | skip
  deriving DecidableEq

/-- `TransferOutcome`. -/
inductive Outcome
  | placed
  | replaced
  | keptBoth
  | skipped
  | created
  | merged
  deriving DecidableEq

/-- `TransferVerification`. -/
inductive Verification
  | size
  | sha256
  | noHashTool
  | sizeResumed
  deriving DecidableEq

/-- What has an item's name at the destination: `isFolderLike` or not. -/
structure FileEntry where
  folderLike : Bool
  deriving DecidableEq

/-- A path on the host, by its names from the destination down. -/
abbrev HostPath := List String

/-- `joinHostPath`, of paths as lists of names. -/
def joinHostPath (dir : HostPath) (name : String) : HostPath := dir ++ [name]

/-- `keepBothName`: the number goes before the extension of a file that has one. -/
def keepBothName (name : String) (n : ℕ) (kind : Kind) : String :=
  let chars := name.toList
  let ext := chars.reverse.takeWhile (· ≠ '.')
  let dot := chars.length - ext.length - 1
  if kind = .file ∧ chars.contains '.' ∧ 0 < dot then
    String.ofList (chars.take dot) ++ " (" ++ toString n ++ ")" ++ String.ofList (chars.drop dot)
  else name ++ " (" ++ toString n ++ ")"

/-- `tempPathFor`: hidden, beside its target. -/
def tempPathFor (target : HostPath) (random : String) : HostPath :=
  target.dropLast ++ ["." ++ target.getLast?.getD "" ++ "." ++ random ++ ".partial"]

/-- What a file or folder is at. -/
structure Item where
  size : ℕ
  mtime : Option ℕ
  state : ItemState
  existing : Option FileEntry
  typeClash : Bool
  late : Bool
  resolution : Option Action
  finalName : Option String
  path : Option HostPath
  outcome : Option Outcome
  verification : Option Verification
  acked : ℤ
  /-- Its temporary on the host, while it is not placed. -/
  temp : Option HostPath
  tempWhole : Bool
  direct : Bool
  hash : Option (List UInt8)
  sink : Option ℕ
  writing : Bool
  carried : Bool

namespace Item

/-- An item of a new upload. -/
def new (size : ℕ) (mtime : Option ℕ) : Item where
  size := size
  mtime := mtime
  state := .queued
  existing := none
  typeClash := false
  late := false
  resolution := none
  finalName := none
  path := none
  outcome := none
  verification := none
  acked := 0
  temp := none
  tempWhole := false
  direct := false
  hash := none
  sink := none
  writing := false
  carried := false

end Item

/-! ### Totals -/

/-- `Totals`: of the files in a folder, or in the whole upload. -/
structure Totals where
  files : ℕ
  bytes : ℤ
  acked : ℤ
  states : OrderedMap ItemState ℕ

/-- The totals of nothing. -/
def emptyTotals : Totals := ⟨0, 0, 0, .empty⟩

/-! ### Calls under way -/

/-- A connection to the host, as the upload holds it. -/
structure Backend where
  id : ℕ
  exec : Bool
  lost : Bool
  deriving DecidableEq

/-- How a file is placed under its name. -/
inductive Placing
  | replace
  | keepBoth (n : ℕ)
  | plain
  deriving DecidableEq

/-- What a resume says of a file its window found gone or changed. -/
inductive ResumeFile
  | skip (i : ℕ)
  | restart (i : ℕ) (size : ℕ) (mtime : Option ℕ)
  deriving DecidableEq

/-- A file `open` opens: over which transport, and the name it is to get. -/
structure Opening where
  i : ℕ
  exec : Bool
  target : HostPath
  deriving DecidableEq

/-- Something the service waits for; `held` is what `backendOf` had to return. -/
inductive Task
  /-- `open`: the host is reached. -/
  | openBackend (i : ℕ) (held : Option Backend)
  | openStat (o : Opening) (temp : HostPath)
  | openTruncate (o : Opening) (temp : Option HostPath) (size : ℤ)
  /-- It removes that temporary, and starts again. -/
  | openRemove (o : Opening) (temp : Option HostPath)
  | openPlacement (o : Opening)
  | openDirect (o : Opening) (n : ℕ) (path : HostPath)
  /-- It opens the temporary; `again` after its first name was taken. -/
  | openTemp (o : Opening) (temp : HostPath) (resumeAt : ℤ) (again : Bool)
  /-- It was stopped meanwhile: `afterStop`, inside `open`. -/
  | openStopped (i : ℕ) (sink : ℕ)
  | openStoppedRemove (i : ℕ) (temp : HostPath)
  /-- `open` returned, or threw: what `admit` does then. -/
  | opened (i : ℕ)
  | openFailed (i : ℕ) (interruption : Bool)
  | receiving (i : ℕ) (offset : ℕ) (data : List UInt8)
  | write (i : ℕ) (sink : ℕ) (offset : ℕ) (data : List UInt8)
  | afterStop (i : ℕ) (sink : Option ℕ)
  /-- `sink.finish`, with the bytes hashed when it is to compare their hash. -/
  | finish (i : ℕ) (sink : ℕ) (hash : Option (List UInt8))
  | placeBackend (i : ℕ) (held : Option Backend)
  | placing (i : ℕ) (temp : Option HostPath) (target : HostPath) (how : Placing)
  /-- `fileFailed` closes the write, then removes the temporary. -/
  | failedAbort (i : ℕ) (sink : Option ℕ) (temp : Option HostPath)
  | aborting (i : ℕ) (sink : ℕ)
  | removing (i : ℕ) (temp : HostPath)
  /-- `createFolders`, with the batch it took and those of it not to be kept both. -/
  | foldersBackend (batch plain : List ℕ) (held : Option Backend)
  | mkdirs (batch plain : List ℕ) (paths : List HostPath)
  /-- `keepBothFolder` of a folder, the rest of its batch to come. -/
  | keepBothFolder (i : ℕ) (n : ℕ) (path : HostPath) (rest : List ℕ)
  /-- `retry` reaches the host. -/
  | retryConnect (again : List ℕ)
  | takeUpBackend (requester : String) (files : List ResumeFile) (held : Option Backend)
  /-- `lookAtTemp`, of the look-up of that number. -/
  | lookStat (key : ℕ) (i : ℕ) (temp : HostPath)
  | lookTruncate (key : ℕ) (i : ℕ) (temp : HostPath) (size : ℤ)
  | lookRemove (key : ℕ) (i : ℕ) (temp : HostPath)
  /-- `takeUp` looked at every temporary, or a look failed. -/
  | looked (requester : String)
  | lookFailed (interruption : Bool)
  deriving DecidableEq

/-- The look-up of a `takeUp`: what its workers have not come to, and how many work. -/
structure LookUp where
  requester : String
  todo : List ℕ
  running : ℕ
  failed : Bool

/-! ### The upload -/

/-- One upload, and the calls it has under way. -/
structure Upload where
  tree : UploadTree
  onConflict : Policy
  verify : Bool
  items : ℕ → Item
  folderTotals : ℕ → Totals
  totals : Totals
  folderStates : OrderedMap ItemState ℕ
  source : Option String
  backend : Option Backend
  queue : List ℕ
  folderQueue : List ℕ
  creatingFolders : Bool
  waiting : ℕ → List ℕ
  busy : ℕ
  linkDropped : Bool
  stale : Bool
  dropped : Bool
  tasks : List Task
  calls : List Task
  /-- Every answer to a conflict so far, oldest first: of which item, which, and whether it
  was a type clash then. -/
  answers : List (ℕ × Action × Bool)
  leases : List ℕ
  lookUps : ℕ → Option LookUp
  /-- The next number of a sink, a connection or a look-up. -/
  nextKey : ℕ

namespace Upload

/-! ### Edits -/

/-- An edit of one item. -/
def edit (u : Upload) (i : ℕ) (f : Item → Item) : Upload :=
  { u with items := Function.update u.items i (f (u.items i)) }

/-- Something is waited for. -/
def await (u : Upload) (t : Task) : Upload := { u with tasks := u.tasks ++ [t] }

/-- A call to the host is made, and waited for. -/
def call (u : Upload) (t : Task) : Upload := { u with calls := u.calls ++ [t] }.await t

/-- `totalsAbove`: an edit of the totals an item counts in. -/
def editTotals (u : Upload) (i : ℕ) (f : Totals → Totals) : Upload :=
  { u with
    totals := f u.totals
    folderTotals := fun k =>
      if k ∈ u.tree.foldersAbove i then f (u.folderTotals k) else u.folderTotals k }

/-- `setState`: the item's state, and the totals above it. -/
def setState (u : Upload) (i : ℕ) (state : ItemState) : Upload :=
  let before := (u.items i).state
  let u := u.edit i fun item => { item with state }
  if before = state then u
  else
    match u.tree.kind i with
    | .dir => { u with folderStates := u.folderStates.moveOne before state }
    | .file => u.editTotals i fun t => { t with states := t.states.moveOne before state }

/-- `addAcked`: the item's acknowledged bytes, and the totals above it. -/
def addAcked (u : Upload) (i : ℕ) (delta : ℤ) : Upload :=
  if delta = 0 then u
  else
    (u.edit i fun item => { item with acked := item.acked + delta }).editTotals i fun t =>
      { t with acked := t.acked + delta }

/-- `restartFile`: nothing of the file is on its way any more. -/
def restartFile (u : Upload) (i : ℕ) : Upload :=
  (u.addAcked i (-(u.items i).acked)).edit i fun item =>
    { item with temp := none, tempWhole := false, hash := none, carried := false }

/-- The connection is given back. -/
def releaseBackend (u : Upload) : Upload :=
  { u with
    backend := none
    leases :=
      match u.backend with
      | none => u.leases
      | some b => u.leases.erase b.id }

/-- `backendOf`, up to its await: one that is gone is let go of. -/
def backendOf (u : Upload) : Upload × Option Backend :=
  match u.backend with
  | some b => if b.lost then (u.releaseBackend, none) else (u, some b)
  | none => (u.releaseBackend, none)

/-- `await this.backendOf(upload)`. -/
def awaitBackend (u : Upload) (t : Option Backend → Task) : Upload :=
  u.backendOf.1.call (t u.backendOf.2)

/-- The upload has a connection that is not gone. -/
def connected (u : Upload) : Bool :=
  match u.backend with
  | none => false
  | some b => !b.lost

/-- Where the folder an item is in is on the host. -/
def parentPath (u : Upload) (i : ℕ) : HostPath :=
  match u.tree.parent i with
  | none => []
  | some p => (u.items p).path.getD []

/-- The folder an item is in is there. -/
def parentReady (u : Upload) (i : ℕ) : Bool :=
  match u.tree.parent i with
  | none => true
  | some p => (u.items p).state = .placed

/-! ### Queues -/

/-- `enqueue`: in a queue, or waiting for its folder. -/
def enqueue (u : Upload) (i : ℕ) : Upload :=
  if u.parentReady i then
    match u.tree.kind i with
    | .dir => { u with folderQueue := u.folderQueue ++ [i] }
    | .file => { u with queue := u.queue ++ [i] }
  else
    match u.tree.parent i with
    | none => u
    | some p => { u with waiting := Function.update u.waiting p (u.waiting p ++ [i]) }

/-- Queue those of a list that are queued. -/
def enqueueQueued (u : Upload) (ids : List ℕ) : Upload :=
  ids.foldl (fun u i => if (u.items i).state = .queued then u.enqueue i else u) u

/-- `enqueueReady` of the destination. -/
def enqueueReadyTop (u : Upload) : Upload := u.enqueueQueued u.tree.order

/-- `enqueueReady` of a folder now in place. -/
def enqueueReady (u : Upload) (folder : ℕ) : Upload :=
  { u with waiting := Function.update u.waiting folder [] }.enqueueQueued (u.waiting folder)

/-- `setState` to queued, and `enqueue`. -/
def queueAgain (u : Upload) (i : ℕ) : Upload := (u.setState i .queued).enqueue i

/-! ### Placing, stopping, failing -/

/-- `place`, up to its await. -/
def place (u : Upload) (i : ℕ) : Upload :=
  if (u.items i).temp = none then u
  else
    let u := u.setState i .verifying
    { u with busy := u.busy + 1 }.awaitBackend (.placeBackend i)

/-- `interrupt`: what is open is closed, unless it is being written. -/
def interrupt (u : Upload) (i : ℕ) : Upload :=
  let sink := (u.items i).sink
  let u := (u.edit i fun item => { item with sink := none }).setState i .interrupted
  match sink with
  | none => u
  | some s => if (u.items i).writing then u else u.call (.aborting i s)

/-- `interruptAll`: only when the connection went. -/
def interruptAll (u : Upload) : Upload :=
  if u.connected then u
  else
    let u := (List.range u.tree.size).foldl
      (fun u i =>
        if (u.items i).state = .sending ∨ (u.items i).state = .queued then u.interrupt i else u) u
    { u with linkDropped := u.linkDropped || u.source.isSome }.releaseBackend

/-- `fileFailed`: interrupted, or failed with its temporary removed. -/
def fileFailed (u : Upload) (i : ℕ) (interruption : Bool) : Upload :=
  let sink := (u.items i).sink
  let u := u.edit i fun item => { item with sink := none }
  if interruption then
    let u :=
      match sink with
      | none => u
      | some s => u.call (.aborting i s)
    (u.setState i .interrupted).interruptAll
  else
    let u := u.setState i .failed
    let temp := (u.items i).temp
    (u.restartFile i).call (.failedAbort i sink temp)

/-- `afterStop`, up to its await. -/
def afterStop (u : Upload) (i : ℕ) (sink : Option ℕ) : Upload := u.call (.afterStop i sink)

/-- `stopItem`: a folder's content with it. A way down the tree passes no item twice. -/
def stopItem : ℕ → Upload → ℕ → Upload
  | 0, u, _ => u
  | fuel + 1, u, i =>
    let sink := (u.items i).sink
    let u := (u.edit i fun item => { item with sink := none }).setState i .cancelled
    match u.tree.kind i with
    | .dir =>
      (u.tree.children i).foldl
        (fun u c =>
          if (u.items c).state = .queued ∨ (u.items c).state = .conflict ∨
              (u.items c).state = .interrupted ∨ (u.items c).state = .sending then
            stopItem fuel u c
          else u) u
    | .file => if (u.items i).writing then u else u.afterStop i sink

/-- `skip`: a folder's content with it. -/
def skip : ℕ → Upload → ℕ → Upload
  | 0, u, _ => u
  | fuel + 1, u, i =>
    let temp := (u.items i).temp
    let u := (u.edit i fun item => { item with outcome := some .skipped }).setState i .skipped
    match u.tree.kind i with
    | .file =>
      let u := u.restartFile i
      match temp with
      | none => u
      | some p => if u.backend = none then u else u.call (.removing i p)
    | .dir =>
      (u.tree.children i).foldl
        (fun u c =>
          if (u.items c).state ≠ .placed ∧ (u.items c).state ≠ .skipped then skip fuel u c
          else u) u

/-- `failSubtree`: what waits in the folder with it. -/
def failSubtree : ℕ → Upload → ℕ → Upload
  | 0, u, _ => u
  | fuel + 1, u, i =>
    let u := u.setState i .failed
    (u.tree.children i).foldl
      (fun u c =>
        if (u.items c).state = .queued ∨ (u.items c).state = .conflict then failSubtree fuel u c
        else u) u

/-- The file has its name on the host. -/
def filePlaced (u : Upload) (i : ℕ) (path : Option HostPath) (outcome : Outcome) : Upload :=
  (u.edit i fun item =>
    { item with path, outcome := some outcome, temp := none, tempWhole := false }).setState i
    .placed

/-- `conflictFound`: by the policy, or asked of the window. -/
def conflictFound (u : Upload) (i : ℕ) (existing : Option FileEntry) : Upload :=
  let typeClash := (existing.map FileEntry.folderLike).getD false
  let u := u.edit i fun item => { item with existing, typeClash, late := true }
  let again (u : Upload) (action : Action) : Upload :=
    let u := u.edit i fun item => { item with resolution := some action }
    if (u.items i).tempWhole then u.place i else u.queueAgain i
  let ask (u : Upload) : Upload :=
    let u :=
      if (u.items i).tempWhole then u
      else u.edit i fun item => { item with sink := none, temp := none }
    u.setState i .conflict
  match u.onConflict with
  | .skip => skip u.tree.size u i
  | .keepBoth => again u .keepBoth
  | .replace => if typeClash then ask u else again u .replace
  | .ask => ask u

/-! ### Folders -/

/-- `folderPlaced`: what waits for the folder is queued. -/
def folderPlaced (u : Upload) (i : ℕ) (path : HostPath) (outcome : Outcome) : Upload :=
  ((u.edit i fun item => { item with path := some path, outcome := some outcome }).setState i
    .placed).enqueueReady i

/-- `folderClash`: by the policy, or asked of the window. -/
def folderClash (u : Upload) (i : ℕ) (existing : Option FileEntry) : Upload :=
  let u := u.edit i fun item => { item with existing, typeClash := true, late := true }
  match u.onConflict with
  | .skip => skip u.tree.size u i
  | .keepBoth =>
    let u := u.edit i fun item => { item with resolution := some .keepBoth }
    { u with folderQueue := u.folderQueue ++ [i] }
  | .ask | .replace => u.setState i .conflict

/-- `FOLDER_BATCH`. -/
def folderBatch : ℕ := 500

/-- The loop of `createFolders`: the next batch, or its end. -/
def foldersLoop (u : Upload) : Upload :=
  if u.folderQueue = [] then { u with creatingFolders := false, busy := u.busy - 1 }
  else
    let batch := (u.folderQueue.take folderBatch).filter fun i => (u.items i).state = .queued
    let plain := batch.filter fun i => (u.items i).resolution ≠ some .keepBoth
    { u with folderQueue := u.folderQueue.drop folderBatch }.awaitBackend
      (.foldersBackend batch plain)

/-- `createFolders`, up to its first await. -/
def createFolders (u : Upload) : Upload :=
  { u with creatingFolders := true, busy := u.busy + 1 }.foldersLoop

/-- The catch of `createFolders`, and its end: what is in the folder queue stops. -/
def foldersFailed (u : Upload) (interruption : Bool) : Upload :=
  let left := u.folderQueue
  let u := left.foldl
    (fun u i =>
      if (u.items i).state ≠ .queued then u
      else if interruption then u.interrupt i
      else failSubtree u.tree.size u i) { u with folderQueue := [] }
  let u := if interruption then u.interruptAll else u
  { u with creatingFolders := false, busy := u.busy - 1 }

/-! ### Queueing again -/

/-- `requeue`: placed, if all its bytes are there; else queued. -/
def requeue (u : Upload) (i : ℕ) : Upload :=
  if u.tree.kind i = .file ∧ (u.items i).tempWhole then u.place i else u.queueAgain i

/-- Failed, cancelled or interrupted: what a retry takes up. -/
def again (u : Upload) (i : ℕ) : Bool :=
  (u.items i).state = .failed ∨ (u.items i).state = .cancelled ∨ (u.items i).state = .interrupted

/-- The folders above an item that a retry queues first, up to one it has met. -/
def requeueAbove (u : Upload) (requeued : List ℕ) (folders : List ℕ) : Upload × List ℕ :=
  (folders.takeWhile fun p => p ∉ requeued).foldl
    (fun (s : Upload × List ℕ) p =>
      if s.1.again p then (s.1.requeue p, p :: s.2) else s) (u, requeued)

/-- One turn of the loop of `requeueAll`. -/
def requeueOne (s : Upload × List ℕ) (i : ℕ) : Upload × List ℕ :=
  let s := s.1.requeueAbove s.2 (s.1.tree.foldersAbove i)
  if i ∈ s.2 then s else (s.1.requeue i, i :: s.2)

/-- `requeueAll`: an upload brought back gets its queues here. -/
def requeueAll (u : Upload) (again : List ℕ) : Upload :=
  let u := (again.foldl requeueOne (u, [])).1
  if u.stale then
    { u with stale := false, queue := [], folderQueue := [], waiting := fun _ => []
      }.enqueueReadyTop
  else u

end Upload

end Lasterm.Transfer.Uploads
