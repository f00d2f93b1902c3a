import Lasterm.Transfer.UploadWork

/-!
# A dropped upload

`drop` takes an upload out of the service's map, stops what it was doing and lets go of its
connection (`transfers/transfer-service.ts`).  What it was waiting for may still come: most of it
finds its item stopped, and ends there.

Some of it does not look.  A file that is checked is placed, and placing it asks for a connection;
a file that is opened under its own name appears there; a connection that was asked for is kept; a
retry that reached its host places what has all its bytes.

## Main definitions

* `Upload.goesOn` — the answers that go on; `Upload.Leased` — the connections an upload holds.

## Main results

* `nothing_after_drop`, `placed_after_drop` — runs without such answers, and one with.
* `queues_and_leases` — queues, tasks and connections, in every run.
-/

namespace Lasterm.Transfer.Uploads

open Transition Relation List Upload Function Option

/-- The call asks for a connection. -/
def Task.acquires : Task → Bool
  | .openBackend _ held | .placeBackend _ held | .foldersBackend _ _ held
  | .takeUpBackend _ _ held => held.isNone
  | _ => false

/-- The call puts a file under its name at the destination. -/
def Task.puts : Task → Bool
  | .placing _ _ _ _ | .openDirect _ _ _ => true
  | _ => false

/-- A file found in the way is placed over it, or beside it, at once: all its bytes are there, and
nobody is to be asked. -/
def Upload.placesOver (u : Upload) (i : ℕ) (existing : Option FileEntry) : Bool :=
  (u.items i).tempWhole ∧ (u.items i).temp ≠ none ∧
    (u.onConflict = .keepBoth ∨
      u.onConflict = .replace ∧ (existing.map FileEntry.folderLike).getD false = false)

/-- A retry of the item places a file at once, or queues a folder. -/
def Upload.retries (u : Upload) (i : ℕ) : Bool :=
  u.tree.kind i = .dir ∨ (u.tree.foldersAbove i).any u.again ∨
    (u.items i).tempWhole ∧ (u.items i).temp ≠ none

/-- What comes to a dropped upload, and makes it go on: a connection, a file it checked, a name it
may write to, a file it placed or opened under its name, a retry. -/
def Upload.goesOn (u : Upload) : Task → Answer → Bool
  | .openBackend _ _, .backend _ | .placeBackend _ _, .backend _ | .foldersBackend _ _ _, .backend _
  | .takeUpBackend _ _ _, .backend _ => true
  | .placeBackend _ _, .done => true
  | .openPlacement _, .placement direct => direct
  | .openDirect _ _ _, .done => true
  | .openDirect o n _, .taken existing =>
    if n = 0 then u.placesOver o.i existing else n < keepBothTries
  | .finish i _ _, .verified _ => (u.items i).direct ∨ (u.items i).temp ≠ none
  | .placing _ _ _ _, .done | .placing _ _ _ .replace, .taken _ => true
  | .placing _ _ _ (.keepBoth n), .taken _ => n < keepBothTries
  | .placing i _ _ .plain, .taken existing => u.placesOver i existing
  | .retryConnect again, .done => again.any u.retries
  | _, _ => false

/-- What an upload that is dropped may set an item to: a file is neither sent nor placed, a folder
neither sent nor queued. -/
def Kind.mayRest : Kind → ItemState → Bool
  | .file, state => state ≠ .sending ∧ state ≠ .placed
  | .dir, state => state ≠ .sending ∧ state ≠ .queued

/-- No file is placed or sent, no folder is queued, and no connection is asked for or let go. -/
structure Idles (u v : Upload) : Prop where
  tree : v.tree = u.tree
  standing : v.standing = u.standing
  backend : v.backend = u.backend
  leases : v.leases = u.leases
  folderQueue : v.folderQueue = u.folderQueue
  waiting : ∀ p, ∀ c ∈ v.waiting p, c ∈ u.waiting p ∨ u.tree.kind c = .file
  calls : ∃ made, v.calls = u.calls ++ made ∧ ∀ t ∈ made, t.acquires = false ∧ t.puts = false
  states : ∀ i, (v.items i).state = (u.items i).state ∨ (u.tree.kind i).mayRest (v.items i).state

namespace Idles

variable {u v w : Upload} {i : ℕ}

theorem refl (u : Upload) : Idles u u where
  tree := rfl
  standing := rfl
  backend := rfl
  leases := rfl
  folderQueue := rfl
  waiting _ _ hc := .inl hc
  calls := ⟨[], by simp, forall_mem_nil _⟩
  states _ := .inl rfl

theorem trans (h : Idles u v) (h' : Idles v w) : Idles u w where
  tree := h'.tree.trans h.tree
  standing := h'.standing.trans h.standing
  backend := h'.backend.trans h.backend
  leases := h'.leases.trans h.leases
  folderQueue := h'.folderQueue.trans h.folderQueue
  waiting p c hc := by
    rcases h'.waiting p c hc with hmem | hfile
    · exact h.waiting p c hmem
    · exact .inr (h.tree ▸ hfile)
  calls := by
    obtain ⟨made, heq, hquiet⟩ := h.calls
    obtain ⟨made', heq', hquiet'⟩ := h'.calls
    refine ⟨made ++ made', by rw [heq', heq, append_assoc], fun t ht => ?_⟩
    rcases mem_append.mp ht with hmem | hmem
    · exact hquiet t hmem
    · exact hquiet' t hmem
  states i := by
    rcases h'.states i with heq | hnew
    · rw [heq]
      exact h.states i
    · exact .inr (h.tree ▸ hnew)

theorem foldl {α : Type*} {f : Upload → α → Upload} {l : List α} (h : Idles u v)
    (hf : ∀ w a, Idles w (f w a)) : Idles u (l.foldl f v) :=
  foldlRecOn (motive := Idles u) l f h fun w hw a _ => hw.trans (hf w a)

theorem aside (u : Upload) (queue : List ℕ) (tasks : List Task) (lookUps : ℕ → Option LookUp)
    (nextKey busy : ℕ) (creatingFolders : Bool) :
    Idles u { u with queue, tasks, lookUps, nextKey, busy, creatingFolders } :=
  { refl u with tree := rfl }

theorem edit {f : Item → Item} (hf : (f (u.items i)).state = (u.items i).state) :
    Idles u (u.edit i f) := by
  refine { refl u with states := fun j => .inl ?_ }
  rw [edit_items]
  split
  · next hj => rw [hj, hf]
  · rfl

theorem setState {state : ItemState} (hs : (u.tree.kind i).mayRest state) :
    Idles u (u.setState i state) := by
  have hstates : ∀ j, ((u.setState i state).items j).state = (u.items j).state ∨
      (u.tree.kind j).mayRest ((u.setState i state).items j).state := by
    intro j
    rw [setState_items]
    by_cases hj : j = i
    · rw [if_pos hj, hj]
      exact .inr hs
    · rw [if_neg hj]
      exact .inl rfl
  obtain ⟨_, _, _, hshape⟩ := setState_shape u i state
  rw [hshape] at hstates ⊢
  exact { refl u with states := hstates }

theorem setEnd {state : ItemState} (hf : Kind.file.mayRest state) (hd : Kind.dir.mayRest state) :
    Idles u (u.setState i state) := by
  refine setState ?_
  cases u.tree.kind i with
  | file => exact hf
  | dir => exact hd

theorem addAcked (u : Upload) (i : ℕ) (delta : ℤ) : Idles u (u.addAcked i delta) := by
  obtain ⟨_, _, hshape⟩ := addAcked_shape u i delta
  rw [hshape]
  have hedit : Idles u (u.edit i fun item => { item with acked := item.acked + delta }) := .edit rfl
  exact { hedit with tree := hedit.tree }

theorem resize (u : Upload) (i size : ℕ) (mtime : Option ℕ) : Idles u (u.resize i size mtime) := by
  obtain ⟨_, _, hshape⟩ := resize_shape u i size mtime
  rw [hshape]
  have hedit : Idles u (u.edit i fun item => { item with size, mtime, verification := none }) :=
    .edit rfl
  exact { hedit with tree := hedit.tree }

theorem restartFile (u : Upload) (i : ℕ) : Idles u (u.restartFile i) :=
  (addAcked u i _).trans (edit rfl)

theorem await (u : Upload) (t : Task) : Idles u (u.await t) := { refl u with tree := rfl }

theorem call {t : Task} (ht : t.acquires = false ∧ t.puts = false) : Idles u (u.call t) :=
  { refl u with
    calls := ⟨[t], rfl, fun _ ht' => mem_singleton.mp ht' ▸ ht⟩ }

theorem releaseBackend (hb : u.backend = none) : Idles u u.releaseBackend :=
  { refl u with
    backend := hb.symm
    leases := by simp [Upload.releaseBackend, hb] }

/-! ### Queues of files -/

theorem enqueue (hi : u.tree.kind i = .file) : Idles u (u.enqueue i) := by
  unfold Upload.enqueue
  split
  · rw [hi]
    exact { refl u with tree := rfl }
  · split
    · exact refl u
    · next p _ =>
      refine { refl u with waiting := fun q c hc => ?_ }
      by_cases hq : q = p
      · subst hq
        simp only [update_self, mem_append, mem_singleton] at hc
        rcases hc with hmem | rfl
        · exact .inl hmem
        · exact .inr hi
      · simp only [update_of_ne hq] at hc
        exact .inl hc

theorem enqueueQueued {ids : List ℕ}
    (hids : ∀ i ∈ ids, (u.items i).state = .queued → u.tree.kind i = .file) :
    Idles u (u.enqueueQueued ids) := by
  refine (foldlRecOn (motive := fun v : Upload => Idles u v ∧ v.items = u.items) ids _
    ⟨refl u, rfl⟩ ?_).1
  rintro v ⟨hv, hitems⟩ i hi
  split
  · next hqueued =>
    rw [hitems] at hqueued
    exact ⟨hv.trans (enqueue (hv.tree ▸ hids i hi hqueued)), by rw [enqueue_items, hitems]⟩
  · exact ⟨hv, hitems⟩

theorem enqueueReady {folder : ℕ} (hw : ∀ c ∈ u.waiting folder, u.tree.kind c = .file) :
    Idles u (u.enqueueReady folder) := by
  have hemptied : Idles u { u with waiting := update u.waiting folder [] } := by
    refine { refl u with waiting := fun p c hc => .inl ?_ }
    by_cases hp : p = folder
    · subst hp
      simp at hc
    · simpa [update_of_ne hp] using hc
  exact hemptied.trans (enqueueQueued fun c hc _ => hw c hc)

theorem queueAgain (hi : u.tree.kind i = .file) : Idles u (u.queueAgain i) := by
  have hqueued : Idles u (u.setState i .queued) := setState (hi ▸ rfl)
  exact hqueued.trans (enqueue (hqueued.tree ▸ hi))

/-! ### Stopping and failing -/

theorem skip (fuel : ℕ) (u : Upload) (i : ℕ) : Idles u (skip fuel u i) :=
  skip_rec (fun _ _ h => (h.trans (.edit rfl)).trans (setEnd rfl rfl))
    (fun _ k h => h.trans (.restartFile _ k)) (fun _ _ _ h => h.trans (.call ⟨rfl, rfl⟩)) fuel
    (.refl u) i

theorem failSubtree (fuel : ℕ) (u : Upload) (i : ℕ) : Idles u (failSubtree fuel u i) := by
  induction fuel generalizing u i with
  | zero => exact .refl u
  | succ fuel ih =>
    refine foldl (setEnd rfl rfl) fun w c => ?_
    split
    · exact ih w c
    · exact .refl w

theorem openFile (u : Upload) (o : Opening) : Idles u (u.openFile o) := by
  unfold Upload.openFile
  split
  · exact .refl u
  · exact .call ⟨rfl, rfl⟩

theorem openNew (u : Upload) (o : Opening) (random : String) :
    Idles u (u.openNew o false random) := by
  exact ((edit rfl).trans (edit rfl)).trans (openFile _ o)

theorem openGoOn (u : Upload) (o : Opening) (random : String) : Idles u (u.openGoOn o random) := by
  unfold Upload.openGoOn
  split
  · split
    · exact openNew u o random
    · exact .call ⟨rfl, rfl⟩
  · exact openFile u o

theorem openReached (u : Upload) (i : ℕ) (random : String) (b : Backend) :
    Idles u (u.openReached i random b) := by
  unfold Upload.openReached
  split
  · split <;> exact .call ⟨rfl, rfl⟩
  · exact openGoOn u _ random

theorem openLooked (u : Upload) (o : Opening) (there : Option Stat) (random : String) :
    Idles u (u.openLooked o there random) := by
  unfold Upload.openLooked
  by_cases hkept : if o.exec && !(u.items o.i).carried then sizeThere there = (u.items o.i).acked
      else (u.items o.i).acked ≤ sizeThere there
  · rw [if_pos hkept]
    split
    · exact .call ⟨rfl, rfl⟩
    · exact openGoOn u o random
  · rw [if_neg hkept]
    exact .call ⟨rfl, rfl⟩

theorem openedTemp (u : Upload) (i : ℕ) : Idles u (u.openedTemp i) := by
  have hopen : Idles u ({ u with nextKey := u.nextKey + 1 }.edit i fun item =>
      { item with sink := some u.nextKey }) := by
    have hnumber : Idles u { u with nextKey := u.nextKey + 1 } := aside u _ _ _ _ _ _
    exact hnumber.trans (edit rfl)
  unfold Upload.openedTemp
  dsimp only
  split
  · exact hopen.trans (.await _ _)
  · exact hopen.trans ((edit rfl).trans (.call ⟨rfl, rfl⟩))

theorem openStopped (u : Upload) (i : ℕ) : Idles u (u.openStopped i) := by
  unfold Upload.openStopped
  dsimp only
  split
  · refine (restartFile u i).trans ?_
    split
    · exact .await _ _
    · split
      · exact .call ⟨rfl, rfl⟩
      · exact .await _ _
  · exact .await _ _

theorem stopped (u : Upload) (i : ℕ) : Idles u (u.stopped i) := by
  unfold Upload.stopped
  dsimp only
  split
  · refine (restartFile u i).trans ?_
    split
    · exact .refl _
    · split
      · exact .call ⟨rfl, rfl⟩
      · exact .refl _
  · exact .refl u

/-! ### Taking it up -/

theorem changedFile (u : Upload) (file : ResumeFile) : Idles u (u.changedFile file) := by
  unfold Upload.changedFile
  split
  · split
    · exact skip _ u _
    · exact .refl u
  · next i size mtime =>
    split
    · dsimp only
      refine (restartFile u i).trans ?_
      split
      · exact resize _ i size mtime
      · exact (call (t := .removing i _) ⟨rfl, rfl⟩).trans (resize _ i size mtime)
    · exact .refl u

theorem setLookUp (u : Upload) (lookUps : ℕ → Option LookUp) : Idles u { u with lookUps } :=
  aside u _ _ lookUps _ _ _

theorem takeUpReached (u : Upload) (requester : String) (files : List ResumeFile) :
    Idles u (u.takeUpReached requester files) := by
  unfold Upload.takeUpReached
  dsimp only
  refine (foldl (l := files) (refl u) changedFile).trans ?_
  generalize files.foldl Upload.changedFile u = v
  split
  · exact .await _ _
  · have hbegun : ∀ l, Idles v { v with nextKey := v.nextKey + 1, lookUps := l } :=
      fun _ => aside v _ _ _ _ _ _
    refine foldl (hbegun _) fun w i => ?_
    split
    · exact .refl w
    · exact .call ⟨rfl, rfl⟩

theorem lookNext (u : Upload) (key : ℕ) (l : LookUp) (todo : List ℕ) :
    Idles u (u.lookNext key l todo) := by
  induction todo with
  | nil =>
    unfold Upload.lookNext
    split
    · dsimp only
      split
      · exact setLookUp u _
      · exact (setLookUp u _).trans (.await _ _)
    · exact setLookUp u _
  | cons i todo ih =>
    unfold Upload.lookNext
    split
    · exact ih
    · exact (setLookUp u _).trans (.call ⟨rfl, rfl⟩)

theorem lookDone (u : Upload) (key : ℕ) : Idles u (u.lookDone key) := by
  unfold Upload.lookDone
  split
  · exact .refl u
  · exact lookNext u key _ _

theorem lookThrew (u : Upload) (key : ℕ) (interruption : Bool) :
    Idles u (u.lookThrew key interruption) := by
  unfold Upload.lookThrew
  split
  · exact .refl u
  · dsimp only
    split
    · exact setLookUp u _
    · exact (await u _).trans (setLookUp _ _)

theorem lookStale (u : Upload) (key i : ℕ) (temp : HostPath) (isFile : Bool) :
    Idles u (u.lookStale key i temp isFile) := by
  unfold Upload.lookStale
  split
  · exact .call ⟨rfl, rfl⟩
  · exact (restartFile u i).trans (lookDone _ key)

theorem lookedAt (u : Upload) (key i : ℕ) (temp : HostPath) (there : Option Stat) :
    Idles u (u.lookedAt key i temp there) := by
  unfold Upload.lookedAt
  dsimp only
  split
  · split
    · exact lookDone u key
    · exact lookStale u key i temp _
  · split
    · split
      · exact lookDone u key
      · exact .call ⟨rfl, rfl⟩
    · exact lookStale u key i temp _

end Idles

/-! ### What `drop` leaves -/

/-- A dropped upload: it holds no connection, sends nothing, and is at no folder. -/
structure Upload.Quit (u : Upload) : Prop where
  dropped : u.dropped = true
  backend : u.backend = none
  leases : u.leases = []
  folderQueue : u.folderQueue = []
  waiting : ∀ p, ∀ c ∈ u.waiting p, u.tree.kind c = .file
  sending : ∀ i < u.tree.size, (u.items i).state ≠ .sending
  folders : ∀ i, u.tree.IsDir i → (u.items i).state ≠ .queued

variable {u v : Upload}

theorem Upload.Quit.idles (h : u.Quit) (hv : Idles u v) : v.Quit where
  dropped := (congrArg Prod.snd hv.standing).trans h.dropped
  backend := hv.backend.trans h.backend
  leases := hv.leases.trans h.leases
  folderQueue := hv.folderQueue.trans h.folderQueue
  waiting p c hc := by
    rw [hv.tree]
    rcases hv.waiting p c hc with hmem | hfile
    · exact h.waiting p c hmem
    · exact hfile
  sending i hi := by
    rcases hv.states i with heq | hrest
    · exact heq ▸ h.sending i (hv.tree ▸ hi)
    · intro hstate
      rw [hstate] at hrest
      cases hkind : u.tree.kind i <;> simp [hkind, Kind.mayRest] at hrest
  folders i hi := by
    rw [hv.tree] at hi
    rcases hv.states i with heq | hrest
    · exact heq ▸ h.folders i hi
    · intro hstate
      simp [hstate, hi.2, Kind.mayRest] at hrest

theorem Upload.Quit.erase (h : u.Quit) (t : Task) :
    Quit { u with tasks := u.tasks.erase t } :=
  h.idles (.aside u _ _ _ _ _ _)

namespace Idles

variable {u : Upload} {i : ℕ}

theorem interrupt (u : Upload) (i : ℕ) : Idles u (u.interrupt i) := by
  have hclosed : Idles u (u.edit i fun item => { item with sink := none }) := .edit rfl
  have hstopped : Idles u ((u.edit i fun item => { item with sink := none }).setState i
      .interrupted) := hclosed.trans (setEnd rfl rfl)
  unfold Upload.interrupt
  dsimp only
  split
  · exact hstopped
  · split
    · exact hstopped
    · exact hstopped.trans (.call ⟨rfl, rfl⟩)

section

variable (h : u.Quit)
include h

theorem interruptAll : Idles u u.interruptAll := by
  have hgone : u.connected = false := by simp [connected, h.backend]
  have hloop : Idles u ((range u.tree.size).foldl
      (fun u i => if (u.items i).state = .sending ∨ (u.items i).state = .queued then u.interrupt i
        else u) u) := by
    refine (refl u).foldl fun w j => ?_
    split
    · exact interrupt w j
    · exact refl w
  unfold Upload.interruptAll
  rw [if_neg (by simp [hgone])]
  have hlink : ∀ l, Idles u { (range u.tree.size).foldl
      (fun u i => if (u.items i).state = .sending ∨ (u.items i).state = .queued then u.interrupt i
        else u) u with linkDropped := l } := fun _ => { hloop with tree := hloop.tree }
  exact (hlink _).trans (releaseBackend (hloop.backend.trans h.backend))

theorem fileFailed (i : ℕ) (interruption : Bool) : Idles u (u.fileFailed i interruption) := by
  have hclosed : Idles u (u.edit i fun item => { item with sink := none }) := .edit rfl
  unfold Upload.fileFailed
  split
  · cases (u.items i).sink with
    | none =>
      have hset := hclosed.trans (setEnd rfl rfl : Idles _ (Upload.setState _ i .interrupted))
      exact hset.trans (interruptAll (h.idles hset))
    | some s =>
      have hset := (hclosed.trans (.call (t := .aborting i s) ⟨rfl, rfl⟩)).trans
        (setEnd rfl rfl : Idles _ (Upload.setState _ i .interrupted))
      exact hset.trans (interruptAll (h.idles hset))
  · exact (hclosed.trans (setEnd rfl rfl)).trans ((restartFile _ i).trans (.call ⟨rfl, rfl⟩))

theorem foldersLoop : Idles u u.foldersLoop := by
  rw [Upload.foldersLoop, if_pos h.folderQueue]
  exact aside u _ _ _ _ _ _

theorem keepBothFolders {rest : List ℕ} (hrest : ∀ i ∈ rest, u.tree.IsDir i) :
    Idles u (u.keepBothFolders rest) := by
  induction rest with
  | nil => exact foldersLoop h
  | cons i rest ih =>
    rw [Upload.keepBothFolders, if_neg (h.folders i (hrest i (mem_cons_self ..)))]
    exact ih fun j hj => hrest j (mem_cons_of_mem i hj)

theorem foldersMade {batch plain : List ℕ} (paths : List HostPath)
    (results : List FolderResult) (hb : ∀ i ∈ batch, u.tree.IsDir i) (hp : plain ⊆ batch) :
    Idles u (u.foldersMade batch plain paths results) := by
  -- No folder is queued, so what came of it is passed over.
  have hpassed : (plain.zip (paths.zip results)).foldl
      (fun u made => u.folderResult made.1 made.2.1 made.2.2) u = u := by
    refine foldlRecOn (motive := fun v : Upload => v = u) _ _ rfl ?_
    rintro v rfl ⟨i, path, result⟩ hmade
    have hi := hb i (hp (of_mem_zip hmade).1)
    exact if_neg (h.folders i hi)
  unfold Upload.foldersMade
  rw [hpassed]
  exact keepBothFolders h fun i hi => hb i (mem_of_mem_filter hi)

theorem folderPlaced (hi : u.tree.IsDir i) (path : HostPath) (outcome : Outcome) :
    Idles u (u.folderPlaced i path outcome) := by
  have hplaced : Idles u ((u.edit i fun item =>
      { item with path := some path, outcome := some outcome }).setState i .placed) := by
    refine trans (edit rfl) (setState ?_)
    show (u.tree.kind i).mayRest .placed
    rw [hi.2]
    rfl
  exact hplaced.trans (enqueueReady ((h.idles hplaced).waiting i))

theorem keepBothAnswered (hi : u.tree.IsDir i) (n : ℕ) (path : HostPath)
    {rest : List ℕ} (hrest : ∀ j ∈ rest, u.tree.IsDir j) (result : FolderResult) :
    Idles u (u.keepBothAnswered i n path rest result) := by
  have hon : ∀ v, Idles u v → Idles u (v.keepBothFolders rest) := fun v hv =>
    hv.trans (keepBothFolders (h.idles hv) fun j hj => hv.tree ▸ hrest j hj)
  cases result with
  | created =>
    have hnamed : Idles u (u.edit i fun item =>
        { item with finalName := some (keepBothName (u.tree.name i) n .dir) }) := .edit rfl
    exact hon _ (hnamed.trans (folderPlaced (h.idles hnamed) hi path .keptBoth))
  | failed => exact hon _ (failSubtree _ u i)
  | merged | clash =>
    rw [Upload.keepBothAnswered]
    split
    · exact .call ⟨rfl, rfl⟩
    · exact hon _ (failSubtree _ u i)

theorem foldersFailed (interruption : Bool) : Idles u (u.foldersFailed interruption) := by
  have hempty : Idles u { u with folderQueue := [] } :=
    { refl u with folderQueue := h.folderQueue.symm }
  unfold Upload.foldersFailed
  rw [h.folderQueue]
  dsimp only [foldl_nil]
  split
  · exact (hempty.trans (interruptAll (h.idles hempty))).trans (aside _ _ _ _ _ _ _)
  · exact hempty.trans (aside _ _ _ _ _ _ _)

theorem takeUpFailed (interruption : Bool) : Idles u (u.takeUpFailed interruption) := by
  have hbusy : Idles u { u with busy := u.busy - 1 } := aside u _ _ _ _ _ _
  unfold Upload.takeUpFailed
  split
  · exact hbusy.trans (interruptAll (h.idles hbusy))
  · exact hbusy

theorem takenUp (requester : String) : Idles u (u.takenUp requester) := by
  unfold Upload.takenUp
  rw [if_pos h.dropped]
  exact aside u _ _ _ _ _ _

theorem finishFile (hi : u.tree.IsFile i) : Idles u (u.finishFile i) := by
  unfold Upload.finishFile
  split
  · exact refl u
  · rw [if_neg (h.sending i hi.1)]
    exact refl u

theorem receiving (hi : u.tree.IsFile i) (offset : ℕ) (data : List UInt8) :
    Idles u (u.receiving i offset data) := by
  unfold Upload.receiving
  dsimp only
  split
  · exact refl u
  · rw [if_neg fun hs => h.sending i hi.1 hs.1]
    exact refl u

theorem written (hi : u.tree.IsFile i) (s : ℕ) (data : List UInt8) :
    Idles u (u.written i s data) := by
  have hwrote : Idles u (u.edit i fun item => { item with writing := false }) := .edit rfl
  unfold Upload.written
  rw [if_neg ((h.idles hwrote).sending i hi.1)]
  exact hwrote.trans (.call ⟨rfl, rfl⟩)

theorem writeFailed (hi : u.tree.IsFile i) (interruption : Bool) :
    Idles u (u.writeFailed i interruption) := by
  unfold Upload.writeFailed
  rw [if_neg (h.sending i hi.1)]
  exact .edit rfl

end

/-! ### Conflicts, and retries -/

theorem place (ht : (u.items i).temp = none) : Idles u (u.place i) := by
  rw [Upload.place, if_pos ht]
  exact refl u

theorem conflictFound (hi : u.tree.IsFile i) {existing : Option FileEntry}
    (hn : u.placesOver i existing = false) : Idles u (u.conflictFound i existing) := by
  have hfound : Idles u (u.edit i fun item =>
      { item with
        existing
        typeClash := (existing.map FileEntry.folderLike).getD false
        late := true }) := .edit rfl
  -- With an answer it is placed, so that it has no temporary, or it is queued.
  have hgoes : ∀ w : Upload, w.tree = u.tree →
      ((w.items i).tempWhole → (w.items i).temp = none) →
      Idles w (if (w.items i).tempWhole then w.place i else w.queueAgain i) := by
    intro w htree hw
    split
    · next hwhole => exact place (hw hwhole)
    · exact queueAgain (htree ▸ hi.2)
  have hask : ∀ w : Upload, Idles w
      ((if (w.items i).tempWhole then w
        else w.edit i fun item => { item with sink := none, temp := none }).setState i .conflict) := by
    intro w
    refine trans ?_ (setEnd rfl rfl)
    split
    · exact refl w
    · exact .edit rfl
  unfold placesOver at hn
  unfold Upload.conflictFound
  dsimp only
  split
  · exact hfound.trans (skip _ _ i)
  · next hpolicy =>
    refine (hfound.trans (.edit (i := i) rfl)).trans (hgoes _ rfl ?_)
    simpa [Upload.edit, show u.onConflict = .keepBoth from hpolicy] using hn
  · next hpolicy =>
    split
    · exact hfound.trans (hask _)
    · next hclash =>
      refine (hfound.trans (.edit (i := i) rfl)).trans (hgoes _ rfl ?_)
      simpa [Upload.edit, show u.onConflict = .replace from hpolicy, hclash] using hn
  · exact hfound.trans (hask _)

/-- Files alone are queued again: what they have at the host, and every folder, stays. -/
structure Requeues (u v : Upload) : Prop where
  idles : Idles u v
  stale : v.stale = u.stale
  folders : ∀ p, u.tree.kind p = .dir → (v.items p).state = (u.items p).state
  temps : ∀ j, (v.items j).tempWhole = (u.items j).tempWhole ∧ (v.items j).temp = (u.items j).temp

theorem Requeues.requeue (h : Requeues u v) (hi : u.tree.kind i = .file)
    (ht : (u.items i).tempWhole → (u.items i).temp = none) : Requeues u (v.requeue i) := by
  have hkind : v.tree.kind i = .file := h.idles.tree ▸ hi
  unfold Upload.requeue
  by_cases hwhole : v.tree.kind i = .file ∧ (v.items i).tempWhole
  · rw [if_pos hwhole, Upload.place, if_pos ((h.temps i).2.trans (ht ((h.temps i).1 ▸ hwhole.2)))]
    exact h
  · rw [if_neg hwhole]
    refine ⟨h.idles.trans (queueAgain hkind), ?_, fun p hp => ?_, fun j => ?_⟩
    · obtain ⟨_, _, _, hshape⟩ := enqueue_shape (v.setState i .queued) i
      obtain ⟨_, _, _, hset⟩ := setState_shape v i .queued
      rw [Upload.queueAgain, hshape, hset]
      exact h.stale
    · rw [Upload.queueAgain, enqueue_items, setState_items,
        if_neg fun heq => by cases (heq ▸ hp).symm.trans hi]
      exact h.folders p hp
    · rw [Upload.queueAgain, enqueue_items, setState_items]
      split
      · next hj => exact hj ▸ h.temps i
      · exact h.temps j

theorem Requeues.requeueOne {s : Upload × List ℕ} (h : Requeues u s.1)
    (hi : u.retries i = false) : Requeues u (requeueOne s i).1 := by
  simp only [retries, decide_eq_false_iff_not, not_or, not_and] at hi
  obtain ⟨hfile, habove, hwhole⟩ := hi
  have hkind : u.tree.kind i = .file := by
    cases hk : u.tree.kind i with
    | file => rfl
    | dir => exact absurd hk hfile
  -- No folder above it is to be queued first.
  have hnone : (s.1.requeueAbove s.2 (s.1.tree.foldersAbove i)) = s := by
    refine foldlRecOn (motive := fun s' : Upload × List ℕ => s' = s) _ _ rfl ?_
    rintro s' rfl p hp
    have hmem : p ∈ u.tree.foldersAbove i := h.idles.tree ▸ takeWhile_subset _ hp
    have hdir := UploadTree.isDir_of_under (UploadTree.mem_foldersAbove_iff.mp hmem)
    have hagain : s'.1.again p = u.again p := by
      simp only [again, h.folders p hdir.2]
    have hstays : u.again p = false := by
      by_contra hagain
      exact habove (any_eq_true.mpr ⟨p, hmem, by simpa using hagain⟩)
    rw [hagain, hstays]
    rfl
  unfold Upload.requeueOne
  dsimp only
  rw [hnone]
  split
  · exact h
  · exact h.requeue hkind fun hw => Classical.not_not.mp (hwhole hw)

theorem requeueAll (h : u.Quit) {again : List ℕ} (ha : again.any u.retries = false) :
    Idles u (u.requeueAll again) := by
  have hloop : Requeues u (again.foldl requeueOne (u, [])).1 := by
    refine foldlRecOn (motive := fun s : Upload × List ℕ => Requeues u s.1) again _
      ⟨refl u, rfl, fun _ _ => rfl, fun _ => ⟨rfl, rfl⟩⟩ fun s hs i hi => hs.requeueOne ?_
    exact Bool.eq_false_iff.mpr fun hr => Bool.eq_false_iff.mp ha (any_eq_true.mpr ⟨i, hi, hr⟩)
  unfold Upload.requeueAll
  dsimp only
  generalize (again.foldl requeueOne (u, [])).1 = v at hloop ⊢
  split
  · have hemptied : Idles u
        { v with stale := false, queue := [], folderQueue := [], waiting := fun _ => [] } :=
      { hloop.idles with
        folderQueue := h.folderQueue.symm
        waiting := fun _ _ hc => nomatch hc }
    refine hemptied.trans (enqueueQueued fun j hj hqueued => ?_)
    show v.tree.kind j = .file
    cases hk : v.tree.kind j with
    | file => rfl
    | dir =>
      have hdir : v.tree.IsDir j := ⟨UploadTree.mem_order.mp hj, hk⟩
      exact absurd hqueued ((h.idles hloop.idles).folders j hdir)
  · exact hloop.idles

/-! ### What comes -/

theorem openDirect (u : Upload) (o : Opening) {n : ℕ} (hn : keepBothTries < n) :
    Idles u (u.openDirect o n) := by
  rw [Upload.openDirect, if_pos hn]
  exact await u _

theorem finished (hd : (u.items i).direct = false) (ht : (u.items i).temp = none)
    (how : Verification) : Idles u (u.finished i how) := by
  have hchecked : ∀ how, Idles u ({ u with busy := u.busy - 1 }.edit i fun item =>
      { item with verification := some how, tempWhole := true, hash := none }) :=
    fun _ => (aside u _ _ _ _ _ _).trans (.edit rfl)
  unfold Upload.finished
  rw [if_neg (by simp [Upload.edit, hd])]
  exact (hchecked _).trans (place (by simpa [Upload.edit] using ht))

variable {a : Answer} {w : Upload}

theorem placeAnswered (h : u.Quit) (hi : u.tree.IsFile i) {temp : Option HostPath}
    {target : HostPath} {how : Placing} (hn : u.goesOn (.placing i temp target how) a = false)
    (hw : u.placeAnswered i temp target how a = some w) : Idles u w := by
  have hfailed : ∀ k, Idles u (u.fileFailed i k).placeEnded := fun k =>
    (fileFailed h i k).trans (aside _ _ _ _ _ _ _)
  unfold Upload.placeAnswered at hw
  split at hw
  · cases hw
    exact hfailed _
  · cases hn
  · cases hn
  · cases hn
  · next n _ =>
    cases hw
    have hlast : keepBothTries < n + 1 := by
      have hle : ¬n < keepBothTries := by simpa [goesOn] using hn
      omega
    rw [placeKeepBoth, if_pos hlast]
    exact hfailed _
  · cases hn
  · cases hw
    exact (conflictFound hi hn).trans (aside _ _ _ _ _ _ _)
  · cases hw

theorem onBackend {held : Option Backend} {threw : Bool → Upload}
    {go : Upload → Backend → Upload} (hthrew : ∀ k, Idles u (threw k))
    (hgo : a = .done → ∀ b, Idles u (go u b)) (hn : ∀ exec, a ≠ .backend exec)
    (hw : u.onBackend held threw go a = some w) : Idles u w := by
  cases a with
  | done =>
    obtain ⟨b, -, rfl⟩ := map_eq_some_iff.mp hw
    exact hgo rfl b
  | backend exec => exact absurd rfl (hn exec)
  | fault k =>
    obtain ⟨-, hw⟩ := ite_none_left_eq_some.mp hw
    exact some.inj hw ▸ hthrew k
  | _ => cases hw

/-- An answer leaves a dropped upload idle, unless it goes on. -/
theorem answer {random : String} {t : Task} (h : u.Quit)
    (ht : t.Names u.tree) (hn : u.goesOn t a = false) (hw : u.answer random t a = some w) :
    Idles u w := by
  unfold Upload.answer at hw
  split at hw
  · refine onBackend (fun k => await u _) (fun _ b => openReached u _ random b) ?_ hw
    rintro exec rfl
    cases hn
  · cases hw
    exact openLooked u _ _ random
  · cases hw
    exact openLooked u _ none random
  · cases hw
    exact openGoOn u _ random
  · cases hw
    exact await u _
  · cases hw
    exact .call ⟨rfl, rfl⟩
  · cases hw
    exact (restartFile u _).trans (openGoOn _ _ random)
  · cases hw
    obtain rfl : _ = false := hn
    exact openNew u _ random
  · cases hw
    exact await u _
  · cases hn
  · next o n path existing =>
    split at hw
    · next hzero =>
      cases hw
      rw [goesOn, if_pos hzero] at hn
      exact (conflictFound ht hn).trans (await _ _)
    · next hzero =>
      cases hw
      rw [goesOn, if_neg hzero] at hn
      have hlast : ¬n < keepBothTries := by simpa using hn
      exact openDirect u o (by omega)
  · cases hw
    exact await u _
  · cases hw
    exact openedTemp u _
  · split at hw
    · cases hw
      exact await u _
    · cases hw
      exact trans (edit rfl) (.call ⟨rfl, rfl⟩)
  · cases hw
    exact await u _
  · cases hw
    exact openStopped u _
  · cases hw
    exact await u _
  · split at hw
    · cases hw
      exact finishFile h ht
    · cases hw
      exact refl u
  · split at hw
    · cases hw
      exact fileFailed h _ _
    · cases hw
      exact refl u
  · cases hw
    exact receiving h ht _ _
  · cases hw
    exact written h ht _ _
  · cases hw
    exact writeFailed h ht _
  · cases hw
    exact stopped u _
  · next i _ _ how =>
    cases hw
    have hnone : (u.items i).direct = false ∧ (u.items i).temp = none := by
      simpa [goesOn] using hn
    exact finished hnone.1 hnone.2 how
  · cases hw
    have hbusy : Idles u { u with busy := u.busy - 1 } := aside u _ _ _ _ _ _
    exact hbusy.trans (fileFailed (h.idles hbusy) _ _)
  · refine onBackend (fun k => (fileFailed h _ k).trans (aside _ _ _ _ _ _ _)) ?_ ?_ hw
    · rintro rfl
      cases hn
    · rintro exec rfl
      cases hn
  · exact placeAnswered h ht hn hw
  · split at hw
    · cases hw
      exact refl u
    · split at hw
      · cases hw
        exact refl u
      · cases hw
        exact .call ⟨rfl, rfl⟩
  · cases hw
    exact refl u
  · cases hw
    exact refl u
  · refine onBackend (foldersFailed h) (fun _ b => .call ⟨rfl, rfl⟩) ?_ hw
    rintro exec rfl
    cases hn
  · split at hw
    · cases hw
      exact foldersMade h _ _ ht.1 ht.2.1
    · cases hw
  · cases hw
    exact foldersFailed h _
  · cases hw
    exact keepBothAnswered h ht.1 _ _ ht.2 _
  · cases hw
    exact foldersFailed h _
  · cases hw
    exact requeueAll h hn
  · cases hw
    exact refl u
  · refine onBackend (takeUpFailed h) (fun _ b => takeUpReached u _ _) ?_ hw
    rintro exec rfl
    cases hn
  · cases hw
    exact lookedAt u _ _ _ _
  · split at hw
    · cases hw
      exact lookThrew u _ true
    · cases hw
      exact lookedAt u _ _ _ none
  · cases hw
    exact lookDone u _
  · split at hw
    · cases hw
      exact lookThrew u _ true
    · cases hw
      exact .call ⟨rfl, rfl⟩
  · cases hw
    exact (restartFile u _).trans (lookDone _ _)
  · cases hw
    exact takenUp h _
  · cases hw
    exact takeUpFailed h _
  · cases hw

end Idles

/-! ### The connections it holds -/

/-- The upload holds the connection it has, and no other. -/
def Upload.Leased (u : Upload) : Prop := u.leases = u.backend.toList.map Backend.id

namespace Upload.Leased

variable {u : Upload}

section

variable (h : u.Leased)
include h

theorem released : u.releaseBackend.leases = [] := by
  unfold Leased at h
  unfold releaseBackend
  cases hb : u.backend with
  | none => simpa [hb] using h
  | some b => simp [h, hb]

theorem setState (i : ℕ) (state : ItemState) : (u.setState i state).Leased := by
  obtain ⟨_, _, _, hshape⟩ := setState_shape u i state
  exact hshape ▸ h

theorem addAcked (i : ℕ) (delta : ℤ) : (u.addAcked i delta).Leased := by
  obtain ⟨_, _, hshape⟩ := addAcked_shape u i delta
  exact hshape ▸ h

theorem enqueue (i : ℕ) : (u.enqueue i).Leased := by
  obtain ⟨_, _, _, hshape⟩ := enqueue_shape u i
  exact hshape ▸ h

theorem enqueueQueued (ids : List ℕ) : (u.enqueueQueued ids).Leased := by
  obtain ⟨_, _, _, hshape⟩ := enqueueQueued_shape u ids
  exact hshape ▸ h

theorem move (hm : Move u v) : v.Leased := by
  cases hm with
  | release => exact h.released
  | reach exec hb =>
    have hnone : u.leases = [] := by simpa [Leased, hb] using h
    show u.leases ++ [u.nextKey] = [u.nextKey]
    rw [hnone]
    rfl
  | stop i state => exact h.setState i state
  | restart i => exact h.addAcked i _
  | enqueue i => exact h.enqueue i
  | queueAgain i => exact (h.setState i _).enqueue i
  | rebuild =>
    have hemptied : Leased
      { u with stale := false, queue := [], folderQueue := [], waiting := fun _ => [] } := h
    exact hemptied.enqueueQueued _
  | _ => exact h

theorem changes (hc : Changes u v) : v.Leased := by
  induction hc with
  | refl => exact h
  | @tail v w _ hchange ih =>
    cases hchange with
    | act ha =>
      cases ha with
      | move hm => exact ih.move hm
      | acknowledge i n => exact ih.addAcked i n
      | resize i size mtime =>
        obtain ⟨_, _, hshape⟩ := resize_shape v i size mtime
        exact hshape ▸ ih
      | _ => exact ih
    | turn ht =>
      cases ht with
      | move hm => exact ih.move hm
      | placeFolder i path outcome =>
        have hnoted : Leased (v.edit i fun item =>
          { item with path := some path, outcome := some outcome }) := ih
        have hplaced := hnoted.setState i .placed
        have hemptied : ∀ waiting, Leased
          { (v.edit i fun item => { item with path := some path, outcome := some outcome }).setState
            i .placed with waiting } := fun _ => hplaced
        exact (hemptied _).enqueueQueued _
      | failEnded i => exact ih.setState i _
      | queueEnded i => exact (ih.setState i _).enqueue i
      | _ => exact ih
    | pass hp =>
      cases hp with
      | move hm => exact ih.move hm
      | takes => exact ih
      | admits i => exact ih.setState i _
    | shed | source | forget => exact ih

/-- `drop` lets go of it. -/
theorem drop : u.drop.leases = [] := by
  have hitems : ((range u.tree.size).foldl dropItem u).Leased :=
    dropItems_rec (P := Leased) h fun v i hv hi =>
      changes (u := v.edit i _) hv (Moves.dropItem hi).changes
  have hemptied : Leased { (range u.tree.size).foldl dropItem u with
    queue := [], folderQueue := [], waiting := fun _ => [], dropped := true } := hitems
  exact hemptied.released

end

end Upload.Leased

variable {s : Service}

theorem leased_next {s' : Service} {step : Step} (hk : s.upload.Kinded) (h : s.upload.Leased)
    (hn : next s step = some s') : s'.upload.Leased := by
  cases Stepped.of_next hn with
  | work op u _ hu =>
    by_cases hdrop : op = .drop
    · subst hdrop
      cases hu
      exact h.drop
    · exact h.changes (Changes.perform hk hdrop hu)
  | answer t a random u ht hu => exact h.changes (Changes.answered hk ht hu)
  | lost =>
    show s.upload.leases = _
    rw [h]
    cases s.upload.backend <;> rfl
  | save => exact h
  | discard => exact h.drop
  | restart =>
    obtain ⟨_, _, _, hshape⟩ := bringBack_shape s.upload.tree s.upload.onConflict
      s.upload.verify s.rows
    rw [hshape]
    rfl

theorem Start.leased (start : Start) : start.service.upload.Leased := by
  obtain ⟨_, _, _, hshape⟩ := assemble_shape start.tree start.onConflict start.verify
    start.item (some start.requester) (some ⟨0, start.exec, false⟩)
  have hassembled : Leased (assemble start.tree start.onConflict start.verify
      start.item (some start.requester) (some ⟨0, start.exec, false⟩)) := hshape ▸ rfl
  exact (hassembled.changes (Acts.applyPolicy assemble_tasks).changes).enqueueQueued _

theorem leased_of_run {ok : Service → Step → Prop} (start : Start)
    (h : Run next ok start.service s) : s.upload.Leased :=
  (h.invariant (I := fun s => s.upload.Kinded ∧ s.upload.Leased) ⟨start.kinded, start.leased⟩
    fun _ _ _ hs _ hn => ⟨kinded_next hs.1 hn, leased_next hs.1 hs.2 hn⟩).2

/-! ### What it is dropped with -/

theorem Upload.foldl_dropItem_state (l : List ℕ) (u : Upload) (i : ℕ) :
    ((l.foldl dropItem u).items i).state =
      if i ∈ l ∧ (u.items i).state.unsettled then .cancelled else (u.items i).state := by
  induction l generalizing u with
  | nil => simp
  | cons j l ih =>
    have hstate : ((u.dropItem j).items i).state =
        if i = j ∧ (u.items i).state.unsettled then .cancelled else (u.items i).state := by
      have hedit : (u.dropItem j).items = (u.edit j fun item =>
          { item with
            sink := none
            state := if item.state.unsettled then .cancelled else item.state }).items := by
        unfold dropItem
        dsimp only
        split
        · rfl
        · split <;> rfl
      rw [hedit, edit_items]
      by_cases hij : i = j <;> simp [hij]
    rw [foldl_cons, ih, hstate]
    by_cases hij : i = j ∧ (u.items i).state.unsettled
    · rw [if_pos hij, if_neg (fun h => nomatch h.2), if_pos ⟨by simp [hij.1], hij.2⟩]
    · rw [if_neg hij]
      by_cases hin : i ∈ l ∧ (u.items i).state.unsettled
      · rw [if_pos hin, if_pos ⟨mem_cons_of_mem j hin.1, hin.2⟩]
      · rw [if_neg hin, if_neg]
        rintro ⟨hmem, hs⟩
        rcases mem_cons.mp hmem with heq | hmem'
        · exact hij ⟨heq, hs⟩
        · exact hin ⟨hmem', hs⟩

theorem Upload.drop_state (u : Upload) (i : ℕ) :
    (u.drop.items i).state = if i < u.tree.size ∧ (u.items i).state.unsettled then .cancelled
      else (u.items i).state := by
  have hstate := foldl_dropItem_state (range u.tree.size) u i
  simp only [mem_range] at hstate
  exact hstate

/-- `drop` leaves nothing on its way. -/
theorem Upload.Leased.quit (h : u.Leased) : u.drop.Quit where
  dropped := rfl
  backend := rfl
  leases := h.drop
  folderQueue := rfl
  waiting _ _ hc := nomatch hc
  sending i hi := by
    rw [drop_tree] at hi
    rw [drop_state]
    split
    · exact nofun
    · next hs =>
      intro hsending
      exact hs ⟨hi, by rw [hsending]; rfl⟩
  folders i hi := by
    rw [drop_tree] at hi
    rw [drop_state]
    split
    · exact nofun
    · next hs =>
      intro hqueued
      exact hs ⟨hi.1, by rw [hqueued]; rfl⟩

/-! ### After `drop` -/

/-- Nothing that makes a dropped upload go on comes to it, and no other hub brings it back: meta.db
took its mark. -/
def StaysDropped (s : Service) (step : Step) : Prop :=
  s.upload.dropped = true →
    match step with
    | .answer t a _ => s.upload.goesOn t a = false
    | .restart => False
    | _ => True

instance (s : Service) (step : Step) : Decidable (StaysDropped s step) :=
  match step with
  | .answer t a _ => inferInstanceAs (Decidable (_ → s.upload.goesOn t a = false))
  | .restart => inferInstanceAs (Decidable (_ → False))
  | .work _ | .lost | .save _ | .discard => .isTrue fun _ => trivial

/-- Every step keeps it so. -/
theorem Upload.Quit.next {s' : Service} {step : Step} (h : s.upload.Quit) (hk : s.upload.Kinded)
    (hok : StaysDropped s step) (hn : next s step = some s') : Idles s.upload s'.upload := by
  cases Stepped.of_next hn with
  | work _ _ hd | discard hd => exact nomatch hd.symm.trans h.dropped
  | answer t a random u ht hu =>
    have herased : Idles s.upload { s.upload with tasks := s.upload.tasks.erase t } :=
      .aside _ _ _ _ _ _ _
    exact herased.trans (.answer (h.erase t) (hk.tasks t ht) (hok h.dropped) hu)
  | lost =>
    exact { Idles.refl s.upload with backend := by simp [h.backend] }
  | save => exact .refl _
  | restart => exact absurd (hok h.dropped) id

/-- Once an upload is dropped, no step places a file of it, asks for a connection, or leaves one
held. -/
theorem nothing_after_drop (start : Start) {s s₁ s₂ : Service} {step : Step}
    (h : Run next free start.service s) (hd : step = .work .drop ∨ step = .discard)
    (hn : next s step = some s₁) (h' : Run next StaysDropped s₁ s₂) :
    s₂.upload.leases = [] ∧
      (∃ made, s₂.upload.calls = s₁.upload.calls ++ made ∧
        ∀ t ∈ made, t.acquires = false ∧ t.puts = false) ∧
      ∀ i, s₁.upload.tree.IsFile i → (s₂.upload.items i).state = .placed →
        (s₁.upload.items i).state = .placed := by
  have hquit : s₁.upload.Quit := by
    have hleased := leased_of_run start h
    rcases hd with rfl | rfl
    · cases Stepped.of_next hn with
      | work _ u _ hu => exact some.inj hu ▸ hleased.quit
    · cases Stepped.of_next hn with
      | discard => exact hleased.quit
  have hk : s₁.upload.Kinded := kinded_next (kinded_of_run start h) hn
  have hidle := (h'.invariant
    (I := fun s₂ => Idles s₁.upload s₂.upload ∧ s₂.upload.Kinded) ⟨.refl _, hk⟩
    fun s a s' hs hok hnext =>
      ⟨hs.1.trans ((hquit.idles hs.1).next hs.2 hok hnext), kinded_next hs.2 hnext⟩).1
  refine ⟨(hquit.idles hidle).leases, hidle.calls, fun i hi hplaced => ?_⟩
  rcases hidle.states i with heq | hrest
  · exact heq ▸ hplaced
  · simp [hplaced, hi.2, Kind.mayRest] at hrest

/-- An empty file is opened: its temporary is asked for. -/
def openingEmpty : List Step :=
  [.work (.pump 1 true), .answer (.openBackend 0 (some ⟨0, false, false⟩)) .done "",
    .answer (.openPlacement ⟨0, false, ["a"]⟩) (.placement false) "r"]

/-- Dropped meanwhile, it is stopped when the temporary is open. -/
def stoppedAfterDrop : List Step :=
  [.answer (.openTemp ⟨0, false, ["a"]⟩ (tempPathFor ["a"] "r") 0 false) .done "",
    .answer (.openStopped 0 1) .done "", .answer (.opened 0) .done ""]

theorem nothing_after_drop_opening : ∃ s s₁ s₂ : Service,
    Run next free (Start.ofItem .file 0 .ask none).service s ∧ next s .discard = some s₁ ∧
      Run next StaysDropped s₁ s₂ ∧ s₂.upload.tasks = [] ∧ s₂.upload.leases = [] := by
  have hrun : Run next free (Start.ofItem .file 0 .ask none).service _ :=
    .get_free openingEmpty (by decide +kernel)
  exact ⟨_, _, _, hrun, (some_get (by decide +kernel)).symm,
    .get stoppedAfterDrop (by decide +kernel) (by decide +kernel), by decide +kernel,
    (nothing_after_drop _ hrun (.inr rfl) (some_get (by decide +kernel)).symm
      (.get stoppedAfterDrop (by decide +kernel) (by decide +kernel))).1⟩

/-- **Queues and tasks hold items of their kind**, a file has one chunk under way, and the upload holds
the connection it has and no other: in every run. -/
theorem queues_and_leases {ok : Service → Step → Prop} (start : Start)
    (h : Run next ok start.service s) :
    s.upload.Kinded ∧ s.upload.leases = s.upload.backend.toList.map Backend.id :=
  ⟨kinded_of_run start h, leased_of_run start h⟩

theorem queues_and_leases_opening : ∃ s : Service,
    Run next free (Start.ofItem .file 0 .ask none).service s ∧ s.upload.tasks ≠ [] ∧
      s.upload.Kinded ∧ s.upload.leases = s.upload.backend.toList.map Backend.id := by
  have hrun : Run next free (Start.ofItem .file 0 .ask none).service _ :=
    .get_free openingEmpty (by decide +kernel)
  exact ⟨_, hrun, by decide +kernel, queues_and_leases _ hrun⟩

/-- The file is checked when its upload is dropped. -/
def checkingEmpty : List Step :=
  openingEmpty ++
    [.answer (.openTemp ⟨0, false, ["a"]⟩ (tempPathFor ["a"] "r") 0 false) .done "",
      .answer (.opened 0) .done ""]

/-- The check comes to its end, and the file is placed: over a connection asked for, and kept. -/
def placedAfterDrop : List Step :=
  [.answer (.finish 0 1 none) (.verified .size) "", .answer (.placeBackend 0 none) (.backend false) "",
    .answer (.placing 0 (some (tempPathFor ["a"] "r")) ["a"] .plain) .done ""]

theorem placed_after_drop : ¬∀ (start : Start) (s s₁ s₂ : Service),
    Run next free start.service s → next s .discard = some s₁ → Run next free s₁ s₂ →
    s₂.upload.leases = [] ∧
      (∃ made, s₂.upload.calls = s₁.upload.calls ++ made ∧
        ∀ t ∈ made, t.acquires = false ∧ t.puts = false) ∧
      ∀ i, s₁.upload.tree.IsFile i → (s₂.upload.items i).state = .placed →
        (s₁.upload.items i).state = .placed := by
  intro hall
  have hrun : Run next free (Start.ofItem .file 0 .ask none).service _ :=
    .get_free checkingEmpty (by decide +kernel)
  have hnone := (hall _ _ _ _ hrun (some_get (by decide +kernel)).symm
    (.get_free placedAfterDrop (by decide +kernel))).1
  exact absurd hnone (by decide +kernel)

end Lasterm.Transfer.Uploads
