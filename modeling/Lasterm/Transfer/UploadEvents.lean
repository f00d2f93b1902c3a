import Lasterm.Transfer.UploadWork
import Lasterm.Transfer.UploadFile

/-!
# What happens to one file

What happens to a file of an upload comes from elsewhere — a window, a host, a timer, another
file, a folder — or is the answer to something the service waits for on its behalf
(`transfers/transfer-service.ts`).  Every step is one or the other, for every file.

A step *takes up* a file when it queues it again, admits it, places it, looks at its temporary,
skips it or has it start again.  The service goes by the file's state then, and by a list it made
before it waited for the host; whether something is still under way for the file it does not ask.

## Main results

* `file_next` — every step is one or the other, for every file, if nothing is under way for the
  files it takes up.
-/

namespace Lasterm.Transfer.Uploads

open Transition Relation List Upload

/-- What comes from elsewhere to the file `i`; `taken` if the step takes it up, `drops` if it discards
the upload. -/
inductive Befalls (i : ℕ) (taken drops : Prop) (v : FileView) : FileView → Prop
  | number (key : ℕ) (h : v.key ≤ key) : Befalls i taken drops v { v with key }
  | interrupt (h : v.item.state = .sending ∨ v.item.state = .queued ∨ v.item.state = .verifying) :
      Befalls i taken drops v (v.interrupt i)
  | stop (h : v.item.state = .queued ∨ v.item.state = .conflict ∨ v.item.state = .interrupted ∨
      v.item.state = .sending) : Befalls i taken drops v (v.stopItem i)
  | drop (hd : drops) : Befalls i taken drops v (v.dropItem i)
  | fail (h : v.item.state = .queued ∨ v.item.state = .conflict) :
      Befalls i taken drops v (v.setState .failed)
  | receive (offset : ℕ) (data : List UInt8) (h : v.item.state = .sending) :
      Befalls i taken drops v (v.await (.receiving i offset data))
  | skip (ht : taken) (hf : v.Free) (connected : Bool) : Befalls i taken drops v (v.skip i connected)
  | resolve (ht : taken) (hf : v.Free) (hc : v.item.state = .conflict) (action : Action) :
      Befalls i taken drops v (v.edit fun item => { item with resolution := some action })
  | queue (ht : taken) (hf : v.Free) (hw : v.item.tempWhole = false) :
      Befalls i taken drops v (v.setState .queued)
  | place (ht : taken) (hf : v.Free) (hw : v.item.tempWhole = true) (held : Option Backend) :
      Befalls i taken drops v (v.place i held)
  | admits (ht : taken) (hf : v.Free) (hq : v.item.state = .queued) (hw : v.item.tempWhole = false)
      (held : Option Backend) :
      Befalls i taken drops v ((v.setState .sending).call (.openBackend i held))
  | look (ht : taken) (hf : v.Free) (hr : v.item.resumable) (key : ℕ) (temp : HostPath)
      (hp : v.item.temp = some temp) : Befalls i taken drops v (v.call (.lookStat key i temp))
  | restart (ht : taken) (hf : v.Free) (hr : v.item.resumable) (size : ℕ) (mtime : Option ℕ) :
      Befalls i taken drops v (v.restarted i size mtime)

/-- What follows an await on the file's behalf, the task taken off. -/
inductive Answers (i : ℕ) (v : FileView) : Task → Answer → FileView → Prop
  /-- `open` throws. -/
  | openThrew (t : Task) (k : Bool) (ht : t.phase = some .opening) (hi : t.file = some i) :
      Answers i v t (.fault k) (v.await (.openFailed i k))
  | openReached (held : Option Backend) (a : Answer) (exec verify : Bool) (target : HostPath)
      (random : String) :
      Answers i v (.openBackend i held) a (v.openReached ⟨i, exec, target⟩ verify random)
  | openLooked (o : Opening) (temp : HostPath) (a : Answer) (there : Option Stat) (verify : Bool)
      (random : String) (hi : o.i = i)
      (ha : a = .stat there ∨ (∃ k, a = .fault k) ∧ there = none) :
      Answers i v (.openStat o temp) a (v.openLooked o there verify random)
  | openTruncated (o : Opening) (temp : Option HostPath) (size : ℤ) (verify : Bool)
      (random : String) (hi : o.i = i) :
      Answers i v (.openTruncate o temp size) .done (v.openGoOn o verify random)
  | openNotTruncated (o : Opening) (temp : Option HostPath) (size : ℤ) (hi : o.i = i) :
      Answers i v (.openTruncate o temp size) (.fault false) (v.call (.openRemove o v.item.temp))
  | openRemoved (o : Opening) (temp : Option HostPath) (verify : Bool) (random : String)
      (hi : o.i = i) :
      Answers i v (.openRemove o temp) .done (v.restartFile.openGoOn o verify random)
  | openTemporary (o : Opening) (verify : Bool) (random : String) (hi : o.i = i) :
      Answers i v (.openPlacement o) (.placement false) (v.openNew o verify random)
  | openOwnName (o : Opening) (verify : Bool) (n : ℕ) (path : HostPath) (hi : o.i = i) :
      Answers i v (.openPlacement o) (.placement true)
        ((v.edit fun item =>
          { item with direct := true, hash := if verify then some [] else item.hash }).call
          (.openDirect o n path))
  | openedDirect (o : Opening) (n : ℕ) (path : HostPath) (name : Option String) (hi : o.i = i) :
      Answers i v (.openDirect o n path) .done (v.openedDirect i path name)
  | openConflict (o : Opening) (n : ℕ) (path : HostPath) (existing : Option FileEntry)
      (policy : Policy) (held : Option Backend) (connected : Bool) (hi : o.i = i) :
      Answers i v (.openDirect o n path) (.taken existing)
        ((v.conflictFound i policy existing held connected).await (.opened i))
  | openNextName (o : Opening) (n : ℕ) (path path' : HostPath) (existing : Option FileEntry)
      (hi : o.i = i) :
      Answers i v (.openDirect o n path) (.taken existing) (v.openDirect o (n + 1) path')
  | openedTemp (o : Opening) (temp : HostPath) (resumeAt : ℤ) (again : Bool) (hi : o.i = i) :
      Answers i v (.openTemp o temp resumeAt again) .done (v.openedTemp i)
  | openTempTaken (o : Opening) (temp : HostPath) (resumeAt : ℤ) (again : Bool)
      (existing : Option FileEntry) (hi : o.i = i) :
      Answers i v (.openTemp o temp resumeAt again) (.taken existing)
        (v.await (.openFailed i false))
  | openTempAgain (o : Opening) (temp : HostPath) (resumeAt : ℤ) (existing : Option FileEntry)
      (random : String) (hi : o.i = i) (ha : v.item.acked ≤ 0) :
      Answers i v (.openTemp o temp resumeAt false) (.taken existing)
        ((v.edit fun item => { item with temp := some (tempPathFor o.target random) }).call
          (.openTemp o (tempPathFor o.target random) resumeAt true))
  | openStopped (s : ℕ) (connected : Bool) :
      Answers i v (.openStopped i s) .done (v.openStopped i connected)
  | openStoppedRemoved (temp : HostPath) :
      Answers i v (.openStoppedRemove i temp) .done (v.await (.opened i))
  | openedWhole (h : v.item.state = .sending) (ha : v.item.acked = v.item.size) :
      Answers i v (.opened i) .done (v.finishFile i)
  | opened : Answers i v (.opened i) .done v
  | openFailed (k : Bool) (h : v.item.state = .sending) :
      Answers i v (.openFailed i k) .done (v.fileFailed i k)
  | openFailedStopped (k : Bool) (h : v.item.state ≠ .sending) :
      Answers i v (.openFailed i k) .done v
  | receiving (offset : ℕ) (data : List UInt8) :
      Answers i v (.receiving i offset data) .done (v.receiving i offset data)
  | written (s offset : ℕ) (data : List UInt8) :
      Answers i v (.write i s offset data) .done (v.written i s data)
  | writeFailed (s offset : ℕ) (data : List UInt8) (k : Bool) :
      Answers i v (.write i s offset data) (.fault k) (v.writeFailed i k)
  | stopped (sink : Option ℕ) (connected : Bool) :
      Answers i v (.afterStop i sink) .done (v.stopped i connected)
  | finished (s : ℕ) (hash : Option (List UInt8)) (a how : Verification) (held : Option Backend) :
      Answers i v (.finish i s hash) (.verified a) (v.finished i how held)
  /-- `finishFile` or `place` throws. -/
  | placeThrew (t : Task) (k : Bool) (ht : t.phase = some .placing) (hi : t.file = some i) :
      Answers i v t (.fault k) (v.fileFailed i k)
  | placeReached (held : Option Backend) (a : Answer) (target : HostPath) (how : Placing) :
      Answers i v (.placeBackend i held) a (v.call (.placing i v.item.temp target how))
  | placeNextName (temp : Option HostPath) (target target' : HostPath) (n : ℕ)
      (existing : Option FileEntry) :
      Answers i v (.placing i temp target (.keepBoth n)) (.taken existing)
        (v.call (.placing i temp target' (.keepBoth (n + 1))))
  | placeNoName (temp : Option HostPath) (target : HostPath) (n : ℕ)
      (existing : Option FileEntry) :
      Answers i v (.placing i temp target (.keepBoth n)) (.taken existing) (v.fileFailed i false)
  | placed (temp : Option HostPath) (target : HostPath) (how : Placing) (a : Answer)
      (outcome : Outcome) (name : Option String) (ha : a = .done ∨ how = .replace) :
      Answers i v (.placing i temp target how) a
        ((v.edit fun item => { item with finalName := name }).filePlaced (some target) outcome)
  | placeConflict (temp : Option HostPath) (target : HostPath) (existing : Option FileEntry)
      (policy : Policy) (held : Option Backend) (connected : Bool) :
      Answers i v (.placing i temp target .plain) (.taken existing)
        (v.conflictFound i policy existing held connected)
  | failedRemoves (sink : Option ℕ) (temp : HostPath) :
      Answers i v (.failedAbort i sink (some temp)) .done (v.call (.removing i temp))
  | failedKeeps (sink : Option ℕ) (temp : Option HostPath) :
      Answers i v (.failedAbort i sink temp) .done v
  | aborted (s : ℕ) : Answers i v (.aborting i s) .done v
  | removed (temp : HostPath) : Answers i v (.removing i temp) .done v
  /-- A look at its temporary, or a step of it, is over. -/
  | looked (t : Task) (a : Answer) (ht : t.phase = some .looking) (hi : t.file = some i) :
      Answers i v t a v
  | lookTruncates (key : ℕ) (temp : HostPath) (there : Option Stat)
      (ha : v.item.acked < sizeThere there) :
      Answers i v (.lookStat key i temp) (.stat there)
        (v.call (.lookTruncate key i temp v.item.acked))
  | lookRemoves (t : Task) (a : Answer) (key : ℕ) (temp : HostPath)
      (ht : t.phase = some .looking) (hi : t.file = some i) :
      Answers i v t a (v.call (.lookRemove key i temp))
  | lookRestarts (t : Task) (a : Answer) (ht : t.phase = some .looking) (hi : t.file = some i) :
      Answers i v t a v.restartFile

/-! ### The files a step takes up -/

namespace Upload

/-- What `resolve` answers for, and skips. -/
def resolveTakes (u : Upload) (scope : Option ℕ) (action : Action) : List ℕ :=
  let conflicts := ((u.scopedItems scope).getD []).filter fun i => (u.items i).state = .conflict
  if action = .skip then
    (conflicts.flatMap (walk u.tree u.tree.size)).filter fun i => ¬(u.items i).ended
  else conflicts

/-- What `retry` queues again, if its host is connected. -/
def retryTakes (u : Upload) (scope : Option ℕ) : List ℕ :=
  ((u.scopedItems scope).getD []).filter u.again

/-- What the file loop of `pump` places or admits. -/
def pumpTakes (room : ℕ) (u : Upload) : List ℕ → List ℕ
  | [] => []
  | i :: rest =>
    if room = 0 then []
    else
      let u := { u with queue := rest }
      if (u.items i).state ≠ .queued then pumpTakes room u rest
      else if (u.items i).tempWhole then i :: pumpTakes room (u.place i) rest
      else i :: pumpTakes (room - 1) (u.admitFile i) rest

/-- The files a resume names as changed that it may change. -/
def changedTakes (u : Upload) (files : List ResumeFile) : List ℕ :=
  (files.map ResumeFile.file).filter fun i => (u.items i).resumable

/-- The files with a temporary that a resume looks at. -/
def keptFiles (u : Upload) : List ℕ :=
  (range u.tree.size).filter fun i =>
    u.tree.kind i = .file ∧ (u.items i).temp ≠ none ∧ (u.items i).resumable

/-- What `takeUp` has start again, skips, and looks at first. -/
def takeUpTakes (u : Upload) (files : List ResumeFile) : List ℕ :=
  let changed := u.changedTakes files
  changed ++ (u.keptFiles.filter fun i => i ∉ changed).take hostWorkConcurrency

/-- What a look-up's worker may take next, having seen to `i`. -/
def lookTakes (u : Upload) (key i : ℕ) : List ℕ :=
  match u.lookUps key with
  | none => []
  | some l =>
    (l.todo.find? fun k => (u.items k).temp ≠ none).toList ++
      (l.todo.find? fun k => k ≠ i ∧ (u.items k).temp ≠ none).toList

/-- What is skipped with folders that something else has the names of. -/
def clashTakes (u : Upload) (plain : List ℕ) (results : List FolderResult) : List ℕ :=
  if u.onConflict = .skip then
    ((plain.zip results).filter fun made => match made.2 with
      | .clash _ => true
      | _ => false).flatMap fun made =>
        (walk u.tree u.tree.size made.1).filter fun i => ¬(u.items i).ended
  else []

end Upload

/-- The items a step takes up. -/
def Step.takesUp (u : Upload) : Step → List ℕ
  | .work (.resolve scope action) => u.resolveTakes scope action
  | .work (.retry scope true) => u.retryTakes scope
  | .work (.join _) => u.toQueueAgain
  | .work (.pump room mayWrite) =>
    let u := if u.folderQueue ≠ [] ∧ u.creatingFolders = false then u.createFolders else u
    if u.source.isSome ∧ mayWrite then pumpTakes room u u.queue else []
  | .answer (.retryConnect again) .done _ => again
  | .answer (.takeUpBackend ..) (.fault _) _ => []
  | .answer (.takeUpBackend _ files _) _ _ => u.takeUpTakes files
  | .answer (.lookStat key i _) _ _ | .answer (.lookTruncate key i _ _) _ _
  | .answer (.lookRemove key i _) _ _ => u.lookTakes key i
  | .answer (.looked _) _ _ => if u.dropped then [] else u.toQueueAgain
  | .answer (.mkdirs _ plain _) (.folders results) _ => u.clashTakes plain results
  | _ => []

/-- The file has ended, or may be taken up. -/
def Safe (i : ℕ) (taken : Prop) (u : Upload) : Prop :=
  (u.items i).ended ∨ taken ∧ (u.file i).Free

namespace Safe

variable {u v : Upload} {i j : ℕ} {taken : Prop}

theorem of_file_eq (h : Safe i taken u) (hv : v.file i = u.file i) : Safe i taken v := by
  have hitem : v.items i = u.items i := congrArg FileView.item hv
  unfold Safe
  rw [hitem, hv]
  exact h

theorem failSubtree (fuel : ℕ) (h : Safe i taken u)
    (hs : i = j → (u.items j).state = .queued ∨ (u.items j).state = .conflict) :
    Safe i taken (failSubtree fuel u j) := by
  induction fuel generalizing u j with
  | zero => exact h
  | succ fuel ih =>
    have hfailed : Safe i taken (u.setState j .failed) := by
      by_cases hi : i = j
      · subst hi
        obtain hend | ⟨ht, hphases, -⟩ := h
        · exact hend.elim (fun h => by simp [h] at hs) (fun h => by simp [h] at hs)
        · refine .inr ⟨ht, ?_⟩
          rw [file_setState_self]
          exact ⟨hphases, by simp [FileView.setState, FileView.edit, Item.ended]⟩
      · exact h.of_file_eq (file_setState_ne hi)
    refine foldlRecOn (motive := Safe i taken) _ _ hfailed fun w hw c _ => ?_
    split
    · next hc => exact ih hw fun _ => hc
    · exact hw

theorem skip (fuel : ℕ) (h : Safe i taken u)
    (hskip : ((skip fuel u j).items i).ended ∨ (skip fuel u j).file i = u.file i) :
    Safe i taken (skip fuel u j) :=
  hskip.elim .inl h.of_file_eq

end Safe

/-- What happens to the file `i` from `u` to `v` comes from elsewhere. -/
def Happens (i : ℕ) (taken drops : Prop) (u v : Upload) : Prop :=
  ReflTransGen (Befalls i taken drops) (u.file i) (v.file i)

namespace Happens

variable {u v w : Upload} {i j : ℕ} {taken drops : Prop} {o : Opening}

private theorem some_ne (h : i ≠ j) : some j ≠ some i := fun heq => h (Option.some.inj heq).symm

theorem refl (u : Upload) : Happens i taken drops u u := ReflTransGen.refl

theorem trans (h : Happens i taken drops u v) (h' : Happens i taken drops v w) :
    Happens i taken drops u w :=
  ReflTransGen.trans h h'

theorem same (h : Happens i taken drops u v) (hw : w.file i = v.file i) :
    Happens i taken drops u w := by
  unfold Happens
  rw [hw]
  exact h

theorem befalls (h : Happens i taken drops u v) (hw : Befalls i taken drops (v.file i) (w.file i)) :
    Happens i taken drops u w :=
  ReflTransGen.tail h hw

theorem foldl {α : Type*} {f : Upload → α → Upload} {l : List α} (h : Happens i taken drops u v)
    (hf : ∀ w, Happens i taken drops u w → ∀ a ∈ l, Happens i taken drops u (f w a)) :
    Happens i taken drops u (l.foldl f v) :=
  foldlRecOn (motive := Happens i taken drops u) l _ h hf

section

variable (h : Happens i taken drops u v)
include h

theorem number : Happens i taken drops u { v with nextKey := v.nextKey + 1 } :=
  h.befalls (.number (v.nextKey + 1) (Nat.le_succ _))

theorem edit (hi : i ≠ j) (f : Item → Item) : Happens i taken drops u (v.edit j f) :=
  h.same (file_edit_ne hi)

theorem setState (hi : i ≠ j) (state : ItemState) : Happens i taken drops u (v.setState j state) :=
  h.same (file_setState_ne hi)

theorem addAcked (hi : i ≠ j) (delta : ℤ) : Happens i taken drops u (v.addAcked j delta) :=
  h.same (file_addAcked_ne hi delta)

theorem restartFile (hi : i ≠ j) : Happens i taken drops u (v.restartFile j) :=
  h.same (file_restartFile_ne hi)

theorem await {t : Task} (ht : t.file ≠ some i) : Happens i taken drops u (v.await t) :=
  h.same (file_await_ne ht)

theorem call {t : Task} (ht : t.file ≠ some i) : Happens i taken drops u (v.call t) :=
  h.same (file_call_ne ht)

theorem queueAgain (hi : i ≠ j) : Happens i taken drops u (v.queueAgain j) :=
  h.same (file_queueAgain_ne hi)

theorem place (hi : i ≠ j) : Happens i taken drops u (v.place j) :=
  h.same (file_place_ne hi)

/-! ### What stops it -/

theorem interrupt (hs : (v.items j).state = .sending ∨ (v.items j).state = .queued ∨
      (v.items j).state = .verifying) : Happens i taken drops u (v.interrupt j) := by
  by_cases hi : i = j
  · subst hi
    refine h.befalls ?_
    rw [file_interrupt]
    exact .interrupt hs
  · exact h.same (file_interrupt_ne hi)

theorem interruptAll : Happens i taken drops u v.interruptAll := by
  unfold Upload.interruptAll
  split
  · exact h
  · refine same (v := (range v.tree.size).foldl _ v) (h.foldl fun w hw j _ => ?_) rfl
    split
    · next hs => exact hw.interrupt (hs.imp id .inl)
    · exact hw

theorem interruptThose {which : ItemState → Bool} (hwhich : ∀ state, which state = true →
      state = .sending ∨ state = .queued ∨ state = .verifying) :
    Happens i taken drops u (v.interruptThose which) := by
  refine h.foldl fun w hw j _ => ?_
  split
  · next hs => exact hw.interrupt (hwhich _ hs)
  · exact hw

end

theorem stopItem (fuel : ℕ) (h : Happens i taken drops u v) (hi : v.tree.kind i = .file)
    (hs : (v.items j).state = .queued ∨ (v.items j).state = .conflict ∨
      (v.items j).state = .interrupted ∨ (v.items j).state = .sending) :
    Happens i taken drops u (stopItem fuel v j) := by
  induction fuel generalizing v j with
  | zero => exact h
  | succ fuel ih =>
    by_cases hij : i = j
    · subst hij
      refine h.befalls ?_
      rw [file_stopItem_self fuel hi]
      exact .stop hs
    · let stopped := (v.edit j fun item => { item with sink := none }).setState j .cancelled
      have hstopped : Happens i taken drops u stopped := (h.edit hij _).setState hij .cancelled
      have htree : stopped.tree = v.tree := setState_tree
      cases hkind : v.tree.kind j with
      | dir =>
        rw [stopItem_dir fuel hkind]
        -- the tree stays the same while the folder's content is stopped
        refine (foldlRecOn (motive := fun w : Upload =>
          Happens i taken drops u w ∧ w.tree = v.tree) _ _ ⟨hstopped, htree⟩ ?_).1
        rintro w ⟨hw, hwtree⟩ c hmem
        split
        · next hc =>
          have hlt : c < w.tree.size := by
            rw [hwtree]
            exact UploadTree.lt_size_of_mem_children hmem
          have hlive : ¬(w.items c).ended := by
            rintro (hend | hend) <;> simp [hend] at hc
          exact ⟨ih hw (hwtree ▸ hi) hc,
            (Moves.tree (Moves.stopItem fuel .refl hlt fun _ => hlive)).trans hwtree⟩
        · exact ⟨hw, hwtree⟩
      | file =>
        rw [stopItem_file fuel hkind]
        dsimp only
        split
        · exact hstopped
        · exact hstopped.call (some_ne hij)

theorem failSubtree (fuel : ℕ) (h : Happens i taken drops u v)
    (hs : i = j → (v.items j).state = .queued ∨ (v.items j).state = .conflict) :
    Happens i taken drops u (failSubtree fuel v j) := by
  induction fuel generalizing v j with
  | zero => exact h
  | succ fuel ih =>
    have hfailed : Happens i taken drops u (v.setState j .failed) := by
      by_cases hi : i = j
      · subst hi
        refine h.befalls ?_
        rw [file_setState_self]
        exact .fail (hs rfl)
      · exact h.setState hi .failed
    refine hfailed.foldl fun w hw c _ => ?_
    split
    · next hc => exact ih hw fun _ => hc
    · exact hw

/-! ### What is done for another file -/

theorem skipFile (fuel : ℕ) (h : Happens i taken drops u v) (hi : i ≠ j) (hj : v.tree.kind j = .file) :
    Happens i taken drops u (skip fuel v j) :=
  h.same (file_skip_ne fuel hi hj)

section

variable (h : Happens i taken drops u v)
include h

theorem fileFailed (hi : i ≠ j) (interruption : Bool) :
    Happens i taken drops u (v.fileFailed j interruption) := by
  have hclosed :
      Happens i taken drops u (v.edit j fun item => { item with sink := none }) := h.edit hi _
  unfold Upload.fileFailed
  split
  · refine (setState ?_ hi .interrupted).interruptAll
    split
    · exact hclosed
    · exact hclosed.call (some_ne hi)
  · exact ((hclosed.setState hi .failed).restartFile hi).call (some_ne hi)

theorem filePlaced (hi : i ≠ j) (path : Option HostPath)
    (outcome : Outcome) : Happens i taken drops u (v.filePlaced j path outcome) :=
  (h.edit hi _).setState hi .placed

theorem conflictFound (hi : i ≠ j) (hj : v.tree.kind j = .file)
    (existing : Option FileEntry) : Happens i taken drops u (v.conflictFound j existing) := by
  have hfound : Happens i taken drops u (v.edit j fun item =>
      { item with
        existing, typeClash := (existing.map FileEntry.folderLike).getD false, late := true }) :=
    h.edit hi _
  have hagain : ∀ (w : Upload) (action : Action), Happens i taken drops u w →
      Happens i taken drops u
        (if ((w.edit j fun item => { item with resolution := some action }).items j).tempWhole then
          (w.edit j fun item => { item with resolution := some action }).place j
        else (w.edit j fun item => { item with resolution := some action }).queueAgain j) := by
    intro w action hw
    split
    · exact (hw.edit hi _).place hi
    · exact (hw.edit hi _).queueAgain hi
  have hask : ∀ w : Upload, Happens i taken drops u w → Happens i taken drops u
      ((if (w.items j).tempWhole then w
        else w.edit j fun item => { item with sink := none, temp := none }).setState j .conflict) := by
    intro w hw
    refine setState ?_ hi .conflict
    split
    · exact hw
    · exact hw.edit hi _
  unfold Upload.conflictFound
  dsimp only
  split
  · exact hfound.skipFile _ hi hj
  · exact hagain _ .keepBoth hfound
  · split
    · exact hask _ hfound
    · exact hagain _ .replace hfound
  · exact hask _ hfound

theorem openFile (hi : i ≠ o.i) : Happens i taken drops u (v.openFile o) := by
  unfold Upload.openFile
  split
  · exact h
  · exact h.call (some_ne hi)

theorem openDirect (hi : i ≠ o.i) (n : ℕ) : Happens i taken drops u (v.openDirect o n) := by
  unfold Upload.openDirect
  split
  · exact h.await (some_ne hi)
  · exact h.call (some_ne hi)

theorem openNew (hi : i ≠ o.i) (direct : Bool) (random : String) :
    Happens i taken drops u (v.openNew o direct random) := by
  unfold Upload.openNew
  dsimp only
  split
  · exact (h.edit hi _).openDirect hi _
  · exact ((h.edit hi _).edit hi _).openFile hi

theorem openGoOn (hi : i ≠ o.i) (random : String) :
    Happens i taken drops u (v.openGoOn o random) := by
  unfold Upload.openGoOn
  split
  · split
    · exact h.openNew hi false random
    · exact h.call (some_ne hi)
  · exact h.openFile hi

theorem openReached (hi : i ≠ j) (random : String) (b : Backend) :
    Happens i taken drops u (v.openReached j random b) := by
  unfold Upload.openReached
  split
  · split <;> exact h.call (some_ne hi)
  · exact h.openGoOn hi random

theorem openLooked (hi : i ≠ o.i) (there : Option Stat)
    (random : String) : Happens i taken drops u (v.openLooked o there random) := by
  have hgo : Happens i taken drops u (if (v.items o.i).acked < sizeThere there then
      v.call (.openTruncate o (v.items o.i).temp (v.items o.i).acked) else v.openGoOn o random) := by
    split
    · exact h.call (some_ne hi)
    · exact h.openGoOn hi random
  unfold Upload.openLooked
  by_cases hc : if o.exec && !(v.items o.i).carried then sizeThere there = (v.items o.i).acked
      else (v.items o.i).acked ≤ sizeThere there
  · rw [if_pos hc]
    exact hgo
  · rw [if_neg hc]
    exact h.call (some_ne hi)

theorem openedTemp (hi : i ≠ j) : Happens i taken drops u (v.openedTemp j) := by
  have hopened := h.number.edit hi fun item => { item with sink := some v.nextKey }
  unfold Upload.openedTemp
  dsimp only
  split
  · exact hopened.await (some_ne hi)
  · exact (hopened.edit hi _).call (some_ne hi)

theorem openedDirect (hi : i ≠ o.i) (n : ℕ) (path : HostPath) :
    Happens i taken drops u (v.openedDirect o n path) :=
  (h.number.edit hi _).await (some_ne hi)

section

variable (hi : i ≠ j)
include hi

theorem openStopped : Happens i taken drops u (v.openStopped j) := by
  unfold Upload.openStopped
  dsimp only
  split
  · split
    · exact (h.restartFile hi).await (some_ne hi)
    · split
      · exact (h.restartFile hi).call (some_ne hi)
      · exact (h.restartFile hi).await (some_ne hi)
  · exact h.await (some_ne hi)

theorem finishFile : Happens i taken drops u (v.finishFile j) := by
  unfold Upload.finishFile
  split
  · exact h
  · split
    · exact (((h.edit hi _).setState hi .verifying).same rfl).call (some_ne hi)
    · exact h

theorem receiving (offset : ℕ) (data : List UInt8) :
    Happens i taken drops u (v.receiving j offset data) := by
  unfold Upload.receiving
  dsimp only
  split
  · exact h
  · split
    · exact (h.edit hi _).call (some_ne hi)
    · exact h

theorem written (s : ℕ) (data : List UInt8) : Happens i taken drops u (v.written j s data) := by
  have hended : Happens i taken drops u (v.edit j fun item => { item with writing := false }) :=
    h.edit hi _
  have hgrown := (hended.edit hi fun item =>
    { item with hash := item.hash.map (· ++ data) }).addAcked hi data.length
  unfold Upload.written
  dsimp only
  split
  · split
    · exact hgrown.finishFile hi
    · exact hgrown
  · exact hended.call (some_ne hi)

theorem writeFailed (interruption : Bool) :
    Happens i taken drops u (v.writeFailed j interruption) := by
  unfold Upload.writeFailed
  refine edit ?_ hi _
  split
  · exact h.fileFailed hi interruption
  · exact h

theorem stopped : Happens i taken drops u (v.stopped j) := by
  unfold Upload.stopped
  dsimp only
  split
  · split
    · exact h.restartFile hi
    · split
      · exact (h.restartFile hi).call (some_ne hi)
      · exact h.restartFile hi
  · exact h

theorem finished (how : Verification) : Happens i taken drops u (v.finished j how) := by
  have hchecked := (same (w := { v with busy := v.busy - 1 }) h rfl).edit hi fun item =>
    { item with verification := some (v.verificationOf j how), tempWhole := true, hash := none }
  unfold Upload.finished
  dsimp only
  split
  · exact hchecked.filePlaced hi _ _
  · exact hchecked.place hi

theorem placeKeepBoth (temp : Option HostPath)
    (parent : HostPath) (n : ℕ) : Happens i taken drops u (v.placeKeepBoth j temp parent n) := by
  unfold Upload.placeKeepBoth
  split
  · exact (h.fileFailed hi false).same rfl
  · exact h.call (some_ne hi)

theorem placeReached : Happens i taken drops u (v.placeReached j) := by
  unfold Upload.placeReached
  split
  · exact h.call (some_ne hi)
  · exact h.placeKeepBoth hi _ _ 1
  · exact h.call (some_ne hi)

theorem placeAnswered (hj : v.tree.kind j = .file)
    {temp : Option HostPath} {target : HostPath} {how : Placing} {a : Answer}
    (hw : v.placeAnswered j temp target how a = some w) : Happens i taken drops u w := by
  unfold Upload.placeAnswered at hw
  split at hw
  · cases hw
    exact (h.fileFailed hi _).same rfl
  · cases hw
    exact (h.filePlaced hi _ _).same rfl
  · cases hw
    exact (h.filePlaced hi _ _).same rfl
  · cases hw
    exact ((h.edit hi _).filePlaced hi _ _).same rfl
  · cases hw
    exact h.placeKeepBoth hi _ _ _
  · cases hw
    exact (h.filePlaced hi _ _).same rfl
  · cases hw
    exact (h.conflictFound hi hj _).same rfl
  · cases hw

end

/-! ### What takes it up -/

theorem requeue (hi : v.tree.kind i = .file) (ht : taken)
    (hf : (v.file i).Free) : Happens i taken drops u (v.requeue i) := by
  refine h.befalls ?_
  unfold Upload.requeue
  cases hw : (v.items i).tempWhole with
  | true =>
    obtain ⟨held, hplace⟩ := file_place v i
    rw [if_pos ⟨hi, rfl⟩, hplace]
    exact .place ht hf hw held
  | false =>
    rw [if_neg (by simp), file_queueAgain_self]
    exact .queue ht hf hw

end

theorem requeueAbove_file (requeued : List ℕ) {folders : List ℕ} (hfolders : i ∉ folders) :
    (v.requeueAbove requeued folders).1.file i = v.file i ∧
      (v.requeueAbove requeued folders).1.tree = v.tree ∧
      (i ∈ (v.requeueAbove requeued folders).2 ↔ i ∈ requeued) := by
  refine foldlRecOn (motive := fun s : Upload × List ℕ =>
    s.1.file i = v.file i ∧ s.1.tree = v.tree ∧ (i ∈ s.2 ↔ i ∈ requeued)) _ _
    ⟨rfl, rfl, Iff.rfl⟩ ?_
  rintro s ⟨hfile, htree, hmem⟩ p hp
  have hi : i ≠ p := fun heq => hfolders (heq ▸ takeWhile_subset _ hp)
  split
  · exact ⟨(file_requeue_ne hi).trans hfile, requeue_tree.trans htree,
      by simp [hmem, hi]⟩
  · exact ⟨hfile, htree, hmem⟩

theorem requeueAll (hi : v.tree.IsFile i) {again : List ℕ}
    (hf : i ∈ again → taken ∧ (v.file i).Free) : Happens i taken drops v (v.requeueAll again) := by
  have hloop : Happens i taken drops v (again.foldl requeueOne (v, [])).1 := by
    refine (foldlRecOn (motive := fun s : Upload × List ℕ => s.1.tree = v.tree ∧
      (s.1.file i = v.file i ∨ i ∈ s.2) ∧ Happens i taken drops v s.1) again _
      ⟨rfl, .inl rfl, refl v⟩ ?_).2.2
    rintro s ⟨htree, hfile, hs⟩ j hj
    have habove : i ∉ s.1.tree.foldersAbove j := by
      intro hmem
      rw [htree] at hmem
      exact hi.not_isDir (UploadTree.isDir_of_under (UploadTree.mem_foldersAbove_iff.mp hmem))
    obtain ⟨hfile', htree', hmem'⟩ := requeueAbove_file (v := s.1) s.2 habove
    unfold requeueOne
    dsimp only
    split
    · exact ⟨htree'.trans htree, hfile.imp hfile'.trans hmem'.mpr, hs.same hfile'⟩
    · next hnew =>
      refine ⟨requeue_tree.trans (htree'.trans htree), ?_⟩
      by_cases hij : i = j
      · subst hij
        refine ⟨.inr mem_cons_self, ?_⟩
        have hunchanged := hfile'.trans (hfile.resolve_right fun h => hnew (hmem'.mpr h))
        obtain ⟨ht, hfree⟩ := hf hj
        refine (hs.same hfile').requeue ?_ ht (hunchanged ▸ hfree)
        rw [htree', htree]
        exact hi.2
      · refine ⟨?_, (hs.same hfile').same (file_requeue_ne hij)⟩
        refine hfile.imp (fun h => ?_) fun h => mem_cons_of_mem _ (hmem'.mpr h)
        exact (file_requeue_ne hij).trans (hfile'.trans h)
  unfold Upload.requeueAll
  dsimp only
  split
  · exact hloop.same (file_enqueueQueued _)
  · exact hloop

theorem skip (fuel : ℕ) {k : ℕ} (h : Happens i taken drops u v) (hi : v.tree.kind i = .file)
    (hroot : k = i → ¬(v.items i).ended)
    (hsafe : i ∈ walk v.tree fuel k → (v.items i).ended ∨ taken ∧ (v.file i).Free) :
    Happens i taken drops u (skip fuel v k) ∧
      (((skip fuel v k).items i).ended ∨ (skip fuel v k).file i = v.file i) := by
  induction fuel generalizing v k with
  | zero => exact ⟨h, .inr rfl⟩
  | succ fuel ih =>
    by_cases hki : k = i
    · subst hki
      obtain ⟨connected, hskip⟩ := file_skip_self (u := v) fuel hi
      obtain hend | ⟨ht, hf⟩ := hsafe (by simp [walk])
      · exact absurd hend (hroot rfl)
      refine ⟨h.befalls (hskip ▸ .skip ht hf connected), .inl ?_⟩
      have hstate : ((skip (fuel + 1) v k).items k).state = .skipped := by
        have hitem := congrArg (fun w : FileView => w.item.state) hskip
        refine hitem.trans ?_
        unfold FileView.skip
        split
        · rfl
        · split <;> rfl
      exact .inr hstate
    · have hik : i ≠ k := fun heq => hki heq.symm
      cases hkind : v.tree.kind k with
      | file =>
        exact ⟨h.skipFile (fuel + 1) hik hkind, .inr (file_skip_ne (fuel + 1) hik hkind)⟩
      | dir =>
        let skipped :=
          (v.edit k fun item => { item with outcome := some .skipped }).setState k .skipped
        have htree : skipped.tree = v.tree := setState_tree
        have hsame : skipped.file i = v.file i :=
          (file_setState_ne hik).trans (file_edit_ne hik)
        rw [skip_dir fuel hkind]
        -- every child is met with the file as it was, or ended
        refine (foldlRecOn (motive := fun w : Upload => w.tree = v.tree ∧
          Happens i taken drops u w ∧ ((w.items i).ended ∨ w.file i = v.file i)) _ _
          ⟨htree, h.same hsame, .inr hsame⟩ ?_).2
        rintro w ⟨hwtree, hw, hwfile⟩ c hc
        split
        · next hlive =>
          have hwalk : i ∈ walk w.tree fuel c → i ∈ walk v.tree (fuel + 1) k := by
            intro hmem
            rw [hwtree] at hmem
            exact mem_cons_of_mem _ (mem_flatMap.mpr ⟨c, hc, hmem⟩)
          obtain ⟨hstep, hstepFile⟩ := ih (v := w) (k := c) hw (hwtree ▸ hi)
            (fun hci hend => by
              subst hci
              exact hend.elim hlive.1 hlive.2)
            (fun hmem => hwfile.elim .inl fun hfile => by
              have hitem : w.items i = v.items i := congrArg FileView.item hfile
              rw [hitem, hfile]
              exact hsafe (hwalk hmem))
          refine ⟨(skip_tree fuel w c).trans hwtree, hstep, ?_⟩
          refine hstepFile.elim .inl fun hfile => ?_
          have hitem : (skip fuel w c).items i = w.items i := congrArg FileView.item hfile
          exact hwfile.imp (hitem ▸ ·) hfile.trans
        · exact ⟨hwtree, hw, hwfile⟩

theorem resolve (hi : v.tree.IsFile i) (scope : Option ℕ) (action : Action)
    (hf : i ∈ v.resolveTakes scope action → taken ∧ (v.file i).Free) :
    Happens i taken drops v (v.resolve scope action) := by
  unfold Upload.resolve
  split
  · exact refl v
  · next ids hids =>
    split
    · exact refl v
    · have htakes : ∀ k ∈ ids, (v.items k).state = .conflict →
          (action = .skip → i ∈ walk v.tree v.tree.size k → (v.items i).ended ∨
            taken ∧ (v.file i).Free) ∧
          (action ≠ .skip → k = i → taken ∧ (v.file i).Free) := by
        intro k hk hc
        unfold resolveTakes at hf
        rw [hids] at hf
        have hmem : k ∈ ids.filter fun k => (v.items k).state = .conflict := by simp [hk, hc]
        refine ⟨?_, ?_⟩
        · intro hskip hwalk
          by_cases hend : (v.items i).ended
          · exact .inl hend
          · refine .inr (hf ?_)
            rw [if_pos hskip]
            exact mem_filter.mpr ⟨mem_flatMap.mpr ⟨k, hmem, hwalk⟩, by simpa using hend⟩
        · rintro hne rfl
          refine hf ?_
          rw [if_neg hne]
          exact hmem
      -- until it is answered for or ended, the file is as it was
      refine (foldlRecOn (motive := fun w : Upload => w.tree = v.tree ∧
        Happens i taken drops v w ∧
        (∀ k, (w.items k).state = .conflict → (v.items k).state = .conflict) ∧
        (action ≠ .skip ∧ ((w.items i).state ≠ .conflict ∨ taken ∧ (w.file i).Free) ∨
          (w.items i).ended ∨ w.file i = v.file i))
        _ _ ⟨rfl, refl v, fun _ => id, .inr (.inr rfl)⟩ ?_).2.1
      rintro w ⟨hwtree, hw, hwconflict, hwfile⟩ k hk
      unfold resolveItem
      split
      · exact ⟨hwtree, hw, hwconflict, hwfile⟩
      next hc =>
        have hc : (w.items k).state = .conflict := not_not.mp hc
        obtain ⟨hskip, hanswer⟩ := htakes k hk (hwconflict k hc)
        split
        · exact ⟨hwtree, hw, hwconflict, hwfile⟩
        split
        · next haction =>
          have hwfile' : (w.items i).ended ∨ w.file i = v.file i :=
            hwfile.resolve_left fun hn => hn.1 haction
          obtain ⟨hstep, hstepFile⟩ := hw.skip w.tree.size (k := k) (hwtree ▸ hi.2)
            (fun hki hend => by
              subst hki
              exact hend.elim (by simp [hc]) (by simp [hc]))
            (fun hmem => hwfile'.elim .inl fun hfile => by
              have hitem : w.items i = v.items i := congrArg FileView.item hfile
              rw [hitem, hfile]
              exact hskip haction (hwtree ▸ hmem))
          refine ⟨(skip_tree _ w k).trans hwtree, hstep, fun j hj => ?_, .inr ?_⟩
          · obtain heq | hskipped := skip_state w.tree.size w k j
            · exact hwconflict j (heq.symm.trans hj)
            · rw [hskipped] at hj
              cases hj
          refine hstepFile.elim .inl fun hfile => ?_
          have hitem : (Upload.skip w.tree.size w k).items i = w.items i := congrArg FileView.item hfile
          exact hwfile'.imp (hitem ▸ ·) hfile.trans
        · next haction =>
          have hnoted : ∀ j, (((w.noteAnswer k action).requeue k).items j).state = .conflict →
              (v.items j).state = .conflict := by
            intro j hj
            refine hwconflict j ?_
            have hj' := requeue_state (by decide) hj
            unfold noteAnswer at hj'
            rw [edit_items] at hj'
            split at hj'
            · next hjk => exact hjk ▸ hj'
            · exact hj'
          refine ⟨requeue_tree.trans hwtree, ?_⟩
          by_cases hki : k = i
          · subst hki
            have hfree : taken ∧ (w.file k).Free := by
              obtain ⟨-, hstate | hfree⟩ | hend | hsame := hwfile
              · exact absurd hc hstate
              · exact hfree
              · exact hend.elim (by simp [hc]) (by simp [hc])
              · rw [hsame]
                exact hanswer haction rfl
            have hview : (w.noteAnswer k action).file k =
                (w.file k).edit fun item => { item with resolution := some action } :=
              file_edit_self
            have hanswered : Happens k taken drops v (w.noteAnswer k action) := by
              refine hw.befalls ?_
              rw [hview]
              exact .resolve hfree.1 hfree.2 hc action
            have hstill : ((w.noteAnswer k action).file k).Free := by
              rw [hview]
              exact hfree.2
            refine ⟨hanswered.requeue (hwtree ▸ hi.2) hfree.1 hstill, hnoted, .inl ⟨haction, ?_⟩⟩
            obtain hstate | hstate | hsame := requeue_moves (w.noteAnswer k action) k
            · exact .inl (by simp [hstate])
            · exact .inl (by simp [hstate])
            · rw [hsame]
              exact .inr ⟨hfree.1, hstill⟩
          · have hik : i ≠ k := fun heq => hki heq.symm
            have hfile : ((w.noteAnswer k action).requeue k).file i = w.file i :=
              (file_requeue_ne hik).trans (file_edit_ne hik)
            have hitem : ((w.noteAnswer k action).requeue k).items i = w.items i :=
              congrArg FileView.item hfile
            refine ⟨hw.same hfile, hnoted, ?_⟩
            rw [hitem, hfile]
            exact hwfile

theorem pumpFiles (hi : v.tree.kind i = .file) (room : ℕ) (queue : List ℕ)
    (h : Happens i taken drops u v)
    (hf : (v.items i).state = .queued → i ∈ pumpTakes room v queue →
      taken ∧ (v.file i).Free) : Happens i taken drops u (pumpFiles room v queue) := by
  induction queue generalizing room v with
  | nil => exact h
  | cons k rest ih =>
    unfold pumpFiles
    unfold pumpTakes at hf
    split
    · exact h
    next hroom =>
      rw [if_neg hroom] at hf
      dsimp only at hf ⊢
      have hrest : Happens i taken drops u { v with queue := rest } := h.same rfl
      split
      · next hstate =>
        rw [if_pos hstate] at hf
        exact ih (v := { v with queue := rest }) hi _ hrest hf
      next hstate =>
        rw [if_neg hstate] at hf
        have hstate : (v.items k).state = .queued := not_not.mp hstate
        split
        · next hwhole =>
          rw [if_pos hwhole] at hf
          by_cases hik : i = k
          · subst hik
            obtain ⟨ht, hfree⟩ := hf hstate mem_cons_self
            obtain ⟨held, hplace⟩ := file_place { v with queue := rest } i
            have hplace : ({ v with queue := rest }.place i).file i = (v.file i).place i held :=
              hplace
            have hplaced : Happens i taken drops u ({ v with queue := rest }.place i) := by
              refine hrest.befalls ?_
              rw [hplace]
              exact .place ht hfree hwhole held
            refine ih (by rw [place_tree]; exact hi) _ hplaced fun hq _ => ⟨ht, ?_⟩
            -- it is queued still only if it had nothing to place
            have hnone : (v.file i).item.temp = none := by
              by_contra htemp
              rw [FileView.place, if_neg htemp] at hplace
              have hverifying : (({ v with queue := rest }.place i).items i).state = .verifying :=
                congrArg (fun w : FileView => w.item.state) hplace
              simp [hverifying] at hq
            rw [hplace, FileView.place, if_pos hnone]
            exact hfree
          · have hfile : ({ v with queue := rest }.place k).file i = v.file i :=
              file_place_ne hik
            refine ih (by rw [place_tree]; exact hi) _ (hrest.place hik) fun hq hmem => ?_
            rw [hfile]
            have hitem : ({ v with queue := rest }.place k).items i = v.items i :=
              congrArg FileView.item hfile
            exact hf (hitem ▸ hq) (mem_cons_of_mem _ hmem)
        · next hwhole =>
          rw [if_neg hwhole] at hf
          by_cases hik : i = k
          · subst hik
            obtain ⟨ht, hfree⟩ := hf hstate mem_cons_self
            obtain ⟨held, hview⟩ := file_admitFile { v with queue := rest } i
            have hadmitted : Happens i taken drops u ({ v with queue := rest }.admitFile i) := by
              refine hrest.befalls ?_
              rw [hview]
              exact .admits ht hfree hstate (by simpa using hwhole) held
            refine ih (by rw [admitFile_tree]; exact hi) _ hadmitted fun hq _ => ?_
            have hsending : (({ v with queue := rest }.admitFile i).items i).state = .sending :=
              congrArg (fun w : FileView => w.item.state) hview
            simp [hsending] at hq
          · have hfile : ({ v with queue := rest }.admitFile k).file i = v.file i :=
              file_admitFile_ne hik
            refine ih (by rw [admitFile_tree]; exact hi) _ (hrest.same hfile)
              fun hq hmem => ?_
            rw [hfile]
            have hitem : ({ v with queue := rest }.admitFile k).items i = v.items i :=
              congrArg FileView.item hfile
            exact hf (hitem ▸ hq) (mem_cons_of_mem _ hmem)

section

variable (h : Happens i taken drops u v)
include h

theorem foldersLoop : Happens i taken drops u v.foldersLoop :=
  h.same file_foldersLoop

theorem createFolders : Happens i taken drops u v.createFolders :=
  h.same file_createFolders

/-! ### What is done for folders -/

theorem foldersFailed (interruption : Bool) :
    Happens i taken drops u (v.foldersFailed interruption) := by
  have hloop : Happens i taken drops u (v.folderQueue.foldl
      (fun w k =>
        if (w.items k).state ≠ .queued then w
        else if interruption then w.interrupt k
        else Upload.failSubtree w.tree.size w k) { v with folderQueue := [] }) := by
    refine foldl (h.same rfl) fun w hw k _ => ?_
    split
    · exact hw
    next hq =>
      have hq : (w.items k).state = .queued := not_not.mp hq
      split
      · exact hw.interrupt (.inr (.inl hq))
      · exact hw.failSubtree _ fun _ => .inl hq
  cases interruption with
  | false => exact hloop.same rfl
  | true => exact hloop.interruptAll.same rfl

theorem folderPlaced (hi : i ≠ j) (path : HostPath) (outcome : Outcome) :
    Happens i taken drops u (v.folderPlaced j path outcome) :=
  ((h.edit hi _).setState hi .placed).same (file_enqueueQueued _)

theorem folderClash (hi : v.tree.kind i = .file) (hij : i ≠ j)
    (hsafe : v.onConflict = .skip → i ∈ walk v.tree v.tree.size j → Safe i taken v)
    (existing : Option FileEntry) : Happens i taken drops u (v.folderClash j existing) := by
  have hfile : (v.edit j fun item => { item with existing, typeClash := true, late := true }).file
      i = v.file i :=
    file_edit_ne hij
  have hfound := h.same hfile
  unfold Upload.folderClash
  dsimp only
  split
  · next hpolicy =>
    refine (hfound.skip _ hi (fun hji => absurd hji.symm hij) fun hmem => ?_).1
    exact (hsafe hpolicy hmem).of_file_eq hfile
  · exact (hfound.edit hij fun item => { item with resolution := some .keepBoth }).same rfl
  · exact hfound.setState hij .conflict
  · exact hfound.setState hij .conflict

theorem folderResult (hi : v.tree.kind i = .file) (hij : i ≠ j)
    (path : HostPath) {result : FolderResult}
    (hsafe : v.onConflict = .skip → (∃ existing, result = .clash existing) →
      i ∈ walk v.tree v.tree.size j → Safe i taken v) :
    Happens i taken drops u (v.folderResult j path result) := by
  unfold Upload.folderResult
  split
  · cases result with
    | created => exact h.folderPlaced hij path .created
    | merged => exact h.folderPlaced hij path .merged
    | clash existing =>
      exact h.folderClash hi hij (fun hpolicy => hsafe hpolicy ⟨existing, rfl⟩) existing
    | failed => exact h.failSubtree _ fun heq => absurd heq hij
  · exact h

theorem keepBothFolders (rest : List ℕ) : Happens i taken drops u (v.keepBothFolders rest) := by
  induction rest with
  | nil => exact h.foldersLoop
  | cons k rest ih =>
    unfold Upload.keepBothFolders
    split
    · exact h.call (by simp [Task.file])
    · exact ih

theorem keepBothAnswered (hij : i ≠ j) (n : ℕ) (path : HostPath)
    (rest : List ℕ) (result : FolderResult) :
    Happens i taken drops u (v.keepBothAnswered j n path rest result) := by
  have hfailed :
      Happens i taken drops u ((Upload.failSubtree v.tree.size v j).keepBothFolders rest) :=
    (h.failSubtree _ fun heq => absurd heq hij).keepBothFolders rest
  have hnext : Happens i taken drops u (if n < keepBothTries then v.keepBothFolder j (n + 1) rest
      else (Upload.failSubtree v.tree.size v j).keepBothFolders rest) := by
    split
    · exact h.call nofun
    · exact hfailed
  cases result with
  | created => exact ((h.edit hij _).folderPlaced hij path .keptBoth).keepBothFolders rest
  | failed => exact hfailed
  | merged | clash => exact hnext

end

end Happens

theorem Safe.folderResult {u : Upload} {i j : ℕ} {taken : Prop} (h : Safe i taken u)
    (hi : u.tree.kind i = .file) (hij : i ≠ j) (path : HostPath) (result : FolderResult) :
    Safe i taken (u.folderResult j path result) := by
  have hplaced : ∀ outcome, Safe i taken (u.folderPlaced j path outcome) := fun outcome =>
    h.of_file_eq ((file_enqueueQueued _).trans ((file_setState_ne hij).trans (file_edit_ne hij)))
  unfold Upload.folderResult
  split
  · cases result with
    | created => exact hplaced .created
    | merged => exact hplaced .merged
    | failed => exact h.failSubtree _ fun heq => absurd heq hij
    | clash existing =>
      let found := u.edit j fun item => { item with existing, typeClash := true, late := true }
      have hfound : Safe i taken found := h.of_file_eq (file_edit_ne hij)
      have hstays : Happens i taken False found found := .refl _
      unfold folderClash
      dsimp only
      split
      · exact hfound.skip _ (hstays.skip _ hi (fun hji => absurd hji.symm hij) fun _ => hfound).2
      · exact hfound.of_file_eq
          (file_edit_ne (f := fun item => { item with resolution := some .keepBoth }) hij)
      · exact hfound.of_file_eq (file_setState_ne hij)
      · exact hfound.of_file_eq (file_setState_ne hij)
  · exact h

private theorem mem_zip_of_mem_zip_zip {α β γ : Type*} {a : α} {b : β} {c : γ} {l : List α}
    {m : List β} {n : List γ} (h : (a, b, c) ∈ l.zip (m.zip n)) : (a, c) ∈ l.zip n := by
  induction l generalizing m n with
  | nil => cases h
  | cons x l ih =>
    cases m with
    | nil => cases h
    | cons y m =>
      cases n with
      | nil => cases h
      | cons z n =>
        simp only [zip_cons_cons, mem_cons, Prod.mk.injEq] at h ⊢
        exact h.imp (fun h => ⟨h.1, h.2.2⟩) ih

theorem enqueue_onConflict (u : Upload) (i : ℕ) : (u.enqueue i).onConflict = u.onConflict := by
  obtain ⟨_, _, _, h⟩ := enqueue_shape u i
  rw [h]

theorem setState_onConflict (u : Upload) (i : ℕ) (state : ItemState) :
    (u.setState i state).onConflict = u.onConflict := by
  obtain ⟨_, _, _, h⟩ := setState_shape u i state
  rw [h]
  rfl

theorem enqueueQueued_onConflict (u : Upload) (ids : List ℕ) :
    (u.enqueueQueued ids).onConflict = u.onConflict := by
  obtain ⟨_, _, _, h⟩ := enqueueQueued_shape u ids
  rw [h]

/-- No turn of a loop changes the policy. -/
theorem Turn.onConflict {u v : Upload} (h : Turn u v) : v.onConflict = u.onConflict := by
  cases h with
  | move hm =>
    cases hm with
    | stop i state => exact setState_onConflict u i state
    | restart i =>
      obtain ⟨_, _, h⟩ := addAcked_shape u i (-(u.items i).acked)
      rw [h]
      rfl
    | enqueue i => exact enqueue_onConflict u i
    | queueAgain i => exact (enqueue_onConflict _ i).trans (setState_onConflict u i .queued)
    | rebuild => exact enqueueQueued_onConflict _ _
    | _ => rfl
  | placeFolder i => exact (enqueueQueued_onConflict _ _).trans (setState_onConflict _ i .placed)
  | failEnded i => exact setState_onConflict u i .failed
  | queueEnded i => exact (enqueue_onConflict _ i).trans (setState_onConflict u i .queued)
  | _ => rfl

theorem Turns.onConflict {u v : Upload} (h : Turns u v) : v.onConflict = u.onConflict := by
  induction h with
  | refl => rfl
  | tail _ ht ih => exact ht.onConflict.trans ih

namespace Happens

variable {v w : Upload} {i : ℕ} {taken drops : Prop}

theorem foldersMade (hi : v.tree.kind i = .file) (hb : Between v v) {batch plain : List ℕ}
    (hbatch : ∀ k ∈ batch, v.tree.IsDir k) (hplain : plain ⊆ batch) (paths : List HostPath)
    (results : List FolderResult)
    (hf : i ∈ v.clashTakes plain results → taken ∧ (v.file i).Free) :
    Happens i taken drops v (v.foldersMade batch plain paths results) := by
  have hsafe : v.onConflict = .skip → ∀ made ∈ plain.zip (paths.zip results),
      (∃ existing, made.2.2 = .clash existing) →
        i ∈ walk v.tree v.tree.size made.1 → Safe i taken v := by
    rintro hpolicy ⟨k, path, result⟩ hmade ⟨existing, rfl⟩ hwalk
    by_cases hend : (v.items i).ended
    · exact .inl hend
    · refine .inr (hf ?_)
      unfold clashTakes
      rw [if_pos hpolicy]
      refine mem_flatMap.mpr ⟨(k, .clash existing), ?_, ?_⟩
      · exact mem_filter.mpr ⟨mem_zip_of_mem_zip_zip hmade, rfl⟩
      · exact mem_filter.mpr ⟨hwalk, by simpa using hend⟩
  refine keepBothFolders (foldlRecOn (motive := fun w : Upload => Between v w ∧
    Happens i taken drops v w ∧ (Safe i taken v → Safe i taken w)) _ _ ⟨hb, refl v, id⟩ ?_).2.1 _
  rintro w ⟨hwb, hw, hwsafe⟩ ⟨k, path, result⟩ hmade
  have hdir : v.tree.IsDir k := hbatch _ (hplain (of_mem_zip hmade).1)
  have hik : i ≠ k := by
    rintro rfl
    rw [hdir.2] at hi
    cases hi
  have hpolicy : w.onConflict = v.onConflict := hwb.turns.onConflict
  have hkind : w.tree.kind i = .file := by
    rw [hwb.tree]
    exact hi
  have hwclash : w.onConflict = .skip → (∃ existing, result = .clash existing) →
      i ∈ walk w.tree w.tree.size k → Safe i taken w := by
    intro hskip hclash hwalk
    rw [hwb.tree] at hwalk
    exact hwsafe (hsafe (hpolicy ▸ hskip) _ hmade hclash hwalk)
  exact ⟨hwb.folderResult hdir path result, hw.folderResult hkind hik path hwclash,
    fun hs => (hwsafe hs).folderResult hkind hik path result⟩

end Happens

/-! ### What is done when an upload is taken up -/

theorem not_resumable_of_ended {item : Item} (h : item.ended) : item.resumable = false := by
  unfold Item.resumable
  rcases h with h | h <;> simp [h]

theorem FileView.Free.resumable {v : FileView} (h : v.Free) : v.item.resumable = true := by
  obtain ⟨-, hsending, hverifying, hend⟩ := h
  unfold Item.ended at hend
  unfold Item.resumable
  cases hstate : v.item.state <;> simp_all

namespace Upload

variable {u : Upload} {i : ℕ}

theorem mem_keptFiles : i ∈ u.keptFiles ↔
    u.tree.IsFile i ∧ (u.items i).temp ≠ none ∧ (u.items i).resumable = true := by
  unfold keptFiles UploadTree.IsFile
  simp only [mem_filter, mem_range, decide_eq_true_eq]
  tauto

theorem foldl_changedFile_tree (files : List ResumeFile) :
    (files.foldl changedFile u).tree = u.tree :=
  foldlRecOn (motive := fun w : Upload => w.tree = u.tree) files _ rfl fun w hw f _ =>
    (changedFile_tree w f).trans hw

theorem mem_keptFiles_foldl_changedFile (files : List ResumeFile) :
    i ∈ (files.foldl changedFile u).keptFiles ↔
      i ∈ u.keptFiles ∧ i ∉ files.map ResumeFile.file := by
  induction files generalizing u with
  | nil => simp
  | cons f files ih =>
    have hone : i ∈ (u.changedFile f).keptFiles ↔ i ∈ u.keptFiles ∧ i ≠ f.file := by
      rw [mem_keptFiles, mem_keptFiles, changedFile_tree]
      by_cases hif : i = f.file
      · subst hif
        refine iff_of_false ?_ fun h => h.2 rfl
        rintro ⟨hfile, htemp, hres⟩
        have hnone : ∀ v : FileView, (u.changedFile f).file f.file = v → v.item.temp ≠ none := by
          rintro v rfl
          exact htemp
        obtain ⟨hstays, heq⟩ | ⟨-, ⟨connected, heq⟩ | ⟨size, mtime, heq⟩⟩ :=
          file_changedFile_self u f hfile.1 hfile.2
        · rw [heq, hstays] at hres
          exact Bool.false_ne_true hres
        · exact hnone _ heq (FileView.skip_item _ _ connected).2
        · exact hnone _ heq (FileView.restarted_item _ _ size mtime).2.1
      · have hitem : (u.changedFile f).items i = u.items i :=
          congrArg FileView.item (file_changedFile_ne hif)
        rw [hitem]
        simp [hif]
    rw [foldl_cons, ih, hone, map_cons, mem_cons, not_or, and_assoc]

theorem keptFiles_foldl_changedFile (files : List ResumeFile) :
    (files.foldl changedFile u).keptFiles =
      u.keptFiles.filter fun i => i ∉ u.changedTakes files := by
  have hmem : ∀ i, i ∈ (files.foldl changedFile u).keptFiles ↔
      i ∈ u.keptFiles.filter fun i => i ∉ u.changedTakes files := by
    intro i
    rw [mem_keptFiles_foldl_changedFile, mem_filter, changedTakes]
    simp only [mem_filter, decide_eq_true_eq]
    refine and_congr_right fun hkept => ?_
    simp [(mem_keptFiles.mp hkept).2.2]
  have hrange : ∀ p q : ℕ → Bool, (∀ i, i ∈ (range u.tree.size).filter p ↔
      i ∈ (range u.tree.size).filter q) →
      (range u.tree.size).filter p = (range u.tree.size).filter q := by
    intro p q hpq
    refine filter_congr fun i hi => ?_
    have hi' := hpq i
    simp only [mem_filter, hi, true_and] at hi'
    exact Bool.eq_iff_iff.mpr hi'
  have hafter : (files.foldl changedFile u).keptFiles = (range u.tree.size).filter fun i =>
      (files.foldl changedFile u).tree.kind i = .file ∧
        ((files.foldl changedFile u).items i).temp ≠ none ∧
        ((files.foldl changedFile u).items i).resumable := by
    unfold keptFiles
    rw [foldl_changedFile_tree]
  rw [hafter] at hmem ⊢
  unfold keptFiles at hmem ⊢
  rw [filter_filter] at hmem ⊢
  exact hrange _ _ hmem

end Upload

namespace Happens

variable {u v w : Upload} {i : ℕ} {taken drops : Prop}

theorem changedFile {f : ResumeFile} (h : Happens i taken drops u v) (hi : v.tree.IsFile i)
    (hf : f.file = i → (v.items i).resumable = true → taken ∧ (v.file i).Free) :
    Happens i taken drops u (v.changedFile f) ∧
      ((v.changedFile f).file i = v.file i ∨
        f.file = i ∧ (v.items i).resumable = true ∧ Safe i taken (v.changedFile f)) := by
  by_cases hif : f.file = i
  · subst hif
    obtain ⟨-, heq⟩ | ⟨hres, hview⟩ := file_changedFile_self v f hi.1 hi.2
    · rw [heq]
      exact ⟨h, .inl rfl⟩
    · obtain ⟨ht, hfree⟩ := hf rfl hres
      obtain ⟨connected, heq⟩ | ⟨size, mtime, heq⟩ := hview
      · refine ⟨h.befalls (heq ▸ .skip ht hfree connected), .inr ⟨rfl, hres, .inl (.inr ?_)⟩⟩
        exact (congrArg (fun v : FileView => v.item.state) heq).trans
          (FileView.skip_item _ _ connected).1
      · refine ⟨h.befalls (heq ▸ .restart ht hfree hres size mtime),
          .inr ⟨rfl, hres, .inr ⟨ht, ?_⟩⟩⟩
        obtain ⟨hstate, -, hphases⟩ := FileView.restarted_item (v.file f.file) f.file size mtime
        rw [heq]
        unfold FileView.Free Item.ended
        rw [hphases, hstate]
        exact hfree
  · have hfile : (v.changedFile f).file i = v.file i :=
      file_changedFile_ne fun heq => hif heq.symm
    exact ⟨h.same hfile, .inl hfile⟩

theorem changedFiles (hi : v.tree.IsFile i) (files : List ResumeFile)
    (hf : i ∈ v.changedTakes files → taken ∧ (v.file i).Free) :
    Happens i taken drops v (files.foldl Upload.changedFile v) ∧
      ((files.foldl Upload.changedFile v).file i = v.file i ∨
        Safe i taken (files.foldl Upload.changedFile v)) := by
  refine (foldlRecOn (motive := fun w : Upload => w.tree = v.tree ∧ Happens i taken drops v w ∧
    (w.file i = v.file i ∨ Safe i taken w)) files _ ⟨rfl, refl v, .inl rfl⟩ ?_).2
  rintro w ⟨htree, hw, hfile⟩ f hmem
  have htakes : f.file = i → (w.items i).resumable = true → taken ∧ (w.file i).Free := by
    intro hfi hres
    obtain hsame | hend | hfree := hfile
    · have hitem : w.items i = v.items i := congrArg FileView.item hsame
      rw [hsame]
      refine hf (mem_filter.mpr ⟨mem_map.mpr ⟨f, hmem, hfi⟩, ?_⟩)
      rw [← hitem]
      exact hres
    · rw [not_resumable_of_ended hend] at hres
      exact absurd hres Bool.false_ne_true
    · exact hfree
  obtain ⟨hstep, hstepFile⟩ := hw.changedFile (f := f) (htree ▸ hi) htakes
  refine ⟨(changedFile_tree w f).trans htree, hstep, ?_⟩
  obtain hsame | ⟨-, -, hsafe⟩ := hstepFile
  · exact hfile.imp hsame.trans fun hs => hs.of_file_eq hsame
  · exact .inr hsafe

theorem looks {key : ℕ} {kept : List ℕ} (h : Happens i taken drops u v) (hnodup : kept.Nodup)
    (hf : i ∈ kept → taken ∧ (v.file i).Free ∧ (v.items i).resumable = true) :
    Happens i taken drops u (kept.foldl
      (fun u i =>
        match (u.items i).temp with
        | none => u
        | some temp => u.call (.lookStat key i temp)) v) := by
  induction kept generalizing v with
  | nil => exact h
  | cons k kept ih =>
    obtain ⟨hk, hrest⟩ := nodup_cons.mp hnodup
    rw [foldl_cons]
    by_cases hik : i = k
    · subst hik
      obtain ⟨ht, hfree, hres⟩ := hf mem_cons_self
      refine ih ?_ hrest fun hmem => absurd hmem hk
      cases htemp : (v.items i).temp with
      | none => exact h
      | some temp =>
        refine h.befalls ?_
        rw [file_call_self rfl]
        exact .look ht hfree hres key temp htemp
    · have hfile : (match (v.items k).temp with
          | none => v
          | some temp => v.call (.lookStat key k temp) : Upload).file i = v.file i := by
        split
        · rfl
        · exact file_call_ne (by simpa [Task.file] using Ne.symm hik)
      refine ih (h.same hfile) hrest fun hmem => ?_
      have hitem := congrArg FileView.item hfile
      rw [file_item, file_item] at hitem
      rw [hfile, hitem]
      exact hf (mem_cons_of_mem _ hmem)

theorem takeUpReached (hi : v.tree.IsFile i) (requester : String) (files : List ResumeFile)
    (hf : i ∈ v.takeUpTakes files → taken ∧ (v.file i).Free) :
    Happens i taken drops v (v.takeUpReached requester files) := by
  obtain ⟨hchanged, hfile⟩ := changedFiles hi files fun hmem =>
    hf (mem_append_left _ hmem)
  unfold Upload.takeUpReached
  dsimp only
  split
  · exact hchanged.await nofun
  · refine looks (v := { files.foldl Upload.changedFile v with
      nextKey := _, lookUps := _ }) (hchanged.number.same rfl)
      ((nodup_range.filter _).take) fun hmem => ?_
    change i ∈ (files.foldl Upload.changedFile v).keptFiles.take hostWorkConcurrency at hmem
    have hkept := mem_keptFiles.mp (mem_of_mem_take hmem)
    have hfree : taken ∧ ((files.foldl Upload.changedFile v).file i).Free := by
      obtain hsame | hend | hfree := hfile
      · rw [hsame]
        refine hf (mem_append_right _ ?_)
        rw [keptFiles_foldl_changedFile] at hmem
        exact hmem
      · rw [not_resumable_of_ended hend] at hkept
        exact absurd hkept.2.2 Bool.false_ne_true
      · exact hfree
    exact ⟨hfree.1, hfree.2, hkept.2.2⟩

section

variable (h : Happens i taken drops u v)
include h

theorem lookNext (key : ℕ) (l : LookUp) {todo : List ℕ}
    (hf : todo.find? (fun k => (v.items k).temp ≠ none) = some i → taken ∧ (v.file i).Free) :
    Happens i taken drops u (v.lookNext key l todo) := by
  induction todo with
  | nil =>
    unfold Upload.lookNext
    split
    · split
      · exact h.same rfl
      · exact h.same (file_await_ne (by simp [Task.file]))
    · exact h.same rfl
  | cons k todo ih =>
    unfold Upload.lookNext
    cases htemp : (v.items k).temp with
    | none =>
      refine ih fun hfind => hf ?_
      rw [find?_cons_of_neg (by simp [htemp])]
      exact hfind
    | some temp =>
      rw [find?_cons_of_pos (by simp [htemp])] at hf
      by_cases hik : i = k
      · subst hik
        obtain ⟨ht, hfree⟩ := hf rfl
        refine h.befalls ?_
        rw [file_call_self rfl]
        exact .look ht hfree hfree.resumable key temp htemp
      · exact h.same (file_call_ne (by simpa [Task.file] using Ne.symm hik))

theorem lookDone (key : ℕ) (hf : ∀ l, v.lookUps key = some l →
      l.todo.find? (fun k => (v.items k).temp ≠ none) = some i → taken ∧ (v.file i).Free) :
    Happens i taken drops u (v.lookDone key) := by
  unfold Upload.lookDone
  split
  · exact h
  · next l hl => exact h.lookNext key l (hf l hl)

theorem lookThrew (key : ℕ) (interruption : Bool) :
    Happens i taken drops u (v.lookThrew key interruption) :=
  h.same (file_lookThrew key interruption)

theorem takeUpFailed (interruption : Bool) :
    Happens i taken drops u (v.takeUpFailed interruption) := by
  unfold Upload.takeUpFailed
  split
  · exact interruptAll (h.same rfl)
  · exact h.same rfl

end

theorem takenUp (hi : v.tree.IsFile i) (requester : String)
    (hf : v.dropped = false → i ∈ v.toQueueAgain → taken ∧ (v.file i).Free) :
    Happens i taken drops v (v.takenUp requester) := by
  unfold Upload.takenUp
  dsimp only
  split
  · exact (refl v).same rfl
  · next hd =>
    have hagain : i ∈ v.toQueueAgain → taken ∧ (v.file i).Free := hf (by simpa using hd)
    have hsource :
        Happens i taken drops v { v with busy := v.busy - 1, source := some requester } :=
      (refl v).same rfl
    exact hsource.trans (requeueAll (v := { v with busy := v.busy - 1, source := some requester })
      hi hagain)

end Happens

end Lasterm.Transfer.Uploads
