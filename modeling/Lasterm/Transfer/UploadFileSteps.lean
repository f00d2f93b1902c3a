import Lasterm.Transfer.UploadEvents

/-!
# The steps of one file

Every step of an upload (`UploadRun`), seen from one of its files.  What holds of every file of an
upload throughout its runs is then shown event by event, with no other file or folder in sight.

## Main results

* `file_next` — a calm step is what comes from elsewhere, or the answer to something waited for.
-/

namespace Lasterm.Transfer.Uploads

open Transition Relation Upload Option List

/-- What the step takes up has not ended, and nothing is under way for the files of it. -/
def Calm (u : Upload) (step : Step) : Prop :=
  ∀ i ∈ step.takesUp u, ¬(u.items i).ended ∧ (u.tree.kind i = .file → (u.file i).Free)

instance (u : Upload) (step : Step) : Decidable (Calm u step) :=
  inferInstanceAs (Decidable (∀ _ ∈ _, ¬_ ∧ (_ → _)))

variable {held : Option Backend}

namespace Happens

variable {u v w : Upload} {i : ℕ} {taken drops : Prop} {random : String} {t : Task} {a : Answer}

/-! ### Answers to what is not waited for on its behalf -/

theorem reached {b : Backend} (h : Happens i taken drops u v)
    (hw : Reached v held w b) : Happens i taken drops u w := by
  cases hw with
  | held | shared => exact h
  | new => exact h.number

theorem onBackend {threw : Bool → Upload} {go : Upload → Backend → Upload}
    (hthrew : ∀ k, a = .fault k → Happens i taken drops v (threw k))
    (hgo : (∀ k, a ≠ .fault k) → ∀ v' b, Reached v held v' b → Happens i taken drops v v' →
      Happens i taken drops v (go v' b))
    (hw : v.onBackend held threw go a = some w) : Happens i taken drops v w := by
  obtain ⟨k, hk, -, rfl⟩ | ⟨hk, v', b, hv, rfl⟩ := Moves.backend_cases hw
  · exact hthrew k hk
  · exact hgo hk v' b hv ((refl v).reached hv)

section

variable (h : Happens i taken drops u v)
include h

theorem lookSeen (key k : ℕ) (hf : i ∈ v.lookTakes key k → taken ∧ (v.file i).Free) :
    Happens i taken drops u (v.lookDone key) := by
  refine h.lookDone key fun l hl hfind => hf ?_
  unfold lookTakes
  rw [hl]
  exact mem_append_left _ (mem_toList.mpr hfind)

variable {k : ℕ}

theorem lookRestarts (hk : i ≠ k) (key : ℕ) (hf : i ∈ v.lookTakes key k → taken ∧ (v.file i).Free) :
    Happens i taken drops u ((v.restartFile k).lookDone key) := by
  have hlookUps : (v.restartFile k).lookUps = v.lookUps := by
    obtain ⟨_, _, hshape⟩ := addAcked_shape v k (-(v.items k).acked)
    unfold Upload.restartFile
    rw [hshape]
    rfl
  have htemp : ∀ j, ((v.restartFile k).items j).temp ≠ none ↔ j ≠ k ∧ (v.items j).temp ≠ none := by
    intro j
    rw [restartFile_items]
    split
    · next hjk => simp [hjk]
    · next hjk => simp [hjk]
  refine (h.restartFile hk).lookDone key fun l hl hfind => ?_
  rw [file_restartFile_ne hk]
  refine hf ?_
  rw [hlookUps] at hl
  simp only [htemp] at hfind
  unfold lookTakes
  rw [hl]
  exact mem_append_right _ (mem_toList.mpr hfind)

theorem lookStale (hk : i ≠ k) (key : ℕ) (temp : HostPath)
    (isFile : Bool) (hf : i ∈ v.lookTakes key k → taken ∧ (v.file i).Free) :
    Happens i taken drops u (v.lookStale key k temp isFile) := by
  unfold Upload.lookStale
  split
  · exact h.call fun heq => hk (some.inj heq).symm
  · exact h.lookRestarts hk key hf

theorem lookedAt (hk : i ≠ k) (key : ℕ) (temp : HostPath)
    (there : Option Stat) (hf : i ∈ v.lookTakes key k → taken ∧ (v.file i).Free) :
    Happens i taken drops u (v.lookedAt key k temp there) := by
  unfold Upload.lookedAt
  dsimp only
  split
  · split
    · exact h.lookSeen key k hf
    · exact h.lookStale hk key temp _ hf
  · split
    · split
      · exact h.lookSeen key k hf
      · exact h.call fun heq => hk (some.inj heq).symm
    · exact h.lookStale hk key temp _ hf

end

theorem answerFile (ht : t.Names v.tree) (hsome : t.file ≠ none) (hfile : t.file ≠ some i)
    (hf : i ∈ (Step.answer t a random).takesUp v → taken ∧ (v.file i).Free)
    (hw : v.answer random t a = some w) : Happens i taken drops v w := by
  have hne : ∀ {k : ℕ}, t.file = some k → i ≠ k := by
    rintro k hk rfl
    exact hfile hk
  unfold answer at hw
  split at hw
  · have hi' := hne rfl
    refine onBackend (fun k _ => ?_) (fun _ v' b _ hv' => hv'.openReached hi' random b) hw
    exact (refl v).await hfile
  · cases hw
    exact (refl v).openLooked (hne rfl) _ random
  · cases hw
    exact (refl v).openLooked (hne rfl) none random
  · cases hw
    exact (refl v).openGoOn (hne rfl) random
  · cases hw
    exact (refl v).await hfile
  · cases hw
    exact (refl v).call hfile
  · cases hw
    exact ((refl v).restartFile (hne rfl)).openGoOn (hne rfl) random
  · cases hw
    exact (refl v).openNew (hne rfl) _ random
  · cases hw
    exact (refl v).await hfile
  · cases hw
    exact (refl v).openedDirect (hne rfl) _ _
  · split at hw
    · cases hw
      exact ((refl v).conflictFound (hne rfl) ht.2 _).await hfile
    · cases hw
      exact (refl v).openDirect (hne rfl) _
  · cases hw
    exact (refl v).await hfile
  · cases hw
    exact (refl v).openedTemp (hne rfl)
  · split at hw
    · cases hw
      exact (refl v).await hfile
    · cases hw
      exact ((refl v).edit (hne rfl) _).call hfile
  · cases hw
    exact (refl v).await hfile
  · cases hw
    exact (refl v).openStopped (hne rfl)
  · cases hw
    exact (refl v).await hfile
  · split at hw
    · cases hw
      exact (refl v).finishFile (hne rfl)
    · cases hw
      exact refl v
  · split at hw
    · cases hw
      exact (refl v).fileFailed (hne rfl) _
    · cases hw
      exact refl v
  · cases hw
    exact (refl v).receiving (hne rfl) _ _
  · cases hw
    exact (refl v).written (hne rfl) _ _
  · cases hw
    exact (refl v).writeFailed (hne rfl) _
  · cases hw
    exact (refl v).stopped (hne rfl)
  · cases hw
    exact (refl v).finished (hne rfl) _
  · cases hw
    exact ((refl v).same (w := { v with busy := v.busy - 1 }) rfl).fileFailed (hne rfl) _
  · have hi' := hne rfl
    refine onBackend (fun k _ => ?_) (fun _ v' b _ hv' => hv'.placeReached hi') hw
    exact ((refl v).fileFailed hi' k).same rfl
  · exact (refl v).placeAnswered (hne rfl) ht.2 hw
  · split at hw
    · cases hw
      exact refl v
    · split at hw
      · cases hw
        exact refl v
      · cases hw
        exact (refl v).call hfile
  · cases hw
    exact refl v
  · cases hw
    exact refl v
  iterate 8 · exact absurd rfl hsome
  · cases hw
    exact (refl v).lookedAt (hne rfl) _ _ _ hf
  · split at hw
    · cases hw
      exact (refl v).lookThrew _ true
    · cases hw
      exact (refl v).lookedAt (hne rfl) _ _ none hf
  · cases hw
    exact (refl v).lookSeen _ _ hf
  · split at hw
    · cases hw
      exact (refl v).lookThrew _ true
    · cases hw
      exact (refl v).call hfile
  · cases hw
    exact (refl v).lookRestarts (hne rfl) _ hf
  · exact absurd rfl hsome
  · exact absurd rfl hsome
  · cases hw

theorem answerOther (hi : v.tree.IsFile i) (ht : t.Names v.tree) (hnone : t.file = none)
    (hfolders : t.isFolders → v.creatingFolders = true ∧ ∀ t' ∈ v.tasks, t'.isFolders = false)
    (hf : i ∈ (Step.answer t a random).takesUp v → taken ∧ (v.file i).Free)
    (hw : v.answer random t a = some w) : Happens i taken drops v w := by
  by_cases hfolder : t.isFolders = true
  · obtain ⟨hc, hn⟩ := hfolders hfolder
    cases FoldersGo.of_answer hfolder hw with
    | threw k => exact (refl v).foldersFailed k
    | reached hv => exact ((refl v).reached hv).call nofun
    | made => exact foldersMade hi.2 (.refl hc hn) ht.1 ht.2.1 _ _ hf
    | @keptBoth k n path rest result =>
      have hik : i ≠ k := by
        rintro rfl
        exact hi.not_isDir ht.1
      exact (refl v).keepBothAnswered hik n path rest result
  cases t with
  | foldersBackend | mkdirs | keepBothFolder => exact absurd rfl hfolder
  | retryConnect again =>
    cases a with
    | done =>
      cases hw
      exact requeueAll hi hf
    | fault k =>
      cases hw
      exact refl v
    | _ => cases hw
  | takeUpBackend requester files held =>
    rw [answer_takeUpBackend] at hw
    refine onBackend (fun k _ => (refl v).takeUpFailed k) (fun hk v' b hreached hv' => ?_) hw
    have htakes : i ∈ v.takeUpTakes files → taken ∧ (v.file i).Free := by
      cases a with
      | fault k => exact absurd rfl (hk k)
      | _ => exact hf
    refine hv'.trans (takeUpReached ?_ requester files ?_)
    · rw [hreached.moves.tree]
      exact hi
    · cases hreached with
      | held | shared | new => exact htakes
  | looked requester =>
    cases a with
    | done =>
      cases hw
      refine takenUp hi _ fun hd hmem => hf ?_
      change i ∈ if v.dropped then [] else v.toQueueAgain
      rw [hd]
      exact hmem
    | _ => cases hw
  | lookFailed k =>
    cases a with
    | done =>
      cases hw
      exact (refl v).takeUpFailed k
    | _ => cases hw
  | _ => cases hnone

theorem answer (hi : v.tree.IsFile i) (ht : t.Names v.tree) (hfile : t.file ≠ some i)
    (hfolders : t.isFolders → v.creatingFolders = true ∧ ∀ t' ∈ v.tasks, t'.isFolders = false)
    (hf : i ∈ (Step.answer t a random).takesUp v → taken ∧ (v.file i).Free)
    (hw : v.answer random t a = some w) : Happens i taken drops v w := by
  by_cases hnone : t.file = none
  · exact answerOther hi ht hnone hfolders hf hw
  · exact answerFile ht hnone hfile hf hw

end Happens

/-! ### Answers to what is waited for on its behalf -/

section Own

variable {u w : Upload} {i : ℕ} {random : String} {t : Task} {a : Answer}

theorem Upload.file_lookNext_of_find? (key : ℕ) (l : LookUp) {todo : List ℕ}
    (h : todo.find? (fun k => (u.items k).temp ≠ none) ≠ some i) :
    (u.lookNext key l todo).file i = u.file i := by
  induction todo with
  | nil =>
    unfold lookNext
    split
    · split
      · rfl
      · exact file_await_ne (by simp [Task.file])
    · rfl
  | cons k todo ih =>
    unfold lookNext
    cases htemp : (u.items k).temp with
    | none =>
      rw [find?_cons_of_neg (by simp [htemp])] at h
      exact ih h
    | some temp =>
      rw [find?_cons_of_pos (by simp [htemp])] at h
      exact file_call_ne h

variable {key : ℕ}

theorem Upload.file_lookDone_of_find?
    (h : ∀ l, u.lookUps key = some l → l.todo.find? (fun k => (u.items k).temp ≠ none) ≠ some i) :
    (u.lookDone key).file i = u.file i := by
  unfold lookDone
  split
  · rfl
  · next l hl => exact file_lookNext_of_find? key l (h l hl)

theorem Upload.file_lookDone (h : i ∉ u.lookTakes key i) : (u.lookDone key).file i = u.file i := by
  refine file_lookDone_of_find? fun l hl hfind => h ?_
  unfold lookTakes
  rw [hl]
  exact mem_append_left _ (mem_toList.mpr hfind)

theorem Upload.file_lookDone_restartFile :
    ((u.restartFile i).lookDone key).file i = (u.file i).restartFile := by
  rw [file_lookDone_of_find?, file_restartFile_self]
  intro l _ hfind
  have htemp := find?_some hfind
  rw [restartFile_items, if_pos rfl] at htemp
  exact absurd rfl (of_decide_eq_true htemp)

/-- Whatever the answer, the file is asked about with a number that is the upload's next. -/
def Answered (i : ℕ) (u : Upload) (t : Task) (a : Answer) (v : FileView) : Prop :=
  ∃ key, u.nextKey ≤ key ∧ Answers i { u.file i with key } t a v

theorem Answers.now {v : FileView} (h : Answers i (u.file i) t a v) : Answered i u t a v :=
  ⟨u.nextKey, le_rfl, h⟩

theorem Upload.Reached.file {b : Backend} (h : u.Reached held w b) :
    ∃ key, u.nextKey ≤ key ∧ w.file i = { u.file i with key } := by
  cases h with
  | held | shared => exact ⟨u.nextKey, le_rfl, rfl⟩
  | new => exact ⟨u.nextKey + 1, Nat.le_succ _, rfl⟩

theorem Answered.lookStale {temp : HostPath} (isFile : Bool)
    (ht : t.phase = some .looking) (hi : t.file = some i) :
    Answered i u t a ((u.lookStale key i temp isFile).file i) := by
  unfold Upload.lookStale
  split
  · rw [file_call_self rfl]
    exact (Answers.lookRemoves t a key temp ht hi).now
  · rw [file_lookDone_restartFile]
    exact (Answers.lookRestarts t a ht hi).now

theorem Answered.lookedAt {temp : HostPath} {there : Option Stat}
    (h : i ∉ u.lookTakes key i) (ha : a = .stat there ∨ there = none) :
    Answered i u (.lookStat key i temp) a ((u.lookedAt key i temp there).file i) := by
  have hseen : Answered i u (.lookStat key i temp) a ((u.lookDone key).file i) := by
    rw [file_lookDone h]
    exact (Answers.looked _ a rfl rfl).now
  unfold Upload.lookedAt
  dsimp only
  split
  · split
    · exact hseen
    · exact lookStale _ rfl rfl
  · split
    · next hacked =>
      split
      · exact hseen
      · next hsize =>
        obtain rfl | rfl := ha
        · rw [file_call_self rfl]
          refine (Answers.lookTruncates key temp there ?_).now
          rw [file_item]
          omega
        · simp only [sizeThere] at hacked
          omega
    · exact lookStale _ rfl rfl

/-- `place`, the host reached: it is tried under its name, or under the first that is kept beside
it. -/
theorem Upload.file_placeReached (u : Upload) (i : ℕ) : ∃ target how,
    (u.placeReached i).file i = (u.file i).call (.placing i (u.items i).temp target how) := by
  unfold placeReached
  split
  · exact ⟨_, _, file_call_self rfl⟩
  · unfold placeKeepBoth
    rw [if_neg (by decide)]
    exact ⟨_, _, file_call_self rfl⟩
  · exact ⟨_, _, file_call_self rfl⟩

theorem Answered.placeAnswered (hi : u.tree.IsFile i) {temp : Option HostPath} {target : HostPath}
    {how : Placing} (hw : u.placeAnswered i temp target how a = some w) :
    Answered i u (.placing i temp target how) a (w.file i) := by
  have hplaced : ∀ outcome, (a = .done ∨ how = .replace) → Answered i u
      (.placing i temp target how) a ((u.filePlaced i (some target) outcome).file i) := by
    intro outcome ha
    rw [file_filePlaced]
    exact (Answers.placed temp target how a outcome (u.file i).item.finalName ha).now
  unfold Upload.placeAnswered at hw
  split at hw
  · cases hw
    change Answered i u _ _ ((u.fileFailed i _).file i)
    rw [file_fileFailed]
    exact (Answers.placeThrew _ _ rfl rfl).now
  · cases hw
    exact hplaced _ (.inl rfl)
  · cases hw
    exact hplaced _ (.inr rfl)
  · next n =>
    cases hw
    let name := some (keepBothName (u.tree.name i) n .file)
    change Answered i u _ _ (((u.edit i fun item => { item with finalName := name }).filePlaced i
      (some target) .keptBoth).file i)
    rw [file_filePlaced, file_edit_self]
    exact (Answers.placed temp target _ .done .keptBoth name (.inl rfl)).now
  · cases hw
    unfold placeKeepBoth
    split
    · change Answered i u _ _ ((u.fileFailed i false).file i)
      rw [file_fileFailed]
      exact (Answers.placeNoName temp target _ _).now
    · rw [file_call_self rfl]
      exact (Answers.placeNextName temp target _ _ _).now
  · cases hw
    exact hplaced _ (.inl rfl)
  · next existing =>
    cases hw
    obtain ⟨held, connected, hview⟩ := file_conflictFound existing hi
    change Answered i u _ _ ((u.conflictFound i existing).file i)
    rw [hview]
    exact (Answers.placeConflict temp target existing _ held connected).now
  · cases hw

theorem Answered.answer (hi : u.tree.IsFile i) (hfile : t.file = some i)
    (hnot : i ∉ (Step.answer t a random).takesUp u) (hw : u.answer random t a = some w) :
    Answered i u t a (w.file i) := by
  unfold Upload.answer at hw
  split at hw
  · next k held =>
    cases hfile
    obtain ⟨k, rfl, -, rfl⟩ | ⟨hk, v', b, hv, rfl⟩ := Moves.backend_cases hw
    · rw [file_await_self rfl]
      exact (Answers.openThrew _ _ rfl rfl).now
    · obtain ⟨key, hkey, hv'⟩ := hv.file (i := i)
      obtain ⟨target, hview⟩ := v'.file_openReached (i := i) random b
      rw [hview, hv']
      exact ⟨key, hkey, .openReached held _ _ _ target random⟩
  · next o temp there =>
    cases hw
    cases hfile
    rw [file_openLooked]
    exact (Answers.openLooked o temp _ there _ random rfl (.inl rfl)).now
  · next o temp k =>
    cases hw
    cases hfile
    rw [file_openLooked]
    exact (Answers.openLooked o temp _ none _ random rfl (.inr ⟨⟨k, rfl⟩, rfl⟩)).now
  · next o temp size =>
    cases hw
    cases hfile
    rw [file_openGoOn]
    exact (Answers.openTruncated o temp size _ random rfl).now
  · next o temp size =>
    cases hw
    cases hfile
    rw [file_await_self rfl]
    exact (Answers.openThrew _ _ rfl rfl).now
  · next o temp size =>
    cases hw
    cases hfile
    rw [file_call_self rfl]
    exact (Answers.openNotTruncated o temp size rfl).now
  · next o temp =>
    cases hw
    cases hfile
    rw [file_openGoOn, file_restartFile_self]
    exact (Answers.openRemoved o temp _ random rfl).now
  · next o direct =>
    cases hw
    cases hfile
    cases direct with
    | false =>
      rw [file_openNew_temp]
      exact (Answers.openTemporary o _ random rfl).now
    | true =>
      obtain ⟨n, path, hview⟩ := file_openNew_direct (u := u) o random
      rw [hview]
      exact (Answers.openOwnName o _ n path rfl).now
  · next o k =>
    cases hw
    cases hfile
    rw [file_await_self rfl]
    exact (Answers.openThrew _ _ rfl rfl).now
  · next o n path =>
    cases hw
    cases hfile
    obtain ⟨name, hview⟩ := file_openedDirect (u := u) o n path
    rw [hview]
    exact (Answers.openedDirect o n path name rfl).now
  · next o n path existing =>
    cases hfile
    split at hw
    · cases hw
      obtain ⟨held, connected, hview⟩ := file_conflictFound existing hi
      rw [file_await_self rfl, hview]
      exact (Answers.openConflict o n path existing _ held connected rfl).now
    · cases hw
      obtain ⟨path', hview⟩ := file_openDirect (u := u) o (n + 1)
      rw [hview]
      exact (Answers.openNextName o n path path' existing rfl).now
  · next o n path k =>
    cases hw
    cases hfile
    rw [file_await_self rfl]
    exact (Answers.openThrew _ _ rfl rfl).now
  · next o temp resumeAt again =>
    cases hw
    cases hfile
    rw [file_openedTemp]
    exact (Answers.openedTemp o temp resumeAt again rfl).now
  · next o temp resumeAt again existing =>
    cases hfile
    split at hw
    · cases hw
      rw [file_await_self rfl]
      exact (Answers.openTempTaken o temp resumeAt again existing rfl).now
    · next hfirst =>
      cases hw
      obtain ⟨hagain, hacked⟩ := not_or.mp hfirst
      obtain rfl : again = false := by simpa using hagain
      rw [file_call_self rfl, file_edit_self]
      exact (Answers.openTempAgain o temp resumeAt existing random rfl (Int.not_lt.mp hacked)).now
  · next o temp resumeAt again k =>
    cases hw
    cases hfile
    rw [file_await_self rfl]
    exact (Answers.openThrew _ _ rfl rfl).now
  · next k s =>
    cases hw
    cases hfile
    rw [file_openStopped]
    exact (Answers.openStopped s u.connected).now
  · next k temp =>
    cases hw
    cases hfile
    rw [file_await_self rfl]
    exact (Answers.openStoppedRemoved temp).now
  · next k =>
    cases hfile
    split at hw
    · next hwhole =>
      cases hw
      rw [file_finishFile]
      exact (Answers.openedWhole hwhole.1 hwhole.2).now
    · cases hw
      exact Answers.opened.now
  · next k interruption =>
    cases hfile
    split at hw
    · next hsending =>
      cases hw
      rw [file_fileFailed]
      exact (Answers.openFailed interruption hsending).now
    · next hsending =>
      cases hw
      exact (Answers.openFailedStopped interruption hsending).now
  · next k offset data =>
    cases hw
    cases hfile
    rw [file_receiving]
    exact (Answers.receiving offset data).now
  · next k s offset data =>
    cases hw
    cases hfile
    rw [file_written]
    exact (Answers.written s offset data).now
  · next k s offset data interruption =>
    cases hw
    cases hfile
    rw [file_writeFailed]
    exact (Answers.writeFailed s offset data interruption).now
  · next k sink =>
    cases hw
    cases hfile
    rw [file_stopped]
    exact (Answers.stopped sink u.connected).now
  · next k s hash how =>
    cases hw
    cases hfile
    obtain ⟨how', held, hview⟩ := file_finished (u := u) (i := i) how
    rw [hview]
    exact (Answers.finished s hash how how' held).now
  · next k s hash interruption =>
    cases hw
    cases hfile
    rw [file_fileFailed]
    exact (Answers.placeThrew _ interruption rfl rfl).now
  · next k held =>
    cases hfile
    obtain ⟨interruption, rfl, -, rfl⟩ | ⟨hk, v', b, hv, rfl⟩ := Moves.backend_cases hw
    · change Answered i u _ _ ((u.fileFailed i interruption).file i)
      rw [file_fileFailed]
      exact (Answers.placeThrew _ interruption rfl rfl).now
    · obtain ⟨key, hkey, hv'⟩ := hv.file (i := i)
      obtain ⟨target, how, hview⟩ := v'.file_placeReached i
      rw [hview, hv', hv.items]
      exact ⟨key, hkey, .placeReached held _ target how⟩
  · next k temp target how =>
    cases hfile
    exact Answered.placeAnswered hi hw
  · next k sink temp =>
    cases hfile
    split at hw
    · cases hw
      exact (Answers.failedKeeps sink none).now
    · next p =>
      split at hw
      · cases hw
        exact (Answers.failedKeeps sink (some p)).now
      · cases hw
        rw [file_call_self rfl]
        exact (Answers.failedRemoves sink p).now
  · next k s =>
    cases hw
    cases hfile
    exact (Answers.aborted s).now
  · next k temp =>
    cases hw
    cases hfile
    exact (Answers.removed temp).now
  iterate 8 · exact nomatch hfile
  · next key k temp there =>
    cases hw
    cases hfile
    exact Answered.lookedAt hnot (.inl rfl)
  · next key k temp interruption =>
    cases hfile
    split at hw
    · cases hw
      rw [file_lookThrew]
      exact (Answers.looked _ _ rfl rfl).now
    · cases hw
      exact Answered.lookedAt hnot (.inr rfl)
  · next key k temp size =>
    cases hw
    cases hfile
    rw [file_lookDone hnot]
    exact (Answers.looked _ _ rfl rfl).now
  · next key k temp size interruption =>
    cases hfile
    split at hw
    · cases hw
      rw [file_lookThrew]
      exact (Answers.looked _ _ rfl rfl).now
    · cases hw
      rw [file_call_self rfl]
      exact (Answers.lookRemoves _ _ key temp rfl rfl).now
  · next key k temp =>
    cases hw
    cases hfile
    rw [file_lookDone_restartFile]
    exact (Answers.lookRestarts _ _ rfl rfl).now
  · cases hfile
  · cases hfile
  · cases hw

end Own

/-! ### From a window, a host, a timer -/

namespace Happens

variable {u v w : Upload} {i : ℕ} {taken drops : Prop}

theorem retry (hi : v.tree.IsFile i) (scope : Option ℕ) (isConnected : Bool)
    (hf : isConnected = true → i ∈ v.retryTakes scope → taken ∧ (v.file i).Free) :
    Happens i taken drops v (v.retry scope isConnected) := by
  unfold Upload.retry
  split
  · exact refl v
  · next ids hids =>
    dsimp only
    split
    · exact refl v
    · split
      · next hconnected =>
        refine requeueAll hi fun hmem => hf hconnected ?_
        unfold retryTakes
        rw [hids]
        exact hmem
      · exact (refl v).await nofun

theorem cancel (hi : v.tree.IsFile i) (scope : Option ℕ) :
    Happens i taken drops v (v.cancel scope) := by
  unfold Upload.cancel
  split
  · exact refl v
  · next ids hids =>
    refine (foldlRecOn
      (motive := fun w : Upload => Happens i taken drops v w ∧ w.tree = v.tree) ids _ ⟨refl v, rfl⟩ ?_).1
    rintro w ⟨hw, htree⟩ k hk
    split
    · next hs =>
      have hs' : (w.items k).state = .queued ∨ (w.items k).state = .conflict ∨
          (w.items k).state = .interrupted ∨ (w.items k).state = .sending := by
        tauto
      have hlt : k < w.tree.size := by
        rw [htree]
        exact lt_size_of_mem_scopedItems hids hk
      have hlive : ¬(w.items k).ended := by
        rintro (hend | hend) <;> simp [hend] at hs
      exact ⟨hw.stopItem _ (htree ▸ hi.2) hs',
        (Moves.tree (Moves.stopItem _ .refl hlt fun _ => hlive)).trans htree⟩
    · exact ⟨hw, htree⟩

section

variable (h : Happens i taken drops u v)
include h

theorem receive (requester : String) (k offset : ℕ) (data : List UInt8) :
    Happens i taken drops u (v.receive requester k offset data) := by
  unfold Upload.receive
  split
  · next hk =>
    by_cases hik : k = i
    · subst hik
      refine h.befalls ?_
      rw [file_await_self rfl]
      exact .receive offset data hk.2.2.2
    · exact h.await fun heq => hik (some.inj heq)
  · exact h

theorem clientGone (client : String) : Happens i taken drops u (v.clientGone client) := by
  unfold Upload.clientGone
  split
  · refine interruptThose (same (w := { v with source := none }) h rfl) fun state hs => ?_
    exact .inl (of_decide_eq_true hs)
  · exact h

theorem interruptOn : Happens i taken drops u v.interruptOn := by
  have hthose : Happens i taken drops u (v.interruptThose fun state =>
      state = .queued ∨ state = .sending ∨ state = .verifying) := by
    refine h.interruptThose fun state hs => ?_
    have hs := of_decide_eq_true hs
    tauto
  exact hthose.same rfl

theorem takeUp (requester : String) (files : List ResumeFile) :
    Happens i taken drops u (v.takeUp requester files) := by
  refine h.same (file_awaitBackend_ne (u := { v with linkDropped := false, busy := v.busy + 1 })
    (t := .takeUpBackend requester files) ?_)
  exact fun _ => nofun

theorem resumeDropped : Happens i taken drops u v.resumeDropped := by
  unfold Upload.resumeDropped
  split
  · exact h
  · next client hclient =>
    let lost := if v.backend.any Backend.lost then v.interruptAll else v
    have hlost : Happens i taken drops u lost := by
      unfold lost
      split
      · exact h.interruptAll
      · exact h
    change Happens i taken drops u (if lost.linkDropped then lost.takeUp client [] else lost)
    split
    · exact hlost.takeUp client []
    · exact hlost

end

theorem pump (hi : v.tree.kind i = .file) (room : ℕ) (mayWrite : Bool)
    (hf : i ∈ (Step.work (.pump room mayWrite)).takesUp v → taken ∧ (v.file i).Free) :
    Happens i taken drops v (v.pump room mayWrite) := by
  let made := if v.folderQueue ≠ [] ∧ v.creatingFolders = false then v.createFolders else v
  have hmade : Happens i taken drops v made ∧ made.tree = v.tree ∧ made.file i = v.file i := by
    unfold made
    split
    · exact ⟨(refl v).createFolders, createFolders_tree, file_createFolders⟩
    · exact ⟨refl v, rfl, rfl⟩
  obtain ⟨hhappens, htree, hfile⟩ := hmade
  change i ∈ (if made.source.isSome ∧ mayWrite then pumpTakes room made made.queue
    else []) → _ at hf
  change Happens i taken drops v (if made.source.isSome ∧ mayWrite then
    Upload.pumpFiles room made made.queue else made)
  split
  · next hmay =>
    rw [if_pos hmay] at hf
    refine hhappens.pumpFiles (htree ▸ hi) room made.queue fun _ hmem => ?_
    rw [hfile]
    exact hf hmem
  · exact hhappens

theorem flush (h : Happens i taken drops u v) (sayDone : Bool) :
    Happens i taken drops u (v.flush sayDone) := by
  refine h.same ?_
  unfold Upload.flush
  dsimp only
  split <;> split <;> rfl

theorem drop (h : Happens i taken drops u v) (hd : drops) : Happens i taken drops u v.drop := by
  have hitems : Happens i taken drops u ((range v.tree.size).foldl dropItem v) := by
    refine h.foldl fun w hw k _ => ?_
    by_cases hik : i = k
    · subst hik
      refine hw.befalls ?_
      rw [file_dropItem]
      exact .drop hd
    · exact hw.same (file_dropItem_ne hik)
  exact hitems.same rfl

theorem perform {op : Op} (hi : v.tree.IsFile i)
    (hf : i ∈ (Step.work op).takesUp v → taken ∧ (v.file i).Free)
    (hd : op = .drop → drops) (hw : v.perform op = some w) : Happens i taken drops v w := by
  cases op with
  | resolve scope action =>
    cases hw
    exact resolve hi scope action hf
  | retry scope isConnected =>
    cases hw
    exact retry hi scope isConnected fun hconnected => by
      subst hconnected
      exact hf
  | cancel scope =>
    cases hw
    exact cancel hi scope
  | join requester =>
    obtain ⟨-, ⟨rfl⟩⟩ := ite_none_right_eq_some.mp hw
    have hsource :
        Happens i taken drops v { v with source := some requester, linkDropped := false } :=
      (refl v).same rfl
    exact hsource.trans (requeueAll (v := { v with source := some requester, linkDropped := false })
      hi hf)
  | takeUp requester files =>
    cases hw
    exact (refl v).takeUp requester files
  | receive requester k offset data =>
    cases hw
    exact (refl v).receive requester k offset data
  | clientGone client =>
    cases hw
    exact (refl v).clientGone client
  | interruptOn =>
    cases hw
    exact (refl v).interruptOn
  | resumeDropped =>
    cases hw
    exact (refl v).resumeDropped
  | pump room mayWrite =>
    cases hw
    exact pump hi.2 room mayWrite hf
  | flush sayDone =>
    cases hw
    exact (refl v).flush sayDone
  | drop =>
    cases hw
    exact (refl v).drop (hd rfl)
  | forget =>
    obtain ⟨-, ⟨rfl⟩⟩ := ite_none_right_eq_some.mp hw
    exact (refl v).same rfl

end Happens

/-! ### Every step -/

section Steps

variable {s s' : Service} {step : Step} {i : ℕ} {t : Task} {a : Answer} {random : String}

theorem takesUp_erase (u : Upload) (tasks : List Task) :
    (Step.answer t a random).takesUp { u with tasks } = (Step.answer t a random).takesUp u := by
  cases t with
  | takeUpBackend | mkdirs | retryConnect => cases a <;> rfl
  | _ => rfl

variable {u : Upload}

theorem phase_of_takesUp (hfile : t.file = some i)
    (h : i ∈ (Step.answer t a random).takesUp u) : t.phase = some .looking := by
  cases t with
  | lookStat | lookTruncate | lookRemove => rfl
  | foldersBackend | mkdirs | keepBothFolder | retryConnect | takeUpBackend | looked | lookFailed =>
    cases hfile
  | _ => cases h

theorem file_erase (u : Upload) (ht : t.file ≠ some i) :
    { u with tasks := u.tasks.erase t }.file i = u.file i := by
  unfold file
  dsimp only
  rw [← erase_filter, erase_of_not_mem]
  simp [ht]

theorem file_erase_self (u : Upload) : { u with tasks := u.tasks.erase t }.file i =
    (u.file i).erase t u.nextKey := by
  unfold file FileView.erase
  rw [erase_filter]

/-- The step discards the upload. -/
def Step.drops : Step → Bool
  | .work .drop | .discard => true
  | _ => false

theorem Calm.not_mem_takesUp (h : Calm u (.answer t a random))
    (hi : u.tree.kind i = .file) (ht : t ∈ u.tasks) (hfile : t.file = some i) :
    i ∉ (Step.answer t a random).takesUp u := by
  intro hmem
  have hfree := ((h i hmem).2 hi).1
  have hphase : Phase.looking ∈ (u.file i).phases :=
    mem_filterMap.mpr ⟨t, by simp [file, ht, hfile], phase_of_takesUp hfile hmem⟩
  rw [hfree] at hphase
  cases hphase

theorem file_answer {u' : Upload} (hi : u.tree.IsFile i) (hcalm : Calm u (.answer t a random))
    (ht : t ∈ u.tasks) (hfile : t.file = some i)
    (hu : { u with tasks := u.tasks.erase t }.answer random t a = some u') :
    ∃ key, u.nextKey ≤ key ∧ Answers i ((u.file i).erase t key) t a (u'.file i) := by
  let erased := { u with tasks := u.tasks.erase t }
  have hnot : i ∉ (Step.answer t a random).takesUp erased := by
    rw [takesUp_erase]
    exact hcalm.not_mem_takesUp hi.2 ht hfile
  obtain ⟨key, hkey, hanswers⟩ := Answered.answer (u := erased) hi hfile hnot hu
  rw [file_erase_self] at hanswers
  exact ⟨key, hkey, hanswers⟩

/-- Seen from a file, a calm step is what comes from elsewhere, or the answer to something waited
for on the file's behalf. -/
theorem file_next (hk : s.upload.Kinded) (hi : s.upload.tree.IsFile i)
    (hcalm : Calm s.upload step) (hrestart : step ≠ .restart) (h : next s step = some s') :
    Happens i (i ∈ step.takesUp s.upload) (step.drops = true) s.upload s'.upload ∨
      ∃ t a random key, step = .answer t a random ∧ t ∈ s.upload.tasks ∧ t.file = some i ∧
        s.upload.nextKey ≤ key ∧
        Answers i ((s.upload.file i).erase t key) t a (s'.upload.file i) := by
  have hf : i ∈ step.takesUp s.upload → i ∈ step.takesUp s.upload ∧ (s.upload.file i).Free :=
    fun hmem => ⟨hmem, (hcalm i hmem).2 hi.2⟩
  cases Stepped.of_next h with
  | work op u _ hu => exact .inl (Happens.perform hi hf (fun h => by rw [h]; rfl) hu)
  | answer t a random u ht hu =>
    let erased := { s.upload with tasks := s.upload.tasks.erase t }
    have htakes : (Step.answer t a random).takesUp erased =
        (Step.answer t a random).takesUp s.upload :=
      takesUp_erase s.upload _
    by_cases hfile : t.file = some i
    · obtain ⟨key, hkey, hanswers⟩ := file_answer hi hcalm ht hfile hu
      exact .inr ⟨t, a, random, key, rfl, ht, hfile, hkey, hanswers⟩
    · refine .inl ?_
      have hfree : erased.file i = s.upload.file i := file_erase s.upload hfile
      have hsame : Happens i (i ∈ (Step.answer t a random).takesUp s.upload)
          ((Step.answer t a random).drops = true) s.upload erased :=
        (Happens.refl _).same hfree
      refine hsame.trans (Happens.answer (v := erased) hi (hk.tasks t ht) hfile
        (fun hfolders => hk.folders_erase ht hfolders) (fun hmem => ?_) hu)
      rw [hfree]
      exact hf (htakes ▸ hmem)
  | lost => exact .inl ((Happens.refl _).same rfl)
  | save => exact .inl (Happens.refl _)
  | discard => exact .inl ((Happens.refl _).drop rfl)
  | restart => exact absurd rfl hrestart

end Steps

end Lasterm.Transfer.Uploads
