import Lasterm.Transfer.UploadMoves

/-!
# The functions of the service are moves

Each function of the transfer service that works on an upload, up to its next await, shown
to be a sequence of `Move`s: first those that run without an await, then what follows each
await.  They are stated as continuations of the moves made so far, so that a function's moves
read as its text does.

## Main results

* `Moves.answer`, `Acts.answer`, `Turns.answer_cases`, `Changes.answer` — what follows an await.
* `Moves.perform`, `Performed.of_perform`, `Passes.pump_cases`, `Changes.perform` — what a window, a host
  or a timer begins.
* `kinded_of_run` — queues and tasks hold items of their kind, in every run.
-/

namespace Lasterm.Transfer.Uploads

open Transition Relation List Upload UploadTree Function Option

/-- What `backendOf` leaves: the connection it held or the one there is by now, or a new one. -/
inductive Upload.Reached (u : Upload) (held : Option Backend) : Upload → Backend → Prop
  | held (b : Backend) (h : held = some b) : Reached u held u b
  | shared (b : Backend) (h : held = none) (hb : u.backend = some b) : Reached u held u b
  | new (exec : Bool) (h : held = none) (hb : u.backend = none) :
      Reached u held
        { u with
          backend := some ⟨u.nextKey, exec, false⟩
          leases := u.leases ++ [u.nextKey]
          nextKey := u.nextKey + 1 } ⟨u.nextKey, exec, false⟩

namespace Upload.Reached

variable {u v : Upload} {held : Option Backend} {b : Backend}

theorem moves (h : u.Reached held v b) : Moves u v := by
  cases h with
  | held | shared => exact .refl
  | new exec _ hb => exact .single (.reach exec hb)

theorem items (h : u.Reached held v b) : v.items = u.items := by
  cases h <;> rfl

theorem tasks (h : u.Reached held v b) : v.tasks = u.tasks := by
  cases h <;> rfl

end Upload.Reached

variable {s : Upload × List ℕ}

namespace Upload

variable {u : Upload} {i j : ℕ} {state : ItemState}

@[simp] theorem awaitBackend_items {t : Option Backend → Task} :
    (u.awaitBackend t).items = u.items := by
  unfold awaitBackend backendOf
  split
  · split <;> rfl
  · rfl

theorem interrupt_items : (u.interrupt i).items j =
    if j = i then { u.items i with sink := none, state := .interrupted } else u.items j := by
  have hitems : ((u.edit i fun item => { item with sink := none }).setState i .interrupted).items j =
      if j = i then { u.items i with sink := none, state := .interrupted } else u.items j := by
    rw [setState_items]
    split
    · rw [edit_items, if_pos rfl]
    · next hj => rw [edit_items, if_neg hj]
  unfold interrupt
  dsimp only
  split
  · exact hitems
  · split <;> exact hitems

theorem requeue_state (hs : state ≠ .queued ∧ state ≠ .verifying)
    (h : ((u.requeue i).items j).state = state) : (u.items j).state = state := by
  have hset : ∀ state', state ≠ state' → ((u.setState i state').items j).state = state →
      (u.items j).state = state := by
    intro state' hne hstate
    rw [setState_items] at hstate
    split at hstate
    · exact absurd hstate.symm hne
    · exact hstate
  unfold requeue place queueAgain at h
  split at h
  · split at h
    · exact h
    · rw [awaitBackend_items] at h
      exact hset .verifying hs.2 h
  · rw [enqueue_items] at h
    exact hset .queued hs.1 h

theorem requeueAbove_state {folders requeued : List ℕ} (hs : state ≠ .queued ∧ state ≠ .verifying)
    (h : (((u.requeueAbove requeued folders).1).items j).state = state) :
    (u.items j).state = state := by
  refine foldlRecOn (motive := fun s : Upload × List ℕ =>
    (s.1.items j).state = state → (u.items j).state = state) _ _ id ?_ h
  intro s ih p _ hstate
  split at hstate
  · exact ih (requeue_state hs hstate)
  · exact ih hstate

theorem requeueOne_state (hs : state ≠ .queued ∧ state ≠ .verifying)
    (h : ((requeueOne s i).1.items j).state = state) : (s.1.items j).state = state := by
  unfold requeueOne at h
  dsimp only at h
  split at h
  · exact requeueAbove_state hs h
  · exact requeueAbove_state hs (requeue_state hs h)

/-- What `skip` changes, it skips. -/
theorem skip_state (fuel : ℕ) (u : Upload) (i j : ℕ) :
    ((skip fuel u i).items j).state = (u.items j).state ∨
      ((skip fuel u i).items j).state = .skipped := by
  refine skip_rec (P := fun v => (v.items j).state = (u.items j).state ∨
    (v.items j).state = .skipped) (fun v k h => ?_) (fun v k h => ?_) (fun _ _ _ h => h) fuel
    (.inl rfl) i
  · rw [setState_items]
    split
    · exact .inr rfl
    · next hjk => rwa [edit_items, if_neg hjk]
  · rw [restartFile_items]
    split
    · next hjk => exact hjk ▸ h
    · exact h

end Upload

variable {t : Task} {again : List ℕ} {a : Answer}

namespace Moves

variable {u v w : Upload} {i : ℕ}

/-! ### Calls and edits -/

theorem aside (h : Moves u v)
    (hw : w = { v with busy := w.busy, linkDropped := w.linkDropped }) : Moves u w := by
  rw [hw]
  exact h.tail (.aside _ _)

theorem number (h : Moves u v) : Moves u { v with nextKey := v.nextKey + 1 } := h.tail .number

theorem foldl {α : Type*} {f : Upload → α → Upload} {l : List α} (h : Moves u v)
    (hf : ∀ w, Moves u w → ∀ a ∈ l, Moves u (f w a)) : Moves u (l.foldl f v) :=
  foldlRecOn l f (motive := Moves u) h hf

section

variable (h : Moves u v)
include h

theorem await (ht : t.Names u.tree)
    (hw : ∀ i, (t.writesTo i || t.isFolders) = false) : Moves u (v.await t) := by
  simp only [Bool.or_eq_false_iff] at hw
  exact h.tail (.await t (h.tree ▸ ht) (fun i => (hw i).1) (hw 0).2)

theorem record (hr : ∀ i, t.replaces i = false) :
    Moves u { v with calls := v.calls ++ [t] } := h.tail (.record t hr)

theorem call (ht : t.Names u.tree)
    (hw : ∀ i, (t.writesTo i || t.isFolders || t.replaces i) = false) : Moves u (v.call t) := by
  simp only [Bool.or_eq_false_iff] at hw
  refine (h.record fun i => (hw i).2).await ht fun i => ?_
  rw [(hw i).1.1, (hw i).1.2]
  rfl

theorem releaseBackend : Moves u v.releaseBackend := h.tail .release

theorem awaitBackend {t : Option Backend → Task} (ht : ∀ held, (t held).Names u.tree)
    (hw : ∀ held i,
      ((t held).writesTo i || (t held).isFolders || (t held).replaces i) = false) :
    Moves u (v.awaitBackend t) := by
  have hreached : Moves u v.backendOf.1 := by
    unfold backendOf
    split
    · split
      · exact h.releaseBackend
      · exact h
    · exact h.releaseBackend
  exact hreached.call (ht _) (hw _)

theorem noteOf {f : Item → Item}
    (hf : ∀ item, ((f item).size, (f item).state, (f item).resolution, (f item).acked,
      (f item).writing) = (item.size, item.state, item.resolution, item.acked, item.writing))
    (hh : v.tree.IsDir i → ∀ item, (f item).housing = item.housing) : Moves u (v.edit i f) := by
  simp only [Prod.mk.injEq] at hf
  exact h.tail (.note i f
    { size := fun item => (hf item).1
      state := fun item => (hf item).2.1
      resolution := fun item => (hf item).2.2.1
      acked := fun item => (hf item).2.2.2.1
      writing := fun item => (hf item).2.2.2.2 } hh)

theorem note {f : Item → Item}
    (hf : ∀ item, ((f item).size, (f item).state, (f item).resolution, (f item).acked,
      (f item).writing, (f item).housing) =
      (item.size, item.state, item.resolution, item.acked, item.writing, item.housing)) :
    Moves u (v.edit i f) := by
  simp only [Prod.mk.injEq] at hf
  exact h.noteOf (by simp [hf]) fun _ item => (hf item).2.2.2.2.2

theorem noteFile (hi : u.tree.IsFile i) {f : Item → Item}
    (hf : ∀ item, ((f item).size, (f item).state, (f item).resolution, (f item).acked,
      (f item).writing) = (item.size, item.state, item.resolution, item.acked, item.writing)) :
    Moves u (v.edit i f) :=
  h.noteOf hf fun hdir => absurd (h.tree ▸ hdir) hi.not_isDir

omit h in
theorem hashed (data : List UInt8) (hw : ∀ t ∈ u.tasks, t.writesTo i = false) :
    Moves u ((u.edit i fun item => { item with writing := false }).edit i fun item =>
      { item with hash := item.hash.map (· ++ data) }) :=
  note (.single (.endWrite i hw)) fun _ => by rfl

theorem stop (hi : i < u.tree.size) {state : ItemState}
    (hs : state ≠ .queued ∧ state ≠ .sending ∧ state ≠ .placed)
    (hd : u.tree.IsDir i → ¬(v.items i).ended) : Moves u (v.setState i state) :=
  h.tail (.stop i state (h.tree ▸ hi) ⟨hs.1, hs.2.1⟩ (fun hplaced => absurd hplaced hs.2.2)
    (h.tree ▸ hd))

theorem stopFile (hi : u.tree.IsFile i) {state : ItemState}
    (hs : state ≠ .queued ∧ state ≠ .sending ∧ state ≠ .placed) : Moves u (v.setState i state) :=
  h.stop hi.1 hs fun hdir => absurd hdir hi.not_isDir

theorem restartFile (hi : u.tree.IsFile i) : Moves u (v.restartFile i) :=
  note (h.tail (.restart i (h.tree ▸ hi))) fun _ => by rfl

theorem queueAgain (hi : i < u.tree.size)
    (hd : u.tree.IsDir i → ¬(v.items i).ended) : Moves u (v.queueAgain i) :=
  h.tail (.queueAgain i (h.tree ▸ hi) (h.tree ▸ hd))

/-! ### Placing, stopping, failing -/

theorem place (hi : u.tree.IsFile i) : Moves u (v.place i) := by
  unfold Upload.place
  split
  · exact h
  · have hstate : Moves u (v.setState i .verifying) := h.stopFile hi (by decide)
    exact awaitBackend (hstate.aside (by rfl)) (fun _ => hi) fun _ _ => by rfl

theorem interrupt (hi : i < u.tree.size)
    (hd : u.tree.IsDir i → ¬(v.items i).ended) : Moves u (v.interrupt i) := by
  have hstate : Moves u ((v.edit i fun item => { item with sink := none }).setState i .interrupted) := by
    refine stop (h.note fun _ => by rfl) hi (by decide) fun hdir => ?_
    simpa [edit, Item.ended] using hd hdir
  unfold Upload.interrupt
  dsimp only
  split
  · exact hstate
  · split
    · exact hstate
    · exact hstate.call hi fun _ => by rfl

theorem interruptAll : Moves u v.interruptAll := by
  unfold Upload.interruptAll
  split
  · exact h
  · refine (aside (h.foldl ?_) (by rfl)).releaseBackend
    intro w hw i hi
    split
    · next hstate =>
      refine hw.interrupt ?_ fun _ => ?_
      · rw [← h.tree]
        exact mem_range.mp hi
      · rcases hstate with hstate | hstate <;> simp [Item.ended, hstate]
    · exact hw

theorem fileFailed (hi : u.tree.IsFile i) (interruption : Bool) :
    Moves u (v.fileFailed i interruption) := by
  have hclosed : Moves u (v.edit i fun item => { item with sink := none }) := h.note fun _ => by rfl
  unfold Upload.fileFailed
  split
  · refine (stopFile ?_ hi (by decide)).interruptAll
    split
    · exact hclosed
    · exact hclosed.call hi.1 fun _ => by rfl
  · exact ((hclosed.stopFile hi (by decide)).restartFile hi).call hi fun _ => by rfl

theorem afterStop (hi : u.tree.IsFile i) (sink : Option ℕ) : Moves u (v.afterStop i sink) :=
  h.call hi fun _ => by rfl

end

theorem stopItem (fuel : ℕ) (h : Moves u v) (hi : i < u.tree.size)
    (hd : u.tree.IsDir i → ¬(v.items i).ended) : Moves u (stopItem fuel v i) := by
  induction fuel generalizing v i with
  | zero => exact h
  | succ fuel ih =>
    have hstate : Moves u
        ((v.edit i fun item => { item with sink := none }).setState i .cancelled) := by
      refine stop (h.note fun _ => by rfl) hi (by decide) fun hdir => ?_
      simpa [edit, Item.ended] using hd hdir
    unfold stopItem
    dsimp only
    split
    · -- A folder: what is in it stops with it.
      refine hstate.foldl ?_
      intro w hw c hc
      split
      · next hchild =>
        refine ih hw ?_ fun _ => ?_
        · rw [← hstate.tree]
          exact lt_size_of_mem_children hc
        · rcases hchild with hchild | hchild | hchild | hchild <;> simp [Item.ended, hchild]
      · exact hw
    · next hkind =>
      split
      · exact hstate
      · exact hstate.afterStop ⟨hi, by rwa [hstate.tree] at hkind⟩ _

theorem skip (fuel : ℕ) (h : Moves u v) (hi : i < u.tree.size)
    (hd : u.tree.IsDir i → ¬(v.items i).ended) : Moves u (skip fuel v i) := by
  induction fuel generalizing v i with
  | zero => exact h
  | succ fuel ih =>
    have hstate : Moves u
        ((v.edit i fun item => { item with outcome := some .skipped }).setState i .skipped) := by
      refine stop (h.tail (.noteSkipped i (h.tree ▸ hd))) hi (by decide) fun hdir => ?_
      simpa [edit, Item.ended] using hd hdir
    unfold skip
    dsimp only
    split
    · next hkind =>
      have hrestarted := hstate.restartFile ⟨hi, by rwa [hstate.tree] at hkind⟩
      split
      · exact hrestarted
      · split
        · exact hrestarted
        · exact hrestarted.call hi fun _ => by rfl
    · refine hstate.foldl ?_
      intro w hw c hc
      split
      · next hchild =>
        refine ih hw ?_ fun _ => ?_
        · rw [← hstate.tree]
          exact lt_size_of_mem_children hc
        · simpa [Item.ended] using hchild
      · exact hw

theorem failChildren (fuel : ℕ) (h : Moves u v) :
    Moves u ((v.tree.children i).foldl
      (fun u c =>
        if (u.items c).state = .queued ∨ (u.items c).state = .conflict then
          failSubtree fuel u c
        else u) v) := by
  induction fuel generalizing v i with
  | zero =>
    refine h.foldl fun w hw c _ => ?_
    split <;> exact hw
  | succ fuel ih =>
    refine h.foldl fun w hw c hc => ?_
    split
    · next hchild =>
      have hlt : c < u.tree.size := by
        rw [← h.tree]
        exact lt_size_of_mem_children hc
      refine ih (hw.stop hlt (by decide) fun _ => ?_)
      rcases hchild with hchild | hchild <;> simp [Item.ended, hchild]
    · exact hw

theorem failSubtree (fuel : ℕ) (h : Moves u v) (hi : i < u.tree.size)
    (hd : u.tree.IsDir i → ¬(v.items i).ended) : Moves u (failSubtree fuel v i) := by
  cases fuel with
  | zero => exact h
  | succ fuel => exact failChildren fuel (h.stop hi (by decide) hd)

theorem filePlaced (h : Moves u v) (hi : u.tree.IsFile i) (path : Option HostPath)
    (outcome : Outcome) : Moves u (v.filePlaced i path outcome) := by
  have hnoted : Moves u (v.edit i fun item =>
      { item with path, outcome := some outcome, temp := none, tempWhole := false }) :=
    h.noteFile hi fun _ => by rfl
  refine hnoted.tail (.stop i .placed ?_ (by decide) (fun _ => ?_) fun hdir => ?_)
  · rw [hnoted.tree]
    exact hi.1
  · rw [hnoted.tree]
    exact hi.2
  · exact absurd (hnoted.tree ▸ hdir) hi.not_isDir

/-! ### Queueing again -/

theorem conflictFound_cases (h : Moves u v) (hi : u.tree.IsFile i) (existing : Option FileEntry) :
    Moves u (v.conflictFound i existing) ∨
      v.onConflict = .replace ∧ (existing.map FileEntry.folderLike).getD false = false ∧
      ∃ w, Moves u w ∧ w.onConflict = .replace ∧ (w.items i).typeClash = false ∧
        Moves (w.edit i fun item => { item with resolution := some .replace })
          (v.conflictFound i existing) := by
  -- The file goes on with its answer, or waits for a window's.
  have hgoes : ∀ w w' : Upload, Moves w w' → w.tree = u.tree → Moves w
      (if (w'.items i).tempWhole then w'.place i else w'.queueAgain i) := by
    intro w w' hw htree
    split
    · exact hw.place (htree ▸ hi)
    · exact hw.queueAgain (htree ▸ hi.1) fun hdir => absurd (htree ▸ hdir) hi.not_isDir
  have hask : ∀ w : Upload, Moves u w → Moves u
      ((if (w.items i).tempWhole then w
        else w.edit i fun item => { item with sink := none, temp := none }).setState i .conflict) := by
    intro w hw
    split
    · exact hw.stopFile hi (by decide)
    · exact (hw.note fun _ => by rfl).stopFile hi (by decide)
  have hfound : Moves u (v.edit i fun item =>
      { item with
        existing
        typeClash := (existing.map FileEntry.folderLike).getD false
        late := true }) := h.note fun _ => by rfl
  unfold conflictFound
  dsimp only
  split
  · exact .inl (hfound.skip _ hi.1 fun hdir => absurd hdir hi.not_isDir)
  · have hkept := hfound.tail (.keepBoth i)
    exact .inl (hkept.trans (hgoes _ _ .refl (Moves.tree hkept)))
  · next hreplace =>
    split
    · exact .inl (hask _ hfound)
    · next hclash =>
      have hnone : (existing.map FileEntry.folderLike).getD false = false := by simpa using hclash
      refine .inr ⟨hreplace, hnone, _, hfound, hreplace, ?_, hgoes _ _ .refl hfound.tree⟩
      simpa [edit] using hclash
  · exact .inl (hask _ hfound)

theorem requeue (h : Moves u v) (hi : i < u.tree.size)
    (hd : u.tree.IsDir i → ¬(v.items i).ended) : Moves u (v.requeue i) := by
  unfold Upload.requeue
  split
  · next hfile => exact h.place ⟨hi, h.tree ▸ hfile.1⟩
  · exact h.queueAgain hi hd

theorem not_ended_of_again (h : v.again i = true) : ¬(v.items i).ended := by
  simp only [again, decide_eq_true_eq] at h
  rcases h with h | h | h <;> simp [Item.ended, h]

/-- One turn of `requeueAll` and of the loop inside it keep what has been made so far. -/
theorem requeueAbove {folders requeued : List ℕ} (h : Moves u v)
    (hf : ∀ p ∈ folders, p < u.tree.size) :
    Moves u (v.requeueAbove requeued folders).1 := by
  refine foldlRecOn (motive := fun s : Upload × List ℕ => Moves u s.1) _ _ h ?_
  intro s hs p hp
  split
  · next hagain =>
    exact hs.requeue (hf p (takeWhile_subset _ hp)) fun _ => not_ended_of_again hagain
  · exact hs

theorem lt_size_of_mem_foldersAbove {t : UploadTree} {p : ℕ} (hp : p ∈ t.foldersAbove i) :
    p < t.size :=
  (isDir_of_under (mem_foldersAbove_iff.mp hp)).1

theorem requeueOne (h : Moves u s.1) (hi : i < u.tree.size)
    (hd : u.tree.IsDir i → ¬(s.1.items i).ended) : Moves u (requeueOne s i).1 := by
  have habove : Moves u (s.1.requeueAbove s.2 (s.1.tree.foldersAbove i)).1 := by
    refine h.requeueAbove fun p hp => ?_
    rw [h.tree] at hp
    exact lt_size_of_mem_foldersAbove hp
  unfold Upload.requeueOne
  dsimp only
  split
  · exact habove
  · refine habove.requeue hi fun hdir hended => hd hdir ?_
    exact hended.imp (requeueAbove_state (by decide)) (requeueAbove_state (by decide))

theorem requeueAll (h : Moves u v) (ha : ∀ i ∈ again, i < u.tree.size)
    (hd : ∀ i ∈ again, u.tree.IsDir i → ¬(v.items i).ended) : Moves u (v.requeueAll again) := by
  have hloop : Moves u (again.foldl Upload.requeueOne (v, [])).1 := by
    refine (foldlRecOn (motive := fun s : Upload × List ℕ =>
      Moves u s.1 ∧ ∀ j, (s.1.items j).ended → (v.items j).ended) again _ ⟨h, fun _ hj => hj⟩ ?_).1
    rintro s ⟨hs, hended⟩ i hi
    refine ⟨hs.requeueOne (ha i hi) fun hdir hi' => hd i hi hdir (hended i hi'), fun j hj => ?_⟩
    exact hended j
      (hj.imp (requeueOne_state (by decide)) (requeueOne_state (by decide)))
  unfold Upload.requeueAll
  dsimp only
  split
  · exact hloop.tail .rebuild
  · exact hloop

/-! ### Opening a file -/

/-- What `backendOf` comes to: a throw, or a connection. -/
theorem backend_cases {held : Option Backend} {threw : Bool → Upload} {go : Upload → Backend → Upload}
    (hw : v.onBackend held threw go a = some w) : (∃ k, a = .fault k ∧ held = none ∧ w = threw k) ∨
      (∀ k, a ≠ .fault k) ∧ ∃ v' b, Reached v held v' b ∧ w = go v' b := by
  cases a with
  | done =>
    obtain ⟨b, hheld, rfl⟩ := map_eq_some_iff.mp hw
    exact .inr ⟨nofun, v, b, .held b hheld, rfl⟩
  | backend exec =>
    simp only [onBackend] at hw
    split at hw
    · cases hw
    · next hb =>
      cases hw
      exact .inr ⟨nofun, v, _, .shared _ rfl hb, rfl⟩
    · next hb =>
      cases hw
      exact .inr ⟨nofun, _, _, .new exec rfl hb, rfl⟩
  | fault k =>
    obtain ⟨hheld, hw⟩ := ite_none_left_eq_some.mp hw
    exact .inl ⟨k, rfl, by simpa using hheld, (some.inj hw).symm⟩
  | stat | placement | taken | verified | folders => cases hw

theorem backend_reached {held : Option Backend} {threw : Bool → Upload}
    {go : Upload → Backend → Upload} (hfault : ∀ k, a ≠ .fault k)
    (hw : v.onBackend held threw go a = some w) :
    ∃ v' b, Reached v held v' b ∧ w = go v' b :=
  (backend_cases hw).elim (fun ⟨k, hk, _⟩ => absurd hk (hfault k)) And.right

theorem onBackend {held : Option Backend} {threw : Bool → Upload} {go : Upload → Backend → Upload}
    (h : Moves u v) (hthrew : ∀ k, a = .fault k → Moves u (threw k))
    (hgo : (∀ k, a ≠ .fault k) → ∀ w b, Moves u w → Moves u (go w b))
    (hw : v.onBackend held threw go a = some w) : Moves u w := by
  rcases backend_cases hw with ⟨k, hk, -, rfl⟩ | ⟨hk, v', b, hv, rfl⟩
  · exact hthrew k hk
  · exact hgo hk v' b (h.trans hv.moves)

section

variable (h : Moves u v)
include h

theorem openFile (hi : u.tree.IsFile o.i) : Moves u (v.openFile o) := by
  unfold Upload.openFile
  split
  · exact h
  · exact h.call hi fun _ => by rfl

theorem openDirect (hi : u.tree.IsFile o.i) (n : ℕ) : Moves u (v.openDirect o n) := by
  unfold Upload.openDirect
  split
  · exact h.await hi fun _ => by rfl
  · exact h.call hi fun _ => by rfl

theorem openNew (hi : u.tree.IsFile o.i) (direct : Bool) (random : String) :
    Moves u (v.openNew o direct random) := by
  have hnoted : Moves u (v.edit o.i fun item =>
      { item with direct, hash := if v.verify then some [] else item.hash }) :=
    h.note fun _ => by rfl
  unfold Upload.openNew
  dsimp only
  split
  · exact hnoted.openDirect hi _
  · exact (hnoted.note fun _ => by rfl).openFile hi

theorem openGoOn (hi : u.tree.IsFile o.i) (random : String) : Moves u (v.openGoOn o random) := by
  unfold Upload.openGoOn
  split
  · split
    · exact h.openNew hi false random
    · exact h.call hi fun _ => by rfl
  · exact h.openFile hi

theorem openReached (hi : u.tree.IsFile i) (random : String) (b : Backend) :
    Moves u (v.openReached i random b) := by
  unfold Upload.openReached
  split
  · split <;> exact h.call hi fun _ => by rfl
  · exact h.openGoOn hi random

theorem openLooked (hi : u.tree.IsFile o.i) (there : Option Stat)
    (random : String) : Moves u (v.openLooked o there random) := by
  unfold Upload.openLooked
  by_cases hkept : if o.exec && !(v.items o.i).carried then sizeThere there = (v.items o.i).acked
      else (v.items o.i).acked ≤ sizeThere there
  · rw [if_pos hkept]
    split
    · exact h.call hi fun _ => by rfl
    · exact h.openGoOn hi random
  · rw [if_neg hkept]
    exact h.call hi fun _ => by rfl

theorem openedTemp (hi : u.tree.IsFile i) : Moves u (v.openedTemp i) := by
  have hsink : Moves u ({ v with nextKey := v.nextKey + 1 }.edit i fun item =>
      { item with sink := some v.nextKey }) :=
    h.number.note fun _ => by rfl
  unfold Upload.openedTemp
  dsimp only
  split
  · exact hsink.await hi fun _ => by rfl
  · exact (hsink.note fun _ => by rfl).call hi fun _ => by rfl

theorem openedDirect (hi : u.tree.IsFile o.i) (n : ℕ) (path : HostPath) :
    Moves u (v.openedDirect o n path) :=
  await (h.number.noteFile hi fun _ => by rfl) hi fun _ => by rfl

section

variable (hi : u.tree.IsFile i)
include hi

theorem openStopped : Moves u (v.openStopped i) := by
  unfold Upload.openStopped
  split
  · dsimp only
    split
    · exact (h.restartFile hi).await hi fun _ => by rfl
    · split
      · exact (h.restartFile hi).call hi fun _ => by rfl
      · exact (h.restartFile hi).await hi fun _ => by rfl
  · exact h.await hi fun _ => by rfl

/-! ### Its bytes, and its place -/

theorem finishFile : Moves u (v.finishFile i) := by
  unfold Upload.finishFile
  split
  · exact h
  · split
    · have hstate : Moves u ((v.edit i fun item => { item with sink := none }).setState i
          .verifying) := (h.note fun _ => by rfl).stopFile hi (by decide)
      exact call (hstate.aside (by rfl)) hi fun _ => by rfl
    · exact h

theorem writeFailed (interruption : Bool)
    (hw : ∀ t ∈ u.tasks, t.writesTo i = false) : Moves u (v.writeFailed i interruption) := by
  unfold Upload.writeFailed
  split
  · have hfailed := h.fileFailed hi interruption
    exact hfailed.tail (.endWrite i (hfailed.writesTo hw))
  · exact h.tail (.endWrite i (h.writesTo hw))

theorem stopped : Moves u (v.stopped i) := by
  unfold Upload.stopped
  split
  · dsimp only
    split
    · exact h.restartFile hi
    · split
      · exact (h.restartFile hi).call hi.1 fun _ => by rfl
      · exact h.restartFile hi
  · exact h

theorem finished (how : Verification) : Moves u (v.finished i how) := by
  have hended : Moves u { v with busy := v.busy - 1 } := h.aside (by rfl)
  have hchecked : ∀ how, Moves u ({ v with busy := v.busy - 1 }.edit i fun item =>
      { item with verification := some how, tempWhole := true, hash := none }) :=
    fun _ => hended.note fun _ => by rfl
  unfold Upload.finished
  dsimp only
  split
  · exact (hchecked _).filePlaced hi _ _
  · exact (hchecked _).place hi

theorem placeKeepBoth (temp : Option HostPath)
    (parent : HostPath) (n : ℕ) : Moves u (v.placeKeepBoth i temp parent n) := by
  unfold Upload.placeKeepBoth
  split
  · exact (h.fileFailed hi false).aside (by rfl)
  · exact h.call hi fun _ => by rfl

end

end

theorem placeReached_cases (hi : u.tree.IsFile i) : Moves u (u.placeReached i) ∨
    (u.items i).resolution = some .replace ∧ ∃ temp target,
      u.placeReached i = u.call (.placing i temp target .replace) := by
  unfold placeReached
  split
  · next hr => exact .inr ⟨hr, _, _, rfl⟩
  · exact .inl (placeKeepBoth .refl hi _ _ 1)
  · exact .inl (call .refl hi fun _ => by rfl)

theorem placeAnswered {temp : Option HostPath} {target : HostPath} {how : Placing}
    (h : Moves u v) (hi : u.tree.IsFile i) (ha : how = .plain → ∀ existing, a ≠ .taken existing)
    (hw : v.placeAnswered i temp target how a = some w) : Moves u w := by
  unfold Upload.placeAnswered at hw
  split at hw
  · cases hw
    exact (h.fileFailed hi _).aside (by rfl)
  · cases hw
    exact (h.filePlaced hi _ _).aside (by rfl)
  · cases hw
    exact (h.filePlaced hi _ _).aside (by rfl)
  · cases hw
    exact aside (filePlaced (h.noteFile hi fun _ => by rfl) hi _ _) rfl
  · cases hw
    exact h.placeKeepBoth hi _ _ _
  · cases hw
    exact (h.filePlaced hi _ _).aside (by rfl)
  · exact absurd rfl (ha rfl _)
  · cases hw

/-! ### Taking an upload up -/

section

variable (h : Moves u v)
include h

theorem takeUp (requester : String) (files : List ResumeFile) :
    Moves u (v.takeUp requester files) :=
  awaitBackend (h.aside (by rfl)) (fun _ => trivial) fun _ _ => by rfl

section

variable (hk : v.Kinded)
include hk

theorem setLookUp (key : ℕ) {l : Option LookUp}
    (hl : ∀ look, l = some look → ∀ i ∈ look.todo, u.tree.IsFile i) :
    Moves u { v with lookUps := update v.lookUps key l } := by
  refine h.tail (.lookUps _ ?_)
  intro key' look hlook
  by_cases hkey : key' = key
  · subst hkey
    rw [update_self] at hlook
    exact h.tree ▸ hl look hlook
  · rw [update_of_ne hkey] at hlook
    exact hk.lookUps key' look hlook

theorem lookNext (key : ℕ) (l : LookUp) {todo : List ℕ}
    (htodo : ∀ i ∈ todo, u.tree.IsFile i) : Moves u (v.lookNext key l todo) := by
  induction todo with
  | nil =>
    unfold Upload.lookNext
    split
    · have hended : Moves u { v with lookUps := update v.lookUps key none } :=
        h.setLookUp hk key nofun
      split
      · exact hended
      · exact hended.await trivial fun _ => by rfl
    · refine h.setLookUp hk key ?_
      rintro look hlook i hi
      cases hlook
      cases hi
  | cons i todo ih =>
    obtain ⟨hi, htodo⟩ := forall_mem_cons.mp htodo
    unfold Upload.lookNext
    split
    · exact ih htodo
    · refine call (h.setLookUp hk key ?_) hi fun _ => by rfl
      rintro look hlook
      cases hlook
      exact htodo

theorem lookDone (key : ℕ) : Moves u (v.lookDone key) := by
  unfold Upload.lookDone
  split
  · exact h
  · next l hl => exact h.lookNext hk key l (h.tree ▸ hk.lookUps key l hl)

theorem lookThrew (key : ℕ) (interruption : Bool) :
    Moves u (v.lookThrew key interruption) := by
  unfold Upload.lookThrew
  split
  · exact h
  · next l hl =>
    have htodo : ∀ look, (if l.running ≤ 1 then none
        else some { l with failed := true, running := l.running - 1 }) = some look →
        ∀ i ∈ look.todo, u.tree.IsFile i := by
      intro look hlook
      obtain ⟨-, ⟨rfl⟩⟩ := ite_none_left_eq_some.mp hlook
      exact h.tree ▸ hk.lookUps key l hl
    split
    · exact h.setLookUp hk key htodo
    · have hthrew : Moves v (v.await (.lookFailed interruption)) :=
        await .refl trivial fun _ => by rfl
      exact setLookUp (h.trans hthrew) (hk.moves hthrew) key htodo

theorem lookStale (hi : u.tree.IsFile i) (key : ℕ)
    (temp : HostPath) (isFile : Bool) : Moves u (v.lookStale key i temp isFile) := by
  unfold Upload.lookStale
  split
  · exact h.call hi fun _ => by rfl
  · have hrestart : Moves v (v.restartFile i) := restartFile .refl (h.tree ▸ hi)
    exact lookDone (h.trans hrestart) (hk.moves hrestart) key

theorem lookedAt (hi : u.tree.IsFile i) (key : ℕ)
    (temp : HostPath) (there : Option Stat) : Moves u (v.lookedAt key i temp there) := by
  unfold Upload.lookedAt
  dsimp only
  split
  · split
    · exact h.lookDone hk key
    · exact h.lookStale hk hi key temp _
  · split
    · split
      · exact h.lookDone hk key
      · exact h.call hi fun _ => by rfl
    · exact h.lookStale hk hi key temp _

end

theorem takeUpFailed (interruption : Bool) : Moves u (v.takeUpFailed interruption) := by
  have haside : Moves u { v with busy := v.busy - 1 } := h.aside (by rfl)
  unfold Upload.takeUpFailed
  split
  · exact haside.interruptAll
  · exact haside

end

theorem lt_size_of_mem_toQueueAgain (h : i ∈ v.toQueueAgain) : i < v.tree.size :=
  mem_order.mp (mem_of_mem_filter h)

theorem queueAll (h : Moves u v) (ha : again ⊆ v.toQueueAgain) : Moves u (v.requeueAll again) := by
  refine requeueAll h (fun i hi => ?_) fun i hi _ => ?_
  · rw [← h.tree]
    exact lt_size_of_mem_toQueueAgain (ha hi)
  · exact not_ended_of_again (mem_filter.mp (ha hi)).2

/-- The end of `takeUp`, once its window is the upload's. -/
theorem takenUp_cases (u : Upload) (requester : String) :
    u.dropped = true ∧ Moves u (u.takenUp requester) ∨
      u.dropped = false ∧ Moves { u with source := some requester } (u.takenUp requester) := by
  unfold takenUp
  dsimp only
  split
  · next hd => exact .inl ⟨hd, aside .refl (by rfl)⟩
  · next hd =>
    exact .inr ⟨by simpa using hd, queueAll (aside .refl (by rfl)) (Subset.refl _)⟩

/-- `takeUp` begins to look at the temporaries. -/
theorem lookUp (h : Moves u v) (hk : v.Kinded) (requester : String) :
    Moves u (v.takeUpReached requester []) := by
  have hkept : ∀ i ∈ (range v.tree.size).filter fun i =>
      v.tree.kind i = .file ∧ (v.items i).temp ≠ none ∧ (v.items i).resumable,
      u.tree.IsFile i := by
    intro i hi
    obtain ⟨hrange, hkind⟩ := mem_filter.mp hi
    refine h.tree ▸ ⟨mem_range.mp hrange, ?_⟩
    exact (of_decide_eq_true hkind).1
  unfold takeUpReached
  dsimp only [foldl_nil]
  split
  · exact h.await trivial fun _ => by rfl
  · refine foldl (h.number.setLookUp { hk with } _ ?_) ?_
    · rintro look hlook i hi
      cases hlook
      exact hkept i (drop_subset _ _ hi)
    · intro w hw i hi
      split
      · exact hw
      · exact hw.call (hkept i (take_subset _ _ hi)) fun _ => by rfl

end Moves

/-! ### Answers -/

/-- Answers that are more than moves: a chunk is sent or acknowledged, files have changed,
something has a file's name, a file is placed over another, `createFolders` goes on, a retry
reached its host, an upload has another window. -/
def Task.Special : Task → Answer → Prop
  | .receiving _ _ _, _ => True
  | .write _ _ _ _, .done => True
  | .openDirect _ n _, .taken _ => n = 0
  | .placing _ _ _ .plain, .taken _ => True
  | .placeBackend _ _, .fault _ => False
  | .placeBackend _ _, _ => True
  | .takeUpBackend _ _ _, .fault _ => False
  | .takeUpBackend _ _ _, _ => True
  | .foldersBackend _ _ _, _ | .mkdirs _ _ _, _ | .keepBothFolder _ _ _ _, _ => True
  | .retryConnect _, .done => True
  | .looked _, _ => True
  | _, _ => False

variable {u : Upload} {random : String}

/-- An answer that is nothing special is made of moves. -/
theorem Moves.answer {w : Upload} (hk : u.Kinded)
    (ht : t.Names u.tree) (hwrites : ∀ i, t.writesTo i → ∀ t' ∈ u.tasks, t'.writesTo i = false)
    (hs : ¬t.Special a) (hw : u.answer random t a = some w) : Moves u w := by
  unfold Upload.answer at hw
  split at hw
  · exact onBackend .refl (fun k _ => await (t := .openFailed _ k) .refl ht fun _ => by rfl)
      (fun _ v b hv => hv.openReached ht random b) hw
  · cases hw
    exact openLooked .refl ht _ random
  · cases hw
    exact openLooked .refl ht none random
  · cases hw
    exact openGoOn .refl ht random
  · cases hw
    exact await .refl ht fun _ => by rfl
  · cases hw
    exact call .refl ht fun _ => by rfl
  · cases hw
    exact openGoOn (restartFile .refl ht) ht random
  · cases hw
    exact openNew .refl ht _ random
  · cases hw
    exact await .refl ht fun _ => by rfl
  · cases hw
    exact openedDirect .refl ht _ _
  · split at hw
    · next hzero => exact absurd hzero hs
    · cases hw
      exact openDirect .refl ht _
  · cases hw
    exact await .refl ht fun _ => by rfl
  · cases hw
    exact openedTemp .refl ht
  · split at hw
    · cases hw
      exact await .refl ht fun _ => by rfl
    · cases hw
      exact call (note .refl fun _ => by rfl) ht fun _ => by rfl
  · cases hw
    exact await .refl ht fun _ => by rfl
  · cases hw
    exact openStopped .refl ht
  · cases hw
    exact await .refl ht fun _ => by rfl
  · split at hw
    · cases hw
      exact finishFile .refl ht
    · cases hw
      exact .refl
  · split at hw
    · cases hw
      exact fileFailed .refl ht _
    · cases hw
      exact .refl
  · exact absurd trivial hs
  · exact absurd trivial hs
  · cases hw
    exact writeFailed .refl ht _ (hwrites _ (by simp [Task.writesTo]))
  · cases hw
    exact stopped .refl ht
  · cases hw
    exact finished .refl ht _
  · cases hw
    exact fileFailed (aside .refl (by rfl)) ht _
  · refine onBackend .refl (fun k _ => aside (fileFailed .refl ht k) (by rfl)) ?_ hw
    refine fun hfault _ _ _ => absurd ?_ hs
    cases a with
    | fault k => exact absurd rfl (hfault k)
    | _ => trivial
  · refine placeAnswered .refl ht ?_ hw
    rintro rfl existing rfl
    exact hs trivial
  · split at hw
    · cases hw
      exact .refl
    · split at hw
      · cases hw
        exact .refl
      · cases hw
        exact call .refl ht.1 fun _ => by rfl
  · cases hw
    exact .refl
  · cases hw
    exact .refl
  iterate 6 · exact absurd trivial hs
  · cases hw
    exact .refl
  · refine onBackend .refl (fun k _ => takeUpFailed .refl k) (fun hk => ?_) hw
    cases a with
    | fault k => exact absurd rfl (hk k)
    | _ => exact absurd trivial hs
  · cases hw
    exact lookedAt .refl hk ht _ _ _
  · split at hw
    · cases hw
      exact lookThrew .refl hk _ true
    · cases hw
      exact lookedAt .refl hk ht _ _ none
  · cases hw
    exact lookDone .refl hk _
  · split at hw
    · cases hw
      exact lookThrew .refl hk _ true
    · cases hw
      exact call .refl ht fun _ => by rfl
  · cases hw
    have hrestart : Moves u (u.restartFile _) := restartFile .refl ht
    exact lookDone hrestart (hk.moves hrestart) _
  · exact absurd trivial hs
  · cases hw
    exact takeUpFailed .refl _
  · cases hw

/-! ### From a window, a host, a timer -/

theorem Upload.lt_size_of_mem_walk {t : UploadTree} {fuel i j : ℕ} (hi : i < t.size)
    (hj : j ∈ walk t fuel i) : j < t.size := by
  induction fuel generalizing i with
  | zero => cases hj
  | succ fuel ih =>
    rcases mem_cons.mp hj with rfl | hj
    · exact hi
    · obtain ⟨c, hc, hj⟩ := mem_flatMap.mp hj
      exact ih (lt_size_of_mem_children hc) hj

theorem Upload.lt_size_of_mem_scopedItems {scope : Option ℕ} {ids : List ℕ} {j : ℕ}
    (h : u.scopedItems scope = some ids) (hj : j ∈ ids) : j < u.tree.size := by
  cases scope with
  | none =>
    cases h
    exact mem_range.mp hj
  | some i =>
    obtain ⟨hi, ⟨rfl⟩⟩ := ite_none_right_eq_some.mp h
    exact lt_size_of_mem_walk hi hj

/-- What is more than moves: an answer to conflicts, another window, `pump`, and what ends an
upload. -/
def Upload.Op.Special : Op → Prop
  | .resolve _ _ | .join _ | .clientGone _ | .pump _ _ | .drop | .forget => True
  | _ => False

variable {op : Op}

namespace Moves

variable {u v w : Upload} {i : ℕ}

theorem retry (h : Moves u v) (scope : Option ℕ) (isConnected : Bool) :
    Moves u (v.retry scope isConnected) := by
  unfold Upload.retry
  split
  · exact h
  · next ids hids =>
    have hagain : ∀ i ∈ ids.filter v.again, i < u.tree.size := fun i hi =>
      h.tree ▸ lt_size_of_mem_scopedItems hids (mem_of_mem_filter hi)
    dsimp only
    split
    · exact h
    · split
      · exact h.requeueAll hagain fun i hi _ => not_ended_of_again (mem_filter.mp hi).2
      · exact h.await hagain fun _ => by rfl

theorem cancel (h : Moves u v) (scope : Option ℕ) : Moves u (v.cancel scope) := by
  unfold Upload.cancel
  split
  · exact h
  · next ids hids =>
    refine h.foldl ?_
    intro w hw i hi
    split
    · next hstate =>
      refine hw.stopItem _ (h.tree ▸ lt_size_of_mem_scopedItems hids hi) fun _ => ?_
      rcases hstate with hstate | hstate | hstate | hstate <;> simp [Item.ended, hstate]
    · exact hw

theorem interruptThose (h : Moves u v) {which : ItemState → Bool}
    (hp : which .placed = false) (hs : which .skipped = false) :
    Moves u (v.interruptThose which) := by
  refine h.foldl ?_
  intro w hw i hi
  split
  · next hwhich =>
    refine hw.interrupt (h.tree ▸ mem_range.mp hi) fun _ hended => ?_
    rcases hended with hended | hended
    · rw [hended, hp] at hwhich
      cases hwhich
    · rw [hended, hs] at hwhich
      cases hwhich
  · exact hw

theorem clientGone_cases (u : Upload) (client : String) :
    u.clientGone client = u ∨
      u.source = some client ∧ Moves { u with source := none } (u.clientGone client) := by
  unfold clientGone
  split
  · next hsource => exact .inr ⟨hsource, interruptThose .refl (by rfl) (by rfl)⟩
  · exact .inl rfl

theorem interruptOn (h : Moves u v) : Moves u v.interruptOn :=
  (h.interruptThose (by rfl) (by rfl)).releaseBackend

/-- `join`, once its window is the upload's. -/
theorem join (u : Upload) (requester : String) :
    Moves { u with source := some requester } (u.join requester) :=
  queueAll (aside .refl (by rfl)) (Subset.refl _)

theorem receive (h : Moves u v) (requester : String) (i offset : ℕ) (data : List UInt8) :
    Moves u (v.receive requester i offset data) := by
  unfold Upload.receive
  split
  · next hfile => exact h.await (h.tree ▸ ⟨hfile.1, hfile.2.1⟩) fun _ => by rfl
  · exact h

theorem resumeDropped (h : Moves u v) : Moves u v.resumeDropped := by
  unfold Upload.resumeDropped
  split
  · exact h
  · next client _ =>
    -- What is left of it is taken up, whether or not it was interrupted just now.
    have hrest : ∀ w : Upload, Moves u w →
        Moves u (if w.linkDropped then w.takeUp client [] else w) := by
      intro w hw
      split
      · exact hw.takeUp client []
      · exact hw
    split
    · exact hrest _ h.interruptAll
    · exact hrest _ h

theorem flush (h : Moves u v) (sayDone : Bool) : Moves u (v.flush sayDone) := by
  have hidle : ∀ w : Upload, Moves u w →
      Moves u (if w.isActive = false ∧ w.source = none then w.releaseBackend else w) := by
    intro w hw
    split
    · exact hw.releaseBackend
    · exact hw
  unfold Upload.flush
  split
  · exact hidle _ h.releaseBackend
  · exact hidle _ h

theorem enqueueReadyTop (h : Moves u v) : Moves u v.enqueueReadyTop := by
  refine h.foldl ?_
  intro w hw i hi
  split
  · refine hw.tail (.enqueue i ?_)
    rw [hw.tree, ← h.tree]
    exact mem_order.mp hi
  · exact hw

theorem perform (hs : ¬op.Special) (hw : u.perform op = some w) : Moves u w := by
  unfold Upload.perform at hw
  split at hw
  · exact absurd trivial hs
  · cases hw
    exact retry .refl _ _
  · cases hw
    exact cancel .refl _
  · exact absurd trivial hs
  · cases hw
    exact takeUp .refl _ _
  · cases hw
    exact receive .refl _ _ _ _
  · exact absurd trivial hs
  · cases hw
    exact interruptOn .refl
  · cases hw
    exact resumeDropped .refl
  · exact absurd trivial hs
  · cases hw
    exact flush .refl _
  · exact absurd trivial hs
  · exact absurd trivial hs

end Moves

/-! ### The turns of `createFolders` -/

/-- What an answer to an await of `createFolders` comes to: a throw, or what is awaited next. -/
inductive Upload.FoldersGo (u : Upload) : Task → Answer → Upload → Prop
  | threw {t : Task} (k : Bool) : FoldersGo u t (.fault k) (u.foldersFailed k)
  | reached {batch plain : List ℕ} {held : Option Backend} {v : Upload} {b : Backend} {a : Answer}
      (hv : Reached u held v b) :
      FoldersGo u (.foldersBackend batch plain held) a (v.foldersReached batch plain)
  | made {batch plain : List ℕ} {paths : List HostPath} {results : List FolderResult}
      (hlen : results.length = paths.length) :
      FoldersGo u (.mkdirs batch plain paths) (.folders results)
        (u.foldersMade batch plain paths results)
  | keptBoth {i n : ℕ} {path : HostPath} {rest : List ℕ} {result : FolderResult} :
      FoldersGo u (.keepBothFolder i n path rest) (.folders [result])
        (u.keepBothAnswered i n path rest result)

theorem Upload.FoldersGo.of_answer {w : Upload} (hf : t.isFolders = true)
    (hw : u.answer random t a = some w) : u.FoldersGo t a w := by
  cases t with
  | foldersBackend batch plain held =>
    rw [answer_foldersBackend] at hw
    rcases Moves.backend_cases hw with ⟨k, rfl, -, rfl⟩ | ⟨-, v, b, hv, rfl⟩
    · exact .threw k
    · exact .reached hv
  | mkdirs batch plain paths =>
    cases a with
    | folders results =>
      obtain ⟨hlen, ⟨rfl⟩⟩ := ite_none_right_eq_some.mp hw
      exact .made hlen
    | fault k =>
      cases hw
      exact .threw k
    | _ => cases hw
  | keepBothFolder i n path rest =>
    cases a with
    | folders results =>
      rcases results with _ | ⟨result, _ | ⟨other, results⟩⟩
      · cases hw
      · cases hw
        exact .keptBoth
      · cases hw
    | fault k =>
      cases hw
      exact .threw k
    | _ => cases hw
  | _ => cases hf

/-- The catch of `createFolders` is moves, its queue given up, and its end. -/
theorem Moves.foldersFailed (hf : ∀ i ∈ u.folderQueue, i < u.tree.size)
    (interruption : Bool) : ∃ v, Moves { u with folderQueue := [] } v ∧
      u.foldersFailed interruption = { v with creatingFolders := false, busy := v.busy - 1 } := by
  have hloop : Moves { u with folderQueue := [] } (u.folderQueue.foldl
      (fun u i =>
        if (u.items i).state ≠ .queued then u
        else if interruption then u.interrupt i
        else Upload.failSubtree u.tree.size u i) { u with folderQueue := [] }) := by
    refine Moves.foldl .refl ?_
    intro w hw i hi
    split
    · exact hw
    · next hq =>
      have hopen : ¬(w.items i).ended := by simp [Item.ended, not_not.mp hq]
      split
      · exact hw.interrupt (hf i hi) fun _ => hopen
      · exact hw.failSubtree _ (hf i hi) fun _ => hopen
  cases interruption with
  | false => exact ⟨_, hloop, rfl⟩
  | true => exact ⟨_, hloop.interruptAll, rfl⟩

/-- `createFolders` is between two of its awaits. -/
structure Between (u v : Upload) : Prop where
  turns : Turns u v
  creating : v.creatingFolders = true
  idle : ∀ t ∈ v.tasks, t.isFolders = false

namespace Between

variable {u v w : Upload} {i : ℕ}

theorem refl (hc : u.creatingFolders = true) (hn : ∀ t ∈ u.tasks, t.isFolders = false) :
    Between u u := ⟨.refl, hc, hn⟩

theorem tree (h : Between u v) : v.tree = u.tree := Turns.tree h.turns

theorem moves (h : Between u v) (hm : Moves v w) : Between u w :=
  ⟨h.turns.trans hm.turns, hm.creatingFolders.trans h.creating, hm.isFolders h.idle⟩

theorem folderPlaced (h : Between u v) (hi : u.tree.IsDir i) (path : HostPath)
    (outcome : Outcome) : Between u (v.folderPlaced i path outcome) where
  turns := h.turns.tail (.placeFolder i path outcome (h.tree ▸ hi))
  creating := by
    have hcreating : (v.folderPlaced i path outcome).creatingFolders = v.creatingFolders :=
      (enqueueQueued_creatingFolders _).trans setState_creatingFolders
    exact hcreating.trans h.creating
  idle t ht := by
    have htasks : (v.folderPlaced i path outcome).tasks = v.tasks :=
      (enqueueQueued_tasks _).trans setState_tasks
    exact h.idle t (htasks ▸ ht)

theorem folderClash (h : Between u v) (hi : u.tree.IsDir i) (hq : (v.items i).state = .queued)
    (existing : Option FileEntry) : Between u (v.folderClash i existing) := by
  have hfound : Between u (v.edit i fun item =>
      { item with existing, typeClash := true, late := true }) :=
    h.moves (Moves.note .refl fun _ => by rfl)
  have hi' : i < v.tree.size := h.tree ▸ hi.1
  have hopen : ¬((v.edit i fun item =>
      { item with existing, typeClash := true, late := true }).items i).ended := by
    simp [edit, Item.ended, hq]
  unfold Upload.folderClash
  dsimp only
  split
  · exact hfound.moves (Moves.skip _ .refl hi' fun _ => hopen)
  · have hresolved := hfound.moves (.single (.keepBoth i))
    exact ⟨hresolved.turns.tail (.pushFolder i (hresolved.tree ▸ hi)), hresolved.creating,
      hresolved.idle⟩
  · exact hfound.moves (.single (.stop i .conflict hi' (by decide) (by simp) fun _ => hopen))
  · exact hfound.moves (.single (.stop i .conflict hi' (by decide) (by simp) fun _ => hopen))

theorem folderResult (h : Between u v) (hi : u.tree.IsDir i) (path : HostPath)
    (result : FolderResult) : Between u (v.folderResult i path result) := by
  unfold Upload.folderResult
  split
  · next hq =>
    cases result with
    | created => exact h.folderPlaced hi path .created
    | merged => exact h.folderPlaced hi path .merged
    | clash existing => exact h.folderClash hi hq existing
    | failed =>
      exact h.moves (Moves.failSubtree _ .refl (h.tree ▸ hi.1) fun _ => by simp [Item.ended, hq])
  · exact h

theorem failSubtree (fuel : ℕ) (h : Between u v) (hi : i < u.tree.size) :
    Between u (failSubtree fuel v i) := by
  cases fuel with
  | zero => exact h
  | succ fuel =>
    have hfailed : Between u (v.setState i .failed) :=
      ⟨h.turns.tail (.failEnded i (h.tree ▸ hi)), setState_creatingFolders.trans h.creating,
        fun t ht => h.idle t (setState_tasks ▸ ht)⟩
    exact hfailed.moves (Moves.failChildren fuel .refl)

end Between

namespace Turns

variable {u v w : Upload} {i : ℕ}

theorem moves (h : Turns u v) (hm : Moves v w) : Turns u w := h.trans hm.turns

theorem ended (h : Turns u v) (hn : ∀ t ∈ v.tasks, t.isFolders = false) (busy : ℕ) :
    Turns u { v with creatingFolders := false, busy } := by
  have hended : Turns u { v with creatingFolders := false } := h.tail (.folders false hn)
  exact hended.moves (.single (.aside busy v.linkDropped))

theorem foldersLoop (h : Between u v) : Turns u v.foldersLoop := by
  -- The connection may as well be seen to before the batch is taken.
  have hbatch : ∀ (w : Upload) (held : Option Backend), Between u w → ∀ t : Task,
      (∀ i, t.replaces i = false) →
      Turns u ({ w with calls := w.calls ++ [t] }.takeBatch held) := by
    intro w held hw t ht
    have hrecorded := hw.moves (Moves.record .refl ht)
    exact hrecorded.turns.tail (.takeBatch held hrecorded.creating hrecorded.idle)
  have hreleased : Between u v.releaseBackend := h.moves (.single .release)
  unfold Upload.foldersLoop
  split
  · exact ended h.turns h.idle _
  · unfold awaitBackend backendOf
    split
    · split
      · exact hbatch v.releaseBackend none hreleased _ fun _ => by rfl
      · exact hbatch v _ h _ fun _ => by rfl
    · exact hbatch v.releaseBackend none hreleased _ fun _ => by rfl

theorem createFolders (hn : ∀ t ∈ u.tasks, t.isFolders = false) : Turns u u.createFolders := by
  have hbegun : Turns u { u with creatingFolders := true } := .single (.folders true hn)
  exact foldersLoop ⟨hbegun.moves (.single (.aside _ _)), rfl, hn⟩

variable {rest : List ℕ}

theorem keepBothFolder (h : Between u v) (n : ℕ) (hi : u.tree.IsDir i)
    (hrest : ∀ j ∈ rest, u.tree.IsDir j) : Turns u (v.keepBothFolder i n rest) :=
  h.turns.tail (.callFolders _ (h.tree ▸ ⟨hi, hrest⟩) rfl h.creating h.idle)

theorem keepBothFolders (h : Between u v) (hrest : ∀ j ∈ rest, u.tree.IsDir j) :
    Turns u (v.keepBothFolders rest) := by
  induction rest with
  | nil => exact foldersLoop h
  | cons i rest ih =>
    obtain ⟨hi, hrest⟩ := forall_mem_cons.mp hrest
    unfold Upload.keepBothFolders
    split
    · exact keepBothFolder h 1 hi hrest
    · exact ih hrest

theorem foldersMade {batch plain : List ℕ} (h : Between u u) (paths : List HostPath)
    (results : List FolderResult) (hb : ∀ i ∈ batch, u.tree.IsDir i) (hp : plain ⊆ batch) :
    Turns u (u.foldersMade batch plain paths results) := by
  refine keepBothFolders (foldlRecOn (motive := Between u) _ _ h ?_) ?_
  · intro w hw made hmade
    exact hw.folderResult (hb _ (hp (of_mem_zip hmade).1)) _ _
  · intro j hj
    exact hb j (mem_of_mem_filter hj)

theorem keepBothAnswered (h : Between u u) (n : ℕ) (path : HostPath)
    (hi : u.tree.IsDir i) (hrest : ∀ j ∈ rest, u.tree.IsDir j) (result : FolderResult) :
    Turns u (u.keepBothAnswered i n path rest result) := by
  have hfailed := keepBothFolders (h.failSubtree u.tree.size hi.1) hrest
  cases result with
  | created =>
    have hnamed : Between u (u.edit i fun item =>
        { item with finalName := some (keepBothName (u.tree.name i) n .dir) }) :=
      ⟨.single (.nameFolder i _ hi), h.creating, h.idle⟩
    exact keepBothFolders (hnamed.folderPlaced hi path .keptBoth) hrest
  | failed => exact hfailed
  | merged | clash =>
    simp only [Upload.keepBothAnswered]
    split
    · exact keepBothFolder h _ hi hrest
    · exact hfailed

/-- The catch of `createFolders`, its queue given up. -/
theorem foldersFailed (hf : ∀ i ∈ u.folderQueue, i < u.tree.size)
    (hn : ∀ t ∈ u.tasks, t.isFolders = false) (interruption : Bool) :
    Turns { u with folderQueue := [] } (u.foldersFailed interruption) := by
  obtain ⟨v, hm, heq⟩ := Moves.foldersFailed hf interruption
  rw [heq]
  exact ended hm.turns (hm.isFolders hn) _

theorem requeueOne (h : Turns u s.1) (hi : i < u.tree.size) :
    Turns u (requeueOne s i).1 := by
  have habove : Turns u (s.1.requeueAbove s.2 (s.1.tree.foldersAbove i)).1 :=
    h.moves (Moves.requeueAbove .refl fun p hp => Moves.lt_size_of_mem_foldersAbove hp)
  unfold Upload.requeueOne
  dsimp only
  split
  · exact habove
  · unfold requeue
    have hi' : i < ((s.1.requeueAbove s.2 (s.1.tree.foldersAbove i)).1).tree.size :=
      (Turns.tree habove).symm ▸ hi
    split
    · next hfile => exact habove.moves (Moves.place .refl ⟨hi', hfile.1⟩)
    · exact habove.tail (.queueEnded i hi')

/-- A retry that reached its host queues again what it was asked for, whatever that is at by
now. -/
theorem requeueAll (h : Turns u v) (ha : ∀ i ∈ again, i < u.tree.size) :
    Turns u (v.requeueAll again) := by
  have hloop : Turns u (again.foldl Upload.requeueOne (v, [])).1 :=
    List.foldlRecOn (motive := fun s : Upload × List ℕ => Turns u s.1) again _ h
      fun s hs i hi => requeueOne hs (ha i hi)
  unfold Upload.requeueAll
  dsimp only
  split
  · exact hloop.moves (.single .rebuild)
  · exact hloop

/-- What follows an await of `createFolders`. -/
theorem answer_cases (hk : u.Kinded)
    (ht : t.Names u.tree) (hf : t.isFolders = true) (hc : u.creatingFolders = true)
    (hn : ∀ t ∈ u.tasks, t.isFolders = false) (hw : u.answer random t a = some w) :
    Turns u w ∨ ∃ k, a = .fault k ∧ w = u.foldersFailed k ∧
      Turns { u with folderQueue := [] } w := by
  cases FoldersGo.of_answer hf hw with
  | threw k =>
    exact .inr ⟨k, rfl, rfl, foldersFailed (fun i hi => (hk.folderQueue i hi).1) hn k⟩
  | reached hv =>
    refine .inl (hv.moves.turns.tail (.callFolders _ ?_ rfl (hv.moves.creatingFolders.trans hc)
      (hv.moves.isFolders hn)))
    rw [hv.moves.tree]
    exact ⟨ht.1, ht.2, length_map _⟩
  | made => exact .inl (foldersMade (.refl hc hn) _ _ ht.1 ht.2.1)
  | keptBoth => exact .inl (keepBothAnswered (.refl hc hn) _ _ ht.1 ht.2 _)

end Turns

/-! ### More than moves -/

variable {P : Upload → Prop}

namespace Upload

variable {u : Upload} {i : ℕ} {state : ItemState}

@[simp] theorem setState_queue : (u.setState i state).queue = u.queue := by
  obtain ⟨_, _, _, h⟩ := setState_shape u i state
  rw [h]
  rfl

@[simp] theorem awaitBackend_queue {t : Option Backend → Task} :
    (u.awaitBackend t).queue = u.queue := by
  unfold awaitBackend backendOf
  split
  · split <;> rfl
  · rfl

@[simp] theorem place_queue : (u.place i).queue = u.queue := by
  unfold place
  split
  · rfl
  · exact awaitBackend_queue.trans setState_queue

@[simp] theorem admitFile_queue : (u.admitFile i).queue = u.queue :=
  awaitBackend_queue.trans setState_queue

/-- What the file loop of `pump` does, turn by turn: it passes what is queued no more, places
what has all its bytes, and admits the rest. -/
theorem pumpFiles_rec (shift : ∀ v i rest, P v → v.queue = i :: rest → (v.items i).state ≠ .queued →
      P { v with queue := rest })
    (place : ∀ v i rest, P v → v.queue = i :: rest → (v.items i).state = .queued →
      (v.items i).tempWhole = true → P ({ v with queue := rest }.place i))
    (admits : ∀ v i rest, P v → v.queue = i :: rest → (v.items i).state = .queued →
      (v.items i).tempWhole = false → P ({ v with queue := rest }.admitFile i))
    (room : ℕ) {queue : List ℕ} (hq : u.queue = queue) (h : P u) : P (pumpFiles room u queue) := by
  induction queue generalizing room u with
  | nil => exact h
  | cons i rest ih =>
    unfold pumpFiles
    split
    · exact h
    · dsimp only
      split
      · next hstate => exact ih room rfl (shift u i rest h hq hstate)
      · next hstate =>
        split
        · next hwhole => exact ih room place_queue (place u i rest h hq (not_not.mp hstate) hwhole)
        · next hwhole =>
          exact ih (room - 1) admitFile_queue
            (admits u i rest h hq (not_not.mp hstate) (by simpa using hwhole))

end Upload

namespace Acts

variable {u v w : Upload} {i : ℕ}

theorem moves (h : Acts u v) (hm : Moves v w) : Acts u w := h.trans hm.acts

theorem receiving (hi : u.tree.IsFile i) (offset : ℕ) (data : List UInt8) :
    Acts u (u.receiving i offset data) := by
  unfold Upload.receiving
  dsimp only
  split
  · exact .refl
  · next s hs =>
    split
    · next hok =>
      have hcalled : Moves u { u with calls := u.calls ++ [.write i s offset data] } :=
        Moves.record .refl fun _ => by rfl
      exact (moves .refl hcalled).tail
        (.startWrite i s offset data hi hs hok.2.1 hok.2.2.1 hok.2.2.2.2)
    · exact .refl

theorem written (hi : u.tree.IsFile i) (s : ℕ) (data : List UInt8)
    (hw : ∀ t ∈ u.tasks, t.writesTo i = false) : Acts u (u.written i s data) := by
  unfold Upload.written
  dsimp only
  split
  · have hnoted := Moves.hashed data hw
    have hacked := hnoted.acts.tail (.acknowledge i data.length (hnoted.tree ▸ hi))
    split
    · refine hacked.trans (Moves.acts (Moves.finishFile .refl ?_))
      rw [Acts.tree hacked]
      exact hi
    · exact hacked
  · exact (Moves.afterStop (.single (.endWrite i hw)) hi _).acts

theorem changedFile_cases (u : Upload) (file : ResumeFile) :
    Moves u (u.changedFile file) ∨
      ∃ (i size : ℕ) (mtime : Option ℕ) (v : Upload), file = .restart i size mtime ∧
        u.tree.IsFile i ∧ (u.items i).resumable ∧ Moves u v ∧ (v.items i).acked = 0 ∧
        u.changedFile file = v.resize i size mtime := by
  unfold changedFile
  split
  · refine .inl ?_
    split
    · next hfile =>
      exact Moves.skip _ .refl hfile.1 fun hdir =>
        absurd hdir (UploadTree.IsFile.not_isDir ⟨hfile.1, hfile.2.1⟩)
    · exact .refl
  · split
    · next i size mtime hfile =>
      have hi : u.tree.IsFile i := ⟨hfile.1, hfile.2.1⟩
      have hrestarted : Moves u (u.restartFile i) := Moves.restartFile .refl hi
      have hzero : ((u.restartFile i).items i).acked = 0 := by
        rw [restartFile, edit_items, if_pos rfl, addAcked_items, if_pos rfl]
        exact Int.add_right_neg _
      refine .inr ⟨i, size, mtime, _, rfl, hi, hfile.2.2, ?_, ?_, rfl⟩
      · split
        · exact hrestarted
        · exact hrestarted.call hi.1 fun _ => by rfl
      · split <;> exact hzero
    · exact .inl .refl

theorem changedFile (h : Acts u v) (file : ResumeFile) : Acts u (v.changedFile file) := by
  rcases changedFile_cases v file with hm | ⟨i, size, mtime, w, -, hi, -, hw, -, heq⟩
  · exact h.moves hm
  · rw [heq]
    exact (h.moves hw).tail (.resize i size mtime (hw.tree ▸ hi))

theorem changedFiles (h : Acts u v) (files : List ResumeFile) :
    Acts u (files.foldl Upload.changedFile v) :=
  foldlRecOn (motive := Acts u) files _ h fun _ hw file _ => changedFile hw file

theorem takeUpReached (h : Acts u v) (hk : u.Kinded) (requester : String)
    (files : List ResumeFile) : Acts u (v.takeUpReached requester files) := by
  have hchanged := h.changedFiles files
  exact hchanged.moves (Moves.lookUp .refl (hk.acts hchanged) requester)

theorem conflictFound (hi : u.tree.IsFile i) (existing : Option FileEntry) :
    Acts u (u.conflictFound i existing) := by
  rcases Moves.conflictFound_cases .refl hi existing with
    hm | ⟨-, -, w, hw, hpolicy, hclash, hm⟩
  · exact hm.acts
  · exact Acts.moves (hw.acts.tail (.resolve i hpolicy hclash fun hdir =>
      absurd (hw.tree ▸ hdir) hi.not_isDir)) hm

theorem placeReached (h : Acts u v) (hi : u.tree.IsFile i) : Acts u (v.placeReached i) := by
  have hi' : v.tree.IsFile i := Acts.tree h ▸ hi
  rcases Moves.placeReached_cases hi' with hm | ⟨hr, temp, target, heq⟩
  · exact h.moves hm
  · rw [heq]
    exact h.tail (.placeOver i temp target hi' hr)

/-- What follows an await, but for `createFolders`, a retry that reached its host, and the end of
a `takeUp`. -/
theorem answer (hk : u.Kinded) (ht : t.Names u.tree)
    (hwrites : ∀ i, t.writesTo i → ∀ t' ∈ u.tasks, t'.writesTo i = false)
    (hf : t.isFolders = false) (hr : ∀ again, t = .retryConnect again → a ≠ .done)
    (hl : ∀ requester, t ≠ .looked requester)
    (hw : u.answer random t a = some w) : Acts u w := by
  by_cases hs : t.Special a
  · unfold Task.Special at hs
    split at hs
    · cases a with
      | done =>
        cases hw
        exact receiving ht _ _
      | _ => cases hw
    · cases hw
      exact written ht _ _ (hwrites _ (by simp [Task.writesTo]))
    · next o n path existing =>
      obtain rfl : n = 0 := hs
      cases hw
      have hfound := conflictFound ht existing
      refine hfound.moves (Moves.await .refl ?_ fun _ => by rfl)
      exact (Acts.tree hfound).symm ▸ ht
    · cases hw
      exact (conflictFound ht _).moves (.single (.aside _ _))
    · exact hs.elim
    · next i held hfault =>
      obtain ⟨v, b, hv, rfl⟩ :=
        Moves.backend_reached hfault ((answer_placeBackend ..).symm.trans hw)
      exact placeReached hv.moves.acts ht
    · exact hs.elim
    · next requester files held hfault =>
      obtain ⟨v, b, hv, rfl⟩ :=
        Moves.backend_reached hfault ((answer_takeUpBackend ..).symm.trans hw)
      exact takeUpReached hv.moves.acts hk _ _
    · cases hf
    · cases hf
    · cases hf
    · next again => exact absurd rfl (hr again rfl)
    · next requester => exact absurd rfl (hl requester)
    · exact hs.elim
  · exact (Moves.answer hk ht hwrites hs hw).acts

/-- A window's answer is noted for an item in conflict, which is then queued again or placed;
or it is moves. -/
theorem resolveItem_cases (u : Upload) (hi : i < u.tree.size) (action : Action) :
    Moves u (resolveItem action u i) ∨
      (u.items i).state = .conflict ∧ (action = .replace → (u.items i).typeClash = false) ∧
      resolveItem action u i = (u.noteAnswer i action).requeue i ∧
      Moves (u.noteAnswer i action) ((u.noteAnswer i action).requeue i) := by
  unfold resolveItem
  split
  · exact .inl .refl
  · next hconflict =>
    split
    · exact .inl .refl
    · next hclash =>
      have hopen : ¬(u.items i).ended := by simp [Item.ended, not_not.mp hconflict]
      split
      · exact .inl (Moves.skip _ .refl hi fun _ => hopen)
      · refine .inr ⟨not_not.mp hconflict, fun hreplace => ?_, rfl,
          Moves.requeue .refl hi fun _ => ?_⟩
        · simpa [hreplace] using hclash
        · simpa [noteAnswer, edit, Item.ended] using hopen

theorem resolveItem (h : Acts u v) (hi : i < v.tree.size) (action : Action) :
    Acts u (resolveItem action v i) := by
  rcases resolveItem_cases v hi action with hm | ⟨hconflict, hclash, heq, hm⟩
  · exact h.moves hm
  · rw [heq]
    exact Acts.moves (h.tail (.noteAnswer i action hconflict hclash)) hm

/-- The loop of `resolve`, turn by turn. -/
theorem resolve_rec (scope : Option ℕ) (action : Action) (h : P u)
    (hP : ∀ v i, P v → i < v.tree.size → P (Upload.resolveItem action v i)) :
    P (u.resolve scope action) := by
  unfold resolve
  split
  · exact h
  · next ids hids =>
    split
    · exact h
    · refine (foldlRecOn (motive := fun v : Upload => P v ∧ Acts u v) ids _
        ⟨h, .refl⟩ ?_).1
      intro v hv i hi
      have hlt : i < v.tree.size :=
        Acts.tree hv.2 ▸ lt_size_of_mem_scopedItems hids hi
      exact ⟨hP v i hv.1 hlt, resolveItem hv.2 hlt action⟩

theorem resolve (u : Upload) (scope : Option ℕ) (action : Action) :
    Acts u (u.resolve scope action) :=
  resolve_rec (P := Acts u) scope action .refl fun _ _ hv hi => resolveItem hv hi action

theorem applyPolicyTo_cases (u : Upload) (hi : i < u.tree.size) :
    Moves u (u.applyPolicyTo i) ∨ u.onConflict = .replace ∧ (u.items i).typeClash = false ∧
      u.applyPolicyTo i = u.edit i fun item => { item with resolution := some .replace } := by
  unfold applyPolicyTo
  dsimp only
  split
  · exact .inl .refl
  · next hneither =>
    have hqueued : (u.items i).state = .queued := by
      by_contra hnot
      exact hneither (.inr hnot)
    have hopen : ¬(u.items i).ended := by simp [Item.ended, hqueued]
    split
    · exact .inl (Moves.skip _ .refl hi fun _ => hopen)
    · exact .inl (.single (.keepBoth i))
    · next hpolicy =>
      split
      · exact .inl (Moves.stop .refl hi (by decide) fun _ => hopen)
      · next hclash => exact .inr ⟨hpolicy, by simpa using hclash, rfl⟩
    · exact .inl (Moves.stop .refl hi (by decide) fun _ => hopen)

theorem applyPolicyTo (h : Acts u v) (hi : i < v.tree.size)
    (hn : ∀ t ∈ v.tasks, t.isFolders = false) :
    Acts u (v.applyPolicyTo i) ∧ ∀ t ∈ (v.applyPolicyTo i).tasks, t.isFolders = false := by
  rcases applyPolicyTo_cases v hi with hm | ⟨hpolicy, hclash, heq⟩
  · exact ⟨h.moves hm, hm.isFolders hn⟩
  · rw [heq]
    exact ⟨h.tail (.resolve i hpolicy hclash fun _ => hn), hn⟩

/-- The loop of `applyPolicy`, turn by turn. -/
theorem applyPolicy_rec (h : P u)
    (hP : ∀ v i, P v → i < v.tree.size → P (v.applyPolicyTo i)) : P u.applyPolicy := by
  refine (foldlRecOn (motive := fun v : Upload => P v ∧ v.tree = u.tree) u.tree.order _
    ⟨h, rfl⟩ ?_).1
  rintro v ⟨hv, htree⟩ i hi
  have hlt : i < v.tree.size := htree ▸ mem_order.mp hi
  refine ⟨hP v i hv hlt, htree ▸ ?_⟩
  rcases applyPolicyTo_cases v hlt with hm | ⟨-, -, heq⟩
  · exact hm.tree
  · rw [heq]
    rfl

theorem applyPolicy (ht : u.tasks = []) : Acts u u.applyPolicy := by
  refine (applyPolicy_rec (P := fun v => Acts u v ∧ ∀ t ∈ v.tasks, t.isFolders = false)
    ⟨.refl, ?_⟩ fun _ _ hv hi => applyPolicyTo hv.1 hi hv.2).1
  rw [ht]
  exact forall_mem_nil _

end Acts

/-- What an operation comes to: moves, once its window is noted, or one of those that are more. -/
inductive Upload.Performed (u : Upload) : Op → Upload → Prop
  | resolve (scope : Option ℕ) (action : Action) :
      Performed u (.resolve scope action) (u.resolve scope action)
  | pump (room : ℕ) (mayWrite : Bool) : Performed u (.pump room mayWrite) (u.pump room mayWrite)
  | drop : Performed u .drop u.drop
  | forget : Performed u .forget { u with dropped := true }
  | source {op : Op} {w : Upload} (source : Option String) (hm : Moves { u with source } w) :
      Performed u op w
  | moves {op : Op} {w : Upload} (hm : Moves u w) : Performed u op w

theorem Upload.Performed.of_perform (hw : u.perform op = some w) : u.Performed op w := by
  cases op with
  | resolve scope action =>
    cases hw
    exact .resolve scope action
  | pump room mayWrite =>
    cases hw
    exact .pump room mayWrite
  | drop =>
    cases hw
    exact .drop
  | join requester =>
    obtain ⟨-, ⟨rfl⟩⟩ := ite_none_right_eq_some.mp hw
    exact .source _ (Moves.join u requester)
  | clientGone client =>
    cases hw
    rcases Moves.clientGone_cases u client with heq | ⟨-, hm⟩
    · rw [heq]
      exact .moves .refl
    · exact .source _ hm
  | forget =>
    obtain ⟨-, ⟨rfl⟩⟩ := ite_none_right_eq_some.mp hw
    exact .forget
  | _ => exact .moves (Moves.perform (by simp [Op.Special]) hw)

namespace Passes

variable {u v : Upload} {i : ℕ}

theorem admitFile (h : Passes u v) (hi : v.tree.IsFile i) (hq : (v.items i).state = .queued) :
    Passes u (v.admitFile i) := by
  have hsending : Passes u (v.setState i .sending) := h.tail (.admits i hi hq)
  have hi' : (v.setState i .sending).tree.IsFile i := by rwa [setState_tree]
  have hopening : Moves (v.setState i .sending) (v.admitFile i) :=
    Moves.awaitBackend .refl (fun _ => hi') fun _ _ => by rfl
  exact hsending.trans hopening.passes

/-- The file loop of `pump`. -/
theorem pumpFiles (room : ℕ) (hk : u.Kinded) : Passes u (pumpFiles room u u.queue) := by
  have hfile : ∀ (w : Upload) (i : ℕ) (rest : List ℕ), Passes u w → w.queue = i :: rest →
      w.tree.IsFile i := fun w i rest hw hq => (hk.passes hw).queue i (hq ▸ mem_cons_self)
  have htaken : ∀ (w : Upload) (i : ℕ) (rest : List ℕ), Passes u w → w.queue = i :: rest →
      Passes u { w with queue := rest } := fun w i rest hw hq => hw.tail (.takes i rest hq)
  refine pumpFiles_rec (P := Passes u) ?_ ?_ ?_ room rfl .refl
  · exact fun w i rest hw hq _ => htaken w i rest hw hq
  · intro w i rest hw hq _ _
    have hplaced : Moves { w with queue := rest } ({ w with queue := rest }.place i) :=
      Moves.place .refl (hfile w i rest hw hq)
    exact (htaken w i rest hw hq).trans hplaced.passes
  · intro w i rest hw hq hqueued _
    exact admitFile (htaken w i rest hw hq) (hfile w i rest hw hq) hqueued

/-- `pump` begins `createFolders`, or not, and then sees to files. -/
theorem pump_cases (hk : u.Kinded) (room : ℕ) (mayWrite : Bool) :
    Passes u (u.pump room mayWrite) ∨ u.creatingFolders = false ∧
      Passes u.createFolders (u.pump room mayWrite) := by
  have hfiles : ∀ v : Upload, v.Kinded →
      Passes v (if v.source.isSome ∧ mayWrite then Upload.pumpFiles room v v.queue else v) := by
    intro v hv
    split
    · exact pumpFiles room hv
    · exact .refl
  unfold pump
  split
  · next hfolders =>
    have hcreate := Turns.createFolders (hk.isFolders hfolders.2)
    exact .inr ⟨hfolders.2, hfiles _ (hk.changes hcreate.changes)⟩
  · exact .inl (hfiles _ hk)

end Passes

namespace Changes

variable {u w : Upload} {i : ℕ}

theorem erase (u : Upload) (t : Task) : Changes u { u with tasks := u.tasks.erase t } :=
  .single (.shed _ _ _ _ (Subset.refl _) (Subset.refl _) (fun _ => Subset.refl _)
    erase_sublist)

/-- What follows an await of `createFolders`. -/
theorem answerFolders (hk : u.Kinded)
    (ht : t.Names u.tree) (hf : t.isFolders = true) (hc : u.creatingFolders = true)
    (hn : ∀ t ∈ u.tasks, t.isFolders = false) (hw : u.answer random t a = some w) :
    Changes u w := by
  rcases Turns.answer_cases hk ht hf hc hn hw with hturns | ⟨k, -, -, hturns⟩
  · exact hturns.changes
  · have hshed : Changes u { u with folderQueue := [] } :=
      .single (.shed u.queue [] u.waiting u.tasks (Subset.refl _) (nil_subset _)
        (fun _ => Subset.refl _) (Sublist.refl _))
    exact hshed.trans hturns.changes

theorem ofSource {source : Option String} (h : Moves { u with source } w) : Changes u w :=
  .trans (.single (.source source)) h.changes

theorem looked {requester : String}
    (hw : u.answer random (.looked requester) a = some w) : Changes u w := by
  cases a with
  | done =>
    cases hw
    rcases Moves.takenUp_cases u requester with ⟨-, hm⟩ | ⟨-, hm⟩
    · exact hm.changes
    · exact ofSource hm
  | _ => cases hw

/-- Every answer is made of changes. -/
theorem answer (hk : u.Kinded) (ht : t.Names u.tree)
    (hwrites : ∀ i, t.writesTo i → ∀ t' ∈ u.tasks, t'.writesTo i = false)
    (hfolders : t.isFolders = true →
      u.creatingFolders = true ∧ ∀ t' ∈ u.tasks, t'.isFolders = false)
    (hw : u.answer random t a = some w) : Changes u w := by
  cases hf : t.isFolders with
  | true => exact answerFolders hk ht hf (hfolders hf).1 (hfolders hf).2 hw
  | false =>
    by_cases hr : ∃ again, t = .retryConnect again ∧ a = .done
    · obtain ⟨again, rfl, rfl⟩ := hr
      cases hw
      exact (Turns.requeueAll .refl ht).changes
    · by_cases hl : ∃ requester, t = .looked requester
      · obtain ⟨requester, rfl⟩ := hl
        exact looked hw
      · exact (Acts.answer hk ht hwrites hf (fun again heq hdone => hr ⟨again, heq, hdone⟩)
          (fun requester heq => hl ⟨requester, heq⟩) hw).changes

theorem answered (hk : u.Kinded) (ht : t ∈ u.tasks)
    (hw : { u with tasks := u.tasks.erase t }.answer random t a = some w) : Changes u w :=
  (erase u t).trans (answer (hk.changes (erase u t)) (hk.tasks t ht)
    (fun _ hi => hk.writes_erase ht hi) (fun hf => hk.folders_erase ht hf) hw)

theorem pump (hk : u.Kinded) (room : ℕ) (mayWrite : Bool) : Changes u (u.pump room mayWrite) := by
  rcases Passes.pump_cases hk room mayWrite with hpasses | ⟨hc, hpasses⟩
  · exact hpasses.changes
  · exact (Turns.createFolders (hk.isFolders hc)).changes.trans hpasses.changes

/-- What a window, a host or a timer begins, but for `drop`. -/
theorem perform (hk : u.Kinded) (hdrop : op ≠ .drop)
    (hw : u.perform op = some w) : Changes u w := by
  cases Performed.of_perform hw with
  | resolve scope action => exact (Acts.resolve u scope action).changes
  | pump room mayWrite => exact pump hk room mayWrite
  | drop => exact absurd rfl hdrop
  | forget => exact .single .forget
  | source source hm => exact ofSource hm
  | moves hm => exact hm.acts.changes

end Changes

/-! ### Dropping an upload -/

theorem Moves.dropItem {i : ℕ} (hi : i < u.tree.size) : Moves (u.edit i fun item =>
      { item with sink := none, state := if item.state.unsettled then .cancelled else item.state })
      (u.dropItem i) := by
  unfold Upload.dropItem
  dsimp only
  split
  · exact .refl
  · split
    · exact .refl
    · exact Moves.call .refl hi fun _ => by rfl

/-- The loop of `drop`, turn by turn. -/
theorem Upload.dropItems_rec (h : P u) (hP : ∀ v i, P v → i < v.tree.size → P (v.dropItem i)) :
    P ((range u.tree.size).foldl dropItem u) := by
  refine (foldlRecOn (motive := fun v : Upload => P v ∧ v.tree = u.tree) _ _ ⟨h, rfl⟩ ?_).1
  rintro v ⟨hv, htree⟩ i hi
  have hlt : i < v.tree.size := htree ▸ mem_range.mp hi
  exact ⟨hP v i hv hlt, (Moves.dropItem hlt).tree.trans htree⟩

/-! ### Queues and tasks by kind, along every run -/

namespace Upload

variable {u u' : Upload}

theorem Kinded.idle (hq : u.queue = []) (hf : u.folderQueue = [])
    (hw : ∀ p, u.waiting p = []) (ht : u.tasks = []) (hl : ∀ key, u.lookUps key = none) :
    u.Kinded where
  queue i hi := nomatch hq ▸ hi
  folderQueue i hi := nomatch hf ▸ hi
  waiting p i hi := nomatch hw p ▸ hi
  tasks t ht' := nomatch ht ▸ ht'
  lookUps key l hkey := nomatch (hl key).symm.trans hkey
  writes i := by
    rw [ht]
    exact Nat.zero_le _
  folders := by
    rw [ht]
    exact Nat.zero_le _

theorem Kinded.drop (h : u.Kinded) : u.drop.Kinded := by
  have hitems : ((range u.tree.size).foldl dropItem u).Kinded := by
    refine dropItems_rec h fun v i hv hi => ?_
    exact (hv.edit rfl).moves (Moves.dropItem hi)
  have hempty := hitems.shed (nil_subset _) (nil_subset _) (fun _ => nil_subset _)
    (Sublist.refl _)
  have hforgotten := hempty.changes (.single .forget)
  exact hforgotten.move .release

theorem drop_tree : u.drop.tree = u.tree :=
  dropItems_rec (P := fun v => v.tree = u.tree) rfl
    fun _ _ hv hi => (Moves.dropItem hi).tree.trans hv

theorem perform_tree (h : u.Kinded) {op : Op} (hw : u.perform op = some u') :
    u'.tree = u.tree := by
  by_cases hdrop : op = .drop
  · subst hdrop
    cases hw
    exact drop_tree
  · exact Changes.tree (Changes.perform h hdrop hw)

theorem Kinded.perform (h : u.Kinded) {op : Op} (hw : u.perform op = some u') : u'.Kinded := by
  by_cases hdrop : op = .drop
  · subst hdrop
    cases hw
    exact h.drop
  · exact h.changes (Changes.perform h hdrop hw)

theorem Kinded.reconnected (h : u.Kinded) (backend : Option Backend) : { u with backend }.Kinded :=
  { h with queue := h.queue }

variable {tree : UploadTree} {onConflict : Policy} {verify : Bool} {items : ℕ → Item}
  {source : Option String} {backend : Option Backend}

theorem kinded_assemble : (assemble tree onConflict verify items source backend).Kinded := by
  obtain ⟨_, _, _, h⟩ := assemble_shape tree onConflict verify items source backend
  rw [h]
  exact .idle rfl rfl (fun _ => rfl) rfl fun _ => rfl

theorem Kinded.restored (h : u.Kinded) {calls : List Task} {answers : List (ℕ × Action × Bool)} :
    { u with calls, answers }.Kinded :=
  { h with queue := h.queue }

theorem kinded_bringBack {rows : ℕ → Row} : (bringBack tree onConflict verify rows).Kinded := by
  have hassembled : ∀ items, (assemble tree onConflict verify items none none).Kinded :=
    fun _ => kinded_assemble
  exact { hassembled _ with queue := (hassembled _).queue }

end Upload

/-- An upload brought back is idle, and its items are those of its rows, its folders where they
were. -/
theorem bringBack_shape (tree : UploadTree) (onConflict : Policy) (verify : Bool)
    (rows : ℕ → Row) : ∃ folderTotals totals folderStates,
      bringBack tree onConflict verify rows =
        { tree, onConflict, verify, folderTotals, totals, folderStates
          items := tree.order.foldl (folderPath tree) fun i => (rows i).item (tree.kind i)
          source := none
          backend := none
          queue := []
          folderQueue := []
          creatingFolders := false
          waiting := fun _ => []
          busy := 0
          linkDropped := false
          stale := true
          dropped := false
          tasks := []
          calls := []
          answers := []
          leases := []
          lookUps := fun _ => none
          nextKey := 1 } := by
  obtain ⟨folderTotals, totals, folderStates, h⟩ := assemble_shape tree onConflict verify
    (tree.order.foldl (folderPath tree) fun i => (rows i).item (tree.kind i)) none none
  exact ⟨folderTotals, totals, folderStates, by simp only [bringBack, h]; rfl⟩

theorem Start.kinded (start : Start) : start.service.upload.Kinded :=
  (kinded_assemble.acts (Acts.applyPolicy assemble_tasks)).moves
    (Moves.enqueueReadyTop .refl)

theorem kinded_next {s s' : Service} {step : Step} (h : s.upload.Kinded)
    (hn : next s step = some s') : s'.upload.Kinded := by
  cases Stepped.of_next hn with
  | work op u _ hu => exact h.perform hu
  | answer t a random u ht hu => exact h.changes (Changes.answered h ht hu)
  | lost => exact h.reconnected _
  | save => exact h
  | discard => exact h.drop
  | restart => exact kinded_bringBack.restored

theorem tree_next {s s' : Service} {step : Step} (h : s.upload.Kinded)
    (hn : next s step = some s') : s'.upload.tree = s.upload.tree := by
  cases Stepped.of_next hn with
  | work op u _ hu => exact perform_tree h hu
  | answer t a random u ht hu => exact Changes.tree (Changes.answered h ht hu)
  | lost => rfl
  | save => rfl
  | discard => exact drop_tree
  | restart =>
    obtain ⟨_, _, _, hshape⟩ := bringBack_shape s.upload.tree s.upload.onConflict
      s.upload.verify s.rows
    rw [hshape]

theorem kinded_of_run {ok : Service → Step → Prop} (start : Start) {s : Service}
    (h : Run next ok start.service s) : s.upload.Kinded :=
  h.invariant (I := fun s => s.upload.Kinded) start.kinded fun _ _ _ hs _ hn => kinded_next hs hn

end Lasterm.Transfer.Uploads
