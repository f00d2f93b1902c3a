import Lasterm.Transfer.UploadTotals

/-!
# Files a window sends at the same time

A window sends the files of any number of uploads, at most `maxConcurrent` of them at once.
`pump` sees to it when it lets a file be sent: it counts what each window sends, over all uploads,
and goes on while there is room (`transfers/transfer-service.ts`).  Nothing else lets a file be
sent, but a resume that had to wait for its host gives an upload another window at its end, with
files of it being sent.

## Main definitions

* `Hub` — the uploads; `FitsWindow` — the resumes that end without that.

## Main results

* `sentTo_le_of_fitsWindow` — the limit, in every run whose resumes all do.
* `sent_past_limit_by_resume` — a run with one that does not.
-/

namespace Lasterm.Transfer.Uploads

open Transition Relation Tally List Function Option

/-! ### Files being sent -/

/-- The files being sent. -/
def Upload.sendingFiles (u : Upload) : Finset ℕ := {i ∈ u.tree.files | (u.items i).state = .sending}

/-- The upload is its window's as before, and nothing is sent that was not. -/
structure Ebbs (u v : Upload) : Prop where
  tree : v.tree = u.tree
  standing : v.standing = u.standing
  sending : ∀ i, (v.items i).state = .sending → (u.items i).state = .sending

namespace Ebbs

variable {u v w : Upload} {i : ℕ}

theorem refl (u : Upload) : Ebbs u u := ⟨rfl, rfl, fun _ => id⟩

theorem trans (h : Ebbs u v) (h' : Ebbs v w) : Ebbs u w :=
  ⟨h'.tree.trans h.tree, h'.standing.trans h.standing, fun i hi => h.sending i (h'.sending i hi)⟩

theorem source (h : Ebbs u v) : v.source = u.source := congrArg Prod.fst h.standing

theorem dropped (h : Ebbs u v) : v.dropped = u.dropped := congrArg Prod.snd h.standing

theorem card_le (h : Ebbs u v) : v.sendingFiles.card ≤ u.sendingFiles.card := by
  refine Finset.card_le_card fun i hi => ?_
  simp only [Upload.sendingFiles, h.tree, Finset.mem_filter] at hi ⊢
  exact ⟨hi.1, h.sending i hi.2⟩

theorem edit_sending {f : Item → Item} (hf : (f (u.items i)).state = (u.items i).state) (j : ℕ)
    (hj : ((u.edit i f).items j).state = .sending) : (u.items j).state = .sending := by
  rw [Upload.edit_items] at hj
  split at hj
  · next hji => rwa [hji, ← hf]
  · exact hj

theorem setState_sending {state : ItemState} (hs : state ≠ .sending) (j : ℕ)
    (hj : ((u.setState i state).items j).state = .sending) : (u.items j).state = .sending := by
  rw [Upload.setState_items] at hj
  split at hj
  · exact absurd hj hs
  · exact hj

theorem addAcked_sending (delta : ℤ) (j : ℕ)
    (hj : ((u.addAcked i delta).items j).state = .sending) : (u.items j).state = .sending := by
  rw [Upload.addAcked_items] at hj
  split at hj
  · next hji => rwa [hji]
  · exact hj

end Ebbs

variable {u v : Upload}

theorem Move.ebbs (h : Move u v) : Ebbs u v := by
  refine ⟨h.tree, h.standing, ?_⟩
  cases h with
  | note i f hf => exact Ebbs.edit_sending (hf.state _)
  | noteSkipped | keepBoth | endWrite => exact Ebbs.edit_sending rfl
  | stop i state _ hs => exact Ebbs.setState_sending hs.2
  | restart => exact Ebbs.addAcked_sending _
  | enqueue =>
    rw [Upload.enqueue_items]
    exact fun _ => id
  | queueAgain =>
    rw [Upload.queueAgain, Upload.enqueue_items]
    exact Ebbs.setState_sending (by decide)
  | rebuild =>
    rw [Upload.rebuildQueues, Upload.enqueueReadyTop, Upload.enqueueQueued_items]
    exact fun _ => id
  | _ => exact fun _ => id

theorem Moves.ebbs (h : Moves u v) : Ebbs u v := by
  induction h with
  | refl => exact .refl u
  | tail _ hm ih => exact ih.trans hm.ebbs

theorem Acts.ebbs (h : Acts u v) : Ebbs u v := by
  induction h with
  | refl => exact .refl u
  | tail _ ha ih =>
    refine ih.trans ⟨ha.tree, ha.standing, ?_⟩
    cases ha with
    | move hm => exact hm.ebbs.sending
    | startWrite i =>
      exact Ebbs.edit_sending (i := i) (f := fun item => { item with writing := true }) rfl
    | acknowledge => exact Ebbs.addAcked_sending _
    | resize i size mtime =>
      intro j hj
      rw [Upload.resize_items] at hj
      split at hj
      · next hji => rwa [hji]
      · exact hj
    | resolve => exact Ebbs.edit_sending rfl
    | noteAnswer i action =>
      exact Ebbs.edit_sending (i := i) (f := fun item => { item with resolution := some action }) rfl
    | _ => exact fun _ => id

theorem Turns.ebbs (h : Turns u v) : Ebbs u v := by
  induction h with
  | refl => exact .refl u
  | tail _ ht ih =>
    refine ih.trans ⟨ht.tree, ht.standing, ?_⟩
    cases ht with
    | move hm => exact hm.ebbs.sending
    | placeFolder i =>
      intro j hj
      rw [Upload.folderPlaced_items] at hj
      split at hj
      · cases hj
      · exact hj
    | nameFolder => exact Ebbs.edit_sending rfl
    | failEnded => exact Ebbs.setState_sending (by decide)
    | queueEnded =>
      rw [Upload.queueAgain, Upload.enqueue_items]
      exact Ebbs.setState_sending (by decide)
    | _ => exact fun _ => id

/-! ### What a hub has -/

/-- The uploads of a hub, in the order of its map. -/
structure Hub where
  /-- How many files a window sends at once; the configuration takes no less than one. -/
  maxConcurrent : ℕ
  one_le : 1 ≤ maxConcurrent
  uploads : List Service

/-- The file loop of `pump`, with how many files the upload's window sends. -/
def Upload.pumpLoop (limit : ℕ) : ℕ → Upload → List ℕ → ℕ × Upload
  | sending, u, [] => (sending, u)
  | sending, u, i :: rest =>
    if sending < limit then
      let u := { u with queue := rest }
      if (u.items i).state ≠ .queued then pumpLoop limit sending u rest
      else if (u.items i).tempWhole then pumpLoop limit sending (u.place i) rest
      else pumpLoop limit (sending + 1) (u.admitFile i) rest
    else (sending, u)

/-- One turn of `pump`'s loop: an upload, with how many files each window sends. -/
def Upload.pumpUpload (limit : ℕ) (mayWrite : Bool) (sending : String → ℕ) (u : Upload) :
    (String → ℕ) × Upload :=
  let u := if u.folderQueue ≠ [] ∧ u.creatingFolders = false then u.createFolders else u
  match u.source with
  | none => (sending, u)
  | some window =>
    if mayWrite then
      let pumped := u.pumpLoop limit (sending window) u.queue
      (update sending window pumped.1, pumped.2)
    else (sending, u)

/-- The loop of `pump`; `mayWrite` says of which uploads the window may go on starting files. -/
def pumpUploads (limit : ℕ) : (String → ℕ) → List Bool → List Service → List Service
  | _, _, [] => []
  | sending, mayWrite, s :: rest =>
    if s.upload.dropped then s :: pumpUploads limit sending mayWrite.tail rest
    else
      let pumped := s.upload.pumpUpload limit (mayWrite.headD false) sending
      { s with upload := pumped.2 } :: pumpUploads limit pumped.1 mayWrite.tail rest

/-- How many files of an upload a window sends, by the upload's totals. -/
def Service.countedFor (window : String) (s : Service) : ℕ :=
  if s.upload.dropped = false ∧ s.upload.source = some window then
    (s.upload.totals.states.get .sending).getD 0
  else 0

/-- `pump`, over every upload. -/
def Hub.pump (hub : Hub) (mayWrite : List Bool) : Hub :=
  { hub with
    uploads := pumpUploads (max 1 hub.maxConcurrent)
      (fun window => (hub.uploads.map (Service.countedFor window)).sum) mayWrite hub.uploads }

/-- What can happen. -/
inductive HubStep
  | start (start : Start)
  /-- To one of its uploads; `pump` and a restart are of all. -/
  | upload (k : ℕ) (step : Step)
  | pump (mayWrite : List Bool)
  /-- It ends, and another brings its uploads back. -/
  | restart

/-- The step is one upload's alone. -/
def Step.single : Step → Bool
  | .work (.pump _ _) | .restart => false
  | _ => true

/-- The hub after a step. -/
def Hub.next (hub : Hub) : HubStep → Option Hub
  | .start start => some { hub with uploads := hub.uploads ++ [start.service] }
  | .upload k step =>
    if step.single then
      hub.uploads[k]?.bind fun s =>
        (Uploads.next s step).map fun s' => { hub with uploads := hub.uploads.set k s' }
    else none
  | .pump mayWrite => some (hub.pump mayWrite)
  | .restart =>
    some { hub with uploads := hub.uploads.filterMap fun s => Uploads.next s .restart }

/-- How many files of an upload a window sends. -/
def Service.sentTo (window : String) (s : Service) : ℕ :=
  if s.upload.source = some window then s.upload.sendingFiles.card else 0

/-- How many files a window sends. -/
def Hub.sentTo (hub : Hub) (window : String) : ℕ :=
  (hub.uploads.map (Service.sentTo window)).sum

/-! ### Nothing is sent for nobody -/

/-- No file is sent of an upload that has no window, or is dropped. -/
def Upload.Still (u : Upload) : Prop :=
  u.source = none ∨ u.dropped = true → ∀ i, u.tree.IsFile i → (u.items i).state ≠ .sending

theorem Upload.Still.ebbs (h : u.Still) (he : Ebbs u v) : v.Still := by
  intro hv i hi hsending
  rw [he.source, he.dropped] at hv
  exact h hv i (he.tree ▸ hi) (he.sending i hsending)

namespace Ebbs

variable {u : Upload} {i : ℕ}

theorem foldl_stops {f : Upload → ℕ → Upload} {l : List ℕ} (hl : ∀ i ∈ l, i < u.tree.size)
    (hf : ∀ v i, i < v.tree.size → Ebbs v (f v i) ∧ ((f v i).items i).state ≠ .sending) :
    Ebbs u (l.foldl f u) ∧ ∀ i ∈ l, ((l.foldl f u).items i).state ≠ .sending := by
  induction l generalizing u with
  | nil => exact ⟨.refl u, nofun⟩
  | cons i l ih =>
    obtain ⟨hi, hl⟩ := forall_mem_cons.mp hl
    obtain ⟨hebbs, hstopped⟩ := hf u i hi
    obtain ⟨hrest, hall⟩ := ih (u := f u i) fun j hj => hebbs.tree.symm ▸ hl j hj
    refine ⟨hebbs.trans hrest, fun j hj => ?_⟩
    rcases mem_cons.mp hj with rfl | hj
    · exact fun hsending => hstopped (hrest.sending j hsending)
    · exact hall j hj

theorem interruptSending (u : Upload) :
    Ebbs u (u.interruptThose fun state => state = .sending) ∧
      ∀ i, u.tree.IsFile i →
        ((u.interruptThose fun state => state = .sending).items i).state ≠ .sending := by
  have hloop := foldl_stops (u := u) (l := range u.tree.size)
    (f := fun u i => if decide ((u.items i).state = .sending) then u.interrupt i else u)
    (fun i hi => mem_range.mp hi) fun v i hi => by
      split
      · next hsending =>
        have hopen : ¬(v.items i).ended := by
          rw [Item.ended, of_decide_eq_true hsending]
          simp
        refine ⟨(Moves.interrupt .refl hi fun _ => hopen).ebbs, ?_⟩
        rw [Upload.interrupt_items, if_pos rfl]
        simp
      · next hsending => exact ⟨.refl v, by simpa using hsending⟩
  exact ⟨hloop.1, fun i hi => hloop.2 i (mem_range.mpr hi.1)⟩

theorem dropItem (u : Upload) (hi : i < u.tree.size) :
    Ebbs u (u.dropItem i) ∧ ((u.dropItem i).items i).state ≠ .sending := by
  have hedit : Ebbs u (u.edit i fun item =>
      { item with
        sink := none, state := if item.state.unsettled then .cancelled else item.state }) := by
    refine ⟨rfl, rfl, fun j hj => ?_⟩
    rw [Upload.edit_items] at hj
    split at hj
    · dsimp only at hj
      split at hj
      · cases hj
      · next hji _ => rwa [hji]
    · exact hj
  have hrest := (Moves.dropItem hi).ebbs
  refine ⟨hedit.trans hrest, fun hsending => ?_⟩
  have hstopped := hrest.sending i hsending
  rw [Upload.edit_items, if_pos rfl] at hstopped
  split at hstopped
  · cases hstopped
  · next hsettled =>
    rw [hstopped] at hsettled
    exact hsettled rfl

end Ebbs

theorem Upload.drop_not_sending (u : Upload) {i : ℕ} (hi : u.tree.IsFile i) :
    (u.drop.items i).state ≠ .sending := by
  have hloop := Ebbs.foldl_stops (u := u) (l := range u.tree.size) (f := Upload.dropItem)
    (fun i hi => mem_range.mp hi) fun v i hi => Ebbs.dropItem v hi
  exact hloop.2 i (mem_range.mpr hi.1)

theorem Upload.sendingFiles_eq_empty
    (h : ∀ i, u.tree.IsFile i → (u.items i).state ≠ .sending) : u.sendingFiles = ∅ := by
  refine Finset.filter_eq_empty_iff.mpr fun i hi => ?_
  exact h i (UploadTree.mem_files.mp hi)

/-! ### One upload's steps -/

/-- No window sends more for the step. -/
def Service.Lessens (s : Service) (u : Upload) : Prop :=
  u.Still ∧ ∀ window, { s with upload := u }.sentTo window ≤ s.sentTo window

namespace Service.Lessens

variable {s : Service} {u : Upload}

theorem of_ebbs (hs : s.upload.Still) (h : Ebbs s.upload u) : s.Lessens u := by
  refine ⟨hs.ebbs h, fun window => ?_⟩
  rw [Service.sentTo, Service.sentTo, h.source]
  split
  · exact h.card_le
  · exact le_rfl

theorem of_none (h : ∀ i, u.tree.IsFile i → (u.items i).state ≠ .sending) : s.Lessens u := by
  refine ⟨fun _ => h, fun window => ?_⟩
  rw [Service.sentTo, Upload.sendingFiles_eq_empty h, Finset.card_empty, ite_self]
  exact Nat.zero_le _

theorem drop (s : Service) : s.Lessens s.upload.drop := by
  refine of_none fun i hi => s.upload.drop_not_sending ?_
  exact Upload.drop_tree ▸ hi

theorem work (hs : s.upload.Still) {op : Upload.Op}
    (hsingle : Step.single (.work op)) (hu : s.upload.perform op = some u) : s.Lessens u := by
  cases op with
  | pump => cases hsingle
  | drop =>
    cases hu
    exact .drop s
  | join requester =>
    obtain ⟨hjoin, ⟨rfl⟩⟩ := ite_none_right_eq_some.mp hu
    have hebbs := (Moves.join s.upload requester).ebbs
    have hnone : s.upload.source = none := by
      simpa using (Bool.and_eq_true_iff.mp hjoin).1
    refine of_none fun i hi hsending => hs (.inl hnone) i ?_ (hebbs.sending i hsending)
    exact hebbs.tree ▸ hi
  | clientGone client =>
    cases hu
    unfold Upload.clientGone
    split
    · obtain ⟨hebbs, hnone⟩ := Ebbs.interruptSending { s.upload with source := none }
      exact of_none fun i hi => hnone i (hebbs.tree ▸ hi)
    · exact of_ebbs hs (.refl _)
  | forget =>
    obtain ⟨hended, ⟨rfl⟩⟩ := ite_none_right_eq_some.mp hu
    refine of_none fun i hi hsending => ?_
    have hi' := of_decide_eq_true (all_eq_true.mp hended i (mem_range.mpr hi.1))
    rcases hi' with hi' | hi' <;> exact nomatch hsending.symm.trans hi'
  | resolve scope action =>
    cases hu
    exact of_ebbs hs (Acts.resolve s.upload scope action).ebbs
  | _ => exact of_ebbs hs (Moves.perform (by simp [Upload.Op.Special]) hu).acts.ebbs

theorem answer (hk : s.upload.Kinded) (hs : s.upload.Still) {t : Task} {a : Answer}
    {random : String} (hl : ∀ requester, t ≠ .looked requester) (ht : t ∈ s.upload.tasks)
    (hu : { s.upload with tasks := s.upload.tasks.erase t }.answer random t a = some u) :
    s.Lessens u := by
  have herase : Ebbs s.upload { s.upload with tasks := s.upload.tasks.erase t } :=
    ⟨rfl, rfl, fun _ => id⟩
  have hkinded := hk.changes (Changes.erase s.upload t)
  refine of_ebbs hs (herase.trans ?_)
  cases hf : t.isFolders with
  | true =>
    obtain ⟨hc, hn⟩ := hk.folders_erase ht hf
    rcases Turns.answer_cases hkinded (hk.tasks t ht) hf hc hn hu with hturns | ⟨k, -, -, hturns⟩
    · exact Turns.ebbs hturns
    · exact ⟨(Turns.ebbs hturns).tree, (Turns.ebbs hturns).standing, (Turns.ebbs hturns).sending⟩
  | false =>
    by_cases hr : ∃ again, t = .retryConnect again ∧ a = .done
    · obtain ⟨again, rfl, rfl⟩ := hr
      cases hu
      exact Turns.ebbs (Turns.requeueAll .refl (hk.tasks _ ht))
    · exact Acts.ebbs (Acts.answer hkinded (hk.tasks t ht) (fun _ hi => hk.writes_erase ht hi) hf
        (fun again heq hdone => hr ⟨again, heq, hdone⟩) hl hu)

end Service.Lessens

theorem Upload.looked_cases {w : Upload} {requester : String} {a : Answer} {random : String}
    (hw : u.answer random (.looked requester) a = some w) :
    Ebbs u w ∨ w.source = some requester ∧ w.dropped = false ∧
      w.sendingFiles.card ≤ u.sendingFiles.card := by
  cases a with
  | done =>
    cases hw
    rcases Moves.takenUp_cases u requester with ⟨-, hm⟩ | ⟨hd, hm⟩
    · exact .inl hm.ebbs
    · exact .inr ⟨hm.ebbs.source, hm.ebbs.dropped.trans hd, hm.ebbs.card_le⟩
  | _ => cases hw

theorem single_cases {s s' : Service} {step : Step} (hk : s.upload.Kinded) (hs : s.upload.Still)
    (hsingle : step.single) (hn : next s step = some s') :
    s.Lessens s'.upload ∨ ∃ requester a random, step = .answer (.looked requester) a random ∧
      s'.upload.source = some requester ∧ s'.upload.dropped = false ∧
      s'.upload.sendingFiles.card ≤ s.upload.sendingFiles.card := by
  cases Stepped.of_next hn with
  | work op u _ hu => exact .inl (.work hs hsingle hu)
  | answer t a random u ht hu =>
    by_cases hl : ∃ requester, t = .looked requester
    · obtain ⟨requester, rfl⟩ := hl
      rcases Upload.looked_cases hu with hebbs | ⟨hsource, hd, hcard⟩
      · exact .inl (.of_ebbs hs ⟨hebbs.tree, hebbs.standing, hebbs.sending⟩)
      · exact .inr ⟨requester, a, random, rfl, hsource, hd, hcard⟩
    · exact .inl (.answer hk hs (fun requester heq => hl ⟨requester, heq⟩) ht hu)
  | lost => exact .inl (.of_ebbs hs ⟨rfl, rfl, fun _ => id⟩)
  | save => exact .inl (.of_ebbs hs (.refl _))
  | discard => exact .inl (.drop s)
  | restart => cases hsingle

/-! ### `pump` -/

namespace Upload

variable {u : Upload} {limit : ℕ}

theorem pumpLoop_snd (n : ℕ) (queue : List ℕ) :
    (u.pumpLoop limit n queue).2 = pumpFiles (limit - n) u queue := by
  induction queue generalizing u n with
  | nil => rfl
  | cons i rest ih =>
    rw [pumpLoop, pumpFiles]
    by_cases hlt : n < limit
    · have hroom : ¬limit - n = 0 := by omega
      rw [if_pos hlt, if_neg hroom]
      dsimp only
      split
      · exact ih n
      · split
        · exact ih n
        · rw [ih (n + 1), Nat.sub_sub]
    · have hfull : limit - n = 0 := by omega
      rw [if_neg hlt, if_pos hfull]

theorem pumpLoop_counts (limit : ℕ) (hk : u.Kinded) (n : ℕ) {queue : List ℕ} (hq : u.queue = queue) :
    n ≤ (u.pumpLoop limit n queue).1 ∧ (u.pumpLoop limit n queue).1 ≤ max n limit ∧
      (u.pumpLoop limit n queue).2.tree = u.tree ∧
      (u.pumpLoop limit n queue).2.sendingFiles.card + n ≤
        u.sendingFiles.card + (u.pumpLoop limit n queue).1 := by
  induction queue generalizing u n with
  | nil => exact ⟨le_rfl, le_max_left _ _, rfl, le_rfl⟩
  | cons i rest ih =>
    have htaken : { u with queue := rest }.Kinded := hk.pass (.takes i rest hq)
    have hi : u.tree.IsFile i := hk.queue i (hq ▸ mem_cons_self)
    unfold pumpLoop
    split
    · next hlt =>
      dsimp only
      split
      · exact ih htaken n rfl
      · next hqueued =>
        split
        · have hplaced : Moves { u with queue := rest } ({ u with queue := rest }.place i) :=
            Moves.place .refl hi
          obtain ⟨hle, hmax, htree, hcard⟩ := ih (htaken.moves hplaced) n place_queue
          refine ⟨hle, hmax, htree.trans hplaced.tree, hcard.trans ?_⟩
          exact Nat.add_le_add_right hplaced.ebbs.card_le _
        · have hadmitted : Passes { u with queue := rest } ({ u with queue := rest }.admitFile i) :=
            Passes.admitFile .refl hi (not_not.mp hqueued)
          obtain ⟨hle, hmax, htree, hcard⟩ := ih (htaken.passes hadmitted) (n + 1) admitFile_queue
          -- The file is the one more that is sent.
          have hone : ({ u with queue := rest }.admitFile i).sendingFiles.card ≤
              u.sendingFiles.card + 1 := by
            refine (Finset.card_le_card fun j hj => ?_).trans (Finset.card_insert_le i u.sendingFiles)
            simp only [sendingFiles, Finset.mem_filter, hadmitted.tree] at hj
            rw [Upload.admitFile, awaitBackend_items, setState_items] at hj
            by_cases hji : j = i
            · rw [hji]
              exact Finset.mem_insert_self i _
            · rw [if_neg hji] at hj
              exact Finset.mem_insert_of_mem (Finset.mem_filter.mpr hj)
          refine ⟨by omega, ?_, htree.trans hadmitted.tree, by omega⟩
          exact hmax.trans (max_le ((Nat.succ_le_of_lt hlt).trans (le_max_right _ _))
            (le_max_right _ _))
    · exact ⟨le_rfl, le_max_left _ _, rfl, le_rfl⟩

/-- The upload once `createFolders` was begun, if it was. -/
theorem folders_begun (hk : u.Kinded) :
    Turns u (if u.folderQueue ≠ [] ∧ u.creatingFolders = false then u.createFolders else u) := by
  split
  · next hfolders => exact Turns.createFolders (hk.isFolders hfolders.2)
  · exact .refl

theorem pump_standing (hk : u.Kinded) (room : ℕ) (mayWrite : Bool) :
    (u.pump room mayWrite).standing = u.standing := by
  rcases Passes.pump_cases hk room mayWrite with hpasses | ⟨hc, hpasses⟩
  · exact hpasses.standing
  · have hcreate := Turns.ebbs (Turns.createFolders (hk.isFolders hc))
    exact hpasses.standing.trans hcreate.standing

/-- One upload's turn is its own `pump`, with the room its window has. -/
theorem pumpUpload_snd (limit : ℕ) (hk : u.Kinded) (mayWrite : Bool) (sending : String → ℕ) :
    (u.pumpUpload limit mayWrite sending).2 =
      u.pump (limit - u.source.elim 0 sending) mayWrite := by
  have hbegun := (Turns.ebbs (folders_begun hk)).source
  unfold pumpUpload Upload.pump
  dsimp only
  generalize (if u.folderQueue ≠ [] ∧ u.creatingFolders = false then u.createFolders else u) = v
    at hbegun
  rw [hbegun]
  cases u.source with
  | none => simp
  | some window =>
    cases mayWrite with
    | false => simp
    | true => simp [pumpLoop_snd]

theorem pumpUpload_counts (limit : ℕ) (hk : u.Kinded) (mayWrite : Bool) (sending : String → ℕ)
    (window : String) :
    sending window ≤ (u.pumpUpload limit mayWrite sending).1 window ∧
      (u.pumpUpload limit mayWrite sending).1 window ≤ max (sending window) limit ∧
      (u.source = some window →
        (u.pumpUpload limit mayWrite sending).2.sendingFiles.card + sending window ≤
          u.sendingFiles.card + (u.pumpUpload limit mayWrite sending).1 window) := by
  have hbegun := Turns.ebbs (folders_begun hk)
  have hkinded := hk.changes (folders_begun hk).changes
  unfold pumpUpload
  dsimp only
  generalize (if u.folderQueue ≠ [] ∧ u.creatingFolders = false then u.createFolders else u) = v
    at hbegun hkinded
  have hsame : sending window ≤ sending window ∧ sending window ≤ max (sending window) limit ∧
      (u.source = some window →
        v.sendingFiles.card + sending window ≤ u.sendingFiles.card + sending window) :=
    ⟨le_rfl, le_max_left _ _, fun _ => Nat.add_le_add_right hbegun.card_le _⟩
  cases hsource : v.source with
  | none => exact hsame
  | some other =>
    cases mayWrite with
    | false => exact hsame
    | true =>
      obtain ⟨hle, hmax, -, hcard⟩ := pumpLoop_counts limit hkinded (sending other) rfl
      by_cases hother : window = other
      · subst hother
        simp only [if_true, update_self]
        exact ⟨hle, hmax, fun _ => hcard.trans (Nat.add_le_add_right hbegun.card_le _)⟩
      · simp only [if_true, update_of_ne hother]
        refine ⟨le_rfl, le_max_left _ _, fun hu => absurd ?_ hother⟩
        rw [hbegun.source, hu] at hsource
        exact some.inj hsource

end Upload

/-! ### All uploads -/

/-- What holds of each upload along every run. -/
structure Service.Sends (s : Service) : Prop where
  kinded : s.upload.Kinded
  counted : s.upload.dropped = false → s.upload.Counted
  still : s.upload.Still

namespace Service.Sends

variable {s s' : Service} {step : Step}

theorem countedFor_eq (h : s.Sends) (window : String) :
    s.countedFor window = s.sentTo window := by
  unfold Service.countedFor Service.sentTo
  cases hd : s.upload.dropped with
  | false =>
    have hsending := (h.counted hd).totals.states .sending
    simp only [true_and]
    split
    · rw [hsending, getD_someIfPos]
      rfl
    · rfl
  | true =>
    rw [Upload.sendingFiles_eq_empty (h.still (.inr hd))]
    simp

theorem single (h : s.Sends) (hsingle : step.single) (hn : next s step = some s') : s'.Sends := by
  refine ⟨kinded_next h.kinded hn, counted_next h.kinded h.counted hn, ?_⟩
  rcases single_cases h.kinded h.still hsingle hn with hless | ⟨_, _, _, -, hsource, hd, -⟩
  · exact hless.1
  · rintro (hnone | hdropped)
    · exact nomatch hsource.symm.trans hnone
    · exact nomatch hd.symm.trans hdropped

theorem pump (h : s.Sends) (hd : s.upload.dropped = false) (room : ℕ) (mayWrite : Bool) :
    { s with upload := s.upload.pump room mayWrite }.Sends := by
  have hn : next s (.work (.pump room mayWrite)) =
      some { s with upload := s.upload.pump room mayWrite } := by
    simp [Uploads.next, hd, Upload.perform]
  refine ⟨kinded_next h.kinded hn, counted_next h.kinded h.counted hn, ?_⟩
  have hstanding := Upload.pump_standing h.kinded room mayWrite
  rintro (hnone | hdropped)
  · -- It lets nothing be sent of an upload that has no window.
    have hsource : s.upload.source = none := (congrArg Prod.fst hstanding).symm.trans hnone
    have hbegun := Turns.ebbs (Upload.folders_begun h.kinded)
    have hpump : s.upload.pump room mayWrite = if s.upload.folderQueue ≠ [] ∧
        s.upload.creatingFolders = false then s.upload.createFolders else s.upload := by
      unfold Upload.pump
      rw [if_neg]
      rw [hbegun.source, hsource]
      simp
    have hstill := h.still.ebbs hbegun
    rw [← hpump] at hstill
    exact hstill (.inl hnone)
  · have hbefore : s.upload.dropped = true := (congrArg Prod.snd hstanding).symm.trans hdropped
    exact nomatch hd.symm.trans hbefore

end Service.Sends

theorem Start.sends (start : Start) :
    start.service.Sends ∧ ∀ window, start.service.sentTo window = 0 := by
  have hmoves : Ebbs start.upload start.service.upload := (Moves.enqueueReadyTop .refl).ebbs
  have hebbs := (Acts.ebbs (Acts.applyPolicy Upload.assemble_tasks)).trans hmoves
  have hnone : ∀ i, start.service.upload.tree.IsFile i →
      (start.service.upload.items i).state ≠ .sending := by
    intro i _ hsending
    have hitem := hebbs.sending i hsending
    rw [Upload.assemble_items] at hitem
    have hqueued : (start.item i).state = .queued := by
      unfold Start.item
      split
      · rfl
      · split <;> rfl
      · rfl
      · rfl
    exact nomatch hqueued.symm.trans hitem
  refine ⟨⟨start.kinded, fun _ => start.counted, fun _ => hnone⟩, fun window => ?_⟩
  rw [Service.sentTo, Upload.sendingFiles_eq_empty hnone, Finset.card_empty, ite_self]

/-- `pump` lets no window send more than it did, or than it may. -/
theorem pumpUploads_counts (limit : ℕ) (others : String → ℕ) {l : List Service}
    (hl : ∀ s ∈ l, s.Sends) {sending : String → ℕ} (mayWrite : List Bool)
    (hcount : ∀ window, others window + (l.map (Service.sentTo window)).sum ≤ sending window) :
    (∀ s ∈ pumpUploads limit sending mayWrite l, s.Sends) ∧ ∀ window, others window +
      ((pumpUploads limit sending mayWrite l).map (Service.sentTo window)).sum ≤
        max (sending window) limit := by
  induction l generalizing sending others mayWrite with
  | nil =>
    rw [pumpUploads]
    exact ⟨forall_mem_nil _, fun window => (hcount window).trans (le_max_left _ _)⟩
  | cons s rest ih =>
    obtain ⟨hs, hrest⟩ := forall_mem_cons.mp hl
    simp only [map_cons, sum_cons] at hcount
    rw [pumpUploads]
    split
    · have hcount' : ∀ window, (others window + s.sentTo window) +
          (rest.map (Service.sentTo window)).sum ≤ sending window := by
        intro window
        have := hcount window
        omega
      obtain ⟨hsends, hle⟩ := ih _ hrest mayWrite.tail hcount'
      refine ⟨forall_mem_cons.mpr ⟨hs, hsends⟩, fun window => ?_⟩
      have := hle window
      rw [map_cons, sum_cons]
      omega
    · next hd =>
      have hd : s.upload.dropped = false := by simpa using hd
      have hcounts := fun window => s.upload.pumpUpload_counts limit hs.kinded
        (mayWrite.headD false) sending window
      have hpump := s.upload.pumpUpload_snd limit hs.kinded (mayWrite.headD false) sending
      generalize s.upload.pumpUpload limit (mayWrite.headD false) sending = pumped
        at hcounts hpump ⊢
      obtain ⟨sending', u⟩ := pumped
      obtain rfl : u = _ := hpump
      have hsource := congrArg Prod.fst (Upload.pump_standing hs.kinded
        (limit - s.upload.source.elim 0 sending) (mayWrite.headD false))
      dsimp only [Upload.standing] at hsource hcounts ⊢
      have hcount' : ∀ window, (others window + Service.sentTo window { s with
          upload := s.upload.pump (limit - s.upload.source.elim 0 sending)
            (mayWrite.headD false) }) +
          (rest.map (Service.sentTo window)).sum ≤ sending' window := by
        intro window
        have hbefore := hcount window
        obtain ⟨hle, -, hcard⟩ := hcounts window
        unfold Service.sentTo at hbefore ⊢
        dsimp only
        rw [hsource]
        by_cases hwindow : s.upload.source = some window
        · rw [if_pos hwindow] at hbefore ⊢
          have := hcard hwindow
          omega
        · rw [if_neg hwindow] at hbefore ⊢
          omega
      obtain ⟨hsends, hle⟩ := ih _ hrest mayWrite.tail hcount'
      refine ⟨forall_mem_cons.mpr ⟨hs.pump hd _ _, hsends⟩, fun window => ?_⟩
      have := hle window
      have := (hcounts window).2.1
      rw [map_cons, sum_cons]
      omega

/-! ### Runs -/

/-- The upload and the window of a resume that comes to its end. -/
def HubStep.takenUp : HubStep → List (ℕ × String)
  | .upload k (.answer (.looked requester) _ _) => [(k, requester)]
  | _ => []

/-- A resume that comes to its end finds the upload without a window or its own window's, or
nothing of it being sent. -/
def FitsWindow (hub : Hub) (step : HubStep) : Prop :=
  ∀ taken ∈ step.takenUp, ∀ s ∈ hub.uploads[taken.1]?.toList,
    s.upload.source = none ∨ s.upload.source = some taken.2 ∨ s.upload.sendingFiles = ∅

instance (hub : Hub) (step : HubStep) : Decidable (FitsWindow hub step) :=
  inferInstanceAs (Decidable (∀ taken ∈ step.takenUp, ∀ s ∈ hub.uploads[taken.1]?.toList, _))

/-- What holds along every run that fits its windows. -/
structure Hub.Within (hub : Hub) : Prop where
  sends : ∀ s ∈ hub.uploads, s.Sends
  sentTo : ∀ window, hub.sentTo window ≤ hub.maxConcurrent

theorem sum_map_set {α : Type*} (f : α → ℕ) {l : List α} {k : ℕ} {a : α} (h : l[k]? = some a)
    (b : α) : ((l.set k b).map f).sum + f a = (l.map f).sum + f b := by
  induction l generalizing k with
  | nil => cases h
  | cons c l ih =>
    cases k with
    | zero =>
      obtain rfl : c = a := some.inj h
      simp only [set_cons_zero, map_cons, sum_cons]
      omega
    | succ k =>
      have := ih (k := k) h
      simp only [set_cons_succ, map_cons, sum_cons]
      omega

namespace Hub.Within

variable {hub hub' : Hub}

theorem start (h : hub.Within) (start : Start) :
    { hub with uploads := hub.uploads ++ [start.service] }.Within := by
  obtain ⟨hsends, hzero⟩ := start.sends
  refine ⟨fun s hs => ?_, fun window => ?_⟩
  · rcases mem_append.mp hs with hmem | hmem
    · exact h.sends s hmem
    · exact mem_singleton.mp hmem ▸ hsends
  · have := h.sentTo window
    simpa [Hub.sentTo, hzero window] using this

theorem upload (h : hub.Within) {k : ℕ} {step : Step} {s s' : Service}
    (hok : FitsWindow hub (.upload k step)) (hsingle : step.single) (hs : hub.uploads[k]? = some s)
    (hn : Uploads.next s step = some s') :
    { hub with uploads := hub.uploads.set k s' }.Within := by
  have hsends := h.sends s (mem_of_getElem? hs)
  refine ⟨fun t ht => ?_, fun window => ?_⟩
  · rcases mem_or_eq_of_mem_set ht with hmem | rfl
    · exact h.sends t hmem
    · exact hsends.single hsingle hn
  · have hsum := sum_map_set (Service.sentTo window) hs s'
    have hbefore := h.sentTo window
    unfold Hub.sentTo at hbefore ⊢
    dsimp only
    rcases single_cases hsends.kinded hsends.still hsingle hn with
      ⟨-, hless⟩ | ⟨requester, a, random, rfl, hsource, -, hcard⟩
    · have hless' : s'.sentTo window ≤ s.sentTo window := hless window
      omega
    · -- The upload is this window's now, with what is being sent of it.
      have hfits := hok (k, requester) mem_cons_self s (by simp [hs])
      by_cases hwindow : window = requester
      · subst hwindow
        have hafter : s'.sentTo window = s'.upload.sendingFiles.card := if_pos hsource
        rcases hfits with hnone | hsame | hquiet
        · have := Upload.sendingFiles_eq_empty (hsends.still (.inl hnone))
          simp only [this, Finset.card_empty] at hcard
          omega
        · have : s.sentTo window = s.upload.sendingFiles.card := if_pos hsame
          omega
        · simp only [hquiet, Finset.card_empty] at hcard
          omega
      · have hafter : s'.sentTo window = 0 := by
          refine if_neg fun heq => hwindow ?_
          exact some.inj (heq.symm.trans hsource)
        omega

theorem pump (h : hub.Within) (mayWrite : List Bool) : (hub.pump mayWrite).Within := by
  have hcount : ∀ window, 0 + (hub.uploads.map (Service.sentTo window)).sum ≤
      (hub.uploads.map (Service.countedFor window)).sum := by
    intro window
    rw [Nat.zero_add, map_congr_left fun s hs => (h.sends s hs).countedFor_eq window]
  obtain ⟨hsends, hle⟩ := pumpUploads_counts (max 1 hub.maxConcurrent) (fun _ => 0) h.sends
    mayWrite hcount
  refine ⟨hsends, fun window => ?_⟩
  have hafter := hle window
  have hbefore := h.sentTo window
  have hone := hub.one_le
  rw [map_congr_left fun s hs => (h.sends s hs).countedFor_eq window] at hafter
  unfold Hub.sentTo Hub.pump at *
  dsimp only at *
  omega

theorem restart (h : hub.Within) :
    { hub with uploads := hub.uploads.filterMap fun s => Uploads.next s .restart }.Within := by
  have hback : ∀ s' ∈ hub.uploads.filterMap fun s => Uploads.next s .restart,
      s'.Sends ∧ ∀ window, s'.sentTo window = 0 := by
    intro s' hs'
    obtain ⟨s, hs, hn⟩ := mem_filterMap.mp hs'
    have hsends := h.sends s hs
    have hsource : s'.upload.source = none ∧ ∀ i, (s'.upload.items i).state ≠ .sending := by
      cases Stepped.of_next hn with
      | restart =>
        obtain ⟨_, _, _, hshape⟩ := bringBack_shape s.upload.tree s.upload.onConflict
          s.upload.verify s.rows
        rw [hshape]
        refine ⟨rfl, fun i => ?_⟩
        rw [foldl_folderPath_keeps Item.state (fun _ _ => rfl)]
        show revivedState (s.rows i).state ≠ .sending
        cases (s.rows i).state <;> decide
    refine ⟨⟨kinded_next hsends.kinded hn, counted_next hsends.kinded hsends.counted hn,
      fun _ i _ => hsource.2 i⟩, fun window => ?_⟩
    rw [Service.sentTo, hsource.1]
    rfl
  refine ⟨fun s' hs' => (hback s' hs').1, fun window => ?_⟩
  unfold Hub.sentTo
  rw [map_congr_left fun s' hs' => (hback s' hs').2 window]
  simp

theorem next (h : hub.Within) {step : HubStep} (hok : FitsWindow hub step)
    (hn : hub.next step = some hub') : hub'.Within := by
  cases step with
  | start s =>
    cases hn
    exact h.start s
  | upload k step =>
    obtain ⟨hsingle, hn⟩ := ite_none_right_eq_some.mp hn
    obtain ⟨s, hs, hn⟩ := bind_eq_some_iff.mp hn
    obtain ⟨s', hs', rfl⟩ := map_eq_some_iff.mp hn
    exact h.upload hok hsingle hs hs'
  | pump mayWrite =>
    cases hn
    exact h.pump mayWrite
  | restart =>
    cases hn
    exact h.restart

end Hub.Within

/-- A hub that has no uploads yet. -/
def Hub.empty (maxConcurrent : ℕ) (h : 1 ≤ maxConcurrent) : Hub := ⟨maxConcurrent, h, []⟩

/-- **No window sends more files at once than it may**, over all its uploads, in every run in
which no resume comes to its end with the upload another window's that is being sent files of
it. -/
theorem sentTo_le_of_fitsWindow {maxConcurrent : ℕ} (hone : 1 ≤ maxConcurrent) {hub : Hub}
    (h : Run Hub.next FitsWindow (.empty maxConcurrent hone) hub) (window : String) :
    hub.sentTo window ≤ hub.maxConcurrent := by
  have hwithin : hub.Within := by
    refine h.invariant (I := Hub.Within) ⟨forall_mem_nil _, fun _ => Nat.zero_le _⟩ ?_
    exact fun _ _ _ hs hok hn => hs.next hok hn
  exact hwithin.sentTo window

/-- A window sends one file. -/
def Start.ofWindow (window : String) : Start :=
  { Start.ofItem .file 1 .ask none with requester := window }

/-- Two windows send a file each, one at a time; the second goes, and two others resume its
upload. -/
def resumedTwice : List HubStep :=
  let held : Option Backend := some ⟨0, false, false⟩
  [.start (.ofWindow "v"), .start (.ofWindow "w"), .pump [true, true],
    .upload 1 (.work (.clientGone "w")), .upload 1 (.work (.takeUp "x" [])),
    .upload 1 (.work (.takeUp "v" [])), .upload 1 (.answer (.takeUpBackend "x" [] held) .done ""),
    .upload 1 (.answer (.takeUpBackend "v" [] held) .done ""),
    .upload 1 (.answer (.looked "x") .done ""), .pump [true, true]]

theorem sentTo_le_resumed : ∃ hub : Hub,
    Run Hub.next FitsWindow (.empty 1 le_rfl) hub ∧ hub.sentTo "v" ≤ 1 ∧ hub.sentTo "x" ≤ 1 := by
  have hrun : Run Hub.next FitsWindow (.empty 1 le_rfl) _ :=
    .get resumedTwice (by decide +kernel) (by decide +kernel)
  exact ⟨_, hrun, sentTo_le_of_fitsWindow le_rfl hrun "v", sentTo_le_of_fitsWindow le_rfl hrun "x"⟩

/-- The other resume comes to its end with the file being sent: its window sends two. -/
theorem sent_past_limit_by_resume : ¬∀ hub : Hub, Run Hub.next free (.empty 1 le_rfl) hub →
    ∀ window, hub.sentTo window ≤ hub.maxConcurrent := by
  intro hall
  exact absurd (hall _ (.get_free (resumedTwice ++ [.upload 1 (.answer (.looked "v") .done "")])
    (by decide +kernel)) "v") (by decide +kernel)

end Lasterm.Transfer.Uploads
