import Lasterm.Transfer.UploadAttempts
import Lasterm.Transfer.UploadFolders

/-!
# Ends are final

What holds along the runs of an upload in which nothing is taken up that has ended or that something
is under way for (`transfers/transfer-service.ts`).

`requeueAll` goes by a list that `retry` made before it waited for the host.  Two retries that wait
for the same connection both have the file on their lists, and the second queues it again whatever
came of the first.

## Main results

* `ends_final` — ends, attempts and placements, in every orderly run.
* `placed_queued_again` — a run that is not.
-/

namespace Lasterm.Transfer.Uploads

open Transition Relation List

/-! ### Uploads nothing is under way for -/

namespace Upload

variable {u : Upload} {i : ℕ}

/-- No file of the upload has an open write, and nothing is under way for any. -/
structure Vacant (u : Upload) : Prop where
  tasks : ∀ t ∈ u.tasks, t.phase = none
  sinks : ∀ i, (u.items i).sink = none

namespace Vacant

theorem edit (h : u.Vacant) {f : Item → Item} (hf : (f (u.items i)).sink = (u.items i).sink) :
    (u.edit i f).Vacant := by
  refine ⟨h.tasks, fun j => ?_⟩
  rw [edit_items]
  split
  · exact hf.trans (h.sinks i)
  · exact h.sinks j

theorem setState (h : u.Vacant) (i : ℕ) (state : ItemState) : (u.setState i state).Vacant := by
  obtain ⟨_, _, _, hshape⟩ := setState_shape u i state
  have hedit := h.edit (i := i) (f := fun item => { item with state }) rfl
  rw [hshape]
  exact ⟨hedit.tasks, hedit.sinks⟩

theorem restartFile (h : u.Vacant) (i : ℕ) : (u.restartFile i).Vacant := by
  refine ⟨fun t ht => h.tasks t ?_, fun j => ?_⟩
  · obtain ⟨_, _, hshape⟩ := addAcked_shape u i (-(u.items i).acked)
    unfold Upload.restartFile at ht
    rw [hshape] at ht
    exact ht
  · rw [restartFile_items]
    split
    · exact h.sinks i
    · exact h.sinks j

theorem call (h : u.Vacant) {t : Task} (ht : t.phase = none) : (u.call t).Vacant := by
  refine ⟨fun t' ht' => ?_, h.sinks⟩
  obtain ht' | ht' := mem_append.mp ht'
  · exact h.tasks t' ht'
  · obtain rfl := mem_singleton.mp ht'
    exact ht

theorem skip (fuel : ℕ) (h : u.Vacant) (i : ℕ) : (Upload.skip fuel u i).Vacant :=
  Upload.skip_rec (fun _ k h => (h.edit (i := k) (f := fun item =>
    { item with outcome := some .skipped }) rfl).setState k .skipped)
    (fun _ k h => h.restartFile k) (fun _ _ _ h => h.call rfl) fuel h i

theorem applyPolicyTo (h : u.Vacant) (i : ℕ) : (u.applyPolicyTo i).Vacant := by
  unfold Upload.applyPolicyTo
  dsimp only
  split
  · exact h
  · split
    · exact h.skip _ i
    · exact h.edit rfl
    · split
      · exact h.setState i .conflict
      · exact h.edit rfl
    · exact h.setState i .conflict

theorem idle (h : u.Vacant) (i : ℕ) : Idle (u.file i) := by
  refine ⟨?_, h.sinks i⟩
  refine filterMap_eq_nil_iff.mpr fun t ht => h.tasks t ?_
  exact (mem_filter.mp ht).1

end Vacant

end Upload

theorem bringBack_vacant (tree : UploadTree) (onConflict : Policy) (verify : Bool) (rows : ℕ → Row) :
    (bringBack tree onConflict verify rows).Vacant := by
  obtain ⟨_, _, _, hshape⟩ := bringBack_shape tree onConflict verify rows
  refine ⟨fun t ht => ?_, fun i => ?_⟩
  · rw [hshape] at ht
    cases ht
  · rw [hshape]
    exact foldl_folderPath_keeps (fun item => item.sink) (fun _ _ => rfl) tree
      (fun i => (rows i).item (tree.kind i)) i

/-! ### Orderly steps -/

/-- The file is opened under its own name once it was stopped. -/
def Step.opensLate (u : Upload) : Step → Bool
  | .answer (.openDirect o _ _) .done _ => (u.items o.i).state ≠ .sending
  | _ => false

/-- The step takes up nothing that has ended or that something is under way for, and opens no file
under its own name once it was stopped. -/
def Orderly (s : Service) (step : Step) : Prop :=
  Calm s.upload step ∧ step.opensLate s.upload = false

instance (s : Service) (step : Step) : Decidable (Orderly s step) :=
  inferInstanceAs (Decidable (_ ∧ _))

/-- What holds along orderly runs. -/
structure Service.Apart (s : Service) : Prop where
  kinded : s.upload.Kinded
  folders : s.upload.Pending
  files : ∀ i, s.upload.tree.IsFile i → Attempt (s.upload.file i)

section Steps

variable {s s' : Service} {step : Step} {i : ℕ} {taken drops : Prop} {v v' : FileView}

theorem Attempt.happens (h : Attempt v) (hb : ReflTransGen (Befalls i taken drops) v v') : Attempt v' := by
  induction hb with
  | refl => exact h
  | tail _ hb ih => exact ih.befalls hb

theorem Attempt.unmoved_of_happens (h : Attempt v) (hend : v.item.ended)
    (hb : ReflTransGen (Befalls i taken drops) v v') : Unmoved v v' := by
  induction hb with
  | refl => exact ⟨rfl, rfl⟩
  | @tail w _ hpast hb ih =>
    obtain ⟨hstate, hbegun⟩ := ih
    have hend' : w.item.ended := by
      unfold Item.ended
      rw [hstate]
      exact hend
    obtain ⟨hstate', hbegun'⟩ := (h.happens hpast).unmoved_of_ended_befalls hend' hb
    exact ⟨hstate'.trans hstate, hbegun'.trans hbegun⟩

theorem moving_of_happens (hm : v.item.moving) (ht : ¬taken)
    (hb : ReflTransGen (Befalls i taken drops) v v') : v'.item.moving := by
  induction hb with
  | refl => exact hm
  | tail _ hb ih => exact moving_of_befalls ih ht hb

theorem mem_tasks_file {u : Upload} {t : Task} (ht : t ∈ u.tasks) (hi : t.file = some i) :
    t ∈ (u.file i).tasks :=
  mem_filter.mpr ⟨ht, by simpa using hi⟩

theorem apart_next (h : s.Apart) (hok : Orderly s step) (hn : next s step = some s') :
    s'.Apart := by
  by_cases hrestart : step = .restart
  · subst hrestart
    cases Stepped.of_next hn with
    | restart =>
      have hvacant := bringBack_vacant s.upload.tree s.upload.onConflict s.upload.verify s.rows
      refine ⟨kinded_next h.kinded hn, .idle ?_ ?_, fun i _ => (Upload.Vacant.idle ?_ i).attempt⟩
      · obtain ⟨_, _, _, hshape⟩ := bringBack_shape s.upload.tree s.upload.onConflict
          s.upload.verify s.rows
        rw [hshape]
      · obtain ⟨_, _, _, hshape⟩ := bringBack_shape s.upload.tree s.upload.onConflict
          s.upload.verify s.rows
        rw [hshape]
        exact nofun
      · exact ⟨hvacant.tasks, hvacant.sinks⟩
  · refine ⟨kinded_next h.kinded hn, (folders_next h.kinded h.folders hok.1 hrestart hn).pending,
      fun i hi => ?_⟩
    rw [tree_next h.kinded hn] at hi
    have hfile := h.files i hi
    obtain hhappens | ⟨t, a, random, key, rfl, ht, hti, hkey, ha⟩ :=
      file_next h.kinded hi hok.1 hrestart hn
    · exact hfile.happens hhappens
    · refine hfile.answers (mem_tasks_file ht hti) hkey ?_ ha
      rintro o n path rfl rfl
      obtain rfl : o.i = i := Option.some.inj hti
      have hlate := hok.2
      simpa [Step.opensLate] using hlate

theorem Start.vacant (start : Start) : start.upload.Vacant := by
  refine Acts.applyPolicy_rec (P := Upload.Vacant) ?_ fun v i hv _ => hv.applyPolicyTo i
  obtain ⟨_, _, _, hshape⟩ := Upload.assemble_shape start.tree start.onConflict start.verify
    start.item (some start.requester) (some ⟨0, start.exec, false⟩)
  rw [hshape]
  refine ⟨forall_mem_nil _, fun i => ?_⟩
  dsimp only
  unfold Start.item
  split
  · rfl
  · split <;> rfl
  · rfl
  · rfl

theorem Start.apart (start : Start) : start.service.Apart := by
  have hstill := start.vacant
  have hlasts : Lasts (Upload.assemble start.tree start.onConflict start.verify start.item
      (some start.requester) (some ⟨0, start.exec, false⟩)) start.service.upload := by
    rw [start.service_upload]
    exact (Lasts.acts (Acts.applyPolicy Upload.assemble_tasks)).trans
      (Lasts.enqueueQueued start.upload start.upload.tree.order)
  refine ⟨start.kinded, ⟨hlasts.queue ?_, fun t ht => ?_⟩, fun i _ => ?_⟩
  · obtain ⟨_, _, _, hshape⟩ := Upload.assemble_shape start.tree start.onConflict start.verify
      start.item (some start.requester) (some ⟨0, start.exec, false⟩)
    rw [hshape]
    exact nofun
  · refine Task.pending_of_not_folders ?_
    by_contra hf
    have hmem := hlasts.tasks t ht (by simpa using hf)
    rw [Upload.assemble_tasks] at hmem
    cases hmem
  · rw [start.service_upload, Upload.file_enqueueQueued]
    exact (hstill.idle i).attempt

theorem ended_next (h : s.Apart) (hok : Orderly s step) (hrestart : step ≠ .restart)
    (hn : next s step = some s') (hi : i < s.upload.tree.size) (hend : (s.upload.items i).ended) :
    (s'.upload.items i).state = (s.upload.items i).state ∧
      (s.upload.tree.IsFile i → (s'.upload.file i).begun = (s.upload.file i).begun) := by
  cases hkind : s.upload.tree.kind i with
  | dir =>
    refine ⟨(folders_next h.kinded h.folders hok.1 hrestart hn).ended i ⟨hi, hkind⟩ hend, ?_⟩
    rintro ⟨-, hfile⟩
    rw [hkind] at hfile
    cases hfile
  | file =>
    have hfile : s.upload.tree.IsFile i := ⟨hi, hkind⟩
    have hattempt := h.files i hfile
    have hunmoved : Unmoved (s.upload.file i) (s'.upload.file i) := by
      obtain hhappens | ⟨t, a, random, key, -, ht, hti, -, ha⟩ :=
        file_next h.kinded hfile hok.1 hrestart hn
      · exact hattempt.unmoved_of_happens hend hhappens
      · exact hattempt.unmoved_of_ended_answers hend (mem_tasks_file ht hti) ha
    exact ⟨hunmoved.1, fun _ => hunmoved.2⟩

theorem moving_next (h : s.Apart) (hok : Orderly s step) (hrestart : step ≠ .restart)
    (hn : next s step = some s') (hi : s.upload.tree.IsFile i)
    (hm : (s.upload.items i).state = .sending ∨ (s.upload.items i).state = .verifying)
    (hq : (s'.upload.items i).state = .queued ∨ (s'.upload.items i).state = .placed) :
    ∃ t a random, step = .answer t a random ∧ t ∈ s.upload.tasks ∧ t.file = some i ∧
      t.phase ≠ none := by
  have hmoving : (s.upload.file i).item.moving := hm.imp id .inl
  have hnot : ¬(s'.upload.file i).item.moving := by
    unfold Item.moving
    rw [Upload.file_item]
    rcases hq with hq | hq <;> simp [hq]
  obtain hhappens | ⟨t, a, random, key, rfl, ht, hti, -, ha⟩ :=
    file_next h.kinded hi hok.1 hrestart hn
  · refine absurd (moving_of_happens hmoving (fun htaken => ?_) hhappens) hnot
    -- a file that is sent or checked is not taken up
    obtain ⟨-, hsending, hverifying, -⟩ := (hok.1 i htaken).2 hi.2
    exact hm.elim hsending hverifying
  · refine ⟨t, a, random, rfl, ht, hti, fun hphase => hnot ?_⟩
    exact moving_of_answers (v := (s.upload.file i).erase t key) hmoving hphase ha

end Steps

/-! ### Runs -/

/-- An orderly step of one hub's life. -/
def OrderlyLife (s : Service) (step : Step) : Prop := Orderly s step ∧ step ≠ .restart

instance (s : Service) (step : Step) : Decidable (OrderlyLife s step) :=
  inferInstanceAs (Decidable (_ ∧ _))

/-- How often the item is placed in the course of the steps. -/
def timesPlaced (i : ℕ) : Service → List Step → ℕ
  | _, [] => 0
  | s, step :: steps =>
    match next s step with
    | none => 0
    | some s' =>
      (if (s.upload.items i).state ≠ .placed ∧ (s'.upload.items i).state = .placed then 1 else 0) +
        timesPlaced i s' steps

section Runs

variable {s s' : Service} {i : ℕ}

theorem apart_of_run {ok : Service → Step → Prop} (hok : ∀ s step, ok s step → Orderly s step)
    (h : s.Apart) (hrun : Run next ok s s') : s'.Apart :=
  hrun.invariant h fun s step _ hs hstep hn => apart_next hs (hok s step hstep) hn

theorem tree_of_run {ok : Service → Step → Prop} (h : s.upload.Kinded) (hrun : Run next ok s s') :
    s'.upload.tree = s.upload.tree :=
  (hrun.invariant (I := fun w => w.upload.Kinded ∧ w.upload.tree = s.upload.tree) ⟨h, rfl⟩
    fun _ _ _ hw _ hn => ⟨kinded_next hw.1 hn, (tree_next hw.1 hn).trans hw.2⟩).2

theorem ended_of_run (h : s.Apart) (hi : i < s.upload.tree.size) (hend : (s.upload.items i).ended)
    (hrun : Run next OrderlyLife s s') :
    (s'.upload.items i).state = (s.upload.items i).state ∧
      (s.upload.tree.IsFile i → (s'.upload.file i).begun = (s.upload.file i).begun) := by
  induction hrun with
  | start => exact ⟨rfl, fun _ => rfl⟩
  | @step w w' step hpast hok hn ih =>
    obtain ⟨hstate, hbegun⟩ := ih
    have hw : w.Apart := apart_of_run (fun _ _ => And.left) h hpast
    have htree := tree_of_run h.kinded hpast
    have hend' : (w.upload.items i).ended := by
      unfold Item.ended
      rw [hstate]
      exact hend
    obtain ⟨hstate', hbegun'⟩ := ended_next hw hok.1 hok.2 hn (htree ▸ hi) hend'
    exact ⟨hstate'.trans hstate, fun hfile => (hbegun' (htree ▸ hfile)).trans (hbegun hfile)⟩

theorem timesPlaced_le (steps : List Step) (h : s.Apart) (hi : i < s.upload.tree.size)
    (hok : MeetsAlong next OrderlyLife s steps) :
    timesPlaced i s steps ≤ 1 ∧ ((s.upload.items i).ended → timesPlaced i s steps = 0) := by
  induction steps generalizing s with
  | nil => exact ⟨Nat.zero_le _, fun _ => rfl⟩
  | cons step steps ih =>
    obtain ⟨hstep, hrest⟩ := hok
    unfold timesPlaced
    cases hn : next s step with
    | none => exact ⟨Nat.zero_le _, fun _ => rfl⟩
    | some s' =>
      rw [hn] at hrest
      have htree := tree_next h.kinded hn
      obtain ⟨hle, hzero⟩ := ih (apart_next h hstep.1 hn) (htree ▸ hi) hrest
      dsimp only
      refine ⟨?_, fun hend => ?_⟩
      · split
        · next hplaced =>
          have hnone := hzero (.inl hplaced.2)
          omega
        · omega
      · obtain ⟨hstate, -⟩ := ended_next h hstep.1 hstep.2 hn hi hend
        have hend' : (s'.upload.items i).ended := by
          unfold Item.ended
          rw [hstate]
          exact hend
        rw [hzero hend', hstate, if_neg fun hc => hc.1 hc.2]

end Runs

/-- **Ends are final.**  In every state of an orderly run, of every file at most one thing is under
way, and nothing of one that has ended.  A file that is sent or checked is queued or placed by the
answer to its own attempt only.  As long as the hub lives, what is placed or skipped stays so with
nothing more begun for it, and an item is placed at most once. -/
theorem ends_final (start : Start) {s : Service} (h : Run next Orderly start.service s) :
    (∀ i, s.upload.tree.IsFile i → (s.upload.file i).phases.length ≤ 1 ∧
      ((s.upload.items i).ended → (s.upload.file i).phases = [])) ∧
    (∀ step s', OrderlyLife s step → next s step = some s' → ∀ i, s.upload.tree.IsFile i →
      (s.upload.items i).state = .sending ∨ (s.upload.items i).state = .verifying →
      (s'.upload.items i).state = .queued ∨ (s'.upload.items i).state = .placed →
      ∃ t a random, step = .answer t a random ∧ t ∈ s.upload.tasks ∧ t.file = some i ∧
        t.phase ≠ none) ∧
    (∀ s', Run next OrderlyLife s s' → ∀ i < s.upload.tree.size, (s.upload.items i).ended →
      (s'.upload.items i).state = (s.upload.items i).state ∧
      (s.upload.tree.IsFile i → (s'.upload.file i).begun = (s.upload.file i).begun)) ∧
    ∀ steps, MeetsAlong next OrderlyLife s steps → ∀ i < s.upload.tree.size,
      timesPlaced i s steps ≤ 1 := by
  have hs : s.Apart := apart_of_run (fun _ _ => id) start.apart h
  refine ⟨fun i hi => ⟨(hs.files i hi).one, (hs.files i hi).phases_of_ended⟩, ?_, ?_, ?_⟩
  · intro step s' hok hn i hi hm hq
    exact moving_next hs hok.1 hok.2 hn hi hm hq
  · intro s' hrun i hi hend
    exact ended_of_run hs hi hend hrun
  · intro steps hok i hi
    exact (timesPlaced_le steps hs hi hok).1

/-- A file with no bytes, from its queue to its place. -/
def placeEmpty : List Step :=
  let o : Opening := ⟨0, false, ["a"]⟩
  let held : Option Backend := some ⟨0, false, false⟩
  [ .work (.pump 1 true),
    .answer (.openBackend 0 held) .done "r",
    .answer (.openPlacement o) (.placement false) "r",
    .answer (.openTemp o [".a.r.partial"] 0 false) .done "r",
    .answer (.opened 0) .done "r",
    .answer (.finish 0 1 none) (.verified .size) "r",
    .answer (.placeBackend 0 held) .done "r",
    .answer (.placing 0 (some [".a.r.partial"]) ["a"] .plain) .done "r" ]

/-- A window sends a file with no bytes. -/
def Start.empty : Start := .ofItem .file 0 .ask none

theorem ends_final_placed : ∃ s, Run next Orderly Start.empty.service s ∧
    (s.upload.items 0).state = .placed ∧ (s.upload.file 0).phases = [] ∧
    ∀ s', Run next OrderlyLife s s' → (s'.upload.items 0).state = .placed := by
  have hrun : Run next Orderly Start.empty.service _ :=
    .get placeEmpty (by decide +kernel) (by decide +kernel)
  obtain ⟨hphases, -, hfinal, -⟩ := ends_final _ hrun
  refine ⟨_, hrun, by decide +kernel, (hphases 0 ⟨by decide +kernel, by decide +kernel⟩).2
    (by decide +kernel), fun s' hrun' => ?_⟩
  exact (hfinal s' hrun' 0 (by decide +kernel) (by decide +kernel)).1.trans (by decide +kernel)

/-- Two windows say to try a file again while the host is not reached; once it is, the first has
it placed. -/
def retriedToPlace : List Step :=
  [.work (.cancel none), .work (.retry none false), .work (.retry none false),
    .answer (.retryConnect [0]) .done ""] ++ placeEmpty

/-- The second queues it again, placed as it is. -/
theorem placed_queued_again : ¬∀ s : Service, Run next free Start.empty.service s →
    ∀ step s', step ≠ .restart → next s step = some s' → ∀ i < s.upload.tree.size,
      (s.upload.items i).ended → (s'.upload.items i).state = (s.upload.items i).state := by
  intro hall
  have hrun : Run next free Start.empty.service _ := .get_free retriedToPlace (by decide +kernel)
  have hsame := hall _ hrun (.answer (.retryConnect [0]) .done "") _ nofun
    (Option.some_get (by decide +kernel)).symm 0 (by decide +kernel) (by decide +kernel)
  exact absurd hsame (by decide +kernel)

end Lasterm.Transfer.Uploads
