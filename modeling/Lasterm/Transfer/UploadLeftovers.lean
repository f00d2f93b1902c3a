import Lasterm.Transfer.UploadTemps

/-!
# What a cancelled file leaves

The temporaries an upload has on its host, throughout its runs (`transfers/transfer-service.ts`).
One that is opened is removed by whoever has it in hand when its file is cancelled, or placed, or,
its upload dropped, left to `removeDropped`.  An open that fails is taken to have made no file.

Several functions lose one.  `openDirect` does not ask whether its file was stopped meanwhile, nor
do those who wait for a chunk or an open that fails; `afterStop` forgets a temporary it has no
connection to remove over, and has one removed that is still being opened.

## Main definitions

* `Remains` — the service with what it leaves; `Clean` — the events that lose nothing.

## Main results

* `cancelled_leave_nothing` — in every run of such events; `cancelled_direct_stays` — another.
-/

namespace Lasterm.Transfer.Uploads

open Transition Relation List Upload Option

/-- The temporary that has the file's name once the call is answered so. -/
def Upload.named (u : Upload) : Task → Answer → Option HostPath
  | .placing _ temp _ _, .done => temp
  | .finish i _ _, .verified _ => if (u.items i).direct then (u.items i).temp else none
  | _, _ => none

/-! ### The temporaries of an upload -/

/-- The service, with what it leaves on its host. -/
structure Remains where
  service : Service
  /-- The temporaries on the host, each with the file it was opened for. -/
  there : List (ℕ × HostPath)
  pending : List HostPath

/-- What can happen to them. -/
inductive Event
  /-- A step of the service; the host `keeps` what it was asked to remove, its connection gone. -/
  | step (step : Step) (keeps : Bool)
  /-- `removeDropped` has the host remove a temporary of an upload that was dropped. -/
  | removeDropped (temp : HostPath)
  /-- It forgets the upload, having come to every one. -/
  | forgetDropped

namespace Remains

/-- Nothing of the upload is on the host yet. -/
def begin (s : Service) : Remains := ⟨s, [], []⟩

/-- What is on the host without that temporary. -/
def without (there : List (ℕ × HostPath)) (temp : Option HostPath) : List (ℕ × HostPath) :=
  there.filter fun x => some x.2 ≠ temp

/-- What is on the host after a step. -/
def after (r : Remains) (keeps : Bool) : Step → List (ℕ × HostPath)
  | .answer t a _ =>
    let there := without r.there (r.service.upload.named t a)
    let there := if keeps then there else without there t.removed
    (t.makes a).elim there fun p => (t.file.getD 0, p) :: there
  | _ => r.there

/-- The temporaries `drop` has to remove. -/
def recorded (u : Upload) : List HostPath :=
  (range u.tree.size).filterMap fun i =>
    if u.tree.kind i = .file ∧ (u.items i).state ≠ .placed then (u.items i).temp else none

/-- The service and its leftovers after an event. -/
def next (r : Remains) : Event → Option Remains
  | .step step keeps =>
    (Uploads.next r.service step).map fun s =>
      { service := s
        there := r.after keeps step
        pending := if step.drops then r.pending ++ recorded r.service.upload else r.pending }
  | .removeDropped p =>
    if p ∈ r.pending then some { r with there := without r.there (some p) } else none
  | .forgetDropped => if r.service.upload.dropped then some { r with pending := [] } else none

/-! ### Steps that lose none -/

/-- The file's temporary is on the host, or being opened there. -/
def minds (r : Remains) (i : ℕ) (p : HostPath) : Bool :=
  (i, p) ∈ r.there ∨ ∃ t ∈ (r.service.upload.file i).tasks, t.opens = some p

/-- A cancelled file's temporary is not pending, and nothing but what is answered would remove
it. -/
def forgets (r : Remains) (i : ℕ) : Bool :=
  let v := r.service.upload.file i
  v.item.state = .cancelled ∧ (v.item.temp.any fun p => p ∉ r.pending) ∧
    ∀ t ∈ v.tasks, t.isAfterStop = false

/-- The step leaves a temporary that nobody is to remove. -/
def leaves (r : Remains) : Step → Bool
  /- A chunk fails, or the open, and whoever waited for it does not ask whether its file was
  cancelled. -/
  | .answer (.write i _ _ _) (.fault _) _ => r.forgets i
  | .answer (.openTemp o _ _ _) (.fault _) _ => r.forgets o.i
  | .answer (.openTemp o p _ again) (.taken _) _ =>
    if again ∨ 0 < (r.service.upload.items o.i).acked then r.forgets o.i else (o.i, p) ∈ r.there
  -- `afterStop` has no connection to remove it over, and forgets it.
  | .answer (.afterStop i _) _ _ | .answer (.openStopped i _) _ _ =>
    let item := r.service.upload.items i
    item.state = .cancelled ∧ r.service.upload.connected = false ∧
      (item.temp.any fun p => p ∉ r.pending ∧ r.minds i p)
  -- It is removed before it is there.
  | .answer (.removing i p) _ _ =>
    p ∉ r.pending ∧ (r.service.upload.items i).temp ≠ some p ∧
      ∃ t ∈ (r.service.upload.file i).tasks, t.opens = some p
  -- A failed file's is not removed under its own name, nor without a connection.
  | .answer (.failedAbort i _ (some p)) _ _ =>
    ((r.service.upload.items i).direct ∨ r.service.upload.backend = none) ∧ (i, p) ∈ r.there ∧
      p ∉ r.pending
  -- `lookAtTemp` takes it for no file, or could not look.
  | .answer (.lookStat _ i p) (.stat there) _ => there.any Stat.isFile = false ∧ (i, p) ∈ r.there
  | .answer (.lookStat _ i p) (.fault k) _ => k = false ∧ (i, p) ∈ r.there
  | _ => false

/-- The call opens a pending temporary that its file has no record of. -/
def outstays (r : Remains) : Task → Bool
  | .openTemp o p _ _ => p ∈ r.pending ∧ (r.service.upload.items o.i).temp ≠ some p
  | _ => false

/-- What happens loses no temporary. -/
def Clean (r : Remains) : Event → Prop
  | .step step keeps =>
    OrderlyLife r.service step ∧ r.leaves step = false ∧ (keeps = false ∨ step.removed = none)
  | .removeDropped _ => True
  | .forgetDropped =>
    (∀ x ∈ r.there, x.2 ∉ r.pending) ∧ ∀ t ∈ r.service.upload.tasks, r.outstays t = false

instance (r : Remains) (e : Event) : Decidable (r.Clean e) :=
  match e with
  | .step _ _ => inferInstanceAs (Decidable (_ ∧ _ ∧ _))
  | .removeDropped _ => .isTrue trivial
  | .forgetDropped => inferInstanceAs (Decidable (_ ∧ _))

end Remains

/-! ### Answers -/

namespace Remains

variable {r : Remains} {i : ℕ} {t : Task} {a : Answer} {random : String} {keeps : Bool}
  {p : HostPath}

/-- What is known of a file's temporaries. -/
def scene (r : Remains) (i : ℕ) : Scene :=
  ⟨fun p => (i, p) ∈ r.there, r.pending, r.service.upload.dropped = true⟩

/-- The scene once a call is answered. -/
def sceneAfter (r : Remains) (i : ℕ) (keeps : Bool) (step : Step) : Scene :=
  { r.scene i with there := fun p => (i, p) ∈ r.after keeps step }

theorem mem_without {there : List (ℕ × HostPath)} {temp : Option HostPath} {x : ℕ × HostPath} :
    x ∈ without there temp ↔ x ∈ there ∧ some x.2 ≠ temp := by
  simp [without]

theorem there_of_mem_after (h : (i, p) ∈ r.after keeps (.answer t a random)) :
    (i, p) ∈ r.there ∧ (keeps = true ∨ t.removed ≠ some p) ∨
      t.makes a = some p ∧ t.file.getD 0 = i := by
  have hleft : ∀ x, x ∈ (if keeps then without r.there (r.service.upload.named t a)
      else without (without r.there (r.service.upload.named t a)) t.removed) →
      x ∈ r.there ∧ (keeps = true ∨ t.removed ≠ some x.2) := by
    intro x hx
    split at hx
    · next hk => exact ⟨(mem_without.mp hx).1, .inl hk⟩
    · obtain ⟨hx, hne⟩ := mem_without.mp hx
      exact ⟨(mem_without.mp hx).1, .inr (Ne.symm hne)⟩
  unfold after at h
  dsimp only at h
  cases hm : t.makes a with
  | none =>
    rw [hm] at h
    exact .inl (hleft _ h)
  | some q =>
    rw [hm] at h
    obtain heq | h := mem_cons.mp h
    · obtain ⟨rfl, rfl⟩ := Prod.mk.inj heq
      exact .inr ⟨rfl, rfl⟩
    · exact .inl (hleft _ h)

end Remains

/-! #### Every answer -/

namespace Remains

variable {r : Remains} {i key : ℕ} {t : Task} {a : Answer} {random : String} {keeps : Bool}
  {u : Upload} {p : HostPath} {v : FileView}

theorem not_there_of_removed (hkeeps : keeps = false ∨ t.removed = none)
    (hr : t.removed = some p) : (i, p) ∉ r.after keeps (.answer t a random) := by
  intro hp
  have hkept : keeps = false := hkeeps.resolve_right (by rw [hr]; nofun)
  obtain ⟨-, hk | hne⟩ | ⟨hm, -⟩ := there_of_mem_after hp
  · exact absurd (hkept.symm.trans hk) nofun
  · exact hne hr
  · cases t with
    | openTemp | openDirect => cases hr
    | _ => cases hm

theorem cleans_of_not_forgets {tasks : List Task} (hf : r.forgets i = false)
    (hnot : t.isAfterStop = false) (hs : (r.service.upload.items i).state = .cancelled)
    (hp : (r.service.upload.items i).temp = some p)
    (htasks : (r.service.upload.file i).tasks.erase t ⊆ tasks) :
    p ∈ r.pending ∨ ∃ t' ∈ tasks, t'.cleans = true := by
  by_cases hpending : p ∈ r.pending
  · exact .inl hpending
  · unfold forgets at hf
    simp only [file_item, hs, hp, any_some, hpending] at hf
    simp only [not_false_eq_true, decide_true, true_and, decide_eq_false_iff_not, not_forall,
      Bool.not_eq_false] at hf
    obtain ⟨t', ht', hafter⟩ := hf
    have hne : t' ≠ t := by
      rintro rfl
      exact absurd (hnot.symm.trans hafter) nofun
    refine .inr ⟨t', htasks ((mem_erase_of_ne hne).mpr ht'), ?_⟩
    cases t' with
    | afterStop => rfl
    | _ => cases hafter

/-- `afterStop` is answered, outside `open` or inside. -/
theorem traced_stopped (h : Traced i (r.scene i) [] (r.service.upload.file i))
    (hattempt : Attempt (r.service.upload.file i)) (ht : t ∈ (r.service.upload.file i).tasks)
    (hstops : (∃ sink, t = .afterStop i sink) ∨ ∃ s, t = .openStopped i s)
    (hleaves : r.leaves (.answer t a random) = false)
    (hu : { r.service.upload with tasks := r.service.upload.tasks.erase t }.answer random t a =
      some u) : Traced i (r.scene i) [] (u.file i) := by
  have herased := h.answered ht r.service.upload.nextKey
  have hminds : ∀ p, r.minds i p = false → ¬(r.scene i).there p ∧
      ∀ t' ∈ ((r.service.upload.file i).erase t r.service.upload.nextKey).tasks,
        t'.opens ≠ some p := by
    intro p hp
    unfold minds at hp
    simp only [decide_eq_false_iff_not, not_or, not_exists, not_and] at hp
    exact ⟨hp.1, fun t' ht' => hp.2 t' (mem_of_mem_erase ht')⟩
  have hlost : (r.service.upload.items i).state = .cancelled →
      r.service.upload.connected = false → ∀ p, (r.service.upload.items i).temp = some p →
      p ∈ r.pending ∨ ¬(r.scene i).there p ∧
        ∀ t' ∈ ((r.service.upload.file i).erase t r.service.upload.nextKey).tasks,
          t'.opens ≠ some p := by
    intro hs hc p hp
    by_cases hpending : p ∈ r.pending
    · exact .inl hpending
    · refine .inr (hminds p ?_)
      obtain ⟨sink, rfl⟩ | ⟨s, rfl⟩ := hstops <;> simpa [leaves, hs, hc, hp, hpending] using hleaves
  let w : Upload := { r.service.upload with tasks := r.service.upload.tasks.erase t }
  have hw : w.file i = (r.service.upload.file i).erase t r.service.upload.nextKey :=
    file_erase_self _
  obtain ⟨sink, rfl⟩ | ⟨s, rfl⟩ := hstops
  · cases a with
    | done =>
      cases hu
      rw [file_stopped, hw]
      obtain ⟨hstopped, hnone⟩ := herased.stopped r.service.upload.connected hlost
      refine hstopped.settle nofun (fun _ hs p hp _ => ?_) nofun nofun
      exact absurd ((hnone hs).symm.trans hp) nofun
    | _ => cases hu
  · cases a with
    | done =>
      cases hu
      rw [file_openStopped, hw]
      obtain ⟨hidle, -⟩ := hattempt.answered ht rfl (by decide) r.service.upload.nextKey
      obtain ⟨hstopped, hnone⟩ := herased.openStopped hidle.phases r.service.upload.connected
        fun hs hc p hp => (hlost hs hc p hp).imp_right And.left
      refine hstopped.settle nofun (fun _ hs p hp _ => ?_) nofun nofun
      exact absurd ((hnone hs).symm.trans hp) nofun
    | _ => cases hu

/-- Whatever is answered, every temporary there is accounted for. -/
theorem traced_answer (h : Traced i (r.scene i) [] (r.service.upload.file i))
    (hattempt : Attempt (r.service.upload.file i)) (hi : r.service.upload.tree.IsFile i)
    (htasks : t ∈ r.service.upload.tasks) (hti : t.file = some i)
    (hok : Orderly r.service (.answer t a random)) (hleaves : r.leaves (.answer t a random) = false)
    (hkeeps : keeps = false ∨ t.removed = none)
    (hu : { r.service.upload with tasks := r.service.upload.tasks.erase t }.answer random t a =
      some u)
    (ha : Answers i ((r.service.upload.file i).erase t key) t a v) (hv : v = u.file i) :
    Traced i (r.sceneAfter i keeps (.answer t a random)) [] (u.file i) := by
  have ht := mem_tasks_file htasks hti
  have hfits := h.fits t ht
  have herased := h.answered ht key
  have hquiet : ∀ p, t.phase = some p → ((r.service.upload.file i).erase t key).phases = [] :=
    fun p hp => (FileView.phases_erase_of_some ht hp hattempt.one key).2
  have hlive : ∀ p, t.phase = some p →
      ¬((r.service.upload.file i).erase t key).item.ended := by
    intro p hp hend
    have hallowed := hattempt.allowed p (FileView.mem_phases ht hp)
    exact hend.elim (Phase.not_allows_placed hallowed) (Phase.not_allows_skipped hallowed)
  -- unless a temporary comes to be on the host, what is known of those before is enough
  have hless : t.makes a = none → ∀ {w extra}, Traced i (r.scene i) extra w →
      Traced i (r.sceneAfter i keeps (.answer t a random)) extra w := by
    intro hm w extra hw
    refine hw.mono (fun p hp => ?_) (Subset.refl _) id
    obtain ⟨hthere, -⟩ | ⟨hmade, -⟩ := there_of_mem_after hp
    · exact hthere
    · cases hm.symm.trans hmade
  by_cases hlooking : t.phase = some .looking
  · have hcalm := hok.1.not_mem_takesUp hi.2 htasks hti
    have hmakes : t.makes a = none := by
      cases t with
      | openTemp | openDirect => cases hlooking
      | _ => rfl
    refine Traced.looks (w := { r.service.upload with tasks := r.service.upload.tasks.erase t })
      ?_ ?_ hlooking hti ?_ hfits (fun k p hp hw hthere => ?_)
      (fun p hp => not_there_of_removed hkeeps hp) hu
    · rw [file_erase_self]
      exact hless hmakes (h.answered ht _)
    · rw [file_erase_self]
      exact hquiet _ hlooking
    · rwa [takesUp_erase]
    · subst hp
      obtain ⟨hbefore, -⟩ | ⟨hmade, -⟩ := there_of_mem_after hthere
      · obtain ⟨there, rfl, hfile⟩ | rfl := hw
        · simp [leaves, hfile, hbefore] at hleaves
        · simp [leaves, hbefore] at hleaves
      · cases hmakes.symm.trans hmade
  by_cases hstops : (∃ sink, t = .afterStop i sink) ∨ ∃ s, t = .openStopped i s
  · refine hless ?_ (traced_stopped h hattempt ht hstops hleaves hu)
    obtain ⟨sink, rfl⟩ | ⟨s, rfl⟩ := hstops <;> rfl
  rw [not_or, not_exists, not_exists] at hstops
  have hplain : t.removes = none → t.cleans = false → t.makes a = none →
      ∀ {w}, Traced i (r.scene i) [t] w →
        Traced i (r.sceneAfter i keeps (.answer t a random)) [] w :=
    fun hr hc hm _ hw => hless hm (hw.settlePlain hr hc)
  cases ha with
  | openThrew t k hp _ =>
    rw [← hv]
    have hthrew := herased.await (t := .openFailed i k) (by rintro _ ⟨⟩) trivial
    cases t with
    | openTemp o p resumeAt again =>
      obtain rfl : o.i = i := some.inj hti
      refine (hless rfl hthrew).settle (by rintro _ ⟨⟩) (fun _ hs q hq _ => ?_) (by rintro _ ⟨⟩)
        (by rintro ⟨⟩)
      exact cleans_of_not_forgets hleaves rfl hs hq (subset_append_left _ _)
    | openRemove | openStopped | openStoppedRemove => cases hu
    | openBackend | openStat | openTruncate | openPlacement | openDirect | openFailed =>
      exact hplain rfl rfl rfl hthrew
    | foldersBackend | mkdirs | keepBothFolder | retryConnect | takeUpBackend | looked
    | lookFailed => cases hti
    | _ => cases hp
  | openReached held a exec verify target random =>
    exact hv ▸ hplain rfl rfl rfl (herased.openReached (hquiet _ rfl) verify random)
  | openLooked o temp a there verify random =>
    exact hv ▸ hplain rfl rfl rfl (herased.openLooked (hquiet _ rfl) there verify random)
  | openTruncated o temp size verify random =>
    exact hv ▸ hplain rfl rfl rfl (herased.openGoOn (hquiet _ rfl) verify random)
  | openNotTruncated o temp size =>
    exact hv ▸ hplain rfl rfl rfl (herased.call (by rintro _ ⟨⟩) (.inr rfl))
  | openRemoved o temp verify random' =>
    rw [← hv]
    have hremoved : ∀ p, temp = some p →
        (i, p) ∉ r.after keeps (.answer (.openRemove o temp) .done random) := by
      rintro p rfl
      exact not_there_of_removed hkeeps rfl
    have hrestarted := (hless rfl herased).restartFile (hquiet _ rfl) fun p hp hthere => ?_
    · refine (hrestarted.openGoOn (hquiet _ rfl) verify random').settle (fun p hp hthere => ?_)
        (by rintro ⟨⟩) (by rintro _ ⟨⟩) (by rintro ⟨⟩)
      cases temp with
      | none => cases hp
      | some q => exact absurd hthere (hremoved p hp)
    · obtain hnone | hsome := hfits
      · cases hnone.symm.trans hp
      · exact absurd hthere (hremoved p (hsome.symm.trans hp))
  | openTemporary o verify random =>
    exact hv ▸ hplain rfl rfl rfl (herased.openNew (hquiet _ rfl) hfits verify random)
  | openOwnName o verify n path =>
    exact hv ▸ hplain rfl rfl rfl ((herased.edit rfl id id id id).call (by rintro _ ⟨⟩) hfits)
  | openedDirect o n path name hi =>
    rw [← hv]
    have hs : (r.service.upload.items i).state = .sending := by
      have hlate := hok.2
      rw [Step.opensLate, hi] at hlate
      simpa using hlate
    have hopened := (herased.openedDirect (hquiet _ rfl) hfits hs path name).settlePlain rfl rfl
    refine (hopened.gains (p := path) (.inl rfl) fun hc => ?_).mono (fun p hp => ?_)
      (Subset.refl _) id
    · exact absurd (hs.symm.trans hc) (by decide)
    · obtain ⟨hthere, -⟩ | ⟨hmade, -⟩ := there_of_mem_after hp
      · exact .inr hthere
      · exact .inl (some.inj hmade).symm
  | openConflict o n path existing policy held connected =>
    exact hv ▸ hplain rfl rfl rfl ((herased.conflictFound (hquiet _ rfl) (hlive _ rfl) (.inl hfits)
      policy existing held connected).await (by rintro _ ⟨⟩) trivial)
  | openNextName o n path path' existing =>
    exact hv ▸ hplain rfl rfl rfl (herased.openDirect hfits (n + 1) path')
  | openedTemp o p resumeAt again =>
    rw [← hv]
    obtain ⟨hopened, ⟨htemp, htasks⟩, hcleans⟩ := herased.openedTemp
    have hsettled := hopened.settle (by rintro _ ⟨⟩) (fun _ hs _ _ _ => .inr (hcleans hs))
      (by rintro _ ⟨⟩) (by rintro ⟨⟩)
    refine (hsettled.gains (p := p) ?_ hcleans).mono (fun q hq => ?_) (Subset.refl _) id
    · rw [htemp]
      refine (h.opening _ ht p rfl).imp_right (Or.imp_right fun hr => ⟨.removing i p, ?_, rfl⟩)
      have hne : Task.removing i p ≠ .openTemp o p resumeAt again := by simp
      exact htasks ((mem_erase_of_ne hne).mpr hr)
    · obtain ⟨hthere, -⟩ | ⟨hmade, -⟩ := there_of_mem_after hq
      · exact .inr hthere
      · exact .inl (some.inj hmade).symm
  | openTempTaken o p resumeAt again existing hi =>
    obtain rfl := hi
    by_cases hfinal : again = true ∨ 0 < (r.service.upload.items o.i).acked
    · rw [← hv]
      have hforgets : r.forgets o.i = false := (if_pos hfinal).symm.trans hleaves
      have hthrew := herased.await (t := .openFailed o.i false) (by rintro _ ⟨⟩) trivial
      refine (hless rfl hthrew).settle (by rintro _ ⟨⟩) (fun _ hs q hq _ => ?_) (by rintro _ ⟨⟩)
        (by rintro ⟨⟩)
      exact cleans_of_not_forgets hforgets rfl hs hq (subset_append_left _ _)
    · -- another name is tried
      obtain rfl := some.inj ((if_neg hfinal).symm.trans hu)
      have hlast := congrArg (fun w : FileView => w.tasks.getLast?) hv
      rw [file_call_self rfl] at hlast
      simp [FileView.await, FileView.call] at hlast
  | openTempAgain o p resumeAt existing random' hi hacked =>
    rw [← hv]
    obtain rfl := hi
    have hnot : (o.i, p) ∉ r.there := by
      have hfinal : ¬(false = true ∨ 0 < (r.service.upload.items o.i).acked) :=
        not_or.mpr ⟨by simp, Int.not_lt.mpr hacked⟩
      have hthere : decide ((o.i, p) ∈ r.there) = false := (if_neg hfinal).symm.trans hleaves
      exact of_decide_eq_false hthere
    let q := tempPathFor o.target random'
    have hrecorded := (herased.same (w := { (r.service.upload.file o.i).erase _ key with
        calls := (r.service.upload.file o.i).calls ++ [.openTemp o q resumeAt true] }) rfl
      rfl).records (p := q) (t := .openTemp o q resumeAt true)
      (f := fun item => { item with temp := some q }) (hquiet _ rfl) (fun p' hp' => ?_) rfl rfl
      rfl (fun p' hp' => (some.inj hp').symm) (.inr rfl) (.inl rfl)
    · refine (hless rfl hrecorded).settle (by rintro _ ⟨⟩) (fun _ _ _ _ _ => .inr ?_)
        (by rintro _ ⟨⟩) (by rintro ⟨⟩)
      exact ⟨.openTemp o q resumeAt true, mem_append_right _ (mem_singleton_self _), rfl⟩
    · obtain hnone | hsome := hfits
      · cases hnone.symm.trans hp'
      · obtain ⟨rfl⟩ := hsome.symm.trans hp'
        exact hnot
  | openStopped s => exact absurd rfl (hstops.2 s)
  | openStoppedRemoved p =>
    have hopened := herased.await (t := .opened i) (by rintro _ ⟨⟩) trivial
    refine hv ▸ (hless rfl hopened).settle (fun q hq hthere => ?_) (by rintro ⟨⟩) (by rintro _ ⟨⟩)
      (by rintro ⟨⟩)
    exact absurd hthere (not_there_of_removed hkeeps hq)
  | openedWhole => exact hv ▸ hplain rfl rfl rfl herased.finishFile
  | opened | openFailedStopped | aborted => exact hv ▸ hplain rfl rfl rfl herased
  | openFailed k =>
    exact hv ▸ hplain rfl rfl rfl (herased.fileFailed (hquiet _ rfl) (hlive _ rfl) k)
  | receiving offset data => exact hv ▸ hplain rfl rfl rfl (herased.receiving offset data)
  | written s offset data =>
    obtain ⟨hwritten, hwriting, hcleans⟩ := herased.written s data
    exact hv ▸ (hless rfl hwritten).settle (by rintro _ ⟨⟩)
      (fun _ hs _ _ _ => .inr (hcleans hs)) (by rintro _ ⟨⟩) fun _ => hwriting
  | writeFailed s offset data k =>
    rw [← hv]
    obtain ⟨hfailed, hwriting, hcancelled⟩ := herased.writeFailed (hquiet _ rfl) k
    refine (hless rfl hfailed).settle (by rintro _ ⟨⟩) (fun _ hs p hp _ => ?_)
      (by rintro _ ⟨⟩) fun _ => hwriting
    obtain ⟨hstate, htemp, htasks⟩ := hcancelled hs
    refine cleans_of_not_forgets (t := .write i s offset data) hleaves rfl hstate
      (htemp.symm.trans hp) ?_
    rw [htasks]
    exact Subset.refl _
  | stopped sink => exact absurd rfl (hstops.1 sink)
  | finished s hash a how held =>
    exact hv ▸ hplain rfl rfl rfl (herased.finished (hquiet _ rfl) (hlive _ rfl) how held)
  | placeThrew t k hp =>
    have hfailed := herased.fileFailed (hquiet _ hp) (hlive _ hp) k
    cases t with
    | finish | placeBackend | placing => exact hv ▸ hplain rfl rfl rfl hfailed
    | foldersBackend | mkdirs | keepBothFolder | retryConnect | takeUpBackend | looked
    | lookFailed => cases hti
    | _ => cases hp
  | placeReached | placeNextName =>
    exact hv ▸ hplain rfl rfl rfl (herased.call (by rintro _ ⟨⟩) hfits)
  | placeNoName temp target n existing =>
    exact hv ▸ hplain rfl rfl rfl (herased.fileFailed (hquiet _ rfl) (hlive _ rfl) false)
  | placed temp target how a outcome name =>
    exact hv ▸ hplain rfl rfl rfl ((herased.edit rfl id id id id).filePlaced (hquiet _ rfl) _ _)
  | placeConflict temp target existing policy held connected =>
    exact hv ▸ hplain rfl rfl rfl (herased.conflictFound (hquiet _ rfl) (hlive _ rfl) hfits policy
      existing held connected)
  | failedRemoves sink p =>
    refine hv ▸ (hless rfl (herased.call (t := .removing i p) (by rintro _ ⟨⟩) trivial)).settle
      (fun q hq _ => .inr (.inr (.inr ⟨.removing i p, ?_, hq⟩))) (by rintro ⟨⟩)
      (by rintro _ ⟨⟩) (by rintro ⟨⟩)
    exact mem_append_right _ (mem_singleton_self _)
  | failedKeeps sink temp =>
    rw [← hv]
    cases temp with
    | none => exact hplain rfl rfl rfl herased
    | some p =>
      refine (hless rfl herased).settle (fun q hq hthere => ?_) (by rintro ⟨⟩) (by rintro _ ⟨⟩)
        (by rintro ⟨⟩)
      cases hq
      by_cases hkept : (r.service.upload.items i).direct = true ∨ r.service.upload.backend = none
      · obtain ⟨hthere, -⟩ | ⟨hmade, -⟩ := there_of_mem_after hthere
        · by_contra hnot
          have hpending : p ∉ r.pending := fun hp => hnot (.inr (.inr (.inl hp)))
          simp [leaves, hkept, hthere, hpending] at hleaves
        · cases hmade
      · obtain rfl := some.inj ((if_neg hkept).symm.trans hu)
        have hlength := congrArg (fun w : FileView => w.tasks.length) hv
        rw [file_call_self rfl, file_erase_self] at hlength
        simp [FileView.call, FileView.await, FileView.erase] at hlength
  | removed p =>
    rw [← hv]
    refine (hless rfl herased).settle (fun q hq hthere => ?_) (by rintro ⟨⟩)
      (fun q hq t' ht' ho => ?_) (by rintro ⟨⟩)
    · exact absurd hthere (not_there_of_removed hkeeps hq)
    · obtain ⟨-, rfl⟩ := Task.removing.inj hq
      by_contra hnot
      obtain ⟨htemp, hpending⟩ := not_or.mp hnot
      have hleft : r.leaves (.answer (.removing i p) .done random) = true := by
        exact decide_eq_true ⟨hpending, htemp, t', mem_of_mem_erase ht', ho⟩
      cases hleaves.symm.trans hleft
  | looked _ _ hp | lookRemoves _ _ _ _ hp | lookRestarts _ _ hp => exact absurd hp hlooking
  | lookTruncates => exact absurd rfl hlooking

end Remains

/-! ### Runs -/

theorem Start.no_temp (start : Start) (i : ℕ) : (start.service.upload.items i).temp = none := by
  have hitem : ∀ {u : Upload} {k : ℕ} {f : Item → Item}, (u.items i).temp = none →
      (∀ item, (f item).temp = item.temp ∨ (f item).temp = none) →
      ((u.edit k f).items i).temp = none := by
    intro u k f hu hf
    rw [edit_items]
    split
    · next hik =>
      subst hik
      exact (hf (u.items i)).elim (fun h => h.trans hu) id
    · exact hu
  have hstate : ∀ {u : Upload} {k : ℕ} {state : ItemState}, (u.items i).temp = none →
      ((u.setState k state).items i).temp = none := by
    intro u k state hu
    rw [setState_items]
    split
    · next hik =>
      subst hik
      exact hu
    · exact hu
  have hskip : ∀ (fuel : ℕ) (u : Upload) (k : ℕ), (u.items i).temp = none →
      ((skip fuel u k).items i).temp = none := by
    intro fuel u k hu
    refine skip_rec (P := fun v => (v.items i).temp = none)
      (fun v k h => hstate (hitem h fun _ => .inl rfl)) (fun v k h => ?_) (fun _ _ _ h => h) fuel hu k
    rw [restartFile_items]
    split
    · rfl
    · exact h
  have hitems : start.service.upload.items = start.upload.items := enqueueQueued_items _
  rw [hitems]
  refine Acts.applyPolicy_rec (P := fun u => (u.items i).temp = none) ?_ fun u k hu _ => ?_
  · rw [assemble_items]
    unfold Start.item
    split
    · rfl
    · split <;> rfl
    · rfl
    · rfl
  · unfold applyPolicyTo
    dsimp only
    split
    · exact hu
    · split
      · exact hskip _ u k hu
      · exact hitem hu fun _ => .inl rfl
      · split
        · exact hstate hu
        · exact hitem hu fun _ => .inl rfl
      · exact hstate hu

namespace Remains

variable {r r' : Remains} {i : ℕ} {e : Event} {step : Step} {keeps : Bool}

/-- What holds along clean runs. -/
structure Kept (r : Remains) : Prop where
  apart : r.service.Apart
  files : ∀ i, r.service.upload.tree.IsFile i →
    Traced i (r.scene i) [] (r.service.upload.file i)
  pending : r.service.upload.dropped = false → r.pending = []

theorem kept_begin (start : Start) : (begin start.service).Kept where
  apart := start.apart
  files i _ := by
    obtain ⟨hidle, hwriting⟩ := start.idle i
    have htemp := start.no_temp i
    unfold begin
    generalize start.service = s at *
    refine ⟨nofun, fun _ p hp => ?_, fun t ht p hp => ?_, fun t ht => ?_, fun hw => ?_⟩
    · exact absurd (htemp.symm.trans hp) nofun
    · exact absurd hp (FileView.opens_of_quiet hidle.phases ht)
    · exact Task.fits_of_phase (FileView.phase_of_quiet hidle.phases ht)
    · exact absurd (hwriting.symm.trans hw) nofun
  pending _ := rfl

theorem dropped_next {s s' : Service} (hk : s.upload.Kinded) (hrestart : step ≠ .restart)
    (hn : Uploads.next s step = some s') (hd : s.upload.dropped = true ∨ step.drops = true) :
    s'.upload.dropped = true := by
  cases Stepped.of_next hn with
  | work op u hlive hu =>
    have hdrops := hd.resolve_left (by rw [hlive]; nofun)
    cases op with
    | drop =>
      cases hu
      rfl
    | _ => cases hdrops
  | answer t a random u ht hu =>
    exact Changes.dropped (Changes.answered hk ht hu) (hd.resolve_right nofun)
  | lost | save => exact hd.resolve_right nofun
  | discard => rfl
  | restart => exact absurd rfl hrestart

theorem mem_recorded {u : Upload} {p : HostPath} (hi : u.tree.IsFile i)
    (hp : (u.items i).temp = some p) (hs : (u.items i).state ≠ .placed) : p ∈ recorded u := by
  refine mem_filterMap.mpr ⟨i, mem_range.mpr hi.1, ?_⟩
  rw [if_pos ⟨hi.2, hs⟩]
  exact hp

theorem kept_step (h : r.Kept) (hok : r.Clean (.step step keeps))
    (hn : r.next (.step step keeps) = some r') : r'.Kept := by
  obtain ⟨s', hs, rfl⟩ := map_eq_some_iff.mp hn
  obtain ⟨⟨hor, hrestart⟩, hleaves, hkeeps⟩ := hok
  have hdropped := dropped_next h.apart.kinded hrestart hs
  refine ⟨apart_next h.apart hor hs, fun i hi => ?_, fun hd => ?_⟩
  · dsimp only at hi ⊢
    rw [tree_next h.apart.kinded hs] at hi
    have hfile := h.files i hi
    by_cases hown : ∃ t a random, step = .answer t a random ∧ t.file = some i
    · obtain ⟨t, a, random, rfl, hti⟩ := hown
      cases Stepped.of_next hs with
      | answer _ _ _ u ht hu =>
        obtain ⟨key, -, ha⟩ := file_answer hi hor.1 ht hti hu
        refine (traced_answer hfile (h.apart.files i hi) hi ht hti hor hleaves hkeeps hu ha
          rfl).mono (fun _ hp => hp) (Subset.refl _) fun hd => hdropped (.inl hd)
    · have hscene : Traced i ⟨fun p => (i, p) ∈ r.after keeps step,
          if step.drops = true then r.pending ++ recorded r.service.upload else r.pending,
          s'.upload.dropped = true⟩ [] (r.service.upload.file i) := by
        refine hfile.mono (fun p hp => ?_) ?_ fun hd => hdropped (.inl hd)
        · cases step with
          | answer t a random =>
            obtain ⟨hthere, -⟩ | ⟨hmade, hti⟩ := there_of_mem_after hp
            · exact hthere
            · refine absurd ⟨t, a, random, rfl, ?_⟩ hown
              cases t with
              | openTemp | openDirect => exact congrArg some hti
              | _ => cases hmade
          | _ => exact hp
        · change r.pending ⊆ if step.drops = true then _ else _
          split
          · exact subset_append_left _ _
          · exact Subset.refl _
      obtain hhappens | ⟨t, a, random, key, hstep, -, hti, -⟩ :=
        file_next h.apart.kinded hi hor.1 hrestart hs
      · refine hscene.happens (fun hd p hp => ?_) hhappens
        rw [if_pos hd]
        by_cases hplaced : (r.service.upload.items i).state = .placed
        · exact .inr hplaced
        · exact .inl (mem_append_right _ (mem_recorded hi hp hplaced))
      · exact absurd ⟨t, a, random, hstep, hti⟩ hown
  · dsimp only at hd ⊢
    have hlive : ¬(r.service.upload.dropped = true ∨ step.drops = true) :=
      fun hgone => absurd (hd.symm.trans (hdropped hgone)) nofun
    obtain ⟨hbefore, hdrops⟩ := not_or.mp hlive
    rw [if_neg hdrops]
    exact h.pending (by simpa using hbefore)

theorem kept_forgetDropped (h : r.Kept) (hok : r.Clean .forgetDropped)
    (hn : r.next .forgetDropped = some r') : r'.Kept := by
  obtain ⟨hd, ⟨rfl⟩⟩ := ite_none_right_eq_some.mp hn
  obtain ⟨hremoved, hopened⟩ := hok
  refine ⟨h.apart, fun i hi => ?_, fun _ => rfl⟩
  have hfile := h.files i hi
  refine ⟨fun p hp => ?_, fun hs p hp hc => ?_, fun t ht p ho => ?_, hfile.fits, hfile.busy⟩
  · refine (hfile.traced p hp).imp_right (Or.imp_right (Or.imp_left fun hpending => ?_))
    exact absurd hpending (hremoved _ hp)
  · obtain hthere := hc.resolve_right fun hlive => hlive hd
    refine (hfile.cleaned hs p hp (.inl hthere)).imp_left fun hpending => ?_
    exact absurd hpending (hremoved _ hthere)
  · obtain hrecorded | hpending | hremoving := hfile.opening t ht p ho
    · exact .inl hrecorded
    · refine .inl ?_
      obtain ⟨htasks, hti⟩ := mem_filter.mp ht
      have hnot := hopened t htasks
      cases t with
      | openTemp o q resumeAt again =>
        obtain rfl : q = p := some.inj ho
        obtain rfl : o.i = i := by simpa [Task.file] using hti
        by_contra htemp
        cases hnot.symm.trans (decide_eq_true ⟨hpending, htemp⟩)
      | _ => cases ho
    · exact .inr (.inr hremoving)

theorem kept_next (h : r.Kept) (hok : r.Clean e) (hn : r.next e = some r') : r'.Kept := by
  cases e with
  | step step keeps => exact kept_step h hok hn
  | removeDropped p =>
    obtain ⟨-, ⟨rfl⟩⟩ := ite_none_right_eq_some.mp hn
    refine ⟨h.apart, fun i hi => ?_, h.pending⟩
    exact (h.files i hi).mono (fun q hq => (mem_without.mp hq).1) (Subset.refl _) id
  | forgetDropped => exact kept_forgetDropped h hok hn

end Remains

/-- **Cancelled files leave nothing behind.**  In every state of a clean run, a cancelled file that
the host is asked nothing for has no open write, and no temporary recorded unless its upload was
dropped; and the host holds none that was opened for it but those that are pending, of which there
are none until the upload is dropped. -/
theorem cancelled_leave_nothing (start : Start) {r : Remains}
    (h : Run Remains.next Remains.Clean (.begin start.service) r) {i : ℕ}
    (hi : r.service.upload.tree.IsFile i) (hs : (r.service.upload.items i).state = .cancelled)
    (hquiet : ∀ t ∈ (r.service.upload.file i).tasks, t.asks = false) :
    (r.service.upload.items i).sink = none ∧
      (r.service.upload.dropped = false → (r.service.upload.items i).temp = none) ∧
      (∀ p, (i, p) ∈ r.there → p ∈ r.pending) ∧
      (r.service.upload.dropped = false → r.pending = []) := by
  have hkept : r.Kept := h.invariant (Remains.kept_begin start) fun _ _ _ hr hok hn =>
    Remains.kept_next hr hok hn
  have hfile := hkept.files i hi
  have hasks : ∀ t ∈ (r.service.upload.file i).tasks, t.cleans = false ∧ t.removes = none := by
    intro t ht
    have hnot := hquiet t ht
    cases t with
    | opened | openFailed | receiving => exact ⟨rfl, rfl⟩
    | _ => exact nomatch hnot
  have hpending : ∀ p, (r.service.upload.items i).temp = some p →
      (i, p) ∈ r.there ∨ r.service.upload.dropped = false → p ∈ r.pending := by
    intro p hp hc
    have hcleaned := hfile.cleaned hs p hp (hc.imp_right (by simp [Remains.scene, ·]))
    refine hcleaned.resolve_right ?_
    rintro ⟨t, ht, hcleans⟩
    exact absurd ((hasks t ht).1.symm.trans hcleans) nofun
  refine ⟨(hkept.apart.files i hi).sink_of_not_sending ?_, fun hd => ?_, fun p hp => ?_,
    hkept.pending⟩
  · rw [file_item, hs]
    decide
  · cases htemp : (r.service.upload.items i).temp with
    | none => rfl
    | some p =>
      have hmem := hpending p htemp (.inr hd)
      rw [hkept.pending hd] at hmem
      exact nomatch hmem
  · obtain hend | hrecorded | hmem | ⟨t, ht, hremoves⟩ := hfile.traced p hp
    · rw [file_item] at hend
      unfold Item.ended at hend
      rw [hs] at hend
      exact absurd hend (by decide)
    · exact hpending p hrecorded (.inl hp)
    · exact hmem
    · exact absurd ((hasks t ht).2.symm.trans hremoves) nofun

/-- A file is cancelled while its temporary is being opened. -/
def cancelOpening : List Event :=
  let o : Opening := ⟨0, false, ["a"]⟩
  let steps : List Step :=
    [ .work (.pump 1 true),
      .answer (.openBackend 0 (some ⟨0, false, false⟩)) .done "r",
      .answer (.openPlacement o) (.placement false) "r",
      .work (.cancel none),
      .answer (.openTemp o [".a.r.partial"] 0 false) .done "r",
      .answer (.openStopped 0 1) .done "r",
      .answer (.openStoppedRemove 0 [".a.r.partial"]) .done "r",
      .answer (.opened 0) .done "r",
      .answer (.afterStop 0 none) .done "r" ]
  steps.map fun step => .step step false

/-- Once it is open it is closed and removed. -/
theorem cancelled_leave_nothing_opening :
    ∃ r, Run Remains.next Remains.Clean (.begin Start.pair.service) r ∧
      r.service.upload.leases = [0] ∧ (r.service.upload.items 0).temp = none ∧
      ∀ p, (0, p) ∉ r.there := by
  have hrun : Run Remains.next Remains.Clean (.begin Start.pair.service) _ :=
    .get cancelOpening (by decide +kernel) (by decide +kernel)
  obtain ⟨-, htemp, hthere, hpending⟩ := cancelled_leave_nothing _ hrun
    (i := 0) ⟨by decide +kernel, by decide +kernel⟩ (by decide +kernel) (by decide +kernel)
  refine ⟨_, hrun, by decide +kernel, htemp (by decide +kernel), fun p hp => ?_⟩
  have hmem := hthere p hp
  rw [hpending (by decide +kernel)] at hmem
  exact nomatch hmem

/-- A file is cancelled while it is being opened under its own name. -/
def cancelOpeningDirect : List Event :=
  let o : Opening := ⟨0, false, ["a"]⟩
  let steps : List Step :=
    [ .work (.pump 1 true),
      .answer (.openBackend 0 (some ⟨0, false, false⟩)) .done "r",
      .answer (.openPlacement o) (.placement true) "r",
      .work (.cancel none),
      .answer (.afterStop 0 none) .done "r",
      .answer (.openDirect o 0 ["a"]) .done "r",
      .answer (.opened 0) .done "r" ]
  steps.map fun step => .step step false

/-- It stays open, recorded and on the host. -/
theorem cancelled_direct_stays : ¬∀ r, Run Remains.next free (.begin Start.pair.service) r →
    ∀ i, r.service.upload.tree.IsFile i → (r.service.upload.items i).state = .cancelled →
      r.service.upload.tasks = [] → (r.service.upload.items i).sink = none ∧
        (r.service.upload.items i).temp = none ∧ ∀ p, (i, p) ∈ r.there → p ∈ r.pending := by
  intro hall
  have hrun : Run Remains.next free (.begin Start.pair.service) _ :=
    .get_free cancelOpeningDirect (by decide +kernel)
  obtain ⟨hnone, -⟩ := hall _ hrun 0 ⟨by decide +kernel, by decide +kernel⟩ (by decide +kernel)
    (by decide +kernel)
  exact absurd hnone (by decide +kernel)

end Lasterm.Transfer.Uploads
