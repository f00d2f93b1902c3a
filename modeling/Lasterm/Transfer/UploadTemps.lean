import Lasterm.Transfer.UploadSinks

/-!
# The temporaries of a file

A file is sent to a temporary on its host, or under its own name where a rename would replace.
Whoever has the temporary in hand when the file is cancelled or fails is to remove it: `afterStop`,
`fileFailed`, the open or the chunk under way (`transfers/transfer-service.ts`).

## Main results

* `Traced.befalls`, `Traced.happens` — what comes from elsewhere keeps that.
* `Traced.looks` — so does a look at the temporary that finds it.
-/

namespace Lasterm.Transfer.Uploads

open Transition Relation List Upload FileView Option

/-! ### What is opened and removed -/

/-- The temporary a call opens. -/
def Task.opens : Task → Option HostPath
  | .openTemp _ p _ _ => some p
  | _ => none

/-- The temporary a call removes, or is to remove next. -/
def Task.removes : Task → Option HostPath
  | .removing _ p | .openStoppedRemove _ p | .openRemove _ (some p) | .lookRemove _ _ p
  | .failedAbort _ _ (some p) => some p
  | _ => none

/-- A cancelled file's temporary is removed after the call. -/
def Task.cleans : Task → Bool
  | .afterStop _ _ | .openStopped _ _ | .openTemp _ _ _ _ | .write _ _ _ _ => true
  | _ => false

/-- `afterStop`, outside `open`. -/
def Task.isAfterStop : Task → Bool
  | .afterStop _ _ => true
  | _ => false

/-- The host, or something that waits for it, is asked for; the others follow at once. -/
def Task.asks : Task → Bool
  | .opened _ | .openFailed _ _ | .receiving _ _ _ => false
  | _ => true

/-- The temporary that is on the host once the call is answered so. -/
def Task.makes : Task → Answer → Option HostPath
  | .openTemp _ p _ _, .done | .openDirect _ _ p, .done => some p
  | _, _ => none

/-- The temporary the host was asked to remove. -/
def Task.removed : Task → Option HostPath
  | .removing _ p | .openStoppedRemove _ p | .openRemove _ (some p) | .lookRemove _ _ p => some p
  | _ => none

/-- The temporary the host has removed by then. -/
def Step.removed : Step → Option HostPath
  | .answer t _ _ => t.removed
  | _ => none

/-! ### What is known of a file's temporaries -/

/-- A temporary that is recorded is the one the call is about. -/
def Task.fits (item : Item) : Task → Prop
  | .openPlacement _ | .openDirect _ _ _ => item.temp = none
  | .openRemove _ q => item.temp = none ∨ item.temp = q
  | .openTemp _ q _ _ | .lookStat _ _ q | .lookTruncate _ _ q _ | .lookRemove _ _ q =>
    item.temp = none ∨ item.temp = some q
  | .placeBackend _ _ | .placing _ _ _ _ => item.temp = none ∨ item.tempWhole = true
  | _ => True

namespace Task

variable {t : Task} {p : HostPath} {item item' : Item}

theorem phase_of_opens (h : t.opens = some p) : t.phase = some .opening := by
  cases t with
  | openTemp => rfl
  | _ => cases h

theorem fits_of_phase (h : t.phase = none) : t.fits item := by
  cases t with
  | openPlacement | openDirect | openRemove | openTemp | lookStat | lookTruncate | lookRemove
  | placeBackend | placing => cases h
  | _ => trivial

theorem fits_of_none (h : item.temp = none) (t : Task) : t.fits item := by
  cases t with
  | openPlacement | openDirect => exact h
  | openRemove | openTemp | lookStat | lookTruncate | lookRemove | placeBackend | placing =>
    exact .inl h
  | _ => trivial

theorem fits_of_same (h : t.fits item) (htemp : item'.temp = item.temp)
    (hwhole : item.tempWhole = true → item'.tempWhole = true) : t.fits item' := by
  cases t with
  | openPlacement | openDirect | openRemove | openTemp | lookStat | lookTruncate | lookRemove =>
    unfold fits at h ⊢
    rw [htemp]
    exact h
  | placeBackend | placing =>
    unfold fits at h ⊢
    rw [htemp]
    exact h.imp id hwhole
  | _ => trivial

theorem cleans_of_writing (h : t.phase = some .writing) : t.cleans = true := by
  cases t with
  | write => rfl
  | _ => cases h

end Task

namespace FileView

variable {v : FileView} {t : Task} {p : HostPath}

theorem phase_of_quiet (hn : v.phases = []) (ht : t ∈ v.tasks) : t.phase = none :=
  filterMap_eq_nil_iff.mp hn t ht

theorem opens_of_quiet (hn : v.phases = []) (ht : t ∈ v.tasks) : t.opens ≠ some p := by
  intro ho
  have hp := (phase_of_quiet hn ht).symm.trans (Task.phase_of_opens ho)
  cases hp

end FileView

/-- What is known of a file's temporaries: those on the host, those pending, and whether its upload
was dropped. -/
structure Scene where
  there : HostPath → Prop
  pending : List HostPath
  gone : Prop

/-- Every temporary of the file is known to someone who is to remove it; `extra` is being
answered. -/
structure Traced (i : ℕ) (c : Scene) (extra : List Task) (v : FileView) : Prop where
  /-- One on the host is recorded, pending, or about to be removed, as long as the file has not
  ended. -/
  traced : ∀ p, c.there p → v.item.ended ∨ v.item.temp = some p ∨ p ∈ c.pending ∨
    ∃ t ∈ extra ++ v.tasks, t.removes = some p
  /-- One a cancelled file has recorded is removed after a call under way. -/
  cleaned : v.item.state = .cancelled → ∀ p, v.item.temp = some p → c.there p ∨ ¬c.gone →
    p ∈ c.pending ∨ ∃ t ∈ extra ++ v.tasks, t.cleans = true
  /-- One that is being opened is recorded, pending, or about to be removed. -/
  opening : ∀ t ∈ v.tasks, ∀ p, t.opens = some p →
    v.item.temp = some p ∨ p ∈ c.pending ∨ .removing i p ∈ extra ++ v.tasks
  fits : ∀ t ∈ v.tasks, t.fits v.item
  busy : v.item.writing = true → ∃ t ∈ extra ++ v.tasks, t.phase = some .writing

namespace Traced

variable {i : ℕ} {c c' : Scene} {extra : List Task} {v v' : FileView} {t : Task} {p : HostPath}
  {f : Item → Item}

theorem same {w : FileView} (h : Traced i c extra v) (hitem : w.item = v.item)
    (htasks : w.tasks = v.tasks) : Traced i c extra w := by
  obtain ⟨htraced, hcleaned, hopening, hfits, hbusy⟩ := h
  rw [← hitem, ← htasks] at *
  exact ⟨htraced, hcleaned, hopening, hfits, hbusy⟩

section

variable (h : Traced i c extra v)
include h

theorem mono (hthere : ∀ p, c'.there p → c.there p)
    (hpending : c.pending ⊆ c'.pending) (hgone : c.gone → c'.gone) : Traced i c' extra v where
  traced p hp := (h.traced p (hthere p hp)).imp_right (Or.imp_right (Or.imp_left (hpending ·)))
  cleaned hs p hp hc :=
    (h.cleaned hs p hp (hc.imp (hthere p) (mt hgone))).imp_left (hpending ·)
  opening t ht p hp := (h.opening t ht p hp).imp_right (Or.imp_left (hpending ·))
  fits := h.fits
  busy := h.busy

theorem alter (htemp : (f v.item).temp = v.item.temp)
    (hwhole : v.item.tempWhole = true → (f v.item).tempWhole = true)
    (hwriting : (f v.item).writing = true → v.item.writing = true)
    (hend : v.item.ended → (f v.item).ended)
    (hcleaned : (f v.item).state = .cancelled → ∀ p, v.item.temp = some p →
      c.there p ∨ ¬c.gone → p ∈ c.pending ∨ ∃ t ∈ extra ++ v.tasks, t.cleans = true) :
    Traced i c extra (v.edit f) where
  traced p hp := by
    refine (h.traced p hp).imp hend (Or.imp_left fun htemp' => ?_)
    exact htemp.trans htemp'
  cleaned hs p hp := hcleaned hs p (htemp.symm.trans hp)
  opening t ht p hp := (h.opening t ht p hp).imp_left htemp.trans
  fits t ht := Task.fits_of_same (h.fits t ht) htemp hwhole
  busy hw := h.busy (hwriting hw)

theorem edit (htemp : (f v.item).temp = v.item.temp)
    (hwhole : v.item.tempWhole = true → (f v.item).tempWhole = true)
    (hwriting : (f v.item).writing = true → v.item.writing = true)
    (hend : v.item.ended → (f v.item).ended)
    (hs : (f v.item).state = .cancelled → v.item.state = .cancelled) :
    Traced i c extra (v.edit f) :=
  h.alter htemp hwhole hwriting hend fun hcancelled => h.cleaned (hs hcancelled)

theorem letGo (htemp : (f v.item).temp = none)
    (hwriting : (f v.item).writing = true → v.item.writing = true)
    (hend : v.item.ended → (f v.item).ended)
    (hgone : ∀ p, v.item.temp = some p → c.there p → (f v.item).ended ∨ p ∈ c.pending ∨
      ∃ t ∈ extra ++ v.tasks, t.removes = some p)
    (hopen : ∀ t ∈ v.tasks, ∀ p, t.opens = some p → v.item.temp = some p →
      p ∈ c.pending ∨ .removing i p ∈ extra ++ v.tasks) :
    Traced i c extra (v.edit f) where
  traced p hp := by
    obtain hended | hrecorded | helse := h.traced p hp
    · exact .inl (hend hended)
    · exact (hgone p hrecorded hp).imp_right .inr
    · exact .inr (.inr helse)
  cleaned _ p hp := absurd (htemp.symm.trans hp) nofun
  opening t ht p hp := .inr ((h.opening t ht p hp).elim (hopen t ht p hp) id)
  fits t _ := Task.fits_of_none htemp t
  busy hw := h.busy (hwriting hw)

theorem await (hopens : ∀ p, t.opens = some p → v.item.temp = some p)
    (hfits : t.fits v.item) : Traced i c extra (v.await t) where
  traced p hp := by
    refine (h.traced p hp).imp_right (Or.imp_right (Or.imp_right ?_))
    rintro ⟨t', ht', hr⟩
    exact ⟨t', by simp only [FileView.await, mem_append] at ht' ⊢; tauto, hr⟩
  cleaned hs p hp hc := by
    refine (h.cleaned hs p hp hc).imp_right ?_
    rintro ⟨t', ht', hr⟩
    exact ⟨t', by simp only [FileView.await, mem_append] at ht' ⊢; tauto, hr⟩
  opening t' ht' p hp := by
    obtain ht' | ht' := mem_append.mp ht'
    · refine (h.opening t' ht' p hp).imp_right (Or.imp_right fun hr => ?_)
      simp only [FileView.await, mem_append] at hr ⊢
      tauto
    · obtain rfl := mem_singleton.mp ht'
      exact .inl (hopens p hp)
  fits t' ht' := by
    obtain ht' | ht' := mem_append.mp ht'
    · exact h.fits t' ht'
    · obtain rfl := mem_singleton.mp ht'
      exact hfits
  busy hw := by
    obtain ⟨t', ht', hr⟩ := h.busy hw
    exact ⟨t', by simp only [FileView.await, mem_append] at ht' ⊢; tauto, hr⟩

theorem call (hopens : ∀ p, t.opens = some p → v.item.temp = some p)
    (hfits : t.fits v.item) : Traced i c extra (v.call t) :=
  (h.same (w := { v with calls := v.calls ++ [t] }) rfl rfl).await hopens hfits

theorem records (hn : v.phases = [])
    (hold : ∀ q, v.item.temp = some q → ¬c.there q) (htemp : (f v.item).temp = some p)
    (hwriting : (f v.item).writing = v.item.writing) (hstate : (f v.item).state = v.item.state)
    (hopens : ∀ q, t.opens = some q → q = p) (hfits : t.fits (f v.item))
    (hcleans : t.cleans = true ∨ v.item.state ≠ .cancelled) :
    Traced i c extra ((v.edit f).await t) where
  traced q hq := by
    obtain hended | hrecorded | hpending | ⟨t', ht', hr⟩ := h.traced q hq
    · refine .inl ?_
      change (f v.item).state = _ ∨ (f v.item).state = _
      rw [hstate]
      exact hended
    · exact absurd hq (hold q hrecorded)
    · exact .inr (.inr (.inl hpending))
    · refine .inr (.inr (.inr ⟨t', ?_, hr⟩))
      simp only [FileView.await, FileView.edit, mem_append] at ht' ⊢
      tauto
  cleaned hs _ _ _ := by
    refine .inr ⟨t, by simp [FileView.await], hcleans.resolve_right fun hne => hne ?_⟩
    exact hstate.symm.trans hs
  opening t' ht' q hq := by
    obtain ht' | ht' := mem_append.mp ht'
    · exact absurd hq (opens_of_quiet hn ht')
    · obtain rfl := mem_singleton.mp ht'
      rw [hopens q hq]
      exact .inl htemp
  fits t' ht' := by
    obtain ht' | ht' := mem_append.mp ht'
    · exact Task.fits_of_phase (phase_of_quiet hn ht')
    · obtain rfl := mem_singleton.mp ht'
      exact hfits
  busy hw := by
    obtain ⟨t', ht', hr⟩ := h.busy (hwriting.symm.trans hw)
    exact ⟨t', by simp only [FileView.await, FileView.edit, mem_append] at ht' ⊢; tauto, hr⟩

/-- One more temporary is on the host. -/
theorem gains (hp : v.item.temp = some p ∨ p ∈ c.pending ∨
      ∃ t ∈ extra ++ v.tasks, t.removes = some p)
    (hc : v.item.state = .cancelled → ∃ t ∈ extra ++ v.tasks, t.cleans = true) :
    Traced i { c with there := fun q => q = p ∨ c.there q } extra v where
  traced q hq := by
    obtain rfl | hq := hq
    · exact .inr hp
    · exact h.traced q hq
  cleaned hs _ _ _ := .inr (hc hs)
  opening := h.opening
  fits := h.fits
  busy := h.busy

end

/-! #### What is answered -/

/-- What was known still is, with the answered call apart. -/
theorem answered (h : Traced i c [] v) (ht : t ∈ v.tasks) (key : ℕ) :
    Traced i c [t] (v.erase t key) where
  traced p hp := by
    refine (h.traced p hp).imp_right (Or.imp_right (Or.imp_right ?_))
    rintro ⟨t', ht', hr⟩
    exact ⟨t', (perm_cons_erase ht).subset ht', hr⟩
  cleaned hs p hp hc := by
    refine (h.cleaned hs p hp hc).imp_right ?_
    rintro ⟨t', ht', hr⟩
    exact ⟨t', (perm_cons_erase ht).subset ht', hr⟩
  opening t' ht' p hp := by
    refine (h.opening t' (mem_of_mem_erase ht') p hp).imp_right (Or.imp_right fun hr => ?_)
    exact (perm_cons_erase ht).subset hr
  fits t' ht' := h.fits t' (mem_of_mem_erase ht')
  busy hw := by
    obtain ⟨t', ht', hr⟩ := h.busy hw
    exact ⟨t', (perm_cons_erase ht).subset ht', hr⟩

/-- Where the answered call leaves nothing undone, it is forgotten. -/
theorem settle (h : Traced i c [t] v)
    (hremoves : ∀ p, t.removes = some p → c.there p → v.item.ended ∨ v.item.temp = some p ∨
      p ∈ c.pending ∨ ∃ t' ∈ v.tasks, t'.removes = some p)
    (hcleans : t.cleans = true → v.item.state = .cancelled → ∀ p, v.item.temp = some p →
      c.there p ∨ ¬c.gone → p ∈ c.pending ∨ ∃ t' ∈ v.tasks, t'.cleans = true)
    (hopens : ∀ p, t = .removing i p → ∀ t' ∈ v.tasks, t'.opens = some p →
      v.item.temp = some p ∨ p ∈ c.pending)
    (hwrites : t.phase = some .writing → v.item.writing = false) : Traced i c [] v where
  traced p hp := by
    obtain hended | hrecorded | hpending | ⟨t', ht', hr⟩ := h.traced p hp
    · exact .inl hended
    · exact .inr (.inl hrecorded)
    · exact .inr (.inr (.inl hpending))
    · obtain rfl | ht' := mem_cons.mp ht'
      · exact hremoves p hr hp
      · exact .inr (.inr (.inr ⟨t', ht', hr⟩))
  cleaned hs p hp hc := by
    obtain hpending | ⟨t', ht', hr⟩ := h.cleaned hs p hp hc
    · exact .inl hpending
    · obtain rfl | ht' := mem_cons.mp ht'
      · exact hcleans hr hs p hp hc
      · exact .inr ⟨t', ht', hr⟩
  opening t' ht' p hp := by
    obtain hrecorded | hpending | hr := h.opening t' ht' p hp
    · exact .inl hrecorded
    · exact .inr (.inl hpending)
    · obtain hr | hr := mem_cons.mp hr
      · exact (hopens p hr.symm t' ht' hp).imp_right .inl
      · exact .inr (.inr hr)
  fits := h.fits
  busy hw := by
    obtain ⟨t', ht', hr⟩ := h.busy hw
    obtain rfl | ht' := mem_cons.mp ht'
    · exact absurd ((hwrites hr).symm.trans hw) nofun
    · exact ⟨t', ht', hr⟩

theorem settlePlain (h : Traced i c [t] v) (hremoves : t.removes = none)
    (hcleans : t.cleans = false) : Traced i c [] v := by
  refine h.settle (fun p hp => ?_) (fun hc => ?_) (fun p hp => ?_) fun hw => ?_
  · exact absurd (hremoves.symm.trans hp) nofun
  · exact absurd (hcleans.symm.trans hc) nofun
  · rw [hp] at hremoves
    cases hremoves
  · exact absurd (hcleans.symm.trans (Task.cleans_of_writing hw)) nofun

/-! #### The service's functions -/

section Functions

variable {o : Opening} {held : Option Backend} {connected : Bool}

section

variable (h : Traced i c extra v)
include h

theorem setState {state : ItemState} (hlive : ¬v.item.ended)
    (hs : state ≠ .cancelled) : Traced i c extra (v.setState state) :=
  h.edit rfl id id (absurd · hlive) (absurd · hs)

theorem restartFile (hn : v.phases = [])
    (hgone : ∀ p, v.item.temp = some p → c.there p → v.item.ended ∨ p ∈ c.pending ∨
      ∃ t ∈ extra ++ v.tasks, t.removes = some p) : Traced i c extra v.restartFile :=
  h.letGo rfl id id hgone fun _ ht _ hp => absurd hp (opens_of_quiet hn ht)

theorem interrupt (hlive : ¬v.item.ended) : Traced i c extra (v.interrupt i) := by
  have hstopped : Traced i c extra (v.edit fun item =>
      { item with sink := none, state := .interrupted }) :=
    h.edit rfl id id (absurd · hlive) nofun
  unfold FileView.interrupt
  split
  · exact hstopped
  · split
    · exact hstopped
    · exact hstopped.call nofun trivial

/-- A chunk under way, or `afterStop`, is to remove the temporary of a file that is stopped. -/
theorem stopItem (hlive : ¬v.item.ended) : Traced i c extra (v.stopItem i) := by
  unfold FileView.stopItem
  split
  · next hw =>
    obtain ⟨t, ht, hphase⟩ := h.busy hw
    exact h.alter rfl id id (absurd · hlive) fun _ _ _ _ =>
      .inr ⟨t, ht, Task.cleans_of_writing hphase⟩
  · have hcalled := h.call (t := .afterStop i v.item.sink) nofun trivial
    refine (hcalled.alter (f := fun item => { item with sink := none, state := .cancelled }) rfl id
      id (absurd · hlive) fun _ _ _ _ => .inr ⟨.afterStop i v.item.sink, ?_, rfl⟩)
    exact mem_append_right _ (mem_append_right _ (mem_singleton_self _))

theorem dropItem (hpending : ∀ p, v.item.temp = some p → p ∈ c.pending ∨ v.item.state = .placed) :
    Traced i c extra (v.dropItem i) := by
  have hstopped : Traced i c extra (v.edit fun item => { item with
      sink := none, state := if item.state.unsettled then .cancelled else item.state }) := by
    refine h.alter rfl id id (fun hend => ?_) fun hs p hp _ => .inl ?_
    · unfold Item.ended at hend ⊢
      rcases hend with hend | hend <;> rw [hend] <;> simp [ItemState.unsettled]
    · refine (hpending p hp).resolve_right fun hplaced => ?_
      rw [hplaced] at hs
      cases hs
  unfold FileView.dropItem
  split
  · exact hstopped
  · split
    · exact hstopped
    · exact hstopped.call nofun trivial

theorem ofEnded (hn : v.phases = []) {f : Item → Item}
    (hend : (f v.item).ended) (hwriting : (f v.item).writing = v.item.writing) :
    Traced i c extra (v.edit f) where
  traced _ _ := .inl hend
  cleaned hs := by
    change (f v.item).state = .cancelled at hs
    unfold Item.ended at hend
    rw [hs] at hend
    exact absurd hend (by decide)
  opening t ht _ hp := absurd hp (opens_of_quiet hn ht)
  fits t ht := Task.fits_of_phase (phase_of_quiet hn ht)
  busy hw := h.busy (hwriting.symm.trans hw)

theorem skip (hn : v.phases = []) (connected : Bool) : Traced i c extra (v.skip i connected) := by
  have hskipped : Traced i c extra (v.edit fun item => { item with
      outcome := some .skipped, state := .skipped, acked := 0, temp := none, tempWhole := false
      hash := none, carried := false }) :=
    h.ofEnded hn (.inr rfl) rfl
  unfold FileView.skip
  split
  · exact hskipped
  · split
    · exact hskipped.call nofun trivial
    · exact hskipped

theorem filePlaced (hn : v.phases = []) (path : Option HostPath)
    (outcome : Outcome) : Traced i c extra (v.filePlaced path outcome) :=
  h.ofEnded hn (.inl rfl) rfl

theorem place (hlive : ¬v.item.ended) (hwhole : v.item.tempWhole = true)
    (held : Option Backend) : Traced i c extra (v.place i held) := by
  unfold FileView.place
  split
  · exact h
  · exact (h.setState hlive (by decide)).call nofun (.inr hwhole)

theorem fileFailed (hn : v.phases = []) (hlive : ¬v.item.ended)
    (interruption : Bool) : Traced i c extra (v.fileFailed i interruption) := by
  unfold FileView.fileFailed
  split
  · have hclosed : Traced i c extra (v.edit fun item => { item with sink := none }) :=
      h.edit rfl id id id id
    refine setState ?_ ?_ (by decide)
    · split
      · exact hclosed
      · exact hclosed.call nofun trivial
    · split <;> exact hlive
  · -- whoever closes the write has the temporary to remove
    have hcalled := h.call (t := .failedAbort i v.item.sink v.item.temp) nofun trivial
    refine hcalled.letGo (f := fun item => { item with
      sink := none, state := .failed, acked := 0, temp := none, tempWhole := false, hash := none
      carried := false }) rfl id (absurd · hlive) (fun p hp _ => ?_) fun t ht p hp => ?_
    · refine .inr (.inr ⟨.failedAbort i v.item.sink v.item.temp, ?_, ?_⟩)
      · exact mem_append_right _ (mem_append_right _ (mem_singleton_self _))
      · change v.item.temp = some p at hp
        rw [hp]
        rfl
    · refine absurd hp (opens_of_quiet ?_ ht)
      rw [phases_call, hn]
      rfl

theorem goAgain (hlive : ¬v.item.ended) (action : Action)
    (held : Option Backend) : Traced i c extra (v.goAgain i action held) := by
  have hresolved : Traced i c extra (v.edit fun item =>
      { item with resolution := some action }) := h.edit rfl id id id id
  unfold FileView.goAgain
  split
  · next hwhole => exact hresolved.place hlive hwhole held
  · exact hresolved.setState hlive (by decide)

theorem ask (hn : v.phases = []) (hlive : ¬v.item.ended)
    (hwhole : v.item.temp = none ∨ v.item.tempWhole = true) : Traced i c extra v.ask := by
  unfold FileView.ask
  split
  · exact h.setState hlive (by decide)
  · next hpart =>
    have hnone := hwhole.resolve_right hpart
    refine h.letGo (f := fun item => { item with sink := none, temp := none, state := .conflict })
      rfl id (absurd · hlive) (fun p hp => ?_) fun t ht p hp => ?_
    · exact absurd (hnone.symm.trans hp) nofun
    · exact absurd hp (opens_of_quiet hn ht)

theorem conflictFound (hn : v.phases = []) (hlive : ¬v.item.ended)
    (hwhole : v.item.temp = none ∨ v.item.tempWhole = true) (policy : Policy)
    (existing : Option FileEntry) (held : Option Backend) (connected : Bool) :
    Traced i c extra (v.conflictFound i policy existing held connected) := by
  have hfound : Traced i c extra (v.edit fun item => { item with
      existing, typeClash := (existing.map FileEntry.folderLike).getD false, late := true }) :=
    h.edit rfl id id id id
  unfold FileView.conflictFound
  dsimp only
  split
  · exact hfound.skip hn connected
  · exact hfound.goAgain hlive .keepBoth held
  · split
    · exact hfound.ask hn hlive hwhole
    · exact hfound.goAgain hlive .replace held
  · exact hfound.ask hn hlive hwhole

/-! #### Opening it -/

theorem openFile : Traced i c extra (v.openFile o) := by
  unfold FileView.openFile
  split
  · exact h
  · next p hp => exact h.call (fun q hq => hp.trans hq) (.inr hp)

theorem openNew (hn : v.phases = []) (hnone : v.item.temp = none)
    (verify : Bool) (random : String) : Traced i c extra (v.openNew o verify random) := by
  let p := tempPathFor o.target random
  refine (h.same (w := { v with calls := v.calls ++ [.openTemp o p v.item.acked false] }) rfl
    rfl).records (p := p) (t := .openTemp o p v.item.acked false)
    (f := fun item => { item with
      direct := false, hash := if verify then some [] else item.hash, temp := some p })
    hn (fun q hq => ?_) rfl rfl rfl (fun q hq => (some.inj hq).symm) (.inr rfl) (.inl rfl)
  exact absurd (hnone.symm.trans hq) nofun

theorem openGoOn (hn : v.phases = []) (verify : Bool) (random : String) :
    Traced i c extra (v.openGoOn o verify random) := by
  unfold FileView.openGoOn
  split
  · next hnone =>
    split
    · exact h.openNew hn hnone verify random
    · exact h.call nofun hnone
  · exact h.openFile

theorem openReached (hn : v.phases = []) (verify : Bool)
    (random : String) : Traced i c extra (v.openReached o verify random) := by
  unfold FileView.openReached
  split
  · next p hp =>
    split
    · exact h.call nofun trivial
    · exact h.call nofun (.inr hp)
  · exact h.openGoOn hn verify random

theorem openLooked (hn : v.phases = []) (there : Option Stat)
    (verify : Bool) (random : String) : Traced i c extra (v.openLooked o there verify random) := by
  have hgo : Traced i c extra (if v.item.acked < sizeThere there then
      v.call (.openTruncate o v.item.temp v.item.acked) else v.openGoOn o verify random) := by
    split
    · exact h.call nofun trivial
    · exact h.openGoOn hn verify random
  unfold FileView.openLooked
  by_cases hc : if o.exec && !v.item.carried then sizeThere there = v.item.acked
      else v.item.acked ≤ sizeThere there
  · rw [if_pos hc]
    exact hgo
  · rw [if_neg hc]
    exact h.call nofun (.inr rfl)

theorem openDirect (hnone : v.item.temp = none) (n : ℕ)
    (path : HostPath) : Traced i c extra (v.openDirect o n path) := by
  unfold FileView.openDirect
  split
  · exact h.await nofun trivial
  · exact h.call nofun hnone

theorem openedTemp : Traced i c extra (v.openedTemp i) ∧
    ((v.openedTemp i).item.temp = v.item.temp ∧ v.tasks ⊆ (v.openedTemp i).tasks) ∧
    ((v.openedTemp i).item.state = .cancelled → ∃ t ∈ (v.openedTemp i).tasks, t.cleans = true) := by
  have hkey := h.same (w := { v with key := v.key + 1 }) rfl rfl
  unfold FileView.openedTemp
  split
  · next hs =>
    refine ⟨(hkey.edit (f := fun item => { item with sink := some v.key }) rfl id id id id).await
      nofun trivial, ⟨rfl, subset_append_left _ _⟩, fun hc => ?_⟩
    exact absurd (hs.symm.trans hc) (by decide)
  · refine ⟨(hkey.edit (f := fun item => { item with sink := none }) rfl id id id id).call nofun
      trivial, ⟨rfl, subset_append_left _ _⟩, fun _ => ⟨.openStopped i v.key, ?_, rfl⟩⟩
    exact mem_append_right _ (mem_singleton_self _)

theorem openedDirect (hn : v.phases = []) (hnone : v.item.temp = none)
    (hs : v.item.state = .sending) (path : HostPath) (name : Option String) :
    Traced i c extra (v.openedDirect i path name) := by
  refine (h.same (w := { v with key := v.key + 1 }) rfl rfl).records (p := path)
    (t := .opened i) (f := fun item => { item with
      sink := some v.key, temp := some path, finalName := name }) hn (fun q hq => ?_) rfl rfl rfl
    nofun trivial (.inr ?_)
  · exact absurd (hnone.symm.trans hq) nofun
  · change v.item.state ≠ .cancelled
    rw [hs]
    decide

/-! #### Its bytes, and its place -/

theorem finishFile : Traced i c extra (v.finishFile i) := by
  unfold FileView.finishFile
  split
  · exact h
  · split
    · next hs =>
      refine (h.edit (f := fun item => { item with sink := none, state := .verifying }) rfl id id
        (fun hend => ?_) nofun).call nofun trivial
      unfold Item.ended at hend
      simp [hs] at hend
    · exact h

theorem receiving (offset : ℕ) (data : List UInt8) :
    Traced i c extra (v.receiving i offset data) := by
  unfold FileView.receiving
  split
  · exact h
  · next k _ =>
    split
    · have hcalled := h.call (t := .write i k offset data) nofun trivial
      refine ⟨hcalled.traced, hcalled.cleaned, hcalled.opening, fun t ht => ?_, fun _ => ?_⟩
      · exact Task.fits_of_same (hcalled.fits t ht) rfl id
      · refine ⟨.write i k offset data, ?_, rfl⟩
        exact mem_append_right _ (mem_append_right _ (mem_singleton_self _))
    · exact h

theorem written (s : ℕ) (data : List UInt8) :
    Traced i c extra (v.written i s data) ∧ (v.written i s data).item.writing = false ∧
      ((v.written i s data).item.state = .cancelled →
        ∃ t ∈ (v.written i s data).tasks, t.cleans = true) := by
  have hended : Traced i c extra (v.edit fun item => { item with writing := false }) :=
    h.edit rfl id nofun id id
  unfold FileView.written
  dsimp only
  split
  · next hs =>
    have hgrown : Traced i c extra ((v.edit fun item => { item with writing := false }).edit
        fun item => { item with
          hash := item.hash.map (· ++ data), acked := item.acked + data.length }) :=
      hended.edit rfl id id id id
    have hnot : v.item.state ≠ .cancelled := by
      rw [hs]
      decide
    split
    · refine ⟨hgrown.finishFile, ?_⟩
      unfold FileView.finishFile
      split
      · exact ⟨rfl, fun hc => absurd hc hnot⟩
      · split
        · exact ⟨rfl, nofun⟩
        · exact ⟨rfl, fun hc => absurd hc hnot⟩
    · exact ⟨hgrown, rfl, fun hc => absurd hc hnot⟩
  · refine ⟨hended.call nofun trivial, rfl, fun _ => ⟨.afterStop i (some s), ?_, rfl⟩⟩
    exact mem_append_right _ (mem_singleton_self _)

theorem writeFailed (hn : v.phases = []) (interruption : Bool) :
    Traced i c extra (v.writeFailed i interruption) ∧
      (v.writeFailed i interruption).item.writing = false ∧
      ((v.writeFailed i interruption).item.state = .cancelled → v.item.state = .cancelled ∧
        (v.writeFailed i interruption).item.temp = v.item.temp ∧
        (v.writeFailed i interruption).tasks = v.tasks) := by
  unfold FileView.writeFailed
  split
  · next hs =>
    have hlive : ¬v.item.ended := by
      rintro (hend | hend) <;> simp [hend] at hs
    refine ⟨(h.fileFailed hn hlive interruption).edit rfl id nofun id id, rfl, fun hc => ?_⟩
    unfold FileView.fileFailed at hc
    dsimp only [FileView.edit] at hc
    split at hc
    · split at hc <;> exact nomatch hc
    · cases hc
  · exact ⟨h.edit rfl id nofun id id, rfl, fun hc => ⟨hc, rfl, rfl⟩⟩

theorem finished (hn : v.phases = []) (hlive : ¬v.item.ended)
    (how : Verification) (held : Option Backend) : Traced i c extra (v.finished i how held) := by
  have hchecked : Traced i c extra (v.edit fun item =>
      { item with verification := some how, tempWhole := true, hash := none }) :=
    h.edit rfl (fun _ => rfl) id id id
  unfold FileView.finished
  split
  · exact hchecked.filePlaced hn _ _
  · exact hchecked.place hlive rfl held

theorem restarted (hn : v.phases = []) (size : ℕ) (mtime : Option ℕ) :
    Traced i c extra (v.restarted i size mtime) := by
  refine edit ?_ rfl id id id id
  split
  · next hnone => exact h.restartFile hn fun p hp => absurd (hnone.symm.trans hp) nofun
  · next p hp =>
    have hcalled := h.call (t := .removing i p) nofun trivial
    refine hcalled.restartFile ?_ fun q hq _ => .inr (.inr ⟨.removing i p, ?_, hp.symm.trans hq⟩)
    · rw [phases_call, hn]
      rfl
    · exact mem_append_right _ (mem_append_right _ (mem_singleton_self _))

theorem stopped (connected : Bool)
    (hlost : v.item.state = .cancelled → connected = false → ∀ p, v.item.temp = some p →
      p ∈ c.pending ∨ ¬c.there p ∧ ∀ t ∈ v.tasks, t.opens ≠ some p) :
    Traced i c extra (v.stopped i connected) ∧ ((v.stopped i connected).item.state = .cancelled →
      (v.stopped i connected).item.temp = none) := by
  have hlet : ∀ {w : FileView}, Traced i c extra w → w.item = v.item →
      (∀ p, v.item.temp = some p → p ∈ c.pending ∨ .removing i p ∈ extra ++ w.tasks ∨
        ¬c.there p ∧ ∀ t ∈ w.tasks, t.opens ≠ some p) → Traced i c extra w.restartFile := by
    intro w hw hitem hp
    refine hw.letGo rfl id id (fun p hrecorded hthere => ?_) fun t ht p ho hrecorded => ?_
    · rw [hitem] at hrecorded
      obtain hpending | hremoving | ⟨hnot, -⟩ := hp p hrecorded
      · exact .inr (.inl hpending)
      · exact .inr (.inr ⟨_, hremoving, rfl⟩)
      · exact absurd hthere hnot
    · rw [hitem] at hrecorded
      obtain hpending | hremoving | ⟨-, hnot⟩ := hp p hrecorded
      · exact .inl hpending
      · exact .inr hremoving
      · exact absurd ho (hnot t ht)
  unfold FileView.stopped
  split
  · next hs =>
    split
    · next hnone =>
      exact ⟨hlet h rfl fun p hp => absurd (hnone.symm.trans hp) nofun, fun _ => rfl⟩
    · next p hp =>
      split
      · refine ⟨hlet (h.call (t := .removing i p) nofun trivial) rfl fun q hq => .inr (.inl ?_),
          fun _ => rfl⟩
        obtain ⟨rfl⟩ := hp.symm.trans hq
        exact mem_append_right _ (mem_append_right _ (mem_singleton_self _))
      · next hlostConnection =>
        refine ⟨hlet h rfl fun q hq => ?_, fun _ => rfl⟩
        exact (hlost hs (by simpa using hlostConnection) q hq).imp_right .inr
  · next hs => exact ⟨h, fun hc => absurd hc hs⟩

theorem openStopped (hn : v.phases = []) (connected : Bool)
    (hlost : v.item.state = .cancelled → connected = false → ∀ p, v.item.temp = some p →
      p ∈ c.pending ∨ ¬c.there p) :
    Traced i c extra (v.openStopped i connected) ∧ ((v.openStopped i connected).item.state =
      .cancelled → (v.openStopped i connected).item.temp = none) := by
  unfold FileView.openStopped
  split
  · next hs =>
    split
    · next hnone =>
      refine ⟨(h.restartFile hn fun p hp => ?_).await nofun trivial, fun _ => rfl⟩
      exact absurd (hnone.symm.trans hp) nofun
    · next p hp =>
      split
      · have hcalled := h.call (t := .openStoppedRemove i p) nofun trivial
        refine ⟨hcalled.letGo (f := fun item => { item with
          acked := 0, temp := none, tempWhole := false, hash := none, carried := false }) rfl id id
          (fun q hq _ => .inr (.inr ?_)) fun t ht q ho => ?_, fun _ => rfl⟩
        · refine ⟨.openStoppedRemove i p, ?_, hp.symm.trans hq⟩
          exact mem_append_right _ (mem_append_right _ (mem_singleton_self _))
        · obtain ht | ht := mem_append.mp ht
          · exact absurd ho (opens_of_quiet hn ht)
          · rw [mem_singleton.mp ht] at ho
            cases ho
      · next hlostConnection =>
        refine ⟨(h.restartFile hn fun q hq hthere => ?_).await nofun trivial, fun _ => rfl⟩
        obtain hpending | hnot := hlost hs (by simpa using hlostConnection) q hq
        · exact .inr (.inl hpending)
        · exact absurd hthere hnot
  · next hs => exact ⟨h.await nofun trivial, fun hc => absurd hc hs⟩

end

end Functions

/-! #### From elsewhere -/

theorem temp_of_befalls {taken drops : Prop} (hb : Befalls i taken drops v v') :
    (v'.item.temp = v.item.temp ∨ v'.item.temp = none) ∧
      (v.item.state = .placed → v'.item.state = .placed) := by
  have hlive : v.Free → v.item.state ≠ .placed := fun hf hs => hf.2.2.2 (.inl hs)
  cases hb with
  | number | receive | resolve | look => exact ⟨.inl rfl, id⟩
  | interrupt hs =>
    refine ⟨.inl ?_, fun hp => by simp [hp] at hs⟩
    unfold FileView.interrupt
    split
    · rfl
    · split <;> rfl
  | stop hs =>
    refine ⟨.inl ?_, fun hp => by simp [hp] at hs⟩
    unfold FileView.stopItem
    split <;> rfl
  | drop =>
    refine ⟨.inl ?_, fun hp => by rw [v.dropItem_state, hp]; rfl⟩
    unfold FileView.dropItem
    split
    · rfl
    · split <;> rfl
  | fail hs => exact ⟨.inl rfl, fun hp => by simp [hp] at hs⟩
  | skip _ hf connected => exact ⟨.inr (v.skip_item i connected).2, (absurd · (hlive hf))⟩
  | queue _ hf | admits _ hf => exact ⟨.inl rfl, (absurd · (hlive hf))⟩
  | place _ hf _ held =>
    refine ⟨.inl ?_, (absurd · (hlive hf))⟩
    unfold FileView.place
    split <;> rfl
  | restart _ hf _ size mtime =>
    exact ⟨.inr (v.restarted_item i size mtime).2.1, (absurd · (hlive hf))⟩

/-- What happens to a file from elsewhere keeps track of it. -/
theorem befalls {taken drops : Prop} (h : Traced i c extra v)
    (hdrops : drops → ∀ p, v.item.temp = some p → p ∈ c.pending ∨ v.item.state = .placed)
    (hb : Befalls i taken drops v v') : Traced i c extra v' := by
  cases hb with
  | number => exact h.same rfl rfl
  | interrupt hs => exact h.interrupt (by rintro (hend | hend) <;> simp [hend] at hs)
  | stop hs => exact h.stopItem (by rintro (hend | hend) <;> simp [hend] at hs)
  | drop hd => exact h.dropItem (hdrops hd)
  | fail hs => exact h.setState (by rintro (hend | hend) <;> simp [hend] at hs) (by decide)
  | receive offset data => exact h.await nofun trivial
  | skip _ hf connected => exact h.skip hf.1 connected
  | resolve _ hf => exact h.edit rfl id id id id
  | queue _ hf => exact h.setState hf.2.2.2 (by decide)
  | place _ hf hw held => exact h.place hf.2.2.2 hw held
  | admits _ hf => exact (h.setState hf.2.2.2 (by decide)).call nofun trivial
  | look _ hf _ key temp hp => exact h.call nofun (.inr hp)
  | restart _ hf _ size mtime => exact h.restarted hf.1 size mtime

theorem happens {taken drops : Prop} (h : Traced i c extra v)
    (hdrops : drops → ∀ p, v.item.temp = some p → p ∈ c.pending ∨ v.item.state = .placed)
    (hb : ReflTransGen (Befalls i taken drops) v v') : Traced i c extra v' := by
  suffices hboth : Traced i c extra v' ∧
      (drops → ∀ p, v'.item.temp = some p → p ∈ c.pending ∨ v'.item.state = .placed) from hboth.1
  induction hb with
  | refl => exact ⟨h, hdrops⟩
  | tail _ hb ih =>
    obtain ⟨htemp, hplaced⟩ := temp_of_befalls hb
    refine ⟨ih.1.befalls ih.2 hb, fun hd p hp => ?_⟩
    obtain heq | hnone := htemp
    · exact (ih.2 hd p (heq.symm.trans hp)).imp_right hplaced
    · exact absurd (hnone.symm.trans hp) nofun

end Traced

/-! #### Looking at a temporary -/

namespace Traced

variable {i key : ℕ} {c : Scene} {t : Task} {p : HostPath} {w w' : Upload} {a : Answer}
  {random : String}

theorem lookedAt (h : Traced i c [] (w.file i)) (hn : (w.file i).phases = [])
    (hnot : i ∉ w.lookTakes key i)
    (hfits : (w.items i).temp = none ∨ (w.items i).temp = some p) (there : Option Stat)
    (hthere : there.any Stat.isFile = false → ¬c.there p) :
    Traced i c [] ((w.lookedAt key i p there).file i) := by
  have hseen : Traced i c [] ((w.lookDone key).file i) := by
    rw [file_lookDone hnot]
    exact h
  have hstale : Traced i c [] ((w.lookStale key i p (there.any Stat.isFile)).file i) := by
    unfold lookStale
    split
    · rw [file_call_self rfl]
      exact h.call nofun hfits
    · next hfile =>
      rw [file_lookDone_restartFile]
      refine h.restartFile hn fun q hq hq' => absurd hq' ?_
      obtain hnone | hsome := hfits
      · exact absurd (hnone.symm.trans hq) nofun
      · obtain ⟨rfl⟩ := hsome.symm.trans hq
        exact hthere (by simpa using hfile)
  unfold Upload.lookedAt
  dsimp only
  split
  · split
    · exact hseen
    · exact hstale
  · split
    · split
      · exact hseen
      · rw [file_call_self rfl]
        exact h.call nofun hfits
    · exact hstale

/-- A look at the temporary of a file that is taken up again. -/
theorem looks (h : Traced i c [t] (w.file i)) (hn : (w.file i).phases = [])
    (hp : t.phase = some .looking) (hti : t.file = some i)
    (hnot : i ∉ (Step.answer t a random).takesUp w) (hfits : t.fits (w.items i))
    (hthere : ∀ key p, t = .lookStat key i p →
      (∃ there, a = .stat there ∧ there.any Stat.isFile = false) ∨ a = .fault false →
      ¬c.there p)
    (hremoved : ∀ p, t.removed = some p → ¬c.there p)
    (hw : w.answer random t a = some w') : Traced i c [] (w'.file i) := by
  cases t with
  | lookStat key k p =>
    cases hti
    have hsettled := h.settlePlain rfl rfl
    cases a with
    | stat there =>
      cases hw
      exact hsettled.lookedAt hn hnot hfits there fun hfile =>
        hthere key p rfl (.inl ⟨there, rfl, hfile⟩)
    | fault interruption =>
      cases interruption with
      | true =>
        cases hw
        rw [file_lookThrew]
        exact hsettled
      | false =>
        cases hw
        exact hsettled.lookedAt hn hnot hfits none fun _ => hthere key p rfl (.inr rfl)
    | _ => cases hw
  | lookTruncate key k p size =>
    cases hti
    have hsettled := h.settlePlain rfl rfl
    cases a with
    | done =>
      cases hw
      rw [file_lookDone hnot]
      exact hsettled
    | fault interruption =>
      cases interruption with
      | true =>
        cases hw
        rw [file_lookThrew]
        exact hsettled
      | false =>
        cases hw
        rw [file_call_self rfl]
        exact hsettled.call nofun hfits
    | _ => cases hw
  | lookRemove key k p =>
    cases hti
    cases a with
    | done =>
      cases hw
      rw [file_lookDone_restartFile]
      refine (h.restartFile hn fun q hq hq' => ?_).settle (fun q hq hq' => ?_) nofun nofun nofun
      · obtain hnone | hsome := hfits
        · exact absurd (hnone.symm.trans hq) nofun
        · obtain ⟨rfl⟩ := hsome.symm.trans hq
          exact absurd hq' (hremoved p rfl)
      · exact absurd hq' (hremoved q hq)
    | _ => cases hw
  | foldersBackend | mkdirs | keepBothFolder | retryConnect | takeUpBackend | looked | lookFailed =>
    cases hti
  | _ => cases hp

end Traced

end Lasterm.Transfer.Uploads
