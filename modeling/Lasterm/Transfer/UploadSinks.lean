import Lasterm.Transfer.UploadFinal

/-!
# The sinks of a file

A sink is what a connection gives for a file that is open on the host: it is written to, and in the
end `finish` or `abort` is called on it (`transfers/transfer-service.ts`).  Five operations take a
file's sink from it, and who is to end it depends on whether a chunk or an open is under way then.

## Main definitions

* `Ledger` — the service with every sink it was given, and the calls that end them.
* `Accounts` — one step lets go of the sink that is held, and then ends it once.

## Main results

* `sinks_ended_once` — in every orderly run; `sink_left_open` — in another.
-/

namespace Lasterm.Transfer.Uploads

open Transition Relation List Option

/-! ### What ends a sink -/

/-- The sink on which a call begins with `finish` or `abort`, and its file. -/
def Task.ends : Task → Option (ℕ × ℕ)
  | .finish i k _ | .aborting i k | .openStopped i k | .afterStop i (some k)
  | .failedAbort i (some k) _ => some (i, k)
  | _ => none

/-- The sink a call writes to, and its file. -/
def Task.writes : Task → Option (ℕ × ℕ)
  | .write i k _ _ => some (i, k)
  | _ => none

/-- How often a sink is ended by the calls. -/
def timesEnded (x : ℕ × ℕ) (calls : List Task) : ℕ := calls.countP fun t => t.ends = some x

/-- The later call does not write to a sink of the file that the earlier one ended. -/
def Task.Before (i : ℕ) (t t' : Task) : Prop :=
  ∀ k, t.ends = some (i, k) → t'.writes ≠ some (i, k)

@[simp] theorem timesEnded_nil (x : ℕ × ℕ) : timesEnded x [] = 0 := rfl

theorem timesEnded_append (x : ℕ × ℕ) (calls calls' : List Task) :
    timesEnded x (calls ++ calls') = timesEnded x calls + timesEnded x calls' :=
  countP_append

theorem timesEnded_eq_zero {x : ℕ × ℕ} {calls : List Task} (h : ∀ t ∈ calls, t.ends ≠ some x) :
    timesEnded x calls = 0 :=
  countP_eq_zero.mpr fun t ht => by simpa using h t ht

theorem timesEnded_pos {x : ℕ × ℕ} {calls : List Task} {t : Task} (ht : t ∈ calls)
    (hx : t.ends = some x) : 0 < timesEnded x calls :=
  countP_pos_iff.mpr ⟨t, ht, by simpa using hx⟩

theorem timesEnded_singleton {x y : ℕ × ℕ} {t : Task} (ht : t.ends = some y) :
    timesEnded x [t] = if y = x then 1 else 0 := by
  simp [timesEnded, countP_singleton, ht]

theorem Task.eq_write_of_writes {t : Task} {i k : ℕ} (h : t.writes = some (i, k)) :
    ∃ offset data, t = .write i k offset data := by
  cases t with
  | write j k' offset data =>
    obtain ⟨rfl, rfl⟩ := Prod.mk.inj (some.inj h)
    exact ⟨offset, data, rfl⟩
  | _ => cases h

/-! ### What a file holds -/

namespace FileView

/-- A chunk of the file is on its way to that sink. -/
def WritesTo (v : FileView) (i k : ℕ) : Prop := ∃ t ∈ v.tasks, t.writes = some (i, k)

/-- The sink is the file's, or a chunk is still on its way to it. -/
def Holds (v : FileView) (i k : ℕ) : Prop := v.item.sink = some k ∨ v.WritesTo i k

/-- The file is marked as being written to only while a chunk is under way. -/
def Busy (v : FileView) (i : ℕ) : Prop := v.item.writing = true → ∃ k, v.WritesTo i k

end FileView

section Holding

variable {v : FileView} {i k k' : ℕ}

theorem Idle.not_writesTo (h : v.phases = []) (i k : ℕ) : ¬v.WritesTo i k := by
  rintro ⟨t, ht, hw⟩
  obtain ⟨offset, data, rfl⟩ := Task.eq_write_of_writes hw
  exact no_write h ht

theorem Idle.not_holds (h : Idle v) (i k : ℕ) : ¬v.Holds i k := by
  rintro (hk | hw)
  · rw [h.sink] at hk
    cases hk
  · exact Idle.not_writesTo h.phases i k hw

namespace Attempt

theorem writing_of_writesTo (h : Attempt v) (hw : v.WritesTo i k) : v.item.writing = true := by
  obtain ⟨t, ht, hw⟩ := hw
  obtain ⟨offset, data, rfl⟩ := Task.eq_write_of_writes hw
  exact (h.write _ _ _ _ ht).1

theorem sink_of_writesTo (h : Attempt v) (hs : v.item.state = .sending) (hw : v.WritesTo i k) :
    v.item.sink = some k := by
  obtain ⟨t, ht, hw⟩ := hw
  obtain ⟨offset, data, rfl⟩ := Task.eq_write_of_writes hw
  exact ((h.write _ _ _ _ ht).2.2 hs).1

theorem writesTo_unique (h : Attempt v) (hw : v.WritesTo i k) (hw' : v.WritesTo i k') : k = k' := by
  obtain ⟨t, ht, hw⟩ := hw
  obtain ⟨t', ht', hw'⟩ := hw'
  obtain ⟨offset, data, rfl⟩ := Task.eq_write_of_writes hw
  obtain ⟨offset', data', rfl⟩ := Task.eq_write_of_writes hw'
  by_contra hne
  have hmem : Task.write i k' offset' data' ∈ v.tasks.erase (.write i k offset data) :=
    (mem_erase_of_ne (by simp [Ne.symm hne])).mpr ht'
  have hphases := (FileView.phases_erase_of_some ht rfl h.one v.key).2
  exact Idle.no_write hphases hmem

theorem holds_unique (h : Attempt v) (hk : v.Holds i k) (hk' : v.Holds i k') : k = k' := by
  rcases hk with hk | hw <;> rcases hk' with hk' | hw'
  · exact some.inj (hk.symm.trans hk')
  · exact some.inj (hk.symm.trans (h.sink_of_writesTo (h.sink k hk).1 hw'))
  · exact some.inj ((h.sink_of_writesTo (h.sink k' hk').1 hw).symm.trans hk')
  · exact h.writesTo_unique hw hw'

end Attempt

end Holding

/-! ### Accounts -/

/-- From one view of the file to the next, with what was called: what was held and is let go of is
ended once, nothing else is, and only what was held is written to. -/
structure Accounts (i : ℕ) (v v' : FileView) (new : List Task) : Prop where
  calls : v'.calls = v.calls ++ new
  key : v.key ≤ v'.key
  kept : ∀ k, v'.Holds i k → v.Holds i k ∧ timesEnded (i, k) new = 0
  ended : ∀ k, v.Holds i k → ¬v'.Holds i k → timesEnded (i, k) new = 1
  others : ∀ k, ¬v.Holds i k → timesEnded (i, k) new = 0
  writes : ∀ t ∈ new, ∀ k, t.writes = some (i, k) → v.Holds i k
  order : new.Pairwise (Task.Before i)
  busy : v.Busy i → v'.Busy i

namespace Accounts

variable {v v' v'' : FileView} {i k : ℕ} {new new' : List Task} {t : Task}

theorem refl (i : ℕ) (v : FileView) : Accounts i v v [] where
  calls := (append_nil _).symm
  key := le_rfl
  kept _ hk := ⟨hk, rfl⟩
  ended _ hk hk' := absurd hk hk'
  others _ _ := rfl
  writes _ h := nomatch h
  order := Pairwise.nil
  busy := id

theorem trans (h : Accounts i v v' new) (h' : Accounts i v' v'' new') :
    Accounts i v v'' (new ++ new') where
  calls := by rw [h'.calls, h.calls, append_assoc]
  key := h.key.trans h'.key
  kept k hk := by
    obtain ⟨hk', hnone'⟩ := h'.kept k hk
    obtain ⟨hk, hnone⟩ := h.kept k hk'
    exact ⟨hk, by rw [timesEnded_append, hnone, hnone']⟩
  ended k hk hnot := by
    rw [timesEnded_append]
    by_cases hk' : v'.Holds i k
    · rw [(h.kept k hk').2, h'.ended k hk' hnot]
    · rw [h.ended k hk hk', h'.others k hk']
  others k hk := by
    have hk' : ¬v'.Holds i k := fun hk' => hk (h.kept k hk').1
    rw [timesEnded_append, h.others k hk, h'.others k hk']
  writes t ht k hw := by
    rcases mem_append.mp ht with ht | ht
    · exact h.writes t ht k hw
    · exact (h.kept k (h'.writes t ht k hw)).1
  order := by
    refine pairwise_append.mpr ⟨h.order, h'.order, ?_⟩
    intro t ht t' ht' k hend hw
    have hnone := (h.kept k (h'.writes t' ht' k hw)).2
    have hpos := timesEnded_pos ht hend
    omega
  busy hb := h'.busy (h.busy hb)

end Accounts

/-- From one view of the file to the next no sink was taken, ended or written to. -/
structure Still (v v' : FileView) : Prop where
  calls : ∃ new, v'.calls = v.calls ++ new ∧ ∀ t ∈ new, t.ends = none ∧ t.writes = none
  key : v.key ≤ v'.key
  sink : v'.item.sink = v.item.sink
  tasks : ∀ t, t.writes ≠ none → (t ∈ v'.tasks ↔ t ∈ v.tasks)
  writing : v'.item.writing = v.item.writing

namespace Still

variable {v v' : FileView} {i : ℕ} {t : Task} {f : Item → Item} {o : Opening}

theorem refl (v : FileView) : Still v v :=
  ⟨⟨[], (append_nil _).symm, forall_mem_nil _⟩, le_rfl, rfl, fun _ _ => Iff.rfl, rfl⟩

theorem edit (h : Still v v') (hsink : (f v'.item).sink = v'.item.sink)
    (hwriting : (f v'.item).writing = v'.item.writing) : Still v (v'.edit f) :=
  { h with sink := hsink.trans h.sink, writing := hwriting.trans h.writing }

theorem setState (h : Still v v') (state : ItemState) : Still v (v'.setState state) :=
  h.edit rfl rfl

theorem restartFile (h : Still v v') : Still v v'.restartFile := h.edit rfl rfl

theorem await (h : Still v v') (ht : t.writes = none) : Still v (v'.await t) where
  calls := h.calls
  key := h.key
  sink := h.sink
  tasks t' ht' := by
    refine Iff.trans ?_ (h.tasks t' ht')
    refine ⟨fun hmem => ?_, mem_append_left _⟩
    rcases mem_append.mp hmem with hmem | hmem
    · exact hmem
    · rw [mem_singleton.mp hmem] at ht'
      exact absurd ht ht'
  writing := h.writing

theorem call (h : Still v v') (hends : t.ends = none) (hwrites : t.writes = none) :
    Still v (v'.call t) := by
  obtain ⟨new, hnew, hsilent⟩ := h.calls
  have hcalled : Still v { v' with calls := v'.calls ++ [t] } := by
    refine { h with calls := ⟨new ++ [t], ?_, fun t' ht' => ?_⟩ }
    · rw [← append_assoc, ← hnew]
    · rcases mem_append.mp ht' with ht' | ht'
      · exact hsilent t' ht'
      · rw [mem_singleton.mp ht']
        exact ⟨hends, hwrites⟩
  exact hcalled.await hwrites

theorem erase (v : FileView) (ht : t.writes = none) {key : ℕ} (hkey : v.key ≤ key) :
    Still v (v.erase t key) where
  calls := ⟨[], (append_nil _).symm, forall_mem_nil _⟩
  key := hkey
  sink := rfl
  tasks t' ht' := by
    refine ⟨mem_of_mem_erase, fun hmem => (mem_erase_of_ne ?_).mpr hmem⟩
    rintro rfl
    exact ht' ht
  writing := rfl

section

variable (h : Still v v')
include h

theorem writesTo_iff (i k : ℕ) : v'.WritesTo i k ↔ v.WritesTo i k := by
  have hiff : ∀ t, t.writes = some (i, k) → (t ∈ v'.tasks ↔ t ∈ v.tasks) :=
    fun t hw => h.tasks t (by rw [hw]; nofun)
  exact ⟨fun ⟨t, ht, hw⟩ => ⟨t, (hiff t hw).mp ht, hw⟩, fun ⟨t, ht, hw⟩ => ⟨t, (hiff t hw).mpr ht, hw⟩⟩

theorem holds_iff (i k : ℕ) : v'.Holds i k ↔ v.Holds i k := by
  unfold FileView.Holds
  rw [h.sink, h.writesTo_iff]

theorem busy (hb : v.Busy i) : v'.Busy i := by
  intro hw
  rw [h.writing] at hw
  obtain ⟨k, hk⟩ := hb hw
  exact ⟨k, (h.writesTo_iff i k).mpr hk⟩

theorem accounts (i : ℕ) : ∃ new, Accounts i v v' new := by
  obtain ⟨new, hnew, hsilent⟩ := h.calls
  have hnone : ∀ k, timesEnded (i, k) new = 0 := fun k =>
    timesEnded_eq_zero fun t ht => by rw [(hsilent t ht).1]; nofun
  refine ⟨new, hnew, h.key, fun k hk => ⟨(h.holds_iff i k).mp hk, hnone k⟩, fun k hk hnot => ?_,
    fun k _ => hnone k, fun t ht k hw => ?_, ?_, h.busy⟩
  · exact absurd ((h.holds_iff i k).mpr hk) hnot
  · rw [(hsilent t ht).2] at hw
    cases hw
  · refine pairwise_of_forall_mem_list fun t ht t' ht' k hend => ?_
    rw [(hsilent t ht).1] at hend
    cases hend

/-! ### The service's functions that leave the sinks alone -/

theorem skip (i : ℕ) (connected : Bool) : Still v (v'.skip i connected) := by
  have hskipped : Still v (v'.edit fun item =>
      { item with outcome := some .skipped, state := .skipped }).restartFile :=
    (h.edit rfl rfl).restartFile
  unfold FileView.skip
  split
  · exact hskipped
  · split
    · exact hskipped.call rfl rfl
    · exact hskipped

theorem place (i : ℕ) (held : Option Backend) : Still v (v'.place i held) := by
  unfold FileView.place
  split
  · exact h
  · exact (h.setState .verifying).call rfl rfl

theorem restarted (i size : ℕ) (mtime : Option ℕ) : Still v (v'.restarted i size mtime) := by
  refine edit ?_ rfl rfl
  split
  · exact h.restartFile
  · exact h.restartFile.call rfl rfl

theorem fileFailed (hsink : v'.item.sink = none) (i : ℕ) (interruption : Bool) :
    Still v (v'.fileFailed i interruption) := by
  have hclosed : Still v (v'.edit fun item => { item with sink := none }) := h.edit hsink.symm rfl
  unfold FileView.fileFailed
  rw [hsink]
  split
  · exact hclosed.setState .interrupted
  · exact (hclosed.setState .failed).restartFile.call rfl rfl

theorem conflictFound (hsink : v'.item.sink = none) (i : ℕ) (policy : Policy)
    (existing : Option FileEntry) (held : Option Backend) (connected : Bool) :
    Still v (v'.conflictFound i policy existing held connected) := by
  have hfound : Still v (v'.edit fun item => { item with
      existing, typeClash := (existing.map FileEntry.folderLike).getD false, late := true }) :=
    h.edit rfl rfl
  have hagain : ∀ (w : FileView) (action : Action), Still v w →
      Still v (w.goAgain i action held) := by
    intro w action hw
    unfold FileView.goAgain
    split
    · exact (hw.edit rfl rfl).place i held
    · exact (hw.edit rfl rfl).setState .queued
  have hask : ∀ w : FileView, Still v w → w.item.sink = none → Still v w.ask := by
    intro w hw hnone
    refine setState ?_ .conflict
    split
    · exact hw
    · exact hw.edit hnone.symm rfl
  unfold FileView.conflictFound
  dsimp only
  split
  · exact hfound.skip i connected
  · exact hagain _ .keepBoth hfound
  · split
    · exact hask _ hfound hsink
    · exact hagain _ .replace hfound
  · exact hask _ hfound hsink

theorem openFile : Still v (v'.openFile o) := by
  unfold FileView.openFile
  split
  · exact h
  · exact h.call rfl rfl

theorem openNew (verify : Bool) (random : String) : Still v (v'.openNew o verify random) := by
  exact (h.edit rfl rfl).openFile

theorem openGoOn (verify : Bool) (random : String) : Still v (v'.openGoOn o verify random) := by
  unfold FileView.openGoOn
  split
  · split
    · exact h.openNew verify random
    · exact h.call rfl rfl
  · exact h.openFile

theorem openReached (verify : Bool) (random : String) :
    Still v (v'.openReached o verify random) := by
  unfold FileView.openReached
  split
  · split <;> exact h.call rfl rfl
  · exact h.openGoOn verify random

theorem openLooked (there : Option Stat) (verify : Bool) (random : String) :
    Still v (v'.openLooked o there verify random) := by
  have hgo : Still v (if v'.item.acked < sizeThere there then
      v'.call (.openTruncate o v'.item.temp v'.item.acked) else v'.openGoOn o verify random) := by
    split
    · exact h.call rfl rfl
    · exact h.openGoOn verify random
  unfold FileView.openLooked
  by_cases hc : if o.exec && !v'.item.carried then sizeThere there = v'.item.acked
      else v'.item.acked ≤ sizeThere there
  · rw [if_pos hc]
    exact hgo
  · rw [if_neg hc]
    exact h.call rfl rfl

theorem openDirect (n : ℕ) (path : HostPath) : Still v (v'.openDirect o n path) := by
  unfold FileView.openDirect
  split
  · exact h.await rfl
  · exact h.call rfl rfl

theorem openStopped (i : ℕ) (connected : Bool) : Still v (v'.openStopped i connected) := by
  unfold FileView.openStopped
  split
  · split
    · exact h.restartFile.await rfl
    · split
      · exact h.restartFile.call rfl rfl
      · exact h.restartFile.await rfl
  · exact h.await rfl

theorem stopped (i : ℕ) (connected : Bool) : Still v (v'.stopped i connected) := by
  unfold FileView.stopped
  split
  · split
    · exact h.restartFile
    · split
      · exact h.restartFile.call rfl rfl
      · exact h.restartFile
  · exact h

theorem finished (i : ℕ) (how : Verification) (held : Option Backend) :
    Still v (v'.finished i how held) := by
  unfold FileView.finished
  split
  · exact (h.edit rfl rfl).edit rfl rfl
  · exact (h.edit rfl rfl).place i held

end

end Still

/-! ### The functions that let go of a sink -/

namespace Accounts

variable {v v' : FileView} {i k : ℕ} {t : Task}

theorem letGo (hcalls : v'.calls = v.calls ++ [t]) (hkey : v.key ≤ v'.key)
    (hends : t.ends = some (i, k)) (hwrites : t.writes = none) (hk : v.Holds i k)
    (hone : ∀ k', v.Holds i k' → k' = k) (hnot : ∀ k', ¬v'.Holds i k')
    (hbusy : v.Busy i → v'.Busy i) : Accounts i v v' [t] where
  calls := hcalls
  key := hkey
  kept k' hk' := absurd hk' (hnot k')
  ended k' hk' _ := by
    obtain rfl := hone k' hk'
    rw [timesEnded_singleton hends, if_pos rfl]
  others k' hk' := by
    rw [timesEnded_singleton hends, if_neg]
    rintro ⟨⟩
    exact hk' hk
  writes t' ht' k' hw := by
    rw [mem_singleton.mp ht', hwrites] at hw
    cases hw
  order := pairwise_singleton _ t
  busy := hbusy

theorem close (hcalls : v'.calls = v.calls ++ [t]) (htasks : v'.tasks = v.tasks ++ [t])
    (hkey : v'.key = v.key) (hsink : v'.item.sink = none)
    (hwriting : v'.item.writing = v.item.writing) (hk : v.item.sink = some k)
    (hno : ∀ k', ¬v.WritesTo i k') (hends : t.ends = some (i, k)) (hwrites : t.writes = none) :
    Accounts i v v' [t] := by
  refine letGo hcalls hkey.ge hends hwrites (.inl hk) (fun k' hk' => ?_) ?_ fun hb hw => ?_
  · exact some.inj ((hk'.resolve_right (hno k')).symm.trans hk)
  · rintro k' (hk' | ⟨t', ht', hw⟩)
    · rw [hsink] at hk'
      cases hk'
    · rw [htasks] at ht'
      rcases mem_append.mp ht' with ht' | ht'
      · exact hno k' ⟨t', ht', hw⟩
      · rw [mem_singleton.mp ht', hwrites] at hw
        cases hw
  · rw [hwriting] at hw
    obtain ⟨k', hk'⟩ := hb hw
    exact absurd hk' (hno k')

theorem detach (h : Attempt v) (hb : v.Busy i) {f : Item → Item} (hsink : (f v.item).sink = none)
    (hwriting : (f v.item).writing = v.item.writing)
    (hleft : v.item.sink = none ∨ v.item.writing = true) : Accounts i v (v.edit f) [] := by
  have hstays : ∀ k, v.Holds i k → (v.edit f).Holds i k := by
    rintro k (hk | hw)
    · have hw := hleft.resolve_left (by simp [hk])
      obtain ⟨k', hk'⟩ := hb hw
      obtain rfl := h.holds_unique (.inl hk) (.inr hk')
      exact .inr hk'
    · exact .inr hw
  refine { refl i v with
    kept := fun k hk => ⟨?_, rfl⟩
    ended := fun k hk hnot => absurd (hstays k hk) hnot
    busy := fun _ hw => hb (hwriting.symm.trans hw) }
  exact .inr (hk.resolve_left (by simp [FileView.edit, hsink]))

theorem abort (h : Attempt v) (hb : v.Busy i) {f : Item → Item} (hf : (f v.item).sink = none)
    (hwriting : (f v.item).writing = v.item.writing) : ∃ new, Accounts i v
    (match v.item.sink with
      | none => v.edit f
      | some s => if v.item.writing then v.edit f else (v.edit f).call (.aborting i s)) new := by
  split
  · next hsink => exact ⟨[], detach h hb hf hwriting (.inl hsink)⟩
  · next k hsink =>
    split
    · next hw => exact ⟨[], detach h hb hf hwriting (.inr hw)⟩
    · next hw =>
      refine ⟨_, close rfl rfl rfl hf hwriting hsink (fun k' hk' => ?_) rfl rfl⟩
      exact hw (h.writing_of_writesTo hk')

theorem interrupt (h : Attempt v) (hb : v.Busy i) : ∃ new, Accounts i v (v.interrupt i) new :=
  abort h hb rfl rfl

theorem dropItem (h : Attempt v) (hb : v.Busy i) : ∃ new, Accounts i v (v.dropItem i) new :=
  abort h hb rfl rfl

theorem stopItem (h : Attempt v) (hb : v.Busy i) : ∃ new, Accounts i v (v.stopItem i) new := by
  unfold FileView.stopItem
  split
  · next hw => exact ⟨[], detach h hb rfl rfl (.inr hw)⟩
  · next hw =>
    cases hsink : v.item.sink with
    | none =>
      have hstopped : Accounts i v
          (v.edit fun item => { item with sink := none, state := .cancelled }) [] :=
        detach h hb rfl rfl (.inl hsink)
      obtain ⟨new, hcalled⟩ := (Still.call (t := .afterStop i none) (.refl _) rfl rfl).accounts i
      exact ⟨_, hstopped.trans hcalled⟩
    | some k =>
      refine ⟨_, close (t := .afterStop i (some k)) rfl rfl rfl rfl rfl hsink (fun k' hk' => ?_)
        rfl rfl⟩
      exact hw (h.writing_of_writesTo hk')

theorem fileFailed (hn : v.phases = []) (interruption : Bool) :
    ∃ new, Accounts i v (v.fileFailed i interruption) new := by
  cases hsink : v.item.sink with
  | none => exact ((Still.refl v).fileFailed hsink i interruption).accounts i
  | some k =>
    have hno := Idle.not_writesTo hn i
    unfold FileView.fileFailed
    rw [hsink]
    split
    · exact ⟨_, close (t := .aborting i k) rfl rfl rfl rfl rfl hsink hno rfl rfl⟩
    · exact ⟨_, close (t := .failedAbort i (some k) _) rfl rfl rfl rfl rfl hsink hno rfl rfl⟩

theorem finishFile (hno : ∀ k, ¬v.WritesTo i k) : ∃ new, Accounts i v (v.finishFile i) new := by
  unfold FileView.finishFile
  split
  · exact ⟨[], refl i v⟩
  · next k hsink =>
    split
    · exact ⟨_, close (t := .finish i k _) rfl rfl rfl rfl rfl hsink hno rfl rfl⟩
    · exact ⟨[], refl i v⟩

theorem receiving (offset : ℕ) (data : List UInt8) :
    ∃ new, Accounts i v (v.receiving i offset data) new := by
  unfold FileView.receiving
  split
  · exact ⟨[], refl i v⟩
  · next k hsink =>
    split
    · refine ⟨[.write i k offset data], rfl, le_rfl, ?_, ?_, fun _ _ => rfl, ?_,
        pairwise_singleton _ _, fun _ _ => ?_⟩
      · rintro k' (hk' | ⟨t, ht, hw⟩)
        · exact ⟨.inl hk', rfl⟩
        · rcases mem_append.mp ht with ht | ht
          · exact ⟨.inr ⟨t, ht, hw⟩, rfl⟩
          · obtain rfl := mem_singleton.mp ht
            obtain ⟨-, rfl⟩ := Prod.mk.inj (some.inj hw)
            exact ⟨.inl hsink, rfl⟩
      · rintro k' (hk' | ⟨t, ht, hw⟩) hnot
        · exact absurd (.inl hk') hnot
        · exact absurd (.inr ⟨t, mem_append_left _ ht, hw⟩) hnot
      · intro t ht k' hw
        obtain rfl := mem_singleton.mp ht
        obtain ⟨-, rfl⟩ := Prod.mk.inj (some.inj hw)
        exact .inl hsink
      · exact ⟨k, .write i k offset data, mem_append_right _ (mem_singleton_self _), rfl⟩
    · exact ⟨[], refl i v⟩

/-! ### A chunk is answered -/

section Chunk

variable {offset key : ℕ} {data : List UInt8} {f : Item → Item}

theorem endWrite (h : Attempt v) (ht : .write i k offset data ∈ v.tasks) (hkey : v.key ≤ key)
    (hs : v.item.state = .sending) (hsink : (f v.item).sink = v.item.sink)
    (hwriting : (f v.item).writing = false) :
    Accounts i v ((v.erase (.write i k offset data) key).edit f) [] := by
  have hmine := h.sink_of_writesTo hs ⟨_, ht, rfl⟩
  have hstays : ∀ k', v.Holds i k' → (f v.item).sink = some k' := by
    intro k' hk'
    obtain rfl := h.holds_unique (.inl hmine) hk'
    exact hsink.trans hmine
  refine ⟨(append_nil _).symm, hkey, fun k' hk' => ⟨?_, rfl⟩, fun k' hk' hnot => ?_,
    fun _ _ => rfl, forall_mem_nil _, Pairwise.nil, fun _ hw => ?_⟩
  · rcases hk' with hk' | ⟨t, ht, hw⟩
    · exact .inl (hsink.symm.trans hk')
    · exact .inr ⟨t, mem_of_mem_erase ht, hw⟩
  · exact absurd (.inl (hstays k' hk')) hnot
  · exact absurd (hwriting.symm.trans hw) nofun

theorem written (h : Attempt v) (ht : .write i k offset data ∈ v.tasks) (hkey : v.key ≤ key) :
    ∃ new, Accounts i v ((v.erase (.write i k offset data) key).written i k data) new := by
  have hn := (FileView.phases_erase_of_some ht rfl h.one key).2
  unfold FileView.written
  dsimp only
  split
  · next hs =>
    have hs : v.item.state = .sending := hs
    let grow : Item → Item := fun item =>
      { item with
        writing := false, hash := item.hash.map (· ++ data), acked := item.acked + data.length }
    have hgrown := endWrite (f := grow) h ht hkey hs rfl rfl
    have hno : ∀ k', ¬((v.erase (.write i k offset data) key).edit grow).WritesTo i k' :=
      Idle.not_writesTo hn i
    split
    · obtain ⟨new, hfinish⟩ := finishFile hno
      exact ⟨_, hgrown.trans hfinish⟩
    · exact ⟨[], hgrown⟩
  · next hs =>
    have hsink := h.sink_of_not_sending hs
    refine ⟨_, letGo (t := .afterStop i (some k)) rfl hkey rfl rfl (.inr ⟨_, ht, rfl⟩)
      (fun k' hk' => h.holds_unique hk' (.inr ⟨_, ht, rfl⟩)) ?_ fun _ hw => nomatch hw⟩
    rintro k' (hk' | ⟨t, ht, hw⟩)
    · exact nomatch hsink.symm.trans hk'
    · rcases mem_append.mp ht with ht | ht
      · exact Idle.not_writesTo hn i k' ⟨t, ht, hw⟩
      · rw [mem_singleton.mp ht] at hw
        cases hw

theorem writeFailed (h : Attempt v) (ht : .write i k offset data ∈ v.tasks) (hkey : v.key ≤ key)
    (hs : v.item.state = .sending) (interruption : Bool) : ∃ new,
    Accounts i v ((v.erase (.write i k offset data) key).writeFailed i interruption) new := by
  have hn := (FileView.phases_erase_of_some ht rfl h.one key).2
  let w := (v.erase (.write i k offset data) key).edit fun item => { item with writing := false }
  have heq : (v.erase (.write i k offset data) key).writeFailed i interruption =
      w.fileFailed i interruption := by
    refine (congrArg (FileView.edit · _) (if_pos hs)).trans ?_
    unfold FileView.fileFailed
    dsimp only [w, FileView.edit]
    split
    · split <;> rfl
    · rfl
  obtain ⟨new, hfailed⟩ := fileFailed (i := i) (v := w) hn interruption
  rw [heq]
  exact ⟨_, (endWrite h ht hkey hs rfl rfl).trans hfailed⟩

end Chunk

/-! ### Whatever happens to a file -/

variable {taken drops : Prop} {key : ℕ}

theorem befalls (h : Attempt v) (hb : v.Busy i) (hbefalls : Befalls i taken drops v v') :
    ∃ new, Accounts i v v' new := by
  have hstill := Still.refl v
  cases hbefalls with
  | number key hkey => exact ({ hstill with key := hkey } : Still v { v with key }).accounts i
  | interrupt => exact interrupt h hb
  | stop => exact stopItem h hb
  | drop => exact dropItem h hb
  | fail => exact (hstill.setState .failed).accounts i
  | receive offset data => exact (hstill.await rfl).accounts i
  | skip _ _ connected => exact (hstill.skip i connected).accounts i
  | resolve => exact (hstill.edit rfl rfl).accounts i
  | queue => exact (hstill.setState .queued).accounts i
  | place _ _ _ held => exact (hstill.place i held).accounts i
  | admits => exact ((hstill.setState .sending).call rfl rfl).accounts i
  | look => exact (hstill.call rfl rfl).accounts i
  | restart _ _ _ size mtime => exact (hstill.restarted i size mtime).accounts i

end Accounts

/-- The answer gives the file a sink. -/
def Task.obtains : Task → Answer → Bool
  | .openDirect _ _ _, .done | .openTemp _ _ _ _, .done => true
  | _, _ => false

namespace Accounts

variable {v v' : FileView} {i : ℕ} {t : Task} {a : Answer} {key : ℕ}

/-- What follows an await on a file's behalf ends what it lets go of, if it gives no sink, and
unless a chunk of a stopped file fails. -/
theorem answers (h : Attempt v) (ht : t ∈ v.tasks) (hkey : v.key ≤ key)
    (hnew : t.obtains a = false)
    (hlate : ∀ k offset data interruption, t = .write i k offset data → a = .fault interruption →
      v.item.state = .sending)
    (ha : Answers i (v.erase t key) t a v') : ∃ new, Accounts i v v' new := by
  have hstill : t.writes = none → Still v (v.erase t key) := fun hw => .erase v hw hkey
  have hquiet : ∀ p, t.phase = some p → p ≠ .writing → Still v (v.erase t key) := by
    intro p hp hne
    refine hstill ?_
    cases t with
    | write => exact absurd (some.inj hp).symm hne
    | _ => rfl
  have hsink : ∀ p, t.phase = some p → p ≠ .writing → (v.erase t key).item.sink = none :=
    fun p hp hne => (h.answered ht hp hne key).1.sink
  have hphases : ∀ p, t.phase = some p → (v.erase t key).phases = [] :=
    fun p hp => (FileView.phases_erase_of_some ht hp h.one key).2
  -- What let go of a sink went on from the task taken off.
  have hthen : ∀ {w}, t.writes = none → (∃ new, Accounts i (v.erase t key) w new) →
      ∃ new, Accounts i v w new := by
    rintro w hw ⟨new, hnew⟩
    obtain ⟨new₀, herased⟩ := (hstill hw).accounts i
    exact ⟨_, herased.trans hnew⟩
  cases ha with
  | openThrew t k hp hi => exact ((hquiet .opening hp nofun).await rfl).accounts i
  | openReached held a exec verify target random =>
    exact ((hstill rfl).openReached verify random).accounts i
  | openLooked o temp a there verify random =>
    exact ((hstill rfl).openLooked there verify random).accounts i
  | openTruncated o temp size verify random => exact ((hstill rfl).openGoOn verify random).accounts i
  | openNotTruncated | placeReached | placeNextName | failedRemoves | lookTruncates =>
    exact ((hstill rfl).call rfl rfl).accounts i
  | openRemoved o temp verify random =>
    exact ((hstill rfl).restartFile.openGoOn verify random).accounts i
  | openTemporary o verify random => exact ((hstill rfl).openNew verify random).accounts i
  | openOwnName | openTempAgain => exact (((hstill rfl).edit rfl rfl).call rfl rfl).accounts i
  | openedDirect | openedTemp => cases hnew
  | openConflict o n path existing policy held connected =>
    exact (((hstill rfl).conflictFound (hsink .opening rfl nofun) i policy existing held
      connected).await rfl).accounts i
  | openNextName o n path path' => exact ((hstill rfl).openDirect (n + 1) path').accounts i
  | openTempTaken | openStoppedRemoved => exact ((hstill rfl).await rfl).accounts i
  | openStopped s connected => exact ((hstill rfl).openStopped i connected).accounts i
  | openedWhole hs hwhole =>
    refine hthen rfl (finishFile fun k hk => ?_)
    obtain ⟨t, ht, hw⟩ := hk
    obtain ⟨offset, data, rfl⟩ := Task.eq_write_of_writes hw
    exact h.no_write_of_whole hs hwhole _ _ _ _ (mem_of_mem_erase ht)
  | opened | openFailedStopped | failedKeeps | aborted | removed => exact (hstill rfl).accounts i
  | openFailed k hs =>
    exact ((hstill rfl).fileFailed (hsink .opening rfl nofun) i k).accounts i
  | receiving offset data => exact hthen rfl (receiving offset data)
  | written k offset data => exact written h ht hkey
  | writeFailed k offset data interruption =>
    exact writeFailed h ht hkey (hlate k offset data interruption rfl rfl) interruption
  | stopped sink connected => exact ((hstill rfl).stopped i connected).accounts i
  | finished s hash a how held => exact ((hstill rfl).finished i how held).accounts i
  | placeThrew t k hp hi =>
    exact ((hquiet .placing hp nofun).fileFailed (hsink .placing hp nofun) i k).accounts i
  | placeNoName =>
    exact ((hstill rfl).fileFailed (hsink .placing rfl nofun) i false).accounts i
  | placed => exact (((hstill rfl).edit rfl rfl).edit rfl rfl).accounts i
  | placeConflict temp target existing policy held connected =>
    exact ((hstill rfl).conflictFound (hsink .placing rfl nofun) i policy existing held
      connected).accounts i
  | looked t a hp => exact (hquiet .looking hp nofun).accounts i
  | lookRemoves t a key temp hp => exact ((hquiet .looking hp nofun).call rfl rfl).accounts i
  | lookRestarts t a hp => exact (hquiet .looking hp nofun).restartFile.accounts i

end Accounts

/-! ### The account of a file -/

/-- Of the sinks the file was given, the one it holds was not ended, and every other one once.  The
calls are those after the first `past`. -/
structure Book (i : ℕ) (sinks : List ℕ) (past : ℕ) (v : FileView) : Prop where
  attempt : Attempt v
  busy : v.Busy i
  past_le : past ≤ v.calls.length
  distinct : sinks.Nodup
  below : ∀ k ∈ sinks, k < v.key
  held : ∀ k, v.Holds i k → k ∈ sinks ∧ timesEnded (i, k) (v.calls.drop past) = 0
  ended : ∀ k ∈ sinks, ¬v.Holds i k → timesEnded (i, k) (v.calls.drop past) = 1
  others : ∀ k ∉ sinks, timesEnded (i, k) (v.calls.drop past) = 0
  order : (v.calls.drop past).Pairwise (Task.Before i)

namespace Book

variable {v v' : FileView} {i past key : ℕ} {sinks : List ℕ} {new : List Task} {t : Task}

theorem begin (h : Idle v) (hw : v.item.writing = false) : Book i [] v.calls.length v where
  attempt := h.attempt
  busy hb := absurd (hw.symm.trans hb) nofun
  past_le := le_rfl
  distinct := nodup_nil
  below := nofun
  held k hk := absurd hk (h.not_holds i k)
  ended := nofun
  others k _ := by rw [drop_length, timesEnded_nil]
  order := by rw [drop_length]; exact Pairwise.nil

section

variable (h : Book i sinks past v)
include h

theorem accounts (ha : Accounts i v v' new) (hattempt : Attempt v') : Book i sinks past v' := by
  have hcalls : v'.calls.drop past = v.calls.drop past ++ new := by
    rw [ha.calls, drop_append_of_le_length h.past_le]
  have htimes : ∀ k, timesEnded (i, k) (v'.calls.drop past) =
      timesEnded (i, k) (v.calls.drop past) + timesEnded (i, k) new := by
    intro k
    rw [hcalls, timesEnded_append]
  refine
    { attempt := hattempt
      busy := ha.busy h.busy
      past_le := ?_
      distinct := h.distinct
      below := fun k hk => lt_of_lt_of_le (h.below k hk) ha.key
      held := ?_
      ended := ?_
      others := ?_
      order := ?_ }
  · rw [ha.calls, length_append]
    exact h.past_le.trans (Nat.le_add_right _ _)
  · intro k hk
    obtain ⟨hk, hnone⟩ := ha.kept k hk
    obtain ⟨hmem, hzero⟩ := h.held k hk
    exact ⟨hmem, by rw [htimes, hzero, hnone]⟩
  · intro k hk hnot
    rw [htimes]
    by_cases hheld : v.Holds i k
    · rw [(h.held k hheld).2, ha.ended k hheld hnot]
    · rw [h.ended k hk hheld, ha.others k hheld]
  · intro k hk
    have hnot : ¬v.Holds i k := fun hheld => hk (h.held k hheld).1
    rw [htimes, h.others k hk, ha.others k hnot]
  · rw [hcalls]
    refine pairwise_append.mpr ⟨h.order, ha.order, ?_⟩
    intro t ht t' ht' k hend hw
    have hzero := (h.held k (ha.writes t' ht' k hw)).2
    have hpos := timesEnded_pos ht hend
    omega

theorem distinct_append : (sinks ++ [v.key]).Nodup := by
  refine nodup_append.mpr ⟨h.distinct, nodup_singleton _, ?_⟩
  rintro k hk k' hk' rfl
  rw [mem_singleton.mp hk'] at hk
  exact Nat.lt_irrefl _ (h.below _ hk)

theorem below_append : ∀ k ∈ sinks ++ [v.key], k < v.key + 1 := by
  intro k hk
  rcases mem_append.mp hk with hk | hk
  · exact Nat.lt_succ_of_lt (h.below k hk)
  · rw [mem_singleton.mp hk]
    exact Nat.lt_succ_self _

theorem opened (hidle : Idle v) {f : Item → Item}
    (hattempt : Attempt ({ v with key := v.key + 1 }.edit f)) (hf : (f v.item).sink = some v.key)
    (hwriting : (f v.item).writing = v.item.writing) :
    Book i (sinks ++ [v.key]) past ({ v with key := v.key + 1 }.edit f) where
  attempt := hattempt
  busy hw := h.busy (hwriting.symm.trans hw)
  past_le := h.past_le
  distinct := h.distinct_append
  below := h.below_append
  held k hk := by
    rcases hk with hk | hk
    · obtain ⟨rfl⟩ := hf.symm.trans hk
      exact ⟨mem_append_right _ (mem_singleton_self _),
        h.others _ fun hmem => Nat.lt_irrefl _ (h.below _ hmem)⟩
    · exact absurd hk (Idle.not_writesTo (v := v) hidle.phases i k)
  ended k hk hnot := by
    rcases mem_append.mp hk with hk | hk
    · exact h.ended k hk (hidle.not_holds i k)
    · obtain rfl := mem_singleton.mp hk
      exact absurd (.inl hf) hnot
  others k hk := h.others k fun hmem => hk (mem_append_left _ hmem)
  order := h.order

theorem openedLate (hidle : Idle v) {f : Item → Item}
    (hattempt : Attempt (({ v with key := v.key + 1 }.edit f).call (.openStopped i v.key)))
    (hf : (f v.item).sink = none) (hwriting : (f v.item).writing = v.item.writing) :
    Book i (sinks ++ [v.key]) past
      (({ v with key := v.key + 1 }.edit f).call (.openStopped i v.key)) := by
  have hcalls : (v.calls ++ [Task.openStopped i v.key]).drop past =
      v.calls.drop past ++ [Task.openStopped i v.key] :=
    drop_append_of_le_length h.past_le
  have hnot : ∀ k, ¬(({ v with key := v.key + 1 }.edit f).call (.openStopped i v.key)).Holds i k := by
    rintro k (hk | ⟨t, ht, hw⟩)
    · exact nomatch hf.symm.trans hk
    · rcases mem_append.mp ht with ht | ht
      · exact Idle.not_writesTo (v := v) hidle.phases i k ⟨t, ht, hw⟩
      · rw [mem_singleton.mp ht] at hw
        cases hw
  have hself : timesEnded (i, v.key) [Task.openStopped i v.key] = 1 := by
    rw [timesEnded_singleton rfl, if_pos rfl]
  have hothers : ∀ k, k ≠ v.key → timesEnded (i, k) [Task.openStopped i v.key] = 0 := by
    intro k hk
    rw [timesEnded_singleton rfl, if_neg]
    rintro ⟨⟩
    exact hk rfl
  refine ⟨hattempt, fun hw => ?_, ?_, h.distinct_append, h.below_append,
    fun k hk => absurd hk (hnot k), fun k hk _ => ?_, fun k hk => ?_, ?_⟩
  · obtain ⟨k, hk⟩ := h.busy (hwriting.symm.trans hw)
    exact absurd hk (Idle.not_writesTo hidle.phases i k)
  · exact h.past_le.trans (by simp [FileView.call, FileView.await, FileView.edit])
  · change timesEnded (i, k) ((v.calls ++ [Task.openStopped i v.key]).drop past) = 1
    rw [hcalls, timesEnded_append]
    rcases mem_append.mp hk with hk | hk
    · rw [h.ended k hk (hidle.not_holds i k), hothers k (Nat.ne_of_lt (h.below k hk))]
    · obtain rfl := mem_singleton.mp hk
      rw [h.others _ fun hmem => Nat.lt_irrefl _ (h.below _ hmem), hself]
  · change timesEnded (i, k) ((v.calls ++ [Task.openStopped i v.key]).drop past) = 0
    have hmem : k ∉ sinks := fun hmem => hk (mem_append_left _ hmem)
    have hne : k ≠ v.key := by
      rintro rfl
      exact hk (mem_append_right _ (mem_singleton_self _))
    rw [hcalls, timesEnded_append, h.others k hmem, hothers k hne]
  · change ((v.calls ++ [Task.openStopped i v.key]).drop past).Pairwise (Task.Before i)
    rw [hcalls]
    refine pairwise_append.mpr ⟨h.order, pairwise_singleton _ _, ?_⟩
    intro t _ t' ht' k _ hw
    rw [mem_singleton.mp ht'] at hw
    cases hw

theorem openedTemp (hidle : Idle v) (hs : Phase.opening.allows v.item.state) :
    Book i (sinks ++ [v.key]) past (v.openedTemp i) := by
  have hattempt := hidle.openedTemp (i := i) hs
  unfold FileView.openedTemp at hattempt ⊢
  split
  · next hsending =>
    have hopened := h.opened hidle (f := fun item => { item with sink := some v.key })
      (hidle.opened hsending rfl rfl) rfl rfl
    obtain ⟨new, ha⟩ := ((Still.refl _).await (t := .opened i) rfl).accounts i
    exact hopened.accounts ha (hopened.attempt.await rfl)
  · next hsending =>
    rw [if_neg hsending] at hattempt
    exact h.openedLate hidle hattempt rfl rfl

theorem openedDirect (hidle : Idle v) (hs : v.item.state = .sending)
    (path : HostPath) (name : Option String) :
    Book i (sinks ++ [v.key]) past (v.openedDirect i path name) := by
  have hopened := h.opened hidle
    (f := fun item => { item with sink := some v.key, temp := some path, finalName := name })
    (hidle.opened hs rfl rfl) rfl rfl
  obtain ⟨new, ha⟩ := ((Still.refl _).await (t := .opened i) rfl).accounts i
  exact hopened.accounts ha (hopened.attempt.await rfl)

end

theorem happens {taken drops : Prop} (h : Book i sinks past v)
    (hb : ReflTransGen (Befalls i taken drops) v v') : Book i sinks past v' := by
  induction hb with
  | refl => exact h
  | tail _ hb ih =>
    obtain ⟨new, ha⟩ := Accounts.befalls ih.attempt ih.busy hb
    exact ih.accounts ha (ih.attempt.befalls hb)

end Book

/-! ### Runs -/

/-- The sink a step gives a file: it gets the upload's next number. -/
def Step.obtains (u : Upload) : Step → Option (ℕ × ℕ)
  | .answer t a _ => if t.obtains a then t.file.map (·, u.nextKey) else none
  | _ => none

theorem Task.file_of_obtains {t : Task} {a : Answer} {tree : UploadTree} (h : t.obtains a = true)
    (hn : t.Names tree) : ∃ i, t.file = some i ∧ tree.IsFile i := by
  unfold Task.obtains at h
  split at h
  · exact ⟨_, rfl, hn⟩
  · exact ⟨_, rfl, hn⟩
  · cases h

theorem Step.obtains_eq_some {u : Upload} {step : Step} {x : ℕ × ℕ} (h : step.obtains u = some x) :
    ∃ t a random, step = .answer t a random ∧ t.obtains a = true ∧ t.file = some x.1 ∧
      x.2 = u.nextKey := by
  cases step with
  | answer t a random =>
    obtain ⟨hnew, h⟩ := ite_none_right_eq_some.mp h
    obtain ⟨i, hi, rfl⟩ := map_eq_some_iff.mp h
    exact ⟨t, a, random, rfl, hnew, hi, rfl⟩
  | _ => cases h

/-- A chunk fails, and its file was stopped meanwhile. -/
def Step.failsLate (u : Upload) : Step → Bool
  | .answer (.write i _ _ _) (.fault _) _ => (u.items i).state ≠ .sending
  | _ => false

namespace Upload

theorem setState_writing (u : Upload) (i : ℕ) (state : ItemState) (j : ℕ) :
    ((u.setState i state).items j).writing = (u.items j).writing := by
  rw [setState_items]
  split
  · next hj => rw [hj]
  · rfl

theorem edit_writing {f : Item → Item} (u : Upload) (i j : ℕ)
    (hf : (f (u.items i)).writing = (u.items i).writing) :
    ((u.edit i f).items j).writing = (u.items j).writing := by
  rw [edit_items]
  split
  · next hj => rw [hj, hf]
  · rfl

theorem restartFile_writing (u : Upload) (i j : ℕ) :
    ((u.restartFile i).items j).writing = (u.items j).writing := by
  rw [restartFile_items]
  split
  · next hj => rw [hj]
  · rfl

theorem skip_writing (fuel : ℕ) (u : Upload) (i j : ℕ) :
    ((Upload.skip fuel u i).items j).writing = (u.items j).writing := by
  refine Upload.skip_rec (P := fun v => (v.items j).writing = (u.items j).writing)
    (fun v k h => ?_) (fun v k h => (restartFile_writing v k j).trans h) (fun _ _ _ h => h) fuel rfl i
  exact (setState_writing _ k .skipped j).trans ((v.edit_writing k j rfl).trans h)

theorem applyPolicyTo_writing (u : Upload) (i j : ℕ) :
    ((u.applyPolicyTo i).items j).writing = (u.items j).writing := by
  unfold Upload.applyPolicyTo
  dsimp only
  split
  · rfl
  · split
    · exact skip_writing _ u i j
    · exact u.edit_writing i j rfl
    · split
      · exact u.setState_writing i .conflict j
      · exact u.edit_writing i j rfl
    · exact u.setState_writing i .conflict j

end Upload

theorem Start.idle (start : Start) (i : ℕ) : Idle (start.service.upload.file i) ∧
    (start.service.upload.items i).writing = false := by
  have hfile : start.service.upload.file i = start.upload.file i := by
    rw [start.service_upload, Upload.file_enqueueQueued]
  have hwriting : (start.upload.items i).writing = false := by
    refine Acts.applyPolicy_rec (P := fun u => (u.items i).writing = false) ?_ fun v k hv _ =>
      (v.applyPolicyTo_writing k i).trans hv
    rw [Upload.assemble_items]
    unfold Start.item
    split
    · rfl
    · split <;> rfl
    · rfl
    · rfl
  have hitems : ∀ {u v : Upload}, u.file i = v.file i → u.items i = v.items i :=
    congrArg FileView.item
  rw [hfile, hitems hfile]
  exact ⟨start.vacant.idle i, hwriting⟩

theorem bringBack_writing (tree : UploadTree) (onConflict : Policy) (verify : Bool)
    (rows : ℕ → Row) (i : ℕ) :
    ((bringBack tree onConflict verify rows).items i).writing = false := by
  obtain ⟨_, _, _, hshape⟩ := bringBack_shape tree onConflict verify rows
  rw [hshape]
  exact foldl_folderPath_keeps (fun item => item.writing) (fun _ _ => rfl) tree
    (fun i => (rows i).item (tree.kind i)) i

/-- The service, with what its sinks are accounted for by. -/
structure Ledger where
  service : Service
  /-- The sinks this life of the hub was given, oldest first, each with its file. -/
  sinks : List (ℕ × ℕ)
  /-- How many calls were made for each file before this life of the hub. -/
  past : ℕ → ℕ

namespace Ledger

/-- A life of the hub begins: its sinks end with it. -/
def begin (s : Service) : Ledger := ⟨s, [], fun i => (s.upload.file i).calls.length⟩

/-- The service and its ledger after a step. -/
def next (l : Ledger) (step : Step) : Option Ledger :=
  (Uploads.next l.service step).map fun s =>
    if step = .restart then begin s
    else { service := s, sinks := l.sinks ++ (step.obtains l.service.upload).toList, past := l.past }

/-- The sinks a file was given. -/
def sinksOf (l : Ledger) (i : ℕ) : List ℕ := (l.sinks.filter (·.1 = i)).map Prod.snd

/-- The calls made for a file in this life of the hub, oldest first. -/
def calls (l : Ledger) (i : ℕ) : List Task := (l.service.upload.file i).calls.drop (l.past i)

/-- An orderly step in which no chunk of a stopped file fails. -/
def Closes (l : Ledger) (step : Step) : Prop :=
  Orderly l.service step ∧ step.failsLate l.service.upload = false

instance (l : Ledger) (step : Step) : Decidable (Closes l step) :=
  inferInstanceAs (Decidable (_ ∧ _))

/-- The sinks of every file are accounted for. -/
structure Sound (l : Ledger) : Prop where
  apart : l.service.Apart
  files : ∀ x ∈ l.sinks, l.service.upload.tree.IsFile x.1
  books : ∀ i, l.service.upload.tree.IsFile i →
    Book i (l.sinksOf i) (l.past i) (l.service.upload.file i)

variable {l l' : Ledger} {step : Step} {i k : ℕ}

theorem mem_sinksOf : k ∈ l.sinksOf i ↔ (i, k) ∈ l.sinks := by
  simp [sinksOf]

theorem Sound.begin {s : Service} (h : s.Apart) (hidle : ∀ i, Idle (s.upload.file i))
    (hw : ∀ i, (s.upload.items i).writing = false) : (begin s).Sound where
  apart := h
  files := nofun
  books i _ := Book.begin (hidle i) (hw i)

theorem Sound.book_answer (h : l.Sound) {t : Task} {a : Answer} {random : String} {u : Upload}
    (hi : l.service.upload.tree.IsFile i) (ht : t ∈ l.service.upload.tasks) (hti : t.file = some i)
    (hnew : t.obtains a = true) (hlate : (Step.answer t a random).opensLate l.service.upload = false)
    (hu : { l.service.upload with tasks := l.service.upload.tasks.erase t }.answer random t a =
      some u) :
    Book i (l.sinksOf i ++ [l.service.upload.nextKey]) (l.past i) (u.file i) := by
  have hbook := h.books i hi
  have hmem := mem_tasks_file ht hti
  have herase : ∀ {t : Task}, t ∈ (l.service.upload.file i).tasks → t.phase = some .opening →
      t.writes = none → Book i (l.sinksOf i) (l.past i)
        ((l.service.upload.file i).erase t l.service.upload.nextKey) := by
    intro t ht hp hw
    obtain ⟨new, ha⟩ := (Still.erase (l.service.upload.file i) hw le_rfl).accounts i
    exact hbook.accounts ha (hbook.attempt.erase t le_rfl)
  cases t with
  | openTemp o temp resumeAt again =>
    cases hti
    cases a with
    | done =>
      cases hu
      obtain ⟨hidle, hs⟩ := hbook.attempt.answered hmem rfl (by decide) l.service.upload.nextKey
      rw [Upload.file_openedTemp, file_erase_self]
      exact (herase hmem rfl rfl).openedTemp hidle hs
    | _ => cases hnew
  | openDirect o n path =>
    cases hti
    cases a with
    | done =>
      cases hu
      obtain ⟨hidle, -⟩ := hbook.attempt.answered hmem rfl (by decide) l.service.upload.nextKey
      obtain ⟨name, hopened⟩ := Upload.file_openedDirect
        (u := { l.service.upload with tasks := l.service.upload.tasks.erase (.openDirect o n path) })
        o n path
      rw [hopened, file_erase_self]
      have hs : (l.service.upload.items o.i).state = .sending := by
        simpa [Step.opensLate] using hlate
      exact (herase hmem rfl rfl).openedDirect hidle hs path name
    | _ => cases hnew
  | _ => cases a <;> cases hnew

theorem sound_next (h : l.Sound) (hok : l.Closes step) (hn : l.next step = some l') : l'.Sound := by
  obtain ⟨s', hs, rfl⟩ := map_eq_some_iff.mp hn
  have hapart := apart_next h.apart hok.1 hs
  have htree := tree_next h.apart.kinded hs
  by_cases hrestart : step = .restart
  · subst hrestart
    rw [if_pos rfl]
    cases Stepped.of_next hs with
    | restart =>
      have hvacant := bringBack_vacant l.service.upload.tree l.service.upload.onConflict
        l.service.upload.verify l.service.rows
      refine .begin hapart (fun i => ?_) fun i => bringBack_writing _ _ _ _ i
      exact Upload.Vacant.idle (u := Service.upload _) ⟨hvacant.tasks, hvacant.sinks⟩ i
  · rw [if_neg hrestart]
    refine ⟨hapart, fun x hx => ?_, fun i hi => ?_⟩
    · dsimp only
      rw [htree]
      rcases mem_append.mp hx with hx | hx
      · exact h.files x hx
      · obtain ⟨t, a, random, rfl, hnew, hti, -⟩ := Step.obtains_eq_some (mem_toList.mp hx)
        obtain ⟨ht, -⟩ := ite_none_right_eq_some.mp hs
        obtain ⟨i, hi, hfile⟩ := Task.file_of_obtains hnew (h.apart.kinded.tasks t ht)
        obtain ⟨rfl⟩ := hi.symm.trans hti
        exact hfile
    · dsimp only at hi ⊢
      rw [htree] at hi
      have hbook := h.books i hi
      have hsinks : Ledger.sinksOf ⟨s', l.sinks ++ (step.obtains l.service.upload).toList, l.past⟩ i =
          l.sinksOf i ++ ((step.obtains l.service.upload).toList.filter (·.1 = i)).map Prod.snd := by
        simp [sinksOf]
      rw [hsinks]
      by_cases hmine : step.obtains l.service.upload = some (i, l.service.upload.nextKey)
      · obtain ⟨t, a, random, rfl, hnew, hti, -⟩ := Step.obtains_eq_some hmine
        rw [hmine]
        cases Stepped.of_next hs with
        | answer _ _ _ u ht hu =>
          simpa using h.book_answer hi ht hti hnew hok.1.2 hu
      · have hnone : (step.obtains l.service.upload).toList.filter (·.1 = i) = [] := by
          refine filter_eq_nil_iff.mpr fun x hx heq => hmine ?_
          obtain ⟨-, -, -, -, -, -, hkey⟩ := Step.obtains_eq_some (mem_toList.mp hx)
          rw [mem_toList.mp hx, ← hkey, ← of_decide_eq_true heq]
        rw [hnone, map_nil, append_nil]
        obtain hhappens | ⟨t, a, random, key, rfl, ht, hti, hkey, ha⟩ :=
          file_next h.apart.kinded hi hok.1.1 hrestart hs
        · exact hbook.happens hhappens
        · have hmem := mem_tasks_file ht hti
          have hnew : t.obtains a = false := by
            rw [← Bool.not_eq_true]
            intro hnew
            exact hmine (by simp [Step.obtains, hnew, hti])
          have hattempt : Attempt (s'.upload.file i) := hapart.files i (by rw [htree]; exact hi)
          have hlate : ∀ k offset data interruption, t = .write i k offset data →
              a = .fault interruption → (l.service.upload.items i).state = .sending := by
            rintro k offset data interruption rfl rfl
            simpa [Step.failsLate] using hok.2
          obtain ⟨new, haccounts⟩ :=
            Accounts.answers hbook.attempt hmem hkey hnew hlate ha
          exact hbook.accounts haccounts hattempt

theorem sound_of_run {s : Service} (h : s.Apart) (hidle : ∀ i, Idle (s.upload.file i))
    (hw : ∀ i, (s.upload.items i).writing = false) (hrun : Run next Closes (begin s) l) : l.Sound :=
  hrun.invariant (Sound.begin h hidle hw) fun _ _ _ hl hok hn => sound_next hl hok hn

theorem Sound.settled (h : l.Sound) {x : ℕ × ℕ} (hx : x ∈ l.sinks)
    (hn : (l.service.upload.file x.1).phases = []) :
    (l.service.upload.items x.1).sink = some x.2 ∧
        (l.service.upload.items x.1).state = .sending ∧ timesEnded x (l.calls x.1) = 0 ∨
      timesEnded x (l.calls x.1) = 1 := by
  have hbook := h.books x.1 (h.files x hx)
  by_cases hheld : (l.service.upload.file x.1).Holds x.1 x.2
  · have hsink := hheld.resolve_right (Idle.not_writesTo hn x.1 x.2)
    exact .inl ⟨hsink, (hbook.attempt.sink x.2 hsink).1, (hbook.held x.2 hheld).2⟩
  · exact .inr (hbook.ended x.2 (mem_sinksOf.mpr hx) hheld)

theorem Sound.holds_of_open (h : l.Sound) {x : ℕ × ℕ} (hx : x ∈ l.sinks)
    (hopen : timesEnded x (l.calls x.1) = 0) : (l.service.upload.file x.1).Holds x.1 x.2 := by
  by_contra hheld
  have hended := (h.books x.1 (h.files x hx)).ended x.2 (mem_sinksOf.mpr hx) hheld
  exact absurd (hopen.symm.trans hended) nofun

theorem Sound.timesEnded_le (h : l.Sound) {x : ℕ × ℕ} (hx : x ∈ l.sinks) :
    timesEnded x (l.calls x.1) ≤ 1 := by
  have hbook := h.books x.1 (h.files x hx)
  by_cases hheld : (l.service.upload.file x.1).Holds x.1 x.2
  · exact (hbook.held x.2 hheld).2.le.trans (Nat.zero_le 1)
  · exact (hbook.ended x.2 (mem_sinksOf.mpr hx) hheld).le

end Ledger

/-- **Every sink is ended once.**  In every state of an orderly run in which no chunk of a stopped
file fails, a sink the hub was given is the own one of a file that is being sent and was not ended,
or was ended once, as soon as nothing is under way for its file.  It is never ended twice, nothing
is written to it afterwards, and a file has one at most that was not ended. -/
theorem sinks_ended_once (start : Start) {l : Ledger}
    (h : Run Ledger.next Ledger.Closes (.begin start.service) l) :
    (∀ x ∈ l.sinks, (l.service.upload.file x.1).phases = [] →
      (l.service.upload.items x.1).sink = some x.2 ∧
          (l.service.upload.items x.1).state = .sending ∧ timesEnded x (l.calls x.1) = 0 ∨
        timesEnded x (l.calls x.1) = 1) ∧
    (∀ x ∈ l.sinks, timesEnded x (l.calls x.1) ≤ 1) ∧
    (∀ i, l.service.upload.tree.IsFile i →
      (l.sinksOf i).Nodup ∧ (l.calls i).Pairwise (Task.Before i)) ∧
    ∀ x ∈ l.sinks, ∀ y ∈ l.sinks, x.1 = y.1 → timesEnded x (l.calls x.1) = 0 →
      timesEnded y (l.calls y.1) = 0 → x = y := by
  have hl : l.Sound :=
    Ledger.sound_of_run start.apart (fun i => (start.idle i).1) (fun i => (start.idle i).2) h
  refine ⟨fun x hx hn => hl.settled hx hn, fun x hx => hl.timesEnded_le hx, fun i hi => ?_, ?_⟩
  · exact ⟨(hl.books i hi).distinct, (hl.books i hi).order⟩
  · intro x hx y hy hfile hopen hopen'
    have hheld := hl.holds_of_open hx hopen
    have hheld' := hl.holds_of_open hy hopen'
    rw [← hfile] at hheld'
    exact Prod.ext hfile ((hl.books x.1 (hl.files x hx)).attempt.holds_unique hheld hheld')

/-- A chunk of a file of two bytes is under way when the file is cancelled. -/
def cancelWriting : List Step :=
  let o : Opening := ⟨0, false, ["a"]⟩
  [ .work (.pump 1 true),
    .answer (.openBackend 0 (some ⟨0, false, false⟩)) .done "r",
    .answer (.openPlacement o) (.placement false) "r",
    .answer (.openTemp o [".a.r.partial"] 0 false) .done "r",
    .answer (.opened 0) .done "r",
    .work (.receive "w" 0 0 [1]),
    .answer (.receiving 0 0 [1]) .done "r",
    .work (.cancel none) ]

/-- A window sends a file of two bytes. -/
def Start.pair : Start := .ofItem .file 2 .ask none

/-- Acknowledged after all, the chunk has its sink closed. -/
theorem sinks_ended_once_cancelled : ∃ l, Run Ledger.next Ledger.Closes (.begin Start.pair.service) l ∧
    l.sinks = [(0, 1)] ∧ timesEnded (0, 1) (l.calls 0) = 1 := by
  have hrun : Run Ledger.next Ledger.Closes (.begin Start.pair.service) _ :=
    .get (cancelWriting ++ [.answer (.write 0 1 0 [1]) .done "r"]) (by decide +kernel)
      (by decide +kernel)
  refine ⟨_, hrun, by decide +kernel, ((sinks_ended_once _ hrun).1 (0, 1) (by decide +kernel)
    (by decide +kernel)).resolve_left ?_⟩
  rintro ⟨-, hsending, -⟩
  exact absurd hsending (by decide +kernel)

/-- Refused, it leaves the sink open for good. -/
theorem sink_left_open : ¬∀ l : Ledger, Run Ledger.next free (.begin Start.pair.service) l →
    ∀ x ∈ l.sinks, (l.service.upload.file x.1).tasks = [] →
      (l.service.upload.items x.1).sink = some x.2 ∧
          (l.service.upload.items x.1).state = .sending ∨
        timesEnded x (l.calls x.1) = 1 := by
  intro hall
  have hrun : Run Ledger.next free (.begin Start.pair.service) _ := .get_free
    (cancelWriting ++ [.answer (.write 0 1 0 [1]) (.fault false) "r"]) (by decide +kernel)
  exact absurd (hall _ hrun (0, 1) (by decide +kernel) (by decide +kernel)) (by decide +kernel)

end Lasterm.Transfer.Uploads
