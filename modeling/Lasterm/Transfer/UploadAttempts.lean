import Lasterm.Transfer.UploadFileSteps

/-!
# The attempts at one file

An attempt at a file opens it, writes its chunks, checks it and places it, and waits for the host
at every one of these (`transfers/transfer-service.ts`).  A file that was stopped may have its last
call under way still; it is to be taken up again only after that.

## Main results

* `Attempt.befalls`, `Attempt.answers` — whatever happens to a file keeps that, unless its own name
  is opened once it was stopped.
* `Attempt.ended_befalls`, `Attempt.ended_answers` — a file that has ended stays as it is.
-/

namespace Lasterm.Transfer.Uploads

open Transition Relation List FileView

/-- The states a file may be in while that is under way for it. -/
def Phase.allows : Phase → ItemState → Prop
  | .opening, state | .writing, state =>
    state = .sending ∨ state = .cancelled ∨ state = .interrupted
  | .placing, state => state = .verifying ∨ state = .cancelled ∨ state = .interrupted
  | .looking, state =>
    state ≠ .sending ∧ state ≠ .verifying ∧ state ≠ .placed ∧ state ≠ .skipped

namespace Phase

variable {p : Phase} {state : ItemState}

theorem allows_interrupted (p : Phase) : p.allows .interrupted := by
  cases p <;> simp [allows]

theorem allows_cancelled (p : Phase) : p.allows .cancelled := by
  cases p <;> simp [allows]

theorem not_allows_placed (h : p.allows state) : state ≠ .placed := by
  cases p <;> simp only [allows] at h <;> rintro rfl <;> simp at h

theorem not_allows_skipped (h : p.allows state) : state ≠ .skipped := by
  cases p <;> simp only [allows] at h <;> rintro rfl <;> simp at h

end Phase

/-- What holds of a file whose attempts are kept apart. -/
structure Attempt (v : FileView) : Prop where
  one : v.phases.length ≤ 1
  allowed : ∀ p ∈ v.phases, p.allows v.item.state
  /-- An open write belongs to a file that is sending, and only writes go to it. -/
  sink : ∀ k, v.item.sink = some k →
    v.item.state = .sending ∧ k < v.key ∧ ∀ p ∈ v.phases, p = .writing
  /-- A chunk under way goes to the write the file has, from where the host's bytes end. -/
  write : ∀ (j k offset : ℕ) (data : List UInt8), .write j k offset data ∈ v.tasks →
    v.item.writing = true ∧ k < v.key ∧
      (v.item.state = .sending → v.item.sink = some k ∧ (offset : ℤ) = v.item.acked ∧
        data ≠ [] ∧ offset + data.length ≤ v.item.size)

namespace FileView

variable {v : FileView} {t : Task} {p : Phase}

theorem mem_phases (ht : t ∈ v.tasks) (hp : t.phase = some p) : p ∈ v.phases :=
  mem_filterMap.mpr ⟨t, ht, hp⟩

theorem phases_erase_of_some (ht : t ∈ v.tasks) (hp : t.phase = some p) (h : v.phases.length ≤ 1)
    (key : ℕ) : v.phases = [p] ∧ (v.erase t key).phases = [] := by
  have hperm : v.phases.Perm (p :: (v.erase t key).phases) := by
    have hsplit := (perm_cons_erase ht).filterMap Task.phase
    rw [filterMap_cons_some hp] at hsplit
    exact hsplit
  have hlength : (v.erase t key).phases.length = 0 := by
    have := hperm.length_eq
    simp only [length_cons] at this
    omega
  have hnil := length_eq_zero_iff.mp hlength
  rw [hnil] at hperm
  exact ⟨perm_singleton.mp hperm, hnil⟩

end FileView

/-- Nothing is under way for the file, and it has no open write. -/
structure Idle (v : FileView) : Prop where
  phases : v.phases = []
  sink : v.item.sink = none

variable {f : Item → Item}

namespace Idle

variable {v : FileView} {t : Task} {p : Phase}

theorem no_write (h : v.phases = []) {j k offset : ℕ} {data : List UInt8} :
    .write j k offset data ∉ v.tasks := by
  intro hmem
  have hp := mem_phases hmem (p := .writing) rfl
  rw [h] at hp
  cases hp

theorem attempt (h : Idle v) : Attempt v where
  one := by simp [h.phases]
  allowed p hp := by
    rw [h.phases] at hp
    cases hp
  sink k hk := by
    rw [h.sink] at hk
    cases hk
  write j k offset data hmem := absurd hmem (no_write h.phases)

theorem edit (h : Idle v) (hf : (f v.item).sink = v.item.sink) : Idle (v.edit f) :=
  ⟨h.phases, hf.trans h.sink⟩

theorem close (h : v.phases = []) (hf : (f v.item).sink = none) : Idle (v.edit f) :=
  ⟨h, hf⟩

theorem await (h : Idle v) (ht : t.phase = none) : Idle (v.await t) :=
  ⟨by rw [phases_await, h.phases, ht]; rfl, h.sink⟩

theorem call (h : Idle v) (ht : t.phase = none) : Idle (v.call t) :=
  ⟨by rw [phases_call, h.phases, ht]; rfl, h.sink⟩

theorem restartFile (h : Idle v) : Idle v.restartFile := h.edit rfl

theorem awaits (h : Idle v) (ht : t.phase = some p) (hp : p ≠ .writing)
    (hs : p.allows v.item.state) : Attempt (v.await t) where
  one := by
    rw [phases_await, h.phases, ht]
    exact le_rfl
  allowed q hq := by
    rw [phases_await, h.phases, ht] at hq
    obtain rfl := mem_singleton.mp hq
    exact hs
  sink k hk := absurd (h.sink.symm.trans hk) nofun
  write j k offset data hmem := by
    obtain hmem | heq := mem_append.mp hmem
    · exact absurd hmem (no_write h.phases)
    · obtain rfl := mem_singleton.mp heq
      exact absurd (Option.some.inj ht).symm hp

theorem calls (h : Idle v) (ht : t.phase = some p) (hp : p ≠ .writing)
    (hs : p.allows v.item.state) : Attempt (v.call t) :=
  awaits (v := { v with calls := v.calls ++ [t] }) ⟨h.phases, h.sink⟩ ht hp hs

end Idle

namespace Attempt

variable {v : FileView} {t : Task} {key : ℕ} {p : Phase}

section

variable (h : Attempt v)
include h

theorem idle (hn : v.phases = []) (hs : v.item.state ≠ .sending) : Idle v := by
  refine ⟨hn, ?_⟩
  cases hk : v.item.sink with
  | none => rfl
  | some k => exact absurd (h.sink k hk).1 hs

theorem free (hf : v.Free) : Idle v := h.idle hf.1 hf.2.1

theorem await (ht : t.phase = none) : Attempt (v.await t) where
  one := by
    rw [phases_await, ht]
    simpa using h.one
  allowed p hp := by
    rw [phases_await, ht] at hp
    exact h.allowed p (by simpa using hp)
  sink k hk := by
    obtain ⟨hs, hlt, hphases⟩ := h.sink k hk
    refine ⟨hs, hlt, fun p hp => hphases p ?_⟩
    rw [phases_await, ht] at hp
    simpa using hp
  write j k offset data hmem := by
    obtain hmem | heq := mem_append.mp hmem
    · exact h.write j k offset data hmem
    · obtain rfl := mem_singleton.mp heq
      cases ht

theorem call (ht : t.phase = none) : Attempt (v.call t) :=
  await (v := { v with calls := v.calls ++ [t] }) ⟨h.one, h.allowed, h.sink, h.write⟩ ht

theorem erase (t : Task) (hkey : v.key ≤ key) : Attempt (v.erase t key) where
  one := by
    refine le_trans (Sublist.length_le ?_) h.one
    exact Sublist.filterMap _ erase_sublist
  allowed p hp := by
    refine h.allowed p ?_
    exact (Sublist.filterMap _ erase_sublist).subset hp
  sink k hk := by
    obtain ⟨hs, hlt, hphases⟩ := h.sink k hk
    refine ⟨hs, lt_of_lt_of_le hlt hkey, fun p hp => hphases p ?_⟩
    exact (Sublist.filterMap _ erase_sublist).subset hp
  write j k offset data hmem := by
    obtain ⟨hw, hlt, hs⟩ := h.write j k offset data (mem_of_mem_erase hmem)
    exact ⟨hw, lt_of_lt_of_le hlt hkey, hs⟩

theorem stop (hsink : (f v.item).sink = none)
    (hwriting : (f v.item).writing = v.item.writing) (hs : (f v.item).state ≠ .sending)
    (ha : ∀ p ∈ v.phases, p.allows (f v.item).state) : Attempt (v.edit f) where
  one := h.one
  allowed := ha
  sink k hk := absurd (hsink.symm.trans hk) nofun
  write j k offset data hmem := by
    obtain ⟨hw, hlt, -⟩ := h.write j k offset data hmem
    exact ⟨hwriting.trans hw, hlt, fun hsending => absurd hsending hs⟩

end

end Attempt

/-! ### The service's functions -/

namespace Idle

variable {v : FileView} {i : ℕ} {o : Opening}

theorem setState (h : Idle v) (state : ItemState) : Idle (v.setState state) := h.edit rfl

theorem skip (h : Idle v) (i : ℕ) (connected : Bool) : Idle (v.skip i connected) := by
  have hskipped : Idle (v.edit fun item =>
      { item with outcome := some .skipped, state := .skipped }).restartFile :=
    (h.edit rfl).restartFile
  unfold FileView.skip
  split
  · exact hskipped
  · split
    · exact hskipped.call rfl
    · exact hskipped

theorem place (h : Idle v) (i : ℕ) (held : Option Backend) : Attempt (v.place i held) := by
  unfold FileView.place
  split
  · exact h.attempt
  · exact (h.setState .verifying).calls (p := .placing) rfl (by decide) (.inl rfl)

theorem restarted (h : Idle v) (i size : ℕ) (mtime : Option ℕ) :
    Idle (v.restarted i size mtime) := by
  refine edit ?_ rfl
  split
  · exact h.restartFile
  · exact h.restartFile.call rfl

theorem fileFailed (h : v.phases = []) (i : ℕ) (interruption : Bool) :
    Idle (v.fileFailed i interruption) := by
  have hclosed : Idle (v.edit fun item => { item with sink := none }) := close h rfl
  unfold FileView.fileFailed
  split
  · refine setState ?_ .interrupted
    split
    · exact hclosed
    · exact hclosed.call rfl
  · exact (hclosed.setState .failed).restartFile.call rfl

section

variable (h : Idle v)
include h

theorem conflictFound (i : ℕ) (policy : Policy) (existing : Option FileEntry)
    (held : Option Backend) (connected : Bool) :
    Attempt (v.conflictFound i policy existing held connected) := by
  have hfound : Idle (v.edit fun item => { item with
      existing, typeClash := (existing.map FileEntry.folderLike).getD false, late := true }) :=
    h.edit rfl
  have hagain : ∀ (w : FileView) (action : Action), Idle w → Attempt (w.goAgain i action held) := by
    intro w action hw
    unfold goAgain
    split
    · exact (hw.edit rfl).place i held
    · exact ((hw.edit rfl).setState .queued).attempt
  have hask : ∀ w : FileView, Idle w → Attempt w.ask := by
    intro w hw
    refine (setState ?_ .conflict).attempt
    split
    · exact hw
    · exact close hw.phases rfl
  unfold FileView.conflictFound
  dsimp only
  split
  · exact (hfound.skip i connected).attempt
  · exact hagain _ .keepBoth hfound
  · split
    · exact hask _ hfound
    · exact hagain _ .replace hfound
  · exact hask _ hfound

/-! ### Opening it -/

section

variable (hs : Phase.opening.allows v.item.state)
include hs

theorem openFile : Attempt (v.openFile o) := by
  unfold FileView.openFile
  split
  · exact h.attempt
  · exact h.calls (p := .opening) rfl (by decide) hs

theorem openNew (verify : Bool) (random : String) : Attempt (v.openNew o verify random) := by
  exact openFile (h.edit rfl) hs

theorem openGoOn (verify : Bool) (random : String) : Attempt (v.openGoOn o verify random) := by
  unfold FileView.openGoOn
  split
  · split
    · exact h.openNew hs verify random
    · exact h.calls (p := .opening) rfl (by decide) hs
  · exact h.openFile hs

theorem openReached (verify : Bool)
    (random : String) : Attempt (v.openReached o verify random) := by
  unfold FileView.openReached
  split
  · split <;> exact h.calls (p := .opening) rfl (by decide) hs
  · exact h.openGoOn hs verify random

theorem openLooked (there : Option Stat)
    (verify : Bool) (random : String) : Attempt (v.openLooked o there verify random) := by
  have hgo : Attempt (if v.item.acked < sizeThere there then
      v.call (.openTruncate o v.item.temp v.item.acked) else v.openGoOn o verify random) := by
    split
    · exact h.calls (p := .opening) rfl (by decide) hs
    · exact h.openGoOn hs verify random
  unfold FileView.openLooked
  by_cases hc : if o.exec && !v.item.carried then sizeThere there = v.item.acked
      else v.item.acked ≤ sizeThere there
  · rw [if_pos hc]
    exact hgo
  · rw [if_neg hc]
    exact h.calls (p := .opening) rfl (by decide) hs

theorem openDirect (n : ℕ) (path : HostPath) : Attempt (v.openDirect o n path) := by
  unfold FileView.openDirect
  split
  · exact h.awaits (p := .opening) rfl (by decide) hs
  · exact h.calls (p := .opening) rfl (by decide) hs

end

theorem opened (hs : v.item.state = .sending)
    (hf : (f v.item).sink = some v.key) (hstate : (f v.item).state = v.item.state) :
    Attempt ({ v with key := v.key + 1 }.edit f) where
  one := by
    change v.phases.length ≤ 1
    simp [h.phases]
  allowed p hp := by
    change p ∈ v.phases at hp
    rw [h.phases] at hp
    cases hp
  sink k hk := by
    obtain ⟨rfl⟩ := hf.symm.trans hk
    refine ⟨hstate.trans hs, Nat.lt_succ_self _, fun p hp => ?_⟩
    change p ∈ v.phases at hp
    rw [h.phases] at hp
    cases hp
  write j k offset data hmem := absurd hmem (no_write h.phases)

theorem openedTemp (hs : Phase.opening.allows v.item.state) : Attempt (v.openedTemp i) := by
  unfold FileView.openedTemp
  split
  · next hsending => exact (h.opened hsending rfl rfl).await rfl
  · have hclosed : Idle ({ v with key := v.key + 1 }.edit fun item => { item with sink := none }) :=
      close (v := { v with key := v.key + 1 }) h.phases rfl
    exact hclosed.calls (p := .opening) rfl (by decide) hs

theorem openStopped (hs : Phase.opening.allows v.item.state) (connected : Bool) :
    Attempt (v.openStopped i connected) := by
  unfold FileView.openStopped
  split
  · split
    · exact (h.restartFile.await rfl).attempt
    · split
      · exact h.restartFile.calls (p := .opening) rfl (by decide) hs
      · exact (h.restartFile.await rfl).attempt
  · exact (h.await rfl).attempt

end

end Idle

namespace Attempt

variable {v v' : FileView} {t : Task} {a : Answer} {i key : ℕ} {p : Phase} {taken drops : Prop}

section

variable (h : Attempt v)
include h

theorem interrupt (i : ℕ) : Attempt (v.interrupt i) := by
  have hstopped : Attempt (v.edit fun item => { item with sink := none, state := .interrupted }) :=
    h.stop rfl rfl (by simp) fun p _ => p.allows_interrupted
  unfold FileView.interrupt
  split
  · exact hstopped
  · split
    · exact hstopped
    · exact hstopped.call rfl

theorem stopItem (i : ℕ) : Attempt (v.stopItem i) := by
  have hstopped : Attempt (v.edit fun item => { item with sink := none, state := .cancelled }) :=
    h.stop rfl rfl (by simp) fun p _ => p.allows_cancelled
  unfold FileView.stopItem
  split
  · exact hstopped
  · exact hstopped.call rfl

theorem dropItem (i : ℕ) : Attempt (v.dropItem i) := by
  have hstopped : Attempt (v.edit fun item => { item with
      sink := none, state := if item.state.unsettled then .cancelled else item.state }) := by
    refine h.stop rfl rfl ?_ fun p hp => ?_
    · dsimp only
      split
      · decide
      · next hsettled =>
        rintro hs
        rw [hs] at hsettled
        exact hsettled rfl
    · dsimp only
      split
      · exact p.allows_cancelled
      · exact h.allowed p hp
  unfold FileView.dropItem
  split
  · exact hstopped
  · split
    · exact hstopped
    · exact hstopped.call rfl

theorem fail (hs : v.item.state = .queued ∨ v.item.state = .conflict) :
    Attempt (v.setState .failed) := by
  refine h.stop ?_ rfl (by simp) fun p hp => ?_
  · change v.item.sink = none
    cases hk : v.item.sink with
    | none => rfl
    | some k =>
      have hsending := (h.sink k hk).1
      simp [hsending] at hs
  · have hallowed := h.allowed p hp
    cases p with
    | looking => simp [Phase.allows]
    | _ => rcases hs with hs | hs <;> simp [Phase.allows, hs] at hallowed

theorem befalls (hb : Befalls i taken drops v v') : Attempt v' := by
  cases hb with
  | number key hkey =>
    refine ⟨h.one, h.allowed, fun k hk => ?_, fun j k offset data hmem => ?_⟩
    · obtain ⟨hs, hlt, hphases⟩ := h.sink k hk
      exact ⟨hs, lt_of_lt_of_le hlt hkey, hphases⟩
    · obtain ⟨hw, hlt, hs⟩ := h.write j k offset data hmem
      exact ⟨hw, lt_of_lt_of_le hlt hkey, hs⟩
  | interrupt => exact h.interrupt i
  | stop => exact h.stopItem i
  | drop => exact h.dropItem i
  | fail hs => exact h.fail hs
  | receive offset data hs => exact h.await rfl
  | skip _ hf connected => exact ((h.free hf).skip i connected).attempt
  | resolve _ hf _ action => exact ((h.free hf).edit rfl).attempt
  | queue _ hf => exact ((h.free hf).setState .queued).attempt
  | place _ hf _ held => exact (h.free hf).place i held
  | admits _ hf _ _ held =>
    exact ((h.free hf).setState .sending).calls (p := .opening) rfl (by decide) (.inl rfl)
  | look _ hf _ key temp _ =>
    refine (h.free hf).calls (p := .looking) rfl (by decide) ?_
    exact ⟨hf.2.1, hf.2.2.1, fun hs => hf.2.2.2 (.inl hs), fun hs => hf.2.2.2 (.inr hs)⟩
  | restart _ hf _ size mtime => exact ((h.free hf).restarted i size mtime).attempt

/-- Once what was under way is answered, nothing is, and the file is in a state that allowed it. -/
theorem answered (ht : t ∈ v.tasks) (hp : t.phase = some p) (hne : p ≠ .writing)
    (key : ℕ) : Idle (v.erase t key) ∧ p.allows (v.erase t key).item.state := by
  obtain ⟨hphases, hnil⟩ := phases_erase_of_some ht hp h.one key
  refine ⟨⟨hnil, ?_⟩, h.allowed p (hphases ▸ mem_singleton_self p)⟩
  change v.item.sink = none
  cases hk : v.item.sink with
  | none => rfl
  | some k => exact absurd ((h.sink k hk).2.2 p (hphases ▸ mem_singleton_self p)) hne

theorem no_write_of_whole (hs : v.item.state = .sending)
    (hw : v.item.acked = v.item.size) (j k offset : ℕ) (data : List UInt8) :
    .write j k offset data ∉ v.tasks := by
  intro hmem
  obtain ⟨-, -, hsending⟩ := h.write j k offset data hmem
  obtain ⟨-, hoffset, hdata, hlen⟩ := hsending hs
  have := length_pos_of_ne_nil hdata
  omega

theorem finishFile (hw : v.item.acked = v.item.size) (i : ℕ) : Attempt (v.finishFile i) := by
  unfold FileView.finishFile
  split
  · exact h
  · next k hk =>
    split
    · next hs =>
      have hnil : v.phases = [] := by
        refine eq_nil_iff_forall_not_mem.mpr fun p hp => ?_
        obtain rfl := (h.sink k hk).2.2 p hp
        obtain ⟨t, hmem, ht⟩ := mem_filterMap.mp hp
        cases t with
        | write j k offset data => exact h.no_write_of_whole hs hw j k offset data hmem
        | _ => cases ht
      exact (Idle.close hnil rfl).calls (p := .placing) rfl (by decide) (.inl rfl)
    · exact h

theorem receiving (i offset : ℕ) (data : List UInt8) : Attempt (v.receiving i offset data) := by
  unfold FileView.receiving
  split
  · exact h
  · next k hk =>
    split
    · next hc =>
      obtain ⟨hs, hwriting, hoffset, hdata, hlen⟩ := hc
      obtain ⟨-, hlt, hphases⟩ := h.sink k hk
      -- no chunk is under way, and nothing else may be
      have hnil : v.phases = [] := by
        refine eq_nil_iff_forall_not_mem.mpr fun p hp => ?_
        obtain rfl := hphases p hp
        obtain ⟨t, hmem, ht⟩ := mem_filterMap.mp hp
        cases t with
        | write j k offset data =>
          obtain ⟨hw, -⟩ := h.write j k offset data hmem
          rw [hwriting] at hw
          exact Bool.false_ne_true hw
        | _ => cases ht
      have hphases' : ((v.edit fun item => { item with writing := true }).call
          (.write i k offset data)).phases = [.writing] := by
        rw [phases_call, phases_edit, hnil]
        rfl
      refine ⟨by simp [hphases'], fun p hp => ?_, fun k' hk' => ?_, fun j k' offset' data' hmem => ?_⟩
      · rw [hphases'] at hp
        obtain rfl := mem_singleton.mp hp
        exact .inl hs
      · rw [hphases']
        obtain ⟨rfl⟩ := hk.symm.trans hk'
        exact ⟨hs, hlt, fun p hp => mem_singleton.mp hp⟩
      · obtain hmem | heq := mem_append.mp hmem
        · exact absurd hmem (Idle.no_write hnil)
        · obtain ⟨rfl, rfl, rfl, rfl⟩ := Task.write.inj (mem_singleton.mp heq)
          exact ⟨rfl, hlt, fun _ => ⟨hk, hoffset, hdata, hlen⟩⟩
    · exact h

theorem edit (hn : v.phases = [])
    (hsink : (f v.item).sink = v.item.sink) (hstate : (f v.item).state = v.item.state) :
    Attempt (v.edit f) where
  one := h.one
  allowed p hp := by
    change p ∈ v.phases at hp
    rw [hn] at hp
    cases hp
  sink k hk := by
    change (f v.item).state = .sending ∧ _
    rw [hstate]
    exact h.sink k (hsink.symm.trans hk)
  write _ _ _ _ hmem := absurd hmem (Idle.no_write hn)

theorem written (hn : v.phases = []) (i s : ℕ) (data : List UInt8) :
    Attempt (v.written i s data) := by
  have hended : Attempt (v.edit fun item => { item with writing := false }) := h.edit hn rfl rfl
  unfold FileView.written
  dsimp only
  split
  · split
    · next hwhole => exact finishFile (hended.edit hn rfl rfl) hwhole i
    · exact hended.edit hn rfl rfl
  · exact hended.call rfl

theorem writeFailed (hn : v.phases = []) (i : ℕ) (interruption : Bool) :
    Attempt (v.writeFailed i interruption) := by
  unfold FileView.writeFailed
  split
  · exact ((Idle.fileFailed hn i interruption).edit rfl).attempt
  · next hs => exact ((h.idle hn hs).edit rfl).attempt

theorem stopped (i : ℕ) (connected : Bool) : Attempt (v.stopped i connected) := by
  unfold FileView.stopped
  split
  · next hs =>
    have hrestart : Attempt v.restartFile := by
      refine h.stop ?_ rfl (by simp [hs]) h.allowed
      cases hk : v.item.sink with
      | none => rfl
      | some k =>
        have hsending := (h.sink k hk).1
        simp [hs] at hsending
    split
    · exact hrestart
    · split
      · exact hrestart.call rfl
      · exact hrestart
  · exact h

end

theorem finished (h : Idle v) (i : ℕ) (how : Verification) (held : Option Backend) :
    Attempt (v.finished i how held) := by
  unfold FileView.finished
  split
  · exact ((h.edit rfl).edit rfl).attempt
  · exact (h.edit rfl).place i held

/-- What follows an await on a file's behalf keeps the attempts at it apart, unless its own name is
opened once it was stopped. -/
theorem answers (h : Attempt v) (ht : t ∈ v.tasks) (hkey : v.key ≤ key)
    (hd : ∀ o n path, t = .openDirect o n path → a = .done → v.item.state = .sending)
    (ha : Answers i (v.erase t key) t a v') : Attempt v' := by
  have hrest : Attempt (v.erase t key) := h.erase t hkey
  have hopening : t.phase = some .opening →
      Idle (v.erase t key) ∧ Phase.opening.allows (v.erase t key).item.state :=
    fun hp => h.answered ht hp (by decide) key
  have hplacing : t.phase = some .placing →
      Idle (v.erase t key) ∧ Phase.placing.allows (v.erase t key).item.state :=
    fun hp => h.answered ht hp (by decide) key
  have hlooking : t.phase = some .looking →
      Idle (v.erase t key) ∧ Phase.looking.allows (v.erase t key).item.state :=
    fun hp => h.answered ht hp (by decide) key
  have hwriting : t.phase = some .writing → (v.erase t key).phases = [] :=
    fun hp => (phases_erase_of_some ht hp h.one key).2
  cases ha with
  | openThrew t k hp hi =>
    obtain ⟨hidle, hs⟩ := hopening hp
    exact hidle.awaits (p := .opening) rfl (by decide) hs
  | openReached held a exec verify target random =>
    obtain ⟨hidle, hs⟩ := hopening rfl
    exact hidle.openReached hs verify random
  | openLooked o temp a there verify random hi ha =>
    obtain ⟨hidle, hs⟩ := hopening rfl
    exact hidle.openLooked hs there verify random
  | openTruncated o temp size verify random hi =>
    obtain ⟨hidle, hs⟩ := hopening rfl
    exact hidle.openGoOn hs verify random
  | openNotTruncated o temp size hi =>
    obtain ⟨hidle, hs⟩ := hopening rfl
    exact hidle.calls (p := .opening) rfl (by decide) hs
  | openRemoved o temp verify random hi =>
    obtain ⟨hidle, hs⟩ := hopening rfl
    exact hidle.restartFile.openGoOn hs verify random
  | openTemporary o verify random hi =>
    obtain ⟨hidle, hs⟩ := hopening rfl
    exact hidle.openNew hs verify random
  | openOwnName | openTempAgain =>
    obtain ⟨hidle, hs⟩ := hopening rfl
    exact (hidle.edit rfl).calls (p := .opening) rfl (by decide) hs
  | openedDirect o n path name hi =>
    obtain ⟨hidle, -⟩ := hopening rfl
    exact (hidle.opened (hd o n path rfl rfl) rfl rfl).await rfl
  | openConflict o n path existing policy held connected hi =>
    obtain ⟨hidle, -⟩ := hopening rfl
    exact (hidle.conflictFound i policy existing held connected).await rfl
  | openNextName o n path path' existing hi =>
    obtain ⟨hidle, hs⟩ := hopening rfl
    exact hidle.openDirect hs (n + 1) path'
  | openedTemp o temp resumeAt again hi =>
    obtain ⟨hidle, hs⟩ := hopening rfl
    exact hidle.openedTemp hs
  | openTempTaken o temp resumeAt again existing hi =>
    obtain ⟨hidle, hs⟩ := hopening rfl
    exact hidle.awaits (p := .opening) rfl (by decide) hs
  | openStopped s connected =>
    obtain ⟨hidle, hs⟩ := hopening rfl
    exact hidle.openStopped hs connected
  | openStoppedRemoved temp =>
    obtain ⟨hidle, -⟩ := hopening rfl
    exact (hidle.await rfl).attempt
  | openedWhole hs hwhole => exact hrest.finishFile hwhole i
  | opened | openFailedStopped | failedKeeps | aborted | removed | looked => exact hrest
  | openFailed k hs =>
    obtain ⟨hidle, -⟩ := hopening rfl
    exact (Idle.fileFailed hidle.phases i k).attempt
  | receiving offset data => exact hrest.receiving i offset data
  | written s offset data => exact hrest.written (hwriting rfl) i s data
  | writeFailed s offset data k => exact hrest.writeFailed (hwriting rfl) i k
  | stopped sink connected => exact hrest.stopped i connected
  | finished s hash a how held =>
    obtain ⟨hidle, -⟩ := hplacing rfl
    exact Attempt.finished hidle i how held
  | placeThrew t k hp hi =>
    obtain ⟨hidle, -⟩ := hplacing hp
    exact (Idle.fileFailed hidle.phases i k).attempt
  | placeReached | placeNextName =>
    obtain ⟨hidle, hs⟩ := hplacing rfl
    exact hidle.calls (p := .placing) rfl (by decide) hs
  | placeNoName temp target n existing =>
    obtain ⟨hidle, -⟩ := hplacing rfl
    exact (Idle.fileFailed hidle.phases i false).attempt
  | placed temp target how a outcome name ha =>
    obtain ⟨hidle, -⟩ := hplacing rfl
    exact ((hidle.edit rfl).edit rfl).attempt
  | placeConflict temp target existing policy held connected =>
    obtain ⟨hidle, -⟩ := hplacing rfl
    exact hidle.conflictFound i policy existing held connected
  | failedRemoves sink temp => exact hrest.call rfl
  | lookTruncates key temp there ha =>
    obtain ⟨hidle, hs⟩ := hlooking rfl
    exact hidle.calls (p := .looking) rfl (by decide) hs
  | lookRemoves t a key temp hp hi =>
    obtain ⟨hidle, hs⟩ := hlooking hp
    exact hidle.calls (p := .looking) rfl (by decide) hs
  | lookRestarts t a hp hi =>
    obtain ⟨hidle, -⟩ := hlooking hp
    exact hidle.restartFile.attempt

end Attempt

/-! ### A file that has ended -/

/-- What was begun for the file so far: every call of its attempts, by what it was of. -/
def FileView.begun (v : FileView) : List Phase := v.calls.filterMap Task.phase

@[simp] theorem FileView.begun_call (v : FileView) (t : Task) :
    (v.call t).begun = v.begun ++ t.phase.toList := by
  unfold begun call await
  cases h : t.phase <;> simp [h]

/-- The file is as it was: at what it is, and nothing more begun for it. -/
def Unmoved (v v' : FileView) : Prop := v'.item.state = v.item.state ∧ v'.begun = v.begun

namespace Attempt

variable {v v' : FileView} {t : Task} {a : Answer} {i key : ℕ} {taken drops : Prop}

theorem phases_of_ended (h : Attempt v) (hend : v.item.ended) : v.phases = [] := by
  refine eq_nil_iff_forall_not_mem.mpr fun p hp => ?_
  exact hend.elim (Phase.not_allows_placed (h.allowed p hp))
    (Phase.not_allows_skipped (h.allowed p hp))

theorem sink_of_not_sending (h : Attempt v) (hs : v.item.state ≠ .sending) : v.item.sink = none := by
  cases hk : v.item.sink with
  | none => rfl
  | some k => exact absurd (h.sink k hk).1 hs

theorem unmoved_of_ended_befalls (h : Attempt v) (hend : v.item.ended)
    (hb : Befalls i taken drops v v') : Unmoved v v' := by
  have hlive : ∀ state, state ≠ .placed → state ≠ .skipped → v.item.state ≠ state := by
    rintro state hp hs rfl
    exact hend.elim hp hs
  cases hb with
  | number | receive => exact ⟨rfl, rfl⟩
  | interrupt hs =>
    rcases hs with hs | hs | hs <;> exact absurd hs (hlive _ (by decide) (by decide))
  | stop hs =>
    rcases hs with hs | hs | hs | hs <;> exact absurd hs (hlive _ (by decide) (by decide))
  | drop =>
    have hsink := h.sink_of_not_sending (hlive _ (by decide) (by decide))
    have hsettled : v.item.state.unsettled = false := by
      rcases hend with hend | hend <;> rw [hend] <;> rfl
    unfold FileView.dropItem Unmoved
    rw [hsink]
    simp [FileView.edit, FileView.begun, hsettled]
  | fail hs =>
    rcases hs with hs | hs <;> exact absurd hs (hlive _ (by decide) (by decide))
  | skip _ hf | resolve _ hf | queue _ hf | place _ hf | admits _ hf | look _ hf | restart _ hf =>
    exact absurd hend hf.2.2.2

theorem unmoved_of_ended_answers (h : Attempt v) (hend : v.item.ended) (ht : t ∈ v.tasks)
    (ha : Answers i (v.erase t key) t a v') : Unmoved v v' := by
  have hlive : ∀ state, state ≠ .placed → state ≠ .skipped → v.item.state ≠ state := by
    rintro state hp hs rfl
    exact hend.elim hp hs
  have hsending : v.item.state ≠ .sending := hlive _ (by decide) (by decide)
  have hphase : ∀ p, t.phase ≠ some p := by
    intro p hp
    have hmem := mem_phases ht hp
    rw [h.phases_of_ended hend] at hmem
    cases hmem
  cases ha with
  | openedWhole hs => exact absurd hs hsending
  | opened | failedKeeps | aborted | removed => exact ⟨rfl, rfl⟩
  | receiving offset data =>
    unfold FileView.receiving
    have hsink : (v.erase (.receiving i offset data) key).item.sink = none :=
      h.sink_of_not_sending hsending
    rw [hsink]
    exact ⟨rfl, rfl⟩
  | stopped sink connected =>
    unfold FileView.stopped
    rw [if_neg]
    · exact ⟨rfl, rfl⟩
    · exact hlive _ (by decide) (by decide)
  | failedRemoves sink temp => exact ⟨rfl, by simp [Task.phase]; rfl⟩
  | openThrew _ _ hp | placeThrew _ _ hp | looked _ _ hp | lookRemoves _ _ _ _ hp
  | lookRestarts _ _ hp => exact absurd hp (hphase _)
  | openReached | openLooked | openTruncated | openNotTruncated | openRemoved | openTemporary
  | openOwnName | openedDirect | openConflict | openNextName | openedTemp | openTempTaken
  | openTempAgain | openStopped | openStoppedRemoved | openFailed | openFailedStopped =>
    exact absurd rfl (hphase .opening)
  | written | writeFailed => exact absurd rfl (hphase .writing)
  | finished | placeReached | placeNextName | placeNoName | placed | placeConflict =>
    exact absurd rfl (hphase .placing)
  | lookTruncates => exact absurd rfl (hphase .looking)

end Attempt

/-! ### A file that is sent or checked -/

/-- Sent or checked, or stopped meanwhile. -/
def Item.moving (item : Item) : Prop :=
  item.state = .sending ∨ item.state = .verifying ∨ item.state = .interrupted ∨
    item.state = .cancelled

/-- Nothing from elsewhere queues a file that is sent or checked, or places it, unless it takes it
up. -/
theorem moving_of_befalls {v v' : FileView} {i : ℕ} {taken drops : Prop} (hm : v.item.moving)
    (ht : ¬taken) (hb : Befalls i taken drops v v') : v'.item.moving := by
  cases hb with
  | number | receive => exact hm
  | interrupt => exact .inr (.inr (.inl (v.interrupt_state i)))
  | stop => exact .inr (.inr (.inr (v.stopItem_state i)))
  | drop =>
    unfold Item.moving
    rw [v.dropItem_state i]
    split
    · exact .inr (.inr (.inr rfl))
    · exact hm
  | fail hs =>
    unfold Item.moving at hm
    rcases hs with hs | hs <;> simp [hs] at hm
  | skip h | resolve h | queue h | place h | admits h | look h | restart h => exact absurd h ht

theorem moving_of_answers {v v' : FileView} {i : ℕ} {t : Task} {a : Answer} (hm : v.item.moving)
    (ht : t.phase = none) (ha : Answers i v t a v') : v'.item.moving := by
  cases ha with
  | openedWhole hs =>
    unfold finishFile
    split
    · exact hm
    · rw [if_pos hs]
      exact .inr (.inl rfl)
  | opened | failedRemoves | failedKeeps | aborted | removed => exact hm
  | receiving offset data =>
    unfold receiving
    split
    · exact hm
    · split <;> exact hm
  | stopped sink connected =>
    unfold stopped
    split
    · split
      · exact hm
      · split <;> exact hm
    · exact hm
  | openThrew _ _ hp | placeThrew _ _ hp | looked _ _ hp | lookRemoves _ _ _ _ hp
  | lookRestarts _ _ hp => exact absurd (ht.symm.trans hp) nofun
  | _ => cases ht

end Lasterm.Transfer.Uploads
