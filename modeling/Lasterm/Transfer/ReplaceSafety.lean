import Lasterm.Transfer.Replace
import Mathlib.Tactic.Common

/-!
# Replacing a file loses nothing

A placement that is one request leaves the old file under its name or the new one.  Where
it is several (a server without a rename that replaces), the name is free in between, and
the temporary is all there is: what may happen then is what `Orderly` asks for.

## Main results

* `replace_keeps_a_copy` — a copy is left, in every orderly run.
* `atomic_orderly` — with a backend that replaces in one step, every step is orderly.
* `rename_refused_loses_both` — a run that is not.
-/

namespace Lasterm.Transfer.Replace

open Transition Option Function List

/-! ### What each operation does to the files -/

/-- A temporary that was found whole is whole, or is no longer there. -/
def Files.WholeOrGone (f : Files) (temp : ℕ) : Prop :=
  f.temps temp = some .whole ∨ f.temps temp = none

/-- No file that matters is a part of one. -/
def Files.Entire (f : Files) : Prop := f.target ≠ some .part ∧ .part ∉ f.aside

/-- What a placement of the temporary `k` may do: it spares the other temporaries, and
neither loses a file nor leaves a part of one. -/
structure Moves (f f' : Files) (k : ℕ) : Prop where
  others : ∀ j, j ≠ k → f'.temps j = f.temps j
  temp : f'.temps k = f.temps k ∨ f'.temps k = none
  entire : f.WholeOrGone k → f.Entire → f'.Entire
  held : ¬f.Freed → ¬f'.Freed

namespace Moves

variable {f f' : Files} {k : ℕ}

theorem refl (f : Files) (k : ℕ) : Moves f f k :=
  ⟨fun _ _ => rfl, .inl rfl, fun _ h => h, id⟩

theorem moveIn (f : Files) (k : ℕ) : Moves f (f.moveIn k) k where
  others j hj := update_of_ne hj ..
  temp := .inr (update_self ..)
  entire hk hf := by
    refine ⟨?_, hf.2⟩
    unfold Files.moveIn
    obtain hk | hk := hk
    · simp [hk]
    · simpa [hk] using hf.1
  held hf := by
    rintro ⟨htarget, haside⟩
    cases hk : f.temps k with
    | none => exact hf ⟨by simpa [Files.moveIn, hk] using htarget, haside⟩
    | some c => simp [Files.moveIn, hk] at htarget

theorem moveAside (f : Files) (k : ℕ) : Moves f f.moveAside k where
  others _ _ := rfl
  temp := .inl rfl
  entire _ hf := by
    refine ⟨nofun, ?_⟩
    intro hmem
    obtain htarget | haside := mem_append.mp hmem
    · exact hf.1 (mem_toList.mp htarget)
    · exact hf.2 haside
  held hf := by
    rintro ⟨-, haside⟩
    obtain ⟨htarget, haside⟩ := append_eq_nil_iff.mp haside
    exact hf ⟨toList_eq_nil_iff.mp htarget, haside⟩

theorem trans {f'' : Files} (h : Moves f f' k) (hk : f'.temps k = f.temps k)
    (h' : Moves f' f'' k) : Moves f f'' k where
  others j hj := (h'.others j hj).trans (h.others j hj)
  temp := by rw [← hk]; exact h'.temp
  entire hw hf := by
    have hw' : f'.WholeOrGone k := by
      unfold Files.WholeOrGone
      rw [hk]
      exact hw
    exact h'.entire hw' (h.entire hw hf)
  held hf := h'.held (h.held hf)

theorem moveIn_deleteAside (hk : f.temps k ≠ none) :
    Moves f (f.moveIn k).deleteAside k where
  others := (moveIn f k).others
  temp := (moveIn f k).temp
  entire hw hf := by
    obtain ⟨htarget, haside⟩ := (moveIn f k).entire hw hf
    exact ⟨htarget, fun hmem => haside (mem_of_mem_tail hmem)⟩
  held _ := by
    rintro ⟨htarget, -⟩
    obtain ⟨c, hc⟩ := ne_none_iff_exists'.mp hk
    simp [Files.deleteAside, Files.moveIn, hc] at htarget

end Moves

variable {f : Files}

theorem Files.moveBack_moveAside (h : f.target.isSome) : f.moveAside.moveBack = f := by
  obtain ⟨c, hc⟩ := isSome_iff_exists.mp h
  cases f
  cases hc
  rfl

theorem posixPlace_moves (f : Files) (k : ℕ) (r : ScriptRun) :
    Moves f (posixPlace f k r).1 k := by
  unfold posixPlace
  split
  · exact .refl f k
  · exact .moveIn f k

/-- However the script is cut short, the old file is under its name or set aside until the
new one has the name. -/
theorem windowsPlace_moves (f : Files) (k : ℕ) (r : ScriptRun) :
    Moves f (windowsPlace f k r).1 k := by
  have haside : Moves f f.moveAside k := .moveAside f k
  unfold windowsPlace
  split
  · exact .refl f k
  · rename_i hrun
    have hk : f.moveAside.temps k ≠ none := by
      intro hnone
      have hnone' : f.temps k = none := hnone
      simp [hnone'] at hrun
    split
    · rename_i hthere
      split
      · exact .refl f k
      · split
        · exact haside
        · split
          · split
            · rw [Files.moveBack_moveAside hthere]
              exact .refl f k
            · exact haside
          · split
            · exact haside.trans rfl (.moveIn _ k)
            · split
              · exact haside.trans rfl (.moveIn_deleteAside hk)
              · exact haside.trans rfl (.moveIn _ k)
    · split
      · exact .refl f k
      · exact .moveIn f k

/-! ### What holds of the file, whatever happens -/

/-- The backends whose placement is one request. -/
def Backend.atomic : Backend → Bool
  | .onDisk | .posix | .windows => true
  | .sftp _ => false

/-- The requests each backend's placement makes. -/
def Request.fits : Request → Backend → Bool
  | .stat _, .onDisk | .stat _, .sftp _ => true
  | .replacingRename _ _, .onDisk | .replacingRename _ _, .sftp _ => true
  | .unlink _, .sftp _ | .rename _, .sftp _ => true
  | .script _, .posix | .script _, .windows => true
  | _, _ => false

/-- How the file, its placement and what is on the host fit together. -/
structure Shape (b : Backend) (s : Upload) : Prop where
  known : ∀ k, s.temp = some k → k < s.nextTemp ∧ k ∉ s.removing
  removing : ∀ k ∈ s.removing, k < s.nextTemp
  busy : s.placing ≠ none → s.state = .verifying ∨ s.dropped = true
  sending : s.state = .sending → s.tempWhole = false
  fits : ∀ r, s.placing = some r → r.fits b = true
  placing : ∀ r, s.placing = some r → r.temp < s.nextTemp ∧ s.files.WholeOrGone r.temp ∧
    (s.temp = none ∨ s.temp = some r.temp ∧ s.tempWhole = true)
  whole : ∀ k, s.temp = some k → s.tempWhole = true → s.files.WholeOrGone k
  recorded : ∀ k, s.temp = some k → s.files.temps k = some .whole → s.tempWhole = true
  entire : s.files.Entire
  held : b.atomic = true → ¬s.files.Freed

variable {r : Request} {a : Answer}

namespace Shape

variable {b : Backend} {s s' : Upload}

theorem init (b : Backend) : Shape b .init where
  known := nofun
  removing := nofun
  busy h := absurd rfl h
  sending := nofun
  fits := nofun
  placing := nofun
  whole := nofun
  recorded := nofun
  entire := ⟨nofun, nofun⟩
  held _ h := nomatch h.1

section

variable (h : Shape b s)
include h

theorem idle (hd : s.dropped = false) (hs : s.state ≠ .verifying) : s.placing = none := by
  by_contra hne
  obtain hv | hv := h.busy hne
  · exact hs hv
  · rw [hd] at hv
    cases hv

theorem forget (st : ItemState)
    (hidle : s.placing = none ∨ s.dropped = true) : Shape b (s.forget st) where
  known := nofun
  removing k hk := by
    unfold Upload.forget at hk
    cases ht : s.temp with
    | none =>
      rw [ht] at hk
      exact h.removing k hk
    | some j =>
      rw [ht] at hk
      obtain rfl | hk := mem_cons.mp hk
      · exact (h.known k ht).1
      · exact h.removing k hk
  busy hne := by
    obtain hn | hd := hidle
    · exact absurd hn hne
    · exact .inr hd
  sending _ := rfl
  fits := h.fits
  placing r hr := ⟨(h.placing r hr).1, (h.placing r hr).2.1, .inl rfl⟩
  whole := nofun
  recorded := nofun
  entire := h.entire
  held := h.held

theorem ends {st : ItemState} (hst : st ≠ .sending) :
    Shape b { s with placing := none, state := st } where
  known := h.known
  removing := h.removing
  busy hne := absurd rfl hne
  sending hs := absurd hs hst
  fits := nofun
  placing := nofun
  whole := h.whole
  recorded := h.recorded
  entire := h.entire
  held := h.held

theorem fileFailed (interruption : Bool) : Shape b (s.fileFailed interruption) := by
  unfold Upload.fileFailed
  simp only
  split
  · exact h.ends nofun
  · have hended : Shape b { s with placing := none, state := .failed } := h.ends nofun
    exact hended.forget _ (.inl rfl)

theorem filePlaced : Shape b s.filePlaced where
  known := nofun
  removing := h.removing
  busy hne := absurd rfl hne
  sending := nofun
  fits := nofun
  placing := nofun
  whole := nofun
  recorded := nofun
  entire := h.entire
  held := h.held

theorem place (hw : s.tempWhole = true) : Shape b (s.place b) := by
  unfold Upload.place
  split
  · exact h
  · rename_i k hk
    refine ⟨h.known, h.removing, fun _ => .inl rfl, nofun, ?_, ?_, h.whole, h.recorded,
      h.entire, h.held⟩
    · rintro r ⟨rfl⟩
      cases b <;> rfl
    · rintro r ⟨rfl⟩
      have hplace : k < s.nextTemp ∧ s.files.WholeOrGone k ∧
          (s.temp = none ∨ s.temp = some k ∧ s.tempWhole = true) :=
        ⟨(h.known k hk).1, h.whole k hk hw, .inr ⟨hk, hw⟩⟩
      cases b <;> exact hplace

theorem moves (hr : s.placing = some r)
    (hm : Moves s.files f r.temp) : Shape b { s with files := f } := by
  obtain ⟨hlt, hwhole, htemp⟩ := h.placing r hr
  have hwhole' : f.WholeOrGone r.temp := by
    unfold Files.WholeOrGone
    obtain hsame | hgone := hm.temp
    · rw [hsame]; exact hwhole
    · exact .inr hgone
  -- What the file records, if anything, is the temporary being placed.
  have hrec : ∀ k, s.temp = some k → k = r.temp ∧ s.tempWhole = true := by
    intro k hk
    obtain hn | ⟨hs, hw⟩ := htemp
    · rw [hn] at hk
      cases hk
    · rw [hs] at hk
      cases hk
      exact ⟨rfl, hw⟩
  refine ⟨h.known, h.removing, h.busy, h.sending, h.fits, ?_, ?_, ?_, hm.entire hwhole h.entire,
    fun hb => hm.held (h.held hb)⟩
  · intro r' hr'
    rw [hr] at hr'
    cases hr'
    exact ⟨hlt, hwhole', htemp⟩
  · intro k hk _
    rw [(hrec k hk).1]
    exact hwhole'
  · exact fun k hk _ => (hrec k hk).2

theorem next {r' : Request} (hr : s.placing = some r)
    (htemp : r'.temp = r.temp) (hfits : r'.fits b = true) :
    Shape b { s with placing := some r' } where
  known := h.known
  removing := h.removing
  busy _ := h.busy (by rw [hr]; nofun)
  sending := h.sending
  fits := by
    rintro _ ⟨rfl⟩
    exact hfits
  placing := by
    rintro _ ⟨rfl⟩
    rw [htemp]
    exact h.placing r hr
  whole := h.whole
  recorded := h.recorded
  entire := h.entire
  held := h.held

theorem freeName (hr : s.placing = some r)
    (hb : b.atomic = false) (there : Bool) : Shape b (s.freeName r.temp there) := by
  cases b with
  | onDisk | posix | windows => cases hb
  | sftp p =>
    cases there with
    | true | false => exact h.next hr rfl rfl

theorem removeTarget (hb : b.atomic = false) :
    Shape b { s with files := s.files.removeTarget } where
  known := h.known
  removing := h.removing
  busy := h.busy
  sending := h.sending
  fits := h.fits
  placing := h.placing
  whole := h.whole
  recorded := h.recorded
  entire := ⟨nofun, h.entire.2⟩
  held hb' := by
    rw [hb] at hb'
    cases hb'

/-- What `moveIn` or nothing does. -/
theorem movesIf (hr : s.placing = some r) (applied : Bool) :
    Shape b { s with files := if applied then s.files.moveIn r.temp else s.files } := by
  refine h.moves hr ?_
  split
  · exact .moveIn _ _
  · exact .refl _ _

theorem answer (hr : s.placing = some r) (ha : s.answer b r a = some s') : Shape b s' := by
  have hfits := h.fits r hr
  cases r with
  | stat k =>
    cases a with
    | ok =>
      unfold Upload.answer at ha
      simp only at ha
      split at ha <;> obtain ⟨rfl⟩ := ha
      · exact h.freeName hr rfl _
      · refine h.next hr rfl ?_
        cases b <;> exact hfits
    | refused => cases ha; exact h.fileFailed false
    | lost applied => cases ha; exact h.fileFailed true
    | busy | unsupported | ran => cases ha
  | replacingRename k there =>
    cases a with
    | ok =>
      obtain ⟨-, ⟨rfl⟩⟩ := ite_none_right_eq_some.mp ha
      exact (h.moves hr (.moveIn _ _)).filePlaced
    | busy =>
      obtain ⟨-, ⟨rfl⟩⟩ := ite_none_right_eq_some.mp ha
      exact h
    | unsupported =>
      obtain ⟨hb, ⟨rfl⟩⟩ := ite_none_left_eq_some.mp ha
      refine h.freeName hr ?_ there
      cases b with
      | onDisk => exact absurd rfl hb
      | sftp p => rfl
      | posix | windows => cases hfits
    | refused => cases ha; exact h.fileFailed false
    | lost applied =>
      obtain ⟨-, ⟨rfl⟩⟩ := ite_none_left_eq_some.mp ha
      exact (h.movesIf hr applied).fileFailed true
    | ran => cases ha
  | unlink k =>
    have hb : b.atomic = false := by cases b <;> first | rfl | cases hfits
    cases a with
    | ok =>
      cases ha
      refine (h.removeTarget hb).next hr rfl ?_
      cases b <;> exact hfits
    | refused => cases ha; exact h.fileFailed false
    | lost applied =>
      cases ha
      cases applied with
      | true => exact (h.removeTarget hb).fileFailed false
      | false => exact h.fileFailed false
    | busy | unsupported | ran => cases ha
  | rename k =>
    cases a with
    | ok =>
      obtain ⟨-, ⟨rfl⟩⟩ := ite_none_right_eq_some.mp ha
      exact (h.moves hr (.moveIn _ _)).filePlaced
    | refused => cases ha; exact h.fileFailed false
    | lost applied =>
      cases ha
      exact (h.movesIf hr applied).fileFailed true
    | busy | unsupported | ran => cases ha
  | script k =>
    cases a with
    | ran run interruption =>
      have hmoved : Shape b { s with
          files := (if b = .windows then windowsPlace s.files k run
            else posixPlace s.files k run).1 } := by
        refine h.moves hr ?_
        split
        · exact windowsPlace_moves _ _ _
        · exact posixPlace_moves _ _ _
      cases ha
      simp only
      split
      · exact hmoved.filePlaced
      · exact hmoved.fileFailed interruption
    | refused => cases ha; exact h.fileFailed false
    | lost applied =>
      cases applied with
      | false => cases ha; exact h.fileFailed true
      | true => cases ha
    | ok | busy | unsupported => cases ha

theorem rests (hidle : s.placing = none) {st : ItemState}
    (hst : st = .sending → s.tempWhole = false) : Shape b { s with state := st } :=
  { h with busy := fun hne => absurd hidle hne, sending := hst }

theorem newTemp (hidle : s.placing = none) (hw : s.tempWhole = false) :
    Shape b { s with
      temp := some s.nextTemp
      nextTemp := s.nextTemp + 1
      files := s.files.setTemp s.nextTemp .part } where
  known := by
    rintro k ⟨rfl⟩
    exact ⟨Nat.lt_succ_self _, fun hk => absurd (h.removing _ hk) (Nat.lt_irrefl _)⟩
  removing k hk := Nat.lt_succ_of_lt (h.removing k hk)
  busy hne := absurd hidle hne
  sending _ := hw
  fits r hr := h.fits r hr
  placing r hr := by
    rw [hidle] at hr
    cases hr
  whole _ _ hw' := by
    rw [hw] at hw'
    cases hw'
  recorded := by
    rintro k ⟨rfl⟩ hk
    rw [show (s.files.setTemp s.nextTemp .part).temps s.nextTemp = some .part from
      update_self ..] at hk
    cases hk
  entire := h.entire
  held := h.held

theorem completed (hidle : s.placing = none) {k : ℕ} (hk : s.temp = some k) :
    Shape b { s with
      state := .verifying
      tempWhole := true
      files := s.files.setTemp k .whole } where
  known := h.known
  removing := h.removing
  busy hne := absurd hidle hne
  sending := nofun
  fits := h.fits
  placing r hr := by
    rw [hidle] at hr
    cases hr
  whole k' hk' _ := by
    rw [hk] at hk'
    cases hk'
    exact .inl (update_self ..)
  recorded _ _ _ := rfl
  entire := h.entire
  held := h.held

theorem removed (k : ℕ) (done : Bool) :
    Shape b { s with
      removing := s.removing.erase k
      files := if done then s.files.removeTemp k else s.files } := by
  have htemps : ∀ j, (if done then s.files.removeTemp k else s.files).temps j =
      s.files.temps j ∨ (if done then s.files.removeTemp k else s.files).temps j = none := by
    intro j
    split
    · by_cases hj : j = k
      · rw [hj]
        exact .inr (update_self ..)
      · exact .inl (update_of_ne hj ..)
    · exact .inl rfl
  have hwhole : ∀ j, s.files.WholeOrGone j →
      (if done then s.files.removeTemp k else s.files).WholeOrGone j := by
    intro j hj
    unfold Files.WholeOrGone
    obtain hsame | hgone := htemps j
    · rw [hsame]; exact hj
    · exact .inr hgone
  have hrest : (if done then s.files.removeTemp k else s.files).target = s.files.target ∧
      (if done then s.files.removeTemp k else s.files).aside = s.files.aside := by
    split <;> exact ⟨rfl, rfl⟩
  refine ⟨?_, ?_, h.busy, h.sending, h.fits, ?_, ?_, ?_, ?_, ?_⟩
  · intro j hj
    exact ⟨(h.known j hj).1, fun hmem => (h.known j hj).2 (mem_of_mem_erase hmem)⟩
  · exact fun j hj => h.removing j (mem_of_mem_erase hj)
  · intro r hr
    obtain ⟨hlt, hw, htemp⟩ := h.placing r hr
    exact ⟨hlt, hwhole _ hw, htemp⟩
  · exact fun j hj hw => hwhole j (h.whole j hj hw)
  · intro j hj hw
    obtain hsame | hgone := htemps j
    · exact h.recorded j hj (hsame.symm.trans hw)
    · exact nomatch hgone.symm.trans hw
  · exact ⟨by rw [hrest.1]; exact h.entire.1, by rw [hrest.2]; exact h.entire.2⟩
  · intro hb hfreed
    exact h.held hb ⟨hrest.1.symm.trans hfreed.1, hrest.2.symm.trans hfreed.2⟩

/-- **Every step keeps the shape.** -/
theorem step {a : Step} (hn : s.step b a = some s') : Shape b s' := by
  cases a with
  | opened fresh =>
    obtain ⟨⟨hd, hq, hw⟩, hn⟩ := ite_none_right_eq_some.mp hn
    have hidle := h.idle hd (by rw [hq]; nofun)
    split at hn <;> obtain ⟨rfl⟩ := hn
    · exact (h.forget .sending (.inl hidle)).newTemp hidle rfl
    · exact h.rests hidle fun _ => hw
  | sendEnds interruption =>
    obtain ⟨-, ⟨rfl⟩⟩ := ite_none_right_eq_some.mp hn
    exact h.fileFailed interruption
  | finished =>
    obtain ⟨⟨hd, hq⟩, hn⟩ := ite_none_right_eq_some.mp hn
    obtain ⟨k, hk, rfl⟩ := map_eq_some_iff.mp hn
    have hplace := (h.completed (h.idle hd (by rw [hq]; nofun)) hk).place rfl
    simp only [hk] at hplace ⊢
    exact hplace
  | pumped =>
    obtain ⟨⟨-, -, hw⟩, ⟨rfl⟩⟩ := ite_none_right_eq_some.mp hn
    exact h.place hw
  | retry =>
    obtain ⟨⟨hd, hq⟩, ⟨rfl⟩⟩ := ite_none_right_eq_some.mp hn
    split
    · exact h.place ‹_›
    · exact h.rests (h.idle hd (by obtain hq | hq | hq := hq <;> rw [hq] <;> nofun)) nofun
  | look asItWas =>
    obtain ⟨⟨hd, hq⟩, ⟨rfl⟩⟩ := ite_none_right_eq_some.mp hn
    have hidle := h.idle hd (by obtain hq | hq | hq | hq := hq <;> rw [hq] <;> nofun)
    split
    · exact h
    · exact h.forget _ (.inl hidle)
  | changed skip =>
    obtain ⟨⟨hd, hq⟩, ⟨rfl⟩⟩ := ite_none_right_eq_some.mp hn
    have hidle := h.idle hd (by obtain hq | hq | hq | hq := hq <;> rw [hq] <;> nofun)
    exact h.forget _ (.inl hidle)
  | cancel =>
    obtain ⟨⟨hd, hq⟩, ⟨rfl⟩⟩ := ite_none_right_eq_some.mp hn
    have hidle := h.idle hd (by obtain hq | hq | hq := hq <;> rw [hq] <;> nofun)
    exact h.forget _ (.inl hidle)
  | drop =>
    obtain ⟨-, ⟨rfl⟩⟩ := ite_none_right_eq_some.mp hn
    have hdropped : Shape b { s with dropped := true } := { h with busy := fun _ => .inr rfl }
    exact hdropped.forget _ (.inr rfl)
  | answer a =>
    obtain ⟨r, hr, ha⟩ := bind_eq_some_iff.mp hn
    exact h.answer hr ha
  | removed k done =>
    obtain ⟨-, ⟨rfl⟩⟩ := ite_none_right_eq_some.mp hn
    exact h.removed k done

end

end Shape

/-! ### Nothing is lost -/

section Safe

variable {b : Backend} {s s' : Upload}

theorem safe_of_not_freed (he : s.files.Entire) (h : ¬s.files.Freed) : s.Safe := by
  cases htarget : s.files.target with
  | some c => exact .inl ⟨c, htarget, fun hc => he.1 (hc ▸ htarget)⟩
  | none =>
    cases haside : s.files.aside with
    | nil => exact absurd ⟨htarget, haside⟩ h
    | cons c rest =>
      have hmem : c ∈ s.files.aside := haside ▸ mem_cons_self
      exact .inr (.inl ⟨c, hmem, fun hc => he.2 (hc ▸ hmem)⟩)

theorem Upload.Safe.temp_of_freed (h : s.Safe) (hf : s.files.Freed) :
    ∃ k, s.temp = some k ∧ s.files.temps k = some .whole := by
  obtain ⟨c, hc, -⟩ | ⟨c, hc, -⟩ | htemp := h
  · exact nomatch hf.1.symm.trans hc
  · rw [hf.2] at hc
    cases hc
  · exact htemp

/-- The file has nothing on its way whose end could be its loss. -/
def Guarded (s : Upload) : Prop := s.renaming = false → s.Safe

theorem Guarded.keep (h : s.Safe) (htemp : s'.temp = s.temp) (hfiles : s'.files = s.files) :
    Guarded s' := by
  intro _
  unfold Upload.Safe
  rw [htemp, hfiles]
  exact h

@[simp] theorem fileFailed_files (s : Upload) (interruption : Bool) :
    (s.fileFailed interruption).files = s.files := by
  cases interruption <;> rfl

theorem Guarded.of_held (hs' : Shape b s') (hf : ¬s'.files.Freed) : Guarded s' :=
  fun _ => safe_of_not_freed hs'.entire hf

/-- A request is answered while there is a file under the name, or one set aside: only the
old file's removal frees the name, and the rename is on its way then. -/
theorem Guarded.answer_of_not_freed (hs' : Shape b s')
    (hf : ¬s.files.Freed) (hok : s.answerHolds r a = true)
    (ha : s.answer b r a = some s') : Guarded s' := by
  have hmoved : ∀ k, ¬(s.files.moveIn k).Freed := fun k => (Moves.moveIn _ k).held hf
  have hmovedIf : ∀ k applied, ¬(if applied = true then s.files.moveIn k else s.files).Freed := by
    intro k applied
    split
    · exact hmoved k
    · exact hf
  cases r with
  | stat k =>
    cases a with
    | ok =>
      unfold Upload.answer at ha
      simp only at ha
      split at ha <;> obtain ⟨rfl⟩ := ha <;> exact .of_held hs' hf
    | refused | lost => cases ha; exact .of_held hs' (by rw [fileFailed_files]; exact hf)
    | busy | unsupported | ran => cases ha
  | replacingRename k there =>
    cases a with
    | ok =>
      obtain ⟨-, ⟨rfl⟩⟩ := ite_none_right_eq_some.mp ha
      exact .of_held hs' (hmoved k)
    | busy =>
      obtain ⟨-, ⟨rfl⟩⟩ := ite_none_right_eq_some.mp ha
      exact .of_held hs' hf
    | unsupported =>
      obtain ⟨-, ⟨rfl⟩⟩ := ite_none_left_eq_some.mp ha
      exact .of_held hs' hf
    | refused => cases ha; exact .of_held hs' (by rw [fileFailed_files]; exact hf)
    | lost applied =>
      obtain ⟨-, ⟨rfl⟩⟩ := ite_none_left_eq_some.mp ha
      exact .of_held hs' (hmovedIf k applied)
    | ran => cases ha
  | unlink k =>
    cases a with
    | ok =>
      cases ha
      intro hren
      cases hren
    | refused => cases ha; exact .of_held hs' (by rw [fileFailed_files]; exact hf)
    | lost applied =>
      cases applied with
      | true => simp [Upload.answerHolds] at hok
      | false =>
        cases ha
        exact .of_held hs' (by rw [fileFailed_files]; exact hf)
    | busy | unsupported | ran => cases ha
  | rename k =>
    cases a with
    | ok =>
      obtain ⟨-, ⟨rfl⟩⟩ := ite_none_right_eq_some.mp ha
      exact .of_held hs' (hmoved k)
    | refused => cases ha; exact .of_held hs' (by rw [fileFailed_files]; exact hf)
    | lost applied => cases ha; exact .of_held hs' (hmovedIf k applied)
    | busy | unsupported | ran => cases ha
  | script k =>
    cases a with
    | ran run interruption =>
      have hran : ¬(if b = .windows then windowsPlace s.files k run
          else posixPlace s.files k run).1.Freed := by
        split
        · exact (windowsPlace_moves _ _ _).held hf
        · exact (posixPlace_moves _ _ _).held hf
      cases ha
      refine .of_held hs' ?_
      simp only
      split
      · exact hran
      · rw [fileFailed_files]; exact hran
    | refused => cases ha; exact .of_held hs' (by rw [fileFailed_files]; exact hf)
    | lost applied =>
      cases applied with
      | false =>
        cases ha
        exact .of_held hs' (by rw [fileFailed_files]; exact hf)
      | true => cases ha
    | ok | busy | unsupported => cases ha

theorem moveIn_not_freed {k : ℕ} (hk : f.temps k ≠ none) : ¬(f.moveIn k).Freed := by
  rintro ⟨htarget, -⟩
  obtain ⟨c, hc⟩ := ne_none_iff_exists'.mp hk
  simp [Files.moveIn, hc] at htarget

/-- A request is answered while the name is free. -/
theorem Guarded.answer_of_freed (hs : Shape b s) (hs' : Shape b s') (h : Guarded s)
    (hr : s.placing = some r) (hf : s.files.Freed)
    (hok : s.answerHolds r a = true) (ha : s.answer b r a = some s') : Guarded s' := by
  have hfits := hs.fits r hr
  -- What is recorded is what is being placed.
  have hplaced : s.renaming = false → s.temp = some r.temp ∧
      s.files.temps r.temp = some .whole := by
    intro hren
    obtain ⟨k, hk, hw⟩ := (h hren).temp_of_freed hf
    obtain hn | ⟨htemp, -⟩ := (hs.placing r hr).2.2
    · exact nomatch hn.symm.trans hk
    · rw [hk] at htemp
      cases htemp
      exact ⟨hk, hw⟩
  cases r with
  | stat k =>
    have hren : s.renaming = false := by rw [Upload.renaming, hr]
    cases a with
    | ok =>
      unfold Upload.answer at ha
      simp only at ha
      split at ha <;> obtain ⟨rfl⟩ := ha <;> exact .keep (h hren) rfl rfl
    | refused => simp [Upload.answerHolds, hf] at hok
    | lost applied => cases ha; exact .keep (h hren) rfl rfl
    | busy | unsupported | ran => cases ha
  | replacingRename k there =>
    have hren : s.renaming = false := by rw [Upload.renaming, hr]
    have hk : s.files.temps k ≠ none := fun hn => nomatch hn.symm.trans (hplaced hren).2
    cases a with
    | ok =>
      obtain ⟨-, ⟨rfl⟩⟩ := ite_none_right_eq_some.mp ha
      exact .of_held hs' (moveIn_not_freed hk)
    | busy =>
      obtain ⟨-, ⟨rfl⟩⟩ := ite_none_right_eq_some.mp ha
      exact h
    | unsupported =>
      obtain ⟨-, ⟨rfl⟩⟩ := ite_none_left_eq_some.mp ha
      exact .keep (h hren) rfl rfl
    | refused => simp [Upload.answerHolds, hf] at hok
    | lost applied =>
      obtain ⟨-, ⟨rfl⟩⟩ := ite_none_left_eq_some.mp ha
      cases applied with
      | true => exact .of_held hs' (moveIn_not_freed hk)
      | false => exact .keep (h hren) rfl rfl
    | ran => cases ha
  | unlink k =>
    cases a with
    | ok =>
      cases ha
      intro hren
      cases hren
    | refused | lost => simp [Upload.answerHolds, hf] at hok
    | busy | unsupported | ran => cases ha
  | rename k =>
    cases a with
    | ok =>
      obtain ⟨hk, ⟨rfl⟩⟩ := ite_none_right_eq_some.mp ha
      exact .of_held hs' (moveIn_not_freed (isSome_iff_ne_none.mp hk))
    | refused => simp [Upload.answerHolds, hf] at hok
    | lost applied =>
      cases ha
      simp only [Upload.answerHolds, hf, decide_true, Bool.not_true, Bool.false_or,
        Bool.and_eq_true, Bool.or_eq_true, beq_iff_eq] at hok
      obtain ⟨hk, hrec⟩ := hok
      cases applied with
      | true => exact .of_held hs' (moveIn_not_freed (isSome_iff_ne_none.mp hk))
      | false =>
        -- The rename was not carried out: the temporary is there, and recorded.
        obtain hw | hn := (hs.placing _ hr).2.1
        · exact fun _ => .inr (.inr ⟨k, hrec.resolve_left nofun, hw⟩)
        · have hnone : s.files.temps k = none := hn
          rw [hnone] at hk
          cases hk
    | busy | unsupported | ran => cases ha
  | script k =>
    have hb : b.atomic = true := by cases b <;> first | rfl | cases hfits
    exact absurd hf (hs.held hb)

/-- The invariant of the runs whose steps are orderly. -/
structure Inv (b : Backend) (s : Upload) : Prop where
  shape : Shape b s
  guarded : Guarded s

theorem Inv.not_freed (h : Inv b s) (hren : s.renaming = false) (hw : s.tempWhole = false) :
    ¬s.files.Freed := by
  intro hf
  obtain ⟨k, hk, hwhole⟩ := (h.guarded hren).temp_of_freed hf
  have := h.shape.recorded k hk hwhole
  rw [hw] at this
  cases this

theorem Inv.idle_not_renaming (hidle : s.placing = none) : s.renaming = false := by
  rw [Upload.renaming, hidle]

theorem place_temp (b : Backend) (s : Upload) :
    (s.place b).temp = s.temp ∧ (s.place b).files = s.files := by
  unfold Upload.place
  split <;> exact ⟨rfl, rfl⟩

theorem Inv.step (h : Inv b s) {a : Step} (hok : Orderly s a) (hn : s.step b a = some s') :
    Inv b s' := by
  have hs := h.shape
  have hs' := hs.step hn
  refine ⟨hs', ?_⟩
  cases a with
  | opened fresh =>
    obtain ⟨⟨hd, hq, hw⟩, hn⟩ := ite_none_right_eq_some.mp hn
    have hidle := hs.idle hd (by rw [hq]; nofun)
    have hf := h.not_freed (idle_not_renaming hidle) hw
    split at hn <;> obtain ⟨rfl⟩ := hn <;> exact .of_held hs' hf
  | sendEnds interruption =>
    obtain ⟨⟨hd, hq⟩, ⟨rfl⟩⟩ := ite_none_right_eq_some.mp hn
    have hidle := hs.idle hd (by rw [hq]; nofun)
    have hf := h.not_freed (idle_not_renaming hidle) (hs.sending hq)
    exact .of_held hs' (by rw [fileFailed_files]; exact hf)
  | finished =>
    obtain ⟨⟨hd, hq⟩, hn⟩ := ite_none_right_eq_some.mp hn
    obtain ⟨k, hk, rfl⟩ := map_eq_some_iff.mp hn
    have hidle := hs.idle hd (by rw [hq]; nofun)
    have hf := h.not_freed (idle_not_renaming hidle) (hs.sending hq)
    refine .of_held hs' ?_
    rw [(place_temp b _).2]
    exact hf
  | pumped =>
    obtain ⟨⟨hd, hq, -⟩, ⟨rfl⟩⟩ := ite_none_right_eq_some.mp hn
    have hsafe := h.guarded (idle_not_renaming (hs.idle hd (by rw [hq]; nofun)))
    exact .keep hsafe (place_temp b s).1 (place_temp b s).2
  | retry =>
    obtain ⟨⟨hd, hq⟩, ⟨rfl⟩⟩ := ite_none_right_eq_some.mp hn
    have hidle := hs.idle hd (by obtain hq | hq | hq := hq <;> rw [hq] <;> nofun)
    have hsafe := h.guarded (idle_not_renaming hidle)
    split
    · exact .keep hsafe (place_temp b s).1 (place_temp b s).2
    · exact .keep hsafe rfl rfl
  | look asItWas =>
    obtain ⟨-, ⟨rfl⟩⟩ := ite_none_right_eq_some.mp hn
    cases asItWas with
    | true => exact h.guarded
    | false => exact .of_held hs' (hok rfl)
  | changed | cancel =>
    obtain ⟨-, ⟨rfl⟩⟩ := ite_none_right_eq_some.mp hn
    exact .of_held hs' hok
  | drop =>
    obtain ⟨-, ⟨rfl⟩⟩ := ite_none_right_eq_some.mp hn
    by_cases hf : s.files.Freed
    · intro hren
      have hren' : s.renaming = false := hren
      rw [hok hf] at hren'
      cases hren'
    · exact .of_held hs' hf
  | answer a =>
    obtain ⟨r, hr, ha⟩ := bind_eq_some_iff.mp hn
    by_cases hf : s.files.Freed
    · exact .answer_of_freed hs hs' h.guarded hr hf (hok r hr) ha
    · exact .answer_of_not_freed hs' hf (hok r hr) ha
  | removed k done =>
    obtain ⟨hk, ⟨rfl⟩⟩ := ite_none_right_eq_some.mp hn
    intro hren
    obtain ⟨c, hc⟩ | ⟨c, hc⟩ | ⟨j, hj, hw⟩ := h.guarded hren
    · refine .inl ⟨c, ?_⟩
      cases done <;> exact hc
    · refine .inr (.inl ⟨c, ?_⟩)
      cases done <;> exact hc
    · -- The temporary that is removed is not the one recorded.
      have hne : j ≠ k := fun hjk => (hs.known j hj).2 (hjk ▸ hk)
      refine .inr (.inr ⟨j, hj, ?_⟩)
      cases done with
      | true => exact (update_of_ne hne ..).trans hw
      | false => exact hw

end Safe

/-- **Replacing loses nothing**: in every run whose steps are orderly, whenever no request
is on its way, the old file or the whole new one is under the name, the new one in the
temporary that is recorded, or the old one where it was set aside. -/
theorem replace_keeps_a_copy {b : Backend} {s : Upload}
    (h : Run (Upload.step b) Orderly .init s) (hq : s.Quiet) : s.Safe := by
  have hinv : Inv b s := by
    refine h.invariant ⟨.init b, fun _ => .inl ⟨.old, rfl, nofun⟩⟩ ?_
    exact fun _ _ _ hs hok hn => hs.step hok hn
  exact hinv.guarded (Inv.idle_not_renaming hq.1)

/-- Over SFTP without `posix-rename@openssh.com`, the link drops on the rename; the file is
placed again when it is retried. -/
theorem replace_keeps_a_copy_after_interruption :
    ∃ s, exec (Upload.step (.sftp false)) .init [.opened true, .finished, .answer .ok,
        .answer .ok, .answer (.lost false), .retry, .answer .ok, .answer .ok] = some s ∧
      s.files.target = some .whole ∧ s.Safe := by
  refine ⟨_, (some_get (by decide)).symm, rfl, ?_⟩
  exact replace_keeps_a_copy (.of_exec _ (by decide) (some_get _).symm) ⟨rfl, rfl⟩

/-- On the local host and over SSH commands the name is never free with nothing set aside, so
that **every step is orderly**. -/
theorem atomic_orderly {b : Backend} {s : Upload} (hb : b.atomic = true)
    (h : Run (Upload.step b) free .init s) (a : Step) : ¬s.files.Freed ∧ Orderly s a := by
  have hs : Shape b s := h.invariant (.init b) fun _ _ _ hs _ hn => hs.step hn
  have hf := hs.held hb
  refine ⟨hf, ?_⟩
  cases a with
  | answer a =>
    intro r hr
    have hfits := hs.fits r hr
    cases r with
    | stat | replacingRename | script => simp [Upload.answerHolds, hf]
    | unlink | rename =>
      cases b with
      | sftp => cases hb
      | onDisk | posix | windows => cases hfits
  | look => exact fun _ => hf
  | changed | cancel => exact hf
  | drop => exact fun hfreed => absurd hfreed hf
  | _ => trivial

/-- The name is asked for, and the answer may be lost. -/
theorem atomic_orderly_lost : ∃ s, exec (Upload.step .onDisk) .init [.opened true, .finished] = some s ∧
    s.placing ≠ none ∧ ¬s.files.Freed ∧ Orderly s (.answer (.lost true)) := by
  have hrun : Run (Upload.step .onDisk) free .init _ :=
    .get_free [.opened true, .finished] (by decide)
  exact ⟨_, (some_get _).symm, by decide, atomic_orderly rfl hrun _⟩

/-- A server without `posix-rename@openssh.com` lets the old file be removed and refuses the
new one its name: the file fails, and its temporary is removed too. -/
theorem rename_refused_loses_both :
    ¬∀ s, Run (Upload.step (.sftp false)) free .init s → s.Quiet → s.Safe := by
  intro h
  have hrun : ∃ s, exec (Upload.step (.sftp false)) .init [.opened true, .finished,
      .answer .ok, .answer .ok, .answer .refused, .removed 0 true] = some s ∧ s.Quiet ∧
      s.files.target = none ∧ s.files.aside = [] ∧ s.temp = none :=
    ⟨_, rfl, ⟨rfl, rfl⟩, rfl, rfl, rfl⟩
  obtain ⟨s, hs, hquiet, htarget, haside, htemp⟩ := hrun
  obtain ⟨k, hk, -⟩ := (h s (.of_exec_free _ hs) hquiet).temp_of_freed ⟨htarget, haside⟩
  rw [htemp] at hk
  cases hk

end Lasterm.Transfer.Replace
