import Lasterm.Lib.Run
import Mathlib.Data.List.MinMax
import Mathlib.Data.Rat.Floor

/-!
# Quitting with uploads

The page of the desktop app holds its uploads, and reports how many are in progress
(`clients/web/src/utils/desktop-uploads.ts`).  The shell asks before it quits while some
are, and may be told to quit once they end
(`clients/desktop/src-tauri/src/uploads.rs`, `QuitGate`).

A document numbers its reports 1, 2, 3 …, and the calls that carry them may arrive in any order; a
report whose number is not above the last one's is dropped.  A new document starts from 1, and the
shell from 0 with it.  A call of the document before it may still arrive then: its number is above
0, so it is taken for a report of the new one.

## Main definitions

* `QuitGate`, `Shell` — the gate, and the page and the dialogs around it; `next` — what happens.

## Main results

* `quits_only_when_meant` — when the app is ended, in every orderly run.
* `quits_during_an_upload` — what a late call does.
-/

namespace Lasterm.Desktop

open Transition List Option

/-- What the page last said about the uploads its window sends. -/
structure UploadsReport where
  inProgress : ℕ
  waiting : ℕ
  failed : ℕ
  percent : Option ℕ

namespace UploadsReport

/-- `UploadsReport::default`. -/
def none : UploadsReport := ⟨0, 0, 0, .none⟩

/-- The page's numbers, made consistent.  A percentage that is no number is none. -/
def fromPage (inProgress waiting failed : ℕ) (percent : Option ℚ) : UploadsReport :=
  ⟨inProgress, min waiting inProgress, failed, percent.map fun v => ⌊max 0 (min v 100)⌋.toNat⟩

end UploadsReport

/-- What a waiting quit does once the uploads end. -/
inductive Ending
  | quit
  | restart
  deriving DecidableEq

/-- The three answers to "N uploads in progress". -/
inductive Answer
  | resumeLater
  | whenFinished
  | cancel

/-- What a quit gesture does. -/
inductive Start
  | proceed
  | ask (inProgress : ℕ)
  | alreadyAsking

/-- What the shell must do after an answer, a report or a cancel. -/
inductive GateStep
  | nothing
  | ends (ending : Ending)
  | wait (ending : Ending) (notify : Option ℕ)
  | notify (waiting : ℕ)

/-- A quit that waits for the uploads to end. -/
structure Pending where
  ending : Ending
  /-- How many waiting uploads were already told about. -/
  waitingTold : ℕ

/-- The question asked when quitting while uploads run, and the quit that waits for them. -/
structure QuitGate where
  report : UploadsReport
  seq : ℕ
  asking : Option Ending
  pending : Option Pending

namespace QuitGate

/-- `QuitGate::default`. -/
def start : QuitGate := ⟨.none, 0, none, none⟩

/-- A quit (or restart) gesture. -/
def request (g : QuitGate) (ending : Ending) : QuitGate × Start :=
  if g.asking.isSome then (g, .alreadyAsking)
  else if g.report.inProgress = 0 then (g, .proceed)
  else ({ g with asking := some ending }, .ask g.report.inProgress)

/-- The answer to the question. -/
def answer (g : QuitGate) (answer : Answer) : QuitGate × GateStep :=
  match g.asking with
  | none => (g, .nothing)
  | some ending =>
    let g := { g with asking := none }
    match answer with
    | .cancel => (g, .nothing)
    | .resumeLater => ({ g with pending := none }, .ends ending)
    | .whenFinished =>
      -- they may all have ended while the question was on screen
      if g.report.inProgress = 0 then ({ g with pending := none }, .ends ending)
      else
        let waiting := g.report.waiting
        ({ g with pending := some ⟨ending, waiting⟩ },
          .wait ending (if ending = .quit ∧ 0 < waiting then some waiting else none))

/-- A report from the page. -/
def hear (g : QuitGate) (seq : ℕ) (report : UploadsReport) : QuitGate × GateStep :=
  if seq ≤ g.seq then (g, .nothing)
  else
    let g := { g with seq, report }
    match g.pending with
    | none => (g, .nothing)
    | some pending =>
      if report.inProgress = 0 then ({ g with pending := none }, .ends pending.ending)
      else
        ({ g with pending := some { pending with waitingTold := report.waiting } },
          if pending.ending = .quit ∧ pending.waitingTold < report.waiting then
            .notify report.waiting
          else .nothing)

/-- A new document in the window. -/
def pageStarted (g : QuitGate) : QuitGate × GateStep :=
  let g' := { g with seq := 0, report := .none, pending := none }
  match g.pending with
  | some pending => (g', .ends pending.ending)
  | none => (g', .nothing)

/-- The quit that waits is cancelled, from the tray or the page. -/
def cancelPending (g : QuitGate) : QuitGate × Bool :=
  ({ g with pending := none }, g.pending.isSome)

end QuitGate

/-! ### The shell and its page -/

/-- A report a document sent. -/
structure Call where
  document : ℕ
  seq : ℕ
  report : UploadsReport

/-- The gate, the calls of the documents, and what became of each request that was accepted; the
requests are numbered. -/
structure Shell where
  gate : QuitGate
  document : ℕ
  /-- How many reports the current document sent. -/
  sent : ℕ
  calls : List Call
  delivered : List Call
  requests : ℕ
  asked : Option ℕ
  waiting : Option ℕ
  /-- The requests the app was ended for, each time it was. -/
  ended : List (Option ℕ)
  /-- The requests whose question was cancelled, or whose waiting quit was. -/
  cancelled : List ℕ

/-- A shell with its first document. -/
def Shell.start : Shell := ⟨.start, 0, 0, [], [], 0, none, none, [], []⟩

/-- What can happen. -/
inductive Step
  | send (inProgress waiting failed : ℕ) (percent : Option ℚ)
  /-- The `i`-th of the calls on their way arrives. -/
  | deliver (i : ℕ)
  | request (ending : Ending)
  | answer (a : Answer)
  | pageStarted
  | cancel

namespace Shell

/-- The page sends a report, under the next number of its document. -/
def send (s : Shell) (report : UploadsReport) : Shell :=
  { s with sent := s.sent + 1, calls := s.calls ++ [⟨s.document, s.sent + 1, report⟩] }

/-- The window or the app is to end. -/
def request (s : Shell) (ending : Ending) : Shell :=
  let g := s.gate.request ending
  match g.2 with
  | .alreadyAsking => { s with gate := g.1 }
  | .proceed => { s with gate := g.1, requests := s.requests + 1, ended := s.ended ++ [some s.requests] }
  | .ask _ => { s with gate := g.1, requests := s.requests + 1, asked := some s.requests }

/-- The dialog is answered. -/
def answer (s : Shell) (a : Answer) : Shell :=
  let g := s.gate.answer a
  match g.2 with
  | .ends _ => { s with gate := g.1, asked := none, waiting := none, ended := s.ended ++ [s.asked] }
  | .wait .. => { s with gate := g.1, asked := none, waiting := s.asked }
  | _ => { s with gate := g.1, asked := none, cancelled := s.cancelled ++ s.asked.toList }

/-- The app ends for the request whose quit waits, if the gate says so. -/
def ends (s : Shell) (g : QuitGate × GateStep) : Shell :=
  match g.2 with
  | .ends _ => { s with gate := g.1, waiting := none, ended := s.ended ++ [s.waiting] }
  | _ => { s with gate := g.1 }

/-- A report reaches the gate, in whatever order. -/
def deliver (s : Shell) (i : ℕ) (c : Call) : Shell :=
  { s with calls := s.calls.eraseIdx i, delivered := s.delivered ++ [c] }.ends
    (s.gate.hear c.seq c.report)

/-- A new document is loaded; its numbers begin again. -/
def pageStarted (s : Shell) : Shell :=
  { s with document := s.document + 1, sent := 0 }.ends s.gate.pageStarted

/-- A wait for the uploads is cancelled. -/
def cancel (s : Shell) : Shell :=
  let g := s.gate.cancelPending
  { s with gate := g.1, waiting := none, cancelled := s.cancelled ++ s.waiting.toList }

end Shell

/-- The shell after a step, if the step is possible. -/
def next (s : Shell) : Step → Option Shell
  | .send inProgress waiting failed percent =>
    some (s.send (.fromPage inProgress waiting failed percent))
  | .deliver i => s.calls[i]?.map (s.deliver i)
  | .request ending => some (s.request ending)
  | .answer a => some (s.answer a)
  | .pageStarted => some s.pageStarted
  | .cancel => some s.cancel

/-- The newest report of the current document that was delivered. -/
def newestCall (s : Shell) : Option Call :=
  (s.delivered.filter (·.document = s.document)).argmax (·.seq)

/-- What the newest report of the current document says; nothing is in progress if there is
none. -/
def newest (s : Shell) : UploadsReport := (newestCall s).elim .none (·.report)

/-- What holds of a shell at any time. -/
structure Sound (s : Shell) : Prop where
  /-- A quit that waits has a current document whose newest report says that some uploads are in
  progress. -/
  waits : s.gate.pending.isSome → ∃ c, newestCall s = some c ∧ 0 < c.report.inProgress
  /-- Each request ends the app at most once, and the app ends for a request. -/
  once : s.ended.Nodup ∧ none ∉ s.ended
  /-- A request that was cancelled does not end it. -/
  cancelled : ∀ r ∈ s.cancelled, some r ∉ s.ended

/-- Why a step may end the app. -/
def Cause (s : Shell) (a : Step) (s' : Shell) : Prop :=
  a = .answer .resumeLater ∨ (a = .pageStarted ∧ s.gate.pending.isSome) ∨
    (newest s').inProgress = 0

/-- A document that is gone is not heard: its reports arrive only while their numbers are not above
the last one's. -/
def Orderly (s : Shell) : Step → Prop
  | .deliver i => ∀ c ∈ s.calls[i]?, c.document = s.document ∨ c.seq ≤ s.gate.seq
  | _ => True

instance (s : Shell) (a : Step) : Decidable (Orderly s a) := by
  cases a <;> dsimp only [Orderly] <;> infer_instance

/-! ### What became of each request -/

/-- The requests that were accepted, wherever they are. -/
def places (s : Shell) : List (Option ℕ) :=
  s.ended ++ (s.cancelled ++ s.asked.toList ++ s.waiting.toList).map some

/-- Each request that was accepted is in one place at most. -/
structure Accounted (s : Shell) : Prop where
  accepted : ∀ o ∈ places s, ∃ r < s.requests, o = some r
  nodup : (places s).Nodup

namespace Accounted

variable {s s' : Shell}

theorem start : Accounted .start := ⟨nofun, .nil⟩

section

variable (h : Accounted s)
include h

theorem moves (hrequests : s'.requests = s.requests)
    (hplaces : (places s').Subperm (places s)) : Accounted s' where
  accepted o ho := hrequests ▸ h.accepted o (hplaces.subset ho)
  nodup := by
    obtain ⟨l, hperm, hsub⟩ := hplaces
    exact hperm.nodup_iff.mp (hsub.nodup h.nodup)

theorem accepts (hrequests : s'.requests = s.requests + 1)
    (hplaces : (places s').Perm (some s.requests :: places s)) : Accounted s' where
  accepted o ho := by
    rw [hrequests]
    rcases mem_cons.mp (hplaces.subset ho) with rfl | ho
    · exact ⟨s.requests, Nat.lt_succ_self _, rfl⟩
    · obtain ⟨r, hr, rfl⟩ := h.accepted o ho
      exact ⟨r, Nat.lt_succ_of_lt hr, rfl⟩
  nodup := by
    refine hplaces.nodup_iff.mpr (nodup_cons.mpr ⟨fun hmem => ?_, h.nodup⟩)
    obtain ⟨r, hr, heq⟩ := h.accepted _ hmem
    exact absurd (some.inj heq) (Nat.ne_of_gt hr)

theorem request (hasked : s.asked.isSome = s.gate.asking.isSome)
    (ending : Ending) : Accounted (s.request ending) := by
  unfold Shell.request QuitGate.request
  split
  · exact h.moves rfl (Subperm.refl _)
  · next hnot =>
    have hnone : s.asked = none := by
      rw [← hasked] at hnot
      exact not_isSome_iff_eq_none.mp hnot
    split
    · refine h.accepts rfl (perm_iff_count.mpr fun o => ?_)
      simp only [places, count_append, count_cons, count_nil]
      omega
    · refine h.accepts rfl (perm_iff_count.mpr fun o => ?_)
      simp only [places, hnone, count_append, count_cons, map_append,
        toList_some, toList_none, map_cons, map_nil, count_nil]
      omega

theorem endsAsked (hasked : s.asked.isSome) (gate : QuitGate) :
    Accounted { s with gate, asked := none, waiting := none, ended := s.ended ++ [s.asked] } := by
  obtain ⟨r, hr⟩ := isSome_iff_exists.mp hasked
  refine h.moves rfl (subperm_ext_iff.mpr fun o _ => ?_)
  simp only [places, hr, count_append, map_append, toList_some,
    toList_none, map_cons, map_nil, count_nil]
  omega

theorem endsWaiting (hwaiting : s.waiting.isSome) (gate : QuitGate) :
    Accounted { s with gate, waiting := none, ended := s.ended ++ [s.waiting] } := by
  obtain ⟨r, hr⟩ := isSome_iff_exists.mp hwaiting
  refine h.moves rfl (subperm_ext_iff.mpr fun o _ => ?_)
  simp only [places, hr, count_append, map_append, toList_some,
    toList_none, map_cons, map_nil, count_nil]
  omega

theorem waitsAsked (gate : QuitGate) :
    Accounted { s with gate, asked := none, waiting := s.asked } := by
  refine h.moves rfl (subperm_ext_iff.mpr fun o _ => ?_)
  simp only [places, count_append, map_append, toList_none, map_nil, count_nil]
  omega

theorem cancelsAsked (gate : QuitGate) :
    Accounted { s with gate, asked := none, cancelled := s.cancelled ++ s.asked.toList } := by
  refine h.moves rfl (subperm_ext_iff.mpr fun o _ => ?_)
  simp only [places, count_append, map_append, toList_none, map_nil, count_nil]
  omega

theorem cancel : Accounted s.cancel := by
  refine h.moves rfl (subperm_ext_iff.mpr fun o _ => ?_)
  simp only [places, Shell.cancel, count_append, map_append, toList_none, map_nil, count_nil]
  omega

theorem ended_nodup : s.ended.Nodup ∧ none ∉ s.ended := by
  refine ⟨(nodup_append.mp h.nodup).1, fun hmem => ?_⟩
  obtain ⟨r, -, heq⟩ := h.accepted none (mem_append_left _ hmem)
  cases heq

theorem not_ended_of_cancelled {r : ℕ} (hr : r ∈ s.cancelled) : some r ∉ s.ended := by
  intro hmem
  refine (nodup_append.mp h.nodup).2.2 _ hmem (some r) ?_ rfl
  exact mem_map_of_mem (mem_append_left _ (mem_append_left _ hr))

end

end Accounted

/-! ### What the gate knows -/

/-- What every step keeps, if it meets the condition. -/
structure Inv (s : Shell) : Prop where
  accounted : Accounted s
  numbered : ∀ c ∈ s.calls, 0 < c.seq
  documents : ∀ c, c ∈ s.calls ∨ c ∈ s.delivered → c.document ≤ s.document
  seq : s.gate.seq = (newestCall s).elim 0 (·.seq)
  report : s.gate.report = newest s
  asking : s.asked.isSome = s.gate.asking.isSome
  pending : s.waiting.isSome = s.gate.pending.isSome
  positive : s.gate.pending.isSome → 0 < s.gate.report.inProgress

namespace Inv

variable {s s' : Shell}

theorem start : Inv .start := ⟨.start, nofun, by simp [Shell.start], rfl, rfl, rfl, rfl, nofun⟩

theorem send (h : Inv s) (report : UploadsReport) : Inv (s.send report) := by
  refine ⟨h.accounted.moves rfl (Subperm.refl _), ?_, ?_, h.seq, h.report, h.asking, h.pending,
    h.positive⟩
  · intro c hc
    rcases mem_append.mp hc with hc | hc
    · exact h.numbered c hc
    · obtain rfl := mem_singleton.mp hc
      exact Nat.succ_pos _
  · rintro c (hc | hc)
    · rcases mem_append.mp hc with hc | hc
      · exact h.documents c (.inl hc)
      · obtain rfl := mem_singleton.mp hc
        exact Nat.le_refl _
    · exact h.documents c (.inr hc)

theorem request (h : Inv s) (ending : Ending) : Inv (s.request ending) := by
  have haccounted := h.accounted.request h.asking ending
  unfold Shell.request QuitGate.request at haccounted ⊢
  split at haccounted
  · next hasking =>
    rw [if_pos hasking]
    exact ⟨haccounted, h.numbered, h.documents, h.seq, h.report, h.asking, h.pending, h.positive⟩
  · next hasking =>
    rw [if_neg hasking]
    split at haccounted
    · next hzero =>
      rw [if_pos hzero]
      exact ⟨haccounted, h.numbered, h.documents, h.seq, h.report, h.asking, h.pending, h.positive⟩
    · next hzero =>
      rw [if_neg hzero]
      exact ⟨haccounted, h.numbered, h.documents, h.seq, h.report, rfl, h.pending, h.positive⟩

theorem answer (h : Inv s) (a : Answer) : Inv (s.answer a) := by
  unfold Shell.answer QuitGate.answer
  cases hasking : s.gate.asking with
  | none =>
    refine ⟨h.accounted.cancelsAsked _, h.numbered, h.documents, h.seq, h.report, ?_, h.pending, h.positive⟩
    rw [hasking]
    rfl
  | some ending =>
    have hasked : s.asked.isSome := by rw [h.asking, hasking]; rfl
    cases a with
    | cancel =>
      exact ⟨h.accounted.cancelsAsked _, h.numbered, h.documents, h.seq, h.report, rfl, h.pending, h.positive⟩
    | resumeLater =>
      exact ⟨h.accounted.endsAsked hasked _, h.numbered, h.documents, h.seq, h.report, rfl, rfl, nofun⟩
    | whenFinished =>
      dsimp only
      by_cases hzero : s.gate.report.inProgress = 0
      · rw [if_pos hzero]
        exact ⟨h.accounted.endsAsked hasked _, h.numbered, h.documents, h.seq, h.report, rfl, rfl, nofun⟩
      · rw [if_neg hzero]
        refine ⟨h.accounted.waitsAsked _, h.numbered, h.documents, h.seq, h.report, rfl, hasked, fun _ => ?_⟩
        exact Nat.pos_of_ne_zero hzero

theorem cancel (h : Inv s) : Inv s.cancel :=
  ⟨h.accounted.cancel, h.numbered, h.documents, h.seq, h.report, h.asking, rfl, nofun⟩

theorem seq_of_newest {x : Option Call} (hx : newestCall s = x) (h : s.gate.seq = x.elim 0 (·.seq)) :
    s.gate.seq = (newestCall s).elim 0 (·.seq) :=
  hx ▸ h

theorem report_of_newest {x : Option Call} (hx : newestCall s = x)
    (h : s.gate.report = x.elim .none (·.report)) : s.gate.report = newest s := by
  unfold newest
  exact hx ▸ h

theorem newestCall_of_new {document : ℕ} (h : ∀ c ∈ s.delivered, c.document < document)
    (hs : s.document = document) : newestCall s = none := by
  unfold newestCall
  rw [filter_eq_nil_iff.mpr, argmax_nil]
  intro c hc
  simpa [hs] using (h c hc).ne

theorem pageStarted (h : Inv s) : Inv s.pageStarted := by
  have hnew : ∀ c, c ∈ s.calls ∨ c ∈ s.delivered → c.document < s.document + 1 :=
    fun c hc => Nat.lt_succ_of_le (h.documents c hc)
  have hnone : ∀ s' : Shell, s'.document = s.document + 1 → s'.delivered = s.delivered →
      newestCall s' = none := by
    intro s' hdocument hdelivered
    exact newestCall_of_new (fun c hc => hnew c (.inr (hdelivered ▸ hc))) hdocument
  have hle : ∀ c, c ∈ s.calls ∨ c ∈ s.delivered → c.document ≤ s.document + 1 :=
    fun c hc => (hnew c hc).le
  unfold Shell.pageStarted Shell.ends QuitGate.pageStarted
  cases hpending : s.gate.pending with
  | none =>
    have hwaiting : s.waiting.isSome = false := by rw [h.pending, hpending]; rfl
    refine ⟨h.accounted.moves rfl (Subperm.refl _), h.numbered, hle, ?_, ?_, h.asking, hwaiting,
      nofun⟩
    · exact seq_of_newest (hnone _ rfl rfl) rfl
    · exact report_of_newest (hnone _ rfl rfl) rfl
  | some pending =>
    have hwaiting : s.waiting.isSome := by rw [h.pending, hpending]; rfl
    refine ⟨(h.accounted.endsWaiting hwaiting s.gate).moves rfl (Subperm.refl _), h.numbered, hle,
      ?_, ?_, h.asking, rfl, nofun⟩
    · exact seq_of_newest (hnone _ rfl rfl) rfl
    · exact report_of_newest (hnone _ rfl rfl) rfl

theorem newestCall_deliver (h : Inv s) {c : Call} (hc : c ∈ s.calls)
    (hok : c.document = s.document ∨ c.seq ≤ s.gate.seq) (hdocument : s'.document = s.document)
    (hdelivered : s'.delivered = s.delivered ++ [c]) :
    newestCall s' = if s.gate.seq < c.seq then some c else newestCall s := by
  have hseq := h.seq
  unfold newestCall at hseq ⊢
  rw [hdocument, hdelivered, filter_append]
  by_cases hcur : c.document = s.document
  · have hone : [c].filter (·.document = s.document) = [c] := by simp [hcur]
    rw [hone, argmax_concat]
    cases hold : (s.delivered.filter (·.document = s.document)).argmax (·.seq) with
    | none =>
      rw [hold] at hseq
      rw [if_pos (hseq ▸ h.numbered c hc)]
    | some m =>
      rw [hold] at hseq
      dsimp only [elim_some] at hseq
      rw [hseq]
  · have hnil : [c].filter (·.document = s.document) = [] := by simp [hcur]
    rw [hnil, append_nil, if_neg (Nat.not_lt.mpr (hok.resolve_left hcur))]

theorem deliver (h : Inv s) {i : ℕ} {c : Call} (hc : c ∈ s.calls)
    (hok : c.document = s.document ∨ c.seq ≤ s.gate.seq) : Inv (s.deliver i c) := by
  have hnewest : ∀ s' : Shell, _ := fun s' => @newestCall_deliver s s' h c hc hok
  have hnumbered : ∀ c ∈ s.calls.eraseIdx i, 0 < c.seq :=
    fun c hc => h.numbered c (mem_of_mem_eraseIdx hc)
  have hdocuments : ∀ c', c' ∈ s.calls.eraseIdx i ∨ c' ∈ s.delivered ++ [c] →
      c'.document ≤ s.document := by
    rintro c' (hc' | hc')
    · exact h.documents c' (.inl (mem_of_mem_eraseIdx hc'))
    · rcases mem_append.mp hc' with hc' | hc'
      · exact h.documents c' (.inr hc')
      · exact h.documents c' (.inl (mem_singleton.mp hc' ▸ hc))
  unfold Shell.deliver Shell.ends QuitGate.hear
  by_cases hle : c.seq ≤ s.gate.seq
  · have hsame : ∀ s' : Shell, s'.document = s.document → s'.delivered = s.delivered ++ [c] →
        newestCall s' = newestCall s := by
      intro s' hdocument hdelivered
      rw [hnewest s' hdocument hdelivered, if_neg (Nat.not_lt.mpr hle)]
    rw [if_pos hle]
    refine ⟨h.accounted.moves rfl (Subperm.refl _), hnumbered, hdocuments, ?_, ?_, h.asking,
      h.pending, h.positive⟩
    · exact seq_of_newest (hsame _ rfl rfl) h.seq
    · exact report_of_newest (hsame _ rfl rfl) h.report
  · rw [if_neg hle]
    have hlt := Nat.not_le.mp hle
    have hsome : ∀ s' : Shell, s'.document = s.document → s'.delivered = s.delivered ++ [c] →
        newestCall s' = some c := by
      intro s' hdocument hdelivered
      rw [hnewest s' hdocument hdelivered, if_pos hlt]
    cases hpending : s.gate.pending with
    | none =>
      have hwaiting : s.waiting.isSome = false := by rw [h.pending, hpending]; rfl
      refine ⟨h.accounted.moves rfl (Subperm.refl _), hnumbered, hdocuments, ?_, ?_, h.asking,
        hwaiting, nofun⟩
      · exact seq_of_newest (hsome _ rfl rfl) rfl
      · exact report_of_newest (hsome _ rfl rfl) rfl
    | some pending =>
      have hwaiting : s.waiting.isSome := by rw [h.pending, hpending]; rfl
      dsimp only
      by_cases hzero : c.report.inProgress = 0
      · rw [if_pos hzero]
        refine ⟨(h.accounted.endsWaiting hwaiting s.gate).moves rfl (Subperm.refl _), hnumbered,
          hdocuments, ?_, ?_, h.asking, rfl, nofun⟩
        · exact seq_of_newest (hsome _ rfl rfl) rfl
        · exact report_of_newest (hsome _ rfl rfl) rfl
      · rw [if_neg hzero]
        have hkeep : ∀ g : QuitGate, g.seq = c.seq → g.report = c.report →
            g.asking = s.gate.asking → g.pending.isSome → 0 < g.report.inProgress →
            Inv { s with calls := s.calls.eraseIdx i, delivered := s.delivered ++ [c], gate := g } := by
          intro g hseq hreport hasking hpend hpos
          refine ⟨h.accounted.moves rfl (Subperm.refl _), hnumbered, hdocuments, ?_, ?_, ?_, ?_,
            fun _ => hpos⟩
          · exact seq_of_newest (hsome _ rfl rfl) hseq
          · exact report_of_newest (hsome _ rfl rfl) hreport
          · exact h.asking.trans (congrArg _ hasking.symm)
          · exact hwaiting.trans hpend.symm
        have hpos := Nat.pos_of_ne_zero hzero
        split
        · next heq =>
          split at heq <;> cases heq
        · exact hkeep _ rfl rfl rfl rfl hpos

/-! ### The run -/

theorem step {a : Step} (h : Inv s) (hok : Orderly s a) (hs' : next s a = some s') : Inv s' := by
  cases a with
  | send inProgress waiting failed percent =>
    cases hs'
    exact h.send _
  | deliver i =>
    obtain ⟨c, hc, rfl⟩ := map_eq_some_iff.mp hs'
    exact h.deliver (mem_of_getElem? hc) (hok c hc)
  | request ending =>
    cases hs'
    exact h.request ending
  | answer a =>
    cases hs'
    exact h.answer a
  | pageStarted =>
    cases hs'
    exact h.pageStarted
  | cancel =>
    cases hs'
    exact h.cancel

theorem sound (h : Inv s) : Sound s where
  waits hpending := by
    have hpos := h.positive hpending
    rw [h.report] at hpos
    unfold newest at hpos
    cases hnewest : newestCall s with
    | none =>
      rw [hnewest] at hpos
      exact absurd hpos (Nat.lt_irrefl 0)
    | some c =>
      rw [hnewest] at hpos
      exact ⟨c, rfl, hpos⟩
  once := h.accounted.ended_nodup
  cancelled _ hr := h.accounted.not_ended_of_cancelled hr

end Inv

/-- What ends the app was meant to. -/
theorem cause_of_ends {s s' : Shell} {a : Step} (h : Inv s) (hok : Orderly s a)
    (hs' : next s a = some s') (hends : s'.ended ≠ s.ended) : Cause s a s' := by
  have hreport := (h.step hok hs').report
  cases a with
  | send | cancel =>
    cases hs'
    exact absurd rfl hends
  | deliver i =>
    obtain ⟨c, hc, rfl⟩ := map_eq_some_iff.mp hs'
    refine .inr (.inr ?_)
    rw [← hreport]
    unfold Shell.deliver Shell.ends QuitGate.hear at hends ⊢
    split at hends
    · next heq =>
      split at heq
      · cases heq
      · next hlt =>
        rw [if_neg hlt]
        dsimp only at heq ⊢
        split at heq
        · cases heq
        · split at heq
          · next hzero => rw [if_pos hzero]; exact hzero
          · split at heq <;> cases heq
    · exact absurd rfl hends
  | request ending =>
    cases hs'
    refine .inr (.inr ?_)
    rw [← hreport]
    unfold Shell.request QuitGate.request at hends ⊢
    split at hends
    · exact absurd rfl hends
    · next hnot =>
      rw [if_neg hnot]
      split at hends
      · next hzero => rw [if_pos hzero]; exact hzero
      · exact absurd rfl hends
  | answer a =>
    cases hs'
    unfold Shell.answer QuitGate.answer at hends hreport ⊢
    cases hasking : s.gate.asking with
    | none =>
      rw [hasking] at hends
      exact absurd rfl hends
    | some ending =>
      rw [hasking] at hends hreport
      cases a with
      | resumeLater => exact .inl rfl
      | cancel => exact absurd rfl hends
      | whenFinished =>
        refine .inr (.inr ?_)
        dsimp only at hends hreport ⊢
        by_cases hzero : s.gate.report.inProgress = 0
        · rw [if_pos hzero] at hreport ⊢
          exact hreport ▸ hzero
        · rw [if_neg hzero] at hends
          exact absurd rfl hends
  | pageStarted =>
    cases hs'
    refine .inr (.inl ⟨rfl, ?_⟩)
    unfold Shell.pageStarted Shell.ends QuitGate.pageStarted at hends
    cases hpending : s.gate.pending with
    | none =>
      rw [hpending] at hends
      exact absurd rfl hends
    | some pending => rfl

/-- **The app is ended only when it is meant to be**, in every run in which no document that is gone
is heard: a step ends it only by the answer to resume later, by a new document while a quit waits, or
when the newest report of the current document says that nothing is in progress; a quit waits only
while the newest report says that something is; and each request ends the app at most once, and never
after it was cancelled. -/
theorem quits_only_when_meant (s : Shell) (h : Run next Orderly .start s) :
    Sound s ∧ ∀ a s', Orderly s a → next s a = some s' → s'.ended ≠ s.ended → Cause s a s' := by
  have hinv : Inv s := h.invariant .start fun _ _ _ hs hok hn => hs.step hok hn
  exact ⟨hinv.sound, fun a s' hok hs' => cause_of_ends hinv hok hs'⟩

/-- The page sends one upload, a quit waits for it, and it ends. -/
theorem quits_only_when_meant_one_upload : ∃ s, Run next Orderly .start s ∧
    s.gate.pending.isSome ∧ Sound s := by
  have hrun : Run next Orderly .start _ := .get [.send 1 0 0 none, .deliver 0, .request .quit,
    .answer .whenFinished] (by decide +kernel) (by decide +kernel)
  exact ⟨_, hrun, by decide +kernel, (quits_only_when_meant _ hrun).1⟩

/-- **The app may be ended in the middle of an upload**: the first document has sent two reports and
the second has not arrived when a new document starts.  The new one sends an upload, a quit waits for
it, and then the report that nothing is in progress arrives from the document that is gone. -/
theorem quits_during_an_upload : ¬∀ s, Run next free .start s →
    Sound s ∧ ∀ a s', next s a = some s' → s'.ended ≠ s.ended → Cause s a s' := by
  intro h
  have hrun : Run next free .start _ := .get_free [.send 1 0 0 none, .send 0 0 0 none, .deliver 0,
    .pageStarted, .send 1 0 0 none, .deliver 1, .request .quit, .answer .whenFinished]
    (by decide +kernel)
  rcases (h _ hrun).2 (.deliver 0) _ (some_get (by decide +kernel)).symm (by decide +kernel)
    with hcause | ⟨hcause, -⟩ | hcause
  · cases hcause
  · cases hcause
  · exact absurd hcause (by decide +kernel)

end Lasterm.Desktop
