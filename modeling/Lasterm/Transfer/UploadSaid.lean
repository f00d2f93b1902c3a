import Lasterm.Lib.Feed
import Lasterm.Lib.LastWord
import Lasterm.Transfer.Upload

/-!
# What the hub says of an upload

The hub does not say a change as it makes it.  It notes which items changed (`dirtyItems`), and says
them together when a timer has run out (`settle`, `flush`): how they are then, the conflicts met since,
whether the upload is done, and the upload's own state if it is not what was said last
(`transfers/transfer-service.ts`).

## Main definitions

* `Upload` — what is said of an upload and what decides when; how its files move is elsewhere, so
  that any `Edit` of an item may come at any time.
* `flush`, `sayState` — what the hub says; a *turn* is what it does in one go.

## Main results

* `Goes.edit`, `Goes.flush` — a copy that was good stays good.
-/

namespace Lasterm.Transfer.Said

open Lasterm.Transfer.Uploads (Kind)

/-! ### The upload -/

/-- `TransferUploadState`, of an upload that was not discarded. -/
inductive OwnState
  | running
  | interrupted
  | done
  deriving DecidableEq

/-- `TransferNotResumedReason`. -/
inductive Reason
  | needsPassphrase
  | needsPassword
  | hostKeyNotAccepted
  | hostUnreachable
  deriving DecidableEq

/-- What an upload's totals count. -/
structure Totals where
  files : ℕ
  bytes : ℤ
  acked : ℤ
  states : ItemState → ℕ

/-- An item as a window is told of it. -/
structure Item where
  state : ItemState
  acked : ℤ
  size : ℤ

/-- An upload as windows are told of it. -/
structure Upload where
  kind : ℕ → Kind
  items : ℕ → Item
  totals : Totals
  folderStates : ItemState → ℕ
  source : Option ℕ
  busy : ℕ
  reason : Option Reason
  dirtyItems : List ℕ
  conflicts : List ℕ
  doneSaid : Bool
  said : Option (OwnState × Option Reason)
  /-- A flush is to come: `flushTimer` or `flushSoon`. -/
  flushes : Bool

namespace Upload

variable (u : Upload)

/-- The item changed, and is to be said. -/
def touch (i : ℕ) : Upload :=
  { u with dirtyItems := if i ∈ u.dirtyItems then u.dirtyItems else u.dirtyItems ++ [i] }

/-- One fewer in a state, and one more in another. -/
def recount (counts : ItemState → ℕ) (before state : ItemState) : ItemState → ℕ :=
  let less := Function.update counts before (counts before - 1)
  Function.update less state (less state + 1)

/-- The source's `setState`. -/
def setState (i : ℕ) (state : ItemState) : Upload :=
  let before := (u.items i).state
  let u := { u with items := Function.update u.items i { u.items i with state } }.touch i
  if before = state then u
  else if u.kind i = .dir then { u with folderStates := recount u.folderStates before state }
  else { u with totals := { u.totals with states := recount u.totals.states before state } }

/-- The source's `addAcked`. -/
def addAcked (i : ℕ) (delta : ℤ) : Upload :=
  if delta = 0 then u
  else
    { u with
      items := Function.update u.items i { u.items i with acked := (u.items i).acked + delta }
      totals := { u.totals with acked := u.totals.acked + delta } }.touch i

/-- A file that its window found changed (`changedFile`) has another size. -/
def resize (i : ℕ) (size : ℤ) : Upload :=
  { u with
    items := Function.update u.items i { u.items i with size }
    totals := { u.totals with bytes := u.totals.bytes + (size - (u.items i).size) } }.touch i

/-- `conflictFound`, where the policy asks. -/
def conflictFound (i : ℕ) : Upload :=
  let u := u.setState i .conflict
  { u with conflicts := u.conflicts ++ [i] }

/-- `UNSETTLED`. -/
def unsettledStates : List ItemState :=
  [.queued, .sending, .verifying, .conflict, .interrupted]

/-- The source's `counted`. -/
def counted (states : List ItemState) : ℕ :=
  (states.map fun state => u.totals.states state + u.folderStates state).sum

/-- The source's `isSettled`. -/
def isSettled : Bool := u.busy == 0 && u.counted unsettledStates == 0

/-- The source's `uploadState`. -/
def uploadState : OwnState :=
  if u.isSettled then .done else if u.source.isNone then .interrupted else .running

/-- Its own state and why, as `sayState` compares it. -/
def own : OwnState × Option Reason := (u.uploadState, u.reason)

end Upload

/-- What is done to an upload. -/
inductive Edit
  | setState (i : ℕ) (state : ItemState)
  | addAcked (i : ℕ) (delta : ℤ)
  | resize (i : ℕ) (size : ℤ)
  | conflictFound (i : ℕ)
  | busy (n : ℕ)
  | source (client : Option ℕ)
  | reason (reason : Option Reason)
  /-- `requeueAll`: it may be done again. -/
  | again

/-- The upload after an edit. -/
def Edit.apply (u : Upload) : Edit → Upload
  | .setState i state => u.setState i state
  | .addAcked i delta => u.addAcked i delta
  | .resize i size => u.resize i size
  | .conflictFound i => u.conflictFound i
  | .busy n => { u with busy := n }
  | .source client => { u with source := client }
  | .reason why => { u with reason := why }
  | .again => { u with doneSaid := false }

/-! ### The messages -/

/-- An item in TRANSFER_PROGRESS: `progressOf`. -/
structure ItemProgress where
  itemId : ℕ
  state : ItemState
  acked : Option ℤ

/-- What a window is told. -/
inductive Message
  | progress (items : List ItemProgress) (totals : Totals)
  | conflict (items : List ℕ)
  | done (totals : Totals)
  | state (state : OwnState) (reason : Option Reason)
  | discarded

namespace Upload

variable (u : Upload)

/-- The source's `progressOf`. -/
def progressOf (i : ℕ) : ItemProgress where
  itemId := i
  state := (u.items i).state
  acked := if u.kind i = .file then some (u.items i).acked else none

/-- The items that changed. -/
def sayProgress : Upload × List Message :=
  if u.dirtyItems = [] then (u, [])
  else
    ({ u with dirtyItems := [] }, [.progress (u.dirtyItems.map u.progressOf) u.totals])

/-- The conflicts met since. -/
def sayConflicts : Upload × List Message :=
  if u.conflicts = [] then (u, []) else ({ u with conflicts := [] }, [.conflict u.conflicts])

/-- That it is done, once. -/
def sayDone : Upload × List Message :=
  if u.isSettled && !u.doneSaid then ({ u with doneSaid := true }, [.done u.totals]) else (u, [])

/-- The source's `sayState`. -/
def sayState : Upload × List Message :=
  if u.said = some u.own then (u, [])
  else ({ u with said := some u.own }, [.state u.own.1 u.own.2])

/-- One thing said after another. -/
def andThen (said : Upload × List Message) (next : Upload → Upload × List Message) :
    Upload × List Message :=
  ((next said.1).1, said.2 ++ (next said.1).2)

/-- The source's `flush`, its timer having run out. -/
def flush : Upload × List Message :=
  let u : Upload := { u with flushes := false }
  andThen (andThen (andThen u.sayProgress sayConflicts) sayDone) sayState

/-! ### After a flush -/

theorem sayProgress_fst : u.sayProgress.1 = { u with dirtyItems := [] } := by
  unfold sayProgress
  split
  · next h => simp [← h]
  · rfl

theorem sayConflicts_fst : u.sayConflicts.1 = { u with conflicts := [] } := by
  unfold sayConflicts
  split
  · next h => simp [← h]
  · rfl

theorem sayDone_fst : u.sayDone.1 = { u with doneSaid := u.doneSaid || u.isSettled } := by
  unfold sayDone
  split
  · next h =>
    obtain ⟨hsettled, -⟩ := Bool.and_eq_true_iff.mp h
    rw [hsettled, Bool.or_true]
  · next h =>
    have hsame : (u.doneSaid || u.isSettled) = u.doneSaid := by
      revert h
      cases u.doneSaid <;> cases u.isSettled <;> simp
    rw [hsame]

theorem sayState_fst : u.sayState.1 = { u with said := some u.own } := by
  unfold sayState
  split
  · next h => simp [← h]
  · rfl

theorem flush_fst : u.flush.1 =
    { u with
      flushes := false, dirtyItems := [], conflicts := [], said := some u.own
      doneSaid := u.doneSaid || u.isSettled } := by
  simp only [flush, andThen, sayProgress_fst, sayConflicts_fst, sayDone_fst, sayState_fst]
  rfl

end Upload

/-! ### What a copy follows -/

/-- What a message says an item's state is. -/
def stateWord : Message → ℕ → Option ItemState
  | .progress items _, i => (lastFor ItemProgress.itemId i items).map ItemProgress.state
  | .conflict items, i => if i ∈ items then some .conflict else none
  | _, _ => none

/-- What a message says of the bytes acknowledged of an item. -/
def ackedWord : Message → ℕ → Option ℤ
  | .progress items _, i =>
    (lastFor ItemProgress.itemId i (items.filter fun p => p.acked.isSome)).map fun p => p.acked.getD 0
  | _, _ => none

/-- What a message says the totals are. -/
def totalsWord : Message → Unit → Option Totals
  | .progress _ totals, _ | .done totals, _ => some totals
  | _, _ => none

/-- What a message says the upload's own state is. -/
def ownWord : Message → Unit → Option OwnState
  | .state state _, _ => some state
  | _, _ => none

/-- What whoever hears the messages knows of the upload's own state. -/
structure Heard where
  own : OwnState
  /-- Someone saw another state since it was said. -/
  asked : Bool

/-- With more messages. -/
def Heard.after (h : Heard) (sent : List Message) : Heard :=
  sent.foldl (fun h m => (ownWord m ()).elim h fun own => ⟨own, false⟩) h

/-- The hub goes on to `u'`, and says `sent`: the copies of it that were good are good still. -/
structure Goes (log sent : List Message) (h : Heard) (u u' : Upload) : Prop where
  states : Feed.Onward stateWord log (log ++ sent) (· ∈ u.dirtyItems) (· ∈ u'.dirtyItems)
    (fun i => (u.items i).state) fun i => (u'.items i).state
  acked : Feed.Onward ackedWord log (log ++ sent) (fun i => u.kind i ≠ .file ∨ i ∈ u.dirtyItems)
    (fun i => u'.kind i ≠ .file ∨ i ∈ u'.dirtyItems)
    (fun i => (u.items i).acked) fun i => (u'.items i).acked
  totals : Feed.Onward totalsWord log (log ++ sent) (fun _ => u.dirtyItems ≠ [])
    (fun _ => u'.dirtyItems ≠ []) (fun _ => u.totals) fun _ => u'.totals
  own : Feed.Onward ownWord log (log ++ sent) (fun _ => h.asked = true)
    (fun _ => (h.after sent).asked = true) (fun _ => h.own) fun _ => (h.after sent).own

variable {u u' u'' : Upload} {log sent sent' : List Message} {h : Heard} {i : ℕ}

theorem Heard.after_append : h.after (sent ++ sent') = (h.after sent).after sent' :=
  List.foldl_append

theorem Goes.refl : Goes log [] h u u := by
  constructor <;> rw [List.append_nil] <;> exact .refl

theorem Goes.trans (hg : Goes log sent h u u') (hg' : Goes (log ++ sent) sent' (h.after sent) u' u'') :
    Goes log (sent ++ sent') h u u'' := by
  constructor
  · rw [← List.append_assoc]
    exact hg.states.trans hg'.states
  · rw [← List.append_assoc]
    exact hg.acked.trans hg'.acked
  · rw [← List.append_assoc]
    exact hg.totals.trans hg'.totals
  · rw [← List.append_assoc, Heard.after_append]
    exact hg.own.trans hg'.own

theorem own_onward : Feed.Onward ownWord log (log ++ sent) (fun _ => h.asked = true)
    (fun _ => (h.after sent).asked = true) (fun _ => h.own) fun _ => (h.after sent).own := by
  induction sent generalizing log h with
  | nil =>
    rw [List.append_nil]
    exact .refl
  | cons m sent ih =>
    rw [List.append_cons]
    refine Feed.Onward.trans ?_ (ih (h := h.after [m]))
    cases hm : ownWord m () with
    | none =>
      have hafter : h.after [m] = h := by simp [Heard.after, hm]
      rw [hafter]
      exact .tells_nothing fun _ => hm
    | some own =>
      have hafter : h.after [m] = ⟨own, false⟩ := by simp [Heard.after, hm]
      rw [hafter]
      -- It becomes another state, and then it is said.
      have hchanges : Feed.Onward ownWord log log (fun _ => h.asked = true) (fun _ => True)
          (fun _ => h.own) fun _ => own :=
        .changes fun _ hsaid => absurd trivial hsaid
      refine hchanges.trans (.tells ?_ ?_)
      · rintro ⟨⟩ v - hv
        exact Option.some.inj (hv.symm.trans hm)
      · rintro ⟨⟩ - hnone
        exact nomatch hm.symm.trans hnone

/-! ### Edits -/

/-- Whatever changed of an item is noted. -/
structure Marks (u u' : Upload) : Prop where
  kind : u'.kind = u.kind
  items : ∀ i ∉ u'.dirtyItems, i ∉ u.dirtyItems ∧ u'.items i = u.items i
  totals : u'.dirtyItems = [] → u.dirtyItems = [] ∧ u'.totals = u.totals

theorem mem_touch {j : ℕ} : j ∈ (u.touch i).dirtyItems ↔ j ∈ u.dirtyItems ∨ j = i := by
  unfold Upload.touch
  split
  · next hi => exact ⟨.inl, fun h => h.elim id fun h => h ▸ hi⟩
  · simp

theorem Marks.of_touch (i : ℕ) (hdirty : u'.dirtyItems = (u.touch i).dirtyItems)
    (hkind : u'.kind = u.kind) (hitems : ∀ j, j ≠ i → u'.items j = u.items j) : Marks u u' where
  kind := hkind
  items j hj := by
    rw [hdirty, mem_touch, not_or] at hj
    exact ⟨hj.1, hitems j hj.2⟩
  totals hnil := by
    have hi : i ∈ u'.dirtyItems := by
      rw [hdirty, mem_touch]
      exact .inr rfl
    rw [hnil] at hi
    cases hi

theorem Marks.of_setState (state : ItemState) : Marks u (u.setState i state) := by
  have hitems : ∀ j, j ≠ i →
      Function.update u.items i { u.items i with state } j = u.items j :=
    fun j hj => Function.update_of_ne hj _ _
  unfold Upload.setState
  dsimp only
  split
  · exact .of_touch i rfl rfl hitems
  · split <;> exact .of_touch i rfl rfl hitems

theorem Marks.of_edit (e : Edit) : Marks u (e.apply u) := by
  have hsame : ∀ {u' : Upload}, u'.kind = u.kind → u'.items = u.items → u'.totals = u.totals →
      u'.dirtyItems = u.dirtyItems → Marks u u' :=
    fun hkind hitems htotals hdirty =>
      ⟨hkind, fun i hi => ⟨hdirty ▸ hi, by rw [hitems]⟩, fun hnil => ⟨hdirty ▸ hnil, htotals⟩⟩
  cases e with
  | setState i state => exact .of_setState state
  | addAcked i delta =>
    simp only [Edit.apply, Upload.addAcked]
    split
    · exact hsame rfl rfl rfl rfl
    · exact .of_touch i rfl rfl fun j hj => Function.update_of_ne hj _ _
  | resize i size => exact .of_touch i rfl rfl fun j hj => Function.update_of_ne hj _ _
  | conflictFound i =>
    obtain ⟨hkind, hitems, htotals⟩ := Marks.of_setState (u := u) (i := i) .conflict
    exact ⟨hkind, hitems, htotals⟩
  | busy | source | reason | again => exact hsame rfl rfl rfl rfl

theorem Goes.of_marks (hm : Marks u u') : Goes log [] h u u' := by
  constructor <;> rw [List.append_nil]
  · refine .changes fun i hi => ?_
    obtain ⟨hold, hitem⟩ := hm.items i hi
    exact ⟨hold, by rw [hitem]⟩
  · refine .changes fun i hi => ?_
    obtain ⟨hkind, hdirty⟩ := not_or.mp hi
    obtain ⟨hold, hitem⟩ := hm.items i hdirty
    exact ⟨not_or.mpr ⟨hm.kind ▸ hkind, hold⟩, by rw [hitem]⟩
  · refine .changes fun _ hnil => ?_
    obtain ⟨hold, htotals⟩ := hm.totals (not_not.mp hnil)
    exact ⟨not_not.mpr hold, htotals⟩
  · exact .refl

/-- **A copy that was good is good after any edit.** -/
theorem Goes.edit (e : Edit) : Goes log [] h u (e.apply u) :=
  .of_marks (.of_edit e)

/-! ### What a flush says -/

theorem acked_progressOf (hkind : u.kind i = .file) :
    (u.progressOf i).acked = some (u.items i).acked :=
  if_pos hkind

theorem progressOf_of_lastFor {l : List ℕ} {q : ItemProgress → Bool} {p : ItemProgress}
    (hp : lastFor ItemProgress.itemId i ((l.map u.progressOf).filter q) = some p) :
    p = u.progressOf i := by
  obtain ⟨j, -, rfl⟩ := List.mem_map.mp (List.mem_filter.mp (mem_of_lastFor hp)).1
  rw [show j = i from key_of_lastFor hp]

theorem progress_told {l : List ℕ} {q : ItemProgress → Bool} (hi : i ∈ l)
    (hq : q (u.progressOf i) = true) :
    lastFor ItemProgress.itemId i ((l.map u.progressOf).filter q) ≠ none :=
  lastFor_ne_none (List.mem_filter.mpr ⟨List.mem_map_of_mem hi, hq⟩) rfl

theorem Goes.sayProgress : Goes log u.sayProgress.2 h u u.sayProgress.1 := by
  unfold Upload.sayProgress
  split
  · exact .refl
  · next hdirty =>
    constructor
    · refine .tells ?_ ?_
      · intro i state _ hstate
        obtain ⟨p, hp, rfl⟩ := Option.map_eq_some_iff.mp hstate
        rw [← List.filter_true (List.map _ _)] at hp
        rw [progressOf_of_lastFor hp]
        rfl
      · intro i _ hnone hi
        have hlast := Option.map_eq_none_iff.mp hnone
        rw [← List.filter_true (List.map _ _)] at hlast
        exact progress_told hi rfl hlast
    · refine .tells ?_ ?_
      · intro i acked hunsaid hacked
        obtain ⟨hkind, -⟩ := not_or.mp hunsaid
        obtain ⟨p, hp, rfl⟩ := Option.map_eq_some_iff.mp hacked
        rw [progressOf_of_lastFor hp, acked_progressOf (u := u) (not_not.mp hkind)]
        rfl
      · intro i hunsaid hnone
        obtain ⟨hkind, -⟩ := not_or.mp hunsaid
        refine not_or.mpr ⟨hkind, fun hi => ?_⟩
        refine progress_told hi ?_ (Option.map_eq_none_iff.mp hnone)
        rw [acked_progressOf (u := u) (not_not.mp hkind)]
        rfl
    · refine .tells ?_ ?_
      · rintro ⟨⟩ totals - htotals
        exact (Option.some.inj htotals).symm
      · rintro ⟨⟩ - hnone
        cases hnone
    · exact own_onward

theorem Goes.sayConflicts (hconflict : ∀ i ∈ u.conflicts, (u.items i).state = .conflict) :
    Goes log u.sayConflicts.2 h u u.sayConflicts.1 := by
  unfold Upload.sayConflicts
  split
  · exact .refl
  · constructor
    · refine .tells ?_ fun _ hunsaid _ => hunsaid
      intro i state _ hstate
      obtain ⟨hi, hstate⟩ := Option.ite_none_right_eq_some.mp hstate
      rw [hconflict i hi]
      exact (Option.some.inj hstate).symm
    · exact .tells_nothing fun _ => rfl
    · exact .tells_nothing fun _ => rfl
    · exact own_onward

theorem Goes.sayDone : Goes log u.sayDone.2 h u u.sayDone.1 := by
  unfold Upload.sayDone
  split
  · constructor
    · exact .tells_nothing fun _ => rfl
    · exact .tells_nothing fun _ => rfl
    · refine .tells ?_ fun _ hunsaid _ => hunsaid
      rintro ⟨⟩ totals - htotals
      exact (Option.some.inj htotals).symm
    · exact own_onward
  · exact .refl

theorem Goes.sayState : Goes log u.sayState.2 h u u.sayState.1 := by
  unfold Upload.sayState
  split
  · exact .refl
  · constructor
    · exact .tells_nothing fun _ => rfl
    · exact .tells_nothing fun _ => rfl
    · exact .tells_nothing fun _ => rfl
    · exact own_onward

theorem Goes.andThen {said : Upload × List Message} {next : Upload → Upload × List Message}
    (hg : Goes log said.2 h u said.1)
    (hg' : Goes (log ++ said.2) (next said.1).2 (h.after said.2) said.1 (next said.1).1) :
    Goes log (Upload.andThen said next).2 h u (Upload.andThen said next).1 :=
  hg.trans hg'

/-- **A copy that was good is good after a flush**, if the conflicts it says are conflicts still. -/
theorem Goes.flush (hconflict : ∀ i ∈ u.conflicts, (u.items i).state = .conflict) :
    Goes log u.flush.2 h u u.flush.1 := by
  refine .andThen (.andThen (.andThen ?_ ?_) .sayDone) .sayState
  · have hprogress : Goes log _ h { u with flushes := false } _ := .sayProgress
    exact ⟨hprogress.states, hprogress.acked, hprogress.totals, hprogress.own⟩
  · refine .sayConflicts ?_
    rw [Upload.sayProgress_fst]
    exact hconflict

/-! ### What is known of the upload's own state -/

theorem sayState_snd :
    u.sayState.2 = if u.said = some u.own then [] else [.state u.own.1 u.own.2] := by
  unfold Upload.sayState
  split <;> rfl

theorem after_sayState (hsaid : ∀ own, u.said = some own → own.1 = h.own) :
    (h.after u.sayState.2).own = u.uploadState := by
  rw [sayState_snd]
  split
  · next heq => exact (hsaid _ heq).symm
  · rfl

theorem asked_sayState (hasked : u.said = some u.own → h.asked = false) :
    (h.after u.sayState.2).asked = false := by
  rw [sayState_snd]
  split
  · next heq => exact hasked heq
  · rfl

theorem after_flush : h.after u.flush.2 = h.after u.sayState.2 := by
  have hprogress : ∀ (u : Upload) (h : Heard), h.after u.sayProgress.2 = h := by
    intro u h
    unfold Upload.sayProgress
    split <;> rfl
  have hconflicts : ∀ (u : Upload) (h : Heard), h.after u.sayConflicts.2 = h := by
    intro u h
    unfold Upload.sayConflicts
    split <;> rfl
  have hdone : ∀ (u : Upload) (h : Heard), h.after u.sayDone.2 = h := by
    intro u h
    unfold Upload.sayDone
    split <;> rfl
  simp only [Upload.flush, Upload.andThen, Heard.after_append, hprogress, hconflicts, hdone,
    Upload.sayProgress_fst, Upload.sayConflicts_fst, Upload.sayDone_fst, sayState_snd]
  rfl

end Lasterm.Transfer.Said
