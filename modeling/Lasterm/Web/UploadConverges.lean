import Lasterm.Web.UploadView

/-!
# A window comes to show what the hub has

What a window shows is a copy of the upload that the hub's messages keep up (`Feed`).  It stays one as
long as every answer that is taken is newer than what was delivered, what the hub says of a conflict
is still so, and whatever changes is said.  Without that it need not: an answer that comes after a
newer message is taken all the same, and what the message said is lost.

## Main results

* `Copies.step`, `Told.step` — what a steady step keeps.
* `view_converges` — a window at rest shows what the hub has, in every steady run.
* `view_stays_behind` — and may not, in another.
-/

namespace Lasterm.Web.UploadView

open Lasterm.Transfer (ItemState)
open Lasterm.Transfer.Said List Option
open Transition

/-! ### What is asked -/

/-- The window shows the upload as the hub has it. -/
structure Shows (s : System) (r : Record) : Prop where
  there : s.dropped = false
  state : r.state = s.hub.uploadState
  items : ∀ i, (r.items i).state = (s.hub.items i).state
  acked : ∀ i, s.hub.kind i = .file → (r.items i).acked = (s.hub.items i).acked
  totals : r.totals = s.hub.totals

/-- Nothing is under way: what there was to say was said and was delivered, and no read is pending. -/
structure Quiet (s : System) : Prop where
  flushed : s.dropped = false → s.hub.flushes = false
  delivered : s.delivered = s.log.length
  reads : s.reads = []

/-- Where a run starts: whatever there is to be said will be, and a window that shows the upload shows
what the others were told. -/
structure Start (s : System) : Prop where
  there : s.dropped = false
  log : s.log = []
  delivered : s.delivered = 0
  reads : s.reads = []
  asked : s.heard.asked = false
  said : ∀ own, s.hub.said = some own → own.1 = s.heard.own
  pending : s.hub.dirtyItems ≠ [] ∨ s.hub.uploadState ≠ s.heard.own → s.hub.flushes = true
  record : ∀ r, s.record = some r → r.state = s.heard.own ∧
    (∀ i ∉ s.hub.dirtyItems, (r.items i).state = (s.hub.items i).state ∧
      (s.hub.kind i = .file → (r.items i).acked = (s.hub.items i).acked)) ∧
    (s.hub.dirtyItems = [] → r.totals = s.hub.totals)

/-- What an upload that changed has to say will be said. -/
def noted (s : System) (u : Upload) : Ending → Bool
  | .settles => true
  | .states => u.flushes || u.dirtyItems == []
  | .nothing => u.flushes || (u.dirtyItems == [] && u.uploadState == s.heard.own)

/-- Nothing was delivered that is newer than the answer. -/
def fresh (s : System) : Option (ℕ × Description) → Bool
  | some (position, _) => s.delivered ≤ position
  | none => true

/-- The answer to a read is put in the record. -/
def taken (s : System) (wanted : Bool) : ReadKind → Bool
  | .adopt => s.record.isNone
  | .refresh => wanted && s.record.isSome

/-- The condition on a step: what changes will be said; what a flush says of a conflict is so, and who
asked for the upload's own state before is told it; an answer is taken when nothing newer was
delivered. -/
def steady (s : System) : Event → Bool
  | .turn edits ending => noted s (s.edited edits) ending
  | .flush =>
    s.hub.conflicts.all (fun i => (s.hub.items i).state == .conflict) &&
      (s.hub.said != some s.hub.own || !s.heard.asked)
  | .take i wanted => (s.reads[i]?).all fun read =>
    read.answer.all fun body => !taken s wanted read.kind || fresh s body
  | _ => true

/-- The condition on a step. -/
def Steady (s : System) (e : Event) : Prop := steady s e = true

instance : DecidableRel Steady := fun s e => inferInstanceAs (Decidable (steady s e = true))

/-! ### The copies -/

variable {m : Message} {i : ℕ} {read : Read} {body : Option (ℕ × Description)}

section copies

variable {s : System} {log sent : List Message} {h : Heard} {u u' : Upload} {p q : ℕ}
  {items : ℕ → ItemView} {totals : Totals} {own : OwnState}

/-- The last words of the hub are what is so, but for what it has not said yet. -/
structure Truthful (log : List Message) (h : Heard) (u : Upload) : Prop where
  states : Feed.Honest stateWord log (· ∈ u.dirtyItems) fun i => (u.items i).state
  acked : Feed.Honest ackedWord log (fun i => u.kind i ≠ .file ∨ i ∈ u.dirtyItems)
    fun i => (u.items i).acked
  totals : Feed.Honest totalsWord log (fun _ => u.dirtyItems ≠ []) fun _ => u.totals
  own : Feed.Honest ownWord log (fun _ => h.asked = true) fun _ => h.own

/-- With the messages from position `p` on, these items and totals are the upload's. -/
structure Follows (log : List Message) (u : Upload) (p : ℕ) (items : ℕ → ItemView)
    (totals : Totals) : Prop where
  states : Feed.Current stateWord log (· ∈ u.dirtyItems) (fun i => (u.items i).state) p
    fun i => (items i).state
  acked : Feed.Current ackedWord log (fun i => u.kind i ≠ .file ∨ i ∈ u.dirtyItems)
    (fun i => (u.items i).acked) p fun i => (items i).acked
  totals : Feed.Current totalsWord log (fun _ => u.dirtyItems ≠ []) (fun _ => u.totals) p
    fun _ => totals

/-- With the messages from position `p` on, this is what the upload's own state was said to be. -/
def FollowsOwn (log : List Message) (h : Heard) (p : ℕ) (own : OwnState) : Prop :=
  Feed.Current ownWord log (fun _ => h.asked = true) (fun _ => h.own) p fun _ => own

theorem Truthful.goes (ht : Truthful log h u) (hg : Goes log sent h u u') :
    Truthful (log ++ sent) (h.after sent) u' :=
  ⟨hg.states.honest ht.states, hg.acked.honest ht.acked, hg.totals.honest ht.totals,
    hg.own.honest ht.own⟩

theorem Follows.goes (hf : Follows log u p items totals) (hp : p ≤ log.length)
    (hg : Goes log sent h u u') : Follows (log ++ sent) u' p items totals :=
  ⟨hg.states.current hp hf.states, hg.acked.current hp hf.acked, hg.totals.current hp hf.totals⟩

theorem Follows.weaken (hf : Follows log u q items totals) (hpq : p ≤ q) :
    Follows log u p items totals :=
  ⟨hf.states.weaken hpq, hf.acked.weaken hpq, hf.totals.weaken hpq⟩

theorem Follows.described :
    Follows log u p (itemViewsOf (describe u)) (describe u).totals where
  states := .taken fun _ _ => rfl
  acked := .taken fun i hi => by
    simp [itemViewsOf, describe, not_not.mp (not_or.mp hi).1]
  totals := .taken fun _ _ => rfl

theorem FollowsOwn.goes (hf : FollowsOwn log h p own) (hp : p ≤ log.length)
    (hg : Goes log sent h u u') : FollowsOwn (log ++ sent) (h.after sent) p own :=
  hg.own.current hp hf

theorem FollowsOwn.asked (hf : FollowsOwn log h p own) (early : Bool) :
    FollowsOwn log { h with asked := h.asked || early } p own :=
  Feed.Current.changes hf fun _ hasked => ⟨fun h => hasked (by simp [h]), rfl⟩

theorem Truthful.asked (ht : Truthful log h u) (early : Bool) :
    Truthful log { h with asked := h.asked || early } u :=
  ⟨ht.states, ht.acked, ht.totals, ht.own.changes fun _ hasked => ⟨fun h => hasked (by simp [h]), rfl⟩⟩

theorem Follows.receive {r r' : Record} (ht : Truthful log h u)
    (hf : Follows log u p r.items r.totals) (hm : log[p]? = some m) (hr : r.receive m = some r') :
    Follows log u (p + 1) r'.items r'.totals where
  states := hf.states.delivers ht.states hm fun _ => Record.receive_state hr
  acked := hf.acked.delivers ht.acked hm fun _ => Record.receive_acked hr
  totals := hf.totals.delivers ht.totals hm fun _ => Record.receive_totals hr

theorem FollowsOwn.receive {r r' : Record} (ht : Truthful log h u)
    (hf : FollowsOwn log h p r.state) (hm : log[p]? = some m) (hr : r.receive m = some r') :
    FollowsOwn log h (p + 1) r'.state :=
  Feed.Current.delivers hf ht.own hm fun _ => Record.receive_own hr

/-- What was answered follows what the hub says. -/
def Good (log : List Message) (h : Heard) (u : Upload) (read : Read) : Prop :=
  ∀ p body, read.answer = some (some (p, body)) →
    p ≤ log.length ∧ Follows log u p (itemViewsOf body) body.totals ∧
      (read.kind = .adopt → FollowsOwn log h p body.state)

/-- What the window shows, and what it may come to show by a read that was answered, follow what the
hub says. -/
structure Copies (s : System) : Prop where
  truthful : Truthful s.log s.heard s.hub
  delivered : s.delivered ≤ s.log.length
  record : ∀ r, s.record = some r → Follows s.log s.hub s.delivered r.items r.totals ∧
    FollowsOwn s.log s.heard s.delivered r.state
  answers : ∀ read ∈ s.reads, Good s.log s.heard s.hub read

theorem Copies.start (h : Start s) : Copies s where
  truthful := by
    rw [h.log]
    exact ⟨Feed.honest_nil, Feed.honest_nil, Feed.honest_nil, Feed.honest_nil⟩
  delivered := by rw [h.delivered]; exact Nat.zero_le _
  record r hr := by
    obtain ⟨hown, hitems, htotals⟩ := h.record r hr
    refine ⟨⟨.taken fun i hi => (hitems i hi).1, .taken fun i hi => ?_, .taken fun _ hnil => ?_⟩,
      .taken fun _ _ => hown⟩
    · obtain ⟨hkind, hdirty⟩ := not_or.mp hi
      exact (hitems i hdirty).2 (not_not.mp hkind)
    · exact htotals (not_not.mp hnil)
  answers read hread := by
    rw [h.reads] at hread
    cases hread

theorem Copies.asks (hc : Copies s) (kind : ReadKind) (adopting : Bool) :
    Copies { s with adopting, reads := s.reads ++ [⟨kind, none⟩] } where
  truthful := hc.truthful
  delivered := hc.delivered
  record := hc.record
  answers read hread := by
    obtain hread | hread := mem_append.mp hread
    · exact hc.answers read hread
    · obtain rfl := mem_singleton.mp hread
      exact fun _ _ h => nomatch h

theorem Copies.adopt (hc : Copies s) : Copies s.adopt := by
  unfold System.adopt
  split
  · exact hc
  · exact hc.asks .adopt true

theorem Copies.receive (hc : Copies s) (hm : s.log[s.delivered]? = some m) :
    Copies (s.receive m) := by
  have hlt : s.delivered < s.log.length := (List.getElem?_eq_some_iff.mp hm).1
  unfold System.receive
  cases hr : s.record with
  | some r =>
    refine ⟨hc.truthful, hlt, fun r' hr' => ?_, hc.answers⟩
    obtain ⟨hitems, hown⟩ := hc.record r hr
    exact ⟨hitems.receive hc.truthful hm hr', hown.receive hc.truthful hm hr'⟩
  | none =>
    dsimp only
    have hnext : Copies { s with delivered := s.delivered + 1 } :=
      ⟨hc.truthful, hlt, fun r hr' => (nomatch hr.symm.trans hr'), hc.answers⟩
    split
    · exact hr ▸ hnext.adopt
    · exact hr ▸ hnext

theorem Copies.answer (hc : Copies s) : Copies (s.answer i read) where
  truthful := hc.truthful.asked _
  delivered := hc.delivered
  record r hr := by
    obtain ⟨hitems, hown⟩ := hc.record r hr
    exact ⟨hitems, hown.asked _⟩
  answers read' hread' := by
    obtain hread' | rfl := mem_or_eq_of_mem_set hread'
    · intro p body hbody
      obtain ⟨hp, hitems, hown⟩ := hc.answers read' hread' p body hbody
      exact ⟨hp, hitems, fun hkind => (hown hkind).asked _⟩
    · intro p body hbody
      obtain ⟨-, hbody⟩ := ite_none_left_eq_some.mp (some.inj hbody)
      obtain ⟨rfl, rfl⟩ := Prod.mk.inj (some.inj hbody)
      refine ⟨Nat.le_refl _, .described, fun hkind => .taken fun _ hasked => ?_⟩
      by_contra hne
      refine hasked ?_
      simp only [System.answer, Bool.or_eq_true, decide_eq_true_eq]
      exact .inr ⟨hkind, hne⟩

theorem Copies.take {wanted : Bool}
    (hc : Copies s) (hread : s.reads[i]? = some read) (hbody : read.answer = some body)
    (hfresh : taken s wanted read.kind = true → fresh s body = true) :
    Copies (s.take i read.kind body wanted) := by
  have hgood := hc.answers read (mem_of_getElem? hread)
  have hanswers : ∀ read ∈ s.reads.eraseIdx i, Good s.log s.heard s.hub read :=
    fun read hmem => hc.answers read (mem_of_mem_eraseIdx hmem)
  cases hkind : read.kind with
  | adopt =>
    refine ⟨hc.truthful, hc.delivered, fun r hr => ?_, hanswers⟩
    obtain hr | ⟨hnone, hr⟩ := or_eq_some_iff.mp hr
    · exact hc.record r hr
    · obtain ⟨⟨p, d⟩, rfl, rfl⟩ := map_eq_some_iff.mp hr
      obtain ⟨-, hitems, hown⟩ := hgood p d hbody
      have htaken : taken s wanted read.kind = true := by
        rw [hkind]
        exact isNone_iff_eq_none.mpr hnone
      have hp : s.delivered ≤ p := of_decide_eq_true (hfresh htaken)
      exact ⟨hitems.weaken hp, Feed.Current.weaken (hown hkind) hp⟩
  | refresh =>
    cases wanted with
    | false => exact ⟨hc.truthful, hc.delivered, hc.record, hanswers⟩
    | true =>
      refine ⟨hc.truthful, hc.delivered, fun r hr => ?_, hanswers⟩
      obtain ⟨old, hold, rfl⟩ := map_eq_some_iff.mp hr
      obtain ⟨hitems, hown⟩ := hc.record old hold
      cases body with
      | none => exact ⟨hitems, hown⟩
      | some b =>
        obtain ⟨p, d⟩ := b
        obtain ⟨-, hnew, -⟩ := hgood p d hbody
        have htaken : taken s true read.kind = true := by
          rw [hkind]
          exact isSome_iff_exists.mpr ⟨old, hold⟩
        have hp : s.delivered ≤ p := of_decide_eq_true (hfresh htaken)
        exact ⟨hnew.weaken hp, hown⟩

theorem Copies.goes (hc : Copies s) (hg : Goes s.log sent s.heard s.hub u') :
    Copies { s with hub := u', log := s.log ++ sent, heard := s.heard.after sent } where
  truthful := hc.truthful.goes hg
  delivered := by
    simp only [length_append]
    exact Nat.le_trans hc.delivered (Nat.le_add_right _ _)
  record r hr := by
    obtain ⟨hitems, hown⟩ := hc.record r hr
    exact ⟨hitems.goes hc.delivered hg, hown.goes hc.delivered hg⟩
  answers read hread p body hbody := by
    obtain ⟨hp, hitems, hown⟩ := hc.answers read hread p body hbody
    refine ⟨?_, hitems.goes hp hg, fun hkind => (hown hkind).goes hp hg⟩
    simp only [length_append]
    exact Nat.le_trans hp (Nat.le_add_right _ _)

theorem goes_edits (edits : List Edit) : Goes log [] h u (edits.foldl Edit.apply u) := by
  induction edits generalizing u with
  | nil => exact .refl
  | cons e edits ih =>
    have hfirst : Goes log [] h u (e.apply u) := .edit e
    refine hfirst.trans ?_
    rw [append_nil]
    exact ih

theorem Copies.silent (hc : Copies s) (hg : Goes s.log [] s.heard s.hub u') :
    Copies { s with hub := u' } := by
  have hgoes := hc.goes hg
  rwa [append_nil] at hgoes

theorem Copies.turn (hc : Copies s) (edits : List Edit) (ending : Ending) :
    Copies (s.turn edits ending) := by
  have hedits : Copies { s with hub := s.edited edits } := hc.silent (goes_edits edits)
  cases ending with
  | nothing => exact hedits
  | settles => exact hedits.silent (.of_marks ⟨rfl, fun _ hi => ⟨hi, rfl⟩, fun hnil => ⟨hnil, rfl⟩⟩)
  | states => exact hedits.goes .sayState

theorem Copies.drop (hc : Copies s) :
    Copies { s with dropped := true, log := s.log ++ [.discarded] } := by
  have hgoes : Goes s.log [.discarded] s.heard s.hub s.hub :=
    ⟨.tells_nothing fun _ => rfl, .tells_nothing fun _ => rfl, .tells_nothing fun _ => rfl,
      .tells_nothing fun _ => rfl⟩
  have hdropped := hc.goes hgoes
  exact ⟨hdropped.truthful, hdropped.delivered, hdropped.record, hdropped.answers⟩

/-- **What the window shows follows what the hub says**, over every steady step. -/
theorem Copies.step {s' : System} {e : Event} (hc : Copies s) (hok : Steady s e)
    (hstep : step s e = some s') : Copies s' := by
  cases e with
  | turn edits ending =>
    obtain ⟨-, ⟨rfl⟩⟩ := ite_none_left_eq_some.mp hstep
    exact hc.turn edits ending
  | flush =>
    obtain ⟨-, ⟨rfl⟩⟩ := ite_none_left_eq_some.mp hstep
    obtain ⟨hconflicts, -⟩ := Bool.and_eq_true_iff.mp hok
    refine hc.goes (.flush fun i hi => ?_)
    exact beq_iff_eq.mp (all_eq_true.mp hconflicts i hi)
  | drop =>
    obtain ⟨-, ⟨rfl⟩⟩ := ite_none_left_eq_some.mp hstep
    exact hc.drop
  | deliver =>
    obtain ⟨m, hm, rfl⟩ := map_eq_some_iff.mp hstep
    exact hc.receive hm
  | adopt =>
    cases hstep
    exact hc.adopt
  | refresh =>
    obtain ⟨-, ⟨rfl⟩⟩ := ite_none_right_eq_some.mp hstep
    exact hc.asks .refresh s.adopting
  | answer i =>
    obtain ⟨read, -, hstep⟩ := bind_eq_some_iff.mp hstep
    obtain ⟨-, ⟨rfl⟩⟩ := ite_none_left_eq_some.mp hstep
    exact hc.answer
  | fail i =>
    obtain ⟨read, -, hstep⟩ := bind_eq_some_iff.mp hstep
    obtain ⟨-, ⟨rfl⟩⟩ := ite_none_left_eq_some.mp hstep
    refine ⟨hc.truthful, hc.delivered, hc.record, fun read' hread' => ?_⟩
    obtain hread' | rfl := mem_or_eq_of_mem_set hread'
    · exact hc.answers read' hread'
    · exact fun _ _ h => nomatch h
  | take i wanted =>
    obtain ⟨read, hread, hstep⟩ := bind_eq_some_iff.mp hstep
    obtain ⟨body, hbody, rfl⟩ := map_eq_some_iff.mp hstep
    refine hc.take hread hbody fun htaken => ?_
    simpa [Steady, steady, hread, hbody, htaken] using hok
  | dismiss =>
    cases hstep
    exact ⟨hc.truthful, hc.delivered, fun _ h => (nomatch h), hc.answers⟩

end copies

/-! ### What is left to say -/

section told

variable {s s' : System} {e : Event}

/-- What is known of the upload's own state is what was said, and there is a flush to come for
whatever is not. -/
structure Told (s : System) : Prop where
  said : ∀ own, s.hub.said = some own → own.1 = s.heard.own
  pending : s.dropped = false → s.hub.dirtyItems ≠ [] ∨ s.hub.uploadState ≠ s.heard.own ∨
    s.heard.asked = true → s.hub.flushes = true

theorem Told.start (h : Start s) : Told s where
  said := h.said
  pending _ hpending := by
    rw [h.asked] at hpending
    obtain hdirty | hown | hasked := hpending
    · exact h.pending (.inl hdirty)
    · exact h.pending (.inr hown)
    · cases hasked

theorem edit_said (e : Edit) (u : Upload) :
    (e.apply u).said = u.said ∧ (e.apply u).flushes = u.flushes := by
  have hset : ∀ i state, (u.setState i state).said = u.said ∧
      (u.setState i state).flushes = u.flushes := by
    intro i state
    unfold Upload.setState
    dsimp only
    split
    · exact ⟨rfl, rfl⟩
    · split <;> exact ⟨rfl, rfl⟩
  cases e with
  | setState i state => exact hset i state
  | conflictFound i => exact hset i .conflict
  | addAcked i delta =>
    simp only [Edit.apply, Upload.addAcked]
    split <;> exact ⟨rfl, rfl⟩
  | resize | busy | source | reason | again => exact ⟨rfl, rfl⟩

theorem edits_said (edits : List Edit) (u : Upload) :
    (edits.foldl Edit.apply u).said = u.said ∧ (edits.foldl Edit.apply u).flushes = u.flushes := by
  induction edits generalizing u with
  | nil => exact ⟨rfl, rfl⟩
  | cons e edits ih =>
    obtain ⟨hsaid, hflushes⟩ := ih (e.apply u)
    exact ⟨hsaid.trans (edit_said e u).1, hflushes.trans (edit_said e u).2⟩

theorem Told.turn (ht : Told s) (hthere : s.dropped = false) (edits : List Edit) {ending : Ending}
    (hok : noted s (s.edited edits) ending = true) : Told (s.turn edits ending) := by
  obtain ⟨hsaid, hflushes⟩ := edits_said edits s.hub
  have hsaid' : ∀ own, (s.edited edits).said = some own → own.1 = s.heard.own :=
    fun own h => ht.said own (hsaid.symm.trans h)
  have hasked : s.heard.asked = true → (s.edited edits).flushes = true :=
    fun h => hflushes.trans (ht.pending hthere (.inr (.inr h)))
  cases ending with
  | settles => exact ⟨hsaid', fun _ _ => rfl⟩
  | nothing =>
    refine ⟨hsaid', fun _ hpending => ?_⟩
    simp only [noted, Bool.or_eq_true, Bool.and_eq_true, beq_iff_eq] at hok
    obtain hok | ⟨hdirty, hown⟩ := hok
    · exact hok
    · obtain hne | hne | h := hpending
      · exact absurd hdirty hne
      · exact absurd hown hne
      · exact hasked h
  | states =>
    have howns : (s.heard.after (s.edited edits).sayState.2).own = (s.edited edits).uploadState :=
      after_sayState hsaid'
    constructor
    · intro own h
      change (s.edited edits).sayState.1.said = some own at h
      rw [Upload.sayState_fst] at h
      cases h
      exact howns.symm
    · intro _ hpending
      change (s.edited edits).sayState.1.dirtyItems ≠ [] ∨
        (s.edited edits).sayState.1.uploadState ≠ _ ∨ _ at hpending
      change (s.edited edits).sayState.1.flushes = true
      rw [Upload.sayState_fst] at hpending ⊢
      simp only [noted, Bool.or_eq_true, beq_iff_eq] at hok
      obtain hok | hdirty := hok
      · exact hok
      · obtain hne | hne | h := hpending
        · exact absurd hdirty hne
        · exact absurd howns.symm hne
        · refine hasked ?_
          by_contra hnot
          have hfalse : (s.heard.after (s.edited edits).sayState.2).asked = false :=
            asked_sayState fun _ => Bool.eq_false_iff.mpr hnot
          cases hfalse.symm.trans h

theorem Told.flush (ht : Told s)
    (hok : s.hub.said = some s.hub.own → s.heard.asked = false) : Told (s.tell s.hub.flush) := by
  have hheard : s.heard.after s.hub.flush.2 = s.heard.after s.hub.sayState.2 := after_flush
  have hown : (s.heard.after s.hub.flush.2).own = s.hub.uploadState := by
    rw [hheard]
    exact after_sayState ht.said
  have hasked : (s.heard.after s.hub.flush.2).asked = false := by
    rw [hheard]
    exact asked_sayState hok
  constructor
  · intro own h
    change s.hub.flush.1.said = some own at h
    rw [Upload.flush_fst] at h
    cases h
    exact hown.symm
  · intro _ hpending
    change s.hub.flush.1.dirtyItems ≠ [] ∨ s.hub.flush.1.uploadState ≠ _ ∨ _ at hpending
    rw [Upload.flush_fst] at hpending
    obtain hne | hne | h := hpending
    · exact absurd rfl hne
    · exact absurd hown.symm hne
    · exact nomatch hasked.symm.trans h

theorem adopt_hub : s.adopt.hub = s.hub ∧ s.adopt.heard = s.heard ∧ s.adopt.dropped = s.dropped ∧
    s.adopt.log = s.log ∧ s.adopt.record = s.record ∧ s.adopt.delivered = s.delivered := by
  unfold System.adopt
  split <;> exact ⟨rfl, rfl, rfl, rfl, rfl, rfl⟩

theorem receive_hub (m : Message) : (s.receive m).hub = s.hub ∧ (s.receive m).heard = s.heard ∧
    (s.receive m).dropped = s.dropped := by
  unfold System.receive
  dsimp only
  split
  · exact ⟨rfl, rfl, rfl⟩
  · split
    · obtain ⟨hhub, hheard, hdropped, -⟩ :=
        adopt_hub (s := { s with delivered := s.delivered + 1 })
      exact ⟨hhub, hheard, hdropped⟩
    · exact ⟨rfl, rfl, rfl⟩

theorem take_hub (i : ℕ) (kind : ReadKind) (body : Option (ℕ × Description)) (wanted : Bool) :
    (s.take i kind body wanted).hub = s.hub ∧ (s.take i kind body wanted).heard = s.heard ∧
      (s.take i kind body wanted).dropped = s.dropped := by
  cases kind with
  | adopt => exact ⟨rfl, rfl, rfl⟩
  | refresh => cases wanted <;> exact ⟨rfl, rfl, rfl⟩

theorem Told.window (ht : Told s)
    (hsame : s'.hub = s.hub ∧ s'.heard = s.heard ∧ s'.dropped = s.dropped) : Told s' := by
  obtain ⟨hhub, hheard, hdropped⟩ := hsame
  constructor
  · rw [hhub, hheard]
    exact ht.said
  · rw [hhub, hheard, hdropped]
    exact ht.pending

/-- **Whatever is left to say will be said**, over every steady step. -/
theorem Told.step (ht : Told s) (hok : Steady s e) (hstep : step s e = some s') : Told s' := by
  cases e with
  | turn edits ending =>
    obtain ⟨hthere, ⟨rfl⟩⟩ := ite_none_left_eq_some.mp hstep
    exact ht.turn (Bool.eq_false_iff.mpr hthere) edits hok
  | flush =>
    obtain ⟨-, ⟨rfl⟩⟩ := ite_none_left_eq_some.mp hstep
    obtain ⟨-, hasked⟩ := Bool.and_eq_true_iff.mp hok
    refine ht.flush fun hsaid => ?_
    simpa [hsaid] using hasked
  | drop =>
    obtain ⟨-, ⟨rfl⟩⟩ := ite_none_left_eq_some.mp hstep
    exact ⟨ht.said, nofun⟩
  | deliver =>
    obtain ⟨m, -, rfl⟩ := map_eq_some_iff.mp hstep
    exact ht.window (receive_hub m)
  | adopt =>
    cases hstep
    obtain ⟨hhub, hheard, hdropped, -⟩ := adopt_hub (s := s)
    exact ht.window ⟨hhub, hheard, hdropped⟩
  | refresh =>
    obtain ⟨-, ⟨rfl⟩⟩ := ite_none_right_eq_some.mp hstep
    exact ht.window ⟨rfl, rfl, rfl⟩
  | answer i =>
    obtain ⟨read, -, hstep⟩ := bind_eq_some_iff.mp hstep
    obtain ⟨-, ⟨rfl⟩⟩ := ite_none_left_eq_some.mp hstep
    refine ⟨ht.said, fun hthere hpending => ?_⟩
    obtain hdirty | hown | hasked := hpending
    · exact ht.pending hthere (.inl hdirty)
    · exact ht.pending hthere (.inr (.inl hown))
    · simp only [System.answer, Bool.or_eq_true, decide_eq_true_eq] at hasked
      obtain hasked | ⟨-, hown⟩ := hasked
      · exact ht.pending hthere (.inr (.inr hasked))
      · exact ht.pending hthere (.inr (.inl hown))
  | fail i =>
    obtain ⟨read, -, hstep⟩ := bind_eq_some_iff.mp hstep
    obtain ⟨-, ⟨rfl⟩⟩ := ite_none_left_eq_some.mp hstep
    exact ht.window ⟨rfl, rfl, rfl⟩
  | take i wanted =>
    obtain ⟨read, -, hstep⟩ := bind_eq_some_iff.mp hstep
    obtain ⟨body, -, rfl⟩ := map_eq_some_iff.mp hstep
    exact ht.window (take_hub i read.kind body wanted)
  | dismiss =>
    cases hstep
    exact ht.window ⟨rfl, rfl, rfl⟩

end told

/-! ### A discarded upload -/

section gone

variable {s s' : System} {e : Event}

/-- The message that an upload was discarded is the last, and whatever a window shows of it until then
was said before. -/
structure Gone (s : System) : Prop where
  last : s.dropped = true → s.log.getLast? = some .discarded
  record : s.dropped = true → ∀ r, s.record = some r → s.delivered < s.log.length
  answers : s.dropped = true → ∀ read ∈ s.reads, ∀ p body, read.answer = some (some (p, body)) →
    p < s.log.length

theorem Gone.of_there (h : s.dropped = false) : Gone s where
  last hdropped := nomatch h.symm.trans hdropped
  record hdropped := nomatch h.symm.trans hdropped
  answers hdropped := nomatch h.symm.trans hdropped

theorem Gone.drop (hc : Copies s) :
    Gone { s with dropped := true, log := s.log ++ [.discarded] } where
  last _ := getLast?_concat
  record _ _ _ := by
    rw [length_append]
    exact Nat.lt_succ_of_le hc.delivered
  answers _ read hread p body hbody := by
    rw [length_append]
    exact Nat.lt_succ_of_le (hc.answers read hread p body hbody).1

theorem Gone.asks (hg : Gone s) (kind : ReadKind) (adopting : Bool) :
    Gone { s with adopting, reads := s.reads ++ [⟨kind, none⟩] } where
  last := hg.last
  record := hg.record
  answers hdropped read hread := by
    obtain hread | hread := mem_append.mp hread
    · exact hg.answers hdropped read hread
    · obtain rfl := mem_singleton.mp hread
      exact fun _ _ h => nomatch h

theorem Gone.adopt (hg : Gone s) : Gone s.adopt := by
  unfold System.adopt
  split
  · exact hg
  · exact hg.asks .adopt true

theorem Gone.receive (hg : Gone s) (hm : s.log[s.delivered]? = some m) : Gone (s.receive m) := by
  unfold System.receive
  cases hr : s.record with
  | some r =>
    refine ⟨hg.last, fun hdropped r' hr' => ?_, hg.answers⟩
    -- It was not the last message, for that would have dismissed the record.
    obtain ⟨hlt, hget⟩ := List.getElem?_eq_some_iff.mp hm
    have hlast := hg.last hdropped
    rw [getLast?_eq_getElem?] at hlast
    refine Nat.lt_of_le_of_ne hlt fun heq => ?_
    change s.delivered + 1 = s.log.length at heq
    rw [← heq, Nat.add_sub_cancel, hm] at hlast
    cases hlast
    cases hr'
  | none =>
    have hnext : Gone { s with delivered := s.delivered + 1 } :=
      ⟨hg.last, fun _ r hr' => (nomatch hr.symm.trans hr'), hg.answers⟩
    dsimp only
    split
    · exact hr ▸ hnext.adopt
    · exact hr ▸ hnext

theorem Gone.answered {h : Heard} (hg : Gone s) (hbody : s.dropped = true → body = none) :
    Gone { s with reads := s.reads.set i { read with answer := some body }, heard := h } where
  last := hg.last
  record := hg.record
  answers hdropped read' hread' p d hanswer := by
    obtain hread' | rfl := mem_or_eq_of_mem_set hread'
    · exact hg.answers hdropped read' hread' p d hanswer
    · rw [hbody hdropped] at hanswer
      cases hanswer

theorem Gone.take {wanted : Bool}
    (hg : Gone s) (hread : s.reads[i]? = some read) (hbody : read.answer = some body)
    (hfresh : taken s wanted read.kind = true → fresh s body = true) :
    Gone (s.take i read.kind body wanted) := by
  have hanswers : s.dropped = true → ∀ read ∈ s.reads.eraseIdx i, ∀ p body,
      read.answer = some (some (p, body)) → p < s.log.length :=
    fun hdropped read hmem => hg.answers hdropped read (mem_of_mem_eraseIdx hmem)
  cases hkind : read.kind with
  | adopt =>
    refine ⟨hg.last, fun hdropped r hr => ?_, hanswers⟩
    obtain hr | ⟨hnone, hr⟩ := or_eq_some_iff.mp hr
    · exact hg.record hdropped r hr
    · obtain ⟨⟨p, d⟩, rfl, -⟩ := map_eq_some_iff.mp hr
      have htaken : taken s wanted read.kind = true := by
        rw [hkind]
        exact isNone_iff_eq_none.mpr hnone
      exact Nat.lt_of_le_of_lt (of_decide_eq_true (hfresh htaken))
        (hg.answers hdropped read (mem_of_getElem? hread) p d hbody)
  | refresh =>
    cases wanted with
    | false => exact ⟨hg.last, hg.record, hanswers⟩
    | true =>
      refine ⟨hg.last, fun hdropped r hr => ?_, hanswers⟩
      obtain ⟨old, hold, -⟩ := map_eq_some_iff.mp hr
      exact hg.record hdropped old hold

theorem Gone.step (hg : Gone s) (hc : Copies s) (hok : Steady s e) (hstep : step s e = some s') :
    Gone s' := by
  cases e with
  | turn edits ending =>
    obtain ⟨hthere, ⟨rfl⟩⟩ := ite_none_left_eq_some.mp hstep
    refine .of_there ?_
    cases ending <;> exact Bool.eq_false_iff.mpr hthere
  | flush =>
    obtain ⟨hthere, ⟨rfl⟩⟩ := ite_none_left_eq_some.mp hstep
    rw [Bool.or_eq_true, not_or] at hthere
    exact .of_there (Bool.eq_false_iff.mpr hthere.1)
  | drop =>
    obtain ⟨-, ⟨rfl⟩⟩ := ite_none_left_eq_some.mp hstep
    exact .drop hc
  | deliver =>
    obtain ⟨m, hm, rfl⟩ := map_eq_some_iff.mp hstep
    exact hg.receive hm
  | adopt =>
    cases hstep
    exact hg.adopt
  | refresh =>
    obtain ⟨-, ⟨rfl⟩⟩ := ite_none_right_eq_some.mp hstep
    exact hg.asks .refresh s.adopting
  | answer i =>
    obtain ⟨read, -, hstep⟩ := bind_eq_some_iff.mp hstep
    obtain ⟨-, ⟨rfl⟩⟩ := ite_none_left_eq_some.mp hstep
    exact hg.answered fun hdropped => if_pos hdropped
  | fail i =>
    obtain ⟨read, -, hstep⟩ := bind_eq_some_iff.mp hstep
    obtain ⟨-, ⟨rfl⟩⟩ := ite_none_left_eq_some.mp hstep
    exact hg.answered fun _ => rfl
  | take i wanted =>
    obtain ⟨read, hread, hstep⟩ := bind_eq_some_iff.mp hstep
    obtain ⟨body, hbody, rfl⟩ := map_eq_some_iff.mp hstep
    refine hg.take hread hbody fun htaken => ?_
    simpa [Steady, steady, hread, hbody, htaken] using hok
  | dismiss =>
    cases hstep
    exact ⟨hg.last, fun _ _ h => (nomatch h), hg.answers⟩

end gone

/-! ### The run -/

/-- **A window at rest shows what the hub has**, in every run whose steps all meet the condition. -/
theorem view_converges (s₀ s : System) (h₀ : Start s₀) (h : Run step Steady s₀ s) (hq : Quiet s)
    (r : Record) (hr : s.record = some r) : Shows s r := by
  obtain ⟨hc, ht, hg⟩ : Copies s ∧ Told s ∧ Gone s := by
    refine h.invariant (I := fun s => Copies s ∧ Told s ∧ Gone s)
      ⟨.start h₀, .start h₀, .of_there h₀.there⟩ ?_
    rintro s e s' ⟨hc, ht, hg⟩ hok hn
    exact ⟨hc.step hok hn, ht.step hok hn, hg.step hc hok hn⟩
  have hthere : s.dropped = false := by
    refine Bool.eq_false_iff.mpr fun hdropped => ?_
    exact absurd hq.delivered (Nat.ne_of_lt (hg.record hdropped r hr))
  have hrest : ¬(s.hub.dirtyItems ≠ [] ∨ s.hub.uploadState ≠ s.heard.own ∨
      s.heard.asked = true) := by
    intro hpending
    exact nomatch (hq.flushed hthere).symm.trans (ht.pending hthere hpending)
  obtain ⟨hdirty, hown, hasked⟩ := not_or.mp hrest |>.imp id not_or.mp
  have hnil : s.hub.dirtyItems = [] := not_not.mp hdirty
  have hclean : ∀ i, i ∉ s.hub.dirtyItems := fun i hi => by
    rw [hnil] at hi
    exact nomatch hi
  have hlength : s.log.length ≤ s.delivered := Nat.le_of_eq hq.delivered.symm
  obtain ⟨hitems, hstate⟩ := hc.record r hr
  refine ⟨hthere, ?_, fun i => hitems.states.eq hlength (hclean i), fun i hkind => ?_, ?_⟩
  · exact (hstate.eq hlength (k := ()) hasked).trans (not_not.mp hown).symm
  · exact hitems.acked.eq hlength (not_or.mpr ⟨not_not.mpr hkind, hclean i⟩)
  · exact hitems.totals.eq hlength (k := ()) hdirty

/-- An upload of one file of 10 bytes, that a window does not show yet. -/
def oneFile : System where
  hub :=
    { kind := fun _ => .file
      items := fun _ => ⟨.queued, 0, 10⟩
      totals := ⟨1, 10, 0, fun state => if state = .queued then 1 else 0⟩
      folderStates := fun _ => 0
      source := some 0
      busy := 0
      reason := none
      dirtyItems := []
      conflicts := []
      doneSaid := false
      said := some (.running, none)
      flushes := false }
  dropped := false
  log := []
  delivered := 0
  record := none
  adopting := false
  reads := []
  heard := ⟨.running, false⟩

theorem oneFile_start : Start oneFile where
  there := rfl
  log := rfl
  delivered := rfl
  reads := rfl
  asked := rfl
  said own h := by
    cases h
    rfl
  pending h := absurd h (by decide +kernel)
  record _ h := nomatch h

/-- Its window hears of the file, reads the upload, and then hears of 5 bytes. -/
theorem view_after_one_read : ∃ s r, Run step Steady oneFile s ∧ Quiet s ∧ s.record = some r ∧
    (r.items 0).acked = 5 ∧ Shows s r := by
  have hrun : Run step Steady oneFile _ := .get [.turn [.setState 0 .sending] .settles, .flush,
    .deliver, .answer 0, .take 0 false, .turn [.addAcked 0 5] .settles, .flush, .deliver]
    (by decide +kernel) (by decide +kernel)
  have hshows := view_converges oneFile _ oneFile_start hrun
    ⟨fun _ => by decide +kernel, by decide +kernel, by decide +kernel⟩
  exact ⟨_, _, hrun, ⟨fun _ => by decide +kernel, by decide +kernel, by decide +kernel⟩,
    (some_get (by decide +kernel)).symm, by decide +kernel, hshows _ (some_get _).symm⟩

/-- **A window does not come to show what the hub has**: its read is answered, the message about the
5 bytes reaches it before the answer does, and is about an upload it does not show yet. -/
theorem view_stays_behind : ¬∀ s₀ s, Start s₀ → Run step free s₀ s → Quiet s →
    ∀ r, s.record = some r → Shows s r := by
  intro h
  have hrun : Run step free oneFile _ := .get_free [.turn [.setState 0 .sending] .settles, .flush,
    .deliver, .answer 0, .turn [.addAcked 0 5] .settles, .flush, .deliver, .take 0 false]
    (by decide +kernel)
  have hshows := h oneFile _ oneFile_start hrun
    ⟨fun _ => by decide +kernel, by decide +kernel, by decide +kernel⟩ _
    (some_get (by decide +kernel)).symm
  exact absurd (hshows.acked 0 (by decide +kernel)) (by decide +kernel)

end Lasterm.Web.UploadView
