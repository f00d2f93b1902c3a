import Lasterm.Hub.Prompts

/-!
# The four tables of a prompt

A prompt is in its context's set, in `promptIndex`, in `pendingPrompts` and in flight, or
in none of the four; and its promise is settled when it leaves them.

One thing does break it: `openContext` puts a new context in the map whatever is there, and
the prompts of an open context it replaces are in no set from then on.  The connections, which
alone open a context under an id of theirs, ask for it with `_getOrOpenSessionPromptContext`,
and are given the open one.

## Main definitions

* `Tables` — the four agree; `Sound` — the invariant.

## Main results

* `Sound.next` — the step lemma; `tables_agree` — every run that opens no open id.
* `reopened_is_lost` — one that does.
-/

open Transition List Option OrderedMap

namespace Lasterm.Hub.Prompt

namespace Prompts

variable {ν : Type} {s s' : Prompts ν} {p q c d route : String} {x : PromptContext}

/-- The prompts whose promise was settled. -/
def settledIds (s : Prompts ν) : List String := s.settled.map Prod.fst

/-- **The invariant of the tables.** -/
structure Tables (s : Prompts ν) : Prop where
  /-- The contexts' sets are what `promptIndex` says. -/
  sets : ∀ p c, (∃ x, s.promptContexts.get c = some x ∧ p ∈ x.prompts) ↔
    s.promptIndex.get p = some c
  pending : ∀ p, (s.pendingPrompts.get p).map (fun v => (v.contextId, v.ownerAcqId)) =
    (s.promptIndex.get p).map fun c => (c, c)
  inFlight : ∀ p, (s.inFlight.get p).map InFlightPrompt.contextId = s.promptIndex.get p
  nonempty : s.promptContexts.get "" = none
  once : s.settledIds.Nodup
  /-- A prompt that was asked is settled or still under its context. -/
  asked : ∀ p c, (p, c) ∈ s.asked → p ∈ s.settledIds ∨ s.promptIndex.get p = some c
  tracked : ∀ p c, s.promptIndex.get p = some c → (p, c) ∈ s.asked ∧ p ∉ s.settledIds
  known : ∀ p, p ∈ s.settledIds → p ∈ s.asked.map Prod.fst
  timers : ∀ p, p ∈ s.timers → ∃ f, s.inFlight.get p = some f ∧ f.timer.isSome = true

theorem tables_empty (w : World) : Tables (empty w : Prompts ν) where
  sets := by simp [empty]
  pending := by simp [empty]
  inFlight := by simp [empty]
  nonempty := rfl
  once := nodup_nil
  asked := by simp [empty]
  tracked := by simp [empty]
  known := by simp [empty, settledIds]
  timers := by simp [empty]

theorem Tables.of_eq (h : Tables s) (hcontexts : s'.promptContexts = s.promptContexts)
    (hindex : s'.promptIndex = s.promptIndex) (hpending : s'.pendingPrompts = s.pendingPrompts)
    (hinFlight : s'.inFlight = s.inFlight) (htimers : s'.timers = s.timers)
    (hasked : s'.asked = s.asked) (hsettled : s'.settled = s.settled) : Tables s' := by
  obtain ⟨sets, pending, inFlight, nonempty, once, asked, tracked, known, timers⟩ := h
  constructor
  all_goals simp only [settledIds, hcontexts, hindex, hpending, hinFlight, htimers, hasked,
    hsettled]
  · exact sets
  · exact pending
  · exact inFlight
  · exact nonempty
  · exact once
  · exact asked
  · exact tracked
  · exact known
  · exact timers

theorem Tables.send (h : Tables s) (clientId : String) (msg : Msg ν) :
    Tables (s.send clientId msg) :=
  h.of_eq rfl rfl rfl rfl rfl rfl rfl

theorem Tables.context_of_index (h : Tables s) (hp : s.promptIndex.get p = some c) :
    ∃ x, s.promptContexts.get c = some x ∧ p ∈ x.prompts ∧ c ≠ "" := by
  obtain ⟨x, hx, hmem⟩ := (h.sets p c).mpr hp
  refine ⟨x, hx, hmem, ?_⟩
  rintro rfl
  exact absurd (hx.symm.trans h.nonempty) nofun

theorem Tables.inFlight_of_index (h : Tables s) (hp : s.promptIndex.get p = some c) :
    ∃ f, s.inFlight.get p = some f ∧ f.contextId = c :=
  map_eq_some_iff.mp ((h.inFlight p).trans hp)

theorem Tables.setContext (h : Tables s) (hx : s.promptContexts.get c = some x)
    {x' : PromptContext} (hprompts : x'.prompts = x.prompts) :
    Tables { s with promptContexts := s.promptContexts.set c x' } := by
  have hc : c ≠ "" := by
    rintro rfl
    exact absurd (hx.symm.trans h.nonempty) nofun
  refine { h with sets := ?_, nonempty := ?_ }
  · intro q d
    rw [← h.sets q d]
    simp only [get_set]
    split
    · next hd =>
      subst hd
      simp [hx, hprompts]
    · exact Iff.rfl
  · simp only [get_set_of_ne _ (Ne.symm hc)]
    exact h.nonempty

/-! ### One prompt leaves the tables -/

theorem promptContexts_clearPrompt (hp : s.promptIndex.get p = some c) (hc : c ≠ "")
    (hx : s.promptContexts.get c = some x) : (s.clearPrompt p).promptContexts =
      s.promptContexts.set c { x with prompts := x.prompts.delete p } := by
  have htruthy : truthy (some c) = some c := by simp [truthy, Option.filter, hc]
  simp only [clearPrompt, hp, htruthy, bind_some, hx]

theorem Tables.timers_clearPrompt (h : Tables s) (hq : q ∈ (s.clearPrompt p).timers) :
    q ∈ s.timers ∧ q ≠ p := by
  by_cases harmed : ((s.inFlight.get p).bind InFlightPrompt.timer).isSome = true
  · have heq : (s.clearPrompt p).timers = s.timers.delete p := if_pos harmed
    rw [heq] at hq
    exact (OrderedSet.mem_delete ..).mp hq
  · have heq : (s.clearPrompt p).timers = s.timers := if_neg harmed
    rw [heq] at hq
    refine ⟨hq, ?_⟩
    -- an armed timer is that of a prompt in flight, which says so
    rintro rfl
    obtain ⟨f, hf, htimer⟩ := h.timers q hq
    simp [hf, htimer] at harmed

/-- **A prompt leaves all four tables at once, and its promise is settled.** -/
theorem Tables.settle (h : Tables s) (hp : s.promptIndex.get p = some c) (value : Option ν) :
    Tables ((s.clearPrompt p).resolve p value) := by
  obtain ⟨x, hx, hmem, hc⟩ := h.context_of_index hp
  have hcontexts := promptContexts_clearPrompt hp hc hx
  have hids : ((s.clearPrompt p).resolve p value).settledIds = s.settledIds ++ [p] := by
    simp [settledIds, resolve, clearPrompt]
  obtain ⟨hasked, hnew⟩ := h.tracked p c hp
  constructor
  · intro q d
    change (∃ y, (s.clearPrompt p).promptContexts.get d = some y ∧ q ∈ y.prompts) ↔
      (s.promptIndex.delete p).get q = some d
    rw [hcontexts, get_delete]
    by_cases hd : d = c
    · subst hd
      have hq := h.sets q d
      rw [hx] at hq
      by_cases hqp : q = p
      · simp [hqp]
      · simpa [hqp] using hq
    · rw [get_set_of_ne _ hd, h.sets q d]
      split
      · next hqp =>
        rw [hqp, hp]
        simp [Ne.symm hd]
      · exact Iff.rfl
  · intro q
    change ((s.pendingPrompts.delete p).get q).map _ = ((s.promptIndex.delete p).get q).map _
    rw [get_delete, get_delete]
    split
    · rfl
    · exact h.pending q
  · intro q
    change ((s.inFlight.delete p).get q).map _ = (s.promptIndex.delete p).get q
    rw [get_delete, get_delete]
    split
    · rfl
    · exact h.inFlight q
  · change (s.clearPrompt p).promptContexts.get "" = none
    rw [hcontexts, get_set_of_ne _ (Ne.symm hc)]
    exact h.nonempty
  · rw [hids]
    refine nodup_append.mpr ⟨h.once, nodup_singleton p, ?_⟩
    intro a ha b hb hab
    obtain rfl := mem_singleton.mp hb
    exact hnew (hab ▸ ha)
  · intro q d hqd
    change _ ∨ (s.promptIndex.delete p).get q = some d
    rw [hids, get_delete]
    by_cases hqp : q = p
    · exact .inl (by simp [hqp])
    · rw [if_neg hqp]
      exact (h.asked q d hqd).imp (mem_append_left _) id
  · intro q d hqd
    change (s.promptIndex.delete p).get q = some d at hqd
    rw [get_delete] at hqd
    split at hqd
    · exact absurd hqd nofun
    · next hqp =>
      obtain ⟨hqasked, hqnew⟩ := h.tracked q d hqd
      rw [hids]
      exact ⟨hqasked, by simp [hqnew, hqp]⟩
  · intro q hq
    rw [hids] at hq
    obtain hq | hq := mem_append.mp hq
    · exact h.known q hq
    · obtain rfl := mem_singleton.mp hq
      exact mem_map_of_mem hasked
  · intro q hq
    obtain ⟨hqt, hqp⟩ := h.timers_clearPrompt hq
    obtain ⟨f, hf, htimer⟩ := h.timers q hqt
    exact ⟨f, (get_delete_of_ne _ hqp).trans hf, htimer⟩

/-! ### A context is cleared -/

theorem Tables.cancelPrompt (h : Tables s) (hp : s.promptIndex.get p = some c) (route : String)
    (withSend : Bool) : Tables (s.cancelPrompt route withSend p) := by
  obtain ⟨f, hf, -⟩ := h.inFlight_of_index hp
  unfold Prompts.cancelPrompt
  rw [hf, isSome_some, if_pos rfl]
  split
  · exact (h.send route _).settle hp none
  · exact h.settle hp none

@[simp] theorem promptIndex_cancelPrompt {withSend : Bool} :
    (s.cancelPrompt route withSend p).promptIndex = s.promptIndex.delete p := by
  unfold cancelPrompt
  cases withSend <;> dsimp only <;> split <;> rfl

theorem promptContexts_cancelPrompt {withSend : Bool} :
    (s.cancelPrompt route withSend p).promptContexts = (s.clearPrompt p).promptContexts := by
  unfold cancelPrompt
  cases withSend <;> dsimp only <;> split <;> rfl

/-- What the loop of `clearContext` has done when it is over. -/
structure Cancelled (c : String) (l : List String) (s s' : Prompts ν) : Prop where
  tables : Tables s'
  index : ∀ q, s'.promptIndex.get q = if q ∈ l then none else s.promptIndex.get q
  others : ∀ d, d ≠ c → s'.promptContexts.get d = s.promptContexts.get d

theorem Tables.cancelAll {l : List String} (h : Tables s) (hl : l.Nodup)
    (hindex : ∀ p ∈ l, s.promptIndex.get p = some c) (route : String) (withSend : Bool) :
    Cancelled c l s (l.foldl (fun s p => s.cancelPrompt route withSend p) s) := by
  induction l generalizing s with
  | nil => exact ⟨h, by simp, fun _ _ => rfl⟩
  | cons p l ih =>
    obtain ⟨hpl, hl⟩ := nodup_cons.mp hl
    have hp := hindex p mem_cons_self
    obtain ⟨x, hx, -, hc⟩ := h.context_of_index hp
    have hrest : ∀ q ∈ l, (s.cancelPrompt route withSend p).promptIndex.get q = some c := by
      intro q hq
      have hqp : q ≠ p := fun heq => hpl (heq ▸ hq)
      rw [promptIndex_cancelPrompt, get_delete_of_ne _ hqp]
      exact hindex q (mem_cons_of_mem p hq)
    obtain ⟨htables, hgone, hothers⟩ := ih (h.cancelPrompt hp route withSend) hl hrest
    refine ⟨htables, ?_, ?_⟩
    · intro q
      rw [foldl_cons, hgone, promptIndex_cancelPrompt, get_delete]
      by_cases hql : q ∈ l
      · simp [hql]
      · by_cases hqp : q = p <;> simp [hql, hqp]
    · intro d hd
      rw [foldl_cons, hothers d hd, promptContexts_cancelPrompt,
        promptContexts_clearPrompt hp hc hx, get_set_of_ne _ hd]

/-- The invariant: the tables, and every context in the map is open. -/
structure Sound (s : Prompts ν) : Prop extends Tables s where
  opened : ∀ c x, s.promptContexts.get c = some x → x.state = .opened

theorem Sound.of_tables (h : Sound s) (htables : Tables s')
    (hcontexts : s'.promptContexts = s.promptContexts) : Sound s' :=
  ⟨htables, by rw [hcontexts]; exact h.opened⟩

/-- The loop of `clearContext` over the prompts of the context it has closed. -/
theorem Sound.cancelled (h : Sound s) (hx : s.promptContexts.get c = some x) (withSend : Bool) :
    let closed := { s with
      promptContexts := s.promptContexts.set c { x with state := .closed } }
    Cancelled c x.prompts.elems closed (x.prompts.elems.foldl
      (fun s p => s.cancelPrompt x.routeClientId withSend p) closed) := by
  intro closed
  have hclosed : Tables closed := h.setContext hx rfl
  refine hclosed.cancelAll x.prompts.nodup ?_ x.routeClientId withSend
  exact fun p hp => (h.sets p c).mp ⟨x, hx, hp⟩

/-- What `clearContext` does to the contexts. -/
theorem Sound.get_clearContext (h : Sound s) (c : String) (withSend : Bool) (d : String) :
    (s.clearContext c withSend).promptContexts.get d =
      if d = c then none else s.promptContexts.get d := by
  unfold clearContext
  split
  · next hnone =>
    split
    · next hd => rw [hd, hnone]
    · rfl
  · next x hx =>
    rw [if_neg (by rw [h.opened c x hx]; exact nofun)]
    have hloop := h.cancelled hx withSend
    rw [get_delete]
    split
    · rfl
    · next hd =>
      rw [hloop.others d hd]
      exact get_set_of_ne _ hd _

theorem Sound.clearContext (h : Sound s) (c : String) (withSend : Bool) :
    Sound (s.clearContext c withSend) := by
  have hget := h.get_clearContext c withSend
  refine ⟨?_, ?_⟩
  · unfold Prompts.clearContext
    split
    · exact h.toTables
    · next x hx =>
      rw [if_neg (by rw [h.opened c x hx]; exact nofun)]
      have hloop := h.cancelled hx withSend
      dsimp only at hloop ⊢
      generalize foldl _ _ _ = u at hloop ⊢
      have htables := hloop.tables
      -- no prompt is left under the context that goes
      have hnone : ∀ p, u.promptIndex.get p ≠ some c := by
        intro p hp
        rw [hloop.index p] at hp
        split at hp
        · exact absurd hp nofun
        · next hmem =>
          obtain ⟨y, hy, hpy⟩ := (h.sets p c).mpr hp
          obtain ⟨rfl⟩ := hx.symm.trans hy
          exact hmem hpy
      refine { htables with sets := ?_, nonempty := ?_ }
      · intro q d
        change (∃ y, (u.promptContexts.delete c).get d = some y ∧ q ∈ y.prompts) ↔
          u.promptIndex.get q = some d
        rw [← htables.sets q d, get_delete]
        split
        · next hd =>
          subst hd
          rw [htables.sets q d]
          simpa using hnone q
        · exact Iff.rfl
      · change (u.promptContexts.delete c).get "" = none
        rw [get_delete]
        split
        · rfl
        · exact htables.nonempty
  · intro d y hy
    rw [hget] at hy
    split at hy
    · exact absurd hy nofun
    · exact h.opened d y hy

/-! ### The other operations -/

-- the epoch changes in the two tables that have it, and the context in neither
theorem Tables.readdress (h : Tables s) (route : String) (hf : s.inFlight.get p = some f) :
    Tables { s with
      inFlight := s.inFlight.set p { f with deliveryEpoch := f.deliveryEpoch + 1 }
      pendingPrompts := match s.pendingPrompts.get p with
        | none => s.pendingPrompts
        | some v => s.pendingPrompts.set p
            { v with clientId := route, deliveryEpoch := f.deliveryEpoch + 1 } } := by
  refine { h with pending := ?_, inFlight := ?_, timers := ?_ }
  · intro q
    rw [← h.pending q]
    cases hv : s.pendingPrompts.get p with
    | none => rfl
    | some v =>
      rw [get_set]
      split
      · next hq => rw [hq, hv]; rfl
      · rfl
  · intro q
    rw [← h.inFlight q]
    rw [get_set]
    split
    · next hq => rw [hq, hf]; rfl
    · rfl
  · intro q hq
    obtain ⟨g, hg, htimer⟩ := h.timers q hq
    rw [get_set]
    split
    · next hqp =>
      subst hqp
      obtain ⟨rfl⟩ := hf.symm.trans hg
      exact ⟨_, rfl, htimer⟩
    · exact ⟨g, hg, htimer⟩

theorem Tables.redeliver (h : Tables s) (old route p : String) :
    Tables (s.redeliver old route p) := by
  unfold Prompts.redeliver
  split
  · exact h
  · next f hf =>
    refine Tables.send ?_ _ _
    split
    · exact (h.readdress route hf).send _ _
    · exact h.readdress route hf

@[simp] theorem promptContexts_redeliver {old : String} :
    (s.redeliver old route p).promptContexts = s.promptContexts := by
  unfold redeliver
  split
  · rfl
  · dsimp only
    split <;> rfl

theorem Sound.redeliverAll (h : Sound s) (old route : String) (l : List String) :
    Sound (l.foldl (fun s p => s.redeliver old route p) s) := by
  induction l generalizing s with
  | nil => exact h
  | cons p l ih =>
    exact ih (h.of_tables (h.toTables.redeliver old route p) promptContexts_redeliver)

theorem Sound.replaceContext (h : Sound s) (hx : s.promptContexts.get c = some x)
    {y : PromptContext} (hprompts : y.prompts = x.prompts) (hopen : y.state = .opened) :
    Sound { s with promptContexts := s.promptContexts.set c y } := by
  refine ⟨h.setContext hx hprompts, ?_⟩
  intro d z hz
  rw [get_set] at hz
  split at hz
  · cases hz
    exact hopen
  · exact h.opened d z hz

theorem Sound.retarget (h : Sound s) (c route : String) : Sound (s.retarget c route) := by
  unfold Prompts.retarget
  split
  · exact h
  · next x hx =>
    have hopen := h.opened c x hx
    rw [if_neg (by rw [hopen]; exact nofun)]
    split
    · exact h
    · have hrouted : Sound { s with
          promptContexts := s.promptContexts.set c { x with routeClientId := route } } :=
        h.replaceContext hx rfl hopen
      exact hrouted.redeliverAll _ _ _

theorem Sound.leaveContext (h : Sound s) (clientId c : String) :
    Sound (s.leaveContext clientId c) := by
  unfold Prompts.leaveContext
  split
  · exact h
  · split
    · exact h
    · split
      · exact h
      · split
        · exact h.clearContext c true
        · split
          · exact h.retarget c _
          · exact h.clearContext c true

theorem Sound.foldl {α : Type} {f : Prompts ν → α → Prompts ν}
    (hf : ∀ s a, Sound s → Sound (f s a)) (l : List α) (h : Sound s) : Sound (l.foldl f s) := by
  induction l generalizing s with
  | nil => exact h
  | cons a l ih => exact ih (hf s a h)

theorem Sound.clientDisconnect (h : Sound s) (clientId : String) :
    Sound (s.clientDisconnect clientId) :=
  h.foldl (fun _ c hs => hs.leaveContext clientId c) _

theorem Sound.clearElevationContextsWhere (h : Sound s) (matched : ElevationPromptOwner → Bool)
    (withSend : Bool) : Sound (s.clearElevationContextsWhere matched withSend) := by
  refine h.foldl ?_ _
  rintro s ⟨c, owner⟩ hs
  dsimp only
  split
  · have hcleared := hs.clearContext c withSend
    exact hcleared.of_tables (hcleared.toTables.of_eq rfl rfl rfl rfl rfl rfl rfl) rfl
  · exact hs

theorem Sound.newContext (h : Sound s) (hc : s.promptContexts.get c = none) (hne : c ≠ "")
    {x : PromptContext} (hprompts : x.prompts = .empty) (hopen : x.state = .opened) :
    Sound { s with promptContexts := s.promptContexts.set c x } := by
  refine ⟨{ h.toTables with sets := ?_, nonempty := ?_ }, ?_⟩
  · intro q d
    rw [← h.sets q d]
    rw [get_set]
    split
    · next hd =>
      subst hd
      simp [hprompts, hc]
    · exact Iff.rfl
  · dsimp only
    rw [get_set_of_ne _ (Ne.symm hne)]
    exact h.nonempty
  · intro d y hy
    rw [get_set] at hy
    split at hy
    · cases hy
      exact hopen
    · exact h.opened d y hy

theorem truthy_ne {v : Option String} {a : String} (h : truthy v = some a) : a ≠ "" := by
  have := (filter_eq_some_iff.mp h).2
  simpa using this

theorem openContext_id_ne (s : Prompts ν) (kind : Kind) (hostId route : String)
    (acqId : Option String) {gid : String} (hgid : gid ≠ "") :
    (s.openContext kind hostId route acqId gid).2 ≠ "" := by
  dsimp only [openContext]
  split
  · cases htruthy : truthy acqId with
    | none => exact hgid
    | some a => exact truthy_ne htruthy
  · exact hgid

theorem Sound.openContext (h : Sound s) {kind : Kind} {hostId route gid : String}
    {acqId : Option String} (hgid : gid ≠ "")
    (hnew : (s.openContext kind hostId route acqId gid).2 ∉ s.promptContexts.keys) :
    Sound (s.openContext kind hostId route acqId gid).1 := by
  have hnone : s.promptContexts.get (s.openContext kind hostId route acqId gid).2 = none := by
    cases hget : s.promptContexts.get (s.openContext kind hostId route acqId gid).2 with
    | none => rfl
    | some x => exact absurd ((s.promptContexts.mem_keys_iff _).mpr ⟨x, hget⟩) hnew
  exact h.newContext hnone (s.openContext_id_ne kind hostId route acqId hgid) rfl rfl

theorem Sound.getOrOpen (h : Sound s) (contextId : Option String) (hostId clientId : String)
    {gid : String} (hgid : s.Generated gid) :
    Sound (s.getOrOpenSessionPromptContext contextId hostId clientId gid).1 := by
  have hopen : (∀ id, contextId = some id → s.promptContexts.get id = none) → ∀ route,
      Sound (s.openContext .session hostId route contextId gid).1 := by
    intro hnone route
    refine h.openContext hgid.1 ?_
    change (truthy contextId).getD gid ∉ _
    cases htruthy : truthy contextId with
    | none => exact hgid.2.1
    | some a =>
      have hid : contextId = some a := (filter_eq_some_iff.mp htruthy).1
      intro hmem
      obtain ⟨x, hx⟩ := (s.promptContexts.mem_keys_iff a).mp hmem
      exact absurd ((hnone a hid).symm.trans hx) nofun
  unfold getOrOpenSessionPromptContext
  dsimp only
  split
  · next =>
    split
    · exact hopen nofun clientId
    · exact h
  · next id =>
    split
    · next x hx =>
      obtain ⟨hx, -⟩ := filter_eq_some_iff.mp hx
      split
      · exact h
      · split
        · exact h.clearContext id false
        · exact h.replaceContext hx rfl (h.opened id x hx)
    · next hfilter =>
      have hnone : s.promptContexts.get id = none := by
        cases hget : s.promptContexts.get id with
        | none => rfl
        | some x => simp [hget, Option.filter, h.opened id x hget] at hfilter
      have hnone : ∀ id', some id = some id' → s.promptContexts.get id' = none := by
        rintro id' ⟨rfl⟩
        exact hnone
      split
      · split
        · exact hopen hnone clientId
        · exact h
      · split
        · exact h
        · split
          · exact h
          · exact hopen hnone _

/-- A new prompt goes into all four tables. -/
theorem Sound.storePrompt (h : Sound s) (hx : s.promptContexts.get c = some x)
    (route : String) (type : PromptType) (payload : ν) (timer : Option ℕ)
    (hp : p ∉ s.asked.map Prod.fst) :
    Sound (s.storePrompt x c route type payload timer p) := by
  have hc : c ≠ "" := by
    rintro rfl
    exact absurd (hx.symm.trans h.nonempty) nofun
  have hindex : s.promptIndex.get p = none := by
    cases hget : s.promptIndex.get p with
    | none => rfl
    | some d => exact absurd (mem_map_of_mem (h.tracked p d hget).1) hp
  have hsettled : p ∉ s.settledIds := fun hmem => hp (h.known p hmem)
  refine ⟨?_, ?_⟩
  · constructor
    · intro q d
      change (∃ y, (s.promptContexts.set c _).get d = some y ∧ q ∈ y.prompts) ↔
        (s.promptIndex.set p c).get q = some d
      rw [get_set, get_set]
      have hq := h.sets q d
      by_cases hd : d = c
      · subst hd
        rw [hx] at hq
        by_cases hqp : q = p
        · simp [hqp]
        · simpa [hqp] using hq
      · rw [if_neg hd, hq]
        by_cases hqp : q = p
        · simp [hqp, hindex, Ne.symm hd]
        · simp [hqp]
    · intro q
      change ((s.pendingPrompts.set p _).get q).map _ = ((s.promptIndex.set p c).get q).map _
      rw [get_set, get_set]
      split
      · rfl
      · exact h.pending q
    · intro q
      change ((s.inFlight.set p _).get q).map _ = (s.promptIndex.set p c).get q
      rw [get_set, get_set]
      split
      · rfl
      · exact h.inFlight q
    · change (s.promptContexts.set c _).get "" = none
      rw [get_set_of_ne _ (Ne.symm hc)]
      exact h.nonempty
    · exact h.once
    · intro q d hqd
      change (q, d) ∈ s.asked ++ [(p, c)] at hqd
      change q ∈ s.settledIds ∨ (s.promptIndex.set p c).get q = some d
      rw [get_set]
      obtain hold | hnew := mem_append.mp hqd
      · have hqp : q ≠ p := by
          rintro rfl
          exact hp (mem_map_of_mem hold)
        rw [if_neg hqp]
        exact h.asked q d hold
      · obtain ⟨rfl, rfl⟩ := Prod.mk.inj (mem_singleton.mp hnew)
        exact .inr (if_pos rfl)
    · intro q d hqd
      change (s.promptIndex.set p c).get q = some d at hqd
      change (q, d) ∈ s.asked ++ [(p, c)] ∧ q ∉ s.settledIds
      rw [get_set] at hqd
      split at hqd
      · next hqp =>
        cases hqd
        subst hqp
        exact ⟨mem_append_right _ (mem_singleton_self _), hsettled⟩
      · obtain ⟨hasked, hnew⟩ := h.tracked q d hqd
        exact ⟨mem_append_left _ hasked, hnew⟩
    · intro q hq
      change q ∈ (s.asked ++ [(p, c)]).map Prod.fst
      rw [map_append]
      exact mem_append_left _ (h.known q hq)
    · intro q hq
      change ∃ f, (s.inFlight.set p _).get q = some f ∧ _
      rw [get_set]
      split
      · next hqp =>
        refine ⟨_, rfl, ?_⟩
        -- the timer of a new prompt is armed only if it was given one
        by_contra hnot
        subst hqp
        have htimers : (s.storePrompt x c route type payload timer q).timers = s.timers :=
          if_neg hnot
        rw [htimers] at hq
        obtain ⟨f, hf, -⟩ := h.timers q hq
        have hget := h.inFlight q
        rw [hf, hindex] at hget
        exact absurd hget nofun
      · next hqp =>
        refine h.timers q ?_
        change q ∈ (if timer.isSome then s.timers.add p else s.timers) at hq
        split at hq
        · exact ((OrderedSet.mem_add ..).mp hq).resolve_left hqp
        · exact hq
  · intro d y hy
    change (s.promptContexts.set c _).get d = some y at hy
    rw [get_set] at hy
    split at hy
    · cases hy
      exact h.opened c x hx
    · exact h.opened d y hy

theorem Sound.settle (h : Sound s) (hp : s.promptIndex.get p = some c) (value : Option ν) :
    Sound ((s.clearPrompt p).resolve p value) := by
  obtain ⟨x, hx, -, hc⟩ := h.context_of_index hp
  refine ⟨h.toTables.settle hp value, ?_⟩
  intro d y hy
  change (s.clearPrompt p).promptContexts.get d = some y at hy
  rw [promptContexts_clearPrompt hp hc hx, get_set] at hy
  split at hy
  · cases hy
    exact h.opened c x hx
  · exact h.opened d y hy

theorem Sound.prompt (h : Sound s) (c : String) (type : PromptType) (payload : ν)
    (timeoutMs : Option (Option ℕ)) (sendFails : Bool) (hp : p ∉ s.asked.map Prod.fst) :
    Sound (s.prompt c type payload timeoutMs p sendFails).1 := by
  unfold Prompts.prompt
  split
  · exact h
  · next x hx =>
    split
    · exact h
    · dsimp only
      split
      · exact h.clearContext c true
      · next route _ =>
        have hstored := h.storePrompt hx route type payload
          (timeoutMs.getD (some promptTimeoutMs)) hp
        have hsent := hstored.of_tables (hstored.toTables.send route (.prompt payload p 1)) rfl
        have hindex : (s.promptIndex.set p c).get p = some c := get_set_self ..
        split
        · exact hsent.settle hindex none
        · exact hsent

theorem Sound.timeout (h : Sound s) (hp : p ∈ s.timers) : Sound (s.timeout p) := by
  obtain ⟨f, hf, -⟩ := h.timers p hp
  have hindex : s.promptIndex.get p = some f.contextId := by
    rw [← h.inFlight p, hf]
    rfl
  have hfired : Sound { s with timers := s.timers.delete p } := by
    refine h.of_tables { h.toTables with timers := ?_ } rfl
    exact fun q hq => h.timers q ((OrderedSet.mem_delete ..).mp hq).1
  exact hfired.settle hindex none

theorem respond_cases (s : Prompts ν) (p clientId : String) (epoch : Option ℕ)
    (value : Option ν) :
    s.respond p clientId epoch value = (s, false) ∨
    ∃ c x f, s.promptIndex.get p = some c ∧ s.promptContexts.get c = some x ∧
      x.state = .opened ∧ s.inFlight.get p = some f ∧ clientId = x.routeClientId ∧
      (∀ e, epoch = some e → e = f.deliveryEpoch) ∧
      s.respond p clientId epoch value = ((s.clearPrompt p).resolve p value, true) := by
  unfold respond
  split
  · exact .inl rfl
  · next c hc =>
    obtain ⟨hc, -⟩ := filter_eq_some_iff.mp hc
    split
    · exact .inl rfl
    · next x hx =>
      split
      · exact .inl rfl
      · next hopen =>
        split
        · exact .inl rfl
        · next f hf =>
          split
          · exact .inl rfl
          · next hroute =>
            split
            · exact .inl rfl
            · next hepoch =>
              have hopen : x.state = .opened := by
                revert hopen
                cases x.state <;> simp
              refine .inr ⟨c, x, f, hc, hx, hopen, hf, not_not.mp hroute, ?_, rfl⟩
              rintro e rfl
              simpa using hepoch

theorem Sound.respond (h : Sound s) (p clientId : String) (epoch : Option ℕ)
    (value : Option ν) : Sound (s.respond p clientId epoch value).1 := by
  obtain heq | ⟨c, x, f, hc, -, -, -, -, -, heq⟩ := s.respond_cases p clientId epoch value
  · rw [heq]
    exact h
  · rw [heq]
    exact h.settle hc value

theorem Sound.clearAll (h : Sound s) (l : List String) (withSend : Bool) :
    Sound (l.foldl (fun s c => s.clearContext c withSend) s) ∧
      ∀ d, (l.foldl (fun s c => s.clearContext c withSend) s).promptContexts.get d =
        if d ∈ l then none else s.promptContexts.get d := by
  induction l generalizing s with
  | nil => exact ⟨h, by simp⟩
  | cons c l ih =>
    obtain ⟨hsound, hget⟩ := ih (h.clearContext c withSend)
    refine ⟨hsound, ?_⟩
    intro d
    rw [foldl_cons, hget, h.get_clearContext]
    by_cases hl : d ∈ l
    · simp [hl]
    · by_cases hd : d = c <;> simp [hl, hd]

theorem Sound.shutdown (h : Sound s) : Sound s.shutdown := by
  obtain ⟨hsound, hget⟩ := h.clearAll s.promptContexts.keys false
  unfold Prompts.shutdown
  dsimp only
  generalize List.foldl (fun s c => s.clearContext c false) s s.promptContexts.keys = u
    at hsound hget ⊢
  have hcontexts : ∀ d, u.promptContexts.get d = none := by
    intro d
    rw [hget]
    split
    · rfl
    · next hd =>
      cases hx : s.promptContexts.get d with
      | none => rfl
      | some x => exact absurd ((s.promptContexts.mem_keys_iff d).mpr ⟨x, hx⟩) hd
  have hindex : ∀ q, u.promptIndex.get q = none := by
    intro q
    cases hq : u.promptIndex.get q with
    | none => rfl
    | some c =>
      obtain ⟨x, hx, -⟩ := hsound.context_of_index hq
      exact absurd ((hcontexts c).symm.trans hx) nofun
  have hpending : u.pendingPrompts.entries = [] := by
    refine eq_nil_iff_forall_not_mem.mpr ?_
    rintro ⟨q, v⟩ hmem
    have hv := (u.pendingPrompts.get_eq_some_iff q v).mpr hmem
    have := hsound.pending q
    rw [hv, hindex] at this
    exact absurd this nofun
  rw [hpending, foldl_nil]
  refine hsound.of_tables { hsound.toTables with pending := ?_ } rfl
  intro q
  rw [hindex]
  rfl

end Prompts

/-- The step does not open a context under an id that is open. -/
def Step.opensNew {ν : Type} (s : Prompts ν) : Step ν → Bool
  | .openContext kind hostId route acqId gid =>
    decide ((s.openContext kind hostId route acqId gid).2 ∉ s.promptContexts.keys)
  | _ => true

namespace Prompts

variable {ν : Type} {s s' : Prompts ν} {w : World}

/-- **The step lemma.** -/
theorem Sound.next {a : Step ν} (h : Sound s) (hnew : a.opensNew s = true) (hn : s.next a = some s') :
    Sound s' := by
  have hframe : ∀ u : Prompts ν, u.promptContexts = s.promptContexts →
      u.promptIndex = s.promptIndex → u.pendingPrompts = s.pendingPrompts →
      u.inFlight = s.inFlight → u.timers = s.timers → u.asked = s.asked →
      u.settled = s.settled → Sound u := by
    intro u h1 h2 h3 h4 h5 h6 h7
    exact h.of_tables (h.toTables.of_eq h1 h2 h3 h4 h5 h6 h7) h1
  cases a with
  | openContext kind hostId route acqId gid =>
    obtain ⟨hgid, ⟨rfl⟩⟩ := ite_none_right_eq_some.mp hn
    exact h.openContext hgid.1 (of_decide_eq_true hnew)
  | getOrOpen contextId hostId clientId gid =>
    obtain ⟨hgid, ⟨rfl⟩⟩ := ite_none_right_eq_some.mp hn
    exact h.getOrOpen contextId hostId clientId hgid
  | prompt contextId type payload timeoutMs gid sendFails =>
    obtain ⟨hgid, ⟨rfl⟩⟩ := ite_none_right_eq_some.mp hn
    exact h.prompt contextId type payload timeoutMs sendFails hgid.2.2
  | timeout p =>
    obtain ⟨hp, ⟨rfl⟩⟩ := ite_none_right_eq_some.mp hn
    exact h.timeout hp
  | respond p clientId epoch value =>
    cases hn
    exact h.respond p clientId epoch value
  | retarget c route =>
    cases hn
    exact h.retarget c route
  | clearContext c withSend =>
    cases hn
    exact h.clearContext c withSend
  | clientDisconnect clientId =>
    cases hn
    exact h.clientDisconnect clientId
  | trackElevationContext | world =>
    cases hn
    exact hframe _ rfl rfl rfl rfl rfl rfl rfl
  | clearElevationContextsForSession _ withSend | clearElevationContextsForChannel _ withSend =>
    cases hn
    exact h.clearElevationContextsWhere _ withSend
  | shutdown =>
    cases hn
    exact h.shutdown

theorem sound_of_run (h : Run next (fun s a => Step.opensNew s a = true) (empty w) s) : Sound s := by
  have hempty : Sound (empty w : Prompts ν) := ⟨tables_empty w, by simp [empty]⟩
  exact h.invariant hempty fun _ _ _ hs hnew hn => hs.next hnew hn

theorem asked_clearContext (s : Prompts ν) (c : String) (withSend : Bool) :
    (s.clearContext c withSend).asked = s.asked := by
  have hone : ∀ (s : Prompts ν) (route p : String),
      (s.cancelPrompt route withSend p).asked = s.asked := by
    intro s route p
    unfold cancelPrompt
    cases withSend <;> dsimp only <;> split <;> rfl
  have hloop : ∀ (l : List String) (route : String) (s : Prompts ν),
      (l.foldl (fun s p => s.cancelPrompt route withSend p) s).asked = s.asked := by
    intro l route
    induction l with
    | nil => exact fun _ => rfl
    | cons p l ih =>
      intro s
      rw [foldl_cons, ih, hone]
  unfold clearContext
  split
  · rfl
  · split
    · rfl
    · exact hloop _ _ _

theorem Sound.settled_of_gone (h : Sound s) {p c : String} (hasked : (p, c) ∈ s.asked)
    (hgone : s.promptContexts.get c = none) : p ∈ s.settledIds := by
  refine (h.asked p c hasked).resolve_right ?_
  intro hindex
  obtain ⟨x, hx, -⟩ := h.context_of_index hindex
  exact absurd (hgone.symm.trans hx) nofun

/-- **The four tables hold the same prompts, and every promise is settled exactly once.**
In every state `s` of a run that opens no context under an id that is open: a prompt is in
its context's set exactly when it is in `promptIndex`, in `pendingPrompts` and in flight,
each with that context; no promise is settled twice; one that is not settled is still in the
tables, under a context in the map; and clearing its context, its timer and an answer that
is accepted each settle it. -/
theorem tables_agree (h : Run next (fun s a => Step.opensNew s a = true) (empty w) s) :
    (∀ p c, ((∃ x, s.promptContexts.get c = some x ∧ p ∈ x.prompts) ↔
        s.promptIndex.get p = some c) ∧
      ((∃ v, s.pendingPrompts.get p = some v ∧ v.contextId = c ∧ v.ownerAcqId = c) ↔
        s.promptIndex.get p = some c) ∧
      ((∃ f, s.inFlight.get p = some f ∧ f.contextId = c) ↔ s.promptIndex.get p = some c)) ∧
    (∀ p, (s.pendingPrompts.get p).isSome = (s.promptIndex.get p).isSome) ∧
    s.settledIds.Nodup ∧
    (∀ p c, (p, c) ∈ s.asked → p ∈ s.settledIds ∨
      s.promptIndex.get p = some c ∧ ∃ x, s.promptContexts.get c = some x) ∧
    (∀ p c withSend, (p, c) ∈ s.asked → p ∈ (s.clearContext c withSend).settledIds) ∧
    (∀ p s', s.next (.timeout p) = some s' → p ∈ s'.settledIds) ∧
    ∀ p clientId epoch value, (s.respond p clientId epoch value).2 = true →
      p ∈ (s.respond p clientId epoch value).1.settledIds := by
  have hs := sound_of_run h
  refine ⟨?_, ?_, hs.once, ?_, ?_, ?_, ?_⟩
  · intro p c
    have hpending := hs.pending p
    have hinFlight := hs.inFlight p
    refine ⟨hs.sets p c, ⟨?_, ?_⟩, ⟨?_, ?_⟩⟩
    · rintro ⟨v, hv, rfl, -⟩
      rw [hv] at hpending
      obtain ⟨d, hd, hpair⟩ := map_eq_some_iff.mp hpending.symm
      rw [hd, (Prod.mk.inj hpair).1]
    · intro hc
      rw [hc] at hpending
      obtain ⟨v, hv, hpair⟩ := map_eq_some_iff.mp hpending
      exact ⟨v, hv, (Prod.mk.inj hpair).1, (Prod.mk.inj hpair).2⟩
    · rintro ⟨f, hf, rfl⟩
      rw [← hinFlight, hf]
      rfl
    · intro hc
      exact hs.inFlight_of_index hc
  · intro p
    have hpending := congrArg isSome (hs.pending p)
    simpa using hpending
  · intro p c hasked
    refine (hs.asked p c hasked).imp id ?_
    intro hindex
    obtain ⟨x, hx, -⟩ := hs.context_of_index hindex
    exact ⟨hindex, x, hx⟩
  · intro p c withSend hasked
    refine (hs.clearContext c withSend).settled_of_gone (c := c) ?_ ?_
    · rw [asked_clearContext]
      exact hasked
    · rw [hs.get_clearContext, if_pos rfl]
  · intro p s' hn
    obtain ⟨-, hs'⟩ := ite_none_right_eq_some.mp hn
    obtain ⟨rfl⟩ := hs'
    simp [settledIds, timeout, resolve]
  · intro p clientId epoch value haccepted
    obtain heq | ⟨c, x, f, -, -, -, -, -, -, heq⟩ := s.respond_cases p clientId epoch value
    · rw [heq] at haccepted
      exact absurd haccepted nofun
    · rw [heq]
      simp [settledIds, resolve]

/-- One window, and nothing else in the hub. -/
def oneWindow : World := ⟨OrderedSet.empty.add "window", .empty, .empty⟩

/-- A connection asks for its context twice, and for a passphrase in between; its context
is cleared. -/
theorem tables_agree_cleared : ∃ s : Prompts String,
    Run next (fun s a => Step.opensNew s a = true) (empty oneWindow) s ∧
    ("p", "acq") ∈ s.asked ∧ "p" ∉ s.settledIds ∧ "p" ∈ (s.clearContext "acq" true).settledIds := by
  have hrun : Run next (fun s a => Step.opensNew s a = true) (empty oneWindow) _ := .get
    [.getOrOpen (some "acq") "host" "window" "g",
      .prompt "acq" .passphrase "Passphrase" (some none) "p" false,
      .getOrOpen (some "acq") "host" "window" "g"] (by decide +kernel) (by decide +kernel)
  exact ⟨_, hrun, by decide +kernel, by decide +kernel,
    (tables_agree hrun).2.2.2.2.1 "p" "acq" true (by decide +kernel)⟩

/-- The same with `openContext` alone: the prompt of the context that is replaced is in
`promptIndex` and in no context's set, and is not settled when the context is cleared, nor
is there a timer for it. -/
theorem reopened_is_lost : ∃ s s' : Prompts String, Run next free (empty oneWindow) s ∧
    s.promptIndex.get "p" = some "acq" ∧
    (s.promptContexts.get "acq").map (fun x => x.prompts.elems) = some [] ∧
    s.next (.clearContext "acq" true) = some s' ∧ ("p", "acq") ∈ s'.asked ∧
    s'.promptContexts.keys = [] ∧ "p" ∉ s'.settledIds ∧ "p" ∉ s'.timers := by
  have hrun : Run next free (empty oneWindow) _ := .get_free
    [.openContext .session "host" "window" (some "acq") "g",
      .prompt "acq" .passphrase "Passphrase" (some none) "p" false,
      .openContext .session "host" "window" (some "acq") "g"] (by decide +kernel)
  exact ⟨_, _, hrun, by decide +kernel, by decide +kernel, rfl, by decide +kernel,
    by decide +kernel, by decide +kernel, by decide +kernel⟩

end Prompts

end Lasterm.Hub.Prompt
