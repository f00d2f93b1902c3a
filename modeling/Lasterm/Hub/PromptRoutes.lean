import Lasterm.Hub.PromptTables

/-!
# Who may answer a prompt

A prompt asks for a secret, or for a decision about one, so only the window it was put to
may answer it: `respond` takes an answer from the route of the prompt's context alone, and,
where the answer echoes a delivery epoch, only for the latest delivery.  A window that goes
is the route of no context afterwards.

## Main results

* `Delivered.next` — the step lemma; `answered_by_route` — every run.
-/

open Transition List OrderedMap Option

namespace Lasterm.Hub.Prompt

namespace Prompts

variable {ν : Type} {s s' s'' : Prompts ν} {p c d : String} {w : World}

/-! ### Deliveries -/

/-- The delivery of a prompt that a message is, if it is one. -/
def deliveryOf (p : String) : String × Msg ν → Option (String × ℕ)
  | (clientId, .prompt _ q epoch) => if q = p then some (clientId, epoch) else none
  | (_, .promptCancel _) => none

/-- The deliveries of a prompt, oldest first. -/
def deliveries (s : Prompts ν) (p : String) : List (String × ℕ) :=
  s.sent.filterMap (deliveryOf p)

/-- **The invariant of the deliveries.** -/
structure Delivered (s : Prompts ν) : Prop where
  latest : ∀ p f, s.inFlight.get p = some f →
    ∃ clientId, (s.deliveries p).getLast? = some (clientId, f.deliveryEpoch)
  increasing : ∀ p f, s.inFlight.get p = some f →
    ((s.deliveries p).map Prod.snd).Pairwise (· < ·)
  bound : ∀ p f, s.inFlight.get p = some f → ∀ e ∈ (s.deliveries p).map Prod.snd,
    e ≤ f.deliveryEpoch
  known : ∀ p f, s.inFlight.get p = some f → p ∈ s.asked.map Prod.fst
  new : ∀ p, p ∉ s.asked.map Prod.fst → s.deliveries p = []

theorem delivered_empty (w : World) : Delivered (empty w : Prompts ν) where
  latest := by simp [empty]
  increasing := by simp [empty]
  bound := by simp [empty]
  known := by simp [empty]
  new := by simp [empty, deliveries]

/-- From `s` to `s'` nothing was asked or delivered, and no prompt came in flight. -/
structure Quiet (s s' : Prompts ν) : Prop where
  inFlight : ∀ p f, s'.inFlight.get p = some f → s.inFlight.get p = some f
  deliveries : ∀ p, s'.deliveries p = s.deliveries p
  asked : s'.asked = s.asked

theorem Quiet.refl (s : Prompts ν) : Quiet s s := ⟨fun _ _ => id, fun _ => rfl, rfl⟩

theorem Quiet.trans (h : Quiet s s') (h' : Quiet s' s'') : Quiet s s'' where
  inFlight := fun p f hf => h.inFlight p f (h'.inFlight p f hf)
  deliveries := fun p => (h'.deliveries p).trans (h.deliveries p)
  asked := h'.asked.trans h.asked

theorem Quiet.foldl {α : Type} {f : Prompts ν → α → Prompts ν} (hf : ∀ s a, Quiet s (f s a))
    (l : List α) (s : Prompts ν) : Quiet s (l.foldl f s) := by
  induction l generalizing s with
  | nil => exact .refl s
  | cons a l ih => exact (hf s a).trans (ih _)

theorem Quiet.of_eq (hinFlight : s'.inFlight = s.inFlight) (hsent : s'.sent = s.sent)
    (hasked : s'.asked = s.asked) : Quiet s s' where
  inFlight := by
    rw [hinFlight]
    exact fun _ _ => id
  deliveries := fun p => by rw [Prompts.deliveries, hsent, Prompts.deliveries]
  asked := hasked

theorem Delivered.quiet (h : Delivered s) (hq : Quiet s s') : Delivered s' where
  latest := by
    intro p f hf
    rw [hq.deliveries p]
    exact h.latest p f (hq.inFlight p f hf)
  increasing := by
    intro p f hf
    rw [hq.deliveries p]
    exact h.increasing p f (hq.inFlight p f hf)
  bound := by
    intro p f hf
    rw [hq.deliveries p]
    exact h.bound p f (hq.inFlight p f hf)
  known := by
    intro p f hf
    rw [hq.asked]
    exact h.known p f (hq.inFlight p f hf)
  new := by
    intro p hp
    rw [hq.asked] at hp
    rw [hq.deliveries p]
    exact h.new p hp

theorem quiet_promptCancel (s : Prompts ν) (clientId p : String) :
    Quiet s (s.send clientId (.promptCancel p)) where
  inFlight := fun _ _ => id
  deliveries := by
    intro q
    simp [deliveries, send, deliveryOf]
  asked := rfl

theorem quiet_clearPrompt (s : Prompts ν) (p : String) : Quiet s (s.clearPrompt p) where
  inFlight := by
    intro q f hf
    change (s.inFlight.delete p).get q = some f at hf
    rw [get_delete] at hf
    split at hf
    · exact absurd hf nofun
    · exact hf
  deliveries := fun _ => rfl
  asked := rfl

theorem quiet_settle (s : Prompts ν) (p : String) (value : Option ν) :
    Quiet s ((s.clearPrompt p).resolve p value) :=
  (quiet_clearPrompt s p).trans (.of_eq rfl rfl rfl)

theorem quiet_cancelPrompt (s : Prompts ν) (route : String) (withSend : Bool) (p : String) :
    Quiet s (s.cancelPrompt route withSend p) := by
  have hcancel : Quiet s (if withSend then s.send route (.promptCancel p) else s) := by
    split
    · exact quiet_promptCancel s route p
    · exact .refl s
  unfold cancelPrompt
  dsimp only
  split
  · exact hcancel.trans (quiet_settle _ p none)
  · exact hcancel.trans (quiet_clearPrompt _ p)

theorem quiet_clearContext (s : Prompts ν) (c : String) (withSend : Bool) :
    Quiet s (s.clearContext c withSend) := by
  unfold clearContext
  split
  · exact .refl s
  · next x _ =>
    split
    · exact .refl s
    · have hclosed : Quiet s { s with
          promptContexts := s.promptContexts.set c { x with state := .closed } } :=
        .of_eq rfl rfl rfl
      have hloop := Quiet.foldl
        (fun s p => quiet_cancelPrompt s x.routeClientId withSend p) x.prompts.elems
        { s with promptContexts := s.promptContexts.set c { x with state := .closed } }
      exact (hclosed.trans hloop).trans (.of_eq rfl rfl rfl)

theorem quiet_respond (s : Prompts ν) (p clientId : String) (epoch : Option ℕ)
    (value : Option ν) : Quiet s (s.respond p clientId epoch value).1 := by
  obtain heq | ⟨c, x, f, -, -, -, -, -, -, heq⟩ := s.respond_cases p clientId epoch value
  · rw [heq]
    exact .refl s
  · rw [heq]
    exact quiet_settle s p value

theorem quiet_openContext (s : Prompts ν) (kind : Kind) (hostId route : String)
    (acqId : Option String) (gid : String) :
    Quiet s (s.openContext kind hostId route acqId gid).1 :=
  .of_eq rfl rfl rfl

theorem quiet_getOrOpen (s : Prompts ν) (contextId : Option String)
    (hostId clientId gid : String) :
    Quiet s (s.getOrOpenSessionPromptContext contextId hostId clientId gid).1 := by
  unfold getOrOpenSessionPromptContext
  dsimp only
  split
  · split
    · exact quiet_openContext ..
    · exact .refl s
  · split
    · split
      · exact .refl s
      · split
        · exact quiet_clearContext ..
        · exact .of_eq rfl rfl rfl
    · split
      · split
        · exact quiet_openContext ..
        · exact .refl s
      · split
        · exact .refl s
        · split
          · exact .refl s
          · exact quiet_openContext ..

theorem quiet_clearElevationContextsWhere (s : Prompts ν)
    (matched : ElevationPromptOwner → Bool) (withSend : Bool) :
    Quiet s (s.clearElevationContextsWhere matched withSend) := by
  refine Quiet.foldl ?_ _ s
  rintro s ⟨c, owner⟩
  dsimp only
  split
  · exact (quiet_clearContext s c withSend).trans (.of_eq rfl rfl rfl)
  · exact .refl s

theorem quiet_shutdown (s : Prompts ν) : Quiet s s.shutdown := by
  refine Quiet.trans (Quiet.foldl (fun s c => quiet_clearContext s c false)
    s.promptContexts.keys s) ?_
  refine Quiet.trans (Quiet.foldl ?_ _ _) (.of_eq rfl rfl rfl)
  rintro s ⟨p, v⟩
  exact .of_eq rfl rfl rfl

/-! ### The two steps that deliver -/

theorem deliveries_send (s : Prompts ν) (clientId : String) (payload : ν) (p q : String)
    (epoch : ℕ) : (s.send clientId (.prompt payload p epoch)).deliveries q =
      s.deliveries q ++ if p = q then [(clientId, epoch)] else [] := by
  unfold deliveries send
  rw [filterMap_append]
  by_cases hpq : p = q <;> simp [deliveryOf, hpq]

/-- A prompt is delivered under a newer epoch. -/
theorem Delivered.deliver (h : Delivered s) {f g : InFlightPrompt ν}
    (hf : s.inFlight.get p = some f) (hg : f.deliveryEpoch < g.deliveryEpoch) (route : String)
    (payload : ν)
    (hinFlight : s'.inFlight = s.inFlight.set p g) (hsent : s'.sent = s.sent)
    (hasked : s'.asked = s.asked) :
    Delivered (s'.send route (.prompt payload p g.deliveryEpoch)) := by
  have hdel : ∀ q, (s'.send route (.prompt payload p g.deliveryEpoch)).deliveries q =
      s.deliveries q ++ if p = q then [(route, g.deliveryEpoch)] else [] := by
    intro q
    rw [deliveries_send, deliveries, hsent, ← deliveries]
  have hother : ∀ q, q ≠ p →
      (s'.send route (.prompt payload p g.deliveryEpoch)).inFlight.get q =
        s.inFlight.get q := by
    intro q hq
    change s'.inFlight.get q = _
    rw [hinFlight, get_set_of_ne _ hq]
  have hself : (s'.send route (.prompt payload p g.deliveryEpoch)).inFlight.get p = some g := by
    change s'.inFlight.get p = _
    rw [hinFlight, get_set_self]
  have hknown : p ∈ s.asked.map Prod.fst := h.known p f hf
  constructor
  · intro q f' hf'
    rw [hdel]
    by_cases hq : q = p
    · subst hq
      obtain ⟨rfl⟩ := hself.symm.trans hf'
      exact ⟨route, by simp⟩
    · rw [hother q hq] at hf'
      rw [if_neg (Ne.symm hq), append_nil]
      exact h.latest q f' hf'
  · intro q f' hf'
    rw [hdel]
    by_cases hq : q = p
    · subst hq
      rw [if_pos rfl, map_append]
      refine pairwise_append.mpr ⟨h.increasing q f hf, pairwise_singleton .., ?_⟩
      intro e he e' he'
      obtain rfl : e' = g.deliveryEpoch := by simpa using he'
      exact Nat.lt_of_le_of_lt (h.bound q f hf e he) hg
    · rw [hother q hq] at hf'
      rw [if_neg (Ne.symm hq), append_nil]
      exact h.increasing q f' hf'
  · intro q f' hf' e he
    rw [hdel] at he
    by_cases hq : q = p
    · subst hq
      obtain ⟨rfl⟩ := hself.symm.trans hf'
      rw [if_pos rfl, map_append] at he
      obtain he | he := mem_append.mp he
      · exact Nat.le_trans (h.bound q f hf e he) (Nat.le_of_lt hg)
      · exact Nat.le_of_eq (by simpa using he)
    · rw [hother q hq] at hf'
      rw [if_neg (Ne.symm hq), append_nil] at he
      exact h.bound q f' hf' e he
  · intro q f' hf'
    change q ∈ s'.asked.map Prod.fst
    rw [hasked]
    by_cases hq : q = p
    · exact hq ▸ hknown
    · rw [hother q hq] at hf'
      exact h.known q f' hf'
  · intro q hq
    change q ∉ s'.asked.map Prod.fst at hq
    rw [hasked] at hq
    have hpq : p ≠ q := by
      rintro rfl
      exact hq hknown
    rw [hdel, if_neg hpq, append_nil]
    exact h.new q hq

theorem Delivered.redeliver (h : Delivered s) (old route p : String) :
    Delivered (s.redeliver old route p) := by
  unfold Prompts.redeliver
  split
  · exact h
  · next f hf =>
    dsimp only
    split
    · -- the old route is told first, which delivers nothing
      exact (h.quiet (quiet_promptCancel s old p)).deliver
        (g := { f with deliveryEpoch := f.deliveryEpoch + 1 }) hf (Nat.lt_succ_self _) route _
        rfl rfl rfl
    · exact h.deliver (g := { f with deliveryEpoch := f.deliveryEpoch + 1 }) hf
        (Nat.lt_succ_self _) route _ rfl rfl rfl

theorem Delivered.foldl {α : Type} {f : Prompts ν → α → Prompts ν}
    (hf : ∀ s a, Delivered s → Delivered (f s a)) (l : List α) (h : Delivered s) :
    Delivered (l.foldl f s) := by
  induction l generalizing s with
  | nil => exact h
  | cons a l ih => exact ih (hf s a h)

theorem Delivered.retarget (h : Delivered s) (c route : String) :
    Delivered (s.retarget c route) := by
  unfold Prompts.retarget
  split
  · exact h
  · next x _ =>
    split
    · exact h
    · split
      · exact h
      · have hrouted : Delivered { s with
            promptContexts := s.promptContexts.set c { x with routeClientId := route } } :=
          h.quiet (.of_eq rfl rfl rfl)
        exact hrouted.foldl (fun _ p hs => hs.redeliver _ _ p) _

theorem Delivered.leaveContext (h : Delivered s) (clientId c : String) :
    Delivered (s.leaveContext clientId c) := by
  have hclear := h.quiet (quiet_clearContext s c true)
  unfold Prompts.leaveContext
  split
  · exact h
  · split
    · exact h
    · split
      · exact h
      · split
        · exact hclear
        · split
          · exact h.retarget c _
          · exact hclear

/-- A prompt is asked. -/
theorem Delivered.prompt (h : Delivered s) (c : String) (type : PromptType) (payload : ν)
    (timeoutMs : Option (Option ℕ)) (sendFails : Bool) (hp : p ∉ s.asked.map Prod.fst) :
    Delivered (s.prompt c type payload timeoutMs p sendFails).1 := by
  unfold Prompts.prompt
  split
  · exact h
  · next x _ =>
    split
    · exact h
    · dsimp only
      split
      · exact h.quiet (quiet_clearContext s c true)
      · next route _ =>
        have hnone : s.inFlight.get p = none := by
          cases hf : s.inFlight.get p with
          | none => rfl
          | some f => exact absurd (h.known p f hf) hp
        have hnew : Delivered ((s.storePrompt x c route type payload
            (timeoutMs.getD (some promptTimeoutMs)) p).send route (.prompt payload p 1)) := by
          generalize timeoutMs.getD (some promptTimeoutMs) = timer
          have hdel : ∀ q, ((s.storePrompt x c route type payload timer p).send route
              (.prompt payload p 1)).deliveries q =
                s.deliveries q ++ if p = q then [(route, 1)] else [] :=
            fun q => deliveries_send _ route payload p q 1
          have hasked : ((s.storePrompt x c route type payload timer p).send route
              (.prompt payload p 1)).asked = s.asked ++ [(p, c)] := rfl
          have hget : ∀ q f, ((s.storePrompt x c route type payload timer p).send route
              (.prompt payload p 1)).inFlight.get q = some f →
                q = p ∧ f.deliveryEpoch = 1 ∨ q ≠ p ∧ s.inFlight.get q = some f := by
            intro q f hf
            change (s.inFlight.set p _).get q = some f at hf
            rw [get_set] at hf
            split at hf
            · next hq =>
              cases hf
              exact .inl ⟨hq, rfl⟩
            · next hq => exact .inr ⟨hq, hf⟩
          constructor
          · intro q f hf
            rw [hdel]
            obtain ⟨rfl, hepoch⟩ | ⟨hq, hf⟩ := hget q f hf
            · exact ⟨route, by simp [hepoch]⟩
            · rw [if_neg (Ne.symm hq), append_nil]
              exact h.latest q f hf
          · intro q f hf
            rw [hdel]
            obtain ⟨rfl, -⟩ | ⟨hq, hf⟩ := hget q f hf
            · simp [h.new q hp]
            · rw [if_neg (Ne.symm hq), append_nil]
              exact h.increasing q f hf
          · intro q f hf e he
            rw [hdel] at he
            obtain ⟨rfl, hepoch⟩ | ⟨hq, hf⟩ := hget q f hf
            · rw [h.new q hp, if_pos rfl] at he
              rw [hepoch]
              exact Nat.le_of_eq (by simpa using he)
            · rw [if_neg (Ne.symm hq), append_nil] at he
              exact h.bound q f hf e he
          · intro q f hf
            rw [hasked, map_append]
            obtain ⟨rfl, -⟩ | ⟨-, hf⟩ := hget q f hf
            · exact mem_append_right _ (mem_singleton_self _)
            · exact mem_append_left _ (h.known q f hf)
          · intro q hq
            rw [hasked, map_append, mem_append, not_or] at hq
            have hpq : p ≠ q := by
              rintro rfl
              exact hq.2 (mem_singleton_self _)
            rw [hdel, if_neg hpq, append_nil]
            exact h.new q hq.1
        split
        · exact hnew.quiet (quiet_settle _ p none)
        · exact hnew

/-- **The step lemma.** -/
theorem Delivered.next {a : Step ν} (h : Delivered s) (hn : s.next a = some s') :
    Delivered s' := by
  cases a with
  | openContext kind hostId route acqId gid =>
    obtain ⟨-, ⟨rfl⟩⟩ := ite_none_right_eq_some.mp hn
    exact h.quiet (quiet_openContext ..)
  | getOrOpen contextId hostId clientId gid =>
    obtain ⟨-, ⟨rfl⟩⟩ := ite_none_right_eq_some.mp hn
    exact h.quiet (quiet_getOrOpen ..)
  | prompt contextId type payload timeoutMs gid sendFails =>
    obtain ⟨hgid, ⟨rfl⟩⟩ := ite_none_right_eq_some.mp hn
    exact h.prompt contextId type payload timeoutMs sendFails hgid.2.2
  | timeout p =>
    obtain ⟨-, ⟨rfl⟩⟩ := ite_none_right_eq_some.mp hn
    have hfired : Quiet s { s with timers := s.timers.delete p } := .of_eq rfl rfl rfl
    exact h.quiet (hfired.trans (quiet_settle _ p none))
  | respond p clientId epoch value =>
    cases hn
    exact h.quiet (quiet_respond ..)
  | retarget c route =>
    cases hn
    exact h.retarget c route
  | clearContext c withSend =>
    cases hn
    exact h.quiet (quiet_clearContext ..)
  | clientDisconnect clientId =>
    cases hn
    exact h.foldl (fun _ c hs => hs.leaveContext clientId c) _
  | trackElevationContext | world =>
    cases hn
    exact h.quiet (.of_eq rfl rfl rfl)
  | clearElevationContextsForSession | clearElevationContextsForChannel =>
    cases hn
    exact h.quiet (quiet_clearElevationContextsWhere ..)
  | shutdown =>
    cases hn
    exact h.quiet (quiet_shutdown s)

theorem delivered_of_run (h : Run next free (empty w) s) : Delivered s :=
  h.invariant (delivered_empty w) fun _ _ _ hs _ hn => hs.next hn

/-! ### Routes -/

/-- Who may answer the prompts of a context, and whether anyone may. -/
def routes (s : Prompts ν) (c : String) : Option (String × ContextState) :=
  (s.promptContexts.get c).map fun x => (x.routeClientId, x.state)

theorem routes_set (s : Prompts ν) (c d : String) (x : PromptContext) :
    routes { s with promptContexts := s.promptContexts.set c x } d =
      if d = c then some (x.routeClientId, x.state) else s.routes d := by
  unfold routes
  rw [get_set]
  split <;> rfl

theorem routes_clearPrompt (s : Prompts ν) (p : String) : (s.clearPrompt p).routes = s.routes := by
  funext d
  unfold clearPrompt
  dsimp only
  cases hc : s.promptIndex.get p with
  | none => rfl
  | some c =>
    cases hx : (truthy (some c)).bind s.promptContexts.get with
    | none => rfl
    | some x =>
      -- the context that is read is the one that is written
      obtain ⟨c', hc', hx⟩ := bind_eq_some_iff.mp hx
      obtain rfl := some.inj (filter_eq_some_iff.mp hc').1
      have hset := routes_set s c d { x with prompts := x.prompts.delete p }
      unfold routes at hset ⊢
      dsimp only at hset ⊢
      rw [hset]
      split
      · next hd => rw [hd, hx]; rfl
      · rfl

theorem routes_cancelPrompt (s : Prompts ν) (route : String) (withSend : Bool) (p : String) :
    (s.cancelPrompt route withSend p).routes = s.routes := by
  unfold cancelPrompt
  cases withSend
  all_goals
    dsimp only
    split
    all_goals exact routes_clearPrompt _ p

theorem routes_foldl {α : Type} {f : Prompts ν → α → Prompts ν}
    (hf : ∀ s a, (f s a).routes = s.routes) (l : List α) (s : Prompts ν) :
    (l.foldl f s).routes = s.routes := by
  induction l generalizing s with
  | nil => rfl
  | cons a l ih => rw [foldl_cons, ih, hf]

theorem routes_clearContext_of_ne (s : Prompts ν) (withSend : Bool) (hd : d ≠ c) :
    (s.clearContext c withSend).routes d = s.routes d := by
  unfold clearContext
  split
  · rfl
  · next x _ =>
    split
    · rfl
    · have hloop := routes_foldl
        (fun s p => routes_cancelPrompt s x.routeClientId withSend p) x.prompts.elems
        { s with promptContexts := s.promptContexts.set c { x with state := .closed } }
      unfold routes at hloop ⊢
      rw [get_delete_of_ne _ hd]
      refine (congrFun hloop d).trans ?_
      rw [get_set_of_ne _ hd]

theorem routes_clearContext_self (s : Prompts ν) (withSend : Bool) {route : String} :
    (s.clearContext c withSend).routes c ≠ some (route, .opened) := by
  unfold clearContext
  split
  · next hnone => simp [routes, hnone]
  · next x hx =>
    split
    · next hclosed => simp [routes, hx, hclosed]
    · simp [routes]

theorem routes_retarget_of_ne (s : Prompts ν) (route : String) (hd : d ≠ c) :
    (s.retarget c route).routes d = s.routes d := by
  unfold retarget
  split
  · rfl
  · next x _ =>
    split
    · rfl
    · split
      · rfl
      · refine (congrFun (routes_foldl (fun s p => ?_) _ _) d).trans ?_
        · funext d
          simp [routes]
        · rw [routes_set, if_neg hd]

theorem routes_retarget_self (s : Prompts ν) {x : PromptContext} (route : String)
    (hx : s.promptContexts.get c = some x) (hopen : x.state = .opened) (hkind : x.kind = .session) :
    (s.retarget c route).routes c = some (route, .opened) := by
  unfold retarget
  rw [hx]
  dsimp only
  rw [if_neg (by rw [hopen]; exact nofun), if_neg (not_not.mpr hkind)]
  refine (congrFun (routes_foldl (fun s p => ?_) _ _) c).trans ?_
  · funext d
    simp [routes]
  · rw [routes_set, if_pos rfl, hopen]

theorem pickRouteCandidate_ne {clientId candidate : String}
    (h : s.pickRouteCandidate c clientId = some candidate) : candidate ≠ clientId := by
  have hmem : ∀ {l : List String}, firstInOrder l = some candidate → candidate ∈ l := by
    intro l hl
    exact mem_mergeSort.mp (mem_of_head? hl)
  unfold pickRouteCandidate at h
  split at h
  · exact absurd h nofun
  · split at h
    · exact absurd h nofun
    · split at h
      · split at h
        · exact absurd h nofun
        · -- over the channels of a session
          obtain ⟨⟨_, channel⟩, -, hin⟩ := mem_flatMap.mp (hmem h)
          dsimp only at hin
          split at hin
          · exact absurd hin not_mem_nil
          · have hne := (mem_filter.mp hin).2
            rintro rfl
            simp at hne
      · -- among the leases
        obtain ⟨acq, -, hin⟩ := mem_flatMap.mp (hmem h)
        split at hin
        · exact absurd hin not_mem_nil
        · obtain ⟨lease, -, hlease⟩ := mem_filterMap.mp hin
          split at hlease
          · exact absurd hlease nofun
          · next hnot =>
            cases hlease
            exact fun heq => hnot (.inl heq)

/-- What one context's turn in `clientDisconnect` does. -/
theorem routes_leaveContext_of_ne (s : Prompts ν) (clientId : String) (hd : d ≠ c) :
    (s.leaveContext clientId c).routes d = s.routes d := by
  unfold leaveContext
  split
  · rfl
  · split
    · rfl
    · split
      · rfl
      · split
        · exact routes_clearContext_of_ne s true hd
        · split
          · exact routes_retarget_of_ne s _ hd
          · exact routes_clearContext_of_ne s true hd

theorem routes_leaveContext_self (s : Prompts ν) (clientId : String) :
    (s.leaveContext clientId c).routes c ≠ some (clientId, .opened) := by
  unfold leaveContext
  split
  · next hnone => simp [routes, hnone]
  · next x hx =>
    split
    · next hclosed => simp [routes, hx, hclosed]
    · next hopen =>
      split
      · next hroute => simpa [routes, hx] using fun heq => absurd heq hroute
      · split
        · exact routes_clearContext_self s true
        · next hkind =>
          split
          · next candidate hcandidate =>
            have hopen : x.state = .opened := by
              revert hopen
              cases x.state <;> simp
            rw [routes_retarget_self s candidate hx hopen (not_not.mp hkind)]
            have hne := pickRouteCandidate_ne (filter_eq_some_iff.mp hcandidate).1
            simpa using hne
          · exact routes_clearContext_self s true

/-- The loop of `clientDisconnect`: the contexts that had their turn are not routed to the
window, and the others are as they were. -/
theorem routes_leaveAll (clientId : String) (l : List String) (s : Prompts ν) (d : String) :
    (d ∉ l → (l.foldl (fun s c => s.leaveContext clientId c) s).routes d = s.routes d) ∧
    (s.routes d ≠ some (clientId, .opened) ∨ d ∈ l →
      (l.foldl (fun s c => s.leaveContext clientId c) s).routes d ≠
        some (clientId, .opened)) := by
  induction l generalizing s with
  | nil => exact ⟨fun _ => rfl, fun h => h.resolve_right not_mem_nil⟩
  | cons c l ih =>
    obtain ⟨hkeep, hgone⟩ := ih (s.leaveContext clientId c)
    constructor
    · intro hd
      rw [mem_cons, not_or] at hd
      rw [foldl_cons, hkeep hd.2, routes_leaveContext_of_ne s clientId hd.1]
    · intro h
      rw [foldl_cons]
      refine hgone ?_
      by_cases hdc : d = c
      · subst hdc
        exact .inl (routes_leaveContext_self s clientId)
      · rw [routes_leaveContext_of_ne s clientId hdc]
        exact h.imp id fun hmem => (mem_cons.mp hmem).resolve_left hdc

theorem clientDisconnect_routes (s : Prompts ν) (clientId c : String) {x : PromptContext}
    (hx : (s.clientDisconnect clientId).promptContexts.get c = some x)
    (hopen : x.state = .opened) : x.routeClientId ≠ clientId := by
  have hgone := (routes_leaveAll clientId s.promptContexts.keys s c).2 (by
    by_cases hmem : c ∈ s.promptContexts.keys
    · exact .inr hmem
    · have hnone : s.promptContexts.get c = none := by
        cases hget : s.promptContexts.get c with
        | none => rfl
        | some y => exact absurd ((s.promptContexts.mem_keys_iff c).mpr ⟨y, hget⟩) hmem
      exact .inl (by simp [routes, hnone]))
  change (s.clientDisconnect clientId).routes c ≠ _ at hgone
  rintro rfl
  exact hgone (by simp [routes, hx, hopen])

theorem Delivered.refuses_earlier (h : Delivered s) {pre post : List (String × ℕ)}
    {route : String} {e : ℕ} (hsplit : s.deliveries p = pre ++ (route, e) :: post)
    (hpost : post ≠ []) (clientId : String) (value : Option ν) :
    s.respond p clientId (some e) value = (s, false) := by
  obtain heq | ⟨c, x, f, -, -, -, hf, -, hepoch, -⟩ := s.respond_cases p clientId (some e) value
  · exact heq
  · -- the epochs increase, so a later delivery has a later one than the answer
    obtain rfl := hepoch e rfl
    obtain ⟨last, rest, hrest⟩ := exists_cons_of_ne_nil hpost
    have hinc := h.increasing p f hf
    rw [hsplit, hrest, map_append, map_cons, map_cons] at hinc
    have hlt : f.deliveryEpoch < last.2 :=
      rel_of_pairwise_cons (pairwise_append.mp hinc).2.1 mem_cons_self
    have hle : last.2 ≤ f.deliveryEpoch := by
      refine h.bound p f hf last.2 (mem_map_of_mem ?_)
      rw [hsplit, hrest]
      simp
    exact absurd hlt (Nat.not_lt_of_le hle)

/-- **Only the route answers, and only the latest delivery.**  In every state `s` of every
run: `respond` refuses, and changes nothing, or the answer is of the window its prompt's open
context is routed to, with no epoch or that of the latest delivery, and settles that prompt
alone; once `clientDisconnect` has run for a window, no open context is routed to it and every
answer of it is refused; and an answer of another window than the route, or to a delivery
that was not the last, is refused. -/
theorem answered_by_route (h : Run next free (empty w) s) :
    (∀ p clientId epoch value, s.respond p clientId epoch value = (s, false) ∨
      ∃ c x, s.promptIndex.get p = some c ∧ s.promptContexts.get c = some x ∧
        x.state = .opened ∧ clientId = x.routeClientId ∧
        (∀ e, epoch = some e → ∃ route, (s.deliveries p).getLast? = some (route, e)) ∧
        (s.respond p clientId epoch value).2 = true ∧
        (s.respond p clientId epoch value).1.settled = s.settled ++ [(p, value)]) ∧
    (∀ clientId, (∀ c x, (s.clientDisconnect clientId).promptContexts.get c = some x →
        x.state = .opened → x.routeClientId ≠ clientId) ∧
      ∀ p epoch value, (s.clientDisconnect clientId).respond p clientId epoch value =
        (s.clientDisconnect clientId, false)) ∧
    (∀ p c x clientId epoch value, s.promptIndex.get p = some c →
      s.promptContexts.get c = some x → clientId ≠ x.routeClientId →
      s.respond p clientId epoch value = (s, false)) ∧
    ∀ p pre route e post clientId value, s.deliveries p = pre ++ (route, e) :: post →
      post ≠ [] → s.respond p clientId (some e) value = (s, false) := by
  have hs := delivered_of_run h
  refine ⟨?_, ?_, ?_, ?_⟩
  · intro p clientId epoch value
    obtain heq | ⟨c, x, f, hc, hx, hopen, hf, hroute, hepoch, heq⟩ :=
      s.respond_cases p clientId epoch value
    · exact .inl heq
    · refine .inr ⟨c, x, hc, hx, hopen, hroute, ?_, ?_, ?_⟩
      · rintro e rfl
        rw [hepoch e rfl]
        exact hs.latest p f hf
      · rw [heq]
      · rw [heq]
        rfl
  · intro clientId
    refine ⟨fun c x hx hopen => clientDisconnect_routes s clientId c hx hopen, ?_⟩
    intro p epoch value
    obtain heq | ⟨c, x, f, -, hx, hopen, -, hroute, -, -⟩ :=
      (s.clientDisconnect clientId).respond_cases p clientId epoch value
    · exact heq
    · exact absurd hroute.symm (clientDisconnect_routes s clientId c hx hopen)
  · intro p c x clientId epoch value hc hx hroute
    obtain heq | ⟨c', x', f, hc', hx', -, -, hroute', -, -⟩ :=
      s.respond_cases p clientId epoch value
    · exact heq
    · obtain ⟨rfl⟩ := hc.symm.trans hc'
      obtain ⟨rfl⟩ := hx.symm.trans hx'
      exact absurd hroute' hroute
  · intro p pre route e post clientId value hsplit hpost
    exact hs.refuses_earlier hsplit hpost clientId value

/-- Two windows, each with a lease on the acquisition of the host. -/
def twoWindows : World where
  clients := (OrderedSet.empty.add "first").add "second"
  acquisitions := ((Acq.Acquisitions.empty.acquire "acq" "l0" "host" "first").1.join 0 "l1"
    "second").1
  channels := .empty

/-- A passphrase is asked of the first window, which goes; the second window is asked
instead, and an answer with the first delivery's epoch is refused, even from it. -/
theorem answered_by_route_moved : ∃ s : Prompts String, Run next free (empty twoWindows) s ∧
    s.deliveries "p" = [("first", 1), ("second", 2)] ∧
    (∀ value, s.respond "p" "second" (some 1) value = (s, false)) ∧
    (s.respond "p" "second" (some 2) (some "secret")).2 = true := by
  have hrun : Run next free (empty twoWindows) _ := .get_free
    [.getOrOpen (some "acq") "host" "first" "g",
      .prompt "acq" .passphrase "Passphrase" (some none) "p" false, .clientDisconnect "first"]
    (by decide +kernel)
  exact ⟨_, hrun, by decide +kernel, fun value => (answered_by_route hrun).2.2.2 "p" [] "first" 1
    [("second", 2)] "second" value (by decide +kernel) (cons_ne_nil _ _), by decide +kernel⟩

end Prompts

end Lasterm.Hub.Prompt
