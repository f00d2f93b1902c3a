import Lasterm.Agent.Routes
import Lasterm.Lib.Run
import Lasterm.Lib.Tally
import Mathlib.Algebra.Order.BigOperators.Group.List
import Mathlib.Data.List.Sort
import Mathlib.Data.Multiset.OrderedMonoid

/-!
# In the order the router took them

The router of the daemon takes one frame after another and hands each to the connection its hub
has, or keeps it (`spawn_output_router`); a connection that authenticates becomes its hub's current
one, takes what was kept, and pushes the one before it off (`register_active`); the writer of a
connection may be gone before its read loop ends; and the end of a read loop unregisters the
connection if it is still the current one (`clear_active_if_ours`).  Each of these holds the lock of
the routes, so a run is any order of them.

Nothing is kept for a hub whose current connection still takes frames, so what is kept is always
newer than what was handed over.

## Main definitions

* `Post` — the connections, with what they were handed and what is kept; `post` — its steps.

## Main results

* `delivered_in_order` — what a hub's connections were handed, then what is kept for it, is in the
  order the router took it, in every run.
-/

namespace Lasterm.Agent

open Transition List Option OrderedMap Function
open Function (update)

/-! ### The order of a queue -/

namespace AwayQueue

variable {φ : Type} {len : φ → ℕ} {q : AwayQueue φ} {id : String} {backlog : ChannelBacklog φ}

/-- Every frame kept, with its rank. -/
def ranked (q : AwayQueue φ) : Multiset (ℕ × φ) :=
  (q.channels.entries.map fun e => (e.2.frames : Multiset (ℕ × φ))).sum

theorem coe_flatMap_frames (q : AwayQueue φ) :
    ((q.channels.entries.flatMap (·.2.frames) : List (ℕ × φ)) : Multiset (ℕ × φ)) = q.ranked := by
  unfold ranked
  induction q.channels.entries with
  | nil => rfl
  | cons e l ih =>
    rw [flatMap_cons, map_cons, sum_cons, ← Multiset.coe_add, ih]

theorem ranked_shrink_le (hget : q.channels.get id = some backlog) :
    (q.shrink id (backlog.dropOldest len)).ranked ≤ q.ranked := by
  have hsum : (q.shrink id (backlog.dropOldest len)).ranked + (backlog.frames : Multiset (ℕ × φ)) =
      q.ranked + ((backlog.dropOldest len).2.frames : Multiset (ℕ × φ)) :=
    sum_set (f := fun b : ChannelBacklog φ => (b.frames : Multiset (ℕ × φ))) hget _
  have hdrop : ((backlog.dropOldest len).2.frames : Multiset (ℕ × φ)) ≤ backlog.frames := by
    unfold ChannelBacklog.dropOldest
    split
    · next hframes =>
      rw [hframes]
      exact Multiset.coe_le.mpr (sublist_cons_self _ _).subperm
    · exact le_rfl
  refine le_of_add_le_add_right (a := (backlog.frames : Multiset (ℕ × φ))) ?_
  rw [hsum]
  exact add_le_add le_rfl hdrop

theorem ranked_trimChannel_le (len : φ → ℕ) (id : String) (n : ℕ) (q : AwayQueue φ) :
    (q.trimChannel len id n).ranked ≤ q.ranked ∧ (q.trimChannel len id n).next = q.next := by
  induction n generalizing q with
  | zero => exact ⟨le_rfl, rfl⟩
  | succ n ih =>
    rw [trimChannel]
    split
    · exact ⟨le_rfl, rfl⟩
    · next backlog hget =>
      split
      · dsimp only
        split
        · exact ⟨ranked_shrink_le hget, rfl⟩
        · exact ⟨(ih _).1.trans (ranked_shrink_le hget), (ih _).2⟩
      · exact ⟨le_rfl, rfl⟩

theorem ranked_trimHub_le (len : φ → ℕ) (n : ℕ) (q : AwayQueue φ) :
    (q.trimHub len n).ranked ≤ q.ranked ∧ (q.trimHub len n).next = q.next := by
  induction n generalizing q with
  | zero => exact ⟨le_rfl, rfl⟩
  | succ n ih =>
    rw [trimHub]
    split
    · split
      · exact ⟨le_rfl, rfl⟩
      · next id backlog hlargest =>
        exact ⟨(ih _).1.trans (ranked_shrink_le (get_of_largest hlargest)), (ih _).2⟩
    · exact ⟨le_rfl, rfl⟩

/-- **A push** adds the frame with the next rank, and may drop others. -/
theorem ranked_push_le (len : φ → ℕ) (q : AwayQueue φ) (id : String) (frame : φ) :
    (q.push len id frame).ranked ≤ q.ranked + {(q.next, frame)} ∧
      (q.push len id frame).next = q.next + 1 := by
  let backlog := (q.channels.get id).getD ⟨[], 0⟩
  let added : AwayQueue φ :=
    { q with
      channels := q.channels.set id ⟨backlog.frames ++ [(q.next, frame)], backlog.bytes + len frame⟩
      bytes := q.bytes + len frame
      next := q.next + 1 }
  have hadded : added.ranked = q.ranked + {(q.next, frame)} := by
    cases hget : q.channels.get id with
    | some old =>
      have hbacklog : backlog = old := by
        simp only [backlog, hget]
        rfl
      have hsum : added.ranked + (old.frames : Multiset (ℕ × φ)) =
          q.ranked + ((backlog.frames ++ [(q.next, frame)] : List _) : Multiset (ℕ × φ)) :=
        sum_set (f := fun b : ChannelBacklog φ => (b.frames : Multiset (ℕ × φ))) hget _
      rw [hbacklog, ← Multiset.coe_add, add_comm (old.frames : Multiset (ℕ × φ)), ← add_assoc] at hsum
      exact add_right_cancel hsum
    | none =>
      have hkey : id ∉ q.channels.keys := by
        intro hmem
        obtain ⟨v, hv⟩ := (mem_keys_iff _ id).mp hmem
        exact nomatch hget.symm.trans hv
      have hbacklog : backlog = ⟨[], 0⟩ := by
        simp only [backlog, hget]
        rfl
      change ((q.channels.set id _).entries.map _).sum = _
      rw [entries_set_of_not_mem hkey, map_append, sum_append, hbacklog]
      rfl
  have hchannel := ranked_trimChannel_le len id (backlog.frames.length + 1) added
  have hhub := ranked_trimHub_le len
    (added.trimChannel len id (backlog.frames.length + 1)).count
    (added.trimChannel len id (backlog.frames.length + 1))
  exact ⟨(hhub.1.trans hchannel.1).trans_eq hadded, hhub.2.trans hchannel.2⟩

/-- The ranks are those of the frames pushed so far, each once, and the frames are in order by them. -/
structure Increasing (number : φ → ℕ) (q : AwayQueue φ) : Prop where
  ranks : (q.ranked.map Prod.fst).Nodup
  before : ∀ r ∈ q.ranked, r.1 < q.next
  order : ∀ r ∈ q.ranked, ∀ r' ∈ q.ranked, r.1 < r'.1 → number r.2 < number r'.2

variable {number : φ → ℕ}

theorem Increasing.empty : (empty : AwayQueue φ).Increasing number where
  ranks := Multiset.nodup_zero
  before r hr := absurd hr (Multiset.notMem_zero r)
  order r hr := absurd hr (Multiset.notMem_zero r)

theorem Increasing.push (h : q.Increasing number) (len : φ → ℕ) (id : String) {frame : φ}
    (hnew : ∀ r ∈ q.ranked, number r.2 < number frame) : (q.push len id frame).Increasing number := by
  obtain ⟨hle, hnext⟩ := ranked_push_le len q id frame
  have hmem : ∀ r ∈ (q.push len id frame).ranked, r ∈ q.ranked ∨ r = (q.next, frame) := by
    intro r hr
    exact (Multiset.mem_add.mp (Multiset.mem_of_le hle hr)).imp_right Multiset.mem_singleton.mp
  refine ⟨?_, fun r hr => ?_, fun r hr r' hr' hlt => ?_⟩
  · refine Multiset.nodup_of_le (Multiset.map_le_map hle) ?_
    rw [Multiset.map_add, Multiset.map_singleton]
    refine Multiset.nodup_add.mpr ⟨h.ranks, Multiset.nodup_singleton _, ?_⟩
    refine Multiset.disjoint_singleton.mpr fun hin => ?_
    obtain ⟨r, hr, hrank⟩ := Multiset.mem_map.mp hin
    have hlt := h.before r hr
    omega
  · rw [hnext]
    rcases hmem r hr with hold | rfl
    · exact Nat.lt_succ_of_lt (h.before r hold)
    · exact Nat.lt_succ_self _
  · rcases hmem r hr with hold | rfl
    · rcases hmem r' hr' with hold' | rfl
      · exact h.order r hold r' hold' hlt
      · exact hnew r hold
    · rcases hmem r' hr' with hold' | rfl
      · have hless := h.before r' hold'
        omega
      · exact absurd hlt (lt_irrefl _)

theorem mem_drain_iff_ranked {f : φ} : f ∈ q.drain.1 ↔ ∃ rank, (rank, f) ∈ q.ranked := by
  unfold drain
  simp only [List.mem_map, List.mem_mergeSort]
  constructor
  · rintro ⟨⟨rank, f⟩, hr, rfl⟩
    exact ⟨rank, by rw [← coe_flatMap_frames]; exact hr⟩
  · rintro ⟨rank, hr⟩
    exact ⟨(rank, f), by rw [← coe_flatMap_frames] at hr; exact hr, rfl⟩

theorem exists_drain_eq (hranks : (q.ranked.map Prod.fst).Nodup) :
    ∃ l : List (ℕ × φ), (l : Multiset (ℕ × φ)) = q.ranked ∧ l.Pairwise (fun a b => a.1 < b.1) ∧
      q.drain.1 = l.map Prod.snd := by
  have hperm : ((q.channels.entries.flatMap (·.2.frames)).mergeSort fun a b => a.1 ≤ b.1).Perm
      (q.channels.entries.flatMap (·.2.frames)) := mergeSort_perm _ _
  have hsorted : ((q.channels.entries.flatMap (·.2.frames)).mergeSort
      fun a b => a.1 ≤ b.1).Pairwise (fun a b => decide (a.1 ≤ b.1) = true) := by
    refine pairwise_mergeSort ?_ ?_ _
    · intro a b c
      simp only [decide_eq_true_eq]
      exact le_trans
    · intro a b
      simp only [Bool.or_eq_true, decide_eq_true_eq]
      exact le_total a.1 b.1
  have hl := (Multiset.coe_eq_coe.mpr hperm).trans (coe_flatMap_frames q)
  refine ⟨_, hl, ?_, rfl⟩
  rw [← hl, Multiset.map_coe, Multiset.coe_nodup] at hranks
  refine (hsorted.and (pairwise_map.mp hranks)).imp fun {a b} hab => ?_
  exact lt_of_le_of_ne (of_decide_eq_true hab.1) hab.2

/-- **What is kept is given back in the order it was pushed.** -/
theorem drain_increasing (h : q.Increasing number) : (q.drain.1.map number).Pairwise (· < ·) := by
  obtain ⟨l, hl, hsorted, hdrain⟩ := exists_drain_eq h.ranks
  have hmem : ∀ r ∈ l, r ∈ q.ranked := fun r hr => hl ▸ hr
  rw [hdrain, List.map_map, List.pairwise_map]
  refine hsorted.imp_of_mem ?_
  intro a b ha hb hab
  exact h.order a (hmem a ha) b (hmem b hb) hab

end AwayQueue

namespace Delivery

/-! ### The post of a daemon -/

/-- A frame of a hub's terminal, with the number the router took it under. -/
structure Routed where
  number : ℕ
  owner : OwnerId
  channelId : String
  frame : List UInt8

/-- What the writer of a connection is handed. -/
inductive Letter
  /-- The notice that a newer connection has replaced this one. -/
  | displaced (connectionId : ℕ)
  | routed (f : Routed)

/-- The frame of a letter, if it is one. -/
def Letter.frame? : Letter → Option Routed
  | .displaced _ => none
  | .routed f => some f

/-- The routes, the connections, and what went through them. -/
structure Post where
  routes : HubRoutes Routed
  owners : ℕ → Option OwnerId
  gone : ℕ → Bool
  wire : List (ℕ × Letter)
  took : List Routed

/-- Nothing was routed yet, and nobody is connected. -/
def Post.start : Post := ⟨.empty, fun _ => none, fun _ => false, [], []⟩

namespace Post

/-- Hand letters to the writer of a connection: nothing happens once it is gone. -/
def hand (s : Post) (c : ℕ) (letters : List Letter) : Post :=
  if s.gone c then s else { s with wire := s.wire ++ letters.map (c, ·) }

/-- The router takes a frame. -/
def route (s : Post) (owner : OwnerId) (channelId : String) (frame : List UInt8) : Post :=
  let f : Routed := ⟨s.took.length, owner, channelId, frame⟩
  let routed := s.routes.route (·.frame.length) (fun c => !s.gone c) owner channelId f
  { s with
    routes := routed.1
    wire := s.wire ++ (routed.2.map (·, Letter.routed f)).toList
    took := s.took ++ [f] }

/-- `register_active`. -/
def register (s : Post) (owner : OwnerId) (c : ℕ) : Post :=
  let s := (s.routes.connections.get owner).elim s fun old => s.hand old [.displaced c]
  let s := s.hand c ((s.routes.kept owner).map .routed)
  { s with
    routes := s.routes.registerActive owner c
    owners := update s.owners c (some owner) }

/-- The frames handed to a connection. -/
def sentTo (s : Post) (c : ℕ) : List Routed :=
  s.wire.filterMap fun e => if e.1 = c then e.2.frame? else none

/-- The frames handed to the connections of a hub, in order. -/
def handed (s : Post) (o : OwnerId) : List Routed :=
  s.wire.filterMap fun e => if s.owners e.1 = some o then e.2.frame? else none

end Post

/-- What can happen. -/
inductive Step
  | route (owner : OwnerId) (channelId : String) (frame : List UInt8)
  /-- A connection has authenticated as this hub. -/
  | register (owner : OwnerId) (c : ℕ)
  | writerEnds (c : ℕ)
  /-- The read loop of a connection that was registered ends. -/
  | connectionEnds (c : ℕ)
  /-- `disconnect_all`, once the terminals are torn down. -/
  | disconnectAll

/-- The post after a step, if the step is possible: a connection is registered once. -/
def post (s : Post) : Step → Option Post
  | .route owner channelId frame => some (s.route owner channelId frame)
  | .register owner c => if (s.owners c).isSome then none else some (s.register owner c)
  | .writerEnds c => some { s with gone := update s.gone c true }
  | .connectionEnds c =>
    (s.owners c).map fun owner => { s with routes := s.routes.clearActiveIfOurs owner c }
  | .disconnectAll => some { s with routes := { s.routes with connections := .empty } }

/-! ### What stays true -/

/-- What was handed over and what is kept is in order; nothing is kept for a hub whose current
connection takes frames. -/
structure Ordered (s : Post) : Prop where
  registered : ∀ o c, s.routes.connections.get o = some c → s.owners c = some o
  clear : ∀ o c, s.routes.connections.get o = some c → s.gone c = false → s.routes.queues.get o = none
  increasing : ∀ o q, s.routes.queues.get o = some q → q.Increasing Routed.number
  addressed : ∀ e ∈ s.wire, ∃ o, s.owners e.1 = some o ∧
    ∀ f, e.2 = .routed f → f.owner = o ∧ s.took[f.number]? = some f
  kept : ∀ o, ∀ f ∈ s.routes.kept o, f.owner = o ∧ s.took[f.number]? = some f
  order : ∀ o, ((s.handed o ++ s.routes.kept o).map Routed.number).Pairwise (· < ·)

namespace Post

variable {s : Post} {o : OwnerId} {c : ℕ}

theorem handed_append {s : Post} (letters : List (ℕ × Letter)) (took : List Routed)
    (routes : HubRoutes Routed) (o : OwnerId) :
    handed { s with wire := s.wire ++ letters, took := took, routes := routes } o =
      s.handed o ++ letters.filterMap fun e => if s.owners e.1 = some o then e.2.frame? else none :=
  filterMap_append

theorem mem_handed {f : Routed} (h : f ∈ s.handed o) :
    ∃ c, (c, Letter.routed f) ∈ s.wire ∧ s.owners c = some o := by
  obtain ⟨⟨c, letter⟩, hmem, hf⟩ := mem_filterMap.mp h
  obtain ⟨howner, hframe⟩ := ite_none_right_eq_some.mp hf
  cases letter with
  | displaced c' => cases hframe
  | routed g =>
    cases hframe
    exact ⟨c, hmem, howner⟩

end Post

namespace Ordered

variable {s : Post} {o : OwnerId} {c : ℕ}

theorem start : Ordered Post.start where
  registered := nofun
  clear := nofun
  increasing := nofun
  addressed := nofun
  kept := nofun
  order _ := Pairwise.nil

theorem taken (h : Ordered s) {f : Routed} (hf : f ∈ s.handed o ++ s.routes.kept o) :
    f.owner = o ∧ s.took[f.number]? = some f := by
  rcases mem_append.mp hf with hf | hf
  · obtain ⟨c, hmem, howner⟩ := Post.mem_handed hf
    obtain ⟨o', howner', htaken⟩ := h.addressed _ hmem
    obtain ⟨rfl⟩ := howner.symm.trans howner'
    exact htaken f rfl
  · exact h.kept o f hf

theorem number_lt (h : Ordered s) {f : Routed} (hf : f ∈ s.handed o ++ s.routes.kept o) :
    f.number < s.took.length :=
  (List.getElem?_eq_some_iff.mp (h.taken hf).2).1

theorem pairwise_concat {l : List Routed} (h : (l.map Routed.number).Pairwise (· < ·)) {f : Routed}
    (hf : ∀ g ∈ l, g.number < f.number) : ((l ++ [f]).map Routed.number).Pairwise (· < ·) := by
  rw [map_append, pairwise_append]
  refine ⟨h, pairwise_singleton _ _, ?_⟩
  rintro a ha b hb
  obtain ⟨g, hg, rfl⟩ := mem_map.mp ha
  obtain rfl := mem_singleton.mp hb
  exact hf g hg

theorem getElem?_concat {took : List Routed} {f : Routed} (g : Routed)
    (h : took[f.number]? = some f) : (took ++ [g])[f.number]? = some f := by
  rw [List.getElem?_append_left (List.getElem?_eq_some_iff.mp h).1]
  exact h

theorem route (h : Ordered s) (owner : OwnerId) (channelId : String) (frame : List UInt8) :
    Ordered (s.route owner channelId frame) := by
  let f : Routed := ⟨s.took.length, owner, channelId, frame⟩
  have hnew : (s.took ++ [f])[f.number]? = some f := by simp [f]
  unfold Post.route HubRoutes.route
  dsimp only
  cases htarget : s.routes.target (fun c => !s.gone c) owner with
  | some c =>
    -- the current connection takes the frame, and nothing is kept for its hub
    obtain ⟨hconn, hopen⟩ := filter_eq_some_iff.mp htarget
    have hopen : s.gone c = false := by simpa using hopen
    have howner := h.registered owner c hconn
    have hnone : s.routes.kept owner = [] := by
      unfold HubRoutes.kept
      rw [h.clear owner c hconn hopen]
      rfl
    refine ⟨h.registered, h.clear, h.increasing, ?_, fun o g hg => ?_, fun o => ?_⟩
    · intro e he
      rcases mem_append.mp he with he | he
      · obtain ⟨o, ho, htaken⟩ := h.addressed e he
        exact ⟨o, ho, fun g hg => (htaken g hg).imp_right (getElem?_concat f)⟩
      · obtain rfl := mem_singleton.mp he
        refine ⟨owner, howner, fun g hg => ?_⟩
        obtain rfl := Letter.routed.inj hg
        exact ⟨rfl, hnew⟩
    · exact (h.kept o g hg).imp_right (getElem?_concat f)
    · have hhanded := s.handed_append [(c, Letter.routed f)] (s.took ++ [f]) s.routes o
      refine hhanded ▸ ?_
      by_cases ho : o = owner
      · subst ho
        have hsingle : [(c, Letter.routed f)].filterMap
            (fun e => if s.owners e.1 = some o then e.2.frame? else none) = [f] := by
          simp [howner, Letter.frame?]
        rw [hsingle, hnone, append_nil]
        refine pairwise_concat ?_ fun g hg => h.number_lt (mem_append_left _ hg)
        have horder := h.order o
        rw [hnone, append_nil] at horder
        exact horder
      · have hsingle : [(c, Letter.routed f)].filterMap
            (fun e => if s.owners e.1 = some o then e.2.frame? else none) = [] := by
          simp [howner, Ne.symm ho]
        rw [hsingle, append_nil]
        exact h.order o
  | none =>
    -- the frame is kept, newer than all that was handed over or is kept
    have hkept : ∀ o, ∀ g ∈ (s.routes.keep (·.frame.length) owner channelId f).kept o,
        g = f ∧ o = owner ∨ g ∈ s.routes.kept o := fun o g hg => HubRoutes.mem_kept_keep hg
    have hqueue : ∀ o q, (s.routes.keep (·.frame.length) owner channelId f).queues.get o = some q →
        q.Increasing Routed.number := by
      intro o q hq
      rw [HubRoutes.keep, get_set] at hq
      by_cases ho : o = owner
      · subst ho
        rw [if_pos rfl] at hq
        cases hq
        refine AwayQueue.Increasing.push ?_ _ channelId fun r hr => ?_
        · cases hold : s.routes.queues.get o with
          | none => exact .empty
          | some q => exact h.increasing o q hold
        · cases hold : s.routes.queues.get o with
          | none =>
            rw [hold] at hr
            exact absurd hr (Multiset.notMem_zero r)
          | some q =>
            rw [hold] at hr
            have hmem : r.2 ∈ s.routes.kept o := by
              unfold HubRoutes.kept
              rw [hold]
              exact AwayQueue.mem_drain_iff_ranked.mpr ⟨r.1, hr⟩
            exact h.number_lt (mem_append_right _ hmem)
      · rw [if_neg ho] at hq
        exact h.increasing o q hq
    refine ⟨h.registered, fun o c hconn hopen => ?_, hqueue, ?_, fun o g hg => ?_, fun o => ?_⟩
    · have hne : o ≠ owner := by
        rintro rfl
        have htaken : s.routes.target (fun c => !s.gone c) o = some c :=
          filter_eq_some_iff.mpr ⟨hconn, by simpa using hopen⟩
        exact nomatch htarget.symm.trans htaken
      change (s.routes.queues.set owner _).get o = none
      rw [get_set_of_ne _ hne]
      exact h.clear o c hconn hopen
    · intro e he
      rw [map_none, toList_none, append_nil] at he
      obtain ⟨o, ho, htaken⟩ := h.addressed e he
      exact ⟨o, ho, fun g hg => (htaken g hg).imp_right (getElem?_concat f)⟩
    · rcases hkept o g hg with ⟨rfl, rfl⟩ | hold
      · exact ⟨rfl, hnew⟩
      · exact (h.kept o g hold).imp_right (getElem?_concat f)
    · have hhanded : Post.handed { s with
          routes := s.routes.keep (·.frame.length) owner channelId f
          wire := s.wire ++ []
          took := s.took ++ [f] } o = s.handed o := by
        rw [Post.handed_append, filterMap_nil, append_nil]
      change ((Post.handed _ o ++ (s.routes.keep _ owner channelId f).kept o).map
        Routed.number).Pairwise (· < ·)
      refine hhanded ▸ ?_
      have horder := h.order o
      rw [map_append, pairwise_append] at horder ⊢
      refine ⟨horder.1, ?_, ?_⟩
      · unfold HubRoutes.kept
        cases hq : (s.routes.keep (·.frame.length) owner channelId f).queues.get o with
        | none => exact Pairwise.nil
        | some q => exact AwayQueue.drain_increasing (hqueue o q hq)
      · rintro a ha b hb
        obtain ⟨g, hg, rfl⟩ := mem_map.mp hb
        rcases hkept o g hg with ⟨rfl, -⟩ | hold
        · obtain ⟨g', hg', rfl⟩ := mem_map.mp ha
          exact h.number_lt (mem_append_left _ hg')
        · exact horder.2.2 a ha g.number (mem_map_of_mem hold)

end Ordered

/-- **Registering a connection**: the one before it gets a notice, and the new one what was kept. -/
theorem register_eq (s : Post) (owner : OwnerId) (c : ℕ) :
    ∃ notice : List (ℕ × Letter),
      (∀ e ∈ notice, e.2.frame? = none ∧ s.routes.connections.get owner = some e.1) ∧
      s.register owner c =
        { s with
          routes := s.routes.registerActive owner c
          owners := update s.owners c (some owner)
          wire := s.wire ++ notice ++
            if s.gone c then [] else (s.routes.kept owner).map fun f => (c, Letter.routed f) } := by
  have hhand : ∀ w : Post, w.routes = s.routes → w.gone = s.gone →
      w.hand c ((w.routes.kept owner).map .routed) =
        { w with wire := w.wire ++
          if s.gone c then [] else (s.routes.kept owner).map fun f => (c, Letter.routed f) } := by
    intro w hroutes hgone
    unfold Post.hand
    by_cases hc : s.gone c = true
    · rw [if_pos hc, if_pos (by rw [hgone]; exact hc), append_nil]
    · rw [if_neg hc, if_neg (by rw [hgone]; exact hc), hroutes, List.map_map]
      rfl
  unfold Post.register
  dsimp only
  cases hold : s.routes.connections.get owner with
  | none =>
    refine ⟨[], nofun, ?_⟩
    rw [elim_none, hhand s rfl rfl, append_nil]
  | some old =>
    rw [elim_some]
    by_cases hgone : s.gone old = true
    · have hskip : s.hand old [.displaced c] = s := by rw [Post.hand, if_pos hgone]
      refine ⟨[], nofun, ?_⟩
      rw [hskip, hhand s rfl rfl, append_nil]
    · have htold : s.hand old [.displaced c] =
          { s with wire := s.wire ++ [(old, .displaced c)] } := by
        rw [Post.hand, if_neg hgone]
        rfl
      refine ⟨[(old, .displaced c)], fun e he => ?_, ?_⟩
      · obtain rfl := mem_singleton.mp he
        exact ⟨rfl, rfl⟩
      · rw [htold, hhand { s with wire := s.wire ++ [(old, .displaced c)] } rfl rfl]

namespace Ordered

variable {s s' : Post} {o owner : OwnerId} {c : ℕ}

theorem handed_register (h : Ordered s) (hnew : s.owners c = none) (owner o : OwnerId) :
    (s.register owner c).handed o = s.handed o ++
      if o = owner ∧ s.gone c = false then s.routes.kept owner else [] := by
  obtain ⟨notice, hnotice, heq⟩ := register_eq s owner c
  rw [heq]
  unfold Post.handed
  rw [filterMap_append, filterMap_append]
  have hbefore : (s.wire.filterMap fun e =>
      if update s.owners c (some owner) e.1 = some o then e.2.frame? else none) =
        s.wire.filterMap fun e => if s.owners e.1 = some o then e.2.frame? else none := by
    refine filterMap_congr fun e he => ?_
    obtain ⟨o', ho', -⟩ := h.addressed e he
    have hne : e.1 ≠ c := by
      rintro rfl
      exact nomatch hnew.symm.trans ho'
    rw [update_of_ne hne]
  have hnone : (notice.filterMap fun e =>
      if update s.owners c (some owner) e.1 = some o then e.2.frame? else none) = [] := by
    refine filterMap_eq_nil_iff.mpr fun e he => ?_
    rw [(hnotice e he).1, ite_self]
  rw [hbefore, hnone, append_nil]
  congr 1
  by_cases hgone : s.gone c = true
  · rw [if_pos hgone, if_neg fun hand => by simp [hgone] at hand]
    rfl
  · rw [if_neg hgone, filterMap_map]
    by_cases ho : o = owner
    · rw [if_pos ⟨ho, by simpa using hgone⟩]
      simp [Letter.frame?, ho]
    · rw [if_neg fun hand => ho hand.1]
      simp [Ne.symm ho]

theorem register (h : Ordered s) (hnew : s.owners c = none) : Ordered (s.register owner c) := by
  have hhanded := h.handed_register hnew owner
  have hnot : ∀ o c', s.routes.connections.get o = some c' → c' ≠ c := by
    rintro o c' hconn rfl
    exact nomatch hnew.symm.trans (h.registered o c' hconn)
  obtain ⟨notice, hnotice, heq⟩ := register_eq s owner c
  rw [heq] at hhanded ⊢
  have hkept : ∀ o, (s.routes.registerActive owner c).kept o =
      if o = owner then [] else s.routes.kept o := fun o => s.routes.kept_registerActive owner o c
  refine ⟨fun o c' hconn => ?_, fun o c' hconn hopen => ?_, fun o q hq => ?_, fun e he => ?_,
    fun o g hg => ?_, fun o => ?_⟩
  · have hconn : (s.routes.connections.set owner c).get o = some c' := hconn
    rw [get_set] at hconn
    dsimp only
    split at hconn
    · next ho =>
      cases hconn
      rw [update_self, ho]
    · rw [update_of_ne (hnot o c' hconn)]
      exact h.registered o c' hconn
  · have hconn : (s.routes.connections.set owner c).get o = some c' := hconn
    change (s.routes.queues.delete owner).get o = none
    rw [get_set] at hconn
    rw [get_delete]
    split
    · rfl
    · next ho =>
      rw [if_neg ho] at hconn
      exact h.clear o c' hconn hopen
  · have hq : (s.routes.queues.delete owner).get o = some q := hq
    rw [get_delete] at hq
    exact h.increasing o q (ite_none_left_eq_some.mp hq).2
  · dsimp only at he ⊢
    rcases mem_append.mp he with he | he
    · rcases mem_append.mp he with he | he
      · obtain ⟨o, ho, htaken⟩ := h.addressed e he
        have hne : e.1 ≠ c := by
          rintro rfl
          exact nomatch hnew.symm.trans ho
        exact ⟨o, by rw [update_of_ne hne]; exact ho, htaken⟩
      · obtain ⟨hframe, hconn⟩ := hnotice e he
        refine ⟨owner, ?_, fun f hf => ?_⟩
        · rw [update_of_ne (hnot owner e.1 hconn)]
          exact h.registered owner e.1 hconn
        · rw [hf] at hframe
          cases hframe
    · split at he
      · cases he
      · obtain ⟨f, hf, rfl⟩ := mem_map.mp he
        refine ⟨owner, update_self .., fun g hg => ?_⟩
        obtain rfl := Letter.routed.inj hg
        exact h.kept owner f hf
  · have hg : g ∈ (s.routes.registerActive owner c).kept o := hg
    rw [hkept] at hg
    split at hg
    · cases hg
    · exact h.kept o g hg
  · have horder := h.order o
    rw [hhanded o]
    rw [hkept]
    by_cases ho : o = owner
    · subst ho
      rw [if_pos rfl, append_nil]
      split
      · exact horder
      · rw [append_nil]
        exact horder.sublist ((sublist_append_left _ _).map _)
    · rw [if_neg ho, if_neg fun hand => ho hand.1, append_nil]
      exact horder

theorem connectionEnds (h : Ordered s) (owner : OwnerId) (c : ℕ) :
    Ordered { s with routes := s.routes.clearActiveIfOurs owner c } := by
  have hconns : ∀ o c', (s.routes.clearActiveIfOurs owner c).connections.get o = some c' →
      s.routes.connections.get o = some c' := by
    intro o c' hconn
    unfold HubRoutes.clearActiveIfOurs at hconn
    split at hconn
    · have hconn : (s.routes.connections.delete owner).get o = some c' := hconn
      rw [get_delete] at hconn
      exact (ite_none_left_eq_some.mp hconn).2
    · exact hconn
  have hqueues : (s.routes.clearActiveIfOurs owner c).queues = s.routes.queues := by
    unfold HubRoutes.clearActiveIfOurs
    split <;> rfl
  have hkept : ∀ o, (s.routes.clearActiveIfOurs owner c).kept o = s.routes.kept o :=
    fun o => s.routes.kept_clearActiveIfOurs owner o c
  refine ⟨fun o c' hconn => h.registered o c' (hconns o c' hconn), fun o c' hconn hopen => ?_,
    fun o q hq => ?_, h.addressed, fun o f hf => ?_, fun o => ?_⟩
  · exact hqueues ▸ h.clear o c' (hconns o c' hconn) hopen
  · exact h.increasing o q (hqueues ▸ hq)
  · exact h.kept o f (hkept o ▸ hf)
  · have horder := h.order o
    rw [← hkept o] at horder
    exact horder

theorem step (h : Ordered s) {step : Step} (hn : post s step = some s') : Ordered s' := by
  cases step with
  | route owner channelId frame =>
    cases hn
    exact h.route owner channelId frame
  | register owner c =>
    obtain ⟨hnew, ⟨rfl⟩⟩ := ite_none_left_eq_some.mp hn
    exact h.register (by simpa using hnew)
  | writerEnds c =>
    cases hn
    refine ⟨h.registered, fun o c' hconn hopen => h.clear o c' hconn ?_, h.increasing, h.addressed,
      h.kept, h.order⟩
    dsimp only at hopen
    by_cases hc : c' = c
    · rw [hc, update_self] at hopen
      cases hopen
    · rwa [update_of_ne hc] at hopen
  | connectionEnds c =>
    obtain ⟨owner, -, rfl⟩ := map_eq_some_iff.mp hn
    exact h.connectionEnds owner c
  | disconnectAll =>
    cases hn
    exact ⟨nofun, nofun, h.increasing, h.addressed, h.kept, h.order⟩

end Ordered

/-! ### The frames of one connection -/

/-- From its registration on, a connection was handed `kept` first, and then frames the router took
from `n` on. -/
structure Continues (kept : List Routed) (n : ℕ) (c : ℕ) (s : Post) : Prop where
  owned : (s.owners c).isSome
  taken : n ≤ s.took.length
  sent : ∃ later, s.sentTo c = kept ++ later ∧ ∀ f ∈ later, n ≤ f.number

namespace Continues

variable {kept : List Routed} {n c : ℕ} {s s' : Post}

theorem sentTo_append (s : Post) (letters : List (ℕ × Letter)) (c : ℕ) :
    Post.sentTo { s with wire := s.wire ++ letters } c =
      s.sentTo c ++ letters.filterMap fun e => if e.1 = c then e.2.frame? else none :=
  filterMap_append

theorem step (h : Continues kept n c s) {step : Step} (hn : post s step = some s') :
    Continues kept n c s' := by
  obtain ⟨later, hsent, hlater⟩ := h.sent
  cases step with
  | route owner channelId frame =>
    cases hn
    refine ⟨h.owned, ?_, ?_⟩
    · change n ≤ (s.took ++ _).length
      rw [length_append]
      exact h.taken.trans (Nat.le_add_right _ _)
    · let f : Routed := ⟨s.took.length, owner, channelId, frame⟩
      let letters := (s.routes.route (·.frame.length) (fun c => !s.gone c) owner channelId
        f).2.map (·, Letter.routed f)
      refine ⟨later ++ letters.toList.filterMap fun e => if e.1 = c then e.2.frame? else none, ?_, ?_⟩
      · rw [← append_assoc, ← hsent]
        exact sentTo_append s letters.toList c
      · intro g hg
        rcases mem_append.mp hg with hg | hg
        · exact hlater g hg
        · obtain ⟨e, he, hframe⟩ := mem_filterMap.mp hg
          obtain ⟨c', -, rfl⟩ := map_eq_some_iff.mp (mem_toList.mp he)
          obtain ⟨-, ⟨rfl⟩⟩ := ite_none_right_eq_some.mp hframe
          exact h.taken
  | register owner c' =>
    obtain ⟨hnew, ⟨rfl⟩⟩ := ite_none_left_eq_some.mp hn
    -- another connection is registered: this one gets a notice at most
    have hne : c ≠ c' := by
      rintro rfl
      exact hnew h.owned
    obtain ⟨notice, hnotice, heq⟩ := register_eq s owner c'
    rw [heq]
    refine ⟨?_, h.taken, later, ?_, hlater⟩
    · dsimp only
      rw [update_of_ne hne]
      exact h.owned
    · rw [← hsent]
      unfold Post.sentTo
      rw [filterMap_append, filterMap_append]
      have hnone : (notice.filterMap fun e => if e.1 = c then e.2.frame? else none) = [] := by
        refine filterMap_eq_nil_iff.mpr fun e he => ?_
        rw [(hnotice e he).1, ite_self]
      have hother : ((if s.gone c' then [] else
          (s.routes.kept owner).map fun f => (c', Letter.routed f)).filterMap
            fun e => if e.1 = c then e.2.frame? else none) = [] := by
        refine filterMap_eq_nil_iff.mpr fun e he => ?_
        split at he
        · cases he
        · obtain ⟨f, -, rfl⟩ := mem_map.mp he
          exact if_neg (Ne.symm hne)
      rw [hnone, hother, append_nil, append_nil]
  | writerEnds | disconnectAll =>
    cases hn
    exact ⟨h.owned, h.taken, later, hsent, hlater⟩
  | connectionEnds c' =>
    obtain ⟨owner, -, rfl⟩ := map_eq_some_iff.mp hn
    exact ⟨h.owned, h.taken, later, hsent, hlater⟩

theorem registered (h : Ordered s) {owner : OwnerId} (hnew : s.owners c = none)
    (hopen : s.gone c = false) :
    Continues (s.routes.kept owner) s.took.length c (s.register owner c) := by
  obtain ⟨notice, hnotice, heq⟩ := register_eq s owner c
  rw [heq]
  refine ⟨?_, le_rfl, [], ?_, nofun⟩
  · dsimp only
    rw [update_self]
    rfl
  · unfold Post.sentTo
    rw [filterMap_append, filterMap_append, append_nil]
    have hbefore : (s.wire.filterMap fun e => if e.1 = c then e.2.frame? else none) = [] := by
      refine filterMap_eq_nil_iff.mpr fun e he => if_neg ?_
      rintro rfl
      obtain ⟨o, ho, -⟩ := h.addressed e he
      exact nomatch hnew.symm.trans ho
    have hnone : (notice.filterMap fun e => if e.1 = c then e.2.frame? else none) = [] := by
      refine filterMap_eq_nil_iff.mpr fun e he => ?_
      rw [(hnotice e he).1, ite_self]
    rw [hbefore, hnone, hopen, if_neg Bool.false_ne_true, filterMap_map]
    simp [Letter.frame?]

end Continues

/-- **In the order the router took them.**  A hub has at most one current connection.  What was
handed to its connections, and then what is kept for it, are frames of its terminals in the order
the router took them, each once.  What was kept goes out on a new connection before what is routed
after its registration.  And the end of a connection takes no other connection's place away and
moves no frame. -/
theorem delivered_in_order (s : Post) (h : Run post free Post.start s) :
    (∀ o, (s.routes.connections.entries.filter (·.1 = o)).length ≤ 1) ∧
    (∀ o, ((s.handed o ++ s.routes.kept o).map Routed.number).Pairwise (· < ·) ∧
      ∀ f ∈ s.handed o ++ s.routes.kept o, f.owner = o ∧ s.took[f.number]? = some f) ∧
    (∀ o c s', post s (.register o c) = some s' → s.gone c = false →
      ∀ s'', Run post free s' s'' → ∃ later, s''.sentTo c = s.routes.kept o ++ later ∧
        ∀ f ∈ later, s.took.length ≤ f.number) ∧
    ∀ c s', post s (.connectionEnds c) = some s' →
      (∀ o c', s.routes.connections.get o = some c' → c' ≠ c →
        s'.routes.connections.get o = some c') ∧
      s'.routes.queues = s.routes.queues ∧ s'.wire = s.wire := by
  have hordered : Ordered s := h.invariant .start fun _ _ _ hs _ hn => hs.step hn
  refine ⟨fun o => ?_, fun o => ⟨hordered.order o, fun f => hordered.taken⟩, ?_, ?_⟩
  · have hnodup := s.routes.connections.nodup_keys
    rw [nodup_iff_count_le_one] at hnodup
    have hcount := hnodup o
    rw [count, countP_map, countP_eq_length_filter] at hcount
    exact hcount
  · intro o c s' hn hopen s'' hrun
    obtain ⟨hnew, hn⟩ := ite_none_left_eq_some.mp hn
    obtain ⟨rfl⟩ := hn
    have hnew : s.owners c = none := by simpa using hnew
    have hcontinues := hrun.invariant (Continues.registered hordered hnew hopen)
      fun _ _ _ hs _ hn => hs.step hn
    exact hcontinues.sent
  · intro c s' hn
    obtain ⟨owner, -, rfl⟩ := map_eq_some_iff.mp hn
    unfold HubRoutes.clearActiveIfOurs
    split
    · next hours =>
      refine ⟨fun o c' hconn hne => ?_, rfl, rfl⟩
      have ho : o ≠ owner := by
        rintro rfl
        exact hne (some.inj (hconn.symm.trans hours))
      exact (get_delete_of_ne _ ho).trans hconn
    · exact ⟨fun _ _ hconn _ => hconn, rfl, rfl⟩

/-- A hub leaves while its terminal prints, comes back, and comes back again before the connection
it left has ended. -/
def comesBack (o : OwnerId) : List Step :=
  [.register o 1, .route o "t" [1], .writerEnds 1, .route o "t" [2], .register o 2,
    .route o "t" [3], .connectionEnds 1, .route o "t" [4]]

theorem delivered_in_order_comesBack : ∃ s, Run post free Post.start s ∧
    (s.handed ⟨"hub"⟩).map Routed.frame = [[1], [2], [3], [4]] ∧
    ((s.handed ⟨"hub"⟩ ++ s.routes.kept ⟨"hub"⟩).map Routed.number).Pairwise (· < ·) := by
  have hrun : Run post free Post.start _ := .get_free (comesBack ⟨"hub"⟩) (by decide +kernel)
  exact ⟨_, hrun, by decide +kernel, ((delivered_in_order _ hrun).2.1 ⟨"hub"⟩).1⟩

end Delivery

end Lasterm.Agent
