import Lasterm.Lib.OrderedMap
import Lasterm.Lib.Run

/-!
# Who is connecting to a host

`session-acquisition.ts`: while a host is being reached, one *acquisition* is the authority
over it.  Everyone who wants the host meanwhile joins that acquisition and holds a *lease*
on it until they are done; the acquisition ends by being committed, by failing, by being
closed, or by being abandoned when its last lease is released.

Those who hold an acquisition hold the object, not the host: an older one may still be
unwinding while a newer one of the same host is in the map.  So acquisitions and leases are
named here by their place in the list of all that were ever made, and a primitive may be
called with any of them at any time.  Every primitive is one synchronous block.

## Main definitions

* `Acquisitions` — the acquisitions, the leases, and the map of those under way.

## Main results

* `Sound.next` — the step lemma; `acquisitions_safe` — every run.
-/

open Transition Option OrderedMap List

namespace Lasterm.Hub.Acq

/-! ### Acquisitions and leases -/

/-- The state of an acquisition. -/
inductive AcqState
  | connecting
  | reconnecting
  | closing
  | failed
deriving DecidableEq

/-- The states an acquisition does not leave, and in which it is not joined. -/
def AcqState.terminal : AcqState → Bool
  | .closing | .failed => true
  | .connecting | .reconnecting => false

/-- How a connect promise was settled: with the session, by its id, or with an error, by
its message. -/
inductive Outcome
  | resolved (session : String)
  | rejected (message : String)

/-- An acquisition, named by its place among all that were made. -/
abbrev AcqRef := ℕ

/-- A lease, named by its place among all that were made. -/
abbrev LeaseRef := ℕ

/-- `SessionAcquisition`.  `aborted` is the signal of its controller and `connectPromise`
what its promise was settled with, if it was. -/
structure SessionAcquisition where
  id : String
  hostId : String
  state : AcqState
  aborted : Bool
  connectPromise : Option Outcome
  leases : OrderedSet LeaseRef

namespace SessionAcquisition

/-- A call of `_resolve` or `_reject`: a promise that is settled keeps what it was settled
with. -/
def settle (q : SessionAcquisition) (o : Outcome) : SessionAcquisition :=
  { q with connectPromise := q.connectPromise.or (some o) }

/-- The acquisition is in another state. -/
def setState (q : SessionAcquisition) (state : AcqState) : SessionAcquisition :=
  { q with state := state }

/-- Its connect is aborted. -/
def abort (q : SessionAcquisition) : SessionAcquisition := { q with aborted := true }

/-- A lease on it is handed out. -/
def addLease (q : SessionAcquisition) (l : LeaseRef) : SessionAcquisition :=
  { q with leases := q.leases.add l }

/-- A lease on it is given back. -/
def deleteLease (q : SessionAcquisition) (l : LeaseRef) : SessionAcquisition :=
  { q with leases := q.leases.delete l }

end SessionAcquisition

/-- `Lease`.  `acq` is its back-reference. -/
structure Lease where
  id : String
  hostId : String
  acqId : String
  clientId : String
  released : Bool
  acq : AcqRef

/-- The map of `ctx.acquisitions`, with every acquisition and every lease ever made. -/
structure Acquisitions where
  acquisitions : OrderedMap String AcqRef
  acqs : List SessionAcquisition
  leases : List Lease

namespace Acquisitions

/-- No acquisition was begun. -/
def empty : Acquisitions := ⟨.empty, [], []⟩

/-- Change one acquisition. -/
def edit (r : Acquisitions) (a : AcqRef) (f : SessionAcquisition → SessionAcquisition) :
    Acquisitions :=
  { r with acqs := r.acqs.modify a f }

/-- Take an acquisition out of the map, if it is the one its host has there. -/
def deleteIfSame (r : Acquisitions) (hostId : String) (a : AcqRef) : Acquisitions :=
  if r.acquisitions.get hostId = some a then
    { r with acquisitions := r.acquisitions.delete hostId }
  else r

/-! ### The primitives -/

/-- `acquire`: a new acquisition, which takes the host's place in the map whatever was
there, and its leader's lease.  The ids are the two that `generateId` gives. -/
def acquire (r : Acquisitions) (acqId leaseId hostId clientId : String) :
    Acquisitions × AcqRef × LeaseRef :=
  let a := r.acqs.length
  let l := r.leases.length
  let acq : SessionAcquisition := ⟨acqId, hostId, .connecting, false, none, .empty⟩
  let lease : Lease := ⟨leaseId, hostId, acqId, clientId, false, a⟩
  (⟨r.acquisitions.set hostId a, r.acqs ++ [acq.addLease l], r.leases ++ [lease]⟩, a, l)

/-- `join`: a lease on an acquisition, or none if it is closing or has failed. -/
def join (r : Acquisitions) (a : AcqRef) (leaseId clientId : String) :
    Acquisitions × Option LeaseRef :=
  match r.acqs[a]? with
  | none => (r, none)
  | some acq =>
    if acq.state = .closing ∨ acq.state = .failed then (r, none)
    else
      let l := r.leases.length
      let lease : Lease := ⟨leaseId, acq.hostId, acq.id, clientId, false, a⟩
      ({ r.edit a (·.addLease l) with leases := r.leases ++ [lease] }, some l)

/-- `commit`: out of the map, and its waiters have the session.  Its state is left. -/
def commit (r : Acquisitions) (a : AcqRef) (session : String) : Acquisitions :=
  match r.acqs[a]? with
  | none => r
  | some acq => (r.deleteIfSame acq.hostId a).edit a (·.settle (.resolved session))

/-- `fail`: its waiters are refused, and the next to ask begins another. -/
def fail (r : Acquisitions) (a : AcqRef) (err : String) : Acquisitions :=
  match r.acqs[a]? with
  | none => r
  | some acq =>
    ((r.edit a (·.setState .failed)).deleteIfSame acq.hostId a).edit a
      (·.settle (.rejected err))

/-- What ends an acquisition from outside: closing, out of the map, aborted, and its
waiters have the error. -/
def callOff (r : Acquisitions) (hostId : String) (a : AcqRef) (message : String) :
    Acquisitions :=
  ((r.edit a (·.setState .closing)).deleteIfSame hostId a).edit a
    fun acq => acq.abort.settle (.rejected message)

/-- `release`: the lease leaves its acquisition, whether that one is still in the map or
not; if it is, and has no lease left and its host no channel, it is abandoned. -/
def release (r : Acquisitions) (l : LeaseRef) (hasChannels : Bool) : Acquisitions × Bool :=
  match r.leases[l]? with
  | none => (r, false)
  | some lease =>
    if lease.released then (r, false)
    else
      let r := { r with leases := r.leases.modify l fun v => { v with released := true } }
      let a := lease.acq
      let r := r.edit a (·.deleteLease l)
      let inMap := r.acquisitions.get lease.hostId = some a
      let left := ((r.acqs[a]?).map fun acq => acq.leases.elems).getD []
      if ¬inMap then (r, false)
      else if left = [] ∧ hasChannels = false then
        (r.callOff lease.hostId a
          "session abandoned: all spawn intents released with no channels", true)
      else (r, false)

/-- `close`: what the host has in the map, if anything. -/
def close (r : Acquisitions) (hostId : String) : Acquisitions × Option AcqRef :=
  match r.acquisitions.get hostId with
  | none => (r, none)
  | some a => (r.callOff hostId a "session closed", some a)

/-- `shutdownAll`: every acquisition is aborted and its waiters are refused. -/
def shutdownAll (r : Acquisitions) : Acquisitions :=
  let r := (r.acquisitions.entries.map Prod.snd).foldl (fun r a => r.edit a fun acq =>
    ((acq.setState .closing).abort).settle (.rejected "hub shutting down")) r
  { r with acquisitions := .empty }

end Acquisitions

/-- One call of a primitive. -/
inductive Step
  | acquire (acqId leaseId hostId clientId : String)
  | join (a : AcqRef) (leaseId clientId : String)
  | commit (a : AcqRef) (session : String)
  | fail (a : AcqRef) (err : String)
  | release (l : LeaseRef) (hasChannels : Bool)
  | close (hostId : String)
  | shutdownAll

namespace Acquisitions

/-- A primitive is called with objects that were made. -/
def next (r : Acquisitions) : Step → Option Acquisitions
  | .acquire acqId leaseId hostId clientId =>
    some (r.acquire acqId leaseId hostId clientId).1
  | .join a leaseId clientId =>
    if a < r.acqs.length then some (r.join a leaseId clientId).1 else none
  | .commit a session => if a < r.acqs.length then some (r.commit a session) else none
  | .fail a err => if a < r.acqs.length then some (r.fail a err) else none
  | .release l hasChannels =>
    if l < r.leases.length then some (r.release l hasChannels).1 else none
  | .close hostId => some (r.close hostId).1
  | .shutdownAll => some r.shutdownAll

/-- A newer acquisition of the same host has been made. -/
def Superseded (r : Acquisitions) (a b : AcqRef) : Prop :=
  a < b ∧ ∃ p q, r.acqs[a]? = some p ∧ r.acqs[b]? = some q ∧ p.hostId = q.hostId

end Acquisitions

/-- The acquisition that a step fails, commits, releases a lease of or closes. -/
def Step.target (r : Acquisitions) : Step → Option AcqRef
  | .commit a _ | .fail a _ => some a
  | .release l _ => (r.leases[l]?).map Lease.acq
  | .close hostId => r.acquisitions.get hostId
  | .acquire .. | .join .. | .shutdownAll => none

/-! ### What is done to one acquisition -/

/-- From `q` to `q'` an acquisition only goes on: it does not leave a terminal state, its
signal stays aborted, and its promise keeps what it was settled with. -/
structure Evolves (q q' : SessionAcquisition) : Prop where
  hostId : q'.hostId = q.hostId
  terminal : q.state.terminal = true → q'.state.terminal = true
  aborted : q.aborted = true → q'.aborted = true
  settled : ∀ o, q.connectPromise = some o → q'.connectPromise = some o

namespace Evolves

variable {q q' q'' : SessionAcquisition}

theorem refl (q : SessionAcquisition) : Evolves q q := ⟨rfl, id, id, fun _ => id⟩

theorem trans (h : Evolves q q') (h' : Evolves q' q'') : Evolves q q'' where
  hostId := h'.hostId.trans h.hostId
  terminal := fun ht => h'.terminal (h.terminal ht)
  aborted := fun ha => h'.aborted (h.aborted ha)
  settled := fun o ho => h'.settled o (h.settled o ho)

theorem settle (q : SessionAcquisition) (o : Outcome) : Evolves q (q.settle o) where
  hostId := rfl
  terminal := id
  aborted := id
  settled := by
    intro o' ho
    simp [SessionAcquisition.settle, ho]

theorem setState (q : SessionAcquisition) {state : AcqState} (h : state.terminal = true) :
    Evolves q (q.setState state) := ⟨rfl, fun _ => h, id, fun _ => id⟩

theorem abort (q : SessionAcquisition) : Evolves q q.abort := ⟨rfl, id, fun _ => rfl, fun _ => id⟩

theorem addLease (q : SessionAcquisition) (l : LeaseRef) : Evolves q (q.addLease l) :=
  ⟨rfl, id, id, fun _ => id⟩

theorem deleteLease (q : SessionAcquisition) (l : LeaseRef) : Evolves q (q.deleteLease l) :=
  ⟨rfl, id, id, fun _ => id⟩

end Evolves

namespace Acquisitions

variable {r r' r'' : Acquisitions} {a b : AcqRef} {l : LeaseRef} {hostId : String}
  {q : SessionAcquisition} {f : SessionAcquisition → SessionAcquisition}

theorem acqs_edit_self (h : r.acqs[a]? = some q) : (r.edit a f).acqs[a]? = some (f q) := by
  simp [edit, h]

theorem acqs_edit_of_ne (h : b ≠ a) : (r.edit a f).acqs[b]? = r.acqs[b]? := by
  simp [edit, Ne.symm h]

@[simp] theorem leases_edit : (r.edit a f).leases = r.leases := rfl

@[simp] theorem acquisitions_edit : (r.edit a f).acquisitions = r.acquisitions := rfl

@[simp] theorem acqs_deleteIfSame : (r.deleteIfSame hostId a).acqs = r.acqs := by
  unfold deleteIfSame
  split <;> rfl

@[simp] theorem leases_deleteIfSame : (r.deleteIfSame hostId a).leases = r.leases := by
  unfold deleteIfSame
  split <;> rfl

theorem get_deleteIfSame {host : String} :
    (r.deleteIfSame hostId a).acquisitions.get host = some b ↔
      r.acquisitions.get host = some b ∧ ¬(host = hostId ∧ b = a) := by
  unfold deleteIfSame
  by_cases hhost : host = hostId
  · subst hhost
    split
    · next hget =>
      rw [get_delete_self, hget]
      constructor
      · exact nofun
      · rintro ⟨hab, hne⟩
        exact absurd ⟨rfl, (some.inj hab).symm⟩ hne
    · next hget =>
      constructor
      · intro hb
        exact ⟨hb, fun hne => hget (hne.2 ▸ hb)⟩
      · exact And.left
  · have : (if r.acquisitions.get hostId = some a then
        { r with acquisitions := r.acquisitions.delete hostId } else r).acquisitions.get host =
        r.acquisitions.get host := by
      split
      · exact get_delete_of_ne _ hhost
      · rfl
    rw [this]
    simp [hhost]

/-- What is done to `a` is done to no other acquisition, and takes no other out of the map. -/
structure Acts (a : AcqRef) (r r' : Acquisitions) : Prop where
  others : ∀ b, b ≠ a → r'.acqs[b]? = r.acqs[b]?
  self : ∀ q, r.acqs[a]? = some q → ∃ q', r'.acqs[a]? = some q' ∧ Evolves q q'
  entries : ∀ host b, b ≠ a → r.acquisitions.get host = some b →
    r'.acquisitions.get host = some b

theorem Acts.refl (a : AcqRef) (r : Acquisitions) : Acts a r r :=
  ⟨fun _ _ => rfl, fun q h => ⟨q, h, .refl q⟩, fun _ _ _ => id⟩

theorem Acts.trans (h : Acts a r r') (h' : Acts a r' r'') : Acts a r r'' where
  others := fun b hb => (h'.others b hb).trans (h.others b hb)
  self := by
    intro q hq
    obtain ⟨q', hq', hev⟩ := h.self q hq
    obtain ⟨q'', hq'', hev'⟩ := h'.self q' hq'
    exact ⟨q'', hq'', hev.trans hev'⟩
  entries := fun host b hb hget => h'.entries host b hb (h.entries host b hb hget)

theorem acts_edit (r : Acquisitions) (a : AcqRef) (hf : ∀ q, Evolves q (f q)) :
    Acts a r (r.edit a f) where
  others := fun _ hb => acqs_edit_of_ne hb
  self := fun q hq => ⟨f q, acqs_edit_self hq, hf q⟩
  entries := fun _ _ _ => id

theorem acts_deleteIfSame (r : Acquisitions) (hostId : String) (a : AcqRef) :
    Acts a r (r.deleteIfSame hostId a) where
  others := fun _ _ => by rw [acqs_deleteIfSame]
  self := fun q hq => ⟨q, by rw [acqs_deleteIfSame, hq], .refl q⟩
  entries := fun _ _ hb hget => get_deleteIfSame.mpr ⟨hget, fun h => hb h.2⟩

theorem acts_commit (r : Acquisitions) (a : AcqRef) (session : String) :
    Acts a r (r.commit a session) := by
  unfold commit
  split
  · exact .refl a r
  · exact (acts_deleteIfSame r _ a).trans (acts_edit _ a fun q => .settle q _)

theorem acts_fail (r : Acquisitions) (a : AcqRef) (err : String) : Acts a r (r.fail a err) := by
  unfold fail
  split
  · exact .refl a r
  · exact ((acts_edit r a fun q => .setState q rfl).trans (acts_deleteIfSame _ _ a)).trans
      (acts_edit _ a fun q => .settle q _)

theorem acts_callOff (r : Acquisitions) (hostId : String) (a : AcqRef) (message : String) :
    Acts a r (r.callOff hostId a message) :=
  ((acts_edit r a fun q => .setState q rfl).trans (acts_deleteIfSame _ hostId a)).trans
    (acts_edit _ a fun q => (Evolves.abort q).trans (.settle _ _))

/-- The first half of a release: the lease is marked and leaves its acquisition. -/
def letGo (r : Acquisitions) (l : LeaseRef) (a : AcqRef) : Acquisitions :=
  { r with leases := r.leases.modify l fun v => { v with released := true } }.edit a
    (·.deleteLease l)

theorem release_cases (r : Acquisitions) {l : LeaseRef} {v : Lease} (hv : r.leases[l]? = some v)
    (hasChannels : Bool) :
    (v.released = true ∧ r.release l hasChannels = (r, false)) ∨
    (v.released = false ∧ r.release l hasChannels = (r.letGo l v.acq, false)) ∨
    (v.released = false ∧ ∃ message, r.release l hasChannels =
      ((r.letGo l v.acq).callOff v.hostId v.acq message, true)) := by
  unfold release
  rw [hv]
  dsimp only
  by_cases hrel : v.released = true
  · exact .inl ⟨hrel, if_pos hrel⟩
  · have hnot : v.released = false := by simpa using hrel
    rw [if_neg hrel]
    refine .inr ?_
    split
    · exact .inl ⟨hnot, rfl⟩
    · split
      · exact .inr ⟨hnot, _, rfl⟩
      · exact .inl ⟨hnot, rfl⟩

theorem acts_letGo (r : Acquisitions) (l : LeaseRef) (a : AcqRef) : Acts a r (r.letGo l a) :=
  have hmark : Acts a r { r with
      leases := r.leases.modify l fun v => { v with released := true } } :=
    ⟨fun _ _ => rfl, fun q hq => ⟨q, hq, .refl q⟩, fun _ _ _ => id⟩
  hmark.trans (acts_edit _ a fun q => .deleteLease q l)

theorem acts_release {v : Lease} (hv : r.leases[l]? = some v) (hasChannels : Bool) :
    Acts v.acq r (r.release l hasChannels).1 := by
  obtain ⟨-, h⟩ | ⟨-, h⟩ | ⟨-, message, h⟩ := r.release_cases hv hasChannels
  · rw [h]
    exact .refl v.acq r
  · rw [h]
    exact acts_letGo r l v.acq
  · rw [h]
    exact (acts_letGo r l v.acq).trans (acts_callOff _ _ _ _)

theorem acts_next {x : Step} (hn : r.next x = some r') (ha : x.target r = some a) :
    Acts a r r' := by
  cases x with
  | acquire | join | shutdownAll => exact absurd ha nofun
  | commit c session =>
    obtain rfl := some.inj ha
    obtain ⟨-, h⟩ := ite_none_right_eq_some.mp hn
    obtain rfl := some.inj h
    exact acts_commit r c session
  | fail c err =>
    obtain rfl := some.inj ha
    obtain ⟨-, h⟩ := ite_none_right_eq_some.mp hn
    obtain rfl := some.inj h
    exact acts_fail r c err
  | release l hasChannels =>
    obtain ⟨v, hv, rfl⟩ := map_eq_some_iff.mp ha
    obtain ⟨-, h⟩ := ite_none_right_eq_some.mp hn
    obtain rfl := some.inj h
    exact acts_release hv hasChannels
  | close hostId =>
    obtain rfl := some.inj hn
    have ha : r.acquisitions.get hostId = some a := ha
    simp only [close, ha]
    exact acts_callOff r hostId a _

/-! ### What every step does to every acquisition -/

/-- Every acquisition goes on from `r` to `r'`. -/
def Advances (r r' : Acquisitions) : Prop :=
  ∀ (a : AcqRef) (q : SessionAcquisition), r.acqs[a]? = some q →
    ∃ q', r'.acqs[a]? = some q' ∧ Evolves q q'

theorem Advances.refl (r : Acquisitions) : Advances r r := fun _ q h => ⟨q, h, .refl q⟩

theorem Advances.trans (h : Advances r r') (h' : Advances r' r'') : Advances r r'' := by
  intro a q hq
  obtain ⟨q', hq', hev⟩ := h a q hq
  obtain ⟨q'', hq'', hev'⟩ := h' a q' hq'
  exact ⟨q'', hq'', hev.trans hev'⟩

theorem Acts.advances (h : Acts a r r') : Advances r r' := by
  intro b q hq
  by_cases hb : b = a
  · subst hb
    exact h.self q hq
  · exact ⟨q, (h.others b hb).trans hq, .refl q⟩

theorem advances_acquire (r : Acquisitions) (acqId leaseId hostId clientId : String) :
    Advances r (r.acquire acqId leaseId hostId clientId).1 := by
  intro b q hq
  have hlt : b < r.acqs.length := (List.getElem?_eq_some_iff.mp hq).1
  refine ⟨q, ?_, .refl q⟩
  rw [← hq]
  exact getElem?_append_left hlt

theorem advances_join (r : Acquisitions) (a : AcqRef) (leaseId clientId : String) :
    Advances r (r.join a leaseId clientId).1 := by
  unfold join
  split
  · exact .refl r
  · split
    · exact .refl r
    · exact (acts_edit r a fun q => .addLease q _).advances

theorem advances_shutdownAll (r : Acquisitions) : Advances r r.shutdownAll := by
  -- the clearing of the map changes no acquisition
  change Advances r (foldl _ r (r.acquisitions.entries.map Prod.snd))
  induction r.acquisitions.entries.map Prod.snd generalizing r with
  | nil => exact .refl r
  | cons a as ih =>
    refine Advances.trans (Acts.advances (acts_edit r a ?_)) (ih _)
    intro q
    exact ((Evolves.setState q rfl).trans (.abort _)).trans (.settle _ _)

theorem advances_next {x : Step} (hn : r.next x = some r') : Advances r r' := by
  cases x with
  | acquire acqId leaseId hostId clientId =>
    cases hn
    exact advances_acquire r acqId leaseId hostId clientId
  | join a leaseId clientId =>
    obtain ⟨-, ⟨rfl⟩⟩ := ite_none_right_eq_some.mp hn
    exact advances_join r a leaseId clientId
  | commit | fail => exact (acts_next hn rfl).advances
  | release l hasChannels =>
    obtain ⟨hl, -⟩ := ite_none_right_eq_some.mp hn
    have ha : (Step.release l hasChannels).target r = some (r.leases[l]).acq := by
      simp [Step.target, hl]
    exact (acts_next hn ha).advances
  | close hostId =>
    cases hget : r.acquisitions.get hostId with
    | none =>
      simp only [next, close, hget] at hn
      cases hn
      exact .refl r
    | some a => exact (acts_next hn hget).advances
  | shutdownAll =>
    cases hn
    exact advances_shutdownAll r

theorem advances_run (h : Run next free r r') : Advances r r' := by
  induction h with
  | start => exact .refl r
  | step _ _ hn ih => exact ih.trans (advances_next hn)

/-! ### The invariant -/

/-- What of an acquisition its leases depend on: its host and its lease set. -/
def claims (r : Acquisitions) (a : AcqRef) : Option (String × OrderedSet LeaseRef) :=
  (r.acqs[a]?).map fun q => (q.hostId, q.leases)

theorem claims_eq (hq : r.acqs[a]? = some q) : r.claims a = some (q.hostId, q.leases) := by
  simp [claims, hq]

theorem claims_edit (hf : ∀ q, (f q).hostId = q.hostId ∧ (f q).leases = q.leases)
    (r : Acquisitions) (a : AcqRef) : (r.edit a f).claims = r.claims := by
  funext b
  by_cases hb : b = a
  · subst hb
    cases hq : r.acqs[b]? with
    | none => simp [claims, edit, hq]
    | some q => rw [claims_eq hq, claims_eq (acqs_edit_self hq), (hf q).1, (hf q).2]
  · unfold claims
    rw [acqs_edit_of_ne hb]

@[simp] theorem claims_deleteIfSame : (r.deleteIfSame hostId a).claims = r.claims := by
  funext b
  simp [claims]

/-- Still under way: nobody has been told anything of how it ends. -/
def SessionAcquisition.underWay (q : SessionAcquisition) : Prop :=
  q.state.terminal = false ∧ q.aborted = false ∧ q.connectPromise = none

/-- **The invariant.** -/
structure Sound (r : Acquisitions) : Prop where
  /-- The map holds acquisitions of their hosts that are under way. -/
  current : ∀ host a, r.acquisitions.get host = some a →
    ∃ q, r.acqs[a]? = some q ∧ q.hostId = host ∧ SessionAcquisition.underWay q
  newest : ∀ host a b ls, r.acquisitions.get host = some a → r.claims b = some (host, ls) → b ≤ a
  /-- A lease is held exactly while it has not been released. -/
  held : ∀ (l : LeaseRef) v, r.leases[l]? = some v →
    ∃ ls, r.claims v.acq = some (v.hostId, ls) ∧ (l ∈ ls ↔ v.released = false)
  /-- Only leases of an acquisition are in its set. -/
  known : ∀ a host ls l, r.claims a = some (host, ls) → l ∈ ls →
    ∃ v, r.leases[l]? = some v ∧ v.acq = a

theorem sound_empty : Sound empty :=
  ⟨nofun, nofun, by intro l v h; simp [empty] at h, by intro a host ls l h; simp [claims, empty] at h⟩

section

variable (h : Sound r)
include h

/-- What leaves the leases and keeps the entries that are left in the map keeps the
invariant. -/
theorem Sound.of_claims (hclaims : r'.claims = r.claims) (hleases : r'.leases = r.leases)
    (hmap : ∀ host b, r'.acquisitions.get host = some b →
      r.acquisitions.get host = some b ∧ r'.acqs[b]? = r.acqs[b]?) : Sound r' where
  current := by
    intro host b hb
    obtain ⟨hget, hsame⟩ := hmap host b hb
    rw [hsame]
    exact h.current host b hget
  newest := by
    intro host b c ls hb hc
    rw [hclaims] at hc
    exact h.newest host b c ls (hmap host b hb).1 hc
  held := by
    rw [hclaims, hleases]
    exact h.held
  known := by
    rw [hclaims, hleases]
    exact h.known

section

variable (hq : r.acqs[a]? = some q)
include hq

theorem Sound.host_eq {host : String}
    (hget : r.acquisitions.get host = some a) : host = q.hostId := by
  obtain ⟨q', hq', hhost, -⟩ := h.current host a hget
  obtain ⟨rfl⟩ := hq.symm.trans hq'
  exact hhost.symm

/-- What takes an acquisition out of the map may do with it what it likes, but for its
leases. -/
theorem Sound.of_acts (hacts : Acts a r r')
    (hclaims : r'.claims = r.claims) (hleases : r'.leases = r.leases)
    (hgone : ∀ host b, r'.acquisitions.get host = some b →
      r.acquisitions.get host = some b ∧ ¬(host = q.hostId ∧ b = a)) : Sound r' := by
  refine h.of_claims hclaims hleases ?_
  intro host b hb
  obtain ⟨hget, hnot⟩ := hgone host b hb
  refine ⟨hget, hacts.others b ?_⟩
  rintro rfl
  exact hnot ⟨h.host_eq hq hget, rfl⟩

theorem Sound.commit (session : String) : Sound (r.commit a session) := by
  refine h.of_acts hq (acts_commit r a session) ?_ ?_ ?_
  all_goals simp only [Acquisitions.commit, hq]
  · refine (claims_edit ?_ _ a).trans claims_deleteIfSame
    exact fun _ => ⟨rfl, rfl⟩
  · simp
  · intro host b hb
    simpa only [acquisitions_edit, get_deleteIfSame] using hb

theorem Sound.left {f g : SessionAcquisition → SessionAcquisition}
    (hf : ∀ q, (f q).hostId = q.hostId ∧ (f q).leases = q.leases)
    (hg : ∀ q, (g q).hostId = q.hostId ∧ (g q).leases = q.leases)
    (hacts : Acts a r (((r.edit a f).deleteIfSame q.hostId a).edit a g)) :
    Sound (((r.edit a f).deleteIfSame q.hostId a).edit a g) := by
  refine h.of_acts hq hacts ?_ (by simp) ?_
  · exact (claims_edit hg _ a).trans (claims_deleteIfSame.trans (claims_edit hf r a))
  · intro host b hb
    simpa only [acquisitions_edit, get_deleteIfSame] using hb

theorem Sound.fail (err : String) : Sound (r.fail a err) := by
  have hacts := acts_fail r a err
  simp only [Acquisitions.fail, hq] at hacts ⊢
  exact h.left hq (fun _ => ⟨rfl, rfl⟩) (fun _ => ⟨rfl, rfl⟩) hacts

theorem Sound.callOff (message : String) : Sound (r.callOff q.hostId a message) :=
  h.left hq (fun _ => ⟨rfl, rfl⟩) (fun _ => ⟨rfl, rfl⟩) (acts_callOff r q.hostId a message)

end

theorem Sound.close (hostId : String) : Sound (r.close hostId).1 := by
  unfold Acquisitions.close
  split
  · exact h
  · next a hget =>
    obtain ⟨q, hq, rfl, -⟩ := h.current hostId a hget
    exact h.callOff hq _

theorem Sound.shutdownAll : Sound r.shutdownAll := by
  -- the loop leaves hosts and leases, and what it does to the rest is no longer in the map
  have hloop : ∀ (as : List AcqRef) (r : Acquisitions),
      (as.foldl (fun r a => r.edit a fun acq =>
        ((acq.setState .closing).abort).settle (.rejected "hub shutting down")) r).claims =
          r.claims ∧
      (as.foldl (fun r a => r.edit a fun acq =>
        ((acq.setState .closing).abort).settle (.rejected "hub shutting down")) r).leases =
          r.leases := by
    intro as
    induction as with
    | nil => exact fun r => ⟨rfl, rfl⟩
    | cons a as ih =>
      intro r
      rw [foldl_cons, (ih _).1, (ih _).2]
      refine ⟨claims_edit ?_ r a, rfl⟩
      exact fun _ => ⟨rfl, rfl⟩
  obtain ⟨hclaims, hleases⟩ := hloop (r.acquisitions.entries.map Prod.snd) r
  exact h.of_claims hclaims hleases nofun

end

/-! ### The steps that make and take leases -/

theorem lt_of_claims {c : String × OrderedSet LeaseRef} (h : r.claims a = some c) :
    a < r.acqs.length := by
  obtain ⟨q, hq, -⟩ := map_eq_some_iff.mp h
  exact (List.getElem?_eq_some_iff.mp hq).1

theorem eq_length_of_concat {v w : Lease} (hl : ¬l < r.leases.length)
    (hv : (r.leases ++ [w])[l]? = some v) : l = r.leases.length := by
  have hlt := (List.getElem?_eq_some_iff.mp hv).1
  rw [List.length_append, List.length_singleton] at hlt
  exact Nat.le_antisymm (Nat.le_of_lt_succ hlt) (Nat.le_of_not_lt hl)

theorem claims_acquire (r : Acquisitions) (acqId leaseId hostId clientId : String) :
    (r.acquire acqId leaseId hostId clientId).1.claims b =
      if b = r.acqs.length then some (hostId, OrderedSet.empty.add r.leases.length)
      else r.claims b := by
  unfold claims acquire
  split
  · next hb => simp [hb, SessionAcquisition.addLease]
  · next hb =>
    by_cases hlt : b < r.acqs.length
    · rw [getElem?_append_left hlt]
    · have hge : r.acqs.length ≤ b := Nat.le_of_not_lt hlt
      have hgt : r.acqs.length < b := Nat.lt_of_le_of_ne hge (Ne.symm hb)
      rw [getElem?_eq_none hge, getElem?_eq_none (by simpa using Nat.succ_le_of_lt hgt)]

theorem Sound.acquire (h : Sound r) (acqId leaseId hostId clientId : String) :
    Sound (r.acquire acqId leaseId hostId clientId).1 where
  current := by
    intro host c hc
    change (r.acquisitions.set hostId r.acqs.length).get host = some c at hc
    rw [get_set] at hc
    split at hc
    · next hhost =>
      cases hc
      exact ⟨_, getElem?_concat_length, hhost.symm, rfl, rfl, rfl⟩
    · obtain ⟨q, hq, hrest⟩ := h.current host c hc
      obtain ⟨hlt, -⟩ := List.getElem?_eq_some_iff.mp hq
      exact ⟨q, (getElem?_append_left hlt).trans hq, hrest⟩
  newest := by
    intro host c b ls hc hb
    change (r.acquisitions.set hostId r.acqs.length).get host = some c at hc
    rw [get_set] at hc
    rw [claims_acquire] at hb
    split at hc
    · -- the new acquisition is newer than all others
      cases hc
      split at hb
      · next heq => exact Nat.le_of_eq heq
      · exact Nat.le_of_lt (lt_of_claims hb)
    · next hhost =>
      split at hb
      · exact absurd (congrArg Prod.fst (some.inj hb)).symm hhost
      · exact h.newest host c b ls hc hb
  held := by
    intro l v hv
    rw [claims_acquire]
    change (r.leases ++ [_])[l]? = some v at hv
    by_cases hl : l < r.leases.length
    · rw [getElem?_append_left hl] at hv
      obtain ⟨ls, hls, hiff⟩ := h.held l v hv
      have hne : v.acq ≠ r.acqs.length := Nat.ne_of_lt (lt_of_claims hls)
      rw [if_neg hne]
      exact ⟨ls, hls, hiff⟩
    · obtain rfl := eq_length_of_concat hl hv
      obtain ⟨rfl⟩ := getElem?_concat_length.symm.trans hv
      exact ⟨_, if_pos rfl, by simp⟩
  known := by
    intro c host ls l hc hl
    rw [claims_acquire] at hc
    split at hc
    · next hceq =>
      obtain ⟨rfl, rfl⟩ := Prod.mk.inj (some.inj hc)
      obtain rfl : l = r.leases.length := by simpa using hl
      exact ⟨_, getElem?_concat_length, hceq.symm⟩
    · obtain ⟨v, hv, hva⟩ := h.known c host ls l hc hl
      obtain ⟨hlt, -⟩ := List.getElem?_eq_some_iff.mp hv
      exact ⟨v, (getElem?_append_left hlt).trans hv, hva⟩

theorem claims_replace (hq : r.acqs[a]? = some q) (ls : OrderedSet LeaseRef)
    (hf : f q = { q with leases := ls }) :
    (r.edit a f).claims b = if b = a then some (q.hostId, ls) else r.claims b := by
  split
  · next hb =>
    subst hb
    rw [claims_eq (acqs_edit_self hq), hf]
  · next hb =>
    unfold claims
    rw [acqs_edit_of_ne hb]

theorem Sound.replace_current (h : Sound r) (hq : r.acqs[a]? = some q) (ls : OrderedSet LeaseRef)
    (hf : f q = { q with leases := ls }) (host : String) (b : AcqRef)
    (hget : r.acquisitions.get host = some b) :
    ∃ q', (r.edit a f).acqs[b]? = some q' ∧ q'.hostId = host ∧
      SessionAcquisition.underWay q' := by
  obtain ⟨p, hp, hhost, hunder⟩ := h.current host b hget
  by_cases hb : b = a
  · subst hb
    obtain ⟨rfl⟩ := hq.symm.trans hp
    refine ⟨f q, acqs_edit_self hq, ?_⟩
    rw [hf]
    exact ⟨hhost, hunder⟩
  · exact ⟨p, (acqs_edit_of_ne hb).trans hp, hhost, hunder⟩

theorem Sound.replace_newest (h : Sound r) (hq : r.acqs[a]? = some q) (ls : OrderedSet LeaseRef)
    (hf : f q = { q with leases := ls }) (host : String) (c b : AcqRef)
    (ls' : OrderedSet LeaseRef) (hget : r.acquisitions.get host = some c)
    (hb : (r.edit a f).claims b = some (host, ls')) : b ≤ c := by
  rw [claims_replace hq ls hf] at hb
  split at hb
  · next hba =>
    subst hba
    obtain ⟨hhost, -⟩ := Prod.mk.inj (some.inj hb)
    exact h.newest host c b q.leases hget (hhost ▸ claims_eq hq)
  · exact h.newest host c b ls' hget hb

theorem Sound.join (h : Sound r) (a : AcqRef) (leaseId clientId : String) :
    Sound (r.join a leaseId clientId).1 := by
  unfold Acquisitions.join
  split
  · exact h
  · next q hq =>
    split
    · exact h
    · have hclaims : ∀ b, (r.edit a (·.addLease r.leases.length)).claims b =
          if b = a then some (q.hostId, q.leases.add r.leases.length) else r.claims b :=
        fun b => claims_replace hq _ rfl
      constructor
      · exact h.replace_current hq _ rfl
      · exact h.replace_newest hq _ rfl
      · intro l v hv
        change ∃ ls, (r.edit a (·.addLease r.leases.length)).claims v.acq = _ ∧ _
        rw [hclaims]
        by_cases hl : l < r.leases.length
        · rw [getElem?_append_left hl] at hv
          obtain ⟨ls, hls, hiff⟩ := h.held l v hv
          split
          · next hva =>
            rw [hva, claims_eq hq] at hls
            obtain ⟨hhost, rfl⟩ := Prod.mk.inj (some.inj hls)
            refine ⟨_, by rw [hhost], ?_⟩
            rw [OrderedSet.mem_add]
            exact ⟨fun hm => hiff.mp (hm.resolve_left (Nat.ne_of_lt hl)), fun hr => .inr (hiff.mpr hr)⟩
          · exact ⟨ls, hls, hiff⟩
        · obtain rfl := eq_length_of_concat hl hv
          obtain ⟨rfl⟩ := getElem?_concat_length.symm.trans hv
          exact ⟨_, if_pos rfl, by simp⟩
      · intro c host ls l hc hl
        change (r.edit a (·.addLease r.leases.length)).claims c = _ at hc
        change ∃ v, (r.leases ++ [_])[l]? = _ ∧ _
        have hold : (∃ ls, r.claims c = some (host, ls) ∧ l ∈ ls) →
            ∃ v, (r.leases ++ [(⟨leaseId, q.hostId, q.id, clientId, false, a⟩ : Lease)])[l]? =
              some v ∧ v.acq = c := by
          rintro ⟨ls, hls, hmem⟩
          obtain ⟨v, hv, hva⟩ := h.known c host ls l hls hmem
          obtain ⟨hlt, -⟩ := List.getElem?_eq_some_iff.mp hv
          exact ⟨v, (getElem?_append_left hlt).trans hv, hva⟩
        rw [hclaims] at hc
        split at hc
        · next hca =>
          subst hca
          obtain ⟨rfl, rfl⟩ := Prod.mk.inj (some.inj hc)
          obtain rfl | hmem := (OrderedSet.mem_add ..).mp hl
          · exact ⟨_, getElem?_concat_length, rfl⟩
          · exact hold ⟨q.leases, claims_eq hq, hmem⟩
        · exact hold ⟨ls, hc, hl⟩

theorem Sound.letGo (h : Sound r) {v : Lease} (hv : r.leases[l]? = some v)
    (hq : r.acqs[v.acq]? = some q) : Sound (r.letGo l v.acq) := by
  have hclaims : ∀ b, (r.letGo l v.acq).claims b =
      if b = v.acq then some (q.hostId, q.leases.delete l) else r.claims b :=
    fun b => claims_replace (r := { r with leases := _ }) hq _ rfl
  have hself : (r.letGo l v.acq).leases[l]? = some { v with released := true } := by
    simp [Acquisitions.letGo, hv]
  have hother : ∀ l', l' ≠ l → (r.letGo l v.acq).leases[l']? = r.leases[l']? := by
    intro l' hl'
    simp [Acquisitions.letGo, Ne.symm hl']
  constructor
  · exact h.replace_current hq _ rfl
  · exact h.replace_newest hq _ rfl
  · intro l' v' hv'
    rw [hclaims]
    by_cases hl' : l' = l
    · subst hl'
      obtain ⟨rfl⟩ := hself.symm.trans hv'
      obtain ⟨ls, hls, -⟩ := h.held l' v hv
      rw [claims_eq hq] at hls
      obtain ⟨hhost, -⟩ := Prod.mk.inj (some.inj hls)
      refine ⟨q.leases.delete l', ?_, by simp⟩
      rw [if_pos rfl, hhost]
    · rw [hother l' hl'] at hv'
      obtain ⟨ls, hls, hiff⟩ := h.held l' v' hv'
      split
      · next hva =>
        rw [hva, claims_eq hq] at hls
        obtain ⟨hhost, rfl⟩ := Prod.mk.inj (some.inj hls)
        refine ⟨_, by rw [hhost], ?_⟩
        rw [OrderedSet.mem_delete, hiff]
        exact and_iff_left hl'
      · exact ⟨ls, hls, hiff⟩
  · intro c host ls l' hc hl'
    have hold : ∀ ls, r.claims c = some (host, ls) → l' ∈ ls → l' ≠ l →
        ∃ w, (r.letGo l v.acq).leases[l']? = some w ∧ w.acq = c := by
      intro ls hls hmem hne
      rw [hother l' hne]
      exact h.known c host ls l' hls hmem
    rw [hclaims] at hc
    split at hc
    · next hcv =>
      obtain ⟨rfl, rfl⟩ := Prod.mk.inj (some.inj hc)
      obtain ⟨hmem, hne⟩ := (OrderedSet.mem_delete ..).mp hl'
      exact hold q.leases (hcv ▸ claims_eq hq) hmem hne
    · next hcv =>
      refine hold ls hc hl' ?_
      -- the lease let go of is of another acquisition
      rintro rfl
      obtain ⟨w, hw, hwa⟩ := h.known c host ls l' hc hl'
      obtain ⟨rfl⟩ := hv.symm.trans hw
      exact hcv hwa.symm

theorem Sound.release (h : Sound r) {v : Lease} (hv : r.leases[l]? = some v)
    (hasChannels : Bool) : Sound (r.release l hasChannels).1 := by
  obtain ⟨ls, hls, -⟩ := h.held l v hv
  obtain ⟨q, hq, hpair⟩ := map_eq_some_iff.mp hls
  obtain ⟨hhost, -⟩ := Prod.mk.inj hpair
  obtain ⟨-, heq⟩ | ⟨-, heq⟩ | ⟨-, message, heq⟩ := r.release_cases hv hasChannels
  · rw [heq]
    exact h
  · rw [heq]
    exact h.letGo hv hq
  · obtain ⟨q', hq', hev⟩ := (acts_letGo r l v.acq).self q hq
    rw [heq, ← hhost, ← hev.hostId]
    exact (h.letGo hv hq).callOff hq' message

/-- **The step lemma.** -/
theorem Sound.next {x : Step} (h : Sound r) (hn : r.next x = some r') : Sound r' := by
  cases x with
  | acquire acqId leaseId hostId clientId =>
    cases hn
    exact h.acquire acqId leaseId hostId clientId
  | join a leaseId clientId =>
    obtain ⟨-, ⟨rfl⟩⟩ := ite_none_right_eq_some.mp hn
    exact h.join a leaseId clientId
  | commit a session =>
    obtain ⟨ha, ⟨rfl⟩⟩ := ite_none_right_eq_some.mp hn
    exact h.commit (getElem?_eq_getElem ha) session
  | fail a err =>
    obtain ⟨ha, ⟨rfl⟩⟩ := ite_none_right_eq_some.mp hn
    exact h.fail (getElem?_eq_getElem ha) err
  | release l hasChannels =>
    obtain ⟨hl, ⟨rfl⟩⟩ := ite_none_right_eq_some.mp hn
    exact h.release (getElem?_eq_getElem hl) hasChannels
  | close hostId =>
    cases hn
    exact h.close hostId
  | shutdownAll =>
    cases hn
    exact h.shutdownAll

theorem sound_of_run (h : Run next free empty r) : Sound r :=
  h.invariant sound_empty fun _ _ _ hs _ hn => hs.next hn

theorem Sound.not_superseded (h : Sound r) (hget : r.acquisitions.get hostId = some a) :
    ¬r.Superseded a b := by
  rintro ⟨hlt, p, q, hp, hq, hhost⟩
  have hle : b ≤ a := by
    refine h.newest hostId a b q.leases hget ?_
    rw [claims_eq hq, ← hhost, h.host_eq hp hget]
  exact absurd hlt (Nat.not_lt_of_le hle)

theorem join_of_terminal (hq : r.acqs[a]? = some q) (ht : q.state.terminal = true)
    (leaseId clientId : String) : r.join a leaseId clientId = (r, none) := by
  unfold join
  rw [hq]
  refine if_pos ?_
  revert ht
  cases q.state <;> simp [AcqState.terminal]

/-- **Acquisitions are safe in every run.**  Of every state `r` reached:
an acquisition in the map is of its host, and neither closing nor failed; a lease is in the
set of its acquisition exactly when it has not been released; whatever happens next, a
promise that is settled stays settled with the same outcome, and an acquisition that is
closing or has failed refuses every join, now and later; and a step that fails, commits,
releases a lease of or closes a superseded acquisition leaves the newer one as it is, in
the map if it is there, while what a close by host finds is never a superseded one. -/
theorem acquisitions_safe (h : Run next free empty r) :
    (∀ host a, r.acquisitions.get host = some a → ∃ q, r.acqs[a]? = some q ∧ q.hostId = host ∧
      (q.state = .connecting ∨ q.state = .reconnecting)) ∧
    (∀ (l : LeaseRef) v, r.leases[l]? = some v → ∃ q, r.acqs[v.acq]? = some q ∧
      (l ∈ q.leases ↔ v.released = false)) ∧
    (∀ r', Run next free r r' → ∀ (a : AcqRef) q, r.acqs[a]? = some q →
      ∃ q', r'.acqs[a]? = some q' ∧
        (∀ o, q.connectPromise = some o → q'.connectPromise = some o) ∧
        (q.state = .closing ∨ q.state = .failed →
          ∀ leaseId clientId, r'.join a leaseId clientId = (r', none))) ∧
    (∀ x r' a b q, r.next x = some r' → x.target r = some a → r.Superseded a b →
      r.acqs[b]? = some q → r'.acqs[b]? = some q ∧
        (r.acquisitions.get q.hostId = some b → r'.acquisitions.get q.hostId = some b)) ∧
    ∀ host a b, r.acquisitions.get host = some a → ¬r.Superseded a b := by
  have hs := sound_of_run h
  refine ⟨?_, ?_, ?_, ?_, ?_⟩
  · intro host a hget
    obtain ⟨q, hq, hhost, hstate, -⟩ := hs.current host a hget
    refine ⟨q, hq, hhost, ?_⟩
    revert hstate
    cases q.state <;> simp [AcqState.terminal]
  · intro l v hv
    obtain ⟨ls, hls, hiff⟩ := hs.held l v hv
    obtain ⟨q, hq, hpair⟩ := map_eq_some_iff.mp hls
    obtain ⟨-, rfl⟩ := Prod.mk.inj hpair
    exact ⟨q, hq, hiff⟩
  · intro r' hrun a q hq
    obtain ⟨q', hq', hev⟩ := advances_run hrun a q hq
    refine ⟨q', hq', hev.settled, ?_⟩
    intro hstate
    refine join_of_terminal hq' (hev.terminal ?_)
    obtain hstate | hstate := hstate <;> rw [hstate] <;> rfl
  · intro x r' a b q hn ha hsup hq
    have hacts := acts_next hn ha
    have hne : b ≠ a := Ne.symm (Nat.ne_of_lt hsup.1)
    exact ⟨(hacts.others b hne).trans hq, hacts.entries q.hostId b hne⟩
  · intro host a b hget
    exact hs.not_superseded hget

/-- A host is connected to, closed and connected to again, and joined by a second window;
then the first connection gives up its lease. -/
theorem acquisitions_safe_reconnected : ∃ r r' : Acquisitions, Run next free empty r ∧
    r.Superseded 0 1 ∧ r.next (.release 0 false) = some r' ∧
    r.acquisitions.get "host" = some 1 ∧ r'.acquisitions.get "host" = some 1 ∧
    r'.acqs[1]? = r.acqs[1]? := by
  have hrun : Run next free empty _ := .get_free [.acquire "a0" "l0" "host" "window", .close "host",
    .acquire "a1" "l1" "host" "window", .join 1 "l2" "other", .fail 0 "SSH connect aborted"]
    (by decide +kernel)
  obtain ⟨hkeep, hstay⟩ := (acquisitions_safe hrun).2.2.2.1 (.release 0 false) _ 0 1 _
    (some_get (by decide +kernel)).symm (by decide +kernel)
    ⟨Nat.zero_lt_one, _, _, (some_get (by decide +kernel)).symm,
      (some_get (by decide +kernel)).symm, by decide +kernel⟩
    (some_get (by decide +kernel)).symm
  exact ⟨_, _, hrun, ⟨Nat.zero_lt_one, _, _, (some_get (by decide +kernel)).symm,
    (some_get (by decide +kernel)).symm, by decide +kernel⟩, (some_get _).symm,
    by decide +kernel, hstay (by decide +kernel), hkeep.trans (some_get _)⟩

end Acquisitions

end Lasterm.Hub.Acq
