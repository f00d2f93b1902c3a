import Lasterm.Lib.OrderedMap
import Lasterm.Lib.Run

/-!
# Which window sends an upload

`start`, `resume`, `takeUp`, `join` and `clientGone` of the transfer service
(`transfers/transfer-service.ts`), with every await a point where anything else may
happen, a window's socket being released above all (`ws/ws-handler.ts`).

An upload's `source` is the window that holds its files.  It is recorded by `create`, by
`join`, and by `takeUp`, each after awaits; `clientGone` clears it in the uploads it finds in
the map at that moment.  How an upload's files move is in `Upload`; here there are any number
of uploads, each told again by what its source depends on, and `work` may leave its files in
any states.

## Main definitions

* `Service`, `step` — the uploads and the windows, and what can happen.

## Main results

* `source_connected_or_leftBehind` — every source is there, in runs that look before they record.
* `start_may_outlive_window` — a run that does not.
-/

namespace Lasterm.Transfer

open Transition OrderedMap Option

/-- `TransferItemState`. -/
inductive ItemState
  | queued
  | sending
  | verifying
  | placed
  | failed
  | skipped
  | conflict
  | cancelled
  | interrupted
  deriving DecidableEq

/-- `UNSETTLED`: something of the item is left to send, answer or place. -/
def ItemState.unsettled : ItemState → Bool
  | .queued | .sending | .verifying | .conflict | .interrupted => true
  | .placed | .failed | .skipped | .cancelled => false

/-- `TransferUploadState`, of an upload that is not discarded. -/
inductive UploadState
  | done
  | interrupted
  | running

namespace Sources

/-- An item, as far as its upload's state goes. -/
structure Item where
  isFile : Bool
  state : ItemState

/-- An upload, as far as its source goes. -/
structure Upload where
  hostId : String
  dir : String
  signature : String
  source : Option String
  items : List Item
  /-- How many things are under way that an idle upload does not have. -/
  busy : ℕ
  creatingFolders : Bool
  linkDropped : Bool
  reason : Option String
  changedAt : ℕ

/-- `isSettled`: nothing of the upload is left to send, answer or place. -/
def Upload.isSettled (u : Upload) : Bool :=
  u.busy = 0 && u.items.all fun i => !i.state.unsettled

/-- `isActive`. -/
def Upload.isActive (u : Upload) : Bool :=
  if 0 < u.busy || u.creatingFolders then true
  else if u.source = none then false
  else u.items.any fun i => i.state = .queued || i.state = .sending || i.state = .verifying

/-- `uploadState`. -/
def Upload.uploadState (u : Upload) : UploadState :=
  if u.isSettled then .done else if u.source = none then .interrupted else .running

/-- A file is left that is neither placed nor skipped. -/
def Upload.hasOpenFile (u : Upload) : Bool :=
  u.items.any fun i => i.isFile && i.state ≠ .placed && i.state ≠ .skipped

/-- `requeueAll`, of all that failed, was cancelled or interrupted.  A file whose bytes
are all on the host goes on to its placement, as part of `work`. -/
def requeueAll (items : List Item) : List Item :=
  items.map fun i =>
    if i.state = .failed ∨ i.state = .cancelled ∨ i.state = .interrupted then
      { i with state := .queued }
    else i

/-- `TRANSFER_EXPIRY_MS`. -/
def transferExpiryMs : ℕ := 7 * 24 * 60 * 60 * 1000

/-- An operation of the service that waits at an await. -/
inductive Task
  /-- `start` reaches the host and looks at the destination. -/
  | starting (requester hostId dir : String)
  /-- `start` asks how much space is free. -/
  | sizing (requester hostId dir signature : String) (items : List Item)
  /-- `start` has created the upload, and lists and sweeps its folders. -/
  | creating (upload : Upload)
  /-- `resume` reaches the host of its first group; the other hosts' groups wait. -/
  | reaching (requester : String) (group : List ℕ) (rest : List (List ℕ))
  /-- `takeUp` of an upload, for a `resume` or, with nothing after it, for a link that
  came back. -/
  | takingUp (id : ℕ) (requester : String) (group : List ℕ) (rest : List (List ℕ))

/-- The service's uploads, the sockets, and what waits. -/
structure Service where
  uploads : OrderedMap ℕ Upload
  nextId : ℕ
  connected : OrderedSet String
  generated : List String
  tasks : List Task

/-- A service just made. -/
def Service.init : Service := ⟨.empty, 0, .empty, [], []⟩

namespace Service

/-- Change an upload, if it is still in the map. -/
def modify (s : Service) (id : ℕ) (f : Upload → Upload) : Service :=
  match s.uploads.get id with
  | none => s
  | some u => { s with uploads := s.uploads.set id (f u) }

/-- Something to wait for is added. -/
def addTask (s : Service) (t : Task) : Service := { s with tasks := s.tasks ++ [t] }

/-! ### Starting -/

/-- `joinable`: an upload of the same tree that no window sends. -/
def joinable (s : Service) (hostId dir signature : String) : Option ℕ :=
  (s.uploads.entries.find? fun e =>
    e.2.source = none && e.2.hostId = hostId && e.2.dir = dir && e.2.signature = signature
      && e.2.hasOpenFile).map Prod.fst

/-- `join`: the window sends that upload's bytes now. -/
def join (s : Service) (id : ℕ) (requester : String) : Service :=
  s.modify id fun u =>
    { u with
      source := some requester
      reason := none
      linkDropped := false
      items := requeueAll u.items }

/-- `create`: every item queued, the window that asked its source. -/
def create (requester hostId dir signature : String) (items : List Item) (now : ℕ) : Upload where
  hostId := hostId
  dir := dir
  signature := signature
  source := some requester
  items := items.map fun i => { i with state := .queued }
  busy := 0
  creatingFolders := false
  linkDropped := false
  reason := none
  changedAt := now

/-! ### Resuming -/

/-- `byHost`: the uploads named, by host, in the order the first of each was named. -/
def byHost (s : Service) (ids : List ℕ) : List (List ℕ) :=
  (ids.foldl (fun (hosts : OrderedMap String (List ℕ)) id =>
    match s.uploads.get id with
    | none => hosts
    | some u => hosts.set u.hostId ((hosts.get u.hostId).getD [] ++ [id])) .empty).entries.map
      Prod.snd

/-- `takeUp` up to its first await. -/
def beginTakeUp (s : Service) (id : ℕ) : Service :=
  s.modify id fun u => { u with reason := none, linkDropped := false, busy := u.busy + 1 }

/-- `takeUp` after its awaits: the upload's bytes come from this window from now on. -/
def endTakeUp (s : Service) (id : ℕ) (requester : String) : Service :=
  s.modify id fun u =>
    { u with busy := u.busy - 1, source := some requester, items := requeueAll u.items }

/-- `notResumed`, for the reason its callers in `takeUp` give. -/
def notResumed (s : Service) (id : ℕ) : Service :=
  s.modify id fun u => { u with reason := some "host_unreachable" }

/-- The loop of `resume`: the next upload of the group that is still there, or the next
host's group. -/
def proceed (s : Service) (requester : String) : List ℕ → List (List ℕ) → Service
  | [], [] => s
  | [], group :: rest => s.addTask (.reaching requester group rest)
  | id :: group, rest =>
    if (s.uploads.get id).isSome then
      (s.beginTakeUp id).addTask (.takingUp id requester group rest)
    else proceed s requester group rest

/-- One turn of `resumeDropped`. -/
def resumeOne (hostId : String) (s : Service) (e : ℕ × Upload) : Service :=
  match e.2.source with
  | none => s
  | some source =>
    if e.2.hostId = hostId ∧ e.2.linkDropped then
      (s.beginTakeUp e.1).addTask (.takingUp e.1 source [] [])
    else s

/-- `resumeDropped`: the uploads to a host whose link dropped while their window sent
them go on. -/
def resumeDropped (s : Service) (hostId : String) : Service :=
  s.uploads.entries.foldl (resumeOne hostId) s

/-! ### Leaving -/

/-- `clientGone`: what the window was sending stops. -/
def clientGone (s : Service) (clientId : String) : Service :=
  { s with
    uploads := s.uploads.mapValues fun u =>
      if u.source = some clientId then
        { u with
          source := none
          items := u.items.map fun i =>
            if i.state = .sending then { i with state := .interrupted } else i }
      else u }

/-- `interruptAll`, of an upload whose connection went. -/
def interruptAll (s : Service) (id : ℕ) : Service :=
  s.modify id fun u =>
    { u with
      items := u.items.map fun i =>
        if i.state = .sending ∨ i.state = .queued then { i with state := .interrupted } else i
      linkDropped := u.linkDropped || u.source.isSome }

/-- Whether `expire` drops the upload at `now`. -/
def expires (now : ℕ) (u : Upload) : Bool :=
  u.source = none && !u.isActive && u.changedAt + transferExpiryMs ≤ now

/-- `expire`: what nobody resumed for a week is dropped. -/
def expire (s : Service) (now : ℕ) : Service :=
  { s with
    uploads := ((s.uploads.entries.filter fun e => expires now e.2).map Prod.fst).foldl
      delete s.uploads }

/-! ### Steps -/

/-- What can happen. -/
inductive Step
  | connect (clientId : String)
  | release (clientId : String)
  | start (clientId hostId dir : String)
  /-- The host is reached and the destination is a folder: the tree is built. -/
  | reached (i : ℕ) (signature : String) (items : List Item)
  | sized (i : ℕ) (now : ℕ)
  /-- The destination was looked at and the policy applied: the upload is in the map. -/
  | committed (i : ℕ) (items : List Item)
  | resume (clientId : String) (ids : List ℕ)
  /-- The connection of a resume's host is there. -/
  | hostReached (i : ℕ)
  /-- The temporaries of an upload being taken up were looked at. -/
  | tookUp (i : ℕ)
  | taskFailed (i : ℕ)
  | linkLost (id : ℕ)
  | hostConnected (hostId : String)
  /-- Whatever else the service does to an upload's items. -/
  | work (id : ℕ) (items : List Item) (busy : ℕ) (creatingFolders : Bool) (changedAt : ℕ)
  | drop (id : ℕ)
  | expire (now : ℕ)
  /-- `bringBack`: an upload of an earlier run of the hub. -/
  | bringBack (upload : Upload)

/-- What was waited for has come. -/
def removeTask (s : Service) (i : ℕ) : Service := { s with tasks := s.tasks.eraseIdx i }

/-- Put a new upload into the map. -/
def adopt (s : Service) (u : Upload) : Service :=
  { s with uploads := s.uploads.set s.nextId u, nextId := s.nextId + 1 }

/-- One step. -/
def step (s : Service) : Step → Option Service
  | .connect c =>
    if c ∈ s.generated then none
    else some { s with connected := s.connected.add c, generated := c :: s.generated }
  | .release c =>
    if c ∈ s.connected then
      some ({ s with connected := s.connected.delete c }.clientGone c)
    else none
  | .start c hostId dir =>
    if c ∈ s.connected then some (s.addTask (.starting c hostId dir)) else none
  | .reached i signature items =>
    match s.tasks[i]? with
    | some (.starting requester hostId dir) =>
      match s.joinable hostId dir signature with
      | some id => some ((s.removeTask i).join id requester)
      | none => some ((s.removeTask i).addTask (.sizing requester hostId dir signature items))
    | _ => none
  | .sized i now =>
    match s.tasks[i]? with
    | some (.sizing requester hostId dir signature items) =>
      some ((s.removeTask i).addTask
        (.creating (create requester hostId dir signature items now)))
    | _ => none
  | .committed i items =>
    match s.tasks[i]? with
    | some (.creating u) => some ((s.removeTask i).adopt { u with items := items })
    | _ => none
  | .resume c ids =>
    if c ∈ s.connected then some (s.proceed c [] (s.byHost ids)) else none
  | .hostReached i =>
    match s.tasks[i]? with
    | some (.reaching requester group rest) =>
      some ((s.removeTask i).proceed requester group rest)
    | _ => none
  | .tookUp i =>
    match s.tasks[i]? with
    | some (.takingUp id requester group rest) =>
      some (((s.removeTask i).endTakeUp id requester).proceed requester group rest)
    | _ => none
  | .taskFailed i =>
    match s.tasks[i]? with
    | some (.starting _ _ _) | some (.sizing _ _ _ _ _) | some (.creating _) =>
      some (s.removeTask i)
    | some (.reaching requester group rest) =>
      some ((group.foldl notResumed (s.removeTask i)).proceed requester [] rest)
    | some (.takingUp id requester group rest) =>
      some ((((s.removeTask i).modify id fun u =>
        { u with busy := u.busy - 1 }).notResumed id).proceed requester group rest)
    | none => none
  | .linkLost id => some (s.interruptAll id)
  | .hostConnected hostId => some (s.resumeDropped hostId)
  | .work id items busy creatingFolders changedAt =>
    some (s.modify id fun u => { u with items, busy, creatingFolders, changedAt })
  | .drop id => some { s with uploads := s.uploads.delete id }
  | .expire now => some (s.expire now)
  | .bringBack u => some (s.adopt { u with source := none })

/-! ### Sources that are connected -/

/-- Nothing of an upload is under way. -/
def Quiescent (s : Service) : Prop :=
  s.tasks = [] ∧ ∀ e ∈ s.uploads.entries, e.2.busy = 0 ∧ e.2.creatingFolders = false

/-- What an upload whose window left is: not running, joinable while a file of it is
left, and dropped by the expiry a week after its last change. -/
structure LeftBehind (s : Service) (id : ℕ) (u : Upload) : Prop where
  source_none : u.source = none
  not_running : u.uploadState ≠ .running
  joinable : u.hasOpenFile → (s.joinable u.hostId u.dir u.signature).isSome
  expires : ∀ now, u.changedAt + transferExpiryMs ≤ now → (s.expire now).uploads.get id = none

/-- The window that the step records as the source of an upload in the map. -/
def commitsFor? (s : Service) : Step → Option String
  | .reached i signature _ =>
    match s.tasks[i]? with
    | some (.starting requester hostId dir) =>
      (s.joinable hostId dir signature).map fun _ => requester
    | _ => none
  | .committed i _ =>
    match s.tasks[i]? with
    | some (.creating u) => u.source
    | _ => none
  | .tookUp i =>
    match s.tasks[i]? with
    | some (.takingUp _ requester _ _) => some requester
    | _ => none
  | _ => none

/-- The step records a source only for a window whose socket was not released. -/
def CommitsForConnected (s : Service) (a : Step) : Prop :=
  ∀ c ∈ s.commitsFor? a, c ∈ s.connected

instance (s : Service) (a : Step) : Decidable (s.CommitsForConnected a) :=
  inferInstanceAs (Decidable (∀ c ∈ s.commitsFor? a, c ∈ s.connected))

/-- Every upload's source is connected. -/
def SourcesConnected (s : Service) : Prop :=
  ∀ id u, s.uploads.get id = some u → ∀ c, u.source = some c → c ∈ s.connected

theorem get_modify (s : Service) (id : ℕ) (f : Upload → Upload) (id' : ℕ) :
    (s.modify id f).uploads.get id' =
      if id' = id then (s.uploads.get id).map f else s.uploads.get id' := by
  unfold modify
  cases h : s.uploads.get id with
  | none =>
    by_cases hid : id' = id
    · subst hid; simp [h]
    · simp [hid]
  | some u => simp [get_set]

@[simp] theorem modify_connected (s : Service) (id : ℕ) (f : Upload → Upload) :
    (s.modify id f).connected = s.connected := by
  unfold modify; split <;> rfl

variable {s : Service}

section

variable (hs : SourcesConnected s)
include hs

theorem SourcesConnected.modify (id : ℕ) (f : Upload → Upload)
    (hf : ∀ u c, (f u).source = some c → u.source = some c ∨ c ∈ s.connected) :
    SourcesConnected (s.modify id f) := by
  intro id' u hu c hc
  rw [get_modify] at hu
  rw [modify_connected]
  split at hu
  · next hid =>
    obtain ⟨v, hv, rfl⟩ := map_eq_some_iff.mp hu
    rcases hf v c hc with h | h
    · exact hs id v hv c h
    · exact h
  · exact hs id' u hu c hc

theorem SourcesConnected.keep (id : ℕ) (f : Upload → Upload) (hf : ∀ u, (f u).source = u.source) :
    SourcesConnected (s.modify id f) :=
  hs.modify id f fun u _ hc => Or.inl (hf u ▸ hc)

theorem SourcesConnected.beginTakeUp (id : ℕ) : SourcesConnected (s.beginTakeUp id) := by
  refine hs.keep id _ ?_
  exact fun _ => rfl

theorem SourcesConnected.notResumed (id : ℕ) : SourcesConnected (s.notResumed id) := by
  refine hs.keep id _ ?_
  exact fun _ => rfl

theorem SourcesConnected.join (id : ℕ) {requester : String} (hr : requester ∈ s.connected) :
    SourcesConnected (s.join id requester) := by
  refine hs.modify id _ ?_
  intro u c hc
  obtain rfl : requester = c := some.inj hc
  exact Or.inr hr

theorem SourcesConnected.endTakeUp (id : ℕ) {requester : String} (hr : requester ∈ s.connected) :
    SourcesConnected (s.endTakeUp id requester) := by
  refine hs.modify id _ ?_
  intro u c hc
  obtain rfl : requester = c := some.inj hc
  exact Or.inr hr

theorem SourcesConnected.addTask (t : Task) :
    SourcesConnected (s.addTask t) := hs

theorem SourcesConnected.removeTask (i : ℕ) :
    SourcesConnected (s.removeTask i) := hs

variable {u : Upload}

theorem SourcesConnected.adopt
    (hu : ∀ c, u.source = some c → c ∈ s.connected) : SourcesConnected (s.adopt u) := by
  intro id v hv c hc
  simp only [Service.adopt, get_set] at hv
  split at hv
  · cases hv
    exact hu c hc
  · exact hs id v hv c hc

theorem SourcesConnected.proceed (requester : String) (group : List ℕ) (rest : List (List ℕ)) :
    SourcesConnected (s.proceed requester group rest) := by
  induction group with
  | nil =>
    cases rest with
    | nil => exact hs
    | cons g rest => exact hs.addTask _
  | cons id group ih =>
    unfold Service.proceed
    split
    · exact (hs.beginTakeUp id).addTask _
    · exact ih

theorem SourcesConnected.notResumedAll
    (group : List ℕ) : SourcesConnected (group.foldl Service.notResumed s) := by
  induction group generalizing s with
  | nil => exact hs
  | cons id group ih => exact ih (hs.notResumed id)

theorem SourcesConnected.resumeDropped
    (hostId : String) : SourcesConnected (s.resumeDropped hostId) := by
  have hone : ∀ (t : Service) (e : ℕ × Upload), SourcesConnected t →
      SourcesConnected (resumeOne hostId t e) := by
    intro t e ht
    unfold resumeOne
    split
    · exact ht
    · split
      · exact (ht.beginTakeUp e.1).addTask _
      · exact ht
  have hall : ∀ (l : List (ℕ × Upload)) (t : Service), SourcesConnected t →
      SourcesConnected (l.foldl (resumeOne hostId) t) := by
    intro l
    induction l with
    | nil => exact fun _ ht => ht
    | cons e l ih => exact fun t ht => ih _ (hone t e ht)
  exact hall _ s hs

theorem SourcesConnected.release (c : String) :
    SourcesConnected ({ s with connected := s.connected.delete c }.clientGone c) := by
  intro id u hu d hd
  simp only [clientGone, get_mapValues, map_eq_some_iff] at hu
  obtain ⟨v, hv, rfl⟩ := hu
  split at hd
  · cases hd
  · next hne =>
    refine (OrderedSet.mem_delete _ _ _).mpr ⟨hs id v hv d hd, ?_⟩
    rintro rfl
    exact hne hd

theorem SourcesConnected.expire (now : ℕ) : SourcesConnected (s.expire now) := by
  intro id u hu
  simp only [Service.expire, get_foldl_delete] at hu
  split at hu
  · cases hu
  · exact hs id u hu

end

/-- **One step.** -/
theorem SourcesConnected.step {s' : Service} {a : Step} (hs : SourcesConnected s)
    (hok : s.CommitsForConnected a) (h : s.step a = some s') : SourcesConnected s' := by
  cases a with
  | connect c =>
    obtain ⟨-, ⟨rfl⟩⟩ := ite_none_left_eq_some.mp h
    intro id u hu d hd
    exact (OrderedSet.mem_add _ _ _).mpr (Or.inr (hs id u hu d hd))
  | release c =>
    obtain ⟨-, ⟨rfl⟩⟩ := ite_none_right_eq_some.mp h
    exact hs.release c
  | start c hostId dir =>
    obtain ⟨-, ⟨rfl⟩⟩ := ite_none_right_eq_some.mp h
    exact hs.addTask _
  | reached i signature items =>
    simp only [Service.step] at h
    split at h
    · next requester hostId dir ht =>
      split at h
      · next id hid =>
        cases h
        exact (hs.removeTask i).join _ (hok requester (by simp [commitsFor?, ht, hid]))
      · cases h
        exact (hs.removeTask i).addTask _
    · cases h
  | sized i now =>
    simp only [Service.step] at h
    split at h
    · cases h
      exact (hs.removeTask i).addTask _
    · cases h
  | committed i items =>
    simp only [Service.step] at h
    split at h
    · next u ht =>
      cases h
      exact (hs.removeTask i).adopt fun c hc => hok c (by simpa [commitsFor?, ht] using hc)
    · cases h
  | resume c ids =>
    obtain ⟨-, ⟨rfl⟩⟩ := ite_none_right_eq_some.mp h
    exact hs.proceed c _ _
  | hostReached i =>
    simp only [Service.step] at h
    split at h
    · cases h
      exact (hs.removeTask i).proceed _ _ _
    · cases h
  | tookUp i =>
    simp only [Service.step] at h
    split at h
    · next id requester group rest ht =>
      cases h
      refine SourcesConnected.proceed ?_ _ _ _
      exact (hs.removeTask i).endTakeUp _ (hok requester (by simp [commitsFor?, ht]))
    · cases h
  | taskFailed i =>
    simp only [Service.step] at h
    split at h
    · cases h; exact hs.removeTask i
    · cases h; exact hs.removeTask i
    · cases h; exact hs.removeTask i
    · cases h
      exact ((hs.removeTask i).notResumedAll _).proceed _ _ _
    · cases h
      refine SourcesConnected.proceed ?_ _ _ _
      refine SourcesConnected.notResumed ((hs.removeTask i).keep _ _ ?_) _
      exact fun _ => rfl
    · cases h
  | linkLost id | work id =>
    cases h
    refine hs.keep id _ ?_
    exact fun _ => rfl
  | hostConnected hostId =>
    cases h
    exact hs.resumeDropped hostId
  | drop id =>
    cases h
    intro id' u hu
    simp only [get_delete] at hu
    split at hu
    · cases hu
    · exact hs id' u hu
  | expire now =>
    cases h
    exact hs.expire now
  | bringBack u =>
    cases h
    exact hs.adopt fun c hc => by cases hc

/-! ### Uploads left behind -/

theorem joinable_isSome {id : ℕ} (hu : s.uploads.get id = some u)
    (hsource : u.source = none) (hopen : u.hasOpenFile = true) :
    (s.joinable u.hostId u.dir u.signature).isSome := by
  simp only [Service.joinable, isSome_map, List.find?_isSome]
  refine ⟨(id, u), (get_eq_some_iff _ _ _).mp hu, ?_⟩
  simp [hsource, hopen]

theorem expire_get {id : ℕ} (hu : s.uploads.get id = some u) {now : ℕ}
    (hexp : Service.expires now u = true) : (s.expire now).uploads.get id = none := by
  simp only [Service.expire, get_foldl_delete]
  refine if_pos (List.mem_map.mpr ⟨(id, u), ?_, rfl⟩)
  exact List.mem_filter.mpr ⟨(get_eq_some_iff _ _ _).mp hu, hexp⟩

theorem leftBehind_of_source_none (hq : Quiescent s) {id : ℕ}
    (hu : s.uploads.get id = some u) (hsource : u.source = none) : LeftBehind s id u where
  source_none := hsource
  not_running := by
    simp only [Upload.uploadState, hsource, if_true]
    split <;> simp
  joinable := joinable_isSome hu hsource
  expires := by
    intro now hnow
    obtain ⟨hbusy, hfolders⟩ := hq.2 _ ((get_eq_some_iff _ _ _).mp hu)
    refine expire_get hu ?_
    have hidle : u.isActive = false := by
      simp only at hbusy hfolders
      simp [Upload.isActive, hbusy, hfolders, hsource]
    simp [Service.expires, hsource, hidle, hnow]

/-- **No upload is left running for a window that left**: in every quiescent state
reached by steps that record a source only for a connected window, an upload is sent by
a connected window or is left behind. -/
theorem source_connected_or_leftBehind {s : Service}
    (h : Run step CommitsForConnected init s) (hq : Quiescent s) (id : ℕ) (u : Upload)
    (hu : s.uploads.get id = some u) :
    (∃ c ∈ s.connected, u.source = some c) ∨ LeftBehind s id u := by
  have hs : SourcesConnected s :=
    h.invariant (by intro id u hu; cases hu) fun _ _ _ hs hok hstep => hs.step hok hstep
  cases hsource : u.source with
  | none => exact Or.inr (leftBehind_of_source_none hq hu hsource)
  | some c => exact Or.inl ⟨c, hs id u hu c hsource, rfl⟩

/-- A window starts an upload of one file and leaves. -/
theorem leftBehind_after_release :
    ∃ s u, exec step init [.connect "a", .start "a" "host" "/tmp",
        .reached 0 "tree" [⟨true, .queued⟩], .sized 0 0, .committed 0 [⟨true, .queued⟩],
        .release "a"] = some s ∧ s.uploads.get 0 = some u ∧
      ((∃ c ∈ s.connected, u.source = some c) ∨ LeftBehind s 0 u) := by
  refine ⟨_, _, (some_get (by decide)).symm, rfl, ?_⟩
  exact source_connected_or_leftBehind (.of_exec _ (by decide) (some_get _).symm)
    ⟨rfl, by decide⟩ 0 _ rfl

/-- A window that leaves while its start waits for the host is the source of the upload
the start puts into the map. -/
theorem start_may_outlive_window :
    ¬∀ s, Run step free init s → Quiescent s → ∀ id u, s.uploads.get id = some u →
      (∃ c ∈ s.connected, u.source = some c) ∨ LeftBehind s id u := by
  intro h
  have hrun : Run step free init _ := .of_exec_free [.connect "a", .start "a" "host" "/tmp",
    .release "a", .reached 0 "tree" [⟨true, .queued⟩], .sized 0 0,
    .committed 0 [⟨true, .queued⟩]] rfl
  rcases h _ hrun ⟨rfl, by decide⟩ 0 _ rfl with ⟨c, hc, -⟩ | hleft
  · cases hc
  · exact absurd hleft.source_none (by decide)

end Service

end Sources

end Lasterm.Transfer
