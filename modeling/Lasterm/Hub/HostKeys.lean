import Lasterm.Hub.SshRoute
import Lasterm.Lib.OrderedMap
import Lasterm.Lib.Run

/-!
# The host keys the hub has pinned

A key pinned for a host is what lets the hub connect again without asking, so it must be the key of
the machine the host's route leads to *now*.  A route depends on another row where the jump is a
host, and a connection that was begun under an earlier route may still bring a key.

Every write therefore clears what it makes stale: an edit the pins of the host whose route it
changes, and those of the hosts behind it when its address changes; a deletion those of the hosts
behind it.  A key that comes late is refused unless the route is still the one its connection was
made for.  The hosts behind an id are found by comparing the column with that id, and the foreign
key on that column makes this enough.

## Main results

* `Sound.planJump_iff` — no spelling escapes the comparison.
* `pins_belong_to_the_current_route` — every pin is of the route there is, in every run.
-/

namespace Lasterm.Hub.HostKeys

open Lasterm.Hub.SshRoute Transition List Option OrderedMap

/-! ### The table -/

/-- The characters of a ULID. -/
def ulidAlphabet : Text := "0123456789ABCDEFGHJKMNPQRSTVWXYZ".toList

/-- What `generateId` gives. -/
def isUlid (id : Text) : Bool :=
  id.length = 26 && id.all ulidAlphabet.contains

theorem plain_of_isUlid {id : Text} (h : isUlid id = true) :
    id ≠ [] ∧ ∀ c ∈ id, isBlank c = false := by
  have halphabet : ∀ c ∈ ulidAlphabet, isBlank c = false := by
    rw [← forall_iff_forall_mem]; decide +kernel
  simp only [isUlid, Bool.and_eq_true, decide_eq_true_eq, List.all_eq_true] at h
  obtain ⟨hlength, hall⟩ := h
  refine ⟨?_, fun c hc => halphabet c (List.contains_iff_mem.mp (hall c hc))⟩
  rintro rfl
  simp at hlength

/-- The `hosts` table, by id. -/
abbrev Table := OrderedMap Text Host

/-- Where the host `id` is reached. -/
def addressOf (hosts : Table) (id : Text) : Option Address :=
  sshAddress ((hosts.get id).map fun host => host.toRouteHost)

/-- The source's `route`. -/
def route (hosts : Table) (host : RouteHost) : Option Route :=
  targetRoute host (addressOf hosts)

/-- The source's `jumpRoute`: the jump is compared whether or not the target has an address. -/
def jumpRoute (hosts : Table) (host : RouteHost) : Option Route :=
  route hosts { host with type := .ssh, sshHost := some "route-jump".toList, sshPort := some 22 }

local instance : LawfulBEq Text := inferInstance

/-- `ssh_proxy_host_id TEXT REFERENCES hosts(id)`, checked at the end of a statement that wrote this
row. -/
def referenceHolds (hosts : Table) (host : RouteHost) : Bool :=
  host.sshProxyHostId.all fun ref => ref ∈ hosts.keys

theorem referenceHolds_iff {hosts : Table} {host : RouteHost} :
    referenceHolds hosts host = true ↔
      ∀ ref, host.sshProxyHostId = some ref → ref ∈ hosts.keys := by
  unfold referenceHolds
  cases host.sshProxyHostId with
  | none | some => simp

/-- The source's `createHost`; `none` is a statement that throws. -/
def createHost (hosts : Table) (id : Text) (input : HostSettings) : Option Table :=
  if id ∈ hosts.keys then none
  else
    let inserted := hosts.set id { toHostSettings := input, sshFingerprint := none,
                                   sshProxyFingerprint := none }
    if referenceHolds inserted input.toRouteHost then some inserted else none

/-- What an update gives: each field that is in the input. -/
structure HostUpdate where
  type : Option HostType
  sshHost : Option (Option Text)
  sshPort : Option (Option Int)
  sshAuth : Option (Option SshAuthMethod)
  sshKeyPath : Option (Option Text)
  sshConfigHost : Option (Option Text)
  sshUser : Option (Option Text)
  sshProxyHostId : Option (Option Text)
  sshProxySpec : Option (Option Text)
  sshProxyFingerprint : Option (Option Text)

/-- The row as the `SET` clauses leave it. -/
def HostUpdate.onto (input : HostUpdate) (host : Host) : Host :=
  { type := input.type.getD host.type
    sshHost := input.sshHost.getD host.sshHost
    sshPort := input.sshPort.getD host.sshPort
    sshProxyHostId := input.sshProxyHostId.getD host.sshProxyHostId
    sshProxySpec := input.sshProxySpec.getD host.sshProxySpec
    sshUser := input.sshUser.getD host.sshUser
    sshAuth := input.sshAuth.getD host.sshAuth
    sshKeyPath := input.sshKeyPath.getD host.sshKeyPath
    sshConfigHost := input.sshConfigHost.getD host.sshConfigHost
    sshFingerprint := host.sshFingerprint
    sshProxyFingerprint := input.sshProxyFingerprint.getD host.sshProxyFingerprint }

/-- A row without its own pin where `stale`, and without its jump's where `staleJump`. -/
def clearPins (host : Host) (stale staleJump : Bool) : Host :=
  { host with
    sshFingerprint := if stale then none else host.sshFingerprint
    sshProxyFingerprint := if staleJump then none else host.sshProxyFingerprint }

@[simp] theorem toRouteHost_clearPins (host : Host) (stale staleJump : Bool) :
    (clearPins host stale staleJump).toRouteHost = host.toRouteHost := rfl

/-- The `UPDATE` of the hosts behind `id`: `WHERE ssh_proxy_host_id = ?`. -/
def clearBehind (hosts : Table) (id : Text) (jumps : Bool) : Table :=
  hosts.mapValues fun host => clearPins host (host.sshProxyHostId = some id)
    (jumps && host.sshProxyHostId = some id)

/-- The writes of an update: the row, the pins that its new route makes stale, and, where its address
changed, those of the hosts behind it. -/
def writeUpdate (hosts : Table) (id : Text) (before updated : Host) : Table :=
  let written := hosts.set id updated
  let pinned := written.set id <| clearPins updated
    (route hosts before.toRouteHost ≠ route written updated.toRouteHost)
    (jumpRoute hosts before.toRouteHost ≠ jumpRoute written updated.toRouteHost)
  if addressOf hosts id ≠ addressOf written id then clearBehind pinned id false else pinned

/-- The source's `updateHost`; `none` is a transaction that is rolled back. -/
def updateHost (hosts : Table) (id : Text) (input : HostUpdate) : Option Table :=
  match hosts.get id with
  | none => none
  | some before =>
    let updated := input.onto before
    if referenceHolds (hosts.set id updated) updated.toRouteHost then
      some (writeUpdate hosts id before updated)
    else none

/-- The column a key is pinned in. -/
inductive PinColumn
  | sshFingerprint
  | sshProxyFingerprint

/-- The fingerprint pinned in a column. -/
def pinnedIn (host : Host) : PinColumn → Option Text
  | .sshFingerprint => host.sshFingerprint
  | .sshProxyFingerprint => host.sshProxyFingerprint

/-- The host with a fingerprint pinned in a column. -/
def withPin (host : Host) (fingerprint : Text) : PinColumn → Host
  | .sshFingerprint => { host with sshFingerprint := some fingerprint }
  | .sshProxyFingerprint => { host with sshProxyFingerprint := some fingerprint }

/-- What comes of pinning a key. -/
inductive PinOutcome
  | refused
  | same
  | pinned

/-- The source's `writePin`. -/
def writePin (hosts : Table) (hostId fingerprint : Text) (expectedRoute : Option Route)
    (column : PinColumn) : PinOutcome × Table :=
  match hosts.get hostId with
  | none => (.refused, hosts)
  | some host =>
    if expectedRoute = none ∨ route hosts host.toRouteHost ≠ expectedRoute then (.refused, hosts)
    else if pinnedIn host column = some fingerprint then (.same, hosts)
    else (.pinned, hosts.set hostId (withPin host fingerprint column))

/-- The source's `getHostFingerprint`. -/
def getHostFingerprint (hosts : Table) (hostId : Text) (expectedRoute : Option Route) :
    Option Text :=
  match hosts.get hostId with
  | none => none
  | some host =>
    if expectedRoute ≠ none ∧ route hosts host.toRouteHost = expectedRoute then
      host.sshFingerprint
    else none

/-- `ON DELETE SET NULL`. -/
def setNull (hosts : Table) (id : Text) : Table :=
  hosts.mapValues fun host =>
    if host.sshProxyHostId = some id then { host with sshProxyHostId := none } else host

/-- The source's `deleteHost`. -/
def deleteHost (hosts : Table) (id : Text) : Table :=
  let cleared := clearBehind hosts id true
  if id ∈ cleared.keys then setNull (cleared.delete id) id else cleared

/-- The source's `importHosts`: all of them, or none. -/
def importHosts (hosts : Table) (inputs : List (Text × HostSettings)) : Option Table :=
  inputs.foldlM (fun hosts input => createHost hosts input.1 input.2) hosts

/-- The source's `duplicateHost`: the copy takes the settings and no pin. -/
def duplicateHost (hosts : Table) (id copyId : Text) : Option Table :=
  match hosts.get id with
  | none => some hosts
  | some original =>
    if original.type = .localHost then some hosts
    else createHost hosts copyId original.toHostSettings

/-! ### Connections -/

/-- A connection under way: the host it was asked for, the route it was begun for, and the jump it
travels through. -/
structure Attempt where
  hostId : Text
  hostKey : Option Route
  jump : Option ResolvedJump

/-- A connection is begun for what is declared: a row as it was read once, or what a form holds. -/
def beginAttempt (hosts : Table) (hostId : Text) (declared : Host) (trustKnownHosts : Bool) :
    Option Attempt :=
  match resolveJump hostId declared ⟨hosts.get, getHostFingerprint hosts⟩ trustKnownHosts with
  | .refused _ => none
  | .direct => some ⟨hostId, route hosts declared.toRouteHost, none⟩
  | .jump jump => some ⟨hostId, route hosts declared.toRouteHost, some jump⟩

/-- The source's `pinJumpKey`. -/
def pinJumpKey (hosts : Table) (jump : ResolvedJump) (fingerprint : Text)
    (expectedRoute : Option Route) : PinOutcome × Table :=
  match jump.pinTo with
  | .host hostId expected => writePin hosts hostId fingerprint expected .sshFingerprint
  | .spec hostId => writePin hosts hostId fingerprint expectedRoute .sshProxyFingerprint

/-- The table, the connections begun so far, and what they accepted: each key with the route of its
connection, and those of jumps apart. -/
structure State where
  hosts : Table
  attempts : List Attempt
  accepted : List (Route × Text)
  acceptedJumps : List (Route × Text)

/-- The hub as it starts, with no host. -/
def start : State := ⟨empty, [], [], []⟩

/-- What can happen. -/
inductive Event
  | create (id : Text) (input : HostSettings)
  | importAll (inputs : List (Text × HostSettings))
  | update (id : Text) (input : HostUpdate)
  | duplicate (id copyId : Text)
  | remove (id : Text)
  | connect (hostId : Text) (declared : Host) (trustKnownHosts : Bool)
  /-- Attempt `i` accepted this key of its target, and pins it. -/
  | acceptTarget (i : ℕ) (key : Text)
  /-- Attempt `i` accepted this key of its jump, and pins it. -/
  | acceptJump (i : ℕ) (key : Text)

/-- One step.  New ids are ULIDs, and no caller writes a fingerprint with an update. -/
def next (s : State) : Event → Option State
  | .create id input =>
    if isUlid id then some { s with hosts := (createHost s.hosts id input).getD s.hosts } else none
  | .importAll inputs =>
    if inputs.all fun input => isUlid input.1 then
      some { s with hosts := (importHosts s.hosts inputs).getD s.hosts }
    else none
  | .update id input =>
    if input.sshProxyFingerprint = none then
      some { s with hosts := (updateHost s.hosts id input).getD s.hosts }
    else none
  | .duplicate id copyId =>
    if isUlid copyId then
      some { s with hosts := (duplicateHost s.hosts id copyId).getD s.hosts }
    else none
  | .remove id => some { s with hosts := deleteHost s.hosts id }
  | .connect hostId declared trustKnownHosts =>
    (beginAttempt s.hosts hostId declared trustKnownHosts).map fun attempt =>
      { s with attempts := s.attempts ++ [attempt] }
  | .acceptTarget i key =>
    s.attempts[i]?.map fun attempt =>
      { s with
        hosts := (writePin s.hosts attempt.hostId key attempt.hostKey .sshFingerprint).2
        accepted := (attempt.hostKey.map fun r => (r, key)).toList ++ s.accepted }
  | .acceptJump i key =>
    s.attempts[i]?.bind fun attempt =>
      attempt.jump.map fun jump =>
        { s with
          hosts := (pinJumpKey s.hosts jump key attempt.hostKey).2
          accepted := (jump.dialled, key) :: s.accepted
          acceptedJumps := (jump.dialled, key) :: s.acceptedJumps }

/-! ### The invariant of the table -/

/-- A row's pins belong to the route it has and to the jump it declares. -/
structure Pinned (accepted acceptedJumps : List (Route × Text)) (hosts : Table) (host : Host) :
    Prop where
  target : ∀ {key}, host.sshFingerprint = some key →
    ∃ r, route hosts host.toRouteHost = some r ∧ (r, key) ∈ accepted
  jump : ∀ {key}, host.sshProxyFingerprint = some key →
    ∃ spec, planJump host.toRouteHost = .spec spec ∧
      (⟨spec.host, spec.port, .direct⟩, key) ∈ acceptedJumps

/-- The invariant: ids are ULIDs, every reference is to a row, and every pin is in its place. -/
structure Sound (accepted acceptedJumps : List (Route × Text)) (hosts : Table) : Prop where
  ids : ∀ {id}, id ∈ hosts.keys → isUlid id = true
  references : ∀ {id host ref}, hosts.get id = some host → host.sshProxyHostId = some ref →
    ref ∈ hosts.keys
  pinned : ∀ {id host}, hosts.get id = some host → Pinned accepted acceptedJumps hosts host

variable {accepted acceptedJumps accepted' acceptedJumps' : List (Route × Text)}
  {hosts hosts' : Table} {id key ref : Text} {host : Host}

section

variable (h : Sound accepted acceptedJumps hosts)
include h

theorem Sound.plain (hget : hosts.get id = some host) (href : host.sshProxyHostId = some ref) :
    ref ≠ [] ∧ ∀ c ∈ ref, isBlank c = false :=
  plain_of_isUlid (h.ids (h.references hget href))

theorem Sound.mono (hsub : accepted ⊆ accepted')
    (hsub' : acceptedJumps ⊆ acceptedJumps') : Sound accepted' acceptedJumps' hosts where
  ids := h.ids
  references := h.references
  pinned := fun hget =>
    { target := fun hkey =>
        let ⟨r, hr, hmem⟩ := (h.pinned hget).target hkey
        ⟨r, hr, hsub hmem⟩
      jump := fun hkey =>
        let ⟨spec, hspec, hmem⟩ := (h.pinned hget).jump hkey
        ⟨spec, hspec, hsub' hmem⟩ }

/-- The plan of a row goes through a host exactly where its column holds that host's id: no spelling
escapes the comparison. -/
theorem Sound.planJump_iff (hget : hosts.get id = some host) (jumpId : Text) :
    planJump host.toRouteHost = .host jumpId ↔ host.sshProxyHostId = some jumpId := by
  constructor
  · exact plain_of_planJump fun ref href => (h.plain hget href).2
  · intro href
    obtain ⟨hne, hplain⟩ := h.plain hget href
    exact planJump_of_plain hne hplain href

theorem Sound.route_congr (hget : hosts.get id = some host)
    (haddress : ∀ ref, host.sshProxyHostId = some ref → addressOf hosts' ref = addressOf hosts ref) :
    route hosts' host.toRouteHost = route hosts host.toRouteHost :=
  targetRoute_congr fun jumpId hplan => haddress jumpId ((h.planJump_iff hget jumpId).mp hplan)

end

variable {host' : Host}

theorem Pinned.congr (h : Pinned accepted acceptedJumps hosts host)
    (htarget : ∀ {key}, host'.sshFingerprint = some key → host.sshFingerprint = some key ∧
      route hosts' host'.toRouteHost = route hosts host.toRouteHost)
    (hjump : ∀ {key}, host'.sshProxyFingerprint = some key → host.sshProxyFingerprint = some key ∧
      ∀ spec, planJump host.toRouteHost = .spec spec →
        ∃ spec', planJump host'.toRouteHost = .spec spec' ∧ spec'.host = spec.host ∧
          spec'.port = spec.port) : Pinned accepted acceptedJumps hosts' host' where
  target := by
    intro key hkey
    obtain ⟨hold, hroute⟩ := htarget hkey
    rw [hroute]
    exact h.target hold
  jump := by
    intro key hkey
    obtain ⟨hold, hplan⟩ := hjump hkey
    obtain ⟨spec, hspec, hmem⟩ := h.jump hold
    obtain ⟨spec', hspec', hhost, hport⟩ := hplan spec hspec
    rw [← hhost, ← hport] at hmem
    exact ⟨spec', hspec', hmem⟩

/-! ### Addresses under the statements -/

theorem addressOf_of_get (h : hosts.get id = some host) :
    addressOf hosts id = sshAddress (some host.toRouteHost) := by
  rw [addressOf, h, map_some]

theorem addressOf_set_of_ne (h : ref ≠ id) :
    addressOf (hosts.set id host) ref = addressOf hosts ref := by
  rw [addressOf, get_set_of_ne _ h, addressOf]

theorem addressOf_set_of_toRouteHost (h : hosts.get id = some host)
    (heq : host'.toRouteHost = host.toRouteHost) :
    addressOf (hosts.set id host') = addressOf hosts := by
  funext ref
  by_cases href : ref = id
  · subst href
    rw [addressOf_of_get (get_set_self _ _ _), addressOf_of_get h, heq]
  · exact addressOf_set_of_ne href

theorem addressOf_mapValues {f : Host → Host} (h : ∀ host, (f host).toRouteHost = host.toRouteHost) :
    addressOf (hosts.mapValues f) = addressOf hosts := by
  funext ref
  rw [addressOf, addressOf, OrderedMap.get_mapValues, Option.map_map]
  congr 1
  exact Option.map_congr fun host _ => h host

theorem keys_mapValues {f : Host → Host} : (hosts.mapValues f).keys = hosts.keys := by
  simp [OrderedMap.keys, mapValues, Function.comp_def]

/-! ### What each statement keeps -/

theorem Sound.createHost {id : Text} {input : HostSettings}
    (h : Sound accepted acceptedJumps hosts) (hid : isUlid id = true)
    (hcreate : createHost hosts id input = some hosts') : Sound accepted acceptedJumps hosts' := by
  unfold HostKeys.createHost at hcreate
  split at hcreate
  · cases hcreate
  · next hfresh =>
    simp only at hcreate
    split at hcreate
    · next hrefers =>
      cases hcreate
      refine ⟨?_, ?_, ?_⟩
      · intro id' hmem
        obtain rfl | hmem := mem_keys_set.mp hmem
        · exact hid
        · exact h.ids hmem
      · intro id' host ref hget href
        rw [get_set] at hget
        split at hget
        · cases hget
          exact referenceHolds_iff.mp hrefers ref href
        · exact mem_keys_set.mpr (.inr (h.references hget href))
      · intro id' host hget
        rw [get_set] at hget
        split at hget
        · cases hget
          exact { target := fun hkey => (nomatch hkey), jump := fun hkey => (nomatch hkey) }
        · refine (h.pinned hget).congr (fun hkey => ⟨hkey, h.route_congr hget ?_⟩)
            fun hkey => ⟨hkey, fun spec hspec => ⟨spec, hspec, rfl, rfl⟩⟩
          intro ref href
          refine addressOf_set_of_ne ?_
          rintro rfl
          exact hfresh (h.references hget href)
    · cases hcreate

theorem Sound.importHosts {inputs : List (Text × HostSettings)}
    (h : Sound accepted acceptedJumps hosts) (hid : ∀ input ∈ inputs, isUlid input.1 = true)
    (himport : importHosts hosts inputs = some hosts') : Sound accepted acceptedJumps hosts' := by
  induction inputs generalizing hosts with
  | nil =>
    cases himport
    exact h
  | cons input inputs ih =>
    obtain ⟨hosts₁, hfirst, hrest⟩ := bind_eq_some_iff.mp himport
    exact ih (h.createHost (hid _ mem_cons_self) hfirst)
      (fun input hmem => hid input (mem_cons_of_mem _ hmem)) hrest

theorem Sound.duplicateHost {copyId : Text} (h : Sound accepted acceptedJumps hosts)
    (hid : isUlid copyId = true) (hcopy : duplicateHost hosts id copyId = some hosts') :
    Sound accepted acceptedJumps hosts' := by
  unfold HostKeys.duplicateHost at hcopy
  split at hcopy
  · cases hcopy
    exact h
  · split at hcopy
    · cases hcopy
      exact h
    · exact h.createHost hid hcopy

theorem Sound.repin (h : Sound accepted acceptedJumps hosts)
    (hget : hosts.get id = some host) (hsame : host'.toRouteHost = host.toRouteHost)
    (hpinned : Pinned accepted acceptedJumps hosts host') :
    Sound accepted acceptedJumps (hosts.set id host') := by
  have haddress : addressOf (hosts.set id host') = addressOf hosts :=
    addressOf_set_of_toRouteHost hget hsame
  have hroute : ∀ row : RouteHost, route (hosts.set id host') row = route hosts row := by
    intro row
    rw [route, haddress, route]
  have hkeys : ∀ {ref}, ref ∈ hosts.keys → ref ∈ (hosts.set id host').keys :=
    fun hmem => mem_keys_set.mpr (.inr hmem)
  refine ⟨fun hmem => h.ids (mem_keys_of_set hget hmem), ?_, ?_⟩
  · intro id' row ref hrow href
    rw [get_set] at hrow
    split at hrow
    · cases hrow
      rw [hsame] at href
      exact hkeys (h.references hget href)
    · exact hkeys (h.references hrow href)
  · intro id' row hrow
    have hold : Pinned accepted acceptedJumps hosts row := by
      rw [get_set] at hrow
      split at hrow
      · cases hrow
        exact hpinned
      · exact h.pinned hrow
    exact hold.congr (fun hkey => ⟨hkey, hroute _⟩)
      fun hkey => ⟨hkey, fun spec hspec => ⟨spec, hspec, rfl, rfl⟩⟩

variable {hostId fingerprint : Text}

theorem Sound.writePin_target {expectedRoute : Option Route}
    (h : Sound accepted acceptedJumps hosts)
    (haccepted : ∀ r, expectedRoute = some r → (r, fingerprint) ∈ accepted) :
    Sound accepted acceptedJumps
      (writePin hosts hostId fingerprint expectedRoute .sshFingerprint).2 := by
  unfold writePin
  split
  · exact h
  · next host hget =>
    split
    · exact h
    · next hguard =>
      obtain ⟨hsome, hroute⟩ := not_or.mp hguard
      obtain ⟨r, rfl⟩ := ne_none_iff_exists'.mp hsome
      split
      · exact h
      · refine h.repin hget rfl { target := ?_, jump := (h.pinned hget).jump }
        rintro key ⟨⟩
        exact ⟨r, not_not.mp hroute, haccepted r rfl⟩

/-- A key is pinned for a jump where it was accepted for the jump of the route it is pinned under. -/
theorem Sound.writePin_jump {expectedRoute : Option Route}
    {name : Text} {port : Int} (h : Sound accepted acceptedJumps hosts)
    (hjump : ∀ r, expectedRoute = some r → r.jump = .spec name port)
    (haccepted : (⟨name, port, .direct⟩, fingerprint) ∈ acceptedJumps) :
    Sound accepted acceptedJumps
      (writePin hosts hostId fingerprint expectedRoute .sshProxyFingerprint).2 := by
  unfold writePin
  split
  · exact h
  · next host hget =>
    split
    · exact h
    · next hguard =>
      obtain ⟨hsome, hroute⟩ := not_or.mp hguard
      obtain ⟨r, rfl⟩ := ne_none_iff_exists'.mp hsome
      split
      · exact h
      · refine h.repin hget rfl { target := (h.pinned hget).target, jump := ?_ }
        rintro key ⟨⟩
        have hspec := hjump r rfl
        rw [routeJump_of_targetRoute (not_not.mp hroute)] at hspec
        obtain ⟨spec, hplan, rfl, rfl⟩ := spec_of_routeJump hspec
        exact ⟨spec, hplan, haccepted⟩

theorem get_clearBehind {jumpId : Text} {jumps : Bool}
    (h : (clearBehind hosts jumpId jumps).get id = some host) :
    ∃ old, hosts.get id = some old ∧
      (old.sshProxyHostId ≠ some jumpId ∧ host = old ∨
        old.sshProxyHostId = some jumpId ∧ host = clearPins old true jumps) := by
  obtain ⟨old, hold, rfl⟩ := map_eq_some_iff.mp ((get_mapValues ..).symm.trans h)
  refine ⟨old, hold, ?_⟩
  by_cases hid : old.sshProxyHostId = some jumpId
  · exact .inr ⟨hid, by simp [hid]⟩
  · exact .inl ⟨hid, by simp [clearPins, hid]⟩

theorem addressOf_clearBehind {jumpId : Text} {jumps : Bool} :
    addressOf (clearBehind hosts jumpId jumps) = addressOf hosts :=
  addressOf_mapValues fun host => toRouteHost_clearPins host _ _

variable {before : Host}

theorem Pinned.updated {updated : Host} (h : Pinned accepted acceptedJumps hosts before)
    (written : Table)
    (hpin : updated.sshFingerprint = before.sshFingerprint)
    (hjumpPin : updated.sshProxyFingerprint = before.sshProxyFingerprint) :
    Pinned accepted acceptedJumps written (clearPins updated
      (route hosts before.toRouteHost ≠ route written updated.toRouteHost)
      (jumpRoute hosts before.toRouteHost ≠ jumpRoute written updated.toRouteHost)) := by
  refine h.congr ?_ ?_
  · intro key hkey
    by_cases hroute : route hosts before.toRouteHost = route written updated.toRouteHost
    · exact ⟨by simpa [clearPins, hroute, hpin] using hkey, hroute.symm⟩
    · exact absurd hkey (by simp [clearPins, hroute])
  · intro key hkey
    by_cases hroute : jumpRoute hosts before.toRouteHost = jumpRoute written updated.toRouteHost
    · refine ⟨by simpa [clearPins, hroute, hjumpPin] using hkey, fun spec hspec => ?_⟩
      have hjump : routeJump before.toRouteHost (addressOf hosts) =
          routeJump updated.toRouteHost (addressOf written) :=
        congrArg Route.jump (some.inj hroute)
      rw [routeJump_of_spec hspec] at hjump
      exact spec_of_routeJump hjump.symm
    · exact absurd hkey (by simp [clearPins, hroute])

/-- A row after an update: its settings are those written, and it keeps its own pin only where the
address it is reached through stayed. -/
theorem get_writeUpdate {updated : Host} {id' : Text}
    (h : (writeUpdate hosts id before updated).get id' = some host) :
    ∃ mid, ((hosts.set id updated).set id (clearPins updated
        (route hosts before.toRouteHost ≠ route (hosts.set id updated) updated.toRouteHost)
        (jumpRoute hosts before.toRouteHost ≠
          jumpRoute (hosts.set id updated) updated.toRouteHost))).get id' = some mid ∧
      host.toRouteHost = mid.toRouteHost ∧ host.sshProxyFingerprint = mid.sshProxyFingerprint ∧
      ∀ key, host.sshFingerprint = some key → mid.sshFingerprint = some key ∧
        (mid.sshProxyHostId = some id → addressOf (hosts.set id updated) id = addressOf hosts id) := by
  unfold writeUpdate at h
  simp only at h
  split at h
  · obtain ⟨mid, hmid, ⟨hne, rfl⟩ | ⟨-, rfl⟩⟩ := get_clearBehind h
    · exact ⟨host, hmid, rfl, rfl, fun key hkey => ⟨hkey, fun hid => absurd hid hne⟩⟩
    · exact ⟨mid, hmid, rfl, rfl, fun key hkey => (nomatch hkey)⟩
  · next hstays =>
    exact ⟨host, h, rfl, rfl, fun key hkey => ⟨hkey, fun _ => (not_not.mp hstays).symm⟩⟩

theorem addressOf_writeUpdate {updated : Host} :
    addressOf (writeUpdate hosts id before updated) = addressOf (hosts.set id updated) := by
  have hpinned : ∀ stale staleJump, addressOf ((hosts.set id updated).set id
      (clearPins updated stale staleJump)) = addressOf (hosts.set id updated) :=
    fun stale staleJump => addressOf_set_of_toRouteHost (get_set_self ..) rfl
  unfold writeUpdate
  simp only
  split
  · rw [addressOf_clearBehind, hpinned]
  · exact hpinned _ _

theorem mem_keys_writeUpdate {updated : Host} (hget : hosts.get id = some before) :
    ref ∈ (writeUpdate hosts id before updated).keys ↔ ref ∈ hosts.keys := by
  have hid : id ∈ hosts.keys := (mem_keys_iff _ _).mpr ⟨before, hget⟩
  have hset : ∀ host, ref ∈ ((hosts.set id updated).set id host).keys ↔ ref ∈ hosts.keys := by
    intro host
    rw [mem_keys_set, mem_keys_set]
    constructor
    · rintro (rfl | rfl | hmem)
      · exact hid
      · exact hid
      · exact hmem
    · exact fun hmem => .inr (.inr hmem)
  unfold writeUpdate
  simp only
  split
  · rw [clearBehind, keys_mapValues, hset]
  · exact hset _

theorem Sound.updateHost {input : HostUpdate} (h : Sound accepted acceptedJumps hosts)
    (hinput : input.sshProxyFingerprint = none)
    (hupdate : updateHost hosts id input = some hosts') : Sound accepted acceptedJumps hosts' := by
  unfold HostKeys.updateHost at hupdate
  split at hupdate
  · cases hupdate
  · next before hget =>
    simp only at hupdate
    split at hupdate
    · next hrefers =>
      cases hupdate
      have hroute : ∀ row : RouteHost, route (writeUpdate hosts id before (input.onto before)) row =
          route (hosts.set id (input.onto before)) row := by
        intro row
        rw [route, addressOf_writeUpdate, route]
      refine ⟨fun hmem => h.ids ((mem_keys_writeUpdate hget).mp hmem), ?_, ?_⟩
      · intro id' host ref hhost href
        rw [mem_keys_writeUpdate hget]
        obtain ⟨mid, hmid, hsame, -⟩ := get_writeUpdate hhost
        rw [hsame] at href
        rw [get_set, get_set] at hmid
        split at hmid
        · cases hmid
          exact mem_keys_of_set hget (referenceHolds_iff.mp hrefers ref href)
        · exact h.references hmid href
      · intro id' host hhost
        obtain ⟨mid, hmid, hsame, hproxy, hkept⟩ := get_writeUpdate hhost
        have hplan : planJump host.toRouteHost = planJump mid.toRouteHost := by rw [hsame]
        rw [get_set, get_set] at hmid
        split at hmid
        · cases hmid
          have hjumpPin : (input.onto before).sshProxyFingerprint = before.sshProxyFingerprint := by
            simp [HostUpdate.onto, hinput]
          have hpin : (input.onto before).sshFingerprint = before.sshFingerprint := rfl
          have hown := (h.pinned hget).updated (hosts.set id (input.onto before)) hpin hjumpPin
          refine hown.congr (fun hkey => ⟨(hkept _ hkey).1, by rw [hroute, hsame]⟩) fun hkey => ?_
          exact ⟨hproxy ▸ hkey, fun spec hspec => ⟨spec, hplan.trans hspec, rfl, rfl⟩⟩
        · next hne =>
          refine (h.pinned hmid).congr (fun hkey => ⟨(hkept _ hkey).1, ?_⟩) fun hkey =>
            ⟨hproxy ▸ hkey, fun spec hspec => ⟨spec, hplan.trans hspec, rfl, rfl⟩⟩
          rw [hroute, hsame]
          refine h.route_congr hmid fun ref href => ?_
          by_cases hid : ref = id
          · subst hid
            exact (hkept _ hkey).2 href
          · exact addressOf_set_of_ne hid
    · cases hupdate

theorem addressOf_delete_of_ne (h : ref ≠ id) :
    addressOf (setNull (hosts.delete id) id) ref = addressOf hosts ref := by
  have hsame : ∀ host : Host, sshAddress (some (if host.sshProxyHostId = some id then
      { host with sshProxyHostId := none } else host).toRouteHost) =
        sshAddress (some host.toRouteHost) := by
    intro host
    split <;> rfl
  rw [addressOf, addressOf, setNull, get_mapValues, get_delete_of_ne _ h]
  cases hosts.get ref with
  | none => rfl
  | some host => exact hsame host

theorem Sound.clearBehind (h : Sound accepted acceptedJumps hosts) :
    Sound accepted acceptedJumps (clearBehind hosts id true) := by
  refine ⟨?_, ?_, ?_⟩
  · intro id' hmem
    rw [HostKeys.clearBehind, keys_mapValues] at hmem
    exact h.ids hmem
  · intro id' host ref hhost href
    rw [HostKeys.clearBehind, keys_mapValues]
    obtain ⟨old, hold, ⟨-, rfl⟩ | ⟨-, rfl⟩⟩ := get_clearBehind hhost <;>
      exact h.references hold href
  · intro id' host hhost
    obtain ⟨old, hold, ⟨-, rfl⟩ | ⟨-, rfl⟩⟩ := get_clearBehind hhost
    · refine (h.pinned hold).congr (fun hkey => ⟨hkey, by rw [route, addressOf_clearBehind, route]⟩)
        fun hkey => ⟨hkey, fun spec hspec => ⟨spec, hspec, rfl, rfl⟩⟩
    · exact { target := fun hkey => (nomatch hkey), jump := fun hkey => (nomatch hkey) }

/-- Deleting a host leaves no pin behind it: the rows that were reached through it have another plan
now. -/
theorem Sound.deleteHost (h : Sound accepted acceptedJumps hosts) :
    Sound accepted acceptedJumps (deleteHost hosts id) := by
  have hcleared : Sound accepted acceptedJumps (HostKeys.clearBehind hosts id true) := h.clearBehind
  have hbehind : ∀ {id' host}, (HostKeys.clearBehind hosts id true).get id' = some host →
      host.sshProxyHostId = some id →
        host.sshFingerprint = none ∧ host.sshProxyFingerprint = none := by
    intro id' host hhost hid
    obtain ⟨old, -, ⟨hne, rfl⟩ | ⟨-, rfl⟩⟩ := get_clearBehind hhost
    · exact absurd hid hne
    · exact ⟨rfl, rfl⟩
  unfold HostKeys.deleteHost
  simp only
  split
  · -- what is left of a row, and the row it was
    have hrow : ∀ {id' host}, (setNull ((HostKeys.clearBehind hosts id true).delete id) id).get id' =
        some host → id' ≠ id ∧ ∃ old, (HostKeys.clearBehind hosts id true).get id' = some old ∧
          (old.sshProxyHostId = some id ∧ host = { old with sshProxyHostId := none } ∨
            old.sshProxyHostId ≠ some id ∧ host = old) := by
      intro id' host hhost
      rw [setNull, get_mapValues, get_delete] at hhost
      obtain ⟨old, hold, rfl⟩ := map_eq_some_iff.mp hhost
      obtain ⟨hne, hold⟩ := ite_none_left_eq_some.mp hold
      refine ⟨hne, old, hold, ?_⟩
      by_cases hid : old.sshProxyHostId = some id
      · exact .inl ⟨hid, by rw [if_pos hid]⟩
      · exact .inr ⟨hid, by rw [if_neg hid]⟩
    have hkeys : ∀ {ref}, ref ∈ (setNull ((HostKeys.clearBehind hosts id true).delete id) id).keys ↔
        ref ≠ id ∧ ref ∈ (HostKeys.clearBehind hosts id true).keys := by
      intro ref
      rw [setNull, keys_mapValues, mem_keys_iff, mem_keys_iff, get_delete]
      by_cases href : ref = id <;> simp [href]
    refine ⟨fun hmem => hcleared.ids (hkeys.mp hmem).2, ?_, ?_⟩
    · intro id' host ref hhost href
      obtain ⟨-, old, hold, ⟨-, rfl⟩ | ⟨hne, rfl⟩⟩ := hrow hhost
      · cases href
      · refine hkeys.mpr ⟨?_, hcleared.references hold href⟩
        rintro rfl
        exact hne href
    · intro id' host hhost
      obtain ⟨-, old, hold, ⟨hid, rfl⟩ | ⟨hne, rfl⟩⟩ := hrow hhost
      · obtain ⟨hnone, hnone'⟩ := hbehind hold hid
        exact { target := fun hkey => (nomatch hnone.symm.trans hkey)
                jump := fun hkey => (nomatch hnone'.symm.trans hkey) }
      · refine (hcleared.pinned hold).congr (fun hkey => ⟨hkey, ?_⟩)
          fun hkey => ⟨hkey, fun spec hspec => ⟨spec, hspec, rfl, rfl⟩⟩
        refine hcleared.route_congr hold fun ref href => addressOf_delete_of_ne ?_
        rintro rfl
        exact hne href
  · exact hcleared

/-! ### Runs -/

/-- An attempt pins its jump's key under the route the jump was dialled by: its own, where the jump
is a host, and the attempt's, where it is a spec. -/
structure Attempt.Resolved (attempt : Attempt) : Prop where
  host : ∀ {jump hostId expected}, attempt.jump = some jump → jump.pinTo = .host hostId expected →
    expected = some jump.dialled
  spec : ∀ {jump hostId r}, attempt.jump = some jump → jump.pinTo = .spec hostId →
    attempt.hostKey = some r → r.jump = .spec jump.jump.host jump.jump.port

theorem resolved_of_beginAttempt {declared : Host} {trustKnownHosts : Bool}
    {attempt : Attempt} (h : beginAttempt hosts hostId declared trustKnownHosts = some attempt) :
    attempt.Resolved := by
  unfold beginAttempt at h
  split at h
  · cases h
  · cases h
    exact { host := fun hjump => (nomatch hjump), spec := fun hjump => (nomatch hjump) }
  · next jump hresolve =>
    cases h
    refine { host := ?_, spec := ?_ }
    · rintro _ hostId expected ⟨⟩ hpin
      exact (host_of_resolveJump hresolve hpin).2.1
    · rintro _ hostId r ⟨⟩ hpin hroute
      obtain ⟨spec, hplan, hhost, hport⟩ := spec_of_resolveJump hresolve hpin
      rw [routeJump_of_targetRoute hroute, routeJump_of_spec hplan, hhost, hport]

/-- The invariant of the whole system. -/
structure Inv (s : State) : Prop where
  sound : Sound s.accepted s.acceptedJumps s.hosts
  resolved : ∀ {attempt}, attempt ∈ s.attempts → attempt.Resolved

theorem inv_start : Inv start where
  sound :=
    { ids := fun hmem => (nomatch hmem)
      references := fun hget => (nomatch hget)
      pinned := fun hget => (nomatch hget) }
  resolved := fun hmem => (nomatch hmem)

theorem Sound.getD {written : Option Table} (h : Sound accepted acceptedJumps hosts)
    (hwritten : ∀ {hosts'}, written = some hosts' → Sound accepted acceptedJumps hosts') :
    Sound accepted acceptedJumps (written.getD hosts) := by
  cases written with
  | none => exact h
  | some hosts' => exact hwritten rfl

theorem Sound.pinJumpKey {attempt : Attempt} {jump : ResolvedJump}
    (h : Sound accepted acceptedJumps hosts) (hresolved : attempt.Resolved)
    (hjump : attempt.jump = some jump) :
    Sound ((jump.dialled, fingerprint) :: accepted) ((jump.dialled, fingerprint) :: acceptedJumps)
      (pinJumpKey hosts jump fingerprint attempt.hostKey).2 := by
  have hmore := h.mono (subset_cons_self (jump.dialled, fingerprint) accepted)
    (subset_cons_self (jump.dialled, fingerprint) acceptedJumps)
  unfold HostKeys.pinJumpKey
  split
  · next hostId expected hpin =>
    refine hmore.writePin_target fun r hr => ?_
    rw [hresolved.host hjump hpin] at hr
    cases hr
    exact mem_cons_self
  · next hostId hpin =>
    exact hmore.writePin_jump (fun r hr => hresolved.spec hjump hpin hr) mem_cons_self

theorem Inv.next {s s' : State} {event : Event} (h : Inv s) (hn : next s event = some s') :
    Inv s' := by
  cases event with
  | create id input =>
    obtain ⟨hid, ⟨rfl⟩⟩ := ite_none_right_eq_some.mp hn
    exact ⟨h.sound.getD fun hwritten => h.sound.createHost hid hwritten, h.resolved⟩
  | importAll inputs =>
    obtain ⟨hids, ⟨rfl⟩⟩ := ite_none_right_eq_some.mp hn
    exact ⟨h.sound.getD fun hwritten => h.sound.importHosts (all_eq_true.mp hids) hwritten,
      h.resolved⟩
  | update id input =>
    obtain ⟨hinput, ⟨rfl⟩⟩ := ite_none_right_eq_some.mp hn
    exact ⟨h.sound.getD fun hwritten => h.sound.updateHost hinput hwritten, h.resolved⟩
  | duplicate id copyId =>
    obtain ⟨hid, ⟨rfl⟩⟩ := ite_none_right_eq_some.mp hn
    exact ⟨h.sound.getD fun hwritten => h.sound.duplicateHost hid hwritten, h.resolved⟩
  | remove id =>
    cases hn
    exact ⟨h.sound.deleteHost, h.resolved⟩
  | connect hostId declared trustKnownHosts =>
    obtain ⟨attempt, hbegin, rfl⟩ := map_eq_some_iff.mp hn
    refine ⟨h.sound, fun hmem => ?_⟩
    obtain hmem | hmem := mem_append.mp hmem
    · exact h.resolved hmem
    · obtain rfl := mem_singleton.mp hmem
      exact resolved_of_beginAttempt hbegin
  | acceptTarget i key =>
    obtain ⟨attempt, hattempt, rfl⟩ := map_eq_some_iff.mp hn
    refine ⟨(h.sound.mono (subset_append_right ..) fun _ hmem => hmem).writePin_target
      fun r hr => ?_, h.resolved⟩
    rw [hr]
    exact mem_append_left _ (mem_singleton.mpr rfl)
  | acceptJump i key =>
    obtain ⟨attempt, hattempt, hrest⟩ := bind_eq_some_iff.mp hn
    obtain ⟨jump, hjump, rfl⟩ := map_eq_some_iff.mp hrest
    exact ⟨h.sound.pinJumpKey (h.resolved (mem_of_getElem? hattempt)) hjump, h.resolved⟩

theorem inv_of_run {s : State} (h : Run next free start s) : Inv s :=
  h.invariant inv_start fun _ _ _ hs _ hn => hs.next hn

/-- In every table that creating, editing, copying, importing and deleting hosts leads to, interleaved
with connections that pin what they accepted, whenever they were begun, a host's pin was accepted for
the route it has, and its jump's pin for the jump it declares; and the hosts behind one are those whose
column holds its id, however the rows are spelled. -/
theorem pins_belong_to_the_current_route {s : State} (h : Run next free start s) {id : Text}
    {host : Host} (hget : s.hosts.get id = some host) :
    (∀ key, host.sshFingerprint = some key →
      ∃ r, route s.hosts host.toRouteHost = some r ∧ (r, key) ∈ s.accepted) ∧
    (∀ key, host.sshProxyFingerprint = some key →
      ∃ spec, planJump host.toRouteHost = .spec spec ∧
        (⟨spec.host, spec.port, .direct⟩, key) ∈ s.acceptedJumps) ∧
    ∀ jumpId, planJump host.toRouteHost = .host jumpId ↔ host.sshProxyHostId = some jumpId := by
  have hsound := (inv_of_run h).sound
  exact ⟨fun _ hkey => (hsound.pinned hget).target hkey,
    fun _ hkey => (hsound.pinned hget).jump hkey, hsound.planJump_iff hget⟩

/-- A host behind a bastion, and one behind a spec, each connected to once and pinned. -/
def twoVisits : List Event :=
  let settings (sshHost : String) (proxy spec : Option Text) : HostSettings :=
    { type := .ssh, sshHost := some sshHost.toList, sshPort := none, sshProxyHostId := proxy
      sshProxySpec := spec, sshUser := none, sshAuth := none, sshKeyPath := none
      sshConfigHost := none }
  let bastion := "01J00000000000000000000000".toList
  let behind := settings "root@target" (some bastion) none
  let beside := settings "root@other" none (some " jump.lan:2222 ".toList)
  [.create bastion (settings "ops@bastion" none none),
    .create "01J00000000000000000000001".toList behind,
    .create "01J00000000000000000000002".toList beside,
    .connect "01J00000000000000000000001".toList ⟨behind, none, none⟩ true,
    .connect "01J00000000000000000000002".toList ⟨beside, none, none⟩ true,
    .acceptTarget 0 "SHA256:target".toList, .acceptJump 0 "SHA256:bastion".toList,
    .acceptTarget 1 "SHA256:other".toList, .acceptJump 1 "SHA256:jump".toList]

theorem pins_after_two_visits :
    ∃ s host, Run next free start s ∧ s.hosts.get "01J00000000000000000000002".toList = some host ∧
      host.sshFingerprint = some "SHA256:other".toList ∧
      host.sshProxyFingerprint = some "SHA256:jump".toList ∧
      (∃ r, route s.hosts host.toRouteHost = some r ∧ (r, "SHA256:other".toList) ∈ s.accepted) ∧
      ∃ spec, planJump host.toRouteHost = .spec spec ∧
        (⟨spec.host, spec.port, .direct⟩, "SHA256:jump".toList) ∈ s.acceptedJumps := by
  have hpins : ((exec next start twoVisits).bind fun s =>
      (s.hosts.get "01J00000000000000000000002".toList).map fun host =>
        (host.sshFingerprint, host.sshProxyFingerprint)) =
      some (some "SHA256:other".toList, some "SHA256:jump".toList) := by
    decide +kernel
  obtain ⟨s, hs, hget⟩ := bind_eq_some_iff.mp hpins
  obtain ⟨host, hhost, heq⟩ := map_eq_some_iff.mp hget
  obtain ⟨hpin, hproxy⟩ := Prod.mk.inj heq
  have hrun : Run next free start s := .of_exec_free twoVisits hs
  obtain ⟨htarget, hjump, -⟩ := pins_belong_to_the_current_route hrun hhost
  exact ⟨s, host, hrun, hhost, hpin, hproxy, htarget _ hpin, hjump _ hproxy⟩

end Lasterm.Hub.HostKeys
