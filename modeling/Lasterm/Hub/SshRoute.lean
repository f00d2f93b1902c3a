import Lasterm.Lib.Cuts

/-!
# The route to an SSH host

An SSH host is reached at the address it names, directly or through a jump.  The jump is declared in
one of two ways: as another host the hub knows, by its id, or as a spec, the form `ssh_config(5)`
gives it.  What a host's *route* says is everything a machine could be mistaken for another by: the
address dialled, and that of the jump it is dialled through.

## Main results

* `planJump_of_plain`, `plain_of_planJump` — on ids without blanks the plan follows the declared id
  exactly.
* `targetRoute_congr` — a route depends on the other hosts through the address of the jump alone.
* `spec_of_routeJump` — a route through a spec comes from a plan that names it.
* `host_of_resolveJump`, `spec_of_resolveJump` — where a connection's jump is dialled.
-/

namespace Lasterm.Hub.SshRoute

/-- A string of the source, as its characters. -/
abbrev Text := List Char

/-- The white space and line ends that `String.prototype.trim` takes off. -/
def isBlank (c : Char) : Bool :=
  (9 ≤ c.toNat && c.toNat ≤ 13) || (0x2000 ≤ c.toNat && c.toNat ≤ 0x200A) ||
    [0x20, 0xA0, 0x1680, 0x2028, 0x2029, 0x202F, 0x205F, 0x3000, 0xFEFF].contains c.toNat

/-- A text without the blanks at its ends. -/
def trim (t : Text) : Text :=
  ((t.dropWhile isBlank).reverse.dropWhile isBlank).reverse

theorem trim_of_plain {t : Text} (h : ∀ c ∈ t, isBlank c = false) : trim t = t := by
  have hdrop : ∀ l : Text, (∀ c ∈ l, isBlank c = false) → l.dropWhile isBlank = l := by
    intro l hl
    cases l with
    | nil => rfl
    | cons c l => rw [List.dropWhile_cons, hl c List.mem_cons_self, if_neg Bool.false_ne_true]
  rw [trim, hdrop t h, hdrop _ fun c hc => h c (List.mem_reverse.mp hc), List.reverse_reverse]

/-! ### Reading a jump -/

/-- What an `sshHost` names: `none` for the user stands for the one this process runs as. -/
structure SshName where
  username : Option Text
  hostname : Text

/-- The source's `parseSshHost`. -/
def parseSshHost (sshHost : Text) : SshName :=
  match breakAt '@' sshHost with
  | some (username, hostname) => ⟨some username, hostname⟩
  | none => ⟨none, sshHost⟩

/-- A jump named as a spec, once read. -/
structure ParsedJumpSpec where
  user : Option Text
  host : Text
  port : Int
  deriving DecidableEq

/-- What a jump is read as. -/
inductive JumpSpecResult
  | spec (spec : ParsedJumpSpec)
  | chain (hops : ℕ)
  | invalid (reason : String)
  deriving DecidableEq

/-- The number a run of decimal digits writes. -/
def digitsValue (digits : Text) : ℕ :=
  digits.foldl (fun n c => 10 * n + (c.toNat - '0'.toNat)) 0

/-- `Number.parseInt(t, 10)`: leading blanks, a sign, and the digits that follow; `none` is `NaN`. -/
def parseInt (t : Text) : Option Int :=
  let number (negative : Bool) (rest : Text) : Option Int :=
    let digits := rest.takeWhile Char.isDigit
    if digits = [] then none
    else some (if negative then -(digitsValue digits : Int) else digitsValue digits)
  match t.dropWhile isBlank with
  | '-' :: rest => number true rest
  | '+' :: rest => number false rest
  | rest => number false rest

/-- The bracketed form, `^\[([^\]]+)\](?::(\d+))?$`: the host, and the digits of the port. -/
def bracketed : Text → Option (Text × Option Text)
  | '[' :: rest =>
    match breakAt ']' rest with
    | some ([], _) => none
    | some (host, []) => some (host, none)
    | some (host, ':' :: digits) =>
      if digits ≠ [] ∧ digits.all Char.isDigit then some (host, some digits) else none
    | some _ => none
    | none => none
  | _ => none

/-- A port as a spec writes it, 22 when it writes none. -/
def portOf : Option Text → Option Int
  | none => some 22
  | some text => (parseInt text).filter fun port => 1 ≤ port ∧ port ≤ 65535

/-- The host and the port of a spec, the user being read already. -/
def hostAndPortOf (user : Option Text) (host : Text) (portText : Option Text) : JumpSpecResult :=
  if host = [] then .invalid "it names no host"
  else
    match portOf portText with
    | some port => .spec ⟨user, host, port⟩
    | none =>
      .invalid ("port " ++ String.ofList (portText.getD "null".toList) ++ " is not a port")

/-- The source's `parseJumpSpec`. -/
def parseJumpSpec (raw : Text) : JumpSpecResult :=
  let trimmed := trim raw
  if trimmed = [] then .invalid "it is empty"
  else if trimmed.map Char.toLower = "none".toList then
    .invalid "`none` means no jump at all"
  else
    let hops := (trimmed.splitOn ',').filter fun hop => trim hop ≠ []
    if 1 < hops.length then .chain hops.length
    else
      let single := hops.head?.getD trimmed
      let cut := cutLast '@' single
      let user := cut.map Prod.fst
      let hostAndPort := (cut.map Prod.snd).getD single
      if user = some [] then .invalid "it names an empty user"
      else
        match bracketed hostAndPort with
        | some (host, port) => hostAndPortOf user host port
        | none =>
          match cutLast ':' hostAndPort with
          | none => hostAndPortOf user hostAndPort none
          | some (host, portText) =>
            -- an IPv6 address without brackets has several colons and no port
            if ':' ∈ host then hostAndPortOf user hostAndPort none
            else hostAndPortOf user host (some portText)

example : parseJumpSpec " ops@bastion.lan:2222, ".toList =
    .spec ⟨some "ops".toList, "bastion.lan".toList, 2222⟩ := by
  decide +kernel

/-! ### The hosts -/

/-- How a host is reached. -/
inductive HostType
  | localHost
  | ssh
  deriving DecidableEq

/-- How a host is logged in to. -/
inductive SshAuthMethod
  | agent
  | key
  | password

/-- What a host's route is read from. -/
structure RouteHost where
  type : HostType
  sshHost : Option Text
  sshPort : Option Int
  sshProxyHostId : Option Text
  sshProxySpec : Option Text

/-- The settings of a host that a connection reads. -/
structure HostSettings extends RouteHost where
  sshUser : Option Text
  sshAuth : Option SshAuthMethod
  sshKeyPath : Option Text
  sshConfigHost : Option Text

/-- A host: its settings, and the keys pinned for it. -/
structure Host extends HostSettings where
  sshFingerprint : Option Text
  sshProxyFingerprint : Option Text

/-- What a host's row says of its jump. -/
inductive JumpPlan
  | direct
  | host (hostId : Text)
  | spec (spec : ParsedJumpSpec)
  /-- Declared, and unusable: the message says why. -/
  | refused (message : String)

/-- The source's `planJump`: a host id wins over a spec. -/
def planJump (declaration : RouteHost) : JumpPlan :=
  let hostId := (declaration.sshProxyHostId.map trim).getD []
  if hostId ≠ [] then .host hostId
  else
    let raw := (declaration.sshProxySpec.map trim).getD []
    if raw = [] then .direct
    else
      match parseJumpSpec raw with
      | .spec spec => .spec spec
      | .chain hops =>
        .refused ("This host is reached through " ++ toString hops ++
          " jumps in a row, which Lasterm does not do yet. " ++
          "Name the last one, or add the chain as hosts of their own.")
      | .invalid reason => .refused ("This host's jump cannot be read: " ++ reason ++ ".")

/-- Where an SSH server listens. -/
structure Address where
  hostname : Text
  port : Int
  deriving DecidableEq

/-- The source's `sshAddress`. -/
def sshAddress : Option RouteHost → Option Address
  | none => none
  | some host =>
    if host.type ≠ .ssh then none
    else
      match host.sshHost with
      | none | some [] => none
      | some sshHost => some ⟨(parseSshHost sshHost).hostname, host.sshPort.getD 22⟩

theorem sshAddress_of_ssh {host : RouteHost} {sshHost : Text} (htype : host.type = .ssh)
    (hname : host.sshHost = some sshHost) (hne : sshHost ≠ []) :
    sshAddress (some host) = some ⟨(parseSshHost sshHost).hostname, host.sshPort.getD 22⟩ := by
  cases sshHost with
  | nil => exact absurd rfl hne
  | cons c rest => simp [sshAddress, htype, hname]

/-- The jump of a route. -/
inductive RouteJump
  | direct
  | host (hostId : Text) (bastion : Option Address)
  | spec (host : Text) (port : Int)
  | refused (raw : Text)
  deriving DecidableEq

/-- A route, whose JSON is the string the source compares. -/
structure Route where
  hostname : Text
  port : Int
  jump : RouteJump
  deriving DecidableEq

/-- The jump of a host's route. -/
def routeJump (host : RouteHost) (lookup : Text → Option Address) : RouteJump :=
  match planJump host with
  | .direct => .direct
  | .host hostId => .host hostId (lookup hostId)
  | .spec spec => .spec spec.host spec.port
  | .refused _ => .refused ((host.sshProxySpec.map trim).getD [])

/-- The source's `targetRoute`. -/
def targetRoute (host : RouteHost) (lookup : Text → Option Address) : Option Route :=
  (sshAddress (some host)).map fun address =>
    ⟨address.hostname, address.port, routeJump host lookup⟩

/-! ### What a plan and a route come from -/

section plans

variable {host : RouteHost} {hostId ref : Text}

theorem planJump_of_plain (hne : ref ≠ []) (hplain : ∀ c ∈ ref, isBlank c = false)
    (h : host.sshProxyHostId = some ref) : planJump host = .host ref := by
  have htrim : (host.sshProxyHostId.map trim).getD [] = ref := by
    rw [h, Option.map_some, Option.getD_some, trim_of_plain hplain]
  rw [planJump, htrim, if_pos hne]

theorem declared_of_planJump (h : planJump host = .host hostId) :
    ∃ ref, host.sshProxyHostId = some ref ∧ trim ref = hostId := by
  unfold planJump at h
  simp only at h
  split at h
  · next hne =>
    cases href : host.sshProxyHostId with
    | none => exact absurd (by rw [href]; rfl) hne
    | some ref =>
      rw [href] at h
      exact ⟨ref, rfl, by simpa using h⟩
  · split at h
    · cases h
    · split at h <;> exact nomatch h

theorem plain_of_planJump
    (hplain : ∀ ref, host.sshProxyHostId = some ref → ∀ c ∈ ref, isBlank c = false)
    (h : planJump host = .host hostId) : host.sshProxyHostId = some hostId := by
  obtain ⟨ref, href, rfl⟩ := declared_of_planJump h
  rw [href, trim_of_plain (hplain ref href)]

variable {lookup : Text → Option Address}

theorem targetRoute_congr {lookup' : Text → Option Address}
    (h : ∀ hostId, planJump host = .host hostId → lookup hostId = lookup' hostId) :
    targetRoute host lookup = targetRoute host lookup' := by
  have hjump : routeJump host lookup = routeJump host lookup' := by
    unfold routeJump
    split
    · rfl
    · next hostId hplan => rw [h hostId hplan]
    · rfl
    · rfl
  rw [targetRoute, targetRoute, hjump]

theorem routeJump_of_targetRoute {route : Route}
    (h : targetRoute host lookup = some route) : route.jump = routeJump host lookup := by
  obtain ⟨address, -, rfl⟩ := Option.map_eq_some_iff.mp h
  rfl

theorem routeJump_of_spec {spec : ParsedJumpSpec}
    (h : planJump host = .spec spec) : routeJump host lookup = .spec spec.host spec.port := by
  rw [routeJump, h]

theorem spec_of_routeJump {name : Text} {port : Int} (h : routeJump host lookup = .spec name port) :
    ∃ spec, planJump host = .spec spec ∧ spec.host = name ∧ spec.port = port := by
  unfold routeJump at h
  cases hplan : planJump host with
  | direct | host | refused => simp [hplan] at h
  | spec spec =>
    simp only [hplan, RouteJump.spec.injEq] at h
    exact ⟨spec, rfl, h⟩

end plans

/-! ### The jump of a connection -/

/-- Where a jump's key is pinned once a connection through it has worked. -/
inductive PinTo
  | host (hostId : Text) (expectedRoute : Option Route)
  | spec (hostId : Text)

/-- How a jump is authenticated. -/
structure JumpAuth where
  method : SshAuthMethod
  keyPath : Option Text
  sshConfigHost : Option Text

/-- Where a jump is dialled; `none` for the user stands for the one this process runs as. -/
structure JumpDial where
  host : Text
  port : Int
  username : Option Text

/-- A jump turned into what it takes to travel through it. -/
structure ResolvedJump where
  jump : JumpDial
  knownHostsNames : List Text
  auth : JumpAuth
  promptHostId : Text
  pinnedFingerprint : Option Text
  trustKnownHosts : Bool
  pinTo : PinTo

/-- What comes of a jump. -/
inductive JumpResolution
  | direct
  | jump (jump : ResolvedJump)
  | refused (message : String)

/-- What resolving a jump reads from this hub's hosts. -/
structure JumpHosts where
  getHost : Text → Option Host
  getHostFingerprint : Text → Option Route → Option Text

/-- A host as it is dialled directly. -/
def RouteHost.withoutJump (host : RouteHost) : RouteHost :=
  { host with sshProxyHostId := none, sshProxySpec := none }

/-- A text that is there and not empty, as `||` and `filter` take it. -/
def nonEmpty (t : Option Text) : Option Text :=
  t.filter (· ≠ [])

/-- The source's `resolveJump`. -/
def resolveJump (id : Text) (host : Host) (hosts : JumpHosts) (trustKnownHosts : Bool) :
    JumpResolution :=
  match planJump host.toRouteHost with
  | .direct => .direct
  | .refused message => .refused message
  | .host hostId =>
    match hosts.getHost hostId with
    | none => unusable
    | some jumpHost =>
      match jumpHost.type, nonEmpty jumpHost.sshHost with
      | .ssh, some sshHost =>
        let jumpParsed := parseSshHost sshHost
        -- the bastion is dialled directly, whatever jump its own row declares
        let expectedRoute := targetRoute jumpHost.withoutJump fun _ => none
        .jump
          { jump :=
              { host := jumpParsed.hostname
                port := jumpHost.sshPort.getD 22
                username := (nonEmpty jumpHost.sshUser).or jumpParsed.username }
            knownHostsNames :=
              [some jumpParsed.hostname, jumpHost.sshConfigHost].filterMap nonEmpty
            auth :=
              { method := jumpHost.sshAuth.getD .agent
                keyPath := jumpHost.sshKeyPath
                sshConfigHost := nonEmpty jumpHost.sshConfigHost }
            promptHostId := hostId
            pinnedFingerprint := hosts.getHostFingerprint hostId expectedRoute
            trustKnownHosts
            pinTo := .host hostId expectedRoute }
      | _, _ => unusable
  | .spec spec =>
    .jump
      { jump :=
          { host := spec.host
            port := spec.port
            username :=
              (spec.user.or host.sshUser).or (parseSshHost (host.sshHost.getD [])).username }
        knownHostsNames := [spec.host]
        auth := { method := .agent, keyPath := none, sshConfigHost := none }
        promptHostId := id
        pinnedFingerprint := host.sshProxyFingerprint
        trustKnownHosts
        pinTo := .spec id }
where
  unusable : JumpResolution :=
    .refused ("The host this one is reached through is no longer an SSH host here. " ++
      "Point it at another, or give its address instead.")

/-- The route of a jump that is dialled directly. -/
def ResolvedJump.dialled (jump : ResolvedJump) : Route :=
  ⟨jump.jump.host, jump.jump.port, .direct⟩

/-- A jump through a host the hub knows is dialled where that host's row says, and pinned under the
route it is dialled by. -/
theorem host_of_resolveJump {id : Text} {host : Host} {hosts : JumpHosts} {trustKnownHosts : Bool}
    {jump : ResolvedJump} {hostId : Text} {expectedRoute : Option Route}
    (h : resolveJump id host hosts trustKnownHosts = .jump jump)
    (hpin : jump.pinTo = .host hostId expectedRoute) :
    planJump host.toRouteHost = .host hostId ∧ expectedRoute = some jump.dialled ∧
      ∃ jumpHost, hosts.getHost hostId = some jumpHost ∧
        sshAddress (some jumpHost.toRouteHost) = some ⟨jump.jump.host, jump.jump.port⟩ := by
  unfold resolveJump at h
  split at h
  · cases h
  · cases h
  · next planned hplan =>
    split at h
    · cases h
    · next jumpHost hget =>
      split at h
      · next sshHost htype hname =>
        obtain rfl := JumpResolution.jump.inj h
        obtain ⟨rfl, rfl⟩ := PinTo.host.inj hpin
        obtain ⟨hsome, hne⟩ := Option.filter_eq_some_iff.mp hname
        have hnonempty : sshHost ≠ [] := by simpa using hne
        have haddress : sshAddress (some jumpHost.withoutJump) =
            some ⟨(parseSshHost sshHost).hostname, jumpHost.sshPort.getD 22⟩ :=
          sshAddress_of_ssh htype hsome hnonempty
        refine ⟨hplan, ?_, jumpHost, hget, sshAddress_of_ssh htype hsome hnonempty⟩
        rw [targetRoute, haddress]
        rfl
      · cases h
  · obtain rfl := JumpResolution.jump.inj h
    cases hpin

theorem spec_of_resolveJump {id : Text} {host : Host} {hosts : JumpHosts} {trustKnownHosts : Bool}
    {jump : ResolvedJump} {hostId : Text}
    (h : resolveJump id host hosts trustKnownHosts = .jump jump) (hpin : jump.pinTo = .spec hostId) :
    ∃ spec, planJump host.toRouteHost = .spec spec ∧
      spec.host = jump.jump.host ∧ spec.port = jump.jump.port := by
  unfold resolveJump at h
  split at h
  · cases h
  · cases h
  · split at h
    · cases h
    · split at h
      · obtain rfl := JumpResolution.jump.inj h
        cases hpin
      · cases h
  · next spec hplan =>
    obtain rfl := JumpResolution.jump.inj h
    exact ⟨spec, hplan, rfl, rfl⟩

end Lasterm.Hub.SshRoute
