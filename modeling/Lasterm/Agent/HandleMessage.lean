import Lasterm.Agent.Daemon
import Lasterm.Files.ExpandVars
import Mathlib.Algebra.CharZero.Defs
import Mathlib.Algebra.Ring.Nat

/-!
# What a message can panic on

`handle_message` gets whatever a hub sends.  Before anything else it writes a summary of the message
for its log, with the channel's id cut to its first eight bytes; a SPAWN expands the variables of
its arguments, and cuts strings for it; and a DESTROY expects the channel it signalled to be
registered.  Each of these is `none` where the source panics.  What follows an await is
`State.resume`, which is total.

## Main results

* `handleMessage_isSome_iff` — a message is survived just if its channel's id can be cut.
-/

namespace Lasterm.Agent

open Files List Option

/-- A message of the hub, as decoded. -/
inductive HubToAgent
  | heartbeat (ts : String)
  | spawn (requestId : String) (channelId : Option String) (args : List String)
      (cwd : Option String) (env : Option (List (String × String))) (cols rows : ℕ)
  | envQuery (requestId : String) (mode : Option String)
  | input (channelId : String) (data : List UInt8)
  | resize (channelId : String) (cols rows : ℕ)
  | destroy (channelId : String)
  | snapshotReq (channelId : String)
  | attach (channelId : String) (requestId : Option String)
  | cwdQuery (channelId : String)
  | auth
  | stop (force : Bool)
  | error (code message : String) (channelId : Option String)

/-- The id a message's summary shows the first bytes of. -/
def HubToAgent.summarized : HubToAgent → Option String
  | .input id _ | .resize id _ _ | .destroy id | .snapshotReq id | .attach id _ | .cwdQuery id =>
    some id
  | _ => none

/-- `&text[..8.min(text.len())]`. -/
def firstBytes (text : List UInt8) : Option (List UInt8) :=
  let stop := min 8 text.length
  if isCharBoundary (text.drop stop) then some (text.take stop) else none

/-- The source's `summary`, as far as it cuts the id. -/
def HubToAgent.summary (msg : HubToAgent) : Option (Option (List UInt8)) :=
  match msg.summarized with
  | none => some none
  | some id => (firstBytes (utf8.text id.toList)).map some

/-- What the rest of the world has to do with a message.  The variables of an environment, and of
the process where it has none, are texts: that `std::env::vars` panics over one of the process that
is no Unicode is left out. -/
structure World where
  teardown : Teardown
  generated : String
  started : Except IoError Unit
  /-- The code and the message a SPAWN's elevation is refused with. -/
  elevation : Option (String × String)
  values : Option (List (String × String)) → List Char → Option (List Char)
  lookup : Option (List (String × String)) → List UInt8 → Option (List UInt8)
  lookup_text : ∀ env name, lookup env (utf8.text name) = (values env name).map utf8.text

/-- A hub as the agent knows it: by hexadecimal digits, or as `stdio`. -/
structure Caller where
  owner : OwnerId
  ascii : ∀ c ∈ owner.hash.toList, c.utf8Size = 1

/-- Everything a SPAWN expands: its arguments, its directory, and the values of its variables. -/
def World.expands (w : World) (args : List String) (cwd : Option String)
    (env : Option (List (String × String))) : List (Option (List UInt8)) :=
  args.map (fun a => expandVars (w.lookup env) (utf8.text a.toList)) ++
    cwd.toList.map (fun d => expandVars (w.lookup env) (utf8.text d.toList)) ++
    (env.getD []).map fun e => expandVars (w.lookup none) (utf8.text e.2.toList)

/-- DESTROY, with its two `expect`s that the channel is registered. -/
def State.destroyOwned (s : State) (owner : OwnerId) (id : String) (teardown : Teardown) :
    Option State :=
  if (s.manager.ownedBy id owner).isSome then
    (s.manager.channels.get id).map fun _ => s.destroy owner id teardown
  else some s

/-- The source's `handle_message`, on the connection `c`, up to its first await. -/
def handleMessage (w : World) (s : State) (c : ℕ) (hub : Caller) (msg : HubToAgent) :
    Option State :=
  msg.summary.bind fun _ =>
  -- `owner.short()`, for the log
  (firstBytes (utf8.text hub.owner.hash.toList)).bind fun _ =>
  match msg with
  | .heartbeat ts => some (s.plain c (.heartbeatAck ts))
  | .spawn requestId channelId args cwd env cols rows =>
    if (w.expands args cwd env).all isSome then
      match w.elevation with
      | some (code, message) => some (s.send c (AgentToHub.spawnErr requestId code message).reply)
      | none => some (s.spawn c hub.owner requestId channelId w.generated cols rows w.started)
    else none
  | .envQuery requestId _ => some (s.plain c (.env requestId))
  | .input id data => some (s.input c hub.owner id data)
  | .resize id cols rows => some (s.resize c hub.owner id cols rows)
  | .destroy id => s.destroyOwned hub.owner id w.teardown
  | .snapshotReq id => some (s.ask c hub.owner .snapshotReq id)
  | .attach id requestId => some (s.ask c hub.owner (.attach requestId) id)
  | .cwdQuery id => some (s.ask c hub.owner .cwdQuery id)
  | .auth => some s
  -- a daemon answers STOP before it gets here
  | .stop _ => some (s.plain c (.error "INVALID_MESSAGE" ("STOP applies to an agent daemon; " ++
      "this agent runs on stdio and ends when its input closes") none))
  | .error code message channelId =>
    if code = "INVALID_MESSAGE" then some (s.plain c (.error code message channelId)) else some s

/-! ### Cutting a text -/

theorem isCharBoundary_drop (s : List Char) {n : ℕ} (hn : n ≤ (utf8.text s).length) :
    isCharBoundary ((utf8.text s).drop n) = true ↔ ∃ t, t <+: s ∧ (utf8.text t).length = n := by
  induction s generalizing n with
  | nil =>
    obtain rfl : n = 0 := Nat.le_zero.mp hn
    exact iff_of_true rfl ⟨[], nil_prefix, rfl⟩
  | cons c s ih =>
    obtain ⟨b, bs, henc, -, -, htail, -⟩ := utf8_shape c
    have htext := utf8.text_cons c s
    rw [henc] at htext
    have hcons : ∀ t, t ≠ [] → t <+: c :: s → ∃ t', t = c :: t' ∧ t' <+: s ∧
        (utf8.text t).length = (utf8.text t').length + bs.length + 1 := by
      rintro (_ | ⟨d, t'⟩) hne ht
      · exact absurd rfl hne
      obtain ⟨rfl, hrest⟩ := cons_prefix_cons.mp ht
      refine ⟨t', rfl, hrest, ?_⟩
      rw [utf8.text_cons, henc, length_append, length_cons]
      omega
    cases n with
    | zero => exact iff_of_true (isCharBoundary_text _) ⟨[], nil_prefix, rfl⟩
    | succ m =>
      rw [htext, cons_append, drop_succ_cons, drop_append]
      by_cases hm : m < bs.length
      · -- inside of the first character
        refine iff_of_false ?_ ?_
        · rw [drop_eq_getElem_cons hm, cons_append, isCharBoundary]
          obtain ⟨hlow, hhigh⟩ := htail _ (getElem_mem hm)
          simpa using ⟨hlow, hhigh⟩
        · rintro ⟨t, ht, hlen⟩
          obtain ⟨t', -, -, hlen'⟩ := hcons t (by rintro rfl; cases hlen) ht
          omega
      · rw [drop_eq_nil_of_le (Nat.le_of_not_lt hm), nil_append, ih]
        · constructor
          · rintro ⟨t, ht, hlen⟩
            obtain ⟨t', -, -, hlen'⟩ := hcons (c :: t) (by simp) (cons_prefix_cons.mpr ⟨rfl, ht⟩)
            refine ⟨c :: t, cons_prefix_cons.mpr ⟨rfl, ht⟩, ?_⟩
            rw [utf8.text_cons, henc, length_append, length_cons]
            omega
          · rintro ⟨t, ht, hlen⟩
            obtain ⟨t', -, ht', hlen'⟩ := hcons t (by rintro rfl; cases hlen) ht
            exact ⟨t', ht', by omega⟩
        · rw [htext, length_append, length_cons] at hn
          omega

/-- Whether the first eight bytes of an id end where a character does. -/
def CutsBetween (id : String) : Prop :=
  ∃ t, t <+: id.toList ∧ (utf8.text t).length = min 8 (utf8.text id.toList).length

theorem firstBytes_isSome (s : List Char) : (firstBytes (utf8.text s)).isSome ↔
    ∃ t, t <+: s ∧ (utf8.text t).length = min 8 (utf8.text s).length := by
  rw [← isCharBoundary_drop s (Nat.min_le_right _ _), firstBytes]
  split
  · next h => exact iff_of_true rfl h
  · next h => exact iff_of_false nofun h

theorem Caller.short (hub : Caller) : (firstBytes (utf8.text hub.owner.hash.toList)).isSome := by
  refine (firstBytes_isSome _).mpr ⟨_, take_prefix 8 _, ?_⟩
  have hlen : ∀ l : List Char, (∀ c ∈ l, c.utf8Size = 1) → (utf8.text l).length = l.length := by
    intro l
    induction l with
    | nil => exact fun _ => rfl
    | cons c l ih =>
      intro h
      rw [utf8.text_cons, length_append, ih fun c hc => h c (mem_cons_of_mem _ hc), length_cons]
      have hone := String.length_utf8EncodeChar c
      rw [h c mem_cons_self] at hone
      exact (congrArg (· + l.length) hone).trans (Nat.add_comm ..)
  rw [hlen _ hub.ascii, hlen _ fun c hc => hub.ascii c (mem_of_mem_take hc), length_take]

theorem World.expands_isSome (w : World) (args : List String) (cwd : Option String)
    (env : Option (List (String × String))) :
    (w.expands args cwd env).all isSome = true := by
  have hsome : ∀ env (t : String), (expandVars (w.lookup env) (utf8.text t.toList)).isSome := by
    intro env t
    rw [expandVars_text (w.lookup_text env)]
    rfl
  simp [expands, hsome]

/-- **A message is survived** just if it names no channel, or the first eight bytes of the channel's
id end where a character does. -/
theorem handleMessage_isSome_iff (w : World) (s : State) (c : ℕ) (hub : Caller) (msg : HubToAgent) :
    (handleMessage w s c hub msg).isSome ↔ ∀ id, msg.summarized = some id → CutsBetween id := by
  have hsummary : msg.summary.isSome ↔ ∀ id, msg.summarized = some id → CutsBetween id := by
    unfold HubToAgent.summary
    cases msg.summarized with
    | none => exact iff_of_true rfl nofun
    | some id =>
      rw [isSome_map, firstBytes_isSome]
      exact ⟨fun h _ heq => some.inj heq ▸ h, fun h => h id rfl⟩
  obtain ⟨short, hshort⟩ := isSome_iff_exists.mp hub.short
  unfold handleMessage
  rw [← hsummary, hshort]
  cases msg.summary with
  | none => exact iff_of_false nofun nofun
  | some shown =>
    refine iff_of_true ?_ rfl
    rw [bind_some, bind_some]
    cases msg with
    | spawn requestId channelId args cwd env cols rows =>
      dsimp only
      rw [if_pos (w.expands_isSome args cwd env)]
      split <;> rfl
    | destroy id =>
      -- a channel that the hub owns is registered
      unfold State.destroyOwned PtyManager.ownedBy
      dsimp only
      cases s.manager.channels.get id with
      | none => rfl
      | some channel => split <;> rfl
    | error code message channelId =>
      dsimp only
      split <;> rfl
    | _ => rfl

/-- The euro sign has three bytes, and the third one here reaches behind the eighth. -/
theorem three_euros_panic :
    handleMessage ⟨.signalled, "id", .ok (), none, fun _ _ => none, fun _ _ => none, fun _ _ => rfl⟩
      init 0 ⟨⟨"stdio"⟩, by simp [Char.utf8Size]⟩ (.destroy "€€€") = none := by
  have hcut : (HubToAgent.destroy "€€€").summary = none := by decide +kernel
  unfold handleMessage
  rw [hcut]
  rfl

end Lasterm.Agent
