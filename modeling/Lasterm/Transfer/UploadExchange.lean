import Lasterm.Web.UploadSend
import Mathlib.Algebra.GroupWithZero.Nat

/-!
# A window's upload loop and the hub

The window's loop (`sendFileBytes`) sends a file's chunks to the hub's `receive`, over a network
that may lose any request and any answer, and delay them: a request that the window gave up as
unreachable may still arrive, after others, and an answer may come when nobody waits for it.
Every request carries a slice of the file at its offset, and the hub takes it only when its
offset is where the host's bytes end and no other chunk is being written.

`receive` awaits twice: the file's `opening`, and the write.  Other requests arrive meanwhile, and
the file may stop being sent.  A file that is taken up again later has a sink of its own, and is
taken to be sent by a loop of its own: that the window's `inFlight` lets the loop before it go on
is left out.

## Main definitions

* `Exchange` — both ends and the network between them.

## Main results

* `Sound.step` — one step keeps the two ends in agreement.
* `exchange_exact` — what the sink is given, and what the loop comes to, in every run.
-/

namespace Lasterm.Transfer.Sending

open Lasterm.Web.UploadSend List Option
open Transition

/-! ### The hub's answers -/

/-- The word for a state. -/
def stateWord : ItemState → String
  | .queued => "queued"
  | .sending => "sending"
  | .verifying => "verifying"
  | .placed => "placed"
  | .failed => "failed"
  | .skipped => "skipped"
  | .conflict => "conflict"
  | .cancelled => "cancelled"
  | .interrupted => "interrupted"

/-- There is no such upload. -/
def transferNotFound : ChunkAnswer :=
  .refused 404 "TRANSFER_NOT_FOUND" "No upload has that id" none none

/-- There is no such file. -/
def itemNotFound : ChunkAnswer :=
  .refused 404 "ITEM_NOT_FOUND" "No file of this upload has that id" none none

/-- Another window sends the upload. -/
def notTheSender : ChunkAnswer :=
  .refused 403 "NOT_THE_SENDER" "Only the window that started this upload sends its bytes" none none

/-- The file is not being sent. -/
def itemNotSending (state : ItemState) : ChunkAnswer :=
  .refused 409 "ITEM_NOT_SENDING" ("This file is " ++ stateWord state) none (some state)

/-- Another chunk is being written. -/
def itemBusy : ChunkAnswer :=
  .refused 409 "ITEM_BUSY" "A chunk of this file is being written" none none

/-- The chunk begins elsewhere than the host's bytes end. -/
def offsetMismatch (acked : ℕ) : ChunkAnswer :=
  .refused 409 "OFFSET_MISMATCH"
    ("The host holds " ++ toString acked ++ " bytes of it: send from there") (some acked) none

/-- The chunk does not fit the file. -/
def pastEnd : ChunkAnswer :=
  .refused 400 "PAST_END" "The chunk is empty or goes past the file's size" none none

/-- What `putChunk` makes of an answer whose body does not come through. -/
def unread : ChunkAnswer → ChunkAnswer
  | .ok _ => .refused 200 "BAD_ANSWER" "The hub's answer had no acked" none none
  | .refused status _ _ _ _ =>
    .refused status ("HTTP_" ++ toString status) ("The hub answered " ++ toString status) none none

/-! ### The two ends -/

/-- A chunk on its way, numbered by the loop. -/
structure Request where
  id : ℕ
  offset : ℕ
  data : List UInt8

/-- What `receive` awaits. -/
inductive Phase
  | opening
  | writing
  deriving DecidableEq

/-- What `receive` finds before it comes to the file. -/
inductive Found
  | noUpload
  | noItem
  | otherWindow
  | item

/-- The file at the hub. -/
structure HubFile where
  state : ItemState
  opening : Bool
  sink : Bool
  writing : Bool
  acked : ℕ
  size : ℕ

/-- What the loop's moves are compared with. -/
inductive Event
  /-- The loop's offset was moved, by an answer that took nothing of the chunk. -/
  | moved
  | acknowledged
  deriving DecidableEq

/-- Both ends, and what is between them. -/
structure Exchange where
  turn : Turn
  id : ℕ
  flying : List Request
  calls : List (Phase × Request)
  answers : List (ℕ × ChunkAnswer)
  hub : HubFile
  /-- The bytes of the file that the host had when the sink was opened. -/
  base : ℕ
  /-- What the sink was given since, each with its offset. -/
  given : List (ℕ × List UInt8)
  /-- The bytes of the file that the host acknowledged. -/
  host : ℕ
  /-- What came to pass while the loop ran, the last first. -/
  log : List Event

namespace Exchange

variable (o : SendOptions) (s : Exchange)

/-! ### `receive` -/

/-- A request is answered. -/
def reply (r : Request) (a : ChunkAnswer) : Exchange :=
  { s with answers := s.answers ++ [(r.id, a)] }

/-- Up to its first await. -/
def receive (r : Request) : Found → Exchange
  | .noUpload => s.reply r transferNotFound
  | .noItem => s.reply r itemNotFound
  | .otherWindow => s.reply r notTheSender
  | .item =>
    if s.hub.state = .sending then { s with calls := s.calls ++ [(.opening, r)] }
    else s.reply r (itemNotSending s.hub.state)

/-- The file is open: to the second await. -/
def goOn (r : Request) : Exchange :=
  if s.hub.state ≠ .sending ∨ s.hub.sink = false then s.reply r (itemNotSending s.hub.state)
  else if s.hub.writing then s.reply r itemBusy
  else if r.offset ≠ s.hub.acked then s.reply r (offsetMismatch s.hub.acked)
  else if r.data = [] ∨ s.hub.size < r.offset + r.data.length then s.reply r pastEnd
  else
    { s with
      hub := { s.hub with writing := true }
      calls := s.calls ++ [(.writing, r)]
      given := s.given ++ [(r.offset, r.data)] }

/-- `finishFile`, to its first await: the open write is closed, and the file verified. -/
def finishFile (h : HubFile) : HubFile :=
  if h.sink = true ∧ h.state = .sending then { h with sink := false, state := .verifying } else h

/-- `fileFailed`, of the file itself. -/
def fileFailed (h : HubFile) (interruption : Bool) : HubFile :=
  if interruption then { h with sink := false, state := .interrupted }
  else { h with sink := false, state := .failed, acked := 0 }

/-- An event, if the loop is still there. -/
def note (e : Event) : Exchange :=
  match s.turn with
  | .finished _ => s
  | _ => { s with log := e :: s.log }

/-- The host acknowledged the chunk. -/
def written (r : Request) : Exchange :=
  let s := { s.note .acknowledged with
    hub := { s.hub with writing := false }
    host := s.host + r.data.length }
  if s.hub.state ≠ .sending then s.reply r (itemNotSending s.hub.state)
  else
    let grown := { s.hub with acked := s.hub.acked + r.data.length }
    { s with hub := if grown.acked = grown.size then finishFile grown else grown }.reply r
      (.ok grown.acked)

/-- The write failed. -/
def writeFailed (r : Request) (interruption : Bool) (code message : String) : Exchange :=
  let hub := if s.hub.state = .sending then fileFailed s.hub interruption else s.hub
  { s with hub := { hub with writing := false } }.reply r
    (.refused (if interruption then 409 else 502) code message none none)

/-- What `admit` awaits: the temporary is opened, and the bytes it has are kept or begun again. -/
def opened (kept : Bool) : Exchange :=
  let hub := { s.hub with opening := false }
  if s.hub.state = .sending then
    let acked := if kept then s.hub.acked else 0
    let hub := { hub with acked := acked, sink := true }
    { s with
      hub := if acked = hub.size then finishFile hub else hub
      base := acked
      host := acked }
  else { s with hub := hub }

/-- The open that requests wait for fails. -/
def openFailed (interruption : Bool) : Exchange :=
  let hub := { s.hub with opening := false }
  { s with hub := if s.hub.state = .sending then fileFailed hub interruption else hub }

/-! ### The window -/

/-- The loop's next turn: a chunk is sent, with the next number. -/
def takeTurn (t : Turn) : Exchange :=
  match t with
  | .put l => { s with
      turn := t
      id := s.id + 1
      flying := s.flying ++ [⟨s.id + 1, l.offset, o.chunk l.offset⟩] }
  | _ => { s with turn := t }

/-- The answer to the request that the loop awaits. -/
def answer : Option ChunkAnswer := (s.answers.find? fun a => a.1 = s.id).map Prod.snd

end Exchange

/-- The answer moves the loop's offset, or takes it no further. -/
def movedBy (l : Loop) : Put → Bool
  | .answered (.ok acked) => acked ≤ l.offset
  | .answered (.refused _ code _ acked _) => code = "OFFSET_MISMATCH" && acked.isSome
  | .threw _ _ => false

namespace Exchange

variable (o : SendOptions) (s : Exchange)

/-- The loop goes on with what its request came to. -/
def heard (l : Loop) (p : Put) (stopped : Bool) : Exchange :=
  (if movedBy l p then s.note .moved else s).takeTurn o (o.take stopped l p)

end Exchange

/-! ### Runs -/

/-- What can happen next.  A request or an answer that is lost is one that never comes: the window
then finds the hub unreachable, at any time. -/
inductive Step
  | arrives (i : ℕ) (found : Found)
  /-- It is refused before it comes to `receive`: the route, the server, a proxy. -/
  | barred (i : ℕ) (status : ℕ) (code message : String)
  | opened (kept : Bool)
  | openFailed (interruption : Bool)
  | goesOn (i : ℕ)
  | written (i : ℕ)
  | writeFailed (i : ℕ) (interruption : Bool) (code message : String)
  /-- The file is cancelled, interrupted or failed; its bytes may be forgotten with that. -/
  | stops (state : ItemState) (forgotten : Bool)
  /-- The loop hears its answer, whose body may not have come through. -/
  | hears (intact stopped : Bool)
  | throws (name message : String) (stopped : Bool)
  | wakes (stopped : Bool)

/-- The codes that only `receive`'s offset check and the loop itself use. -/
def foreign (code : String) : Bool := code != "OFFSET_MISMATCH" && code != "NO_PROGRESS"

open Exchange in
/-- One step. -/
def next (o : SendOptions) (s : Exchange) : Step → Option Exchange
  | .arrives i found =>
    (s.flying[i]?).map fun r => { s with flying := s.flying.eraseIdx i }.receive r found
  | .barred i status code message =>
    if foreign code then
      (s.flying[i]?).map fun r =>
        { s with flying := s.flying.eraseIdx i }.reply r (.refused status code message none none)
    else none
  | .opened kept => if s.hub.opening then some (s.opened kept) else none
  | .openFailed interruption => if s.hub.opening then some (s.openFailed interruption) else none
  | .goesOn i =>
    match s.calls[i]? with
    | some (.opening, r) =>
      if s.hub.opening then none else some ({ s with calls := s.calls.eraseIdx i }.goOn r)
    | _ => none
  | .written i =>
    match s.calls[i]? with
    | some (.writing, r) => some ({ s with calls := s.calls.eraseIdx i }.written r)
    | _ => none
  | .writeFailed i interruption code message =>
    match s.calls[i]? with
    | some (.writing, r) =>
      if foreign code then
        some ({ s with calls := s.calls.eraseIdx i }.writeFailed r interruption code message)
      else none
    | _ => none
  | .stops state forgotten =>
    if state = .sending then none
    else some { s with hub := { s.hub with
      state := state, sink := false, acked := if forgotten then 0 else s.hub.acked } }
  | .hears intact stopped =>
    match s.turn, s.answer with
    | .put l, some a => some (s.heard o l (.answered (if intact then a else unread a)) stopped)
    | _, _ => none
  | .throws name message stopped =>
    match s.turn with
    | .put l => some (s.heard o l (.threw name message) stopped)
    | _ => none
  | .wakes stopped =>
    match s.turn with
    | .backoff l => some (s.takeTurn o (o.again stopped l))
    | _ => none

/-- A slice of the file, at its offset. -/
def Request.Slice (o : SendOptions) (r : Request) : Prop :=
  ∃ k, r.data = (o.file.drop r.offset).take k

/-- The hub has put the file in `sending` and opens it; the window's loop begins.  Requests of an
earlier loop may still be on their way. -/
def start (o : SendOptions) (stopped : Bool) (acked : ℕ) (earlier : List Request) : Exchange :=
  Exchange.takeTurn o
    { turn := .finished (.stopped none), id := earlier.foldr (fun r n => max r.id n) 0,
      flying := earlier, calls := [], answers := [],
      hub := ⟨.sending, true, false, false, acked, o.size⟩,
      base := 0, given := [], host := 0, log := [] }
    (o.begin stopped)

/-! ### What the two ends agree on -/

namespace Exchange

variable (s : Exchange)

/-- The bytes the sink was given, in order, each with its place in the file. -/
def bytes : List (UInt8 × ℕ) := s.given.flatMap fun w => w.2.zipIdx w.1

/-- How many they are. -/
def total : ℕ := (s.given.map fun w => w.2.length).sum

/-- The chunks being written. -/
def writers : List Request :=
  s.calls.filterMap fun c => if c.1 = .writing then some c.2 else none

end Exchange

/-- What an answer says of the file is so: the host has at least the bytes it names. -/
def Fair (host : ℕ) : ChunkAnswer → Prop
  | .ok acked => acked ≤ host
  | .refused _ code _ acked _ =>
    (∀ n, acked = some n → n ≤ host) ∧ (foreign code = false → code = "OFFSET_MISMATCH" ∧ acked.isSome = true)

/-- What holds of the hub's end and of what is between the two. -/
structure Agree (o : SendOptions) (s : Exchange) : Prop where
  size : s.hub.size = o.size
  flying : ∀ r ∈ s.flying, r.Slice o
  calls : ∀ c ∈ s.calls, c.2.Slice o
  answers : ∀ a ∈ s.answers, Fair s.host a.2
  laid : s.bytes = (o.file.zipIdx.drop s.base).take s.total
  within : s.base + s.total ≤ o.size
  host : s.host ≤ s.base + s.total
  acked : s.hub.state = .sending → s.hub.opening = false → s.hub.acked = s.host
  settled : s.hub.state = .sending → s.hub.opening = false → s.hub.writing = false →
    s.base + s.total = s.host
  writer : s.hub.writing = true → ∃ r, s.writers = [r] ∧ s.host + r.data.length = s.base + s.total
  idle : s.hub.writing = false → s.writers = []
  /-- Until it is open the sink was given nothing. -/
  unopened : s.hub.opening = true →
    s.hub.writing = false ∧ s.given = [] ∧ s.host = 0 ∧ s.hub.acked ≤ o.size

variable {n : ℕ} {a : ChunkAnswer}

theorem Fair.mono {m : ℕ} (h : Fair m a) (hle : m ≤ n) : Fair n a := by
  cases a with
  | ok acked => exact Nat.le_trans h hle
  | refused status code message acked state =>
    exact ⟨fun k hk => Nat.le_trans (h.1 k hk) hle, h.2⟩

variable {code : String}

theorem Fair.silent {status : ℕ} {message : String} {state : Option ItemState}
    (h : foreign code = true) : Fair n (.refused status code message none state) :=
  ⟨nofun, fun hf => by rw [h] at hf; exact absurd hf (by decide)⟩

namespace Agree

variable {o : SendOptions} {s : Exchange} {r : Request}

theorem reply (h : Agree o s) (ha : Fair s.host a) : Agree o (s.reply r a) := by
  refine { h with answers := ?_ }
  intro b hb
  obtain hb | hb := mem_append.mp hb
  · exact h.answers b hb
  · obtain rfl := mem_singleton.mp hb
    exact ha

theorem arrive (h : Agree o s) (i : ℕ) : Agree o { s with flying := s.flying.eraseIdx i } :=
  { h with flying := fun r hr => h.flying r (mem_of_mem_eraseIdx hr) }

theorem send (h : Agree o s) (hr : r.Slice o) :
    Agree o { s with flying := s.flying ++ [r] } := by
  refine { h with flying := ?_ }
  intro r' hr'
  obtain hr' | hr' := mem_append.mp hr'
  · exact h.flying r' hr'
  · obtain rfl := mem_singleton.mp hr'
    exact hr

theorem receive (h : Agree o s) (hr : r.Slice o) (found : Found) :
    Agree o (s.receive r found) := by
  cases found with
  | noUpload | noItem | otherWindow => exact h.reply (.silent (by decide))
  | item =>
    unfold Exchange.receive
    dsimp only
    split
    · have hw : ({ s with calls := s.calls ++ [(.opening, r)] } : Exchange).writers = s.writers := by
        simp [Exchange.writers, filterMap_append]
      refine { h with calls := ?_, writer := ?_, idle := ?_ }
      · intro c hc
        obtain hc | hc := mem_append.mp hc
        · exact h.calls c hc
        · obtain rfl := mem_singleton.mp hc
          exact hr
      · rw [hw]
        exact h.writer
      · rw [hw]
        exact h.idle
    · exact h.reply (.silent (by decide))

theorem zipIdx_slice {l : List UInt8} (i k : ℕ) :
    ((l.drop i).take k).zipIdx i = (l.zipIdx.drop i).take k := by
  refine ext_getElem? fun j => ?_
  simp only [getElem?_zipIdx, getElem?_take, getElem?_drop]
  split <;> simp

theorem laid_append (h : Agree o s) (hr : r.Slice o) (hoff : r.offset = s.base + s.total) :
    s.bytes ++ r.data.zipIdx r.offset =
      (o.file.zipIdx.drop s.base).take (s.total + r.data.length) := by
  have hdata : r.data = (o.file.drop r.offset).take r.data.length := by
    obtain ⟨k, hk⟩ := hr
    have hl := congrArg length hk
    rw [length_take] at hl
    rw [hl, ← take_take, take_length, ← hk]
  rw [take_add, ← h.laid, drop_drop, ← hoff]
  congr 1
  conv_lhs => rw [hdata]
  exact zipIdx_slice r.offset r.data.length

variable {i : ℕ}

theorem writers_erase {c : Phase × Request} (hc : s.calls[i]? = some c) :
    ∃ xs ys, s.writers = xs ++ (if c.1 = .writing then [c.2] else []) ++ ys ∧
      ({ s with calls := s.calls.eraseIdx i } : Exchange).writers = xs ++ ys := by
  obtain ⟨hi, hget⟩ := List.getElem?_eq_some_iff.mp hc
  let f : Phase × Request → Option Request := fun c => if c.1 = .writing then some c.2 else none
  refine ⟨(s.calls.take i).filterMap f, (s.calls.drop (i + 1)).filterMap f, ?_, ?_⟩
  · show s.calls.filterMap f = _
    conv_lhs => rw [← take_append_drop i s.calls, drop_eq_getElem_cons hi, hget]
    rw [filterMap_append, filterMap_cons, append_assoc]
    by_cases hw : c.1 = .writing <;> simp [f, hw]
  · show (s.calls.eraseIdx i).filterMap f = _
    rw [eraseIdx_eq_take_drop_succ, filterMap_append]

theorem eraseOpening (h : Agree o s) (hc : s.calls[i]? = some (.opening, r)) :
    Agree o { s with calls := s.calls.eraseIdx i } := by
  obtain ⟨xs, ys, hw, hw'⟩ := writers_erase hc
  have heq : ({ s with calls := s.calls.eraseIdx i } : Exchange).writers = s.writers := by
    rw [hw, hw']
    simp
  refine { h with calls := ?_, writer := ?_, idle := ?_ }
  · exact fun c hc => h.calls c (mem_of_mem_eraseIdx hc)
  · rw [heq]
    exact h.writer
  · rw [heq]
    exact h.idle

theorem beginWrite (h : Agree o s) (hr : r.Slice o) (hopen : s.hub.opening = false)
    (hwriting : s.hub.writing = false) (hoff : r.offset = s.base + s.total)
    (hsettled : s.base + s.total = s.host) (hfits : r.offset + r.data.length ≤ o.size) :
    Agree o { s with
      hub := { s.hub with writing := true }
      calls := s.calls ++ [(.writing, r)]
      given := s.given ++ [(r.offset, r.data)] } := by
  set s' : Exchange := { s with
      hub := { s.hub with writing := true }
      calls := s.calls ++ [(.writing, r)]
      given := s.given ++ [(r.offset, r.data)] } with hs'
  have htotal : s'.total = s.total + r.data.length := by
    simp [Exchange.total, hs']
  have hwriters : s'.writers = [r] := by
    have hnone := h.idle hwriting
    unfold Exchange.writers at hnone ⊢
    simp [hs', filterMap_append, hnone]
  have hbytes : s'.bytes = s.bytes ++ r.data.zipIdx r.offset := by
    simp [Exchange.bytes, hs']
  refine { h with
    calls := ?_, laid := ?_, within := ?_, host := ?_, settled := nofun, writer := ?_,
    idle := nofun, unopened := ?_ }
  · intro c hc
    obtain hc | hc := mem_append.mp hc
    · exact h.calls c hc
    · obtain rfl := mem_singleton.mp hc
      exact hr
  · rw [hbytes, htotal]
    exact h.laid_append hr hoff
  · show s.base + s'.total ≤ o.size
    omega
  · show s.host ≤ s.base + s'.total
    omega
  · intro _
    refine ⟨r, hwriters, ?_⟩
    show s.host + r.data.length = s.base + s'.total
    omega
  · exact fun hopening => absurd hopening (by simp [hs', hopen])

theorem goOn (h : Agree o s) (hr : r.Slice o) (hopen : s.hub.opening = false) :
    Agree o (s.goOn r) := by
  unfold Exchange.goOn
  split
  · exact h.reply (.silent (by decide))
  · next hsending =>
    have hstate : s.hub.state = .sending := by
      by_contra hne
      exact hsending (.inl hne)
    split
    · exact h.reply (.silent (by decide))
    · next hwriting =>
      have hwriting : s.hub.writing = false := by simpa using hwriting
      have hacked := h.acked hstate hopen
      have hsettled := h.settled hstate hopen hwriting
      split
      · refine h.reply ⟨?_, fun _ => ⟨rfl, rfl⟩⟩
        rintro n ⟨rfl⟩
        exact Nat.le_of_eq hacked
      · next hoff =>
        have hoff : r.offset = s.hub.acked := by
          by_contra hne
          exact hoff hne
        split
        · exact h.reply (.silent (by decide))
        · next hlen =>
          have hsize := h.size
          push Not at hlen
          exact h.beginWrite hr hopen hwriting (by omega) hsettled (by omega)

theorem of_writing (h : Agree o s) (hc : s.calls[i]? = some (.writing, r)) :
    s.hub.opening = false ∧ s.host + r.data.length = s.base + s.total ∧
      ({ s with calls := s.calls.eraseIdx i } : Exchange).writers = [] := by
  obtain ⟨xs, ys, hw, hw'⟩ := writers_erase hc
  rw [if_pos rfl] at hw
  have hwriting : s.hub.writing = true := by
    cases hb : s.hub.writing with
    | true => rfl
    | false =>
      have hnone := h.idle hb
      rw [hw] at hnone
      simp at hnone
  obtain ⟨r', hr', hlen⟩ := h.writer hwriting
  rw [hw] at hr'
  have hone : xs = [] ∧ ys = [] ∧ r = r' := by
    cases xs with
    | nil => simpa [and_comm] using hr'
    | cons x xs => simp at hr'
  obtain ⟨rfl, rfl, rfl⟩ := hone
  refine ⟨?_, hlen, hw'⟩
  cases hopen : s.hub.opening with
  | false => rfl
  | true =>
    have := (h.unopened hopen).1
    simp [hwriting] at this

theorem note_eq (s : Exchange) (e : Event) : s.note e = { s with log := (s.note e).log } := by
  unfold Exchange.note
  split <;> rfl

section

variable (h : Agree o s)
include h

section

variable (hc : s.calls[i]? = some (.writing, r))
include hc

theorem endWrite (hle : s.host ≤ n) (hn : n ≤ s.base + s.total) {hub : HubFile} {log : List Event}
    (hsize : hub.size = s.hub.size) (hopen : hub.opening = s.hub.opening)
    (hwriting : hub.writing = false)
    (hacked : hub.state = .sending → hub.acked = n ∧ s.base + s.total = n) :
    Agree o { s with calls := s.calls.eraseIdx i, hub := hub, host := n, log := log } := by
  obtain ⟨hopening, hlen, hnone⟩ := h.of_writing hc
  refine { h with
    size := hsize.trans h.size, calls := ?_, answers := ?_, host := hn, acked := ?_,
    settled := ?_, writer := ?_, idle := fun _ => hnone, unopened := ?_ }
  · exact fun c hc => h.calls c (mem_of_mem_eraseIdx hc)
  · exact fun a ha => (h.answers a ha).mono hle
  · exact fun hstate _ => (hacked hstate).1
  · exact fun hstate _ _ => (hacked hstate).2
  · intro hw
    simp [hwriting] at hw
  · intro ho
    simp [hopen, hopening] at ho

theorem written :
    Agree o ({ s with calls := s.calls.eraseIdx i }.written r) := by
  obtain ⟨hopening, hlen, hnone⟩ := h.of_writing hc
  unfold Exchange.written
  rw [note_eq]
  dsimp only
  split
  · next hstate =>
    refine Agree.reply ?_ (.silent (by decide))
    exact h.endWrite hc (by omega) (by omega) rfl rfl rfl (fun hs => absurd hs hstate)
  · next hstate =>
    have hstate : s.hub.state = .sending := by
      by_contra hne
      exact hstate hne
    have hacked := h.acked hstate hopening
    have hgrown : s.hub.acked + r.data.length = s.host + r.data.length := by omega
    refine Agree.reply ?_ (Nat.le_of_eq hgrown)
    split
    · -- The whole file is there: it is verified, and takes no more.
      unfold Exchange.finishFile
      split
      · exact h.endWrite hc (by omega) (by omega) rfl rfl rfl nofun
      · exact h.endWrite hc (by omega) (by omega) rfl rfl rfl (fun _ => ⟨hgrown, hlen.symm⟩)
    · exact h.endWrite hc (by omega) (by omega) rfl rfl rfl (fun _ => ⟨hgrown, hlen.symm⟩)

theorem writeFailed (interruption : Bool) (hcode : foreign code = true) (message : String) :
    Agree o ({ s with calls := s.calls.eraseIdx i }.writeFailed r interruption code message) := by
  refine Agree.reply ?_ (.silent hcode)
  have hle := h.host
  split
  · unfold Exchange.fileFailed
    split <;> exact h.endWrite hc (Nat.le_refl _) hle rfl rfl rfl nofun
  · next hstate => exact h.endWrite hc (Nat.le_refl _) hle rfl rfl rfl (fun hs => absurd hs hstate)

end

theorem stop {hub : HubFile} (hsize : hub.size = s.hub.size)
    (hwriting : hub.writing = s.hub.writing) (hopen : hub.opening = true → s.hub.opening = true)
    (hacked : hub.acked ≤ s.hub.acked) (hstate : hub.state ≠ .sending) :
    Agree o { s with hub := hub } := by
  refine { h with
    size := hsize.trans h.size, acked := fun hs => absurd hs hstate,
    settled := fun hs => absurd hs hstate, writer := ?_, idle := ?_, unopened := ?_ }
  · exact fun hw => h.writer (hwriting.symm.trans hw)
  · exact fun hw => h.idle (hwriting.symm.trans hw)
  · intro ho
    obtain ⟨hw, hgiven, hhost, hle⟩ := h.unopened (hopen ho)
    exact ⟨hwriting.trans hw, hgiven, hhost, Nat.le_trans hacked hle⟩

theorem openFailed (interruption : Bool) : Agree o (s.openFailed interruption) := by
  unfold Exchange.openFailed
  split
  · unfold Exchange.fileFailed
    split
    · exact h.stop rfl rfl nofun (Nat.le_refl _) nofun
    · exact h.stop rfl rfl nofun (Nat.zero_le _) nofun
  · next hstate => exact h.stop rfl rfl nofun (Nat.le_refl _) hstate

theorem opened (hopen : s.hub.opening = true) (kept : Bool) :
    Agree o (s.opened kept) := by
  obtain ⟨hwriting, hgiven, hhost, hle⟩ := h.unopened hopen
  have htotal : s.total = 0 := by
    unfold Exchange.total
    rw [hgiven]
    rfl
  -- Nothing was given yet: the bytes begin where the file was opened.
  have hbegins : ∀ (acked : ℕ) (hub : HubFile), acked ≤ o.size → hub.size = o.size →
      hub.opening = false → hub.writing = false → (hub.state = .sending → hub.acked = acked) →
      Agree o { s with hub := hub, base := acked, host := acked } := by
    intro acked hub hacked hsize ho hw hstate
    refine { h with
      size := hsize, answers := ?_, laid := ?_, within := ?_, host := Nat.le_add_right _ _,
      acked := fun hs _ => hstate hs, settled := ?_, writer := ?_, idle := ?_, unopened := ?_ }
    · exact fun a ha => (h.answers a ha).mono (by omega)
    · show s.bytes = (o.file.zipIdx.drop acked).take s.total
      rw [htotal, take_zero]
      unfold Exchange.bytes
      rw [hgiven]
      rfl
    · show acked + s.total ≤ o.size
      omega
    · intro _ _ _
      show acked + s.total = acked
      omega
    · intro hw'
      simp [hw] at hw'
    · exact fun _ => h.idle hwriting
    · intro ho'
      simp [ho] at ho'
  unfold Exchange.opened
  dsimp only
  split
  · have hacked : (if kept then s.hub.acked else 0) ≤ o.size := by
      split
      · exact hle
      · exact Nat.zero_le _
    generalize (if kept then s.hub.acked else 0) = acked at hacked ⊢
    split
    · unfold Exchange.finishFile
      split
      · exact hbegins _ _ hacked h.size rfl hwriting nofun
      · exact hbegins _ _ hacked h.size rfl hwriting (fun _ => rfl)
    · exact hbegins _ _ hacked h.size rfl hwriting (fun _ => rfl)
  · next hstate => exact h.stop rfl rfl nofun (Nat.le_refl _) hstate

end

end Agree

/-! ### What the loop makes of it -/

/-- The moves since the host last acknowledged bytes. -/
def streak (log : List Event) : ℕ := (log.takeWhile (· = .moved)).length

/-- No move came before an acknowledgement. -/
def Unbroken (log : List Event) : Bool := (log.dropWhile (· = .moved)).all (· = .acknowledged)

theorem streak_eq_count {log : List Event} (h : Unbroken log = true) :
    streak log = log.count .moved := by
  have hrest : (log.dropWhile (· = .moved)).count .moved = 0 := by
    rw [count_eq_zero]
    intro hmem
    simpa using all_eq_true.mp h _ hmem
  have hfirst : (log.takeWhile (· = .moved)).count .moved = streak log := by
    unfold streak
    rw [count_eq_length]
    intro e he
    have hall := all_takeWhile (p := fun e => decide (e = Event.moved)) (l := log)
    exact (of_decide_eq_true (all_eq_true.mp hall e he)).symm
  calc streak log
      = (log.takeWhile (· = .moved) ++ log.dropWhile (· = .moved)).count .moved := by
        rw [count_append, hrest, hfirst, Nat.add_zero]
    _ = log.count .moved := by rw [takeWhile_append_dropWhile]

/-- The loop's variables, while it goes on. -/
def liveLoop : Turn → Option Loop
  | .put l => some l
  | .backoff l => some l
  | .finished _ => none

/-- What holds of the window's end. -/
structure Loops (o : SendOptions) (s : Exchange) : Prop where
  live : ∀ l, liveLoop s.turn = some l → l.offset < o.size ∧ l.moves = s.log.count .moved
  sent : ∀ n, s.turn = .finished (.sent n) → s.host = o.size
  gaveUp : ∀ code message here, s.turn = .finished (.failed code message here) →
    foreign code = false → maxOffsetMoves < streak s.log

/-- What a turn of the loop comes to, after `moves` moves: it counts a move, says sent when the
host has the whole file, and gives up for a move that comes after the last it allows. -/
structure Follows (o : SendOptions) (host moves : ℕ) (moved : Bool) (t : Turn) : Prop where
  live : ∀ l, liveLoop t = some l → l.offset < o.size ∧ l.moves = moves + moved.toNat
  sent : ∀ n, t = .finished (.sent n) → host = o.size
  gaveUp : ∀ code message here, t = .finished (.failed code message here) → foreign code = false →
    moved = true ∧ maxOffsetMoves ≤ moves

variable {acked : ℕ}

namespace Follows

variable {o : SendOptions} {host moves : ℕ} {moved : Bool} {l : Loop}

theorem stopped (state : Option ItemState) :
    Follows o host moves moved (.finished (.stopped state)) :=
  ⟨nofun, nofun, nofun⟩

theorem failed (h : foreign code = true) (message : String) (here : Bool) :
    Follows o host moves moved (.finished (.failed code message here)) := by
  refine ⟨nofun, nofun, ?_⟩
  rintro _ _ _ ⟨rfl⟩ hf
  simp [h] at hf

section

variable (hhost : host ≤ o.size)
include hhost

theorem again (hoff : l.offset ≤ host ∨ l.offset < o.size)
    (hl : l.moves = moves + moved.toNat) (stopped : Bool) :
    Follows o host moves moved (o.again stopped l) := by
  unfold SendOptions.again
  split
  · next hlt =>
    split
    · exact .stopped none
    · refine ⟨?_, nofun, nofun⟩
      rintro _ ⟨rfl⟩
      exact ⟨hlt, hl⟩
  · refine ⟨nofun, ?_, nofun⟩
    intro _ _
    omega

theorem move (hacked : acked ≤ host) (stopped : Bool)
    (code message : String) : Follows o host l.moves true (o.move stopped l acked code message) := by
  unfold SendOptions.move
  split
  · refine ⟨nofun, nofun, ?_⟩
    intro _ _ _ _ _
    exact ⟨rfl, by omega⟩
  · exact .again hhost (.inl hacked) rfl stopped

theorem refusal (hl : l.offset < o.size) {status : ℕ}
    {message : String} {acked : Option ℕ} {state : Option ItemState}
    (hfair : Fair host (.refused status code message acked state)) (stopped : Bool) :
    Follows o host l.moves (movedBy l (.answered (.refused status code message acked state)))
      (o.refusal stopped l status code message acked state) := by
  obtain ⟨hle, hsome⟩ := hfair
  unfold SendOptions.refusal
  split
  · exact .stopped state
  · cases hm : (if code = "OFFSET_MISMATCH" then acked else none) with
    | some a =>
      obtain ⟨hcode, hacked⟩ := ite_none_right_eq_some.mp hm
      have hmoved : movedBy l (.answered (.refused status code message acked state)) = true := by
        simp [movedBy, hcode, hacked]
      rw [hmoved]
      exact .move hhost (hle a hacked) stopped code message
    | none =>
      have hmoved : movedBy l (.answered (.refused status code message acked state)) = false := by
        by_cases hcode : code = "OFFSET_MISMATCH"
        · rw [if_pos hcode] at hm
          simp [movedBy, hm]
        · simp [movedBy, hcode]
      -- A refusal with one of the two codes names bytes, and was a move.
      have hforeign : foreign code = true := by
        by_contra hf
        obtain ⟨hcode, hacked⟩ := hsome (by simpa using hf)
        rw [if_pos hcode] at hm
        simp [hm] at hacked
      rw [hmoved]
      dsimp only
      split
      · refine ⟨?_, nofun, nofun⟩
        rintro _ ⟨rfl⟩
        exact ⟨hl, rfl⟩
      · split
        · exact .stopped none
        · exact .failed hforeign message false

theorem answer (hl : l.offset < o.size) (hfair : Fair host a) (stopped : Bool) :
    Follows o host l.moves (movedBy l (.answered a)) (o.answer stopped l a) := by
  cases a with
  | refused status code message acked state => exact .refusal hhost hl hfair stopped
  | ok acked =>
    unfold SendOptions.answer
    dsimp only
    split
    · next hle =>
      have hmoved : movedBy l (.answered (.ok acked)) = true := by simpa [movedBy] using hle
      rw [hmoved]
      exact .move (l := { l with retries := 0 }) hhost hfair stopped _ _
    · next hgt =>
      have hmoved : movedBy l (.answered (.ok acked)) = false := by simpa [movedBy] using hgt
      rw [hmoved]
      have hle : acked ≤ host := hfair
      exact .again hhost (.inl hle) rfl stopped

theorem threw (hl : l.offset < o.size) (name message : String)
    (stopped : Bool) : Follows o host l.moves false (o.take stopped l (.threw name message)) := by
  unfold SendOptions.take
  dsimp only
  split
  · next hname =>
    refine .failed ?_ _ _
    obtain rfl | rfl := hname <;> decide
  · exact .answer (a := .refused 0 "HUB_UNREACHABLE" message none none) hhost hl
      (.silent (by decide)) stopped

end

end Follows

theorem Fair.unread {host : ℕ} (a : ChunkAnswer) : Fair host (unread a) := by
  cases a with
  | ok acked => exact .silent (by decide)
  | refused status code message acked state =>
    refine .silent ?_
    have hhead : ∀ c : String, c.toList.head? ≠ some 'H' → "HTTP_" ++ toString status ≠ c := by
      rintro _ hc rfl
      simp at hc
    simp only [foreign, Bool.and_eq_true, bne_iff_ne]
    exact ⟨hhead "OFFSET_MISMATCH" (by decide), hhead "NO_PROGRESS" (by decide)⟩

namespace Loops

variable {o : SendOptions} {s s' : Exchange}

/-- What the hub does leaves the loop where it is, and is noted while it goes on. -/
structure Apart (s s' : Exchange) : Prop where
  turn : s'.turn = s.turn
  host : s.host ≤ s'.host
  log : s'.log = s.log ∨ (liveLoop s.turn).isSome = true ∧ s'.log = .acknowledged :: s.log

theorem apart (h : Loops o s) (hs : Apart s s') (hhost : s'.host ≤ o.size) : Loops o s' := by
  obtain ⟨hturn, hle, hlog⟩ := hs
  have hover : ∀ r, s.turn = .finished r → s'.log = s.log := by
    intro r hr
    obtain hlog | ⟨hlive, -⟩ := hlog
    · exact hlog
    · rw [hr] at hlive
      simp [liveLoop] at hlive
  refine ⟨?_, ?_, ?_⟩
  · intro l hl
    rw [hturn] at hl
    obtain hlog | ⟨-, hlog⟩ := hlog
    · rw [hlog]
      exact h.live l hl
    · rw [hlog, count_cons_of_ne (by decide)]
      exact h.live l hl
  · intro n hn
    rw [hturn] at hn
    have := h.sent n hn
    omega
  · intro code message here hf
    rw [hturn] at hf
    rw [hover _ hf]
    exact h.gaveUp code message here hf

theorem takeTurn {l : Loop} {m : Bool} {t : Turn} (hl : l.moves = s.log.count .moved)
    (ht : Follows o s.host l.moves m t)
    (hbreak : m = true → maxOffsetMoves ≤ l.moves → Unbroken s.log = true) :
    Loops o ((if m then { s with log := .moved :: s.log } else s).takeTurn o t) := by
  set s₁ : Exchange := if m then { s with log := .moved :: s.log } else s with hs₁
  have hturn : (s₁.takeTurn o t).turn = t := by cases t <;> rfl
  have hlog : (s₁.takeTurn o t).log = s₁.log := by cases t <;> rfl
  have hhost : (s₁.takeTurn o t).host = s.host := by
    have : (s₁.takeTurn o t).host = s₁.host := by cases t <;> rfl
    rw [this, hs₁]
    split <;> rfl
  have hcount : s₁.log.count .moved = l.moves + m.toNat := by
    rw [hs₁, hl]
    cases m with
    | true | false => simp
  refine ⟨?_, ?_, ?_⟩
  · intro l' hl'
    rw [hturn] at hl'
    obtain ⟨hoff, hmoves⟩ := ht.live l' hl'
    rw [hlog, hcount]
    exact ⟨hoff, hmoves⟩
  · intro n hn
    rw [hturn] at hn
    rw [hhost]
    exact ht.sent n hn
  · intro code message here hf hcode
    rw [hturn] at hf
    obtain ⟨rfl, hmax⟩ := ht.gaveUp code message here hf hcode
    -- Its moves all came since the last acknowledgement, and this one is one more.
    have hstreak : streak s.log = l.moves := by rw [hl, streak_eq_count (hbreak rfl hmax)]
    have hone : streak s₁.log = streak s.log + 1 := by simp [streak, hs₁]
    rw [hlog]
    omega

end Loops

/-! ### Every step -/

section Steps

variable {o : SendOptions} {s s' : Exchange}

/-- A ninth move comes only to a loop whose moves all came after the host's last
acknowledgement. -/
def Orderly (s : Exchange) : Step → Bool
  | .hears intact _ =>
    match s.turn, s.answer with
    | .put l, some a =>
      !(movedBy l (.answered (if intact then a else unread a)) && maxOffsetMoves ≤ l.moves) ||
        Unbroken s.log
    | _, _ => true
  | _ => true

/-- Both ends. -/
structure Sound (o : SendOptions) (s : Exchange) : Prop where
  agree : Agree o s
  loops : Loops o s

theorem Sound.apart (h : Sound o s) (ha : Agree o s') (hs : Loops.Apart s s') : Sound o s' :=
  ⟨ha, h.loops.apart hs (Nat.le_trans ha.host ha.within)⟩

theorem slice_chunk (o : SendOptions) (id offset : ℕ) :
    (⟨id, offset, o.chunk offset⟩ : Request).Slice o := ⟨_, rfl⟩

theorem Agree.takeTurn (h : Agree o s) (t : Turn) : Agree o (s.takeTurn o t) := by
  cases t with
  | put l =>
    have := h.send (slice_chunk o (s.id + 1) l.offset)
    exact { this with }
  | backoff | finished => exact { h with }

theorem Sound.heard (h : Sound o s) {l : Loop} (hturn : s.turn = .put l) {p : Put} {stopped : Bool}
    (ht : Follows o s.host l.moves (movedBy l p) (o.take stopped l p))
    (hbreak : movedBy l p = true → maxOffsetMoves ≤ l.moves → Unbroken s.log = true) :
    Sound o (s.heard o l p stopped) := by
  have hl := (h.loops.live l (by rw [hturn]; rfl)).2
  have hnote : s.note .moved = { s with log := .moved :: s.log } := by
    unfold Exchange.note
    rw [hturn]
  unfold Exchange.heard
  rw [hnote]
  refine ⟨?_, Loops.takeTurn hl ht hbreak⟩
  refine Agree.takeTurn ?_ _
  split
  · exact { h.agree with }
  · exact h.agree

theorem Apart.note (s : Exchange) : (s.note .acknowledged).log = s.log ∨
    (liveLoop s.turn).isSome = true ∧ (s.note .acknowledged).log = .acknowledged :: s.log := by
  unfold Exchange.note
  cases s.turn with
  | finished r => exact .inl rfl
  | put | backoff => exact .inr ⟨rfl, rfl⟩

/-- **One step keeps the two ends in agreement.** -/
theorem Sound.step (h : Sound o s) {e : Step} (hord : Orderly s e = true)
    (hn : next o s e = some s') : Sound o s' := by
  have ha := h.agree
  have hhost : s.host ≤ o.size := Nat.le_trans ha.host ha.within
  cases e with
  | arrives i found =>
    obtain ⟨r, hr, rfl⟩ := map_eq_some_iff.mp hn
    refine h.apart ((ha.arrive i).receive (ha.flying r (mem_of_getElem? hr)) found) ?_
    cases found with
    | item =>
      unfold Exchange.receive
      dsimp only
      split <;> exact ⟨rfl, Nat.le_refl _, .inl rfl⟩
    | _ => exact ⟨rfl, Nat.le_refl _, .inl rfl⟩
  | barred i status code message =>
    obtain ⟨hcode, hn⟩ := ite_none_right_eq_some.mp hn
    obtain ⟨r, hr, rfl⟩ := map_eq_some_iff.mp hn
    exact h.apart ((ha.arrive i).reply (.silent hcode)) ⟨rfl, Nat.le_refl _, .inl rfl⟩
  | opened kept =>
    obtain ⟨hopen, ⟨rfl⟩⟩ := ite_none_right_eq_some.mp hn
    refine h.apart (ha.opened hopen kept) ?_
    have hzero : s.host = 0 := (ha.unopened hopen).2.2.1
    unfold Exchange.opened
    dsimp only
    split
    · exact ⟨rfl, by dsimp only; omega, .inl rfl⟩
    · exact ⟨rfl, Nat.le_refl _, .inl rfl⟩
  | openFailed interruption =>
    obtain ⟨hopen, ⟨rfl⟩⟩ := ite_none_right_eq_some.mp hn
    exact h.apart (ha.openFailed interruption) ⟨rfl, Nat.le_refl _, .inl rfl⟩
  | goesOn i =>
    unfold next at hn
    dsimp only at hn
    split at hn
    · next r hc =>
      obtain ⟨hopen, ⟨rfl⟩⟩ := ite_none_left_eq_some.mp hn
      have hslice : r.Slice o := ha.calls _ (mem_of_getElem? hc)
      refine h.apart ((ha.eraseOpening hc).goOn hslice (by simpa using hopen)) ?_
      unfold Exchange.goOn
      split
      · exact ⟨rfl, Nat.le_refl _, .inl rfl⟩
      · split
        · exact ⟨rfl, Nat.le_refl _, .inl rfl⟩
        · split
          · exact ⟨rfl, Nat.le_refl _, .inl rfl⟩
          · split <;> exact ⟨rfl, Nat.le_refl _, .inl rfl⟩
    · cases hn
  | written i =>
    unfold next at hn
    dsimp only at hn
    split at hn
    · next r hc =>
      cases hn
      refine h.apart (ha.written hc) ?_
      have hnote := Apart.note { s with calls := s.calls.eraseIdx i }
      unfold Exchange.written
      rw [Agree.note_eq]
      dsimp only
      split <;> exact ⟨rfl, Nat.le_add_right _ _, hnote⟩
    · cases hn
  | writeFailed i interruption code message =>
    unfold next at hn
    dsimp only at hn
    split at hn
    · next r hc =>
      obtain ⟨hcode, ⟨rfl⟩⟩ := ite_none_right_eq_some.mp hn
      exact h.apart (ha.writeFailed hc interruption hcode message) ⟨rfl, Nat.le_refl _, .inl rfl⟩
    · cases hn
  | stops state forgotten =>
    obtain ⟨hstate, ⟨rfl⟩⟩ := ite_none_left_eq_some.mp hn
    refine h.apart (ha.stop rfl rfl (fun h => h) ?_ hstate) ⟨rfl, Nat.le_refl _, .inl rfl⟩
    dsimp only
    split
    · exact Nat.zero_le _
    · exact Nat.le_refl _
  | hears intact stopped =>
    unfold next at hn
    unfold Orderly at hord
    dsimp only at hn hord
    split at hn
    · next l a hturn hans =>
      cases hn
      rw [hturn, hans] at hord
      have hl := (h.loops.live l (by rw [hturn]; rfl)).1
      have hfair : Fair s.host (if intact then a else unread a) := by
        split
        · obtain ⟨b, hb, rfl⟩ := map_eq_some_iff.mp hans
          exact ha.answers b (mem_of_find?_eq_some hb)
        · exact .unread a
      refine h.heard hturn (.answer hhost hl hfair stopped) ?_
      intro hmoved hmax
      simpa [hmoved, hmax] using hord
    · cases hn
  | throws name message stopped =>
    unfold next at hn
    dsimp only at hn
    split at hn
    · next l hturn =>
      cases hn
      have hl := (h.loops.live l (by rw [hturn]; rfl)).1
      exact h.heard hturn (.threw hhost hl name message stopped) nofun
    · cases hn
  | wakes stopped =>
    unfold next at hn
    dsimp only at hn
    split at hn
    · next l hturn =>
      cases hn
      obtain ⟨hoff, hmoves⟩ := h.loops.live l (by rw [hturn]; rfl)
      refine ⟨ha.takeTurn _, ?_⟩
      exact Loops.takeTurn (m := false) hmoves (.again hhost (.inr hoff) rfl stopped) nofun
    · cases hn

theorem Agree.start (hacked : acked ≤ o.size) {earlier : List Request}
    (hearlier : ∀ r ∈ earlier, r.Slice o) (stopped : Bool) :
    Agree o (start o stopped acked earlier) := by
  refine Agree.takeTurn ?_ _
  exact {
    size := rfl, flying := hearlier, calls := nofun, answers := nofun, laid := rfl,
    within := Nat.zero_le _, host := Nat.zero_le _, acked := nofun, settled := nofun,
    writer := nofun, idle := fun _ => rfl, unopened := fun _ => ⟨rfl, rfl, rfl, hacked⟩ }

theorem Sound.start (hfrom : max 0 o.start < o.size) (hacked : acked ≤ o.size)
    {earlier : List Request} (hearlier : ∀ r ∈ earlier, r.Slice o) (stopped : Bool) :
    Sound o (start o stopped acked earlier) := by
  refine ⟨Agree.start hacked hearlier stopped, ?_⟩
  have hoff : (min (max 0 o.start) o.size).toNat < o.size := by omega
  exact Loops.takeTurn (l := ⟨(min (max 0 o.start) o.size).toNat, 0, 0⟩) (m := false) rfl
    (.again (Nat.zero_le _) (.inr hoff) rfl stopped) nofun

/-- **A window's loop and the hub agree.**  The sink is given the bytes of the file that follow
what it was opened with, each once and in order; from every state the loop ends, whatever comes to
it; it says sent only when the host has acknowledged the whole file; and it gives a file up for
moved offsets only after more than `maxOffsetMoves` moves with no bytes acknowledged between. -/
theorem exchange_exact {stopped : Bool} {acked : ℕ} {earlier : List Request}
    (hfrom : max 0 o.start < o.size) (hacked : acked ≤ o.size) (hearlier : ∀ r ∈ earlier, r.Slice o)
    (h : Run (next o) (fun s e => Orderly s e = true) (start o stopped acked earlier) s) :
    (∃ n, s.base + n ≤ o.size ∧ s.bytes = (o.file.zipIdx.drop s.base).take n) ∧
    (∀ heard, ∃ n r, o.after s.turn heard n = .finished r) ∧
    (∀ n, s.turn = .finished (.sent n) → s.host = o.size) ∧
    (∀ code message here, s.turn = .finished (.failed code message here) →
      code = "NO_PROGRESS" ∨ code = "OFFSET_MISMATCH" → maxOffsetMoves < streak s.log) := by
  have hsound : Sound o s :=
    h.invariant (Sound.start hfrom hacked hearlier stopped) fun _ _ _ hs hord hn => hs.step hord hn
  refine ⟨⟨s.total, hsound.agree.within, hsound.agree.laid⟩, ?_, hsound.loops.sent, ?_⟩
  · intro heard
    obtain ⟨n, r, -, hr⟩ := o.ends s.turn heard
    exact ⟨n, r, hr⟩
  · intro code message here hf hcode
    refine hsound.loops.gaveUp code message here hf ?_
    obtain rfl | rfl := hcode <;> decide

end Steps

/-- Twenty bytes, one at a time. -/
def twenty : SendOptions := ⟨replicate 20 7, 0, some 1⟩

/-- A chunk is taken and its answer lost; sent again it is told where the host's bytes end; the
next chunk is taken and answered. -/
def lostOnce : List Step :=
  [.arrives 0 .item, .goesOn 0, .written 0, .throws "TypeError" "Failed to fetch" false,
    .wakes false, .arrives 0 .item, .goesOn 0, .hears true false,
    .arrives 0 .item, .goesOn 0, .written 0, .hears true false]

/-- A file whose every second answer is lost is sent, and the host has it whole. -/
theorem exchange_exact_lossy : ∃ s,
    Run (next ⟨[1, 2], 0, some 1⟩) (fun s e => Orderly s e = true)
      (start ⟨[1, 2], 0, some 1⟩ false 0 []) s ∧
    s.turn = .finished (.sent 2) ∧ s.host = 2 := by
  have hrun : Run (next ⟨[1, 2], 0, some 1⟩) (fun s e => Orderly s e = true)
      (start ⟨[1, 2], 0, some 1⟩ false 0 []) _ :=
    .get (.opened true :: lostOnce) (by decide +kernel) (by decide +kernel)
  have hexact := exchange_exact (by decide) (Nat.zero_le _) (by simp) hrun
  exact ⟨_, hrun, by decide +kernel, hexact.2.2.1 2 (by decide +kernel)⟩

/-- The moves are counted over the whole file.  Nine answers are lost over twenty chunks, each of
which the host took: the loop gives the file up for moved offsets, after one move since the host
last acknowledged a byte. -/
theorem given_up_while_sending : ∃ s,
    Run (next twenty) free (start twenty false 0 []) s ∧
    (∃ message, s.turn = .finished (.failed "OFFSET_MISMATCH" message false)) ∧
    streak s.log = 1 ∧ s.host = 17 := by
  exact ⟨_, .get_free (.opened true :: ((replicate 8 lostOnce).flatten ++ lostOnce.take 8))
    (by decide +kernel), ⟨"The host holds 17 bytes of it: send from there", by decide +kernel⟩,
    by decide +kernel, by decide +kernel⟩

end Lasterm.Transfer.Sending
