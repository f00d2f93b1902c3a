import Lasterm.Wire.Framing
import Lasterm.Wire.Codec

/-!
# Where a stdio agent's frames start

`hello-seeker.ts`: the remote shell may print before the agent it runs does, so the stream is
taken from the first place at which a whole HELLO frame decodes.  Every push looks at all the
bytes that have come, and the seeker gives up once no HELLO can begin within the limit any more.

A place whose frame has not all come is skipped, not waited for.  So it is the first frame to
be *complete* that is reported: a HELLO inside a longer HELLO is found first if a push ends
between the two ends.

## Main results

* `seek_reports_hello` — which push reports a HELLO, whatever the chunks.
* `chunks_decide` — two cuts of one stream, two answers.
-/

namespace Lasterm.Wire

open List

/-- `MAX_SHELL_PRELUDE_BYTES`. -/
def maxShellPreludeBytes : ℕ := 64 * 1024

/-- `MAX_HELLO_FRAME_BYTES`. -/
def maxHelloFrameBytes : ℕ := 64 * 1024

/-- Whether a payload decodes to a HELLO; `hello` is the string `"HELLO"` among the scalars. -/
def isHello {σ : Type} [DecidableEq σ] (msgpackDecode : List UInt8 → Option (Value σ)) (hello : σ)
    (payload : List UInt8) : Bool :=
  match decodeMessage msgpackDecode payload with
  | some (.object es) =>
    match es.lookup "type" with
    | some (.scalar s) => s = hello
    | _ => false
  | _ => false

/-- What a `HelloSeeker` made of the bytes so far. -/
inductive HelloSeek
  | found (prelude : ℕ) (frames : List UInt8)
  | notYet
  | given
deriving DecidableEq

section Seek

variable (isHello : List UInt8 → Bool)

/-- The body of the loop of `findHelloFrame`: a whole HELLO frame starts here. -/
def startsHello (buffer : List UInt8) (start : ℕ) : Bool :=
  let length := readUInt32LE (buffer.drop start)
  decide (0 < length) && decide (length ≤ maxHelloFrameBytes) &&
    decide (start + lengthPrefixBytes + length ≤ buffer.length) &&
    isHello ((buffer.drop (start + lengthPrefixBytes)).take length)

/-- Where the first whole HELLO frame in the buffer starts, within the limit. -/
def findHelloFrame (buffer : List UInt8) : Option ℕ :=
  if buffer.length < lengthPrefixBytes + 1 then none
  else
    let last := min maxShellPreludeBytes (buffer.length - lengthPrefixBytes - 1)
    (range (last + 1)).find? (startsHello isHello buffer)

/-- A seeker of the HELLO frame, with what it has read. -/
structure HelloSeeker where
  buffer : List UInt8

/-- Nothing was read yet. -/
def HelloSeeker.new : HelloSeeker := ⟨[]⟩

/-- `push`: what is found with some more bytes. -/
def HelloSeeker.push (seeker : HelloSeeker) (chunk : List UInt8) : HelloSeek × HelloSeeker :=
  let buffer := seeker.buffer ++ chunk
  match findHelloFrame isHello buffer with
  | some start => (.found start (buffer.drop start), ⟨buffer⟩)
  | none =>
    if maxShellPreludeBytes + lengthPrefixBytes + maxHelloFrameBytes < buffer.length then
      (.given, ⟨buffer⟩)
    else (.notYet, ⟨buffer⟩)

/-- The seeker after the chunks. -/
def HelloSeeker.pushAll (chunks : List (List UInt8)) : HelloSeeker :=
  chunks.foldl (fun seeker chunk => (seeker.push isHello chunk).2) .new

/-- What the push of `chunk` after `chunks` answers. -/
def HelloSeeker.answer (chunks : List (List UInt8)) (chunk : List UInt8) : HelloSeek :=
  ((HelloSeeker.pushAll isHello chunks).push isHello chunk).1

/-! ### The search -/

/-- A HELLO frame lies at `[s, e)`: it begins within the first 64 KiB, and its payload is of at
most 64 KiB and decodes to a HELLO. -/
structure HelloAt (buffer : List UInt8) (s e : ℕ) : Prop where
  start : s ≤ maxShellPreludeBytes
  pos : 0 < readUInt32LE (buffer.drop s)
  small : readUInt32LE (buffer.drop s) ≤ maxHelloFrameBytes
  stop : e = s + lengthPrefixBytes + readUInt32LE (buffer.drop s)
  whole : e ≤ buffer.length
  hello : isHello ((buffer.drop (s + lengthPrefixBytes)).take (readUInt32LE (buffer.drop s))) = true

variable {isHello} {buffer : List UInt8} {s e : ℕ}

theorem startsHello_iff (hs : s ≤ maxShellPreludeBytes) :
    startsHello isHello buffer s = true ↔ ∃ e, HelloAt isHello buffer s e := by
  simp only [startsHello, Bool.and_eq_true, decide_eq_true_eq]
  constructor
  · rintro ⟨⟨⟨hpos, hsmall⟩, hwhole⟩, hhello⟩
    exact ⟨_, hs, hpos, hsmall, rfl, hwhole, hhello⟩
  · rintro ⟨e, h⟩
    exact ⟨⟨⟨h.pos, h.small⟩, h.stop ▸ h.whole⟩, h.hello⟩

theorem HelloAt.start_le (h : HelloAt isHello buffer s e) :
    s + lengthPrefixBytes + 1 ≤ buffer.length := by
  have hpos := h.pos
  have hstop := h.stop
  have hwhole := h.whole
  omega

theorem findHelloFrame_eq_none_iff :
    findHelloFrame isHello buffer = none ↔ ∀ s e, ¬HelloAt isHello buffer s e := by
  unfold findHelloFrame
  by_cases hshort : buffer.length < lengthPrefixBytes + 1
  · rw [if_pos hshort]
    refine iff_of_true rfl fun s e h => ?_
    have hstart := h.start_le
    omega
  · rw [if_neg hshort]
    simp only [find?_eq_none, mem_range]
    constructor
    · intro hnone s e h
      have hstart := h.start_le
      have hs := h.start
      exact hnone s (by omega) ((startsHello_iff hs).mpr ⟨e, h⟩)
    · intro hnone s hs hstarts
      obtain ⟨e, h⟩ := (startsHello_iff (by omega)).mp hstarts
      exact hnone s e h

/-- **The search finds the first whole HELLO frame.** -/
theorem findHelloFrame_eq_some_iff :
    findHelloFrame isHello buffer = some s ↔
      (∃ e, HelloAt isHello buffer s e) ∧ ∀ s' e', HelloAt isHello buffer s' e' → s ≤ s' := by
  unfold findHelloFrame
  by_cases hshort : buffer.length < lengthPrefixBytes + 1
  · rw [if_pos hshort]
    refine iff_of_false nofun ?_
    rintro ⟨⟨e, h⟩, -⟩
    have hstart := h.start_le
    omega
  · rw [if_neg hshort]
    simp only [find?_range_eq_some, mem_range, Bool.not_eq_true']
    constructor
    · rintro ⟨hstarts, hs, hfirst⟩
      refine ⟨(startsHello_iff (by omega)).mp hstarts, fun s' e' h' => ?_⟩
      by_contra hlt
      have hmissed := hfirst s' (by omega)
      rw [(startsHello_iff h'.start).mpr ⟨e', h'⟩] at hmissed
      cases hmissed
    · rintro ⟨⟨e, h⟩, hfirst⟩
      have hstart := h.start_le
      have hs := h.start
      refine ⟨(startsHello_iff hs).mpr ⟨e, h⟩, by omega, fun s' hlt => ?_⟩
      by_contra hstarts
      obtain ⟨e', h'⟩ := (startsHello_iff (by omega)).mp (Bool.of_not_eq_false hstarts)
      have hle := hfirst s' e' h'
      omega

/-! ### More bytes -/

variable {more : List UInt8}

theorem readUInt32LE_drop_append (h : s + lengthPrefixBytes ≤ buffer.length) :
    readUInt32LE ((buffer ++ more).drop s) = readUInt32LE (buffer.drop s) := by
  rw [drop_append_of_le_length (by omega)]
  refine readUInt32LE_append ?_ more
  rw [length_drop]
  omega

theorem payload_append {n : ℕ} (h : s + lengthPrefixBytes + n ≤ buffer.length) :
    ((buffer ++ more).drop (s + lengthPrefixBytes)).take n =
      (buffer.drop (s + lengthPrefixBytes)).take n := by
  rw [drop_append_of_le_length (by omega), take_append_of_le_length]
  rw [length_drop]
  omega

theorem HelloAt.append (h : HelloAt isHello buffer s e) (more : List UInt8) :
    HelloAt isHello (buffer ++ more) s e := by
  have hstart := h.start_le
  have hread : readUInt32LE ((buffer ++ more).drop s) = readUInt32LE (buffer.drop s) :=
    readUInt32LE_drop_append (by omega)
  refine ⟨h.start, hread ▸ h.pos, hread ▸ h.small, hread ▸ h.stop, ?_, ?_⟩
  · rw [length_append]
    exact Nat.le_add_right_of_le h.whole
  · rw [hread, payload_append (h.stop ▸ h.whole)]
    exact h.hello

theorem HelloAt.of_append (h : HelloAt isHello (buffer ++ more) s e)
    (he : e ≤ buffer.length) : HelloAt isHello buffer s e := by
  have hstop := h.stop
  have hread : readUInt32LE ((buffer ++ more).drop s) = readUInt32LE (buffer.drop s) :=
    readUInt32LE_drop_append (by omega)
  have hhello := h.hello
  rw [hread] at hstop hhello
  rw [payload_append (hstop ▸ he)] at hhello
  exact ⟨h.start, hread ▸ h.pos, hread ▸ h.small, hstop, he, hhello⟩

theorem HelloAt.stop_le (h : HelloAt isHello buffer s e) :
    e ≤ maxShellPreludeBytes + lengthPrefixBytes + maxHelloFrameBytes := by
  have hstart := h.start
  have hsmall := h.small
  have hstop := h.stop
  omega

/-! ### Pushes -/

theorem push_snd (seeker : HelloSeeker) (chunk : List UInt8) :
    (seeker.push isHello chunk).2 = ⟨seeker.buffer ++ chunk⟩ := by
  unfold HelloSeeker.push
  dsimp only
  split
  · rfl
  · split <;> rfl

theorem buffer_pushAll (chunks : List (List UInt8)) :
    (HelloSeeker.pushAll isHello chunks).buffer = chunks.flatten := by
  have hfold : ∀ seeker : HelloSeeker,
      (chunks.foldl (fun seeker chunk => (seeker.push isHello chunk).2) seeker).buffer =
        seeker.buffer ++ chunks.flatten := by
    induction chunks with
    | nil => exact fun seeker => (append_nil _).symm
    | cons chunk chunks ih =>
      intro seeker
      rw [foldl_cons, ih, push_snd, flatten_cons, append_assoc]
  exact hfold .new

theorem answer_eq (chunks : List (List UInt8)) (chunk : List UInt8) :
    HelloSeeker.answer isHello chunks chunk =
      match findHelloFrame isHello (chunks.flatten ++ chunk) with
      | some start => .found start ((chunks.flatten ++ chunk).drop start)
      | none =>
        if maxShellPreludeBytes + lengthPrefixBytes + maxHelloFrameBytes <
          (chunks.flatten ++ chunk).length then .given else .notYet := by
  unfold HelloSeeker.answer HelloSeeker.push
  rw [buffer_pushAll]
  dsimp only
  cases findHelloFrame isHello (chunks.flatten ++ chunk) with
  | some start => rfl
  | none =>
    dsimp only
    split <;> rfl

variable {chunks : List (List UInt8)} {chunk : List UInt8}

theorem answer_of_first (h : HelloAt isHello (chunks.flatten ++ chunk) s e)
    (hfirst : ∀ s' e', HelloAt isHello (chunks.flatten ++ chunk) s' e' → s ≤ s') :
    HelloSeeker.answer isHello chunks chunk = .found s ((chunks.flatten ++ chunk).drop s) := by
  rw [answer_eq, findHelloFrame_eq_some_iff.mpr ⟨⟨e, h⟩, hfirst⟩]

theorem answer_of_none (hnone : ∀ s' e', ¬HelloAt isHello (chunks.flatten ++ chunk) s' e')
    (hshort : (chunks.flatten ++ chunk).length ≤
      maxShellPreludeBytes + lengthPrefixBytes + maxHelloFrameBytes) :
    HelloSeeker.answer isHello chunks chunk = .notYet := by
  rw [answer_eq, findHelloFrame_eq_none_iff.mpr hnone]
  exact if_neg (Nat.not_lt.mpr hshort)

/-- **A seeker that gives up has reason to**: whatever comes, no HELLO begins within the limit. -/
theorem not_helloAt_of_given
    (h : HelloSeeker.answer isHello chunks chunk = .given) (more : List UInt8) (s e : ℕ) :
    ¬HelloAt isHello (chunks.flatten ++ chunk ++ more) s e := by
  rw [answer_eq] at h
  cases hfind : findHelloFrame isHello (chunks.flatten ++ chunk) with
  | some start =>
    rw [hfind] at h
    cases h
  | none =>
    rw [hfind] at h
    dsimp only at h
    split at h
    · next hlong =>
      intro hello
      have hstop := hello.stop_le
      exact findHelloFrame_eq_none_iff.mp hfind s e (hello.of_append (by omega))
    · cases h

end Seek

/-- **Whatever the chunks, the push that completes the HELLO reports it.**  Let a HELLO frame
lie at `[s, e)` in a stream, and every other one in it begin later and end no earlier.  However
the stream is cut, each push before the one that brings byte `e` answers that it waits, and that
one reports the frame, with the stream from it on as far as it has come.  And a push that gives
up is right to. -/
theorem seek_reports_hello {σ : Type} [DecidableEq σ]
    (msgpackDecode : List UInt8 → Option (Value σ)) (hello : σ) :
    (∀ (pre : List (List UInt8)) (chunk : List UInt8) (post : List (List UInt8)) (s e : ℕ),
      HelloAt (isHello msgpackDecode hello) (pre.flatten ++ chunk ++ post.flatten) s e →
      (∀ s' e', HelloAt (isHello msgpackDecode hello) (pre.flatten ++ chunk ++ post.flatten) s' e' →
        s ≤ s' ∧ e ≤ e') →
      pre.flatten.length < e → e ≤ (pre.flatten ++ chunk).length →
      (∀ before d after, pre = before ++ d :: after →
        HelloSeeker.answer (isHello msgpackDecode hello) before d = .notYet) ∧
      HelloSeeker.answer (isHello msgpackDecode hello) pre chunk =
        .found s ((pre.flatten ++ chunk).drop s)) ∧
    ∀ (pre : List (List UInt8)) (chunk more : List UInt8) (s e : ℕ),
      HelloSeeker.answer (isHello msgpackDecode hello) pre chunk = .given →
      ¬HelloAt (isHello msgpackDecode hello) (pre.flatten ++ chunk ++ more) s e := by
  refine ⟨?_, fun pre chunk more s e h => not_helloAt_of_given h more s e⟩
  intro pre chunk post s e h hfirst hbefore hwhole
  constructor
  · rintro before d after rfl
    -- What has come by then ends before the frame does, and so before any other.
    have hseen : (before ++ d :: after).flatten ++ chunk ++ post.flatten =
        (before.flatten ++ d) ++ (after.flatten ++ chunk ++ post.flatten) := by
      simp
    have hlt : (before.flatten ++ d).length < e := by
      simp only [flatten_append, flatten_cons, length_append] at hbefore
      rw [length_append]
      omega
    have hstop := h.stop_le
    refine answer_of_none (fun s' e' h' => ?_) (by omega)
    have hall := h'.append (after.flatten ++ chunk ++ post.flatten)
    rw [← hseen] at hall
    have hle := (hfirst s' e' hall).2
    have hwhole' := h'.whole
    omega
  · refine answer_of_first (h.of_append hwhole) fun s' e' h' => ?_
    exact (hfirst s' e' (h'.append post.flatten)).1

/-! ### A HELLO in a HELLO -/

/-- The payload of the smallest HELLO. -/
def helloPayload : List UInt8 :=
  [0x81, 0xa4, 0x74, 0x79, 0x70, 0x65, 0xa5, 0x48, 0x45, 0x4c, 0x4c, 0x4f]

/-- A frame that says HELLO. -/
def helloFrame : List UInt8 := uint32LE 12 ++ helloPayload

/-- A HELLO with one more field, whose bytes are a whole HELLO frame and one byte. -/
def outerPayload : List UInt8 :=
  [0x82, 0xa4, 0x74, 0x79, 0x70, 0x65, 0xa5, 0x48, 0x45, 0x4c, 0x4c, 0x4f,
    0xa4, 0x64, 0x61, 0x74, 0x61, 0xc4, 0x11] ++ helloFrame ++ [0x21]

/-- A frame with another inside it. -/
def outerFrame : List UInt8 := uint32LE 36 ++ outerPayload

/-- What MessagePack makes of the two payloads. -/
def decodePayload (data : List UInt8) : Option (Value String) :=
  if data = helloPayload then some (.object [("type", .scalar "HELLO")])
  else if data = outerPayload then
    some (.object [("type", .scalar "HELLO"), ("data", .bytes (helloFrame ++ [0x21]))])
  else none

/-- A shell that greets before the agent does. -/
def greeted : List UInt8 := [0x68, 0x69, 0x0a] ++ helloFrame

theorem seek_reports_greeted :
    HelloSeeker.answer (isHello decodePayload "HELLO") [[0x68, 0x69]] [0x0a, 0x0c, 0x00] = .notYet ∧
    HelloSeeker.answer (isHello decodePayload "HELLO") [[0x68, 0x69], [0x0a, 0x0c, 0x00]]
      (greeted.drop 5) = .found 3 helloFrame := by
  have hfind : findHelloFrame (isHello decodePayload "HELLO") greeted = some 3 := by
    decide +kernel
  obtain ⟨⟨e, h⟩, hfirst⟩ := findHelloFrame_eq_some_iff.mp hfind
  have hread : readUInt32LE (greeted.drop 3) = 12 := by decide
  have he : e = 19 := by
    rw [h.stop, hread]
    rfl
  subst he
  have honly : ∀ s < 15, startsHello (isHello decodePayload "HELLO") greeted s = true → s = 3 := by
    decide +kernel
  have hends : ∀ s' e', HelloAt (isHello decodePayload "HELLO") greeted s' e' → 3 ≤ s' ∧ 19 ≤ e' := by
    intro s' e' h'
    have hstart : s' + 5 ≤ 19 := h'.start_le
    obtain rfl := honly s' (by omega) ((startsHello_iff h'.start).mpr ⟨e', h'⟩)
    refine ⟨Nat.le_refl 3, ?_⟩
    rw [h'.stop, hread]
    decide
  obtain ⟨hwaits, hfound⟩ := (seek_reports_hello decodePayload "HELLO").1
    [[0x68, 0x69], [0x0a, 0x0c, 0x00]] (greeted.drop 5) [] 3 19 h hends (by decide) (by decide)
  exact ⟨hwaits [[0x68, 0x69]] [0x0a, 0x0c, 0x00] [] rfl, hfound⟩

/-- **Two cuts of one stream, two answers.**  The HELLO at the start of the stream is the first to
begin, and a push that ends inside it finds the one in its field. -/
theorem chunks_decide :
    (∃ e, HelloAt (isHello decodePayload "HELLO") outerFrame 0 e) ∧
    HelloSeeker.answer (isHello decodePayload "HELLO") [] outerFrame = .found 0 outerFrame ∧
    HelloSeeker.answer (isHello decodePayload "HELLO") [] (outerFrame.take 39) =
      .found 23 helloFrame := by
  have hfind : findHelloFrame (isHello decodePayload "HELLO") outerFrame = some 0 := by
    decide +kernel
  refine ⟨(findHelloFrame_eq_some_iff.mp hfind).1, ?_, ?_⟩
  · decide +kernel
  · decide +kernel

end Lasterm.Wire
