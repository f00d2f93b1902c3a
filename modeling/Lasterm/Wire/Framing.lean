import Lasterm.Lib.Frames
import Mathlib.Tactic.NormNum

/-!
# Length-prefixed frames

A message on a stdio stream is a frame: the length of its payload in four bytes, least
significant first, then the payload (`framing.ts` on the hub's side, `framing.rs` on the
agent's).  What the MessagePack libraries make of a payload is the parameter `decode`, and what
they make of a message `encode`.

The two readers differ in what they do with a payload that does not decode.  The hub's
throws, and leaves the frame where it is; the agent's puts an INVALID_MESSAGE in its place
and goes on.

## Main results

* `frames_of_any_cut` — frames are read as their messages, however the stream is cut.
* `readers_agree_on_what_decodes` — where the two readers agree.
-/

namespace Lasterm.Wire

open Frames List

/-! ### The prefix -/

/-- `LENGTH_PREFIX_BYTES`. -/
def lengthPrefixBytes : ℕ := 4

/-- `MAX_FRAME_SIZE`, the same on both sides. -/
def maxFrameSize : ℕ := 10 * 1024 * 1024

/-- `readUInt32LE(0)`, `u32::from_le_bytes`. -/
def readUInt32LE : List UInt8 → ℕ
  | b₀ :: b₁ :: b₂ :: b₃ :: _ =>
    b₀.toNat + 256 * b₁.toNat + 65536 * b₂.toNat + 16777216 * b₃.toNat
  | _ => 0

/-- `setUint32(0, n, true)`, `(n as u32).to_le_bytes()`: what does not fit 32 bits is cut off. -/
def uint32LE (n : ℕ) : List UInt8 :=
  [.ofNat n, .ofNat (n / 256), .ofNat (n / 65536), .ofNat (n / 16777216)]

theorem length_uint32LE (n : ℕ) : (uint32LE n).length = lengthPrefixBytes := rfl

theorem readUInt32LE_uint32LE (n : ℕ) (x : List UInt8) :
    readUInt32LE (uint32LE n ++ x) = n % 2 ^ 32 := by
  simp only [uint32LE, cons_append, readUInt32LE, UInt8.toNat_ofNat']
  omega

theorem readUInt32LE_append {l : List UInt8} (h : lengthPrefixBytes ≤ l.length) (x : List UInt8) :
    readUInt32LE (l ++ x) = readUInt32LE l := by
  match l with
  | _ :: _ :: _ :: _ :: _ => rfl
  | [] | [_] | [_, _] | [_, _, _] => simp [lengthPrefixBytes] at h

/-! ### The hub's side -/

/-- Why a push throws. -/
inductive FrameError (δ : Type)
  | tooLarge (payloadLength : ℕ)
  /-- What `decodeMessage` threw. -/
  | undecodable (e : δ)
  deriving DecidableEq

section Codec

variable {μ δ : Type} (encode : μ → List UInt8) (decode : List UInt8 → Except δ μ)

/-- `encodeFrame`: a payload past the limit is a RangeError, with its length. -/
def encodeFrame (message : μ) : Except ℕ (List UInt8) :=
  let payload := encode message
  if maxFrameSize < payload.length then .error payload.length
  else .ok (uint32LE payload.length ++ payload)

/-- A turn of the loop of `FrameReader.push`. -/
def front (buffer : List UInt8) : Front μ (FrameError δ) :=
  if buffer.length < lengthPrefixBytes then .more
  else
    let payloadLength := readUInt32LE buffer
    if maxFrameSize < payloadLength then .bad (.tooLarge payloadLength)
    else
      let totalLength := lengthPrefixBytes + payloadLength
      if buffer.length < totalLength then .more
      else
        match decode ((buffer.take totalLength).drop lengthPrefixBytes) with
        | .ok message => .frame message totalLength
        | .error e => .bad (.undecodable e)

/-- A reader of frames, with the bytes it has not used. -/
structure FrameReader where
  buffer : List UInt8

/-- `new FrameReader()`. -/
def FrameReader.new : FrameReader := ⟨[]⟩

/-- `FrameReader.push`: the messages, or what it throws, and the reader after. -/
def FrameReader.push (r : FrameReader) (data : List UInt8) :
    Except (FrameError δ) (List μ) × FrameReader :=
  let p := Frames.push (front decode) r.buffer data
  (p.1, ⟨p.2⟩)

/-- Every chunk is pushed in turn: what each push comes to, and the reader at the end. -/
def FrameReader.pushAll (r : FrameReader) (chunks : List (List UInt8)) :
    List (Except (FrameError δ) (List μ)) × FrameReader :=
  match chunks with
  | [] => ([], r)
  | c :: cs =>
    let p := r.push decode c
    let rest := p.2.pushAll cs
    (p.1 :: rest.1, rest.2)

theorem FrameReader.pushAll_eq (chunks : List (List UInt8)) (r : FrameReader) :
    r.pushAll decode chunks =
      ((Frames.pushAll (front decode) r.buffer chunks).1,
        ⟨(Frames.pushAll (front decode) r.buffer chunks).2⟩) := by
  induction chunks generalizing r with
  | nil => rfl
  | cons c cs ih =>
    simp only [FrameReader.pushAll, Frames.pushAll, FrameReader.push, ih]

end Codec

/-- Bytes a reader waits with: no whole prefix, or a prefix within the limit and not its whole
payload. -/
def Incomplete (l : List UInt8) : Prop :=
  l.length < lengthPrefixBytes ∨
    (readUInt32LE l ≤ maxFrameSize ∧ l.length < lengthPrefixBytes + readUInt32LE l)

/-- The bytes at which a reader knows a frame to be bad: a prefix past the limit, or a whole
frame whose payload does not decode. -/
def BadFrame {μ δ : Type} (decode : List UInt8 → Except δ μ) (w : List UInt8) : Prop :=
  (w.length = lengthPrefixBytes ∧ maxFrameSize < readUInt32LE w) ∨
    (readUInt32LE w ≤ maxFrameSize ∧ w.length = lengthPrefixBytes + readUInt32LE w ∧
      ∃ e, decode (w.drop lengthPrefixBytes) = .error e)

section Reading

variable {μ δ : Type} {encode : μ → List UInt8} {decode : List UInt8 → Except δ μ}

theorem front_eq (decode : List UInt8 → Except δ μ) (l : List UInt8) :
    (Incomplete l ∧ front decode l = .more) ∨
    (lengthPrefixBytes ≤ l.length ∧ maxFrameSize < readUInt32LE l ∧
      front decode l = .bad (.tooLarge (readUInt32LE l))) ∨
    (readUInt32LE l ≤ maxFrameSize ∧ lengthPrefixBytes + readUInt32LE l ≤ l.length ∧
      front decode l =
        match decode ((l.take (lengthPrefixBytes + readUInt32LE l)).drop lengthPrefixBytes) with
        | .ok message => .frame message (lengthPrefixBytes + readUInt32LE l)
        | .error e => .bad (.undecodable e)) := by
  unfold front Incomplete
  by_cases hprefix : l.length < lengthPrefixBytes
  · exact .inl ⟨.inl hprefix, if_pos hprefix⟩
  rw [if_neg hprefix]
  by_cases hlarge : maxFrameSize < readUInt32LE l
  · exact .inr (.inl ⟨by omega, hlarge, if_pos hlarge⟩)
  rw [if_neg hlarge]
  by_cases hshort : l.length < lengthPrefixBytes + readUInt32LE l
  · exact .inl ⟨.inr ⟨by omega, hshort⟩, if_pos hshort⟩
  · exact .inr (.inr ⟨by omega, by omega, if_neg hshort⟩)

theorem front_of_incomplete {l : List UInt8} (h : Incomplete l) : front decode l = .more := by
  rcases front_eq decode l with ⟨-, hl⟩ | ⟨hle, hlarge, -⟩ | ⟨hle, htotal, -⟩
  · exact hl
  · rcases h with h | ⟨h, -⟩ <;> omega
  · rcases h with h | ⟨-, h⟩ <;> omega

theorem lawful_front (decode : List UInt8 → Except δ μ) : Lawful (front decode) := by
  have hframe : ∀ l m n, front decode l = .frame m n → readUInt32LE l ≤ maxFrameSize ∧
      n = lengthPrefixBytes + readUInt32LE l ∧ n ≤ l.length ∧
      decode ((l.take n).drop lengthPrefixBytes) = .ok m := by
    intro l m n hl
    rcases front_eq decode l with ⟨-, hl'⟩ | ⟨-, -, hl'⟩ | ⟨hsize, hle, hl'⟩
    · rw [hl'] at hl
      cases hl
    · rw [hl'] at hl
      cases hl
    · rw [hl'] at hl
      split at hl
      · next m' hm' =>
        obtain ⟨rfl, rfl⟩ : m' = m ∧ lengthPrefixBytes + readUInt32LE l = n := by simpa using hl
        exact ⟨hsize, rfl, hle, hm'⟩
      · cases hl
  refine ⟨?_, ?_, ?_, ?_, ?_⟩
  · intro l m n hl
    obtain ⟨-, hn, -⟩ := hframe l m n hl
    unfold lengthPrefixBytes at hn
    omega
  · intro l m n hl
    exact (hframe l m n hl).2.2.1
  · intro l m n x hl
    obtain ⟨hsize, hn, hle, hm⟩ := hframe l m n hl
    have hread := readUInt32LE_append (l := l) (by omega) x
    rcases front_eq decode (l ++ x) with ⟨hinc, -⟩ | ⟨-, hlarge, -⟩ | ⟨-, -, hl'⟩
    · rcases hinc with h | ⟨-, h⟩
      · rw [length_append] at h
        omega
      · rw [length_append, hread] at h
        omega
    · rw [hread] at hlarge
      omega
    · rw [hl', hread, ← hn, take_append_of_le_length hle, hm]
  · intro l m n x hl hlt
    obtain ⟨hsize, hn, -⟩ := hframe _ m n hl
    refine front_of_incomplete ?_
    by_cases hprefix : l.length < lengthPrefixBytes
    · exact .inl hprefix
    · rw [readUInt32LE_append (by omega)] at hsize hn
      exact .inr ⟨hsize, by omega⟩
  · intro l e x hl
    rcases front_eq decode l with ⟨-, hl'⟩ | ⟨hle, hlarge, hl'⟩ | ⟨hsize, hle, hl'⟩
    · rw [hl'] at hl
      cases hl
    · have hread := readUInt32LE_append hle x
      rcases front_eq decode (l ++ x) with ⟨hinc, -⟩ | ⟨-, -, hbad⟩ | ⟨hsize, -⟩
      · rcases hinc with h | ⟨h, -⟩
        · rw [length_append] at h
          omega
        · rw [hread] at h
          omega
      · rw [hbad, hread, ← hl', hl]
      · rw [hread] at hsize
        omega
    · have hread := readUInt32LE_append (l := l) (by omega) x
      rcases front_eq decode (l ++ x) with ⟨hinc, -⟩ | ⟨-, hlarge, -⟩ | ⟨-, -, hbad⟩
      · rcases hinc with h | ⟨-, h⟩
        · rw [length_append] at h
          omega
        · rw [length_append, hread] at h
          omega
      · rw [hread] at hlarge
        omega
      · rw [hbad, hread, take_append_of_le_length hle, ← hl', hl]

theorem badAt_of_badFrame {w : List UInt8} (h : BadFrame decode w) :
    ∃ e, BadAt (front decode) w e := by
  rcases h with ⟨hlen, hlarge⟩ | ⟨hsize, hlen, e, he⟩
  · refine ⟨.tooLarge (readUInt32LE w), ?_, ?_⟩
    · rcases front_eq decode w with ⟨hinc, -⟩ | ⟨-, -, hbad⟩ | ⟨hsize, -⟩
      · rcases hinc with h | ⟨h, -⟩ <;> omega
      · exact hbad
      · omega
    · rintro l x rfl hx
      refine front_of_incomplete (.inl ?_)
      have hpos := length_pos_iff.mpr hx
      rw [length_append] at hlen
      omega
  · refine ⟨.undecodable e, ?_, ?_⟩
    · rcases front_eq decode w with ⟨hinc, -⟩ | ⟨-, hlarge, -⟩ | ⟨-, -, hbad⟩
      · rcases hinc with h | ⟨-, h⟩ <;> omega
      · omega
      · rw [hbad, ← hlen, take_length, he]
    · rintro l x rfl hx
      have hpos := length_pos_iff.mpr hx
      rw [length_append] at hlen
      refine front_of_incomplete ?_
      by_cases hprefix : l.length < lengthPrefixBytes
      · exact .inl hprefix
      · rw [readUInt32LE_append (by omega)] at hsize hlen
        exact .inr ⟨hsize, by omega⟩

theorem front_encodeFrame (hcodec : ∀ m, decode (encode m) = .ok m) {m : μ} {w : List UInt8}
    (h : encodeFrame encode m = .ok w) : front decode w = .frame m w.length := by
  unfold encodeFrame at h
  dsimp only at h
  split at h
  · cases h
  · next hsize =>
    cases h
    have hfit : (encode m).length % 2 ^ 32 = (encode m).length := by
      refine Nat.mod_eq_of_lt ?_
      unfold maxFrameSize at hsize
      omega
    have hread := readUInt32LE_uint32LE (encode m).length (encode m)
    rw [hfit] at hread
    have hlen : (uint32LE (encode m).length ++ encode m).length =
        lengthPrefixBytes + (encode m).length := by
      rw [length_append, length_uint32LE]
    rcases front_eq decode (uint32LE (encode m).length ++ encode m) with
      ⟨hinc, -⟩ | ⟨-, hlarge, -⟩ | ⟨-, -, hl⟩
    · rcases hinc with h | ⟨-, h⟩ <;> omega
    · omega
    · have hpayload : (uint32LE (encode m).length ++ encode m).drop lengthPrefixBytes =
          encode m := drop_left' (length_uint32LE _)
      rw [hl, hread, ← hlen, take_length, hpayload, hcodec]

theorem whole_encodeFrame (hcodec : ∀ m, decode (encode m) = .ok m) {ms : List μ}
    {frames : List (List UInt8)} (h : ms.mapM (encodeFrame encode) = .ok frames) :
    Whole (front decode) ms frames.flatten := by
  induction ms generalizing frames with
  | nil =>
    cases h
    exact .nil
  | cons m ms ih =>
    rw [mapM_cons] at h
    cases hw : encodeFrame encode m with
    | error n =>
      rw [hw] at h
      cases h
    | ok w =>
      rw [hw] at h
      cases hrest : ms.mapM (encodeFrame encode) with
      | error n =>
        rw [hrest] at h
        cases h
      | ok rest =>
        rw [hrest] at h
        cases h
        exact .cons (front_encodeFrame hcodec hw) (ih hrest)

end Reading

/-- **However a stream of frames is cut.**  Frames that were encoded, with an incomplete one
behind them, are read as their messages, and the incomplete one is kept.  Of a stream with a
bad frame, every message before it is given exactly when some chunk ends behind the last of
their frames and before the bad one is known. -/
theorem frames_of_any_cut {μ δ : Type} (encode : μ → List UInt8)
    (decode : List UInt8 → Except δ μ) (hcodec : ∀ m, decode (encode m) = .ok m) :
    (∀ ms frames tail chunks, ms.mapM (encodeFrame encode) = .ok frames → Incomplete tail →
      chunks.flatten = frames.flatten ++ tail →
        delivered (FrameReader.new.pushAll decode chunks).1 = ms ∧
        (FrameReader.new.pushAll decode chunks).2 = ⟨tail⟩ ∧
        ∀ o ∈ (FrameReader.new.pushAll decode chunks).1, ∃ ms, o = .ok ms) ∧
    (∀ ms good w rest chunks, Whole (front decode) ms good → BadFrame decode w →
      chunks.flatten = good ++ (w ++ rest) →
        (delivered (FrameReader.new.pushAll decode chunks).1 = ms ↔
          ∃ k, good.length ≤ (chunks.take k).flatten.length ∧
            (chunks.take k).flatten.length < good.length + w.length)) := by
  have hf : Lawful (front decode) := lawful_front decode
  have hnew : front decode FrameReader.new.buffer = .more := rfl
  refine ⟨?_, ?_⟩
  · intro ms frames tail chunks hframes htail hchunks
    have hwhole := whole_encodeFrame hcodec hframes
    have hdrain : drain (front decode) (FrameReader.new.buffer ++ chunks.flatten) =
        ⟨ms, tail, none⟩ := by
      have hnil : FrameReader.new.buffer ++ chunks.flatten = frames.flatten ++ tail := hchunks
      rw [hnil, drain_whole hf hwhole, drain_more (front_of_incomplete htail), append_nil]
    obtain ⟨hmessages, hrest, hok⟩ :=
      pushAll_of_drain hf chunks FrameReader.new.buffer hnew (by rw [hdrain])
    rw [FrameReader.pushAll_eq]
    rw [hdrain] at hmessages hrest
    exact ⟨hmessages, congrArg FrameReader.mk hrest, hok⟩
  · intro ms good w rest chunks hgood hbad hchunks
    obtain ⟨e, hw⟩ := badAt_of_badFrame hbad
    rw [FrameReader.pushAll_eq]
    exact delivered_of_bad hf hw chunks hgood hnew hchunks

/-- Two messages: a HEARTBEAT_ACK without a time, and an ERROR that says INVALID_MESSAGE. -/
inductive Sample
  | ack
  | invalid
  deriving DecidableEq

/-- Their MessagePack: maps of "type" and "ts", and of "type", "code" and "message". -/
def Sample.encode : Sample → List UInt8
  | .ack => [0x82, 0xa4, 0x74, 0x79, 0x70, 0x65, 0xad, 0x48, 0x45, 0x41, 0x52, 0x54, 0x42, 0x45,
      0x41, 0x54, 0x5f, 0x41, 0x43, 0x4b, 0xa2, 0x74, 0x73, 0xa0]
  | .invalid => [0x83, 0xa4, 0x74, 0x79, 0x70, 0x65, 0xa5, 0x45, 0x52, 0x52, 0x4f, 0x52, 0xa4, 0x63,
      0x6f, 0x64, 0x65, 0xaf, 0x49, 0x4e, 0x56, 0x41, 0x4c, 0x49, 0x44, 0x5f, 0x4d, 0x45,
      0x53, 0x53, 0x41, 0x47, 0x45, 0xa7, 0x6d, 0x65, 0x73, 0x73, 0x61, 0x67, 0x65, 0xa0]

/-- What decodes to them; any other payload is neither. -/
def Sample.decode (payload : List UInt8) : Except Unit Sample :=
  if payload = Sample.encode .ack then .ok .ack
  else if payload = Sample.encode .invalid then .ok .invalid
  else .error ()

theorem Sample.decode_encode (m : Sample) : Sample.decode m.encode = .ok m := by
  cases m with
  | ack => rfl
  | invalid => decide

/-- Two frames and the start of a third, in chunks of 1, 30 and 29 bytes. -/
theorem heartbeats_cut_in_three :
    ∃ frames, [Sample.ack, .ack].mapM (encodeFrame Sample.encode) = .ok frames ∧
      delivered (FrameReader.new.pushAll Sample.decode
        [(frames.flatten ++ [24, 0, 0]).take 1, ((frames.flatten ++ [24, 0, 0]).drop 1).take 30,
          (frames.flatten ++ [24, 0, 0]).drop 31]).1 = [.ack, .ack] := by
  obtain ⟨hcut, -⟩ := frames_of_any_cut Sample.encode Sample.decode Sample.decode_encode
  refine ⟨_, rfl, (hcut _ _ [24, 0, 0] _ rfl (.inl (by decide)) ?_).1⟩
  decide

/-- A frame and a bad prefix in one chunk: the frame's message is not given. -/
theorem frame_lost_before_a_bad_one :
    ¬∀ ms good w rest chunks, Whole (front Sample.decode) ms good →
      BadFrame Sample.decode w → chunks.flatten = good ++ (w ++ rest) →
        delivered (FrameReader.new.pushAll Sample.decode chunks).1 = ms := by
  intro h
  have hframe : encodeFrame Sample.encode .ack = .ok (uint32LE 24 ++ Sample.encode .ack) := rfl
  have hgood : Whole (front Sample.decode) [.ack]
      (uint32LE 24 ++ Sample.encode .ack ++ []) :=
    .cons (front_encodeFrame Sample.decode_encode hframe) .nil
  have hbad : BadFrame Sample.decode [255, 255, 255, 255] := .inl ⟨rfl, by decide⟩
  have hlost := h _ _ _ [] [uint32LE 24 ++ Sample.encode .ack ++ [] ++ [255, 255, 255, 255]]
    hgood hbad (by decide)
  exact absurd hlost (by decide)

/-! ### The agent's side -/

namespace Agent

variable {μ δ : Type}

/-- `encode_frame`: the length is cut to 32 bits before it is compared with the limit. -/
def encodeFrame (toVecNamed : μ → Except String (List UInt8)) (msg : μ) :
    Except String (List UInt8) :=
  match toVecNamed msg with
  | .error e => .error e
  | .ok payload =>
    let len := payload.length % 2 ^ 32
    if maxFrameSize < len then
      .error ("frame too large: " ++ toString len ++ " bytes (max " ++ toString maxFrameSize ++ ")")
    else .ok (uint32LE len ++ payload)

/-- A turn of the loop of `FrameReader::push`: a payload that does not decode becomes an
INVALID_MESSAGE, which is `invalid` of the reason. -/
def front (decode : List UInt8 → Except δ μ) (invalid : δ → μ) (buf : List UInt8) :
    Front μ String :=
  if buf.length < 4 then .more
  else
    let len := readUInt32LE buf
    if maxFrameSize < len then .bad "frame too large"
    else if buf.length < 4 + len then .more
    else
      match decode ((buf.take (4 + len)).drop 4) with
      | .ok msg => .frame msg (4 + len)
      | .error e => .frame (invalid e) (4 + len)

/-- `FrameReader::push`, chunk by chunk from a new reader. -/
def pushAll (decode : List UInt8 → Except δ μ) (invalid : δ → μ) (chunks : List (List UInt8)) :
    List (Except String (List μ)) × List UInt8 :=
  Frames.pushAll (front decode invalid) [] chunks

/-- What the agent's reader decodes: everything. -/
def decodeOr (decode : List UInt8 → Except δ μ) (invalid : δ → μ) (payload : List UInt8) :
    Except δ μ :=
  match decode payload with
  | .ok msg => .ok msg
  | .error e => .ok (invalid e)

/-- The error the agent reports, for one the hub throws. -/
def report : FrameError δ → String
  | .tooLarge _ => "frame too large"
  | .undecodable _ => "undecodable frame"

theorem front_eq (decode : List UInt8 → Except δ μ) (invalid : δ → μ) :
    front decode invalid = fun l => (Wire.front (decodeOr decode invalid) l).mapBad report := by
  funext l
  rcases Wire.front_eq (decodeOr decode invalid) l with ⟨hinc, hl⟩ | ⟨hle, hlarge, hl⟩ |
    ⟨hsize, hle, hl⟩
  · rw [hl]
    unfold front
    rcases hinc with h | ⟨h, h'⟩
    · exact if_pos h
    · by_cases hprefix : l.length < 4
      · exact if_pos hprefix
      · rw [if_neg hprefix]
        rw [if_neg (Nat.not_lt.mpr h)]
        exact if_pos h'
  · have hfour : ¬l.length < 4 := Nat.not_lt.mpr hle
    rw [hl]
    unfold front
    rw [if_neg hfour]
    exact if_pos hlarge
  · have htotal : ¬l.length < 4 + readUInt32LE l := Nat.not_lt.mpr hle
    have hfour : ¬l.length < 4 := by omega
    rw [hl]
    unfold front
    rw [if_neg hfour]
    rw [if_neg (Nat.not_lt.mpr hsize), if_neg htotal]
    unfold decodeOr lengthPrefixBytes
    cases decode ((l.take (4 + readUInt32LE l)).drop 4) <;> rfl

theorem front_decodeOr (decode : List UInt8 → Except δ μ) (invalid : δ → μ) (l : List UInt8)
    (h : ∀ e, Wire.front decode l = .bad e → ∃ n, e = .tooLarge n) :
    Wire.front (decodeOr decode invalid) l = Wire.front decode l := by
  have hor : ∀ payload m, decode payload = .ok m → decodeOr decode invalid payload = .ok m := by
    intro payload m hm
    unfold decodeOr
    rw [hm]
  unfold Wire.front at h ⊢
  dsimp only at h ⊢
  split
  · rfl
  · next hprefix =>
    rw [if_neg hprefix] at h
    split
    · rfl
    · next hlarge =>
      rw [if_neg hlarge] at h
      split
      · rfl
      · next hshort =>
        rw [if_neg hshort] at h
        cases hm : decode ((l.take (lengthPrefixBytes + readUInt32LE l)).drop lengthPrefixBytes)
          with
        | ok m => rw [hor _ m hm]
        | error e =>
          rw [hm] at h
          obtain ⟨n, hn⟩ := h _ rfl
          cases hn

end Agent

theorem pushAll_after_error {μ ε : Type} {front : List UInt8 → Front μ ε} (hf : Lawful front)
    (buffer c : List UInt8) (cs : List (List UInt8)) {e : ε}
    (h : (push front buffer c).1 = .error e) :
    (pushAll front (push front buffer c).2 cs).1 = cs.map fun _ => .error e := by
  have herror : (drain front (buffer ++ c)).error = some e := by
    unfold push at h
    dsimp only at h
    split at h
    · next e' he' =>
      cases h
      exact he'
    · cases h
  refine pushAll_of_bad hf cs ?_
  have hrest := front_rest hf (buffer ++ c)
  rw [herror] at hrest
  exact hrest

/-- **Where the two readers agree.**  The agent's reader is the hub's, with an INVALID_MESSAGE
for every payload that does not decode; so as long as the hub's meets no such payload, every
push gives the same messages or reports the same over-long frame, with the same bytes kept.
A push that throws is the last that gives anything.  What either side encodes has the length
of its payload before it, for every payload the agent can have of less than 4 GiB. -/
theorem readers_agree_on_what_decodes {μ δ : Type} (decode : List UInt8 → Except δ μ)
    (invalid : δ → μ) (encode : μ → List UInt8) (toVecNamed : μ → Except String (List UInt8)) :
    (∀ chunks, Agent.pushAll decode invalid chunks =
      ((FrameReader.new.pushAll (Agent.decodeOr decode invalid) chunks).1.map
          (·.mapError Agent.report),
        (FrameReader.new.pushAll (Agent.decodeOr decode invalid) chunks).2.buffer)) ∧
    (∀ chunks, (∀ e, .error (.undecodable e) ∉ (FrameReader.new.pushAll decode chunks).1) →
      Agent.pushAll decode invalid chunks =
        ((FrameReader.new.pushAll decode chunks).1.map (·.mapError Agent.report),
          (FrameReader.new.pushAll decode chunks).2.buffer)) ∧
    (∀ (r : FrameReader) c cs e, (r.push decode c).1 = .error e →
      ((r.push decode c).2.pushAll decode cs).1 = cs.map fun _ => .error e) ∧
    (∀ m w, encodeFrame encode m = .ok w →
      readUInt32LE w = (encode m).length ∧ w.drop lengthPrefixBytes = encode m) ∧
    (∀ m payload w, toVecNamed m = .ok payload → payload.length < 2 ^ 32 →
      Agent.encodeFrame toVecNamed m = .ok w →
        readUInt32LE w = payload.length ∧ w.drop lengthPrefixBytes = payload) := by
  have hreader : ∀ chunks, Agent.pushAll decode invalid chunks =
      ((FrameReader.new.pushAll (Agent.decodeOr decode invalid) chunks).1.map
          (·.mapError Agent.report),
        (FrameReader.new.pushAll (Agent.decodeOr decode invalid) chunks).2.buffer) := by
    intro chunks
    unfold Agent.pushAll
    rw [Agent.front_eq, pushAll_mapBad, FrameReader.pushAll_eq]
    rfl
  have hfits : ∀ payload : List UInt8, payload.length < 2 ^ 32 →
      readUInt32LE (uint32LE payload.length ++ payload) = payload.length := by
    intro payload hlt
    rw [readUInt32LE_uint32LE, Nat.mod_eq_of_lt hlt]
  refine ⟨hreader, ?_, ?_, ?_, ?_⟩
  · intro chunks hdecodes
    rw [FrameReader.pushAll_eq] at hdecodes
    have hsame := pushAll_congr (Agent.front_decodeOr decode invalid) chunks FrameReader.new.buffer
      (by
        intro e he
        cases e with
        | tooLarge n => exact ⟨n, rfl⟩
        | undecodable e => exact absurd he (hdecodes e))
    rw [hreader, FrameReader.pushAll_eq, FrameReader.pushAll_eq, hsame]
  · intro r c cs e he
    rw [FrameReader.pushAll_eq]
    exact pushAll_after_error (lawful_front decode) r.buffer c cs he
  · intro m w hw
    unfold encodeFrame at hw
    dsimp only at hw
    split at hw
    · exact nomatch hw
    · next hsize =>
      obtain ⟨rfl⟩ := hw
      refine ⟨hfits _ ?_, drop_left' (length_uint32LE _)⟩
      unfold maxFrameSize at hsize
      omega
  · intro m payload w hpayload hlt hw
    unfold Agent.encodeFrame at hw
    rw [hpayload] at hw
    dsimp only at hw
    rw [Nat.mod_eq_of_lt hlt] at hw
    split at hw
    · exact nomatch hw
    · obtain ⟨rfl⟩ := hw
      exact ⟨hfits payload hlt, drop_left' (length_uint32LE _)⟩

/-- A frame that decodes and the prefix of one that is too long, in two chunks: both readers
give the message, and both report the second. -/
theorem both_readers_stop_at_an_over_long_frame :
    Agent.pushAll Sample.decode (fun _ => .invalid)
        [uint32LE 24 ++ Sample.encode .ack, [255, 255, 255, 255]] =
      ([.ok [.ack], .error "frame too large"], [255, 255, 255, 255]) := by
  obtain ⟨-, hagree, -⟩ := readers_agree_on_what_decodes Sample.decode (fun _ => .invalid)
    Sample.encode (fun m => .ok m.encode)
  refine (hagree _ ?_).trans (by decide)
  rintro ⟨⟩
  decide

/-- A payload that does not decode: the hub's reader throws, the agent's gives a message. -/
theorem readers_differ_on_an_undecodable_frame :
    ¬∀ chunks, (FrameReader.new.pushAll Sample.decode chunks).1.map Except.toOption =
      (Agent.pushAll Sample.decode (fun _ => .invalid) chunks).1.map Except.toOption := by
  intro h
  exact absurd (h [uint32LE 1 ++ [0xc1]]) (by decide)

end Lasterm.Wire
