import Mathlib.Data.List.Forall2
import Mathlib.Data.List.SplitOn

/-!
# Directories that a shell reports

A terminal's directory comes in an OSC sequence: percent-encoded in OSC 7, with VS Code's escapes in
OSC 633.  Two loops by index decode them, which push one byte a turn and pass one or more.

## Main definitions

* `decodeFrom`: the loop of both, by what tells an escape and its length.
* `percentDecoded`, `unescaped`: the two decoders.
* `percentRead`, `vscodeRead`: what an escape is, and that the rest is kept.
* `Signed`: a value with a sign where an escape has its first digit.
-/

namespace Lasterm.Agent.Cwd

open List

/-- Bytes as a terminal reads them. -/
abbrev Bytes := List UInt8

/-- `to_digit(16)`. -/
def toDigit (b : UInt8) : Option ℕ :=
  if 48 ≤ b ∧ b ≤ 57 then some (b.toNat - 48)
  else if 97 ≤ b ∧ b ≤ 102 then some (b.toNat - 87)
  else if 65 ≤ b ∧ b ≤ 70 then some (b.toNat - 55)
  else none

/-- The byte that two digits give. -/
def hexPair : Bytes → Option UInt8
  | [high, low] =>
    (toDigit high).bind fun h => (toDigit low).map fun l => UInt8.ofNat (h * 16 + l)
  | _ => none

/-- `u8::from_str_radix(h, 16)` of two bytes: the first can be a plus sign. -/
def fromStrRadix : Bytes → Option UInt8
  | [43, low] => (toDigit low).map UInt8.ofNat
  | h => hexPair h

/-- The loop of a decoder.  `escape` says what an escape at an index stands for, and how many more
bytes it has. -/
def decodeFrom (escape : Bytes → ℕ → Option (UInt8 × ℕ)) (bytes : Bytes) (i : ℕ) (out : Bytes) :
    Bytes :=
  if h : i < bytes.length then
    match escape bytes i with
    | some (byte, more) => decodeFrom escape bytes (i + 1 + more) (out ++ [byte])
    | none => decodeFrom escape bytes (i + 1) (out ++ [bytes[i]])
  else out
termination_by bytes.length - i

/-- A `%` and two digits. -/
def percentAt (bytes : Bytes) (i : ℕ) : Option (UInt8 × ℕ) :=
  if bytes[i]? = some 37 ∧ i + 2 < bytes.length then
    (hexPair ((bytes.drop (i + 1)).take 2)).map (·, 2)
  else none

/-- `percent_decoded`: `%` and two hexadecimal digits are a byte. -/
def percentDecoded (bytes : Bytes) : Bytes := decodeFrom percentAt bytes 0 []

/-- Two backslashes, or `\x` and the digits of a byte. -/
def backslashAt (value : Bytes) (i : ℕ) : Option (UInt8 × ℕ) :=
  if value[i]? = some 92 then
    if value[i + 1]? = some 92 then some (92, 1)
    else if value[i + 1]? = some 120 ∧ i + 3 < value.length then
      (fromStrRadix ((value.drop (i + 2)).take 2)).map (·, 3)
    else none
  else none

/-- The loop of `vscode_cwd`. -/
def unescaped (value : Bytes) : Bytes := decodeFrom backslashAt value 0 []

/-- The parameters with a `;` between each two. -/
def joined (params : List Bytes) : Bytes := [59].intercalate params

/-! ### What an escape is -/

/-- A `%` with two digits after it is a byte, all else is kept. -/
def percentRead : Bytes → Bytes
  | 37 :: high :: low :: rest =>
    match hexPair [high, low] with
    | some byte => byte :: percentRead rest
    | none => 37 :: percentRead (high :: low :: rest)
  | b :: rest => b :: percentRead rest
  | [] => []

/-- Two backslashes are one, `\x` with two digits after it is a byte, all else is kept. -/
def vscodeRead : Bytes → Bytes
  | 92 :: 92 :: rest => 92 :: vscodeRead rest
  | 92 :: 120 :: high :: low :: rest =>
    match hexPair [high, low] with
    | some byte => byte :: vscodeRead rest
    | none => 92 :: vscodeRead (120 :: high :: low :: rest)
  | b :: rest => b :: vscodeRead rest
  | [] => []

/-- A backslash that is not the second of a pair has `x`, a plus sign and a digit after it. -/
def Signed : Bytes → Prop
  | 92 :: 92 :: rest => Signed rest
  | b :: rest => (∃ low tail, b = 92 ∧ rest = 120 :: 43 :: low :: tail ∧ (toDigit low).isSome) ∨
      Signed rest
  | [] => False

/-- What a byte is in a percent-encoded text: itself, but for `%`, or an escape. -/
inductive PercentWrites : UInt8 → Bytes → Prop
  | plain {b} : b ≠ 37 → PercentWrites b [b]
  | escape {high low byte} : hexPair [high, low] = some byte →
      PercentWrites byte [37, high, low]

/-- What a byte is in a value as VS Code writes it. -/
inductive VscodeWrites : UInt8 → Bytes → Prop
  | plain {b} : b ≠ 92 → VscodeWrites b [b]
  | backslash : VscodeWrites 92 [92, 92]
  | escape {high low byte} : hexPair [high, low] = some byte →
      VscodeWrites byte [92, 120, high, low]

/-! ### What the loops read -/

variable {escape : Bytes → ℕ → Option (UInt8 × ℕ)} {b high low byte : UInt8}
  {bytes value rest out : Bytes}

/-- A loop goes on from an index as from the start of what is left. -/
theorem decodeFrom_eq (hlocal : ∀ bytes i, escape bytes i = escape (bytes.drop i) 0)
    (bytes : Bytes) (i : ℕ) (out : Bytes) :
    decodeFrom escape bytes i out = out ++ decodeFrom escape (bytes.drop i) 0 [] := by
  induction hn : bytes.length - i using Nat.strongRecOn generalizing bytes i out with
  | ind n ih =>
    rw [decodeFrom, decodeFrom.eq_def escape (bytes.drop i)]
    by_cases hi : i < bytes.length
    · rw [dif_pos hi, dif_pos (by rw [length_drop]; omega), ← hlocal]
      cases escape bytes i with
      | none =>
        rw [ih _ (by omega) bytes (i + 1) _ rfl,
          ih _ (by rw [length_drop]; omega) (bytes.drop i) (0 + 1) _ rfl, drop_drop]
        simp
      | some read =>
        dsimp only
        rw [ih _ (by omega) bytes (i + 1 + read.2) _ rfl,
          ih _ (by rw [length_drop]; omega) (bytes.drop i) (0 + 1 + read.2) _ rfl, drop_drop]
        simp [Nat.add_assoc]
    · rw [dif_neg hi, dif_neg (by rw [length_drop]; omega), append_nil]

theorem decodeFrom_nil : decodeFrom escape [] 0 [] = [] := by
  rw [decodeFrom]
  rfl

theorem decodeFrom_cons (hlocal : ∀ bytes i, escape bytes i = escape (bytes.drop i) 0) :
    decodeFrom escape (b :: rest) 0 [] = match escape (b :: rest) 0 with
      | some (byte, more) => byte :: decodeFrom escape (rest.drop more) 0 []
      | none => b :: decodeFrom escape rest 0 [] := by
  rw [decodeFrom, dif_pos (by simp)]
  cases escape (b :: rest) 0 with
  | none => exact decodeFrom_eq hlocal ..
  | some read =>
    refine (decodeFrom_eq hlocal ..).trans ?_
    rw [Nat.zero_add, Nat.add_comm, drop_succ_cons]
    rfl

theorem percentAt_local (bytes : Bytes) (i : ℕ) :
    percentAt bytes i = percentAt (bytes.drop i) 0 := by
  have hlen : i + 2 < bytes.length ↔ 0 + 2 < bytes.length - i := by omega
  simp only [percentAt, getElem?_drop, length_drop, drop_drop, Nat.add_zero, hlen, Nat.zero_add]

theorem backslashAt_local (value : Bytes) (i : ℕ) :
    backslashAt value i = backslashAt (value.drop i) 0 := by
  have hlen : i + 3 < value.length ↔ 0 + 3 < value.length - i := by omega
  simp only [backslashAt, getElem?_drop, length_drop, drop_drop, Nat.add_zero, hlen, Nat.zero_add]

theorem percentDecoded_escape (h : hexPair [high, low] = some byte) :
    percentDecoded (37 :: high :: low :: rest) = byte :: percentDecoded rest := by
  rw [percentDecoded, decodeFrom_cons percentAt_local]
  simp [percentAt, h, percentDecoded]

theorem percentDecoded_kept
    (h : ∀ high low tail, b = 37 → rest = high :: low :: tail → hexPair [high, low] = none) :
    percentDecoded (b :: rest) = b :: percentDecoded rest := by
  have hnone : percentAt (b :: rest) 0 = none := by
    unfold percentAt
    split
    · next hat =>
      obtain ⟨hb, hlen⟩ := hat
      match rest, hlen with
      | high :: low :: tail, _ => simp [h high low tail (by simpa using hb) rfl]
    · rfl
  rw [percentDecoded, decodeFrom_cons percentAt_local, hnone]
  rfl

theorem unescaped_backslash : unescaped (92 :: 92 :: rest) = 92 :: unescaped rest := by
  rw [unescaped, decodeFrom_cons backslashAt_local]
  simp [backslashAt, unescaped]

theorem unescaped_escape (h : fromStrRadix [high, low] = some byte) :
    unescaped (92 :: 120 :: high :: low :: rest) = byte :: unescaped rest := by
  rw [unescaped, decodeFrom_cons backslashAt_local]
  simp [backslashAt, h, unescaped]

theorem unescaped_kept (hpair : b = 92 → rest.head? ≠ some 92)
    (h : ∀ high low tail, b = 92 → rest = 120 :: high :: low :: tail →
      fromStrRadix [high, low] = none) :
    unescaped (b :: rest) = b :: unescaped rest := by
  have hnone : backslashAt (b :: rest) 0 = none := by
    unfold backslashAt
    split
    · next hb =>
      have hback : b = 92 := by simpa using hb
      rw [if_neg (by simpa [head?_eq_getElem?] using hpair hback)]
      split
      · next hat =>
        obtain ⟨hx, hlen⟩ := hat
        match rest, hlen with
        | x :: high :: low :: tail, _ =>
          obtain rfl : x = 120 := by simpa using hx
          simp [h high low tail hback rfl]
      · rfl
    · rfl
  rw [unescaped, decodeFrom_cons backslashAt_local, hnone]
  rfl

theorem fromStrRadix_of_hexPair (h : hexPair [high, low] = some byte) :
    fromStrRadix [high, low] = some byte := by
  have hsign : high ≠ 43 := by
    rintro rfl
    cases h
  rw [fromStrRadix, h]
  rintro low ⟨⟩
  exact hsign rfl

/-- The two readings of two digits differ at a plus sign only. -/
theorem fromStrRadix_of_none (h : hexPair [high, low] = none) :
    fromStrRadix [high, low] = none ∨ high = 43 ∧ (toDigit low).isSome := by
  by_cases hsign : high = 43
  · subst hsign
    cases hlow : toDigit low with
    | none => exact .inl (by rw [fromStrRadix, hlow]; rfl)
    | some l => exact .inr ⟨rfl, rfl⟩
  · refine .inl (Eq.trans (fromStrRadix.eq_2 _ ?_) h)
    rintro low ⟨⟩
    exact hsign rfl

/-! ### The decoders -/

theorem percentDecoded_eq (bytes : Bytes) : percentDecoded bytes = percentRead bytes := by
  fun_induction percentRead bytes with
  | case1 high low rest byte hpair ih => rw [percentDecoded_escape hpair, ih]
  | case2 high low rest hpair ih =>
    rw [percentDecoded_kept, ih]
    rintro _ _ _ - ⟨⟩
    exact hpair
  | case3 b rest hother ih =>
    rw [percentDecoded_kept fun high low tail hb hrest => (hother high low tail hb hrest).elim, ih]
  | case4 => exact decodeFrom_nil

theorem percentDecoded_written {bytes : Bytes} {parts : List Bytes}
    (h : Forall₂ PercentWrites bytes parts) : percentDecoded parts.flatten = bytes := by
  induction h with
  | nil => exact decodeFrom_nil
  | cons hpart _ ih =>
    cases hpart with
    | plain hb => exact (percentDecoded_kept fun _ _ _ h => absurd h hb).trans (congrArg _ ih)
    | escape hpair => exact (percentDecoded_escape hpair).trans (congrArg _ ih)

theorem unescaped_written {bytes : Bytes} {parts : List Bytes}
    (h : Forall₂ VscodeWrites bytes parts) : unescaped parts.flatten = bytes := by
  induction h with
  | nil => exact decodeFrom_nil
  | cons hpart _ ih =>
    cases hpart with
    | plain hb =>
      exact (unescaped_kept (absurd · hb) fun _ _ _ h => absurd h hb).trans (congrArg _ ih)
    | backslash => exact unescaped_backslash.trans (congrArg _ ih)
    | escape hpair =>
      exact (unescaped_escape (fromStrRadix_of_hexPair hpair)).trans (congrArg _ ih)

theorem signed_cons (h : b = 92 → rest.head? ≠ some 92) :
    Signed (b :: rest) ↔ (∃ low tail, b = 92 ∧ rest = 120 :: 43 :: low :: tail ∧
      (toDigit low).isSome) ∨ Signed rest := by
  rw [Signed]
  rintro tail rfl rfl
  exact h rfl rfl

theorem signed_plain (h : b ≠ 92) : Signed (b :: rest) ↔ Signed rest := by
  rw [signed_cons (absurd · h), or_iff_right]
  rintro ⟨_, _, rfl, -⟩
  exact h rfl

theorem unescaped_plain (h : b ≠ 92) : unescaped (b :: rest) = b :: unescaped rest :=
  unescaped_kept (absurd · h) fun _ _ _ hb => absurd hb h

theorem ne_backslash_of_hexPair (h : hexPair [high, low] = some byte) : high ≠ 92 ∧ low ≠ 92 := by
  constructor
  · rintro rfl
    cases h
  · rintro rfl
    simp [hexPair, toDigit] at h

/-- Without a sign the two readings agree, and with one the loop's is shorter. -/
theorem unescaped_spec (value : Bytes) :
    (¬Signed value → unescaped value = vscodeRead value) ∧
      (unescaped value).length ≤ (vscodeRead value).length ∧
      (Signed value → (unescaped value).length < (vscodeRead value).length) := by
  have hkept : ∀ {b : UInt8} {rest : Bytes}, (b = 92 → rest.head? ≠ some 92) →
      (∀ high low tail, b = 92 → rest = 120 :: high :: low :: tail →
        hexPair [high, low] = none) →
      ((¬Signed rest → unescaped rest = vscodeRead rest) ∧
        (unescaped rest).length ≤ (vscodeRead rest).length ∧
        (Signed rest → (unescaped rest).length < (vscodeRead rest).length)) →
      (¬Signed (b :: rest) → unescaped (b :: rest) = b :: vscodeRead rest) ∧
        (unescaped (b :: rest)).length ≤ (b :: vscodeRead rest).length ∧
        (Signed (b :: rest) → (unescaped (b :: rest)).length < (b :: vscodeRead rest).length) := by
    intro b rest hback hnone ih
    rw [signed_cons hback]
    by_cases hsigned : ∃ low tail, b = 92 ∧ rest = 120 :: 43 :: low :: tail ∧
        (toDigit low).isSome
    · obtain ⟨low, tail, rfl, rfl, hlow⟩ := hsigned
      obtain ⟨l, hlow⟩ := Option.isSome_iff_exists.mp hlow
      have hread : fromStrRadix [43, low] = some (UInt8.ofNat l) := by rw [fromStrRadix, hlow]; rfl
      have hplain : low ≠ 92 := by
        rintro rfl
        cases hlow
      have hlen := ih.2.1
      rw [unescaped_plain (by decide), unescaped_plain (by decide), unescaped_plain hplain] at hlen
      rw [unescaped_escape hread]
      refine ⟨fun h => (h (.inl ⟨low, tail, rfl, rfl, by rw [hlow]; rfl⟩)).elim, ?_, fun _ => ?_⟩
      all_goals
        simp only [length_cons] at hlen ⊢
        omega
    · rw [unescaped_kept hback fun high low tail hb hrest => ?_, or_iff_right hsigned]
      · simpa using ih
      · refine (fromStrRadix_of_none (hnone high low tail hb hrest)).resolve_right ?_
        rintro ⟨rfl, hlow⟩
        exact hsigned ⟨low, tail, hb, hrest, hlow⟩
  fun_induction vscodeRead value with
  | case1 rest ih => simpa [unescaped_backslash, Signed] using ih
  | case2 high low rest byte hpair ih =>
    obtain ⟨hhigh, hlow⟩ := ne_backslash_of_hexPair hpair
    have hsign : ¬∃ low' tail, (92 : UInt8) = 92 ∧ 120 :: high :: low :: rest =
        120 :: 43 :: low' :: tail ∧ (toDigit low').isSome := by
      rintro ⟨_, _, -, heq, -⟩
      obtain ⟨rfl, -⟩ : high = 43 ∧ _ := by simpa using heq
      cases hpair
    rw [unescaped_escape (fromStrRadix_of_hexPair hpair), signed_cons (by simp),
      or_iff_right hsign, signed_plain (by decide), signed_plain hhigh, signed_plain hlow]
    simpa using ih
  | case3 high low rest hpair ih =>
    refine hkept (by simp) ?_ ih
    rintro _ _ _ - ⟨⟩
    exact hpair
  | case4 b rest hother hescape ih =>
    refine hkept (fun hb hhead => ?_) (fun high low tail hb hrest => ?_) ih
    · obtain ⟨tail, rfl⟩ := head?_eq_some_iff.mp hhead
      exact hother tail hb rfl
    · exact (hescape high low tail hb hrest).elim
  | case5 => exact ⟨fun _ => decodeFrom_nil, Nat.le_of_eq (congrArg length decodeFrom_nil), False.elim⟩

/-- **Directory reports decode exactly**, but for a sign in an escape of VS Code's. -/
theorem reports_decode (value : Bytes) :
    (∀ bytes parts, Forall₂ PercentWrites bytes parts → percentDecoded parts.flatten = bytes) ∧
    (∀ bytes parts, Forall₂ VscodeWrites bytes parts → unescaped parts.flatten = bytes) ∧
    (∀ bytes, percentDecoded bytes = percentRead bytes) ∧
    (∀ path : Bytes, joined (path.splitOn 59) = path) ∧
    (unescaped value = vscodeRead value ↔ ¬Signed value) := by
  refine ⟨fun _ _ => percentDecoded_written, fun _ _ => unescaped_written, percentDecoded_eq,
    fun _ => intercalate_splitOn _, fun heq hsigned => ?_, (unescaped_spec value).1⟩
  exact absurd (congrArg length heq) (Nat.ne_of_lt ((unescaped_spec value).2.2 hsigned))

/-- `\x+f` is read as the byte 15. -/
theorem sign_read_as_digit :
    unescaped [92, 120, 43, 102] = [15] ∧ vscodeRead [92, 120, 43, 102] = [92, 120, 43, 102] :=
  ⟨(unescaped_escape rfl).trans (congrArg _ decodeFrom_nil), by decide⟩

end Lasterm.Agent.Cwd
