import Lasterm.Files.HostPathLaws

/-!
# The temporaries beside a target

`tempPathFor` and `cutToBytes` (`files/upload-backend.ts`) against `TEMP_NAME`
(`transfers/transfer-service.ts`), the pattern by which a sweep knows what a hub that died has
left: a file is written to a hidden temporary in its target's folder, named after the target.

The target's name is cut to the bytes a name may have, and on a Windows host to what the path
may be long.  The pattern's dot takes every character but the ends of lines, which a name may
hold, so a temporary whose name has one is never swept.

## Main results

* `tempPathFor_found` — the temporary of every target: where it is, how long, and whether found.
* `left_unrecognised` — one that is not.
-/

namespace Lasterm.Files

open Segments List TextCoding
open Transfer.Uploads (Kind)
open Transfer.Build (Text UpperCase PathStyle joinHostPath length16 relPathProblem
  windowsNameProblem windowsForbidden maxNameBytes windowsMaxPathLength)

/-! ### The source -/

/-- The loop of `cutToBytes`: what is kept, and what is to be looked at. -/
def cutLoop (bytes : ℕ) (kept : Text) : Text → Text
  | [] => kept
  | c :: rest =>
    if bytes < (utf8.text (kept ++ [c])).length then kept else cutLoop bytes (kept ++ [c]) rest

/-- `name` cut to at most `bytes` UTF-8 bytes, at a character boundary, keeping at least one. -/
def cutToBytes (name : Text) (bytes : ℕ) : Text :=
  let kept := cutLoop bytes [] name
  if kept = [] then (if name = [] then ['x'] else name.take 1) else kept

/-- What a temporary's name ends in. -/
def partialTail : Text := ".partial".toList

/-- `TEMP_TAIL_LENGTH`. -/
def tempTailLength : ℕ := ".0123456789abcdef.partial".toList.length

/-- The name of a temporary. -/
def tempName (name random : Text) : Text := '.' :: (name ++ '.' :: (random ++ partialTail))

/-- The hidden temporary a file is written to beside its target. -/
def tempPathFor (u : UpperCase) (target : Text) (style : PathStyle) (random : Text) :
    Except String Text :=
  match parentOf target style with
  | none => .error "A root has no temporary"
  | some parent =>
    let name := cutToBytes (baseNameOf target style) (maxNameBytes - 1 - tempTailLength)
    let temp := joinHostPath u parent (tempName name random) style
    if style = .windows ∧ windowsMaxPathLength < length16 temp then
      let excess := length16 temp - windowsMaxPathLength
      let name := name.take (max 1 (name.length - excess))
      .ok (joinHostPath u parent (tempName name random) style)
    else .ok temp

/-- What the dot of a pattern does not take. -/
def lineTerminator (c : Char) : Bool :=
  c ∈ ['\n', '\r', Char.ofNat 0x2028, Char.ofNat 0x2029]

/-- `[0-9a-f]` -/
def hexDigit (c : Char) : Bool := c.isDigit || ('a' ≤ c && c ≤ 'f')

/-- `TEMP_NAME`: the last 25 characters are of one shape, and something is before them. -/
def isTempName (name : Text) : Bool :=
  let front := name.take (name.length - tempTailLength)
  let tail := name.drop (name.length - tempTailLength)
  front.head? = some '.' && front.drop 1 ≠ [] && (front.drop 1).all (!lineTerminator ·) &&
    tail.head? = some '.' && ((tail.drop 1).take 16).all hexDigit && tail.drop 17 = partialTail

/-- ` (n)` -/
def copySuffix (n : ℕ) : Text := ' ' :: '(' :: (Nat.toDigits 10 n ++ [')'])

/-- The name Keep both gives the `n`th copy. -/
def keepBothName (name : Text) (n : ℕ) (kind : Kind) : Text :=
  let dot := if kind = .file then lastIndexOf '.' name else -1
  if dot ≤ 0 then name ++ copySuffix n else sliceTo name dot ++ copySuffix n ++ sliceFrom name dot

/-! ### What the checks admit -/

/-- A name that the checks of an upload admit in an item's path, or a copy's. -/
inductive ItemName (style : PathStyle) : Text → Prop
  | own {relPath n : Text} (path : relPathProblem relPath = none) (mem : n ∈ relPath.splitOn '/')
      (windows : style = .windows → windowsNameProblem n = none) : ItemName style n
  | keptBoth {n : Text} (k : ℕ) (kind : Kind) :
      ItemName style n → ItemName style (keepBothName n k kind)

/-- The folders of an upload to `dir`, and `dir`. -/
inductive Folder (u : UpperCase) (style : PathStyle) (dir : Text) : Text → Prop
  | dest : Folder u style dir dir
  | sub {f n : Text} : Folder u style dir f → ItemName style n →
      Folder u style dir (joinHostPath u f n style)

/-- The random part of a temporary's name: eight bytes, in hexadecimal. -/
def IsRandom (random : Text) : Prop := random.length = 16 ∧ random.all hexDigit = true

instance (random : Text) : Decidable (IsRandom random) := inferInstanceAs (Decidable (_ ∧ _))

/-- The upper case of the characters of ASCII, and where a backslash comes from. -/
structure KeepsAscii (u : UpperCase) : Prop where
  ascii : ∀ c : Char, c.toNat < 128 → u.upper c = [c.toUpper]
  backslash : ∀ c : Char, '\\' ∈ u.upper c → c = '\\'

/-! ### How much is kept -/

/-- How many characters of `name` fit in `bytes`. -/
def charsWithin : ℕ → Text → ℕ
  | _, [] => 0
  | bytes, c :: rest =>
    if (utf8.enc c).length ≤ bytes then charsWithin (bytes - (utf8.enc c).length) rest + 1 else 0

/-- How much longer than a Windows path may be one is whose name is `.name.random.partial` for
this part of the target's name. -/
def pathExcess (target base kept : Text) : ℕ :=
  length16 target - length16 base + (1 + tempTailLength) + length16 kept - windowsMaxPathLength

/-- How many characters of the target's name a temporary keeps. -/
def keptChars (style : PathStyle) (target : Text) : ℕ :=
  let base := baseNameOf target style
  let fit := max 1 (charsWithin (maxNameBytes - 1 - tempTailLength) base)
  match style with
  | .posix => fit
  | .windows => max 1 (fit - pathExcess target base (base.take fit))

/-- The temporary is where it is looked for, and named as it is known by. -/
structure Found (u : UpperCase) (style : PathStyle) (target random temp : Text) : Prop where
  folder : parentOf temp style = parentOf target style
  /-- Whole characters of the target's name, or, where it has none, one that stands for it. -/
  named : ∃ kept, kept ≠ [] ∧ baseNameOf temp style = tempName kept random ∧
    (kept <+: baseNameOf target style ∨ baseNameOf target style = [] ∧ kept = ['x'])
  bytes : (utf8.text (baseNameOf temp style)).length ≤ maxNameBytes
  /-- Where the folder leaves room for one character of the name. -/
  fits : style = .windows → ∀ c rest, baseNameOf target style = c :: rest →
    pathExcess target (c :: rest) [c] = 0 → length16 temp ≤ windowsMaxPathLength
  swept : ∀ dir, parentOf temp style = some dir →
    joinHostPath u dir (baseNameOf temp style) style = temp
  recognised : isTempName (baseNameOf temp style) = true

variable {style : PathStyle}

/-! ### The names the checks admit -/

variable {c : Char}

theorem windowsForbidden_of_forbids (h : windowsForbids c = true) : windowsForbidden c = true := by
  rw [windowsForbids, Bool.or_assoc, Bool.or_eq_true] at h
  rw [windowsForbidden, Bool.or_assoc, Bool.or_eq_true]
  refine h.imp (fun hc => ?_) id
  simp only [mem_cons, not_mem_nil, or_false, decide_eq_true_eq] at hc ⊢
  tauto

variable {n : Text}

theorem relPathProblem_none {relPath : Text} (h : relPathProblem relPath = none)
    (hn : n ∈ relPath.splitOn '/') :
    n ≠ [] ∧ isDots n = false ∧ Char.ofNat 0 ∉ n := by
  unfold relPathProblem at h
  split_ifs at h with _ _ hnul _ hempty hdots _
  refine ⟨fun heq => hempty (heq ▸ hn), ?_, fun h0 => hnul (mem_of_mem_splitOn hn h0)⟩
  have hnot := any_eq_false.mp (Bool.eq_false_iff.mpr hdots) n hn
  rw [isDots, Bool.or_eq_false_iff]
  simpa using hnot

theorem windowsNameProblem_none (h : windowsNameProblem n = none) :
    '\\' ∉ n ∧ n.any windowsForbids = false := by
  unfold windowsNameProblem at h
  split at h
  · cases h
  next hany =>
    have hall := any_eq_false.mp (Bool.eq_false_iff.mpr hany)
    refine ⟨fun hmem => hall _ hmem (by decide), any_eq_false.mpr fun c hc hf => ?_⟩
    exact hall c hc (windowsForbidden_of_forbids hf)

theorem mem_copySuffix {n : ℕ} (h : c ∈ copySuffix n) :
    c = ' ' ∨ c = '(' ∨ c = ')' ∨ c.isDigit = true := by
  obtain rfl | h := mem_cons.mp h
  · exact .inl rfl
  · obtain rfl | h := mem_cons.mp h
    · exact .inr (.inl rfl)
    · obtain h | h := mem_append.mp h
      · exact .inr (.inr (.inr (Nat.isDigit_of_mem_toDigits (by decide) (by decide) h)))
      · exact .inr (.inr (.inl (mem_singleton.mp h)))

theorem plain_of_mem_copySuffix {n : ℕ} (h : c ∈ copySuffix n) :
    c ≠ Char.ofNat 0 ∧ c ≠ '/' ∧ c ≠ '\\' ∧ windowsForbids c = false := by
  obtain rfl | rfl | rfl | h := mem_copySuffix h
  · decide
  · decide
  · decide
  · rw [Char.isDigit_iff_toNat] at h
    simp only [Char.reduceToNat] at h
    have hne (d : Char) (hd : d.toNat < 48 ∨ 57 < d.toNat) : c ≠ d := by
      rintro rfl
      omega
    refine ⟨hne _ (by decide), hne _ (by decide), hne _ (by decide), ?_⟩
    simp only [windowsForbids, mem_cons, not_mem_nil, or_false, Bool.or_eq_false_iff,
      decide_eq_false_iff_not, Bool.and_eq_false_iff, not_or]
    refine ⟨⟨⟨hne _ ?_, hne _ ?_, hne _ ?_, hne _ ?_, hne _ ?_, hne _ ?_, hne _ ?_⟩, ?_⟩, ?_⟩
    all_goals first | decide | omega

variable {k : ℕ}

theorem mem_keepBothName {kind : Kind}
    (h : c ∈ keepBothName n k kind) : c ∈ n ∨ c ∈ copySuffix k := by
  unfold keepBothName at h
  generalize (if kind = .file then lastIndexOf '.' n else -1) = dot at h
  dsimp only at h
  have hto (i : ℤ) (hc : c ∈ sliceTo n i) : c ∈ n := by
    unfold sliceTo at hc
    split at hc <;> exact mem_of_mem_take hc
  have hfrom (i : ℤ) (hc : c ∈ sliceFrom n i) : c ∈ n := by
    unfold sliceFrom at hc
    split at hc <;> exact mem_of_mem_drop hc
  split at h
  · exact mem_append.mp h
  · obtain h | h := mem_append.mp h
    · exact (mem_append.mp h).imp (hto _) id
    · exact .inl (hfrom _ h)

theorem copySuffix_subset (n : Text) (k : ℕ) (kind : Kind) : '(' ∈ keepBothName n k kind := by
  have hmem : '(' ∈ copySuffix k := mem_cons_of_mem _ mem_cons_self
  unfold keepBothName
  generalize (if kind = .file then lastIndexOf '.' n else -1) = dot
  dsimp only
  split
  · exact mem_append_right _ hmem
  · exact mem_append_left _ (mem_append_right _ hmem)

theorem EntryName.keepBoth (h : EntryName style n) (k : ℕ) (kind : Kind) :
    EntryName style (keepBothName n k kind) := by
  have hmem := copySuffix_subset n k kind
  refine ⟨ne_nil_of_mem hmem, ?_, fun hc => ?_, fun hc => ?_, fun hw => ⟨fun hc => ?_, ?_⟩⟩
  · rw [isDots, Bool.or_eq_false_iff]
    constructor <;>
    · refine decide_eq_false fun heq => ?_
      rw [heq] at hmem
      exact absurd hmem (by decide)
  · exact (mem_keepBothName hc).elim h.not_nul fun hc => (plain_of_mem_copySuffix hc).1 rfl
  · exact (mem_keepBothName hc).elim h.not_slash fun hc => (plain_of_mem_copySuffix hc).2.1 rfl
  · exact (mem_keepBothName hc).elim (h.windows hw).1
      fun hc => (plain_of_mem_copySuffix hc).2.2.1 rfl
  · refine any_eq_false.mpr fun c hc => ?_
    obtain hc | hc := mem_keepBothName hc
    · exact any_eq_false.mp (h.windows hw).2 c hc
    · exact Bool.eq_false_iff.mp (plain_of_mem_copySuffix hc).2.2.2

theorem ItemName.entryName (h : ItemName style n) : EntryName style n := by
  induction h with
  | own path mem windows =>
    obtain ⟨hne, hdots, hnul⟩ := relPathProblem_none path mem
    exact ⟨hne, hdots, hnul, not_mem_of_mem_splitOn mem,
      fun hw => windowsNameProblem_none (windows hw)⟩
  | keptBoth k kind _ ih => exact ih.keepBoth k kind

/-! ### Cutting to bytes -/

theorem utf8_singleton (c : Char) : utf8.text [c] = utf8.enc c := by
  rw [text_cons, text_nil, append_nil]

theorem cutLoop_eq (bytes : ℕ) (kept rest : Text) (h : (utf8.text kept).length ≤ bytes) :
    cutLoop bytes kept rest =
      kept ++ rest.take (charsWithin (bytes - (utf8.text kept).length) rest) := by
  induction rest generalizing kept with
  | nil => simp [cutLoop, charsWithin]
  | cons c rest ih =>
    have hlength : (utf8.text (kept ++ [c])).length =
        (utf8.text kept).length + (utf8.enc c).length := by
      rw [text_append, length_append, utf8_singleton]
    rw [cutLoop, charsWithin]
    by_cases hfits : (utf8.enc c).length ≤ bytes - (utf8.text kept).length
    · rw [if_neg (by omega), if_pos hfits, ih _ (by omega), hlength, take_succ_cons,
        Nat.sub_sub]
      simp
    · rw [if_pos (by omega), if_neg hfits, take_zero, append_nil]

theorem cutToBytes_eq (name : Text) (bytes : ℕ) :
    cutToBytes name bytes =
      if name = [] then ['x'] else name.take (max 1 (charsWithin bytes name)) := by
  have hloop : cutLoop bytes [] name = name.take (charsWithin bytes name) := by
    simpa using cutLoop_eq bytes [] name (Nat.zero_le _)
  rw [cutToBytes, hloop]
  by_cases hname : name = []
  · simp [hname]
  · rw [if_neg hname]
    rcases Nat.eq_zero_or_pos (charsWithin bytes name) with hzero | hpos
    · rw [hzero]
      simp [hname]
    · rw [Nat.max_eq_right hpos, if_neg]
      · rw [if_neg hname]
      · simp only [take_eq_nil_iff, not_or]
        exact ⟨Nat.ne_of_gt hpos, hname⟩

theorem charsWithin_bytes (bytes : ℕ) (name : Text) :
    (utf8.text (name.take (charsWithin bytes name))).length ≤ bytes := by
  induction name generalizing bytes with
  | nil => exact Nat.zero_le _
  | cons c rest ih =>
    rw [charsWithin]
    split
    next hfits =>
      rw [take_succ_cons, text_cons, length_append]
      have hrest := ih (bytes - (utf8.enc c).length)
      omega
    · exact Nat.zero_le _

theorem charsWithin_le (bytes : ℕ) (name : Text) : charsWithin bytes name ≤ name.length := by
  induction name generalizing bytes with
  | nil => exact Nat.le_refl 0
  | cons c rest ih =>
    rw [charsWithin]
    split
    · exact Nat.succ_le_succ (ih _)
    · exact Nat.zero_le _

theorem utf8_enc_le (c : Char) : (utf8.enc c).length ≤ 4 := by
  have hlength : (utf8.enc c).length = c.utf8Size := String.length_utf8EncodeChar c
  rw [hlength]
  exact Char.utf8Size_le_four c

variable {m : ℕ}

theorem utf8_take_le (name : Text) (h : m ≤ k) :
    (utf8.text (name.take m)).length ≤ (utf8.text (name.take k)).length := by
  have hsplit := take_append_drop m (name.take k)
  rw [take_take, Nat.min_eq_left h] at hsplit
  rw [← hsplit, text_append, length_append]
  exact Nat.le_add_right _ _

theorem kept_bytes {bytes : ℕ} (name : Text) (hbytes : 4 ≤ bytes)
    (hm : m ≤ max 1 (charsWithin bytes name)) : (utf8.text (name.take m)).length ≤ bytes := by
  rcases Nat.le_total (charsWithin bytes name) 1 with hone | hone
  · rw [Nat.max_eq_left hone] at hm
    refine (utf8_take_le name hm).trans ?_
    cases name with
    | nil => exact Nat.zero_le _
    | cons c rest =>
      rw [take_succ_cons, take_zero, utf8_singleton]
      exact (utf8_enc_le c).trans hbytes
  · rw [Nat.max_eq_right hone] at hm
    exact (utf8_take_le name hm).trans (charsWithin_bytes bytes name)

/-! ### The name of a temporary -/

theorem length_tempName (name random : Text) (h : IsRandom random) :
    (tempName name random).length = 1 + name.length + tempTailLength := by
  have htail : partialTail.length = 8 ∧ tempTailLength = 25 := by decide
  rw [tempName, length_cons, length_append, length_cons, length_append, h.1, htail.1, htail.2]
  omega

variable {random : Text}

/-- **What the pattern takes**: every temporary without the end of a line in its name. -/
theorem isTempName_tempName {name : Text} (hname : name ≠ []) (h : IsRandom random) :
    isTempName (tempName name random) = name.all (!lineTerminator ·) := by
  have hsplit : tempName name random = ('.' :: name) ++ '.' :: (random ++ partialTail) := rfl
  have hlength : (tempName name random).length - tempTailLength = ('.' :: name).length := by
    rw [length_tempName name random h, length_cons]
    omega
  rw [isTempName, hlength, hsplit, take_left, drop_left]
  have hrandom : (random ++ partialTail).take 16 = random := by
    rw [← h.1, take_left]
  have htail : (random ++ partialTail).drop 16 = partialTail := by
    rw [← h.1, drop_left]
  simp [hname, hrandom, htail, h.2]

theorem hexDigit_plain (h : hexDigit c = true) : c ≠ '/' ∧ c ≠ '\\' := by
  constructor <;>
  · rintro rfl
    exact absurd h (by decide)

theorem mem_tempName {name : Text} (h : IsRandom random)
    (hc : c = '/' ∨ c = '\\') (hmem : c ∈ tempName name random) : c ∈ name := by
  have hnot : c ≠ '.' ∧ c ∉ partialTail ∧ c ∉ random := by
    refine ⟨by rcases hc with rfl | rfl <;> decide, by rcases hc with rfl | rfl <;> decide, ?_⟩
    intro hin
    have hplain := hexDigit_plain (all_eq_true.mp h.2 c hin)
    exact hc.elim hplain.1 hplain.2
  simp only [tempName, mem_cons, mem_append] at hmem
  tauto

/-! ### Widths -/

theorem toNat_of_hexDigit (h : hexDigit c = true) : c.toNat < 128 := by
  rw [hexDigit, Bool.or_eq_true, Char.isDigit_iff_toNat, Bool.and_eq_true, decide_eq_true_eq,
    decide_eq_true_eq] at h
  obtain ⟨-, h⟩ | ⟨-, h⟩ := h
  · exact Nat.lt_of_le_of_lt h (by decide)
  · exact Nat.lt_of_le_of_lt (UInt32.le_iff_toNat_le.mp h) (by decide)

theorem length_text_of_units {υ : Type*} (k : TextCoding υ) {s : Text}
    (h : ∀ c ∈ s, (k.enc c).length = 1) : (k.text s).length = s.length := by
  induction s with
  | nil => rfl
  | cons c s ih =>
    obtain ⟨hc, hs⟩ := forall_mem_cons.mp h
    rw [text_cons, length_append, hc, ih hs, length_cons, Nat.add_comm]

theorem length_text_tempName {υ : Type*} (k : TextCoding υ)
    (hk : ∀ c : Char, c.toNat < 128 → (k.enc c).length = 1) (name : Text) (h : IsRandom random) :
    (k.text (tempName name random)).length = 1 + (k.text name).length + tempTailLength := by
  have hrandom : (k.text random).length = 16 := by
    rw [length_text_of_units k, h.1]
    exact fun c hc => hk c (toNat_of_hexDigit (all_eq_true.mp h.2 c hc))
  have htail : (k.text partialTail).length = 8 := by
    rw [length_text_of_units k]
    · decide
    · intro c hc
      have hascii : partialTail.all (·.toNat < 128) = true := by decide
      exact hk c (of_decide_eq_true (all_eq_true.mp hascii c hc))
  have hdot : (k.enc '.').length = 1 := hk '.' (by decide)
  have hlength : tempTailLength = 25 := by decide
  rw [tempName, text_cons, text_append, text_cons, text_append]
  simp only [length_append]
  omega

theorem utf8_ascii (c : Char) (h : c.toNat < 128) : (utf8.enc c).length = 1 := by
  have hlength : (utf8.enc c).length = c.utf8Size := String.length_utf8EncodeChar c
  rw [hlength, Char.utf8Size_eq_one_iff]
  exact UInt32.le_iff_toNat_le.mpr (Nat.le_of_lt_succ h)

theorem utf16_ascii (c : Char) (h : c.toNat < 128) : (utf16.enc c).length = 1 := by
  have henc : utf16.enc c = utf16EncodeChar c := rfl
  rw [henc, utf16EncodeChar, if_pos (by omega)]
  rfl

theorem length16_append (s t : Text) : length16 (s ++ t) = length16 s + length16 t := by
  rw [length16, text_append, length_append, length16, length16]

theorem length_le_length16 (s : Text) : s.length ≤ length16 s := by
  induction s with
  | nil => exact Nat.zero_le _
  | cons c s ih =>
    have hpos : 0 < (utf16.enc c).length := length_pos_iff.mpr (utf16.enc_ne_nil c)
    rw [← singleton_append, length16_append, length_append, length_singleton]
    have hone : length16 [c] = (utf16.enc c).length := by
      rw [length16, text_cons, text_nil, append_nil]
    omega

/-! ### The temporary of a target -/

/-- What is between the names of a path. -/
def separator : PathStyle → Char
  | .posix => '/'
  | .windows => '\\'

theorem separator_or (style : PathStyle) : separator style = '/' ∨ separator style = '\\' := by
  cases style
  · exact .inl rfl
  · exact .inr rfl

/-- A target is a name after a stem, and every name after that stem is in the same folder. -/
structure Parted (u : UpperCase) (style : PathStyle) (target stem base folder : Text) :
    Prop where
  target_eq : target = stem ++ separator style :: base
  not_mem : separator style ∉ base
  base_eq : baseNameOf target style = base
  parent : parentOf target style = some folder
  join : ∀ m, joinHostPath u folder m style = stem ++ separator style :: m
  parent_of : ∀ m, m ≠ [] → separator style ∉ m →
    parentOf (stem ++ separator style :: m) style = some folder
  base_of : ∀ m, m ≠ [] → separator style ∉ m →
    baseNameOf (stem ++ separator style :: m) style = m

/-- The part of the target's name that is kept. -/
def keptPart (style : PathStyle) (target base : Text) : Text :=
  if base = [] then ['x'] else base.take (keptChars style target)

variable {u : UpperCase} {target stem base folder random temp : Text}

theorem keptChars_pos (style : PathStyle) (target : Text) : 1 ≤ keptChars style target := by
  cases style <;> exact Nat.le_max_left _ _

theorem keptPart_ne_nil (style : PathStyle) (target base : Text) :
    keptPart style target base ≠ [] := by
  unfold keptPart
  split
  · exact cons_ne_nil _ _
  next hbase =>
    rw [Ne, take_eq_nil_iff, not_or]
    exact ⟨Nat.ne_of_gt (keptChars_pos style target), hbase⟩

theorem keptChars_le (style : PathStyle) (target : Text) :
    keptChars style target ≤
      max 1 (charsWithin (maxNameBytes - 1 - tempTailLength) (baseNameOf target style)) := by
  cases style
  · exact Nat.le_refl _
  · exact Nat.max_le.mpr ⟨Nat.le_max_left _ _, Nat.sub_le _ _⟩

theorem length16_tempName (name : Text) (h : IsRandom random) :
    length16 (tempName name random) = 1 + length16 name + tempTailLength :=
  length_text_tempName utf16 utf16_ascii name h

theorem pathExcess_eq (hsep : separator style = '\\') (h : IsRandom random)
    (stem base kept : Text) :
    pathExcess (stem ++ separator style :: base) base kept =
      length16 (stem ++ separator style :: tempName kept random) - windowsMaxPathLength := by
  have hone : length16 ['\\'] = 1 := by decide
  have hcons (s : Text) : length16 ('\\' :: s) = 1 + length16 s := by
    rw [← singleton_append, length16_append, hone]
  rw [pathExcess, hsep, length16_append, length16_append, hcons, hcons, length16_tempName kept h]
  omega

/-- **The temporary of a target**: its name, after the stem of the target's folder. -/
theorem tempPathFor_eq (hp : Parted u style target stem base folder) (hr : IsRandom random) :
    tempPathFor u target style random =
      .ok (stem ++ separator style :: tempName (keptPart style target base) random) := by
  have hfit (hbase : base ≠ []) :
      max 1 (charsWithin (maxNameBytes - 1 - tempTailLength) base) ≤ base.length :=
    Nat.max_le.mpr ⟨length_pos_iff.mpr hbase, charsWithin_le _ _⟩
  unfold tempPathFor
  rw [hp.parent]
  dsimp only
  rw [hp.base_eq, cutToBytes_eq, hp.join, hp.join]
  cases style with
  | posix =>
    rw [if_neg (by simp), keptPart, keptChars, hp.base_eq]
  | windows =>
    have hexcess := pathExcess_eq (rfl : separator .windows = '\\') hr stem base
    rw [← hp.target_eq] at hexcess
    by_cases hbase : base = []
    · rw [if_pos hbase, keptPart, if_pos hbase]
      have htake (n : ℕ) : take (max 1 n) ['x'] = ['x'] := by
        rw [take_of_length_le (Nat.le_max_left 1 n)]
      rw [htake, ite_self]
    · rw [if_neg hbase, keptPart, if_neg hbase, keptChars, hp.base_eq]
      have hle := hfit hbase
      have hone : 1 ≤ max 1 (charsWithin (maxNameBytes - 1 - tempTailLength) base) :=
        Nat.le_max_left _ _
      generalize max 1 (charsWithin (maxNameBytes - 1 - tempTailLength) base) = fit at hle hone ⊢
      rw [hexcess]
      by_cases hlong : windowsMaxPathLength <
          length16 (stem ++ separator .windows :: tempName (base.take fit) random)
      · rw [if_pos ⟨rfl, hlong⟩, take_take, length_take, Nat.min_eq_left hle,
          Nat.min_eq_left (Nat.max_le.mpr ⟨hone, Nat.sub_le _ _⟩)]
      · rw [if_neg (fun h => hlong h.2), Nat.sub_eq_zero_of_le (Nat.le_of_not_lt hlong),
          Nat.sub_zero, Nat.max_eq_right hone]

theorem length16_take_le (s : Text) (h : m ≤ k) (hk : k ≤ s.length) :
    length16 (s.take m) + (k - m) ≤ length16 (s.take k) := by
  have hsplit := take_append_drop m (s.take k)
  rw [take_take, Nat.min_eq_left h] at hsplit
  have hdrop := length_le_length16 ((s.take k).drop m)
  rw [length_drop, length_take, Nat.min_eq_left hk] at hdrop
  rw [← hsplit, length16_append]
  omega

/-- **Within what a Windows path may be**, where one character of the name is. -/
theorem keptPart_fits (hp : Parted u .windows target stem base folder) (hr : IsRandom random)
    {rest : Text} (hbase : base = c :: rest) (hroom : pathExcess target (c :: rest) [c] = 0) :
    length16 (stem ++ separator .windows :: tempName (keptPart .windows target base) random) ≤
      windowsMaxPathLength := by
  have hexcess := pathExcess_eq (rfl : separator .windows = '\\') hr stem base
  rw [← hp.target_eq] at hexcess
  have hone : length16 (stem ++ separator .windows :: tempName [c] random) ≤
      windowsMaxPathLength := by
    rw [← hbase, hexcess] at hroom
    omega
  have hne : base ≠ [] := hbase ▸ cons_ne_nil _ _
  rw [keptPart, if_neg hne, keptChars, hp.base_eq]
  have hle : max 1 (charsWithin (maxNameBytes - 1 - tempTailLength) base) ≤ base.length :=
    Nat.max_le.mpr ⟨length_pos_iff.mpr hne, charsWithin_le _ _⟩
  generalize max 1 (charsWithin (maxNameBytes - 1 - tempTailLength) base) = fit at hle ⊢
  rcases Nat.lt_or_ge 1 (fit - pathExcess target base (base.take fit)) with hmany | hfew
  · rw [Nat.max_eq_right (Nat.le_of_lt hmany)]
    have hwidth (kept : Text) :
        length16 (stem ++ separator .windows :: tempName kept random) =
          length16 (stem ++ ['\\']) + (1 + length16 kept + tempTailLength) := by
      rw [← length16_tempName kept hr, ← length16_append]
      simp [separator]
    have htake := length16_take_le base
      (Nat.sub_le fit (pathExcess target base (base.take fit))) hle
    have hfit := hexcess (base.take fit)
    rw [hwidth] at hfit ⊢
    omega
  · rw [Nat.max_eq_left hfew, hbase]
    exact hone

/-- **A temporary is found, exactly if no end of a line is kept in its name.** -/
theorem found_iff (hp : Parted u style target stem base folder) (hr : IsRandom random) :
    Found u style target random
        (stem ++ separator style :: tempName (keptPart style target base) random) ↔
      ∀ c ∈ (baseNameOf target style).take (keptChars style target),
        lineTerminator c = false := by
  have hne := keptPart_ne_nil style target base
  have hsep : separator style ∉ tempName (keptPart style target base) random := by
    intro hmem
    have hkept := mem_tempName hr (separator_or style) hmem
    unfold keptPart at hkept
    split at hkept
    · obtain heq := mem_singleton.mp hkept
      rcases separator_or style with h | h <;> exact absurd (h.symm.trans heq) (by decide)
    · exact hp.not_mem (mem_of_mem_take hkept)
  have hname : tempName (keptPart style target base) random ≠ [] := cons_ne_nil _ _
  have hbaseName := hp.base_of _ hname hsep
  have hparent := hp.parent_of _ hname hsep
  have hrecognised : isTempName (tempName (keptPart style target base) random) = true ↔
      ∀ c ∈ base.take (keptChars style target), lineTerminator c = false := by
    rw [isTempName_tempName hne hr, keptPart]
    by_cases hbase : base = []
    · rw [if_pos hbase, hbase, take_nil]
      exact iff_of_true (by decide) nofun
    · rw [if_neg hbase, all_eq_true]
      exact forall₂_congr fun c _ => by rw [Bool.not_eq_true']
  rw [hp.base_eq]
  refine ⟨fun h => hrecognised.mp (hbaseName ▸ h.recognised), fun h => ?_⟩
  refine ⟨hparent.trans hp.parent.symm, ⟨_, hne, hbaseName, ?_⟩, ?_, ?_, ?_, ?_⟩
  · rw [hp.base_eq, keptPart]
    by_cases hbase : base = []
    · exact .inr ⟨hbase, if_pos hbase⟩
    · rw [if_neg hbase]
      exact .inl <| take_prefix _ _
  · have hbytes : (utf8.text (keptPart style target base)).length ≤
        maxNameBytes - 1 - tempTailLength := by
      unfold keptPart
      split
      · decide
      · exact kept_bytes base (by decide) (hp.base_eq ▸ keptChars_le style target)
    have hlength : maxNameBytes = 255 ∧ tempTailLength = 25 := by decide
    rw [hbaseName, length_text_tempName utf8 utf8_ascii _ hr]
    omega
  · rintro rfl c rest hcons hroom
    exact keptPart_fits hp hr (hp.base_eq.symm.trans hcons) hroom
  · intro dir hdir
    rw [hbaseName]
    obtain ⟨rfl⟩ := hparent.symm.trans hdir
    exact hp.join _
  · rw [hbaseName]
    exact hrecognised.mpr h

/-! ### The targets of an upload -/

variable {dir f : Text}

theorem Folder.place (hdir : ∃ a : Place .posix, a.spell = dir)
    (hf : Folder u .posix dir f) : ∃ a : Place .posix, a.spell = f := by
  induction hf with
  | dest => exact hdir
  | sub _ hn ih =>
    obtain ⟨a, rfl⟩ := ih
    cases a with
    | root ns => exact ⟨_, (joinHostPath_posix u ns ⟨_, hn.entryName⟩).symm⟩

/-- A folder of a Windows host, below its root. -/
def Stemmed (f stem : Text) : Prop :=
  Stem stem ∧ stem ≠ windowsRoot ∧ (f = stem ∨ f = stem ++ ['\\'])

theorem Stemmed.ne_root {stem : Text} (h : Stemmed f stem) : f ≠ windowsRoot := by
  obtain ⟨-, hne, rfl | rfl⟩ := h
  · exact hne
  · exact append_name_ne_root stem []

theorem Stem.append_name (h : Stem stem) (hn : EntryName .windows n) :
    Stem (stem ++ '\\' :: n) where
  ne_nil := append_ne_nil_of_left_ne_nil h.ne_nil _
  last := getLast?_append_name hn.ne_nil hn.apart stem
  not_server := fun server heq => by
    match hs : stem with
    | [] => exact absurd rfl h.ne_nil
    | [c] => exact absurd (congrArg some (cons.inj heq).1) h.last
    | c :: d :: rest =>
      obtain ⟨-, htail⟩ := cons.inj heq
      obtain ⟨-, htail⟩ := cons.inj htail
      rw [← htail]
      exact mem_append_right _ mem_cons_self

theorem joinHostPath_root (u : UpperCase) (hn : n ≠ [])
    (hlast : ∀ c, n.getLast? = some c → c ≠ ':' ∧ c ≠ '\\') :
    joinHostPath u windowsRoot n .windows = (u.text n ++ [':']) ++ ['\\'] := by
  have hjoin : joinHostPath u windowsRoot n .windows =
      u.text (n.reverse.dropWhile fun c => c = ':' || c = '\\').reverse ++ [':', '\\'] := rfl
  obtain ⟨m, c, rfl⟩ := (eq_nil_or_concat' n).resolve_left hn
  obtain ⟨hcolon, hback⟩ := hlast c getLast?_concat
  rw [hjoin, reverse_append, reverse_singleton, singleton_append,
    dropWhile_cons_of_neg (by simp [hcolon, hback]), ← singleton_append,
    ← reverse_singleton, ← reverse_append, reverse_reverse]
  simp

theorem text_backslash (hu : KeepsAscii u) (hn : '\\' ∉ n) : '\\' ∉ u.text n := by
  intro hmem
  obtain ⟨c, hc, hback⟩ := mem_flatMap.mp hmem
  exact hn (hu.backslash c hback ▸ hc)

theorem stem_of_root (hu : KeepsAscii u) (hn : '\\' ∉ n) : Stem (u.text n ++ [':']) where
  ne_nil := append_ne_nil_of_right_ne_nil _ (cons_ne_nil _ _)
  last := by simp
  not_server := fun server heq => by
    cases htext : u.text n with
    | nil => rw [htext] at heq; cases heq
    | cons c rest =>
      rw [htext] at heq
      have hc := (cons.inj heq).1
      exact absurd (htext ▸ hc ▸ mem_cons_self) (text_backslash hu hn)

theorem EntryName.last (h : EntryName .windows n) (c : Char)
    (hc : n.getLast? = some c) : c ≠ ':' ∧ c ≠ '\\' := by
  have hmem := mem_of_getLast? hc
  refine ⟨fun heq => ?_, fun heq => h.apart (heq ▸ hmem)⟩
  exact any_eq_false.mp (h.windows rfl).2 c hmem (heq ▸ by decide)

theorem append_colon_ne_root (s : Text) : s ++ [':'] ≠ windowsRoot := by
  intro heq
  have hmem : ':' ∈ windowsRoot := heq ▸ mem_append_right _ mem_cons_self
  exact absurd hmem (by decide)

theorem Folder.stemmed (hu : KeepsAscii u)
    (hdir : ∃ a : Place .windows, a.spell = dir) (hf : Folder u .windows dir f) :
    f = windowsRoot ∨ ∃ stem, Stemmed f stem := by
  induction hf with
  | dest =>
    obtain ⟨a, rfl⟩ := hdir
    by_cases hroot : a.spell = windowsRoot
    · exact .inl hroot
    · refine .inr ⟨a.stem, Place.stem_windows hroot, fun heq => ?_, Place.folder_eq hroot⟩
      cases a with
      | drives => exact hroot rfl
      | drive letter ns => exact letter.ne (by decide) (cons.inj heq).1
      | share server top ns => cases heq
  | sub _ hn ih =>
    rename_i n _
    have hname := hn.entryName
    right
    obtain rfl | ⟨stem, hstem⟩ := ih
    · rw [joinHostPath_root u hname.ne_nil hname.last]
      exact ⟨_, stem_of_root hu hname.apart, append_colon_ne_root _, .inr rfl⟩
    · rw [joinHostPath_stem u hstem.1 hstem.ne_root hstem.2.2]
      exact ⟨_, hstem.1.append_name hname, append_name_ne_root _ _, .inl rfl⟩

theorem isDriveRoot_append (stem : Text) : isDriveRoot (stem ++ ['\\']) = isDrive stem := by
  match stem with
  | [] => rfl
  | [_] => rfl
  | [_, _] => simp [isDriveRoot, isDrive]
  | [_, _, _] => rfl
  | _ :: _ :: _ :: _ :: _ => rfl

theorem parted_windows (hstem : Stem stem) (hne : stem ≠ windowsRoot) (hback : '\\' ∉ base)
    (hbase : base ≠ [] ∨ isDrive stem = false) :
    Parted u .windows (stem ++ '\\' :: base) stem base
      (if isDrive stem then stem ++ ['\\'] else stem) := by
  have hstemmed : Stemmed (if isDrive stem then stem ++ ['\\'] else stem) stem := by
    refine ⟨hstem, hne, ?_⟩
    split
    · exact .inr rfl
    · exact .inl rfl
  have hroot : isDriveRoot (stem ++ '\\' :: base) = false := by
    by_cases hnil : base = []
    · rw [hnil, isDriveRoot_append]
      exact hbase.resolve_left (not_not.mpr hnil)
    · exact isDriveRoot_append_name hnil hback stem
  refine ⟨rfl, hback, ?_, ?_, fun m => joinHostPath_stem u hstem hstemmed.ne_root hstemmed.2.2 m,
    fun m hm hback => parentOf_append_name hstem hm hback,
    fun m hm hback => baseNameOf_append_name hm hback stem⟩
  · rw [baseNameOf, if_neg (append_name_ne_root stem base), hroot, if_neg Bool.false_ne_true,
      sliceFrom_lastIndexOf stem hback]
  · rw [parentOf, if_neg (append_name_ne_root stem base), hroot, if_neg Bool.false_ne_true,
      isShareRoot_append_name hstem, if_neg Bool.false_ne_true]
    rw [sliceTo_lastIndexOf stem hback]

/-- **Every target but the root of a drive** is a name after a stem. -/
theorem Folder.parted (hu : KeepsAscii u)
    (hdir : ∃ a : Place style, a.spell = dir) (hf : Folder u style dir f)
    (hn : EntryName style n)
    (hroot : style = .windows → isDriveRoot (joinHostPath u f n style) = false) :
    ∃ stem base folder, Parted u style (joinHostPath u f n style) stem base folder := by
  cases style with
  | posix =>
    obtain ⟨a, rfl⟩ := hf.place hdir
    cases a with
    | root ns =>
      rw [joinHostPath_posix u ns ⟨n, hn⟩, Place.root_child]
      refine ⟨_, n, (Place.root ns).spell, rfl, hn.not_slash,
        baseNameOf_append_posix _ hn.ne_nil hn.not_slash, ?_, fun m => ?_, fun m hm hslash => ?_,
        fun m hm hslash => baseNameOf_append_posix _ hm hslash⟩
      · rw [parentOf_append_posix _ hn.ne_nil hn.not_slash, Place.root_eq]
      · exact joinHostPath_root_posix u ns m
      · exact (parentOf_append_posix _ hm hslash).trans (congrArg some (Place.root_eq ns).symm)
  | windows =>
    obtain rfl | ⟨stem, hstem⟩ := hf.stemmed hu hdir
    · have hroot' := hroot rfl
      rw [joinHostPath_root u hn.ne_nil hn.last] at hroot' ⊢
      rw [isDriveRoot_append] at hroot'
      exact ⟨_, [], _, parted_windows (stem_of_root hu hn.apart) (append_colon_ne_root _)
        not_mem_nil (.inr hroot')⟩
    · rw [joinHostPath_stem u hstem.1 hstem.ne_root hstem.2.2]
      exact ⟨stem, n, _, parted_windows hstem.1 hstem.2.1 hn.apart (.inl hn.ne_nil)⟩

theorem tempPathFor_driveRoot (hu : KeepsAscii u) (hroot : isDriveRoot target = true)
    (random : Text) :
    ∃ temp, tempPathFor u target .windows random = .ok temp ∧
      parentOf temp .windows ≠ parentOf target .windows := by
  have hne : target ≠ windowsRoot := by
    rintro rfl
    cases hroot
  have hparent : parentOf target .windows = some windowsRoot := by
    rw [parentOf, if_neg hne, hroot, if_pos rfl]
  have hjoin (m : Text) : parentOf (joinHostPath u windowsRoot (tempName m random) .windows)
      .windows ≠ some windowsRoot := by
    have hnil : tempName m random ≠ [] := cons_ne_nil _ _
    have hlast : (tempName m random).getLast? = some 'l' := by
      have hpartial : partialTail ≠ [] := by decide
      rw [tempName, ← cons_append, getLast?_append_of_ne_nil _ (cons_ne_nil _ _),
        ← cons_append, getLast?_append_of_ne_nil _ hpartial]
      decide
    have hdot : u.upper '.' = ['.'] := hu.ascii '.' (by decide)
    have htext : u.text (tempName m random) =
        '.' :: u.text (m ++ '.' :: (random ++ partialTail)) := by
      rw [tempName, UpperCase.text, flatMap_cons, hdot]
      rfl
    have hend (c : Char) (hc : (tempName m random).getLast? = some c) : c ≠ ':' ∧ c ≠ '\\' := by
      rw [hlast] at hc
      cases hc
      decide
    rw [joinHostPath_root u hnil hend]
    have hdrive : isDriveRoot (u.text (tempName m random) ++ [':'] ++ ['\\']) = false := by
      rw [htext]
      exact isDriveRoot_cons (by decide) _
    rw [parentOf, if_neg (append_name_ne_root _ []), hdrive, if_neg Bool.false_ne_true]
    split
    · rintro ⟨⟩
    · dsimp only
      rw [sliceTo_lastIndexOf _ not_mem_nil, htext]
      split <;> simp [windowsRoot]
  rw [hparent]
  unfold tempPathFor
  rw [hparent]
  dsimp only
  split <;> exact ⟨_, rfl, hjoin _⟩

/-- **The temporary of every target.**  For each target that the checks of an upload admit, its
temporary is in the target's folder, has a name of whole characters and at most 255 bytes,
stays within what a Windows path may be where the folder leaves room, and is recognised by a
sweep, exactly if the target is not the root of a drive and no end of a line is among the
characters of its name that the temporary keeps. -/
theorem tempPathFor_found (hu : KeepsAscii u) {path dir f n : Text}
    (hdir : normaliseHostPath path style = .ok dir) (hf : Folder u style dir f)
    (hn : ItemName style n) (hr : IsRandom random) :
    ∃ temp, tempPathFor u (joinHostPath u f n style) style random = .ok temp ∧
      (Found u style (joinHostPath u f n style) random temp ↔
        ¬ (style = .windows ∧ isDriveRoot (joinHostPath u f n style) = true) ∧
        ∀ c ∈ (baseNameOf (joinHostPath u f n style) style).take
            (keptChars style (joinHostPath u f n style)), lineTerminator c = false) := by
  obtain ⟨a, ha, -⟩ := normaliseHostPath_place hdir
  by_cases hroot : style = .windows ∧ isDriveRoot (joinHostPath u f n style) = true
  · obtain ⟨rfl, hroot⟩ := hroot
    obtain ⟨temp, htemp, hparent⟩ := tempPathFor_driveRoot hu hroot random
    exact ⟨temp, htemp, iff_of_false (fun h => hparent h.folder) fun h => h.1 ⟨rfl, hroot⟩⟩
  · obtain ⟨stem, base, folder, hp⟩ := hf.parted hu ⟨a, ha⟩ hn.entryName fun hw =>
      Bool.eq_false_iff.mpr fun h => hroot ⟨hw, h⟩
    refine ⟨_, tempPathFor_eq hp hr, ?_⟩
    rw [found_iff hp hr]
    exact (and_iff_right hroot).symm

theorem asciiUpper_keepsAscii : KeepsAscii asciiUpper where
  ascii := fun _ _ => rfl
  backslash := fun c h => by
    have hc : '\\' = c.toUpper := mem_singleton.mp h
    exact (toUpper_eq_iff (by decide)).mp hc.symm

theorem tempPathFor_found_report :
    ∃ temp, tempPathFor asciiUpper "/srv/report.pdf".toList .posix "0123456789abcdef".toList =
        .ok temp ∧ isTempName (baseNameOf temp .posix) = true := by
  have hdir : normaliseHostPath "/srv".toList .posix = .ok "/srv".toList := by decide
  have hname : ItemName .posix "report.pdf".toList :=
    .own (show relPathProblem "report.pdf".toList = none by decide) (by decide) nofun
  have hrandom : IsRandom "0123456789abcdef".toList := by decide
  obtain ⟨temp, htemp, hfound⟩ :=
    tempPathFor_found asciiUpper_keepsAscii hdir (.dest (u := asciiUpper)) hname hrandom
  refine ⟨temp, htemp, (hfound.mpr ⟨by simp, ?_⟩).recognised⟩
  rw [← forall_iff_forall_mem]
  decide +kernel

/-- **A temporary that no sweep finds.**  A POSIX name may have the end of a line in it. -/
theorem left_unrecognised :
    ¬ ∀ (u : UpperCase), KeepsAscii u → ∀ (style : PathStyle) (path dir f n random : Text),
      normaliseHostPath path style = .ok dir → Folder u style dir f → ItemName style n →
        IsRandom random →
          ∃ temp, tempPathFor u (joinHostPath u f n style) style random = .ok temp ∧
            Found u style (joinHostPath u f n style) random temp := by
  intro h
  have hname : ItemName .posix "a\nb".toList :=
    .own (show relPathProblem "a\nb".toList = none by decide) (by decide) nofun
  obtain ⟨temp, htemp, hfound⟩ := h asciiUpper asciiUpper_keepsAscii .posix "/srv".toList
    "/srv".toList "/srv".toList "a\nb".toList "0123456789abcdef".toList (by decide) .dest hname
    (by decide)
  obtain rfl : "/srv/.a\nb.0123456789abcdef.partial".toList = temp :=
    Except.ok.inj (Eq.trans (by decide +kernel) htemp)
  exact absurd hfound.recognised (by decide +kernel)

end Lasterm.Files
