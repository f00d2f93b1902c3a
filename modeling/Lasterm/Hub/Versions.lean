import Lasterm.Hub.SshRoute
import Lasterm.Lib.Segments
import Mathlib.Algebra.Group.Nat.Defs
import Mathlib.Algebra.Order.Monoid.Unbundled.WithTop
import Mathlib.Data.Char
import Mathlib.Data.List.Lex
import Mathlib.Data.Nat.Log
import Mathlib.Data.Sum.Order
import Mathlib.Order.WithBot

/-!
# Which of two versions is older

`isOlderVersion` compares versions as section 11 of semver orders them, but for numbers, which it
converts first: whole numbers from `2 ^ 53` on can convert to one double, and two that are too
large for one have a difference that is not a number, which ends the comparison.

## Main results

* `compareSemver_lt`: the comparison is the lexicographic order of the converted identifiers, cut
  after the first that is `Infinity`.
* `agrees_iff`: which lists such an order puts as the order of the numbers themselves does.
* `isOlderVersion_order`: the order, on all strings, and against section 11.
-/

namespace Lasterm.Hub.Versions

open List Segments SshRoute Sum.Lex

/-! ### Numbers -/

/-- The `u`-th part of `n`, rounded to the nearest, at a tie to the even one. -/
def tieEven (u n : ℕ) : ℕ :=
  n / u + if u < 2 * (n % u) ∨ u = 2 * (n % u) ∧ n / u % 2 = 1 then 1 else 0

/-- What `n` is a multiple of after rounding to 53 binary digits. -/
def lastPlace (n : ℕ) : ℕ := 2 ^ (Nat.log2 n - 52)

/-- A number rounded to a double, ties to even. -/
def nearest (n : ℕ) : ℕ := tieEven (lastPlace n) n * lastPlace n

/-- `Number` of a whole number; `⊤` is `Infinity`. -/
def toNumber (n : ℕ) : WithTop ℕ := if nearest n < 2 ^ 1024 then (nearest n : ℕ) else ⊤

theorem tieEven_mono (u : ℕ) {m n : ℕ} (h : m ≤ n) : tieEven u m ≤ tieEven u n := by
  have hdiv : m / u ≤ n / u := Nat.div_le_div_right h
  have hm := Nat.div_add_mod m u
  have hn := Nat.div_add_mod n u
  unfold tieEven
  rcases hdiv.lt_or_eq with hlt | heq
  · split_ifs <;> omega
  · rw [heq] at hm ⊢
    split_ifs <;> omega

theorem tieEven_mul {u : ℕ} (hu : 0 < u) (k : ℕ) : tieEven u (u * k) = k := by
  simp [tieEven, Nat.mul_div_cancel_left k hu, hu.ne']

theorem nearest_mono {m n : ℕ} (h : m ≤ n) : nearest m ≤ nearest n := by
  have hlog : Nat.log2 m ≤ Nat.log2 n := by
    rw [Nat.log2_eq_log_two, Nat.log2_eq_log_two]
    exact Nat.log_mono_right h
  rcases hlog.lt_or_eq with hlt | heq
  · have hpos : 0 < lastPlace m := Nat.two_pow_pos _
    have hpos' : 0 < lastPlace n := Nat.two_pow_pos _
    -- the power of two between them is a multiple of both last places
    obtain ⟨k, hk⟩ : lastPlace m ∣ 2 ^ Nat.log2 n := Nat.pow_dvd_pow 2 (by omega)
    obtain ⟨k', hk'⟩ : lastPlace n ∣ 2 ^ Nat.log2 n := Nat.pow_dvd_pow 2 (by omega)
    have hbelow : m ≤ lastPlace m * k := by
      rw [← hk]
      exact (Nat.lt_log2_self.trans_le (Nat.pow_le_pow_right (by decide) hlt)).le
    have habove : lastPlace n * k' ≤ n := by
      rw [← hk']
      exact Nat.log2_self_le (by rintro rfl; exact nomatch hlt)
    calc nearest m ≤ k * lastPlace m := by
          refine Nat.mul_le_mul_right _ ((tieEven_mono _ hbelow).trans_eq (tieEven_mul hpos k))
      _ = k' * lastPlace n := by rw [Nat.mul_comm, ← hk, hk', Nat.mul_comm]
      _ ≤ nearest n := by
          refine Nat.mul_le_mul_right _ ((tieEven_mul hpos' k').symm.trans_le ?_)
          exact tieEven_mono _ habove
  · unfold nearest lastPlace
    rw [heq]
    exact Nat.mul_le_mul_right _ (tieEven_mono _ h)

theorem toNumber_mono {m n : ℕ} (h : m ≤ n) : toNumber m ≤ toNumber n := by
  have hle := nearest_mono h
  unfold toNumber
  split_ifs with hm hn
  · exact WithTop.coe_le_coe.mpr hle
  · exact le_top
  · exact absurd (hle.trans_lt ‹_›) hm
  · exact le_rfl

/-! ### Reading and comparing -/

/-- A version, its numbers as doubles. -/
structure Semver where
  major : WithTop ℕ
  minor : WithTop ℕ
  patch : WithTop ℕ
  prerelease : List Text

/-- A character of an identifier. -/
def identChar (c : Char) : Bool := c.isAlphanum || c = '-'

/-- What a text of digits writes. -/
def parseNumber (t : Text) : Option ℕ :=
  if t ≠ [] ∧ t.all Char.isDigit then some (digitsValue t) else none

/-- The three numbers of a version. -/
def parseCore (t : Text) : Option (ℕ × ℕ × ℕ) :=
  match (t.splitOn '.').map parseNumber with
  | [some major, some minor, some patch] => some (major, minor, patch)
  | _ => none

/-- The identifiers of a pre-release, if each is one. -/
def parsePrerelease (t : Text) : Option (List Text) :=
  if (t.splitOn '.').all fun i => i ≠ [] ∧ i.all identChar then some (t.splitOn '.') else none

/-- What is before a mark, and what is behind it, if it is there. -/
def breakOff (mark : Char) (t : Text) : Text × Option Text :=
  (breakAt mark t).elim (t, none) fun p => (p.1, some p.2)

/-- The pieces of `SEMVER`: no plus is matched before the build, and no hyphen before the
pre-release. -/
def parseSemver (version : String) : Option Semver :=
  let t := trim version.toList
  let main := breakOff '+' t
  let core := breakOff '-' main.1
  if main.2.all fun b => b ≠ [] ∧ b.all fun c => identChar c || c = '.' then do
    let (major, minor, patch) ← parseCore core.1
    let prerelease ← core.2.elim (some []) parsePrerelease
    some ⟨toNumber major, toNumber minor, toNumber patch, prerelease⟩
  else none

/-- The order of two things. -/
def sign {α : Type} [LT α] [DecidableLT α] (x y : α) : Ordering :=
  if x < y then .lt else if y < x then .gt else .eq

/-- What a difference is asked for: its sign, and that it is no number. -/
def difference (x y : WithTop ℕ) : Option Ordering :=
  if x = ⊤ ∧ y = ⊤ then none else some (sign x y)

/-- Two identifiers: numbers come before words. -/
def compareIdentifiers (a b : Text) : Option Ordering :=
  match parseNumber a, parseNumber b with
  | some m, some n => difference (toNumber m) (toNumber n)
  | some _, none => some .lt
  | none, some _ => some .gt
  | none, none => some (sign a b)

/-- A difference that is not 0 is the answer. -/
def orNext (d next : Option Ordering) : Option Ordering := if d = some .eq then next else d

/-- Two pre-releases, identifier by identifier; the shorter first. -/
def comparePrerelease : List Text → List Text → Option Ordering
  | [], [] => some .eq
  | [], _ :: _ => some .lt
  | _ :: _, [] => some .gt
  | a :: as, b :: bs => orNext (compareIdentifiers a b) (comparePrerelease as bs)

/-- `compareSemver`; nothing where it is NaN. -/
def compareSemver (a b : Semver) : Option Ordering :=
  orNext (difference a.major b.major) <| orNext (difference a.minor b.minor) <|
    orNext (difference a.patch b.patch) <|
      -- A pre-release comes before its release.
      if a.prerelease = [] ∨ b.prerelease = [] then
        some (sign b.prerelease.length a.prerelease.length)
      else comparePrerelease a.prerelease b.prerelease

/-- Strictly older; never when one of the two is no version. -/
def isOlderVersion (running expected : String) : Bool :=
  match parseSemver running, parseSemver expected with
  | some a, some b => compareSemver a b = some .lt
  | _, _ => false

example : isOlderVersion "1.2.10-rc.1" "1.2.10" = true := by decide +kernel

/-! ### The order of the comparison -/

/-- An identifier: numbers before words, and before both of a place `⊤`, which stands for no
pre-release. -/
abbrev Key (α : Type) := α ⊕ₗ WithTop Text

/-- What a version without a pre-release has at the end. -/
def release {α : Type} : Key α := toLex (.inr ⊤)

/-- What a number beyond the doubles becomes. -/
def infinity : Key (WithTop ℕ) := toLex (.inl ⊤)

/-- What the comparison goes by, of an identifier. -/
def key (t : Text) : Key (WithTop ℕ) :=
  match parseNumber t with
  | some n => toLex (.inl (toNumber n))
  | none => toLex (.inr t)

/-- What the comparison goes by, of a version. -/
def Semver.keys (v : Semver) : List (Key (WithTop ℕ)) :=
  [v.major, v.minor, v.patch].map (toLex <| .inl ·) ++
    if v.prerelease = [] then [release] else v.prerelease.map key

/-- The identifiers up to the first that is `Infinity`. -/
def cut : List (Key (WithTop ℕ)) → List (Key (WithTop ℕ))
  | [] => []
  | x :: xs => if x = infinity then [x] else x :: cut xs

variable {x y : Key (WithTop ℕ)} {xs ys : List (Key (WithTop ℕ))} {d next : Option Ordering}

theorem cut_lt_cut : cut (x :: xs) < cut (y :: ys) ↔
    x < y ∨ (x = y ∧ x ≠ infinity) ∧ cut xs < cut ys := by
  rw [cut, cut]
  split_ifs with hx hy hy
  · simp [hx, hy]
  · simp [cons_lt_cons_iff, hx, Ne.symm hy]
  · simp [cons_lt_cons_iff, hy, hx]
  · simp [cons_lt_cons_iff, hx]

theorem nil_lt_cut : [] < cut (x :: xs) := by
  rw [cut]
  split_ifs <;> exact nil_lt_cons _ _

theorem orNext_lt : orNext d next = some .lt ↔ d = some .lt ∨ d = some .eq ∧ next = some .lt := by
  unfold orNext
  split_ifs with h
  · simp [h]
  · simp [h]

theorem sign_lt {α : Type} [LT α] [DecidableLT α] (a b : α) : sign a b = .lt ↔ a < b := by
  unfold sign
  split_ifs <;> simp [*]

theorem sign_eq {α : Type} [LinearOrder α] [DecidableLT α] (a b : α) : sign a b = .eq ↔ a = b := by
  unfold sign
  split_ifs with hlt hgt
  · simp [hlt.ne]
  · simp [hgt.ne']
  · simpa using le_antisymm (not_lt.mp hgt) (not_lt.mp hlt)

theorem difference_lt (m n : WithTop ℕ) : difference m n = some .lt ↔ m < n := by
  unfold difference
  split_ifs with h
  · simp [h.1, h.2]
  · rw [Option.some_inj, sign_lt]

theorem difference_eq (m n : WithTop ℕ) : difference m n = some .eq ↔ m = n ∧ m ≠ ⊤ := by
  unfold difference
  split_ifs with h
  · simp [h.1]
  · rw [Option.some_inj, sign_eq]
    exact ⟨fun heq => ⟨heq, fun htop => h ⟨htop, heq ▸ htop⟩⟩, And.left⟩

theorem compareIdentifiers_lt (a b : Text) :
    compareIdentifiers a b = some .lt ↔ key a < key b := by
  unfold compareIdentifiers key
  cases parseNumber a with
  | some m =>
    cases parseNumber b with
    | some n => exact (difference_lt _ _).trans inl_lt_inl_iff.symm
    | none => exact iff_of_true rfl (inl_lt_inr _ _)
  | none =>
    cases parseNumber b with
    | some n => exact iff_of_false nofun not_inr_lt_inl
    | none =>
      exact Option.some_inj.trans <| (sign_lt a b).trans <|
        WithTop.coe_lt_coe.symm.trans inr_lt_inr_iff.symm

theorem compareIdentifiers_eq (a b : Text) :
    compareIdentifiers a b = some .eq ↔ key a = key b ∧ key a ≠ infinity := by
  unfold compareIdentifiers key infinity
  cases parseNumber a with
  | some m =>
    cases parseNumber b with
    | some n => simp [difference_eq]
    | none => simp
  | none =>
    cases parseNumber b with
    | some n => simp
    | none => simpa using sign_eq a b

theorem comparePrerelease_lt (as bs : List Text) :
    comparePrerelease as bs = some .lt ↔ cut (as.map key) < cut (bs.map key) := by
  induction as generalizing bs with
  | nil =>
    cases bs with
    | nil => exact iff_of_false nofun (lt_irrefl _)
    | cons b bs => exact iff_of_true rfl nil_lt_cut
  | cons a as ih =>
    cases bs with
    | nil => simp [comparePrerelease, cut]
    | cons b bs =>
      rw [comparePrerelease, orNext_lt, map_cons, map_cons, cut_lt_cut, compareIdentifiers_lt,
        compareIdentifiers_eq, ih]

theorem key_lt_release (t : Text) : key t < release := by
  unfold key
  cases parseNumber t with
  | some n => exact inl_lt_inr _ _
  | none => exact inr_lt_inr_iff.mpr (WithTop.coe_lt_top t)

/-- **The comparison is a lexicographic order.** -/
theorem compareSemver_lt (a b : Semver) :
    compareSemver a b = some .lt ↔ cut a.keys < cut b.keys := by
  have hnumber : ∀ m n : WithTop ℕ, difference m n = some .eq ↔
      (toLex (.inl m) : Key (WithTop ℕ)) = toLex (.inl n) ∧ toLex (.inl m) ≠ infinity := by
    simp [difference_eq, infinity]
  have hlast : (if a.prerelease = [] ∨ b.prerelease = [] then
        some (sign b.prerelease.length a.prerelease.length)
      else comparePrerelease a.prerelease b.prerelease) = some .lt ↔
      cut (if a.prerelease = [] then [release] else a.prerelease.map key) <
        cut (if b.prerelease = [] then [release] else b.prerelease.map key) := by
    cases ha : a.prerelease with
    | nil =>
      cases hb : b.prerelease with
      | nil => exact iff_of_false nofun (lt_irrefl _)
      | cons t ts =>
        have hlt := key_lt_release t
        exact iff_of_false (by simp [sign_lt]) fun h => (cut_lt_cut.mp h).elim hlt.not_gt
          fun h => hlt.ne' h.1.1
    | cons t ts =>
      cases hb : b.prerelease with
      | nil =>
        exact iff_of_true (by simp [sign_lt]) (cut_lt_cut.mpr (.inl (key_lt_release t)))
      | cons u us => simpa using comparePrerelease_lt (t :: ts) (u :: us)
  simp only [compareSemver, Semver.keys, map_cons, map_nil, cons_append, nil_append, orNext_lt,
    cut_lt_cut, hlast, hnumber, difference_lt, inl_lt_inl_iff]

/-! ### Section 11 -/

/-- A numeric identifier, without a zero before other digits. -/
def IsNumeric (t : Text) : Prop := t ≠ [] ∧ (∀ c ∈ t, c.isDigit) ∧ ∀ ts, t = '0' :: ts → ts = []

/-- A text that is an identifier. -/
def IsIdentifier (t : Text) : Prop := t ≠ [] ∧ ∀ c ∈ t, identChar c

/-- A valid semantic version. -/
structure Version where
  major : Text
  minor : Text
  patch : Text
  prerelease : List Text
  build : List Text
  core_numeric : ∀ t ∈ [major, minor, patch], IsNumeric t
  prerelease_valid : ∀ t ∈ prerelease, IsIdentifier t ∧ ((∀ c ∈ t, c.isDigit) → IsNumeric t)
  build_valid : ∀ t ∈ build, IsIdentifier t

/-- Identifiers, with a dot between two, behind a mark where there are any. -/
def marked (mark : Char) : List Text → Text
  | [] => []
  | t :: ts => mark :: (t ++ below '.' ts)

/-- What the order of versions goes by, of an identifier. -/
def exactKey (t : Text) : Key ℕ :=
  match parseNumber t with
  | some n => toLex (.inl n)
  | none => toLex (.inr t)

namespace Version

variable (v : Version)

/-- The version as it is written. -/
def text : Text :=
  v.major ++ below '.' [v.minor, v.patch] ++ marked '-' v.prerelease ++ marked '+' v.build

/-- What section 11 compares, one after another: the core, then that there is no pre-release, or
its identifiers.  Numbers are by value and before words, words in ASCII order, the shorter list
is first where one begins the other, and the build does not count. -/
def rank : List (Key ℕ) :=
  [v.major, v.minor, v.patch].map exactKey ++
    if v.prerelease = [] then [release] else v.prerelease.map exactKey

end Version

/-! ### Where they agree -/

/-- What a number is compared as. -/
def convert (x : Key ℕ) : Key (WithTop ℕ) := toLex (Sum.map toNumber id (ofLex x))

/-- The places before the first where two lists differ are no `Infinity`.  There they are converted
apart, or to the same number, and what follows happens to be in the right order. -/
def Apart : List (Key ℕ) → List (Key ℕ) → Prop
  | x :: xs, y :: ys =>
    if x = y then convert x ≠ infinity ∧ (xs = ys ∨ Apart xs ys)
    else convert x ≠ convert y ∨ convert x ≠ infinity ∧
      if x < y then cut (xs.map convert) < cut (ys.map convert)
      else cut (ys.map convert) < cut (xs.map convert)
  | _, _ => True

theorem convert_lt {x y : Key ℕ} (h : x < y) (hne : convert x ≠ convert y) :
    convert x < convert y := by
  refine lt_of_le_of_ne ?_ hne
  cases h with
  | inl h => exact inl_le_inl_iff.mpr (toNumber_mono h.le)
  | inr h => exact inr_le_inr_iff.mpr h.le
  | sep => exact (inl_lt_inr _ _).le

theorem agrees_of_lt {x y : Key ℕ} (h : x < y) (xs ys : List (Key ℕ)) :
    ((cut ((x :: xs).map convert) < cut ((y :: ys).map convert) ↔ x :: xs < y :: ys) ∧
      (cut ((y :: ys).map convert) < cut ((x :: xs).map convert) ↔ y :: ys < x :: xs)) ↔
      convert x ≠ convert y ∨
        convert x ≠ infinity ∧ cut (xs.map convert) < cut (ys.map convert) := by
  simp only [map_cons, cut_lt_cut, cons_lt_cons_iff]
  by_cases hconv : convert x = convert y
  · by_cases hinf : convert y = infinity
    · simp [hconv, hinf, h]
    · simpa [hconv, hinf, h, h.not_gt, h.ne'] using le_of_lt
  · have hc := convert_lt h hconv
    simp [hconv, hc, hc.not_gt, h, h.not_gt, h.ne', Ne.symm hconv]

theorem agrees_iff (xs ys : List (Key ℕ)) :
    ((cut (xs.map convert) < cut (ys.map convert) ↔ xs < ys) ∧
      (cut (ys.map convert) < cut (xs.map convert) ↔ ys < xs)) ↔ xs = ys ∨ Apart xs ys := by
  induction xs generalizing ys with
  | nil =>
    cases ys with
    | nil => simp
    | cons y ys => simp [Apart, nil_lt_cut, show cut [] = [] from rfl]
  | cons x xs ih =>
    cases ys with
    | nil => simp [Apart, nil_lt_cut, show cut [] = [] from rfl]
    | cons y ys =>
      rcases lt_trichotomy x y with hlt | rfl | hlt
      · simpa [Apart, hlt, hlt.ne] using agrees_of_lt hlt xs ys
      · simp only [map_cons, cut_lt_cut, cons_lt_cons_iff, Apart, lt_irrefl, false_or, true_and,
          if_true, cons.injEq]
        by_cases hinf : convert x = infinity
        · simp [hinf, le_antisymm_iff, and_comm]
        · simpa [hinf] using ih ys
      · rw [and_comm, agrees_of_lt hlt, Apart, if_neg hlt.ne', if_neg hlt.not_gt, cons.injEq,
          ne_comm]
        by_cases hconv : convert x = convert y
        · simp [hconv, hlt.ne']
        · simp [hconv]

/-! ### Reading a valid version -/

theorem breakOff_marked {mark : Char} {front : Text} (h : mark ∉ front) (ts : List Text) :
    breakOff mark (front ++ marked mark ts) = (front, (marked mark ts).tail?) := by
  unfold breakOff
  cases ts with
  | nil =>
    rw [breakAt_append h]
    exact congrArg (·, none) (append_nil front)
  | cons t ts =>
    rw [marked, breakAt_append_cons h]
    rfl

theorem forall_mem_joined {P : Char → Prop} (hdot : P '.') {t : Text} {ts : List Text}
    (h : ∀ u ∈ t :: ts, ∀ c ∈ u, P c) : ∀ c ∈ t ++ below '.' ts, P c := by
  simp only [below, mem_append, mem_flatMap, mem_cons]
  rintro c (hc | ⟨u, hu, rfl | hc⟩)
  · exact h t mem_cons_self c hc
  · exact hdot
  · exact h u (mem_cons_of_mem _ hu) c hc

theorem forall_mem_marked {P : Char → Prop} {mark : Char} (hmark : P mark) (hdot : P '.')
    {ts : List Text} (h : ∀ u ∈ ts, ∀ c ∈ u, P c) : ∀ c ∈ marked mark ts, P c := by
  cases ts with
  | nil => nofun
  | cons t ts => exact forall_mem_cons.mpr ⟨hmark, forall_mem_joined hdot h⟩

theorem isBlank_of_identChar (c : Char) (h : identChar c) : isBlank c = false := by
  have hval : 45 ≤ c.toNat ∧ c.toNat ≤ 122 := by
    delta identChar Char.isAlphanum Char.isAlpha Char.isUpper Char.isLower Char.isDigit at h
    simp only [Bool.or_eq_true, Bool.and_eq_true, decide_eq_true_eq, ge_iff_le,
      UInt32.le_iff_toNat_le] at h
    obtain ((h | h) | h) | rfl := h
    · exact ⟨le_trans (by decide) h.1, le_trans h.2 (by decide)⟩
    · exact ⟨le_trans (by decide) h.1, h.2⟩
    · exact ⟨le_trans (by decide) h.1, le_trans h.2 (by decide)⟩
    · exact ⟨by decide, by decide⟩
  simp only [isBlank, contains_cons, contains_nil, Bool.or_false, Bool.or_eq_false_iff,
    Bool.and_eq_false_iff, decide_eq_false_iff_not, beq_eq_false_iff_ne]
  omega

namespace Version

variable (v w : Version)

/-- The version as the hub reads it. -/
def semver : Semver :=
  ⟨toNumber (digitsValue v.major), toNumber (digitsValue v.minor), toNumber (digitsValue v.patch),
    v.prerelease⟩

theorem parseSemver_text : parseSemver (String.ofList v.text) = some v.semver := by
  obtain ⟨major, minor, patch, prerelease, build, hcore, hpre, hbuild⟩ := v
  have hdigit : ∀ t ∈ [major, minor, patch], ∀ c ∈ t, c.isDigit := fun t ht => (hcore t ht).2.1
  -- the pieces hold no character but a dot and those of an identifier
  have hident : ∀ P : Char → Prop, P '.' → (∀ c, identChar c → P c) →
      (∀ c ∈ major ++ below '.' [minor, patch] ++ marked '-' prerelease, P c) ∧
        (P '+' → ∀ c ∈ marked '+' build, P c) := by
    refine fun P hdot hP => ⟨fun c hc => (mem_append.mp hc).elim ?_ ?_, fun hplus =>
      forall_mem_marked hplus hdot fun t ht c hc => hP c ((hbuild t ht).2 c hc)⟩
    · refine forall_mem_joined hdot (fun t ht c hc => hP c ?_) c
      simp [identChar, Char.isAlphanum, hdigit t ht c hc]
    · exact forall_mem_marked (hP '-' rfl) hdot (fun t ht c hc => hP c ((hpre t ht).1.2 c hc)) c
  have hblank : trim (text ⟨major, minor, patch, prerelease, build, hcore, hpre, hbuild⟩) =
      text ⟨major, minor, patch, prerelease, build, hcore, hpre, hbuild⟩ := by
    obtain ⟨hmain, hmark⟩ := hident (isBlank · = false) (by decide) isBlank_of_identChar
    exact trim_of_plain fun c hc => (mem_append.mp hc).elim (hmain c) (hmark (by decide) c)
  have hplus : '+' ∉ major ++ below '.' [minor, patch] ++ marked '-' prerelease := fun h =>
    (hident (· ≠ '+') (by decide) (by rintro c hc rfl; exact nomatch hc)).1 _ h rfl
  have hhyphen : '-' ∉ major ++ below '.' [minor, patch] := by
    intro h
    refine forall_mem_joined (P := (· ≠ '-')) (by decide) (fun t ht c hc => ?_) _ h rfl
    rintro rfl
    exact nomatch hdigit t ht _ hc
  have hcoreEq : parseCore (major ++ below '.' [minor, patch]) =
      some (digitsValue major, digitsValue minor, digitsValue patch) := by
    have hnumber : ∀ t ∈ [major, minor, patch], parseNumber t = some (digitsValue t) :=
      fun t ht => if_pos ⟨(hcore t ht).1, all_eq_true.mpr (hdigit t ht)⟩
    have hdot : ∀ t ∈ [major, minor, patch], '.' ∉ t := fun t ht h => nomatch hdigit t ht _ h
    rw [parseCore, splitOn_below '.' (fun t ht => hdot t (mem_cons_of_mem _ ht)) major
      (hdot major mem_cons_self)]
    simp [hnumber]
  have hbuildOk : (marked '+' build).tail?.all fun b =>
      b ≠ [] ∧ b.all fun c => identChar c || c = '.' := by
    cases build with
    | nil => rfl
    | cons t ts =>
      have hall : ∀ c ∈ t ++ below '.' ts, (identChar c || c = '.') = true :=
        forall_mem_joined (P := fun c => (identChar c || c = '.') = true) rfl
          fun u hu c hc => by simp [(hbuild u hu).2 c hc]
      simpa [marked, (hbuild t mem_cons_self).1] using hall
  have hpreEq : (marked '-' prerelease).tail?.elim (some []) parsePrerelease = some prerelease := by
    cases prerelease with
    | nil => rfl
    | cons t ts =>
      have hdot : ∀ u ∈ t :: ts, '.' ∉ u := fun u hu h => nomatch (hpre u hu).1.2 _ h
      have hsplit := splitOn_below '.' (fun u hu => hdot u (mem_cons_of_mem _ hu)) t
        (hdot t mem_cons_self)
      have hall : (t :: ts).all fun i => i ≠ [] ∧ i.all identChar :=
        all_eq_true.mpr fun u hu => by simpa [IsIdentifier] using (hpre u hu).1
      exact (congrArg (fun l => if l.all (fun i => i ≠ [] ∧ i.all identChar) then some l else none)
        hsplit).trans (if_pos hall)
  unfold parseSemver
  simp only [String.toList_ofList, hblank]
  rw [text, breakOff_marked hplus, breakOff_marked hhyphen, if_pos hbuildOk, hcoreEq, hpreEq]
  rfl

theorem keys_semver : v.semver.keys = v.rank.map convert := by
  have hkey : ∀ t, key t = convert (exactKey t) := by
    intro t
    unfold key exactKey
    cases parseNumber t <;> rfl
  have hnumber : ∀ t ∈ [v.major, v.minor, v.patch], exactKey t = toLex (.inl (digitsValue t)) := by
    intro t ht
    obtain ⟨hne, hdigit, -⟩ := v.core_numeric t ht
    rw [exactKey, parseNumber, if_pos ⟨hne, all_eq_true.mpr hdigit⟩]
  unfold Semver.keys rank semver
  by_cases hnil : v.prerelease = []
  · simp only [hnil, if_pos, map_append, map_cons, map_nil, hnumber, mem_cons, true_or, or_true]
    rfl
  · simp [hnil, hnumber, hkey, convert]

theorem isOlderVersion_text : isOlderVersion (String.ofList v.text) (String.ofList w.text) = true ↔
    cut (v.rank.map convert) < cut (w.rank.map convert) := by
  simp only [isOlderVersion, parseSemver_text, decide_eq_true_eq, compareSemver_lt, keys_semver]

end Version

/-- **The order of versions.**  It is strict and transitive on all strings.  Two valid versions are
ordered as section 11 orders them just if, where they first differ, their numbers convert apart and
nothing before is `Infinity`, or what follows equal conversions happens to be in the right order. -/
theorem isOlderVersion_order (v w : Version) :
    (∀ a, isOlderVersion a a = false) ∧
    (∀ a b, isOlderVersion a b = true → isOlderVersion b a = false) ∧
    (∀ a b c, isOlderVersion a b = true → isOlderVersion b c = true → isOlderVersion a c = true) ∧
    (((isOlderVersion (String.ofList v.text) (String.ofList w.text) = true ↔ v.rank < w.rank) ∧
        (isOlderVersion (String.ofList w.text) (String.ofList v.text) = true ↔ w.rank < v.rank)) ↔
      v.rank = w.rank ∨ Apart v.rank w.rank) := by
  have holder : ∀ a b, isOlderVersion a b = true ↔ ∃ s t, parseSemver a = some s ∧
      parseSemver b = some t ∧ cut s.keys < cut t.keys := by
    intro a b
    unfold isOlderVersion
    cases parseSemver a <;> cases parseSemver b <;> simp [compareSemver_lt]
  have htrans : ∀ a b c, isOlderVersion a b = true → isOlderVersion b c = true →
      isOlderVersion a c = true := by
    intro a b c hab hbc
    obtain ⟨s, t, hs, ht, hst⟩ := (holder a b).mp hab
    obtain ⟨t', u, ht', hu, htu⟩ := (holder b c).mp hbc
    obtain rfl : t = t' := Option.some.inj (ht.symm.trans ht')
    exact (holder a c).mpr ⟨s, u, hs, hu, hst.trans htu⟩
  have hirrefl : ∀ a, isOlderVersion a a = false := by
    intro a
    refine Bool.eq_false_iff.mpr fun h => ?_
    obtain ⟨s, t, hs, ht, hst⟩ := (holder a a).mp h
    obtain rfl : s = t := Option.some.inj (hs.symm.trans ht)
    exact lt_irrefl _ hst
  refine ⟨hirrefl, fun a b hab => ?_, htrans, ?_⟩
  · refine Bool.eq_false_iff.mpr fun hba => ?_
    exact absurd (htrans a b a hab hba) (Bool.eq_false_iff.mp (hirrefl a))
  · rw [Version.isOlderVersion_text, Version.isOlderVersion_text]
    exact agrees_iff v.rank w.rank

/-- Two versions whose last numbers convert to one double. -/
theorem equal_doubles : ¬∀ v w : Version,
    isOlderVersion (String.ofList v.text) (String.ofList w.text) = true ↔ v.rank < w.rank := by
  intro h
  have hnumeric : ∀ patch ∈ ["9007199254740992".toList, "9007199254740993".toList],
      ∀ t ∈ ["0".toList, "0".toList, patch], IsNumeric t := by
    simp [IsNumeric, Char.isDigit]
  have hv := h ⟨_, _, _, [], [], hnumeric _ (.head _), nofun, nofun⟩
    ⟨_, _, _, [], [], hnumeric _ (.tail _ (.head _)), nofun, nofun⟩
  have holder : isOlderVersion "0.0.9007199254740992" "0.0.9007199254740993" = false := by
    decide +kernel
  have hrank : ["0", "0", "9007199254740992"].map (exactKey ·.toList) ++ [release] <
      ["0", "0", "9007199254740993"].map (exactKey ·.toList) ++ [release] := by
    decide +kernel
  exact Bool.false_ne_true (holder.symm.trans (hv.mpr hrank))

/-- **Any version is newer than the older of two, or older than the newer.** -/
theorem isOlderVersion_between {a b c : String} (hb : (parseSemver b).isSome)
    (h : isOlderVersion a c = true) : isOlderVersion a b = true ∨ isOlderVersion b c = true := by
  obtain ⟨t, ht⟩ := Option.isSome_iff_exists.mp hb
  unfold isOlderVersion at h ⊢
  cases ha : parseSemver a with
  | none => simp [ha] at h
  | some s =>
    cases hc : parseSemver c with
    | none => simp [ha, hc] at h
    | some u =>
      simp only [ha, hc, ht, decide_eq_true_eq, compareSemver_lt] at h ⊢
      exact (lt_or_ge (cut s.keys) (cut t.keys)).imp_right fun hge => lt_of_le_of_lt hge h

theorem isOlderVersion_between_prerelease : isOlderVersion "1.0.0-rc.1" "1.0.0-rc.2" = true ∨
    isOlderVersion "1.0.0-rc.2" "1.0.0" = true :=
  isOlderVersion_between (by decide +kernel) (by decide +kernel)

end Lasterm.Hub.Versions
