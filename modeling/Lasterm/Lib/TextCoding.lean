import Lasterm.Lib.Cuts

/-!
# Texts written in code units

A program sees a text as a list of code units: bytes where strings are UTF-8, 16-bit units where they
are UTF-16.  A scanner that looks for a few characters can look for their units instead, if each of
them is one unit that no other character's coding has.

## Main definitions

* `TextCoding` — how characters are written in units.
* `TextCoding.text` — a text, written so.
* `TextCoding.Marks` — a character that is one unit, which stands for it alone.
* `utf8`, `utf16` — the two codings.

## Main results

* `TextCoding.head?_text`, `TextCoding.breakAt_text` — such a character is found by its unit.
* `utf8_marks`, `utf16_marks` — the characters below 128 are such.
-/

/-- How characters are written in units. -/
structure TextCoding (υ : Type*) where
  enc : Char → List υ
  enc_ne_nil : ∀ c, enc c ≠ []

namespace TextCoding

variable {υ : Type*} (k : TextCoding υ)

/-- A text in units. -/
def text (s : List Char) : List υ := s.flatMap k.enc

/-- The character `c` is the unit `u`, which is in no other character's coding. -/
structure Marks (c : Char) (u : υ) : Prop where
  enc : k.enc c = [u]
  only : ∀ c', u ∈ k.enc c' → c' = c

@[simp] theorem text_nil : k.text [] = [] := rfl

theorem text_cons (c : Char) (s : List Char) : k.text (c :: s) = k.enc c ++ k.text s := by
  simp [text]

@[simp] theorem text_append (s t : List Char) : k.text (s ++ t) = k.text s ++ k.text t := by
  simp [text]

/-- Where no character's coding starts another's, a text is known by its units. -/
theorem text_injective
    (h : ∀ c d (s t : List υ), k.enc c ++ s = k.enc d ++ t → c = d ∧ s = t) :
    Function.Injective k.text := by
  intro s t hst
  induction s generalizing t with
  | nil =>
    cases t with
    | nil => rfl
    | cons d t =>
      rw [k.text_cons] at hst
      exact absurd (List.append_eq_nil_iff.mp hst.symm).1 (k.enc_ne_nil d)
  | cons c s ih =>
    cases t with
    | nil =>
      rw [k.text_cons] at hst
      exact absurd (List.append_eq_nil_iff.mp hst).1 (k.enc_ne_nil c)
    | cons d t =>
      rw [k.text_cons, k.text_cons] at hst
      obtain ⟨rfl, hrest⟩ := h c d _ _ hst
      rw [ih hrest]

variable {k} {c : Char} {u : υ}

theorem Marks.text_cons (h : k.Marks c u) (s : List Char) : k.text (c :: s) = u :: k.text s := by
  rw [TextCoding.text_cons, h.enc, List.singleton_append]

/-- A text starts with the unit of a character exactly if it starts with the character. -/
theorem head?_text (h : k.Marks c u) (s : List Char) :
    (k.text s).head? = some u ↔ s.head? = some c := by
  cases s with
  | nil => simp
  | cons c' s =>
    constructor
    · intro hu
      have hmem : u ∈ k.enc c' := by
        rw [k.text_cons] at hu
        cases henc : k.enc c' with
        | nil => exact absurd henc (k.enc_ne_nil c')
        | cons v vs =>
          rw [henc] at hu
          cases hu
          exact List.mem_cons_self
      rw [h.only c' hmem, List.head?_cons]
    · intro hc
      cases hc
      rw [h.text_cons, List.head?_cons]

theorem tail_text (h : k.Marks c u) {s : List Char} (hs : s.head? = some c) :
    (k.text s).tail = k.text s.tail := by
  obtain ⟨t, rfl⟩ := List.head?_eq_some_iff.mp hs
  rw [h.text_cons]
  rfl

variable [DecidableEq υ]

/-- The first occurrence of a character is the first of its unit. -/
theorem breakAt_text (h : k.Marks c u) (s : List Char) :
    breakAt u (k.text s) = (breakAt c s).map fun p => (k.text p.1, k.text p.2) := by
  induction s with
  | nil => rfl
  | cons c' s ih =>
    by_cases hc : c' = c
    · subst hc
      rw [h.text_cons, breakAt, breakAt, if_pos rfl, if_pos rfl]
      rfl
    · have hnot : u ∉ k.enc c' := fun hmem => hc (h.only c' hmem)
      rw [k.text_cons, breakAt_append hnot, breakAt, if_neg hc, ih, Option.map_map, Option.map_map]
      exact congrArg (Option.map · _) (funext fun p => Prod.ext (k.text_cons c' p.1).symm rfl)

end TextCoding

/-! ### UTF-8 -/

/-- UTF-8. -/
def utf8 : TextCoding UInt8 where
  enc := String.utf8EncodeChar
  enc_ne_nil c h := by
    have hlen := String.length_utf8EncodeChar c
    rw [h] at hlen
    exact absurd hlen (Nat.ne_of_lt c.utf8Size_pos)

/-- A byte of a character's coding behind the first. -/
theorem utf8_tail (b : UInt8) : 0x80 ≤ (b &&& 0x3f ||| 0x80) ∧ (b &&& 0x3f ||| 0x80) < 0xc0 := by
  obtain ⟨x⟩ := b
  revert x
  decide +kernel

theorem utf8_first_of_two (b : UInt8) :
    0xc0 ≤ (b &&& 0x1f ||| 0xc0) ∧ (b &&& 0x1f ||| 0xc0) < 0xe0 := by
  obtain ⟨x⟩ := b
  revert x
  decide +kernel

theorem utf8_first_of_three (b : UInt8) :
    0xe0 ≤ (b &&& 0x0f ||| 0xe0) ∧ (b &&& 0x0f ||| 0xe0) < 0xf0 := by
  obtain ⟨x⟩ := b
  revert x
  decide +kernel

theorem utf8_first_of_four (b : UInt8) : 0xf0 ≤ (b &&& 0x07 ||| 0xf0) := by
  obtain ⟨x⟩ := b
  revert x
  decide +kernel

/-- How many bytes a character has whose first byte is `b`. -/
def utf8Width (b : UInt8) : ℕ :=
  if b < 0x80 then 1 else if b < 0xe0 then 2 else if b < 0xf0 then 3 else 4

/-- The coding of a character: its first byte says how long it is, and those behind it are
between 128 and 192. -/
theorem utf8_shape (c : Char) : ∃ b bs, utf8.enc c = b :: bs ∧ (b < 0x80 ∨ 0xc0 ≤ b) ∧
    bs.length + 1 = utf8Width b ∧ (∀ x ∈ bs, 0x80 ≤ x ∧ x < 0xc0) ∧
      (b < 0x80 → bs = [] ∧ c.toNat = b.toNat) := by
  have hbig : ∀ b x : UInt8, 0xc0 ≤ b → b < 0x80 → False := by
    intro b _ hle hlt
    exact absurd (UInt8.lt_of_le_of_lt hle hlt) (by decide)
  have htail := utf8_tail
  rcases c.utf8Size_eq with h | h | h | h
  · have hval := Char.utf8Size_eq_one_iff.mp h
    have hlt : c.toNat < 128 := by
      have hle := UInt32.le_iff_toNat_le.mp hval
      exact Nat.lt_succ_of_le hle
    have hnat : c.val.toUInt8.toNat = c.toNat := by
      rw [UInt32.toNat_toUInt8]
      exact Nat.mod_eq_of_lt (Nat.lt_trans hlt (by decide))
    have hbyte : c.val.toUInt8 < 0x80 := UInt8.lt_iff_toNat_lt.mpr (hnat ▸ hlt)
    refine ⟨_, [], String.utf8EncodeChar_eq_singleton h, .inl hbyte, ?_, nofun, fun _ => ⟨rfl, hnat.symm⟩⟩
    rw [utf8Width, if_pos hbyte]
    rfl
  · obtain ⟨hlo, hhi⟩ := utf8_first_of_two (c.val >>> 6).toUInt8
    refine ⟨_, _, String.utf8EncodeChar_eq_cons_cons h, .inr hlo, ?_, ?_, fun hlt => (hbig _ 0 hlo hlt).elim⟩
    · rw [utf8Width, if_neg fun hlt => hbig _ 0 hlo hlt, if_pos hhi]
      rfl
    · simp [htail]
  · obtain ⟨hlo, hhi⟩ := utf8_first_of_three (c.val >>> 12).toUInt8
    have hc0 : (0xc0 : UInt8) ≤ ((c.val >>> 12).toUInt8 &&& 0x0f ||| 0xe0) := UInt8.le_trans (by decide) hlo
    refine ⟨_, _, String.utf8EncodeChar_eq_cons_cons_cons h, .inr hc0, ?_, ?_,
      fun hlt => (hbig _ 0 hc0 hlt).elim⟩
    · rw [utf8Width, if_neg fun hlt => hbig _ 0 hc0 hlt, if_neg (UInt8.not_lt.mpr hlo), if_pos hhi]
      rfl
    · simp [htail]
  · have hlo := utf8_first_of_four (c.val >>> 18).toUInt8
    have hc0 : (0xc0 : UInt8) ≤ ((c.val >>> 18).toUInt8 &&& 0x07 ||| 0xf0) := UInt8.le_trans (by decide) hlo
    have he0 : (0xe0 : UInt8) ≤ ((c.val >>> 18).toUInt8 &&& 0x07 ||| 0xf0) := UInt8.le_trans (by decide) hlo
    refine ⟨_, _, String.utf8EncodeChar_eq_cons_cons_cons_cons h, .inr hc0, ?_, ?_,
      fun hlt => (hbig _ 0 hc0 hlt).elim⟩
    · rw [utf8Width, if_neg fun hlt => hbig _ 0 hc0 hlt, if_neg (UInt8.not_lt.mpr he0),
        if_neg (UInt8.not_lt.mpr hlo)]
      rfl
    · simp [htail]

theorem utf8_marks {c : Char} {u : UInt8} (hc : utf8.enc c = [u]) (hu : u < 0x80) :
    utf8.Marks c u where
  enc := hc
  only c' hmem := by
    have hof : ∀ d : Char, u ∈ utf8.enc d → d.toNat = u.toNat := by
      intro d hd
      obtain ⟨b, bs, henc, -, -, htail, hone⟩ := utf8_shape d
      rw [henc] at hd
      rcases List.mem_cons.mp hd with rfl | hd
      · exact (hone hu).2
      · exact absurd (UInt8.lt_of_le_of_lt (htail u hd).1 hu) (UInt8.lt_irrefl _)
    refine Char.toNat_inj.mp ((hof c' hmem).trans (hof c ?_).symm)
    rw [hc]
    exact List.mem_singleton_self u

/-! ### UTF-16 -/

/-- The units of a character: one, or a pair of surrogates. -/
def utf16EncodeChar (c : Char) : List UInt16 :=
  if c.toNat < 0x10000 then [UInt16.ofNat c.toNat]
  else
    [UInt16.ofNat (0xd800 + (c.toNat - 0x10000) / 0x400),
      UInt16.ofNat (0xdc00 + (c.toNat - 0x10000) % 0x400)]

/-- UTF-16. -/
def utf16 : TextCoding UInt16 where
  enc := utf16EncodeChar
  enc_ne_nil c := by
    unfold utf16EncodeChar
    split <;> exact List.cons_ne_nil _ _

theorem Char.toNat_lt_max (c : Char) : c.toNat < 0x110000 := by
  rcases c.valid with h | h
  · exact Nat.lt_trans h (by decide)
  · exact h.2

theorem utf16_marks {c : Char} {u : UInt16} (hc : utf16.enc c = [u]) (hu : u < 0x80) :
    utf16.Marks c u where
  enc := hc
  only c' hmem := by
    have hu := UInt16.lt_iff_toNat_lt.mp hu
    have hu : u.toNat < 128 := hu
    have hof : ∀ d : Char, u ∈ utf16.enc d → d.toNat = u.toNat := by
      intro d hd
      have hmax := Char.toNat_lt_max d
      change u ∈ utf16EncodeChar d at hd
      unfold utf16EncodeChar at hd
      split at hd
      · next hlt =>
        obtain rfl := List.mem_singleton.mp hd
        rw [UInt16.toNat_ofNat']
        exact (Nat.mod_eq_of_lt hlt).symm
      · -- a surrogate is above every character that is a unit below 128
        have hno : ∀ n, 0xd800 ≤ n → n < 0x10000 → u ≠ UInt16.ofNat n := by
          rintro n hlo hhi rfl
          rw [UInt16.toNat_ofNat', Nat.mod_eq_of_lt hhi] at hu
          omega
        rcases List.mem_cons.mp hd with hd | hd
        · exact absurd hd (hno _ (by omega) (by omega))
        · exact absurd (List.mem_singleton.mp hd) (hno _ (by omega) (by omega))
    refine Char.toNat_inj.mp ((hof c' hmem).trans (hof c ?_).symm)
    rw [hc]
    exact List.mem_singleton_self u

/-- A character that is one unit is no surrogate. -/
theorem utf16_no_surrogate (c : Char) : c.toNat < 0xd800 ∨ 0xe000 ≤ c.toNat := by
  rcases c.valid with h | h
  · exact .inl h
  · exact .inr h.1

theorem UInt16.ofNat_inj_of_lt {m n : ℕ} (hm : m < 0x10000) (hn : n < 0x10000)
    (h : UInt16.ofNat m = UInt16.ofNat n) : m = n := by
  have := congrArg UInt16.toNat h
  rwa [UInt16.toNat_ofNat', UInt16.toNat_ofNat', Nat.mod_eq_of_lt hm, Nat.mod_eq_of_lt hn] at this

/-- The first unit tells whether a second one follows. -/
theorem utf16_text_injective : Function.Injective utf16.text := by
  refine utf16.text_injective ?_
  intro c d s t h
  have hc := Char.toNat_lt_max c
  have hd := Char.toNat_lt_max d
  have hc' := utf16_no_surrogate c
  have hd' := utf16_no_surrogate d
  change utf16EncodeChar c ++ s = utf16EncodeChar d ++ t at h
  unfold utf16EncodeChar at h
  split at h <;> split at h
  · obtain ⟨hunit, rfl⟩ := List.cons.inj h
    exact ⟨Char.toNat_inj.mp (UInt16.ofNat_inj_of_lt (by omega) (by omega) hunit), rfl⟩
  · have := UInt16.ofNat_inj_of_lt (by omega) (by omega) (List.cons.inj h).1
    omega
  · have := UInt16.ofNat_inj_of_lt (by omega) (by omega) (List.cons.inj h).1
    omega
  · obtain ⟨hhigh, hrest⟩ := List.cons.inj h
    obtain ⟨hlow, rfl⟩ := List.cons.inj hrest
    have hhigh := UInt16.ofNat_inj_of_lt (by omega) (by omega) hhigh
    have hlow := UInt16.ofNat_inj_of_lt (by omega) (by omega) hlow
    exact ⟨Char.toNat_inj.mp (by omega), rfl⟩
