import Lasterm.Agent.Terminal
import Mathlib.Data.List.Infix

/-!
# Cursor queries in a terminal's output

`strip_dsr` of `crates/lasterm-agent/src/handler.rs` takes the query `ESC [ 6 n` out of what ConPTY
prints, since the client's terminal would answer it into the shell.  The reader applies it to each
read apart, and keeps nothing from one read to the next.

## Main results

* `output_eq_iff` — reads are stripped like the stream, exactly if every query ends in its read.
-/

namespace Lasterm.Agent

open List

/-- `DSR`, the query `ESC [ 6 n`. -/
def dsr : List UInt8 := [0x1B, 0x5B, 0x36, 0x6E]

/-- What the reader sends on of its reads: an empty chunk is skipped. -/
def output (reads : List (List UInt8)) : List (List UInt8) :=
  (reads.map stripDsr).filter (· ≠ [])

/-- A query begins in `a` and ends in what follows it. -/
def Straddles (a b : List UInt8) : Prop := ∃ x y, x ≠ [] ∧ y ≠ [] ∧ x ++ y = dsr ∧ x <:+ a ∧ y <+: b

/-- Every query ends in the read it begins in. -/
def Uncut : List (List UInt8) → Prop
  | [] => True
  | read :: reads => ¬Straddles read reads.flatten ∧ Uncut reads

/-- `out` are the pieces of `data` between its queries. -/
def Pieces (data out : List UInt8) : Prop :=
  ∃ (p : List UInt8) (ps : List (List UInt8)), data = p ++ ps.flatMap (dsr ++ ·) ∧
    (∀ q ∈ p :: ps, ¬dsr <:+: q) ∧ out = p ++ ps.flatten

variable {a b : List UInt8}

/-! ### The loop, byte by byte -/

theorem stripDsr_query (data : List UInt8) : stripDsr (dsr ++ data) = stripDsr data := by
  simp [dsr, stripDsr]

theorem stripDsr_other {c : UInt8} {rest : List UInt8} (h : ¬dsr <+: c :: rest) :
    stripDsr (c :: rest) = c :: stripDsr rest := by
  match rest with
  | [] | [_] | [_, _] => rfl
  | b₁ :: b₂ :: b₃ :: rest =>
    rw [stripDsr, if_neg]
    rintro ⟨rfl, rfl, rfl, rfl⟩
    exact h (prefix_append dsr rest)

theorem stream_induction {P : List UInt8 → Prop} (nil : P []) (query : ∀ l, P l → P (dsr ++ l))
    (other : ∀ c l, ¬dsr <+: c :: l → P l → P (c :: l)) (l : List UInt8) : P l := by
  induction h : l.length using Nat.strongRecOn generalizing l with
  | ind n ih =>
    cases l with
    | nil => exact nil
    | cons c rest =>
      by_cases hq : dsr <+: c :: rest
      · obtain ⟨t, ht⟩ := hq
        rw [← ht] at h ⊢
        refine query t (ih t.length ?_ t rfl)
        rw [← h, length_append]
        simp [dsr]
      · exact other c rest hq (ih rest.length (by simp [← h]) rest rfl)

theorem stripDsr_of_not_infix {data : List UInt8} (h : ¬dsr <:+: data) :
    stripDsr data = data := by
  induction data with
  | nil => rfl
  | cons c rest ih =>
    have hc : ¬dsr <+: c :: rest := fun hp => h hp.isInfix
    have hrest : ¬dsr <:+: rest := fun hi => h (hi.trans (suffix_cons c rest).isInfix)
    rw [stripDsr_other hc, ih hrest]

/-- **What is kept** is what is between the queries. -/
theorem Pieces.stripDsr (data : List UInt8) : Pieces data (stripDsr data) := by
  induction data using stream_induction with
  | nil => exact ⟨[], [], rfl, by simp [dsr], rfl⟩
  | query l ih =>
    obtain ⟨p, ps, hl, hfree, hout⟩ := ih
    refine ⟨[], p :: ps, by rw [hl]; simp, ?_, by rw [stripDsr_query, hout]; rfl⟩
    exact forall_mem_cons.mpr ⟨by simp [dsr], hfree⟩
  | other c l hc ih =>
    obtain ⟨p, ps, rfl, hfree, hout⟩ := ih
    obtain ⟨hp, hps⟩ := forall_mem_cons.mp hfree
    refine ⟨c :: p, ps, rfl, forall_mem_cons.mpr ⟨fun hin => ?_, hps⟩, ?_⟩
    · obtain hin | hin := infix_cons_iff.mp hin
      · exact hc (hin.trans (prefix_append (c :: p) _))
      · exact hp hin
    · rw [stripDsr_other hc, hout, cons_append]

/-! ### Two reads -/

/-- No query begins in bytes without `ESC`. -/
theorem not_straddles_of_plain (h : ∀ c ∈ a, c ≠ 0x1B) : ¬Straddles a b := by
  rintro ⟨x, y, hx, -, hxy, hxa, -⟩
  obtain ⟨c, x, rfl⟩ := exists_cons_of_ne_nil hx
  exact h c (hxa.mem mem_cons_self) (cons.inj hxy).1

/-- No query that began before goes on with `ESC`. -/
theorem not_straddles_of_esc (h : b.head? = some 0x1B) : ¬Straddles a b := by
  rintro ⟨x, y, hx, hy, hxy, -, t, rfl⟩
  obtain ⟨c, x, rfl⟩ := exists_cons_of_ne_nil hx
  obtain ⟨e, y, rfl⟩ := exists_cons_of_ne_nil hy
  have hmem : e ∈ [0x5B, 0x36, (0x6E : UInt8)] := (cons.inj hxy).2 ▸ by simp
  obtain rfl : e = 0x1B := Option.some.inj h
  exact absurd hmem (by decide)

theorem stripDsr_append (h : ¬Straddles a b) :
    stripDsr (a ++ b) = stripDsr a ++ stripDsr b := by
  induction a using stream_induction with
  | nil => rfl
  | query l ih =>
    have hl : ¬Straddles l b := fun ⟨x, y, hx, hy, hxy, hxl, hyb⟩ =>
      h ⟨x, y, hx, hy, hxy, hxl.trans (suffix_append dsr l), hyb⟩
    rw [append_assoc, stripDsr_query, stripDsr_query, ih hl]
  | other c l hc ih =>
    have hl : ¬Straddles l b := fun ⟨x, y, hx, hy, hxy, hxl, hyb⟩ =>
      h ⟨x, y, hx, hy, hxy, hxl.trans (suffix_cons c l), hyb⟩
    have hcb : ¬dsr <+: c :: (l ++ b) := by
      intro hp
      obtain hin | ⟨y, hy⟩ := prefix_or_prefix_of_prefix hp (prefix_append (c :: l) b)
      · exact hc hin
      · rw [← hy, ← cons_append, prefix_append_right_inj] at hp
        refine h ⟨c :: l, y, by simp, ?_, hy, suffix_refl _, hp⟩
        rintro rfl
        exact hc ⟨[], by simpa using hy.symm⟩
    rw [cons_append, stripDsr_other hcb, stripDsr_other hc, ih hl, cons_append]

theorem length_stripDsr_append (h : Straddles a b) :
    (stripDsr (a ++ b)).length + 4 = (stripDsr a).length + (stripDsr b).length := by
  obtain ⟨x, y, hx, hy, hxy, ⟨s, rfl⟩, ⟨t, rfl⟩⟩ := h
  have hlen : x.length + y.length = 4 := by rw [← length_append, hxy]; rfl
  have hpos := length_pos_iff.mpr hx
  have hpos' := length_pos_iff.mpr hy
  have hshort : ∀ z : List UInt8, z.length < 4 → stripDsr z = z := fun z hz =>
    stripDsr_of_not_infix fun hin => absurd hin.length_le (Nat.not_le.mpr hz)
  have hxs : ¬Straddles s x := by
    refine not_straddles_of_esc ?_
    obtain ⟨c, x, rfl⟩ := exists_cons_of_ne_nil hx
    exact congrArg some (cons.inj hxy).1
  have hyt : ¬Straddles y t := by
    refine not_straddles_of_plain fun c hc => ?_
    obtain ⟨e, x, rfl⟩ := exists_cons_of_ne_nil hx
    have hmem : c ∈ [0x5B, 0x36, (0x6E : UInt8)] := (cons.inj hxy).2 ▸ by simp [hc]
    rintro rfl
    exact absurd hmem (by decide)
  have hwhole : stripDsr (s ++ x ++ (y ++ t)) = stripDsr s ++ stripDsr t := by
    rw [append_assoc, ← append_assoc x, hxy,
      stripDsr_append (not_straddles_of_esc (b := dsr ++ t) rfl), stripDsr_query]
  rw [hwhole, stripDsr_append hxs, stripDsr_append hyt, hshort x (by omega), hshort y (by omega)]
  simp only [length_append]
  omega

theorem length_stripDsr_append_le (a b : List UInt8) :
    (stripDsr (a ++ b)).length ≤ (stripDsr a).length + (stripDsr b).length := by
  by_cases h : Straddles a b
  · have heq := length_stripDsr_append h
    omega
  · rw [stripDsr_append h, length_append]

/-! ### Any reads -/

theorem flatten_output (reads : List (List UInt8)) :
    (output reads).flatten = (reads.map stripDsr).flatten := by
  rw [output]
  induction reads.map stripDsr with
  | nil => rfl
  | cons chunk chunks ih =>
    by_cases h : chunk = [] <;> simpa [h] using ih

theorem length_stripDsr_flatten_le (reads : List (List UInt8)) :
    (stripDsr reads.flatten).length ≤ ((reads.map stripDsr).flatten).length := by
  induction reads with
  | nil => exact le_rfl
  | cons read reads ih =>
    have hle := length_stripDsr_append_le read reads.flatten
    rw [flatten_cons, map_cons, flatten_cons, length_append]
    omega

theorem flatten_stripDsr_iff (reads : List (List UInt8)) :
    (reads.map stripDsr).flatten = stripDsr reads.flatten ↔ Uncut reads := by
  induction reads with
  | nil => exact iff_of_true rfl trivial
  | cons read reads ih =>
    rw [map_cons, flatten_cons, flatten_cons, Uncut]
    by_cases h : Straddles read reads.flatten
    · refine iff_of_false (fun heq => ?_) fun hu => hu.1 h
      have hlen := congrArg length heq
      have hcut := length_stripDsr_append h
      have hle := length_stripDsr_flatten_le reads
      rw [length_append] at hlen
      omega
    · rw [stripDsr_append h, append_cancel_left_eq, ih]
      exact (and_iff_right h).symm

/-- **What is sent on of any reads** is the stream stripped as a whole, the bytes between its
queries, exactly if every query ends in the read it begins in. -/
theorem output_eq_iff (reads : List (List UInt8)) :
    ((output reads).flatten = stripDsr reads.flatten ∧
      Pieces reads.flatten (output reads).flatten) ↔ Uncut reads := by
  rw [flatten_output, ← flatten_stripDsr_iff]
  refine ⟨And.left, fun h => ⟨h, ?_⟩⟩
  rw [h]
  exact Pieces.stripDsr reads.flatten

/-- A query cut in the middle goes through whole. -/
theorem query_cut_in_two :
    ¬((output [[0x1B, 0x5B], [0x36, 0x6E]]).flatten =
      stripDsr [[0x1B, 0x5B], [0x36, 0x6E]].flatten) ∧
    dsr <:+: (output [[0x1B, 0x5B], [0x36, 0x6E]]).flatten := by
  decide

end Lasterm.Agent
