import Mathlib.Data.List.Basic

/-!
# Frames cut from a stream

A reader keeps the bytes that do not make a whole frame yet, and takes every whole frame
from the front of what it has when more bytes come.  What is at the front is decided by a
function `front`; a push either gives the messages it took, or the error of a bad frame.

## Main definitions

* `Front` — what is at the front: not enough, a bad frame, or a frame.
* `Lawful front` — more bytes behind a frame do not change it, and fewer do not make one.
* `drain`, `push`, `pushAll` — the reader.
* `Whole front ms l` — the bytes `l` are the frames of the messages `ms`.

## Main results

* `pushAll_of_drain` — a stream without a bad frame gives the same however it is cut.
* `delivered_of_bad` — **which messages before a bad frame are given**: all of them exactly
  when some chunk ends behind the last of their frames and before the bad one is known.
-/

namespace Frames

open List

variable {β μ ε : Type*}

/-- What is at the front of what was read. -/
inductive Front (μ ε : Type*)
  | more
  | bad (e : ε)
  /-- A message, and how many bytes its frame takes. -/
  | frame (msg : μ) (length : ℕ)

/-- Whether there is a frame depends on its own bytes only. -/
structure Lawful (front : List β → Front μ ε) : Prop where
  pos : ∀ l m n, front l = .frame m n → 0 < n
  le : ∀ l m n, front l = .frame m n → n ≤ l.length
  append : ∀ l m n x, front l = .frame m n → front (l ++ x) = .frame m n
  short : ∀ l m n x, front (l ++ x) = .frame m n → l.length < n → front l = .more
  bad_append : ∀ l e x, front l = .bad e → front (l ++ x) = .bad e

/-- What a reader makes of what it has: the messages it took, what it keeps, and the bad frame
it stopped at. -/
structure Drained (β μ ε : Type*) where
  messages : List μ
  rest : List β
  error : Option ε

/-- The loop of a reader, with as many turns as `fuel`. -/
def drainFuel (front : List β → Front μ ε) : ℕ → List β → Drained β μ ε
  | 0, l => ⟨[], l, none⟩
  | fuel + 1, l =>
    match front l with
    | .more => ⟨[], l, none⟩
    | .bad e => ⟨[], l, some e⟩
    | .frame m n =>
      let d := drainFuel front fuel (l.drop n)
      ⟨m :: d.messages, d.rest, d.error⟩

/-- The loop of a reader: every turn takes at least a byte. -/
def drain (front : List β → Front μ ε) (l : List β) : Drained β μ ε :=
  drainFuel front (l.length + 1) l

/-- More bytes come. -/
def push (front : List β → Front μ ε) (buffer data : List β) : Except ε (List μ) × List β :=
  let d := drain front (buffer ++ data)
  (match d.error with
    | some e => .error e
    | none => .ok d.messages, d.rest)

/-- The bytes come in chunks: what each push gives, and what is kept at the end. -/
def pushAll (front : List β → Front μ ε) (buffer : List β) :
    List (List β) → List (Except ε (List μ)) × List β
  | [] => ([], buffer)
  | c :: cs =>
    let p := push front buffer c
    let rest := pushAll front p.2 cs
    (p.1 :: rest.1, rest.2)

/-- The messages a sequence of pushes gives. -/
def delivered (outcomes : List (Except ε (List μ))) : List μ :=
  outcomes.flatMap fun
    | .ok ms => ms
    | .error _ => []

/-- The bytes are the frames of the messages, one after the other. -/
inductive Whole (front : List β → Front μ ε) : List μ → List β → Prop
  | nil : Whole front [] []
  | cons {m : μ} {ms : List μ} {w l : List β} :
      front w = .frame m w.length → Whole front ms l → Whole front (m :: ms) (w ++ l)

/-- The bytes `w` make a bad frame, and no fewer of them do. -/
structure BadAt (front : List β → Front μ ε) (w : List β) (e : ε) : Prop where
  bad : front w = .bad e
  short : ∀ l x, w = l ++ x → x ≠ [] → front l = .more

variable {front : List β → Front μ ε} {l x : List β} {m : μ} {n : ℕ} {e : ε}

/-! ### The loop -/

theorem drainFuel_of_lt (hf : Lawful front) {fuel : ℕ} (h : l.length < fuel) :
    drainFuel front fuel l = drain front l := by
  unfold drain
  induction hn : l.length using Nat.strongRecOn generalizing l fuel with
  | ind n ih =>
    subst hn
    obtain ⟨fuel, rfl⟩ : ∃ k, fuel = k + 1 := ⟨fuel - 1, by omega⟩
    simp only [drainFuel]
    cases hl : front l with
    | more | bad => rfl
    | frame m n =>
      have hpos := hf.pos l m n hl
      have hle := hf.le l m n hl
      have hdrop : (l.drop n).length = l.length - n := length_drop
      have hshort : (l.drop n).length < l.length := by omega
      have hleft : drainFuel front fuel (l.drop n) =
          drainFuel front ((l.drop n).length + 1) (l.drop n) :=
        ih _ hshort (by omega) rfl
      have hright : drainFuel front l.length (l.drop n) =
          drainFuel front ((l.drop n).length + 1) (l.drop n) :=
        ih _ hshort (by omega) rfl
      dsimp only
      rw [hleft, hright]

theorem drain_more (h : front l = .more) : drain front l = ⟨[], l, none⟩ := by
  simp only [drain, drainFuel, h]

theorem drain_bad (h : front l = .bad e) : drain front l = ⟨[], l, some e⟩ := by
  simp only [drain, drainFuel, h]

section

variable (hf : Lawful front)
include hf

theorem drain_frame (h : front l = .frame m n) :
    drain front l = ⟨m :: (drain front (l.drop n)).messages, (drain front (l.drop n)).rest,
      (drain front (l.drop n)).error⟩ := by
  have hpos := hf.pos l m n h
  have hle := hf.le l m n h
  have hshort : (l.drop n).length < l.length := by
    rw [length_drop]
    omega
  rw [← drainFuel_of_lt hf hshort]
  simp only [drain, drainFuel, h]

/-- Where the loop stops there is no frame. -/
theorem front_rest (l : List β) :
    front (drain front l).rest =
      match (drain front l).error with
      | some e => .bad e
      | none => .more := by
  induction hn : l.length using Nat.strongRecOn generalizing l with
  | ind n ih =>
    cases hl : front l with
    | more => rw [drain_more hl]; exact hl
    | bad e => rw [drain_bad hl]; exact hl
    | frame m k =>
      have hpos := hf.pos l m k hl
      have hle := hf.le l m k hl
      rw [drain_frame hf hl]
      refine ih _ ?_ (l.drop k) rfl
      rw [length_drop]
      omega

/-- Bytes that come later do not change what was taken, and the loop does not get past a bad
frame. -/
theorem drain_append_eq (l x : List β) :
    drain front (l ++ x) =
      match (drain front l).error with
      | none => ⟨(drain front l).messages ++ (drain front ((drain front l).rest ++ x)).messages,
          (drain front ((drain front l).rest ++ x)).rest,
          (drain front ((drain front l).rest ++ x)).error⟩
      | some e => ⟨(drain front l).messages, (drain front l).rest ++ x, some e⟩ := by
  induction hn : l.length using Nat.strongRecOn generalizing l with
  | ind n ih =>
    cases hl : front l with
    | more =>
      rw [drain_more hl]
      rfl
    | bad e =>
      rw [drain_bad hl]
      exact drain_bad (hf.bad_append l _ x hl)
    | frame m k =>
      have hpos := hf.pos l m k hl
      have hle := hf.le l m k hl
      have hdrop : (l ++ x).drop k = l.drop k ++ x := drop_append_of_le_length hle
      have hrest := ih (l.drop k).length (by rw [length_drop]; omega) (l.drop k) rfl
      rw [drain_frame hf hl, drain_frame hf (hf.append l m k x hl), hdrop, hrest]
      cases (drain front (l.drop k)).error <;> rfl

theorem drain_append (l x : List β) (h : (drain front l).error = none) :
    drain front (l ++ x) =
      ⟨(drain front l).messages ++ (drain front ((drain front l).rest ++ x)).messages,
        (drain front ((drain front l).rest ++ x)).rest,
        (drain front ((drain front l).rest ++ x)).error⟩ := by
  rw [drain_append_eq hf, h]

theorem drain_append_of_error (l x : List β) (h : (drain front l).error = some e) :
    drain front (l ++ x) = ⟨(drain front l).messages, (drain front l).rest ++ x, some e⟩ := by
  rw [drain_append_eq hf, h]

variable {w : List β}

/-- A frame at the front, by its own bytes. -/
theorem drain_cons (h : front w = .frame m w.length) : drain front (w ++ x) =
      ⟨m :: (drain front x).messages, (drain front x).rest, (drain front x).error⟩ := by
  rw [drain_frame hf (hf.append w m w.length x h), drop_left]

variable {ms : List μ}

theorem drain_whole (h : Whole front ms l) (x : List β) : drain front (l ++ x) =
      ⟨ms ++ (drain front x).messages, (drain front x).rest, (drain front x).error⟩ := by
  induction h with
  | nil => rfl
  | cons hw _ ih => rw [append_assoc, drain_cons hf hw, ih, cons_append]

end

/-! ### Any cut of a stream without a bad frame -/

@[simp] theorem delivered_ok (ms : List μ) (os : List (Except ε (List μ))) :
    delivered (.ok ms :: os) = ms ++ delivered os := rfl

@[simp] theorem delivered_error (e : ε) (os : List (Except ε (List μ))) :
    delivered (.error e :: os) = delivered os := rfl

variable {buffer : List β}

theorem push_of_error_none {data : List β} (h : (drain front (buffer ++ data)).error = none) :
    push front buffer data =
      (.ok (drain front (buffer ++ data)).messages, (drain front (buffer ++ data)).rest) := by
  simp only [push, h]

theorem push_of_error {data : List β} (h : (drain front (buffer ++ data)).error = some e) :
    push front buffer data = (.error e, (drain front (buffer ++ data)).rest) := by
  simp only [push, h]

/-- The chunks give what the stream gives, if it has no bad frame. -/
theorem pushAll_of_drain (hf : Lawful front) (chunks : List (List β)) (buffer : List β)
    (hbuffer : front buffer = .more)
    (h : (drain front (buffer ++ chunks.flatten)).error = none) :
    delivered (pushAll front buffer chunks).1 =
        (drain front (buffer ++ chunks.flatten)).messages ∧
      (pushAll front buffer chunks).2 = (drain front (buffer ++ chunks.flatten)).rest ∧
      ∀ o ∈ (pushAll front buffer chunks).1, ∃ ms, o = .ok ms := by
  induction chunks generalizing buffer with
  | nil =>
    rw [flatten_nil, append_nil, drain_more hbuffer]
    exact ⟨rfl, rfl, nofun⟩
  | cons c cs ih =>
    rw [flatten_cons, ← append_assoc] at h ⊢
    -- a bad frame in the first chunk would be one of the stream
    have hfirst : (drain front (buffer ++ c)).error = none := by
      cases herr : (drain front (buffer ++ c)).error with
      | none => rfl
      | some e =>
        have hkept := drain_append_of_error hf (buffer ++ c) cs.flatten herr
        rw [hkept] at h
        cases h
    have hmore : front (drain front (buffer ++ c)).rest = .more := by
      have hrest := front_rest hf (buffer ++ c)
      rwa [hfirst] at hrest
    rw [drain_append hf _ _ hfirst] at h ⊢
    obtain ⟨hmessages, hrest, hok⟩ := ih _ hmore h
    simp only [pushAll, push_of_error_none hfirst, delivered_ok, hmessages, hrest, true_and]
    intro o ho
    rcases mem_cons.mp ho with rfl | ho
    · exact ⟨_, rfl⟩
    · exact hok o ho

/-! ### Readers that differ in what they make of a bad frame -/

/-- The same front, with another error for a bad frame. -/
def Front.mapBad {ε' : Type*} (f : ε → ε') : Front μ ε → Front μ ε'
  | .more => .more
  | .bad e => .bad (f e)
  | .frame m n => .frame m n

theorem Front.mapBad_frame {ε' : Type*} (f : ε → ε') (m : μ) (n : ℕ) :
    (Front.frame m n).mapBad f = .frame m n := rfl

theorem drainFuel_mapBad {ε' : Type*} (f : ε → ε') (front : List β → Front μ ε) (fuel : ℕ)
    (l : List β) :
    drainFuel (fun l => (front l).mapBad f) fuel l =
      ⟨(drainFuel front fuel l).messages, (drainFuel front fuel l).rest,
        (drainFuel front fuel l).error.map f⟩ := by
  induction fuel generalizing l with
  | zero => rfl
  | succ fuel ih =>
    simp only [drainFuel]
    cases front l with
    | more | bad => rfl
    | frame m n =>
      rw [Front.mapBad_frame]
      dsimp only
      rw [ih]

/-- Readers whose bad frames differ in their error only give the same, but for the error. -/
theorem pushAll_mapBad {ε' : Type*} (f : ε → ε') (front : List β → Front μ ε)
    (chunks : List (List β)) (buffer : List β) :
    pushAll (fun l => (front l).mapBad f) buffer chunks =
      ((pushAll front buffer chunks).1.map (·.mapError f), (pushAll front buffer chunks).2) := by
  induction chunks generalizing buffer with
  | nil => rfl
  | cons c cs ih =>
    have hpush : push (fun l => (front l).mapBad f) buffer c =
        ((push front buffer c).1.mapError f, (push front buffer c).2) := by
      simp only [push, drain, drainFuel_mapBad]
      cases (drainFuel front ((buffer ++ c).length + 1) (buffer ++ c)).error <;> rfl
    simp only [pushAll, hpush, ih, map_cons]

theorem drainFuel_congr {front front' : List β → Front μ ε} {ok : ε → Prop}
    (h : ∀ l, (∀ e, front l = .bad e → ok e) → front' l = front l) (fuel : ℕ) (l : List β)
    (hok : ∀ e, (drainFuel front fuel l).error = some e → ok e) :
    drainFuel front' fuel l = drainFuel front fuel l := by
  induction fuel generalizing l with
  | zero => rfl
  | succ fuel ih =>
    simp only [drainFuel] at hok ⊢
    cases hl : front l with
    | more =>
      have hl' : front' l = .more := by rw [h l (by rw [hl]; exact nofun), hl]
      rw [hl']
    | bad e =>
      rw [hl] at hok
      have hl' : front' l = .bad e := by
        rw [h l ?_, hl]
        intro e' he'
        rw [hl] at he'
        cases he'
        exact hok e rfl
      rw [hl']
    | frame m n =>
      rw [hl] at hok
      have hl' : front' l = .frame m n := by rw [h l (by rw [hl]; exact nofun), hl]
      rw [hl']
      dsimp only at hok ⊢
      rw [ih (l.drop n) hok]

/-- Two readers give the same as long as none meets a bad frame they disagree on. -/
theorem pushAll_congr {front front' : List β → Front μ ε} {ok : ε → Prop}
    (h : ∀ l, (∀ e, front l = .bad e → ok e) → front' l = front l) (chunks : List (List β))
    (buffer : List β) (hok : ∀ e, .error e ∈ (pushAll front buffer chunks).1 → ok e) :
    pushAll front' buffer chunks = pushAll front buffer chunks := by
  induction chunks generalizing buffer with
  | nil => rfl
  | cons c cs ih =>
    have hpush : push front' buffer c = push front buffer c := by
      have hdrain : drain front' (buffer ++ c) = drain front (buffer ++ c) := by
        refine drainFuel_congr h _ _ ?_
        intro e he
        refine hok e ?_
        simp only [pushAll, push_of_error he]
        exact mem_cons_self
      unfold push
      rw [hdrain]
    simp only [pushAll] at hok ⊢
    rw [hpush, ih _ fun e he => hok e (mem_cons_of_mem _ he)]

/-! ### Before a bad frame -/

theorem Whole.eq_nil_iff (hf : Lawful front) (h : Whole front ms l) : ms = [] ↔ l = [] := by
  cases h with
  | nil => simp
  | @cons m ms w l hw _ =>
    have hpos := hf.pos w m _ hw
    have hne : w ++ l ≠ [] := by
      intro hnil
      rw [(append_eq_nil_iff.mp hnil).1] at hpos
      exact absurd hpos (Nat.lt_irrefl 0)
    simp [hne]

/-- A reader that keeps `b` keeps less than the frames of the stream, or than the bad one. -/
theorem Whole.lt_of_more (hf : Lawful front) (h : Whole front ms l) {b c x : List β}
    (hw : BadAt front w e) (hb : front b = .more) (hstream : b ++ c = l ++ (w ++ x)) :
    b.length < l.length + w.length ∧ (l ≠ [] → b.length < l.length) := by
  have hlt : ∀ f y : List β, b ++ c = f ++ y → front f ≠ .more →
      (∀ z, front (f ++ z) ≠ .more) → b.length < f.length := by
    intro f y hy _ hmore
    by_contra hge
    have hpre : f <+: b ++ c := by
      rw [hy]
      exact prefix_append _ _
    obtain ⟨z, rfl⟩ := prefix_of_prefix_length_le hpre (prefix_append b c) (by omega)
    exact hmore z hb
  cases h with
  | nil =>
    refine ⟨?_, fun hne => absurd rfl hne⟩
    rw [length_nil, Nat.zero_add]
    refine hlt w x hstream ?_ ?_
    · rw [hw.bad]; exact nofun
    · intro z
      rw [hf.bad_append w e z hw.bad]
      exact nofun
  | @cons m ms f l hfr _ =>
    have hshort : b.length < f.length := by
      refine hlt f (l ++ (w ++ x)) (by rw [hstream, append_assoc]) ?_ ?_
      · rw [hfr]; exact nofun
      · intro z
        rw [hf.append f m _ z hfr]
        exact nofun
    rw [length_append]
    exact ⟨by omega, fun _ => by omega⟩

/-- What the loop makes of a part of the stream that ends before the bad frame is known: the
frames that are whole in it. -/
theorem Whole.drain_part (hf : Lawful front) (h : Whole front ms l) {b y : List β}
    (hw : BadAt front w e) (hstream : b ++ y = l ++ w) (hy : y ≠ []) :
    ∃ ms₁ ms₂ l₁ l₂ r, ms = ms₁ ++ ms₂ ∧ l = l₁ ++ l₂ ∧ Whole front ms₂ l₂ ∧ b = l₁ ++ r ∧
      drain front b = ⟨ms₁, r, none⟩ ∧ front r = .more := by
  induction h generalizing b with
  | nil =>
    have hmore := hw.short b y hstream.symm hy
    exact ⟨[], [], [], [], b, rfl, rfl, .nil, rfl, drain_more hmore, hmore⟩
  | @cons m ms f l hfr hl ih =>
    rw [append_assoc] at hstream
    have hpre : f <+: b ++ y := by
      rw [hstream]
      exact prefix_append _ _
    by_cases hlen : f.length ≤ b.length
    · -- the first frame is whole in it
      obtain ⟨b', rfl⟩ := prefix_of_prefix_length_le hpre (prefix_append b y) hlen
      rw [append_assoc] at hstream
      obtain ⟨ms₁, ms₂, l₁, l₂, r, rfl, rfl, hl₂, rfl, hdrain, hmore⟩ :=
        ih (append_cancel_left hstream)
      refine ⟨m :: ms₁, ms₂, f ++ l₁, l₂, r, rfl, (append_assoc ..).symm, hl₂,
        (append_assoc ..).symm, ?_, hmore⟩
      rw [drain_cons hf hfr, hdrain]
    · have hmore : front b = .more := by
        obtain ⟨z, hz⟩ := prefix_of_prefix_length_le (prefix_append b y) hpre (by omega)
        refine hf.short b m f.length z ?_ (by omega)
        rw [hz]
        exact hfr
      exact ⟨[], m :: ms, [], f ++ l, b, rfl, rfl, .cons hfr hl, rfl, drain_more hmore, hmore⟩

/-- After a bad frame every push gives its error. -/
theorem pushAll_of_bad (hf : Lawful front) (chunks : List (List β)) (h : front buffer = .bad e) :
    (pushAll front buffer chunks).1 = chunks.map fun _ => .error e := by
  induction chunks generalizing buffer with
  | nil => rfl
  | cons c cs ih =>
    have hbad := hf.bad_append buffer e c h
    have hpush : push front buffer c = (.error e, buffer ++ c) := by
      rw [push_of_error (e := e) (by rw [drain_bad hbad]), drain_bad hbad]
    simp only [pushAll, hpush, ih hbad, map_cons]

theorem delivered_errors (chunks : List (List β)) :
    delivered (chunks.map fun _ => (.error e : Except ε (List μ))) = [] := by
  induction chunks with
  | nil => rfl
  | cons c cs ih => exact ih

/-- **Which messages before a bad frame are given.**  All of them exactly when some chunk ends
behind the last of their frames and before the bad one is known. -/
theorem delivered_of_bad (hf : Lawful front) (hw : BadAt front w e)
    (chunks : List (List β)) {good rest : List β}
    (hgood : Whole front ms good) (hbuffer : front buffer = .more)
    (hstream : buffer ++ chunks.flatten = good ++ (w ++ rest)) :
    delivered (pushAll front buffer chunks).1 = ms ↔
      ∃ k, good.length ≤ (buffer ++ (chunks.take k).flatten).length ∧
        (buffer ++ (chunks.take k).flatten).length < good.length + w.length := by
  induction chunks generalizing ms good buffer with
  | nil =>
    obtain ⟨hlt, -⟩ := hgood.lt_of_more hf hw hbuffer hstream
    have hlen := congrArg length hstream
    simp only [flatten_nil, append_nil, length_append] at hlen
    omega
  | cons c cs ih =>
    have hkept := hgood.lt_of_more hf hw hbuffer hstream
    rw [flatten_cons, ← append_assoc] at hstream
    have hpre : good ++ w <+: buffer ++ c ++ cs.flatten := by
      rw [hstream, ← append_assoc]
      exact prefix_append _ _
    have hbad : (good ++ w).length = good.length + w.length := length_append
    by_cases hlen : (buffer ++ c).length < good.length + w.length
    · -- the bad frame is not known yet: the loop takes the frames that are whole
      obtain ⟨y, hy⟩ := prefix_of_prefix_length_le
        (prefix_append (buffer ++ c) cs.flatten) hpre (by omega)
      have hne : y ≠ [] := by
        rintro rfl
        have := congrArg length hy
        simp only [append_nil, length_append] at this hlen
        omega
      obtain ⟨ms₁, ms₂, l₁, l₂, r, rfl, rfl, hl₂, hb, hdrain, hmore⟩ :=
        hgood.drain_part hf hw hy hne
      have hrest : r ++ cs.flatten = l₂ ++ (w ++ rest) := by
        rw [hb, append_assoc, append_assoc] at hstream
        exact append_cancel_left hstream
      have hpush : push front buffer c = (.ok ms₁, r) := by
        rw [push_of_error_none (by rw [hdrain]), hdrain]
      have hafter : ∀ k, (buffer ++ ((c :: cs).take (k + 1)).flatten).length =
          l₁.length + (r ++ (cs.take k).flatten).length := by
        intro k
        rw [take_succ_cons, flatten_cons, ← append_assoc, hb]
        simp only [length_append]
        omega
      have htotal : (l₁ ++ l₂).length = l₁.length + l₂.length := length_append
      simp only [pushAll, hpush, delivered_ok, append_cancel_left_eq]
      rw [ih hl₂ hmore hrest]
      constructor
      · rintro ⟨k, hge, hlt⟩
        refine ⟨k + 1, ?_, ?_⟩
        · rw [hafter]
          omega
        · rw [hafter]
          omega
      · rintro ⟨k, hge, hlt⟩
        cases k with
        | zero =>
          -- a chunk ended there already, and this one ends there too
          have hb' := congrArg length hb
          simp only [take_zero, flatten_nil, append_nil, length_append]
            at hge hlt hlen hb'
          refine ⟨0, ?_, ?_⟩
          · simp only [take_zero, flatten_nil, append_nil]
            omega
          · simp only [take_zero, flatten_nil, append_nil]
            omega
        | succ k =>
          rw [hafter] at hge hlt
          exact ⟨k, by omega, by omega⟩
    · -- the bad frame is known in this push, which gives nothing, nor does any after it
      obtain ⟨x, hx⟩ := prefix_of_prefix_length_le hpre
        (prefix_append (buffer ++ c) cs.flatten) (by omega)
      have hdrain : drain front (buffer ++ c) = ⟨ms, w ++ x, some e⟩ := by
        rw [← hx, append_assoc, drain_whole hf hgood,
          drain_bad (hf.bad_append w e x hw.bad), append_nil]
      have hpush : push front buffer c = (.error e, w ++ x) := by
        rw [push_of_error (e := e) (by rw [hdrain]), hdrain]
      have hnothing : delivered (pushAll front buffer (c :: cs)).1 = [] := by
        simp only [pushAll, hpush, delivered_error,
          pushAll_of_bad hf cs (hf.bad_append w e x hw.bad)]
        exact delivered_errors cs
      rw [hnothing, eq_comm, hgood.eq_nil_iff hf]
      constructor
      · rintro rfl
        exact ⟨0, by simp, by simpa using hkept.1⟩
      · rintro ⟨k, hge, hlt⟩
        by_contra hne
        cases k with
        | zero =>
          have := hkept.2 hne
          simp only [take_zero, flatten_nil, append_nil] at hge
          omega
        | succ k =>
          rw [take_succ_cons, flatten_cons, ← append_assoc, length_append] at hlt
          omega

end Frames
