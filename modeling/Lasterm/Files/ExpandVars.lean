import Lasterm.Lib.TextCoding

/-!
# The variables in a folder's name

The hub expands the `${VAR}` of a folder written in the settings, and the agent those of a launch
profile's folder, and the same text must name the same folder in both places.  The hub's scanner
goes through the 16-bit units of its string, the agent's through the bytes of its own, which it may
only cut between two characters.  The four signs they look for are one unit each in either coding,
and in no other character's.

## Main definitions

* `scan` — the rules, over any units; `expandVariables`, `expandVars` — the two scanners.

## Main results

* `expandVariables_eq_expandVars` — both expand every text to the same text.
-/

namespace Lasterm.Files

open List TextCoding Option

/-! ### The rules -/

/-- The signs the rules look for: a backslash, `$`, and the two braces. -/
structure Signs (α : Type*) where
  backslash : α
  dollar : α
  opening : α
  closing : α

variable {α : Type*} [DecidableEq α]

/-- A text with its variables expanded, `lookup` saying what each is worth. -/
def scan (g : Signs α) (lookup : List α → Option (List α)) : List α → List α
  | [] => []
  | char :: rest =>
    if char = g.backslash then
      if rest.head? = some g.backslash then
        -- two backslashes are one; followed by a variable, it is expanded after it
        g.backslash :: scan g lookup rest.tail
      else if rest.head? = some g.dollar ∧ rest.tail.head? = some g.opening then
        match _h : breakAt g.closing rest.tail.tail with
        | some (name, after) =>
          g.dollar :: g.opening :: name ++ g.closing :: scan g lookup after
        | none => g.backslash :: scan g lookup rest
      else g.backslash :: scan g lookup rest
    else if char = g.dollar ∧ rest.head? = some g.opening then
      match _h : breakAt g.closing rest.tail with
      | some (name, after) =>
        (lookup name).getD (g.dollar :: g.opening :: name ++ [g.closing]) ++ scan g lookup after
      | none => char :: scan g lookup rest
    else char :: scan g lookup rest
termination_by l => l.length
decreasing_by
  all_goals simp only [length_cons]
  · exact Nat.lt_succ_of_le (by simp)
  · have hlt := length_of_breakAt _h
    simp only [length_tail] at hlt
    omega
  · omega
  · omega
  · have hlt := length_of_breakAt _h
    simp only [length_tail] at hlt
    omega
  · omega
  · omega

section equations

variable {g : Signs α} {lookup : List α → Option (List α)} {char : α} {rest name after : List α}

theorem scan_pair (h : rest.head? = some g.backslash) :
    scan g lookup (g.backslash :: rest) = g.backslash :: scan g lookup rest.tail := by
  rw [scan, if_pos rfl, if_pos h]

theorem scan_escaped (hnot : ¬rest.head? = some g.backslash)
    (h : rest.head? = some g.dollar ∧ rest.tail.head? = some g.opening)
    (hb : breakAt g.closing rest.tail.tail = some (name, after)) :
    scan g lookup (g.backslash :: rest) =
      g.dollar :: g.opening :: name ++ g.closing :: scan g lookup after := by
  rw [scan, if_pos rfl, if_neg hnot, if_pos h]
  split
  · next heq =>
    obtain ⟨rfl, rfl⟩ := Prod.mk.inj (some.inj (hb.symm.trans heq))
    rfl
  · next heq => exact nomatch hb.symm.trans heq

theorem scan_backslash (hnot : ¬rest.head? = some g.backslash)
    (h : rest.head? = some g.dollar ∧ rest.tail.head? = some g.opening →
      breakAt g.closing rest.tail.tail = none) :
    scan g lookup (g.backslash :: rest) = g.backslash :: scan g lookup rest := by
  rw [scan, if_pos rfl, if_neg hnot]
  split
  · next hopen =>
    split
    · next heq => exact nomatch (h hopen).symm.trans heq
    · rfl
  · rfl

theorem scan_variable (hnot : ¬char = g.backslash)
    (h : char = g.dollar ∧ rest.head? = some g.opening)
    (hb : breakAt g.closing rest.tail = some (name, after)) :
    scan g lookup (char :: rest) =
      (lookup name).getD (g.dollar :: g.opening :: name ++ [g.closing]) ++ scan g lookup after := by
  rw [scan, if_neg hnot, if_pos h]
  split
  · next heq =>
    obtain ⟨rfl, rfl⟩ := Prod.mk.inj (some.inj (hb.symm.trans heq))
    rfl
  · next heq => exact nomatch hb.symm.trans heq

theorem scan_other (hnot : ¬char = g.backslash)
    (h : char = g.dollar ∧ rest.head? = some g.opening → breakAt g.closing rest.tail = none) :
    scan g lookup (char :: rest) = char :: scan g lookup rest := by
  rw [scan, if_neg hnot]
  split
  · next hopen =>
    split
    · next heq => exact nomatch (h hopen).symm.trans heq
    · rfl
  · rfl

/-- What has neither a backslash nor a `$` is copied. -/
theorem scan_plain {l : List α} (hb : g.backslash ∉ l) (hd : g.dollar ∉ l) (m : List α) :
    scan g lookup (l ++ m) = l ++ scan g lookup m := by
  induction l with
  | nil => rfl
  | cons a l ih =>
    have hnot : ¬a = g.backslash := fun h => hb (h ▸ mem_cons_self)
    have hnot' : ¬a = g.dollar := fun h => hd (h ▸ mem_cons_self)
    rw [cons_append, scan_other hnot fun h => absurd h.1 hnot',
      ih (fun h => hb (mem_cons_of_mem a h)) fun h => hd (mem_cons_of_mem a h)]
    rfl

end equations

/-! ### A text and its coding -/

/-- In the coding `k` each of the signs `c` is the unit in `u`. -/
structure Signs.Coded {υ : Type*} (k : TextCoding υ) (c : Signs Char) (u : Signs υ) : Prop where
  backslash : k.Marks c.backslash u.backslash
  dollar : k.Marks c.dollar u.dollar
  opening : k.Marks c.opening u.opening
  closing : k.Marks c.closing u.closing

section coding

variable {υ : Type*} {k : TextCoding υ} {c : Signs Char} {u : Signs υ}

namespace Signs.Coded

variable (h : Signs.Coded k c u) {s name after : List Char} {char : Char}

include h

theorem eq_backslash : u.dollar = u.backslash ↔ c.dollar = c.backslash := by
  constructor
  · intro hu
    refine h.backslash.only _ ?_
    rw [h.dollar.enc, hu]
    exact mem_singleton_self _
  · intro hc
    have henc := h.dollar.enc
    rw [hc, h.backslash.enc] at henc
    exact (cons.inj henc).1.symm

/-- Whether `${` comes next. -/
theorem opens : (k.text s).head? = some u.dollar ∧ (k.text s).tail.head? = some u.opening ↔
    s.head? = some c.dollar ∧ s.tail.head? = some c.opening := by
  rw [head?_text h.dollar]
  refine and_congr_right fun hs => ?_
  rw [tail_text h.dollar hs, head?_text h.opening]

theorem opened (hs : s.head? = some c.dollar ∧ s.tail.head? = some c.opening) :
    (k.text s).tail.tail = k.text s.tail.tail := by
  rw [tail_text h.dollar hs.1, tail_text h.opening hs.2]

theorem text_variable (name rest : List Char) :
    k.text (c.dollar :: c.opening :: name ++ c.closing :: rest) =
      u.dollar :: u.opening :: k.text name ++ u.closing :: k.text rest := by
  rw [cons_append, h.dollar.text_cons, cons_append, h.opening.text_cons,
    text_append, h.closing.text_cons]
  rfl

variable [DecidableEq υ]

theorem closed (hb : breakAt c.closing s = some (name, after)) :
    breakAt u.closing (k.text s) = some (k.text name, k.text after) := by
  rw [breakAt_text h.closing, hb]
  rfl

theorem unclosed (hb : breakAt c.closing s = none) : breakAt u.closing (k.text s) = none := by
  rw [breakAt_text h.closing, hb]
  rfl

theorem scan_text {L : List Char → Option (List Char)} {lookup : List υ → Option (List υ)}
    (hlookup : ∀ name, lookup (k.text name) = (L name).map k.text) (s : List Char) :
    scan u lookup (k.text s) = k.text (scan c L s) := by
  induction s using scan.induct c with
  | case1 => rw [scan, text_nil, scan]
  | case2 rest hpair ih =>
    rw [h.backslash.text_cons, scan_pair ((head?_text h.backslash rest).mpr hpair),
      tail_text h.backslash hpair, ih, scan_pair hpair, h.backslash.text_cons]
  | case3 rest hnot hopen name after hb ih =>
    rw [h.backslash.text_cons,
      scan_escaped (mt (head?_text h.backslash rest).mp hnot) (h.opens.mpr hopen)
        (h.opened hopen ▸ h.closed hb),
      ih, scan_escaped hnot hopen hb, h.text_variable]
  | case4 rest hnot hopen hb ih =>
    rw [h.backslash.text_cons,
      scan_backslash (mt (head?_text h.backslash rest).mp hnot)
        fun _ => h.opened hopen ▸ h.unclosed hb,
      ih, scan_backslash hnot fun _ => hb, h.backslash.text_cons]
  | case5 rest hnot hopen ih =>
    rw [h.backslash.text_cons,
      scan_backslash (mt (head?_text h.backslash rest).mp hnot)
        fun ho => absurd (h.opens.mp ho) hopen,
      ih, scan_backslash hnot fun ho => absurd ho hopen, h.backslash.text_cons]
  | case6 char rest hnot hopen name after hb ih =>
    obtain ⟨rfl, hhead⟩ := hopen
    rw [h.dollar.text_cons,
      scan_variable (mt h.eq_backslash.mp hnot) ⟨rfl, (head?_text h.opening rest).mpr hhead⟩
        (tail_text h.opening hhead ▸ h.closed hb),
      ih, scan_variable hnot ⟨rfl, hhead⟩ hb, hlookup, text_append]
    cases L name with
    | some value => rfl
    | none =>
      exact congrArg (· ++ _) (h.text_variable name []).symm
  | case7 char rest hnot hopen hb ih =>
    obtain ⟨rfl, hhead⟩ := hopen
    rw [h.dollar.text_cons,
      scan_other (mt h.eq_backslash.mp hnot)
        fun _ => tail_text h.opening hhead ▸ h.unclosed hb,
      ih, scan_other hnot fun _ => hb, h.dollar.text_cons]
  | case8 char rest hnot hopen ih =>
    rw [scan_other hnot fun ho => absurd ho hopen, k.text_cons, k.text_cons]
    by_cases hchar : char = c.dollar
    · subst hchar
      have hno : ¬(k.text rest).head? = some u.opening := fun hu =>
        hopen ⟨rfl, (head?_text h.opening rest).mp hu⟩
      rw [h.dollar.enc, singleton_append, singleton_append,
        scan_other (mt h.eq_backslash.mp hnot) fun ho => absurd ho.2 hno, ih]
    · rw [scan_plain (fun hu => hnot (h.backslash.only char hu))
        (fun hu => hchar (h.dollar.only char hu)), ih]

end Signs.Coded

end coding

/-! ### The two scanners -/

/-- The signs as characters. -/
def charSigns : Signs Char where
  backslash := '\\'
  dollar := '$'
  opening := Char.ofNat 0x7b
  closing := Char.ofNat 0x7d

/-- The signs as 16-bit units. -/
def unitSigns : Signs UInt16 where
  backslash := 0x5c
  dollar := 0x24
  opening := 0x7b
  closing := 0x7d

/-- The signs as bytes. -/
def byteSigns : Signs UInt8 where
  backslash := 0x5c
  dollar := 0x24
  opening := 0x7b
  closing := 0x7d

/-- The hub's scanner reads one unit after the other, and cuts its string anywhere. -/
def expandVariables (lookup : List UInt16 → Option (List UInt16)) (text : List UInt16) :
    List UInt16 :=
  scan unitSigns lookup text

/-- Whether a string may be cut where `rest` is what follows. -/
def isCharBoundary (rest : List UInt8) : Bool :=
  match rest with
  | [] => true
  | b :: _ => b < 0x80 || 0xc0 ≤ b

/-- The agent's scanner, from where it has come to; `none` where cutting the string panics. -/
def expandVars (lookup : List UInt8 → Option (List UInt8)) : List UInt8 → Option (List UInt8)
  | [] => some []
  | b :: rest =>
    if b = 0x5c then
      if rest.head? = some 0x5c then
        if rest.tail.head? = some 0x24 ∧ rest.tail.tail.head? = some 0x7b then
          (expandVars lookup rest.tail).map (0x5c :: ·)
        else (expandVars lookup rest.tail).map (0x5c :: ·)
      else if rest.head? = some 0x24 ∧ rest.tail.head? = some 0x7b then
        match _h : breakAt 0x7d rest.tail.tail with
        | some (name, after) =>
          if isCharBoundary rest ∧ isCharBoundary after then
            (expandVars lookup after).map (0x24 :: 0x7b :: name ++ 0x7d :: ·)
          else none
        | none => (expandVars lookup rest).map (0x5c :: ·)
      else (expandVars lookup rest).map (0x5c :: ·)
    else
      match _h : if b = 0x24 ∧ rest.head? = some 0x7b then breakAt 0x7d rest.tail else none with
      | some (name, after) =>
        if isCharBoundary rest.tail ∧ isCharBoundary (0x7d :: after) then
          match lookup name with
          | some value => (expandVars lookup after).map (value ++ ·)
          | none =>
            if isCharBoundary (b :: rest) ∧ isCharBoundary after then
              (expandVars lookup after).map (0x24 :: 0x7b :: name ++ 0x7d :: ·)
            else none
        else none
      | none =>
        -- the next character, all of its bytes
        if isCharBoundary (b :: rest) then
          (expandVars lookup (rest.drop (utf8Width b - 1))).map
            (b :: rest.take (utf8Width b - 1) ++ ·)
        else none
termination_by l => l.length
decreasing_by
  all_goals simp only [length_cons, length_drop, length_tail]
  all_goals try omega
  · have hlt := length_of_breakAt _h
    simp only [length_tail] at hlt
    omega
  all_goals
    split at _h
    · have hlt := length_of_breakAt _h
      simp only [length_tail] at hlt
      omega
    · exact nomatch _h

/-! ### The agent's scanner follows the rules -/

theorem utf8_coded : Signs.Coded utf8 charSigns byteSigns where
  backslash := utf8_marks rfl (by decide)
  dollar := utf8_marks rfl (by decide)
  opening := utf8_marks rfl (by decide)
  closing := utf8_marks rfl (by decide)

theorem utf16_coded : Signs.Coded utf16 charSigns unitSigns where
  backslash := utf16_marks rfl (by decide)
  dollar := utf16_marks rfl (by decide)
  opening := utf16_marks rfl (by decide)
  closing := utf16_marks rfl (by decide)

theorem isCharBoundary_text (s : List Char) : isCharBoundary (utf8.text s) = true := by
  cases s with
  | nil => rfl
  | cons c s =>
    obtain ⟨b, bs, henc, hfirst, -⟩ := utf8_shape c
    rw [utf8.text_cons, henc, cons_append]
    simpa [isCharBoundary] using hfirst

section agent

variable {lookup : List UInt8 → Option (List UInt8)} {rest name after : List UInt8}

theorem expandVars_pair (h : rest.head? = some 0x5c) :
    expandVars lookup (0x5c :: rest) = (expandVars lookup rest.tail).map (0x5c :: ·) := by
  rw [expandVars, if_pos rfl, if_pos h]
  split <;> rfl

theorem expandVars_escaped (hnot : ¬rest.head? = some 0x5c)
    (h : rest.head? = some 0x24 ∧ rest.tail.head? = some 0x7b)
    (hb : breakAt 0x7d rest.tail.tail = some (name, after)) (hafter : isCharBoundary after = true) :
    expandVars lookup (0x5c :: rest) =
      (expandVars lookup after).map (0x24 :: 0x7b :: name ++ 0x7d :: ·) := by
  have hrest : isCharBoundary rest = true := by
    obtain ⟨l, rfl⟩ := head?_eq_some_iff.mp h.1
    rfl
  rw [expandVars, if_pos rfl, if_neg hnot, if_pos h]
  split
  · next heq =>
    obtain ⟨rfl, rfl⟩ := Prod.mk.inj (some.inj (hb.symm.trans heq))
    rw [if_pos ⟨hrest, hafter⟩]
  · next heq => exact nomatch hb.symm.trans heq

theorem expandVars_backslash (hnot : ¬rest.head? = some 0x5c)
    (h : rest.head? = some 0x24 ∧ rest.tail.head? = some 0x7b → breakAt 0x7d rest.tail.tail = none) :
    expandVars lookup (0x5c :: rest) = (expandVars lookup rest).map (0x5c :: ·) := by
  rw [expandVars, if_pos rfl, if_neg hnot]
  split
  · next hopen =>
    split
    · next heq => exact nomatch (h hopen).symm.trans heq
    · rfl
  · rfl

theorem expandVars_variable (h : rest.head? = some 0x7b)
    (hb : breakAt 0x7d rest.tail = some (name, after)) (hrest : isCharBoundary rest.tail = true)
    (hafter : isCharBoundary after = true) :
    expandVars lookup (0x24 :: rest) =
      (expandVars lookup after).map
        ((lookup name).getD (0x24 :: 0x7b :: name ++ [0x7d]) ++ ·) := by
  rw [expandVars, if_neg (by decide)]
  split
  · next heq =>
    rw [if_pos ⟨rfl, h⟩] at heq
    obtain ⟨rfl, rfl⟩ := Prod.mk.inj (some.inj (hb.symm.trans heq))
    rw [if_pos ⟨hrest, rfl⟩]
    cases lookup name with
    | some value => rfl
    | none =>
      rw [if_pos ⟨rfl, hafter⟩]
      simp
  · next heq =>
    rw [if_pos ⟨rfl, h⟩] at heq
    exact nomatch hb.symm.trans heq

/-- A character that is no sign, or a `$` that names no variable, is copied whole. -/
theorem expandVars_other {char : Char} {s : List Char} (hnot : ¬char = charSigns.backslash)
    (h : char = charSigns.dollar ∧ s.head? = some charSigns.opening →
      breakAt charSigns.closing s.tail = none) :
    expandVars lookup (utf8.text (char :: s)) =
      (expandVars lookup (utf8.text s)).map (utf8.enc char ++ ·) := by
  obtain ⟨b, bs, henc, -, hlen, -⟩ := utf8_shape char
  have hbound := isCharBoundary_text (char :: s)
  have hof : ∀ {c : Char} {u : UInt8}, utf8.Marks c u → b = u → char = c := by
    rintro c u hu rfl
    exact hu.only char (henc ▸ mem_cons_self)
  have hw : utf8Width b - 1 = bs.length := by omega
  rw [utf8.text_cons, henc, cons_append] at hbound ⊢
  have hb : ¬b = 0x5c := fun hb => hnot (hof utf8_coded.backslash hb)
  rw [expandVars, if_neg hb]
  split
  · next name after heq =>
    -- a name would end behind a `$` here, and the text says that none does
    split at heq
    · next hopen =>
      obtain rfl := hof utf8_coded.dollar hopen.1
      obtain ⟨-, rfl⟩ := cons.inj (henc.symm.trans utf8_coded.dollar.enc)
      have hhead := (head?_text utf8_coded.opening s).mp hopen.2
      have hnone := utf8_coded.unclosed (h ⟨rfl, hhead⟩)
      rw [← tail_text utf8_coded.opening hhead] at hnone
      exact nomatch hnone.symm.trans heq
    · cases heq
  · rw [if_pos hbound, hw, drop_left, take_left]

theorem expandVars_text {L : List Char → Option (List Char)}
    (hlookup : ∀ name, lookup (utf8.text name) = (L name).map utf8.text) (s : List Char) :
    expandVars lookup (utf8.text s) = some (utf8.text (scan charSigns L s)) := by
  have h := utf8_coded
  induction s using scan.induct charSigns with
  | case1 => rw [scan, text_nil, expandVars]
  | case2 rest hpair ih =>
    rw [h.backslash.text_cons]
    refine (expandVars_pair ((head?_text h.backslash rest).mpr hpair)).trans ?_
    rw [tail_text h.backslash hpair, ih, scan_pair hpair, h.backslash.text_cons]
    rfl
  | case3 rest hnot hopen name after hb ih =>
    rw [h.backslash.text_cons]
    refine (expandVars_escaped (mt (head?_text h.backslash rest).mp hnot)
      (h.opens.mpr hopen) (h.opened hopen ▸ h.closed hb) (isCharBoundary_text after)).trans ?_
    rw [ih, scan_escaped hnot hopen hb, h.text_variable]
    rfl
  | case4 rest hnot hopen hb ih =>
    rw [h.backslash.text_cons]
    refine (expandVars_backslash (mt (head?_text h.backslash rest).mp hnot)
      fun _ => h.opened hopen ▸ h.unclosed hb).trans ?_
    rw [ih, scan_backslash hnot fun _ => hb, h.backslash.text_cons]
    rfl
  | case5 rest hnot hopen ih =>
    rw [h.backslash.text_cons]
    refine (expandVars_backslash (mt (head?_text h.backslash rest).mp hnot)
      fun ho => absurd (h.opens.mp ho) hopen).trans ?_
    rw [ih, scan_backslash hnot fun ho => absurd ho hopen, h.backslash.text_cons]
    rfl
  | case6 char rest hnot hopen name after hb ih =>
    obtain ⟨rfl, hhead⟩ := hopen
    have htail := tail_text h.opening hhead
    rw [h.dollar.text_cons]
    refine (expandVars_variable ((head?_text h.opening rest).mpr hhead)
      (htail ▸ h.closed hb) (htail ▸ isCharBoundary_text _) (isCharBoundary_text after)).trans ?_
    rw [ih, scan_variable hnot ⟨rfl, hhead⟩ hb, hlookup, text_append]
    cases L name with
    | some value => rfl
    | none =>
      exact congrArg (fun l => some (l ++ _)) (h.text_variable name []).symm
  | case7 char rest hnot hopen hb ih =>
    rw [expandVars_other hnot fun _ => hb, ih, scan_other hnot fun _ => hb, utf8.text_cons]
    rfl
  | case8 char rest hnot hopen ih =>
    rw [expandVars_other hnot fun ho => absurd ho hopen, ih,
      scan_other hnot fun ho => absurd ho hopen, utf8.text_cons]
    rfl

end agent

/-- The hub and the agent expand every text to the same text, whatever the variables are worth. -/
theorem expandVariables_eq_expandVars (L : List Char → Option (List Char))
    (hub : List UInt16 → Option (List UInt16)) (agent : List UInt8 → Option (List UInt8))
    (hhub : ∀ name, hub (utf16.text name) = (L name).map utf16.text)
    (hagent : ∀ name, agent (utf8.text name) = (L name).map utf8.text) (s : List Char) :
    ∃ t, expandVariables hub (utf16.text s) = utf16.text t ∧
      expandVars agent (utf8.text s) = some (utf8.text t) :=
  ⟨scan charSigns L s, utf16_coded.scan_text hhub s, expandVars_text hagent s⟩

/-- One variable among characters of several units. -/
theorem expandVariables_eq_expandVars_one_variable :
    ∃ t, expandVariables (fun _ => some (utf16.text ['ü'])) (utf16.text "é$\x7bA\x7d→".toList) =
        utf16.text t ∧
      expandVars (fun _ => some (utf8.text ['ü'])) (utf8.text "é$\x7bA\x7d→".toList) =
        some (utf8.text t) :=
  expandVariables_eq_expandVars (fun _ => some ['ü']) _ _ (fun _ => rfl) (fun _ => rfl) _

end Lasterm.Files
