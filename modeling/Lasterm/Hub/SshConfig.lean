import Lasterm.Hub.JumpSpecs

/-!
# The directives of an SSH configuration

`parseSshConfig` goes through the lines of `~/.ssh/config`: a `Host` line opens a block for each of
its patterns without wildcards, and the directives behind it are given to every open block.  A line
is a keyword and its argument, with blanks between them or a `=`, blanks around it; it is cut at
the first of the three separators.

## Main results

* `directive_read_iff` — which directives are read as they are meant.
-/

namespace Lasterm.Hub.SshConfig

open SshRoute List Option

/-- A block that a `Host` line opened, for one of its patterns. -/
structure HostBlock where
  name : Text
  hostname : Option Text
  port : Int
  user : Option Text
  identityFile : Option Text
  proxyJump : Option Text

/-- A block that says nothing yet. -/
def makeBlock (name : Text) : HostBlock := ⟨name, none, 22, none, none, none⟩

/-- The pattern has a `*` or a `?`. -/
def isWildcard (pattern : Text) : Bool := pattern.contains '*' || pattern.contains '?'

/-- `value.split(/\s+/)` without the empty pieces. -/
def patternsOf (value : Text) : List Text := (value.splitOnP isBlank).filter (· ≠ [])

/-- A line's keyword, lower-cased, and its value.  A separator at the start is none.  Only letters
without accents are lowered: no other that `toLowerCase` makes one of these is in a keyword. -/
def splitDirective (rawLine : Text) : Option (Text × Text) :=
  let line := trim rawLine
  if line = [] ∨ line.head? = some '#' then none
  else
    let candidates := ['=', ' ', '\t'].filterMap fun c => (line.idxOf? c).filter (0 < ·)
    candidates.min?.map fun separatorIdx =>
      ((line.take separatorIdx).map Char.toLower, trim (line.drop (separatorIdx + 1)))

/-- The port an argument gives; any other is left out. -/
def readPort (value : Text) : Option Int :=
  (parseInt value).filter fun port => 0 < port ∧ port ≤ 65535

/-- A directive, given to a block; `expand` is the source's `resolveIdentityFile`. -/
def HostBlock.directive (expand : Text → Text) (key value : Text) (block : HostBlock) : HostBlock :=
  match String.ofList key with
  | "hostname" => { block with hostname := some value }
  | "port" => { block with port := (readPort value).getD block.port }
  | "user" => { block with user := some value }
  | "identityfile" => { block with identityFile := some (expand value) }
  | "proxyjump" => { block with proxyJump := some value }
  | _ => block

/-- What `parseSshConfig` has, between two lines. -/
structure Scan where
  entries : List HostBlock
  hasInclude : Bool
  currentBlocks : List HostBlock

/-- What one line of the file does. -/
def Scan.line (expand : Text → Text) (s : Scan) (rawLine : Text) : Scan :=
  match splitDirective rawLine with
  | none => s
  | some (key, value) =>
    if key = "include".toList then { s with hasInclude := true }
    else if key = "host".toList then
      { s with
        entries := s.entries ++ s.currentBlocks
        currentBlocks := ((patternsOf value).filter (!isWildcard ·)).map makeBlock }
    else { s with currentBlocks := s.currentBlocks.map (·.directive expand key value) }

/-- The source's `parseSshConfig`: the blocks of its entries, and whether it includes others. -/
def parseSshConfig (expand : Text → Text) (content : Text) : List HostBlock × Bool :=
  let s := (content.splitOn '\n').foldl (Scan.line expand) ⟨[], false, []⟩
  (s.entries ++ s.currentBlocks, s.hasInclude)

/-! ### The ways to write a directive -/

/-- What stands between a keyword and its argument: blanks, or a `=` with blanks around it. -/
structure Separation where
  before : Text
  equals : Bool
  after : Text

/-- What stands between a keyword and its value. -/
def Separation.text (s : Separation) : Text :=
  s.before ++ if s.equals then '=' :: s.after else []

/-- A keyword, an argument without blanks at its ends, and what stands between them. -/
structure IsDirective (key : Text) (s : Separation) (arg : Text) : Prop where
  key_ne : key ≠ []
  key : ∀ c ∈ key, isBlank c = false ∧ c ≠ '=' ∧ c ≠ '#'
  plain : ∀ c, arg.head? = some c ∨ arg.getLast? = some c → isBlank c = false
  blanks : ∀ c ∈ s.before ++ s.after, c = ' ' ∨ c = '\t'
  bare : s.equals = false → s.before ≠ [] ∧ arg.head? ≠ some '='

theorem trim_between {x : Text} (lead trail : Text) (hx : x ≠ [])
    (hends : ∀ c, x.head? = some c ∨ x.getLast? = some c → isBlank c = false)
    (hlead : ∀ c ∈ lead, isBlank c = true) (htrail : ∀ c ∈ trail, isBlank c = true) :
    trim (lead ++ x ++ trail) = x := by
  rw [trim_around (head?_eq_some_head hx) (getLast?_eq_some_getLast hx)
    (hends _ (.inl (head?_eq_some_head hx)))
    (hends _ (.inr (getLast?_eq_some_getLast hx))), dropWhile_eq_nil_iff.mpr hlead,
    dropWhile_eq_nil_iff.mpr fun c hc => htrail c (mem_reverse.mp hc)]
  simp

theorem not_mem_key {key : Text} (hkey : ∀ c ∈ key, isBlank c = false ∧ c ≠ '=' ∧ c ≠ '#')
    {d : Char} (hd : d ∈ ['=', ' ', '\t']) : d ∉ key := by
  intro hmem
  have hmark : ∀ d ∈ ['=', ' ', '\t'], d = '=' ∨ isBlank d = true := by simp [isBlank]
  rcases hmark d hd with rfl | hblank
  · exact (hkey _ hmem).2.1 rfl
  · rw [(hkey _ hmem).1] at hblank
    cases hblank

/-- **A line is cut behind its keyword.** -/
theorem splitDirective_eq {raw key rest : Text} {c : Char} (hne : key ≠ [])
    (hkey : ∀ c ∈ key, isBlank c = false ∧ c ≠ '=' ∧ c ≠ '#') (hc : c ∈ ['=', ' ', '\t'])
    (htrim : trim raw = key ++ c :: rest) :
    splitDirective raw = some (key.map Char.toLower, trim rest) := by
  have hindex : ∀ d ∈ ['=', ' ', '\t'],
      (key ++ c :: rest).idxOf? d = ((c :: rest).idxOf? d).map (· + key.length) := by
    intro d hd
    have hnone : key.findIdx? (· == d) = none := idxOf?_eq_none_iff.mpr (not_mem_key hkey hd)
    rw [idxOf?, findIdx?_append, hnone, none_or]
  have hmin : (['=', ' ', '\t'].filterMap fun d =>
      ((key ++ c :: rest).idxOf? d).filter (0 < ·)).min? = some key.length := by
    have hpos := length_pos_of_ne_nil hne
    refine min?_eq_some_iff.mpr ⟨mem_filterMap.mpr ⟨c, hc, ?_⟩, fun i hi => ?_⟩
    · rw [hindex c hc, idxOf?_cons, if_pos (beq_self_eq_true c)]
      simpa using hpos
    · obtain ⟨d, hd, hfound⟩ := mem_filterMap.mp hi
      rw [hindex d hd] at hfound
      obtain ⟨n, -, rfl⟩ := map_eq_some_iff.mp (filter_eq_some_iff.mp hfound).1
      exact Nat.le_add_left ..
  unfold splitDirective
  dsimp only
  rw [htrim, hmin, if_neg]
  · simp
  · obtain ⟨k, key, rfl⟩ := exists_cons_of_ne_nil hne
    simpa using (hkey k mem_cons_self).2.2

theorem trim_of_blanks {arg blanks : Text} 
    (harg : ∀ c, arg.head? = some c ∨ arg.getLast? = some c → isBlank c = false)
    (hblanks : ∀ c ∈ blanks, c = ' ' ∨ c = '\t') : trim (blanks ++ arg) = arg := by
  have hblank : ∀ c ∈ blanks, isBlank c = true := fun c hc => by
    rcases hblanks c hc with rfl | rfl <;> decide
  by_cases hne : arg = []
  · rw [hne, append_nil]
    exact trim_eq_nil.mpr hblank
  · simpa using trim_between blanks [] hne harg hblank nofun

theorem trim_equals {x after arg : Text} (hx : ∀ c, x.head? = some c → isBlank c = false)
    (harg : ∀ c, arg.head? = some c ∨ arg.getLast? = some c → isBlank c = false)
    (hafter : ∀ c ∈ after, c = ' ' ∨ c = '\t') :
    ∃ rest, trim (x ++ '=' :: (after ++ arg)) = x ++ '=' :: rest ∧ trim rest = arg ∧
      arg.length ≤ rest.length ∧
      ∀ c, ('=' :: rest).head? = some c ∨ ('=' :: rest).getLast? = some c → isBlank c = false := by
  have hends : ∀ rest : Text, (∀ c, ('=' :: rest).getLast? = some c → isBlank c = false) →
      ∀ blanks : Text, (∀ c ∈ blanks, isBlank c = true) →
        trim (x ++ '=' :: (rest ++ blanks)) = x ++ '=' :: rest := by
    intro rest hlast blanks hblanks
    have hall := trim_between [] blanks (x := x ++ '=' :: rest) (by simp) ?_ nofun hblanks
    · simpa using hall
    rintro c (hc | hc)
    · cases x with
      | nil =>
        cases hc
        decide
      | cons a x => exact hx c hc
    · rw [getLast?_append, getLast?_cons, some_or] at hc
      exact hlast c (by rw [getLast?_cons]; exact hc)
  by_cases hne : arg = []
  · have hequals : ∀ c, ['='].getLast? = some c → isBlank c = false := by
      rintro _ ⟨rfl⟩
      decide
    refine ⟨[], ?_, by rw [hne]; rfl, by simp [hne], fun c hc => hequals c (hc.elim id id)⟩
    rw [hne, append_nil]
    exact hends [] hequals after fun c hc => by rcases hafter c hc with rfl | rfl <;> decide
  · have hlast : ∀ c, ('=' :: (after ++ arg)).getLast? = some c → isBlank c = false := by
      intro c hc
      rw [← cons_append, getLast?_append, getLast?_eq_some_getLast hne] at hc
      exact harg c (.inr (getLast?_eq_some_getLast hne ▸ hc))
    refine ⟨after ++ arg, by simpa using hends (after ++ arg) hlast [] nofun,
      trim_of_blanks harg hafter, by simp, ?_⟩
    rintro c (⟨⟨rfl⟩⟩ | hc)
    · decide
    · exact hlast c hc

/-- When a line is read as its keyword and its argument. -/
theorem splitDirective_iff {key arg : Text} {s : Separation} (h : IsDirective key s arg) :
    splitDirective (key ++ s.text ++ arg) = some (key.map Char.toLower, arg) ↔
      (s.equals = true → s.before = []) ∧ (s.equals = false → arg ≠ []) := by
  obtain ⟨hne, hkey, harg, hblanks, hbare⟩ := h
  obtain ⟨before, equals, after⟩ := s
  have hhead : ∀ m, ∀ c, (key ++ m).head? = some c → isBlank c = false := by
    obtain ⟨k, key, rfl⟩ := exists_cons_of_ne_nil hne
    rintro m c ⟨rfl⟩
    exact (hkey _ mem_cons_self).1
  have hbefore : ∀ c ∈ before, c = ' ' ∨ c = '\t' := fun c hc =>
    hblanks c (mem_append_left _ hc)
  have hmark : ∀ c ∈ before, c ∈ ['=', ' ', '\t'] := fun c hc => by
    rcases hbefore c hc with rfl | rfl <;> decide
  rw [Separation.text]
  cases equals with
  | true =>
    obtain ⟨rest, htrim, hrest, hlen, hends⟩ := trim_equals (hhead before) harg
      fun c hc => hblanks c (mem_append_right _ hc)
    have hraw : key ++ (before ++ if true = true then '=' :: after else []) ++ arg =
        key ++ before ++ '=' :: (after ++ arg) := by simp
    rw [hraw]
    cases before with
    | nil =>
      rw [append_nil] at htrim ⊢
      rw [splitDirective_eq hne hkey (by decide) htrim, hrest]
      simp
    | cons b before =>
      simp only [append_assoc, cons_append] at htrim ⊢
      rw [splitDirective_eq hne hkey (hmark b mem_cons_self) htrim, trim_of_blanks hends
        fun c hc => hbefore c (mem_cons_of_mem _ hc)]
      refine iff_of_false (fun heq => ?_) fun h => cons_ne_nil _ _ (h.1 trivial)
      obtain rfl := (Prod.mk.inj (some.inj heq)).2
      exact absurd hlen (by simp)
  | false =>
    obtain ⟨b, before, rfl⟩ := exists_cons_of_ne_nil (hbare rfl).1
    rw [if_neg Bool.false_ne_true, append_nil]
    by_cases hnil : arg = []
    · refine iff_of_false (fun hsome => ?_) fun h => h.2 rfl hnil
      have htrim : trim ([] ++ key ++ (b :: before)) = key := by
        refine trim_between [] _ hne (fun c hc => (hkey c ?_).1) nofun fun c hc => ?_
        · exact hc.elim mem_of_head? mem_of_getLast?
        · rcases hbefore c hc with rfl | rfl <;> decide
      have hnone : (['=', ' ', '\t'].filterMap fun d => (key.idxOf? d).filter (0 < ·)) = [] :=
        filterMap_eq_nil_iff.mpr fun d hd => by
          rw [idxOf?_eq_none_iff.mpr (not_mem_key hkey hd), filter_none]
      unfold splitDirective at hsome
      rw [hnil, append_nil, ← nil_append key, htrim] at hsome
      dsimp only at hsome
      rw [hnone] at hsome
      split at hsome <;> cases hsome
    · have htrim : trim (key ++ b :: before ++ arg) = key ++ b :: (before ++ arg) := by
        have hall := trim_between [] [] (x := key ++ b :: before ++ arg) (by simp) ?_ nofun nofun
        · simpa using hall
        rintro c (hc | hc)
        · exact hhead _ c (append_assoc .. ▸ hc)
        · rw [getLast?_append, getLast?_eq_some_getLast hnil] at hc
          exact harg c (.inr (getLast?_eq_some_getLast hnil ▸ hc))
      rw [splitDirective_eq hne hkey (hmark b mem_cons_self) htrim,
        trim_of_blanks harg fun c hc => hbefore c (mem_cons_of_mem _ hc)]
      exact iff_of_true rfl ⟨nofun, fun _ => hnil⟩

/-! ### The port -/

/-- The port a decimal number writes. -/
def decimalPort (arg : Text) : Option Int :=
  if arg ≠ [] ∧ arg.all Char.isDigit = true ∧ 1 ≤ digitsValue arg ∧ digitsValue arg ≤ 65535 then
    some (digitsValue arg : Int)
  else none

/-- A port with a sign before it, or with further text behind it. -/
def Trailing (arg : Text) : Prop :=
  ∃ sign digits rest, arg = sign ++ digits ++ rest ∧ (sign = [] ∨ sign = ['+']) ∧ digits ≠ [] ∧
    (∀ c ∈ digits, c.isDigit = true) ∧ (∀ c ∈ rest.head?, c.isDigit = false) ∧
    1 ≤ digitsValue digits ∧ digitsValue digits ≤ 65535 ∧ (sign ≠ [] ∨ rest ≠ [])

theorem exists_of_parseInt {arg : Text} {n : Int} (harg : ∀ c ∈ arg.head?, isBlank c = false)
    (h : parseInt arg = some n) (hn : 0 < n) :
    ∃ sign digits rest, arg = sign ++ digits ++ rest ∧ (sign = [] ∨ sign = ['+']) ∧ digits ≠ [] ∧
      (∀ c ∈ digits, c.isDigit = true) ∧ (∀ c ∈ rest.head?, c.isDigit = false) ∧
      n = digitsValue digits := by
  have hrest : ∀ l : Text, ∀ c ∈ (l.dropWhile Char.isDigit).head?, c.isDigit = false := by
    intro l c hc
    have hhead := head?_dropWhile_not Char.isDigit l
    rw [hc] at hhead
    simpa using hhead
  have hdrop : arg.dropWhile isBlank = arg := by
    cases arg with
    | nil => rfl
    | cons c arg => rw [dropWhile_cons, harg c rfl, if_neg nofun]
  unfold parseInt at h
  rw [hdrop] at h
  obtain ⟨sign, l, heq, hsign, hl⟩ : ∃ sign l, arg = sign ++ l ∧ (sign = [] ∨ sign = ['+']) ∧
      (if l.takeWhile Char.isDigit = [] then none
        else some (digitsValue (l.takeWhile Char.isDigit) : Int)) = some n := by
    split at h
    · obtain ⟨-, ⟨rfl⟩⟩ := ite_none_left_eq_some.mp h
      rw [if_pos rfl] at hn
      omega
    · exact ⟨['+'], _, rfl, .inr rfl, h⟩
    · exact ⟨[], _, rfl, .inl rfl, h⟩
  obtain ⟨hne, ⟨rfl⟩⟩ := ite_none_left_eq_some.mp hl
  refine ⟨sign, l.takeWhile Char.isDigit, l.dropWhile Char.isDigit, ?_, hsign, hne,
    fun c hc => mem_takeWhile_imp hc, hrest l, rfl⟩
  rw [heq, append_assoc, takeWhile_append_dropWhile]

theorem readPort_eq_iff {arg : Text} (harg : ∀ c ∈ arg.head?, isBlank c = false) :
    readPort arg = decimalPort arg ↔ ¬Trailing arg := by
  constructor
  · rintro heq ⟨sign, digits, rest, rfl, hsign, hne, hdigits, hrest, hlow, hhigh, hmore⟩
    rw [readPort, JumpText.parseInt_run hsign hne hdigits hrest, filter_some, if_pos (by simp; omega),
      decimalPort, if_neg] at heq
    · cases heq
    rintro ⟨-, hall, -⟩
    rw [List.all_eq_true] at hall
    rcases hsign with rfl | rfl
    · obtain ⟨c, rest, rfl⟩ := exists_cons_of_ne_nil (hmore.resolve_left (absurd rfl))
      exact Bool.eq_false_iff.mp (hrest c rfl) (hall c (by simp))
    · exact absurd (hall '+' (by simp)) (by decide)
  · intro hplain
    by_cases hall : arg ≠ [] ∧ ∀ c ∈ arg, c.isDigit = true
    · rw [readPort, JumpText.parseInt_digits hall.1 hall.2, filter_some, decimalPort]
      refine ite_congr (propext ⟨fun h => ⟨hall.1, all_eq_true.mpr hall.2, ?_⟩, fun h => ?_⟩) (fun _ => rfl)
        fun _ => rfl
      · have h := of_decide_eq_true h
        omega
      · exact decide_eq_true (by omega)
    · rw [decimalPort, if_neg fun h => hall ⟨h.1, all_eq_true.mp h.2.1⟩, readPort]
      refine filter_eq_none_iff.mpr fun n hn hrange => hplain ?_
      have hrange := of_decide_eq_true hrange
      obtain ⟨sign, digits, rest, rfl, hsign, hne, hdigits, hrest, rfl⟩ :=
        exists_of_parseInt harg hn hrange.1
      refine ⟨sign, digits, rest, rfl, hsign, hne, hdigits, hrest, by omega, by omega, ?_⟩
      by_contra hmore
      rw [not_or, not_not, not_not] at hmore
      obtain ⟨rfl, rfl⟩ := hmore
      exact hall ⟨by simpa using hne, by simpa using hdigits⟩

theorem line_port {expand : Text → Text} {raw arg : Text} {scan : Scan}
    (h : splitDirective raw = some ("port".toList, arg)) :
    (scan.line expand raw).currentBlocks =
      scan.currentBlocks.map fun b => { b with port := (readPort arg).getD b.port } := by
  rw [Scan.line, h]
  rfl

/-- **A directive is read as it is meant** — its keyword and its argument whatever stands between
them, and a port exactly if it is one — just if no blank stands before a `=`, an argument behind
blanks is not empty, and a port has no sign before it and no text behind it. -/
theorem directive_read_iff (expand : Text → Text) {key arg : Text} {s : Separation}
    (h : IsDirective key s arg) :
    (splitDirective (key ++ s.text ++ arg) = some (key.map Char.toLower, arg) ∧
      (key.map Char.toLower = "port".toList → ∀ scan : Scan,
        (scan.line expand (key ++ s.text ++ arg)).currentBlocks =
          scan.currentBlocks.map fun b => { b with port := (decimalPort arg).getD b.port })) ↔
    (s.equals = true → s.before = []) ∧ (s.equals = false → arg ≠ []) ∧
      (key.map Char.toLower = "port".toList → ¬Trailing arg) := by
  rw [← and_assoc, ← splitDirective_iff h]
  refine and_congr_right fun hread => imp_congr_right fun hport => ?_
  rw [hport] at hread
  rw [← readPort_eq_iff fun c hc => h.plain c (.inl hc)]
  refine ⟨fun hall => ?_, fun heq scan => by rw [line_port hread, heq]⟩
  -- a port that only one reads shows in a block that has another
  have hblock : ∀ port : Int, (readPort arg).getD port = (decimalPort arg).getD port := by
    intro port
    have hone := hall ⟨[], false, [{ makeBlock [] with port }]⟩
    rw [line_port hread] at hone
    exact congrArg HostBlock.port (cons.inj hone).1
  generalize readPort arg = r at hblock
  generalize decimalPort arg = d at hblock
  rcases r with _ | r <;> rcases d with _ | d
  · rfl
  · exact absurd (hblock (d + 1)) (by simp only [getD_none, getD_some]; omega)
  · exact absurd (hblock (r + 1)) (by simp only [getD_none, getD_some]; omega)
  · exact congrArg some (hblock 22)

/-- `Port=2222` sets the port of an open block. -/
theorem directive_read_iff_port : splitDirective "Port=2222".toList =
    some ("port".toList, "2222".toList) := by
  have hdigits : ∀ c ∈ "2222".toList, c.isDigit = true := by simp
  refine ((@directive_read_iff id "Port".toList "2222".toList ⟨[], true, []⟩
    ⟨by decide, by simp [isBlank], fun c hc => ?_, nofun, nofun⟩).mpr
    ⟨fun _ => rfl, nofun, fun _ => ?_⟩).1
  · exact (JumpText.plain_of_isDigit (hdigits c (hc.elim mem_of_head? mem_of_getLast?))).1
  · exact (readPort_eq_iff (by simp [isBlank])).mp (by decide +kernel)

/-- With blanks around it, the `=` is read into the value. -/
theorem equals_in_value :
    splitDirective "HostName = a".toList = some ("hostname".toList, "= a".toList) ∧
      splitDirective "HostName=a".toList = some ("hostname".toList, "a".toList) ∧
      readPort "22abc".toList = some 22 := by
  decide +kernel

end Lasterm.Hub.SshConfig
