import Lasterm.Hub.SshRoute
import Lasterm.Lib.Segments
import Mathlib.Data.List.DropRight

/-!
# The grammar of a jump spec

A spec is `[user@]host`, `[user@]host:port`, or either with the host in brackets; blanks around it
and empty elements of its comma list are left out.  What is written so is read as it was meant, and
what is read was written so; what else may stand in the place of the host or of the port is not said
here.

## Main results

* `parseJumpSpec_write` — what the grammar writes is read back.
* `exists_write_of_parseJumpSpec` — what is read has the shape of the grammar.
-/

namespace Lasterm.Hub.SshRoute

open Segments List Option

/-! ### The empty elements -/

/-- Blanks and commas: what the empty elements of a comma list are made of. -/
def Idle (l : Text) : Prop := ∀ c ∈ l, isBlank c = true ∨ c = ','

/-- The elements of a comma list that are not blank. -/
def hops (l : Text) : List Text := (l.splitOn ',').filter fun hop => trim hop ≠ []

variable {l : Text}

theorem trim_eq_nil : trim l = [] ↔ ∀ c ∈ l, isBlank c = true := by
  refine ⟨fun h c hc => ?_, fun h => ?_⟩
  · have hdrop : (l.dropWhile isBlank).dropWhile isBlank = [] := by
      have h' := dropWhile_eq_nil_iff.mp (reverse_eq_nil_iff.mp h)
      exact dropWhile_eq_nil_iff.mpr fun x hx => h' x (mem_reverse.mpr hx)
    rw [dropWhile_idempotent] at hdrop
    exact dropWhile_eq_nil_iff.mp hdrop c hc
  · rw [trim, dropWhile_eq_nil_iff.mpr h]
    rfl

theorem hops_append (l m : Text) : hops (l ++ ',' :: m) = hops l ++ hops m := by
  rw [hops, splitOn_append_cons_self, filter_append]
  rfl

theorem hops_of_idle (h : Idle l) : hops l = [] := by
  refine filter_eq_nil_iff.mpr fun hop hmem => ?_
  rw [decide_eq_true_iff, not_not, trim_eq_nil]
  intro c hc
  refine (h c (mem_of_mem_splitOn hmem hc)).resolve_right ?_
  rintro rfl
  exact not_mem_of_mem_splitOn hmem hc

variable {x : Text}

theorem hops_single (hcomma : ',' ∉ x) (hx : trim x ≠ []) : hops x = [x] := by
  rw [hops, splitOn_eq_singleton hcomma, filter_singleton, decide_eq_true hx, cond_true]

/-- What may stand before a hop: blanks, or empty elements up to their last comma. -/
def Lead (l : Text) : Prop :=
  (∀ c ∈ l, isBlank c = true) ∨ ∃ m, l = m ++ [','] ∧ Idle m

theorem Lead.dropWhile (h : Lead l) :
    l.dropWhile isBlank = [] ∨ ∃ m, l.dropWhile isBlank = m ++ [','] ∧ Idle m := by
  rcases h with h | ⟨m, rfl, hm⟩
  · exact .inl (dropWhile_eq_nil_iff.mpr h)
  · refine .inr ⟨m.dropWhile isBlank, ?_, fun c hc => hm c ((dropWhile_subset _) hc)⟩
    rw [dropWhile_append]
    split
    · next hnil => rw [isEmpty_iff.mp hnil]; rfl
    · rfl

variable {lead trail : Text}

theorem trim_around {a b : Char} (hhead : x.head? = some a)
    (hlast : x.getLast? = some b) (ha : isBlank a = false) (hb : isBlank b = false) :
    trim (lead ++ x ++ trail) =
      lead.dropWhile isBlank ++ x ++ (trail.reverse.dropWhile isBlank).reverse := by
  have hdrop : ∀ l y : Text, ∀ c, y.head? = some c → isBlank c = false →
      (l ++ y).dropWhile isBlank = l.dropWhile isBlank ++ y := by
    intro l y c hy hc
    obtain ⟨y, rfl⟩ := head?_eq_some_iff.mp hy
    rw [dropWhile_append]
    split
    · next hnil => rw [isEmpty_iff.mp hnil, dropWhile_cons, hc]; rfl
    · rfl
  rw [trim, append_assoc, hdrop lead (x ++ trail) a (by rw [head?_append, hhead]; rfl) ha,
    reverse_append, reverse_append, append_assoc,
    hdrop trail.reverse _ b _ hb, reverse_append, reverse_append, reverse_reverse,
    reverse_reverse]
  rw [head?_append, head?_reverse, hlast]
  rfl

theorem hops_around {a b : Char} (hhead : x.head? = some a)
    (hlast : x.getLast? = some b) (ha : isBlank a = false) (hb : isBlank b = false)
    (hcomma : ',' ∉ x) (hlead : Lead lead) (htrail : Lead trail.reverse) :
    hops (trim (lead ++ x ++ trail)) = [x] := by
  have hx : trim x ≠ [] := fun h => by
    rw [trim_eq_nil.mp h a (mem_of_head? hhead)] at ha
    cases ha
  have hright : hops (x ++ (trail.reverse.dropWhile isBlank).reverse) = [x] := by
    rcases htrail.dropWhile with hnil | ⟨m, hm, hidle⟩
    · rw [hnil, reverse_nil, append_nil, hops_single hcomma hx]
    · rw [hm, reverse_append, reverse_singleton, singleton_append, hops_append,
        hops_single hcomma hx, hops_of_idle fun c hc => hidle c (mem_reverse.mp hc),
        append_nil]
  rw [trim_around hhead hlast ha hb, append_assoc]
  rcases hlead.dropWhile with hnil | ⟨m, hm, hidle⟩
  · rw [hnil, nil_append, hright]
  · rw [hm, append_assoc, singleton_append, hops_append, hops_of_idle hidle, hright, nil_append]

theorem idle_below {ps : List Text} (h : (ps.filter fun hop => trim hop ≠ []) = []) :
    Idle (below ',' ps) := by
  intro c hc
  obtain ⟨p, hp, hc⟩ := mem_flatMap.mp hc
  obtain rfl | hc := mem_cons.mp hc
  · exact .inr rfl
  · have hblank := filter_eq_nil_iff.mp h p hp
    rw [decide_eq_true_iff, not_not] at hblank
    exact .inl (trim_eq_nil.mp hblank c hc)

theorem below_splitOn (l : Text) : below ',' (l.splitOn ',') = ',' :: l := by
  rw [← cons_intercalate ',' (splitOn_ne_nil ',' l), intercalate_splitOn]

theorem idle_of_hops (h : hops l = []) : Idle l := fun c hc =>
  idle_below h c (below_splitOn l ▸ mem_cons_of_mem _ hc)

theorem exists_around (h : hops l = [x]) : ',' ∉ x ∧ ∃ a b, l = a ++ x ++ b ∧ Idle a ∧ Idle b := by
  have hfind : ∀ ps : List Text, (ps.filter fun hop => trim hop ≠ []) = [x] →
      ∃ a b, below ',' ps = ',' :: a ++ x ++ b ∧ Idle a ∧ Idle b := by
    intro ps
    induction ps with
    | nil => exact fun h => nomatch h
    | cons p ps ih =>
      intro hps
      rw [filter_cons] at hps
      split at hps
      · obtain ⟨rfl, hrest⟩ := cons.inj hps
        exact ⟨[], below ',' ps, by rw [below_cons]; simp, nofun, idle_below hrest⟩
      · next hp =>
        obtain ⟨a, b, heq, ha, hb⟩ := ih hps
        rw [decide_eq_true_iff, not_not] at hp
        refine ⟨p ++ ',' :: a, b, by rw [below_cons, heq]; simp, fun c hc => ?_, hb⟩
        obtain hc | hc := mem_append.mp hc
        · exact .inl (trim_eq_nil.mp hp c hc)
        · obtain rfl | hc := mem_cons.mp hc
          · exact .inr rfl
          · exact ha c hc
  have hmem : x ∈ l.splitOn ',' := mem_of_mem_filter (h ▸ mem_singleton_self x)
  obtain ⟨a, b, heq, ha, hb⟩ := hfind _ h
  rw [below_splitOn] at heq
  exact ⟨not_mem_of_mem_splitOn hmem, a, b, (cons.inj heq).2, ha, hb⟩

theorem eq_trim (raw : Text) : ∃ a b, raw = a ++ trim raw ++ b ∧ Idle a ∧ Idle b := by
  have hblank : ∀ l : Text, Idle (l.takeWhile isBlank) := fun l c hc =>
    .inl (mem_takeWhile_imp hc)
  refine ⟨raw.takeWhile isBlank, ((raw.dropWhile isBlank).reverse.takeWhile isBlank).reverse, ?_,
    hblank _, fun c hc => hblank _ c (mem_reverse.mp hc)⟩
  rw [trim, append_assoc, ← reverse_append, takeWhile_append_dropWhile,
    reverse_reverse, takeWhile_append_dropWhile]

/-! ### The grammar -/

/-- The host and the port of a hop, its user cut off. -/
def readHostAndPort (user : Option Text) (text : Text) : JumpSpecResult :=
  match bracketed text with
  | some (host, port) => hostAndPortOf user host port
  | none =>
    match cutLast ':' text with
    | none => hostAndPortOf user text none
    | some (host, portText) =>
      if ':' ∈ host then hostAndPortOf user text none
      else hostAndPortOf user host (some portText)

/-- What is written of a jump: its port by its digits. -/
structure JumpText where
  user : Option Text
  host : Text
  port : Option Text
  brackets : Bool

namespace JumpText

variable (t : JumpText)

/-- The host, in brackets if it has them, and the port. -/
def hostAndPort : Text :=
  (if t.brackets then '[' :: t.host ++ [']'] else t.host) ++
    match t.port with
    | none => []
    | some digits => ':' :: digits

/-- `[user@]host`, `[user@]host:port`, `[user@][host]` or `[user@][host]:port`. -/
def write : Text :=
  match t.user with
  | none => t.hostAndPort
  | some user => user ++ '@' :: t.hostAndPort

/-- The port, 22 where there is none. -/
def portNumber : ℕ :=
  match t.port with
  | none => 22
  | some digits => digitsValue digits

/-- What the text names. -/
def spec : ParsedJumpSpec := ⟨t.user, t.host, t.portNumber⟩

/-- The texts of the grammar.  Without brackets, a host with one colon is a host and a port. -/
structure InGrammar : Prop where
  user : ∀ u, t.user = some u → u ≠ [] ∧ ',' ∉ u ∧ ∀ c ∈ u.head?, isBlank c = false
  host : t.host ≠ [] ∧ ',' ∉ t.host ∧ '@' ∉ t.host ∧ ']' ∉ t.host
  digits : ∀ d, t.port = some d →
    d ≠ [] ∧ (∀ c ∈ d, c.isDigit = true) ∧ 1 ≤ digitsValue d ∧ digitsValue d ≤ 65535
  bare : t.brackets = false → (∀ c ∈ t.host, isBlank c = false ∧ c ≠ '[') ∧
    if t.port.isSome then ':' ∉ t.host else t.host.count ':' ≠ 1

/-! ### What is written is read -/

theorem plain_of_isDigit {c : Char} (h : c.isDigit = true) :
    isBlank c = false ∧ c ∉ [',', '@', ':', '[', '-', '+'] := by
  have hval : 48 ≤ c.toNat ∧ c.toNat ≤ 57 := by
    simpa [Char.isDigit, UInt32.le_iff_toNat_le] using h
  refine ⟨?_, fun hmem => ?_⟩
  · simp only [isBlank, contains_cons, contains_nil, Bool.or_false, Bool.or_eq_false_iff,
      Bool.and_eq_false_iff, decide_eq_false_iff_not, beq_eq_false_iff_ne]
    omega
  · have hall : ∀ x ∈ [',', '@', ':', '[', '-', '+'], ¬(48 ≤ x.toNat ∧ x.toNat ≤ 57) := by simp
    exact hall c hmem hval

theorem parseInt_run {sign digits rest : Text} (hsign : sign = [] ∨ sign = ['+'])
    (hne : digits ≠ []) (hdigits : ∀ c ∈ digits, c.isDigit = true)
    (hrest : ∀ c ∈ rest.head?, c.isDigit = false) :
    parseInt (sign ++ digits ++ rest) = some (digitsValue digits : Int) := by
  have htake : (digits ++ rest).takeWhile Char.isDigit = digits := by
    rw [takeWhile_append_of_pos hdigits]
    cases rest with
    | nil => exact append_nil _
    | cons c rest => rw [takeWhile_cons, hrest c rfl, if_neg nofun, append_nil]
  rcases hsign with rfl | rfl
  · obtain ⟨c, d, rfl⟩ := exists_cons_of_ne_nil hne
    obtain ⟨hblank, hplain⟩ := plain_of_isDigit (hdigits c mem_cons_self)
    rw [nil_append, parseInt, cons_append, dropWhile_cons, hblank, if_neg nofun]
    split
    · next heq => simp [(cons.inj heq).1] at hplain
    · next heq => simp [(cons.inj heq).1] at hplain
    · dsimp only
      rw [← cons_append, htake, if_neg hne, if_neg Bool.false_ne_true]
  · have hplus : isBlank '+' = false := by decide
    rw [parseInt, singleton_append, cons_append, dropWhile_cons, hplus, if_neg nofun]
    change (if (digits ++ rest).takeWhile Char.isDigit = [] then none else
      some (digitsValue ((digits ++ rest).takeWhile Char.isDigit) : Int)) = _
    rw [htake, if_neg hne]

theorem parseInt_digits {d : Text} (hne : d ≠ []) (h : ∀ c ∈ d, c.isDigit = true) :
    parseInt d = some (digitsValue d : Int) := by
  simpa using @parseInt_run [] d [] (.inl rfl) hne h nofun

variable {t}

theorem hostAndPortOf_write (h : t.InGrammar) :
    hostAndPortOf t.user t.host t.port = .spec t.spec := by
  have hport : portOf t.port = some (t.portNumber : Int) := by
    unfold portOf portNumber
    cases hd : t.port with
    | none => rfl
    | some d =>
      obtain ⟨hne, hdigits, hlow, hhigh⟩ := h.digits d hd
      dsimp only
      rw [parseInt_digits hne hdigits, filter_some, if_pos]
      exact decide_eq_true ⟨by omega, by omega⟩
  rw [hostAndPortOf, if_neg h.host.1, hport]
  rfl

theorem readHostAndPort_write (h : t.InGrammar) :
    readHostAndPort t.user t.hostAndPort = .spec t.spec := by
  rw [← hostAndPortOf_write h, readHostAndPort, hostAndPort]
  cases hb : t.brackets with
  | true =>
    rw [if_pos rfl, cons_append, cons_append, append_assoc, singleton_append,
      bracketed, breakAt_append_cons h.host.2.2.2]
    obtain ⟨c, host, hhost⟩ := exists_cons_of_ne_nil h.host.1
    cases hd : t.port with
    | none => rw [hhost]
    | some d =>
      obtain ⟨hne, hdigits, -⟩ := h.digits d hd
      rw [hhost]
      simp only [if_pos (And.intro hne (all_eq_true.mpr hdigits))]
  | false =>
    obtain ⟨hplain, hcolon⟩ := h.bare hb
    obtain ⟨c, host, hhost⟩ := exists_cons_of_ne_nil h.host.1
    have hbracketed : ∀ rest, bracketed (t.host ++ rest) = none := by
      intro rest
      rw [hhost, cons_append, bracketed]
      intro rest' heq
      exact (hplain c (hhost ▸ mem_cons_self)).2 (cons.inj heq).1
    rw [if_neg Bool.false_ne_true, hbracketed]
    cases hd : t.port with
    | none =>
      rw [hd] at hcolon
      rw [append_nil]
      cases hcut : cutLast ':' t.host with
      | none => rfl
      | some p =>
        obtain ⟨heq, hp⟩ := eq_of_cutLast hcut
        refine if_pos (by_contra fun hmem => hcolon ?_)
        rw [heq, count_append, count_cons_self, count_eq_zero.mpr hmem, count_eq_zero.mpr hp]
    | some d =>
      rw [hd] at hcolon
      obtain ⟨-, hdigits, -⟩ := h.digits d hd
      rw [cutLast_append_cons fun hmem => (plain_of_isDigit (hdigits _ hmem)).2 (by simp)]
      exact if_neg hcolon

theorem not_mem_hostAndPort (h : t.InGrammar) {c : Char} (hc : c ∈ [',', '@'])
    (hhost : c ∉ t.host) : c ∉ t.hostAndPort := by
  have hmark : ∀ c ∈ [',', '@'], c ∉ ['[', ']', ':'] ∧ c.isDigit = false := by simp
  obtain ⟨hmark, hdigit⟩ := hmark c hc
  simp only [mem_cons, not_mem_nil, or_false, not_or] at hmark
  rw [hostAndPort, mem_append]
  rintro (hmem | hmem)
  · split at hmem <;> simp_all
  · split at hmem
    · cases hmem
    · next d hd =>
      obtain rfl | hmem := mem_cons.mp hmem
      · exact hmark.2.2 rfl
      · rw [(h.digits d hd).2.1 c hmem] at hdigit
        cases hdigit

theorem head_hostAndPort (h : t.InGrammar) :
    ∃ a, t.hostAndPort.head? = some a ∧ isBlank a = false := by
  rw [hostAndPort]
  cases hb : t.brackets with
  | true => exact ⟨'[', rfl, by decide⟩
  | false =>
    obtain ⟨c, host, hhost⟩ := exists_cons_of_ne_nil h.host.1
    rw [hhost]
    exact ⟨c, rfl, ((h.bare hb).1 c (hhost ▸ mem_cons_self)).1⟩

theorem getLast_hostAndPort (h : t.InGrammar) :
    ∃ b, t.hostAndPort.getLast? = some b ∧ isBlank b = false := by
  have hlast : ∀ l : Text, l ≠ [] → (∀ c ∈ l, isBlank c = false) → ∀ m : Text,
      ∃ b, (m ++ l).getLast? = some b ∧ isBlank b = false := fun l hne hl m =>
    ⟨l.getLast hne, by rw [getLast?_append, getLast?_eq_some_getLast hne]; rfl,
      hl _ (getLast_mem hne)⟩
  rw [hostAndPort]
  cases hd : t.port with
  | some d =>
    obtain ⟨hne, hdigits, -⟩ := h.digits d hd
    exact (append_cons _ ':' d).symm ▸
      hlast d hne (fun c hc => (plain_of_isDigit (hdigits c hc)).1) _
  | none =>
    rw [append_nil]
    cases hb : t.brackets with
    | true => exact hlast [']'] nofun (by simp [isBlank]) ('[' :: t.host)
    | false => exact hlast t.host h.host.1 (fun c hc => ((h.bare hb).1 c hc).1) []

end JumpText

/-- The only hop of a jump, its user cut off. -/
def readHop (single : Text) : JumpSpecResult :=
  match cutLast '@' single with
  | none => readHostAndPort none single
  | some (user, text) =>
    if user = [] then .invalid "it names an empty user" else readHostAndPort (some user) text

theorem parseJumpSpec_eq {raw : Text} (hne : trim raw ≠ [])
    (hnone : (trim raw).map Char.toLower ≠ "none".toList) :
    parseJumpSpec raw = if 1 < (hops (trim raw)).length then .chain (hops (trim raw)).length
      else readHop ((hops (trim raw)).head?.getD (trim raw)) := by
  unfold parseJumpSpec
  dsimp only
  rw [if_neg hne, if_neg hnone, ← hops]
  refine if_congr Iff.rfl rfl ?_
  generalize (hops (trim raw)).head?.getD (trim raw) = single
  unfold readHop
  cases cutLast '@' single with
  | none => rfl
  | some p =>
    obtain ⟨user, text⟩ := p
    exact if_congr (by simp) rfl rfl

theorem parseJumpSpec_write {t : JumpText} (h : t.InGrammar)
    (hlead : Lead lead) (htrail : Lead trail.reverse)
    (hnone : (trim (lead ++ t.write ++ trail)).map Char.toLower ≠ "none".toList) :
    parseJumpSpec (lead ++ t.write ++ trail) = .spec t.spec := by
  have hread := t.readHostAndPort_write h
  have hat : '@' ∉ t.hostAndPort := t.not_mem_hostAndPort h (by decide) h.host.2.2.1
  have hcomma : ',' ∉ t.hostAndPort := t.not_mem_hostAndPort h (by decide) h.host.2.1
  obtain ⟨a, hhead, ha⟩ := t.head_hostAndPort h
  obtain ⟨b, hlast, hb⟩ := t.getLast_hostAndPort h
  -- what is written is one hop, whatever it begins with
  have hwrite : readHop t.write = .spec t.spec ∧ ',' ∉ t.write ∧
      (∃ a, t.write.head? = some a ∧ isBlank a = false) ∧ t.write.getLast? = some b := by
    rw [JumpText.write]
    cases hu : t.user with
    | none =>
      rw [hu] at hread
      exact ⟨by rw [readHop, cutLast_of_not_mem hat, hread], hcomma, ⟨a, hhead, ha⟩, hlast⟩
    | some u =>
      obtain ⟨hne, hucomma, huhead⟩ := h.user u hu
      obtain ⟨c, u', rfl⟩ := exists_cons_of_ne_nil hne
      rw [hu] at hread
      refine ⟨?_, ?_, ⟨c, rfl, huhead c rfl⟩, ?_⟩
      · rw [readHop, cutLast_append_cons hat]
        exact (if_neg hne).trans hread
      · simpa [hcomma] using hucomma
      · dsimp only
        rw [append_cons, getLast?_append, hlast]
        rfl
  obtain ⟨hhop, hcomma, ⟨a, hhead, ha⟩, hlast⟩ := hwrite
  have hhops := hops_around hhead hlast ha hb hcomma hlead htrail
  have hne : trim (lead ++ t.write ++ trail) ≠ [] := fun hnil => by
    rw [hnil] at hhops
    cases hhops
  rw [parseJumpSpec_eq hne hnone, hhops]
  exact hhop

/-! ### What is read was written -/

/-- What a spec that was read has of the text it was read from. -/
structure JumpText.Names (t : JumpText) (s : ParsedJumpSpec) : Prop where
  user_eq : s.user = t.user
  host_eq : s.host = t.host
  user : s.user ≠ some []
  host : s.host ≠ [] ∧ ',' ∉ s.host ∧ '@' ∉ s.host
  port : 1 ≤ s.port ∧ s.port ≤ 65535
  digits : (∀ d, t.port = some d → ∀ c ∈ d, c.isDigit = true) → s.port = t.portNumber

theorem eq_of_bracketed {text host : Text} {port : Option Text}
    (h : bracketed text = some (host, port)) (user : Option Text) :
    text = (JumpText.mk user host port true).hostAndPort := by
  unfold bracketed at h
  split at h
  · next rest =>
    split at h
    · cases h
    · next hcut =>
      obtain ⟨rfl, rfl⟩ := Prod.mk.inj (some.inj h)
      rw [eq_of_breakAt hcut]
      simp [JumpText.hostAndPort]
    · next digits _ hcut =>
      obtain ⟨-, heq⟩ := ite_none_right_eq_some.mp h
      obtain ⟨rfl, rfl⟩ := Prod.mk.inj (some.inj heq)
      rw [eq_of_breakAt hcut]
      simp [JumpText.hostAndPort]
    · cases h
    · cases h
  · cases h

variable {s : ParsedJumpSpec}

/-- What `hostAndPortOf` reads of a text in which no user is left. -/
theorem names_of_hostAndPortOf {t : JumpText}
    (h : hostAndPortOf t.user t.host t.port = .spec s) (hu : t.user ≠ some [])
    (hcomma : ',' ∉ t.hostAndPort) (hat : '@' ∉ t.hostAndPort) : t.Names s := by
  rw [hostAndPortOf] at h
  split at h
  · cases h
  · next hne =>
    split at h
    · next port hport =>
      obtain rfl := JumpSpecResult.spec.inj h
      have hhost : t.host ⊆ t.hostAndPort := fun c hc => by
        rw [JumpText.hostAndPort]
        split <;> simp [hc]
      have hmem : t.host ≠ [] ∧ ',' ∉ t.host ∧ '@' ∉ t.host :=
        ⟨hne, fun h => hcomma (hhost h), fun h => hat (hhost h)⟩
      unfold portOf at hport
      split at hport
      · next hnone =>
        cases hport
        exact ⟨rfl, rfl, hu, hmem, ⟨by simp, by simp⟩, fun _ => by
          rw [JumpText.portNumber, hnone]; rfl⟩
      · next d hd =>
        obtain ⟨hparse, hrange⟩ := filter_eq_some_iff.mp hport
        refine ⟨rfl, rfl, hu, hmem, of_decide_eq_true hrange, fun hall => ?_⟩
        have hd' : d ≠ [] := by
          rintro rfl
          cases hparse
        rw [JumpText.portNumber, hd]
        exact some.inj (hparse.symm.trans (JumpText.parseInt_digits hd' (hall d hd)))
    · cases h

theorem exists_of_readHostAndPort {user : Option Text} {text : Text}
    (h : readHostAndPort user text = .spec s) (hu : user ≠ some [])
    (hcomma : ',' ∉ text) (hat : '@' ∉ text) :
    ∃ t : JumpText, t.user = user ∧ text = t.hostAndPort ∧ t.Names s := by
  have hwhole : ∀ t : JumpText, t.user = user → text = t.hostAndPort →
      hostAndPortOf user t.host t.port = .spec s →
        ∃ t : JumpText, t.user = user ∧ text = t.hostAndPort ∧ t.Names s := by
    rintro t rfl rfl ht
    exact ⟨t, rfl, rfl, names_of_hostAndPortOf ht hu hcomma hat⟩
  have hbare : text = (JumpText.mk user text none false).hostAndPort :=
    (append_nil text).symm
  unfold readHostAndPort at h
  split at h
  · next host port hb => exact hwhole ⟨user, host, port, true⟩ rfl (eq_of_bracketed hb user) h
  · split at h
    · exact hwhole ⟨user, text, none, false⟩ rfl hbare h
    · next host portText hcut =>
      split at h
      · exact hwhole ⟨user, text, none, false⟩ rfl hbare h
      · exact hwhole ⟨user, host, some portText, false⟩ rfl (eq_of_cutLast hcut).1 h

theorem exists_of_readHop (h : readHop x = .spec s)
    (hx : ',' ∉ x) : ∃ t : JumpText, x = t.write ∧ t.Names s := by
  unfold readHop at h
  split at h
  · next hcut =>
    obtain ⟨t, hu, rfl, ht⟩ := exists_of_readHostAndPort h nofun hx (not_mem_of_cutLast hcut)
    exact ⟨t, by rw [JumpText.write, hu], ht⟩
  · next user text hcut =>
    obtain ⟨rfl, hat⟩ := eq_of_cutLast hcut
    split at h
    · cases h
    · next hne =>
      obtain ⟨t, hu, rfl, ht⟩ := exists_of_readHostAndPort h (fun heq => hne (some.inj heq))
        (fun hc => hx (mem_append_right _ (mem_cons_of_mem _ hc))) hat
      exact ⟨t, by rw [JumpText.write, hu], ht⟩

theorem exists_write_of_parseJumpSpec {raw : Text}
    (h : parseJumpSpec raw = .spec s) (hraw : ¬Idle raw) :
    ∃ (t : JumpText) (a b : Text), raw = a ++ t.write ++ b ∧ Idle a ∧ Idle b ∧ ',' ∉ t.write ∧
      t.Names s := by
  obtain ⟨a, b, heq, ha, hb⟩ := eq_trim raw
  have hidle : ∀ {l m : Text}, Idle l → Idle m → Idle (l ++ m) := fun hl hm c hc =>
    (mem_append.mp hc).elim (hl c) (hm c)
  have hhops : hops (trim raw) ≠ [] := fun hnil =>
    hraw (heq ▸ hidle (hidle ha (idle_of_hops hnil)) hb)
  by_cases hne : trim raw = []
  · rw [hne] at hhops
    exact absurd rfl hhops
  by_cases hnone : (trim raw).map Char.toLower = "none".toList
  · unfold parseJumpSpec at h
    rw [if_neg hne, if_pos hnone] at h
    cases h
  rw [parseJumpSpec_eq hne hnone] at h
  match hl : hops (trim raw) with
  | [] => exact absurd hl hhops
  | _ :: _ :: _ =>
    rw [hl, if_pos (by simp)] at h
    cases h
  | [x] =>
    rw [hl] at h
    obtain ⟨hcomma, a', b', hx, ha', hb'⟩ := exists_around hl
    obtain ⟨t, rfl, ht⟩ := exists_of_readHop h hcomma
    refine ⟨t, a ++ a', b' ++ b, ?_, hidle ha ha', hidle hb' hb, hcomma, ht⟩
    rw [hx] at heq
    rw [heq]
    simp only [append_assoc]

/-! ### Printing -/

/-- The bracketed form of a spec. -/
def ParsedJumpSpec.text (s : ParsedJumpSpec) : JumpText :=
  ⟨s.user, s.host, some (Nat.toDigits 10 s.port.toNat), true⟩

theorem ParsedJumpSpec.spec_text (h : 1 ≤ s.port) : s.text.spec = s := by
  have hvalue : digitsValue (Nat.toDigits 10 s.port.toNat) = s.port.toNat :=
    Nat.ofDigitChars_ten_toDigits
  obtain ⟨user, host, port⟩ := s
  rw [JumpText.spec, JumpText.portNumber, ParsedJumpSpec.text]
  dsimp only at hvalue h ⊢
  rw [hvalue, Int.toNat_of_nonneg (by omega)]

theorem ParsedJumpSpec.inGrammar_text {s : ParsedJumpSpec} (h : s.host ≠ [])
    (hhost : ',' ∉ s.host ∧ '@' ∉ s.host ∧ ']' ∉ s.host) (hport : 1 ≤ s.port ∧ s.port ≤ 65535)
    (hu : ∀ u, s.user = some u → u ≠ [] ∧ ',' ∉ u ∧ ∀ c ∈ u.head?, isBlank c = false) :
    s.text.InGrammar where
  user := hu
  host := ⟨h, hhost⟩
  bare := nofun
  digits := by
    rintro _ ⟨rfl⟩
    have hvalue : digitsValue (Nat.toDigits 10 s.port.toNat) = s.port.toNat :=
      Nat.ofDigitChars_ten_toDigits
    rw [hvalue]
    exact ⟨Nat.toDigits_ne_nil, fun c hc => Nat.isDigit_of_mem_toDigits (by omega) (by omega) hc,
      by omega⟩

/-- **`parseJumpSpec` reads its grammar.**  What the grammar writes, between blanks and empty
elements, is read as the spec it writes.  Of a text that is more than blanks and commas, a spec
is read only if it is written so, by the shape.  A spec read, printed in the bracketed form, is
read again. -/
theorem parseJumpSpec_reads :
    (∀ (t : JumpText) (lead trail : Text), t.InGrammar → Lead lead → Lead trail.reverse →
      (trim (lead ++ t.write ++ trail)).map Char.toLower ≠ "none".toList →
        parseJumpSpec (lead ++ t.write ++ trail) = .spec t.spec) ∧
    ∀ (raw : Text) (s : ParsedJumpSpec), parseJumpSpec raw = .spec s → ¬Idle raw →
      (∃ (t : JumpText) (a b : Text), raw = a ++ t.write ++ b ∧ Idle a ∧ Idle b ∧ ',' ∉ t.write ∧
        t.Names s) ∧
      (']' ∉ s.host → (∀ u, s.user = some u → ∀ c ∈ u.head?, isBlank c = false) →
        parseJumpSpec s.text.write = .spec s) := by
  refine ⟨fun t lead trail ht hlead htrail => parseJumpSpec_write ht hlead htrail,
    fun raw s h hraw => ?_⟩
  obtain ⟨t, a, b, heq, ha, hb, hcomma, ht⟩ := exists_write_of_parseJumpSpec h hraw
  refine ⟨⟨t, a, b, heq, ha, hb, hcomma, ht⟩, fun hclose hhead => ?_⟩
  have hgrammar : s.text.InGrammar := by
    refine ParsedJumpSpec.inGrammar_text ht.host.1 ⟨ht.host.2.1, ht.host.2.2, hclose⟩ ht.port
      fun u hu => ⟨?_, ?_, hhead u hu⟩
    · rintro rfl
      exact ht.user hu
    · intro hmem
      rw [JumpText.write, ← ht.user_eq, hu] at hcomma
      exact hcomma (mem_append_left _ hmem)
  have hnone : (trim ([] ++ s.text.write ++ [])).map Char.toLower ≠ "none".toList := by
    intro hnone
    obtain ⟨a, b, heq, ha, hb⟩ := eq_trim ([] ++ s.text.write ++ [])
    have hmem : ']' ∈ [] ++ s.text.write ++ [] := by
      rw [JumpText.write]
      split <;> simp [JumpText.hostAndPort, ParsedJumpSpec.text]
    rw [heq, mem_append, mem_append] at hmem
    obtain (hmem | hmem) | hmem := hmem
    · exact absurd (ha _ hmem) (by decide)
    · exact absurd (hnone ▸ mem_map_of_mem hmem) (by decide)
    · exact absurd (hb _ hmem) (by decide)
  have hwrite := parseJumpSpec_write hgrammar (.inl (forall_mem_nil _))
    (.inl (forall_mem_nil _)) hnone
  rwa [nil_append, append_nil, ParsedJumpSpec.spec_text ht.port.1] at hwrite

/-- A comma list with one element, which names a user and a port. -/
theorem parseJumpSpec_reads_ops : parseJumpSpec ", ,ops@bastion:2222, ".toList =
    .spec ⟨some "ops".toList, "bastion".toList, 2222⟩ :=
  parseJumpSpec_reads.1 ⟨some "ops".toList, "bastion".toList, some "2222".toList, false⟩
    ", ,".toList ", ".toList
    { user := by rintro _ ⟨rfl⟩; simp [isBlank]
      host := by decide
      digits := by rintro _ ⟨rfl⟩; exact ⟨nofun, by simp, by decide⟩
      bare := fun _ => by simp [isBlank] }
    (.inr ⟨", ".toList, rfl, by simp [Idle, isBlank]⟩)
    (.inr ⟨" ".toList, rfl, by simp [Idle, isBlank]⟩)
    (by decide +kernel)

/-- A host of the name `none` is refused. -/
theorem none_refused : (JumpText.mk none "none".toList none false).InGrammar ∧
    parseJumpSpec (JumpText.mk none "none".toList none false).write =
      .invalid "`none` means no jump at all" :=
  ⟨{ user := nofun, host := by decide, digits := nofun, bare := fun _ => by simp [isBlank] },
    by decide +kernel⟩

end Lasterm.Hub.SshRoute
