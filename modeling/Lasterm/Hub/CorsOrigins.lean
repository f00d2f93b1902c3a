import Mathlib.Computability.RegularExpressions

/-!
# The origins that a pattern admits

An origin pattern becomes the text of a regular expression: the special characters are escaped,
`*` becomes `\d+`, and the whole is anchored.  What the expression admits is then up to the engine
that reads the text again.  `regExp` is that reader, as far as the texts made here need it: a special
character that is not escaped has no literal reading, and the reader gives up at it.

## Main definitions

* `corsOriginsToRegexps`, `matchCorsOrigin`: the patterns compiled, and an origin asked of them.
* `regExp`: the reader of a regular expression's text.
* `Fills pattern origin`: `origin` is `pattern` with digits for each `*`.
-/

namespace Lasterm.Hub.CorsOrigins

open RegularExpression List Option

/-- A text, as its characters. -/
abbrev Text := List Char

/-! ### The text of an expression and its reading -/

/-- The characters that `replace(/[$()+.?[\\\]^{|}-]/g, …)` puts a backslash before. -/
def escapedChars : Text := ['$', '(', ')', '+', '.', '?', '[', '\\', ']', '^', '{', '|', '}', '-']

/-- The pattern with its special characters escaped. -/
def escape (pattern : Text) : Text :=
  pattern.flatMap fun c => if c ∈ escapedChars then ['\\', c] else [c]

/-- A `*` stands for the digits of a port. -/
def withPort (escaped : Text) : Text :=
  escaped.flatMap fun c => if c = '*' then ['\\', 'd', '+'] else [c]

/-- The characters that a regular expression does not read as themselves. -/
def syntaxChars : Text :=
  ['^', '$', '\\', '.', '*', '+', '?', '(', ')', '[', ']', '{', '}', '|']

/-- `\d`: one of the ten digits, no other script's. -/
def digit : RegularExpression Char :=
  (['0', '1', '2', '3', '4', '5', '6', '7', '8', '9'].map char).sum

/-- The rest of an anchored expression after the atom `last`, to which a `+` may still be put. -/
def regExp (last : Option (RegularExpression Char)) : Text → Option (RegularExpression Char)
  | [] => none
  | ['$'] => some (last.getD 1)
  | '+' :: rest => last.bind fun atom => (regExp none rest).map (atom * star atom * ·)
  | '\\' :: 'd' :: rest => (regExp (some digit) rest).map (last.getD 1 * ·)
  | '\\' :: c :: rest =>
    -- before a letter or a digit a backslash has a meaning of its own
    if c.isAlphanum then none else (regExp (some (char c)) rest).map (last.getD 1 * ·)
  | c :: rest =>
    if c ∈ syntaxChars then none else (regExp (some (char c)) rest).map (last.getD 1 * ·)

/-- `new RegExp(text)` for a text that starts with `^`; `none` is the text's `SyntaxError`, or a
construct that the reader does not know. -/
def newRegExp : Text → Option (RegularExpression Char)
  | '^' :: rest => regExp none rest
  | _ => none

/-- `corsOriginsToRegexps`; a pattern that makes no regular expression throws. -/
def corsOriginsToRegexps (patterns : List Text) : Option (List (RegularExpression Char)) :=
  patterns.mapM fun pattern => newRegExp ('^' :: withPort (escape pattern) ++ ['$'])

/-- `matchCorsOrigin`. -/
def matchCorsOrigin (origin : Text) (regexps : List (RegularExpression Char)) : Bool :=
  regexps.any fun re => re.rmatch origin

/-! ### What a pattern says -/

/-- The origin is the pattern with a run of digits in the place of each `*`. -/
inductive Fills : Text → Text → Prop
  | nil : Fills [] []
  | char {c pattern origin} : c ≠ '*' → Fills pattern origin → Fills (c :: pattern) (c :: origin)
  | port {digits pattern origin} : digits ≠ [] → (∀ d ∈ digits, d.isDigit) →
      Fills pattern origin → Fills ('*' :: pattern) (digits ++ origin)

/-- The origins that a pattern admits, as a language. -/
def filled (pattern : Text) : Language Char := {origin | Fills pattern origin}

variable {pattern origin text : Text} {c : Char}

/-! ### What the atoms match -/

theorem mem_digit_iff : text ∈ digit.matches' ↔ ∃ d : Char, d.isDigit ∧ text = [d] := by
  have hsum (ds : Text) : text ∈ (ds.map char).sum.matches' ↔ ∃ d ∈ ds, text = [d] := by
    induction ds with
    | nil => simp
    | cons d ds ih =>
      rw [map_cons, sum_cons, matches'_add, Language.mem_add, ih, exists_mem_cons_iff]
      rfl
  rw [digit, hsum]
  refine exists_congr fun d => and_congr_left fun _ => ?_
  rw [Char.isDigit_iff_toNat]
  simp only [mem_cons, ← Char.toNat_inj, not_mem_nil, or_false]
  change d.toNat = 48 ∨ d.toNat = 49 ∨ d.toNat = 50 ∨ d.toNat = 51 ∨ d.toNat = 52 ∨
    d.toNat = 53 ∨ d.toNat = 54 ∨ d.toNat = 55 ∨ d.toNat = 56 ∨ d.toNat = 57 ↔
      48 ≤ d.toNat ∧ d.toNat ≤ 57
  omega

theorem mem_star_digit_iff : text ∈ (star digit).matches' ↔ ∀ d ∈ text, d.isDigit := by
  change text ∈ KStar.kstar digit.matches' ↔ _
  rw [Language.mem_kstar]
  constructor
  · rintro ⟨parts, rfl, hparts⟩ d hd
    obtain ⟨part, hpart, hd⟩ := mem_flatten.mp hd
    obtain ⟨e, he, rfl⟩ := mem_digit_iff.mp (hparts part hpart)
    rwa [mem_singleton.mp hd]
  · intro hall
    refine ⟨text.map fun d => [d], ?_, fun part hpart => ?_⟩
    · exact (flatMap_singleton' text).symm
    · obtain ⟨d, hd, rfl⟩ := mem_map.mp hpart
      exact mem_digit_iff.mpr ⟨d, hall d hd, rfl⟩

theorem mem_digits_iff :
    text ∈ (digit * star digit).matches' ↔ text ≠ [] ∧ ∀ d ∈ text, d.isDigit := by
  rw [matches'_mul, Language.mem_mul]
  constructor
  · rintro ⟨_, hfirst, rest, hrest, rfl⟩
    obtain ⟨d, hd, rfl⟩ := mem_digit_iff.mp hfirst
    exact ⟨cons_ne_nil _ _, forall_mem_cons.mpr ⟨hd, mem_star_digit_iff.mp hrest⟩⟩
  · rintro ⟨hne, hall⟩
    obtain ⟨d, rest, rfl⟩ := exists_cons_of_ne_nil hne
    obtain ⟨hd, hrest⟩ := forall_mem_cons.mp hall
    exact ⟨[d], mem_digit_iff.mpr ⟨d, hd, rfl⟩, rest, mem_star_digit_iff.mpr hrest, rfl⟩

theorem filled_nil : filled [] = 1 := by
  ext origin
  constructor
  · rintro ⟨⟩
    exact Language.nil_mem_one
  · intro h
    rw [(Language.mem_one _).mp h]
    exact .nil

theorem filled_cons (h : c ≠ '*') : filled (c :: pattern) = (char c).matches' * filled pattern := by
  ext origin
  constructor
  · rintro (_ | ⟨_, hrest⟩ | _)
    · exact Language.mem_mul.mpr ⟨[c], rfl, _, hrest, rfl⟩
    · exact absurd rfl h
  · intro hmem
    obtain ⟨_, rfl, rest, hrest, rfl⟩ := Language.mem_mul.mp hmem
    exact .char h hrest

theorem filled_port :
    filled ('*' :: pattern) = (digit * star digit).matches' * filled pattern := by
  ext origin
  constructor
  · rintro (_ | ⟨hc, _⟩ | ⟨hne, hdigits, hrest⟩)
    · exact absurd rfl hc
    · exact Language.mem_mul.mpr ⟨_, mem_digits_iff.mpr ⟨hne, hdigits⟩, _, hrest, rfl⟩
  · intro hmem
    obtain ⟨digits, hdigits, rest, hrest, rfl⟩ := Language.mem_mul.mp hmem
    obtain ⟨hne, hall⟩ := mem_digits_iff.mp hdigits
    exact .port hne hall hrest

/-! ### The text that is made of a pattern reads as the pattern -/

/-- What one character of a pattern is turned into. -/
def portOrChar (c : Char) : Text :=
  if c = '*' then ['\\', 'd', '+'] else if c ∈ escapedChars then ['\\', c] else [c]

theorem withPort_escape_cons :
    withPort (escape (c :: pattern)) = portOrChar c ++ withPort (escape pattern) := by
  simp only [escape, withPort, flatMap_cons, flatMap_append, portOrChar]
  by_cases hstar : c = '*'
  · subst hstar
    rfl
  by_cases hesc : c ∈ escapedChars <;> simp [hstar, hesc]

/-- A character other than `*` is read back as itself, whatever it is. -/
theorem regExp_portOrChar (h : c ≠ '*') (last : Option (RegularExpression Char)) (rest : Text) :
    regExp last (portOrChar c ++ rest) =
      (regExp (some (char c)) rest).map (last.getD 1 * ·) := by
  rw [portOrChar, if_neg h]
  by_cases hesc : c ∈ escapedChars
  · have halnum : ∀ e ∈ escapedChars, e.isAlphanum = false := by
      rw [← forall_iff_forall_mem]
      decide +kernel
    -- the equation of `regExp` for an escaped character needs that it is no `d`
    have hd : c ≠ 'd' := fun hc => absurd (halnum c hesc) (by simp [hc])
    rw [if_pos hesc]
    simp [regExp, halnum c hesc]
  · have hspecial : ∀ e ∈ syntaxChars, e = '*' ∨ e ∈ escapedChars := by
      rw [← forall_iff_forall_mem]
      decide +kernel
    have hplain : c ∉ syntaxChars := fun hc => (hspecial c hc).elim h hesc
    rw [if_neg hesc, singleton_append, regExp.eq_def]
    split <;> simp_all [syntaxChars]

/-- The induction is on the pattern; what is read before it is `last`. -/
theorem regExp_matches (pattern : Text) (last : Option (RegularExpression Char)) :
    ∃ re, regExp last (withPort (escape pattern) ++ ['$']) = some re ∧
      re.matches' = (last.getD 1).matches' * filled pattern := by
  induction pattern generalizing last with
  | nil => exact ⟨_, rfl, by rw [filled_nil, mul_one]⟩
  | cons c pattern ih =>
    rw [withPort_escape_cons, append_assoc]
    by_cases hstar : c = '*'
    · subst hstar
      obtain ⟨re, hread, hmatches⟩ := ih none
      refine ⟨last.getD 1 * (digit * star digit * re), ?_, ?_⟩
      · simp [portOrChar, regExp, hread]
      · rw [filled_port, matches'_mul, matches'_mul, hmatches, getD_none,
          matches'_epsilon, one_mul]
    · obtain ⟨re, hread, hmatches⟩ := ih (some (char c))
      refine ⟨last.getD 1 * re, ?_, ?_⟩
      · rw [regExp_portOrChar hstar, hread, map_some]
      · rw [filled_cons hstar, matches'_mul, hmatches, getD_some]

theorem newRegExp_accepts (pattern : Text) :
    ∃ re, newRegExp ('^' :: withPort (escape pattern) ++ ['$']) = some re ∧
      ∀ origin, re.rmatch origin ↔ Fills pattern origin := by
  obtain ⟨re, hread, hmatches⟩ := regExp_matches pattern none
  refine ⟨re, hread, fun origin => ?_⟩
  rw [rmatch_iff_matches', hmatches, getD_none, matches'_epsilon, one_mul]
  rfl

/-- Every list of patterns compiles, and an origin is accepted just where it is one of the patterns
with a run of digits for each `*`. -/
theorem matchCorsOrigin_iff (patterns : List Text) :
    ∃ regexps, corsOriginsToRegexps patterns = some regexps ∧
      ∀ origin, matchCorsOrigin origin regexps ↔ ∃ pattern ∈ patterns, Fills pattern origin := by
  induction patterns with
  | nil => exact ⟨[], rfl, by simp [matchCorsOrigin]⟩
  | cons pattern patterns ih =>
    obtain ⟨re, hread, haccepts⟩ := newRegExp_accepts pattern
    obtain ⟨regexps, hmap, hany⟩ := ih
    refine ⟨re :: regexps, ?_, fun origin => ?_⟩
    · rw [corsOriginsToRegexps, mapM_cons, hread]
      simp only [corsOriginsToRegexps] at hmap
      rw [hmap]
      rfl
    · rw [exists_mem_cons_iff, ← haccepts, ← hany, matchCorsOrigin, any_cons, Bool.or_eq_true]
      rfl

end Lasterm.Hub.CorsOrigins
