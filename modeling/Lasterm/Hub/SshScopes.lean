import Lasterm.Hub.SshConfig
import Lasterm.Lib.TextCoding
import Mathlib.Algebra.Order.BigOperators.Group.List
import Mathlib.Algebra.Order.Group.Nat

/-!
# Where the blocks of an SSH configuration begin and end

A part of a configuration is what a `Host` line begins and the next one ends.  `resolveIdentityAgent`
counts a part, up to a `Match` line, as applying to a name that a pattern of its line takes and no
negated one does, and the first value found counts; `parseSshConfig` gives the whole part to each
pattern without wildcards, and the last value counts.

## Main results

* `parseSshConfig_scoped_iff` — which texts both read alike; `past_match` — one they do not.
-/

namespace Lasterm.Hub.SshConfig

open SshRoute List

/-- A keyword and its value. -/
abbrev Directive : Type := Text × Text

/-! ### The agent of a host -/

/-- Whether a `.` of a regular expression takes a unit: any but the ends of lines. -/
def dotTakes (c : UInt16) : Bool := c ∉ [10, 13, 0x2028, 0x2029]

/-- A pattern against a name, unit by unit; `canon` gives those that are one, case aside, the same
form.  `*` is 42 and `?` is 63. -/
def hostPatternMatches (canon : UInt16 → UInt16) : List UInt16 → List UInt16 → Bool
  | [], name => name.isEmpty
  | p :: pattern, name =>
    if p = 42 then
      (range (name.length + 1)).any fun n =>
        (name.take n).all dotTakes && hostPatternMatches canon pattern (name.drop n)
    else
      match name with
      | [] => false
      | c :: name =>
        (if p = 63 then dotTakes c else canon p = canon c) && hostPatternMatches canon pattern name

/-- The loop of `hostLineApplies`. -/
def patternsApply (canon : UInt16 → UInt16) (name : Text) (applies : Bool) : List Text → Bool
  | [] => applies
  | raw :: patterns =>
    let negated := raw.head? = some '!'
    let pattern := if negated then raw.drop 1 else raw
    if hostPatternMatches canon (utf16.text pattern) (utf16.text name) = false then
      patternsApply canon name applies patterns
    else if negated then false
    else patternsApply canon name true patterns

/-- A Host line applies to a name. -/
def hostLineApplies (canon : UInt16 → UInt16) (patterns name : Text) : Bool :=
  patternsApply canon name false (patternsOf patterns)

/-- A `?` takes half of a character of two units. -/
example : hostLineApplies id "😀 !?".toList "😀".toList = true ∧
    hostLineApplies id "😀 !??".toList "😀".toList = false := by decide +kernel

/-- A value without the quotes around it. -/
def unquote (value : Text) : Text :=
  if 2 ≤ value.length ∧ value.head? = some '"' ∧ value.getLast? = some '"' then
    value.tail.dropLast
  else value

/-- The loop of `resolveIdentityAgent`. -/
def agentFrom (canon : UInt16 → UInt16) (name : Text) (applies : Bool) :
    List Directive → Option Text
  | [] => none
  | (key, value) :: ds =>
    if key = "host".toList then agentFrom canon name (hostLineApplies canon value name) ds
    else if key = "match".toList then agentFrom canon name false ds
    else if applies ∧ key = "identityagent".toList then some (unquote value)
    else agentFrom canon name applies ds

/-- The directives of a file. -/
def directives (content : Text) : List Directive :=
  (content.splitOn '\n').filterMap splitDirective

/-- `resolveIdentityAgent`: the first value that applies. -/
def resolveIdentityAgent (canon : UInt16 → UInt16) (content name : Text) : Option Text :=
  agentFrom canon name true (directives content)

/-! ### The parts -/

/-- What stands before the first line of a keyword. -/
def before (key : String) (ds : List Directive) : List Directive :=
  ds.takeWhile (·.1 ≠ key.toList)

/-- The patterns of a `Host` line, and the directives up to the next one. -/
structure Part where
  patterns : Text
  body : List Directive

/-- The file from one Host line to the next. -/
def parts : List Directive → List Part
  | [] => []
  | (key, value) :: ds =>
    if key = "host".toList then ⟨value, before "host" ds⟩ :: parts ds else parts ds

/-- The patterns without wildcards. -/
def Part.names (part : Part) : List Text := (patternsOf part.patterns).filter (!isWildcard ·)

/-- The directives of a part that apply to a name, as `resolveIdentityAgent` counts them. -/
def Part.reaching (canon : UInt16 → UInt16) (name : Text) (part : Part) : List Directive :=
  if hostLineApplies canon part.patterns name then before "match" part.body else []

/-- The first value given for a keyword, as `read` reads it. -/
def firstOf {α : Type} (read : Text → Option α) (key : String) (ds : List Directive) : Option α :=
  ds.findSome? fun d => if d.1 = key.toList then read d.2 else none

/-- The last value of a keyword that can be read. -/
def lastOf {α : Type} (read : Text → Option α) (key : String) (ds : List Directive) : Option α :=
  firstOf read key ds.reverse

/-- A block with the first values given. -/
def HostBlock.given (expand : Text → Text) (name : Text) (ds : List Directive) : HostBlock where
  name := name
  hostname := firstOf some "hostname" ds
  port := (firstOf readPort "port" ds).getD 22
  user := firstOf some "user" ds
  identityFile := firstOf (some ∘ expand) "identityfile" ds
  proxyJump := firstOf some "proxyjump" ds

/-- A pattern is no negated one, and the last value of its part for a keyword is the first that
reaches it. -/
def Part.Plain (expand : Text → Text) (canon : UInt16 → UInt16) (part : Part) (name : Text) : Prop :=
  let reaching := part.reaching canon name
  name.head? ≠ some '!' ∧
    lastOf some "hostname" part.body = firstOf some "hostname" reaching ∧
    (lastOf readPort "port" part.body).getD 22 = (firstOf readPort "port" reaching).getD 22 ∧
    lastOf some "user" part.body = firstOf some "user" reaching ∧
    lastOf (some ∘ expand) "identityfile" part.body =
      firstOf (some ∘ expand) "identityfile" reaching ∧
    lastOf some "proxyjump" part.body = firstOf some "proxyjump" reaching

theorem firstOf_cons {α : Type} (read : Text → Option α) (k : String) (d : Directive)
    (ds : List Directive) : firstOf read k (d :: ds) =
      (if String.ofList d.1 = k then read d.2 else none).or (firstOf read k ds) := by
  have hkey : String.ofList d.1 = k ↔ d.1 = k.toList :=
    ⟨fun h => h ▸ String.toList_ofList.symm, fun h => h ▸ String.ofList_toList⟩
  rw [firstOf, findSome?_cons, if_congr hkey rfl rfl]
  cases if d.1 = k.toList then read d.2 else none <;> rfl

theorem before_self (key : String) (value : Text) (ds : List Directive) :
    before key ((key.toList, value) :: ds) = [] := by
  rw [before, takeWhile_cons_of_neg (by simp)]

theorem before_cons {key : Text} {k : String} (h : key ≠ k.toList) (value : Text)
    (ds : List Directive) : before k ((key, value) :: ds) = (key, value) :: before k ds := by
  rw [before, takeWhile_cons_of_pos (by simpa using h), before]

theorem agentFrom_eq (canon : UInt16 → UInt16) (name : Text) (applies : Bool) (ds : List Directive) :
    agentFrom canon name applies ds = firstOf (some ∘ unquote) "identityagent"
      ((if applies then before "match" (before "host" ds) else []) ++
        (parts ds).flatMap (·.reaching canon name)) := by
  induction ds generalizing applies with
  | nil => cases applies <;> rfl
  | cons d ds ih =>
    obtain ⟨key, value⟩ := d
    rw [agentFrom, parts]
    by_cases hhost : key = "host".toList
    · rw [if_pos hhost, if_pos hhost, ih, hhost, before_self]
      simp [before, Part.reaching]
    · rw [if_neg hhost, if_neg hhost, before_cons hhost]
      by_cases hmatch : key = "match".toList
      · rw [if_pos hmatch, ih, hmatch, before_self, ite_self]
        rfl
      · rw [if_neg hmatch, before_cons hmatch]
        by_cases hagent : applies ∧ key = "identityagent".toList
        · have hkey : String.ofList key = "identityagent" := hagent.2 ▸ String.ofList_toList
          rw [if_pos hagent, if_pos hagent.1, cons_append, firstOf_cons, if_pos hkey]
          rfl
        · rw [if_neg hagent, ih]
          cases applies with
          | false => rfl
          | true =>
            have hkey : String.ofList key ≠ "identityagent" := fun h =>
              hagent ⟨rfl, h ▸ String.toList_ofList.symm⟩
            rw [if_pos rfl, if_pos rfl, cons_append, firstOf_cons, if_neg hkey, Option.none_or]

/-! ### What the parser makes of a part -/

/-- A block after some directives. -/
def directivesOn (expand : Text → Text) (block : HostBlock) (ds : List Directive) : HostBlock :=
  ds.foldl (fun b d => b.directive expand d.1 d.2) block

theorem given_cons (expand : Text → Text) (name : Text) (d : Directive) (ds : List Directive) :
    HostBlock.given expand name (d :: ds) =
      (HostBlock.given expand name ds).directive expand d.1 d.2 := by
  unfold HostBlock.directive
  split
  · next h => simp [HostBlock.given, firstOf_cons, h]
  · next h => cases hport : readPort d.2 <;> simp [HostBlock.given, firstOf_cons, h, hport]
  · next h => simp [HostBlock.given, firstOf_cons, h]
  · next h => simp [HostBlock.given, firstOf_cons, h]
  · next h => simp [HostBlock.given, firstOf_cons, h]
  · next h₁ h₂ h₃ h₄ h₅ =>
    simp only [HostBlock.given, firstOf_cons, if_neg h₁, if_neg h₂, if_neg h₃, if_neg h₄, if_neg h₅,
      Option.none_or]

theorem directivesOn_makeBlock (expand : Text → Text) (name : Text) (ds : List Directive) :
    directivesOn expand (makeBlock name) ds = HostBlock.given expand name ds.reverse := by
  induction ds using reverseRecOn with
  | nil => rfl
  | append_singleton ds d ih =>
    rw [reverse_concat, given_cons, ← ih]
    exact foldl_append ..

theorem parse_foldl (expand : Text → Text) (lines : List Text) (s : Scan) :
    (lines.foldl (Scan.line expand) s).entries ++
        (lines.foldl (Scan.line expand) s).currentBlocks =
      s.entries ++ (s.currentBlocks.map fun b =>
        directivesOn expand b (before "host" (lines.filterMap splitDirective))) ++
      (parts (lines.filterMap splitDirective)).flatMap fun part =>
        part.names.map fun name => directivesOn expand (makeBlock name) part.body := by
  induction lines generalizing s with
  | nil => simp [before, parts, directivesOn]
  | cons line lines ih =>
    rw [foldl_cons, ih, Scan.line]
    cases hline : splitDirective line with
    | none => rw [filterMap_cons_none hline]
    | some d =>
      obtain ⟨key, value⟩ := d
      rw [filterMap_cons_some hline, parts]
      dsimp only
      by_cases hhost : key = "host".toList
      · rw [if_neg (by rw [hhost]; decide), if_pos hhost, if_pos hhost, hhost, before_self]
        simp [Part.names, directivesOn]
      · rw [if_neg hhost, if_neg hhost, before_cons hhost]
        split_ifs with hinclude
        · rw [hinclude]
          rfl
        · simp [directivesOn, Function.comp_def]

theorem flatMap_eq_flatMap_iff {α β : Type} {f g : α → List β} {l : List α}
    (h : ∀ x ∈ l, (g x).length ≤ (f x).length) :
    l.flatMap f = l.flatMap g ↔ ∀ x ∈ l, f x = g x := by
  refine ⟨fun heq => ?_, flatMap_congr⟩
  induction l with
  | nil => exact nofun
  | cons a l ih =>
    obtain ⟨ha, hl⟩ := forall_mem_cons.mp h
    have hle : (l.flatMap g).length ≤ (l.flatMap f).length := by
      rw [length_flatMap, length_flatMap]
      exact sum_le_sum hl
    have hlen := congrArg length heq
    simp only [flatMap_cons, length_append] at heq hlen
    obtain ⟨heq, hrest⟩ := append_inj heq (by omega)
    exact forall_mem_cons.mpr ⟨heq, ih hl hrest⟩

/-- **An entry for every name, with what applies to it**, as `resolveIdentityAgent` counts it, and
the first value that counts: just if no name of any part is a negated pattern, and the last value of
the part for each keyword is the first that applies to the name. -/
theorem parseSshConfig_scoped_iff (expand : Text → Text) (canon : UInt16 → UInt16) (content : Text) :
    (∀ name, resolveIdentityAgent canon content name =
      firstOf (some ∘ unquote) "identityagent" (before "match" (before "host" (directives content)) ++
        (parts (directives content)).flatMap (·.reaching canon name))) ∧
    ((parseSshConfig expand content).1 = (parts (directives content)).flatMap (fun part =>
        (part.names.filter (·.head? ≠ some '!')).map fun name =>
          HostBlock.given expand name (part.reaching canon name)) ↔
      ∀ part ∈ parts (directives content), ∀ name ∈ part.names, part.Plain expand canon name) := by
  refine ⟨fun name => ?_, ?_⟩
  · exact agentFrom_eq canon name true (directives content)
  have hparse := parse_foldl expand (content.splitOn '\n') ⟨[], false, []⟩
  rw [map_nil, nil_append, nil_append] at hparse
  rw [parseSshConfig, hparse, directives, flatMap_eq_flatMap_iff]
  · have hplain : ∀ part name, Part.Plain expand canon part name ↔ name.head? ≠ some '!' ∧
        directivesOn expand (makeBlock name) part.body =
          HostBlock.given expand name (part.reaching canon name) := fun part name => by
      rw [directivesOn_makeBlock, HostBlock.given, HostBlock.given, HostBlock.mk.injEq,
        and_iff_right rfl]
      rfl
    refine forall₂_congr fun part _ => ⟨fun heq name hname => ?_, fun hall => ?_⟩
    · have hpositive : part.names.filter (·.head? ≠ some '!') = part.names :=
        filter_sublist.eq_of_length (by simpa using (congrArg length heq).symm)
      rw [hpositive, map_inj_left] at heq
      refine (hplain part name).mpr ⟨?_, heq name hname⟩
      exact of_decide_eq_true (filter_eq_self.mp hpositive name hname)
    · have hpositive := fun name hname => (hplain part name).mp (hall name hname)
      rw [filter_eq_self.mpr fun name hname => decide_eq_true (hpositive name hname).1]
      exact map_congr_left fun name hname => (hpositive name hname).2
  · intro part _
    rw [length_map, length_map]
    exact length_filter_le ..

/-- What stands behind a `Match` line reaches the host before it. -/
theorem past_match : ∃ block ∈ (parseSshConfig id
      "Host gate\n  HostName a.lan\nMatch user root\n  HostName b.lan".toList).1,
    block.name = "gate".toList ∧ block.hostname = some "b.lan".toList := by
  decide +kernel

end Lasterm.Hub.SshConfig
