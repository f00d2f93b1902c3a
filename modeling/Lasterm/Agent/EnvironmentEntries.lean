import Lasterm.Agent.Environment
import Lasterm.Lib.SortedMap

/-!
# The entries of a terminal's environment

`crates/lasterm-agent/src/environment.rs` keeps an environment as a `BTreeMap` from the key of a
name to the name as it is spelled and its value.  It starts from what the agent inherited, all of it
or only what programs need; takes out what a terminal keeps to itself; says what the terminal is;
then come the removals and the values of a SPAWN.

## Main definitions

* `Entries`, `spawnEnvironment` — the map, and a terminal's.
* `overlaid` — settings in a row keep the name that stood there first and the value given last.

## Main results

* `view_applyUnset_apply` — what is unset and set of the list is of the map.
* `spawn_environment` — every entry of a terminal's environment, from what it came.
-/

namespace Lasterm.Agent

open List

/-- What a terminal's environment starts from. -/
inductive EnvMode
  | inherit
  /-- Only the variables programs need to run, from the agent's environment. -/
  | minimal
  deriving DecidableEq

/-- `MINIMAL_UNIX`. -/
def minimalUnix : List String :=
  ["HOME", "USER", "LOGNAME", "SHELL", "PATH", "LANG", "LANGUAGE", "LC_*", "TZ", "TMPDIR",
    "XDG_RUNTIME_DIR"]

/-- `MINIMAL_WINDOWS`. -/
def minimalWindows : List String :=
  ["SystemRoot", "SystemDrive", "windir", "ComSpec", "PATHEXT", "Path", "USERPROFILE", "USERNAME",
    "USERDOMAIN", "HOMEDRIVE", "HOMEPATH", "APPDATA", "LOCALAPPDATA", "TEMP", "TMP", "ProgramData",
    "ALLUSERSPROFILE", "PUBLIC", "ProgramFiles*", "ProgramW6432", "CommonProgramFiles*",
    "CommonProgramW6432", "PROCESSOR_*", "NUMBER_OF_PROCESSORS", "OS", "COMPUTERNAME",
    "PSModulePath"]

/-- `VETOED_INHERITED`. -/
def vetoedInherited : List String := ["NO_COLOR"]

/-- A pattern that ends in `*` matches every key that starts with what precedes it. -/
def matchesPattern (pattern key : String) : Bool :=
  if pattern.toList.getLast? = some '*' then pattern.toList.dropLast.isPrefixOf key.toList
  else key == pattern

section base

variable (upper : String → String) (version : String) (p : Platform)

/-- Whether `minimal` keeps this variable on this platform. -/
def keptByMinimal (name : String) : Bool :=
  match p with
  | .unix => minimalUnix.any fun pattern => matchesPattern pattern name
  | .windows => minimalWindows.any fun pattern => matchesPattern (upper pattern) (upper name)

/-- What a terminal tells the programs in it about itself. -/
def identity : List (String × String) :=
  (if p = .unix then [("TERM", "xterm-256color")] else []) ++
    [("COLORTERM", "truecolor"), ("TERM_PROGRAM", "lasterm"), ("TERM_PROGRAM_VERSION", version)]

/-- A value a request may set: its name one that can be set, and no NUL in it. -/
def isSettable (v : String × String) : Bool := isSettableName v.1 ∧ Char.ofNat 0 ∉ v.2.toList

/-- An environment as a platform reads it: one entry per name, in its sense of "the same name". -/
structure Entries where
  entries : SortedMap String (String × String)
  named : ∀ k e, entries.get k = some e → p.key upper e.1 = k

end base

namespace Entries

variable {upper : String → String} {p : Platform}

/-- What stands under a key. -/
def get (e : Entries upper p) (k : String) : Option (String × String) := e.entries.get k

/-- No variable is set. -/
def new : Entries upper p := ⟨.empty, nofun⟩

/-- Set a variable.  One already there keeps the casing of its name. -/
def set (e : Entries upper p) (name value : String) : Entries upper p where
  entries :=
    match e.entries.get (p.key upper name) with
    | some entry => e.entries.insert (p.key upper name) (entry.1, value)
    | none => e.entries.insert (p.key upper name) (name, value)
  named k x h := by
    cases hold : e.entries.get (p.key upper name) with
    | some entry =>
      simp only [hold, SortedMap.get_insert] at h
      split at h
      · next hk =>
        obtain ⟨rfl⟩ := h
        exact (e.named _ entry hold).trans hk.symm
      · exact e.named k x h
    | none =>
      simp only [hold, SortedMap.get_insert] at h
      split at h
      · next hk =>
        obtain ⟨rfl⟩ := h
        exact hk.symm
      · exact e.named k x h

/-- The variable goes from the map. -/
def remove (e : Entries upper p) (name : String) : Entries upper p where
  entries := e.entries.erase (p.key upper name)
  named k x h := by
    rw [SortedMap.get_erase] at h
    exact e.named k x (Option.ite_none_left_eq_some.mp h).2

/-- Remove the variables a request names, skipping names no platform has. -/
def applyUnset (e : Entries upper p) (names : List String) : Entries upper p :=
  names.foldl (fun e name => if isSettableName name then e.remove name else e) e

/-- Set the variables a request carries, skipping the ones no platform can hold. -/
def apply (e : Entries upper p) (vars : List (String × String)) : Entries upper p :=
  vars.foldl (fun e v => if isSettable v then e.set v.1 v.2 else e) e

/-- The entries, by name, in a stable order. -/
def intoPairs (e : Entries upper p) : List (String × String) := e.entries.values

end Entries

section base

variable (upper : String → String) (version : String) (p : Platform)

/-- What a terminal starts with before the profile changes anything. -/
def base (inherited : List (String × String)) (mode : EnvMode) : Entries upper p :=
  let e := inherited.foldl
    (fun e v => if mode = .minimal ∧ !keptByMinimal upper p v.1 then e else e.set v.1 v.2)
    Entries.new
  let e := vetoedInherited.foldl Entries.remove e
  (identity version p).foldl (fun e v => e.set v.1 v.2) e

/-- `spawn_environment`: the base for the mode, the removals, the request's values, then
elevation's. -/
def spawnEnvironment (inherited : List (String × String)) (mode : EnvMode) (unset : List String)
    (env : Option (List (String × String))) (elevationEnv : List (String × String)) :
    List (String × String) :=
  let e := (base upper version p inherited mode).applyUnset unset
  let e := env.elim e e.apply
  (e.apply elevationEnv).intoPairs

end base

/-! ### What stands under a key -/

/-- What settings of one key leave: the name given first, and the value given last. -/
def overlaid (l : List (String × String)) : Option (String × String) :=
  l.head?.bind fun first => l.getLast?.map fun last => (first.1, last.2)

theorem overlaid_cons (a : String × String) (l : List (String × String)) :
    overlaid (a :: l) = some (a.1, ((a :: l).getLast (cons_ne_nil a l)).2) := by
  rw [overlaid, head?_cons, getLast?_eq_some_getLast (cons_ne_nil a l)]
  rfl

@[simp] theorem overlaid_toList (o : Option (String × String)) : overlaid o.toList = o := by
  cases o <;> rfl

@[simp] theorem overlaid_append (l m : List (String × String)) :
    overlaid ((overlaid l).toList ++ m) = overlaid (l ++ m) := by
  cases l with
  | nil => rfl
  | cons a l =>
    cases m with
    | nil => rw [append_nil, append_nil, overlaid_toList]
    | cons b m =>
      rw [overlaid_cons, Option.toList_some, singleton_append, cons_append, overlaid_cons,
        overlaid_cons]
      simp

theorem mem_of_overlaid {l : List (String × String)} {v : String × String}
    (h : overlaid l = some v) :
    (∃ a ∈ l, a.1 = v.1) ∧ ∃ a ∈ l, a.2 = v.2 := by
  cases l with
  | nil => exact absurd h nofun
  | cons a l =>
    rw [overlaid_cons] at h
    cases h
    exact ⟨⟨a, mem_cons_self, rfl⟩, ⟨_, getLast_mem _, rfl⟩⟩

theorem overlaid_snoc (l : List (String × String)) (a : String × String) :
    ∃ name, overlaid (l ++ [a]) = some (name, a.2) := by
  cases l with
  | nil => exact ⟨a.1, rfl⟩
  | cons b l =>
    refine ⟨b.1, ?_⟩
    rw [cons_append, overlaid_cons]
    simp

section key

variable (upper : String → String) (p : Platform)

/-- The settings of one key. -/
def settingsOf (k : String) (l : List (String × String)) : List (String × String) :=
  l.filter fun v => p.key upper v.1 = k

/-- One of the names is known by the key. -/
def Names (k : String) (names : List String) : Prop := ∃ name ∈ names, p.key upper name = k

instance (k : String) (names : List String) : Decidable (Names upper p k names) :=
  inferInstanceAs (Decidable (∃ name ∈ names, p.key upper name = k))

end key

namespace Entries

variable {upper : String → String} {p : Platform}

@[simp] theorem get_new (k : String) : (new : Entries upper p).get k = none := rfl

theorem get_set (e : Entries upper p) (name value k : String) :
    (e.set name value).get k =
      if p.key upper name = k then overlaid ((e.get k).toList ++ [(name, value)]) else e.get k := by
  have hset : (e.set name value).entries =
      match e.entries.get (p.key upper name) with
      | some entry => e.entries.insert (p.key upper name) (entry.1, value)
      | none => e.entries.insert (p.key upper name) (name, value) := rfl
  unfold get
  rw [hset]
  by_cases hk : p.key upper name = k
  · subst hk
    cases e.entries.get (p.key upper name) <;> simp [overlaid]
  · cases e.entries.get (p.key upper name) <;> simp [hk, Ne.symm hk]

theorem get_remove (e : Entries upper p) (name k : String) :
    (e.remove name).get k = if p.key upper name = k then none else e.get k := by
  unfold remove get
  rw [SortedMap.get_erase]
  simp only [eq_comm]

theorem get_setAll (l : List (String × String)) (e : Entries upper p) (k : String) :
    (l.foldl (fun e v => e.set v.1 v.2) e).get k =
      overlaid ((e.get k).toList ++ settingsOf upper p k l) := by
  induction l generalizing e with
  | nil => simp [settingsOf]
  | cons a l ih =>
    rw [foldl_cons, ih, get_set]
    by_cases hk : p.key upper a.1 = k
    · rw [if_pos hk, overlaid_append, settingsOf, settingsOf,
        filter_cons_of_pos (by simpa using hk), append_assoc, singleton_append]
    · rw [if_neg hk, settingsOf, settingsOf, filter_cons_of_neg (by simpa using hk)]

theorem get_removeAll (names : List String) (e : Entries upper p) (k : String) :
    (names.foldl remove e).get k = if Names upper p k names then none else e.get k := by
  induction names generalizing e with
  | nil => simp [Names]
  | cons name names ih =>
    rw [foldl_cons, ih, get_remove]
    by_cases hk : p.key upper name = k <;> simp [Names, hk]

section

variable (e : Entries upper p)
include e

theorem get_applyUnset (names : List String) (k : String) : (e.applyUnset names).get k =
      if Names upper p k (names.filter isSettableName) then none else e.get k := by
  rw [← get_removeAll, foldl_filter]
  rfl

theorem get_apply (vars : List (String × String)) (k : String) : (e.apply vars).get k =
      overlaid ((e.get k).toList ++ settingsOf upper p k (vars.filter isSettable)) := by
  rw [← get_setAll, foldl_filter]
  rfl

theorem apply_append (vars vars' : List (String × String)) :
    e.apply (vars ++ vars') = (e.apply vars).apply vars' :=
  foldl_append

theorem mem_intoPairs (v : String × String) :
    v ∈ e.intoPairs ↔ e.get (p.key upper v.1) = some v := by
  rw [intoPairs, SortedMap.mem_values]
  constructor
  · rintro ⟨k, hk⟩
    exact (e.named k v hk) ▸ hk
  · exact fun h => ⟨_, h⟩

theorem nodup_intoPairs : (e.intoPairs.map fun v => p.key upper v.1).Nodup := by
  have hkeys : e.entries.entries.map (fun x => p.key upper x.2.1) =
      e.entries.entries.map Prod.fst := by
    refine map_congr_left fun x hx => ?_
    exact e.named x.1 x.2 ((e.entries.get_eq_some_iff x.1 x.2).mpr hx)
  rw [intoPairs, SortedMap.values, map_map]
  exact hkeys ▸ e.entries.nodup_keys

/-! ### The map it is the list of -/

/-- The environment as a map from keys. -/
def view (e : Entries upper p) : Environment upper p := ⟨e.get, e.named⟩

theorem view_set (name value : String) : (e.set name value).view = e.view.set name value := by
  refine Environment.ext (funext fun k => ?_)
  change (e.set name value).get k = _
  rw [get_set]
  unfold Environment.set view
  by_cases hk : p.key upper name = k
  · rw [if_pos hk]
    simp only [if_pos hk.symm]
    cases e.get k <;> simp [overlaid]
  · rw [if_neg hk]
    simp only [if_neg (Ne.symm hk)]

theorem view_remove (name : String) : (e.remove name).view = e.view.remove name := by
  refine Environment.ext (funext fun k => ?_)
  change (e.remove name).get k = _
  rw [get_remove]
  simp only [Environment.remove, view, eq_comm]

theorem view_applyUnset (names : List String) :
    (e.applyUnset names).view = e.view.applyUnset names := by
  unfold applyUnset Environment.applyUnset
  induction names generalizing e with
  | nil => rfl
  | cons name names ih =>
    rw [foldl_cons, foldl_cons, ih]
    split
    · rw [view_remove]
    · rfl

theorem view_apply (vars : List (String × String)) : (e.apply vars).view = e.view.apply vars := by
  unfold apply Environment.apply
  induction vars generalizing e with
  | nil => rfl
  | cons v vars ih =>
    rw [foldl_cons, foldl_cons, ih]
    simp only [isSettable, decide_eq_true_eq]
    split
    · rw [view_set]
    · rfl

/-- **What is unset and set of the list is of the map.** -/
theorem view_applyUnset_apply (unset : List String) (vars : List (String × String)) :
    ((e.applyUnset unset).apply vars).view = (e.view.applyUnset unset).apply vars := by
  rw [view_apply, view_applyUnset]

end

end Entries

/-! ### The environment a terminal starts with -/

section spawn

variable (upper : String → String) (version : String) (p : Platform)
variable (inherited : List (String × String)) (mode : EnvMode) (unset : List String)
variable (env : Option (List (String × String))) (elevationEnv : List (String × String))

/-- The inherited variables the mode keeps. -/
def keptInherited : List (String × String) :=
  inherited.filter fun v => mode = .inherit || keptByMinimal upper p v.1

/-- The values a SPAWN and elevation carry that a platform can hold, in the order they are set. -/
def requested : List (String × String) := (env.getD [] ++ elevationEnv).filter isSettable

/-- What the base has under a key: the inherited settings of it that are kept, unless a terminal
keeps the variable to itself, then the identity's. -/
def baseAt (k : String) : Option (String × String) :=
  overlaid ((if Names upper p k vetoedInherited then []
    else settingsOf upper p k (keptInherited upper p inherited mode)) ++
      settingsOf upper p k (identity version p))

/-- What a terminal has under a key: what the base has, unless a removal takes it out, then what is
asked for. -/
def spawnedAt (k : String) : Option (String × String) :=
  overlaid ((if Names upper p k (unset.filter isSettableName) then none
    else baseAt upper version p inherited mode k).toList ++
      settingsOf upper p k (requested env elevationEnv))

variable {upper version p inherited mode unset env elevationEnv}

theorem get_base (k : String) :
    (base upper version p inherited mode).get k = baseAt upper version p inherited mode k := by
  have hkept : inherited.foldl
      (fun e v => if mode = .minimal ∧ !keptByMinimal upper p v.1 then e else e.set v.1 v.2)
        (Entries.new : Entries upper p) =
      (keptInherited upper p inherited mode).foldl (fun e v => e.set v.1 v.2) Entries.new := by
    rw [keptInherited, foldl_filter]
    congr 1
    funext e v
    cases mode <;> cases keptByMinimal upper p v.1 <;> rfl
  unfold base baseAt
  rw [Entries.get_setAll, Entries.get_removeAll, hkept, Entries.get_setAll, Entries.get_new]
  by_cases hv : Names upper p k vetoedInherited <;> simp [hv]

theorem get_spawned (k : String) :
    (((base upper version p inherited mode).applyUnset unset).apply
      (env.getD [] ++ elevationEnv)).get k =
        spawnedAt upper version p inherited mode unset env elevationEnv k := by
  rw [Entries.get_apply, Entries.get_applyUnset, get_base]
  rfl

theorem spawnEnvironment_eq :
    spawnEnvironment upper version p inherited mode unset env elevationEnv =
      (((base upper version p inherited mode).applyUnset unset).apply
        (env.getD [] ++ elevationEnv)).intoPairs := by
  rw [Entries.apply_append]
  cases env <;> rfl

theorem mem_spawnEnvironment (v : String × String) :
    v ∈ spawnEnvironment upper version p inherited mode unset env elevationEnv ↔
      spawnedAt upper version p inherited mode unset env elevationEnv (p.key upper v.1) =
        some v := by
  rw [spawnEnvironment_eq, Entries.mem_intoPairs, get_spawned]

theorem settable_of_mem_identity {v : String × String} (h : v ∈ identity version p) :
    isSettableName v.1 = true := by
  have hnames : ∀ name ∈ ["TERM", "COLORTERM", "TERM_PROGRAM", "TERM_PROGRAM_VERSION"],
      isSettableName name = true := by decide +kernel
  refine hnames v.1 ?_
  have hmem := mem_map_of_mem (f := Prod.fst) h
  cases p with
  | unix => exact hmem
  | windows => exact mem_cons_of_mem _ hmem

theorem inherited_of_baseAt {k : String} {v : String × String}
    (h : baseAt upper version p inherited mode k = some v) (hno : isSettableName v.1 = false) :
    ∃ value, (v.1, value) ∈ inherited := by
  obtain ⟨⟨a, ha, hname⟩, -⟩ := mem_of_overlaid h
  rcases mem_append.mp ha with hold | hid
  · split at hold
    · exact absurd hold not_mem_nil
    · have hkept := (mem_filter.mp hold).1
      exact ⟨a.2, hname ▸ (mem_filter.mp hkept).1⟩
  · have hset := settable_of_mem_identity (mem_filter.mp hid).1
    rw [hname, hno] at hset
    exact absurd hset Bool.false_ne_true

variable (upper version p inherited mode unset env elevationEnv)

/-- The entries of a terminal's environment. -/
structure Spawned (pairs : List (String × String)) : Prop where
  /-- There is one entry per name, as the platform tells names apart. -/
  single : (pairs.map fun v => p.key upper v.1).Nodup
  /-- An entry is what the changes of its key leave. -/
  exact : ∀ v, v ∈ pairs ↔
    spawnedAt upper version p inherited mode unset env elevationEnv (p.key upper v.1) = some v
  /-- A variable that is asked for has the value asked for last. -/
  asked : ∀ k l a, settingsOf upper p k (requested env elevationEnv) = l ++ [a] →
    ∃ name, p.key upper name = k ∧ (name, a.2) ∈ pairs
  /-- One that is not asked for is as in the base, unless it is removed. -/
  kept : ∀ v, settingsOf upper p (p.key upper v.1) (requested env elevationEnv) = [] →
    (v ∈ pairs ↔ baseAt upper version p inherited mode (p.key upper v.1) = some v ∧
      ¬Names upper p (p.key upper v.1) (unset.filter isSettableName))
  /-- An inherited variable that is kept and not removed keeps its casing. -/
  casing : ∀ k a l, settingsOf upper p k (keptInherited upper p inherited mode) = a :: l →
    ¬Names upper p k vetoedInherited → ¬Names upper p k (unset.filter isSettableName) →
      ∃ value, (a.1, value) ∈ pairs
  /-- A name that no request may carry is an inherited one. -/
  refused : ∀ v ∈ pairs, isSettableName v.1 = false → ∃ value, (v.1, value) ∈ inherited

/-- **A terminal has one entry per name; under each the value asked for last, or else what the base
has, unless that is removed; an inherited variable keeps its casing; and a name that no environment
can hold is not let in by a request.** -/
theorem spawn_environment :
    Spawned upper version p inherited mode unset env elevationEnv
      (spawnEnvironment upper version p inherited mode unset env elevationEnv) where
  single := by
    rw [spawnEnvironment_eq]
    exact Entries.nodup_intoPairs _
  exact := mem_spawnEnvironment
  asked k l a hasked := by
    obtain ⟨name, hname⟩ := overlaid_snoc
      ((if Names upper p k (unset.filter isSettableName) then none
        else baseAt upper version p inherited mode k).toList ++ l) a
    have hat : spawnedAt upper version p inherited mode unset env elevationEnv k =
        some (name, a.2) := by
      rw [spawnedAt, hasked, ← append_assoc, hname]
    rw [← get_spawned] at hat
    have hkey : p.key upper name = k := Entries.named _ k _ hat
    refine ⟨name, hkey, (mem_spawnEnvironment _).mpr ?_⟩
    rw [hkey, ← get_spawned, hat]
  kept v hnone := by
    rw [mem_spawnEnvironment, spawnedAt, hnone, append_nil, overlaid_toList]
    by_cases hu : Names upper p (p.key upper v.1) (unset.filter isSettableName)
    · simp [hu]
    · simp [hu]
  casing k a l hold hv hu := by
    have hkey : p.key upper a.1 = k := by
      have hmem : a ∈ settingsOf upper p k (keptInherited upper p inherited mode) := by
        rw [hold]
        exact mem_cons_self
      simpa using (mem_filter.mp hmem).2
    have hat : ∃ value, spawnedAt upper version p inherited mode unset env elevationEnv k =
        some (a.1, value) := by
      rw [spawnedAt, baseAt, if_neg hu, if_neg hv, overlaid_append, hold, cons_append,
        cons_append, overlaid_cons]
      exact ⟨_, rfl⟩
    obtain ⟨value, hvalue⟩ := hat
    exact ⟨value, (mem_spawnEnvironment _).mpr (hkey ▸ hvalue)⟩
  refused v hv hno := by
    rw [mem_spawnEnvironment, spawnedAt] at hv
    obtain ⟨⟨a, ha, hname⟩, -⟩ := mem_of_overlaid hv
    rcases mem_append.mp ha with hold | hasked
    · obtain ⟨-, hbase⟩ := Option.ite_none_left_eq_some.mp (Option.mem_toList.mp hold)
      obtain ⟨value, hvalue⟩ := inherited_of_baseAt hbase (hname ▸ hno)
      exact ⟨value, hname ▸ hvalue⟩
    · have hset := (mem_filter.mp (mem_filter.mp hasked).1).2
      simp only [isSettable, decide_eq_true_eq] at hset
      rw [hname, hno] at hset
      exact absurd hset.1 Bool.false_ne_true

/-- With one variable inherited, none removed and one asked for, the entries are neither of the two:
`NO_COLOR` is kept back, a value with a NUL is not set, and the terminal says what it is. -/
theorem not_inherited_and_requested :
    let inherited := [("NO_COLOR", "1")]
    let asked := [("A", "x\x00")]
    let pairs := spawnEnvironment id "0.15.3" .unix inherited .inherit [] (some asked) []
    pairs = [("COLORTERM", "truecolor"), ("TERM", "xterm-256color"), ("TERM_PROGRAM", "lasterm"),
      ("TERM_PROGRAM_VERSION", "0.15.3")] ∧ ¬∀ v, v ∈ pairs ↔ v ∈ inherited ∨ v ∈ asked := by
  intro inherited asked pairs
  have hpairs : pairs = [("COLORTERM", "truecolor"), ("TERM", "xterm-256color"),
      ("TERM_PROGRAM", "lasterm"), ("TERM_PROGRAM_VERSION", "0.15.3")] := by decide +kernel
  refine ⟨hpairs, fun h => ?_⟩
  have hin := (h ("NO_COLOR", "1")).mpr (.inl mem_cons_self)
  rw [hpairs] at hin
  exact absurd hin (by decide +kernel)

end spawn

end Lasterm.Agent
