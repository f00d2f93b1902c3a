import Lasterm.Lib.OrderedMap
import Lasterm.Agent.Environment

/-!
# The layers of a terminal's environment

`packages/hub/src/session/spawn-environment.ts`: each scope changes the environment a terminal starts
with, and so do its launch profile and the request that starts it.  The hub does not know what the
agent starts from, so it sends what all the layers come to, as a list of removals and a map of
settings, and the agent makes the removals first.

Three kinds of layers are not made as they are meant.  A value with a NUL in it is a change no
platform can make, but the hub lets it replace what an outer layer says of the variable.  A setting
of the name `__proto__` is lost when the map is built.  And the request's settings take the places of
the launch profile's of the same spelling, so that where case is ignored another spelling in the
launch profile may come behind them.

## Main results

* `layers_applied` — what is sent is what the layers make, just if no layers are of these kinds.
* `outer_setting_lost` — one that is.
-/

namespace Lasterm.Hub

open List OrderedMap

open Lasterm.Agent (Platform Environment Change isSettableName)

/-! ### The layers -/

/-- What stands under a name in a layer, which is data: a text, `null`, or anything else. -/
inductive LayerEntry
  | text (value : String)
  | null
  | other

/-- A layer, or what stands in its place: `none` where that is no object. -/
abbrev Layer := Option (OrderedMap String LayerEntry)

/-- The changes of a layer: a text sets the variable, `null` removes it, and what no platform can do
is left out. -/
def changesOf (layer : Layer) : List Change :=
  match layer with
  | none => []
  | some m => m.entries.filterMap fun
    | (name, entry) =>
      if name = "" then none
      else
        match entry with
        | .text value => some ⟨name, some value⟩
        | .null => some ⟨name, none⟩
        | .other => none

/-- The variables a spawn sets, and the ones it removes. -/
structure EnvironmentChanges where
  env : OrderedMap String String
  unset : List String

/-- `env[name] = value`: under the name `__proto__` an object keeps no text. -/
def assign (env : OrderedMap String String) (name value : String) : OrderedMap String String :=
  if name = "__proto__" then env else env.set name value

variable (upper : String → String)

/-- Under which key a change is kept. -/
def keyOf (ignoreCase : Bool) (name : String) : String := if ignoreCase then upper name else name

/-- The last change of each variable, in the order of these last changes. -/
def lastChanges (ignoreCase : Bool) (changes : List Change) : OrderedMap String Change :=
  changes.foldl
    (fun m c => (m.delete (keyOf upper ignoreCase c.name)).set (keyOf upper ignoreCase c.name) c)
    empty

/-- Resolve layers of changes, outermost first, into what the agent applies. -/
def resolveEnvironmentChanges (layers : List Layer) (ignoreCase : Bool) : EnvironmentChanges :=
  ((lastChanges upper ignoreCase (layers.flatMap changesOf)).entries.map Prod.snd).foldl
    (fun changes c =>
      match c.value with
      | none => { changes with unset := changes.unset ++ [c.name] }
      | some value => { changes with env := assign changes.env c.name value })
    { env := empty, unset := [] }

/-- `{ ...a, ...b }`. -/
def spread (a b : OrderedMap String String) : OrderedMap String String :=
  b.entries.foldl (fun m e => m.set e.1 e.2) a

/-- What the launch profile and the request set: the request's alone where no launch profile is
started, else the request's written over the profile's.  A restart carries no request. -/
def resolvedEnv (profile request : Option (OrderedMap String String)) : OrderedMap String String :=
  match profile with
  | none => request.getD empty
  | some env => spread env (request.getD empty)

/-- Settings as a layer. -/
def settings (env : OrderedMap String String) : Layer := some (env.mapValues .text)

/-- The layers the hub resolves for a spawn: the scopes', and the launch profile's and the request's
in one. -/
def spawnLayers (scopes : List Layer) (profile request : Option (OrderedMap String String)) :
    List Layer :=
  scopes ++ [settings (resolvedEnv profile request)]

/-- The layers as they were written: the scopes', the launch profile's, the request's. -/
def writtenLayers (scopes : List Layer) (profile request : Option (OrderedMap String String)) :
    List Layer :=
  scopes ++ [profile.elim none settings, request.elim none settings]

/-! ### The layers, one after the other -/

variable {upper} {p : Platform} (expand : String → String)

/-- A change with the variables in its value expanded. -/
def expanded (c : Change) : Change := { c with value := c.value.map expand }

/-- The changes of the layers, made one after the other. -/
def sequential (base : Environment upper p) (layers : List Layer) : Environment upper p :=
  layers.foldl (fun e layer => (changesOf layer).foldl (fun e c => e.make (expanded expand c)) e) base

/-- A change the agent makes once its value is expanded. -/
def canBeMade (c : Change) : Bool := (expanded expand c).made

/-- A change that is sent: the name of a setting is not one that is lost. -/
def isSent (c : Change) : Bool := c.name ≠ "__proto__" || c.value = none

variable (upper p)

/-- The last change of each variable that can be made, in the order the layers were written, is what
the hub's last change of it comes to, and that one is sent and can be made. -/
def LastWordHeard (scopes : List Layer) (profile request : Option (OrderedMap String String)) :
    Prop :=
  ∀ k c,
    lastFor (fun c => p.key upper c.name) k
      (((writtenLayers scopes profile request).flatMap changesOf).filter (canBeMade expand)) = some c →
    ∃ d,
      lastFor (fun c => p.key upper c.name) k
        ((spawnLayers scopes profile request).flatMap changesOf) = some d ∧
      isSent d = true ∧ canBeMade expand d = true ∧ d.value.map expand = c.value.map expand

/-! ### What is kept of the changes -/

variable {l : List Change} {c : Change}

section kept

variable {upper p} {expand} {ic : Bool}

theorem get_lastChanges (l : List Change) (k : String) :
    (lastChanges upper ic l).get k = lastFor (fun c => keyOf upper ic c.name) k l := by
  unfold lastChanges
  rw [read_foldl get _ some ?_ l empty k, get_empty]
  · cases lastFor (fun c : Change => keyOf upper ic c.name) k l <;> rfl
  · intro m c k'
    rw [get_set, get_delete]
    by_cases hk : k' = keyOf upper ic c.name
    · rw [if_pos hk, if_pos hk.symm]
    · rw [if_neg hk, if_neg hk, if_neg (Ne.symm hk)]

theorem mem_kept : c ∈ (lastChanges upper ic l).entries.map Prod.snd ↔
      lastFor (fun c => keyOf upper ic c.name) (keyOf upper ic c.name) l = some c := by
  rw [← get_lastChanges, get_eq_some_iff, mem_map]
  constructor
  · rintro ⟨⟨k, c⟩, hmem, rfl⟩
    have hk := (get_eq_some_iff _ _ _).mpr hmem
    rw [get_lastChanges] at hk
    exact key_of_lastFor hk ▸ hmem
  · exact fun hmem => ⟨_, hmem, rfl⟩

theorem kept_inj {d : Change} (hc : c ∈ (lastChanges upper ic l).entries.map Prod.snd)
    (hd : d ∈ (lastChanges upper ic l).entries.map Prod.snd)
    (h : keyOf upper ic c.name = keyOf upper ic d.name) : c = d := by
  have hc := mem_kept.mp hc
  have hd := mem_kept.mp hd
  rw [h] at hc
  exact Option.some.inj (hc.symm.trans hd)

end kept

/-- The loop that writes the changes kept into a map and a list. -/
def collect (l : List Change) (changes : EnvironmentChanges) : EnvironmentChanges :=
  l.foldl
    (fun changes c =>
      match c.value with
      | none => { changes with unset := changes.unset ++ [c.name] }
      | some value => { changes with env := assign changes.env c.name value })
    changes

theorem mem_unset_collect (l : List Change) (changes : EnvironmentChanges) (name : String) :
    name ∈ (collect l changes).unset ↔ name ∈ changes.unset ∨ ⟨name, none⟩ ∈ l := by
  induction l generalizing changes with
  | nil => simp [collect]
  | cons c l ih =>
    obtain ⟨n, v⟩ := c
    have hstep := ih
    unfold collect at hstep ⊢
    rw [foldl_cons, hstep]
    cases v <;> simp [or_assoc]

theorem get_env_collect (l : List Change) (changes : EnvironmentChanges) (name : String) :
    (collect l changes).env.get name =
      ((lastFor Change.name name
        (l.filter fun c => c.value.isSome && c.name ≠ "__proto__")).map Change.value).getD
        (changes.env.get name) := by
  refine read_foldl_filter (fun changes name => changes.env.get name) _ Change.value _ ?_ ?_ l changes
    name
  · rintro changes ⟨n, v⟩ k hno
    cases v with
    | none => rfl
    | some v =>
      obtain rfl : n = "__proto__" := by simpa using hno
      simp [assign]
  · rintro changes ⟨n, v⟩ k hok
    simp only [Bool.and_eq_true, decide_eq_true_eq] at hok
    obtain ⟨v, rfl⟩ := Option.isSome_iff_exists.mp hok.1
    simp only [assign, if_neg hok.2, get_set, eq_comm]

/-- The changes that are sent, the removals first; `order` is the order the agent reads the map in. -/
def sentChanges (changes : EnvironmentChanges) (order : List (String × String)) : List Change :=
  (changes.unset.map fun name => ⟨name, none⟩) ++ order.map fun v => ⟨v.1, some v.2⟩

section sent

variable {upper p expand} {ic : Bool}

theorem mem_env_collect (hinj : ∀ c ∈ l, ∀ d ∈ l, c.name = d.name → c = d) (name v : String) :
    (name, v) ∈ (collect l { env := empty, unset := [] }).env.entries ↔
      ⟨name, some v⟩ ∈ l ∧ name ≠ "__proto__" := by
  have hinj' : ∀ ok : Change → Bool, ∀ c ∈ l.filter ok, ∀ d ∈ l.filter ok, c.name = d.name → c = d :=
    fun ok c hc d hd => hinj c (mem_of_mem_filter hc) d (mem_of_mem_filter hd)
  rw [← get_eq_some_iff, get_env_collect, get_empty]
  constructor
  · intro h
    cases hc : lastFor Change.name name
        (l.filter fun c => c.value.isSome && c.name ≠ "__proto__") with
    | none =>
      rw [hc] at h
      cases h
    | some c =>
      rw [hc] at h
      obtain ⟨hmem, hname⟩ := (lastFor_eq_some_iff (hinj' _)).mp hc
      obtain ⟨n, value⟩ := c
      obtain rfl : value = some v := h
      obtain rfl : n = name := hname
      have hok := mem_filter.mp hmem
      exact ⟨hok.1, by simpa using hok.2⟩
  · rintro ⟨hmem, hne⟩
    have hlast : lastFor Change.name name
        (l.filter fun c => c.value.isSome && c.name ≠ "__proto__") = some ⟨name, some v⟩ :=
      (lastFor_eq_some_iff (hinj' _)).mpr ⟨mem_filter.mpr ⟨hmem, by simpa using hne⟩, rfl⟩
    rw [hlast]
    rfl

variable {layers : List Layer} {order : List (String × String)}

theorem mem_sent
    (horder : order.Perm (resolveEnvironmentChanges upper layers ic).env.entries) (c : Change) :
    c ∈ sentChanges (resolveEnvironmentChanges upper layers ic) order ↔
      c ∈ (lastChanges upper ic (layers.flatMap changesOf)).entries.map Prod.snd ∧ isSent c := by
  have hresolve : resolveEnvironmentChanges upper layers ic =
      collect ((lastChanges upper ic (layers.flatMap changesOf)).entries.map Prod.snd)
        { env := empty, unset := [] } := rfl
  have hinj : ∀ c ∈ (lastChanges upper ic (layers.flatMap changesOf)).entries.map Prod.snd,
      ∀ d ∈ (lastChanges upper ic (layers.flatMap changesOf)).entries.map Prod.snd,
        c.name = d.name → c = d :=
    fun c hc d hd h => kept_inj hc hd (congrArg (keyOf upper ic) h)
  obtain ⟨name, value⟩ := c
  rw [sentChanges, mem_append, mem_map, mem_map]
  simp only [horder.mem_iff]
  rw [hresolve]
  constructor
  · rintro (⟨n, hn, ⟨⟩⟩ | ⟨⟨n, v⟩, hv, ⟨⟩⟩)
    · obtain hn | hn := (mem_unset_collect _ _ name).mp hn
      · cases hn
      · exact ⟨hn, by simp [isSent]⟩
    · obtain ⟨hmem, hne⟩ := (mem_env_collect hinj n v).mp hv
      exact ⟨hmem, by simp [isSent, hne]⟩
  · rintro ⟨hmem, hsent⟩
    cases value with
    | none => exact .inl ⟨name, (mem_unset_collect _ _ name).mpr (.inr hmem), rfl⟩
    | some v =>
      have hne : name ≠ "__proto__" := by simpa [isSent] using hsent
      exact .inr ⟨(name, v), (mem_env_collect hinj name v).mpr ⟨hmem, hne⟩, rfl⟩

theorem keyOf_eq (p : Platform) (name : String) :
    keyOf upper (p = .windows) name = p.key upper name := by
  cases p <;> rfl

/-- Of what is sent, the change of a variable that is made is the hub's last change of it, if that
one is sent and can be made. -/
theorem lastFor_sent
    (horder : order.Perm (resolveEnvironmentChanges upper layers (p = .windows)).env.entries)
    (k : String) :
    lastFor (fun c => p.key upper c.name) k
        ((sentChanges (resolveEnvironmentChanges upper layers (p = .windows)) order).filter
          (canBeMade expand)) =
      (lastFor (fun c => p.key upper c.name) k (layers.flatMap changesOf)).filter
        fun c => isSent c && canBeMade expand c := by
  have hmem := mem_sent horder
  have hinj : ∀ c ∈ (sentChanges (resolveEnvironmentChanges upper layers (p = .windows)) order).filter
        (canBeMade expand),
      ∀ d ∈ (sentChanges (resolveEnvironmentChanges upper layers (p = .windows)) order).filter
        (canBeMade expand),
        p.key upper c.name = p.key upper d.name → c = d := by
    intro c hc d hd h
    rw [← keyOf_eq, ← keyOf_eq] at h
    exact kept_inj ((hmem c).mp (mem_of_mem_filter hc)).1
      ((hmem d).mp (mem_of_mem_filter hd)).1 h
  refine Option.ext fun c => ?_
  rw [lastFor_eq_some_iff hinj, mem_filter, hmem, mem_kept, Option.filter_eq_some_iff,
    Bool.and_eq_true]
  simp only [keyOf_eq]
  constructor
  · rintro ⟨⟨⟨hlast, hsent⟩, hmade⟩, rfl⟩
    exact ⟨hlast, hsent, hmade⟩
  · rintro ⟨hlast, hsent, hmade⟩
    obtain rfl := key_of_lastFor hlast
    exact ⟨⟨⟨hlast, hsent⟩, hmade⟩, rfl⟩

/-! ### What the agent makes of it -/

variable (expand)

theorem value_foldl_expanded (l : List Change) (e : Environment upper p) (k : String) :
    (l.foldl (fun e c => e.make (expanded expand c)) e).value k =
      ((lastFor (fun c => p.key upper c.name) k (l.filter (canBeMade expand))).map
        fun c => c.value.map expand).getD (e.value k) :=
  read_foldl_filter Environment.value _ _ (canBeMade expand)
    (fun e c k h => congrArg (Environment.value · k) (e.make_of_not_made (expanded expand c) h))
    (fun e c k h => e.value_make (expanded expand c) k h) l e k

theorem value_sequential (base : Environment upper p) (layers : List Layer) (k : String) :
    (sequential expand base layers).value k =
      ((lastFor (fun c => p.key upper c.name) k
        ((layers.flatMap changesOf).filter (canBeMade expand))).map
        fun c => c.value.map expand).getD (base.value k) := by
  rw [sequential, ← foldl_flatMap, value_foldl_expanded]

theorem value_sent
    (horder : order.Perm (resolveEnvironmentChanges upper layers (p = .windows)).env.entries)
    (base : Environment upper p) (k : String) :
    ((base.applyUnset (resolveEnvironmentChanges upper layers (p = .windows)).unset).apply
        (order.map fun v => (v.1, expand v.2))).value k =
      (((lastFor (fun c => p.key upper c.name) k (layers.flatMap changesOf)).filter
        fun c => isSent c && canBeMade expand c).map fun c => c.value.map expand).getD
        (base.value k) := by
  rw [← lastFor_sent horder, ← value_foldl_expanded, sentChanges, foldl_append, foldl_map,
    foldl_map, Environment.apply_eq, foldl_map, foldl_map]
  rfl

end sent

/-! ### The request over the launch profile -/

theorem get_spread (a b : OrderedMap String String) (name : String) :
    (spread a b).get name = (b.get name).or (a.get name) := by
  have hlast : ∀ e, lastFor Prod.fst name b.entries = some e ↔ e ∈ b.entries ∧ e.1 = name :=
    fun e => lastFor_eq_some_iff fun _ hx _ hy h => inj_on_of_nodup_map b.nodup_keys hx hy h
  rw [spread, read_foldl get _ (fun e => some e.2)]
  · cases hb : b.get name with
    | some v =>
      rw [(hlast (name, v)).mpr ⟨(b.get_eq_some_iff name v).mp hb, rfl⟩]
      rfl
    | none =>
      cases he : lastFor Prod.fst name b.entries with
      | none => rfl
      | some e =>
        obtain ⟨hmem, rfl⟩ := (hlast e).mp he
        exact nomatch hb.symm.trans ((b.get_eq_some_iff e.1 e.2).mpr hmem)
  · intro m e k
    rw [get_set]
    simp only [eq_comm]

theorem mem_changesOf_settings {env : OrderedMap String String} : c ∈ changesOf (settings env) ↔
      c.name ≠ "" ∧ ∃ v, c.value = some v ∧ env.get c.name = some v := by
  obtain ⟨name, value⟩ := c
  simp only [changesOf, settings, mapValues, mem_filterMap, mem_map, get_eq_some_iff]
  constructor
  · rintro ⟨-, ⟨⟨n, v⟩, hmem, rfl⟩, h⟩
    split at h
    · cases h
    · next hne =>
      obtain ⟨rfl, rfl⟩ := Change.mk.inj (Option.some.inj h)
      exact ⟨hne, v, rfl, hmem⟩
  · rintro ⟨hne, v, rfl, hmem⟩
    exact ⟨(name, .text v), ⟨(name, v), hmem, rfl⟩, by simp only [if_neg hne]⟩

theorem get_resolvedEnv {profile request : Option (OrderedMap String String)} {name v : String}
    (h : (resolvedEnv profile request).get name = some v) :
    (∃ env, profile = some env ∧ env.get name = some v) ∨
      ∃ env, request = some env ∧ env.get name = some v := by
  have hrequest : ∀ {v}, (request.getD empty).get name = some v →
      ∃ env, request = some env ∧ env.get name = some v := by
    intro v hv
    cases request with
    | none => cases hv
    | some env => exact ⟨env, rfl, hv⟩
  cases profile with
  | none => exact .inr (hrequest h)
  | some env =>
    rw [resolvedEnv, get_spread, Option.or_eq_some_iff] at h
    obtain h | ⟨-, h⟩ := h
    · exact .inr (hrequest h)
    · exact .inl ⟨env, rfl, h⟩

theorem mem_written_of_mem_spawn {scopes : List Layer}
    {profile request : Option (OrderedMap String String)}
    (h : c ∈ (spawnLayers scopes profile request).flatMap changesOf) :
    c ∈ (writtenLayers scopes profile request).flatMap changesOf := by
  simp only [spawnLayers, writtenLayers, flatMap_append, mem_append, flatMap_cons,
    flatMap_nil, append_nil] at h ⊢
  obtain h | h := h
  · exact .inl h
  · obtain ⟨hne, v, hv, hres⟩ := mem_changesOf_settings.mp h
    obtain ⟨env, rfl, hget⟩ | ⟨env, rfl, hget⟩ := get_resolvedEnv hres
    · exact .inr (.inl (mem_changesOf_settings.mpr ⟨hne, v, hv, hget⟩))
    · exact .inr (.inr (mem_changesOf_settings.mpr ⟨hne, v, hv, hget⟩))

/-! ### The layers at once and one after the other -/

/-- A base that tells a change of a variable from none: what the variable stands for there is not
what the change makes it. -/
theorem exists_base (name : String) (value : Option String) :
    ∃ base : Environment upper p, base.value (p.key upper name) ≠ value := by
  cases value with
  | none => exact ⟨Environment.empty.set name "", by simp⟩
  | some v => exact ⟨Environment.empty, nofun⟩

/-- Sending what the layers come to and applying it is the same, from every environment and with
whatever elevation needs, as making their changes one after the other, exactly if the hub's last word
on each variable is heard. -/
theorem layers_applied (scopes : List Layer) (profile request : Option (OrderedMap String String)) :
    (∀ (base : Environment upper p) (order elevationEnv : List (String × String)),
      order.Perm
          (resolveEnvironmentChanges upper (spawnLayers scopes profile request)
            (p = .windows)).env.entries →
        (Environment.spawnEnvironment expand base
            (resolveEnvironmentChanges upper (spawnLayers scopes profile request)
              (p = .windows)).unset
            order elevationEnv).Same
          ((sequential expand base (writtenLayers scopes profile request)).apply elevationEnv)) ↔
      LastWordHeard upper p expand scopes profile request := by
  constructor
  · intro hsame k c hc
    obtain rfl := key_of_lastFor hc
    obtain ⟨base, hbase⟩ : ∃ base : Environment upper p,
        base.value (p.key upper c.name) ≠ c.value.map expand := exists_base upper p c.name _
    have hk : ((base.applyUnset _).apply _).value (p.key upper c.name) =
        (sequential expand base _).value (p.key upper c.name) :=
      (hsame base _ [] (.refl _)).1 (p.key upper c.name)
    rw [value_sent expand (.refl _), value_sequential, hc] at hk
    cases hd : (lastFor (fun c => p.key upper c.name) (p.key upper c.name)
        ((spawnLayers scopes profile request).flatMap changesOf)).filter
        fun c => isSent c && canBeMade expand c with
    | none =>
      rw [hd] at hk
      exact absurd hk hbase
    | some d =>
      rw [hd] at hk
      obtain ⟨hlast, hok⟩ := Option.filter_eq_some_iff.mp hd
      obtain ⟨hsent, hmade⟩ := Bool.and_eq_true_iff.mp hok
      exact ⟨d, hlast, hsent, hmade, hk⟩
  · intro hheard base order elevationEnv horder
    refine Environment.Same.apply (Environment.same_iff.mpr fun k => ?_) elevationEnv
    rw [value_sent expand horder, value_sequential]
    cases hc : lastFor (fun c => p.key upper c.name) k
        (((writtenLayers scopes profile request).flatMap changesOf).filter (canBeMade expand)) with
    | some c =>
      obtain ⟨d, hlast, hsent, hmade, hval⟩ := hheard k c hc
      rw [hlast, Option.filter_some, if_pos (Bool.and_eq_true_iff.mpr ⟨hsent, hmade⟩)]
      exact hval
    | none =>
      -- no change of the variable can be made, so the hub's last one cannot either
      cases hd : (lastFor (fun c => p.key upper c.name) k
          ((spawnLayers scopes profile request).flatMap changesOf)).filter
          fun c => isSent c && canBeMade expand c with
      | none => rfl
      | some d =>
        obtain ⟨hlast, hok⟩ := Option.filter_eq_some_iff.mp hd
        have hmade := (Bool.and_eq_true_iff.mp hok).2
        have hmem := mem_written_of_mem_spawn (mem_of_lastFor hlast)
        obtain rfl := key_of_lastFor hlast
        exact absurd hc (lastFor_ne_none (mem_filter.mpr ⟨hmem, hmade⟩) rfl)

/-- A layer of texts. -/
def textLayer (name value : String) : Layer := some (empty.set name (.text value))

/-- The global scope sets a variable, and the host sets it to a text no platform can hold: what the
global scope set is lost. -/
theorem outer_setting_lost :
    ¬∀ (base : Environment String.toUpper .unix) (order elevationEnv : List (String × String)),
      order.Perm
          (resolveEnvironmentChanges String.toUpper
            (spawnLayers [textLayer "EDITOR" "hx", textLayer "EDITOR" "vi\x00"] none none)
            false).env.entries →
        (Environment.spawnEnvironment id base
            (resolveEnvironmentChanges String.toUpper
              (spawnLayers [textLayer "EDITOR" "hx", textLayer "EDITOR" "vi\x00"] none none)
              false).unset
            order elevationEnv).Same
          ((sequential id base
            (writtenLayers [textLayer "EDITOR" "hx", textLayer "EDITOR" "vi\x00"] none none)).apply
            elevationEnv) := by
  intro h
  have hk := (h Environment.empty _ [] (.refl _)).1 "EDITOR"
  revert hk
  decide +kernel

end Lasterm.Hub
