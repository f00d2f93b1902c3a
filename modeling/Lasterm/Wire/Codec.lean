import Lasterm.Lib.OrderedMap
import Mathlib.Data.List.Chain
import Mathlib.Data.String.Basic
import Mathlib.Tactic.IntervalCases

/-!
# The keys of a message on the wire

`packages/shared/src/codec.ts`: a message is an object whose keys are written in camel case in
the program and in snake case on the wire.  `encodeMessage` converts the keys of every object
in it, `decodeMessage` converts them back, and MessagePack, which is not part of the program,
carries the value between the two.  The value of an `env` key is left alone both ways.

## Main results

* `snakeToCamel_camelToSnake_iff` — which keys come back: `_Proto__` is not one, whose wire form
  names the prototype of an object.
* `decode_encode_iff` — a message comes back exactly if every key that is converted does.
* `themeOverlay_not_kept` — the keys of a `themeOverlay`, which are free too, are converted.
-/

namespace Lasterm.Wire

open List OrderedMap

/-! ### One key -/

/-- `/([A-Z])/g`, each replaced by an underscore and the small letter. -/
def snakeChars (cs : List Char) : List Char :=
  cs.flatMap fun c => if c.isUpper then ['_', c.toLower] else [c]

/-- `/_([a-z])/g`, each replaced by the capital letter. -/
def camelChars : List Char → List Char
  | [] => []
  | [c] => [c]
  | c :: d :: rest =>
    if c = '_' ∧ d.isLower then d.toUpper :: camelChars rest else c :: camelChars (d :: rest)

/-- Convert a single camelCase key to snake_case. -/
def camelToSnake (key : String) : String := .ofList (snakeChars key.toList)

/-- Convert a single snake_case key to camelCase. -/
def snakeToCamel (key : String) : String := .ofList (camelChars key.toList)

/-- No underscore stands before a small letter. -/
def NoHump (cs : List Char) : Prop := cs.IsChain fun c d => ¬(c = '_' ∧ d.isLower = true)

instance : DecidablePred NoHump := fun cs => inferInstanceAs (Decidable (IsChain _ cs))

variable {c : Char}

theorem toUpper_toLower (h : c.isUpper = true) :
    c.toLower.toUpper = c ∧ c.toLower.isLower = true := by
  have hrange : 65 ≤ c.toNat ∧ c.toNat ≤ 90 := of_decide_eq_true h
  have hc : c = Char.ofNat c.toNat := (Char.ofNat_toNat c).symm
  generalize c.toNat = n at hc hrange
  obtain ⟨hlow, hhigh⟩ := hrange
  subst hc
  interval_cases n <;> decide

theorem toUpper_of_isLower (h : c.isLower = true) :
    c.toUpper.isLower = false ∧ c.toUpper ≠ '_' := by
  have hrange : 97 ≤ c.toNat ∧ c.toNat ≤ 122 := (Bool.and_eq_true_iff.mp h).imp
    of_decide_eq_true of_decide_eq_true
  have hc : c = Char.ofNat c.toNat := (Char.ofNat_toNat c).symm
  generalize c.toNat = n at hc hrange
  obtain ⟨hlow, hhigh⟩ := hrange
  subst hc
  interval_cases n <;> decide

variable {l : List Char}

theorem camelChars_cons (h : ∀ d ∈ l.head?, ¬(c = '_' ∧ d.isLower = true)) :
    camelChars (c :: l) = c :: camelChars l := by
  cases l with
  | nil => rfl
  | cons d rest => exact if_neg (h d rfl)

theorem isLower_of_head_camelChars {x : Char} (h : x ∈ (camelChars l).head?)
    (hx : x.isLower = true) : x ∈ l.head? := by
  fun_cases camelChars l with
  | case1 | case2 => exact h
  | case3 c d rest hcond =>
    rw [camelChars, if_pos hcond] at h
    obtain rfl : d.toUpper = x := by simpa using h
    exact nomatch hx.symm.trans (toUpper_of_isLower hcond.2).1
  | case4 c d rest hcond =>
    rw [camelChars, if_neg hcond] at h
    simpa using h

theorem noHump_camelChars (l : List Char) : NoHump (camelChars l) := by
  fun_induction camelChars l with
  | case1 => exact .nil
  | case2 c => exact .singleton c
  | case3 c d rest hcond ih =>
    -- A capital letter is no underscore.
    exact isChain_cons.mpr
      ⟨fun x _ hhump => (toUpper_of_isLower hcond.2).2 hhump.1, ih⟩
  | case4 c d rest hcond ih =>
    refine isChain_cons.mpr ⟨fun x hx hhump => hcond ⟨hhump.1, ?_⟩, ih⟩
    obtain rfl : d = x := by simpa using isLower_of_head_camelChars hx hhump.2
    exact hhump.2

theorem snakeChars_cons_upper (h : c.isUpper = true) (l : List Char) :
    snakeChars (c :: l) = '_' :: c.toLower :: snakeChars l := by
  simp [snakeChars, h]

theorem snakeChars_cons (h : c.isUpper = false) (l : List Char) :
    snakeChars (c :: l) = c :: snakeChars l := by
  simp [snakeChars, h]

theorem isLower_of_head_snakeChars {x : Char} (h : x ∈ (snakeChars l).head?)
    (hx : x.isLower = true) : x ∈ l.head? := by
  cases l with
  | nil => exact h
  | cons c l =>
    cases hc : c.isUpper with
    | true =>
      rw [snakeChars_cons_upper hc] at h
      obtain rfl : '_' = x := by simpa using h
      exact absurd hx (by decide)
    | false =>
      rw [snakeChars_cons hc] at h
      simpa using h

theorem camelChars_snakeChars (h : NoHump l) : camelChars (snakeChars l) = l := by
  induction l with
  | nil => rfl
  | cons c l ih =>
    obtain ⟨hhead, htail⟩ := isChain_cons.mp h
    cases hc : c.isUpper with
    | true =>
      obtain ⟨hback, hlower⟩ := toUpper_toLower hc
      rw [snakeChars_cons_upper hc, camelChars, if_pos ⟨rfl, hlower⟩, hback, ih htail]
    | false =>
      rw [snakeChars_cons hc, camelChars_cons fun d hd hhump => ?_, ih htail]
      exact hhead d (isLower_of_head_snakeChars hd hhump.2) hhump

/-- **A key comes back** exactly if no underscore in it stands before a small letter. -/
theorem snakeToCamel_camelToSnake_iff (key : String) :
    snakeToCamel (camelToSnake key) = key ↔ NoHump key.toList := by
  unfold snakeToCamel camelToSnake
  rw [String.toList_ofList, ← String.toList_inj, String.toList_ofList]
  constructor
  · intro h
    exact h ▸ noHump_camelChars _
  · exact camelChars_snakeChars

/-- A key without capital letters is left, and only such a key has a wire form without
underscores. -/
theorem snakeChars_eq_of_not_mem (h : '_' ∉ snakeChars l) : snakeChars l = l := by
  induction l with
  | nil => rfl
  | cons c l ih =>
    cases hc : c.isUpper with
    | true =>
      rw [snakeChars_cons_upper hc] at h
      exact absurd mem_cons_self h
    | false =>
      rw [snakeChars_cons hc] at h ⊢
      rw [ih fun hmem => h (mem_cons_of_mem c hmem)]

/-! ### Values -/

/-- What a message is made of: scalars of any kind, byte arrays, arrays and objects.  An
object's entries are in the order `Object.entries` gives them. -/
inductive Value (σ : Type)
  | scalar (s : σ)
  | bytes (b : List UInt8)
  | array (vs : List (Value σ))
  | object (es : List (String × Value σ))

variable {σ : Type}

/-- `RAW_VALUE_KEYS`: the keys whose values are maps with free keys. -/
def isRawKey (key : String) : Bool := key == "env"

/-- `out[key] = value`.  Assigning `__proto__` sets no property. -/
def assign (out : OrderedMap String (Value σ)) (key : String) (value : Value σ) :
    OrderedMap String (Value σ) :=
  if key = "__proto__" then out else out.set key value

namespace Value

mutual

/-- The keys of every object in a value converted, those of a raw map apart. -/
def convert (key : String → String) (rawKey : String → Bool) (rawValue : Bool) : Value σ → Value σ
  | .scalar s => .scalar s
  | .bytes b => .bytes b
  | .array vs => .array (convertAll key rawKey vs)
  | .object es =>
    if rawValue then .object es else .object (convertEntries key rawKey es .empty).entries

/-- The elements of an array, each with its keys converted. -/
def convertAll (key : String → String) (rawKey : String → Bool) : List (Value σ) → List (Value σ)
  | [] => []
  | v :: vs => convert key rawKey false v :: convertAll key rawKey vs

/-- The entries of an object, converted into another. -/
def convertEntries (key : String → String) (rawKey : String → Bool) :
    List (String × Value σ) → OrderedMap String (Value σ) → OrderedMap String (Value σ)
  | [], out => out
  | (k, v) :: es, out =>
    convertEntries key rawKey es (assign out (key k) (convert key rawKey (rawKey k) v))

end

end Value

/-- Recursively convert all object keys from camelCase to snake_case. -/
def toSnakeCase (value : Value σ) (rawValue : Bool) : Value σ :=
  value.convert camelToSnake (fun k => isRawKey (camelToSnake k)) rawValue

/-- Recursively convert all object keys from snake_case to camelCase. -/
def toCamelCase (value : Value σ) (rawValue : Bool) : Value σ :=
  value.convert snakeToCamel isRawKey rawValue

/-- `encodeMessage`, with what MessagePack makes of a value. -/
def encodeMessage (msgpackEncode : Value σ → List UInt8) (message : Value σ) : List UInt8 :=
  msgpackEncode (toSnakeCase message false)

/-- `decodeMessage`, with what MessagePack makes of bytes, which may be to throw. -/
def decodeMessage (msgpackDecode : List UInt8 → Option (Value σ)) (data : List UInt8) :
    Option (Value σ) :=
  (msgpackDecode data).map fun raw => toCamelCase raw false

/-! ### The values whose keys come back -/

/-- The key comes back, and its wire form is a name a property can have. -/
def keyKept (key : String) : Bool := decide (NoHump key.toList) && key != "_Proto__"

namespace Value

mutual

/-- Every key that is converted comes back. -/
def kept (rawValue : Bool) : Value σ → Bool
  | .scalar _ => true
  | .bytes _ => true
  | .array vs => keptAll vs
  | .object es => rawValue || keptEntries es

/-- Every element keeps its keys. -/
def keptAll : List (Value σ) → Bool
  | [] => true
  | v :: vs => kept false v && keptAll vs

/-- Every entry keeps its key, and its value keeps its own. -/
def keptEntries : List (String × Value σ) → Bool
  | [] => true
  | (k, v) :: es => keyKept k && kept (isRawKey k) v && keptEntries es

end

mutual

/-- No object has a key twice. -/
def wellFormed : Value σ → Bool
  | .scalar _ => true
  | .bytes _ => true
  | .array vs => wellFormedAll vs
  | .object es => decide (es.map Prod.fst).Nodup && wellFormedEntries es

/-- Every element is well formed. -/
def wellFormedAll : List (Value σ) → Bool
  | [] => true
  | v :: vs => wellFormed v && wellFormedAll vs

/-- Every value of an object is well formed. -/
def wellFormedEntries : List (String × Value σ) → Bool
  | [] => true
  | (_, v) :: es => wellFormed v && wellFormedEntries es

end

theorem ind {P : Value σ → Prop} (scalar : ∀ s, P (.scalar s)) (bytes : ∀ b, P (.bytes b))
    (array : ∀ vs : List (Value σ), (∀ v ∈ vs, P v) → P (.array vs))
    (object : ∀ es : List (String × Value σ), (∀ e ∈ es, P e.2) → P (.object es))
    (v : Value σ) : P v :=
  @Value.rec σ P (fun vs => ∀ v ∈ vs, P v) (fun es => ∀ e ∈ es, P e.2) (fun e => P e.2)
    scalar bytes array object nofun
    (fun _ _ hv hvs => forall_mem_cons.mpr ⟨hv, hvs⟩) nofun
    (fun _ _ he hes => forall_mem_cons.mpr ⟨he, hes⟩) (fun _ _ hv => hv) v

theorem convertAll_eq (key : String → String) (rawKey : String → Bool) (vs : List (Value σ)) :
    convertAll key rawKey vs = vs.map (convert key rawKey false) := by
  induction vs with
  | nil => rfl
  | cons v vs ih => rw [convertAll, ih, map_cons]

/-- The entries of an object, each converted. -/
def converted (key : String → String) (rawKey : String → Bool) (es : List (String × Value σ)) :
    List (String × Value σ) :=
  es.map fun e => (key e.1, convert key rawKey (rawKey e.1) e.2)

/-- The entries assigned one after the other. -/
def assignAll (out : OrderedMap String (Value σ)) (es : List (String × Value σ)) :
    OrderedMap String (Value σ) :=
  es.foldl (fun out e => assign out e.1 e.2) out

theorem convertEntries_eq (key : String → String) (rawKey : String → Bool)
    (es : List (String × Value σ)) (out : OrderedMap String (Value σ)) :
    convertEntries key rawKey es out = assignAll out (converted key rawKey es) := by
  induction es generalizing out with
  | nil => rfl
  | cons e es ih => exact ih _

theorem keptAll_iff (vs : List (Value σ)) :
    keptAll vs = true ↔ ∀ v ∈ vs, kept false v = true := by
  induction vs with
  | nil => simp [keptAll]
  | cons v vs ih => simp [keptAll, ih]

theorem keptEntries_iff (es : List (String × Value σ)) :
    keptEntries es = true ↔ ∀ e ∈ es, keyKept e.1 = true ∧ kept (isRawKey e.1) e.2 = true := by
  induction es with
  | nil => simp [keptEntries]
  | cons e es ih => simp [keptEntries, ih]

theorem wellFormedAll_iff (vs : List (Value σ)) :
    wellFormedAll vs = true ↔ ∀ v ∈ vs, wellFormed v = true := by
  induction vs with
  | nil => simp [wellFormedAll]
  | cons v vs ih => simp [wellFormedAll, ih]

theorem wellFormedEntries_iff (es : List (String × Value σ)) :
    wellFormedEntries es = true ↔ ∀ e ∈ es, wellFormed e.2 = true := by
  induction es with
  | nil => simp [wellFormedEntries]
  | cons e es ih => simp [wellFormedEntries, ih]

/-! ### Assigning entries -/

section Assign

variable {out : OrderedMap String (Value σ)} {es : List (String × Value σ)}

/-- Entries with different keys, none of them `__proto__`, are all there in their order. -/
theorem entries_assignAll (hnodup : (out.keys ++ es.map Prod.fst).Nodup)
    (hproto : ∀ e ∈ es, e.1 ≠ "__proto__") : (assignAll out es).entries = out.entries ++ es := by
  induction es generalizing out with
  | nil => simp [assignAll]
  | cons e es ih =>
    have hnew : e.1 ∉ out.keys := by
      intro hmem
      exact (nodup_append.mp hnodup).2.2 e.1 hmem e.1 (by simp) rfl
    have hset : (assign out e.1 e.2).entries = out.entries ++ [e] := by
      rw [assign, if_neg (hproto e mem_cons_self)]
      exact entries_set_of_not_mem hnew e.2
    have hkeys : (assign out e.1 e.2).keys = out.keys ++ [e.1] := by
      simp [OrderedMap.keys, hset]
    have hrest : (assignAll (assign out e.1 e.2) es).entries =
        (assign out e.1 e.2).entries ++ es := by
      refine ih ?_ fun e' he' => hproto e' (mem_cons_of_mem e he')
      rw [hkeys, append_assoc]
      exact hnodup
    change (assignAll (assign out e.1 e.2) es).entries = _
    rw [hrest, hset, append_assoc]
    rfl

theorem keys_assignAll_subset : ∀ k ∈ (assignAll out es).keys, k ∈ out.keys ∨ k ∈ es.map Prod.fst := by
  induction es generalizing out with
  | nil => exact fun k hk => .inl hk
  | cons e es ih =>
    intro k hk
    rcases ih k hk with hk | hk
    · change k ∈ (assign out e.1 e.2).keys at hk
      unfold assign at hk
      split at hk
      · exact .inl hk
      · rcases mem_keys_set.mp hk with rfl | hk
        · exact .inr mem_cons_self
        · exact .inl hk
    · exact .inr (mem_cons_of_mem _ hk)

theorem length_assign_le (out : OrderedMap String (Value σ)) (k : String) (v : Value σ) :
    (assign out k v).entries.length ≤ out.entries.length + 1 := by
  unfold assign
  split
  · exact Nat.le_succ _
  · exact length_set_le out k v

theorem length_assignAll_le (out : OrderedMap String (Value σ)) (es : List (String × Value σ)) :
    (assignAll out es).entries.length ≤ out.entries.length + es.length := by
  induction es generalizing out with
  | nil => exact Nat.le_refl _
  | cons e es ih =>
    have hstep := length_assign_le out e.1 e.2
    have hrest := ih (assign out e.1 e.2)
    simp only [length_cons]
    change (assignAll (assign out e.1 e.2) es).entries.length ≤ _
    omega

/-- An entry assigned to `__proto__` is lost. -/
theorem length_assignAll_lt (out : OrderedMap String (Value σ)) (h : ∃ e ∈ es, e.1 = "__proto__") :
    (assignAll out es).entries.length < out.entries.length + es.length := by
  obtain ⟨e, he, hproto⟩ := h
  obtain ⟨pre, post, rfl⟩ := append_of_mem he
  have hpre := length_assignAll_le out pre
  have hpost := length_assignAll_le (assignAll out pre) post
  have hskip : assignAll out (pre ++ e :: post) = assignAll (assignAll out pre) post := by
    simp [assignAll, foldl_append, assign, hproto]
  rw [hskip, length_append, length_cons]
  omega

end Assign

end Value

/-! ### There and back -/

theorem isRawKey_camelToSnake (key : String) : isRawKey (camelToSnake key) = isRawKey key := by
  rw [Bool.eq_iff_iff, isRawKey, isRawKey, beq_iff_eq, beq_iff_eq]
  constructor
  · intro h
    -- The wire form has no underscore, so it is the key itself.
    have hchars : snakeChars key.toList = "env".toList := by
      rw [← h, camelToSnake, String.toList_ofList]
    have hsame : snakeChars key.toList = key.toList := by
      refine snakeChars_eq_of_not_mem ?_
      rw [hchars]
      decide
    exact String.toList_inj.mp (hsame.symm.trans hchars)
  · rintro rfl
    decide

variable {key : String}

theorem noHump_of_keyKept (h : keyKept key = true) : NoHump key.toList :=
  of_decide_eq_true ((Bool.and_eq_true _ _).mp h).1

theorem camelToSnake_ne_proto (h : keyKept key = true) : camelToSnake key ≠ "__proto__" := by
  intro hproto
  have hback := (snakeToCamel_camelToSnake_iff key).mpr (noHump_of_keyKept h)
  have hname : snakeToCamel "__proto__" = "_Proto__" := by decide
  rw [hproto, hname] at hback
  subst hback
  revert h
  decide

theorem keyKept_of_noHump (h : NoHump key.toList)
    (hproto : camelToSnake key ≠ "__proto__") : keyKept key = true := by
  refine (Bool.and_eq_true _ _).mpr ⟨decide_eq_true h, ?_⟩
  rw [bne_iff_ne]
  rintro rfl
  exact hproto (by decide)

namespace Value

/-- What an object's entries become on the wire and back. -/
def sent (es : List (String × Value σ)) : OrderedMap String (Value σ) :=
  assignAll .empty (converted camelToSnake (fun k => isRawKey (camelToSnake k)) es)

/-- What the other side has of an object. -/
def received (es : List (String × Value σ)) : OrderedMap String (Value σ) :=
  assignAll .empty (converted snakeToCamel isRawKey (sent es).entries)

theorem toCamelCase_toSnakeCase_object (es : List (String × Value σ)) :
    toCamelCase (toSnakeCase (.object es) false) false = .object (received es).entries := by
  simp only [toSnakeCase, toCamelCase, convert, convertEntries_eq, Bool.false_eq_true, if_false]
  rfl

theorem received_of_kept {es : List (String × Value σ)} (hnodup : (es.map Prod.fst).Nodup)
    (hkept : ∀ e ∈ es, keyKept e.1 = true) :
    (received es).entries = es.map fun e =>
      (e.1, toCamelCase (toSnakeCase e.2 (isRawKey e.1)) (isRawKey e.1)) := by
  have hback : ∀ e ∈ es, snakeToCamel (camelToSnake e.1) = e.1 := fun e he =>
    (snakeToCamel_camelToSnake_iff e.1).mpr (noHump_of_keyKept (hkept e he))
  have hsent : (sent es).entries =
      converted camelToSnake (fun k => isRawKey (camelToSnake k)) es := by
    refine entries_assignAll ?_ ?_
    · -- The wire forms of different kept keys are different: they come back.
      have hkeys : (converted camelToSnake (fun k => isRawKey (camelToSnake k)) es).map Prod.fst =
          (es.map Prod.fst).map camelToSnake := by
        simp [converted, Function.comp_def]
      have hmaps : ((es.map Prod.fst).map camelToSnake).map snakeToCamel = es.map Prod.fst := by
        rw [map_map, map_map]
        exact map_congr_left hback
      have hback' : (((es.map Prod.fst).map camelToSnake).map snakeToCamel).Nodup := by
        rw [hmaps]
        exact hnodup
      change (([] : List String) ++ _).Nodup
      rw [hkeys, nil_append]
      exact Nodup.of_map snakeToCamel hback'
    · intro e he
      obtain ⟨e', he', rfl⟩ := mem_map.mp he
      exact camelToSnake_ne_proto (hkept e' he')
  have hreceived : converted snakeToCamel isRawKey (sent es).entries = es.map fun e =>
      (e.1, toCamelCase (toSnakeCase e.2 (isRawKey e.1)) (isRawKey e.1)) := by
    rw [hsent, converted, converted, map_map]
    refine map_congr_left fun e he => ?_
    simp only [Function.comp_apply, hback e he, isRawKey_camelToSnake]
    simp only [toSnakeCase, toCamelCase, isRawKey_camelToSnake]
  rw [← hreceived]
  refine entries_assignAll ?_ ?_
  · rw [hreceived]
    change (([] : List String) ++ _).Nodup
    rw [nil_append, map_map]
    exact hnodup
  · intro e he
    rw [hreceived] at he
    obtain ⟨e', he', rfl⟩ := mem_map.mp he
    intro hproto
    have hhump := noHump_of_keyKept (hkept e' he')
    rw [show e'.1 = "__proto__" from hproto] at hhump
    exact absurd hhump (by decide)

theorem kept_of_received {es : List (String × Value σ)} (h : (received es).entries = es) :
    ∀ e ∈ es, keyKept e.1 = true := by
  have hkeys : (received es).keys = es.map Prod.fst := congrArg (map Prod.fst) h
  intro e he
  refine keyKept_of_noHump ?_ fun hproto => ?_
  · have hmem : e.1 ∈ (received es).keys := hkeys ▸ mem_map_of_mem he
    rcases keys_assignAll_subset e.1 hmem with hmem | hmem
    · cases hmem
    · obtain ⟨c, hc, hce⟩ := mem_map.mp hmem
      obtain ⟨w, -, rfl⟩ := mem_map.mp hc
      rw [← hce]
      rw [snakeToCamel, String.toList_ofList]
      exact noHump_camelChars _
  · -- The entry is lost on the way, so fewer come back.
    have hlost : (sent es).entries.length < es.length := by
      have hlt : (sent es).entries.length <
          0 + (converted camelToSnake (fun k => isRawKey (camelToSnake k)) es).length :=
        length_assignAll_lt .empty ⟨_, mem_map_of_mem he, hproto⟩
      rwa [Nat.zero_add, converted, length_map] at hlt
    have hle := length_assignAll_le .empty (converted snakeToCamel isRawKey (sent es).entries)
    have hlength : (received es).entries.length = es.length := congrArg length h
    simp only [converted, length_map, empty, length_nil] at hle
    simp only [received, converted, empty] at hlength
    omega

/-- **A value comes back exactly if its converted keys do.** -/
theorem toCamelCase_toSnakeCase_iff (v : Value σ) : ∀ raw, v.wellFormed = true →
    (toCamelCase (toSnakeCase v raw) raw = v ↔ v.kept raw = true) := by
  induction v using Value.ind with
  | scalar | bytes => exact fun raw _ => iff_of_true rfl rfl
  | array vs ih =>
    intro raw hwf
    have hwf := (wellFormedAll_iff vs).mp hwf
    have hback : toCamelCase (toSnakeCase (.array vs) raw) raw =
        .array (vs.map fun v => toCamelCase (toSnakeCase v false) false) := by
      simp only [toSnakeCase, toCamelCase, convert, convertAll_eq, map_map]
      rfl
    rw [hback, kept, keptAll_iff, array.injEq]
    constructor
    · intro h v hv
      have hid : vs.map (fun v => toCamelCase (toSnakeCase v false) false) = vs.map id := by
        rw [h, map_id]
      exact (ih v hv false (hwf v hv)).mp (map_inj_left.mp hid v hv)
    · intro h
      refine (map_congr_left fun v hv => ?_).trans (map_id vs)
      exact (ih v hv false (hwf v hv)).mpr (h v hv)
  | object es ih =>
    intro raw hwf
    cases raw with
    | true => exact iff_of_true rfl rfl
    | false =>
      obtain ⟨hnodup, hwf⟩ := (Bool.and_eq_true _ _).mp hwf
      have hnodup := of_decide_eq_true hnodup
      have hwf := (wellFormedEntries_iff es).mp hwf
      rw [toCamelCase_toSnakeCase_object, object.injEq, kept, Bool.false_or, keptEntries_iff]
      constructor
      · intro h e he
        have hkept := kept_of_received h
        refine ⟨hkept e he, (ih e he (isRawKey e.1) (hwf e he)).mp ?_⟩
        rw [received_of_kept hnodup hkept] at h
        have hid : es.map (fun e =>
            (e.1, toCamelCase (toSnakeCase e.2 (isRawKey e.1)) (isRawKey e.1))) = es.map id := by
          rw [h, map_id]
        exact congrArg Prod.snd (map_inj_left.mp hid e he)
      · intro h
        rw [received_of_kept hnodup fun e he => (h e he).1]
        refine (map_congr_left fun e he => ?_).trans (map_id es)
        exact Prod.ext rfl ((ih e he (isRawKey e.1) (hwf e he)).mpr (h e he).2)

end Value

/-- **A message comes back exactly if its converted keys do.**  What MessagePack carries, it is
taken to give back. -/
theorem decode_encode_iff (msgpackEncode : Value σ → List UInt8)
    (msgpackDecode : List UInt8 → Option (Value σ)) (m : Value σ) (hwf : m.wellFormed = true)
    (hpack : msgpackDecode (msgpackEncode (toSnakeCase m false)) = some (toSnakeCase m false)) :
    decodeMessage msgpackDecode (encodeMessage msgpackEncode m) = some m ↔ m.kept false = true := by
  rw [decodeMessage, encodeMessage, hpack, Option.map_some, Option.some.injEq]
  exact m.toCamelCase_toSnakeCase_iff false hwf

/-- A SPAWN with variables whose names a conversion would change. -/
def spawnMessage : Value (ℕ ⊕ String) :=
  .object [("type", .scalar (.inr "SPAWN")), ("requestId", .scalar (.inr "r")),
    ("env", .object [("my_var", .scalar (.inr "1")), ("PATH", .scalar (.inr "/bin"))])]

/-- Its bytes, as MessagePack has them. -/
def spawnBytes : List UInt8 :=
  [0x83, 0xa4, 0x74, 0x79, 0x70, 0x65, 0xa5, 0x53, 0x50, 0x41, 0x57, 0x4e, 0xaa, 0x72, 0x65, 0x71,
    0x75, 0x65, 0x73, 0x74, 0x5f, 0x69, 0x64, 0xa1, 0x72, 0xa3, 0x65, 0x6e, 0x76, 0x82, 0xa6, 0x6d,
    0x79, 0x5f, 0x76, 0x61, 0x72, 0xa1, 0x31, 0xa4, 0x50, 0x41, 0x54, 0x48, 0xa4, 0x2f, 0x62, 0x69,
    0x6e]

theorem decode_encode_spawn :
    decodeMessage
      (fun data => if data = spawnBytes then some (toSnakeCase spawnMessage false) else none)
      (encodeMessage (fun _ => spawnBytes) spawnMessage) = some spawnMessage :=
  (decode_encode_iff (fun _ => spawnBytes)
    (fun data => if data = spawnBytes then some (toSnakeCase spawnMessage false) else none)
    spawnMessage (by decide) (if_pos rfl)).mpr (by decide)

/-- A HELLO with a theme overlay, whose keys are free: one of them has an underscore. -/
def helloMessage : Value (ℕ ⊕ String) :=
  .object [("type", .scalar (.inr "HELLO")), ("version", .scalar (.inl 1)),
    ("agentVersion", .scalar (.inr "1.0.0")), ("capabilities", .array []),
    ("visualHints", .object [("themeOverlay",
      .object [("selection_background", .scalar (.inr "#264f78"))])])]

/-- **The free keys of a theme overlay are converted like the protocol's**, and do not all come
back. -/
theorem themeOverlay_not_kept :
    helloMessage.wellFormed = true ∧
      ∀ (msgpackEncode : Value (ℕ ⊕ String) → List UInt8)
        (msgpackDecode : List UInt8 → Option (Value (ℕ ⊕ String))),
        msgpackDecode (msgpackEncode (toSnakeCase helloMessage false)) =
            some (toSnakeCase helloMessage false) →
          decodeMessage msgpackDecode (encodeMessage msgpackEncode helloMessage) ≠
            some helloMessage := by
  refine ⟨by decide, ?_⟩
  intro msgpackEncode msgpackDecode hpack hback
  rw [decodeMessage, encodeMessage, hpack] at hback
  have hsame : toCamelCase (toSnakeCase helloMessage false) false = helloMessage :=
    Option.some.inj hback
  have hkept := (helloMessage.toCamelCase_toSnakeCase_iff false (by decide)).mp hsame
  revert hkept
  decide

end Lasterm.Wire
